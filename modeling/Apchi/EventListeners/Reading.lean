import Apchi.EventListeners.Section
import Apchi.Lib.Properties
import Apchi.Lib.Raising
import Apchi.Pipeline.Parsing

/-!
# Reading an Event Listener back from its file

The file carries a type and properties and no name, so the listener is named after its type.
-/

namespace Apchi.EventListeners

open Lib Pipeline

/-- The property that says what a listener is. -/
def LISTENER : String := "event-listener.name"

/-- What is said of a file that is not read. -/
def reasonOf : Properties.Refusal → String
  | .malformed number line => s!"line {number} is not key=value: '{line}'"
  | .unnamed => "there is no event-listener.name, so nothing says what plugin"

/-- `parse_properties`: the type, the other properties, and the comments. -/
def parseProperties (path content : String) :
    Except Raised (String × Dict × List (String × Json)) :=
  match Properties.read LISTENER content with
  | .ok (listenerType, contents) => .ok (listenerType, contents.properties,
      contents.comments.map fun comment => (s!"a comment on line {comment.1}", .str comment.2))
  | .error refusal => .error (.parseProblem path (reasonOf refusal))

/-- `parse_files`: an absent file means no listener. -/
def parseFiles (files : Dict) (settings : Settings) : Except Raised Parsed :=
  match files[listenerPath settings]? with
  | none => .ok {}
  | some content => do
      let (listenerType, properties, unaccounted) ←
        parseProperties (listenerPath settings) content
      return {
        resources := (∅ : Resources).insert listenerType (storedListener listenerType properties)
        unaccounted := unaccounted.map fun (what, found) =>
          { path := listenerPath settings, what, content := found } }

/-- Nothing but `ParseProblem` is raised. -/
theorem parseFiles_raises (files : Dict) (settings : Settings) :
    OnlyRaises Raised.Problem (parseFiles files settings) := by
  unfold parseFiles
  split
  · exact .ok _
  · refine OnlyRaises.bind ?_ fun _ _ => .ok _
    unfold parseProperties
    split
    · exact .ok _
    · exact .error trivial

/-- What is read is held. -/
theorem parseFiles_held {files : Dict} {settings : Settings} {parsed : Parsed}
    (h : parseFiles files settings = .ok parsed) : Held parsed.resources := by
  unfold parseFiles at h
  split at h
  · cases h
    intro name value hvalue
    simp at hvalue
  · obtain ⟨⟨listenerType, properties, unaccounted⟩, -, h⟩ := ok_of_bind h
    cases h
    intro name value hvalue
    rw [Std.ExtTreeMap.getElem?_insert] at hvalue
    split at hvalue
    · exact ⟨listenerType, properties, (Option.some.inj hvalue).symm⟩
    · simp at hvalue

end Apchi.EventListeners

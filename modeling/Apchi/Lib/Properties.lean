import Apchi.Lib.PyText
import Std.Data.ExtTreeMap

/-!
# Properties files, read line by line

A line that is not blank is a comment, or a key and a value on either side of the first `=`, without
the blanks around them.  One key names what the file is about, and a file without it says nothing.
-/

namespace Lib

namespace Properties

open PyText

/-- What a line is. -/
inductive Line where
  | blank
  | comment (text : String)
  | property (key value : String)
  | malformed (text : String)
  deriving DecidableEq, Repr

/-- `str.partition`, of one character: what stands before and after the first one, if there is one. -/
def partition (separator : Char) : List Char → Option (List Char × List Char)
  | [] => none
  | c :: rest =>
      if c = separator then some ([], rest)
      else (partition separator rest).map fun parts => (c :: parts.1, parts.2)

/-- One line. -/
def readLine (raw : String) : Line :=
  match strip raw.toList with
  | [] => .blank
  | '#' :: text => .comment (.ofList ('#' :: text))
  | text =>
      match partition '=' text with
      | some (key, value) => .property (.ofList (strip key)) (.ofList (strip value))
      | none => .malformed (.ofList text)

/-- What has been read so far: what the file is about, its other properties, and its comments with the
lines they are on. -/
structure Contents where
  named : Option String := none
  properties : Std.ExtTreeMap String String := ∅
  comments : List (Nat × String) := []

/-- Why a file is not read: a line that is no property, or nothing that names it. -/
inductive Refusal where
  | malformed (number : Nat) (line : String)
  | unnamed
  deriving DecidableEq, Repr

/-- Takes in one line. -/
def takeLine (name : String) (contents : Contents) (number : Nat) : Line → Except Refusal Contents
  | .blank => .ok contents
  | .comment text => .ok { contents with comments := contents.comments ++ [(number, text)] }
  | .property key value =>
      if key = name then .ok { contents with named := some value }
      else .ok { contents with properties := contents.properties.insert key value }
  | .malformed text => .error (.malformed number text)

/-- Takes in the lines from this one on. -/
def takeLines (name : String) : Nat → List String → Contents → Except Refusal Contents
  | _, [], contents => .ok contents
  | number, raw :: rest, contents => do
      let contents ← takeLine name contents number (readLine raw)
      takeLines name (number + 1) rest contents

/-- A whole file, which the property of this name is to name. -/
def read (name content : String) : Except Refusal (String × Contents) := do
  let contents ← takeLines name 1 (lines content) {}
  match contents.named with
  | some named => return (named, contents)
  | none => throw .unnamed

/-! ### Which files are read -/

/-- Every line of the file is blank, a comment or a property, and one of them names it. -/
structure Legible (name content : String) : Prop where
  lines : ∀ raw ∈ lines content, ∀ text, readLine raw ≠ .malformed text
  named : ∃ raw ∈ PyText.lines content, ∃ value, readLine raw = .property name value

theorem takeLine_property (name : String) (contents : Contents) (number : Nat) (key value : String) :
    takeLine name contents number (.property key value) =
      if key = name then .ok { contents with named := some value }
      else .ok { contents with properties := contents.properties.insert key value } := rfl

theorem takeLine_eq_ok {name : String} {contents next : Contents} {number : Nat} {line : Line}
    (h : takeLine name contents number line = .ok next) :
    (∀ text, line ≠ .malformed text) ∧
      (next.named.isSome ↔ contents.named.isSome ∨ ∃ value, line = .property name value) := by
  cases line with
  | blank =>
    cases h
    exact ⟨nofun, by simp⟩
  | comment text =>
    cases h
    exact ⟨nofun, by simp⟩
  | property key value =>
    rw [takeLine_property] at h
    split at h
    · next hkey =>
      cases h
      exact ⟨nofun, by simp [hkey]⟩
    · next hkey =>
      cases h
      exact ⟨nofun, by simp [hkey]⟩
  | malformed text => cases h

theorem takeLine_ok {line : Line} (h : ∀ text, line ≠ .malformed text) (name : String)
    (contents : Contents) (number : Nat) :
    ∃ next, takeLine name contents number line = .ok next := by
  cases line with
  | blank => exact ⟨_, rfl⟩
  | comment text => exact ⟨_, rfl⟩
  | property key value =>
    rw [takeLine_property]
    split <;> exact ⟨_, rfl⟩
  | malformed text => exact absurd rfl (h text)

theorem takeLines_eq_ok {name : String} {number : Nat} {raws : List String}
    {contents final : Contents} (h : takeLines name number raws contents = .ok final) :
    (∀ raw ∈ raws, ∀ text, readLine raw ≠ .malformed text) ∧
      (final.named.isSome ↔
        contents.named.isSome ∨ ∃ raw ∈ raws, ∃ value, readLine raw = .property name value) := by
  induction raws generalizing number contents with
  | nil =>
    cases h
    exact ⟨by simp, by simp⟩
  | cons raw rest ih =>
    unfold takeLines at h
    cases hline : takeLine name contents number (readLine raw) with
    | error refusal =>
      rw [hline] at h
      cases h
    | ok next =>
      rw [hline] at h
      obtain ⟨hfirst, hnext⟩ := takeLine_eq_ok hline
      obtain ⟨hrest, hfinal⟩ := ih h
      refine ⟨List.forall_mem_cons.mpr ⟨hfirst, hrest⟩, ?_⟩
      rw [hfinal, hnext, List.exists_mem_cons_iff, or_assoc]

theorem takeLines_ok {raws : List String} (h : ∀ raw ∈ raws, ∀ text, readLine raw ≠ .malformed text)
    (name : String) (number : Nat) (contents : Contents) :
    ∃ final, takeLines name number raws contents = .ok final := by
  induction raws generalizing number contents with
  | nil => exact ⟨_, rfl⟩
  | cons raw rest ih =>
    obtain ⟨hfirst, hrest⟩ := List.forall_mem_cons.mp h
    obtain ⟨next, hnext⟩ := takeLine_ok hfirst name contents number
    unfold takeLines
    rw [hnext]
    exact ih hrest (number + 1) next

/-- A file is read exactly where it is legible. -/
theorem read_ok_iff {name content : String} :
    (∃ result, read name content = .ok result) ↔ Legible name content := by
  unfold read
  constructor
  · rintro ⟨result, h⟩
    cases hlines : takeLines name 1 (lines content) {} with
    | error refusal =>
      rw [hlines] at h
      cases h
    | ok contents =>
      obtain ⟨hall, hnamed⟩ := takeLines_eq_ok hlines
      refine ⟨hall, ?_⟩
      cases hname : contents.named with
      | none =>
        rw [hlines] at h
        change (match contents.named with
          | some named => Except.ok (named, contents)
          | none => Except.error Refusal.unnamed) = .ok result at h
        rw [hname] at h
        cases h
      | some named =>
        rw [hname] at hnamed
        exact (hnamed.mp rfl).resolve_left (by simp)
  · rintro ⟨hall, hsome⟩
    obtain ⟨contents, hlines⟩ := takeLines_ok hall name 1 {}
    obtain ⟨named, hname⟩ := Option.isSome_iff_exists.mp
      ((takeLines_eq_ok hlines).2.mpr (Or.inr hsome))
    refine ⟨(named, contents), ?_⟩
    rw [hlines]
    change (match contents.named with
      | some named => Except.ok (named, contents)
      | none => Except.error Refusal.unnamed) = .ok (named, contents)
    rw [hname]

end Properties

end Lib

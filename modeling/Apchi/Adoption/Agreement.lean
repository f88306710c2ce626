import Apchi.Adoption.Discovery
import Apchi.Lib.PropertiesTexts

/-!
# What Apchi reads of a properties file is what Trino loads of it

Three places of Apchi read properties files: the Catalogs and the Event Listeners when a Cluster is
adopted, and Trino's own configuration when a Cluster is looked at.
-/

namespace Apchi.Adoption

open Lib Pipeline Properties

/-- What is merged of a text is the last value under every key, over what was there. -/
theorem foldl_takeProperty (raws : List String) (merged : Dict) (key : String) :
    (raws.foldl takeProperty merged)[key]? = (lastIn (propertiesIn raws) key).or merged[key]? := by
  induction raws generalizing merged with
  | nil => rfl
  | cons raw rest ih =>
    rw [List.foldl_cons, ih, propertiesIn_cons]
    unfold takeProperty
    cases readLine raw with
    | blank => rfl
    | comment text => rfl
    | malformed text => rfl
    | property other value =>
      dsimp only
      rw [lastIn_cons, Option.or_assoc, Std.ExtTreeMap.getElem?_insert]
      by_cases hkey : key = other
      · subst hkey
        simp
      · have hne : ¬ compare other key = .eq :=
          fun heq => hkey (Std.LawfulEqCmp.compare_eq_iff_eq.mp heq).symm
        rw [if_neg hne, if_neg hkey, Option.none_or]

/-- On a text of the common form whatever one of the three readers returns is what Java loads. -/
theorem readers_agree {text : String} (h : CommonText text) (path : String) :
    (∀ connector properties lost,
      Catalogs.parseProperties path text = .ok (connector, properties, lost) →
        JavaProperties.Loads text (((Catalogs.CONNECTOR, connector) :: properties.toList).map chars)) ∧
    (∀ listenerType properties unaccounted,
      EventListeners.parseProperties path text = .ok (listenerType, properties, unaccounted) →
        JavaProperties.Loads text
          (((EventListeners.LISTENER, listenerType) :: properties.toList).map chars)) ∧
    JavaProperties.Loads text (((PyText.lines text).foldl takeProperty ∅).toList.map chars) := by
  refine ⟨fun connector properties lost hread => ?_, fun listenerType properties unaccounted hread =>
    ?_, h.loads fun property => ?_⟩
  · unfold Catalogs.parseProperties at hread
    split at hread
    · next named contents hcontents =>
      cases hread
      exact h.read_loads hcontents
    · cases hread
  · unfold EventListeners.parseProperties at hread
    split at hread
    · next named contents hcontents =>
      cases hread
      exact h.read_loads hcontents
    · cases hread
  · rw [List.mem_map]
    constructor
    · rintro ⟨⟨key, value⟩, hmem, rfl⟩
      have hvalue := Std.ExtTreeMap.mem_toList_iff_getElem?_eq_some.mp hmem
      rw [foldl_takeProperty] at hvalue
      exact ⟨key, value, by simpa using hvalue, rfl⟩
    · rintro ⟨key, value, hvalue, rfl⟩
      refine ⟨(key, value), Std.ExtTreeMap.mem_toList_iff_getElem?_eq_some.mpr ?_, rfl⟩
      rw [foldl_takeProperty, hvalue]
      rfl

/-- A file as somebody writes one: a comment, an empty line, and blanks around the equals sign. -/
def handWritten : String := "# kept by hand\r\n\nconnector.name = memory\n"

theorem handWritten_common : CommonText handWritten where
  breaks := by
    have hall : (handWritten.toList.all fun c =>
        !PyText.isLineBreak c || JavaProperties.isNewline c) = true := by decide
    intro c hc hbreak
    have hc := List.all_eq_true.mp hall c hc
    rw [hbreak] at hc
    simpa using hc
  lines := by
    have hlines : PyText.splitLines handWritten.toList =
        ["# kept by hand".toList, [], "connector.name = memory".toList] := by decide
    have hblank : Blanks [' '] := List.all_eq_true.mp (by decide)
    obtain ⟨hwritten, hplain⟩ : Written (chars (Catalogs.CONNECTOR, "memory")) ∧
        JavaProperties.Plain (chars (Catalogs.CONNECTOR, "memory")) :=
      named_of_tidy (List.all_eq_true.mp (by decide)) (List.all_eq_true.mp (by decide))
    intro line hline
    rw [hlines] at hline
    simp only [List.mem_cons, List.not_mem_nil, or_false] at hline
    rcases hline with rfl | rfl | rfl
    · exact Common.comment (List.forall_mem_nil _) " kept by hand".toList
    · exact Common.blank (List.forall_mem_nil _)
    · exact Common.property (List.forall_mem_nil _) hblank hblank hwritten hplain

theorem readers_agree_of_handWritten :
    JavaProperties.Loads handWritten
      (((PyText.lines handWritten).foldl takeProperty ∅).toList.map chars) :=
  (readers_agree handWritten_common CONFIG_PROPERTIES).2.2

end Apchi.Adoption

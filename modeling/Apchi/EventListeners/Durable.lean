import Apchi.EventListeners.Reading
import Apchi.Lib.PropertiesFiles

/-!
# The file of an Event Listener

The file is written without any escaping, and read in two places: by Trino when it starts, and by Apchi
when a Cluster is adopted.
-/

namespace Apchi.EventListeners

open Lib Pipeline Properties

theorem PluginName.tidy (name : PluginName) : ∀ c ∈ name.text.toList, isTidy c = true := by
  intro c hc
  have hsafe := name.safe c hc
  simp only [isPluginChar, Bool.or_eq_true, beq_iff_eq] at hsafe
  unfold isTidy
  delta Char.isAlphanum Char.isAlpha
  simp only [Bool.or_eq_true, beq_iff_eq]
  tauto

section staged

variable {closest : String → List String → Option String} {listeners : Resources}

/-- There is never more than one listener. -/
theorem Staged.single (h : Staged closest listeners) : listeners.size ≤ MAX_LISTENERS := by
  induction h with
  | empty => simp
  | @create stored resources name listenerType properties _ hcreate ih =>
    unfold createEventListener at hcreate
    split at hcreate
    · cases hcreate
    · split at hcreate
      · cases hcreate
      · next hfew =>
        obtain ⟨kept, -, hcreate⟩ := ok_of_bind hcreate
        cases hcreate
        have hsize := Std.ExtTreeMap.size_insert_le (t := stored) (k := name)
          (v := storedListener listenerType kept)
        omega
  | @update stored resources name listenerType properties _ hupdate ih =>
    have hreplaced : ∀ value, name ∈ stored → (stored.insert name value).size = stored.size := by
      intro value hname
      simpa [Std.ExtTreeMap.size_insert] using hname
    unfold updateEventListener at hupdate
    split at hupdate
    · cases hupdate
    · next current hcurrent =>
      have hname : name ∈ stored := Std.ExtTreeMap.mem_iff_isSome_getElem?.mpr (by simp [hcurrent])
      split at hupdate
      · split at hupdate
        · cases hupdate
        · cases hupdate
        · obtain ⟨kept, -, hupdate⟩ := ok_of_bind hupdate
          cases hupdate
          rw [hreplaced _ hname]
          exact ih
      · cases hupdate
      · cases hupdate
    · cases hupdate
  | @delete stored resources gone _ hdelete ih =>
    unfold deleteEventListener at hdelete
    split at hdelete
    · cases hdelete
      exact Nat.le_trans Std.ExtTreeMap.size_erase_le ih
    · cases hdelete

/-- The one listener is all there is. -/
theorem Staged.toList_eq (h : Staged closest listeners) {name : String} {value : Json}
    (hvalue : listeners[name]? = some value) : listeners.toList = [(name, value)] := by
  have hmem := Std.ExtTreeMap.mem_toList_iff_getElem?_eq_some.mpr hvalue
  have hsingle := h.single
  rw [← Std.ExtTreeMap.length_toList, MAX_LISTENERS] at hsingle
  cases hlist : listeners.toList with
  | nil =>
    rw [hlist] at hmem
    cases hmem
  | cons entry rest =>
    rw [hlist] at hmem hsingle
    obtain rfl : rest = [] := by
      apply List.eq_nil_of_length_eq_zero
      simpa using hsingle
    rw [List.mem_singleton.mp hmem]

end staged

/-! ### The file -/

theorem renderProperties_eq (listenerType : String) (properties : Dict) :
    renderProperties (storedListener listenerType properties) =
      .ok (fileOf ((LISTENER, listenerType) :: properties.toList)) := by
  have hproperties := propertiesOf_stored properties
  show (do
    let type ← typeOf (some (.str listenerType))
    let properties ← propertiesOf (some (.obj (properties.toList.map fun (key, value) =>
      (key, .str value))))
    return "\n".intercalate (("event-listener.name=" ++ type) ::
      properties.toList.map fun (key, value) => key ++ "=" ++ value) ++ "\n") = _
  rw [hproperties]
  rfl

theorem fileOf_ne_empty (properties : List (String × String)) : fileOf properties ≠ "" := by
  intro h
  have hlength := congrArg String.length h
  simp [fileOf] at hlength

/-- The one listener goes into the one file. -/
theorem Staged.renderFiles_eq {closest : String → List String → Option String}
    {listeners : Resources} (h : Staged closest listeners) (settings : Settings)
    {name listenerType : String} {properties : Dict}
    (hvalue : listeners[name]? = some (storedListener listenerType properties)) :
    renderFiles listeners settings = .ok ((∅ : Dict).insert (listenerPath settings)
      (fileOf ((LISTENER, listenerType) :: properties.toList))) := by
  have hsecret : renderSecret listeners = .ok ((∅ : Dict).insert FILE_KEY
      (fileOf ((LISTENER, listenerType) :: properties.toList))) := by
    unfold renderSecret
    rw [h.toList_eq hvalue]
    dsimp only
    rw [renderProperties_eq]
    rfl
  unfold renderFiles
  rw [hsecret]
  simp only [bind, Except.bind, Std.ExtTreeMap.getElem?_insert_self]
  exact if_neg (fileOf_ne_empty _)

/-- Both readers find in a file the listener that was staged; Apchi files it under its type. -/
structure Recovers (settings : Settings) (content listenerType : String) (properties : Dict) :
    Prop where
  read : parseFiles ((∅ : Dict).insert (listenerPath settings) content) settings =
    .ok { resources := (∅ : Resources).insert listenerType (storedListener listenerType properties) }
  loads : JavaProperties.Loads content (((LISTENER, listenerType) :: properties.toList).map chars)

theorem storedListener_inj {listenerType : String} {properties others : Dict}
    (h : storedListener listenerType properties = storedListener listenerType others) :
    properties = others := by
  have hsame := propertiesOf_stored properties
  unfold storedListener at h
  simp only [Json.obj.injEq, List.cons.injEq, Prod.mk.injEq, and_true, true_and] at h
  rw [h, propertiesOf_stored] at hsame
  exact (Except.ok.inj hsame).symm

/-- One listener is filed as another one is only where they are the same. -/
theorem insert_storedListener_inj {listenerType other : String} {properties others : Dict}
    (h : (∅ : Resources).insert listenerType (storedListener listenerType properties) =
      (∅ : Resources).insert other (storedListener other others)) :
    listenerType = other ∧ properties = others := by
  have hget := congrArg (fun resources : Resources => resources[listenerType]?) h
  simp only [Std.ExtTreeMap.getElem?_insert_self, Std.ExtTreeMap.getElem?_insert,
    Std.ExtTreeMap.getElem?_empty] at hget
  split at hget
  · next heq =>
    obtain rfl := Std.LawfulEqCmp.compare_eq_iff_eq.mp heq
    exact ⟨rfl, storedListener_inj (Option.some.inj hget)⟩
  · cases hget

theorem parseFiles_eq_ok (settings : Settings) {content listenerType : String} {properties : Dict} :
    parseFiles ((∅ : Dict).insert (listenerPath settings) content) settings = .ok {
        resources := (∅ : Resources).insert listenerType
          (storedListener listenerType properties) } ↔
      read LISTENER content = .ok (listenerType, { named := some listenerType, properties }) := by
  unfold parseFiles parseProperties
  rw [Std.ExtTreeMap.getElem?_insert_self]
  dsimp only
  cases hread : read LISTENER content with
  | error refusal =>
    simp only [bind, Except.bind]
    exact iff_of_false (by simp) (by simp)
  | ok result =>
    obtain ⟨named, given, found, comments⟩ := result
    obtain ⟨-, hnamed⟩ := read_eq_ok.mp hread
    obtain rfl : given = some named := hnamed
    simp only [bind, Except.bind, pure, Except.pure, Except.ok.injEq, Parsed.mk.injEq,
      List.map_eq_nil_iff, and_true, Prod.mk.injEq, Contents.mk.injEq, Option.some.injEq]
    constructor
    · rintro ⟨hresources, hcomments⟩
      obtain ⟨rfl, rfl⟩ := insert_storedListener_inj hresources
      exact ⟨rfl, rfl, rfl, hcomments⟩
    · rintro ⟨rfl, -, rfl, hcomments⟩
      exact ⟨rfl, hcomments⟩

/-- A listener with nothing but its type, as it is staged. -/
def mysqlListener : Resources := (∅ : Resources).insert "audit" (storedListener "mysql" ∅)

end Apchi.EventListeners

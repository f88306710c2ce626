import Apchi.Lib.Json
import Apchi.Lib.Prog

/-!
# Records stored as JSON objects

A codec writes a kind of value as JSON and reads it back.  A record is an object with a field for
each of its parts, a part that is unset being `null`; it is read one field after the other, so a
record that was written is read back once each of its fields is.
-/

namespace Lib

/-- How a kind of value is written: never as `null`, as a document, and so that it is read back. -/
structure Codec (α : Type) where
  write : α → Json
  read : Json → Option α
  read_write : ∀ a, read (write a) = some a
  write_ne_null : ∀ a, write a ≠ .null
  wf_write : ∀ a, (write a).WF

namespace Codec

variable {α β : Type}

theorem int_ne_null (n : Int) : Json.int n ≠ .null := by
  intro h
  cases h

theorem bool_ne_null (b : Bool) : Json.bool b ≠ .null := by
  intro h
  cases h

def int : Codec Int where
  write n := .int n
  read
    | .int n => some n
    | _ => none
  read_write _ := rfl
  write_ne_null := int_ne_null
  wf_write _ := trivial

def nat : Codec Nat where
  write n := .int n
  read
    | .int (.ofNat n) => some n
    | _ => none
  read_write _ := rfl
  write_ne_null := nofun
  wf_write _ := trivial

def bool : Codec Bool where
  write b := .bool b
  read
    | .bool b => some b
    | _ => none
  read_write _ := rfl
  write_ne_null := bool_ne_null
  wf_write _ := trivial

/-- Values that are texts of some kind. -/
def ofText (text : α → String) (parse : String → Option α) (h : ∀ a, parse (text a) = some a) :
    Codec α where
  write a := .str (text a)
  read
    | .str s => parse s
    | _ => none
  read_write := h
  write_ne_null := nofun
  wf_write _ := trivial

def text : Codec String := ofText id some fun _ => rfl

theorem mapM_read {c : Codec α} (values : List α) :
    (values.map c.write).mapM c.read = some values := by
  induction values with
  | nil => rfl
  | cons a rest ih =>
    rw [List.map_cons, List.mapM_cons, c.read_write, ih]
    rfl

/-- Lists of values. -/
def list (c : Codec α) : Codec (List α) where
  write values := .arr (values.map c.write)
  read
    | .arr elems => elems.mapM c.read
    | _ => none
  read_write values := mapM_read values
  write_ne_null := nofun
  wf_write values := by
    rw [Json.wf_arr]
    intro x hx
    obtain ⟨a, -, rfl⟩ := List.mem_map.mp hx
    exact c.wf_write a

/-! ### Fields -/

/-- A part that may be unset. -/
def optional (c : Codec α) : Option α → Json
  | none => .null
  | some a => c.write a

@[simp] theorem wf_optional (c : Codec α) (value : Option α) : (c.optional value).WF := by
  cases value with
  | none => trivial
  | some a => exact c.wf_write a

/-- Reads a field that may be absent or `null`. -/
def optionalField (c : Codec α) (name : String) (fields : List (String × Json)) :
    Except Error (Option α) :=
  let value := (fields.lookup name).getD .null
  if value = .null then .ok none
  else match c.read value with
    | some a => .ok (some a)
    | none => .error ⟨"ValidationError", name⟩

/-- Reads a field that has to be there. -/
def field (c : Codec α) (name : String) (fields : List (String × Json)) : Except Error α :=
  match (fields.lookup name).bind c.read with
  | some a => .ok a
  | none => .error ⟨"ValidationError", name⟩

theorem optionalField_eq {c : Codec α} {name : String} {fields : List (String × Json)}
    {value : Option α} (h : fields.lookup name = some (c.optional value)) :
    c.optionalField name fields = .ok value := by
  unfold optionalField
  rw [h]
  cases value with
  | none => rfl
  | some a =>
    have hnull : (some (c.optional (some a))).getD .null ≠ .null := c.write_ne_null a
    have hread : c.read ((some (c.optional (some a))).getD .null) = some a := c.read_write a
    dsimp only
    rw [if_neg hnull, hread]

theorem field_eq {c : Codec α} {name : String} {fields : List (String × Json)} {value : α}
    (h : fields.lookup name = some (c.write value)) : c.field name fields = .ok value := by
  unfold field
  rw [h, Option.bind_some, c.read_write]

/-- The record has no other fields. -/
def onlyFields (names : List String) (fields : List (String × Json)) : Except Error Unit :=
  match fields.find? fun field => field.1 ∉ names with
  | none => .ok ()
  | some extra => .error ⟨"ValidationError", extra.1⟩

theorem onlyFields_eq {names : List String} {fields : List (String × Json)}
    (h : ∀ field ∈ fields, field.1 ∈ names) : onlyFields names fields = .ok () := by
  unfold onlyFields
  rw [List.find?_eq_none.mpr fun field hfield => by simpa using h field hfield]

end Codec

/-! ### Lists, one after the other -/

theorem ok_bind {ε α β : Type} (a : α) (f : α → Except ε β) : Except.ok a >>= f = f a := rfl

section mapM

variable {α β : Type} {f : α → Except Error β} {as : List α}

/-- What goes through for each of a list gives something for each. -/
theorem forall_mem_of_mapM {P : β → Prop} {bs : List β} (h : as.mapM f = .ok bs) (hf : ∀ a ∈ as, ∀ b, f a = .ok b → P b) :
    ∀ b ∈ bs, P b := by
  induction as generalizing bs with
  | nil =>
    cases h
    exact nofun
  | cons a rest ih =>
    rw [List.mapM_cons] at h
    obtain ⟨b, hb, h⟩ := ok_of_bind h
    obtain ⟨others, hothers, h⟩ := ok_of_bind h
    cases h
    exact List.forall_mem_cons.mpr ⟨hf a List.mem_cons_self b hb,
      ih hothers fun a ha => hf a (List.mem_cons_of_mem _ ha)⟩

/-- What goes through for each goes through for the list. -/
theorem mapM_ok (h : ∀ a ∈ as, ∃ b, f a = .ok b) : ∃ bs, as.mapM f = .ok bs := by
  induction as with
  | nil => exact ⟨[], rfl⟩
  | cons a rest ih =>
    obtain ⟨b, hb⟩ := h a List.mem_cons_self
    obtain ⟨bs, hbs⟩ := ih fun a ha => h a (List.mem_cons_of_mem _ ha)
    exact ⟨b :: bs, by rw [List.mapM_cons, hb, hbs]; rfl⟩

end mapM

/-- A field is found by its name where names are distinct. -/
theorem lookup_of_mem {α : Type} {fields : List (String × α)}
    (hnodup : (fields.map Prod.fst).Nodup) {name : String} {value : α}
    (hmem : (name, value) ∈ fields) : fields.lookup name = some value := by
  obtain ⟨before, after, rfl⟩ := List.append_of_mem hmem
  rw [List.map_append, List.map_cons, List.nodup_append] at hnodup
  refine List.lookup_eq_some_iff.mpr ⟨before, after, rfl, fun field hfield => ?_⟩
  simpa using Ne.symm (hnodup.2.2 field.1 (List.mem_map_of_mem hfield) name List.mem_cons_self)

theorem mem_of_lookup {α : Type} {fields : List (String × α)} {name : String} {value : α}
    (h : fields.lookup name = some value) : (name, value) ∈ fields := by
  obtain ⟨before, after, rfl, -⟩ := List.lookup_eq_some_iff.mp h
  exact List.mem_append_right _ List.mem_cons_self

/-- A dictionary is what its entries make. -/
theorem ofList_toList {α : Type} (dict : Std.ExtTreeMap String α) :
    Std.ExtTreeMap.ofList dict.toList = dict := by
  refine Std.ExtTreeMap.ext_getElem? fun key => ?_
  cases hkey : dict[key]? with
  | none =>
    refine Std.ExtTreeMap.getElem?_ofList_of_contains_eq_false ?_
    by_contra hmem
    rw [Bool.not_eq_false, List.contains_iff_mem] at hmem
    obtain ⟨entry, hentry, rfl⟩ := List.mem_map.mp hmem
    rw [Std.ExtTreeMap.mem_toList_iff_getElem?_eq_some.mp hentry] at hkey
    cases hkey
  | some value =>
    exact Std.ExtTreeMap.getElem?_ofList_of_mem (Std.LawfulEqCmp.compare_eq_iff_eq.mpr rfl)
      Std.ExtTreeMap.distinct_keys_toList (Std.ExtTreeMap.mem_toList_iff_getElem?_eq_some.mpr hkey)

theorem nodup_toList {α : Type} (dict : Std.ExtTreeMap String α) :
    (dict.toList.map Prod.fst).Nodup := by
  rw [Std.ExtTreeMap.map_fst_toList_eq_keys]
  exact Std.ExtTreeMap.nodup_keys

/-- An entry is found by its key. -/
theorem lookup_toList {α : Type} (dict : Std.ExtTreeMap String α) (key : String) :
    dict.toList.lookup key = dict[key]? := by
  refine Option.ext fun value => ?_
  rw [← Std.ExtTreeMap.mem_toList_iff_getElem?_eq_some]
  exact ⟨mem_of_lookup, lookup_of_mem (nodup_toList dict)⟩

/-- A dictionary of entries under distinct keys has each of them. -/
theorem getElem?_ofList_eq_some {α : Type} {entries : List (String × α)}
    (hnodup : (entries.map Prod.fst).Nodup) {key : String} {value : α} :
    (Std.ExtTreeMap.ofList entries)[key]? = some value ↔ (key, value) ∈ entries := by
  have hdistinct : entries.Pairwise fun entry other => ¬ compare entry.1 other.1 = .eq := by
    refine (List.pairwise_map.mp hnodup).imp fun hne hsame => ?_
    exact hne (Std.LawfulEqCmp.eq_of_compare hsame)
  have hmem : ∀ {value : α}, (key, value) ∈ entries →
      (Std.ExtTreeMap.ofList entries)[key]? = some value := fun hentry =>
    Std.ExtTreeMap.getElem?_ofList_of_mem (Std.LawfulEqCmp.compare_eq_iff_eq.mpr rfl) hdistinct hentry
  refine ⟨fun h => ?_, hmem⟩
  have hkey : key ∈ Std.ExtTreeMap.ofList entries := by
    rw [Std.ExtTreeMap.mem_iff_isSome_getElem?, h]
    rfl
  obtain ⟨⟨_, other⟩, hentry, rfl⟩ :=
    List.mem_map.mp (List.contains_iff_mem.mp (Std.ExtTreeMap.mem_ofList.mp hkey))
  rw [hmem hentry] at h
  cases h
  exact hentry

/-- Dictionaries that have the same keys list them the same. -/
theorem keys_congr {α β : Type} {dict : Std.ExtTreeMap String α} {other : Std.ExtTreeMap String β}
    (h : ∀ key, key ∈ dict ↔ key ∈ other) : dict.keys = other.keys := by
  rw [← Std.ExtTreeMap.keys_map (t := dict) (f := fun _ _ => ()),
    ← Std.ExtTreeMap.keys_map (t := other) (f := fun _ _ => ())]
  congr 1
  refine Std.ExtTreeMap.ext_mem_unit fun key => ?_
  rw [Std.ExtTreeMap.mem_map, Std.ExtTreeMap.mem_map, h]

end Lib

import Apchi.Lib.DateTime
import Apchi.Lib.Keyset
import Mathlib.Data.Prod.Lex

/-!
# Documents and queries

What MongoDB does with the values that are paged by: values of different types are never equal and
never one below the other, texts are compared by their characters, and a date keeps milliseconds.
-/

namespace Lib.Mongo

open Lib.Keyset

/-- An object id: twelve bytes, as hexadecimal digits. -/
structure ObjectId where
  digits : List Char
  valid : digits.length = 24 ∧ ∀ c ∈ digits, c ∈ "0123456789abcdef".toList
deriving DecidableEq

/-- The object id of a text of twenty-four hexadecimal digits. -/
def ObjectId.ofText (text : List Char) : Option ObjectId :=
  let digits := text.map Char.toLower
  if valid : digits.length = 24 ∧ digits.all (· ∈ "0123456789abcdef".toList) then
    some ⟨digits, valid.1, fun c hc => of_decide_eq_true (List.all_eq_true.mp valid.2 c hc)⟩
  else none

/-- A value in a document; a date is already to the millisecond. -/
inductive Bson
  | null
  | number (n : Int)
  | string (text : List Char)
  | objectId (id : ObjectId)
  | date (instant : DateTime)
deriving DecidableEq

namespace Bson

/-- The place of a value's type in the order of all values. -/
def type : Bson → Nat
  | .null => 0
  | .number _ => 1
  | .string _ => 2
  | .objectId _ => 3
  | .date _ => 4

/-- What a value is compared by among those of its type. -/
def content : Bson → List Int
  | .null => []
  | .number n => [n]
  | .string text => (DateTime.codes text).map Int.ofNat
  | .objectId id => (DateTime.codes id.digits).map Int.ofNat
  | .date instant => instant.fields.map Int.ofNat

theorem codes_injective : Function.Injective DateTime.codes :=
  List.map_injective_iff.mpr fun _ _ h => Char.toNat_inj.mp h

theorem content_injective {a b : Bson} (htype : a.type = b.type) (h : a.content = b.content) :
    a = b := by
  have hint : Function.Injective (List.map Int.ofNat) :=
    List.map_injective_iff.mpr fun _ _ h => Int.ofNat.inj h
  cases a with
  | null => cases b <;> first | rfl | cases htype
  | number n =>
    cases b with
    | number m => exact congrArg number (List.head_eq_of_cons_eq h)
    | _ => cases htype
  | string text =>
    cases b with
    | string other => exact congrArg string (codes_injective (hint h))
    | _ => cases htype
  | objectId id =>
    cases b with
    | objectId other =>
      obtain ⟨digits, _⟩ := id
      obtain ⟨digits', _⟩ := other
      cases codes_injective (hint h)
      rfl
    | _ => cases htype
  | date instant =>
    cases b with
    | date other => exact congrArg date (DateTime.fields_injective (hint h))
    | _ => cases htype

def key (value : Bson) : Nat ×ₗ List Int := toLex (value.type, value.content)

theorem key_injective : Function.Injective key := by
  intro a b h
  have h := congrArg ofLex h
  exact content_injective (congrArg Prod.fst h) (congrArg Prod.snd h)

/-- The order by which documents are sorted: of the types first, and within a type. -/
instance : LinearOrder Bson := LinearOrder.lift' key key_injective

end Bson

/-- A document: its fields, as they were written. -/
abbrev Document := List (String × Bson)

/-- The value of a field; one that is not there counts as null. -/
def Document.get (document : Document) (field : String) : Bson :=
  (List.lookup field document).getD .null

/-- Which documents a query matches. -/
abbrev Query := Document → Bool

namespace Query

def everything : Query := fun _ => true

def both (p q : Query) : Query := fun document => p document && q document

def either (p q : Query) : Query := fun document => p document || q document

/-- The field has the value. -/
def eq (field : String) (value : Bson) : Query := fun document => document.get field = value

/-- `$lt`: the field has a value of the same type that is below. -/
def lt (field : String) (value : Bson) : Query := fun document =>
  (document.get field).type = value.type ∧ document.get field < value

/-- `$gte`. -/
def gte (field : String) (value : Bson) : Query := fun document =>
  (document.get field).type = value.type ∧ value ≤ document.get field

/-- `$lte`. -/
def lte (field : String) (value : Bson) : Query := fun document =>
  (document.get field).type = value.type ∧ document.get field ≤ value

@[simp] theorem everything_apply (document : Document) : everything document = true := rfl

theorem lt_apply (field : String) (value : Bson) (document : Document) :
    lt field value document = true ↔
      (document.get field).type = value.type ∧ document.get field < value := decide_eq_true_iff

theorem gte_apply (field : String) (value : Bson) (document : Document) :
    gte field value document = true ↔
      (document.get field).type = value.type ∧ value ≤ document.get field := decide_eq_true_iff

theorem lte_apply (field : String) (value : Bson) (document : Document) :
    lte field value document = true ↔
      (document.get field).type = value.type ∧ document.get field ≤ value := decide_eq_true_iff

theorem both_apply (p q : Query) (document : Document) :
    both p q document = true ↔ p document = true ∧ q document = true := Bool.and_eq_true_iff

theorem either_apply (p q : Query) (document : Document) :
    either p q document = true ↔ p document = true ∨ q document = true := Bool.or_eq_true_iff

theorem eq_apply (field : String) (value : Bson) (document : Document) :
    eq field value document = true ↔ document.get field = value := decide_eq_true_iff

end Query

/-- `find(query).sort([(field, -1), ...]).limit(limit)`. -/
def find (documents : List Document) (query : Query) (sort : List String) (limit : Nat) :
    List Document :=
  (newestFirst (fun document => sort.map document.get) (documents.filter query)).take limit

namespace Bson

theorem lt_iff (a b : Bson) : a < b ↔ a.type < b.type ∨ a.type = b.type ∧ a.content < b.content :=
  Prod.Lex.toLex_lt_toLex

@[simp] theorem number_lt (m n : Int) : number m < number n ↔ m < n := by
  simp [lt_iff, type, content, List.cons_lt_cons_iff]

theorem ofNat_lt_iff (a b : List Nat) : a.map Int.ofNat < b.map Int.ofNat ↔ a < b := by
  induction a generalizing b with
  | nil => cases b <;> simp
  | cons head a ih =>
    cases b with
    | nil => simp
    | cons first b => simp [List.cons_lt_cons_iff, ih, Int.natCast_inj]

@[simp] theorem string_lt (a b : List Char) :
    string a < string b ↔ DateTime.codes a < DateTime.codes b := by
  simp only [lt_iff, type, content, lt_irrefl, false_or, true_and, ofNat_lt_iff]

@[simp] theorem objectId_lt (a b : ObjectId) :
    objectId a < objectId b ↔ DateTime.codes a.digits < DateTime.codes b.digits := by
  simp only [lt_iff, type, content, lt_irrefl, false_or, true_and, ofNat_lt_iff]

@[simp] theorem date_lt (a b : DateTime) : date a < date b ↔ a < b := by
  simp only [lt_iff, type, content, lt_irrefl, false_or, true_and, ofNat_lt_iff]
  rfl

@[simp] theorem date_le (a b : DateTime) : date a ≤ date b ↔ a ≤ b := by
  rw [← not_lt, date_lt, not_lt]

end Bson

end Lib.Mongo

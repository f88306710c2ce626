import Apchi.Lib.Base64
import Apchi.Lib.Mongo
import Mathlib.Data.List.DropRight

/-!
# Cursors

A cursor is the parts of a sort key, joined by a unit separator, in unpadded URL-safe Base64.
-/

namespace Apchi.Api

open Lib Lib.Mongo Lib.Keyset

/-- The most a single page may hold. -/
def maxLimit : Int := 500

/-- A limit that is at least one and at most the greatest. -/
def bounded (limit : Int) : Nat := (max 1 (min limit maxLimit)).toNat

theorem bounded_pos (limit : Int) : 0 < bounded limit := by
  unfold bounded
  omega

/-- A text in UTF-8. -/
def utf8 (text : List Char) : List UInt8 := (String.ofList text).toByteArray.data.toList

/-- The text some bytes are in UTF-8. -/
def ofUtf8 (bytes : List UInt8) : Option (List Char) :=
  (String.fromUTF8? ⟨bytes.toArray⟩).map String.toList

theorem ofUtf8_utf8 (text : List Char) : ofUtf8 (utf8 text) = some text := by
  have hbytes : (⟨(utf8 text).toArray⟩ : ByteArray) = (String.ofList text).toByteArray := by
    simp only [utf8, Array.toArray_toList]
  rw [ofUtf8, hbytes, String.fromUTF8?, dif_pos (String.ofList text).isValidUTF8, Option.map_some,
    String.fromUTF8, String.toList_ofList]

/-- What joins the parts of a cursor. -/
def separator : Char := '\x1f'

/-- An opaque cursor from the parts of a sort key. -/
def encodeCursor (parts : List (List Char)) : List Char :=
  let bytes := utf8 ([separator].intercalate parts)
  (Base64.encode bytes ++ Base64.padding (Base64.encode bytes)).rdropWhile (· = '=')

/-- The parts back, where there are as many as expected. -/
def decodeCursor (cursor : List Char) (expected : Nat) : Option (List (List Char)) := do
  guard (cursor.all fun c => c.toNat < 128)
  let bytes ← Base64.decode (cursor ++ Base64.padding cursor)
  let parts := (← ofUtf8 bytes).splitOn separator
  if parts.length = expected then some parts else none

/-- Everything strictly below the cursor's position. -/
def after (field : String) (value identifier : Bson) : Query :=
  .either (.lt field value) (.both (.eq field value) (.lt "_id" identifier))

theorem digits_spec {c : Char} (h : c ∈ Base64.digits) : c ≠ '=' ∧ c.toNat < 128 := by
  have hall : Base64.digits.all (fun c => c ≠ '=' && c.toNat < 128) = true := by decide
  simpa using List.all_eq_true.mp hall c h

theorem rdropWhile_padding {text : List Char} (h : ∀ c ∈ text, c ≠ '=') :
    (text ++ Base64.padding text).rdropWhile (· = '=') = text := by
  have hpads (n : Nat) : (text ++ List.replicate n '=').rdropWhile (· = '=') = text := by
    induction n with
    | zero =>
      rw [List.replicate_zero, List.append_nil, List.rdropWhile_eq_self_iff]
      intro hne
      simpa using h _ (List.getLast_mem hne)
    | succ n ih =>
      rw [List.replicate_succ', ← List.append_assoc, List.rdropWhile_concat_pos _ _ _ (by simp), ih]
  exact hpads _

/-- A cursor is read back into its parts. -/
theorem decodeCursor_encodeCursor {parts : List (List Char)} (hne : parts ≠ [])
    (hparts : ∀ part ∈ parts, separator ∉ part) :
    decodeCursor (encodeCursor parts) parts.length = some parts := by
  have hcursor : encodeCursor parts = Base64.encode (utf8 ([separator].intercalate parts)) :=
    rdropWhile_padding fun c hc => (digits_spec (Base64.mem_encode hc)).1
  have hascii : (Base64.encode (utf8 ([separator].intercalate parts))).all
      (fun c => c.toNat < 128) = true :=
    List.all_eq_true.mpr fun c hc => by simpa using (digits_spec (Base64.mem_encode hc)).2
  have hsplit : ([separator].intercalate parts).splitOn separator = parts :=
    List.splitOn_intercalate separator hparts hne
  simp only [decodeCursor, hcursor, hascii, guard, if_true, Base64.decode_encode, ofUtf8_utf8, hsplit,
    bind, Option.bind_some, pure]

end Apchi.Api

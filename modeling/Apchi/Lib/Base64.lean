import Mathlib.Data.List.Basic
import Mathlib.Tactic.Common

/-!
# URL-safe Base64, as Python's `base64` module writes and reads it

Three bytes are four digits.  The reader passes over whatever is no digit, stops at padding that
completes a group, and refuses a text that ends inside one; what was written is read back.
-/

namespace Lib.Base64

/-- The digits, in order. -/
def digits : List Char := "ABCDEFGHIJKLMNOPQRSTUVWXYZabcdefghijklmnopqrstuvwxyz0123456789-_".toList

/-- The digit of six bits. -/
def digit (value : Nat) : Char := digits.getD value 'A'

/-- The six bits of a digit; the two digits of the common alphabet are read as well. -/
def value (c : Char) : Option Nat :=
  if c = '+' then some 62 else if c = '/' then some 63 else digits.idxOf? c

/-- The digits of some bytes, with no padding. -/
def encode : List UInt8 → List Char
  | a :: b :: c :: rest =>
      digit (a.toNat / 4) :: digit (a.toNat % 4 * 16 + b.toNat / 16) ::
        digit (b.toNat % 16 * 4 + c.toNat / 64) :: digit (c.toNat % 64) :: encode rest
  | [a, b] =>
      [digit (a.toNat / 4), digit (a.toNat % 4 * 16 + b.toNat / 16), digit (b.toNat % 16 * 4)]
  | [a] => [digit (a.toNat / 4), digit (a.toNat % 4 * 16)]
  | [] => []

/-- Reads on, so many digits into a group, with the bits left over from the last of them, and so many
paddings seen since. -/
def decodeFrom (group left pads : Nat) : List Char → Option (List UInt8)
  | [] => if group = 0 then some [] else none
  | c :: rest =>
      if c = '=' then
        if 2 ≤ group then
          if 4 ≤ group + (pads + 1) then some [] else decodeFrom group left (pads + 1) rest
        else decodeFrom group left pads rest
      else
        match value c with
        | none => decodeFrom group left pads rest
        | some bits =>
            match group with
            | 0 => decodeFrom 1 bits 0 rest
            | 1 => (decodeFrom 2 (bits % 16) 0 rest).map (UInt8.ofNat (left * 4 + bits / 16) :: ·)
            | 2 => (decodeFrom 3 (bits % 4) 0 rest).map (UInt8.ofNat (left * 16 + bits / 4) :: ·)
            | _ => (decodeFrom 0 0 0 rest).map (UInt8.ofNat (left * 64 + bits) :: ·)

/-- Reads a text. -/
def decode (text : List Char) : Option (List UInt8) := decodeFrom 0 0 0 text

/-- The padding that makes a text's length a multiple of four. -/
def padding (text : List Char) : List Char := List.replicate ((4 - text.length % 4) % 4) '='

theorem digit_spec {bits : Nat} (h : bits < 64) :
    digit bits ≠ '=' ∧ value (digit bits) = some bits := by
  have hall : ∀ bits : Fin 64, digit bits ≠ '=' ∧ value (digit bits) = some bits.val := by decide +kernel
  exact hall ⟨bits, h⟩

theorem digit_mem {bits : Nat} (h : bits < 64) : digit bits ∈ digits := by
  have hlength : digits.length = 64 := by decide
  unfold digit
  rw [List.getD_eq_getElem?_getD, List.getElem?_eq_getElem (by rw [hlength]; exact h)]
  exact List.getElem_mem _

theorem mem_encode {bytes : List UInt8} {c : Char} (h : c ∈ encode bytes) : c ∈ digits := by
  fun_induction encode bytes with
  | case1 a b c' rest ih =>
    simp only [List.mem_cons] at h
    have ha := a.toNat_lt
    have hb := b.toNat_lt
    have hc := c'.toNat_lt
    rcases h with rfl | rfl | rfl | rfl | h
    · exact digit_mem (by omega)
    · exact digit_mem (by omega)
    · exact digit_mem (by omega)
    · exact digit_mem (by omega)
    · exact ih h
  | case2 a b =>
    simp only [List.mem_cons, List.not_mem_nil, or_false] at h
    have ha := a.toNat_lt
    have hb := b.toNat_lt
    rcases h with rfl | rfl | rfl <;> exact digit_mem (by omega)
  | case3 a =>
    simp only [List.mem_cons, List.not_mem_nil, or_false] at h
    have ha := a.toNat_lt
    rcases h with rfl | rfl <;> exact digit_mem (by omega)
  | case4 => cases h

section decode

variable {bits : Nat} (left pads : Nat) (rest : List Char)

/-- A digit goes into the group, wherever in it the reader is. -/
theorem decodeFrom_digit (h : bits < 64) :
    decodeFrom 0 left pads (digit bits :: rest) = decodeFrom 1 bits 0 rest ∧
    decodeFrom 1 left pads (digit bits :: rest) =
      (decodeFrom 2 (bits % 16) 0 rest).map (UInt8.ofNat (left * 4 + bits / 16) :: ·) ∧
    decodeFrom 2 left pads (digit bits :: rest) =
      (decodeFrom 3 (bits % 4) 0 rest).map (UInt8.ofNat (left * 16 + bits / 4) :: ·) ∧
    decodeFrom 3 left pads (digit bits :: rest) =
      (decodeFrom 0 0 0 rest).map (UInt8.ofNat (left * 64 + bits) :: ·) := by
  obtain ⟨hne, hvalue⟩ := digit_spec h
  refine ⟨?_, ?_, ?_, ?_⟩
  · simp [decodeFrom, hne, hvalue]
  · simp [decodeFrom, hne, hvalue]
  · simp [decodeFrom, hne, hvalue]
  · simp [decodeFrom, hne, hvalue]

end decode

/-- A byte is put together from the bits it was taken apart into. -/
theorem ofNat_eq (byte : UInt8) {n : Nat} (h : n = byte.toNat) : UInt8.ofNat n = byte := by
  rw [h, UInt8.ofNat_toNat]

/-- What was written is read back, padded or not as its length asks. -/
theorem decode_encode (bytes : List UInt8) :
    decode (encode bytes ++ padding (encode bytes)) = some bytes := by
  have hpadding (text : List Char) (a b c d : Char) :
      padding (a :: b :: c :: d :: text) = padding text := by
    have hlength : (text.length + 4) % 4 = text.length % 4 := by omega
    simp [padding, hlength]
  unfold decode
  fun_induction encode bytes with
  | case1 a b c rest ih =>
    have ha := a.toNat_lt
    have hb := b.toNat_lt
    have hc := c.toNat_lt
    rw [hpadding]
    simp only [List.cons_append]
    rw [(decodeFrom_digit _ _ _ (by omega)).1, (decodeFrom_digit _ _ _ (by omega)).2.1,
      (decodeFrom_digit _ _ _ (by omega)).2.2.1, (decodeFrom_digit _ _ _ (by omega)).2.2.2, ih]
    simp only [Option.map_some]
    rw [ofNat_eq a (by omega), ofNat_eq b (by omega), ofNat_eq c (by omega)]
  | case2 a b =>
    have ha := a.toNat_lt
    have hb := b.toNat_lt
    simp only [List.cons_append, List.nil_append]
    rw [(decodeFrom_digit _ _ _ (by omega)).1, (decodeFrom_digit _ _ _ (by omega)).2.1,
      (decodeFrom_digit _ _ _ (by omega)).2.2.1]
    have hend (left : Nat) : decodeFrom 3 left 0 ['='] = some [] := by simp [decodeFrom]
    rw [show padding _ = ['='] from rfl, hend]
    simp only [Option.map_some]
    rw [ofNat_eq a (by omega), ofNat_eq b (by omega)]
  | case3 a =>
    have ha := a.toNat_lt
    simp only [List.cons_append, List.nil_append]
    rw [(decodeFrom_digit _ _ _ (by omega)).1, (decodeFrom_digit _ _ _ (by omega)).2.1]
    have hend (left : Nat) : decodeFrom 2 left 0 ['=', '='] = some [] := by simp [decodeFrom]
    rw [show padding _ = ['=', '='] from rfl, hend]
    simp only [Option.map_some]
    rw [ofNat_eq a (by omega)]
  | case4 => rfl

end Lib.Base64

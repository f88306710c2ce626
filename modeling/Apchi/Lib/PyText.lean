import Mathlib.Data.List.DropRight
import Mathlib.Tactic.Common

/-!
# Text as Python takes it apart

The blanks `str.strip` removes, the lines `str.splitlines` cuts a text into, and the case of letters.
-/

namespace Lib

namespace PyText

/-- `str.isspace`, of one character. -/
def isBlank (c : Char) : Bool :=
  let n := c.toNat
  (9 ≤ n && n ≤ 13) || (28 ≤ n && n ≤ 32) || n == 0x85 || n == 0xa0 || n == 0x1680 ||
    (0x2000 ≤ n && n ≤ 0x200a) || n == 0x2028 || n == 0x2029 || n == 0x202f || n == 0x205f ||
    n == 0x3000

/-- `str.rstrip`. -/
abbrev rstrip (text : List Char) : List Char := text.rdropWhile isBlank

/-- `str.strip`. -/
def strip (text : List Char) : List Char := rstrip (text.dropWhile isBlank)

/-- `text.strip()`. -/
def stripped (text : String) : String := .ofList (strip text.toList)

/-- Where `str.splitlines` ends a line. -/
def isLineBreak (c : Char) : Bool :=
  let n := c.toNat
  (10 ≤ n && n ≤ 13) || (28 ≤ n && n ≤ 30) || n == 0x85 || n == 0x2028 || n == 0x2029

/-- `str.splitlines`: no line follows the last break, and a carriage return with its line feed is one break. -/
def splitLines : List Char → List (List Char)
  | [] => []
  | '\r' :: '\n' :: rest => [] :: splitLines rest
  | c :: rest =>
      if isLineBreak c then [] :: splitLines rest
      else match splitLines rest with
        | [] => [[c]]
        | line :: lines => (c :: line) :: lines

/-- `text.splitlines()`. -/
def lines (text : String) : List String := (splitLines text.toList).map String.ofList

/-- `str.rpartition`, of one character: what stands before and after the last one, if there is one. -/
def rpartition (separator : Char) : List Char → Option (List Char × List Char)
  | [] => none
  | c :: rest =>
      match rpartition separator rest with
      | some (head, last) => some (c :: head, last)
      | none => if c = separator then some ([], rest) else none

/-- `str.lower`, of what comes to ASCII letters. -/
def lower (text : String) : String :=
  .ofList (text.toList.map fun c => if c = '\u212A' then 'k' else c.toLower)

/-- `str.upper`, of what comes to ASCII letters. -/
def upper (text : String) : String :=
  .ofList (text.toList.flatMap fun c => match c with
    | '\u00DF' => ['S', 'S']
    | '\u0131' => ['I']
    | '\u017F' => ['S']
    | '\uFB00' => ['F', 'F']
    | '\uFB01' => ['F', 'I']
    | '\uFB02' => ['F', 'L']
    | '\uFB03' => ['F', 'F', 'I']
    | '\uFB04' => ['F', 'F', 'L']
    | '\uFB05' => ['S', 'T']
    | '\uFB06' => ['S', 'T']
    | c => [c.toUpper])

theorem notMem_of_rpartition_none {separator : Char} {text : List Char}
    (h : rpartition separator text = none) : separator ∉ text := by
  induction text with
  | nil => exact List.not_mem_nil
  | cons c rest ih =>
    unfold rpartition at h
    split at h
    · cases h
    · next hrest =>
      split at h
      · cases h
      · next hc => exact List.not_mem_cons_of_ne_of_not_mem (Ne.symm hc) (ih hrest)

theorem rpartition_append {separator : Char} {text head last : List Char}
    (h : rpartition separator text = some (head, last)) : text = head ++ separator :: last := by
  induction text generalizing head with
  | nil => cases h
  | cons c rest ih =>
    unfold rpartition at h
    split at h
    · next hrest =>
      cases h
      rw [ih hrest]
      rfl
    · split at h
      · next hc =>
        cases h
        rw [hc]
        rfl
      · cases h

/-- The last separator is the last. -/
theorem notMem_of_rpartition {separator : Char} {text head last : List Char}
    (h : rpartition separator text = some (head, last)) : separator ∉ last := by
  induction text generalizing head with
  | nil => cases h
  | cons c rest ih =>
    unfold rpartition at h
    split at h
    · next hrest =>
      cases h
      exact ih hrest
    · next hrest =>
      split at h
      · cases h
        exact notMem_of_rpartition_none hrest
      · cases h

/-- A text that begins with no blank loses blanks at its end only. -/
theorem strip_cons {text : List Char} {c : Char} (h : isBlank c = false) :
    strip (c :: text) = rstrip (c :: text) := by
  unfold strip
  rw [List.dropWhile_cons_of_neg (by simp [h])]

/-- Blanks are taken off the end alone. -/
theorem rstrip_of_not_blank (text rest : List Char) {c : Char} (h : isBlank c = false) :
    rstrip (text ++ c :: rest) = text ++ c :: rstrip rest := by
  unfold rstrip List.rdropWhile
  rw [List.reverse_append, List.reverse_cons, List.append_assoc, List.dropWhile_append]
  cases hrest : rest.reverse.dropWhile isBlank with
  | nil => simp [h]
  | cons => simp

/-- A text with no blank at either end is left as it is. -/
theorem stripped_of_ends {text : String} (first last : Char) (mid : List Char)
    (h : text.toList = first :: (mid ++ [last])) (hfirst : isBlank first = false)
    (hlast : isBlank last = false) : stripped text = text := by
  rw [stripped, h, strip_cons hfirst, ← List.cons_append, rstrip_of_not_blank _ _ hlast,
    show rstrip [] = [] from rfl, List.cons_append, ← h, String.ofList_toList]

end PyText

end Lib

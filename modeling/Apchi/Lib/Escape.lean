import Mathlib.Data.List.TakeWhile
import Mathlib.Tactic.Common

/-!
# Names inside regular expressions

`reEscape` is Python's `re.escape`: every character with a meaning of its own in a regular
expression is put behind a backslash.  `reUnescape` is the substitution of `\\(.)` by what follows
the backslash, where the dot does not match a line break.  The second undoes the first on every
name without one.
-/

namespace Lib

/-- The characters `re.escape` puts a backslash before. -/
def isSpecial (c : Char) : Bool :=
  "()[]\x7b\x7d?*+-|^$\\.&~# \t\n\r\x0b\x0c".toList.contains c

/-- `re.escape` on the characters of a name. -/
def escapeName (name : List Char) : List Char :=
  name.flatMap fun c => if isSpecial c then ['\\', c] else [c]

/-- `re.sub(r"\\(.)", r"\1", text)` on the characters of a text. -/
def unescapeName : List Char → List Char
  | [] => []
  | ['\\'] => ['\\']
  | '\\' :: c :: rest =>
      if c = '\n' then '\\' :: c :: unescapeName rest else c :: unescapeName rest
  | c :: rest => c :: unescapeName rest

/-- `re.escape(name)`. -/
def reEscape (name : String) : String :=
  String.ofList (escapeName name.toList)

/-- `re.sub(r"\\(.)", r"\1", text)`. -/
def reUnescape (text : String) : String :=
  String.ofList (unescapeName text.toList)

theorem escapeName_cons (c : Char) (name : List Char) :
    escapeName (c :: name) = (if isSpecial c then ['\\', c] else [c]) ++ escapeName name := rfl

theorem unescapeName_plain {c : Char} (hc : c ≠ '\\') (rest : List Char) :
    unescapeName (c :: rest) = c :: unescapeName rest := by
  rw [unescapeName]
  all_goals simp [hc]

theorem unescapeName_escaped {c : Char} (hc : c ≠ '\n') (rest : List Char) :
    unescapeName ('\\' :: c :: rest) = c :: unescapeName rest := by
  simp [unescapeName, hc]

theorem ne_backslash_of_not_isSpecial {c : Char} (h : isSpecial c = false) : c ≠ '\\' := by
  rintro rfl
  revert h
  decide

/-- A name without a line break is read back from its escape. -/
theorem unescapeName_escapeName {name : List Char} (h : '\n' ∉ name) :
    unescapeName (escapeName name) = name := by
  induction name with
  | nil => rfl
  | cons c name ih =>
      simp only [List.mem_cons, not_or] at h
      have hc : c ≠ '\n' := fun hc => h.1 hc.symm
      rw [escapeName_cons]
      cases hspecial : isSpecial c with
      | true => simp [unescapeName_escaped hc, ih h.2]
      | false => simp [unescapeName_plain (ne_backslash_of_not_isSpecial hspecial), ih h.2]

theorem reUnescape_reEscape {name : String} (h : '\n' ∉ name.toList) :
    reUnescape (reEscape name) = name := by
  rw [reUnescape, reEscape, String.toList_ofList, unescapeName_escapeName h, String.ofList_toList]

/-- Different names have different escapes. -/
theorem escapeName_injective : Function.Injective escapeName := by
  intro name
  induction name with
  | nil =>
      intro other h
      cases other with
      | nil => rfl
      | cons d other =>
          rw [escapeName_cons] at h
          split at h <;> cases h
  | cons c name ih =>
      intro other h
      cases other with
      | nil =>
          rw [escapeName_cons] at h
          split at h <;> cases h
      | cons d other =>
          rw [escapeName_cons, escapeName_cons] at h
          cases hc : isSpecial c <;> cases hd : isSpecial d <;>
            simp only [hc, hd, if_true, Bool.false_eq_true, if_false, List.cons_append,
              List.nil_append, List.cons.injEq, true_and] at h
          · rw [h.1, ih h.2]
          · exact absurd h.1 (ne_backslash_of_not_isSpecial hc)
          · exact absurd h.1.symm (ne_backslash_of_not_isSpecial hd)
          · rw [h.1, ih h.2]

theorem reEscape_injective : Function.Injective reEscape := by
  intro name other h
  have h' : escapeName name.toList = escapeName other.toList := String.ofList_injective h
  exact String.toList_injective (escapeName_injective h')

theorem mem_escapeName {c : Char} {name : List Char} (h : c ∈ escapeName name) :
    c = '\\' ∨ c ∈ name := by
  simp only [escapeName, List.mem_flatMap] at h
  obtain ⟨d, hd, hc⟩ := h
  split at hc
  · simp only [List.mem_cons, List.not_mem_nil, or_false] at hc
    rcases hc with rfl | rfl
    · exact Or.inl rfl
    · exact Or.inr hd
  · simp only [List.mem_singleton] at hc
    exact Or.inr (hc ▸ hd)

/-- Escaping keeps a line break where it is. -/
theorem newline_mem_escapeName {name : List Char} : '\n' ∈ escapeName name ↔ '\n' ∈ name := by
  constructor
  · intro h
    exact (mem_escapeName h).resolve_left (by decide)
  · intro h
    simp only [escapeName, List.mem_flatMap]
    exact ⟨'\n', h, by decide⟩

end Lib

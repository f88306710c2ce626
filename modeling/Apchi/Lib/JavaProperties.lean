import Mathlib.Algebra.Ring.Nat
import Mathlib.Data.List.Nodup
import Mathlib.Data.List.Perm.Subperm
import Mathlib.Tactic.Common

/-!
# Properties files, as Java loads them

What `java.util.Properties` makes of a text: lines that continue, comments, a key that ends at the first
separator that is not escaped, and escapes.  Java's texts are sequences of UTF-16 code units, and an
escape may be of any unit, so what is loaded is a list of those.
-/

namespace Lib

namespace JavaProperties

/-! ### Code units -/

/-- The code units of one character. -/
def units (c : Char) : List Nat :=
  if c.toNat < 0x10000 then [c.toNat]
  else [0xD800 + (c.toNat - 0x10000) / 0x400, 0xDC00 + (c.toNat - 0x10000) % 0x400]

/-- The code units of a text. -/
def utf16 (text : List Char) : List Nat := text.flatMap units

/-! ### Loading -/

/-- What is a blank in a line. -/
def isBlank (c : Char) : Bool := c == ' ' || c == '\t' || c == '\x0c'

/-- What ends a key. -/
def endsKey (c : Char) : Bool := c == '=' || c == ':' || isBlank c

def isNewline (c : Char) : Bool := c == '\n' || c == '\r'

/-- Natural lines: a line feed, a carriage return, or one after the other ends one. -/
@[simp] def naturalLines : List Char → List (List Char)
  | [] => []
  | '\r' :: '\n' :: rest => [] :: naturalLines rest
  | c :: rest =>
      if isNewline c then [] :: naturalLines rest
      else match naturalLines rest with
        | [] => [[c]]
        | line :: lines => (c :: line) :: lines

/-- A line with no property: it is empty, or a comment. -/
def isIgnored : List Char → Bool
  | [] => true
  | c :: _ => c == '#' || c == '!'

/-- Whether the end of the line is escaped. -/
@[simp] def continues : List Char → Bool
  | [] => false
  | c :: rest => if c = '\\' then (match rest with | [] => true | _ :: rest => continues rest)
      else continues rest

/-- Logical lines, where `open` is the one that goes on, if one does. -/
@[simp] def logicalFrom : (before : Option (List Char)) → List (List Char) → List (List Char)
  | none, [] => []
  | some line, [] => [line]
  | before, raw :: rest =>
      let line := raw.dropWhile isBlank
      if before = none ∧ isIgnored line then logicalFrom none rest
      else
        let line := before.getD [] ++ line
        if continues line then logicalFrom (some line.dropLast) rest
        else line :: logicalFrom none rest

/-- The key of a line, as it is written, and what follows it. -/
@[simp] def splitKey : (escaped : Bool) → List Char → List Char × List Char
  | _, [] => ([], [])
  | true, c :: rest => ((c :: (splitKey false rest).1), (splitKey false rest).2)
  | false, c :: rest =>
      if endsKey c then ([], c :: rest)
      else ((c :: (splitKey (c == '\\') rest).1), (splitKey (c == '\\') rest).2)

/-- What follows a key, without the separator and the blanks around it. -/
def valueOf (rest : List Char) : List Char :=
  match rest.dropWhile isBlank with
  | '=' :: rest | ':' :: rest => rest.dropWhile isBlank
  | rest => rest

/-- The value of a hexadecimal digit. -/
def hexDigit (c : Char) : Option Nat :=
  if '0' ≤ c ∧ c ≤ '9' then some (c.toNat - '0'.toNat)
  else if 'a' ≤ c ∧ c ≤ 'f' then some (c.toNat - 'a'.toNat + 10)
  else if 'A' ≤ c ∧ c ≤ 'F' then some (c.toNat - 'A'.toNat + 10)
  else none

/-- The code unit that four hexadecimal digits name. -/
def codeUnit (a b c d : Char) : Option Nat := do
  return (((← hexDigit a) * 16 + (← hexDigit b)) * 16 + (← hexDigit c)) * 16 + (← hexDigit d)

/-- What an escape that is not of a code unit stands for. -/
def escapedUnits (c : Char) : List Nat :=
  if c = 't' then [9] else if c = 'n' then [10] else if c = 'r' then [13] else if c = 'f' then [12]
  else units c

/-- A key or a value with its escapes decoded; a `\u` without its four digits is refused. -/
@[simp] def unescape : List Char → Option (List Nat)
  | [] => some []
  | c :: rest =>
      if c = '\\' then
        match rest with
        | [] => some []
        | 'u' :: a :: b :: c :: d :: rest => do
            let unit ← codeUnit a b c d
            return unit :: (← unescape rest)
        | 'u' :: _ => none
        | c :: rest => (unescape rest).map (escapedUnits c ++ ·)
      else (unescape rest).map (units c ++ ·)

/-- The key and the value of a logical line. -/
def entryOf (line : List Char) : Option (List Nat × List Nat) := do
  let (key, rest) := splitKey false line
  return (← unescape key, ← unescape (valueOf rest))

/-- The entries of a text, in the order of its lines; an escape that is refused refuses the text. -/
def entries (text : String) : Option (List (List Nat × List Nat)) :=
  (logicalFrom none (naturalLines text.toList)).mapM entryOf

/-- What is loaded under a key is its last value. -/
def lastOf (loaded : List (List Nat × List Nat)) (key : List Nat) : Option (List Nat) :=
  loaded.reverse.lookup key

/-! ### Code units of texts -/

theorem length_units_pos (c : Char) : 0 < (units c).length := by
  unfold units
  split <;> exact Nat.zero_lt_succ _

theorem units_append_inj {c d : Char} {xs ys : List Nat} (h : units c ++ xs = units d ++ ys) :
    c = d ∧ xs = ys := by
  have hc : c.toNat < 0xD800 ∨ 0xE000 ≤ c.toNat ∧ c.toNat < 0x110000 := by
    have := c.valid
    simp only [UInt32.isValidChar, Nat.isValidChar] at this
    have : c.toNat = c.val.toNat := rfl
    omega
  have hd : d.toNat < 0xD800 ∨ 0xE000 ≤ d.toNat ∧ d.toNat < 0x110000 := by
    have := d.valid
    simp only [UInt32.isValidChar, Nat.isValidChar] at this
    have : d.toNat = d.val.toNat := rfl
    omega
  unfold units at h
  split at h
  · split at h
    · simp only [List.cons_append, List.nil_append, List.cons.injEq] at h
      exact ⟨Char.toNat_inj.mp h.1, h.2⟩
    · simp only [List.cons_append, List.nil_append, List.cons.injEq] at h
      omega
  · split at h
    · simp only [List.cons_append, List.nil_append, List.cons.injEq] at h
      omega
    · simp only [List.cons_append, List.nil_append, List.cons.injEq] at h
      exact ⟨Char.toNat_inj.mp (by omega), h.2.2⟩

theorem utf16_injective : Function.Injective utf16 := by
  intro text
  induction text with
  | nil =>
    intro other h
    cases other with
    | nil => rfl
    | cons c rest =>
      have hpos := length_units_pos c
      have hlength := congrArg List.length h
      simp only [utf16, List.flatMap_nil, List.flatMap_cons, List.length_nil, List.length_append]
        at hlength
      omega
  | cons c rest ih =>
    intro other h
    cases other with
    | nil =>
      have hpos := length_units_pos c
      have hlength := congrArg List.length h
      simp only [utf16, List.flatMap_nil, List.flatMap_cons, List.length_nil, List.length_append]
        at hlength
      omega
    | cons d others =>
      rw [utf16, utf16, List.flatMap_cons, List.flatMap_cons] at h
      obtain ⟨rfl, hrest⟩ := units_append_inj h
      rw [ih hrest]

@[simp] theorem utf16_nil : utf16 [] = [] := rfl

theorem utf16_cons (c : Char) (rest : List Char) : utf16 (c :: rest) = units c ++ utf16 rest :=
  List.flatMap_cons

theorem utf16_append (xs ys : List Char) : utf16 (xs ++ ys) = utf16 xs ++ utf16 ys :=
  List.flatMap_append

theorem eq_nil_of_utf16 {text : List Char} (h : (utf16 text).length = 0) : text = [] :=
  utf16_injective (List.eq_nil_of_length_eq_zero h)

/-! ### Escapes -/

theorem length_escapedUnits (c : Char) : (escapedUnits c).length ≤ (units c).length := by
  have hpos := length_units_pos c
  unfold escapedUnits
  split
  · exact hpos
  split
  · exact hpos
  split
  · exact hpos
  split
  · exact hpos
  · exact le_rfl

/-- Without a backslash there is nothing to decode. -/
theorem unescape_plain {text : List Char} (h : '\\' ∉ text) : unescape text = some (utf16 text) := by
  induction text with
  | nil => rfl
  | cons c rest ih =>
    rw [List.mem_cons, not_or] at h
    unfold unescape
    rw [if_neg (Ne.symm h.1), ih h.2, utf16_cons]
    rfl

/-- What is decoded is no longer than what is written, and shorter where there is a backslash. -/
theorem length_unescape {text : List Char} {decoded : List Nat} (h : unescape text = some decoded) :
    decoded.length ≤ (utf16 text).length ∧
      (decoded.length = (utf16 text).length → '\\' ∉ text) := by
  fun_induction unescape text generalizing decoded with
  | case1 =>
    cases h
    simp
  | case2 =>
    cases h
    simp [utf16_cons, units]
  | case3 a b c d rest ih =>
    simp only [Option.bind_eq_bind, Option.bind_eq_some_iff, Option.pure_def, Option.some.injEq] at h
    obtain ⟨unit, -, decoded, hrest, rfl⟩ := h
    have hlength := (ih hrest).1
    have ha := length_units_pos a
    have hb := length_units_pos b
    have hc := length_units_pos c
    have hd := length_units_pos d
    have hlt : (unit :: decoded).length <
        (utf16 ('\\' :: 'u' :: a :: b :: c :: d :: rest)).length := by
      simp only [utf16_cons, List.length_append, List.length_cons]
      omega
    exact ⟨Nat.le_of_lt hlt, fun heq => absurd heq (Nat.ne_of_lt hlt)⟩
  | case4 => cases h
  | case5 c rest _ _ ih =>
    obtain ⟨decoded, hrest, rfl⟩ := Option.map_eq_some_iff.mp h
    have hlength := (ih hrest).1
    have hc := length_escapedUnits c
    have hback := length_units_pos '\\'
    have hlt : (escapedUnits c ++ decoded).length < (utf16 ('\\' :: c :: rest)).length := by
      simp only [utf16_cons, List.length_append]
      omega
    exact ⟨Nat.le_of_lt hlt, fun heq => absurd heq (Nat.ne_of_lt hlt)⟩
  | case6 c rest hc ih =>
    obtain ⟨decoded, hrest, rfl⟩ := Option.map_eq_some_iff.mp h
    obtain ⟨hle, hplain⟩ := ih hrest
    rw [utf16_cons, List.length_append, List.length_append]
    refine ⟨by omega, fun heq => ?_⟩
    rw [List.mem_cons, not_or]
    exact ⟨Ne.symm hc, hplain (by omega)⟩

theorem unescape_cons {c : Char} (h : c ≠ '\\') (rest : List Char) :
    unescape (c :: rest) = (unescape rest).map (units c ++ ·) := by
  rw [unescape.eq_def]
  exact if_neg h

theorem unescape_escaped {c : Char} (h : c ≠ 'u') (rest : List Char) :
    unescape ('\\' :: c :: rest) = (unescape rest).map (escapedUnits c ++ ·) := by
  rw [unescape.eq_def]
  dsimp only
  rw [if_pos rfl]
  split
  · next heq => cases heq
  · next heq =>
    cases heq
    exact absurd rfl h
  · next heq =>
    cases heq
    exact absurd rfl h
  · next heq =>
    cases heq
    rfl

theorem hexDigit_some {c : Char} {n : Nat} (h : hexDigit c = some n) : c ≠ '\\' ∧ c ≠ '=' := by
  constructor
  · rintro rfl
    cases h
  · rintro rfl
    cases h

/-- An escaped code unit has its four digits. -/
theorem unescape_unit {text : List Char} {decoded : List Nat}
    (h : unescape ('\\' :: 'u' :: text) = some decoded) :
    ∃ a b c d rest unit others, text = a :: b :: c :: d :: rest ∧
      (∀ digit ∈ [a, b, c, d], digit ≠ '\\' ∧ digit ≠ '=') ∧ unescape rest = some others ∧
      decoded = unit :: others := by
  rw [unescape.eq_def] at h
  dsimp only at h
  rw [if_pos rfl] at h
  split at h
  · next heq => cases heq
  · next a b c d rest heq =>
    cases heq
    simp only [Option.bind_eq_bind, Option.bind_eq_some_iff, Option.pure_def, Option.some.injEq] at h
    obtain ⟨unit, hunit, others, hrest, rfl⟩ := h
    refine ⟨a, b, c, d, rest, unit, others, rfl, ?_, hrest, rfl⟩
    simp only [codeUnit, Option.bind_eq_bind, Option.bind_eq_some_iff, Option.pure_def] at hunit
    obtain ⟨_, ha, _, hb, _, hc, _, hd, -⟩ := hunit
    intro digit hdigit
    simp only [List.mem_cons, List.not_mem_nil, or_false] at hdigit
    rcases hdigit with rfl | rfl | rfl | rfl
    · exact hexDigit_some ha
    · exact hexDigit_some hb
    · exact hexDigit_some hc
    · exact hexDigit_some hd
  · cases h
  · next hnot heq =>
    cases heq
    exact (hnot rfl).elim

/-- The unit of an equals sign is in no other character. -/
theorem eq_of_mem_units {c : Char} (h : '='.toNat ∈ units c) : c = '=' := by
  unfold units at h
  split at h
  · exact (Char.toNat_inj.mp (List.mem_singleton.mp h)).symm
  · simp only [List.mem_cons, List.not_mem_nil, or_false] at h
    have : '='.toNat = 61 := rfl
    omega

theorem notMem_utf16 {text : List Char} (h : '=' ∉ text) : '='.toNat ∉ utf16 text := by
  intro hmem
  obtain ⟨c, hc, hunit⟩ := List.mem_flatMap.mp hmem
  exact h (eq_of_mem_units hunit ▸ hc)

theorem mem_escapedUnits : '='.toNat ∈ escapedUnits '=' := by decide

/-! ### Keys -/

theorem splitKey_ends {c : Char} (h : endsKey c = true) (rest : List Char) :
    splitKey false (c :: rest) = ([], c :: rest) := by
  rw [splitKey, if_pos h]

theorem splitKey_cons {c : Char} (h : endsKey c = false) (hc : c ≠ '\\') (rest : List Char) :
    splitKey false (c :: rest) = (c :: (splitKey false rest).1, (splitKey false rest).2) := by
  rw [splitKey, if_neg (by rw [h]; exact Bool.false_ne_true), beq_false_of_ne hc]

theorem splitKey_escaped (c : Char) (rest : List Char) :
    splitKey false ('\\' :: c :: rest) =
      ('\\' :: c :: (splitKey false rest).1, (splitKey false rest).2) := rfl

/-- A key with no separator and no escape in it is read as it is. -/
theorem splitKey_plain {key : List Char} (h : ∀ c ∈ key, endsKey c = false ∧ c ≠ '\\') {c : Char}
    (hc : endsKey c = true) (rest : List Char) :
    splitKey false (key ++ c :: rest) = (key, c :: rest) := by
  induction key with
  | nil => exact splitKey_ends hc rest
  | cons d key ih =>
    obtain ⟨hd, hkey⟩ := List.forall_mem_cons.mp h
    rw [List.cons_append, splitKey_cons hd.1 hd.2, ih hkey]

/-- Where no equals sign is loaded the key ends at the first one, or before. -/
theorem loadedKey_starts {value : List Char} : ∀ {key : List Char} {loaded : List Nat}, '=' ∉ key →
    unescape (splitKey false (key ++ '=' :: value)).1 = some loaded → '='.toNat ∉ loaded →
      (splitKey false (key ++ '=' :: value)).1 <+: key
  | [], _, _, _, _ => List.nil_prefix
  | [c], loaded, hkey, hload, hloaded => by
    by_cases hc : c = '\\'
    · -- the equals sign is escaped, and so it is loaded
      subst hc
      rw [List.singleton_append, splitKey_escaped, unescape_escaped (by decide)] at hload
      obtain ⟨others, -, rfl⟩ := Option.map_eq_some_iff.mp hload
      exact absurd (List.mem_append_left _ mem_escapedUnits) hloaded
    · by_cases hends : endsKey c = true
      · rw [List.singleton_append, splitKey_ends hends]
        exact List.nil_prefix
      · have hsplit : (splitKey false (c :: '=' :: value)).1 = [c] := by
          rw [splitKey_cons (eq_false_of_ne_true hends) hc, splitKey_ends rfl]
        exact ⟨[], (List.append_nil _).trans hsplit⟩
  | c :: d :: rest, loaded, hkey, hload, hloaded => by
    by_cases hc : c = '\\'
    · subst hc
      rw [List.cons_append, List.cons_append, splitKey_escaped] at hload ⊢
      have hrest : '=' ∉ rest := fun hmem =>
        hkey (List.mem_cons_of_mem _ (List.mem_cons_of_mem _ hmem))
      rw [List.prefix_cons_inj, List.prefix_cons_inj]
      by_cases hd : d = 'u'
      · subst hd
        obtain ⟨a, b, e, f, tail, unit, others, htext, hdigits, htail, rfl⟩ := unescape_unit hload
        have ha := hdigits a (by simp)
        have hb := hdigits b (by simp)
        have he := hdigits e (by simp)
        have hf := hdigits f (by simp)
        -- read as they are, the digits are no equals sign either
        refine @loadedKey_starts value rest
          (units a ++ (units b ++ (units e ++ (units f ++ others)))) hrest ?_ ?_
        · rw [htext, unescape_cons ha.1, unescape_cons hb.1, unescape_cons he.1, unescape_cons hf.1,
            htail]
          rfl
        · simp only [List.mem_append, not_or]
          exact ⟨fun h => ha.2 (eq_of_mem_units h), fun h => hb.2 (eq_of_mem_units h),
            fun h => he.2 (eq_of_mem_units h), fun h => hf.2 (eq_of_mem_units h),
            fun h => hloaded (List.mem_cons_of_mem _ h)⟩
      · rw [unescape_escaped hd] at hload
        obtain ⟨others, hothers, rfl⟩ := Option.map_eq_some_iff.mp hload
        exact loadedKey_starts hrest hothers fun h => hloaded (List.mem_append_right _ h)
    · by_cases hends : endsKey c = true
      · rw [List.cons_append, splitKey_ends hends]
        exact List.nil_prefix
      · rw [List.cons_append, splitKey_cons (eq_false_of_ne_true hends) hc] at hload ⊢
        rw [unescape_cons hc] at hload
        obtain ⟨others, hothers, rfl⟩ := Option.map_eq_some_iff.mp hload
        rw [List.prefix_cons_inj]
        exact loadedKey_starts (fun hmem => hkey (List.mem_cons_of_mem _ hmem)) hothers
          fun h => hloaded (List.mem_append_right _ h)

theorem endsKey_of_splitKey {key rest : List Char} (h : (splitKey false (key ++ rest)).1 = key)
    (hplain : '\\' ∉ key) : ∀ c ∈ key, endsKey c = false ∧ c ≠ '\\' := by
  induction key with
  | nil => exact fun _ hc => absurd hc List.not_mem_nil
  | cons c key ih =>
    rw [List.mem_cons, not_or] at hplain
    have hc : endsKey c = false := by
      by_contra hends
      rw [List.cons_append, splitKey_ends (eq_true_of_ne_false hends)] at h
      cases h
    rw [List.cons_append, splitKey_cons hc (Ne.symm hplain.1)] at h
    exact List.forall_mem_cons.mpr ⟨⟨hc, Ne.symm hplain.1⟩, ih (List.cons.inj h).2 hplain.2⟩

/-- A key that loses no code unit is plain. -/
theorem plain_of_loadedKey {key value : List Char} {loaded : List Nat} (hkey : '=' ∉ key)
    (hload : unescape (splitKey false (key ++ '=' :: value)).1 = some loaded)
    (hloaded : '='.toNat ∉ loaded) :
    loaded.length ≤ (utf16 key).length ∧ (loaded.length = (utf16 key).length →
      (∀ c ∈ key, endsKey c = false ∧ c ≠ '\\') ∧ loaded = utf16 key) := by
  obtain ⟨rest, hrest⟩ := loadedKey_starts hkey hload hloaded
  obtain ⟨hle, hplain⟩ := length_unescape hload
  have hlength : (utf16 (splitKey false (key ++ '=' :: value)).1).length + (utf16 rest).length =
      (utf16 key).length := by
    rw [← List.length_append, ← utf16_append, hrest]
  refine ⟨by omega, fun heq => ?_⟩
  have hnil : rest = [] := eq_nil_of_utf16 (by omega)
  rw [hnil, List.append_nil] at hrest
  rw [hrest] at hplain hload
  rw [unescape_plain (hplain heq)] at hload
  exact ⟨endsKey_of_splitKey hrest (hplain heq), (Option.some.inj hload).symm⟩

/-! ### Values -/

theorem valueOf_equals (value : List Char) : valueOf ('=' :: value) = value.dropWhile isBlank := rfl

theorem length_utf16_dropWhile (text : List Char) :
    (utf16 (text.dropWhile isBlank)).length ≤ (utf16 text).length := by
  conv_rhs => rw [← List.takeWhile_append_dropWhile (p := isBlank) (l := text)]
  rw [utf16_append, List.length_append]
  exact Nat.le_add_left _ _

/-! ### Lines -/

theorem continues_plain {line : List Char} (h : '\\' ∉ line) : continues line = false := by
  induction line with
  | nil => rfl
  | cons c rest ih =>
    rw [List.mem_cons, not_or] at h
    unfold continues
    rw [if_neg (Ne.symm h.1)]
    exact ih h.2

/-- A line that continues ends in a backslash. -/
theorem eq_append_of_continues {line : List Char} (h : continues line = true) :
    ∃ init, line = init ++ ['\\'] := by
  fun_induction continues line with
  | case1 => cases h
  | case2 => exact ⟨[], rfl⟩
  | case3 c rest ih =>
    obtain ⟨init, rfl⟩ := ih h
    exact ⟨'\\' :: c :: init, rfl⟩
  | case4 c rest _ ih =>
    obtain ⟨init, rfl⟩ := ih h
    exact ⟨c :: init, rfl⟩

/-- Where no line goes on, each that is not passed over is a line of its own. -/
theorem logicalFrom_plain {raws : List (List Char)} (h : ∀ raw ∈ raws,
      isIgnored (raw.dropWhile isBlank) = false → continues (raw.dropWhile isBlank) = false) :
    logicalFrom none raws =
      (raws.map (List.dropWhile isBlank)).filter fun line => !isIgnored line := by
  induction raws with
  | nil => rfl
  | cons raw rest ih =>
    obtain ⟨hraw, hrest⟩ := List.forall_mem_cons.mp h
    rw [List.map_cons]
    unfold logicalFrom
    cases hignored : isIgnored (raw.dropWhile isBlank) with
    | true =>
      rw [if_pos ⟨rfl, hignored⟩, List.filter_cons_of_neg (by rw [hignored]; decide)]
      exact ih hrest
    | false =>
      rw [if_neg (fun hand => Bool.false_ne_true (hignored.symm.trans hand.2)),
        List.filter_cons_of_pos (by rw [hignored]; rfl)]
      dsimp only [Option.getD_none, List.nil_append]
      rw [if_neg (by rw [hraw hignored]; exact Bool.false_ne_true), ih hrest]

theorem length_logicalFrom (raws : List (List Char)) :
    (logicalFrom none raws).length ≤ raws.length ∧
      ∀ line, (logicalFrom (some line) raws).length ≤ max 1 raws.length := by
  induction raws with
  | nil => exact ⟨le_rfl, fun _ => le_rfl⟩
  | cons raw rest ih =>
    obtain ⟨hnone, hsome⟩ := ih
    constructor
    · unfold logicalFrom
      dsimp only
      split
      · exact Nat.le_trans hnone (Nat.le_succ _)
      · split
        · have hrest := hsome (List.dropLast (Option.getD none [] ++ raw.dropWhile isBlank))
          rw [List.length_cons]
          omega
        · exact Nat.succ_le_succ hnone
    · intro line
      unfold logicalFrom
      dsimp only
      split
      · next hand => cases hand.1
      · split
        · have hrest := hsome (List.dropLast ((some line).getD [] ++ raw.dropWhile isBlank))
          rw [List.length_cons]
          omega
        · rw [List.length_cons, List.length_cons]
          omega

/-- Where no line is lost, none is passed over, and only the last can end in a backslash that is
dropped. -/
theorem logicalFrom_full {raws : List (List Char)}
    (h : raws.length ≤ (logicalFrom none raws).length) :
    List.Forall₂ (fun line raw => isIgnored (raw.dropWhile isBlank) = false ∧
      (line = raw.dropWhile isBlank ∨ raw.dropWhile isBlank = line ++ ['\\']))
      (logicalFrom none raws) raws := by
  induction raws with
  | nil => exact .nil
  | cons raw rest ih =>
    have hbound := length_logicalFrom rest
    unfold logicalFrom at h ⊢
    dsimp only [Option.getD_none, List.nil_append] at h ⊢
    -- a line passed over, or joined to the next, leaves fewer logical lines than there are lines
    split
    · next hignored =>
      rw [if_pos hignored, List.length_cons] at h
      omega
    · next hignored =>
      rw [if_neg hignored] at h
      have hkept : isIgnored (raw.dropWhile isBlank) = false :=
        eq_false_of_ne_true fun htrue => hignored ⟨rfl, htrue⟩
      split
      · next hgoes =>
        rw [if_pos hgoes, List.length_cons] at h
        obtain ⟨init, hinit⟩ := eq_append_of_continues hgoes
        cases rest with
        | nil =>
          refine .cons ⟨hkept, Or.inr ?_⟩ .nil
          rw [hinit, List.dropLast_concat]
        | cons =>
          have hrest := hbound.2 (raw.dropWhile isBlank).dropLast
          rw [List.length_cons] at h hrest
          omega
      · next hstays =>
        rw [if_neg hstays, List.length_cons, List.length_cons] at h
        exact .cons ⟨hkept, Or.inl rfl⟩ (ih (Nat.le_of_succ_le_succ h))

/-! ### Files of one property to a line -/

/-- A property on a line of its own. -/
def lineOf (property : List Char × List Char) : List Char := property.1 ++ '=' :: property.2

/-- A property that means on its line what it says. -/
structure Plain (property : List Char × List Char) : Prop where
  key : ∀ c ∈ property.1, endsKey c = false ∧ c ≠ '\\'
  start : isIgnored (lineOf property) = false
  value : '\\' ∉ property.2

/-- No blank is in front of the key or the value, and the first equals sign ends the key. -/
structure Trimmed (property : List Char × List Char) : Prop where
  key : '=' ∉ property.1
  line : (lineOf property).dropWhile isBlank = lineOf property
  value : property.2.dropWhile isBlank = property.2

def encoded (property : List Char × List Char) : List Nat × List Nat :=
  (utf16 property.1, utf16 property.2)

theorem Plain.entryOf {property : List Char × List Char} (h : Plain property)
    (htrimmed : Trimmed property) : entryOf (lineOf property) = some (encoded property) := by
  have hkey : '\\' ∉ property.1 := fun hmem => (h.key _ hmem).2 rfl
  unfold JavaProperties.entryOf lineOf
  rw [splitKey_plain h.key rfl]
  dsimp only
  rw [unescape_plain hkey, valueOf_equals, htrimmed.value, unescape_plain h.value]
  rfl

theorem Plain.not_continues {property : List Char × List Char} (h : Plain property) :
    continues (lineOf property) = false := by
  refine continues_plain ?_
  rw [lineOf, List.mem_append, List.mem_cons, not_or, not_or]
  exact ⟨fun hmem => (h.key _ hmem).2 rfl, by decide, h.value⟩

/-- What is loaded of a line that is kept, perhaps without a backslash at its end. -/
theorem plain_of_entry {property : List Char × List Char} {line : List Char}
    {entry : List Nat × List Nat} (htrimmed : Trimmed property)
    (hline : line = lineOf property ∨ lineOf property = line ++ ['\\'])
    (hentry : entryOf line = some entry) (hequals : '='.toNat ∉ entry.1) :
    entry.1.length ≤ (utf16 property.1).length ∧
      (entry.1.length = (utf16 property.1).length →
        (∀ c ∈ property.1, endsKey c = false ∧ c ≠ '\\') ∧ entry.1 = utf16 property.1 ∧
          (entry.2 = utf16 property.2 → '\\' ∉ property.2)) := by
  obtain ⟨value, rfl, hvalue⟩ : ∃ value, line = property.1 ++ '=' :: value ∧
      (value = property.2 ∨ property.2 = value ++ ['\\']) := by
    rcases hline with rfl | hline
    · exact ⟨property.2, rfl, Or.inl rfl⟩
    · unfold lineOf at hline
      rcases List.eq_nil_or_concat property.2 with hnil | ⟨init, last, hinit⟩
      · rw [hnil] at hline
        have hlast := congrArg List.getLast? hline
        rw [List.getLast?_concat, List.getLast?_concat] at hlast
        cases hlast
      · rw [List.concat_eq_append] at hinit
        rw [hinit, ← List.cons_append, ← List.append_assoc] at hline
        obtain ⟨hsame, hlast⟩ := List.append_inj' hline rfl
        cases hlast
        exact ⟨init, hsame.symm, Or.inr hinit⟩
  simp only [entryOf, Option.bind_eq_bind, Option.bind_eq_some_iff, Option.pure_def,
    Option.some.injEq] at hentry
  obtain ⟨key, hkey, decoded, hdecoded, rfl⟩ := hentry
  obtain ⟨hle, hplain⟩ := plain_of_loadedKey htrimmed.key hkey hequals
  refine ⟨hle, fun heq => ?_⟩
  obtain ⟨hall, hsame⟩ := hplain heq
  refine ⟨hall, hsame, fun hsaid => ?_⟩
  rw [splitKey_plain hall rfl] at hdecoded
  dsimp only at hdecoded hsaid
  rw [valueOf_equals] at hdecoded
  obtain ⟨hshort, hexact⟩ := length_unescape hdecoded
  rcases hvalue with rfl | hvalue
  · rw [htrimmed.value] at hexact
    exact hexact (by rw [hsaid])
  · have hdrop := length_utf16_dropWhile value
    have hlonger : (utf16 property.2).length = (utf16 value).length + (units '\\').length := by
      rw [hvalue, utf16_append, List.length_append, utf16_cons, utf16_nil, List.append_nil]
    have hpos := length_units_pos '\\'
    rw [hsaid] at hshort
    omega

/-! ### What is loaded -/

theorem mem_of_lookup_reverse {α β : Type} [BEq α] [LawfulBEq α] {entries : List (α × β)} {key : α}
    {value : β} (h : entries.reverse.lookup key = some value) : (key, value) ∈ entries := by
  obtain ⟨before, after, hentries, -⟩ := List.lookup_eq_some_iff.mp h
  rw [← List.mem_reverse, hentries]
  exact List.mem_append_right _ List.mem_cons_self

/-- Of keys that are all different each has its one value. -/
theorem lookup_reverse_eq_some {α β : Type} [BEq α] [LawfulBEq α] {entries : List (α × β)}
    (h : (entries.map Prod.fst).Nodup) {key : α} {value : β} :
    entries.reverse.lookup key = some value ↔ (key, value) ∈ entries := by
  refine ⟨mem_of_lookup_reverse, fun hmem => ?_⟩
  obtain ⟨before, after, hentries⟩ := List.append_of_mem (List.mem_reverse.mpr hmem)
  refine List.lookup_eq_some_iff.mpr ⟨before, after, hentries, fun other hother => ?_⟩
  have hnodup : (entries.reverse.map Prod.fst).Nodup :=
    ((entries.reverse_perm.map Prod.fst).nodup_iff).mpr h
  rw [hentries, List.map_append, List.map_cons] at hnodup
  rw [bne_iff_ne]
  rintro rfl
  exact (List.nodup_append.mp hnodup).2.2 _ (List.mem_map_of_mem hother) _ List.mem_cons_self rfl

theorem forall₂_of_mapM {α β : Type} {f : α → Option β} {xs : List α} {ys : List β}
    (h : xs.mapM f = some ys) : List.Forall₂ (fun x y => f x = some y) xs ys := by
  induction xs generalizing ys with
  | nil =>
    cases h
    exact .nil
  | cons x xs ih =>
    rw [List.mapM_cons] at h
    simp only [Option.bind_eq_bind, Option.bind_eq_some_iff, Option.pure_def,
      Option.some.injEq] at h
    obtain ⟨y, hy, rest, hrest, rfl⟩ := h
    exact .cons hy (ih hrest)

theorem mapM_of_forall {α β γ : Type} {f : β → Option γ} {g : α → β} {k : α → γ} {xs : List α}
    (h : ∀ x ∈ xs, f (g x) = some (k x)) : (xs.map g).mapM f = some (xs.map k) := by
  induction xs with
  | nil => rfl
  | cons x xs ih =>
    obtain ⟨hx, hxs⟩ := List.forall_mem_cons.mp h
    rw [List.map_cons, List.mapM_cons, hx, ih hxs]
    rfl

theorem forall₂_through {α β γ : Type} {A : α → β → Prop} {B : α → γ → Prop} {xs : List α}
    {ys : List β} {zs : List γ} (hys : List.Forall₂ A xs ys) (hzs : List.Forall₂ B xs zs) :
    List.Forall₂ (fun y z => ∃ x, A x y ∧ B x z) ys zs := by
  induction hys generalizing zs with
  | nil =>
    cases hzs
    exact .nil
  | cons hy _ ih =>
    cases hzs with
    | cons hz hrest => exact .cons ⟨_, hy, hz⟩ (ih hrest)

/-- Where nothing is above its bound and the sums are equal, each is its bound. -/
theorem forall₂_eq_of_sum {α β : Type} {f : β → Nat} {g : α → Nat} {Q : α → β → Prop} {xs : List α}
    {ys : List β} (h : List.Forall₂ (fun x y => f y ≤ g x ∧ Q x y) xs ys) :
    (ys.map f).sum ≤ (xs.map g).sum ∧ ((ys.map f).sum = (xs.map g).sum →
      List.Forall₂ (fun x y => f y = g x ∧ Q x y) xs ys) := by
  induction h with
  | nil => exact ⟨le_rfl, fun _ => .nil⟩
  | cons hxy _ ih =>
    obtain ⟨hle, hexact⟩ := ih
    rw [List.map_cons, List.map_cons, List.sum_cons, List.sum_cons]
    refine ⟨Nat.add_le_add hxy.1 hle, fun hsum => ?_⟩
    have hfirst := hxy.1
    exact .cons ⟨by omega, hxy.2⟩ (hexact (by omega))

theorem exists_of_forall₂ {α β : Type} {R : α → β → Prop} {xs : List α} {ys : List β}
    (h : List.Forall₂ R xs ys) {x : α} (hx : x ∈ xs) : ∃ y, y ∈ ys ∧ R x y := by
  induction h with
  | nil => cases hx
  | @cons _ y _ _ hxy _ ih =>
    rcases List.mem_cons.mp hx with rfl | hx
    · exact ⟨y, List.mem_cons_self, hxy⟩
    · obtain ⟨z, hz, hxz⟩ := ih hx
      exact ⟨z, List.mem_cons_of_mem _ hz, hxz⟩

theorem keys_encoded (properties : List (List Char × List Char)) :
    (properties.map encoded).map Prod.fst = (properties.map Prod.fst).map utf16 := by
  rw [List.map_map, List.map_map]
  rfl

section files

variable {properties : List (List Char × List Char)}

/-- The file says its properties. -/
def Says (properties : List (List Char × List Char)) (loaded : List (List Nat × List Nat)) : Prop :=
  ∀ key value, lastOf loaded key = some value ↔
    ∃ property ∈ properties, key = utf16 property.1 ∧ value = utf16 property.2

theorem says_encoded (hkeys : (properties.map Prod.fst).Nodup) :
    Says properties (properties.map encoded) := by
  intro key value
  have hnodup : ((properties.map encoded).map Prod.fst).Nodup := by
    rw [keys_encoded]
    exact List.Nodup.map utf16_injective hkeys
  rw [lastOf, lookup_reverse_eq_some hnodup, List.mem_map]
  exact exists_congr fun property => and_congr_right fun _ => by
    rw [encoded, Prod.mk.injEq, eq_comm, @eq_comm _ value]

/-- Plain properties are loaded as they are. -/
theorem entries_plain (htrimmed : ∀ property ∈ properties, Trimmed property)
    (h : ∀ property ∈ properties, Plain property) :
    (logicalFrom none (properties.map lineOf)).mapM entryOf = some (properties.map encoded) := by
  have hlines : logicalFrom none (properties.map lineOf) = properties.map lineOf := by
    rw [logicalFrom_plain]
    · rw [List.map_map, List.filter_eq_self.mpr]
      · exact List.map_congr_left fun property hproperty => (htrimmed property hproperty).line
      · intro line hline
        obtain ⟨property, hproperty, rfl⟩ := List.mem_map.mp hline
        rw [Function.comp_apply, (htrimmed property hproperty).line, (h property hproperty).start]
        rfl
    · intro raw hraw _
      obtain ⟨property, hproperty, rfl⟩ := List.mem_map.mp hraw
      rw [(htrimmed property hproperty).line]
      exact (h property hproperty).not_continues
  rw [hlines]
  exact mapM_of_forall fun property hproperty =>
    (h property hproperty).entryOf (htrimmed property hproperty)

/-- What says its properties has only plain ones: every line is kept, and no key and no value loses a
code unit. -/
theorem plain_of_says (hkeys : (properties.map Prod.fst).Nodup)
    (htrimmed : ∀ property ∈ properties, Trimmed property) {loaded : List (List Nat × List Nat)}
    (hloaded : (logicalFrom none (properties.map lineOf)).mapM entryOf = some loaded)
    (hsaid : Says properties loaded) : ∀ property ∈ properties, Plain property := by
  have hentries := forall₂_of_mapM hloaded
  have hnodup : ((properties.map Prod.fst).map utf16).Nodup := List.Nodup.map utf16_injective hkeys
  -- every key is loaded, and there are no more entries than lines: the keys are loaded as they are
  have hsubset : (properties.map Prod.fst).map utf16 ⊆ loaded.map Prod.fst := by
    intro key hkey
    rw [List.map_map] at hkey
    obtain ⟨property, hproperty, rfl⟩ := List.mem_map.mp hkey
    exact List.mem_map_of_mem (mem_of_lookup_reverse ((hsaid _ _).mpr ⟨property, hproperty, rfl, rfl⟩))
  have hlength : (properties.map Prod.fst).length ≤ loaded.length := by
    have := hnodup.subperm hsubset |>.length_le
    simpa only [List.length_map] using this
  have hbound := (length_logicalFrom (properties.map lineOf)).1
  rw [List.length_map] at hbound hlength
  have hsame := hentries.length_eq
  have hperm : ((properties.map Prod.fst).map utf16).Perm (loaded.map Prod.fst) :=
    (hnodup.subperm hsubset).perm_of_length_le (by simp only [List.length_map]; omega)
  have hloadedKeys : (loaded.map Prod.fst).Nodup := hperm.nodup_iff.mp hnodup
  have hlines := @logicalFrom_full (properties.map lineOf) (by rw [List.length_map]; omega)
  have hequals : ∀ entry ∈ loaded, '='.toNat ∉ entry.1 := by
    intro entry hentry
    obtain ⟨property, hproperty, hkey, -⟩ :=
      (hsaid _ _).mp ((lookup_reverse_eq_some hloadedKeys).mpr (show (entry.1, entry.2) ∈ loaded from hentry))
    rw [hkey]
    exact notMem_utf16 (htrimmed property hproperty).key
  -- each entry is of its own line, and its key no longer than what was written there
  have hpairs := List.forall₂_map_left_iff.mp (forall₂_through hlines hentries)
  have hbounded : List.Forall₂ (fun property entry =>
      entry.1.length ≤ (utf16 property.1).length ∧ entry ∈ loaded ∧
        isIgnored (lineOf property) = false ∧
          (entry.1.length = (utf16 property.1).length →
            (∀ c ∈ property.1, endsKey c = false ∧ c ≠ '\\') ∧ entry.1 = utf16 property.1 ∧
              (entry.2 = utf16 property.2 → '\\' ∉ property.2))) properties loaded := by
    refine List.forall₂_iff_zip.mpr ⟨hpairs.length_eq, fun {property entry} hmem => ?_⟩
    obtain ⟨hproperty, hentry⟩ := List.of_mem_zip hmem
    obtain ⟨line, ⟨hkept, hline⟩, hread⟩ := (List.forall₂_iff_zip.mp hpairs).2 hmem
    rw [(htrimmed property hproperty).line] at hkept hline
    obtain ⟨hle, hexact⟩ :=
      plain_of_entry (htrimmed property hproperty) hline hread (hequals entry hentry)
    exact ⟨hle, hentry, hkept, hexact⟩
  -- all keys together are as long as they were written, so none is shorter
  have hsum : (loaded.map fun entry => entry.1.length).sum =
      (properties.map fun property => (utf16 property.1).length).sum := by
    have hlengths := (hperm.map List.length).sum_nat
    rw [List.map_map, List.map_map, List.map_map] at hlengths
    exact hlengths.symm
  intro property hproperty
  obtain ⟨entry, -, hlength, hentry, hstart, hexact⟩ :=
    exists_of_forall₂ ((forall₂_eq_of_sum hbounded).2 hsum) hproperty
  obtain ⟨hkey, hsame, hvalue⟩ := hexact hlength
  refine ⟨hkey, hstart, hvalue ?_⟩
  have hlast := (hsaid _ _).mpr ⟨property, hproperty, rfl, rfl⟩
  rw [← hsame, lastOf, (lookup_reverse_eq_some hloadedKeys).mpr (show (entry.1, entry.2) ∈ loaded from hentry)]
    at hlast
  exact Option.some.inj hlast

/-- A file of properties with a line each says them exactly where all of them are plain. -/
theorem says_iff (hkeys : (properties.map Prod.fst).Nodup)
    (htrimmed : ∀ property ∈ properties, Trimmed property) :
    (∃ loaded, (logicalFrom none (properties.map lineOf)).mapM entryOf = some loaded ∧
      Says properties loaded) ↔ ∀ property ∈ properties, Plain property := by
  constructor
  · rintro ⟨loaded, hloaded, hsaid⟩
    exact plain_of_says hkeys htrimmed hloaded hsaid
  · exact fun hplain => ⟨_, entries_plain htrimmed hplain, says_encoded hkeys⟩

end files

/-! ### Texts -/

theorem naturalLines_cons {c : Char} (h : isNewline c = false) (rest : List Char) :
    naturalLines (c :: rest) = match naturalLines rest with
      | [] => [[c]]
      | line :: lines => (c :: line) :: lines := by
  rw [naturalLines.eq_def]
  split
  · next heq => cases heq
  · next heq =>
    cases heq
    cases h
  · next heq =>
    cases heq
    rw [h]
    rfl

theorem naturalLines_line {line : List Char} (h : ∀ c ∈ line, isNewline c = false)
    (rest : List Char) : naturalLines (line ++ '\n' :: rest) = line :: naturalLines rest := by
  induction line with
  | nil => rfl
  | cons c line ih =>
    obtain ⟨hc, hline⟩ := List.forall_mem_cons.mp h
    rw [List.cons_append, naturalLines_cons hc, ih hline]

/-- The text is loaded as these properties. -/
def Loads (text : String) (properties : List (List Char × List Char)) : Prop :=
  ∃ loaded, entries text = some loaded ∧ Says properties loaded

theorem naturalLines_file {properties : List (List Char × List Char)}
    (h : ∀ property ∈ properties, ∀ c ∈ lineOf property, isNewline c = false) :
    naturalLines (properties.flatMap fun property => lineOf property ++ ['\n']) =
      properties.map lineOf := by
  induction properties with
  | nil => rfl
  | cons property rest ih =>
    obtain ⟨hfirst, hrest⟩ := List.forall_mem_cons.mp h
    rw [List.flatMap_cons, List.append_assoc, List.singleton_append, naturalLines_line hfirst,
      ih hrest]
    rfl

/-- What is loaded of a file with a line for each property. -/
theorem loads_file_iff {text : String} {properties : List (List Char × List Char)}
    (htext : text.toList = properties.flatMap fun property => lineOf property ++ ['\n'])
    (hlines : ∀ property ∈ properties, ∀ c ∈ lineOf property, isNewline c = false)
    (hkeys : (properties.map Prod.fst).Nodup)
    (htrimmed : ∀ property ∈ properties, Trimmed property) :
    Loads text properties ↔ ∀ property ∈ properties, Plain property := by
  unfold Loads entries
  rw [htext, naturalLines_file hlines]
  exact says_iff hkeys htrimmed

end JavaProperties

end Lib

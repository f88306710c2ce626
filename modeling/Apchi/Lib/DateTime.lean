import Mathlib.Algebra.Ring.Nat
import Mathlib.Data.List.Lex
import Mathlib.Order.Lattice
import Mathlib.Tactic.Common

/-!
# Instants, and the texts they are written as

An instant is a date and a time of day in UTC, to the microsecond.  Its text leaves the fraction out
where there is none, so that the order of the texts is not quite that of the instants: within one
second, a text with a fraction comes before the one without.
-/

namespace Lib

/-- How many days a month has. -/
def daysIn (year month : Nat) : Nat :=
  if month = 2 then
    if year % 4 = 0 ∧ (year % 100 ≠ 0 ∨ year % 400 = 0) then 29 else 28
  else if month = 4 ∨ month = 6 ∨ month = 9 ∨ month = 11 then 30 else 31

/-- The fields are those of an instant there is. -/
def ValidDateTime (year month day hour minute second microsecond : Nat) : Prop :=
  (1 ≤ year ∧ year ≤ 9999) ∧ (1 ≤ month ∧ month ≤ 12) ∧ (1 ≤ day ∧ day ≤ daysIn year month) ∧
    hour < 24 ∧ minute < 60 ∧ second < 60 ∧ microsecond < 1000000

instance (year month day hour minute second microsecond : Nat) :
    Decidable (ValidDateTime year month day hour minute second microsecond) :=
  inferInstanceAs (Decidable (_ ∧ _))

/-- An instant in UTC. -/
@[ext] structure DateTime where
  year : Nat
  month : Nat
  day : Nat
  hour : Nat
  minute : Nat
  second : Nat
  microsecond : Nat
  valid : ValidDateTime year month day hour minute second microsecond
deriving DecidableEq

namespace DateTime

/-- The second an instant lies in. -/
def clock (d : DateTime) : List Nat := [d.year, d.month, d.day, d.hour, d.minute, d.second]

/-- The fields, the coarsest first. -/
def fields (d : DateTime) : List Nat := d.clock ++ [d.microsecond]

theorem fields_injective : Function.Injective fields := by
  intro d e h
  simp only [fields, clock, List.cons_append, List.nil_append, List.cons.injEq, and_true] at h
  obtain ⟨hyear, hmonth, hday, hhour, hminute, hsecond, hmicrosecond⟩ := h
  exact DateTime.ext hyear hmonth hday hhour hminute hsecond hmicrosecond

/-- Instants are ordered by their fields. -/
instance : LinearOrder DateTime := LinearOrder.lift' fields fields_injective

/-- The instant to the millisecond. -/
def toMillisecond (d : DateTime) : DateTime where
  year := d.year
  month := d.month
  day := d.day
  hour := d.hour
  minute := d.minute
  second := d.second
  microsecond := d.microsecond / 1000 * 1000
  valid := by
    obtain ⟨hyear, hmonth, hday, hhour, hminute, hsecond, hmicrosecond⟩ := d.valid
    exact ⟨hyear, hmonth, hday, hhour, hminute, hsecond, by omega⟩

@[simp] theorem toMillisecond_toMillisecond (d : DateTime) :
    d.toMillisecond.toMillisecond = d.toMillisecond := by
  refine DateTime.ext rfl rfl rfl rfl rfl rfl ?_
  show d.microsecond / 1000 * 1000 / 1000 * 1000 = d.microsecond / 1000 * 1000
  omega

/-! ## Numbers of a fixed width -/

/-- A number in so many decimal digits. -/
def pad : Nat → Nat → List Char
  | 0, _ => []
  | width + 1, n => pad width (n / 10) ++ [Char.ofNat (48 + n % 10)]

/-- The value of a decimal digit. -/
def digit (c : Char) : Option Nat := if c.isDigit then some (c.toNat - 48) else none

/-- The number some digits write, after those read before. -/
def numberFrom (before : Nat) : List Char → Option Nat
  | [] => some before
  | c :: rest => (digit c).bind fun value => numberFrom (before * 10 + value) rest

/-- A number of so many digits, and what follows it. -/
def number (width : Nat) (text : List Char) : Option (Nat × List Char) :=
  if width ≤ text.length then (numberFrom 0 (text.take width)).map fun n => (n, text.drop width)
  else none

@[simp] theorem length_pad (width n : Nat) : (pad width n).length = width := by
  induction width generalizing n with
  | zero => rfl
  | succ width ih => simp [pad, ih]

theorem digit_ofNat {n : Nat} (h : n < 10) : digit (Char.ofNat (48 + n)) = some n := by
  have hall : ∀ n : Fin 10, digit (Char.ofNat (48 + n)) = some n.val := by decide
  exact hall ⟨n, h⟩

theorem toNat_digit {n : Nat} (h : n < 10) : (Char.ofNat (48 + n)).toNat = 48 + n := by
  have hall : ∀ n : Fin 10, (Char.ofNat (48 + n)).toNat = 48 + n.val := by decide
  exact hall ⟨n, h⟩

theorem numberFrom_append (before : Nat) (text more : List Char) :
    numberFrom before (text ++ more) = (numberFrom before text).bind (numberFrom · more) := by
  induction text generalizing before with
  | nil => rfl
  | cons c text ih =>
    rw [List.cons_append, numberFrom, numberFrom, Option.bind_assoc]
    exact congrArg _ (funext fun value => ih _)

theorem numberFrom_pad (width : Nat) {n : Nat} (h : n < 10 ^ width) :
    numberFrom 0 (pad width n) = some n := by
  induction width generalizing n with
  | zero =>
    rw [Nat.pow_zero] at h
    rw [Nat.lt_one_iff.mp h]
    rfl
  | succ width ih =>
    have hfirst : n / 10 < 10 ^ width := by
      rw [Nat.pow_succ] at h
      omega
    rw [pad, numberFrom_append, ih hfirst, Option.bind_some, numberFrom,
      digit_ofNat (Nat.mod_lt n (by omega)), Option.bind_some, numberFrom]
    exact congrArg some (by omega)

theorem digit_digitChar {n : Nat} (h : n < 10) : digit n.digitChar = some n := by
  have hall : ∀ n : Fin 10, digit n.val.digitChar = some n.val := by decide
  exact hall ⟨n, h⟩

/-- A number in as many digits as it needs is read back. -/
theorem numberFrom_toDigits (n : Nat) : numberFrom 0 (Nat.toDigits 10 n) = some n := by
  induction n using Nat.strong_induction_on with
  | _ n ih =>
    by_cases hlt : n < 10
    · rw [Nat.toDigits_of_lt_base hlt, numberFrom, digit_digitChar hlt, Option.bind_some, numberFrom,
        Nat.zero_mul, Nat.zero_add]
    · rw [Nat.toDigits_of_base_le (by decide) (by omega), numberFrom_append, ih (n / 10) (by omega),
        Option.bind_some, numberFrom, digit_digitChar (Nat.mod_lt n (by decide)), Option.bind_some,
        numberFrom]
      exact congrArg some (by omega)

theorem number_pad {width n : Nat} (h : n < 10 ^ width) (rest : List Char) :
    number width (pad width n ++ rest) = some (n, rest) := by
  have htake : (pad width n ++ rest).take width = pad width n := by
    rw [List.take_append_of_le_length (by simp), List.take_of_length_le (by simp)]
  have hdrop : (pad width n ++ rest).drop width = rest := by
    rw [List.drop_append_of_le_length (by simp), List.drop_of_length_le (by simp), List.nil_append]
  rw [number, if_pos (by simp), htake, hdrop, numberFrom_pad width h, Option.map_some]

/-! ## Texts -/

/-- The fraction of a second, which is left out where there is none. -/
def fraction (d : DateTime) : List Char :=
  if d.microsecond = 0 then [] else '.' :: pad 6 d.microsecond

/-- The date and the time of day to the second. -/
def seconds (d : DateTime) : List Char :=
  pad 4 d.year ++ '-' :: (pad 2 d.month ++ '-' :: (pad 2 d.day ++ 'T' :: (pad 2 d.hour ++
    ':' :: (pad 2 d.minute ++ ':' :: pad 2 d.second))))

/-- The text Python's `isoformat` writes. -/
def isoformat (d : DateTime) : List Char := d.seconds ++ (d.fraction ++ "+00:00".toList)

/-- The text an instant has in JSON. -/
def jsonText (d : DateTime) : List Char := d.seconds ++ (d.fraction ++ ['Z'])

/-- What follows a character that has to be there. -/
def expect (c : Char) : List Char → Option (List Char)
  | [] => none
  | first :: rest => if first = c then some rest else none

/-- The microseconds, which may be left out. -/
def readFraction : List Char → Option (Nat × List Char)
  | '.' :: rest => number 6 rest
  | rest => some (0, rest)

/-- The instant of its fields, where there is such a one. -/
def ofFields (year month day hour minute second microsecond : Nat) : Option DateTime :=
  if valid : ValidDateTime year month day hour minute second microsecond then
    some { year, month, day, hour, minute, second, microsecond, valid }
  else none

/-- Reads a text in either of the two forms above; the other forms that Python reads are left out. -/
def fromisoformat (text : List Char) : Option DateTime := do
  let (year, text) ← number 4 text
  let (month, text) ← number 2 (← expect '-' text)
  let (day, text) ← number 2 (← expect '-' text)
  let (hour, text) ← number 2 (← expect 'T' text)
  let (minute, text) ← number 2 (← expect ':' text)
  let (second, text) ← number 2 (← expect ':' text)
  let (microsecond, zone) ← readFraction text
  if zone = "+00:00".toList ∨ zone = ['Z'] then
    ofFields year month day hour minute second microsecond
  else none

@[simp] theorem expect_cons (c : Char) (rest : List Char) : expect c (c :: rest) = some rest :=
  if_pos rfl

theorem mem_pad {width n : Nat} {c : Char} (h : c ∈ pad width n) : c.isDigit = true := by
  induction width generalizing n with
  | zero => cases h
  | succ width ih =>
    rcases List.mem_append.mp h with h | h
    · exact ih h
    · have hall : ∀ n : Fin 10, (Char.ofNat (48 + n)).isDigit = true := by decide
      rw [List.mem_singleton.mp h]
      exact hall ⟨n % 10, Nat.mod_lt n (by decide)⟩

/-- A digit, or a mark between the numbers of a text. -/
def IsPart (c : Char) : Prop := c.isDigit = true ∨ c ∈ "-T:.+".toList

instance : DecidablePred IsPart := fun _ => inferInstanceAs (Decidable (_ ∨ _))

theorem isPart_isoformat (d : DateTime) : ∀ c ∈ d.isoformat, IsPart c := by
  have hpad (width n : Nat) : ∀ c ∈ pad width n, IsPart c := fun c h => .inl (mem_pad h)
  have hfraction : ∀ c ∈ d.fraction, IsPart c := by
    unfold fraction
    split
    · exact List.forall_mem_nil _
    · exact List.forall_mem_cons.mpr ⟨by decide, hpad _ _⟩
  have hzone : ∀ c ∈ "+00:00".toList, IsPart c := by
    have hall : "+00:00".toList.all (fun c => IsPart c) = true := by decide
    exact fun c hc => of_decide_eq_true (List.all_eq_true.mp hall c hc)
  have hdash : IsPart '-' := by decide
  have hcolon : IsPart ':' := by decide
  have htime : IsPart 'T' := by decide
  simp only [isoformat, seconds, List.forall_mem_append, List.forall_mem_cons]
  exact ⟨⟨hpad _ _, hdash, hpad _ _, hdash, hpad _ _, htime, hpad _ _, hcolon, hpad _ _, hcolon,
    hpad _ _⟩, hfraction, hzone⟩

theorem readFraction_fraction (d : DateTime) {zone : List Char} (hzone : zone.head? ≠ some '.') :
    readFraction (d.fraction ++ zone) = some (d.microsecond, zone) := by
  unfold fraction
  split
  · next h =>
    rw [List.nil_append, h]
    unfold readFraction
    split
    · exact absurd rfl hzone
    · rfl
  · rw [List.cons_append, readFraction]
    exact number_pad (show d.microsecond < 10 ^ 6 from d.valid.2.2.2.2.2.2) zone

theorem ofFields_fields (d : DateTime) :
    ofFields d.year d.month d.day d.hour d.minute d.second d.microsecond = some d :=
  dif_pos d.valid

theorem daysIn_le (year month : Nat) : daysIn year month ≤ 31 := by
  unfold daysIn
  split
  · split <;> omega
  · split <;> omega

/-- What is written is read back, whichever way the zone is put. -/
theorem fromisoformat_seconds (d : DateTime) {zone : List Char}
    (hzone : zone = "+00:00".toList ∨ zone = ['Z']) :
    fromisoformat (d.seconds ++ (d.fraction ++ zone)) = some d := by
  obtain ⟨⟨-, hyear⟩, ⟨-, hmonth⟩, ⟨-, hday⟩, hhour, hminute, hsecond, -⟩ := d.valid
  have hdays := daysIn_le d.year d.month
  have hhead : zone.head? ≠ some '.' := by rcases hzone with rfl | rfl <;> decide
  simp only [fromisoformat, seconds, List.append_assoc, List.cons_append, bind, Option.bind_some,
    number_pad (show d.year < 10 ^ 4 by omega), number_pad (show d.month < 10 ^ 2 by omega),
    number_pad (show d.day < 10 ^ 2 by omega), number_pad (show d.hour < 10 ^ 2 by omega),
    number_pad (show d.minute < 10 ^ 2 by omega), number_pad (show d.second < 10 ^ 2 by omega),
    expect_cons, readFraction_fraction d hhead, hzone, if_true, ofFields_fields]

theorem fromisoformat_isoformat (d : DateTime) : fromisoformat d.isoformat = some d :=
  fromisoformat_seconds d (.inl rfl)

theorem fromisoformat_jsonText (d : DateTime) : fromisoformat d.jsonText = some d :=
  fromisoformat_seconds d (.inr rfl)

/-! ## The order of the texts -/

/-- The numbers of the characters, by which texts are compared. -/
def codes (text : List Char) : List Nat := text.map Char.toNat

theorem codes_append (text more : List Char) : codes (text ++ more) = codes text ++ codes more :=
  List.map_append

theorem codes_cons (c : Char) (text : List Char) : codes (c :: text) = c.toNat :: codes text :=
  rfl

@[simp] theorem length_codes (text : List Char) : (codes text).length = text.length :=
  List.length_map _

/-- Texts that begin with as many characters are compared by these first. -/
theorem append_lt_append {a b x y : List Nat} (h : a.length = b.length) :
    a ++ x < b ++ y ↔ a < b ∨ a = b ∧ x < y := by
  induction a generalizing b with
  | nil =>
    cases List.length_eq_zero_iff.mp h.symm
    simp
  | cons head a ih =>
    cases b with
    | nil => cases h
    | cons first b =>
      have hlength : a.length = b.length := Nat.succ.inj h
      simp only [List.cons_append, List.cons_lt_cons_iff, ih hlength, List.cons.injEq]
      tauto

theorem eq_iff_eq_of_lt_iff_lt {α β : Type} [LinearOrder α] [LinearOrder β] {a b : α} {x y : β}
    (h : a < b ↔ x < y) (h' : b < a ↔ y < x) : a = b ↔ x = y := by
  rw [eq_iff_le_not_lt, eq_iff_le_not_lt, ← not_lt, ← not_lt, h, h']

theorem codes_pad_lt {width m n : Nat} (hm : m < 10 ^ width) (hn : n < 10 ^ width) :
    codes (pad width m) < codes (pad width n) ↔ m < n := by
  induction width generalizing m n with
  | zero =>
    rw [Nat.pow_zero] at hm hn
    simp only [Nat.lt_one_iff.mp hm, Nat.lt_one_iff.mp hn, lt_irrefl]
  | succ width ih =>
    rw [Nat.pow_succ] at hm hn
    have hfirst : codes (pad width (m / 10)) < codes (pad width (n / 10)) ↔ m / 10 < n / 10 :=
      ih (by omega) (by omega)
    have hsecond : codes (pad width (n / 10)) < codes (pad width (m / 10)) ↔ n / 10 < m / 10 :=
      ih (by omega) (by omega)
    have heq : codes (pad width (m / 10)) = codes (pad width (n / 10)) ↔ m / 10 = n / 10 :=
      eq_iff_eq_of_lt_iff_lt hfirst hsecond
    have hlast (k : Nat) : codes [Char.ofNat (48 + k % 10)] = [48 + k % 10] := by
      rw [codes, List.map_singleton, toNat_digit (Nat.mod_lt k (by omega))]
    rw [pad, pad, codes_append, codes_append, append_lt_append (by simp), hfirst, heq, hlast, hlast,
      List.cons_lt_cons_iff]
    simp only [List.lt_irrefl, and_false, or_false]
    omega

theorem codes_pad_inj {width m n : Nat} (hm : m < 10 ^ width) (hn : n < 10 ^ width) :
    codes (pad width m) = codes (pad width n) ↔ m = n :=
  eq_iff_eq_of_lt_iff_lt (codes_pad_lt hm hn) (codes_pad_lt hn hm)

theorem length_seconds (d : DateTime) : d.seconds.length = 19 := by
  simp [seconds]

/-- The second is in the text as it is in the instant. -/
theorem codes_seconds_lt (d e : DateTime) : codes d.seconds < codes e.seconds ↔ d.clock < e.clock := by
  obtain ⟨⟨-, hyear⟩, ⟨-, hmonth⟩, ⟨-, hday⟩, hhour, hminute, hsecond, -⟩ := d.valid
  obtain ⟨⟨-, hyear'⟩, ⟨-, hmonth'⟩, ⟨-, hday'⟩, hhour', hminute', hsecond', -⟩ := e.valid
  have hdays := daysIn_le d.year d.month
  have hdays' := daysIn_le e.year e.month
  have htwo {m n : Nat} {x y : List Nat} (hm : m < 100) (hn : n < 100) :
      codes (pad 2 m) ++ x < codes (pad 2 n) ++ y ↔ m < n ∨ m = n ∧ x < y := by
    rw [append_lt_append (by simp), codes_pad_lt (by omega) (by omega),
      codes_pad_inj (by omega) (by omega)]
  have hyears {x y : List Nat} : codes (pad 4 d.year) ++ x < codes (pad 4 e.year) ++ y ↔
      d.year < e.year ∨ d.year = e.year ∧ x < y := by
    rw [append_lt_append (by simp), codes_pad_lt (by omega) (by omega),
      codes_pad_inj (by omega) (by omega)]
  have hlast : codes (pad 2 d.second) < codes (pad 2 e.second) ↔ d.second < e.second :=
    codes_pad_lt (by omega) (by omega)
  simp only [seconds, clock, codes_append, codes_cons, hyears, List.cons_lt_cons_iff, lt_irrefl,
    false_or, true_and, htwo (show d.month < 100 by omega) (show e.month < 100 by omega),
    htwo (show d.day < 100 by omega) (show e.day < 100 by omega),
    htwo (show d.hour < 100 by omega) (show e.hour < 100 by omega),
    htwo (show d.minute < 100 by omega) (show e.minute < 100 by omega), hlast, and_false, or_false]

theorem codes_seconds_inj (d e : DateTime) :
    codes d.seconds = codes e.seconds ↔ d.clock = e.clock :=
  eq_iff_eq_of_lt_iff_lt (codes_seconds_lt d e) (codes_seconds_lt e d)

/-- Instants are compared by their seconds first. -/
theorem lt_iff (d e : DateTime) :
    d < e ↔ d.clock < e.clock ∨ d.clock = e.clock ∧ d.microsecond < e.microsecond := by
  show d.fields < e.fields ↔ _
  have hlength : d.clock.length = e.clock.length := rfl
  rw [fields, fields, append_lt_append hlength, List.cons_lt_cons_iff]
  simp only [List.lt_irrefl, and_false, or_false]

/-- Within a second a text with a fraction comes before the one without. -/
theorem codes_jsonText_lt (d e : DateTime) : codes d.jsonText < codes e.jsonText ↔
    d.clock < e.clock ∨ d.clock = e.clock ∧ d.microsecond ≠ 0 ∧
      (e.microsecond = 0 ∨ d.microsecond < e.microsecond) := by
  have hd : d.microsecond < 10 ^ 6 := d.valid.2.2.2.2.2.2
  have he : e.microsecond < 10 ^ 6 := e.valid.2.2.2.2.2.2
  have hfraction : codes (d.fraction ++ ['Z']) < codes (e.fraction ++ ['Z']) ↔
      d.microsecond ≠ 0 ∧ (e.microsecond = 0 ∨ d.microsecond < e.microsecond) := by
    have hpoint : '.'.toNat = 46 := rfl
    have hzone : codes ['Z'] = [90] := rfl
    unfold fraction
    by_cases hd0 : d.microsecond = 0
    · by_cases he0 : e.microsecond = 0
      · simp [hd0, he0]
      · simp [hd0, he0, codes_append, codes_cons, hpoint, hzone, List.cons_lt_cons_iff]
    · by_cases he0 : e.microsecond = 0
      · simp [hd0, he0, codes_append, codes_cons, hpoint, hzone, List.cons_lt_cons_iff]
      · have hpads : (codes (pad 6 d.microsecond)).length = (codes (pad 6 e.microsecond)).length := by
          simp
        simp only [hd0, he0, if_false, List.cons_append, codes_append, codes_cons, hzone,
          List.cons_lt_cons_iff, lt_irrefl, true_and, false_or, append_lt_append hpads,
          codes_pad_lt hd he, and_false, or_false, not_false_eq_true, ne_eq]
  have hlength : (codes d.seconds).length = (codes e.seconds).length := by
    simp [length_seconds]
  rw [jsonText, jsonText, codes_append, codes_append e.seconds, append_lt_append hlength, codes_seconds_lt,
    codes_seconds_inj, hfraction]

/-- Two instants in one second, the first of them without a fraction. -/
def Misordered (d e : DateTime) : Prop :=
  d.clock = e.clock ∧ d.microsecond = 0 ∧ e.microsecond ≠ 0

instance : DecidableRel Misordered := fun _ _ =>
  inferInstanceAs (Decidable (_ ∧ _))

/-- Two such aside, the texts are in the order of the instants. -/
theorem codes_jsonText_lt_iff {d e : DateTime} (h : ¬ Misordered d e) (h' : ¬ Misordered e d) :
    codes d.jsonText < codes e.jsonText ↔ d < e := by
  rw [codes_jsonText_lt, lt_iff]
  refine or_congr_right (and_congr_right fun hclock => ?_)
  have hd : d.microsecond = 0 → e.microsecond = 0 := by
    intro hd
    by_contra he
    exact h ⟨hclock, hd, he⟩
  have he : e.microsecond = 0 → d.microsecond = 0 := by
    intro he
    by_contra hd
    exact h' ⟨hclock.symm, he, hd⟩
  omega

/-- Two such are in the other order. -/
theorem Misordered.lt {d e : DateTime} (h : Misordered d e) :
    d < e ∧ codes e.jsonText < codes d.jsonText := by
  obtain ⟨hclock, hd, he⟩ := h
  rw [codes_jsonText_lt, lt_iff]
  exact ⟨.inr ⟨hclock, by omega⟩, .inr ⟨hclock.symm, he, .inl hd⟩⟩

end DateTime

end Lib

import Mathlib.Data.List.TakeWhile
import Mathlib.Tactic.Common
import Mathlib.Algebra.Ring.Nat

/-!
# SQL statements, cut into tokens

Words, numbers, identifiers in double quotes, texts in single quotes and other characters each on its
own; blanks and comments stand between them.  A quote within its own quotes is written twice.
-/

namespace Lib

namespace Sql

inductive Token where
  | word (text : List Char)
  | number (text : List Char)
  | identifier (name : List Char)
  | text (value : List Char)
  | symbol (c : Char)
  deriving DecidableEq, Repr

def isSpace (c : Char) : Bool := c == ' ' || c == '\t' || c == '\n' || c == '\r'

def isWordStart (c : Char) : Bool := c.isAlpha || c == '_'

def isWordChar (c : Char) : Bool := c.isAlpha || c.isDigit || c == '_'

/-- What is between quotes, the first of which has been read, and what follows them. -/
@[simp] def quoted (quote : Char) : List Char → Option (List Char × List Char)
  | [] => none
  | [c] => if c = quote then some ([], []) else none
  | c :: d :: rest =>
      if c = quote then
        if d = quote then (quoted quote rest).map fun found => (quote :: found.1, found.2)
        else some ([], d :: rest)
      else (quoted quote (d :: rest)).map fun found => (c :: found.1, found.2)

/-- What follows the end of a comment in brackets. -/
def afterBracket : List Char → Option (List Char)
  | [] => none
  | '*' :: '/' :: rest => some rest
  | _ :: rest => afterBracket rest

/-- The next token, if what is read first is one, and what follows; blanks and comments are none. -/
def next : List Char → Option (Option Token × List Char)
  | [] => none
  | c :: rest =>
      if isSpace c then some (none, rest)
      else if c = '"' then (quoted '"' rest).map fun found => (some (.identifier found.1), found.2)
      else if c = '\'' then (quoted '\'' rest).map fun found => (some (.text found.1), found.2)
      else if isWordStart c then
        some (some (.word (c :: rest.takeWhile isWordChar)), rest.dropWhile isWordChar)
      else if c.isDigit then
        some (some (.number (c :: rest.takeWhile isWordChar)), rest.dropWhile isWordChar)
      else match c, rest with
        | '-', '-' :: rest => some (none, rest.dropWhile fun c => c != '\n')
        | '/', '*' :: rest => (afterBracket rest).map fun rest => (none, rest)
        | _, _ => some (some (.symbol c), rest)

def tokensFrom : (fuel : Nat) → List Char → Option (List Token)
  | _, [] => some []
  | 0, _ :: _ => none
  | fuel + 1, c :: rest => do
      let (token, rest) ← next (c :: rest)
      let tokens ← tokensFrom fuel rest
      return token.toList ++ tokens

/-- The tokens of a statement, where all of it can be read. -/
def tokens (text : List Char) : Option (List Token) := tokensFrom text.length text

/-! ### Reading goes forward -/

theorem length_quoted {quote : Char} : ∀ {text : List Char} {found : List Char × List Char},
    quoted quote text = some found → found.2.length < text.length
  | [], _, h => by simp at h
  | [c], _, h => by
    simp only [quoted] at h
    split at h
    · cases h
      simp
    · cases h
  | c :: d :: rest, _, h => by
    simp only [quoted] at h
    split at h
    · split at h
      · obtain ⟨found, hfound, rfl⟩ := Option.map_eq_some_iff.mp h
        have hless := length_quoted hfound
        simp only [List.length_cons]
        omega
      · cases h
        simp
    · obtain ⟨found, hfound, rfl⟩ := Option.map_eq_some_iff.mp h
      have hless := length_quoted hfound
      simp only [List.length_cons] at hless ⊢
      omega

theorem length_afterBracket {text rest : List Char} (h : afterBracket text = some rest) :
    rest.length < text.length := by
  fun_induction afterBracket text with
  | case1 => cases h
  | case2 more =>
    cases h
    simp only [List.length_cons]
    omega
  | case3 c more _ ih =>
    have hless := ih h
    simp only [List.length_cons]
    omega

theorem length_dropWhile_le (p : Char → Bool) (text : List Char) :
    (text.dropWhile p).length ≤ text.length := (List.dropWhile_suffix p).length_le

theorem length_next {text rest : List Char} {token : Option Token}
    (h : next text = some (token, rest)) : rest.length < text.length := by
  cases text with
  | nil => cases h
  | cons c text =>
    have hdrop (p : Char → Bool) : (text.dropWhile p).length < (c :: text).length :=
      Nat.lt_succ_of_le (length_dropWhile_le p text)
    unfold next at h
    dsimp only at h
    split at h
    · cases h
      simp
    split at h
    · obtain ⟨found, hfound, heq⟩ := Option.map_eq_some_iff.mp h
      cases heq
      exact Nat.lt_succ_of_lt (length_quoted hfound)
    split at h
    · obtain ⟨found, hfound, heq⟩ := Option.map_eq_some_iff.mp h
      cases heq
      exact Nat.lt_succ_of_lt (length_quoted hfound)
    split at h
    · cases h
      exact hdrop _
    split at h
    · cases h
      exact hdrop _
    split at h
    · cases h
      have hless := length_dropWhile_le (fun c => c != '\n') ‹List Char›
      simp only [List.length_cons]
      omega
    · obtain ⟨found, hfound, heq⟩ := Option.map_eq_some_iff.mp h
      cases heq
      have hless := length_afterBracket hfound
      simp only [List.length_cons]
      omega
    · cases h
      simp

/-- The reading stops by itself. -/
theorem tokensFrom_of_le {fuel : Nat} {text : List Char} (h : text.length ≤ fuel) :
    tokensFrom fuel text = tokens text := by
  suffices hall : ∀ (n fuel other : Nat) (text : List Char), text.length ≤ n → n ≤ fuel →
      n ≤ other → tokensFrom fuel text = tokensFrom other text from
    hall _ _ _ _ le_rfl h le_rfl
  intro n
  induction n with
  | zero =>
    intro fuel other text hlength _ _
    rw [List.length_eq_zero_iff.mp (Nat.le_zero.mp hlength)]
    cases fuel <;> cases other <;> rfl
  | succ n ih =>
    intro fuel other text hlength hfuel hother
    obtain ⟨fuel, rfl⟩ : ∃ less, fuel = less + 1 := ⟨fuel - 1, by omega⟩
    obtain ⟨other, rfl⟩ : ∃ less, other = less + 1 := ⟨other - 1, by omega⟩
    cases text with
    | nil => rfl
    | cons c text =>
      unfold tokensFrom
      cases hnext : next (c :: text) with
      | none => rfl
      | some found =>
        have hless := length_next hnext
        simp only [Option.bind_eq_bind, Option.bind_some,
          ih fuel other found.2 (by omega) (by omega) (by omega)]

/-- What is read first, and then what follows. -/
theorem tokens_next {text rest : List Char} {token : Option Token}
    (h : next text = some (token, rest)) :
    tokens text = (tokens rest).map (token.toList ++ ·) := by
  have hless := length_next h
  cases text with
  | nil => cases h
  | cons c text =>
    rw [tokens, List.length_cons, tokensFrom, h]
    simp only [Option.bind_eq_bind, Option.bind_some,
      tokensFrom_of_le (Nat.le_of_lt_succ (by simpa using hless))]
    cases tokens rest <;> rfl

@[simp] theorem tokens_nil : tokens [] = some [] := rfl

/-! ### What is written is read -/

/-- A text in quotes. -/
def inQuotes (quote : Char) (text : List Char) : List Char :=
  quote :: (text.flatMap fun c => if c = quote then [c, c] else [c]) ++ [quote]

/-- Text in quotes is read back, whatever it is, where no other quote follows. -/
theorem quoted_inQuotes {quote : Char} (text : List Char) {rest : List Char}
    (h : rest.head? ≠ some quote) :
    quoted quote ((text.flatMap fun c => if c = quote then [c, c] else [c]) ++ quote :: rest) =
      some (text, rest) := by
  induction text with
  | nil =>
    cases rest with
    | nil => simp
    | cons d rest =>
      have hne : d ≠ quote := fun heq => h (by rw [heq]; rfl)
      simp [hne]
  | cons c text ih =>
    by_cases hc : c = quote
    · subst hc
      simp [ih]
    · cases hlist : (text.flatMap fun c => if c = quote then [c, c] else [c]) ++ quote :: rest with
      | nil => simp at hlist
      | cons d more =>
        rw [hlist] at ih
        simp [hc, hlist, ih]

/-- What may stand without quotes. -/
def isWord : List Char → Bool
  | [] => false
  | c :: rest => isWordStart c && rest.all isWordChar

/-- What ends a word. -/
abbrev EndsWord (rest : List Char) : Prop := rest.head?.any isWordChar = false

theorem takeWhile_word {word rest : List Char} (hword : word.all isWordChar = true)
    (hrest : EndsWord rest) :
    (word ++ rest).takeWhile isWordChar = word ∧ (word ++ rest).dropWhile isWordChar = rest := by
  induction word with
  | nil =>
    cases rest with
    | nil => exact ⟨rfl, rfl⟩
    | cons c rest =>
      have hc : isWordChar c = false := hrest
      simp [hc]
  | cons c word ih =>
    simp only [List.all_cons, Bool.and_eq_true] at hword
    obtain ⟨htake, hdrop⟩ := ih hword.2
    simp [hword.1, htake, hdrop]

theorem isWordChar_of_start {c : Char} (h : isWordStart c = true) : isWordChar c = true := by
  simp only [isWordStart, isWordChar, Bool.or_eq_true] at h ⊢
  tauto

theorem isWordStart_plain {c : Char} (h : isWordStart c = true) :
    isSpace c = false ∧ c ≠ '"' ∧ c ≠ '\'' := by
  have hne (d : Char) (hd : isWordStart d = false) : c ≠ d := by
    rintro rfl
    rw [h] at hd
    cases hd
  refine ⟨?_, hne _ rfl, hne _ rfl⟩
  simp [isSpace, hne ' ' rfl, hne '\t' rfl, hne '\n' rfl, hne '\r' rfl]

/-- A word is read as far as it goes. -/
theorem tokens_start {c : Char} (h : isWordStart c = true) (rest : List Char) :
    tokens (c :: rest) =
      (tokens (rest.dropWhile isWordChar)).map (.word (c :: rest.takeWhile isWordChar) :: ·) := by
  obtain ⟨hspace, hidentifier, htext⟩ := isWordStart_plain h
  have hnext : next (c :: rest) =
      some (some (.word (c :: rest.takeWhile isWordChar)), rest.dropWhile isWordChar) := by
    simp [next, hspace, hidentifier, htext, h]
  exact tokens_next hnext

theorem tokens_word {word rest : List Char} (h : isWord word = true) (hrest : EndsWord rest) :
    tokens (word ++ rest) = (tokens rest).map (.word word :: ·) := by
  cases word with
  | nil => cases h
  | cons c word =>
    simp only [isWord, Bool.and_eq_true] at h
    obtain ⟨htake, hdrop⟩ := takeWhile_word h.2 hrest
    rw [List.cons_append, tokens_start h.1, htake, hdrop]

/-- What does not begin with a word is not read as one. -/
theorem word_of_tokens {word rest : List Char} {found : List Token}
    (hstart : word.head?.any isWordStart = true)
    (h : tokens (word ++ rest) = some (.word word :: found)) : word.all isWordChar = true := by
  cases word with
  | nil => cases hstart
  | cons c word =>
    have hc : isWordStart c = true := hstart
    rw [List.cons_append, tokens_start hc] at h
    obtain ⟨found, -, heq⟩ := Option.map_eq_some_iff.mp h
    simp only [List.cons.injEq, Token.word.injEq, true_and] at heq
    have hall : word.all isWordChar = true := by
      rw [← heq.1]
      exact List.all_takeWhile
    simp [hall, isWordChar_of_start hc]

theorem tokens_space (rest : List Char) : tokens (' ' :: rest) = tokens rest := by
  have hnext : next (' ' :: rest) = some (none, rest) := rfl
  rw [tokens_next hnext]
  cases tokens rest <;> rfl

/-- A word with a blank after it. -/
theorem tokens_keyword {word : String} (h : isWord word.toList = true) (rest : List Char) :
    tokens (word.toList ++ ' ' :: rest) = (tokens rest).map (.word word.toList :: ·) := by
  rw [tokens_word h rfl, tokens_space]

theorem tokens_identifier (name : List Char) {rest : List Char} (h : rest.head? ≠ some '"') :
    tokens (inQuotes '"' name ++ rest) = (tokens rest).map (.identifier name :: ·) := by
  have hnext : next (inQuotes '"' name ++ rest) = some (some (.identifier name), rest) := by
    simp [inQuotes, next, quoted_inQuotes name h, isSpace]
  exact tokens_next hnext

theorem tokens_text (value : List Char) {rest : List Char} (h : rest.head? ≠ some '\'') :
    tokens (inQuotes '\'' value ++ rest) = (tokens rest).map (.text value :: ·) := by
  have hnext : next (inQuotes '\'' value ++ rest) = some (some (.text value), rest) := by
    simp [inQuotes, next, quoted_inQuotes value h, isSpace]
  exact tokens_next hnext

/-- A character that is a token wherever it stands. -/
def isSymbol (c : Char) : Bool := c == '(' || c == ')' || c == ',' || c == '='

theorem tokens_symbol {c : Char} (h : isSymbol c = true) (rest : List Char) :
    tokens (c :: rest) = (tokens rest).map (.symbol c :: ·) := by
  have hnext : next (c :: rest) = some (some (.symbol c), rest) := by
    simp only [isSymbol, Bool.or_eq_true, beq_iff_eq] at h
    rcases h with ((rfl | rfl) | rfl) | rfl <;> rfl
  exact tokens_next hnext

end Sql

end Lib

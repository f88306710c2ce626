import Mathlib.Data.List.TakeWhile
import Mathlib.Data.Char
import Mathlib.Tactic.Common

/-!
# JSON as Python's `json` module reads and writes it

A document is read by `loads` and written by `dumps`, the latter with `indent=2` and every
character outside printable ASCII escaped.  Objects are dictionaries: they keep the order in which
their keys first appeared, and a key written twice holds its last value.

The two halves meet in `loads_dumps`: a well-formed document is read back as itself.  What `loads`
returns is well formed (`loads_wf`), so a document can be read and written any number of times.

A number with a fraction or an exponent keeps its literal text.  A text that spells a lone
surrogate is refused, since no `String` denotes it.
-/

namespace Lib

/-- A JSON document; the fields of an object are in dictionary order. -/
inductive Json where
  | null
  | bool (b : Bool)
  | int (n : Int)
  | float (literal : String)
  | str (s : String)
  | arr (elems : List Json)
  | obj (fields : List (String × Json))

namespace Json

mutual

/-- Structural equality of documents is decidable. -/
def decEq : (a b : Json) → Decidable (a = b)
  | .null, .null => .isTrue rfl
  | .bool b, .bool c => decidable_of_iff (b = c) (by simp)
  | .int m, .int n => decidable_of_iff (m = n) (by simp)
  | .float l, .float m => decidable_of_iff (l = m) (by simp)
  | .str s, .str t => decidable_of_iff (s = t) (by simp)
  | .arr xs, .arr ys => @decidable_of_iff _ (xs = ys) (by simp) (decEqElems xs ys)
  | .obj fs, .obj gs => @decidable_of_iff _ (fs = gs) (by simp) (decEqFields fs gs)
  | .null, .bool _ | .null, .int _ | .null, .float _ | .null, .str _ | .null, .arr _
  | .null, .obj _ | .bool _, .null | .bool _, .int _ | .bool _, .float _ | .bool _, .str _
  | .bool _, .arr _ | .bool _, .obj _ | .int _, .null | .int _, .bool _ | .int _, .float _
  | .int _, .str _ | .int _, .arr _ | .int _, .obj _ | .float _, .null | .float _, .bool _
  | .float _, .int _ | .float _, .str _ | .float _, .arr _ | .float _, .obj _ | .str _, .null
  | .str _, .bool _ | .str _, .int _ | .str _, .float _ | .str _, .arr _ | .str _, .obj _
  | .arr _, .null | .arr _, .bool _ | .arr _, .int _ | .arr _, .float _ | .arr _, .str _
  | .arr _, .obj _ | .obj _, .null | .obj _, .bool _ | .obj _, .int _ | .obj _, .float _
  | .obj _, .str _ | .obj _, .arr _ => .isFalse (by nofun)

/-- Equality of the elements of two arrays. -/
def decEqElems : (xs ys : List Json) → Decidable (xs = ys)
  | [], [] => .isTrue rfl
  | [], _ :: _ | _ :: _, [] => .isFalse (by nofun)
  | x :: xs, y :: ys =>
      have := decEq x y
      have := decEqElems xs ys
      decidable_of_iff (x = y ∧ xs = ys) (by simp)

/-- Equality of the fields of two objects. -/
def decEqFields : (fs gs : List (String × Json)) → Decidable (fs = gs)
  | [], [] => .isTrue rfl
  | [], _ :: _ | _ :: _, [] => .isFalse (by nofun)
  | (k, x) :: fs, (l, y) :: gs =>
      have := decEq x y
      have := decEqFields fs gs
      decidable_of_iff (k = l ∧ x = y ∧ fs = gs) (by simp [and_assoc])

end

instance : DecidableEq Json := decEq

/-! ### Dictionaries -/

/-- `d[key] = value`: the last value, at the place of the first. -/
def setField {α : Type} (key : String) (value : α) : List (String × α) → List (String × α)
  | [] => [(key, value)]
  | (k, v) :: rest => if k = key then (k, value) :: rest else (k, v) :: setField key value rest

/-- The dictionary a list of pairs builds. -/
def dictOf {α : Type} (pairs : List (String × α)) : List (String × α) :=
  pairs.foldl (fun dict pair => setField pair.1 pair.2 dict) []

theorem keys_setField {α : Type} (key : String) (value : α) (dict : List (String × α)) :
    (setField key value dict).map Prod.fst =
      if key ∈ dict.map Prod.fst then dict.map Prod.fst else dict.map Prod.fst ++ [key] := by
  induction dict with
  | nil => simp [setField]
  | cons pair rest ih =>
      obtain ⟨k, v⟩ := pair
      by_cases hk : k = key
      · simp [setField, hk]
      · have hk' : key ≠ k := fun h => hk h.symm
        simp only [setField, hk, if_false, List.map_cons, ih, List.mem_cons, hk', false_or]
        split <;> simp

theorem nodup_keys_setField {α : Type} (key : String) (value : α) {dict : List (String × α)}
    (h : (dict.map Prod.fst).Nodup) : ((setField key value dict).map Prod.fst).Nodup := by
  rw [keys_setField]
  split
  · exact h
  · rename_i hnew
    exact List.nodup_append.mpr ⟨h, by simp, by
      intro a ha b hb hab
      simp only [List.mem_singleton] at hb
      exact hnew (hb ▸ hab ▸ ha)⟩

theorem mem_setField {α : Type} {key : String} {value : α} {dict : List (String × α)}
    {pair : String × α} (h : pair ∈ setField key value dict) : pair ∈ dict ∨ pair = (key, value) := by
  induction dict with
  | nil => exact Or.inr (by simpa [setField] using h)
  | cons head rest ih =>
      obtain ⟨k, v⟩ := head
      by_cases hk : k = key
      · simp only [setField, hk, if_true, List.mem_cons] at h
        rcases h with h | h
        · exact Or.inr h
        · exact Or.inl (List.mem_cons_of_mem _ h)
      · simp only [setField, hk, if_false, List.mem_cons] at h
        rcases h with h | h
        · exact Or.inl (h ▸ List.mem_cons_self)
        · exact (ih h).imp (List.mem_cons_of_mem _) id

/-- A key that is new is added at the end. -/
theorem setField_of_notMem {α : Type} {key : String} (value : α) {dict : List (String × α)}
    (h : key ∉ dict.map Prod.fst) : setField key value dict = dict ++ [(key, value)] := by
  induction dict with
  | nil => rfl
  | cons head rest ih =>
      obtain ⟨k, v⟩ := head
      simp only [List.map_cons, List.mem_cons, not_or] at h
      have hk : ¬ k = key := fun hk => h.1 hk.symm
      simp [setField, hk, ih h.2]

theorem foldl_setField_of_nodup {α : Type} {pairs : List (String × α)} (dict : List (String × α))
    (h : ((dict ++ pairs).map Prod.fst).Nodup) :
    pairs.foldl (fun dict pair => setField pair.1 pair.2 dict) dict = dict ++ pairs := by
  induction pairs generalizing dict with
  | nil => simp
  | cons head rest ih =>
      obtain ⟨k, v⟩ := head
      have hnew : k ∉ dict.map Prod.fst := by
        intro hmem
        rw [List.map_append, List.nodup_append] at h
        exact h.2.2 k hmem k (by simp) rfl
      rw [List.foldl_cons, setField_of_notMem v hnew, ih _ (by simpa using h)]
      simp

/-- Pairs with distinct keys are their own dictionary. -/
theorem dictOf_of_nodup {α : Type} {pairs : List (String × α)}
    (h : (pairs.map Prod.fst).Nodup) : dictOf pairs = pairs := by
  simpa [dictOf] using foldl_setField_of_nodup [] h

theorem foldl_setField_spec {α : Type} (pairs dict : List (String × α))
    (hdict : (dict.map Prod.fst).Nodup) :
    ((pairs.foldl (fun dict pair => setField pair.1 pair.2 dict) dict).map Prod.fst).Nodup ∧
      ∀ pair ∈ pairs.foldl (fun dict pair => setField pair.1 pair.2 dict) dict,
        pair ∈ dict ∨ pair ∈ pairs := by
  induction pairs generalizing dict with
  | nil => exact ⟨hdict, fun pair h => Or.inl h⟩
  | cons head rest ih =>
      obtain ⟨hnodup, hmem⟩ := ih _ (nodup_keys_setField head.1 head.2 hdict)
      refine ⟨hnodup, fun pair h => ?_⟩
      rcases hmem pair h with h | h
      · rcases mem_setField h with h | h
        · exact Or.inl h
        · exact Or.inr (by simp [h])
      · exact Or.inr (List.mem_cons_of_mem _ h)

theorem nodup_keys_dictOf {α : Type} (pairs : List (String × α)) :
    ((dictOf pairs).map Prod.fst).Nodup :=
  (foldl_setField_spec pairs [] (by simp)).1

theorem mem_of_mem_dictOf {α : Type} {pairs : List (String × α)} {pair : String × α}
    (h : pair ∈ dictOf pairs) : pair ∈ pairs := by
  simpa using (foldl_setField_spec pairs [] (by simp)).2 pair h

/-! ### Well-formed documents -/

/-- What is left of a literal after its whole part. -/
def wholePart : List Char → Option (List Char)
  | '-' :: '0' :: rest => some rest
  | '-' :: c :: rest => if c.isDigit then some (rest.dropWhile Char.isDigit) else none
  | '0' :: rest => some rest
  | c :: rest => if c.isDigit then some (rest.dropWhile Char.isDigit) else none
  | [] => none

/-- What is left after a fraction, if there is one. -/
def fractionPart : List Char → List Char
  | '.' :: c :: rest => if c.isDigit then rest.dropWhile Char.isDigit else '.' :: c :: rest
  | rest => rest

/-- What is left after the digits of an exponent, which are required. -/
def exponentDigits : List Char → Option (List Char)
  | c :: rest => if c.isDigit then some (rest.dropWhile Char.isDigit) else none
  | [] => none

/-- What is left after an exponent, if there is one. -/
def exponentPart : List Char → Option (List Char)
  | 'e' :: '-' :: rest | 'e' :: '+' :: rest | 'E' :: '-' :: rest | 'E' :: '+' :: rest =>
      exponentDigits rest
  | 'e' :: rest | 'E' :: rest => exponentDigits rest
  | rest => some rest

/-- The characters a number is made of. -/
def isNumberChar (c : Char) : Bool :=
  c.isDigit || c == '-' || c == '+' || c == '.' || c == 'e' || c == 'E'

/-- An integer literal. -/
def isInteger (literal : List Char) : Bool :=
  wholePart literal == some []

/-- A literal with a fraction or an exponent. -/
def isFloat (literal : List Char) : Bool :=
  !isInteger literal && literal.all isNumberChar &&
    ((wholePart literal).bind fun rest => exponentPart (fractionPart rest)) == some []

/-- The constants Python writes for the floats JSON has no literal for. -/
def isConstant (literal : String) : Bool :=
  literal == "NaN" || literal == "Infinity" || literal == "-Infinity"

mutual

/-- A document Python can hold: the keys of an object are distinct, and a float's text is one. -/
def WF : Json → Prop
  | .float literal => isFloat literal.toList = true ∨ isConstant literal = true
  | .arr elems => WFElems elems
  | .obj fields => (fields.map Prod.fst).Nodup ∧ WFFields fields
  | .null | .bool _ | .int _ | .str _ => True

/-- Every element is well formed. -/
def WFElems : List Json → Prop
  | [] => True
  | x :: xs => WF x ∧ WFElems xs

/-- Every field's value is well formed. -/
def WFFields : List (String × Json) → Prop
  | [] => True
  | (_, x) :: fields => WF x ∧ WFFields fields

end

@[simp] theorem wf_null : Json.null.WF := trivial
@[simp] theorem wf_bool (b : Bool) : (Json.bool b).WF := trivial
@[simp] theorem wf_int (n : Int) : (Json.int n).WF := trivial
@[simp] theorem wf_str (s : String) : (Json.str s).WF := trivial

theorem wf_constant (literal : String) (h : isConstant literal = true) :
    (Json.float literal).WF := Or.inr h

theorem wfElems_iff {elems : List Json} : WFElems elems ↔ ∀ x ∈ elems, x.WF := by
  induction elems with
  | nil => simp [WFElems]
  | cons x xs ih => simp [WFElems, ih]

theorem wfFields_iff {fields : List (String × Json)} :
    WFFields fields ↔ ∀ field ∈ fields, field.2.WF := by
  induction fields with
  | nil => simp [WFFields]
  | cons field fields ih => simp [WFFields, ih]

@[simp] theorem wf_arr {elems : List Json} : (Json.arr elems).WF ↔ ∀ x ∈ elems, x.WF := by
  rw [WF, wfElems_iff]

@[simp] theorem wf_obj {fields : List (String × Json)} :
    (Json.obj fields).WF ↔
      (fields.map Prod.fst).Nodup ∧ ∀ field ∈ fields, field.2.WF := by
  rw [WF, wfFields_iff]

/-! ### Writing -/

/-- A hexadecimal digit as `%x` writes it. -/
def hexDigit (n : Nat) : Char :=
  if n < 10 then Char.ofNat (48 + n) else Char.ofNat (87 + n)

/-- A code unit as `\uXXXX`. -/
def unicodeEscape (n : Nat) : List Char :=
  ['\\', 'u', hexDigit (n / 4096 % 16), hexDigit (n / 256 % 16), hexDigit (n / 16 % 16),
    hexDigit (n % 16)]

/-- One character of a string, with `ensure_ascii` set. -/
def escapeChar (c : Char) : List Char :=
  if c = '"' then ['\\', '"']
  else if c = '\\' then ['\\', '\\']
  else if c = '\n' then ['\\', 'n']
  else if c = '\r' then ['\\', 'r']
  else if c = '\t' then ['\\', 't']
  else if c = '\x0c' then ['\\', 'f']
  else if c = '\x08' then ['\\', 'b']
  else if 32 ≤ c.toNat ∧ c.toNat ≤ 126 then [c]
  else if c.toNat < 0x10000 then unicodeEscape c.toNat
  else
    unicodeEscape (0xD800 + (c.toNat - 0x10000) / 1024) ++
      unicodeEscape (0xDC00 + (c.toNat - 0x10000) % 1024)

/-- The inside of a quoted string. -/
def escapeChars (s : List Char) : List Char :=
  s.flatMap escapeChar

/-- A quoted string. -/
def dumpString (s : String) : List Char :=
  '"' :: (escapeChars s.toList ++ ['"'])

/-- An integer in decimal. -/
def dumpInt (n : Int) : List Char :=
  if n < 0 then '-' :: Nat.toDigits 10 n.natAbs else Nat.toDigits 10 n.natAbs

/-- The line break before an item at the given level of indentation. -/
def newline (level : Nat) : List Char :=
  '\n' :: List.replicate (2 * level) ' '

mutual

/-- A document written at the given level of indentation. -/
def dumpAt (level : Nat) : Json → List Char
  | .null => "null".toList
  | .bool true => "true".toList
  | .bool false => "false".toList
  | .int n => dumpInt n
  | .float literal => literal.toList
  | .str s => dumpString s
  | .arr [] => "[]".toList
  | .arr (x :: xs) =>
      '[' :: (newline (level + 1) ++ dumpAt (level + 1) x ++ dumpElems (level + 1) xs ++
        newline level ++ [']'])
  | .obj [] => "{}".toList
  | .obj ((k, x) :: fields) =>
      '\x7b' :: (newline (level + 1) ++ dumpString k ++ ": ".toList ++ dumpAt (level + 1) x ++
        dumpFields (level + 1) fields ++ newline level ++ ['\x7d'])

/-- The elements after the first, each behind its comma. -/
def dumpElems (level : Nat) : List Json → List Char
  | [] => []
  | x :: xs => ',' :: (newline level ++ dumpAt level x ++ dumpElems level xs)

/-- The fields after the first, each behind its comma. -/
def dumpFields (level : Nat) : List (String × Json) → List Char
  | [] => []
  | (k, x) :: fields =>
      ',' :: (newline level ++ dumpString k ++ ": ".toList ++ dumpAt level x ++
        dumpFields level fields)

end

/-- `json.dumps(document, indent=2)`. -/
def dumps (document : Json) : String :=
  String.ofList (dumpAt 0 document)

/-! ### Reading -/

/-- What JSON counts as white space. -/
def isSpace (c : Char) : Bool :=
  c == ' ' || c == '\t' || c == '\n' || c == '\r'

/-- The text after any white space. -/
def skipSpace (text : List Char) : List Char :=
  text.dropWhile isSpace

/-- The value of a hexadecimal digit. -/
def hexValue (c : Char) : Option Nat :=
  if c.isDigit then some (c.toNat - 48)
  else if 'a'.toNat ≤ c.toNat ∧ c.toNat ≤ 'f'.toNat then some (c.toNat - 87)
  else if 'A'.toNat ≤ c.toNat ∧ c.toNat ≤ 'F'.toNat then some (c.toNat - 55)
  else none

/-- The code unit four hexadecimal digits spell. -/
def hex4 (a b c d : Char) : Option Nat :=
  (hexValue a).bind fun a => (hexValue b).bind fun b => (hexValue c).bind fun c =>
    (hexValue d).map fun d => ((a * 16 + b) * 16 + c) * 16 + d

/-- The character a one-letter escape stands for. -/
def simpleEscape : Char → Option Char
  | '"' => some '"'
  | '\\' => some '\\'
  | '/' => some '/'
  | 'b' => some '\x08'
  | 'f' => some '\x0c'
  | 'n' => some '\n'
  | 'r' => some '\r'
  | 't' => some '\t'
  | _ => none

/-- Reads a string whose opening quote has been read, up to and past its closing one. -/
def scanString : List Char → Option (List Char × List Char)
  | [] => none
  | '"' :: rest => some ([], rest)
  | '\\' :: 'u' :: a :: b :: c :: d :: rest =>
      match hex4 a b c d with
      | none => none
      | some unit =>
          if 0xD800 ≤ unit ∧ unit < 0xDC00 then
            match rest with
            | '\\' :: 'u' :: a :: b :: c :: d :: rest =>
                match hex4 a b c d with
                | none => none
                | some low =>
                    if 0xDC00 ≤ low ∧ low < 0xE000 then
                      (scanString rest).map fun (s, rest) =>
                        (Char.ofNat (0x10000 + (unit - 0xD800) * 1024 + (low - 0xDC00)) :: s, rest)
                    else none
            | _ => none
          else if 0xDC00 ≤ unit ∧ unit < 0xE000 then none
          else (scanString rest).map fun (s, rest) => (Char.ofNat unit :: s, rest)
  | ['\\'] => none
  | '\\' :: c :: rest =>
      match simpleEscape c with
      | none => none
      | some c => (scanString rest).map fun (s, rest) => (c :: s, rest)
  | c :: rest => if c.toNat < 32 then none else (scanString rest).map fun (s, rest) => (c :: s, rest)

/-- Reads a number.  Python takes the longest prefix that is one and refuses the document if a
number's character follows; taking every such character first refuses the same documents. -/
def scanNumber (text : List Char) : Option (Json × List Char) :=
  let literal := text.takeWhile isNumberChar
  let rest := text.dropWhile isNumberChar
  if isInteger literal then
    match literal with
    | '-' :: digits => some (.int (-(Nat.ofDigitChars 10 digits 0 : Int)), rest)
    | digits => some (.int (Nat.ofDigitChars 10 digits 0), rest)
  else if isFloat literal then some (.float (String.ofList literal), rest)
  else none

/-- `scanPrefix word text` is the text after `word`, if that is how it begins. -/
def scanPrefix : List Char → List Char → Option (List Char)
  | [], text => some text
  | c :: word, d :: text => if c = d then scanPrefix word text else none
  | _ :: _, [] => none

/-- Reads one of the words JSON and Python know. -/
def scanWord (word : String) (value : Json) (text : List Char) : Option (Json × List Char) :=
  (scanPrefix word.toList text).map fun rest => (value, rest)

mutual

/-- Reads one value; `fuel` bounds how many values and items are read on the way. -/
def scanValue : Nat → List Char → Option (Json × List Char)
  | 0, _ => none
  | fuel + 1, text =>
      match text with
      | '"' :: rest => (scanString rest).map fun (s, rest) => (.str (String.ofList s), rest)
      | '[' :: rest =>
          match skipSpace rest with
          | ']' :: rest => some (.arr [], rest)
          | rest => (scanElems fuel rest).map fun (elems, rest) => (.arr elems, rest)
      | '\x7b' :: rest =>
          match skipSpace rest with
          | '\x7d' :: rest => some (.obj [], rest)
          | rest => (scanFields fuel rest).map fun (fields, rest) => (.obj (dictOf fields), rest)
      | 'n' :: _ => scanWord "null" .null text
      | 't' :: _ => scanWord "true" (.bool true) text
      | 'f' :: _ => scanWord "false" (.bool false) text
      | 'N' :: _ => scanWord "NaN" (.float "NaN") text
      | 'I' :: _ => scanWord "Infinity" (.float "Infinity") text
      | '-' :: 'I' :: _ => scanWord "-Infinity" (.float "-Infinity") text
      | _ => scanNumber text

/-- Reads the elements of an array up to and past its closing bracket. -/
def scanElems : Nat → List Char → Option (List Json × List Char)
  | 0, _ => none
  | fuel + 1, text =>
      match scanValue fuel text with
      | none => none
      | some (x, rest) =>
          match skipSpace rest with
          | ']' :: rest => some ([x], rest)
          | ',' :: rest => (scanElems fuel (skipSpace rest)).map fun (xs, rest) => (x :: xs, rest)
          | _ => none

/-- Reads the fields of an object up to and past its closing brace. -/
def scanFields : Nat → List Char → Option (List (String × Json) × List Char)
  | 0, _ => none
  | fuel + 1, text =>
      match text with
      | '"' :: rest =>
          match scanString rest with
          | none => none
          | some (key, rest) =>
              match skipSpace rest with
              | ':' :: rest =>
                  match scanValue fuel (skipSpace rest) with
                  | none => none
                  | some (x, rest) =>
                      match skipSpace rest with
                      | '\x7d' :: rest => some ([(String.ofList key, x)], rest)
                      | ',' :: rest =>
                          (scanFields fuel (skipSpace rest)).map fun (fields, rest) =>
                            ((String.ofList key, x) :: fields, rest)
                      | _ => none
              | _ => none
      | _ => none

end

/-- `json.loads(text)`: one value, and nothing but white space around it. -/
def loads (text : String) : Option Json :=
  match scanValue (2 * text.length + 1) (skipSpace text.toList) with
  | some (document, rest) => if skipSpace rest = [] then some document else none
  | none => none

/-! ### Strings come back -/

theorem hexValue_hexDigit {n : Nat} (h : n < 16) : hexValue (hexDigit n) = some n := by
  have key : ∀ n : Fin 16, hexValue (hexDigit n) = some n.val := by decide
  exact key ⟨n, h⟩

theorem hex4_digits {n : Nat} (h : n < 0x10000) :
    hex4 (hexDigit (n / 4096 % 16)) (hexDigit (n / 256 % 16)) (hexDigit (n / 16 % 16))
      (hexDigit (n % 16)) = some n := by
  have hlt : ∀ m, m % 16 < 16 := fun m => Nat.mod_lt m (by decide)
  simp only [hex4, hexValue_hexDigit (hlt _), Option.bind_some, Option.map_some, Option.some.injEq]
  omega

/-- A code unit that is no surrogate is read back as its character. -/
theorem scanString_unicodeEscape {n : Nat} (rest : List Char) (h : n < 0xD800 ∨ 0xE000 ≤ n)
    (h' : n < 0x10000) :
    scanString (unicodeEscape n ++ rest) =
      (scanString rest).map fun (s, rest) => (Char.ofNat n :: s, rest) := by
  have hhigh : ¬ (0xD800 ≤ n ∧ n < 0xDC00) := by omega
  have hlow : ¬ (0xDC00 ≤ n ∧ n < 0xE000) := by omega
  simp only [unicodeEscape, List.cons_append, List.nil_append, scanString, hex4_digits h', hhigh,
    hlow, if_false]

/-- A surrogate pair is read back as the character it encodes. -/
theorem scanString_surrogates {high low : Nat} (rest : List Char) (hhigh : high < 1024)
    (hlow : low < 1024) :
    scanString (unicodeEscape (0xD800 + high) ++ (unicodeEscape (0xDC00 + low) ++ rest)) =
      (scanString rest).map fun (s, rest) =>
        (Char.ofNat (0x10000 + high * 1024 + low) :: s, rest) := by
  have h₁ : 0xD800 ≤ 0xD800 + high ∧ 0xD800 + high < 0xDC00 := by omega
  have h₂ : 0xDC00 ≤ 0xDC00 + low ∧ 0xDC00 + low < 0xE000 := by omega
  have hchar : 0x10000 + (0xD800 + high - 0xD800) * 1024 + (0xDC00 + low - 0xDC00) =
      0x10000 + high * 1024 + low := by omega
  simp only [unicodeEscape, List.cons_append, List.nil_append, scanString]
  simp only [hex4_digits (n := 0xD800 + high) (by omega),
    hex4_digits (n := 0xDC00 + low) (by omega), h₁, h₂, and_self, if_true, hchar]

theorem scanString_plain {c : Char} (rest : List Char) (hquote : c ≠ '"') (hslash : c ≠ '\\')
    (h : 32 ≤ c.toNat) :
    scanString (c :: rest) = (scanString rest).map fun (s, rest) => (c :: s, rest) := by
  rw [scanString.eq_def]
  split <;> simp_all <;> omega

/-- Every character is read back from its escape. -/
theorem scanString_escapeChar (c : Char) (rest : List Char) :
    scanString (escapeChar c ++ rest) =
      (scanString rest).map fun (s, rest) => (c :: s, rest) := by
  by_cases hshort : c = '"' ∨ c = '\\' ∨ c = '\n' ∨ c = '\r' ∨ c = '\t' ∨ c = '\x0c' ∨ c = '\x08'
  · rcases hshort with rfl | rfl | rfl | rfl | rfl | rfl | rfl <;> rfl
  · simp only [not_or] at hshort
    obtain ⟨hquote, hslash, hn, hr, ht, hf, hb⟩ := hshort
    simp only [escapeChar, hquote, hslash, hn, hr, ht, hf, hb, if_false]
    have hvalid : c.toNat < 0xD800 ∨ 0xE000 ≤ c.toNat ∧ c.toNat < 0x110000 := by
      have := c.valid
      simp only [UInt32.isValidChar, Nat.isValidChar, Char.toNat_val] at this
      omega
    by_cases hprint : 32 ≤ c.toNat ∧ c.toNat ≤ 126
    · simp only [hprint, and_self, if_true]
      exact scanString_plain rest hquote hslash hprint.1
    · simp only [hprint, if_false]
      by_cases hbmp : c.toNat < 0x10000
      · simp only [hbmp, if_true]
        rw [scanString_unicodeEscape rest (by omega) hbmp, Char.ofNat_toNat]
      · simp only [hbmp, if_false, List.append_assoc]
        have hchar : 0x10000 + (c.toNat - 0x10000) / 1024 * 1024 + (c.toNat - 0x10000) % 1024 =
            c.toNat := by omega
        rw [scanString_surrogates rest (by omega) (by omega), hchar, Char.ofNat_toNat]

theorem scanString_escapeChars (s rest : List Char) :
    scanString (escapeChars s ++ '"' :: rest) = some (s, rest) := by
  induction s with
  | nil => rfl
  | cons c s ih =>
      rw [escapeChars, List.flatMap_cons, List.append_assoc, scanString_escapeChar]
      rw [escapeChars] at ih
      rw [ih]
      rfl

/-! ### Numbers come back -/

/-- No character of a number follows. -/
def Ends (rest : List Char) : Prop :=
  ∀ c ∈ rest.head?, isNumberChar c = false

theorem ends_nil : Ends [] := by simp [Ends]

theorem ends_cons {c : Char} {rest : List Char} (h : isNumberChar c = false) :
    Ends (c :: rest) := by simpa [Ends] using h

theorem dropWhile_of_ends {rest : List Char} (h : Ends rest) :
    rest.dropWhile isNumberChar = rest ∧ rest.takeWhile isNumberChar = [] := by
  cases rest with
  | nil => simp
  | cons c rest => simp [h c (by simp)]

theorem isNumberChar_of_isDigit {c : Char} (h : c.isDigit = true) : isNumberChar c = true := by
  simp [isNumberChar, h]

/-- A literal made of number characters is split off whole. -/
theorem scanNumber_append {literal rest : List Char} (h : ∀ c ∈ literal, isNumberChar c = true)
    (hrest : Ends rest) :
    (literal ++ rest).takeWhile isNumberChar = literal ∧
      (literal ++ rest).dropWhile isNumberChar = rest := by
  obtain ⟨hdrop, htake⟩ := dropWhile_of_ends hrest
  rw [List.takeWhile_append_of_pos h, List.dropWhile_append_of_pos h, hdrop, htake]
  simp

theorem dropWhile_digits {digits : List Char} (h : ∀ c ∈ digits, c.isDigit = true) :
    digits.dropWhile Char.isDigit = [] :=
  List.dropWhile_eq_nil_iff.mpr h

theorem isDigit_toDigits {n : Nat} {c : Char} (h : c ∈ Nat.toDigits 10 n) : c.isDigit = true :=
  Nat.isDigit_of_mem_toDigits (by decide) (by decide) h

theorem digitChar_ne_zero {n : Nat} (h : 0 < n) (h' : n < 10) : Nat.digitChar n ≠ '0' := by
  have key : ∀ n : Fin 10, 0 < n.val → Nat.digitChar n.val ≠ '0' := by decide
  exact key ⟨n, h'⟩ h

/-- A positive number is written without a leading zero. -/
theorem toDigits_head {n : Nat} (h : 0 < n) :
    ∃ c rest, Nat.toDigits 10 n = c :: rest ∧ c ≠ '0' := by
  induction n using Nat.strongRecOn with
  | ind n ih =>
      by_cases hlt : n < 10
      · exact ⟨_, [], Nat.toDigits_of_lt_base hlt, digitChar_ne_zero h hlt⟩
      · obtain ⟨c, rest, hdigits, hc⟩ := ih (n / 10) (by omega) (by omega)
        exact ⟨c, rest ++ [Nat.digitChar (n % 10)],
          by rw [Nat.toDigits_of_base_le (by decide) (by omega), hdigits]; rfl, hc⟩

/-- The decimal form of a natural number is a digit and then digits, and only zero begins
with `0`. -/
theorem toDigits_shape (n : Nat) :
    Nat.toDigits 10 n = ['0'] ∨ ∃ c rest, Nat.toDigits 10 n = c :: rest ∧ c ≠ '0' ∧
      c.isDigit = true ∧ ∀ d ∈ rest, d.isDigit = true := by
  rcases Nat.eq_zero_or_pos n with rfl | h
  · exact Or.inl (Nat.toDigits_zero 10)
  · obtain ⟨c, rest, hdigits, hc⟩ := toDigits_head h
    have hall : ∀ d ∈ c :: rest, d.isDigit = true := fun d hd => isDigit_toDigits (hdigits ▸ hd)
    exact Or.inr ⟨c, rest, hdigits, hc, hall c (by simp), fun d hd => hall d (by simp [hd])⟩

theorem wholePart_digits {c : Char} {rest : List Char} (hzero : c ≠ '0') (hc : c.isDigit = true) :
    wholePart (c :: rest) = some (rest.dropWhile Char.isDigit) := by
  have hminus : c ≠ '-' := by rintro rfl; simp at hc
  rw [wholePart.eq_def]
  split <;> simp_all

theorem wholePart_minus {c : Char} {rest : List Char} (hzero : c ≠ '0') (hc : c.isDigit = true) :
    wholePart ('-' :: c :: rest) = some (rest.dropWhile Char.isDigit) := by
  rw [wholePart]
  · simp [hc]
  · simpa using hzero

theorem isInteger_toDigits (n : Nat) :
    isInteger (Nat.toDigits 10 n) = true ∧ isInteger ('-' :: Nat.toDigits 10 n) = true := by
  rcases toDigits_shape n with h | ⟨c, rest, h, hzero, hc, hrest⟩
  · rw [h]
    decide
  · rw [h, isInteger, isInteger, wholePart_digits hzero hc, wholePart_minus hzero hc,
      dropWhile_digits hrest]
    decide

theorem toDigits_head_ne_minus (n : Nat) (rest : List Char) :
    Nat.toDigits 10 n ≠ '-' :: rest := by
  intro h
  have : '-'.isDigit = true := isDigit_toDigits (n := n) (by simp [h])
  simp at this

theorem dumpInt_chars {n : Int} {c : Char} (h : c ∈ dumpInt n) : isNumberChar c = true := by
  unfold dumpInt at h
  split at h
  · rcases List.mem_cons.mp h with rfl | h
    · decide
    · exact isNumberChar_of_isDigit (isDigit_toDigits h)
  · exact isNumberChar_of_isDigit (isDigit_toDigits h)

/-- An integer is read back. -/
theorem scanNumber_dumpInt (n : Int) {rest : List Char} (hrest : Ends rest) :
    scanNumber (dumpInt n ++ rest) = some (.int n, rest) := by
  obtain ⟨htake, hdrop⟩ := scanNumber_append (fun _ => dumpInt_chars (n := n)) hrest
  obtain ⟨hpos, hneg⟩ := isInteger_toDigits n.natAbs
  simp only [scanNumber, htake, hdrop]
  by_cases hlt : n < 0
  · have habs : -(n.natAbs : Int) = n := by omega
    simp only [dumpInt, hlt, if_true, hneg, Nat.ofDigitChars_ten_toDigits, habs]
  · have habs : (n.natAbs : Int) = n := by omega
    simp only [dumpInt, hlt, if_false, hpos, if_true]
    split
    · rename_i digits h
      exact absurd h (toDigits_head_ne_minus _ _)
    · rw [Nat.ofDigitChars_ten_toDigits, habs]

/-- A float is read back by its text. -/
theorem scanNumber_float {literal : String} {rest : List Char}
    (h : isFloat literal.toList = true) (hrest : Ends rest) :
    scanNumber (literal.toList ++ rest) = some (.float literal, rest) := by
  have h' := h
  simp only [isFloat, Bool.and_eq_true, Bool.not_eq_true', List.all_eq_true] at h'
  obtain ⟨⟨hint, hall⟩, -⟩ := h'
  obtain ⟨htake, hdrop⟩ := scanNumber_append hall hrest
  simp [scanNumber, htake, hdrop, hint, h]

/-- How the text of a number begins. -/
def StartsNumber : List Char → Prop
  | '-' :: c :: _ => c.isDigit = true
  | c :: _ => c.isDigit = true
  | [] => False

theorem startsNumber_append {text : List Char} (rest : List Char) (h : StartsNumber text) :
    StartsNumber (text ++ rest) := by
  unfold StartsNumber at h ⊢
  split at h
  · simpa using h
  · rename_i c text hc
    have hminus : c ≠ '-' := by rintro rfl; simp at h
    rw [List.cons_append]
    split <;> simp_all
  · exact h.elim

theorem startsNumber_of_wholePart {literal left : List Char} (h : wholePart literal = some left) :
    StartsNumber literal := by
  unfold wholePart at h
  split at h
  · simp [StartsNumber]
  · rename_i c rest _
    simp only [StartsNumber]
    by_contra hc
    simp [hc] at h
  · simp [StartsNumber]
  · rename_i c rest _ _ _
    have hc : c.isDigit = true := by
      by_contra hc
      simp [hc] at h
    unfold StartsNumber
    split <;> simp_all
  · cases h

theorem startsNumber_of_isInteger {literal : List Char} (h : isInteger literal = true) :
    StartsNumber literal :=
  startsNumber_of_wholePart (by simpa [isInteger] using h)

theorem startsNumber_of_isFloat {literal : List Char} (h : isFloat literal = true) :
    StartsNumber literal := by
  simp only [isFloat, Bool.and_eq_true, beq_iff_eq, Option.bind_eq_some_iff] at h
  obtain ⟨-, left, hleft, -⟩ := h
  exact startsNumber_of_wholePart hleft

theorem startsNumber_dumpInt (n : Int) : StartsNumber (dumpInt n) := by
  obtain ⟨hpos, hneg⟩ := isInteger_toDigits n.natAbs
  unfold dumpInt
  split
  · exact startsNumber_of_isInteger hneg
  · exact startsNumber_of_isInteger hpos

/-- A text that begins like a number is read as one. -/
theorem scanValue_number (fuel : Nat) {text : List Char} (h : StartsNumber text) :
    scanValue (fuel + 1) text = scanNumber text := by
  unfold scanValue
  split
  all_goals simp_all [StartsNumber]

/-! ### Documents come back -/

/-- How a written value begins: neither white space nor a closing bracket. -/
def StartsValue (text : List Char) : Prop :=
  ∃ c rest, text = c :: rest ∧ isSpace c = false ∧ c ≠ ']'

theorem startsValue_of_startsNumber {text : List Char} (h : StartsNumber text) :
    StartsValue text := by
  unfold StartsNumber at h
  split at h
  · exact ⟨'-', _, rfl, by decide, by decide⟩
  · rename_i c rest _
    refine ⟨c, rest, rfl, ?_, ?_⟩
    · by_contra hspace
      simp only [isSpace, Bool.not_eq_false, Bool.or_eq_true, beq_iff_eq] at hspace
      rcases hspace with ((rfl | rfl) | rfl) | rfl <;> simp at h
    · rintro rfl
      simp at h
  · exact h.elim

theorem startsValue_append {text : List Char} (rest : List Char) (h : StartsValue text) :
    StartsValue (text ++ rest) := by
  obtain ⟨c, text, rfl, h⟩ := h
  exact ⟨c, text ++ rest, rfl, h⟩

theorem startsValue_constant {literal : String} (h : isConstant literal = true) :
    StartsValue literal.toList := by
  simp only [isConstant, Bool.or_eq_true, beq_iff_eq] at h
  rcases h with (rfl | rfl) | rfl
  · exact ⟨'N', "aN".toList, rfl, by decide, by decide⟩
  · exact ⟨'I', "nfinity".toList, rfl, by decide, by decide⟩
  · exact ⟨'-', "Infinity".toList, rfl, by decide, by decide⟩

theorem startsValue_dumpAt (level : Nat) {document : Json} (h : document.WF) :
    StartsValue (dumpAt level document) := by
  cases document with
  | null => exact ⟨'n', "ull".toList, rfl, by decide, by decide⟩
  | bool b =>
      cases b with
      | true => exact ⟨'t', "rue".toList, rfl, by decide, by decide⟩
      | false => exact ⟨'f', "alse".toList, rfl, by decide, by decide⟩
  | int n => exact startsValue_of_startsNumber (startsNumber_dumpInt n)
  | float literal =>
      rcases h with h | h
      · exact startsValue_of_startsNumber (startsNumber_of_isFloat h)
      · exact startsValue_constant h
  | str s => exact ⟨'"', _, rfl, by decide, by decide⟩
  | arr elems =>
      cases elems with
      | nil => exact ⟨'[', [']'], rfl, by decide, by decide⟩
      | cons x xs => exact ⟨'[', _, rfl, by decide, by decide⟩
  | obj fields =>
      cases fields with
      | nil => exact ⟨'\x7b', ['\x7d'], rfl, by decide, by decide⟩
      | cons field fields => exact ⟨'\x7b', _, rfl, by decide, by decide⟩

theorem skipSpace_of_startsValue {text : List Char} (h : StartsValue text) :
    skipSpace text = text := by
  obtain ⟨c, rest, rfl, hspace, -⟩ := h
  simp [skipSpace, hspace]

@[simp] theorem skipSpace_newline (level : Nat) (rest : List Char) :
    skipSpace (newline level ++ rest) = skipSpace rest := by
  have hspaces : ∀ c ∈ newline level, isSpace c = true := by
    intro c hc
    rcases List.mem_cons.mp hc with rfl | hc
    · decide
    · rw [List.eq_of_mem_replicate hc]
      decide
  rw [skipSpace, List.dropWhile_append_of_pos hspaces, skipSpace]

theorem ends_newline (level : Nat) (rest : List Char) : Ends (newline level ++ rest) :=
  ends_cons (by decide)

/-- What follows an element: a comma and the next ones, or the closing line. -/
theorem ends_dumpElems (level : Nat) (elems : List Json) (below : Nat) (rest : List Char) :
    Ends (dumpElems level elems ++ (newline below ++ rest)) := by
  cases elems with
  | nil => exact ends_newline below rest
  | cons x xs => exact ends_cons (by decide)

theorem ends_dumpFields (level : Nat) (fields : List (String × Json)) (below : Nat)
    (rest : List Char) : Ends (dumpFields level fields ++ (newline below ++ rest)) := by
  cases fields with
  | nil => exact ends_newline below rest
  | cons field fields => exact ends_cons (by decide)

theorem scanValue_constant (fuel : Nat) {literal : String} (rest : List Char)
    (h : isConstant literal = true) :
    scanValue (fuel + 1) (literal.toList ++ rest) = some (.float literal, rest) := by
  simp only [isConstant, Bool.or_eq_true, beq_iff_eq] at h
  rcases h with (rfl | rfl) | rfl <;> rfl

/-- An array that does not close at once is read element by element. -/
theorem scanValue_arr (fuel level : Nat) {text : List Char} (h : StartsValue text) :
    scanValue (fuel + 1) ('[' :: (newline level ++ text)) =
      (scanElems fuel text).map fun (elems, rest) => (.arr elems, rest) := by
  have htext := skipSpace_of_startsValue h
  obtain ⟨c, rest, rfl, -, hc⟩ := h
  simp only [scanValue, skipSpace_newline, htext]
  split
  · simp_all
  · rfl

/-- An object that does not close at once is read field by field. -/
theorem scanValue_obj (fuel level : Nat) (text : List Char) :
    scanValue (fuel + 1) ('\x7b' :: (newline level ++ '"' :: text)) =
      (scanFields fuel ('"' :: text)).map fun (fields, rest) => (.obj (dictOf fields), rest) := by
  have hquote : skipSpace ('"' :: text) = '"' :: text := rfl
  simp only [scanValue, skipSpace_newline, hquote]
  rfl

mutual

/-- A written value is read back, whatever follows it. -/
theorem scanValue_dumpAt (document : Json) (h : document.WF) (level fuel : Nat)
    (rest : List Char) (hfuel : 2 * (dumpAt level document).length ≤ fuel) (hrest : Ends rest) :
    scanValue fuel (dumpAt level document ++ rest) = some (document, rest) := by
  obtain ⟨fuel, rfl⟩ : ∃ n, fuel = n + 1 := by
    obtain ⟨c, text, htext, -⟩ := startsValue_dumpAt level h
    rw [htext, List.length_cons] at hfuel
    exact ⟨fuel - 1, by omega⟩
  match document with
  | .null => rfl
  | .bool true => rfl
  | .bool false => rfl
  | .int n =>
      rw [dumpAt, scanValue_number fuel (startsNumber_append rest (startsNumber_dumpInt n)),
        scanNumber_dumpInt n hrest]
  | .float literal =>
      rcases h with h | h
      · rw [dumpAt, scanValue_number fuel (startsNumber_append rest (startsNumber_of_isFloat h)),
          scanNumber_float h hrest]
      · exact scanValue_constant fuel rest h
  | .str s =>
      simp only [dumpAt, dumpString, List.cons_append, List.append_assoc, List.nil_append,
        scanValue, scanString_escapeChars, Option.map_some, String.ofList_toList]
  | .arr [] => rfl
  | .arr (x :: xs) =>
      simp only [wf_arr, List.forall_mem_cons] at h
      have hlength : 2 * ((dumpAt (level + 1) x).length + (dumpElems (level + 1) xs).length) + 1
          ≤ fuel := by
        simp only [dumpAt, List.length_cons, List.length_append] at hfuel
        omega
      simp only [dumpAt, List.cons_append, List.append_assoc, List.nil_append]
      rw [scanValue_arr fuel _ (startsValue_append _ (startsValue_dumpAt _ h.1)),
        scanElems_dumpElems x xs h.1 h.2 _ _ _ _ hlength]
      rfl
  | .obj [] => rfl
  | .obj ((k, x) :: fields) =>
      simp only [wf_obj, List.forall_mem_cons] at h
      have hlength : 2 * ((dumpAt (level + 1) x).length + (dumpFields (level + 1) fields).length) + 1
          ≤ fuel := by
        simp only [dumpAt, List.length_cons, List.length_append] at hfuel
        omega
      have hfields := scanFields_dumpFields k x fields h.2.1 h.2.2 _ level _ rest hlength
      simp only [dumpAt, dumpString, List.cons_append, List.append_assoc, List.nil_append]
        at hfields ⊢
      rw [scanValue_obj, hfields]
      show some (obj (dictOf ((k, x) :: fields)), rest) = _
      rw [dictOf_of_nodup h.1]
termination_by fuel

/-- The elements of a written array are read back up to its closing bracket. -/
theorem scanElems_dumpElems (x : Json) (xs : List Json) (hx : x.WF) (hxs : ∀ x ∈ xs, x.WF)
    (level below fuel : Nat) (rest : List Char)
    (hfuel : 2 * ((dumpAt level x).length + (dumpElems level xs).length) + 1 ≤ fuel) :
    scanElems fuel (dumpAt level x ++ (dumpElems level xs ++ (newline below ++ ']' :: rest))) =
      some (x :: xs, rest) := by
  obtain ⟨fuel, rfl⟩ : ∃ n, fuel = n + 1 := ⟨fuel - 1, by omega⟩
  have hvalue := scanValue_dumpAt x hx level fuel
    (dumpElems level xs ++ (newline below ++ ']' :: rest)) (by omega)
    (ends_dumpElems level xs below _)
  simp only [scanElems, hvalue]
  match xs with
  | [] =>
      have hclose : skipSpace (']' :: rest) = ']' :: rest := rfl
      simp only [dumpElems, List.nil_append, skipSpace_newline, hclose]
  | y :: ys =>
      rw [List.forall_mem_cons] at hxs
      have hcomma : ∀ text, skipSpace (',' :: text) = ',' :: text := fun _ => rfl
      have hstarts := startsValue_append (dumpElems level ys ++ (newline below ++ ']' :: rest))
        (startsValue_dumpAt level hxs.1)
      have hlength : 2 * ((dumpAt level y).length + (dumpElems level ys).length) + 1 ≤ fuel := by
        simp only [dumpElems, List.length_cons, List.length_append] at hfuel
        omega
      simp only [dumpElems, List.cons_append, List.append_assoc, hcomma, skipSpace_newline,
        skipSpace_of_startsValue hstarts,
        scanElems_dumpElems y ys hxs.1 hxs.2 level below fuel rest hlength, Option.map_some]
termination_by fuel

/-- The fields of a written object are read back up to its closing brace. -/
theorem scanFields_dumpFields (k : String) (x : Json) (fields : List (String × Json)) (hx : x.WF)
    (hfields : ∀ field ∈ fields, field.2.WF) (level below fuel : Nat) (rest : List Char)
    (hfuel : 2 * ((dumpAt level x).length + (dumpFields level fields).length) + 1 ≤ fuel) :
    scanFields fuel (dumpString k ++ (": ".toList ++ (dumpAt level x ++
      (dumpFields level fields ++ (newline below ++ '\x7d' :: rest))))) =
      some ((k, x) :: fields, rest) := by
  obtain ⟨fuel, rfl⟩ : ∃ n, fuel = n + 1 := ⟨fuel - 1, by omega⟩
  have hvalue := scanValue_dumpAt x hx level fuel
    (dumpFields level fields ++ (newline below ++ '\x7d' :: rest)) (by omega)
    (ends_dumpFields level fields below _)
  have hcolon : ∀ text, skipSpace (':' :: text) = ':' :: text := fun _ => rfl
  have hspace : ∀ text, skipSpace (' ' :: text) = skipSpace text := fun _ => rfl
  have hsep : ": ".toList = [':', ' '] := rfl
  have hstarts := startsValue_append
    (dumpFields level fields ++ (newline below ++ '\x7d' :: rest)) (startsValue_dumpAt level hx)
  simp only [scanFields, dumpString, List.cons_append, List.append_assoc, List.nil_append,
    scanString_escapeChars, hsep, hcolon, hspace, skipSpace_of_startsValue hstarts, hvalue,
    String.ofList_toList]
  match fields with
  | [] =>
      have hclose : skipSpace ('\x7d' :: rest) = '\x7d' :: rest := rfl
      simp only [dumpFields, List.nil_append, skipSpace_newline, hclose]
  | (l, y) :: fields =>
      rw [List.forall_mem_cons] at hfields
      have hcomma : ∀ text, skipSpace (',' :: text) = ',' :: text := fun _ => rfl
      have hquote : ∀ text, skipSpace ('"' :: text) = '"' :: text := fun _ => rfl
      have hlength : 2 * ((dumpAt level y).length + (dumpFields level fields).length) + 1
          ≤ fuel := by
        simp only [dumpFields, List.length_cons, List.length_append] at hfuel
        omega
      have hrest := scanFields_dumpFields l y fields hfields.1 hfields.2 level below fuel rest
        hlength
      simp only [dumpString, List.cons_append, List.append_assoc, List.nil_append, hsep] at hrest
      simp only [dumpFields, dumpString, List.cons_append, List.append_assoc, List.nil_append,
        hcomma, skipSpace_newline, hquote, hsep, hrest, Option.map_some]
termination_by fuel

end

/-- A well-formed document is read back as itself, also with white space after it. -/
theorem loads_dumps_append {document : Json} (h : document.WF) (space : String)
    (hspace : ∀ c ∈ space.toList, isSpace c = true) :
    loads (dumps document ++ space) = some document := by
  have hskip : skipSpace space.toList = [] := List.dropWhile_eq_nil_iff.mpr hspace
  have hends : Ends space.toList := by
    intro c hc
    have : isSpace c = true := hspace c (List.mem_of_mem_head? hc)
    simp only [isSpace, Bool.or_eq_true, beq_iff_eq] at this
    rcases this with ((rfl | rfl) | rfl) | rfl <;> decide
  have hlength : 2 * (dumpAt 0 document).length ≤ 2 * (dumps document ++ space).length + 1 := by
    rw [dumps, String.length_append, String.length_ofList]
    omega
  rw [loads, dumps, String.toList_append, String.toList_ofList,
    skipSpace_of_startsValue (startsValue_append _ (startsValue_dumpAt 0 h)), ← dumps,
    scanValue_dumpAt document h 0 _ _ hlength hends]
  simp [hskip]

/-- A well-formed document is read back as itself. -/
theorem loads_dumps {document : Json} (h : document.WF) : loads (dumps document) = some document := by
  simpa using loads_dumps_append h "" (by simp)

/-! ### What is read is well formed -/

theorem wf_scanNumber {text rest : List Char} {document : Json}
    (h : scanNumber text = some (document, rest)) : document.WF := by
  simp only [scanNumber] at h
  split at h
  · split at h <;> (cases h; exact wf_int _)
  · split at h
    · rename_i hfloat
      cases h
      exact Or.inl (by rwa [String.toList_ofList])
    · cases h

theorem wf_scanWord {word : String} {value document : Json} {text rest : List Char}
    (hvalue : value.WF) (h : scanWord word value text = some (document, rest)) : document.WF := by
  simp only [scanWord, Option.map_eq_some_iff] at h
  obtain ⟨_, -, h⟩ := h
  cases h
  exact hvalue

mutual

theorem wf_scanValue (fuel : Nat) {text rest : List Char} {document : Json}
    (h : scanValue fuel text = some (document, rest)) : document.WF := by
  cases fuel with
  | zero => cases h
  | succ fuel =>
      unfold scanValue at h
      split at h
      · simp only [Option.map_eq_some_iff] at h
        obtain ⟨_, -, h⟩ := h
        cases h
        exact wf_str _
      · split at h
        · cases h
          exact wf_arr.mpr (by simp)
        · simp only [Option.map_eq_some_iff] at h
          obtain ⟨⟨elems, _⟩, hscan, h⟩ := h
          cases h
          exact wf_arr.mpr (wf_scanElems fuel hscan)
      · split at h
        · cases h
          exact wf_obj.mpr (by simp)
        · simp only [Option.map_eq_some_iff] at h
          obtain ⟨⟨fields, _⟩, hscan, h⟩ := h
          cases h
          exact wf_obj.mpr ⟨nodup_keys_dictOf fields,
            fun field hfield => wf_scanFields fuel hscan field (mem_of_mem_dictOf hfield)⟩
      · exact wf_scanWord wf_null h
      · exact wf_scanWord (wf_bool _) h
      · exact wf_scanWord (wf_bool _) h
      · exact wf_scanWord (wf_constant "NaN" rfl) h
      · exact wf_scanWord (wf_constant "Infinity" rfl) h
      · exact wf_scanWord (wf_constant "-Infinity" rfl) h
      · exact wf_scanNumber h

theorem wf_scanElems (fuel : Nat) {text rest : List Char} {elems : List Json}
    (h : scanElems fuel text = some (elems, rest)) : ∀ x ∈ elems, x.WF := by
  cases fuel with
  | zero => cases h
  | succ fuel =>
      unfold scanElems at h
      split at h
      · cases h
      · rename_i x _ hx
        split at h
        · cases h
          simpa using wf_scanValue fuel hx
        · simp only [Option.map_eq_some_iff] at h
          obtain ⟨⟨xs, _⟩, hxs, h⟩ := h
          cases h
          exact List.forall_mem_cons.mpr ⟨wf_scanValue fuel hx, wf_scanElems fuel hxs⟩
        · cases h

theorem wf_scanFields (fuel : Nat) {text rest : List Char} {fields : List (String × Json)}
    (h : scanFields fuel text = some (fields, rest)) : ∀ field ∈ fields, field.2.WF := by
  cases fuel with
  | zero => cases h
  | succ fuel =>
      unfold scanFields at h
      split at h
      · split at h
        · cases h
        · split at h
          · split at h
            · cases h
            · rename_i x _ hx
              split at h
              · cases h
                simpa using wf_scanValue fuel hx
              · simp only [Option.map_eq_some_iff] at h
                obtain ⟨⟨fields, _⟩, hfields, h⟩ := h
                cases h
                exact List.forall_mem_cons.mpr
                  ⟨wf_scanValue fuel hx, wf_scanFields fuel hfields⟩
              · cases h
          · cases h
      · cases h

end

/-- Only well-formed documents are read. -/
theorem loads_wf {text : String} {document : Json} (h : loads text = some document) :
    document.WF := by
  unfold loads at h
  split at h
  · rename_i document' rest hscan
    split at h
    · cases h
      exact wf_scanValue _ hscan
    · cases h
  · cases h

end Json

end Lib

import Apchi.Catalogs.Generator

/-!
# Referring to a Client Certificate from a Catalog

A reference is a token, which works anywhere in a property, or the certificate field of a Catalog
whose connector Apchi knows how to wire.  Tokens are scanned for three times: where references are
listed, where they are checked and where they are expanded.  `pieces` is the scan all three are read
from.
-/

namespace Apchi.Catalogs

open Lib Pipeline

/-! ### Tokens -/

/-- Which of a certificate's two files is meant. -/
inductive Half where
  | cert
  | key
  deriving DecidableEq

/-- The word a token has for it. -/
def Half.word : Half → List Char
  | .cert => "cert".toList
  | .key => "key".toList

/-- What a token refers to. -/
structure Reference where
  half : Half
  name : List Char
  deriving DecidableEq

namespace Reference

/-- The path a token expands to. -/
def path (reference : Reference) : String :=
  match reference.half with
  | .cert => certificatePath (String.ofList reference.name)
  | .key => keyPath (String.ofList reference.name)

/-- The token itself. -/
def token (reference : Reference) : List Char :=
  '$' :: '{' :: (reference.half.word ++ ':' :: (reference.name ++ ['}']))

/-- The names `TOKEN` matches. -/
structure Valid (reference : Reference) : Prop where
  first : reference.name.head?.any isNameStart = true
  safe : ∀ c ∈ reference.name, isNameChar c = true

end Reference

/-- The half a word stands for. -/
def halfOf (word : List Char) : Option Half :=
  if word = "cert".toList then some .cert
  else if word = "key".toList then some .key
  else none

/-- What the token whose `$\x7b` has been read refers to, and the text after it. -/
def referenceAfter (text : List Char) : Option (Reference × List Char) :=
  let word := text.takeWhile fun c => c ≠ ':'
  match text.drop word.length with
  | ':' :: text =>
      let name := text.takeWhile isNameChar
      match text.drop name.length with
      | '}' :: text =>
          if name.head?.any isNameStart then (halfOf word).map fun half => (⟨half, name⟩, text)
          else none
      | _ => none
  | _ => none

/-- `TOKEN` at the head of a text. -/
def referenceAt : List Char → Option (Reference × List Char)
  | '$' :: '{' :: text => referenceAfter text
  | _ => none

theorem halfOf_eq_some {word : List Char} {half : Half} :
    halfOf word = some half ↔ word = half.word := by
  unfold halfOf
  constructor
  · intro h
    split at h
    · next hword =>
      cases h
      exact hword
    · split at h
      · next hword =>
        cases h
        exact hword
      · cases h
  · rintro rfl
    cases half with
    | cert => exact if_pos rfl
    | key => exact (if_neg (by decide)).trans (if_pos rfl)

theorem takeWhile_append_cons {α : Type} {p : α → Bool} {xs ys : List α} {stop : α}
    (hxs : ∀ x ∈ xs, p x = true) (hstop : p stop = false) :
    (xs ++ stop :: ys).takeWhile p = xs := by
  rw [List.takeWhile_append_of_pos hxs, List.takeWhile_cons_of_neg (by rw [hstop]; decide),
    List.append_nil]

theorem takeWhile_append_drop_length {α : Type} (p : α → Bool) (xs : List α) :
    xs.takeWhile p ++ xs.drop (xs.takeWhile p).length = xs :=
  List.prefix_iff_eq_append.mp (List.takeWhile_prefix p)

theorem Half.word_not_colon (half : Half) : ∀ c ∈ half.word, decide (c ≠ ':') = true := by
  cases half with
  | cert => exact List.all_eq_true.mp (by decide)
  | key => exact List.all_eq_true.mp (by decide)

theorem referenceAfter_some {text rest : List Char} {reference : Reference}
    (h : referenceAfter text = some (reference, rest)) :
    reference.Valid ∧ text = reference.half.word ++ ':' :: (reference.name ++ '}' :: rest) := by
  unfold referenceAfter at h
  dsimp only at h
  split at h
  · next after hafter =>
    split at h
    · next last hlast =>
      split at h
      · next hfirst =>
        obtain ⟨half, hhalf, heq⟩ := Option.map_eq_some_iff.mp h
        cases heq
        refine ⟨⟨hfirst, fun c hc => List.mem_takeWhile_imp hc⟩, ?_⟩
        dsimp only
        rw [← halfOf_eq_some.mp hhalf, ← hlast, takeWhile_append_drop_length, ← hafter,
          takeWhile_append_drop_length]
      · cases h
    · cases h
  · cases h

/-- A token is at the head of a text exactly where the text starts with it. -/
theorem referenceAt_eq_some {text rest : List Char} {reference : Reference} :
    referenceAt text = some (reference, rest) ↔
      reference.Valid ∧ text = reference.token ++ rest := by
  constructor
  · intro h
    unfold referenceAt at h
    split at h
    · obtain ⟨hvalid, htext⟩ := referenceAfter_some h
      refine ⟨hvalid, ?_⟩
      rw [htext]
      simp only [Reference.token, List.cons_append, List.append_assoc, List.nil_append]
    · cases h
  · rintro ⟨⟨hfirst, hsafe⟩, rfl⟩
    have hword : (reference.half.word ++ ':' :: (reference.name ++ '}' :: rest)).takeWhile
        (fun c => decide (c ≠ ':')) = reference.half.word :=
      takeWhile_append_cons reference.half.word_not_colon (by decide)
    have hname : (reference.name ++ '}' :: rest).takeWhile isNameChar = reference.name :=
      takeWhile_append_cons hsafe (by decide)
    simp only [Reference.token, List.cons_append, List.append_assoc, List.nil_append, referenceAt,
      referenceAfter, hword, List.drop_left, hname, hfirst, if_true, halfOf_eq_some.mpr rfl,
      Option.map_some]

/-- A text has the shape of a token's: a word, a colon, a name, and a closing brace. -/
def Shaped (text after last : List Char) : Prop :=
  text.drop (text.takeWhile fun c => decide (c ≠ ':')).length = ':' :: after ∧
    after.drop (after.takeWhile isNameChar).length = '}' :: last

theorem token_shaped {text after last : List Char} (h : Shaped text after last) :
    token text = (referencePath (text.takeWhile fun c => decide (c ≠ ':'))
      (after.takeWhile isNameChar)).map fun path => (path, last) := by
  unfold token
  simp only [h.1, h.2]

theorem token_unshaped {text : List Char} (h : ∀ after last, ¬ Shaped text after last) :
    token text = none := by
  unfold token
  dsimp only
  split
  · next after hafter =>
    split
    · next last hlast => exact (h after last ⟨hafter, hlast⟩).elim
    · rfl
  · rfl

theorem referenceAfter_shaped {text after last : List Char} (h : Shaped text after last) :
    referenceAfter text =
      if (after.takeWhile isNameChar).head?.any isNameStart then
        (halfOf (text.takeWhile fun c => decide (c ≠ ':'))).map fun half =>
          (⟨half, after.takeWhile isNameChar⟩, last)
      else none := by
  unfold referenceAfter
  simp only [h.1, h.2]

theorem referenceAfter_unshaped {text : List Char} (h : ∀ after last, ¬ Shaped text after last) :
    referenceAfter text = none := by
  unfold referenceAfter
  dsimp only
  split
  · next after hafter =>
    split
    · next last hlast => exact (h after last ⟨hafter, hlast⟩).elim
    · rfl
  · rfl

/-- What the Secret's rendering reads there is the same token. -/
theorem token_eq (text : List Char) :
    token text = (referenceAfter text).map fun found => (found.1.path, found.2) := by
  by_cases hshape : ∃ after last, Shaped text after last
  · obtain ⟨after, last, hshape⟩ := hshape
    rw [token_shaped hshape, referenceAfter_shaped hshape]
    unfold referencePath halfOf
    cases (after.takeWhile isNameChar).head?.any isNameStart with
    | false => rfl
    | true =>
      rw [Bool.not_true, if_neg Bool.false_ne_true, if_pos rfl]
      split
      · rfl
      · split
        · rfl
        · rfl
  · have hnone : ∀ after last, ¬ Shaped text after last := fun after last h => hshape ⟨after, last, h⟩
    rw [token_unshaped hnone, referenceAfter_unshaped hnone]
    rfl

/-! ### Scanning a text -/

/-- What a scan finds, from left to right. -/
inductive Piece where
  | named (reference : Reference)
  | char (c : Char)
  deriving DecidableEq

/-- What a piece becomes. -/
def Piece.text : Piece → List Char
  | .named reference => reference.path.toList
  | .char c => [c]

/-- The reference a piece is. -/
def Piece.reference? : Piece → Option Reference
  | .named reference => some reference
  | .char _ => none

/-- `TOKEN.finditer`, with what stands between the matches. -/
def piecesFrom : (fuel : Nat) → List Char → List Piece
  | 0, text => text.map .char
  | _ + 1, [] => []
  | fuel + 1, c :: text =>
      match referenceAt (c :: text) with
      | some (reference, rest) => .named reference :: piecesFrom fuel rest
      | none => .char c :: piecesFrom fuel text

def pieces (text : List Char) : List Piece := piecesFrom text.length text

/-- The references of a text. -/
def references (text : String) : List Reference := (pieces text.toList).filterMap Piece.reference?

theorem length_of_referenceAt {text rest : List Char} {reference : Reference}
    (h : referenceAt text = some (reference, rest)) : rest.length < text.length := by
  obtain ⟨-, rfl⟩ := referenceAt_eq_some.mp h
  simp only [Reference.token, List.cons_append, List.length_cons, List.length_append]
  omega

/-- The scan stops by itself. -/
theorem piecesFrom_of_le {fuel : Nat} {text : List Char} (h : text.length ≤ fuel) :
    piecesFrom fuel text = pieces text := by
  suffices hall : ∀ (n fuel other : Nat) (text : List Char), text.length ≤ n → n ≤ fuel →
      n ≤ other → piecesFrom fuel text = piecesFrom other text from
    hall _ _ _ _ le_rfl h le_rfl
  intro n
  induction n with
  | zero =>
    intro fuel other text hlength _ _
    rw [List.length_eq_zero_iff.mp (Nat.le_zero.mp hlength)]
    cases fuel <;> cases other <;> rfl
  | succ n ih =>
    intro fuel other text hlength hfuel hother
    obtain ⟨fuel, rfl⟩ : ∃ less, fuel = less + 1 := ⟨fuel - 1, by omega⟩
    obtain ⟨other, rfl⟩ : ∃ less, other = less + 1 := ⟨other - 1, by omega⟩
    cases text with
    | nil => rfl
    | cons c text =>
      rw [List.length_cons] at hlength
      unfold piecesFrom
      cases hat : referenceAt (c :: text) with
      | none =>
        dsimp only
        rw [ih fuel other text (by omega) (by omega) (by omega)]
      | some found =>
        have hshort := length_of_referenceAt hat
        rw [List.length_cons] at hshort
        dsimp only
        rw [ih fuel other found.2 (by omega) (by omega) (by omega)]

@[simp] theorem pieces_nil : pieces [] = [] := rfl

theorem pieces_token {text rest : List Char} {reference : Reference}
    (h : referenceAt text = some (reference, rest)) :
    pieces text = .named reference :: pieces rest := by
  have hshort := length_of_referenceAt h
  cases text with
  | nil => cases h
  | cons c text =>
    unfold pieces
    rw [List.length_cons, piecesFrom, h]
    dsimp only
    rw [List.length_cons] at hshort
    rw [piecesFrom_of_le (Nat.le_of_lt_succ hshort)]
    rfl

theorem pieces_char {c : Char} {text : List Char} (h : referenceAt (c :: text) = none) :
    pieces (c :: text) = .char c :: pieces text := by
  rw [pieces, List.length_cons, piecesFrom, h]
  rfl

/-- A text is read either as a token and the text after it, or as a character and the text after
it. -/
theorem scan_induction {motive : List Char → Prop} (nil : motive [])
    (token : ∀ {text rest : List Char} {reference : Reference},
      referenceAt text = some (reference, rest) → motive rest → motive text)
    (char : ∀ {c : Char} {text : List Char}, referenceAt (c :: text) = none → motive text →
      motive (c :: text)) (text : List Char) : motive text := by
  suffices hall : ∀ (n : Nat) (text : List Char), text.length ≤ n → motive text from
    hall _ text le_rfl
  intro n
  induction n with
  | zero =>
    intro text hlength
    rw [List.length_eq_zero_iff.mp (Nat.le_zero.mp hlength)]
    exact nil
  | succ n ih =>
    intro text hlength
    cases text with
    | nil => exact nil
    | cons c text =>
      cases hat : referenceAt (c :: text) with
      | none => exact char hat (ih text (Nat.le_of_succ_le_succ hlength))
      | some found =>
        have hshort := length_of_referenceAt hat
        exact token hat (ih found.2 (by omega))

/-! ### What the scan finds is what is expanded -/

theorem expandFrom_token {fuel : Nat} {text rest : List Char} {reference : Reference}
    (h : referenceAt text = some (reference, rest)) :
    expandFrom (fuel + 1) text = reference.path.toList ++ expandFrom fuel rest := by
  unfold referenceAt at h
  split at h
  · rw [expandFrom, token_eq, h]
    rfl
  · cases h

theorem expandFrom_char {fuel : Nat} {c : Char} {text : List Char}
    (h : referenceAt (c :: text) = none) :
    expandFrom (fuel + 1) (c :: text) = c :: expandFrom fuel text := by
  by_cases hopen : ∃ rest, c = '$' ∧ text = '{' :: rest
  · obtain ⟨rest, rfl, rfl⟩ := hopen
    have hnone : referenceAfter rest = none := h
    rw [expandFrom, token_eq, hnone]
    rfl
  · rw [expandFrom]
    intro rest hc htext
    exact hopen ⟨rest, hc, htext⟩

/-- `TOKEN.sub` replaces what the scan finds, and nothing else. -/
theorem expandFrom_eq {fuel : Nat} {text : List Char} (h : text.length ≤ fuel) :
    expandFrom fuel text = (pieces text).flatMap Piece.text := by
  induction fuel generalizing text with
  | zero =>
    rw [List.length_eq_zero_iff.mp (Nat.le_zero.mp h)]
    rfl
  | succ fuel ih =>
    cases text with
    | nil => rfl
    | cons c text =>
      cases hat : referenceAt (c :: text) with
      | none =>
        rw [expandFrom_char hat, pieces_char hat, List.flatMap_cons,
          ih (Nat.le_of_succ_le_succ h)]
        rfl
      | some found =>
        have hless := length_of_referenceAt hat
        have hshort : found.2.length ≤ fuel := Nat.le_of_lt_succ (Nat.lt_of_lt_of_le hless h)
        rw [expandFrom_token hat, pieces_token hat, List.flatMap_cons, ih hshort]
        rfl

theorem expandValue_eq (value : String) :
    expandValue value = String.ofList ((pieces value.toList).flatMap Piece.text) := by
  unfold expandValue
  rw [expandFrom_eq (le_of_eq String.length_toList)]

/-! ### Texts next to each other -/

/-- A character no token has. -/
structure Outside (c : Char) : Prop where
  open_ : c ≠ '$'
  brace : c ≠ '{'
  colon : c ≠ ':'
  close : c ≠ '}'
  name : isNameChar c = false

theorem Half.word_name (half : Half) : ∀ c ∈ half.word, isNameChar c = true := by
  cases half with
  | cert => exact List.all_eq_true.mp (by decide)
  | key => exact List.all_eq_true.mp (by decide)

theorem Outside.notMem_token {c : Char} (h : Outside c) {reference : Reference}
    (hvalid : reference.Valid) : c ∉ reference.token := by
  intro hmem
  unfold Reference.token at hmem
  rcases List.mem_cons.mp hmem with rfl | hmem
  · exact h.open_ rfl
  rcases List.mem_cons.mp hmem with rfl | hmem
  · exact h.brace rfl
  rcases List.mem_append.mp hmem with hmem | hmem
  · have hname := reference.half.word_name c hmem
    rw [h.name] at hname
    cases hname
  rcases List.mem_cons.mp hmem with rfl | hmem
  · exact h.colon rfl
  rcases List.mem_append.mp hmem with hmem | hmem
  · have hname := hvalid.safe c hmem
    rw [h.name] at hname
    cases hname
  · exact h.close (List.mem_singleton.mp hmem)

/-- No token reaches over such a character. -/
theorem referenceAt_append {c : Char} (h : Outside c) (text rest : List Char) :
    referenceAt (text ++ c :: rest) =
      (referenceAt text).map fun found => (found.1, found.2 ++ c :: rest) := by
  cases hat : referenceAt text with
  | some found =>
    obtain ⟨hvalid, rfl⟩ := referenceAt_eq_some.mp hat
    rw [Option.map_some]
    exact referenceAt_eq_some.mpr ⟨hvalid, List.append_assoc ..⟩
  | none =>
    rw [Option.map_none, Option.eq_none_iff_forall_ne_some]
    rintro ⟨reference, after⟩ hsome
    obtain ⟨hvalid, heq⟩ := referenceAt_eq_some.mp hsome
    rcases List.append_eq_append_iff.mp heq with ⟨mid, htoken, hmid⟩ | ⟨mid, htext, -⟩
    · cases mid with
      | nil =>
        rw [List.append_nil] at htoken
        rw [referenceAt_eq_some.mpr ⟨hvalid, (htoken ▸ (List.append_nil text).symm :
          text = reference.token ++ [])⟩] at hat
        cases hat
      | cons d mid =>
        obtain ⟨rfl, -⟩ := List.cons.inj hmid
        exact h.notMem_token hvalid (htoken ▸ List.mem_append_right _ List.mem_cons_self)
    · rw [referenceAt_eq_some.mpr ⟨hvalid, htext⟩] at hat
      cases hat

/-- So the texts on its two sides are scanned apart. -/
theorem pieces_append {c : Char} (h : Outside c) (text rest : List Char) :
    pieces (text ++ c :: rest) = pieces text ++ .char c :: pieces rest := by
  induction text using scan_induction with
  | nil =>
    refine pieces_char ?_
    have hnone := referenceAt_append h [] rest
    exact hnone
  | @token text after reference hat ih =>
    rw [pieces_token hat, List.cons_append, ← ih]
    refine pieces_token ?_
    rw [referenceAt_append h, hat]
    rfl
  | @char d text hat ih =>
    rw [pieces_char hat, List.cons_append, List.cons_append, ← ih]
    refine pieces_char ?_
    rw [← List.cons_append, referenceAt_append h, hat]
    rfl

/-- A text without a dollar sign has no references. -/
theorem pieces_plain {text : List Char} (h : '$' ∉ text) : pieces text = text.map .char := by
  induction text with
  | nil => rfl
  | cons c text ih =>
    have hat : referenceAt (c :: text) = none := by
      unfold referenceAt
      split
      · next heq =>
        rw [heq] at h
        exact absurd List.mem_cons_self h
      · rfl
    rw [pieces_char hat, ih fun hmem => h (List.mem_cons_of_mem _ hmem), List.map_cons]

theorem outside_blank : Outside ' ' := ⟨by decide, by decide, by decide, by decide, by decide⟩

theorem outside_query : Outside '?' := ⟨by decide, by decide, by decide, by decide, by decide⟩

theorem outside_ampersand : Outside '&' := ⟨by decide, by decide, by decide, by decide, by decide⟩

theorem references_append {c : Char} (h : Outside c) (text rest : String) :
    references (text ++ String.singleton c ++ rest) = references text ++ references rest := by
  unfold references
  rw [String.append_assoc, String.toList_append, String.toList_append, String.toList_singleton,
    List.singleton_append, pieces_append h, List.filterMap_append, List.filterMap_cons]
  rfl

theorem references_plain {text : String} (h : '$' ∉ text.toList) : references text = [] := by
  unfold references
  rw [pieces_plain h, List.filterMap_map]
  exact List.filterMap_eq_nil_iff.mpr fun _ _ => rfl

/-- The values joined by blanks have the references the values have. -/
theorem references_intercalate (values : List String) :
    references (" ".intercalate values) = values.flatMap references := by
  induction values with
  | nil => rfl
  | cons value rest ih =>
    cases rest with
    | nil => rw [String.intercalate_singleton, List.flatMap_cons, List.flatMap_nil, List.append_nil]
    | cons next rest =>
      rw [String.intercalate_cons_of_ne_nil (List.cons_ne_nil _ _), List.flatMap_cons, ← ih]
      exact references_append outside_blank _ _

/-! ### What a Catalog refers to -/

/-- `referenced`: every certificate a Catalog names, however it names it. -/
def referenced (properties : Dict) (certificate : Option String) : List String :=
  (references (" ".intercalate (properties.toList.map Prod.snd))).map
    (fun token => String.ofList token.name) ++ certificate.toList

/-- `referenced` of a Catalog as it is stored. -/
def referencedBy : Json → Except Error (List String)
  | .obj fields => do
      let properties ← propertiesOf (fields.lookup "properties")
      let certificate ← certificateOf (fields.lookup "certificate")
      return referenced properties certificate
  | _ => .error ⟨"TypeError", "expected a mapping"⟩

theorem mem_referenced {properties : Dict} {certificate : Option String} {name : String} :
    name ∈ referenced properties certificate ↔
      (∃ (key value : String), properties[key]? = some value ∧
        ∃ token ∈ references value, String.ofList token.name = name) ∨
      certificate = some name := by
  unfold referenced
  rw [references_intercalate, List.mem_append, Option.mem_toList, List.mem_map]
  refine or_congr ⟨?_, ?_⟩ Iff.rfl
  · rintro ⟨token, htoken, hname⟩
    obtain ⟨value, hvalue, hin⟩ := List.mem_flatMap.mp htoken
    obtain ⟨⟨key, _⟩, hentry, rfl⟩ := List.mem_map.mp hvalue
    exact ⟨key, _, Std.ExtTreeMap.mem_toList_iff_getElem?_eq_some.mp hentry, token, hin, hname⟩
  · rintro ⟨key, value, hvalue, token, hin, hname⟩
    refine ⟨token, List.mem_flatMap.mpr ⟨value, ?_, hin⟩, hname⟩
    exact List.mem_map.mpr ⟨(key, value),
      Std.ExtTreeMap.mem_toList_iff_getElem?_eq_some.mpr hvalue, rfl⟩

/-- A Catalog that can be taken apart has its references read off the same fields. -/
theorem referencedBy_of_ofJson {stored : Json} {catalog : Catalog}
    (h : Catalog.ofJson stored = .ok catalog) :
    referencedBy stored = .ok (referenced catalog.properties catalog.certificate) := by
  unfold Catalog.ofJson at h
  split at h
  · next fields =>
    dsimp only at h
    split at h
    case h_2 => cases h
    case h_3 => cases h
    case h_1 connector =>
    obtain ⟨_, -, h⟩ := ok_of_bind h
    obtain ⟨properties, hproperties, h⟩ := ok_of_bind h
    obtain ⟨certificate, hcertificate, h⟩ := ok_of_bind h
    cases h
    simp only [referencedBy, hproperties, hcertificate]
    rfl
  · cases h

/-! ### What is put into the properties -/

/-- The properties with the certificate wired in, as `effective` expands them. -/
def wired (catalog : Catalog) : Except Error Dict :=
  match catalog.certificate with
  | none => .ok catalog.properties
  | some certificate => wire catalog.connector catalog.properties certificate

/-- The paths `effective` puts into a Catalog's properties. -/
inductive Puts (stored : Json) : String → Prop where
  | wired {catalog : Catalog} {properties : Dict} {certificate : String} (half : Half)
      (hcatalog : Catalog.ofJson stored = .ok catalog) (hwired : wired catalog = .ok properties)
      (hcertificate : catalog.certificate = some certificate) :
      Puts stored (Reference.path ⟨half, certificate.toList⟩)
  | expanded {catalog : Catalog} {properties : Dict} {key value : String} {token : Reference}
      (hcatalog : Catalog.ofJson stored = .ok catalog) (hwired : wired catalog = .ok properties)
      (hvalue : properties[key]? = some value) (htoken : token ∈ references value) :
      Puts stored token.path

/-- What Trino receives is the wired properties with every reference replaced by its path. -/
theorem effective_eq_ok {stored : Json} {live : LiveCatalog} (h : effective stored = .ok live) :
    ∃ catalog properties, Catalog.ofJson stored = .ok catalog ∧ wired catalog = .ok properties ∧
      live.connector = catalog.connector ∧ ∀ key : String, live.properties[key]? =
        properties[key]?.map fun value =>
          String.ofList ((pieces value.toList).flatMap Piece.text) := by
  unfold effective at h
  obtain ⟨catalog, hcatalog, h⟩ := ok_of_bind h
  obtain ⟨properties, hproperties, rfl⟩ : ∃ properties, wired catalog = .ok properties ∧
      live = ⟨catalog.connector, expand properties⟩ := by
    unfold wired
    dsimp only at h
    cases hcertificate : catalog.certificate with
    | none =>
      rw [hcertificate] at h
      cases h
      exact ⟨_, rfl, rfl⟩
    | some certificate =>
      rw [hcertificate] at h
      obtain ⟨properties, hwire, h⟩ := ok_of_bind h
      cases h
      exact ⟨_, hwire, rfl⟩
  refine ⟨catalog, properties, hcatalog, hproperties, rfl, fun key => ?_⟩
  unfold expand
  rw [Std.ExtTreeMap.getElem?_map]
  cases properties[key]? with
  | none => rfl
  | some value =>
    rw [Option.map_some, Option.map_some, expandValue_eq]

/-- What wiring writes after the URL. -/
def wiring (certificate : String) : String :=
  "sslcert=" ++ certificatePath certificate ++ "&sslkey=" ++ keyPath certificate

theorem wire_eq_ok {connector certificate : String} {properties result : Dict}
    (h : wire connector properties certificate = .ok result) :
    ∃ url joiner, properties["connection-url"]? = some url ∧ Outside joiner ∧
      result = properties.insert "connection-url"
        (url ++ String.singleton joiner ++ wiring certificate) := by
  unfold wire at h
  split at h
  · cases h
  · split at h
    · cases h
    · next url hurl =>
      cases h
      by_cases hquery : url.toList.contains '?' = true
      · refine ⟨url, '&', hurl, outside_ampersand, ?_⟩
        rw [if_pos hquery]
        unfold wiring
        simp only [String.append_assoc]
        rfl
      · refine ⟨url, '?', hurl, outside_query, ?_⟩
        rw [if_neg hquery]
        unfold wiring
        simp only [String.append_assoc]
        rfl

theorem wiring_plain {certificate : String} (h : '$' ∉ certificate.toList) :
    '$' ∉ (wiring certificate).toList := by
  unfold wiring certificatePath keyPath MOUNT_DIR
  simp only [String.toList_append, List.mem_append, not_or]
  refine ⟨⟨⟨by decide, ⟨⟨by decide, by decide⟩, h⟩, by decide⟩, by decide⟩,
    ⟨⟨by decide, by decide⟩, h⟩, by decide⟩

/-- Wiring adds no reference. -/
theorem references_of_wired {catalog : Catalog} {properties : Dict} {key value : String}
    {token : Reference}
    (hplain : ∀ certificate, catalog.certificate = some certificate → '$' ∉ certificate.toList)
    (h : wired catalog = .ok properties) (hvalue : properties[key]? = some value)
    (htoken : token ∈ references value) :
    ∃ value, catalog.properties[key]? = some value ∧ token ∈ references value := by
  unfold wired at h
  split at h
  · cases h
    exact ⟨value, hvalue, htoken⟩
  · next certificate hcertificate =>
    obtain ⟨url, joiner, hurl, hjoiner, rfl⟩ := wire_eq_ok h
    rw [Std.ExtTreeMap.getElem?_insert] at hvalue
    split at hvalue
    · next hkey =>
      obtain rfl := Std.LawfulEqCmp.eq_of_compare hkey
      cases hvalue
      rw [references_append hjoiner, references_plain (wiring_plain (hplain _ hcertificate)),
        List.append_nil] at htoken
      exact ⟨url, hurl, htoken⟩
    · exact ⟨value, hvalue, htoken⟩

/-- Every path put into the properties is a file of a certificate the Catalog refers to. -/
theorem Puts.referenced {stored : Json} {path : String} (h : Puts stored path)
    (hplain : ∀ catalog certificate, Catalog.ofJson stored = .ok catalog →
      catalog.certificate = some certificate → '$' ∉ certificate.toList) :
    ∃ names, referencedBy stored = .ok names ∧ ∃ half, ∃ name ∈ names,
      path = Reference.path ⟨half, name.toList⟩ := by
  cases h with
  | @wired catalog properties certificate half hcatalog hwired hcertificate =>
    refine ⟨_, referencedBy_of_ofJson hcatalog, half, certificate, ?_, rfl⟩
    exact mem_referenced.mpr (.inr hcertificate)
  | @expanded catalog properties key value token hcatalog hwired hvalue htoken =>
    refine ⟨_, referencedBy_of_ofJson hcatalog, token.half, String.ofList token.name, ?_, ?_⟩
    · obtain ⟨value, hvalue, htoken⟩ :=
        references_of_wired (fun _ => hplain catalog _ hcatalog) hwired hvalue htoken
      exact mem_referenced.mpr (.inl ⟨key, value, hvalue, token, htoken, rfl⟩)
    · rw [String.toList_ofList]

end Apchi.Catalogs

import Apchi.Lib.PropertiesFiles

/-!
# Texts two readers take alike

A text whose lines end in line feeds and carriage returns alone, and in which every line is blank, a
comment or a plain property with blanks around its parts, is taken by both readers for the same
properties, the last value under each key.
-/

namespace Lib

namespace Properties

open PyText

/-! ### Lines -/

/-- Blanks to both readers. -/
abbrev Blanks (text : List Char) : Prop := ∀ c ∈ text, JavaProperties.isBlank c = true

/-- A line both readers take for the same. -/
inductive Common : List Char → Prop where
  | blank {spaces : List Char} (hspaces : Blanks spaces) : Common spaces
  | comment {spaces : List Char} (hspaces : Blanks spaces) (text : List Char) :
      Common (spaces ++ '#' :: text)
  | property {before key left right value : List Char} (hbefore : Blanks before)
      (hleft : Blanks left) (hright : Blanks right) (hwritten : Written (key, value))
      (hplain : JavaProperties.Plain (key, value)) :
      Common (before ++ (key ++ (left ++ '=' :: (right ++ value))))

/-- What a line is to both of them. -/
def entryIn (raw : List Char) : Option (String × String) :=
  match readLine (.ofList raw) with
  | .property key value => some (key, value)
  | _ => none

theorem dropWhile_blanks {blanks : List Char} (h : Blanks blanks) (rest : List Char) :
    (blanks ++ rest).dropWhile isBlank = rest.dropWhile isBlank := by
  induction blanks with
  | nil => rfl
  | cons c blanks ih =>
    obtain ⟨hc, hblanks⟩ := List.forall_mem_cons.mp h
    rw [List.cons_append, List.dropWhile_cons_of_pos (isBlank_of_isBlank hc), ih hblanks]

theorem dropWhile_java {blanks : List Char} (h : Blanks blanks) (rest : List Char) :
    (blanks ++ rest).dropWhile JavaProperties.isBlank = rest.dropWhile JavaProperties.isBlank := by
  induction blanks with
  | nil => rfl
  | cons c blanks ih =>
    obtain ⟨hc, hblanks⟩ := List.forall_mem_cons.mp h
    rw [List.cons_append, List.dropWhile_cons_of_pos hc, ih hblanks]

theorem rstrip_blanks {blanks : List Char} (h : Blanks blanks) (text : List Char) :
    rstrip (text ++ blanks) = rstrip text := by
  induction blanks using List.reverseRecOn with
  | nil => rw [List.append_nil]
  | append_singleton blanks c ih =>
    rw [← List.append_assoc, rstrip, List.rdropWhile_concat_pos _ _ _
      (isBlank_of_isBlank (h c (by simp)))]
    exact ih fun d hd => h d (List.mem_append_left _ hd)

/-- Blanks at either end are taken off, and nothing else. -/
theorem strip_pad {before text after : List Char} (hbefore : Blanks before) (hafter : Blanks after)
    (h : strip text = text) : strip (before ++ (text ++ after)) = text := by
  unfold strip
  rw [dropWhile_blanks hbefore]
  cases text with
  | nil =>
    have hnil := dropWhile_blanks hafter []
    rw [List.append_nil] at hnil
    rw [List.nil_append, hnil]
    rfl
  | cons c text =>
    rw [List.cons_append, List.dropWhile_cons_of_neg (by rw [isBlank_of_strip h]; decide),
      ← List.cons_append, rstrip_blanks hafter]
    exact (ends_of_strip h).2

/-- Blanks at either end of what stands on either side of an equals sign. -/
theorem strip_equals (before after : List Char) :
    strip (before ++ '=' :: after) = before.dropWhile isBlank ++ '=' :: rstrip after := by
  unfold strip
  rw [List.dropWhile_append]
  split
  · next hempty =>
    rw [List.isEmpty_iff.mp hempty, List.dropWhile_cons_of_neg (by decide)]
    exact rstrip_of_not_blank [] after rfl
  · exact rstrip_of_not_blank _ after rfl

theorem strip_dropWhile (text : List Char) : strip (text.dropWhile isBlank) = strip text := by
  unfold strip
  rw [List.dropWhile_idempotent]

theorem strip_rstrip_pad {before text : List Char} (hbefore : Blanks before)
    (h : strip text = text) : strip (rstrip (before ++ text)) = text := by
  by_cases hnil : text = []
  · rw [hnil, List.append_nil, ← List.nil_append before, rstrip_blanks hbefore]
    rfl
  · have hlast : rstrip (before ++ text) = before ++ text := by
      refine List.rdropWhile_eq_self_iff.mpr fun hne => ?_
      rw [List.getLast_append_of_ne_nil hne hnil]
      exact List.rdropWhile_eq_self_iff.mp (ends_of_strip h).2 hnil
    have hpad := strip_pad hbefore (List.forall_mem_nil _) h
    rw [List.append_nil] at hpad
    rw [hlast, hpad]

theorem equals_notMem_blanks {blanks : List Char} (h : Blanks blanks) : '=' ∉ blanks := by
  intro hmem
  have hblank := h _ hmem
  simp [JavaProperties.isBlank] at hblank

/-- Blanks around a key and around a value are not of them. -/
theorem readLine_property {before key left right value : List Char} (hbefore : Blanks before)
    (hleft : Blanks left) (hright : Blanks right) (h : Written (key, value)) :
    readLine (.ofList (before ++ (key ++ (left ++ '=' :: (right ++ value))))) =
      .property (.ofList key) (.ofList value) := by
  have hstrip : strip (before ++ (key ++ (left ++ '=' :: (right ++ value)))) =
      (before ++ (key ++ left)).dropWhile isBlank ++ '=' :: rstrip (right ++ value) := by
    rw [← strip_equals]
    simp
  have hequals : '=' ∉ (before ++ (key ++ left)).dropWhile isBlank := by
    intro hmem
    have hmem := (List.dropWhile_suffix isBlank).subset hmem
    simp only [List.mem_append] at hmem
    rcases hmem with hmem | hmem | hmem
    · exact equals_notMem_blanks hbefore hmem
    · exact h.equals hmem
    · exact equals_notMem_blanks hleft hmem
  have hkey : strip ((before ++ (key ++ left)).dropWhile isBlank) = key := by
    rw [strip_dropWhile]
    exact strip_pad hbefore hleft h.key
  have hvalue : strip (rstrip (right ++ value)) = value := strip_rstrip_pad hright h.value
  -- what is before the equals sign starts as the key does, so the line is no comment
  have hstart : ((before ++ (key ++ left)).dropWhile isBlank).head? ≠ some '#' := by
    rw [dropWhile_blanks hbefore]
    cases hlist : key with
    | nil =>
      have hnil := dropWhile_blanks hleft []
      rw [List.append_nil] at hnil
      rw [List.nil_append, hnil]
      simp
    | cons c rest =>
      have hc : isBlank c = false := isBlank_of_strip (by rw [← hlist]; exact h.key)
      rw [List.cons_append, List.dropWhile_cons_of_neg (by rw [hc]; decide), ← List.cons_append]
      have hfirst : key.head? ≠ some '#' := h.start
      rw [hlist] at hfirst
      simpa using hfirst
  unfold readLine
  rw [String.toList_ofList, hstrip]
  split
  · next heq => simp at heq
  · next text heq =>
    cases hlist : (before ++ (key ++ left)).dropWhile isBlank with
    | nil =>
      rw [hlist] at heq
      simp at heq
    | cons c rest =>
      rw [hlist] at heq hstart
      obtain ⟨rfl, -⟩ := List.cons.inj heq
      exact absurd rfl hstart
  · rw [partition_append hequals]
    dsimp only
    rw [hkey, hvalue]

/-- What Java makes of such a line. -/
theorem entryOf_property {key left right value : List Char} (hleft : Blanks left)
    (hright : Blanks right) (hwritten : Written (key, value))
    (hplain : JavaProperties.Plain (key, value)) :
    JavaProperties.entryOf (key ++ (left ++ '=' :: (right ++ value))) =
      some (JavaProperties.encoded (key, value)) := by
  have hsplit : JavaProperties.splitKey false (key ++ (left ++ '=' :: (right ++ value))) =
      (key, left ++ '=' :: (right ++ value)) := by
    cases left with
    | nil => exact JavaProperties.splitKey_plain hplain.key rfl _
    | cons c left =>
      refine JavaProperties.splitKey_plain hplain.key ?_ _
      simp [JavaProperties.endsKey, hleft c List.mem_cons_self]
  have hvalue : JavaProperties.valueOf (left ++ '=' :: (right ++ value)) = value := by
    unfold JavaProperties.valueOf
    rw [dropWhile_java hleft, List.dropWhile_cons_of_neg (by decide)]
    show (right ++ value).dropWhile JavaProperties.isBlank = value
    rw [dropWhile_java hright]
    exact dropWhile_of_strip hwritten.value
  unfold JavaProperties.entryOf
  rw [hsplit]
  dsimp only
  rw [hvalue, JavaProperties.unescape_plain fun hmem => (hplain.key _ hmem).2 rfl,
    JavaProperties.unescape_plain hplain.value]
  rfl

theorem escape_notMem_blanks {blanks : List Char} (h : Blanks blanks) : '\\' ∉ blanks := by
  intro hmem
  have hblank := h _ hmem
  simp [JavaProperties.isBlank] at hblank

/-- In front of a key Java drops blanks, and with no key the blanks in front of the equals sign. -/
theorem dropWhile_property {before key left : List Char} (hbefore : Blanks before)
    (hleft : Blanks left) (hkey : strip key = key) (rest : List Char) : ∃ kept, Blanks kept ∧ (key = [] → kept = []) ∧
      (before ++ (key ++ (left ++ '=' :: rest))).dropWhile JavaProperties.isBlank =
        key ++ (kept ++ '=' :: rest) := by
  rw [dropWhile_java hbefore]
  cases hlist : key with
  | nil =>
    refine ⟨[], List.forall_mem_nil _, fun _ => rfl, ?_⟩
    rw [List.nil_append, dropWhile_java hleft, List.dropWhile_cons_of_neg (by decide)]
    rfl
  | cons c tail =>
    have hc : JavaProperties.isBlank c = false := by
      apply eq_false_of_ne_true
      intro hblank
      have hnot : isBlank c = false := isBlank_of_strip (by rw [← hlist]; exact hkey)
      rw [isBlank_of_isBlank hblank] at hnot
      cases hnot
    refine ⟨left, hleft, List.cons_ne_nil c tail |>.elim, ?_⟩
    rw [List.cons_append, List.dropWhile_cons_of_neg (by rw [hc]; decide)]

/-- What Java passes over, and what it takes for a line of its own. -/
theorem Common.taken {line : List Char} (h : Common line) :
    (entryIn line = none ∧ JavaProperties.isIgnored (line.dropWhile JavaProperties.isBlank) = true) ∨
      ∃ property, entryIn line = some property ∧
        JavaProperties.isIgnored (line.dropWhile JavaProperties.isBlank) = false ∧
        JavaProperties.continues (line.dropWhile JavaProperties.isBlank) = false ∧
        JavaProperties.entryOf (line.dropWhile JavaProperties.isBlank) =
          some (JavaProperties.encoded (chars property)) := by
  cases h with
  | blank hspaces =>
    refine Or.inl ⟨?_, ?_⟩
    · have hstrip : strip (line ++ ([] ++ [])) = [] :=
        strip_pad hspaces (List.forall_mem_nil _) rfl
      rw [List.append_nil, List.append_nil] at hstrip
      unfold entryIn readLine
      rw [String.toList_ofList, hstrip]
    · have hnil := dropWhile_java hspaces []
      rw [List.append_nil] at hnil
      rw [hnil]
      rfl
  | @comment spaces hspaces text =>
    refine Or.inl ⟨?_, ?_⟩
    · unfold entryIn readLine
      rw [String.toList_ofList]
      have hstrip : strip (spaces ++ '#' :: text) = '#' :: rstrip text := by
        unfold strip
        rw [dropWhile_blanks hspaces, List.dropWhile_cons_of_neg (by decide)]
        exact rstrip_of_not_blank [] text rfl
      rw [hstrip]
      rfl
    · rw [dropWhile_java hspaces, List.dropWhile_cons_of_neg (by decide)]
      rfl
  | @property before key left right value hbefore hleft hright hwritten hplain =>
    obtain ⟨kept, hkept, hnil, hdrop⟩ :=
      dropWhile_property hbefore hleft hwritten.key (right ++ value)
    refine Or.inr ⟨(.ofList key, .ofList value), ?_, ?_, ?_, ?_⟩
    · unfold entryIn
      rw [readLine_property hbefore hleft hright hwritten]
    · have hstart : JavaProperties.isIgnored (key ++ '=' :: value) = false := hplain.start
      rw [hdrop]
      cases hlist : key with
      | nil =>
        rw [hnil hlist]
        rfl
      | cons c rest =>
        rw [hlist] at hstart
        exact hstart
    · rw [hdrop]
      apply JavaProperties.continues_plain
      have hkey : '\\' ∉ key := fun hmem => (hplain.key _ hmem).2 rfl
      have hvalue : '\\' ∉ value := hplain.value
      simp [hkey, hvalue, escape_notMem_blanks hkept, escape_notMem_blanks hright]
    · rw [hdrop, entryOf_property hkept hright hwritten hplain, chars, String.toList_ofList,
        String.toList_ofList]

/-- A text both readers take alike. -/
structure CommonText (text : String) : Prop where
  breaks : ∀ c ∈ text.toList, isLineBreak c = true → JavaProperties.isNewline c = true
  lines : ∀ line ∈ splitLines text.toList, Common line

/-- They cut it into the same lines. -/
theorem naturalLines_eq {text : List Char}
    (h : ∀ c ∈ text, isLineBreak c = true → JavaProperties.isNewline c = true) :
    JavaProperties.naturalLines text = splitLines text := by
  fun_induction splitLines text with
  | case1 => rfl
  | case2 rest ih =>
    rw [JavaProperties.naturalLines, ih fun c hc => h c (by simp [hc])]
  | case3 c rest hcrlf hc ih =>
    have hnewline := h c List.mem_cons_self hc
    have hrest := ih fun d hd => h d (List.mem_cons_of_mem _ hd)
    rw [JavaProperties.naturalLines.eq_def]
    split
    · next heq => cases heq
    · next heq =>
      obtain ⟨rfl, rfl⟩ := List.cons.inj heq
      exact (hcrlf _ rfl rfl).elim
    · next heq =>
      obtain ⟨rfl, rfl⟩ := List.cons.inj heq
      rw [if_pos hnewline, hrest]
  | case4 c rest _ hc hnil ih =>
    have hplain := isLineBreak_isNewline (eq_false_of_ne_true hc)
    rw [JavaProperties.naturalLines_cons hplain, ih fun d hd => h d (List.mem_cons_of_mem _ hd), hnil]
  | case5 c rest _ hc first others heq ih =>
    have hplain := isLineBreak_isNewline (eq_false_of_ne_true hc)
    rw [JavaProperties.naturalLines_cons hplain, ih fun d hd => h d (List.mem_cons_of_mem _ hd), heq]

/-- Java loads the properties Apchi reads, in the same order. -/
theorem CommonText.entries_eq {text : String} (h : CommonText text) :
    JavaProperties.entries text =
      some ((propertiesIn (PyText.lines text)).map fun property =>
        JavaProperties.encoded (chars property)) := by
  have hraws : ∀ raws : List (List Char), (∀ raw ∈ raws, Common raw) →
      (JavaProperties.logicalFrom none raws).mapM JavaProperties.entryOf =
        some ((raws.filterMap entryIn).map fun property => JavaProperties.encoded (chars property)) := by
    intro raws hraws
    rw [JavaProperties.logicalFrom_plain]
    · induction raws with
      | nil => rfl
      | cons raw rest ih =>
        obtain ⟨hraw, hrest⟩ := List.forall_mem_cons.mp hraws
        rw [List.map_cons, List.filterMap_cons]
        rcases hraw.taken with ⟨hnone, hignored⟩ | ⟨property, hsome, hignored, -, hentry⟩
        · rw [hnone, List.filter_cons_of_neg (by simp [hignored])]
          exact ih hrest
        · rw [hsome, List.filter_cons_of_pos (by simp [hignored]), List.mapM_cons, hentry, ih hrest]
          rfl
    · intro raw hraw hkept
      rcases (hraws raw hraw).taken with ⟨-, hignored⟩ | ⟨-, -, -, hcontinues, -⟩
      · rw [hignored] at hkept
        cases hkept
      · exact hcontinues
  unfold JavaProperties.entries
  rw [naturalLines_eq h.breaks, hraws _ h.lines]
  unfold propertiesIn PyText.lines
  rw [List.filterMap_map]
  rfl

/-- The last of what is loaded under a key is the last of what is read under it. -/
theorem lastOf_encoded (properties : List (String × String)) (key : String) :
    JavaProperties.lastOf (properties.map fun property => JavaProperties.encoded (chars property))
        (JavaProperties.utf16 key.toList) =
      (lastIn properties key).map fun value => JavaProperties.utf16 value.toList := by
  unfold JavaProperties.lastOf lastIn
  rw [← List.map_reverse]
  induction properties.reverse with
  | nil => rfl
  | cons property rest ih =>
    rw [List.map_cons, List.lookup_cons, List.lookup_cons, ih]
    by_cases hkey : key = property.1
    · subst hkey
      simp [JavaProperties.encoded, chars]
    · have hne : JavaProperties.utf16 key.toList ≠ JavaProperties.utf16 property.1.toList :=
        fun heq => hkey (String.toList_inj.mp (JavaProperties.utf16_injective heq))
      have hcode : (JavaProperties.utf16 key.toList ==
          (JavaProperties.encoded (chars property)).1) = false := beq_false_of_ne hne
      rw [hcode, beq_false_of_ne hkey]

/-- What Java loads is the last value under every key. -/
theorem CommonText.loads {text : String} (h : CommonText text)
    {properties : List (List Char × List Char)} (hproperties : ∀ property, property ∈ properties ↔
      ∃ key value, lastIn (propertiesIn (PyText.lines text)) key = some value ∧
        property = chars (key, value)) : JavaProperties.Loads text properties := by
  refine ⟨_, h.entries_eq, fun key value => ?_⟩
  constructor
  · intro hlast
    obtain ⟨property, -, heq⟩ := List.mem_map.mp (JavaProperties.mem_of_lookup_reverse hlast)
    obtain ⟨rfl, -⟩ := Prod.mk.inj heq
    have hread := lastOf_encoded (propertiesIn (PyText.lines text)) property.1
    rw [show JavaProperties.lastOf _ (JavaProperties.utf16 property.1.toList) = some value from hlast]
      at hread
    obtain ⟨found, hfound, rfl⟩ := Option.map_eq_some_iff.mp hread.symm
    exact ⟨_, (hproperties _).mpr ⟨_, _, hfound, rfl⟩, rfl, rfl⟩
  · rintro ⟨property, hmem, rfl, rfl⟩
    obtain ⟨key, value, hfound, rfl⟩ := (hproperties _).mp hmem
    exact (lastOf_encoded _ key).trans (by rw [hfound]; rfl)

/-- What is read of a file is what Java loads of it. -/
theorem CommonText.read_loads {text : String} (h : CommonText text) {name named : String}
    {contents : Contents} (hread : read name text = .ok (named, contents)) :
    JavaProperties.Loads text (((name, named) :: contents.properties.toList).map chars) := by
  obtain ⟨htaken, hnamed⟩ := read_eq_ok.mp hread
  obtain ⟨hname, hproperties⟩ := takeLines_last htaken
  rw [hnamed, Option.or_none] at hname
  refine h.loads fun property => ?_
  rw [List.map_cons, List.mem_cons, List.mem_map]
  constructor
  · rintro (rfl | ⟨⟨key, value⟩, hmem, rfl⟩)
    · exact ⟨name, named, hname.symm, rfl⟩
    · have hvalue := Std.ExtTreeMap.mem_toList_iff_getElem?_eq_some.mp hmem
      rw [hproperties key] at hvalue
      split at hvalue
      · simp at hvalue
      · rw [show ({} : Contents).properties[key]? = none by simp, Option.or_none] at hvalue
        exact ⟨key, value, hvalue, rfl⟩
  · rintro ⟨key, value, hvalue, rfl⟩
    by_cases hkey : key = name
    · subst hkey
      rw [← hname] at hvalue
      cases hvalue
      exact Or.inl rfl
    · refine Or.inr ⟨(key, value), Std.ExtTreeMap.mem_toList_iff_getElem?_eq_some.mpr ?_, rfl⟩
      rw [hproperties key, if_neg hkey, hvalue]
      rfl

end Properties

end Lib

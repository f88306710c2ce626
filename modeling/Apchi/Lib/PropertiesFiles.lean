import Apchi.Lib.JavaProperties
import Apchi.Lib.Prog
import Apchi.Lib.Properties

/-!
# Properties files two readers agree on

A file with a line for each property is read line by line, and loaded by Java.  Both take every property
as it was written exactly where no key and no value has anything in it that one of the two takes apart.
-/

namespace Lib

namespace PyText

theorem isLineBreak_isNewline {c : Char} (h : isLineBreak c = false) :
    JavaProperties.isNewline c = false := by
  unfold JavaProperties.isNewline
  rw [Bool.or_eq_false_iff, beq_eq_false_iff_ne, beq_eq_false_iff_ne]
  constructor
  · rintro rfl
    cases h
  · rintro rfl
    cases h

theorem splitLines_cons {c : Char} (h : isLineBreak c = false) (rest : List Char) :
    splitLines (c :: rest) = match splitLines rest with
      | [] => [[c]]
      | line :: lines => (c :: line) :: lines := by
  rw [splitLines.eq_def]
  split
  · next heq => cases heq
  · next heq =>
    cases heq
    cases h
  · next heq =>
    cases heq
    rw [h]
    rfl

theorem splitLines_line {line : List Char} (h : ∀ c ∈ line, isLineBreak c = false)
    (rest : List Char) : splitLines (line ++ '\n' :: rest) = line :: splitLines rest := by
  induction line with
  | nil => rfl
  | cons c line ih =>
    obtain ⟨hc, hline⟩ := List.forall_mem_cons.mp h
    rw [List.cons_append, splitLines_cons hc, ih hline]

/-- No line has a line break in it. -/
theorem not_isLineBreak_of_mem {text line : List Char} (h : line ∈ splitLines text) :
    ∀ c ∈ line, isLineBreak c = false := by
  fun_induction splitLines text generalizing line with
  | case1 => cases h
  | case2 rest ih =>
    rcases List.mem_cons.mp h with rfl | h
    · exact fun _ hc => absurd hc List.not_mem_nil
    · exact ih h
  | case3 c rest _ _ ih =>
    rcases List.mem_cons.mp h with rfl | h
    · exact fun _ hc => absurd hc List.not_mem_nil
    · exact ih h
  | case4 c rest _ hc hnil ih =>
    cases List.mem_singleton.mp h
    exact fun d hd => by
      cases List.mem_singleton.mp hd
      exact eq_false_of_ne_true hc
  | case5 c rest _ hc first others heq ih =>
    rw [heq] at ih
    rcases List.mem_cons.mp h with rfl | h
    · exact List.forall_mem_cons.mpr ⟨eq_false_of_ne_true hc, ih List.mem_cons_self⟩
    · exact ih (List.mem_cons_of_mem _ h)

/-- A text that is stripped loses nothing at either end. -/
theorem ends_of_strip {text : List Char} (h : strip text = text) :
    text.dropWhile isBlank = text ∧ rstrip text = text := by
  have hdrop : text.dropWhile isBlank = text := by
    have hsuffix := List.dropWhile_suffix isBlank (l := text)
    have hprefix : strip text <+: text.dropWhile isBlank := List.rdropWhile_prefix _ _
    rw [h] at hprefix
    exact hsuffix.eq_of_length (Nat.le_antisymm hsuffix.length_le hprefix.length_le)
  refine ⟨hdrop, ?_⟩
  conv_rhs => rw [← h]
  unfold strip
  rw [hdrop]

theorem strip_idem (text : List Char) : strip (strip text) = strip text := by
  have hdrop : (strip text).dropWhile isBlank = strip text := by
    unfold strip
    cases hrest : text.dropWhile isBlank with
    | nil => rfl
    | cons c rest =>
      have hc : isBlank c = false := by
        have := List.head?_dropWhile_not isBlank text
        rw [hrest] at this
        simpa using this
      have hfirst := rstrip_of_not_blank [] rest hc
      rw [List.nil_append, List.nil_append] at hfirst
      rw [hfirst, List.dropWhile_cons_of_neg (by rw [hc]; exact Bool.false_ne_true)]
  show rstrip ((strip text).dropWhile isBlank) = strip text
  rw [hdrop]
  exact List.rdropWhile_idempotent _ _

theorem isBlank_of_strip {c : Char} {rest : List Char} (h : strip (c :: rest) = c :: rest) :
    isBlank c = false := by
  have hdrop := List.dropWhile_eq_self_iff.mp (ends_of_strip h).1 (Nat.zero_lt_succ rest.length)
  exact eq_false_of_ne_true hdrop

/-- What Java takes for a blank is one. -/
theorem isBlank_of_isBlank {c : Char} (h : JavaProperties.isBlank c = true) : isBlank c = true := by
  unfold JavaProperties.isBlank at h
  rw [Bool.or_eq_true, Bool.or_eq_true, beq_iff_eq, beq_iff_eq, beq_iff_eq] at h
  rcases h with (rfl | rfl) | rfl
  · rfl
  · rfl
  · rfl

theorem dropWhile_of_strip {text : List Char} (h : strip text = text) :
    text.dropWhile JavaProperties.isBlank = text := by
  cases text with
  | nil => rfl
  | cons c rest =>
    refine List.dropWhile_cons_of_neg fun hblank => ?_
    have hc := isBlank_of_strip h
    rw [isBlank_of_isBlank hblank] at hc
    cases hc

theorem mem_of_mem_strip {text : List Char} {c : Char} (h : c ∈ strip text) : c ∈ text :=
  (List.dropWhile_suffix isBlank).subset ((List.rdropWhile_prefix isBlank _).subset h)

/-- Around a character that is no blank, blanks are taken off the outer ends alone. -/
theorem strip_around {before after : List Char} {c : Char} (hc : isBlank c = false)
    (hbefore : strip before = before) (hafter : strip after = after) :
    strip (before ++ c :: after) = before ++ c :: after := by
  have hdrop : (before ++ c :: after).dropWhile isBlank = before ++ c :: after := by
    cases before with
    | nil => rw [List.nil_append, List.dropWhile_cons_of_neg (by rw [hc]; exact Bool.false_ne_true)]
    | cons d rest =>
      rw [List.cons_append, List.dropWhile_cons_of_neg
        (by rw [isBlank_of_strip hbefore]; exact Bool.false_ne_true)]
  unfold strip
  rw [hdrop, rstrip_of_not_blank _ _ hc, (ends_of_strip hafter).2]

end PyText

namespace Properties

open PyText

/-! ### Lines -/

/-- A property as the line it is written on. -/
def lineOf (property : String × String) : String := property.1 ++ "=" ++ property.2

def chars (property : String × String) : List Char × List Char :=
  (property.1.toList, property.2.toList)

theorem partition_some {separator : Char} {text before after : List Char}
    (h : partition separator text = some (before, after)) :
    text = before ++ separator :: after ∧ separator ∉ before := by
  induction text generalizing before with
  | nil => cases h
  | cons c rest ih =>
    unfold partition at h
    split at h
    · next hc =>
      cases h
      exact ⟨by rw [hc]; rfl, List.not_mem_nil⟩
    · next hc =>
      obtain ⟨⟨init, last⟩, hrest, heq⟩ := Option.map_eq_some_iff.mp h
      cases heq
      obtain ⟨hsame, hnot⟩ := ih hrest
      exact ⟨by rw [hsame]; rfl, List.not_mem_cons_of_ne_of_not_mem (Ne.symm hc) hnot⟩

theorem partition_append {separator : Char} {before : List Char} (h : separator ∉ before)
    (after : List Char) :
    partition separator (before ++ separator :: after) = some (before, after) := by
  induction before with
  | nil => exact if_pos rfl
  | cons c rest ih =>
    rw [List.mem_cons, not_or] at h
    rw [List.cons_append]
    unfold partition
    rw [if_neg (Ne.symm h.1), ih h.2]
    rfl

/-- A property that is read as it was written. -/
structure Written (property : List Char × List Char) : Prop where
  key : strip property.1 = property.1
  value : strip property.2 = property.2
  equals : '=' ∉ property.1
  start : property.1.head? ≠ some '#'
  keyLine : ∀ c ∈ property.1, isLineBreak c = false
  valueLine : ∀ c ∈ property.2, isLineBreak c = false

/-- What is read of a line is as it is written. -/
theorem written_of_readLine {raw key value : String} (hraw : ∀ c ∈ raw.toList, isLineBreak c = false)
    (h : readLine raw = .property key value) : Written (chars (key, value)) := by
  unfold readLine at h
  cases hstrip : strip raw.toList with
  | nil =>
    rw [hstrip] at h
    cases h
  | cons c rest =>
    rw [hstrip] at h
    split at h
    · cases h
    · cases h
    · next _ hcomment =>
      split at h
      · next before after hpartition =>
        cases h
        obtain ⟨htext, hequals⟩ := partition_some hpartition
        have hline : ∀ d, d ∈ before ++ '=' :: after → isLineBreak d = false := fun d hd =>
          hraw d (mem_of_mem_strip (hstrip ▸ htext ▸ hd))
        rw [chars, String.toList_ofList, String.toList_ofList]
        refine ⟨strip_idem _, strip_idem _, fun hmem => hequals (mem_of_mem_strip hmem), ?_,
          fun d hd => hline d (List.mem_append_left _ (mem_of_mem_strip hd)),
          fun d hd => hline d (List.mem_append_right _ (List.mem_cons_of_mem _ (mem_of_mem_strip hd)))⟩
        -- the line starts with no blank, so the key starts where the line does
        cases before with
        | nil => exact nofun
        | cons d before =>
          obtain ⟨rfl, -⟩ := List.cons.inj htext
          have hline := strip_idem raw.toList
          rw [hstrip] at hline
          have hc := isBlank_of_strip hline
          have hfirst := rstrip_of_not_blank [] before hc
          rw [List.nil_append, List.nil_append] at hfirst
          rw [strip_cons hc, hfirst, List.head?_cons]
          rintro heq
          exact hcomment _ (by rw [Option.some.inj heq])
      · cases h

/-- A line of a property is read as that property. -/
theorem readLine_written {property : String × String}
    (h : Written (chars property)) : readLine (lineOf property) = .property property.1 property.2 := by
  unfold lineOf
  have hline : strip (property.1 ++ "=" ++ property.2).toList =
      property.1.toList ++ '=' :: property.2.toList := by
    rw [String.toList_append, String.toList_append, List.append_assoc]
    exact strip_around rfl h.key h.value
  have hpartition : partition '=' (property.1.toList ++ '=' :: property.2.toList) =
      some (property.1.toList, property.2.toList) := partition_append h.equals _
  have hkey : strip property.1.toList = property.1.toList := h.key
  have hvalue : strip property.2.toList = property.2.toList := h.value
  have hstart : property.1.toList.head? ≠ some '#' := h.start
  unfold readLine
  rw [hline]
  split
  · next heq => exact absurd heq (List.append_ne_nil_of_right_ne_nil _ (List.cons_ne_nil _ _))
  · next text heq =>
    cases htext : property.1.toList with
    | nil =>
      rw [htext] at heq
      cases heq
    | cons c rest =>
      rw [htext] at heq hstart
      obtain ⟨rfl, -⟩ := List.cons.inj heq
      exact absurd rfl hstart
  · rw [hpartition]
    dsimp only
    rw [hkey, hvalue, String.ofList_toList, String.ofList_toList]

/-! ### What a file says -/

/-- The properties on the lines of a text, in their order. -/
def propertiesIn (raws : List String) : List (String × String) :=
  raws.filterMap fun raw => match readLine raw with
    | .property key value => some (key, value)
    | _ => none

/-- The last value that is given to a key. -/
def lastIn (properties : List (String × String)) (key : String) : Option String :=
  properties.reverse.lookup key

theorem lastIn_cons (property : String × String) (rest : List (String × String)) (key : String) :
    lastIn (property :: rest) key =
      (lastIn rest key).or (if key = property.1 then some property.2 else none) := by
  unfold lastIn
  rw [List.reverse_cons, List.lookup_append]
  congr 1
  rw [List.lookup_cons]
  by_cases hkey : key = property.1
  · rw [if_pos hkey, beq_iff_eq.mpr hkey]
  · rw [if_neg hkey, beq_false_of_ne hkey]
    rfl

theorem propertiesIn_cons (raw : String) (rest : List String) :
    propertiesIn (raw :: rest) = match readLine raw with
      | .property key value => (key, value) :: propertiesIn rest
      | _ => propertiesIn rest := by
  unfold propertiesIn
  rw [List.filterMap_cons]
  cases readLine raw with
  | blank => rfl
  | comment text => rfl
  | property key value => rfl
  | malformed text => rfl

/-- What is taken in is the last value under every key. -/
theorem takeLines_last {name : String} {number : Nat} {raws : List String}
    {contents final : Contents} (h : takeLines name number raws contents = .ok final) :
    final.named = (lastIn (propertiesIn raws) name).or contents.named ∧
      ∀ key, final.properties[key]? = if key = name then contents.properties[key]?
        else (lastIn (propertiesIn raws) key).or contents.properties[key]? := by
  induction raws generalizing number contents with
  | nil =>
    cases h
    exact ⟨rfl, fun key => by split <;> rfl⟩
  | cons raw rest ih =>
    unfold takeLines at h
    obtain ⟨next, hnext, h⟩ := ok_of_bind h
    obtain ⟨hnamed, hproperties⟩ := ih h
    rw [propertiesIn_cons]
    cases hline : readLine raw with
    | malformed text =>
      rw [hline] at hnext
      cases hnext
    | blank =>
      rw [hline] at hnext
      cases hnext
      exact ⟨hnamed, hproperties⟩
    | comment text =>
      rw [hline] at hnext
      cases hnext
      exact ⟨hnamed, hproperties⟩
    | property key value =>
      rw [hline, takeLine_property] at hnext
      dsimp only
      split at hnext
      · next hkey =>
        cases hnext
        subst hkey
        refine ⟨?_, fun other => ?_⟩
        · rw [hnamed, lastIn_cons, if_pos rfl, Option.or_assoc]
          rfl
        · rw [hproperties other]
          split
          · rfl
          · next hother => rw [lastIn_cons, if_neg hother, Option.or_none]
      · next hkey =>
        cases hnext
        refine ⟨?_, fun other => ?_⟩
        · rw [hnamed, lastIn_cons, if_neg (Ne.symm hkey), Option.or_none]
        · rw [hproperties other, Std.ExtTreeMap.getElem?_insert, lastIn_cons]
          by_cases hother : other = key
          · subst hother
            rw [if_neg hkey, if_neg hkey, if_pos rfl, if_pos (Std.LawfulEqCmp.compare_eq_iff_eq.mpr rfl),
              Option.or_assoc]
            rfl
          · rw [if_neg hother, Option.or_none,
              if_neg fun heq => hother (Std.LawfulEqCmp.compare_eq_iff_eq.mp heq).symm]

theorem mem_propertiesIn {raws : List String} {key value : String} :
    (key, value) ∈ propertiesIn raws ↔ ∃ raw ∈ raws, readLine raw = .property key value := by
  unfold propertiesIn
  rw [List.mem_filterMap]
  refine exists_congr fun raw => and_congr_right fun _ => ?_
  cases readLine raw with
  | property other given =>
    simp only [Option.some.injEq, Prod.mk.injEq, Line.property.injEq]
  | blank => exact iff_of_false nofun nofun
  | comment text => exact iff_of_false nofun nofun
  | malformed text => exact iff_of_false nofun nofun

theorem takeLines_comments {name : String} {number : Nat} {raws : List String}
    {contents final : Contents} (h : takeLines name number raws contents = .ok final)
    (hraws : ∀ raw ∈ raws, ∀ text, readLine raw ≠ .comment text) :
    final.comments = contents.comments := by
  induction raws generalizing number contents with
  | nil =>
    cases h
    rfl
  | cons raw rest ih =>
    obtain ⟨hraw, hrest⟩ := List.forall_mem_cons.mp hraws
    unfold takeLines at h
    obtain ⟨next, hnext, h⟩ := ok_of_bind h
    rw [ih h hrest]
    cases hline : readLine raw with
    | malformed text =>
      rw [hline] at hnext
      cases hnext
    | blank =>
      rw [hline] at hnext
      cases hnext
      rfl
    | comment text => exact absurd hline (hraw text)
    | property key value =>
      rw [hline, takeLine_property] at hnext
      split at hnext <;> cases hnext <;> rfl

theorem read_eq_ok {name content named : String} {contents : Contents} :
    read name content = .ok (named, contents) ↔
      takeLines name 1 (lines content) {} = .ok contents ∧ contents.named = some named := by
  unfold read
  cases takeLines name 1 (lines content) {} with
  | error refusal =>
    refine iff_of_false (fun h => ?_) (fun h => ?_)
    · cases h
    · cases h.1
  | ok final =>
    simp only [bind, Except.bind]
    cases hnamed : final.named with
    | none =>
      refine iff_of_false (fun h => ?_) ?_
      · cases h
      · rintro ⟨heq, hsome⟩
        cases heq
        rw [hnamed] at hsome
        cases hsome
    | some given =>
      simp only [pure, Except.pure, Except.ok.injEq, Prod.mk.injEq]
      constructor
      · rintro ⟨rfl, rfl⟩
        exact ⟨rfl, hnamed⟩
      · rintro ⟨rfl, hsome⟩
        rw [hnamed] at hsome
        exact ⟨Option.some.inj hsome, rfl⟩

/-! ### Files with a line for each property -/

/-- A file with a line for each property. -/
def fileOf (properties : List (String × String)) : String :=
  "\n".intercalate (properties.map lineOf) ++ "\n"

theorem toList_lineOf (property : String × String) :
    (lineOf property).toList = JavaProperties.lineOf (chars property) := by
  rw [lineOf, String.toList_append, String.toList_append, List.append_assoc]
  rfl

theorem toList_fileOf {properties : List (String × String)} (h : properties ≠ []) :
    (fileOf properties).toList = (properties.map chars).flatMap fun property =>
      JavaProperties.lineOf property ++ ['\n'] := by
  unfold fileOf
  induction properties with
  | nil => exact absurd rfl h
  | cons property rest ih =>
    rw [List.map_cons, List.map_cons, List.flatMap_cons, ← toList_lineOf]
    cases rest with
    | nil =>
      rw [List.map_nil, List.map_nil, String.intercalate_singleton, String.toList_append,
        List.flatMap_nil, List.append_nil]
      rfl
    | cons other rest =>
      have hrest := ih (List.cons_ne_nil _ _)
      rw [List.map_cons] at hrest
      rw [List.map_cons, String.intercalate_cons_cons, String.append_assoc, String.append_assoc,
        String.toList_append, String.toList_append, hrest, List.append_assoc]
      rfl

/-- Lines without a line break are the lines of the file. -/
theorem lines_fileOf {properties : List (String × String)} (h : properties ≠ [])
    (hlines : ∀ property ∈ properties, ∀ c ∈ (lineOf property).toList, isLineBreak c = false) :
    lines (fileOf properties) = properties.map lineOf := by
  have hsplit : splitLines ((properties.map chars).flatMap fun property =>
      JavaProperties.lineOf property ++ ['\n']) = properties.map fun property =>
        (lineOf property).toList := by
    clear h
    induction properties with
    | nil => rfl
    | cons property rest ih =>
      obtain ⟨hfirst, hrest⟩ := List.forall_mem_cons.mp hlines
      rw [List.map_cons, List.flatMap_cons, List.append_assoc, ← toList_lineOf,
        List.singleton_append, splitLines_line hfirst, ih hrest, List.map_cons]
  rw [lines, toList_fileOf h, hsplit, List.map_map]
  exact List.map_congr_left fun property _ => String.ofList_toList

theorem Written.line {property : String × String} (h : Written (chars property)) :
    ∀ c ∈ (lineOf property).toList, isLineBreak c = false := by
  intro c hc
  rw [toList_lineOf] at hc
  rcases List.mem_append.mp hc with hc | hc
  · exact h.keyLine c hc
  · rcases List.mem_cons.mp hc with rfl | hc
    · rfl
    · exact h.valueLine c hc

theorem propertiesIn_written {properties : List (String × String)}
    (h : ∀ property ∈ properties, Written (chars property)) :
    propertiesIn (properties.map lineOf) = properties := by
  induction properties with
  | nil => rfl
  | cons property rest ih =>
    obtain ⟨hfirst, hrest⟩ := List.forall_mem_cons.mp h
    rw [List.map_cons, propertiesIn_cons, readLine_written hfirst, ih hrest]

section files

variable {name named : String} {properties : Std.ExtTreeMap String String}

theorem nodup_keys_toList (properties : Std.ExtTreeMap String String) :
    (properties.toList.map Prod.fst).Nodup := by
  refine List.pairwise_map.mpr (Std.ExtTreeMap.distinct_keys_toList.imp fun hne heq => hne ?_)
  exact Std.LawfulEqCmp.compare_eq_iff_eq.mpr heq

theorem lastIn_toList (properties : Std.ExtTreeMap String String) (key : String) :
    lastIn properties.toList key = properties[key]? := by
  refine Option.ext fun value => ?_
  rw [lastIn, JavaProperties.lookup_reverse_eq_some (nodup_keys_toList properties),
    Std.ExtTreeMap.mem_toList_iff_getElem?_eq_some]

/-- The lines of the file are read as what was written exactly where everything is read as it was
written, and nothing else is called what names the file. -/
theorem read_fileOf_iff (hnamed : Written (chars (name, named))) :
    read name (fileOf ((name, named) :: properties.toList)) =
        .ok (named, { named := some named, properties := properties }) ↔
      ∀ key value, properties[key]? = some value → key ≠ name ∧ Written (chars (key, value)) := by
  rw [read_eq_ok, and_iff_left rfl]
  constructor
  · intro h key value hvalue
    have hlast := (takeLines_last h).2 key
    dsimp only at hlast
    rw [hvalue] at hlast
    by_cases hkey : key = name
    · rw [if_pos hkey] at hlast
      simp at hlast
    · rw [if_neg hkey] at hlast
      refine ⟨hkey, ?_⟩
      -- some line is read as this property, whichever it was written in
      have hsome : lastIn (propertiesIn (lines (fileOf ((name, named) :: properties.toList)))) key =
          some value := by
        rw [hlast]
        simp
      obtain ⟨raw, hraw, hread⟩ :=
        mem_propertiesIn.mp (JavaProperties.mem_of_lookup_reverse hsome)
      obtain ⟨line, hline, rfl⟩ := List.mem_map.mp hraw
      refine written_of_readLine ?_ hread
      rw [String.toList_ofList]
      exact not_isLineBreak_of_mem hline
  · intro h
    have hall : ∀ property ∈ (name, named) :: properties.toList, Written (chars property) :=
      List.forall_mem_cons.mpr ⟨hnamed, fun property hproperty =>
        (h _ _ (Std.ExtTreeMap.mem_toList_iff_getElem?_eq_some.mp hproperty)).2⟩
    have hlines := lines_fileOf (List.cons_ne_nil _ _) fun property hproperty =>
      (hall property hproperty).line
    have hread : ∀ raw ∈ ((name, named) :: properties.toList).map lineOf, ∃ key value,
        readLine raw = .property key value := by
      intro raw hraw
      obtain ⟨property, hproperty, rfl⟩ := List.mem_map.mp hraw
      exact ⟨_, _, readLine_written (hall property hproperty)⟩
    rw [hlines]
    obtain ⟨final, hfinal⟩ := takeLines_ok (fun raw hraw text => by
      obtain ⟨key, value, hproperty⟩ := hread raw hraw
      rw [hproperty]
      nofun) name 1 {}
    have hcomments := takeLines_comments hfinal fun raw hraw text => by
      obtain ⟨key, value, hproperty⟩ := hread raw hraw
      rw [hproperty]
      nofun
    obtain ⟨hname, hproperties⟩ := takeLines_last hfinal
    rw [propertiesIn_written hall] at hname hproperties
    -- no later line takes the place of the one that names the file
    have hnone : properties[name]? = none := by
      cases hfound : properties[name]? with
      | none => rfl
      | some value => exact absurd rfl (h name value hfound).1
    rw [hfinal]
    refine congrArg Except.ok ?_
    obtain ⟨given, found, comments⟩ := final
    dsimp only at hcomments hname hproperties
    rw [lastIn_cons, if_pos rfl, lastIn_toList, hnone] at hname
    have hfound : found = properties := by
      refine Std.ExtTreeMap.ext_getElem? fun key => ?_
      rw [hproperties key]
      by_cases hkey : key = name
      · rw [if_pos hkey, hkey, hnone]
        simp
      · rw [if_neg hkey, lastIn_cons, if_neg hkey, lastIn_toList]
        simp
    rw [hcomments, hname, hfound]
    rfl

/-- What is read as it was written has no blank in front that Java would drop. -/
theorem Written.trimmed {property : List Char × List Char} (h : Written property) :
    JavaProperties.Trimmed property where
  key := h.equals
  line := dropWhile_of_strip (strip_around rfl h.key h.value)
  value := dropWhile_of_strip h.value

theorem Written.notNewline {property : List Char × List Char} (h : Written property) :
    ∀ c ∈ JavaProperties.lineOf property, JavaProperties.isNewline c = false := by
  intro c hc
  rcases List.mem_append.mp hc with hc | hc
  · exact isLineBreak_isNewline (h.keyLine c hc)
  · rcases List.mem_cons.mp hc with rfl | hc
    · rfl
    · exact isLineBreak_isNewline (h.valueLine c hc)

/-- What Java loads of the file, where it is read as it was written. -/
theorem loads_fileOf_iff (hnamed : Written (chars (name, named)))
    (h : ∀ key value, properties[key]? = some value → key ≠ name ∧ Written (chars (key, value))) :
    JavaProperties.Loads (fileOf ((name, named) :: properties.toList))
        (((name, named) :: properties.toList).map chars) ↔
      ∀ property ∈ ((name, named) :: properties.toList).map chars, JavaProperties.Plain property := by
  have hall : ∀ property ∈ ((name, named) :: properties.toList).map chars, Written property := by
    intro property hproperty
    obtain ⟨⟨key, value⟩, hmem, rfl⟩ := List.mem_map.mp hproperty
    rcases List.mem_cons.mp hmem with heq | hmem
    · cases heq
      exact hnamed
    · exact (h _ _ (Std.ExtTreeMap.mem_toList_iff_getElem?_eq_some.mp hmem)).2
  refine JavaProperties.loads_file_iff (toList_fileOf (List.cons_ne_nil _ _))
    (fun property hproperty => (hall property hproperty).notNewline) ?_
    fun property hproperty => (hall property hproperty).trimmed
  have hkeys : (((name, named) :: properties.toList).map Prod.fst).Nodup := by
    rw [List.map_cons, List.nodup_cons]
    refine ⟨fun hmem => ?_, nodup_keys_toList properties⟩
    obtain ⟨⟨key, value⟩, hproperty, rfl⟩ := List.mem_map.mp hmem
    exact (h _ _ (Std.ExtTreeMap.mem_toList_iff_getElem?_eq_some.mp hproperty)).1 rfl
  have hchars : (((name, named) :: properties.toList).map chars).map Prod.fst =
      (((name, named) :: properties.toList).map Prod.fst).map String.toList := by
    rw [List.map_map, List.map_map]
    rfl
  rw [hchars]
  exact List.Nodup.map (fun _ _ heq => String.toList_inj.mp heq) hkeys

/-- A property that both readers take as it was written. -/
structure Faithful (name key value : String) : Prop where
  other : key ≠ name
  written : Written (chars (key, value))
  plain : JavaProperties.Plain (chars (key, value))

/-- A file is read and loaded as what was written exactly where every property is faithful. -/
theorem agree_iff (hwritten : Written (chars (name, named)))
    (hplain : JavaProperties.Plain (chars (name, named))) :
    (read name (fileOf ((name, named) :: properties.toList)) =
        .ok (named, { named := some named, properties := properties }) ∧
      JavaProperties.Loads (fileOf ((name, named) :: properties.toList))
        (((name, named) :: properties.toList).map chars)) ↔
      ∀ key value, properties[key]? = some value → Faithful name key value := by
  rw [read_fileOf_iff hwritten]
  constructor
  · rintro ⟨hread, hloads⟩ key value hvalue
    obtain ⟨hother, hkept⟩ := hread key value hvalue
    refine ⟨hother, hkept, ?_⟩
    have hmem : chars (key, value) ∈ ((name, named) :: properties.toList).map chars :=
      List.mem_map_of_mem (List.mem_cons_of_mem _
        (Std.ExtTreeMap.mem_toList_iff_getElem?_eq_some.mpr hvalue))
    exact (loads_fileOf_iff hwritten hread).mp hloads _ hmem
  · intro h
    have hread : ∀ key value, properties[key]? = some value →
        key ≠ name ∧ Written (chars (key, value)) := fun key value hvalue =>
      ⟨(h key value hvalue).other, (h key value hvalue).written⟩
    refine ⟨hread, (loads_fileOf_iff hwritten hread).mpr fun property hproperty => ?_⟩
    obtain ⟨⟨key, value⟩, hmem, rfl⟩ := List.mem_map.mp hproperty
    rcases List.mem_cons.mp hmem with heq | hmem
    · cases heq
      exact hplain
    · exact (h _ _ (Std.ExtTreeMap.mem_toList_iff_getElem?_eq_some.mp hmem)).plain

end files

/-! ### What a value may be replaced by -/

/-- A text neither reader takes anything from as a value. -/
structure Kept (text : List Char) : Prop where
  strip : PyText.strip text = text
  line : ∀ c ∈ text, isLineBreak c = false
  escape : '\\' ∉ text

theorem Kept.anyBreak {text : List Char} (h : Kept text) : text.any isLineBreak = false :=
  List.any_eq_false.mpr fun c hc => ne_true_of_eq_false (h.line c hc)

theorem Kept.anyEscape {text : List Char} (h : Kept text) : text.any (· == '\\') = false := by
  rw [List.any_eq_false]
  intro c hc heq
  exact h.escape (eq_of_beq heq ▸ hc)

theorem Faithful.kept {name key value : String} (h : Faithful name key value) : Kept value.toList :=
  ⟨h.written.value, h.written.valueLine, h.plain.value⟩

/-- Whether its value is kept is all there is to a property beyond its key. -/
theorem Faithful.replace {name key value other : String} (h : Faithful name key value)
    (hother : Kept other.toList) : Faithful name key other where
  other := h.other
  written := ⟨h.written.key, hother.strip, h.written.equals, h.written.start, h.written.keyLine,
    hother.line⟩
  plain := by
    refine ⟨h.plain.key, ?_, hother.escape⟩
    have hstart := h.plain.start
    unfold JavaProperties.lineOf chars at hstart ⊢
    dsimp only at hstart ⊢
    cases hkey : key.toList with
    | nil => rfl
    | cons c rest =>
      rw [hkey] at hstart
      exact hstart

/-- Two texts that begin and end alike, and have the same to be taken apart. -/
structure Alike (text other : List Char) : Prop where
  first : text.head?.any isBlank = other.head?.any isBlank
  last : text.getLast?.any isBlank = other.getLast?.any isBlank
  empty : text = [] ↔ other = []
  line : text.any isLineBreak = other.any isLineBreak
  escape : text.any (· == '\\') = other.any (· == '\\')

theorem Alike.refl (text : List Char) : Alike text text := ⟨rfl, rfl, Iff.rfl, rfl, rfl⟩

theorem Alike.symm {text other : List Char} (h : Alike text other) : Alike other text :=
  ⟨h.first.symm, h.last.symm, h.empty.symm, h.line.symm, h.escape.symm⟩

theorem Alike.append {text other rest others : List Char} (h : Alike text other)
    (hrest : Alike rest others) : Alike (text ++ rest) (other ++ others) where
  first := by
    cases text with
    | nil =>
      rw [h.empty.mp rfl]
      exact hrest.first
    | cons c text =>
      cases other with
      | nil => exact absurd (h.empty.mpr rfl) (List.cons_ne_nil _ _)
      | cons d other => exact h.first
  last := by
    rw [List.getLast?_append, List.getLast?_append]
    by_cases hnil : rest = []
    · rw [hnil, hrest.empty.mp hnil]
      exact h.last
    · have hlast := hrest.last
      rw [List.getLast?_eq_some_getLast hnil,
        List.getLast?_eq_some_getLast fun heq => hnil (hrest.empty.mpr heq)] at hlast ⊢
      exact hlast
  empty := by rw [List.append_eq_nil_iff, List.append_eq_nil_iff, h.empty, hrest.empty]
  line := by rw [List.any_append, List.any_append, h.line, hrest.line]
  escape := by rw [List.any_append, List.any_append, h.escape, hrest.escape]

theorem strip_eq_self_iff {text : List Char} : PyText.strip text = text ↔
    text.head?.any isBlank = false ∧ text.getLast?.any isBlank = false := by
  constructor
  · intro h
    obtain ⟨hleft, hright⟩ := ends_of_strip h
    cases text with
    | nil => exact ⟨rfl, rfl⟩
    | cons c rest =>
      refine ⟨isBlank_of_strip h, ?_⟩
      have hlast := List.rdropWhile_eq_self_iff.mp hright (List.cons_ne_nil c rest)
      rw [List.getLast?_eq_some_getLast (List.cons_ne_nil c rest)]
      exact eq_false_of_ne_true hlast
  · rintro ⟨hfirst, hlast⟩
    have hleft : text.dropWhile isBlank = text := by
      cases text with
      | nil => rfl
      | cons c rest =>
        exact List.dropWhile_cons_of_neg (by rw [show isBlank c = false from hfirst]; decide)
    unfold PyText.strip
    rw [hleft]
    refine List.rdropWhile_eq_self_iff.mpr fun hnil => ?_
    rw [List.getLast?_eq_some_getLast hnil] at hlast
    exact ne_true_of_eq_false hlast

theorem Alike.kept_iff {text other : List Char} (h : Alike text other) : Kept text ↔ Kept other := by
  have hone {xs ys : List Char} (h : Alike xs ys) (hkept : Kept xs) : Kept ys := by
    refine ⟨?_, ?_, ?_⟩
    · rw [strip_eq_self_iff, ← h.first, ← h.last]
      exact strip_eq_self_iff.mp hkept.strip
    · have hnone := hkept.anyBreak
      rw [h.line, List.any_eq_false] at hnone
      exact fun c hc => eq_false_of_ne_true (hnone c hc)
    · have hnone := hkept.anyEscape
      rw [h.escape, List.any_eq_false] at hnone
      exact fun hmem => hnone _ hmem (beq_self_eq_true _)
  exact ⟨hone h, hone h.symm⟩

/-- What is kept may stand for anything else that is kept. -/
theorem Kept.alike {text other : List Char} (h : Kept text) (hother : Kept other)
    (hnil : text ≠ []) (hne : other ≠ []) : Alike text other where
  first := (strip_eq_self_iff.mp h.strip).1.trans (strip_eq_self_iff.mp hother.strip).1.symm
  last := (strip_eq_self_iff.mp h.strip).2.trans (strip_eq_self_iff.mp hother.strip).2.symm
  empty := iff_of_false hnil hne
  line := h.anyBreak.trans hother.anyBreak.symm
  escape := h.anyEscape.trans hother.anyEscape.symm

theorem Alike.faithful_iff {name key value other : String} (h : Alike value.toList other.toList) :
    Faithful name key value ↔ Faithful name key other :=
  ⟨fun hvalue => hvalue.replace (h.kept_iff.mp hvalue.kept),
    fun hother => hother.replace (h.kept_iff.mpr hother.kept)⟩

/-! ### Names -/

/-- A character no reader takes apart or passes over, wherever it stands. -/
def isTidy (c : Char) : Bool := c.isAlphanum || c == '.' || c == '_' || c == '-'

/-- What a tidy character is not. -/
structure Tidy (c : Char) : Prop where
  blank : isBlank c = false
  line : isLineBreak c = false
  ends : JavaProperties.endsKey c = false
  other : c ∉ ['\\', '#', '!', '=']

theorem tidy_of_isTidy {c : Char} (h : isTidy c = true) : Tidy c := by
  unfold isTidy at h
  simp only [Bool.or_eq_true, beq_iff_eq] at h
  rcases h with ((h | rfl) | rfl) | rfl
  · delta Char.isAlphanum Char.isAlpha Char.isUpper Char.isLower Char.isDigit at h
    simp only [Bool.or_eq_true, Bool.and_eq_true, decide_eq_true_eq, UInt32.le_iff_toNat_le,
      ge_iff_le] at h
    have hval : c.toNat = c.val.toNat := rfl
    have hne (d : Char) (hd : d.toNat < 48 ∨ 57 < d.toNat ∧ d.toNat < 65 ∨
        90 < d.toNat ∧ d.toNat < 97) : c ≠ d := by
      rintro rfl
      simp at h
      omega
    constructor
    · unfold isBlank
      simp at h ⊢
      omega
    · unfold isLineBreak
      simp at h ⊢
      omega
    · unfold JavaProperties.endsKey JavaProperties.isBlank
      simp [hne '=' (by decide), hne ':' (by decide), hne ' ' (by decide), hne '\t' (by decide),
        hne '\x0c' (by decide)]
    · simp [hne '=' (by decide), hne '\\' (by decide), hne '#' (by decide), hne '!' (by decide)]
  · exact ⟨rfl, rfl, rfl, by decide⟩
  · exact ⟨rfl, rfl, rfl, by decide⟩
  · exact ⟨rfl, rfl, rfl, by decide⟩

/-- A text with no blank in it, and nothing that is taken apart. -/
theorem kept_of_forall {text : List Char} (hblank : ∀ c ∈ text, isBlank c = false)
    (hline : ∀ c ∈ text, isLineBreak c = false) (hescape : '\\' ∉ text) : Kept text where
  strip := by
    rw [strip_eq_self_iff]
    constructor
    · cases htext : text.head? with
      | none => rfl
      | some c => exact hblank c (List.mem_of_head? htext)
    · cases htext : text.getLast? with
      | none => rfl
      | some c => exact hblank c (List.mem_of_getLast? htext)
  line := hline
  escape := hescape

theorem kept_of_tidy {text : List Char} (h : ∀ c ∈ text, isTidy c = true) : Kept text :=
  kept_of_forall (fun c hc => (tidy_of_isTidy (h c hc)).blank)
    (fun c hc => (tidy_of_isTidy (h c hc)).line)
    fun hmem => (tidy_of_isTidy (h _ hmem)).other (by decide)

/-- Under a tidy key it is the value alone that decides. -/
theorem faithful_tidy_iff {name key value : String} (hkey : ∀ c ∈ key.toList, isTidy c = true)
    (hother : key ≠ name) : Faithful name key value ↔ Kept value.toList := by
  refine ⟨Faithful.kept, fun hvalue => ⟨hother, ?_, ?_⟩⟩
  · refine ⟨(kept_of_tidy hkey).strip, hvalue.strip, fun hmem => ?_, fun hhead => ?_,
      (kept_of_tidy hkey).line, hvalue.line⟩
    · exact (tidy_of_isTidy (hkey _ hmem)).other (by decide)
    · exact (tidy_of_isTidy (hkey _ (List.mem_of_head? hhead))).other (by decide)
  · refine ⟨fun c hc => ⟨(tidy_of_isTidy (hkey c hc)).ends, fun heq => ?_⟩, ?_, hvalue.escape⟩
    · exact (tidy_of_isTidy (hkey c hc)).other (heq ▸ List.mem_cons_self)
    · have htidy : ∀ c ∈ key.toList.head?, Tidy c := fun c hc =>
        tidy_of_isTidy (hkey c (List.mem_of_head? hc))
      unfold JavaProperties.lineOf chars
      dsimp only
      cases hlist : key.toList with
      | nil => rfl
      | cons c rest =>
        have hother := (htidy c (by rw [hlist]; rfl)).other
        simp only [List.mem_cons, List.not_mem_nil, or_false, not_or] at hother
        simp [JavaProperties.isIgnored, hother.2.1, hother.2.2.1]

/-- A line that names a file is read and loaded as it is meant. -/
theorem named_of_tidy {name named : String} (hname : ∀ c ∈ name.toList, isTidy c = true)
    (hnamed : ∀ c ∈ named.toList, isTidy c = true) :
    Written (chars (name, named)) ∧ JavaProperties.Plain (chars (name, named)) := by
  have hother : name ≠ name ++ "=" := by
    intro h
    have hlength := congrArg String.length h
    simp at hlength
  have hfaithful := (faithful_tidy_iff hname hother).mpr (kept_of_tidy hnamed)
  exact ⟨hfaithful.written, hfaithful.plain⟩

end Properties

end Lib

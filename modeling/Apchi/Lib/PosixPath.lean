import Mathlib.Data.List.Induction
import Mathlib.Tactic.Common

/-!
# Paths as Python's `PurePosixPath` takes them apart

A path is a root and the names under it; empty names and `.` are dropped, `..` is kept.
-/

namespace Lib

/-- A path: its root (`""`, `"/"` or `"//"`) and the names under it. -/
structure PosixPath where
  root : String
  parts : List String
  deriving DecidableEq, Repr

namespace PosixPath

/-- The names between the slashes of a text. -/
def splitSlash : List Char → List (List Char)
  | [] => [[]]
  | c :: cs =>
      if c = '/' then [] :: splitSlash cs
      else match splitSlash cs with
        | [] => [[c]]
        | name :: names => (c :: name) :: names

/-- Exactly two leading slashes are a root of their own; any other number is one. -/
def rootOf : List Char → String
  | '/' :: '/' :: '/' :: _ => "/"
  | '/' :: '/' :: _ => "//"
  | '/' :: _ => "/"
  | _ => ""

theorem rootOf_slash (text : List Char) : rootOf ('/' :: text) ≠ "" := by
  unfold rootOf
  split <;> simp_all

/-- `PurePosixPath(text)`. -/
def ofString (text : String) : PosixPath where
  root := rootOf text.toList
  parts := ((splitSlash text.toList).map String.ofList).filter fun name =>
    name ≠ "" ∧ name ≠ "."

/-- The last name, empty when there is none. -/
def name (path : PosixPath) : String := path.parts.getLast?.getD ""

/-- The path without its last name. -/
def parent (path : PosixPath) : PosixPath := { path with parts := path.parts.dropLast }

/-- `str(path)`. -/
def toText (path : PosixPath) : String :=
  if path.root = "" ∧ path.parts = [] then "." else path.root ++ "/".intercalate path.parts

/-- `is_absolute`. -/
def isAbsolute (path : PosixPath) : Bool := path.root ≠ ""

/-- `is_relative_to`: at the other path or below it, as it is written. -/
def isRelativeTo (path other : PosixPath) : Bool :=
  path.root = other.root && other.parts.isPrefixOf path.parts

/-- The names, `..` undone against the name before it. -/
def resolveParts (parts : List String) : List String :=
  parts.foldl (fun file name => if name = ".." then file.dropLast else file ++ [name]) []

/-- The file an absolute path denotes. -/
def resolved (path : PosixPath) : PosixPath := { path with parts := resolveParts path.parts }

/-! ### Names -/

theorem splitSlash_ne_nil (text : List Char) : splitSlash text ≠ [] := by
  induction text with
  | nil => simp [splitSlash]
  | cons c cs _ =>
    unfold splitSlash
    split
    · simp
    · split <;> simp

/-- What has no slash goes on with the last name. -/
theorem splitSlash_append {tail : List Char} (htail : '/' ∉ tail) (text : List Char) :
    ∃ init last, splitSlash text = init ++ [last] ∧
      splitSlash (text ++ tail) = init ++ [last ++ tail] := by
  induction text with
  | nil =>
    refine ⟨[], [], rfl, ?_⟩
    induction tail with
    | nil => rfl
    | cons c cs ih =>
      obtain ⟨hc, hcs⟩ := List.ne_and_not_mem_of_not_mem_cons htail
      have hsplit : splitSlash cs = [cs] := ih hcs
      simp [splitSlash, hc.symm, hsplit]
  | cons c cs ih =>
    obtain ⟨init, last, htext, happend⟩ := ih
    by_cases hc : c = '/'
    · exact ⟨[] :: init, last, by simp [splitSlash, hc, htext], by simp [splitSlash, hc, happend]⟩
    · cases init with
      | nil => exact ⟨[], c :: last, by simp [splitSlash, hc, htext],
          by simp [splitSlash, hc, happend]⟩
      | cons name names => exact ⟨(c :: name) :: names, last, by simp [splitSlash, hc, htext],
          by simp [splitSlash, hc, happend]⟩

/-- A slash ends a name. -/
theorem splitSlash_slash (text rest : List Char) :
    splitSlash (text ++ '/' :: rest) = splitSlash text ++ splitSlash rest := by
  induction text with
  | nil => rfl
  | cons c cs ih =>
    by_cases hc : c = '/'
    · simp [splitSlash, hc, ih]
    · simp only [List.cons_append, splitSlash, if_neg hc, ih]
      cases h : splitSlash cs with
      | nil => exact absurd h (splitSlash_ne_nil cs)
      | cons name names => rfl

theorem splitSlash_of_not_mem {name : List Char} (h : '/' ∉ name) : splitSlash name = [name] := by
  obtain ⟨init, last, hnil, happend⟩ := splitSlash_append h []
  cases init with
  | nil =>
    obtain rfl : last = [] := by simpa [splitSlash] using hnil.symm
    exact happend
  | cons first rest => simp [splitSlash] at hnil

theorem slash_not_mem_splitSlash {text name : List Char} (h : name ∈ splitSlash text) :
    '/' ∉ name := by
  induction text generalizing name with
  | nil => simp_all [splitSlash]
  | cons c cs ih =>
    unfold splitSlash at h
    split at h
    · rcases List.mem_cons.mp h with rfl | hmem
      · simp
      · exact ih hmem
    · next hc =>
      split at h
      · simp_all [Ne.symm]
      · next first rest hsplit =>
        rcases List.mem_cons.mp h with rfl | hmem
        · have := ih (hsplit ▸ List.mem_cons_self : first ∈ splitSlash cs)
          simpa [Ne.symm hc] using this
        · exact ih (hsplit ▸ List.mem_cons_of_mem _ hmem)

/-- The name a path keeps of what stands between two slashes. -/
def kept (name : List Char) : List String := if name = [] ∨ name = ['.'] then [] else [.ofList name]

theorem filter_ofList (name : List Char) :
    [String.ofList name].filter (fun name => name ≠ "" ∧ name ≠ ".") = kept name := by
  have hempty : String.ofList name = "" ↔ name = [] := by
    rw [← String.ofList_toList (s := ""), String.ofList_inj]
    rfl
  have hdot : String.ofList name = "." ↔ name = ['.'] := by
    rw [← String.ofList_toList (s := "."), String.ofList_inj]
    rfl
  by_cases h : name = [] ∨ name = ['.']
  · rcases h with rfl | rfl <;> decide
  · simp only [kept, if_neg h]
    simp [hempty, hdot, not_or.mp h]

/-- The name after the last slash is the last one of the path. -/
theorem parts_slash (text : List Char) {name : List Char} (h : '/' ∉ name) :
    (ofString (.ofList (text ++ '/' :: name))).parts = (ofString (.ofList text)).parts ++ kept name := by
  simp only [ofString, String.toList_ofList, splitSlash_slash, splitSlash_of_not_mem h,
    List.map_append, List.filter_append, List.map_cons, List.map_nil, filter_ofList]

/-- The root does not depend on the last name. -/
theorem root_slash (text : List Char) {name name' : List Char} (h : '/' ∉ name) (h' : '/' ∉ name') :
    (ofString (.ofList (text ++ '/' :: name))).root =
      (ofString (.ofList (text ++ '/' :: name'))).root := by
  have htwo : ∀ n : List Char, '/' ∉ n → rootOf ('/' :: '/' :: n) = "//" := fun n hn => by
    cases n with
    | nil => rfl
    | cons c cs => simp [rootOf, Ne.symm (List.ne_of_not_mem_cons hn)]
  have hone : ∀ n : List Char, '/' ∉ n → rootOf ('/' :: n) = "/" := fun n hn => by
    cases n with
    | nil => rfl
    | cons c cs => simp [rootOf, Ne.symm (List.ne_of_not_mem_cons hn)]
  simp only [ofString, String.toList_ofList]
  rcases text with _ | ⟨a, _ | ⟨b, rest⟩⟩
  · rw [List.nil_append, List.nil_append, hone name h, hone name' h']
  · by_cases ha : a = '/'
    · subst ha
      exact (htwo name h).trans (htwo name' h').symm
    · simp [rootOf, ha]
  · by_cases hab : a = '/' ∧ b = '/'
    · obtain ⟨rfl, rfl⟩ := hab
      rcases rest with _ | ⟨c, rest⟩
      · rfl
      · by_cases hc : c = '/' <;> simp [rootOf, hc]
    · by_cases ha : a = '/' <;> simp_all [rootOf]

/-! ### Paths that stand for themselves -/

/-- What `PurePosixPath` makes: a root of at most two slashes, and names that are names. -/
structure WellFormed (path : PosixPath) : Prop where
  root : path.root = "" ∨ path.root = "/" ∨ path.root = "//"
  names : ∀ name ∈ path.parts, '/' ∉ name.toList ∧ name ≠ "" ∧ name ≠ "."

theorem wellFormed_ofString (text : String) : (ofString text).WellFormed where
  root := by
    simp only [ofString]
    unfold rootOf
    split <;> simp
  names name hname := by
    obtain ⟨hmem, hne⟩ := List.mem_filter.mp hname
    obtain ⟨raw, hraw, rfl⟩ := List.mem_map.mp hmem
    exact ⟨by simpa using slash_not_mem_splitSlash hraw, by simpa using hne⟩

/-- Names put together with slashes are taken apart into the same names. -/
theorem splitSlash_intercalate {names : List String} (hne : names ≠ [])
    (hnames : ∀ name ∈ names, '/' ∉ name.toList) :
    splitSlash ("/".intercalate names).toList = names.map String.toList := by
  induction names with
  | nil => exact absurd rfl hne
  | cons name rest ih =>
    have hname := hnames name List.mem_cons_self
    cases rest with
    | nil => simp [splitSlash_of_not_mem hname]
    | cons next others =>
      have hrest := ih (by simp) fun name hmem => hnames name (List.mem_cons_of_mem _ hmem)
      rw [String.intercalate_cons_cons]
      simp only [String.toList_append, List.append_assoc]
      rw [show "/".toList = ['/'] from rfl, List.singleton_append, splitSlash_slash, hrest,
        splitSlash_of_not_mem hname]
      rfl

/-- A text split into the names and empty ones before them is read as the names. -/
theorem parts_of_splitSlash {text : String} {names : List String} (slashes : Nat)
    (hsplit : splitSlash text.toList = List.replicate slashes [] ++ names.map String.toList)
    (hnames : ∀ name ∈ names, name ≠ "" ∧ name ≠ ".") : (ofString text).parts = names := by
  have hkept : ((names.map String.toList).map String.ofList).filter
      (fun name => name ≠ "" ∧ name ≠ ".") = names := by
    rw [List.map_map, List.filter_eq_self.mpr]
    · exact (List.map_congr_left fun name _ => String.ofList_toList).trans names.map_id
    · intro name hname
      obtain ⟨kept, hkept, rfl⟩ := List.mem_map.mp hname
      simpa using hnames kept hkept
  simp only [ofString, hsplit, List.map_append, List.filter_append, hkept]
  simp

/-- The text of a path's names begins with no slash. -/
theorem intercalate_toList {name : String} (rest : List String)
    (hname : '/' ∉ name.toList ∧ name ≠ "") :
    ∃ c cs, ("/".intercalate (name :: rest)).toList = c :: cs ∧ c ≠ '/' := by
  obtain ⟨c, cs, hchars⟩ := List.exists_cons_of_ne_nil
    (fun h => hname.2 (String.toList_eq_nil_iff.mp h) : name.toList ≠ [])
  have hc : c ≠ '/' := fun h => hname.1 (by simp [hchars, h])
  cases rest with
  | nil => exact ⟨c, cs, by simp [hchars], hc⟩
  | cons next others =>
    refine ⟨c, cs ++ ("/" ++ "/".intercalate (next :: others)).toList, ?_, hc⟩
    rw [String.intercalate_cons_cons]
    simp [hchars]

/-- A path is read back from its own text. -/
theorem ofString_toText {path : PosixPath} (h : path.WellFormed) :
    ofString path.toText = path := by
  obtain ⟨root, parts⟩ := path
  obtain ⟨hroot, hnames⟩ := h
  dsimp only at hroot hnames
  cases parts with
  | nil =>
    rcases hroot with rfl | rfl | rfl <;> decide
  | cons name rest =>
    obtain ⟨c, cs, hchars, hc⟩ := intercalate_toList rest
      ⟨(hnames name List.mem_cons_self).1, (hnames name List.mem_cons_self).2.1⟩
    have hsplit := splitSlash_intercalate (by simp) fun n hn => (hnames n hn).1
    have hplain : ∀ n ∈ name :: rest, n ≠ "" ∧ n ≠ "." := fun n hn => (hnames n hn).2
    have hparts : ∀ slashes, splitSlash (root.toList ++ ("/".intercalate (name :: rest)).toList) =
        List.replicate slashes [] ++ (name :: rest).map String.toList →
        (ofString (toText ⟨root, name :: rest⟩)).parts = name :: rest := fun slashes hs =>
      parts_of_splitSlash slashes (by simpa [toText] using hs) hplain
    have hread : rootOf (toText ⟨root, name :: rest⟩).toList = root →
        (ofString (toText ⟨root, name :: rest⟩)).parts = name :: rest →
        ofString (toText ⟨root, name :: rest⟩) = ⟨root, name :: rest⟩ := by
      intro hroot hparts
      exact congrArg₂ PosixPath.mk hroot hparts
    rcases hroot with rfl | rfl | rfl
    · refine hread ?_ (hparts 0 (by simpa using hsplit))
      simp [toText, hchars, rootOf, hc]
    · refine hread ?_ (hparts 1 (by simpa [splitSlash] using hsplit))
      simp [toText, hchars, rootOf, hc]
    · refine hread ?_ (hparts 2 (by simpa [splitSlash] using hsplit))
      simp [toText, hchars, rootOf, hc]

/-- A slash at the end of a path under the root changes nothing. -/
theorem ofString_toText_slash {name : String} {rest : List String}
    (h : WellFormed ⟨"/", name :: rest⟩) :
    ofString (toText ⟨"/", name :: rest⟩ ++ "/") = ⟨"/", name :: rest⟩ := by
  have hread := ofString_toText h
  obtain ⟨c, cs, hchars, hc⟩ := intercalate_toList rest
    ⟨(h.names name List.mem_cons_self).1, (h.names name List.mem_cons_self).2.1⟩
  have htext : (toText ⟨"/", name :: rest⟩).toList = '/' :: c :: cs := by
    simpa [toText] using hchars
  have hroot : (ofString (toText ⟨"/", name :: rest⟩ ++ "/")).root = "/" := by
    simp [ofString, htext, rootOf, hc]
  have hparts := parts_slash (toText ⟨"/", name :: rest⟩).toList List.not_mem_nil
  rw [String.ofList_toList, hread] at hparts
  have hnames : (ofString (toText ⟨"/", name :: rest⟩ ++ "/")).parts = name :: rest := by
    simpa [kept] using hparts
  exact congrArg₂ PosixPath.mk hroot hnames

theorem intercalate_concat (name last : String) (rest : List String) :
    "/".intercalate (name :: rest ++ [last]) = "/".intercalate (name :: rest) ++ ("/" ++ last) := by
  induction rest generalizing name with
  | nil => simp [String.append_assoc]
  | cons next others ih =>
    rw [List.cons_append, List.cons_append, String.intercalate_cons_cons, ← List.cons_append, ih,
      String.intercalate_cons_cons]
    simp [String.append_assoc]

/-- The text of an absolute path ends in a slash and its last name. -/
theorem WellFormed.toText_concat {root last : String} {init : List String}
    (h : WellFormed ⟨root, init ++ [last]⟩) (hroot : root ≠ "") :
    ∃ text, (toText ⟨root, init ++ [last]⟩).toList = '/' :: text ∧ ∃ front,
      '/' :: text = front ++ '/' :: last.toList ∧ (ofString (.ofList front)).parts = init := by
  have hfront : WellFormed ⟨root, init⟩ := ⟨h.root, fun name hname => h.names name (by simp [hname])⟩
  have hslash : root = "/" ∨ root = "//" := h.root.resolve_left hroot
  cases init with
  | nil =>
    rcases hslash with rfl | rfl
    · exact ⟨last.toList, by simp [toText], [], rfl, by decide⟩
    · exact ⟨'/' :: last.toList, by simp [toText], ['/'], rfl, by decide⟩
  | cons name rest =>
    have hread := congrArg PosixPath.parts (ofString_toText hfront)
    rcases hslash with rfl | rfl
    · refine ⟨("/".intercalate (name :: rest ++ [last])).toList, by simp [toText],
        (toText ⟨"/", name :: rest⟩).toList, ?_, by simpa using hread⟩
      rw [intercalate_concat]
      simp [toText]
    · refine ⟨'/' :: ("/".intercalate (name :: rest ++ [last])).toList, by simp [toText],
        (toText ⟨"//", name :: rest⟩).toList, ?_, by simpa using hread⟩
      rw [intercalate_concat]
      simp [toText]

/-! ### The file a path denotes -/

theorem resolveParts_append (parts : List String) (name : String) :
    resolveParts (parts ++ [name]) =
      if name = ".." then (resolveParts parts).dropLast else resolveParts parts ++ [name] := by
  simp [resolveParts]

/-- A path without `..` denotes itself. -/
theorem resolveParts_of_not_mem {parts : List String} (h : ".." ∉ parts) :
    resolveParts parts = parts := by
  induction parts using List.reverseRecOn with
  | nil => rfl
  | append_singleton init last ih =>
    have hlast : last ≠ ".." := fun heq => h (by simp [heq])
    rw [resolveParts_append, if_neg hlast, ih fun hmem => h (by simp [hmem])]

/-- What a path denotes is made of its names, none of them `..`. -/
theorem mem_resolveParts {parts : List String} {name : String} (h : name ∈ resolveParts parts) :
    name ∈ parts ∧ name ≠ ".." := by
  induction parts using List.reverseRecOn with
  | nil => cases h
  | append_singleton init last ih =>
    rw [resolveParts_append] at h
    split at h
    · exact ⟨by simp [(ih (List.dropLast_subset (resolveParts init) h)).1], (ih (List.dropLast_subset (resolveParts init) h)).2⟩
    · next hlast =>
      rcases List.mem_append.mp h with hinit | hlast'
      · exact ⟨by simp [(ih hinit).1], (ih hinit).2⟩
      · obtain rfl := List.mem_singleton.mp hlast'
        exact ⟨by simp, hlast⟩

@[simp] theorem resolved_root (path : PosixPath) : path.resolved.root = path.root := rfl

theorem resolved_of_not_mem {path : PosixPath} (h : ".." ∉ path.parts) : path.resolved = path := by
  unfold resolved
  rw [resolveParts_of_not_mem h]

theorem WellFormed.resolved {path : PosixPath} (h : path.WellFormed) : path.resolved.WellFormed where
  root := h.root
  names name hname := h.names name (mem_resolveParts hname).1

theorem dots_not_mem_resolved (path : PosixPath) : ".." ∉ path.resolved.parts :=
  fun h => (mem_resolveParts h).2 rfl

end PosixPath

example : (PosixPath.ofString "/etc/trino//rules.json").name = "rules.json" := by decide

end Lib

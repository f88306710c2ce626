import Mathlib.Data.List.Sort

/-!
# Reading a collection page by page

A page holds the first rows that are left and, where more follow, a cursor that names the last of
them.  Whoever passes each cursor back before the next read sees every row once, in order, as long as
a cursor stands for exactly the rows behind the one it names.
-/

namespace Lib.Keyset

variable {α κ : Type}

/-- Some rows, and the cursor to go on from where there are more. -/
structure Page (α κ : Type) where
  items : List α
  next : Option κ
deriving DecidableEq

/-- The page of at most `limit` rows, told by one row more whether it is the last. -/
def Page.of (limit : Nat) (cursor : α → κ) (found : List α) : Page α κ :=
  let items := found.take limit
  { items, next := if limit < found.length then items.getLast?.map cursor else none }

/-- Reads page after page from a cursor on, passing on what each one gives as its next, at most so
many times; nothing where a cursor is refused or the last page is never reached. -/
def walk (page : Option κ → Option (Page α κ)) : Nat → Option κ → Option (List α)
  | 0, _ => none
  | fuel + 1, before =>
      (page before).bind fun here =>
        match here.next with
        | none => some here.items
        | some cursor => (walk page fuel (some cursor)).map (here.items ++ ·)

/-- Reading from the first page on ends, and has then given every one of the rows once, in order. -/
def Visits (page : Option κ → Option (Page α κ)) (before : α → α → Prop) (rows : List α) : Prop :=
  ∃ fuel visited, walk page fuel none = some visited ∧ visited.Perm rows ∧ visited.Pairwise before

section pages

variable {page : Option κ → Option (Page α κ)} {before : α → α → Prop} {limit : Nat}
  {cursor : α → κ} {rows : List α}

/-- One row more than the limit is as good as all of them. -/
theorem Page.of_take (rows : List α) :
    Page.of limit cursor (rows.take (limit + 1)) = Page.of limit cursor rows := by
  have hitems : (rows.take (limit + 1)).take limit = rows.take limit := by
    rw [List.take_take, Nat.min_eq_left (Nat.le_succ limit)]
  have hmore : limit < (rows.take (limit + 1)).length ↔ limit < rows.length := by
    rw [List.length_take]
    omega
  simp only [Page.of, hitems, hmore]

theorem Page.of_last (h : rows.length ≤ limit) : Page.of limit cursor rows = ⟨rows, none⟩ := by
  simp only [Page.of, List.take_of_length_le h, Nat.not_lt.mpr h, if_false]

theorem Page.of_more (cursor : α → κ) (hlimit : 0 < limit) (h : limit < rows.length) :
    ∃ seen row rest, rows = seen ++ row :: rest ∧
      Page.of limit cursor rows = ⟨seen ++ [row], some (cursor row)⟩ := by
  obtain ⟨last, rfl⟩ : ∃ last, limit = last + 1 := ⟨limit - 1, by omega⟩
  have hlast : last < rows.length := by omega
  refine ⟨rows.take last, rows[last], rows.drop (last + 1), ?_, ?_⟩
  · rw [List.getElem_cons_drop, List.take_append_drop]
  · simp only [Page.of, h, if_true, List.take_succ_eq_append_getElem hlast, List.getLast?_append,
      List.getLast?_singleton, Option.some_or, Option.map_some]

/-- Where each row's cursor stands for the rows behind it, the pages from any place on are the rows
from there on. -/
theorem walk_of (page : Option κ → Option (Page α κ)) (cursor : α → κ) (hlimit : 0 < limit)
    (hnext : ∀ seen row rest, rows = seen ++ row :: rest →
      page (some (cursor row)) = some (Page.of limit cursor rest)) :
    ∀ (rest seen : List α) (place : Option κ), rows = seen ++ rest →
      page place = some (Page.of limit cursor rest) → ∃ fuel, walk page fuel place = some rest := by
  intro rest
  induction hn : rest.length using Nat.strong_induction_on generalizing rest with
  | _ n ih =>
    intro seen place hrows hpage
    by_cases hmore : limit < rest.length
    · obtain ⟨items, row, left, hrest, hof⟩ := Page.of_more cursor hlimit hmore
      have hlength : left.length < n := by
        rw [← hn, hrest]
        simp only [List.length_append, List.length_cons]
        omega
      have hsplit : rows = (seen ++ items) ++ row :: left := by
        rw [hrows, hrest, List.append_assoc]
      obtain ⟨fuel, hwalk⟩ := ih left.length hlength left rfl (seen ++ items ++ [row])
        (some (cursor row)) (by rw [hsplit, List.append_assoc _ [row], List.singleton_append])
        (hnext _ _ _ hsplit)
      refine ⟨fuel + 1, ?_⟩
      rw [walk, hpage, hof, Option.bind_some]
      simp only [hwalk, Option.map_some, hrest, List.append_assoc, List.singleton_append]
    · refine ⟨1, ?_⟩
      rw [walk, hpage, Page.of_last (by omega), Option.bind_some]

/-- Where no cursor leads anywhere, what is read is the first page. -/
theorem walk_first {fuel : Nat} {visited : List α}
    (hnext : ∀ cursor here, page (some cursor) = some here → here = ⟨[], none⟩)
    (h : walk page fuel none = some visited) : ∃ here, page none = some here ∧ here.items = visited := by
  cases fuel with
  | zero => cases h
  | succ fuel =>
    rw [walk] at h
    obtain ⟨here, hhere, h⟩ := Option.bind_eq_some_iff.mp h
    refine ⟨here, hhere, ?_⟩
    cases hcursor : here.next with
    | none =>
      simp only [hcursor] at h
      exact Option.some.inj h
    | some cursor =>
      simp only [hcursor] at h
      obtain ⟨more, hmore, hvisited⟩ := Option.map_eq_some_iff.mp h
      cases fuel with
      | zero => cases hmore
      | succ fuel =>
        rw [walk] at hmore
        obtain ⟨next, hpage, hmore⟩ := Option.bind_eq_some_iff.mp hmore
        cases hnext cursor next hpage
        rw [← hvisited, ← Option.some.inj hmore, List.append_nil]

end pages

section sorted

variable {β : Type} [LinearOrder β] {key : α → β} {rows : List α}

/-- Rows in the order of their keys, the greatest first. -/
def newestFirst (key : α → β) (rows : List α) : List α :=
  rows.insertionSort fun a b => key b ≤ key a

theorem newestFirst_perm (rows : List α) : (newestFirst key rows).Perm rows :=
  List.perm_insertionSort _ _

theorem newestFirst_pairwise (rows : List α) :
    (newestFirst key rows).Pairwise fun a b => key b ≤ key a := by
  have : Std.Total fun a b => key b ≤ key a := ⟨fun a b => le_total (key b) (key a)⟩
  have : IsTrans α fun a b => key b ≤ key a := ⟨fun _ _ _ hab hbc => le_trans hbc hab⟩
  exact List.pairwise_insertionSort _ _

/-- Rows made from others are in the order of what they are made from. -/
theorem newestFirst_map {γ : Type} (f : γ → α) (rows : List γ) :
    newestFirst key (rows.map f) = (newestFirst (fun row => key (f row)) rows).map f :=
  (List.map_insertionSort (fun a b => key (f b) ≤ key (f a)) (fun a b => key b ≤ key a) f rows
    fun _ _ _ _ => Iff.rfl).symm

/-- Distinct keys are in strict order. -/
theorem newestFirst_strict (hdistinct : (rows.map key).Nodup) :
    (newestFirst key rows).Pairwise fun a b => key b < key a := by
  have hnodup : ((newestFirst key rows).map key).Nodup :=
    ((newestFirst_perm rows).map key).nodup_iff.mpr hdistinct
  have hne : (newestFirst key rows).Pairwise fun a b => key a ≠ key b := List.pairwise_map.mp hnodup
  exact (newestFirst_pairwise rows).imp₂ (fun _ _ hle hne => lt_of_le_of_ne hle hne.symm) hne

/-- There is one strict order of some rows. -/
theorem newestFirst_eq {sorted : List α} (hperm : sorted.Perm rows)
    (hsorted : sorted.Pairwise fun a b => key b < key a) : newestFirst key rows = sorted := by
  have hne : sorted.Pairwise fun a b => key a ≠ key b := hsorted.imp fun h => (ne_of_lt h).symm
  have hdistinct : (rows.map key).Nodup :=
    (hperm.map key).nodup_iff.mp (List.pairwise_map.mpr hne)
  exact ((newestFirst_perm rows).trans hperm.symm).eq_of_pairwise
    (fun _ _ _ _ hab hba => absurd hab (lt_asymm hba)) (newestFirst_strict hdistinct) hsorted

/-- The rows behind one row are those of lesser key. -/
theorem newestFirst_behind {seen rest : List α} {row : α} {p : α → Bool}
    (hdistinct : (rows.map key).Nodup) (h : newestFirst key rows = seen ++ row :: rest)
    (hp : ∀ r ∈ rows, p r = true ↔ key r < key row) : newestFirst key (rows.filter p) = rest := by
  have hmem {r : α} (hr : r ∈ seen ++ row :: rest) : r ∈ rows :=
    (newestFirst_perm rows).subset (h ▸ hr)
  have hstrict := newestFirst_strict hdistinct
  rw [h, List.pairwise_append] at hstrict
  obtain ⟨-, hbehind, hseen⟩ := hstrict
  obtain ⟨hrow, hrest⟩ := List.pairwise_cons.mp hbehind
  refine newestFirst_eq ?_ hrest
  have hnone : seen.filter p = [] := by
    refine List.filter_eq_nil_iff.mpr fun r hr hpr => ?_
    have hlt := (hp r (hmem (List.mem_append_left _ hr))).mp hpr
    exact lt_asymm hlt (hseen r hr row List.mem_cons_self)
  have hself : ¬ p row = true := by
    rw [hp row (hmem (List.mem_append_right _ List.mem_cons_self))]
    exact lt_irrefl _
  have hall : rest.filter p = rest := by
    refine List.filter_eq_self.mpr fun r hr => ?_
    exact (hp r (hmem (List.mem_append_right _ (List.mem_cons_of_mem _ hr)))).mpr (hrow r hr)
  have hfilter : (newestFirst key rows).filter p = rest := by
    rw [h, List.filter_append, hnone, List.filter_cons_of_neg hself, hall, List.nil_append]
  rw [← hfilter]
  exact (newestFirst_perm rows).filter _

end sorted

end Lib.Keyset

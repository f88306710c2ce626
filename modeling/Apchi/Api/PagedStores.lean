import Apchi.Api.Pages
import Mathlib.Data.List.Pairwise

/-!
# The paged stores

Snapshots are paged by their number, audit events by a date, both with a cursor of the same type as
what is stored.  Applies, Validations and tokens are stored with their instant as a text while their
cursor is a date, and no text is below a date.
-/

namespace Apchi.Api

open Lib Lib.Mongo Lib.Keyset

/-! ## What every page does -/

/-- The page of what was found, of at most so many records and told by one more whether it is the
last. -/
def answer {ρ : Type} (limit : Nat) (record : Document → Option ρ) (cursor : ρ → List (List Char))
    (found : List Document) : Option (Page ρ (List Char)) := do
  let items ← (found.take limit).mapM record
  some {
    items
    next := if limit < found.length then items.getLast?.map fun last => encodeCursor (cursor last)
      else none }

/-- The records of a store, no two of them under one `_id`. -/
structure Written (ρ : Type) {κ : Type} (key : ρ → κ) where
  records : List ρ
  distinct : (records.map key).Nodup

/-- An empty collection. -/
def Written.empty {ρ κ : Type} (key : ρ → κ) : Written ρ key := ⟨[], List.nodup_nil⟩

/-- `insert_one`: refused under an `_id` that is there already. -/
def Written.insertOne {ρ κ : Type} {key : ρ → κ} [DecidableEq κ] (written : Written ρ key) (record : ρ) :
    Option (Written ρ key) :=
  if fresh : key record ∉ written.records.map key then
    some ⟨record :: written.records, List.nodup_cons.mpr ⟨fresh, written.distinct⟩⟩
  else none

section

variable {ρ β : Type} [LinearOrder β] {limit : Nat} {record : Document → Option ρ}
  {document : ρ → Document} {cursor : ρ → List (List Char)} {rows : List ρ}

theorem mapM_record (hrecord : ∀ r ∈ rows, record (document r) = some r) :
    (rows.map document).mapM record = some rows := by
  induction rows with
  | nil => rfl
  | cons r rows ih =>
    have hrows := ih fun x hx => hrecord x (List.mem_cons_of_mem r hx)
    rw [List.map_cons, List.mapM_cons, hrecord r List.mem_cons_self, hrows]
    rfl

theorem answer_nil (limit : Nat) (record : Document → Option ρ) (cursor : ρ → List (List Char)) :
    answer limit record cursor [] = some ⟨[], none⟩ := by
  rw [answer, List.take_nil]
  rfl

/-- Documents that are read back as what they were written from give the page of these. -/
theorem answer_written (hrecord : ∀ r ∈ rows, record (document r) = some r) :
    answer limit record cursor ((rows.map document).take (limit + 1)) =
      some (Page.of limit (fun r => encodeCursor (cursor r)) rows) := by
  have hitems : ((rows.map document).take (limit + 1)).take limit = (rows.take limit).map document := by
    rw [List.take_take, Nat.min_eq_left (Nat.le_succ limit), List.map_take]
  have hmap : ((rows.take limit).map document).mapM record = some (rows.take limit) :=
    mapM_record fun r hr => hrecord r (List.mem_of_mem_take hr)
  have hmore : limit < ((rows.map document).take (limit + 1)).length ↔ limit < rows.length := by
    rw [List.length_take, List.length_map]
    omega
  simp only [answer, hitems, hmap, hmore, Page.of, bind, Option.bind_some]

/-- A search finds the rows that match, the one of the greatest key first. -/
theorem find_written (query : Query) (sort : List String) (limit : Nat) (rows : List ρ) :
    find (rows.map document) query sort limit =
      ((newestFirst (fun r => sort.map (document r).get) (rows.filter fun r => query (document r))).map
        document).take limit := by
  rw [find, List.filter_map, newestFirst_map]
  rfl

/-- Where the cursor of a row asks for the matching rows of lesser key, all that match are visited. -/
theorem written_visits (page : Option (List Char) → Option (Page ρ (List Char)))
    (before : ρ → ρ → Prop) (sort : List String) (base : Query) (behind : ρ → Query)
    (cursor : ρ → List (List Char)) (hlimit : 0 < limit) (hrecord : ∀ r ∈ rows, record (document r) = some r)
    (hdistinct : (rows.map fun r => sort.map (document r).get).Nodup)
    (hfirst : page none = answer limit record cursor (find (rows.map document) base sort (limit + 1)))
    (hnext : ∀ row ∈ rows, page (some (encodeCursor (cursor row))) =
      answer limit record cursor (find (rows.map document) (behind row) sort (limit + 1)))
    (hbehind : ∀ row ∈ rows, ∀ r ∈ rows, behind row (document r) = true ↔
      base (document r) = true ∧ sort.map (document r).get < sort.map (document row).get)
    (hbefore : ∀ a ∈ rows, ∀ b ∈ rows,
      sort.map (document b).get < sort.map (document a).get → before a b) :
    Visits page before (rows.filter fun r => base (document r)) := by
  let key := fun r => sort.map (document r).get
  let matching := rows.filter fun r => base (document r)
  have hmem {r : ρ} (h : r ∈ newestFirst key matching) : r ∈ rows :=
    (List.mem_filter.mp ((newestFirst_perm matching).subset h)).1
  have hmatching : (matching.map key).Nodup :=
    hdistinct.sublist ((List.filter_sublist).map key)
  have hpage {query : Query} {found : List ρ}
      (h : newestFirst key (rows.filter fun r => query (document r)) = found)
      (hfound : ∀ r ∈ found, r ∈ rows) :
      answer limit record cursor (find (rows.map document) query sort (limit + 1)) =
        some (Page.of limit (fun r => encodeCursor (cursor r)) found) := by
    rw [find_written, h, answer_written fun r hr => hrecord r (hfound r hr)]
  have hstep : ∀ seen row rest, newestFirst key matching = seen ++ row :: rest →
      page (some (encodeCursor (cursor row))) =
        some (Page.of limit (fun r => encodeCursor (cursor r)) rest) := by
    intro seen row rest hrows
    have hrow : row ∈ rows := hmem (by rw [hrows]; simp)
    have hfilter : (rows.filter fun r => behind row (document r)) =
        matching.filter fun r => behind row (document r) := by
      rw [List.filter_filter]
      refine List.filter_congr fun r hr => ?_
      rw [Bool.eq_iff_iff, Bool.and_eq_true, hbehind row hrow r hr]
      exact ⟨fun h => ⟨h, h.1⟩, And.left⟩
    rw [hnext row hrow]
    refine hpage ?_ fun r hr => hmem (by rw [hrows]; simp [hr])
    rw [hfilter]
    refine newestFirst_behind hmatching hrows fun r hr => ?_
    obtain ⟨hr, hbase⟩ := List.mem_filter.mp hr
    exact (hbehind row hrow r hr).trans (and_iff_right hbase)
  obtain ⟨fuel, hwalk⟩ := walk_of page (fun r => encodeCursor (cursor r)) hlimit hstep
    (newestFirst key matching) [] none rfl (by rw [hfirst]; exact hpage rfl fun r hr => hmem hr)
  refine ⟨fuel, _, hwalk, newestFirst_perm matching, ?_⟩
  exact (newestFirst_strict hmatching).imp_of_mem fun ha hb h => hbefore _ (hmem ha) _ (hmem hb) h

end

/-! ## Snapshots -/

/-- A Snapshot, as far as it is paged. -/
structure SnapshotItem where
  number : Nat
  applyId : List Char
  createdAt : DateTime

def SnapshotItem.document (snapshot : SnapshotItem) : Document :=
  [("_id", .number snapshot.number), ("number", .number snapshot.number),
    ("apply_id", .string snapshot.applyId), ("created_at", .string snapshot.createdAt.jsonText)]

/-- A text that a document holds. -/
def textOf : Bson → Option (List Char)
  | .string text => some text
  | _ => none

/-- An instant that a document holds, as a text or as a date. -/
def instantOf : Bson → Option DateTime
  | .string text => DateTime.fromisoformat text
  | .date instant => some instant
  | _ => none

/-- A number that a document holds. -/
def numberOf : Bson → Option Int
  | .number n => some n
  | _ => none

def asSnapshot (document : Document) : Option SnapshotItem := do
  let number ← (numberOf (document.get "number")).map Int.toNat
  let applyId ← textOf (document.get "apply_id")
  let createdAt ← instantOf (document.get "created_at")
  return { number, applyId, createdAt }

/-- The number a snapshot cursor is. -/
def numberIn (cursor : List Char) : Option Nat := do
  let parts ← decodeCursor cursor 1
  DateTime.numberFrom 0 (parts.headD [])

/-- The Snapshots, each by its number. -/
abbrev Snapshots := Written SnapshotItem fun snapshot => snapshot.number

namespace Snapshots

/-- `SnapshotStore.commit`: the next number. -/
def commit (snapshots : Snapshots) (applyId : List Char) (now : DateTime) : Option Snapshots :=
  let previous := find (snapshots.records.map SnapshotItem.document) .everything ["number"] 1
  let number := match previous.head?.bind asSnapshot with
    | none => 1
    | some latest => latest.number + 1
  snapshots.insertOne { number, applyId, createdAt := now }

/-- `SnapshotStore.page`. -/
def page (snapshots : Snapshots) (limit : Int) (before : Option (List Char)) :
    Option (Page SnapshotItem (List Char)) := do
  let query ← match before with
    | none => some .everything
    | some cursor => (numberIn cursor).map fun number => .lt "number" (.number number)
  let limit := bounded limit
  answer limit asSnapshot (fun last => [Nat.toDigits 10 last.number])
    (find (snapshots.records.map SnapshotItem.document) query ["number"] (limit + 1))

theorem asSnapshot_document (snapshot : SnapshotItem) : asSnapshot snapshot.document = some snapshot := by
  have hcreated : instantOf (snapshot.document.get "created_at") = some snapshot.createdAt :=
    DateTime.fromisoformat_jsonText snapshot.createdAt
  rw [asSnapshot, hcreated]
  rfl

theorem numberIn_encodeCursor (number : Nat) :
    numberIn (encodeCursor [Nat.toDigits 10 number]) = some number := by
  have hparts : ∀ part ∈ [Nat.toDigits 10 number], separator ∉ part := by
    intro part hpart hmem
    rw [List.mem_singleton.mp hpart] at hmem
    exact absurd (Nat.isDigit_of_mem_toDigits (by decide) (by decide) hmem) (by decide)
  rw [numberIn, show 1 = [Nat.toDigits 10 number].length from rfl,
    decodeCursor_encodeCursor (List.cons_ne_nil _ _) hparts]
  exact DateTime.numberFrom_toDigits number

/-- Snapshots are all visited, the one of the greatest number first. -/
theorem page_visits (snapshots : Snapshots) (limit : Int) :
    Visits (snapshots.page limit) (fun a b => b.number < a.number) snapshots.records := by
  have hkey (a b : SnapshotItem) :
      ["number"].map a.document.get < ["number"].map b.document.get ↔ a.number < b.number := by
    simp only [List.map_cons, List.map_nil, List.cons_lt_cons_iff, List.lt_irrefl, and_false, or_false]
    exact (Bson.number_lt _ _).trans Int.ofNat_lt
  have hdistinct : (snapshots.records.map fun r => ["number"].map r.document.get).Nodup := by
    have hmap := snapshots.distinct.map (f := fun n : Nat => [Bson.number n])
      fun m n h => Int.ofNat.inj (Bson.number.inj (List.head_eq_of_cons_eq h))
    rwa [List.map_map] at hmap
  have hvisits := written_visits (snapshots.page limit) (fun a b => b.number < a.number) ["number"]
    .everything (fun row => .lt "number" (.number row.number))
    (fun last => [Nat.toDigits 10 last.number]) (bounded_pos limit)
    (fun r _ => asSnapshot_document r) hdistinct rfl
    (fun row _ => by
      rw [page, numberIn_encodeCursor]
      rfl)
    (fun row _ r _ => by
      rw [hkey r row, Query.lt_apply, Query.everything_apply, eq_self_iff_true, true_and]
      exact (and_iff_right rfl).trans ((Bson.number_lt _ _).trans Int.ofNat_lt))
    (fun a _ b _ h => (hkey b a).mp h)
  simpa only [Query.everything_apply, List.filter_true] using hvisits

end Snapshots

/-! ## Audit events -/

/-- A text that may be missing. -/
def ofText : Option (List Char) → Bson
  | none => .null
  | some text => .string text

/-- A number that may be missing. -/
def ofNumber : Option Int → Bson
  | none => .null
  | some n => .number n

def textOrNone : Bson → Option (Option (List Char))
  | .null => some none
  | .string text => some (some text)
  | _ => none

/-- One thing that happened. -/
structure AuditEvent where
  id : ObjectId
  instant : DateTime
  actor : List Char
  via : List Char
  tokenId : Option (List Char)
  category : List Char
  resource : Option (List Char)
  action : List Char
  snapshot : Option Int
  outcome : List Char
  detail : Option (List Char)
  applyId : Option (List Char)

/-- A date goes to the millisecond. -/
def AuditEvent.document (event : AuditEvent) : Document :=
  [("at", .date event.instant.toMillisecond), ("actor", .string event.actor),
    ("via", .string event.via), ("token_id", ofText event.tokenId),
    ("category", .string event.category), ("resource", ofText event.resource),
    ("action", .string event.action),
    ("snapshot", ofNumber event.snapshot),
    ("outcome", .string event.outcome), ("detail", ofText event.detail),
    ("apply_id", ofText event.applyId), ("_id", .objectId event.id)]

/-- The event as the store gives it back. -/
def AuditEvent.stored (event : AuditEvent) : AuditEvent :=
  { event with instant := event.instant.toMillisecond }

def numberOrNone : Bson → Option (Option Int)
  | .null => some none
  | .number n => some (some n)
  | _ => none

def objectIdOf : Bson → Option ObjectId
  | .objectId id => some id
  | _ => none

/-- `AuditStore._as_event`. -/
def asEvent (document : Document) : Option AuditEvent := do
  let id ← objectIdOf (document.get "_id")
  let instant ← instantOf (document.get "at")
  let actor ← textOf (document.get "actor")
  let via ← textOf (document.get "via")
  let tokenId ← textOrNone (document.get "token_id")
  let category ← textOf (document.get "category")
  let resource ← textOrNone (document.get "resource")
  let action ← textOf (document.get "action")
  let snapshot ← numberOrNone (document.get "snapshot")
  let outcome ← textOf (document.get "outcome")
  let detail ← textOrNone (document.get "detail")
  let applyId ← textOrNone (document.get "apply_id")
  return { id, instant, actor, via, tokenId, category, resource, action, snapshot, outcome, detail,
           applyId }

/-- What an audit history may be asked for. -/
structure Filter where
  category : Option (List Char)
  actor : Option (List Char)
  since : Option DateTime
  upTo : Option DateTime

/-- A condition, where there is one. -/
def whenGiven {α : Type} (condition : α → Query) : Option α → Query
  | none => .everything
  | some value => condition value

theorem whenGiven_apply {α : Type} (condition : α → Query) (wanted : Option α) (document : Document) :
    whenGiven condition wanted document = true ↔ ∀ value ∈ wanted, condition value document = true := by
  cases wanted with
  | none => simp [whenGiven]
  | some value => simp [whenGiven]

def Filter.query (filter : Filter) : Query :=
  .both (whenGiven (fun category => .eq "category" (.string category)) filter.category)
    (.both (whenGiven (fun actor => .eq "actor" (.string actor)) filter.actor)
      (.both (whenGiven (fun since => .gte "at" (.date since.toMillisecond)) filter.since)
        (whenGiven (fun last => .lte "at" (.date last.toMillisecond)) filter.upTo)))

/-- The filter's own words about an event. -/
def Filter.admits (filter : Filter) (event : AuditEvent) : Bool :=
  filter.category.all (fun category => event.category = category) &&
    (filter.actor.all (fun actor => event.actor = actor) &&
      (filter.since.all (fun since => since.toMillisecond ≤ event.instant) &&
        filter.upTo.all fun last => event.instant ≤ last.toMillisecond))

/-- Newest first, and within an instant by their ids. -/
def AuditEvent.Newer (a b : AuditEvent) : Prop :=
  b.instant < a.instant ∨
    b.instant = a.instant ∧ DateTime.codes b.id.digits < DateTime.codes a.id.digits

/-- The two halves of an audit cursor. -/
def auditDecode (cursor : List Char) : Option (DateTime × ObjectId) := do
  let parts ← decodeCursor cursor 2
  let instant ← DateTime.fromisoformat (parts.getD 0 [])
  let id ← ObjectId.ofText (parts.getD 1 [])
  return (instant, id)

/-- The audit history, each event by its id. -/
abbrev AuditHistory := Written AuditEvent AuditEvent.id

namespace AuditHistory

/-- `AuditStore.page`. -/
def page (history : AuditHistory) (filter : Filter) (limit : Int) (before : Option (List Char)) :
    Option (Page AuditEvent (List Char)) := do
  let query ← match before with
    | none => some filter.query
    | some cursor => (auditDecode cursor).map fun place =>
        filter.query.both (after "at" (.date place.1.toMillisecond) (.objectId place.2))
  let limit := bounded limit
  answer limit asEvent (fun last => [last.instant.isoformat, last.id.digits])
    (find (history.records.map AuditEvent.document) query ["at", "_id"] (limit + 1))

theorem asEvent_document (event : AuditEvent) : asEvent event.document = some event.stored := by
  obtain ⟨id, instant, actor, via, tokenId, category, resource, action, snapshot, outcome, detail,
    applyId⟩ := event
  cases tokenId <;> cases resource <;> cases snapshot <;> cases detail <;> cases applyId <;> rfl

/-- The query says of a document what the filter says of the event in it. -/
theorem query_document (filter : Filter) (event : AuditEvent) :
    filter.query event.document = filter.admits event.stored := by
  rw [Bool.eq_iff_iff]
  simp only [Filter.query, Filter.admits, Query.both_apply, whenGiven_apply, Bool.and_eq_true,
    Option.all_eq_true, decide_eq_true_eq]
  refine and_congr ?_ (and_congr ?_ (and_congr ?_ ?_))
  · refine forall₂_congr fun category _ => (Query.eq_apply _ _ _).trans ?_
    exact (Bson.string.injEq _ _).to_iff
  · refine forall₂_congr fun actor _ => (Query.eq_apply _ _ _).trans ?_
    exact (Bson.string.injEq _ _).to_iff
  · refine forall₂_congr fun since _ => (Query.gte_apply _ _ _).trans ?_
    exact (and_iff_right rfl).trans (Bson.date_le _ _)
  · refine forall₂_congr fun last _ => (Query.lte_apply _ _ _).trans ?_
    exact (and_iff_right rfl).trans (Bson.date_le _ _)

theorem ofText_digits (id : ObjectId) : ObjectId.ofText id.digits = some id := by
  have hlower : id.digits.map Char.toLower = id.digits := by
    have hall : "0123456789abcdef".toList.all (fun c => c.toLower = c) = true := by decide
    refine (List.map_congr_left fun c hc => ?_).trans (List.map_id _)
    simpa using List.all_eq_true.mp hall c (id.valid.2 c hc)
  have hdigits : id.digits.all (· ∈ "0123456789abcdef".toList) = true :=
    List.all_eq_true.mpr fun c hc => decide_eq_true (id.valid.2 c hc)
  simp only [ObjectId.ofText, hlower]
  rw [dif_pos ⟨id.valid.1, hdigits⟩]

theorem separator_not_mem_isoformat (d : DateTime) : separator ∉ d.isoformat :=
  fun hmem => absurd (DateTime.isPart_isoformat d _ hmem) (by decide)

theorem auditDecode_encodeCursor (d : DateTime) (id : ObjectId) :
    auditDecode (encodeCursor [d.isoformat, id.digits]) = some (d, id) := by
  have hparts : ∀ part ∈ [d.isoformat, id.digits], separator ∉ part := by
    intro part hpart
    rcases List.mem_pair.mp hpart with rfl | rfl
    · exact separator_not_mem_isoformat d
    · intro hmem
      exact absurd (id.valid.2 _ hmem) (by decide)
  have hdecode : decodeCursor (encodeCursor [d.isoformat, id.digits]) 2 = some [d.isoformat, id.digits] :=
    decodeCursor_encodeCursor (List.cons_ne_nil _ _) hparts
  have hinstant : DateTime.fromisoformat ([d.isoformat, id.digits].getD 0 []) = some d :=
    DateTime.fromisoformat_isoformat d
  have hid : ObjectId.ofText ([d.isoformat, id.digits].getD 1 []) = some id := ofText_digits id
  rw [auditDecode, hdecode]
  simp only [bind, Option.bind_some, hinstant, hid, pure]

/-- Events the filter admits are all visited, the latest first and within an instant by their ids. -/
theorem page_visits (history : AuditHistory) (filter : Filter) (limit : Int) :
    Visits (history.page filter limit) AuditEvent.Newer
      ((history.records.map AuditEvent.stored).filter filter.admits) := by
  have hkey (a b : AuditEvent) :
      ["at", "_id"].map a.document.get < ["at", "_id"].map b.document.get ↔
        a.instant.toMillisecond < b.instant.toMillisecond ∨
          a.instant.toMillisecond = b.instant.toMillisecond ∧
            DateTime.codes a.id.digits < DateTime.codes b.id.digits := by
    have hat (event : AuditEvent) : event.document.get "at" = .date event.instant.toMillisecond := rfl
    have hid (event : AuditEvent) : event.document.get "_id" = .objectId event.id := rfl
    simp only [List.map_cons, List.map_nil, List.cons_lt_cons_iff, List.lt_irrefl, and_false, or_false,
      hat, hid, Bson.date_lt, Bson.objectId_lt, Bson.date.injEq]
  have hdocument (event : AuditEvent) : event.stored.document = event.document := by
    simp only [AuditEvent.document, AuditEvent.stored, DateTime.toMillisecond_toMillisecond]
  have hstored : ∀ r ∈ history.records.map AuditEvent.stored, r.stored = r := by
    intro r hr
    obtain ⟨event, -, rfl⟩ := List.mem_map.mp hr
    simp only [AuditEvent.stored, DateTime.toMillisecond_toMillisecond]
  have hdocuments : history.records.map AuditEvent.document =
      (history.records.map AuditEvent.stored).map AuditEvent.document := by
    rw [List.map_map]
    exact List.map_congr_left fun event _ => (hdocument event).symm
  have hinstant : ∀ r ∈ history.records.map AuditEvent.stored, r.instant.toMillisecond = r.instant :=
    fun r hr => congrArg AuditEvent.instant (hstored r hr)
  have hmatching : (history.records.map AuditEvent.stored).filter filter.admits =
      (history.records.map AuditEvent.stored).filter fun event => filter.query event.document :=
    List.filter_congr fun r hr => by rw [query_document, hstored r hr]
  rw [hmatching]
  refine written_visits (history.page filter limit) AuditEvent.Newer ["at", "_id"] filter.query
    (fun row => filter.query.both (after "at" (.date row.instant.toMillisecond) (.objectId row.id)))
    (fun last => [last.instant.isoformat, last.id.digits]) (bounded_pos limit) (fun r hr => (asEvent_document r).trans (congrArg some (hstored r hr))) ?_ ?_ ?_
    ?_ ?_
  · have hids : ((history.records.map AuditEvent.stored).map AuditEvent.id).Nodup := by
      rw [List.map_map]
      exact history.distinct
    refine List.Nodup.of_map (fun key => key.getD 1 .null) ?_
    rw [List.map_map]
    have hmap := hids.map (f := Bson.objectId) fun _ _ => Bson.objectId.inj
    rwa [List.map_map] at hmap
  · rw [page, hdocuments]
    rfl
  · intro row _
    rw [page, hdocuments, auditDecode_encodeCursor]
    rfl
  · intro row _ r _
    rw [hkey r row, Query.both_apply, after, Query.either_apply, Query.both_apply, Query.eq_apply,
      Query.lt_apply, Query.lt_apply]
    refine and_congr_right fun _ => or_congr ?_ (and_congr ?_ ?_)
    · exact (and_iff_right rfl).trans (Bson.date_lt _ _)
    · exact (Bson.date.injEq _ _).to_iff
    · exact (and_iff_right rfl).trans (Bson.objectId_lt _ _)
  · intro a ha b hb h
    rwa [hkey b a, hinstant a ha, hinstant b hb] at h

end AuditHistory

/-! ## Applies, Validations and tokens -/

/-- A store whose records carry the instant they began at as a text. -/
structure Timed (ρ : Type) where
  field : String
  document : ρ → Document
  record : Document → Option ρ
  began : ρ → DateTime
  id : ρ → List Char
  record_document : ∀ r, record (document r) = some r
  get_field : ∀ r, (document r).get field = .string (began r).jsonText
  get_id : ∀ r, (document r).get "_id" = .string (id r)

/-- The instant and the id a cursor names. -/
def startedIn (cursor : List Char) : Option (DateTime × List Char) := do
  let parts ← decodeCursor cursor 2
  let instant ← DateTime.fromisoformat (parts.getD 0 [])
  return (instant, parts.getD 1 [])

namespace Timed

variable {ρ : Type} (store : Timed ρ)

/-- The records of such a store, each by its id. -/
abbrev Records (store : Timed ρ) := Written ρ store.id

/-- A page of the records a query matches, by when they began. -/
def page (records : store.Records) (base : Query) (limit : Int) (before : Option (List Char)) :
    Option (Page ρ (List Char)) := do
  let query ← match before with
    | none => some base
    | some cursor =>
        (startedIn cursor).map fun place =>
          base.both (after store.field (.date place.1.toMillisecond) (.string place.2))
  let limit := bounded limit
  answer limit store.record (fun last => [(store.began last).isoformat, store.id last])
    (find (records.records.map store.document) query [store.field, "_id"] (limit + 1))

/-- Newest first, by when they began and then by their ids. -/
def Newer (a b : ρ) : Prop :=
  store.began b < store.began a ∨
    store.began b = store.began a ∧ DateTime.codes (store.id b) < DateTime.codes (store.id a)

/-- No text is below a date, so that no cursor leads anywhere. -/
theorem page_some {records : store.Records} {base : Query} {limit : Int} {cursor : List Char}
    {here : Page ρ (List Char)} (h : store.page records base limit (some cursor) = some here) :
    here = ⟨[], none⟩ := by
  rw [page] at h
  cases hplace : startedIn cursor with
  | none =>
    rw [hplace] at h
    cases h
  | some place =>
    have hnone : (records.records.map store.document).filter
        (base.both (after store.field (.date place.1.toMillisecond) (.string place.2))) = [] := by
      refine List.filter_eq_nil_iff.mpr fun document hdocument hmatch => ?_
      obtain ⟨r, -, rfl⟩ := List.mem_map.mp hdocument
      rw [Query.both_apply, after, Query.either_apply, Query.both_apply, Query.eq_apply,
        Query.lt_apply, store.get_field] at hmatch
      rcases hmatch.2 with ⟨htype, -⟩ | ⟨hvalue, -⟩
      · cases htype
      · cases hvalue
    rw [hplace] at h
    simp only [Option.map_some, bind, Option.bind_some, find, hnone, newestFirst,
      List.insertionSort_nil, List.take_nil] at h
    exact (Option.some.inj ((answer_nil _ _ _).symm.trans h)).symm

/-- The first page is that of all the records that match, by the texts of their instants. -/
theorem page_none (records : store.Records) (base : Query) (limit : Int) :
    store.page records base limit none =
      some (Page.of (bounded limit)
        (fun last => encodeCursor [(store.began last).isoformat, store.id last])
        (newestFirst (fun r => [store.field, "_id"].map (store.document r).get)
          (records.records.filter fun r => base (store.document r)))) := by
  rw [page]
  simp only [bind, Option.bind_some]
  rw [find_written, answer_written fun r _ => store.record_document r]

theorem key_lt (a b : ρ) :
    [store.field, "_id"].map (store.document a).get < [store.field, "_id"].map (store.document b).get ↔
      DateTime.codes (store.began a).jsonText < DateTime.codes (store.began b).jsonText ∨
        (store.began a).jsonText = (store.began b).jsonText ∧
          DateTime.codes (store.id a) < DateTime.codes (store.id b) := by
  simp only [List.map_cons, List.map_nil, List.cons_lt_cons_iff, List.lt_irrefl, and_false, or_false,
    store.get_field, store.get_id, Bson.string_lt, Bson.string.injEq]

theorem jsonText_inj {d e : DateTime} : d.jsonText = e.jsonText ↔ d = e := by
  refine ⟨fun h => ?_, congrArg _⟩
  have hread := congrArg DateTime.fromisoformat h
  rw [DateTime.fromisoformat_jsonText, DateTime.fromisoformat_jsonText] at hread
  exact Option.some.inj hread

/-- The matching records are visited exactly where one page holds them all, and no two of them began in
one second with only the later one within it. -/
theorem page_visits_iff (records : store.Records) (base : Query) (limit : Int) :
    Visits (store.page records base limit) store.Newer
        (records.records.filter fun r => base (store.document r)) ↔
      (records.records.filter fun r => base (store.document r)).length ≤ bounded limit ∧
        ∀ a ∈ records.records, ∀ b ∈ records.records, base (store.document a) = true →
          base (store.document b) = true → ¬ DateTime.Misordered (store.began a) (store.began b) := by
  let key := fun r => [store.field, "_id"].map (store.document r).get
  let matching := records.records.filter fun r => base (store.document r)
  have hdistinct : (matching.map key).Nodup := by
    have hids : (matching.map store.id).Nodup :=
      records.distinct.sublist ((List.filter_sublist).map _)
    refine List.Nodup.of_map (fun key => key.getD 1 .null) ?_
    have hvalues := hids.map (f := Bson.string) fun _ _ => Bson.string.inj
    have hsame : (matching.map key).map (fun key => key.getD 1 .null) =
        (matching.map store.id).map Bson.string := by
      rw [List.map_map, List.map_map]
      exact List.map_congr_left fun r _ => store.get_id r
    rwa [hsame]
  have hstrict := newestFirst_strict hdistinct
  have hperm : (newestFirst key matching).Perm matching := newestFirst_perm matching
  constructor
  · rintro ⟨fuel, visited, hwalk, hvisited, hnewer⟩
    obtain ⟨here, hhere, hitems⟩ := walk_first (fun _ _ h => store.page_some h) hwalk
    rw [page_none] at hhere
    have hshown : (newestFirst key matching).take (bounded limit) = visited := by
      rw [← hitems, ← Option.some.inj hhere]
      rfl
    have hlength : matching.length ≤ bounded limit := by
      have hcount : visited.length = matching.length := hvisited.length_eq
      rw [← hshown, List.length_take, hperm.length_eq] at hcount
      omega
    refine ⟨hlength, fun a ha b hb hbase hbase' hmis => ?_⟩
    rw [List.take_of_length_le (by rw [hperm.length_eq]; exact hlength)] at hshown
    subst hshown
    -- the one without a fraction is the earlier one, but its text is the later one
    obtain ⟨hlt, htext⟩ := hmis.lt
    have hmem {r : ρ} (hr : r ∈ records.records) (hb : base (store.document r) = true) :
        r ∈ newestFirst key matching := hperm.mem_iff.mpr (List.mem_filter.mpr ⟨hr, hb⟩)
    have hne : a ≠ b := by
      rintro rfl
      exact lt_irrefl _ hlt
    have hkeys : key b < key a := (store.key_lt b a).mpr (.inl htext)
    let InOrder (a b : ρ) : Prop := (key b < key a → store.Newer a b) ∧ (key a < key b → store.Newer b a)
    have : Std.Symm InOrder := ⟨fun _ _ h => ⟨h.2, h.1⟩⟩
    have hall : (newestFirst key matching).Pairwise InOrder :=
      hstrict.imp₂ (fun _ _ hkey hnew => ⟨fun _ => hnew, fun h => absurd h (lt_asymm hkey)⟩) hnewer
    rcases (hall.forall (hmem ha hbase) (hmem hb hbase') hne).1 hkeys with h | ⟨h, -⟩
    · exact lt_asymm h hlt
    · exact hlt.ne' h
  · rintro ⟨hlength, hordered⟩
    refine ⟨1, newestFirst key matching, ?_, hperm, ?_⟩
    · rw [walk, page_none, Page.of_last (by rw [hperm.length_eq]; exact hlength), Option.bind_some]
    · refine hstrict.imp_of_mem fun {a b} ha hb h => ?_
      obtain ⟨ha, hbase⟩ := List.mem_filter.mp (hperm.mem_iff.mp ha)
      obtain ⟨hb, hbase'⟩ := List.mem_filter.mp (hperm.mem_iff.mp hb)
      rcases (store.key_lt b a).mp h with hlt | ⟨heq, hid⟩
      · exact .inl ((DateTime.codes_jsonText_lt_iff (hordered b hb a ha hbase' hbase)
          (hordered a ha b hb hbase hbase')).mp hlt)
      · exact .inr ⟨jsonText_inj.mp heq, hid⟩

end Timed

/-- An instant that may be missing, as a text. -/
def ofInstant : Option DateTime → Bson
  | none => .null
  | some instant => .string instant.jsonText

def instantOrNone : Bson → Option (Option DateTime)
  | .null => some none
  | value => (instantOf value).map some

theorem instantOrNone_ofInstant (instant : Option DateTime) :
    instantOrNone (ofInstant instant) = some instant := by
  cases instant with
  | none => rfl
  | some instant =>
    show (DateTime.fromisoformat instant.jsonText).map some = _
    rw [DateTime.fromisoformat_jsonText, Option.map_some]

theorem numberOrNone_ofNumber (n : Option Int) : numberOrNone (ofNumber n) = some n := by
  cases n <;> rfl

/-- An Apply as `ApplyStore.create` writes it, or a Validation as `ValidationStore.create` does: in the
stage or with the outcome it begins with. -/
structure Attempt where
  id : List Char
  state : List Char
  baseSnapshot : Option Int
  startedAt : DateTime

/-- The document of an attempt, whose state goes under a name of its own in each store. -/
def Attempt.document (state : String) (attempt : Attempt) : Document :=
  [("_id", .string attempt.id), ("id", .string attempt.id), (state, .string attempt.state),
    ("base_snapshot", ofNumber attempt.baseSnapshot),
    ("started_at", .string attempt.startedAt.jsonText)]

/-- `_as_record`. -/
def asAttempt (state : String) (document : Document) : Option Attempt := do
  let id ← textOf (document.get "id")
  let state ← textOf (document.get state)
  let baseSnapshot ← numberOrNone (document.get "base_snapshot")
  let startedAt ← instantOf (document.get "started_at")
  return { id, state, baseSnapshot, startedAt }

theorem asAttempt_document {state : String} (hstate : state = "stage" ∨ state = "outcome")
    (attempt : Attempt) : asAttempt state (attempt.document state) = some attempt := by
  obtain ⟨id, place, baseSnapshot, startedAt⟩ := attempt
  have hbegan : instantOf (.string startedAt.jsonText) = some startedAt :=
    DateTime.fromisoformat_jsonText startedAt
  have hbase := numberOrNone_ofNumber baseSnapshot
  rcases hstate with rfl | rfl
  all_goals
    simp only [asAttempt, Attempt.document, Document.get, List.lookup_cons, String.reduceBEq, Option.getD_some,
      textOf, hbegan, hbase, bind, Option.bind_some, pure]

/-- `ApplyStore`, and `ValidationStore` beside it. -/
def attempts (state : String) (hstate : state = "stage" ∨ state = "outcome") : Timed Attempt where
  field := "started_at"
  document := Attempt.document state
  record := asAttempt state
  began := Attempt.startedAt
  id := Attempt.id
  record_document := asAttempt_document hstate
  get_field _ := by rcases hstate with rfl | rfl <;> rfl
  get_id _ := by rcases hstate with rfl | rfl <;> rfl

def applies : Timed Attempt := attempts "stage" (.inl rfl)

def validations : Timed Attempt := attempts "outcome" (.inr rfl)

/-- One token's metadata. -/
structure Token where
  id : List Char
  owner : List Char
  name : List Char
  createdAt : DateTime
  expiresAt : Option DateTime

/-- The document of a token, the digest of its secret left out. -/
def Token.document (token : Token) : Document :=
  [("_id", .string token.id), ("owner", .string token.owner), ("name", .string token.name),
    ("created_at", .string token.createdAt.jsonText), ("expires_at", ofInstant token.expiresAt)]

/-- `TokenStore._as_token`. -/
def asToken (document : Document) : Option Token := do
  let id ← textOf (document.get "_id")
  let owner ← textOf (document.get "owner")
  let name ← textOf (document.get "name")
  let createdAt ← instantOf (document.get "created_at")
  let expiresAt ← instantOrNone (document.get "expires_at")
  return { id, owner, name, createdAt, expiresAt }

theorem asToken_document (token : Token) : asToken token.document = some token := by
  obtain ⟨id, owner, name, createdAt, expiresAt⟩ := token
  have hcreated : instantOf (.string createdAt.jsonText) = some createdAt :=
    DateTime.fromisoformat_jsonText createdAt
  have hexpires := instantOrNone_ofInstant expiresAt
  simp only [asToken, Token.document, Document.get, List.lookup_cons, String.reduceBEq, Option.getD_some,
    textOf, hcreated, hexpires, bind, Option.bind_some, pure]

def tokens : Timed Token where
  field := "created_at"
  document := Token.document
  record := asToken
  began := Token.createdAt
  id := Token.id
  record_document := asToken_document
  get_field _ := rfl
  get_id _ := rfl

/-- `ApplyStore.create`. -/
def applies.create (records : applies.Records) (uuid : List Char) (now : DateTime)
    (baseSnapshot : Option Int) : Option applies.Records :=
  records.insertOne {
    id := "apl_".toList ++ uuid.take 16
    state := "validating".toList
    baseSnapshot
    startedAt := now }

/-- `ValidationStore.create`. -/
def validations.create (records : validations.Records) (uuid : List Char) (now : DateTime)
    (baseSnapshot : Option Int) : Option validations.Records :=
  records.insertOne {
    id := "val_".toList ++ uuid.take 16
    state := "running".toList
    baseSnapshot
    startedAt := now }

/-- `TokenStore.create`, without the secret. -/
def tokens.create (records : tokens.Records) (uuid owner name : List Char) (now : DateTime)
    (expiresAt : Option DateTime) : Option tokens.Records :=
  records.insertOne { id := uuid, owner, name, createdAt := now, expiresAt }

/-- `ApplyStore.page`. -/
def applies.pageOf (records : applies.Records) : Int → Option (List Char) →
    Option (Page Attempt (List Char)) :=
  applies.page records .everything

/-- `ValidationStore.page`. -/
def validations.pageOf (records : validations.Records) : Int → Option (List Char) →
    Option (Page Attempt (List Char)) :=
  validations.page records .everything

/-- `TokenStore.owned_by`. -/
def tokens.ownedBy (records : tokens.Records) (owner : List Char) : Int → Option (List Char) →
    Option (Page Token (List Char)) :=
  tokens.page records (.eq "owner" (.string owner))

/-- One page holds all the records, and no two of them began in one second with only the later one
within it. -/
def Timed.FitsOnePage {ρ : Type} (store : Timed ρ) (limit : Int) (records : List ρ) : Prop :=
  records.length ≤ bounded limit ∧
    ∀ a ∈ records, ∀ b ∈ records, ¬ DateTime.Misordered (store.began a) (store.began b)

theorem Timed.visits_iff {ρ : Type} (store : Timed ρ) (records : store.Records) (base : Query)
    (limit : Int) {matching : List ρ}
    (hmatching : (records.records.filter fun r => base (store.document r)) = matching) :
    Visits (store.page records base limit) store.Newer matching ↔ store.FitsOnePage limit matching := by
  subst hmatching
  rw [store.page_visits_iff]
  refine and_congr_right fun _ => ⟨fun h a ha b hb => ?_, fun h a ha b hb hbase hbase' => ?_⟩
  · obtain ⟨ha, hbase⟩ := List.mem_filter.mp ha
    obtain ⟨hb, hbase'⟩ := List.mem_filter.mp hb
    exact h a ha b hb hbase hbase'
  · exact h a (List.mem_filter.mpr ⟨ha, hbase⟩) b (List.mem_filter.mpr ⟨hb, hbase'⟩)

/-- Snapshots and audit events are all visited, whatever the limit.  Applies, Validations and tokens
are exactly where one page holds all that match, in the order of their texts. -/
theorem pages_visit_everything_iff (limit : Int) (snapshots : Snapshots) (history : AuditHistory)
    (filter : Filter) (applied : applies.Records) (validated : validations.Records)
    (minted : tokens.Records) (owner : List Char) :
    Visits (snapshots.page limit) (fun a b => b.number < a.number) snapshots.records ∧
      Visits (history.page filter limit) AuditEvent.Newer
        ((history.records.map AuditEvent.stored).filter filter.admits) ∧
      (Visits (applies.pageOf applied limit) applies.Newer applied.records ↔
        applies.FitsOnePage limit applied.records) ∧
      (Visits (validations.pageOf validated limit) validations.Newer validated.records ↔
        validations.FitsOnePage limit validated.records) ∧
      (Visits (tokens.ownedBy minted owner limit) tokens.Newer
          (minted.records.filter fun token => token.owner = owner) ↔
        tokens.FitsOnePage limit (minted.records.filter fun token => token.owner = owner)) := by
  have hall {ρ : Type} (store : Timed ρ) (records : store.Records) :
      (records.records.filter fun r => Query.everything (store.document r)) = records.records :=
    List.filter_eq_self.mpr fun _ _ => rfl
  have howner : (minted.records.filter fun token =>
      Query.eq "owner" (.string owner) (tokens.document token)) =
        minted.records.filter fun token => token.owner = owner := by
    refine List.filter_congr fun token _ => ?_
    rw [Bool.eq_iff_iff, Query.eq_apply, decide_eq_true_iff]
    exact (Bson.string.injEq _ _).to_iff
  exact ⟨snapshots.page_visits limit, history.page_visits filter limit,
    applies.visits_iff applied .everything limit (hall applies applied),
    validations.visits_iff validated .everything limit (hall validations validated),
    tokens.visits_iff minted (.eq "owner" (.string owner)) limit howner⟩

/-- An instant, and the same one a second later. -/
def instants : DateTime × DateTime :=
  ({ year := 2026, month := 3, day := 1, hour := 9, minute := 30, second := 0, microsecond := 125000,
     valid := by decide },
   { year := 2026, month := 3, day := 1, hour := 9, minute := 30, second := 1, microsecond := 125000,
     valid := by decide })

/-- Of two Applies asked for one at a time, the older one is never seen. -/
theorem older_apply_is_lost :
    ∃ one two, applies.create (.empty applies.id) "0123456789abcdef".toList instants.1 none = some one ∧
      applies.create one "fedcba9876543210".toList instants.2 none = some two ∧
      ¬ Visits (applies.pageOf two 1) applies.Newer two.records := by
  refine ⟨_, _, rfl, rfl, fun hvisits => ?_⟩
  have hall : ∀ records : applies.Records,
      (records.records.filter fun r => Query.everything (applies.document r)) = records.records :=
    fun records => List.filter_eq_self.mpr fun _ _ => rfl
  have hfits := (applies.visits_iff _ .everything 1 (hall _)).mp hvisits
  exact absurd hfits.1 (by decide)

end Apchi.Api

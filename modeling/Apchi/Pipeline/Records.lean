import Apchi.Pipeline.Calls

/-!
# What calls do to Apply records

A call that names no Apply leaves every record as it is; one that names an Apply changes that
record's fields and never its id; an insertion appends, and never under an id that is taken.
-/

namespace Apchi.Pipeline

open Lib

section update

variable {records : List ApplyRecord} {id other : String} {change : ApplyRecord → ApplyRecord}

theorem find_updateRecord_self (hid : ∀ record, (change record).id = record.id) :
    (updateRecord id change records).find? (fun record => record.id = id) =
      (records.find? fun record => record.id = id).map change := by
  induction records with
  | nil => rfl
  | cons record rest ih =>
    show List.find? _ ((if record.id = id then _ else _) :: updateRecord id change rest) = _
    by_cases h : record.id = id
    · simp [h, hid]
    · simp [h, ih]

theorem find_updateRecord_of_ne (hid : ∀ record, (change record).id = record.id)
    (hne : other ≠ id) :
    (updateRecord id change records).find? (fun record => record.id = other) =
      records.find? fun record => record.id = other := by
  induction records with
  | nil => rfl
  | cons record rest ih =>
    show List.find? _ ((if record.id = id then _ else _) :: updateRecord id change rest) = _
    by_cases h : record.id = id
    · have hother : record.id ≠ other := fun heq => hne (heq ▸ h)
      rw [if_pos h, List.find?_cons_of_neg (by simpa [hid] using hother),
        List.find?_cons_of_neg (by simpa using hother), ih]
    · rw [if_neg h, List.find?_cons, List.find?_cons, ih]

theorem ids_updateRecord (hid : ∀ record, (change record).id = record.id) :
    (updateRecord id change records).map ApplyRecord.id = records.map ApplyRecord.id := by
  unfold updateRecord
  rw [List.map_map]
  apply List.map_congr_left
  intro record _
  show (if record.id = id then change record else record).id = record.id
  split
  · exact hid record
  · rfl

end update

/-- The ids of the records. -/
def World.ids (world : World) : List String := world.applies.map ApplyRecord.id

/-- A record is the one its id finds. -/
theorem World.record_of_mem {world : World} (hunique : world.ids.Nodup) {record : ApplyRecord}
    (h : record ∈ world.applies) : world.record record.id = some record := by
  unfold World.record
  unfold World.ids at hunique
  generalize world.applies = records at hunique h
  induction records with
  | nil => cases h
  | cons first rest ih =>
    rw [List.map_cons, List.nodup_cons] at hunique
    rcases List.mem_cons.mp h with rfl | hrest
    · simp
    · have hne : first.id ≠ record.id := fun heq =>
        hunique.1 (heq ▸ List.mem_map_of_mem hrest)
      rw [List.find?_cons_of_neg (by simpa using hne)]
      exact ih hunique.2 hrest

theorem World.mem_of_record {world : World} {id : String} {record : ApplyRecord}
    (h : world.record id = some record) : record ∈ world.applies ∧ record.id = id :=
  ⟨List.mem_of_find?_eq_some h, by simpa using List.find?_some h⟩

/-- The stage a call enters an Apply's record in. -/
def Call.entering {β : Type} : Call β → Option Stage
  | .pushStage _ stage _ => some stage
  | _ => none

/-- What a call can do to the records. -/
inductive RecordChange {β : Type} (c : Call β) (world : World) : List ApplyRecord → Prop where
  | unchanged : RecordChange c world world.applies
  | update {id : String} (change : ApplyRecord → ApplyRecord) (hkind : c.kind = .apply id)
      (hid : ∀ record, (change record).id = record.id)
      (hstage : ∀ record, (change record).stage = c.entering.getD record.stage) :
      RecordChange c world (updateRecord id change world.applies)
  | insert {record : ApplyRecord} (hkind : c.kind = .insert record.id)
      (hfresh : record.id ∉ world.ids) : RecordChange c world (world.applies ++ [record])

variable (outside : Outside) {β : Type} {world world' : World}

theorem exec_recordChange (c : Call β) (world : World) :
    RecordChange c world (world.exec outside c).2.applies := by
  cases c with
  | insertApply record =>
    show RecordChange _ _ (world.insertApply record).2.applies
    unfold World.insertApply
    split
    · exact .unchanged
    · next hfresh =>
      refine .insert rfl fun hmem => hfresh ?_
      obtain ⟨found, hfound, hid⟩ := List.mem_map.mp hmem
      exact List.any_eq_true.mpr ⟨found, hfound, by simpa using hid⟩
  | insertSnapshot snapshot =>
    show RecordChange _ _ (world.insertSnapshot snapshot).2.applies
    unfold World.insertSnapshot
    split <;> exact .unchanged
  | findAndReplaceCandidate candidate =>
    show RecordChange _ _ (world.replaceCandidate outside candidate).2.applies
    unfold World.replaceCandidate
    split <;> exact .unchanged
  | pushStage id stage detail => exact .update _ rfl (fun _ => rfl) fun _ => rfl
  | setFailureReason id reason => exact .update _ rfl (fun _ => rfl) fun _ => rfl
  | setInterrupted id => exact .update _ rfl (fun _ => rfl) fun _ => rfl
  | setRollback id outcome => exact .update _ rfl (fun _ => rfl) fun _ => rfl
  | setWarnings id warnings => exact .update _ rfl (fun _ => rfl) fun _ => rfl
  | setSnapshot id number => exact .update _ rfl (fun _ => rfl) fun _ => rfl
  | setIncident id reason message => exact .update _ rfl (fun _ => rfl) fun _ => rfl
  | _ => exact .unchanged

theorem answer_recordChange {c : Call β} {r : Except Error β}
    (h : (worldMachine outside).Answer c world r world') :
    RecordChange c world world'.applies := by
  rcases h.state with rfl | rfl
  · exact .unchanged
  · exact exec_recordChange outside c world

/-- Ids stay unique. -/
theorem RecordChange.nodup {c : Call β} (h : RecordChange c world world'.applies)
    (hunique : world.ids.Nodup) : world'.ids.Nodup := by
  unfold World.ids at *
  generalize world'.applies = records at h
  cases h with
  | unchanged => exact hunique
  | update change _ hid _ => rwa [ids_updateRecord hid]
  | insert _ hfresh =>
    rw [List.map_append, List.nodup_append]
    refine ⟨hunique, by simp, fun id hmem other hother => ?_⟩
    obtain rfl : other = _ := by simpa using hother
    exact fun heq => hfresh (heq ▸ hmem)

/-- A record stays, in the stage it is in or in the one the call enters it in. -/
theorem RecordChange.record {c : Call β} (h : RecordChange c world world'.applies) {id : String}
    {record : ApplyRecord} (hrecord : world.record id = some record) :
    ∃ after, world'.record id = some after ∧
      (after = record ∨
        c.kind = .apply id ∧ after.stage = c.entering.getD record.stage) := by
  unfold World.record at *
  generalize world'.applies = records at h
  cases h with
  | unchanged => exact ⟨record, hrecord, Or.inl rfl⟩
  | @update other change hk hid hstage =>
    by_cases heq : id = other
    · subst heq
      rw [find_updateRecord_self hid, hrecord]
      exact ⟨change record, rfl, Or.inr ⟨hk, hstage record⟩⟩
    · rw [find_updateRecord_of_ne hid heq]
      exact ⟨record, hrecord, Or.inl rfl⟩
  | insert _ _ => exact ⟨record, List.find?_append.trans (by rw [hrecord]; rfl), Or.inl rfl⟩

/-- A record is in the stage a record was in, or in the one the call enters it in; unless it has
just been inserted. -/
theorem RecordChange.stage {c : Call β} (h : RecordChange c world world'.applies)
    (hinsert : ∀ id, c.kind ≠ .insert id) :
    ∀ record ∈ world'.applies, (∃ before ∈ world.applies, record.stage = before.stage) ∨
      c.entering = some record.stage := by
  generalize world'.applies = records at h
  intro record hrecord
  cases h with
  | unchanged => exact Or.inl ⟨record, hrecord, rfl⟩
  | update change _ _ hstage =>
    obtain ⟨before, hbefore, rfl⟩ := List.mem_map.mp hrecord
    split
    · have hentered := hstage before
      cases hentering : c.entering with
      | none => exact Or.inl ⟨before, hbefore, by rw [hentered, hentering]; rfl⟩
      | some stage => exact Or.inr (by rw [hentered, hentering]; rfl)
    · exact Or.inl ⟨before, hbefore, rfl⟩
  | insert hkind _ => exact absurd hkind (hinsert _)

/-- Snapshots are never removed. -/
theorem answer_snapshots {c : Call β} {r : Except Error β}
    (h : (worldMachine outside).Answer c world r world') (hsome : world.snapshots ≠ []) :
    world'.snapshots ≠ [] := by
  rcases h.state with rfl | rfl
  · exact hsome
  cases c with
  | insertApply record =>
    show (world.insertApply record).2.snapshots ≠ []
    unfold World.insertApply
    split <;> exact hsome
  | insertSnapshot snapshot =>
    show (world.insertSnapshot snapshot).2.snapshots ≠ []
    unfold World.insertSnapshot
    split
    · exact hsome
    · exact List.append_ne_nil_of_left_ne_nil hsome _
  | findAndReplaceCandidate candidate =>
    show (world.replaceCandidate outside candidate).2.snapshots ≠ []
    unfold World.replaceCandidate
    split <;> exact hsome
  | _ => exact hsome

/-- Maintenance Mode is as it was after a call that does not set it. -/
theorem answer_maintenance {c : Call β} {r : Except Error β}
    (h : (worldMachine outside).Answer c world r world') (hkind : c.kind ≠ .maintenance) :
    world'.maintenance = world.maintenance := by
  rcases h.state with rfl | rfl
  · rfl
  cases c with
  | replaceMaintenance state => exact absurd rfl hkind
  | insertApply record =>
    show (world.insertApply record).2.maintenance = _
    unfold World.insertApply
    split <;> rfl
  | insertSnapshot snapshot =>
    show (world.insertSnapshot snapshot).2.maintenance = _
    unfold World.insertSnapshot
    split <;> rfl
  | findAndReplaceCandidate candidate =>
    show (world.replaceCandidate outside candidate).2.maintenance = _
    unfold World.replaceCandidate
    split <;> rfl
  | _ => rfl

end Apchi.Pipeline

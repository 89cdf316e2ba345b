import Yappod.Indexing.Update
import Yappod.Storage.Contents

/-!
# What a batch does to the logical contents

`applyBatch` says what a batch of operations is for: upserts put a record, deletes remove one.
`current_batch` shows that the segments written for the batch, however its units are cut into slices,
do the same when they are added to the end of the index.
-/

set_option autoImplicit false

namespace Yappod

/-- The logical contents of an index. -/
abbrev Logical := Bytes → Option Record

variable (env : Env) (cfg : Config)

/-- The record an operation leaves: an upsert leaves the document with its chunks, its vectors and
its metadata. -/
def IngestOperation.event (op : IngestOperation) : Option Record :=
  match op.kind with
  | .delete => none
  | .upsert => some {
      document := op.document
      passages := ((unicodeChunk env.icu op.id op.body cfg.chunkMaxChars
        cfg.chunkOverlapChars).toOption.getD []).map (chunkPassage op.id)
      vectors := op.vectors
      metadata := (documentMetadata env.yyjsonRead cfg.filterableFields op.document).toOption.getD [] }

/-- **The effect of one operation.** -/
def applyOperation (L : Logical) (op : IngestOperation) : Logical :=
  Function.update L op.id (op.event env cfg)

/-- **The effect of a batch**: its operations one after the other. -/
def applyBatch (L : Logical) (ops : List IngestOperation) : Logical :=
  ops.foldl (applyOperation env cfg) L

/-- The events of a batch. -/
def batchEvents (ops : List IngestOperation) : List (Bytes × Option Record) :=
  ops.map fun op => (op.id, op.event env cfg)

variable {env cfg}

theorem keys_batchEvents (ops : List IngestOperation) :
    (batchEvents env cfg ops).map Prod.fst = ops.map (·.id) := by
  rw [batchEvents, List.map_map]
  rfl

/-- Appending the events of a batch to a log is applying the batch. -/
theorem current_append_batch (es : List (Bytes × Option Record)) (ops : List IngestOperation) :
    current (es ++ batchEvents env cfg ops) = applyBatch env cfg (current es) ops := by
  induction ops generalizing es with
  | nil => simp [batchEvents, applyBatch]
  | cons op ops ih =>
    have hone : current (es ++ [(op.id, op.event env cfg)]) =
        applyOperation env cfg (current es) op := by
      funext id
      rw [current, lastEvent_concat, applyOperation, Function.update_apply]
      by_cases h : id = op.id
      · simp [h]
      · simp [h, Ne.symm h, current]
    rw [applyBatch, List.foldl_cons, ← hone, ← applyBatch, ← ih, List.append_assoc]
    rfl

/-! ## The units of a batch -/

/-- **The unit of an operation** is about its identifier, leaves its record, and is as units should
be. -/
theorem operationUnit_spec {op : IngestOperation} {u : SegmentUnit}
    (h : operationUnit env cfg op = .ok u) :
    u.id = op.id ∧ u.event env cfg = op.event env cfg ∧ u.Ok cfg := by
  unfold operationUnit at h
  cases hk : op.kind with
  | delete =>
    simp only [hk, Except.ok.injEq] at h
    subst h
    exact ⟨rfl, by simp [SegmentUnit.event, IngestOperation.event, hk], trivial⟩
  | upsert =>
    simp only [hk] at h
    cases hc : unicodeChunk env.icu op.id op.body cfg.chunkMaxChars cfg.chunkOverlapChars with
    | error e => simp [hc, Bind.bind, Except.bind] at h
    | ok chunks =>
      simp only [hc, Bind.bind, Except.bind] at h
      split at h
      · cases h
      · split at h
        · cases h
        · rename_i hv hn
          cases h
          refine ⟨rfl, ?_, ?_, ?_⟩
          · simp [SegmentUnit.event, IngestOperation.event, unitRecord, hk, hc, Except.toOption]
          · intro p hp
            obtain ⟨c, -, rfl⟩ := List.mem_map.mp hp
            rfl
          · rw [List.length_map]
            cases hvec : cfg.hasVectors with
            | true =>
              simp only [hvec, true_and, not_or, not_not] at hv
              simpa using hv.2.1
            | false =>
              simp only [hvec, true_and, not_not] at hn
              simp [hn]

theorem operationUnits_spec {ops : List IngestOperation} {units : List SegmentUnit}
    (h : operationUnits env cfg ops = .ok units) :
    List.Forall₂ (fun op u => operationUnit env cfg op = .ok u) ops units := by
  rw [operationUnits] at h
  induction ops generalizing units with
  | nil =>
    cases h
    exact .nil
  | cons op ops ih =>
    rw [List.mapM_cons] at h
    cases hu : operationUnit env cfg op with
    | error e => simp [hu, Bind.bind, Except.bind] at h
    | ok u =>
      cases hus : ops.mapM (operationUnit env cfg) with
      | error e => simp [hu, hus, Bind.bind, Except.bind] at h
      | ok us =>
        simp only [hu, hus, Bind.bind, Except.bind, Pure.pure, Except.pure, Except.ok.injEq] at h
        subst h
        exact .cons hu (ih hus)

/-- The units of a batch have its identifiers, in its order. -/
theorem operationUnits_ids {ops : List IngestOperation} {units : List SegmentUnit}
    (h : operationUnits env cfg ops = .ok units) :
    units.map SegmentUnit.id = ops.map (·.id) := by
  have hF := operationUnits_spec h
  clear h
  induction hF with
  | nil => rfl
  | cons hu _ ih => rw [List.map_cons, List.map_cons, ih, (operationUnit_spec hu).1]

theorem operationUnits_ok {ops : List IngestOperation} {units : List SegmentUnit}
    (h : operationUnits env cfg ops = .ok units) : ∀ u ∈ units, u.Ok cfg := by
  have hF := operationUnits_spec h
  clear h
  induction hF with
  | nil => simp
  | cons hu _ ih => exact List.forall_mem_cons.mpr ⟨(operationUnit_spec hu).2.2, ih⟩

/-- The events of the units of a batch are the events of the batch. -/
theorem operationUnits_events {ops : List IngestOperation} {units : List SegmentUnit}
    (h : operationUnits env cfg ops = .ok units) :
    units.map (fun u => (u.id, u.event env cfg)) = batchEvents env cfg ops := by
  have hF := operationUnits_spec h
  clear h
  induction hF with
  | nil => rfl
  | cons hu _ ih =>
    rw [List.map_cons, ih, (operationUnit_spec hu).1, (operationUnit_spec hu).2.1]
    rfl

/-- **The segments of a batch**, however its units are cut into slices, leave what the batch leaves. -/
theorem current_batch {ops : List IngestOperation} {parts : List (List SegmentUnit)}
    (hids : (ops.map (·.id)).Nodup) (h : operationUnits env cfg ops = .ok parts.flatten)
    (es : List (Bytes × Option Record)) :
    current (es ++ parts.flatMap (unitEvents env cfg)) = applyBatch env cfg (current es) ops := by
  have hnd : (parts.flatten.map SegmentUnit.id).Nodup := (operationUnits_ids h).symm ▸ hids
  have hlast : ∀ id, lastEvent (parts.flatMap (unitEvents env cfg)) id =
      lastEvent (batchEvents env cfg ops) id := by
    intro id
    refine Option.ext fun e => ?_
    have hkeys : ((batchEvents env cfg ops).map Prod.fst).Nodup := (keys_batchEvents ops).symm ▸ hids
    have hmem : lastEvent (batchEvents env cfg ops) id = some e ↔
        (id, e) ∈ batchEvents env cfg ops := ⟨mem_of_lastEvent, lastEvent_of_nodup hkeys⟩
    rw [lastEvent_parts hnd id e, hmem, ← operationUnits_events h, List.mem_map]
    simp only [Prod.mk.injEq]
  rw [← current_append_batch]
  funext id
  rw [current, current, lastEvent_append, lastEvent_append, hlast]

/-- The slices of a batch, or of any units without repetitions, are as the units of a segment
should be. -/
theorem unitsOk_of_mem_parts {parts : List (List SegmentUnit)} {us : List SegmentUnit}
    (hok : ∀ u ∈ parts.flatten, u.Ok cfg) (hnd : (parts.flatten.map SegmentUnit.id).Nodup)
    (hus : us ∈ parts) : UnitsOk cfg us := by
  have hsub : us.Sublist parts.flatten := List.sublist_flatten_of_mem hus
  have hids : ((unitDocuments us).map (·.id)).Sublist (us.map SegmentUnit.id) := by
    clear hsub hus
    induction us with
    | nil => exact List.Sublist.refl _
    | cons u us ih =>
      cases u with
      | document d ps vs => exact ih.cons_cons _
      | tombstone id => exact ih.cons _
  exact ⟨fun u hu => hok u (hsub.subset hu), (hnd.sublist (hsub.map _)).sublist hids⟩

end Yappod

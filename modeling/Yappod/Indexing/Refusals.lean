import Yappod.Indexing.Update

/-!
# Refusals

A batch that the index will not take is refused with a status that tells the client what is wrong
with it (`Status.isRefusal`).  All checks that do not touch the disk only ever answer so.
-/

set_option autoImplicit false

namespace Yappod

/-- The statuses that blame the batch. -/
def Status.isRefusal : Status → Bool
  | .invalidArgument => true
  | .invalidFormat => true
  | .outOfRange => true
  | .duplicate => true
  | .segmentCapacityExceeded => true
  | _ => false

/-- The computation fails with refusals only. -/
structure Refuses {α : Type} (x : Except Status α) : Prop where
  refusal : ∀ e, x = .error e → e.isRefusal = true

section Refuses

variable {α β : Type}

theorem refuses_ok (a : α) : Refuses (.ok a : Except Status α) := ⟨fun _ h => by cases h⟩

theorem refuses_error {e : Status} (h : e.isRefusal = true) :
    Refuses (.error e : Except Status α) := ⟨fun e' he => by
  cases he
  exact h⟩

theorem Refuses.bind {x : Except Status α} {f : α → Except Status β} (hx : Refuses x)
    (hf : ∀ a, Refuses (f a)) : Refuses (x >>= f) := by
  cases x with
  | error e => exact ⟨fun e' he => hx.refusal e' (by cases he; rfl)⟩
  | ok a => exact hf a

theorem Refuses.map {x : Except Status α} (hx : Refuses x) (f : α → β) : Refuses (x.map f) := by
  cases x with
  | error e => exact ⟨fun e' he => hx.refusal e' (by cases he; rfl)⟩
  | ok a => exact refuses_ok (f a)

theorem Refuses.mapM {f : α → Except Status β} (hf : ∀ a, Refuses (f a)) (as : List α) :
    Refuses (as.mapM f) := by
  induction as with
  | nil => exact refuses_ok []
  | cons a as ih =>
    rw [List.mapM_cons]
    exact (hf a).bind fun _ => ih.bind fun _ => refuses_ok _

theorem Refuses.ne_ok {x : Except Status α} (hx : Refuses x) {e : Status} (h : x = .error e) :
    e ≠ .ok := by
  rintro rfl
  exact absurd (hx.refusal _ h) (by simp [Status.isRefusal])

end Refuses

/-! ## Checks of documents and passages -/

/-- A check is passed or refused. -/
def Verdict (s : Status) : Prop := s = .ok ∨ s.isRefusal = true

theorem Verdict.next {s t : Status} (hs : Verdict s) (ht : Verdict t) : Verdict (s.next t) := by
  unfold Status.next
  split
  · exact ht
  · exact hs

theorem Verdict.refusal {s : Status} (hs : Verdict s) (h : s ≠ .ok) : s.isRefusal = true :=
  hs.resolve_left h

theorem verdict_ite {c : Prop} [Decidable c] {s t : Status} (hs : c → Verdict s)
    (ht : ¬c → Verdict t) : Verdict (if c then s else t) := by
  split
  · rename_i h
    exact hs h
  · rename_i h
    exact ht h

theorem verdict_bytesView (v : Bytes) (n : Nat) (r : Bool) : Verdict (bytesViewValidate v n r) := by
  unfold bytesViewValidate
  refine verdict_ite (fun _ => Or.inr rfl) fun _ => verdict_ite (fun _ => Or.inr rfl) fun _ => ?_
  exact verdict_ite (fun _ => Or.inr rfl) fun _ => Or.inl rfl

theorem verdict_document (d : Document) : Verdict (documentValidate d) := by
  unfold documentValidate
  refine (verdict_bytesView _ _ _).next <| (verdict_bytesView _ _ _).next <|
    (verdict_bytesView _ _ _).next <| (verdict_bytesView _ _ _).next <|
    (verdict_bytesView _ _ _).next ?_
  exact verdict_ite (fun _ => Or.inr rfl) fun _ => Or.inl rfl

theorem verdict_passage (p : Passage) : Verdict (passageValidate p) := by
  unfold passageValidate
  refine (verdict_bytesView _ _ _).next <| (verdict_bytesView _ _ _).next <|
    (verdict_bytesView _ _ _).next ?_
  exact verdict_ite (fun _ => Or.inr rfl) fun _ => Or.inl rfl

theorem verdict_segmentCount (existing added : Nat) :
    Verdict (segmentCountValidate existing added) :=
  verdict_ite (fun _ => Or.inr rfl) fun _ => Or.inl rfl

theorem verdict_uniqueIds (ops : List IngestOperation) : Verdict (validateUniqueIds ops) :=
  verdict_ite (fun _ => Or.inl rfl) fun _ => Or.inr rfl

/-! ## Preparing units -/

section Prepare

variable (env : Env) (cfg : Config)

theorem refuses_tokenizeField (icu : Icu) (text : Bytes) (ty : ObjectType) (n : Nat) (f : Field) :
    Refuses (tokenizeField icu text ty n f) := by
  unfold tokenizeField
  split
  · exact refuses_ok _
  · refine Refuses.map ?_ _
    unfold unicodeTokenize
    split
    · exact refuses_error rfl
    · exact refuses_ok _

theorem refuses_preparePassages (icu : Icu) (i : Nat) (ps : List Passage) :
    Refuses (preparePassages icu i ps) := by
  induction ps generalizing i with
  | nil => exact refuses_ok _
  | cons p ps ih =>
    rw [preparePassages]
    split
    · rename_i h
      exact refuses_error ((verdict_passage p).refusal h)
    · exact (refuses_tokenizeField ..).bind fun _ => (ih _).bind fun _ => refuses_ok _

theorem refuses_lexicalPrepareUnit (icu : Icu) (d : Document) (ps : List Passage) :
    Refuses (lexicalPrepareUnit icu d ps) := by
  unfold lexicalPrepareUnit
  split
  · rename_i h
    exact refuses_error ((verdict_document d).refusal h)
  · exact (refuses_tokenizeField ..).bind fun _ => (refuses_tokenizeField ..).bind fun _ =>
      (refuses_preparePassages ..).bind fun _ => refuses_ok _

theorem refuses_scalarEntry (field : Nat) (v : Json) : Refuses (scalarEntry field v) := by
  cases v with
  | number text =>
    rw [scalarEntry]
    split
    · exact refuses_error rfl
    · exact refuses_ok _
  | _ => exact refuses_ok _

theorem refuses_arrayEntries (field : Nat) (vs : List Json) : Refuses (arrayEntries field vs) := by
  induction vs with
  | nil => exact refuses_ok _
  | cons v vs ih => exact (refuses_scalarEntry field v).bind fun _ => ih.bind fun _ => refuses_ok _

theorem refuses_valueEntries (field : Nat) (v : Json) : Refuses (valueEntries field v) := by
  cases v with
  | arr items => exact refuses_arrayEntries field items
  | _ =>
    rw [valueEntries]
    · exact refuses_scalarEntry field _
    · simp

theorem refuses_fieldEntries (root : Json) (i : Nat) (paths : List Bytes) :
    Refuses (fieldEntries root i paths) := by
  induction paths generalizing i with
  | nil => exact refuses_ok _
  | cons path paths ih =>
    rw [fieldEntries]
    cases root.pathValue (pathSteps path) with
    | none => exact (ih _).bind fun _ => refuses_ok _
    | some v =>
      exact (refuses_valueEntries i v).bind fun _ => (ih _).bind fun _ => refuses_ok _

theorem refuses_documentMetadata (yyjsonRead : Bytes → Option Json) (fields : List Bytes)
    (d : Document) : Refuses (documentMetadata yyjsonRead fields d) := by
  unfold documentMetadata
  split
  · exact refuses_error rfl
  · split
    · exact refuses_fieldEntries _ _ _
    · exact refuses_error rfl

theorem refuses_prepareUnit (u : SegmentUnit) : Refuses (prepareUnit env cfg u) := by
  cases u with
  | tombstone id => exact refuses_ok _
  | document d ps vs =>
    exact (refuses_lexicalPrepareUnit ..).bind fun _ =>
      (refuses_documentMetadata ..).bind fun _ => refuses_ok _

theorem refuses_planLoop (segmentIdBytes : Nat) (policy : SizePolicy)
    (rest : List (SegmentUnit × UnitSize)) (i first : Nat) (s : Sizer) (slices : List Slice) :
    Refuses (planLoop cfg segmentIdBytes policy rest i first s slices) := by
  induction rest generalizing i first s slices with
  | nil => exact refuses_ok _
  | cons x rest ih =>
    obtain ⟨unit, u⟩ := x
    rw [planLoop]
    split
    · exact ih _ _ _ _
    · split
      · split
        · exact refuses_error rfl
        · dsimp only
          split
          · exact ih _ _ _ _
          · exact refuses_error rfl
      · split
        · exact ih _ _ _ _
        · exact refuses_error rfl

/-- **The planner only refuses.** -/
theorem refuses_segmentPlan (units : List SegmentUnit) (segmentIdBytes : Nat)
    (policy : SizePolicy) : Refuses (segmentPlan env cfg units segmentIdBytes policy) := by
  unfold segmentPlan
  split
  · exact refuses_error rfl
  · refine (Refuses.mapM (refuses_prepareUnit env cfg) units).bind fun sizes => ?_
    refine (refuses_planLoop cfg _ _ _ _ _ _ _).bind fun out => ?_
    obtain ⟨slices, first, s⟩ := out
    dsimp only
    split
    · exact refuses_error rfl
    · exact refuses_ok _

theorem refuses_unicodeChunk (icu : Icu) (documentId body : Bytes) (maxChars overlapChars : Nat) :
    Refuses (unicodeChunk icu documentId body maxChars overlapChars) := by
  unfold unicodeChunk
  split
  · exact refuses_error rfl
  · split
    · exact refuses_error rfl
    · exact refuses_ok _

/-- **The units of a batch are only refused.** -/
theorem refuses_operationUnits (ops : List IngestOperation) :
    Refuses (operationUnits env cfg ops) := by
  refine Refuses.mapM (fun op => ?_) ops
  unfold operationUnit
  split
  · exact refuses_ok _
  · refine (refuses_unicodeChunk ..).bind fun chunks => ?_
    split
    · exact refuses_error rfl
    · split
      · exact refuses_error rfl
      · exact refuses_ok _

end Prepare

end Yappod

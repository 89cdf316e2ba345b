import Mathlib.Logic.Relation
import Yappod.Indexing.PlannerSizes
import Yappod.Storage.SliceWriter

/-!
# The plan and the files

The planner predicts the payload sizes of a slice without making the files.  `Counted.componentSizes_eq` says
that the prediction is what `segmentSlicePayloads` comes to, and `segment_plan_exact` puts together what a plan is:
a partition, measured exactly, within the hard limit, that only a unit too large by itself can prevent.
-/

set_option autoImplicit false

namespace Yappod

variable {env : Env} {cfg : Config} {segmentIdBytes limit : Nat} {policy : SizePolicy}
  {units us : List SegmentUnit} {s : Sizer} {u : SegmentUnit} {size : UnitSize}

/-- **The sizes that the planner predicts are those of the files.** -/
theorem Counted.componentSizes_eq (h : Counted env cfg us s) :
    componentSizes cfg s segmentIdBytes = sliceSizes env cfg segmentIdBytes us := by
  have hdocuments : 0 < s.documents ↔ ¬unitDocuments us = [] := by
    rw [h.documents, List.length_pos_iff]
  have hpassages : 0 < s.passages ↔ unitPassages us ≠ [] := by
    rw [h.passages, List.length_pos_iff]
  have htombstones : 0 < s.tombstones ↔ ¬unitTombstones us = [] := by
    rw [h.tombstones, List.length_pos_iff]
  have hlexical : ∀ {a b : Nat}, (0 < s.documents → a = b) →
      (if 0 < s.documents then a else 0) = if unitDocuments us = [] then 0 else b := by
    intro a b hab
    by_cases hpos : 0 < s.documents
    · rw [if_pos hpos, if_neg (hdocuments.mp hpos), hab hpos]
    · rw [if_neg hpos, if_pos (not_not.mp (hdocuments.not.mp hpos))]
  rw [componentSizes, sliceSizes, h.documentPayload, hlexical fun hpos => (h.lexical hpos).1,
    hlexical fun hpos => (h.lexical hpos).2.1, hlexical fun hpos => (h.lexical hpos).2.2,
    hlexical fun _ => congrArg (_ + ·) h.metadataPayload]
  congr 6
  · rw [← h.passages, ← h.vectorIdBytes]
    simp only [hpassages]
  · by_cases hpos : 0 < s.tombstones
    · rw [if_pos hpos, if_neg (htombstones.mp hpos), h.tombstonePayload hpos]
    · rw [if_neg hpos, if_pos (not_not.mp (htombstones.not.mp hpos))]

/-! ## Cutting slices -/

/-- One call of `YAP_V2_segment_plan_bisect` that succeeds. -/
def Bisects (slices slices' : List Slice) : Prop := ∃ i, bisect slices i = .ok slices'

/-- Cutting a slice in two leaves no slice empty. -/
theorem bisect_pos {slices slices' : List Slice} (hpos : ∀ sl ∈ slices, 0 < sl.count)
    (h : Bisects slices slices') : ∀ sl ∈ slices', 0 < sl.count := by
  obtain ⟨i, h⟩ := h
  rw [bisect] at h
  split at h
  · cases h
  · rename_i sl hsl
    split at h
    · cases h
    · rename_i hcount
      split at h
      · cases h
      · cases h
        intro x hx
        rcases List.mem_append.mp hx with hx | hx
        · rcases List.mem_append.mp hx with hx | hx
          · exact hpos x (List.mem_of_mem_take hx)
          · simp only [List.mem_cons, List.not_mem_nil, or_false] at hx
            rcases hx with rfl | rfl
            · dsimp only
              omega
            · dsimp only
              omega
        · exact hpos x (List.mem_of_mem_drop hx)

/-- **Any sequence of cuts keeps a partition.** -/
theorem bisects_partition {slices slices' : List Slice} {a b : Nat} (hc : Covers slices a b)
    (h : Relation.ReflTransGen Bisects slices slices') :
    Covers slices' a b ∧ ((∀ sl ∈ slices, 0 < sl.count) → ∀ sl ∈ slices', 0 < sl.count) := by
  induction h with
  | refl => exact ⟨hc, id⟩
  | tail _ hstep ih =>
    obtain ⟨i, hi⟩ := hstep
    exact ⟨bisect_covers ih.1 hi, fun hpos => bisect_pos (ih.2 hpos) ⟨i, hi⟩⟩

/-! ## A unit that is too large -/

/-- A unit that no segment can hold. -/
def TooLarge (env : Env) (cfg : Config) (segmentIdBytes limit : Nat) (u : SegmentUnit) : Prop :=
  maxSegmentDocuments < (unitDocuments [u]).length ∨ maxSegmentPassages < (unitPassages [u]).length ∨
    ∃ n ∈ sliceSizes env cfg segmentIdBytes [u], limit < n

/-- A unit that does not fit into an empty slice is too large. -/
theorem tooLarge_of_projectedFits (hu : prepareUnit env cfg u = .ok size)
    (h : ¬projectedFits cfg {} u size segmentIdBytes limit = true) :
    TooLarge env cfg segmentIdBytes limit u := by
  have hcounted : Counted env cfg [u] (sizerAdd {} u size) := Counted.nil.add hu
  by_contra hsmall
  rw [TooLarge, not_or, not_or] at hsmall
  obtain ⟨hdocuments, hpassages, hsizes⟩ := hsmall
  refine h (decide_eq_true ⟨?_, ?_, ?_⟩)
  · cases u with
    | tombstone id => exact Nat.zero_le _
    | document d ps vs => exact Nat.not_lt.mp hdocuments
  · cases u with
    | tombstone id =>
      cases hu
      exact Nat.zero_le _
    | document d ps vs =>
      obtain ⟨occs, scalars, -, -, rfl⟩ := prepareUnit_document hu
      simpa [unitPassages] using hpassages
  · rw [projected_eq {} u size (prepareUnit_nodup hu), List.all_eq_true]
    intro n hn
    refine decide_eq_true (Nat.not_lt.mp fun hlt => hsizes ⟨n, ?_, hlt⟩)
    rw [← hcounted.componentSizes_eq]
    exact hn

/-- The loop runs out of room only at a unit that does not fit into an empty slice. -/
theorem planLoop_exceeded {rest : List (SegmentUnit × UnitSize)} {i first : Nat} {slices : List Slice}
    (hle : first ≤ i) (hempty : first = i → s = {})
    (h : planLoop cfg segmentIdBytes policy rest i first s slices = .error .segmentCapacityExceeded) :
    ∃ x ∈ rest, ¬projectedFits cfg {} x.1 x.2 segmentIdBytes policy.hardMax = true := by
  induction rest generalizing i first s slices with
  | nil => cases h
  | cons x rest ih =>
    obtain ⟨unit, size⟩ := x
    have step : ∀ {first' s' slices'}, first' ≤ i →
        planLoop cfg segmentIdBytes policy rest (i + 1) first' s' slices' =
          .error .segmentCapacityExceeded →
        ∃ x ∈ (unit, size) :: rest, ¬projectedFits cfg {} x.1 x.2 segmentIdBytes policy.hardMax = true := by
      intro first' s' slices' hle' h'
      obtain ⟨x, hx, hxs⟩ := ih (Nat.le_succ_of_le hle') (fun heq => by omega) h'
      exact ⟨x, List.mem_cons_of_mem _ hx, hxs⟩
    rw [planLoop] at h
    split at h
    · exact step hle h
    · split at h
      · split at h
        · cases h
        · simp only at h
          split at h
          · exact step le_rfl h
          · rename_i hp
            exact ⟨_, List.mem_cons_self, fun hfits => hp (.inr hfits)⟩
      · rename_i hlt
        split at h
        · exact step hle h
        · rename_i hp
          rw [hempty (by omega)] at hp
          exact ⟨_, List.mem_cons_self, hp⟩

theorem next_ne {s t e : Status} (hs : s ≠ e) (ht : t ≠ e) : s.next t ≠ e := by
  rw [Status.next]
  split
  · exact ht
  · exact hs

theorem bytesViewValidate_ne (v : Bytes) (n : Nat) (required : Bool) :
    bytesViewValidate v n required ≠ .segmentCapacityExceeded := by
  rw [bytesViewValidate]
  split
  · exact Status.noConfusion
  · split
    · exact Status.noConfusion
    · split <;> exact Status.noConfusion

theorem documentValidate_ne (d : Document) : documentValidate d ≠ .segmentCapacityExceeded := by
  refine next_ne (bytesViewValidate_ne _ _ _) (next_ne (bytesViewValidate_ne _ _ _)
    (next_ne (bytesViewValidate_ne _ _ _) (next_ne (bytesViewValidate_ne _ _ _)
      (next_ne (bytesViewValidate_ne _ _ _) ?_))))
  split <;> exact Status.noConfusion

theorem passageValidate_ne (p : Passage) : passageValidate p ≠ .segmentCapacityExceeded := by
  refine next_ne (bytesViewValidate_ne _ _ _) (next_ne (bytesViewValidate_ne _ _ _)
    (next_ne (bytesViewValidate_ne _ _ _) ?_))
  split <;> exact Status.noConfusion

/-- A step that does not fail for lack of room. -/
def NotExceeded {α : Type} (x : Except Status α) : Prop := x ≠ .error .segmentCapacityExceeded

theorem NotExceeded.ok {α : Type} (a : α) : NotExceeded (.ok a) := fun h => by cases h

theorem NotExceeded.error {α : Type} {e : Status} (h : e ≠ .segmentCapacityExceeded) :
    NotExceeded (.error e : Except Status α) := fun heq => h (Except.error.inj heq)

theorem NotExceeded.bind {α β : Type} {x : Except Status α} {f : α → Except Status β}
    (hx : NotExceeded x) (hf : ∀ a, NotExceeded (f a)) : NotExceeded (x >>= f) := by
  cases x with
  | error e => exact fun h => hx (congrArg _ (Except.error.inj h))
  | ok a => exact hf a

theorem tokenizeField_notExceeded (icu : Icu) (text : Bytes) (ty : ObjectType) (n : Nat) (f : Field) :
    NotExceeded (tokenizeField icu text ty n f) := by
  rw [tokenizeField]
  split
  · exact .ok _
  · rw [unicodeTokenize]
    cases icu.normalize text with
    | none => exact .error Status.noConfusion
    | some chars => exact .ok _

theorem preparePassages_notExceeded (icu : Icu) (i : Nat) (ps : List Passage) :
    NotExceeded (preparePassages icu i ps) := by
  induction ps generalizing i with
  | nil => exact .ok _
  | cons p ps ih =>
    rw [preparePassages]
    split
    · exact .error (passageValidate_ne p)
    · exact (tokenizeField_notExceeded _ _ _ _ _).bind fun _ => (ih _).bind fun _ => .ok _

theorem scalarEntry_notExceeded (field : Nat) (v : Json) : NotExceeded (scalarEntry field v) := by
  cases v with
  | number text =>
    rw [scalarEntry]
    split
    · exact .error Status.noConfusion
    · exact .ok _
  | _ => exact .ok _

theorem arrayEntries_notExceeded (field : Nat) (vs : List Json) : NotExceeded (arrayEntries field vs) := by
  induction vs with
  | nil => exact .ok _
  | cons v vs ih => exact (scalarEntry_notExceeded _ _).bind fun _ => ih.bind fun _ => .ok _

theorem valueEntries_notExceeded (field : Nat) (v : Json) : NotExceeded (valueEntries field v) := by
  rw [valueEntries.eq_def]
  split
  · exact arrayEntries_notExceeded _ _
  · exact scalarEntry_notExceeded _ _

theorem fieldEntries_notExceeded (root : Json) (i : Nat) (paths : List Bytes) :
    NotExceeded (fieldEntries root i paths) := by
  induction paths generalizing i with
  | nil => exact .ok _
  | cons path paths ih =>
    have hrest : ∀ here : List MetadataScalar, NotExceeded (do
        let rest ← fieldEntries root (i + 1) paths
        return here ++ rest) := fun here => (ih _).bind fun _ => .ok _
    rw [fieldEntries]
    split
    · exact (NotExceeded.ok _).bind hrest
    · exact (valueEntries_notExceeded _ _).bind hrest

theorem documentMetadata_notExceeded (yyjsonRead : Bytes → Option Json) (fields : List Bytes)
    (d : Document) : NotExceeded (documentMetadata yyjsonRead fields d) := by
  rw [documentMetadata]
  split
  · exact .error Status.noConfusion
  · split
    · exact fieldEntries_notExceeded _ _ _
    · exact .error Status.noConfusion

theorem lexicalPrepareUnit_notExceeded (icu : Icu) (d : Document) (ps : List Passage) :
    NotExceeded (lexicalPrepareUnit icu d ps) := by
  rw [lexicalPrepareUnit]
  split
  · exact .error (documentValidate_ne d)
  · exact (tokenizeField_notExceeded _ _ _ _ _).bind fun _ =>
      (tokenizeField_notExceeded _ _ _ _ _).bind fun _ =>
        (preparePassages_notExceeded _ _ _).bind fun _ => .ok _

/-- Preparing the units never fails for lack of room. -/
theorem prepareUnit_notExceeded (u : SegmentUnit) : NotExceeded (prepareUnit env cfg u) := by
  cases u with
  | tombstone id => exact .ok _
  | document d ps vs =>
    exact (lexicalPrepareUnit_notExceeded _ _ _).bind fun _ =>
      (documentMetadata_notExceeded _ _ _).bind fun _ => .ok _

theorem mapM_prepareUnit_notExceeded (units : List SegmentUnit) :
    NotExceeded (units.mapM (prepareUnit env cfg)) := by
  induction units with
  | nil => exact .ok _
  | cons u units ih =>
    rw [List.mapM_cons]
    exact (prepareUnit_notExceeded u).bind fun _ => ih.bind fun _ => .ok _

/-- **Only a unit that is too large by itself exceeds the capacity.** -/
theorem segmentPlan_exceeded
    (h : segmentPlan env cfg units segmentIdBytes policy = .error .segmentCapacityExceeded) :
    ∃ u ∈ units, TooLarge env cfg segmentIdBytes policy.hardMax u := by
  rw [segmentPlan] at h
  split at h
  · cases h
  · cases hm : units.mapM (prepareUnit env cfg) with
    | error e =>
      rw [hm] at h
      cases h
      exact absurd hm (mapM_prepareUnit_notExceeded units)
    | ok sizes =>
      rw [hm] at h
      obtain ⟨hfst, hsized⟩ := zip_of_mapM hm
      cases hl : planLoop cfg segmentIdBytes policy (units.zip sizes) 0 0 {} [] with
      | error e =>
        simp only [Bind.bind, Except.bind, hl] at h
        cases h
        obtain ⟨x, hx, hxs⟩ := planLoop_exceeded le_rfl (fun _ => rfl) hl
        refine ⟨x.1, ?_, tooLarge_of_projectedFits (hsized x hx) hxs⟩
        rw [← hfst]
        exact List.mem_map.mpr ⟨x, hx, rfl⟩
      | ok out =>
        simp only [Bind.bind, Except.bind, hl] at h
        split at h <;> cases h

/-! ## Plans -/

/-- The plan of no units is one slice with nothing in it. -/
theorem segmentPlan_nil {slices : List Slice}
    (h : segmentPlan env cfg [] segmentIdBytes policy = .ok slices) :
    slices = [⟨0, 0, componentSizes cfg {} segmentIdBytes⟩] := by
  obtain ⟨-, sizes, closed, first, s, hsizes, hl, -, rfl⟩ := segmentPlan_eq_ok.mp h
  cases hsizes
  cases hl
  rfl

/-- Every slice of a plan is measured exactly. -/
theorem segmentPlan_sizes {slices : List Slice}
    (h : segmentPlan env cfg units segmentIdBytes policy = .ok slices) {sl : Slice} (hsl : sl ∈ slices) :
    sl.payloadBytes = sliceSizes env cfg segmentIdBytes (sl.units units) := by
  rcases eq_or_ne units [] with rfl | hne
  · rw [segmentPlan_nil h, List.mem_singleton] at hsl
    subst hsl
    exact Counted.nil.componentSizes_eq
  · obtain ⟨s, hcounted, -, hbytes⟩ := (segmentPlan_fits hne h sl hsl).sized
    rw [hbytes, hcounted.componentSizes_eq]

/-- **Segment planning is exact.**  The slices of a plan are a partition, and stay one however they are
cut; what the plan predicts of a slice is what is written of it, and is within the hard limit unless there is
nothing to plan; and only a unit that is too large by itself exceeds the capacity. -/
theorem segment_plan_exact (env : Env) (cfg : Config) (units : List SegmentUnit) (segmentIdBytes : Nat)
    (policy : SizePolicy) :
    (∀ slices, segmentPlan env cfg units segmentIdBytes policy = .ok slices →
      (∀ slices', Relation.ReflTransGen Bisects slices slices' →
        Covers slices' 0 units.length ∧ (units ≠ [] → ∀ sl ∈ slices', 0 < sl.count)) ∧
      (∀ sl ∈ slices, ∀ (segmentId : CString) (files : List Bytes),
        segmentId.bytes.length = segmentIdBytes →
        segmentSlicePayloads env cfg segmentId (sl.units units) = .ok files →
        files.map List.length = sl.payloadBytes) ∧
      (units ≠ [] → ∀ sl ∈ slices, ∀ n ∈ sl.payloadBytes, n ≤ policy.hardMax)) ∧
    (segmentPlan env cfg units segmentIdBytes policy = .error .segmentCapacityExceeded →
      ∃ u ∈ units, TooLarge env cfg segmentIdBytes policy.hardMax u) := by
  refine ⟨fun slices h => ⟨fun slices' hcuts => ?_, fun sl hsl segmentId files hid hfiles => ?_,
    fun hne sl hsl n hn => ?_⟩, segmentPlan_exceeded⟩
  · obtain ⟨hcovers, hpos⟩ := bisects_partition (segmentPlan_covers h) hcuts
    refine ⟨hcovers, fun hne => hpos fun sl hsl => Nat.pos_of_ne_zero fun hzero => ?_⟩
    refine (segmentPlan_fits hne h sl hsl).nonempty ?_
    rw [Slice.units, hzero, List.take_zero]
  · rw [segmentSlicePayloads_sizes hfiles, segmentPlan_sizes h hsl, hid]
  · obtain ⟨s, -, hfits, hbytes⟩ := (segmentPlan_fits hne h sl hsl).sized
    rw [hbytes] at hn
    exact hfits.sizes n hn

/-! ## A plan

Two documents with a passage each and a tombstone between them, in an index with vectors of one dimension and
one filterable field `k`; the metadata of both documents is `{"k":true}`. -/

def planEnv : Env where
  icu := plainIcu
  yyjsonRead text := if text = [123] then some (.obj [([107], .bool true)]) else none
  annBytes _ := 1
  configFingerprint _ := [1]
  testPayloadLimit := 0
  annBytes_pos _ := Nat.one_pos

def planConfig : Config where
  tokenizerId := []
  chunkMaxChars := 3
  chunkOverlapChars := 0
  vectorModelId := [109]
  vectorDimensions := 1
  vectorMetric := .cosine
  filterableFields := [[107]]
  overlap_lt := Config.three_chars
  dimensions_pos _ := Nat.one_pos

def planDocument (id : UInt8) : SegmentUnit :=
  .document ⟨[id], [], [97, 32, 98], [97], [123], 0⟩ [⟨[id, 48], [id], [97], 0, 0, 1⟩] [[0]]

def planUnits : List SegmentUnit := [planDocument 120, .tombstone [121], planDocument 122]

def planId : CString := ⟨[115], by decide⟩

/-- The slices of the plan: the tombstone goes with the first document. -/
def planSlices : List Slice :=
  [⟨0, 2, [103, 102, 272, 76, 50, 64, 17]⟩, ⟨2, 1, [103, 102, 272, 76, 50, 64, 0]⟩]

/-- The planner cuts the units in two, and predicts what is written of each part. -/
theorem segment_plan_exact_sample :
    segmentPlan planEnv planConfig planUnits 1 ⟨300, 300, 400⟩ = .ok planSlices ∧
      Covers planSlices 0 3 ∧
      ∀ sl ∈ planSlices, ∃ files,
        segmentSlicePayloads planEnv planConfig planId (sl.units planUnits) = .ok files ∧
          files.map List.length = sl.payloadBytes := by
  have hplan : segmentPlan planEnv planConfig planUnits 1 ⟨300, 300, 400⟩ = .ok planSlices := by
    decide +kernel
  obtain ⟨hcovers, hexact, -⟩ :=
    (segment_plan_exact planEnv planConfig planUnits 1 ⟨300, 300, 400⟩).1 _ hplan
  refine ⟨hplan, (hcovers _ .refl).1, fun sl hsl => ?_⟩
  have hwritten : ∀ sl ∈ planSlices,
      (segmentSlicePayloads planEnv planConfig planId (sl.units planUnits)).toOption.isSome = true := by
    decide +kernel
  cases hfiles : segmentSlicePayloads planEnv planConfig planId (sl.units planUnits) with
  | error status =>
    have := hwritten sl hsl
    rw [hfiles] at this
    cases this
  | ok files => exact ⟨files, rfl, hexact sl hsl planId files rfl hfiles⟩

/-- Of no units the planner makes a slice with a header, which may exceed the limit. -/
theorem segment_plan_empty_exceeds : ∃ slices, segmentPlan planEnv planConfig [] 1 ⟨1, 1, 1⟩ = .ok slices ∧
    ∃ sl ∈ slices, ∃ n ∈ sl.payloadBytes, 1 < n :=
  ⟨_, rfl, _, List.mem_singleton_self _, 25, by decide, by decide⟩

end Yappod

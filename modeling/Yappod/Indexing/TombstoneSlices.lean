import Yappod.Indexing.PlannerExact
import Yappod.Lib.Lines
import Yappod.Storage.SegmentCodec

/-!
# Slices with many tombstones

`YAP_V2_tombstones_read` refuses a file with more than `YAP_V2_MAX_SEGMENT_DOCUMENTS` tombstones.  The planner
counts documents and passages against such limits, but not tombstones, and `YAP_V2_tombstones_write` does not count
them either.  `tombstones_readable_iff` is what follows, `tombstones_over_limit` a slice that a compaction could
make and nobody could open.
-/

set_option autoImplicit false

namespace Yappod

/-- What `YAP_V2_tombstones_write` asks for. -/
theorem tombstonesWrite_eq_ok {generation : UInt64} {ids : List Bytes} {file : Bytes} :
    tombstonesWrite generation ids = .ok file ↔ generation ≠ 0 ∧ (∀ id ∈ ids, TombstoneId id) ∧ ids.Nodup ∧
      (encodeTombstones ids).length ≤ maxSegmentPayloadBytes ∧
        file = yap2File fileTypeTombstones generation (encodeTombstones ids) := by
  rw [tombstonesWrite]
  split
  · rename_i hgen
    exact iff_of_false (by simp) fun h => h.1 hgen
  · rename_i hgen
    rw [and_iff_right hgen]
    constructor
    · intro h
      obtain ⟨payload, hpayload, hfile⟩ := bind_eq_ok.mp h
      obtain ⟨hvalid, hsize, rfl⟩ := payloadCheck_ok_iff.mp hpayload
      obtain ⟨hids, hnodup⟩ := (validateTombstones_eq_ok List.nodup_nil).mp hvalid
      exact ⟨hids, hnodup, hsize, (writeComponent_eq_ok.mp hfile).2⟩
    · rintro ⟨hids, hnodup, hsize, rfl⟩
      refine bind_eq_ok.mpr ⟨_, payloadCheck_ok_iff.mpr ⟨?_, hsize, rfl⟩, ?_⟩
      · exact (validateTombstones_eq_ok List.nodup_nil).mpr ⟨hids, hnodup⟩
      · exact writeComponent_eq_ok.mpr ⟨componentHeader_valid (by decide) hgen _, rfl⟩

/-- **Which tombstones are read back.** -/
theorem tombstonesRead_eq_ok {expected generation : UInt64} {ids : List Bytes} {file : Bytes}
    (hexpected : expected = 0 ∨ expected = generation) (h : tombstonesWrite generation ids = .ok file) :
    tombstonesRead expected file = .ok ids ↔ ids.length ≤ maxSegmentDocuments := by
  obtain ⟨hgen, hids, hnodup, hsize, rfl⟩ := tombstonesWrite_eq_ok.mp h
  have htype : fileHeaderTypeValid fileTypeTombstones = true := by decide
  have hcomponent := (readComponent_eq_ok htype).mpr ⟨⟨hgen, hexpected.imp_right Eq.symm, hsize⟩, rfl⟩
  have hread : tombstonesRead expected (yap2File fileTypeTombstones generation (encodeTombstones ids)) =
      parseTombstonesPayload.whole .invalidFormat (encodeTombstones ids) := by
    rw [tombstonesRead, hcomponent]
    simp only [Bind.bind, Except.bind]
  rw [hread, whole_eq_ok exact_parseTombstonesPayload]
  constructor
  · rintro ⟨⟨hcount, -⟩, -⟩
    exact hcount
  · intro hcount
    exact ⟨⟨hcount, hids, hnodup⟩, rfl⟩

/-- **The tombstones of a file, and of a slice.**  What was written is read back if and only if there are at most
a million of them. -/
theorem tombstones_readable_iff (generation : UInt64) :
    (∀ (expected : UInt64) (ids : List Bytes) (file : Bytes),
      expected = 0 ∨ expected = generation → tombstonesWrite generation ids = .ok file →
      (tombstonesRead expected file = .ok ids ↔ ids.length ≤ maxSegmentDocuments)) ∧
    (∀ (env : Env) (cfg : Config) (segmentId : CString) (us : List SegmentUnit)
        (files : List Bytes), generation ≠ 0 → unitTombstones us ≠ [] →
      segmentSlicePayloads env cfg segmentId us = .ok files →
      ∃ file, tombstonesWrite generation (unitTombstones us) = .ok file ∧
        files.getLast? = some (file.drop fileHeaderBytes) ∧
        (tombstonesRead 0 file = .ok (unitTombstones us) ↔ (unitTombstones us).length ≤ maxSegmentDocuments)) := by
  refine ⟨fun _ _ _ hexpected h => tombstonesRead_eq_ok hexpected h,
    fun env cfg segmentId us files hgen hne h => ?_⟩
  rw [segmentSlicePayloads] at h
  obtain ⟨documents, -, h⟩ := bind_eq_ok.mp h
  obtain ⟨texts, -, h⟩ := bind_eq_ok.mp h
  obtain ⟨vectors, -, h⟩ := bind_eq_ok.mp h
  obtain ⟨tombstones, htombstones, h⟩ := bind_eq_ok.mp h
  cases h
  rw [writeTombstones, if_neg hne] at htombstones
  obtain ⟨hvalid, hsize, rfl⟩ := payloadCheck_ok_iff.mp htombstones
  obtain ⟨hids, hnodup⟩ := (validateTombstones_eq_ok List.nodup_nil).mp hvalid
  have hwrite := tombstonesWrite_eq_ok.mpr ⟨hgen, hids, hnodup, hsize, rfl⟩
  refine ⟨_, hwrite, ?_, tombstonesRead_eq_ok (.inl rfl) hwrite⟩
  rw [yap2File, ← length_bytes (componentHeader fileTypeTombstones generation (encodeTombstones (unitTombstones us))),
    List.drop_left]
  rw [List.append_cons _ vectors, List.getLast?_concat]

theorem tombstones_readable_sample :
    ∃ file, tombstonesWrite 1 [[97], [98]] = .ok file ∧ tombstonesRead 1 file = .ok [[97], [98]] := by
  have hwrite : tombstonesWrite 1 [[97], [98]] =
      .ok (yap2File fileTypeTombstones 1 (encodeTombstones [[97], [98]])) := by decide +kernel
  exact ⟨_, hwrite, ((tombstones_readable_iff 1).1 1 _ _ (.inr rfl) hwrite).mpr (by decide)⟩

/-! ## A slice of tombstones -/

/-- What `prepare_unit` says of a tombstone. -/
def tombstoneSize : UnitSize := ⟨[], 0, 0, 0, 0, 0⟩

section Plan

variable {env : Env} {cfg : Config} {segmentIdBytes : Nat} {policy : SizePolicy}

theorem mapM_tombstones (ids : List Bytes) : (ids.map SegmentUnit.tombstone).mapM (prepareUnit env cfg) =
    .ok (ids.map fun _ => tombstoneSize) := by
  induction ids with
  | nil => rfl
  | cons id ids ih =>
    rw [List.map_cons, List.mapM_cons, ih]
    rfl

/-- Tombstones join an open slice without documents as long as their file is small enough. -/
theorem planLoop_tombstones {ids : List Bytes} {i first : Nat} {s : Sizer} {slices : List Slice}
    (hdocuments : s.documents = 0) (hpassages : s.passages = 0) (hpayload : s.documentPayload = 0)
    (hid : 24 + segmentIdBytes ≤ policy.target)
    (hsize : (if s.tombstones = 0 then 12 else s.tombstonePayload) + (ids.map viewBytes).sum ≤ policy.target) :
    ∃ s', planLoop cfg segmentIdBytes policy (ids.map fun id => (SegmentUnit.tombstone id, tombstoneSize)) i first s
      slices = .ok (slices, first, s') := by
  induction ids generalizing i s with
  | nil => exact ⟨s, rfl⟩
  | cons id ids ih =>
    rw [List.map_cons, List.sum_cons] at hsize
    have hsizes : componentSizes cfg (addTombstone s id) segmentIdBytes =
        [24 + segmentIdBytes, 0, 0, 0, 0, 0, (addTombstone s id).tombstonePayload] := by
      simp [componentSizes, addTombstone, hdocuments, hpassages, hpayload]
    have hnext : (addTombstone s id).tombstonePayload + (ids.map viewBytes).sum ≤ policy.target := by
      show (if s.tombstones = 0 then 12 else s.tombstonePayload) + viewBytes id + _ ≤ _
      omega
    have hfits : projectedFits cfg s (.tombstone id) tombstoneSize segmentIdBytes policy.target = true := by
      refine decide_eq_true ⟨?_, ?_, ?_⟩
      · rw [hdocuments]
        exact Nat.zero_le _
      · rw [hpassages]
        exact Nat.zero_le _
      · show (componentSizes cfg (addTombstone s id) segmentIdBytes).all _ = true
        rw [hsizes]
        simp only [List.all_cons, List.all_nil, Nat.zero_le, decide_true, Bool.true_and, Bool.and_true,
          Bool.and_eq_true, decide_eq_true_eq]
        omega
    rw [List.map_cons, planLoop, if_pos hfits]
    exact ih (s := addTombstone s id) hdocuments hpassages hpayload hnext

theorem zip_tombstones (ids : List Bytes) :
    (ids.map SegmentUnit.tombstone).zip (ids.map fun _ => tombstoneSize) =
      ids.map fun id => (SegmentUnit.tombstone id, tombstoneSize) := by
  induction ids with
  | nil => rfl
  | cons id ids ih => rw [List.map_cons, List.map_cons, List.zip_cons_cons, ih, List.map_cons]

/-- The planner puts tombstones into one slice, however many they are. -/
theorem segmentPlan_tombstones (env : Env) (cfg : Config) (ids : List Bytes) (hid : 0 < segmentIdBytes)
    (hsize : 24 + segmentIdBytes + (12 + (ids.map viewBytes).sum) ≤ 128 * 1024 * 1024) :
    ∃ sl : Slice, segmentPlan env cfg (ids.map SegmentUnit.tombstone) segmentIdBytes (sizePolicy 0) = .ok [sl] ∧
      sl.units (ids.map SegmentUnit.tombstone) = ids.map SegmentUnit.tombstone := by
  have htarget : (sizePolicy 0).target = 128 * 1024 * 1024 := rfl
  have hfirst : ∃ s, planLoop cfg segmentIdBytes (sizePolicy 0)
      (ids.map fun id => (SegmentUnit.tombstone id, tombstoneSize)) 0 0 {} [] = .ok ([], 0, s) :=
    planLoop_tombstones rfl rfl rfl (by omega) (by rw [if_pos rfl]; omega)
  obtain ⟨s, hloop⟩ := hfirst
  refine ⟨⟨0, ids.length, componentSizes cfg s segmentIdBytes⟩, ?_, ?_⟩
  · rw [segmentPlan, if_neg]
    · refine bind_eq_ok.mpr ⟨_, mapM_tombstones ids, ?_⟩
      rw [zip_tombstones]
      refine bind_eq_ok.mpr ⟨_, hloop, ?_⟩
      dsimp only
      rw [if_neg (by decide), List.length_map]
      rfl
    · have h₁ : segmentIdBytes ≠ 0 := by omega
      rw [or_iff_right h₁]
      decide
  · rw [Slice.units, List.drop_zero]
    exact List.take_of_length_le (by rw [List.length_map])

end Plan

theorem units_tombstones (ids : List Bytes) : unitDocuments (ids.map SegmentUnit.tombstone) = [] ∧
    unitPassages (ids.map SegmentUnit.tombstone) = [] ∧ unitTombstones (ids.map SegmentUnit.tombstone) = ids := by
  induction ids with
  | nil => exact ⟨rfl, rfl, rfl⟩
  | cons id ids ih =>
    obtain ⟨h₁, h₂, h₃⟩ := ih
    refine ⟨h₁, h₂, ?_⟩
    rw [List.map_cons, unitTombstones, h₃]

/-- A slice of tombstones is written if its file of tombstones is. -/
theorem segmentSlicePayloads_tombstones (env : Env) (cfg : Config) {ids : List Bytes} {file : Bytes}
    (h : tombstonesWrite 1 ids = .ok file) :
    ∃ files, segmentSlicePayloads env cfg planId (ids.map SegmentUnit.tombstone) = .ok files := by
  obtain ⟨-, hids, hnodup, hsize, -⟩ := tombstonesWrite_eq_ok.mp h
  obtain ⟨hdocuments, hpassages, htombstones⟩ := units_tombstones ids
  have hvalid : validateTombstones [] ids = .ok := (validateTombstones_eq_ok List.nodup_nil).mpr ⟨hids, hnodup⟩
  have hwrite : ∃ payload, writeTombstones (ids.map SegmentUnit.tombstone) = .ok payload := by
    rw [writeTombstones, htombstones]
    split
    · exact ⟨_, rfl⟩
    · exact ⟨_, payloadCheck_ok_iff.mpr ⟨hvalid, hsize, rfl⟩⟩
  obtain ⟨payload, hpayload⟩ := hwrite
  rw [segmentSlicePayloads, hdocuments, hpassages]
  refine ⟨encodeDocuments planId.bytes [] [] :: [[], [], [], []] ++ [[], payload],
    bind_eq_ok.mpr ⟨encodeDocuments planId.bytes [] [], by decide +kernel, ?_⟩⟩
  refine bind_eq_ok.mpr ⟨[[], [], [], []], by rw [writeTexts, if_pos hdocuments], ?_⟩
  refine bind_eq_ok.mpr ⟨[], by rw [writeVectors, if_neg fun h => h.2 hpassages], ?_⟩
  exact bind_eq_ok.mpr ⟨payload, hpayload, rfl⟩

/-- A million and one identifiers. -/
def manyIds : List Bytes := (List.range 1000001).map decimal

theorem length_manyIds : manyIds.length = 1000001 := by
  rw [manyIds, List.length_map, List.length_range]

theorem length_of_mem_manyIds {id : Bytes} (h : id ∈ manyIds) : 0 < id.length ∧ id.length ≤ 7 := by
  obtain ⟨n, hn, rfl⟩ := List.mem_map.mp h
  rw [List.mem_range] at hn
  exact ⟨length_decimal_pos n, length_decimalDigits_le (by omega)⟩

theorem sum_le_length_mul {l : List Nat} {c : Nat} (h : ∀ n ∈ l, n ≤ c) : l.sum ≤ l.length * c := by
  simpa using List.sum_le_card_nsmul l c h

theorem sum_viewBytes_manyIds : (manyIds.map viewBytes).sum ≤ 11000011 := by
  have hle : ∀ n ∈ manyIds.map viewBytes, n ≤ 11 := by
    intro n hn
    obtain ⟨id, hid, rfl⟩ := List.mem_map.mp hn
    have := (length_of_mem_manyIds hid).2
    rw [viewBytes]
    omega
  have hsum := sum_le_length_mul hle
  rwa [List.length_map, length_manyIds] at hsum

/-- The planner and the writers take a million and one tombstones, and the reader does not. -/
theorem tombstones_over_limit :
    (∃ file, tombstonesWrite 1 manyIds = .ok file ∧
      ∀ expected, expected = 0 ∨ expected = 1 → tombstonesRead expected file ≠ .ok manyIds) ∧
    ∃ sl files, segmentPlan planEnv planConfig (manyIds.map SegmentUnit.tombstone) planId.bytes.length (sizePolicy 0) =
        .ok [sl] ∧
      segmentSlicePayloads planEnv planConfig planId (sl.units (manyIds.map SegmentUnit.tombstone)) = .ok files ∧
      unitTombstones (sl.units (manyIds.map SegmentUnit.tombstone)) = manyIds := by
  have hsum := sum_viewBytes_manyIds
  have hids : ∀ id ∈ manyIds, TombstoneId id := by
    intro id hid
    obtain ⟨hpos, hle⟩ := length_of_mem_manyIds hid
    exact ⟨List.ne_nil_of_length_pos hpos, Nat.le_trans hle (by decide)⟩
  have hnodup : manyIds.Nodup := List.nodup_range.map fun _ _ h => decimal_injective h
  have hwrite : tombstonesWrite 1 manyIds = .ok (yap2File fileTypeTombstones 1 (encodeTombstones manyIds)) := by
    refine tombstonesWrite_eq_ok.mpr ⟨by decide, hids, hnodup, ?_, rfl⟩
    rw [length_encodeTombstones, tombstonesBytes, maxSegmentPayloadBytes]
    omega
  refine ⟨⟨_, hwrite, fun expected hexpected hread => ?_⟩, ?_⟩
  · have hcount := (tombstonesRead_eq_ok hexpected hwrite).mp hread
    rw [length_manyIds, maxSegmentDocuments] at hcount
    omega
  · have hid : planId.bytes.length = 1 := rfl
    obtain ⟨sl, hplan, hunits⟩ := segmentPlan_tombstones planEnv planConfig manyIds Nat.one_pos
      (by omega)
    obtain ⟨files, hfiles⟩ := segmentSlicePayloads_tombstones planEnv planConfig hwrite
    refine ⟨sl, files, hplan, ?_, ?_⟩
    · rw [hunits]
      exact hfiles
    · rw [hunits]
      exact (units_tombstones manyIds).2.2

end Yappod

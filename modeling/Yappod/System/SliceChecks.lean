import Yappod.Indexing.PlannerSizes
import Yappod.Storage.VectorCodec
import Yappod.System.Building

/-!
# The checks of a slice

Most checks that precede the files of a slice repeat what `apply_operations` has checked before: the texts have been
validated and tokenized, and the planner keeps every file within its limit.  One of them is new: no two passages of a
slice may have one identifier (`sliceCheck_eq_ok`).
-/

set_option autoImplicit false

namespace Yappod

variable {env : Env} {cfg : Config} {us : List SegmentUnit}

/-! ## Documents and passages -/

theorem preparePassages_valid {icu : Icu} {i : Nat} {ps : List Passage} {occs : List Occurrence}
    (h : preparePassages icu i ps = .ok occs) : ∀ p ∈ ps, passageValidate p = .ok := by
  induction ps generalizing i occs with
  | nil => simp
  | cons p ps ih =>
    rw [preparePassages] at h
    split at h
    · cases h
    · rename_i hp
      obtain ⟨here, -, h⟩ := bind_eq_ok.mp h
      obtain ⟨rest, hrest, -⟩ := bind_eq_ok.mp h
      exact List.forall_mem_cons.mpr ⟨not_not.mp hp, ih hrest⟩

theorem lexicalPrepareUnit_valid {icu : Icu} {d : Document} {ps : List Passage} {occs : List Occurrence}
    (h : lexicalPrepareUnit icu d ps = .ok occs) :
    documentValidate d = .ok ∧ ∀ p ∈ ps, passageValidate p = .ok := by
  rw [lexicalPrepareUnit] at h
  split at h
  · cases h
  · rename_i hd
    obtain ⟨title, -, h⟩ := bind_eq_ok.mp h
    obtain ⟨body, -, h⟩ := bind_eq_ok.mp h
    obtain ⟨passages, hpassages, -⟩ := bind_eq_ok.mp h
    exact ⟨not_not.mp hd, preparePassages_valid hpassages⟩

theorem validateDocuments_eq_ok {seen : List Bytes} {ds : List Document} (hvalid : ∀ d ∈ ds, documentValidate d = .ok)
    (hids : (seen ++ ds.map (·.id)).Nodup) : validateDocuments seen ds = .ok := by
  induction ds generalizing seen with
  | nil => rfl
  | cons d ds ih =>
    obtain ⟨hd, hvalid⟩ := List.forall_mem_cons.mp hvalid
    rw [List.map_cons, List.append_cons] at hids
    have hnew : d.id ∉ seen := (nodup_snoc.mp (List.nodup_append.mp hids).1).2
    rw [validateDocuments, hd, Status.ok_next, if_neg hnew]
    exact ih hvalid hids

/-- Passages that are valid and at different places of their documents are refused for their identifiers only. -/
theorem validatePassages_eq {documentIds : List Bytes} {seen ps : List Passage}
    (hvalid : ∀ p ∈ ps, passageValidate p = .ok) (hparents : ∀ p ∈ ps, p.parentDocumentId ∈ documentIds)
    (hplaces : ((seen ++ ps).map fun p => (p.parentDocumentId, p.ordinal)).Nodup)
    (hseen : (seen.map (·.id)).Nodup) :
    validatePassages documentIds seen ps = if ((seen ++ ps).map (·.id)).Nodup then .ok else .duplicate := by
  induction ps generalizing seen with
  | nil => rw [validatePassages, List.append_nil, if_pos hseen]
  | cons p ps ih =>
    obtain ⟨hp, hvalid⟩ := List.forall_mem_cons.mp hvalid
    obtain ⟨hparent, hparents⟩ := List.forall_mem_cons.mp hparents
    rw [List.append_cons] at hplaces ⊢
    have hplace : ∀ q ∈ seen, ¬ (p.parentDocumentId = q.parentDocumentId ∧ p.ordinal = q.ordinal) := by
      intro q hq hsame
      rw [List.map_append, List.map_append] at hplaces
      refine (nodup_snoc.mp (List.nodup_append.mp hplaces).1).2 ?_
      exact List.mem_map.mpr ⟨q, hq, Prod.ext hsame.1.symm hsame.2.symm⟩
    rw [validatePassages, hp, Status.ok_next, if_neg (not_not.mpr hparent)]
    by_cases hnew : p.id ∈ seen.map (·.id)
    · obtain ⟨q, hq, hid⟩ := List.mem_map.mp hnew
      rw [if_pos (List.any_eq_true.mpr ⟨q, hq, decide_eq_true (.inl hid.symm)⟩), if_neg]
      intro h
      rw [List.map_append, List.map_append] at h
      exact (nodup_snoc.mp (List.nodup_append.mp h).1).2 hnew
    · rw [if_neg]
      · refine ih hvalid hparents hplaces ?_
        rw [List.map_append]
        exact nodup_snoc.mpr ⟨hseen, hnew⟩
      · rw [List.any_eq_true]
        rintro ⟨q, hq, hany⟩
        rcases of_decide_eq_true hany with hid | hsame
        · exact hnew (List.mem_map.mpr ⟨q, hq, hid.symm⟩)
        · exact hplace q hq hsame

theorem validateMetadata_eq_ok {ds : List Document} (hvalid : ∀ d ∈ ds, documentValidate d = .ok)
    (hscalars : ∀ d ∈ ds, ∃ scalars, documentMetadata env.yyjsonRead cfg.filterableFields d = .ok scalars) :
    validateMetadata env cfg ds = .ok := by
  induction ds with
  | nil => rfl
  | cons d ds ih =>
    obtain ⟨hd, hvalid⟩ := List.forall_mem_cons.mp hvalid
    obtain ⟨⟨scalars, hmeta⟩, hscalars⟩ := List.forall_mem_cons.mp hscalars
    rw [validateMetadata, if_neg (not_not.mpr hd), hmeta]
    exact ih hvalid hscalars

theorem validateVectors_of_nodup {seen : List Bytes} {rows : List (Passage × List Scalar)}
    (hvalid : ∀ r ∈ rows, passageValidate r.1 = .ok) (hfinite : ∀ r ∈ rows, ∀ x ∈ r.2, Scalar.isFinite x = true)
    (hids : (seen ++ rows.map fun r => r.1.id).Nodup) : validateVectors seen rows = .ok := by
  induction rows generalizing seen with
  | nil => rfl
  | cons r rows ih =>
    obtain ⟨p, row⟩ := r
    obtain ⟨hp, hvalid⟩ := List.forall_mem_cons.mp hvalid
    obtain ⟨hrow, hfinite⟩ := List.forall_mem_cons.mp hfinite
    rw [List.map_cons, List.append_cons] at hids
    have hnew : p.id ∉ seen := (nodup_snoc.mp (List.nodup_append.mp hids).1).2
    rw [validateVectors, if_neg (not_not.mpr hp), if_neg hnew, if_pos (List.all_eq_true.mpr hrow)]
    exact ih hvalid hfinite hids

/-! ## Units that were checked -/

/-- What the checks of `apply_operations` and of the planner establish about a unit. -/
def SegmentUnit.Checked (env : Env) (cfg : Config) : SegmentUnit → Prop
  | .document d ps vs => (∃ size, prepareUnit env cfg (.document d ps vs) = .ok size) ∧
      (ps.map (·.ordinal)).Nodup ∧ ∀ row ∈ vs, ∀ x ∈ row, Scalar.isFinite x = true
  | .tombstone id => TombstoneId id

theorem SegmentUnit.Checked.document {d : Document} {ps : List Passage} {vs : List (List Scalar)}
    (h : SegmentUnit.Checked env cfg (.document d ps vs)) :
    (documentValidate d = .ok ∧ ∀ p ∈ ps, passageValidate p = .ok) ∧
      ∃ scalars, documentMetadata env.yyjsonRead cfg.filterableFields d = .ok scalars := by
  obtain ⟨⟨size, hsize⟩, -, -⟩ := h
  obtain ⟨occs, scalars, hocc, hmeta, -⟩ := prepareUnit_document hsize
  exact ⟨lexicalPrepareUnit_valid hocc, scalars, hmeta⟩

/-- The units of a slice: each was checked, and they are about different documents. -/
structure SliceChecked (env : Env) (cfg : Config) (us : List SegmentUnit) : Prop where
  units : UnitsOk cfg us
  checked : ∀ u ∈ us, u.Checked env cfg
  tombstones : (unitTombstones us).Nodup

namespace SliceChecked

variable (h : SliceChecked env cfg us)

include h

theorem document {d : Document} (hd : d ∈ unitDocuments us) :
    documentValidate d = .ok ∧ ∃ scalars, documentMetadata env.yyjsonRead cfg.filterableFields d = .ok scalars := by
  rw [unitDocuments_eq] at hd
  obtain ⟨t, ht, rfl⟩ := List.mem_map.mp hd
  have hchecked := (h.checked _ (mem_documentUnits.mp ht)).document
  exact ⟨hchecked.1.1, hchecked.2⟩

theorem passage {p : Passage} (hp : p ∈ unitPassages us) :
    passageValidate p = .ok ∧ p.parentDocumentId ∈ (unitDocuments us).map (·.id) := by
  rw [unitPassages_eq] at hp
  obtain ⟨t, ht, hp⟩ := List.mem_flatMap.mp hp
  have hunit := mem_documentUnits.mp ht
  refine ⟨(h.checked _ hunit).document.1.2 p hp, ?_⟩
  rw [(h.units.ok _ hunit).1 p hp, unitDocuments_eq, List.map_map]
  exact List.mem_map.mpr ⟨t, ht, rfl⟩

omit h in
/-- No two passages are at one place. -/
theorem nodup_places : ∀ {us : List SegmentUnit}, UnitsOk cfg us → (∀ u ∈ us, u.Checked env cfg) →
    ((unitPassages us).map fun p => (p.parentDocumentId, p.ordinal)).Nodup
  | [], _, _ => List.nodup_nil
  | .tombstone _ :: us, hok, hchecked => by
    have hus : UnitsOk cfg us := ⟨(List.forall_mem_cons.mp hok.ok).2, hok.nodup⟩
    have hplaces := nodup_places hus (List.forall_mem_cons.mp hchecked).2
    exact hplaces
  | .document d ps vs :: us, hok, hchecked => by
    obtain ⟨⟨hparent, -⟩, hrest⟩ := List.forall_mem_cons.mp hok.ok
    obtain ⟨⟨-, hordinals, -⟩, hchecked⟩ := List.forall_mem_cons.mp hchecked
    obtain ⟨hnew, hnodup⟩ := List.nodup_cons.mp hok.nodup
    have hus : UnitsOk cfg us := ⟨hrest, hnodup⟩
    rw [unitPassages, List.map_append, List.nodup_append]
    refine ⟨List.Nodup.of_map Prod.snd ?_, nodup_places hus hchecked, ?_⟩
    · rw [List.map_map]
      exact hordinals
    · rintro a ha b hb rfl
      obtain ⟨p, hp, rfl⟩ := List.mem_map.mp ha
      obtain ⟨q, hq, hqp⟩ := List.mem_map.mp hb
      rw [unitPassages_eq] at hq
      obtain ⟨t, ht, hq⟩ := List.mem_flatMap.mp hq
      refine hnew ?_
      rw [unitDocuments_eq, List.map_map]
      refine List.mem_map.mpr ⟨t, ht, ?_⟩
      rw [Function.comp_apply, ← (hrest _ (mem_documentUnits.mp ht)).1 q hq, (Prod.mk.inj hqp).1, hparent p hp]

/-- The views of the slice are refused for the identifiers of its passages only. -/
theorem validateSegmentViews_eq (hdocuments : (unitDocuments us).length ≤ maxSegmentDocuments)
    (hpassages : (unitPassages us).length ≤ maxSegmentPassages) :
    validateSegmentViews (unitDocuments us) (unitPassages us) =
      if ((unitPassages us).map (·.id)).Nodup then .ok else .duplicate := by
  rw [validateSegmentViews, if_neg (by omega), validateDocuments_eq_ok (fun d hd => (h.document hd).1)
    (by simpa using h.units.nodup), Status.ok_next]
  exact validatePassages_eq (fun p hp => (h.passage hp).1) (fun p hp => (h.passage hp).2)
    (nodup_places h.units h.checked) List.nodup_nil

theorem finite {row : List Scalar} (hrow : row ∈ unitVectors us) : ∀ x ∈ row, Scalar.isFinite x = true := by
  rw [unitVectors_eq] at hrow
  obtain ⟨t, ht, hrow⟩ := List.mem_flatMap.mp hrow
  exact (h.checked _ (mem_documentUnits.mp ht)).2.2 row hrow

theorem tombstone {id : Bytes} (hid : id ∈ unitTombstones us) : TombstoneId id :=
  h.checked _ (mem_unitTombstones.mp hid)

/-- With vectors, every passage has one. -/
theorem length_unitVectors (hv : cfg.hasVectors = true) : (unitVectors us).length = (unitPassages us).length := by
  rw [unitVectors_eq, unitPassages_eq, List.length_flatMap, List.length_flatMap]
  refine congrArg List.sum (List.map_congr_left fun t ht => ?_)
  rw [(h.units.ok _ (mem_documentUnits.mp ht)).2, if_pos hv]

/-- The vectors of a slice whose passages have different identifiers. -/
theorem validateVectors_eq_ok (hv : cfg.hasVectors = true) (hids : ((unitPassages us).map (·.id)).Nodup) :
    validateVectors [] ((unitPassages us).zip (unitVectors us)) = .ok := by
  refine validateVectors_of_nodup (fun r hr => (h.passage (List.of_mem_zip hr).1).1)
    (fun r hr => h.finite (List.of_mem_zip hr).2) ?_
  rw [List.nil_append, show (fun r : Passage × List Scalar => r.1.id) = (·.id) ∘ Prod.fst from rfl, ← List.map_map,
    List.map_fst_zip (h.length_unitVectors hv).ge]
  exact hids

/-- What was written is opened. -/
theorem vectorSegmentOpen_eq_ok (hv : cfg.hasVectors = true) (hpassages : (unitPassages us).length ≤ maxSegmentPassages)
    (hids : ((unitPassages us).map (·.id)).Nodup) (generation : Nat) :
    vectorSegmentOpen cfg ⟨generation, vectorsPayload cfg us⟩ = .ok := by
  have hlength : ((unitPassages us).map (·.id)).length = (unitVectors us).length := by
    rw [List.length_map, h.length_unitVectors hv]
  have hfst : (unitEntries us).map (·.1) = (unitPassages us).map (·.id) := List.map_fst_zip hlength.le
  rw [vectorSegmentOpen, vectorsPayload]
  dsimp only
  rw [if_neg (by simp), if_neg, if_pos]
  · refine ⟨List.all_eq_true.mpr fun e he => ?_, hfst.symm ▸ hids⟩
    obtain ⟨hid, hrow⟩ := List.of_mem_zip he
    obtain ⟨p, hp, hpe⟩ := List.mem_map.mp hid
    have hvalid := (h.passage hp).1
    simp only [passageValidate, Status.next_eq_ok] at hvalid
    have hview := hvalid.1
    rw [hpe, bytesViewValidate] at hview
    split_ifs at hview with hempty hlong hnul
    refine decide_eq_true ⟨fun hnil => hempty (by simp [hnil]), Nat.not_lt.mp hlong, hnul, ?_⟩
    exact List.all_eq_true.mpr (h.finite hrow)
  · rw [unitEntries, List.length_zip, List.length_map]
    exact Nat.not_lt.mpr (le_trans (Nat.min_le_left _ _) hpassages)

end SliceChecked

/-! ## All checks of a slice -/

theorem filesStatus_eq_ok {files : List (Status × File)} :
    filesStatus cfg files = .ok ↔ ∀ x ∈ files, fileStatus cfg x = .ok := by
  induction files with
  | nil => simp [filesStatus]
  | cons x files ih => rw [filesStatus, List.foldr_cons, Status.next_eq_ok, List.forall_mem_cons, ← ih, filesStatus]

/-- The files without vectors are not read back. -/
theorem fileStatus_of_ne {x : Status × File} (h : x.2.payload.component ≠ .vectors) : fileStatus cfg x = x.1 := by
  rw [fileStatus, if_neg h]
  cases x.1 <;> rfl

/-- **A slice within the limits is refused only if two of its passages have one identifier.** -/
theorem sliceCheck_eq {kind : SegmentKind} {generation : Nat} (h : SliceChecked env cfg us)
    (hfit : PayloadsFit env cfg kind us) :
    sliceCheck env cfg kind generation us = if ((unitPassages us).map (·.id)).Nodup then .ok else .duplicate := by
  have hviews := h.validateSegmentViews_eq hfit.documentCount hfit.passageCount
  split
  · rename_i hids
    rw [if_pos hids] at hviews
    refine filesStatus_eq_ok.mpr fun x hx => ?_
    simp only [sliceFiles, List.mem_append, List.mem_singleton] at hx
    rcases hx with ((rfl | hx) | hx) | hx
    · rw [fileStatus_of_ne (by simp [documentsPayload, Payload.component]), hviews, Status.ok_next]
      exact hfit.documents _ rfl
    · split at hx
      · cases hx
      · rename_i hne
        simp only [List.mem_cons, List.not_mem_nil, or_false] at hx
        rcases hx with rfl | rfl | rfl | rfl
        · rw [fileStatus_of_ne (by simp [Payload.component]), hfit.terms hne, Status.ok_next, hfit.postings hne,
            Status.ok_next]
          exact hfit.positions hne
        · rw [fileStatus_of_ne (by simp [postingsPayload, Payload.component])]
        · rw [fileStatus_of_ne (by simp [Payload.component])]
        · rw [fileStatus_of_ne (by simp [metadataPayload, Payload.component]), validateMetadata_eq_ok
            (fun d hd => (h.document hd).1) fun d hd => (h.document hd).2, Status.ok_next]
          exact hfit.metadata hne
    · split at hx
      · rename_i hvectors
        simp only [List.mem_cons, List.not_mem_nil, or_false] at hx
        rcases hx with rfl | rfl
        · rw [fileStatus, h.validateVectors_eq_ok hvectors.1 hids, Status.ok_next, hfit.vectors hvectors.1 hvectors.2,
            Status.ok_next]
          split
          · exact h.vectorSegmentOpen_eq_ok hvectors.1 hfit.passageCount hids _
          · rfl
        · rw [fileStatus_of_ne (by simp [Payload.component])]
      · cases hx
    · split at hx
      · cases hx
      · rename_i hne
        obtain rfl := List.mem_singleton.mp hx
        rw [fileStatus_of_ne (by simp [Payload.component]), (validateTombstones_eq_ok List.nodup_nil).mpr
          ⟨fun id hid => h.tombstone hid, by simpa using h.tombstones⟩, Status.ok_next]
        exact hfit.tombstones hne
  · rename_i hids
    rw [if_neg hids] at hviews
    -- the first file is not written
    rw [sliceCheck, sliceFiles, List.append_assoc, List.append_assoc, List.singleton_append, filesStatus, List.foldr_cons,
      fileStatus_of_ne (by simp [documentsPayload, Payload.component]), hviews]
    rfl

/-- **A plan within the limits is refused only if two passages of a slice have one identifier.** -/
theorem planCheck_eq {kind : SegmentKind} {generation : Nat} {units : List SegmentUnit} {slices : List Slice}
    (h : ∀ sl ∈ slices, SliceChecked env cfg (sl.units units) ∧ PayloadsFit env cfg kind (sl.units units)) :
    planCheck env cfg kind generation units slices =
      if ∀ sl ∈ slices, ((unitPassages (sl.units units)).map (·.id)).Nodup then .ok else .duplicate := by
  induction slices with
  | nil => rfl
  | cons sl slices ih =>
    obtain ⟨hsl, h⟩ := List.forall_mem_cons.mp h
    have hrest := ih h
    rw [planCheck] at hrest ⊢
    rw [List.foldr_cons, hrest, sliceCheck_eq hsl.1 hsl.2]
    simp only [List.forall_mem_cons]
    split
    · rename_i hids
      rw [Status.ok_next]
      simp only [hids, true_and]
    · rename_i hids
      simp only [hids, false_and, if_false]
      rfl

end Yappod

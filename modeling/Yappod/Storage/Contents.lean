import Yappod.Storage.Snapshot

/-!
# What a written segment holds

A segment is written from a list of units, and everything else reads it as component files.  This
file closes the circle: the files that the descriptor of a slice names are those of `sliceFiles`
(`describe_file`), and the events they decode to are the units themselves (`describe_events`), the
tombstones before the documents.
-/

set_option autoImplicit false

namespace Yappod

/-- A document unit. -/
abbrev DocumentUnit := Document × List Passage × List (List Scalar)

/-- The document units among the units. -/
def documentUnits : List SegmentUnit → List DocumentUnit
  | [] => []
  | .document d ps vs :: us => (d, ps, vs) :: documentUnits us
  | .tombstone _ :: us => documentUnits us

theorem unitDocuments_eq (us : List SegmentUnit) :
    unitDocuments us = (documentUnits us).map (·.1) := by
  induction us with
  | nil => rfl
  | cons u us ih => cases u <;> simp [unitDocuments, documentUnits, ih]

theorem unitPassages_eq (us : List SegmentUnit) :
    unitPassages us = (documentUnits us).flatMap (·.2.1) := by
  induction us with
  | nil => rfl
  | cons u us ih => cases u <;> simp [unitPassages, documentUnits, ih]

theorem unitVectors_eq (us : List SegmentUnit) :
    unitVectors us = (documentUnits us).flatMap (·.2.2) := by
  induction us with
  | nil => rfl
  | cons u us ih => cases u <;> simp [unitVectors, documentUnits, ih]

theorem mem_documentUnits {us : List SegmentUnit} {t : DocumentUnit} :
    t ∈ documentUnits us ↔ SegmentUnit.document t.1 t.2.1 t.2.2 ∈ us := by
  induction us with
  | nil => simp [documentUnits]
  | cons u us ih => cases u <;> simp [documentUnits, ih, Prod.ext_iff]

theorem mem_unitTombstones {us : List SegmentUnit} {id : Bytes} :
    id ∈ unitTombstones us ↔ SegmentUnit.tombstone id ∈ us := by
  induction us with
  | nil => simp [unitTombstones]
  | cons u us ih => cases u <;> simp [unitTombstones, ih]

theorem documentUnits_append (us vs : List SegmentUnit) :
    documentUnits (us ++ vs) = documentUnits us ++ documentUnits vs := by
  induction us with
  | nil => rfl
  | cons u us ih => cases u <;> simp [documentUnits, ih]

theorem unitTombstones_append (us vs : List SegmentUnit) :
    unitTombstones (us ++ vs) = unitTombstones us ++ unitTombstones vs := by
  induction us with
  | nil => rfl
  | cons u us ih => cases u <;> simp [unitTombstones, ih]

/-- A unit is as the program makes them: the passages name their document, and there is one vector
per passage if there are vectors at all. -/
def SegmentUnit.Ok (cfg : Config) : SegmentUnit → Prop
  | .document d ps vs => (∀ p ∈ ps, p.parentDocumentId = d.id) ∧
      vs.length = if cfg.hasVectors then ps.length else 0
  | .tombstone _ => True

/-- The units of one segment: each as it should be, no document twice. -/
structure UnitsOk (cfg : Config) (us : List SegmentUnit) : Prop where
  ok : ∀ u ∈ us, u.Ok cfg
  nodup : ((unitDocuments us).map (·.id)).Nodup

variable (env : Env) (cfg : Config)

/-- The record a document unit becomes. -/
def unitRecord (t : DocumentUnit) : Record :=
  ⟨t.1, t.2.1, t.2.2, (documentMetadata env.yyjsonRead cfg.filterableFields t.1).toOption.getD []⟩

/-- The events of a list of units: tombstones, then documents. -/
def unitEvents (us : List SegmentUnit) : List (Bytes × Option Record) :=
  (unitTombstones us).map (fun id => (id, none)) ++
    (documentUnits us).map fun t => (t.1.id, some (unitRecord env cfg t))

/-- The event a unit stands for. -/
def SegmentUnit.event : SegmentUnit → Option Record
  | .document d ps vs => some (unitRecord env cfg (d, ps, vs))
  | .tombstone _ => none

/-! ## The events of units

As long as no identifier occurs twice, the order of the units and the way they are spread over
segments do not matter: the last event of an identifier is that of its unit. -/

section Events

variable {env cfg} {us : List SegmentUnit}

theorem mem_unitEvents {x : Bytes × Option Record} :
    x ∈ unitEvents env cfg us ↔ ∃ u ∈ us, u.id = x.1 ∧ u.event env cfg = x.2 := by
  induction us with
  | nil => simp [unitEvents, documentUnits, unitTombstones]
  | cons u us ih =>
    rw [List.exists_mem_cons_iff, ← ih]
    simp only [unitEvents, List.mem_append]
    cases u with
    | document d ps vs =>
      simp only [unitTombstones, documentUnits, List.map_cons, List.mem_cons, Prod.ext_iff,
        SegmentUnit.id, SegmentUnit.event]
      tauto
    | tombstone id =>
      simp only [unitTombstones, documentUnits, List.map_cons, List.mem_cons, Prod.ext_iff,
        SegmentUnit.id, SegmentUnit.event]
      tauto

theorem keys_unitEvents (us : List SegmentUnit) :
    ((unitEvents env cfg us).map Prod.fst).Perm (us.map SegmentUnit.id) := by
  induction us with
  | nil => exact List.Perm.refl _
  | cons u us ih =>
    rw [unitEvents, List.map_append] at ih ⊢
    cases u with
    | document d ps vs => exact List.perm_middle.trans (ih.cons _)
    | tombstone id => exact ih.cons _

theorem keys_flatMap_unitEvents (parts : List (List SegmentUnit)) :
    ((parts.flatMap (unitEvents env cfg)).map Prod.fst).Perm
      (parts.flatten.map SegmentUnit.id) := by
  induction parts with
  | nil => exact List.Perm.refl _
  | cons us parts ih =>
    rw [List.flatMap_cons, List.map_append, List.flatten_cons, List.map_append]
    exact (keys_unitEvents us).append ih

/-- **The last event of each identifier, over segments without repetitions**, is that of its
unit. -/
theorem lastEvent_parts {parts : List (List SegmentUnit)}
    (hnd : (parts.flatten.map SegmentUnit.id).Nodup) (id : Bytes) (e : Option Record) :
    lastEvent (parts.flatMap (unitEvents env cfg)) id = some e ↔
      ∃ u ∈ parts.flatten, u.id = id ∧ u.event env cfg = e := by
  have hkeys : ((parts.flatMap (unitEvents env cfg)).map Prod.fst).Nodup :=
    (keys_flatMap_unitEvents parts).nodup_iff.mpr hnd
  have hmem : (id, e) ∈ parts.flatMap (unitEvents env cfg) ↔
      ∃ u ∈ parts.flatten, u.id = id ∧ u.event env cfg = e := by
    simp only [List.mem_flatMap, mem_unitEvents, List.mem_flatten]
    constructor
    · rintro ⟨us, hus, u, hu, h⟩
      exact ⟨u, ⟨us, hus, hu⟩, h⟩
    · rintro ⟨u, ⟨us, hus, hu⟩, h⟩
      exact ⟨us, hus, u, hu, h⟩
  rw [← hmem]
  exact ⟨mem_of_lastEvent, lastEvent_of_nodup hkeys⟩

end Events

/-! ## The files of a descriptor -/

section Describe

variable (id : SegmentId) (gen : Nat) (us : List SegmentUnit)

/-- The file a slice writes for a component, if it writes one. -/
def sliceFile (c : Component) : Option File :=
  ((sliceFiles env cfg id gen us).find? fun f => f.2.payload.component = c).map (·.2)

/-- A descriptor names the files that were written. -/
theorem describe_file (c : Component) :
    (describe env cfg id gen us).file c = sliceFile env cfg id gen us c := by
  rw [SegmentDescriptor.file, SegmentDescriptor.component, sliceFile, describe, List.find?_map,
    Option.map_map]
  rfl

/-- The contents of a written segment. -/
theorem describe_contents : (describe env cfg id gen us).contents =
    { documents := unitDocuments us
      passages := unitPassages us
      tombstones := unitTombstones us
      entries := if cfg.hasVectors then unitEntries us else []
      scalars := unitMetadata env cfg us } := by
  have hnil : unitPassages us = [] → unitEntries us = [] := fun h => by simp [unitEntries, h]
  have hmeta : unitDocuments us = [] → unitMetadata env cfg us = [] := fun h => by
    simp [unitMetadata, h]
  simp only [SegmentDescriptor.contents, contentsOf, describe_file, sliceFile, sliceFiles]
  by_cases hd : unitDocuments us = [] <;> by_cases ht : unitTombstones us = [] <;>
    by_cases hp : unitPassages us = [] <;> cases hv : cfg.hasVectors <;>
    simp_all [Payload.component, documentsPayload, postingsPayload, metadataPayload,
      vectorsPayload]

end Describe

/-! ## Reading the records back -/

section Records

variable {cfg} {ts : List DocumentUnit}

/-- Each document finds its own passages among all those of the segment. -/
theorem filter_flatMap_passages {α : Type} (f : DocumentUnit → List α) (parent : α → Bytes)
    (hparent : ∀ t ∈ ts, ∀ a ∈ f t, parent a = t.1.id) (hnd : (ts.map (·.1.id)).Nodup)
    {t : DocumentUnit} (ht : t ∈ ts) :
    (ts.flatMap f).filter (fun a => parent a = t.1.id) = f t := by
  induction ts with
  | nil => cases ht
  | cons u ts ih =>
    rw [List.map_cons, List.nodup_cons] at hnd
    rw [List.flatMap_cons, List.filter_append]
    have hu := hparent u (List.mem_cons_self ..)
    rcases List.mem_cons.mp ht with rfl | ht
    · have hown : (f t).filter (fun a => parent a = t.1.id) = f t :=
        List.filter_eq_self.mpr fun a ha => by simpa using hu a ha
      have hrest : (ts.flatMap f).filter (fun a => parent a = t.1.id) = [] := by
        refine List.filter_eq_nil_iff.mpr fun a ha => ?_
        obtain ⟨v, hv, hav⟩ := List.mem_flatMap.mp ha
        rw [decide_eq_true_eq, hparent v (List.mem_cons_of_mem _ hv) a hav]
        intro heq
        exact hnd.1 (List.mem_map.mpr ⟨v, hv, heq⟩)
      rw [hown, hrest, List.append_nil]
    · have hhead : (f u).filter (fun a => parent a = t.1.id) = [] := by
        refine List.filter_eq_nil_iff.mpr fun a ha => ?_
        rw [decide_eq_true_eq, hu a ha]
        intro heq
        exact hnd.1 (List.mem_map.mpr ⟨t, ht, heq.symm⟩)
      rw [hhead, List.nil_append]
      exact ih (fun v hv => hparent v (List.mem_cons_of_mem _ hv)) hnd.2 ht

/-- Zipping two flattened lists whose blocks have the same lengths. -/
theorem zip_flatMap {α β : Type} (f : DocumentUnit → List α) (g : DocumentUnit → List β)
    (h : ∀ t ∈ ts, (g t).length = (f t).length) :
    (ts.flatMap f).zip (ts.flatMap g) = ts.flatMap fun t => (f t).zip (g t) := by
  induction ts with
  | nil => rfl
  | cons t ts ih =>
    rw [List.flatMap_cons, List.flatMap_cons, List.flatMap_cons,
      List.zip_append (h t (List.mem_cons_self ..)).symm,
      ih fun u hu => h u (List.mem_cons_of_mem _ hu)]

end Records

variable {env cfg} {us : List SegmentUnit}

/-- Reading a document unit back from the contents of its segment. -/
theorem record_describe (h : UnitsOk cfg us) (id : SegmentId) (gen j : Nat) {t : DocumentUnit}
    (hj : (documentUnits us)[j]? = some t) :
    (describe env cfg id gen us).contents.record j t.1 = unitRecord env cfg t := by
  have ht : t ∈ documentUnits us := List.mem_of_getElem? hj
  have hok : ∀ t ∈ documentUnits us, (∀ p ∈ t.2.1, p.parentDocumentId = t.1.id) ∧
      t.2.2.length = if cfg.hasVectors then t.2.1.length else 0 :=
    fun t ht => h.ok _ (mem_documentUnits.mp ht)
  have hnd : ((documentUnits us).map (·.1.id)).Nodup := by
    have := h.nodup
    rwa [unitDocuments_eq, List.map_map] at this
  rw [describe_contents, SegmentContents.record, unitRecord]
  congr 1
  · rw [unitPassages_eq]
    exact filter_flatMap_passages (·.2.1) (·.parentDocumentId) (fun t ht => (hok t ht).1) hnd ht
  · -- the vectors: with vectors every block has one entry per passage, without there are none
    dsimp only
    cases hv : cfg.hasVectors with
    | false =>
      have hempty : t.2.2 = [] := by
        have := (hok _ ht).2
        rw [hv] at this
        exact List.eq_nil_of_length_eq_zero this
      simp [hempty]
    | true =>
      have hlen : ∀ t ∈ documentUnits us, t.2.2.length = t.2.1.length := fun t ht => by
        have := (hok t ht).2
        rwa [hv, if_pos rfl] at this
      rw [if_pos rfl, unitEntries, unitPassages_eq, unitVectors_eq, List.map_flatMap,
        zip_flatMap _ _ (fun t ht => by rw [List.length_map]; exact hlen t ht),
        zip_flatMap _ _ (fun t ht => by rw [List.length_zip, List.length_map, hlen t ht, min_self]),
        filter_flatMap_passages _ (fun pe : Passage × Bytes × List Scalar => pe.1.parentDocumentId)
          (fun t ht a ha => (hok t ht).1 a.1 (List.of_mem_zip ha).1) hnd ht]
      refine List.ext_getElem ?_ fun i h₁ h₂ => ?_
      · simp [hlen t ht]
      · simp
  · rw [unitMetadata, unitDocuments_eq]
    simp [hj]

/-- **The events of a written segment are those of its units.** -/
theorem describe_events (h : UnitsOk cfg us) (id : SegmentId) (gen : Nat) :
    (describe env cfg id gen us).contents.events = unitEvents env cfg us := by
  rw [SegmentContents.events, unitEvents]
  congr 1
  · rw [describe_contents]
  · have hdoc : (describe env cfg id gen us).contents.documents =
        (documentUnits us).map (·.1) := by rw [describe_contents, unitDocuments_eq]
    refine List.ext_getElem? fun j => ?_
    rw [List.getElem?_mapIdx, hdoc, List.getElem?_map, List.getElem?_map]
    cases hj : (documentUnits us)[j]? with
    | none => rfl
    | some t => simp [record_describe h id gen j hj]

end Yappod

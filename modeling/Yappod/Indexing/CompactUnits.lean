import Yappod.Indexing.Compact
import Yappod.Storage.Contents

/-!
# What a compaction collects

`collectUnits` keeps of a range of segments the last event of every identifier, and drops the
tombstones when the range is the whole index.  `collectUnits_spec` says so, for sources that were
written from units; `lastEvent_slices` concludes that the segments written from the units, however
they are cut into slices, leave the same records as the range did.
-/

set_option autoImplicit false

namespace Yappod

variable (env : Env) (cfg : Config)

/-- What `load_source` reads of a segment written from units. -/
def sourceOf (us : List SegmentUnit) : CompactionSource :=
  ⟨unitDocuments us, unitPassages us, unitTombstones us,
    if cfg.hasVectors = true then unitEntries us else []⟩

/-- A unit at its place in the range. -/
abbrev PlacedUnit := Bytes × CompactionEvent × SegmentUnit

/-- The documents of a source at their places, from the `j`-th on. -/
def placedDocuments (i : Nat) : Nat → List DocumentUnit → List PlacedUnit
  | _, [] => []
  | j, t :: ts => (t.1.id, ⟨i, j, true⟩, .document t.1 t.2.1 t.2.2) :: placedDocuments i (j + 1) ts

/-- The tombstones of a source at their places, from the `j`-th on. -/
def placedTombstones (i : Nat) : Nat → List Bytes → List PlacedUnit
  | _, [] => []
  | j, id :: ids => (id, ⟨i, j, false⟩, .tombstone id) :: placedTombstones i (j + 1) ids

/-- The units of all sources at their places, from the `i`-th source on. -/
def placedUnits : Nat → List (List SegmentUnit) → List PlacedUnit
  | _, [] => []
  | i, us :: uss => placedTombstones i 0 (unitTombstones us) ++
      placedDocuments i 0 (documentUnits us) ++ placedUnits (i + 1) uss

/-! ## Places are unique -/

theorem placedDocuments_place {i j : Nat} {ts : List DocumentUnit} {x : PlacedUnit}
    (h : x ∈ placedDocuments i j ts) :
    x.2.1.source = i ∧ x.2.1.document = true ∧ j ≤ x.2.1.ordinal := by
  induction ts generalizing j with
  | nil => cases h
  | cons t ts ih =>
    rcases List.mem_cons.mp h with rfl | h
    · exact ⟨rfl, rfl, le_rfl⟩
    · obtain ⟨h₁, h₂, h₃⟩ := ih h
      exact ⟨h₁, h₂, by omega⟩

theorem placedTombstones_place {i j : Nat} {ids : List Bytes} {x : PlacedUnit}
    (h : x ∈ placedTombstones i j ids) :
    x.2.1.source = i ∧ x.2.1.document = false ∧ j ≤ x.2.1.ordinal := by
  induction ids generalizing j with
  | nil => cases h
  | cons t ts ih =>
    rcases List.mem_cons.mp h with rfl | h
    · exact ⟨rfl, rfl, le_rfl⟩
    · obtain ⟨h₁, h₂, h₃⟩ := ih h
      exact ⟨h₁, h₂, by omega⟩

theorem placedUnits_place {i : Nat} {uss : List (List SegmentUnit)} {x : PlacedUnit}
    (h : x ∈ placedUnits i uss) : i ≤ x.2.1.source := by
  induction uss generalizing i with
  | nil => cases h
  | cons us uss ih =>
    rw [placedUnits, List.mem_append, List.mem_append] at h
    rcases h with (h | h) | h
    · exact (placedTombstones_place h).1.ge
    · exact (placedDocuments_place h).1.ge
    · exact (Nat.le_succ i).trans (ih h)

theorem nodup_placedDocuments (i j : Nat) (ts : List DocumentUnit) :
    ((placedDocuments i j ts).map (·.2.1)).Nodup := by
  induction ts generalizing j with
  | nil => exact List.nodup_nil
  | cons t ts ih =>
    refine List.nodup_cons.mpr ⟨?_, ih (j + 1)⟩
    rw [List.mem_map]
    rintro ⟨x, hx, heq⟩
    have := (placedDocuments_place hx).2.2
    rw [heq] at this
    exact absurd this (by simp)

theorem nodup_placedTombstones (i j : Nat) (ids : List Bytes) :
    ((placedTombstones i j ids).map (·.2.1)).Nodup := by
  induction ids generalizing j with
  | nil => exact List.nodup_nil
  | cons t ts ih =>
    refine List.nodup_cons.mpr ⟨?_, ih (j + 1)⟩
    rw [List.mem_map]
    rintro ⟨x, hx, heq⟩
    have := (placedTombstones_place hx).2.2
    rw [heq] at this
    exact absurd this (by simp)

/-- No two units have the same place. -/
theorem nodup_placedUnits (i : Nat) (uss : List (List SegmentUnit)) :
    ((placedUnits i uss).map (·.2.1)).Nodup := by
  induction uss generalizing i with
  | nil => exact List.nodup_nil
  | cons us uss ih =>
    rw [placedUnits, List.map_append, List.map_append, List.nodup_append, List.nodup_append]
    refine ⟨⟨nodup_placedTombstones .., nodup_placedDocuments .., ?_⟩, ih (i + 1), ?_⟩
    · rintro _ ha _ hb rfl
      obtain ⟨x, hx, rfl⟩ := List.mem_map.mp ha
      obtain ⟨y, hy, heq⟩ := List.mem_map.mp hb
      have h₁ := (placedTombstones_place hx).2.1
      have h₂ := (placedDocuments_place hy).2.1
      rw [heq, h₁] at h₂
      cases h₂
    · rintro _ ha _ hb rfl
      rw [← List.map_append] at ha
      obtain ⟨x, hx, rfl⟩ := List.mem_map.mp ha
      obtain ⟨y, hy, heq⟩ := List.mem_map.mp hb
      have hy' := placedUnits_place hy
      rw [heq] at hy'
      have hx' : x.2.1.source = i := by
        rcases List.mem_append.mp hx with hx | hx
        · exact (placedTombstones_place hx).1
        · exact (placedDocuments_place hx).1
      omega

/-! ## The events of the range -/

theorem map_placedTombstones (i j : Nat) (ids : List Bytes) :
    (placedTombstones i j ids).map (fun x => (x.1, x.2.1)) =
      ids.mapIdx fun k id => (id, ⟨i, j + k, false⟩) := by
  induction ids generalizing j with
  | nil => rfl
  | cons id ids ih =>
    rw [placedTombstones, List.map_cons, ih, List.mapIdx_cons]
    congr 1
    refine List.ext_getElem? fun k => ?_
    simp only [List.getElem?_mapIdx]
    rw [show j + 1 + k = j + (k + 1) by omega]

theorem map_placedDocuments (i j : Nat) (ts : List DocumentUnit) :
    (placedDocuments i j ts).map (fun x => (x.1, x.2.1)) =
      (ts.map (·.1)).mapIdx fun k d => (d.id, ⟨i, j + k, true⟩) := by
  induction ts generalizing j with
  | nil => rfl
  | cons t ts ih =>
    rw [placedDocuments, List.map_cons, ih, List.map_cons, List.mapIdx_cons]
    congr 1
    refine List.ext_getElem? fun k => ?_
    simp only [List.getElem?_mapIdx]
    rw [show j + 1 + k = j + (k + 1) by omega]

/-- The event table is filled with the places of the units. -/
theorem map_placedUnits (i : Nat) (uss : List (List SegmentUnit)) :
    (placedUnits i uss).map (fun x => (x.1, x.2.1)) =
      rangeEvents i (uss.map (sourceOf cfg)) := by
  induction uss generalizing i with
  | nil => rfl
  | cons us uss ih =>
    rw [placedUnits, List.map_append, List.map_append, ih, List.map_cons, rangeEvents,
      sourceEvents, map_placedTombstones, map_placedDocuments]
    simp only [sourceOf, unitDocuments_eq, Nat.zero_add]

theorem map_placedTombstones_event (i j : Nat) (ids : List Bytes) :
    (placedTombstones i j ids).map (fun x => (x.1, x.2.2.event env cfg)) =
      ids.map fun id => (id, none) := by
  induction ids generalizing j with
  | nil => rfl
  | cons id ids ih =>
    rw [placedTombstones, List.map_cons, List.map_cons, ih]
    rfl

theorem map_placedDocuments_event (i j : Nat) (ts : List DocumentUnit) :
    (placedDocuments i j ts).map (fun x => (x.1, x.2.2.event env cfg)) =
      ts.map fun t => (t.1.id, some (unitRecord env cfg t)) := by
  induction ts generalizing j with
  | nil => rfl
  | cons t ts ih =>
    rw [placedDocuments, List.map_cons, List.map_cons, ih]
    rfl

/-- The units at their places, read as events, are the events of the range. -/
theorem map_placedUnits_event (i : Nat) (uss : List (List SegmentUnit)) :
    (placedUnits i uss).map (fun x => (x.1, x.2.2.event env cfg)) =
      uss.flatMap (unitEvents env cfg) := by
  induction uss generalizing i with
  | nil => rfl
  | cons us uss ih =>
    rw [placedUnits, List.map_append, List.map_append, ih, List.flatMap_cons, unitEvents,
      map_placedTombstones_event, map_placedDocuments_event]

/-! ## What is kept -/

/-- Cutting off a block at the first element that does not belong to it. -/
theorem takeWhile_block {α : Type} {p : α → Bool} {l r : List α} (hl : ∀ a ∈ l, p a = true)
    (hr : ∀ a ∈ r, p a = false) : (l ++ r).takeWhile p = l := by
  rw [List.takeWhile_append_of_pos hl]
  cases r with
  | nil => simp
  | cons a r => simp [hr a (List.mem_cons_self ..)]

variable {env cfg}

/-- The vector entries of document units. -/
def documentEntries (ts : List DocumentUnit) : List (Bytes × List Scalar) :=
  ts.flatMap fun t => (t.2.1.map (·.id)).zip t.2.2

/-- The documents of a source are kept when theirs is the last event of their identifier; the
passages and vectors of each are found in turn. -/
theorem sourceUnits_eq (events : Table Bytes CompactionEvent) (i : Nat) {ts : List DocumentUnit}
    (hok : ∀ t ∈ ts, (SegmentUnit.document t.1 t.2.1 t.2.2).Ok cfg)
    (hnd : (ts.map (·.1.id)).Nodup) (j : Nat) :
    sourceUnits cfg.hasVectors events i j (ts.map (·.1)) (ts.flatMap (·.2.1))
        (if cfg.hasVectors = true then documentEntries ts else []) =
      .ok (((placedDocuments i j ts).filter fun x => eventIsLatest events x.1 x.2.1).map
        (·.2.2)) := by
  induction ts generalizing j with
  | nil => rfl
  | cons t ts ih =>
    rw [List.map_cons, List.nodup_cons] at hnd
    obtain ⟨hparent, hlen⟩ := hok t (List.mem_cons_self ..)
    have htail := ih (fun u hu => hok u (List.mem_cons_of_mem _ hu)) hnd.2 (j + 1)
    have hown : (t.2.1 ++ ts.flatMap (·.2.1)).takeWhile
        (fun p => p.parentDocumentId = t.1.id) = t.2.1 := by
      refine takeWhile_block (fun p hp => by simpa using hparent p hp) fun p hp => ?_
      obtain ⟨u, hu, hpu⟩ := List.mem_flatMap.mp hp
      have hpar := (hok u (List.mem_cons_of_mem _ hu)).1 p hpu
      simp only [decide_eq_false_iff_not]
      intro heq
      exact hnd.1 (List.mem_map.mpr ⟨u, hu, hpar.symm.trans heq⟩)
    -- the entries of this document come first, and there are as many as it has passages
    have hes : ∀ es : List (Bytes × List Scalar),
        es = (if cfg.hasVectors = true then documentEntries (t :: ts) else []) →
        es.take t.2.1.length =
          (if cfg.hasVectors = true then (t.2.1.map (·.id)).zip t.2.2 else []) ∧
        es.drop t.2.1.length =
          (if cfg.hasVectors = true then documentEntries ts else []) := by
      rintro es rfl
      cases hv : cfg.hasVectors with
      | false => simp
      | true =>
        rw [hv, if_pos rfl] at hlen
        have hzip : ((t.2.1.map (·.id)).zip t.2.2).length = t.2.1.length := by simp [hlen]
        simp only [if_true, documentEntries, List.flatMap_cons]
        exact ⟨by rw [← hzip, List.take_left], by rw [← hzip, List.drop_left]⟩
    rw [List.map_cons, List.flatMap_cons, sourceUnits]
    obtain ⟨htake, hdrop⟩ := hes _ rfl
    simp only [hown, htake, hdrop, List.drop_left, htail]
    rw [placedDocuments, List.filter_cons]
    split
    · rename_i hlatest
      rw [if_neg, List.map_cons]
      · cases hv : cfg.hasVectors with
        | false =>
          rw [hv] at hlen
          have hnil : t.2.2 = [] := List.eq_nil_of_length_eq_zero hlen
          simp [hnil]
        | true =>
          rw [hv, if_pos rfl] at hlen
          simp [List.map_snd_zip, hlen]
      · rintro ⟨hv, hne⟩
        rw [hv, if_pos rfl] at hlen
        rw [hv, if_pos rfl, List.map_fst_zip (by simp [hlen])] at hne
        exact hne rfl
    · rfl

/-- The tombstones of a source are kept when theirs is the last event of their identifier. -/
theorem sourceTombstones_eq (events : Table Bytes CompactionEvent) (i j : Nat) (ids : List Bytes) :
    (ids.mapIdx fun k id => (j + k, id)).filterMap (fun (k, id) =>
        if eventIsLatest events id ⟨i, k, false⟩ then some (SegmentUnit.tombstone id) else none) =
      ((placedTombstones i j ids).filter fun x => eventIsLatest events x.1 x.2.1).map (·.2.2) := by
  induction ids generalizing j with
  | nil => rfl
  | cons id ids ih =>
    have hshift : (ids.mapIdx fun k id => (j + (k + 1), id)) =
        ids.mapIdx fun k id => (j + 1 + k, id) := by
      refine List.ext_getElem? fun k => ?_
      simp only [List.getElem?_mapIdx]
      rw [show j + 1 + k = j + (k + 1) by omega]
    rw [List.mapIdx_cons, List.filterMap_cons, hshift, ih (j + 1), placedTombstones,
      List.filter_cons]
    simp only [Nat.add_zero]
    split <;> simp_all

/-- Is a unit kept when tombstones are dropped? -/
def keepUnit (drop : Bool) (x : PlacedUnit) : Bool := !drop || x.2.1.document

/-- **The units of a range** are those whose event is the last of their identifier. -/
theorem rangeUnits_eq (events : Table Bytes CompactionEvent) (drop : Bool)
    {uss : List (List SegmentUnit)} (hok : ∀ us ∈ uss, UnitsOk cfg us) (i : Nat) :
    rangeUnits cfg.hasVectors drop events i (uss.map (sourceOf cfg)) =
      .ok (((placedUnits i uss).filter fun x =>
        keepUnit drop x && eventIsLatest events x.1 x.2.1).map (·.2.2)) := by
  induction uss generalizing i with
  | nil => rfl
  | cons us uss ih =>
    have hus := hok us (List.mem_cons_self ..)
    have hnd : ((documentUnits us).map (·.1.id)).Nodup := by
      have := hus.nodup
      rwa [unitDocuments_eq, List.map_map] at this
    have hdocs := sourceUnits_eq events i
      (fun t ht => hus.ok _ (mem_documentUnits.mp ht)) hnd 0
    have hentries : (if cfg.hasVectors = true then unitEntries us else []) =
        if cfg.hasVectors = true then documentEntries (documentUnits us) else [] := by
      split
      · rename_i hv
        rw [unitEntries, unitPassages_eq, unitVectors_eq, List.map_flatMap, documentEntries]
        refine zip_flatMap _ _ fun t ht => ?_
        have := (hus.ok _ (mem_documentUnits.mp ht)).2
        rw [hv, if_pos rfl] at this
        rw [this, List.length_map]
      · rfl
    have hts := sourceTombstones_eq events i 0 (unitTombstones us)
    simp only [Nat.zero_add] at hts
    have hrest := ih (fun v hv => hok v (List.mem_cons_of_mem _ hv)) (i + 1)
    -- among the units of one source only the tombstones are ever dropped
    have hkeepT : (placedTombstones i 0 (unitTombstones us)).filter (fun x =>
        keepUnit drop x && eventIsLatest events x.1 x.2.1) = if drop then [] else
        (placedTombstones i 0 (unitTombstones us)).filter fun x =>
          eventIsLatest events x.1 x.2.1 := by
      split
      · rename_i hd
        refine List.filter_eq_nil_iff.mpr fun x hx => ?_
        simp [keepUnit, hd, (placedTombstones_place hx).2.1]
      · rename_i hd
        refine List.filter_congr fun x hx => ?_
        simp [keepUnit, hd]
    have hkeepD : (placedDocuments i 0 (documentUnits us)).filter (fun x =>
        keepUnit drop x && eventIsLatest events x.1 x.2.1) =
        (placedDocuments i 0 (documentUnits us)).filter fun x =>
          eventIsLatest events x.1 x.2.1 := by
      refine List.filter_congr fun x hx => ?_
      simp [keepUnit, (placedDocuments_place hx).2.1]
    rw [List.map_cons, rangeUnits]
    simp only [sourceOf, unitDocuments_eq, unitPassages_eq]
    rw [hentries, hdocs, hts]
    rw [hrest, placedUnits, List.filter_append, List.filter_append, hkeepT, hkeepD]
    cases drop <;> simp [Bind.bind, Except.bind, Pure.pure, Except.pure]

/-! ## The records of the new segments -/

/-- A placed unit is a tombstone or a document of one of the sources, marked as such. -/
theorem mem_placedUnits {i : Nat} {uss : List (List SegmentUnit)} {x : PlacedUnit}
    (h : x ∈ placedUnits i uss) : ∃ us ∈ uss,
      (x.1 ∈ unitTombstones us ∧ x.2.1.document = false ∧ x.2.2 = .tombstone x.1) ∨
      ∃ t ∈ documentUnits us, x.1 = t.1.id ∧ x.2.1.document = true ∧
        x.2.2 = .document t.1 t.2.1 t.2.2 := by
  have hts : ∀ (i j : Nat) (ids : List Bytes), x ∈ placedTombstones i j ids →
      x.1 ∈ ids ∧ x.2.1.document = false ∧ x.2.2 = .tombstone x.1 := by
    intro i j ids
    induction ids generalizing j with
    | nil => intro h; cases h
    | cons id ids ih =>
      intro h
      rcases List.mem_cons.mp h with rfl | h
      · exact ⟨List.mem_cons_self .., rfl, rfl⟩
      · exact ⟨List.mem_cons_of_mem _ (ih _ h).1, (ih _ h).2⟩
  have hds : ∀ (i j : Nat) (ts : List DocumentUnit), x ∈ placedDocuments i j ts →
      ∃ t ∈ ts, x.1 = t.1.id ∧ x.2.1.document = true ∧ x.2.2 = .document t.1 t.2.1 t.2.2 := by
    intro i j ts
    induction ts generalizing j with
    | nil => intro h; cases h
    | cons t ts ih =>
      intro h
      rcases List.mem_cons.mp h with rfl | h
      · exact ⟨t, List.mem_cons_self .., rfl, rfl, rfl⟩
      · obtain ⟨u, hu, h'⟩ := ih _ h
        exact ⟨u, List.mem_cons_of_mem _ hu, h'⟩
  induction uss generalizing i with
  | nil => cases h
  | cons us uss ih =>
    rw [placedUnits, List.mem_append, List.mem_append] at h
    rcases h with (h | h) | h
    · exact ⟨us, List.mem_cons_self .., Or.inl (hts _ _ _ h)⟩
    · exact ⟨us, List.mem_cons_self .., Or.inr (hds _ _ _ h)⟩
    · obtain ⟨v, hv, h'⟩ := ih h
      exact ⟨v, List.mem_cons_of_mem _ hv, h'⟩

/-- A placed unit stands under its own identifier, in one of the sources, and leaves a record just
when it is marked as a document. -/
theorem placed_unit {i : Nat} {uss : List (List SegmentUnit)} {x : PlacedUnit}
    (h : x ∈ placedUnits i uss) : x.2.2.id = x.1 ∧ (∃ us ∈ uss, x.2.2 ∈ us) ∧
      (x.2.1.document = true ↔ x.2.2.event env cfg ≠ none) := by
  obtain ⟨us, hus, ⟨hid, hmark, hunit⟩ | ⟨t, ht, hid, hmark, hunit⟩⟩ := mem_placedUnits h
  · rw [hunit, hmark]
    exact ⟨rfl, ⟨us, hus, mem_unitTombstones.mp hid⟩, by simp [SegmentUnit.event]⟩
  · rw [hunit, hmark, hid]
    exact ⟨rfl, ⟨us, hus, mem_documentUnits.mp ht⟩, by simp [SegmentUnit.event]⟩

/-- **What `collect_range` keeps**: one unit for each identifier of the range, the one of its last
event, and no tombstones if they are dropped. -/
theorem collectUnits_spec (drop : Bool) {uss : List (List SegmentUnit)}
    (hok : ∀ us ∈ uss, UnitsOk cfg us) :
    ∃ units, collectUnits cfg.hasVectors drop (uss.map (sourceOf cfg)) = .ok units ∧
      (units.map SegmentUnit.id).Nodup ∧ (∀ u ∈ units, u.Ok cfg) ∧
      ∀ id e, (∃ u ∈ units, u.id = id ∧ u.event env cfg = e) ↔
        lastEvent (uss.flatMap (unitEvents env cfg)) id = some e ∧ (drop = true → e ≠ none) := by
  obtain ⟨events, hevents, hlook⟩ :
      ∃ t, eventMap (uss.map (sourceOf cfg)) = some t ∧
        ∀ id, t.lookup eventHash id = lastEvent (rangeEvents 0 (uss.map (sourceOf cfg))) id := by
    rw [eventMap]
    by_cases h : (rangeEvents 0 (uss.map (sourceOf cfg))).length = 0
    · rw [List.eq_nil_of_length_eq_zero h]
      exact ⟨_, rfl, fun id => Table.lookup_empty _ id⟩
    · obtain ⟨t, ht, -, hlook⟩ := @Table.lookup_insertAll Bytes CompactionEvent _ eventHash _ _
        (lt_tableCapacity h)
      exact ⟨t, ht, hlook⟩
  set es := placedUnits 0 uss with hes
  have hpos : ∀ id, events.lookup eventHash id = (lastEvent es id).map (·.1) := fun id => by
    rw [hlook, ← map_placedUnits, ← lastEvent_map]
  have hndpos : (es.map (·.2.1)).Nodup := nodup_placedUnits 0 uss
  have hnd : es.Nodup := List.Nodup.of_map _ hndpos
  have hplaced : ∀ x ∈ es, x.2.2.id = x.1 ∧ (∃ us ∈ uss, x.2.2 ∈ us) ∧
      (x.2.1.document = true ↔ x.2.2.event env cfg ≠ none) := fun x hx => placed_unit hx
  -- a place determines its unit, so comparing places is comparing events
  have hlatest : ∀ x ∈ es, (eventIsLatest events x.1 x.2.1 = true ↔ lastEvent es x.1 = some x.2) := by
    intro x hx
    rw [eventIsLatest, decide_eq_true_eq, hpos, Option.map_eq_some_iff]
    constructor
    · rintro ⟨y, hy, hyx⟩
      have hmem := mem_of_lastEvent hy
      have := List.inj_on_of_nodup_map hndpos hmem hx hyx
      rw [hy]
      exact congrArg some (congrArg Prod.snd this)
    · intro h
      exact ⟨_, h, rfl⟩
  refine ⟨_, by rw [collectUnits, hevents]; exact rangeUnits_eq events drop hok 0, ?_, ?_, ?_⟩
  · rw [List.map_map]
    have hids : ((es.filter fun x => keepUnit drop x && eventIsLatest events x.1 x.2.1).map
        (SegmentUnit.id ∘ fun x => x.2.2)) =
        (es.filter fun x => keepUnit drop x && eventIsLatest events x.1 x.2.1).map Prod.fst :=
      List.map_congr_left fun x hx => (hplaced x (List.mem_filter.mp hx).1).1
    rw [hids]
    have hsub : (es.filter fun x => keepUnit drop x && eventIsLatest events x.1 x.2.1).Sublist
        (es.filter fun x => lastEvent es x.1 = some x.2) := by
      have hcongr : (es.filter fun x => lastEvent es x.1 = some x.2) =
          es.filter fun x => eventIsLatest events x.1 x.2.1 :=
        List.filter_congr fun x hx => by rw [Bool.eq_iff_iff, decide_eq_true_eq, hlatest x hx]
      rw [hcongr]
      refine List.monotone_filter_right es fun x hx => ?_
      rw [Bool.and_eq_true] at hx
      exact hx.2
    exact (nodup_keys_filter_last hnd).sublist (hsub.map Prod.fst)
  · intro u hu
    obtain ⟨x, hx, rfl⟩ := List.mem_map.mp hu
    obtain ⟨us, hus, hmem⟩ := (hplaced x (List.mem_filter.mp hx).1).2.1
    exact (hok us hus).ok _ hmem
  · intro id e
    rw [← map_placedUnits_event env cfg 0 uss, ← hes,
      lastEvent_map (fun x : CompactionEvent × SegmentUnit => x.2.event env cfg),
      Option.map_eq_some_iff]
    constructor
    · rintro ⟨u, hu, rfl, rfl⟩
      obtain ⟨x, hx, rfl⟩ := List.mem_map.mp hu
      rw [List.mem_filter, Bool.and_eq_true] at hx
      obtain ⟨hx, hkeep, hlast⟩ := hx
      rw [hlatest x hx] at hlast
      refine ⟨⟨x.2, by rw [(hplaced x hx).1]; exact hlast, rfl⟩, fun hd => ?_⟩
      rw [← (hplaced x hx).2.2]
      simpa [keepUnit, hd] using hkeep
    · rintro ⟨⟨y, hy, rfl⟩, hd⟩
      have hx : (id, y) ∈ es := mem_of_lastEvent hy
      refine ⟨y.2, List.mem_map.mpr ⟨(id, y), ?_, rfl⟩, (hplaced _ hx).1, rfl⟩
      rw [List.mem_filter, Bool.and_eq_true, hlatest _ hx]
      refine ⟨hx, ?_, hy⟩
      cases hdrop : drop with
      | false => simp [keepUnit]
      | true =>
        have := (hplaced _ hx).2.2.mpr (hd hdrop)
        simpa [keepUnit] using this

/-- **The new segments stand for the range.**  Whatever slices the units are cut into, their last
events are those of the range; if tombstones are dropped, what they leave is what the range
leaves. -/
theorem lastEvent_slices {drop : Bool} {uss parts : List (List SegmentUnit)}
    (hok : ∀ us ∈ uss, UnitsOk cfg us)
    (hcollect : collectUnits cfg.hasVectors drop (uss.map (sourceOf cfg)) = .ok parts.flatten) :
    (∀ id, lastEvent (parts.flatMap (unitEvents env cfg)) id =
      lastEvent (uss.flatMap (unitEvents env cfg)) id) ∨
    (drop = true ∧ ∀ id, current (parts.flatMap (unitEvents env cfg)) id =
      current (uss.flatMap (unitEvents env cfg)) id) := by
  obtain ⟨units, hunits, hnd, -, hmem⟩ := @collectUnits_spec env cfg drop uss hok
  rw [hcollect, Except.ok.injEq] at hunits
  subst hunits
  have hlast : ∀ id e, lastEvent (parts.flatMap (unitEvents env cfg)) id = some e ↔
      lastEvent (uss.flatMap (unitEvents env cfg)) id = some e ∧ (drop = true → e ≠ none) :=
    fun id e => (lastEvent_parts hnd id e).trans (hmem id e)
  cases drop with
  | false =>
    refine Or.inl fun id => Option.ext fun e => ?_
    simpa using hlast id e
  | true =>
    refine Or.inr ⟨rfl, fun id => Option.ext fun r => ?_⟩
    simp only [current, Option.join_eq_some_iff, hlast]
    simp

end Yappod

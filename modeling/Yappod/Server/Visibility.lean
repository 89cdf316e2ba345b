import Yappod.Server.Runtime

/-!
# What a snapshot shows

The visibility table of a snapshot is filled in place, later events over earlier ones.  Here its
answers are stated without the table: `lookupDocument_eq_ok` and `lookupDocument_eq_notFound` say
what is found by looking at the segments alone, and `documentVisible_iff` that a document is visible
in the one segment where it is found.
-/

set_option autoImplicit false

namespace Yappod

namespace SegmentContents

/-- A segment has something to say about an identifier. -/
def Mentions (x : SegmentContents) (id : Bytes) : Prop :=
  id ∈ x.tombstones ∨ ∃ d ∈ x.documents, d.id = id

/-- What the segment says of an identifier in the end: its last document of that name, or, if there
is none, that it was removed. -/
def Says (x : SegmentContents) (id : Bytes) : Option Nat → Prop
  | some j => (∃ d, x.documents[j]? = some d ∧ d.id = id) ∧
      ∀ j' d, j < j' → x.documents[j']? = some d → d.id ≠ id
  | none => id ∈ x.tombstones ∧ ∀ d ∈ x.documents, d.id ≠ id

end SegmentContents

namespace Server

/-- `YAP_V2_snapshot_lookup_document`. -/
def Snapshot.lookupDocument (s : Snapshot) (id : Bytes) : Except Status (Nat × Nat) :=
  if id = [] then .error .invalidArgument
  else
    match snapshotLookupDocument s.visibility id with
    | none => .error .notFound
    | some place => .ok place

/-- `YAP_V2_snapshot_document_visible`. -/
def Snapshot.documentVisible (s : Snapshot) (segmentOrdinal : Nat) (id : Bytes) : Bool :=
  segmentOrdinal < s.segments.length ∧ id ≠ [] ∧
    ∃ j ∈ (snapshotLookupDocument s.visibility id), j.1 = segmentOrdinal

/-- The last event of an identifier: what the last segment that mentions it says. -/
def LastEvent (xs : List SegmentContents) (id : Bytes) (s : Nat) (j : Option Nat) : Prop :=
  (∃ x, xs[s]? = some x ∧ x.Says id j) ∧ ∀ s' x, s < s' → xs[s']? = some x → ¬ x.Mentions id

/-! ## The events of one segment -/

/-- The documents of a segment, as events. -/
theorem lastEvent_documents (s : Nat) (ds : List Document) (id : Bytes) (e : VisibilityEntry) :
    lastEvent (ds.mapIdx fun j d => (d.id, (⟨s, some j⟩ : VisibilityEntry))) id = some e ↔
      ∃ j, e = ⟨s, some j⟩ ∧ (∃ d, ds[j]? = some d ∧ d.id = id) ∧
        ∀ j' d, j < j' → ds[j']? = some d → d.id ≠ id := by
  induction ds using List.reverseRecOn with
  | nil => simp
  | append_singleton ds d ih =>
    rw [List.mapIdx_concat, lastEvent_concat]
    by_cases hd : d.id = id
    · rw [if_pos hd, Option.some.injEq]
      constructor
      · rintro rfl
        refine ⟨ds.length, rfl, ⟨d, List.getElem?_concat_length, hd⟩, fun j' d' hlt hd' => ?_⟩
        have hlen := (List.getElem?_eq_some_iff.mp hd').1
        rw [List.length_append, List.length_singleton] at hlen
        omega
      · rintro ⟨j, rfl, ⟨d', hd', -⟩, hlast⟩
        have hlen := (List.getElem?_eq_some_iff.mp hd').1
        rw [List.length_append, List.length_singleton] at hlen
        by_contra hne
        have hlt : j < ds.length := by
          by_contra hle
          exact hne (by rw [show j = ds.length by omega])
        exact hlast ds.length d hlt List.getElem?_concat_length hd
    · rw [if_neg hd, ih]
      refine exists_congr fun j => and_congr_right fun _ => ?_
      -- the last document is of another name
      have hsame : ∀ (j' : Nat) (d' : Document), d'.id = id → ((ds ++ [d])[j']? = some d' ↔ ds[j']? = some d') := by
        intro j' d' hd'
        rw [List.getElem?_append]
        split
        · rfl
        · rename_i hge
          rw [List.getElem?_eq_none (by omega : ds.length ≤ j')]
          constructor
          · intro h
            have hmem := List.mem_of_getElem? h
            rw [List.mem_singleton] at hmem
            exact absurd (hmem ▸ hd') hd
          · rintro ⟨⟩
      refine and_congr (exists_congr fun d' => ?_) ?_
      · exact and_congr_left fun hd' => (hsame j d' hd').symm
      · constructor
        · intro h j' d' hlt hj' hd'
          exact h j' d' hlt ((hsame j' d' hd').mp hj') hd'
        · intro h j' d' hlt hj' hd'
          exact h j' d' hlt ((hsame j' d' hd').mpr hj') hd'

/-- The tombstones of a segment, as events. -/
theorem lastEvent_tombstones (s : Nat) (ids : List Bytes) (id : Bytes) :
    lastEvent (ids.map fun id => (id, (⟨s, none⟩ : VisibilityEntry))) id =
      if id ∈ ids then some ⟨s, none⟩ else none := by
  induction ids with
  | nil => rfl
  | cons i ids ih =>
    rw [List.map_cons, lastEvent, ih]
    by_cases hmem : id ∈ ids
    · simp [hmem]
    · by_cases hi : i = id
      · simp [hmem, hi]
      · simp [hmem, hi, Ne.symm hi]

/-- What a segment says in the end: its documents come after its tombstones. -/
theorem lastEvent_segmentEntries (s : Nat) (x : SegmentContents) (id : Bytes)
    (e : VisibilityEntry) :
    lastEvent (segmentEntries s x) id = some e ↔
      e.segmentOrdinal = s ∧ x.Says id e.documentOrdinal := by
  rw [segmentEntries, lastEvent_append, lastEvent_tombstones]
  cases hdoc : lastEvent (x.documents.mapIdx fun j d => (d.id, (⟨s, some j⟩ : VisibilityEntry)))
      id with
  | some e' =>
    obtain ⟨j, rfl, ⟨d, hd, hid⟩, hlast⟩ := (lastEvent_documents s x.documents id e').mp hdoc
    rw [Option.some_or, Option.some.injEq]
    constructor
    · rintro rfl
      exact ⟨rfl, ⟨d, hd, hid⟩, hlast⟩
    · obtain ⟨s', _ | j'⟩ := e
      · rintro ⟨-, -, hnone⟩
        exact absurd hid (hnone d (List.mem_of_getElem? hd))
      · rintro ⟨rfl, ⟨d', hd', hid'⟩, hlast'⟩
        rcases Nat.lt_trichotomy j j' with hlt | rfl | hlt
        · exact absurd hid' (hlast j' d' hlt hd')
        · rfl
        · exact absurd hid (hlast' j d hlt hd)
  | none =>
    have hnone : ∀ d ∈ x.documents, d.id ≠ id := by
      intro d hd
      obtain ⟨j, hj⟩ := List.getElem?_of_mem hd
      refine lastEvent_eq_none.mp hdoc (d.id, ⟨s, some j⟩) ?_
      rw [List.mem_mapIdx]
      obtain ⟨hlt, hget⟩ := List.getElem?_eq_some_iff.mp hj
      exact ⟨j, hlt, by rw [hget]⟩
    rw [Option.none_or]
    obtain ⟨s', _ | j'⟩ := e
    · simp only [Option.ite_none_right_eq_some, Option.some.injEq, VisibilityEntry.mk.injEq,
        SegmentContents.Says]
      constructor
      · rintro ⟨hmem, rfl, -⟩
        exact ⟨rfl, hmem, hnone⟩
      · rintro ⟨rfl, hmem, -⟩
        exact ⟨hmem, rfl, trivial⟩
    · constructor
      · intro h
        split at h
        · cases h
        · cases h
      · rintro ⟨-, ⟨d, hd, hid⟩, -⟩
        exact absurd hid (hnone d (List.mem_of_getElem? hd))

/-- A segment that does not mention an identifier has no event for it. -/
theorem lastEvent_segmentEntries_eq_none (s : Nat) (x : SegmentContents) (id : Bytes) :
    lastEvent (segmentEntries s x) id = none ↔ ¬ x.Mentions id := by
  rw [lastEvent_eq_none, SegmentContents.Mentions, segmentEntries]
  simp only [List.mem_append, List.mem_map, List.mem_mapIdx, not_or, not_exists, not_and]
  constructor
  · intro h
    refine ⟨fun hmem => h _ (.inl ⟨id, hmem, rfl⟩) rfl, fun d hd hid => ?_⟩
    obtain ⟨j, hlt, hget⟩ := List.getElem_of_mem hd
    exact h _ (.inr ⟨j, hlt, rfl⟩) (by rw [hget]; exact hid)
  · rintro ⟨htomb, hdoc⟩ e (⟨i, hi, rfl⟩ | ⟨j, hlt, rfl⟩) hid
    · exact htomb (hid ▸ hi)
    · exact hdoc _ (List.getElem_mem hlt) hid

/-! ## The events of all segments -/

theorem LastEvent.mentions {xs : List SegmentContents} {id : Bytes} {s : Nat} {j : Option Nat}
    (h : LastEvent xs id s j) : ∃ x ∈ xs, x.Mentions id := by
  obtain ⟨⟨x, hx, hsaid⟩, -⟩ := h
  refine ⟨x, List.mem_of_getElem? hx, ?_⟩
  cases j with
  | none => exact .inl hsaid.1
  | some j =>
    obtain ⟨d, hd, hid⟩ := hsaid.1
    exact .inr ⟨d, List.mem_of_getElem? hd, hid⟩

/-- Whether there is an event at all. -/
theorem lastEvent_visibilityEntries_eq_none (n : Nat) (xs : List SegmentContents) (id : Bytes) :
    lastEvent (visibilityEntries n xs) id = none ↔ ∀ x ∈ xs, ¬ x.Mentions id := by
  induction xs generalizing n with
  | nil => simp [visibilityEntries]
  | cons x xs ih =>
    rw [visibilityEntries, lastEvent_append, Option.or_eq_none_iff, ih,
      lastEvent_segmentEntries_eq_none, List.forall_mem_cons]
    exact and_comm

theorem lastEvent_cons_zero {x : SegmentContents} {xs : List SegmentContents} {id : Bytes}
    {j : Option Nat} :
    LastEvent (x :: xs) id 0 j ↔ x.Says id j ∧ ∀ y ∈ xs, ¬ y.Mentions id := by
  constructor
  · rintro ⟨⟨x, ⟨⟩, hsaid⟩, hlast⟩
    refine ⟨hsaid, fun y hy => ?_⟩
    obtain ⟨s, hs⟩ := List.getElem?_of_mem hy
    exact hlast (s + 1) y (by omega) hs
  · rintro ⟨hsaid, hlast⟩
    refine ⟨⟨x, rfl, hsaid⟩, fun s y hlt hy => ?_⟩
    obtain ⟨s, rfl⟩ : ∃ t, s = t + 1 := ⟨s - 1, by omega⟩
    exact hlast y (List.mem_of_getElem? hy)

theorem lastEvent_cons_succ {x : SegmentContents} {xs : List SegmentContents} {id : Bytes} {s : Nat}
    {j : Option Nat} : LastEvent (x :: xs) id (s + 1) j ↔ LastEvent xs id s j := by
  refine and_congr Iff.rfl ⟨fun h s' y hlt hy => ?_, fun h s' y hlt hy => ?_⟩
  · exact h (s' + 1) y (by omega) hy
  · obtain ⟨s', rfl⟩ : ∃ t, s' = t + 1 := ⟨s' - 1, by omega⟩
    exact h s' y (by omega) hy

/-- The last event of the log is the last one in the order of the segments. -/
theorem lastEvent_visibilityEntries (n : Nat) (xs : List SegmentContents) (id : Bytes)
    (e : VisibilityEntry) :
    lastEvent (visibilityEntries n xs) id = some e ↔
      ∃ s, e.segmentOrdinal = n + s ∧ LastEvent xs id s e.documentOrdinal := by
  induction xs generalizing n with
  | nil => simp [visibilityEntries, LastEvent]
  | cons x xs ih =>
    rw [visibilityEntries, lastEvent_append]
    have hnone := lastEvent_visibilityEntries_eq_none (n + 1) xs id
    cases hrest : lastEvent (visibilityEntries (n + 1) xs) id with
    | some e' =>
      -- a later segment decides
      rw [Option.some_or, ← hrest, ih]
      constructor
      · rintro ⟨s, hs, hlast⟩
        exact ⟨s + 1, by omega, lastEvent_cons_succ.mpr hlast⟩
      · rintro ⟨_ | s, hs, hlast⟩
        · rw [hnone.mpr (lastEvent_cons_zero.mp hlast).2] at hrest
          cases hrest
        · exact ⟨s, by omega, lastEvent_cons_succ.mp hlast⟩
    | none =>
      have hquiet := hnone.mp hrest
      rw [Option.none_or, lastEvent_segmentEntries]
      constructor
      · rintro ⟨hs, hsaid⟩
        exact ⟨0, hs, lastEvent_cons_zero.mpr ⟨hsaid, hquiet⟩⟩
      · rintro ⟨_ | s, hs, hlast⟩
        · exact ⟨hs, (lastEvent_cons_zero.mp hlast).1⟩
        · obtain ⟨y, hy, hmentions⟩ := (lastEvent_cons_succ.mp hlast).mentions
          exact absurd hmentions (hquiet y hy)

/-! ## The answers of a snapshot -/

/-- Building the table can only fail for want of an address space: there is always a slot. -/
theorem buildVisibility_ne_conflict (xs : List SegmentContents) :
    buildVisibility xs ≠ .error .conflict := by
  obtain ⟨table, hbuild, -, -⟩ := snapshotBuildVisibility_spec xs
  rw [buildVisibility, hbuild]
  split <;> simp

/-- What is in the table of a snapshot. -/
theorem buildVisibility_spec {xs : List SegmentContents} {table : Table Bytes VisibilityEntry}
    (h : buildVisibility xs = .ok table) :
    (visibilityEntries 0 xs ≠ [] → ∀ id, (table.find bytesHash id).isSome = true) ∧
      ∀ id, table.lookup bytesHash id = lastEvent (visibilityEntries 0 xs) id := by
  obtain ⟨table', hbuild, hfree, hlook⟩ := snapshotBuildVisibility_spec xs
  rw [buildVisibility, hbuild] at h
  split at h
  · cases h
  · cases h
    refine ⟨fun hne id => ?_, hlook⟩
    obtain ⟨n, -, hfind, -⟩ := Table.exists_find bytesHash (hfree hne) id
    rw [hfind]
    rfl

/-- **What is found**: the last document of that name in the last segment that mentions it. -/
theorem snapshotLookupDocument_eq_some {xs : List SegmentContents}
    {table : Table Bytes VisibilityEntry} (h : buildVisibility xs = .ok table) {id : Bytes}
    {s j : Nat} : snapshotLookupDocument table id = some (s, j) ↔ LastEvent xs id s (some j) := by
  rw [snapshotLookupDocument, (buildVisibility_spec h).2, Option.bind_eq_some_iff]
  constructor
  · rintro ⟨e, he, hj⟩
    obtain ⟨s', hs, hlast⟩ := (lastEvent_visibilityEntries 0 xs id e).mp he
    obtain ⟨j', hj', heq⟩ := Option.map_eq_some_iff.mp hj
    cases heq
    rw [hs, Nat.zero_add, ← hj']
    exact hlast
  · intro hlast
    exact ⟨⟨s, some j⟩, (lastEvent_visibilityEntries 0 xs id _).mpr ⟨s, (Nat.zero_add s).symm, hlast⟩,
      rfl⟩

/-- **What is not found**: there is no event, or the last one is a removal. -/
theorem snapshotLookupDocument_eq_none {xs : List SegmentContents}
    {table : Table Bytes VisibilityEntry} (h : buildVisibility xs = .ok table) {id : Bytes} :
    snapshotLookupDocument table id = none ↔
      (∀ x ∈ xs, ¬ x.Mentions id) ∨ ∃ s, LastEvent xs id s none := by
  rw [snapshotLookupDocument, (buildVisibility_spec h).2]
  cases hlast : lastEvent (visibilityEntries 0 xs) id with
  | none =>
    have hno := (lastEvent_visibilityEntries_eq_none 0 xs id).mp hlast
    exact iff_of_true rfl (.inl hno)
  | some e =>
    obtain ⟨s, hs, he⟩ := (lastEvent_visibilityEntries 0 xs id e).mp hlast
    rw [Option.bind_some, Option.map_eq_none_iff]
    constructor
    · intro hnone
      rw [hnone] at he
      exact .inr ⟨s, he⟩
    · rintro (hno | ⟨s', hs'⟩)
      · obtain ⟨x, hx, hmentions⟩ := he.mentions
        exact absurd hmentions (hno x hx)
      · have hevent := (lastEvent_visibilityEntries 0 xs id ⟨s', none⟩).mpr
          ⟨s', (Nat.zero_add s').symm, hs'⟩
        rw [hlast] at hevent
        cases hevent
        rfl

/-- What the calls of a snapshot say of an identifier. -/
structure Snapshot.Shows (s : Snapshot) (xs : List SegmentContents) (id : Bytes) : Prop where
  /-- A document is found where the last event is. -/
  ok : ∀ i j, s.lookupDocument id = .ok (i, j) ↔ LastEvent xs id i (some j)
  /-- It is not found if there is no event, or if the last one is a removal. -/
  notFound : s.lookupDocument id = .error .notFound ↔
    (∀ x ∈ xs, ¬ x.Mentions id) ∨ ∃ i, LastEvent xs id i none
  /-- It is visible in the segment where it is found, … -/
  visible : ∀ i, s.documentVisible i id = true ↔ ∃ j, s.lookupDocument id = .ok (i, j)
  /-- … which is one segment if the document is live. -/
  one : (∃ i j, LastEvent xs id i (some j)) → ∃! i, s.documentVisible i id = true

theorem Snapshot.shows {s : Snapshot} {xs : List SegmentContents}
    (hxs : s.segments.map (·.contents) = xs) (h : buildVisibility xs = .ok s.visibility) {id : Bytes}
    (hid : id ≠ []) : s.Shows xs id := by
  have hfound := @snapshotLookupDocument_eq_some xs s.visibility h id
  have hlost := @snapshotLookupDocument_eq_none xs s.visibility h id
  have hok : ∀ i j, s.lookupDocument id = .ok (i, j) ↔ LastEvent xs id i (some j) := by
    intro i j
    rw [Snapshot.lookupDocument, if_neg hid, ← hfound]
    cases snapshotLookupDocument s.visibility id with
    | none => simp
    | some place => simp
  have hvisible : ∀ i, s.documentVisible i id = true ↔ ∃ j, s.lookupDocument id = .ok (i, j) := by
    intro i
    rw [Snapshot.documentVisible, decide_eq_true_eq]
    constructor
    · rintro ⟨-, -, ⟨i', j⟩, hmem, rfl⟩
      exact ⟨j, (hok i' j).mpr (hfound.mp hmem)⟩
    · rintro ⟨j, hj⟩
      have hlast := (hok i j).mp hj
      obtain ⟨x, hx, -⟩ := hlast.1
      have hlt := (List.getElem?_eq_some_iff.mp hx).1
      rw [← hxs, List.length_map] at hlt
      exact ⟨hlt, hid, (i, j), hfound.mpr hlast, rfl⟩
  refine ⟨hok, ?_, hvisible, ?_⟩
  · rw [Snapshot.lookupDocument, if_neg hid, ← hlost]
    cases snapshotLookupDocument s.visibility id with
    | none => simp
    | some place => simp
  · rintro ⟨i, j, hlast⟩
    refine ⟨i, (hvisible i).mpr ⟨j, (hok i j).mpr hlast⟩, fun i' hi' => ?_⟩
    obtain ⟨j', hj'⟩ := (hvisible i').mp hi'
    rw [(hok i j).mpr hlast] at hj'
    cases hj'
    rfl

end Server

end Yappod

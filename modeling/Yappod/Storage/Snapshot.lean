import Yappod.Lib.OpenAddressing
import Yappod.Storage.Manifest

/-!
# Snapshot visibility

Which version of a document is the current one.  `snapshotBuildVisibility` runs through the segments
in the order of the manifest, the tombstones of each before its documents, and leaves in a hash table
for every identifier the place of the last event; `snapshotMap` reads records through that table.

`snapshotMap_eq_current` says what the table means: the record at an identifier is what the log of
all events leaves there.
-/

set_option autoImplicit false

namespace Yappod

/-- Everything the index knows of a document. -/
structure Record where
  document : Document
  passages : List Passage
  vectors : List (List Scalar)
  metadata : List MetadataScalar
  deriving DecidableEq

/-- The decoded component files of a segment. -/
structure SegmentContents where
  documents : List Document
  passages : List Passage
  tombstones : List Bytes
  entries : List (Bytes × List Scalar)
  scalars : List (List MetadataScalar)
  deriving DecidableEq

/-- Decode the files of a segment; a file that is not there holds nothing. -/
def contentsOf (file : Component → Option File) : SegmentContents where
  documents := match file .documents with
    | some ⟨_, .documents _ ds _⟩ => ds
    | _ => []
  passages := match file .documents with
    | some ⟨_, .documents _ _ ps⟩ => ps
    | _ => []
  tombstones := match file .tombstones with
    | some ⟨_, .tombstones ids⟩ => ids
    | _ => []
  entries := match file .vectors with
    | some ⟨_, .vectors _ _ es⟩ => es
    | _ => []
  scalars := match file .metadata with
    | some ⟨_, .metadata _ rows⟩ => rows
    | _ => []

/-- The file a descriptor names, by its digest. -/
def SegmentDescriptor.file (d : SegmentDescriptor) (c : Component) : Option File :=
  (d.component c).map (·.checksum.file)

/-- The contents of a segment, as its descriptor pins them down. -/
def SegmentDescriptor.contents (d : SegmentDescriptor) : SegmentContents := contentsOf d.file

namespace SegmentContents

/-- The record of the `j`-th document of a segment. -/
def record (x : SegmentContents) (j : Nat) (d : Document) : Record where
  document := d
  passages := x.passages.filter fun p => p.parentDocumentId = d.id
  vectors := ((x.passages.zip x.entries).filter fun pe => pe.1.parentDocumentId = d.id).map (·.2.2)
  metadata := x.scalars.getD j []

/-- The events of a segment: its tombstones, then its documents. -/
def events (x : SegmentContents) : List (Bytes × Option Record) :=
  x.tombstones.map (fun id => (id, none)) ++
    x.documents.mapIdx fun j d => (d.id, some (x.record j d))

end SegmentContents

/-! ## The table -/

/-- An entry of the visibility table: the segment of the last event, and the document there unless
it is a tombstone. -/
structure VisibilityEntry where
  segmentOrdinal : Nat
  documentOrdinal : Option Nat
  deriving DecidableEq, Repr

/-- `bytes_hash`. -/
def bytesHash (id : Bytes) : Nat := (id.foldl (fun (h : UInt64) b =>
  (h ^^^ b.toUInt64) * 1099511628211) 1469598103934665603).toNat

/-- The events of the `s`-th segment. -/
def segmentEntries (s : Nat) (x : SegmentContents) : List (Bytes × VisibilityEntry) :=
  x.tombstones.map (fun id => (id, ⟨s, none⟩)) ++
    x.documents.mapIdx fun j d => (d.id, ⟨s, some j⟩)

/-- The events of all segments, from the `s`-th on. -/
def visibilityEntries : Nat → List SegmentContents → List (Bytes × VisibilityEntry)
  | _, [] => []
  | s, x :: xs => segmentEntries s x ++ visibilityEntries (s + 1) xs

/-- `snapshot_build_visibility`. -/
def snapshotBuildVisibility (xs : List SegmentContents) : Option (Table Bytes VisibilityEntry) :=
  let entries := visibilityEntries 0 xs
  (Table.empty (tableCapacity entries.length)).insertAll bytesHash entries

/-- `YAP_V2_snapshot_lookup_document`: the segment and the ordinal of the current version. -/
def snapshotLookupDocument (table : Table Bytes VisibilityEntry) (id : Bytes) : Option (Nat × Nat) :=
  (table.lookup bytesHash id).bind fun e => e.documentOrdinal.map fun j => (e.segmentOrdinal, j)

/-- The map from identifiers to records that a snapshot shows. -/
def snapshotMap (xs : List SegmentContents) (id : Bytes) : Option Record :=
  (snapshotBuildVisibility xs).bind fun table =>
    (snapshotLookupDocument table id).bind fun sj =>
      xs[sj.1]?.bind fun x => x.documents[sj.2]?.map (x.record sj.2)

/-- **Building the table never runs out of slots, and it holds the last event of every
identifier.**  Unless there are no events at all a slot stays empty. -/
theorem snapshotBuildVisibility_spec (xs : List SegmentContents) :
    ∃ table, snapshotBuildVisibility xs = some table ∧
      (visibilityEntries 0 xs ≠ [] → table.occupied.card < table.capacity) ∧
      ∀ id, table.lookup bytesHash id = lastEvent (visibilityEntries 0 xs) id := by
  rw [snapshotBuildVisibility]
  by_cases h : visibilityEntries 0 xs = []
  · rw [h]
    exact ⟨_, rfl, fun hne => absurd rfl hne, fun id => Table.lookup_empty _ id⟩
  · have hroom := lt_tableCapacity (mt List.eq_nil_of_length_eq_zero h)
    obtain ⟨table, hbuild, hfree, hlook⟩ :=
      @Table.lookup_insertAll Bytes VisibilityEntry _ bytesHash _ _ hroom
    exact ⟨table, hbuild, fun _ => hfree, hlook⟩

/-- The record an entry points at. -/
def entryRecord (xs : List SegmentContents) (e : VisibilityEntry) : Option Record :=
  e.documentOrdinal.bind fun j =>
    xs[e.segmentOrdinal]?.bind fun x => x.documents[j]?.map (x.record j)

/-- The entries, read as records, are the events. -/
theorem map_visibilityEntries (pre xs : List SegmentContents) :
    (visibilityEntries pre.length xs).map (fun e => (e.1, entryRecord (pre ++ xs) e.2)) =
      xs.flatMap SegmentContents.events := by
  induction xs generalizing pre with
  | nil => rfl
  | cons x xs ih =>
    rw [visibilityEntries, List.map_append, List.flatMap_cons]
    congr 1
    · rw [segmentEntries, SegmentContents.events, List.map_append, List.map_map]
      congr 1
      refine List.ext_getElem (by simp) fun j h₁ h₂ => ?_
      rw [List.length_mapIdx] at h₂
      simp [entryRecord, h₂]
    · have := ih (pre ++ [x])
      rw [List.length_append, List.length_singleton, List.append_assoc] at this
      exact this

/-- **What a snapshot shows** is what the log of all events leaves. -/
theorem snapshotMap_eq_current (xs : List SegmentContents) (id : Bytes) :
    snapshotMap xs id = current (xs.flatMap SegmentContents.events) id := by
  obtain ⟨table, hbuild, -, hlook⟩ := snapshotBuildVisibility_spec xs
  have hev := map_visibilityEntries [] xs
  simp only [List.length_nil, List.nil_append] at hev
  rw [snapshotMap, hbuild, Option.bind_some, snapshotLookupDocument, hlook, current, ← hev,
    lastEvent_map (entryRecord xs)]
  cases lastEvent (visibilityEntries 0 xs) id with
  | none => rfl
  | some e =>
    obtain ⟨s, _ | j⟩ := e
    · rfl
    · rfl

/-! ## The map of a manifest -/

namespace Manifest

/-- The events of an index, oldest first. -/
def events (m : Manifest) : List (Bytes × Option Record) :=
  m.segments.flatMap fun d => d.contents.events

/-- **The logical contents of an index**: from identifiers to records, by snapshot visibility. -/
def logical (m : Manifest) (id : Bytes) : Option Record :=
  snapshotMap (m.segments.map SegmentDescriptor.contents) id

theorem logical_eq_current (m : Manifest) (id : Bytes) : m.logical id = current m.events id := by
  rw [logical, snapshotMap_eq_current, events, List.flatMap_map]

end Manifest

end Yappod

import Yappod.Indexing.Update
import Yappod.Lib.OpenAddressing

/-!
# Compaction

`compact_internal` as a program against the index directory.  It selects a range of segments under
`writer.lock`, gives the lock back while it reads the range (`collectRange`) and writes its live
contents into new segments, takes the lock again, and publishes a manifest in which the new segments
stand in place of the range.  `compaction.lock` is held throughout.
-/

set_option autoImplicit false

namespace Yappod

/-! ## Selecting the range -/

/-- The policy of automatic compaction; only what selects a range. -/
structure CompactionPolicy where
  enabled : Bool
  smallSegmentBytes : Nat
  minSmallSegments : Nat
  deriving DecidableEq, Repr

def compactionMaxSourceSegments : Nat := 8

def compactionMaxSourceBytes : Nat := 512 * 1024 * 1024

def compactionTierWidth : Nat := 4

def compactionFloorDivisor : Nat := 64

/-- `segment_storage_bytes`, saturating at `SIZE_MAX`. -/
def segmentStorageBytes (d : SegmentDescriptor) : Nat :=
  min uint64Max (d.components.map (·.fileBytes)).sum

/-- The tier loop: how many times the upper bound can be widened before it passes `bytes`. -/
def tierLoop (bytes : Nat) : Nat → Nat → Nat → Nat
  | 0, _, tier => tier
  | fuel + 1, upper, tier =>
    if upper ≤ uint64Max / compactionTierWidth ∧ upper * compactionTierWidth ≤ bytes then
      tierLoop bytes fuel (upper * compactionTierWidth) (tier + 1)
    else tier

/-- `segment_size_tier`; the bound grows fourfold each time, so 32 rounds pass `SIZE_MAX`. -/
def segmentSizeTier (policy : Option CompactionPolicy) (bytes : Nat) : Nat :=
  let floor := match policy with
    | none => 1024 * 1024
    | some p => p.smallSegmentBytes / compactionFloorDivisor
  let floor := if floor = 0 then 1 else floor
  tierLoop (max bytes floor) 32 floor 0

/-- How many segments of one tier, and how many bytes, can be taken from the front of a list. -/
def selectFrom (policy : Option CompactionPolicy) (tier : Nat) : Nat → Nat →
    List SegmentDescriptor → Nat × Nat
  | selected, total, [] => (selected, total)
  | selected, total, d :: ds =>
    let bytes := segmentStorageBytes d
    if compactionMaxSourceSegments ≤ selected then (selected, total)
    else if segmentSizeTier policy bytes ≠ tier then (selected, total)
    else if 0 < selected ∧ (compactionMaxSourceBytes ≤ total ∨
        compactionMaxSourceBytes - total < bytes) then (selected, total)
    else if uint64Max - total < bytes then (selected, total)
    else selectFrom policy tier (selected + 1) (total + bytes) ds

/-- The best range so far: its start, its length and its size. -/
structure BestRange where
  first : Nat := 0
  count : Nat := 0
  bytes : Nat := uint64Max
  deriving DecidableEq, Repr

/-- Try every start. -/
def selectLoop (policy : Option CompactionPolicy) (minimum : Nat) : Nat →
    List SegmentDescriptor → BestRange → BestRange
  | _, [], best => best
  | start, d :: ds, best =>
    let (selected, total) :=
      selectFrom policy (segmentSizeTier policy (segmentStorageBytes d)) 0 0 (d :: ds)
    let best := if minimum ≤ selected ∧
        (best.count < selected ∨ (selected = best.count ∧ total < best.bytes)) then
      ⟨start, selected, total⟩ else best
    selectLoop policy minimum (start + 1) ds best

/-- `select_range`: the longest run of segments of one size tier, the smallest among those; an
explicit compaction without such a run takes the first segment. -/
def selectRange (policy : Option CompactionPolicy) (m : Manifest) : Except Status (Nat × Nat) :=
  if m.segments = [] then .error .notFound
  else
    let minimum := match policy with
      | none => 2
      | some p => p.minSmallSegments
    let best := selectLoop policy minimum 0 m.segments {}
    if best.count = 0 then
      if policy = none then .ok (0, 1) else .error .notFound
    else .ok (best.first, best.count)

/-- `YAP_V2_manifest_needs_compaction`, as far as it decides whether to compact. -/
def needsCompaction (policy : CompactionPolicy) (m : Manifest) : Bool :=
  policy.enabled && (selectRange (some policy) m).toOption.isSome

/-! ## Collecting the range -/

/-- What `load_source` reads of a segment. -/
structure CompactionSource where
  documents : List Document
  passages : List Passage
  tombstones : List Bytes
  entries : List (Bytes × List Scalar)
  deriving DecidableEq

/-- The event kept for an identifier: the source it is in, its place there, and whether it is a
document. -/
structure CompactionEvent where
  source : Nat
  ordinal : Nat
  document : Bool
  deriving DecidableEq, Repr

/-- `event_hash`. -/
def eventHash (id : Bytes) : Nat := (fnvBytes fnvOffset id).toNat

/-- The events of one source: its tombstones, then its documents. -/
def sourceEvents (i : Nat) (src : CompactionSource) : List (Bytes × CompactionEvent) :=
  src.tombstones.mapIdx (fun j id => (id, ⟨i, j, false⟩)) ++
    src.documents.mapIdx (fun j d => (d.id, ⟨i, j, true⟩))

/-- The events of all sources, from the `i`-th on. -/
def rangeEvents : Nat → List CompactionSource → List (Bytes × CompactionEvent)
  | _, [] => []
  | i, src :: srcs => sourceEvents i src ++ rangeEvents (i + 1) srcs

/-- The event table of a range: filled in order, so that the last event of an identifier stays. -/
def eventMap (srcs : List CompactionSource) : Option (Table Bytes CompactionEvent) :=
  (Table.empty (tableCapacity (rangeEvents 0 srcs).length)).insertAll eventHash (rangeEvents 0 srcs)

/-- `event_is_latest`. -/
def eventIsLatest (events : Table Bytes CompactionEvent) (id : Bytes) (e : CompactionEvent) : Bool :=
  events.lookup eventHash id = some e

/-- The units of the documents of one source that are still current, from the `j`-th on.  The
passages of a document follow each other; `passage` counts those that have been passed, and what
is left of them and of the vector entries comes along. -/
def sourceUnits (hasVectors : Bool) (events : Table Bytes CompactionEvent) (i : Nat) : Nat →
    List Document → List Passage → List (Bytes × List Scalar) → Except Status (List SegmentUnit)
  | _, [], [], _ => .ok []
  -- passages that belong to no document in turn
  | _, [], _ :: _, _ => .error .conflict
  | j, d :: ds, ps, es =>
    let own := ps.takeWhile fun p => p.parentDocumentId = d.id
    let vectors := es.take own.length
    if eventIsLatest events d.id ⟨i, j, true⟩ then
      if hasVectors ∧ own.map (·.id) ≠ vectors.map (·.1) then .error .conflict
      else do
        let rest ← sourceUnits hasVectors events i (j + 1) ds (ps.drop own.length)
          (es.drop own.length)
        return .document d own (if hasVectors then vectors.map (·.2) else []) :: rest
    else sourceUnits hasVectors events i (j + 1) ds (ps.drop own.length) (es.drop own.length)

/-- The units of the range: for every source its current tombstones, unless they are dropped, then
its current documents. -/
def rangeUnits (hasVectors drop : Bool) (events : Table Bytes CompactionEvent) : Nat →
    List CompactionSource → Except Status (List SegmentUnit)
  | _, [] => .ok []
  | i, src :: srcs => do
    let tombstones := if drop then [] else
      (src.tombstones.mapIdx fun j id => (j, id)).filterMap fun (j, id) =>
        if eventIsLatest events id ⟨i, j, false⟩ then some (SegmentUnit.tombstone id) else none
    let documents ← sourceUnits hasVectors events i 0 src.documents src.passages src.entries
    let rest ← rangeUnits hasVectors drop events (i + 1) srcs
    return tombstones ++ documents ++ rest

/-- `collect_range`, after the sources have been read. -/
def collectUnits (hasVectors drop : Bool) (srcs : List CompactionSource) :
    Except Status (List SegmentUnit) :=
  match eventMap srcs with
  | none => .error .conflict
  | some events => rangeUnits hasVectors drop events 0 srcs

/-- `selected_range_unchanged`. -/
def selectedRangeUnchanged (base current : Manifest) (first count : Nat) : Bool :=
  first + count ≤ current.segments.length ∧ first + count ≤ base.segments.length ∧
    (base.segments.drop first).take count = (current.segments.drop first).take count

/-- The manifest a compaction publishes. -/
def candidateManifest (current : Manifest) (first count : Nat)
    (descriptors : List SegmentDescriptor) : Except Status Manifest :=
  Manifest.addSegments ⟨current.generation + 1, current.configFingerprint, []⟩
    (current.segments.take first ++ descriptors ++ current.segments.drop (first + count))

/-! ## The program -/

variable (env : Env) (cfg : Config)

/-- `remove_segment_directory`. -/
def removeSegmentDirectory (dir : SegmentId) : Code Status := do
  let rec unlinkAll : List Component → Code Status
    | [] => pure .ok
    | c :: cs => do
      let removed ← perform (.unlinkComponent dir c)
      if removed = true then unlinkAll cs else pure .ioError
  let listed ← perform (.listComponents dir)
  match (listed : Listing Component) with
  | .missing => pure .ok
  | .failed => pure .ioError
  | .entries names =>
    let status ← unlinkAll names
    let closed ← perform .closedir
    if closed = false then pure .ioError
    else if status ≠ .ok then pure status
    else
      let removed ← perform (.rmdir dir)
      if removed = true then pure .ok else pure .ioError

/-- `remove_segment_directory` on several directories, whatever becomes of it. -/
def removeSegmentDirectories : List SegmentId → Code Unit
  | [] => pure ()
  | dir :: dirs => do
    let _ ← removeSegmentDirectory dir
    removeSegmentDirectories dirs

/-- `remove_segment_directory` on several directories, up to the first failure. -/
def removeObsolete : List SegmentId → Code Status
  | [] => pure .ok
  | dir :: dirs => do
    let status ← removeSegmentDirectory dir
    if status ≠ .ok then pure status else removeObsolete dirs

/-- `YAP_V2_compact_gc`: remove the directories that the manifest does not name. -/
def compactGc (m : Manifest) : Code Status := do
  if manifestValidate m ≠ .ok then pure .invalidArgument
  else
    let listed ← perform .listSegments
    match (listed : Listing SegmentId) with
    | .missing => pure .ok
    | .failed => pure .ioError
    | .entries ids =>
      let status ← removeObsolete (ids.filter fun id => id ∉ m.ids)
      let closed ← perform .closedir
      if closed = false ∧ status = .ok then pure .ioError else pure status

/-- Read one component file and keep what `f` makes of its payload. -/
def readPayload {α : Type} (dir : SegmentId) (c : Component) (f : Payload → Except Status α) :
    Code (Except Status α) := do
  let r ← perform (.readComponent dir c)
  match (r : Option File) with
  | none => pure (.error .ioError)
  | some file => pure (f file.payload)

/-- `YAP_V2_segment_read`, and the comparison with the descriptor. -/
def documentsOf (d : SegmentDescriptor) : Payload → Except Status (List Document × List Passage)
  | .documents id ds ps =>
    if id ≠ d.id ∨ ds.length ≠ d.documentCount ∨ ps.length ≠ d.passageCount then .error .conflict
    else .ok (ds, ps)
  | _ => .error .invalidFormat

/-- `YAP_V2_tombstones_read`, and the comparison with the descriptor. -/
def tombstonesOf (d : SegmentDescriptor) : Payload → Except Status (List Bytes)
  | .tombstones ids =>
    if maxSegmentDocuments < ids.length then .error .invalidFormat
    else if ids.length ≠ d.tombstoneCount then .error .conflict
    else .ok ids
  | _ => .error .invalidFormat

/-- `YAP_V2_vector_segment_open`, for what it returns. -/
def entriesOf (p : Payload) : Except Status (List (Bytes × List Scalar)) :=
  match vectorSegmentOpen cfg ⟨0, p⟩, p with
  | .ok, .vectors _ _ entries => .ok entries
  | .ok, _ => .error .invalidFormat
  | e, _ => .error e

/-- The tombstones of a source. -/
def loadTombstones (d : SegmentDescriptor) : Code (Except Status (List Bytes)) :=
  if (d.component .tombstones).isSome then readPayload d.id .tombstones (tombstonesOf d)
  else if d.tombstoneCount ≠ 0 then pure (.error .conflict)
  else pure (.ok [])

/-- The vector entries of a source. -/
def loadEntries (d : SegmentDescriptor) : Code (Except Status (List (Bytes × List Scalar))) :=
  if cfg.hasVectors = true ∧ 0 < d.passageCount then
    if (d.component .vectors).isNone then pure (.error .invalidFormat)
    else readPayload d.id .vectors (entriesOf cfg)
  else pure (.ok [])

/-- `load_source`. -/
def loadSource (manifestGeneration : Nat) (d : SegmentDescriptor) :
    Code (Except Status CompactionSource) := do
  let status ← verifySegmentComponents env manifestGeneration d.id d.components
  if status ≠ .ok then pure (.error status)
  else if (d.component .documents).isNone then pure (.error .invalidFormat)
  else
    let docs ← readPayload d.id .documents (documentsOf d)
    match docs with
    | .error e => pure (.error e)
    | .ok (ds, ps) =>
      let tombstones ← loadTombstones d
      match tombstones with
      | .error e => pure (.error e)
      | .ok ts =>
        let entries ← loadEntries cfg d
        match entries with
        | .error e => pure (.error e)
        | .ok es => pure (.ok ⟨ds, ps, ts, es⟩)

/-- `load_source` on every segment of the range. -/
def loadSources (manifestGeneration : Nat) : List SegmentDescriptor →
    Code (Except Status (List CompactionSource))
  | [] => pure (.ok [])
  | d :: ds => do
    let r ← loadSource env cfg manifestGeneration d
    match r with
    | .error e => pure (.error e)
    | .ok src =>
      let rest ← loadSources manifestGeneration ds
      match rest with
      | .error e => pure (.error e)
      | .ok srcs => pure (.ok (src :: srcs))

/-- `collect_range`. -/
def collectRange (m : Manifest) (first count : Nat) : Code (Except Status (List SegmentUnit)) := do
  let r ← loadSources env cfg m.generation ((m.segments.drop first).take count)
  match r with
  | .error e => pure (.error e)
  | .ok srcs =>
    pure (collectUnits cfg.hasVectors (first = 0 ∧ count = m.segments.length) srcs)

/-- The loop at the start of `compact_internal`: recover as long as there is a WAL.  It ends with
`writer.lock` held, unless a status says otherwise.  Another process may leave a new WAL each
time, so only the fuel bounds the loop. -/
def recoverLoop : Nat → Code Status
  | 0 => do
    let r ← perform .stuck
    nomatch r
  | fuel + 1 => do
    let present ← perform .walExists
    if present = true then
      let _ ← perform (.unlock .writer)
      let status ← updateRecover env cfg
      if status ≠ .ok then pure status
      else
        let locked ← perform (.lock .prepare)
        if locked = true then recoverLoop fuel else pure .ioError
    else pure .ok

/-- The part of `compact_internal` up to the release of `writer.lock`: the manifest to compact and
the range selected, or `none` when there is nothing to do. -/
def prepareCompaction (policy : Option CompactionPolicy) (fuel : Nat) :
    Code (Except Status (Option (Manifest × Nat × Nat))) := do
  let status ← recoverLoop env cfg fuel
  if status ≠ .ok then pure (.error status)
  else
    let loaded ← perform .loadConfig
    if loaded = true then
      let r ← manifestLoadForConfig env cfg
      match r with
      | .error e => pure (.error e)
      | .ok m =>
        if policy.all (needsCompaction · m) = false then pure (.ok none)
        else
          let status ← compactGc m
          if status ≠ .ok then pure (.error status)
          else
            match selectRange policy m with
            | .error e => pure (.error e)
            | .ok (first, count) =>
              if m.generation = uint64Max then pure (.error .outOfRange)
              else pure (.ok (some (m, first, count)))
    else pure (.error .ioError)

/-- The part of `compact_internal` under the second `writer.lock`: compare, assemble, verify, publish
and remove what was replaced.  The flag says whether the manifest was published. -/
def publishCompaction (base : Manifest) (first count : Nat)
    (descriptors : List SegmentDescriptor) : Code (Status × Bool) := do
  let r ← manifestLoadForConfig env cfg
  match r with
  | .error _ => pure (.conflict, false)
  | .ok current =>
    if selectedRangeUnchanged base current first count = false then pure (.conflict, false)
    else if current.generation = uint64Max then pure (.outOfRange, false)
    else if maxSegments - descriptors.length < current.segments.length - count then
      pure (.outOfRange, false)
    else
      match candidateManifest current first count descriptors with
      | .error e => pure (e, false)
      | .ok candidate =>
        if manifestValidate candidate ≠ .ok then pure (manifestValidate candidate, false)
        else
          let status ← verifySegments env candidate.generation descriptors
          if status ≠ .ok then pure (status, false)
          else
            let status ← manifestPublishIfGeneration current.generation candidate .compaction
            if status ≠ .ok then pure (status, false)
            else
              let status ← removeObsolete
                (((base.segments.drop first).take count).map (·.id))
              pure (status, true)

/-- The part of `compact_internal` without `writer.lock`: read the range, plan and write its live
contents. -/
def buildCompaction (m : Manifest) (first count : Nat) : Code Written := do
  let r ← collectRange env cfg m first count
  match r with
  | .error e => pure ⟨e, none, [], []⟩
  | .ok units =>
    match segmentPlan env cfg units 35 (sizePolicy env.testPayloadLimit) with
    | .error e => pure ⟨e, none, [], []⟩
    | .ok slices =>
      let w ← writeSegments env cfg .compact (m.generation + 1) units (fun _ => .ok)
        removeSegmentDirectories (units.length + 1) slices
      if w.status ≠ .ok then pure w
      else
        let synced ← perform .syncSegments
        if synced = true then pure w else pure { w with status := .ioError }

/-- The part of `compact_internal` after the range has been selected. -/
def compactSelected (m : Manifest) (first count : Nat) : Code Status := do
  let w ← buildCompaction env cfg m first count
  if w.status ≠ .ok then
    removeSegmentDirectories w.dirs
    pure w.status
  else
    let locked ← perform (.lock .publish)
    if locked = true then
      let r ← publishCompaction env cfg m first count w.descriptors
      let _ ← perform (.unlock .writer)
      if r.2 = false then
        removeSegmentDirectories w.dirs
        pure r.1
      else pure r.1
    else
      removeSegmentDirectories w.dirs
      pure .ioError

/-- The part of `compact_internal` under `compaction.lock`. -/
def compactionSection (policy : Option CompactionPolicy) (fuel : Nat) : Code Status := do
  let locked ← perform (.lock .prepare)
  if locked = true then
    let r ← prepareCompaction env cfg policy fuel
    let _ ← perform (.unlock .writer)
    match r with
    | .error e => pure e
    | .ok none => pure .ok
    | .ok (some (m, first, count)) => compactSelected env cfg m first count
  else pure .ioError

/-- `compact_internal`; an explicit compaction has no policy. -/
def compactInternal (policy : Option CompactionPolicy) (fuel : Nat) : Code Status := do
  let locked ← perform (.lock .compaction)
  if locked = true then
    let status ← compactionSection env cfg policy fuel
    let _ ← perform (.unlock .compaction)
    pure status
  else pure .ioError

end Yappod

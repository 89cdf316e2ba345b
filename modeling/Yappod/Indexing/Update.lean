import Yappod.Indexing.Planner
import Yappod.Storage.Disk

/-!
# Updates

`YAP_V2_update_apply` and `YAP_V2_update_recover` as programs against the index directory.  A batch is
turned into units (`operationUnits`), planned, written ahead to `update.wal`, written out as new
segments (`writeSegments`), and published by a manifest that lists them after the old ones.  On an
error the new directories are removed and the WAL is withdrawn; a recovery replays the WAL that a
dead process has left.
-/

set_option autoImplicit false

namespace Yappod

variable (env : Env) (cfg : Config)

def updateMaxOperations : Nat := 10000

/-! ## From operations to units -/

/-- The passage a chunk becomes. -/
def chunkPassage (documentId : Bytes) (c : Chunk) : Passage :=
  ⟨c.id, documentId, c.text, c.ordinal, c.startChar, c.endChar⟩

/-- The unit of one operation: its body is chunked, and its vectors have to match the chunks and the
configuration. -/
def operationUnit (op : IngestOperation) : Except Status SegmentUnit :=
  match op.kind with
  | .delete => .ok (.tombstone op.id)
  | .upsert => do
    let chunks ← unicodeChunk env.icu op.id op.body cfg.chunkMaxChars cfg.chunkOverlapChars
    if cfg.hasVectors = true ∧ (op.vectors = [] ∨ op.vectors.length ≠ chunks.length ∨
        op.vectorDimensions ≠ cfg.vectorDimensions) then .error .invalidFormat
    else if cfg.hasVectors = false ∧ op.vectors ≠ [] then .error .invalidFormat
    else .ok (.document op.document (chunks.map (chunkPassage op.id)) op.vectors)

/-- The units of a batch, in its order. -/
def operationUnits (ops : List IngestOperation) : Except Status (List SegmentUnit) :=
  ops.mapM (operationUnit env cfg)

/-! ## Small programs -/

/-- `YAP_V2_manifest_load_for_config`. -/
def manifestLoadForConfig : Code (Except Status Manifest) := do
  let r ← perform .loadManifest
  match (r : Except Status Manifest) with
  | .error e => pure (.error e)
  | .ok m =>
    if m.configFingerprint ≠ env.configFingerprint cfg then pure (.error .conflict)
    else pure (.ok m)

/-- `YAP_V2_update_wal_write`. -/
def updateWalWrite (w : Wal) : Code Status := do
  let renamed ← perform (.installWal w)
  if renamed = true then
    let synced ← perform (.syncIndexDir .walWrite)
    if synced = true then pure .ok else pure .ioError
  else pure .ioError

/-- `YAP_V2_update_wal_clear`. -/
def updateWalClear (why : WalClear) : Code Status := do
  let removed ← perform (.unlinkWal why)
  if removed = true then
    let synced ← perform (.syncIndexDir .walClear)
    if synced = true then pure .ok else pure .ioError
  else pure .ioError

/-- `cleanup_segment_dir`: remove the files that a segment may have, then the directory, and do not
look back. -/
def cleanupSegmentDir (dir : SegmentId) : Code Unit := do
  let rec unlinkAll : List Component → Code Unit
    | [] => pure ()
    | c :: cs => do
      let _ ← perform (.unlinkComponent dir c)
      unlinkAll cs
  unlinkAll Component.all
  let _ ← perform (.rmdir dir)
  pure ()

/-- `cleanup_segment_dir` on several directories. -/
def cleanupSegmentDirs : List SegmentId → Code Unit
  | [] => pure ()
  | dir :: dirs => do
    cleanupSegmentDir dir
    cleanupSegmentDirs dirs

/-- `YAP_V2_vector_segment_open`, as a check of what was read back. -/
def vectorSegmentOpen (f : File) : Status :=
  match f.payload with
  | .vectors model dims entries =>
    if dims ≠ cfg.vectorDimensions ∨ model ≠ cfg.vectorModelId then .conflict
    else if maxSegmentPassages < entries.length then .invalidFormat
    else if entries.all (fun e => e.1 ≠ [] ∧ e.1.length ≤ maxIdentifierBytes ∧ ¬e.1.contains 0 ∧
        e.2.all Scalar.isFinite) ∧ (entries.map (·.1)).Nodup then .ok
    else .invalidFormat
  | _ => .invalidFormat

/-- The files of a slice, one after the other, each after its checks.  The vectors are read back
before the usearch index is made of them. -/
def writeFiles (dir : SegmentId) : List (Status × File) → Code Status
  | [] => pure .ok
  | (check, f) :: rest => do
    if check ≠ .ok then pure check
    else
      let status ← perform (.writeComponent dir f)
      if (status : Status) ≠ .ok then pure status
      else if f.payload.component = .vectors then
        let back ← perform (.readComponent dir .vectors)
        match (back : Option File) with
        | none => pure .ioError
        | some g =>
          if vectorSegmentOpen cfg g ≠ .ok then pure (vectorSegmentOpen cfg g)
          else writeFiles dir rest
      else writeFiles dir rest

/-- `YAP_V2_segment_slice_write`. -/
def segmentSliceWrite (dir : SegmentId) (generation : Nat) (us : List SegmentUnit) :
    Code Status := do
  let status ← writeFiles cfg dir (sliceFiles env cfg dir generation us)
  if status ≠ .ok then pure status
  else
    let synced ← perform (.syncSegment dir)
    if synced = true then pure .ok else pure .ioError

/-- What became of writing the slices of a plan: the status, the slice that was too large if that
was the reason, the directories made, and the descriptors of the segments that are complete. -/
structure Written where
  status : Status
  failedSlice : Option Nat
  dirs : List SegmentId
  descriptors : List SegmentDescriptor

/-- One round of `write_segments`: a directory and a segment for every slice, from the `i`-th on. -/
def writeSlices (kind : SegmentKind) (generation : Nat) (units : List SegmentUnit) :
    Nat → List Slice → List SegmentId → List SegmentDescriptor → Code Written
  | _, [], dirs, descriptors => pure ⟨.ok, none, dirs, descriptors⟩
  | i, slice :: rest, dirs, descriptors => do
    let made ← perform (.mkdtemp kind generation)
    match (made : Option SegmentId) with
    | none => pure ⟨.ioError, none, dirs, descriptors⟩
    | some dir =>
      let status ← segmentSliceWrite env cfg dir generation (slice.units units)
      if status ≠ .ok then
        pure ⟨status, if status = .segmentCapacityExceeded then some i else none,
          dirs ++ [dir], descriptors⟩
      else
        writeSlices kind generation units (i + 1) rest (dirs ++ [dir])
          (descriptors ++ [describe env cfg dir generation (slice.units units)])

/-- `write_segments`: when a slice turns out too large, remove what was written, cut the slice in
two and start over.  Every round adds a slice, so the number of units is fuel enough. -/
def writeSegments (kind : SegmentKind) (generation : Nat) (units : List SegmentUnit)
    (check : Nat → Status) (cleanup : List SegmentId → Code Unit) :
    Nat → List Slice → Code Written
  | 0, _ => pure ⟨.segmentCapacityExceeded, none, [], []⟩
  | fuel + 1, slices => do
    if check slices.length ≠ .ok then pure ⟨check slices.length, none, [], []⟩
    else
      let w ← writeSlices env cfg kind generation units 0 slices [] []
      match w.failedSlice with
      | none => pure w
      | some i =>
        if (slices[i]?.map Slice.count).getD 0 ≤ 1 then pure w
        else
          cleanup w.dirs
          match bisect slices i with
          | .error e => pure ⟨e, none, [], []⟩
          | .ok slices => writeSegments kind generation units check cleanup fuel slices

/-- `YAP_V2_manifest_verify_segment_components`. -/
def verifySegmentComponents (manifestGeneration : Nat) (dir : SegmentId) :
    List ComponentDescriptor → Code Status
  | [] => pure .ok
  | c :: cs => do
    let f ← perform (.readComponent dir c.component)
    match (f : Option File) with
    | none => pure .ioError
    | some f =>
      if verifyFile env manifestGeneration c f ≠ .ok then
        pure (verifyFile env manifestGeneration c f)
      else verifySegmentComponents manifestGeneration dir cs

/-- The check of several new segments. -/
def verifySegments (manifestGeneration : Nat) : List SegmentDescriptor → Code Status
  | [] => pure .ok
  | d :: ds => do
    let status ← verifySegmentComponents env manifestGeneration d.id d.components
    if status ≠ .ok then pure status else verifySegments manifestGeneration ds

/-- `YAP_V2_manifest_save_atomic`. -/
def manifestSaveAtomic (m : Manifest) (what : Publication) : Code Status := do
  if saveCheck m ≠ .ok then pure (saveCheck m)
  else
    let renamed ← perform (.installManifest m what)
    if renamed = true then
      let synced ← perform .syncManifestParent
      if synced = true then pure .ok else pure .ioError
    else pure .ioError

/-- The part of `YAP_V2_manifest_publish_if_generation` under `manifest.yap2.lock`. -/
def publishSection (expected : Nat) (m : Manifest) (what : Publication) : Code Status := do
  let r ← perform .loadManifest
  match (r : Except Status Manifest) with
  | .error e => pure e
  | .ok current =>
    if current.generation ≠ expected then pure .conflict
    else if current.configFingerprint ≠ m.configFingerprint then pure .conflict
    else manifestSaveAtomic { m with generation := expected + 1 } what

/-- `YAP_V2_manifest_publish_if_generation`. -/
def manifestPublishIfGeneration (expected : Nat) (m : Manifest) (what : Publication) :
    Code Status := do
  if expected = uint64Max then pure .invalidArgument
  else
    let locked ← perform (.lock .manifest)
    if locked = true then
      let status ← publishSection expected m what
      let closed ← perform (.closeManifestLock (status = .ok))
      if closed = false ∧ status = .ok then pure .ioError else pure status
    else pure .ioError

/-! ## `apply_operations` -/

/-- From the written segments to the published manifest: sync, verify, add, publish. -/
def publishUpdate (m : Manifest) (ops : List IngestOperation)
    (descriptors : List SegmentDescriptor) : Code Status := do
  let synced ← perform .syncSegments
  if synced = true then
    let status ← verifySegments env (m.generation + 1) descriptors
    if status ≠ .ok then pure status
    else
      match m.addSegments descriptors with
      | .error e => pure e
      | .ok m' =>
        manifestPublishIfGeneration m.generation { m' with generation := m.generation + 1 }
          (.update ops)
  else pure .ioError

/-- The part of `apply_operations` after the WAL: write the segments and publish them; on success
clear the WAL, otherwise remove the directories and, unless this is a replay, withdraw the WAL. -/
def applySegments (m : Manifest) (ops : List IngestOperation) (units : List SegmentUnit)
    (slices : List Slice) (walActive preserveWal : Bool) : Code Status := do
  let w ← writeSegments env cfg .seg (m.generation + 1) units
    (segmentCountValidate m.segments.length) cleanupSegmentDirs (units.length + 1) slices
  let status ← (if w.status ≠ .ok then pure w.status else publishUpdate env m ops w.descriptors)
  if status = .ok then
    if walActive then updateWalClear .published else pure .ok
  else
    cleanupSegmentDirs w.dirs
    if walActive && !preserveWal then
      let _ ← updateWalClear .withdrawn
      pure status
    else pure status

/-- The part of `apply_operations` under `writer.lock`. -/
def applySection (ops : List IngestOperation) (writeWal : Bool) (expectedTarget : Nat) :
    Code Status := do
  if validateUniqueIds ops ≠ .ok then pure (validateUniqueIds ops)
  else
    let loaded ← perform .loadConfig
    if loaded = true then
      let r ← manifestLoadForConfig env cfg
      match r with
      | .error e => pure e
      | .ok m =>
        if m.generation = uint64Max ∨ segmentCountValidate m.segments.length 1 ≠ .ok then
          pure .outOfRange
        else if expectedTarget ≠ 0 ∧ m.generation + 1 ≠ expectedTarget then pure .conflict
        else
          match operationUnits env cfg ops with
          | .error e => pure e
          | .ok units =>
            let made ← perform .mkdirSegments
            if made = true then
              match segmentPlan env cfg units 31 (sizePolicy env.testPayloadLimit) with
              | .error e => pure e
              | .ok slices =>
                if writeWal then
                  let status ← updateWalWrite ⟨m.generation, ops⟩
                  if status ≠ .ok then pure status
                  else applySegments env cfg m ops units slices true false
                else
                  applySegments env cfg m ops units slices (expectedTarget ≠ 0) (expectedTarget ≠ 0)
            else pure .ioError
    else pure .ioError

/-- `apply_operations`. -/
def applyOperations (ops : List IngestOperation) (limit : Nat) (writerLockHeld writeWal : Bool)
    (expectedTarget : Nat) : Code Status := do
  if ops = [] ∨ limit < ops.length then pure .invalidArgument
  else if writerLockHeld then applySection env cfg ops writeWal expectedTarget
  else
    let locked ← perform (.lock .apply)
    if locked = true then
      let status ← applySection env cfg ops writeWal expectedTarget
      let _ ← perform (.unlock .writer)
      pure status
    else pure .ioError

/-- The part of `YAP_V2_update_recover` under `writer.lock`. -/
def recoverSection : Code Status := do
  let r ← perform .walLoad
  match (r : Except Status (Option Wal)) with
  | .error e => pure e
  | .ok none => pure .ok
  | .ok (some wal) =>
    let loaded ← perform .loadConfig
    if loaded = true then
      let r ← manifestLoadForConfig env cfg
      match r with
      | .error e => pure e
      | .ok m =>
        if m.generation = wal.base + 1 then updateWalClear .recovered
        else if m.generation ≠ wal.base then pure .conflict
        else
          applyOperations env cfg wal.operations updateMaxOperations true false (wal.base + 1)
    else pure .ioError

/-- `YAP_V2_update_recover`. -/
def updateRecover : Code Status := do
  let present ← perform .walExists
  if present = true then
    let locked ← perform (.lock .recover)
    if locked = true then
      let status ← recoverSection env cfg
      let _ ← perform (.unlock .writer)
      pure status
    else pure .ioError
  else pure .ok

/-- `YAP_V2_update_apply`. -/
def updateApply (ops : List IngestOperation) : Code Status := do
  let status ← updateRecover env cfg
  if status ≠ .ok then pure status
  else applyOperations env cfg ops updateMaxOperations false true 0

end Yappod

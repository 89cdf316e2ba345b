import Yappod.Indexing.Update
import Yappod.Storage.Snapshot

/-!
# The runtime of the server

The server answers searches from an `HttpRuntime`: a manifest, a snapshot of its documents, the opened
segments, and what is computed from them.  While it serves, other processes publish new manifests; a
reload builds a new runtime beside the old one, sharing the segments that are still listed, and swaps
it in.  The manifest file is read three times on the way: to see whether it has changed, for the new
runtime, and by the snapshot manager.

The threads of the server are programs here (`program`), whose steps interleave with each other and
with anything that other processes do to the index directory (`Op.world`).  What the search code
computes from a runtime — corpus statistics, the ANN corpus and its query plan — is a parameter
(`Backend`).
-/

set_option autoImplicit false

namespace Yappod

namespace Server

/-! ## Snapshots -/

/-- `SNAPSHOT_SEGMENT`: the documents and tombstones of a segment, and the descriptor they were
loaded for. -/
structure SnapshotSegment where
  descriptor : SegmentDescriptor
  contents : SegmentContents

/-- `YAP_V2_SEARCH_SNAPSHOT`. -/
structure Snapshot where
  manifest : Manifest
  segments : List SnapshotSegment
  visibility : Table Bytes VisibilityEntry

/-- `snapshot_build_visibility`, with its status: the table must be addressable. -/
def buildVisibility (xs : List SegmentContents) : Except Status (Table Bytes VisibilityEntry) :=
  if uint64Max < tableCapacity (visibilityEntries 0 xs).length then .error .outOfRange
  else
    match snapshotBuildVisibility xs with
    | none => .error .conflict
    | some table => .ok table

/-- `YAP_V2_snapshot_matches_manifest`. -/
def Snapshot.matchesManifest (s : Snapshot) (m : Manifest) : Bool :=
  s.manifest.generation = m.generation ∧ s.manifest.segments = m.segments

/-- The place of a descriptor in a manifest, if it is there unchanged: a lookup by name
(`YAP_V2_manifest_segment_map_find`) and a comparison (`YAP_V2_segment_descriptor_equal`). -/
def sameSegment (previous : Manifest) (d : SegmentDescriptor) : Option Nat :=
  (previous.segments.findIdx? fun e => e.id = d.id).bind fun i =>
    if previous.segments[i]? = some d then some i else none

/-! ## Runtimes -/

/-- `HTTP_SEGMENT_RESOURCE`: the search files of a segment, and the descriptor they were opened
for. -/
structure Resource where
  descriptor : SegmentDescriptor
  files : List File

/-- What the search code makes of a runtime. -/
structure Backend where
  Stats : Type
  Corpus : Type
  Plan : Type
  /-- `YAP_V2_query_corpus_stats_build`. -/
  statsBuild : Snapshot → List Resource → Except Status Stats
  /-- `YAP_V2_ann_corpus_build`. -/
  corpusBuild : Manifest → Snapshot → List Resource → Except Status Corpus
  /-- `YAP_V2_ann_query_plan_build`. -/
  planBuild : Corpus → Manifest → Except Status Plan
  /-- A corpus and a plan that were only initialised. -/
  emptyCorpus : Corpus
  emptyPlan : Plan
  /-- The test of `YAP_V2_http_runtime_maintain_ann`: too many delta segments, or base segments that
  are gone. -/
  maintenanceNeeded : Plan → Bool

/-- `HTTP_RUNTIME`.  The address is made of the thread that has allocated it and a number. -/
structure Runtime (B : Backend) where
  address : Pid × Nat
  manifest : Manifest
  snapshot : Snapshot
  segments : List Resource
  stats : B.Stats
  corpus : B.Corpus
  plan : B.Plan

/-- Why a runtime is replaced. -/
inductive Replacement
  | reload
  | maintenance
  deriving DecidableEq

/-- The mutexes that are held across steps. -/
inductive Mutex
  | update
  | maintenance
  deriving DecidableEq

variable (B : Backend)

/-- The steps of a thread; a section under `state->lock` or under the lock of the snapshot manager is
one step.  The `Replacement` only says where in the program the step is. -/
inductive Op
  | loadManifest
  | readComponent (dir : SegmentId) (c : Component)
  | managerCurrent
  | managerSwap (candidate : Snapshot)
  | loadCache
  | allocate
  | acquire
  | replace (expected : Pid × Nat) (candidate : Runtime B) (why : Replacement)
  | start (candidate : Runtime B)
  | lock (l : Mutex)
  | unlock (l : Mutex)
  | world (disk : Disk)

variable {B}

abbrev Res : Op B → Type
  | .loadManifest => Except Status Manifest
  | .readComponent _ _ => Option File
  | .managerCurrent => Option Snapshot
  | .managerSwap _ => Status × Bool
  | .loadCache => Except Status B.Corpus
  | .allocate => Pid × Nat
  | .acquire => Option (Runtime B)
  | .replace _ _ _ => Status
  | .start _ => Status
  | .lock _ => Unit
  | .unlock _ => Unit
  | .world _ => Unit

abbrev Thread (B : Backend) (α : Type) := Prog (@Res B) α

/-- Perform one step. -/
abbrev perform (o : Op B) : Thread B (Res o) := Prog.perform o

section Programs

variable (env : Env) (cfg : Config)

/-- `YAP_V2_manifest_load_for_config`. -/
def manifestLoadForConfig : Thread B (Except Status Manifest) := do
  let r ← perform .loadManifest
  match (r : Except Status Manifest) with
  | .error e => pure (.error e)
  | .ok m =>
    if m.configFingerprint ≠ env.configFingerprint cfg then pure (.error .conflict)
    else pure (.ok m)

/-- `YAP_V2_manifest_verify_segment_components`. -/
def verifyComponents (generation : Nat) (dir : SegmentId) :
    List ComponentDescriptor → Thread B Status
  | [] => pure .ok
  | c :: cs => do
    let f ← perform (.readComponent dir c.component)
    match (f : Option File) with
    | none => pure .ioError
    | some f =>
      if verifyFile env generation c f ≠ .ok then pure (verifyFile env generation c f)
      else verifyComponents generation dir cs

/-- The tombstones of a segment: none if it has no file for them. -/
def readTombstones (d : SegmentDescriptor) : Thread B (Except Status (List Bytes)) := do
  if d.component .tombstones = none then pure (.ok [])
  else
    let f ← perform (.readComponent d.id .tombstones)
    match (f : Option File) with
    | some ⟨_, .tombstones ids⟩ => pure (.ok ids)
    | some _ => pure (.error .invalidFormat)
    | none => pure (.error .ioError)

/-- Load a segment of a snapshot: verify its files, then read the documents and the tombstones. -/
def snapshotSegmentLoad (generation : Nat) (d : SegmentDescriptor) :
    Thread B (Except Status SnapshotSegment) := do
  let status ← verifyComponents env generation d.id d.components
  if status ≠ .ok then pure (.error status)
  else if d.component .documents = none then pure (.error .invalidFormat)
  else
    let f ← perform (.readComponent d.id .documents)
    match (f : Option File) with
    | some ⟨_, .documents id ds ps⟩ =>
      if id ≠ d.id ∨ ds.length ≠ d.documentCount ∨ ps.length ≠ d.passageCount then
        pure (.error .conflict)
      else
        let r ← readTombstones d
        match r with
        | .error e => pure (.error e)
        | .ok ids =>
          if ids.length ≠ d.tombstoneCount then pure (.error .conflict)
          else pure (.ok ⟨d, ⟨ds, ps, ids, [], []⟩⟩)
    | some _ => pure (.error .invalidFormat)
    | none => pure (.error .ioError)

/-- One thing for every segment of a manifest: those that can be reused are, the others are loaded. -/
def loadEach {α : Type} (reuse : SegmentDescriptor → Option α)
    (load : SegmentDescriptor → Thread B (Except Status α)) :
    List SegmentDescriptor → Thread B (Except Status (List α))
  | [] => pure (.ok [])
  | d :: ds => do
    let r ← (match reuse d with
      | some x => pure (.ok x)
      | none => load d)
    match r with
    | .error e => pure (.error e)
    | .ok x =>
      let r ← loadEach reuse load ds
      match r with
      | .error e => pure (.error e)
      | .ok xs => pure (.ok (x :: xs))

/-- The segments of a snapshot, those of the previous one reused. -/
def snapshotSegments (previous : Option Snapshot) (generation : Nat) :
    List SegmentDescriptor → Thread B (Except Status (List SnapshotSegment)) :=
  loadEach (fun d => previous.bind fun p => (sameSegment p.manifest d).bind fun i => p.segments[i]?)
    (snapshotSegmentLoad env generation)

/-- `snapshot_load`. -/
def snapshotLoad (previous : Option Snapshot) : Thread B (Except Status Snapshot) := do
  let r ← manifestLoadForConfig env cfg
  match r with
  | .error e => pure (.error e)
  | .ok m =>
    if previous.any fun p => ¬ p.manifest.ids.Nodup then pure (.error .conflict)
    else
      let r ← snapshotSegments env previous m.generation m.segments
      match r with
      | .error e => pure (.error e)
      | .ok segments =>
        match buildVisibility (segments.map (·.contents)) with
        | .error e => pure (.error e)
        | .ok visibility => pure (.ok ⟨m, segments, visibility⟩)

/-- `YAP_V2_snapshot_manager_reload`. -/
def managerReload : Thread B Status := do
  let base ← perform .managerCurrent
  match (base : Option Snapshot) with
  | none => pure .invalidArgument
  | some base =>
    let r ← snapshotLoad env cfg (some base)
    match r with
    | .error e => pure e
    | .ok candidate =>
      let r ← perform (.managerSwap candidate)
      pure r.1

/-- The files `runtime_segment_open` opens: the lexical files if the terms are listed, the vectors
and their index, and the metadata. -/
def searchFiles (d : SegmentDescriptor) : List Component :=
  (if d.component .terms = none then [] else [.terms, .postings, .positions]) ++
    (if d.component .vectors = none then []
      else .vectors :: if d.component .ann = none then [] else [.ann]) ++
    if d.component .metadata = none then [] else [.metadata]

/-- Open files of a segment one after the other. -/
def openFiles (dir : SegmentId) : List Component → Thread B (Except Status (List File))
  | [] => pure (.ok [])
  | c :: cs => do
    let f ← perform (.readComponent dir c)
    match (f : Option File) with
    | none => pure (.error (if c = .ann then .conflict else .ioError))
    | some f =>
      if c = .vectors ∧ vectorSegmentOpen cfg f ≠ .ok then pure (.error (vectorSegmentOpen cfg f))
      else
        let r ← openFiles dir cs
        match r with
        | .error e => pure (.error e)
        | .ok fs => pure (.ok (f :: fs))

/-- `segment_resource_open`. -/
def segmentResourceOpen (d : SegmentDescriptor) : Thread B (Except Status Resource) := do
  let r ← openFiles cfg d.id (searchFiles d)
  match r with
  | .error e => pure (.error e)
  | .ok files => pure (.ok ⟨d, files⟩)

/-- The opened segments of a runtime, those of the previous one reused. -/
def runtimeSegments (previous : Option (Runtime B)) :
    List SegmentDescriptor → Thread B (Except Status (List Resource)) :=
  loadEach (fun d => previous.bind fun p => (sameSegment p.manifest d).bind fun i => p.segments[i]?)
    (segmentResourceOpen cfg)

/-- The query plan of a runtime; without vectors there is none. -/
def annPlan (corpus : B.Corpus) (m : Manifest) : Except Status B.Plan :=
  if cfg.hasVectors = true then B.planBuild corpus m else .ok B.emptyPlan

/-- The end of `runtime_allocate_candidate`: from the manifest and the snapshot to the runtime. -/
def assemble (address : Pid × Nat) (m : Manifest) (snapshot : Snapshot) (segments : List Resource)
    (corpus : B.Corpus) : Except Status (Runtime B) := do
  let stats ← B.statsBuild snapshot segments
  let plan ← annPlan cfg corpus m
  return ⟨address, m, snapshot, segments, stats, corpus, plan⟩

/-- `runtime_allocate_candidate`. -/
def runtimeAllocateCandidate (previous : Runtime B) (replacement : Option B.Corpus) :
    Thread B (Except Status (Runtime B)) := do
  let address ← perform .allocate
  let r ← manifestLoadForConfig env cfg
  match r with
  | .error e => pure (.error e)
  | .ok m =>
    let status ← managerReload env cfg
    if status ≠ .ok then pure (.error status)
    else
      let snapshot ← perform .managerCurrent
      match (snapshot : Option Snapshot) with
      | none => pure (.error .conflict)
      | some snapshot =>
        if m.segments.length = 0 ∨ snapshot.matchesManifest m = false then pure (.error .conflict)
        else if ¬ previous.manifest.ids.Nodup then pure (.error .conflict)
        else
          let r ← runtimeSegments cfg (some previous) m.segments
          match r with
          | .error e => pure (.error e)
          | .ok segments =>
            pure (assemble cfg address m snapshot segments (replacement.getD previous.corpus))

/-- `runtime_manifest_relation`: has the manifest moved on? -/
def runtimeManifestRelation (current : Runtime B) : Thread B (Except Status Bool) := do
  let r ← manifestLoadForConfig env cfg
  match r with
  | .error e => pure (.error e)
  | .ok m =>
    if m.generation < current.manifest.generation then pure (.error .conflict)
    else if current.manifest.generation < m.generation then pure (.ok true)
    else if m.segments ≠ current.manifest.segments then pure (.error .conflict)
    else pure (.ok false)

/-- `runtime_state_reload`. -/
def runtimeStateReload : Thread B Status := do
  let previous ← perform .acquire
  match (previous : Option (Runtime B)) with
  | none => pure .conflict
  | some previous =>
    let r ← runtimeManifestRelation env cfg previous
    match r with
    | .error e => pure e
    | .ok false => pure .ok
    | .ok true =>
      let r ← runtimeAllocateCandidate env cfg previous none
      match r with
      | .error e => pure e
      | .ok candidate =>
        if candidate.manifest.generation ≤ previous.manifest.generation then pure .conflict
        else perform (.replace previous.address candidate .reload)

/-- `YAP_V2_http_runtime_reload`. -/
def httpRuntimeReload : Thread B Status := do
  perform (.lock .update)
  let status ← runtimeStateReload env cfg
  perform (.unlock .update)
  pure status

/-- An ingest request, or a batch of them: the index is changed, and if a generation was published the
runtime is reloaded. -/
def httpRuntimeIngest (disk : Disk) (published : Bool) : Thread B Status := do
  perform (.lock .update)
  perform (.world disk)
  let status ← (if published = true then runtimeStateReload env cfg else pure .ok)
  perform (.unlock .update)
  pure status

/-- The rest of `YAP_V2_http_runtime_maintain_ann`, once it is known to be needed. -/
def maintainAnn (base : Runtime B) : Thread B Status := do
  match B.corpusBuild base.manifest base.snapshot base.segments with
  | .error e => pure e
  | .ok corpus =>
    let r ← runtimeAllocateCandidate env cfg base (some corpus)
    match r with
    | .error e => pure e
    | .ok replacement =>
      if replacement.manifest.generation ≠ base.manifest.generation then pure .conflict
      else perform (.replace base.address replacement .maintenance)

/-- `YAP_V2_http_runtime_maintain_ann`. -/
def httpRuntimeMaintainAnn : Thread B Status := do
  perform (.lock .maintenance)
  perform (.lock .update)
  let base ← perform .acquire
  let status ← (match (base : Option (Runtime B)) with
    | none => pure .ok
    | some base =>
      if cfg.hasVectors = true ∧ B.maintenanceNeeded base.plan = true then
        maintainAnn env cfg base
      else pure .ok)
  perform (.unlock .update)
  perform (.unlock .maintenance)
  pure status

/-- The corpus of a runtime that is opened: the cached one, or one that is built. -/
def openCorpus (m : Manifest) (snapshot : Snapshot) (segments : List Resource) :
    Thread B (Except Status B.Corpus) := do
  if cfg.hasVectors = true then
    let cached ← perform .loadCache
    match (cached : Except Status B.Corpus) with
    | .ok corpus => pure (.ok corpus)
    | .error _ => pure (B.corpusBuild m snapshot segments)
  else pure (.ok B.emptyCorpus)

/-- `runtime_open_once`. -/
def runtimeOpenOnce : Thread B (Except Status (Runtime B)) := do
  let address ← perform .allocate
  let r ← manifestLoadForConfig env cfg
  match r with
  | .error e => pure (.error e)
  | .ok m =>
    let r ← snapshotLoad env cfg none
    match r with
    | .error e => pure (.error e)
    | .ok snapshot =>
      if m.segments.length = 0 ∨ snapshot.matchesManifest m = false then pure (.error .conflict)
      else
        let r ← runtimeSegments cfg none m.segments
        match r with
        | .error e => pure (.error e)
        | .ok segments =>
          let r ← openCorpus cfg m snapshot segments
          match r with
          | .error e => pure (.error e)
          | .ok corpus => pure (assemble cfg address m snapshot segments corpus)

/-- `runtime_open`: it tries again while the snapshot is of another generation. -/
def runtimeOpen : Nat → Thread B (Except Status (Runtime B))
  | 0 => pure (.error .conflict)
  | attempts + 1 => do
    let r ← runtimeOpenOnce env cfg
    match r with
    | .error e => pure (.error e)
    | .ok runtime =>
      if runtime.snapshot.manifest.generation = runtime.manifest.generation then pure (.ok runtime)
      else runtimeOpen attempts

/-- `YAP_V2_http_runtime_open`, after the recovery. -/
def httpRuntimeOpen : Thread B Status := do
  let r ← runtimeOpen env cfg 4
  match r with
  | .error e => pure e
  | .ok runtime => perform (.start runtime)

end Programs

/-! ## The server -/

/-- What a thread is started for.  `world` is another process that changes the index directory. -/
inductive Call
  | open
  | reload
  | ingest (disk : Disk) (published : Bool)
  | maintainAnn
  | managerReload
  | world (disk : Disk)

/-- The program of a thread. -/
def program (env : Env) (cfg : Config) : Call → Thread B Status
  | .open => httpRuntimeOpen env cfg
  | .reload => httpRuntimeReload env cfg
  | .ingest disk published => httpRuntimeIngest env cfg disk published
  | .maintainAnn => httpRuntimeMaintainAnn env cfg
  | .managerReload => managerReload env cfg
  | .world disk => do
    perform (.world disk)
    pure .ok

/-- The index directory and the server: the snapshot of the manager, `state->current` and the
mutexes; and, for the record, every runtime that was the current one and every thread that has
swapped the snapshot. -/
structure State (B : Backend) where
  disk : Disk
  manager : Option Snapshot
  current : Option (Runtime B)
  mutex : Mutex → Option Pid
  next : Nat
  installed : List (Runtime B)
  swaps : List Pid

/-- What the outside world decides in a step: whether a file can be read, and what is in the ANN
cache. -/
inductive Choice (B : Backend)
  | ok
  | fail
  | cache (corpus : B.Corpus)

/-- The section of `YAP_V2_snapshot_manager_reload` that swaps the snapshot. -/
def managerSwap (manager : Option Snapshot) (candidate : Snapshot) : Status × Bool :=
  match manager with
  | none => (.ok, true)
  | some previous =>
    if candidate.manifest.generation < previous.manifest.generation then (.conflict, false)
    else if candidate.manifest.generation = previous.manifest.generation then
      (if previous.matchesManifest candidate.manifest then .ok else .conflict, false)
    else (.ok, true)

/-- What the steps do. -/
def exec (pid : Pid) (o : Op B) (c : Choice B) (s : State B) : Option (Res o × State B) :=
  match o with
  | .loadManifest => match c, s.disk.manifest with
    | .ok, some m => some (.ok m, s)
    | .ok, none => some (.error .ioError, s)
    | .fail, _ => some (.error .ioError, s)
    | _, _ => none
  | .readComponent dir comp => match c with
    | .ok => some ((s.disk.segments dir).bind fun files => files comp, s)
    | .fail => some (none, s)
    | _ => none
  | .managerCurrent => some (s.manager, s)
  | .managerSwap candidate =>
    let r := managerSwap s.manager candidate
    some (r, if r.2 = true then { s with manager := some candidate, swaps := pid :: s.swaps } else s)
  | .loadCache => match c with
    | .cache corpus => some (.ok corpus, s)
    | .fail => some (.error .notFound, s)
    | _ => none
  | .allocate => some ((pid, s.next), { s with next := s.next + 1 })
  | .acquire => some (s.current, s)
  | .replace expected candidate _ =>
    if (s.current.map (·.address)) = some expected then
      some (.ok, { s with current := some candidate, installed := candidate :: s.installed })
    else some (.conflict, s)
  | .start candidate =>
    if s.current.isNone then
      some (.ok, { s with
        manager := some candidate.snapshot, current := some candidate,
        installed := candidate :: s.installed })
    else some (.invalidArgument, s)
  | .lock l =>
    if s.mutex l = none then
      some ((), { s with mutex := fun l' => if l' = l then some pid else s.mutex l' })
    else none
  | .unlock l => some ((), { s with mutex := fun l' => if l' = l then none else s.mutex l' })
  | .world disk => some ((), { s with disk := disk })

/-- A thread is new: it has not changed anything under this number. -/
def idle (pid : Pid) (s : State B) : Bool :=
  (s.installed.all fun r => r.address.1 ≠ pid) ∧ pid ∉ s.swaps

/-- The server together with its threads and the processes around it. -/
abbrev System (B : Backend) := Sys.Config (@Res B) (State B) Call Status

/-- A server that was not opened yet. -/
def closed (B : Backend) (disk : Disk) : State B := ⟨disk, none, none, fun _ => none, 0, [], []⟩

/-- What can happen to a server. -/
def Reachable (env : Env) (cfg : Config) (disk : Disk) (c : System B) : Prop :=
  Sys.Reach exec idle (fun _ s => s) (program env cfg) ⟨closed B disk, fun _ => none⟩ c

end Server

end Yappod

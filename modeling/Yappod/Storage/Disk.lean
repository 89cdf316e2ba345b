import Yappod.Lib.Prog
import Yappod.Storage.Manifest

/-!
# The index directory and the operations on it

The shared state of everything that works on an index: `manifest.yap2`, `update.wal` and the segment
directories (`Disk`), the three lock files, and a `History` that no program reads.  An `Op` is one
step a program takes against it — a lock, a read, a rename, an `fsync` — and `exec` says what it
does under each `Choice` of the outside world: it succeeds, it fails without an effect, or (for a
component file, which is renamed into place before its directory is synced) it fails after its
effect.

Temporary files are left out: they are only ever seen by the code that makes them, and what they
can do to others — keep a directory from being removed — is a failing `rmdir`.
-/

set_option autoImplicit false

namespace Yappod

/-- The contents of `update.wal`; the target generation is the base generation plus one. -/
structure Wal where
  base : Nat
  operations : List IngestOperation
  deriving DecidableEq

/-- The files of a segment directory. -/
abbrev SegmentDir := Component → Option File

/-- The index directory. -/
structure Disk where
  manifest : Option Manifest
  wal : Option Wal
  segments : SegmentId → Option SegmentDir

/-- The lock files. -/
inductive Lock
  | writer
  | compaction
  | manifest
  deriving DecidableEq, Repr

/-- The places in the program that take a lock. -/
inductive LockSite
  /-- `writer.lock` in `YAP_V2_update_recover`. -/
  | recover
  /-- `writer.lock` in `apply_operations`. -/
  | apply
  /-- `writer.lock` at the start of `compact_internal`, and after it has recovered a WAL. -/
  | prepare
  /-- `writer.lock` before `compact_internal` publishes. -/
  | publish
  /-- `compaction.lock`. -/
  | compaction
  /-- `manifest.yap2.lock`. -/
  | manifest
  deriving DecidableEq, Repr

/-- The lock a site takes. -/
def LockSite.lock : LockSite → Lock
  | .recover => .writer
  | .apply => .writer
  | .prepare => .writer
  | .publish => .writer
  | .compaction => .compaction
  | .manifest => .manifest

/-- Why `update.wal` is removed. -/
inductive WalClear
  /-- Its batch has just been published. -/
  | published
  /-- Its batch was refused, and its caller will be told so. -/
  | withdrawn
  /-- A recovery takes its batch for published. -/
  | recovered
  deriving DecidableEq, Repr

/-- Why the index directory is synced. -/
inductive IndexSync
  | walWrite
  | walClear
  deriving DecidableEq, Repr

/-- What a new manifest publishes. -/
inductive Publication
  | update (operations : List IngestOperation)
  | compaction
  deriving DecidableEq

/-- The listing of a directory. -/
inductive Listing (α : Type)
  | missing
  | failed
  | entries (names : List α)

/-- One step against the index directory.  The arguments of type `LockSite`, `IndexSync`,
`WalClear` and `Publication` and the flag of `closeManifestLock` only say where in the program the
step is. -/
inductive Op
  | lock (site : LockSite)
  | unlock (l : Lock)
  | closeManifestLock (saved : Bool)
  | walExists
  | walLoad
  | installWal (w : Wal)
  | syncIndexDir (why : IndexSync)
  | unlinkWal (why : WalClear)
  | loadConfig
  | loadManifest
  | mkdirSegments
  | mkdtemp (kind : SegmentKind) (generation : Nat)
  | writeComponent (dir : SegmentId) (f : File)
  | syncSegment (dir : SegmentId)
  | syncSegments
  | readComponent (dir : SegmentId) (c : Component)
  | unlinkComponent (dir : SegmentId) (c : Component)
  | rmdir (dir : SegmentId)
  | listSegments
  | listComponents (dir : SegmentId)
  | closedir
  | installManifest (m : Manifest) (what : Publication)
  | syncManifestParent
  | stuck
  deriving DecidableEq

/-- What each step answers. -/
abbrev Res : Op → Type
  | .lock _ => Bool
  | .unlock _ => Unit
  | .closeManifestLock _ => Bool
  | .walExists => Bool
  | .walLoad => Except Status (Option Wal)
  | .installWal _ => Bool
  | .syncIndexDir _ => Bool
  | .unlinkWal _ => Bool
  | .loadConfig => Bool
  | .loadManifest => Except Status Manifest
  | .mkdirSegments => Bool
  | .mkdtemp _ _ => Option SegmentId
  | .writeComponent _ _ => Status
  | .syncSegment _ => Bool
  | .syncSegments => Bool
  | .readComponent _ _ => Option File
  | .unlinkComponent _ _ => Bool
  | .rmdir _ => Bool
  | .listSegments => Listing SegmentId
  | .listComponents _ => Listing Component
  | .closedir => Bool
  | .installManifest _ _ => Bool
  | .syncManifestParent => Bool
  | .stuck => Empty

/-- The part the outside world plays in a step. -/
inductive Choice
  | ok
  | fail
  /-- The step fails after its effect. -/
  | late
  /-- The suffix that `mkdtemp` picks. -/
  | suffix (n : Nat)
  /-- The names that `readdir` returns. -/
  | names (ids : List SegmentId)
  deriving DecidableEq

/-- Did the step go as the program wants? -/
def Choice.isOk : Choice → Bool
  | .fail => false
  | .late => false
  | _ => true

/-! ## History -/

/-- What became of a batch whose WAL was installed. -/
inductive Fate
  | pending
  | withdrawn
  | published
  deriving DecidableEq, Repr

/-- A WAL that was installed. -/
structure WalRecord where
  serial : Nat
  wal : Wal
  fate : Fate
  deriving DecidableEq

/-- What has happened so far, newest first.  Nothing in the program reads it. -/
structure History where
  /-- The steps that failed. -/
  faults : List (Pid × Op) := []
  /-- The times `apply_operations` or the publication of a compaction took `writer.lock` while an
  `update.wal` for the current generation was on disk. -/
  hazards : List (Pid × LockSite) := []
  /-- The WALs that were installed. -/
  wals : List WalRecord := []
  /-- The batches that were published. -/
  committed : List (List IngestOperation) := []
  /-- The names of the segments that a manifest has listed. -/
  names : List SegmentId := []

/-- Record what became of the newest WAL. -/
def markNewest (fate : Fate) : List WalRecord → List WalRecord
  | [] => []
  | r :: rs => { r with fate := fate } :: rs

/-- Everything the processes share. -/
structure State where
  disk : Disk
  locks : Lock → Option Pid
  history : History

namespace State

/-- Is the WAL on disk one for the current generation, that is, not published yet? -/
def pendingWal (s : State) : Bool :=
  match s.disk.wal, s.disk.manifest with
  | some w, some m => w.base = m.generation
  | _, _ => false

/-- The files of a segment directory. -/
def file (s : State) (id : SegmentId) (c : Component) : Option File :=
  (s.disk.segments id).bind fun dir => dir c

def setLock (s : State) (l : Lock) (p : Option Pid) : State :=
  { s with locks := fun l' => if l' = l then p else s.locks l' }

def setWal (s : State) (w : Option Wal) : State := { s with disk := { s.disk with wal := w } }

def setManifest (s : State) (m : Manifest) : State :=
  { s with disk := { s.disk with manifest := some m } }

def setDir (s : State) (id : SegmentId) (dir : Option SegmentDir) : State :=
  { s with disk := { s.disk with
      segments := fun id' => if id' = id then dir else s.disk.segments id' } }

/-- Change one file of a directory. -/
def setFile (s : State) (id : SegmentId) (c : Component) (f : Option File) : State :=
  match s.disk.segments id with
  | none => s
  | some dir => s.setDir id (some fun c' => if c' = c then f else dir c')

def fault (s : State) (pid : Pid) (o : Op) : State :=
  { s with history := { s.history with faults := (pid, o) :: s.history.faults } }

/-- Note that a lock was taken over a pending WAL. -/
def noteHazard (s : State) (pid : Pid) (site : LockSite) : State :=
  if (site = .apply ∨ site = .publish) ∧ s.pendingWal = true then
    { s with history := { s.history with hazards := (pid, site) :: s.history.hazards } }
  else s

def recordWal (s : State) (w : Wal) : State :=
  { s with history := { s.history with
      wals := ⟨s.history.wals.length, w, .pending⟩ :: s.history.wals } }

def markWal (s : State) (fate : Fate) : State :=
  { s with history := { s.history with wals := markNewest fate s.history.wals } }

/-- Note that a manifest was published; an update publishes the batch of the newest WAL. -/
def recordPublication (s : State) (m : Manifest) : Publication → State
  | .update ops =>
    { s with history := { s.history with
        committed := ops :: s.history.committed
        wals := markNewest .published s.history.wals
        names := m.ids ++ s.history.names } }
  | .compaction => { s with history := { s.history with names := m.ids ++ s.history.names } }

/-- A process dies: the system closes its files, and its locks are free. -/
def release (pid : Pid) (s : State) : State :=
  { s with locks := fun l => if s.locks l = some pid then none else s.locks l }

/-- A call may be started under this process number: it holds no lock, and nothing has failed under
it. -/
def idle (pid : Pid) (s : State) : Bool :=
  s.locks .writer ≠ some pid ∧ s.locks .compaction ≠ some pid ∧ s.locks .manifest ≠ some pid ∧
    ∀ f ∈ s.history.faults, f.1 ≠ pid

end State

/-! ## What the steps do -/

section Exec

variable (pid : Pid) (c : Choice) (s : State)

/-- A step that has the given outcome when it succeeds, and only fails otherwise. -/
def tryStep {α : Type} (o : Op) (success : α × State) (failure : α) : Option (α × State) :=
  match c with
  | .ok => some success
  | .fail => some (failure, s.fault pid o)
  | _ => none

/-- Take a lock: it has to be free. -/
def execLock (site : LockSite) : Option (Bool × State) :=
  match c with
  | .ok =>
    if s.locks site.lock = none then
      some (true, (s.noteHazard pid site).setLock site.lock (some pid))
    else none
  | .fail => some (false, s.fault pid (.lock site))
  | _ => none

/-- Make a directory under a name that is not in use. -/
def execMkdtemp (kind : SegmentKind) (generation : Nat) : Option (Option SegmentId × State) :=
  match c with
  | .suffix n =>
    match s.disk.segments ⟨kind, generation, n⟩ with
    | none => some (some ⟨kind, generation, n⟩, s.setDir ⟨kind, generation, n⟩ (some fun _ => none))
    | some _ => none
  | .fail => some (none, s.fault pid (.mkdtemp kind generation))
  | _ => none

/-- Put a component file in place.  The usearch file is written by other code than the rest, and
its failure is reported as a conflict. -/
def execWriteComponent (dir : SegmentId) (f : File) : Option (Status × State) :=
  let failure := if f.payload.component = .ann then Status.conflict else .ioError
  let written := s.setFile dir f.payload.component (some f)
  match c with
  | .ok => some (.ok, written)
  | .fail => some (failure, s.fault pid (.writeComponent dir f))
  | .late => some (failure, written.fault pid (.writeComponent dir f))
  | _ => none

/-- Remove an empty directory. -/
def execRmdir (dir : SegmentId) : Option (Bool × State) :=
  match c with
  | .ok =>
    match s.disk.segments dir with
    | none => some (true, s)
    | some d => if Component.all.all fun c => (d c).isNone then some (true, s.setDir dir none)
      else some (false, s)
  | .fail => some (false, s.fault pid (.rmdir dir))
  | _ => none

/-- Read the names of the segment directories; what is listed is there. -/
def execListSegments : Option (Listing SegmentId × State) :=
  match c with
  | .names ids => if ids.all fun id => (s.disk.segments id).isSome then some (.entries ids, s)
    else none
  | .fail => some (.failed, s.fault pid .listSegments)
  | _ => none

/-- Read the names of the files of a segment directory. -/
def listing (dir : SegmentId) : Listing Component :=
  match s.disk.segments dir with
  | none => .missing
  | some d => .entries (Component.all.filter fun c => (d c).isSome)

end Exec

/-- **The step function.** -/
def exec (pid : Pid) (o : Op) (c : Choice) (s : State) : Option (Res o × State) :=
  match o with
  | .lock site => execLock pid c s site
  | .unlock l => match c with
    | .ok => some ((), if s.locks l = some pid then s.setLock l none else s)
    | _ => none
  | .closeManifestLock saved => match c with
    | .ok => some (true, s.setLock .manifest none)
    | .fail => some (false, (s.setLock .manifest none).fault pid (.closeManifestLock saved))
    | _ => none
  | .walExists => tryStep pid c s .walExists (s.disk.wal.isSome, s) false
  | .walLoad => tryStep pid c s .walLoad (.ok s.disk.wal, s) (.error .ioError)
  | .installWal w =>
    tryStep pid c s (.installWal w) (true, (s.setWal (some w)).recordWal w) false
  | .syncIndexDir why => tryStep pid c s (.syncIndexDir why) (true, s) false
  | .unlinkWal why => tryStep pid c s (.unlinkWal why)
      (true, if why = .withdrawn then (s.setWal none).markWal .withdrawn else s.setWal none) false
  | .loadConfig => tryStep pid c s .loadConfig (true, s) false
  | .loadManifest => tryStep pid c s .loadManifest
      ((match s.disk.manifest with
        | some m => .ok m
        | none => .error .ioError), s) (.error .ioError)
  | .mkdirSegments => tryStep pid c s .mkdirSegments (true, s) false
  | .mkdtemp kind generation => execMkdtemp pid c s kind generation
  | .writeComponent dir f => execWriteComponent pid c s dir f
  | .syncSegment dir => tryStep pid c s (.syncSegment dir) (true, s) false
  | .syncSegments => tryStep pid c s .syncSegments (true, s) false
  | .readComponent dir comp => tryStep pid c s (.readComponent dir comp) (s.file dir comp, s) none
  | .unlinkComponent dir comp =>
    tryStep pid c s (.unlinkComponent dir comp) (true, s.setFile dir comp none) false
  | .rmdir dir => execRmdir pid c s dir
  | .listSegments => execListSegments pid c s
  | .listComponents dir => tryStep pid c s (.listComponents dir) (listing s dir, s) .failed
  | .closedir => tryStep pid c s .closedir (true, s) false
  | .installManifest m what =>
    tryStep pid c s (.installManifest m what) (true, (s.setManifest m).recordPublication m what) false
  | .syncManifestParent => tryStep pid c s .syncManifestParent (true, s) false
  | .stuck => none

/-- A program against the index directory. -/
abbrev Code (α : Type) := Prog Res α

/-- Perform one step. -/
abbrev perform (o : Op) : Code (Res o) := Prog.perform o

end Yappod

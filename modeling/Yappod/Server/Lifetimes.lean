import Yappod.Lib.Prog
import Yappod.Lib.RefCount

/-!
# The lifetimes of the runtime's objects

The runtimes of the server share what they have opened: the snapshot manager, its snapshots and their segments, the search
files of a segment and the ANN corpus.  Each of these counts the references to it, and whoever gives up the last one takes
it apart.  Here the functions that handle these pointers are programs on one memory, in which a thread is the owner of an
object that is not yet, or no longer, counted.

What decides their branches apart from the pointers — whether a file can be read, whether a segment is still listed, which
generation is newer, whether memory is left — is left to the outside world.  The mutexes that put updates in a row are left
out: the counts are right without them.  A section under `state->lock`, under the lock of the snapshot manager or under a
`references_lock` is one step.
-/

set_option autoImplicit false

namespace Yappod

namespace Lifetimes

open RefCount

/-! ## The objects -/

/-- The types of counted objects: `HTTP_RUNTIME`, `HTTP_MANAGER_RESOURCE`, `YAP_V2_SEARCH_SNAPSHOT`,
`HTTP_SEGMENT_RESOURCE`, `HTTP_ANN_RESOURCE` and `SNAPSHOT_SEGMENT`. -/
inductive Kind
  | runtime
  | manager
  | snapshot
  | segment
  | ann
  | documents
  deriving DecidableEq, Repr

/-- The pointers of an `HTTP_RUNTIME` to counted objects. -/
structure RuntimeFields where
  segments : List Nat
  ann : Option Nat
  snapshot : Option Nat
  manager : Option Nat

/-- A counted object, as far as it holds pointers to others. -/
inductive Object
  | runtime (fields : RuntimeFields)
  | manager (current : Option Nat)
  | snapshot (segments : List Nat)
  | segment
  | ann
  | documents

namespace Object

def kind : Object → Kind
  | .runtime _ => .runtime
  | .manager _ => .manager
  | .snapshot _ => .snapshot
  | .segment => .segment
  | .ann => .ann
  | .documents => .documents

/-- The pointers of a runtime; another object has none of these. -/
def fields : Object → RuntimeFields
  | .runtime f => f
  | _ => ⟨[], none, none, none⟩

/-- `state->current` of a snapshot manager. -/
def current : Object → Option Nat
  | .manager c => c
  | _ => none

/-- `segments` of a snapshot. -/
def segments : Object → List Nat
  | .snapshot xs => xs
  | _ => []

end Object

/-- The references of a runtime, in the order in which `runtime_close` gives them up. -/
def RuntimeFields.refs (f : RuntimeFields) : List (Ref Kind) :=
  f.segments.map (.segment, ·) ++ (f.ann.toList.map (.ann, ·) ++
    (f.snapshot.toList.map (.snapshot, ·) ++ f.manager.toList.map (.manager, ·)))

/-- The references that an object holds. -/
def Object.refs : Object → List (Ref Kind)
  | .runtime f => f.refs
  | .manager current => current.toList.map (.snapshot, ·)
  | .snapshot xs => xs.map (.documents, ·)
  | _ => []

def shape : Shape Object Kind := ⟨Object.kind, Object.refs⟩

/-! ## The steps -/

/-- The steps of a thread.

* `outside` — something that has nothing to do with counted objects; the answer is whether it has succeeded.
* `choose` — a number from outside, or none.
* `calloc`, `init`, `free` — the address of new memory, if there is any; the pointers and the count are set; the memory is
  given back.
* `retain`, `release` — the sections that change a count; if it has become zero, the object is returned.
* `read` — the fields of an object are read.
* `acquire`, `publish`, `takeCurrent` — the sections under `state->lock`.
* `claim`, `abandon`, `start` — a thread begins to open the server, gives up, or sets `state->current`.
* `managerAcquire`, `managerInstall` — the sections under the lock of a snapshot manager; a candidate that is not newer is
  refused. -/
inductive Op
  | outside
  | choose
  | calloc
  | init (a : Nat) (o : Object)
  | free (a : Nat)
  | retain (r : Ref Kind)
  | release (r : Ref Kind)
  | read (r : Ref Kind)
  | acquire
  | publish (expected candidate : Nat)
  | takeCurrent
  | claim
  | abandon
  | start (a : Nat)
  | managerAcquire (m : Nat)
  | managerInstall (m candidate : Nat)

abbrev Res : Op → Type
  | .outside => Bool
  | .choose => Option Nat
  | .calloc => Option Nat
  | .init _ _ => Unit
  | .free _ => Unit
  | .retain _ => Unit
  | .release _ => Option Object
  | .read _ => Object
  | .acquire => Option Nat
  | .publish _ _ => Bool
  | .takeCurrent => Option Nat
  | .claim => Bool
  | .abandon => Unit
  | .start _ => Unit
  | .managerAcquire _ => Option Nat
  | .managerInstall _ _ => Option (Option Nat)

abbrev Thread (α : Type) := Prog Res α

/-- Perform one step. -/
abbrev perform (o : Op) : Thread (Res o) := Prog.perform o

/-! ## Giving up references -/

/-- `segment_resource_release`, `ann_resource_release`, and the same for a `SNAPSHOT_SEGMENT` in `snapshot_destroy`: an
object without pointers to others. -/
def leafRelease (r : Ref Kind) : Thread Unit := do
  let last ← perform (.release r)
  match (last : Option Object) with
  | none => pure ()
  | some _ => perform (.free r.2)

/-- Release some pointers of one type one after the other. -/
def leafReleaseEach (k : Kind) : List Nat → Thread Unit
  | [] => pure ()
  | a :: as => do
    leafRelease (k, a)
    leafReleaseEach k as

/-- `snapshot_destroy`. -/
def snapshotDestroy (a : Nat) (segments : List Nat) : Thread Unit := do
  leafReleaseEach .documents segments
  perform (.free a)

/-- `YAP_V2_snapshot_release`. -/
def snapshotRelease : Option Nat → Thread Unit
  | none => pure ()
  | some a => do
    let last ← perform (.release (.snapshot, a))
    match (last : Option Object) with
    | none => pure ()
    | some o => snapshotDestroy a o.segments

/-- `manager_resource_release`, with `YAP_V2_snapshot_manager_close`.  Nobody else has the manager any more when its current
snapshot is taken out of it. -/
def managerResourceRelease : Option Nat → Thread Unit
  | none => pure ()
  | some m => do
    let last ← perform (.release (.manager, m))
    match (last : Option Object) with
    | none => pure ()
    | some o => do
      snapshotRelease o.current
      perform (.free m)

/-- `ann_resource_release`, of a pointer that may be null. -/
def annResourceRelease : Option Nat → Thread Unit
  | none => pure ()
  | some a => leafRelease (.ann, a)

/-- `runtime_close`. -/
def runtimeClose (f : RuntimeFields) : Thread Unit := do
  leafReleaseEach .segment f.segments
  annResourceRelease f.ann
  snapshotRelease f.snapshot
  managerResourceRelease f.manager

/-- `runtime_release`. -/
def runtimeRelease : Option Nat → Thread Unit
  | none => pure ()
  | some a => do
    let last ← perform (.release (.runtime, a))
    match (last : Option Object) with
    | none => pure ()
    | some o => do
      runtimeClose o.fields
      perform (.free a)

/-! ## Loading -/

/-- Memory for an object without pointers, with its mutex. -/
def leafCreate (o : Object) : Thread (Option Nat) := do
  let a ← perform .calloc
  match (a : Option Nat) with
  | none => pure none
  | some a =>
    let initialised ← perform .outside
    if initialised = true then do
      perform (.init a o)
      pure (some a)
    else do
      perform (.free a)
      pure none

/-- `ann_resource_create`. -/
def annResourceCreate : Thread (Option Nat) := leafCreate .ann

/-- `segment_resource_open`: memory, its mutex, and the files of the segment. -/
def segmentResourceOpen : Thread (Bool × List Nat) := do
  let a ← perform .calloc
  match (a : Option Nat) with
  | none => pure (false, [])
  | some a =>
    let opened ← perform .outside
    if opened = true then do
      perform (.init a .segment)
      pure (true, [a])
    else do
      perform (.free a)
      pure (false, [])

/-- Load a segment of a snapshot: its files are verified before there is memory for it, and read afterwards.  If they
cannot be read the snapshot has a pointer to the segment all the same. -/
def snapshotSegmentLoad : Thread (Bool × List Nat) := do
  let verified ← perform .outside
  if verified = false then pure (false, [])
  else
    let a ← leafCreate .documents
    match (a : Option Nat) with
    | none => pure (false, [])
    | some a =>
      let loaded ← perform .outside
      pure (loaded, [a])

/-- The loop over the `n` segments of a manifest: those that are found among the `reusable` ones of the previous object are
shared, the others loaded.  The pointers that were set are returned in any case. -/
def loadEach (k : Kind) (reusable : List Nat) (load : Thread (Bool × List Nat)) : Nat → Thread (Bool × List Nat)
  | 0 => pure (true, [])
  | n + 1 => do
    let found ← perform .choose
    match (found : Option Nat).bind fun i => reusable[i]? with
    | some a => do
      perform (.retain (k, a))
      let rest ← loadEach k reusable load n
      pure (rest.1, a :: rest.2)
    | none => do
      let loaded ← load
      if loaded.1 = false then pure loaded
      else
        let rest ← loadEach k reusable load n
        pure (rest.1, loaded.2 ++ rest.2)

/-- The segments of the previous snapshot, if there is one. -/
def previousSegments : Option Nat → Thread (List Nat)
  | none => pure []
  | some p => do
    let o ← perform (.read (.snapshot, p))
    pure (Object.segments o)

/-- The rest of `snapshot_load`: the `n` segments and the visibility table. -/
def snapshotFill (a n : Nat) (reusable : List Nat) : Thread (Option Nat) := do
  let loaded ← loadEach .documents reusable snapshotSegmentLoad n
  let visible ← perform .outside
  if loaded.1 = true ∧ visible = true then do
    perform (.init a (.snapshot loaded.2))
    pure (some a)
  else do
    snapshotDestroy a loaded.2
    pure none

/-- `snapshot_load`: memory and its mutex, the manifest and the map of the previous segments, and what is loaded. -/
def snapshotLoad (previous : Option Nat) : Thread (Option Nat) := do
  let a ← perform .calloc
  match (a : Option Nat) with
  | none => pure none
  | some a =>
    let listed ← perform .choose
    match (listed : Option Nat) with
    | none => do
      perform (.free a)
      pure none
    | some n => do
      let reusable ← previousSegments previous
      snapshotFill a n reusable

/-- `manager_resource_open`, with `YAP_V2_snapshot_manager_open`: the mutexes and paths, and the first snapshot. -/
def managerResourceOpen : Thread (Option Nat) := do
  let m ← perform .calloc
  match (m : Option Nat) with
  | none => pure none
  | some m =>
    let prepared ← perform .outside
    if prepared = false then do
      perform (.free m)
      pure none
    else
      let snapshot ← snapshotLoad none
      match (snapshot : Option Nat) with
      | none => do
        perform (.free m)
        pure none
      | some s => do
        perform (.init m (.manager (some s)))
        pure (some m)

/-- `YAP_V2_snapshot_manager_reload`. -/
def managerReload (m : Nat) : Thread Bool := do
  let base ← perform (.managerAcquire m)
  let candidate ← snapshotLoad base
  snapshotRelease base
  match (candidate : Option Nat) with
  | none => pure false
  | some c =>
    let installed ← perform (.managerInstall m c)
    match (installed : Option (Option Nat)) with
    | none => do
      snapshotRelease (some c)
      perform .outside
    | some previous => do
      snapshotRelease previous
      pure true

/-! ## Runtimes -/

/-- Look at objects of one type. -/
def readEach (k : Kind) : List Nat → Thread Unit
  | [] => pure ()
  | a :: as => do
    let _ ← perform (.read (k, a))
    readEach k as

/-- Look at a snapshot and the documents of its segments. -/
def readSnapshot : Option Nat → Thread Unit
  | none => pure ()
  | some s => do
    let o ← perform (.read (.snapshot, s))
    readEach .documents o.segments

/-- What searches and statistics are computed from: the segments, the snapshot and the ANN corpus. -/
def readRuntime (f : RuntimeFields) : Thread Unit := do
  readEach .segment f.segments
  readSnapshot f.snapshot
  readEach .ann f.ann.toList

/-- `YAP_V2_query_corpus_stats_build`. -/
def corpusStatsBuild (f : RuntimeFields) : Thread Bool := do
  readEach .segment f.segments
  readSnapshot f.snapshot
  perform .outside

/-- The ANN corpus is loaded or built, if it is new, and the query plan is made for it. -/
def annPrepare (f : RuntimeFields) : Thread Bool := do
  readRuntime f
  perform .outside

/-- `runtime_open_once`; what it has set of the runtime is returned in any case. -/
def runtimeOpenOnce : Thread (Bool × RuntimeFields) := do
  let listed ← perform .choose
  match (listed : Option Nat) with
  | none => pure (false, ⟨[], none, none, none⟩)
  | some n =>
    let manager ← managerResourceOpen
    match (manager : Option Nat) with
    | none => pure (false, ⟨[], none, none, none⟩)
    | some m =>
      let snapshot ← perform (.managerAcquire m)
      readSnapshot snapshot
      let matching ← perform .outside
      if snapshot = none ∨ matching = false then pure (false, ⟨[], none, snapshot, some m⟩)
      else
        let segments ← loadEach .segment [] segmentResourceOpen n
        if segments.1 = false then pure (false, ⟨segments.2, none, snapshot, some m⟩)
        else
          let counted ← corpusStatsBuild ⟨segments.2, none, snapshot, some m⟩
          if counted = false then pure (false, ⟨segments.2, none, snapshot, some m⟩)
          else
            let ann ← annResourceCreate
            let prepared ← annPrepare ⟨segments.2, ann, snapshot, some m⟩
            pure (ann.isSome && prepared, ⟨segments.2, ann, snapshot, some m⟩)

/-- `runtime_open`: it tries again while the snapshot is of another generation. -/
def runtimeOpen : Nat → Thread (Option RuntimeFields)
  | 0 => pure none
  | attempts + 1 => do
    let r ← runtimeOpenOnce
    if r.1 = false then do
      runtimeClose r.2
      pure none
    else do
      readSnapshot r.2.snapshot
      let same ← perform .outside
      if same = true then pure (some r.2)
      else do
        runtimeClose r.2
        runtimeOpen attempts

/-- `runtime_allocate_open`, with `runtime_enable_references`. -/
def runtimeAllocateOpen : Thread (Option Nat) := do
  let a ← perform .calloc
  match (a : Option Nat) with
  | none => pure none
  | some a =>
    let opened ← runtimeOpen 4
    match (opened : Option RuntimeFields) with
    | none => do
      perform (.free a)
      pure none
    | some f =>
      let enabled ← perform .outside
      if enabled = true then do
        perform (.init a (.runtime f))
        pure (some a)
      else do
        runtimeClose f
        perform (.free a)
        pure none

/-- `runtime_allocate_candidate` up to the point where the references are enabled: what it has set of the runtime is
returned in any case. -/
def candidateFields (previous : Nat) (replacement : Option Nat) : Thread (Bool × RuntimeFields) := do
  let listed ← perform .choose
  match (listed : Option Nat) with
  | none => pure (false, ⟨[], none, none, none⟩)
  | some n =>
    let o ← perform (.read (.runtime, previous))
    match (Object.fields o).manager with
    | none => pure (false, ⟨[], none, none, none⟩)
    | some m => do
      perform (.retain (.manager, m))
      let reloaded ← managerReload m
      if reloaded = false then pure (false, ⟨[], none, none, some m⟩)
      else
        let snapshot ← perform (.managerAcquire m)
        readSnapshot snapshot
        let matching ← perform .outside
        if snapshot = none ∨ matching = false then pure (false, ⟨[], none, snapshot, some m⟩)
        else
          let segments ← loadEach .segment (Object.fields o).segments segmentResourceOpen n
          if segments.1 = false then pure (false, ⟨segments.2, none, snapshot, some m⟩)
          else
            let counted ← corpusStatsBuild ⟨segments.2, none, snapshot, some m⟩
            if counted = false then pure (false, ⟨segments.2, none, snapshot, some m⟩)
            else
              match replacement.or (Object.fields o).ann with
              | none => pure (false, ⟨segments.2, none, snapshot, some m⟩)
              | some a => do
                perform (.retain (.ann, a))
                let prepared ← annPrepare ⟨segments.2, some a, snapshot, some m⟩
                pure (prepared, ⟨segments.2, some a, snapshot, some m⟩)

/-- `runtime_allocate_candidate`. -/
def runtimeAllocateCandidate (previous : Nat) (replacement : Option Nat) : Thread (Option Nat) := do
  let a ← perform .calloc
  match (a : Option Nat) with
  | none => pure none
  | some a =>
    let r ← candidateFields previous replacement
    if r.1 = true then do
      perform (.init a (.runtime r.2))
      pure (some a)
    else do
      runtimeClose r.2
      perform (.free a)
      pure none

/-- `runtime_state_publish_replacement`.  A candidate that was not published stays with the caller. -/
def runtimeStatePublishReplacement (expected candidate : Nat) : Thread (Option Nat) := do
  let published ← perform (.publish expected candidate)
  if published = true then do
    runtimeRelease (some expected)
    pure none
  else pure (some candidate)

/-- `runtime_state_reload`, which is also the end of an ingest request. -/
def runtimeStateReload : Thread Unit := do
  let previous ← perform .acquire
  match (previous : Option Nat) with
  | none => pure ()
  | some p => do
    let _ ← perform (.read (.runtime, p))
    let changed ← perform .outside
    if changed = false then runtimeRelease (some p)
    else
      let candidate ← runtimeAllocateCandidate p none
      match (candidate : Option Nat) with
      | none => runtimeRelease (some p)
      | some c => do
        readEach .runtime [c, p]
        let newer ← perform .outside
        if newer = false then do
          runtimeRelease (some c)
          runtimeRelease (some p)
        else do
          let rest ← runtimeStatePublishReplacement p c
          runtimeRelease rest
          runtimeRelease (some p)

/-- The end of `YAP_V2_http_runtime_maintain_ann`: a runtime with the new corpus, of the same generation, replaces the
old one. -/
def maintainAnn (base : Nat) (replacementAnn : Nat) : Thread (Option Nat) := do
  let replacement ← runtimeAllocateCandidate base (some replacementAnn)
  match (replacement : Option Nat) with
  | none => pure none
  | some c => do
    readEach .runtime [c, base]
    let same ← perform .outside
    if same = false then pure (some c)
    else runtimeStatePublishReplacement base c

/-- `YAP_V2_http_runtime_maintain_ann`, for the current runtime and its fields. -/
def maintainCurrent (base : Nat) (f : RuntimeFields) : Thread Unit := do
  let needed ← perform .outside
  if needed = false then runtimeRelease (some base)
  else
    let replacementAnn ← annResourceCreate
    match (replacementAnn : Option Nat) with
    | none => runtimeRelease (some base)
    | some a => do
      readRuntime f
      let built ← perform .outside
      if built = false then do
        annResourceRelease (some a)
        runtimeRelease (some base)
      else do
        let replacement ← maintainAnn base a
        let _ ← perform (.read (.runtime, base))
        runtimeRelease replacement
        annResourceRelease (some a)
        runtimeRelease (some base)

/-- `YAP_V2_http_runtime_execute` of anything but an ingest request, and `YAP_V2_http_runtime_state`, for the current
runtime and its fields. -/
def executeCurrent (current : Nat) (f : RuntimeFields) : Thread Unit := do
  readRuntime f
  runtimeRelease (some current)

/-- Get the current runtime and do something with it, if there is one. -/
def withCurrent (use : Nat → RuntimeFields → Thread Unit) : Thread Unit := do
  let current ← perform .acquire
  match (current : Option Nat) with
  | none => pure ()
  | some a => do
    let o ← perform (.read (.runtime, a))
    use a (Object.fields o)

def httpRuntimeMaintainAnn : Thread Unit := withCurrent maintainCurrent

def httpRuntimeExecute : Thread Unit := withCurrent executeCurrent

/-- `YAP_V2_http_execute`: the runtime is its own, and not counted. -/
def httpExecute : Thread Unit := do
  let opened ← runtimeOpen 4
  match (opened : Option RuntimeFields) with
  | none => pure ()
  | some f => do
    readRuntime f
    runtimeClose f

/-- `YAP_V2_http_runtime_open`, after the recovery. -/
def httpRuntimeOpen : Thread Unit := do
  let claimed ← perform .claim
  if claimed = false then pure ()
  else
    let opened ← runtimeAllocateOpen
    match (opened : Option Nat) with
    | none => perform .abandon
    | some a => perform (.start a)

/-- `YAP_V2_http_runtime_close`. -/
def httpRuntimeClose : Thread Unit := do
  let current ← perform .takeCurrent
  runtimeRelease current

/-- What a thread is started for. -/
inductive Call
  | open
  | close
  | reload
  | maintainAnn
  | execute
  | executeAlone

def program : Call → Thread Unit
  | .open => httpRuntimeOpen
  | .close => httpRuntimeClose
  | .reload => runtimeStateReload
  | .maintainAnn => httpRuntimeMaintainAnn
  | .execute => httpRuntimeExecute
  | .executeAlone => httpExecute

/-! ## The memory -/

/-- The memory of the server: its objects, `state->current`, and the thread that is opening the server.  For the record,
which references each thread holds, and which allocations it owns that are not counted. -/
structure State where
  heap : Heap Object
  current : Option Nat
  opening : Option Pid
  held : List (Pid × Ref Kind)
  owned : List (Pid × Raw)

/-- What the outside world decides in a step. -/
inductive Choice
  | yes
  | no
  | number (n : Nat)
  deriving DecidableEq, Repr

/-- What a step needs of the memory: it does not look at, count for or free anything that is free, and a count that goes
down is not zero. -/
def Op.Allowed (s : State) : Op → Prop
  | .init a _ => s.heap.rawCount (a, false) = 1
  | .free a => s.heap.rawCount (a, (s.heap.content a).isSome) = 1
  | .retain r => (s.heap.look shape r).isSome = true
  | .release r => 0 < s.heap.count shape r
  | .read r => (s.heap.look shape r).isSome = true
  | .acquire => ∀ a, s.current = some a → (s.heap.look shape (.runtime, a)).isSome = true
  | .start _ => s.current = none
  | .managerAcquire m => ∃ n o, s.heap.look shape (.manager, m) = some (n, o) ∧
      ∀ a, o.current = some a → (s.heap.look shape (.snapshot, a)).isSome = true
  | .managerInstall m candidate => (s.heap.look shape (.snapshot, candidate)).isSome = true ∧
      ∃ n o, s.heap.look shape (.manager, m) = some (n, o) ∧
        ∀ a, o.current = some a → (s.heap.look shape (.snapshot, a)).isSome = true
  | _ => True

/-- Take one more reference, for a thread. -/
def State.retain (s : State) (pid : Pid) (r : Ref Kind) : Option State :=
  (s.heap.retain shape r).map fun h => { s with heap := h, held := (pid, r) :: s.held }

/-- Take one more reference to what a pointer leads to. -/
def State.acquire (s : State) (pid : Pid) (k : Kind) : Option Nat → Option (Option Nat × State)
  | none => some (none, s)
  | some a => (s.retain pid (k, a)).map fun s' => (some a, s')

/-- What the steps do. -/
def exec (pid : Pid) (o : Op) (c : Choice) (s : State) : Option (Res o × State) :=
  match o with
  | .outside => match c with
    | .yes => some (true, s)
    | .no => some (false, s)
    | .number _ => none
  | .choose => match c with
    | .number n => some (some n, s)
    | .no => some (none, s)
    | .yes => none
  | .calloc => match c with
    | .yes => some (some s.heap.cells.length, { s with
        heap := s.heap.alloc, owned := (pid, (s.heap.cells.length, false)) :: s.owned })
    | .no => some (none, s)
    | .number _ => none
  | .init a o => (s.heap.init a o).map fun h => ((), { s with
      heap := h, held := (pid, (o.kind, a)) :: s.held.diff (o.refs.map (pid, ·)),
      owned := s.owned.erase (pid, (a, false)) })
  | .free a => (s.heap.free a).map fun h => ((), { s with
      heap := h, owned := s.owned.erase (pid, (a, (s.heap.content a).isSome)) })
  | .retain r => (s.retain pid r).map fun s' => ((), s')
  | .release r => (s.heap.release shape r).map fun x => (x.1, match x.1 with
    | none => { s with heap := x.2, held := s.held.erase (pid, r) }
    | some o => { s with
        heap := x.2, held := o.refs.map (pid, ·) ++ s.held.erase (pid, r),
        owned := (pid, (r.2, true)) :: s.owned })
  | .read r => (s.heap.look shape r).map fun x => (x.2, s)
  | .acquire => s.acquire pid .runtime s.current
  | .publish expected candidate =>
    if s.current = some expected then
      some (true, { s with
        current := some candidate, held := (pid, (.runtime, expected)) :: s.held.erase (pid, (.runtime, candidate)) })
    else some (false, s)
  | .takeCurrent => some (s.current, { s with
      current := none, held := s.current.toList.map (fun a => (pid, (.runtime, a))) ++ s.held })
  | .claim =>
    if s.current = none ∧ s.opening = none then some (true, { s with opening := some pid })
    else some (false, s)
  | .abandon => some ((), { s with opening := none })
  | .start a => some ((), { s with
      current := some a, opening := none, held := s.held.erase (pid, (.runtime, a)) })
  | .managerAcquire m => (s.heap.look shape (.manager, m)).bind fun x => s.acquire pid .snapshot x.2.current
  | .managerInstall m candidate => (s.heap.look shape (.manager, m)).bind fun x => match c with
    | .yes => (s.heap.replace shape (.manager, m) (.manager (some candidate))).map fun h => (some x.2.current, { s with
        heap := h,
        held := x.2.current.toList.map (fun a => (pid, (.snapshot, a))) ++ s.held.erase (pid, (.snapshot, candidate)) })
    | .no => some (none, s)
    | .number _ => none

/-- A thread that is started holds nothing. -/
def idle (pid : Pid) (s : State) : Bool :=
  (s.held.all fun x => x.1 ≠ pid) && (s.owned.all fun x => x.1 ≠ pid) && s.opening ≠ some pid

/-- The memory before anything is opened. -/
def empty : State := ⟨⟨[]⟩, none, none, [], []⟩

/-- The server together with its threads. -/
abbrev System := Sys.Config Res State Call Unit

/-- What can happen to the memory of a server. -/
def Reachable (c : System) : Prop :=
  Sys.Reach exec idle (fun _ s => s) program ⟨empty, fun _ => none⟩ c

end Lifetimes

end Yappod

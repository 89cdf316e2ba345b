import Yappod.System.CompactSpec

/-!
# Runs of the index

Any number of calls at work on one index directory — recoveries, updates, compactions — each of which
may be started at any time, take its steps in any order with the others, fail at any step and die at
any step.  `sound` collects the specifications of the calls; what follows holds in every
configuration that such a run can reach from a valid index (`Reachable`).

* `acknowledged_kept`: as long as no writer publishes over a pending WAL, a batch whose WAL was
  installed is pending, and then its WAL is on disk, or published, or withdrawn by its own call; and
  none that a recovery could see is pending when the recovery succeeds.
* `segments_complete`: as long as no process takes an installed manifest for one that was not, the
  files of all listed segments are there.
* `compaction_keeps_logical`, `update_publishes_batch`, `step_keeps_logical`: what a publication
  does to the records the index shows, and that no other step does anything to them.
-/

set_option autoImplicit false

namespace Yappod

/-- A call of the library. -/
inductive Call
  | recover
  | apply (ops : List IngestOperation)
  /-- The fuel bounds the rounds of the recovery loop; any number may be given. -/
  | compact (policy : Option CompactionPolicy) (fuel : Nat)

/-- The program of a call. -/
def program (env : Env) (cfg : Config) : Call → Code Status
  | .recover => updateRecover env cfg
  | .apply ops => updateApply env cfg ops
  | .compact policy fuel => compactInternal env cfg policy fuel

/-- The index directory together with the processes at work on it. -/
abbrev System := Sys.Config Res State Call Status

/-- A valid index on which nothing is at work. -/
structure Opened (env : Env) (cfg : Config) (m : Manifest) (s : State) : Prop where
  manifest : s.disk.manifest = some m
  ok : ManifestOk env cfg m
  past : ∀ id ∈ m.ids, id.generation ≤ m.generation
  files : ∀ d ∈ m.segments, ∀ c, s.file d.id c = d.file c
  bounded : ∃ n, ∀ id, s.disk.segments id ≠ none → id.suffix < n
  wal : s.disk.wal = none
  locks : ∀ l, s.locks l = none
  history : s.history = { names := m.ids }

/-- The configurations that a run from `s₀` can reach. -/
def Reachable (env : Env) (cfg : Config) (s₀ : State) (c : System) : Prop :=
  Sys.Reach exec State.idle State.release (program env cfg) ⟨s₀, fun _ => none⟩ c

/-- A process takes its next step. -/
def Performs (c : System) (pid : Pid) (o : Op) (r : Res o) (s' : State) : Prop :=
  ∃ call birth k choice, c.procs pid = some ⟨call, birth, .op o k⟩ ∧
    exec pid o choice c.state = some (r, s')

/-- What a reader of the index directory finds. -/
def State.readLogical (s : State) (id : Bytes) : Option Record :=
  s.disk.manifest.bind fun m => snapshotMap (m.segments.map fun d => contentsOf (s.file d.id)) id

/-- The next step of a process. -/
def nextOp (c : System) (pid : Pid) : Option Op :=
  match c.procs pid with
  | some ⟨_, _, .op o _⟩ => some o
  | _ => none

variable {env : Env} {cfg : Config} {L₀ : Logical} {m : Manifest} {s₀ : State}

theorem performs_of_nextOp {c : System} {pid : Pid} {o : Op} {r : Res o} {s' : State}
    (choice : Choice) (h : nextOp c pid = some o) (he : exec pid o choice c.state = some (r, s')) :
    Performs c pid o r s' := by
  unfold nextOp at h
  split at h
  · rename_i call birth o' k hp
    cases h
    exact ⟨call, birth, k, choice, hp, he⟩
  · cases h

/-! ## A small index

An empty index without vectors, for runs that show something. -/

def sampleEnv : Env where
  icu := plainIcu
  yyjsonRead text := if text = [123, 125] then some (.obj []) else none
  annBytes _ := 1
  configFingerprint _ := [1]
  testPayloadLimit := 0
  annBytes_pos _ := Nat.one_pos

def sampleConfig : Config where
  tokenizerId := []
  chunkMaxChars := 3
  chunkOverlapChars := 0
  vectorModelId := []
  vectorDimensions := 0
  vectorMetric := .disabled
  filterableFields := []
  overlap_lt := Config.three_chars
  dimensions_pos h := absurd rfl h

/-- An upsert with the metadata `{}`. -/
def upsertOf (id body : Bytes) (hne : id ≠ []) (hlen : id.length ≤ maxIdentifierBytes) :
    IngestOperation :=
  ⟨.upsert, id, [], [], body, [123, 125], 0, 0, [], hne, hlen, by simp, by simp⟩

def deleteOf (id : Bytes) (hne : id ≠ []) (hlen : id.length ≤ maxIdentifierBytes) :
    IngestOperation :=
  ⟨.delete, id, [], [], [], [], 0, 0, [], hne, hlen, by simp, by simp⟩

/-- The document `x`. -/
def upsertX : IngestOperation := upsertOf [120] [120] (by decide) (by decide)

def deleteX : IngestOperation := deleteOf [120] (by decide) (by decide)

def emptyManifest : Manifest := ⟨1, [1], []⟩

def emptyState : State := ⟨⟨some emptyManifest, none, fun _ => none⟩, fun _ => none, {}⟩

theorem emptyState_opened : Opened sampleEnv sampleConfig emptyManifest emptyState where
  manifest := rfl
  ok := ⟨by decide, rfl, by simp [emptyManifest]⟩
  past := by simp [emptyManifest, Manifest.ids]
  files := by simp [emptyManifest]
  bounded := ⟨0, fun _ h => absurd rfl h⟩
  wal := rfl
  locks _ := rfl
  history := rfl

/-- A process takes steps that succeed. -/
def steps (pid : Pid) (n : Nat) : List (Sys.Label Choice Call) := List.replicate n (.act pid .ok)

/-- What a run of the small index shows. -/
theorem exists_of_run (labels : List (Sys.Label Choice Call)) (check : System → Bool)
    (h : (Sys.runAll exec State.idle State.release (program sampleEnv sampleConfig)
      ⟨emptyState, fun _ => none⟩ labels).any check = true) :
    ∃ c, Reachable sampleEnv sampleConfig emptyState c ∧ check c = true := by
  obtain ⟨c, hrun, hc⟩ := (Option.any_eq_true ..).mp h
  exact ⟨c, Sys.Reach.of_runAll .refl hrun, hc⟩

/-- The first process brings the document `x` up to its WAL, or to the end. -/
def updateToWal : List (Sys.Label Choice Call) := [.spawn 1 (.apply [upsertX])] ++ steps 1 7

def updateToInstall : List (Sys.Label Choice Call) :=
  updateToWal ++ [.act 1 (.suffix 0)] ++ steps 1 14

def updateToEnd : List (Sys.Label Choice Call) := updateToInstall ++ steps 1 6 ++ [.finish 1]

/-- The second process compacts the segment of `x`, up to its second section under `writer.lock`. -/
def compactToPublish : List (Sys.Label Choice Call) :=
  updateToEnd ++ [.spawn 2 (.compact none 1)] ++ steps 2 5 ++ [.act 2 (.names [⟨.seg, 2, 0⟩])] ++
    steps 2 8 ++ [.act 2 (.suffix 0)] ++ steps 2 7

/-! ## The specifications of the calls -/

/-- What a finished call leaves: a successful recovery leaves nothing pending of what was logged
before it started. -/
def Post (_ : Pid) (call : Call) (birth : State) (status : Status) (s : State) : Prop :=
  match call with
  | .recover => status = .ok → s.Calm birth.history.wals.length
  | _ => True

theorem Opened.inv (h : Opened env cfg m s₀) : Inv env cfg m.logical s₀ := by
  have hledger : s₀.ledger = ⟨some m, none, [], [], m.ids⟩ := by
    rw [State.ledger, h.manifest, h.wal, h.history]
  refine ⟨m, ?_, fun d hd c f hf => h.files d hd c ▸ hf, fun _ => h.files, h.bounded,
    fun _ => ?_⟩
  · rw [hledger]
    exact ⟨rfl, h.ok, fun _ hid => hid, h.past, rfl, by simp, by simp⟩
  · rw [hledger]
    exact ⟨by simp, by simp, by simp, by simp⟩

theorem Rely.release {pid q : Pid} (hne : q ≠ pid) (s : State) :
    Rely env cfg L₀ pid s (s.release q) where
  inv h := by
    obtain ⟨m, hm⟩ := h
    exact ⟨m, hm.ledger, hm.files, hm.complete, hm.bounded, hm.wal⟩
  locks l := by
    simp only [State.release]
    split
    · rename_i h
      simp [h, hne]
    · exact Iff.rfl
  faults := List.suffix_refl _
  hazards := List.suffix_refl _
  settled _ h := h
  logged := le_rfl
  writer _ := ⟨rfl, fun _ _ => rfl⟩
  compaction _ := ⟨fun _ _ => rfl, fun _ h _ => h, fun _ _ h => h,
    fun m h => ⟨m, [], h, le_rfl, (List.append_nil _).symm, by simp⟩⟩

/-- **The calls of the library, among each other.** -/
theorem sound : Sys.Sound exec State.idle State.release (program env cfg) (Ready false)
    (Rely env cfg L₀) (Guar env cfg) (Inv env cfg L₀) Post where
  refl := Rely.refl
  trans _ := Rely.trans
  guarantee hne hg := hg.rely hne
  inv h hg := hg.inv h
  crash hne := Rely.release hne _
  crash_inv h := by
    obtain ⟨m, hm⟩ := h
    exact ⟨m, hm.ledger, hm.files, hm.complete, hm.bounded, hm.wal⟩
  safe pid call s hinv hidle := by
    simp only [State.idle, decide_eq_true_eq] at hidle
    have hout : Outside env cfg L₀ pid s := ⟨hidle.1, hidle.2.2.1, hinv⟩
    cases call with
    | recover => exact (updateRecover_spec _ s ⟨hout, le_rfl⟩).mono fun _ _ h => h.2
    | apply ops => exact (updateApply_spec ops s hout).mono fun _ _ _ => trivial
    | compact policy fuel =>
      exact (compactInternal_spec policy fuel s ⟨hout, hidle.2.1⟩).mono fun _ _ _ => trivial

/-- Every reachable configuration is good. -/
theorem Reachable.good (h₀ : Opened env cfg m s₀) {c : System} (h : Reachable env cfg s₀ c) :
    c.Good exec (Ready false) (Rely env cfg m.logical) (Guar env cfg) (Inv env cfg m.logical)
      Post :=
  Sys.Reach.good sound ⟨h₀.inv, fun _ _ hp => by cases hp⟩ h

/-- The next step of a process is ready, and obeys the guarantee. -/
theorem Performs.guar (h₀ : Opened env cfg m s₀) {c : System} (h : Reachable env cfg s₀ c)
    {pid : Pid} {o : Op} {r : Res o} {s' : State} (hp : Performs c pid o r s') :
    Ready false pid o c.state ∧ Guar env cfg pid c.state s' := by
  obtain ⟨call, birth, k, choice, hproc, he⟩ := hp
  have hsafe := ((h.good h₀).2 pid _ hproc) c.state (Rely.refl pid _)
  exact ⟨hsafe.1, (hsafe.2 choice r s' he).1⟩

/-! ## Updates are not lost -/

/-- The WALs that were installed are remembered. -/
def State.Remembers (s s' : State) : Prop :=
  ∀ r ∈ s.history.wals, ∃ r' ∈ s'.history.wals, r'.serial = r.serial ∧ r'.wal = r.wal

theorem exists_mem_markNewest (fate : Fate) {rs : List WalRecord} {r : WalRecord} (h : r ∈ rs) :
    ∃ r' ∈ markNewest fate rs, r'.serial = r.serial ∧ r'.wal = r.wal := by
  cases rs with
  | nil => cases h
  | cons r₀ rs =>
    rcases List.mem_cons.mp h with rfl | h
    · exact ⟨_, List.mem_cons_self .., rfl, rfl⟩
    · exact ⟨r, List.mem_cons_of_mem _ h, rfl, rfl⟩

theorem Guar.remembers {pid : Pid} {s s' : State} (hg : Guar env cfg pid s s') :
    s.Remembers s' := by
  have same : s'.history.wals = s.history.wals → s.Remembers s' := fun h r hr =>
    ⟨r, h ▸ hr, rfl, rfl⟩
  cases hg.effect with
  | none ledger dirs => exact same (congrArg Ledger.wals ledger)
  | dir id ledger others held unlisted => exact same (congrArg Ledger.wals ledger)
  | installWal m w eq =>
    subst eq
    exact fun r hr => ⟨r, List.mem_cons_of_mem _ hr, rfl, rfl⟩
  | removeWal eq =>
    subst eq
    exact same rfl
  | withdrawWal eq =>
    subst eq
    exact fun r hr => exists_mem_markNewest _ hr
  | update m m' ops ds eq =>
    subst eq
    exact fun r hr => exists_mem_markNewest _ hr
  | compaction m m' pre old new post eq =>
    subst eq
    exact same rfl

/-- The WALs that were installed when a process was started are still remembered. -/
theorem Reachable.remembers (h₀ : Opened env cfg m s₀) {c : System} (h : Reachable env cfg s₀ c)
    {pid : Pid} {proc : Sys.Proc Res State Call Status} (hp : c.procs pid = some proc) :
    proc.birth.Remembers c.state := by
  have hgood : Sys.Config.Good exec (Ready false) (Rely env cfg m.logical) (Guar env cfg)
      (Inv env cfg m.logical) Post ⟨s₀, fun _ => none⟩ := ⟨h₀.inv, fun _ _ hp => by cases hp⟩
  refine Sys.Reach.since_birth sound (fun s r hr => ⟨r, hr, rfl, rfl⟩) ?_ Guar.remembers
    (fun _ _ r hr => ⟨r, hr, rfl, rfl⟩) hgood (fun _ => rfl) h hp
  intro a b c hab hbc r hr
  obtain ⟨r₁, hr₁, hs₁, hw₁⟩ := hab r hr
  obtain ⟨r₂, hr₂, hs₂, hw₂⟩ := hbc r₁ hr₁
  exact ⟨r₂, hr₂, hs₂.trans hs₁, hw₂.trans hw₁⟩

/-- Process 2 has recovered a batch, and nothing has failed. -/
def recoveredBatch (c : System) : Bool :=
  match c.procs 2 with
  | some ⟨.recover, birth, .pure .ok⟩ => birth.history.wals ≠ [] ∧
      c.state.history.faults = [] ∧ c.state.history.hazards = []
  | _ => false

/-- Process 4 has recovered, no WAL is left, and what the last batch was to delete is still there. -/
def recoveredWithoutDelete (c : System) : Bool :=
  match c.procs 4 with
  | some ⟨.recover, birth, .pure .ok⟩ => c.state.history.faults = [] ∧
      (∃ r ∈ birth.history.wals, r.wal = ⟨2, [deleteX]⟩) ∧ c.state.disk.wal = none ∧
      c.state.history.committed = [[upsertX]] ∧ c.state.readLogical [120] ≠ none
  | _ => false

/-- A segment has at least the file of its documents. -/
theorem Described.documents {generation : Nat} {d : SegmentDescriptor}
    (h : Described env cfg generation d) : ∃ f, d.file .documents = some f := by
  obtain ⟨g, us, hd, -⟩ := h
  rw [hd, describe_file, sliceFile, sliceFiles]
  exact ⟨_, rfl⟩

/-- **Listed segments are complete**, as long as no process has taken a manifest that it had
installed for one that was not: no directory sync after the rename of the manifest and no release of
`manifest.yap2.lock` after a successful save has failed.  Other steps may fail, and processes may die
anywhere. -/
theorem segments_complete (h₀ : Opened env cfg m s₀) {c : System} (h : Reachable env cfg s₀ c)
    (hclean : c.state.Clean) :
    ∃ m', c.state.disk.manifest = some m' ∧ ∀ d ∈ m'.segments,
      (∃ dir, c.state.disk.segments d.id = some dir) ∧ ∀ comp, c.state.file d.id comp = d.file comp := by
  obtain ⟨m', hm'⟩ := (h.good h₀).1
  refine ⟨m', hm'.ledger.manifest, fun d hd => ⟨?_, hm'.complete hclean d hd⟩⟩
  obtain ⟨f, hf⟩ := (hm'.ledger.ok.described d hd).documents
  rw [← hm'.complete hclean d hd, State.file] at hf
  cases hdir : c.state.disk.segments d.id with
  | none =>
    rw [hdir] at hf
    cases hf
  | some dir => exact ⟨dir, rfl⟩

theorem segments_complete_update : ∃ c m',
    Reachable sampleEnv sampleConfig emptyState c ∧ c.state.disk.manifest = some m' ∧
    m'.ids = [⟨.seg, 2, 0⟩] ∧ ∀ d ∈ m'.segments, (∃ dir, c.state.disk.segments d.id = some dir) ∧
      ∀ comp, c.state.file d.id comp = d.file comp := by
  obtain ⟨c, hc, hcheck⟩ := exists_of_run (updateToEnd) (fun c =>
    c.state.disk.manifest.map Manifest.ids = some [⟨.seg, 2, 0⟩] ∧ c.state.history.faults = [])
    (by decide +kernel)
  rw [decide_eq_true_eq] at hcheck
  obtain ⟨m', hm', hall⟩ := segments_complete emptyState_opened hc (by simp [State.Clean, hcheck.2])
  rw [hm', Option.map_some, Option.some.injEq] at hcheck
  exact ⟨c, m', hc, hm', hcheck.1, hall⟩

/-- The manifest lists a segment that is not there. -/
def listsMissing (c : System) : Bool :=
  match c.state.disk.manifest with
  | some m' => m'.segments.any fun d => (c.state.disk.segments d.id).isNone
  | none => false

/-- **A listed segment that is removed.**  The manifest of an update has been renamed into place when
the sync of its directory fails; the update takes that for a failure and removes its segment. -/
theorem update_removes_listed_segment : ∃ c m', Reachable sampleEnv sampleConfig emptyState c ∧
    c.state.disk.manifest = some m' ∧ ∃ d ∈ m'.segments, c.state.disk.segments d.id = none := by
  obtain ⟨c, hc, hcheck⟩ := exists_of_run (updateToInstall ++ steps 1 1 ++
      [.act 1 .fail] ++ steps 1 13)
    listsMissing (by decide +kernel)
  rw [listsMissing] at hcheck
  split at hcheck
  · rename_i m' hm'
    obtain ⟨d, hd, hnone⟩ := List.any_eq_true.mp hcheck
    exact ⟨c, m', hc, hm', d, hd, Option.isNone_iff_eq_none.mp hnone⟩
  · cases hcheck

/-! ## Publications -/

/-- What is read from disk is what the manifest stands for, if the files are there. -/
theorem readLogical_of_files {s : State} {m' : Manifest} (hm : s.disk.manifest = some m')
    (hf : ∀ d ∈ m'.segments, ∀ c, s.file d.id c = d.file c) : s.readLogical = m'.logical := by
  have hmap : (m'.segments.map fun d => contentsOf (s.file d.id)) =
      m'.segments.map SegmentDescriptor.contents :=
    List.map_congr_left fun d hd => congrArg contentsOf (funext (hf d hd))
  funext id
  rw [State.readLogical, hm, Option.bind_some, hmap, Manifest.logical]

/-- A step that installs a manifest: what it is, by what it publishes. -/
theorem Performs.publication (h₀ : Opened env cfg m s₀) {c : System} (h : Reachable env cfg s₀ c)
    {pid : Pid} {m' : Manifest} {what : Publication} {s' : State}
    (hp : Performs c pid (.installManifest m' what) true s') :
    s' = c.state.install m' what ∧ ∃ m₁, c.state.disk.manifest = some m₁ ∧
      m'.generation = m₁.generation + 1 ∧ Effect env cfg pid c.state s' := by
  obtain ⟨⟨m₁, hm₁, hgen⟩, hg⟩ := hp.guar h₀ h
  refine ⟨?_, m₁, hm₁, hgen, hg.effect⟩
  obtain ⟨call, birth, k, choice, -, he⟩ := hp
  rcases tryStep_eq_some he with he | ⟨hno, -⟩
  · exact (Prod.mk.inj he).2
  · cases hno

/-- A step that changes nothing of the manifest does not install one of the next generation. -/
theorem not_installed {s : State} {m' m₁ : Manifest} {what : Publication}
    (hm₁ : s.disk.manifest = some m₁) (hgen : m'.generation = m₁.generation + 1)
    (h : (s.install m' what).disk.manifest = s.disk.manifest) : False := by
  have hm' : (s.install m' what).disk.manifest = some m' := by cases what <;> rfl
  rw [hm', hm₁, Option.some.injEq] at h
  rw [h] at hgen
  omega

/-- **A compaction keeps the records of the index**: the manifest it publishes shows the same as the
one it replaces, whatever range it has selected, however its output is cut into segments, and
whatever has been appended meanwhile. -/
theorem compaction_keeps_logical (h₀ : Opened env cfg m s₀) {c : System}
    (h : Reachable env cfg s₀ c) {pid : Pid} {m' : Manifest} {s' : State}
    (hp : Performs c pid (.installManifest m' .compaction) true s') :
    s'.disk.manifest = some m' ∧ ∃ m₁, c.state.disk.manifest = some m₁ ∧
      m'.generation = m₁.generation + 1 ∧ m'.logical = m₁.logical ∧
      (c.state.Clean → s'.readLogical = c.state.readLogical) := by
  obtain ⟨rfl, m₁, hm₁, hgen, heffect⟩ := hp.publication h₀ h
  refine ⟨rfl, m₁, hm₁, hgen, ?_⟩
  have hlogical : m'.logical = m₁.logical := by
    cases heffect with
    | none ledger dirs => exact (not_installed hm₁ hgen (congrArg Ledger.manifest ledger)).elim
    | dir id ledger => exact (not_installed hm₁ hgen (congrArg Ledger.manifest ledger)).elim
    | installWal m w eq =>
      exact (not_installed hm₁ hgen (congrArg (·.disk.manifest) eq)).elim
    | removeWal eq => exact (not_installed hm₁ hgen (congrArg (·.disk.manifest) eq)).elim
    | withdrawWal eq => exact (not_installed hm₁ hgen (congrArg (·.disk.manifest) eq)).elim
    | update m₂ m₃ ops ds eq =>
      -- an update would have been recorded as committed
      have := congrArg (fun s => s.history.committed.length) eq
      simp [State.install, State.recordPublication, State.setManifest] at this
    | compaction m₂ m₃ pre old new post eq writer compaction manifest generation segments segments'
        stands =>
      obtain rfl : m₁ = m₂ := Option.some.inj (hm₁.symm.trans manifest)
      obtain rfl : m' = m₃ := Option.some.inj (congrArg (·.disk.manifest) eq)
      exact stands.logical segments segments'
  refine ⟨hlogical, fun hclean => ?_⟩
  obtain ⟨m₂, hm₂⟩ := (h.good h₀).1
  obtain rfl : m₁ = m₂ := Option.some.inj (hm₁.symm.trans hm₂.ledger.manifest)
  obtain ⟨m₃, hm₃⟩ := (hp.guar h₀ h).2.inv (h.good h₀).1
  obtain rfl : m' = m₃ := Option.some.inj hm₃.ledger.manifest
  rw [readLogical_of_files hm₁ (hm₂.complete hclean), readLogical_of_files rfl (hm₃.complete hclean),
    hlogical]

/-- Process 2 is about to install the manifest of a compaction of the only segment. -/
def installsCompaction (c : System) : Bool :=
  match nextOp c 2 with
  | some (.installManifest m' .compaction) => m'.ids = [⟨.compact, 3, 0⟩] ∧
      c.state.disk.manifest.map Manifest.ids = some [⟨.seg, 2, 0⟩]
  | _ => false

theorem compaction_keeps_logical_x : ∃ (c : System) (m' : Manifest),
    Reachable sampleEnv sampleConfig emptyState c ∧ ∃ m₁, c.state.disk.manifest = some m₁ ∧
      m₁.ids = [⟨.seg, 2, 0⟩] ∧ m'.ids = [⟨.compact, 3, 0⟩] ∧ m'.logical = m₁.logical := by
  obtain ⟨c, hc, hcheck⟩ := exists_of_run (compactToPublish ++ steps 2 9)
    installsCompaction (by decide +kernel)
  rw [installsCompaction] at hcheck
  split at hcheck
  · rename_i m' hnext
    rw [decide_eq_true_eq] at hcheck
    have hp : Performs c 2 (.installManifest m' .compaction) true
        (c.state.install m' .compaction) := performs_of_nextOp .ok hnext rfl
    obtain ⟨-, m₁, hm₁, -, hlog, -⟩ := compaction_keeps_logical emptyState_opened hc hp
    rw [hm₁, Option.map_some, Option.some.injEq] at hcheck
    exact ⟨c, m', hc, m₁, hm₁, hcheck.2, hcheck.1, hlog⟩
  · cases hcheck

/-- The step of an update that publishes: the manifest is of the next generation, it lists the old
segments and then new ones, and it shows the old records with the batch applied. -/
theorem Performs.update (h₀ : Opened env cfg m s₀) {c : System} (h : Reachable env cfg s₀ c)
    {pid : Pid} {m' : Manifest} {ops : List IngestOperation} {s' : State}
    (hp : Performs c pid (.installManifest m' (.update ops)) true s') :
    s'.disk.manifest = some m' ∧ ∃ m₁ ds, c.state.disk.manifest = some m₁ ∧
      m'.generation = m₁.generation + 1 ∧ m'.segments = m₁.segments ++ ds ∧
      m'.logical = applyBatch env cfg m₁.logical ops := by
  obtain ⟨rfl, m₁, hm₁, hgen, heffect⟩ := hp.publication h₀ h
  refine ⟨rfl, m₁, ?_⟩
  cases heffect with
  | none ledger dirs => exact (not_installed hm₁ hgen (congrArg Ledger.manifest ledger)).elim
  | dir id ledger => exact (not_installed hm₁ hgen (congrArg Ledger.manifest ledger)).elim
  | installWal m w eq => exact (not_installed hm₁ hgen (congrArg (·.disk.manifest) eq)).elim
  | removeWal eq => exact (not_installed hm₁ hgen (congrArg (·.disk.manifest) eq)).elim
  | withdrawWal eq => exact (not_installed hm₁ hgen (congrArg (·.disk.manifest) eq)).elim
  | update m₂ m₃ ops' ds eq held manifest generation segments ok listed new past logical wal =>
    obtain rfl : m₁ = m₂ := Option.some.inj (hm₁.symm.trans manifest)
    obtain rfl : m' = m₃ := Option.some.inj (congrArg (·.disk.manifest) eq)
    have hops : ops = ops' := (List.cons.inj (congrArg (fun s => s.history.committed) eq)).1
    exact ⟨ds, hm₁, hgen, segments, hops ▸ logical⟩
  | compaction m₂ m₃ pre old new post eq =>
    have := congrArg (fun s => s.history.committed.length) eq
    simp [State.install, State.recordPublication, State.setManifest] at this

/-- A step installs a manifest, or it leaves what a reader finds as it was, unless its process has
been misled. -/
theorem Guar.readLogical {pid : Pid} {s s' : State} (hg : Guar env cfg pid s s') :
    (∃ m' what, s' = s.install m' what) ∨ (s'.disk.manifest = s.disk.manifest ∧
      (¬s.Misled pid → s'.readLogical = s.readLogical)) := by
  have same : s'.disk.manifest = s.disk.manifest →
      (∀ m', s.disk.manifest = some m' → ∀ d ∈ m'.segments,
        s'.disk.segments d.id = s.disk.segments d.id) → s'.readLogical = s.readLogical := by
    intro hm hdirs
    funext id
    rw [State.readLogical, State.readLogical, hm]
    cases hs : s.disk.manifest with
    | none => rfl
    | some m' =>
      have hmap : (m'.segments.map fun d => contentsOf (s'.file d.id)) =
          m'.segments.map fun d => contentsOf (s.file d.id) := by
        refine List.map_congr_left fun d hd => congrArg contentsOf (funext fun c => ?_)
        rw [State.file, State.file, hdirs m' hs d hd]
      rw [Option.bind_some, Option.bind_some, hmap]
  cases hg.effect with
  | none ledger dirs =>
    have hm : s'.disk.manifest = s.disk.manifest := congrArg Ledger.manifest ledger
    exact Or.inr ⟨hm, fun _ => same hm fun _ _ d _ => congrFun dirs d.id⟩
  | dir id ledger others held unlisted =>
    have hm : s'.disk.manifest = s.disk.manifest := congrArg Ledger.manifest ledger
    refine Or.inr ⟨hm, fun hmis => same hm fun m' hm' d hd => others d.id ?_⟩
    rintro rfl
    rcases unlisted with hun | ⟨h, -⟩
    · exact hun m' hm' (List.mem_map.mpr ⟨d, hd, rfl⟩)
    · exact hmis h
  | installWal m w eq =>
    subst eq
    exact Or.inr ⟨rfl, fun _ => rfl⟩
  | removeWal eq =>
    subst eq
    exact Or.inr ⟨rfl, fun _ => rfl⟩
  | withdrawWal eq =>
    subst eq
    exact Or.inr ⟨rfl, fun _ => rfl⟩
  | update m₁ m' ops ds eq => exact Or.inl ⟨m', .update ops, eq⟩
  | compaction m₁ m' pre old new post eq => exact Or.inl ⟨m', .compaction, eq⟩

/-- **An update publishes its batch, all at once.**  The step that publishes makes a manifest of the
next generation that lists the old segments and then new ones and shows the old records with the
batch applied.  Any step either installs a manifest or leaves the manifest, and with it what a reader
finds on disk, as it was; only a process that has installed a manifest and been told that it had not
may do worse. -/
theorem update_publishes_batch (h₀ : Opened env cfg m s₀) {c : System}
    (h : Reachable env cfg s₀ c) (pid : Pid) :
    (∀ m' ops s', Performs c pid (.installManifest m' (.update ops)) true s' →
      s'.disk.manifest = some m' ∧ ∃ m₁ ds, c.state.disk.manifest = some m₁ ∧
        m'.generation = m₁.generation + 1 ∧ m'.segments = m₁.segments ++ ds ∧
        m'.logical = applyBatch env cfg m₁.logical ops) ∧
    ∀ o r s', Performs c pid o r s' → (∃ m' what, s' = c.state.install m' what) ∨
      (s'.disk.manifest = c.state.disk.manifest ∧
        (¬c.state.Misled pid → s'.readLogical = c.state.readLogical)) :=
  ⟨fun _ _ _ hp => hp.update h₀ h, fun _ _ _ hp => (hp.guar h₀ h).2.readLogical⟩

/-- Process 1 is about to install the manifest of the first batch. -/
def installsUpsert (c : System) : Bool :=
  match nextOp c 1 with
  | some (.installManifest _ (.update ops)) => ops = [upsertX] ∧
      c.state.disk.manifest = some emptyManifest
  | _ => false

theorem update_publishes_batch_x : ∃ (c : System) (m' : Manifest),
    Reachable sampleEnv sampleConfig emptyState c ∧ c.state.disk.manifest = some emptyManifest ∧
    m'.logical = applyBatch sampleEnv sampleConfig emptyManifest.logical [upsertX] := by
  obtain ⟨c, hc, hcheck⟩ := exists_of_run (updateToInstall)
    installsUpsert (by decide +kernel)
  rw [installsUpsert] at hcheck
  split at hcheck
  · rename_i m' ops hnext
    rw [decide_eq_true_eq] at hcheck
    obtain ⟨rfl, hempty⟩ := hcheck
    have hp : Performs c 1 (.installManifest m' (.update [upsertX])) true
        (c.state.install m' (.update [upsertX])) := performs_of_nextOp .ok hnext rfl
    obtain ⟨-, m₁, ds, hm₁, -, -, hlog⟩ :=
      (update_publishes_batch emptyState_opened hc 1).1 m' [upsertX] _ hp
    obtain rfl : emptyManifest = m₁ := Option.some.inj (hempty.symm.trans hm₁)
    exact ⟨c, m', hc, hempty, hlog⟩
  · cases hcheck

end Yappod

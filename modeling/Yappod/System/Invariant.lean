import Yappod.Indexing.CompactUnits
import Yappod.Indexing.PlannerPartition
import Yappod.Indexing.UpdateUnits

/-!
# The invariant of the index directory

What holds of the index directory whatever updates, recoveries and compactions are at work on it and
wherever they fail or die (`Inv`), what a step of one of them may do (`Guar`), and what the others
may count on meanwhile (`Rely`).

* `Effect` lists the kinds of steps: nothing of note, a change of one segment directory, a WAL that
  comes or goes, an update or a compaction that is published.  A step that makes a directory, changes
  one or removes one holds the lock that belongs to its kind.
* `Guar.inv` shows that such steps keep the invariant, `Guar.rely` that they are what the others rely
  on.

Two conditions on the history enter.  The files of the segments are all there as long as no process
has missed that its manifest was installed (`Clean`), and the WAL is in order as long as nothing has
failed and no writer has ignored a pending WAL (`Orderly`).
-/

set_option autoImplicit false

namespace Yappod

/-! ## Vocabulary -/

/-- Does a failure of the step come after the manifest has been replaced? -/
def Op.afterInstall : Op → Bool
  | .syncManifestParent => true
  | .closeManifestLock saved => saved
  | _ => false

/-- What is protected by `writer.lock`, with its history. -/
structure Ledger where
  manifest : Option Manifest
  wal : Option Wal
  wals : List WalRecord
  committed : List (List IngestOperation)
  names : List SegmentId

namespace State

def ledger (s : State) : Ledger :=
  ⟨s.disk.manifest, s.disk.wal, s.history.wals, s.history.committed, s.history.names⟩

/-- The step has failed for the process. -/
def Failed (pid : Pid) (o : Op) (s : State) : Prop := (pid, o) ∈ s.history.faults

/-- The process has taken an installed manifest for one that was not installed. -/
def Misled (pid : Pid) (s : State) : Prop := ∃ o, o.afterInstall = true ∧ s.Failed pid o

/-- No process has taken an installed manifest for one that was not installed. -/
def Clean (s : State) : Prop := ∀ f ∈ s.history.faults, f.2.afterInstall = false

/-- Nothing has failed, and no update and no compaction has set out to publish over a pending
WAL. -/
def Orderly (s : State) : Prop := s.history.faults = [] ∧ s.history.hazards = []

/-- The process holds the lock for directories of this kind. -/
def Held (pid : Pid) : SegmentKind → State → Prop
  | .seg, s => s.locks .writer = some pid
  | .compact, s => s.locks .compaction = some pid

/-- The batches of the first `n` WALs are not pending. -/
def Settled (n : Nat) (s : State) : Prop :=
  n ≤ s.history.wals.length ∧ ∀ r ∈ s.history.wals, r.serial < n → r.fate ≠ .pending

/-- The manifest does not list the segment. -/
def Unlisted (id : SegmentId) (s : State) : Prop :=
  ∀ m, s.disk.manifest = some m → id ∉ m.ids

end State

/-- The events of a run of segments. -/
def segmentEvents (ds : List SegmentDescriptor) : List (Bytes × Option Record) :=
  ds.flatMap fun d => d.contents.events

theorem Manifest.logical_eq (m : Manifest) : m.logical = current (segmentEvents m.segments) :=
  funext fun id => m.logical_eq_current id

theorem segmentEvents_append (ds es : List SegmentDescriptor) :
    segmentEvents (ds ++ es) = segmentEvents ds ++ segmentEvents es := List.flatMap_append

/-- The segments `new` may stand for `old` after `pre`: they have the same last events, or, if
nothing precedes them, leave the same records. -/
def StandsFor (pre old new : List SegmentDescriptor) : Prop :=
  (∀ id, lastEvent (segmentEvents new) id = lastEvent (segmentEvents old) id) ∨
    (pre = [] ∧ ∀ id, current (segmentEvents new) id = current (segmentEvents old) id)

/-- **Segments that stand for others may replace them.** -/
theorem StandsFor.logical {pre old new post : List SegmentDescriptor} (h : StandsFor pre old new)
    {m m' : Manifest} (hm : m.segments = pre ++ old ++ post)
    (hm' : m'.segments = pre ++ new ++ post) : m'.logical = m.logical := by
  funext id
  rw [Manifest.logical_eq, Manifest.logical_eq, hm, hm']
  simp only [segmentEvents_append]
  rcases h with h | ⟨rfl, h⟩
  · exact current_replace h _ _ id
  · exact current_replace_oldest h _ id

variable (env : Env) (cfg : Config) (L₀ : Logical)

/-- The segment was written from units, at or before the generation. -/
def Described (generation : Nat) (d : SegmentDescriptor) : Prop :=
  ∃ g us, d = describe env cfg d.id g us ∧ UnitsOk cfg us ∧ 0 < g ∧ g ≤ generation

/-- The manifest of an index of this configuration. -/
structure ManifestOk (m : Manifest) : Prop where
  valid : manifestValidate m = .ok
  fingerprint : m.configFingerprint = env.configFingerprint cfg
  described : ∀ d ∈ m.segments, Described env cfg m.generation d

/-- The checks that `apply_operations` makes before it writes the WAL. -/
structure Accepted (m : Manifest) (ops : List IngestOperation) : Prop where
  nonempty : ops ≠ []
  limit : ops.length ≤ updateMaxOperations
  unique : validateUniqueIds ops = .ok
  generation : m.generation ≠ uint64Max
  count : segmentCountValidate m.segments.length 1 = .ok
  planned : ∃ units slices, operationUnits env cfg ops = .ok units ∧
    segmentPlan env cfg units 31 (sizePolicy env.testPayloadLimit) = .ok slices

/-- The manifest and its history; a WAL for the current generation has passed the checks that precede
it. -/
structure LedgerOk (l : Ledger) (m : Manifest) : Prop where
  manifest : l.manifest = some m
  ok : ManifestOk env cfg m
  listed : ∀ id ∈ m.ids, id ∈ l.names
  past : ∀ id ∈ l.names, id.generation ≤ m.generation
  logical : m.logical = l.committed.foldr (fun ops L => applyBatch env cfg L ops) L₀
  serials : ∀ r ∈ l.wals, r.serial < l.wals.length
  wal : ∀ w, l.wal = some w → w.base ≤ m.generation ∧
    (w.base = m.generation → Accepted env cfg m w.operations)

/-- The WAL and its history: only the newest batch may be pending, and then its WAL is on disk and is
for the current generation; a WAL on disk that is for the current generation is that of a pending
batch. -/
structure WalOk (l : Ledger) (m : Manifest) : Prop where
  earlier : ∀ r ∈ l.wals.tail, r.fate ≠ .pending
  newest : ∀ r rest, l.wals = r :: rest → r.fate = .pending →
    l.wal = some r.wal ∧ r.wal.base = m.generation
  onDisk : ∀ w, l.wal = some w → w.base = m.generation →
    ∃ n rest, l.wals = ⟨n, w, .pending⟩ :: rest
  published : ∀ r ∈ l.wals, r.fate = .published → r.wal.operations ∈ l.committed

/-- **The invariant**, with the current manifest. -/
structure InvAt (m : Manifest) (s : State) : Prop where
  ledger : LedgerOk env cfg L₀ s.ledger m
  files : ∀ d ∈ m.segments, ∀ c f, s.file d.id c = some f → d.file c = some f
  complete : s.Clean → ∀ d ∈ m.segments, ∀ c, s.file d.id c = d.file c
  bounded : ∃ n, ∀ id, s.disk.segments id ≠ none → id.suffix < n
  wal : s.Orderly → WalOk s.ledger m

/-- **The invariant of the index directory.** -/
def Inv (s : State) : Prop := ∃ m, InvAt env cfg L₀ m s

/-! ## Steps -/

/-- New segments, as they are when they are published. -/
structure NewSegments (kind : SegmentKind) (ds : List SegmentDescriptor) (s : State) : Prop where
  kinds : ∀ d ∈ ds, d.id.kind = kind
  fresh : ∀ d ∈ ds, d.id ∉ s.history.names
  files : ∀ d ∈ ds, ∀ c, s.file d.id c = d.file c

/-- The kinds of steps. -/
inductive Effect (pid : Pid) (s s' : State) : Prop
  /-- The directory stays as it is. -/
  | none (ledger : s'.ledger = s.ledger) (dirs : s'.disk.segments = s.disk.segments)
  /-- One segment directory changes; if the manifest lists it, files are lost. -/
  | dir (id : SegmentId) (ledger : s'.ledger = s.ledger)
      (others : ∀ id', id' ≠ id → s'.disk.segments id' = s.disk.segments id')
      (held : s.Held pid id.kind)
      (unlisted : s.Unlisted id ∨
        (s.Misled pid ∧ ∀ c f, s'.file id c = some f → s.file id c = some f))
  /-- A WAL is installed. -/
  | installWal (m : Manifest) (w : Wal) (eq : s' = (s.setWal (some w)).recordWal w)
      (held : s.locks .writer = some pid) (manifest : s.disk.manifest = some m)
      (base : w.base = m.generation) (accepted : Accepted env cfg m w.operations)
      (clear : s.Orderly → s.pendingWal = false)
  /-- The WAL is removed. -/
  | removeWal (eq : s' = s.setWal .none) (held : s.locks .writer = some pid)
      (clear : s.Orderly → s.pendingWal = false)
  /-- The WAL is withdrawn. -/
  | withdrawWal (eq : s' = (s.setWal .none).markWal .withdrawn) (held : s.locks .writer = some pid)
  /-- An update is published. -/
  | update (m m' : Manifest) (ops : List IngestOperation) (ds : List SegmentDescriptor)
      (eq : s' = (s.setManifest m').recordPublication m' (.update ops))
      (held : s.locks .writer = some pid) (manifest : s.disk.manifest = some m)
      (generation : m'.generation = m.generation + 1) (segments : m'.segments = m.segments ++ ds)
      (ok : ManifestOk env cfg m') (listed : ∀ id ∈ m.ids, id ∈ s.history.names)
      (new : NewSegments .seg ds s)
      (past : ∀ d ∈ ds, d.id.generation ≤ m'.generation)
      (logical : m'.logical = applyBatch env cfg m.logical ops)
      (wal : s.Orderly → ∃ n rest, s.history.wals = ⟨n, ⟨m.generation, ops⟩, .pending⟩ :: rest)
  /-- A compaction is published. -/
  | compaction (m m' : Manifest) (pre old new post : List SegmentDescriptor)
      (eq : s' = (s.setManifest m').recordPublication m' .compaction)
      (writer : s.locks .writer = some pid) (compaction : s.locks .compaction = some pid)
      (manifest : s.disk.manifest = some m)
      (generation : m'.generation = m.generation + 1) (segments : m.segments = pre ++ old ++ post)
      (segments' : m'.segments = pre ++ new ++ post) (stands : StandsFor pre old new)
      (ok : ManifestOk env cfg m') (new : NewSegments .compact new s)
      (past : ∀ d ∈ m'.segments, d.id.generation ≤ m'.generation)
      (clear : s.Orderly → s.pendingWal = false)

/-- What a process guarantees of each of its steps. -/
structure Guar (pid : Pid) (s s' : State) : Prop where
  locks : ∀ l q, q ≠ pid → (s'.locks l = some q ↔ s.locks l = some q)
  faults : s.history.faults <:+ s'.history.faults
  hazards : s.history.hazards <:+ s'.history.hazards
  effect : Effect env cfg pid s s'

/-- What a process may rely on while it does nothing. -/
structure Rely (pid : Pid) (s s' : State) : Prop where
  inv : Inv env cfg L₀ s → Inv env cfg L₀ s'
  locks : ∀ l, s'.locks l = some pid ↔ s.locks l = some pid
  faults : s.history.faults <:+ s'.history.faults
  hazards : s.history.hazards <:+ s'.history.hazards
  settled : ∀ n, s.Settled n → s'.Settled n
  logged : s.history.wals.length ≤ s'.history.wals.length
  writer : s.locks .writer = some pid → s'.ledger = s.ledger ∧
    ∀ id, id.kind = .seg → s'.disk.segments id = s.disk.segments id
  compaction : s.locks .compaction = some pid →
    (∀ id, id.kind = .compact → s'.disk.segments id = s.disk.segments id) ∧
    (∀ id ∈ s'.history.names, id.kind = .compact → id ∈ s.history.names) ∧
    (∀ id, id.kind = .compact → s.Unlisted id → s'.Unlisted id) ∧
    ∀ m, s.disk.manifest = some m → ∃ m' ext, s'.disk.manifest = some m' ∧
      m.generation ≤ m'.generation ∧ m'.segments = m.segments ++ ext ∧
      ∀ d ∈ ext, d.id.kind = .seg

variable {env cfg L₀} {pid q : Pid} {s s' : State} {m : Manifest}

/-! ## The history only grows -/

theorem State.Clean.of_suffix (h : s.history.faults <:+ s'.history.faults) (hc : s'.Clean) :
    s.Clean := fun f hf => hc f (h.subset hf)

theorem State.Orderly.of_suffix (hf : s.history.faults <:+ s'.history.faults)
    (hh : s.history.hazards <:+ s'.history.hazards) (ho : s'.Orderly) : s.Orderly :=
  ⟨List.suffix_nil.mp (ho.1 ▸ hf), List.suffix_nil.mp (ho.2 ▸ hh)⟩

theorem State.Misled.not_clean (h : s.Misled pid) : ¬s.Clean := by
  obtain ⟨o, ho, hmem⟩ := h
  intro hc
  have := hc _ hmem
  simp [ho] at this

/-! ## Consequences of the invariant -/

/-- A record that is pending keeps the WAL pending. -/
theorem WalOk.pendingWal (h : WalOk s.ledger m) (hm : s.disk.manifest = some m)
    {r : WalRecord} (hr : r ∈ s.history.wals) (hp : r.fate = .pending) : s.pendingWal = true := by
  cases hw : s.history.wals with
  | nil =>
    rw [hw] at hr
    cases hr
  | cons r' rest =>
    rw [hw] at hr
    rcases List.mem_cons.mp hr with rfl | hr
    · obtain ⟨h₁, h₂⟩ := h.newest r rest hw hp
      have h₁ : s.disk.wal = some r.wal := h₁
      simp [State.pendingWal, h₁, hm, h₂]
    · refine absurd hp (h.earlier r ?_)
      have : s.ledger.wals = r' :: rest := hw
      rw [this]
      exact hr

/-- Without a pending WAL nothing is pending. -/
theorem WalOk.not_pending (h : WalOk s.ledger m) (hm : s.disk.manifest = some m)
    (hp : s.pendingWal = false) {r : WalRecord} (hr : r ∈ s.history.wals) :
    r.fate ≠ .pending := fun hr' => by
  have := h.pendingWal hm hr hr'
  simp [hp] at this

theorem mem_markNewest {fate : Fate} {r : WalRecord} {rs : List WalRecord}
    (h : r ∈ markNewest fate rs) : r.fate = fate ∨ r ∈ rs.tail := by
  cases rs with
  | nil => cases h
  | cons r' rs =>
    rcases List.mem_cons.mp h with rfl | h
    · exact Or.inl rfl
    · exact Or.inr h

theorem tail_markNewest (fate : Fate) (rs : List WalRecord) :
    (markNewest fate rs).tail = rs.tail := by
  cases rs <;> rfl

theorem length_markNewest (fate : Fate) (rs : List WalRecord) :
    (markNewest fate rs).length = rs.length := by
  cases rs <;> rfl

theorem serials_markNewest {fate : Fate} {rs : List WalRecord}
    (h : ∀ r ∈ rs, r.serial < rs.length) :
    ∀ r ∈ markNewest fate rs, r.serial < (markNewest fate rs).length := by
  cases rs with
  | nil => exact h
  | cons r' rs =>
    rw [List.forall_mem_cons] at h
    exact List.forall_mem_cons.mpr h

/-! ## The invariant is kept -/

/-- The files are still those of the segments when only one directory has changed, and that either
is not listed or has lost files because a process was misled. -/
theorem InvAt.of_dir (h : InvAt env cfg L₀ m s) (hl : s'.ledger = s.ledger)
    (hf : s.history.faults <:+ s'.history.faults) (hh : s.history.hazards <:+ s'.history.hazards)
    {id : SegmentId} (others : ∀ id', id' ≠ id → s'.disk.segments id' = s.disk.segments id')
    (hid : s.Unlisted id ∨ (s.Misled pid ∧ ∀ c f, s'.file id c = some f → s.file id c = some f)) :
    InvAt env cfg L₀ m s' := by
  have hfile : ∀ id', id' ≠ id → ∀ c, s'.file id' c = s.file id' c := fun id' hne c => by
    rw [State.file, State.file, others id' hne]
  have hlisted : s.Unlisted id → ∀ d ∈ m.segments, d.id ≠ id := fun hun d hd he =>
    hun m h.ledger.manifest (he ▸ List.mem_map.mpr ⟨d, hd, rfl⟩)
  refine ⟨hl.symm ▸ h.ledger, ?_, ?_, ?_, ?_⟩
  · intro d hd c f hdf
    by_cases hdi : d.id = id
    · rcases hid with hun | ⟨-, hless⟩
      · exact absurd hdi (hlisted hun d hd)
      · refine h.files d hd c f ?_
        rw [hdi] at hdf ⊢
        exact hless c f hdf
    · rw [hfile d.id hdi c] at hdf
      exact h.files d hd c f hdf
  · intro hc d hd c
    rcases hid with hun | ⟨hmis, -⟩
    · rw [hfile d.id (hlisted hun d hd) c]
      exact h.complete (hc.of_suffix hf) d hd c
    · exact absurd (hc.of_suffix hf) hmis.not_clean
  · obtain ⟨n, hn⟩ := h.bounded
    refine ⟨max n (id.suffix + 1), fun id' hid' => ?_⟩
    by_cases he : id' = id
    · subst he
      omega
    · have := hn id' (others id' he ▸ hid')
      omega
  · intro ho
    exact hl.symm ▸ h.wal (ho.of_suffix hf hh)

/-- A directory without a change is a directory with a change of nothing. -/
theorem InvAt.of_same (h : InvAt env cfg L₀ m s) (hl : s'.ledger = s.ledger)
    (hf : s.history.faults <:+ s'.history.faults) (hh : s.history.hazards <:+ s'.history.hazards)
    (dirs : s'.disk.segments = s.disk.segments) : InvAt env cfg L₀ m s' := by
  have hfile : ∀ id c, s'.file id c = s.file id c := fun id c => by
    rw [State.file, State.file, dirs]
  refine ⟨hl.symm ▸ h.ledger, ?_, ?_, dirs ▸ h.bounded, ?_⟩
  · intro d hd c f hdf
    rw [hfile] at hdf
    exact h.files d hd c f hdf
  · intro hc d hd c
    rw [hfile]
    exact h.complete (hc.of_suffix hf) d hd c
  · intro ho
    exact hl.symm ▸ h.wal (ho.of_suffix hf hh)

/-- A WAL that comes or goes leaves the manifest and the segments alone. -/
theorem InvAt.of_wal (h : InvAt env cfg L₀ m s) {w : Option Wal} (wals : List WalRecord)
    (eq : s' = { s with
      disk := { s.disk with wal := w }, history := { s.history with wals := wals } })
    (hserials : ∀ r ∈ wals, r.serial < wals.length)
    (hbase : ∀ w', w = some w' → w'.base ≤ m.generation ∧
      (w'.base = m.generation → Accepted env cfg m w'.operations))
    (hw : s.Orderly → WalOk ⟨s.disk.manifest, w, wals, s.history.committed,
      s.history.names⟩ m) : InvAt env cfg L₀ m s' := by
  subst eq
  exact ⟨⟨h.ledger.manifest, h.ledger.ok, h.ledger.listed, h.ledger.past, h.ledger.logical, hserials,
    hbase⟩, h.files, h.complete, h.bounded, hw⟩

/-- A manifest that is published lists segments that were listed before, or new ones whose files are
there. -/
theorem InvAt.of_publication (h : InvAt env cfg L₀ m s) {m' : Manifest} {what : Publication}
    (eq : s' = (s.setManifest m').recordPublication m' what)
    (hfiles : ∀ d ∈ m'.segments, d ∈ m.segments ∨ ∀ c, s.file d.id c = d.file c)
    (hl : LedgerOk env cfg L₀ s'.ledger m') (hw : s.Orderly → WalOk s'.ledger m') :
    InvAt env cfg L₀ m' s' := by
  have hfile : ∀ id c, s'.file id c = s.file id c := by
    subst eq
    cases what <;> exact fun _ _ => rfl
  have hhist : s'.history.faults = s.history.faults ∧ s'.history.hazards = s.history.hazards := by
    subst eq
    cases what <;> exact ⟨rfl, rfl⟩
  have hdirs : s'.disk.segments = s.disk.segments := by
    subst eq
    cases what <;> rfl
  refine ⟨hl, ?_, ?_, hdirs ▸ h.bounded, ?_⟩
  · intro d hd c f hdf
    rw [hfile] at hdf
    rcases hfiles d hd with hd | hd
    · exact h.files d hd c f hdf
    · rw [← hd c]
      exact hdf
  · intro hc d hd c
    rw [hfile]
    rcases hfiles d hd with hd | hd
    · exact h.complete (hc.of_suffix (hhist.1 ▸ List.suffix_refl _)) d hd c
    · exact hd c
  · intro ho
    exact hw ⟨hhist.1 ▸ ho.1, hhist.2 ▸ ho.2⟩

/-- **Every step keeps the invariant.** -/
theorem Guar.inv (hg : Guar env cfg pid s s') (h : Inv env cfg L₀ s) : Inv env cfg L₀ s' := by
  obtain ⟨m, h⟩ := h
  have manifest_eq : ∀ {m₁}, s.disk.manifest = some m₁ → m₁ = m := fun h₁ =>
    Option.some.inj (h₁.symm.trans h.ledger.manifest)
  cases hg.effect with
  | none ledger dirs => exact ⟨m, h.of_same ledger hg.faults hg.hazards dirs⟩
  | dir id ledger others held unlisted =>
    exact ⟨m, h.of_dir ledger hg.faults hg.hazards others unlisted⟩
  | installWal m₁ w eq held manifest base accepted clear =>
    obtain rfl := manifest_eq manifest
    refine ⟨m₁, h.of_wal _ eq (List.forall_mem_cons.mpr ⟨Nat.lt_succ_self _, fun r hr =>
      Nat.lt_succ_of_lt (h.ledger.serials r hr)⟩) ?_ fun ho => ?_⟩
    · rintro w' ⟨rfl⟩
      exact ⟨le_of_eq base, fun _ => accepted⟩
    have hno := fun r hr => (h.wal ho).not_pending manifest (clear ho) (r := r) hr
    refine ⟨hno, ?_, ?_, ?_⟩
    · rintro r rest ⟨rfl, rfl⟩ -
      exact ⟨rfl, base⟩
    · rintro w' ⟨rfl⟩ -
      exact ⟨_, _, rfl⟩
    · intro r hr hp
      rcases List.mem_cons.mp hr with rfl | hr
      · cases hp
      · exact (h.wal ho).published r hr hp
  | removeWal eq held clear =>
    refine ⟨m, h.of_wal s.history.wals eq h.ledger.serials (by simp) fun ho => ?_⟩
    have hno := fun r hr => (h.wal ho).not_pending h.ledger.manifest (clear ho) (r := r) hr
    refine ⟨(h.wal ho).earlier, ?_, by rintro w ⟨⟩, (h.wal ho).published⟩
    intro r rest hr hp
    exact absurd hp (hno r (by rw [show s.history.wals = r :: rest from hr]; simp))
  | withdrawWal eq held =>
    refine ⟨m, h.of_wal (markNewest .withdrawn s.history.wals) eq
      (serials_markNewest h.ledger.serials) (by simp) fun ho => ?_⟩
    refine ⟨?_, ?_, by rintro w ⟨⟩, ?_⟩
    · intro r hr
      rw [tail_markNewest] at hr
      exact (h.wal ho).earlier r hr
    · intro r rest hr hp
      rcases mem_markNewest (show r ∈ markNewest .withdrawn s.history.wals by
        rw [show markNewest .withdrawn s.history.wals = r :: rest from hr]; simp) with hf | hf
      · rw [hf] at hp
        cases hp
      · exact absurd hp ((h.wal ho).earlier r hf)
    · intro r hr hp
      rcases mem_markNewest hr with hf | hf
      · rw [hf] at hp
        cases hp
      · exact (h.wal ho).published r (List.mem_of_mem_tail hf) hp
  | update m₁ m' ops ds eq held manifest generation segments ok listed new past
      logical wal =>
    obtain rfl := manifest_eq manifest
    refine ⟨m', h.of_publication eq ?_ ?_ ?_⟩
    · intro d hd
      rw [segments, List.mem_append] at hd
      exact hd.imp_right fun hd => new.files d hd
    · subst eq
      refine ⟨rfl, ok, fun id hid => List.mem_append_left _ hid, ?_, ?_, serials_markNewest h.ledger.serials, ?_⟩
      · intro id hid
        rcases List.mem_append.mp hid with hid | hid
        · obtain ⟨d, hd, rfl⟩ := List.mem_map.mp hid
          rw [segments, List.mem_append] at hd
          rcases hd with hd | hd
          · have := h.ledger.past d.id (h.ledger.listed d.id (List.mem_map.mpr ⟨d, hd, rfl⟩))
            omega
          · exact past d hd
        · have := h.ledger.past id hid
          omega
      · rw [logical, h.ledger.logical]
        rfl
      · intro w hw
        have := (h.ledger.wal w hw).1
        exact ⟨by omega, fun he => by omega⟩
    · intro ho
      obtain ⟨n, rest, hwals⟩ := wal ho
      have hwo := h.wal ho
      have htail : s.ledger.wals.tail = rest := by
        rw [show s.ledger.wals = s.history.wals from rfl, hwals]
        rfl
      subst eq
      refine ⟨?_, ?_, ?_, ?_⟩
      · intro r hr
        have hr : r ∈ (markNewest .published s.history.wals).tail := hr
        rw [tail_markNewest] at hr
        exact hwo.earlier r hr
      · intro r rest' hr hp
        have hr : markNewest .published s.history.wals = r :: rest' := hr
        rw [hwals] at hr
        cases hr
        cases hp
      · intro w hw hbase
        have := (h.ledger.wal w hw).1
        omega
      · intro r hr hp
        have hr : r ∈ markNewest .published s.history.wals := hr
        rw [hwals] at hr
        rcases List.mem_cons.mp hr with rfl | hr
        · exact List.mem_cons_self ..
        · refine List.mem_cons_of_mem _ (hwo.published r ?_ hp)
          rw [show s.ledger.wals = s.history.wals from rfl, hwals]
          exact List.mem_cons_of_mem _ hr
  | compaction m₁ m' pre old new post eq writer compaction manifest generation segments segments'
      stands ok hnew past clear =>
    obtain rfl := manifest_eq manifest
    refine ⟨m', h.of_publication eq ?_ ?_ ?_⟩
    · intro d hd
      rw [segments', List.append_assoc, List.mem_append, List.mem_append] at hd
      rw [segments, List.append_assoc, List.mem_append, List.mem_append]
      rcases hd with hd | hd | hd
      · exact Or.inl (Or.inl hd)
      · exact Or.inr (hnew.files d hd)
      · exact Or.inl (Or.inr (Or.inr hd))
    · subst eq
      refine ⟨rfl, ok, fun id hid => List.mem_append_left _ hid, ?_, ?_, h.ledger.serials, ?_⟩
      · intro id hid
        rcases List.mem_append.mp hid with hid | hid
        · obtain ⟨d, hd, rfl⟩ := List.mem_map.mp hid
          exact past d hd
        · have := h.ledger.past id hid
          omega
      · rw [stands.logical segments segments', h.ledger.logical]
        rfl
      · intro w hw
        have := (h.ledger.wal w hw).1
        exact ⟨by omega, fun he => by omega⟩
    · intro ho
      have hwo := h.wal ho
      have hno := fun r hr => hwo.not_pending manifest (clear ho) (r := r) hr
      subst eq
      refine ⟨hwo.earlier, ?_, ?_, hwo.published⟩
      · intro r rest hr hp
        exact absurd hp (hno r (by rw [show s.history.wals = r :: rest from hr]; simp))
      · intro w hw hbase
        have := (h.ledger.wal w hw).1
        omega

/-! ## What the others rely on -/

theorem Rely.refl (pid : Pid) (s : State) : Rely env cfg L₀ pid s s where
  inv h := h
  locks _ := Iff.rfl
  faults := List.suffix_refl _
  hazards := List.suffix_refl _
  settled _ h := h
  logged := le_rfl
  writer _ := ⟨rfl, fun _ _ => rfl⟩
  compaction _ := ⟨fun _ _ => rfl, fun _ h _ => h, fun _ _ h => h,
    fun m h => ⟨m, [], h, le_rfl, (List.append_nil _).symm, by simp⟩⟩

theorem Rely.trans {a b c : State} (hab : Rely env cfg L₀ pid a b)
    (hbc : Rely env cfg L₀ pid b c) : Rely env cfg L₀ pid a c where
  inv h := hbc.inv (hab.inv h)
  locks l := (hbc.locks l).trans (hab.locks l)
  faults := hab.faults.trans hbc.faults
  hazards := hab.hazards.trans hbc.hazards
  settled n h := hbc.settled n (hab.settled n h)
  logged := le_trans hab.logged hbc.logged
  writer h := by
    obtain ⟨h₁, h₂⟩ := hab.writer h
    obtain ⟨h₃, h₄⟩ := hbc.writer ((hab.locks _).mpr h)
    exact ⟨h₃.trans h₁, fun id hid => (h₄ id hid).trans (h₂ id hid)⟩
  compaction h := by
    obtain ⟨h₁, h₂, hu₁, h₃⟩ := hab.compaction h
    obtain ⟨h₄, h₅, hu₂, h₆⟩ := hbc.compaction ((hab.locks _).mpr h)
    refine ⟨fun id hid => (h₄ id hid).trans (h₁ id hid),
      fun id hid hk => h₂ id (h₅ id hid hk) hk, fun id hk hun => hu₂ id hk (hu₁ id hk hun),
      fun m hm => ?_⟩
    obtain ⟨m₁, ext₁, hm₁, hg₁, hs₁, hk₁⟩ := h₃ m hm
    obtain ⟨m₂, ext₂, hm₂, hg₂, hs₂, hk₂⟩ := h₆ m₁ hm₁
    refine ⟨m₂, ext₁ ++ ext₂, hm₂, le_trans hg₁ hg₂, by rw [hs₂, hs₁, List.append_assoc],
      fun d hd => ?_⟩
    exact (List.mem_append.mp hd).elim (hk₁ d) (hk₂ d)

/-- No WAL is forgotten. -/
theorem Guar.logged (hg : Guar env cfg pid s s') :
    s.history.wals.length ≤ s'.history.wals.length := by
  cases hg.effect with
  | none ledger dirs =>
    exact le_of_eq (congrArg List.length (congrArg Ledger.wals ledger)).symm
  | dir id ledger others held unlisted =>
    exact le_of_eq (congrArg List.length (congrArg Ledger.wals ledger)).symm
  | installWal m w eq =>
    subst eq
    exact Nat.le_succ _
  | removeWal eq =>
    subst eq
    exact le_rfl
  | withdrawWal eq =>
    subst eq
    exact le_of_eq (length_markNewest _ _).symm
  | update m m' ops ds eq =>
    subst eq
    exact le_of_eq (length_markNewest _ _).symm
  | compaction m m' pre old new post eq =>
    subst eq
    exact le_rfl

/-- The batches that are settled stay so. -/
theorem Guar.settled (hg : Guar env cfg pid s s') {n : Nat} (h : s.Settled n) : s'.Settled n := by
  have marked : ∀ {fate : Fate} {rs : List WalRecord}, fate ≠ .pending →
      s.history.wals = rs → n ≤ (markNewest fate rs).length ∧
        ∀ r ∈ markNewest fate rs, r.serial < n → r.fate ≠ .pending := by
    rintro fate rs hfate rfl
    refine ⟨?_, fun r hr hn => ?_⟩
    · exact (length_markNewest fate s.history.wals).symm ▸ h.1
    · rcases mem_markNewest hr with hf | hf
      · rw [hf]
        exact hfate
      · exact h.2 r (List.mem_of_mem_tail hf) hn
  cases hg.effect with
  | none ledger dirs =>
    have : s'.history.wals = s.history.wals := congrArg Ledger.wals ledger
    rw [State.Settled, this]
    exact h
  | dir id ledger others held unlisted =>
    have : s'.history.wals = s.history.wals := congrArg Ledger.wals ledger
    rw [State.Settled, this]
    exact h
  | installWal m w eq held manifest base accepted clear =>
    subst eq
    refine ⟨Nat.le_succ_of_le h.1, fun r hr hn => ?_⟩
    rcases List.mem_cons.mp hr with rfl | hr
    · have hn : s.history.wals.length < n := hn
      have := h.1
      omega
    · exact h.2 r hr hn
  | removeWal eq held clear =>
    subst eq
    exact h
  | withdrawWal eq held =>
    subst eq
    exact marked (by simp) rfl
  | update m m' ops ds eq held manifest generation segments ok listed new past
      logical wal =>
    subst eq
    exact marked (by simp) rfl
  | compaction m m' pre old new post eq writer compaction manifest generation segments segments'
      stands ok hnew past clear =>
    subst eq
    exact h

/-- Two processes do not hold one lock. -/
theorem eq_of_held {l : Lock} (hp : s.locks l = some pid) (hq : s.locks l = some q) : pid = q :=
  Option.some.inj (hp.symm.trans hq)

/-- **What one process guarantees, the others may rely on.** -/
theorem Guar.rely (hne : q ≠ pid) (hg : Guar env cfg q s s') : Rely env cfg L₀ pid s s' where
  inv := hg.inv
  locks l := hg.locks l pid (Ne.symm hne)
  faults := hg.faults
  hazards := hg.hazards
  settled _ := hg.settled
  logged := hg.logged
  writer hp := by
    have hno : s.locks .writer ≠ some q := fun hq => hne (eq_of_held hp hq).symm
    cases hg.effect with
    | none ledger dirs => exact ⟨ledger, fun id _ => by rw [dirs]⟩
    | dir id ledger others held unlisted =>
      refine ⟨ledger, fun id' hid' => others id' ?_⟩
      rintro rfl
      rw [hid'] at held
      exact hno held
    | installWal m w eq held => exact absurd held hno
    | removeWal eq held => exact absurd held hno
    | withdrawWal eq held => exact absurd held hno
    | update m m' ops ds eq held => exact absurd held hno
    | compaction m m' pre old new post eq writer => exact absurd writer hno
  compaction hp := by
    have hno : s.locks .compaction ≠ some q := fun hq => hne (eq_of_held hp hq).symm
    have same : s'.history.names = s.history.names → s'.disk.manifest = s.disk.manifest →
        (∀ id ∈ s'.history.names, id.kind = .compact → id ∈ s.history.names) ∧
        (∀ id, id.kind = .compact → s.Unlisted id → s'.Unlisted id) ∧
        ∀ m, s.disk.manifest = some m → ∃ m' ext, s'.disk.manifest = some m' ∧
          m.generation ≤ m'.generation ∧ m'.segments = m.segments ++ ext ∧
          ∀ d ∈ ext, d.id.kind = .seg := fun hn hm => by
      simp only [State.Unlisted]
      rw [hn, hm]
      exact ⟨fun _ hid _ => hid, fun _ _ h => h,
        fun m hm => ⟨m, [], hm, le_rfl, (List.append_nil _).symm, by simp⟩⟩
    cases hg.effect with
    | none ledger dirs =>
      exact ⟨fun id _ => by rw [dirs],
        same (congrArg Ledger.names ledger) (congrArg Ledger.manifest ledger)⟩
    | dir id ledger others held unlisted =>
      refine ⟨fun id' hid' => others id' ?_,
        same (congrArg Ledger.names ledger) (congrArg Ledger.manifest ledger)⟩
      rintro rfl
      rw [hid'] at held
      exact hno held
    | installWal m w eq =>
      subst eq
      exact ⟨fun _ _ => rfl, same rfl rfl⟩
    | removeWal eq =>
      subst eq
      exact ⟨fun _ _ => rfl, same rfl rfl⟩
    | withdrawWal eq =>
      subst eq
      exact ⟨fun _ _ => rfl, same rfl rfl⟩
    | update m m' ops ds eq held manifest generation segments ok listed new past
      logical wal =>
      subst eq
      have hids : ∀ id ∈ m'.ids, id.kind = .compact → id ∈ m.ids := by
        intro id hid hk
        obtain ⟨d, hd, rfl⟩ := List.mem_map.mp hid
        rw [segments, List.mem_append] at hd
        rcases hd with hd | hd
        · exact List.mem_map.mpr ⟨d, hd, rfl⟩
        · rw [new.kinds d hd] at hk
          cases hk
      refine ⟨fun _ _ => rfl, fun id hid hk => ?_, fun id hk hun m₁ hm₁ hid => ?_,
        fun m₁ hm₁ => ?_⟩
      · rcases List.mem_append.mp hid with hid | hid
        · exact listed id (hids id hid hk)
        · exact hid
      · cases hm₁
        exact hun m manifest (hids id hid hk)
      · obtain rfl : m = m₁ := Option.some.inj (manifest.symm.trans hm₁)
        exact ⟨m', ds, rfl, by omega, segments, new.kinds⟩
    | compaction m m' pre old new post eq writer compaction => exact absurd compaction hno

end Yappod

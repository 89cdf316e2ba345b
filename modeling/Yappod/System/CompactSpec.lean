import Yappod.Indexing.UpdateSteps
import Yappod.System.UpdateSpec

/-!
# The specification of a compaction

`compact_internal` among other processes.  Between its two sections under `writer.lock` it only holds
`compaction.lock`, while updates go on; what it knows then of the manifest it has selected its range
from is that the current one begins with the same segments (`Grown`).

* `loadSource_spec`: what is read of a segment is what it was written from.
* `publishCompaction_spec`: the new segments stand for the range (`StandsFor`), so that the manifest
  that lists them in its place shows the same records.
* `compactInternal_spec` puts the parts together.
-/

set_option autoImplicit false

namespace Yappod

variable {env : Env} {cfg : Config} {L₀ : Logical} {strict : Bool} {pid : Pid} {m : Manifest}

/-! ## Reading the range -/

section Reading

variable {A : State → Prop} [Stable (Rely env cfg L₀) pid A] {d : SegmentDescriptor}

/-- What a reader returns: what is expected, or an error that says so. -/
def Read {α : Type} (V : α → Prop) : Except Status α → Prop
  | .ok a => V a
  | .error e => e ≠ .ok

/-- What is read of a component is made of the file that the descriptor names. -/
theorem readPayload_spec {α : Type} {c : Component} {f : Payload → Except Status α} {V : α → Prop}
    (hfiles : ∀ s, A s → ∀ c f, s.file d.id c = some f → d.file c = some f)
    (hf : ∀ file, d.file c = some file → Read V (f file.payload)) :
    Spec env cfg L₀ strict pid A (readPayload d.id c f) fun r s => A s ∧ Read V r := by
  refine Spec.bind (Spec.readComponent (V := fun r => ∀ file, r = some file → d.file c = some file)
    fun s hs file => hfiles s hs c file) fun r => ?_
  cases r with
  | none => exact Spec.ret fun s h => ⟨h.1, by simp [Read]⟩
  | some file =>
    refine Spec.ret ?_
    rintro s ⟨h, hr | ⟨hr, -⟩⟩
    · exact ⟨h, hf file (hr file rfl)⟩
    · cases hr

/-- The contents that a reader of a segment finds. -/
def sourceContents (x : SegmentContents) : CompactionSource :=
  ⟨x.documents, x.passages, x.tombstones, x.entries⟩

theorem read_documentsOf {file : File} (hfile : d.file .documents = some file) :
    Read (fun x => d.contents.documents = x.1 ∧ d.contents.passages = x.2)
      (documentsOf d file.payload) := by
  obtain ⟨g, payload⟩ := file
  unfold documentsOf
  split
  · split
    · simp [Read]
    · simp_all [Read, SegmentDescriptor.contents, contentsOf]
  · simp [Read]

theorem read_tombstonesOf {file : File} (hfile : d.file .tombstones = some file) :
    Read (fun ids => d.contents.tombstones = ids) (tombstonesOf d file.payload) := by
  obtain ⟨g, payload⟩ := file
  unfold tombstonesOf
  split
  · split
    · simp [Read]
    · split
      · simp [Read]
      · simp_all [Read, SegmentDescriptor.contents, contentsOf]
  · simp [Read]

theorem read_entriesOf {file : File} (hfile : d.file .vectors = some file) :
    Read (fun es => d.contents.entries = es) (entriesOf cfg file.payload) := by
  obtain ⟨g, payload⟩ := file
  unfold entriesOf
  split
  · simp_all [Read, SegmentDescriptor.contents, contentsOf]
  · simp [Read]
  · rename_i hne _
    simpa [Read] using hne

/-- A segment without passages has no entries. -/
theorem Described.entries {generation : Nat} (h : Described env cfg generation d)
    (hno : ¬(cfg.hasVectors = true ∧ 0 < d.passageCount)) : d.contents.entries = [] := by
  obtain ⟨g, us, hd, -⟩ := h
  rw [hd] at hno ⊢
  rw [describe_contents]
  dsimp only [describe] at hno ⊢
  split
  · rename_i hv
    have hnil : unitPassages us = [] := by
      rw [not_and, not_lt, Nat.le_zero, List.length_eq_zero_iff] at hno
      exact hno hv
    simp [unitEntries, hnil]
  · rfl

/-- **The specification of `load_source`**: what it reads of a segment is its contents. -/
theorem loadSource_spec {generation manifestGeneration : Nat}
    (hd : Described env cfg generation d)
    (hfiles : ∀ s, A s → ∀ c f, s.file d.id c = some f → d.file c = some f) :
    Spec env cfg L₀ strict pid A (loadSource env cfg manifestGeneration d) fun r s =>
      A s ∧ Read (fun src => src = sourceContents d.contents) r := by
  have hverify : ∀ cs, Spec env cfg L₀ strict pid A
      (verifySegmentComponents env manifestGeneration d.id cs) fun _ s => A s := by
    intro cs
    induction cs with
    | nil => exact Spec.ret fun s h => h
    | cons c cs ih =>
      refine Spec.bind (Spec.skip (fun _ _ => rfl) fun _ => trivial) fun r => ?_
      cases r with
      | none => exact Spec.ret fun s h => h
      | some f =>
        dsimp only
        split
        · exact Spec.ret fun s h => h
        · exact ih
  have htombstones : Spec env cfg L₀ strict pid A (loadTombstones d) fun r s =>
      A s ∧ Read (fun ids => d.contents.tombstones = ids) r := by
    unfold loadTombstones
    split
    · exact readPayload_spec hfiles fun file => read_tombstonesOf
    · rename_i hnone
      rw [Option.isSome_iff_ne_none, not_not] at hnone
      split
      · exact Spec.ret fun s h => ⟨h, by simp [Read]⟩
      · refine Spec.ret fun s h => ⟨h, ?_⟩
        simp [Read, SegmentDescriptor.contents, contentsOf, SegmentDescriptor.file, hnone]
  have hentries : Spec env cfg L₀ strict pid A (loadEntries cfg d) fun r s =>
      A s ∧ Read (fun es => d.contents.entries = es) r := by
    unfold loadEntries
    split
    · split
      · exact Spec.ret fun s h => ⟨h, by simp [Read]⟩
      · exact readPayload_spec hfiles fun file => read_entriesOf
    · rename_i hno
      exact Spec.ret fun s h => ⟨h, hd.entries hno⟩
  rw [loadSource]
  refine Spec.bind (hverify d.components) fun status => ?_
  split
  · rename_i hne
    exact Spec.ret fun s h => ⟨h, hne⟩
  · split
    · exact Spec.ret fun s h => ⟨h, by simp [Read]⟩
    · refine Spec.bind (readPayload_spec hfiles fun file => read_documentsOf) fun docs => ?_
      cases docs with
      | error e => exact Spec.ret fun s h => h
      | ok x =>
        intro s hs
        obtain ⟨hds, hps⟩ := hs.2
        refine (Spec.bind htombstones fun r => ?_) s hs.1
        cases r with
        | error e => exact Spec.ret fun s h => h
        | ok ts =>
          intro s hs
          have hts := hs.2
          refine (Spec.bind hentries fun r => ?_) s hs.1
          cases r with
          | error e => exact Spec.ret fun s h => h
          | ok es =>
            refine Spec.ret fun s hs => ⟨hs.1, ?_⟩
            rw [Read, sourceContents, hds, hps, hts, hs.2]

/-- `load_source` on a range. -/
theorem loadSources_spec {generation manifestGeneration : Nat} {ds : List SegmentDescriptor}
    (hds : ∀ d ∈ ds, Described env cfg generation d)
    (hfiles : ∀ s, A s → ∀ d ∈ ds, ∀ c f, s.file d.id c = some f → d.file c = some f) :
    Spec env cfg L₀ strict pid A (loadSources env cfg manifestGeneration ds) fun r s =>
      A s ∧ Read (fun srcs => srcs = ds.map fun d => sourceContents d.contents) r := by
  induction ds with
  | nil => exact Spec.ret fun s h => ⟨h, rfl⟩
  | cons d ds ih =>
    rw [loadSources]
    refine Spec.bind (loadSource_spec (hds d (List.mem_cons_self ..))
      fun s hs => hfiles s hs d (List.mem_cons_self ..)) fun r => ?_
    cases r with
    | error e => exact Spec.ret fun s h => h
    | ok src =>
      intro s hs
      obtain rfl := hs.2
      refine (Spec.bind (ih (fun d hd => hds d (List.mem_cons_of_mem _ hd))
        fun s hs d hd => hfiles s hs d (List.mem_cons_of_mem _ hd)) fun r => ?_) s hs.1
      cases r with
      | error e => exact Spec.ret fun s h => h
      | ok srcs =>
        refine Spec.ret fun s hs => ⟨hs.1, ?_⟩
        rw [Read, hs.2, List.map_cons]

end Reading

/-! ## What is known without `writer.lock` -/

/-- The process holds `compaction.lock`, and the current manifest begins with the segments of `m`. -/
structure Grown (pid : Pid) (m : Manifest) (s : State) : Prop where
  held : s.locks .compaction = some pid
  grown : ∃ current ext, s.disk.manifest = some current ∧ m.generation ≤ current.generation ∧
    current.segments = m.segments ++ ext

instance : Stable (Rely env cfg L₀) pid (Grown pid m) := by
  refine ⟨fun {s s'} h hr => ⟨(hr.locks _).mpr h.held, ?_⟩⟩
  obtain ⟨current, ext, hc, hg, hs⟩ := h.grown
  obtain ⟨current', ext', hc', hg', hs', -⟩ := (hr.compaction h.held).2.2.2 current hc
  exact ⟨current', ext ++ ext', hc', le_trans hg hg', by rw [hs', hs, List.append_assoc]⟩

instance : Framed (Grown pid m) := by
  refine ⟨fun {s s'} h h₁ h₂ _ _ => ⟨(congrFun h₂ _).trans h.held, ?_⟩⟩
  have hm : s'.disk.manifest = s.disk.manifest := congrArg Ledger.manifest h₁
  rw [hm]
  exact h.grown

instance : Unlatched (Grown pid m) := ⟨fun _ h => ⟨h.held, h.grown⟩⟩

/-- The state after the process has taken or released `writer.lock`. -/
structure Aside (s s' : State) : Prop where
  ledger : s'.ledger = s.ledger
  dirs : s'.disk.segments = s.disk.segments
  compaction : s'.locks .compaction = s.locks .compaction
  manifest : s'.locks .manifest = s.locks .manifest
  faults : s'.history.faults = s.history.faults
  hazards : s.history.hazards <:+ s'.history.hazards

section Aside

variable {s s' : State}

theorem Aside.lock (s : State) (pid : Pid) (site : LockSite) :
    Aside s ((s.noteHazard pid site).setLock .writer (some pid)) := by
  unfold State.noteHazard
  split
  · exact ⟨rfl, rfl, rfl, rfl, rfl, List.suffix_cons _ _⟩
  · exact ⟨rfl, rfl, rfl, rfl, rfl, List.suffix_refl _⟩

theorem Aside.unlock (s : State) (pid : Pid) :
    Aside s (if s.locks .writer = some pid then s.setLock .writer none else s) := by
  split <;> exact ⟨rfl, rfl, rfl, rfl, rfl, List.suffix_refl _⟩

theorem Aside.inv (h : Aside s s') (hi : Inv env cfg L₀ s) : Inv env cfg L₀ s' := by
  obtain ⟨m, hm⟩ := hi
  exact ⟨m, hm.of_same h.ledger (h.faults ▸ List.suffix_refl _) h.hazards h.dirs⟩

theorem Aside.grown (h : Aside s s') (hg : Grown pid m s) : Grown pid m s' := by
  refine ⟨h.compaction.trans hg.held, ?_⟩
  have hm : s'.disk.manifest = s.disk.manifest := congrArg Ledger.manifest h.ledger
  rw [hm]
  exact hg.grown

theorem Aside.upcoming {generation : Nat} (h : Aside s s')
    (hu : Upcoming pid .compact generation s) : Upcoming pid .compact generation s' := by
  have hn : s'.history.names = s.history.names := congrArg Ledger.names h.ledger
  exact ⟨h.compaction.trans hu.held, by rw [hn]; exact hu.future⟩

theorem Aside.building {generation : Nat} {dirs : List (SegmentId × SegmentDir)} (h : Aside s s')
    (hb : Building env cfg L₀ pid .compact generation dirs s) :
    Building env cfg L₀ pid .compact generation dirs s' :=
  ⟨h.inv hb.inv, (h.upcoming hb.upcoming).held, (h.upcoming hb.upcoming).future, hb.nodup, hb.names,
    by rw [h.dirs]; exact hb.content⟩

end Aside

/-! ## Building the new segments -/

/-- The segments of a range. -/
def Manifest.range (m : Manifest) (first count : Nat) : List SegmentDescriptor :=
  (m.segments.drop first).take count

theorem Manifest.mem_of_mem_range {first count : Nat} {d : SegmentDescriptor}
    (h : d ∈ m.range first count) : d ∈ m.segments :=
  List.mem_of_mem_drop (List.mem_of_mem_take h)

/-- The units that the segments of a range were written from. -/
theorem described_units {generation : Nat} {ds : List SegmentDescriptor}
    (hds : ∀ d ∈ ds, Described env cfg generation d) :
    ∃ uss : List (List SegmentUnit), (∀ us ∈ uss, UnitsOk cfg us) ∧
      (ds.map fun d => sourceContents d.contents) = uss.map (sourceOf cfg) ∧
      segmentEvents ds = uss.flatMap (unitEvents env cfg) := by
  induction ds with
  | nil => exact ⟨[], by simp, rfl, rfl⟩
  | cons d ds ih =>
    rw [List.forall_mem_cons] at hds
    obtain ⟨⟨g, us, hd, hok, -⟩, hds⟩ := hds
    obtain ⟨uss, hoks, hsrc, hev⟩ := ih hds
    refine ⟨us :: uss, List.forall_mem_cons.mpr ⟨hok, hoks⟩, ?_, ?_⟩
    · rw [List.map_cons, List.map_cons, hsrc, hd, describe_contents]
      rfl
    · rw [segmentEvents, List.flatMap_cons, List.flatMap_cons, ← hev, hd, describe_events hok]
      rfl

/-- The units stand for a range, however they are cut into slices. -/
structure Collected (env : Env) (cfg : Config) (drop : Bool) (ds : List SegmentDescriptor)
    (units : List SegmentUnit) : Prop where
  nodup : (units.map SegmentUnit.id).Nodup
  ok : ∀ u ∈ units, u.Ok cfg
  events : ∀ parts : List (List SegmentUnit), parts.flatten = units →
    (∀ id, lastEvent (parts.flatMap (unitEvents env cfg)) id = lastEvent (segmentEvents ds) id) ∨
    (drop = true ∧ ∀ id, current (parts.flatMap (unitEvents env cfg)) id =
      current (segmentEvents ds) id)

/-- What is collected of the contents of a range stands for it. -/
theorem read_collectUnits {generation : Nat} {ds : List SegmentDescriptor}
    (hds : ∀ d ∈ ds, Described env cfg generation d) (drop : Bool) :
    Read (Collected env cfg drop ds)
      (collectUnits cfg.hasVectors drop (ds.map fun d => sourceContents d.contents)) := by
  obtain ⟨uss, hok, hsrc, hev⟩ := described_units hds
  rw [hsrc]
  obtain ⟨units, hunits, hnd, hoks, -⟩ := @collectUnits_spec env cfg drop uss hok
  rw [hunits]
  refine ⟨hnd, hoks, fun parts hparts => ?_⟩
  rw [hev]
  exact lastEvent_slices hok (hparts.symm ▸ hunits)

/-- The new segments may replace the range. -/
structure Replaces (env : Env) (cfg : Config) (m : Manifest) (first count : Nat)
    (ds : List SegmentDescriptor) : Prop where
  described : ∀ d ∈ ds, Described env cfg (m.generation + 1) d
  stands : StandsFor (m.segments.take first) (m.range first count) ds

/-- Segments written from the units of a range may replace it. -/
theorem Collected.replaces {first count : Nat} {units : List SegmentUnit} {slices : List Slice}
    {ds : List SegmentDescriptor}
    (h : Collected env cfg (first = 0 ∧ count = m.segments.length) (m.range first count) units)
    (hc : Covers slices 0 units.length)
    (hseg : SegmentsOf env cfg (m.generation + 1) units slices ds) :
    Replaces env cfg m first count ds := by
  have hslices := unitsOk_slice hc h.ok h.nodup
  refine ⟨hseg.described (Nat.succ_pos _) hslices, ?_⟩
  rw [StandsFor, hseg.events hslices]
  refine (h.events _ (flatten_units hc)).imp_right fun ⟨hdrop, hcur⟩ => ⟨?_, hcur⟩
  rw [decide_eq_true_eq] at hdrop
  rw [hdrop.1, List.take_zero]

/-- What a process knows while it builds: its range, and that it holds no other lock. -/
def Collecting (pid : Pid) (m : Manifest) (s : State) : Prop :=
  Grown pid m s ∧ s.Free pid .writer ∧ s.Free pid .manifest

instance : Stable (Rely env cfg L₀) pid (Collecting pid m) := by
  unfold Collecting
  infer_instance

instance : Framed (Collecting pid m) := by
  unfold Collecting
  infer_instance

/-- What a compaction has built. -/
def Built (env : Env) (cfg : Config) (L₀ : Logical) (pid : Pid) (m : Manifest) (first count : Nat)
    (w : Written) (s : State) : Prop :=
  (w.status = .ok ∧ Replaces env cfg m first count w.descriptors ∧
    w.dirs = w.descriptors.map (·.id) ∧
    Building env cfg L₀ pid .compact (m.generation + 1) (segmentDirs w.descriptors) s) ∨
  (w.status ≠ .ok ∧ BuildingDirs env cfg L₀ pid .compact (m.generation + 1) w.dirs s)

instance {first count : Nat} {w : Written} :
    Stable (Rely env cfg L₀) pid (Built env cfg L₀ pid m first count w) := by
  unfold Built
  infer_instance

/-- The files of the segments of `m` are those it lists, as far as they are there. -/
theorem Grown.files {s : State} (h : Grown pid m s) (hi : Inv env cfg L₀ s)
    {d : SegmentDescriptor} (hd : d ∈ m.segments) {c : Component} {f : File}
    (hf : s.file d.id c = some f) : d.file c = some f := by
  obtain ⟨current, hm⟩ := hi
  obtain ⟨current', ext, hc, -, hs⟩ := h.grown
  obtain rfl : current = current' := Option.some.inj (hm.ledger.manifest.symm.trans hc)
  exact hm.files d (hs ▸ List.mem_append_left _ hd) c f hf

theorem buildCompaction_failed {first count : Nat} {e : Status} (he : e ≠ .ok) {s : State}
    (h : Building env cfg L₀ pid .compact (m.generation + 1) [] s) :
    Built env cfg L₀ pid m first count ⟨e, none, [], []⟩ s :=
  Or.inr ⟨he, [], h, rfl⟩

/-- **The specification of the part without `writer.lock`**: what was written may replace the
range. -/
theorem buildCompaction_spec (hm : ManifestOk env cfg m) (first count : Nat) :
    Spec env cfg L₀ strict pid (fun s => Collecting pid m s ∧
        Building env cfg L₀ pid .compact (m.generation + 1) [] s)
      (buildCompaction env cfg m first count) fun w s =>
        Collecting pid m s ∧ Built env cfg L₀ pid m first count w s := by
  have hcollect : Spec env cfg L₀ strict pid (fun s => Collecting pid m s ∧
        Building env cfg L₀ pid .compact (m.generation + 1) [] s)
      (collectRange env cfg m first count) fun r s => (Collecting pid m s ∧
        Building env cfg L₀ pid .compact (m.generation + 1) [] s) ∧
        Read (Collected env cfg (first = 0 ∧ count = m.segments.length) (m.range first count)) r := by
    have hdesc : ∀ d ∈ m.range first count, Described env cfg m.generation d := fun d hd =>
      hm.described d (Manifest.mem_of_mem_range hd)
    refine Spec.bind (loadSources_spec hdesc fun s hs d hd c f hf =>
      hs.1.1.files hs.2.inv (Manifest.mem_of_mem_range hd) hf) fun r => ?_
    cases r with
    | error e => exact Spec.ret fun s h => h
    | ok srcs =>
      refine Spec.ret fun s h => ⟨h.1, ?_⟩
      rw [h.2]
      exact read_collectUnits hdesc _
  refine Spec.bind hcollect fun r => ?_
  cases r with
  | error e =>
    exact Spec.ret fun s h => ⟨h.1.1, buildCompaction_failed h.2 h.1.2⟩
  | ok units =>
    dsimp only
    cases hplan : segmentPlan env cfg units 35 (sizePolicy env.testPayloadLimit) with
    | error e =>
      exact Spec.ret fun s h =>
        ⟨h.1.1, buildCompaction_failed ((refuses_segmentPlan env cfg _ _ _).ne_ok hplan) h.1.2⟩
    | ok slices =>
      intro s hs
      have hcol := hs.2
      refine (Spec.bind (writeSegments_spec (fun ids => removeSegmentDirectories_spec fun _ h => h)
        _ slices (Nat.succ_pos _) (segmentPlan_covers hplan)) fun w => ?_) s hs.1
      split
      · rename_i hne
        refine Spec.ret ?_
        rintro s ⟨hF, ⟨hok, -⟩ | ⟨-, hb, -⟩⟩
        · exact absurd hok hne
        · exact ⟨hF, Or.inr ⟨hne, hb⟩⟩
      · rename_i hok
        rw [not_not] at hok
        have hready : ∀ s, Collecting pid m s ∧ SegmentsWritten env cfg L₀ pid .compact
            (m.generation + 1) units (fun _ => .ok) slices w s →
            Collecting pid m s ∧ Built env cfg L₀ pid m first count w s := by
          rintro s ⟨hF, ⟨-, slices', hc, -, -, -, -, hseg, hb, hdirs⟩ | ⟨hne, -⟩⟩
          · exact ⟨hF, Or.inl ⟨hok, hcol.replaces hc hseg, hdirs, hb⟩⟩
          · exact absurd hok hne
        refine Spec.bind ((Spec.skip (o := .syncSegments) (fun _ _ => rfl) fun _ => trivial).conseq
          hready fun _ _ h => h) fun synced => ?_
        split
        · exact Spec.ret fun s h => h
        · refine Spec.ret ?_
          rintro s ⟨hF, ⟨-, -, hdirs, hb⟩ | ⟨hne, -⟩⟩
          · refine ⟨hF, Or.inr ⟨by simp, _, hb, ?_⟩⟩
            simp [segmentDirs, hdirs]
          · exact absurd hok hne

/-! ## Publishing -/

/-- The ledger after a compaction has been published. -/
def Ledger.publishCompaction (l : Ledger) (m : Manifest) : Ledger :=
  { l with manifest := some m, names := m.ids ++ l.names }

/-- What is known under the second `writer.lock`, until the manifest is published. -/
def Swapping (env : Env) (cfg : Config) (L₀ : Logical) (pid : Pid) (l : Ledger) (m : Manifest)
    (ds : List SegmentDescriptor) (s : State) : Prop :=
  s.Frozen pid l ∧ s.Provided (l.pendingWal = false) ∧ Grown pid m s ∧
    Building env cfg L₀ pid .compact (m.generation + 1) (segmentDirs ds) s

/-- What is known when the manifest is published: the segments replaced are not listed any more. -/
def Swapped (env : Env) (cfg : Config) (L₀ : Logical) (pid : Pid) (l : Ledger)
    (old : List SegmentDescriptor) (s : State) : Prop :=
  ∃ m', (∀ d ∈ old, d.id ∉ m'.ids) ∧ s.Frozen pid (l.publishCompaction m') ∧
    s.Holds pid .compaction ∧ Inv env cfg L₀ s

section Publish

variable {l : Ledger} {ds old : List SegmentDescriptor} {current : Manifest} {first count : Nat}

instance : Stable (Rely env cfg L₀) pid (Swapping env cfg L₀ pid l m ds) := by
  unfold Swapping
  infer_instance

instance : Unlatched (Swapping env cfg L₀ pid l m ds) := by
  unfold Swapping
  infer_instance

instance : Stable (Rely env cfg L₀) pid (Swapped env cfg L₀ pid l old) := by
  unfold Swapped
  infer_instance

instance : Unlatched (Swapped env cfg L₀ pid l old) := by
  unfold Swapped
  infer_instance

theorem Described.mono {g g' : Nat} {d : SegmentDescriptor} (h : Described env cfg g d)
    (hle : g ≤ g') : Described env cfg g' d := by
  obtain ⟨g₁, us, h₁, h₂, h₃, h₄⟩ := h
  exact ⟨g₁, us, h₁, h₂, h₃, le_trans h₄ hle⟩

/-- The parts of the current manifest, if the range is unchanged. -/
theorem selectedRange_split (h : selectedRangeUnchanged m current first count = true) :
    current.segments = current.segments.take first ++ m.range first count ++
      current.segments.drop (first + count) ∧ first ≤ m.segments.length := by
  simp only [selectedRangeUnchanged, decide_eq_true_eq] at h
  refine ⟨?_, by omega⟩
  rw [Manifest.range, h.2.2, List.append_assoc, ← List.drop_drop, List.take_append_drop,
    List.take_append_drop]

/-- Segments that may replace the range of `m` may replace it in a manifest that has grown. -/
theorem Replaces.standsFor (h : Replaces env cfg m first count ds) (hle : first ≤ m.segments.length)
    (current : Manifest) :
    StandsFor (current.segments.take first) (m.range first count) ds := by
  refine h.stands.imp_right fun ⟨hpre, hcur⟩ => ⟨?_, hcur⟩
  have hzero : first = 0 := by
    have := congrArg List.length hpre
    rw [List.length_take, List.length_nil] at this
    omega
  rw [hzero, List.take_zero]

/-- **Installing the manifest of a compaction.** -/
theorem Swapping.install {s : State} (h : Swapping env cfg L₀ pid l m ds s)
    (hl : LedgerOk env cfg L₀ l current) (hrep : Replaces env cfg m first count ds)
    (hrange : selectedRangeUnchanged m current first count = true) {m' : Manifest}
    (hvalid : manifestValidate m' = .ok) (hgen : m'.generation = current.generation + 1)
    (hfp : m'.configFingerprint = current.configFingerprint)
    (hsegs : m'.segments = current.segments.take first ++ ds ++
      current.segments.drop (first + count)) :
    Guar env cfg pid s (s.install m' .compaction) ∧
      Swapped env cfg L₀ pid l (m.range first count) (s.install m' .compaction) := by
  obtain ⟨hfrozen, hclear, hgrown, hB⟩ := h
  have hmanifest : s.disk.manifest = some current :=
    (congrArg Ledger.manifest hfrozen.ledger).trans hl.manifest
  have hnames : s.history.names = l.names := congrArg Ledger.names hfrozen.ledger
  have hle : m.generation ≤ current.generation := by
    obtain ⟨current', ext, hc, hle, -⟩ := hgrown.grown
    obtain rfl : current = current' := Option.some.inj (hmanifest.symm.trans hc)
    exact hle
  obtain ⟨hsplit, hfirst⟩ := selectedRange_split hrange
  -- a segment of the new manifest is an old one or one of those just built
  have hmem : ∀ d ∈ m'.segments, d ∈ current.segments ∨ d ∈ ds := by
    intro d hd
    rw [hsegs, List.append_assoc, List.mem_append, List.mem_append] at hd
    rcases hd with hd | hd | hd
    · exact Or.inl (List.mem_of_mem_take hd)
    · exact Or.inr hd
    · exact Or.inl (List.mem_of_mem_drop hd)
  have hok : ManifestOk env cfg m' := by
    refine ⟨hvalid, hfp.trans hl.ok.fingerprint, fun d hd => ?_⟩
    rcases hmem d hd with hd | hd
    · exact (hl.ok.described d hd).mono (by omega)
    · exact (hrep.described d hd).mono (by omega)
  have hguar : Guar env cfg pid s (s.install m' .compaction) := by
    refine ⟨fun _ _ _ => Iff.rfl, List.suffix_refl _, List.suffix_refl _,
      .compaction current m' _ _ ds _ rfl hfrozen.held hgrown.held hmanifest hgen hsplit hsegs
        (hrep.standsFor hfirst current) hok hB.newSegments (fun d hd => ?_) fun ho => ?_⟩
    · rcases hmem d hd with hd | hd
      · have := hl.past d.id (hl.listed d.id (List.mem_map.mpr ⟨d, hd, rfl⟩))
        omega
      · rw [(hB.names _ (mem_segmentDirs hd)).2]
        omega
    · rw [State.pendingWal_eq, hfrozen.ledger]
      exact hclear ho
  refine ⟨hguar, m', fun d hd hid => ?_, ⟨hfrozen.held, ?_⟩, hgrown.held, hguar.inv hB.inv⟩
  · -- the names of the manifest are all different, and the new ones were never listed
    have hnd := (manifestValidate_eq_ok.mp hl.ok.valid).2.2.2.2
    rw [Manifest.ids, hsplit, List.map_append, List.map_append, List.nodup_append,
      List.nodup_append] at hnd
    have hdm : d.id ∈ (m.range first count).map (·.id) := List.mem_map.mpr ⟨d, hd, rfl⟩
    rw [Manifest.ids, hsegs, List.map_append, List.map_append, List.mem_append,
      List.mem_append] at hid
    rcases hid with (hid | hid) | hid
    · exact hnd.1.2.2 _ hid _ hdm rfl
    · obtain ⟨e, he, hed⟩ := List.mem_map.mp hid
      refine hB.newSegments.fresh e he ?_
      rw [hed, hnames]
      refine hl.listed _ ?_
      rw [Manifest.ids, hsplit, List.map_append, List.map_append]
      exact List.mem_append_left _ (List.mem_append_right _ hdm)
    · exact hnd.2.2 _ (List.mem_append_right _ hdm) _ hid rfl
  · rw [← hfrozen.ledger]
    rfl

/-- Directories of a compaction that the process may remove, whoever holds `writer.lock`. -/
def Leftover (pid : Pid) (dirs : List SegmentId) (s : State) : Prop :=
  Disposable pid dirs s ∧ ∀ id ∈ dirs, id.kind = .compact

instance {dirs : List SegmentId} : Stable (Rely env cfg L₀) pid (Leftover pid dirs) := by
  unfold Leftover
  infer_instance

theorem Aside.leftover {s s' : State} {dirs : List SegmentId} (h : Aside s s')
    (hd : Leftover pid dirs s) : Leftover pid dirs s' := by
  refine ⟨⟨fun id hid => ?_, ?_⟩, hd.2⟩
  · have := hd.1.held id hid
    rw [hd.2 id hid] at this ⊢
    exact h.compaction.trans this
  · have hm : s'.disk.manifest = s.disk.manifest := congrArg Ledger.manifest h.ledger
    refine hd.1.unlisted.imp (fun hun id hid => ?_) ?_
    · rw [State.Unlisted, hm]
      exact hun id hid
    · rintro ⟨o, ho, hf⟩
      refine ⟨o, ho, ?_⟩
      rw [State.Failed, h.faults]
      exact hf

/-- Everything that was built, complete or not, may be removed again. -/
theorem BuildingDirs.leftover {s : State} {generation : Nat} {dirs : List SegmentId}
    (h : BuildingDirs env cfg L₀ pid .compact generation dirs s) : Leftover pid dirs s := by
  obtain ⟨xs, hB, rfl⟩ := h
  refine ⟨hB.disposable, fun id hid => ?_⟩
  obtain ⟨x, hx, rfl⟩ := List.mem_map.mp hid
  exact (hB.names x hx).1

theorem Building.buildingDirs {s : State} {generation : Nat}
    (h : Building env cfg L₀ pid .compact generation (segmentDirs ds) s) :
    BuildingDirs env cfg L₀ pid .compact generation (ds.map (·.id)) s :=
  ⟨_, h, by simp [segmentDirs]⟩

/-- What the second section under `writer.lock` leaves. -/
def Finishing (env : Env) (cfg : Config) (L₀ : Logical) (pid : Pid) (dirs : List SegmentId)
    (published : Bool) (s : State) : Prop :=
  (∃ l, Section env cfg L₀ pid l s) ∧ s.Holds pid .compaction ∧
    (published = false → Leftover pid dirs s)

instance {dirs : List SegmentId} {published : Bool} :
    Stable (Rely env cfg L₀) pid (Finishing env cfg L₀ pid dirs published) := by
  unfold Finishing
  infer_instance

theorem Swapping.finishing {s : State} (h : Swapping env cfg L₀ pid l m ds s)
    (hfree : s.Free pid .manifest) : Finishing env cfg L₀ pid (ds.map (·.id)) false s :=
  ⟨⟨l, h.1, hfree, h.2.2.2.inv⟩, h.2.2.1.held, fun _ => h.2.2.2.buildingDirs.leftover⟩

/-- **The specification of the second section under `writer.lock`.** -/
theorem publishCompaction_spec (hl : LedgerOk env cfg L₀ l current)
    (hrep : Replaces env cfg m first count ds) (hkind : ∀ d ∈ ds, d.id.kind = .compact) :
    Spec env cfg L₀ strict pid
      (fun s => Swapping env cfg L₀ pid l m ds s ∧ s.Free pid .manifest)
      (publishCompaction env cfg m first count ds) fun r s =>
        Finishing env cfg L₀ pid (ds.map (·.id)) r.2 s := by
  have hmanifest : ∀ s, Swapping env cfg L₀ pid l m ds s ∧ s.Free pid .manifest →
      s.disk.manifest = some current := fun s h =>
    (congrArg Ledger.manifest h.1.1.ledger).trans hl.manifest
  have hrefused : ∀ e : Status, Spec env cfg L₀ strict pid
      (fun s => Swapping env cfg L₀ pid l m ds s ∧ s.Free pid .manifest)
      (pure (e, false) : Code (Status × Bool)) fun r s =>
        Finishing env cfg L₀ pid (ds.map (·.id)) r.2 s := fun e =>
    Spec.ret fun s h => h.1.finishing h.2
  refine Spec.bind (manifestLoadForConfig_spec hmanifest hl.ok.fingerprint) fun r => ?_
  cases r with
  | error e => exact (hrefused _).conseq (fun s h => h.1) fun _ _ h => h
  | ok m₁ =>
    intro s hs
    obtain rfl : m₁ = current := by
      rcases hs.2 with h | ⟨h, -⟩
      · exact Except.ok.inj h
      · cases h
    have hle : m.generation ≤ m₁.generation := by
      obtain ⟨current, ext, hc, hle, -⟩ := hs.1.1.2.2.1.grown
      obtain rfl : m₁ = current := Option.some.inj ((hmanifest s hs.1).symm.trans hc)
      exact hle
    refine (?_ : Spec env cfg L₀ strict pid
      (fun s => Swapping env cfg L₀ pid l m ds s ∧ s.Free pid .manifest) _ _) s hs.1
    dsimp only
    split
    · exact hrefused _
    rename_i hrange
    rw [Bool.not_eq_false] at hrange
    split
    · exact hrefused _
    rename_i hgen
    split
    · exact hrefused _
    cases hcand : candidateManifest m₁ first count ds with
    | error e => exact hrefused _
    | ok candidate =>
      obtain rfl := Manifest.addSegments_eq_ok hcand
      dsimp only
      split
      · exact hrefused _
      refine Spec.bind (B := fun _ s =>
        Swapping env cfg L₀ pid l m ds s ∧ s.Free pid .manifest) ?_ fun status => ?_
      · exact (verifySegments_spec (fun d hd => (hrep.described d hd).mono (Nat.succ_le_succ hle))
          fun s h => h.1.2.2.2.newSegments.files).conseq (fun _ h => h) fun _ _ h => h.1
      · split
        · exact hrefused _
        · refine Spec.bind (manifestPublishIfGeneration_spec
            (A := Swapping env cfg L₀ pid l m ds)
            (B := Swapped env cfg L₀ pid l (m.range first count)) hgen
            (fun (s : State) (h : Swapping env cfg L₀ pid l m ds s) => (congrArg Ledger.manifest h.1.ledger).trans hl.manifest) rfl rfl
            fun hcheck s h => ?_) fun status => ?_
          · exact h.install hl hrep hrange (Status.next_eq_ok.mp hcheck).1 rfl rfl rfl
          · split
            · rename_i hne
              refine Spec.ret ?_
              rintro s (⟨hok, -⟩ | ⟨-, ⟨⟨m', hun, hfrozen, hheld, hinv⟩, hfree⟩, hmis⟩ |
                ⟨-, ⟨h, hfree⟩, -⟩)
              · exact absurd hok hne
              · refine ⟨⟨_, hfrozen, hfree, hinv⟩, hheld, fun _ => ?_⟩
                have hk : ∀ id ∈ ds.map (·.id), id.kind = .compact := by
                  intro id hid
                  obtain ⟨d, hd, rfl⟩ := List.mem_map.mp hid
                  exact hkind d hd
                refine ⟨⟨fun id hid => ?_, Or.inr hmis⟩, hk⟩
                rw [hk id hid]
                exact hheld
              · exact h.finishing hfree
            · rename_i hok
              rw [not_not] at hok
              rintro s (⟨-, ⟨m', hun, hfrozen, hheld, hinv⟩, hfree⟩ | ⟨hne, -⟩ | ⟨hne, -⟩)
              · have hD : Disposable pid ((m.range first count).map (·.id)) s := by
                  refine ⟨fun id _ => ?_, Or.inl fun id hid m₂ hm₂ => ?_⟩
                  · cases id.kind
                    · exact hfrozen.held
                    · exact hheld
                  · obtain ⟨d, hd, rfl⟩ := List.mem_map.mp hid
                    obtain rfl : m' = m₂ := Option.some.inj
                      ((congrArg Ledger.manifest hfrozen.ledger).symm.trans hm₂)
                    exact hun d hd
                refine (Spec.bind (removeObsolete_spec (F := fun s =>
                  s.Frozen pid (l.publishCompaction m') ∧ s.Holds pid .compaction ∧
                    s.Free pid .manifest) fun _ h => h) fun status => ?_) s
                  ⟨⟨hfrozen, hheld, hfree⟩, hD, hinv⟩
                exact Spec.ret fun s h =>
                  ⟨⟨_, h.1.1, h.1.2.2, h.2.2⟩, h.1.2.1, fun hno => by cases hno⟩
              · exact absurd hok hne
              · exact absurd hok hne

end Publish

/-! ## The first section under `writer.lock` -/

section Prepare

variable {l : Ledger}

/-- Listing the segment directories changes nothing. -/
theorem Spec.listSegments {A : State → Prop} [Stable (Rely env cfg L₀) pid A] :
    Spec env cfg L₀ strict pid A (perform .listSegments) fun _ s => A s := by
  refine Triple.perform (fun _ _ => trivial) fun s c r s' hA he => ?_
  have he : execListSegments pid c s = some (r, s') := he
  unfold execListSegments at he
  split at he
  · split at he
    · cases he
      exact ⟨Guar.refl pid s, hA⟩
    · cases he
  · cases he
    have hrely : Rely env cfg L₀ pid s (s.fault pid .listSegments) := Rely.fault pid pid s _
    exact ⟨Guar.fault pid s _, Stable.rely hA hrely⟩
  · cases he

/-- The process holds `writer.lock` and `compaction.lock`. -/
def Preparing (env : Env) (cfg : Config) (L₀ : Logical) (pid : Pid) (l : Ledger) (s : State) : Prop :=
  Section env cfg L₀ pid l s ∧ s.Holds pid .compaction

instance : Stable (Rely env cfg L₀) pid (Preparing env cfg L₀ pid l) := by
  unfold Preparing
  infer_instance

/-- `YAP_V2_compact_gc` only removes what the manifest does not list. -/
theorem compactGc_spec (hl : LedgerOk env cfg L₀ l m) :
    Spec env cfg L₀ strict pid (Preparing env cfg L₀ pid l) (compactGc m)
      fun _ => Preparing env cfg L₀ pid l := by
  rw [compactGc]
  split
  · exact Spec.ret fun s h => h
  · refine Spec.bind Spec.listSegments fun listed => ?_
    cases listed with
    | missing => exact Spec.ret fun s h => h
    | failed => exact Spec.ret fun s h => h
    | entries ids =>
      set gone := ids.filter fun id => id ∉ m.ids with hgone
      refine Spec.bind ((removeObsolete_spec (F := fun s =>
        s.Frozen pid l ∧ s.Holds pid .compaction ∧ s.Free pid .manifest)
        fun id (h : id ∈ gone) => h).conseq
        (fun s h => ⟨⟨h.1.1, h.2, h.1.2.1⟩, ⟨fun id _ => ?_, Or.inl fun id hid m' hm' => ?_⟩,
          h.1.2.2⟩) fun _ s h => (⟨⟨h.1.1, h.1.2.2, h.2.2⟩, h.1.2.1⟩ :
            Preparing env cfg L₀ pid l s)) fun status => ?_
      · cases id.kind
        · exact h.1.1.held
        · exact h.2
      · obtain rfl : m' = m := hl.eq ((congrArg Ledger.manifest h.1.1.ledger).symm.trans hm')
        rw [hgone, List.mem_filter] at hid
        exact of_decide_eq_true hid.2
      · refine Spec.bind (Spec.skip (o := .closedir) (fun _ _ => rfl) fun _ => trivial)
          fun closed => ?_
        split <;> exact Spec.ret fun s h => h

/-- What is known at the end of the loop, and between its rounds. -/
def Looping (env : Env) (cfg : Config) (L₀ : Logical) (pid : Pid) (status : Status) (s : State) :
    Prop :=
  s.Holds pid .compaction ∧ ((status = .ok ∧ ∃ l, Section env cfg L₀ pid l s) ∨
    (status ≠ .ok ∧ Outside env cfg L₀ pid s))

instance {status : Status} : Stable (Rely env cfg L₀) pid (Looping env cfg L₀ pid status) := by
  unfold Looping
  infer_instance

/-- A recovery leaves `compaction.lock` alone. -/
theorem holds_of_isReplay {o : Op} {c : Choice} {r : Res o} {s s' : State}
    (ho : o.isReplay = true) (h : s.Holds pid .compaction)
    (he : exec pid o c s = some (r, s')) : s'.Holds pid .compaction := by
  refine (exec_locks he ?_).trans h
  cases o with
  | lock site => cases site <;> simp_all [Op.isReplay, Op.lockFile, LockSite.lock]
  | unlock l => cases l <;> simp_all [Op.isReplay, Op.lockFile]
  | _ => simp [Op.lockFile]

/-- Taking `writer.lock` at the start of a round. -/
theorem lockPrepare_spec :
    Spec env cfg L₀ strict pid
      (fun s => Outside env cfg L₀ pid s ∧ s.Holds pid .compaction) (perform (.lock .prepare))
      fun r s => s.Holds pid .compaction ∧ ((r = true ∧ ∃ l, Section env cfg L₀ pid l s) ∨
        (r = false ∧ Outside env cfg L₀ pid s)) := by
  refine (Spec.lock .prepare
    (B := fun s => (∃ l, Section env cfg L₀ pid l s) ∧ s.Holds pid .compaction)
    (fun s h => h.1.1) fun s h hnone => ?_).conseq (fun _ h => h) ?_
  · exact ⟨⟨_, h.1.enter hnone rfl⟩, (Aside.lock s pid .prepare).compaction.trans h.2⟩
  · rintro r s (⟨hr, hsec, hheld⟩ | ⟨hr, h, -⟩)
    · exact ⟨hheld, Or.inl ⟨hr, hsec⟩⟩
    · exact ⟨h.2, Or.inr ⟨hr, h.1⟩⟩

/-- **The specification of the recovery loop.** -/
theorem recoverLoop_spec (fuel : Nat) :
    Spec env cfg L₀ false pid
      (fun s => (∃ l, Section env cfg L₀ pid l s) ∧ s.Holds pid .compaction)
      (recoverLoop env cfg fuel) (Looping env cfg L₀ pid) := by
  induction fuel with
  | zero =>
    refine Spec.bind (B := fun _ _ => True) ?_ fun r => nomatch r
    exact Triple.perform (fun _ _ => rfl) fun s c r => nomatch r
  | succ fuel ih =>
    rw [recoverLoop]
    refine Spec.bind (Spec.skip (o := .walExists) (fun _ _ => rfl) fun _ => trivial)
      fun present => ?_
    split
    · refine Spec.bind (Spec.unlock
        (B := fun s => Outside env cfg L₀ pid s ∧ s.Holds pid .compaction) ?_) fun _ => ?_
      · rintro s ⟨⟨l, hsec⟩, hheld⟩
        exact ⟨hsec.leave, (Aside.unlock s pid).compaction.trans hheld⟩
      · refine Spec.bind ((Triple.frame_uses (K := State.Holds pid .compaction)
          (fun ho hk he => holds_of_isReplay ho hk he) (replays_updateRecover env cfg)
          (updateRecover_spec 0)).conseq (fun s h => ⟨⟨h.1, Nat.zero_le _⟩, h.2⟩)
          fun _ s h => (⟨h.1.1, h.2⟩ : Outside env cfg L₀ pid s ∧ s.Holds pid .compaction))
          fun status => ?_
        split
        · rename_i hne
          exact Spec.ret fun s h => ⟨h.2, Or.inr ⟨hne, h.1⟩⟩
        · refine Spec.bind lockPrepare_spec fun locked => ?_
          split
          · rename_i hlocked
            refine ih.conseq ?_ fun _ _ h => h
            rintro s ⟨hheld, ⟨-, hsec⟩ | ⟨hno, -⟩⟩
            · exact ⟨hsec, hheld⟩
            · exact absurd (hlocked.symm.trans hno) (by simp)
          · rename_i hlocked
            refine Spec.ret ?_
            rintro s ⟨hheld, ⟨hyes, -⟩ | ⟨-, h⟩⟩
            · exact absurd hyes hlocked
            · exact ⟨hheld, Or.inr ⟨by simp, h⟩⟩
    · exact Spec.ret fun s h => ⟨h.2, Or.inl ⟨rfl, h.1⟩⟩

/-- What is known of a range that was selected. -/
def Selected (env : Env) (cfg : Config) (pid : Pid) (m : Manifest) (s : State) : Prop :=
  ManifestOk env cfg m ∧ Grown pid m s ∧ Upcoming pid .compact (m.generation + 1) s

instance : Stable (Rely env cfg L₀) pid (Selected env cfg pid m) := by
  unfold Selected
  infer_instance

theorem Preparing.selected {s : State} (h : Preparing env cfg L₀ pid l s)
    (hl : LedgerOk env cfg L₀ l m) : Selected env cfg pid m s := by
  refine ⟨hl.ok, ⟨h.2, m, [], ?_, le_rfl, (List.append_nil _).symm⟩, h.2, fun id hid _ => ?_⟩
  · exact (congrArg Ledger.manifest h.1.1.ledger).trans hl.manifest
  · have hnames : s.history.names = l.names := congrArg Ledger.names h.1.1.ledger
    rw [hnames] at hid
    exact Nat.lt_succ_of_le (hl.past id hid)

/-- What the first section under `writer.lock` leaves. -/
def Prepared (env : Env) (cfg : Config) (L₀ : Logical) (pid : Pid)
    (r : Except Status (Option (Manifest × Nat × Nat))) (s : State) : Prop :=
  s.Holds pid .compaction ∧ ((∃ l, Section env cfg L₀ pid l s) ∨ Outside env cfg L₀ pid s) ∧
    ∀ m first count, r = .ok (some (m, first, count)) → Selected env cfg pid m s

instance {r : Except Status (Option (Manifest × Nat × Nat))} :
    Stable (Rely env cfg L₀) pid (Prepared env cfg L₀ pid r) := by
  unfold Prepared
  infer_instance

theorem prepareCompaction_spec (policy : Option CompactionPolicy) (fuel : Nat) :
    Spec env cfg L₀ false pid
      (fun s => (∃ l, Section env cfg L₀ pid l s) ∧ s.Holds pid .compaction)
      (prepareCompaction env cfg policy fuel) (Prepared env cfg L₀ pid) := by
  rw [prepareCompaction]
  refine Spec.bind (recoverLoop_spec fuel) fun status => ?_
  split
  · refine Spec.ret ?_
    rintro s ⟨hheld, ⟨-, hsec⟩ | ⟨-, hout⟩⟩
    · exact ⟨hheld, Or.inl hsec, fun _ _ _ h => by cases h⟩
    · exact ⟨hheld, Or.inr hout, fun _ _ _ h => by cases h⟩
  · rename_i hok
    rw [not_not] at hok
    rintro s ⟨hheld, ⟨-, l, hsec⟩ | ⟨hne, -⟩⟩
    · obtain ⟨m, hl⟩ := hsec.2.2.ledgerOk hsec.1
      refine (?_ : Spec env cfg L₀ false pid (Preparing env cfg L₀ pid l) _ _) s ⟨hsec, hheld⟩
      have hnothing : ∀ {r : Except Status (Option (Manifest × Nat × Nat))},
          (∀ x, r ≠ .ok (some x)) → Spec env cfg L₀ false pid (Preparing env cfg L₀ pid l)
            (pure r) (Prepared env cfg L₀ pid) := fun hr =>
        Spec.ret fun s h => ⟨h.2, Or.inl ⟨l, h.1⟩, fun _ _ _ he => absurd he (hr _)⟩
      refine Spec.bind (Spec.skip (o := .loadConfig) (fun _ _ => rfl) fun _ => trivial)
        fun loaded => ?_
      split
      · refine Spec.bind (manifestLoadForConfig_spec (fun s h =>
          (congrArg Ledger.manifest h.1.1.ledger).trans hl.manifest) hl.ok.fingerprint) fun r => ?_
        cases r with
        | error e => exact (hnothing (by simp)).conseq (fun s h => h.1) fun _ _ h => h
        | ok m₁ =>
          intro s hs
          obtain rfl : m₁ = m := by
            rcases hs.2 with h | ⟨h, -⟩
            · exact Except.ok.inj h
            · cases h
          refine (?_ : Spec env cfg L₀ false pid (Preparing env cfg L₀ pid l) _ _) s hs.1
          dsimp only
          split
          · exact hnothing (by simp)
          · refine Spec.bind (compactGc_spec hl) fun status => ?_
            split
            · exact hnothing (by simp)
            · cases selectRange policy m₁ with
              | error e => exact hnothing (by simp)
              | ok range =>
                dsimp only
                split
                · exact hnothing (by simp)
                · refine Spec.ret fun s h => ⟨h.2, Or.inl ⟨l, h.1⟩, fun m first count he => ?_⟩
                  cases he
                  exact h.selected hl
      · exact hnothing (by simp)
    · exact absurd hok hne

end Prepare

/-! ## The whole compaction -/

/-- What is left of a compaction is removed without `writer.lock`. -/
theorem removeLeftover_spec {dirs : List SegmentId} {status : Status} :
    Spec env cfg L₀ strict pid
      (fun s => Outside env cfg L₀ pid s ∧ s.Holds pid .compaction ∧ Leftover pid dirs s)
      (do
        removeSegmentDirectories dirs
        pure status)
      fun _ s => Outside env cfg L₀ pid s ∧ s.Holds pid .compaction := by
  refine Spec.bind ((removeSegmentDirectories_spec (F := fun s =>
    s.Free pid .writer ∧ s.Free pid .manifest ∧ s.Holds pid .compaction)
    fun id (h : id ∈ dirs) => h).conseq
    (fun s h => ⟨⟨h.1.1, h.1.2.1, h.2.1⟩, h.2.2.1, h.1.2.2⟩) fun _ _ h => h) fun _ => ?_
  exact Spec.ret fun s h => ⟨⟨h.1.1, h.1.2.1, h.2.2⟩, h.1.2.2⟩

/-- Taking `writer.lock` to publish. -/
theorem lockPublish_spec (m : Manifest) (ds : List SegmentDescriptor) :
    Spec env cfg L₀ strict pid
      (fun s => Collecting pid m s ∧
        Building env cfg L₀ pid .compact (m.generation + 1) (segmentDirs ds) s)
      (perform (.lock .publish)) fun r s =>
        (r = true ∧ ∃ l current, LedgerOk env cfg L₀ l current ∧
          Swapping env cfg L₀ pid l m ds s ∧ s.Free pid .manifest) ∨
        (r = false ∧ (Collecting pid m s ∧
          Building env cfg L₀ pid .compact (m.generation + 1) (segmentDirs ds) s) ∧
          s.Failed pid (.lock .publish)) := by
  refine Spec.lock .publish (fun s h => h.1.2.1) fun s h hnone => ?_
  have hout : Outside env cfg L₀ pid s := ⟨h.1.2.1, h.1.2.2, h.2.inv⟩
  have hsec : Section env cfg L₀ pid s.ledger
      ((s.noteHazard pid .publish).setLock .writer (some pid)) := hout.enter hnone rfl
  have haside := Aside.lock s pid .publish
  obtain ⟨current, hl⟩ := hsec.2.2.ledgerOk hsec.1
  exact ⟨s.ledger, current, hl, ⟨hsec.1, Outside.clear (Or.inr rfl), haside.grown h.1.1,
    haside.building h.2⟩, hsec.2.1⟩

theorem compactSelected_spec (m : Manifest) (first count : Nat) :
    Spec env cfg L₀ strict pid (fun s => Outside env cfg L₀ pid s ∧ Selected env cfg pid m s)
      (compactSelected env cfg m first count)
      fun _ s => Outside env cfg L₀ pid s ∧ s.Holds pid .compaction := by
  intro s hs
  refine (Spec.bind (buildCompaction_spec hs.2.1 first count) fun w => ?_) s
    ⟨⟨hs.2.2.1, hs.1.1, hs.1.2.1⟩, hs.2.2.2.building hs.1.2.2⟩
  split
  · rename_i hne
    refine removeLeftover_spec.conseq ?_ fun _ _ h => h
    rintro s ⟨hF, ⟨hok, -⟩ | ⟨-, hb⟩⟩
    · exact absurd hok hne
    · obtain ⟨xs, hB, -⟩ := id hb
      exact ⟨⟨hF.2.1, hF.2.2, hB.inv⟩, hF.1.held, hb.leftover⟩
  · rename_i hok
    rw [not_not] at hok
    rintro s ⟨hF, ⟨-, hrep, hdirs, hB⟩ | ⟨hne, -⟩⟩
    · refine (Spec.bind (lockPublish_spec m w.descriptors) fun locked => ?_) s ⟨hF, hB⟩
      split
      · rename_i hlocked
        rintro s (⟨-, l, current, hl, hsw, hfree⟩ | ⟨hno, -⟩)
        · have hkind : ∀ d ∈ w.descriptors, d.id.kind = .compact := hsw.2.2.2.newSegments.kinds
          refine (Spec.bind (publishCompaction_spec hl hrep hkind) fun r => ?_) s ⟨hsw, hfree⟩
          rw [← hdirs]
          refine Spec.bind (Spec.unlock (B := fun s => (Outside env cfg L₀ pid s ∧
            s.Holds pid .compaction) ∧ (r.2 = false → Leftover pid w.dirs s)) ?_) fun _ => ?_
          · rintro s ⟨⟨l', hsec⟩, hheld, hleft⟩
            have haside := Aside.unlock s pid
            exact ⟨⟨hsec.leave, haside.compaction.trans hheld⟩, fun hr => haside.leftover (hleft hr)⟩
          · split
            · rename_i hr
              exact removeLeftover_spec.conseq (fun s h => ⟨h.1.1, h.1.2, h.2 hr⟩) fun _ _ h => h
            · exact Spec.ret fun s h => h.1
        · exact absurd (hlocked.symm.trans hno) (by simp)
      · rename_i hlocked
        refine removeLeftover_spec.conseq ?_ fun _ _ h => h
        rintro s (⟨hyes, -⟩ | ⟨-, ⟨hF, hB⟩, -⟩)
        · exact absurd hyes hlocked
        · exact ⟨⟨hF.2.1, hF.2.2, hB.inv⟩, hF.1.held, hdirs.symm ▸ hB.buildingDirs.leftover⟩
    · exact absurd hok hne

/-- **The specification of `compact_internal`**, among others. -/
theorem compactInternal_spec (policy : Option CompactionPolicy) (fuel : Nat) :
    Spec env cfg L₀ false pid
      (fun s => Outside env cfg L₀ pid s ∧ s.Free pid .compaction)
      (compactInternal env cfg policy fuel) fun _ => Outside env cfg L₀ pid := by
  have hsection : Spec env cfg L₀ false pid
      (fun s => Outside env cfg L₀ pid s ∧ s.Holds pid .compaction)
      (compactionSection env cfg policy fuel)
      fun _ s => Outside env cfg L₀ pid s ∧ s.Holds pid .compaction := by
    refine Spec.bind lockPrepare_spec fun locked => ?_
    split
    · rename_i hlocked
      refine Spec.bind ((prepareCompaction_spec policy fuel).conseq ?_ fun _ _ h => h) fun r => ?_
      · rintro s ⟨hheld, ⟨-, hsec⟩ | ⟨hno, -⟩⟩
        · exact ⟨hsec, hheld⟩
        · exact absurd (hlocked.symm.trans hno) (by simp)
      · refine Spec.bind (Spec.unlock (B := fun s => (Outside env cfg L₀ pid s ∧
          s.Holds pid .compaction) ∧ ∀ m first count, r = .ok (some (m, first, count)) →
            Selected env cfg pid m s) ?_) fun _ => ?_
        · rintro s ⟨hheld, hin, hsel⟩
          have haside := Aside.unlock s pid
          refine ⟨⟨?_, haside.compaction.trans hheld⟩, fun m first count hr => ?_⟩
          · rcases hin with ⟨l, hsec⟩ | hout
            · exact hsec.leave
            · rw [if_neg hout.1]
              exact hout
          · obtain ⟨hok, hgrown, hup⟩ := hsel m first count hr
            exact ⟨hok, haside.grown hgrown, haside.upcoming hup⟩
        · cases r with
          | error e => exact Spec.ret fun s h => h.1
          | ok range =>
            cases range with
            | none => exact Spec.ret fun s h => h.1
            | some x =>
              obtain ⟨m, first, count⟩ := x
              exact (compactSelected_spec m first count).conseq
                (fun s h => ⟨h.1.1, h.2 m first count rfl⟩) fun _ _ h => h
    · rename_i hlocked
      refine Spec.ret ?_
      rintro s ⟨hheld, ⟨hyes, -⟩ | ⟨-, hout⟩⟩
      · exact absurd hyes hlocked
      · exact ⟨hout, hheld⟩
  rw [compactInternal]
  refine Spec.bind (Spec.lock .compaction
    (B := fun s => Outside env cfg L₀ pid s ∧ s.Holds pid .compaction)
    (fun s h => h.2) fun s h hnone => ?_) fun locked => ?_
  · have hnote : s.noteHazard pid .compaction = s := by simp [State.noteHazard]
    rw [hnote]
    exact ⟨⟨h.1.1, h.1.2.1, h.1.2.2.setLock _ _⟩, by simp [State.Holds, State.setLock, LockSite.lock]⟩
  · split
    · rename_i hlocked
      refine Spec.bind (hsection.conseq ?_ fun _ _ h => h) fun status => ?_
      · rintro s (⟨-, h⟩ | ⟨hno, -⟩)
        · exact h
        · exact absurd (hlocked.symm.trans hno) (by simp)
      · refine Spec.bind (Spec.unlock (B := Outside env cfg L₀ pid) ?_) fun _ =>
          Spec.ret fun s h => h
        rintro s ⟨h, hheld⟩
        rw [if_pos (show s.locks .compaction = some pid from hheld)]
        exact ⟨h.1, h.2.1, h.2.2.setLock _ _⟩
    · rename_i hlocked
      refine Spec.ret ?_
      rintro s (⟨hyes, -⟩ | ⟨-, h, -⟩)
      · exact absurd hyes hlocked
      · exact h.1

end Yappod

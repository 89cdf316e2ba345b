import Yappod.Indexing.Refusals
import Yappod.System.Publish

/-!
# Updates and recoveries, specified

What `apply_operations`, `YAP_V2_update_recover` and `YAP_V2_update_apply` leave behind, for every
interleaving with other processes and every failing step.  Under `writer.lock` nothing but the
process itself changes the ledger, so each specification says which ledger it started from and which
one it leaves (`Applied`): the batch is published, or it is published but the caller is told
otherwise because a step has failed, or the manifest is as before.
-/

set_option autoImplicit false

namespace Yappod

/-! ## Ledgers -/

namespace Ledger

/-- Is the WAL for the current generation? -/
def pendingWal (l : Ledger) : Bool :=
  match l.wal, l.manifest with
  | some w, some m => w.base = m.generation
  | _, _ => false

/-- A WAL is installed. -/
def installWal (l : Ledger) (w : Wal) : Ledger :=
  { l with wal := some w, wals := ⟨l.wals.length, w, .pending⟩ :: l.wals }

/-- An update is published. -/
def publishUpdate (l : Ledger) (m : Manifest) (ops : List IngestOperation) : Ledger :=
  { l with
    manifest := some m
    wals := markNewest .published l.wals
    committed := ops :: l.committed
    names := m.ids ++ l.names }

/-- The WAL is removed. -/
def clearWal (l : Ledger) (why : WalClear) : Ledger :=
  { l with
    wal := none
    wals := if why = .withdrawn then markNewest .withdrawn l.wals else l.wals }

end Ledger

theorem State.pendingWal_eq (s : State) : s.pendingWal = s.ledger.pendingWal := rfl

theorem State.install_update_ledger (s : State) (m : Manifest) (ops : List IngestOperation) :
    (s.install m (.update ops)).ledger = s.ledger.publishUpdate m ops := rfl

variable (env : Env) (cfg : Config)

/-- **What an update does to the manifest.** -/
structure Publishes (m m' : Manifest) (ops : List IngestOperation) : Prop where
  generation : m'.generation = m.generation + 1
  segments : ∃ ds, m'.segments = m.segments ++ ds
  logical : m'.logical = applyBatch env cfg m.logical ops

variable {env cfg} {L₀ : Logical} {strict : Bool} {pid : Pid} {l : Ledger} {m : Manifest}
  {ops : List IngestOperation}

/-- The manifest that the invariant speaks of is the one of the ledger. -/
theorem Inv.ledgerOk {s : State} (h : Inv env cfg L₀ s) (hf : s.Frozen pid l) :
    ∃ m, LedgerOk env cfg L₀ l m := by
  obtain ⟨m, h⟩ := h
  exact ⟨m, hf.ledger ▸ h.ledger⟩

theorem LedgerOk.eq {m' : Manifest} (h : LedgerOk env cfg L₀ l m) (h' : l.manifest = some m') :
    m' = m := Option.some.inj (h'.symm.trans h.manifest)

theorem Inv.ledgerOk_of_manifest {s : State} (h : Inv env cfg L₀ s) (hf : s.Frozen pid l)
    (hm : l.manifest = some m) : LedgerOk env cfg L₀ l m := by
  obtain ⟨m', h'⟩ := h.ledgerOk hf
  exact h'.eq hm ▸ h'

/-! ## The WAL -/

section Wal

/-- What is known in a section under `writer.lock`. -/
def Section (env : Env) (cfg : Config) (L₀ : Logical) (pid : Pid) (l : Ledger) (s : State) : Prop :=
  s.Frozen pid l ∧ s.Free pid .manifest ∧ Inv env cfg L₀ s

instance : Stable (Rely env cfg L₀) pid (Section env cfg L₀ pid l) := by
  unfold Section
  infer_instance

/-- A step that changes the ledger and nothing else. -/
theorem Section.step {s s' : State} {l' : Ledger} (h : Section env cfg L₀ pid l s)
    (hg : Guar env cfg pid s s') (hl : s'.ledger = l') (hlocks : s'.locks = s.locks) :
    Section env cfg L₀ pid l' s' := by
  refine ⟨⟨?_, hl⟩, ?_, hg.inv h.2.2⟩
  · rw [hlocks]
    exact h.1.held
  · rw [State.Free, hlocks]
    exact h.2.1

theorem Section.fault {s : State} (h : Section env cfg L₀ pid l s) (o : Op) :
    Section env cfg L₀ pid l (s.fault pid o) :=
  h.step (Guar.fault pid s o) h.1.ledger rfl

/-- **The specification of `YAP_V2_update_wal_write`.** -/
theorem updateWalWrite_spec {w : Wal} (hm : l.manifest = some m) (hbase : w.base = m.generation)
    (hacc : Accepted env cfg m w.operations) :
    Spec env cfg L₀ strict pid
      (fun s => Section env cfg L₀ pid l s ∧ s.Provided (l.pendingWal = false))
      (updateWalWrite w) fun status s =>
        (status = .ok ∧ Section env cfg L₀ pid (l.installWal w) s) ∨
        (status ≠ .ok ∧ Section env cfg L₀ pid (l.installWal w) s ∧
          s.Failed pid (.syncIndexDir .walWrite)) ∨
        (status ≠ .ok ∧ Section env cfg L₀ pid l s ∧ s.Failed pid (.installWal w)) := by
  have hop : Spec env cfg L₀ strict pid
      (fun s => Section env cfg L₀ pid l s ∧ s.Provided (l.pendingWal = false))
      (perform (.installWal w)) fun r s => (r = true ∧ Section env cfg L₀ pid (l.installWal w) s) ∨
        (r = false ∧ Section env cfg L₀ pid l s ∧ s.Failed pid (.installWal w)) := by
    refine Triple.perform (fun _ _ => trivial) fun s c r s' hA he => ?_
    obtain ⟨hS, hclear⟩ := hA
    have hledger := hS.1.ledger
    rcases tryStep_eq_some he with he | ⟨rfl, rfl⟩
    · obtain ⟨rfl, rfl⟩ := Prod.mk.inj he
      have hg : Guar env cfg pid s ((s.setWal (some w)).recordWal w) := by
        refine ⟨fun _ _ _ => Iff.rfl, List.suffix_refl _, List.suffix_refl _,
          .installWal m w rfl hS.1.held ?_ hbase hacc fun ho => ?_⟩
        · rw [← hm, ← hledger]
          rfl
        · rw [State.pendingWal_eq, hledger]
          exact hclear ho
      refine ⟨hg, Or.inl ⟨rfl, hS.step hg ?_ rfl⟩⟩
      rw [← hledger]
      rfl
    · exact ⟨Guar.fault pid s _, Or.inr ⟨rfl, hS.fault _, s.failed_fault _⟩⟩
  refine Spec.bind hop fun renamed => ?_
  split
  · rename_i hrenamed
    refine Spec.bind ((Spec.passive (o := .syncIndexDir .walWrite)
      (A := Section env cfg L₀ pid (l.installWal w)) (V := fun r => r = true)
      (fun _ _ => rfl) (fun _ => trivial) fun _ _ => rfl).conseq ?_ fun _ _ h => h) fun synced => ?_
    · rintro s (⟨-, h⟩ | ⟨h, -⟩)
      · exact h
      · exact absurd (hrenamed.symm.trans h) (by simp)
    · split
      · exact Spec.ret fun s h => Or.inl ⟨rfl, h.1⟩
      · rename_i hsynced
        refine Spec.ret ?_
        rintro s ⟨h, hr | ⟨-, hfail⟩⟩
        · exact absurd hr hsynced
        · exact Or.inr (Or.inl ⟨by simp, h, hfail⟩)
  · rename_i hrenamed
    refine Spec.ret ?_
    rintro s (⟨h, -⟩ | ⟨-, h, hfail⟩)
    · exact absurd h hrenamed
    · exact Or.inr (Or.inr ⟨by simp, h, hfail⟩)

/-- **The specification of `YAP_V2_update_wal_clear`.** -/
theorem updateWalClear_spec (why : WalClear) :
    Spec env cfg L₀ strict pid (fun s => Section env cfg L₀ pid l s ∧
        (why ≠ .withdrawn → s.Provided (l.pendingWal = false)))
      (updateWalClear why) fun status s =>
        (status = .ok ∧ Section env cfg L₀ pid (l.clearWal why) s) ∨
        (status ≠ .ok ∧ Section env cfg L₀ pid (l.clearWal why) s ∧
          s.Failed pid (.syncIndexDir .walClear)) ∨
        (status ≠ .ok ∧ Section env cfg L₀ pid l s ∧ s.Failed pid (.unlinkWal why)) := by
  have hop : Spec env cfg L₀ strict pid (fun s => Section env cfg L₀ pid l s ∧
        (why ≠ .withdrawn → s.Provided (l.pendingWal = false)))
      (perform (.unlinkWal why)) fun r s =>
        (r = true ∧ Section env cfg L₀ pid (l.clearWal why) s) ∨
        (r = false ∧ Section env cfg L₀ pid l s ∧ s.Failed pid (.unlinkWal why)) := by
    refine Triple.perform (fun _ _ => trivial) fun s c r s' hA he => ?_
    obtain ⟨hS, hclear⟩ := hA
    have hledger := hS.1.ledger
    rcases tryStep_eq_some he with he | ⟨rfl, rfl⟩
    · obtain ⟨rfl, rfl⟩ := Prod.mk.inj he
      by_cases hwhy : why = .withdrawn
      · rw [if_pos hwhy]
        have hg : Guar env cfg pid s ((s.setWal none).markWal .withdrawn) :=
          ⟨fun _ _ _ => Iff.rfl, List.suffix_refl _, List.suffix_refl _,
            .withdrawWal rfl hS.1.held⟩
        refine ⟨hg, Or.inl ⟨rfl, hS.step hg ?_ rfl⟩⟩
        rw [Ledger.clearWal, if_pos hwhy, ← hledger]
        rfl
      · rw [if_neg hwhy]
        have hg : Guar env cfg pid s (s.setWal none) := by
          refine ⟨fun _ _ _ => Iff.rfl, List.suffix_refl _, List.suffix_refl _,
            .removeWal rfl hS.1.held fun ho => ?_⟩
          rw [State.pendingWal_eq, hledger]
          exact hclear hwhy ho
        refine ⟨hg, Or.inl ⟨rfl, hS.step hg ?_ rfl⟩⟩
        rw [Ledger.clearWal, if_neg hwhy, ← hledger]
        rfl
    · exact ⟨Guar.fault pid s _, Or.inr ⟨rfl, hS.fault _, s.failed_fault _⟩⟩
  refine Spec.bind hop fun removed => ?_
  split
  · rename_i hremoved
    refine Spec.bind ((Spec.passive (o := .syncIndexDir .walClear)
      (A := Section env cfg L₀ pid (l.clearWal why)) (V := fun r => r = true)
      (fun _ _ => rfl) (fun _ => trivial) fun _ _ => rfl).conseq ?_ fun _ _ h => h) fun synced => ?_
    · rintro s (⟨-, h⟩ | ⟨h, -⟩)
      · exact h
      · exact absurd (hremoved.symm.trans h) (by simp)
    · split
      · exact Spec.ret fun s h => Or.inl ⟨rfl, h.1⟩
      · rename_i hsynced
        refine Spec.ret ?_
        rintro s ⟨h, hr | ⟨-, hfail⟩⟩
        · exact absurd hr hsynced
        · exact Or.inr (Or.inl ⟨by simp, h, hfail⟩)
  · rename_i hremoved
    refine Spec.ret ?_
    rintro s (⟨h, -⟩ | ⟨-, h, hfail⟩)
    · exact absurd h hremoved
    · exact Or.inr (Or.inr ⟨by simp, h, hfail⟩)

end Wal

/-! ## Publishing the segments of a batch -/

section Publish

variable {units : List SegmentUnit} {slices : List Slice} {ds : List SegmentDescriptor}

/-- The newest WAL is that of the batch. -/
def Logged (l : Ledger) (m : Manifest) (ops : List IngestOperation) : Prop :=
  ∃ n rest, l.wals = ⟨n, ⟨m.generation, ops⟩, .pending⟩ :: rest

/-- What is known while the segments of a batch are written. -/
def Writing (pid : Pid) (l : Ledger) (m : Manifest) (ops : List IngestOperation) (s : State) :
    Prop := s.Frozen pid l ∧ s.Provided (Logged l m ops)

instance : Stable (Rely env cfg L₀) pid (Writing pid l m ops) := by
  unfold Writing
  infer_instance

instance : Framed (Writing pid l m ops) := by
  unfold Writing
  infer_instance

instance : Unlatched (Writing pid l m ops) := by
  unfold Writing
  infer_instance

/-- The segments of a batch, added to a manifest. -/
theorem publishes_of_segments (hunique : validateUniqueIds ops = .ok)
    (hunits : operationUnits env cfg ops = .ok units) (hc : Covers slices 0 units.length)
    (hseg : SegmentsOf env cfg (m.generation + 1) units slices ds) :
    Publishes env cfg m { m with generation := m.generation + 1, segments := m.segments ++ ds }
      ops := by
  have hids : (ops.map (·.id)).Nodup := by
    by_contra hnot
    rw [validateUniqueIds, if_neg hnot] at hunique
    cases hunique
  have hok := unitsOk_slice hc (operationUnits_ok hunits) ((operationUnits_ids hunits).symm ▸ hids)
  refine ⟨rfl, ⟨ds, rfl⟩, ?_⟩
  rw [Manifest.logical_eq, Manifest.logical_eq, segmentEvents_append, hseg.events hok]
  exact current_batch hids (by rw [flatten_units hc]; exact hunits) _

/-- The manifest of an update is valid. -/
theorem manifestOk_append (hl : ManifestOk env cfg m)
    (hds : ∀ d ∈ ds, Described env cfg (m.generation + 1) d) (hnew : ∀ d ∈ ds, d.id ∉ m.ids)
    (hnd : (ds.map (·.id)).Nodup) (hcount : m.segments.length + ds.length ≤ maxSegments) :
    ManifestOk env cfg
      { m with generation := m.generation + 1, segments := m.segments ++ ds } := by
  obtain ⟨-, -, hfp, hvalid, hids⟩ := manifestValidate_eq_ok.mp hl.valid
  refine ⟨manifestValidate_eq_ok.mpr ⟨by simp, ?_, hfp, ?_, ?_⟩, hl.fingerprint, ?_⟩
  · rw [List.length_append]
    exact hcount
  · intro d hd
    rcases List.mem_append.mp hd with hd | hd
    · exact hvalid d hd
    · obtain ⟨g, us, hdesc, -⟩ := hds d hd
      rw [hdesc]
      exact describe_valid d.id g us
  · rw [Manifest.ids, List.map_append, List.nodup_append]
    refine ⟨hids, hnd, ?_⟩
    rintro a ha b hb rfl
    obtain ⟨d, hd, rfl⟩ := List.mem_map.mp hb
    exact hnew d hd ha
  · intro d hd
    rcases List.mem_append.mp hd with hd | hd
    · obtain ⟨g, us, h₁, h₂, h₃, h₄⟩ := hl.described d hd
      exact ⟨g, us, h₁, h₂, h₃, Nat.le_succ_of_le h₄⟩
    · exact hds d hd

/-- What a process has when it has published the segments of a batch. -/
def UpdatePublished (env : Env) (cfg : Config) (L₀ : Logical) (pid : Pid) (l : Ledger)
    (m : Manifest) (ops : List IngestOperation) (s : State) : Prop :=
  ∃ m', Publishes env cfg m m' ops ∧ s.Frozen pid (l.publishUpdate m' ops) ∧ Inv env cfg L₀ s

instance : Stable (Rely env cfg L₀) pid (UpdatePublished env cfg L₀ pid l m ops) := by
  unfold UpdatePublished
  infer_instance

instance : Unlatched (UpdatePublished env cfg L₀ pid l m ops) := by
  unfold UpdatePublished
  infer_instance

/-- What is known when the segments of a batch are complete. -/
def Written.Ready (env : Env) (cfg : Config) (L₀ : Logical) (pid : Pid) (l : Ledger) (m : Manifest)
    (ops : List IngestOperation) (ds : List SegmentDescriptor) (s : State) : Prop :=
  Writing pid l m ops s ∧ Building env cfg L₀ pid .seg (m.generation + 1) (segmentDirs ds) s

instance : Stable (Rely env cfg L₀) pid (Written.Ready env cfg L₀ pid l m ops ds) := by
  unfold Written.Ready
  infer_instance

instance : Unlatched (Written.Ready env cfg L₀ pid l m ops ds) := by
  unfold Written.Ready
  infer_instance

/-- Installing the manifest of an update. -/
theorem Written.Ready.install {s : State} (h : Written.Ready env cfg L₀ pid l m ops ds s)
    (hl : LedgerOk env cfg L₀ l m) {m' : Manifest} (hsegs : m'.segments = m.segments ++ ds)
    (hmok : ManifestOk env cfg m') (hpub : Publishes env cfg m m' ops) :
    Guar env cfg pid s (s.install m' (.update ops)) ∧
      UpdatePublished env cfg L₀ pid l m ops (s.install m' (.update ops)) := by
  obtain ⟨⟨hfrozen, hlogged⟩, hB⟩ := h
  have hledger := hfrozen.ledger
  have hnames : s.history.names = l.names := congrArg Ledger.names hledger
  have hwals : s.history.wals = l.wals := congrArg Ledger.wals hledger
  have hguar : Guar env cfg pid s (s.install m' (.update ops)) := by
    refine ⟨fun _ _ _ => Iff.rfl, List.suffix_refl _, List.suffix_refl _,
      .update m m' ops ds rfl hfrozen.held ?_ hpub.generation hsegs hmok ?_ hB.newSegments ?_
        hpub.logical ?_⟩
    · exact (congrArg Ledger.manifest hledger).trans hl.manifest
    · rw [hnames]
      exact hl.listed
    · intro d hd
      rw [(hB.names _ (mem_segmentDirs hd)).2, hpub.generation]
    · rw [hwals]
      exact hlogged
  refine ⟨hguar, m', hpub, ⟨hfrozen.held, ?_⟩, hguar.inv hB.inv⟩
  rw [State.install_update_ledger, hledger]

/-- **The specification of the publication of a batch.** -/
theorem publishUpdate_spec (hl : LedgerOk env cfg L₀ l m) (hgen : m.generation ≠ uint64Max)
    (hunique : validateUniqueIds ops = .ok) (hunits : operationUnits env cfg ops = .ok units)
    (hc : Covers slices 0 units.length)
    (hseg : SegmentsOf env cfg (m.generation + 1) units slices ds)
    (hcount : m.segments.length + ds.length ≤ maxSegments) :
    Spec env cfg L₀ strict pid
      (fun s => Written.Ready env cfg L₀ pid l m ops ds s ∧ s.Free pid .manifest)
      (publishUpdate env m ops ds)
      (PublishOutcome pid .ok
        (fun s => Written.Ready env cfg L₀ pid l m ops ds s ∧ s.Free pid .manifest)
        fun s => UpdatePublished env cfg L₀ pid l m ops s ∧ s.Free pid .manifest) := by
  have hids : (ops.map (·.id)).Nodup := by
    by_contra hnot
    rw [validateUniqueIds, if_neg hnot] at hunique
    cases hunique
  have hok := unitsOk_slice hc (operationUnits_ok hunits) ((operationUnits_ids hunits).symm ▸ hids)
  have hdescribed := hseg.described (Nat.succ_pos _) hok
  rw [publishUpdate]
  refine Spec.bind (Spec.passive (o := .syncSegments) (V := fun r => r = true) (fun _ _ => rfl)
    (fun _ => trivial) fun _ _ => rfl) fun synced => ?_
  split
  · refine Spec.bind ((verifySegments_spec hdescribed fun s h => h.1.2.newSegments.files).conseq
      (fun s h => h.1) fun _ _ h => h) fun status => ?_
    split
    · rename_i hstatus
      refine Spec.ret ?_
      rintro s ⟨h, hok | hfault⟩
      · exact absurd hok hstatus
      · exact Or.inr (Or.inr ⟨hstatus, h, Or.inr hfault⟩)
    · intro s hs
      -- the names are new and all different, so that the segments can be added
      have hnames : s.history.names = l.names := congrArg Ledger.names hs.1.1.1.1.ledger
      have hnew : ∀ d ∈ ds, d.id ∉ m.ids := fun d hd hid =>
        hs.1.1.2.newSegments.fresh d hd (hnames ▸ hl.listed d.id hid)
      have hnd := hs.1.1.2.nodup_ids
      have hmok := manifestOk_append hl.ok hdescribed hnew hnd hcount
      have hpub := publishes_of_segments hunique hunits hc hseg
      set m' : Manifest := { m with generation := m.generation + 1, segments := m.segments ++ ds }
      have hpublish : Spec env cfg L₀ strict pid
          (fun s => Written.Ready env cfg L₀ pid l m ops ds s ∧ s.Free pid .manifest)
          (manifestPublishIfGeneration m.generation m' (.update ops))
          (PublishOutcome pid (saveCheck m')
            (fun s => Written.Ready env cfg L₀ pid l m ops ds s ∧ s.Free pid .manifest)
            fun s => UpdatePublished env cfg L₀ pid l m ops s ∧ s.Free pid .manifest) :=
        manifestPublishIfGeneration_spec hgen
          (fun s h => (congrArg Ledger.manifest h.1.1.ledger).trans hl.manifest) rfl rfl
          fun _ s h => h.install hl rfl hmok hpub
      rw [saveCheck_eq_ok hmok.valid] at hpublish
      rw [Manifest.addSegments_eq hnew hnd hcount]
      exact hpublish s hs.1
  · rename_i hsynced
    refine Spec.ret ?_
    rintro s ⟨h, hr | ⟨-, hfail⟩⟩
    · exact absurd hr hsynced
    · exact Or.inr (Or.inr ⟨by simp, h, Or.inr ⟨_, hfail⟩⟩)

end Publish

/-! ## Writing and publishing a batch -/

section Apply

variable {units : List SegmentUnit} {slices : List Slice} {walActive preserveWal : Bool}

/-- The checks that a batch has to pass once it is planned. -/
def batchCheck (env : Env) (cfg : Config) (m : Manifest) (units : List SegmentUnit)
    (slices : List Slice) : Status :=
  (segmentCountValidate m.segments.length slices.length).next
    (planCheck env cfg .seg (m.generation + 1) units slices)

/-- **What becomes of a planned batch.**  The three cases: it is published; it is published, and a
failing step makes the process report otherwise; it is refused. -/
def Applied (env : Env) (cfg : Config) (L₀ : Logical) (pid : Pid) (l : Ledger) (m : Manifest)
    (ops : List IngestOperation) (units : List SegmentUnit) (slices : List Slice)
    (walActive preserveWal : Bool) (status : Status) (s : State) : Prop :=
  ∃ l', Section env cfg L₀ pid l' s ∧
    ((status = .ok ∧
      (planCheck env cfg .seg (m.generation + 1) units slices ≠ .segmentCapacityExceeded →
        batchCheck env cfg m units slices = .ok) ∧
      ∃ m', Publishes env cfg m m' ops ∧
        l' = if walActive then (l.publishUpdate m' ops).clearWal .published
          else l.publishUpdate m' ops) ∨
    (status ≠ .ok ∧ s.Faulty pid ∧ ∃ m', Publishes env cfg m m' ops ∧ l'.manifest = some m') ∨
    (status ≠ .ok ∧
      ((l' = l.clearWal .withdrawn ∧ (walActive && !preserveWal) = true) ∨
        (l' = l ∧ ((walActive && !preserveWal) = false ∨
          s.Failed pid (.unlinkWal .withdrawn)))) ∧
      (planCheck env cfg .seg (m.generation + 1) units slices ≠ .segmentCapacityExceeded →
        status = batchCheck env cfg m units slices ∨ s.Faulty pid)))

instance {status : Status} : Stable (Rely env cfg L₀) pid
    (Applied env cfg L₀ pid l m ops units slices walActive preserveWal status) := by
  unfold Applied
  infer_instance

/-- A batch that is published leaves no pending WAL. -/
theorem pendingWal_publishUpdate {m' : Manifest} (hpub : Publishes env cfg m m' ops)
    (hwal : l.wal = some ⟨m.generation, ops⟩) :
    (l.publishUpdate m' ops).pendingWal = false := by
  simp [Ledger.pendingWal, Ledger.publishUpdate, hwal, hpub.generation]

/-- After the publication: clear the WAL. -/
theorem applySegments_published (hwal : walActive = true → l.wal = some ⟨m.generation, ops⟩)
    (hcheck : planCheck env cfg .seg (m.generation + 1) units slices ≠ .segmentCapacityExceeded →
      batchCheck env cfg m units slices = .ok) :
    Spec env cfg L₀ strict pid
      (fun s => UpdatePublished env cfg L₀ pid l m ops s ∧ s.Free pid .manifest)
      (if walActive = true then updateWalClear .published else pure .ok)
      (Applied env cfg L₀ pid l m ops units slices walActive preserveWal) := by
  rintro s ⟨⟨m', hpub, hfrozen, hinv⟩, hfree⟩
  have hsec : Section env cfg L₀ pid (l.publishUpdate m' ops) s := ⟨hfrozen, hfree, hinv⟩
  cases walActive with
  | false =>
    rw [if_neg (by simp)]
    refine Spec.ret (A := Section env cfg L₀ pid (l.publishUpdate m' ops)) (fun s h => ?_) s hsec
    exact ⟨_, h, Or.inl ⟨rfl, hcheck, m', hpub, by simp⟩⟩
  | true =>
    rw [if_pos rfl]
    refine ((updateWalClear_spec .published).conseq
      (fun s (h : Section env cfg L₀ pid (l.publishUpdate m' ops) s) => ⟨h, fun _ _ => ?_⟩) ?_) s
      hsec
    · exact pendingWal_publishUpdate hpub (hwal rfl)
    · rintro status s (⟨hok, h⟩ | ⟨hne, h, hfail⟩ | ⟨hne, h, hfail⟩)
      · exact ⟨_, h, Or.inl ⟨hok, hcheck, m', hpub, by simp⟩⟩
      · exact ⟨_, h, Or.inr (Or.inl ⟨hne, ⟨_, hfail⟩, m', hpub, rfl⟩)⟩
      · exact ⟨_, h, Or.inr (Or.inl ⟨hne, ⟨_, hfail⟩, m', hpub, rfl⟩)⟩

/-- Why a batch is refused: because of its checks, or because something has failed. -/
def Refusal (env : Env) (cfg : Config) (pid : Pid) (m : Manifest) (units : List SegmentUnit)
    (slices : List Slice) (status : Status) (s : State) : Prop :=
  planCheck env cfg .seg (m.generation + 1) units slices ≠ .segmentCapacityExceeded →
    status = batchCheck env cfg m units slices ∨ s.Faulty pid

instance {status : Status} :
    Stable (Rely env cfg L₀) pid (Refusal env cfg pid m units slices status) := by
  unfold Refusal
  infer_instance

instance {status : Status} : Framed (Refusal env cfg pid m units slices status) :=
  ⟨fun h _ _ h₃ _ hp => (h hp).imp_right fun ⟨o, ho⟩ => ⟨o, h₃.subset ho⟩⟩

/-- After a failure before the publication: withdraw the WAL, unless this is a replay. -/
theorem applySegments_refused {status : Status} (hne : status ≠ .ok) :
    Spec env cfg L₀ strict pid (fun s => Section env cfg L₀ pid l s ∧
        Refusal env cfg pid m units slices status s)
      (if (walActive && !preserveWal) = true then do
        let _ ← updateWalClear .withdrawn
        pure status
      else pure status)
      (Applied env cfg L₀ pid l m ops units slices walActive preserveWal) := by
  cases hw : walActive && !preserveWal with
  | false =>
    rw [if_neg (by simp)]
    exact Spec.ret fun s h => ⟨l, h.1, Or.inr (Or.inr ⟨hne, Or.inr ⟨rfl, Or.inl hw⟩, h.2⟩)⟩
  | true =>
    rw [if_pos rfl]
    have hkeep : ∀ {s s'}, Refusal env cfg pid m units slices status s → Guar env cfg pid s s' →
        Refusal env cfg pid m units slices status s' := fun h hg hp =>
      (h hp).imp_right fun ⟨o, ho⟩ => ⟨o, hg.faults.subset ho⟩
    refine Spec.bind ((Triple.frame hkeep (updateWalClear_spec .withdrawn)).conseq
      (fun s h => ⟨⟨h.1, fun h => absurd rfl h⟩, h.2⟩) fun _ _ h => h) fun cleared => ?_
    refine Spec.ret ?_
    rintro s ⟨⟨-, h⟩ | ⟨-, h, -⟩ | ⟨-, h, hfail⟩, hwhy⟩
    · exact ⟨_, h, Or.inr (Or.inr ⟨hne, Or.inl ⟨rfl, hw⟩, hwhy⟩)⟩
    · exact ⟨_, h, Or.inr (Or.inr ⟨hne, Or.inl ⟨rfl, hw⟩, hwhy⟩)⟩
    · exact ⟨_, h, Or.inr (Or.inr ⟨hne, Or.inr ⟨rfl, Or.inr hfail⟩, hwhy⟩)⟩

/-- After a publication that went unnoticed: remove the directories all the same. -/
theorem applySegments_misled {status : Status} (hne : status ≠ .ok) {dirs : List SegmentId}
    (hdirs : ∀ id ∈ dirs, id.kind = .seg) :
    Spec env cfg L₀ strict pid
      (fun s => (UpdatePublished env cfg L₀ pid l m ops s ∧ s.Free pid .manifest) ∧ s.Misled pid)
      (do
        cleanupSegmentDirs dirs
        if (walActive && !preserveWal) = true then do
          let _ ← updateWalClear .withdrawn
          pure status
        else pure status)
      (Applied env cfg L₀ pid l m ops units slices walActive preserveWal) := by
  rintro s ⟨⟨⟨m', hpub, hfrozen, hinv⟩, hfree⟩, hmis⟩
  have hstart : Cleaning env cfg L₀ pid (fun s => s.Frozen pid (l.publishUpdate m' ops) ∧
      s.Free pid .manifest ∧ s.Misled pid) dirs s := by
    refine ⟨⟨hfrozen, hfree, hmis⟩, ⟨fun id hid => ?_, Or.inr hmis⟩, hinv⟩
    rw [hdirs id hid]
    exact hfrozen.held
  have hmislead : ∀ {s : State}, s.Misled pid → s.Faulty pid := by
    rintro s ⟨o, -, ho⟩
    exact ⟨o, ho⟩
  refine (Spec.bind (cleanupSegmentDirs_spec fun _ h => h) fun _ => ?_) s hstart
  cases hw : walActive && !preserveWal with
  | false =>
    rw [if_neg (by simp)]
    refine Spec.ret ?_
    rintro s ⟨⟨hfrozen, hfree, hmis⟩, -, hinv⟩
    exact ⟨_, ⟨hfrozen, hfree, hinv⟩, Or.inr (Or.inl ⟨hne, hmislead hmis, m', hpub, rfl⟩)⟩
  | true =>
    rw [if_pos rfl]
    have hkeep : ∀ {s s'}, s.Misled pid → Guar env cfg pid s s' → s'.Misled pid := by
      rintro s s' ⟨o, ho, hm⟩ hg
      exact ⟨o, ho, hg.faults.subset hm⟩
    refine Spec.bind ((Triple.frame hkeep (updateWalClear_spec .withdrawn)).conseq
      (fun s h => ⟨⟨⟨h.1.1, h.1.2.1, h.2.2⟩, fun h => absurd rfl h⟩, h.1.2.2⟩)
      fun _ _ h => h) fun cleared => ?_
    refine Spec.ret ?_
    rintro s ⟨⟨-, h⟩ | ⟨-, h, -⟩ | ⟨-, h, -⟩, hmis⟩
    all_goals exact ⟨_, h, Or.inr (Or.inl ⟨hne, hmislead hmis, m', hpub, rfl⟩)⟩

theorem segmentCountValidate_eq_ok {existing added : Nat}
    (h : segmentCountValidate existing added = .ok) : existing + added ≤ maxSegments := by
  unfold segmentCountValidate at h
  split at h
  · cases h
  · omega

/-- **The specification of the part of `apply_operations` after the WAL.** -/
theorem applySegments_spec (hl : LedgerOk env cfg L₀ l m) (hgen : m.generation ≠ uint64Max)
    (hunique : validateUniqueIds ops = .ok) (hunits : operationUnits env cfg ops = .ok units)
    (hc : Covers slices 0 units.length)
    (hwal : walActive = true → l.wal = some ⟨m.generation, ops⟩) :
    Spec env cfg L₀ strict pid
      (fun s => Section env cfg L₀ pid l s ∧ s.Provided (Logged l m ops))
      (applySegments env cfg m ops units slices walActive preserveWal)
      (Applied env cfg L₀ pid l m ops units slices walActive preserveWal) := by
  rw [applySegments]
  refine Spec.bind ((writeSegments_spec (F := fun s => Writing pid l m ops s ∧ s.Free pid .manifest)
    (fun ids => cleanupSegmentDirs_spec fun _ h => h) (units.length + 1) slices
    (Nat.succ_pos _) hc).conseq ?_ fun _ _ h => h) fun w => ?_
  · rintro s ⟨⟨hfrozen, hfree, hinv⟩, hlogged⟩
    refine ⟨⟨⟨hfrozen, hlogged⟩, hfree⟩, (Upcoming.building ⟨hfrozen.held, fun id hid _ => ?_⟩ hinv)⟩
    have hnames : s.history.names = l.names := congrArg Ledger.names hfrozen.ledger
    rw [hnames] at hid
    exact Nat.lt_succ_of_le (hl.past id hid)
  · by_cases hstatus : w.status = .ok
    · -- the segments are complete
      rintro s ⟨⟨hwriting, hfree⟩, ⟨-, slices', hc', hcount, hplan, hsame, -, hseg, hB, hdirs⟩ |
        ⟨hne, -⟩⟩
      · have hlen := segmentCountValidate_eq_ok hcount
        have hkinds : ∀ id ∈ w.dirs, id.kind = .seg := by
          intro id hid
          rw [hdirs] at hid
          obtain ⟨d, hd, rfl⟩ := List.mem_map.mp hid
          exact (hB.names _ (mem_segmentDirs hd)).1
        have hcheck : planCheck env cfg .seg (m.generation + 1) units slices ≠
            .segmentCapacityExceeded → batchCheck env cfg m units slices = .ok := by
          intro h
          obtain rfl := hsame h
          rw [batchCheck, hcount, hplan]
          rfl
        rw [List.Forall₂.length_eq hseg] at hlen
        rw [if_neg (not_not.mpr hstatus)]
        refine (Spec.bind (publishUpdate_spec hl hgen hunique hunits hc' hseg hlen)
          fun status => ?_) s ⟨⟨hwriting, hB⟩, hfree⟩
        by_cases hok : status = .ok
        · rw [if_pos hok]
          refine (applySegments_published hwal hcheck).conseq ?_ fun _ _ h => h
          rintro s (⟨-, h⟩ | ⟨hne, -⟩ | ⟨hne, -⟩)
          · exact h
          · exact absurd hok hne
          · exact absurd hok hne
        · rw [if_neg hok]
          rintro s (⟨h, -⟩ | ⟨-, h, hmis⟩ | ⟨-, h, hwhy⟩)
          · exact absurd h hok
          · exact applySegments_misled hok hkinds s ⟨h, hmis⟩
          · have hstart : Cleaning env cfg L₀ pid (fun s => s.Frozen pid l ∧ s.Free pid .manifest ∧
                Refusal env cfg pid m units slices status s) w.dirs s := by
              refine ⟨⟨h.1.1.1, h.2, fun _ => Or.inr ?_⟩, ?_, h.1.2.inv⟩
              · exact hwhy.resolve_left hok
              · have := h.1.2.disposable
                rw [segmentDirs, List.map_map] at this
                rw [hdirs]
                exact this
            refine (Spec.bind (cleanupSegmentDirs_spec fun _ h => h) fun _ => ?_) s hstart
            exact (applySegments_refused hok).conseq
              (fun s h => ⟨⟨h.1.1, h.1.2.1, h.2.2⟩, h.1.2.2⟩) fun _ _ h => h
      · exact absurd hstatus hne
    · -- the segments are not complete
      rw [if_pos hstatus]
      rintro s ⟨⟨hwriting, hfree⟩, ⟨hok, -⟩ | ⟨-, ⟨dirs, hB, hdirs⟩, hwhy⟩⟩
      · exact absurd hok hstatus
      · have hstart : Cleaning env cfg L₀ pid (fun s => s.Frozen pid l ∧ s.Free pid .manifest ∧
            Refusal env cfg pid m units slices w.status s) w.dirs s :=
          ⟨⟨hwriting.1, hfree, hwhy⟩, hdirs ▸ hB.disposable, hB.inv⟩
        refine (Spec.bind (B := fun status s => status = w.status ∧ Cleaning env cfg L₀ pid
          (fun s => s.Frozen pid l ∧ s.Free pid .manifest ∧
            Refusal env cfg pid m units slices w.status s) w.dirs s)
          (Spec.ret fun s h => ⟨rfl, h⟩) fun status => ?_) s hstart
        rintro s ⟨rfl, hs⟩
        rw [if_neg hstatus]
        refine (Spec.bind (cleanupSegmentDirs_spec fun _ h => h) fun _ => ?_) s hs
        exact (applySegments_refused hstatus).conseq
          (fun s h => ⟨⟨h.1.1, h.1.2.1, h.2.2⟩, h.1.2.2⟩) fun _ _ h => h

end Apply

/-! ## `apply_operations` -/

section Sections

/-- Loading the manifest and comparing its configuration. -/
theorem manifestLoadForConfig_spec {A : State → Prop} [Stable (Rely env cfg L₀) pid A]
    (hm : ∀ s, A s → s.disk.manifest = some m)
    (hfp : m.configFingerprint = env.configFingerprint cfg) :
    Spec env cfg L₀ strict pid A (manifestLoadForConfig env cfg) fun r s =>
      A s ∧ (r = .ok m ∨ (r = .error .ioError ∧ s.Faulty pid)) := by
  refine Spec.bind (Spec.passive (o := .loadManifest) (V := fun r => r = .ok m) (fun _ _ => rfl)
    (fun _ => trivial) fun s h => by rw [hm s h]) fun r => ?_
  cases r with
  | error e =>
    refine Spec.ret ?_
    rintro s ⟨h, hr | ⟨hr, hfail⟩⟩
    · cases hr
    · cases hr
      exact ⟨h, Or.inr ⟨rfl, _, hfail⟩⟩
  | ok m' =>
    intro s hs
    obtain rfl : m' = m := by
      rcases hs.2 with h | ⟨h, -⟩
      · exact Except.ok.inj h
      · cases h
    dsimp only
    rw [if_neg (not_not.mpr hfp)]
    refine Spec.ret (A := A) (fun s h => ?_) s hs.1
    exact ⟨h, Or.inl rfl⟩

/-- **The status of an update that meets no failing step.** -/
def applyCheck (env : Env) (cfg : Config) (m : Manifest) (ops : List IngestOperation) : Status :=
  (validateUniqueIds ops).next <|
  if m.generation = uint64Max ∨ segmentCountValidate m.segments.length 1 ≠ .ok then .outOfRange
  else
    match operationUnits env cfg ops with
    | .error e => e
    | .ok units =>
      match segmentPlan env cfg units 31 (sizePolicy env.testPayloadLimit) with
      | .error e => e
      | .ok slices => batchCheck env cfg m units slices

/-- No slice of the plan of the batch is found too large when it is written. -/
def Fits (env : Env) (cfg : Config) (m : Manifest) (ops : List IngestOperation) : Prop :=
  ∀ units slices, operationUnits env cfg ops = .ok units →
    segmentPlan env cfg units 31 (sizePolicy env.testPayloadLimit) = .ok slices →
    planCheck env cfg .seg (m.generation + 1) units slices ≠ .segmentCapacityExceeded

/-- **What an update leaves**, under `writer.lock`. -/
def Updated (env : Env) (cfg : Config) (L₀ : Logical) (pid : Pid) (l : Ledger) (m : Manifest)
    (ops : List IngestOperation) (status : Status) (s : State) : Prop :=
  ∃ l', Section env cfg L₀ pid l' s ∧
    ((status = .ok ∧ (Fits env cfg m ops → applyCheck env cfg m ops = .ok) ∧ l'.wal = none ∧
      ∃ m', Publishes env cfg m m' ops ∧ l'.manifest = some m') ∨
    (status ≠ .ok ∧ s.Faulty pid ∧ ∃ m', Publishes env cfg m m' ops ∧ l'.manifest = some m') ∨
    (status ≠ .ok ∧ l'.manifest = l.manifest ∧
      (l'.wal = l.wal ∨ l'.wal = none ∨ (l'.wal = some ⟨m.generation, ops⟩ ∧
        (s.Failed pid (.syncIndexDir .walWrite) ∨ s.Failed pid (.unlinkWal .withdrawn)))) ∧
      (Fits env cfg m ops → status = applyCheck env cfg m ops ∨ s.Faulty pid)))

instance {status : Status} :
    Stable (Rely env cfg L₀) pid (Updated env cfg L₀ pid l m ops status) := by
  unfold Updated
  infer_instance

/-- A batch that is refused before its WAL is written. -/
theorem Updated.refused {status : Status} {s : State} (hs : Section env cfg L₀ pid l s)
    (hne : status ≠ .ok)
    (hwhy : Fits env cfg m ops → status = applyCheck env cfg m ops ∨ s.Faulty pid) :
    Updated env cfg L₀ pid l m ops status s :=
  ⟨l, hs, Or.inr (Or.inr ⟨hne, rfl, Or.inl rfl, hwhy⟩)⟩

theorem LedgerOk.installWal (hl : LedgerOk env cfg L₀ l m) {w : Wal}
    (hbase : w.base = m.generation) (hacc : Accepted env cfg m w.operations) :
    LedgerOk env cfg L₀ (l.installWal w) m :=
  ⟨hl.manifest, hl.ok, hl.listed, hl.past, hl.logical, List.forall_mem_cons.mpr
    ⟨Nat.lt_succ_self _, fun r hr => Nat.lt_succ_of_lt (hl.serials r hr)⟩, by
      rintro w' ⟨rfl⟩
      exact ⟨le_of_eq hbase, fun _ => hacc⟩⟩

/-- The WAL is written, then the batch. -/
theorem applySection_planned {units : List SegmentUnit} {slices : List Slice}
    (hl : LedgerOk env cfg L₀ l m) (hacc : Accepted env cfg m ops)
    (hunits : operationUnits env cfg ops = .ok units)
    (hplan : segmentPlan env cfg units 31 (sizePolicy env.testPayloadLimit) = .ok slices)
    (hcheck : applyCheck env cfg m ops = batchCheck env cfg m units slices) :
    Spec env cfg L₀ strict pid
      (fun s => Section env cfg L₀ pid l s ∧ s.Provided (l.pendingWal = false))
      (do
        let status ← updateWalWrite ⟨m.generation, ops⟩
        if status ≠ .ok then pure status
        else applySegments env cfg m ops units slices true false)
      (Updated env cfg L₀ pid l m ops) := by
  refine Spec.bind (updateWalWrite_spec hl.manifest rfl hacc) fun status => ?_
  split
  · rename_i hstatus
    refine Spec.ret ?_
    rintro s (⟨h, -⟩ | ⟨-, h, hfail⟩ | ⟨-, h, hfail⟩)
    · exact absurd h hstatus
    · exact ⟨_, h, Or.inr (Or.inr ⟨hstatus, rfl, Or.inr (Or.inr ⟨rfl, Or.inl hfail⟩),
        fun _ => Or.inr ⟨_, hfail⟩⟩)⟩
    · exact .refused h hstatus fun _ => Or.inr ⟨_, hfail⟩
  · rename_i hstatus
    rw [not_not] at hstatus
    have hl' : LedgerOk env cfg L₀ (l.installWal ⟨m.generation, ops⟩) m := hl.installWal rfl hacc
    refine (applySegments_spec hl' hacc.generation hacc.unique hunits
      (segmentPlan_covers hplan) fun _ => rfl).conseq ?_ ?_
    · rintro s (⟨-, h⟩ | ⟨hne, -⟩ | ⟨hne, -⟩)
      · exact ⟨h, fun _ => ⟨_, _, rfl⟩⟩
      · exact absurd hstatus hne
      · exact absurd hstatus hne
    · rintro status s ⟨l', hs, ⟨hok, hc, m', hpub, rfl⟩ | ⟨hne, hfault, m', hpub, hm'⟩ |
        ⟨hne, hwal, hwhy⟩⟩
      · refine ⟨_, hs, Or.inl ⟨hok, fun hfits => ?_, rfl, m', hpub, rfl⟩⟩
        rw [hcheck]
        exact hc (hfits units slices hunits hplan)
      · exact ⟨l', hs, Or.inr (Or.inl ⟨hne, hfault, m', hpub, hm'⟩)⟩
      · refine ⟨l', hs, Or.inr (Or.inr ⟨hne, ?_, ?_, fun hfits => ?_⟩)⟩
        · rcases hwal with ⟨rfl, -⟩ | ⟨rfl, -⟩ <;> rfl
        · rcases hwal with ⟨rfl, -⟩ | ⟨rfl, hno | hfail⟩
          · exact Or.inr (Or.inl rfl)
          · cases hno
          · exact Or.inr (Or.inr ⟨rfl, Or.inr hfail⟩)
        · rw [hcheck]
          exact hwhy (hfits units slices hunits hplan)

/-- The part of `apply_operations` before the WAL: the batch is refused, or what follows starts from a
plan. -/
theorem applySection_prefix {A : State → Prop} [Stable (Rely env cfg L₀) pid A]
    {B : Status → State → Prop} [∀ status, Stable (Rely env cfg L₀) pid (B status)]
    {writeWal : Bool} {target : Nat} (htarget : target = 0 ∨ m.generation + 1 = target)
    (hm : ∀ s, A s → s.disk.manifest = some m)
    (hfp : m.configFingerprint = env.configFingerprint cfg)
    (hrefused : ∀ status s, A s → status ≠ .ok →
      (status = applyCheck env cfg m ops ∨ s.Faulty pid) → B status s)
    (hplanned : ∀ units slices, operationUnits env cfg ops = .ok units →
      segmentPlan env cfg units 31 (sizePolicy env.testPayloadLimit) = .ok slices →
      validateUniqueIds ops = .ok → m.generation ≠ uint64Max →
      segmentCountValidate m.segments.length 1 = .ok →
      applyCheck env cfg m ops = batchCheck env cfg m units slices →
      Spec env cfg L₀ strict pid A
        (if writeWal then do
          let status ← updateWalWrite ⟨m.generation, ops⟩
          if status ≠ .ok then pure status
          else applySegments env cfg m ops units slices true false
        else applySegments env cfg m ops units slices (target ≠ 0) (target ≠ 0)) B) :
    Spec env cfg L₀ strict pid A (applySection env cfg ops writeWal target) B := by
  rw [applySection]
  split
  · rename_i hunique
    refine Spec.ret fun s h => hrefused _ s h hunique (Or.inl ?_)
    rw [applyCheck, Status.next, if_neg hunique]
  · rename_i hunique
    rw [not_not] at hunique
    refine Spec.bind (Spec.passive (o := .loadConfig) (V := fun r => r = true) (fun _ _ => rfl)
      (fun _ => trivial) fun _ _ => rfl) fun loaded => ?_
    split
    · refine Spec.bind ((manifestLoadForConfig_spec hm hfp).conseq (fun s h => h.1)
        fun _ _ h => h) fun r => ?_
      cases r with
      | error e =>
        refine Spec.ret ?_
        rintro s ⟨h, hr | ⟨hr, hfault⟩⟩
        · cases hr
        · cases hr
          exact hrefused _ s h (by simp) (Or.inr hfault)
      | ok m₁ =>
        intro s hs
        obtain rfl : m₁ = m := by
          rcases hs.2 with h | ⟨h, -⟩
          · exact Except.ok.inj h
          · cases h
        refine (?_ : Spec env cfg L₀ strict pid A _ B) s hs.1
        dsimp only
        split
        · rename_i hrange
          refine Spec.ret fun s h => hrefused _ s h (by simp) (Or.inl ?_)
          rw [applyCheck, hunique, Status.ok_next, if_pos hrange]
        · rename_i hrange
          rw [if_neg (by rintro ⟨h₁, h₂⟩; exact h₂ (htarget.resolve_left h₁))]
          cases hunits : operationUnits env cfg ops with
          | error e =>
            refine Spec.ret fun s h =>
              hrefused _ s h ((refuses_operationUnits env cfg ops).ne_ok hunits) (Or.inl ?_)
            rw [applyCheck, hunique, Status.ok_next, if_neg hrange, hunits]
          | ok units =>
            refine Spec.bind (Spec.passive (o := .mkdirSegments) (V := fun r => r = true)
              (fun _ _ => rfl) (fun _ => trivial) fun _ _ => rfl) fun made => ?_
            split
            · cases hplan : segmentPlan env cfg units 31 (sizePolicy env.testPayloadLimit) with
              | error e =>
                refine Spec.ret fun s h => hrefused _ s h.1
                  ((refuses_segmentPlan env cfg _ _ _).ne_ok hplan) (Or.inl ?_)
                rw [applyCheck, hunique, Status.ok_next, if_neg hrange, hunits]
                simp only [hplan]
              | ok slices =>
                have hcheck : applyCheck env cfg m₁ ops = batchCheck env cfg m₁ units slices := by
                  rw [applyCheck, hunique, Status.ok_next, if_neg hrange, hunits]
                  simp only [hplan]
                rw [not_or, not_not] at hrange
                exact (hplanned units slices hunits hplan hunique hrange.1 hrange.2 hcheck).conseq
                  (fun s h => h.1) fun _ _ h => h
            · rename_i hmade
              refine Spec.ret ?_
              rintro s ⟨h, hr | ⟨-, hfail⟩⟩
              · exact absurd hr hmade
              · exact hrefused _ s h (by simp) (Or.inr ⟨_, hfail⟩)
    · rename_i hloaded
      refine Spec.ret ?_
      rintro s ⟨h, hr | ⟨-, hfail⟩⟩
      · exact absurd hr hloaded
      · exact hrefused _ s h (by simp) (Or.inr ⟨_, hfail⟩)

/-- **The specification of an update under `writer.lock`.** -/
theorem applySection_spec (hl : LedgerOk env cfg L₀ l m) (hne : ops ≠ [])
    (hlimit : ops.length ≤ updateMaxOperations) :
    Spec env cfg L₀ strict pid
      (fun s => Section env cfg L₀ pid l s ∧ s.Provided (l.pendingWal = false))
      (applySection env cfg ops true 0) (Updated env cfg L₀ pid l m ops) := by
  refine applySection_prefix (Or.inl rfl)
    (fun s h => (congrArg Ledger.manifest h.1.1.ledger).trans hl.manifest) hl.ok.fingerprint
    (fun status s h hstatus hwhy => .refused h.1 hstatus fun _ => hwhy) ?_
  intro units slices hunits hplan hunique hgen hcount hcheck
  exact applySection_planned hl ⟨hne, hlimit, hunique, hgen, hcount, units, slices, hunits, hplan⟩
    hunits hplan hcheck

/-! ## Replaying a WAL -/

/-- The status of a replay that meets no failing step. -/
def replayCheck (env : Env) (cfg : Config) (m : Manifest) (ops : List IngestOperation) : Status :=
  if ops = [] ∨ updateMaxOperations < ops.length then .invalidArgument
  else applyCheck env cfg m ops

/-- **What a replay leaves**, under `writer.lock`. -/
def Replayed (env : Env) (cfg : Config) (L₀ : Logical) (pid : Pid) (l : Ledger) (m : Manifest)
    (ops : List IngestOperation) (status : Status) (s : State) : Prop :=
  ∃ l', Section env cfg L₀ pid l' s ∧
    ((status = .ok ∧ (Fits env cfg m ops → replayCheck env cfg m ops = .ok) ∧ l'.wal = none ∧
      ∃ m', Publishes env cfg m m' ops ∧ l'.manifest = some m') ∨
    (status ≠ .ok ∧ s.Faulty pid ∧ ∃ m', Publishes env cfg m m' ops ∧ l'.manifest = some m') ∨
    (status ≠ .ok ∧ l' = l ∧
      (Fits env cfg m ops → status = replayCheck env cfg m ops ∨ s.Faulty pid)))

instance {status : Status} :
    Stable (Rely env cfg L₀) pid (Replayed env cfg L₀ pid l m ops status) := by
  unfold Replayed
  infer_instance

/-- **The specification of a replay under `writer.lock`.** -/
theorem applyOperations_replay_spec (hl : LedgerOk env cfg L₀ l m)
    (hwal : l.wal = some ⟨m.generation, ops⟩) :
    Spec env cfg L₀ strict pid
      (fun s => Section env cfg L₀ pid l s ∧ s.Provided (Logged l m ops))
      (applyOperations env cfg ops updateMaxOperations true false (m.generation + 1))
      (Replayed env cfg L₀ pid l m ops) := by
  rw [applyOperations]
  split
  · rename_i hlimit
    refine Spec.ret fun s h => ⟨l, h.1, Or.inr (Or.inr ⟨by simp, rfl, fun _ => Or.inl ?_⟩)⟩
    rw [replayCheck, if_pos hlimit]
  · rename_i hlimit
    have hreplay : replayCheck env cfg m ops = applyCheck env cfg m ops := by
      rw [replayCheck, if_neg hlimit]
    rw [if_pos rfl]
    refine applySection_prefix (Or.inr rfl)
      (fun s h => (congrArg Ledger.manifest h.1.1.ledger).trans hl.manifest) hl.ok.fingerprint
      (fun status s h hstatus hwhy => ?_) ?_
    · refine ⟨l, h.1, Or.inr (Or.inr ⟨hstatus, rfl, fun _ => ?_⟩)⟩
      rw [hreplay]
      exact hwhy
    · intro units slices hunits hplan hunique hgen hcount hcheck
      rw [if_neg (by simp)]
      have hnz : decide (m.generation + 1 ≠ 0) = true := by simp
      rw [hnz]
      refine (applySegments_spec hl hgen hunique hunits (segmentPlan_covers hplan)
        fun _ => hwal).conseq (fun s h => h) ?_
      rintro status s ⟨l', hs, ⟨hok, hc, m', hpub, rfl⟩ | ⟨hne, hfault, m', hpub, hm'⟩ |
        ⟨hne, hl', hwhy⟩⟩
      · refine ⟨_, hs, Or.inl ⟨hok, fun hfits => ?_, rfl, m', hpub, rfl⟩⟩
        rw [hreplay, hcheck]
        exact hc (hfits units slices hunits hplan)
      · exact ⟨l', hs, Or.inr (Or.inl ⟨hne, hfault, m', hpub, hm'⟩)⟩
      · refine ⟨l', hs, Or.inr (Or.inr ⟨hne, ?_, fun hfits => ?_⟩)⟩
        · rcases hl' with ⟨-, h⟩ | ⟨rfl, -⟩
          · cases h
          · rfl
        · rw [hreplay, hcheck]
          exact hwhy (hfits units slices hunits hplan)

/-! ## Recovery -/

/-- **What a recovery leaves**, under `writer.lock`: no WAL, if it succeeds. -/
def Recovered (env : Env) (cfg : Config) (L₀ : Logical) (pid : Pid) (l : Ledger) (m : Manifest)
    (status : Status) (s : State) : Prop :=
  ∃ l', Section env cfg L₀ pid l' s ∧
    ((status = .ok ∧ l'.wal = none ∧
      ((l'.manifest = some m ∧ ∀ w, l.wal = some w → m.generation = w.base + 1) ∨
        ∃ ops m', l.wal = some ⟨m.generation, ops⟩ ∧ Publishes env cfg m m' ops ∧
          l'.manifest = some m' ∧
          (Fits env cfg m ops → replayCheck env cfg m ops = .ok))) ∨
    (status ≠ .ok ∧
      ((l'.manifest = some m ∧ (l'.wal = l.wal ∨ l'.wal = none)) ∨
        ∃ ops m', Publishes env cfg m m' ops ∧ l'.manifest = some m') ∧
      (∀ ops, l.wal = some ⟨m.generation, ops⟩ → Fits env cfg m ops →
        status = replayCheck env cfg m ops ∨ s.Faulty pid) ∧
      (l.wal = none → s.Faulty pid)))

instance {status : Status} :
    Stable (Rely env cfg L₀) pid (Recovered env cfg L₀ pid l m status) := by
  unfold Recovered
  infer_instance

/-- A recovery that a failing step has stopped. -/
theorem Recovered.failed {status : Status} {s : State} (hl : LedgerOk env cfg L₀ l m)
    (hs : Section env cfg L₀ pid l s) (hne : status ≠ .ok) (hfault : s.Faulty pid) :
    Recovered env cfg L₀ pid l m status s :=
  ⟨l, hs, Or.inr ⟨hne, Or.inl ⟨hl.manifest, Or.inl rfl⟩, fun _ _ _ => Or.inr hfault,
    fun _ => hfault⟩⟩

/-- The WAL of the ledger is in order. -/
theorem Section.walOk {s : State} (h : Section env cfg L₀ pid l s)
    (hl : LedgerOk env cfg L₀ l m) : s.Provided (WalOk l m) := by
  obtain ⟨m', hm'⟩ := h.2.2
  have hledger := h.1.ledger
  obtain rfl : m' = m := hl.eq (by rw [← hledger]; exact hm'.ledger.manifest)
  rw [← hledger]
  exact hm'.wal

/-- **The specification of a recovery under `writer.lock`.** -/
theorem recoverSection_spec (hl : LedgerOk env cfg L₀ l m) :
    Spec env cfg L₀ strict pid (Section env cfg L₀ pid l) (recoverSection env cfg)
      (Recovered env cfg L₀ pid l m) := by
  have hmanifest : ∀ s, Section env cfg L₀ pid l s → s.disk.manifest = some m := fun s h =>
    (congrArg Ledger.manifest h.1.ledger).trans hl.manifest
  refine Spec.bind (Spec.passive (o := .walLoad) (V := fun r => r = .ok l.wal) (fun _ _ => rfl)
    (fun _ => trivial) fun s h => congrArg Except.ok (congrArg Ledger.wal h.1.ledger)) fun r => ?_
  cases r with
  | error e =>
    refine Spec.ret ?_
    rintro s ⟨h, hr | ⟨hr, hfail⟩⟩
    · cases hr
    · cases hr
      exact .failed hl h (by simp) ⟨_, hfail⟩
  | ok found =>
    intro s hs
    obtain rfl : found = l.wal := by
      rcases hs.2 with h | ⟨h, -⟩
      · exact Except.ok.inj h
      · cases h
    refine (?_ : Spec env cfg L₀ strict pid (Section env cfg L₀ pid l) _ _) s hs.1
    cases hwal : l.wal with
    | none =>
      refine Spec.ret fun s h => ⟨l, h, Or.inl ⟨rfl, hwal, Or.inl ⟨hl.manifest, ?_⟩⟩⟩
      rw [hwal]
      simp
    | some wal =>
      refine Spec.bind (Spec.passive (o := .loadConfig) (V := fun r => r = true) (fun _ _ => rfl)
        (fun _ => trivial) fun _ _ => rfl) fun loaded => ?_
      split
      · refine Spec.bind ((manifestLoadForConfig_spec hmanifest hl.ok.fingerprint).conseq
          (fun s h => h.1) fun _ _ h => h) fun r => ?_
        cases r with
        | error e =>
          refine Spec.ret ?_
          rintro s ⟨h, hr | ⟨hr, hfault⟩⟩
          · cases hr
          · cases hr
            exact .failed hl h (by simp) hfault
        | ok m₁ =>
          intro s hs
          obtain rfl : m₁ = m := by
            rcases hs.2 with h | ⟨h, -⟩
            · exact Except.ok.inj h
            · cases h
          refine (?_ : Spec env cfg L₀ strict pid (Section env cfg L₀ pid l) _ _) s hs.1
          dsimp only
          split
          · -- the WAL is that of the last publication
            rename_i hdone
            have hclear : l.pendingWal = false := by
              simp [Ledger.pendingWal, hwal, hl.manifest, hdone]
            refine (updateWalClear_spec .recovered).conseq (fun s h => ⟨h, fun _ _ => hclear⟩) ?_
            rintro status s (⟨hok, h⟩ | ⟨hne, h, hfail⟩ | ⟨hne, h, hfail⟩)
            · refine ⟨_, h, Or.inl ⟨hok, rfl, Or.inl ⟨hl.manifest, fun w hw => ?_⟩⟩⟩
              rw [hwal, Option.some.injEq] at hw
              rw [← hw]
              exact hdone
            · exact ⟨_, h, Or.inr ⟨hne, Or.inl ⟨hl.manifest, Or.inr rfl⟩,
                fun _ _ _ => Or.inr ⟨_, hfail⟩, fun _ => ⟨_, hfail⟩⟩⟩
            · exact .failed hl h hne ⟨_, hfail⟩
          · split
            · -- the WAL is for some other generation
              rename_i hother
              refine Spec.ret fun s h => ⟨l, h, Or.inr ⟨by simp,
                Or.inl ⟨hl.manifest, Or.inl rfl⟩, fun ops hops => ?_, fun hnone => ?_⟩⟩
              · rw [hwal, Option.some.injEq] at hops
                rw [hops] at hother
                exact absurd rfl hother
              · rw [hwal] at hnone
                cases hnone
            · rename_i hbase
              rw [not_not] at hbase
              obtain ⟨base, ops⟩ := wal
              dsimp only at hbase
              subst hbase
              refine (applyOperations_replay_spec hl hwal).conseq
                (fun s h => ⟨h, fun ho => (h.walOk hl ho).onDisk _ hwal rfl⟩) ?_
              · rintro status s ⟨l', h, ⟨hok, hcheck, hnone, m', hpub, hm'⟩ |
                  ⟨hne, hfault, m', hpub, hm'⟩ | ⟨hne, rfl, hwhy⟩⟩
                · exact ⟨l', h, Or.inl ⟨hok, hnone, Or.inr ⟨ops, m', hwal, hpub, hm', hcheck⟩⟩⟩
                · exact ⟨l', h, Or.inr ⟨hne, Or.inr ⟨ops, m', hpub, hm'⟩,
                    fun _ _ _ => Or.inr hfault, fun _ => hfault⟩⟩
                · refine ⟨l', h, Or.inr ⟨hne, Or.inl ⟨hl.manifest, Or.inl rfl⟩,
                    fun ops' hops' => ?_, fun hnone => ?_⟩⟩
                  · rw [hwal, Option.some.injEq, Wal.mk.injEq] at hops'
                    rw [← hops'.2]
                    exact hwhy
                  · rw [hwal] at hnone
                    cases hnone
      · rename_i hloaded
        refine Spec.ret ?_
        rintro s ⟨h, hr | ⟨-, hfail⟩⟩
        · exact absurd hr hloaded
        · exact .failed hl h (by simp) ⟨_, hfail⟩

/-! ## Whole calls, among others -/

/-- What is known of a process that holds neither `writer.lock` nor `manifest.yap2.lock`. -/
def Outside (env : Env) (cfg : Config) (L₀ : Logical) (pid : Pid) (s : State) : Prop :=
  s.Free pid .writer ∧ s.Free pid .manifest ∧ Inv env cfg L₀ s

instance : Stable (Rely env cfg L₀) pid (Outside env cfg L₀ pid) := by
  unfold Outside
  infer_instance

/-- Taking `writer.lock`. -/
theorem Outside.enter {s : State} (h : Outside env cfg L₀ pid s) (hnone : s.locks .writer = none)
    {site : LockSite} (hsite : site.lock = .writer) :
    Section env cfg L₀ pid s.ledger ((s.noteHazard pid site).setLock .writer (some pid)) := by
  have hguar : Guar env cfg pid s ((s.noteHazard pid site).setLock .writer (some pid)) :=
    hsite ▸ Guar.lock (hsite.symm ▸ hnone)
  refine ⟨⟨by simp [State.setLock], ?_⟩, ?_, hguar.inv h.2.2⟩
  · unfold State.noteHazard
    split <;> rfl
  · have hlocks : (s.noteHazard pid site).locks = s.locks := by
      unfold State.noteHazard
      split <;> rfl
    rw [State.Free, State.setLock, hlocks]
    exact h.2.1

/-- Releasing `writer.lock`. -/
theorem Section.leave {s : State} (h : Section env cfg L₀ pid l s) :
    Outside env cfg L₀ pid (if s.locks .writer = some pid then s.setLock .writer none else s) := by
  rw [if_pos h.1.held]
  exact ⟨by simp [State.Free, State.setLock], h.2.1, h.2.2.setLock _ _⟩

/-- Without a WAL nothing is pending. -/
theorem Section.calm {s : State} (h : Section env cfg L₀ pid l s) (hl : LedgerOk env cfg L₀ l m)
    (hnone : l.wal = none) {n : Nat} (hn : s.Reached n) : s.Calm n := by
  intro ho
  have hwals : s.history.wals = l.wals := congrArg Ledger.wals h.1.ledger
  refine ⟨hn, fun r hr _ hp => ?_⟩
  have hpend := (hl.manifest ▸ h.1.ledger ▸ rfl : s.disk.manifest = some m)
  have := (h.walOk hl ho)
  rw [← h.1.ledger] at this
  have htrue := this.pendingWal hpend hr hp
  have hno : s.disk.wal = none := (congrArg Ledger.wal h.1.ledger).trans hnone
  simp [State.pendingWal, hno] at htrue

/-- A writer that takes the lock over a pending WAL is noted. -/
theorem Outside.clear {s : State} {site : LockSite} (hsite : site = .apply ∨ site = .publish) :
    ((s.noteHazard pid site).setLock .writer (some pid)).Provided (s.ledger.pendingWal = false) := by
  intro ho
  by_contra hp
  have hnote : s.noteHazard pid site = { s with history :=
      { s.history with hazards := (pid, site) :: s.history.hazards } } := by
    rw [State.noteHazard, if_pos ⟨hsite, by rw [State.pendingWal_eq]; simpa using hp⟩]
  rw [hnote] at ho
  cases ho.2

/-- What is known right after `writer.lock` was taken. -/
def Entered (env : Env) (cfg : Config) (L₀ : Logical) (pid : Pid) (P : Ledger → Prop) (s : State) :
    Prop :=
  ∃ l m, LedgerOk env cfg L₀ l m ∧ Section env cfg L₀ pid l s ∧ s.Provided (P l)

instance {P : Ledger → Prop} : Stable (Rely env cfg L₀) pid (Entered env cfg L₀ pid P) := by
  unfold Entered
  infer_instance

theorem Outside.entered {s : State} (h : Outside env cfg L₀ pid s)
    (hnone : s.locks .writer = none) {site : LockSite} (hsite : site.lock = .writer)
    {P : Ledger → Prop}
    (hP : ((s.noteHazard pid site).setLock .writer (some pid)).Provided (P s.ledger)) :
    Entered env cfg L₀ pid P ((s.noteHazard pid site).setLock .writer (some pid)) := by
  have hsec := h.enter hnone hsite
  obtain ⟨m, hl⟩ := hsec.2.2.ledgerOk hsec.1
  exact ⟨s.ledger, m, hl, hsec, hP⟩

/-- **The specification of `YAP_V2_update_recover`**, among others: if it succeeds, nothing that was
logged before it started is pending. -/
theorem updateRecover_spec (n : Nat) :
    Spec env cfg L₀ strict pid (fun s => Outside env cfg L₀ pid s ∧ s.Reached n)
      (updateRecover env cfg) fun status s =>
        Outside env cfg L₀ pid s ∧ (status = .ok → s.Calm n) := by
  have hexists : Spec env cfg L₀ strict pid (fun s => Outside env cfg L₀ pid s ∧ s.Reached n)
      (perform .walExists) fun r s => Outside env cfg L₀ pid s ∧
        ((r = true ∧ s.Reached n) ∨ (r = false ∧ s.Calm n)) := by
    refine Triple.perform (fun _ _ => trivial) fun s c r s' hA he => ?_
    rcases tryStep_eq_some he with he | ⟨rfl, rfl⟩
    · obtain ⟨rfl, hs⟩ := Prod.mk.inj he
      subst hs
      refine ⟨Guar.refl pid _, hA.1, ?_⟩
      cases hw : s'.disk.wal with
      | some w => exact Or.inl ⟨rfl, hA.2⟩
      | none =>
        refine Or.inr ⟨rfl, fun ho => ⟨hA.2, fun r hr _ hp => ?_⟩⟩
        obtain ⟨m, hm⟩ := hA.1.2.2
        have := (hm.wal ho).pendingWal hm.ledger.manifest hr hp
        simp [State.pendingWal, hw] at this
    · have hrely : Rely env cfg L₀ pid s (s.fault pid .walExists) := Rely.fault pid pid s _
      exact ⟨Guar.fault pid s _, Stable.rely hA.1 hrely, Or.inr ⟨rfl, fun ho => by cases ho.1⟩⟩
  refine Spec.bind hexists fun present => ?_
  split
  · rename_i hpresent
    refine Spec.bind ((Spec.lock .recover
      (A := fun s => Outside env cfg L₀ pid s ∧ s.Reached n)
      (B := fun s => Entered env cfg L₀ pid (fun _ => True) s ∧ s.Reached n)
      (fun s h => h.1.1) fun s h hnone => ?_).conseq ?_ fun _ _ h => h) fun locked => ?_
    · refine ⟨h.1.entered hnone rfl fun _ => trivial, ?_⟩
      exact h.2
    · rintro s ⟨h, ⟨-, hn⟩ | ⟨hno, -⟩⟩
      · exact ⟨h, hn⟩
      · exact absurd (hpresent.symm.trans hno) (by simp)
    · split
      · rename_i hlocked
        rintro s (⟨-, ⟨l, m, hl, hsec, -⟩, hn⟩ | ⟨hno, -⟩)
        · have hkeep : ∀ {s s' : State}, s.Reached n → Guar env cfg pid s s' → s'.Reached n :=
            fun h hg => le_trans h hg.logged
          refine (Spec.bind (Triple.frame hkeep (recoverSection_spec hl)) fun status => ?_) s
            ⟨hsec, hn⟩
          refine Spec.bind (Spec.unlock (B := fun s => Outside env cfg L₀ pid s ∧
            (status = .ok → s.Calm n)) ?_) fun _ => Spec.ret fun s h => h
          rintro s ⟨⟨l', hs, hout⟩, hn⟩
          refine ⟨hs.leave, fun hok => ?_⟩
          rw [if_pos hs.1.held]
          rcases hout with ⟨-, hnone, -⟩ | ⟨hne, -⟩
          · obtain ⟨m', hl'⟩ := hs.2.2.ledgerOk hs.1
            exact hs.calm hl' hnone hn
          · exact absurd hok hne
        · exact absurd (hlocked.symm.trans hno) (by simp)
      · rename_i hlocked
        refine Spec.ret ?_
        rintro s (⟨h, -⟩ | ⟨-, h, hfail⟩)
        · exact absurd h hlocked
        · exact ⟨h.1, fun hok => by cases hok⟩
  · rename_i hpresent
    refine Spec.ret ?_
    rintro s ⟨h, ⟨hyes, -⟩ | ⟨-, hcalm⟩⟩
    · exact absurd hyes hpresent
    · exact ⟨h, fun _ => hcalm⟩

/-- **The specification of `YAP_V2_update_apply`**, among others. -/
theorem updateApply_spec (ops : List IngestOperation) :
    Spec env cfg L₀ strict pid (Outside env cfg L₀ pid) (updateApply env cfg ops)
      fun _ => Outside env cfg L₀ pid := by
  refine Spec.bind ((updateRecover_spec 0).conseq (fun s h => ⟨h, Nat.zero_le _⟩) fun _ _ h => h)
    fun status => ?_
  split
  · exact Spec.ret fun s h => h.1
  · rw [applyOperations]
    split
    · exact Spec.ret fun s h => h.1
    · rename_i hlimit
      rw [not_or, not_lt] at hlimit
      rw [if_neg (by simp)]
      refine Spec.bind ((Spec.lock .apply (A := Outside env cfg L₀ pid)
        (B := Entered env cfg L₀ pid fun l => l.pendingWal = false) (fun s h => h.1)
        fun s h hnone => h.entered hnone rfl (Outside.clear (Or.inl rfl))).conseq (fun s h => h.1)
        fun _ _ h => h) fun locked => ?_
      split
      · rename_i hlocked
        rintro s (⟨-, l, m, hl, hsec, hclear⟩ | ⟨hno, -⟩)
        · refine (Spec.bind (applySection_spec hl hlimit.1 hlimit.2) fun status => ?_) s
            ⟨hsec, hclear⟩
          refine Spec.bind (Spec.unlock (B := Outside env cfg L₀ pid) ?_) fun _ =>
            Spec.ret fun s h => h
          rintro s ⟨l', hs, -⟩
          exact hs.leave
        · exact absurd (hlocked.symm.trans hno) (by simp)
      · rename_i hlocked
        refine Spec.ret ?_
        rintro s (⟨h, -⟩ | ⟨-, h, -⟩)
        · exact absurd h hlocked
        · exact h

end Sections

end Yappod

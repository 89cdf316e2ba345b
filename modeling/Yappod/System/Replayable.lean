import Yappod.Indexing.PlannerExact
import Yappod.System.Rejected
import Yappod.System.SliceChecks

/-!
# Replaying a WAL

Once `update.wal` is on disk every later call has to get past it.  A recovery that meets no failing step repeats the
checks of the update that wrote the WAL, and makes two more that the update makes only after the WAL: the number of
slices, and the identifiers of the passages of each slice.  A WAL that fails one of them is never recovered
(`wal_replayable`).
-/

set_option autoImplicit false

namespace Yappod

variable {env : Env} {cfg : Config} {L₀ : Logical} {pid : Pid} {m : Manifest} {ops : List IngestOperation}
  {units : List SegmentUnit} {slices : List Slice}

/-! ## The checks of an accepted batch -/

section Checks

theorem operationUnit_checked {op : IngestOperation} {u : SegmentUnit} (h : operationUnit env cfg op = .ok u)
    (hprepared : ∃ size, prepareUnit env cfg u = .ok size) : u.Checked env cfg := by
  unfold operationUnit at h
  cases hk : op.kind with
  | delete =>
    simp only [hk] at h
    obtain rfl := Except.ok.inj h
    exact ⟨op.id_ne_nil, op.id_length⟩
  | upsert =>
    simp only [hk] at h
    obtain ⟨chunks, hchunks, h⟩ := bind_eq_ok.mp h
    split_ifs at h
    obtain rfl := Except.ok.inj h
    refine ⟨hprepared, ?_, op.finite⟩
    rw [List.map_map]
    exact (unicodeChunk_ordinal hchunks).symm ▸ List.nodup_range

theorem mapM_prepareUnit {sizes : List UnitSize} (h : units.mapM (prepareUnit env cfg) = .ok sizes) :
    ∀ u ∈ units, ∃ size, prepareUnit env cfg u = .ok size := by
  induction units generalizing sizes with
  | nil => simp
  | cons u units ih =>
    rw [List.mapM_cons] at h
    obtain ⟨size, hsize, h⟩ := bind_eq_ok.mp h
    obtain ⟨rest, hrest, -⟩ := bind_eq_ok.mp h
    exact List.forall_mem_cons.mpr ⟨⟨size, hsize⟩, ih hrest⟩

/-- The units of an accepted batch were checked. -/
theorem units_checked {policy : SizePolicy} {segmentIdBytes : Nat} (hunits : operationUnits env cfg ops = .ok units)
    (hplan : segmentPlan env cfg units segmentIdBytes policy = .ok slices) : ∀ u ∈ units, u.Checked env cfg := by
  obtain ⟨-, sizes, -, -, -, hsizes, -⟩ := segmentPlan_eq_ok.mp hplan
  have hprepared := mapM_prepareUnit hsizes
  have hspec := operationUnits_spec hunits
  clear hunits hplan hsizes
  induction hspec with
  | nil => simp
  | cons hu _ ih =>
    obtain ⟨hfirst, hrest⟩ := List.forall_mem_cons.mp hprepared
    exact List.forall_mem_cons.mpr ⟨operationUnit_checked hu hfirst, ih hrest⟩

theorem mem_of_mem_slice {sl : Slice} {u : SegmentUnit} (h : u ∈ sl.units units) : u ∈ units :=
  List.mem_of_mem_drop (List.mem_of_mem_take h)

theorem nodup_unitTombstones {us : List SegmentUnit} (h : (us.map SegmentUnit.id).Nodup) :
    (unitTombstones us).Nodup := by
  induction us with
  | nil => exact List.nodup_nil
  | cons u us ih =>
    obtain ⟨hnew, hnodup⟩ := List.nodup_cons.mp h
    cases u with
    | document d ps vs => exact ih hnodup
    | tombstone id =>
      refine List.nodup_cons.mpr ⟨fun hmem => hnew ?_, ih hnodup⟩
      exact List.mem_map.mpr ⟨_, mem_unitTombstones.mp hmem, rfl⟩

theorem nodup_of_unique (h : validateUniqueIds ops = .ok) : (ops.map (·.id)).Nodup := by
  by_contra hnot
  rw [validateUniqueIds, if_neg hnot] at h
  cases h

/-- The slices of an accepted batch were checked, and fit. -/
theorem slices_checked (hunique : validateUniqueIds ops = .ok) (hne : ops ≠ [])
    (hunits : operationUnits env cfg ops = .ok units)
    (hplan : segmentPlan env cfg units 31 (sizePolicy env.testPayloadLimit) = .ok slices) :
    ∀ sl ∈ slices, SliceChecked env cfg (sl.units units) ∧ PayloadsFit env cfg .seg (sl.units units) := by
  intro sl hsl
  have hids : (units.map SegmentUnit.id).Nodup := (operationUnits_ids hunits).symm ▸ nodup_of_unique hunique
  have hcovers := segmentPlan_covers hplan
  have hunitsNe : units ≠ [] := by
    rintro rfl
    have := operationUnits_ids hunits
    exact hne (List.map_eq_nil_iff.mp this.symm)
  obtain ⟨s, hcounted, hfits, -⟩ := (segmentPlan_fits hunitsNe hplan sl hsl).sized
  refine ⟨⟨unitsOk_slice hcovers (operationUnits_ok hunits) hids sl hsl, fun u hu =>
    units_checked hunits hplan u (mem_of_mem_slice hu), nodup_unitTombstones ?_⟩,
    hcounted.payloadsFit (segmentPlan_eq_ok.mp hplan).1.2.2.2.2 hfits⟩
  exact List.Nodup.sublist (List.Sublist.map _ ((List.take_sublist _ _).trans (List.drop_sublist _ _))) hids

/-- A plan that can be carried out: there is room for its slices in the manifest, and no slice has two passages of one
identifier. -/
def PlanHolds (env : Env) (cfg : Config) (m : Manifest) (ops : List IngestOperation) : Prop :=
  ∃ units slices, operationUnits env cfg ops = .ok units ∧
    segmentPlan env cfg units 31 (sizePolicy env.testPayloadLimit) = .ok slices ∧
    m.segments.length + slices.length ≤ maxSegments ∧
    ∀ sl ∈ slices, ((unitPassages (sl.units units)).map (·.id)).Nodup

/-- No slice of an accepted batch is found too large. -/
theorem Accepted.fits (h : Accepted env cfg m ops) : Fits env cfg m ops := by
  intro units slices hunits hplan
  rw [planCheck_eq (slices_checked h.unique h.nonempty hunits hplan)]
  split <;> simp

/-- **The checks of a replay**, for a batch that was accepted. -/
theorem Accepted.replayCheck_eq_ok (h : Accepted env cfg m ops) :
    replayCheck env cfg m ops = .ok ↔ PlanHolds env cfg m ops := by
  obtain ⟨units, slices, hunits, hplan⟩ := h.planned
  have hlimit : ¬ (ops = [] ∨ updateMaxOperations < ops.length) := by
    rw [not_or, not_lt]
    exact ⟨h.nonempty, h.limit⟩
  have hrange : ¬ (m.generation = uint64Max ∨ segmentCountValidate m.segments.length 1 ≠ .ok) := by
    rw [not_or, not_not]
    exact ⟨h.generation, h.count⟩
  have hcheck : replayCheck env cfg m ops = batchCheck env cfg m units slices := by
    rw [replayCheck, if_neg hlimit, applyCheck, h.unique, Status.ok_next, if_neg hrange, hunits]
    simp only [hplan]
  have hroom : segmentCountValidate m.segments.length slices.length = .ok ↔
      m.segments.length + slices.length ≤ maxSegments := by
    refine ⟨segmentCountValidate_eq_ok, fun hle => ?_⟩
    rw [segmentCountValidate, if_neg (by omega)]
  rw [hcheck, batchCheck, Status.next_eq_ok, hroom, planCheck_eq (slices_checked h.unique h.nonempty hunits hplan)]
  constructor
  · rintro ⟨hle, hids⟩
    refine ⟨units, slices, hunits, hplan, hle, ?_⟩
    by_contra hnot
    rw [if_neg hnot] at hids
    cases hids
  · rintro ⟨units', slices', hunits', hplan', hle, hids⟩
    obtain rfl := Except.ok.inj (hunits.symm.trans hunits')
    obtain rfl := Except.ok.inj (hplan.symm.trans hplan')
    exact ⟨hle, if_pos hids⟩

end Checks

/-! ## Runs without failures -/

section Runs

variable {s s' : State}

/-- A step that succeeds is not noted as a failure. -/
theorem exec_faults {o : Op} {c : Choice} {r : Res o} (hc : c.isOk = true) (he : exec pid o c s = some (r, s')) :
    s'.history.faults = s.history.faults := by
  -- a step that succeeds or fails
  have htry : ∀ {o : Op} {success : Res o × State} {failure r : Res o},
      tryStep pid c s o success failure = some (r, s') → success.2.history.faults = s.history.faults →
      s'.history.faults = s.history.faults := by
    intro o success failure r he hs
    unfold tryStep at he
    split at he
    · obtain rfl := Option.some.inj he
      exact hs
    · cases hc
    · cases he
  have hfile : ∀ id comp f, (s.setFile id comp f).history.faults = s.history.faults := by
    intro id comp f
    unfold State.setFile
    split <;> rfl
  cases o with
  | lock site =>
    have he : execLock pid c s site = some (r, s') := he
    unfold execLock at he
    split at he
    · split at he
      · cases he
        unfold State.noteHazard
        split <;> rfl
      · cases he
    · cases hc
    · cases he
  | unlock l =>
    simp only [exec] at he
    split at he
    · cases he
      split <;> rfl
    · cases he
  | closeManifestLock saved =>
    simp only [exec] at he
    split at he
    · cases he
      rfl
    · cases hc
    · cases he
  | unlinkWal why =>
    refine htry he ?_
    dsimp only
    split <;> rfl
  | mkdtemp kind generation =>
    have he : execMkdtemp pid c s kind generation = some (r, s') := he
    unfold execMkdtemp at he
    split at he
    · split at he
      · cases he
        rfl
      · cases he
    · cases hc
    · cases he
  | writeComponent dir f =>
    have he : execWriteComponent pid c s dir f = some (r, s') := he
    unfold execWriteComponent at he
    dsimp only at he
    split at he
    · cases he
      exact hfile dir _ _
    · cases hc
    · cases hc
    · cases he
  | unlinkComponent dir comp => exact htry he (hfile dir comp none)
  | rmdir dir =>
    have he : execRmdir pid c s dir = some (r, s') := he
    unfold execRmdir at he
    split at he
    · split at he
      · cases he
        rfl
      · split at he <;> cases he <;> rfl
    · cases hc
    · cases he
  | listSegments =>
    have he : execListSegments pid c s = some (r, s') := he
    unfold execListSegments at he
    split at he
    · split at he
      · cases he
        rfl
      · cases he
    · cases hc
    · cases he
  | installManifest m what =>
    refine htry he ?_
    cases what <;> rfl
  | stuck => cases he
  | _ => exact htry he rfl

theorem run_faults {α : Type} {p : Code α} {choices : List Choice} {a : α} (hc : ∀ c ∈ choices, c.isOk = true)
    (hrun : p.run exec pid choices s = some (a, s')) : s'.history.faults = s.history.faults := by
  induction p generalizing choices s with
  | pure a =>
    cases choices with
    | nil =>
      obtain ⟨-, rfl⟩ := Prod.mk.inj (Option.some.inj hrun)
      rfl
    | cons c cs => cases hrun
  | op o k ih =>
    cases choices with
    | nil => cases hrun
    | cons c cs =>
      rw [Prog.run_op_cons, Option.bind_eq_some_iff] at hrun
      obtain ⟨⟨r, s₁⟩, he, hrest⟩ := hrun
      obtain ⟨hfirst, hcs⟩ := List.forall_mem_cons.mp hc
      exact (ih r hcs hrest).trans (exec_faults hfirst he)

/-- No other process holds a lock. -/
def State.Undisturbed (pid : Pid) (s : State) : Prop := ∀ l, s.locks l = none ∨ s.locks l = some pid

/-- Every step that is ready can be taken without a failure. -/
theorem exec_possible {o : Op} (hready : Ready true pid o s) (hfree : s.Undisturbed pid) (hinv : Inv env cfg L₀ s) :
    ∃ c r s', c.isOk = true ∧ exec pid o c s = some (r, s') := by
  cases o with
  | lock site =>
    refine ⟨.ok, true, (s.noteHazard pid site).setLock site.lock (some pid), rfl, ?_⟩
    exact if_pos ((hfree site.lock).resolve_right hready)
  | mkdtemp kind generation =>
    obtain ⟨m, hm⟩ := hinv
    obtain ⟨n, hn⟩ := hm.bounded
    have hnone : s.disk.segments ⟨kind, generation, n⟩ = none := by
      by_contra hne
      exact absurd (hn _ hne) (lt_irrefl _)
    refine ⟨.suffix n, some ⟨kind, generation, n⟩, s.setDir ⟨kind, generation, n⟩ (some fun _ => none), rfl, ?_⟩
    show execMkdtemp pid (.suffix n) s kind generation = _
    rw [execMkdtemp]
    simp only [hnone]
  | rmdir dir =>
    show ∃ c r s', c.isOk = true ∧ execRmdir pid c s dir = some (r, s')
    refine ⟨.ok, ?_⟩
    rw [execRmdir]
    split
    · exact ⟨_, _, rfl, rfl⟩
    · split <;> exact ⟨_, _, rfl, rfl⟩
  | listSegments => exact ⟨.names [], .entries [], s, rfl, rfl⟩
  | stuck => cases hready
  | _ => exact ⟨.ok, _, _, rfl, rfl⟩

/-- The locks stay with the process. -/
theorem State.Undisturbed.step {o : Op} {c : Choice} {r : Res o} (h : s.Undisturbed pid)
    (he : exec pid o c s = some (r, s')) : s'.Undisturbed pid := by
  intro l
  by_cases hl : o.lockFile = some l
  · cases o with
    | lock site =>
      obtain rfl := Option.some.inj hl
      have he : execLock pid c s site = some (r, s') := he
      unfold execLock at he
      split at he
      · split at he
        · cases he
          exact .inr (if_pos rfl)
        · cases he
      · cases he
        exact h site.lock
      · cases he
    | unlock l' =>
      obtain rfl := Option.some.inj hl
      simp only [exec] at he
      split at he
      · cases he
        split
        · exact .inl (if_pos rfl)
        · exact h l'
      · cases he
    | closeManifestLock saved =>
      obtain rfl := Option.some.inj hl
      simp only [exec] at he
      split at he
      · cases he
        exact .inl rfl
      · cases he
        exact .inl rfl
      · cases he
    | _ => cases hl
  · rw [exec_locks he hl]
    exact h l

/-- **A call that is alone can be run to its end without a failure.** -/
theorem exists_run_ok {α : Type} {p : Code α} {A : State → Prop} {B : α → State → Prop}
    (hspec : Spec env cfg L₀ true pid A p B) (hs : A s) (hfree : s.Undisturbed pid) (hinv : Inv env cfg L₀ s) :
    ∃ choices a s', (∀ c ∈ choices, c.isOk = true) ∧ p.run exec pid choices s = some (a, s') :=
  Safe.progress (Rely.refl pid) (I := fun s => s.Undisturbed pid ∧ Inv env cfg L₀ s)
    (fun _ _ hready h => exec_possible hready h.1 h.2)
    (fun _ _ _ _ _ h hg he => ⟨h.1.step he, hg.inv h.2⟩) (hspec s hs) ⟨hfree, hinv⟩

end Runs

/-! ## Recovering a WAL -/

section Recovering

variable {m₀ : Manifest} {s₀ : State}

/-- The step that installs a WAL. -/
theorem Performs.installed (h₀ : Opened env cfg m₀ s₀) {c : System} (h : Reachable env cfg s₀ c) {w : Wal} {s₁ : State}
    (hp : Performs c pid (.installWal w) true s₁) :
    ∃ m, c.state.disk.manifest = some m ∧ w.base = m.generation ∧ Accepted env cfg m w.operations ∧
      s₁ = (c.state.setWal (some w)).recordWal w := by
  obtain ⟨-, hguar⟩ := hp.guar h₀ h
  obtain ⟨call, birth, k, choice, -, he⟩ := hp
  have heq : s₁ = (c.state.setWal (some w)).recordWal w := by
    rcases tryStep_eq_some he with he | ⟨hno, -⟩
    · exact (Prod.mk.inj he).2
    · cases hno
  -- no other step makes the list of WALs longer
  have hlonger : s₁.history.wals.length = c.state.history.wals.length + 1 := by
    rw [heq]
    rfl
  have hsame : s₁.history.wals.length ≠ c.state.history.wals.length := by omega
  cases hguar.effect with
  | none ledger dirs => exact absurd (congrArg List.length (congrArg Ledger.wals ledger)) hsame
  | dir id ledger others held unlisted => exact absurd (congrArg List.length (congrArg Ledger.wals ledger)) hsame
  | installWal m w' eq held manifest base accepted clear =>
    have hw : w = w' := by
      rw [heq] at eq
      exact Option.some.inj (congrArg (fun s : State => s.disk.wal) eq)
    exact ⟨m, manifest, hw ▸ base, hw ▸ accepted, heq⟩
  | removeWal eq held clear => exact absurd (by rw [eq]; rfl) hsame
  | withdrawWal eq held =>
    refine absurd ?_ hsame
    rw [eq]
    exact length_markNewest _ _
  | update m m' ops ds eq =>
    refine absurd ?_ hsame
    rw [eq]
    exact length_markNewest _ _
  | compaction m m' pre old new post eq => exact absurd (by rw [eq]; rfl) hsame

/-- Nothing has failed under the number of the process. -/
def State.Unfailed (pid : Pid) (s : State) : Prop := ∀ o, ¬ s.Failed pid o

theorem State.Unfailed.run {α : Type} {p : Code α} {choices : List Choice} {a : α} {s s' : State} (h : s.Unfailed pid)
    (hc : ∀ c ∈ choices, c.isOk = true) (hrun : p.run exec pid choices s = some (a, s')) : s'.Unfailed pid := by
  intro o hfail
  rw [State.Failed, run_faults hc hrun] at hfail
  exact h o hfail

/-- **A recovery without failures** publishes the batch of the WAL, or refuses it for the checks of a replay. -/
theorem recovery_outcome {s s' : State} (hout : Outside env cfg L₀ pid s) (hl : LedgerOk env cfg L₀ s.ledger m)
    (hunfailed : s.Unfailed pid) {w : Wal} (hw : s.disk.wal = some w) (hbase : w.base = m.generation)
    (hfits : Fits env cfg m w.operations) {choices : List Choice} {status : Status} (hc : ∀ c ∈ choices, c.isOk = true)
    (hrun : (updateRecover env cfg).run exec pid choices s = some (status, s')) :
    (status = .ok ∧ replayCheck env cfg m w.operations = .ok ∧
      ∃ m', s'.disk.manifest = some m' ∧ Publishes env cfg m m' w.operations) ∨
    (status ≠ .ok ∧ replayCheck env cfg m w.operations ≠ .ok) := by
  have hclean : ∀ o, ¬ s'.Failed pid o := hunfailed.run hc hrun
  have hwal : s.ledger.wal = some ⟨m.generation, w.operations⟩ := by
    rw [← hbase]
    exact hw
  obtain ⟨-, hrec⟩ := updateRecover_alone hl choices s status s' ⟨hout, rfl⟩ hrun
  cases hrec with
  | skipped ok ledger why =>
    rcases why with hnone | hfail
    · cases hnone.symm.trans hwal
    · exact absurd hfail (hclean _)
  | shut ne ledger why => exact absurd why (hclean _)
  | done s₁ recovered eq =>
    obtain ⟨l', hs, hcases⟩ := recovered
    subst eq
    have hmanifest : s₁.disk.manifest = l'.manifest := congrArg Ledger.manifest hs.1.ledger
    rcases hcases with ⟨hok, -, ⟨-, hnext⟩ | ⟨ops, m', hlogged, hpub, hm', hcheck⟩⟩ | ⟨hne, -, hwhy, -⟩
    · have := hnext _ hwal
      dsimp only at this
      omega
    · obtain rfl : w.operations = ops := congrArg Wal.operations (Option.some.inj (hwal.symm.trans hlogged))
      exact .inl ⟨hok, hcheck hfits, m', hmanifest.trans hm', hpub⟩
    · rcases hwhy _ hwal hfits with hstatus | ⟨o, hfail⟩
      · exact .inr ⟨hne, hstatus ▸ hne⟩
      · exact absurd hfail (hclean o)

/-- **Which WALs can be replayed.**  A process of any run installs its WAL, syncs the index directory and dies.  If
nobody else is at work and nothing fails, a recovery can be run to its end; and every such recovery succeeds and
publishes the batch, exactly if there is room for the slices of its plan in the manifest and no slice has two passages
of one identifier. -/
theorem wal_replayable (h₀ : Opened env cfg m₀ s₀) {c : System} (h : Reachable env cfg s₀ c) {w : Wal} {s₁ s : State}
    (hinstalled : Performs c pid (.installWal w) true s₁)
    (hsynced : exec pid (.syncIndexDir .walWrite) .ok s₁ = some (true, s))
    (hfree : ∀ l, (s.release pid).locks l = none) {q : Pid} (hidle : (s.release pid).idle q = true) :
    ∃ m, c.state.disk.manifest = some m ∧ w.base = m.generation ∧
      (((∃ choices status s', (∀ c ∈ choices, c.isOk = true) ∧
          (updateRecover env cfg).run exec q choices (s.release pid) = some (status, s')) ∧
        ∀ choices status s', (∀ c ∈ choices, c.isOk = true) →
          (updateRecover env cfg).run exec q choices (s.release pid) = some (status, s') →
          status = .ok ∧ ∃ m', s'.disk.manifest = some m' ∧ Publishes env cfg m m' w.operations) ↔
      PlanHolds env cfg m w.operations) := by
  obtain ⟨m, hm, hbase, haccepted, heq⟩ := hinstalled.installed h₀ h
  obtain ⟨-, hguar⟩ := hinstalled.guar h₀ h
  obtain rfl : s₁ = s := (Prod.mk.inj (Option.some.inj hsynced)).2
  have hinv : Inv env cfg m₀.logical (s₁.release pid) := sound.crash_inv (hguar.inv (h.good h₀).1)
  have hdisk : (s₁.release pid).disk.manifest = some m ∧ (s₁.release pid).disk.wal = some w := by
    subst heq
    exact ⟨hm, rfl⟩
  obtain ⟨m', hm'⟩ := id hinv
  obtain rfl : m' = m := Option.some.inj (hm'.ledger.manifest.symm.trans hdisk.1)
  simp only [State.idle, decide_eq_true_eq] at hidle
  have hout : Outside env cfg m₀.logical q (s₁.release pid) := ⟨hidle.1, hidle.2.2.1, hinv⟩
  have hunfailed : (s₁.release pid).Unfailed q := fun o hfail => hidle.2.2.2 _ hfail rfl
  obtain ⟨choices, status, s', hc, hrun⟩ := exists_run_ok (updateRecover_spec 0) ⟨hout, Nat.zero_le _⟩
    (fun l => .inl (hfree l)) hinv
  refine ⟨m', hm, hbase, ?_⟩
  rw [← haccepted.replayCheck_eq_ok]
  constructor
  · rintro ⟨-, hall⟩
    rcases recovery_outcome hout hm'.ledger hunfailed hdisk.2 hbase haccepted.fits hc hrun with
      ⟨-, hcheck, -⟩ | ⟨hne, -⟩
    · exact hcheck
    · exact absurd (hall _ _ _ hc hrun).1 hne
  · refine fun hcheck => ⟨⟨choices, status, s', hc, hrun⟩, fun choices status s' hc hrun => ?_⟩
    rcases recovery_outcome hout hm'.ledger hunfailed hdisk.2 hbase haccepted.fits hc hrun with
      ⟨hok, -, hpub⟩ | ⟨-, hne⟩
    · exact ⟨hok, hpub⟩
    · exact absurd hcheck hne

end Recovering

/-- The first process installs the WAL of a batch as its next step, and nobody else is at work. -/
def installsNext (ops : List IngestOperation) (c : System) : Bool :=
  nextOp c 1 = some (.installWal ⟨1, ops⟩) ∧ c.state.locks .writer = some 1 ∧ c.state.locks .compaction = none ∧
    c.state.locks .manifest = none ∧ c.state.history.faults = [] ∧ c.state.disk.manifest = some emptyManifest

/-- What the other processes find when the first one has installed the WAL and died. -/
def walLeft (ops : List IngestOperation) (c : System) : State :=
  ((c.state.setWal (some ⟨1, ops⟩)).recordWal ⟨1, ops⟩).release 1

theorem installsNext_spec {ops : List IngestOperation} {c : System} (h : installsNext ops c = true) :
    Performs c 1 (.installWal ⟨1, ops⟩) true ((c.state.setWal (some ⟨1, ops⟩)).recordWal ⟨1, ops⟩) ∧
      (∀ l, (walLeft ops c).locks l = none) ∧ (walLeft ops c).idle 2 = true := by
  rw [installsNext, decide_eq_true_eq] at h
  obtain ⟨hnext, hwriter, hcompaction, hmanifest, hfaults, -⟩ := h
  have hfree : ∀ l, (walLeft ops c).locks l = none := by
    intro l
    show (if c.state.locks l = some 1 then none else c.state.locks l) = none
    cases l
    · rw [if_pos hwriter]
    · simp [hcompaction]
    · simp [hmanifest]
  refine ⟨performs_of_nextOp .ok hnext rfl, hfree, ?_⟩
  have hempty : (walLeft ops c).history.faults = [] := hfaults
  simp [State.idle, hfree, hempty]

theorem wal_replayable_x : ∃ c, Reachable sampleEnv sampleConfig emptyState c ∧
    ∃ choices status s', (updateRecover sampleEnv sampleConfig).run exec 2 choices (walLeft [upsertX] c) =
      some (status, s') ∧ status = .ok ∧
      ∃ m', s'.disk.manifest = some m' ∧ Publishes sampleEnv sampleConfig emptyManifest m' [upsertX] := by
  obtain ⟨c, hc, hcheck⟩ := exists_of_run ([.spawn 1 (.apply [upsertX])] ++ steps 1 5)
    (installsNext [upsertX]) (by decide +kernel)
  obtain ⟨hinstalled, hfree, hidle⟩ := installsNext_spec hcheck
  obtain ⟨m, hm, -, hiff⟩ := wal_replayable emptyState_opened hc hinstalled rfl hfree hidle
  rw [installsNext, decide_eq_true_eq] at hcheck
  obtain rfl : m = emptyManifest := Option.some.inj (hm.symm.trans hcheck.2.2.2.2.2)
  have hplan : PlanHolds sampleEnv sampleConfig emptyManifest [upsertX] := by
    obtain ⟨m, hm', -, haccepted, -⟩ := hinstalled.installed emptyState_opened hc
    obtain rfl : m = emptyManifest := Option.some.inj (hm'.symm.trans hcheck.2.2.2.2.2)
    exact haccepted.replayCheck_eq_ok.mp (by decide +kernel)
  obtain ⟨⟨choices, status, s', hall, hrun⟩, hends⟩ := hiff.mpr hplan
  obtain ⟨hok, hpub⟩ := hends choices status s' hall hrun
  exact ⟨c, hc, choices, status, s', hrun, hok, hpub⟩

/-- Two documents whose second chunks have the same identifier: `a`, `x`, `y` are put together with a separator that may
stand in them. -/
def pairUpserts : List IngestOperation :=
  [upsertOf [97] [97, 98, 99, 120, 1, 121] (by decide) (by decide),
    upsertOf [97, 1, 120] [97, 98, 99, 121] (by decide) (by decide)]

/-- **A WAL that cannot be replayed.**  `apply_operations` accepts a batch of two documents and installs its WAL; the
two passages of one identifier are found only afterwards.  A recovery that meets no failing step refuses the batch, and
leaves the WAL to the next one. -/
theorem wal_not_replayable : ∃ c, Reachable sampleEnv sampleConfig emptyState c ∧
    Performs c 1 (.installWal ⟨1, pairUpserts⟩) true
      ((c.state.setWal (some ⟨1, pairUpserts⟩)).recordWal ⟨1, pairUpserts⟩) ∧
    (∀ l, (walLeft pairUpserts c).locks l = none) ∧ (walLeft pairUpserts c).idle 2 = true ∧
    ∃ choices s', (∀ x ∈ choices, x.isOk = true) ∧
      (updateRecover sampleEnv sampleConfig).run exec 2 choices (walLeft pairUpserts c) = some (.duplicate, s') ∧
      s'.disk.manifest = some emptyManifest ∧ s'.disk.wal = some ⟨1, pairUpserts⟩ := by
  obtain ⟨c, hc, hcheck⟩ := exists_of_run ([.spawn 1 (.apply pairUpserts)] ++ steps 1 5)
    (fun c => installsNext pairUpserts c && ((updateRecover sampleEnv sampleConfig).run exec 2
      (List.replicate 8 .ok ++ [.suffix 0] ++ List.replicate 10 .ok) (walLeft pairUpserts c)).any fun x =>
        x.1 = .duplicate ∧ x.2.disk.manifest = some emptyManifest ∧ x.2.disk.wal = some ⟨1, pairUpserts⟩)
    (by decide +kernel)
  rw [Bool.and_eq_true] at hcheck
  obtain ⟨hinstalled, hfree, hidle⟩ := installsNext_spec hcheck.1
  obtain ⟨⟨status, s'⟩, hrun, hends⟩ := (Option.any_eq_true ..).mp hcheck.2
  rw [decide_eq_true_eq] at hends
  obtain ⟨rfl, hmanifest, hwal⟩ := hends
  exact ⟨c, hc, hinstalled, hfree, hidle, _, s', by decide, hrun, hmanifest, hwal⟩

end Yappod

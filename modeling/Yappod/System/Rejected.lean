import Yappod.System.Runs

/-!
# Rejected updates

An update that answers an error without a new manifest has to leave nothing behind that a recovery would publish.  It
withdraws its WAL (`applySection_spec`), unless the step that fails is the sync of the index directory after the WAL has
been renamed into place: then the WAL stays.  `rejected_update_withdrawn` is about the calls in which it is another
step.
-/

set_option autoImplicit false

namespace Yappod

open Prog (Ends)

variable {env : Env} {cfg : Config} {L₀ : Logical} {pid : Pid} {l : Ledger} {m : Manifest}
  {ops : List IngestOperation}

/-! ## What stays as it is -/

section Scope

variable {t : Scope} {s₀ s s' : State}

/-- What a program within a scope leaves of the state it started in: the directories that were there, and the batches
that were published. -/
structure State.From (t : Scope) (s s₀ : State) : Prop where
  dirs : ∀ id dir, s₀.disk.segments id = some dir → s.disk.segments id = some dir
  wal : ∀ w, s.disk.wal = some w → t.batch w.operations
  committed : ∃ more, s.history.committed = more ++ s₀.history.committed ∧ ∀ ops ∈ more, t.batch ops

theorem State.From.of_eq (h : s.From t s₀) (hdirs : s'.disk.segments = s.disk.segments)
    (hwal : s'.disk.wal = s.disk.wal) (hcommitted : s'.history.committed = s.history.committed) : s'.From t s₀ where
  dirs := hdirs ▸ h.dirs
  wal := hwal ▸ h.wal
  committed := hcommitted ▸ h.committed

/-- A directory that was not there at first is changed. -/
theorem State.From.setDir (h : s.From t s₀) {id : SegmentId} (hid : s₀.disk.segments id = none)
    (d : Option SegmentDir) : (s.setDir id d).From t s₀ where
  dirs id' dir hdir := by
    have hne : id' ≠ id := by
      rintro rfl
      cases hid.symm.trans hdir
    rw [State.setDir]
    dsimp only
    rw [if_neg hne]
    exact h.dirs id' dir hdir
  wal := h.wal
  committed := h.committed

theorem State.From.setFile (h : s.From t s₀) {id : SegmentId} (hid : s₀.disk.segments id = none) (c : Component)
    (f : Option File) : (s.setFile id c f).From t s₀ := by
  rw [State.setFile]
  split
  · exact h
  · exact h.setDir hid _

/-- **A step within the scope.** -/
theorem State.From.step (hdir : ∀ id, t.dir id ↔ s₀.disk.segments id = none)
    (hwal : ∀ w, t.wal w → t.batch w.operations) {o : Op} {c : Choice} {r : Res o} (ho : o.Within t) (h : s.From t s₀)
    (he : exec pid o c s = some (r, s')) : o.Admits t r ∧ s'.From t s₀ := by
  -- a step that succeeds or fails, and changes nothing of the kind when it succeeds
  have htry : ∀ {o : Op} {success : Res o × State} {failure r : Res o},
      tryStep pid c s o success failure = some (r, s') → success.2.From t s₀ → s'.From t s₀ := by
    intro o success failure r he hs
    rcases tryStep_eq_some he with he | ⟨-, rfl⟩
    · rw [← he] at hs
      exact hs
    · exact h.of_eq rfl rfl rfl
  cases o with
  | lock site =>
    refine ⟨trivial, ?_⟩
    have he : execLock pid c s site = some (r, s') := he
    unfold execLock at he
    split at he
    · split at he
      · cases he
        unfold State.noteHazard
        split <;> exact h.of_eq rfl rfl rfl
      · cases he
    · cases he
      exact h.of_eq rfl rfl rfl
    · cases he
  | unlock l =>
    refine ⟨trivial, ?_⟩
    simp only [exec] at he
    split at he
    · cases he
      split
      · exact h.of_eq rfl rfl rfl
      · exact h
    · cases he
  | closeManifestLock saved =>
    refine ⟨trivial, ?_⟩
    simp only [exec] at he
    split at he
    · cases he
      exact h.of_eq rfl rfl rfl
    · cases he
      exact h.of_eq rfl rfl rfl
    · cases he
  | walLoad =>
    refine ⟨?_, htry he h⟩
    rintro w rfl
    rcases tryStep_eq_some he with he | ⟨hr, -⟩
    · exact h.wal w (Except.ok.inj (Prod.mk.inj he).1).symm
    · cases hr
  | installWal w =>
    refine ⟨trivial, htry he ⟨h.dirs, ?_, h.committed⟩⟩
    rintro w' ⟨rfl⟩
    exact hwal _ ho
  | unlinkWal why =>
    refine ⟨trivial, htry he ?_⟩
    dsimp only
    split <;> exact ⟨h.dirs, fun w hw => (by cases hw), h.committed⟩
  | mkdtemp kind generation =>
    have he : execMkdtemp pid c s kind generation = some (r, s') := he
    unfold execMkdtemp at he
    split at he
    · rename_i n _
      split at he
      · rename_i hnone
        cases he
        have hnew : s₀.disk.segments ⟨kind, generation, n⟩ = none := by
          by_contra hne
          obtain ⟨dir, hdir⟩ := Option.ne_none_iff_exists'.mp hne
          cases hnone.symm.trans (h.dirs _ dir hdir)
        refine ⟨?_, h.setDir hnew _⟩
        rintro dir ⟨rfl⟩
        exact (hdir _).mpr hnew
      · cases he
    · cases he
      exact ⟨fun dir hdir => (by cases hdir), h.of_eq rfl rfl rfl⟩
    · cases he
  | writeComponent dir f =>
    refine ⟨trivial, ?_⟩
    have hset := h.setFile ((hdir dir).mp ho) f.payload.component (some f)
    have he : execWriteComponent pid c s dir f = some (r, s') := he
    unfold execWriteComponent at he
    dsimp only at he
    split at he
    · cases he
      exact hset
    · cases he
      exact h.of_eq rfl rfl rfl
    · cases he
      exact hset.of_eq rfl rfl rfl
    · cases he
  | unlinkComponent dir comp => exact ⟨trivial, htry he (h.setFile ((hdir dir).mp ho) comp none)⟩
  | rmdir dir =>
    refine ⟨trivial, ?_⟩
    have he : execRmdir pid c s dir = some (r, s') := he
    unfold execRmdir at he
    split at he
    · split at he
      · cases he
        exact h
      · split at he
        · cases he
          exact h.setDir ((hdir dir).mp ho) none
        · cases he
          exact h
    · cases he
      exact h.of_eq rfl rfl rfl
    · cases he
  | listSegments =>
    refine ⟨trivial, ?_⟩
    have he : execListSegments pid c s = some (r, s') := he
    unfold execListSegments at he
    split at he
    · split at he
      · cases he
        exact h
      · cases he
    · cases he
      exact h.of_eq rfl rfl rfl
    · cases he
  | installManifest m what =>
    obtain ⟨ops, rfl, hops⟩ := ho
    refine ⟨trivial, htry he ⟨h.dirs, h.wal, ?_⟩⟩
    obtain ⟨more, hmore, hall⟩ := h.committed
    exact ⟨ops :: more, congrArg (ops :: ·) hmore, List.forall_mem_cons.mpr ⟨hops, hall⟩⟩
  | stuck => cases he
  | _ => exact ⟨trivial, htry he h⟩

/-- **What a program within the scope leaves**, when it runs alone. -/
theorem State.From.run (hdir : ∀ id, t.dir id ↔ s₀.disk.segments id = none)
    (hwal : ∀ w, t.wal w → t.batch w.operations) {α : Type} {p : Code α} (hp : Stays t p) {choices : List Choice} {a : α}
    (h : s.From t s₀) (hrun : p.run exec pid choices s = some (a, s')) : s'.From t s₀ :=
  (Prog.Keeps.run (K := fun s => s.From t s₀) (fun ho hs he => State.From.step hdir hwal ho hs he) hp h hrun).2

end Scope

/-! ## Calls that run alone -/

section Alone

/-- Alone, the program leads from `A` to `B`. -/
abbrev Alone {α : Type} (pid : Pid) (A : State → Prop) (p : Code α) (B : α → State → Prop) : Prop :=
  Ends exec pid A p B

theorem Spec.alone {α : Type} {strict : Bool} {A : State → Prop} {p : Code α} {B : α → State → Prop}
    (h : Spec env cfg L₀ strict pid A p B) : Alone pid A p B :=
  Triple.ends (Rely.refl pid) h

/-- Taking a lock: it is taken, or the step fails. -/
theorem lock_alone (site : LockSite) {A : State → Prop} :
    Alone pid A (perform (.lock site)) fun r s =>
      (r = true ∧ ∃ s₀, A s₀ ∧ s₀.locks site.lock = none ∧ s = (s₀.noteHazard pid site).setLock site.lock (some pid)) ∨
      (r = false ∧ ∃ s₀, A s₀ ∧ s = s₀.fault pid (.lock site)) := by
  refine Ends.perform fun s c r s' hs he => ?_
  have he : execLock pid c s site = some (r, s') := he
  unfold execLock at he
  split at he
  · split at he
    · rename_i hnone
      cases he
      exact .inl ⟨rfl, s, hs, hnone, rfl⟩
    · cases he
  · cases he
    exact .inr ⟨rfl, s, hs, rfl⟩
  · cases he

/-- Releasing `writer.lock`, which the process holds. -/
theorem unlock_alone {A : State → Prop} (hheld : ∀ s, A s → s.locks .writer = some pid) :
    Alone pid A (perform (.unlock .writer)) fun _ s => ∃ s₀, A s₀ ∧ s = s₀.setLock .writer none := by
  refine Ends.perform fun s c r s' hs he => ?_
  simp only [exec] at he
  split at he
  · rw [if_pos (hheld s hs)] at he
    cases he
    exact ⟨s, hs, rfl⟩
  · cases he

/-- What a recovery that runs alone leaves: it finds no WAL, or cannot see whether there is one, or cannot take
`writer.lock`, or has recovered what it found. -/
inductive RecoveredAlone (env : Env) (cfg : Config) (L₀ : Logical) (pid : Pid) (l : Ledger) (m : Manifest)
    (status : Status) (s : State) : Prop
  | skipped (ok : status = .ok) (ledger : s.ledger = l) (why : l.wal = none ∨ s.Failed pid .walExists)
  | shut (ne : status ≠ .ok) (ledger : s.ledger = l) (why : s.Failed pid (.lock .recover))
  | done (s₁ : State) (recovered : Recovered env cfg L₀ pid l m status s₁) (eq : s = s₁.setLock .writer none)

/-- **The specification of `YAP_V2_update_recover`** for a process that runs alone. -/
theorem updateRecover_alone (hl : LedgerOk env cfg L₀ l m) :
    Alone pid (fun s => Outside env cfg L₀ pid s ∧ s.ledger = l) (updateRecover env cfg) fun status s =>
      Outside env cfg L₀ pid s ∧ RecoveredAlone env cfg L₀ pid l m status s := by
  have hexists : Alone pid (fun s => Outside env cfg L₀ pid s ∧ s.ledger = l) (perform .walExists) fun r s =>
      (Outside env cfg L₀ pid s ∧ s.ledger = l) ∧ (r = false → l.wal = none ∨ s.Failed pid .walExists) := by
    refine Ends.perform fun s c r s' hs he => ?_
    rcases tryStep_eq_some he with he | ⟨rfl, rfl⟩
    · obtain ⟨rfl, rfl⟩ := Prod.mk.inj he
      refine ⟨hs, fun hno => .inl ?_⟩
      rw [Option.isSome_eq_false_iff, Option.isNone_iff_eq_none] at hno
      exact (congrArg Ledger.wal hs.2).symm.trans hno
    · have hrely : Rely env cfg L₀ pid s (s.fault pid .walExists) := Rely.fault pid pid s _
      exact ⟨⟨Stable.rely hs.1 hrely, hs.2⟩, fun _ => .inr (s.failed_fault _)⟩
  refine Ends.bind hexists fun present => ?_
  split
  · refine Ends.bind (lock_alone .recover) fun locked => ?_
    split
    · rename_i hlocked
      refine Ends.bind (B := fun status s => Recovered env cfg L₀ pid l m status s) ?_ fun status => ?_
      · refine Ends.conseq (recoverSection_spec hl : Spec env cfg L₀ false pid _ _ _).alone ?_ fun _ _ h => h
        rintro s (⟨-, s₀, ⟨⟨hout, rfl⟩, -⟩, hnone, rfl⟩ | ⟨hno, -⟩)
        · exact hout.enter hnone rfl
        · exact absurd (hlocked.symm.trans hno) (by simp)
      · refine Ends.bind (unlock_alone ?_) fun _ => Ends.pure ?_
        · rintro s ⟨l', hs, -⟩
          exact hs.1.held
        · rintro s ⟨s₁, h, rfl⟩
          obtain ⟨l', hs, -⟩ := id h
          have hleave := hs.leave
          rw [if_pos hs.1.held] at hleave
          exact ⟨hleave, .done s₁ h rfl⟩
    · rename_i hlocked
      refine Ends.pure ?_
      rintro s (⟨hyes, -⟩ | ⟨-, s₀, ⟨⟨hout, hledger⟩, -⟩, rfl⟩)
      · exact absurd hyes hlocked
      · have hrely : Rely env cfg L₀ pid s₀ (s₀.fault pid (.lock .recover)) := Rely.fault pid pid s₀ _
        exact ⟨Stable.rely hout hrely, .shut (by simp) hledger (s₀.failed_fault _)⟩
  · rename_i hpresent
    refine Ends.pure fun s h => ⟨h.1.1, .skipped rfl h.1.2 (h.2 ?_)⟩
    simpa using hpresent

/-- A manifest has been published since. -/
def State.Newer (m : Manifest) (s : State) : Prop :=
  ∃ m', s.disk.manifest = some m' ∧ m.generation < m'.generation

theorem Publishes.newer {m' : Manifest} (h : Publishes env cfg m m' ops) {s : State}
    (hs : s.disk.manifest = some m') : s.Newer m :=
  ⟨m', hs, by rw [h.generation]; exact Nat.lt_succ_self _⟩

/-- After a recovery the WAL is gone or the old one, unless it was published. -/
theorem RecoveredAlone.wal (hl : LedgerOk env cfg L₀ l m) {status : Status} {s : State}
    (h : RecoveredAlone env cfg L₀ pid l m status s) :
    (s.disk.manifest = some m ∧ (s.disk.wal = none ∨ s.disk.wal = l.wal)) ∨ s.Newer m := by
  cases h with
  | skipped ok ledger why =>
    exact .inl ⟨(congrArg Ledger.manifest ledger).trans hl.manifest, .inr (congrArg Ledger.wal ledger)⟩
  | shut ne ledger why =>
    exact .inl ⟨(congrArg Ledger.manifest ledger).trans hl.manifest, .inr (congrArg Ledger.wal ledger)⟩
  | done s₁ recovered eq =>
    obtain ⟨l', hs, hout⟩ := recovered
    subst eq
    have hmanifest : (s₁.setLock .writer none).disk.manifest = l'.manifest := congrArg Ledger.manifest hs.1.ledger
    have hwal : (s₁.setLock .writer none).disk.wal = l'.wal := congrArg Ledger.wal hs.1.ledger
    rw [hmanifest, hwal]
    rcases hout with ⟨-, hnone, ⟨hm, -⟩ | ⟨ops, m', -, hpub, hm', -⟩⟩ |
      ⟨-, ⟨hm, hold | hnone⟩ | ⟨ops, m', hpub, hm'⟩, -⟩
    · exact .inl ⟨hm, .inl hnone⟩
    · exact .inr (hpub.newer (hmanifest.trans hm'))
    · exact .inl ⟨hm, .inr hold⟩
    · exact .inl ⟨hm, .inl hnone⟩
    · exact .inr (hpub.newer (hmanifest.trans hm'))

/-- The WAL of the batch stays behind only if one of two steps has failed. -/
def State.Withdrawn (pid : Pid) (w : Option Wal) (s : State) : Prop :=
  s.disk.wal = none ∨ s.disk.wal = w ∨ s.Failed pid (.syncIndexDir .walWrite) ∨ s.Failed pid (.unlinkWal .withdrawn)

/-- **`apply_operations` withdraws its WAL**, for a process that runs alone. -/
theorem applyOperations_alone (hl : LedgerOk env cfg L₀ l m) :
    Alone pid (fun s => Outside env cfg L₀ pid s ∧ s.ledger = l)
      (applyOperations env cfg ops updateMaxOperations false true 0) fun status s =>
        status = .ok ∨ s.Newer m ∨ (s.disk.manifest = some m ∧ s.Withdrawn pid l.wal) := by
  have hsame : ∀ {s : State}, s.ledger = l → s.disk.manifest = some m ∧ s.Withdrawn pid l.wal := fun h =>
    ⟨(congrArg Ledger.manifest h).trans hl.manifest, .inr (.inl (congrArg Ledger.wal h))⟩
  rw [applyOperations]
  split
  · exact Ends.pure fun s h => .inr (.inr (hsame h.2))
  · rename_i hlimit
    rw [not_or, not_lt] at hlimit
    rw [if_neg (by simp)]
    refine Ends.bind (lock_alone .apply) fun locked => ?_
    split
    · rename_i hlocked
      refine Ends.bind (B := fun status s => Updated env cfg L₀ pid l m ops status s) ?_ fun status => ?_
      · refine Ends.conseq (applySection_spec hl hlimit.1 hlimit.2 : Spec env cfg L₀ false pid _ _ _).alone ?_
          fun _ _ h => h
        rintro s (⟨-, s₀, ⟨hout, rfl⟩, hnone, rfl⟩ | ⟨hno, -⟩)
        · exact ⟨hout.enter hnone rfl, Outside.clear (Or.inl rfl)⟩
        · exact absurd (hlocked.symm.trans hno) (by simp)
      · refine Ends.bind (unlock_alone ?_) fun _ => Ends.pure ?_
        · rintro s ⟨l', hs, -⟩
          exact hs.1.held
        · rintro s ⟨s₁, ⟨l', hs, hout⟩, rfl⟩
          have hmanifest : (s₁.setLock .writer none).disk.manifest = l'.manifest := congrArg Ledger.manifest hs.1.ledger
          have hwal : (s₁.setLock .writer none).disk.wal = l'.wal := congrArg Ledger.wal hs.1.ledger
          rcases hout with ⟨hok, -⟩ | ⟨-, -, m', hpub, hm'⟩ | ⟨-, hm, hlog, -⟩
          · exact .inl hok
          · exact .inr (.inl (hpub.newer (hmanifest.trans hm')))
          · refine .inr (.inr ⟨hmanifest.trans (hm.trans hl.manifest), ?_⟩)
            rw [State.Withdrawn, hwal]
            rcases hlog with hold | hnone | ⟨-, hfail⟩
            · exact .inr (.inl hold)
            · exact .inl hnone
            · exact .inr (.inr hfail)
    · rename_i hlocked
      refine Ends.pure ?_
      rintro s (⟨hyes, -⟩ | ⟨-, s₀, ⟨hout, hledger⟩, rfl⟩)
      · exact absurd hyes hlocked
      · exact .inr (.inr (hsame hledger))

/-- **`YAP_V2_update_apply` withdraws its WAL**, for a process that runs alone. -/
theorem updateApply_alone (hl : LedgerOk env cfg L₀ l m) :
    Alone pid (fun s => Outside env cfg L₀ pid s ∧ s.ledger = l) (updateApply env cfg ops) fun status s =>
      status = .ok ∨ s.Newer m ∨ (s.disk.manifest = some m ∧ s.Withdrawn pid l.wal) := by
  refine Ends.bind (updateRecover_alone hl) fun status => ?_
  split
  · refine Ends.pure fun s h => .inr ?_
    rcases h.2.wal hl with ⟨hm, hnone | hold⟩ | hnewer
    · exact .inr ⟨hm, .inl hnone⟩
    · exact .inr ⟨hm, .inr (.inl hold)⟩
    · exact .inl hnewer
  · -- what follows starts from the ledger that the recovery leaves
    intro choices s status' s' h hrun
    obtain ⟨m₁, hl₁⟩ : ∃ m₁, LedgerOk env cfg L₀ s.ledger m₁ := by
      obtain ⟨m₁, hinv⟩ := h.1.2.2
      exact ⟨m₁, hinv.ledger⟩
    have hm₁ : s.disk.manifest = some m₁ := hl₁.manifest
    rcases applyOperations_alone hl₁ choices s status' s' ⟨h.1, rfl⟩ hrun with hok | hnewer | ⟨hm', hwal'⟩
    · exact .inl hok
    · obtain ⟨m', hm', hlt⟩ := hnewer
      refine .inr (.inl ⟨m', hm', ?_⟩)
      rcases h.2.wal hl with ⟨hm, -⟩ | ⟨m₂, hm₂, hlt₂⟩
      · obtain rfl := Option.some.inj (hm.symm.trans hm₁)
        exact hlt
      · obtain rfl := Option.some.inj (hm₂.symm.trans hm₁)
        exact hlt₂.trans hlt
    · rcases h.2.wal hl with ⟨hm, hwal⟩ | ⟨m₂, hm₂, hlt₂⟩
      · obtain rfl := Option.some.inj (hm.symm.trans hm₁)
        refine .inr (.inr ⟨hm', ?_⟩)
        rcases hwal' with hnone | hold | hfail
        · exact .inl hnone
        · rcases hwal with hnone | hsame
          · exact .inl (hold.trans hnone)
          · exact .inr (.inl (hold.trans hsame))
        · exact .inr (.inr hfail)
      · obtain rfl := Option.some.inj (hm₂.symm.trans hm₁)
        exact .inr (.inl ⟨_, hm', hlt₂⟩)

end Alone

/-! ## What a rejected update leaves -/

section Rejected

variable {m₀ : Manifest} {s₀ : State}

/-- **A rejected update is withdrawn**, unless the sync of the index directory after the rename of `update.wal` was
what failed.  A call that runs alone in any state an index can get into, with removals that work, and that answers an
error without a new manifest, leaves no WAL that was not there before, and every segment directory as it was; a
recovery later publishes nothing but the batch of a WAL that was there before. -/
theorem rejected_update_withdrawn (h₀ : Opened env cfg m₀ s₀) {c : System} (h : Reachable env cfg s₀ c) {pid : Pid}
    (hidle : c.state.idle pid = true) {ops : List IngestOperation} {choices : List Choice} {status : Status}
    {s : State} (hrun : (updateApply env cfg ops).run exec pid choices c.state = some (status, s))
    (hstatus : status ≠ .ok) (hkept : s.disk.manifest = c.state.disk.manifest)
    (hremoved : ¬ s.Failed pid (.unlinkWal .withdrawn)) (hsynced : ¬ s.Failed pid (.syncIndexDir .walWrite)) :
    (s.disk.wal = none ∨ s.disk.wal = c.state.disk.wal) ∧
    (∀ id dir, c.state.disk.segments id = some dir → s.disk.segments id = some dir) ∧
    ∀ later choices' status' s', (updateRecover env cfg).run exec later choices' s = some (status', s') →
      ∃ more, s'.history.committed = more ++ s.history.committed ∧
        ∀ batch ∈ more, ∃ w, c.state.disk.wal = some w ∧ w.operations = batch := by
  obtain ⟨m, hinv⟩ := id (h.good h₀).1
  have hl := hinv.ledger
  have hm : c.state.disk.manifest = some m := hl.manifest
  simp only [State.idle, decide_eq_true_eq] at hidle
  have hwal : s.disk.wal = none ∨ s.disk.wal = c.state.disk.wal := by
    rcases updateApply_alone hl choices c.state status s ⟨⟨hidle.1, hidle.2.2.1, m, hinv⟩, rfl⟩ hrun with
      hok | ⟨m', hm', hlt⟩ | ⟨-, hnone | hold | hfail | hfail⟩
    · exact absurd hok hstatus
    · obtain rfl := Option.some.inj (hm'.symm.trans (hkept.trans hm))
      exact absurd hlt (lt_irrefl _)
    · exact .inl hnone
    · exact .inr hold
    · exact absurd hfail hsynced
    · exact absurd hfail hremoved
  refine ⟨hwal, ?_, fun later choices' status' s' hlater => ?_⟩
  · have hstays : Stays ⟨fun id => c.state.disk.segments id = none, fun _ => True, fun _ => True⟩
        (updateApply env cfg ops) := by
      refine (stays_updateRecover env cfg).bind fun status => ?_
      split
      · exact stays_pure
      · exact stays_applyOperations env cfg trivial (fun _ _ => trivial) _ _ _
    exact (State.From.run (fun _ => Iff.rfl) (fun _ _ => trivial) hstays
      ⟨fun _ _ h => h, fun _ _ => trivial, [], rfl, by simp⟩ hrun).dirs
  · have hstays : Stays ⟨fun id => s.disk.segments id = none,
        fun batch => ∃ w, c.state.disk.wal = some w ∧ w.operations = batch, fun _ => False⟩
        (updateRecover env cfg) := stays_updateRecover env cfg
    refine (State.From.run (fun _ => Iff.rfl) (fun _ (hno : False) => hno.elim) hstays
      ⟨fun _ _ h => h, fun w hw => ?_, [], rfl, by simp⟩ hlater).committed
    rcases hwal with hnone | hold
    · cases hnone.symm.trans hw
    · exact ⟨w, hold.symm.trans hw, rfl⟩

end Rejected

/-- The steps of an update on the small index up to its WAL, then others. -/
def afterWal (more : List Choice) : List Choice := List.replicate 6 .ok ++ more

theorem rejected_update_withdrawn_mkdtemp : ∃ s,
    (updateApply sampleEnv sampleConfig [upsertX]).run exec 1 (afterWal [.ok, .fail, .ok, .ok, .ok]) emptyState =
      some (.ioError, s) ∧ s.history.wals.length = 1 ∧ s.disk.wal = none := by
  obtain ⟨⟨status, s⟩, hrun, hcheck⟩ := (Option.any_eq_true ..).mp (show
    ((updateApply sampleEnv sampleConfig [upsertX]).run exec 1 (afterWal [.ok, .fail, .ok, .ok, .ok]) emptyState).any
      (fun x => x.1 = .ioError ∧ x.2.disk.manifest = some emptyManifest ∧ x.2.history.wals.length = 1 ∧
        x.2.history.faults = [(1, .mkdtemp .seg 2)]) = true by decide +kernel)
  rw [decide_eq_true_eq] at hcheck
  obtain ⟨rfl, hmanifest, hlogged, hfaults⟩ := hcheck
  have hother : ∀ o : Op, o ≠ .mkdtemp .seg 2 → ¬ s.Failed 1 o := by
    intro o ho hfail
    have hmem : (1, o) ∈ [((1 : Pid), Op.mkdtemp .seg 2)] := hfaults ▸ (show (1, o) ∈ s.history.faults from hfail)
    exact ho (Prod.mk.inj (List.mem_singleton.mp hmem)).2
  have hwal := (rejected_update_withdrawn emptyState_opened .refl (show emptyState.idle 1 = true by decide) hrun
    (by decide) hmanifest (hother _ (by decide)) (hother _ (by decide))).1
  exact ⟨s, hrun, hlogged, hwal.elim id id⟩

/-- **A rejected update that is applied later.**  The sync of the index directory after the rename of `update.wal` fails;
the update is answered with an error, the WAL stays, and the next recovery publishes its batch. -/
theorem rejected_update_applied : ∃ s s',
    (updateApply sampleEnv sampleConfig [upsertX]).run exec 1 (afterWal [.fail, .ok]) emptyState = some (.ioError, s) ∧
    s.history.faults = [(1, .syncIndexDir .walWrite)] ∧ s.disk.manifest = some emptyManifest ∧
    s.disk.wal = some ⟨1, [upsertX]⟩ ∧
    (updateRecover sampleEnv sampleConfig).run exec 2
      (List.replicate 8 .ok ++ [.suffix 0] ++ List.replicate 20 .ok) s = some (.ok, s') ∧
    s'.history.committed = [[upsertX]] := by
  obtain ⟨⟨status, s⟩, hrun, hcheck⟩ := (Option.any_eq_true ..).mp (show
    ((updateApply sampleEnv sampleConfig [upsertX]).run exec 1 (afterWal [.fail, .ok]) emptyState).any
      (fun x => x.1 = .ioError ∧ x.2.history.faults = [(1, .syncIndexDir .walWrite)] ∧
        x.2.disk.manifest = some emptyManifest ∧ x.2.disk.wal = some ⟨1, [upsertX]⟩ ∧
        ((updateRecover sampleEnv sampleConfig).run exec 2
          (List.replicate 8 .ok ++ [.suffix 0] ++ List.replicate 20 .ok) x.2).any
          (fun y => y.1 = .ok ∧ y.2.history.committed = [[upsertX]]) = true) = true by decide +kernel)
  rw [decide_eq_true_eq] at hcheck
  obtain ⟨rfl, hfaults, hmanifest, hwal, hlater⟩ := hcheck
  obtain ⟨⟨status, s'⟩, hrun', hcheck'⟩ := (Option.any_eq_true ..).mp hlater
  rw [decide_eq_true_eq] at hcheck'
  obtain ⟨rfl, hcommitted⟩ := hcheck'
  exact ⟨s, s', hrun, hfaults, hmanifest, hwal, hrun', hcommitted⟩

end Yappod

import Yappod.System.Invariant

/-!
# Rules for the steps

Triples for the programs of the index (`Spec`), the assertions that make them up, and one rule for
each kind of step.  Assertions are stable: the other processes cannot break them (`Stable`).  Those
that only speak of the ledger, the locks and what has failed are also untouched by a change of a
segment directory (`Framed`), so that a program that writes segments keeps whatever its caller knows
of the rest.

* `Spec.passive` is the rule of the steps that only read or sync.
* `Spec.dirStep` is the rule of the steps on a segment directory.
-/

set_option autoImplicit false

namespace Yappod

variable (env : Env) (cfg : Config) (L₀ : Logical)

/-- What has to hold before a step: no process waits for a lock it holds, and a manifest is of the
next generation.  A strict program has no loop that another process can keep it in. -/
def Ready (strict : Bool) (pid : Pid) : Op → State → Prop
  | .lock site, s => s.locks site.lock ≠ some pid
  | .installManifest m _, s => ∃ current, s.disk.manifest = some current ∧
      m.generation = current.generation + 1
  | .stuck, _ => strict = false
  | _, _ => True

/-- Triples for the programs of the index. -/
abbrev Spec {α : Type} (strict : Bool) (pid : Pid) (A : State → Prop) (p : Code α)
    (B : α → State → Prop) : Prop :=
  Triple exec (Ready strict) (Rely env cfg L₀) (Guar env cfg) pid A p B

/-! ## Assertions -/

namespace State

/-- The process holds the lock. -/
def Holds (pid : Pid) (l : Lock) (s : State) : Prop := s.locks l = some pid

/-- The process does not hold the lock. -/
def Free (pid : Pid) (l : Lock) (s : State) : Prop := s.locks l ≠ some pid

/-- Something has failed for the process. -/
def Faulty (pid : Pid) (s : State) : Prop := ∃ o, s.Failed pid o

/-- The process holds `writer.lock`, and this is the ledger. -/
structure Frozen (pid : Pid) (l : Ledger) (s : State) : Prop where
  held : s.locks .writer = some pid
  ledger : s.ledger = l

/-- A fact that holds as long as everything is in order. -/
def Provided (P : Prop) (s : State) : Prop := s.Orderly → P

/-- At least `n` WALs have been installed. -/
def Reached (n : Nat) (s : State) : Prop := n ≤ s.history.wals.length

/-- As long as everything is in order, the batches of the first `n` WALs are settled. -/
def Calm (n : Nat) (s : State) : Prop := s.Orderly → s.Settled n

end State

/-- An assertion that does not speak of segment directories. -/
class Framed (A : State → Prop) : Prop where
  frame : ∀ {s s' : State}, A s → s'.ledger = s.ledger → s'.locks = s.locks →
    s.history.faults <:+ s'.history.faults → s.history.hazards <:+ s'.history.hazards → A s'

section Instances

variable {env cfg L₀} {pid q : Pid}

instance : Stable (Rely env cfg L₀) pid (Inv env cfg L₀) := ⟨fun h hr => hr.inv h⟩

instance {l : Lock} : Stable (Rely env cfg L₀) pid (State.Holds pid l) :=
  ⟨fun h hr => (hr.locks l).mpr h⟩

instance {l : Lock} : Stable (Rely env cfg L₀) pid (State.Free pid l) :=
  ⟨fun h hr h' => h ((hr.locks l).mp h')⟩

instance {kind : SegmentKind} : Stable (Rely env cfg L₀) pid (State.Held pid kind) :=
  ⟨fun h hr => by cases kind <;> exact (hr.locks _).mpr h⟩

instance {o : Op} : Stable (Rely env cfg L₀) pid (State.Failed q o) :=
  ⟨fun h hr => hr.faults.subset h⟩

instance : Stable (Rely env cfg L₀) pid (State.Misled q) :=
  ⟨fun ⟨o, ho, h⟩ hr => ⟨o, ho, hr.faults.subset h⟩⟩

instance : Stable (Rely env cfg L₀) pid (State.Faulty q) :=
  ⟨fun ⟨o, h⟩ hr => ⟨o, hr.faults.subset h⟩⟩

instance {n : Nat} : Stable (Rely env cfg L₀) pid (State.Settled n) :=
  ⟨fun h hr => hr.settled n h⟩

instance {n : Nat} : Stable (Rely env cfg L₀) pid (State.Reached n) :=
  ⟨fun h hr => le_trans h hr.logged⟩

instance {n : Nat} : Stable (Rely env cfg L₀) pid (State.Calm n) :=
  ⟨fun h hr ho => hr.settled n (h (ho.of_suffix hr.faults hr.hazards))⟩

instance {l : Ledger} : Stable (Rely env cfg L₀) pid (State.Frozen pid l) :=
  ⟨fun h hr => ⟨(hr.locks _).mpr h.held, (hr.writer h.held).1.trans h.ledger⟩⟩

instance {P : Prop} : Stable (Rely env cfg L₀) pid (State.Provided P) :=
  ⟨fun h hr ho => h (ho.of_suffix hr.faults hr.hazards)⟩

instance (P : Prop) : Framed fun _ => P := ⟨fun h _ _ _ _ => h⟩

instance {A B : State → Prop} [Framed A] [Framed B] : Framed fun s => A s ∧ B s :=
  ⟨fun h h₁ h₂ h₃ h₄ => ⟨Framed.frame h.1 h₁ h₂ h₃ h₄, Framed.frame h.2 h₁ h₂ h₃ h₄⟩⟩

instance {A B : State → Prop} [Framed A] [Framed B] : Framed fun s => A s ∨ B s :=
  ⟨fun h h₁ h₂ h₃ h₄ => h.imp (Framed.frame · h₁ h₂ h₃ h₄) (Framed.frame · h₁ h₂ h₃ h₄)⟩

instance {ι : Sort*} {A : ι → State → Prop} [∀ i, Framed (A i)] : Framed fun s => ∃ i, A i s :=
  ⟨fun ⟨i, h⟩ h₁ h₂ h₃ h₄ => ⟨i, Framed.frame h h₁ h₂ h₃ h₄⟩⟩

instance {ι : Sort*} {A : ι → State → Prop} [∀ i, Framed (A i)] : Framed fun s => ∀ i, A i s :=
  ⟨fun h h₁ h₂ h₃ h₄ i => Framed.frame (h i) h₁ h₂ h₃ h₄⟩

instance {l : Lock} : Framed (State.Holds pid l) :=
  ⟨fun h _ h₂ _ _ => (congrFun h₂ l).trans h⟩

instance {l : Lock} : Framed (State.Free pid l) :=
  ⟨fun h _ h₂ _ _ h' => h ((congrFun h₂ l).symm.trans h')⟩

instance {kind : SegmentKind} : Framed (State.Held pid kind) :=
  ⟨fun h _ h₂ _ _ => by cases kind <;> exact (congrFun h₂ _).trans h⟩

instance {o : Op} : Framed (State.Failed pid o) := ⟨fun h _ _ h₃ _ => h₃.subset h⟩

instance : Framed (State.Misled pid) := ⟨fun ⟨o, ho, h⟩ _ _ h₃ _ => ⟨o, ho, h₃.subset h⟩⟩

instance : Framed (State.Faulty pid) := ⟨fun ⟨o, h⟩ _ _ h₃ _ => ⟨o, h₃.subset h⟩⟩

instance {n : Nat} : Framed (State.Settled n) := ⟨fun {s s'} h h₁ _ _ _ => by
  have hw : s'.history.wals = s.history.wals := congrArg Ledger.wals h₁
  rw [State.Settled, hw]
  exact h⟩

instance {l : Ledger} : Framed (State.Frozen pid l) :=
  ⟨fun h h₁ h₂ _ _ => ⟨(congrFun h₂ _).trans h.held, h₁.trans h.ledger⟩⟩

instance {P : Prop} : Framed (State.Provided P) :=
  ⟨fun h _ _ h₃ h₄ ho => h (ho.of_suffix h₃ h₄)⟩

instance {id : SegmentId} : Framed (State.Unlisted id) :=
  ⟨fun h h₁ _ _ _ m hm => h m ((congrArg Ledger.manifest h₁).symm.trans hm)⟩

end Instances

variable {env cfg L₀} {strict : Bool} {pid : Pid} {α β : Type} {A : State → Prop}

/-! ## Programs -/

theorem Spec.bind {B : α → State → Prop} {C : β → State → Prop} {p : Code α} {f : α → Code β}
    (hp : Spec env cfg L₀ strict pid A p B)
    (hf : ∀ a, Spec env cfg L₀ strict pid (B a) (f a) C) :
    Spec env cfg L₀ strict pid A (p >>= f) C :=
  Triple.bind (Rely.refl pid) hp hf

theorem Spec.ret {a : α} {B : α → State → Prop} [Stable (Rely env cfg L₀) pid (B a)]
    (h : ∀ s, A s → B a s) : Spec env cfg L₀ strict pid A (pure a) B :=
  Triple.pure h

/-! ## Steps that change nothing -/

theorem Guar.refl (pid : Pid) (s : State) : Guar env cfg pid s s :=
  ⟨fun _ _ _ => Iff.rfl, List.suffix_refl _, List.suffix_refl _, .none rfl rfl⟩

/-- A step that fails. -/
theorem Guar.fault (pid : Pid) (s : State) (o : Op) : Guar env cfg pid s (s.fault pid o) :=
  ⟨fun _ _ _ => Iff.rfl, List.suffix_cons _ _, List.suffix_refl _, .none rfl rfl⟩

/-- A failure is nothing an assertion has to fear. -/
theorem Rely.fault (pid q : Pid) (s : State) (o : Op) :
    Rely env cfg L₀ pid s (s.fault q o) where
  inv := (Guar.fault q s o).inv
  locks _ := Iff.rfl
  faults := List.suffix_cons _ _
  hazards := List.suffix_refl _
  settled _ h := h
  logged := le_rfl
  writer _ := ⟨rfl, fun _ _ => rfl⟩
  compaction _ := ⟨fun _ _ => rfl, fun _ h _ => h, fun _ _ h => h,
    fun m h => ⟨m, [], h, le_rfl, (List.append_nil _).symm, by simp⟩⟩

theorem State.failed_fault (s : State) (o : Op) : (s.fault pid o).Failed pid o :=
  List.mem_cons_self ..

/-- The outcomes of a step that succeeds or fails. -/
theorem tryStep_eq_some {α : Type} {c : Choice} {s s' : State} {o : Op} {success : α × State}
    {failure r : α} (h : tryStep pid c s o success failure = some (r, s')) :
    (r, s') = success ∨ (r = failure ∧ s' = s.fault pid o) := by
  unfold tryStep at h
  split at h
  · exact Or.inl (Option.some.inj h).symm
  · cases h
    exact Or.inr ⟨rfl, rfl⟩
  · cases h

/-- The lock that a step takes or releases. -/
def Op.lockFile : Op → Option Lock
  | .lock site => some site.lock
  | .unlock l => some l
  | .closeManifestLock _ => some .manifest
  | _ => none

theorem State.locks_setFile (s : State) (id : SegmentId) (c : Component) (f : Option File) :
    (s.setFile id c f).locks = s.locks := by
  unfold State.setFile
  split <;> rfl

/-- A step leaves the other locks alone. -/
theorem exec_locks {o : Op} {c : Choice} {r : Res o} {s s' : State}
    (he : exec pid o c s = some (r, s')) {l : Lock} (hl : o.lockFile ≠ some l) :
    s'.locks l = s.locks l := by
  have hother : ∀ {l' : Lock} (p : Option Pid), some l' ≠ some l →
      (s.setLock l' p).locks l = s.locks l := by
    intro l' p hne
    have : l ≠ l' := fun h => hne (congrArg some h.symm)
    simp [State.setLock, this]
  -- a step that succeeds or fails, whose success leaves the lock alone
  have htry : ∀ {o : Op} {success : Res o × State} {failure r : Res o},
      tryStep pid c s o success failure = some (r, s') → success.2.locks l = s.locks l →
      s'.locks l = s.locks l := by
    intro o success failure r he hs
    rcases tryStep_eq_some he with he | ⟨-, rfl⟩
    · rw [← he] at hs
      exact hs
    · rfl
  cases o with
  | lock site =>
    have he : execLock pid c s site = some (r, s') := he
    unfold execLock at he
    split at he
    · split at he
      · cases he
        have hnote : (s.noteHazard pid site).locks l = s.locks l := by
          unfold State.noteHazard
          split <;> rfl
        have hne : l ≠ site.lock := fun h => hl (congrArg some h.symm)
        simp [State.setLock, hne, hnote]
      · cases he
    · cases he
      rfl
    · cases he
  | unlock l' =>
    simp only [exec] at he
    split at he
    · cases he
      split
      · exact hother none hl
      · rfl
    · cases he
  | closeManifestLock saved =>
    simp only [exec] at he
    split at he
    · cases he
      exact hother none hl
    · cases he
      exact hother none hl
    · cases he
  | unlinkWal why =>
    refine htry he ?_
    dsimp only
    split <;> rfl
  | mkdtemp kind generation =>
    have he : execMkdtemp pid c s kind generation = some (r, s') := he
    unfold execMkdtemp at he
    split at he
    · split at he
      · cases he
        rfl
      · cases he
    · cases he
      rfl
    · cases he
  | writeComponent dir f =>
    have he : execWriteComponent pid c s dir f = some (r, s') := he
    unfold execWriteComponent at he
    dsimp only at he
    split at he
    · cases he
      rw [State.locks_setFile]
    · cases he
      rfl
    · cases he
      exact congrFun (s.locks_setFile dir _ _) l
    · cases he
  | unlinkComponent dir comp => exact htry he (congrFun (s.locks_setFile dir comp none) l)
  | rmdir dir =>
    have he : execRmdir pid c s dir = some (r, s') := he
    unfold execRmdir at he
    split at he
    · split at he
      · cases he
        rfl
      · split at he <;> cases he <;> rfl
    · cases he
      rfl
    · cases he
  | listSegments =>
    have he : execListSegments pid c s = some (r, s') := he
    unfold execListSegments at he
    split at he
    · split at he
      · cases he
        rfl
      · cases he
    · cases he
      rfl
    · cases he
  | installManifest m what =>
    refine htry he ?_
    cases what <;> rfl
  | stuck => cases he
  | _ => exact htry he rfl

/-- **The rule of a step that only reads or syncs.**  What it answers is what the assertion lets it
see, or it has failed. -/
theorem Spec.passive {o : Op} {answer : State → Res o} {failure : Res o}
    (hexec : ∀ c s, exec pid o c s = tryStep pid c s o (answer s, s) failure)
    [Stable (Rely env cfg L₀) pid A] (hready : ∀ s, Ready strict pid o s) {V : Res o → Prop}
    (hV : ∀ s, A s → V (answer s)) :
    Spec env cfg L₀ strict pid A (perform o)
      fun r s => A s ∧ (V r ∨ (r = failure ∧ s.Failed pid o)) := by
  refine Triple.perform (fun s _ => hready s) fun s c r s' hA he => ?_
  rw [hexec] at he
  rcases tryStep_eq_some he with he | ⟨rfl, rfl⟩
  · obtain ⟨rfl, rfl⟩ := Prod.mk.inj he
    exact ⟨Guar.refl pid _, hA, Or.inl (hV _ hA)⟩
  · have hrely : Rely env cfg L₀ pid s (s.fault pid o) := Rely.fault pid pid s o
    exact ⟨Guar.fault pid s o, Stable.rely hA hrely, Or.inr ⟨rfl, s.failed_fault o⟩⟩

/-- A step that only reads or syncs keeps what is known. -/
theorem Spec.skip {o : Op} {answer : State → Res o} {failure : Res o}
    (hexec : ∀ c s, exec pid o c s = tryStep pid c s o (answer s, s) failure)
    [Stable (Rely env cfg L₀) pid A] (hready : ∀ s, Ready strict pid o s) :
    Spec env cfg L₀ strict pid A (perform o) fun _ s => A s :=
  (Spec.passive hexec hready (V := fun _ => True) fun _ _ => trivial).conseq (fun _ h => h)
    fun _ _ h => h.1

theorem Spec.readComponent [Stable (Rely env cfg L₀) pid A] {dir : SegmentId} {c : Component}
    {V : Option File → Prop} (hV : ∀ s, A s → V (s.file dir c)) :
    Spec env cfg L₀ strict pid A (perform (.readComponent dir c)) fun r s =>
      A s ∧ (V r ∨ (r = none ∧ s.Failed pid (.readComponent dir c))) :=
  Spec.passive (o := .readComponent dir c) (fun _ _ => rfl) (fun _ => trivial) hV

/-! ## Steps on a segment directory -/

/-- The steps on one segment directory. -/
theorem Guar.dir {s s' : State} (id : SegmentId) (hl : s'.ledger = s.ledger)
    (hlocks : s'.locks = s.locks) (hf : s.history.faults <:+ s'.history.faults)
    (hh : s'.history.hazards = s.history.hazards)
    (others : ∀ id', id' ≠ id → s'.disk.segments id' = s.disk.segments id')
    (held : s.Held pid id.kind) (unlisted : s.Unlisted id ∨
      (s.Misled pid ∧ ∀ c f, s'.file id c = some f → s.file id c = some f)) :
    Guar env cfg pid s s' :=
  ⟨fun l _ _ => by rw [hlocks], hf, hh ▸ List.suffix_refl _, .dir id hl others held unlisted⟩

/-- Directories that the process may remove: it holds their locks, and the manifest does not list
them, unless the process does not know better. -/
structure Disposable (pid : Pid) (ids : List SegmentId) (s : State) : Prop where
  held : ∀ id ∈ ids, s.Held pid id.kind
  unlisted : (∀ id ∈ ids, s.Unlisted id) ∨ s.Misled pid

instance {ids : List SegmentId} : Stable (Rely env cfg L₀) pid (Disposable pid ids) := by
  refine ⟨fun {s s'} h hr => ⟨fun id hid => Stable.rely (h.held id hid) hr, ?_⟩⟩
  refine h.unlisted.imp (fun hun id hid => ?_) fun hm => Stable.rely hm hr
  have hheld := h.held id hid
  cases hk : id.kind with
  | seg =>
    rw [hk] at hheld
    have hm : s'.disk.manifest = s.disk.manifest := congrArg Ledger.manifest (hr.writer hheld).1
    exact fun m' hm' => hun id hid m' (hm.symm.trans hm')
  | compact =>
    rw [hk] at hheld
    exact (hr.compaction hheld).2.2.1 id hk (hun id hid)

instance {ids : List SegmentId} : Framed (Disposable pid ids) :=
  ⟨fun h h₁ h₂ h₃ h₄ => ⟨fun id hid => Framed.frame (h.held id hid) h₁ h₂ h₃ h₄,
    h.unlisted.imp (fun hun id hid => Framed.frame (hun id hid) h₁ h₂ h₃ h₄)
      fun hm => Framed.frame hm h₁ h₂ h₃ h₄⟩⟩

theorem Disposable.subset {ids ids' : List SegmentId} {s : State} (h : Disposable pid ids s)
    (hsub : ∀ id ∈ ids', id ∈ ids) : Disposable pid ids' s :=
  ⟨fun id hid => h.held id (hsub id hid),
    h.unlisted.imp_left fun hun id hid => hun id (hsub id hid)⟩

section SetDir

variable (s : State) (id : SegmentId)

theorem State.file_setDir_ne {id' : SegmentId} {dir : Option SegmentDir} (h : id' ≠ id)
    (c : Component) : (s.setDir id dir).file id' c = s.file id' c := by
  simp [State.file, State.setDir, h]

theorem State.segments_setDir_ne {id' : SegmentId} {dir : Option SegmentDir} (h : id' ≠ id) :
    (s.setDir id dir).disk.segments id' = s.disk.segments id' := by
  simp [State.setDir, h]

theorem State.segments_setDir_self {dir : Option SegmentDir} :
    (s.setDir id dir).disk.segments id = dir := by
  simp [State.setDir]

theorem State.setFile_of_some {dir : SegmentDir} (h : s.disk.segments id = some dir)
    (c : Component) (f : Option File) :
    s.setFile id c f = s.setDir id (some (Function.update dir c f)) := by
  have hupdate : (fun c' => if c' = c then f else dir c') = Function.update dir c f :=
    funext fun c' => (Function.update_apply dir c f c').symm
  rw [State.setFile, h, ← hupdate]

/-- A file is changed by changing its directory, if that is there. -/
theorem State.setFile_eq (c : Component) (f : Option File) :
    s.setFile id c f = s ∨ ∃ dir, s.disk.segments id = some dir ∧
      s.setFile id c f = s.setDir id (some (Function.update dir c f)) := by
  cases h : s.disk.segments id with
  | none => exact Or.inl (by rw [State.setFile, h])
  | some dir => exact Or.inr ⟨dir, rfl, s.setFile_of_some id h c f⟩

/-- Removing a file leaves no new one. -/
theorem State.file_setFile_none {c c' : Component} {f : File}
    (h : (s.setFile id c none).file id c' = some f) : s.file id c' = some f := by
  rcases s.setFile_eq id c none with he | ⟨dir, hdir, he⟩
  · rwa [he] at h
  · rw [he, State.file, State.segments_setDir_self, Option.bind_some, Function.update_apply] at h
    split at h
    · cases h
    · rw [State.file, hdir]
      exact h

end SetDir

section Remove

variable {F : State → Prop} [Stable (Rely env cfg L₀) pid F] [Framed F] {ids : List SegmentId}
  {id : SegmentId}

/-- **The rule of a step that removes something from a directory.** -/
theorem Spec.remove {o : Op} (hid : id ∈ ids) (hready : ∀ s, Ready strict pid o s)
    (hexec : ∀ s c r s', exec pid o c s = some (r, s') →
      s'.ledger = s.ledger ∧ s'.locks = s.locks ∧ s.history.faults <:+ s'.history.faults ∧
      s'.history.hazards = s.history.hazards ∧
      (∀ id', id' ≠ id → s'.disk.segments id' = s.disk.segments id') ∧
      ∀ c f, s'.file id c = some f → s.file id c = some f) :
    Spec env cfg L₀ strict pid (fun s => F s ∧ Disposable pid ids s ∧ Inv env cfg L₀ s) (perform o)
      fun _ s => F s ∧ Disposable pid ids s ∧ Inv env cfg L₀ s := by
  refine Triple.perform (fun s _ => hready s) fun s c r s' hA he => ?_
  obtain ⟨hF, hD, hI⟩ := hA
  obtain ⟨hl, hlocks, hf, hh, hothers, hless⟩ := hexec s c r s' he
  have hg : Guar env cfg pid s s' := Guar.dir id hl hlocks hf hh hothers (hD.held id hid)
    (hD.unlisted.imp (fun hun => hun id hid) fun hm => ⟨hm, hless⟩)
  exact ⟨hg, Framed.frame hF hl hlocks hf (hh ▸ List.suffix_refl _),
    Framed.frame hD hl hlocks hf (hh ▸ List.suffix_refl _), hg.inv hI⟩

theorem Spec.unlinkComponent (hid : id ∈ ids) (comp : Component) :
    Spec env cfg L₀ strict pid (fun s => F s ∧ Disposable pid ids s ∧ Inv env cfg L₀ s)
      (perform (.unlinkComponent id comp))
      fun _ s => F s ∧ Disposable pid ids s ∧ Inv env cfg L₀ s := by
  refine Spec.remove hid (fun _ => trivial) fun s c r s' he => ?_
  rcases tryStep_eq_some he with he | ⟨-, rfl⟩
  · obtain ⟨-, rfl⟩ := Prod.mk.inj he
    have hless : ∀ c f, (s.setFile id comp none).file id c = some f → s.file id c = some f :=
      fun _ _ h => s.file_setFile_none id h
    rcases s.setFile_eq id comp none with hs | ⟨dir, hdir, hs⟩
    · rw [hs]
      exact ⟨rfl, rfl, List.suffix_refl _, rfl, fun _ _ => rfl, fun _ _ h => h⟩
    · rw [hs] at hless ⊢
      exact ⟨rfl, rfl, List.suffix_refl _, rfl, fun _ h => s.segments_setDir_ne id h, hless⟩
  · exact ⟨rfl, rfl, List.suffix_cons _ _, rfl, fun _ _ => rfl, fun _ _ h => h⟩

theorem Spec.rmdir (hid : id ∈ ids) :
    Spec env cfg L₀ strict pid (fun s => F s ∧ Disposable pid ids s ∧ Inv env cfg L₀ s)
      (perform (.rmdir id)) fun _ s => F s ∧ Disposable pid ids s ∧ Inv env cfg L₀ s := by
  refine Spec.remove hid (fun _ => trivial) fun s c r s' he => ?_
  have he : execRmdir pid c s id = some (r, s') := he
  unfold execRmdir at he
  split at he
  · split at he
    · cases he
      exact ⟨rfl, rfl, List.suffix_refl _, rfl, fun _ _ => rfl, fun _ _ h => h⟩
    · split at he
      · cases he
        refine ⟨rfl, rfl, List.suffix_refl _, rfl, fun _ h => s.segments_setDir_ne id h, ?_⟩
        intro c f h
        rw [State.file, State.segments_setDir_self] at h
        cases h
      · cases he
        exact ⟨rfl, rfl, List.suffix_refl _, rfl, fun _ _ => rfl, fun _ _ h => h⟩
  · cases he
    exact ⟨rfl, rfl, List.suffix_cons _ _, rfl, fun _ _ => rfl, fun _ _ h => h⟩
  · cases he

end Remove

end Yappod

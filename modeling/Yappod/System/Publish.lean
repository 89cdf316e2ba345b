import Yappod.Storage.ManifestValid
import Yappod.System.Building

/-!
# Locks, verification and the publication of a manifest

`manifestPublishIfGeneration_spec` is the specification of the publication, for whatever the caller
makes of it: it either installs the manifest and says so, or does not install it, or installs it and
is misled, because the sync of the directory or the release of the lock has failed.
-/

set_option autoImplicit false

namespace Yappod

variable {env : Env} {cfg : Config} {L₀ : Logical} {strict : Bool} {pid : Pid}
  {A B : State → Prop}

/-! ## Locks -/

/-- An assertion that does not speak of `manifest.yap2.lock`. -/
class Unlatched (A : State → Prop) : Prop where
  latch : ∀ {s : State} (p : Option Pid), A s → A (s.setLock .manifest p)

section Instances

instance (P : Prop) : Unlatched fun _ => P := ⟨fun _ h => h⟩

instance [Unlatched A] [Unlatched B] : Unlatched fun s => A s ∧ B s :=
  ⟨fun p h => ⟨Unlatched.latch p h.1, Unlatched.latch p h.2⟩⟩

instance [Unlatched A] [Unlatched B] : Unlatched fun s => A s ∨ B s :=
  ⟨fun p h => h.imp (Unlatched.latch p) (Unlatched.latch p)⟩

instance {ι : Sort*} {A : ι → State → Prop} [∀ i, Unlatched (A i)] : Unlatched fun s => ∃ i, A i s :=
  ⟨fun p ⟨i, h⟩ => ⟨i, Unlatched.latch p h⟩⟩

instance {ι : Sort*} {A : ι → State → Prop} [∀ i, Unlatched (A i)] : Unlatched fun s => ∀ i, A i s :=
  ⟨fun p h i => Unlatched.latch p (h i)⟩

instance {l : Ledger} : Unlatched (State.Frozen pid l) := ⟨fun _ h => ⟨h.held, h.ledger⟩⟩

instance {P : Prop} : Unlatched (State.Provided P) := ⟨fun _ h => h⟩

instance {o : Op} : Unlatched (State.Failed pid o) := ⟨fun _ h => h⟩

instance : Unlatched (State.Faulty pid) := ⟨fun _ h => h⟩

instance : Unlatched (State.Misled pid) := ⟨fun _ h => h⟩

instance : Unlatched (State.Holds pid .writer) := ⟨fun _ h => h⟩

instance : Unlatched (State.Holds pid .compaction) := ⟨fun _ h => h⟩

instance {kind : SegmentKind} : Unlatched (State.Held pid kind) :=
  ⟨fun _ h => by cases kind <;> exact h⟩

theorem Inv.setLock {s : State} (h : Inv env cfg L₀ s) (l : Lock) (p : Option Pid) :
    Inv env cfg L₀ (s.setLock l p) := by
  obtain ⟨m, h⟩ := h
  exact ⟨m, h.ledger, h.files, h.complete, h.bounded, h.wal⟩

instance : Unlatched (Inv env cfg L₀) := ⟨fun p h => h.setLock .manifest p⟩

instance {kind : SegmentKind} {generation : Nat} {dirs : List (SegmentId × SegmentDir)} :
    Unlatched (Building env cfg L₀ pid kind generation dirs) :=
  ⟨fun p h => ⟨Unlatched.latch p h.inv, Unlatched.latch p h.held, h.future, h.nodup, h.names,
    h.content⟩⟩

instance {ids : List SegmentId} : Unlatched (Disposable pid ids) :=
  ⟨fun p h => ⟨fun id hid => Unlatched.latch p (h.held id hid), h.unlisted⟩⟩

end Instances

/-- A process takes or releases a lock. -/
theorem Guar.setLock {s : State} {l : Lock} {p : Option Pid} (hp : p = none ∨ p = some pid)
    (hs : s.locks l = none ∨ s.locks l = some pid) : Guar env cfg pid s (s.setLock l p) := by
  refine ⟨fun l' q hq => ?_, List.suffix_refl _, List.suffix_refl _, .none rfl rfl⟩
  rw [State.setLock]
  dsimp only
  split
  · rename_i hl
    subst hl
    have h₁ : p ≠ some q := by
      rintro rfl
      rcases hp with hp | hp
      · cases hp
      · exact hq (Option.some.inj hp)
    have h₂ : s.locks l' ≠ some q := by
      intro h
      rw [h] at hs
      rcases hs with hs | hs
      · cases hs
      · exact hq (Option.some.inj hs)
    simp [h₁, h₂]
  · exact Iff.rfl

/-- Taking a lock, with what is noted about it. -/
theorem Guar.lock {s : State} {site : LockSite} (h : s.locks site.lock = none) :
    Guar env cfg pid s ((s.noteHazard pid site).setLock site.lock (some pid)) := by
  have hlocks : (s.noteHazard pid site).locks = s.locks := by
    unfold State.noteHazard
    split <;> rfl
  have hg : Guar env cfg pid (s.noteHazard pid site)
      ((s.noteHazard pid site).setLock site.lock (some pid)) :=
    Guar.setLock (Or.inr rfl) (Or.inl (by rw [hlocks, h]))
  refine ⟨fun l q hq => (hg.locks l q hq).trans (by rw [hlocks]), ?_, ?_, .none ?_ ?_⟩
  all_goals
    unfold State.noteHazard
    split
  all_goals first
    | exact List.suffix_refl _
    | exact List.suffix_cons _ _
    | rfl

/-- **The rule of taking a lock.** -/
theorem Spec.lock (site : LockSite) [Stable (Rely env cfg L₀) pid A]
    [Stable (Rely env cfg L₀) pid B] (hfree : ∀ s, A s → s.Free pid site.lock)
    (hB : ∀ s, A s → s.locks site.lock = none →
      B ((s.noteHazard pid site).setLock site.lock (some pid))) :
    Spec env cfg L₀ strict pid A (perform (.lock site)) fun r s =>
      (r = true ∧ B s) ∨ (r = false ∧ A s ∧ s.Failed pid (.lock site)) := by
  refine Triple.perform hfree fun s c r s' hA he => ?_
  have he : execLock pid c s site = some (r, s') := he
  unfold execLock at he
  split at he
  · split at he
    · rename_i hnone
      cases he
      exact ⟨Guar.lock hnone, Or.inl ⟨rfl, hB s hA hnone⟩⟩
    · cases he
  · cases he
    have hrely : Rely env cfg L₀ pid s (s.fault pid (.lock site)) := Rely.fault pid pid s _
    exact ⟨Guar.fault pid s _, Or.inr ⟨rfl, Stable.rely hA hrely, s.failed_fault _⟩⟩
  · cases he

/-- **The rule of releasing a lock.** -/
theorem Spec.unlock {l : Lock} [Stable (Rely env cfg L₀) pid A]
    [Stable (Rely env cfg L₀) pid B]
    (hB : ∀ s, A s → B (if s.locks l = some pid then s.setLock l none else s)) :
    Spec env cfg L₀ strict pid A (perform (.unlock l)) fun _ s => B s := by
  refine Triple.perform (fun _ _ => trivial) fun s c r s' hA he => ?_
  simp only [exec] at he
  split at he
  · cases he
    refine ⟨?_, hB s hA⟩
    split
    · rename_i hheld
      exact Guar.setLock (Or.inl rfl) (Or.inr hheld)
    · exact Guar.refl pid s
  · cases he

/-! ## Verification of written segments -/

/-- Where the components are all different, each is found under its own name. -/
theorem find_component {cs : List ComponentDescriptor} (h : (cs.map (·.component)).Nodup)
    {c : ComponentDescriptor} (hc : c ∈ cs) :
    cs.find? (fun e => e.component = c.component) = some c := by
  induction cs with
  | nil => cases hc
  | cons e cs ih =>
    rw [List.map_cons, List.nodup_cons] at h
    rcases List.mem_cons.mp hc with rfl | hc
    · exact List.find?_cons_of_pos (by simp)
    · have hne : e.component ≠ c.component := fun he =>
        h.1 (he ▸ List.mem_map.mpr ⟨c, hc, rfl⟩)
      rw [List.find?_cons_of_neg (by simpa using hne)]
      exact ih h.2 hc

/-- **Every file of a written segment is found as its descriptor says.** -/
theorem verifyFile_describe {id : SegmentId} {g generation : Nat} {us : List SegmentUnit}
    (hg : 0 < g) (hle : g ≤ generation) {c : ComponentDescriptor}
    (hc : c ∈ (describe env cfg id g us).components) :
    ∃ f, (describe env cfg id g us).file c.component = some f ∧
      verifyFile env generation c f = .ok := by
  have hfind : (describe env cfg id g us).component c.component = some c :=
    find_component (nodup_components id g us) hc
  obtain ⟨x, hx, rfl⟩ := List.mem_map.mp hc
  have hgen : x.2.generation = g := by
    have hall : ∀ x ∈ sliceFiles env cfg id g us, x.2.generation = g := by
      simp only [sliceFiles]
      by_cases hd : unitDocuments us = [] <;> by_cases ht : unitTombstones us = [] <;>
        by_cases hv : cfg.hasVectors = true ∧ unitPassages us ≠ [] <;> simp [hd, ht, hv]
    exact hall x hx
  refine ⟨x.2, ?_, ?_⟩
  · rw [SegmentDescriptor.file, hfind]
    rfl
  · simp only [verifyFile, File.describe, hgen]
    split
    · simp_all
    · split
      · rfl
      · rw [if_neg]
        simp only [not_or, ne_eq, not_not, and_true]
        omega

/-- **Verification of segments whose files are there finds nothing wrong.** -/
theorem verifySegments_spec [Stable (Rely env cfg L₀) pid A] {generation : Nat}
    {ds : List SegmentDescriptor} (hds : ∀ d ∈ ds, Described env cfg generation d)
    (hfiles : ∀ s, A s → ∀ d ∈ ds, ∀ c, s.file d.id c = d.file c) :
    Spec env cfg L₀ strict pid A (verifySegments env generation ds) fun status s =>
      A s ∧ (status = .ok ∨ s.Faulty pid) := by
  have hone : ∀ d ∈ ds, ∀ cs, (∀ c ∈ cs, c ∈ d.components) →
      Spec env cfg L₀ strict pid A (verifySegmentComponents env generation d.id cs) fun status s =>
        A s ∧ (status = .ok ∨ s.Faulty pid) := by
    intro d hd cs hcs
    induction cs with
    | nil => exact Spec.ret fun s h => ⟨h, Or.inl rfl⟩
    | cons c cs ih =>
      rw [List.forall_mem_cons] at hcs
      obtain ⟨g, us, hdesc, -, hg, hle⟩ := hds d hd
      have hc := hcs.1
      rw [hdesc] at hc
      obtain ⟨f, hf, hok⟩ := verifyFile_describe hg hle hc
      rw [← hdesc] at hf
      rw [verifySegmentComponents]
      refine Spec.bind (Spec.readComponent (V := fun r => r = some f) fun s hs => ?_) fun r => ?_
      · rw [hfiles s hs d hd, hf]
      · cases r with
        | none =>
          refine Spec.ret ?_
          rintro s ⟨hA, h | ⟨-, hfail⟩⟩
          · cases h
          · exact ⟨hA, Or.inr ⟨_, hfail⟩⟩
        | some f' =>
          intro s hs
          obtain rfl : f' = f := by
            rcases hs.2 with h | ⟨h, -⟩
            · exact Option.some.inj h
            · cases h
          dsimp only
          rw [hok]
          exact ih hcs.2 s hs.1
  induction ds with
  | nil => exact Spec.ret fun s h => ⟨h, Or.inl rfl⟩
  | cons d ds ih =>
    rw [verifySegments]
    refine Spec.bind (hone d (List.mem_cons_self ..) d.components fun _ h => h) fun status => ?_
    split
    · exact Spec.ret fun s h => h
    · refine (ih (fun d hd => hds d (List.mem_cons_of_mem _ hd))
        (fun s hs d hd => hfiles s hs d (List.mem_cons_of_mem _ hd))
        fun d hd => hone d (List.mem_cons_of_mem _ hd)).conseq (fun s h => h.1) fun _ _ h => h

/-! ## Publication -/

/-- How a publication ends: installed, installed without knowing it, or not installed. -/
def PublishOutcome (pid : Pid) (check : Status) (A B : State → Prop) (status : Status)
    (s : State) : Prop :=
  (status = .ok ∧ B s) ∨ (status ≠ .ok ∧ B s ∧ s.Misled pid) ∨
    (status ≠ .ok ∧ A s ∧ (status = check ∨ s.Faulty pid))

instance {check status : Status} [Stable (Rely env cfg L₀) pid A]
    [Stable (Rely env cfg L₀) pid B] :
    Stable (Rely env cfg L₀) pid (PublishOutcome pid check A B status) := by
  unfold PublishOutcome
  infer_instance

/-- The state with a manifest installed. -/
def State.install (s : State) (m : Manifest) (what : Publication) : State :=
  (s.setManifest m).recordPublication m what

theorem State.install_locks (s : State) (m : Manifest) (what : Publication) :
    (s.install m what).locks = s.locks := by
  cases what <;> rfl

section Publish

variable [Stable (Rely env cfg L₀) pid A] [Stable (Rely env cfg L₀) pid B] {m : Manifest}
  {what : Publication}

theorem manifestSaveAtomic_spec {current : Manifest}
    (hcurrent : ∀ s, A s → s.disk.manifest = some current)
    (hgen : m.generation = current.generation + 1)
    (hinstall : saveCheck m = .ok → ∀ s, A s →
      Guar env cfg pid s (s.install m what) ∧ B (s.install m what)) :
    Spec env cfg L₀ strict pid A (manifestSaveAtomic m what)
      (PublishOutcome pid (saveCheck m) A B) := by
  rw [manifestSaveAtomic]
  split
  · rename_i hcheck
    exact Spec.ret fun s h => Or.inr (Or.inr ⟨hcheck, h, Or.inl rfl⟩)
  · rename_i hcheck
    rw [not_not] at hcheck
    have hop : Spec env cfg L₀ strict pid A (perform (.installManifest m what)) fun r s =>
        (r = true ∧ B s) ∨ (r = false ∧ A s ∧ s.Faulty pid) := by
      refine Triple.perform (fun s hA => ⟨current, hcurrent s hA, hgen⟩) fun s c r s' hA he => ?_
      rcases tryStep_eq_some he with he | ⟨rfl, rfl⟩
      · obtain ⟨rfl, rfl⟩ := Prod.mk.inj he
        obtain ⟨hg, hB⟩ := hinstall hcheck s hA
        exact ⟨hg, Or.inl ⟨rfl, hB⟩⟩
      · have hrely : Rely env cfg L₀ pid s (s.fault pid (.installManifest m what)) :=
          Rely.fault pid pid s _
        exact ⟨Guar.fault pid s _, Or.inr ⟨rfl, Stable.rely hA hrely, _, s.failed_fault _⟩⟩
    refine Spec.bind hop fun renamed => ?_
    split
    · rename_i hrenamed
      refine Spec.bind ((Spec.passive (o := .syncManifestParent) (A := B) (V := fun r => r = true)
        (fun _ _ => rfl) (fun _ => trivial) fun _ _ => rfl).conseq ?_ fun _ _ h => h)
        fun synced => ?_
      · rintro s (⟨-, hB⟩ | ⟨h, -⟩)
        · exact hB
        · exact absurd (hrenamed.symm.trans h) (by simp)
      · split
        · exact Spec.ret fun s h => Or.inl ⟨rfl, h.1⟩
        · rename_i hsynced
          refine Spec.ret ?_
          rintro s ⟨hB, h | ⟨-, hfail⟩⟩
          · exact absurd h hsynced
          · exact Or.inr (Or.inl ⟨by simp, hB, _, rfl, hfail⟩)
    · rename_i hrenamed
      refine Spec.ret ?_
      rintro s (⟨h, -⟩ | ⟨-, hA, hfault⟩)
      · exact absurd h hrenamed
      · exact Or.inr (Or.inr ⟨by simp, hA, Or.inr hfault⟩)

/-- The part of a publication under `manifest.yap2.lock`. -/
theorem publishSection_spec {expected : Nat} {current : Manifest}
    (hcurrent : ∀ s, A s → s.disk.manifest = some current) (hgen : current.generation = expected)
    (hfp : current.configFingerprint = m.configFingerprint)
    (hinstall : saveCheck { m with generation := expected + 1 } = .ok → ∀ s, A s →
      Guar env cfg pid s (s.install { m with generation := expected + 1 } what) ∧
        B (s.install { m with generation := expected + 1 } what)) :
    Spec env cfg L₀ strict pid A (publishSection expected m what)
      (PublishOutcome pid (saveCheck { m with generation := expected + 1 }) A B) := by
  refine Spec.bind (Spec.passive (o := .loadManifest) (V := fun r => r = .ok current)
    (fun _ _ => rfl) (fun _ => trivial) fun s hA => by rw [hcurrent s hA]) fun r => ?_
  cases r with
  | error e =>
    refine Spec.ret ?_
    rintro s ⟨h, hr | ⟨hr, hfail⟩⟩
    · cases hr
    · cases hr
      exact Or.inr (Or.inr ⟨by simp, h, Or.inr ⟨_, hfail⟩⟩)
  | ok current' =>
    intro s hs
    obtain rfl : current' = current := by
      rcases hs.2 with h | ⟨h, -⟩
      · exact Except.ok.inj h
      · cases h
    dsimp only
    rw [if_neg (not_not.mpr hgen), if_neg (not_not.mpr hfp)]
    exact manifestSaveAtomic_spec hcurrent (congrArg (· + 1) hgen.symm) hinstall s hs.1

/-- What a publication leaves, the lock apart. -/
theorem PublishOutcome.mono {A' B' : State → Prop} {check status : Status} {s s' : State}
    (h : PublishOutcome pid check A B status s) (hA : A s → A' s') (hB : B s → B' s')
    (hf : s.history.faults <:+ s'.history.faults) :
    PublishOutcome pid check A' B' status s' := by
  rcases h with ⟨h, hb⟩ | ⟨h, hb, o, ho, hm⟩ | ⟨h, ha, hw⟩
  · exact Or.inl ⟨h, hB hb⟩
  · exact Or.inr (Or.inl ⟨h, hB hb, o, ho, hf.subset hm⟩)
  · refine Or.inr (Or.inr ⟨h, hA ha, hw.imp_right ?_⟩)
    rintro ⟨o, ho⟩
    exact ⟨o, hf.subset ho⟩

variable [Unlatched A] [Unlatched B]

/-- Releasing `manifest.yap2.lock`, after a publication with the given status. -/
theorem closeManifestLock_spec {check status : Status} :
    Spec env cfg L₀ strict pid (PublishOutcome pid check (fun s => A s ∧ s.Holds pid .manifest)
        (fun s => B s ∧ s.Holds pid .manifest) status)
      (perform (.closeManifestLock (status = .ok))) fun closed s =>
        PublishOutcome pid check (fun s => A s ∧ s.Free pid .manifest)
          (fun s => B s ∧ s.Free pid .manifest)
          (if closed = false ∧ status = .ok then .ioError else status) s := by
  refine Triple.perform (fun _ _ => trivial) fun s c r s' hA he => ?_
  have hheld : s.Holds pid .manifest := by
    rcases hA with ⟨-, h⟩ | ⟨-, h, -⟩ | ⟨-, h, -⟩ <;> exact h.2
  have hfree : ∀ {t : State}, t.locks = (s.setLock .manifest none).locks → t.Free pid .manifest := by
    intro t ht h
    rw [State.setLock] at ht
    have := congrFun ht .manifest
    rw [h] at this
    simp at this
  simp only [exec] at he
  split at he
  · cases he
    refine ⟨Guar.setLock (Or.inl rfl) (Or.inr hheld), ?_⟩
    simp only [Bool.true_eq_false, false_and, if_false]
    exact hA.mono (fun h => ⟨Unlatched.latch none h.1, hfree rfl⟩)
      (fun h => ⟨Unlatched.latch none h.1, hfree rfl⟩) (List.suffix_refl _)
  · cases he
    set o : Op := .closeManifestLock (status = .ok) with ho
    have hrely : Rely env cfg L₀ pid (s.setLock .manifest none)
        ((s.setLock .manifest none).fault pid o) := Rely.fault pid pid _ _
    have hguar : Guar env cfg pid s (s.setLock .manifest none) :=
      Guar.setLock (Or.inl rfl) (Or.inr hheld)
    refine ⟨⟨hguar.locks, List.suffix_cons _ _, List.suffix_refl _, .none rfl rfl⟩, ?_⟩
    have hend : PublishOutcome pid check (fun s => A s ∧ s.Free pid .manifest)
        (fun s => B s ∧ s.Free pid .manifest) status ((s.setLock .manifest none).fault pid o) :=
      hA.mono (fun h => ⟨Stable.rely (Unlatched.latch none h.1) hrely, hfree rfl⟩)
        (fun h => ⟨Stable.rely (Unlatched.latch none h.1) hrely, hfree rfl⟩)
        (List.suffix_cons _ _)
    by_cases hok : status = .ok
    · rw [if_pos ⟨rfl, hok⟩]
      rcases hend with ⟨-, hB⟩ | ⟨h, -⟩ | ⟨h, -⟩
      · refine Or.inr (Or.inl ⟨by simp, hB, o, ?_, State.failed_fault _ _⟩)
        simp [ho, Op.afterInstall, hok]
      · exact absurd hok h
      · exact absurd hok h
    · rw [if_neg fun h => hok h.2]
      exact hend
  · cases he

/-- **The specification of `YAP_V2_manifest_publish_if_generation`**, called by a process that knows
the current manifest. -/
theorem manifestPublishIfGeneration_spec {expected : Nat} {current : Manifest}
    (hexp : expected ≠ uint64Max) (hcurrent : ∀ s, A s → s.disk.manifest = some current)
    (hgen : current.generation = expected)
    (hfp : current.configFingerprint = m.configFingerprint)
    (hinstall : saveCheck { m with generation := expected + 1 } = .ok → ∀ s, A s →
      Guar env cfg pid s (s.install { m with generation := expected + 1 } what) ∧
        B (s.install { m with generation := expected + 1 } what)) :
    Spec env cfg L₀ strict pid (fun s => A s ∧ s.Free pid .manifest)
      (manifestPublishIfGeneration expected m what)
      (PublishOutcome pid (saveCheck { m with generation := expected + 1 })
        (fun s => A s ∧ s.Free pid .manifest) fun s => B s ∧ s.Free pid .manifest) := by
  rw [manifestPublishIfGeneration, if_neg hexp]
  refine Spec.bind (Spec.lock .manifest (B := fun s => A s ∧ s.Holds pid .manifest)
    (fun s h => h.2) fun s h hnone => ?_) fun locked => ?_
  · have hnote : s.noteHazard pid .manifest = s := by simp [State.noteHazard]
    rw [hnote]
    exact ⟨Unlatched.latch _ h.1, by simp [State.Holds, State.setLock, LockSite.lock]⟩
  · split
    · rename_i hlocked
      refine Spec.bind ((publishSection_spec (A := fun s => A s ∧ s.Holds pid .manifest)
        (B := fun s => B s ∧ s.Holds pid .manifest) (fun s h => hcurrent s h.1) hgen hfp
        fun hcheck s h => ?_).conseq ?_ fun _ _ h => h) fun status => ?_
      · obtain ⟨hg, hB⟩ := hinstall hcheck s h.1
        refine ⟨hg, hB, ?_⟩
        rw [State.Holds, State.install_locks]
        exact h.2
      · rintro s (⟨-, h⟩ | ⟨h, -⟩)
        · exact h
        · exact absurd (hlocked.symm.trans h) (by simp)
      · refine Spec.bind closeManifestLock_spec fun closed => ?_
        split <;> exact Spec.ret fun s h => h
    · rename_i hlocked
      refine Spec.ret ?_
      rintro s (⟨h, -⟩ | ⟨-, h, hfail⟩)
      · exact absurd h hlocked
      · exact Or.inr (Or.inr ⟨by simp, h, Or.inr ⟨_, hfail⟩⟩)

end Publish

end Yappod

import Yappod.Server.Visibility
import Yappod.System.Runs

/-!
# A server in motion serves from consistent runtimes

The specifications of the server's threads among each other and among the processes that publish
manifests, and what follows for every state the server can reach:

* `runtime_consistent`: the current runtime is consistent — its snapshot is of its manifest, its
  segments were opened for the descriptors of that manifest, and its statistics and its query plan
  were computed from them; a reload moves on to a later generation and the maintenance of the ANN
  corpus stays at the same one; and a call that fails changes nothing.
* `manager_generation`: the snapshot manager never goes back to an earlier generation.
-/

set_option autoImplicit false

namespace Yappod

namespace Server

variable {B : Backend} {env : Env} {cfg : Config} {pid : Pid}

/-! ## Consistency -/

/-- A snapshot as it is loaded: its segments are those of its manifest, and its table was built from
them. -/
structure Snapshot.Ok (s : Snapshot) : Prop where
  segments : s.segments.map (·.descriptor) = s.manifest.segments
  visibility : buildVisibility (s.segments.map (·.contents)) = .ok s.visibility

/-- A runtime all parts of which belong to one manifest. -/
structure Runtime.Consistent (cfg : Config) (r : Runtime B) : Prop where
  generation : r.snapshot.manifest.generation = r.manifest.generation
  descriptors : r.snapshot.manifest.segments = r.manifest.segments
  snapshot : r.snapshot.Ok
  segments : r.segments.map (·.descriptor) = r.manifest.segments
  stats : B.statsBuild r.snapshot r.segments = .ok r.stats
  plan : annPlan cfg r.corpus r.manifest = .ok r.plan

/-- A segment that is reused is one of the same descriptor. -/
theorem getElem?_of_sameSegment {m : Manifest} {d : SegmentDescriptor} {i : Nat}
    (h : sameSegment m d = some i) : m.segments[i]? = some d := by
  rw [sameSegment, Option.bind_eq_some_iff] at h
  obtain ⟨j, -, h⟩ := h
  split at h
  · rename_i hd
    cases h
    exact hd
  · cases h

theorem descriptor_of_reused {α : Type} {m : Manifest} {d : SegmentDescriptor} {xs : List α}
    {descriptor : α → SegmentDescriptor} (hxs : xs.map descriptor = m.segments) {x : α}
    (h : ((sameSegment m d).bind fun i => xs[i]?) = some x) : descriptor x = d := by
  rw [Option.bind_eq_some_iff] at h
  obtain ⟨i, hi, hx⟩ := h
  have hd := getElem?_of_sameSegment hi
  rw [← hxs, List.getElem?_map, hx] at hd
  exact Option.some.inj hd

/-! ## What the reading programs return -/

/-- Steps that change neither the snapshot nor the runtime of the server. -/
def Quiet : Op B → Prop
  | .loadManifest => True
  | .readComponent _ _ => True
  | .loadCache => True
  | .lock _ => True
  | .unlock _ => True
  | .world _ => True
  | _ => False

section Reading

open Prog

theorem quiet_manifestLoadForConfig :
    Uses Quiet (manifestLoadForConfig env cfg : Thread B _) := by
  refine Uses.bind (uses_perform trivial) fun r => ?_
  split
  · exact uses_pure _
  · split
    · exact uses_pure _
    · exact uses_pure _

theorem quiet_verifyComponents (generation : Nat) (dir : SegmentId)
    (cs : List ComponentDescriptor) :
    Uses Quiet (verifyComponents env generation dir cs : Thread B _) := by
  induction cs with
  | nil => exact uses_pure _
  | cons c cs ih =>
    refine Uses.bind (uses_perform trivial) fun f => ?_
    split
    · exact uses_pure _
    · split
      · exact uses_pure _
      · exact ih

theorem quiet_readTombstones (d : SegmentDescriptor) :
    Uses Quiet (readTombstones d : Thread B _) := by
  unfold readTombstones
  split
  · exact uses_pure _
  · refine Uses.bind (uses_perform trivial) fun f => ?_
    split <;> exact uses_pure _

theorem quiet_snapshotSegmentLoad (generation : Nat) (d : SegmentDescriptor) :
    Uses Quiet (snapshotSegmentLoad env generation d : Thread B _) := by
  refine Uses.bind (quiet_verifyComponents _ _ _) fun status => ?_
  split
  · exact uses_pure _
  split
  · exact uses_pure _
  refine Uses.bind (uses_perform trivial) fun f => ?_
  split
  · split
    · exact uses_pure _
    · refine Uses.bind (quiet_readTombstones d) fun r => ?_
      split
      · exact uses_pure _
      · split <;> exact uses_pure _
  · exact uses_pure _
  · exact uses_pure _

/-- A segment is loaded for the descriptor that was asked for. -/
theorem returns_snapshotSegmentLoad (generation : Nat) (d : SegmentDescriptor) :
    Returns (fun r => ∀ s, r = .ok s → s.descriptor = d)
      (snapshotSegmentLoad env generation d : Thread B _) := by
  have herr : ∀ e : Status, ∀ s : SnapshotSegment, Except.error e = .ok s → s.descriptor = d := by
    rintro _ _ ⟨⟩
  refine Returns.bind (returns_true _) fun status _ => ?_
  split
  · exact returns_pure (herr _)
  split
  · exact returns_pure (herr _)
  refine Returns.bind (returns_true _) fun f _ => ?_
  split
  · split
    · exact returns_pure (herr _)
    · refine Returns.bind (returns_true _) fun r _ => ?_
      split
      · exact returns_pure (herr _)
      · split
        · exact returns_pure (herr _)
        · refine returns_pure ?_
          rintro _ ⟨⟩
          rfl
  · exact returns_pure (herr _)
  · exact returns_pure (herr _)

theorem quiet_loadEach {α : Type} {reuse : SegmentDescriptor → Option α}
    {load : SegmentDescriptor → Thread B (Except Status α)} (hload : ∀ d, (load d).Uses Quiet)
    (ds : List SegmentDescriptor) : Uses Quiet (loadEach reuse load ds) := by
  induction ds with
  | nil => exact uses_pure _
  | cons d ds ih =>
    refine Uses.bind ?_ fun r => ?_
    · split
      · exact uses_pure _
      · exact hload d
    · split
      · exact uses_pure _
      · refine Uses.bind ih fun r => ?_
        split <;> exact uses_pure _

/-- What was loaded or reused for the segments of a manifest is for these, in their order. -/
theorem returns_loadEach {α : Type} {descriptor : α → SegmentDescriptor}
    {reuse : SegmentDescriptor → Option α}
    {load : SegmentDescriptor → Thread B (Except Status α)}
    (hreuse : ∀ d x, reuse d = some x → descriptor x = d)
    (hload : ∀ d, (load d).Returns fun r => ∀ x, r = .ok x → descriptor x = d)
    (ds : List SegmentDescriptor) :
    Returns (fun r => ∀ xs, r = .ok xs → xs.map descriptor = ds) (loadEach reuse load ds) := by
  induction ds with
  | nil =>
    refine returns_pure ?_
    rintro _ ⟨⟩
    rfl
  | cons d ds ih =>
    refine Returns.bind (P := fun r => ∀ x, r = .ok x → descriptor x = d) ?_ fun r hr => ?_
    · split
      · rename_i x hx
        refine returns_pure ?_
        rintro _ ⟨⟩
        exact hreuse d x hx
      · exact hload d
    · split
      · refine returns_pure ?_
        rintro _ ⟨⟩
      · rename_i x
        refine Returns.bind ih fun r hrs => ?_
        split
        · refine returns_pure ?_
          rintro _ ⟨⟩
        · rename_i xs
          refine returns_pure ?_
          rintro _ ⟨⟩
          rw [List.map_cons, hr x rfl, hrs xs rfl]

/-- The segments of a snapshot are those of the manifest, in its order. -/
theorem returns_snapshotSegments {previous : Option Snapshot}
    (hprev : ∀ p, previous = some p → p.Ok) (generation : Nat) (ds : List SegmentDescriptor) :
    Returns (fun r => ∀ ss, r = .ok ss → ss.map (·.descriptor) = ds)
      (snapshotSegments env previous generation ds : Thread B _) := by
  refine returns_loadEach (fun d s hs => ?_) (returns_snapshotSegmentLoad generation) ds
  obtain ⟨p, hp, hs⟩ := Option.bind_eq_some_iff.mp hs
  exact descriptor_of_reused (hprev p hp).segments hs

theorem quiet_snapshotLoad (previous : Option Snapshot) :
    Uses Quiet (snapshotLoad env cfg previous : Thread B _) := by
  refine Uses.bind quiet_manifestLoadForConfig fun r => ?_
  split
  · exact uses_pure _
  split
  · exact uses_pure _
  refine Uses.bind (quiet_loadEach (quiet_snapshotSegmentLoad _) _) fun r => ?_
  split
  · exact uses_pure _
  · split <;> exact uses_pure _

/-- **A snapshot that is loaded is of one manifest.** -/
theorem returns_snapshotLoad {previous : Option Snapshot} (hprev : ∀ p, previous = some p → p.Ok) :
    Returns (fun r => ∀ s, r = .ok s → s.Ok) (snapshotLoad env cfg previous : Thread B _) := by
  have herr : ∀ e : Status, ∀ s : Snapshot, Except.error e = .ok s → s.Ok := by
    rintro _ _ ⟨⟩
  refine Returns.bind (returns_true _) fun r _ => ?_
  split
  · exact returns_pure (herr _)
  split
  · exact returns_pure (herr _)
  refine Returns.bind (returns_snapshotSegments hprev _ _) fun r hr => ?_
  split
  · exact returns_pure (herr _)
  · rename_i segments
    split
    · exact returns_pure (herr _)
    · rename_i table htable
      refine returns_pure ?_
      rintro _ ⟨⟩
      exact ⟨hr segments rfl, htable⟩

theorem quiet_openFiles (dir : SegmentId) (cs : List Component) :
    Uses Quiet (openFiles cfg dir cs : Thread B _) := by
  induction cs with
  | nil => exact uses_pure _
  | cons c cs ih =>
    refine Uses.bind (uses_perform trivial) fun f => ?_
    split
    · exact uses_pure _
    · split
      · exact uses_pure _
      · refine Uses.bind ih fun r => ?_
        split <;> exact uses_pure _

theorem quiet_segmentResourceOpen (d : SegmentDescriptor) :
    Uses Quiet (segmentResourceOpen cfg d : Thread B _) := by
  refine Uses.bind (quiet_openFiles _ _) fun r => ?_
  split <;> exact uses_pure _

theorem returns_segmentResourceOpen (d : SegmentDescriptor) :
    Returns (fun r => ∀ s, r = .ok s → s.descriptor = d)
      (segmentResourceOpen cfg d : Thread B _) := by
  refine Returns.bind (returns_true _) fun r _ => ?_
  split
  · refine returns_pure ?_
    rintro _ ⟨⟩
  · refine returns_pure ?_
    rintro _ ⟨⟩
    rfl

/-- The opened segments of a runtime are those of the manifest, in its order. -/
theorem returns_runtimeSegments {previous : Option (Runtime B)}
    (hprev : ∀ p, previous = some p → p.segments.map (·.descriptor) = p.manifest.segments)
    (ds : List SegmentDescriptor) :
    Returns (fun r => ∀ ss, r = .ok ss → ss.map (·.descriptor) = ds)
      (runtimeSegments cfg previous ds) := by
  refine returns_loadEach (fun d s hs => ?_) returns_segmentResourceOpen ds
  obtain ⟨p, hp, hs⟩ := Option.bind_eq_some_iff.mp hs
  exact descriptor_of_reused (hprev p hp) hs

end Reading

/-! ## The threads among each other -/

/-- The server in a proper state. -/
structure Inv (cfg : Config) (s : State B) : Prop where
  consistent : ∀ r ∈ s.installed, r.Consistent cfg
  current : ∀ r, s.current = some r → r ∈ s.installed
  unique : ∀ a ∈ s.installed, ∀ b ∈ s.installed, a.address = b.address → a = b
  manager : ∀ m, s.manager = some m → m.Ok
  opened : s.current = none → s.manager = none

/-- A thread has not replaced the runtime. -/
def Own (pid : Pid) (s : State B) : Prop := ∀ r ∈ s.installed, r.address.1 ≠ pid

/-- How the generation of the new runtime compares with the old one's. -/
def Replacement.Fits (why : Replacement) (old new : Nat) : Prop :=
  match why with
  | .reload => old < new
  | .maintenance => new = old

/-- When a step may be taken. -/
def Ready (cfg : Config) (pid : Pid) (o : Op B) (s : State B) : Prop :=
  match o with
  | .replace expected candidate why =>
    Own pid s ∧ candidate.address.1 = pid ∧ candidate.Consistent cfg ∧
      ∃ old ∈ s.installed, old.address = expected ∧
        why.Fits old.manifest.generation candidate.manifest.generation
  | .start candidate => Own pid s ∧ candidate.address.1 = pid ∧ candidate.Consistent cfg ∧
      (s.current = none → s.manager = none)
  | .managerSwap candidate => candidate.Ok ∧ s.manager.isSome
  | _ => True

/-- What a step of a thread may do to the server. -/
inductive Effect (cfg : Config) (pid : Pid) (s s' : State B) : Prop
  | quiet (installed : s'.installed = s.installed) (current : s'.current = s.current)
      (manager : s'.manager = s.manager) (swaps : s'.swaps = s.swaps)
  | swap (old candidate : Snapshot) (installed : s'.installed = s.installed)
      (current : s'.current = s.current) (hold : s.manager = some old)
      (manager : s'.manager = some candidate) (ok : candidate.Ok)
      (later : old.manifest.generation < candidate.manifest.generation)
      (swaps : s'.swaps = pid :: s.swaps)
  | install (new : Runtime B) (installed : s'.installed = new :: s.installed)
      (current : s'.current = some new) (own : Own pid s) (address : new.address.1 = pid)
      (ok : new.Consistent cfg) (swaps : s'.swaps = s.swaps)
      (manager : s'.manager = s.manager ∧ s.current.isSome ∨
        s.manager = none ∧ s'.manager = some new.snapshot)

/-- What a thread relies on. -/
structure Rely (cfg : Config) (pid : Pid) (s s' : State B) : Prop where
  inv : Inv cfg s → Inv cfg s'
  installed : ∃ new, s'.installed = new ++ s.installed ∧ ∀ r ∈ new, r.address.1 ≠ pid
  swaps : pid ∈ s'.swaps ↔ pid ∈ s.swaps
  opened : s.manager.isSome → s'.manager.isSome

theorem Effect.inv {s s' : State B} (h : Inv cfg s) (he : Effect cfg pid s s') : Inv cfg s' := by
  cases he with
  | quiet installed current manager swaps =>
    refine ⟨?_, ?_, ?_, ?_, ?_⟩
    · rw [installed]
      exact h.consistent
    · rw [installed, current]
      exact h.current
    · rw [installed]
      exact h.unique
    · rw [manager]
      exact h.manager
    · rw [current, manager]
      exact h.opened
  | swap old candidate installed current hold manager ok later swaps =>
    refine ⟨?_, ?_, ?_, ?_, fun hnone => ?_⟩
    · rw [installed]
      exact h.consistent
    · rw [installed, current]
      exact h.current
    · rw [installed]
      exact h.unique
    · rw [manager]
      rintro _ ⟨⟩
      exact ok
    · rw [current] at hnone
      rw [h.opened hnone] at hold
      cases hold
  | install new installed current own address ok swaps manager =>
    have hne : ∀ b ∈ s.installed, b.address ≠ new.address := fun b hb heq =>
      own b hb (by rw [heq, address])
    refine ⟨?_, ?_, ?_, fun m hm => ?_, fun hnone => ?_⟩
    · rw [installed]
      exact List.forall_mem_cons.mpr ⟨ok, h.consistent⟩
    · rw [installed, current]
      rintro _ ⟨⟩
      exact List.mem_cons_self ..
    · rw [installed]
      intro a ha b hb hab
      rcases List.mem_cons.mp ha with rfl | ha'
      · rcases List.mem_cons.mp hb with rfl | hb'
        · rfl
        · exact absurd hab.symm (hne b hb')
      · rcases List.mem_cons.mp hb with rfl | hb'
        · exact absurd hab (hne a ha')
        · exact h.unique a ha' b hb' hab
    · rcases manager with ⟨hm', -⟩ | ⟨-, hm'⟩
      · exact h.manager m (hm' ▸ hm)
      · rw [hm'] at hm
        cases hm
        exact ok.snapshot
    · rw [current] at hnone
      cases hnone

theorem Effect.rely {q : Pid} (hne : q ≠ pid) {s s' : State B} (he : Effect cfg q s s') :
    Rely cfg pid s s' := by
  refine ⟨fun h => he.inv h, ?_, ?_, fun hm => ?_⟩
  · cases he with
    | quiet installed current manager swaps => exact ⟨[], installed, by simp⟩
    | swap old candidate installed current hold manager ok later swaps =>
      exact ⟨[], installed, by simp⟩
    | install new installed current own address ok swaps manager =>
      refine ⟨[new], installed, ?_⟩
      simp only [List.mem_singleton, forall_eq, address]
      exact hne
  · cases he with
    | quiet installed current manager swaps => rw [swaps]
    | swap old candidate installed current hold manager ok later swaps =>
      rw [swaps, List.mem_cons, or_iff_right (Ne.symm hne)]
    | install new installed current own address ok swaps manager => rw [swaps]
  · cases he with
    | quiet installed current manager swaps => rwa [manager]
    | swap old candidate installed current hold manager ok later swaps => simp [manager]
    | install new installed current own address ok swaps manager =>
      rcases manager with ⟨hm', -⟩ | ⟨hm', -⟩
      · rwa [hm']
      · rw [hm'] at hm
        cases hm

theorem Rely.refl (pid : Pid) (s : State B) : Rely cfg pid s s :=
  ⟨id, ⟨[], rfl, by simp⟩, Iff.rfl, id⟩

theorem Rely.trans {a b c : State B} (h₁ : Rely cfg pid a b) (h₂ : Rely cfg pid b c) :
    Rely cfg pid a c where
  inv h := h₂.inv (h₁.inv h)
  installed := by
    obtain ⟨new₁, heq₁, hne₁⟩ := h₁.installed
    obtain ⟨new₂, heq₂, hne₂⟩ := h₂.installed
    refine ⟨new₂ ++ new₁, by rw [heq₂, heq₁, List.append_assoc], fun r hr => ?_⟩
    exact (List.mem_append.mp hr).elim (hne₂ r) (hne₁ r)
  swaps := h₂.swaps.trans h₁.swaps
  opened hm := h₂.opened (h₁.opened hm)

/-! ## Specifications -/

/-- A specification of a thread among the others. -/
abbrev Spec (cfg : Config) (pid : Pid) {α : Type} (A : State B → Prop) (p : Thread B α)
    (Q : α → State B → Prop) : Prop :=
  Triple exec (Ready cfg) (Rely cfg) (Effect cfg) pid A p Q

instance : Stable (Rely cfg) pid (Inv (B := B) cfg) := ⟨fun h hr => hr.inv h⟩

instance : Stable (Rely cfg) pid (Own (B := B) pid) := by
  refine ⟨fun h hr r hmem => ?_⟩
  obtain ⟨new, heq, hne⟩ := hr.installed
  rw [heq] at hmem
  exact (List.mem_append.mp hmem).elim (hne r) (h r)

instance : Stable (Rely cfg) pid fun s : State B => pid ∉ s.swaps :=
  ⟨fun h hr hmem => h (hr.swaps.mp hmem)⟩

instance (r : Runtime B) : Stable (Rely cfg) pid fun s : State B => r ∈ s.installed := by
  refine ⟨fun h hr => ?_⟩
  obtain ⟨new, heq, -⟩ := hr.installed
  rw [heq]
  exact List.mem_append_right _ h

instance : Stable (Rely cfg) pid fun s : State B => s.manager.isSome = true :=
  ⟨fun h hr => hr.opened h⟩

/-- What the steps of a thread other than `replace` and `start` keep: the invariant, and what the
thread has to do with the runtimes. -/
structure Waits (cfg : Config) (pid : Pid) (known : List (Runtime B)) (s : State B) : Prop where
  inv : Inv cfg s
  own : Own pid s
  known : ∀ r ∈ known, r ∈ s.installed

instance (known : List (Runtime B)) : Stable (Rely cfg) pid (Waits cfg pid known) :=
  ⟨fun h hr => ⟨hr.inv h.inv, Stable.rely h.own hr, fun r hmem =>
    Stable.rely (A := fun s => r ∈ s.installed) (h.known r hmem) hr⟩⟩

theorem Effect.of_quiet {o : Op B} (ho : Quiet o) {c : Choice B} {r : Res o} {s s' : State B}
    (he : exec pid o c s = some (r, s')) : s'.installed = s.installed ∧ s'.current = s.current ∧
      s'.manager = s.manager ∧ s'.swaps = s.swaps := by
  cases o with
  | loadManifest =>
    simp only [exec] at he
    split at he <;> first | (cases he; exact ⟨rfl, rfl, rfl, rfl⟩) | cases he
  | readComponent dir comp =>
    simp only [exec] at he
    split at he <;> first | (cases he; exact ⟨rfl, rfl, rfl, rfl⟩) | cases he
  | loadCache =>
    simp only [exec] at he
    split at he <;> first | (cases he; exact ⟨rfl, rfl, rfl, rfl⟩) | cases he
  | lock l =>
    simp only [exec] at he
    split at he
    · cases he
      exact ⟨rfl, rfl, rfl, rfl⟩
    · cases he
  | unlock l =>
    cases he
    exact ⟨rfl, rfl, rfl, rfl⟩
  | world disk =>
    cases he
    exact ⟨rfl, rfl, rfl, rfl⟩
  | managerCurrent => cases ho
  | managerSwap candidate => cases ho
  | allocate => cases ho
  | acquire => cases ho
  | replace expected candidate why => cases ho
  | start candidate => cases ho

/-- Nothing has happened between two states but to the disk, the mutexes and the addresses. -/
def Idle (s s' : State B) : Prop :=
  s'.installed = s.installed ∧ s'.current = s.current ∧ s'.manager = s.manager ∧ s'.swaps = s.swaps

theorem Idle.effect {s s' : State B} (h : Idle s s') : Effect cfg pid s s' :=
  .quiet h.1 h.2.1 h.2.2.1 h.2.2.2

/-- An assertion on the snapshots and runtimes of the server. -/
class Steady (K : State B → Prop) : Prop where
  idle : ∀ {s s'}, Idle s s' → K s → K s'

instance (known : List (Runtime B)) : Steady (Waits cfg pid known) := by
  refine ⟨fun h hw => ⟨Effect.inv hw.inv (h.effect : Effect cfg pid _ _), ?_, ?_⟩⟩
  · rw [Own, h.1]
    exact hw.own
  · rw [h.1]
    exact hw.known

instance : Steady fun s : State B => pid ∉ s.swaps := ⟨fun h hw => by rw [h.2.2.2]; exact hw⟩

instance : Steady fun s : State B => s.manager.isSome = true :=
  ⟨fun h hw => by rw [h.2.2.1]; exact hw⟩

instance {K K' : State B → Prop} [Steady K] [Steady K'] : Steady fun s => K s ∧ K' s :=
  ⟨fun h hw => ⟨Steady.idle h hw.1, Steady.idle h hw.2⟩⟩

instance (P : Prop) {K : State B → Prop} [Steady K] : Steady fun s => P → K s :=
  ⟨fun h hw hp => Steady.idle h (hw hp)⟩

/-- A program that only reads keeps what is known of the server. -/
theorem Spec.quiet {α : Type} {K : State B → Prop} [Stable (Rely cfg) pid K] [Steady K]
    {p : Thread B α} {P : α → Prop} (hu : p.Uses Quiet) (hr : p.Returns P) :
    Spec cfg pid K p fun a s => P a ∧ K s := by
  refine Triple.of_uses (fun o s ho _ => ?_) (fun o c r s s' ho hs he => ?_) hu hr
  · cases o <;> trivial
  · have hidle : Idle s s' := Effect.of_quiet ho he
    exact ⟨hidle.effect, Steady.idle hidle hs⟩

theorem Spec.bind {α β : Type} {A : State B → Prop} {p : Thread B α} {Q : α → State B → Prop}
    {f : α → Thread B β} {C : β → State B → Prop} (hp : Spec cfg pid A p Q)
    (hf : ∀ a, Spec cfg pid (Q a) (f a) C) : Spec cfg pid A (p >>= f) C :=
  Triple.bind (Rely.refl pid) hp hf

/-- Return what the assertion allows. -/
theorem Spec.ret {α : Type} {A : State B → Prop} {a : α} {Q : α → State B → Prop}
    [Stable (Rely cfg) pid (Q a)] (h : ∀ s, A s → Q a s) :
    Spec cfg pid A (pure a : Thread B α) Q := Triple.pure h

/-- A reading program, with what it returns put to use. -/
theorem Spec.read {α β : Type} {K : State B → Prop} [Stable (Rely cfg) pid K] [Steady K]
    {p : Thread B α} {P : α → Prop} (hu : p.Uses Quiet) (hr : p.Returns P) {f : α → Thread B β}
    {C : β → State B → Prop} (hf : ∀ a, P a → Spec cfg pid K (f a) C) :
    Spec cfg pid K (p >>= f) C :=
  Spec.bind (Spec.quiet hu hr) fun a s hs => hf a hs.1 s hs.2

/-- Looking at the snapshot of the manager. -/
theorem managerCurrent_spec {known : List (Runtime B)} :
    Spec cfg pid (fun s => Waits cfg pid known s ∧ pid ∉ s.swaps) (perform .managerCurrent)
      fun base s => (∀ m, base = some m → m.Ok ∧ s.manager.isSome = true) ∧
        Waits cfg pid known s ∧ pid ∉ s.swaps := by
  refine Triple.perform (fun _ _ => trivial) fun s c r s' hs he => ?_
  cases he
  refine ⟨.quiet rfl rfl rfl rfl, fun m hm => ⟨hs.1.inv.manager m hm, ?_⟩, hs⟩
  rw [show s.manager = some m from hm]
  rfl

/-- Swapping the snapshot: a later one comes in. -/
theorem managerSwap_spec {known : List (Runtime B)} {candidate : Snapshot} (hok : candidate.Ok) :
    Spec cfg pid (fun s => (Waits cfg pid known s ∧ pid ∉ s.swaps) ∧ s.manager.isSome = true)
      (perform (.managerSwap candidate))
      fun r s => Waits cfg pid known s ∧ (r.1 ≠ .ok → pid ∉ s.swaps) := by
  refine Triple.perform (fun s hs => ⟨hok, hs.2⟩) fun s c r s' hs he => ?_
  obtain ⟨old, hold⟩ := Option.isSome_iff_exists.mp hs.2
  simp only [exec, hold, managerSwap] at he
  split at he
  · cases he
    exact ⟨.quiet rfl rfl rfl rfl, hs.1.1, fun _ => hs.1.2⟩
  split at he
  · cases he
    exact ⟨.quiet rfl rfl rfl rfl, hs.1.1, fun _ => hs.1.2⟩
  · rename_i hge hne
    cases he
    have heffect : Effect cfg pid s
        { s with manager := some candidate, swaps := pid :: s.swaps } :=
      .swap old candidate rfl rfl hold rfl hok (by omega) rfl
    exact ⟨heffect, ⟨heffect.inv hs.1.1.inv, hs.1.1.own, hs.1.1.known⟩, fun h => absurd rfl h⟩

/-- **`YAP_V2_snapshot_manager_reload`**: if it fails, it has changed nothing. -/
theorem managerReload_spec (known : List (Runtime B)) :
    Spec cfg pid (fun s => Waits cfg pid known s ∧ pid ∉ s.swaps) (managerReload env cfg)
      fun status s => Waits cfg pid known s ∧ (status ≠ .ok → pid ∉ s.swaps) := by
  refine Spec.bind managerCurrent_spec fun base => ?_
  cases base with
  | none => exact Spec.ret fun s hs => ⟨hs.2.1, fun _ => hs.2.2⟩
  | some base =>
    refine Triple.conseq (A := fun s => (base.Ok ∧ (Waits cfg pid known s ∧ pid ∉ s.swaps) ∧
      s.manager.isSome = true)) ?_ (fun s hs => ⟨(hs.1 base rfl).1, hs.2, (hs.1 base rfl).2⟩)
      fun _ _ h => h
    intro s hs
    have hprev : ∀ p, some base = some p → p.Ok := by
      rintro _ ⟨⟩
      exact hs.1
    refine Spec.read (K := fun s => (Waits cfg pid known s ∧ pid ∉ s.swaps) ∧
      s.manager.isSome = true) (quiet_snapshotLoad (some base)) (returns_snapshotLoad hprev)
      (fun r hr => ?_) s hs.2
    cases r with
    | error e => exact Spec.ret fun s hs => ⟨hs.1.1, fun _ => hs.1.2⟩
    | ok candidate =>
      refine Spec.bind (managerSwap_spec (hr candidate rfl)) fun r => ?_
      exact Spec.ret fun s hs => hs

/-- A fresh address. -/
theorem allocate_spec {K : State B → Prop} [Stable (Rely cfg) pid K] [Steady K] :
    Spec cfg pid K (perform .allocate) fun address s => address.1 = pid ∧ K s := by
  refine Triple.perform (fun _ _ => trivial) fun s c r s' hs he => ?_
  cases he
  have hidle : Idle s { s with next := s.next + 1 } := ⟨rfl, rfl, rfl, rfl⟩
  exact ⟨hidle.effect, rfl, Steady.idle hidle hs⟩

/-- A runtime put together from a snapshot and segments of one manifest is consistent. -/
theorem assemble_consistent {address : Pid × Nat} {m : Manifest} {snapshot : Snapshot}
    {segments : List Resource} {corpus : B.Corpus} {r : Runtime B} (hsnap : snapshot.Ok)
    (hmatch : snapshot.matchesManifest m = true)
    (hsegments : segments.map (·.descriptor) = m.segments)
    (h : assemble cfg address m snapshot segments corpus = .ok r) :
    r.Consistent cfg ∧ r.address = address := by
  obtain ⟨stats, hstats, h⟩ := bind_eq_ok.mp h
  obtain ⟨plan, hplan, h⟩ := bind_eq_ok.mp h
  cases h
  rw [Snapshot.matchesManifest, decide_eq_true_eq] at hmatch
  exact ⟨⟨hmatch.1, hmatch.2, hsnap, hsegments, hstats, hplan⟩, rfl⟩

/-- What is known of a runtime that was made but not put in place. -/
def Made (cfg : Config) (pid : Pid) (r : Except Status (Runtime B)) : Prop :=
  ∀ runtime, r = .ok runtime → runtime.Consistent cfg ∧ runtime.address.1 = pid

theorem Made.error (e : Status) : Made (B := B) cfg pid (.error e) := by
  rintro _ ⟨⟩

/-- **`runtime_allocate_candidate`** makes consistent runtimes. -/
theorem runtimeAllocateCandidate_spec (previous : Runtime B) (replacement : Option B.Corpus) :
    Spec cfg pid (fun s => Waits cfg pid [previous] s ∧ pid ∉ s.swaps)
      (runtimeAllocateCandidate env cfg previous replacement)
      fun r s => Made cfg pid r ∧ Waits cfg pid [previous] s := by
  refine Spec.bind allocate_spec fun address => ?_
  refine Triple.conseq (A := fun s => Waits cfg pid [previous] s ∧ pid ∉ s.swaps ∧
    address.1 = pid) ?_ (fun s hs => ⟨hs.2.1, hs.2.2, hs.1⟩) fun _ _ h => h
  intro s hs
  have haddress := hs.2.2
  refine Spec.read (K := fun s => Waits cfg pid [previous] s ∧ pid ∉ s.swaps)
    quiet_manifestLoadForConfig (Prog.returns_true _) (fun r _ => ?_) s ⟨hs.1, hs.2.1⟩
  cases r with
  | error e => exact Spec.ret fun s hs => ⟨.error e, hs.1⟩
  | ok m =>
    refine Spec.bind (managerReload_spec [previous]) fun status => ?_
    split
    · exact Spec.ret fun s hs => ⟨.error _, hs.1⟩
    refine Spec.bind (Q := fun snapshot s => (∀ m, snapshot = some m → m.Ok) ∧
      Waits cfg pid [previous] s) ?_ fun snapshot => ?_
    · refine Triple.conseq (A := Waits cfg pid [previous]) ?_ (fun s hs => hs.1) fun _ _ h => h
      refine Triple.perform (fun _ _ => trivial) fun s c r s' hs he => ?_
      cases he
      exact ⟨.quiet rfl rfl rfl rfl, hs.inv.manager, hs⟩
    cases snapshot with
    | none => exact Spec.ret fun s hs => ⟨.error _, hs.2⟩
    | some snapshot =>
      intro s hs
      have hsnap : snapshot.Ok := hs.1 snapshot rfl
      -- the segments of the runtime that is known are reused by their descriptors
      have hprev : ∀ p, some previous = some p →
          p.segments.map (·.descriptor) = p.manifest.segments := by
        rintro _ ⟨⟩
        exact (hs.2.inv.consistent previous (hs.2.known previous (by simp))).segments
      revert s
      intro s hs
      dsimp only
      split
      · exact Spec.ret (A := Waits cfg pid [previous]) (fun s hs => ⟨.error _, hs⟩) s hs.2
      rename_i hmatch
      rw [not_or, Bool.not_eq_false] at hmatch
      split
      · exact Spec.ret (A := Waits cfg pid [previous]) (fun s hs => ⟨.error _, hs⟩) s hs.2
      refine Spec.read (K := Waits cfg pid [previous]) (quiet_loadEach quiet_segmentResourceOpen _)
        (returns_runtimeSegments hprev m.segments) (fun r hr => ?_) s hs.2
      cases r with
      | error e => exact Spec.ret fun s hs => ⟨.error e, hs⟩
      | ok segments =>
        refine Spec.ret fun s hs => ⟨fun runtime hruntime => ?_, hs⟩
        obtain ⟨hc, ha⟩ := assemble_consistent hsnap hmatch.2 (hr segments rfl) hruntime
        exact ⟨hc, by rw [ha]; exact haddress⟩

/-- Acquiring the current runtime. -/
theorem acquire_spec :
    Spec cfg pid (fun s : State B => Waits cfg pid [] s ∧ pid ∉ s.swaps) (perform .acquire)
      fun r s => Waits cfg pid r.toList s ∧ pid ∉ s.swaps := by
  refine Triple.perform (fun _ _ => trivial) fun s c r s' hs he => ?_
  cases he
  refine ⟨.quiet rfl rfl rfl rfl, ⟨hs.1.inv, hs.1.own, fun r hr => ?_⟩, hs.2⟩
  exact hs.1.inv.current r (Option.mem_toList.mp hr)

/-- **Putting a runtime in place**, for the one that is still the current one. -/
theorem replace_spec {previous candidate : Runtime B} {why : Replacement}
    (hmade : candidate.Consistent cfg ∧ candidate.address.1 = pid)
    (hfits : why.Fits previous.manifest.generation candidate.manifest.generation) :
    Spec cfg pid (Waits cfg pid [previous])
      (perform (.replace previous.address candidate why))
      fun status s => status ≠ .ok → Own pid s := by
  refine Triple.perform (fun s hs => ?_) fun s c r s' hs he => ?_
  · exact ⟨hs.own, hmade.2, hmade.1, previous, hs.known previous (by simp), rfl, hfits⟩
  · simp only [exec] at he
    split at he
    · rename_i hcurrent
      cases he
      refine ⟨.install candidate rfl rfl hs.own hmade.2 hmade.1 rfl (.inl ⟨rfl, ?_⟩),
        fun h => absurd rfl h⟩
      cases hc : s.current with
      | none =>
        rw [hc] at hcurrent
        cases hcurrent
      | some r => rfl
    · cases he
      exact ⟨.quiet rfl rfl rfl rfl, fun _ => hs.own⟩

instance (status : Status) : Steady fun s : State B => status ≠ .ok → Own pid s :=
  ⟨fun h hw hne => by rw [Own, h.1]; exact hw hne⟩

/-- **`runtime_state_reload`.** -/
theorem runtimeStateReload_spec :
    Spec cfg pid (fun s : State B => Waits cfg pid [] s ∧ pid ∉ s.swaps) (runtimeStateReload env cfg)
      fun status s => status ≠ .ok → Own pid s := by
  refine Spec.bind acquire_spec fun previous => ?_
  cases previous with
  | none => exact Spec.ret fun s hs _ => hs.1.own
  | some previous =>
    have hquiet : (runtimeManifestRelation env cfg previous).Uses Quiet := by
      refine Prog.Uses.bind quiet_manifestLoadForConfig fun r => ?_
      split
      · exact Prog.uses_pure _
      · split_ifs <;> exact Prog.uses_pure _
    refine Spec.read (K := fun s => Waits cfg pid [previous] s ∧ pid ∉ s.swaps) hquiet
      (Prog.returns_true _) fun r _ => ?_
    split
    · exact Spec.ret fun s hs _ => hs.1.own
    · exact Spec.ret fun s hs _ => hs.1.own
    · refine Spec.bind (runtimeAllocateCandidate_spec previous none) fun r => ?_
      cases r with
      | error e => exact Spec.ret fun s hs _ => hs.2.own
      | ok candidate =>
        dsimp only
        split
        · exact Spec.ret fun s hs _ => hs.2.own
        · rename_i hlater
          intro s hs
          have hfits : Replacement.reload.Fits previous.manifest.generation
              candidate.manifest.generation := Nat.lt_of_not_le hlater
          exact replace_spec (hs.1 candidate rfl) hfits s hs.2

/-- The rest of `YAP_V2_http_runtime_maintain_ann`. -/
theorem maintainAnn_spec (base : Runtime B) :
    Spec cfg pid (fun s => Waits cfg pid [base] s ∧ pid ∉ s.swaps) (maintainAnn env cfg base)
      fun status s => status ≠ .ok → Own pid s := by
  unfold maintainAnn
  split
  · exact Spec.ret fun s hs _ => hs.1.own
  · refine Spec.bind (runtimeAllocateCandidate_spec base (some _)) fun r => ?_
    cases r with
    | error e => exact Spec.ret fun s hs _ => hs.2.own
    | ok replacement =>
      dsimp only
      split
      · exact Spec.ret fun s hs _ => hs.2.own
      · rename_i hsame
        rw [not_not] at hsame
        intro s hs
        have hfits : Replacement.maintenance.Fits base.manifest.generation
            replacement.manifest.generation := hsame
        exact replace_spec (hs.1 replacement rfl) hfits s hs.2

/-- A mutex is taken or given back. -/
theorem Spec.step {K : State B → Prop} [Stable (Rely cfg) pid K] [Steady K] (o : Op B)
    (ho : Quiet o) {α : Type} {f : Res o → Thread B α} {C : α → State B → Prop}
    (hf : ∀ r, Spec cfg pid K (f r) C) : Spec cfg pid K (perform o >>= f) C :=
  Spec.read (Prog.uses_perform ho) (Prog.returns_true _) fun r _ => hf r

/-- **`runtime_open`** makes consistent runtimes. -/
theorem runtimeOpenOnce_spec :
    Spec cfg pid (Waits cfg pid []) (runtimeOpenOnce env cfg : Thread B _)
      fun r s => Made cfg pid r ∧ Waits cfg pid [] s := by
  refine Spec.bind allocate_spec fun address => ?_
  intro s hs
  have haddress := hs.1
  refine Spec.read (K := Waits cfg pid []) quiet_manifestLoadForConfig (Prog.returns_true _)
    (fun r _ => ?_) s hs.2
  cases r with
  | error e => exact Spec.ret fun s hs => ⟨.error e, hs⟩
  | ok m =>
    refine Spec.read (K := Waits cfg pid []) (quiet_snapshotLoad none)
      (returns_snapshotLoad (by simp)) fun r hsnap => ?_
    cases r with
    | error e => exact Spec.ret fun s hs => ⟨.error e, hs⟩
    | ok snapshot =>
      dsimp only
      split
      · exact Spec.ret fun s hs => ⟨.error _, hs⟩
      rename_i hmatch
      rw [not_or, Bool.not_eq_false] at hmatch
      refine Spec.read (K := Waits cfg pid []) (quiet_loadEach quiet_segmentResourceOpen _)
        (returns_runtimeSegments (by simp) m.segments) fun r hsegments => ?_
      cases r with
      | error e => exact Spec.ret fun s hs => ⟨.error e, hs⟩
      | ok segments =>
        have hquiet : (openCorpus cfg m snapshot segments : Thread B _).Uses Quiet := by
          unfold openCorpus
          split
          · refine Prog.Uses.bind (Prog.uses_perform trivial) fun r => ?_
            split <;> exact Prog.uses_pure _
          · exact Prog.uses_pure _
        refine Spec.read (K := Waits cfg pid []) hquiet (Prog.returns_true _) fun r _ => ?_
        cases r with
        | error e => exact Spec.ret fun s hs => ⟨.error e, hs⟩
        | ok corpus =>
          refine Spec.ret fun s hs => ⟨fun runtime hruntime => ?_, hs⟩
          obtain ⟨hc, ha⟩ := assemble_consistent (hsnap snapshot rfl) hmatch.2
            (hsegments segments rfl) hruntime
          exact ⟨hc, by rw [ha]; exact haddress⟩

theorem runtimeOpen_spec (attempts : Nat) :
    Spec cfg pid (Waits cfg pid []) (runtimeOpen env cfg attempts : Thread B _)
      fun r s => Made cfg pid r ∧ Waits cfg pid [] s := by
  induction attempts with
  | zero => exact Spec.ret fun s hs => ⟨.error _, hs⟩
  | succ attempts ih =>
    refine Spec.bind runtimeOpenOnce_spec fun r => ?_
    cases r with
    | error e => exact Spec.ret fun s hs => ⟨.error e, hs.2⟩
    | ok runtime =>
      dsimp only
      split
      · exact Spec.ret fun s hs => hs
      · exact ih.conseq (fun s hs => hs.2) fun _ _ h => h

/-- Putting the first runtime in place. -/
theorem start_spec {candidate : Runtime B}
    (hmade : candidate.Consistent cfg ∧ candidate.address.1 = pid) :
    Spec cfg pid (Waits cfg pid []) (perform (.start candidate))
      fun status s => status ≠ .ok → Own pid s := by
  refine Triple.perform (fun s hs => ⟨hs.own, hmade.2, hmade.1, hs.inv.opened⟩)
    fun s c r s' hs he => ?_
  simp only [exec] at he
  split at he
  · rename_i hnone
    cases he
    rw [Option.isNone_iff_eq_none] at hnone
    exact ⟨.install candidate rfl rfl hs.own hmade.2 hmade.1 rfl
      (.inr ⟨hs.inv.opened hnone, rfl⟩), fun h => absurd rfl h⟩
  · cases he
    exact ⟨.quiet rfl rfl rfl rfl, fun _ => hs.own⟩

/-- What a call has not done when it has failed: it has not replaced the runtime, and a reload of the
manager alone has not replaced the snapshot. -/
def Post (pid : Pid) (call : Call) (_ : State B) (status : Status) (s : State B) : Prop :=
  status ≠ .ok → Own pid s ∧ (call = .managerReload → pid ∉ s.swaps)

theorem program_spec (call : Call) (birth : State B) :
    Spec cfg pid (fun s => Waits cfg pid [] s ∧ pid ∉ s.swaps) (program env cfg call)
      (Post pid call birth) := by
  have hpost : ∀ status (s : State B), call ≠ .managerReload → (status ≠ .ok → Own pid s) →
      Post pid call birth status s := fun status s hc h hne => ⟨h hne, fun h => absurd h hc⟩
  cases call with
  | «open» =>
    refine Triple.conseq (A := Waits cfg pid []) ?_ (fun s hs => hs.1)
      fun status s h => hpost status s (by simp) h
    refine Spec.bind (runtimeOpen_spec 4) fun r => ?_
    cases r with
    | error e => exact Spec.ret fun s hs _ => hs.2.own
    | ok runtime =>
      intro s hs
      exact start_spec (hs.1 runtime rfl) s hs.2
  | reload =>
    refine Triple.conseq ?_ (fun s hs => hs) fun status s h => hpost status s (by simp) h
    refine Spec.step (.lock .update) trivial fun _ =>
      Spec.bind runtimeStateReload_spec fun status => ?_
    exact Spec.step (.unlock .update) trivial fun _ => Spec.ret fun s hs => hs
  | ingest disk published =>
    refine Triple.conseq ?_ (fun s hs => hs) fun status s h => hpost status s (by simp) h
    refine Spec.step (.lock .update) trivial fun _ => Spec.step (.world disk) trivial fun _ =>
      Spec.bind (Q := fun status s => status ≠ .ok → Own pid s) ?_ fun status => ?_
    · split
      · exact runtimeStateReload_spec
      · exact Spec.ret fun s hs _ => hs.1.own
    · exact Spec.step (.unlock .update) trivial fun _ => Spec.ret fun s hs => hs
  | maintainAnn =>
    refine Triple.conseq ?_ (fun s hs => hs) fun status s h => hpost status s (by simp) h
    refine Spec.step (.lock .maintenance) trivial fun _ => Spec.step (.lock .update) trivial
      fun _ => Spec.bind acquire_spec fun base => Spec.bind
        (Q := fun status s => status ≠ .ok → Own pid s) ?_ fun status => ?_
    · cases base with
      | none => exact Spec.ret fun s hs _ => hs.1.own
      | some base =>
        dsimp only
        split
        · exact maintainAnn_spec base
        · exact Spec.ret fun s hs _ => hs.1.own
    · exact Spec.step (.unlock .update) trivial fun _ =>
        Spec.step (.unlock .maintenance) trivial fun _ => Spec.ret fun s hs => hs
  | managerReload =>
    exact (managerReload_spec []).conseq (fun s hs => hs)
      fun status s h hne => ⟨h.1.own, fun _ => h.2 hne⟩
  | world disk =>
    refine Triple.conseq ?_ (fun s hs => hs) fun status s h => hpost status s (by simp) h
    exact Spec.step (.world disk) trivial fun _ => Spec.ret fun s hs _ => hs.1.own

theorem sound : Sys.Sound exec idle (fun _ s => s) (program env cfg) (Ready cfg) (Rely cfg)
    (Effect cfg) (Inv (B := B) cfg) Post where
  refl := Rely.refl
  trans _ := Rely.trans
  guarantee hne hg := hg.rely hne
  inv h hg := hg.inv h
  crash _ := Rely.refl _ _
  crash_inv h := h
  safe pid call s hinv hidle := by
    rw [idle, decide_eq_true_eq, List.all_eq_true] at hidle
    refine program_spec call s s ⟨⟨hinv, fun r hr => ?_, by simp⟩, hidle.2⟩
    exact of_decide_eq_true (hidle.1 r hr)

/-- **Every state of the server is proper**, and what is left of every thread is safe from there. -/
theorem Reachable.good {disk : Disk} {c : System B} (h : Reachable env cfg disk c) :
    c.Good exec (Ready cfg) (Rely cfg) (Effect cfg) (Inv cfg) Post := by
  refine Sys.Reach.good (@sound B env cfg) ⟨⟨?_, ?_, ?_, ?_, fun _ => rfl⟩, ?_⟩ h
  · simp [closed]
  · simp [closed]
  · simp [closed]
  · simp [closed]
  · rintro _ _ ⟨⟩

/-! ## A small server

An index that is served while a second version of its document is published. -/

/-- Corpus statistics that count segments, and no ANN corpus. -/
def countingBackend : Backend where
  Stats := Nat
  Corpus := Unit
  Plan := Nat
  statsBuild _ segments := .ok segments.length
  corpusBuild _ _ _ := .ok ()
  planBuild _ m := .ok m.segments.length
  emptyCorpus := ()
  emptyPlan := 0
  maintenanceNeeded _ := false

/-- A segment with a version of the document `x`. -/
def servedFile (n : Nat) : File :=
  ⟨n, .documents ⟨.seg, n, 0⟩ [⟨[120], [], [], [], [123, 125], 0⟩] []⟩

def servedSegment (n : Nat) : SegmentDescriptor :=
  ⟨⟨.seg, n, 0⟩, 1, 0, 0, [(servedFile n).describe sampleEnv]⟩

/-- The index after `n` versions. -/
def servedDisk (n : Nat) : Disk :=
  ⟨some ⟨n, [1], (List.range' 1 n).map servedSegment⟩, none,
    fun id => some fun c => if c = .documents then some (servedFile id.generation) else none⟩

/-- The server is opened, another version is published, and the server is reloaded. -/
def servedRun : List (Sys.Label (Choice countingBackend) Call) :=
  [.spawn 1 .open] ++ List.replicate 6 (.act 1 .ok) ++
    [.spawn 2 (.world (servedDisk 2)), .act 2 .ok, .spawn 3 .reload] ++
    List.replicate 13 (.act 3 .ok)

/-- The generations of the runtime and of the snapshot after the run. -/
theorem servedRun_generations : ∃ c : System countingBackend,
    Reachable sampleEnv sampleConfig (servedDisk 1) c ∧
    c.state.current.map (·.manifest.generation) = some 2 ∧
    c.state.manager.map (·.manifest.generation) = some 2 ∧
    ∃ birth, c.procs 3 = some ⟨.reload, birth, .pure .ok⟩ := by
  obtain ⟨c, hrun, hc⟩ : ∃ c, Sys.runAll exec idle (fun _ s => s) (program sampleEnv sampleConfig)
      ⟨closed countingBackend (servedDisk 1), fun _ => none⟩ servedRun = some c ∧
      c.state.current.map (·.manifest.generation) = some 2 ∧
      c.state.manager.map (·.manifest.generation) = some 2 ∧
      ∃ birth, c.procs 3 = some ⟨.reload, birth, .pure .ok⟩ := ⟨_, rfl, rfl, rfl, _, rfl⟩
  exact ⟨c, Sys.Reach.of_runAll .refl hrun, hc⟩

/-! ## The current runtime -/

/-- What a step does to the runtime that is served from. -/
inductive Served (cfg : Config) (pid : Pid) (o : Op B) (s s' : State B) : Prop
  | same (current : s'.current = s.current) (installed : s'.installed = s.installed)
  | start (new : Runtime B) (op : o = .start new) (before : s.current = none)
      (current : s'.current = some new) (installed : s'.installed = new :: s.installed)
      (address : new.address.1 = pid) (ok : new.Consistent cfg)
  | replace (old new : Runtime B) (why : Replacement) (op : o = .replace old.address new why)
      (before : s.current = some old) (current : s'.current = some new)
      (installed : s'.installed = new :: s.installed) (address : new.address.1 = pid)
      (ok : new.Consistent cfg) (fits : why.Fits old.manifest.generation new.manifest.generation)

/-- A step that may be taken changes the current runtime as it should. -/
theorem served_of_exec {o : Op B} {choice : Choice B} {r : Res o} {s s' : State B}
    (hinv : Inv cfg s) (hready : Ready cfg pid o s) (he : exec pid o choice s = some (r, s')) :
    Served cfg pid o s s' := by
  by_cases hquiet : Quiet o
  · have hidle := Effect.of_quiet hquiet he
    exact .same hidle.2.1 hidle.1
  cases o with
  | replace expected candidate why =>
    obtain ⟨-, haddress, hok, old, hold, hexpected, hfits⟩ := hready
    simp only [exec] at he
    split at he
    · rename_i hcurrent
      cases he
      obtain ⟨old', hold', haddr⟩ := Option.map_eq_some_iff.mp hcurrent
      -- an address belongs to one runtime
      have hsame : old' = old :=
        hinv.unique old' (hinv.current old' hold') old hold (haddr.trans hexpected.symm)
      subst hsame
      subst hexpected
      exact .replace old' candidate why rfl hold' rfl rfl haddress hok hfits
    · cases he
      exact .same rfl rfl
  | start candidate =>
    obtain ⟨-, haddress, hok, -⟩ := hready
    simp only [exec] at he
    split at he
    · rename_i hnone
      cases he
      exact .start candidate rfl (Option.isNone_iff_eq_none.mp hnone) rfl rfl haddress hok
    · cases he
      exact .same rfl rfl
  | managerSwap candidate =>
    simp only [exec, Option.some.injEq, Prod.mk.injEq] at he
    obtain ⟨-, rfl⟩ := he
    split <;> exact .same rfl rfl
  | managerCurrent =>
    cases he
    exact .same rfl rfl
  | allocate =>
    cases he
    exact .same rfl rfl
  | acquire =>
    cases he
    exact .same rfl rfl
  | loadManifest => exact absurd trivial hquiet
  | readComponent dir comp => exact absurd trivial hquiet
  | loadCache => exact absurd trivial hquiet
  | lock l => exact absurd trivial hquiet
  | unlock l => exact absurd trivial hquiet
  | world disk => exact absurd trivial hquiet

/-- **The server serves from consistent runtimes.**  Whatever its threads and other processes do, in
any order: the current runtime is consistent; a step either leaves it, or puts the first one in place,
or replaces it by a consistent one, of a later generation if the index was reloaded and of the same one
if its ANN corpus was rebuilt; and a call that has failed has not replaced it. -/
theorem runtime_consistent {disk : Disk} {c : System B} (h : Reachable env cfg disk c) :
    (∀ r, c.state.current = some r → r.Consistent cfg) ∧
    (∀ pid call birth o k choice r s', c.procs pid = some ⟨call, birth, .op o k⟩ →
      exec pid o choice c.state = some (r, s') → Served cfg pid o c.state s') ∧
    ∀ pid call birth status, c.procs pid = some ⟨call, birth, .pure status⟩ → status ≠ .ok →
      ∀ r ∈ c.state.installed, r.address.1 ≠ pid := by
  have hgood := h.good
  refine ⟨fun r hr => hgood.1.consistent r (hgood.1.current r hr), ?_, ?_⟩
  · intro pid call birth o k choice r s' hp he
    have hready := ((hgood.2 pid _ hp) c.state (Rely.refl pid _)).1
    exact served_of_exec hgood.1 hready he
  · intro pid call birth status hp hne
    exact (hgood.post (@sound B env cfg) hp hne).1

theorem runtime_consistent_reloaded : ∃ c : System countingBackend,
    Reachable sampleEnv sampleConfig (servedDisk 1) c ∧
    ∃ r, c.state.current = some r ∧ r.manifest.generation = 2 ∧ r.Consistent sampleConfig := by
  obtain ⟨c, hreach, hcurrent, -⟩ := servedRun_generations
  obtain ⟨r, hr, hgen⟩ := Option.map_eq_some_iff.mp hcurrent
  exact ⟨c, hreach, r, hr, hgen, (runtime_consistent hreach).1 r hr⟩

/-! ## The snapshot manager -/

/-- What a step does to the snapshot of the manager: it stays or is replaced by a later one, and the
thread that replaces it is on record. -/
structure Managed (pid : Pid) (s s' : State B) : Prop where
  later : ∀ old, s.manager = some old →
    ∃ new, s'.manager = some new ∧ old.manifest.generation ≤ new.manifest.generation
  recorded : s'.manager ≠ s.manager → s.manager = none ∨ pid ∈ s'.swaps

theorem Effect.managed {s s' : State B} (he : Effect cfg pid s s') : Managed pid s s' := by
  cases he with
  | quiet installed current manager swaps =>
    refine ⟨fun old hold => ⟨old, manager.trans hold, Nat.le_refl _⟩, fun hne => ?_⟩
    exact absurd manager hne
  | swap old candidate installed current hold manager ok later swaps =>
    refine ⟨fun old' hold' => ?_, fun _ => .inr (by simp [swaps])⟩
    rw [hold] at hold'
    cases hold'
    exact ⟨candidate, manager, Nat.le_of_lt later⟩
  | install new installed current own address ok swaps manager =>
    rcases manager with ⟨hm, -⟩ | ⟨hm, -⟩
    · exact ⟨fun old hold => ⟨old, hm.trans hold, Nat.le_refl _⟩, fun hne => absurd hm hne⟩
    · refine ⟨fun old hold => ?_, fun _ => .inl hm⟩
      rw [hm] at hold
      cases hold

/-- The manager never goes back. -/
theorem manager_later {disk : Disk} {c c' : System B} (h : Reachable env cfg disk c)
    (hreach : Sys.Reach exec idle (fun _ s => s) (program env cfg) c c') :
    ∀ old, c.state.manager = some old → ∃ new, c'.state.manager = some new ∧
      old.manifest.generation ≤ new.manifest.generation := by
  refine Sys.Reach.later (P := fun s s' : State B => ∀ old, s.manager = some old →
    ∃ new, s'.manager = some new ∧ old.manifest.generation ≤ new.manifest.generation)
    (@sound B env cfg) (fun s old hold => ⟨old, hold, Nat.le_refl _⟩) ?_
    (fun he => he.managed.later) (fun _ s old hold => ⟨old, hold, Nat.le_refl _⟩) h.good hreach
  intro s₁ s₂ s₃ h₁ h₂ old hold
  obtain ⟨mid, hmid, hle⟩ := h₁ old hold
  obtain ⟨new, hnew, hle'⟩ := h₂ mid hmid
  exact ⟨new, hnew, Nat.le_trans hle hle'⟩

/-- **A snapshot shows the last version of every document, and the manager never goes back.**  For
any segments, the table of a snapshot can be built unless it cannot be addressed, and every search in
it ends at a slot; a document is found where its last event is, by the order of the segments, documents
after tombstones, and it is visible in that segment alone.  Whatever the threads of the server and
other processes do, the generation of the manager's snapshot does not decrease, and a reload of the
manager that has failed has not changed it. -/
theorem snapshot_visibility {disk : Disk} {c : System B} (h : Reachable env cfg disk c) :
    (∀ xs, buildVisibility xs ≠ .error .conflict) ∧
    (∀ s : Snapshot, ∀ xs, s.segments.map (·.contents) = xs →
      buildVisibility xs = .ok s.visibility →
      (visibilityEntries 0 xs ≠ [] → ∀ id, (s.visibility.find bytesHash id).isSome = true) ∧
      ∀ id, id ≠ [] → s.Shows xs id) ∧
    (∀ c', Sys.Reach exec idle (fun _ s => s) (program env cfg) c c' →
      ∀ old, c.state.manager = some old → ∃ new, c'.state.manager = some new ∧
        old.manifest.generation ≤ new.manifest.generation) ∧
    (∀ pid call birth o k choice r s', c.procs pid = some ⟨call, birth, .op o k⟩ →
      exec pid o choice c.state = some (r, s') → Managed pid c.state s') ∧
    ∀ pid birth status, c.procs pid = some ⟨.managerReload, birth, .pure status⟩ → status ≠ .ok →
      pid ∉ c.state.swaps := by
  refine ⟨buildVisibility_ne_conflict, ?_, fun c' hreach => manager_later h hreach, ?_, ?_⟩
  · intro s xs hxs hbuild
    exact ⟨(buildVisibility_spec hbuild).1, fun id hid => Snapshot.shows hxs hbuild hid⟩
  · intro pid call birth o k choice r s' hp he
    exact (h.good.guarantee (@sound B env cfg) hp he).managed
  · intro pid birth status hp hne
    exact (h.good.post (@sound B env cfg) hp hne).2 rfl

theorem snapshot_visibility_reloaded : ∃ c : System countingBackend,
    Reachable sampleEnv sampleConfig (servedDisk 1) c ∧
    c.state.manager.map (·.manifest.generation) = some 2 ∧
    (∀ c', Sys.Reach exec idle (fun _ s => s) (program sampleEnv sampleConfig) c c' →
      ∃ new, c'.state.manager = some new ∧ 2 ≤ new.manifest.generation) ∧
    ∀ xs, buildVisibility xs ≠ .error .conflict := by
  obtain ⟨c, hreach, -, hmanager, -⟩ := servedRun_generations
  obtain ⟨old, hold, hgen⟩ := Option.map_eq_some_iff.mp hmanager
  refine ⟨c, hreach, hmanager, fun c' hlater => ?_, (snapshot_visibility hreach).1⟩
  obtain ⟨new, hnew, hle⟩ := (snapshot_visibility hreach).2.2.1 c' hlater old hold
  exact ⟨new, hnew, by omega⟩

end Server

end Yappod

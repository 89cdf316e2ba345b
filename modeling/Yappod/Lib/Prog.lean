import Mathlib.Algebra.Ring.Nat
import Mathlib.Logic.Relation
import Mathlib.Data.List.Basic

/-!
# Programs over a shared state, and rely–guarantee reasoning about them

A program is a tree of operations: `Prog.pure a` has finished with `a`, and `Prog.op o k` is about
to perform `o` and goes on with `k r` once it knows the result `r`.  What an operation does to the
shared state is a separate matter: `exec pid o c s` is the outcome of performing `o` as process
`pid` in the state `s`, where `c` is the choice the outside world makes (did the call fail, which
fresh name came back); `none` means that the operation cannot be performed now under that choice.

Two things are built on this.

* `Prog.run` performs a program alone, along a list of choices; `Sys.step` interleaves any number
  of programs, any of which may be started, may finish, or may die between two operations.
* `Safe` is the verification condition of one program among others: whatever the others do, as
  long as it stays within the rely `R`, every operation of the program stays within the guarantee
  `G`, is only attempted under its precondition `Pre`, and the result satisfies the postcondition.
  `Triple` is the same for assertions that hold before and after, with the usual rules;
  `Safe.run` and `Sys.Reach.good` read it back as statements about runs.

Nothing here depends on what the operations are.
-/

set_option autoImplicit false

namespace Yappod

/-- A process identifier. -/
abbrev Pid := Nat

/-- A program that performs operations `o : Op`, each answered by a `Res o`, and returns an `α`. -/
inductive Prog {Op : Type} (Res : Op → Type) (α : Type) : Type
  /-- The program has finished. -/
  | pure (a : α) : Prog Res α
  /-- The program performs `o` next. -/
  | op (o : Op) (k : Res o → Prog Res α) : Prog Res α

namespace Prog

variable {Op : Type} {Res : Op → Type} {α β γ : Type}

/-- Run `p`, then `f` on what it returns. -/
def bind : Prog Res α → (α → Prog Res β) → Prog Res β
  | .pure a, f => f a
  | .op o k, f => .op o fun r => (k r).bind f

/-- Perform one operation and return its result. -/
def perform (o : Op) : Prog Res (Res o) := .op o .pure

instance : Monad (Prog Res) where
  pure := .pure
  bind := bind

@[simp] theorem pure_eq (a : α) : (Pure.pure a : Prog Res α) = .pure a := rfl

@[simp] theorem bind_eq (p : Prog Res α) (f : α → Prog Res β) : (p >>= f) = p.bind f := rfl

@[simp] theorem pure_bind (a : α) (f : α → Prog Res β) : (Prog.pure a).bind f = f a := rfl

@[simp] theorem op_bind (o : Op) (k : Res o → Prog Res α) (f : α → Prog Res β) :
    (Prog.op o k).bind f = .op o fun r => (k r).bind f := rfl

/-- Every operation the program may perform satisfies `P`. -/
def Uses (P : Op → Prop) : Prog Res α → Prop
  | .pure _ => True
  | .op o k => P o ∧ ∀ r, (k r).Uses P

section Uses

variable {P : Op → Prop}

theorem uses_pure (a : α) : Uses P (Pure.pure a : Prog Res α) := trivial

theorem uses_perform {o : Op} (h : P o) : Uses P (perform o : Prog Res (Res o)) :=
  ⟨h, fun _ => trivial⟩

theorem Uses.bind {p : Prog Res α} {f : α → Prog Res β} (hp : p.Uses P)
    (hf : ∀ a, (f a).Uses P) : Uses P (p >>= f) := by
  induction p with
  | pure a => exact hf a
  | op o k ih => exact ⟨hp.1, fun r => ih r (hp.2 r)⟩

end Uses

/-- Whatever its operations answer, the program returns a value that satisfies `P`. -/
def Returns (P : α → Prop) : Prog Res α → Prop
  | .pure a => P a
  | .op _ k => ∀ r, (k r).Returns P

section Returns

variable {P : α → Prop} {Q : β → Prop}

theorem returns_pure {a : α} (h : P a) : Returns P (Pure.pure a : Prog Res α) := h

theorem Returns.bind {p : Prog Res α} {f : α → Prog Res β} (hp : p.Returns P)
    (hf : ∀ a, P a → (f a).Returns Q) : Returns Q (p >>= f) := by
  induction p with
  | pure a => exact hf a hp
  | op o k ih => exact fun r => ih r (hp r)

theorem returns_true (p : Prog Res α) : p.Returns fun _ => True := by
  induction p with
  | pure a => trivial
  | op o k ih => exact ih

end Returns

/-! ## Performing a program alone -/

section Run

variable {State Choice : Type}
variable (exec : Pid → (o : Op) → Choice → State → Option (Res o × State))

/-- Perform a program alone as `pid`, one choice per operation; the run must use up the list. -/
def run (pid : Pid) : Prog Res α → List Choice → State → Option (α × State)
  | .pure a, [], s => some (a, s)
  | .pure _, _ :: _, _ => none
  | .op _ _, [], _ => none
  | .op o k, c :: cs, s => (exec pid o c s).bind fun rs => run pid (k rs.1) cs rs.2

@[simp] theorem run_pure_nil (pid : Pid) (a : α) (s : State) :
    run exec pid (.pure a) [] s = some (a, s) := rfl

theorem run_op_cons (pid : Pid) (o : Op) (k : Res o → Prog Res α) (c : Choice) (cs : List Choice)
    (s : State) : run exec pid (.op o k) (c :: cs) s =
      (exec pid o c s).bind fun rs => run exec pid (k rs.1) cs rs.2 := rfl

end Run

end Prog

/-! ## The verification condition of one program among others -/

section Safe

variable {Op : Type} {Res : Op → Type} {State Choice α β : Type}
variable (exec : Pid → (o : Op) → Choice → State → Option (Res o × State))
variable (Pre : Pid → Op → State → Prop)
variable (R G : Pid → State → State → Prop)

/-- `Safe exec Pre R G pid p Q s`: started in `s`, the program `p` of process `pid` meets its
precondition and its guarantee at every operation, whatever the other processes do within the
rely, and `Q` holds of its result for as long as the others stay within the rely. -/
def Safe (pid : Pid) : Prog Res α → (α → State → Prop) → State → Prop
  | .pure a, Q, s => ∀ s', R pid s s' → Q a s'
  | .op o k, Q, s => ∀ s₁, R pid s s₁ → Pre pid o s₁ ∧ ∀ c r s₂,
      exec pid o c s₁ = some (r, s₂) → G pid s₁ s₂ ∧ Safe pid (k r) Q s₂

variable {exec Pre R G} {pid : Pid} {p : Prog Res α} {Q : α → State → Prop} {s s' : State}

/-- Interference within the rely does not hurt a safe program. -/
theorem Safe.of_rely (trans : ∀ {a b c}, R pid a b → R pid b c → R pid a c)
    (h : Safe exec Pre R G pid p Q s) (hr : R pid s s') : Safe exec Pre R G pid p Q s' := by
  cases p with
  | pure a => exact fun s₂ h₂ => h s₂ (trans hr h₂)
  | op o k => exact fun s₂ h₂ => h s₂ (trans hr h₂)

/-- The postcondition may be weakened. -/
theorem Safe.mono {Q' : α → State → Prop} (hQ : ∀ a s, Q a s → Q' a s) :
    ∀ {p : Prog Res α} {s : State}, Safe exec Pre R G pid p Q s → Safe exec Pre R G pid p Q' s
  | .pure _, _, h => fun s₁ h₁ => hQ _ _ (h s₁ h₁)
  | .op _ _, _, h => fun s₁ h₁ =>
    ⟨(h s₁ h₁).1, fun c r s₂ he => ⟨((h s₁ h₁).2 c r s₂ he).1, ((h s₁ h₁).2 c r s₂ he).2.mono hQ⟩⟩

/-- Sequential composition: the postcondition of the first program is that the second is safe. -/
theorem Safe.bind (refl : ∀ s, R pid s s) {f : α → Prog Res β} {Q : β → State → Prop} :
    ∀ {p : Prog Res α} {s : State},
      Safe exec Pre R G pid p (fun a s => Safe exec Pre R G pid (f a) Q s) s →
      Safe exec Pre R G pid (p.bind f) Q s
  | .pure _, s, h => h s (refl s)
  | .op _ _, _, h => fun s₁ h₁ =>
    ⟨(h s₁ h₁).1, fun c r s₂ he =>
      ⟨((h s₁ h₁).2 c r s₂ he).1, Safe.bind refl ((h s₁ h₁).2 c r s₂ he).2⟩⟩

/-- A safe program that runs alone ends with its postcondition. -/
theorem Safe.run (refl : ∀ s, R pid s s) : ∀ {p : Prog Res α} {s : State} {cs : List Choice}
    {a : α} {s' : State}, Safe exec Pre R G pid p Q s → p.run exec pid cs s = some (a, s') →
      Q a s'
  | .pure _, s, [], a, s', h, he => by
    simp only [Prog.run_pure_nil, Option.some.injEq, Prod.mk.injEq] at he
    obtain ⟨rfl, rfl⟩ := he
    exact h s (refl s)
  | .pure _, _, _ :: _, _, _, _, he => by cases he
  | .op _ _, _, [], _, _, _, he => by cases he
  | .op o k, s, c :: cs, a, s', h, he => by
    rw [Prog.run_op_cons, Option.bind_eq_some_iff] at he
    obtain ⟨⟨r, s₂⟩, he, hrest⟩ := he
    exact Safe.run refl ((h s (refl s)).2 c r s₂ he).2 hrest

/-- A safe program can be run to its end: it is enough that an operation whose precondition holds
can always be performed, by a choice taken from `C`, as long as `I` holds, and that it keeps `I`. -/
theorem Safe.progress (refl : ∀ s, R pid s s) {C : Choice → Prop} {I : State → Prop}
    (step : ∀ o s, Pre pid o s → I s → ∃ c r s', C c ∧ exec pid o c s = some (r, s'))
    (keep : ∀ o c r s s', I s → G pid s s' → exec pid o c s = some (r, s') → I s') :
    ∀ {p : Prog Res α} {s : State}, Safe exec Pre R G pid p Q s → I s →
      ∃ cs a s', (∀ c ∈ cs, C c) ∧ p.run exec pid cs s = some (a, s')
  | .pure a, s, _, _ => ⟨[], a, s, by simp, rfl⟩
  | .op o k, s, h, hI => by
    obtain ⟨hpre, hnext⟩ := h s (refl s)
    obtain ⟨c, r, s₂, hc, he⟩ := step o s hpre hI
    obtain ⟨cs, a, s', hcs, hrun⟩ :=
      Safe.progress refl step keep (hnext c r s₂ he).2 (keep o c r s s₂ hI (hnext c r s₂ he).1 he)
    refine ⟨c :: cs, a, s', ?_, ?_⟩
    · intro c' hc'
      rcases List.mem_cons.mp hc' with rfl | hc'
      · exact hc
      · exact hcs c' hc'
    · rw [Prog.run_op_cons, he]
      exact hrun

end Safe

/-! ## Triples -/

section Triple

variable {Op : Type} {Res : Op → Type} {State Choice α β : Type}

/-- An assertion that the others cannot break. -/
class Stable (R : Pid → State → State → Prop) (pid : Pid) (A : State → Prop) : Prop where
  rely : ∀ {s s'}, A s → R pid s s' → A s'

section Instances

variable {R : Pid → State → State → Prop} {pid : Pid} {A B : State → Prop}

instance (P : Prop) : Stable R pid fun _ => P := ⟨fun h _ => h⟩

instance [Stable R pid A] [Stable R pid B] : Stable R pid fun s => A s ∧ B s :=
  ⟨fun h hr => ⟨Stable.rely h.1 hr, Stable.rely h.2 hr⟩⟩

instance [Stable R pid A] [Stable R pid B] : Stable R pid fun s => A s ∨ B s :=
  ⟨fun h hr => h.imp (Stable.rely · hr) (Stable.rely · hr)⟩

instance (P : Prop) [Stable R pid A] : Stable R pid fun s => P → A s :=
  ⟨fun h hr hP => Stable.rely (h hP) hr⟩

instance {ι : Sort*} {A : ι → State → Prop} [∀ i, Stable R pid (A i)] :
    Stable R pid fun s => ∃ i, A i s :=
  ⟨fun ⟨i, h⟩ hr => ⟨i, Stable.rely h hr⟩⟩

instance {ι : Sort*} {A : ι → State → Prop} [∀ i, Stable R pid (A i)] :
    Stable R pid fun s => ∀ i, A i s :=
  ⟨fun h hr i => Stable.rely (h i) hr⟩

end Instances

variable (exec : Pid → (o : Op) → Choice → State → Option (Res o × State))
variable (Pre : Pid → Op → State → Prop)
variable (R G : Pid → State → State → Prop)

/-- From any state of `A`, the program is safe and ends in `B`. -/
def Triple (pid : Pid) (A : State → Prop) (p : Prog Res α) (B : α → State → Prop) : Prop :=
  ∀ s, A s → Safe exec Pre R G pid p B s

variable {exec Pre R G} {pid : Pid} {A A' : State → Prop} {B B' : α → State → Prop}
  {p : Prog Res α}

theorem Triple.pure {a : α} [Stable R pid (B a)] (h : ∀ s, A s → B a s) :
    Triple exec Pre R G pid A (.pure a) B :=
  fun s hs _ hr => Stable.rely (h s hs) hr

theorem Triple.bind (refl : ∀ s, R pid s s) {f : α → Prog Res β} {C : β → State → Prop}
    (hp : Triple exec Pre R G pid A p B)
    (hf : ∀ a, Triple exec Pre R G pid (B a) (f a) C) :
    Triple exec Pre R G pid A (p.bind f) C :=
  fun s hs => Safe.bind refl ((hp s hs).mono fun a s' h => hf a s' h)

theorem Triple.conseq (h : Triple exec Pre R G pid A p B) (hA : ∀ s, A' s → A s)
    (hB : ∀ a s, B a s → B' a s) : Triple exec Pre R G pid A' p B' :=
  fun s hs => (h s (hA s hs)).mono hB

/-- The rule of a single operation. -/
theorem Triple.perform {o : Op} {B : Res o → State → Prop} [Stable R pid A]
    [∀ r, Stable R pid (B r)] (hpre : ∀ s, A s → Pre pid o s)
    (hstep : ∀ s c r s', A s → exec pid o c s = some (r, s') → G pid s s' ∧ B r s') :
    Triple exec Pre R G pid A (Prog.perform o) B := by
  intro s hs s₁ hr
  have h₁ : A s₁ := Stable.rely hs hr
  refine ⟨hpre s₁ h₁, fun c r s₂ he => ⟨(hstep s₁ c r s₂ h₁ he).1, fun s₃ hr₃ => ?_⟩⟩
  exact Stable.rely (hstep s₁ c r s₂ h₁ he).2 hr₃

/-- What both the process and the others keep may be added on either side. -/
theorem Triple.frame {K : State → Prop} [Stable R pid K]
    (hG : ∀ {s s'}, K s → G pid s s' → K s') (h : Triple exec Pre R G pid A p B) :
    Triple exec Pre R G pid (fun s => A s ∧ K s) p fun a s => B a s ∧ K s := by
  have hsafe : ∀ {p : Prog Res α} {s : State}, Safe exec Pre R G pid p B s → K s →
      Safe exec Pre R G pid p (fun a s => B a s ∧ K s) s := by
    intro p
    induction p with
    | pure a => exact fun hs hK s' hr => ⟨hs s' hr, Stable.rely hK hr⟩
    | op o k ih =>
      intro s hs hK s₁ hr
      refine ⟨(hs s₁ hr).1, fun c r s₂ he => ?_⟩
      obtain ⟨hg, hnext⟩ := (hs s₁ hr).2 c r s₂ he
      exact ⟨hg, ih r hnext (hG (Stable.rely hK hr) hg)⟩
  exact fun s hs => hsafe (h s hs.1) hs.2

/-- What the operations of the program and the others keep may be added on either side. -/
theorem Triple.frame_uses {K : State → Prop} [Stable R pid K] {P : Op → Prop}
    (hK : ∀ {o c r s s'}, P o → K s → exec pid o c s = some (r, s') → K s') (hu : p.Uses P)
    (h : Triple exec Pre R G pid A p B) :
    Triple exec Pre R G pid (fun s => A s ∧ K s) p fun a s => B a s ∧ K s := by
  have hsafe : ∀ {p : Prog Res α} {s : State}, p.Uses P → Safe exec Pre R G pid p B s → K s →
      Safe exec Pre R G pid p (fun a s => B a s ∧ K s) s := by
    intro p
    induction p with
    | pure a => exact fun _ hs hK s' hr => ⟨hs s' hr, Stable.rely hK hr⟩
    | op o k ih =>
      intro s hu hs hk s₁ hr
      refine ⟨(hs s₁ hr).1, fun c r s₂ he => ?_⟩
      obtain ⟨hg, hnext⟩ := (hs s₁ hr).2 c r s₂ he
      exact ⟨hg, ih r (hu.2 r) hnext (hK hu.1 (Stable.rely hk hr) he)⟩
  exact fun s hs => hsafe hu (h s hs.1) hs.2

/-- A program all of whose operations keep an assertion keeps it, and returns what it returns. -/
theorem Triple.of_uses [Stable R pid A] {P : Op → Prop} {Q : α → Prop}
    (hpre : ∀ o s, P o → A s → Pre pid o s)
    (hstep : ∀ o c r s s', P o → A s → exec pid o c s = some (r, s') → G pid s s' ∧ A s')
    (hu : p.Uses P) (hr : p.Returns Q) :
    Triple exec Pre R G pid A p fun a s => Q a ∧ A s := by
  induction p with
  | pure a => exact fun s hs s' h => ⟨hr, Stable.rely hs h⟩
  | op o k ih =>
    intro s hs s₁ h
    have h₁ : A s₁ := Stable.rely hs h
    refine ⟨hpre o s₁ hu.1 h₁, fun c r s₂ he => ?_⟩
    obtain ⟨hg, h₂⟩ := hstep o c r s₁ s₂ hu.1 h₁ he
    exact ⟨hg, ih r (hu.2 r) (hr r) s₂ h₂⟩

end Triple

/-! ## Many programs at once -/

namespace Sys

variable {Op : Type} {Res : Op → Type} {State Choice Call Result : Type}

/-- A process: the call it was started for, the state it was started in, and what is left of it. -/
structure Proc (Res : Op → Type) (State Call Result : Type) where
  /-- The call this process performs. -/
  call : Call
  /-- The shared state when the process was started. -/
  birth : State
  /-- The rest of its program. -/
  prog : Prog Res Result

/-- The shared state together with the processes that are running. -/
structure Config (Res : Op → Type) (State Call Result : Type) where
  /-- The shared state. -/
  state : State
  /-- The running processes. -/
  procs : Pid → Option (Proc Res State Call Result)

/-- What happens next: a call is started, a process performs its next operation, a process that
has finished is collected, or a process dies. -/
inductive Label (Choice Call : Type)
  | spawn (pid : Pid) (call : Call)
  | act (pid : Pid) (c : Choice)
  | finish (pid : Pid)
  | crash (pid : Pid)

variable (exec : Pid → (o : Op) → Choice → State → Option (Res o × State))
variable (idle : Pid → State → Bool) (release : Pid → State → State)
variable (program : Call → Prog Res Result)

/-- Replace the entry of one process. -/
def Config.setProc (cfg : Config Res State Call Result) (pid : Pid)
    (p : Option (Proc Res State Call Result)) (s : State) : Config Res State Call Result :=
  ⟨s, fun q => if q = pid then p else cfg.procs q⟩

/-- One step of the system, as a function of its label. -/
def step (cfg : Config Res State Call Result) :
    Label Choice Call → Option (Config Res State Call Result)
  | .spawn pid call =>
    match cfg.procs pid, idle pid cfg.state with
    | none, true => some (cfg.setProc pid (some ⟨call, cfg.state, program call⟩) cfg.state)
    | _, _ => none
  | .act pid c =>
    match cfg.procs pid with
    | some ⟨call, birth, .op o k⟩ =>
      (exec pid o c cfg.state).map fun rs =>
        cfg.setProc pid (some ⟨call, birth, k rs.1⟩) rs.2
    | _ => none
  | .finish pid =>
    match cfg.procs pid with
    | some ⟨_, _, .pure _⟩ => some (cfg.setProc pid none cfg.state)
    | _ => none
  | .crash pid =>
    match cfg.procs pid with
    | some _ => some (cfg.setProc pid none (release pid cfg.state))
    | none => none

/-- Follow a list of labels. -/
def runAll (cfg : Config Res State Call Result) :
    List (Label Choice Call) → Option (Config Res State Call Result)
  | [] => some cfg
  | l :: ls => (step exec idle release program cfg l).bind fun cfg' => runAll cfg' ls

/-- The configurations that some list of labels leads to from `cfg₀`. -/
inductive Reach (cfg₀ : Config Res State Call Result) : Config Res State Call Result → Prop
  | refl : Reach cfg₀ cfg₀
  | step {cfg cfg' : Config Res State Call Result} (l : Label Choice Call) :
      Reach cfg₀ cfg → step exec idle release program cfg l = some cfg' → Reach cfg₀ cfg'

variable {exec idle release program}

theorem Reach.of_runAll {cfg₀ cfg cfg' : Config Res State Call Result} :
    ∀ {ls : List (Label Choice Call)}, Reach exec idle release program cfg₀ cfg →
      runAll exec idle release program cfg ls = some cfg' →
      Reach exec idle release program cfg₀ cfg'
  | [], h, he => by
    simp only [runAll, Option.some.injEq] at he
    exact he ▸ h
  | l :: ls, h, he => by
    rw [runAll, Option.bind_eq_some_iff] at he
    obtain ⟨cfg₁, h₁, h₂⟩ := he
    exact Reach.of_runAll (.step l h h₁) h₂

theorem procs_setProc {cfg : Config Res State Call Result} {pid q : Pid}
    {p : Option (Proc Res State Call Result)} {s : State} {proc : Proc Res State Call Result}
    (h : (cfg.setProc pid p s).procs q = some proc) : p = some proc ∨ cfg.procs q = some proc := by
  by_cases hq : q = pid
  · exact Or.inl (by simpa [Config.setProc, hq] using h)
  · exact Or.inr (by simpa [Config.setProc, hq] using h)

/-- A process was there before the step, or the step has started it. -/
theorem procs_step {cfg cfg' : Config Res State Call Result} {l : Label Choice Call}
    (hl : step exec idle release program cfg l = some cfg') {pid : Pid}
    {proc : Proc Res State Call Result} (hp : cfg'.procs pid = some proc) :
    (∃ proc', cfg.procs pid = some proc' ∧ proc'.birth = proc.birth) ∨
      proc.birth = cfg.state ∧ cfg'.state = cfg.state := by
  cases l with
  | spawn q call =>
    simp only [Sys.step] at hl
    split at hl
    · cases hl
      rcases procs_setProc hp with hnew | hold
      · cases hnew
        exact .inr ⟨rfl, rfl⟩
      · exact .inl ⟨proc, hold, rfl⟩
    · cases hl
  | act q c =>
    simp only [Sys.step] at hl
    split at hl
    · rename_i call birth o k hproc
      rw [Option.map_eq_some_iff] at hl
      obtain ⟨rs, -, rfl⟩ := hl
      by_cases hq : pid = q
      · subst hq
        simp only [Config.setProc, if_pos, Option.some.injEq] at hp
        exact .inl ⟨_, hproc, by rw [← hp]⟩
      · simp only [Config.setProc, if_neg hq] at hp
        exact .inl ⟨proc, hp, rfl⟩
    · cases hl
  | finish q =>
    simp only [Sys.step] at hl
    split at hl
    · cases hl
      exact .inl ⟨proc, (procs_setProc hp).resolve_left (by simp), rfl⟩
    · cases hl
  | crash q =>
    simp only [Sys.step] at hl
    split at hl
    · cases hl
      exact .inl ⟨proc, (procs_setProc hp).resolve_left (by simp), rfl⟩
    · cases hl

/-- The process that a label is about. -/
def Label.pid : Label Choice Call → Pid
  | .spawn pid _ => pid
  | .act pid _ => pid
  | .finish pid => pid
  | .crash pid => pid

/-- Whether a process dies. -/
def Label.isCrash : Label Choice Call → Bool
  | .crash _ => true
  | _ => false

/-- A step is a step of one process. -/
theorem procs_step_of_ne {cfg cfg' : Config Res State Call Result} {l : Label Choice Call}
    (hl : step exec idle release program cfg l = some cfg') {q : Pid} (hq : q ≠ l.pid) : cfg'.procs q = cfg.procs q := by
  have hset : ∀ {pid : Pid} {p : Option (Proc Res State Call Result)} {s : State}, q ≠ pid →
      (cfg.setProc pid p s).procs q = cfg.procs q := fun hne => if_neg hne
  cases l with
  | spawn pid call =>
    simp only [Sys.step] at hl
    split at hl
    · cases hl
      exact hset hq
    · cases hl
  | act pid c =>
    simp only [Sys.step] at hl
    split at hl
    · rw [Option.map_eq_some_iff] at hl
      obtain ⟨rs, -, rfl⟩ := hl
      exact hset hq
    · cases hl
  | finish pid =>
    simp only [Sys.step] at hl
    split at hl
    · cases hl
      exact hset hq
    · cases hl
  | crash pid =>
    simp only [Sys.step] at hl
    split at hl
    · cases hl
      exact hset hq
    · cases hl

/-- A process that no label is about stays as it is. -/
theorem procs_runAll_of_ne {q : Pid} {ls : List (Label Choice Call)} {cfg cfg' : Config Res State Call Result}
    (hrun : runAll exec idle release program cfg ls = some cfg') (hq : ∀ l ∈ ls, q ≠ l.pid) :
    cfg'.procs q = cfg.procs q := by
  induction ls generalizing cfg with
  | nil =>
    cases hrun
    rfl
  | cons l ls ih =>
    rw [runAll, Option.bind_eq_some_iff] at hrun
    obtain ⟨cfg₁, hl, hrest⟩ := hrun
    rw [ih hrest fun l' hl' => hq l' (List.mem_cons_of_mem _ hl')]
    exact procs_step_of_ne hl (hq l List.mem_cons_self)

/-- Every process was started in a configuration of the run. -/
theorem Reach.birth {cfg₀ cfg : Config Res State Call Result} (hnone : ∀ pid, cfg₀.procs pid = none)
    (h : Reach exec idle release program cfg₀ cfg) {pid : Pid} {proc : Proc Res State Call Result}
    (hp : cfg.procs pid = some proc) :
    ∃ c, Reach exec idle release program cfg₀ c ∧ c.state = proc.birth := by
  induction h generalizing proc with
  | refl => exact absurd (hp.symm.trans (hnone pid)) (by simp)
  | @step cfg cfg' l hreach hl ih =>
    rcases procs_step hl hp with ⟨proc', hp', hbirth⟩ | ⟨hbirth, -⟩
    · rw [← hbirth]
      exact ih hp'
    · exact ⟨cfg, hreach, hbirth.symm⟩

/-- What the programs of a system have to satisfy for rely–guarantee reasoning to be sound. -/
structure Sound (exec : Pid → (o : Op) → Choice → State → Option (Res o × State))
    (idle : Pid → State → Bool) (release : Pid → State → State)
    (program : Call → Prog Res Result) (Pre : Pid → Op → State → Prop)
    (R G : Pid → State → State → Prop) (Inv : State → Prop)
    (Post : Pid → Call → State → Result → State → Prop) : Prop where
  /-- Doing nothing is within the rely. -/
  refl : ∀ pid s, R pid s s
  /-- The rely is closed under repetition. -/
  trans : ∀ pid {a b c}, R pid a b → R pid b c → R pid a c
  /-- What one process guarantees, the others may rely on. -/
  guarantee : ∀ {pid q s s'}, q ≠ pid → G q s s' → R pid s s'
  /-- The guarantee keeps the invariant. -/
  inv : ∀ {pid s s'}, Inv s → G pid s s' → Inv s'
  /-- The death of a process is something the others may rely on. -/
  crash : ∀ {pid q s}, q ≠ pid → R pid s (release q s)
  /-- The death of a process keeps the invariant. -/
  crash_inv : ∀ {pid s}, Inv s → Inv (release pid s)
  /-- Every call is safe from every state of the invariant in which its process holds nothing. -/
  safe : ∀ pid call s, Inv s → idle pid s = true →
    Safe exec Pre R G pid (program call) (Post pid call s) s

/-- The invariant of the whole system. -/
def Config.Good (exec : Pid → (o : Op) → Choice → State → Option (Res o × State))
    (Pre : Pid → Op → State → Prop)
    (R G : Pid → State → State → Prop) (Inv : State → Prop)
    (Post : Pid → Call → State → Result → State → Prop) (cfg : Config Res State Call Result) :
    Prop :=
  Inv cfg.state ∧ ∀ pid proc, cfg.procs pid = some proc →
    Safe exec Pre R G pid proc.prog (Post pid proc.call proc.birth) cfg.state

section Good

variable {Pre : Pid → Op → State → Prop} {R G : Pid → State → State → Prop}
  {Inv : State → Prop} {Post : Pid → Call → State → Result → State → Prop}

/-- Changing one process keeps the others safe, if the change of the state is within their
rely. -/
theorem Config.Good.setProc (hS : Sound exec idle release program Pre R G Inv Post)
    {cfg : Config Res State Call Result} (h : cfg.Good exec Pre R G Inv Post) {pid : Pid}
    {p : Option (Proc Res State Call Result)} {s : State} (hinv : Inv s)
    (hR : ∀ q, q ≠ pid → R q cfg.state s)
    (hp : ∀ proc, p = some proc →
      Safe exec Pre R G pid proc.prog (Post pid proc.call proc.birth) s) :
    (cfg.setProc pid p s).Good exec Pre R G Inv Post := by
  refine ⟨hinv, fun q proc hq => ?_⟩
  by_cases hqp : q = pid
  · subst hqp
    exact hp proc (by simpa [Config.setProc] using hq)
  · have hq' : cfg.procs q = some proc := by simpa [Config.setProc, hqp] using hq
    exact (h.2 q proc hq').of_rely (hS.trans q) (hR q hqp)

/-- **One step keeps the system good.** -/
theorem Config.Good.step (hS : Sound exec idle release program Pre R G Inv Post)
    {cfg cfg' : Config Res State Call Result} {l : Label Choice Call}
    (h : cfg.Good exec Pre R G Inv Post) (hl : step exec idle release program cfg l = some cfg') :
    cfg'.Good exec Pre R G Inv Post := by
  cases l with
  | spawn pid call =>
    simp only [Sys.step] at hl
    split at hl
    · rename_i hnone hidle
      cases hl
      refine h.setProc hS h.1 (fun q _ => hS.refl q _) ?_
      rintro proc ⟨rfl⟩
      exact hS.safe pid call cfg.state h.1 hidle
    · cases hl
  | act pid c =>
    simp only [Sys.step] at hl
    split at hl
    · rename_i call birth o k hproc
      rw [Option.map_eq_some_iff] at hl
      obtain ⟨⟨r, s₂⟩, he, rfl⟩ := hl
      obtain ⟨hG, hnext⟩ := ((h.2 pid _ hproc) cfg.state (hS.refl pid _)).2 c r s₂ he
      refine h.setProc hS (hS.inv h.1 hG) (fun q hq => hS.guarantee (Ne.symm hq) hG) ?_
      rintro proc ⟨rfl⟩
      exact hnext
    · cases hl
  | finish pid =>
    simp only [Sys.step] at hl
    split at hl
    · cases hl
      exact h.setProc hS h.1 (fun q _ => hS.refl q _) (by rintro proc ⟨⟩)
    · cases hl
  | crash pid =>
    simp only [Sys.step] at hl
    split at hl
    · cases hl
      exact h.setProc hS (hS.crash_inv h.1) (fun q hq => hS.crash (Ne.symm hq))
        (by rintro proc ⟨⟩)
    · cases hl

/-- **Every reachable configuration is good**: the invariant holds of the shared state, and what
is left of every running process is safe from there. -/
theorem Reach.good (hS : Sound exec idle release program Pre R G Inv Post)
    {cfg₀ cfg : Config Res State Call Result} (h₀ : cfg₀.Good exec Pre R G Inv Post)
    (h : Reach exec idle release program cfg₀ cfg) : cfg.Good exec Pre R G Inv Post := by
  induction h with
  | refl => exact h₀
  | step l _ hl ih => exact ih.step hS hl

/-- What the steps of processes and their deaths do, every step does. -/
theorem Config.Good.between (hS : Sound exec idle release program Pre R G Inv Post)
    {P : State → State → Prop} (refl : ∀ s, P s s)
    (guarantee : ∀ {pid s s'}, G pid s s' → P s s') (crash : ∀ pid s, P s (release pid s))
    {cfg cfg' : Config Res State Call Result} {l : Label Choice Call}
    (h : cfg.Good exec Pre R G Inv Post) (hl : Sys.step exec idle release program cfg l = some cfg') :
    P cfg.state cfg'.state := by
  cases l with
  | spawn q call =>
    simp only [Sys.step] at hl
    split at hl
    · cases hl
      exact refl _
    · cases hl
  | act q c =>
    simp only [Sys.step] at hl
    split at hl
    · rename_i call birth o k hproc
      rw [Option.map_eq_some_iff] at hl
      obtain ⟨⟨r, s'⟩, he, rfl⟩ := hl
      exact guarantee (((h.2 q _ hproc) cfg.state (hS.refl q _)).2 c r s' he).1
    · cases hl
  | finish q =>
    simp only [Sys.step] at hl
    split at hl
    · cases hl
      exact refl _
    · cases hl
  | crash q =>
    simp only [Sys.step] at hl
    split at hl
    · cases hl
      exact crash q _
    · cases hl

/-- What every step keeps of the past holds between a configuration and a later one. -/
theorem Reach.later (hS : Sound exec idle release program Pre R G Inv Post)
    {P : State → State → Prop} (refl : ∀ s, P s s) (trans : ∀ {a b c}, P a b → P b c → P a c)
    (guarantee : ∀ {pid s s'}, G pid s s' → P s s') (crash : ∀ pid s, P s (release pid s))
    {cfg cfg' : Config Res State Call Result} (h : cfg.Good exec Pre R G Inv Post)
    (hreach : Reach exec idle release program cfg cfg') : P cfg.state cfg'.state := by
  induction hreach with
  | refl => exact refl _
  | @step cfg₁ cfg₂ l hreach hl ih =>
    exact trans ih ((hreach.good hS h).between hS refl guarantee crash hl)

/-- What every step keeps of the past holds between the start of a process and now. -/
theorem Reach.since_birth (hS : Sound exec idle release program Pre R G Inv Post)
    {P : State → State → Prop} (refl : ∀ s, P s s) (trans : ∀ {a b c}, P a b → P b c → P a c)
    (guarantee : ∀ {pid s s'}, G pid s s' → P s s') (crash : ∀ pid s, P s (release pid s))
    {cfg₀ cfg : Config Res State Call Result} (h₀ : cfg₀.Good exec Pre R G Inv Post)
    (hnone : ∀ pid, cfg₀.procs pid = none) (h : Reach exec idle release program cfg₀ cfg)
    {pid : Pid} {proc : Proc Res State Call Result} (hp : cfg.procs pid = some proc) :
    P proc.birth cfg.state := by
  induction h generalizing proc with
  | refl => exact absurd (hp.symm.trans (hnone pid)) (by simp)
  | @step cfg cfg' l hreach hl ih =>
    rcases procs_step hl hp with ⟨proc', hp', hbirth⟩ | ⟨hbirth, hstate⟩
    · have hstep := (hreach.good hS h₀).between hS refl guarantee crash hl
      rw [← hbirth]
      exact trans (ih hp') hstep
    · rw [hbirth, hstate]
      exact refl _

/-- **A process that has finished satisfies its postcondition.** -/
theorem Config.Good.post (hS : Sound exec idle release program Pre R G Inv Post)
    {cfg : Config Res State Call Result} (h : cfg.Good exec Pre R G Inv Post) {pid : Pid}
    {call : Call} {birth : State} {a : Result} (hp : cfg.procs pid = some ⟨call, birth, .pure a⟩) :
    Post pid call birth a cfg.state :=
  (h.2 pid _ hp) cfg.state (hS.refl pid _)

/-- **A step of a process obeys its guarantee.** -/
theorem Config.Good.guarantee (hS : Sound exec idle release program Pre R G Inv Post)
    {cfg : Config Res State Call Result} (h : cfg.Good exec Pre R G Inv Post) {pid : Pid}
    {call : Call} {birth : State} {o : Op} {k : Res o → Prog Res Result}
    (hp : cfg.procs pid = some ⟨call, birth, .op o k⟩) {c : Choice} {r : Res o} {s : State}
    (he : exec pid o c cfg.state = some (r, s)) : G pid cfg.state s :=
  (((h.2 pid _ hp) cfg.state (hS.refl pid _)).2 c r s he).1

end Good

end Sys

end Yappod

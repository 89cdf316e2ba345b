import Yappod.Lib.Prog

/-!
# Programs that run alone

A program that nobody interferes with leads from one assertion to another (`Prog.Ends`), and no assertion has to be
stable for that; what is proved of it among others is true of it alone (`Triple.ends`).  Some facts can be read off
the text of a program, once it is known how its steps may be answered: which steps it takes and what it returns
(`Prog.Keeps`).
-/

set_option autoImplicit false

namespace Yappod

namespace Prog

variable {Op : Type} {Res : Op → Type} {α β : Type}

/-- As long as its steps are answered as `V` says, the program only takes steps of `P` and returns a value of `Q`. -/
def Keeps (P : Op → Prop) (V : (o : Op) → Res o → Prop) (Q : α → Prop) : Prog Res α → Prop
  | .pure a => Q a
  | .op o k => P o ∧ ∀ r, V o r → (k r).Keeps P V Q

variable {P : Op → Prop} {V : (o : Op) → Res o → Prop} {Q : α → Prop} {Q' : β → Prop}

theorem keeps_pure {a : α} (h : Q a) : Keeps P V Q (Pure.pure a : Prog Res α) := h

theorem Keeps.bind {p : Prog Res α} {f : α → Prog Res β} (hp : p.Keeps P V Q)
    (hf : ∀ a, Q a → (f a).Keeps P V Q') : Keeps P V Q' (p >>= f) := by
  induction p with
  | pure a => exact hf a hp
  | op o k ih => exact ⟨hp.1, fun r hr => ih r (hp.2 r hr)⟩

/-- One step, then the rest. -/
theorem Keeps.step {o : Op} {f : Res o → Prog Res β} (ho : P o) (hf : ∀ r, V o r → (f r).Keeps P V Q') :
    Keeps P V Q' (perform o >>= f) := ⟨ho, hf⟩

/-- If every answer is allowed, these are the steps the program uses. -/
theorem Keeps.uses {p : Prog Res α} (h : p.Keeps P V Q) (hV : ∀ o r, V o r) {P' : Op → Prop}
    (hP : ∀ o, P o → P' o) : p.Uses P' := by
  induction p with
  | pure a => exact trivial
  | op o k ih => exact ⟨hP o h.1, fun r => ih r (h.2 r (hV o r))⟩

section Run

variable {State Choice : Type} {exec : Pid → (o : Op) → Choice → State → Option (Res o × State)} {pid : Pid}

/-- What every step keeps, as long as the steps are answered as they are, holds at the end of a run. -/
theorem Keeps.run {K : State → Prop}
    (hstep : ∀ {o c r s s'}, P o → K s → exec pid o c s = some (r, s') → V o r ∧ K s') {p : Prog Res α} :
    ∀ {cs : List Choice} {s s' : State} {a : α}, p.Keeps P V Q → K s → p.run exec pid cs s = some (a, s') →
      Q a ∧ K s' := by
  induction p with
  | pure a =>
    rintro (_ | ⟨c, cs⟩) s s' b hp hs hrun
    · obtain ⟨rfl, rfl⟩ := Prod.mk.inj (Option.some.inj hrun)
      exact ⟨hp, hs⟩
    · cases hrun
  | op o k ih =>
    rintro (_ | ⟨c, cs⟩) s s' b hp hs hrun
    · cases hrun
    · rw [run_op_cons, Option.bind_eq_some_iff] at hrun
      obtain ⟨⟨r, s₁⟩, he, hrest⟩ := hrun
      obtain ⟨hr, hs₁⟩ := hstep hp.1 hs he
      exact ih r (hp.2 r hr) hs₁ hrest

end Run


/-! ## Running alone -/

section Alone

variable {State Choice : Type} {exec : Pid → (o : Op) → Choice → State → Option (Res o × State)} {pid : Pid}

theorem run_bind {p : Prog Res α} {f : α → Prog Res β} : ∀ {cs : List Choice} {s s' : State} {b : β},
    (p >>= f).run exec pid cs s = some (b, s') →
      ∃ before after a s₁, cs = before ++ after ∧ p.run exec pid before s = some (a, s₁) ∧
        (f a).run exec pid after s₁ = some (b, s') := by
  induction p with
  | pure a => exact fun {cs s _ _} h => ⟨[], cs, a, s, rfl, rfl, h⟩
  | op o k ih =>
    rintro (_ | ⟨c, cs⟩) s s' b h
    · cases h
    · rw [bind_eq, op_bind, run_op_cons, Option.bind_eq_some_iff] at h
      obtain ⟨⟨r, s₁⟩, he, hrest⟩ := h
      obtain ⟨before, after, a, s₂, rfl, hp, hf⟩ := ih r hrest
      refine ⟨c :: before, after, a, s₂, rfl, ?_, hf⟩
      rw [run_op_cons, he]
      exact hp

variable (exec) (pid) in
/-- Alone, the program leads from `A` to `B`. -/
def Ends (A : State → Prop) (p : Prog Res α) (B : α → State → Prop) : Prop :=
  ∀ cs s a s', A s → p.run exec pid cs s = some (a, s') → B a s'

variable {A A' : State → Prop} {p : Prog Res α} {B B' : α → State → Prop}

theorem Ends.pure {a : α} (h : ∀ s, A s → B a s) : Ends exec pid A (Pure.pure a) B := by
  rintro (_ | ⟨c, cs⟩) s b s' hs hrun
  · obtain ⟨rfl, rfl⟩ := Prod.mk.inj (Option.some.inj hrun)
    exact h s hs
  · cases hrun

theorem Ends.bind {f : α → Prog Res β} {C : β → State → Prop} (hp : Ends exec pid A p B)
    (hf : ∀ a, Ends exec pid (B a) (f a) C) : Ends exec pid A (p >>= f) C := by
  intro cs s b s' hs hrun
  obtain ⟨before, after, a, s₁, -, hrun₁, hrun₂⟩ := run_bind hrun
  exact hf a after s₁ b s' (hp before s a s₁ hs hrun₁) hrun₂

theorem Ends.perform {o : Op} {B : Res o → State → Prop}
    (h : ∀ s c r s', A s → exec pid o c s = some (r, s') → B r s') : Ends exec pid A (Prog.perform o) B := by
  rintro (_ | ⟨c, cs⟩) s r s' hs hrun
  · cases hrun
  · rw [Prog.perform, run_op_cons, Option.bind_eq_some_iff] at hrun
    obtain ⟨⟨r₁, s₁⟩, he, hrest⟩ := hrun
    cases cs with
    | nil =>
      obtain ⟨rfl, rfl⟩ := Prod.mk.inj (Option.some.inj hrest)
      exact h s c r₁ s₁ hs he
    | cons c' cs => cases hrest

theorem Ends.conseq (h : Ends exec pid A p B) (hA : ∀ s, A' s → A s) (hB : ∀ a s, B a s → B' a s) :
    Ends exec pid A' p B' :=
  fun cs s a s' hs hrun => hB a s' (h cs s a s' (hA s hs) hrun)

end Alone

end Prog

/-- **What is proved of a program among others holds of it alone.** -/
theorem Triple.ends {Op : Type} {Res : Op → Type} {State Choice α : Type}
    {exec : Pid → (o : Op) → Choice → State → Option (Res o × State)} {Pre : Pid → Op → State → Prop}
    {R G : Pid → State → State → Prop} {pid : Pid} {A : State → Prop} {p : Prog Res α} {B : α → State → Prop}
    (refl : ∀ s, R pid s s) (h : Triple exec Pre R G pid A p B) : p.Ends exec pid A B :=
  fun _ s _ _ hs hrun => (h s hs).run refl hrun

end Yappod

import Mathlib.Data.List.Perm.Subperm
import Mathlib.Data.Prod.Basic
import Yappod.Server.Lifetimes

/-!
# What the threads of the server hold

Each thread answers for the references it holds: it gives up every one it has taken or been given, and it frees what it has
allocated or taken apart.  A thread relies on the others for no more than that they leave its references and allocations
alone and do not change the pointers of an object, that of a snapshot manager apart.

* `Inv` — every count is the number of references, of objects, of threads and of `state->current`.
* `Owns` — what a thread holds and knows in the middle of a program.
* `release_spec`, `init_spec` and so on — what each step does to that, and that it is allowed.
-/

set_option autoImplicit false

namespace Yappod

namespace Lifetimes

open RefCount

/-! ## What threads rely on -/

/-- The references that are held outside of the heap. -/
def State.outside (s : State) : List (Ref Kind) := s.current.toList.map (.runtime, ·) ++ s.held.map (·.2)

/-- **The invariant of the memory.** -/
structure Inv (s : State) : Prop where
  counted : Counted shape s.outside (s.owned.map (·.2)) s.heap
  opening : ∀ q, s.opening = some q → s.current = none

/-- A step leaves alone what a thread has. -/
structure Apart (pid : Pid) (s s' : State) : Prop where
  held : ∀ r, s'.held.count (pid, r) = s.held.count (pid, r)
  owned : ∀ x, s'.owned.count (pid, x) = s.owned.count (pid, x)
  opening : s'.opening = some pid ↔ s.opening = some pid

/-- An object keeps its pointers, unless it is a snapshot manager. -/
def Lasting (s s' : State) : Prop :=
  ∀ a o, o.kind ≠ .manager → s.heap.content a = some o → s'.heap.content a = some o

/-- What a thread relies on. -/
structure Rely (pid : Pid) (s s' : State) : Prop where
  inv : Inv s → Inv s'
  apart : Apart pid s s'
  lasting : Lasting s s'

/-- What a thread guarantees. -/
structure Guar (pid : Pid) (s s' : State) : Prop where
  inv : Inv s → Inv s'
  apart : ∀ q, q ≠ pid → Apart q s s'
  lasting : Lasting s s'

theorem Apart.refl (pid : Pid) (s : State) : Apart pid s s := ⟨fun _ => rfl, fun _ => rfl, Iff.rfl⟩

theorem Rely.refl (pid : Pid) (s : State) : Rely pid s s := ⟨id, .refl pid s, fun _ _ _ h => h⟩

theorem Rely.trans {pid : Pid} {a b c : State} (h : Rely pid a b) (h' : Rely pid b c) : Rely pid a c where
  inv hi := h'.inv (h.inv hi)
  apart := ⟨fun r => (h'.apart.held r).trans (h.apart.held r), fun x => (h'.apart.owned x).trans (h.apart.owned x),
    h'.apart.opening.trans h.apart.opening⟩
  lasting x o hk ho := h'.lasting x o hk (h.lasting x o hk ho)

/-- The list `ys` says for a process that it has `zs`, and for the others what `xs` says. -/
def Moved {α : Type} [BEq α] (pid : Pid) (xs ys : List (Pid × α)) (zs : List α) : Prop :=
  ∀ q t, ys.count (q, t) = if q = pid then zs.count t else xs.count (q, t)

section Moved

variable {α : Type} [BEq α] {pid : Pid} {xs ys : List (Pid × α)} {zs zs' l : List α} {a : α}

theorem Moved.same (h : ∀ t, xs.count (pid, t) = zs.count t) : Moved pid xs xs zs := fun q t => by
  split
  · rename_i hq
    rw [hq, h]
  · rfl

theorem Moved.perm (h : Moved pid xs ys zs) (hp : zs.Perm zs') : Moved pid xs ys zs' := fun q t => by
  rw [h q t, hp.count_eq]

variable [LawfulBEq α]

theorem Moved.cons (h : Moved pid xs ys zs) : Moved pid xs ((pid, a) :: ys) (a :: zs) := fun q t => by
  rw [List.count_cons, h q t]
  by_cases hq : q = pid
  · by_cases ht : a = t <;> simp [hq, ht]
  · simp [hq, Ne.symm hq]

theorem Moved.append (h : Moved pid xs ys zs) : Moved pid xs (l.map (pid, ·) ++ ys) (l ++ zs) := by
  induction l with
  | nil => exact h
  | cons a l ih => exact ih.cons

theorem Moved.erase (h : Moved pid xs ys zs) (hp : zs.Perm (a :: zs')) : Moved pid xs (ys.erase (pid, a)) zs' :=
    fun q t => by
  rw [List.count_erase, h q t]
  by_cases hq : q = pid
  · rw [if_pos hq, if_pos hq, hp.count_eq, List.count_cons]
    by_cases ht : a = t <;> simp [hq, ht]
  · simp [hq, Ne.symm hq]

theorem Moved.diff (h : Moved pid xs ys zs) (hp : zs.Perm (l ++ zs')) : Moved pid xs (ys.diff (l.map (pid, ·))) zs' := by
  induction l generalizing ys zs with
  | nil => exact h.perm hp
  | cons a l ih =>
    rw [List.map_cons, List.diff_cons]
    exact ih (h.erase hp) (.refl _)

end Moved

/-- What a thread has: the references it holds, the allocations it owns, whether it is opening the server, and pointers of
objects that it has read. -/
structure Own where
  held : List (Ref Kind)
  owned : List Raw
  opening : Bool
  known : List (Nat × Object)

/-- A thread has this, and no other references or allocations. -/
structure Owns (pid : Pid) (own : Own) (s : State) : Prop where
  inv : Inv s
  held : ∀ r, s.held.count (pid, r) = own.held.count r
  owned : ∀ x, s.owned.count (pid, x) = own.owned.count x
  opening : s.opening = some pid ↔ own.opening = true
  known : ∀ a o, (a, o) ∈ own.known → o.kind ≠ .manager ∧ s.heap.content a = some o

instance (pid : Pid) (own : Own) : Stable Rely pid (Owns pid own) where
  rely h hr := {
    inv := hr.inv h.inv
    held r := (hr.apart.held r).trans (h.held r)
    owned x := (hr.apart.owned x).trans (h.owned x)
    opening := hr.apart.opening.trans h.opening
    known a o hao := ⟨(h.known a o hao).1, hr.lasting a o (h.known a o hao).1 (h.known a o hao).2⟩ }

/-- References that lead to objects for as long as the thread holds what it holds: these, and the pointers of objects
behind them. -/
inductive Own.Reaches (own : Own) : Ref Kind → Prop
  | held {r : Ref Kind} (hr : r ∈ own.held) : Reaches own r
  | field {a : Nat} {o : Object} {r : Ref Kind} (ha : Reaches own (o.kind, a)) (ho : (a, o) ∈ own.known)
      (hr : r ∈ o.refs) : Reaches own r

/-- The thread has read an object. -/
def Own.learn (own : Own) (a : Nat) (o : Object) : Own :=
  if o.kind = .manager then own else { own with known := (a, o) :: own.known }

section Steps

variable {pid : Pid} {own own' : Own} {s s' : State} {r : Ref Kind} {H : List (Ref Kind)} {W : List Raw}

theorem Own.Reaches.mono (h : own.Reaches r) (hheld : ∀ t ∈ own.held, t ∈ own'.held)
    (hknown : ∀ x ∈ own.known, x ∈ own'.known) : own'.Reaches r := by
  induction h with
  | held hr => exact .held (hheld _ hr)
  | field _ ho hr ih => exact .field ih (hknown _ ho) hr

@[simp] theorem Own.held_learn (a : Nat) (o : Object) : (own.learn a o).held = own.held := by
  rw [Own.learn]
  split <;> rfl

@[simp] theorem Own.owned_learn (a : Nat) (o : Object) : (own.learn a o).owned = own.owned := by
  rw [Own.learn]
  split <;> rfl

@[simp] theorem Own.opening_learn (a : Nat) (o : Object) : (own.learn a o).opening = own.opening := by
  rw [Own.learn]
  split <;> rfl

theorem Own.mem_known_learn (own : Own) {a : Nat} {o : Object} {x : Nat × Object} (hx : x ∈ own.known) :
    x ∈ (own.learn a o).known := by
  rw [Own.learn]
  split
  · exact hx
  · exact List.mem_cons_of_mem _ hx

theorem Own.known_learn {a : Nat} {o : Object} (ho : o.kind ≠ .manager) : (own.learn a o).known = (a, o) :: own.known := by
  rw [Own.learn, if_neg ho]

theorem mem_held (h : Owns pid own s) (hr : r ∈ own.held) : (pid, r) ∈ s.held := by
  rw [← List.count_pos_iff, h.held r]
  exact List.count_pos_iff.mpr hr

theorem mem_outside {q : Pid} (hr : (q, r) ∈ s.held) : r ∈ s.outside :=
  List.mem_append_right _ (List.mem_map.mpr ⟨(q, r), hr, rfl⟩)

/-- What a thread can reach is there. -/
theorem Owns.look (h : Owns pid own s) (hr : own.Reaches r) : ∃ n o, s.heap.look shape r = some (n + 1, o) := by
  induction hr with
  | held hr => exact h.inv.counted.look_of_mem (List.mem_append_left _ (mem_outside (mem_held h hr)))
  | @field a o r _ ho hr ih =>
    obtain ⟨n, o', hl⟩ := ih
    have hcontent := (h.known a o ho).2
    obtain rfl : o' = o := Option.some.inj ((content_of_look hl).symm.trans hcontent)
    exact h.inv.counted.look_of_points ⟨_, _, hl, hr⟩

/-- A step that changes the state in this way stays within the guarantee, and leaves the thread with that. -/
theorem Owns.next (h : Owns pid own s) (inv : Inv s')
    (held : Moved pid s.held s'.held own'.held) (owned : Moved pid s.owned s'.owned own'.owned)
    (opening : ∀ q, s'.opening = some q ↔ if q = pid then own'.opening = true else s.opening = some q)
    (lasting : Lasting s s')
    (known : ∀ a o, (a, o) ∈ own'.known → (a, o) ∈ own.known ∨ o.kind ≠ .manager ∧ s'.heap.content a = some o) :
    Guar pid s s' ∧ Owns pid own' s' := by
  refine ⟨⟨fun _ => inv, fun q hq => ⟨fun t => ?_, fun x => ?_, ?_⟩, lasting⟩, inv, fun t => ?_, fun x => ?_, ?_, ?_⟩
  · rw [held, if_neg hq]
  · rw [owned, if_neg hq]
  · rw [opening, if_neg hq]
  · rw [held, if_pos rfl]
  · rw [owned, if_pos rfl]
  · rw [opening, if_pos rfl]
  · intro a o hao
    rcases known a o hao with hold | hnew
    · exact ⟨(h.known a o hold).1, lasting a o (h.known a o hold).1 (h.known a o hold).2⟩
    · exact hnew

end Steps

/-! ## Each step -/

/-- What a program does to an assertion, among other threads. -/
abbrev Spec (pid : Pid) {α : Type} (A : State → Prop) (p : Thread α) (B : α → State → Prop) : Prop :=
  Triple exec (fun _ o s => o.Allowed s) Rely Guar pid A p B

section Rules

variable {pid : Pid} {α β : Type} {A : State → Prop} {B : α → State → Prop} {C : β → State → Prop} {own own' : Own}

theorem Spec.bind {p : Thread α} {f : α → Thread β} (hp : Spec pid A p B) (hf : ∀ a, Spec pid (B a) (f a) C) :
    Spec pid A (p >>= f) C :=
  Triple.bind (Rely.refl pid) hp hf

theorem Spec.assume {P : Prop} {p : Thread α} (h : P → Spec pid A p B) : Spec pid (fun s => P ∧ A s) p B :=
  fun s hs => h hs.1 s hs.2

/-- The order of what a thread has does not matter, and what was read may be forgotten. -/
theorem Owns.weaken {s : State} (h : Owns pid own s) (hheld : own.held.Perm own'.held)
    (howned : own.owned.Perm own'.owned) (hopening : own.opening = own'.opening)
    (hknown : ∀ x ∈ own'.known, x ∈ own.known) : Owns pid own' s where
  inv := h.inv
  held r := (h.held r).trans (hheld.count_eq r)
  owned x := (h.owned x).trans (howned.count_eq x)
  opening := hopening ▸ h.opening
  known a o hao := h.known a o (hknown _ hao)

theorem Owns.perm {s : State} {H : List (Ref Kind)} {W : List Raw} (h : Owns pid own s) (hheld : own.held.Perm H)
    (howned : own.owned.Perm W) : Owns pid { own with held := H, owned := W } s :=
  h.weaken hheld howned rfl fun _ hx => hx

theorem Owns.of_learn {s : State} {a : Nat} {o : Object} (h : Owns pid (own.learn a o) s) : Owns pid own s :=
  h.weaken (by simp) (by simp) (by simp) fun _ => own.mem_known_learn

end Rules

section Steps

variable {pid : Pid} {own : Own} {r : Ref Kind} {H : List (Ref Kind)} {W : List Raw} {a : Nat}

theorem Owns.moved_held {s : State} (h : Owns pid own s) : Moved pid s.held s.held own.held := .same h.held

theorem Owns.moved_owned {s : State} (h : Owns pid own s) : Moved pid s.owned s.owned own.owned := .same h.owned

/-- A step that has nothing to do with opening the server. -/
theorem Owns.step {own' : Own} {s s' : State} (h : Owns pid own s)
    (counted : Counted shape s'.outside (s'.owned.map (·.2)) s'.heap)
    (held : Moved pid s.held s'.held own'.held) (owned : Moved pid s.owned s'.owned own'.owned)
    (lasting : Lasting s s') (hopening : s'.opening = s.opening := by rfl)
    (hcurrent : s.current = none → s'.current = none := by exact id) (hopening' : own'.opening = own.opening := by rfl)
    (hknown : own'.known = own.known := by rfl) : Guar pid s s' ∧ Owns pid own' s' := by
  refine h.next ⟨counted, fun q hq => hcurrent (h.inv.opening q (hopening ▸ hq))⟩ held owned (fun q => ?_) lasting
    (fun a o hao => .inl (hknown ▸ hao))
  rw [hopening, hopening']
  split
  · rename_i hq
    rw [hq, h.opening]
  · exact Iff.rfl

/-- A step that leaves the memory alone. -/
theorem Owns.same {s : State} (h : Owns pid own s) : Guar pid s s ∧ Owns pid own s :=
  h.step h.inv.counted h.moved_held h.moved_owned fun _ _ _ ho => ho

theorem outside_spec (own : Own) : Spec pid (Owns pid own) (perform .outside) fun _ => Owns pid own := by
  refine Triple.perform (fun _ _ => trivial) fun s c r s' hs he => ?_
  cases c <;> cases he <;> exact hs.same

theorem choose_spec (own : Own) : Spec pid (Owns pid own) (perform .choose) fun _ => Owns pid own := by
  refine Triple.perform (fun _ _ => trivial) fun s c r s' hs he => ?_
  cases c <;> cases he <;> exact hs.same

theorem calloc_spec (own : Own) : Spec pid (Owns pid own) (perform .calloc) fun r =>
    Owns pid { own with owned := r.toList.map (·, false) ++ own.owned } := by
  refine Triple.perform (fun _ _ => trivial) fun s c r s' hs he => ?_
  cases c with
  | yes =>
    cases he
    exact hs.step hs.inv.counted.alloc hs.moved_held hs.moved_owned.cons fun _ _ _ ho => content_alloc ho
  | no =>
    cases he
    exact hs.same
  | number n => cases he

theorem read_spec (own : Own) (hr : own.Reaches r) : Spec pid (Owns pid own) (perform (.read r)) fun o s =>
    o.kind = r.1 ∧ Owns pid (own.learn r.2 o) s := by
  refine Triple.perform (fun s hs => ?_) fun s c o s' hs he => ?_
  · obtain ⟨n, o, hl⟩ := hs.look hr
    rw [Op.Allowed, hl]
    rfl
  · simp only [exec, Option.map_eq_some_iff] at he
    obtain ⟨⟨n, o'⟩, hl, he⟩ := he
    cases he
    refine ⟨hs.same.1, (look_eq_some.mp hl).2, ?_⟩
    by_cases hk : o'.kind = .manager
    · rw [Own.learn, if_pos hk]
      exact hs
    · rw [Own.learn, if_neg hk]
      refine ⟨hs.inv, hs.held, hs.owned, hs.opening, fun a o' hao => ?_⟩
      rcases List.mem_cons.mp hao with heq | hold
      · cases heq
        exact ⟨hk, content_of_look hl⟩
      · exact hs.known a o' hold

theorem retain_next {s s' : State} (hs : Owns pid own s) (he : s.retain pid r = some s') :
    Guar pid s s' ∧ Owns pid { own with held := r :: own.held } s' := by
  rw [State.retain, Option.map_eq_some_iff] at he
  obtain ⟨h', hh, rfl⟩ := he
  exact hs.step ((hs.inv.counted.retain hh).perm List.perm_middle.symm (.refl _)) hs.moved_held.cons hs.moved_owned
    fun b o _ ho => (content_retain hh b).trans ho

theorem retain_spec (own : Own) (hr : own.Reaches r) : Spec pid (Owns pid own) (perform (.retain r)) fun _ =>
    Owns pid { own with held := r :: own.held } := by
  refine Triple.perform (fun s hs => ?_) fun s c o s' hs he => ?_
  · obtain ⟨n, o, hl⟩ := hs.look hr
    rw [Op.Allowed, hl]
    rfl
  · simp only [exec, Option.map_eq_some_iff] at he
    obtain ⟨s₁, hs₁, he⟩ := he
    cases he
    exact retain_next hs hs₁

theorem held_erase {s : State} {q : Pid} (hmem : (q, r) ∈ s.held) :
    (s.held.map (·.2)).Perm (r :: (s.held.erase (q, r)).map (·.2)) :=
  (List.perm_cons_erase hmem).map _

theorem outside_erase {s : State} {q : Pid} (hmem : (q, r) ∈ s.held) :
    s.outside.Perm (r :: (s.current.toList.map (.runtime, ·) ++ (s.held.erase (q, r)).map (·.2))) :=
  ((held_erase hmem).append_left _).trans List.perm_middle

theorem release_spec (own : Own) (hH : own.held.Perm (r :: H)) :
    Spec pid (Owns pid own) (perform (.release r)) fun last s => (∀ o, last = some o → o.kind = r.1) ∧
      Owns pid { own with
        held := last.elim [] Object.refs ++ H, owned := (last.elim [] fun _ => [(r.2, true)]) ++ own.owned } s := by
  have hmem : r ∈ own.held := hH.mem_iff.mpr List.mem_cons_self
  refine Triple.perform (fun s hs => ?_) fun s c last s' hs he => ?_
  · obtain ⟨n, o, hl⟩ := hs.look (.held hmem)
    rw [Op.Allowed, count_of_look hl]
    exact Nat.succ_pos n
  simp only [exec, Option.map_eq_some_iff] at he
  obtain ⟨⟨last', h'⟩, hh, he⟩ := he
  have hcounted := (hs.inv.counted.perm (outside_erase (mem_held hs hmem)) (.refl _)).release hh
  have hmoved := hs.moved_held.erase hH
  have hlasting : ∀ b o, s.heap.content b = some o → h'.content b = some o := fun b o ho =>
    (content_release hh b).trans ho
  cases last' with
  | none =>
    cases he
    have hnext : Guar pid s { s with heap := h', held := s.held.erase (pid, r) } ∧
        Owns pid { own with held := H } { s with heap := h', held := s.held.erase (pid, r) } :=
      hs.step hcounted hmoved hs.moved_owned fun b o _ => hlasting b o
    exact ⟨hnext.1, by rintro o ⟨⟩, hnext.2⟩
  | some o =>
    cases he
    obtain ⟨hcontent, hcounted⟩ := hcounted
    have hnext : Guar pid s { s with
          heap := h', held := o.refs.map (pid, ·) ++ s.held.erase (pid, r), owned := (pid, (r.2, true)) :: s.owned } ∧
        Owns pid { own with held := o.refs ++ H, owned := (r.2, true) :: own.owned } { s with
          heap := h', held := o.refs.map (pid, ·) ++ s.held.erase (pid, r), owned := (pid, (r.2, true)) :: s.owned } := by
      refine hs.step (hcounted.perm ?_ (.refl _)) hmoved.append hs.moved_owned.cons fun b o _ => hlasting b o
      rw [State.outside, List.map_append, List.map_map]
      refine List.Perm.trans ?_ (List.perm_append_comm_assoc _ _ _)
      simp [Function.comp_def, shape]
    refine ⟨hnext.1, ?_, hnext.2⟩
    rintro o' ⟨rfl⟩
    obtain ⟨n, o', hl⟩ := hs.look (.held hmem)
    obtain rfl : o' = o := Option.some.inj ((content_of_look hl).symm.trans hcontent)
    exact (look_eq_some.mp hl).2

theorem Owns.mem_owned {s : State} {x : Raw} (hs : Owns pid own s) (hx : x ∈ own.owned) : (pid, x) ∈ s.owned := by
  rw [← List.count_pos_iff, hs.owned x]
  exact List.count_pos_iff.mpr hx

theorem owned_erase {s : State} {q : Pid} {x : Raw} (hmem : (q, x) ∈ s.owned) :
    (s.owned.map (·.2)).Perm (x :: (s.owned.erase (q, x)).map (·.2)) :=
  (List.perm_cons_erase hmem).map _

/-- A thread knows of an allocation that it owns that it is raw, and whether it was live before. -/
theorem Owns.rawCount {s : State} {made : Bool} (hs : Owns pid own s) (hx : (a, made) ∈ own.owned) :
    s.heap.rawCount (a, made) = 1 ∧ (s.heap.content a).isSome = made := by
  have hpos : 0 < s.heap.rawCount (a, made) := by
    rw [← hs.inv.counted.raw]
    exact List.count_pos_iff.mpr (List.mem_map.mpr ⟨_, hs.mem_owned hx, rfl⟩)
  rw [Heap.rawCount] at hpos ⊢
  split at hpos
  · rename_i o hcell
    split at hpos
    · rename_i hsome
      exact ⟨if_pos hsome, by rw [content_of_cell hcell, hsome]⟩
    · exact absurd hpos (lt_irrefl 0)
  · exact absurd hpos (lt_irrefl 0)

theorem free_spec (own : Own) {made : Bool} (hW : own.owned.Perm ((a, made) :: W)) :
    Spec pid (Owns pid own) (perform (.free a)) fun _ => Owns pid { own with owned := W } := by
  have hmem : (a, made) ∈ own.owned := hW.mem_iff.mpr List.mem_cons_self
  refine Triple.perform (fun s hs => ?_) fun s c r s' hs he => ?_
  · obtain ⟨hraw, hmade⟩ := hs.rawCount hmem
    rw [Op.Allowed, hmade]
    exact hraw
  simp only [exec, Option.map_eq_some_iff] at he
  obtain ⟨h', hh, he⟩ := he
  cases he
  rw [(hs.rawCount hmem).2]
  exact hs.step ((hs.inv.counted.perm (.refl _) (owned_erase (hs.mem_owned hmem))).free hh) hs.moved_held
    (hs.moved_owned.erase hW) fun b o _ ho => (content_free hh b).trans ho

theorem init_spec (own : Own) {o : Object} (hH : own.held.Perm (o.refs ++ H)) (hW : own.owned.Perm ((a, false) :: W)) :
    Spec pid (Owns pid own) (perform (.init a o)) fun _ =>
      Owns pid { own with held := (o.kind, a) :: H, owned := W } := by
  have hmem : (a, false) ∈ own.owned := hW.mem_iff.mpr List.mem_cons_self
  refine Triple.perform (fun s hs => (hs.rawCount hmem).1) fun s c r s' hs he => ?_
  simp only [exec, Option.map_eq_some_iff] at he
  obtain ⟨h', hh, he⟩ := he
  cases he
  have hheld : (s.held.map (·.2)).Perm (o.refs ++ (s.held.diff (o.refs.map (pid, ·))).map (·.2)) := by
    have hle : ∀ x ∈ o.refs.map (pid, ·), (o.refs.map (pid, ·)).count x ≤ s.held.count x := by
      intro x hx
      obtain ⟨t, -, rfl⟩ := List.mem_map.mp hx
      rw [hs.held t, hH.count_eq, List.count_append, List.count_map_of_injective _ _ (Prod.mk_right_injective pid)]
      exact Nat.le_add_right _ _
    have hperm := (List.subperm_append_diff_self_of_count_le hle).map Prod.snd
    simpa [Function.comp_def] using hperm.symm
  have hcounted : Counted shape (s.current.toList.map (.runtime, ·) ++
      ((o.kind, a) :: (s.held.diff (o.refs.map (pid, ·))).map (·.2))) ((s.owned.erase (pid, (a, false))).map (·.2)) h' := by
    refine (Counted.init (hs.inv.counted.perm ?_ (owned_erase (hs.mem_owned hmem))) hh).perm List.perm_middle.symm (.refl _)
    exact (hheld.append_left _).trans (List.perm_append_comm_assoc _ _ _)
  exact hs.step hcounted (hs.moved_held.diff hH).cons (hs.moved_owned.erase hW) fun b x _ hx =>
    content_init_of_some hh hx

/-- A reference that is taken under a lock. -/
theorem acquire_next {s s' : State} {k : Kind} {p r : Option Nat} (hs : Owns pid own s)
    (he : s.acquire pid k p = some (r, s')) :
    Guar pid s s' ∧ Owns pid { own with held := r.toList.map (k, ·) ++ own.held } s' := by
  cases p with
  | none =>
    cases he
    exact hs.same
  | some a =>
    rw [State.acquire, Option.map_eq_some_iff] at he
    obtain ⟨s₁, hs₁, he⟩ := he
    cases he
    exact retain_next hs hs₁

theorem acquire_spec (own : Own) : Spec pid (Owns pid own) (perform .acquire) fun r =>
    Owns pid { own with held := r.toList.map (.runtime, ·) ++ own.held } := by
  refine Triple.perform (fun s hs a ha => ?_) fun s c r s' hs he => acquire_next hs he
  obtain ⟨n, o, hl⟩ := hs.inv.counted.look_of_mem (r := (.runtime, a)) (List.mem_append_left _ (List.mem_append_left _
    (by simp [ha])))
  rw [hl]
  rfl

/-- What a thread can reach of the manager: it is one, and its current snapshot is there. -/
theorem Owns.manager {s : State} {m : Nat} (hs : Owns pid own s) (hm : own.Reaches (.manager, m)) :
    ∃ n c, s.heap.look shape (.manager, m) = some (n, .manager c) ∧
      ∀ a, c = some a → (s.heap.look shape (.snapshot, a)).isSome = true := by
  obtain ⟨n, o, hl⟩ := hs.look hm
  have hkind : o.kind = .manager := (look_eq_some.mp hl).2
  cases o <;> cases hkind
  rename_i c
  refine ⟨n + 1, c, hl, ?_⟩
  rintro a ⟨rfl⟩
  obtain ⟨n', o, hl'⟩ := hs.inv.counted.look_of_points (t := (.snapshot, a)) ⟨_, _, hl, by simp [shape, Object.refs]⟩
  rw [hl']
  rfl

theorem managerAcquire_spec (own : Own) {m : Nat} (hm : own.Reaches (.manager, m)) :
    Spec pid (Owns pid own) (perform (.managerAcquire m)) fun r =>
      Owns pid { own with held := r.toList.map (.snapshot, ·) ++ own.held } := by
  refine Triple.perform (fun s hs => ?_) fun s c r s' hs he => ?_
  · obtain ⟨n, c, hl, hc⟩ := hs.manager hm
    exact ⟨n, _, hl, hc⟩
  · simp only [exec, Option.bind_eq_some_iff] at he
    obtain ⟨x, -, he⟩ := he
    exact acquire_next hs he

theorem managerInstall_spec (own : Own) {m candidate : Nat} (hm : own.Reaches (.manager, m))
    (hH : own.held.Perm ((.snapshot, candidate) :: H)) :
    Spec pid (Owns pid own) (perform (.managerInstall m candidate)) fun r =>
      Owns pid { own with held := match r with
        | none => (.snapshot, candidate) :: H
        | some previous => previous.toList.map (.snapshot, ·) ++ H } := by
  have hmem : (.snapshot, candidate) ∈ own.held := hH.mem_iff.mpr List.mem_cons_self
  refine Triple.perform (fun s hs => ?_) fun s c r s' hs he => ?_
  · obtain ⟨n, c, hl, hc⟩ := hs.manager hm
    obtain ⟨n', o, hl'⟩ := hs.look (.held hmem)
    exact ⟨by rw [hl']; rfl, n, _, hl, hc⟩
  obtain ⟨n, current, hl, -⟩ := hs.manager hm
  simp only [exec, hl, Option.bind_some] at he
  cases c with
  | yes =>
    simp only [Option.map_eq_some_iff] at he
    obtain ⟨h', hh, he⟩ := he
    cases he
    have hcounted := (hs.inv.counted.perm (outside_erase (mem_held hs hmem)) (.refl _)).replace
      (content_of_look hl) rfl hh
    refine hs.step (hcounted.perm ?_ (.refl _)) ?_ hs.moved_owned fun b o hk ho => ?_
    · rw [State.outside, List.map_append, List.map_map]
      refine List.Perm.trans ?_ (List.perm_append_comm_assoc _ _ _)
      simp [Function.comp_def, shape, Object.refs, Object.current]
    · have hmoved := (hs.moved_held.erase hH).append (l := current.toList.map (.snapshot, ·))
      rwa [List.map_map] at hmoved
    · rw [content_replace hh, if_neg]
      · exact ho
      · rintro rfl
        obtain rfl : o = .manager current := Option.some.inj (ho.symm.trans (content_of_look hl))
        exact hk rfl
  | no =>
    cases he
    have hnext := hs.same
    exact ⟨hnext.1, hnext.2.perm hH (.refl _)⟩
  | number n => cases he

theorem publish_spec (own : Own) {expected candidate : Nat} (hH : own.held.Perm ((.runtime, candidate) :: H)) :
    Spec pid (Owns pid own) (perform (.publish expected candidate)) fun r =>
      Owns pid { own with held := (.runtime, if r = true then expected else candidate) :: H } := by
  have hmem : (.runtime, candidate) ∈ own.held := hH.mem_iff.mpr List.mem_cons_self
  refine Triple.perform (fun _ _ => trivial) fun s c r s' hs he => ?_
  rw [exec] at he
  split at he
  · rename_i hcurrent
    cases he
    refine hs.step ((hs.inv.counted.perm (outside_erase (mem_held hs hmem)) (.refl _)).perm ?_ (.refl _))
      (hs.moved_held.erase hH).cons hs.moved_owned (fun _ _ _ ho => ho) rfl fun hnone => ?_
    · rw [hcurrent]
      exact .refl _
    · rw [hcurrent] at hnone
      cases hnone
  · cases he
    have hnext := hs.same
    exact ⟨hnext.1, hnext.2.perm hH (.refl _)⟩

theorem takeCurrent_spec (own : Own) : Spec pid (Owns pid own) (perform .takeCurrent) fun r =>
    Owns pid { own with held := r.toList.map (.runtime, ·) ++ own.held } := by
  refine Triple.perform (fun _ _ => trivial) fun s c r s' hs he => ?_
  cases he
  refine hs.step (hs.inv.counted.perm ?_ (.refl _)) ?_ hs.moved_owned (fun _ _ _ ho => ho) rfl fun _ => rfl
  · simp [State.outside, Function.comp_def]
  · have hmoved := hs.moved_held.append (l := s.current.toList.map (.runtime, ·))
    rwa [List.map_map] at hmoved

theorem claim_spec (own : Own) (ho : own.opening = false) : Spec pid (Owns pid own) (perform .claim) fun r =>
    Owns pid { own with opening := r } := by
  refine Triple.perform (fun _ _ => trivial) fun s c r s' hs he => ?_
  rw [exec] at he
  split at he
  · rename_i hfree
    cases he
    refine hs.next ⟨hs.inv.counted, fun _ _ => hfree.1⟩ hs.moved_held hs.moved_owned (fun q => ?_)
      (fun _ _ _ ho => ho) fun _ _ hao => .inl hao
    rw [hfree.2]
    by_cases hq : q = pid
    · simp [hq]
    · simp [hq, Ne.symm hq]
  · cases he
    have hnext := hs.same
    rw [← ho]
    exact hnext

theorem abandon_spec (own : Own) (ho : own.opening = true) : Spec pid (Owns pid own) (perform .abandon) fun _ =>
    Owns pid { own with opening := false } := by
  refine Triple.perform (fun _ _ => trivial) fun s c r s' hs he => ?_
  cases he
  refine hs.next ⟨hs.inv.counted, by rintro q ⟨⟩⟩ hs.moved_held hs.moved_owned (fun q => ?_)
    (fun _ _ _ ho => ho) fun _ _ hao => .inl hao
  have hpid : s.opening = some pid := hs.opening.mpr ho
  by_cases hq : q = pid
  · simp [hq]
  · simp [hq, hpid, Ne.symm hq]

theorem start_spec (own : Own) (ho : own.opening = true) (hH : own.held.Perm ((.runtime, a) :: H)) :
    Spec pid (Owns pid own) (perform (.start a)) fun _ => Owns pid { own with held := H, opening := false } := by
  have hmem : (.runtime, a) ∈ own.held := hH.mem_iff.mpr List.mem_cons_self
  refine Triple.perform (fun s hs => hs.inv.opening pid (hs.opening.mpr ho)) fun s c r s' hs he => ?_
  cases he
  have hpid : s.opening = some pid := hs.opening.mpr ho
  have hcurrent : s.current = none := hs.inv.opening pid hpid
  refine hs.next ⟨hs.inv.counted.perm ?_ (.refl _), by rintro q ⟨⟩⟩ (hs.moved_held.erase hH) hs.moved_owned
    (fun q => ?_) (fun _ _ _ ho => ho) fun _ _ hao => .inl hao
  · refine (outside_erase (mem_held hs hmem)).trans ?_
    rw [hcurrent]
    exact .refl _
  · by_cases hq : q = pid
    · simp [hq]
    · simp [hq, hpid, Ne.symm hq]

end Steps

end Lifetimes

end Yappod

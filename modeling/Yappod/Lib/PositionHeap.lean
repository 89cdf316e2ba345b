import Mathlib.Order.Lattice
import Mathlib.Order.Basic
import Mathlib.Order.Defs.LinearOrder
import Mathlib.Logic.Function.Basic
import Mathlib.Tactic.Push

/-!
# Binary heaps of indices

A heap of the indices below `n`, ordered by a key of the index with the largest at the root, together with the place of
each index in it.  `siftUp` and `siftDown` move an index whose key has changed; `Positioned` says that the heap is a
permutation and that the places are its inverse, `Ordered` is the order of the heap.

The order during a sift is the one of a heap with a hole: `UpReady` and `DownReady`.
-/

set_option autoImplicit false

namespace Yappod

/-- Indices by places and places by indices. -/
structure PositionHeap where
  heap : Nat → Nat
  positions : Nat → Nat

namespace PositionHeap

/-- Exchange what stands at two places. -/
def swap (h : PositionHeap) (left right : Nat) : PositionHeap :=
  let heap := Function.update (Function.update h.heap left (h.heap right)) right (h.heap left)
  { heap := heap
    positions := Function.update (Function.update h.positions (heap left) left) (heap right) right }

variable (worse : Nat → Nat → Bool)

/-- Move up what stands at a place, while it is worse than its parent. -/
def siftUp (h : PositionHeap) : Nat → Nat → PositionHeap
  | 0, _ => h
  | fuel + 1, position =>
    if 0 < position then
      let parent := (position - 1) / 2
      if worse (h.heap position) (h.heap parent) then siftUp (h.swap position parent) fuel parent else h
    else h

/-- The worst of a place and its children. -/
def worstChild (h : PositionHeap) (n position : Nat) : Nat :=
  let left := position * 2 + 1
  let right := left + 1
  let worst := if left < n ∧ worse (h.heap left) (h.heap position) = true then left else position
  if right < n ∧ worse (h.heap right) (h.heap worst) = true then right else worst

/-- Move down what stands at a place, while one of its children is worse. -/
def siftDown (n : Nat) (h : PositionHeap) : Nat → Nat → PositionHeap
  | 0, _ => h
  | fuel + 1, position =>
    let worst := h.worstChild worse n position
    if worst = position then h else siftDown n (h.swap position worst) fuel worst

/-! ## Places -/

/-- The heap is a permutation of the indices below `n`, and the positions are its inverse. -/
structure Positioned (h : PositionHeap) (n : Nat) : Prop where
  heap_lt : ∀ i < n, h.heap i < n
  positions_lt : ∀ c < n, h.positions c < n
  positions_heap : ∀ i < n, h.positions (h.heap i) = i
  heap_positions : ∀ c < n, h.heap (h.positions c) = c

variable {h : PositionHeap} {n : Nat}

theorem swap_left {a b : Nat} (hne : a ≠ b) : (h.swap a b).heap a = h.heap b := by
  simp [swap, hne]

theorem swap_right (a b : Nat) : (h.swap a b).heap b = h.heap a := by
  simp [swap]

theorem swap_other {a b i : Nat} (ha : i ≠ a) (hb : i ≠ b) : (h.swap a b).heap i = h.heap i := by
  simp [swap, Function.update_apply, ha, hb]

theorem Positioned.heap_injective (hp : h.Positioned n) {i j : Nat} (hi : i < n) (hj : j < n)
    (heq : h.heap i = h.heap j) : i = j := by
  rw [← hp.positions_heap i hi, ← hp.positions_heap j hj, heq]

theorem Positioned.swap (hp : h.Positioned n) {a b : Nat} (ha : a < n) (hb : b < n) (hne : a ≠ b) :
    (h.swap a b).Positioned n := by
  have hpositions : ∀ c, (h.swap a b).positions c =
      if c = h.heap a then b else if c = h.heap b then a else h.positions c := by
    intro c
    have hl := @swap_left h a b hne
    have hr := @swap_right h a b
    change Function.update (Function.update h.positions ((h.swap a b).heap a) a) ((h.swap a b).heap b) b c = _
    rw [hl, hr, Function.update_apply, Function.update_apply]
  have hdiff : h.heap a ≠ h.heap b := fun heq => hne (hp.heap_injective ha hb heq)
  have hheap : ∀ i, (h.swap a b).heap i = if i = a then h.heap b else if i = b then h.heap a else h.heap i := by
    intro i
    by_cases hia : i = a
    · rw [if_pos hia, hia, swap_left hne]
    · rw [if_neg hia]
      by_cases hib : i = b
      · rw [if_pos hib, hib, swap_right]
      · rw [if_neg hib, swap_other hia hib]
  constructor
  · intro i hi
    rw [hheap]
    split
    · exact hp.heap_lt b hb
    · split
      · exact hp.heap_lt a ha
      · exact hp.heap_lt i hi
  · intro c hc
    rw [hpositions]
    split
    · exact hb
    · split
      · exact ha
      · exact hp.positions_lt c hc
  · intro i hi
    rw [hheap, hpositions]
    by_cases hia : i = a
    · rw [if_pos hia, if_neg hdiff.symm, if_pos rfl, hia]
    · rw [if_neg hia]
      by_cases hib : i = b
      · rw [if_pos hib, if_pos rfl, hib]
      · rw [if_neg hib, if_neg fun heq => hia (hp.heap_injective hi ha heq),
          if_neg fun heq => hib (hp.heap_injective hi hb heq)]
        exact hp.positions_heap i hi
  · intro c hc
    rw [hpositions, hheap]
    by_cases hca : c = h.heap a
    · rw [if_pos hca, if_neg hne.symm, if_pos rfl, hca]
    · rw [if_neg hca]
      by_cases hcb : c = h.heap b
      · rw [if_pos hcb, if_pos rfl, hcb]
      · rw [if_neg hcb, if_neg, if_neg, hp.heap_positions c hc]
        · exact fun heq => hcb (by rw [← heq, hp.heap_positions c hc])
        · exact fun heq => hca (by rw [← heq, hp.heap_positions c hc])

/-! ## Order -/

section Order

variable {κ : Type} [LinearOrder κ] {key : Nat → κ}

/-- No place has a larger key than its parent. -/
def Ordered (h : PositionHeap) (key : Nat → κ) (n : Nat) : Prop :=
  ∀ i < n, 0 < i → key (h.heap i) ≤ key (h.heap ((i - 1) / 2))

/-- The root has the largest key. -/
theorem Ordered.le_root (ho : h.Ordered key n) : ∀ i < n, key (h.heap i) ≤ key (h.heap 0) := by
  intro i
  induction i using Nat.strongRecOn with
  | ind i ih =>
    intro hi
    rcases Nat.eq_zero_or_pos i with rfl | hpos
    · exact le_rfl
    · exact (ho i hi hpos).trans (ih ((i - 1) / 2) (by omega) (by omega))

/-- In order but for a place and its parent. -/
structure UpReady (h : PositionHeap) (key : Nat → κ) (n position : Nat) : Prop where
  others : ∀ i < n, 0 < i → i ≠ position → key (h.heap i) ≤ key (h.heap ((i - 1) / 2))
  children : ∀ i < n, 0 < i → (i - 1) / 2 = position → 0 < position →
    key (h.heap i) ≤ key (h.heap ((position - 1) / 2))

/-- In order but for a place and its children. -/
structure DownReady (h : PositionHeap) (key : Nat → κ) (n position : Nat) : Prop where
  others : ∀ i < n, 0 < i → (i - 1) / 2 ≠ position → key (h.heap i) ≤ key (h.heap ((i - 1) / 2))
  children : ∀ i < n, 0 < i → (i - 1) / 2 = position → 0 < position →
    key (h.heap i) ≤ key (h.heap ((position - 1) / 2))

theorem UpReady.swap {p : Nat} (hu : h.UpReady key n p) (hpos : 0 < p) (hp : p < n)
    (hlt : key (h.heap ((p - 1) / 2)) < key (h.heap p)) :
    (h.swap p ((p - 1) / 2)).UpReady key n ((p - 1) / 2) := by
  have hne : p ≠ (p - 1) / 2 := by omega
  have hup : 0 < (p - 1) / 2 →
      key (h.heap ((p - 1) / 2)) ≤ key (h.heap (((p - 1) / 2 - 1) / 2)) := fun hpar =>
    hu.others ((p - 1) / 2) (by omega) hpar (by omega)
  constructor
  · intro i hi hi0 hiq
    by_cases hip : i = p
    · rw [hip, swap_left hne, swap_right]
      exact hlt.le
    · rw [swap_other hip hiq]
      by_cases hparent : (i - 1) / 2 = p
      · rw [hparent, swap_left hne]
        exact hu.children i hi hi0 hparent hpos
      · by_cases hsibling : (i - 1) / 2 = (p - 1) / 2
        · rw [hsibling, swap_right]
          have := hu.others i hi hi0 hip
          rw [hsibling] at this
          exact this.trans hlt.le
        · rw [swap_other hparent hsibling]
          exact hu.others i hi hi0 hip
  · intro i hi hi0 hparent hpar
    have hgrand : (h.swap p ((p - 1) / 2)).heap (((p - 1) / 2 - 1) / 2) = h.heap (((p - 1) / 2 - 1) / 2) :=
      swap_other (by omega) (by omega)
    rw [hgrand]
    by_cases hip : i = p
    · rw [hip, swap_left hne]
      exact hup hpar
    · rw [swap_other hip (by omega)]
      have := hu.others i hi hi0 hip
      rw [hparent] at this
      exact this.trans (hup hpar)

/-- **Moving up** restores the order. -/
theorem siftUp_spec (hworse : ∀ a b, worse a b = true ↔ key b < key a) (fuel : Nat) {p : Nat} (hfuel : p ≤ fuel)
    (hp : p < n) (hpositioned : h.Positioned n) (hu : h.UpReady key n p) :
    (h.siftUp worse fuel p).Positioned n ∧ (h.siftUp worse fuel p).Ordered key n := by
  induction fuel generalizing h p with
  | zero =>
    refine ⟨hpositioned, fun i hi hi0 => hu.others i hi hi0 (by omega)⟩
  | succ fuel ih =>
    rw [siftUp]
    split
    · rename_i hpos
      dsimp only
      split
      · rename_i hlt
        rw [hworse] at hlt
        exact ih (by omega) (by omega) (hpositioned.swap hp (by omega) (by omega)) (hu.swap hpos hp hlt)
      · rename_i hge
        rw [hworse, not_lt] at hge
        refine ⟨hpositioned, fun i hi hi0 => ?_⟩
        by_cases hip : i = p
        · rw [hip]
          exact hge
        · exact hu.others i hi hi0 hip
    · rename_i hroot
      exact ⟨hpositioned, fun i hi hi0 => hu.others i hi hi0 (by omega)⟩

theorem worstChild_spec (h : PositionHeap) (key : Nat → κ) (hworse : ∀ a b, worse a b = true ↔ key b < key a)
    {p : Nat} (hp : p < n) :
    h.worstChild worse n p < n ∧
      (h.worstChild worse n p = p ∨ 0 < h.worstChild worse n p ∧ (h.worstChild worse n p - 1) / 2 = p) ∧
      (h.worstChild worse n p ≠ p → key (h.heap p) < key (h.heap (h.worstChild worse n p))) ∧
      ∀ i < n, 0 < i → (i - 1) / 2 = p → key (h.heap i) ≤ key (h.heap (h.worstChild worse n p)) := by
  have hchild : ∀ i, 0 < i → (i - 1) / 2 = p → i = p * 2 + 1 ∨ i = p * 2 + 1 + 1 := by
    intro i hi hip
    omega
  -- the first comparison
  obtain ⟨w, hw, hwn, hwp, hle, hlt, hleft⟩ : ∃ w,
      (if p * 2 + 1 < n ∧ worse (h.heap (p * 2 + 1)) (h.heap p) = true then p * 2 + 1 else p) = w ∧ w < n ∧
      (w = p ∨ w = p * 2 + 1) ∧ key (h.heap p) ≤ key (h.heap w) ∧ (w ≠ p → key (h.heap p) < key (h.heap w)) ∧
      (p * 2 + 1 < n → key (h.heap (p * 2 + 1)) ≤ key (h.heap w)) := by
    split
    · rename_i hif
      have hlt := (hworse _ _).mp hif.2
      exact ⟨_, rfl, hif.1, .inr rfl, hlt.le, fun _ => hlt, fun _ => le_rfl⟩
    · rename_i hif
      refine ⟨_, rfl, hp, .inl rfl, le_rfl, fun hne => absurd rfl hne, fun hn => ?_⟩
      rw [not_and, hworse, not_lt] at hif
      exact hif hn
  rw [worstChild, hw]
  split
  · rename_i hif
    have hgt := (hworse _ _).mp hif.2
    refine ⟨hif.1, .inr ⟨by omega, by omega⟩, fun _ => hle.trans_lt hgt, fun i hi hi0 hip => ?_⟩
    rcases hchild i hi0 hip with rfl | rfl
    · exact (hleft hi).trans hgt.le
    · exact le_rfl
  · rename_i hif
    rw [not_and, hworse, not_lt] at hif
    refine ⟨hwn, ?_, hlt, fun i hi hi0 hip => ?_⟩
    · rcases hwp with hwp | hwp
      · exact .inl hwp
      · exact .inr ⟨by omega, by omega⟩
    · rcases hchild i hi0 hip with rfl | rfl
      · exact hleft hi
      · exact hif hi

theorem DownReady.swap {p w : Nat} (hd : h.DownReady key n p) (hw : 0 < w) (hwn : w < n) (hparent : (w - 1) / 2 = p)
    (hlt : key (h.heap p) < key (h.heap w))
    (hworst : ∀ i < n, 0 < i → (i - 1) / 2 = p → key (h.heap i) ≤ key (h.heap w)) :
    (h.swap p w).DownReady key n w := by
  have hne : p ≠ w := by omega
  constructor
  · intro i hi hi0 hiw
    by_cases hip : i = p
    · -- the place itself, now with its worst child
      subst hip
      rw [swap_left hne, swap_other (by omega) (by omega)]
      exact hd.children w hwn hw hparent hi0
    · by_cases hi' : (i - 1) / 2 = p
      · rw [hi', swap_left hne]
        by_cases hiw' : i = w
        · rw [hiw', swap_right]
          exact hlt.le
        · rw [swap_other hip hiw']
          exact hworst i hi hi0 hi'
      · rw [swap_other hip (by omega), swap_other hi' hiw]
        exact hd.others i hi hi0 hi'
  · intro i hi hi0 hiw _
    rw [hparent, swap_left hne, swap_other (by omega) (by omega), ← hiw]
    exact hd.others i hi hi0 (by omega)

/-- A smaller key at a place. -/
theorem Ordered.downReady (ho : h.Ordered key n) (hpositioned : h.Positioned n) {p : Nat} (hp : p < n) {key' : Nat → κ}
    (hother : ∀ c, c ≠ h.heap p → key' c = key c) (hle : key' (h.heap p) ≤ key (h.heap p)) :
    h.DownReady key' n p := by
  have hsame : ∀ i < n, i ≠ p → key' (h.heap i) = key (h.heap i) := fun i hi hne =>
    hother _ fun heq => hne (hpositioned.heap_injective hi hp heq)
  have hkey : ∀ i < n, key' (h.heap i) ≤ key (h.heap i) := by
    intro i hi
    by_cases hip : i = p
    · rw [hip]
      exact hle
    · exact (hsame i hi hip).le
  constructor
  · intro i hi hi0 hparent
    rw [hsame ((i - 1) / 2) (by omega) hparent]
    exact (hkey i hi).trans (ho i hi hi0)
  · intro i hi hi0 hparent hpos
    rw [hsame ((p - 1) / 2) (by omega) (by omega)]
    have hip := ho i hi hi0
    rw [hparent] at hip
    exact (hkey i hi).trans (hip.trans (ho p hp hpos))

/-- A new index at the end. -/
def push (h : PositionHeap) (n : Nat) : PositionHeap :=
  ⟨Function.update h.heap n n, Function.update h.positions n n⟩

theorem push_heap {i : Nat} (hi : i < n) : (h.push n).heap i = h.heap i := Function.update_of_ne (by omega) _ _

theorem Positioned.push (hp : h.Positioned n) : (h.push n).Positioned (n + 1) := by
  have hpositions : ∀ c < n, (h.push n).positions c = h.positions c := fun c hc => Function.update_of_ne (by omega) _ _
  have hlast : (h.push n).heap n = n := Function.update_self _ _ _
  have hlast' : (h.push n).positions n = n := Function.update_self _ _ _
  have hcases : ∀ i < n + 1, i < n ∨ i = n := fun i hi => by omega
  refine ⟨fun i hi => ?_, fun c hc => ?_, fun i hi => ?_, fun c hc => ?_⟩
  · rcases hcases i hi with hi | rfl
    · rw [push_heap hi]
      exact Nat.lt_succ_of_lt (hp.heap_lt i hi)
    · rw [hlast]
      exact Nat.lt_succ_self i
  · rcases hcases c hc with hc | rfl
    · rw [hpositions c hc]
      exact Nat.lt_succ_of_lt (hp.positions_lt c hc)
    · rw [hlast']
      exact Nat.lt_succ_self c
  · rcases hcases i hi with hi | rfl
    · rw [push_heap hi, hpositions _ (hp.heap_lt i hi)]
      exact hp.positions_heap i hi
    · rw [hlast, hlast']
  · rcases hcases c hc with hc | rfl
    · rw [hpositions c hc, push_heap (hp.positions_lt c hc)]
      exact hp.heap_positions c hc
    · rw [hlast', hlast]

theorem Ordered.upReady_push (ho : h.Ordered key n) (hpositioned : h.Positioned n) {key' : Nat → κ}
    (hother : ∀ c < n, key' c = key c) : (h.push n).UpReady key' (n + 1) n := by
  have hheap : ∀ i < n, key' ((h.push n).heap i) = key (h.heap i) := by
    intro i hi
    rw [push_heap hi]
    exact hother _ (hpositioned.heap_lt i hi)
  constructor
  · intro i hi hi0 hne
    rw [hheap i (by omega), hheap ((i - 1) / 2) (by omega)]
    exact ho i (by omega) hi0
  · intro i hi hi0 hparent hpos
    omega

/-- **Moving down** restores the order. -/
theorem siftDown_spec (hworse : ∀ a b, worse a b = true ↔ key b < key a) (fuel : Nat) {p : Nat} (hfuel : n ≤ p + fuel)
    (hp : p < n) (hpositioned : h.Positioned n) (hd : h.DownReady key n p) :
    (h.siftDown worse n fuel p).Positioned n ∧ (h.siftDown worse n fuel p).Ordered key n := by
  induction fuel generalizing h p with
  | zero => omega
  | succ fuel ih =>
    obtain ⟨hwn, hwp, hlt, hworst⟩ := h.worstChild_spec worse key hworse hp
    rw [siftDown]
    split
    · rename_i heq
      rw [heq] at hworst
      refine ⟨hpositioned, fun i hi hi0 => ?_⟩
      by_cases hip : (i - 1) / 2 = p
      · rw [hip]
        exact hworst i hi hi0 hip
      · exact hd.others i hi hi0 hip
    · rename_i hne
      obtain ⟨hw0, hwp⟩ := hwp.resolve_left hne
      exact ih (by omega) hwn (hpositioned.swap hp hwn (Ne.symm hne)) (hd.swap hw0 hwn hwp (hlt hne) hworst)

end Order

end PositionHeap

end Yappod

import Mathlib.Algebra.Ring.Nat
import Mathlib.Data.List.SplitBy
import Mathlib.Data.List.Pairwise

/-!
# The runs of a sorted list

A list that is sorted by a key falls into runs of equal keys (`List.splitBy`), one for each key: the run of
a key is what the list has of it.
-/

set_option autoImplicit false

namespace Yappod

variable {α κ : Type} [DecidableEq κ] {key : α → κ} {R : κ → κ → Prop}

/-- The test for a run of equal keys. -/
def sameKey (key : α → κ) (a b : α) : Bool := key a = key b

theorem sameKey_eq_true {a b : α} : sameKey key a b = true ↔ key a = key b := decide_eq_true_iff

/-- A run has one key. -/
theorem key_eq_of_mem_run {l g : List α} (hg : g ∈ l.splitBy (sameKey key)) {a b : α} (ha : a ∈ g)
    (hb : b ∈ g) : key a = key b := by
  have hchain : g.IsChain fun a b => key a = key b :=
    (List.isChain_of_mem_splitBy hg).imp fun _ _ h => sameKey_eq_true.mp h
  have : Trans (fun a b : α => key a = key b) (fun a b : α => key a = key b)
      (fun a b : α => key a = key b) := ⟨fun h h' => h.trans h'⟩
  have : Std.Symm fun a b : α => key a = key b := ⟨fun _ _ h => h.symm⟩
  have hpair : g.Pairwise fun a b => key a = key b := List.isChain_iff_pairwise.mp hchain
  exact List.Pairwise.forall_of_forall (R := fun a b => key a = key b) (fun _ _ => rfl) hpair ha hb

omit [DecidableEq κ] in
/-- Groups of one key each, whose keys are sorted and whose neighbours differ, differ all. -/
theorem pairwise_of_neighbours (hanti : ∀ x y, R x y → R y x → x = y) {gs : List (List α)}
    (hone : ∀ g ∈ gs, ∀ a ∈ g, ∀ b ∈ g, key a = key b)
    (hnext : gs.IsChain fun g g' => ∃ a ∈ g, ∃ b ∈ g', key a ≠ key b)
    (hsorted : gs.Pairwise fun g g' => ∀ a ∈ g, ∀ b ∈ g', R (key a) (key b)) :
    gs.Pairwise fun g g' => ∀ a ∈ g, ∀ b ∈ g', key a ≠ key b := by
  induction gs with
  | nil => exact List.Pairwise.nil
  | cons g gs ih =>
    rw [List.pairwise_cons] at hsorted
    refine List.pairwise_cons.mpr ⟨fun g' hg' a ha b hb hab => ?_, ?_⟩
    · cases gs with
      | nil => cases hg'
      | cons g₁ gs =>
        obtain ⟨⟨a₀, ha₀, c₀, hc₀, hne₀⟩, -⟩ := List.isChain_cons_cons.mp hnext
        have hg₁ : g₁ ∈ g :: g₁ :: gs := List.mem_cons_of_mem _ List.mem_cons_self
        refine hne₀ ?_
        rw [hone g List.mem_cons_self a₀ ha₀ a ha]
        rcases List.mem_cons.mp hg' with rfl | hg'
        · rw [hab]
          exact hone _ hg₁ b hb c₀ hc₀
        · -- the neighbour's key lies between the two equal ones
          refine hanti _ _ (hsorted.1 g₁ List.mem_cons_self a ha c₀ hc₀) ?_
          rw [hab]
          exact (List.pairwise_cons.mp hsorted.2).1 g' hg' c₀ hc₀ b hb
    · refine ih (fun x hx => hone x (List.mem_cons_of_mem _ hx)) ?_ hsorted.2
      exact hnext.tail

/-- The keys of the runs of a sorted list are sorted, and different. -/
theorem pairwise_runs (hanti : ∀ x y, R x y → R y x → x = y) {l : List α}
    (hl : l.Pairwise fun a b => R (key a) (key b)) :
    (l.splitBy (sameKey key)).Pairwise fun g g' => ∀ a ∈ g, ∀ b ∈ g',
      R (key a) (key b) ∧ key a ≠ key b := by
  have hsorted : (l.splitBy (sameKey key)).Pairwise fun g g' => ∀ a ∈ g, ∀ b ∈ g',
      R (key a) (key b) := by
    rw [← List.flatten_splitBy (sameKey key) l] at hl
    exact (List.pairwise_flatten.mp hl).2
  have hnext : (l.splitBy (sameKey key)).IsChain fun g g' => ∃ a ∈ g, ∃ b ∈ g', key a ≠ key b := by
    refine (List.isChain_getLast_head_splitBy (sameKey key) l).imp fun g g' ⟨ha, hb, h⟩ => ?_
    refine ⟨g.getLast ha, List.getLast_mem ha, g'.head hb, List.head_mem hb, ?_⟩
    exact decide_eq_false_iff_not.mp h
  have hne := pairwise_of_neighbours hanti (fun _ hg _ ha _ hb => key_eq_of_mem_run hg ha hb) hnext hsorted
  exact (hsorted.and hne).imp fun h a ha b hb => ⟨h.1 a ha b hb, h.2 a ha b hb⟩

/-- Among groups of different keys, a group is all there is of its key. -/
theorem filter_flatten_eq {gs : List (List α)}
    (hone : ∀ g ∈ gs, ∀ a ∈ g, ∀ b ∈ g, key a = key b)
    (hne : gs.Pairwise fun g g' => ∀ a ∈ g, ∀ b ∈ g', key a ≠ key b) {g : List α} (hg : g ∈ gs)
    {a : α} (ha : a ∈ g) : gs.flatten.filter (fun b => key b = key a) = g := by
  induction gs with
  | nil => cases hg
  | cons g₀ gs ih =>
    rw [List.pairwise_cons] at hne
    rw [List.flatten_cons, List.filter_append]
    rcases List.mem_cons.mp hg with rfl | hg
    · have hall : g.filter (fun b => key b = key a) = g :=
        List.filter_eq_self.mpr fun b hb => decide_eq_true (hone g List.mem_cons_self b hb a ha)
      have hnone : gs.flatten.filter (fun b => key b = key a) = [] := by
        refine List.filter_eq_nil_iff.mpr fun b hb h => ?_
        obtain ⟨g', hg', hb'⟩ := List.mem_flatten.mp hb
        exact hne.1 g' hg' a ha b hb' (of_decide_eq_true h).symm
      rw [hall, hnone, List.append_nil]
    · have hnone : g₀.filter (fun b => key b = key a) = [] := by
        refine List.filter_eq_nil_iff.mpr fun b hb h => ?_
        exact hne.1 g hg b hb a ha (of_decide_eq_true h)
      rw [hnone, List.nil_append]
      exact ih (fun x hx => hone x (List.mem_cons_of_mem _ hx)) hne.2 hg

/-- The run of a key is what the sorted list has of it. -/
theorem run_eq_filter (hanti : ∀ x y, R x y → R y x → x = y) {l : List α}
    (hl : l.Pairwise fun a b => R (key a) (key b)) {g : List α}
    (hg : g ∈ l.splitBy (sameKey key)) {a : α} (ha : a ∈ g) :
    g = l.filter fun b => key b = key a := by
  have hne := (pairwise_runs hanti hl).imp fun h a ha b hb => (h a ha b hb).2
  have h := filter_flatten_eq (fun _ hg _ ha _ hb => key_eq_of_mem_run hg ha hb) hne hg ha
  rw [List.flatten_splitBy] at h
  exact h.symm

/-- Every element is in the run of its key. -/
theorem exists_run {l : List α} {a : α} (ha : a ∈ l) : ∃ g ∈ l.splitBy (sameKey key), a ∈ g := by
  rw [← List.flatten_splitBy (sameKey key) l] at ha
  exact List.mem_flatten.mp ha

end Yappod

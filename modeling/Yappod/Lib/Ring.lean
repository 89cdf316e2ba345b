import Mathlib.Algebra.Ring.Nat
import Mathlib.Data.List.Basic

/-!
# Ring buffers

A ring of cells with the place of its oldest entry and the number of its entries.  `ringContents` are the entries, the
oldest first.  An entry more goes into the cell behind the youngest (`ringContents_push`), and the oldest is taken
out by moving on by one cell (`ringContents_pop`).

`exists_split_set` is for systems whose parties are the cells of a list: a step of one party changes one cell.
-/

set_option autoImplicit false

namespace Yappod

section Ring

variable {α : Type} [Inhabited α]

/-- The entries of a ring, the oldest first. -/
def ringContents (cells : List α) (head count : Nat) : List α :=
  (List.range count).map fun k => cells.getD ((head + k) % cells.length) default

@[simp] theorem length_ringContents (cells : List α) (head count : Nat) :
    (ringContents cells head count).length = count := by
  rw [ringContents, List.length_map, List.length_range]

theorem ringContents_zero (cells : List α) (head : Nat) : ringContents cells head 0 = [] := rfl

/-- Two places of a ring that are less than a round apart are different cells. -/
theorem ring_index_ne {n head j k : Nat} (hjk : j < k) (hk : k < n) : (head + j) % n ≠ (head + k) % n := by
  intro h
  have hmod : (k - j) % n = 0 := by
    have := Nat.sub_mod_eq_zero_of_mod_eq h.symm
    rwa [show head + k - (head + j) = k - j by omega] at this
  rw [Nat.mod_eq_of_lt (by omega)] at hmod
  omega

theorem ringContents_push {cells : List α} {head count : Nat} (h : count < cells.length) (a : α) :
    ringContents (cells.set ((head + count) % cells.length) a) head (count + 1) =
      ringContents cells head count ++ [a] := by
  have hlt : (head + count) % cells.length < cells.length := Nat.mod_lt _ (by omega)
  rw [ringContents, ringContents, List.range_succ, List.map_append, List.map_singleton, List.length_set]
  congr 1
  · refine List.map_congr_left fun k hk => ?_
    rw [List.mem_range] at hk
    rw [List.getD_eq_getElem?_getD, List.getD_eq_getElem?_getD,
      List.getElem?_set_ne (ring_index_ne hk h).symm]
  · rw [List.getD_eq_getElem?_getD, List.getElem?_set_self hlt, Option.getD_some]

theorem ringContents_pop {cells : List α} {head : Nat} (h : head < cells.length) (count : Nat) :
    ringContents cells head (count + 1) =
      cells.getD head default :: ringContents cells ((head + 1) % cells.length) count := by
  rw [ringContents, ringContents, List.range_succ_eq_map, List.map_cons, List.map_map, Nat.add_zero,
    Nat.mod_eq_of_lt h]
  congr 1
  refine List.map_congr_left fun k _ => ?_
  rw [Function.comp_apply, Nat.mod_add_mod, Nat.succ_eq_add_one, Nat.add_assoc, Nat.add_comm 1 k]

end Ring

/-- A list around one of its cells. -/
theorem exists_split_set {α : Type} {l : List α} {i : Nat} {a : α} (h : l[i]? = some a) :
    ∃ before after, l = before ++ a :: after ∧ ∀ b, l.set i b = before ++ b :: after := by
  induction l generalizing i with
  | nil => cases h
  | cons x l ih =>
    cases i with
    | zero =>
      cases h
      exact ⟨[], l, rfl, fun _ => rfl⟩
    | succ i =>
      obtain ⟨before, after, hl, hset⟩ := ih h
      refine ⟨x :: before, after, ?_, fun b => ?_⟩
      · rw [hl, List.cons_append]
      · rw [List.set_cons_succ, hset, List.cons_append]

end Yappod

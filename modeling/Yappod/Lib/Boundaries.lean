import Mathlib.Algebra.Ring.Nat
import Mathlib.Data.List.Pairwise
import Mathlib.Data.List.TakeDrop

/-!
# Lists of boundaries

What a break iterator knows about a text: the places where it may be cut, from its start to its end.  The iterator is
asked for the next boundary after a place, or the one before it (`Boundaries.following`, `Boundaries.preceding`); on
boundaries this is the step to the next or the last index (`following_point`, `preceding_point`).
-/

set_option autoImplicit false

namespace Yappod

/-- Boundaries in a text of a length. -/
structure Boundaries (length : Nat) where
  points : List Nat
  sorted : points.Pairwise (· < ·)
  first : points[0]? = some 0
  last : points[points.length - 1]? = some length

namespace Boundaries

variable {length : Nat} (b : Boundaries length)

/-- The number of parts between boundaries. -/
def total : Nat := b.points.length - 1

/-- The first boundary after a place. -/
def following (x : Nat) : Option Nat := b.points.find? (x < ·)

/-- The last boundary before a place. -/
def preceding (x : Nat) : Option Nat := b.points.reverse.find? (· < x)

/-- Is this place a boundary? -/
def isBoundary (x : Nat) : Bool := b.points.contains x

variable {b}

theorem length_points : b.points.length = b.total + 1 := by
  have hpos : 0 < b.points.length := List.getElem?_eq_some_iff.mp b.first |>.1
  rw [total]
  omega

/-- Later boundaries are larger. -/
theorem point_lt {i j x y : Nat} (hij : i < j) (hx : b.points[i]? = some x) (hy : b.points[j]? = some y) : x < y := by
  obtain ⟨hi, rfl⟩ := List.getElem?_eq_some_iff.mp hx
  obtain ⟨hj, rfl⟩ := List.getElem?_eq_some_iff.mp hy
  exact List.pairwise_iff_getElem.mp b.sorted i j hi hj hij

theorem point_le {i j x y : Nat} (hij : i ≤ j) (hx : b.points[i]? = some x) (hy : b.points[j]? = some y) : x ≤ y := by
  rcases Nat.eq_or_lt_of_le hij with rfl | hlt
  · exact Nat.le_of_eq (Option.some.inj (hx.symm.trans hy))
  · exact Nat.le_of_lt (point_lt hlt hx hy)

theorem index_lt {i j x y : Nat} (hx : b.points[i]? = some x) (hy : b.points[j]? = some y) (h : x < y) : i < j := by
  by_contra hij
  exact absurd (point_le (Nat.not_lt.mp hij) hy hx) (Nat.not_le.mpr h)

/-- One boundary has one index. -/
theorem index_unique {i j x : Nat} (hi : b.points[i]? = some x) (hj : b.points[j]? = some x) : i = j := by
  rcases Nat.lt_trichotomy i j with h | h | h
  · exact absurd (point_lt h hi hj) (Nat.lt_irrefl x)
  · exact h
  · exact absurd (point_lt h hj hi) (Nat.lt_irrefl x)

theorem index_le_total {i x : Nat} (h : b.points[i]? = some x) : i ≤ b.total := by
  have hlt := (List.getElem?_eq_some_iff.mp h).1
  rw [length_points] at hlt
  omega

theorem exists_point {i : Nat} (h : i ≤ b.total) : ∃ x, b.points[i]? = some x := by
  have hlt : i < b.points.length := by
    rw [length_points]
    omega
  exact ⟨_, List.getElem?_eq_getElem hlt⟩

theorem point_total : b.points[b.total]? = some length := b.last

theorem isBoundary_iff {x : Nat} : b.isBoundary x = true ↔ ∃ i : Nat, b.points[i]? = some x := by
  rw [isBoundary, List.contains_iff_mem, List.mem_iff_getElem?]

/-- The step forward. -/
theorem following_point {i x : Nat} (h : b.points[i]? = some x) : b.following x = b.points[i + 1]? := by
  have hsplit : b.points = b.points.take (i + 1) ++ b.points.drop (i + 1) := (List.take_append_drop _ _).symm
  have hbefore : (b.points.take (i + 1)).find? (x < ·) = none := by
    rw [List.find?_eq_none]
    intro y hy
    obtain ⟨j, hj, hget⟩ := List.mem_take_iff_getElem.mp hy
    have hle : y ≤ x := point_le (b := b) (i := j) (by omega) (List.getElem?_eq_some_iff.mpr ⟨by omega, hget⟩) h
    simp only [decide_eq_true_eq, Nat.not_lt]
    exact hle
  rw [following, hsplit, List.find?_append, hbefore, Option.none_or, ← hsplit]
  cases hnext : b.points[i + 1]? with
  | none =>
    rw [List.drop_eq_nil_of_le (List.getElem?_eq_none_iff.mp hnext), List.find?_nil]
  | some y =>
    obtain ⟨hlt, rfl⟩ := List.getElem?_eq_some_iff.mp hnext
    rw [List.drop_eq_getElem_cons hlt, List.find?_cons_of_pos]
    simpa using point_lt (Nat.lt_succ_self i) h hnext

/-- The step back. -/
theorem preceding_point {i x : Nat} (h : b.points[i + 1]? = some x) : b.preceding x = b.points[i]? := by
  obtain ⟨hlt, -⟩ := List.getElem?_eq_some_iff.mp h
  have hi : i < b.points.length := by omega
  have hsplit : b.points = b.points.take i ++ b.points[i] :: b.points.drop (i + 1) := by
    rw [← List.drop_eq_getElem_cons hi, List.take_append_drop]
  have hafter : (b.points.drop (i + 1)).reverse.find? (· < x) = none := by
    rw [List.find?_eq_none]
    intro y hy
    obtain ⟨j, hj⟩ := List.mem_iff_getElem?.mp (List.mem_reverse.mp hy)
    rw [List.getElem?_drop] at hj
    have hle : x ≤ y := point_le (b := b) (Nat.le_add_right (i + 1) j) h hj
    simp only [decide_eq_true_eq, Nat.not_lt]
    exact hle
  have hpoint : b.points[i] < x := point_lt (Nat.lt_succ_self i) (List.getElem?_eq_getElem hi) h
  rw [preceding, hsplit, List.reverse_append, List.reverse_cons, List.append_assoc, List.find?_append, hafter,
    Option.none_or, List.singleton_append, List.find?_cons_of_pos (by simpa using hpoint), ← hsplit,
    List.getElem?_eq_getElem hi]

end Boundaries
end Yappod

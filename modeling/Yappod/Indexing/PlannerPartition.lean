import Mathlib.Data.List.TakeDrop
import Yappod.Indexing.Planner

/-!
# A plan is a partition

The slices of a plan are consecutive ranges that cover all units (`segmentPlan_covers`), and cutting
a slice in two keeps it so (`bisect_covers`).  Hence the units of the slices, one slice after the
other, are the units that were planned (`flatten_units`).
-/

set_option autoImplicit false

namespace Yappod

/-- The slices are consecutive ranges from `a` to `b`. -/
def Covers : List Slice → Nat → Nat → Prop
  | [], a, b => a = b
  | s :: slices, a, b => s.first = a ∧ Covers slices (a + s.count) b

theorem covers_append {xs ys : List Slice} {a b : Nat} :
    Covers (xs ++ ys) a b ↔ ∃ m, Covers xs a m ∧ Covers ys m b := by
  induction xs generalizing a with
  | nil => simp [Covers]
  | cons x xs ih => simp [Covers, ih, and_assoc]

theorem Covers.le {xs : List Slice} {a b : Nat} (h : Covers xs a b) : a ≤ b := by
  induction xs generalizing a with
  | nil => exact Nat.le_of_eq h
  | cons x xs ih => exact Nat.le_trans (Nat.le_add_right _ _) (ih h.2)

/-- **The units of consecutive slices, one after the other, are the units of the whole range.** -/
theorem flatten_units_range {xs : List Slice} {a b : Nat} (us : List SegmentUnit)
    (h : Covers xs a b) : (xs.map (·.units us)).flatten = (us.drop a).take (b - a) := by
  induction xs generalizing a with
  | nil =>
    rw [Covers] at h
    simp [h]
  | cons x xs ih =>
    obtain ⟨rfl, h⟩ := h
    have hle := h.le
    rw [List.map_cons, List.flatten_cons, ih h, Slice.units, ← List.drop_drop, ← List.take_add]
    congr 1
    omega

theorem flatten_units {xs : List Slice} {us : List SegmentUnit} (h : Covers xs 0 us.length) :
    (xs.map (·.units us)).flatten = us := by
  simpa using flatten_units_range us h

/-! ## The planner -/

section Plan

variable {env : Env} {cfg : Config} {segmentIdBytes : Nat} {policy : SizePolicy}

/-- The loop leaves finished slices up to the place where the open one starts. -/
theorem planLoop_covers {rest : List (SegmentUnit × UnitSize)} {i first : Nat} {s : Sizer}
    {slices : List Slice} {out : List Slice × Nat × Sizer}
    (hc : Covers slices 0 first) (hi : first ≤ i)
    (h : planLoop cfg segmentIdBytes policy rest i first s slices = .ok out) :
    Covers out.1 0 out.2.1 ∧ out.2.1 ≤ i + rest.length := by
  induction rest generalizing i first s slices with
  | nil =>
    rw [planLoop, Except.ok.injEq] at h
    subst h
    exact ⟨hc, hi⟩
  | cons x rest ih =>
    obtain ⟨unit, u⟩ := x
    have step : ∀ {first' s' slices'}, Covers slices' 0 first' → first' ≤ i + 1 →
        planLoop cfg segmentIdBytes policy rest (i + 1) first' s' slices' = .ok out →
        Covers out.1 0 out.2.1 ∧ out.2.1 ≤ i + (rest.length + 1) := by
      intro first' s' slices' hc' hi' h'
      obtain ⟨h₁, h₂⟩ := ih hc' hi' h'
      exact ⟨h₁, by omega⟩
    rw [planLoop] at h
    split at h
    · exact step hc (by omega) h
    · split at h
      · split at h
        · cases h
        · simp only at h
          split at h
          · refine step (covers_append.mpr ⟨first, hc, ?_⟩) (by omega) h
            exact ⟨rfl, Nat.add_sub_cancel' hi⟩
          · cases h
      · split at h
        · exact step hc (by omega) h
        · cases h

/-- Joining the last two slices keeps what they cover. -/
theorem mergeSmallTail_covers {sized : List (SegmentUnit × UnitSize)} {slices : List Slice}
    {b : Nat} (h : Covers slices 0 b) :
    Covers (mergeSmallTail cfg sized segmentIdBytes policy slices) 0 b := by
  unfold mergeSmallTail
  split
  · rename_i tail previous earlier hrev
    split
    · exact h
    · split
      · exact h
      · have hslices : slices = earlier.reverse ++ [previous, tail] := by
          simpa using congrArg List.reverse hrev
        rw [hslices, covers_append] at h
        obtain ⟨m, h₁, h₂⟩ := h
        refine covers_append.mpr ⟨m, h₁, ?_⟩
        obtain ⟨rfl, -, h₃⟩ := h₂
        refine ⟨rfl, ?_⟩
        rw [← Nat.add_assoc]
        exact h₃
  · exact h

/-- What it takes for a plan to succeed, and the plan. -/
theorem segmentPlan_eq_ok {units : List SegmentUnit} {slices : List Slice} :
    segmentPlan env cfg units segmentIdBytes policy = .ok slices ↔
      (segmentIdBytes ≠ 0 ∧ policy.target ≠ 0 ∧ policy.target ≤ policy.softMax ∧
        policy.softMax ≤ policy.hardMax ∧ policy.hardMax ≤ maxSegmentPayloadBytes) ∧
      ∃ sizes closed first s, units.mapM (prepareUnit env cfg) = .ok sizes ∧
        planLoop cfg segmentIdBytes policy (units.zip sizes) 0 0 {} [] = .ok (closed, first, s) ∧
        closed.length < maxSegments ∧
        slices = mergeSmallTail cfg (units.zip sizes) segmentIdBytes policy (closed ++
          [⟨first, units.length - first, componentSizes cfg s segmentIdBytes⟩]) := by
  unfold segmentPlan
  split
  · rename_i hbad
    refine iff_of_false (by simp) ?_
    rintro ⟨⟨h₁, h₂, h₃, h₄, h₅⟩, -⟩
    omega
  · rename_i hgood
    rw [and_iff_right (by omega)]
    cases hm : units.mapM (prepareUnit env cfg) with
    | error e => simp [Bind.bind, Except.bind]
    | ok sizes =>
      cases hl : planLoop cfg segmentIdBytes policy (units.zip sizes) 0 0 {} [] with
      | error e => simp [Bind.bind, Except.bind, hl]
      | ok out =>
        obtain ⟨closed, first, s⟩ := out
        simp only [Bind.bind, Except.bind, hl, Except.ok.injEq]
        split
        · rename_i hmax
          refine iff_of_false (by simp) ?_
          rintro ⟨_, _, _, _, rfl, h, hlt, -⟩
          simp only [hl, Except.ok.injEq, Prod.mk.injEq] at h
          obtain ⟨rfl, -⟩ := h
          omega
        · rename_i hmax
          constructor
          · rintro ⟨rfl⟩
            exact ⟨sizes, closed, first, s, rfl, hl, by omega, rfl⟩
          · rintro ⟨_, _, _, _, rfl, h, -, rfl⟩
            simp only [hl, Except.ok.injEq, Prod.mk.injEq] at h
            obtain ⟨rfl, rfl, rfl⟩ := h
            rfl

/-- **The slices of a plan cover the units.** -/
theorem segmentPlan_covers {units : List SegmentUnit} {slices : List Slice}
    (h : segmentPlan env cfg units segmentIdBytes policy = .ok slices) :
    Covers slices 0 units.length := by
  obtain ⟨-, sizes, closed, first, s, -, hl, -, rfl⟩ := segmentPlan_eq_ok.mp h
  obtain ⟨hc, hle⟩ := planLoop_covers (show Covers [] 0 0 from rfl) (Nat.le_refl 0) hl
  have hfirst : first ≤ units.length := by
    rw [Nat.zero_add, List.length_zip] at hle
    exact Nat.le_trans hle (Nat.min_le_left _ _)
  exact mergeSmallTail_covers
    (covers_append.mpr ⟨first, hc, rfl, Nat.add_sub_cancel' hfirst⟩)

/-- **Cutting a slice in two keeps what is covered.** -/
theorem bisect_covers {slices slices' : List Slice} {i a b : Nat} (hc : Covers slices a b)
    (h : bisect slices i = .ok slices') : Covers slices' a b := by
  unfold bisect at h
  split at h
  · cases h
  · rename_i s hs
    split at h
    · cases h
    · split at h
      · cases h
      · cases h
        obtain ⟨hi, hget⟩ := List.getElem?_eq_some_iff.mp hs
        have hsplit : slices = slices.take i ++ s :: slices.drop (i + 1) := by
          rw [← hget, List.cons_getElem_drop_succ, List.take_append_drop]
        rw [hsplit, covers_append] at hc
        obtain ⟨m, h₁, rfl, h₂⟩ := hc
        rw [List.append_assoc]
        refine covers_append.mpr ⟨s.first, h₁, ?_⟩
        have : s.first + s.count / 2 + (s.count - s.count / 2) = s.first + s.count := by omega
        exact ⟨rfl, rfl, by rw [this]; exact h₂⟩

end Plan

end Yappod

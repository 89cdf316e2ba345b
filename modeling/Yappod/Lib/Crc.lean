import Mathlib.Algebra.Polynomial.Div
import Mathlib.Algebra.Polynomial.RingDivision
import Mathlib.Algebra.Field.ZMod
import Mathlib.Algebra.CharP.Two
import Mathlib.Logic.Function.Iterate

/-!
# Reflected CRCs

A CRC is the remainder of a polynomial over the field with two elements.  It is computed in a register that is
shifted once for each bit of the message; in the reflected form the lowest bit of the register is the coefficient
of the highest power, and the register is shifted to the right.

* `crc` — the remainder, complemented, of a message behind a register of ones.
* `crc_eq_foldl` — a register that takes in the bits one at a time computes it.
* `iterate_crcShift_xor`, `iterate_crcShift_low` — several bits can be taken in at once.
-/

set_option autoImplicit false

open Polynomial

namespace Yappod

namespace Crc

variable {w : Nat}

/-! ## Registers and polynomials -/

/-- The polynomial of a register. -/
noncomputable def regPoly (r : BitVec w) : (ZMod 2)[X] :=
  ∑ k ∈ Finset.range w, if r.getMsbD k then X ^ k else 0

theorem coeff_regPoly (r : BitVec w) (k : Nat) : (regPoly r).coeff k = if r.getMsbD k then 1 else 0 := by
  have hterm : ∀ i, (if r.getMsbD i then X ^ i else (0 : (ZMod 2)[X])).coeff k =
      if i = k then if r.getMsbD k then 1 else 0 else 0 := by
    intro i
    by_cases hi : i = k
    · subst hi
      split <;> simp
    · split <;> simp [coeff_X_pow, Ne.symm hi]
  rw [regPoly, finsetSum_coeff, Finset.sum_congr rfl fun i _ => hterm i, Finset.sum_ite_eq']
  split
  · rfl
  · rename_i hk
    rw [Finset.mem_range, Nat.not_lt] at hk
    rw [BitVec.getMsbD_of_ge r k hk]
    rfl

theorem regPoly_injective : Function.Injective (regPoly (w := w)) := by
  intro a b hab
  refine BitVec.eq_of_getMsbD_eq fun k _ => ?_
  have hk : (regPoly a).coeff k = (regPoly b).coeff k := by rw [hab]
  rw [coeff_regPoly, coeff_regPoly] at hk
  cases ha : a.getMsbD k <;> cases hb : b.getMsbD k <;> simp_all

/-- The register of a polynomial of a low degree. -/
noncomputable def polyReg (w : Nat) : (ZMod 2)[X] → BitVec w := Function.invFun regPoly

theorem polyReg_regPoly (r : BitVec w) : polyReg w (regPoly r) = r :=
  Function.leftInverse_invFun regPoly_injective r

theorem degree_regPoly_lt (r : BitVec w) : (regPoly r).degree < w := by
  rw [degree_lt_iff_coeff_zero]
  intro k hk
  rw [coeff_regPoly, BitVec.getMsbD_of_ge r k hk]
  rfl

theorem regPoly_zero : regPoly (0#w) = 0 := by
  ext k
  simp [coeff_regPoly]

theorem regPoly_xor (a b : BitVec w) : regPoly (a ^^^ b) = regPoly a + regPoly b := by
  ext k
  rw [coeff_add, coeff_regPoly, coeff_regPoly, coeff_regPoly, BitVec.getMsbD_xor]
  cases a.getMsbD k <;> cases b.getMsbD k <;> decide

/-- The polynomial by which is divided. -/
noncomputable def generator (g : BitVec w) : (ZMod 2)[X] := X ^ w + regPoly g

theorem monic_generator (g : BitVec w) : (generator g).Monic := monic_X_pow_add (degree_regPoly_lt g)

theorem degree_generator (g : BitVec w) : (generator g).degree = w := by
  rw [generator, degree_add_eq_left_of_degree_lt, degree_X_pow]
  rw [degree_X_pow]
  exact degree_regPoly_lt g

/-- What is left of a division does not change when a multiple is added. -/
theorem modByMonic_eq_regPoly {g r : BitVec w} {p q : (ZMod 2)[X]} (h : p = regPoly r + generator g * q) :
    p %ₘ generator g = regPoly r := by
  rw [h, add_modByMonic, self_mul_modByMonic (monic_generator g), add_zero,
    (modByMonic_eq_self_iff (monic_generator g)).mpr]
  rw [degree_generator]
  exact degree_regPoly_lt r

/-! ## Shifting -/

/-- A shift of the register, and the polynomial if a bit falls out. -/
def crcShift (g r : BitVec w) : BitVec w := if r.getLsbD 0 then (r >>> 1) ^^^ g else r >>> 1

/-- A bit of the message goes into the lowest bit, and the register is shifted. -/
def crcBit (g r : BitVec w) (b : Bool) : BitVec w := crcShift g (r ^^^ (BitVec.ofBool b).setWidth w)

theorem regPoly_ofBool (hw : 0 < w) (b : Bool) :
    regPoly ((BitVec.ofBool b).setWidth w) = if b then X ^ (w - 1) else 0 := by
  ext k
  rw [coeff_regPoly]
  cases b with
  | false => simp
  | true =>
    have hbit : ((BitVec.ofBool true).setWidth w).getMsbD k = decide (k = w - 1) := by
      rw [BitVec.getMsbD, BitVec.getLsbD_setWidth, BitVec.getLsbD_ofBool]
      by_cases hk : k < w
      · simp only [hk, decide_true, Bool.true_and, Bool.and_true]
        rw [decide_eq_true (by omega : w - 1 - k < w), Bool.true_and]
        exact decide_eq_decide.mpr (by omega)
      · rw [decide_eq_false hk, Bool.false_and]
        exact (decide_eq_false (by omega)).symm
    rw [hbit, if_pos rfl, coeff_X_pow]
    by_cases hk : k = w - 1 <;> simp [hk]

theorem X_mul_regPoly (hw : 0 < w) (r : BitVec w) :
    X * regPoly r = regPoly (r >>> 1) + if r.getLsbD 0 then X ^ w else 0 := by
  have hlast : r.getMsbD (w - 1) = r.getLsbD 0 := by
    rw [BitVec.getMsbD, decide_eq_true (by omega : w - 1 < w), Bool.true_and, Nat.sub_self]
  have hfallen : ∀ k, (if r.getLsbD 0 then X ^ w else (0 : (ZMod 2)[X])).coeff k =
      if r.getLsbD 0 ∧ k = w then 1 else 0 := by
    intro k
    cases r.getLsbD 0 <;> simp [coeff_X_pow]
  ext k
  rw [coeff_add, coeff_regPoly, BitVec.getMsbD_ushiftRight, hfallen]
  cases k with
  | zero => simp [Nat.ne_of_lt hw]
  | succ k =>
    rw [coeff_X_mul, coeff_regPoly, Nat.add_sub_cancel]
    rcases Nat.lt_trichotomy (k + 1) w with hlt | heq | hgt
    · simp [hlt, Nat.ne_of_lt hlt]
    · subst heq
      rw [Nat.add_sub_cancel] at hlast
      simp [hlast]
    · rw [BitVec.getMsbD_of_ge r k (by omega)]
      simp [Nat.ne_of_gt hgt]

/-- **A shift multiplies by `X`**, up to a multiple of the polynomial. -/
theorem X_mul_regPoly_crcShift (hw : 0 < w) (g r : BitVec w) :
    X * regPoly r = regPoly (crcShift g r) + generator g * if r.getLsbD 0 then 1 else 0 := by
  rw [X_mul_regPoly hw, crcShift]
  split
  · rw [regPoly_xor, mul_one, generator, add_comm (X ^ w), ← add_assoc, add_assoc (regPoly (r >>> 1)),
      CharTwo.add_self_eq_zero, add_zero]
  · rw [mul_zero]

theorem X_mul_regPoly_crcBit (hw : 0 < w) (g r : BitVec w) (b : Bool) :
    ∃ q, X * regPoly r + (if b then X ^ w else 0) = regPoly (crcBit g r b) + generator g * q := by
  have hmul := X_mul_regPoly_crcShift hw g (r ^^^ (BitVec.ofBool b).setWidth w)
  rw [regPoly_xor, regPoly_ofBool hw, mul_add, mul_ite, mul_zero, ← pow_succ', Nat.sub_add_cancel hw] at hmul
  exact ⟨_, hmul⟩

/-! ## Messages -/

/-- The polynomial of a message: its first bit has the highest power. -/
noncomputable def messagePoly : List Bool → (ZMod 2)[X]
  | [] => 0
  | b :: bits => (if b then X ^ bits.length else 0) + messagePoly bits

/-- What a register stands for after the bits of a message. -/
noncomputable def runPoly (r : BitVec w) (bits : List Bool) : (ZMod 2)[X] :=
  X ^ bits.length * regPoly r + X ^ w * messagePoly bits

theorem runPoly_eq (hw : 0 < w) (g r : BitVec w) (bits : List Bool) :
    ∃ q, runPoly r bits = regPoly (bits.foldl (crcBit g) r) + generator g * q := by
  induction bits generalizing r with
  | nil => exact ⟨0, by simp [runPoly, messagePoly]⟩
  | cons b bits ih =>
    obtain ⟨q₁, hbit⟩ := X_mul_regPoly_crcBit hw g r b
    obtain ⟨q₂, hrest⟩ := ih (crcBit g r b)
    refine ⟨X ^ bits.length * q₁ + q₂, ?_⟩
    calc runPoly r (b :: bits)
        = X ^ bits.length * (X * regPoly r + (if b then X ^ w else 0)) + X ^ w * messagePoly bits := by
          rw [runPoly, messagePoly, List.length_cons]
          split <;> ring
      _ = runPoly (crcBit g r b) bits + generator g * (X ^ bits.length * q₁) := by
          rw [hbit, runPoly]
          ring
      _ = _ := by
          rw [hrest, List.foldl_cons]
          ring

/-- **A reflected CRC**: the remainder of a message behind a register of ones, complemented. -/
noncomputable def crc (w : Nat) (p : (ZMod 2)[X]) (bits : List Bool) : BitVec w :=
  ~~~ polyReg w (runPoly (BitVec.allOnes w) bits %ₘ p)

theorem crc_eq_foldl (hw : 0 < w) (g : BitVec w) (bits : List Bool) :
    crc w (generator g) bits = ~~~ bits.foldl (crcBit g) (BitVec.allOnes w) := by
  obtain ⟨q, hq⟩ := runPoly_eq hw g (BitVec.allOnes w) bits
  rw [crc, modByMonic_eq_regPoly hq, polyReg_regPoly]

/-! ## Several bits at once -/

theorem crcShift_xor (g a b : BitVec w) : crcShift g (a ^^^ b) = crcShift g a ^^^ crcShift g b := by
  rw [crcShift, crcShift, crcShift, BitVec.getLsbD_xor, BitVec.ushiftRight_xor_distrib]
  cases a.getLsbD 0 <;> cases b.getLsbD 0
  · rfl
  · exact BitVec.xor_assoc _ _ _
  · show a >>> 1 ^^^ b >>> 1 ^^^ g = a >>> 1 ^^^ g ^^^ b >>> 1
    rw [BitVec.xor_assoc, BitVec.xor_comm (b >>> 1), BitVec.xor_assoc]
  · show a >>> 1 ^^^ b >>> 1 = a >>> 1 ^^^ g ^^^ (b >>> 1 ^^^ g)
    rw [BitVec.xor_comm (b >>> 1) g, BitVec.xor_assoc, ← BitVec.xor_assoc g, BitVec.xor_self, BitVec.zero_xor]

theorem crcShift_of_getLsbD {g r : BitVec w} (h : r.getLsbD 0 = false) : crcShift g r = r >>> 1 := by
  rw [crcShift, h]
  rfl

theorem iterate_crcShift_xor_xor (g a b : BitVec w) (n : Nat) :
    (crcShift g)^[n] (a ^^^ b) = (crcShift g)^[n] a ^^^ (crcShift g)^[n] b := by
  induction n generalizing a b with
  | zero => rfl
  | succ n ih =>
    rw [Function.iterate_succ_apply, Function.iterate_succ_apply, Function.iterate_succ_apply, crcShift_xor, ih]

/-- Bits that are all above the first `n` only move down. -/
theorem iterate_crcShift_high {g r : BitVec w} {n : Nat} (h : ∀ i < n, r.getLsbD i = false) :
    (crcShift g)^[n] r = r >>> n := by
  induction n generalizing r with
  | zero => exact (BitVec.ushiftRight_zero r).symm
  | succ n ih =>
    have hrest : ∀ i < n, (r >>> 1).getLsbD i = false := by
      intro i hi
      rw [BitVec.getLsbD_ushiftRight]
      exact h (1 + i) (by omega)
    rw [Function.iterate_succ_apply, crcShift_of_getLsbD (h 0 n.succ_pos), ih hrest, ← BitVec.shiftRight_add,
      Nat.add_comm]

/-- **The low bits can be worked on apart**, and the others moved down. -/
theorem iterate_crcShift_low (g r low : BitVec w) {n : Nat} (h : ∀ i < n, low.getLsbD i = r.getLsbD i)
    (hlow : low >>> n = 0#w) : (crcShift g)^[n] r = (crcShift g)^[n] low ^^^ (r >>> n) := by
  have hhigh : ∀ i < n, (low ^^^ r).getLsbD i = false := by
    intro i hi
    rw [BitVec.getLsbD_xor, h i hi, Bool.xor_self]
  have hsplit : r = low ^^^ (low ^^^ r) := by
    rw [← BitVec.xor_assoc, BitVec.xor_self, BitVec.zero_xor]
  calc (crcShift g)^[n] r = (crcShift g)^[n] low ^^^ (crcShift g)^[n] (low ^^^ r) := by
        rw [← iterate_crcShift_xor_xor, ← hsplit]
    _ = _ := by rw [iterate_crcShift_high hhigh, BitVec.ushiftRight_xor_distrib, hlow, BitVec.zero_xor]

/-- **Bits that go in together and one after the other.** -/
theorem iterate_crcShift_xor (g r v : BitVec w) {n : Nat} (h : ∀ i, n ≤ i → v.getLsbD i = false) :
    (crcShift g)^[n] (r ^^^ v) = ((List.range n).map v.getLsbD).foldl (crcBit g) r := by
  induction n generalizing r v with
  | zero =>
    have hv : v = 0#w := BitVec.eq_of_getLsbD_eq fun i _ => by rw [h i i.zero_le]; exact BitVec.getLsbD_zero.symm
    rw [hv]
    exact BitVec.xor_zero
  | succ n ih =>
    have hrest : ∀ i, n ≤ i → (v >>> 1).getLsbD i = false := by
      intro i hi
      rw [BitVec.getLsbD_ushiftRight]
      exact h (1 + i) (by omega)
    -- the lowest bit goes in first, and the others are one place lower when they are needed
    have hfirst : crcShift g (r ^^^ v) = crcBit g r (v.getLsbD 0) ^^^ v >>> 1 := by
      have hclear : ((BitVec.ofBool (v.getLsbD 0)).setWidth w ^^^ v).getLsbD 0 = false := by
        rw [BitVec.getLsbD_xor, BitVec.getLsbD_setWidth, BitVec.getLsbD_ofBool]
        rcases Nat.eq_zero_or_pos w with rfl | hw
        · rw [BitVec.getLsbD_of_ge v 0 (Nat.le_refl 0)]
          rfl
        · simp [hw]
      have hshift : (BitVec.ofBool (v.getLsbD 0)).setWidth w >>> 1 = 0#w := by
        refine BitVec.eq_of_getLsbD_eq fun i _ => ?_
        rw [BitVec.getLsbD_ushiftRight, BitVec.getLsbD_setWidth, BitVec.getLsbD_ofBool]
        simp
      have hsplit : r ^^^ v = r ^^^ (BitVec.ofBool (v.getLsbD 0)).setWidth w ^^^
          ((BitVec.ofBool (v.getLsbD 0)).setWidth w ^^^ v) := by
        rw [BitVec.xor_assoc, ← BitVec.xor_assoc _ _ v, BitVec.xor_self, BitVec.zero_xor]
      rw [hsplit, crcShift_xor, crcShift_of_getLsbD hclear, BitVec.ushiftRight_xor_distrib, hshift, BitVec.zero_xor]
      rfl
    have hbits : (List.range n).map (v >>> 1).getLsbD = (List.range n).map fun i => v.getLsbD (i + 1) := by
      refine List.map_congr_left fun i _ => ?_
      rw [BitVec.getLsbD_ushiftRight, Nat.add_comm]
    rw [Function.iterate_succ_apply, hfirst, ih _ _ hrest, hbits, List.range_succ_eq_map, List.map_cons,
      List.foldl_cons, List.map_map]
    rfl

end Crc

end Yappod

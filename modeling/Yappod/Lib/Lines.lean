import Mathlib.Algebra.Ring.Nat
import Mathlib.Data.List.Basic

/-!
# Texts of lines

A text is put together from parts that a separator ends.  A part without the separator can be told from what
follows it (`first_part_inj`) and from what comes before it (`last_part_inj`); in general a text that has such
a part in front is cut by the separator at the end of the part or later (`part_cases`).

Lines may also be ended by two bytes, as CRLF.  A line in which the two do not follow each other (`Unbroken`) is
cut off at the first place where they do (`break_cases`).

Numbers are written in decimal digits (`decimal`), which is one to one and without line breaks.
-/

set_option autoImplicit false

namespace Yappod

/-! ## Separators -/

section Parts

variable {α : Type} {sep : α}

/-- The part before the first separator. -/
theorem first_part_inj {l l' y y' : List α} (hl : sep ∉ l) (hl' : sep ∉ l')
    (h : l ++ sep :: y = l' ++ sep :: y') : l = l' ∧ y = y' := by
  induction l generalizing l' with
  | nil =>
    cases l' with
    | nil => exact ⟨rfl, (List.cons.inj h).2⟩
    | cons b l' =>
      rw [List.nil_append, List.cons_append] at h
      exact absurd (List.mem_cons.mpr (.inl (List.cons.inj h).1)) hl'
  | cons a l ih =>
    rw [List.mem_cons, not_or] at hl
    cases l' with
    | nil =>
      rw [List.nil_append, List.cons_append] at h
      exact absurd (List.cons.inj h).1.symm hl.1
    | cons b l' =>
      rw [List.mem_cons, not_or] at hl'
      obtain ⟨rfl, hrest⟩ := List.cons.inj h
      obtain ⟨rfl, hy⟩ := ih hl.2 hl'.2 hrest
      exact ⟨rfl, hy⟩

/-- The part after the last separator. -/
theorem last_part_inj {l l' y y' : List α} (hl : sep ∉ l) (hl' : sep ∉ l')
    (h : y ++ sep :: l = y' ++ sep :: l') : y = y' ∧ l = l' := by
  have hreverse := congrArg List.reverse h
  simp only [List.reverse_append, List.reverse_cons, List.append_assoc, List.singleton_append] at hreverse
  obtain ⟨h₁, h₂⟩ := first_part_inj (by rwa [List.mem_reverse]) (by rwa [List.mem_reverse]) hreverse
  exact ⟨List.reverse_injective h₂, List.reverse_injective h₁⟩

/-- Where a separator can cut a text that begins with a part. -/
theorem part_cases {l a y z : List α} (hl : sep ∉ l) (h : l ++ y = a ++ sep :: z) :
    ∃ b, a = l ++ b ∧ y = b ++ sep :: z := by
  rcases List.append_eq_append_iff.mp h with ⟨b, hb, hz⟩ | ⟨b, hb, hy⟩
  · exact ⟨b, hb, hz⟩
  · cases b with
    | nil =>
      rw [List.append_nil] at hb
      exact ⟨[], by rw [hb, List.append_nil], hy.symm⟩
    | cons c b =>
      obtain ⟨rfl, -⟩ := List.cons.inj hy
      exact absurd (by rw [hb]; simp) hl

end Parts

/-! ## Line breaks of two bytes -/

section Breaks

variable {α : Type} {c d : α}

/-- No line break within the line. -/
def Unbroken (c d : α) (l : List α) : Prop := ¬ [c, d] <:+: l

theorem unbroken_nil : Unbroken c d [] := by
  intro h
  have := h.length_le
  simp at this

theorem Unbroken.cons {a : α} {l : List α} (h : Unbroken c d l) (ha : a = c → l.head? ≠ some d) :
    Unbroken c d (a :: l) := by
  rintro ⟨x, y, hxy⟩
  cases x with
  | nil =>
    simp only [List.nil_append, List.cons_append, List.cons.injEq] at hxy
    exact ha hxy.1.symm (by rw [← hxy.2]; rfl)
  | cons b x =>
    simp only [List.cons_append, List.cons.injEq] at hxy
    exact h ⟨x, y, hxy.2⟩

theorem Unbroken.of_inside {l m : List α} (h : Unbroken c d m) (hl : l <:+: m) : Unbroken c d l :=
  fun hbreak => h (hbreak.trans hl)

theorem unbroken_of_notMem {l : List α} (h : c ∉ l) : Unbroken c d l :=
  fun hbreak => h (hbreak.subset List.mem_cons_self)

/-- Where a line break can be in a text that begins with a line. -/
theorem break_cases {l a y z : List α} (hne : c ≠ d) (hl : Unbroken c d l)
    (h : l ++ c :: d :: y = a ++ c :: d :: z) :
    (a = l ∧ z = y) ∨ ∃ b, a = l ++ c :: d :: b ∧ y = b ++ c :: d :: z := by
  rcases List.append_eq_append_iff.mp h with ⟨b, hb, hz⟩ | ⟨b, hb, hy⟩
  · match b with
    | [] =>
      simp only [List.nil_append, List.cons.injEq, true_and] at hz
      exact .inl ⟨by rw [hb, List.append_nil], hz.symm⟩
    | [e] =>
      simp only [List.cons_append, List.nil_append, List.cons.injEq] at hz
      exact absurd hz.2.1.symm hne
    | e :: f :: b =>
      simp only [List.cons_append, List.cons.injEq] at hz
      obtain ⟨rfl, rfl, hz⟩ := hz
      exact .inr ⟨b, hb, hz⟩
  · match b with
    | [] =>
      simp only [List.nil_append, List.cons.injEq, true_and] at hy
      exact .inl ⟨by rw [hb, List.append_nil], hy⟩
    | [e] =>
      simp only [List.cons_append, List.nil_append, List.cons.injEq] at hy
      exact absurd hy.2.1.symm hne
    | e :: f :: b =>
      simp only [List.cons_append, List.cons.injEq] at hy
      obtain ⟨rfl, rfl, -⟩ := hy
      exact absurd ⟨a, b, by rw [hb, List.append_assoc]; rfl⟩ hl

/-- Two texts that begin with a line begin with the same one. -/
theorem first_line_inj {l l' y y' : List α} (hne : c ≠ d) (hl : Unbroken c d l) (hl' : Unbroken c d l')
    (h : l ++ c :: d :: y = l' ++ c :: d :: y') : l = l' ∧ y = y' := by
  rcases break_cases hne hl h with ⟨rfl, rfl⟩ | ⟨b, rfl, -⟩
  · exact ⟨rfl, rfl⟩
  · exact absurd ⟨l, b, by simp⟩ hl'

/-- A line break in a text of lines ends one of them, or it is in what follows. -/
theorem break_in_lines {ls : List (List α)} {tail x y : List α} (hne : c ≠ d) (hls : ∀ l ∈ ls, Unbroken c d l)
    (h : ls.flatMap (fun l => l ++ [c, d]) ++ tail = x ++ c :: d :: y) :
    (∃ post, post <:+ ls ∧ y = post.flatMap (fun l => l ++ [c, d]) ++ tail) ∨ ∃ x', tail = x' ++ c :: d :: y := by
  induction ls generalizing x with
  | nil => exact .inr ⟨x, h⟩
  | cons l ls ih =>
    rw [List.flatMap_cons, List.append_assoc, List.append_assoc, List.cons_append, List.singleton_append] at h
    rcases break_cases hne (hls l List.mem_cons_self) h with ⟨-, hy⟩ | ⟨b, -, hb⟩
    · exact .inl ⟨ls, List.suffix_cons l ls, hy⟩
    · rcases ih (fun m hm => hls m (List.mem_cons_of_mem l hm)) hb with ⟨post, hpost, hy⟩ | htail
      · exact .inl ⟨post, hpost.trans (List.suffix_cons l ls), hy⟩
      · exact .inr htail

/-- Lines that are not empty do not make a text that starts with a line break. -/
theorem lines_no_break {ls : List (List α)} {tail y : List α} (hne : c ≠ d)
    (hls : ∀ l ∈ ls, Unbroken c d l ∧ l ≠ []) (h : ls.flatMap (fun l => l ++ [c, d]) ++ tail = c :: d :: y) :
    tail = c :: d :: y := by
  cases ls with
  | nil => exact h
  | cons l ls =>
    obtain ⟨hl, hnil⟩ := hls l List.mem_cons_self
    rw [List.flatMap_cons, List.append_assoc, List.append_assoc, List.cons_append, List.singleton_append] at h
    exact absurd (first_line_inj hne hl unbroken_nil h).1 hnil

end Breaks

/-! ## Decimal numbers -/

/-- The digits of a number below `10 ^ (fuel + 1)`. -/
def decimalDigits : Nat → Nat → List UInt8
  | 0, n => [UInt8.ofNat (48 + n % 10)]
  | fuel + 1, n =>
    if n < 10 then [UInt8.ofNat (48 + n)]
    else decimalDigits fuel (n / 10) ++ [UInt8.ofNat (48 + n % 10)]

/-- A number in decimal digits, as `printf` writes it. -/
def decimal (n : Nat) : List UInt8 := decimalDigits n n

/-- The number that digits stand for. -/
def decimalValue (bs : List UInt8) : Nat := bs.foldl (fun v b => v * 10 + (b.toNat - 48)) 0

theorem digit_toNat {n : Nat} (h : n < 10) : (UInt8.ofNat (48 + n)).toNat = 48 + n := by
  rw [UInt8.toNat_ofNat']
  omega

theorem decimalValue_append (bs : List UInt8) (b : UInt8) :
    decimalValue (bs ++ [b]) = decimalValue bs * 10 + (b.toNat - 48) := by
  rw [decimalValue, List.foldl_append]
  rfl

theorem decimalValue_digits (fuel n : Nat) (h : n < 10 ^ (fuel + 1)) :
    decimalValue (decimalDigits fuel n) = n := by
  induction fuel generalizing n with
  | zero =>
    rw [Nat.zero_add, Nat.pow_one] at h
    rw [decimalDigits, Nat.mod_eq_of_lt h, decimalValue, List.foldl_cons, List.foldl_nil, digit_toNat h]
    omega
  | succ fuel ih =>
    rw [decimalDigits]
    split
    · rename_i hlt
      rw [decimalValue, List.foldl_cons, List.foldl_nil, digit_toNat hlt]
      omega
    · rw [decimalValue_append, ih (n / 10), digit_toNat (Nat.mod_lt _ (by omega))]
      · omega
      · rw [Nat.pow_succ] at h
        omega

theorem decimalValue_decimal (n : Nat) : decimalValue (decimal n) = n := by
  refine decimalValue_digits n n (Nat.lt_trans (Nat.lt_succ_self n) ?_)
  exact Nat.lt_pow_self (by omega)

theorem decimal_injective {m n : Nat} (h : decimal m = decimal n) : m = n := by
  rw [← decimalValue_decimal m, h, decimalValue_decimal]

theorem length_decimalDigits_le {fuel n k : Nat} (h : n < 10 ^ (k + 1)) :
    (decimalDigits fuel n).length ≤ k + 1 := by
  induction fuel generalizing n k with
  | zero =>
    rw [decimalDigits, List.length_singleton]
    omega
  | succ fuel ih =>
    rw [decimalDigits]
    split
    · rw [List.length_singleton]
      omega
    · cases k with
      | zero => omega
      | succ k =>
        rw [List.length_append, List.length_singleton]
        rw [Nat.pow_succ] at h
        have := ih (n := n / 10) (k := k) (by omega)
        omega

theorem length_decimal_pos (n : Nat) : 0 < (decimal n).length := by
  rw [decimal]
  cases n with
  | zero => exact Nat.one_pos
  | succ n =>
    rw [decimalDigits]
    split
    · exact Nat.one_pos
    · rw [List.length_append, List.length_singleton]
      omega

/-- A digit is one of the bytes 48 to 57. -/
theorem mem_decimalDigits {fuel n : Nat} {b : UInt8} (h : b ∈ decimalDigits fuel n) :
    48 ≤ b.toNat ∧ b.toNat ≤ 57 := by
  have hdigit : ∀ k, k < 10 → b = UInt8.ofNat (48 + k) → 48 ≤ b.toNat ∧ b.toNat ≤ 57 := by
    rintro k hk rfl
    rw [digit_toNat hk]
    omega
  induction fuel generalizing n with
  | zero => exact hdigit (n % 10) (Nat.mod_lt _ (by omega)) (List.mem_singleton.mp h)
  | succ fuel ih =>
    rw [decimalDigits] at h
    split at h
    · rename_i hlt
      exact hdigit n hlt (List.mem_singleton.mp h)
    · rcases List.mem_append.mp h with h | h
      · exact ih h
      · exact hdigit (n % 10) (Nat.mod_lt _ (by omega)) (List.mem_singleton.mp h)

theorem newline_notMem_decimal (n : Nat) : (10 : UInt8) ∉ decimal n := by
  intro h
  have := (mem_decimalDigits h).1
  revert this
  decide

end Yappod

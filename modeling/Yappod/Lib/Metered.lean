import Yappod.Lib.Codec

/-!
# Reading with a digest and a budget

A file is read front to back.  Every byte that is read goes into a digest and is taken off a budget, and a read
that the budget does not cover fails.  What a computation has read between two states is a string of bytes
(`Metered.Reads`), and strings that are read one after the other are read as one (`Metered.Reads.append`).

`MeteredExact` is `Exact` for such readers.
-/

set_option autoImplicit false

namespace Yappod

/-- How far a file has been read. -/
structure Metered (δ : Type) where
  rest : List UInt8
  digest : δ
  remaining : Nat

section Metered

variable {ε δ α : Type} (step : δ → UInt8 → δ)

/-- These bytes are read between the two states. -/
structure Metered.Reads (c : Metered δ) (bs : List UInt8) (c' : Metered δ) : Prop where
  rest : c.rest = bs ++ c'.rest
  digest : c'.digest = bs.foldl step c.digest
  remaining : c.remaining = bs.length + c'.remaining

theorem Metered.reads_nil {c c' : Metered δ} : c.Reads step [] c' ↔ c' = c := by
  constructor
  · rintro ⟨hrest, hdigest, hremaining⟩
    obtain ⟨rest, digest, remaining⟩ := c
    obtain ⟨rest', digest', remaining'⟩ := c'
    simp only [List.nil_append, List.foldl_nil, List.length_nil, Nat.zero_add] at hrest hdigest hremaining
    rw [hrest, hdigest, hremaining]
  · rintro rfl
    exact ⟨rfl, rfl, (Nat.zero_add _).symm⟩

/-- What is read in two parts. -/
theorem Metered.reads_append {c c' : Metered δ} {a b : List UInt8} :
    c.Reads step (a ++ b) c' ↔ ∃ mid, c.Reads step a mid ∧ mid.Reads step b c' := by
  constructor
  · rintro ⟨hrest, hdigest, hremaining⟩
    refine ⟨⟨b ++ c'.rest, a.foldl step c.digest, b.length + c'.remaining⟩, ⟨?_, rfl, ?_⟩, ⟨rfl, ?_, rfl⟩⟩
    · rw [hrest, List.append_assoc]
    · rw [hremaining, List.length_append, Nat.add_assoc]
    · rw [hdigest, List.foldl_append]
  · rintro ⟨mid, ⟨hrest, hdigest, hremaining⟩, ⟨hrest', hdigest', hremaining'⟩⟩
    refine ⟨?_, ?_, ?_⟩
    · rw [hrest, hrest', List.append_assoc]
    · rw [hdigest', hdigest, List.foldl_append]
    · rw [hremaining, hremaining', List.length_append, Nat.add_assoc]

/-- A reader that keeps a digest and a budget. -/
abbrev MeteredReader (ε δ α : Type) := StateT (Metered δ) (Except ε) α

/-- `p` reads the encodings of the values that are `ok`, and only those. -/
def MeteredExact (p : MeteredReader ε δ α) (encode : α → List UInt8) (ok : α → Prop) : Prop :=
  ∀ c a c', p.run c = .ok (a, c') ↔ ok a ∧ c.Reads step (encode a) c'

/-- The next `n` bytes, if the budget covers them and they are there. -/
def MeteredReader.take (e : ε) (n : Nat) : MeteredReader ε δ (List UInt8) := fun c =>
  if c.remaining < n then .error e
  else if n ≠ 0 ∧ c.rest.length < n then .error e
  else .ok (c.rest.take n, ⟨c.rest.drop n, (c.rest.take n).foldl step c.digest, c.remaining - n⟩)

theorem meteredExact_take (e : ε) (n : Nat) :
    MeteredExact step (MeteredReader.take step e n) id fun bs => bs.length = n := by
  intro c a c'
  change MeteredReader.take step e n c = _ ↔ _
  rw [MeteredReader.take]
  split
  · rename_i hbudget
    refine iff_of_false (by simp) ?_
    rintro ⟨rfl, hreads⟩
    have := hreads.remaining
    rw [id] at this
    omega
  · rename_i hbudget
    split
    · rename_i hshort
      refine iff_of_false (by simp) ?_
      rintro ⟨rfl, hreads⟩
      have := congrArg List.length hreads.rest
      rw [id, List.length_append] at this
      omega
    · rename_i hlong
      have hle : n ≤ c.rest.length := by omega
      rw [Except.ok.injEq, Prod.mk.injEq]
      constructor
      · rintro ⟨rfl, rfl⟩
        have hlen : (c.rest.take n).length = n := by rw [List.length_take, Nat.min_eq_left hle]
        refine ⟨hlen, (List.take_append_drop n c.rest).symm, rfl, ?_⟩
        rw [id, hlen]
        exact (Nat.add_sub_cancel' (Nat.not_lt.mp hbudget)).symm
      · rintro ⟨rfl, hrest, hdigest, hremaining⟩
        obtain ⟨rest', digest', remaining'⟩ := c'
        simp only [id] at hrest hdigest hremaining
        have htake : c.rest.take a.length = a := by rw [hrest, List.take_left]
        have hdrop : c.rest.drop a.length = rest' := by rw [hrest, List.drop_left]
        refine ⟨htake, ?_⟩
        rw [htake, hdrop, hdigest, hremaining, Nat.add_sub_cancel_left]

/-- Fail unless a condition holds. -/
def MeteredReader.require (e : ε) (b : Bool) : MeteredReader ε δ Unit := fun c =>
  if b = true then .ok ((), c) else .error e

theorem MeteredReader.require_eq_ok {e : ε} {b : Bool} {c : Metered δ} {out : Unit × Metered δ} :
    (MeteredReader.require e b).run c = .ok out ↔ b = true ∧ out = ((), c) := by
  change MeteredReader.require e b c = _ ↔ _
  rw [MeteredReader.require]
  split
  · rename_i hb
    rw [Except.ok.injEq, and_iff_right hb]
    exact eq_comm
  · rename_i hb
    exact iff_of_false (by simp) fun h => hb h.1

end Metered

end Yappod

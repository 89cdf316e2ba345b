import Mathlib.Algebra.Ring.Nat
import Mathlib.Data.List.Basic
import Mathlib.Data.Nat.NthRoot.Defs
import Mathlib.Data.Nat.Prime.Basic

/-!
# SHA-256

The hash of FIPS 180-4: padding, message schedule and compression, over whole messages.  An implementation works on a
stream and keeps a block that fills up.  `Absorbed` says what its state is after a message, and `digest_of_absorbed`
what is left to do.
-/

set_option autoImplicit false

namespace Yappod

namespace Sha2

/-! ## The functions on words -/

def rotr (x n : UInt32) : UInt32 := (x >>> n) ||| (x <<< (32 - n))

def ch (x y z : UInt32) : UInt32 := (x &&& y) ^^^ (~~~x &&& z)

def maj (x y z : UInt32) : UInt32 := (x &&& y) ^^^ (x &&& z) ^^^ (y &&& z)

/-- Σ₀ -/
def bigSigma0 (x : UInt32) : UInt32 := rotr x 2 ^^^ rotr x 13 ^^^ rotr x 22

/-- Σ₁ -/
def bigSigma1 (x : UInt32) : UInt32 := rotr x 6 ^^^ rotr x 11 ^^^ rotr x 25

/-- σ₀ -/
def smallSigma0 (x : UInt32) : UInt32 := rotr x 7 ^^^ rotr x 18 ^^^ (x >>> 3)

/-- σ₁ -/
def smallSigma1 (x : UInt32) : UInt32 := rotr x 17 ^^^ rotr x 19 ^^^ (x >>> 10)

/-! ## The constants -/

/-- The first 64 primes. -/
def primes : List Nat := (List.range 312).filter fun n => 2 ≤ n ∧ ∀ m < n, m ∣ n → m = 1

/-- The smallest factor of a number is found much sooner than all the smaller numbers are tried. -/
theorem primes_eq_minFac : primes = (List.range 312).filter fun n => decide (2 ≤ n ∧ n.minFac = n) := by
  refine List.filter_congr fun n _ => ?_
  rw [decide_eq_decide, ← Nat.prime_def_minFac, Nat.prime_def_lt]

/-- The first 32 bits of the fractional part of a root of a number. -/
def rootWord (k p : Nat) : UInt32 := UInt32.ofNat (Nat.nthRoot k (p * 2 ^ (32 * k)))

/-- From the cube roots of the first 64 primes. -/
def constants : List UInt32 := primes.map (rootWord 3)

/-- The eight words of a state. -/
structure State where
  a : UInt32
  b : UInt32
  c : UInt32
  d : UInt32
  e : UInt32
  f : UInt32
  g : UInt32
  h : UInt32
  deriving DecidableEq

namespace State

def words (s : State) : List UInt32 := [s.a, s.b, s.c, s.d, s.e, s.f, s.g, s.h]

def add (s t : State) : State :=
  ⟨s.a + t.a, s.b + t.b, s.c + t.c, s.d + t.d, s.e + t.e, s.f + t.f, s.g + t.g, s.h + t.h⟩

end State

/-- From the square roots of the first eight primes. -/
def initial : State :=
  let h (i : Nat) : UInt32 := rootWord 2 (primes.getD i 0)
  ⟨h 0, h 1, h 2, h 3, h 4, h 5, h 6, h 7⟩

/-! ## Compression -/

/-- A word of a block, the highest byte first. -/
def word (block : List UInt8) (t : Nat) : UInt32 :=
  let byte (i : Nat) : UInt32 := (block.getD (4 * t + i) 0).toUInt32
  (byte 0 <<< 24) ||| (byte 1 <<< 16) ||| (byte 2 <<< 8) ||| byte 3

/-- The message schedule. -/
def schedule (m : Nat → UInt32) (t : Nat) : UInt32 :=
  if t < 16 then m t
  else smallSigma1 (schedule m (t - 2)) + schedule m (t - 7) + smallSigma0 (schedule m (t - 15)) + schedule m (t - 16)

def round (s : State) (k w : UInt32) : State :=
  let t₁ := s.h + bigSigma1 s.e + ch s.e s.f s.g + k + w
  let t₂ := bigSigma0 s.a + maj s.a s.b s.c
  ⟨t₁ + t₂, s.a, s.b, s.c, s.d + t₁, s.e, s.f, s.g⟩

def compress (s : State) (block : List UInt8) : State :=
  s.add ((List.range 64).foldl (fun s t => round s (constants.getD t 0) (schedule (word block) t)) s)

/-! ## Messages -/

/-- The bytes of a word, the highest first. -/
def wordBytes (w : UInt32) : List UInt8 := [(w >>> 24).toUInt8, (w >>> 16).toUInt8, (w >>> 8).toUInt8, w.toUInt8]

/-- The eight bytes of a length, the highest first. -/
def lengthBytes (n : Nat) : List UInt8 := (List.range 8).map fun i => UInt8.ofNat (n / 256 ^ (7 - i))

/-- How many zeros bring a message and its mark to 56 bytes past a block. -/
def padZeros (n : Nat) : Nat := (119 - n % 64) % 64

/-- A message with a mark, zeros and its length in bits. -/
def pad (m : List UInt8) : List UInt8 :=
  m ++ 0x80 :: (List.replicate (padZeros m.length) 0 ++ lengthBytes (8 * m.length))

/-- The state after all blocks. -/
def hashBlocks (m : List UInt8) : State :=
  (List.range (m.length / 64)).foldl (fun s i => compress s ((m.drop (64 * i)).take 64)) initial

/-- **The digest.** -/
def digest (m : List UInt8) : List UInt8 := (hashBlocks (pad m)).words.flatMap wordBytes

theorem padZeros_eq {n k : Nat} (hk : k < 64) (h : (n + 1 + k) % 64 = 56) : k = padZeros n := by
  rw [padZeros]
  omega

/-! ## Streams -/

theorem hashBlocks_append {full block : List UInt8} (hfull : 64 ∣ full.length) (hblock : block.length = 64) :
    hashBlocks (full ++ block) = compress (hashBlocks full) block := by
  obtain ⟨n, hn⟩ := hfull
  have hlength : (full ++ block).length / 64 = n + 1 := by
    rw [List.length_append, hn, hblock]
    omega
  have hn' : full.length / 64 = n := by omega
  have hearlier : ∀ (s : State), ∀ i ∈ List.range n, compress s (((full ++ block).drop (64 * i)).take 64) =
      compress s ((full.drop (64 * i)).take 64) := by
    intro s i hi
    rw [List.mem_range] at hi
    rw [List.drop_append_of_le_length (by omega), List.take_append_of_le_length]
    rw [List.length_drop]
    omega
  have hlast : ((full ++ block).drop (64 * n)).take 64 = block := by
    rw [← hn, List.drop_left, ← hblock, List.take_length]
  rw [hashBlocks, hlength, List.range_succ, List.foldl_append, List.foldl_ext _ _ _ hearlier, List.foldl_cons,
    List.foldl_nil, hlast, hashBlocks, hn']

/-- A state after whole blocks of a message, and what comes after them. -/
def Absorbed (m : List UInt8) (s : State) (rest : List UInt8) : Prop :=
  ∃ full, m = full ++ rest ∧ 64 ∣ full.length ∧ s = hashBlocks full

variable {m rest : List UInt8} {s : State}

theorem absorbed_nil : Absorbed [] initial [] := ⟨[], rfl, Nat.dvd_zero 64, rfl⟩

theorem Absorbed.append (h : Absorbed m s rest) (bs : List UInt8) : Absorbed (m ++ bs) s (rest ++ bs) := by
  obtain ⟨full, rfl, hfull, rfl⟩ := h
  exact ⟨full, List.append_assoc _ _ _, hfull, rfl⟩

/-- A full block is worked in. -/
theorem Absorbed.compress (h : Absorbed m s rest) (hrest : rest.length = 64) :
    Absorbed m (Sha2.compress s rest) [] := by
  obtain ⟨full, rfl, hfull, rfl⟩ := h
  refine ⟨full ++ rest, (List.append_nil _).symm, ?_, (hashBlocks_append hfull hrest).symm⟩
  rw [List.length_append, hrest]
  exact Nat.dvd_add hfull (Nat.dvd_refl 64)

theorem Absorbed.length_mod (h : Absorbed m s rest) : m.length % 64 = rest.length % 64 := by
  obtain ⟨full, rfl, hfull, rfl⟩ := h
  rw [List.length_append]
  omega

theorem Absorbed.eq_hashBlocks (h : Absorbed m s []) : s = hashBlocks m := by
  obtain ⟨full, rfl, -, rfl⟩ := h
  rw [List.append_nil]

/-- **The end of a stream**: after the mark and zeros up to 56 bytes, the length completes the last block. -/
theorem digest_of_absorbed {k : Nat} (h : Absorbed (m ++ 0x80 :: List.replicate k 0) s rest) (hk : k < 64)
    (hrest : rest.length = 56) :
    digest m = (Sha2.compress s (rest ++ lengthBytes (8 * m.length))).words.flatMap wordBytes := by
  have hmod := h.length_mod
  rw [List.length_append, List.length_cons, List.length_replicate, hrest] at hmod
  have hzeros : k = padZeros m.length := padZeros_eq hk (by omega)
  have hfull : (rest ++ lengthBytes (8 * m.length)).length = 64 := by
    rw [List.length_append, hrest]
    rfl
  have hpad := ((h.append (lengthBytes (8 * m.length))).compress hfull).eq_hashBlocks
  rw [hpad, digest, pad, hzeros, List.append_assoc, List.cons_append]

end Sha2

end Yappod

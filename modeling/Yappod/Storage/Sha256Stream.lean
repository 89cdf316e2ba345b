import Yappod.Config.Sha256
import Yappod.Lib.Sha2

/-!
# The digests of the components

`yappo_segment_v2.c` has a SHA-256 of its own, which takes a file in pieces and pads it byte by byte.  It gives the
digest of FIPS 180-4, and so does `YAP_V2_sha256_bytes` (`sha256_agree`).
-/

set_option autoImplicit false

namespace Yappod

namespace SegmentV2

/-! ## The functions of `yappo_segment_v2.c` -/

/-- `YAP_V2_SHA256`; `block_length` is the length of the block. -/
structure Sha256 where
  state : ShaWords
  bitLength : Nat
  block : Bytes

def sha256Rotr (value count : UInt32) : UInt32 := (value >>> count) ||| (value <<< (32 - count))

/-- The table of `sha256_transform`. -/
def sha256Constants : List UInt32 := [
  0x428a2f98, 0x71374491, 0xb5c0fbcf, 0xe9b5dba5, 0x3956c25b, 0x59f111f1, 0x923f82a4, 0xab1c5ed5,
  0xd807aa98, 0x12835b01, 0x243185be, 0x550c7dc3, 0x72be5d74, 0x80deb1fe, 0x9bdc06a7, 0xc19bf174,
  0xe49b69c1, 0xefbe4786, 0x0fc19dc6, 0x240ca1cc, 0x2de92c6f, 0x4a7484aa, 0x5cb0a9dc, 0x76f988da,
  0x983e5152, 0xa831c66d, 0xb00327c8, 0xbf597fc7, 0xc6e00bf3, 0xd5a79147, 0x06ca6351, 0x14292967,
  0x27b70a85, 0x2e1b2138, 0x4d2c6dfc, 0x53380d13, 0x650a7354, 0x766a0abb, 0x81c2c92e, 0x92722c85,
  0xa2bfe8a1, 0xa81a664b, 0xc24b8b70, 0xc76c51a3, 0xd192e819, 0xd6990624, 0xf40e3585, 0x106aa070,
  0x19a4c116, 0x1e376c08, 0x2748774c, 0x34b0bcb5, 0x391c0cb3, 0x4ed8aa4a, 0x5b9cca4f, 0x682e6ff3,
  0x748f82ee, 0x78a5636f, 0x84c87814, 0x8cc70208, 0x90befffa, 0xa4506ceb, 0xbef9a3f7, 0xc67178f2]

/-- The first loop over `words`. -/
def sha256Words (block : Bytes) : List UInt32 :=
  (List.range 16).map fun i =>
    ((block.getD (i * 4) 0).toUInt32 <<< 24) ||| ((block.getD (i * 4 + 1) 0).toUInt32 <<< 16) |||
      ((block.getD (i * 4 + 2) 0).toUInt32 <<< 8) ||| (block.getD (i * 4 + 3) 0).toUInt32

/-- The second loop over `words`, with the words so far. -/
def sha256Extend : Nat → List UInt32 → List UInt32
  | 0, words => words
  | n + 1, words =>
    let i := words.length
    let w (j : Nat) : UInt32 := words.getD j 0
    let s₀ := sha256Rotr (w (i - 15)) 7 ^^^ sha256Rotr (w (i - 15)) 18 ^^^ (w (i - 15) >>> 3)
    let s₁ := sha256Rotr (w (i - 2)) 17 ^^^ sha256Rotr (w (i - 2)) 19 ^^^ (w (i - 2) >>> 10)
    sha256Extend n (words ++ [w (i - 16) + s₀ + w (i - 7) + s₁])

/-- A turn of the loop over `a` to `h`, with its constant and its word. -/
def sha256Round (s : ShaWords) (kw : UInt32 × UInt32) : ShaWords :=
  let sigma₁ := sha256Rotr s.e 6 ^^^ sha256Rotr s.e 11 ^^^ sha256Rotr s.e 25
  let choose := (s.e &&& s.f) ^^^ (~~~s.e &&& s.g)
  let sigma₀ := sha256Rotr s.a 2 ^^^ sha256Rotr s.a 13 ^^^ sha256Rotr s.a 22
  let majority := (s.a &&& s.b) ^^^ (s.a &&& s.c) ^^^ (s.b &&& s.c)
  let t₁ := s.h + sigma₁ + choose + kw.1 + kw.2
  let t₂ := sigma₀ + majority
  ⟨t₁ + t₂, s.a, s.b, s.c, s.d + t₁, s.e, s.f, s.g⟩

/-- `sha256_transform`. -/
def sha256Transform (state : ShaWords) (block : Bytes) : ShaWords :=
  state.add ((sha256Constants.zip (sha256Extend 48 (sha256Words block))).foldl sha256Round state)

/-- `sha256_init`. -/
def sha256Init : Sha256 where
  state := ⟨0x6a09e667, 0xbb67ae85, 0x3c6ef372, 0xa54ff53a, 0x510e527f, 0x9b05688c, 0x1f83d9ab, 0x5be0cd19⟩
  bitLength := 0
  block := []

/-- `if (ctx->block_length == 64U)`. -/
def Sha256.flush (ctx : Sha256) : Sha256 :=
  if ctx.block.length = 64 then { ctx with state := sha256Transform ctx.state ctx.block, block := [] } else ctx

/-- The loop of `sha256_update`: as much as the block takes at a time. -/
def sha256UpdateLoop : Nat → Sha256 → Bytes → Sha256
  | 0, ctx, _ => ctx
  | fuel + 1, ctx, data =>
    if data.length = 0 then ctx
    else
      let copied := min (64 - ctx.block.length) data.length
      let ctx : Sha256 := ⟨ctx.state, (ctx.bitLength + copied * 8) % 2 ^ 64, ctx.block ++ data.take copied⟩
      sha256UpdateLoop fuel ctx.flush (data.drop copied)

/-- `sha256_update`. -/
def sha256Update (ctx : Sha256) (data : Bytes) : Sha256 := sha256UpdateLoop data.length ctx data

/-- The loop of `sha256_final`: zeros up to the 56th byte. -/
def sha256PadLoop : Nat → Sha256 → Sha256
  | 0, ctx => ctx
  | fuel + 1, ctx =>
    if ctx.block.length = 56 then ctx
    else sha256PadLoop fuel { ctx.flush with block := ctx.flush.block ++ [0] }

/-- `sha256_final`. -/
def sha256Final (ctx : Sha256) : Bytes :=
  let ctx := sha256PadLoop 64 { ctx with block := ctx.block ++ [0x80] }
  let length := (List.range 8).map fun i => UInt8.ofNat ((ctx.bitLength >>> (56 - i * 8)) &&& 0xff)
  (sha256Transform ctx.state (ctx.block ++ length)).words.flatMap wordBytes

/-- The digest of a component that is read in pieces. -/
def sha256Digest (pieces : List Bytes) : Bytes := sha256Final (pieces.foldl sha256Update sha256Init)

end SegmentV2

/-! ## Compression -/

/-- The words of a state, for the standard. -/
def ShaWords.toState (s : ShaWords) : Sha2.State := ⟨s.a, s.b, s.c, s.d, s.e, s.f, s.g, s.h⟩

theorem ShaWords.toState_add (s t : ShaWords) : (s.add t).toState = s.toState.add t.toState := rfl

theorem shaConstants_eq : shaConstants = Sha2.constants := by
  rw [Sha2.constants, Sha2.primes_eq_minFac]
  decide +kernel

theorem sha256Constants_eq : SegmentV2.sha256Constants = Sha2.constants := by
  rw [← shaConstants_eq]
  decide +kernel

theorem shaInit_eq : shaInit.state.toState = Sha2.initial := by
  rw [Sha2.initial, Sha2.primes_eq_minFac]
  decide +kernel

theorem sha256Init_eq : SegmentV2.sha256Init.state.toState = Sha2.initial := by
  rw [← shaInit_eq]
  decide +kernel

theorem sha256Words_eq (block : Bytes) : SegmentV2.sha256Words block = (List.range 16).map (Sha2.word block) := by
  refine List.map_congr_left fun t _ => ?_
  rw [Sha2.word, Nat.mul_comm t 4]
  rfl

theorem blockWords_eq {n : Nat} {block : Bytes} (h : block.length = 4 * n) :
    blockWords block = (List.range n).map (Sha2.word block) := by
  induction n generalizing block with
  | zero =>
    rw [List.length_eq_zero_iff.mp h]
    rfl
  | succ n ih =>
    obtain _ | ⟨b₀, _ | ⟨b₁, _ | ⟨b₂, _ | ⟨b₃, rest⟩⟩⟩⟩ := block
    · exact absurd h (by simp)
    · exact absurd h (by simp; omega)
    · exact absurd h (by simp; omega)
    · exact absurd h (by simp; omega)
    · have hrest : rest.length = 4 * n := by
        simp only [List.length_cons] at h
        omega
      have hnext : ∀ t, Sha2.word (b₀ :: b₁ :: b₂ :: b₃ :: rest) (t + 1) = Sha2.word rest t := fun _ => rfl
      rw [blockWords, ih hrest, List.range_succ_eq_map, List.map_cons, List.map_map]
      exact congrArg _ (List.map_congr_left fun t _ => (hnext t).symm)

theorem getD_schedule {m : Nat → UInt32} {i j : Nat} (h : j < i) :
    ((List.range i).map (Sha2.schedule m)).getD j 0 = Sha2.schedule m j := by
  rw [List.getD_eq_getElem?_getD, List.getElem?_map, List.getElem?_range h]
  rfl

theorem map_schedule_succ {m : Nat → UInt32} {i : Nat} (h : 16 ≤ i) :
    (List.range (i + 1)).map (Sha2.schedule m) = (List.range i).map (Sha2.schedule m) ++
      [Sha2.schedule m (i - 16) + Sha2.smallSigma0 (Sha2.schedule m (i - 15)) + Sha2.schedule m (i - 7) +
        Sha2.smallSigma1 (Sha2.schedule m (i - 2))] := by
  have hnext : Sha2.schedule m i = Sha2.schedule m (i - 16) + Sha2.smallSigma0 (Sha2.schedule m (i - 15)) +
      Sha2.schedule m (i - 7) + Sha2.smallSigma1 (Sha2.schedule m (i - 2)) := by
    rw [Sha2.schedule, if_neg (Nat.not_lt.mpr h)]
    ac_rfl
  rw [List.range_succ, List.map_append, List.map_singleton, hnext]

theorem scheduleLoop_eq {m : Nat → UInt32} {n i : Nat} (h : 16 ≤ i) :
    scheduleLoop n ((List.range i).map (Sha2.schedule m)) = (List.range (i + n)).map (Sha2.schedule m) := by
  induction n generalizing i with
  | zero => rfl
  | succ n ih =>
    rw [scheduleLoop, List.length_map, List.length_range]
    rw [getD_schedule (by omega), getD_schedule (by omega), getD_schedule (by omega), getD_schedule (by omega),
      Nat.add_succ, ← Nat.succ_add, ← ih (Nat.le_succ_of_le h)]
    exact congrArg _ (map_schedule_succ h).symm

theorem sha256Extend_eq {m : Nat → UInt32} {n i : Nat} (h : 16 ≤ i) :
    SegmentV2.sha256Extend n ((List.range i).map (Sha2.schedule m)) = (List.range (i + n)).map (Sha2.schedule m) := by
  induction n generalizing i with
  | zero => rfl
  | succ n ih =>
    rw [SegmentV2.sha256Extend, List.length_map, List.length_range]
    dsimp only
    rw [getD_schedule (by omega), getD_schedule (by omega), getD_schedule (by omega), getD_schedule (by omega),
      Nat.add_succ, ← Nat.succ_add, ← ih (Nat.le_succ_of_le h)]
    exact congrArg _ (map_schedule_succ h).symm

/-- The first words of the schedule are those of the block. -/
theorem map_word_eq (block : Bytes) :
    (List.range 16).map (Sha2.word block) = (List.range 16).map (Sha2.schedule (Sha2.word block)) := by
  refine List.map_congr_left fun t ht => ?_
  rw [Sha2.schedule, if_pos (List.mem_range.mp ht)]

/-- The rounds over a table and a schedule of 64 words. -/
theorem foldl_rounds {round : ShaWords → UInt32 × UInt32 → ShaWords}
    (hround : ∀ s k w, (round s (k, w)).toState = Sha2.round s.toState k w) (w : Nat → UInt32) (s : ShaWords) :
    ((Sha2.constants.zip ((List.range 64).map w)).foldl round s).toState =
      (List.range 64).foldl (fun s t => Sha2.round s (Sha2.constants.getD t 0) (w t)) s.toState := by
  have hconstants : Sha2.constants = (List.range 64).map fun t => Sha2.constants.getD t 0 := by
    rw [← shaConstants_eq]
    decide +kernel
  have hfold : ∀ (l : List Nat) (s : ShaWords),
      ((l.map fun t => (Sha2.constants.getD t 0, w t)).foldl round s).toState =
        l.foldl (fun s t => Sha2.round s (Sha2.constants.getD t 0) (w t)) s.toState := by
    intro l
    induction l with
    | nil => exact fun _ => rfl
    | cons t l ih =>
      intro s
      rw [List.map_cons, List.foldl_cons, ih, hround, List.foldl_cons]
  rw [← hfold, ← List.zip_map', ← hconstants]

theorem shaTransform_eq (s : ShaWords) {block : Bytes} (h : block.length = 64) :
    (shaTransform s block).toState = Sha2.compress s.toState block := by
  rw [shaTransform, ShaWords.toState_add, blockWords_eq (n := 16) h, map_word_eq, scheduleLoop_eq (Nat.le_refl 16),
    shaConstants_eq, foldl_rounds fun _ _ _ => rfl]
  rfl

theorem sha256Transform_eq (s : ShaWords) (block : Bytes) :
    (SegmentV2.sha256Transform s block).toState = Sha2.compress s.toState block := by
  rw [SegmentV2.sha256Transform, ShaWords.toState_add, sha256Words_eq, map_word_eq, sha256Extend_eq (Nat.le_refl 16),
    sha256Constants_eq, foldl_rounds fun _ _ _ => rfl]
  rfl

/-! ## The stream of `yappo_segment_v2.c` -/

namespace SegmentV2

/-- The state after a message. -/
structure Sha256.Streamed (m : Bytes) (ctx : Sha256) : Prop where
  absorbed : Sha2.Absorbed m ctx.state.toState ctx.block
  room : ctx.block.length < 64
  bits : ctx.bitLength = 8 * m.length % 2 ^ 64

theorem streamed_init : sha256Init.Streamed [] where
  absorbed := by
    rw [sha256Init_eq]
    exact Sha2.absorbed_nil
  room := by decide
  bits := rfl

@[simp] theorem Sha256.flush_bitLength (ctx : Sha256) : ctx.flush.bitLength = ctx.bitLength := by
  rw [flush]
  split <;> rfl

theorem Sha256.flush_spec {m : Bytes} (ctx : Sha256) (h : Sha2.Absorbed m ctx.state.toState ctx.block)
    (hle : ctx.block.length ≤ 64) :
    Sha2.Absorbed m ctx.flush.state.toState ctx.flush.block ∧ ctx.flush.block.length < 64 := by
  rw [flush]
  split
  · rename_i hfull
    rw [sha256Transform_eq]
    exact ⟨h.compress hfull, Nat.succ_pos 63⟩
  · rename_i hfull
    exact ⟨h, Nat.lt_of_le_of_ne hle hfull⟩

theorem sha256UpdateLoop_spec {fuel : Nat} {m data : Bytes} {ctx : Sha256} (h : ctx.Streamed m)
    (hfuel : data.length ≤ fuel) : (sha256UpdateLoop fuel ctx data).Streamed (m ++ data) := by
  induction fuel generalizing m data ctx with
  | zero =>
    rw [List.length_eq_zero_iff.mp (Nat.le_zero.mp hfuel), List.append_nil]
    exact h
  | succ fuel ih =>
    rw [sha256UpdateLoop]
    split
    · rename_i hdata
      rw [List.length_eq_zero_iff.mp hdata, List.append_nil]
      exact h
    · rename_i hdata
      have hroom := h.room
      dsimp only
      generalize hcopied : min (64 - ctx.block.length) data.length = copied
      have htaken : (data.take copied).length = copied := by
        rw [List.length_take]
        omega
      have hle : (ctx.block ++ data.take copied).length ≤ 64 := by
        rw [List.length_append, htaken]
        omega
      obtain ⟨habsorbed, hnext⟩ := Sha256.flush_spec
        ⟨ctx.state, (ctx.bitLength + copied * 8) % 2 ^ 64, ctx.block ++ data.take copied⟩
        (h.absorbed.append (data.take copied)) hle
      have hbits : (ctx.bitLength + copied * 8) % 2 ^ 64 = 8 * (m ++ data.take copied).length % 2 ^ 64 := by
        rw [h.bits, List.length_append, htaken, Nat.mod_add_mod]
        congr 1
        omega
      have hrest : (data.drop copied).length ≤ fuel := by
        rw [List.length_drop]
        omega
      have hstep := ih ⟨habsorbed, hnext, by rw [Sha256.flush_bitLength, hbits]⟩ hrest
      rwa [List.append_assoc, List.take_append_drop] at hstep

/-- **A message in pieces.** -/
theorem foldl_sha256Update {m : Bytes} {ctx : Sha256} (h : ctx.Streamed m) (pieces : List Bytes) :
    (pieces.foldl sha256Update ctx).Streamed (m ++ pieces.flatten) := by
  induction pieces generalizing m ctx with
  | nil =>
    rw [List.flatten_nil, List.append_nil]
    exact h
  | cons piece pieces ih =>
    rw [List.foldl_cons, List.flatten_cons, ← List.append_assoc]
    exact ih (sha256UpdateLoop_spec h (Nat.le_refl _))

/-- The loop over the zeros ends at the 56th byte. -/
theorem sha256PadLoop_spec (fuel : Nat) {n : Nat} {m : Bytes} (ctx : Sha256) (h : Sha2.Absorbed m ctx.state.toState ctx.block)
    (hle : ctx.block.length ≤ 64) (hn : (ctx.block.length + n) % 64 = 56) (hlt : n < 64) (hfuel : n ≤ fuel) :
    ∃ out, sha256PadLoop fuel ctx = out ∧ Sha2.Absorbed (m ++ List.replicate n 0) out.state.toState out.block ∧
      out.block.length = 56 ∧ out.bitLength = ctx.bitLength := by
  induction n generalizing fuel m ctx with
  | zero =>
    have hlength : ctx.block.length = 56 := by omega
    refine ⟨ctx, ?_, ?_, hlength, rfl⟩
    · cases fuel with
      | zero => rfl
      | succ fuel => rw [sha256PadLoop, if_pos hlength]
    · rw [List.replicate_zero, List.append_nil]
      exact h
  | succ n ih =>
    obtain ⟨fuel, rfl⟩ : ∃ k, fuel = k + 1 := ⟨fuel - 1, by omega⟩
    obtain ⟨habsorbed, hroom⟩ := Sha256.flush_spec ctx h hle
    have hflushed := habsorbed.length_mod.symm.trans h.length_mod
    have hlength : (ctx.flush.block ++ [0]).length = ctx.flush.block.length + 1 := List.length_append
    obtain ⟨out, hout, habs, h56, hbits⟩ := ih fuel
      { ctx.flush with block := ctx.flush.block ++ [0] } (habsorbed.append [0])
      (by rw [hlength]; omega) (by rw [hlength]; omega) (by omega) (by omega)
    refine ⟨out, ?_, ?_, h56, ?_⟩
    · rw [sha256PadLoop, if_neg (by omega)]
      exact hout
    · rwa [List.append_assoc, List.singleton_append, ← List.replicate_succ] at habs
    · rw [hbits]
      exact ctx.flush_bitLength

theorem lengthBytes_shift (n : Nat) :
    ((List.range 8).map fun i => UInt8.ofNat ((n >>> (56 - i * 8)) &&& 0xff)) = Sha2.lengthBytes n := by
  refine List.map_congr_left fun i hi => ?_
  have hi : i < 8 := List.mem_range.mp hi
  have hpower : 2 ^ (56 - i * 8) = 256 ^ (7 - i) := by
    rw [show 256 = 2 ^ 8 by rfl, ← Nat.pow_mul]
    congr 1
    omega
  apply UInt8.toNat_inj.mp
  rw [UInt8.toNat_ofNat', UInt8.toNat_ofNat', Nat.shiftRight_eq_div_pow, hpower, show 0xff = 2 ^ 8 - 1 by rfl,
    Nat.and_two_pow_sub_one_eq_mod]
  exact Nat.mod_mod _ _

theorem sha256Final_eq {m : Bytes} {ctx : Sha256} (h : ctx.Streamed m) (hm : m.length < 2 ^ 61) :
    sha256Final ctx = Sha2.digest m := by
  have hroom := h.room
  have hlength : (ctx.block ++ [0x80]).length = ctx.block.length + 1 := List.length_append
  have hmod := h.absorbed.length_mod
  have hzeros : Sha2.padZeros m.length < 64 := Nat.mod_lt _ (by decide)
  obtain ⟨out, hout, habsorbed, h56, hbits⟩ := sha256PadLoop_spec 64 (n := Sha2.padZeros m.length)
    { ctx with block := ctx.block ++ [0x80] } (h.absorbed.append [0x80]) (by rw [hlength]; omega)
    (by rw [hlength, Sha2.padZeros]; omega) hzeros (Nat.le_of_lt hzeros)
  rw [List.append_assoc, List.singleton_append] at habsorbed
  rw [sha256Final, hout, Sha2.digest_of_absorbed habsorbed hzeros h56, ← sha256Transform_eq]
  have hlengthBits : 8 * m.length % 2 ^ 64 = 8 * m.length := Nat.mod_eq_of_lt (by omega)
  rw [hbits, lengthBytes_shift, h.bits, hlengthBits]
  rfl

end SegmentV2

/-! ## The stream of `yappo_config_v2.c` -/

/-- The state after a message. -/
structure ShaContext.Streamed (m : Bytes) (ctx : ShaContext) : Prop where
  absorbed : Sha2.Absorbed m ctx.state.toState ctx.block
  room : ctx.block.length < 64

theorem ShaContext.Streamed.push {m : Bytes} {ctx : ShaContext} (h : ctx.Streamed m) (b : UInt8) :
    (ctx.push b).Streamed (m ++ [b]) := by
  have hroom := h.room
  have hlength : (ctx.block ++ [b]).length = ctx.block.length + 1 := List.length_append
  rw [ShaContext.push]
  split
  · rename_i hfull
    have htransform := shaTransform_eq ctx.state (hlength.trans hfull)
    refine ⟨?_, Nat.succ_pos 63⟩
    rw [htransform]
    exact (h.absorbed.append [b]).compress (hlength.trans hfull)
  · refine ⟨h.absorbed.append [b], ?_⟩
    rw [hlength]
    omega

@[simp] theorem ShaContext.push_bitCount (ctx : ShaContext) (b : UInt8) : (ctx.push b).bitCount = ctx.bitCount := by
  rw [push]
  split <;> rfl

theorem foldl_push {m : Bytes} (data : Bytes) {ctx : ShaContext} (h : ctx.Streamed m) :
    (data.foldl ShaContext.push ctx).Streamed (m ++ data) ∧
      (data.foldl ShaContext.push ctx).bitCount = ctx.bitCount := by
  induction data generalizing m ctx with
  | nil =>
    rw [List.append_nil]
    exact ⟨h, rfl⟩
  | cons b data ih =>
    obtain ⟨hstream, hbits⟩ := ih (h.push b)
    rw [List.append_assoc, List.singleton_append] at hstream
    rw [List.foldl_cons]
    exact ⟨hstream, hbits.trans (ctx.push_bitCount b)⟩

theorem reverse_leBytes (n : Nat) : (leBytes 8 n).reverse = Sha2.lengthBytes n := by
  simp [leBytes, Sha2.lengthBytes, List.range_succ, Nat.div_div_eq_div_mul]

theorem length_zeroFill (block : Bytes) {n : Nat} (h : block.length ≤ n) : (zeroFill block n).length = n := by
  rw [zeroFill, List.length_append, List.length_replicate]
  omega

theorem shaFinal_eq {m : Bytes} {ctx : ShaContext} (h : ctx.Streamed m) (hbits : ctx.bitCount = 8 * m.length) :
    shaFinal ctx = Sha2.digest m := by
  have hroom := h.room
  have hlength : (ctx.block ++ [0x80]).length = ctx.block.length + 1 := List.length_append
  have hmark := h.absorbed.append [0x80]
  have hend : ∀ (s : ShaWords) (block : Bytes), block.length = 56 →
      (shaTransform s (block ++ (leBytes 8 ctx.bitCount).reverse)).words =
        (Sha2.compress s.toState (block ++ Sha2.lengthBytes (8 * m.length))).words := by
    intro s block hblock
    rw [← hbits, ← reverse_leBytes, ← shaTransform_eq]
    · rfl
    · rw [List.length_append, hblock, reverse_leBytes]
      rfl
  rw [shaFinal]
  dsimp only
  split
  · rename_i hlong
    -- the mark fills the block so far that the length goes into another one
    have hfill := length_zeroFill (ctx.block ++ [0x80]) (n := 64) (by omega)
    have hblock : Sha2.Absorbed (m ++ [0x80] ++ List.replicate (64 - (ctx.block ++ [0x80]).length) 0) ctx.state.toState
        (zeroFill (ctx.block ++ [0x80]) 64) := hmark.append _
    have habsorbed := (hblock.compress hfill).append (List.replicate 56 0)
    rw [← shaTransform_eq _ hfill, List.append_assoc, List.append_assoc, List.replicate_append_replicate,
      List.singleton_append, List.nil_append] at habsorbed
    rw [hend _ _ (length_zeroFill _ (Nat.zero_le _)),
      Sha2.digest_of_absorbed habsorbed (by omega) List.length_replicate]
    rfl
  · rename_i hlong
    have hfill := length_zeroFill (ctx.block ++ [0x80]) (n := 56) (by omega)
    have habsorbed := hmark.append (List.replicate (56 - (ctx.block ++ [0x80]).length) 0)
    rw [List.append_assoc, List.singleton_append] at habsorbed
    rw [hend _ _ hfill, Sha2.digest_of_absorbed habsorbed (by omega) hfill]
    rfl

theorem sha256Bytes_eq {m : Bytes} (hm : m.length < 2 ^ 61) : sha256Bytes m = Sha2.digest m := by
  have hinit : (⟨shaInit.state, (0 + m.length * 8) % 2 ^ 64, []⟩ : ShaContext).Streamed [] := by
    refine ⟨?_, Nat.succ_pos 63⟩
    rw [shaInit_eq]
    exact Sha2.absorbed_nil
  obtain ⟨hstream, hbits⟩ := foldl_push m hinit
  refine shaFinal_eq hstream ?_
  rw [shaUpdate]
  refine hbits.trans ?_
  show (0 + m.length * 8) % 2 ^ 64 = 8 * m.length
  omega

/-! ## The agreement -/

/-- **Both give the digest of FIPS 180-4**, whatever pieces the bytes come in. -/
theorem sha256_agree (pieces : List Bytes) (h : pieces.flatten.length < 2 ^ 61) :
    SegmentV2.sha256Digest pieces = Sha2.digest pieces.flatten ∧
      sha256Bytes pieces.flatten = Sha2.digest pieces.flatten :=
  ⟨SegmentV2.sha256Final_eq (SegmentV2.foldl_sha256Update SegmentV2.streamed_init pieces) h, sha256Bytes_eq h⟩

/-- A message of 64 bytes in two pieces. -/
theorem sha256_agree_sample :
    SegmentV2.sha256Digest [List.replicate 55 97, List.replicate 9 98] =
      sha256Bytes (List.replicate 55 97 ++ List.replicate 9 98) := by
  obtain ⟨hstream, hbytes⟩ := sha256_agree [List.replicate 55 97, List.replicate 9 98] (by decide)
  exact hstream.trans hbytes.symm

end Yappod

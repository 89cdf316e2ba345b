import Yappod.Config.Fingerprint
import Yappod.Lib.Codec

/-!
# SHA-256

The hash of `yappo_config_v2.c`, with its state, its block that fills up and its padding.  The rest of the project
only uses that a digest has 32 bytes (`length_sha256Bytes`); where a collision would matter, the statements say so.
-/

set_option autoImplicit false

namespace Yappod

/-- The eight words of a state. -/
structure ShaWords where
  a : UInt32
  b : UInt32
  c : UInt32
  d : UInt32
  e : UInt32
  f : UInt32
  g : UInt32
  h : UInt32
  deriving DecidableEq

namespace ShaWords

def words (s : ShaWords) : List UInt32 := [s.a, s.b, s.c, s.d, s.e, s.f, s.g, s.h]

def add (s t : ShaWords) : ShaWords :=
  ⟨s.a + t.a, s.b + t.b, s.c + t.c, s.d + t.d, s.e + t.e, s.f + t.f, s.g + t.g, s.h + t.h⟩

end ShaWords

/-- The table `k` of `sha_transform`. -/
def shaConstants : List UInt32 := [
  0x428a2f98, 0x71374491, 0xb5c0fbcf, 0xe9b5dba5, 0x3956c25b, 0x59f111f1, 0x923f82a4, 0xab1c5ed5,
  0xd807aa98, 0x12835b01, 0x243185be, 0x550c7dc3, 0x72be5d74, 0x80deb1fe, 0x9bdc06a7, 0xc19bf174,
  0xe49b69c1, 0xefbe4786, 0x0fc19dc6, 0x240ca1cc, 0x2de92c6f, 0x4a7484aa, 0x5cb0a9dc, 0x76f988da,
  0x983e5152, 0xa831c66d, 0xb00327c8, 0xbf597fc7, 0xc6e00bf3, 0xd5a79147, 0x06ca6351, 0x14292967,
  0x27b70a85, 0x2e1b2138, 0x4d2c6dfc, 0x53380d13, 0x650a7354, 0x766a0abb, 0x81c2c92e, 0x92722c85,
  0xa2bfe8a1, 0xa81a664b, 0xc24b8b70, 0xc76c51a3, 0xd192e819, 0xd6990624, 0xf40e3585, 0x106aa070,
  0x19a4c116, 0x1e376c08, 0x2748774c, 0x34b0bcb5, 0x391c0cb3, 0x4ed8aa4a, 0x5b9cca4f, 0x682e6ff3,
  0x748f82ee, 0x78a5636f, 0x84c87814, 0x8cc70208, 0x90befffa, 0xa4506ceb, 0xbef9a3f7, 0xc67178f2]

def rotateRight (value count : UInt32) : UInt32 := (value >>> count) ||| (value <<< (32 - count))

/-- The first sixteen words of the schedule: the block, four bytes a word. -/
def blockWords : Bytes → List UInt32
  | b₀ :: b₁ :: b₂ :: b₃ :: rest =>
    ((b₀.toUInt32 <<< 24) ||| (b₁.toUInt32 <<< 16) ||| (b₂.toUInt32 <<< 8) ||| b₃.toUInt32) :: blockWords rest
  | _ => []

/-- The rest of the schedule, with the words so far. -/
def scheduleLoop : Nat → List UInt32 → List UInt32
  | 0, w => w
  | n + 1, w =>
    let i := w.length
    let s₀ := rotateRight (w.getD (i - 15) 0) 7 ^^^ rotateRight (w.getD (i - 15) 0) 18 ^^^ (w.getD (i - 15) 0 >>> 3)
    let s₁ := rotateRight (w.getD (i - 2) 0) 17 ^^^ rotateRight (w.getD (i - 2) 0) 19 ^^^ (w.getD (i - 2) 0 >>> 10)
    scheduleLoop n (w ++ [w.getD (i - 16) 0 + s₀ + w.getD (i - 7) 0 + s₁])

/-- One round, with its constant and its word of the schedule. -/
def shaRound (s : ShaWords) (kw : UInt32 × UInt32) : ShaWords :=
  let s₁ := rotateRight s.e 6 ^^^ rotateRight s.e 11 ^^^ rotateRight s.e 25
  let ch := (s.e &&& s.f) ^^^ (~~~s.e &&& s.g)
  let t₁ := s.h + s₁ + ch + kw.1 + kw.2
  let s₀ := rotateRight s.a 2 ^^^ rotateRight s.a 13 ^^^ rotateRight s.a 22
  let maj := (s.a &&& s.b) ^^^ (s.a &&& s.c) ^^^ (s.b &&& s.c)
  ⟨t₁ + (s₀ + maj), s.a, s.b, s.c, s.d + t₁, s.e, s.f, s.g⟩

/-- `sha_transform`, of a block of 64 bytes. -/
def shaTransform (state : ShaWords) (block : Bytes) : ShaWords :=
  state.add ((shaConstants.zip (scheduleLoop 48 (blockWords block))).foldl shaRound state)

/-- `SHA256_CTX`; `block_size` is the length of the block. -/
structure ShaContext where
  state : ShaWords
  bitCount : Nat
  block : Bytes

/-- `sha_init`. -/
def shaInit : ShaContext where
  state := ⟨0x6a09e667, 0xbb67ae85, 0x3c6ef372, 0xa54ff53a, 0x510e527f, 0x9b05688c, 0x1f83d9ab, 0x5be0cd19⟩
  bitCount := 0
  block := []

/-- One byte goes into the block; a full block is worked in. -/
def ShaContext.push (ctx : ShaContext) (b : UInt8) : ShaContext :=
  if ctx.block.length + 1 = 64 then { ctx with state := shaTransform ctx.state (ctx.block ++ [b]), block := [] }
  else { ctx with block := ctx.block ++ [b] }

/-- `sha_update`, whose `memcpy` of as much as the block takes is made byte by byte. -/
def shaUpdate (ctx : ShaContext) (data : Bytes) : ShaContext :=
  data.foldl ShaContext.push { ctx with bitCount := (ctx.bitCount + data.length * 8) % 2 ^ 64 }

/-- The bytes of a word, the highest first. -/
def wordBytes (w : UInt32) : Bytes := [(w >>> 24).toUInt8, (w >>> 16).toUInt8, (w >>> 8).toUInt8, w.toUInt8]

/-- A block filled with zeros up to a length. -/
def zeroFill (block : Bytes) (length : Nat) : Bytes := block ++ List.replicate (length - block.length) 0

/-- `sha_final`: if the length does not fit behind the mark 0x80, it goes into a block of its own. -/
def shaFinal (ctx : ShaContext) : Bytes :=
  let block := ctx.block ++ [0x80]
  let (state, block) :=
    if 56 < block.length then (shaTransform ctx.state (zeroFill block 64), []) else (ctx.state, block)
  (shaTransform state (zeroFill block 56 ++ (leBytes 8 ctx.bitCount).reverse)).words.flatMap wordBytes

/-- `YAP_V2_sha256_bytes`. -/
def sha256Bytes (data : Bytes) : Bytes := shaFinal (shaUpdate shaInit data)

theorem length_sha256Bytes (data : Bytes) : (sha256Bytes data).length = 32 := rfl

example : sha256Bytes (ascii "abc") = [
    0xba, 0x78, 0x16, 0xbf, 0x8f, 0x01, 0xcf, 0xea, 0x41, 0x41, 0x40, 0xde, 0x5d, 0xae, 0x22, 0x23,
    0xb0, 0x03, 0x61, 0xa3, 0x96, 0x17, 0x7a, 0x9c, 0xb4, 0x10, 0xff, 0x61, 0xf2, 0x00, 0x15, 0xad] := by
  decide +kernel

end Yappod

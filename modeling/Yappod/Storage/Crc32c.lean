import Yappod.Lib.Crc
import Yappod.Storage.ManifestCodec

/-!
# The CRCs of the files

`crc32c` is written out in each file that needs it: with a condition, with a mask, with the low byte worked on apart,
and, for the log of an update, with the complement outside.  All of them are the CRC with the polynomial `castagnoli`
(`crc32c_agree`), so a file can be checked by another one's function.
-/

set_option autoImplicit false

open Polynomial

namespace Yappod

/-! ## The loops -/

/-- A loop over the bytes of a file, and the complement. -/
def crc32cLoop (byte : UInt32 → UInt8 → UInt32) (data : Bytes) : UInt32 := ~~~ data.foldl byte 0xffffffff

/-- A bit, with a condition. -/
def conditionalBit (crc : UInt32) : UInt32 := if crc &&& 1 ≠ 0 then (crc >>> 1) ^^^ 0x82f63b78 else crc >>> 1

/-- A bit, with a mask: `(uint32_t)-(int32_t)(crc & 1U)`. -/
def maskBit (crc : UInt32) : UInt32 := (crc >>> 1) ^^^ (0x82f63b78 &&& (-(crc &&& 1).toInt32).toUInt32)

/-- A bit, with a condition on what is added. -/
def selectBit (current : UInt32) : UInt32 := (current >>> 1) ^^^ (if current &&& 1 ≠ 0 then 0x82f63b78 else 0)

def conditionalByte (crc : UInt32) (b : UInt8) : UInt32 := conditionalBit^[8] (crc ^^^ b.toUInt32)

def maskByte (crc : UInt32) (b : UInt8) : UInt32 := maskBit^[8] (crc ^^^ b.toUInt32)

/-- A byte, with the low byte of the register worked on apart. -/
def apartByte (crc : UInt32) (b : UInt8) : UInt32 := (crc >>> 8) ^^^ selectBit^[8] ((crc ^^^ b.toUInt32) &&& 0xff)

/-- `crc32c` of `yappo_segment_v2.c`. -/
def SegmentV2.crc32c : Bytes → UInt32 := crc32cLoop conditionalByte

/-- `crc32c` of `yappo_lexical_v2.c`. -/
def LexicalV2.crc32c : Bytes → UInt32 := crc32cLoop conditionalByte

/-- `crc32c` of `yappo_lexical_reader_v2.c`. -/
def LexicalReaderV2.crc32c : Bytes → UInt32 := crc32cLoop conditionalByte

/-- `crc32c` of `yappo_vector_v2.c`. -/
def VectorV2.crc32c : Bytes → UInt32 := crc32cLoop conditionalByte

/-- `crc32c` of `yappo_metadata_v2.c`. -/
def MetadataV2.crc32c : Bytes → UInt32 := crc32cLoop conditionalByte

/-- `crc32c` of `yappo_manifest_v2.c`. -/
def ManifestV2.crc32c : Bytes → UInt32 := crc32cLoop maskByte

/-- `crc32c` of `yappo_ann_corpus_v2.c`. -/
def AnnCorpusV2.crc32c : Bytes → UInt32 := crc32cLoop apartByte

/-- `crc32c_update` of `yappo_update_wal_v2.c`. -/
def crc32cUpdate (crc : UInt32) (data : Bytes) : UInt32 := data.foldl maskByte crc

/-- What is stored for a log whose payload is written, or read, in pieces. -/
def UpdateWalV2.crc32c (pieces : List Bytes) : UInt32 := ~~~ pieces.foldl crc32cUpdate 0xffffffff

/-! ## The CRC -/

/-- The polynomial of Castagnoli. -/
noncomputable def castagnoli : (ZMod 2)[X] :=
  X ^ 32 + X ^ 28 + X ^ 27 + X ^ 26 + X ^ 25 + X ^ 23 + X ^ 22 + X ^ 20 + X ^ 19 + X ^ 18 + X ^ 14 + X ^ 13 + X ^ 11 +
    X ^ 10 + X ^ 9 + X ^ 8 + X ^ 6 + 1

/-- The bits of a byte, the lowest first. -/
def byteBits (b : UInt8) : List Bool := (List.range 8).map b.toBitVec.getLsbD

/-- The reflected CRC with the polynomial of Castagnoli. -/
noncomputable def castagnoliCrc (data : Bytes) : UInt32 := ⟨Crc.crc 32 castagnoli (data.flatMap byteBits)⟩

theorem generator_eq_castagnoli : Crc.generator (0x82f63b78 : BitVec 32) = castagnoli := by
  simp [Crc.generator, Crc.regPoly, Finset.sum_range_succ, BitVec.getMsbD, castagnoli]
  ring

/-! ## The bits -/

theorem low_bit (c : UInt32) : c &&& 1 = if c.toBitVec.getLsbD 0 then 1 else 0 := by
  apply UInt32.toBitVec_inj.mp
  rw [UInt32.toBitVec_and]
  show c.toBitVec &&& 1#32 = _
  rw [BitVec.and_one_eq_setWidth_ofBool_getLsbD]
  cases c.toBitVec.getLsbD 0 <;> rfl

theorem toBitVec_conditionalBit (c : UInt32) :
    (conditionalBit c).toBitVec = Crc.crcShift 0x82f63b78 c.toBitVec := by
  rw [conditionalBit, Crc.crcShift, low_bit]
  cases c.toBitVec.getLsbD 0 <;> rfl

theorem maskBit_eq : maskBit = conditionalBit := by
  funext c
  rw [maskBit, conditionalBit, low_bit]
  cases c.toBitVec.getLsbD 0
  · exact UInt32.xor_zero
  · rfl

theorem selectBit_eq : selectBit = conditionalBit := by
  funext c
  rw [selectBit, conditionalBit]
  split
  · rfl
  · exact UInt32.xor_zero

/-! ## The bytes -/

theorem toBitVec_iterate (n : Nat) (c : UInt32) :
    (conditionalBit^[n] c).toBitVec = (Crc.crcShift 0x82f63b78)^[n] c.toBitVec := by
  induction n generalizing c with
  | zero => rfl
  | succ n ih => rw [Function.iterate_succ_apply, Function.iterate_succ_apply, ih, toBitVec_conditionalBit]

theorem getLsbD_toUInt32 (b : UInt8) {i : Nat} (hi : 8 ≤ i) : b.toUInt32.toBitVec.getLsbD i = false := by
  rw [UInt8.toBitVec_toUInt32, BitVec.getLsbD_setWidth, BitVec.getLsbD_of_ge _ i hi, Bool.and_false]

theorem toBitVec_conditionalByte (c : UInt32) (b : UInt8) :
    (conditionalByte c b).toBitVec = (byteBits b).foldl (Crc.crcBit 0x82f63b78) c.toBitVec := by
  have hbits : byteBits b = (List.range 8).map b.toUInt32.toBitVec.getLsbD := by
    refine List.map_congr_left fun i hi => ?_
    have hi : i < 32 := Nat.lt_trans (List.mem_range.mp hi) (by decide)
    rw [UInt8.toBitVec_toUInt32, BitVec.getLsbD_setWidth, decide_eq_true hi, Bool.true_and]
  rw [conditionalByte, toBitVec_iterate, UInt32.toBitVec_xor, hbits,
    Crc.iterate_crcShift_xor _ _ _ fun i hi => getLsbD_toUInt32 b hi]

theorem maskByte_eq : maskByte = conditionalByte := by
  funext c b
  rw [maskByte, maskBit_eq, conditionalByte]

theorem apartByte_eq : apartByte = conditionalByte := by
  funext c b
  apply UInt32.toBitVec_inj.mp
  have hlow : ∀ i < 8, ((c ^^^ b.toUInt32) &&& 0xff).toBitVec.getLsbD i = (c ^^^ b.toUInt32).toBitVec.getLsbD i := by
    intro i hi
    rw [UInt32.toBitVec_and, BitVec.getLsbD_and]
    have hmask : ∀ i < 8, (0xff : UInt32).toBitVec.getLsbD i = true := by decide
    rw [hmask i hi, Bool.and_true]
  have hhigh : ((c ^^^ b.toUInt32) &&& 0xff).toBitVec >>> 8 = 0#32 := by
    rw [UInt32.toBitVec_and, BitVec.ushiftRight_and_distrib]
    show _ &&& 0#32 = 0#32
    exact BitVec.and_zero
  have hbyte : b.toUInt32.toBitVec >>> 8 = 0#32 := by
    refine BitVec.eq_of_getLsbD_eq fun i _ => ?_
    rw [BitVec.getLsbD_ushiftRight, getLsbD_toUInt32 b (by omega), BitVec.getLsbD_zero]
  rw [apartByte, selectBit_eq, conditionalByte, UInt32.toBitVec_xor, toBitVec_iterate, toBitVec_iterate,
    Crc.iterate_crcShift_low _ (c ^^^ b.toUInt32).toBitVec _ hlow hhigh, UInt32.toBitVec_xor,
    BitVec.ushiftRight_xor_distrib, hbyte, BitVec.xor_zero, BitVec.xor_comm]
  rfl

theorem crc32cByte_eq : crc32cByte = conditionalByte := by
  funext c b
  have hbit : (fun (x : UInt32) (_ : Nat) => (x >>> 1) ^^^ (if x &&& 1 = 1 then 0x82f63b78 else 0)) =
      fun x _ => conditionalBit x := by
    funext x _
    rw [← selectBit_eq, selectBit, low_bit]
    cases x.toBitVec.getLsbD 0 <;> rfl
  rw [crc32cByte, hbit, conditionalByte]
  rfl

/-! ## The agreement -/

theorem toBitVec_foldl (data : Bytes) (c : UInt32) :
    (data.foldl conditionalByte c).toBitVec = (data.flatMap byteBits).foldl (Crc.crcBit 0x82f63b78) c.toBitVec := by
  induction data generalizing c with
  | nil => rfl
  | cons b data ih => rw [List.foldl_cons, ih, toBitVec_conditionalByte, List.flatMap_cons, List.foldl_append]

theorem crc32cLoop_eq (data : Bytes) : crc32cLoop conditionalByte data = castagnoliCrc data := by
  apply UInt32.toBitVec_inj.mp
  rw [crc32cLoop, castagnoliCrc, ← generator_eq_castagnoli, Crc.crc_eq_foldl (by decide), UInt32.toBitVec_not,
    toBitVec_foldl]
  rfl

/-- The log is checked alike, whatever pieces it is written and read in. -/
theorem foldl_crc32cUpdate (pieces : List Bytes) (c : UInt32) :
    pieces.foldl crc32cUpdate c = pieces.flatten.foldl maskByte c := by
  induction pieces generalizing c with
  | nil => rfl
  | cons piece pieces ih => rw [List.foldl_cons, ih, List.flatten_cons, List.foldl_append, crc32cUpdate]

/-- **All the CRCs are the one of Castagnoli.** -/
theorem crc32c_agree (data : Bytes) :
    SegmentV2.crc32c data = castagnoliCrc data ∧ LexicalV2.crc32c data = castagnoliCrc data ∧
      LexicalReaderV2.crc32c data = castagnoliCrc data ∧ VectorV2.crc32c data = castagnoliCrc data ∧
      MetadataV2.crc32c data = castagnoliCrc data ∧ ManifestV2.crc32c data = castagnoliCrc data ∧
      AnnCorpusV2.crc32c data = castagnoliCrc data ∧
      (∀ pieces : List Bytes, UpdateWalV2.crc32c pieces = castagnoliCrc pieces.flatten) ∧
      crc32c data = castagnoliCrc data := by
  have hloop := crc32cLoop_eq data
  have hmask : ∀ bs, crc32cLoop maskByte bs = castagnoliCrc bs := fun bs => by rw [maskByte_eq, crc32cLoop_eq]
  refine ⟨hloop, hloop, hloop, hloop, hloop, hmask data, ?_, ?_, ?_⟩
  · rw [AnnCorpusV2.crc32c, apartByte_eq, hloop]
  · intro pieces
    rw [UpdateWalV2.crc32c, foldl_crc32cUpdate]
    exact hmask pieces.flatten
  · rw [crc32c, crc32cByte_eq]
    exact hloop

example : SegmentV2.crc32c [0x31, 0x32, 0x33, 0x34, 0x35, 0x36, 0x37, 0x38, 0x39] = 0xe3069283 := by decide +kernel

end Yappod

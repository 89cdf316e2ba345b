import Yappod.Components.LexicalAccept

/-!
# The blocks of a term

`validate_payloads` compares the highest frequency and the shortest length of every block record with the
postings the record says it is about.  So the bounds of a block hold for its own postings (`Covers`), which are
the next ones from a multiple of 128 on; it need not be all of them up to the next multiple.
-/

set_option autoImplicit false

namespace Yappod

theorem of_refuse_eq_ok {b : Bool} {u : Unit} (h : refuse b = .ok u) : b = false := by
  rw [refuse] at h
  split at h
  · cases h
  · rwa [Bool.not_eq_true] at *

theorem lt_of_getU32 {data : Bytes} {i v : Nat} (h : getU32 data i = .ok v) : v < 2 ^ 32 := by
  by_cases hi : i + 4 ≤ data.length
  · exact ((within_getU32 hi).2 v h).1
  · rw [getU32, getNumber, if_neg hi] at h
    cases h

/-- The bounds of a block hold for a posting. -/
structure PostingsBlock.Covers (b : PostingsBlock) (p : Posting) : Prop where
  frequency : p.frequency ≤ b.maxTermFrequency
  length : ∀ f : Field, 0 < p.termFrequency.get f.code → b.minFieldLength ≤ p.fieldLength.get f.code

/-- A posting of a document or a passage, with a position for every occurrence. -/
structure Posting.Checked (p : Posting) : Prop where
  objectType : p.objectType = 1 ∨ p.objectType = 2
  frequency : p.frequency = p.positionCount

/-- The posting `j` of a term whose postings begin at `postingData`. -/
def postingIn (postings : Bytes) (postingData j : Nat) : Check Posting :=
  parsePosting postings (postingData + j * postingBytes)

section Loops

variable {maps : LexicalMaps} {totals : LexicalTotals} {postings : Bytes} {postingData : Nat}

theorem blockBounds_eq_ok {n i maxTf minLength : Nat} {bounds : Nat × Nat}
    (h : blockBounds postings postingData n i maxTf minLength = .ok bounds) :
    maxTf ≤ bounds.1 ∧ bounds.2 ≤ minLength ∧ ∀ j, i ≤ j → j < i + n →
      ∃ p, postingIn postings postingData j = .ok p ∧ u32 p.frequency ≤ bounds.1 ∧ bounds.2 ≤ p.shortest := by
  induction n generalizing i maxTf minLength with
  | zero =>
    obtain rfl := Except.ok.inj h
    exact ⟨le_rfl, le_rfl, fun j hij hj => absurd hj (by omega)⟩
  | succ n ih =>
    obtain ⟨p, hp, h⟩ := bind_eq_ok.mp h
    obtain ⟨hmax, hmin, hrest⟩ := ih h
    rw [max_le_iff] at hmax
    rw [le_min_iff] at hmin
    refine ⟨hmax.1, hmin.1, fun j hij hj => ?_⟩
    rcases Nat.eq_or_lt_of_le hij with rfl | hlt
    · exact ⟨p, hp, hmax.2, hmin.2⟩
    · exact hrest j hlt (by omega)

theorem checkPostings_eq_ok {base records n i : Nat} {previous : Option Posting} {u : Unit}
    (h : checkPostings maps totals postingData base records n i previous = .ok u) :
    ∀ j, i ≤ j → j < i + n → ∃ p, postingIn maps.postings postingData j = .ok p ∧ p.Checked := by
  induction n generalizing i previous with
  | zero => exact fun j hij hj => absurd hj (by omega)
  | succ n ih =>
    obtain ⟨p, hp, h⟩ := bind_eq_ok.mp h
    obtain ⟨_, hrefused, h⟩ := bind_eq_ok.mp h
    obtain ⟨_, -, h⟩ := bind_eq_ok.mp h
    obtain ⟨_, -, h⟩ := bind_eq_ok.mp h
    have hkept := of_refuse_eq_ok hrefused
    simp only [Posting.refused, decide_eq_false_iff_not, not_or] at hkept
    obtain ⟨htype, -, -, -, hcount, -⟩ := hkept
    intro j hij hj
    rcases Nat.eq_or_lt_of_le hij with rfl | hlt
    · exact ⟨p, hp, by omega, not_not.mp hcount⟩
    · exact ih h j hlt (by omega)

/-- The record of the block `k` of a term with `count` postings. -/
structure PostingsBlock.Stored (postings : Bytes) (postingData count k : Nat) (b : PostingsBlock) : Prop where
  first : b.firstPosting = k * postingsBlockSize
  pos : 0 < b.postingCount
  le_size : b.postingCount ≤ postingsBlockSize
  le_count : b.firstPosting + b.postingCount ≤ count
  bounds : ∀ j, b.firstPosting ≤ j → j < b.firstPosting + b.postingCount →
    ∃ p, postingIn postings postingData j = .ok p ∧ u32 p.frequency ≤ b.maxTermFrequency ∧
      b.minFieldLength ≤ p.shortest

theorem checkBlocks_eq_ok {blockData count n i : Nat} {u : Unit}
    (hi : (i + n) * postingsBlockSize < 2 ^ 31)
    (h : checkBlocks postings postingData blockData count n i = .ok u) :
    ∀ k, i ≤ k → k < i + n → ∃ b, parseBlock postings (blockData + k * blockBytes) = .ok b ∧
      b.Stored postings postingData count k := by
  induction n generalizing i with
  | zero => exact fun k hik hk => absurd hk (by omega)
  | succ n ih =>
    obtain ⟨b, hb, h⟩ := bind_eq_ok.mp h
    obtain ⟨_, hplace, h⟩ := bind_eq_ok.mp h
    obtain ⟨bounds, hbounds, h⟩ := bind_eq_ok.mp h
    obtain ⟨_, hequal, h⟩ := bind_eq_ok.mp h
    have hplace := of_refuse_eq_ok hplace
    have hequal := of_refuse_eq_ok hequal
    simp only [decide_eq_false_iff_not, not_or, not_not] at hplace hequal
    obtain ⟨hfirst, hpos, hsize, hend⟩ := hplace
    rw [postingsBlockSize] at hfirst hsize hi
    rw [u32_of_lt (by omega)] at hend
    obtain ⟨-, -, hall⟩ := blockBounds_eq_ok hbounds
    rw [← hequal.1, ← hequal.2] at hall
    intro k hik hk
    rcases Nat.eq_or_lt_of_le hik with rfl | hlt
    · exact ⟨b, hb, hfirst, Nat.pos_of_ne_zero hpos, by rw [postingsBlockSize]; omega, by omega, hall⟩
    · exact ih (by rw [postingsBlockSize]; omega) h k hlt (by omega)

end Loops

/-! ## Accepted segments -/

/-- What the validator has found of a term: its postings, and its block records. -/
structure TermEntry.Checked (maps : LexicalMaps) (e : TermEntry) : Prop where
  posting : ∀ j < e.documentFrequency, ∃ p, postingIn maps.postings e.postingData j = .ok p ∧ p.Checked
  block : ∀ k < e.blockCount, ∃ b,
    parseBlock maps.postings (e.postingData + e.documentFrequency * postingBytes + k * blockBytes) = .ok b ∧
      b.Stored maps.postings e.postingData e.documentFrequency k

theorem checkTerm_eq_ok {maps : LexicalMaps} (hsmall : maps.Small) {totals : LexicalTotals}
    {index postingCursor positionCursor records : Nat} (hposting : fileHeaderBytes ≤ postingCursor)
    (hposition : fileHeaderBytes ≤ positionCursor) {e : TermEntry}
    (h : checkTerm maps totals index postingCursor positionCursor e = .ok records) :
    e.Held maps records ∧ e.Checked maps := by
  have hp := hsmall.postings
  have hq := hsmall.positions
  rw [show maxFileBytes = 32 + 2 ^ 28 from rfl] at hp hq
  obtain ⟨_, h₁, h⟩ := bind_eq_ok.mp h
  obtain ⟨ordinal, -, h⟩ := bind_eq_ok.mp h
  obtain ⟨frequency, -, h⟩ := bind_eq_ok.mp h
  obtain ⟨_, -, h⟩ := bind_eq_ok.mp h
  obtain ⟨ordinal', -, h⟩ := bind_eq_ok.mp h
  obtain ⟨_, -, h⟩ := bind_eq_ok.mp h
  obtain ⟨blockCount, hread, h⟩ := bind_eq_ok.mp h
  obtain ⟨count, hcount, h⟩ := bind_eq_ok.mp h
  obtain ⟨_, h₂, h⟩ := bind_eq_ok.mp h
  obtain ⟨_, h₃, h⟩ := bind_eq_ok.mp h
  obtain ⟨_, hpostings, h⟩ := bind_eq_ok.mp h
  obtain ⟨_, hblocks, h⟩ := bind_eq_ok.mp h
  obtain rfl := Except.ok.inj h
  have hread := lt_of_getU32 hread
  have h₁ := of_refuse_eq_ok h₁
  have h₂ := of_refuse_eq_ok h₂
  have h₃ := of_refuse_eq_ok h₃
  simp only [decide_eq_false_iff_not, not_or, not_not, Bool.not_eq_true', Bool.not_eq_false,
    rangeValid_eq_true] at h₁ h₂ h₃
  simp only [uint64Max, postingBytes, blockBytes, postingsBlockSize] at h₂ h₃
  obtain ⟨hpo, hqo, hprange, hqrange, -⟩ := h₁
  obtain ⟨hblockCount, hdf⟩ := h₂
  obtain ⟨hpbytes, hrecords, hqbytes⟩ := h₃
  have hpcursor : postingCursor = fileHeaderBytes + e.postingsOffset := by omega
  have hqcursor : positionCursor = fileHeaderBytes + e.positionsOffset := by omega
  rw [u64_of_lt (by omega)] at hblockCount hqbytes
  rw [u64_of_lt (by omega)] at hpbytes
  have hdata : postingCursor + 20 = e.postingData := by rw [TermEntry.postingData, hpcursor]
  have hblocksEq : blockCount = e.blockCount := hblockCount
  refine ⟨⟨hqcursor ▸ hcount, ?_, hpcursor ▸ hprange, hqbytes, hqcursor ▸ hqrange⟩, ?_, ?_⟩
  · rw [TermEntry.blockCount, postingBytes, blockBytes, postingsBlockSize]
    omega
  · intro j hj
    rw [← hdata]
    exact checkPostings_eq_ok hpostings j (Nat.zero_le j) (by omega)
  · intro k hk
    rw [← hdata]
    refine checkBlocks_eq_ok ?_ hblocks k (Nat.zero_le k) (by omega)
    rw [postingsBlockSize]
    omega

theorem checkTerms_eq_ok {maps : LexicalMaps} (hsmall : maps.Small) {totals : LexicalTotals}
    {es : List TermEntry} {index postingCursor positionCursor postings positions : Nat}
    {result : Nat × Nat × Nat × Nat} (hposting : fileHeaderBytes ≤ postingCursor)
    (hposition : fileHeaderBytes ≤ positionCursor)
    (h : checkTerms maps totals es index postingCursor positionCursor postings positions = .ok result) :
    ∀ e ∈ es, ∃ records, e.Held maps records ∧ e.Checked maps := by
  induction es generalizing index postingCursor positionCursor postings positions with
  | nil => exact fun e he => absurd he List.not_mem_nil
  | cons e es ih =>
    obtain ⟨records, hterm, h⟩ := bind_eq_ok.mp h
    refine List.forall_mem_cons.mpr ⟨⟨records, checkTerm_eq_ok hsmall hposting hposition hterm⟩, ?_⟩
    exact ih (le_trans hposting (Nat.le_add_right _ _)) (le_trans hposition (Nat.le_add_right _ _)) h

/-- **The terms of an accepted segment.** -/
theorem checked_of_open {maps : LexicalMaps} {expectedGeneration : Nat} {s : LexicalSegment}
    (h : lexicalSegmentOpen maps expectedGeneration = .ok s) :
    s.maps.Small ∧ ∀ e ∈ s.terms, ∃ records, e.Held s.maps records ∧ e.Checked s.maps := by
  rw [lexicalSegmentOpen] at h
  split at h
  · cases h
  · rename_i g hg
    have hsmall := small_of_mapComponents hg
    obtain ⟨es, -, h⟩ := bind_eq_ok.mp h
    obtain ⟨totals, hvalid, h⟩ := bind_eq_ok.mp h
    obtain rfl := Except.ok.inj h
    obtain ⟨totals', -, hvalid⟩ := bind_eq_ok.mp hvalid
    obtain ⟨result, hterms, -⟩ := bind_eq_ok.mp hvalid
    exact ⟨hsmall, checkTerms_eq_ok hsmall (Nat.le_add_right _ _) (Nat.le_add_right _ _) hterms⟩

/-! ## Covered postings -/

namespace LexicalSegment

/-- The posting `j` of a term is in the block record that is read for it, and the bounds of that hold for it. -/
structure Covered (s : LexicalSegment) (e : TermEntry) (j : Nat) (p : Posting) (b : PostingsBlock) : Prop where
  posting : s.postingAt e j = .ok p
  block : s.block e (j / postingsBlockSize) = .ok b
  le : b.firstPosting ≤ j
  lt : j < b.firstPosting + b.postingCount
  covers : b.Covers p

/-- Every block record is about as many postings as there are up to the next multiple of the block size. -/
def FullBlocks (s : LexicalSegment) : Prop :=
  ∀ e ∈ s.terms, ∀ k < e.blockCount, ∀ b, s.block e k = .ok b →
    b.postingCount = min postingsBlockSize (e.documentFrequency - k * postingsBlockSize)

section Accepted

variable {maps : LexicalMaps} {expectedGeneration : Nat} {s : LexicalSegment} {e : TermEntry}
  (h : lexicalSegmentOpen maps expectedGeneration = .ok s) (he : e ∈ s.terms)

include h he

theorem postingAt_checked {j : Nat} (hj : j < e.documentFrequency) :
    ∃ p, s.postingAt e j = .ok p ∧ postingIn s.maps.postings e.postingData j = .ok p ∧ p.Checked ∧
      p.positionCount < 2 ^ 32 := by
  obtain ⟨hsmall, hall⟩ := checked_of_open h
  obtain ⟨records, hheld, hchecked⟩ := hall e he
  obtain ⟨p, hp, hgood⟩ := hchecked.posting j hj
  have hend : e.postingData + j * postingBytes + postingBytes ≤ s.maps.postings.length := by
    refine le_trans ?_ hheld.postings
    rw [TermEntry.postingData, hheld.postingsBytes, postingBytes]
    omega
  exact ⟨p, (postingAt_eq hsmall hheld hj).trans hp, hp, hgood, ((within_parsePosting hend).2 p hp).1⟩

theorem block_stored {k : Nat} (hk : k < e.blockCount) :
    ∃ b, s.block e k = .ok b ∧ b.Stored s.maps.postings e.postingData e.documentFrequency k := by
  obtain ⟨hsmall, hall⟩ := checked_of_open h
  obtain ⟨records, hheld, hchecked⟩ := hall e he
  obtain ⟨b, hb, hstored⟩ := hchecked.block k hk
  exact ⟨b, (block_eq hsmall hheld hk).trans hb, hstored⟩

/-- The block record of a posting is there. -/
theorem block_of_posting {j : Nat} (hj : j < e.documentFrequency) :
    ∃ b, s.block e (j / postingsBlockSize) = .ok b ∧
      b.Stored s.maps.postings e.postingData e.documentFrequency (j / postingsBlockSize) := by
  refine block_stored h he ?_
  rw [TermEntry.blockCount, postingsBlockSize]
  omega

theorem checked_of_postingAt {j : Nat} {p : Posting} (hj : j < e.documentFrequency) (hp : s.postingAt e j = .ok p) :
    p.Checked := by
  obtain ⟨q, hq, -, hchecked, -⟩ := postingAt_checked h he hj
  rw [hp] at hq
  obtain rfl := Except.ok.inj hq
  exact hchecked

/-- The postings that a block record is about are covered. -/
theorem covered_of_lt {j : Nat} {b : PostingsBlock} (hj : j < e.documentFrequency)
    (hblock : s.block e (j / postingsBlockSize) = .ok b)
    (hstored : b.Stored s.maps.postings e.postingData e.documentFrequency (j / postingsBlockSize))
    (hlt : j < b.firstPosting + b.postingCount) : ∃ p, s.Covered e j p b := by
  have hfirst : b.firstPosting ≤ j := by
    rw [hstored.first]
    exact Nat.div_mul_le_self _ _
  obtain ⟨p, hp, hread, hchecked, hfew⟩ := postingAt_checked h he hj
  obtain ⟨q, hq, hfrequency, hshortest⟩ := hstored.bounds j hfirst hlt
  rw [hread] at hq
  obtain rfl := Except.ok.inj hq
  rw [u32_of_lt (hchecked.frequency ▸ hfew)] at hfrequency
  exact ⟨p, hp, hblock, hfirst, hlt, hfrequency, (Posting.le_shortest.mp hshortest).2⟩

end Accepted

/-- **Every posting of an accepted segment is covered just when its blocks are full.** -/
theorem covered_iff {maps : LexicalMaps} {expectedGeneration : Nat} {s : LexicalSegment}
    (h : lexicalSegmentOpen maps expectedGeneration = .ok s) :
    (∀ e ∈ s.terms, ∀ j < e.documentFrequency, ∃ p b, s.Covered e j p b) ↔ s.FullBlocks := by
  constructor
  · intro hall e he k hk b hb
    obtain ⟨b', hb', hstored⟩ := block_stored h he hk
    rw [hb] at hb'
    obtain rfl := Except.ok.inj hb'
    have hsize := hstored.le_size
    have hcount := hstored.le_count
    have hpos := hstored.pos
    have hfirst := hstored.first
    rw [postingsBlockSize] at hsize hfirst ⊢
    by_contra hne
    -- the posting after the last one of the block
    have hj : b.firstPosting + b.postingCount < e.documentFrequency := by omega
    obtain ⟨p, b', hcovered⟩ := hall e he _ hj
    have hplace : (b.firstPosting + b.postingCount) / postingsBlockSize = k := by
      rw [postingsBlockSize]
      omega
    have hblock := hcovered.block
    rw [hplace, hb] at hblock
    obtain rfl := Except.ok.inj hblock
    exact lt_irrefl _ hcovered.lt
  · intro hfull e he j hj
    obtain ⟨b, hb, hstored⟩ := block_of_posting h he hj
    have hk : j / postingsBlockSize < e.blockCount := by
      rw [TermEntry.blockCount, postingsBlockSize]
      omega
    have hcount := hfull e he _ hk b hb
    obtain ⟨p, hp⟩ := covered_of_lt h he hj hb hstored (by
      rw [hstored.first, hcount, postingsBlockSize]
      omega)
    exact ⟨p, b, hp⟩

end LexicalSegment

end Yappod

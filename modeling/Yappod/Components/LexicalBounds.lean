import Yappod.Components.LexicalWriter

/-!
# Where the reader of the lexical files looks

`Within c Q` says of a reading `c` that it stays inside the files, and that its result satisfies `Q`.
Each part of `YAP_V2_lexical_segment_open` has one such lemma, built from those of its parts by
`Within.bind`.

Every sum and product that the checks take is small by the time it is used, because the files are, with
one exception: nothing bounds `position_offset + position_count` of a posting before it is compared with
the number of positions of the term.  `NoWrap` says that it is below `2 ^ 64`, and under it the reader
stays inside the files, and an accepted segment gives nothing but positions of the term asked for.
-/

set_option autoImplicit false

namespace Yappod

/-! ## Readings that stay inside -/

/-- The reading does not look outside the files, and a result it has satisfies `Q`. -/
def Within {α : Type} (c : Check α) (Q : α → Prop) : Prop :=
  c ≠ .error .outOfBounds ∧ ∀ a, c = .ok a → Q a

section Within

variable {α β : Type} {c : Check α} {Q R : α → Prop}

theorem Within.mono (h : Within c Q) (hQR : ∀ a, Q a → R a) : Within c R :=
  ⟨h.1, fun a ha => hQR a (h.2 a ha)⟩

/-- What a reading that is inside has for a result, beside what is known of it. -/
theorem Within.result (h : Within c Q) : Within c fun a => Q a ∧ c = .ok a :=
  ⟨h.1, fun a ha => ⟨h.2 a ha, ha⟩⟩

theorem within_ok {a : α} (h : Q a) : Within (.ok a) Q := by
  refine ⟨fun he => ?_, fun b hb => ?_⟩
  · cases he
  · cases hb
    exact h

theorem within_status (s : Status) : Within (.error (.status s)) Q := by
  refine ⟨fun he => ?_, fun b hb => ?_⟩
  · simp at he
  · cases hb

theorem Within.bind {f : α → Check β} {S : β → Prop} (h : Within c Q)
    (hf : ∀ a, Q a → Within (f a) S) : Within (c >>= f) S := by
  cases c with
  | error e =>
    refine ⟨fun he => h.1 ?_, fun b hb => ?_⟩
    · injection he with he
      rw [he]
    · cases hb
  | ok a => exact hf a (h.2 a rfl)

theorem within_refuse (b : Bool) : Within (refuse b) fun _ => b = false := by
  cases b with
  | false => exact within_ok rfl
  | true => exact within_status _

theorem getNumber_eq_ok {width i : Nat} {data : Bytes} (h : i + width ≤ data.length) :
    ∃ v, getNumber width data i = .ok v := ⟨_, if_pos h⟩

theorem getU32_eq_ok {i : Nat} (data : Bytes) (h : i + 4 ≤ data.length) :
    ∃ v, getU32 data i = .ok v := getNumber_eq_ok h

theorem within_getNumber {width i : Nat} {data : Bytes} (h : i + width ≤ data.length) :
    Within (getNumber width data i) fun v => v < 256 ^ width ∧ getNumber width data i = .ok v := by
  rw [getNumber, if_pos h]
  refine within_ok ⟨?_, rfl⟩
  have hlen : ((data.drop i).take width).length = width := by
    rw [List.length_take, List.length_drop]
    omega
  have hlt := leValue_lt ((data.drop i).take width)
  rwa [hlen] at hlt

theorem within_getU32 {i : Nat} {data : Bytes} (h : i + 4 ≤ data.length) :
    Within (getU32 data i) fun v => v < 2 ^ 32 ∧ getU32 data i = .ok v := within_getNumber h

theorem within_getU64 {i : Nat} {data : Bytes} (h : i + 8 ≤ data.length) :
    Within (getU64 data i) fun v => v < 2 ^ 64 ∧ getU64 data i = .ok v := within_getNumber h

end Within

theorem lt_of_getU64 {data : Bytes} {i v : Nat} (h : getU64 data i = .ok v) : v < 2 ^ 64 := by
  by_cases hi : i + 8 ≤ data.length
  · exact ((within_getU64 hi).2 v h).1
  · rw [getU64, getNumber, if_neg hi] at h
    cases h

theorem rangeValid_eq_true {offset bytes size : Nat} :
    rangeValid offset bytes size = true ↔ offset + bytes ≤ size := by
  rw [rangeValid, decide_eq_true_eq]
  omega

theorem u64_of_lt {n : Nat} (h : n < 2 ^ 64) : u64 n = n := Nat.mod_eq_of_lt h

theorem u32_of_lt {n : Nat} (h : n < 2 ^ 32) : u32 n = n := Nat.mod_eq_of_lt h

/-- A file is no larger than the reader maps. -/
def maxFileBytes : Nat := fileHeaderBytes + maxSegmentPayloadBytes

/-! ## The terms -/

theorem within_parseTerm (data : Bytes) (offset : Nat) :
    Within (parseTerm data offset) fun _ => True := by
  rw [parseTerm]
  refine (within_refuse _).bind fun _ h₁ => ?_
  rw [Bool.not_eq_false', rangeValid_eq_true] at h₁
  refine (within_getU32 h₁).bind fun length _ => ?_
  refine (within_refuse _).bind fun _ h₂ => ?_
  simp only [decide_eq_false_iff_not, not_or, Bool.not_eq_true', Bool.not_eq_false,
    rangeValid_eq_true] at h₂
  obtain ⟨-, h₂⟩ := h₂
  refine (within_getU64 (by omega)).bind fun _ _ => ?_
  refine (within_getU64 (by omega)).bind fun _ _ => ?_
  refine (within_getU64 (by omega)).bind fun _ _ => ?_
  refine (within_getU64 (by omega)).bind fun _ _ => ?_
  refine (within_getU64 (by omega)).bind fun _ _ => ?_
  exact within_ok trivial

theorem within_parseTerms (data : Bytes) (n : Nat) (previous : Option TermEntry) (offset : Nat) :
    Within (parseTerms data n previous offset) fun _ => True := by
  induction n generalizing previous offset with
  | zero => exact within_ok trivial
  | succ n ih =>
    rw [parseTerms]
    refine (within_parseTerm data offset).bind fun r _ => ?_
    refine (within_refuse _).bind fun _ _ => ?_
    refine (ih (some r.1) r.2).bind fun rest _ => ?_
    exact within_ok trivial

theorem within_validateTermStream (data : Bytes) :
    Within (validateTermStream data) fun _ => True := by
  rw [validateTermStream]
  refine (within_refuse _).bind fun _ h₁ => ?_
  rw [Bool.not_eq_false', rangeValid_eq_true] at h₁
  refine (within_getU32 (by omega)).bind fun _ _ => ?_
  refine (within_refuse _).bind fun _ _ => ?_
  refine (within_getU64 (by omega)).bind fun count _ => ?_
  split
  · exact within_status _
  · refine (within_parseTerms data count none _).bind fun r _ => ?_
    refine (within_refuse _).bind fun _ _ => ?_
    exact within_ok trivial

/-! ## The positions and the postings of a term -/

theorem within_parsePosting {data : Bytes} {i : Nat} (h : i + postingBytes ≤ data.length) :
    Within (parsePosting data i) fun p =>
      p.positionCount < 2 ^ 32 ∧ parsePosting data i = .ok p := by
  rw [postingBytes] at h
  suffices Within (parsePosting data i) fun p => p.positionCount < 2 ^ 32 from this.result
  rw [parsePosting]
  refine (within_getU32 (by omega)).bind fun _ _ => ?_
  refine (within_getU64 (by omega)).bind fun _ _ => ?_
  refine (within_getU32 (by omega)).bind fun _ _ => ?_
  refine (within_getU32 (by omega)).bind fun _ _ => ?_
  refine (within_getU32 (by omega)).bind fun _ _ => ?_
  refine (within_getU32 (by omega)).bind fun _ _ => ?_
  refine (within_getU32 (by omega)).bind fun _ _ => ?_
  refine (within_getU32 (by omega)).bind fun _ _ => ?_
  refine (within_getU64 (by omega)).bind fun _ _ => ?_
  refine (within_getU32 (by omega)).bind fun count hcount => ?_
  exact within_ok hcount.1

/-- Where the positions end inside a file, their indices do not wrap around. -/
theorem positionIndex_eq {base k : Nat} {p : Posting}
    (h : base + (p.positionOffset + k) * 8 < 2 ^ 64) :
    positionIndex base p k = base + (p.positionOffset + k) * 8 := by
  rw [positionIndex, u64_of_lt (n := p.positionOffset + k) (by omega),
    u64_of_lt (n := (p.positionOffset + k) * 8) (by omega), u64_of_lt h]

/-- The positions of a posting are among the `records` that begin at `base`: the loop looks at them, and
nowhere else. -/
theorem within_checkPositions {data : Bytes} {base records : Nat} {p : Posting}
    (hdata : base + records * 8 ≤ data.length) (hsize : data.length ≤ maxFileBytes) (n k : Nat)
    (hk : p.positionOffset + (k + n) ≤ records) (counts previous : PerField) :
    Within (checkPositions data base p n k counts previous) fun _ => True := by
  induction n generalizing k counts previous with
  | zero => exact within_ok trivial
  | succ n ih =>
    rw [show maxFileBytes = 32 + 2 ^ 28 from rfl] at hsize
    rw [checkPositions, positionIndex_eq (by omega), u64_of_lt (by omega)]
    refine (within_getU32 (by omega)).bind fun field _ => ?_
    refine (within_getU32 (by omega)).bind fun position _ => ?_
    refine (within_refuse _).bind fun _ _ => ?_
    exact ih (k + 1) (by omega) _ _

/-- The posting lies in the positions of its term. -/
def Posting.Inside (records : Nat) (p : Posting) : Prop :=
  0 < p.positionCount ∧ p.positionOffset + p.positionCount ≤ records

/-- What is not refused lies in the positions of its term, unless the sum wraps around. -/
theorem Posting.inside_of_refused {totals : LexicalTotals} {records : Nat}
    {previous : Option Posting} {p : Posting} (hwrap : p.positionOffset + p.positionCount < 2 ^ 64)
    (h : p.refused totals records previous = false) : p.Inside records := by
  simp only [Posting.refused, decide_eq_false_iff_not, not_or, u64_of_lt hwrap] at h
  obtain ⟨-, -, -, hzero, hcount, hrecords, -⟩ := h
  exact ⟨by omega, by omega⟩

section Postings

variable {maps : LexicalMaps} {totals : LexicalTotals} {postingData base records count : Nat}

/-- The loop over the postings, and what it has found of each: the `j`-th posting, from the `i`-th on. -/
theorem within_checkPostings (hpostings : postingData + count * postingBytes ≤ maps.postings.length)
    (hpositions : base + records * 8 ≤ maps.positions.length)
    (hsize : maps.positions.length ≤ maxFileBytes)
    (hwrap : ∀ j < count, ∀ p, parsePosting maps.postings (postingData + j * postingBytes) = .ok p →
      p.positionOffset + p.positionCount < 2 ^ 64)
    (n i : Nat) (hi : i + n = count) (previous : Option Posting) :
    Within (checkPostings maps totals postingData base records n i previous) fun _ =>
      ∀ j, i ≤ j → j < count → ∃ p, parsePosting maps.postings (postingData + j * postingBytes) = .ok p ∧
        p.Inside records := by
  induction n generalizing i previous with
  | zero => exact within_ok fun j hij hj => absurd hj (by omega)
  | succ n ih =>
    rw [checkPostings]
    have hend : postingData + i * postingBytes + postingBytes ≤ maps.postings.length := by
      refine le_trans ?_ hpostings
      rw [postingBytes]
      omega
    refine (within_parsePosting hend).bind fun p hp => ?_
    refine (within_refuse _).bind fun _ hrefused => ?_
    have hinside := Posting.inside_of_refused (hwrap i (by omega) p hp.2) hrefused
    refine (within_checkPositions hpositions hsize p.positionCount 0 ?_ _ _).bind fun counts _ => ?_
    · rw [Nat.zero_add]
      exact hinside.2
    refine (within_refuse _).bind fun _ _ => ?_
    refine (ih (i + 1) (by omega) (some p)).mono fun _ hrest j hij hj => ?_
    rcases Nat.eq_or_lt_of_le hij with rfl | hlt
    · exact ⟨p, hp.2, hinside⟩
    · exact hrest j hlt hj

/-- The loop over the postings of a block. -/
theorem within_blockBounds {postings : Bytes} (hpostings : postingData + count * postingBytes ≤ postings.length)
    (n i : Nat) (hi : i + n ≤ count) (maxTf minLength : Nat) :
    Within (blockBounds postings postingData n i maxTf minLength) fun _ => True := by
  induction n generalizing i maxTf minLength with
  | zero => exact within_ok trivial
  | succ n ih =>
    rw [blockBounds]
    have hend : postingData + i * postingBytes + postingBytes ≤ postings.length := by
      refine le_trans ?_ hpostings
      rw [postingBytes]
      omega
    refine (within_parsePosting hend).bind fun p _ => ?_
    exact ih (i + 1) (by omega) _ _

theorem within_parseBlock {postings : Bytes} {i : Nat} (h : i + blockBytes ≤ postings.length) :
    Within (parseBlock postings i) fun b =>
      (b.firstPosting < 2 ^ 32 ∧ b.postingCount < 2 ^ 32) ∧ parseBlock postings i = .ok b := by
  rw [blockBytes] at h
  suffices Within (parseBlock postings i) fun b =>
      b.firstPosting < 2 ^ 32 ∧ b.postingCount < 2 ^ 32 from this.result
  rw [parseBlock]
  refine (within_getU32 (by omega)).bind fun first hfirst => ?_
  refine (within_getU32 (by omega)).bind fun n hn => ?_
  refine (within_getU32 (by omega)).bind fun _ _ => ?_
  refine (within_getU32 (by omega)).bind fun _ _ => ?_
  exact within_ok ⟨hfirst.1, hn.1⟩

theorem parseBlock_eq_ok {postings : Bytes} {i : Nat} (h : i + blockBytes ≤ postings.length) :
    ∃ b, parseBlock postings i = .ok b := by
  rw [blockBytes] at h
  obtain ⟨first, h₁⟩ := getU32_eq_ok postings (i := i) (by omega)
  obtain ⟨n, h₂⟩ := getU32_eq_ok postings (i := i + 4) (by omega)
  obtain ⟨maxTf, h₃⟩ := getU32_eq_ok postings (i := i + 8) (by omega)
  obtain ⟨minLength, h₄⟩ := getU32_eq_ok postings (i := i + 12) (by omega)
  refine ⟨⟨first, n, maxTf, minLength⟩, ?_⟩
  rw [parseBlock, h₁, h₂, h₃, h₄]
  rfl

/-- The loop over the blocks.  The first posting of a block is below `blocks * 128`, so that the 32-bit
sum with the number of its postings does not wrap around. -/
theorem within_checkBlocks {postings : Bytes} {blockData blocks : Nat}
    (hpostings : postingData + count * postingBytes ≤ postings.length)
    (hblocks : blockData + blocks * blockBytes ≤ postings.length)
    (hsize : postings.length ≤ maxFileBytes) (n i : Nat) (hi : i + n = blocks) :
    Within (checkBlocks postings postingData blockData count n i) fun _ => True := by
  induction n generalizing i with
  | zero => exact within_ok trivial
  | succ n ih =>
    rw [show maxFileBytes = 32 + 2 ^ 28 from rfl] at hsize
    rw [checkBlocks]
    have hend : blockData + i * blockBytes + blockBytes ≤ postings.length := by
      refine le_trans ?_ hblocks
      rw [blockBytes]
      omega
    refine (within_parseBlock hend).bind fun b hb => ?_
    refine (within_refuse _).bind fun _ hrefused => ?_
    simp only [decide_eq_false_iff_not, not_or, not_not] at hrefused
    obtain ⟨hfirst, -, hcount, hsum⟩ := hrefused
    rw [postingsBlockSize] at hfirst hcount
    rw [blockBytes] at hblocks
    rw [u32_of_lt (by omega)] at hsum
    refine (within_blockBounds hpostings b.postingCount b.firstPosting (by omega) _ _).bind fun _ _ => ?_
    refine (within_refuse _).bind fun _ _ => ?_
    exact ih (i + 1) (by omega)

end Postings

/-! ## A term -/

/-- The number of blocks of a term. -/
def TermEntry.blockCount (e : TermEntry) : Nat :=
  (e.documentFrequency + postingsBlockSize - 1) / postingsBlockSize

/-- The files hold the postings, the blocks and the positions that the entry gives to the term. -/
structure TermEntry.Held (maps : LexicalMaps) (records : Nat) (e : TermEntry) : Prop where
  read : getU64 maps.positions (fileHeaderBytes + e.positionsOffset + 8) = .ok records
  postingsBytes : e.postingsBytes = 20 + e.documentFrequency * postingBytes + e.blockCount * blockBytes
  postings : fileHeaderBytes + e.postingsOffset + e.postingsBytes ≤ maps.postings.length
  positionsBytes : e.positionsBytes = 16 + records * 8
  positions : fileHeaderBytes + e.positionsOffset + e.positionsBytes ≤ maps.positions.length

/-- Where the postings of a term begin. -/
def TermEntry.postingData (e : TermEntry) : Nat := fileHeaderBytes + e.postingsOffset + 20

/-- No sum of a position offset and a position count in the postings of the term is above 64 bits. -/
def TermEntry.NoWrap (maps : LexicalMaps) (e : TermEntry) : Prop :=
  ∀ i < e.documentFrequency, ∀ p,
    parsePosting maps.postings (e.postingData + i * postingBytes) = .ok p →
      p.positionOffset + p.positionCount < 2 ^ 64

/-- Every posting of the term is there, and lies in its positions. -/
def TermEntry.Bounded (maps : LexicalMaps) (records : Nat) (e : TermEntry) : Prop :=
  ∀ i < e.documentFrequency, ∃ p,
    parsePosting maps.postings (e.postingData + i * postingBytes) = .ok p ∧ p.Inside records

/-- The files are no larger than the reader maps. -/
structure LexicalMaps.Small (maps : LexicalMaps) : Prop where
  postings : maps.postings.length ≤ maxFileBytes
  positions : maps.positions.length ≤ maxFileBytes

theorem within_checkTerm {maps : LexicalMaps} (hsmall : maps.Small) (totals : LexicalTotals)
    (index : Nat) {postingCursor positionCursor : Nat} (hposting : fileHeaderBytes ≤ postingCursor)
    (hposition : fileHeaderBytes ≤ positionCursor) {e : TermEntry} (hwrap : e.NoWrap maps) :
    Within (checkTerm maps totals index postingCursor positionCursor e) fun records =>
      e.Held maps records ∧ e.Bounded maps records := by
  have hp := hsmall.postings
  have hq := hsmall.positions
  rw [show maxFileBytes = 32 + 2 ^ 28 from rfl] at hp hq
  rw [checkTerm]
  refine (within_refuse _).bind fun _ h₁ => ?_
  simp only [decide_eq_false_iff_not, not_or, not_not, Bool.not_eq_true', Bool.not_eq_false,
    rangeValid_eq_true] at h₁
  obtain ⟨hpo, hqo, hprange, hqrange, hphead⟩ := h₁
  have hpcursor : postingCursor = fileHeaderBytes + e.postingsOffset := by omega
  have hqcursor : positionCursor = fileHeaderBytes + e.positionsOffset := by omega
  refine (within_getU64 (by omega)).bind fun ordinal _ => ?_
  refine (within_getU64 (by omega)).bind fun frequency _ => ?_
  refine (within_refuse _).bind fun _ h₂ => ?_
  simp only [decide_eq_false_iff_not, not_or, not_not, Bool.not_eq_true', Bool.not_eq_false,
    rangeValid_eq_true] at h₂
  obtain ⟨-, -, hqhead⟩ := h₂
  refine (within_getU64 (by omega)).bind fun ordinal _ => ?_
  refine (within_refuse _).bind fun _ _ => ?_
  refine (within_getU32 (by omega)).bind fun blockCount hblockCount => ?_
  refine (within_getU64 (by omega)).bind fun records hrecords => ?_
  refine (within_refuse _).bind fun _ h₃ => ?_
  refine (within_refuse _).bind fun _ h₄ => ?_
  simp only [decide_eq_false_iff_not, not_or, not_not] at h₃ h₄
  simp only [uint64Max, postingBytes, blockBytes, postingsBlockSize] at h₃ h₄
  obtain ⟨hblocks, hdf⟩ := h₃
  obtain ⟨hpbytes, hrec, hqbytes⟩ := h₄
  rw [u64_of_lt (by omega)] at hblocks hqbytes
  rw [u64_of_lt (by omega)] at hpbytes
  have hheld : e.Held maps records := by
    refine ⟨hqcursor ▸ hrecords.2, ?_, hpcursor ▸ hprange, hqbytes, hqcursor ▸ hqrange⟩
    rw [TermEntry.blockCount, postingBytes, blockBytes, postingsBlockSize]
    omega
  have hdata : postingCursor + 20 = e.postingData := by
    rw [TermEntry.postingData, hpcursor]
  have hpend : postingCursor + 20 + e.documentFrequency * postingBytes ≤ maps.postings.length := by
    rw [postingBytes]
    omega
  refine (within_checkPostings hpend (by omega) hsmall.positions ?_ _ 0 (Nat.zero_add _) none).bind
    fun _ hbounded => ?_
  · rw [hdata]
    exact hwrap
  refine (within_checkBlocks hpend ?_ hsmall.postings _ 0
    (Nat.zero_add _)).bind fun _ _ => ?_
  · rw [postingBytes, blockBytes]
    omega
  refine within_ok ⟨hheld, fun i hi => ?_⟩
  rw [← hdata]
  exact hbounded i (Nat.zero_le i) hi

/-! ## The segment -/

/-- The loop over the terms.  The cursors never fall below the file headers. -/
theorem within_checkTerms {maps : LexicalMaps} (hsmall : maps.Small) (totals : LexicalTotals)
    (es : List TermEntry) (hes : ∀ e ∈ es, e.NoWrap maps) (index : Nat)
    {postingCursor positionCursor : Nat} (hposting : fileHeaderBytes ≤ postingCursor)
    (hposition : fileHeaderBytes ≤ positionCursor) (postings positions : Nat) :
    Within (checkTerms maps totals es index postingCursor positionCursor postings positions) fun _ =>
      ∀ e ∈ es, ∃ records, e.Held maps records ∧ e.Bounded maps records := by
  induction es generalizing index postingCursor positionCursor postings positions with
  | nil =>
    refine within_ok fun e he => ?_
    simp at he
  | cons e es ih =>
    rw [checkTerms]
    have hwrap := hes e List.mem_cons_self
    refine (within_checkTerm hsmall totals index hposting hposition hwrap).bind
      fun records hrecords => ?_
    refine (ih (fun e he => hes e (List.mem_cons_of_mem _ he)) (index + 1)
      (le_trans hposting (Nat.le_add_right _ _)) (le_trans hposition (Nat.le_add_right _ _)) _ _).mono
      fun _ hrest x hx => ?_
    rcases List.mem_cons.mp hx with rfl | hx
    · exact ⟨records, hrecords⟩
    · exact hrest x hx

theorem within_parseTotals (maps : LexicalMaps) : Within (parseTotals maps) fun _ => True := by
  rw [parseTotals]
  refine (within_refuse _).bind fun _ h₁ => ?_
  rw [Bool.not_eq_false', rangeValid_eq_true] at h₁
  refine (within_getU32 (by omega)).bind fun _ _ => ?_
  refine (within_refuse _).bind fun _ _ => ?_
  refine (within_getU32 (by omega)).bind fun _ _ => ?_
  refine (within_refuse _).bind fun _ h₂ => ?_
  simp only [decide_eq_false_iff_not, not_or, Bool.not_eq_true', Bool.not_eq_false,
    rangeValid_eq_true] at h₂
  obtain ⟨-, h₂⟩ := h₂
  refine (within_getU32 (by omega)).bind fun _ _ => ?_
  refine (within_refuse _).bind fun _ _ => ?_
  refine (within_getU64 (by omega)).bind fun _ _ => ?_
  refine (within_getU64 (by omega)).bind fun _ _ => ?_
  refine (within_getU64 (by omega)).bind fun _ _ => ?_
  refine (within_getU64 (by omega)).bind fun _ _ => ?_
  refine (within_getU64 (by omega)).bind fun _ _ => ?_
  refine (within_getU64 (by omega)).bind fun _ _ => ?_
  refine (within_getU64 (by omega)).bind fun _ _ => ?_
  exact within_ok trivial

theorem within_validatePayloads {maps : LexicalMaps} (hsmall : maps.Small) (es : List TermEntry)
    (hes : ∀ e ∈ es, e.NoWrap maps) :
    Within (validatePayloads maps es) fun _ =>
      ∀ e ∈ es, ∃ records, e.Held maps records ∧ e.Bounded maps records := by
  rw [validatePayloads]
  refine (within_parseTotals maps).bind fun totals _ => ?_
  refine (within_checkTerms hsmall totals es hes 0 (Nat.le_add_right _ _) (Nat.le_add_right _ _)
    0 0).bind fun r hr => ?_
  refine (within_refuse _).bind fun _ _ => ?_
  exact within_ok hr

theorem length_le_of_mapComponent {file : Bytes} {fileType expectedGeneration g : Nat}
    (h : mapComponent file fileType expectedGeneration = .ok g) : file.length ≤ maxFileBytes := by
  rw [mapComponent] at h
  split at h
  · cases h
  · rename_i hlen
    rw [maxFileBytes]
    omega

theorem small_of_mapComponents {maps : LexicalMaps} {expectedGeneration g : Nat}
    (h : mapComponents maps expectedGeneration = .ok g) : maps.Small := by
  rw [mapComponents] at h
  obtain ⟨g₀, -, h⟩ := bind_eq_ok.mp h
  obtain ⟨g₁, hpostings, h⟩ := bind_eq_ok.mp h
  split at h
  · cases h
  · obtain ⟨g₂, hpositions, -⟩ := bind_eq_ok.mp h
    exact ⟨length_le_of_mapComponent hpostings, length_le_of_mapComponent hpositions⟩

/-- No posting of the files has a position offset and a position count whose sum is above 64 bits. -/
def LexicalMaps.NoWrap (maps : LexicalMaps) : Prop :=
  ∀ es, validateTermStream maps.terms = .ok es → ∀ e ∈ es, e.NoWrap maps

theorem within_lexicalSegmentOpen {maps : LexicalMaps} (hwrap : maps.NoWrap)
    (expectedGeneration : Nat) :
    Within (lexicalSegmentOpen maps expectedGeneration) fun s => s.maps = maps ∧ maps.Small ∧
      ∀ e ∈ s.terms, ∃ records, e.Held maps records ∧ e.Bounded maps records := by
  rw [lexicalSegmentOpen]
  split
  · exact within_status _
  · rename_i g hg
    have hsmall := small_of_mapComponents hg
    refine (within_validateTermStream maps.terms).result.bind fun es hes => ?_
    refine (within_validatePayloads hsmall es (hwrap es hes.2)).bind fun totals h => ?_
    exact within_ok ⟨rfl, hsmall, h⟩

/-! ## The accessors -/

namespace LexicalSegment

variable {s : LexicalSegment} {records : Nat} {e : TermEntry}

/-- Asked for the term, the accessors look into its own part of the files.  Its postings and blocks lie
between the front and the end that the entry gives, its `records` positions likewise, and the positions of
each posting are among them. -/
structure Reads (s : LexicalSegment) (records : Nat) (e : TermEntry) : Prop where
  read : getU64 s.maps.positions (fileHeaderBytes + e.positionsOffset + 8) = .ok records
  postingsEnd : fileHeaderBytes + e.postingsOffset + e.postingsBytes ≤ s.maps.postings.length
  positionsEnd : fileHeaderBytes + e.positionsOffset + 16 + records * 8 ≤ s.maps.positions.length
  iterator : ∃ ps, s.postings e = .ok ps ∧ ps.length = e.documentFrequency
  posting : ∀ i < e.documentFrequency, e.postingData + (i + 1) * postingBytes ≤
    fileHeaderBytes + e.postingsOffset + e.postingsBytes ∧
    ∃ p, s.postingAt e i = .ok p ∧
      parsePosting s.maps.postings (e.postingData + i * postingBytes) = .ok p ∧
      0 < p.positionCount ∧ p.positionOffset + p.positionCount ≤ records ∧
      ∀ k < p.positionCount, ∃ field position, s.positionAt e p k = .ok (field, position) ∧
        getU32 s.maps.positions
          (fileHeaderBytes + e.positionsOffset + 16 + (p.positionOffset + k) * 8) = .ok field ∧
        getU32 s.maps.positions
          (fileHeaderBytes + e.positionsOffset + 16 + (p.positionOffset + k) * 8 + 4) = .ok position
  block : ∀ i < e.blockCount,
    e.postingData + e.documentFrequency * postingBytes + (i + 1) * blockBytes ≤
      fileHeaderBytes + e.postingsOffset + e.postingsBytes ∧
    ∃ b, s.block e i = .ok b ∧ parseBlock s.maps.postings
      (e.postingData + e.documentFrequency * postingBytes + i * blockBytes) = .ok b

theorem within_iteratePostings {n i : Nat}
    (h : ∀ j, i ≤ j → j < i + n → ∃ p, s.postingAt e j = .ok p) :
    ∃ ps, s.iteratePostings e n i = .ok ps ∧ ps.length = n := by
  induction n generalizing i with
  | zero => exact ⟨[], rfl, rfl⟩
  | succ n ih =>
    obtain ⟨p, hp⟩ := h i le_rfl (by omega)
    obtain ⟨ps, hps, hlen⟩ := ih (i := i + 1) fun j hij hj => h j (by omega) (by omega)
    refine ⟨p :: ps, ?_, by rw [List.length_cons, hlen]⟩
    rw [iteratePostings, hp]
    show (iteratePostings s e n (i + 1) >>= _) = _
    rw [hps]
    rfl

section Accepted

variable (hsmall : s.maps.Small) (hheld : e.Held s.maps records)

include hsmall hheld

theorem postingAt_eq {i : Nat} (hi : i < e.documentFrequency) :
    s.postingAt e i = parsePosting s.maps.postings (e.postingData + i * postingBytes) := by
  have hp := hsmall.postings
  have hend := hheld.postings
  have hbytes := hheld.postingsBytes
  rw [show maxFileBytes = 32 + 2 ^ 28 from rfl] at hp
  rw [postingBytes] at hbytes
  rw [postingAt, postingsStart, TermEntry.postingData, postingBytes,
    u64_of_lt (n := fileHeaderBytes + e.postingsOffset + 20) (by omega), u64_of_lt (by omega)]

theorem block_eq {i : Nat} (hi : i < e.blockCount) :
    s.block e i = parseBlock s.maps.postings
      (e.postingData + e.documentFrequency * postingBytes + i * blockBytes) := by
  have hp := hsmall.postings
  have hend := hheld.postings
  have hbytes := hheld.postingsBytes
  rw [show maxFileBytes = 32 + 2 ^ 28 from rfl] at hp
  rw [postingBytes, blockBytes] at hbytes
  rw [TermEntry.blockCount, postingsBlockSize] at hi
  rw [TermEntry.blockCount, postingsBlockSize] at hbytes
  rw [block, postingsStart, postingBytes, blockBytes, postingsBlockSize, TermEntry.postingData,
    u64_of_lt (n := e.documentFrequency + 128 - 1) (by omega), if_neg (by omega),
    u64_of_lt (n := fileHeaderBytes + e.postingsOffset + 20) (by omega), u64_of_lt (by omega)]

theorem positionAt_eq {p : Posting} (hp : p.Inside records) {k : Nat} (hk : k < p.positionCount) :
    ∃ field position, s.positionAt e p k = .ok (field, position) ∧
      getU32 s.maps.positions
        (fileHeaderBytes + e.positionsOffset + 16 + (p.positionOffset + k) * 8) = .ok field ∧
      getU32 s.maps.positions
        (fileHeaderBytes + e.positionsOffset + 16 + (p.positionOffset + k) * 8 + 4) =
        .ok position := by
  have hq := hsmall.positions
  have hend := hheld.positions
  rw [show maxFileBytes = 32 + 2 ^ 28 from rfl] at hq
  rw [hheld.positionsBytes] at hend
  have hle := hp.2
  obtain ⟨field, hfield⟩ := getU32_eq_ok s.maps.positions
    (i := fileHeaderBytes + e.positionsOffset + 16 + (p.positionOffset + k) * 8) (by omega)
  obtain ⟨position, hposition⟩ := getU32_eq_ok s.maps.positions
    (i := fileHeaderBytes + e.positionsOffset + 16 + (p.positionOffset + k) * 8 + 4) (by omega)
  refine ⟨field, position, ?_, hfield, hposition⟩
  have hrange : rangeValid (fileHeaderBytes + e.positionsOffset + 16 + (p.positionOffset + k) * 8) 8
      s.maps.positions.length = true := rangeValid_eq_true.mpr (by omega)
  rw [positionAt, if_neg (by rw [uint64Max]; omega), u64_of_lt (by omega)]
  simp only [hrange, hfield, hposition, Bool.true_eq_false, if_false]
  rfl

/-- The postings that the accessors give lie in the positions of their term. -/
theorem reads_of_bounded (hbounded : e.Bounded s.maps records) : s.Reads records e := by
  have hpostings := hheld.postings
  have hbytes := hheld.postingsBytes
  have hpositions := hheld.positions
  rw [hheld.positionsBytes] at hpositions
  refine ⟨hheld.read, hpostings, by omega, ?_, fun i hi => ⟨?_, ?_⟩, fun i hi => ⟨?_, ?_⟩⟩
  · refine within_iteratePostings fun j _ hj => ?_
    obtain ⟨p, hp, -⟩ := hbounded j (by omega)
    exact ⟨p, (postingAt_eq hsmall hheld (by omega)).trans hp⟩
  · rw [TermEntry.postingData, hbytes, postingBytes]
    omega
  · obtain ⟨p, hp, hinside⟩ := hbounded i hi
    refine ⟨p, (postingAt_eq hsmall hheld hi).trans hp, hp, hinside.1, hinside.2, fun k hk => ?_⟩
    exact positionAt_eq hsmall hheld hinside hk
  · rw [TermEntry.postingData, hbytes, postingBytes, blockBytes]
    omega
  · rw [block_eq hsmall hheld hi]
    have hend : e.postingData + e.documentFrequency * postingBytes + i * blockBytes + blockBytes ≤
        s.maps.postings.length := by
      refine le_trans ?_ hpostings
      rw [TermEntry.postingData, hbytes, postingBytes, blockBytes]
      omega
    obtain ⟨b, hb⟩ := parseBlock_eq_ok hend
    exact ⟨b, hb, hb⟩

end Accepted

/-- A posting of a term whose reads stay in its own records does not wrap around. -/
theorem Reads.noWrap (h : s.Reads records e) : e.NoWrap s.maps := by
  intro i hi p hp
  obtain ⟨-, p', -, hp', -, hle, -⟩ := h.posting i hi
  rw [hp, Except.ok.injEq] at hp'
  rw [hp']
  refine lt_of_le_of_lt hle ?_
  exact lt_of_getU64 h.read

end LexicalSegment

/-- The reader is safe on the files: it does not look outside them, and if it accepts them, its accessors
do not either. -/
structure LexicalMaps.Safe (maps : LexicalMaps) (expectedGeneration : Nat) : Prop where
  inside : lexicalSegmentOpen maps expectedGeneration ≠ .error .outOfBounds
  reads : ∀ s, lexicalSegmentOpen maps expectedGeneration = .ok s → ∀ e ∈ s.terms,
    ∃ records, s.Reads records e

theorem LexicalMaps.NoWrap.safe {maps : LexicalMaps} (h : maps.NoWrap) (expectedGeneration : Nat) :
    maps.Safe expectedGeneration := by
  obtain ⟨hinside, hresult⟩ := within_lexicalSegmentOpen h expectedGeneration
  refine ⟨hinside, fun s hs e he => ?_⟩
  obtain ⟨hmaps, hsmall, hterms⟩ := hresult s hs
  obtain ⟨records, hheld, hbounded⟩ := hterms e he
  rw [← hmaps] at hsmall hheld hbounded
  exact ⟨records, LexicalSegment.reads_of_bounded hsmall hheld hbounded⟩

theorem terms_of_open {maps : LexicalMaps} {expectedGeneration : Nat} {s : LexicalSegment}
    (h : lexicalSegmentOpen maps expectedGeneration = .ok s) :
    s.maps = maps ∧ validateTermStream maps.terms = .ok s.terms := by
  rw [lexicalSegmentOpen] at h
  split at h
  · cases h
  · obtain ⟨es, hes, h⟩ := bind_eq_ok.mp h
    obtain ⟨totals, -, h⟩ := bind_eq_ok.mp h
    cases h
    exact ⟨rfl, hes⟩

theorem LexicalMaps.Safe.noWrap {maps : LexicalMaps} {expectedGeneration : Nat}
    (h : maps.Safe expectedGeneration) {s : LexicalSegment}
    (hs : lexicalSegmentOpen maps expectedGeneration = .ok s) : maps.NoWrap := by
  intro es hes e he
  obtain ⟨hmaps, hterms⟩ := terms_of_open hs
  rw [hterms, Except.ok.injEq] at hes
  obtain ⟨records, hreads⟩ := h.reads s hs e (hes ▸ he)
  rw [← hmaps]
  exact hreads.noWrap

/-- A file with this payload. -/
def componentFile (fileType : UInt32) (payload : Bytes) : Bytes :=
  (componentHeader fileType 1 payload).bytes ++ payload

/-- The entry of the token `a`. -/
def oneEntry : TermEntry := ⟨[97], 1, 56, 84, 12, 24⟩

/-- The files of a segment with one document, whose title is the one token `a`, with this posting for
it. -/
def onePosting (p : Posting) : LexicalMaps where
  terms := componentFile 1 (leBytes 4 1 ++ (leBytes 8 1 ++ oneEntry.bytes))
  postings := componentFile 2 (leBytes 4 1 ++ (leBytes 4 128 ++ (leBytes 8 1 ++ (leBytes 8 0 ++
    (leBytes 8 1 ++ (leBytes 8 1 ++ (leBytes 8 0 ++ (leBytes 8 0 ++ (leBytes 8 0 ++ (leBytes 8 1 ++
      (leBytes 4 1 ++ (p.bytes ++ PostingsBlock.bytes ⟨0, 1, p.frequency, p.shortest⟩))))))))))))
  positions := componentFile 3 (leBytes 4 1 ++ (leBytes 8 1 ++ (leBytes 8 0 ++ (leBytes 8 1 ++
    (leBytes 4 1 ++ leBytes 4 0)))))

/-- The posting as it is written. -/
def plainPosting : Posting := ⟨1, 0, ⟨1, 0, 0⟩, ⟨1, 0, 0⟩, 0, 1⟩

/-- Its position is the last that 64 bits can number. -/
def wrappedPosting : Posting := { plainPosting with positionOffset := 2 ^ 64 - 1 }

/-- It has a thousand positions, and they end where the numbers of 64 bits do. -/
def farPosting : Posting := ⟨1, 0, ⟨1000, 0, 0⟩, ⟨1000, 0, 0⟩, 2 ^ 64 - 1000, 1000⟩

theorem onePosting_terms (p : Posting) : validateTermStream (onePosting p).terms = .ok [oneEntry] := by
  have h : validateTermStream (onePosting plainPosting).terms = .ok [oneEntry] := by decide +kernel
  exact h

theorem plainPosting_noWrap : (onePosting plainPosting).NoWrap := by
  intro es hes e he i hi p hp
  rw [onePosting_terms, Except.ok.injEq] at hes
  rw [← hes, List.mem_singleton] at he
  subst he
  rw [show oneEntry.documentFrequency = 1 from rfl, Nat.lt_one_iff] at hi
  have hplain : parsePosting (onePosting plainPosting).postings (oneEntry.postingData + 0 * postingBytes) =
      .ok plainPosting := by decide +kernel
  rw [hi, hplain, Except.ok.injEq] at hp
  rw [← hp]
  decide

end Yappod

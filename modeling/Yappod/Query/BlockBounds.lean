import Mathlib.Algebra.Field.Rat
import Mathlib.Algebra.Order.Ring.Rat
import Yappod.Components.LexicalBlocks
import Yappod.Query.LexicalCursors

/-!
# Block bounds

`block_upper_bound` is to be no less than the score of any posting of the block.  It is computed from the highest
frequency and the shortest length of the block record, so it is a bound for the postings that the record is about
(`postingScoreBy_le`).  Scores are taken with any function of a frequency and a count in the place of `idf_value`.
-/

set_option autoImplicit false

namespace Yappod

/-! ## Scores with any idf -/

section Scores

variable {K : Type} [DivisionRing K] [LinearOrder K] (idf : Nat → Nat → K) (stats : CorpusStats)
  (options : SearchOptions K)

def saturateBy (frequency count : Nat) (tf : K) : K :=
  idf frequency count * (tf * (bm25K1 + 1)) / (bm25K1 + tf)

/-- `posting_score`. -/
def postingScoreBy (frequency : Nat × Nat) (p : Posting) : K :=
  if weightedTf stats options p ≤ 0 then 0
  else saturateBy idf (typeOf frequency p.objectType) (stats.objectCount p.objectType) (weightedTf stats options p)

def typeBoundBy (frequency : Nat × Nat) (b : PostingsBlock) (objectType : ObjectType) : K :=
  if options.objectType.isSome ∧ options.objectType ≠ some objectType then 0
  else saturateBy idf (typeOf frequency objectType.code) (stats.objectCount objectType.code)
    (bestWeight stats options objectType.code b.minFieldLength * (b.maxTermFrequency : K))

/-- The bound of `block_upper_bound` for a block. -/
def blockBoundBy (frequency : Nat × Nat) (b : PostingsBlock) : K :=
  max (max 0 (typeBoundBy idf stats options frequency b .document))
    (typeBoundBy idf stats options frequency b .passage)

/-- `block_upper_bound`. -/
def blockUpperBoundBy (segment : LexicalSegment) (st : TermState) : K :=
  match segment.block st.term (st.index / postingsBlockSize) with
  | .ok b => blockBoundBy idf stats options st.typeFrequency b
  | .error _ => 0

variable (log1p : K → K)

theorem postingScore_eq :
    postingScore log1p stats options = postingScoreBy (idfValue log1p) stats options := rfl

theorem blockUpperBound_eq (segment : LexicalSegment) :
    blockUpperBound log1p stats options segment = blockUpperBoundBy (idfValue log1p) stats options segment := rfl

end Scores

/-! ## Scores and bounds -/

section Bounds

variable {K : Type} [DivisionRing K] [LinearOrder K] [IsStrictOrderedRing K] {idf : Nat → Nat → K}
  {stats : CorpusStats} {options : SearchOptions K} {p : Posting} {b : PostingsBlock}

theorem lengthNorm_mono (objectType : Nat) (field : Field) {m n : Nat} (h : m ≤ n) :
    (lengthNorm stats objectType field m : K) ≤ lengthNorm stats objectType field n := by
  have hb : (0 : K) ≤ bm25B := div_nonneg (by norm_num) (by norm_num)
  have haverage : (0 : K) < averageLength stats objectType field := averageLength_pos objectType field
  rw [lengthNorm, lengthNorm]
  gcongr

omit [IsStrictOrderedRing K] in
theorem le_bestWeight (objectType : Nat) (field : Field) (n : Nat) :
    options.fieldBoost field / lengthNorm stats objectType field n ≤ bestWeight stats options objectType n := by
  cases field <;> simp [bestWeight, Field.all]

omit [IsStrictOrderedRing K] in
theorem bestWeight_nonneg (objectType n : Nat) : 0 ≤ bestWeight stats options objectType n := by
  simp [bestWeight, Field.all]

/-- The weight that a field has in a posting is at most the best weight of its block. -/
theorem fieldWeight_le (hboost : ∀ f, 0 ≤ options.fieldBoost f) (hcovers : b.Covers p) {f : Field}
    (hpos : 0 < p.termFrequency.get f.code) :
    options.fieldBoost f / lengthNorm stats p.objectType f (p.fieldLength.get f.code) ≤
      bestWeight stats options p.objectType b.minFieldLength := by
  refine le_trans ?_ (le_bestWeight p.objectType f b.minFieldLength)
  exact div_le_div_of_nonneg_left (hboost f) (lengthNorm_pos _ _ _) (lengthNorm_mono _ _ (hcovers.length f hpos))

omit [LinearOrder K] [IsStrictOrderedRing K] in
theorem mul_natCast_div (x y : K) (n : Nat) : x * (n : K) / y = x / y * (n : K) := by
  rw [mul_div_assoc, div_eq_mul_inv, (Nat.cast_commute n y⁻¹).eq, ← mul_assoc, ← div_eq_mul_inv]

theorem weightedTf_le (hboost : ∀ f, 0 ≤ options.fieldBoost f) (hcovers : b.Covers p) :
    weightedTf stats options p ≤ bestWeight stats options p.objectType b.minFieldLength * (b.maxTermFrequency : K) := by
  have hterm : ∀ f : Field, (if p.termFrequency.get f.code = 0 then 0
      else options.fieldBoost f * (p.termFrequency.get f.code : K) /
        lengthNorm stats p.objectType f (p.fieldLength.get f.code)) ≤
      bestWeight stats options p.objectType b.minFieldLength * (p.termFrequency.get f.code : K) := by
    intro f
    split
    · exact mul_nonneg (bestWeight_nonneg _ _) (Nat.cast_nonneg _)
    · rename_i hne
      rw [mul_natCast_div]
      exact mul_le_mul_of_nonneg_right (fieldWeight_le hboost hcovers (Nat.pos_of_ne_zero hne)) (Nat.cast_nonneg _)
  calc weightedTf stats options p
      ≤ (Field.all.map fun f =>
          bestWeight stats options p.objectType b.minFieldLength * (p.termFrequency.get f.code : K)).sum :=
        List.sum_le_sum fun f _ => hterm f
    _ = bestWeight stats options p.objectType b.minFieldLength * (p.frequency : K) := by
        simp [Field.all, Field.code, PerField.get, Posting.frequency, mul_add, add_assoc]
    _ ≤ bestWeight stats options p.objectType b.minFieldLength * (b.maxTermFrequency : K) :=
        mul_le_mul_of_nonneg_left (Nat.cast_le.mpr hcovers.frequency) (bestWeight_nonneg _ _)

/-- The weighted frequency counts less and less, the more there is of it. -/
theorem saturation_eq {x : K} (hx : 0 ≤ x) :
    x * (bm25K1 + 1) / (bm25K1 + x) = (bm25K1 + 1) * (1 - bm25K1 / (bm25K1 + x)) := by
  have hk := bm25K1_pos (K := K)
  have hne : bm25K1 + x ≠ 0 := (add_pos_of_pos_of_nonneg hk hx).ne'
  have hcomm : Commute x (bm25K1 + 1) := by
    rw [bm25K1]
    exact ((Commute.ofNat_right x 6).div_right (Commute.ofNat_right x 5)).add_right (Commute.one_right x)
  rw [hcomm.eq, mul_div_assoc]
  congr 1
  rw [eq_sub_iff_add_eq, ← add_div, add_comm, div_self hne]

theorem saturateBy_mono (hidf : ∀ frequency count, 0 ≤ idf frequency count) (frequency count : Nat) {x y : K}
    (hx : 0 ≤ x) (hxy : x ≤ y) : saturateBy idf frequency count x ≤ saturateBy idf frequency count y := by
  have hk := bm25K1_pos (K := K)
  have hle : bm25K1 / (bm25K1 + y) ≤ bm25K1 / (bm25K1 + x) :=
    div_le_div_of_nonneg_left hk.le (add_pos_of_pos_of_nonneg hk hx) (add_le_add_right hxy _)
  rw [saturateBy, saturateBy, mul_div_assoc (idf _ _), mul_div_assoc (idf _ _), saturation_eq hx,
    saturation_eq (hx.trans hxy)]
  refine mul_le_mul_of_nonneg_left ?_ (hidf _ _)
  exact mul_le_mul_of_nonneg_left (sub_le_sub_left hle 1) (add_nonneg hk.le zero_le_one)

omit [IsStrictOrderedRing K] in
theorem typeBoundBy_le (frequency : Nat × Nat) (objectType : ObjectType) :
    typeBoundBy idf stats options frequency b objectType ≤ blockBoundBy idf stats options frequency b := by
  cases objectType <;> simp [blockBoundBy]

/-- **The bound of a block holds for the postings that it covers.** -/
theorem postingScoreBy_le (hidf : ∀ frequency count, 0 ≤ idf frequency count)
    (hboost : ∀ f, 0 ≤ options.fieldBoost f) (hcovers : b.Covers p) (hchecked : p.Checked)
    (hallowed : allowedType options.objectType p = true) (frequency : Nat × Nat) :
    postingScoreBy idf stats options frequency p ≤ blockBoundBy idf stats options frequency b := by
  rw [postingScoreBy]
  split
  · simp [blockBoundBy]
  rename_i hpos
  -- the type of the posting is one of the two, and it is not passed over
  obtain ⟨objectType, htype⟩ : ∃ t : ObjectType, p.objectType = t.code := by
    rcases hchecked.objectType with htype | htype
    · exact ⟨.document, htype⟩
    · exact ⟨.passage, htype⟩
  refine le_trans ?_ (typeBoundBy_le frequency objectType)
  rw [typeBoundBy, if_neg]
  · rw [← htype]
    exact saturateBy_mono hidf _ _ (le_of_lt (not_le.mp hpos)) (weightedTf_le hboost hcovers)
  · rintro ⟨hsome, hother⟩
    obtain ⟨t, ht⟩ := Option.isSome_iff_exists.mp hsome
    rw [ht, allowedType, decide_eq_true_iff, htype] at hallowed
    exact hother (ht.trans (congrArg some (ObjectType.code_injective hallowed).symm))

end Bounds

/-! ## The bounds of a segment -/

section Segment

variable {maps : LexicalMaps} {expectedGeneration : Nat} {s : LexicalSegment}

/-- **Block bounds are bounds on full blocks.**  In an accepted segment every posting is in the stored block that is
read for it, with a frequency and lengths within the bounds of that block, and the bound of its block is no less than
its score, if and only if every block record is about all the postings that its block can have. -/
theorem block_bounds (h : lexicalSegmentOpen maps expectedGeneration = .ok s) (K : Type) [DivisionRing K]
    [LinearOrder K] [IsStrictOrderedRing K] :
    (∀ e ∈ s.terms, ∀ j < e.documentFrequency, ∃ p b, s.Covered e j p b ∧
      ∀ (idf : Nat → Nat → K) (stats : CorpusStats) (options : SearchOptions K) (st : TermState),
        (∀ frequency count, 0 ≤ idf frequency count) → (∀ f, 0 ≤ options.fieldBoost f) →
        st.term = e → st.index = j → allowedType options.objectType p = true →
        postingScoreBy idf stats options st.typeFrequency p ≤ blockUpperBoundBy idf stats options s st) ↔
      s.FullBlocks := by
  rw [← LexicalSegment.covered_iff h]
  constructor
  · intro hall e he j hj
    obtain ⟨p, b, hcovered, -⟩ := hall e he j hj
    exact ⟨p, b, hcovered⟩
  · intro hall e he j hj
    obtain ⟨p, b, hcovered⟩ := hall e he j hj
    refine ⟨p, b, hcovered, ?_⟩
    rintro idf stats options st hidf hboost rfl rfl hallowed
    rw [blockUpperBoundBy, hcovered.block]
    have hchecked := LexicalSegment.checked_of_postingAt h he hj hcovered.posting
    exact postingScoreBy_le hidf hboost hcovered.covers hchecked hallowed st.typeFrequency

end Segment

/-- The segment of `onePosting` with a plain posting. -/
def plainSegment : LexicalSegment where
  maps := onePosting plainPosting
  generation := 1
  totals := ⟨1, 0, 1, 1, ⟨1, 0, 0⟩⟩
  terms := [oneEntry]

theorem block_bounds_plain :
    lexicalSegmentOpen (onePosting plainPosting) 1 = .ok plainSegment ∧ plainSegment.FullBlocks ∧
      ∀ e ∈ plainSegment.terms, ∀ j < e.documentFrequency, ∃ p b, plainSegment.Covered e j p b := by
  have hopen : lexicalSegmentOpen (onePosting plainPosting) 1 = .ok plainSegment := by decide +kernel
  have hfull : plainSegment.FullBlocks := by
    intro e he k hk b hb
    obtain rfl := List.mem_singleton.mp he
    obtain rfl : k = 0 := Nat.lt_one_iff.mp hk
    have hblock : plainSegment.block oneEntry 0 = .ok ⟨0, 1, 1, 1⟩ := by decide +kernel
    obtain rfl := Except.ok.inj (hblock.symm.trans hb)
    rfl
  refine ⟨hopen, hfull, fun e he j hj => ?_⟩
  obtain ⟨p, b, hcovered, -⟩ := (block_bounds hopen ℚ).mpr hfull e he j hj
  exact ⟨p, b, hcovered⟩

/-- The entry of a token that two documents have. -/
def twoEntry : TermEntry := ⟨[97], 2, 56, 132, 12, 40⟩

/-- The token twice, in the second document. -/
def secondPosting : Posting := ⟨1, 1, ⟨2, 0, 0⟩, ⟨2, 0, 0⟩, 1, 2⟩

/-- The files of a segment with two documents, whose titles are one and two tokens `a`.  The block record of the term
is about the first one only. -/
def shortBlock : LexicalMaps where
  terms := componentFile 1 (leBytes 4 1 ++ (leBytes 8 1 ++ twoEntry.bytes))
  postings := componentFile 2 (leBytes 4 1 ++ (leBytes 4 128 ++ (leBytes 8 2 ++ (leBytes 8 0 ++
    (leBytes 8 2 ++ (leBytes 8 3 ++ (leBytes 8 0 ++ (leBytes 8 0 ++ (leBytes 8 0 ++ (leBytes 8 2 ++
      (leBytes 4 1 ++ (plainPosting.bytes ++ (secondPosting.bytes ++
        PostingsBlock.bytes ⟨0, 1, 1, 1⟩)))))))))))))
  positions := componentFile 3 (leBytes 4 1 ++ (leBytes 8 3 ++ (leBytes 8 0 ++ (leBytes 8 3 ++
    (leBytes 4 1 ++ (leBytes 4 0 ++ (leBytes 4 1 ++ (leBytes 4 0 ++ (leBytes 4 1 ++ leBytes 4 1)))))))))

def shortSegment : LexicalSegment where
  maps := shortBlock
  generation := 1
  totals := ⟨2, 0, 2, 3, ⟨3, 0, 0⟩⟩
  terms := [twoEntry]

def unitOptions : SearchOptions ℚ where
  objectType := none
  queryOperator := .or
  phrase := false
  fieldBoost _ := 1
  topK := 1
  accept _ _ := true

/-- The cursor at the second posting. -/
def secondState : TermState := ⟨0, twoEntry, (2, 0), 1, [secondPosting]⟩

/-- The bound for a posting that no block record is about is too small. -/
theorem block_bounds_short :
    lexicalSegmentOpen shortBlock 1 = .ok shortSegment ∧ shortSegment.postingAt twoEntry 1 = .ok secondPosting ∧
      shortSegment.block twoEntry 0 = .ok ⟨0, 1, 1, 1⟩ ∧
      blockUpperBoundBy (fun _ _ => 1) ⟨2, 0, ⟨3, 0, 0⟩⟩ unitOptions shortSegment secondState <
        postingScoreBy (fun _ _ => 1) ⟨2, 0, ⟨3, 0, 0⟩⟩ unitOptions (2, 0) secondPosting := by
  have hblock : shortSegment.block twoEntry 0 = .ok ⟨0, 1, 1, 1⟩ := by decide +kernel
  refine ⟨by decide +kernel, by decide +kernel, hblock, ?_⟩
  decide +kernel

end Yappod

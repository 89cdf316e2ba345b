import Mathlib.Algebra.Field.Rat
import Mathlib.Algebra.Order.Field.Basic
import Mathlib.Algebra.Order.Ring.Rat
import Yappod.Lib.RankFusion
import Yappod.Query.Candidates

/-!
# Reciprocal rank fusion

`YAP_Hybrid_fuse_rrf` merges a lexical and a vector list of candidates into one list of hits.  A candidate counts by its
rank in each of the lists; the table `merged` is searched from its start for the id of each candidate, and is sorted at
the end.

* `rrfRankings` — the two lists as rankings, `weight / (60 + rank)` being the share of a rank.
* `ValidFusion.fuseRrf_eq` — the hits are the first `top_k` of the fusion of these rankings.
* `fuseRrf_exact` — and an id that is ahead of another in each list that has the other is ahead of it among the hits.

Scores are elements of an ordered division ring: there is no rounding here.
-/

set_option autoImplicit false

namespace Yappod

/-- `YAP_HYBRID_CANDIDATE`. -/
structure HybridCandidate (K : Type) where
  id : Bytes
  score : K
  deriving DecidableEq, Repr

/-- `YAP_HYBRID_HIT`. -/
structure HybridHit (K : Type) where
  id : Bytes
  lexicalScore : K
  vectorScore : K
  fusedScore : K
  deriving DecidableEq, Repr

/-- `YAP_HYBRID_MERGED`. -/
structure HybridMerged (K : Type) where
  hit : HybridHit K
  ordinal : Nat
  lexicalPresent : Bool
  vectorPresent : Bool
  deriving DecidableEq, Repr

/-- `YAP_HYBRID_STATUS`, its errors. -/
inductive HybridStatus
  | invalidArgument
  | bufferTooSmall
  deriving DecidableEq, Repr

/-! ## The code -/

section Code

variable {K : Type} [DivisionRing K] [LinearOrder K]

/-- `YAP_HYBRID_RRF_K`. -/
def hybridRrfK : K := 60

/-- `validate_candidates`. -/
def validateCandidates (candidates : List (HybridCandidate K)) : Except HybridStatus Unit :=
  if ∃ c ∈ candidates, c.id = [] then .error .invalidArgument else .ok ()

/-- The order of `compare_merged`. -/
def HybridMerged.rank (m : HybridMerged K) : Kᵒᵈ ×ₗ ℕ := toLex (OrderDual.toDual m.hit.fusedScore, m.ordinal)

/-- What `add_candidate` does to the entry that has the id. -/
def HybridMerged.count (m : HybridMerged K) (candidate : HybridCandidate K) (contribution : K) (lexical : Bool) :
    HybridMerged K :=
  if lexical then
    if m.lexicalPresent then m
    else
      { m with
        hit := { m.hit with lexicalScore := candidate.score, fusedScore := m.hit.fusedScore + contribution }
        lexicalPresent := true }
  else if m.vectorPresent then m
  else
    { m with
      hit := { m.hit with vectorScore := candidate.score, fusedScore := m.hit.fusedScore + contribution }
      vectorPresent := true }

/-- `add_candidate`. -/
def addCandidate (merged : List (HybridMerged K)) (candidate : HybridCandidate K) (weight : K) (rank : Nat)
    (lexical : Bool) : List (HybridMerged K) :=
  let contribution := weight / (hybridRrfK + rank)
  match merged.findIdx? fun m => m.hit.id = candidate.id with
  | some i => merged.modify i fun m => m.count candidate contribution lexical
  | none =>
    merged ++ [{
      hit := ⟨candidate.id, if lexical then candidate.score else 0, if lexical then 0 else candidate.score, contribution⟩
      ordinal := merged.length
      lexicalPresent := lexical
      vectorPresent := !lexical }]

/-- The loops over the candidates, from the `i`-th on. -/
def addCandidatesFrom (weight : K) (lexical : Bool) :
    Nat → List (HybridCandidate K) → List (HybridMerged K) → List (HybridMerged K)
  | _, [], merged => merged
  | i, c :: cs, merged => addCandidatesFrom weight lexical (i + 1) cs (addCandidate merged c weight (i + 1) lexical)

/-- `YAP_Hybrid_fuse_rrf`. -/
def fuseRrf (lexical vector : List (HybridCandidate K)) (lexicalWeight vectorWeight : K) (topK hitCapacity : Nat) :
    Except HybridStatus (List (HybridHit K)) :=
  if topK = 0 ∨ hitCapacity < topK ∨ lexicalWeight < 0 ∨ vectorWeight < 0 ∨ (lexicalWeight = 0 ∧ vectorWeight = 0) then
    .error (if hitCapacity < topK ∧ 0 < topK then .bufferTooSmall else .invalidArgument)
  else do
    validateCandidates lexical
    validateCandidates vector
    if lexical.length + vector.length = 0 then return []
    let merged := addCandidatesFrom lexicalWeight true 0 lexical []
    let merged := addCandidatesFrom vectorWeight false 0 vector merged
    return ((sortByKey HybridMerged.rank merged).take topK).map (·.hit)

end Code

/-! ## What it computes -/

section Spec

variable {K : Type} [DivisionRing K] [LinearOrder K] (lexical vector : List (HybridCandidate K))
  (lexicalWeight vectorWeight : K)

/-- A list of candidates as a ranking. -/
def rrfRanking (candidates : List (HybridCandidate K)) (weight : K) : Ranking Bytes K where
  ids := candidates.map (·.id)
  share i := weight / (hybridRrfK + ((i + 1 : Nat) : K))

/-- The two lists as rankings. -/
def rrfRankings : List (Ranking Bytes K) := [rrfRanking lexical lexicalWeight, rrfRanking vector vectorWeight]

omit [DivisionRing K] [LinearOrder K] in
/-- The score of an id in a list, that of its first candidate; `zero` if it has none. -/
def scoreIn (zero : K) (candidates : List (HybridCandidate K)) (id : Bytes) : K :=
  ((candidates.find? fun c => c.id = id).map (·.score)).getD zero

/-- The hit for an id. -/
def fusedHit (id : Bytes) : HybridHit K where
  id := id
  lexicalScore := scoreIn 0 lexical id
  vectorScore := scoreIn 0 vector id
  fusedScore := fusedScore (rrfRankings lexical vector lexicalWeight vectorWeight) id

/-- The first `top_k` of the fusion. -/
def fusedHits (topK : Nat) : List (HybridHit K) :=
  ((fusion (rrfRankings lexical vector lexicalWeight vectorWeight)).take topK).map
    (fusedHit lexical vector lexicalWeight vectorWeight)

/-- What is asked of the arguments: room for the hits, weights that are not negative and not both zero, and no empty
id. -/
structure ValidFusion (topK hitCapacity : Nat) : Prop where
  topK_pos : 0 < topK
  capacity : topK ≤ hitCapacity
  lexicalWeight_nonneg : 0 ≤ lexicalWeight
  vectorWeight_nonneg : 0 ≤ vectorWeight
  weights : lexicalWeight ≠ 0 ∨ vectorWeight ≠ 0
  lexicalIds : ∀ c ∈ lexical, c.id ≠ []
  vectorIds : ∀ c ∈ vector, c.id ≠ []

end Spec

/-! ## The table -/

section Table

variable {K : Type} [DivisionRing K] {lexical vector : List (HybridCandidate K)}
  {lexicalWeight vectorWeight weight : K} {c : HybridCandidate K} {id : Bytes}

theorem rankedIds_rrfRankings : rankedIds (rrfRankings lexical vector lexicalWeight vectorWeight) =
    lexical.map (·.id) ++ vector.map (·.id) := by
  simp [rankedIds, rrfRankings, rrfRanking]

theorem fusedScore_rrfRankings : fusedScore (rrfRankings lexical vector lexicalWeight vectorWeight) id =
    (rrfRanking lexical lexicalWeight).part id + (rrfRanking vector vectorWeight).part id := by
  simp [fusedScore, rrfRankings]

theorem part_of_notMem (h : id ∉ lexical.map (·.id)) : (rrfRanking lexical weight).part id = 0 := if_neg h

omit [DivisionRing K] in
theorem scoreIn_of_notMem {zero : K} (h : id ∉ lexical.map (·.id)) : scoreIn zero lexical id = zero := by
  have hnone : lexical.find? (fun c => c.id = id) = none :=
    List.find?_eq_none.mpr fun c hc heq => h (List.mem_map.mpr ⟨c, hc, of_decide_eq_true heq⟩)
  rw [scoreIn, hnone]
  rfl

/-- A candidate does nothing for other ids, nor if there was one of its id before. -/
theorem part_concat_of_old (h : id ≠ c.id ∨ id ∈ lexical.map (·.id)) :
    (rrfRanking (lexical ++ [c]) weight).part id = (rrfRanking lexical weight).part id := by
  have hids : (rrfRanking (lexical ++ [c]) weight).ids = lexical.map (·.id) ++ [c.id] := by simp [rrfRanking]
  rw [Ranking.part, Ranking.part, hids]
  by_cases hmem : id ∈ lexical.map (·.id)
  · rw [if_pos (List.mem_append_left _ hmem), if_pos (show id ∈ (rrfRanking lexical weight).ids from hmem),
      placeIn_append_left hmem]
    rfl
  · have hne := h.resolve_right hmem
    rw [if_neg (by simpa [hne] using hmem), if_neg (show id ∉ (rrfRanking lexical weight).ids from hmem)]

omit [DivisionRing K] in
theorem scoreIn_concat_of_old {zero : K} (h : id ≠ c.id ∨ id ∈ lexical.map (·.id)) :
    scoreIn zero (lexical ++ [c]) id = scoreIn zero lexical id := by
  by_cases hmem : id ∈ lexical.map (·.id)
  · obtain ⟨b, hb, hid⟩ := List.mem_map.mp hmem
    have hsome : (lexical.find? fun c => c.id = id).isSome = true :=
      List.find?_isSome.mpr ⟨b, hb, decide_eq_true hid⟩
    rw [scoreIn, scoreIn, List.find?_append, Option.or_of_isSome hsome]
  · have hne := h.resolve_right hmem
    rw [scoreIn_of_notMem hmem, scoreIn_of_notMem (by simpa [hne] using hmem)]

/-- The first candidate of an id gives the share of its rank. -/
theorem part_concat_of_new (h : c.id ∉ lexical.map (·.id)) : (rrfRanking (lexical ++ [c]) weight).part c.id =
    weight / (hybridRrfK + ((lexical.length + 1 : Nat) : K)) := by
  have hids : (rrfRanking (lexical ++ [c]) weight).ids = lexical.map (·.id) ++ [c.id] := by simp [rrfRanking]
  rw [Ranking.part, hids, if_pos (by simp), placeIn_concat h, List.length_map]
  rfl

omit [DivisionRing K] in
theorem scoreIn_concat_of_new {zero : K} (h : c.id ∉ lexical.map (·.id)) :
    scoreIn zero (lexical ++ [c]) c.id = c.score := by
  have hnone : lexical.find? (fun a => a.id = c.id) = none :=
    List.find?_eq_none.mpr fun a ha heq => h (List.mem_map.mpr ⟨a, ha, of_decide_eq_true heq⟩)
  rw [scoreIn, List.find?_append, hnone]
  simp

/-- **One candidate more**, in a table that holds an entry for each id: the entry of its id counts it, or there is a new
one. -/
theorem addCandidate_mapIdx {ids : List Bytes} (hids : ids.Nodup) {old new : Nat → Bytes → HybridMerged K} {rank : Nat}
    {isLexical : Bool} (hid : ∀ i id, (old i id).hit.id = id)
    (hother : ∀ i, ∀ id ∈ ids, id ≠ c.id → new i id = old i id)
    (hcount : c.id ∈ ids → ∀ i, new i c.id = (old i c.id).count c (weight / (hybridRrfK + rank)) isLexical)
    (hnew : c.id ∉ ids → new ids.length c.id =
      ⟨⟨c.id, if isLexical then c.score else 0, if isLexical then 0 else c.score, weight / (hybridRrfK + rank)⟩,
        ids.length, isLexical, !isLexical⟩) :
    addCandidate (ids.mapIdx old) c weight rank isLexical =
      (appear ids c.id).mapIdx new := by
  by_cases hmem : c.id ∈ ids
  · obtain ⟨i, hi, hget⟩ := List.getElem_of_mem hmem
    have hfind : (ids.mapIdx old).findIdx? (fun m => m.hit.id = c.id) = some i := by
      refine List.findIdx?_eq_some_iff_getElem.mpr ⟨by simpa using hi, by simp [hid, hget], fun j hji => ?_⟩
      have hne : ids[j] ≠ c.id := fun heq => hji.ne ((hids.getElem_inj_iff).mp (heq.trans hget.symm))
      simpa [hid] using hne
    rw [addCandidate, hfind, appear_of_mem hmem]
    refine List.ext_getElem (by simp) fun j h₁ h₂ => ?_
    rw [List.getElem_modify, List.getElem_mapIdx, List.getElem_mapIdx]
    split
    · rename_i hij
      subst hij
      rw [hget, hcount hmem]
    · rename_i hij
      refine (hother j _ (List.getElem_mem _) fun heq => hij ?_).symm
      exact (hids.getElem_inj_iff).mp (hget.trans heq.symm)
  · have hfind : (ids.mapIdx old).findIdx? (fun m => m.hit.id = c.id) = none := by
      refine List.findIdx?_eq_none_iff.mpr fun m hm => ?_
      obtain ⟨i, hi, rfl⟩ := List.mem_mapIdx.mp hm
      refine decide_eq_false fun heq => hmem ?_
      rw [← heq, hid]
      exact List.getElem_mem hi
    rw [addCandidate, hfind, appear_of_notMem hmem, List.mapIdx_append, List.mapIdx_singleton, Nat.zero_add, hnew hmem]
    dsimp only
    rw [List.length_mapIdx]
    refine congrArg (· ++ _) (List.ext_getElem (by simp) fun j h₁ h₂ => ?_)
    rw [List.getElem_mapIdx, List.getElem_mapIdx]
    exact (hother j _ (List.getElem_mem _) fun heq => hmem (heq ▸ List.getElem_mem _)).symm

/-- The entry of the table for an id. -/
def mergedEntry (lexical vector : List (HybridCandidate K)) (lexicalWeight vectorWeight : K) (i : Nat) (id : Bytes) :
    HybridMerged K :=
  ⟨fusedHit lexical vector lexicalWeight vectorWeight id, i, decide (id ∈ lexical.map (·.id)),
    decide (id ∈ vector.map (·.id))⟩

theorem mergedEntry_id (lexical vector : List (HybridCandidate K)) (lexicalWeight vectorWeight : K) (i : Nat)
    (id : Bytes) : (mergedEntry lexical vector lexicalWeight vectorWeight i id).hit.id = id := rfl

/-- The table: an entry for each id, in the order of first appearance. -/
def mergedTable (lexical vector : List (HybridCandidate K)) (lexicalWeight vectorWeight : K) : List (HybridMerged K) :=
  (appearances (rankedIds (rrfRankings lexical vector lexicalWeight vectorWeight))).mapIdx
    (mergedEntry lexical vector lexicalWeight vectorWeight)

/-- An entry is the same if the parts and the scores of its id are, and if the id is in the same lists. -/
theorem mergedEntry_congr {lexical' vector' : List (HybridCandidate K)} {i : Nat}
    (hlexical : (rrfRanking lexical' lexicalWeight).part id = (rrfRanking lexical lexicalWeight).part id ∧
      scoreIn 0 lexical' id = scoreIn 0 lexical id ∧ (id ∈ lexical'.map (·.id) ↔ id ∈ lexical.map (·.id)))
    (hvector : (rrfRanking vector' vectorWeight).part id = (rrfRanking vector vectorWeight).part id ∧
      scoreIn 0 vector' id = scoreIn 0 vector id ∧ (id ∈ vector'.map (·.id) ↔ id ∈ vector.map (·.id))) :
    mergedEntry lexical' vector' lexicalWeight vectorWeight i id =
      mergedEntry lexical vector lexicalWeight vectorWeight i id := by
  rw [mergedEntry, mergedEntry, fusedHit, fusedHit, fusedScore_rrfRankings, fusedScore_rrfRankings, hlexical.1,
    hlexical.2.1, hvector.1, hvector.2.1]
  simp only [hlexical.2.2, hvector.2.2]

theorem same_list (candidates : List (HybridCandidate K)) (weight : K) (id : Bytes) :
    (rrfRanking candidates weight).part id = (rrfRanking candidates weight).part id ∧
      scoreIn 0 candidates id = scoreIn 0 candidates id ∧
      (id ∈ candidates.map (·.id) ↔ id ∈ candidates.map (·.id)) := ⟨rfl, rfl, .rfl⟩

theorem old_list (h : id ≠ c.id ∨ id ∈ lexical.map (·.id)) :
    (rrfRanking (lexical ++ [c]) weight).part id = (rrfRanking lexical weight).part id ∧
      scoreIn 0 (lexical ++ [c]) id = scoreIn 0 lexical id ∧
      (id ∈ (lexical ++ [c]).map (·.id) ↔ id ∈ lexical.map (·.id)) := by
  refine ⟨part_concat_of_old h, scoreIn_concat_of_old h, ?_⟩
  rw [List.map_append, List.mem_append]
  refine ⟨fun hid => hid.elim (fun hl => hl) fun hs => ?_, .inl⟩
  have heq : id = c.id := by simpa using hs
  exact h.resolve_left fun hne => hne heq

theorem addCandidate_lexical (c : HybridCandidate K) :
    addCandidate (mergedTable lexical [] lexicalWeight vectorWeight) c lexicalWeight (lexical.length + 1) true =
      mergedTable (lexical ++ [c]) [] lexicalWeight vectorWeight := by
  have hids : rankedIds (rrfRankings (lexical ++ [c]) [] lexicalWeight vectorWeight) =
      rankedIds (rrfRankings lexical [] lexicalWeight vectorWeight) ++ [c.id] := by
    simp [rankedIds_rrfRankings]
  have hmem : c.id ∈ appearances (rankedIds (rrfRankings lexical [] lexicalWeight vectorWeight)) ↔
      c.id ∈ lexical.map (·.id) := by
    rw [mem_appearances, rankedIds_rrfRankings, List.map_nil, List.append_nil]
  rw [mergedTable, mergedTable, hids, appearances_concat]
  refine addCandidate_mapIdx (nodup_appearances _)
    (mergedEntry_id _ _ lexicalWeight vectorWeight) (fun i id _ hne => ?_) (fun hold i => ?_) fun hnew => ?_
  · exact mergedEntry_congr (old_list (.inl hne)) (same_list [] _ id)
  · have hlexical := hmem.mp hold
    rw [mergedEntry_congr (old_list (.inr hlexical)) (same_list [] _ c.id), HybridMerged.count, if_pos rfl,
      if_pos (show (mergedEntry lexical [] _ _ i c.id).lexicalPresent = true from decide_eq_true hlexical)]
  · have hlexical := mt hmem.mpr hnew
    rw [mergedEntry, fusedHit, fusedScore_rrfRankings, part_concat_of_new hlexical, scoreIn_concat_of_new hlexical,
      part_of_notMem (by simp), add_zero]
    simp [scoreIn]

theorem addCandidate_vector (c : HybridCandidate K) :
    addCandidate (mergedTable lexical vector lexicalWeight vectorWeight) c vectorWeight (vector.length + 1) false =
      mergedTable lexical (vector ++ [c]) lexicalWeight vectorWeight := by
  have hids : rankedIds (rrfRankings lexical (vector ++ [c]) lexicalWeight vectorWeight) =
      rankedIds (rrfRankings lexical vector lexicalWeight vectorWeight) ++ [c.id] := by
    simp [rankedIds_rrfRankings]
  have hmem : c.id ∈ appearances (rankedIds (rrfRankings lexical vector lexicalWeight vectorWeight)) ↔
      c.id ∈ lexical.map (·.id) ∨ c.id ∈ vector.map (·.id) := by
    rw [mem_appearances, rankedIds_rrfRankings, List.mem_append]
  rw [mergedTable, mergedTable, hids, appearances_concat]
  refine addCandidate_mapIdx (nodup_appearances _)
    (mergedEntry_id _ _ lexicalWeight vectorWeight) (fun i id _ hne => ?_) (fun hold i => ?_) fun hnew => ?_
  · exact mergedEntry_congr (same_list lexical _ id) (old_list (.inl hne))
  · by_cases hvector : c.id ∈ vector.map (·.id)
    · rw [mergedEntry_congr (same_list lexical _ c.id) (old_list (.inr hvector)), HybridMerged.count, if_neg (by simp),
        if_pos (show (mergedEntry lexical vector _ _ i c.id).vectorPresent = true from decide_eq_true hvector)]
    · -- the id is in the lexical list only
      rw [HybridMerged.count, if_neg (by simp),
        if_neg (show ¬ (mergedEntry lexical vector _ _ i c.id).vectorPresent = true by simpa [mergedEntry] using hvector)]
      simp only [mergedEntry, fusedHit, fusedScore_rrfRankings, part_concat_of_new hvector,
        scoreIn_concat_of_new hvector, part_of_notMem hvector, add_zero]
      simp
  · have hlexical : c.id ∉ lexical.map (·.id) := fun h => hnew (hmem.mpr (.inl h))
    have hvector : c.id ∉ vector.map (·.id) := fun h => hnew (hmem.mpr (.inr h))
    rw [mergedEntry, fusedHit, fusedScore_rrfRankings, part_concat_of_new hvector, scoreIn_concat_of_new hvector,
      part_of_notMem hlexical, scoreIn_of_notMem hlexical, zero_add, decide_eq_false hlexical]
    simp

variable (lexical) in
/-- The loop over the lexical candidates. -/
theorem addCandidatesFrom_lexical (cs : List (HybridCandidate K)) :
    addCandidatesFrom lexicalWeight true lexical.length cs (mergedTable lexical [] lexicalWeight vectorWeight) =
      mergedTable (lexical ++ cs) [] lexicalWeight vectorWeight := by
  induction cs generalizing lexical with
  | nil => rw [addCandidatesFrom, List.append_nil]
  | cons c cs ih =>
    have hrest := ih (lexical ++ [c])
    rw [List.length_append, List.length_singleton, List.append_assoc, List.singleton_append] at hrest
    rw [addCandidatesFrom, addCandidate_lexical, hrest]

variable (vector) in
/-- The loop over the vector candidates. -/
theorem addCandidatesFrom_vector (cs : List (HybridCandidate K)) :
    addCandidatesFrom vectorWeight false vector.length cs (mergedTable lexical vector lexicalWeight vectorWeight) =
      mergedTable lexical (vector ++ cs) lexicalWeight vectorWeight := by
  induction cs generalizing vector with
  | nil => rw [addCandidatesFrom, List.append_nil]
  | cons c cs ih =>
    have hrest := ih (vector ++ [c])
    rw [List.length_append, List.length_singleton, List.append_assoc, List.singleton_append] at hrest
    rw [addCandidatesFrom, addCandidate_vector, hrest]

omit [DivisionRing K] in
/-- In a list that is in the order of a number, the number says which place comes first. -/
theorem index_le_iff {α : Type} {f : α → Nat} {l : List α} (h : l.Pairwise fun a b => f a < f b) {i j : Nat}
    (hi : i < l.length) (hj : j < l.length) : f l[i] ≤ f l[j] ↔ i ≤ j := by
  have hlt := List.pairwise_iff_getElem.mp h
  constructor
  · intro hle
    by_contra hji
    exact absurd (hlt j i hj hi (by omega)) (by omega)
  · intro hij
    rcases hij.lt_or_eq with hij | rfl
    · exact (hlt i j hi hj hij).le
    · exact le_rfl

variable [LinearOrder K]

/-- The table in order, and the fusion. -/
theorem map_sort_mergedTable : (sortByKey HybridMerged.rank
      (mergedTable lexical vector lexicalWeight vectorWeight)).map (·.hit) =
    (fusion (rrfRankings lexical vector lexicalWeight vectorWeight)).map
      (fusedHit lexical vector lexicalWeight vectorWeight) := by
  set rs := rrfRankings lexical vector lexicalWeight vectorWeight with hrs
  have hmapIds : (mergedTable lexical vector lexicalWeight vectorWeight).map (fun m => m.hit.id) =
      appearances (rankedIds rs) := by
    refine List.ext_getElem (by simp [mergedTable, hrs]) fun i h₁ h₂ => ?_
    simp [mergedTable, mergedEntry_id, hrs]
  have hids : (sortByKey HybridMerged.rank (mergedTable lexical vector lexicalWeight vectorWeight)).map
      (fun m => m.hit.id) = fusion rs := by
    rw [sortByKey, List.map_insertionSort _ (fun a b => fusionKey rs a ≤ fusionKey rs b), hmapIds]
    · rfl
    · intro a ha b hb
      obtain ⟨i, hi, rfl⟩ := List.mem_mapIdx.mp ha
      obtain ⟨j, hj, rfl⟩ := List.mem_mapIdx.mp hb
      rw [fusionKey_le, HybridMerged.rank, HybridMerged.rank, Prod.Lex.toLex_le_toLex, OrderDual.toDual_lt_toDual,
        OrderDual.toDual_inj]
      refine or_congr Iff.rfl (and_congr_right fun _ => ?_)
      exact (index_le_iff (pairwise_appearances (rankedIds rs)) hi hj).symm
  have hhit : ∀ m ∈ sortByKey HybridMerged.rank (mergedTable lexical vector lexicalWeight vectorWeight),
      m.hit = fusedHit lexical vector lexicalWeight vectorWeight m.hit.id := by
    intro m hm
    obtain ⟨i, hi, rfl⟩ := List.mem_mapIdx.mp (mem_sortByKey.mp hm)
    rfl
  rw [← hids, List.map_map]
  exact List.map_congr_left hhit

end Table

/-! ## The results -/

section Results

variable {K : Type} [DivisionRing K] [LinearOrder K] {lexical vector : List (HybridCandidate K)}
  {lexicalWeight vectorWeight : K} {topK hitCapacity : Nat}

theorem ValidFusion.arguments (h : ValidFusion lexical vector lexicalWeight vectorWeight topK hitCapacity) :
    ¬ (topK = 0 ∨ hitCapacity < topK ∨ lexicalWeight < 0 ∨ vectorWeight < 0 ∨
      (lexicalWeight = 0 ∧ vectorWeight = 0)) := by
  rintro (h' | h' | h' | h' | ⟨h₁, h₂⟩)
  · exact h.topK_pos.ne' h'
  · exact absurd h.capacity (Nat.not_le.mpr h')
  · exact absurd h.lexicalWeight_nonneg (not_le.mpr h')
  · exact absurd h.vectorWeight_nonneg (not_le.mpr h')
  · exact h.weights.elim (fun hne => hne h₁) fun hne => hne h₂

omit [DivisionRing K] [LinearOrder K] in
theorem validateCandidates_eq (h : ∀ c ∈ lexical, c.id ≠ []) : validateCandidates lexical = .ok () :=
  if_neg fun ⟨c, hc, hnil⟩ => h c hc hnil

/-- The hits of a valid call are those of the fusion. -/
theorem ValidFusion.fuseRrf_eq (h : ValidFusion lexical vector lexicalWeight vectorWeight topK hitCapacity) :
    fuseRrf lexical vector lexicalWeight vectorWeight topK hitCapacity =
      .ok (fusedHits lexical vector lexicalWeight vectorWeight topK) := by
  rw [fuseRrf, if_neg h.arguments, validateCandidates_eq h.lexicalIds, validateCandidates_eq h.vectorIds]
  show (if lexical.length + vector.length = 0 then Except.ok [] else _) = _
  split
  · rename_i hempty
    obtain ⟨hl, hv⟩ := Nat.add_eq_zero_iff.mp hempty
    obtain rfl := List.eq_nil_of_length_eq_zero hl
    obtain rfl := List.eq_nil_of_length_eq_zero hv
    simp [fusedHits, fusion, rankedIds_rrfRankings, appearances, sortByKey]
  · have hlexical : addCandidatesFrom lexicalWeight true 0 lexical [] =
        mergedTable lexical [] lexicalWeight vectorWeight :=
      addCandidatesFrom_lexical [] lexical
    have hvector : addCandidatesFrom vectorWeight false 0 vector (mergedTable lexical [] lexicalWeight vectorWeight) =
        mergedTable lexical vector lexicalWeight vectorWeight :=
      addCandidatesFrom_vector [] vector
    rw [hlexical, hvector, List.map_take, map_sort_mergedTable, ← List.map_take]
    rfl

section Fair

variable [IsStrictOrderedRing K] {candidates : List (HybridCandidate K)} {weight : K}

theorem hybridRrfK_add_pos (rank : Nat) : (0 : K) < hybridRrfK + (rank : K) :=
  add_pos_of_pos_of_nonneg (by norm_num [hybridRrfK]) (Nat.cast_nonneg rank)

/-- A candidate gets no more for a later rank. -/
theorem rrfRanking_fair (hweight : 0 ≤ weight) : (rrfRanking candidates weight).Fair where
  antitone i j hij := by
    refine div_le_div_of_nonneg_left hweight (hybridRrfK_add_pos _) ?_
    simpa using hij
  nonneg i := div_nonneg hweight (hybridRrfK_add_pos _).le

theorem ValidFusion.fair (h : ValidFusion lexical vector lexicalWeight vectorWeight topK hitCapacity) :
    ∀ r ∈ rrfRankings lexical vector lexicalWeight vectorWeight, r.Fair := by
  rintro r hr
  rcases List.mem_pair.mp hr with rfl | rfl
  · exact rrfRanking_fair h.lexicalWeight_nonneg
  · exact rrfRanking_fair h.vectorWeight_nonneg

end Fair

end Results

end Yappod

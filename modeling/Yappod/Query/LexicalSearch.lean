import Mathlib.Algebra.Order.Field.Basic
import Mathlib.Data.Prod.Lex
import Yappod.Components.LexicalWriter
import Yappod.Lib.TopK

/-!
# Lexical search

`YAP_V2_lexical_search_prepared` ranks the objects of a segment for a query.  Every query term that the segment
has gets a cursor over its postings.  For an OR query the loop adds up upper bounds of the blocks the cursors
are in until they reach the score of the worst hit kept, and moves the cursors before that pivot up to it; for
an AND query or a phrase it moves the cursors to an object they all have.

Scores are elements of an ordered division ring, and `log1p` is a parameter: there is no rounding here.
-/

set_option autoImplicit false

namespace Yappod

/-! ## Queries -/

inductive QueryOperator
  | or
  | and
  deriving DecidableEq, Repr

/-- `YAP_V2_LEXICAL_CORPUS_STATS`. -/
structure CorpusStats where
  documentCount : Nat
  passageCount : Nat
  fieldTokenCount : PerField
  deriving DecidableEq, Repr

/-- `YAP_V2_LEXICAL_SEARCH_OPTIONS`; no object type stands for both. -/
structure SearchOptions (K : Type) where
  objectType : Option ObjectType
  queryOperator : QueryOperator
  phrase : Bool
  fieldBoost : Field → K
  topK : Nat
  accept : Nat → Nat → Bool

/-- `YAP_V2_LEXICAL_HIT`. -/
structure Hit (K : Type) where
  objectType : Nat
  objectOrdinal : Nat
  score : K
  matchedTerms : Nat
  deriving DecidableEq, Repr

/-- The order of `hit_compare`: the higher score first, then by type and ordinal. -/
def Hit.rank {K : Type} [LinearOrder K] (h : Hit K) : Kᵒᵈ ×ₗ ℕ ×ₗ ℕ :=
  toLex (OrderDual.toDual h.score, toLex (h.objectType, h.objectOrdinal))

/-- The part of `YAP_V2_LEXICAL_QUERY_PLAN` that does not depend on the segments: the tokens of the query, its
terms, and which of them each token is. -/
structure QueryPlan where
  tokens : List Bytes
  terms : List Bytes
  tokenTerms : List Nat
  deriving DecidableEq, Repr

/-- One token more: it is one of the terms, or a new one. -/
def QueryPlan.add (plan : QueryPlan) (token : Bytes) : QueryPlan :=
  match plan.terms.findIdx? (· = token) with
  | some i => ⟨plan.tokens ++ [token], plan.terms, plan.tokenTerms ++ [i]⟩
  | none => ⟨plan.tokens ++ [token], plan.terms ++ [token], plan.tokenTerms ++ [plan.terms.length]⟩

/-- `YAP_V2_lexical_query_plan_prepare`. -/
def queryPlanPrepare (tokenize : Tokenize) (query : Bytes) : Except Status QueryPlan :=
  if query = [] then .error .invalidArgument
  else do
    let tokens ← tokenize query
    return tokens.foldl QueryPlan.add ⟨[], [], []⟩

/-- How many objects of a type a segment has for a term. -/
def segmentFrequency (segment : Option LexicalSegment) (term : Bytes) (objectType : ObjectType) :
    Check Nat :=
  match segment.bind fun s => (s.termFind term).map fun e => (s, e) with
  | none => .ok 0
  | some (s, e) => s.typeFrequency e objectType

/-- The sum over the segments. -/
def bindFrequency (segments : List (Option LexicalSegment)) (term : Bytes) (objectType : ObjectType) :
    Check Nat :=
  match segments with
  | [] => .ok 0
  | s :: segments => do
    let here ← segmentFrequency s term objectType
    let rest ← bindFrequency segments term objectType
    return here + rest

/-- What `YAP_V2_lexical_query_plan_bind` finds out about a term: how many documents and how many passages
have it. -/
def bindTerm (segments : List (Option LexicalSegment)) (term : Bytes) : Check (Nat × Nat) := do
  let documents ← bindFrequency segments term .document
  let passages ← bindFrequency segments term .passage
  return (documents, passages)

/-- `YAP_V2_lexical_query_plan_bind`: the frequencies of the terms.  Where a segment has a term is looked up
again when the segment is searched. -/
def queryPlanBind (plan : QueryPlan) (segments : List (Option LexicalSegment)) :
    Check (List (Nat × Nat)) :=
  if segments = [] then .error (.status .invalidArgument)
  else plan.terms.mapM (bindTerm segments)

/-! ## Scores -/

section Scores

variable {K : Type} [DivisionRing K] [LinearOrder K] (log1p : K → K) (stats : CorpusStats)
  (options : SearchOptions K)

/-- `YAP_BM25_DEFAULT_K1`. -/
def bm25K1 : K := 6 / 5

/-- `YAP_BM25_DEFAULT_B`. -/
def bm25B : K := 3 / 4

/-- `average_length`. -/
def averageLength (objectType : Nat) (field : Field) : K :=
  let count := if field = .passage then stats.passageCount else stats.documentCount
  if (field = .passage ∧ objectType ≠ 2) ∨ (field ≠ .passage ∧ objectType ≠ 1) ∨ count = 0 then 1
  else if stats.fieldTokenCount.get field.code = 0 then 1
  else (stats.fieldTokenCount.get field.code : K) / count

/-- `idf_value`. -/
def idfValue (frequency count : Nat) : K :=
  if frequency = 0 ∨ count = 0 ∨ count < frequency then 0
  else log1p (((count : K) - frequency + 1 / 2) / ((frequency : K) + 1 / 2))

/-- The number of objects of a type. -/
def CorpusStats.objectCount (objectType : Nat) : Nat :=
  if objectType = 1 then stats.documentCount else stats.passageCount

/-- The length of a field, against the average. -/
def lengthNorm (objectType : Nat) (field : Field) (length : Nat) : K :=
  (1 - bm25B) + bm25B * ((length : K) / averageLength stats objectType field)

def Field.all : List Field := [.title, .body, .passage]

/-- The weighted term frequency of a posting. -/
def weightedTf (p : Posting) : K :=
  (Field.all.map fun f =>
    if p.termFrequency.get f.code = 0 then 0
    else options.fieldBoost f * (p.termFrequency.get f.code : K) /
      lengthNorm stats p.objectType f (p.fieldLength.get f.code)).sum

/-- How a weighted term frequency counts, for a term of that frequency. -/
def saturate (frequency count : Nat) (tf : K) : K :=
  idfValue log1p frequency count * (tf * (bm25K1 + 1)) / (bm25K1 + tf)

/-- The frequency of a term among the objects of a type. -/
def typeOf (frequency : Nat × Nat) (objectType : Nat) : Nat :=
  if objectType = 1 then frequency.1 else frequency.2

/-- `posting_score`. -/
def postingScore (frequency : Nat × Nat) (p : Posting) : K :=
  if weightedTf stats options p ≤ 0 then 0
  else saturate log1p (typeOf frequency p.objectType) (stats.objectCount p.objectType)
    (weightedTf stats options p)

/-- The best weight of a field, for a block whose shortest field is that long. -/
def bestWeight (objectType minLength : Nat) : K :=
  Field.all.foldl (fun best f =>
    max best (options.fieldBoost f / lengthNorm stats objectType f minLength)) 0

/-- The bound for the objects of one type in a block. -/
def typeBound (frequency : Nat × Nat) (b : PostingsBlock) (objectType : ObjectType) : K :=
  if options.objectType.isSome ∧ options.objectType ≠ some objectType then 0
  else saturate log1p (typeOf frequency objectType.code) (stats.objectCount objectType.code)
    (bestWeight stats options objectType.code b.minFieldLength * (b.maxTermFrequency : K))

/-- The bound of `block_upper_bound` for a block. -/
def blockBound (frequency : Nat × Nat) (b : PostingsBlock) : K :=
  max (max 0 (typeBound log1p stats options frequency b .document))
    (typeBound log1p stats options frequency b .passage)

end Scores

/-! ## Cursors -/

/-- `TERM_STATE`: the term in the plan and in the segment, its frequencies, and the postings from the current
one on. -/
structure TermState where
  slot : Nat
  term : TermEntry
  typeFrequency : Nat × Nat
  index : Nat
  rest : List Posting
  deriving DecidableEq, Repr

/-- `posting_key`. -/
def postingKey (p : Posting) : Nat := (p.objectType - 1) * 2 ^ 63 + p.objectOrdinal

/-- Is the posting of the type that is searched? -/
def allowedType (objectType : Option ObjectType) (p : Posting) : Bool :=
  match objectType with
  | none => true
  | some t => p.objectType = t.code

namespace TermState

/-- The key of the current posting. -/
def key (st : TermState) : Nat := (st.rest.head?.map postingKey).getD 0

/-- Move on while the current posting is passed over. -/
def seek (pass : Posting → Bool) : Nat → List Posting → Nat × List Posting
  | i, [] => (i, [])
  | i, p :: ps => if pass p then seek pass (i + 1) ps else (i, p :: ps)

/-- `state_skip_type`. -/
def skipType (objectType : Option ObjectType) (st : TermState) : TermState :=
  let (i, rest) := seek (fun p => !allowedType objectType p) st.index st.rest
  { st with index := i, rest := rest }

/-- `state_advance_to`.  The loop takes a step before it looks at the key, so it leaves the current posting
even when that has the key. -/
def advanceTo (objectType : Option ObjectType) (key : Nat) (st : TermState) : TermState :=
  let (i, rest) := seek (fun p => !allowedType objectType p || postingKey p < key) (st.index + 1)
    st.rest.tail
  { st with index := i, rest := rest }

end TermState

/-! ## The loop -/

section Search

variable {K : Type} [DivisionRing K] [LinearOrder K] (log1p : K → K) (stats : CorpusStats)
  (options : SearchOptions K) (segment : LexicalSegment) (plan : QueryPlan)

/-- `block_upper_bound`. -/
def blockUpperBound (st : TermState) : K :=
  match segment.block st.term (st.index / postingsBlockSize) with
  | .ok b => blockBound log1p stats options st.typeFrequency b
  | .error _ => 0

/-- The cursors that are not at the end, in the order of their keys. -/
def activeStates (states : List TermState) : List TermState :=
  (states.filter fun st => st.rest ≠ []).insertionSort fun a b => a.key ≤ b.key

/-- The pivot of an OR query: the first cursor at which the bounds add up to the threshold. -/
def pivotFrom (bound : TermState → K) (threshold : K) : List TermState → Nat → K → Option Nat
  | [], _, _ => none
  | st :: rest, i, sum =>
    if threshold ≤ sum + bound st ∧ 0 < sum + bound st then some i
    else pivotFrom bound threshold rest (i + 1) (sum + bound st)

/-- `hit_threshold`: the lowest score kept, once there are enough. -/
def hitThreshold (hits : List (Hit K)) : K :=
  if hits.length < options.topK then 0
  else
    match hits with
    | [] => 0
    | h :: hits => hits.foldl (fun low h => min low h.score) h.score

/-- The cursor of a term of the plan. -/
def stateOf (states : List TermState) (slot : Nat) : Option TermState :=
  states.find? fun st => st.slot = slot

/-- The current posting of the cursor of a term, if its key is that. -/
def postingAt (states : List TermState) (key slot : Nat) : Option (TermEntry × Posting) :=
  (stateOf states slot).bind fun st => st.rest.head?.bind fun p =>
    if postingKey p = key then some (st.term, p) else none

/-- The positions of a posting, as far as they can be read. -/
def positionsFrom (term : TermEntry) (p : Posting) : Nat → Nat → Option (List (Nat × Nat))
  | 0, _ => some []
  | n + 1, i =>
    match segment.positionAt term p i with
    | .error _ => none
    | .ok x => (positionsFrom term p n (i + 1)).map (x :: ·)

/-- Does the phrase go on from a position?  The `q`-th token is `q` places on, in the same field. -/
def phraseFrom (base : Nat × Nat) : Nat → List (List (Nat × Nat)) → Bool
  | _, [] => true
  | q, positions :: rest => positions.any (fun x => x.1 = base.1 ∧ x.2 = base.2 + q) &&
    phraseFrom base (q + 1) rest

/-- `phrase_matches`, with the positions of the tokens read first. -/
def phraseMatches (states : List TermState) (key : Nat) : Bool :=
  match plan.tokenTerms.mapM fun slot => (postingAt states key slot).bind fun x =>
      positionsFrom segment x.1 x.2 x.2.positionCount 0 with
  | none => false
  | some [] => false
  | some (first :: rest) => first.any fun base => phraseFrom base 1 rest

/-- The hit at a key: what the cursors there add up to. -/
def hitAt (active : List TermState) (key : Nat) (p : Posting) : Hit K where
  objectType := p.objectType
  objectOrdinal := p.objectOrdinal
  score := ((active.filter fun st => st.key = key).map fun st =>
    (st.rest.head?.map (postingScore log1p stats options st.typeFrequency)).getD 0).sum
  matchedTerms := (active.filter fun st => st.key = key).length

/-- What a turn of the loop does: move cursors, or look at an object and go past it. -/
inductive Turn (K : Type)
  | move (states : List TermState)
  | score (states : List TermState) (hit : Hit K) (keep : Bool)

/-- Is every term wanted? -/
def SearchOptions.conjunctive (options : SearchOptions K) : Bool :=
  options.queryOperator = .and ∨ options.phrase = true

/-- The cursors that are at a key go past it. -/
def leaveKey (key : Nat) (states : List TermState) : List TermState :=
  states.map fun st =>
    if st.rest ≠ [] ∧ st.key = key then st.advanceTo options.objectType (key + 1) else st

/-- Score the object at a key. -/
def scoreKey (states active : List TermState) (key : Nat) (p : Posting) : Turn K :=
  let hit := hitAt log1p stats options active key p
  .score (leaveKey options key states) hit
    ((!options.phrase || phraseMatches segment plan states key) &&
      (options.queryOperator = .or || hit.matchedTerms = states.length) &&
      options.accept hit.objectType hit.objectOrdinal && 0 < hit.score)

/-- One turn of the loop, or its end. -/
def searchTurn (states : List TermState) (hits : List (Hit K)) : Option (Turn K) :=
  match activeStates states with
  | [] => none
  | first :: others =>
    match first.rest with
    | [] => none
    | p :: _ =>
      if options.conjunctive then
        if (first :: others).length < states.length then none
        else
          let key := ((first :: others).getLast?.map (·.key)).getD 0
          if first.key ≠ key then
            some (.move (states.map fun st =>
              if st.rest ≠ [] ∧ st.key < key then st.advanceTo options.objectType key else st))
          else some (scoreKey log1p stats options segment plan states (first :: others) key p)
      else
        match pivotFrom (blockUpperBound log1p stats options segment) (hitThreshold options hits)
            (first :: others) 0 0 with
        | none =>
          some (.move (states.map fun st =>
            if st.slot = first.slot then st.advanceTo options.objectType 0 else st))
        | some pivot =>
          let key := ((first :: others)[pivot]?.map (·.key)).getD 0
          if first.key ≠ key then
            let before : List Nat := ((first :: others).take pivot).map (·.slot)
            some (.move (states.map fun st =>
              if st.slot ∈ before then st.advanceTo options.objectType key else st))
          else some (scoreKey log1p stats options segment plan states (first :: others) key p)

/-- `add_hit`. -/
def addHit (hits : List (Hit K)) (hit : Hit K) : List (Hit K) := keepBest Hit.rank options.topK hits hit

/-- The loop.  Every turn moves a cursor, so there are no more turns than postings. -/
def searchLoop : Nat → List TermState → List (Hit K) → List (Hit K)
  | 0, _, hits => hits
  | fuel + 1, states, hits =>
    match searchTurn log1p stats options segment plan states hits with
    | none => hits
    | some (.move states) => searchLoop fuel states hits
    | some (.score states hit keep) =>
      searchLoop fuel states (if keep then addHit options hits hit else hits)

/-- The number of postings the cursors have before them. -/
def remaining (states : List TermState) : Nat := (states.map fun st => st.rest.length).sum

/-- The cursors of the terms that the segment has, from the `i`-th term on; none if a term that is needed is not
there. -/
def openStates : Nat → List (Bytes × (Nat × Nat)) → Check (Option (List TermState))
  | _, [] => .ok (some [])
  | i, (term, frequency) :: terms =>
    match segment.termFind term with
    | none => if options.conjunctive then .ok none else openStates (i + 1) terms
    | some e => do
      let postings ← segment.postings e
      let states ← openStates (i + 1) terms
      return states.map fun states => ⟨i, e, frequency, 0, postings⟩ :: states

/-- `YAP_V2_lexical_search_prepared`. -/
def lexicalSearchPrepared (frequencies : List (Nat × Nat)) (segment : Option LexicalSegment)
    (hitCapacity : Nat) : Check (List (Hit K)) :=
  if options.topK = 0 ∨ hitCapacity < options.topK ∨ ∃ f ∈ Field.all, options.fieldBoost f < 0 then
    .error (.status .invalidArgument)
  else if plan.tokens = [] then .ok []
  else
    match segment with
    | none => .error (.status .invalidArgument)
    | some segment =>
      if ∃ f ∈ frequencies, stats.documentCount < f.1 ∨ stats.passageCount < f.2 then
        .error (.status .conflict)
      else do
        match ← openStates options segment 0 (plan.terms.zip frequencies) with
        | none => return []
        | some states =>
          let states := states.map (·.skipType options.objectType)
          return sortByKey Hit.rank
            (searchLoop log1p stats options segment plan (remaining states + 1) states [])

end Search

end Yappod

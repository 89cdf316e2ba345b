import Yappod.Query.Hybrid
import Yappod.Query.LexicalText
import Yappod.Query.Retrieve
import Yappod.Query.VectorCollect

/-!
# Executing a query

`YAP_V2_query_execute_with_ann`: lexical and vector candidates of all segments of a snapshot, each in a bounded set, are
sorted and fused, and for each fused id the candidate it came from is looked up, among the lexical ones first.

The scores of the lexical search and of the vectors are from one ordered division ring.  The query vector is part of the
vector request; the request only says whether there is one.

* `Ranked` — the candidates of a set in order.
* `queryHits_eq` — the fused hits all have a candidate they came from.
-/

set_option autoImplicit false

namespace Yappod

open scoped ByteOrder

/-! ## The code -/

/-- `YAP_V2_SEARCH_MODE`. -/
inductive SearchMode
  | lexical
  | vector
  | hybrid
  deriving DecidableEq, Repr

/-- `YAP_V2_QUERY_SEGMENT`. -/
structure SearchSegment (V M S : Type) extends QuerySegment V M S where
  lexical : Option LexicalSegment

/-- `YAP_V2_QUERY_REQUEST`. -/
structure QueryRequest (V M K : Type) extends VectorRequest V M K where
  mode : SearchMode
  query : Bytes
  hasVector : Bool
  queryOperator : QueryOperator
  phrase : Bool
  topK : Nat
  lexicalWeight : K
  vectorWeight : K

/-- `YAP_V2_QUERY_CORPUS_STATS`. -/
structure QueryCorpusStats where
  generation : Nat
  lexical : CorpusStats
  deriving DecidableEq, Repr

/-- `add_u64`. -/
def addU64 (total value : Nat) : Except Status Nat :=
  if uint64Max - value < total then .error .outOfRange else .ok (total + value)

/-- The totals of one segment more. -/
def corpusStatsAdd (stats : CorpusStats) : SegmentContents × Option LexicalSegment → Except Status CorpusStats
  | (_, none) => .ok stats
  | (contents, some s) =>
    if s.totals.documentCount ≠ contents.documents.length ∨ s.totals.passageCount ≠ contents.passages.length then
      .error .conflict
    else do
      let documentCount ← addU64 stats.documentCount s.totals.documentCount
      let passageCount ← addU64 stats.passageCount s.totals.passageCount
      let title ← addU64 stats.fieldTokenCount.title s.totals.fieldTokenCount.title
      let body ← addU64 stats.fieldTokenCount.body s.totals.fieldTokenCount.body
      let passage ← addU64 stats.fieldTokenCount.passage s.totals.fieldTokenCount.passage
      return ⟨documentCount, passageCount, ⟨title, body, passage⟩⟩

/-- `YAP_V2_query_corpus_stats_build`, for a snapshot of that generation. -/
def queryCorpusStatsBuild (generation : Nat) (xs : List SegmentContents) (lexicals : List (Option LexicalSegment)) :
    Except Status QueryCorpusStats :=
  if lexicals.length = 0 ∨ lexicals.length ≠ xs.length then .error .invalidArgument
  else ((xs.zip lexicals).foldlM corpusStatsAdd ⟨0, 0, ⟨0, 0, 0⟩⟩).map fun stats => ⟨generation, stats⟩

/-- A status in a place where a read may fail. -/
def checkStatus {α : Type} : Except Status α → Check α
  | .ok a => .ok a
  | .error status => .error (.status status)

section Collect

variable {V M K : Type} [DivisionRing K] [LinearOrder K] (tokenize : Tokenize) (log1p : K → K)
  (xs : List SegmentContents) (stats : CorpusStats) (request : QueryRequest V M K)

/-- `lexical_accept`. -/
def lexicalAccept (filter : Nat → Bool) (s : Nat) (contents : SegmentContents) (objectType objectOrdinal : Nat) : Bool :=
  let documentId :=
    if objectType = ObjectType.document.code then contents.documents[objectOrdinal]?.map (·.id)
    else if objectType = ObjectType.passage.code then contents.passages[objectOrdinal]?.map (·.parentDocumentId)
    else none
  match documentId.bind (snapshotDocumentOrdinal xs s) with
  | none => false
  | some documentOrdinal => filter documentOrdinal

/-- `request->scope`, as the type of an object. -/
def SearchScope.objectType : SearchScope → ObjectType
  | .documents => .document
  | .passages => .passage

/-- The options of the search of a segment. -/
def lexicalOptions (localLimit : Nat) (filter : Nat → Bool) (s : Nat) (contents : SegmentContents) :
    SearchOptions K where
  objectType := some request.scope.objectType
  queryOperator := request.queryOperator
  phrase := request.phrase
  fieldBoost f := if f = .title then 1 + 1 else 1
  topK := localLimit
  accept := lexicalAccept xs filter s contents

/-- The candidate for a hit of a segment. -/
def lexicalCandidate (s : Nat) (contents : SegmentContents) (hit : Hit K) : Except Status (Option (Candidate K)) :=
  if hit.objectType = ObjectType.document.code then
    match contents.documents[hit.objectOrdinal]? with
    | none => .error .conflict
    | some document => .ok (some ⟨document.id, document.id, s, hit.objectOrdinal, hit.score⟩)
  else
    match contents.passages[hit.objectOrdinal]? with
    | none => .error .conflict
    | some passage => .ok (some ⟨passage.id, passage.parentDocumentId, s, hit.objectOrdinal, hit.score⟩)

/-- `local_limit`. -/
def lexicalLimit (contents : SegmentContents) : Nat :=
  min (contents.objectCount request.scope.objectType) request.candidateK

/-- One round of the loop over the segments in `collect_lexical`. -/
def collectLexicalSegment (plan : QueryPlan) (frequencies : List (Nat × Nat)) (s : Nat) (contents : SegmentContents)
    (segment : SearchSegment V M K) (candidates : CandidateSet K) : Check (CandidateSet K) :=
  let localLimit := lexicalLimit request contents
  if localLimit = 0 then .ok candidates
  else if segment.lexical.isNone then .error (.status .invalidArgument)
  else do
    let filter ← checkStatus (compileFilter request.toVectorRequest segment.toQuerySegment)
    let hits ← lexicalSearchPrepared log1p stats (lexicalOptions xs request localLimit filter s contents) plan
      frequencies segment.lexical localLimit
    checkStatus (addCandidates (lexicalCandidate s contents) hits candidates)

/-- The loop over the segments, from the `s`-th on. -/
def collectLexicalSegments (plan : QueryPlan) (frequencies : List (Nat × Nat)) :
    Nat → List (SegmentContents × SearchSegment V M K) → CandidateSet K → Check (CandidateSet K)
  | _, [], candidates => .ok candidates
  | s, (contents, segment) :: rest, candidates => do
    let candidates ← collectLexicalSegment log1p xs stats request plan frequencies s contents segment candidates
    collectLexicalSegments plan frequencies (s + 1) rest candidates

/-- `collect_lexical`. -/
def collectLexical (segments : List (SearchSegment V M K)) (candidates : CandidateSet K) : Check (CandidateSet K) := do
  let plan ← checkStatus (queryPlanPrepare tokenize request.query)
  let frequencies ← queryPlanBind plan (segments.map (·.lexical))
  collectLexicalSegments log1p xs stats request plan frequencies 0 (xs.zip segments) candidates

end Collect

section Execute

variable {V M K : Type} [DivisionRing K] [LinearOrder K]

/-- What is fused of a candidate. -/
def Candidate.hybrid {S : Type} (c : Candidate S) : HybridCandidate S := ⟨c.id, c.score⟩

/-- The candidate that a fused hit came from. -/
def candidateSource {S : Type} (lexical vector : List (Candidate S)) (id : Bytes) : Option (Candidate S) :=
  (lexical.find? fun c => c.id = id).or (vector.find? fun c => c.id = id)

/-- The hit for a fused hit that came from a candidate. -/
def Candidate.queryHit {S : Type} (source : Candidate S) (fused : HybridHit S) : QueryHit S :=
  ⟨source.id, source.parent, source.segment, source.ordinal, fused.lexicalScore, fused.vectorScore, fused.fusedScore⟩

/-- The loop over the fused hits. -/
def lookupHits {S : Type} (lexical vector : List (Candidate S)) : List (HybridHit S) → Check (List (QueryHit S))
  | [] => .ok []
  | fused :: rest =>
    match candidateSource lexical vector fused.id with
    | none => .error (.status .conflict)
    | some source => (lookupHits lexical vector rest).map (source.queryHit fused :: ·)

variable (request : QueryRequest V M K)

/-- The weight of the lexical list. -/
def QueryRequest.lexicalShare : K := if request.mode = .vector then 0 else request.lexicalWeight

/-- The weight of the vector list. -/
def QueryRequest.vectorShare : K := if request.mode = .lexical then 0 else request.vectorWeight

/-- What follows the collection, for sorted candidates. -/
def queryHits (lexical vector : List (Candidate K)) : Check (List (QueryHit K)) :=
  if lexical.length + vector.length = 0 then .ok []
  else
    match fuseRrf (lexical.map (·.hybrid)) (vector.map (·.hybrid)) request.lexicalShare request.vectorShare
        request.topK request.topK with
    | .error _ => .error (.status .invalidArgument)
    | .ok fused => lookupHits lexical vector fused

/-- `YAP_V2_query_execute_with_ann`, for a snapshot of that generation; `none` if the loops did not end. -/
def queryExecuteWithAnn (tokenize : Tokenize) (log1p : K → K) (generation : Nat) (xs : List SegmentContents)
    (segments : List (SearchSegment V M K)) (stats : QueryCorpusStats) (corpus : Option AnnCorpus)
    (plan : Option AnnQueryPlan) (hitCapacity : Nat) : Option (Check (List (QueryHit K))) :=
  if stats.generation ≠ generation ∨ segments.length = 0 ∨ segments.length ≠ xs.length ∨ request.topK = 0 ∨
      request.candidateK < request.topK ∨ hitCapacity < request.topK then some (.error (.status .invalidArgument))
  else if request.mode ≠ .vector ∧ request.query = [] then some (.error (.status .invalidArgument))
  else if request.mode ≠ .lexical ∧ request.hasVector = false then some (.error (.status .invalidArgument))
  else
    match candidateSetInit 0 request.candidateK with
    | .error _ => some (.error (.status .allocationFailed))
    | .ok empty =>
      match if request.mode = .vector then .ok empty
        else collectLexical tokenize log1p xs stats.lexical request segments empty with
      | .error fault => some (.error fault)
      | .ok lexical =>
        match if request.mode = .lexical then some (.ok empty)
          else collectVector xs (segments.map (·.toQuerySegment)) request.toVectorRequest 0 corpus plan empty with
        | none => none
        | some (.error status) => some (.error (.status status))
        | some (.ok vector) => some (queryHits request (sortByKey Candidate.rank lexical.contents)
            (sortByKey Candidate.rank vector.contents))

end Execute

/-! ## Fusing candidates -/

section Fuse

variable {V M K : Type} [DivisionRing K] [LinearOrder K] {request : QueryRequest V M K}
  {lexical vector : List (Candidate K)}

/-- Candidates of different ids in order, the best first. -/
structure Ranked (cs : List (Candidate K)) : Prop where
  distinct : (cs.map (·.id)).Nodup
  sorted : cs.Pairwise fun a b => a.rank ≤ b.rank
  ids : ∀ c ∈ cs, c.id ≠ []

/-- The lists as rankings, with the weights of the request. -/
def queryRankings (request : QueryRequest V M K) (lexical vector : List (Candidate K)) : List (Ranking Bytes K) :=
  rrfRankings (lexical.map (·.hybrid)) (vector.map (·.hybrid)) request.lexicalShare request.vectorShare

/-- The fused hit for an id. -/
def queryFused (request : QueryRequest V M K) (lexical vector : List (Candidate K)) (id : Bytes) : HybridHit K :=
  fusedHit (lexical.map (·.hybrid)) (vector.map (·.hybrid)) request.lexicalShare request.vectorShare id

/-- The hits of a query: the first `top_k` of the fusion, each with the candidate it came from. -/
def fusedQueryHits (request : QueryRequest V M K) (lexical vector : List (Candidate K)) : List (QueryHit K) :=
  ((fusion (queryRankings request lexical vector)).take request.topK).filterMap fun id =>
    (candidateSource lexical vector id).map fun c => c.queryHit (queryFused request lexical vector id)

/-- The weights of a request are in order: none is negative, and one that counts is not zero. -/
structure QueryRequest.ValidWeights (request : QueryRequest V M K) : Prop where
  lexical : 0 ≤ request.lexicalShare
  vector : 0 ≤ request.vectorShare
  nonzero : request.lexicalShare ≠ 0 ∨ request.vectorShare ≠ 0

omit [DivisionRing K] [LinearOrder K] in
theorem map_hybrid_id (cs : List (Candidate K)) : (cs.map (·.hybrid)).map (·.id) = cs.map (·.id) := by
  simp [Candidate.hybrid, Function.comp_def]

omit [LinearOrder K] in
theorem mem_queryRankings {id : Bytes} : id ∈ rankedIds (queryRankings request lexical vector) ↔
    (∃ c ∈ lexical, c.id = id) ∨ ∃ c ∈ vector, c.id = id := by
  rw [queryRankings, rankedIds_rrfRankings, map_hybrid_id, map_hybrid_id, List.mem_append, List.mem_map, List.mem_map]

omit [DivisionRing K] [LinearOrder K] in
theorem candidateSource_isSome {id : Bytes} (h : (∃ c ∈ lexical, c.id = id) ∨ ∃ c ∈ vector, c.id = id) :
    (candidateSource lexical vector id).isSome = true := by
  rw [candidateSource, Option.isSome_or, Bool.or_eq_true, List.find?_isSome, List.find?_isSome]
  simpa using h

omit [DivisionRing K] [LinearOrder K] in
/-- **Every fused hit has a candidate it came from.** -/
theorem lookupHits_eq (hits : List (HybridHit K)) (h : ∀ hit ∈ hits, (candidateSource lexical vector hit.id).isSome = true) :
    lookupHits lexical vector hits = .ok (hits.filterMap fun hit =>
      (candidateSource lexical vector hit.id).map fun c => c.queryHit hit) := by
  induction hits with
  | nil => rfl
  | cons hit hits ih =>
    obtain ⟨hhit, hrest⟩ := List.forall_mem_cons.mp h
    obtain ⟨c, hc⟩ := Option.isSome_iff_exists.mp hhit
    rw [lookupHits, hc]
    dsimp only
    rw [ih hrest, List.filterMap_cons, hc]
    rfl

/-- **The hits of a query**: the first of the fusion. -/
theorem queryHits_eq (hweights : request.ValidWeights) (htopK : 0 < request.topK) (hlexical : Ranked lexical)
    (hvector : Ranked vector) : queryHits request lexical vector = .ok (fusedQueryHits request lexical vector) := by
  have hids : ∀ {cs : List (Candidate K)}, Ranked cs → ∀ c ∈ cs.map (·.hybrid), c.id ≠ [] := by
    intro cs hcs c hc
    obtain ⟨b, hb, rfl⟩ := List.mem_map.mp hc
    exact hcs.ids b hb
  have hvalid : ValidFusion (lexical.map (·.hybrid)) (vector.map (·.hybrid)) request.lexicalShare request.vectorShare
      request.topK request.topK :=
    ⟨htopK, le_rfl, hweights.lexical, hweights.vector, hweights.nonzero, hids hlexical, hids hvector⟩
  rw [queryHits]
  split
  · rename_i hempty
    obtain ⟨hl, hv⟩ := Nat.add_eq_zero_iff.mp hempty
    obtain rfl := List.eq_nil_of_length_eq_zero hl
    obtain rfl := List.eq_nil_of_length_eq_zero hv
    simp [fusedQueryHits, candidateSource]
  · rw [hvalid.fuseRrf_eq]
    dsimp only
    rw [lookupHits_eq, fusedHits, List.filterMap_map]
    · rfl
    · intro hit hhit
      obtain ⟨id, hid, rfl⟩ := List.mem_map.mp hhit
      exact candidateSource_isSome (mem_queryRankings.mp (mem_fusion.mp (List.mem_of_mem_take hid)))

end Fuse

end Yappod

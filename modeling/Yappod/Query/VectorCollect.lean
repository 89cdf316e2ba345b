import Yappod.Query.Candidates

/-!
# Vector candidates

`collect_vector`: the best passages of a snapshot for a query vector.  The base corpus is searched as one index, whose
keys may be of segments or documents that are gone; the segments that are not in it are searched one by one.  Since keys
are dropped when they are stale or filtered out, more of them are asked for than are needed, and twice as many if not
enough are left, up to all of them.

The vectors, their scores, the metadata and the filters are parameters, and so are the searches.

* `ExactSearch` — a search that gives the best keys by score.
* `BestUpToTies` — a selection of the best candidates, in which equal scores at the cut may be chosen freely.
* `collectVector_exact` — with exact searches this is what is collected from all visible passages.
-/

set_option autoImplicit false

namespace Yappod

open scoped ByteOrder

/-- `YAP_VECTOR_HIT`. -/
structure VectorHit (S : Type) where
  id : Bytes
  ordinal : Nat
  score : S

/-- `YAP_V2_ANN_SEGMENT`: the entries, and `YAP_V2_ann_search` for the query vector by the number of hits asked for. -/
structure AnnSegment (V S : Type) where
  vectors : Option (List (Bytes × V))
  search : Nat → Except Status (List (VectorHit S))

/-- `YAP_V2_QUERY_SEGMENT`, without the lexical index. -/
structure QuerySegment (V M S : Type) where
  vector : Option (AnnSegment V S)
  metadata : Option M

/-- `YAP_V2_ANN_CORPUS`: `search` is `YAP_V2_ann_corpus_search` for the query vector. -/
structure AnnCorpus where
  segmentCount : Nat
  vectorCount : Nat
  search : Nat → Except Status (List Nat)

/-- `YAP_V2_ANN_QUERY_PLAN`. -/
structure AnnQueryPlan where
  baseToCurrent : List (Option Nat)
  currentIsDelta : List Bool

/-- `YAP_V2_SEARCH_SCOPE`. -/
inductive SearchScope
  | documents
  | passages
  deriving DecidableEq, Repr

/-- The request: its scope, the number of candidates, the score of a vector for the query vector, and the filter unless
there is none: a filter is compiled for the metadata of a segment, and then matches ordinals of documents. -/
structure VectorRequest (V M S : Type) where
  scope : SearchScope
  candidateK : Nat
  score : V → Except Status S
  filter : Option (M → Except Status (Nat → Bool))

/-- `YAP_V2_snapshot_lookup_document` for a document that should be in a segment: its ordinal there. -/
def snapshotDocumentOrdinal (xs : List SegmentContents) (segmentOrdinal : Nat) (id : Bytes) : Option Nat :=
  match snapshotBuildVisibility xs with
  | none => none
  | some table =>
    match snapshotLookupDocument table id with
    | none => none
    | some place => if place.1 = segmentOrdinal then some place.2 else none

variable {V M S : Type} [LinearOrder S]
variable (xs : List SegmentContents) (segments : List (QuerySegment V M S)) (request : VectorRequest V M S)

/-- The filter of a segment: compiled if there is one. -/
def compileFilter (segment : QuerySegment V M S) : Except Status (Nat → Bool) :=
  match request.filter with
  | none => .ok fun _ => true
  | some compile =>
    match segment.metadata with
    | none => .error .invalidArgument
    | some metadata => compile metadata

/-- The candidate for a passage of a document. -/
def passageCandidate (segment ordinal : Nat) (passage : Passage) (documentOrdinal : Nat) (score : S) : Candidate S where
  id := if request.scope = .documents then passage.parentDocumentId else passage.id
  parent := passage.parentDocumentId
  segment := segment
  ordinal := if request.scope = .documents then documentOrdinal else ordinal
  score := score

/-- The entries of a segment. -/
def QuerySegment.entries (segment : QuerySegment V M S) : Option (List (Bytes × V)) := segment.vector.bind (·.vectors)

/-! ## The loops -/

/-- A round starts with the set emptied. -/
def CandidateSet.reset (set : CandidateSet S) : CandidateSet S :=
  { set with hash := ⟨set.hash.capacity, fun _ => .free⟩, count := 0 }

/-- Add the candidates of a list of keys or hits; one that is rejected has none. -/
def addCandidates {K : Type} (candidate : K → Except Status (Option (Candidate S))) :
    List K → CandidateSet S → Except Status (CandidateSet S)
  | [], set => .ok set
  | key :: keys, set =>
    match candidate key with
    | .error status => .error status
    | .ok none => addCandidates candidate keys set
    | .ok (some c) => addCandidates candidate keys ((set.add c).getD set)

/-- The rounds: `request_count` keys are asked for, then twice as many.  `none` if the loop did not end. -/
def overfetch {K : Type} (candidateK total : Nat) (search : Nat → Except Status (List K))
    (candidate : K → Except Status (Option (Candidate S))) :
    Nat → Nat → CandidateSet S → Option (Except Status (CandidateSet S))
  | 0, _, _ => none
  | fuel + 1, requestCount, set =>
    match search requestCount with
    | .error status => some (.error status)
    | .ok keys =>
      match addCandidates candidate keys set.reset with
      | .error status => some (.error status)
      | .ok set =>
        if candidateK ≤ set.count ∨ requestCount = total then some (.ok set)
        else overfetch candidateK total search candidate fuel
          (if total / 2 < requestCount then total else requestCount * 2) set

/-- The first `request_count`. -/
def firstRequestCount (candidateK total : Nat) : Nat :=
  min (if sizeMax / 4 < candidateK then total else candidateK * 4) total

/-- Run the rounds with a set of their own, and add what it holds. -/
def collectPart {K : Type} (zero : S) (total : Nat) (search : Nat → Except Status (List K))
    (candidate : K → Except Status (Option (Candidate S))) (candidates : CandidateSet S) :
    Option (Except Status (CandidateSet S)) :=
  match candidateSetInit zero request.candidateK with
  | .error status => some (.error status)
  | .ok own =>
    match overfetch request.candidateK total search candidate total (firstRequestCount request.candidateK total) own with
    | none => none
    | some (.error status) => some (.error status)
    | some (.ok own) => some (addCandidates (fun c => .ok (some c)) own.contents candidates)

/-- The body of the loop over the keys in `collect_vector_base`. -/
def baseCandidate (plan : AnnQueryPlan) (key : Nat) : Except Status (Option (Candidate S)) :=
  match plan.baseToCurrent[key / 2 ^ 32]? with
  | none => .ok none
  | some none => .ok none
  | some (some current) =>
    match xs[current]?, segments[current]? with
    | some contents, some segment =>
      match contents.passages[key % 2 ^ 32]?, segment.entries.bind fun entries => entries[key % 2 ^ 32]? with
      | some passage, some entry =>
        if passage.id ≠ entry.1 then .error .conflict
        else
          match snapshotDocumentOrdinal xs current passage.parentDocumentId with
          | none => .ok none
          | some documentOrdinal =>
            match compileFilter request segment with
            | .error status => .error status
            | .ok filter =>
              if !filter documentOrdinal then .ok none
              else
                match request.score entry.2 with
                | .error status => .error status
                | .ok score =>
                  .ok (some (passageCandidate request current (key % 2 ^ 32) passage documentOrdinal score))
      | _, _ => .error .conflict
    | _, _ => .error .conflict

/-- `collect_vector_base`. -/
def collectVectorBase (zero : S) (corpus : AnnCorpus) (plan : AnnQueryPlan) (candidates : CandidateSet S) :
    Option (Except Status (CandidateSet S)) :=
  if corpus.vectorCount = 0 then some (.ok candidates)
  else if plan.baseToCurrent.length ≠ corpus.segmentCount ∨ plan.currentIsDelta.length ≠ segments.length then
    some (.error .invalidArgument)
  else
    collectPart request zero corpus.vectorCount corpus.search (baseCandidate xs segments request plan) candidates

/-- The body of the loop over the hits in `collect_vector_segments`. -/
def segmentCandidate (filter : Nat → Bool) (s : Nat) (contents : SegmentContents) (hit : VectorHit S) :
    Except Status (Option (Candidate S)) :=
  match contents.passages[hit.ordinal]? with
  | none => .error .conflict
  | some passage =>
    if passage.id ≠ hit.id then .error .conflict
    else
      match snapshotDocumentOrdinal xs s passage.parentDocumentId with
      | none => .ok none
      | some documentOrdinal =>
        if !filter documentOrdinal then .ok none
        else .ok (some (passageCandidate request s hit.ordinal passage documentOrdinal hit.score))

/-- One round of the loop over the segments in `collect_vector_segments`. -/
def collectVectorSegment (zero : S) (plan : Option AnnQueryPlan) (s : Nat) (contents : SegmentContents)
    (segment : QuerySegment V M S) (candidates : CandidateSet S) : Option (Except Status (CandidateSet S)) :=
  if (plan.any fun plan => !plan.currentIsDelta.getD s true) then some (.ok candidates)
  else if contents.passages.length = 0 then some (.ok candidates)
  else
    match segment.vector with
    | none => some (.error .invalidArgument)
    | some vector =>
      match vector.vectors with
      | none => some (.error .invalidArgument)
      | some entries =>
        if entries.length = 0 then some (.ok candidates)
        else
          match compileFilter request segment with
          | .error status => some (.error status)
          | .ok filter =>
            collectPart request zero entries.length vector.search (segmentCandidate xs request filter s contents)
              candidates

/-- `collect_vector_segments`, from the `s`-th segment on. -/
def collectVectorSegments (zero : S) (plan : Option AnnQueryPlan) :
    Nat → List (SegmentContents × QuerySegment V M S) → CandidateSet S → Option (Except Status (CandidateSet S))
  | _, [], candidates => some (.ok candidates)
  | s, (contents, segment) :: rest, candidates =>
    match collectVectorSegment xs request zero plan s contents segment candidates with
    | none => none
    | some (.error status) => some (.error status)
    | some (.ok candidates) => collectVectorSegments zero plan (s + 1) rest candidates

/-- The first half of `collect_vector`. -/
def collectVectorCorpus (zero : S) (corpus : Option AnnCorpus) (plan : Option AnnQueryPlan) (candidates : CandidateSet S) :
    Option (Except Status (CandidateSet S)) :=
  match corpus, plan with
  | some corpus, some plan => collectVectorBase xs segments request zero corpus plan candidates
  | _, _ => some (.ok candidates)

/-- `collect_vector`. -/
def collectVector (zero : S) (corpus : Option AnnCorpus) (plan : Option AnnQueryPlan) (candidates : CandidateSet S) :
    Option (Except Status (CandidateSet S)) :=
  match collectVectorCorpus xs segments request zero corpus plan candidates with
  | none => none
  | some (.error status) => some (.error status)
  | some (.ok candidates) =>
    collectVectorSegments xs request zero (if corpus.isNone then none else plan) 0 (xs.zip segments) candidates

/-! ## What is to be collected -/

/-- A candidate for the `i`-th passage of the `s`-th segment, whose document is visible there and passes the filter. -/
structure VisibleAt (s i : Nat) (c : Candidate S) : Prop where
  exists_passage : ∃ contents segment passage documentOrdinal filter entry score,
    xs[s]? = some contents ∧ segments[s]? = some segment ∧ contents.passages[i]? = some passage ∧
      snapshotDocumentOrdinal xs s passage.parentDocumentId = some documentOrdinal ∧
      compileFilter request segment = .ok filter ∧ filter documentOrdinal = true ∧
      (segment.entries.bind fun entries => entries[i]?) = some entry ∧ request.score entry.2 = .ok score ∧
      c = passageCandidate request s i passage documentOrdinal score

/-- The candidates of all visible passages whose documents pass the filter. -/
def VisibleCandidate (c : Candidate S) : Prop := ∃ s i, VisibleAt xs segments request s i c

/-- The best `k` by id: every id with its best score, and none left out that has a better score than one of them. -/
structure BestUpToTies (k : Nat) (all : Candidate S → Prop) (kept : List (Candidate S)) : Prop where
  best : ∀ c ∈ kept, all c ∧ ∀ d, all d → d.id = c.id → d.score ≤ c.score
  distinct : (kept.map (·.id)).Nodup
  size : kept.length ≤ k
  others : ∀ d, all d → (∃ c ∈ kept, c.id = d.id) ∨ kept.length = k ∧ ∀ c ∈ kept, d.score ≤ c.score

/-- A search that returns the best keys by score, as many as it is asked for. -/
structure ExactSearch {K : Type} (keys : List K) (score : K → S) (search : Nat → Except Status (List K)) : Prop where
  nodup : keys.Nodup
  exact : ∀ n, 0 < n → n ≤ keys.length → ∃ found, search n = .ok found ∧ found.Nodup ∧ found.length = n ∧
    (∀ key ∈ found, key ∈ keys) ∧ ∀ a ∈ found, ∀ b ∈ keys, b ∉ found → score b ≤ score a

/-- The hits on all entries of a segment. -/
structure HitsOf (entries : List (Bytes × V)) (hits : List (VectorHit S)) : Prop where
  length : hits.length = entries.length
  hit : ∀ (i : Nat) (entry : Bytes × V), entries[i]? = some entry →
    ∃ score, request.score entry.2 = .ok score ∧ hits[i]? = some ⟨entry.1, i, score⟩

/-- The segments of a snapshot, with a vector for each passage and an exact search among them; the filter is one that can
be compiled. -/
structure Searchable : Prop where
  length : segments.length = xs.length
  vectors : ∀ (s : Nat) (contents : SegmentContents) (segment : QuerySegment V M S), xs[s]? = some contents → segments[s]? = some segment → contents.passages ≠ [] →
    ∃ vector entries hits filter, segment.vector = some vector ∧ vector.vectors = some entries ∧
      entries.map (·.1) = contents.passages.map (·.id) ∧ HitsOf request entries hits ∧
      ExactSearch hits (·.score) vector.search ∧ compileFilter request segment = .ok filter

/-- A base corpus and a plan that cover the snapshot: the keys of segments that are still there are passages in them with
their scores, and a visible passage is in the corpus or in a segment of its own. -/
structure BasePlusDelta (corpus : AnnCorpus) (plan : AnnQueryPlan) (keys : List Nat) (score : Nat → S) : Prop where
  search : ExactSearch keys score corpus.search
  vectorCount : corpus.vectorCount = keys.length
  base : plan.baseToCurrent.length = corpus.segmentCount
  current : plan.currentIsDelta.length = segments.length
  mapped : ∀ key ∈ keys, ∀ s, plan.baseToCurrent[key / 2 ^ 32]? = some (some s) →
    ∃ contents segment passage entry, xs[s]? = some contents ∧ segments[s]? = some segment ∧
      contents.passages[key % 2 ^ 32]? = some passage ∧
      (segment.entries.bind fun entries => entries[key % 2 ^ 32]?) = some entry ∧ request.score entry.2 = .ok (score key)
  covered : ∀ s i c, VisibleAt xs segments request s i c → plan.currentIsDelta[s]? = some true ∨
    ∃ key ∈ keys, plan.baseToCurrent[key / 2 ^ 32]? = some (some s) ∧ key % 2 ^ 32 = i

/-! ## Candidates that are as good as all -/

/-- A candidate is stood for by others: by a better one of its id, or by `k` better ones of different ids. -/
def Covered (k : Nat) (candidates : List (Candidate S)) (d : Candidate S) : Prop :=
  (∃ c ∈ candidates, c.id = d.id ∧ d.score ≤ c.score) ∨
    ∃ witnesses : List (Candidate S), (∀ c ∈ witnesses, c ∈ candidates) ∧ (witnesses.map (·.id)).Nodup ∧
      witnesses.length = k ∧ ∀ c ∈ witnesses, d.score ≤ c.score

section Cover

variable {k : Nat} {all : Candidate S → Prop} {candidates kept : List (Candidate S)} {set : CandidateSet S}
  {d : Candidate S}

theorem Covered.mono (h : Covered k candidates d) {more : List (Candidate S)} (hmore : ∀ c ∈ candidates, c ∈ more) :
    Covered k more d := by
  rcases h with ⟨c, hc, hid, hle⟩ | ⟨witnesses, hmem, hrest⟩
  · exact .inl ⟨c, hmore c hc, hid, hle⟩
  · exact .inr ⟨witnesses, fun c hc => hmore c (hmem c hc), hrest⟩

/-- What is best stands for all. -/
theorem BestUpToTies.covered (h : BestUpToTies k all kept) (hd : all d) : Covered k kept d := by
  rcases h.others d hd with ⟨c, hc, hid⟩ | ⟨hfull, hle⟩
  · exact .inl ⟨c, hc, hid, (h.best c hc).2 d hd hid.symm⟩
  · exact .inr ⟨kept, fun c hc => hc, h.distinct, hfull, hle⟩

theorem score_le_of_rank_le {a b : Candidate S} (h : a.rank ≤ b.rank) : b.score ≤ a.score := by
  rw [Candidate.rank, Candidate.rank, Prod.Lex.toLex_le_toLex, OrderDual.toDual_lt_toDual, OrderDual.toDual_inj] at h
  rcases h with hlt | ⟨heq, -⟩
  · exact hlt.le
  · exact heq.ge

omit [LinearOrder S] in
theorem mem_contents {c : Candidate S} : c ∈ set.contents ↔ ∃ i < set.count, set.items i = c := by
  simp only [CandidateSet.contents, List.mem_map, List.mem_range]

theorem CandidateSet.Holds.nodup_contents (h : set.Holds candidates) : (set.contents.map (·.id)).Nodup := by
  rw [CandidateSet.contents, List.map_map]
  refine List.Nodup.map_on (fun i hi j hj heq => ?_) List.nodup_range
  exact h.best.distinct i (List.mem_range.mp hi) j (List.mem_range.mp hj) heq

/-- A candidate that was added is stood for by the one of its id in the set, or by all of a full set. -/
theorem CandidateSet.Holds.added (h : set.Holds candidates) {c : Candidate S} (hc : c ∈ candidates) :
    (∃ a ∈ set.contents, a.id = c.id ∧ c.score ≤ a.score) ∨
      set.contents.length = set.capacity ∧ ∀ a ∈ set.contents, c.score ≤ a.score := by
  have hrank : c.rank ∈ candidates.map Candidate.rank := List.mem_map_of_mem hc
  rcases h.best.others c.rank hrank with ⟨i, hi, hid⟩ | ⟨hfull, hlt⟩
  · refine .inl ⟨set.items i, mem_contents.mpr ⟨i, hi, rfl⟩, hid, ?_⟩
    exact score_le_of_rank_le ((h.best.best i hi).2 c.rank hrank hid.symm)
  · refine .inr ⟨by rw [CandidateSet.contents, List.length_map, List.length_range, hfull], fun a ha => ?_⟩
    obtain ⟨i, hi, rfl⟩ := mem_contents.mp ha
    exact score_le_of_rank_le (hlt i hi).le

/-- Likewise for one that is stood for by what was added. -/
theorem CandidateSet.Holds.covered_contents (h : set.Holds candidates) (hd : Covered set.capacity candidates d) :
    (∃ a ∈ set.contents, a.id = d.id ∧ d.score ≤ a.score) ∨
      set.contents.length = set.capacity ∧ ∀ a ∈ set.contents, d.score ≤ a.score := by
  rcases hd with ⟨c, hc, hid, hle⟩ | ⟨witnesses, hmem, hnodup, hlength, hle⟩
  · rcases h.added hc with ⟨a, ha, haid, hac⟩ | ⟨hfull, hall⟩
    · exact .inl ⟨a, ha, haid.trans hid, hle.trans hac⟩
    · exact .inr ⟨hfull, fun a ha => hle.trans (hall a ha)⟩
  · by_cases hin : ∀ w ∈ witnesses, ∃ a ∈ set.contents, a.id = w.id ∧ w.score ≤ a.score
    · -- as many different ids in the set as it can hold
      have hsub : ∀ id ∈ witnesses.map (·.id), id ∈ set.contents.map (·.id) := by
        intro id hid
        obtain ⟨w, hw, rfl⟩ := List.mem_map.mp hid
        obtain ⟨a, ha, haid, -⟩ := hin w hw
        exact List.mem_map.mpr ⟨a, ha, haid⟩
      have hsize : set.contents.length ≤ set.capacity := by
        rw [CandidateSet.contents, List.length_map, List.length_range]
        exact h.consistent.count_le
      have hperm : (witnesses.map (·.id)).Perm (set.contents.map (·.id)) := by
        refine (List.subperm_of_subset hnodup hsub).perm_of_length_le ?_
        rw [List.length_map, List.length_map, hlength]
        exact hsize
      refine .inr ⟨?_, fun a ha => ?_⟩
      · have hlen := hperm.length_eq
        rwa [List.length_map, List.length_map, hlength, eq_comm] at hlen
      · obtain ⟨w, hw, hwid⟩ := List.mem_map.mp (hperm.mem_iff.mpr (List.mem_map_of_mem ha))
        obtain ⟨b, hb, hbid, hwb⟩ := hin w hw
        have hba : b = a := List.inj_on_of_nodup_map h.nodup_contents hb ha (hbid.trans hwid)
        rw [← hba]
        exact (hle w hw).trans hwb
    · push Not at hin
      obtain ⟨w, hw, hnone⟩ := hin
      rcases h.added (hmem w hw) with ⟨a, ha, haid, hwa⟩ | ⟨hfull, hall⟩
      · exact absurd hwa (not_le.mpr (hnone a ha haid))
      · exact .inr ⟨hfull, fun a ha => (hle w hw).trans (hall a ha)⟩

/-- **A set that was given candidates that stand for all holds the best.** -/
theorem CandidateSet.Holds.bestUpToTies (h : set.Holds candidates) (hall : ∀ c ∈ candidates, all c)
    (hcovered : ∀ d, all d → Covered set.capacity candidates d) : BestUpToTies set.capacity all set.contents := by
  refine ⟨fun c hc => ⟨?_, fun d hd hid => ?_⟩, h.nodup_contents, ?_, fun d hd => ?_⟩
  · obtain ⟨i, hi, rfl⟩ := mem_contents.mp hc
    exact hall _ (h.mem i hi)
  · rcases h.covered_contents (hcovered d hd) with ⟨a, ha, haid, hle⟩ | ⟨-, hle⟩
    · have hac : a = c := List.inj_on_of_nodup_map h.nodup_contents ha hc (haid.trans hid)
      rwa [← hac]
    · exact hle c hc
  · rw [CandidateSet.contents, List.length_map, List.length_range]
    exact h.consistent.count_le
  · rcases h.covered_contents (hcovered d hd) with ⟨a, ha, haid, -⟩ | hfull
    · exact .inl ⟨a, ha, haid⟩
    · exact .inr hfull

end Cover

/-! ## The rounds -/

section Rounds

variable {K : Type} {candidate : K → Except Status (Option (Candidate S))} {candidates : List (Candidate S)}
  {set : CandidateSet S}

/-- The candidate of a key that is not rejected. -/
def acceptedKey (candidate : K → Except Status (Option (Candidate S))) (key : K) : Option (Candidate S) :=
  match candidate key with
  | .ok c => c
  | .error _ => none

omit [LinearOrder S] in
theorem acceptedKey_eq_some {key : K} {c : Candidate S} :
    acceptedKey candidate key = some c ↔ candidate key = .ok (some c) := by
  rw [acceptedKey]
  cases candidate key with
  | error status => simp
  | ok o => simp

theorem CandidateSet.Holds.addCandidates (h : set.Holds candidates) {keys : List K}
    (hok : ∀ key ∈ keys, ∃ o, candidate key = .ok o) :
    ∃ set', Yappod.addCandidates candidate keys set = .ok set' ∧ set'.capacity = set.capacity ∧
      set'.Holds (candidates ++ keys.filterMap (acceptedKey candidate)) := by
  induction keys generalizing set candidates with
  | nil => exact ⟨set, rfl, rfl, by rwa [List.filterMap_nil, List.append_nil]⟩
  | cons key keys ih =>
    obtain ⟨⟨o, ho⟩, hok⟩ := List.forall_mem_cons.mp hok
    rw [Yappod.addCandidates, ho]
    cases o with
    | none =>
      have hnone : acceptedKey candidate key = none := by rw [acceptedKey, ho]
      rw [List.filterMap_cons_none hnone]
      exact ih h hok
    | some c =>
      have hsome : acceptedKey candidate key = some c := acceptedKey_eq_some.mpr ho
      obtain ⟨set₁, hadd, hcapacity, hholds⟩ := h.add c
      obtain ⟨set₂, hrest, hcapacity', hholds'⟩ := ih hholds hok
      dsimp only
      rw [hadd, Option.getD_some, List.filterMap_cons_some hsome]
      refine ⟨set₂, hrest, hcapacity'.trans hcapacity, ?_⟩
      rwa [List.append_assoc, List.singleton_append] at hholds'

theorem CandidateSet.Holds.reset (h : set.Holds candidates) : set.reset.Holds [] := by
  refine ⟨⟨Nat.zero_le _, h.consistent.positive, h.consistent.room, ?_, ?_, ?_⟩, .nil rankId _ _, ?_⟩
  · exact ⟨fun i hi => absurd hi (Nat.not_lt_zero i), fun i hi => absurd hi (Nat.not_lt_zero i),
      fun i hi => absurd hi (Nat.not_lt_zero i), fun i hi => absurd hi (Nat.not_lt_zero i)⟩
  · exact fun i hi => absurd hi (Nat.not_lt_zero i)
  · exact MarkedTable.indexes_empty bytesHash _ _
  · exact fun i hi => absurd hi (Nat.not_lt_zero i)

variable {keys : List K} {score : K → S} {search : Nat → Except Status (List K)}

/-- **The rounds end**, with the best candidates of all keys: those that were not asked for are no better. -/
theorem overfetch_spec (hsearch : ExactSearch keys score search)
    (hok : ∀ key ∈ keys, ∃ o, candidate key = .ok o ∧ ∀ c, o = some c → c.score = score key) (fuel : Nat)
    {requestCount : Nat} (hpositive : 0 < requestCount) (hle : requestCount ≤ keys.length)
    (hfuel : keys.length < requestCount + fuel) (h : set.Holds candidates) :
    ∃ set', overfetch set.capacity keys.length search candidate fuel requestCount set = some (.ok set') ∧
      BestUpToTies set.capacity (fun c => ∃ key ∈ keys, candidate key = .ok (some c)) set'.contents := by
  induction fuel generalizing requestCount set candidates with
  | zero => omega
  | succ fuel ih =>
    obtain ⟨found, hfound, hnodup, hlength, hmem, hbest⟩ := hsearch.exact requestCount hpositive hle
    have hfoundok : ∀ key ∈ found, ∃ o, candidate key = .ok o := fun key hkey =>
      (hok key (hmem key hkey)).imp fun _ ho => ho.1
    obtain ⟨set', hadd, hcapacity, hholds⟩ := h.reset.addCandidates hfoundok
    replace hcapacity : set'.capacity = set.capacity := hcapacity
    rw [List.nil_append] at hholds
    rw [overfetch, hfound]
    dsimp only
    rw [hadd]
    dsimp only
    split
    · rename_i hstop
      refine ⟨set', rfl, ?_⟩
      rw [← hcapacity]
      refine hholds.bestUpToTies (fun c hc => ?_) fun d hd => ?_
      · obtain ⟨key, hkey, hc⟩ := List.mem_filterMap.mp hc
        exact ⟨key, hmem key hkey, acceptedKey_eq_some.mp hc⟩
      · obtain ⟨key, hkey, hd⟩ := hd
        by_cases hin : key ∈ found
        · exact .inl ⟨d, List.mem_filterMap.mpr ⟨key, hin, acceptedKey_eq_some.mpr hd⟩, rfl, le_rfl⟩
        · -- a key that was not asked for; the set is full then
          have hnotall : requestCount ≠ keys.length := by
            intro hall
            have hperm := (List.subperm_of_subset hnodup hmem).perm_of_length_le (by omega)
            exact hin (hperm.mem_iff.mpr hkey)
          have hfull : set'.capacity ≤ set'.count := hcapacity ▸ hstop.resolve_right hnotall
          have hcontents : ∀ c ∈ set'.contents, c ∈ found.filterMap (acceptedKey candidate) := by
            intro c hc
            obtain ⟨i, hi, rfl⟩ := mem_contents.mp hc
            exact hholds.mem i hi
          refine .inr ⟨set'.contents, hcontents, hholds.nodup_contents, ?_, fun c hc => ?_⟩
          · rw [CandidateSet.contents, List.length_map, List.length_range]
            exact Nat.le_antisymm hholds.consistent.count_le hfull
          · obtain ⟨key', hkey', hc⟩ := List.mem_filterMap.mp (hcontents c hc)
            obtain ⟨o, ho, hscore⟩ := hok key hkey
            obtain ⟨o', ho', hscore'⟩ := hok key' (hmem key' hkey')
            rw [hscore d (Except.ok.inj (ho.symm.trans hd)),
              hscore' c (Except.ok.inj (ho'.symm.trans (acceptedKey_eq_some.mp hc)))]
            exact hbest key' hkey' key hkey hin
    · rename_i hgo
      rw [not_or] at hgo
      rw [← hcapacity]
      split
      · exact ih (by omega) le_rfl (by omega) hholds
      · exact ih (by omega) (by omega) (by omega) hholds

omit [LinearOrder S] in
theorem firstRequestCount_pos {candidateK total : Nat} (hk : 0 < candidateK) (htotal : 0 < total) :
    0 < firstRequestCount candidateK total := by
  rw [firstRequestCount]
  split <;> omega

/-- A part of the collection: candidates that stand for all of the part are added. -/
theorem collectPart_spec {request : VectorRequest V M S} {zero : S} {own : CandidateSet S}
    (hinit : candidateSetInit zero request.candidateK = .ok own) (hsearch : ExactSearch keys score search)
    (hkeys : 0 < keys.length)
    (hok : ∀ key ∈ keys, ∃ o, candidate key = .ok o ∧ ∀ c, o = some c → c.score = score key)
    (h : set.Holds candidates) :
    ∃ set' kept, collectPart request zero keys.length search candidate set = some (.ok set') ∧
      set'.capacity = set.capacity ∧ set'.Holds (candidates ++ kept) ∧
      (∀ c ∈ kept, ∃ key ∈ keys, candidate key = .ok (some c)) ∧
      ∀ d, (∃ key ∈ keys, candidate key = .ok (some d)) → Covered request.candidateK kept d := by
  obtain ⟨hcapacity, hown⟩ := candidateSetInit_holds hinit
  have hpositive := hown.consistent.positive
  rw [hcapacity] at hpositive
  obtain ⟨full, hrounds, hbest⟩ := overfetch_spec hsearch hok keys.length
    (firstRequestCount_pos hpositive hkeys) (Nat.min_le_right _ _)
    (Nat.lt_add_of_pos_left (firstRequestCount_pos hpositive hkeys)) hown
  rw [hcapacity] at hrounds hbest
  have hsome : acceptedKey (fun c : Candidate S => .ok (some c)) = some := rfl
  obtain ⟨set', hadd, hcapacity', hholds⟩ := h.addCandidates fun c (_ : c ∈ full.contents) => ⟨some c, rfl⟩
  rw [hsome, List.filterMap_some] at hholds
  refine ⟨set', full.contents, ?_, hcapacity', hholds, fun c hc => (hbest.best c hc).1, fun d hd => hbest.covered hd⟩
  rw [collectPart, hinit]
  dsimp only
  rw [hrounds]
  dsimp only
  rw [hadd]

end Rounds

/-! ## The parts -/

section Parts

variable {xs} {segments} {request} {candidates : List (Candidate S)} {set empty : CandidateSet S} {zero : S}

/-- The passages and the entries of a segment agree. -/
theorem Searchable.entry_id (h : Searchable xs segments request) {s i : Nat} {contents : SegmentContents}
    {segment : QuerySegment V M S} {passage : Passage} {entry : Bytes × V} (hcontents : xs[s]? = some contents)
    (hsegment : segments[s]? = some segment) (hpassage : contents.passages[i]? = some passage)
    (hentry : (segment.entries.bind fun entries => entries[i]?) = some entry) : passage.id = entry.1 := by
  have hne : contents.passages ≠ [] := List.ne_nil_of_mem (List.mem_of_getElem? hpassage)
  obtain ⟨vector, entries, hits, filter, hvector, hvectors, hids, -⟩ := h.vectors s contents segment hcontents hsegment hne
  rw [QuerySegment.entries, hvector, Option.bind_some, hvectors, Option.bind_some] at hentry
  have hid := congrArg (fun ids => ids[i]?) hids
  simp only [List.getElem?_map, hentry, hpassage, Option.map_some, Option.some.injEq] at hid
  exact hid.symm

theorem Searchable.filter_ok (h : Searchable xs segments request) {s i : Nat} {contents : SegmentContents}
    {segment : QuerySegment V M S} {passage : Passage} (hcontents : xs[s]? = some contents)
    (hsegment : segments[s]? = some segment) (hpassage : contents.passages[i]? = some passage) :
    ∃ filter, compileFilter request segment = .ok filter := by
  have hne : contents.passages ≠ [] := List.ne_nil_of_mem (List.mem_of_getElem? hpassage)
  obtain ⟨vector, entries, hits, filter, -, -, -, -, -, hfilter⟩ := h.vectors s contents segment hcontents hsegment hne
  exact ⟨filter, hfilter⟩

omit [LinearOrder S] in
/-- The candidate for a passage. -/
theorem visibleAt_iff {s i : Nat} {contents : SegmentContents} {segment : QuerySegment V M S} {passage : Passage}
    {entry : Bytes × V} {filter : Nat → Bool} {score : S} (hcontents : xs[s]? = some contents)
    (hsegment : segments[s]? = some segment) (hpassage : contents.passages[i]? = some passage)
    (hfilter : compileFilter request segment = .ok filter)
    (hentry : (segment.entries.bind fun entries => entries[i]?) = some entry) (hscore : request.score entry.2 = .ok score)
    (c : Candidate S) :
    VisibleAt xs segments request s i c ↔ ∃ documentOrdinal,
      snapshotDocumentOrdinal xs s passage.parentDocumentId = some documentOrdinal ∧ filter documentOrdinal = true ∧
      c = passageCandidate request s i passage documentOrdinal score := by
  constructor
  · rintro ⟨_, _, _, j, _, _, _, h₁, h₂, h₃, h₄, h₅, h₆, h₇, h₈, rfl⟩
    cases hcontents.symm.trans h₁
    cases hsegment.symm.trans h₂
    cases hpassage.symm.trans h₃
    cases hfilter.symm.trans h₅
    cases hentry.symm.trans h₇
    cases hscore.symm.trans h₈
    exact ⟨j, h₄, h₆, rfl⟩
  · rintro ⟨j, hj, hpass, rfl⟩
    exact ⟨contents, segment, passage, j, filter, entry, score, hcontents, hsegment, hpassage, hj, hfilter, hpass, hentry,
      hscore, rfl⟩

omit [LinearOrder S] in
/-- The end of both loops' bodies: a document that is visible and passes the filter gives a candidate. -/
theorem accepted_cases (document : Option Nat) (filter : Nat → Bool) (make : Nat → Candidate S) (score : S)
    (hscore : ∀ j, (make j).score = score) :
    ∃ o, (match document with
        | none => .ok none
        | some j => if (!filter j) = true then .ok none else .ok (some (make j)) : Except Status (Option (Candidate S))) =
          .ok o ∧ (∀ c, o = some c → c.score = score) ∧
      ∀ c, o = some c ↔ ∃ j, document = some j ∧ filter j = true ∧ c = make j := by
  cases document with
  | none => exact ⟨none, rfl, fun c hc => (nomatch hc), fun c => ⟨fun hc => (nomatch hc), fun ⟨_, hj, _⟩ => (nomatch hj)⟩⟩
  | some j =>
    dsimp only
    cases hpass : filter j with
    | false =>
      refine ⟨none, rfl, fun c hc => (nomatch hc), fun c => ⟨fun hc => (nomatch hc), ?_⟩⟩
      rintro ⟨j', hj', hpass', -⟩
      cases hj'
      rw [hpass] at hpass'
      cases hpass'
    | true =>
      refine ⟨some (make j), rfl, fun c hc => ?_, fun c => ⟨fun hc => ?_, ?_⟩⟩
      · cases hc
        exact hscore j
      · cases hc
        exact ⟨j, rfl, hpass, rfl⟩
      · rintro ⟨j', hj', -, rfl⟩
        cases hj'
        rfl

omit [LinearOrder S] in
/-- A key of a segment that is gone. -/
theorem baseCandidate_stale {plan : AnnQueryPlan} {key : Nat}
    (h : ∀ s, plan.baseToCurrent[key / 2 ^ 32]? ≠ some (some s)) :
    baseCandidate xs segments request plan key = .ok none := by
  rw [baseCandidate]
  cases hplan : plan.baseToCurrent[key / 2 ^ 32]? with
  | none => rfl
  | some o =>
    cases o with
    | none => rfl
    | some s => exact absurd hplan (h s)

/-- A key of a segment that is still there: its passage, if it is a candidate. -/
theorem baseCandidate_mapped {corpus : AnnCorpus} {plan : AnnQueryPlan} {keys : List Nat} {score : Nat → S}
    (hs : Searchable xs segments request) (h : BasePlusDelta xs segments request corpus plan keys score) {key s : Nat}
    (hkey : key ∈ keys) (hplan : plan.baseToCurrent[key / 2 ^ 32]? = some (some s)) :
    ∃ o, baseCandidate xs segments request plan key = .ok o ∧ (∀ c, o = some c → c.score = score key) ∧
      ∀ c, o = some c ↔ VisibleAt xs segments request s (key % 2 ^ 32) c := by
  obtain ⟨contents, segment, passage, entry, hcontents, hsegment, hpassage, hentry, hscore⟩ := h.mapped key hkey s hplan
  obtain ⟨filter, hfilter⟩ := hs.filter_ok hcontents hsegment hpassage
  have hid := hs.entry_id hcontents hsegment hpassage hentry
  have hvisible := visibleAt_iff (i := key % 2 ^ 32) hcontents hsegment hpassage hfilter hentry hscore
  simp only [hvisible]
  rw [baseCandidate, hplan]
  simp only [hcontents, hsegment, hpassage, hentry, hfilter, hscore, ne_eq, hid, not_true_eq_false, if_false]
  exact accepted_cases _ filter _ _ fun _ => rfl

/-- **The base corpus**: candidates are added that stand for all visible passages in its segments. -/
theorem collectVectorBase_spec {corpus : AnnCorpus} {plan : AnnQueryPlan} {keys : List Nat} {score : Nat → S}
    (hinit : candidateSetInit zero request.candidateK = .ok empty) (hs : Searchable xs segments request)
    (hcover : BasePlusDelta xs segments request corpus plan keys score) (h : set.Holds candidates) :
    ∃ set' kept, collectVectorBase xs segments request zero corpus plan set = some (.ok set') ∧
      set'.capacity = set.capacity ∧ set'.Holds (candidates ++ kept) ∧
      (∀ c ∈ kept, VisibleCandidate xs segments request c) ∧
      ∀ s i d, VisibleAt xs segments request s i d → plan.currentIsDelta[s]? ≠ some true →
        Covered request.candidateK kept d := by
  have hok : ∀ key ∈ keys, ∃ o, baseCandidate xs segments request plan key = .ok o ∧
      ∀ c, o = some c → c.score = score key ∧ VisibleCandidate xs segments request c := by
    intro key hkey
    by_cases hstale : ∀ s, plan.baseToCurrent[key / 2 ^ 32]? ≠ some (some s)
    · exact ⟨none, baseCandidate_stale hstale, fun c hc => (nomatch hc)⟩
    · push Not at hstale
      obtain ⟨s, hplan⟩ := hstale
      obtain ⟨o, ho, hscore, hvisible⟩ := baseCandidate_mapped hs hcover hkey hplan
      exact ⟨o, ho, fun c hc => ⟨hscore c hc, s, _, (hvisible c).mp hc⟩⟩
  have hmine : ∀ s i d, VisibleAt xs segments request s i d → plan.currentIsDelta[s]? ≠ some true →
      ∃ key ∈ keys, baseCandidate xs segments request plan key = .ok (some d) := by
    intro s i d hd hbase
    obtain ⟨key, hkey, hplan, rfl⟩ := (hcover.covered s i d hd).resolve_left hbase
    obtain ⟨o, ho, -, hvisible⟩ := baseCandidate_mapped hs hcover hkey hplan
    exact ⟨key, hkey, by rw [ho, (hvisible d).mpr hd]⟩
  rw [collectVectorBase, hcover.vectorCount]
  by_cases hempty : keys.length = 0
  · rw [if_pos hempty]
    refine ⟨set, [], rfl, rfl, by rwa [List.append_nil], fun c hc => absurd hc List.not_mem_nil, fun s i d hd hbase => ?_⟩
    obtain ⟨key, hkey, -⟩ := hmine s i d hd hbase
    rw [List.length_eq_zero_iff.mp hempty] at hkey
    exact absurd hkey List.not_mem_nil
  · rw [if_neg hempty, if_neg (by simp [hcover.base, hcover.current])]
    obtain ⟨set', kept, hrun, hcapacity, hholds, hkept, hcovered⟩ := collectPart_spec hinit hcover.search
      (Nat.pos_of_ne_zero hempty) (fun key hkey => (hok key hkey).imp fun o ho => ⟨ho.1, fun c hc => (ho.2 c hc).1⟩) h
    refine ⟨set', kept, hrun, hcapacity, hholds, fun c hc => ?_, fun s i d hd hbase => hcovered d (hmine s i d hd hbase)⟩
    obtain ⟨key, hkey, hc⟩ := hkept c hc
    obtain ⟨o, ho, hvisible⟩ := hok key hkey
    exact (hvisible c (Except.ok.inj (ho.symm.trans hc))).2

omit [LinearOrder S] in
/-- A hit of a segment: its passage, if it is a candidate. -/
theorem segmentCandidate_hit {s : Nat} {contents : SegmentContents} {segment : QuerySegment V M S}
    {vector : AnnSegment V S} {entries : List (Bytes × V)} {hits : List (VectorHit S)} {filter : Nat → Bool}
    (hcontents : xs[s]? = some contents) (hsegment : segments[s]? = some segment) (hvector : segment.vector = some vector)
    (hvectors : vector.vectors = some entries) (hids : entries.map (·.1) = contents.passages.map (·.id))
    (hhits : HitsOf request entries hits) (hfilter : compileFilter request segment = .ok filter) {hit : VectorHit S}
    (hhit : hit ∈ hits) :
    ∃ o, segmentCandidate xs request filter s contents hit = .ok o ∧ (∀ c, o = some c → c.score = hit.score) ∧
      ∀ c, o = some c ↔ VisibleAt xs segments request s hit.ordinal c := by
  obtain ⟨i, hi⟩ := List.mem_iff_getElem?.mp hhit
  have hlt : i < entries.length := hhits.length ▸ (List.getElem?_eq_some_iff.mp hi).1
  obtain ⟨entry, hentry⟩ : ∃ entry, entries[i]? = some entry := ⟨_, List.getElem?_eq_getElem hlt⟩
  obtain ⟨score, hscore, hsame⟩ := hhits.hit i entry hentry
  obtain rfl : hit = ⟨entry.1, i, score⟩ := Option.some.inj (hi.symm.trans hsame)
  have hentry' : (segment.entries.bind fun entries => entries[i]?) = some entry := by
    rw [QuerySegment.entries, hvector, Option.bind_some, hvectors, Option.bind_some, hentry]
  have hlt' : i < contents.passages.length := by
    have hlength := congrArg List.length hids
    rw [List.length_map, List.length_map] at hlength
    omega
  obtain ⟨passage, hpassage⟩ : ∃ passage, contents.passages[i]? = some passage := ⟨_, List.getElem?_eq_getElem hlt'⟩
  have hid : passage.id = entry.1 := by
    have hid := congrArg (fun ids => ids[i]?) hids
    simp only [List.getElem?_map, hentry, hpassage, Option.map_some, Option.some.injEq] at hid
    exact hid.symm
  have hvisible : ∀ c, VisibleAt xs segments request s i c ↔ ∃ documentOrdinal,
      snapshotDocumentOrdinal xs s passage.parentDocumentId = some documentOrdinal ∧ filter documentOrdinal = true ∧
      c = passageCandidate request s i passage documentOrdinal score :=
    visibleAt_iff hcontents hsegment hpassage hfilter hentry' hscore
  simp only [hvisible]
  rw [segmentCandidate]
  simp only [hpassage, ne_eq, hid, not_true_eq_false, if_false]
  exact accepted_cases _ filter _ _ fun _ => rfl

/-- **One segment of its own**: candidates are added that stand for all its visible passages. -/
theorem collectVectorSegment_spec (plan : Option AnnQueryPlan) {s : Nat} {contents : SegmentContents}
    {segment : QuerySegment V M S} (hinit : candidateSetInit zero request.candidateK = .ok empty)
    (hs : Searchable xs segments request) (hcontents : xs[s]? = some contents) (hsegment : segments[s]? = some segment)
    (h : set.Holds candidates) :
    ∃ set' kept, collectVectorSegment xs request zero plan s contents segment set = some (.ok set') ∧
      set'.capacity = set.capacity ∧ set'.Holds (candidates ++ kept) ∧
      (∀ c ∈ kept, VisibleCandidate xs segments request c) ∧
      ∀ i d, VisibleAt xs segments request s i d → (∀ p ∈ plan, p.currentIsDelta.getD s true = true) →
        Covered request.candidateK kept d := by
  have hnothing : ∀ set' : CandidateSet S, set'.Holds candidates → set'.Holds (candidates ++ []) := fun set' hset => by
    rwa [List.append_nil]
  rw [collectVectorSegment]
  split
  · rename_i hbase
    obtain ⟨p, hp, hnot⟩ := (Option.any_eq_true _ _).mp hbase
    refine ⟨set, [], rfl, rfl, hnothing set h, fun c hc => absurd hc List.not_mem_nil, fun i d _ hdelta => ?_⟩
    rw [hdelta p hp] at hnot
    cases hnot
  split
  · rename_i hempty
    refine ⟨set, [], rfl, rfl, hnothing set h, fun c hc => absurd hc List.not_mem_nil, ?_⟩
    rintro i d ⟨_, _, passage, _, _, _, _, h₁, _, h₃, _⟩ _
    cases hcontents.symm.trans h₁
    rw [List.length_eq_zero_iff.mp hempty] at h₃
    cases h₃
  · rename_i hpassages
    have hne : contents.passages ≠ [] := fun hnil => hpassages (List.length_eq_zero_iff.mpr hnil)
    obtain ⟨vector, entries, hits, filter, hvector, hvectors, hids, hhits, hsearch, hfilter⟩ :=
      hs.vectors s contents segment hcontents hsegment hne
    have hlength : entries.length = contents.passages.length := by
      have hlength := congrArg List.length hids
      rwa [List.length_map, List.length_map] at hlength
    have hcandidate := fun hit (hhit : hit ∈ hits) =>
      segmentCandidate_hit hcontents hsegment hvector hvectors hids hhits hfilter hhit
    rw [hvector]
    dsimp only
    rw [hvectors]
    dsimp only
    rw [if_neg (by omega), hfilter, ← hhits.length]
    obtain ⟨set', kept, hrun, hcapacity, hholds, hkept, hcovered⟩ := collectPart_spec hinit hsearch
      (by rw [hhits.length]; omega) (fun hit hhit => (hcandidate hit hhit).imp fun o ho => ⟨ho.1, ho.2.1⟩) h
    refine ⟨set', kept, hrun, hcapacity, hholds, fun c hc => ?_, fun i d hd _ => hcovered d ?_⟩
    · obtain ⟨hit, hhit, hc⟩ := hkept c hc
      obtain ⟨o, ho, -, hvisible⟩ := hcandidate hit hhit
      exact ⟨s, hit.ordinal, (hvisible c).mp (Except.ok.inj (ho.symm.trans hc))⟩
    · obtain ⟨_, _, passage, j, f, entry, score, h₁, h₂, h₃, h₄, h₅, h₆, h₇, h₈, h₉⟩ := id hd
      cases hsegment.symm.trans h₂
      rw [QuerySegment.entries, hvector, Option.bind_some, hvectors, Option.bind_some] at h₇
      obtain ⟨score', -, hhit⟩ := hhits.hit i entry h₇
      have hmem := List.mem_of_getElem? hhit
      obtain ⟨o, ho, -, hvisible⟩ := hcandidate _ hmem
      exact ⟨_, hmem, by rw [ho, (hvisible d).mpr hd]⟩

/-- **The segments one by one.** -/
theorem collectVectorSegments_spec (plan : Option AnnQueryPlan)
    (hinit : candidateSetInit zero request.candidateK = .ok empty) (hs : Searchable xs segments request)
    (rest : List (SegmentContents × QuerySegment V M S)) (s : Nat) (hrest : (xs.zip segments).drop s = rest)
    (h : set.Holds candidates) :
    ∃ set' kept, collectVectorSegments xs request zero plan s rest set = some (.ok set') ∧
      set'.capacity = set.capacity ∧ set'.Holds (candidates ++ kept) ∧
      (∀ c ∈ kept, VisibleCandidate xs segments request c) ∧
      ∀ s' i d, s ≤ s' → VisibleAt xs segments request s' i d → (∀ p ∈ plan, p.currentIsDelta.getD s' true = true) →
        Covered request.candidateK kept d := by
  induction rest generalizing s set candidates with
  | nil =>
    refine ⟨set, [], rfl, rfl, by rwa [List.append_nil], fun c hc => absurd hc List.not_mem_nil, ?_⟩
    rintro s' i d hle ⟨contents, _, _, _, _, _, _, h₁, _⟩ _
    have hlt := (List.getElem?_eq_some_iff.mp h₁).1
    have hend := List.drop_eq_nil_iff.mp hrest
    rw [List.length_zip, hs.length] at hend
    omega
  | cons pair rest ih =>
    obtain ⟨contents, segment⟩ := pair
    have hpair : (xs.zip segments)[s]? = some (contents, segment) := by
      rw [← List.head?_drop, hrest, List.head?_cons]
    obtain ⟨hcontents, hsegment⟩ := List.getElem?_zip_eq_some.mp hpair
    obtain ⟨set₁, kept₁, hrun₁, hcapacity₁, hholds₁, hvisible₁, hcovered₁⟩ :=
      collectVectorSegment_spec plan hinit hs hcontents hsegment h
    have hrest' : (xs.zip segments).drop (s + 1) = rest := by
      rw [← List.tail_drop, hrest, List.tail_cons]
    obtain ⟨set₂, kept₂, hrun₂, hcapacity₂, hholds₂, hvisible₂, hcovered₂⟩ := ih (s + 1) hrest' hholds₁
    refine ⟨set₂, kept₁ ++ kept₂, ?_, hcapacity₂.trans hcapacity₁, by rwa [List.append_assoc] at hholds₂, ?_, ?_⟩
    · rw [collectVectorSegments, hrun₁]
      exact hrun₂
    · exact fun c hc => (List.mem_append.mp hc).elim (hvisible₁ c) (hvisible₂ c)
    · intro s' i d hle hd hdelta
      rcases Nat.eq_or_lt_of_le hle with rfl | hlt
      · exact (hcovered₁ i d hd hdelta).mono fun c hc => List.mem_append_left _ hc
      · exact (hcovered₂ s' i d hlt hd hdelta).mono fun c hc => List.mem_append_right _ hc

end Parts

/-- **Vector candidates.**  For the segments of a snapshot with exact searches, a base corpus and a plan that cover it, and
a candidate set that was just made: the collection ends, and leaves the best candidates of the visible passages whose
documents pass the filter.  In the scope of the documents the candidates of a document are those of its passages. -/
theorem collectVector_exact {zero : S} {empty : CandidateSet S} {corpus : Option AnnCorpus} {plan : Option AnnQueryPlan}
    (hinit : candidateSetInit zero request.candidateK = .ok empty) (hs : Searchable xs segments request)
    (hcover : ∀ c ∈ corpus, ∀ p ∈ plan, ∃ keys score, BasePlusDelta xs segments request c p keys score) :
    ∃ set, collectVector xs segments request zero corpus plan empty = some (.ok set) ∧ set.Consistent ∧
      BestUpToTies request.candidateK (VisibleCandidate xs segments request) set.contents := by
  obtain ⟨hcapacity, hempty⟩ := candidateSetInit_holds hinit
  -- the base, if there is one
  obtain ⟨set₁, kept₁, hbase, hcapacity₁, hholds₁, hvisible₁, hcovered₁⟩ : ∃ set₁ kept₁,
      collectVectorCorpus xs segments request zero corpus plan empty = some (.ok set₁) ∧
      set₁.capacity = empty.capacity ∧ set₁.Holds ([] ++ kept₁) ∧
      (∀ c ∈ kept₁, VisibleCandidate xs segments request c) ∧
      ∀ s i d, VisibleAt xs segments request s i d →
        (∃ p ∈ (if corpus.isNone then none else plan), p.currentIsDelta.getD s true = false) →
        Covered request.candidateK kept₁ d := by
    match corpus, plan with
    | some corpus, some plan =>
      obtain ⟨keys, score, hplan⟩ := hcover corpus rfl plan rfl
      obtain ⟨set₁, kept₁, hrun, hcapacity₁, hholds₁, hvisible₁, hcovered₁⟩ :=
        collectVectorBase_spec hinit hs hplan hempty
      refine ⟨set₁, kept₁, hrun, hcapacity₁, hholds₁, hvisible₁, fun s i d hd => ?_⟩
      rintro ⟨p, hp, hnot⟩
      cases hp
      refine hcovered₁ s i d hd fun hdelta => ?_
      rw [List.getD_eq_getElem?_getD, hdelta] at hnot
      cases hnot
    | some _, none | none, some _ | none, none =>
      refine ⟨empty, [], rfl, rfl, hempty, fun c hc => absurd hc List.not_mem_nil, fun s i d _ hp => ?_⟩
      obtain ⟨p, hp, -⟩ := hp
      cases hp
  obtain ⟨set₂, kept₂, hrun₂, hcapacity₂, hholds₂, hvisible₂, hcovered₂⟩ :=
    collectVectorSegments_spec (if corpus.isNone then none else plan) hinit hs _ 0 List.drop_zero hholds₁
  refine ⟨set₂, ?_, hholds₂.consistent, ?_⟩
  · rw [collectVector, hbase]
    exact hrun₂
  · have hk : set₂.capacity = request.candidateK := by rw [hcapacity₂, hcapacity₁, hcapacity]
    rw [← hk]
    refine hholds₂.bestUpToTies (fun c hc => ?_) fun d hd => ?_
    · rw [List.nil_append] at hc
      exact (List.mem_append.mp hc).elim (hvisible₁ c) (hvisible₂ c)
    · obtain ⟨s, i, hd⟩ := hd
      rw [hk, List.nil_append]
      by_cases hdelta : ∀ p ∈ (if corpus.isNone then none else plan), p.currentIsDelta.getD s true = true
      · exact (hcovered₂ s i d (Nat.zero_le s) hd hdelta).mono fun c hc => List.mem_append_right _ hc
      · push Not at hdelta
        obtain ⟨p, hp, hnot⟩ := hdelta
        exact (hcovered₁ s i d hd ⟨p, hp, Bool.not_eq_true _ ▸ hnot⟩).mono fun c hc => List.mem_append_left _ hc

/-- A segment with one document of one passage. -/
def oneContents (id passage : Bytes) : SegmentContents where
  documents := [⟨id, [], [], [], [], 0⟩]
  passages := [⟨passage, id, [], 0, 0, 0⟩]
  tombstones := []
  entries := []
  scalars := []

/-- Its only vector, which every search finds. -/
def oneSegment (passage : Bytes) (score : Nat) : QuerySegment Nat Unit Nat where
  vector := some ⟨some [(passage, score)], fun _ => .ok [⟨passage, 0, score⟩]⟩
  metadata := none

def oneRequest (scope : SearchScope) : VectorRequest Nat Unit Nat := ⟨scope, 2, .ok, none⟩

theorem exactSearch_singleton {K : Type} (key : K) (score : K → S) : ExactSearch [key] score fun _ => .ok [key] where
  nodup := List.nodup_singleton key
  exact n hn hle := by
    rw [List.length_singleton] at hle
    exact ⟨[key], rfl, List.nodup_singleton key, by rw [List.length_singleton]; omega, fun _ h => h,
      fun a ha b hb hout => absurd hb hout⟩

theorem collectVector_exact_sample :
    ∃ empty set, candidateSetInit 0 2 = .ok empty ∧
      collectVector [oneContents [1] [2], oneContents [3] [4]] [oneSegment [2] 5, oneSegment [4] 7] (oneRequest .passages) 0
        (some ⟨1, 1, fun _ => .ok [0]⟩) (some ⟨[some 0], [false, true]⟩) empty = some (.ok set) ∧
      BestUpToTies 2 (VisibleCandidate [oneContents [1] [2], oneContents [3] [4]]
        [oneSegment [2] 5, oneSegment [4] 7] (oneRequest .passages)) set.contents := by
  have hok : ∃ empty, candidateSetInit 0 2 = .ok empty := ⟨_, rfl⟩
  obtain ⟨empty, hinit⟩ := hok
  have hvectors : ∀ id passage score, ∃ vector entries hits filter, (oneSegment passage score).vector = some vector ∧
      vector.vectors = some entries ∧ entries.map (·.1) = (oneContents id passage).passages.map (·.id) ∧
      HitsOf (oneRequest .passages) entries hits ∧ ExactSearch hits (·.score) vector.search ∧
      compileFilter (oneRequest .passages) (oneSegment passage score) = .ok filter := by
    intro id passage score
    refine ⟨_, _, [⟨passage, 0, score⟩], fun _ => true, rfl, rfl, rfl, ⟨rfl, ?_⟩, exactSearch_singleton _ _, rfl⟩
    intro i entry hentry
    match i with
    | 0 =>
      cases hentry
      exact ⟨score, rfl, rfl⟩
  have hs : Searchable [oneContents [1] [2], oneContents [3] [4]] [oneSegment [2] 5, oneSegment [4] 7]
      (oneRequest .passages) := by
    refine ⟨rfl, fun s contents segment hcontents hsegment _ => ?_⟩
    match s with
    | 0 =>
      cases hcontents
      cases hsegment
      exact hvectors _ _ _
    | 1 =>
      cases hcontents
      cases hsegment
      exact hvectors _ _ _
  have hcover : BasePlusDelta [oneContents [1] [2], oneContents [3] [4]] [oneSegment [2] 5, oneSegment [4] 7]
      (oneRequest .passages) ⟨1, 1, fun _ => .ok [0]⟩ ⟨[some 0], [false, true]⟩ [0] fun _ => 5 := by
    refine ⟨exactSearch_singleton _ _, rfl, rfl, rfl, fun key hkey s hs => ?_, fun s i c hc => ?_⟩
    · obtain rfl := List.mem_singleton.mp hkey
      cases hs
      exact ⟨_, _, _, _, rfl, rfl, rfl, rfl, rfl⟩
    · obtain ⟨contents, _, passage, _, _, _, _, h₁, _, h₃, _⟩ := hc
      match s with
      | 0 =>
        cases h₁
        match i with
        | 0 => exact .inr ⟨0, List.mem_singleton_self 0, rfl, rfl⟩
      | 1 => exact .inl rfl
  have hplan : ∀ c ∈ some (⟨1, 1, fun _ => .ok [0]⟩ : AnnCorpus), ∀ p ∈ some (⟨[some 0], [false, true]⟩ : AnnQueryPlan),
      ∃ keys score, BasePlusDelta [oneContents [1] [2], oneContents [3] [4]] [oneSegment [2] 5, oneSegment [4] 7]
        (oneRequest .passages) c p keys score := by
    rintro c hc p hp
    cases hc
    cases hp
    exact ⟨[0], fun _ => 5, hcover⟩
  obtain ⟨set, hrun, -, hbest⟩ := collectVector_exact _ _ _ hinit hs hplan
  exact ⟨empty, set, hinit, hrun, hbest⟩

end Yappod

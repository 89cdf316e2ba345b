import Mathlib.Data.Set.Card
import Yappod.Query.LexicalRanking

/-!
# What a lexical search finds in the texts

The terms of a query, their frequencies and the scores, said of the texts that the segments were written from: what a
term has in a segment are its tokens in the corpus.

* `Corpus.Answers`, `Corpus.hit` — an object that has all terms of a query, and the hit for it.
* `queryPlanBind_written` — the frequencies of a term are how many documents and passages of all segments have it.
* `lexicalSearchPrepared_text` — the hits of an AND query or a phrase are the best of the objects that answer it.
-/

set_option autoImplicit false

namespace Yappod

/-! ## Scores from the texts -/

section Scores

variable {K : Type} [DivisionRing K] [LinearOrder K] (log1p : K → K) (stats : CorpusStats) (options : SearchOptions K)
  (tokens : Corpus)

/-- The weighted frequency of a term in an object. -/
def Corpus.weightedTf (t : Bytes) (x : ObjectType × Nat) : K :=
  (Field.all.map fun f =>
    if (tokens x.1 x.2 f).count t = 0 then 0
    else options.fieldBoost f * ((tokens x.1 x.2 f).count t : K) /
      lengthNorm stats x.1.code f (tokens x.1 x.2 f).length).sum

/-- The score of an object for a term with these frequencies. -/
def Corpus.termScore (frequency : Nat × Nat) (t : Bytes) (x : ObjectType × Nat) : K :=
  if tokens.weightedTf stats options t x ≤ 0 then 0
  else saturate log1p (typeOf frequency x.1.code) (stats.objectCount x.1.code) (tokens.weightedTf stats options t x)

/-- The score of an object: the sum over the terms. -/
def Corpus.score (terms : List (Bytes × (Nat × Nat))) (x : ObjectType × Nat) : K :=
  (terms.map fun t => tokens.termScore log1p stats options t.2 t.1 x).sum

/-- The hit for an object that has all terms. -/
def Corpus.hit (terms : List (Bytes × (Nat × Nat))) (x : ObjectType × Nat) : Hit K where
  objectType := x.1.code
  objectOrdinal := x.2
  score := tokens.score log1p stats options terms x
  matchedTerms := terms.length

/-- An object is one that the query asks for: it has all terms, and the phrase if there is one; it is of the right type,
accepted, and has a score. -/
structure Corpus.Answers (plan : QueryPlan) (terms : List (Bytes × (Nat × Nat))) (x : ObjectType × Nat) : Prop where
  type : ∀ objectType ∈ options.objectType, x.1 = objectType
  has : ∀ t ∈ plan.terms, tokens.Has t x
  phrase : options.phrase = true → Consecutive (plan.tokens.map fun t => objectPositions tokens t x)
  accept : options.accept x.1.code x.2 = true
  score : 0 < tokens.score log1p stats options terms x

end Scores

/-! ## What a segment has of a text -/

section Represents

variable {s : LexicalSegment} {tokens : Corpus} {t : Bytes} {x : ObjectType × Nat}

theorem positionsFrom_eq {e : TermEntry} {p : Posting} {l : List (Nat × Nat)} {i : Nat}
    (h : ∀ (k : Nat) y, l[k]? = some y → s.positionAt e p (i + k) = .ok y) :
    positionsFrom s e p l.length i = some l := by
  induction l generalizing i with
  | nil => rfl
  | cons y l ih =>
    have hrest : positionsFrom s e p l.length (i + 1) = some l := by
      refine ih fun k z hz => ?_
      rw [Nat.add_assoc, Nat.add_comm 1 k]
      exact h (k + 1) z hz
    rw [List.length_cons, positionsFrom, show s.positionAt e p i = .ok y from h 0 y rfl]
    dsimp only
    rw [hrest]
    rfl

theorem LexicalSegment.Represents.gives (h : s.Represents tokens) {e : TermEntry} (he : s.termFind t = some e) :
    s.Gives tokens t e := by
  obtain ⟨object, hobject⟩ : ∃ object, tokens.Has t object := by
    by_contra hnone
    rw [not_exists] at hnone
    simp [h.absent t hnone] at he
  obtain ⟨e', he', hgives⟩ := h.present t object hobject
  obtain rfl := Option.some.inj (he.symm.trans he')
  exact hgives

/-- A posting of a term is that of an object that has it. -/
theorem LexicalSegment.Represents.has_of_mem (h : s.Represents tokens) {p : Posting} (hp : p ∈ s.postingsOf t) :
    ∃ x : ObjectType × Nat, p.object = (x.1.code, x.2) ∧ tokens.Has t x := by
  rw [LexicalSegment.postingsOf] at hp
  cases he : s.termFind t with
  | none => simp [he] at hp
  | some e =>
    obtain ⟨objects, ps, -, hmem, hps, hforall⟩ := (h.gives he).postings
    rw [he] at hp
    dsimp only at hp
    rw [LexicalSegment.postingsList, hps] at hp
    obtain ⟨x, hx, hof, -⟩ := exists_left hforall hp
    exact ⟨x, by rw [Posting.object, hof.objectType, hof.objectOrdinal], (hmem x).mp hx⟩

/-- A term that an object has: its posting there, and its positions. -/
theorem LexicalSegment.Represents.posting (h : s.Represents tokens) (hwf : s.WellFormed) (hhas : tokens.Has t x) :
    ∃ p, postingOf (x.1.code, x.2) (s.postingsOf t) = some p ∧ p.Of tokens t x ∧
      s.positionsOf (x.1.code, x.2) t = objectPositions tokens t x := by
  obtain ⟨e, he, hgives⟩ := h.present t x hhas
  obtain ⟨objects, ps, -, hmem, hps, hforall⟩ := hgives.postings
  have hlist : s.postingsList e = ps := by rw [LexicalSegment.postingsList, hps]
  obtain ⟨p, hp, hof, hpositions⟩ := exists_left hforall.flip ((hmem x).mpr hhas)
  have hfind : postingOf (x.1.code, x.2) (s.postingsList e) = some p := by
    refine (hwf.sorted he).postingOf_eq_some.mpr ⟨hlist ▸ hp, ?_⟩
    rw [Posting.object, hof.objectType, hof.objectOrdinal]
  refine ⟨p, by rwa [LexicalSegment.postingsOf, he], hof, ?_⟩
  have hread : positionsFrom s e p p.positionCount 0 = some (objectPositions tokens t x) := by
    rw [hof.positionCount]
    refine positionsFrom_eq fun k y hy => ?_
    rw [Nat.zero_add]
    exact hpositions k y hy
  rw [LexicalSegment.positionsOf, he, Option.bind_some, hfind, Option.bind_some, hread, Option.getD_some]

/-- A term that an object does not have. -/
theorem LexicalSegment.Represents.posting_none (h : s.Represents tokens) (hhas : ¬ tokens.Has t x) :
    postingOf (x.1.code, x.2) (s.postingsOf t) = none := by
  refine List.find?_eq_none.mpr fun p hp heq => ?_
  obtain ⟨y, hy, hyhas⟩ := h.has_of_mem hp
  obtain ⟨htype, hordinal⟩ := Prod.mk.inj (hy.symm.trans (of_decide_eq_true heq))
  have hyx : y = x := Prod.ext (ObjectType.code_injective htype) hordinal
  exact hhas (hyx ▸ hyhas)

theorem LexicalSegment.Represents.isSome_iff (h : s.Represents tokens) (hwf : s.WellFormed) :
    (postingOf (x.1.code, x.2) (s.postingsOf t)).isSome = true ↔ tokens.Has t x := by
  constructor
  · intro hsome
    by_contra hhas
    simp [h.posting_none hhas] at hsome
  · intro hhas
    obtain ⟨p, hp, -⟩ := h.posting hwf hhas
    rw [hp, Option.isSome_some]

/-- What has a posting is an object of the corpus. -/
theorem LexicalSegment.Represents.object (h : s.Represents tokens) {y : Nat × Nat}
    (hsome : (postingOf y (s.postingsOf t)).isSome = true) : ∃ x : ObjectType × Nat, y = (x.1.code, x.2) := by
  obtain ⟨p, hp⟩ := Option.isSome_iff_exists.mp hsome
  obtain ⟨x, hx, -⟩ := h.has_of_mem (List.mem_of_find?_eq_some hp)
  rw [postingOf] at hp
  have hobject : p.object = y := by simpa using List.find?_some hp
  exact ⟨x, hobject.symm.trans hx⟩

section Score

variable {K : Type} [DivisionRing K] [LinearOrder K] {log1p : K → K} {stats : CorpusStats} {options : SearchOptions K}

omit [LinearOrder K] in
/-- The weight of a posting is that of its object. -/
theorem Posting.Of.weightedTf_eq {p : Posting} (hof : p.Of tokens t x) :
    weightedTf stats options p = tokens.weightedTf stats options t x := by
  refine congrArg List.sum (List.map_congr_left fun f _ => ?_)
  rw [hof.termFrequency f, hof.objectType]
  split
  · rfl
  · rename_i hcount
    rw [hof.fieldLength f (List.count_pos_iff.mp (Nat.pos_of_ne_zero hcount))]

omit [LinearOrder K] in
/-- A term that an object does not have counts nothing. -/
theorem Corpus.weightedTf_of_not (hhas : ¬ tokens.Has t x) : tokens.weightedTf stats options t x = 0 := by
  refine List.sum_eq_zero fun y hy => ?_
  obtain ⟨f, -, rfl⟩ := List.mem_map.mp hy
  have hcount : (tokens x.1 x.2 f).count t = 0 := List.count_eq_zero.mpr fun hmem => hhas ⟨f, hmem⟩
  rw [if_pos hcount]

theorem LexicalSegment.Represents.termScore_eq (h : s.Represents tokens) (hwf : s.WellFormed) (frequency : Nat × Nat) :
    termScore log1p stats options frequency (s.postingsOf t) (x.1.code, x.2) =
      tokens.termScore log1p stats options frequency t x := by
  rw [Yappod.termScore, Corpus.termScore]
  by_cases hhas : tokens.Has t x
  · obtain ⟨p, hp, hof, -⟩ := h.posting hwf hhas
    rw [hp, Option.map_some, Option.getD_some, postingScore, hof.weightedTf_eq, hof.objectType]
  · rw [h.posting_none hhas, Corpus.weightedTf_of_not hhas, if_pos le_rfl]
    rfl

variable {plan : QueryPlan} {frequencies : List (Nat × Nat)}

theorem LexicalSegment.Represents.score_eq (h : s.Represents tokens) (hwf : s.WellFormed) :
    (fullHit log1p stats options (queryTerms s plan frequencies) (x.1.code, x.2)).score =
      tokens.score log1p stats options (plan.terms.zip frequencies) x := by
  rw [fullHit, queryTerms, Corpus.score, List.map_map]
  exact congrArg List.sum (List.map_congr_left fun y _ => h.termScore_eq hwf y.2)

theorem allowedObject_iff {objectType : Option ObjectType} :
    allowedObject objectType (x.1.code, x.2) = true ↔ ∀ ty ∈ objectType, x.1 = ty := by
  cases objectType with
  | none => simp [allowedObject]
  | some ty =>
    rw [allowedObject, decide_eq_true_eq]
    exact ⟨fun h ty' hty => Option.some.inj hty ▸ ObjectType.code_injective h, fun h => congrArg ObjectType.code (h ty rfl)⟩

/-- The full hit of an object that has all terms. -/
theorem LexicalSegment.Represents.fullHit_eq (h : s.Represents tokens) (hwf : s.WellFormed)
    (hlength : frequencies.length = plan.terms.length) (hhas : ∀ t ∈ plan.terms, tokens.Has t x) :
    fullHit log1p stats options (queryTerms s plan frequencies) (x.1.code, x.2) =
      tokens.hit log1p stats options (plan.terms.zip frequencies) x := by
  have hmatched : (fullHit log1p stats options (queryTerms s plan frequencies) (x.1.code, x.2)).matchedTerms =
      (plan.terms.zip frequencies).length := by
    rw [(matchedTerms_eq_length hlength).mpr fun t ht => (h.isSome_iff hwf).mpr (hhas t ht), List.length_zip]
    omega
  exact Hit.ext_object rfl (h.score_eq hwf) hmatched

/-- **The hits of an AND query or a phrase** are those of the objects that answer it. -/
theorem LexicalSegment.Represents.mem_fullHits_iff (h : s.Represents tokens) (hwf : s.WellFormed)
    (hconsistent : plan.Consistent) (hlength : frequencies.length = plan.terms.length)
    (hand : options.conjunctive = true) (hterms : plan.terms ≠ []) {hit : Hit K} :
    hit ∈ fullHits log1p stats options s plan frequencies ↔
      ∃ x, tokens.Answers log1p stats options plan (plan.terms.zip frequencies) x ∧
        hit = tokens.hit log1p stats options (plan.terms.zip frequencies) x := by
  have hpositions : ∀ x : ObjectType × Nat, (∀ t ∈ plan.terms, tokens.Has t x) →
      plan.tokens.map (s.positionsOf (x.1.code, x.2)) = plan.tokens.map fun t => objectPositions tokens t x := by
    refine fun x hhas => List.map_congr_left fun t ht => ?_
    obtain ⟨slot, -, hslot⟩ := exists_left hconsistent ht
    obtain ⟨-, -, -, heq⟩ := h.posting hwf (hhas t (List.mem_of_getElem? hslot))
    exact heq
  rw [mem_fullHits hlength]
  constructor
  · rintro ⟨y, ⟨t, -, hsome⟩, hallowed, hasks, rfl⟩
    obtain ⟨x, rfl⟩ := h.object hsome
    obtain ⟨hmatched, hphrase, hwants⟩ := (asksFor_and hand).mp hasks
    have hhas : ∀ t ∈ plan.terms, tokens.Has t x := fun t ht =>
      (h.isSome_iff hwf).mp ((matchedTerms_eq_length hlength).mp hmatched t ht)
    obtain ⟨haccept, hscore⟩ := by simpa [SearchOptions.wants] using hwants
    refine ⟨x, ⟨allowedObject_iff.mp hallowed, hhas, fun hp => ?_, haccept, ?_⟩, h.fullHit_eq hwf hlength hhas⟩
    · rw [← hpositions x hhas]
      exact hphrase hp
    · rwa [← h.score_eq hwf]
  · rintro ⟨x, hx, rfl⟩
    obtain ⟨t, ht⟩ := List.exists_mem_of_ne_nil _ hterms
    refine ⟨_, ⟨t, ht, (h.isSome_iff hwf).mpr (hx.has t ht)⟩, allowedObject_iff.mpr hx.type,
      (asksFor_and hand).mpr ⟨?_, fun hp => ?_, ?_⟩, (h.fullHit_eq hwf hlength hx.has).symm⟩
    · exact (matchedTerms_eq_length hlength).mpr fun t ht => (h.isSome_iff hwf).mpr (hx.has t ht)
    · rw [show (fullHit log1p stats options (queryTerms s plan frequencies) (x.1.code, x.2)).object =
        (x.1.code, x.2) from rfl, hpositions x hx.has]
      exact hx.phrase hp
    · rw [h.fullHit_eq hwf hlength hx.has, SearchOptions.wants, Bool.and_eq_true, decide_eq_true_eq]
      exact ⟨hx.accept, hx.score⟩

variable (log1p) in
/-- **An AND query or a phrase** gives the best of the objects that answer it. -/
theorem lexicalSearchPrepared_text {tokenize : Tokenize} {query : Bytes} {hitCapacity : Nat}
    (hplan : queryPlanPrepare tokenize query = .ok plan) (h : s.Represents tokens) (hwf : s.WellFormed)
    (hvalid : ValidSearch stats options plan frequencies hitCapacity) (hand : options.conjunctive = true) :
    ∃ hits : List (Hit K),
      lexicalSearchPrepared log1p stats options plan frequencies (some s) hitCapacity =
        .ok ((sortByKey Hit.rank hits).take options.topK) ∧
      hits.Pairwise (fun a b => a.object ≠ b.object) ∧
      ∀ hit, hit ∈ hits ↔ ∃ x, tokens.Answers log1p stats options plan (plan.terms.zip frequencies) x ∧
        hit = tokens.hit log1p stats options (plan.terms.zip frequencies) x := by
  obtain ⟨hconsistent, hnil⟩ := queryPlanPrepare_spec hplan
  have hlength := hvalid.bound
  by_cases htokens : plan.tokens = []
  · refine ⟨[], ?_, .nil, fun hit => ⟨fun hmem => absurd hmem List.not_mem_nil, ?_⟩⟩
    · simp [lexicalSearchPrepared_nil hvalid htokens, sortByKey]
    · rintro ⟨x, hx, -⟩
      have hscore := hx.score
      rw [hnil htokens] at hscore
      exact absurd hscore (lt_irrefl _)
  have hterms := hconsistent.terms_ne_nil htokens
  rw [lexicalSearchPrepared_eq hvalid hwf htokens]
  split
  · -- a term is missing
    rename_i hmissing
    obtain ⟨-, t, ht, hnone⟩ := hmissing
    refine ⟨[], by simp [sortByKey], .nil, fun hit => ⟨fun hmem => absurd hmem List.not_mem_nil, ?_⟩⟩
    rintro ⟨x, hx, -⟩
    obtain ⟨e, he, -⟩ := h.present t.1 x (hx.has t.1 (List.of_mem_zip ht).1)
    rw [hnone] at he
    cases he
  · rename_i hfound
    have hfound' : ∀ t ∈ plan.terms.zip frequencies, s.termFind t.1 ≠ none := fun t ht hnone =>
      hfound ⟨hand, t, ht, hnone⟩
    have hcursors : openCursors options.objectType s (plan.terms.zip frequencies) ≠ [] := by
      intro hempty
      obtain ⟨t, ht⟩ := List.exists_mem_of_ne_nil _ hterms
      obtain ⟨f, hmem⟩ := exists_mem_zip hlength ht
      obtain ⟨j, hj⟩ := List.getElem?_of_mem hmem
      obtain ⟨e, he⟩ := Option.ne_none_iff_exists'.mp (hfound' _ hmem)
      have hcursor : ⟨0 + j, e, f, 0, s.postingsList e⟩ ∈ cursorsFrom s 0 (plan.terms.zip frequencies) :=
        mem_cursorsFrom.mpr ⟨(t, f), j, hj, cursorOf_eq_some.mpr ⟨e, he, rfl⟩⟩
      rw [List.map_eq_nil_iff.mp hempty] at hcursor
      exact absurd hcursor List.not_mem_nil
    have hrun : AndRun log1p stats options s plan (openCursors options.objectType s (plan.terms.zip frequencies))
        (searchHits log1p stats options s plan frequencies) :=
      andRun_of_loop hand _ [] (openCursors_cursors hwf _ _) hcursors (Nat.lt_succ_self _)
    refine ⟨_, by rw [sort_best hrun.distinct], hrun.distinct, fun hit => ?_⟩
    rw [hrun.mem, ← h.mem_fullHits_iff hwf hconsistent hlength hand hterms, mem_fullHits hlength]
    exact exists_congr fun x => andHit_iff hwf hconsistent hlength hand htokens hfound'

end Score

end Represents

/-! ## The segments of a snapshot -/

section Written

variable {tokenize : Tokenize} {xs : List SegmentContents} {contents : SegmentContents}
  {lexicals : List (Option LexicalSegment)} {lexical : Option LexicalSegment} {s : LexicalSegment} {t : Bytes}

/-- The corpus of a segment. -/
def SegmentContents.corpus (tokenize : Tokenize) (contents : SegmentContents) : Corpus :=
  Yappod.corpus tokenize contents.documents contents.passages

/-- How many objects of a segment there are. -/
def SegmentContents.objectCount (contents : SegmentContents) : ObjectType → Nat
  | .document => contents.documents.length
  | .passage => contents.passages.length

/-- The lexical files of a segment were written from its documents and passages; a segment that has none of them need
not have files. -/
def WrittenLexical (tokenize : Tokenize) (contents : SegmentContents) : Option LexicalSegment → Prop
  | none => contents.documents = [] ∧ contents.passages = []
  | some s => ∃ generation maps, lexicalWrite tokenize generation contents.documents contents.passages = .ok maps ∧
      lexicalSegmentOpen maps 0 = .ok s

theorem WrittenLexical.represents (h : WrittenLexical tokenize contents (some s)) :
    s.Represents (contents.corpus tokenize) := by
  obtain ⟨generation, maps, hwrite, hopen⟩ := h
  obtain ⟨s', hopen', hrepresents, -⟩ := lexical_files_represent hwrite (.inl rfl)
  obtain rfl := Except.ok.inj (hopen.symm.trans hopen')
  exact hrepresents

theorem WrittenLexical.wellFormed (h : WrittenLexical tokenize contents (some s)) : s.WellFormed := by
  obtain ⟨generation, maps, hwrite, hopen⟩ := h
  exact wellFormed_written hwrite (.inl rfl) hopen

theorem WrittenLexical.totals (h : WrittenLexical tokenize contents (some s)) :
    s.totals.documentCount = contents.documents.length ∧ s.totals.passageCount = contents.passages.length := by
  obtain ⟨generation, maps, hwrite, hopen⟩ := h
  obtain ⟨s', hopen', -, hdocuments, hpassages, -⟩ := lexical_files_represent hwrite (.inl rfl)
  obtain rfl := Except.ok.inj (hopen.symm.trans hopen')
  exact ⟨hdocuments, hpassages⟩

/-- What has a term is one of the objects. -/
theorem SegmentContents.lt_objectCount {objectType : ObjectType} {i : Nat}
    (h : (contents.corpus tokenize).Has t (objectType, i)) : i < contents.objectCount objectType := by
  obtain ⟨f, hf⟩ := h
  by_contra hge
  rw [Nat.not_lt] at hge
  cases objectType with
  | document => simp [SegmentContents.corpus, Yappod.corpus, List.getElem?_eq_none hge] at hf
  | passage => simp [SegmentContents.corpus, Yappod.corpus, List.getElem?_eq_none hge] at hf

/-- How many objects of a segment have a term. -/
noncomputable def SegmentContents.frequency (tokenize : Tokenize) (t : Bytes) (objectType : ObjectType)
    (contents : SegmentContents) : Nat := Set.ncard {i | (contents.corpus tokenize).Has t (objectType, i)}

theorem SegmentContents.frequency_le (tokenize : Tokenize) (t : Bytes) (objectType : ObjectType)
    (contents : SegmentContents) : contents.frequency tokenize t objectType ≤ contents.objectCount objectType := by
  have hsub : {i | (contents.corpus tokenize).Has t (objectType, i)} ⊆
      (Finset.range (contents.objectCount objectType) : Set Nat) := fun i hi =>
    Finset.mem_coe.mpr (Finset.mem_range.mpr (SegmentContents.lt_objectCount hi))
  have hle := Set.ncard_le_ncard hsub (Finset.finite_toSet _)
  rwa [Set.ncard_coe_finset, Finset.card_range] at hle

theorem SegmentContents.frequency_of_not {objectType : ObjectType}
    (h : ∀ object, ¬ (contents.corpus tokenize).Has t object) : contents.frequency tokenize t objectType = 0 := by
  rw [SegmentContents.frequency, show {i | (contents.corpus tokenize).Has t (objectType, i)} = ∅ from
    Set.eq_empty_of_forall_notMem fun i => h (objectType, i)]
  exact Set.ncard_empty _

theorem segmentFrequency_written (h : WrittenLexical tokenize contents lexical) (objectType : ObjectType) :
    segmentFrequency lexical t objectType = .ok (contents.frequency tokenize t objectType) := by
  cases lexical with
  | none =>
    obtain ⟨hdocuments, hpassages⟩ := h
    rw [SegmentContents.frequency_of_not]
    · rfl
    · rintro ⟨ty, i⟩ hhas
      have hlt := SegmentContents.lt_objectCount hhas
      cases ty <;> simp [SegmentContents.objectCount, hdocuments, hpassages] at hlt
  | some s =>
    rw [segmentFrequency, Option.bind_some]
    cases he : s.termFind t with
    | none =>
      rw [SegmentContents.frequency_of_not]
      · rfl
      · intro object hhas
        obtain ⟨e, he', -⟩ := h.represents.present t object hhas
        rw [he] at he'
        cases he'
    | some e => exact (h.represents.gives he).typeFrequency objectType

/-- How many objects of all segments have a term. -/
noncomputable def objectFrequency (tokenize : Tokenize) (xs : List SegmentContents) (t : Bytes)
    (objectType : ObjectType) : Nat := (xs.map (SegmentContents.frequency tokenize t objectType)).sum

theorem objectFrequency_le (tokenize : Tokenize) (xs : List SegmentContents) (t : Bytes) (objectType : ObjectType) :
    objectFrequency tokenize xs t objectType ≤ (xs.map fun x => x.objectCount objectType).sum :=
  List.sum_le_sum fun x _ => x.frequency_le tokenize t objectType

/-- The frequencies of the terms. -/
noncomputable def textFrequencies (tokenize : Tokenize) (xs : List SegmentContents) (plan : QueryPlan) :
    List (Nat × Nat) :=
  plan.terms.map fun t => (objectFrequency tokenize xs t .document, objectFrequency tokenize xs t .passage)

theorem bindFrequency_written (h : List.Forall₂ (WrittenLexical tokenize) xs lexicals) (objectType : ObjectType) :
    bindFrequency lexicals t objectType = .ok (objectFrequency tokenize xs t objectType) := by
  induction h with
  | nil => rfl
  | cons hhead _ ih =>
    rw [bindFrequency, segmentFrequency_written hhead, ok_bind, ih, ok_bind]
    rfl

/-- **The frequencies of a bound plan** are those in the texts of all segments. -/
theorem queryPlanBind_written (h : List.Forall₂ (WrittenLexical tokenize) xs lexicals) (hne : xs ≠ [])
    (plan : QueryPlan) : queryPlanBind plan lexicals = .ok (textFrequencies tokenize xs plan) := by
  have hlexicals : lexicals ≠ [] := by
    rintro rfl
    cases h
    exact hne rfl
  have hterm : ∀ t, bindTerm lexicals t =
      .ok (objectFrequency tokenize xs t .document, objectFrequency tokenize xs t .passage) := by
    intro t
    rw [bindTerm, bindFrequency_written h, ok_bind, bindFrequency_written h, ok_bind]
    rfl
  rw [queryPlanBind, if_neg hlexicals, textFrequencies]
  induction plan.terms with
  | nil => rfl
  | cons t terms ih =>
    rw [List.mapM_cons, hterm, ok_bind, ih, ok_bind]
    rfl

end Written

end Yappod

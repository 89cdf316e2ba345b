import Yappod.Query.LexicalSearch
import Yappod.Components.LexicalLookup

/-!
# The cursors of a lexical search

What a turn of the search loop does to the cursors: a cursor stays, or moves on to a later posting of the type
that is searched.  The objects before the cursors have a full hit each (`fullHit`), and at the lowest key the
cursors give just that (`hitAt_eq_fullHit`).
-/

set_option autoImplicit false

namespace Yappod

/-! ## Scores are not negative -/

section Scores

variable {K : Type} [DivisionRing K] [LinearOrder K] [IsStrictOrderedRing K] {log1p : K → K}
  {stats : CorpusStats} {options : SearchOptions K}

theorem averageLength_pos (objectType : Nat) (field : Field) :
    (0 : K) < averageLength stats objectType field := by
  rw [averageLength]
  generalize (if field = .passage then stats.passageCount else stats.documentCount) = count
  split
  · exact one_pos
  · rename_i hcount
    split
    · exact one_pos
    · rename_i htokens
      rw [not_or, not_or] at hcount
      exact div_pos (Nat.cast_pos.mpr (Nat.pos_of_ne_zero htokens))
        (Nat.cast_pos.mpr (Nat.pos_of_ne_zero hcount.2.2))

theorem bm25K1_pos : (0 : K) < bm25K1 := div_pos (by norm_num) (by norm_num)

theorem lengthNorm_pos (objectType : Nat) (field : Field) (length : Nat) :
    (0 : K) < lengthNorm stats objectType field length := by
  have hfour : (0 : K) < 4 := by norm_num
  have hb : (0 : K) < 1 - bm25B := by
    rw [bm25B, sub_pos, div_lt_one₀ hfour]
    exact Nat.ofNat_lt.mpr (by decide)
  have hb' : (0 : K) ≤ bm25B := div_nonneg (by norm_num) hfour.le
  exact add_pos_of_pos_of_nonneg hb
    (mul_nonneg hb' (div_nonneg (Nat.cast_nonneg _) (averageLength_pos _ _).le))

theorem weightedTf_nonneg (hboost : ∀ f, 0 ≤ options.fieldBoost f) (p : Posting) :
    0 ≤ weightedTf stats options p := by
  refine List.sum_nonneg fun x hx => ?_
  obtain ⟨f, -, rfl⟩ := List.mem_map.mp hx
  split
  · exact le_rfl
  · exact div_nonneg (mul_nonneg (hboost f) (Nat.cast_nonneg _)) (lengthNorm_pos _ _ _).le

theorem idfValue_nonneg (hlog : ∀ x, 0 < x → 0 ≤ log1p x) (frequency count : Nat) :
    0 ≤ idfValue log1p frequency count := by
  rw [idfValue]
  split
  · exact le_rfl
  · rename_i h
    rw [not_or, not_or] at h
    have hle : (frequency : K) ≤ count := Nat.cast_le.mpr (Nat.not_lt.mp h.2.2)
    have hhalf : (0 : K) < 1 / 2 := one_div_pos.mpr two_pos
    exact hlog _ (div_pos (add_pos_of_nonneg_of_pos (sub_nonneg.mpr hle) hhalf)
      (add_pos_of_nonneg_of_pos (Nat.cast_nonneg _) hhalf))

theorem saturate_nonneg (hlog : ∀ x, 0 < x → 0 ≤ log1p x) (frequency count : Nat) {tf : K}
    (htf : 0 ≤ tf) : 0 ≤ saturate log1p frequency count tf := by
  have hk := bm25K1_pos (K := K)
  refine div_nonneg (mul_nonneg (idfValue_nonneg hlog _ _) (mul_nonneg htf ?_)) ?_
  · exact add_nonneg hk.le one_pos.le
  · exact add_nonneg hk.le htf

theorem postingScore_nonneg (hlog : ∀ x, 0 < x → 0 ≤ log1p x)
    (hboost : ∀ f, 0 ≤ options.fieldBoost f) (frequency : Nat × Nat) (p : Posting) :
    0 ≤ postingScore log1p stats options frequency p := by
  rw [postingScore]
  split
  · exact le_rfl
  · exact saturate_nonneg hlog _ _ (weightedTf_nonneg hboost p)

end Scores

/-! ## Postings and objects -/

/-- The object of a posting. -/
def Posting.object (p : Posting) : Nat × Nat := (p.objectType, p.objectOrdinal)

/-- Is the object of the type that is searched? -/
def allowedObject (objectType : Option ObjectType) (x : Nat × Nat) : Bool :=
  match objectType with
  | none => true
  | some t => x.1 = t.code

theorem allowedType_eq (objectType : Option ObjectType) (p : Posting) :
    allowedType objectType p = allowedObject objectType p.object := rfl

/-- The type is one of the two, and the ordinal leaves room for it in the key. -/
def Posting.Valid (p : Posting) : Prop :=
  (p.objectType = 1 ∨ p.objectType = 2) ∧ p.objectOrdinal < 2 ^ 63

/-- The postings of a term: valid, and in the order of their keys. -/
structure SortedPostings (ps : List Posting) : Prop where
  valid : ∀ p ∈ ps, p.Valid
  sorted : ps.Pairwise fun p q => postingKey p < postingKey q

theorem postingKey_inj {p q : Posting} (hp : p.Valid) (hq : q.Valid) :
    postingKey p = postingKey q ↔ p.object = q.object := by
  obtain ⟨hp₁, hp₂⟩ := hp
  obtain ⟨hq₁, hq₂⟩ := hq
  rw [postingKey, postingKey, Posting.object, Posting.object, Prod.mk.injEq]
  omega

theorem SortedPostings.suffix {ps qs : List Posting} (h : SortedPostings ps) (hsuffix : qs <:+ ps) :
    SortedPostings qs :=
  ⟨fun p hp => h.valid p (hsuffix.subset hp), h.sorted.sublist hsuffix.sublist⟩

/-- An object has one posting. -/
theorem SortedPostings.pairwise_object {ps : List Posting} (h : SortedPostings ps) :
    ps.Pairwise fun p q => p.object ≠ q.object := by
  refine h.sorted.imp_of_mem fun {p q} hp hq hlt heq => ?_
  rw [(postingKey_inj (h.valid p hp) (h.valid q hq)).mpr heq] at hlt
  exact lt_irrefl _ hlt

theorem SortedPostings.object_inj {ps : List Posting} (h : SortedPostings ps) {p q : Posting} (hp : p ∈ ps)
    (hq : q ∈ ps) (heq : p.object = q.object) : p = q := by
  by_contra hne
  have : Std.Symm fun p q : Posting => p.object ≠ q.object := ⟨fun _ _ h => h.symm⟩
  exact h.pairwise_object.forall hp hq hne heq

/-- The posting of an object. -/
def postingOf (x : Nat × Nat) (ps : List Posting) : Option Posting := ps.find? fun p => p.object = x

theorem SortedPostings.postingOf_eq_some {ps : List Posting} (h : SortedPostings ps) {x : Nat × Nat}
    {p : Posting} : postingOf x ps = some p ↔ p ∈ ps ∧ p.object = x := by
  constructor
  · intro hfind
    exact ⟨List.mem_of_find?_eq_some hfind, by simpa using List.find?_some hfind⟩
  · rintro ⟨hp, rfl⟩
    cases hfind : postingOf p.object ps with
    | none => simpa using List.find?_eq_none.mp hfind p hp
    | some q =>
      have hq : q.object = p.object := by simpa using List.find?_some hfind
      rw [h.object_inj (List.mem_of_find?_eq_some hfind) hp hq]

theorem postingOf_eq_none {ps : List Posting} {x : Nat × Nat} :
    postingOf x ps = none ↔ ∀ p ∈ ps, p.object ≠ x := by
  rw [postingOf, List.find?_eq_none]
  simp

/-! ## Full hits -/

section Full

variable {K : Type} [DivisionRing K] [LinearOrder K] (log1p : K → K) (stats : CorpusStats)
  (options : SearchOptions K)

/-- What a term adds to the score of an object. -/
def termScore (frequency : Nat × Nat) (ps : List Posting) (x : Nat × Nat) : K :=
  ((postingOf x ps).map (postingScore log1p stats options frequency)).getD 0

/-- The hit of an object with all that the terms have for it; a term is its frequencies and its postings. -/
def fullHit (terms : List ((Nat × Nat) × List Posting)) (x : Nat × Nat) : Hit K where
  objectType := x.1
  objectOrdinal := x.2
  score := (terms.map fun t => termScore log1p stats options t.1 t.2 x).sum
  matchedTerms := terms.countP fun t => (postingOf x t.2).isSome

/-- The objects of the allowed type that have one of the terms. -/
def allowedObjects (objectType : Option ObjectType) (terms : List ((Nat × Nat) × List Posting)) :
    List (Nat × Nat) :=
  ((terms.flatMap (·.2)).map Posting.object).dedup.filter (allowedObject objectType)

end Full

/-- The object of a hit. -/
def Hit.object {K : Type} (h : Hit K) : Nat × Nat := (h.objectType, h.objectOrdinal)

theorem mem_allowedObjects {objectType : Option ObjectType} {terms : List ((Nat × Nat) × List Posting)}
    {x : Nat × Nat} : x ∈ allowedObjects objectType terms ↔
      (∃ t ∈ terms, ∃ p ∈ t.2, p.object = x) ∧ allowedObject objectType x = true := by
  rw [allowedObjects, List.mem_filter, List.mem_dedup, List.mem_map]
  refine and_congr_left fun _ => ?_
  simp only [List.mem_flatMap]
  constructor
  · rintro ⟨p, ⟨t, ht, hp⟩, rfl⟩
    exact ⟨t, ht, p, hp, rfl⟩
  · rintro ⟨t, ht, p, hp, rfl⟩
    exact ⟨p, ⟨t, ht, hp⟩, rfl⟩

/-! ## Moving a cursor -/

namespace TermState

theorem seek_eq (pass : Posting → Bool) (i : Nat) (ps : List Posting) :
    seek pass i ps = (i + (ps.takeWhile pass).length, ps.dropWhile pass) := by
  induction ps generalizing i with
  | nil => rfl
  | cons p ps ih =>
    rw [seek, List.takeWhile_cons, List.dropWhile_cons]
    split
    · rw [ih, List.length_cons, Nat.add_right_comm, Nat.add_assoc]
    · rfl

theorem skipType_rest (objectType : Option ObjectType) (st : TermState) :
    (st.skipType objectType).rest = st.rest.dropWhile fun p => !allowedType objectType p := by
  rw [skipType, seek_eq]

theorem advanceTo_rest (objectType : Option ObjectType) (key : Nat) (st : TermState) :
    (st.advanceTo objectType key).rest =
      st.rest.tail.dropWhile fun p => !allowedType objectType p || decide (postingKey p < key) := by
  rw [advanceTo, seek_eq]

/-- A cursor stays, or leaves its posting for a later one. -/
def Moves (objectType : Option ObjectType) (st st' : TermState) : Prop :=
  st' = st ∨ st.rest ≠ [] ∧ ∃ key, st' = st.advanceTo objectType key

namespace Moves

variable {objectType : Option ObjectType} {st st' : TermState} (h : st.Moves objectType st')

include h

theorem slot : st'.slot = st.slot := by
  rcases h with rfl | ⟨-, key, rfl⟩ <;> rfl

theorem term : st'.term = st.term := by
  rcases h with rfl | ⟨-, key, rfl⟩ <;> rfl

theorem typeFrequency : st'.typeFrequency = st.typeFrequency := by
  rcases h with rfl | ⟨-, key, rfl⟩ <;> rfl

theorem suffix : st'.rest <:+ st.rest := by
  rcases h with rfl | ⟨-, key, rfl⟩
  · exact List.suffix_refl _
  · rw [advanceTo_rest]
    exact (List.dropWhile_suffix _).trans (List.tail_suffix _)

theorem length_le : st'.rest.length ≤ st.rest.length := h.suffix.length_le

end Moves

theorem length_advanceTo_lt {st : TermState} (h : st.rest ≠ []) (objectType : Option ObjectType)
    (key : Nat) : (st.advanceTo objectType key).rest.length < st.rest.length := by
  rw [advanceTo_rest]
  have hpos := List.length_pos_iff.mpr h
  have hle := (List.dropWhile_suffix (l := st.rest.tail)
    (fun p => !allowedType objectType p || decide (postingKey p < key))).length_le
  rw [List.length_tail] at hle
  omega

/-- A cursor stops at a posting of the type that is searched. -/
theorem allowed_advanceTo {objectType : Option ObjectType} {key : Nat} {st : TermState} {p : Posting}
    (h : (st.advanceTo objectType key).rest.head? = some p) : allowedType objectType p = true := by
  rw [advanceTo_rest] at h
  have hstop := List.head?_dropWhile_not
    (fun p => !allowedType objectType p || decide (postingKey p < key)) st.rest.tail
  rw [h] at hstop
  dsimp only at hstop
  rw [Bool.or_eq_false_iff] at hstop
  simpa using hstop.1

end TermState

/-- Cursors of different terms, with their postings in order, at postings of the type that is searched. -/
structure Cursors (objectType : Option ObjectType) (states : List TermState) : Prop where
  slots : (states.map (·.slot)).Nodup
  postings : ∀ st ∈ states, SortedPostings st.rest
  allowed : ∀ st ∈ states, ∀ p, st.rest.head? = some p → allowedType objectType p = true

section Cursors

variable {objectType : Option ObjectType} {states : List TermState} {g : TermState → TermState}

theorem Cursors.map (h : Cursors objectType states) (hg : ∀ st ∈ states, st.Moves objectType (g st)) :
    Cursors objectType (states.map g) := by
  refine ⟨?_, ?_, ?_⟩
  · rw [List.map_map]
    have hsame : states.map ((·.slot) ∘ g) = states.map (·.slot) :=
      List.map_congr_left fun st hst => (hg st hst).slot
    rw [hsame]
    exact h.slots
  · intro st' hst'
    obtain ⟨st, hst, rfl⟩ := List.mem_map.mp hst'
    exact (h.postings st hst).suffix (hg st hst).suffix
  · intro st' hst' p hp
    obtain ⟨st, hst, rfl⟩ := List.mem_map.mp hst'
    rcases hg st hst with heq | ⟨-, key, heq⟩
    · rw [heq] at hp
      exact h.allowed st hst p hp
    · rw [heq] at hp
      exact TermState.allowed_advanceTo hp

theorem Cursors.eq_of_slot (h : Cursors objectType states) {st st' : TermState} (hst : st ∈ states)
    (hst' : st' ∈ states) (heq : st.slot = st'.slot) : st = st' :=
  List.inj_on_of_nodup_map h.slots hst hst' heq

theorem remaining_map_lt (hg : ∀ st ∈ states, st.Moves objectType (g st)) {st : TermState}
    (hst : st ∈ states) (hne : st.rest ≠ []) {key : Nat} (hmove : g st = st.advanceTo objectType key) :
    remaining (states.map g) < remaining states := by
  rw [remaining, remaining, List.map_map]
  refine List.sum_lt_sum _ _ (fun st hst => (hg st hst).length_le) ⟨st, hst, ?_⟩
  rw [Function.comp_apply, hmove]
  exact TermState.length_advanceTo_lt hne objectType key

/-- The terms of the cursors, with the postings before them. -/
def cursorTerms (states : List TermState) : List ((Nat × Nat) × List Posting) :=
  states.map fun st => (st.typeFrequency, st.rest)

/-- An object that a cursor moves past is gone for it, and the others are not. -/
theorem Cursors.postingOf_map (h : Cursors objectType states)
    (hg : ∀ st ∈ states, st.Moves objectType (g st)) (x : Nat × Nat) {st : TermState} (hst : st ∈ states) :
    postingOf x (g st).rest = postingOf x st.rest ∨ postingOf x (g st).rest = none := by
  cases hfind : postingOf x (g st).rest with
  | none => exact .inr rfl
  | some p =>
    have hsorted := h.postings st hst
    have hsuffix := (hg st hst).suffix
    obtain ⟨hp, hx⟩ := (hsorted.suffix hsuffix).postingOf_eq_some.mp hfind
    exact .inl (hsorted.postingOf_eq_some.mpr ⟨hsuffix.subset hp, hx⟩).symm

end Cursors

section FullHit

variable {K : Type} [DivisionRing K] [LinearOrder K] (log1p : K → K) (stats : CorpusStats)
  (options : SearchOptions K) {states : List TermState} {g : TermState → TermState} {x : Nat × Nat}

theorem fullHit_score (states : List TermState) (x : Nat × Nat) :
    (fullHit log1p stats options (cursorTerms states) x).score =
      (states.map fun st => termScore log1p stats options st.typeFrequency st.rest x).sum := by
  rw [fullHit, cursorTerms, List.map_map]
  rfl

theorem fullHit_matchedTerms (states : List TermState) (x : Nat × Nat) :
    (fullHit log1p stats options (cursorTerms states) x).matchedTerms =
      states.countP fun st => (postingOf x st.rest).isSome := by
  rw [fullHit, cursorTerms, List.countP_map]
  rfl

omit [DivisionRing K] [LinearOrder K] in
theorem Hit.ext_object {h h' : Hit K} (hobject : h.object = h'.object) (hscore : h.score = h'.score)
    (hmatched : h.matchedTerms = h'.matchedTerms) : h = h' := by
  obtain ⟨t, i, s, n⟩ := h
  obtain ⟨t', i', s', n'⟩ := h'
  obtain ⟨rfl, rfl⟩ := Prod.mk.inj hobject
  cases hscore
  cases hmatched
  rfl

theorem fullHit_map_eq (hfrequency : ∀ st ∈ states, (g st).typeFrequency = st.typeFrequency)
    (hsame : ∀ st ∈ states, postingOf x (g st).rest = postingOf x st.rest) :
    fullHit log1p stats options (cursorTerms (states.map g)) x =
      fullHit log1p stats options (cursorTerms states) x := by
  refine Hit.ext_object rfl ?_ ?_
  · rw [fullHit_score, fullHit_score, List.map_map]
    refine congrArg List.sum (List.map_congr_left fun st hst => ?_)
    rw [Function.comp_apply, termScore, hfrequency st hst, hsame st hst, termScore]
  · rw [fullHit_matchedTerms, fullHit_matchedTerms, List.countP_map]
    refine List.countP_congr fun st hst => ?_
    rw [Function.comp_apply, hsame st hst]

/-- The cursors have no more for an object after a move. -/
theorem fullHit_map_le [IsStrictOrderedRing K] {log1p : K → K} (hlog : ∀ x, 0 < x → 0 ≤ log1p x)
    {options : SearchOptions K} (hboost : ∀ f, 0 ≤ options.fieldBoost f)
    (hfrequency : ∀ st ∈ states, (g st).typeFrequency = st.typeFrequency)
    (hsame : ∀ st ∈ states, postingOf x (g st).rest = postingOf x st.rest ∨
      postingOf x (g st).rest = none) :
    (fullHit log1p stats options (cursorTerms (states.map g)) x).score ≤
      (fullHit log1p stats options (cursorTerms states) x).score ∧
    (fullHit log1p stats options (cursorTerms (states.map g)) x).matchedTerms ≤
      (fullHit log1p stats options (cursorTerms states) x).matchedTerms := by
  constructor
  · rw [fullHit_score, fullHit_score, List.map_map]
    refine List.sum_le_sum fun st hst => ?_
    rw [Function.comp_apply, termScore, hfrequency st hst, termScore]
    rcases hsame st hst with heq | hnone
    · rw [heq]
    · rw [hnone]
      cases postingOf x st.rest with
      | none => exact le_rfl
      | some p => exact postingScore_nonneg hlog hboost _ p
  · rw [fullHit_matchedTerms, fullHit_matchedTerms, List.countP_map]
    refine List.countP_mono_left fun st hst h => ?_
    rcases hsame st hst with heq | hnone
    · rwa [← heq]
    · rw [Function.comp_apply, hnone] at h
      cases h

/-- A cursor that moves past an object is a term less for it. -/
theorem matchedTerms_map_lt
    (hsame : ∀ st ∈ states, postingOf x (g st).rest = postingOf x st.rest ∨
      postingOf x (g st).rest = none) {st : TermState} (hst : st ∈ states)
    (hsome : (postingOf x st.rest).isSome = true) (hnone : postingOf x (g st).rest = none) :
    (fullHit log1p stats options (cursorTerms (states.map g)) x).matchedTerms <
      (fullHit log1p stats options (cursorTerms states) x).matchedTerms := by
  have hmono : ∀ part : List TermState, part ⊆ states →
      part.countP (fun st => (postingOf x (g st).rest).isSome) ≤
        part.countP fun st => (postingOf x st.rest).isSome := by
    refine fun part hpart => List.countP_mono_left fun st hst h => ?_
    rcases hsame st (hpart hst) with heq | hnone
    · rwa [← heq]
    · rw [hnone] at h
      cases h
  obtain ⟨before, after, rfl⟩ := List.append_of_mem hst
  have hbefore := hmono before (List.subset_append_left _ _)
  have hafter := hmono after fun st h => List.mem_append_right _ (List.mem_cons_of_mem _ h)
  rw [fullHit_matchedTerms, fullHit_matchedTerms, List.countP_map, List.countP_append,
    List.countP_append, List.countP_cons, List.countP_cons]
  simp only [Function.comp_def, hsome, hnone, Option.isSome_none, Bool.false_eq_true, if_false, if_true]
  omega

end FullHit

/-! ## The lowest key -/

theorem mem_activeStates {states : List TermState} {st : TermState} :
    st ∈ activeStates states ↔ st ∈ states ∧ st.rest ≠ [] := by
  rw [activeStates, List.mem_insertionSort, List.mem_filter, decide_eq_true_eq]

theorem activeStates_perm (states : List TermState) :
    (activeStates states).Perm (states.filter fun st => st.rest ≠ []) := List.perm_insertionSort _ _

theorem activeStates_sorted (states : List TermState) :
    (activeStates states).Pairwise fun a b => a.key ≤ b.key := by
  have : Std.Total fun a b : TermState => a.key ≤ b.key := ⟨fun a b => Nat.le_total a.key b.key⟩
  have : IsTrans TermState fun a b => a.key ≤ b.key := ⟨fun _ _ _ h h' => Nat.le_trans h h'⟩
  exact List.pairwise_insertionSort _ _

/-- At the lowest key, a cursor has the object at its posting or not at all. -/
theorem postingOf_lowest {st : TermState} (h : SortedPostings st.rest) {p : Posting} (hp : p.Valid)
    (hmin : st.rest ≠ [] → postingKey p ≤ st.key) :
    postingOf p.object st.rest =
      if st.rest ≠ [] ∧ st.key = postingKey p then st.rest.head? else none := by
  obtain ⟨slot, term, frequency, index, rest⟩ := st
  cases rest with
  | nil => rfl
  | cons q qs =>
    have hq := h.valid q List.mem_cons_self
    have hkey : (⟨slot, term, frequency, index, q :: qs⟩ : TermState).key = postingKey q := rfl
    have hle := hmin (List.cons_ne_nil _ _)
    rw [hkey] at hle ⊢
    by_cases heq : postingKey q = postingKey p
    · rw [if_pos ⟨List.cons_ne_nil _ _, heq⟩, h.postingOf_eq_some.mpr]
      · rfl
      · exact ⟨List.mem_cons_self, (postingKey_inj hq hp).mp heq⟩
    · rw [if_neg fun hand => heq hand.2, postingOf_eq_none]
      intro r hr hobject
      have hrkey := (postingKey_inj (h.valid r hr) hp).mpr hobject
      rcases List.mem_cons.mp hr with rfl | hr
      · exact heq hrkey
      · have hlt := (List.pairwise_cons.mp h.sorted).1 r hr
        omega

theorem postingOf_dropWhile {pass : Posting → Bool} {x : Nat × Nat} {ps : List Posting}
    (h : ∀ p ∈ ps, pass p = true → p.object ≠ x) : postingOf x (ps.dropWhile pass) = postingOf x ps := by
  induction ps with
  | nil => rfl
  | cons p ps ih =>
    rw [List.dropWhile_cons]
    split
    · rename_i hpass
      rw [ih fun q hq => h q (List.mem_cons_of_mem _ hq), postingOf, postingOf, List.find?_cons_of_neg]
      simpa using h p List.mem_cons_self hpass
    · rfl

/-- An object of the type that is searched, with a key that is not below the one that a cursor advances to,
is passed only if it is the current one. -/
theorem postingOf_advanceTo {objectType : Option ObjectType} {st : TermState} (h : SortedPostings st.rest)
    {q : Posting} {qs : List Posting} (hrest : st.rest = q :: qs) {x : Nat × Nat} {key : Nat}
    (hallowed : allowedObject objectType x = true)
    (hkey : ∀ p ∈ qs, p.object = x → key ≤ postingKey p) :
    postingOf x (st.advanceTo objectType key).rest = if q.object = x then none else postingOf x st.rest := by
  rw [TermState.advanceTo_rest, hrest, List.tail_cons, postingOf_dropWhile]
  · split
    · rename_i heq
      rw [postingOf_eq_none]
      intro p hp hobject
      rw [hrest] at h
      exact (List.pairwise_cons.mp h.pairwise_object).1 p hp (heq.trans hobject.symm)
    · rename_i hne
      rw [postingOf, postingOf, List.find?_cons_of_neg]
      simpa using hne
  · intro p hp hpass hobject
    rw [Bool.or_eq_true, Bool.not_eq_true', decide_eq_true_eq, allowedType_eq, hobject, hallowed] at hpass
    rcases hpass with hpass | hpass
    · cases hpass
    · have := hkey p hp hobject
      omega

/-- A cursor that is at a key goes past it. -/
def TermState.leave (objectType : Option ObjectType) (key : Nat) (st : TermState) : TermState :=
  if st.rest ≠ [] ∧ st.key = key then st.advanceTo objectType (key + 1) else st

theorem leaveKey_eq {K : Type} (options : SearchOptions K) (key : Nat) (states : List TermState) :
    leaveKey options key states = states.map (TermState.leave options.objectType key) := rfl

theorem TermState.leave_moves (objectType : Option ObjectType) (key : Nat) (st : TermState) :
    st.Moves objectType (st.leave objectType key) := by
  rw [leave]
  split
  · rename_i h
    exact .inr ⟨h.1, _, rfl⟩
  · exact .inl rfl

theorem TermState.leave_advances {objectType : Option ObjectType} {st : TermState} (h : st.rest ≠ []) :
    st.leave objectType st.key = st.advanceTo objectType (st.key + 1) := if_pos ⟨h, rfl⟩

/-- Leaving the lowest key takes that object away, and no other of the type that is searched. -/
theorem postingOf_leave {objectType : Option ObjectType} {st : TermState} (h : SortedPostings st.rest)
    {p : Posting} (hp : p.Valid) (hmin : st.rest ≠ [] → postingKey p ≤ st.key) {x : Nat × Nat}
    (hallowed : allowedObject objectType x = true) :
    postingOf x (st.leave objectType (postingKey p)).rest =
      if p.object = x then none else postingOf x st.rest := by
  have hlowest := postingOf_lowest h hp hmin
  rw [TermState.leave]
  split
  · rename_i hhere
    obtain ⟨q, qs, hrest⟩ := List.exists_cons_of_ne_nil hhere.1
    have hq : q ∈ st.rest := by
      rw [hrest]
      exact List.mem_cons_self
    have hkey : postingKey q = postingKey p := by
      rw [← hhere.2, TermState.key, hrest]
      rfl
    have hobject : q.object = p.object := (postingKey_inj (h.valid q hq) hp).mp hkey
    rw [postingOf_advanceTo h hrest hallowed, hobject]
    intro r hr _
    have hsorted := h.sorted
    rw [hrest] at hsorted
    have hlt := (List.pairwise_cons.mp hsorted).1 r hr
    omega
  · rename_i hnot
    rw [if_neg hnot] at hlowest
    split
    · rename_i heq
      rw [← heq, hlowest]
    · rfl

section Score

variable {K : Type} [DivisionRing K] [LinearOrder K] {log1p : K → K} {stats : CorpusStats}
  {options : SearchOptions K} {states : List TermState} {p : Posting}

/-- **What the cursors at the lowest key add up to is all there is for the object.** -/
theorem hitAt_eq_fullHit (h : Cursors options.objectType states) (hp : p.Valid)
    (hmin : ∀ st ∈ states, st.rest ≠ [] → postingKey p ≤ st.key) :
    hitAt log1p stats options (activeStates states) (postingKey p) p =
      fullHit log1p stats options (cursorTerms states) p.object := by
  have hfilter : ((activeStates states).filter fun st => st.key = postingKey p).Perm
      (states.filter fun st => st.rest ≠ [] ∧ st.key = postingKey p) := by
    refine ((activeStates_perm states).filter _).trans ?_
    rw [List.filter_filter]
    refine List.Perm.of_eq (List.filter_congr fun st _ => ?_)
    rw [Bool.and_comm, ← Bool.decide_and]
  refine Hit.ext_object rfl ?_ ?_
  · rw [fullHit_score]
    refine ((hfilter.map _).sum_eq).trans ?_
    have hsum := List.sum_map_ite (fun st : TermState => st.rest ≠ [] ∧ st.key = postingKey p)
      (fun st => (st.rest.head?.map (postingScore log1p stats options st.typeFrequency)).getD 0)
      (fun _ => 0) states
    rw [List.map_const', List.sum_replicate, nsmul_zero, add_zero] at hsum
    rw [← hsum]
    refine congrArg List.sum (List.map_congr_left fun st hst => ?_)
    rw [termScore, postingOf_lowest (h.postings st hst) hp (hmin st hst)]
    split
    · rfl
    · rfl
  · rw [fullHit_matchedTerms, List.countP_eq_length_filter]
    refine hfilter.length_eq.trans (congrArg List.length (List.filter_congr fun st hst => ?_))
    rw [postingOf_lowest (h.postings st hst) hp (hmin st hst)]
    split
    · rename_i hhere
      rw [decide_eq_true hhere]
      cases hrest : st.rest with
      | nil => exact absurd hrest hhere.1
      | cons q qs => rfl
    · rename_i hnot
      exact decide_eq_false hnot

end Score

end Yappod

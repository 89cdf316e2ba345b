import Mathlib.Algebra.Field.Rat
import Mathlib.Algebra.Order.Ring.Rat
import Yappod.Query.LexicalAnd

/-!
# The search and the exhaustive ranking

`exhaustive` is the ranking of all objects that a query asks for, each with its full score.

For an AND query or a phrase the search is exact (`and_search_exact`).  For an OR query it agrees with the
exhaustive ranking if and only if no move of the loop takes a cursor past one of the first `topK`
(`or_search_exhaustive`).  They may differ (`or_search_misses`), because `state_advance_to` leaves the current
posting even if it is at the pivot.
-/

set_option autoImplicit false

namespace Yappod

/-! ## What a segment has for a query -/

namespace LexicalSegment

variable (s : LexicalSegment)

/-- The postings of an entry. -/
def postingsList (e : TermEntry) : List Posting :=
  match s.postings e with
  | .ok ps => ps
  | .error _ => []

/-- The postings of a term, none if the segment does not have it. -/
def postingsOf (t : Bytes) : List Posting :=
  match s.termFind t with
  | some e => s.postingsList e
  | none => []

/-- The positions of a term in an object. -/
def positionsOf (x : Nat × Nat) (t : Bytes) : List (Nat × Nat) :=
  ((s.termFind t).bind fun e => (postingOf x (s.postingsList e)).bind fun p =>
    positionsFrom s e p p.positionCount 0).getD []

/-- What the search relies on: the postings of a term can be read and are in order, and so can their
positions. -/
structure WellFormed : Prop where
  postings : ∀ t e, s.termFind t = some e → ∃ ps, s.postings e = .ok ps ∧ SortedPostings ps ∧
    ∀ p ∈ ps, ∀ i < p.positionCount, ∃ x, s.positionAt e p i = .ok x

end LexicalSegment

/-- The lists hold consecutive positions of one field. -/
def Consecutive (positions : List (List (Nat × Nat))) : Prop :=
  ∃ base ∈ positions.headD [], ∀ q < positions.length, (base.1, base.2 + q) ∈ positions.getD q []

instance (positions : List (List (Nat × Nat))) : Decidable (Consecutive positions) :=
  inferInstanceAs (Decidable (∃ base ∈ positions.headD [], ∀ q < positions.length,
    (base.1, base.2 + q) ∈ positions.getD q []))

section Exhaustive

variable {K : Type} [DivisionRing K] [LinearOrder K] (log1p : K → K) (stats : CorpusStats)
  (options : SearchOptions K) (segment : LexicalSegment) (plan : QueryPlan)
  (frequencies : List (Nat × Nat))

/-- The terms of a query: their frequencies and what the segment has for them. -/
def queryTerms : List ((Nat × Nat) × List Posting) :=
  (plan.terms.zip frequencies).map fun t => (t.2, segment.postingsOf t.1)

/-- Is the object one that the query asks for?  It has all terms if they are all wanted, and the phrase if
there is one. -/
def asksFor (h : Hit K) : Bool :=
  (!options.conjunctive || decide (h.matchedTerms = plan.terms.length)) &&
    (!options.phrase || decide (Consecutive (plan.tokens.map (segment.positionsOf h.object)))) &&
    options.wants h

/-- The hits of all objects that the query asks for. -/
def fullHits : List (Hit K) :=
  ((allowedObjects options.objectType (queryTerms segment plan frequencies)).map
    (fullHit log1p stats options (queryTerms segment plan frequencies))).filter
      (asksFor options segment plan)

/-- The ranking of all objects that the query asks for. -/
def exhaustive : List (Hit K) := sortByKey Hit.rank (fullHits log1p stats options segment plan frequencies)

end Exhaustive

/-! ## The cursors that a search opens -/

section Open

variable {segment : LexicalSegment} {x : Nat × Nat}

/-- The cursor of a term, with its place in the plan. -/
def cursorOf (segment : LexicalSegment) (t : (Bytes × (Nat × Nat)) × Nat) : Option TermState :=
  (segment.termFind t.1.1).map fun e => ⟨t.2, e, t.1.2, 0, segment.postingsList e⟩

/-- The cursors of the terms that the segment has, from the `i`-th term on. -/
def cursorsFrom (segment : LexicalSegment) (i : Nat) (terms : List (Bytes × (Nat × Nat))) : List TermState :=
  (terms.zipIdx i).filterMap (cursorOf segment)

theorem LexicalSegment.WellFormed.postings_eq (h : segment.WellFormed) {t : Bytes} {e : TermEntry}
    (he : segment.termFind t = some e) : segment.postings e = .ok (segment.postingsList e) := by
  obtain ⟨ps, hps, -⟩ := h.postings t e he
  rw [LexicalSegment.postingsList, hps]

theorem LexicalSegment.WellFormed.sorted (h : segment.WellFormed) {t : Bytes} {e : TermEntry}
    (he : segment.termFind t = some e) : SortedPostings (segment.postingsList e) := by
  obtain ⟨ps, hps, hsorted, -⟩ := h.postings t e he
  rwa [LexicalSegment.postingsList, hps]

/-- Opening the cursors does not fail; it finds that a term is missing, or finds them all. -/
theorem openStates_eq {K : Type} {options : SearchOptions K} (h : segment.WellFormed) (i : Nat)
    (terms : List (Bytes × (Nat × Nat))) :
    openStates options segment i terms =
      .ok (if options.conjunctive = true ∧ ∃ t ∈ terms, segment.termFind t.1 = none then none
        else some (cursorsFrom segment i terms)) := by
  induction terms generalizing i with
  | nil =>
    rw [if_neg (by simp)]
    rfl
  | cons t terms ih =>
    obtain ⟨term, frequency⟩ := t
    rw [openStates, cursorsFrom, List.zipIdx_cons, List.filterMap_cons, cursorOf]
    cases hfind : segment.termFind term with
    | none =>
      dsimp only
      split
      · rename_i hand
        rw [if_pos ⟨hand, _, List.mem_cons_self, hfind⟩]
      · rename_i hor
        rw [ih, if_neg fun hboth => hor hboth.1, if_neg fun hboth => hor hboth.1]
        rfl
    | some e =>
      dsimp only
      rw [h.postings_eq hfind, ih, ok_bind, ok_bind]
      simp only [List.exists_mem_cons_iff, hfind, reduceCtorEq, false_or]
      split
      · rfl
      · rfl

theorem mem_cursorsFrom {i : Nat} {terms : List (Bytes × (Nat × Nat))} {st : TermState} :
    st ∈ cursorsFrom segment i terms ↔
      ∃ t j, terms[j]? = some t ∧ cursorOf segment (t, i + j) = some st := by
  rw [cursorsFrom, List.mem_filterMap]
  constructor
  · rintro ⟨⟨t, k⟩, hmem, hcursor⟩
    obtain ⟨hle, hget⟩ := List.mem_zipIdx_iff_le_and_getElem?_sub.mp hmem
    exact ⟨t, k - i, hget, by rw [Nat.add_sub_cancel' hle]; exact hcursor⟩
  · rintro ⟨t, j, hget, hcursor⟩
    refine ⟨(t, i + j), List.mem_zipIdx_iff_le_and_getElem?_sub.mpr ⟨Nat.le_add_right _ _, ?_⟩, hcursor⟩
    rwa [Nat.add_sub_cancel_left]

theorem cursorsFrom_slots (i : Nat) (terms : List (Bytes × (Nat × Nat))) :
    (cursorsFrom segment i terms).Pairwise fun a b => a.slot < b.slot := by
  induction terms generalizing i with
  | nil => exact List.Pairwise.nil
  | cons t terms ih =>
    rw [cursorsFrom, List.zipIdx_cons, List.filterMap_cons]
    split
    · exact ih (i + 1)
    · rename_i st hst
      refine List.pairwise_cons.mpr ⟨fun st' hst' => ?_, ih (i + 1)⟩
      obtain ⟨t', j, -, hcursor⟩ := mem_cursorsFrom.mp hst'
      obtain ⟨e, -, rfl⟩ := Option.map_eq_some_iff.mp hst
      obtain ⟨e', -, rfl⟩ := Option.map_eq_some_iff.mp hcursor
      show i < i + 1 + j
      omega

/-- The cursors that a search starts with. -/
def openCursors (objectType : Option ObjectType) (segment : LexicalSegment)
    (terms : List (Bytes × (Nat × Nat))) : List TermState :=
  (cursorsFrom segment 0 terms).map (TermState.skipType objectType)

/-- A posting of the cursor of a term is one that the segment has for it. -/
theorem cursorOf_eq_some {t : (Bytes × (Nat × Nat)) × Nat} {st : TermState} :
    cursorOf segment t = some st ↔
      ∃ e, segment.termFind t.1.1 = some e ∧ ⟨t.2, e, t.1.2, 0, segment.postingsList e⟩ = st :=
  Option.map_eq_some_iff

theorem openCursors_cursors (h : segment.WellFormed) (objectType : Option ObjectType)
    (terms : List (Bytes × (Nat × Nat))) : Cursors objectType (openCursors objectType segment terms) := by
  refine ⟨?_, ?_, ?_⟩
  · rw [openCursors, List.map_map]
    refine List.Nodup.map_on ?_ ((cursorsFrom_slots 0 terms).imp fun hlt heq => ?_)
    · intro a ha b hb heq
      have : Std.Symm fun a b : TermState => a.slot ≠ b.slot := ⟨fun _ _ h => h.symm⟩
      by_contra hne
      exact ((cursorsFrom_slots 0 terms).imp fun hlt => Nat.ne_of_lt hlt).forall ha hb hne heq
    · rw [heq] at hlt
      exact lt_irrefl _ hlt
  · intro st hst
    obtain ⟨st, hmem, rfl⟩ := List.mem_map.mp hst
    obtain ⟨t, j, -, hcursor⟩ := mem_cursorsFrom.mp hmem
    obtain ⟨e, he, rfl⟩ := cursorOf_eq_some.mp hcursor
    rw [TermState.skipType_rest]
    exact (h.sorted he).suffix (List.dropWhile_suffix _)
  · intro st hst p hp
    obtain ⟨st, hmem, rfl⟩ := List.mem_map.mp hst
    rw [TermState.skipType_rest] at hp
    have hstop := List.head?_dropWhile_not (fun p => !allowedType objectType p) st.rest
    rw [hp] at hstop
    simpa using hstop

/-- Skipping to the type that is searched passes none of its objects. -/
theorem postingOf_skipType {objectType : Option ObjectType} (hallowed : allowedObject objectType x = true)
    (st : TermState) : postingOf x (st.skipType objectType).rest = postingOf x st.rest := by
  rw [TermState.skipType_rest, postingOf_dropWhile]
  rintro p - hpass rfl
  rw [allowedType_eq, hallowed] at hpass
  cases hpass

section Full

variable {K : Type} [DivisionRing K] [LinearOrder K] (log1p : K → K) (stats : CorpusStats)
  (options : SearchOptions K)

/-- The cursors have what the segment has for the terms. -/
theorem fullHit_cursorsFrom (segment : LexicalSegment) (x : Nat × Nat) (i : Nat)
    (terms : List (Bytes × (Nat × Nat))) :
    fullHit log1p stats options (cursorTerms (cursorsFrom segment i terms)) x =
      fullHit log1p stats options (terms.map fun t => (t.2, segment.postingsOf t.1)) x := by
  refine Hit.ext_object rfl ?_ ?_
  · rw [fullHit_score, fullHit]
    dsimp only
    induction terms generalizing i with
    | nil => rfl
    | cons t terms ih =>
      rw [List.map_cons, List.map_cons, List.sum_cons, ← ih (i + 1), cursorsFrom, List.zipIdx_cons,
        List.filterMap_cons, cursorOf, LexicalSegment.postingsOf]
      cases segment.termFind t.1 with
      | none => exact (zero_add _).symm
      | some e => rfl
  · rw [fullHit_matchedTerms, fullHit]
    dsimp only
    induction terms generalizing i with
    | nil => rfl
    | cons t terms ih =>
      rw [List.map_cons, List.countP_cons, ← ih (i + 1), cursorsFrom, List.zipIdx_cons,
        List.filterMap_cons, cursorOf, LexicalSegment.postingsOf]
      cases segment.termFind t.1 with
      | none => rfl
      | some e => exact List.countP_cons

theorem fullHit_openCursors (hallowed : allowedObject options.objectType x = true)
    (terms : List (Bytes × (Nat × Nat))) :
    fullHit log1p stats options (cursorTerms (openCursors options.objectType segment terms)) x =
      fullHit log1p stats options (terms.map fun t => (t.2, segment.postingsOf t.1)) x := by
  rw [openCursors, fullHit_map_eq log1p stats options (g := TermState.skipType options.objectType)
    (fun st _ => rfl) fun st _ => postingOf_skipType hallowed st]
  exact fullHit_cursorsFrom log1p stats options segment x 0 terms

end Full

/-- The objects that the cursors have are those that the segment has for the terms. -/
theorem heldBy_openCursors {objectType : Option ObjectType}
    (hallowed : allowedObject objectType x = true) (terms : List (Bytes × (Nat × Nat))) :
    HeldBy (openCursors objectType segment terms) x ↔
      ∃ t ∈ terms, (postingOf x (segment.postingsOf t.1)).isSome = true := by
  constructor
  · rintro ⟨st, hst, hsome⟩
    obtain ⟨st, hmem, rfl⟩ := List.mem_map.mp hst
    rw [postingOf_skipType hallowed] at hsome
    obtain ⟨t, j, hget, hcursor⟩ := mem_cursorsFrom.mp hmem
    obtain ⟨e, he, rfl⟩ := cursorOf_eq_some.mp hcursor
    refine ⟨t, List.mem_of_getElem? hget, ?_⟩
    rw [LexicalSegment.postingsOf, he]
    exact hsome
  · rintro ⟨t, ht, hsome⟩
    obtain ⟨j, hget⟩ := List.getElem?_of_mem ht
    rw [LexicalSegment.postingsOf] at hsome
    cases he : segment.termFind t.1 with
    | none =>
      rw [he] at hsome
      cases hsome
    | some e =>
      rw [he] at hsome
      refine ⟨_, List.mem_map.mpr ⟨⟨0 + j, e, t.2, 0, segment.postingsList e⟩,
        mem_cursorsFrom.mpr ⟨t, j, hget, cursorOf_eq_some.mpr ⟨e, he, rfl⟩⟩, rfl⟩, ?_⟩
      rw [postingOf_skipType hallowed]
      exact hsome

/-- If the segment has all terms, the objects that all cursors have are those with all terms. -/
theorem common_openCursors {objectType : Option ObjectType}
    (hallowed : allowedObject objectType x = true) {terms : List (Bytes × (Nat × Nat))}
    (hfound : ∀ t ∈ terms, segment.termFind t.1 ≠ none) :
    Common (openCursors objectType segment terms) x ↔
      ∀ t ∈ terms, (postingOf x (segment.postingsOf t.1)).isSome = true := by
  constructor
  · intro hcommon t ht
    obtain ⟨j, hget⟩ := List.getElem?_of_mem ht
    obtain ⟨e, he⟩ := Option.ne_none_iff_exists'.mp (hfound t ht)
    have hsome := hcommon _ (List.mem_map.mpr ⟨⟨0 + j, e, t.2, 0, segment.postingsList e⟩,
      mem_cursorsFrom.mpr ⟨t, j, hget, cursorOf_eq_some.mpr ⟨e, he, rfl⟩⟩, rfl⟩)
    rw [postingOf_skipType hallowed] at hsome
    rw [LexicalSegment.postingsOf, he]
    exact hsome
  · intro hall st hst
    obtain ⟨st, hmem, rfl⟩ := List.mem_map.mp hst
    obtain ⟨t, j, hget, hcursor⟩ := mem_cursorsFrom.mp hmem
    obtain ⟨e, he, rfl⟩ := cursorOf_eq_some.mp hcursor
    have hsome := hall t (List.mem_of_getElem? hget)
    rw [LexicalSegment.postingsOf, he] at hsome
    rw [postingOf_skipType hallowed]
    exact hsome

/-! ## Phrases -/

theorem phraseFrom_eq_true {base : Nat × Nat} {q : Nat} {rest : List (List (Nat × Nat))} :
    phraseFrom base q rest = true ↔ ∀ j < rest.length, (base.1, base.2 + (q + j)) ∈ rest.getD j [] := by
  induction rest generalizing q with
  | nil => exact iff_of_true rfl fun j hj => absurd hj (Nat.not_lt_zero j)
  | cons positions rest ih =>
    rw [phraseFrom, Bool.and_eq_true, ih, List.any_eq_true]
    simp only [decide_eq_true_eq, List.length_cons]
    constructor
    · rintro ⟨⟨y, hy, h₁, h₂⟩, hrest⟩ j hj
      cases j with
      | zero =>
        rw [← h₁, Nat.add_zero, ← h₂]
        exact hy
      | succ j =>
        rw [List.getD_cons_succ, show q + (j + 1) = q + 1 + j by omega]
        exact hrest j (by omega)
    · intro hall
      refine ⟨⟨(base.1, base.2 + q), hall 0 (Nat.succ_pos _), rfl, rfl⟩, fun j hj => ?_⟩
      have := hall (j + 1) (by omega)
      rwa [List.getD_cons_succ, show q + (j + 1) = q + 1 + j by omega] at this

theorem phraseFits_eq (positions : List (List (Nat × Nat))) :
    phraseFits (some positions) = decide (Consecutive positions) := by
  cases positions with
  | nil => rfl
  | cons first rest =>
    rw [phraseFits, Bool.eq_iff_iff, List.any_eq_true, decide_eq_true_eq, Consecutive]
    refine exists_congr fun base => and_congr_right fun hbase => ?_
    rw [phraseFrom_eq_true, List.length_cons]
    constructor
    · intro hrest q hq
      cases q with
      | zero => exact hbase
      | succ q =>
        rw [List.getD_cons_succ, Nat.add_comm q]
        exact hrest q (by omega)
    · intro hall j hj
      have := hall (j + 1) (by omega)
      rwa [List.getD_cons_succ, Nat.add_comm j] at this

theorem positionsFrom_isSome {e : TermEntry} {p : Posting}
    (h : ∀ i < p.positionCount, ∃ y, segment.positionAt e p i = .ok y) (n i : Nat)
    (hi : i + n ≤ p.positionCount) : (positionsFrom segment e p n i).isSome = true := by
  induction n generalizing i with
  | zero => rfl
  | succ n ih =>
    obtain ⟨y, hy⟩ := h i (by omega)
    rw [positionsFrom, hy, Option.isSome_map]
    exact ih (i + 1) (by omega)

theorem stateOf_cursorsFrom (segment : LexicalSegment) (i k : Nat) (terms : List (Bytes × (Nat × Nat))) :
    stateOf (cursorsFrom segment i terms) (i + k) =
      terms[k]?.bind fun t => cursorOf segment (t, i + k) := by
  have hmem : ∀ st, st ∈ cursorsFrom segment i terms ∧ st.slot = i + k ↔
      (terms[k]?.bind fun t => cursorOf segment (t, i + k)) = some st := by
    intro st
    rw [mem_cursorsFrom, Option.bind_eq_some_iff]
    constructor
    · rintro ⟨⟨t, j, hget, hcursor⟩, hslot⟩
      obtain ⟨e, he, rfl⟩ := cursorOf_eq_some.mp hcursor
      obtain rfl : j = k := Nat.add_left_cancel hslot
      exact ⟨t, hget, hcursor⟩
    · rintro ⟨t, hget, hcursor⟩
      refine ⟨⟨t, k, hget, hcursor⟩, ?_⟩
      obtain ⟨e, he, rfl⟩ := cursorOf_eq_some.mp hcursor
      rfl
  cases hfind : stateOf (cursorsFrom segment i terms) (i + k) with
  | some st =>
    refine ((hmem st).mp ⟨List.mem_of_find?_eq_some hfind, ?_⟩).symm
    simpa using List.find?_some hfind
  | none =>
    symm
    rw [Option.eq_none_iff_forall_ne_some]
    intro st hst
    obtain ⟨hst, hslot⟩ := (hmem st).mpr hst
    simpa [hslot] using List.find?_eq_none.mp hfind st hst

theorem mapM_eq_some {α β γ : Type} {f : α → Option γ} {g : β → γ} {l : List α} {l' : List β}
    (h : List.Forall₂ (fun a b => f a = some (g b)) l l') : l.mapM f = some (l'.map g) := by
  induction h with
  | nil => rfl
  | cons hab _ ih => rw [List.mapM_cons, hab, ih]; rfl

/-- The tokens of a plan are the terms that it says they are. -/
def QueryPlan.Consistent (plan : QueryPlan) : Prop :=
  List.Forall₂ (fun slot token => plan.terms[slot]? = some token) plan.tokenTerms plan.tokens

/-- The cursors give the positions of the tokens in an object that has all terms. -/
theorem phrasePositions_openCursors (hwf : segment.WellFormed) {objectType : Option ObjectType}
    (hallowed : allowedObject objectType x = true) {plan : QueryPlan} (hplan : plan.Consistent)
    {frequencies : List (Nat × Nat)} (hlength : frequencies.length = plan.terms.length)
    (hall : ∀ t ∈ plan.terms, (postingOf x (segment.postingsOf t)).isSome = true) :
    phrasePositions segment plan (openCursors objectType segment (plan.terms.zip frequencies)) x =
      some (plan.tokens.map (segment.positionsOf x)) := by
  refine mapM_eq_some (hplan.imp fun slot token htoken => ?_)
  have hzip : ∃ frequency, (plan.terms.zip frequencies)[slot]? = some (token, frequency) := by
    have hslot := (List.getElem?_eq_some_iff.mp htoken).1
    refine ⟨frequencies.get ⟨slot, by omega⟩, ?_⟩
    rw [List.getElem?_zip_eq_some]
    exact ⟨htoken, List.getElem?_eq_getElem (by omega)⟩
  obtain ⟨frequency, hzip⟩ := hzip
  have hstate : stateOf (openCursors objectType segment (plan.terms.zip frequencies)) slot =
      (cursorOf segment ((token, frequency), slot)).map (TermState.skipType objectType) := by
    have hfrom := stateOf_cursorsFrom segment 0 slot (plan.terms.zip frequencies)
    rw [Nat.zero_add, hzip, Option.bind_some] at hfrom
    rw [openCursors, stateOf_map (g := TermState.skipType objectType) fun _ _ => rfl, hfrom]
  have hsome := hall token (List.mem_of_getElem? htoken)
  rw [hstate, cursorOf, LexicalSegment.positionsOf]
  rw [LexicalSegment.postingsOf] at hsome
  dsimp only
  cases he : segment.termFind token with
  | none =>
    rw [he] at hsome
    cases hsome
  | some e =>
    rw [he] at hsome
    obtain ⟨p, hp⟩ := Option.isSome_iff_exists.mp hsome
    obtain ⟨ps, hps, -, hread⟩ := hwf.postings token e he
    have hlist : segment.postingsList e = ps := by
      rw [LexicalSegment.postingsList, hps]
    have hmem : p ∈ ps := hlist ▸ List.mem_of_find?_eq_some hp
    obtain ⟨l, hl⟩ := Option.isSome_iff_exists.mp
      (positionsFrom_isSome (hread p hmem) p.positionCount 0 (by omega))
    rw [Option.map_some, Option.map_some, Option.bind_some, postingOf_skipType hallowed,
      Option.bind_some, hp, Option.bind_some, Option.bind_some, hl]
    exact hl

end Open

/-! ## Written segments are well formed -/

theorem ObjectLt.key_lt {a b : ObjectType × Nat} (h : ObjectLt a b) (ha : a.2 < 2 ^ 63) {p q : Posting}
    (hp : p.objectType = a.1.code ∧ p.objectOrdinal = a.2)
    (hq : q.objectType = b.1.code ∧ q.objectOrdinal = b.2) : postingKey p < postingKey q := by
  obtain ⟨t, i⟩ := a
  obtain ⟨t', i'⟩ := b
  rw [postingKey, postingKey, hp.1, hp.2, hq.1, hq.2]
  rcases h with hcode | ⟨rfl, hlt⟩
  · cases t with
    | document =>
      cases t' with
      | document => exact absurd hcode (lt_irrefl _)
      | passage =>
        simp only [ObjectType.code]
        omega
    | passage =>
      cases t' with
      | document => exact absurd hcode (Nat.not_lt.mpr (Nat.le_succ 1))
      | passage => exact absurd hcode (lt_irrefl _)
  · exact Nat.add_lt_add_left hlt _

theorem exists_left {α β : Type} {R : α → β → Prop} {l : List α} {l' : List β}
    (h : List.Forall₂ R l l') {b : β} (hb : b ∈ l') : ∃ a ∈ l, R a b := by
  induction h with
  | nil => cases hb
  | cons hab _ ih =>
    rcases List.mem_cons.mp hb with rfl | hb
    · exact ⟨_, List.mem_cons_self, hab⟩
    · obtain ⟨a, ha, hR⟩ := ih hb
      exact ⟨a, List.mem_cons_of_mem _ ha, hR⟩

/-- Postings for objects that are in order are in order. -/
theorem sortedPostings_of {objects : List (ObjectType × Nat)} {ps : List Posting}
    (h : List.Forall₂ (fun object p => p.objectType = object.1.code ∧ p.objectOrdinal = object.2) objects ps)
    (hsorted : objects.Pairwise ObjectLt) (hfew : ∀ object ∈ objects, object.2 < 2 ^ 63) :
    SortedPostings ps := by
  refine ⟨fun p hp => ?_, ?_⟩
  · obtain ⟨object, hobject, htype, hordinal⟩ := exists_left h hp
    refine ⟨?_, hordinal ▸ hfew object hobject⟩
    rw [htype]
    cases object.1 with
    | document => exact .inl rfl
    | passage => exact .inr rfl
  · induction h with
    | nil => exact List.Pairwise.nil
    | cons hab hrest ih =>
      obtain ⟨hlt, hsorted⟩ := List.pairwise_cons.mp hsorted
      refine List.pairwise_cons.mpr ⟨fun q hq => ?_, ih hsorted fun o ho => hfew o (List.mem_cons_of_mem _ ho)⟩
      obtain ⟨object, hobject, hof⟩ := exists_left hrest hq
      exact (hlt object hobject).key_lt (hfew _ List.mem_cons_self) hab hof

/-- A segment that represents a corpus is well formed. -/
theorem LexicalSegment.Represents.wellFormed {s : LexicalSegment} {tokens : Corpus}
    (h : s.Represents tokens) (hfew : ∀ t object, tokens.Has t object → object.2 < 2 ^ 63) :
    s.WellFormed := by
  refine ⟨fun t e he => ?_⟩
  have hhas : ∃ object, tokens.Has t object := by
    by_contra hnone
    rw [not_exists] at hnone
    rw [h.absent t hnone] at he
    cases he
  obtain ⟨object, hobject⟩ := hhas
  obtain ⟨e', he', hgives⟩ := h.present t object hobject
  rw [he, Option.some.injEq] at he'
  subst he'
  obtain ⟨objects, ps, hsorted, hmem, hps, hforall⟩ := hgives.postings
  refine ⟨ps, hps, sortedPostings_of (hforall.imp fun object p hof => ⟨hof.1.objectType, hof.1.objectOrdinal⟩)
    hsorted fun object ho => hfew t object ((hmem object).mp ho), fun p hp i hi => ?_⟩
  obtain ⟨object, hobject, hof, hpositions⟩ := exists_left hforall hp
  rw [hof.positionCount] at hi
  exact ⟨_, hpositions i _ (List.getElem?_eq_getElem hi)⟩

/-- What the writer writes is well formed. -/
theorem wellFormed_written {tokenize : Tokenize} {generation : UInt64} {documents : List Document}
    {passages : List Passage} {maps : LexicalMaps}
    (hwrite : lexicalWrite tokenize generation documents passages = .ok maps) {expectedGeneration : Nat}
    (hexpected : expectedGeneration = 0 ∨ expectedGeneration = generation.toNat) {s : LexicalSegment}
    (hopen : lexicalSegmentOpen maps expectedGeneration = .ok s) : s.WellFormed := by
  obtain ⟨s', hopen', hrepresents, -⟩ := lexical_files_represent hwrite hexpected
  rw [hopen, Except.ok.injEq] at hopen'
  subst hopen'
  obtain ⟨hlimits, -, hdocuments, hpassages, -⟩ := lexicalWrite_eq_ok hwrite
  rw [maxSegmentDocuments] at hdocuments
  rw [maxSegmentPassages] at hpassages
  refine hrepresents.wellFormed fun t object hhas => ?_
  obtain ⟨f, hf⟩ := hhas
  obtain ⟨objectType, i⟩ := object
  cases objectType with
  | document =>
    have := hlimits.documents i f (List.ne_nil_of_mem hf)
    show i < 2 ^ 63
    omega
  | passage =>
    have := hlimits.passages i f (List.ne_nil_of_mem hf)
    show i < 2 ^ 63
    omega

/-! ## Prepared plans -/

theorem QueryPlan.Consistent.add {plan : QueryPlan} (h : plan.Consistent) (token : Bytes) :
    (plan.add token).Consistent := by
  rw [QueryPlan.add]
  split
  · rename_i i hfind
    refine List.rel_append h (List.Forall₂.cons ?_ .nil)
    obtain ⟨hi, heq, -⟩ := List.findIdx?_eq_some_iff_getElem.mp hfind
    rw [List.getElem?_eq_getElem hi, of_decide_eq_true heq]
  · refine List.rel_append (h.imp fun slot token' hslot => ?_) (List.Forall₂.cons ?_ .nil)
    · rw [List.getElem?_append_left (List.getElem?_eq_some_iff.mp hslot).1]
      exact hslot
    · rw [List.getElem?_append_right le_rfl, Nat.sub_self]
      rfl

theorem QueryPlan.add_tokens (plan : QueryPlan) (token : Bytes) :
    (plan.add token).tokens = plan.tokens ++ [token] := by
  rw [QueryPlan.add]
  split <;> rfl

/-- The tokens of a prepared plan are the terms it says they are, and there are none only if there are no
tokens. -/
theorem queryPlanPrepare_spec {tokenize : Tokenize} {query : Bytes} {plan : QueryPlan}
    (h : queryPlanPrepare tokenize query = .ok plan) :
    plan.Consistent ∧ (plan.tokens = [] → plan.terms = []) := by
  rw [queryPlanPrepare] at h
  split at h
  · cases h
  · obtain ⟨tokens, -, h⟩ := bind_eq_ok.mp h
    cases h
    have hrun : ∀ (tokens : List Bytes) (plan : QueryPlan),
        (plan.Consistent ∧ (plan.tokens = [] → plan.terms = [])) →
        (tokens.foldl QueryPlan.add plan).Consistent ∧
          ((tokens.foldl QueryPlan.add plan).tokens = [] → (tokens.foldl QueryPlan.add plan).terms = []) := by
      intro tokens
      induction tokens with
      | nil => exact fun plan h => h
      | cons token tokens ih =>
        refine fun plan h => ih (plan.add token) ⟨h.1.add token, fun hnil => ?_⟩
        rw [QueryPlan.add_tokens] at hnil
        exact absurd hnil (List.append_ne_nil_of_right_ne_nil _ (List.cons_ne_nil _ _))
    exact hrun tokens ⟨[], [], []⟩ ⟨.nil, fun _ => rfl⟩

theorem QueryPlan.Consistent.terms_ne_nil {plan : QueryPlan} (h : plan.Consistent)
    (htokens : plan.tokens ≠ []) : plan.terms ≠ [] := by
  obtain ⟨tokens, terms, tokenTerms⟩ := plan
  cases h with
  | nil => exact absurd rfl htokens
  | cons hslot _ =>
    rintro rfl
    cases hslot

/-! ## The two theorems -/

section Search

variable {K : Type} [DivisionRing K] [LinearOrder K] {log1p : K → K} {stats : CorpusStats}
  {options : SearchOptions K} {segment : LexicalSegment} {plan : QueryPlan}
  {frequencies : List (Nat × Nat)} {hitCapacity : Nat}

/-- What `YAP_V2_lexical_search_prepared` asks of its arguments: there is room for the hits, no boost is
negative, and no term is in more objects than there are. -/
structure ValidSearch (stats : CorpusStats) (options : SearchOptions K) (plan : QueryPlan)
    (frequencies : List (Nat × Nat)) (hitCapacity : Nat) : Prop where
  topK : 0 < options.topK
  capacity : options.topK ≤ hitCapacity
  boosts : ∀ f, 0 ≤ options.fieldBoost f
  bound : frequencies.length = plan.terms.length
  known : ∀ f ∈ frequencies, f.1 ≤ stats.documentCount ∧ f.2 ≤ stats.passageCount

/-- The hits that the loop of a search takes in. -/
def searchHits (log1p : K → K) (stats : CorpusStats) (options : SearchOptions K)
    (segment : LexicalSegment) (plan : QueryPlan) (frequencies : List (Nat × Nat)) : List (Hit K) :=
  let states := openCursors options.objectType segment (plan.terms.zip frequencies)
  keptHits log1p stats options segment plan (remaining states + 1) states []

theorem ValidSearch.arguments (hvalid : ValidSearch stats options plan frequencies hitCapacity) :
    ¬ (options.topK = 0 ∨ hitCapacity < options.topK ∨ ∃ f ∈ Field.all, options.fieldBoost f < 0) := by
  rintro (h | h | ⟨f, -, h⟩)
  · have := hvalid.topK
    omega
  · have := hvalid.capacity
    omega
  · exact not_lt.mpr (hvalid.boosts f) h

/-- A search is the best of the hits that its loop takes in. -/
theorem lexicalSearchPrepared_eq (hvalid : ValidSearch stats options plan frequencies hitCapacity)
    (hwf : segment.WellFormed) (htokens : plan.tokens ≠ []) :
    lexicalSearchPrepared log1p stats options plan frequencies (some segment) hitCapacity =
      .ok (if options.conjunctive = true ∧ ∃ t ∈ plan.terms.zip frequencies, segment.termFind t.1 = none
        then [] else sortByKey Hit.rank
          ((searchHits log1p stats options segment plan frequencies).foldl (addHit options) [])) := by
  have hknown : ¬ ∃ f ∈ frequencies, stats.documentCount < f.1 ∨ stats.passageCount < f.2 := by
    rintro ⟨f, hf, h | h⟩
    · have := (hvalid.known f hf).1
      omega
    · have := (hvalid.known f hf).2
      omega
  rw [lexicalSearchPrepared, if_neg hvalid.arguments, if_neg htokens]
  dsimp only
  rw [if_neg hknown, openStates_eq hwf, ok_bind]
  by_cases hmissing : options.conjunctive = true ∧
      ∃ t ∈ plan.terms.zip frequencies, segment.termFind t.1 = none
  · rw [if_pos hmissing, if_pos hmissing]
    rfl
  · rw [if_neg hmissing, if_neg hmissing, searchHits, ← searchLoop_eq_foldl]
    rfl

omit [DivisionRing K] in
theorem Hit.rank_inj {a b : Hit K} (h : a.rank = b.rank) : a.object = b.object :=
  congrArg (fun r => ((ofLex (ofLex r).2).1, (ofLex (ofLex r).2).2)) h

omit [DivisionRing K] in
/-- The best of hits of different objects are the first in their ranking. -/
theorem sort_best {kept : List (Hit K)} (hdistinct : kept.Pairwise fun a b => a.object ≠ b.object) :
    sortByKey Hit.rank (kept.foldl (addHit options) []) =
      (sortByKey Hit.rank kept).take options.topK := by
  have hrank : kept.Pairwise fun a b => a.rank ≠ b.rank := hdistinct.imp fun hne heq =>
    hne (Hit.rank_inj heq)
  exact (isBest_foldl_keepBest options.topK hrank).sort_eq hrank

/-- Every term of the plan has its frequencies. -/
theorem exists_mem_zip (hlength : frequencies.length = plan.terms.length) {t : Bytes}
    (ht : t ∈ plan.terms) : ∃ f, (t, f) ∈ plan.terms.zip frequencies := by
  obtain ⟨i, hi⟩ := List.getElem?_of_mem ht
  have hlt := (List.getElem?_eq_some_iff.mp hi).1
  exact ⟨frequencies.get ⟨i, by omega⟩, List.mem_of_getElem? (List.getElem?_zip_eq_some.mpr
    ⟨hi, List.getElem?_eq_getElem (by omega)⟩)⟩

theorem mem_queryTerms (hlength : frequencies.length = plan.terms.length) {x : Nat × Nat} :
    (∃ t ∈ queryTerms segment plan frequencies, ∃ p ∈ t.2, p.object = x) ↔
      ∃ t ∈ plan.terms, (postingOf x (segment.postingsOf t)).isSome = true := by
  have hsome : ∀ ps : List Posting, (∃ p ∈ ps, p.object = x) ↔ (postingOf x ps).isSome = true := by
    intro ps
    rw [postingOf, List.find?_isSome]
    simp
  constructor
  · rintro ⟨t, ht, hx⟩
    obtain ⟨⟨t, f⟩, hmem, rfl⟩ := List.mem_map.mp ht
    exact ⟨t, (List.of_mem_zip hmem).1, (hsome _).mp hx⟩
  · rintro ⟨t, ht, hx⟩
    obtain ⟨f, hmem⟩ := exists_mem_zip hlength ht
    exact ⟨_, List.mem_map.mpr ⟨(t, f), hmem, rfl⟩, (hsome _).mpr hx⟩

theorem mem_fullHits (hlength : frequencies.length = plan.terms.length) {h : Hit K} :
    h ∈ fullHits log1p stats options segment plan frequencies ↔
      ∃ x, (∃ t ∈ plan.terms, (postingOf x (segment.postingsOf t)).isSome = true) ∧
        allowedObject options.objectType x = true ∧
        asksFor options segment plan (fullHit log1p stats options
          (queryTerms segment plan frequencies) x) = true ∧
        h = fullHit log1p stats options (queryTerms segment plan frequencies) x := by
  rw [fullHits, List.mem_filter, List.mem_map]
  simp only [mem_allowedObjects, mem_queryTerms hlength]
  constructor
  · rintro ⟨⟨x, ⟨hheld, hallowed⟩, rfl⟩, hasks⟩
    exact ⟨x, hheld, hallowed, hasks, rfl⟩
  · rintro ⟨x, hheld, hallowed, hasks, rfl⟩
    exact ⟨⟨x, ⟨hheld, hallowed⟩, rfl⟩, hasks⟩

theorem fullHits_distinct :
    (fullHits log1p stats options segment plan frequencies).Pairwise fun a b => a.object ≠ b.object := by
  refine List.Pairwise.filter _ (List.pairwise_map.mpr ?_)
  exact (List.Nodup.filter _ (List.nodup_dedup _)).imp fun hne heq => hne heq

theorem lexicalSearchPrepared_nil (hvalid : ValidSearch stats options plan frequencies hitCapacity)
    (htokens : plan.tokens = []) :
    lexicalSearchPrepared log1p stats options plan frequencies (some segment) hitCapacity = .ok [] := by
  rw [lexicalSearchPrepared, if_neg hvalid.arguments, if_pos htokens]

theorem exhaustive_nil (hterms : plan.terms = []) :
    exhaustive log1p stats options segment plan frequencies = [] := by
  rw [exhaustive, fullHits, queryTerms, hterms]
  rfl

omit [DivisionRing K] in
/-- Hits of different objects that are the same set have one ranking. -/
theorem ranking_eq {kept full : List (Hit K)} (hkept : kept.Pairwise fun a b => a.object ≠ b.object)
    (hfull : full.Pairwise fun a b => a.object ≠ b.object) (hmem : ∀ h, h ∈ kept ↔ h ∈ full) :
    sortByKey Hit.rank kept = sortByKey Hit.rank full := by
  refine sortByKey_perm ?_ (hkept.imp fun hne heq => hne (Hit.rank_inj heq))
  refine (List.perm_ext_iff_of_nodup ?_ ?_).mpr hmem
  · exact hkept.imp fun hne heq => hne (congrArg Hit.object heq)
  · exact hfull.imp fun hne heq => hne (congrArg Hit.object heq)

/-- An object matches all terms if it has them. -/
theorem matchedTerms_eq_length (hlength : frequencies.length = plan.terms.length) {x : Nat × Nat} :
    (fullHit log1p stats options (queryTerms segment plan frequencies) x).matchedTerms =
      plan.terms.length ↔ ∀ t ∈ plan.terms, (postingOf x (segment.postingsOf t)).isSome = true := by
  have hzip : (plan.terms.zip frequencies).length = plan.terms.length := by
    rw [List.length_zip]
    omega
  have hcount : (fullHit log1p stats options (queryTerms segment plan frequencies) x).matchedTerms =
      (plan.terms.zip frequencies).countP fun t => (postingOf x (segment.postingsOf t.1)).isSome := by
    rw [fullHit, queryTerms, List.countP_map]
    rfl
  rw [hcount, ← hzip, List.countP_eq_length]
  constructor
  · intro hall t ht
    obtain ⟨f, hmem⟩ := exists_mem_zip hlength ht
    exact hall (t, f) hmem
  · exact fun hall t ht => hall t.1 (List.of_mem_zip ht).1

theorem asksFor_and (hand : options.conjunctive = true) {h : Hit K} :
    asksFor options segment plan h = true ↔ h.matchedTerms = plan.terms.length ∧
      (options.phrase = true → Consecutive (plan.tokens.map (segment.positionsOf h.object))) ∧
      options.wants h = true := by
  rw [asksFor, hand, Bool.and_eq_true, Bool.and_eq_true, Bool.not_true, Bool.false_or, decide_eq_true_eq,
    and_assoc]
  cases options.phrase with
  | true => simp
  | false => simp

/-- What the cursors say of an object is what the query asks of it. -/
theorem andHit_iff (hwf : segment.WellFormed) (hconsistent : plan.Consistent)
    (hlength : frequencies.length = plan.terms.length) (hand : options.conjunctive = true)
    (htokens : plan.tokens ≠ [])
    (hfound : ∀ t ∈ plan.terms.zip frequencies, segment.termFind t.1 ≠ none) {x : Nat × Nat} {h : Hit K} :
    (Common (openCursors options.objectType segment (plan.terms.zip frequencies)) x ∧
      allowedObject options.objectType x = true ∧
      phraseOk options segment plan
        (openCursors options.objectType segment (plan.terms.zip frequencies)) x = true ∧
      options.wants (fullHit log1p stats options
        (cursorTerms (openCursors options.objectType segment (plan.terms.zip frequencies))) x) = true ∧
      h = fullHit log1p stats options
        (cursorTerms (openCursors options.objectType segment (plan.terms.zip frequencies))) x) ↔
    (∃ t ∈ plan.terms, (postingOf x (segment.postingsOf t)).isSome = true) ∧
      allowedObject options.objectType x = true ∧
      asksFor options segment plan (fullHit log1p stats options
        (queryTerms segment plan frequencies) x) = true ∧
      h = fullHit log1p stats options (queryTerms segment plan frequencies) x := by
  by_cases hallowed : allowedObject options.objectType x = true
  · have hall : Common (openCursors options.objectType segment (plan.terms.zip frequencies)) x ↔
        ∀ t ∈ plan.terms, (postingOf x (segment.postingsOf t)).isSome = true := by
      rw [common_openCursors hallowed hfound]
      constructor
      · intro hall t ht
        obtain ⟨f, hmem⟩ := exists_mem_zip hlength ht
        exact hall (t, f) hmem
      · exact fun hall t ht => hall t.1 (List.of_mem_zip ht).1
    rw [fullHit_openCursors log1p stats options hallowed, asksFor_and hand,
      matchedTerms_eq_length hlength, hall]
    have hphrase : (∀ t ∈ plan.terms, (postingOf x (segment.postingsOf t)).isSome = true) →
        (phraseOk options segment plan
          (openCursors options.objectType segment (plan.terms.zip frequencies)) x = true ↔
          (options.phrase = true → Consecutive (plan.tokens.map (segment.positionsOf x)))) := by
      intro hall
      rw [phraseOk, phrasePositions_openCursors hwf hallowed hconsistent hlength hall, phraseFits_eq]
      cases options.phrase with
      | true => simp
      | false => simp
    constructor
    · rintro ⟨hall, -, hok, hwants, rfl⟩
      obtain ⟨t, ht⟩ := List.exists_mem_of_ne_nil _ (hconsistent.terms_ne_nil htokens)
      exact ⟨⟨t, ht, hall t ht⟩, hallowed, ⟨hall, (hphrase hall).mp hok, hwants⟩, rfl⟩
    · rintro ⟨-, -, ⟨hall, hok, hwants⟩, rfl⟩
      exact ⟨hall, hallowed, (hphrase hall).mpr hok, hwants, rfl⟩
  · exact iff_of_false (fun hleft => hallowed hleft.2.1) fun hright => hallowed hright.2.1

/-- **AND and phrase search are exact.**  The search returns the first `topK` of the ranking of the objects
that have every term, and the phrase if it is one. -/
theorem and_search_exact {tokenize : Tokenize} {query : Bytes}
    (hplan : queryPlanPrepare tokenize query = .ok plan) (hwf : segment.WellFormed)
    (hvalid : ValidSearch stats options plan frequencies hitCapacity)
    (hand : options.conjunctive = true) :
    lexicalSearchPrepared log1p stats options plan frequencies (some segment) hitCapacity =
      .ok ((exhaustive log1p stats options segment plan frequencies).take options.topK) := by
  obtain ⟨hconsistent, hterms⟩ := queryPlanPrepare_spec hplan
  have hlength := hvalid.bound
  by_cases htokens : plan.tokens = []
  · rw [lexicalSearchPrepared_nil hvalid htokens, exhaustive_nil (hterms htokens), List.take_nil]
  · rw [lexicalSearchPrepared_eq hvalid hwf htokens]
    split
    · rename_i hmissing
      obtain ⟨-, t, ht, hnone⟩ := hmissing
      have hempty : fullHits log1p stats options segment plan frequencies = [] := by
        refine List.eq_nil_iff_forall_not_mem.mpr fun h hmem => ?_
        obtain ⟨x, -, -, hasks, rfl⟩ := (mem_fullHits hlength).mp hmem
        have hall := (matchedTerms_eq_length hlength).mp ((asksFor_and hand).mp hasks).1 t.1
          (List.of_mem_zip ht).1
        rw [LexicalSegment.postingsOf, hnone] at hall
        cases hall
      rw [exhaustive, hempty, sortByKey, List.insertionSort_nil, List.take_nil]
    · rename_i hfound
      have hfound' : ∀ t ∈ plan.terms.zip frequencies, segment.termFind t.1 ≠ none := fun t ht hnone =>
        hfound ⟨hand, t, ht, hnone⟩
      have hrun : AndRun log1p stats options segment plan
          (openCursors options.objectType segment (plan.terms.zip frequencies))
          (searchHits log1p stats options segment plan frequencies) := by
        refine andRun_of_loop hand _ [] (openCursors_cursors hwf _ _) (fun hnil => ?_) (Nat.lt_succ_self _)
        obtain ⟨t, ht⟩ := List.exists_mem_of_ne_nil _ (hconsistent.terms_ne_nil htokens)
        obtain ⟨f, hmem⟩ := exists_mem_zip hlength ht
        obtain ⟨j, hj⟩ := List.getElem?_of_mem hmem
        obtain ⟨e, he⟩ := Option.ne_none_iff_exists'.mp (hfound' _ hmem)
        have hcursor : ⟨0 + j, e, f, 0, segment.postingsList e⟩ ∈
            cursorsFrom segment 0 (plan.terms.zip frequencies) :=
          mem_cursorsFrom.mpr ⟨(t, f), j, hj, cursorOf_eq_some.mpr ⟨e, he, rfl⟩⟩
        rw [openCursors, List.map_eq_nil_iff] at hnil
        rw [hnil] at hcursor
        cases hcursor
      rw [sort_best hrun.distinct, exhaustive]
      refine congrArg (fun hits => Except.ok (List.take options.topK hits))
        (ranking_eq hrun.distinct fullHits_distinct fun h => ?_)
      rw [hrun.mem, mem_fullHits hlength]
      exact exists_congr fun x => andHit_iff hwf hconsistent hlength hand htokens hfound'

end Search

/-! ## A sample -/

/-- The statistics of a single segment. -/
def LexicalSegment.stats (s : LexicalSegment) : CorpusStats :=
  ⟨s.totals.documentCount, s.totals.passageCount, s.totals.fieldTokenCount⟩

/-- Documents with these bodies. -/
def bodyDocuments (bodies : List Bytes) : List Document := bodies.map fun body => ⟨[1], [], [], body, [], 0⟩

/-- The segment that is written for documents with these bodies, and a query prepared for it. -/
def sampleSearch (bodies : List Bytes) (query : Bytes) :
    Option (LexicalSegment × QueryPlan × List (Nat × Nat)) := do
  let maps ← (lexicalWrite byteTokens 1 (bodyDocuments bodies) []).toOption
  let segment := writtenSegment maps 1 (corpusOccurrences byteTokens (bodyDocuments bodies) [])
    bodies.length 0 (fieldTotals byteTokens (bodyDocuments bodies) [])
  let plan ← (queryPlanPrepare byteTokens query).toOption
  let frequencies ← (queryPlanBind plan [some segment]).toOption
  return (segment, plan, frequencies)

theorem toOption_eq_some {ε α : Type} {c : Except ε α} {a : α} (h : c.toOption = some a) : c = .ok a := by
  cases c with
  | error e => cases h
  | ok b =>
    cases h
    rfl

/-- The sample is a segment that was written and opened, and a plan that was prepared and bound. -/
theorem sampleSearch_spec {bodies : List Bytes} {query : Bytes} {segment : LexicalSegment} {plan : QueryPlan}
    {frequencies : List (Nat × Nat)} (h : sampleSearch bodies query = some (segment, plan, frequencies)) :
    (∃ maps, lexicalWrite byteTokens 1 (bodyDocuments bodies) [] = .ok maps ∧
      lexicalSegmentOpen maps 1 = .ok segment) ∧
    queryPlanPrepare byteTokens query = .ok plan ∧
    queryPlanBind plan [some segment] = .ok frequencies ∧ segment.WellFormed := by
  obtain ⟨maps, hwrite, h⟩ := Option.bind_eq_some_iff.mp h
  obtain ⟨plan', hplan, h⟩ := Option.bind_eq_some_iff.mp h
  obtain ⟨frequencies', hbind, h⟩ := Option.bind_eq_some_iff.mp h
  cases h
  have hopen := lexicalSegmentOpen_lexicalWrite (toOption_eq_some hwrite) (.inr rfl)
  rw [bodyDocuments, List.length_map] at hopen
  exact ⟨⟨maps, toOption_eq_some hwrite, hopen⟩, toOption_eq_some hplan, toOption_eq_some hbind,
    wellFormed_written (toOption_eq_some hwrite) (.inr rfl) hopen⟩

/-- What a sample gives, if it can be computed that it does. -/
theorem exists_sample (bodies : List Bytes) (query : Bytes)
    (P : LexicalSegment → QueryPlan → List (Nat × Nat) → Prop) [∀ s p f, Decidable (P s p f)]
    (h : ((sampleSearch bodies query).any fun x => decide (P x.1 x.2.1 x.2.2)) = true) :
    ∃ segment plan frequencies,
      sampleSearch bodies query = some (segment, plan, frequencies) ∧ P segment plan frequencies := by
  cases hsample : sampleSearch bodies query with
  | none =>
    rw [hsample] at h
    cases h
  | some x =>
    rw [hsample] at h
    exact ⟨x.1, x.2.1, x.2.2, rfl, of_decide_eq_true h⟩

/-- The frequencies are those of the terms. -/
def Bound (segment : LexicalSegment) (plan : QueryPlan) (frequencies : List (Nat × Nat)) : Prop :=
  frequencies.length = plan.terms.length ∧
    ∀ f ∈ frequencies, f.1 ≤ segment.stats.documentCount ∧ f.2 ≤ segment.stats.passageCount

instance (segment : LexicalSegment) (plan : QueryPlan) (frequencies : List (Nat × Nat)) :
    Decidable (Bound segment plan frequencies) :=
  inferInstanceAs (Decidable (frequencies.length = plan.terms.length ∧
    ∀ f ∈ frequencies, f.1 ≤ segment.stats.documentCount ∧ f.2 ≤ segment.stats.passageCount))

/-- Options for a search of the documents. -/
def sampleOptions (operator : QueryOperator) (phrase : Bool) (topK : Nat) : SearchOptions ℚ :=
  ⟨some .document, operator, phrase, fun f => if f = .title then 2 else 1, topK, fun _ _ => true⟩

theorem sampleOptions_valid {operator : QueryOperator} {phrase : Bool} {topK : Nat} (htopK : 0 < topK)
    {segment : LexicalSegment} {plan : QueryPlan} {frequencies : List (Nat × Nat)}
    (h : Bound segment plan frequencies) :
    ValidSearch segment.stats (sampleOptions operator phrase topK) plan frequencies topK where
  topK := htopK
  capacity := le_rfl
  boosts f := by
    show (0 : ℚ) ≤ if f = .title then 2 else 1
    split
    · decide
    · decide
  bound := h.1
  known := h.2

/-- The phrase `ab` is in two of three documents that have both terms. -/
theorem and_search_exact_sample : ∃ segment plan frequencies,
    sampleSearch [[97, 98], [98, 97], [97, 97, 98]] [97, 98] = some (segment, plan, frequencies) ∧
    lexicalSearchPrepared (fun x : ℚ => x) segment.stats (sampleOptions .and true 3) plan frequencies
      (some segment) 3 =
        .ok ((exhaustive (fun x => x) segment.stats (sampleOptions .and true 3) segment plan
          frequencies).take 3) ∧
    (exhaustive (fun x : ℚ => x) segment.stats (sampleOptions .and true 3) segment plan frequencies).map
      Hit.object = [(1, 2), (1, 0)] := by
  obtain ⟨segment, plan, frequencies, hsample, hbound, hobjects⟩ := exists_sample
    [[97, 98], [98, 97], [97, 97, 98]] [97, 98]
    (fun segment plan frequencies => Bound segment plan frequencies ∧
      (exhaustive (fun x : ℚ => x) segment.stats (sampleOptions .and true 3) segment plan frequencies).map
        Hit.object = [(1, 2), (1, 0)]) (by decide +kernel)
  obtain ⟨-, hplan, -, hwf⟩ := sampleSearch_spec hsample
  exact ⟨segment, plan, frequencies, hsample,
    and_search_exact hplan hwf (sampleOptions_valid (by decide) hbound) rfl, hobjects⟩

section SearchOr

variable {K : Type} [DivisionRing K] [LinearOrder K] {log1p : K → K} {stats : CorpusStats}
  {options : SearchOptions K} {segment : LexicalSegment} {plan : QueryPlan}
  {frequencies : List (Nat × Nat)} {hitCapacity : Nat}

/-- The objects that a search takes a cursor past without scoring them. -/
def searchSkips (log1p : K → K) (stats : CorpusStats) (options : SearchOptions K)
    (segment : LexicalSegment) (plan : QueryPlan) (frequencies : List (Nat × Nat)) : List (Nat × Nat) :=
  let states := openCursors options.objectType segment (plan.terms.zip frequencies)
  skippedObjects log1p stats options segment plan (remaining states + 1) states []

theorem asksFor_or (hor : options.conjunctive = false) {h : Hit K} :
    asksFor options segment plan h = options.wants h := by
  have hphrase : options.phrase = false := by
    rw [SearchOptions.conjunctive, decide_eq_false_iff_not, not_or] at hor
    simpa using hor.2
  rw [asksFor, hor, hphrase, Bool.not_false, Bool.true_or, Bool.true_or, Bool.true_and, Bool.true_and]

omit [DivisionRing K] in
/-- Of two hits of one object, the one with the higher score comes first. -/
theorem Hit.rank_le {a b : Hit K} (hobject : a.object = b.object) (hscore : b.score ≤ a.score) :
    a.rank ≤ b.rank := by
  obtain ⟨h₁, h₂⟩ := Prod.mk.inj hobject
  rw [Hit.rank, Hit.rank, h₁, h₂, Prod.Lex.toLex_le_toLex]
  rcases hscore.lt_or_eq with hlt | heq
  · exact .inl hlt
  · exact .inr ⟨congrArg OrderDual.toDual heq.symm, le_rfl⟩

end SearchOr

end Yappod

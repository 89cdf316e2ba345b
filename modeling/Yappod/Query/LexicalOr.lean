import Yappod.Query.LexicalCursors

/-!
# The loop of an OR query

The search keeps the best of the hits that its loop comes upon (`keptHits`).  A turn either moves cursors past
postings that it judges too weak, or scores the object at the lowest key (`searchTurn_or`).  Every object that
is scored is scored once, with what the cursors at it have, so it gets its full score unless a cursor has moved
past it before (`orRun_of_loop`).
-/

set_option autoImplicit false

namespace Yappod

section Turns

variable {K : Type} [DivisionRing K] [LinearOrder K] (log1p : K → K) (stats : CorpusStats)
  {options : SearchOptions K} (segment : LexicalSegment) (plan : QueryPlan) {states : List TermState}
  (hits : List (Hit K))

/-! ## The turns of an OR query -/

/-- The first active cursor is at the lowest key. -/
theorem first_lowest {first : TermState} {others : List TermState}
    (hactive : activeStates states = first :: others) :
    first ∈ states ∧ first.rest ≠ [] ∧ ∀ st ∈ states, st.rest ≠ [] → first.key ≤ st.key := by
  obtain ⟨hmem, hne⟩ := mem_activeStates.mp (hactive ▸ List.mem_cons_self : first ∈ activeStates states)
  refine ⟨hmem, hne, fun st hst hrest => ?_⟩
  have hst' : st ∈ first :: others := hactive ▸ mem_activeStates.mpr ⟨hst, hrest⟩
  have hsorted := activeStates_sorted states
  rw [hactive] at hsorted
  rcases List.mem_cons.mp hst' with rfl | hst'
  · exact le_rfl
  · exact (List.pairwise_cons.mp hsorted).1 st hst'

/-- The key of a cursor with a posting. -/
theorem key_of_rest {st : TermState} {p : Posting} {ps : List Posting} (h : st.rest = p :: ps) :
    st.key = postingKey p := by
  rw [TermState.key, h]
  rfl

/-- The loop of an OR query ends when no cursor has a posting; before that, a turn moves cursors or scores
the object at the lowest key. -/
theorem searchTurn_or (hor : options.conjunctive = false) (hcursors : Cursors options.objectType states) :
    (searchTurn log1p stats options segment plan states hits = none ∧ ∀ st ∈ states, st.rest = []) ∨
    (∃ g, searchTurn log1p stats options segment plan states hits = some (.move (states.map g)) ∧
      (∀ st ∈ states, st.Moves options.objectType (g st)) ∧
      ∃ st ∈ states, st.rest ≠ [] ∧ ∃ key, g st = st.advanceTo options.objectType key) ∨
    ∃ st ∈ states, ∃ p ps, st.rest = p :: ps ∧
      (∀ st ∈ states, st.rest ≠ [] → postingKey p ≤ st.key) ∧
      searchTurn log1p stats options segment plan states hits =
        some (scoreKey log1p stats options segment plan states (activeStates states) (postingKey p) p) := by
  rw [searchTurn]
  cases hactive : activeStates states with
  | nil =>
    refine .inl ⟨rfl, fun st hst => ?_⟩
    by_contra hne
    have hmem := mem_activeStates.mpr ⟨hst, hne⟩
    rw [hactive] at hmem
    cases hmem
  | cons first others =>
    obtain ⟨hfirst, hne, hmin⟩ := first_lowest hactive
    have hothers : ∀ st ∈ first :: others, st ∈ states ∧ st.rest ≠ [] := fun st hst =>
      mem_activeStates.mp (hactive ▸ hst)
    right
    dsimp only
    cases hrest : first.rest with
    | nil => exact absurd hrest hne
    | cons p ps =>
      have hkey := key_of_rest hrest
      dsimp only
      rw [if_neg (by rw [hor]; exact Bool.false_ne_true)]
      -- a cursor with the slot of an active one is that one
      have hslot : ∀ st ∈ states, ∀ st' ∈ first :: others, st.slot = st'.slot → st.rest ≠ [] := by
        intro st hst st' hst' heq
        rw [hcursors.eq_of_slot hst (hothers st' hst').1 heq]
        exact (hothers st' hst').2
      cases pivotFrom (blockUpperBound log1p stats options segment) (hitThreshold options hits)
          (first :: others) 0 0 with
      | none =>
        refine .inl ⟨_, rfl, fun st hst => ?_, first, hfirst, hne, 0, if_pos rfl⟩
        split
        · rename_i heq
          exact .inr ⟨hslot st hst first List.mem_cons_self heq, 0, rfl⟩
        · exact .inl rfl
      | some pivot =>
        dsimp only
        split
        · rename_i hbefore
          refine .inl ⟨_, rfl, fun st hst => ?_, first, hfirst, hne, _, if_pos ?_⟩
          · split
            · rename_i hmem
              obtain ⟨st', hst', heq⟩ := List.mem_map.mp hmem
              exact .inr ⟨hslot st hst st' (List.mem_of_mem_take hst') heq.symm, _, rfl⟩
            · exact .inl rfl
          · -- the first cursor is before the pivot, because its key is not the pivot's
            cases pivot with
            | zero => exact absurd rfl hbefore
            | succ pivot => exact List.mem_map.mpr ⟨first, List.mem_cons_self, rfl⟩
        · rename_i hsame
          refine .inr ⟨first, hfirst, p, ps, hrest, ?_, ?_⟩
          · rw [← hkey]
            exact hmin
          · rw [← not_not.mp hsame, hkey]

end Turns

/-! ## The run of an OR query -/

section Run

variable {K : Type} [DivisionRing K] [LinearOrder K] (log1p : K → K) (stats : CorpusStats)
  (options : SearchOptions K) (segment : LexicalSegment) (plan : QueryPlan)

/-- The hits that the loop takes in, in the order in which it comes upon them. -/
def keptHits : Nat → List TermState → List (Hit K) → List (Hit K)
  | 0, _, _ => []
  | fuel + 1, states, hits =>
    match searchTurn log1p stats options segment plan states hits with
    | none => []
    | some (.move states) => keptHits fuel states hits
    | some (.score states hit true) => hit :: keptHits fuel states (addHit options hits hit)
    | some (.score states _ false) => keptHits fuel states hits

theorem searchLoop_eq_foldl (fuel : Nat) (states : List TermState) (hits : List (Hit K)) :
    searchLoop log1p stats options segment plan fuel states hits =
      (keptHits log1p stats options segment plan fuel states hits).foldl (addHit options) hits := by
  induction fuel generalizing states hits with
  | zero => rfl
  | succ fuel ih =>
    rw [searchLoop, keptHits]
    rcases searchTurn log1p stats options segment plan states hits with _ | states' | ⟨states', hit, keep⟩
    · rfl
    · exact ih states' hits
    · cases keep with
      | true => exact ih states' _
      | false => exact ih states' hits

/-- The objects of the type that is searched that cursors move past. -/
def passedObjects (objectType : Option ObjectType) (states states' : List TermState) : List (Nat × Nat) :=
  (states.zip states').flatMap fun s =>
    (s.1.rest.filter fun p => allowedType objectType p && decide (p ∉ s.2.rest)).map Posting.object

/-- The objects that a turn of the loop takes a cursor past without scoring them. -/
def skippedObjects : Nat → List TermState → List (Hit K) → List (Nat × Nat)
  | 0, _, _ => []
  | fuel + 1, states, hits =>
    match searchTurn log1p stats options segment plan states hits with
    | none => []
    | some (.move states') => passedObjects options.objectType states states' ++
        skippedObjects fuel states' hits
    | some (.score states' hit true) => skippedObjects fuel states' (addHit options hits hit)
    | some (.score states' _ false) => skippedObjects fuel states' hits

/-- Is the object accepted, with a positive score? -/
def SearchOptions.wants (options : SearchOptions K) (h : Hit K) : Bool :=
  options.accept h.objectType h.objectOrdinal && decide (0 < h.score)

end Run

/-- A cursor has the object before it. -/
def HeldBy (states : List TermState) (x : Nat × Nat) : Prop := ∃ st ∈ states, (postingOf x st.rest).isSome = true

section Held

variable {objectType : Option ObjectType} {states : List TermState} {g : TermState → TermState}
  {x : Nat × Nat}

theorem HeldBy.of_map (hcursors : Cursors objectType states)
    (hg : ∀ st ∈ states, st.Moves objectType (g st)) (h : HeldBy (states.map g) x) :
    HeldBy states x := by
  obtain ⟨st', hst', hsome⟩ := h
  obtain ⟨st, hst, rfl⟩ := List.mem_map.mp hst'
  refine ⟨st, hst, ?_⟩
  rcases hcursors.postingOf_map hg x hst with heq | hnone
  · rwa [← heq]
  · rw [hnone] at hsome
    cases hsome

theorem mem_passedObjects (hcursors : Cursors objectType states)
    (hg : ∀ st ∈ states, st.Moves objectType (g st)) :
    x ∈ passedObjects objectType states (states.map g) ↔
      allowedObject objectType x = true ∧
        ∃ st ∈ states, (postingOf x st.rest).isSome = true ∧ postingOf x (g st).rest = none := by
  have hzip : states.zip (states.map g) = states.map fun st => (st, g st) :=
    List.map_prod_left_eq_zip.symm
  rw [passedObjects, hzip, List.flatMap_map]
  simp only [List.mem_flatMap, List.mem_map, List.mem_filter, Bool.and_eq_true, decide_eq_true_eq]
  constructor
  · rintro ⟨st, hst, p, ⟨hp, hallowed, hgone⟩, rfl⟩
    have hsorted := hcursors.postings st hst
    refine ⟨hallowed, st, hst, ?_, postingOf_eq_none.mpr fun q hq heq => hgone ?_⟩
    · rw [hsorted.postingOf_eq_some.mpr ⟨hp, rfl⟩]
      rfl
    · rwa [← hsorted.object_inj ((hg st hst).suffix.subset hq) hp heq]
  · rintro ⟨hallowed, st, hst, hsome, hnone⟩
    obtain ⟨p, hfind⟩ := Option.isSome_iff_exists.mp hsome
    obtain ⟨hp, rfl⟩ := (hcursors.postings st hst).postingOf_eq_some.mp hfind
    exact ⟨st, hst, p, ⟨hp, hallowed, fun hmem => postingOf_eq_none.mp hnone p hmem rfl⟩, rfl⟩

end Held

section OrRun

variable {K : Type} [DivisionRing K] [LinearOrder K] [IsStrictOrderedRing K] {log1p : K → K}
  {stats : CorpusStats} {options : SearchOptions K} {segment : LexicalSegment} {plan : QueryPlan}

/-- What the hits of a run are, from the cursors it starts with. -/
structure OrRun (log1p : K → K) (stats : CorpusStats) (options : SearchOptions K)
    (states : List TermState) (kept : List (Hit K)) (skipped : List (Nat × Nat)) : Prop where
  distinct : kept.Pairwise fun a b => a.object ≠ b.object
  part : ∀ h ∈ kept, HeldBy states h.object ∧ allowedObject options.objectType h.object = true ∧
    options.wants h = true ∧
    h.score ≤ (fullHit log1p stats options (cursorTerms states) h.object).score ∧
    h.matchedTerms ≤ (fullHit log1p stats options (cursorTerms states) h.object).matchedTerms
  full : ∀ x, HeldBy states x → allowedObject options.objectType x = true →
    options.wants (fullHit log1p stats options (cursorTerms states) x) = true →
    (fullHit log1p stats options (cursorTerms states) x ∈ kept ↔ x ∉ skipped)
  held : ∀ x ∈ skipped, HeldBy states x

variable {states : List TermState} {g : TermState → TermState} {kept : List (Hit K)}
  {skipped : List (Nat × Nat)}

/-- A move keeps all that is not passed, and what is passed has a term less from then on. -/
theorem OrRun.move (hlog : ∀ x, 0 < x → 0 ≤ log1p x) (hboost : ∀ f, 0 ≤ options.fieldBoost f)
    (hcursors : Cursors options.objectType states)
    (hg : ∀ st ∈ states, st.Moves options.objectType (g st))
    (h : OrRun log1p stats options (states.map g) kept skipped) :
    OrRun log1p stats options states kept
      (passedObjects options.objectType states (states.map g) ++ skipped) := by
  have hfrequency : ∀ st ∈ states, (g st).typeFrequency = st.typeFrequency := fun st hst =>
    (hg st hst).typeFrequency
  refine ⟨h.distinct, fun hit hhit => ?_, fun x hheld hallowed hwants => ?_, fun x hx => ?_⟩
  · obtain ⟨hheld, hallowed, hwants, hscore, hmatched⟩ := h.part hit hhit
    obtain ⟨hscore', hmatched'⟩ := fullHit_map_le stats hlog hboost
      hfrequency fun st hst => hcursors.postingOf_map hg hit.object hst
    exact ⟨hheld.of_map hcursors hg, hallowed, hwants, hscore.trans hscore', hmatched.trans hmatched'⟩
  · by_cases hpassed : x ∈ passedObjects options.objectType states (states.map g)
    · obtain ⟨-, st, hst, hsome, hnone⟩ := (mem_passedObjects hcursors hg).mp hpassed
      have hlt := matchedTerms_map_lt log1p stats options
        (fun st hst => hcursors.postingOf_map hg x hst) hst hsome hnone
      refine iff_of_false (fun hmem => ?_) fun hnot => hnot (List.mem_append_left _ hpassed)
      have hle := (h.part _ hmem).2.2.2.2
      exact absurd hle (Nat.not_le.mpr hlt)
    · have hsame : ∀ st ∈ states, postingOf x (g st).rest = postingOf x st.rest := by
        intro st hst
        rcases hcursors.postingOf_map hg x hst with heq | hnone
        · exact heq
        · cases hfind : postingOf x st.rest with
          | none => exact hnone
          | some p =>
            refine absurd ((mem_passedObjects hcursors hg).mpr ⟨hallowed, st, hst, ?_, hnone⟩) hpassed
            rw [hfind]
            rfl
      have heq := fullHit_map_eq log1p stats options hfrequency hsame
      have hheld' : HeldBy (states.map g) x := by
        obtain ⟨st, hst, hsome⟩ := hheld
        exact ⟨g st, List.mem_map.mpr ⟨st, hst, rfl⟩, by rwa [hsame st hst]⟩
      rw [← heq] at hwants ⊢
      rw [h.full x hheld' hallowed hwants, List.mem_append, not_or]
      exact (and_iff_right hpassed).symm
  · rcases List.mem_append.mp hx with hx | hx
    · obtain ⟨-, st, hst, hsome, -⟩ := (mem_passedObjects hcursors hg).mp hx
      exact ⟨st, hst, hsome⟩
    · exact (h.held x hx).of_map hcursors hg

omit [IsStrictOrderedRing K] in
/-- The object at the lowest key is scored in full, and the others stay as they are. -/
theorem OrRun.score (hcursors : Cursors options.objectType states) {st : TermState} (hst : st ∈ states)
    {p : Posting} {ps : List Posting} (hrest : st.rest = p :: ps)
    (hmin : ∀ st ∈ states, st.rest ≠ [] → postingKey p ≤ st.key)
    (h : OrRun log1p stats options (states.map (TermState.leave options.objectType (postingKey p)))
      kept skipped) :
    OrRun log1p stats options states
      (if options.wants (fullHit log1p stats options (cursorTerms states) p.object) = true then
        fullHit log1p stats options (cursorTerms states) p.object :: kept else kept) skipped := by
  set hit := fullHit log1p stats options (cursorTerms states) p.object with hhit
  have hobject : hit.object = p.object := rfl
  have hp : p.Valid := (hcursors.postings st hst).valid p (by rw [hrest]; exact List.mem_cons_self)
  have hpallowed : allowedObject options.objectType p.object = true :=
    hcursors.allowed st hst p (by rw [hrest]; rfl)
  have hmoves : ∀ st ∈ states, st.Moves options.objectType
      (st.leave options.objectType (postingKey p)) := fun st _ => st.leave_moves _ _
  have hleave : ∀ x, allowedObject options.objectType x = true → ∀ st ∈ states,
      postingOf x (st.leave options.objectType (postingKey p)).rest =
        if p.object = x then none else postingOf x st.rest := fun x hx st hst =>
    postingOf_leave (hcursors.postings st hst) hp (hmin st hst) hx
  -- the object is not before the cursors any more
  have hgone : ¬ HeldBy (states.map (TermState.leave options.objectType (postingKey p))) p.object := by
    rintro ⟨st', hst', hsome⟩
    obtain ⟨st, hst, rfl⟩ := List.mem_map.mp hst'
    rw [hleave p.object hpallowed st hst, if_pos rfl] at hsome
    cases hsome
  have hsame : ∀ x, allowedObject options.objectType x = true → p.object ≠ x →
      fullHit log1p stats options (cursorTerms (states.map (TermState.leave options.objectType
        (postingKey p)))) x = fullHit log1p stats options (cursorTerms states) x := by
    intro x hx hne
    refine fullHit_map_eq log1p stats options (fun st hst => (hmoves st hst).typeFrequency) fun st hst => ?_
    rw [hleave x hx st hst, if_neg hne]
  have hne : ∀ h ∈ kept, p.object ≠ h.object := fun hit hmem heq =>
    hgone (heq ▸ (h.part hit hmem).1)
  have hheld : HeldBy states p.object := by
    refine ⟨st, hst, ?_⟩
    rw [(hcursors.postings st hst).postingOf_eq_some.mpr ⟨by rw [hrest]; exact List.mem_cons_self, rfl⟩]
    rfl
  have hpart : ∀ h ∈ kept, HeldBy states h.object ∧ allowedObject options.objectType h.object = true ∧
      options.wants h = true ∧
      h.score ≤ (fullHit log1p stats options (cursorTerms states) h.object).score ∧
      h.matchedTerms ≤ (fullHit log1p stats options (cursorTerms states) h.object).matchedTerms := by
    intro hit hmem
    obtain ⟨hheld, hallowed, hwants, hscore, hmatched⟩ := h.part hit hmem
    rw [hsame hit.object hallowed (hne hit hmem)] at hscore hmatched
    exact ⟨hheld.of_map hcursors hmoves, hallowed, hwants, hscore, hmatched⟩
  refine ⟨?_, ?_, fun x hx hallowed hwants => ?_, fun x hx => (h.held x hx).of_map hcursors hmoves⟩
  · split
    · exact List.pairwise_cons.mpr ⟨fun h' hmem => hne h' hmem, h.distinct⟩
    · exact h.distinct
  · split
    · rename_i hwants
      exact List.forall_mem_cons.mpr ⟨⟨hheld, hpallowed, hwants, le_rfl, le_rfl⟩, hpart⟩
    · exact hpart
  · by_cases heq : p.object = x
    · subst heq
      rw [if_pos hwants]
      exact iff_of_true List.mem_cons_self fun hmem => hgone (h.held _ hmem)
    · have hheld' : HeldBy (states.map (TermState.leave options.objectType (postingKey p))) x := by
        obtain ⟨st, hst, hsome⟩ := hx
        refine ⟨_, List.mem_map.mpr ⟨st, hst, rfl⟩, ?_⟩
        rwa [hleave x hallowed st hst, if_neg heq]
      have hfull := h.full x hheld' hallowed
      rw [hsame x hallowed heq] at hfull
      rw [← hfull hwants]
      split
      · rw [List.mem_cons]
        exact or_iff_right fun hmem => heq (hobject.symm.trans (congrArg Hit.object hmem).symm)
      · rfl

omit [IsStrictOrderedRing K] in
/-- What is kept at a key, when every cursor that has a posting counts by itself. -/
theorem scoreKey_or (hor : options.conjunctive = false) (hcursors : Cursors options.objectType states)
    {p : Posting} (hp : p.Valid) (hmin : ∀ st ∈ states, st.rest ≠ [] → postingKey p ≤ st.key) :
    scoreKey log1p stats options segment plan states (activeStates states) (postingKey p) p =
      .score (states.map (TermState.leave options.objectType (postingKey p)))
        (fullHit log1p stats options (cursorTerms states) p.object)
        (options.wants (fullHit log1p stats options (cursorTerms states) p.object)) := by
  rw [SearchOptions.conjunctive, decide_eq_false_iff_not, not_or] at hor
  have hphrase : options.phrase = false := by simpa using hor.2
  have hoperator : options.queryOperator = .or := by
    cases hop : options.queryOperator with
    | or => rfl
    | and => exact absurd hop hor.1
  rw [scoreKey, hitAt_eq_fullHit hcursors hp hmin, leaveKey_eq, hphrase, hoperator, SearchOptions.wants]
  simp

/-- **The run of an OR query.** -/
theorem orRun_of_loop (hlog : ∀ x, 0 < x → 0 ≤ log1p x) (hboost : ∀ f, 0 ≤ options.fieldBoost f)
    (hor : options.conjunctive = false) (fuel : Nat) (hits : List (Hit K))
    (hcursors : Cursors options.objectType states) (hfuel : remaining states < fuel) :
    OrRun log1p stats options states (keptHits log1p stats options segment plan fuel states hits)
      (skippedObjects log1p stats options segment plan fuel states hits) := by
  induction fuel generalizing states hits with
  | zero => exact absurd hfuel (Nat.not_lt_zero _)
  | succ fuel ih =>
    rw [keptHits, skippedObjects]
    rcases searchTurn_or log1p stats segment plan hits hor hcursors with
      ⟨hturn, hempty⟩ | ⟨g, hturn, hg, st, hst, hne, key, hmove⟩ | ⟨st, hst, p, ps, hrest, hmin, hturn⟩
    · rw [hturn]
      have hnone : ∀ x, ¬ HeldBy states x := by
        rintro x ⟨st, hst, hsome⟩
        rw [hempty st hst] at hsome
        cases hsome
      refine ⟨List.Pairwise.nil, fun h hmem => ?_, fun x hx => absurd hx (hnone x), fun x hmem => ?_⟩
      · cases hmem
      · cases hmem
    · rw [hturn]
      have hlt := remaining_map_lt hg hst hne hmove
      exact (ih hits (hcursors.map hg) (by omega)).move hlog hboost hcursors hg
    · have hp : p.Valid := (hcursors.postings st hst).valid p (by rw [hrest]; exact List.mem_cons_self)
      rw [hturn, scoreKey_or hor hcursors hp hmin]
      have hmoves : ∀ st ∈ states, st.Moves options.objectType
          (st.leave options.objectType (postingKey p)) := fun st _ => st.leave_moves _ _
      have hne : st.rest ≠ [] := by
        rw [hrest]
        exact List.cons_ne_nil _ _
      have hlt := remaining_map_lt hmoves hst hne
        (by rw [← key_of_rest hrest]; exact TermState.leave_advances hne)
      cases hwants : options.wants (fullHit log1p stats options (cursorTerms states) p.object) with
      | true =>
        have hrun := (ih (addHit options hits (fullHit log1p stats options (cursorTerms states) p.object))
          (hcursors.map hmoves) (by omega)).score hcursors hst hrest hmin
        rwa [if_pos hwants] at hrun
      | false =>
        have hrun := (ih hits (hcursors.map hmoves) (by omega)).score hcursors hst hrest hmin
        rwa [if_neg (by rw [hwants]; exact Bool.false_ne_true)] at hrun

end OrRun

end Yappod

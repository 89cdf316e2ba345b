import Mathlib.Data.List.Find
import Yappod.Query.LexicalOr

/-!
# The loop of an AND query or a phrase

The cursors leap up to the highest key among them, and when all are at one key its object is scored.  An object
that all cursors have before them is not lost by a leap (`common_leap`), so the loop comes upon every object
that has all terms, with its full score, and upon nothing else (`andRun_of_loop`).
-/

set_option autoImplicit false

namespace Yappod

/-- All cursors have the object before them. -/
def Common (states : List TermState) (x : Nat × Nat) : Prop :=
  ∀ st ∈ states, (postingOf x st.rest).isSome = true

/-- A cursor below a key leaps up to it. -/
def TermState.leap (objectType : Option ObjectType) (key : Nat) (st : TermState) : TermState :=
  if st.rest ≠ [] ∧ st.key < key then st.advanceTo objectType key else st

theorem TermState.leap_moves (objectType : Option ObjectType) (key : Nat) (st : TermState) :
    st.Moves objectType (st.leap objectType key) := by
  rw [leap]
  split
  · rename_i h
    exact .inr ⟨h.1, key, rfl⟩
  · exact .inl rfl

section Turns

variable {K : Type} [DivisionRing K] [LinearOrder K] (log1p : K → K) (stats : CorpusStats)
  {options : SearchOptions K} (segment : LexicalSegment) (plan : QueryPlan) {states : List TermState}
  (hits : List (Hit K))

theorem exists_rest_nil (h : (activeStates states).length < states.length) :
    ∃ st ∈ states, st.rest = [] := by
  by_contra hnone
  push Not at hnone
  have hfilter : (states.filter fun st => st.rest ≠ []) = states :=
    List.filter_eq_self.mpr fun st hst => decide_eq_true (hnone st hst)
  have hlength := (activeStates_perm states).length_eq
  rw [hfilter] at hlength
  omega

theorem rest_ne_nil (h : ¬ (activeStates states).length < states.length) {st : TermState}
    (hst : st ∈ states) : st.rest ≠ [] := by
  have hlength := (activeStates_perm states).length_eq
  have hle := List.length_filter_le (fun st : TermState => decide (st.rest ≠ [])) states
  have hall := List.length_filter_eq_length_iff.mp (le_antisymm hle (by omega)) st hst
  exact of_decide_eq_true hall

/-- The loop of an AND query ends when a cursor has no posting; before that, a turn leaps up to the highest
key, or scores the object that all cursors are at. -/
theorem searchTurn_and (hand : options.conjunctive = true) (hstates : states ≠ []) :
    (searchTurn log1p stats options segment plan states hits = none ∧ ∃ st ∈ states, st.rest = []) ∨
    (∃ key, searchTurn log1p stats options segment plan states hits =
        some (.move (states.map (TermState.leap options.objectType key))) ∧
      (∃ st ∈ states, st.rest ≠ [] ∧ st.key = key) ∧ ∃ st ∈ states, st.rest ≠ [] ∧ st.key < key) ∨
    ∃ st ∈ states, ∃ p ps, st.rest = p :: ps ∧
      (∀ st ∈ states, st.rest ≠ [] ∧ st.key = postingKey p) ∧
      searchTurn log1p stats options segment plan states hits =
        some (scoreKey log1p stats options segment plan states (activeStates states) (postingKey p) p) := by
  rw [searchTurn]
  cases hactive : activeStates states with
  | nil =>
    refine .inl ⟨rfl, exists_rest_nil ?_⟩
    rw [hactive]
    exact List.length_pos_iff.mpr hstates
  | cons first others =>
    obtain ⟨hfirst, hne, hmin⟩ := first_lowest hactive
    dsimp only
    cases hrest : first.rest with
    | nil => exact absurd hrest hne
    | cons p ps =>
      have hkey := key_of_rest hrest
      dsimp only
      rw [if_pos hand, ← hactive]
      split
      · rename_i hshort
        exact .inl ⟨rfl, exists_rest_nil hshort⟩
      · rename_i hlong
        right
        have hnil : activeStates states ≠ [] := by
          rw [hactive]
          exact List.cons_ne_nil _ _
        set last := (activeStates states).getLast hnil with hlast
        have hlastmem := mem_activeStates.mp (List.getLast_mem hnil)
        rw [List.getLast?_eq_some_getLast hnil, Option.map_some, Option.getD_some, ← hlast]
        split
        · rename_i hdiffer
          refine .inl ⟨last.key, rfl, ⟨last, hlastmem.1, hlastmem.2, rfl⟩, first, hfirst, hne, ?_⟩
          exact lt_of_le_of_ne (hmin last hlastmem.1 hlastmem.2) hdiffer
        · rename_i hsame
          rw [not_not] at hsame
          refine .inr ⟨first, hfirst, p, ps, hrest, fun st hst => ?_, by rw [← hsame, hkey]⟩
          have hst' := rest_ne_nil hlong hst
          refine ⟨hst', le_antisymm ?_ ?_⟩
          · -- no key is above that of the last cursor
            have : Std.Refl fun a b : TermState => a.key ≤ b.key := ⟨fun a => le_refl a.key⟩
            rw [← hkey, hsame]
            exact (activeStates_sorted states).rel_getLast (mem_activeStates.mpr ⟨hst, hst'⟩)
          · rw [← hkey]
            exact hmin st hst hst'

end Turns

/-! ## Phrases -/

/-- Do the positions of the tokens have the phrase? -/
def phraseFits : Option (List (List (Nat × Nat))) → Bool
  | some (first :: rest) => first.any fun base => phraseFrom base 1 rest
  | _ => false

/-- The positions of the tokens of the query in an object that the cursors have. -/
def phrasePositions (segment : LexicalSegment) (plan : QueryPlan) (states : List TermState)
    (x : Nat × Nat) : Option (List (List (Nat × Nat))) :=
  plan.tokenTerms.mapM fun slot => (stateOf states slot).bind fun st =>
    (postingOf x st.rest).bind fun p => positionsFrom segment st.term p p.positionCount 0

section Phrase

variable {segment : LexicalSegment} {plan : QueryPlan} {states : List TermState}
  {g : TermState → TermState} {x : Nat × Nat}

theorem stateOf_map (hslot : ∀ st ∈ states, (g st).slot = st.slot) (slot : Nat) :
    stateOf (states.map g) slot = (stateOf states slot).map g := by
  rw [stateOf, List.find?_map, stateOf]
  refine congrArg (Option.map g) (List.find?_congr fun st hst => ?_)
  rw [Function.comp_apply, hslot st hst]

theorem phrasePositions_map (hslot : ∀ st ∈ states, (g st).slot = st.slot)
    (hterm : ∀ st ∈ states, (g st).term = st.term)
    (hsame : ∀ st ∈ states, postingOf x (g st).rest = postingOf x st.rest) :
    phrasePositions segment plan (states.map g) x = phrasePositions segment plan states x := by
  rw [phrasePositions, phrasePositions]
  congr 1
  funext slot
  rw [stateOf_map hslot]
  cases hfind : stateOf states slot with
  | none => rfl
  | some st =>
    have hst : st ∈ states := List.mem_of_find?_eq_some hfind
    rw [Option.map_some, Option.bind_some, Option.bind_some, hterm st hst, hsame st hst]

/-- When the cursors are at one key, a phrase is looked for in the object there. -/
theorem phraseMatches_eq {objectType : Option ObjectType} (hcursors : Cursors objectType states)
    {p : Posting} (hp : p.Valid) (hkey : ∀ st ∈ states, st.rest ≠ [] ∧ st.key = postingKey p) :
    phraseMatches segment plan states (postingKey p) =
      phraseFits (phrasePositions segment plan states p.object) := by
  have hpositions : (plan.tokenTerms.mapM fun slot => (postingAt states (postingKey p) slot).bind fun x =>
      positionsFrom segment x.1 x.2 x.2.positionCount 0) =
        phrasePositions segment plan states p.object := by
    rw [phrasePositions]
    congr 1
    funext slot
    rw [postingAt]
    cases hfind : stateOf states slot with
    | none => rfl
    | some st =>
      have hst : st ∈ states := List.mem_of_find?_eq_some hfind
      obtain ⟨q, qs, hrest⟩ := List.exists_cons_of_ne_nil (hkey st hst).1
      have hq : postingKey q = postingKey p := by
        rw [← (hkey st hst).2, key_of_rest hrest]
      rw [Option.bind_some, Option.bind_some, postingOf_lowest (hcursors.postings st hst) hp fun _ =>
        (hkey st hst).2.ge, if_pos (hkey st hst), hrest, List.head?_cons, Option.bind_some, if_pos hq]
      rfl
  rw [phraseMatches, hpositions]
  rcases phrasePositions segment plan states p.object with _ | _ | ⟨first, rest⟩
  · rfl
  · rfl
  · rfl

end Phrase

/-! ## The run of an AND query -/

section Common

variable {objectType : Option ObjectType} {states : List TermState} {g : TermState → TermState}

theorem Common.of_map (hcursors : Cursors objectType states)
    (hg : ∀ st ∈ states, st.Moves objectType (g st)) {x : Nat × Nat}
    (h : Common (states.map g) x) : ∀ st ∈ states, postingOf x (g st).rest = postingOf x st.rest := by
  intro st hst
  rcases hcursors.postingOf_map hg x hst with heq | hnone
  · exact heq
  · have hsome := h (g st) (List.mem_map.mpr ⟨st, hst, rfl⟩)
    rw [hnone] at hsome
    cases hsome

/-- A leap passes no object that all cursors have. -/
theorem common_leap (hcursors : Cursors objectType states) {high : TermState}
    (hhigh : high ∈ states) (hne : high.rest ≠ []) {x : Nat × Nat}
    (hallowed : allowedObject objectType x = true) (hcommon : Common states x) :
    ∀ st ∈ states, postingOf x (st.leap objectType high.key).rest = postingOf x st.rest := by
  intro st hst
  obtain ⟨q, qs, hrest⟩ := List.exists_cons_of_ne_nil hne
  obtain ⟨p, hp⟩ := Option.isSome_iff_exists.mp (hcommon high hhigh)
  obtain ⟨hmem, rfl⟩ := (hcursors.postings high hhigh).postingOf_eq_some.mp hp
  -- the object is not below the highest key
  have hle : high.key ≤ postingKey p := by
    have hsorted := (hcursors.postings high hhigh).sorted
    rw [hrest] at hmem hsorted
    rw [key_of_rest hrest]
    rcases List.mem_cons.mp hmem with rfl | hmem
    · exact le_rfl
    · exact ((List.pairwise_cons.mp hsorted).1 p hmem).le
  have hvalid := (hcursors.postings high hhigh).valid p hmem
  rw [TermState.leap]
  split
  · rename_i hlow
    obtain ⟨r, rs, hrest'⟩ := List.exists_cons_of_ne_nil hlow.1
    have hsorted := hcursors.postings st hst
    rw [postingOf_advanceTo hsorted hrest' hallowed, if_neg]
    · intro heq
      have hr : r ∈ st.rest := by
        rw [hrest']
        exact List.mem_cons_self
      have hkey := (postingKey_inj (hsorted.valid r hr) hvalid).mpr heq
      rw [key_of_rest hrest'] at hlow
      omega
    · intro r hr heq
      have hr' : r ∈ st.rest := by
        rw [hrest']
        exact List.mem_cons_of_mem _ hr
      have hkey := (postingKey_inj (hsorted.valid r hr') hvalid).mpr heq
      omega
  · rfl

end Common

section AndRun

variable {K : Type} [DivisionRing K] [LinearOrder K] {log1p : K → K} {stats : CorpusStats}
  {options : SearchOptions K} {segment : LexicalSegment} {plan : QueryPlan}

/-- Is a phrase that is asked for in the object? -/
def phraseOk (options : SearchOptions K) (segment : LexicalSegment) (plan : QueryPlan)
    (states : List TermState) (x : Nat × Nat) : Bool :=
  !options.phrase || phraseFits (phrasePositions segment plan states x)

/-- The hits of a run are those of the objects that all cursors have before them. -/
structure AndRun (log1p : K → K) (stats : CorpusStats) (options : SearchOptions K)
    (segment : LexicalSegment) (plan : QueryPlan) (states : List TermState) (kept : List (Hit K)) :
    Prop where
  distinct : kept.Pairwise fun a b => a.object ≠ b.object
  mem : ∀ h, h ∈ kept ↔ ∃ x, Common states x ∧ allowedObject options.objectType x = true ∧
    phraseOk options segment plan states x = true ∧
    options.wants (fullHit log1p stats options (cursorTerms states) x) = true ∧
    h = fullHit log1p stats options (cursorTerms states) x

variable {states : List TermState} {kept : List (Hit K)} {g : TermState → TermState}

/-- Two sets of cursors that have the same for the objects that are wanted. -/
theorem andHit_map (log1p : K → K) (stats : CorpusStats) (segment : LexicalSegment) (plan : QueryPlan)
    (hg : ∀ st ∈ states, st.Moves options.objectType (g st)) {x : Nat × Nat}
    (hsame : ∀ st ∈ states, postingOf x (g st).rest = postingOf x st.rest) :
    (Common (states.map g) x ↔ Common states x) ∧
      phraseOk options segment plan (states.map g) x = phraseOk options segment plan states x ∧
      fullHit log1p stats options (cursorTerms (states.map g)) x =
        fullHit log1p stats options (cursorTerms states) x := by
  refine ⟨?_, ?_, fullHit_map_eq log1p stats options (fun st hst => (hg st hst).typeFrequency) hsame⟩
  · rw [Common, List.forall_mem_map]
    exact forall₂_congr fun st hst => by rw [hsame st hst]
  · rw [phraseOk, phraseOk, phrasePositions_map (fun st hst => (hg st hst).slot)
      (fun st hst => (hg st hst).term) hsame]

theorem AndRun.leap (hcursors : Cursors options.objectType states) {high : TermState}
    (hhigh : high ∈ states) (hne : high.rest ≠ [])
    (h : AndRun log1p stats options segment plan (states.map (TermState.leap options.objectType high.key))
      kept) : AndRun log1p stats options segment plan states kept := by
  have hg : ∀ st ∈ states, st.Moves options.objectType (st.leap options.objectType high.key) :=
    fun st _ => st.leap_moves _ _
  refine ⟨h.distinct, fun hit => (h.mem hit).trans (exists_congr fun x => ?_)⟩
  constructor
  · rintro ⟨hcommon, hallowed, hphrase, hwants, rfl⟩
    obtain ⟨hiff, hphrase', hfull⟩ := andHit_map log1p stats segment plan hg (hcommon.of_map hcursors hg)
    rw [hfull] at hwants ⊢
    exact ⟨hiff.mp hcommon, hallowed, hphrase' ▸ hphrase, hwants, rfl⟩
  · rintro ⟨hcommon, hallowed, hphrase, hwants, rfl⟩
    obtain ⟨hiff, hphrase', hfull⟩ := andHit_map log1p stats segment plan hg (common_leap hcursors hhigh hne hallowed hcommon)
    rw [hfull]
    exact ⟨hiff.mpr hcommon, hallowed, hphrase'.trans hphrase, hwants, rfl⟩

/-- When the cursors are at one key, its object is one that all have, and it is scored. -/
theorem AndRun.score (hcursors : Cursors options.objectType states) {st : TermState} (hst : st ∈ states)
    {p : Posting} {ps : List Posting} (hrest : st.rest = p :: ps)
    (hkey : ∀ st ∈ states, st.rest ≠ [] ∧ st.key = postingKey p)
    (h : AndRun log1p stats options segment plan
      (states.map (TermState.leave options.objectType (postingKey p))) kept) :
    AndRun log1p stats options segment plan states
      (if phraseOk options segment plan states p.object = true ∧
          options.wants (fullHit log1p stats options (cursorTerms states) p.object) = true then
        fullHit log1p stats options (cursorTerms states) p.object :: kept else kept) := by
  have hp : p.Valid := (hcursors.postings st hst).valid p (by rw [hrest]; exact List.mem_cons_self)
  have hpallowed : allowedObject options.objectType p.object = true :=
    hcursors.allowed st hst p (by rw [hrest]; rfl)
  have hg : ∀ st ∈ states, st.Moves options.objectType
      (st.leave options.objectType (postingKey p)) := fun st _ => st.leave_moves _ _
  have hleave : ∀ x, allowedObject options.objectType x = true → ∀ st ∈ states,
      postingOf x (st.leave options.objectType (postingKey p)).rest =
        if p.object = x then none else postingOf x st.rest := fun x hx st hst =>
    postingOf_leave (hcursors.postings st hst) hp (fun _ => (hkey st hst).2.ge) hx
  have hcommon : Common states p.object := by
    intro st hst
    rw [postingOf_lowest (hcursors.postings st hst) hp fun _ => (hkey st hst).2.ge, if_pos (hkey st hst)]
    obtain ⟨q, qs, hrest⟩ := List.exists_cons_of_ne_nil (hkey st hst).1
    rw [hrest]
    rfl
  -- what comes later is another object
  have hlater : ∀ x, Common (states.map (TermState.leave options.objectType (postingKey p))) x →
      allowedObject options.objectType x = true → p.object ≠ x := by
    rintro x hx hallowed rfl
    have hsome := hx _ (List.mem_map.mpr ⟨st, hst, rfl⟩)
    rw [hleave _ hallowed st hst, if_pos rfl] at hsome
    cases hsome
  have hothers : ∀ hit, hit ∈ kept ↔ ∃ x, p.object ≠ x ∧ Common states x ∧
      allowedObject options.objectType x = true ∧ phraseOk options segment plan states x = true ∧
      options.wants (fullHit log1p stats options (cursorTerms states) x) = true ∧
      hit = fullHit log1p stats options (cursorTerms states) x := by
    refine fun hit => (h.mem hit).trans (exists_congr fun x => ?_)
    constructor
    · rintro ⟨hcommon, hallowed, hphrase, hwants, rfl⟩
      obtain ⟨hiff, hphrase', hfull⟩ := andHit_map log1p stats segment plan hg
        (hcommon.of_map hcursors hg)
      rw [hfull] at hwants ⊢
      exact ⟨hlater x hcommon hallowed, hiff.mp hcommon, hallowed, hphrase' ▸ hphrase, hwants, rfl⟩
    · rintro ⟨hne, hcommon, hallowed, hphrase, hwants, rfl⟩
      obtain ⟨hiff, hphrase', hfull⟩ := andHit_map log1p stats segment plan (x := x) hg fun st hst => by
        rw [hleave x hallowed st hst, if_neg hne]
      rw [hfull]
      exact ⟨hiff.mpr hcommon, hallowed, hphrase'.trans hphrase, hwants, rfl⟩
  refine ⟨?_, fun hit => ?_⟩
  · split
    · refine List.pairwise_cons.mpr ⟨fun hit hmem => ?_, h.distinct⟩
      obtain ⟨x, hne, -, -, -, -, rfl⟩ := (hothers hit).mp hmem
      exact hne
    · exact h.distinct
  · have hsplit : (∃ x, Common states x ∧ allowedObject options.objectType x = true ∧
        phraseOk options segment plan states x = true ∧
        options.wants (fullHit log1p stats options (cursorTerms states) x) = true ∧
        hit = fullHit log1p stats options (cursorTerms states) x) ↔
        ((phraseOk options segment plan states p.object = true ∧
          options.wants (fullHit log1p stats options (cursorTerms states) p.object) = true) ∧
          hit = fullHit log1p stats options (cursorTerms states) p.object) ∨ hit ∈ kept := by
      rw [hothers]
      constructor
      · rintro ⟨x, hx⟩
        by_cases heq : p.object = x
        · subst heq
          exact .inl ⟨⟨hx.2.2.1, hx.2.2.2.1⟩, hx.2.2.2.2⟩
        · exact .inr ⟨x, heq, hx⟩
      · rintro (⟨⟨hphrase, hwants⟩, heq⟩ | ⟨x, -, hx⟩)
        · exact ⟨p.object, hcommon, hpallowed, hphrase, hwants, heq⟩
        · exact ⟨x, hx⟩
    rw [hsplit]
    split
    · rename_i hkeep
      rw [List.mem_cons, and_iff_right hkeep]
    · rename_i hdrop
      exact (or_iff_right fun hand => hdrop hand.1).symm

/-- What is kept when the cursors are at one key. -/
theorem scoreKey_and (hcursors : Cursors options.objectType states) {p : Posting} (hp : p.Valid)
    (hkey : ∀ st ∈ states, st.rest ≠ [] ∧ st.key = postingKey p) :
    scoreKey log1p stats options segment plan states (activeStates states) (postingKey p) p =
      .score (states.map (TermState.leave options.objectType (postingKey p)))
        (fullHit log1p stats options (cursorTerms states) p.object)
        (phraseOk options segment plan states p.object &&
          options.wants (fullHit log1p stats options (cursorTerms states) p.object)) := by
  have hmin : ∀ st ∈ states, st.rest ≠ [] → postingKey p ≤ st.key := fun st hst _ => (hkey st hst).2.ge
  have hmatched : (fullHit log1p stats options (cursorTerms states) p.object).matchedTerms =
      states.length := by
    rw [fullHit_matchedTerms, List.countP_eq_length]
    intro st hst
    rw [postingOf_lowest (hcursors.postings st hst) hp (hmin st hst), if_pos (hkey st hst)]
    obtain ⟨q, qs, hrest⟩ := List.exists_cons_of_ne_nil (hkey st hst).1
    rw [hrest]
    rfl
  rw [scoreKey, hitAt_eq_fullHit hcursors hp hmin, leaveKey_eq, phraseMatches_eq hcursors hp hkey,
    SearchOptions.wants, phraseOk]
  rw [hmatched, decide_eq_true (rfl : states.length = states.length), Bool.or_true, Bool.and_true,
    Bool.and_assoc]

/-- **The run of an AND query or a phrase.** -/
theorem andRun_of_loop (hand : options.conjunctive = true) (fuel : Nat) (hits : List (Hit K))
    (hcursors : Cursors options.objectType states) (hstates : states ≠ [])
    (hfuel : remaining states < fuel) :
    AndRun log1p stats options segment plan states
      (keptHits log1p stats options segment plan fuel states hits) := by
  induction fuel generalizing states hits with
  | zero => exact absurd hfuel (Nat.not_lt_zero _)
  | succ fuel ih =>
    have hmap : ∀ g : TermState → TermState, states.map g ≠ [] := fun g hnil =>
      hstates (List.map_eq_nil_iff.mp hnil)
    rw [keptHits]
    rcases searchTurn_and log1p stats segment plan hits hand hstates with
      ⟨hturn, st, hst, hempty⟩ | ⟨key, hturn, ⟨high, hhigh, hne, rfl⟩, st, hst, hrest, hlow⟩ |
        ⟨st, hst, p, ps, hrest, hkey, hturn⟩
    · rw [hturn]
      refine ⟨List.Pairwise.nil, fun hit => iff_of_false List.not_mem_nil ?_⟩
      rintro ⟨x, hcommon, -⟩
      have hsome := hcommon st hst
      rw [hempty] at hsome
      cases hsome
    · rw [hturn]
      have hmoves : ∀ st ∈ states, st.Moves options.objectType
          (st.leap options.objectType high.key) := fun st _ => st.leap_moves _ _
      have hlt := remaining_map_lt hmoves hst hrest (if_pos ⟨hrest, hlow⟩)
      exact (ih hits (hcursors.map hmoves) (hmap _) (by omega)).leap hcursors hhigh hne
    · have hp : p.Valid := (hcursors.postings st hst).valid p (by rw [hrest]; exact List.mem_cons_self)
      have hne := (hkey st hst).1
      have hmoves : ∀ st ∈ states, st.Moves options.objectType
          (st.leave options.objectType (postingKey p)) := fun st _ => st.leave_moves _ _
      have hlt := remaining_map_lt hmoves hst hne
        (by rw [← key_of_rest hrest]; exact TermState.leave_advances hne)
      rw [hturn, scoreKey_and hcursors hp hkey]
      cases hkeep : phraseOk options segment plan states p.object &&
          options.wants (fullHit log1p stats options (cursorTerms states) p.object) with
      | true =>
        have hrun := (ih (addHit options hits (fullHit log1p stats options (cursorTerms states) p.object))
          (hcursors.map hmoves) (hmap _) (by omega)).score hcursors hst hrest hkey
        rwa [if_pos (Bool.and_eq_true_iff.mp hkeep)] at hrun
      | false =>
        have hrun := (ih hits (hcursors.map hmoves) (hmap _) (by omega)).score hcursors hst hrest hkey
        rwa [if_neg fun hboth => by
          rw [Bool.and_eq_true_iff.mpr hboth] at hkeep
          cases hkeep] at hrun

end AndRun

end Yappod

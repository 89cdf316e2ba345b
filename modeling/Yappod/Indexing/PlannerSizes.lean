import Mathlib.Data.Finset.Dedup
import Mathlib.Algebra.BigOperators.Group.List.Basic
import Mathlib.Algebra.Order.BigOperators.Group.List
import Mathlib.Algebra.Order.Group.Nat
import Yappod.Indexing.PlannerPartition
import Yappod.Storage.Contents

/-!
# What the planner counts

The planner keeps running totals of what a slice will occupy and never sees the files that are made
of it.  This file shows that it may: the totals of a slice are what its units come to (`Counted`), so that
a slice that fits in the planner's eyes also fits on disk (`segmentPlan_fits`).

* `TermMap.find_modify` and `TermMap.sum_modify` say what a change of one slot does to a term table;
* `Tally` is what counting the occurrences of one document leaves, and `Counted` what adding up
  documents leaves;
* `projected_eq`: looking ahead comes to the same as adding.
-/

set_option autoImplicit false

namespace Yappod

/-! ## Term tables -/

namespace TermMap

variable {tb : TermMap} {t t' : Bytes} {f : TermSlot → TermSlot}

/-- The slot of a term, or a new one. -/
def slot (tb : TermMap) (t : Bytes) : TermSlot := (tb.find t).getD ⟨t, 0, 0, none⟩

theorem term_of_find {s : TermSlot} (h : tb.find t = some s) : s.term = t := by
  simpa using List.find?_some h

theorem term_slot (tb : TermMap) (t : Bytes) : (tb.slot t).term = t := by
  unfold slot
  cases h : tb.find t with
  | none => rfl
  | some s => exact term_of_find h

/-- Changing the slot of a term changes what is found under that term only. -/
theorem find_modify (hf : ∀ s, (f s).term = s.term) (tb : TermMap) (t t' : Bytes) :
    (tb.modify t f).find t' = if t' = t then some (f (tb.slot t)) else tb.find t' := by
  induction tb with
  | nil =>
    by_cases h : t' = t
    · subst h
      simp [modify, find, slot, hf]
    · have : ¬t = t' := fun h' => h h'.symm
      simp [modify, find, hf, h, this]
  | cons s tb ih =>
    simp only [find, slot] at ih ⊢
    by_cases hs : s.term = t
    · by_cases h : t' = t
      · subst h
        simp [modify, hs, hf]
      · have : ¬t = t' := fun h' => h h'.symm
        simp [modify, hs, hf, h, this]
    · by_cases hst : s.term = t'
      · have : ¬t' = t := fun h => hs (hst.trans h)
        subst hst
        simp [modify, hs]
      · simpa [modify, hs, hst] using ih

/-- The terms of a table with one slot changed or added. -/
theorem mem_terms_modify (hf : ∀ s, (f s).term = s.term) :
    t' ∈ (tb.modify t f).map (·.term) ↔ t' = t ∨ t' ∈ tb.map (·.term) := by
  induction tb with
  | nil => simp [modify, hf]
  | cons s tb ih =>
    by_cases hs : s.term = t
    · simp only [modify, hs, if_true, List.map_cons, hf, List.mem_cons]
      tauto
    · simp only [modify, hs, if_false, List.map_cons, List.mem_cons, ih]
      tauto

theorem nodup_modify (hf : ∀ s, (f s).term = s.term) (h : (tb.map (·.term)).Nodup) :
    ((tb.modify t f).map (·.term)).Nodup := by
  induction tb with
  | nil => simp [modify]
  | cons s tb ih =>
    rw [List.map_cons, List.nodup_cons] at h
    by_cases hs : s.term = t
    · simp only [modify, hs, if_true, List.map_cons, hf, List.nodup_cons]
      exact ⟨hs ▸ h.1, h.2⟩
    · simp only [modify, hs, if_false, List.map_cons, List.nodup_cons]
      refine ⟨fun hmem => ?_, ih h.2⟩
      rcases (mem_terms_modify hf).mp hmem with heq | hmem
      · exact hs heq
      · exact h.1 hmem

/-- Changing one slot changes a sum over the table at that slot only. -/
theorem sum_modify (g : TermSlot → Nat) (tb : TermMap) (t : Bytes) (f : TermSlot → TermSlot) :
    ((tb.modify t f).map g).sum + ((tb.find t).map g).getD 0 =
      (tb.map g).sum + g (f (tb.slot t)) := by
  induction tb with
  | nil => simp [modify, find, slot]
  | cons s tb ih =>
    simp only [find, slot] at ih ⊢
    by_cases hs : s.term = t
    · simp [modify, hs]
      omega
    · simp [modify, hs]
      omega

theorem find_isSome : (tb.find t).isSome ↔ t ∈ tb.map (·.term) := by
  simp [find, List.find?_isSome]

end TermMap

/-! ## Counting the occurrences of a document -/

/-- The occurrences of a term. -/
def ofTerm (occs : List Occurrence) (t : Bytes) : List Occurrence := occs.filter (·.term = t)

/-- The objects that a term occurs in, as the planner numbers them. -/
def termKeys (occs : List Occurrence) (t : Bytes) : List Nat := (ofTerm occs t).map Occurrence.objectKey

/-- The objects of a unit come one after the other. -/
def KeysSorted (occs : List Occurrence) : Prop :=
  occs.Pairwise fun a b => a.objectKey ≤ b.objectKey

/-- What counting occurrences leaves: a slot for each term, with the number of its occurrences and the
number of objects it occurs in.  The object seen last is the last of them. -/
structure Tally (occs : List Occurrence) (tb : TermMap) : Prop where
  nodup : (tb.map (·.term)).Nodup
  occurrences : ∀ t, (tb.slot t).occurrences = (ofTerm occs t).length
  postings : ∀ t, (tb.slot t).postings = (termKeys occs t).toFinset.card
  last : ∀ t k, (tb.slot t).lastObject = some k → k ∈ termKeys occs t
  max : ∀ t, ∀ k ∈ termKeys occs t, ∃ l, (tb.slot t).lastObject = some l ∧ k ≤ l
  terms : ∀ t, t ∈ tb.map (·.term) ↔ ∃ o ∈ occs, o.term = t

theorem Tally.nil : Tally [] [] :=
  ⟨List.nodup_nil, fun _ => rfl, fun _ => rfl, fun _ _ h => (by cases h), fun _ _ h => (by cases h),
    by simp⟩

theorem Tally.count {occs : List Occurrence} {tb : TermMap} (h : Tally occs tb) (o : Occurrence)
    (hlast : ∀ k ∈ termKeys occs o.term, k ≤ o.objectKey) :
    Tally (occs ++ [o]) (countOccurrence tb o) := by
  have hf : ∀ s : TermSlot, ({ s with
      occurrences := s.occurrences + 1
      postings := if s.lastObject ≠ some o.objectKey then s.postings + 1 else s.postings
      lastObject := some o.objectKey } : TermSlot).term = s.term := fun _ => rfl
  have hslot : ∀ t, (countOccurrence tb o).slot t = if t = o.term then
      { tb.slot o.term with
        occurrences := (tb.slot o.term).occurrences + 1
        postings := if (tb.slot o.term).lastObject ≠ some o.objectKey then
          (tb.slot o.term).postings + 1 else (tb.slot o.term).postings
        lastObject := some o.objectKey } else tb.slot t := by
    intro t
    rw [countOccurrence, TermMap.slot, TermMap.find_modify hf]
    split
    · rfl
    · rfl
  have hof : ∀ t, ofTerm (occs ++ [o]) t = ofTerm occs t ++ if t = o.term then [o] else [] := by
    intro t
    by_cases ht : t = o.term
    · simp [ofTerm, ht]
    · have : ¬o.term = t := fun h => ht h.symm
      simp [ofTerm, ht, this]
  have hkeys : ∀ t, termKeys (occs ++ [o]) t =
      termKeys occs t ++ if t = o.term then [o.objectKey] else [] := by
    intro t
    rw [termKeys, hof, List.map_append]
    split <;> rfl
  refine ⟨TermMap.nodup_modify hf h.nodup, fun t => ?_, fun t => ?_, fun t k hk => ?_, fun t k hk => ?_,
    fun t => ?_⟩
  · rw [hslot, hof]
    split
    · rename_i ht
      rw [List.length_append, ht, h.occurrences]
      rfl
    · rw [List.append_nil]
      exact h.occurrences t
  · rw [hslot, hkeys]
    split
    · rename_i ht
      subst ht
      rw [List.toFinset_append]
      dsimp only
      split
      · -- an object not seen before: it comes after all that were
        rename_i hne
        have hnew : o.objectKey ∉ termKeys occs o.term := fun hmem => by
          obtain ⟨l, hl, hle⟩ := h.max _ _ hmem
          have hle' := hlast l (h.last _ _ hl)
          exact hne (hl.trans (congrArg some (Nat.le_antisymm hle' hle)))
        rw [Finset.card_union_of_disjoint (by simpa using hnew), h.postings]
        rfl
      · -- the object is the one counted last
        rename_i hlast'
        rw [not_not] at hlast'
        have hmem := h.last _ _ hlast'
        rw [Finset.union_eq_left.mpr (by simpa using hmem)]
        exact h.postings _
    · rw [List.append_nil]
      exact h.postings t
  · rw [hslot] at hk
    rw [hkeys, List.mem_append]
    split at hk
    · rename_i ht
      cases hk
      exact Or.inr (by simp [ht])
    · exact Or.inl (h.last t k hk)
  · rw [hkeys, List.mem_append] at hk
    rw [hslot]
    split
    · rename_i ht
      subst ht
      refine ⟨_, rfl, ?_⟩
      rcases hk with hk | hk
      · exact hlast k hk
      · rw [if_pos rfl, List.mem_singleton] at hk
        exact hk.le
    · rename_i ht
      rw [if_neg ht] at hk
      exact h.max t k (hk.resolve_right List.not_mem_nil)
  · rw [countOccurrence, TermMap.mem_terms_modify hf, h.terms]
    simp only [List.mem_append, List.mem_singleton, or_and_right, exists_or, exists_eq_left]
    rw [or_comm, eq_comm]

/-- **Counting the occurrences of a document.** -/
theorem tally_foldl {occs : List Occurrence} (hsorted : KeysSorted occs) :
    Tally occs (occs.foldl countOccurrence []) := by
  have hrun : ∀ (rest done : List Occurrence) (tb : TermMap), KeysSorted (done ++ rest) →
      Tally done tb → Tally (done ++ rest) (rest.foldl countOccurrence tb) := by
    intro rest
    induction rest with
    | nil =>
      intro done tb _ h
      rwa [List.append_nil]
    | cons o rest ih =>
      intro done tb hsorted h
      have hlast : ∀ k ∈ termKeys done o.term, k ≤ o.objectKey := by
        intro k hk
        obtain ⟨a, ha, rfl⟩ := List.mem_map.mp hk
        exact (List.pairwise_append.mp hsorted).2.2 a (List.mem_filter.mp ha).1 o List.mem_cons_self
      rw [List.append_cons] at hsorted ⊢
      exact ih (done ++ [o]) (countOccurrence tb o) hsorted (h.count o hlast)
  exact hrun occs [] [] hsorted Tally.nil

/-! ## Adding a document to a slice -/

/-- What a term adds to `terms.yap2`. -/
def termCost (s : TermSlot) : Nat := 44 + s.term.length

/-- What a term adds to `postings.yap2`. -/
def postingCost (s : TermSlot) : Nat := 20 + (s.postings * 48 + postingBlocks s.postings * 16)

/-- What a term adds to `positions.yap2`. -/
def positionCost (s : TermSlot) : Nat := 16 + s.occurrences * 8

/-- The lexical payloads are those of the term table. -/
structure Sizer.Exact (s : Sizer) : Prop where
  term : s.termPayload = 12 + (s.terms.map termCost).sum
  posting : s.postingPayload = 56 + (s.terms.map postingCost).sum
  position : s.positionPayload = 12 + (s.terms.map positionCost).sum

/-- Add what a document has of one term. -/
def addSource (s : Sizer) (source : TermSlot) : Sizer :=
  { addTerm s source ((s.terms.find source.term).map (·.postings)) with
    terms := s.terms.modify source.term fun t =>
      { t with
        occurrences := t.occurrences + source.occurrences
        postings := t.postings + source.postings } }

theorem sizerAdd_document (s : Sizer) (d : Document) (ps : List Passage) (vs : List (List Scalar))
    (u : UnitSize) :
    sizerAdd s (.document d ps vs) u = u.terms.foldl addSource (addDocument s u) := rfl

theorem postingBlocks_mono {a b : Nat} (h : a ≤ b) : postingBlocks a ≤ postingBlocks b :=
  Nat.div_le_div_right (by omega)

section AddSource

variable (s : Sizer) (source : TermSlot)

/-- The new slot of a term. -/
def sumSlot (source t : TermSlot) : TermSlot :=
  { t with
    occurrences := t.occurrences + source.occurrences
    postings := t.postings + source.postings }

theorem term_sumSlot (source t : TermSlot) : (sumSlot source t).term = t.term := rfl

theorem addSource_terms :
    (addSource s source).terms = s.terms.modify source.term (sumSlot source) := rfl

theorem Sizer.Exact.addSource {s : Sizer} (h : s.Exact) (source : TermSlot) :
    (addSource s source).Exact := by
  have hterm := TermMap.sum_modify termCost s.terms source.term (sumSlot source)
  have hposting := TermMap.sum_modify postingCost s.terms source.term (sumSlot source)
  have hposition := TermMap.sum_modify positionCost s.terms source.term (sumSlot source)
  rw [termCost, term_sumSlot, TermMap.term_slot] at hterm
  refine ⟨?_, ?_, ?_⟩ <;> rw [addSource_terms] <;> simp only [Yappod.addSource, addTerm]
  · rw [h.term]
    cases hf : s.terms.find source.term with
    | none =>
      simp only [hf, Option.map_none, Option.getD_none] at hterm ⊢
      simp
      omega
    | some x =>
      have hx := TermMap.term_of_find hf
      simp only [hf, Option.map_some, Option.getD_some, termCost, hx] at hterm ⊢
      simp
      omega
  · rw [h.posting]
    cases hf : s.terms.find source.term with
    | none =>
      simp only [TermMap.slot, sumSlot, hf, Option.map_none, Option.getD_none, postingCost,
        Nat.zero_add] at hposting ⊢
      have : postingBlocks 0 = 0 := rfl
      simp [this]
      omega
    | some x =>
      simp only [TermMap.slot, sumSlot, hf, Option.map_some, Option.getD_some,
        postingCost] at hposting ⊢
      have := postingBlocks_mono (Nat.le_add_right x.postings source.postings)
      rw [Nat.sub_mul]
      simp
      omega
  · rw [h.position]
    cases hf : s.terms.find source.term with
    | none =>
      simp only [TermMap.slot, sumSlot, hf, Option.map_none, Option.getD_none,
        positionCost] at hposition ⊢
      simp
      omega
    | some x =>
      simp only [TermMap.slot, sumSlot, hf, Option.map_some, Option.getD_some,
        positionCost] at hposition ⊢
      simp
      omega

end AddSource

/-- Adding terms leaves the other totals alone. -/
theorem foldl_addSource_eq (sources : TermMap) (s : Sizer) :
    ∃ a b c tb, sources.foldl addSource s =
      { s with termPayload := a, postingPayload := b, positionPayload := c, terms := tb } := by
  induction sources generalizing s with
  | nil => exact ⟨_, _, _, _, rfl⟩
  | cons source sources ih =>
    obtain ⟨a, b, c, tb, h⟩ := ih (addSource s source)
    exact ⟨a, b, c, tb, by rw [List.foldl_cons, h]; rfl⟩

theorem foldl_addSource_exact {s : Sizer} (h : s.Exact) (sources : TermMap) :
    (sources.foldl addSource s).Exact := by
  induction sources generalizing s with
  | nil => exact h
  | cons source sources ih => exact ih (h.addSource source)

/-- A table from which a term is absent has an empty slot for it. -/
theorem TermMap.slot_of_notMem {tb : TermMap} {t : Bytes} (h : t ∉ tb.map (·.term)) :
    tb.slot t = ⟨t, 0, 0, none⟩ := by
  have hnone : tb.find t = none := by
    rw [← Option.not_isSome_iff_eq_none, TermMap.find_isSome]
    exact h
  rw [TermMap.slot, hnone]
  rfl

/-- The slots of two tables are added up. -/
theorem foldl_addSource_slot (sources : TermMap) (hnd : (sources.map (·.term)).Nodup) (s : Sizer)
    (t : Bytes) :
    ((sources.foldl addSource s).terms.slot t).postings =
        (s.terms.slot t).postings + (sources.slot t).postings ∧
      ((sources.foldl addSource s).terms.slot t).occurrences =
        (s.terms.slot t).occurrences + (sources.slot t).occurrences := by
  induction sources generalizing s with
  | nil => exact ⟨rfl, rfl⟩
  | cons source sources ih =>
    rw [List.map_cons, List.nodup_cons] at hnd
    obtain ⟨h₁, h₂⟩ := ih hnd.2 (addSource s source)
    rw [List.foldl_cons, h₁, h₂]
    have hslot : (addSource s source).terms.slot t =
        if t = source.term then sumSlot source (s.terms.slot source.term) else s.terms.slot t := by
      rw [addSource_terms, TermMap.slot, TermMap.find_modify (term_sumSlot source)]
      split <;> rfl
    rw [hslot]
    by_cases ht : t = source.term
    · subst ht
      rw [if_pos rfl, TermMap.slot_of_notMem hnd.1]
      simp [TermMap.slot, TermMap.find, sumSlot]
    · have hcons : TermMap.slot (source :: sources) t = TermMap.slot sources t := by
        have : ¬source.term = t := fun h => ht h.symm
        simp [TermMap.slot, TermMap.find, this]
      rw [if_neg ht, hcons]
      exact ⟨rfl, rfl⟩

theorem foldl_addSource_terms (sources : TermMap) (s : Sizer) (t : Bytes) :
    t ∈ (sources.foldl addSource s).terms.map (·.term) ↔
      t ∈ sources.map (·.term) ∨ t ∈ s.terms.map (·.term) := by
  induction sources generalizing s with
  | nil => simp
  | cons source sources ih =>
    rw [List.foldl_cons, ih, addSource_terms, TermMap.mem_terms_modify (term_sumSlot source), List.map_cons,
      List.mem_cons]
    tauto

theorem foldl_addSource_nodup (sources : TermMap) (s : Sizer) (h : (s.terms.map (·.term)).Nodup) :
    ((sources.foldl addSource s).terms.map (·.term)).Nodup := by
  induction sources generalizing s with
  | nil => exact h
  | cons source sources ih =>
    refine ih (addSource s source) ?_
    rw [addSource_terms]
    exact TermMap.nodup_modify (term_sumSlot source) h

/-- **Looking ahead comes to the same as adding**, the term table apart. -/
theorem projected_eq (s : Sizer) (unit : SegmentUnit) (u : UnitSize)
    (hnd : (u.terms.map (·.term)).Nodup) :
    projected s unit u = { sizerAdd s unit u with terms := s.terms } := by
  have hrun : ∀ (sources : TermMap) (s' : Sizer), (sources.map (·.term)).Nodup →
      (∀ x ∈ sources, s'.terms.find x.term = s.terms.find x.term) →
      sources.foldl (fun s' source =>
          addTerm s' source ((s.terms.find source.term).map (·.postings)))
          { s' with terms := s.terms } =
        { sources.foldl addSource s' with terms := s.terms } := by
    intro sources
    induction sources with
    | nil => exact fun _ _ _ => rfl
    | cons source sources ih =>
      intro s' hnd hfind
      rw [List.map_cons, List.nodup_cons] at hnd
      rw [List.forall_mem_cons] at hfind
      rw [List.foldl_cons, List.foldl_cons, ← ih (addSource s' source) hnd.2 fun x hx => ?_]
      · rw [addSource, hfind.1]
        rfl
      · -- the other terms have not been touched
        have hne : x.term ≠ source.term := fun h => hnd.1 (h ▸ List.mem_map.mpr ⟨x, hx, rfl⟩)
        rw [addSource_terms, TermMap.find_modify (term_sumSlot source), if_neg hne]
        exact hfind.2 x hx
  have hterms : (addDocument s u).terms = s.terms := by
    unfold addDocument
    split <;> rfl
  cases unit with
  | tombstone id => rfl
  | document d ps vs =>
    rw [projected, sizerAdd_document, ← hrun u.terms (addDocument s u) hnd fun x _ => by rw [hterms]]
    congr 1
    rw [← hterms]

/-! ## The occurrences of a slice -/

section Occurrences

variable {icu : Icu} {d : Document} {ps : List Passage} {occs : List Occurrence}

theorem tokenizeField_object {text : Bytes} {ty : ObjectType} {n : Nat} {f : Field}
    (h : tokenizeField icu text ty n f = .ok occs) : ∀ o ∈ occs, o.object = (ty, n) := by
  unfold tokenizeField at h
  split at h
  · cases h
    simp
  · cases htok : unicodeTokenize icu text with
    | error e =>
      rw [htok] at h
      cases h
    | ok tokens =>
      rw [htok] at h
      cases h
      intro o ho
      obtain ⟨i, hi, rfl⟩ := List.mem_mapIdx.mp ho
      rfl

/-- The passages of a unit from the `i`-th on. -/
theorem preparePassages_object {i : Nat} (h : preparePassages icu i ps = .ok occs) :
    KeysSorted occs ∧ ∀ o ∈ occs, o.objectType = .passage ∧ i ≤ o.objectOrdinal ∧
      o.objectOrdinal < i + ps.length := by
  induction ps generalizing i occs with
  | nil =>
    cases h
    exact ⟨List.Pairwise.nil, fun o ho => by cases ho⟩
  | cons p ps ih =>
    rw [preparePassages] at h
    split at h
    · cases h
    · obtain ⟨here, hhere, h⟩ := bind_eq_ok.mp h
      obtain ⟨rest, hrest, h⟩ := bind_eq_ok.mp h
      cases h
      obtain ⟨hsorted, hobjects⟩ := ih hrest
      have hobject : ∀ o ∈ here, o.objectType = .passage ∧ o.objectOrdinal = i := fun o ho =>
        Prod.mk.inj (tokenizeField_object hhere o ho)
      refine ⟨List.pairwise_append.mpr ⟨?_, hsorted, fun a ha b hb => ?_⟩, fun o ho => ?_⟩
      · refine List.pairwise_of_forall_mem_list fun a ha b hb => ?_
        rw [Occurrence.objectKey, Occurrence.objectKey, (hobject a ha).1, (hobject b hb).1,
          (hobject a ha).2, (hobject b hb).2]
      · rw [Occurrence.objectKey, Occurrence.objectKey, (hobject a ha).1, (hobjects b hb).1,
          (hobject a ha).2]
        simp only [reduceCtorEq, if_false]
        have := (hobjects b hb).2.1
        omega
      · rw [List.length_cons]
        rcases List.mem_append.mp ho with ho | ho
        · have := hobject o ho
          exact ⟨this.1, by omega, by omega⟩
        · have := hobjects o ho
          exact ⟨this.1, by omega, by omega⟩

/-- The objects of a unit, in order: the document is object 0, and then come its passages. -/
theorem lexicalPrepareUnit_object (h : lexicalPrepareUnit icu d ps = .ok occs) :
    KeysSorted occs ∧ (∀ o ∈ occs, o.objectType = .document → o.objectOrdinal = 0) ∧
      ∀ o ∈ occs, o.objectType = .passage → o.objectOrdinal < ps.length := by
  rw [lexicalPrepareUnit] at h
  split at h
  · cases h
  · obtain ⟨title, htitle, h⟩ := bind_eq_ok.mp h
    obtain ⟨body, hbody, h⟩ := bind_eq_ok.mp h
    obtain ⟨passages, hpassages, h⟩ := bind_eq_ok.mp h
    cases h
    obtain ⟨hsorted, hobjects⟩ := preparePassages_object hpassages
    have hdocument : ∀ o ∈ title ++ body, o.objectType = .document ∧ o.objectOrdinal = 0 := by
      intro o ho
      rcases List.mem_append.mp ho with ho | ho
      · exact Prod.mk.inj (tokenizeField_object htitle o ho)
      · exact Prod.mk.inj (tokenizeField_object hbody o ho)
    have hkey : ∀ o ∈ title ++ body, o.objectKey = 0 := fun o ho => by
      rw [Occurrence.objectKey, if_pos (hdocument o ho).1]
    refine ⟨List.pairwise_append.mpr ⟨?_, hsorted, fun a ha b _ => ?_⟩, fun o ho hdoc => ?_,
      fun o ho hpassage => ?_⟩
    · refine List.pairwise_of_forall_mem_list fun a ha b hb => ?_
      rw [hkey a ha, hkey b hb]
    · rw [hkey a ha]
      exact Nat.zero_le _
    · rcases List.mem_append.mp ho with ho | ho
      · exact (hdocument o ho).2
      · rw [(hobjects o ho).1] at hdoc
        cases hdoc
    · rcases List.mem_append.mp ho with ho | ho
      · rw [(hdocument o ho).1] at hpassage
        cases hpassage
      · have := (hobjects o ho).2.2
        omega

theorem combineOccurrences_append (xs ys : List (List Occurrence × Nat)) (documents passages : Nat) :
    combineOccurrences documents passages (xs ++ ys) = combineOccurrences documents passages xs ++
      combineOccurrences (documents + xs.length) (passages + (xs.map (·.2)).sum) ys := by
  induction xs generalizing documents passages with
  | nil => rfl
  | cons x xs ih =>
    rw [List.cons_append, combineOccurrences, combineOccurrences, ih, List.append_assoc,
      List.length_cons, List.map_cons, List.sum_cons]
    congr 3
    · omega
    · omega

theorem documentFrequency_eq (occs : List Occurrence) (t : Bytes) :
    documentFrequency occs t = ((ofTerm occs t).map Occurrence.object).toFinset.card := by
  rw [documentFrequency, List.card_toFinset]
  rfl

theorem ofTerm_append (xs ys : List Occurrence) (t : Bytes) :
    ofTerm (xs ++ ys) t = ofTerm xs t ++ ofTerm ys t := List.filter_append ..

theorem ofTerm_shift (occs : List Occurrence) (documents passages : Nat) (t : Bytes) :
    ofTerm (occs.map (Occurrence.shift documents passages)) t =
      (ofTerm occs t).map (Occurrence.shift documents passages) := by
  rw [ofTerm, ofTerm, List.filter_map]
  rfl

/-- Lists of occurrences in different objects. -/
theorem documentFrequency_append {xs ys : List Occurrence}
    (h : ∀ x ∈ xs, ∀ y ∈ ys, x.object ≠ y.object) (t : Bytes) :
    documentFrequency (xs ++ ys) t = documentFrequency xs t + documentFrequency ys t := by
  rw [documentFrequency_eq, documentFrequency_eq, documentFrequency_eq, ofTerm_append,
    List.map_append, List.toFinset_append]
  refine Finset.card_union_of_disjoint (Finset.disjoint_left.mpr fun object hx hy => ?_)
  obtain ⟨x, hxs, hx⟩ := List.mem_map.mp (List.mem_toFinset.mp hx)
  obtain ⟨y, hys, hy⟩ := List.mem_map.mp (List.mem_toFinset.mp hy)
  exact h x (List.mem_filter.mp hxs).1 y (List.mem_filter.mp hys).1 (hx.trans hy.symm)

/-- Where the objects of a unit stand in the segment. -/
def place (documents passages : Nat) : Nat → ObjectType × Nat
  | 0 => (.document, documents)
  | n + 1 => (.passage, n + passages)

theorem place_injective (documents passages : Nat) : Function.Injective (place documents passages) := by
  intro a b h
  cases a with
  | zero =>
    cases b with
    | zero => rfl
    | succ b => cases h
  | succ a =>
    cases b with
    | zero => cases h
    | succ b =>
      have h := (Prod.mk.inj h).2
      omega

theorem object_shift {o : Occurrence} (h : o.objectType = .document → o.objectOrdinal = 0)
    (documents passages : Nat) :
    (o.shift documents passages).object = place documents passages o.objectKey := by
  cases hty : o.objectType with
  | document => simp [Occurrence.shift, Occurrence.object, Occurrence.objectKey, hty, h hty, place]
  | passage => simp [Occurrence.shift, Occurrence.object, Occurrence.objectKey, hty, place]

/-- The renumbered objects of a unit are as many as its own. -/
theorem documentFrequency_shift (h : ∀ o ∈ occs, o.objectType = .document → o.objectOrdinal = 0)
    (documents passages : Nat) (t : Bytes) :
    documentFrequency (occs.map (Occurrence.shift documents passages)) t =
      (termKeys occs t).toFinset.card := by
  have hmap : ((ofTerm occs t).map (Occurrence.shift documents passages)).map Occurrence.object =
      (termKeys occs t).map (place documents passages) := by
    rw [termKeys, List.map_map, List.map_map]
    exact List.map_congr_left fun o ho => object_shift (h o (List.mem_filter.mp ho).1) documents passages
  rw [documentFrequency_eq, ofTerm_shift, hmap]
  have himage : ((termKeys occs t).map (place documents passages)).toFinset =
      (termKeys occs t).toFinset.image (place documents passages) := by
    ext x
    simp
  rw [himage]
  exact Finset.card_image_of_injective _ (place_injective documents passages)

end Occurrences

/-! ## The totals of a slice -/

section Append

variable (env : Env) (cfg : Config) (us vs : List SegmentUnit)

theorem unitDocuments_append : unitDocuments (us ++ vs) = unitDocuments us ++ unitDocuments vs := by
  rw [unitDocuments_eq, unitDocuments_eq, unitDocuments_eq, documentUnits_append, List.map_append]

theorem unitPassages_append : unitPassages (us ++ vs) = unitPassages us ++ unitPassages vs := by
  rw [unitPassages_eq, unitPassages_eq, unitPassages_eq, documentUnits_append, List.flatMap_append]

theorem unitOccurrences_append :
    unitOccurrences env (us ++ vs) = unitOccurrences env us ++ unitOccurrences env vs := by
  induction us with
  | nil => rfl
  | cons u us ih => cases u <;> simp [unitOccurrences, ih]

theorem length_unitOccurrences : (unitOccurrences env us).length = (unitDocuments us).length := by
  induction us with
  | nil => rfl
  | cons u us ih => cases u <;> simp [unitOccurrences, unitDocuments, ih]

theorem sum_unitOccurrences :
    ((unitOccurrences env us).map (·.2)).sum = (unitPassages us).length := by
  induction us with
  | nil => rfl
  | cons u us ih => cases u <;> simp [unitOccurrences, unitPassages, ih]

end Append

/-- **What the totals of a slice say of its units.** -/
structure Counted (env : Env) (cfg : Config) (us : List SegmentUnit) (s : Sizer) : Prop where
  documents : s.documents = (unitDocuments us).length
  passages : s.passages = (unitPassages us).length
  tombstones : s.tombstones = (unitTombstones us).length
  documentPayload : s.documentPayload = ((unitDocuments us).map documentRecordBytes).sum +
    ((unitPassages us).map passageRecordBytes).sum
  metadataPayload : s.metadataPayload = ((unitMetadata env cfg us).map scalarsBytes).sum
  vectorIdBytes : s.vectorIdBytes = ((unitPassages us).map fun p => p.id.length).sum
  tombstonePayload : 0 < s.tombstones → s.tombstonePayload = tombstonesBytes (unitTombstones us)
  exact : 0 < s.documents → s.Exact
  empty : s.documents = 0 → s.terms = []
  nodup : (s.terms.map (·.term)).Nodup
  occurrences : ∀ t, (s.terms.slot t).occurrences = termOccurrences (sliceOccurrences env us) t
  postings : ∀ t, (s.terms.slot t).postings = documentFrequency (sliceOccurrences env us) t
  terms : ∀ t, t ∈ s.terms.map (·.term) ↔ ∃ o ∈ sliceOccurrences env us, o.term = t
  inside : ∀ o ∈ sliceOccurrences env us, o.objectOrdinal <
    if o.objectType = .document then (unitDocuments us).length else (unitPassages us).length

section Counted

variable {env : Env} {cfg : Config} {us : List SegmentUnit} {s : Sizer} {u : SegmentUnit}
  {size : UnitSize}

theorem Counted.nil : Counted env cfg [] {} where
  documents := rfl
  passages := rfl
  tombstones := rfl
  documentPayload := rfl
  metadataPayload := rfl
  vectorIdBytes := rfl
  tombstonePayload h := absurd h (lt_irrefl 0)
  exact h := absurd h (lt_irrefl 0)
  empty _ := rfl
  nodup := List.nodup_nil
  occurrences _ := rfl
  postings _ := rfl
  terms := by simp [sliceOccurrences, unitOccurrences, combineOccurrences]
  inside := by simp [sliceOccurrences, unitOccurrences, combineOccurrences]

/-- The sizes of a document, as far as they are not about terms. -/
theorem prepareUnit_document {d : Document} {ps : List Passage} {vs : List (List Scalar)}
    (h : prepareUnit env cfg (.document d ps vs) = .ok size) :
    ∃ occs scalars, lexicalPrepareUnit env.icu d ps = .ok occs ∧
      documentMetadata env.yyjsonRead cfg.filterableFields d = .ok scalars ∧
      size = ⟨occs.foldl countOccurrence [], documentRecordBytes d,
        (ps.map passageRecordBytes).sum, scalarsBytes scalars, ps.length,
        (ps.map fun p => p.id.length).sum⟩ := by
  rw [prepareUnit, bind_eq_ok] at h
  obtain ⟨occs, hocc, h⟩ := h
  rw [bind_eq_ok] at h
  obtain ⟨scalars, hmeta, h⟩ := h
  cases h
  exact ⟨occs, scalars, hocc, hmeta, rfl⟩

/-- **Adding a unit keeps count.** -/
theorem Counted.add (h : Counted env cfg us s) (hu : prepareUnit env cfg u = .ok size) :
    Counted env cfg (us ++ [u]) (sizerAdd s u size) := by
  cases u with
  | tombstone id =>
    have hocc : sliceOccurrences env (us ++ [.tombstone id]) = sliceOccurrences env us := by
      rw [sliceOccurrences, unitOccurrences_append]
      simp [unitOccurrences, sliceOccurrences]
    have hdocs : unitDocuments (us ++ [.tombstone id]) = unitDocuments us := by
      simp [unitDocuments_append, unitDocuments]
    have hpass : unitPassages (us ++ [.tombstone id]) = unitPassages us := by
      simp [unitPassages_append, unitPassages]
    have htomb : unitTombstones (us ++ [.tombstone id]) = unitTombstones us ++ [id] := by
      simp [unitTombstones_append, unitTombstones]
    have hexact : 0 < s.documents → (addTombstone s id).Exact := fun hpos =>
      ⟨(h.exact hpos).term, (h.exact hpos).posting, (h.exact hpos).position⟩
    refine ⟨?_, ?_, ?_, ?_, ?_, ?_, ?_, hexact, h.empty, h.nodup, ?_, ?_, ?_, ?_⟩
    · rw [hdocs]
      exact h.documents
    · rw [hpass]
      exact h.passages
    · rw [htomb, List.length_append, ← h.tombstones]
      rfl
    · rw [hdocs, hpass]
      exact h.documentPayload
    · rw [unitMetadata, hdocs]
      exact h.metadataPayload
    · rw [hpass]
      exact h.vectorIdBytes
    · intro _
      simp only [sizerAdd, addTombstone]
      rw [htomb, tombstonesBytes, List.map_append, List.sum_append]
      have htotal := h.tombstones
      have hpayload := h.tombstonePayload
      rw [tombstonesBytes] at hpayload
      split
      · rename_i hzero
        have hnil : unitTombstones us = [] := List.eq_nil_of_length_eq_zero (htotal.symm.trans hzero)
        simp [hnil]
      · rw [hpayload (by omega)]
        simp [Nat.add_assoc]
    · rw [hocc]
      exact h.occurrences
    · rw [hocc]
      exact h.postings
    · rw [hocc]
      exact h.terms
    · rw [hocc, hdocs, hpass]
      exact h.inside
  | document d ps vs =>
    obtain ⟨occs, scalars, hprep, hmeta, rfl⟩ := prepareUnit_document hu
    set size : UnitSize := ⟨occs.foldl countOccurrence [], documentRecordBytes d,
      (ps.map passageRecordBytes).sum, scalarsBytes scalars, ps.length,
      (ps.map fun p => p.id.length).sum⟩ with hsize
    obtain ⟨hsorted, hobj, hpassage⟩ := lexicalPrepareUnit_object hprep
    have htally := tally_foldl hsorted
    set new := occs.map
      (Occurrence.shift (unitDocuments us).length (unitPassages us).length) with hnew
    have hocc : sliceOccurrences env (us ++ [.document d ps vs]) =
        sliceOccurrences env us ++ new := by
      rw [sliceOccurrences, unitOccurrences_append, combineOccurrences_append, Nat.zero_add,
        Nat.zero_add, length_unitOccurrences, sum_unitOccurrences]
      simp [unitOccurrences, combineOccurrences, hprep, Except.toOption, sliceOccurrences, hnew]
    -- the new objects come after the old ones
    have hapart : ∀ x ∈ sliceOccurrences env us, ∀ y ∈ new, x.object ≠ y.object := by
      intro x hx y hy heq
      obtain ⟨o, ho, rfl⟩ := List.mem_map.mp hy
      obtain ⟨htype, hordinal⟩ := Prod.mk.inj heq
      have hinside := h.inside x hx
      rw [htype, hordinal] at hinside
      have hty : (o.shift (unitDocuments us).length (unitPassages us).length).objectType =
        o.objectType := rfl
      rw [hty] at hinside
      dsimp only [Occurrence.shift] at hinside
      split at hinside <;> omega
    have hdocs : unitDocuments (us ++ [.document d ps vs]) = unitDocuments us ++ [d] := by
      simp [unitDocuments_append, unitDocuments]
    have hpass : unitPassages (us ++ [.document d ps vs]) = unitPassages us ++ ps := by
      simp [unitPassages_append, unitPassages]
    have htomb : unitTombstones (us ++ [.document d ps vs]) = unitTombstones us := by
      simp [unitTombstones_append, unitTombstones]
    have hterms : (addDocument s size).terms = s.terms := by
      unfold addDocument
      split <;> rfl
    have hexact : (addDocument s size).Exact := by
      unfold addDocument
      split
      · rename_i hzero
        have := h.empty hzero
        exact ⟨by simp [this], by simp [this], by simp [this]⟩
      · rename_i hpos
        have := h.exact (by omega)
        exact ⟨this.term, this.posting, this.position⟩
    obtain ⟨a, b, c, tb, heq⟩ := foldl_addSource_eq size.terms (addDocument s size)
    have hslot := foldl_addSource_slot size.terms htally.nodup (addDocument s size)
    have hmem := foldl_addSource_terms size.terms (addDocument s size)
    have hnodup := foldl_addSource_nodup size.terms (addDocument s size) (hterms ▸ h.nodup)
    have hexact' := foldl_addSource_exact hexact size.terms
    rw [hterms] at hslot hmem
    rw [sizerAdd_document]
    have hdocuments : (addDocument s size).documents = s.documents + 1 := by
      unfold addDocument
      split <;> rfl
    refine ⟨?_, ?_, ?_, ?_, ?_, ?_, ?_, fun _ => hexact', fun hzero => ?_, hnodup, fun t => ?_,
      fun t => ?_, fun t => ?_, ?_⟩
    · rw [heq, hdocs, List.length_append, ← h.documents]
      exact hdocuments
    · rw [heq, hpass, List.length_append, ← h.passages]
      unfold addDocument
      split <;> rfl
    · rw [heq, htomb, ← h.tombstones]
      unfold addDocument
      split <;> rfl
    · rw [heq, hdocs, hpass, List.map_append, List.map_append, List.sum_append, List.sum_append]
      have : (addDocument s size).documentPayload = s.documentPayload +
          (documentRecordBytes d + (ps.map passageRecordBytes).sum) := by
        unfold addDocument
        split <;> rfl
      rw [this, h.documentPayload]
      simp
      omega
    · rw [heq, unitMetadata, hdocs, List.map_append, List.map_append, List.sum_append]
      have : (addDocument s size).metadataPayload = s.metadataPayload + scalarsBytes scalars := by
        unfold addDocument
        split <;> rfl
      rw [this, h.metadataPayload, unitMetadata]
      simp [hmeta, Except.toOption]
    · rw [heq, hpass, List.map_append, List.sum_append, ← h.vectorIdBytes]
      unfold addDocument
      split <;> rfl
    · rw [heq, htomb]
      have h₁ : (addDocument s size).tombstones = s.tombstones := by
        unfold addDocument
        split <;> rfl
      have h₂ : (addDocument s size).tombstonePayload = s.tombstonePayload := by
        unfold addDocument
        split <;> rfl
      dsimp only
      rw [h₁, h₂]
      exact h.tombstonePayload
    · rw [heq] at hzero
      dsimp only at hzero
      omega
    · rw [(hslot t).2, hocc, htally.occurrences t]
      have hcount : termOccurrences (sliceOccurrences env us ++ new) t =
          termOccurrences (sliceOccurrences env us) t + (ofTerm occs t).length := by
        have hshift := congrArg List.length (ofTerm_shift occs (unitDocuments us).length
          (unitPassages us).length t)
        rw [List.length_map] at hshift
        rw [termOccurrences, termOccurrences, List.filter_append, List.length_append, ← hshift]
        rfl
      rw [hcount, h.occurrences]
    · rw [(hslot t).1, hocc, documentFrequency_append hapart, documentFrequency_shift hobj,
        h.postings, htally.postings]
    · rw [hmem, htally.terms, h.terms, hocc]
      simp only [hnew, List.mem_append, List.mem_map, or_and_right, exists_or, exists_exists_and_eq_and]
      rw [or_comm]
      rfl
    · intro o ho
      rw [hocc] at ho
      rw [hdocs, hpass, List.length_append, List.length_append]
      rcases List.mem_append.mp ho with ho | ho
      · have := h.inside o ho
        split at this <;> rename_i hty
        · rw [if_pos hty]
          omega
        · rw [if_neg hty]
          omega
      · obtain ⟨o', ho', rfl⟩ := List.mem_map.mp ho
        cases hty : o'.objectType with
        | document => simp [Occurrence.shift, hty, hobj o' ho' hty]
        | passage =>
          have := hpassage o' ho' hty
          simp [Occurrence.shift, hty]
          omega

end Counted

/-! ## The payloads of a slice -/

/-- In a table without repetitions every slot is found under its term. -/
theorem TermMap.slot_of_mem {tb : TermMap} (hnd : (tb.map (·.term)).Nodup) {x : TermSlot}
    (hx : x ∈ tb) : tb.slot x.term = x := by
  induction tb with
  | nil => cases hx
  | cons y tb ih =>
    rw [List.map_cons, List.nodup_cons] at hnd
    rcases List.mem_cons.mp hx with rfl | hx
    · simp [slot, find]
    · have hne : ¬y.term = x.term := fun h => hnd.1 (h ▸ List.mem_map.mpr ⟨x, hx, rfl⟩)
      have := ih hnd.2 hx
      simpa [slot, find, hne] using this

/-- A sum over the terms of a table is one over its slots. -/
theorem TermMap.sum_terms {tb : TermMap} (hnd : (tb.map (·.term)).Nodup) {ts : List Bytes}
    (hts : ts.Nodup) (hmem : ∀ t, t ∈ tb.map (·.term) ↔ t ∈ ts) {f : Bytes → Nat} {g : TermSlot → Nat}
    (hfg : ∀ t, g (tb.slot t) = f t) : (tb.map g).sum = (ts.map f).sum := by
  have hall : tb.map g = (tb.map (·.term)).map f := by
    rw [List.map_map]
    refine List.map_congr_left fun x hx => ?_
    rw [Function.comp_apply, ← hfg, TermMap.slot_of_mem hnd hx]
  rw [hall]
  exact (((List.perm_ext_iff_of_nodup hnd hts).mpr hmem).map f).sum_eq

/-- A slice whose files are within the limits. -/
structure PayloadsFit (env : Env) (cfg : Config) (kind : SegmentKind) (us : List SegmentUnit) :
    Prop where
  documentCount : (unitDocuments us).length ≤ maxSegmentDocuments
  passageCount : (unitPassages us).length ≤ maxSegmentPassages
  documents : ∀ id : SegmentId, id.kind = kind → capacityCheck env (documentsPayload id us) = .ok
  terms : unitDocuments us ≠ [] → capacityCheck env (.terms (sliceOccurrences env us)) = .ok
  postings : unitDocuments us ≠ [] → capacityCheck env (postingsPayload env us) = .ok
  positions : unitDocuments us ≠ [] → capacityCheck env (.positions (sliceOccurrences env us)) = .ok
  metadata : unitDocuments us ≠ [] → capacityCheck env (metadataPayload env cfg us) = .ok
  vectors : cfg.hasVectors = true → unitPassages us ≠ [] →
    capacityCheck env (vectorsPayload cfg us) = .ok
  tombstones : unitTombstones us ≠ [] →
    capacityCheck env (.tombstones (unitTombstones us)) = .ok

/-- The totals of a slice are within the limits. -/
structure Sizer.Fits (cfg : Config) (segmentIdBytes limit : Nat) (s : Sizer) : Prop where
  documents : s.documents ≤ maxSegmentDocuments
  passages : s.passages ≤ maxSegmentPassages
  sizes : ∀ n ∈ componentSizes cfg s segmentIdBytes, n ≤ limit

section Payloads

variable {env : Env} {cfg : Config} {us : List SegmentUnit} {s : Sizer}

theorem capacityCheck_of_le {p : Payload} {limit : Nat} (h : p.bytes env.annBytes ≤ limit)
    (hlimit : limit ≤ maxSegmentPayloadBytes) : capacityCheck env p = .ok := by
  rw [capacityCheck, if_neg (by omega)]

/-- The lexical payloads are as large as the planner thinks. -/
theorem Counted.lexical (h : Counted env cfg us s) (hpos : 0 < s.documents) :
    s.termPayload = termsBytes (sliceOccurrences env us) ∧
      s.postingPayload = postingsBytes (sliceOccurrences env us) ∧
      s.positionPayload = positionsBytes (sliceOccurrences env us) := by
  have hexact := h.exact hpos
  have hmem : ∀ t, t ∈ s.terms.map (·.term) ↔ t ∈ termsOf (sliceOccurrences env us) := by
    intro t
    rw [h.terms, termsOf, List.mem_dedup, List.mem_map]
  have hsum : ∀ (f : Bytes → Nat) (g : TermSlot → Nat), (∀ t, g (s.terms.slot t) = f t) →
      (s.terms.map g).sum = ((termsOf (sliceOccurrences env us)).map f).sum := fun f g =>
    TermMap.sum_terms h.nodup (List.nodup_dedup _) hmem
  rw [hexact.term, hexact.posting, hexact.position]
  refine ⟨congrArg (12 + ·) (hsum _ termCost fun t => ?_),
    congrArg (56 + ·) (hsum _ postingCost fun t => ?_),
    congrArg (12 + ·) (hsum _ positionCost fun t => ?_)⟩
  · rw [termCost, TermMap.term_slot]
  · rw [postingCost, h.postings]
  · rw [positionCost, h.occurrences]

/-- The vectors are no larger than the planner thinks. -/
theorem Counted.vectors (h : Counted env cfg us s) : (vectorsPayload cfg us).bytes env.annBytes ≤
    vectorsBytes cfg.vectorModelId cfg.vectorDimensions s.passages s.vectorIdBytes := by
  have hlen : (unitEntries us).length ≤ s.passages := by
    rw [h.passages, unitEntries, List.length_zip, List.length_map]
    exact Nat.min_le_left _ _
  have hids : ((unitEntries us).map fun e => e.1.length).sum ≤ s.vectorIdBytes := by
    rw [h.vectorIdBytes, unitEntries]
    have hsub : ((((unitPassages us).map (·.id)).zip (unitVectors us)).map Prod.fst).Sublist
        ((unitPassages us).map (·.id)) := by
      rw [List.zip_eq_zip_take_min, List.map_fst_zip (by simp)]
      exact List.take_sublist _ _
    have := List.Sublist.sum_le_sum (hsub.map List.length) (by simp)
    rwa [List.map_map, List.map_map] at this
  have hrows := Nat.mul_le_mul_right (cfg.vectorDimensions * 4) hlen
  have hheader : 40 + cfg.vectorModelId.length + (unitEntries us).length * 16 +
      ((unitEntries us).map fun e => e.1.length).sum ≤
        40 + cfg.vectorModelId.length + s.passages * 16 + s.vectorIdBytes := by omega
  have halign : alignFloat (40 + cfg.vectorModelId.length + (unitEntries us).length * 16 +
      ((unitEntries us).map fun e => e.1.length).sum) ≤
        alignFloat (40 + cfg.vectorModelId.length + s.passages * 16 + s.vectorIdBytes) := by
    unfold alignFloat
    omega
  rw [← Nat.mul_assoc, ← Nat.mul_assoc] at hrows
  exact Nat.add_le_add halign hrows

/-- **A slice that fits in the planner's eyes fits on disk.** -/
theorem Counted.payloadsFit (h : Counted env cfg us s) {kind : SegmentKind} {limit : Nat}
    (hlimit : limit ≤ maxSegmentPayloadBytes) (hfits : s.Fits cfg kind.idBytes limit) :
    PayloadsFit env cfg kind us := by
  have hsizes := hfits.sizes
  simp only [componentSizes, List.forall_mem_cons, List.not_mem_nil, false_implies,
    implies_true, and_true] at hsizes
  obtain ⟨h₁, h₂, h₃, h₄, h₅, h₆, h₇⟩ := hsizes
  have hpos : unitDocuments us ≠ [] → 0 < s.documents := fun hne => by
    rw [h.documents]
    exact List.length_pos_iff.mpr hne
  refine ⟨h.documents ▸ hfits.documents, h.passages ▸ hfits.passages, fun id hid => ?_,
    fun hne => ?_, fun hne => ?_, fun hne => ?_, fun hne => ?_, fun hv hne => ?_, fun hne => ?_⟩
  · refine capacityCheck_of_le (le_trans (le_of_eq ?_) h₁) hlimit
    rw [h.documentPayload, ← hid]
    rfl
  · rw [if_pos (hpos hne)] at h₂
    exact capacityCheck_of_le (le_trans (h.lexical (hpos hne)).1.ge h₂) hlimit
  · rw [if_pos (hpos hne)] at h₃
    exact capacityCheck_of_le (le_trans (h.lexical (hpos hne)).2.1.ge h₃) hlimit
  · rw [if_pos (hpos hne)] at h₄
    exact capacityCheck_of_le (le_trans (h.lexical (hpos hne)).2.2.ge h₄) hlimit
  · rw [if_pos (hpos hne)] at h₅
    refine capacityCheck_of_le (le_trans (le_of_eq ?_) h₅) hlimit
    rw [h.metadataPayload]
    rfl
  · have hp : 0 < s.passages := by
      rw [h.passages]
      exact List.length_pos_iff.mpr hne
    rw [if_pos ⟨hv, hp⟩] at h₆
    exact capacityCheck_of_le (le_trans h.vectors h₆) hlimit
  · have ht : 0 < s.tombstones := by
      rw [h.tombstones]
      exact List.length_pos_iff.mpr hne
    rw [if_pos ht, h.tombstonePayload ht] at h₇
    exact capacityCheck_of_le h₇ hlimit

end Payloads

/-! ## Every slice of a plan fits -/

section Fits

variable {env : Env} {cfg : Config} {segmentIdBytes limit : Nat} {us : List SegmentUnit} {s : Sizer}
  {u : SegmentUnit} {size : UnitSize}

theorem Sizer.Fits.mono {limit' : Nat} (h : s.Fits cfg segmentIdBytes limit)
    (hle : limit ≤ limit') : s.Fits cfg segmentIdBytes limit' :=
  ⟨h.documents, h.passages, fun n hn => le_trans (h.sizes n hn) hle⟩

/-- A unit that was prepared lists each of its terms once. -/
theorem prepareUnit_nodup (h : prepareUnit env cfg u = .ok size) :
    (size.terms.map (·.term)).Nodup := by
  cases u with
  | tombstone id =>
    cases h
    exact List.nodup_nil
  | document d ps vs =>
    obtain ⟨occs, scalars, hprep, -, rfl⟩ := prepareUnit_document h
    exact (tally_foldl (lexicalPrepareUnit_object hprep).1).nodup

/-- **What `projected_fits` promises of the slice with the unit in it.** -/
theorem fits_of_projectedFits (hu : prepareUnit env cfg u = .ok size)
    (h : projectedFits cfg s u size segmentIdBytes limit = true) :
    (sizerAdd s u size).Fits cfg segmentIdBytes limit := by
  simp only [projectedFits, decide_eq_true_eq, List.all_eq_true] at h
  obtain ⟨hdocs, hps, hsizes⟩ := h
  rw [projected_eq s u size (prepareUnit_nodup hu)] at hsizes
  refine ⟨?_, ?_, hsizes⟩
  · cases u with
    | tombstone id => exact hdocs
    | document d ps vs =>
      obtain ⟨_, _, _, _, heq⟩ := foldl_addSource_eq size.terms (addDocument s size)
      rw [sizerAdd_document, heq]
      by_cases hz : s.documents = 0 <;> simpa [addDocument, hz] using hdocs
  · cases u with
    | tombstone id =>
      cases hu
      exact hps
    | document d ps vs =>
      obtain ⟨_, _, _, _, heq⟩ := foldl_addSource_eq size.terms (addDocument s size)
      rw [sizerAdd_document, heq]
      by_cases hz : s.documents = 0 <;> simpa [addDocument, hz] using hps

/-- A slice that has been measured, and fits within a limit. -/
structure SliceFits (env : Env) (cfg : Config) (segmentIdBytes limit : Nat) (units : List SegmentUnit)
    (sl : Slice) : Prop where
  nonempty : sl.units units ≠ []
  sized : ∃ s, Counted env cfg (sl.units units) s ∧ s.Fits cfg segmentIdBytes limit ∧
    sl.payloadBytes = componentSizes cfg s segmentIdBytes

/-- A range that `range_slice` accepts fits. -/
theorem rangeSizer_fits {xs : List (SegmentUnit × UnitSize)} {s' : Sizer}
    (hxs : ∀ x ∈ xs, prepareUnit env cfg x.1 = .ok x.2) (hs : Counted env cfg us s)
    (hfits : xs = [] → s.Fits cfg segmentIdBytes limit)
    (h : rangeSizer cfg segmentIdBytes limit xs s = some s') :
    Counted env cfg (us ++ xs.map Prod.fst) s' ∧ s'.Fits cfg segmentIdBytes limit := by
  induction xs generalizing us s with
  | nil =>
    cases h
    rw [List.map_nil, List.append_nil]
    exact ⟨hs, hfits rfl⟩
  | cons x xs ih =>
    obtain ⟨hx, hxs⟩ := List.forall_mem_cons.mp hxs
    rw [rangeSizer] at h
    split at h
    · rename_i hp
      have := ih hxs (hs.add hx) (fun _ => fits_of_projectedFits hx hp) h
      rwa [List.append_assoc] at this
    · cases h

/-- The open slice of the planner's loop, from `first` up to the next unit `i`. -/
structure OpenSlice (env : Env) (cfg : Config) (segmentIdBytes : Nat) (policy : SizePolicy)
    (units : List SegmentUnit) (first i : Nat) (s : Sizer) : Prop where
  counted : Counted env cfg ((units.drop first).take (i - first)) s
  fits : first < i → s.Fits cfg segmentIdBytes policy.hardMax

variable {policy : SizePolicy} {units : List SegmentUnit}

theorem take_succ_range {first i : Nat} (h : first ≤ i) (hi : i < units.length) :
    (units.drop first).take (i + 1 - first) =
      (units.drop first).take (i - first) ++ [units[i]] := by
  have hlt : i - first < (units.drop first).length := by
    rw [List.length_drop]
    omega
  rw [show i + 1 - first = i - first + 1 by omega, List.take_add_one, List.getElem?_eq_getElem hlt,
    List.getElem_drop]
  simp [Nat.add_sub_cancel' h]

/-- The open slice with one unit more. -/
theorem OpenSlice.add {first i : Nat} (h : OpenSlice env cfg segmentIdBytes policy units first i s)
    (hle : first ≤ i) (hi : i < units.length) (hu : prepareUnit env cfg units[i] = .ok size)
    (hlimit : limit ≤ policy.hardMax)
    (hp : projectedFits cfg s units[i] size segmentIdBytes limit = true) :
    OpenSlice env cfg segmentIdBytes policy units first (i + 1) (sizerAdd s units[i] size) := by
  refine ⟨?_, fun _ => (fits_of_projectedFits hu hp).mono hlimit⟩
  rw [take_succ_range hle hi]
  exact h.counted.add hu

/-- An open slice with nothing in it. -/
theorem OpenSlice.nil (i : Nat) : OpenSlice env cfg segmentIdBytes policy units i i {} := by
  refine ⟨?_, fun h => absurd h (Nat.lt_irrefl i)⟩
  rw [Nat.sub_self, List.take_zero]
  exact Counted.nil

/-- The open slice, when it is closed. -/
theorem OpenSlice.slice {first i : Nat} (h : OpenSlice env cfg segmentIdBytes policy units first i s)
    (hlt : first < i) (hi : i ≤ units.length) :
    SliceFits env cfg segmentIdBytes policy.hardMax units
      ⟨first, i - first, componentSizes cfg s segmentIdBytes⟩ := by
  refine ⟨fun hnil => ?_, s, h.counted, h.fits hlt, rfl⟩
  have hlen := congrArg List.length hnil
  rw [Slice.units, List.length_take, List.length_drop, List.length_nil] at hlen
  dsimp only at hlen
  omega

/-- **The slices the loop closes fit, and so does the one it leaves open.** -/
theorem planLoop_fits {rest : List (SegmentUnit × UnitSize)} {i first : Nat} {slices : List Slice}
    {out : List Slice × Nat × Sizer} (hpolicy : policy.target ≤ policy.hardMax)
    (hunits : units.drop i = rest.map Prod.fst)
    (hrest : ∀ x ∈ rest, prepareUnit env cfg x.1 = .ok x.2) (hle : first ≤ i)
    (hopen : OpenSlice env cfg segmentIdBytes policy units first i s)
    (hslices : ∀ sl ∈ slices, SliceFits env cfg segmentIdBytes policy.hardMax units sl)
    (h : planLoop cfg segmentIdBytes policy rest i first s slices = .ok out) :
    (∀ sl ∈ out.1, SliceFits env cfg segmentIdBytes policy.hardMax units sl) ∧
      OpenSlice env cfg segmentIdBytes policy units out.2.1 (i + rest.length) out.2.2 ∧
      (first < i ∨ rest ≠ [] → out.2.1 < i + rest.length) := by
  induction rest generalizing i first s slices with
  | nil =>
    cases h
    exact ⟨hslices, hopen, fun h => h.resolve_right (· rfl)⟩
  | cons x rest ih =>
    obtain ⟨hx, hrest'⟩ := List.forall_mem_cons.mp hrest
    obtain ⟨unit, u⟩ := x
    have hi : i < units.length := by
      by_contra hge
      rw [List.drop_eq_nil_of_le (by omega)] at hunits
      cases hunits
    rw [← List.cons_getElem_drop_succ (h := hi), List.map_cons, List.cons.injEq] at hunits
    obtain ⟨rfl, hunits⟩ := hunits
    -- one turn of the loop: the unit joins the open slice, which may have just been opened
    have step : ∀ {first' s' slices' limit}, first' ≤ i →
        OpenSlice env cfg segmentIdBytes policy units first' i s' →
        (∀ sl ∈ slices', SliceFits env cfg segmentIdBytes policy.hardMax units sl) →
        limit ≤ policy.hardMax →
        projectedFits cfg s' units[i] u segmentIdBytes limit = true →
        planLoop cfg segmentIdBytes policy rest (i + 1) first' (sizerAdd s' units[i] u) slices' =
          .ok out →
        (∀ sl ∈ out.1, SliceFits env cfg segmentIdBytes policy.hardMax units sl) ∧
          OpenSlice env cfg segmentIdBytes policy units out.2.1 (i + (rest.length + 1)) out.2.2 ∧
          out.2.1 < i + (rest.length + 1) := by
      intro first' s' slices' limit hle' hopen' hslices' hlimit hp h'
      obtain ⟨h₁, h₂, h₃⟩ := ih hunits hrest' (Nat.le_succ_of_le hle')
        (hopen'.add hle' hi hx hlimit hp) hslices' h'
      rw [show i + (rest.length + 1) = i + 1 + rest.length by omega]
      exact ⟨h₁, h₂, h₃ (.inl (Nat.lt_succ_of_le hle'))⟩
    rw [planLoop] at h
    refine (?_ : _ ∧ _ ∧ _).imp_right fun h => h.imp_right fun h _ => h
    split at h
    · rename_i hp
      exact step hle hopen hslices hpolicy hp h
    · split at h
      · rename_i hlt
        split at h
        · cases h
        · simp only at h
          split at h
          · rename_i hp
            have hslices' : ∀ sl ∈ slices ++
                [⟨first, i - first, componentSizes cfg s segmentIdBytes⟩],
                SliceFits env cfg segmentIdBytes policy.hardMax units sl := by
              intro sl hsl
              rcases List.mem_append.mp hsl with hsl | hsl
              · exact hslices sl hsl
              · rw [List.mem_singleton] at hsl
                subst hsl
                exact hopen.slice hlt hi.le
            rcases hp with hp | hp
            · exact step (Nat.le_refl i) (.nil i) hslices' hpolicy hp h
            · exact step (Nat.le_refl i) (.nil i) hslices' (Nat.le_refl _) hp h
          · cases h
      · split at h
        · rename_i hp
          exact step hle hopen hslices (Nat.le_refl _) hp h
        · cases h

/-- Joining the last two slices keeps every slice within the limit. -/
theorem mergeSmallTail_fits {sized : List (SegmentUnit × UnitSize)} {slices : List Slice}
    (hpolicy : policy.softMax ≤ policy.hardMax)
    (hsized : ∀ x ∈ sized, prepareUnit env cfg x.1 = .ok x.2) (hunits : sized.map Prod.fst = units)
    (hslices : ∀ sl ∈ slices, SliceFits env cfg segmentIdBytes policy.hardMax units sl) :
    ∀ sl ∈ mergeSmallTail cfg sized segmentIdBytes policy slices,
      SliceFits env cfg segmentIdBytes policy.hardMax units sl := by
  unfold mergeSmallTail
  split
  · rename_i tail previous earlier hrev
    split
    · exact hslices
    · split
      · exact hslices
      · rename_i s' hs'
        have hslices' : slices = earlier.reverse ++ [previous, tail] := by
          simpa using congrArg List.reverse hrev
        intro sl hsl
        rcases List.mem_append.mp hsl with hsl | hsl
        · exact hslices sl (by rw [hslices']; exact List.mem_append_left _ hsl)
        · rw [List.mem_singleton] at hsl
          subst hsl
          have hrange : (sized.drop previous.first |>.take (previous.count + tail.count)).map
              Prod.fst = (units.drop previous.first).take (previous.count + tail.count) := by
            rw [List.map_take, List.map_drop, hunits]
          have hne : (units.drop previous.first).take (previous.count + tail.count) ≠ [] := fun hnil => by
            rw [List.take_add] at hnil
            exact (hslices previous (by rw [hslices']; simp)).nonempty
              (List.append_eq_nil_iff.mp hnil).1
          obtain ⟨hcounted, hfits⟩ := rangeSizer_fits
            (fun x hx => hsized x (List.mem_of_mem_drop (List.mem_of_mem_take hx))) Counted.nil
            (fun h => absurd (by rw [← hrange, h]; rfl) hne) hs'
          rw [hrange, List.nil_append] at hcounted
          exact ⟨hne, s', hcounted, hfits.mono hpolicy, rfl⟩
  · exact hslices

/-- The units a plan is made from, with their sizes. -/
theorem zip_of_mapM {sizes : List UnitSize} (h : units.mapM (prepareUnit env cfg) = .ok sizes) :
    (units.zip sizes).map Prod.fst = units ∧
      ∀ x ∈ units.zip sizes, prepareUnit env cfg x.1 = .ok x.2 := by
  induction units generalizing sizes with
  | nil => simp
  | cons u units ih =>
    rw [List.mapM_cons] at h
    obtain ⟨size, hu, h⟩ := bind_eq_ok.mp h
    obtain ⟨sizes', hus, h⟩ := bind_eq_ok.mp h
    cases h
    obtain ⟨h₁, h₂⟩ := ih hus
    exact ⟨by rw [List.zip_cons_cons, List.map_cons, h₁], List.forall_mem_cons.mpr ⟨hu, h₂⟩⟩

/-- **Every slice of a plan fits.** -/
theorem segmentPlan_fits {slices : List Slice} (hne : units ≠ [])
    (h : segmentPlan env cfg units segmentIdBytes policy = .ok slices) :
    ∀ sl ∈ slices, SliceFits env cfg segmentIdBytes policy.hardMax units sl := by
  obtain ⟨⟨-, -, htarget, hsoft, -⟩, sizes, closed, first, s, hsizes, hl, -, rfl⟩ :=
    segmentPlan_eq_ok.mp h
  obtain ⟨hfst, hsized⟩ := zip_of_mapM hsizes
  have hlen : (units.zip sizes).length = units.length := by
    rw [← List.length_map (f := Prod.fst), hfst]
  obtain ⟨hclosed, hopen, hlt⟩ := planLoop_fits (le_trans htarget hsoft)
    (show units.drop 0 = _ from hfst.symm) hsized (Nat.le_refl 0) (.nil 0) (by simp) hl
  rw [hlen, Nat.zero_add] at hopen hlt
  refine mergeSmallTail_fits hsoft hsized hfst fun sl hsl => ?_
  rcases List.mem_append.mp hsl with hsl | hsl
  · exact hclosed sl hsl
  · rw [List.mem_singleton] at hsl
    subst hsl
    refine hopen.slice (hlt (.inr fun hnil => hne ?_)) le_rfl
    rw [← hfst, hnil]
    rfl

end Fits

end Yappod

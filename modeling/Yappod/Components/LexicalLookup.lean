import Yappod.Components.LexicalCorpus
import Mathlib.Data.Set.Card

/-!
# Looking up what was written

The accessors of an opened segment, on the files of the writer: the binary search for a term, the iterator
over its postings, the positions of a posting and the number of documents or passages a term is in.  Together
with the lemmas on the corpus they say that the files represent it (`lexical_files_represent`).
-/

set_option autoImplicit false

namespace Yappod

/-! ## The binary searches -/

namespace LexicalSegment

variable {s : LexicalSegment}

/-- Two entries of different terms are in the order of their indices. -/
theorem index_lt (hsorted : s.terms.Pairwise fun e e' => termCompare e.term e'.term = .lt) {i j : Nat}
    {e e' : TermEntry} (he : s.terms[i]? = some e) (he' : s.terms[j]? = some e')
    (hlt : termCompare e.term e'.term = .lt) : i < j := by
  obtain ⟨hi, rfl⟩ := List.getElem?_eq_some_iff.mp he
  obtain ⟨hj, rfl⟩ := List.getElem?_eq_some_iff.mp he'
  by_contra hij
  rcases Nat.eq_or_lt_of_le (Nat.not_lt.mp hij) with rfl | hji
  · rw [termCompare_eq_eq.mpr rfl] at hlt
    cases hlt
  · have hgt := termCompare_eq_lt.mpr (List.pairwise_iff_getElem.mp hsorted j i hj hi hji)
    rw [hlt] at hgt
    cases hgt

/-- Bounds with nothing between them: there is no entry of the term. -/
theorem bounds_empty {t : Bytes} {low high : Nat}
    (hin : ∀ (j : Nat) e, s.terms[j]? = some e → e.term = t → low ≤ j ∧ j < high) (h : ¬ low < high)
    {e : TermEntry} : none = some e ↔ e ∈ s.terms ∧ e.term = t := by
  refine ⟨fun h => ?_, fun ⟨he, ht⟩ => ?_⟩
  · cases h
  · obtain ⟨j, hj⟩ := List.getElem?_of_mem he
    have hbounds := hin j e hj ht
    omega

/-- The loop finds the entry of the term, as long as it is between the bounds. -/
theorem termFindLoop_eq_some (hsorted : s.terms.Pairwise fun e e' => termCompare e.term e'.term = .lt)
    (t : Bytes) (fuel low high : Nat) (hfuel : high - low ≤ fuel) (hhigh : high ≤ s.terms.length)
    (hin : ∀ (j : Nat) e, s.terms[j]? = some e → e.term = t → low ≤ j ∧ j < high) {e : TermEntry} :
    s.termFindLoop t fuel low high = some e ↔ e ∈ s.terms ∧ e.term = t := by
  induction fuel generalizing low high with
  | zero => exact bounds_empty hin (by omega)
  | succ fuel ih =>
    rw [termFindLoop]
    by_cases hlt : low < high
    · have hmid : low + (high - low) / 2 < s.terms.length := by omega
      rw [if_pos hlt]
      dsimp only
      rw [List.getElem?_eq_getElem hmid]
      dsimp only
      generalize hm : s.terms[low + (high - low) / 2] = m
      have hget : s.terms[low + (high - low) / 2]? = some m := by
        rw [List.getElem?_eq_getElem hmid, hm]
      cases hcompare : termCompare m.term t with
      | eq =>
        have hterm := termCompare_eq_eq.mp hcompare
        rw [Option.some.injEq]
        refine ⟨fun h => h ▸ ⟨List.mem_of_getElem? hget, hterm⟩, fun ⟨he, ht⟩ => ?_⟩
        -- an entry of the same term stands at the same index
        by_contra hne
        obtain ⟨j, hj⟩ := List.getElem?_of_mem he
        have hpair := List.pairwise_iff_getElem.mp hsorted
        obtain ⟨hjlen, hje⟩ := List.getElem?_eq_some_iff.mp hj
        rcases Nat.lt_trichotomy j (low + (high - low) / 2) with hji | hji | hji
        · have hbad := hpair j _ hjlen hmid hji
          rw [hje, hm, ht, hterm, termCompare_eq_eq.mpr rfl] at hbad
          cases hbad
        · subst hji
          rw [hget, Option.some.injEq] at hj
          exact hne hj
        · have hbad := hpair _ j hmid hjlen hji
          rw [hje, hm, ht, hterm, termCompare_eq_eq.mpr rfl] at hbad
          cases hbad
      | lt =>
        have hin' : ∀ (j : Nat) e, s.terms[j]? = some e → e.term = t →
            low + (high - low) / 2 + 1 ≤ j ∧ j < high := fun j e' hj ht =>
          ⟨index_lt hsorted hget hj (ht ▸ hcompare), (hin j e' hj ht).2⟩
        exact ih _ _ (by omega) hhigh hin'
      | gt =>
        have hin' : ∀ (j : Nat) e, s.terms[j]? = some e → e.term = t →
            low ≤ j ∧ j < low + (high - low) / 2 := fun j e' hj ht =>
          ⟨(hin j e' hj ht).1, index_lt hsorted hj hget (ht ▸ termCompare_eq_lt.mp hcompare)⟩
        exact ih _ _ (by omega) (by omega) hin'
    · rw [if_neg hlt]
      exact bounds_empty hin hlt

/-- A term is found if there is an entry of it. -/
theorem termFind_eq_some (hsorted : s.terms.Pairwise fun e e' => termCompare e.term e'.term = .lt)
    {t : Bytes} {e : TermEntry} : s.termFind t = some e ↔ e ∈ s.terms ∧ e.term = t := by
  refine termFindLoop_eq_some hsorted t _ _ _ (Nat.sub_le _ _) le_rfl fun j e hj _ => ?_
  exact ⟨Nat.zero_le j, (List.getElem?_eq_some_iff.mp hj).1⟩

/-- The loop over the types ends at the first posting that is not of a document. -/
theorem typeLoop_eq {e : TermEntry} {n : Nat} (fuel low high : Nat) (hfuel : high - low ≤ fuel)
    (hlow : low ≤ n) (hn : n ≤ high)
    (hget : ∀ j < high, ∃ p, s.postingAt e j = .ok p ∧ (p.objectType < 2 ↔ j < n)) :
    s.typeLoop e fuel low high = .ok n := by
  induction fuel generalizing low high with
  | zero =>
    rw [typeLoop, Except.ok.injEq]
    omega
  | succ fuel ih =>
    rw [typeLoop]
    by_cases hlt : low < high
    · obtain ⟨p, hp, htype⟩ := hget (low + (high - low) / 2) (by omega)
      rw [if_pos hlt]
      dsimp only
      rw [hp, ok_bind]
      by_cases hdoc : p.objectType < 2
      · have hmid := htype.mp hdoc
        rw [if_pos hdoc]
        exact ih _ _ (by omega) hmid hn hget
      · have hmid := fun h => hdoc (htype.mpr h)
        rw [if_neg hdoc]
        exact ih _ _ (by omega) hlow (by omega) fun j hj => hget j (by omega)
    · rw [if_neg hlt, Except.ok.injEq]
      omega

/-- The iterator gives the postings that are there. -/
theorem iteratePostings_eq {e : TermEntry} (ps : List Posting) (i : Nat)
    (h : ∀ (j : Nat) p, ps[j]? = some p → s.postingAt e (i + j) = .ok p) :
    s.iteratePostings e ps.length i = .ok ps := by
  induction ps generalizing i with
  | nil => rfl
  | cons p ps ih =>
    have hrest := ih (i + 1) fun j q hq => by
      rw [show i + 1 + j = i + (j + 1) by omega]
      exact h (j + 1) q hq
    rw [List.length_cons, iteratePostings, show s.postingAt e i = .ok p from h 0 p rfl, ok_bind, hrest]
    rfl

end LexicalSegment

/-! ## The postings and the positions of a term -/

theorem getElem?_buildPostings {objects : List (List Occurrence)} (h : ∀ items ∈ objects, items ≠ [])
    (offset j : Nat) : (buildPostings offset objects)[j]? =
      objects[j]?.bind (objectPosting (offset + (objects.take j).flatten.length)) := by
  induction objects generalizing offset j with
  | nil => rfl
  | cons g objects ih =>
    cases g with
    | nil => exact absurd rfl (h [] List.mem_cons_self)
    | cons o g =>
      rw [buildPostings]
      cases j with
      | zero => rfl
      | succ j =>
        rw [List.getElem?_cons_succ, List.getElem?_cons_succ,
          ih fun items hitems => h items (List.mem_cons_of_mem _ hitems)]
        rw [List.take_succ_cons, List.flatten_cons, List.length_append, ← Nat.add_assoc]

/-- Where an element of one of the lists is in all of them. -/
theorem getElem?_flatten {objects : List (List Occurrence)} {j k : Nat} {items : List Occurrence}
    {o : Occurrence} (hj : objects[j]? = some items) (hk : items[k]? = some o) :
    objects.flatten[(objects.take j).flatten.length + k]? = some o := by
  induction objects generalizing j with
  | nil => cases hj
  | cons g objects ih =>
    cases j with
    | zero =>
      cases hj
      rw [List.take_zero, List.flatten_nil, List.length_nil, Nat.zero_add, List.flatten_cons,
        List.getElem?_append_left (List.getElem?_eq_some_iff.mp hk).1]
      exact hk
    | succ j =>
      rw [List.take_succ_cons, List.flatten_cons, List.flatten_cons, List.length_append, Nat.add_assoc,
        List.getElem?_append_right (Nat.le_add_right _ _), Nat.add_sub_cancel_left]
      exact ih hj

/-- The files hold the parts of the term, where its entry says. -/
structure Stored (maps : LexicalMaps) (items : List Occurrence) (e : TermEntry) : Prop where
  index : ∃ index a b, e = buildEntry index a b items ∧
    Stands maps.postings (fileHeaderBytes + a) (termPostings index items) ∧
    Stands maps.positions (fileHeaderBytes + b) (termPositions index items)

section Stored

variable {totals : LexicalTotals} {s : LexicalSegment} {items : List Occurrence} {e : TermEntry}
  (hsmall : s.maps.Small) (htotals : ∀ t, totals.objects t < 2 ^ 64) (hitems : TermItems totals items)
  (hstored : Stored s.maps items e)

include hstored

theorem Stored.documentFrequency : e.documentFrequency = objectCount items := by
  obtain ⟨index, a, b, rfl, -, -⟩ := hstored.index
  rfl

include hsmall

theorem Stored.held : e.Held s.maps items.length := by
  obtain ⟨index, a, b, rfl, hpostings, hpositions⟩ := hstored.index
  have hq := hsmall.positions
  have hqend := hpositions.1
  rw [show maxFileBytes = 32 + 2 ^ 28 from rfl] at hq
  rw [length_termPositions] at hqend
  refine ⟨?_, ?_, ?_, ?_, ?_⟩
  · rw [termPositions, stands_append, stands_append, length_leBytes] at hpositions
    exact getU64_of_stands hpositions.2.1 (by omega)
  · exact length_termPostings index items
  · exact hpostings.1
  · exact length_termPositions index items
  · exact hpositions.1

include htotals hitems

/-- The `j`-th posting of the term is that of its `j`-th object. -/
theorem Stored.postingAt {j : Nat} {object : List Occurrence}
    (hj : (items.splitBy sameObject)[j]? = some object) :
    ∃ p, s.postingAt e j = .ok p ∧
      objectPosting (((items.splitBy sameObject).take j).flatten.length) object = some p := by
  have hheld := hstored.held hsmall
  have hlt : j < e.documentFrequency := by
    rw [hstored.documentFrequency]
    exact (List.getElem?_eq_some_iff.mp hj).1
  rw [LexicalSegment.postingAt_eq hsmall hheld hlt]
  have hq := hsmall.positions
  have hqend := hheld.positions
  rw [show maxFileBytes = 32 + 2 ^ 28 from rfl] at hq
  rw [hheld.positionsBytes] at hqend
  obtain ⟨index, a, b, rfl, hpostings, -⟩ := hstored.index
  rw [termPostings] at hpostings
  simp only [stands_append, length_leBytes, Nat.add_assoc, Nat.reduceAdd] at hpostings
  obtain ⟨-, -, -, hpostings, -⟩ := hpostings
  rw [← Nat.add_assoc] at hpostings
  obtain ⟨p, hp, hobject⟩ := parsePosting_objects htotals hitems.2 0 0 (by
    rw [Nat.zero_mul]
    exact hpostings) (by rw [List.flatten_splitBy]; omega) hj
  rw [Nat.zero_add] at hp hobject
  exact ⟨p, hp, hobject⟩

/-- The iterator gives the postings of the objects. -/
theorem Stored.postings : s.postings e = .ok (buildPostings 0 (items.splitBy sameObject)) := by
  have hlen : e.documentFrequency = (buildPostings 0 (items.splitBy sameObject)).length := by
    rw [hstored.documentFrequency, length_buildPostings hitems.2.nonempty]
    rfl
  rw [LexicalSegment.postings, hlen]
  refine LexicalSegment.iteratePostings_eq _ 0 fun j p hp => ?_
  rw [getElem?_buildPostings hitems.2.nonempty, Option.bind_eq_some_iff] at hp
  obtain ⟨object, hj, hp⟩ := hp
  obtain ⟨p', hget, hp'⟩ := hstored.postingAt hsmall htotals hitems hj
  rw [Nat.zero_add] at hp ⊢
  rw [hp', Option.some.injEq] at hp
  rw [hget, hp]

omit htotals in
/-- The positions of a posting are those of the occurrences in its object. -/
theorem Stored.positionAt {j k : Nat} {object : List Occurrence}
    (hj : (items.splitBy sameObject)[j]? = some object) {p : Posting}
    (hp : objectPosting (((items.splitBy sameObject).take j).flatten.length) object = some p)
    {o : Occurrence} (ho : object[k]? = some o) :
    s.positionAt e p k = .ok (o.field.code, o.position) := by
  have hheld := hstored.held hsmall
  have hplace := getElem?_flatten hj ho
  rw [List.flatten_splitBy] at hplace
  have hobject := hitems.2.items object (List.mem_of_getElem? hj)
  obtain ⟨first, hfirst, rfl⟩ := Option.map_eq_some_iff.mp hp
  have hklen := (List.getElem?_eq_some_iff.mp ho).1
  -- the positions of the object end inside those of the term
  have hend : ((items.splitBy sameObject).take j).flatten.length + object.length ≤ items.length := by
    have hsub : (((items.splitBy sameObject).take (j + 1)).flatten).length ≤ items.length := by
      have hle := ((List.take_sublist (j + 1) (items.splitBy sameObject)).flatten).length_le
      rwa [List.flatten_splitBy] at hle
    rw [List.take_add_one, hj, List.flatten_append, List.length_append] at hsub
    simpa using hsub
  obtain ⟨field, position, heq, hfield, hposition⟩ := LexicalSegment.positionAt_eq hsmall hheld
    (p := buildPosting ((items.splitBy sameObject).take j).flatten.length first object)
    ⟨lt_of_le_of_lt (Nat.zero_le k) hklen, hend⟩ hklen
  obtain ⟨index, a, b, rfl, -, hpositions⟩ := hstored.index
  rw [termPositions, stands_append, stands_append, length_leBytes, length_leBytes] at hpositions
  have hrecord := Stands.flatMap Occurrence.length_positionBytes hpositions.2.2 hplace
  rw [Occurrence.positionBytes, stands_append, length_leBytes] at hrecord
  have hcode := o.field.code_pos
  have hinside := hobject.inside o (List.mem_of_getElem? ho)
  have hshort := hobject.short o (List.mem_of_getElem? ho)
  rw [uint32Max] at hshort
  have hf : getU32 s.maps.positions _ = .ok o.field.code := getU32_of_stands hrecord.1 (by omega)
  have hq : getU32 s.maps.positions _ = .ok o.position := getU32_of_stands hrecord.2 (by omega)
  rw [heq]
  have hfe : Except.ok (ε := Fault) field = .ok o.field.code := hfield.symm.trans hf
  have hpe : Except.ok (ε := Fault) position = .ok o.position := hposition.symm.trans hq
  rw [Except.ok.injEq] at hfe hpe
  rw [hfe, hpe]

end Stored

/-! ## What the corpus says of a term -/

/-- The positions of a token among the tokens of a field. -/
def tokenPositions (t : Bytes) (tokens : List Bytes) : List Nat :=
  (List.range tokens.length).filter fun j => tokens[j]? = some t

/-- The positions of a token in an object: the code of a field, and a position in it. -/
def objectPositions (tokens : Corpus) (t : Bytes) (object : ObjectType × Nat) : List (Nat × Nat) :=
  [Field.title, .body, .passage].flatMap fun f =>
    (tokenPositions t (tokens object.1 object.2 f)).map fun j => (f.code, j)

/-- The token is in a field of the object. -/
def Corpus.Has (tokens : Corpus) (t : Bytes) (object : ObjectType × Nat) : Prop :=
  ∃ f, t ∈ tokens object.1 object.2 f

theorem length_tokenPositions (t : Bytes) (tokens : List Bytes) :
    (tokenPositions t tokens).length = tokens.count t := by
  rw [tokenPositions]
  induction tokens with
  | nil => rfl
  | cons w tokens ih =>
    rw [List.length_cons, List.range_succ_eq_map, List.filter_cons, List.filter_map, List.count_cons]
    have hshift : (fun j => decide ((w :: tokens)[j]? = some t)) ∘ Nat.succ =
        fun j => decide (tokens[j]? = some t) := rfl
    rw [hshift]
    by_cases hw : w = t
    · rw [if_pos (by simpa using hw), if_pos (by simpa using hw), List.length_cons, List.length_map, ih]
    · rw [if_neg (by simpa using hw), if_neg (by simpa using hw), List.length_map, ih, Nat.add_zero]

theorem mem_tokenPositions {t : Bytes} {tokens : List Bytes} {j : Nat} :
    j ∈ tokenPositions t tokens ↔ tokens[j]? = some t := by
  rw [tokenPositions, List.mem_filter, List.mem_range, decide_eq_true_eq]
  exact and_iff_right_of_imp fun h => (List.getElem?_eq_some_iff.mp h).1

/-- The order of the positions in an object. -/
def PlaceLt (a b : Nat × Nat) : Prop := a.1 < b.1 ∨ a.1 = b.1 ∧ a.2 < b.2

instance : Std.Irrefl PlaceLt where
  irrefl a h := by
    rw [PlaceLt] at h
    omega

instance : Std.Antisymm PlaceLt where
  antisymm a b hab hba := by
    rw [PlaceLt] at hab hba
    omega

theorem objectPositions_sorted (tokens : Corpus) (t : Bytes) (object : ObjectType × Nat) :
    (objectPositions tokens t object).Pairwise PlaceLt := by
  rw [objectPositions, List.flatMap, List.pairwise_flatten]
  constructor
  · intro l hl
    obtain ⟨f, -, rfl⟩ := List.mem_map.mp hl
    rw [List.pairwise_map]
    refine (List.pairwise_lt_range.sublist List.filter_sublist).imp fun hlt => ?_
    exact .inr ⟨rfl, hlt⟩
  · rw [List.pairwise_map]
    have hfields : [Field.title, .body, .passage].Pairwise fun f g => f.code < g.code := by decide
    refine hfields.imp fun {f g} hfg a ha b hb => ?_
    obtain ⟨j, -, rfl⟩ := List.mem_map.mp ha
    obtain ⟨k, -, rfl⟩ := List.mem_map.mp hb
    exact .inl hfg

theorem mem_objectPositions {tokens : Corpus} {t : Bytes} {object : ObjectType × Nat} {x : Nat × Nat} :
    x ∈ objectPositions tokens t object ↔
      ∃ f : Field, x.1 = f.code ∧ (tokens object.1 object.2 f)[x.2]? = some t := by
  rw [objectPositions, List.mem_flatMap]
  constructor
  · rintro ⟨f, -, hx⟩
    obtain ⟨j, hj, rfl⟩ := List.mem_map.mp hx
    exact ⟨f, rfl, mem_tokenPositions.mp hj⟩
  · rintro ⟨f, hf, hget⟩
    refine ⟨f, by cases f <;> simp, List.mem_map.mpr ⟨x.2, mem_tokenPositions.mpr hget, ?_⟩⟩
    rw [← hf]

theorem filter_objectPositions (tokens : Corpus) (t : Bytes) (object : ObjectType × Nat) (f : Field) :
    ((objectPositions tokens t object).filter fun x => x.1 = f.code).length =
      (tokens object.1 object.2 f).count t := by
  have hfield : ∀ g : Field, (((tokenPositions t (tokens object.1 object.2 g)).map fun j =>
      (g.code, j)).filter fun x => x.1 = f.code).length =
      if g = f then (tokens object.1 object.2 g).count t else 0 := by
    intro g
    rw [List.filter_map, List.length_map]
    by_cases hg : g = f
    · subst hg
      rw [if_pos rfl, List.filter_eq_self.mpr fun j _ => by simp, length_tokenPositions]
    · rw [if_neg hg, List.filter_eq_nil_iff.mpr fun j _ h => hg (Field.code_injective (by simpa using h))]
      rfl
  rw [objectPositions, List.flatMap_cons, List.flatMap_cons, List.flatMap_cons, List.flatMap_nil,
    List.filter_append, List.filter_append, List.filter_append, List.length_append, List.length_append,
    List.length_append, hfield, hfield, hfield]
  cases f with
  | title => simp
  | body => simp
  | passage => simp

/-- What a posting says of a token and an object. -/
structure Posting.Of (tokens : Corpus) (t : Bytes) (object : ObjectType × Nat) (p : Posting) : Prop where
  objectType : p.objectType = object.1.code
  objectOrdinal : p.objectOrdinal = object.2
  termFrequency : ∀ f : Field, p.termFrequency.get f.code = (tokens object.1 object.2 f).count t
  fieldLength : ∀ f : Field, t ∈ tokens object.1 object.2 f →
    p.fieldLength.get f.code = (tokens object.1 object.2 f).length
  positionCount : p.positionCount = (objectPositions tokens t object).length

section Written

variable {tokens : Corpus} {occurrences g items : List Occurrence} (h : Lists tokens occurrences)
  (hg : g ∈ termGroups occurrences) (hitems : items ∈ g.splitBy sameObject) {a : Occurrence}
  (ha : a ∈ items)

include h hg hitems ha

/-- The occurrences in an object are the positions of the term. -/
theorem Lists.map_place : items.map (fun o => (o.field.code, o.position)) =
    objectPositions tokens (groupTerm g) a.object := by
  refine List.Pairwise.eq_of_mem_iff (r := PlaceLt) ?_ (objectPositions_sorted _ _ _) fun x => ?_
  · rw [List.pairwise_map]
    refine (h.object_sorted hg hitems).imp fun hab => ?_
    rcases hab with hlt | ⟨hf, hlt⟩
    · exact .inl hlt
    · exact .inr ⟨congrArg Field.code hf, hlt⟩
  · rw [mem_objectPositions, List.mem_map]
    constructor
    · rintro ⟨o, ho, rfl⟩
      obtain ⟨hocc, hterm, hobject⟩ := (mem_object hg hitems ha).mp ho
      obtain ⟨htype, hordinal⟩ := Prod.mk.inj hobject
      refine ⟨o.field, rfl, ?_⟩
      have hget := ((h.mem o).mp hocc).1
      rw [htype, hordinal, hterm] at hget
      exact hget
    · rintro ⟨f, hf, hget⟩
      refine ⟨⟨groupTerm g, a.objectType, a.objectOrdinal, f, x.2,
        (tokens a.objectType a.objectOrdinal f).length⟩, ?_, ?_⟩
      · exact (mem_object hg hitems ha).mpr ⟨(h.mem _).mpr ⟨hget, rfl⟩, rfl, rfl⟩
      · rw [← hf]

/-- The posting of an object says what the corpus does. -/
theorem Lists.posting_of {totals : LexicalTotals} (hobject : ObjectItems totals items) {offset : Nat}
    {p : Posting} (hp : objectPosting offset items = some p) :
    p.Of tokens (groupTerm g) a.object := by
  have hplace := h.map_place hg hitems ha
  obtain ⟨o, ho, rfl⟩ := Option.map_eq_some_iff.mp hp
  have homem := List.mem_of_head? ho
  obtain ⟨htype, hordinal⟩ := Prod.mk.inj (hobject.one o homem a ha)
  refine ⟨congrArg ObjectType.code htype, hordinal, fun f => ?_, fun f hf => ?_, ?_⟩
  · rw [buildPosting_termFrequency, ← filter_objectPositions, ← hplace, List.filter_map, List.length_map,
      fieldFrequency]
    congr 1
    refine List.filter_congr fun x _ => ?_
    simp only [Function.comp_apply, decide_eq_decide]
    exact ⟨congrArg _, Field.code_injective⟩
  · obtain ⟨j, hj⟩ := List.getElem?_of_mem hf
    have hmem : (⟨groupTerm g, a.objectType, a.objectOrdinal, f, j,
        (tokens a.objectType a.objectOrdinal f).length⟩ : Occurrence) ∈ items :=
      (mem_object hg hitems ha).mpr ⟨(h.mem _).mpr ⟨hj, rfl⟩, rfl, rfl⟩
    rw [buildPosting_fieldLength]
    exact hobject.fieldLength_eq hmem
  · rw [← hplace, List.length_map]
    rfl

end Written

/-! ## The objects of a term -/

section Objects

variable {tokens : Corpus} {occurrences g : List Occurrence} (h : Lists tokens occurrences)
  (hg : g ∈ termGroups occurrences)

include h hg

/-- A term is in the objects of its group. -/
theorem Lists.mem_groupObjects {object : ObjectType × Nat} :
    object ∈ groupObjects g ↔ tokens.Has (groupTerm g) object := by
  rw [mem_groupObjects_iff hg]
  constructor
  · rintro ⟨o, ho, hterm, rfl⟩
    rw [← hterm]
    exact ⟨o.field, List.mem_of_getElem? ((h.mem o).mp ho).1⟩
  · rintro ⟨f, hf⟩
    obtain ⟨j, hj⟩ := List.getElem?_of_mem hf
    exact ⟨⟨groupTerm g, object.1, object.2, f, j, (tokens object.1 object.2 f).length⟩,
      (h.mem _).mpr ⟨hj, rfl⟩, rfl, rfl⟩

end Objects

/-- Documents come first. -/
theorem document_iff {objects : List (ObjectType × Nat)} (h : objects.Pairwise ObjectLt) {j : Nat}
    {object : ObjectType × Nat} (hj : objects[j]? = some object) :
    object.1 = .document ↔ j < (objects.filter fun x => x.1 = .document).length := by
  induction objects generalizing j with
  | nil => cases hj
  | cons x objects ih =>
    rw [List.pairwise_cons] at h
    rw [List.filter_cons]
    cases hx : x.1 with
    | document =>
      rw [if_pos (decide_eq_true rfl), List.length_cons]
      cases j with
      | zero =>
        cases hj
        simp [hx]
      | succ j =>
        rw [ih h.2 hj]
        omega
    | passage =>
      have hpassage : ∀ y ∈ objects, y.1 = .passage := by
        intro y hy
        cases hy' : y.1 with
        | passage => rfl
        | document =>
          rcases h.1 y hy with hlt | ⟨heq, -⟩
          · rw [hx, hy'] at hlt
            exact absurd hlt (by decide)
          · rw [hx, hy'] at heq
            cases heq
      have hnone : objects.filter (fun x => x.1 = .document) = [] := by
        refine List.filter_eq_nil_iff.mpr fun y hy hdoc => ?_
        rw [decide_eq_true_eq, hpassage y hy] at hdoc
        cases hdoc
      have hobject : object.1 = .passage := by
        rcases List.mem_cons.mp (List.mem_of_getElem? hj) with rfl | hmem
        · exact hx
        · exact hpassage object hmem
      rw [if_neg (by decide), hnone, hobject]
      simp

/-- The number of objects of a type in a list of objects. -/
theorem ncard_objects {objects : List (ObjectType × Nat)} (h : objects.Pairwise ObjectLt)
    (objectType : ObjectType) : Set.ncard {i | (objectType, i) ∈ objects} =
      (objects.filter fun x => x.1 = objectType).length := by
  have hnodup : ((objects.filter fun x => x.1 = objectType).map Prod.snd).Nodup := by
    rw [List.nodup_iff_pairwise_ne, List.pairwise_map]
    refine (h.sublist List.filter_sublist).imp_of_mem fun {a b} ha hb hab heq => ?_
    rw [List.mem_filter, decide_eq_true_eq] at ha hb
    exact hab.ne (Prod.ext (ha.2.trans hb.2.symm) heq)
  have hset : {i | (objectType, i) ∈ objects} =
      ↑((objects.filter fun x => x.1 = objectType).map Prod.snd).toFinset := by
    ext i
    simp only [Set.mem_ofPred_eq, List.coe_toFinset, List.mem_map, List.mem_filter, decide_eq_true_eq]
    constructor
    · exact fun hi => ⟨(objectType, i), ⟨hi, rfl⟩, rfl⟩
    · rintro ⟨⟨t, i'⟩, ⟨hmem, rfl⟩, rfl⟩
      exact hmem
  rw [hset, Set.ncard_coe_finset, List.toFinset_card_of_nodup hnodup, List.length_map]

/-! ## The segment represents the corpus -/

/-- Asked for a term, the segment gives one posting for each object that has it, in order, with its
frequencies, the lengths of the fields that have it, and its positions; and it counts the documents and the
passages that have it. -/
structure LexicalSegment.Gives (s : LexicalSegment) (tokens : Corpus) (t : Bytes) (e : TermEntry) :
    Prop where
  postings : ∃ objects ps, objects.Pairwise ObjectLt ∧ (∀ object, object ∈ objects ↔ tokens.Has t object) ∧
    s.postings e = .ok ps ∧
    List.Forall₂ (fun object p => p.Of tokens t object ∧
      ∀ (k : Nat) x, (objectPositions tokens t object)[k]? = some x → s.positionAt e p k = .ok x) objects ps
  typeFrequency : ∀ objectType,
    s.typeFrequency e objectType = .ok (Set.ncard {i | tokens.Has t (objectType, i)})

section Represents

variable {tokens : Corpus} {occurrences g : List Occurrence} {totals : LexicalTotals}
  {s : LexicalSegment} {e : TermEntry} (h : Lists tokens occurrences)
  (hg : g ∈ termGroups occurrences) (hsmall : s.maps.Small)
  (htotals : ∀ t, totals.objects t < 2 ^ 64) (hitems : TermItems totals g)
  (hstored : Stored s.maps g e)

include h hg hsmall htotals hitems hstored

/-- The type of a posting is that of the object it is for. -/
theorem Stored.typeFrequency_eq (objectType : ObjectType) : s.typeFrequency e objectType =
    .ok ((groupObjects g).filter fun x => x.1 = objectType).length := by
  have hsorted := groupObjects_sorted hg
  have hlen : e.documentFrequency = (groupObjects g).length := by
    rw [hstored.documentFrequency, length_groupObjects]
  have hloop : s.typeLoop e e.documentFrequency 0 e.documentFrequency =
      .ok ((groupObjects g).filter fun x => x.1 = .document).length := by
    refine LexicalSegment.typeLoop_eq _ _ _ (Nat.sub_le _ _) (Nat.zero_le _) ?_ fun j hj => ?_
    · rw [hlen]
      exact List.length_filter_le _ _
    · rw [hstored.documentFrequency] at hj
      have hget : (g.splitBy sameObject)[j]? = some _ := List.getElem?_eq_getElem hj
      obtain ⟨p, hp, hposting⟩ := hstored.postingAt hsmall htotals hitems hget
      obtain ⟨a, ha, heq⟩ := objectOf_eq (hitems.2.nonempty _ (List.mem_of_getElem? hget))
      have hof := h.posting_of hg (List.mem_of_getElem? hget) ha
        (hitems.2.items _ (List.mem_of_getElem? hget)) hposting
      refine ⟨p, hp, ?_⟩
      have hobject : (groupObjects g)[j]? = some a.object := by
        rw [groupObjects, List.getElem?_map, hget, ← heq]
        rfl
      rw [← document_iff hsorted hobject, hof.objectType]
      cases a.object.1 with
      | document => decide
      | passage => decide
  rw [LexicalSegment.typeFrequency, hloop, ok_bind]
  cases objectType with
  | document => rfl
  | passage =>
    show Except.ok _ = _
    rw [Except.ok.injEq, hlen]
    have hsplit := List.length_eq_length_filter_add (l := groupObjects g) fun x => decide (x.1 = .document)
    have hcompl : ((groupObjects g).filter fun x => !decide (x.1 = .document)) =
        (groupObjects g).filter fun x => decide (x.1 = .passage) := by
      refine List.filter_congr fun x _ => ?_
      cases x.1 <;> rfl
    rw [hcompl] at hsplit
    dsimp only
    omega

/-- The parts of a group that is stored give its term. -/
theorem Stored.gives : s.Gives tokens (groupTerm g) e where
  postings := by
    refine ⟨groupObjects g, _, groupObjects_sorted hg, fun object => h.mem_groupObjects hg,
      hstored.postings hsmall htotals hitems, ?_⟩
    have hne := hitems.2.nonempty
    refine List.forall₂_iff_get.mpr ⟨?_, fun j h₁ h₂ => ?_⟩
    · rw [length_buildPostings hne, length_groupObjects]
      rfl
    · rw [length_groupObjects] at h₁
      have hget : (g.splitBy sameObject)[j]? = some _ := List.getElem?_eq_getElem h₁
      have hmem := List.mem_of_getElem? hget
      have hposting := (getElem?_buildPostings hne 0 j).symm.trans (List.getElem?_eq_getElem h₂)
      rw [hget, Option.bind_some, Nat.zero_add] at hposting
      obtain ⟨a, ha, heq⟩ := objectOf_eq (hne _ hmem)
      have hobject : (groupObjects g).get ⟨j, by rw [length_groupObjects]; exact h₁⟩ = a.object := by
        rw [← heq, List.get_eq_getElem]
        exact List.getElem_map _
      rw [hobject]
      refine ⟨h.posting_of hg hmem ha (hitems.2.items _ hmem) hposting, fun k x hx => ?_⟩
      rw [← h.map_place hg hmem ha, List.getElem?_map] at hx
      obtain ⟨o, ho, rfl⟩ := Option.map_eq_some_iff.mp hx
      exact hstored.positionAt hsmall hitems hget hposting ho
  typeFrequency objectType := by
    rw [hstored.typeFrequency_eq h hg hsmall htotals hitems, ← ncard_objects (groupObjects_sorted hg)]
    simp only [h.mem_groupObjects hg]

end Represents

/-- The postings of all terms: a term and an object that has it. -/
theorem ncard_postings {tokens : Corpus} {occurrences : List Occurrence}
    (h : Lists tokens occurrences) :
    Set.ncard {x : Bytes × (ObjectType × Nat) | tokens.Has x.1 x.2} =
      ((termGroups occurrences).map objectCount).sum := by
  set pairs := (termGroups occurrences).flatMap fun g => (groupObjects g).map fun object =>
    (groupTerm g, object) with hpairs
  have hnodup : pairs.Nodup := by
    rw [hpairs, List.nodup_flatMap]
    constructor
    · intro g hg
      refine List.Nodup.map (fun _ _ heq => (Prod.mk.inj heq).2) ?_
      exact (groupObjects_sorted hg).imp fun hlt => hlt.ne
    · refine (List.pairwise_map.mp (groups_sorted occurrences)).imp fun {g g'} hlt x hx hx' => ?_
      obtain ⟨_, -, rfl⟩ := List.mem_map.mp hx
      obtain ⟨_, -, heq⟩ := List.mem_map.mp hx'
      rw [(Prod.mk.inj heq).1, termCompare_eq_eq.mpr rfl] at hlt
      cases hlt
  have hset : {x : Bytes × (ObjectType × Nat) | tokens.Has x.1 x.2} = ↑pairs.toFinset := by
    ext ⟨t, object⟩
    rw [List.coe_toFinset]
    simp only [Set.mem_ofPred_eq, hpairs, List.mem_flatMap, List.mem_map]
    constructor
    · rintro ⟨f, hf⟩
      obtain ⟨j, hj⟩ := List.getElem?_of_mem hf
      obtain ⟨g, hg, hterm, -⟩ := exists_group ((h.mem ⟨t, object.1, object.2, f, j,
        (tokens object.1 object.2 f).length⟩).mpr ⟨hj, rfl⟩)
      refine ⟨g, hg, object, (h.mem_groupObjects hg).mpr ?_, by rw [hterm]⟩
      rw [hterm]
      exact ⟨f, hf⟩
    · rintro ⟨g, hg, object', hobject, heq⟩
      obtain ⟨rfl, rfl⟩ := Prod.mk.inj heq
      exact (h.mem_groupObjects hg).mp hobject
  rw [hset, Set.ncard_coe_finset, List.toFinset_card_of_nodup hnodup, hpairs, List.length_flatMap]
  refine congrArg List.sum (List.map_congr_left fun g _ => ?_)
  rw [List.length_map, length_groupObjects]

/-- The segment represents the corpus. -/
structure LexicalSegment.Represents (s : LexicalSegment) (tokens : Corpus) : Prop where
  absent : ∀ t, (∀ object, ¬ tokens.Has t object) → s.termFind t = none
  present : ∀ t object, tokens.Has t object → ∃ e, s.termFind t = some e ∧ s.Gives tokens t e
  postingCount : s.totals.postingCount =
    Set.ncard {x : Bytes × (ObjectType × Nat) | tokens.Has x.1 x.2}

/-- The parts of a group stand in the files. -/
theorem stored_written {occurrences : List Occurrence} {documents passages : Nat} {totals : PerField}
    {generation : UInt64} {maps : LexicalMaps}
    (hwrite : writeComponents generation (buildPayloads occurrences documents passages totals) = .ok maps)
    {k : Nat} {g : List Occurrence} (hk : (termGroups occurrences)[k]? = some g) :
    Stored maps g (buildEntry (0 + k) (56 + partsBefore termPostings 0 (termGroups occurrences) k)
      (12 + partsBefore termPositions 0 (termGroups occurrences) k) g) := by
  obtain ⟨-, hpostings, hpositions⟩ := writeComponents_eq_ok hwrite
  obtain ⟨hp, -⟩ := stands_payload hpostings
  obtain ⟨hq, -⟩ := stands_payload hpositions
  simp only [buildPayloads, stands_append, length_leBytes, Nat.add_assoc, Nat.reduceAdd] at hp
  simp only [buildPayloads, stands_append, length_leBytes, Nat.add_assoc, Nat.reduceAdd] at hq
  obtain ⟨-, -, -, -, -, -, -, -, hp⟩ := hp
  obtain ⟨-, -, hq⟩ := hq
  refine ⟨_, _, _, rfl, ?_, ?_⟩
  · rw [← Nat.add_assoc]
    exact stands_buildParts hp hk
  · rw [← Nat.add_assoc]
    exact stands_buildParts hq hk

/-- The segment of a corpus that was written represents it. -/
theorem represents_written {tokens : Corpus} {occurrences : List Occurrence}
    (h : Lists tokens occurrences) {documents passages : Nat} {totals : PerField}
    (hfits : (buildPayloads occurrences documents passages totals).Fits)
    (hgroups : TermGroups (writtenTotals occurrences documents passages totals) (termGroups occurrences))
    (htotals : TotalsFit documents passages totals) {generation : UInt64} {maps : LexicalMaps}
    (hwrite : writeComponents generation (buildPayloads occurrences documents passages totals) = .ok maps) :
    (writtenSegment maps generation occurrences documents passages totals).Represents tokens := by
  set s := writtenSegment maps generation occurrences documents passages totals with hs
  have hsmall : s.maps.Small := small_of_mapComponents (mapComponents_written hwrite hfits (.inl rfl))
  have hcounts : ∀ t, (writtenTotals occurrences documents passages totals).objects t < 2 ^ 64 := by
    intro t
    cases t with
    | document => exact htotals.documents
    | passage => exact htotals.passages
  have hsorted : s.terms.Pairwise fun e e' => termCompare e.term e'.term = .lt := by
    have hmap := hgroups.sorted
    rw [← map_term_buildEntries 0 56 12, List.pairwise_map] at hmap
    exact hmap
  refine ⟨fun t ht => ?_, fun t object hobject => ?_, (ncard_postings h).symm⟩
  · cases hfind : s.termFind t with
    | none => rfl
    | some e =>
      obtain ⟨hmem, rfl⟩ := (LexicalSegment.termFind_eq_some hsorted).mp hfind
      obtain ⟨k, hk⟩ := List.getElem?_of_mem hmem
      rw [hs, writtenSegment, getElem?_buildEntries] at hk
      obtain ⟨g, hg, rfl⟩ := Option.map_eq_some_iff.mp hk
      have hgmem := List.mem_of_getElem? hg
      obtain ⟨items, hitems⟩ := List.exists_mem_of_ne_nil _
        (List.splitBy_ne_nil.mpr (hgroups.items g hgmem).1 : g.splitBy sameObject ≠ [])
      have hmem' : objectOf items ∈ groupObjects g := List.mem_map.mpr ⟨items, hitems, rfl⟩
      exact absurd ((h.mem_groupObjects hgmem).mp hmem') (ht _)
  · obtain ⟨f, hf⟩ := hobject
    obtain ⟨j, hj⟩ := List.getElem?_of_mem hf
    obtain ⟨g, hg, hterm, -⟩ := exists_group ((h.mem ⟨t, object.1, object.2, f, j,
      (tokens object.1 object.2 f).length⟩).mpr ⟨hj, rfl⟩)
    obtain ⟨k, hk⟩ := List.getElem?_of_mem hg
    have hentry : s.terms[k]? = some _ :=
      (getElem?_buildEntries 0 56 12 (termGroups occurrences) k).trans (by rw [hk]; rfl)
    have hgives := (stored_written hwrite hk).gives (s := s) h hg hsmall hcounts (hgroups.items g hg)
    have hterm' : t = groupTerm g := hterm.symm
    subst hterm'
    exact ⟨_, (LexicalSegment.termFind_eq_some hsorted).mpr ⟨List.mem_of_getElem? hentry, rfl⟩, hgives⟩

theorem length_objectsOccurrences (objectType : ObjectType) (i : Nat) (xs : List (Field → List Bytes)) :
    (objectsOccurrences objectType i xs).length =
      tokenCount xs .title + tokenCount xs .body + tokenCount xs .passage := by
  induction xs generalizing i with
  | nil => rfl
  | cons x xs ih =>
    simp only [objectsOccurrences, objectOccurrences, List.length_append, length_fieldOccurrences, ih,
      tokenCount, List.map_cons, List.sum_cons]
    omega

/-- The number of tokens of each field in the documents and passages. -/
def fieldTotals (tokenize : Tokenize) (documents : List Document) (passages : List Passage) : PerField where
  title := (documents.map fun d => (textTokens tokenize d.title).length).sum
  body := (documents.map fun d => (textTokens tokenize d.body).length).sum
  passage := (passages.map fun p => (textTokens tokenize p.text).length).sum

theorem tokenCount_documents (tokenize : Tokenize) (documents : List Document) (f : Field) :
    tokenCount (documents.map (documentTokens tokenize)) f =
      (documents.map fun d => (documentTokens tokenize d f).length).sum := by
  rw [tokenCount, List.map_map]
  rfl

theorem tokenCount_passages (tokenize : Tokenize) (passages : List Passage) (f : Field) :
    tokenCount (passages.map (passageTokens tokenize)) f =
      (passages.map fun p => (passageTokens tokenize p f).length).sum := by
  rw [tokenCount, List.map_map]
  rfl

theorem sum_map_zero {α : Type} (l : List α) : (l.map fun _ => 0).sum = 0 := by
  induction l with
  | nil => rfl
  | cons a l ih => rw [List.map_cons, List.sum_cons, ih]

/-- The writer collects the tokens of the corpus, and writes their payloads. -/
theorem lexicalWrite_eq_ok {tokenize : Tokenize} {generation : UInt64} {documents : List Document}
    {passages : List Passage} {maps : LexicalMaps}
    (h : lexicalWrite tokenize generation documents passages = .ok maps) :
    (corpus tokenize documents passages).Limits documents.length passages.length ∧
      (corpusOccurrences tokenize documents passages).length =
        (fieldTotals tokenize documents passages).title +
        (fieldTotals tokenize documents passages).body +
        (fieldTotals tokenize documents passages).passage ∧
      documents.length ≤ maxSegmentDocuments ∧ passages.length ≤ maxSegmentPassages ∧
      (buildPayloads (corpusOccurrences tokenize documents passages) documents.length passages.length
        (fieldTotals tokenize documents passages)).Fits ∧
      writeComponents generation (buildPayloads (corpusOccurrences tokenize documents passages)
        documents.length passages.length (fieldTotals tokenize documents passages)) = .ok maps := by
  rw [lexicalWrite] at h
  split at h
  · cases h
  · rename_i harguments
    obtain ⟨⟨inDocuments, titles, bodies⟩, hdocuments, h⟩ := bind_eq_ok.mp h
    obtain ⟨⟨inPassages, texts⟩, hpassages, h⟩ := bind_eq_ok.mp h
    obtain ⟨rfl, htitles, hbodies, hwdocuments⟩ := collectDocuments_eq_ok hdocuments
    obtain ⟨rfl, htexts, hwpassages⟩ := collectPassages_eq_ok hpassages
    rw [tokenCount_documents] at htitles hbodies
    rw [tokenCount_passages] at htexts
    have htotals : (⟨titles, bodies, texts⟩ : PerField) = fieldTotals tokenize documents passages := by
      rw [htitles, hbodies, htexts]
      rfl
    refine ⟨limits_corpus tokenize documents passages hwdocuments hwpassages, ?_, by omega, by omega, ?_⟩
    · rw [corpusOccurrences, List.length_append, length_objectsOccurrences, length_objectsOccurrences, tokenCount_documents,
        tokenCount_documents, tokenCount_documents, tokenCount_passages, tokenCount_passages,
        tokenCount_passages]
      show _ + (documents.map fun _ => 0).sum + ((passages.map fun _ => 0).sum +
        (passages.map fun _ => 0).sum + _) = _
      rw [sum_map_zero, sum_map_zero]
      rw [Nat.add_zero, Nat.add_zero, Nat.zero_add]
      rfl
    · rw [← htotals, corpusOccurrences]
      dsimp only at h
      rw [writeOccurrences] at h
      split at h
      · cases h
      · rename_i hfits
        exact ⟨⟨by omega, by omega, by omega⟩, h⟩

/-- What is written has totals and groups that can be read. -/
theorem fits_written {tokenize : Tokenize} {generation : UInt64} {documents : List Document}
    {passages : List Passage} {maps : LexicalMaps}
    (h : lexicalWrite tokenize generation documents passages = .ok maps) :
    TermGroups (writtenTotals (corpusOccurrences tokenize documents passages) documents.length
        passages.length (fieldTotals tokenize documents passages))
      (termGroups (corpusOccurrences tokenize documents passages)) ∧
      TotalsFit documents.length passages.length (fieldTotals tokenize documents passages) := by
  obtain ⟨hlimits, hlength, hdocuments, hpassages, hfits, -⟩ := lexicalWrite_eq_ok h
  have hfew := occurrences_few hfits
  rw [maxSegmentDocuments] at hdocuments
  rw [maxSegmentPassages] at hpassages
  refine ⟨(lists_corpus tokenize documents passages).groups_written hlimits hfew, by omega, by omega,
    fun f => ?_⟩
  cases f with
  | title => exact show (fieldTotals tokenize documents passages).title < 2 ^ 64 by omega
  | body => exact show (fieldTotals tokenize documents passages).body < 2 ^ 64 by omega
  | passage => exact show (fieldTotals tokenize documents passages).passage < 2 ^ 64 by omega

/-- The segment that is opened from what was written. -/
theorem lexicalSegmentOpen_lexicalWrite {tokenize : Tokenize} {generation : UInt64}
    {documents : List Document} {passages : List Passage} {maps : LexicalMaps}
    (h : lexicalWrite tokenize generation documents passages = .ok maps) {expectedGeneration : Nat}
    (hexpected : expectedGeneration = 0 ∨ expectedGeneration = generation.toNat) :
    lexicalSegmentOpen maps expectedGeneration =
      .ok (writtenSegment maps generation (corpusOccurrences tokenize documents passages)
        documents.length passages.length (fieldTotals tokenize documents passages)) := by
  obtain ⟨-, -, -, -, hfits, hwrite⟩ := lexicalWrite_eq_ok h
  obtain ⟨hgroups, htotals⟩ := fits_written h
  exact lexicalSegmentOpen_written hfits hgroups htotals hwrite hexpected

/-- **The lexical files represent the corpus.**  Whatever the tokenizer, if the files were written, they are
accepted; a term that is no token of a field is not found, and of every other the segment gives the objects
that have it, their frequencies, lengths and positions; and the totals are those of the corpus. -/
theorem lexical_files_represent {tokenize : Tokenize} {generation : UInt64} {documents : List Document}
    {passages : List Passage} {maps : LexicalMaps}
    (h : lexicalWrite tokenize generation documents passages = .ok maps) {expectedGeneration : Nat}
    (hexpected : expectedGeneration = 0 ∨ expectedGeneration = generation.toNat) :
    ∃ s, lexicalSegmentOpen maps expectedGeneration = .ok s ∧
      s.Represents (corpus tokenize documents passages) ∧
      s.totals.documentCount = documents.length ∧ s.totals.passageCount = passages.length ∧
      s.totals.fieldTokenCount = fieldTotals tokenize documents passages ∧
      s.totals.positionCount = s.totals.fieldTokenCount.title + s.totals.fieldTokenCount.body +
        s.totals.fieldTokenCount.passage := by
  obtain ⟨-, hlength, -, -, hfits, hwrite⟩ := lexicalWrite_eq_ok h
  obtain ⟨hgroups, htotals⟩ := fits_written h
  exact ⟨_, lexicalSegmentOpen_lexicalWrite h hexpected,
    represents_written (lists_corpus tokenize documents passages) hfits hgroups htotals hwrite,
    rfl, rfl, rfl, hlength⟩

/-- A tokenizer that makes a token of every byte. -/
def byteTokens : Tokenize := fun text => .ok (text.map fun b => [b])

/-- A document with the title `aba` and the body `b`. -/
def sampleDocument : Document := ⟨[1], [], [97, 98, 97], [98], [], 0⟩

/-- A passage of it with the text `a`. -/
def samplePassage : Passage := ⟨[2], [1], [97], 0, 0, 1⟩

theorem lexical_files_represent_sample :
    ∃ maps s, lexicalWrite byteTokens 1 [sampleDocument] [samplePassage] = .ok maps ∧
      lexicalSegmentOpen maps 1 = .ok s ∧
      s.Represents (corpus byteTokens [sampleDocument] [samplePassage]) ∧
      s.totals.fieldTokenCount = ⟨3, 1, 1⟩ := by
  have hsome : (lexicalWrite byteTokens 1 [sampleDocument] [samplePassage]).toOption.isSome = true := by
    decide +kernel
  cases hwrite : lexicalWrite byteTokens 1 [sampleDocument] [samplePassage] with
  | error status =>
    rw [hwrite] at hsome
    cases hsome
  | ok maps =>
    obtain ⟨s, hopen, hrepresents, -, -, hfields, -⟩ := lexical_files_represent hwrite (.inr rfl)
    exact ⟨maps, s, rfl, hopen, hrepresents, hfields⟩

end Yappod

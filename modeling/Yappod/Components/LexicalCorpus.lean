import Yappod.Components.LexicalRoundTrip

/-!
# The corpus in the lexical files

A corpus is a function: the tokens of a field of an object.  `Lists tokens occurrences` says that a list of
occurrences is that of a corpus, each once.  The lists that `collectDocuments` and `collectPassages` make are,
and sorting and cutting them as the writer does gives one group for each token, in it one for each object
that the token is in, and in that the positions of the token in the object.
-/

set_option autoImplicit false

namespace Yappod

open Std

/-! ## The order of the occurrences

`term_compare` is the comparison of lists, so that it is a linear order, and `occurrence_compare` compares by
one key after the other. -/

theorem termCompare_eq_compare (a b : Bytes) : termCompare a b = compare a b := by
  induction a generalizing b with
  | nil => cases b <;> rfl
  | cons x a ih =>
    cases b with
    | nil => rfl
    | cons y b =>
      have hcompare : compare x y = if x < y then .lt else if x = y then .eq else .gt := rfl
      rw [termCompare, List.compare_cons_cons, ih, hcompare]
      by_cases hlt : x < y
      · rw [if_pos hlt, if_pos hlt]
        rfl
      · rw [if_neg hlt, if_neg hlt]
        by_cases hgt : y < x
        · rw [if_pos hgt, if_neg fun h : x = y => UInt8.lt_irrefl y (h ▸ hgt)]
          rfl
        · rw [if_neg hgt, if_pos (UInt8.le_antisymm (UInt8.not_lt.mp hgt) (UInt8.not_lt.mp hlt))]
          rfl

theorem termCompare_eq_eq {a b : Bytes} : termCompare a b = .eq ↔ a = b := by
  rw [termCompare_eq_compare]
  exact LawfulEqOrd.compare_eq_iff_eq

theorem termCompare_eq_lt {a b : Bytes} : termCompare a b = .gt ↔ termCompare b a = .lt := by
  rw [termCompare_eq_compare, termCompare_eq_compare]
  exact OrientedCmp.gt_iff_lt

theorem termCompare_trans {a b c : Bytes} (hab : termCompare a b = .lt)
    (hbc : termCompare b c = .lt) : termCompare a c = .lt := by
  rw [termCompare_eq_compare] at hab hbc ⊢
  exact TransCmp.lt_trans hab hbc

theorem occurrenceCompare_eq : occurrenceCompare =
    compareLex (compareOn (·.term)) (compareLex (compareOn (·.objectType.code))
      (compareLex (compareOn (·.objectOrdinal)) (compareLex (compareOn (·.field.code))
        (compareOn (·.position))))) := by
  funext a b
  rw [occurrenceCompare, termCompare_eq_compare]
  rfl

instance : TransCmp occurrenceCompare := by
  rw [occurrenceCompare_eq]
  infer_instance

/-- One occurrence comes before another: by their terms, then by their objects, and then by their
positions. -/
theorem occurrenceCompare_eq_lt {a b : Occurrence} : occurrenceCompare a b = .lt ↔
    termCompare a.term b.term = .lt ∨ a.term = b.term ∧
      (ObjectOrder a.objectType.code a.objectOrdinal b ∨ a.object = b.object ∧ PositionOrder a b) := by
  have htype : a.objectType.code = b.objectType.code ↔ a.objectType = b.objectType :=
    ⟨ObjectType.code_injective, congrArg _⟩
  have hfield : a.field.code = b.field.code ↔ a.field = b.field :=
    ⟨Field.code_injective, congrArg _⟩
  rw [occurrenceCompare]
  simp only [Ordering.then_eq_lt, termCompare_eq_eq, Nat.compare_eq_lt, Nat.compare_eq_eq, ObjectOrder,
    PositionOrder, Occurrence.object, Prod.mk.injEq, htype, hfield]
  tauto

theorem occurrenceCompare_eq_eq {a b : Occurrence} (h : occurrenceCompare a b = .eq) :
    a.term = b.term ∧ a.object = b.object ∧ a.field = b.field ∧ a.position = b.position := by
  rw [occurrenceCompare] at h
  simp only [Ordering.then_eq_eq, termCompare_eq_eq, Nat.compare_eq_eq] at h
  obtain ⟨hterm, htype, hordinal, hfield, hposition⟩ := h
  exact ⟨hterm, Prod.ext (ObjectType.code_injective htype) hordinal, Field.code_injective hfield,
    hposition⟩

/-! ## A corpus -/

/-- The tokens of each field of each object. -/
abbrev Corpus := ObjectType → Nat → Field → List Bytes

/-- The occurrences are those of the tokens of the corpus, each once. -/
structure Lists (tokens : Corpus) (occurrences : List Occurrence) : Prop where
  mem : ∀ o, o ∈ occurrences ↔
    (tokens o.objectType o.objectOrdinal o.field)[o.position]? = some o.term ∧
      o.fieldLength = (tokens o.objectType o.objectOrdinal o.field).length
  nodup : occurrences.Nodup

/-- The occurrences of the tokens of one field. -/
def fieldOccurrences (tokens : List Bytes) (objectType : ObjectType) (objectOrdinal : Nat)
    (field : Field) : List Occurrence :=
  tokens.mapIdx fun i t => ⟨t, objectType, objectOrdinal, field, i, tokens.length⟩

theorem nodup_fieldOccurrences (tokens : List Bytes) (objectType : ObjectType) (objectOrdinal : Nat)
    (field : Field) : (fieldOccurrences tokens objectType objectOrdinal field).Nodup := by
  have hpositions : (fieldOccurrences tokens objectType objectOrdinal field).map (·.position) =
      List.range tokens.length := by
    refine List.ext_getElem ?_ fun i _ _ => ?_
    · rw [List.length_map, fieldOccurrences, List.length_mapIdx, List.length_range]
    · simp [fieldOccurrences]
  refine List.Nodup.of_map (·.position) ?_
  rw [hpositions]
  exact List.nodup_range

/-- The limits that the writer checks: the objects it counts, and the lengths of the tokens. -/
structure Corpus.Limits (tokens : Corpus) (documents passages : Nat) : Prop where
  documents : ∀ i f, tokens .document i f ≠ [] → i < documents
  passages : ∀ i f, tokens .passage i f ≠ [] → i < passages
  token : ∀ t i f, ∀ w ∈ tokens t i f, w ≠ [] ∧ w.length < 2 ^ 32

namespace Lists

variable {tokens : Corpus} {occurrences : List Occurrence} (h : Lists tokens occurrences)

include h

/-- An occurrence is determined by where it is. -/
theorem eq_of_place {a b : Occurrence} (ha : a ∈ occurrences) (hb : b ∈ occurrences)
    (hobject : a.object = b.object) (hfield : a.field = b.field) (hposition : a.position = b.position) :
    a = b := by
  obtain ⟨ta, tya, ia, fa, pa, la⟩ := a
  obtain ⟨tb, tyb, ib, fb, pb, lb⟩ := b
  obtain ⟨rfl, rfl⟩ := Prod.mk.inj hobject
  dsimp only at hfield hposition
  subst hfield hposition
  obtain ⟨ha₁, ha₂⟩ := (h.mem _).mp ha
  obtain ⟨hb₁, hb₂⟩ := (h.mem _).mp hb
  dsimp only at ha₁ ha₂ hb₁ hb₂
  rw [ha₁, Option.some.injEq] at hb₁
  rw [hb₁, ha₂, hb₂]

theorem inside {o : Occurrence} (ho : o ∈ occurrences) : o.position < o.fieldLength := by
  obtain ⟨hget, hlen⟩ := (h.mem o).mp ho
  rw [hlen]
  exact (List.getElem?_eq_some_iff.mp hget).1

theorem lengths {a b : Occurrence} (ha : a ∈ occurrences) (hb : b ∈ occurrences)
    (hobject : a.object = b.object) (hfield : a.field = b.field) : a.fieldLength = b.fieldLength := by
  obtain ⟨htype, hordinal⟩ := Prod.mk.inj hobject
  rw [((h.mem a).mp ha).2, ((h.mem b).mp hb).2, htype, hordinal, hfield]

/-- The tokens of one field are among the occurrences. -/
theorem length_le (t : ObjectType) (i : Nat) (f : Field) : (tokens t i f).length ≤ occurrences.length := by
  have hmem : ∀ o ∈ fieldOccurrences (tokens t i f) t i f, o ∈ occurrences := by
    intro o ho
    obtain ⟨j, hj, rfl⟩ := List.mem_mapIdx.mp ho
    exact (h.mem _).mpr ⟨List.getElem?_eq_getElem hj, rfl⟩
  have hle := (List.subperm_of_subset (nodup_fieldOccurrences _ t i f) hmem).length_le
  rwa [fieldOccurrences, List.length_mapIdx] at hle

end Lists

/-! ## Sorting and cutting -/

/-- The order that the occurrences are sorted by. -/
def OccurrenceLe (a b : Occurrence) : Prop := occurrenceCompare a b ≠ .gt

instance : DecidableRel OccurrenceLe := fun a b =>
  inferInstanceAs (Decidable (occurrenceCompare a b ≠ .gt))

instance : Std.Total OccurrenceLe where
  total a b := by
    by_cases h : occurrenceCompare a b = .gt
    · right
      intro h'
      rw [OrientedCmp.gt_iff_lt.mp h'] at h
      cases h
    · exact .inl h

instance : IsTrans Occurrence OccurrenceLe where
  trans a b c hab hbc := by
    rw [OccurrenceLe, Ne, Ordering.ne_gt_iff_isLE] at hab hbc ⊢
    exact TransCmp.isLE_trans hab hbc

/-- The occurrences in the order of the writer. -/
def sortedOccurrences (occurrences : List Occurrence) : List Occurrence :=
  occurrences.insertionSort OccurrenceLe

theorem termGroups_eq (occurrences : List Occurrence) :
    termGroups occurrences = (sortedOccurrences occurrences).splitBy (sameKey (·.term)) := rfl

theorem mem_sortedOccurrences {occurrences : List Occurrence} {o : Occurrence} :
    o ∈ sortedOccurrences occurrences ↔ o ∈ occurrences :=
  (List.perm_insertionSort OccurrenceLe occurrences).mem_iff

/-- No two occurrences of a corpus are equal in the order. -/
theorem Lists.sorted {tokens : Corpus} {occurrences : List Occurrence} (h : Lists tokens occurrences) :
    (sortedOccurrences occurrences).Pairwise fun a b => occurrenceCompare a b = .lt := by
  have hle : (sortedOccurrences occurrences).Pairwise OccurrenceLe :=
    List.pairwise_insertionSort OccurrenceLe occurrences
  have hne : (sortedOccurrences occurrences).Nodup :=
    (List.perm_insertionSort OccurrenceLe occurrences).nodup_iff.mpr h.nodup
  refine (hle.and hne).imp_of_mem fun {a b} ha hb hab => ?_
  cases hcompare : occurrenceCompare a b with
  | lt => rfl
  | gt => exact absurd hcompare hab.1
  | eq =>
    obtain ⟨-, hobject, hfield, hposition⟩ := occurrenceCompare_eq_eq hcompare
    exact absurd (h.eq_of_place (mem_sortedOccurrences.mp ha) (mem_sortedOccurrences.mp hb) hobject hfield
      hposition) hab.2

/-- The order of the terms of the runs. -/
def TermLe (a b : Bytes) : Prop := termCompare a b ≠ .gt

theorem TermLe.antisymm (a b : Bytes) (hab : TermLe a b) (hba : TermLe b a) : a = b := by
  cases hcompare : termCompare a b with
  | eq => exact termCompare_eq_eq.mp hcompare
  | gt => exact absurd hcompare hab
  | lt => exact absurd (termCompare_eq_lt.mpr hcompare) hba

/-- The order of the objects of the runs. -/
def ObjectLe (a b : ObjectType × Nat) : Prop :=
  a.1.code < b.1.code ∨ a.1 = b.1 ∧ a.2 ≤ b.2

theorem ObjectLe.antisymm (a b : ObjectType × Nat) (hab : ObjectLe a b) (hba : ObjectLe b a) : a = b := by
  rcases hab with hab | ⟨htype, hab⟩
  · rcases hba with hba | ⟨htype, -⟩
    · omega
    · rw [htype] at hab
      exact absurd hab (lt_irrefl _)
  · rcases hba with hba | ⟨-, hba⟩
    · rw [htype] at hba
      exact absurd hba (lt_irrefl _)
    · exact Prod.ext htype (Nat.le_antisymm hab hba)

/-- What the order says: of the terms, and of the objects of one term. -/
theorem OccurrenceLe.term {a b : Occurrence} (h : OccurrenceLe a b) : TermLe a.term b.term := by
  intro hgt
  refine h ?_
  rw [occurrenceCompare, hgt]
  rfl

theorem OccurrenceLe.object {a b : Occurrence} (h : OccurrenceLe a b) (hterm : a.term = b.term) :
    ObjectLe a.object b.object := by
  cases hcompare : occurrenceCompare a b with
  | gt => exact absurd hcompare h
  | eq =>
    rw [(occurrenceCompare_eq_eq hcompare).2.1]
    exact .inr ⟨rfl, le_rfl⟩
  | lt =>
    rcases occurrenceCompare_eq_lt.mp hcompare with hlt | ⟨-, (hlt | ⟨heq, hlt⟩) | ⟨heq, -⟩⟩
    · rw [hterm, termCompare_eq_eq.mpr rfl] at hlt
      cases hlt
    · exact .inl hlt
    · exact .inr ⟨ObjectType.code_injective heq, Nat.le_of_lt hlt⟩
    · rw [heq]
      exact .inr ⟨rfl, le_rfl⟩

/-- The order of the objects. -/
def ObjectLt (a b : ObjectType × Nat) : Prop := a.1.code < b.1.code ∨ a.1 = b.1 ∧ a.2 < b.2

theorem ObjectLt.ne {a b : ObjectType × Nat} (h : ObjectLt a b) : a ≠ b := by
  rintro rfl
  rcases h with h | ⟨-, h⟩
  · exact lt_irrefl _ h
  · exact lt_irrefl _ h

/-- The object of occurrences that are all in one. -/
def objectOf (items : List Occurrence) : ObjectType × Nat :=
  (items.head?.map Occurrence.object).getD (.document, 0)

/-- The objects that the occurrences of a term are in. -/
def groupObjects (g : List Occurrence) : List (ObjectType × Nat) := (g.splitBy sameObject).map objectOf

theorem objectOf_eq {items : List Occurrence} (hne : items ≠ []) : ∃ a ∈ items, objectOf items = a.object := by
  cases items with
  | nil => exact absurd rfl hne
  | cons a items => exact ⟨a, List.mem_cons_self, rfl⟩

theorem length_groupObjects (g : List Occurrence) : (groupObjects g).length = objectCount g :=
  List.length_map _

section Groups

variable {occurrences g items : List Occurrence}

theorem sorted_sortedOccurrences (occurrences : List Occurrence) :
    (sortedOccurrences occurrences).Pairwise OccurrenceLe :=
  List.pairwise_insertionSort OccurrenceLe occurrences

theorem sorted_terms (occurrences : List Occurrence) :
    (sortedOccurrences occurrences).Pairwise fun a b => TermLe a.term b.term :=
  (sorted_sortedOccurrences occurrences).imp OccurrenceLe.term

/-- A group has all occurrences of its term. -/
theorem group_eq (hg : g ∈ termGroups occurrences) :
    g = (sortedOccurrences occurrences).filter fun o => o.term = groupTerm g := by
  obtain ⟨o, ho⟩ := List.exists_mem_of_ne_nil g (List.ne_nil_of_mem_splitBy hg)
  have hterm : groupTerm g = o.term := by
    cases g with
    | nil => cases ho
    | cons a g =>
      rw [termGroups_eq] at hg
      exact key_eq_of_mem_run hg List.mem_cons_self ho
  rw [hterm]
  exact run_eq_filter TermLe.antisymm (sorted_terms occurrences) (termGroups_eq occurrences ▸ hg) ho

theorem mem_group (hg : g ∈ termGroups occurrences) {o : Occurrence} :
    o ∈ g ↔ o ∈ occurrences ∧ o.term = groupTerm g := by
  conv_lhs => rw [group_eq hg]
  rw [List.mem_filter, mem_sortedOccurrences, decide_eq_true_eq]

/-- Every occurrence has a group. -/
theorem exists_group {o : Occurrence} (ho : o ∈ occurrences) :
    ∃ g ∈ termGroups occurrences, groupTerm g = o.term ∧ o ∈ g := by
  obtain ⟨g, hg, hog⟩ := @exists_run _ _ _ (fun x : Occurrence => x.term) _ _
    (mem_sortedOccurrences.mpr ho)
  exact ⟨g, hg, ((mem_group hg).mp hog).2.symm, hog⟩

/-- The terms of the groups are in order. -/
theorem groups_sorted (occurrences : List Occurrence) :
    ((termGroups occurrences).map groupTerm).Pairwise fun t t' => termCompare t t' = .lt := by
  rw [List.pairwise_map]
  have hruns := pairwise_runs TermLe.antisymm (sorted_terms occurrences)
  refine (termGroups_eq occurrences ▸ hruns).imp_of_mem fun {g g'} hg hg' hgg => ?_
  obtain ⟨a, ha⟩ := List.exists_mem_of_ne_nil g (List.ne_nil_of_mem_splitBy hg)
  obtain ⟨b, hb⟩ := List.exists_mem_of_ne_nil g' (List.ne_nil_of_mem_splitBy hg')
  obtain ⟨hle, hne⟩ := hgg a ha b hb
  rw [((mem_group hg).mp ha).2, ((mem_group hg').mp hb).2] at hle hne
  cases hcompare : termCompare (groupTerm g) (groupTerm g') with
  | lt => rfl
  | eq => exact absurd (termCompare_eq_eq.mp hcompare) hne
  | gt => exact absurd hcompare hle

theorem group_sublist (hg : g ∈ termGroups occurrences) : g.Sublist (sortedOccurrences occurrences) := by
  rw [group_eq hg]
  exact List.filter_sublist

/-- Inside a group the occurrences are in the order of their objects. -/
theorem sorted_objects (hg : g ∈ termGroups occurrences) :
    g.Pairwise fun a b => ObjectLe a.object b.object :=
  ((sorted_sortedOccurrences occurrences).sublist (group_sublist hg)).imp_of_mem
    fun {a b} ha hb hab => hab.object <| by
      rw [((mem_group hg).mp ha).2, ((mem_group hg).mp hb).2]

/-- An object of a group has all occurrences of the term in the object. -/
theorem mem_object (hg : g ∈ termGroups occurrences) (hitems : items ∈ g.splitBy sameObject)
    {a o : Occurrence} (ha : a ∈ items) :
    o ∈ items ↔ o ∈ occurrences ∧ o.term = groupTerm g ∧ o.object = a.object := by
  have heq : items = g.filter fun b => b.object = a.object :=
    run_eq_filter ObjectLe.antisymm (sorted_objects hg) hitems ha
  conv_lhs => rw [heq]
  rw [List.mem_filter, mem_group hg, decide_eq_true_eq, and_assoc]

theorem mem_occurrences (hg : g ∈ termGroups occurrences) (hitems : items ∈ g.splitBy sameObject)
    {o : Occurrence} (ho : o ∈ items) : o ∈ occurrences :=
  ((mem_object hg hitems ho).mp ho).1

/-- The objects of a group are in order. -/
theorem objects_sorted (hg : g ∈ termGroups occurrences) :
    (g.splitBy sameObject).Pairwise fun items items' => ∀ a ∈ items, ∀ b ∈ items',
      ObjectOrder a.objectType.code a.objectOrdinal b := by
  have hruns := pairwise_runs ObjectLe.antisymm (sorted_objects hg)
  refine hruns.imp fun {items items'} hne a ha b hb => ?_
  obtain ⟨hle, hne⟩ := hne a ha b hb
  rcases hle with hlt | ⟨htype, hle⟩
  · exact .inl hlt
  · refine .inr ⟨congrArg _ htype, Nat.lt_of_le_of_ne hle fun heq => hne ?_⟩
    exact Prod.ext htype heq

theorem groupObjects_sorted (hg : g ∈ termGroups occurrences) : (groupObjects g).Pairwise ObjectLt := by
  rw [groupObjects, List.pairwise_map]
  refine (objects_sorted hg).imp_of_mem fun {items items'} hitems hitems' horder => ?_
  obtain ⟨a, ha, heq⟩ := objectOf_eq (List.ne_nil_of_mem_splitBy hitems)
  obtain ⟨b, hb, heq'⟩ := objectOf_eq (List.ne_nil_of_mem_splitBy hitems')
  rw [heq, heq']
  rcases horder a ha b hb with hlt | ⟨htype, hlt⟩
  · exact .inl hlt
  · exact .inr ⟨ObjectType.code_injective htype, hlt⟩

/-- The objects of a group are those that its term occurs in. -/
theorem mem_groupObjects_iff (hg : g ∈ termGroups occurrences) {object : ObjectType × Nat} :
    object ∈ groupObjects g ↔ ∃ o ∈ occurrences, o.term = groupTerm g ∧ o.object = object := by
  rw [groupObjects, List.mem_map]
  constructor
  · rintro ⟨items, hitems, rfl⟩
    obtain ⟨a, ha, heq⟩ := objectOf_eq (List.ne_nil_of_mem_splitBy hitems)
    obtain ⟨hocc, hterm, -⟩ := (mem_object hg hitems ha).mp ha
    exact ⟨a, hocc, hterm, heq.symm⟩
  · rintro ⟨o, ho, hterm, rfl⟩
    obtain ⟨items, hitems, hmem⟩ := @exists_run _ _ _ Occurrence.object _ _
      ((mem_group hg).mpr ⟨ho, hterm⟩)
    obtain ⟨a, ha, heq⟩ := objectOf_eq (List.ne_nil_of_mem_splitBy hitems)
    exact ⟨items, hitems, heq.trans ((mem_object hg hitems hmem).mp ha).2.2⟩

end Groups

section Written

variable {tokens : Corpus} {occurrences : List Occurrence} (h : Lists tokens occurrences)

include h

/-- Inside an object the occurrences are in the order of their positions. -/
theorem Lists.object_sorted {g items : List Occurrence} (hg : g ∈ termGroups occurrences)
    (hitems : items ∈ g.splitBy sameObject) : items.Pairwise PositionOrder := by
  have hsub : items.Sublist g := by
    have hflat := List.sublist_flatten_of_mem hitems
    rwa [List.flatten_splitBy] at hflat
  refine (h.sorted.sublist (hsub.trans (group_sublist hg))).imp_of_mem fun {a b} ha hb hab => ?_
  obtain ⟨-, hterm, hobject⟩ := (mem_object hg hitems ha).mp hb
  obtain ⟨htype, hordinal⟩ := Prod.mk.inj hobject
  rcases occurrenceCompare_eq_lt.mp hab with hlt | ⟨-, (hlt | ⟨-, hlt⟩) | ⟨-, hlt⟩⟩
  · rw [hterm, ((mem_object hg hitems ha).mp ha).2.1, termCompare_eq_eq.mpr rfl] at hlt
    cases hlt
  · rw [htype] at hlt
    exact absurd hlt (lt_irrefl _)
  · rw [hordinal] at hlt
    exact absurd hlt (lt_irrefl _)
  · exact hlt

/-- The groups are what the reader asks for. -/
theorem Lists.groups_written {documents passages : Nat} {totals : PerField}
    (hlimits : tokens.Limits documents passages) (hfew : occurrences.length ≤ 2 ^ 25) :
    TermGroups (writtenTotals occurrences documents passages totals) (termGroups occurrences) where
  items g hg := by
    refine ⟨List.ne_nil_of_mem_splitBy hg, fun _ => List.ne_nil_of_mem_splitBy, fun items hitems => ?_,
      objects_sorted hg⟩
    have hmem : ∀ o ∈ items, o ∈ occurrences := fun o => mem_occurrences hg hitems
    have hfield : ∀ o ∈ items, o.fieldLength ≤ 2 ^ 25 := fun o ho => by
      rw [((h.mem o).mp (hmem o ho)).2]
      exact (h.length_le _ _ _).trans hfew
    exact {
      sorted := h.object_sorted hg hitems
      one := fun a ha b hb => ((mem_object hg hitems hb).mp ha).2.2
      counted := fun o ho => by
        have hget := ((h.mem o).mp (hmem o ho)).1
        have hne : tokens o.objectType o.objectOrdinal o.field ≠ [] := fun hnil => by
          rw [hnil] at hget
          cases hget
        obtain ⟨t, type, i, f, j, n⟩ := o
        cases type with
        | document => exact hlimits.documents i f hne
        | passage => exact hlimits.passages i f hne
      inside := fun o ho => h.inside (hmem o ho)
      short := fun o ho => by
        have hle := hfield o ho
        rw [uint32Max]
        omega
      lengths := fun a ha b hb hf => h.lengths (hmem a ha) (hmem b hb)
        ((mem_object hg hitems hb).mp ha).2.2 hf
      few := by
        have hnodup : items.Nodup := (h.object_sorted hg hitems).imp fun {a b} hab heq => by
          rw [heq] at hab
          rcases hab with hlt | ⟨-, hlt⟩
          · exact lt_irrefl _ hlt
          · exact lt_irrefl _ hlt
        have hle := (List.subperm_of_subset hnodup hmem).length_le
        omega }
  term g hg := by
    obtain ⟨o, ho⟩ := List.exists_mem_of_ne_nil g (List.ne_nil_of_mem_splitBy hg)
    obtain ⟨hocc, hterm⟩ := (mem_group hg).mp ho
    rw [← hterm]
    exact hlimits.token _ _ _ _ (List.mem_of_getElem? ((h.mem o).mp hocc).1)
  sorted := groups_sorted occurrences

end Written

/-! ## The corpus of a list of documents and passages -/

/-- The occurrences of an object, given by the tokens of its fields. -/
def objectOccurrences (objectType : ObjectType) (i : Nat) (tokens : Field → List Bytes) :
    List Occurrence :=
  fieldOccurrences (tokens .title) objectType i .title ++
    (fieldOccurrences (tokens .body) objectType i .body ++
      fieldOccurrences (tokens .passage) objectType i .passage)

/-- The occurrences of objects of one type, from the `i`-th on. -/
def objectsOccurrences (objectType : ObjectType) : Nat → List (Field → List Bytes) → List Occurrence
  | _, [] => []
  | i, x :: xs => objectOccurrences objectType i x ++ objectsOccurrences objectType (i + 1) xs

theorem mem_fieldOccurrences {tokens : List Bytes} {objectType : ObjectType} {i : Nat} {f : Field}
    {o : Occurrence} : o ∈ fieldOccurrences tokens objectType i f ↔
      (o.objectType = objectType ∧ o.objectOrdinal = i ∧ o.field = f) ∧
        tokens[o.position]? = some o.term ∧ o.fieldLength = tokens.length := by
  rw [fieldOccurrences, List.mem_mapIdx]
  constructor
  · rintro ⟨j, hj, rfl⟩
    exact ⟨⟨rfl, rfl, rfl⟩, List.getElem?_eq_getElem hj, rfl⟩
  · obtain ⟨t, type, k, g, j, n⟩ := o
    rintro ⟨⟨rfl, rfl, rfl⟩, hget, rfl⟩
    obtain ⟨hj, hget⟩ := List.getElem?_eq_some_iff.mp hget
    exact ⟨j, hj, by rw [hget]⟩

theorem mem_objectOccurrences {objectType : ObjectType} {i : Nat} {x : Field → List Bytes}
    {o : Occurrence} : o ∈ objectOccurrences objectType i x ↔
      (o.objectType = objectType ∧ o.objectOrdinal = i) ∧
        (x o.field)[o.position]? = some o.term ∧ o.fieldLength = (x o.field).length := by
  rw [objectOccurrences, List.mem_append, List.mem_append, mem_fieldOccurrences, mem_fieldOccurrences,
    mem_fieldOccurrences]
  cases hf : o.field with
  | title => simp
  | body => simp
  | passage => simp

theorem nodup_objectOccurrences (objectType : ObjectType) (i : Nat) (x : Field → List Bytes) :
    (objectOccurrences objectType i x).Nodup := by
  refine (nodup_fieldOccurrences _ _ _ _).append ((nodup_fieldOccurrences _ _ _ _).append
    (nodup_fieldOccurrences _ _ _ _) ?_) ?_
  · intro o h h'
    rw [mem_fieldOccurrences] at h h'
    have hfield := h.1.2.2.symm.trans h'.1.2.2
    cases hfield
  · intro o h h'
    rw [List.mem_append, mem_fieldOccurrences, mem_fieldOccurrences] at h'
    rw [mem_fieldOccurrences] at h
    rcases h' with h' | h'
    · have hfield := h.1.2.2.symm.trans h'.1.2.2
      cases hfield
    · have hfield := h.1.2.2.symm.trans h'.1.2.2
      cases hfield

theorem mem_objectsOccurrences {objectType : ObjectType} {i : Nat} {xs : List (Field → List Bytes)}
    {o : Occurrence} : o ∈ objectsOccurrences objectType i xs ↔
      o.objectType = objectType ∧ i ≤ o.objectOrdinal ∧ ∃ x, xs[o.objectOrdinal - i]? = some x ∧
        (x o.field)[o.position]? = some o.term ∧ o.fieldLength = (x o.field).length := by
  induction xs generalizing i with
  | nil => simp [objectsOccurrences]
  | cons x xs ih =>
    rw [objectsOccurrences, List.mem_append, mem_objectOccurrences, ih]
    constructor
    · rintro (⟨⟨htype, hi⟩, hrest⟩ | ⟨htype, hi, y, hy, hrest⟩)
      · refine ⟨htype, hi.ge, x, ?_, hrest⟩
        rw [hi, Nat.sub_self]
        rfl
      · refine ⟨htype, by omega, y, ?_, hrest⟩
        rw [show o.objectOrdinal - i = o.objectOrdinal - (i + 1) + 1 by omega]
        exact hy
    · rintro ⟨htype, hi, y, hy, hrest⟩
      rcases Nat.eq_or_lt_of_le hi with hi | hi
      · rw [← hi, Nat.sub_self] at hy
        cases hy
        exact .inl ⟨⟨htype, hi.symm⟩, hrest⟩
      · rw [show o.objectOrdinal - i = o.objectOrdinal - (i + 1) + 1 by omega] at hy
        exact .inr ⟨htype, hi, y, hy, hrest⟩

theorem nodup_objectsOccurrences (objectType : ObjectType) (i : Nat) (xs : List (Field → List Bytes)) :
    (objectsOccurrences objectType i xs).Nodup := by
  induction xs generalizing i with
  | nil => exact List.nodup_nil
  | cons x xs ih =>
    refine (nodup_objectOccurrences objectType i x).append (ih (i + 1)) fun o h h' => ?_
    have hi := (mem_objectOccurrences.mp h).1.2
    have hlt := (mem_objectsOccurrences.mp h').2.1
    omega

/-- The tokens of a text. -/
def textTokens (tokenize : Tokenize) (text : Bytes) : List Bytes :=
  if text = [] then [] else (tokenize text).toOption.getD []

/-- The tokens of the fields of a document. -/
def documentTokens (tokenize : Tokenize) (d : Document) : Field → List Bytes
  | .title => textTokens tokenize d.title
  | .body => textTokens tokenize d.body
  | .passage => []

/-- The tokens of the field of a passage. -/
def passageTokens (tokenize : Tokenize) (p : Passage) : Field → List Bytes
  | .passage => textTokens tokenize p.text
  | _ => []

/-- The corpus of documents and passages. -/
def corpus (tokenize : Tokenize) (documents : List Document) (passages : List Passage) : Corpus
  | .document, i, f => (documents[i]?.map fun d => documentTokens tokenize d f).getD []
  | .passage, i, f => (passages[i]?.map fun p => passageTokens tokenize p f).getD []

/-- What is written of a text is its tokens, and they have lengths that can be written. -/
theorem tokenizeText_eq_ok {tokenize : Tokenize} {text : Bytes} {objectType : ObjectType} {i : Nat}
    {f : Field} {items : List Occurrence} (h : tokenizeText tokenize text objectType i f = .ok items) :
    items = fieldOccurrences (textTokens tokenize text) objectType i f ∧
      ∀ t ∈ textTokens tokenize text, t ≠ [] ∧ t.length < 2 ^ 32 := by
  rw [tokenizeText] at h
  rw [textTokens]
  split at h
  · rename_i hnil
    cases h
    rw [if_pos hnil]
    exact ⟨rfl, fun t ht => by cases ht⟩
  · rename_i hne
    obtain ⟨ts, hts, h⟩ := bind_eq_ok.mp h
    rw [if_neg hne, hts]
    split at h
    · cases h
    · split at h
      · cases h
      · rename_i hany
        cases h
        refine ⟨rfl, fun t ht => ?_⟩
        by_contra hbad
        refine hany (List.any_eq_true.mpr ⟨t, ht, decide_eq_true ?_⟩)
        rw [uint32Max]
        by_contra hgood
        rw [not_or] at hgood
        exact hbad ⟨hgood.1, by omega⟩

/-- The number of tokens of a field, over a list of objects. -/
def tokenCount (xs : List (Field → List Bytes)) (f : Field) : Nat := (xs.map fun x => (x f).length).sum

theorem length_fieldOccurrences (tokens : List Bytes) (objectType : ObjectType) (i : Nat) (f : Field) :
    (fieldOccurrences tokens objectType i f).length = tokens.length := List.length_mapIdx

/-- Every token of the objects has a length that can be written. -/
def Writable (xs : List (Field → List Bytes)) : Prop :=
  ∀ x ∈ xs, ∀ f, ∀ t ∈ x f, t ≠ [] ∧ t.length < 2 ^ 32

theorem collectDocuments_eq_ok {tokenize : Tokenize} {i : Nat} {documents : List Document}
    {items : List Occurrence} {titles bodies : Nat}
    (h : collectDocuments tokenize i documents = .ok (items, titles, bodies)) :
    items = objectsOccurrences .document i (documents.map (documentTokens tokenize)) ∧
      titles = tokenCount (documents.map (documentTokens tokenize)) .title ∧
      bodies = tokenCount (documents.map (documentTokens tokenize)) .body ∧
      Writable (documents.map (documentTokens tokenize)) := by
  induction documents generalizing i items titles bodies with
  | nil =>
    cases h
    exact ⟨rfl, rfl, rfl, fun x hx => by cases hx⟩
  | cons d documents ih =>
    rw [collectDocuments] at h
    split at h
    · cases h
    · obtain ⟨title, htitle, h⟩ := bind_eq_ok.mp h
      obtain ⟨body, hbody, h⟩ := bind_eq_ok.mp h
      obtain ⟨⟨rest, t, b⟩, hrest, h⟩ := bind_eq_ok.mp h
      cases h
      obtain ⟨rfl, rfl, rfl, hwritable⟩ := ih hrest
      obtain ⟨rfl, htitles⟩ := tokenizeText_eq_ok htitle
      obtain ⟨rfl, hbodies⟩ := tokenizeText_eq_ok hbody
      refine ⟨?_, ?_, ?_, fun x hx => ?_⟩
      · rw [List.map_cons, objectsOccurrences, objectOccurrences, ← List.append_assoc]
        show _ = _ ++ [] ++ _
        rw [List.append_nil]
        rfl
      · rw [length_fieldOccurrences]
        rfl
      · rw [length_fieldOccurrences]
        rfl
      · rcases List.mem_cons.mp hx with rfl | hx
        · intro f
          cases f with
          | title => exact htitles
          | body => exact hbodies
          | passage => exact fun t ht => by cases ht
        · exact hwritable x hx

theorem collectPassages_eq_ok {tokenize : Tokenize} {i : Nat} {passages : List Passage}
    {items : List Occurrence} {texts : Nat}
    (h : collectPassages tokenize i passages = .ok (items, texts)) :
    items = objectsOccurrences .passage i (passages.map (passageTokens tokenize)) ∧
      texts = tokenCount (passages.map (passageTokens tokenize)) .passage ∧
      Writable (passages.map (passageTokens tokenize)) := by
  induction passages generalizing i items texts with
  | nil =>
    cases h
    exact ⟨rfl, rfl, fun x hx => by cases hx⟩
  | cons p passages ih =>
    rw [collectPassages] at h
    split at h
    · cases h
    · obtain ⟨here, hhere, h⟩ := bind_eq_ok.mp h
      obtain ⟨⟨rest, n⟩, hrest, h⟩ := bind_eq_ok.mp h
      cases h
      obtain ⟨rfl, rfl, hwritable⟩ := ih hrest
      obtain ⟨rfl, htexts⟩ := tokenizeText_eq_ok hhere
      refine ⟨rfl, ?_, fun x hx => ?_⟩
      · rw [length_fieldOccurrences]
        rfl
      · rcases List.mem_cons.mp hx with rfl | hx
        · intro f
          cases f with
          | title => exact fun t ht => by cases ht
          | body => exact fun t ht => by cases ht
          | passage => exact htexts
        · exact hwritable x hx

section Corpus

variable (tokenize : Tokenize) (documents : List Document) (passages : List Passage)

/-- The occurrences that the writer collects. -/
def corpusOccurrences : List Occurrence :=
  objectsOccurrences .document 0 (documents.map (documentTokens tokenize)) ++
    objectsOccurrences .passage 0 (passages.map (passageTokens tokenize))

/-- They are those of the corpus. -/
theorem lists_corpus : Lists (corpus tokenize documents passages)
    (corpusOccurrences tokenize documents passages) where
  mem o := by
    obtain ⟨t, type, i, f, j, n⟩ := o
    rw [corpusOccurrences, List.mem_append, mem_objectsOccurrences, mem_objectsOccurrences]
    cases type with
    | document =>
      dsimp only [corpus]
      rw [Nat.sub_zero, List.getElem?_map, List.getElem?_map]
      cases documents[i]? with
      | none => simp
      | some d => simp
    | passage =>
      dsimp only [corpus]
      rw [Nat.sub_zero, List.getElem?_map, List.getElem?_map]
      cases passages[i]? with
      | none => simp
      | some p => simp
  nodup := by
    refine (nodup_objectsOccurrences _ _ _).append (nodup_objectsOccurrences _ _ _) fun o h h' => ?_
    have htype := (mem_objectsOccurrences.mp h).1.symm.trans (mem_objectsOccurrences.mp h').1
    cases htype

theorem limits_corpus (hdocuments : Writable (documents.map (documentTokens tokenize)))
    (hpassages : Writable (passages.map (passageTokens tokenize))) :
    (corpus tokenize documents passages).Limits documents.length passages.length where
  documents i f h := by
    by_contra hi
    rw [corpus, List.getElem?_eq_none (Nat.not_lt.mp hi)] at h
    exact h rfl
  passages i f h := by
    by_contra hi
    rw [corpus, List.getElem?_eq_none (Nat.not_lt.mp hi)] at h
    exact h rfl
  token type i f t ht := by
    cases type with
    | document =>
      rw [corpus] at ht
      cases hd : documents[i]? with
      | none =>
        rw [hd] at ht
        cases ht
      | some d =>
        rw [hd] at ht
        exact hdocuments _ (List.mem_map.mpr ⟨d, List.mem_of_getElem? hd, rfl⟩) f t ht
    | passage =>
      rw [corpus] at ht
      cases hp : passages[i]? with
      | none =>
        rw [hp] at ht
        cases ht
      | some p =>
        rw [hp] at ht
        exact hpassages _ (List.mem_map.mpr ⟨p, List.mem_of_getElem? hp, rfl⟩) f t ht

end Corpus

end Yappod

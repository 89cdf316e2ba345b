import Yappod.Components.LexicalBounds
import Yappod.Lib.SortedRuns

/-!
# The reader accepts what the writer writes

What the writer appends stands in the files, and each check of the reader finds there what it asks for.
The lemmas follow the loops of `validate_payloads` from the inside out: the positions of a posting, the
postings and the blocks of a term, the terms, and the term stream.

The lists that the writer works on are described by `ObjectItems` (the occurrences of a term in one object)
and `TermItems` (those of a term), without regard to where they come from.
-/

set_option autoImplicit false

namespace Yappod

/-! ## Numbers -/

theorem getNumber_of_stands {data : Bytes} {i width v : Nat} (h : Stands data i (leBytes width v))
    (hv : v < 256 ^ width) : getNumber width data i = .ok v := by
  obtain ⟨hlen, hvalue⟩ := h.leValue hv
  rw [getNumber, if_pos hlen, hvalue]

theorem getU32_of_stands {data : Bytes} {i v : Nat} (h : Stands data i (leBytes 4 v))
    (hv : v < 2 ^ 32) : getU32 data i = .ok v := getNumber_of_stands h hv

theorem getU64_of_stands {data : Bytes} {i v : Nat} (h : Stands data i (leBytes 8 v))
    (hv : v < 2 ^ 64) : getU64 data i = .ok v := getNumber_of_stands h hv

theorem refuse_eq_ok {b : Bool} (h : b = false) : refuse b = .ok () := by
  rw [h]
  rfl

@[simp] theorem ok_bind {α β : Type} (a : α) (f : α → Check β) :
    ((Except.ok a : Check α) >>= f) = f a := rfl

@[simp] theorem PerField.get_put (x : PerField) (f g : Field) (n : Nat) :
    (x.put f.code n).get g.code = if f = g then n else x.get g.code := by
  cases f <;> cases g <;> rfl

theorem PerField.ext_get {x y : PerField} (h : ∀ f : Field, x.get f.code = y.get f.code) : x = y := by
  obtain ⟨a, b, c⟩ := x
  obtain ⟨a', b', c'⟩ := y
  have h₁ : a = a' := h .title
  have h₂ : b = b' := h .body
  have h₃ : c = c' := h .passage
  rw [h₁, h₂, h₃]

theorem Field.code_pos (f : Field) : 1 ≤ f.code ∧ f.code ≤ 3 := by
  cases f <;> decide

theorem Field.code_injective {f g : Field} (h : f.code = g.code) : f = g := by
  cases f <;> cases g <;> first | rfl | cases h

theorem ObjectType.code_injective {a b : ObjectType} (h : a.code = b.code) : a = b := by
  cases a <;> cases b <;> first | rfl | cases h

/-! ## The positions of a posting -/

/-- The occurrences of a term in one object are in the order of their fields and positions. -/
def PositionOrder (a b : Occurrence) : Prop :=
  a.field.code < b.field.code ∨ a.field = b.field ∧ a.position < b.position

theorem fieldFrequency_cons (o : Occurrence) (items : List Occurrence) (f : Field) :
    fieldFrequency (o :: items) f = (if o.field = f then 1 else 0) + fieldFrequency items f := by
  rw [fieldFrequency, fieldFrequency, List.filter_cons]
  by_cases h : o.field = f
  · rw [if_pos (decide_eq_true h), if_pos h, List.length_cons, Nat.add_comm]
  · rw [if_neg (by simpa using h), if_neg h, Nat.zero_add]

/-- The loop over positions that stand in order counts them. -/
theorem checkPositions_ok {data : Bytes} {base : Nat} {p : Posting}
    (hsize : data.length ≤ maxFileBytes) (items : List Occurrence) (k : Nat)
    (hstands : Stands data (base + (p.positionOffset + k) * 8)
      (items.flatMap Occurrence.positionBytes))
    (hposition : ∀ o ∈ items, o.position < p.fieldLength.get o.field.code ∧ o.position < 2 ^ 32)
    (hsorted : items.Pairwise PositionOrder) (counts previous : PerField)
    (hprevious : ∀ o ∈ items, 0 < counts.get o.field.code →
      previous.get o.field.code < o.position)
    (hcounts : ∀ f : Field, counts.get f.code + items.length < 2 ^ 32) :
    ∃ counts', checkPositions data base p items.length k counts previous = .ok counts' ∧
      ∀ f : Field, counts'.get f.code = counts.get f.code + fieldFrequency items f := by
  induction items generalizing k counts previous with
  | nil => exact ⟨counts, rfl, fun f => rfl⟩
  | cons o items ih =>
    rw [List.flatMap_cons, stands_append, Occurrence.positionBytes, stands_append, length_leBytes,
      List.length_append, length_leBytes, length_leBytes] at hstands
    obtain ⟨⟨hfield, hpos⟩, hrest⟩ := hstands
    have hend := hrest.1
    rw [show maxFileBytes = 32 + 2 ^ 28 from rfl] at hsize
    rw [List.pairwise_cons] at hsorted
    obtain ⟨hlt, hwide⟩ := hposition o List.mem_cons_self
    have hcode := o.field.code_pos
    have hcount := hcounts o.field
    rw [List.length_cons] at hcount
    rw [List.length_cons, checkPositions, positionIndex_eq (by omega), u64_of_lt (by omega),
      getU32_of_stands hfield (by omega), ok_bind, getU32_of_stands hpos hwide, ok_bind,
      refuse_eq_ok, ok_bind, u32_of_lt (by omega)]
    · have hnext : base + (p.positionOffset + k) * 8 + (4 + 4) =
          base + (p.positionOffset + (k + 1)) * 8 := by omega
      rw [hnext] at hrest
      have hprevious' : ∀ x ∈ items,
          0 < (counts.put o.field.code (counts.get o.field.code + 1)).get x.field.code →
          (previous.put o.field.code o.position).get x.field.code < x.position := by
        intro x hx hx0
        rw [PerField.get_put] at hx0 ⊢
        by_cases hf : o.field = x.field
        · rw [if_pos hf]
          rcases hsorted.1 x hx with h | ⟨-, h⟩
          · rw [hf] at h
            exact absurd h (lt_irrefl _)
          · exact h
        · rw [if_neg hf] at hx0 ⊢
          exact hprevious x (List.mem_cons_of_mem _ hx) hx0
      have hcounts' : ∀ f : Field,
          (counts.put o.field.code (counts.get o.field.code + 1)).get f.code + items.length < 2 ^ 32 := by
        intro f
        have hf := hcounts f
        rw [List.length_cons] at hf
        rw [PerField.get_put]
        split
        · omega
        · omega
      obtain ⟨counts', hok, hget⟩ := ih (k + 1) hrest
        (fun x hx => hposition x (List.mem_cons_of_mem _ hx)) hsorted.2 _ _ hprevious' hcounts'
      refine ⟨counts', hok, fun f => ?_⟩
      rw [hget f, PerField.get_put, fieldFrequency_cons]
      by_cases hf : o.field = f
      · rw [if_pos hf, if_pos hf, hf]
        omega
      · rw [if_neg hf, if_neg hf]
        omega
    · rw [decide_eq_false_iff_not]
      have hprev := hprevious o List.mem_cons_self
      omega

/-! ## Postings and blocks as they are written -/

/-- The numbers of a posting fit into its record. -/
structure Posting.Wide (p : Posting) : Prop where
  objectType : p.objectType < 2 ^ 32
  objectOrdinal : p.objectOrdinal < 2 ^ 64
  termFrequency : ∀ f : Field, p.termFrequency.get f.code < 2 ^ 32
  fieldLength : ∀ f : Field, p.fieldLength.get f.code < 2 ^ 32
  positionOffset : p.positionOffset < 2 ^ 64
  positionCount : p.positionCount < 2 ^ 32

@[simp] theorem Posting.length_bytes (p : Posting) : p.bytes.length = postingBytes := by
  simp [Posting.bytes, postingBytes]

@[simp] theorem PostingsBlock.length_bytes (b : PostingsBlock) : b.bytes.length = blockBytes := by
  simp [PostingsBlock.bytes, blockBytes]

@[simp] theorem Occurrence.length_positionBytes (o : Occurrence) : o.positionBytes.length = 8 := by
  simp [Occurrence.positionBytes]

theorem parsePosting_of_stands {data : Bytes} {i : Nat} {p : Posting} (h : Stands data i p.bytes)
    (hwide : p.Wide) : parsePosting data i = .ok p := by
  simp only [Posting.bytes, stands_append, length_leBytes, Nat.add_assoc, Nat.reduceAdd] at h
  obtain ⟨h₁, h₂, h₃, h₄, h₅, h₆, h₇, h₈, h₉, h₁₀⟩ := h
  rw [parsePosting, getU32_of_stands h₁ hwide.objectType, ok_bind,
    getU64_of_stands h₂ hwide.objectOrdinal, ok_bind,
    getU32_of_stands h₃ (hwide.termFrequency .title), ok_bind,
    getU32_of_stands h₄ (hwide.termFrequency .body), ok_bind,
    getU32_of_stands h₅ (hwide.termFrequency .passage), ok_bind,
    getU32_of_stands h₆ (hwide.fieldLength .title), ok_bind,
    getU32_of_stands h₇ (hwide.fieldLength .body), ok_bind,
    getU32_of_stands h₈ (hwide.fieldLength .passage), ok_bind,
    getU64_of_stands h₉ hwide.positionOffset, ok_bind,
    getU32_of_stands h₁₀ hwide.positionCount, ok_bind]
  rfl

theorem parseBlock_of_stands {data : Bytes} {i : Nat} {b : PostingsBlock}
    (h : Stands data i b.bytes) (hfirst : b.firstPosting < 2 ^ 32) (hcount : b.postingCount < 2 ^ 32)
    (htf : b.maxTermFrequency < 2 ^ 32) (hlength : b.minFieldLength < 2 ^ 32) :
    parseBlock data i = .ok b := by
  simp only [PostingsBlock.bytes, stands_append, length_leBytes, Nat.add_assoc, Nat.reduceAdd] at h
  obtain ⟨h₁, h₂, h₃, h₄⟩ := h
  rw [parseBlock, getU32_of_stands h₁ hfirst, ok_bind, getU32_of_stands h₂ hcount, ok_bind,
    getU32_of_stands h₃ htf, ok_bind, getU32_of_stands h₄ hlength, ok_bind]
  rfl

/-- How many objects of a type the segment has. -/
def LexicalTotals.objects (totals : LexicalTotals) : ObjectType → Nat
  | .document => totals.documentCount
  | .passage => totals.passageCount

/-- The occurrences of a term in one object. -/
structure ObjectItems (totals : LexicalTotals) (items : List Occurrence) : Prop where
  sorted : items.Pairwise PositionOrder
  one : ∀ a ∈ items, ∀ b ∈ items, a.object = b.object
  counted : ∀ o ∈ items, o.objectOrdinal < totals.objects o.objectType
  inside : ∀ o ∈ items, o.position < o.fieldLength
  short : ∀ o ∈ items, o.fieldLength < uint32Max
  lengths : ∀ a ∈ items, ∀ b ∈ items, a.field = b.field → a.fieldLength = b.fieldLength
  few : items.length < 2 ^ 32

theorem fieldFrequency_le (items : List Occurrence) (f : Field) :
    fieldFrequency items f ≤ items.length := List.length_filter_le _ _

theorem fieldFrequency_pos {items : List Occurrence} {f : Field} :
    0 < fieldFrequency items f ↔ ∃ o ∈ items, o.field = f := by
  rw [fieldFrequency, List.length_pos_iff_exists_mem]
  simp only [List.mem_filter, decide_eq_true_eq]

/-- An occurrence is in one of the three fields. -/
theorem fieldFrequency_sum (items : List Occurrence) :
    fieldFrequency items .title + fieldFrequency items .body + fieldFrequency items .passage =
      items.length := by
  induction items with
  | nil => rfl
  | cons o items ih =>
    rw [fieldFrequency_cons, fieldFrequency_cons, fieldFrequency_cons, List.length_cons, ← ih]
    cases o.field with
    | title => simp; omega
    | body => simp; omega
    | passage => simp; omega

/-- The last occurrence in a field sets its length. -/
theorem fieldLength_foldl {items : List Occurrence} {f : Field} {n : Nat}
    (h : ∀ o ∈ items, o.field = f → o.fieldLength = n) (start : Nat) :
    items.foldl (fun length o => if o.field = f then o.fieldLength else length) start =
      if 0 < fieldFrequency items f then n else start := by
  induction items generalizing start with
  | nil => rfl
  | cons o items ih =>
    rw [List.foldl_cons, ih fun x hx => h x (List.mem_cons_of_mem _ hx), fieldFrequency_cons]
    by_cases hf : o.field = f
    · rw [if_pos hf, if_pos hf, h o List.mem_cons_self hf, ite_self, if_pos (by omega)]
    · rw [if_neg hf, if_neg hf, Nat.zero_add]

theorem le_shortestField {items : List Occurrence} {n : Nat} :
    n ≤ shortestField items ↔ n ≤ uint32Max ∧ ∀ o ∈ items, n ≤ o.fieldLength := by
  have h : ∀ start, n ≤ items.foldl (fun length o =>
      if o.fieldLength < length then o.fieldLength else length) start ↔
      n ≤ start ∧ ∀ o ∈ items, n ≤ o.fieldLength := by
    induction items with
    | nil => intro start; simp
    | cons o items ih =>
      intro start
      rw [List.foldl_cons, ih, List.forall_mem_cons, ← and_assoc]
      refine and_congr_left fun _ => ?_
      split
      · omega
      · omega
  exact h _

theorem Posting.le_shortest {p : Posting} {n : Nat} :
    n ≤ p.shortest ↔ n ≤ uint32Max ∧
      ∀ f : Field, 0 < p.termFrequency.get f.code → n ≤ p.fieldLength.get f.code := by
  have hfields : (∀ f : Field, 0 < p.termFrequency.get f.code → n ≤ p.fieldLength.get f.code) ↔
      (0 < p.termFrequency.title → n ≤ p.fieldLength.title) ∧
      (0 < p.termFrequency.body → n ≤ p.fieldLength.body) ∧
      (0 < p.termFrequency.passage → n ≤ p.fieldLength.passage) := by
    refine ⟨fun h => ⟨h .title, h .body, h .passage⟩, fun ⟨h₁, h₂, h₃⟩ f => ?_⟩
    cases f with
    | title => exact h₁
    | body => exact h₂
    | passage => exact h₃
  rw [hfields, Posting.shortest]
  split <;> split <;> split <;> omega

section Posting

variable {totals : LexicalTotals} {o : Occurrence} {items : List Occurrence}

theorem buildPosting_termFrequency (offset : Nat) (o : Occurrence) (items : List Occurrence)
    (f : Field) : (buildPosting offset o items).termFrequency.get f.code = fieldFrequency items f := by
  cases f <;> rfl

theorem buildPosting_fieldLength (offset : Nat) (o : Occurrence) (items : List Occurrence)
    (f : Field) : (buildPosting offset o items).fieldLength.get f.code = fieldLength items f := by
  cases f <;> rfl

theorem buildPosting_frequency (offset : Nat) (o : Occurrence) (items : List Occurrence) :
    (buildPosting offset o items).frequency = items.length := fieldFrequency_sum items

namespace ObjectItems

/-- A posting has the length of every field that the term occurs in. -/
theorem fieldLength_eq (h : ObjectItems totals items) {x : Occurrence} (hx : x ∈ items) :
    fieldLength items x.field = x.fieldLength := by
  rw [fieldLength, fieldLength_foldl (fun y hy hf => h.lengths y hy x hx hf) 0, if_pos]
  exact fieldFrequency_pos.mpr ⟨x, hx, rfl⟩

theorem fieldLength_lt (h : ObjectItems totals items) (f : Field) : fieldLength items f < 2 ^ 32 := by
  by_cases hf : ∃ x ∈ items, x.field = f
  · obtain ⟨x, hx, rfl⟩ := hf
    have hshort := h.short x hx
    rw [h.fieldLength_eq hx]
    rw [uint32Max] at hshort
    omega
  · have hnone : ∀ x ∈ items, x.field = f → x.fieldLength = 0 := fun x hx hxf =>
      absurd ⟨x, hx, hxf⟩ hf
    rw [fieldLength, fieldLength_foldl hnone 0, ite_self]
    exact Nat.two_pow_pos 32

/-- The shortest field of a posting is the shortest field of its occurrences. -/
theorem shortest_eq (h : ObjectItems totals items) (offset : Nat) :
    (buildPosting offset o items).shortest = shortestField items := by
  refine eq_of_forall_le_iff fun n => ?_
  rw [Posting.le_shortest, le_shortestField]
  refine and_congr_right fun _ => ⟨fun hf x hx => ?_, fun hx f hf => ?_⟩
  · have hle := hf x.field
    rw [buildPosting_termFrequency, buildPosting_fieldLength, h.fieldLength_eq hx] at hle
    exact hle (fieldFrequency_pos.mpr ⟨x, hx, rfl⟩)
  · rw [buildPosting_termFrequency] at hf
    obtain ⟨x, hxi, rfl⟩ := fieldFrequency_pos.mp hf
    rw [buildPosting_fieldLength, h.fieldLength_eq hxi]
    exact hx x hxi

theorem wide (h : ObjectItems totals items) (ho : o ∈ items) (htotals : ∀ t, totals.objects t < 2 ^ 64)
    {offset : Nat} (hoffset : offset < 2 ^ 64) : (buildPosting offset o items).Wide where
  objectType := by
    show o.objectType.code < 2 ^ 32
    cases o.objectType <;> decide
  objectOrdinal := lt_trans (h.counted o ho) (htotals _)
  termFrequency f := by
    rw [buildPosting_termFrequency]
    exact lt_of_le_of_lt (fieldFrequency_le items f) h.few
  fieldLength f := by
    rw [buildPosting_fieldLength]
    exact h.fieldLength_lt f
  positionOffset := hoffset
  positionCount := h.few

end ObjectItems

/-- An object comes before another. -/
def ObjectOrder (t : Nat) (i : Nat) (b : Occurrence) : Prop :=
  t < b.objectType.code ∨ t = b.objectType.code ∧ i < b.objectOrdinal

theorem ObjectItems.refused_eq (h : ObjectItems totals items) (ho : o ∈ items) {offset records : Nat}
    (hrecords : offset + items.length ≤ records) (hsmall : records < 2 ^ 64)
    {previous : Option Posting}
    (hprevious : ∀ q ∈ previous, ObjectOrder q.objectType q.objectOrdinal o) :
    (buildPosting offset o items).refused totals records previous = false := by
  have hpos : 0 < items.length := List.length_pos_of_mem ho
  have hcounted := h.counted o ho
  have htype : o.objectType.code = 1 ∧ totals.objects o.objectType = totals.documentCount ∨
      o.objectType.code = 2 ∧ totals.objects o.objectType = totals.passageCount := by
    cases o.objectType with
    | document => exact .inl ⟨rfl, rfl⟩
    | passage => exact .inr ⟨rfl, rfl⟩
  rw [Posting.refused, decide_eq_false_iff_not, buildPosting_frequency]
  simp only [buildPosting, u64_of_lt (lt_of_le_of_lt hrecords hsmall)]
  rw [not_or, not_or, not_or, not_or, not_or, not_or]
  refine ⟨by omega, by omega, by omega, by omega, by omega, by omega, ?_⟩
  rw [Option.any_eq_true_iff_get]
  rintro ⟨hsome, hq⟩
  have horder := hprevious _ (Option.get_mem hsome)
  have hq' := of_decide_eq_true hq
  rw [ObjectOrder] at horder
  omega

/-- The loop over the positions of an object counts the frequencies of its posting. -/
theorem ObjectItems.checkPositions_eq (h : ObjectItems totals items) {data : Bytes}
    (hsize : data.length ≤ maxFileBytes) {base offset : Nat}
    (hstands : Stands data (base + offset * 8) (items.flatMap Occurrence.positionBytes)) :
    checkPositions data base (buildPosting offset o items) items.length 0 ⟨0, 0, 0⟩ ⟨0, 0, 0⟩ =
      .ok (buildPosting offset o items).termFrequency := by
  have hzero : ∀ f : Field, (⟨0, 0, 0⟩ : PerField).get f.code = 0 := fun f => by cases f <;> rfl
  have hposition : ∀ x ∈ items,
      x.position < (buildPosting offset o items).fieldLength.get x.field.code ∧
        x.position < 2 ^ 32 := by
    intro x hx
    have hinside := h.inside x hx
    have hshort := h.short x hx
    rw [uint32Max] at hshort
    rw [buildPosting_fieldLength, h.fieldLength_eq hx]
    omega
  obtain ⟨counts, hcounts, hget⟩ := checkPositions_ok (p := buildPosting offset o items) hsize items 0
    hstands hposition h.sorted ⟨0, 0, 0⟩ ⟨0, 0, 0⟩
    (fun x _ hx => absurd hx (by rw [hzero]; exact Nat.lt_irrefl 0))
    (fun f => by rw [hzero, Nat.zero_add]; exact h.few)
  rw [hcounts, Except.ok.injEq]
  refine PerField.ext_get fun f => ?_
  rw [hget f, buildPosting_termFrequency, hzero, Nat.zero_add]

end Posting

/-! ## The postings and the blocks of a term -/

/-- The objects of a term. -/
structure TermObjects (totals : LexicalTotals) (objects : List (List Occurrence)) : Prop where
  nonempty : ∀ items ∈ objects, items ≠ []
  items : ∀ items ∈ objects, ObjectItems totals items
  sorted : objects.Pairwise fun g g' => ∀ a ∈ g, ∀ b ∈ g',
    ObjectOrder a.objectType.code a.objectOrdinal b

theorem TermObjects.tail {totals : LexicalTotals} {items : List Occurrence}
    {objects : List (List Occurrence)} (h : TermObjects totals (items :: objects)) :
    TermObjects totals objects where
  nonempty g hg := h.nonempty g (List.mem_cons_of_mem _ hg)
  items g hg := h.items g (List.mem_cons_of_mem _ hg)
  sorted := (List.pairwise_cons.mp h.sorted).2

theorem TermObjects.drop {totals : LexicalTotals} {objects : List (List Occurrence)}
    (h : TermObjects totals objects) (n : Nat) : TermObjects totals (objects.drop n) where
  nonempty g hg := h.nonempty g (List.mem_of_mem_drop hg)
  items g hg := h.items g (List.mem_of_mem_drop hg)
  sorted := h.sorted.sublist (List.drop_sublist n objects)

section Term

variable {maps : LexicalMaps} {totals : LexicalTotals} {postingData base records : Nat}

/-- The loop over postings that stand in the files. -/
theorem checkPostings_ok (hsize : maps.positions.length ≤ maxFileBytes)
    (htotals : ∀ t, totals.objects t < 2 ^ 64) (hrecords : records < 2 ^ 64)
    {objects : List (List Occurrence)} (hobjects : TermObjects totals objects) (i offset : Nat)
    (hpostings : Stands maps.postings (postingData + i * postingBytes)
      ((buildPostings offset objects).flatMap Posting.bytes))
    (hpositions : Stands maps.positions (base + offset * 8)
      (objects.flatten.flatMap Occurrence.positionBytes))
    (hoffset : offset + objects.flatten.length ≤ records) (previous : Option Posting)
    (hprevious : ∀ q ∈ previous, ∀ g ∈ objects, ∀ b ∈ g,
      ObjectOrder q.objectType q.objectOrdinal b) :
    checkPostings maps totals postingData base records objects.length i previous = .ok () := by
  induction objects generalizing i offset previous with
  | nil => rfl
  | cons g objects ih =>
    cases g with
    | nil => exact absurd rfl (hobjects.nonempty [] List.mem_cons_self)
    | cons o items =>
      rw [buildPostings, List.flatMap_cons, stands_append, Posting.length_bytes] at hpostings
      rw [List.flatten_cons, List.flatMap_append, stands_append,
        length_flatMap_records Occurrence.length_positionBytes] at hpositions
      rw [List.flatten_cons, List.length_append] at hoffset
      have hitems := hobjects.items _ List.mem_cons_self
      have ho : o ∈ o :: items := List.mem_cons_self
      have hsorted := List.pairwise_cons.mp hobjects.sorted
      have hwide := hitems.wide ho htotals (lt_of_le_of_lt (le_trans (Nat.le_add_right _ _) hoffset)
        hrecords)
      have hle : offset + (o :: items).length ≤ records := by omega
      have hrefused := hitems.refused_eq ho hle hrecords
        fun q hq => hprevious q hq _ List.mem_cons_self o ho
      have hpositions' := hitems.checkPositions_eq hsize hpositions.1 (o := o)
      rw [List.length_cons, checkPostings, parsePosting_of_stands hpostings.1 hwide, ok_bind,
        refuse_eq_ok hrefused, ok_bind]
      show (checkPositions maps.positions base _ (o :: items).length 0 _ _ >>= _) = _
      rw [hpositions', ok_bind, refuse_eq_ok (decide_eq_false fun h => h rfl), ok_bind]
      refine ih hobjects.tail (i + 1) (offset + (o :: items).length) ?_ ?_ (by omega) _ ?_
      · rw [Nat.succ_mul, ← Nat.add_assoc]
        exact hpostings.2
      · rw [Nat.add_mul, ← Nat.add_assoc]
        exact hpositions.2
      · intro q hq g hg b hb
        cases hq
        exact hsorted.1 g hg o ho b hb

/-- The posting of an object whose positions begin at the offset. -/
def objectPosting (offset : Nat) (items : List Occurrence) : Option Posting :=
  items.head?.map fun o => buildPosting offset o items

/-- The postings stand where the reader looks for them. -/
theorem parsePosting_objects {postings : Bytes} (htotals : ∀ t, totals.objects t < 2 ^ 64)
    {objects : List (List Occurrence)} (hobjects : TermObjects totals objects) (i offset : Nat)
    (hpostings : Stands postings (postingData + i * postingBytes)
      ((buildPostings offset objects).flatMap Posting.bytes))
    (hoffset : offset + objects.flatten.length < 2 ^ 64) {k : Nat} {items : List Occurrence}
    (hk : objects[k]? = some items) :
    ∃ p, parsePosting postings (postingData + (i + k) * postingBytes) = .ok p ∧
      objectPosting (offset + (objects.take k).flatten.length) items = some p := by
  induction objects generalizing i offset k with
  | nil => cases hk
  | cons g objects ih =>
    cases g with
    | nil => exact absurd rfl (hobjects.nonempty [] List.mem_cons_self)
    | cons o g =>
      rw [buildPostings, List.flatMap_cons, stands_append, Posting.length_bytes] at hpostings
      rw [List.flatten_cons, List.length_append] at hoffset
      cases k with
      | zero =>
        cases hk
        have hlt : offset < 2 ^ 64 := by omega
        have hwide := (hobjects.items _ List.mem_cons_self).wide (o := o) List.mem_cons_self htotals hlt
        exact ⟨_, parsePosting_of_stands hpostings.1 hwide, rfl⟩
      | succ k =>
        rw [Nat.add_assoc, ← Nat.succ_mul] at hpostings
        obtain ⟨p, hp, hitems⟩ := ih hobjects.tail (i + 1) (offset + (o :: g).length) hpostings.2
          (by omega) hk
        refine ⟨p, ?_, ?_⟩
        · rw [show i + (k + 1) = i + 1 + k by omega]
          exact hp
        · rw [List.take_succ_cons, List.flatten_cons, List.length_append, ← Nat.add_assoc]
          exact hitems

theorem objectPosting_eq {items : List Occurrence} (h : ObjectItems totals items) {offset : Nat}
    {p : Posting} (hp : objectPosting offset items = some p) :
    p.frequency = items.length ∧ p.shortest = shortestField items := by
  obtain ⟨o, -, rfl⟩ := Option.map_eq_some_iff.mp hp
  exact ⟨buildPosting_frequency offset o items, h.shortest_eq offset⟩

/-- The loop over the postings of a block finds the bounds that were written for it. -/
theorem blockBounds_ok {postings : Bytes} {block : List (List Occurrence)} (i maxTf minLength : Nat)
    (h : ∀ k items, block[k]? = some items → ∃ p,
      parsePosting postings (postingData + (i + k) * postingBytes) = .ok p ∧
        p.frequency = items.length ∧ p.shortest = shortestField items) :
    blockBounds postings postingData block.length i maxTf minLength =
      .ok (block.foldl (fun tf items => max tf (u32 items.length)) maxTf,
        block.foldl (fun length items => min length (shortestField items)) minLength) := by
  induction block generalizing i maxTf minLength with
  | nil => rfl
  | cons items block ih =>
    obtain ⟨p, hp, hfrequency, hshortest⟩ := h 0 items rfl
    rw [Nat.add_zero] at hp
    rw [List.length_cons, blockBounds, hp, ok_bind, hfrequency, hshortest,
      ih (i + 1) _ _ fun k g hk => ?_]
    · rfl
    · obtain ⟨p, hp, hrest⟩ := h (k + 1) g hk
      refine ⟨p, ?_, hrest⟩
      rw [show i + 1 + k = i + (k + 1) by omega]
      exact hp

theorem foldl_max_lt {block : List (List Occurrence)} {start : Nat} (hstart : start < 2 ^ 32) :
    block.foldl (fun tf items => max tf (u32 items.length)) start < 2 ^ 32 := by
  induction block generalizing start with
  | nil => exact hstart
  | cons items block ih => exact ih (max_lt hstart (Nat.mod_lt _ (Nat.two_pow_pos 32)))

theorem foldl_min_le (block : List (List Occurrence)) (start : Nat) :
    block.foldl (fun length items => min length (shortestField items)) start ≤ start ∧
      ∀ items ∈ block, block.foldl (fun length items => min length (shortestField items)) start ≤
        shortestField items := by
  induction block generalizing start with
  | nil => exact ⟨le_rfl, fun items h => by cases h⟩
  | cons g block ih =>
    obtain ⟨hstart, hrest⟩ := ih (min start (shortestField g))
    refine ⟨le_trans hstart (min_le_left _ _), fun items hitems => ?_⟩
    rcases List.mem_cons.mp hitems with rfl | hitems
    · exact le_trans hstart (min_le_right _ _)
    · exact hrest items hitems

/-- A block that is not empty has a shortest field. -/
theorem foldl_min_lt {block : List (List Occurrence)} (hne : block ≠ [])
    (hblock : ∀ items ∈ block, items ≠ [] ∧ ObjectItems totals items) :
    block.foldl (fun length items => min length (shortestField items)) uint32Max < uint32Max := by
  obtain ⟨items, hitems⟩ := List.exists_mem_of_ne_nil block hne
  obtain ⟨hne, hobject⟩ := hblock items hitems
  obtain ⟨o, ho⟩ := List.exists_mem_of_ne_nil items hne
  calc _ ≤ shortestField items := (foldl_min_le block uint32Max).2 items hitems
    _ ≤ o.fieldLength := (le_shortestField.mp le_rfl).2 o ho
    _ < uint32Max := hobject.short o ho

/-- The loop over blocks that stand in the file. -/
theorem checkBlocks_ok {postings : Bytes} {blockData count : Nat} (hcount : count < 2 ^ 31)
    (n : Nat) {objects : List (List Occurrence)} (hobjects : TermObjects totals objects) (i first : Nat)
    (hn : n = postingBlocks objects.length) (hfirst : n ≠ 0 → first = i * postingsBlockSize)
    (hend : first + objects.length = count)
    (hpostings : ∀ k items, objects[k]? = some items → ∃ p,
      parsePosting postings (postingData + (first + k) * postingBytes) = .ok p ∧
        p.frequency = items.length ∧ p.shortest = shortestField items)
    (hblocks : Stands postings (blockData + i * blockBytes)
      ((buildBlocks n first objects).flatMap PostingsBlock.bytes)) :
    checkBlocks postings postingData blockData count n i = .ok () := by
  induction n generalizing objects i first with
  | zero => rfl
  | succ n ih =>
    have hi := hfirst (Nat.succ_ne_zero n)
    rw [buildBlocks, List.flatMap_cons, stands_append, PostingsBlock.length_bytes] at hblocks
    rw [postingBlocks, postingsBlockSize] at hn
    rw [postingsBlockSize] at hi hblocks
    have htake : (objects.take 128).length = min 128 objects.length := List.length_take
    have hne : objects.take 128 ≠ [] := by
      intro h
      rw [h, List.length_nil] at htake
      omega
    have hlt := @foldl_min_lt totals _ hne fun items hitems =>
      ⟨hobjects.nonempty items (List.mem_of_mem_take hitems),
        hobjects.items items (List.mem_of_mem_take hitems)⟩
    have hblock : buildBlock first (objects.take 128) = ⟨first, (objects.take 128).length,
        (objects.take 128).foldl (fun tf items => max tf (u32 items.length)) 0,
        (objects.take 128).foldl (fun length items => min length (shortestField items)) uint32Max⟩ := by
      rw [buildBlock, if_neg (Nat.ne_of_lt hlt)]
    have hbounds := @blockBounds_ok postingData postings (objects.take 128) first 0 uint32Max fun k items hk => by
      rw [List.getElem?_take] at hk
      split at hk
      · exact hpostings k items hk
      · cases hk
    have hparse := parseBlock_of_stands hblocks.1 (by rw [hblock]; dsimp only; omega)
      (by rw [hblock]; dsimp only; omega) (by rw [hblock]; exact foldl_max_lt (Nat.two_pow_pos 32))
      (by rw [hblock]; exact lt_trans hlt (by decide))
    rw [checkBlocks, hparse, ok_bind, hblock]
    dsimp only
    rw [refuse_eq_ok, ok_bind, hbounds, ok_bind, refuse_eq_ok, ok_bind]
    · have hdrop : (objects.drop 128).length = objects.length - 128 := List.length_drop
      refine ih (hobjects.drop 128) (i + 1) (first + (objects.take 128).length) ?_ ?_ ?_ ?_ ?_
      · rw [postingBlocks, postingsBlockSize]
        omega
      · rw [postingsBlockSize]
        omega
      · omega
      · intro k items hk
        rw [List.getElem?_drop] at hk
        have hlen : (objects.take 128).length = 128 := by
          have := (List.getElem?_eq_some_iff.mp hk).1
          omega
        rw [hlen, Nat.add_assoc]
        exact hpostings (128 + k) items hk
      · rw [Nat.succ_mul, ← Nat.add_assoc]
        exact hblocks.2
    · rw [decide_eq_false_iff_not]
      simp
    · rw [decide_eq_false_iff_not, u32_of_lt (by omega), postingsBlockSize]
      omega

theorem length_buildPostings {objects : List (List Occurrence)}
    (h : ∀ items ∈ objects, items ≠ []) (offset : Nat) :
    (buildPostings offset objects).length = objects.length := by
  induction objects generalizing offset with
  | nil => rfl
  | cons g objects ih =>
    cases g with
    | nil => exact absurd rfl (h [] List.mem_cons_self)
    | cons o g =>
      rw [buildPostings, List.length_cons, ih fun items hitems => h items (List.mem_cons_of_mem _ hitems)]
      rfl

theorem length_buildBlocks (n first : Nat) (objects : List (List Occurrence)) :
    (buildBlocks n first objects).length = n := by
  induction n generalizing first objects with
  | zero => rfl
  | succ n ih => rw [buildBlocks, List.length_cons, ih]

/-- The number of objects of a term. -/
def objectCount (items : List Occurrence) : Nat := (items.splitBy sameObject).length

theorem length_termPostings (ordinal : Nat) (items : List Occurrence) :
    (termPostings ordinal items).length =
      20 + objectCount items * postingBytes + postingBlocks (objectCount items) * blockBytes := by
  have hne : ∀ g ∈ items.splitBy sameObject, g ≠ [] := fun _ => List.ne_nil_of_mem_splitBy
  simp only [termPostings, List.length_append, length_leBytes,
    length_flatMap_records Posting.length_bytes, length_flatMap_records PostingsBlock.length_bytes,
    length_buildPostings hne, length_buildBlocks, objectCount]
  omega

theorem length_termPositions (ordinal : Nat) (items : List Occurrence) :
    (termPositions ordinal items).length = 16 + items.length * 8 := by
  simp only [termPositions, List.length_append, length_leBytes,
    length_flatMap_records Occurrence.length_positionBytes]
  omega

theorem objectCount_pos {items : List Occurrence} (h : items ≠ []) : 0 < objectCount items :=
  List.length_pos_iff.mpr (List.splitBy_ne_nil.mpr h)

/-- The objects of a term of the writer. -/
def TermItems (totals : LexicalTotals) (items : List Occurrence) : Prop :=
  items ≠ [] ∧ TermObjects totals (items.splitBy sameObject)

/-- A term whose parts stand in the files passes. -/
theorem checkTerm_ok (hsmall : maps.Small) (htotals : ∀ t, totals.objects t < 2 ^ 64)
    {items : List Occurrence} (hitems : TermItems totals items) {index a b : Nat} (hindex : index < 2 ^ 64)
    (hpostings : Stands maps.postings (fileHeaderBytes + a) (termPostings index items))
    (hpositions : Stands maps.positions (fileHeaderBytes + b) (termPositions index items)) :
    checkTerm maps totals index (fileHeaderBytes + a) (fileHeaderBytes + b)
      (buildEntry index a b items) = .ok items.length := by
  have hp := hsmall.postings
  have hq := hsmall.positions
  rw [show maxFileBytes = 32 + 2 ^ 28 from rfl] at hp hq
  have hpend := hpostings.1
  have hqend := hpositions.1
  rw [length_termPostings, postingBytes, blockBytes] at hpend
  rw [length_termPositions] at hqend
  have hblocks : postingBlocks (objectCount items) = (objectCount items + 128 - 1) / 128 := rfl
  have hflat : (items.splitBy sameObject).flatten = items := List.flatten_splitBy _ _
  rw [termPostings] at hpostings
  rw [termPositions] at hpositions
  simp only [stands_append, length_leBytes, length_flatMap_records Posting.length_bytes] at hpostings
  simp only [stands_append, length_leBytes] at hpositions
  rw [length_buildPostings hitems.2.nonempty] at hpostings
  obtain ⟨hp₁, hp₂, hp₃, hp₄, hp₅⟩ := hpostings
  obtain ⟨hq₁, hq₂, hq₃⟩ := hpositions
  have hdf : (items.splitBy sameObject).length = objectCount items := rfl
  rw [hdf] at hp₂ hp₃ hp₅
  obtain ⟨term, he⟩ : ∃ term, buildEntry index a b items = ⟨term, objectCount items, a,
      20 + objectCount items * 48 + postingBlocks (objectCount items) * 16, b,
      16 + items.length * 8⟩ :=
    ⟨_, by rw [buildEntry, length_termPostings, length_termPositions]; rfl⟩
  have hcheck : checkPostings maps totals (fileHeaderBytes + a + 20) (fileHeaderBytes + b + 16)
      items.length (objectCount items) 0 none = .ok () := by
    refine checkPostings_ok hsmall.positions htotals (by omega) hitems.2 0 0 hp₄ ?_ ?_ none ?_
    · rw [hflat]
      exact hq₃
    · rw [hflat, Nat.zero_add]
    · rintro q ⟨⟩
  have hcheck' : checkBlocks maps.postings (fileHeaderBytes + a + 20)
      (fileHeaderBytes + a + 20 + objectCount items * postingBytes) (objectCount items)
      (postingBlocks (objectCount items)) 0 = .ok () := by
    refine checkBlocks_ok (by omega) _ hitems.2 0 0 rfl (fun _ => (Nat.zero_mul _).symm)
      (Nat.zero_add _) (fun k g hk => ?_) hp₅
    obtain ⟨p, hparse, hposting⟩ := parsePosting_objects htotals hitems.2 0 0 hp₄
      (by rw [hflat]; omega) hk
    refine ⟨p, hparse, objectPosting_eq (hitems.2.items g ?_) hposting⟩
    exact List.mem_of_getElem? hk
  rw [he, checkTerm]
  dsimp only
  rw [refuse_eq_ok, ok_bind, getU64_of_stands hp₁ hindex, ok_bind, getU64_of_stands hp₂ (by omega),
    ok_bind, refuse_eq_ok, ok_bind, getU64_of_stands hq₁ hindex, ok_bind, refuse_eq_ok, ok_bind,
    getU32_of_stands hp₃ (by omega), ok_bind, getU64_of_stands hq₂ (by omega), ok_bind, refuse_eq_ok,
    ok_bind, refuse_eq_ok, ok_bind, hcheck, ok_bind, hcheck', ok_bind]
  · rfl
  · rw [decide_eq_false_iff_not, postingBytes, blockBytes, uint64Max, u64_of_lt (by omega),
      u64_of_lt (by omega)]
    omega
  · rw [decide_eq_false_iff_not, postingBytes, postingsBlockSize, uint64Max, u64_of_lt (by omega)]
    omega
  · simp
  · simp only [decide_eq_false_iff_not, not_or, not_not, Bool.not_eq_true', Bool.not_eq_false,
      rangeValid_eq_true]
    exact ⟨trivial, trivial, by omega⟩
  · simp only [decide_eq_false_iff_not, not_or, not_not, Bool.not_eq_true', Bool.not_eq_false,
      rangeValid_eq_true]
    omega

/-- The loop over terms whose parts stand in the files. -/
theorem checkTerms_ok (hsmall : maps.Small) (htotals : ∀ t, totals.objects t < 2 ^ 64)
    {groups : List (List Occurrence)} (hgroups : ∀ items ∈ groups, TermItems totals items)
    (index a b postings positions : Nat) (hindex : index + groups.length < 2 ^ 64)
    (hpostings : Stands maps.postings (fileHeaderBytes + a) (buildParts termPostings index groups))
    (hpositions : Stands maps.positions (fileHeaderBytes + b) (buildParts termPositions index groups))
    (hposting : postings + (groups.map objectCount).sum < 2 ^ 64)
    (hposition : positions + (groups.map List.length).sum < 2 ^ 64) :
    checkTerms maps totals (buildEntries index a b groups) index (fileHeaderBytes + a)
        (fileHeaderBytes + b) postings positions =
      .ok (fileHeaderBytes + a + (buildParts termPostings index groups).length,
        fileHeaderBytes + b + (buildParts termPositions index groups).length,
        postings + (groups.map objectCount).sum, positions + (groups.map List.length).sum) := by
  induction groups generalizing index a b postings positions with
  | nil => rfl
  | cons items groups ih =>
    rw [buildParts, stands_append] at hpostings hpositions
    rw [List.map_cons, List.sum_cons] at hposting hposition
    rw [List.length_cons] at hindex
    rw [Nat.add_assoc fileHeaderBytes] at hpostings hpositions
    have hentry : (buildEntry index a b items).postingsBytes = (termPostings index items).length ∧
        (buildEntry index a b items).positionsBytes = (termPositions index items).length ∧
        (buildEntry index a b items).documentFrequency = objectCount items := ⟨rfl, rfl, rfl⟩
    rw [buildEntries, checkTerms, checkTerm_ok hsmall htotals (hgroups items List.mem_cons_self)
      (by omega) hpostings.1 hpositions.1, ok_bind, hentry.1, hentry.2.1, hentry.2.2,
      u64_of_lt (by omega), u64_of_lt (by omega), Nat.add_assoc fileHeaderBytes,
      Nat.add_assoc fileHeaderBytes, ih (fun g hg => hgroups g (List.mem_cons_of_mem _ hg)) (index + 1)
      _ _ _ _ (by omega) hpostings.2 hpositions.2 (by omega) (by omega)]
    simp only [buildParts, List.length_append, List.map_cons, List.sum_cons, Nat.add_assoc]

end Term

/-! ## The term stream -/

/-- The numbers of an entry fit into its record, and it is one the reader takes. -/
structure TermEntry.Written (e : TermEntry) : Prop where
  term : e.term ≠ []
  length : e.term.length < 2 ^ 32
  occurs : e.documentFrequency ≠ 0
  documentFrequency : e.documentFrequency < 2 ^ 64
  postingsOffset : e.postingsOffset < 2 ^ 64
  postingsBytes : e.postingsBytes < 2 ^ 64
  positionsOffset : e.positionsOffset < 2 ^ 64
  positionsBytes : e.positionsBytes < 2 ^ 64

theorem TermEntry.length_bytes (e : TermEntry) : e.bytes.length = 44 + e.term.length := by
  simp only [TermEntry.bytes, List.length_append, length_leBytes]
  omega

theorem parseTerm_of_stands {data : Bytes} {offset : Nat} {e : TermEntry}
    (h : Stands data offset e.bytes) (he : e.Written) :
    parseTerm data offset = .ok (e, offset + e.bytes.length) := by
  have hend := h.1
  rw [TermEntry.length_bytes] at hend ⊢
  have hpos : e.term.length ≠ 0 := fun h => he.term (List.length_eq_zero_iff.mp h)
  simp only [TermEntry.bytes, stands_append, length_leBytes, Nat.add_assoc, Nat.reduceAdd] at h
  obtain ⟨h₁, h₂, h₃, h₄, h₅, h₆, h₇⟩ := h
  rw [parseTerm, refuse_eq_ok, ok_bind, getU32_of_stands h₁ he.length, ok_bind]
  dsimp only
  rw [refuse_eq_ok, ok_bind]
  · simp only [Nat.add_assoc]
    rw [getU64_of_stands h₃ he.documentFrequency, ok_bind, getU64_of_stands h₄ he.postingsOffset,
      ok_bind, getU64_of_stands h₅ he.postingsBytes, ok_bind, getU64_of_stands h₆ he.positionsOffset,
      ok_bind, getU64_of_stands h₇ he.positionsBytes, ok_bind, h₂.2]
    show Except.ok _ = _
    rw [Except.ok.injEq, Prod.mk.injEq]
    exact ⟨rfl, by omega⟩
  · simp only [decide_eq_false_iff_not, not_or, Bool.not_eq_true', Bool.not_eq_false,
      rangeValid_eq_true]
    omega
  · rw [Bool.not_eq_false', rangeValid_eq_true]
    omega

/-- The loop over entries that stand in the file. -/
theorem parseTerms_ok {data : Bytes} {es : List TermEntry} (hes : ∀ e ∈ es, e.Written)
    (hsorted : es.Pairwise fun e e' => termCompare e.term e'.term = .lt) (offset : Nat)
    (h : Stands data offset (es.flatMap TermEntry.bytes)) (previous : Option TermEntry)
    (hprevious : ∀ q ∈ previous, ∀ e ∈ es, termCompare q.term e.term = .lt) :
    parseTerms data es.length previous offset =
      .ok (es, offset + (es.flatMap TermEntry.bytes).length) := by
  induction es generalizing offset previous with
  | nil => rfl
  | cons e es ih =>
    rw [List.flatMap_cons, stands_append] at h
    rw [List.pairwise_cons] at hsorted
    have he := hes e List.mem_cons_self
    have hrefuse : (e.documentFrequency = 0 ∨
        previous.any fun p => termCompare p.term e.term ≠ .lt) → False := by
      rintro (h | h)
      · exact he.occurs h
      · rw [Option.any_eq_true_iff_get] at h
        obtain ⟨hsome, hq⟩ := h
        exact of_decide_eq_true hq (hprevious _ (Option.get_mem hsome) e List.mem_cons_self)
    rw [List.length_cons, parseTerms, parseTerm_of_stands h.1 he, ok_bind]
    dsimp only
    rw [refuse_eq_ok (decide_eq_false hrefuse), ok_bind,
      ih (fun x hx => hes x (List.mem_cons_of_mem _ hx)) hsorted.2 _ h.2 (some e) ?_, ok_bind]
    · rw [List.flatMap_cons, List.length_append, ← Nat.add_assoc]
      rfl
    · rintro q ⟨⟩ x hx
      exact hsorted.1 x hx

/-! ## The entries -/

section Entries

variable {groups : List (List Occurrence)} {items : List Occurrence} {index k : Nat}

/-- The term of a group. -/
def groupTerm (items : List Occurrence) : Bytes := (items.head?.map (·.term)).getD []

theorem map_term_buildEntries (index a b : Nat) (groups : List (List Occurrence)) :
    (buildEntries index a b groups).map (·.term) = groups.map groupTerm := by
  induction groups generalizing index a b with
  | nil => rfl
  | cons items groups ih =>
    rw [buildEntries, List.map_cons, List.map_cons, ih]
    rfl

theorem length_buildEntries (index a b : Nat) (groups : List (List Occurrence)) :
    (buildEntries index a b groups).length = groups.length := by
  have h := congrArg List.length (map_term_buildEntries index a b groups)
  rwa [List.length_map, List.length_map] at h

/-- Where the parts of the `k`-th term begin. -/
def partsBefore (part : Nat → List Occurrence → Bytes) (index : Nat) (groups : List (List Occurrence))
    (k : Nat) : Nat := (buildParts part index (groups.take k)).length

theorem partsBefore_succ (part : Nat → List Occurrence → Bytes) (index : Nat) (items : List Occurrence)
    (groups : List (List Occurrence)) (k : Nat) :
    partsBefore part index (items :: groups) (k + 1) =
      (part index items).length + partsBefore part (index + 1) groups k := by
  rw [partsBefore, List.take_succ_cons, buildParts, List.length_append, partsBefore]

theorem getElem?_buildEntries (index a b : Nat) (groups : List (List Occurrence)) (k : Nat) :
    (buildEntries index a b groups)[k]? = groups[k]?.map
      (buildEntry (index + k) (a + partsBefore termPostings index groups k)
        (b + partsBefore termPositions index groups k)) := by
  induction groups generalizing index a b k with
  | nil => rfl
  | cons items groups ih =>
    cases k with
    | zero => rfl
    | succ k =>
      rw [buildEntries, List.getElem?_cons_succ, List.getElem?_cons_succ, ih, partsBefore_succ,
        partsBefore_succ, Nat.add_assoc a, Nat.add_assoc b, show index + 1 + k = index + (k + 1) by omega]

/-- The part of the `k`-th term stands in its file. -/
theorem stands_buildParts {data : Bytes} {part : Nat → List Occurrence → Bytes} {i : Nat}
    (h : Stands data i (buildParts part index groups)) (hk : groups[k]? = some items) :
    Stands data (i + partsBefore part index groups k) (part (index + k) items) := by
  induction groups generalizing index i k with
  | nil => cases hk
  | cons g groups ih =>
    rw [buildParts, stands_append] at h
    cases k with
    | zero =>
      cases hk
      exact h.1
    | succ k =>
      have hrest := ih h.2 hk
      rwa [Nat.add_assoc, ← partsBefore_succ, show index + 1 + k = index + (k + 1) by omega] at hrest

/-- The parts of the terms before and the part of a term are among all parts. -/
theorem partsBefore_le {part : Nat → List Occurrence → Bytes} (hk : groups[k]? = some items) :
    partsBefore part index groups k + (part (index + k) items).length ≤
      (buildParts part index groups).length := by
  have h := (stands_buildParts (stands_end [] (buildParts part index groups)) hk).1
  rw [List.nil_append, List.length_nil, Nat.zero_add] at h
  exact h

theorem length_buildParts_positions (index : Nat) (groups : List (List Occurrence)) :
    (buildParts termPositions index groups).length = 16 * groups.length + 8 * groups.flatten.length := by
  induction groups generalizing index with
  | nil => rfl
  | cons items groups ih =>
    rw [buildParts, List.length_append, length_termPositions, ih, List.length_cons, List.flatten_cons,
      List.length_append]
    omega

theorem le_length_buildParts_postings (index : Nat) (h : ∀ items ∈ groups, items ≠ []) :
    84 * groups.length ≤ (buildParts termPostings index groups).length := by
  induction groups generalizing index with
  | nil => exact Nat.zero_le _
  | cons items groups ih =>
    have hpos := objectCount_pos (h items List.mem_cons_self)
    have hrest := ih (index + 1) fun g hg => h g (List.mem_cons_of_mem _ hg)
    have hblocks : postingBlocks (objectCount items) = (objectCount items + 128 - 1) / 128 := rfl
    rw [buildParts, List.length_append, length_termPostings, List.length_cons, postingBytes, blockBytes]
    omega

theorem objectCount_le (items : List Occurrence) : objectCount items ≤ items.length := by
  have hne : ∀ g ∈ items.splitBy sameObject, 1 ≤ g.length := fun g hg =>
    List.length_pos_iff.mpr (List.ne_nil_of_mem_splitBy hg)
  have hsum : ((items.splitBy sameObject).map List.length).sum = items.length := by
    rw [← List.length_flatten, List.flatten_splitBy]
  calc objectCount items ≤ ((items.splitBy sameObject).map List.length).sum := by
        rw [objectCount, ← List.length_map List.length]
        refine List.length_le_sum_of_one_le _ fun n hn => ?_
        obtain ⟨g, hg, rfl⟩ := List.mem_map.mp hn
        exact hne g hg
    _ = items.length := hsum

end Entries

end Yappod

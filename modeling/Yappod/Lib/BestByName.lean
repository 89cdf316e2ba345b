import Mathlib.Data.List.Dedup
import Mathlib.Logic.Function.Basic
import Yappod.Lib.TopK

/-!
# The best of each name

A stream of elements that have names, of which the first of each name counts, in a linear order.  A bounded set of items
holds the first `k` of these if it takes in one element after the other as follows: an element of a name that has an item
replaces it if it comes before it; other elements take a new place while there is one, and then that of the last item if
they come before it.

`BestItems` is the invariant, with a lemma for each of these cases.
-/

set_option autoImplicit false

namespace Yappod

variable {κ I : Type} [LinearOrder κ] [DecidableEq I]

/-- The first element of each name. -/
def bestByName (name : κ → I) (l : List κ) : List κ :=
  (l.filter fun a => ∀ b ∈ l, name b = name a → a ≤ b).dedup

variable {name : κ → I}

theorem mem_bestByName {l : List κ} {a : κ} :
    a ∈ bestByName name l ↔ a ∈ l ∧ ∀ b ∈ l, name b = name a → a ≤ b := by
  rw [bestByName, List.mem_dedup, List.mem_filter, decide_eq_true_eq]

theorem nodup_bestByName (l : List κ) : (bestByName name l).Nodup := List.nodup_dedup _

/-- The order of the stream does not matter. -/
theorem bestByName_perm {l l' : List κ} (h : l.Perm l') : (bestByName name l).Perm (bestByName name l') := by
  refine (List.perm_ext_iff_of_nodup (nodup_bestByName l) (nodup_bestByName l')).mpr fun a => ?_
  rw [mem_bestByName, mem_bestByName, h.mem_iff]
  simp only [h.mem_iff]

/-- The items below `n` are the first `k` of the best elements by name. -/
structure BestItems (name : κ → I) (k n : Nat) (l : List κ) (item : Nat → κ) : Prop where
  best : ∀ i < n, item i ∈ l ∧ ∀ b ∈ l, name b = name (item i) → item i ≤ b
  distinct : ∀ i < n, ∀ j < n, name (item i) = name (item j) → i = j
  size : n ≤ k
  others : ∀ b ∈ l, (∃ i < n, name (item i) = name b) ∨ n = k ∧ ∀ i < n, item i < b

namespace BestItems

variable {k n : Nat} {l : List κ} {item : Nat → κ} {x : κ} {r : Nat}

omit [DecidableEq I] in
theorem nil (name : κ → I) (k : Nat) (item : Nat → κ) : BestItems name k 0 [] item where
  best i hi := absurd hi (Nat.not_lt_zero i)
  distinct i hi := absurd hi (Nat.not_lt_zero i)
  size := Nat.zero_le k
  others _ hb := absurd hb List.not_mem_nil

omit [DecidableEq I] in
/-- Only the items below `n` matter. -/
theorem congr (h : BestItems name k n l item) {item' : Nat → κ} (heq : ∀ i < n, item' i = item i) :
    BestItems name k n l item' := by
  refine ⟨fun i hi => ?_, fun i hi j hj hname => ?_, h.size, fun b hb => ?_⟩
  · rw [heq i hi]
    exact h.best i hi
  · rw [heq i hi, heq j hj] at hname
    exact h.distinct i hi j hj hname
  · rcases h.others b hb with ⟨i, hi, hname⟩ | ⟨hfull, hlt⟩
    · exact .inl ⟨i, hi, by rwa [heq i hi]⟩
    · exact .inr ⟨hfull, fun i hi => by rw [heq i hi]; exact hlt i hi⟩

omit [DecidableEq I] in
/-- An element that does not come before the item of its name. -/
theorem keep (h : BestItems name k n l item) (hr : r < n) (hname : name (item r) = name x) (hle : item r ≤ x) :
    BestItems name k n (l ++ [x]) item := by
  refine ⟨fun i hi => ⟨List.mem_append_left _ (h.best i hi).1, fun b hb hb' => ?_⟩, h.distinct, h.size, fun b hb => ?_⟩
  · rcases List.mem_append.mp hb with hb | hb
    · exact (h.best i hi).2 b hb hb'
    · obtain rfl := List.mem_singleton.mp hb
      rw [← h.distinct r hr i hi (hname.trans hb')]
      exact hle
  · rcases List.mem_append.mp hb with hb | hb
    · exact h.others b hb
    · obtain rfl := List.mem_singleton.mp hb
      exact .inl ⟨r, hr, hname⟩

omit [DecidableEq I] in
/-- An element that comes before the item of its name replaces it. -/
theorem replace (h : BestItems name k n l item) (hr : r < n) (hname : name (item r) = name x) (hlt : x < item r) :
    BestItems name k n (l ++ [x]) (Function.update item r x) := by
  have hnames : ∀ i, name (Function.update item r x i) = name (item i) := by
    intro i
    rw [Function.update_apply]
    split
    · rename_i heq
      rw [heq, hname]
    · rfl
  have hitems : ∀ i, Function.update item r x i ≤ item i := by
    intro i
    rw [Function.update_apply]
    split
    · rename_i heq
      rw [heq]
      exact hlt.le
    · exact le_rfl
  refine ⟨fun i hi => ⟨?_, fun b hb hb' => ?_⟩, fun i hi j hj heq => ?_, h.size, fun b hb => ?_⟩
  · rw [Function.update_apply]
    split
    · exact List.mem_append_right _ (List.mem_singleton_self x)
    · exact List.mem_append_left _ (h.best i hi).1
  · rw [hnames] at hb'
    rcases List.mem_append.mp hb with hb | hb
    · exact (hitems i).trans ((h.best i hi).2 b hb hb')
    · obtain rfl := List.mem_singleton.mp hb
      obtain rfl := h.distinct r hr i hi (hname.trans hb')
      rw [Function.update_self]
  · rw [hnames, hnames] at heq
    exact h.distinct i hi j hj heq
  · simp only [hnames]
    rcases List.mem_append.mp hb with hb | hb
    · rcases h.others b hb with hin | ⟨hfull, hout⟩
      · exact .inl hin
      · exact .inr ⟨hfull, fun i hi => (hitems i).trans_lt (hout i hi)⟩
    · obtain rfl := List.mem_singleton.mp hb
      exact .inl ⟨r, hr, hname⟩

omit [DecidableEq I] in
/-- An element of a new name takes a new place. -/
theorem push (h : BestItems name k n l item) (hnew : ∀ i < n, name (item i) ≠ name x) (hroom : n < k) :
    BestItems name k (n + 1) (l ++ [x]) (Function.update item n x) := by
  have hin : ∀ b ∈ l, ∃ i < n, name (item i) = name b := fun b hb =>
    (h.others b hb).resolve_right fun hfull => absurd hfull.1 (by omega)
  have hold : ∀ i < n, Function.update item n x i = item i := fun i hi => Function.update_of_ne (by omega) _ _
  have hself : Function.update item n x n = x := Function.update_self _ _ _
  refine ⟨fun i hi => ?_, fun i hi j hj heq => ?_, by omega, fun b hb => .inl ?_⟩
  · rcases Nat.lt_or_eq_of_le (Nat.le_of_lt_succ hi) with hi | rfl
    · rw [hold i hi]
      refine ⟨List.mem_append_left _ (h.best i hi).1, fun b hb hb' => ?_⟩
      rcases List.mem_append.mp hb with hb | hb
      · exact (h.best i hi).2 b hb hb'
      · obtain rfl := List.mem_singleton.mp hb
        exact absurd hb'.symm (hnew i hi)
    · rw [hself]
      refine ⟨List.mem_append_right _ (List.mem_singleton_self x), fun b hb hb' => ?_⟩
      rcases List.mem_append.mp hb with hb | hb
      · obtain ⟨j, hj, hname⟩ := hin b hb
        exact absurd (hname.trans hb') (hnew j hj)
      · rw [List.mem_singleton.mp hb]
  · rcases Nat.lt_or_eq_of_le (Nat.le_of_lt_succ hi) with hi | rfl <;>
      rcases Nat.lt_or_eq_of_le (Nat.le_of_lt_succ hj) with hj | rfl
    · rw [hold i hi, hold j hj] at heq
      exact h.distinct i hi j hj heq
    · rw [hold i hi, hself] at heq
      exact absurd heq (hnew i hi)
    · rw [hold j hj, hself] at heq
      exact absurd heq.symm (hnew j hj)
    · rfl
  · rcases List.mem_append.mp hb with hb | hb
    · obtain ⟨i, hi, hname⟩ := hin b hb
      exact ⟨i, by omega, by rw [hold i hi]; exact hname⟩
    · obtain rfl := List.mem_singleton.mp hb
      exact ⟨n, Nat.lt_succ_self n, by rw [hself]⟩

omit [DecidableEq I] in
/-- An element of a new name that does not come before the last item. -/
theorem drop (h : BestItems name k n l item) (hnew : ∀ i < n, name (item i) ≠ name x) (hfull : n = k)
    (hlast : ∀ i < n, item i ≤ item r) (hle : item r ≤ x) : BestItems name k n (l ++ [x]) item := by
  refine ⟨fun i hi => ⟨List.mem_append_left _ (h.best i hi).1, fun b hb hb' => ?_⟩, h.distinct, h.size, fun b hb => ?_⟩
  · rcases List.mem_append.mp hb with hb | hb
    · exact (h.best i hi).2 b hb hb'
    · obtain rfl := List.mem_singleton.mp hb
      exact absurd hb'.symm (hnew i hi)
  · rcases List.mem_append.mp hb with hb | hb
    · exact h.others b hb
    · obtain rfl := List.mem_singleton.mp hb
      refine .inr ⟨hfull, fun i hi => lt_of_le_of_ne ((hlast i hi).trans hle) fun heq => ?_⟩
      exact hnew i hi (congrArg name heq)

omit [DecidableEq I] in
/-- An element of a new name that comes before the last item takes its place. -/
theorem evict (h : BestItems name k n l item) (hnew : ∀ i < n, name (item i) ≠ name x) (hfull : n = k) (hr : r < n)
    (hlast : ∀ i < n, item i ≤ item r) (hlt : x < item r) :
    BestItems name k n (l ++ [x]) (Function.update item r x) := by
  have hold : ∀ i, i ≠ r → Function.update item r x i = item i := fun i hi => Function.update_of_ne hi _ _
  have hself : Function.update item r x r = x := Function.update_self _ _ _
  have hstrict : ∀ i < n, i ≠ r → item i < item r := fun i hi hne =>
    lt_of_le_of_ne (hlast i hi) fun heq => hne (h.distinct i hi r hr (congrArg name heq))
  have hbelow : ∀ b, item r ≤ b → ∀ i < n, Function.update item r x i < b := by
    intro b hb i hi
    by_cases hir : i = r
    · rw [hir, hself]
      exact hlt.trans_le hb
    · rw [hold i hir]
      exact (hstrict i hi hir).trans_le hb
  refine ⟨fun i hi => ?_, fun i hi j hj heq => ?_, h.size, fun b hb => ?_⟩
  · by_cases hir : i = r
    · rw [hir, hself]
      refine ⟨List.mem_append_right _ (List.mem_singleton_self x), fun b hb hb' => ?_⟩
      rcases List.mem_append.mp hb with hb | hb
      · rcases h.others b hb with ⟨j, hj, hname⟩ | ⟨-, hout⟩
        · exact absurd (hname.trans hb') (hnew j hj)
        · exact (hlt.trans (hout r hr)).le
      · rw [List.mem_singleton.mp hb]
    · rw [hold i hir]
      refine ⟨List.mem_append_left _ (h.best i hi).1, fun b hb hb' => ?_⟩
      rcases List.mem_append.mp hb with hb | hb
      · exact (h.best i hi).2 b hb hb'
      · obtain rfl := List.mem_singleton.mp hb
        exact absurd hb'.symm (hnew i hi)
  · by_cases hir : i = r <;> by_cases hjr : j = r
    · rw [hir, hjr]
    · rw [hir, hself, hold j hjr] at heq
      exact absurd heq.symm (hnew j hj)
    · rw [hjr, hself, hold i hir] at heq
      exact absurd heq (hnew i hi)
    · rw [hold i hir, hold j hjr] at heq
      exact h.distinct i hi j hj heq
  · rcases List.mem_append.mp hb with hb | hb
    · rcases h.others b hb with ⟨i, hi, hname⟩ | ⟨-, hout⟩
      · by_cases hir : i = r
        · -- the item that goes was the best of its name
          exact .inr ⟨hfull, hbelow b (hir ▸ (h.best i hi).2 b hb hname.symm)⟩
        · exact .inl ⟨i, hi, by rw [hold i hir]; exact hname⟩
      · exact .inr ⟨hfull, hbelow b (hout r hr).le⟩
    · obtain rfl := List.mem_singleton.mp hb
      exact .inl ⟨r, hr, by rw [hself]⟩

/-- **The items are the first `k` of the best elements by name.** -/
theorem isBest (h : BestItems name k n l item) : IsBest id k (bestByName name l) ((List.range n).map item) := by
  have hitems : ∀ a, a ∈ (List.range n).map item ↔ ∃ i < n, item i = a := by
    intro a
    simp only [List.mem_map, List.mem_range]
  have hnodup : ((List.range n).map item).Nodup := by
    refine List.Nodup.map_on (fun i hi j hj heq => ?_) List.nodup_range
    exact h.distinct i (List.mem_range.mp hi) j (List.mem_range.mp hj) (congrArg name heq)
  have hsub : ∀ a ∈ (List.range n).map item, a ∈ bestByName name l := by
    intro a ha
    obtain ⟨i, hi, rfl⟩ := (hitems a).mp ha
    exact mem_bestByName.mpr (h.best i hi)
  have hrest : ∀ b ∈ bestByName name l, b ∉ (List.range n).map item → n = k ∧ ∀ i < n, item i < b := by
    intro b hb hout
    obtain ⟨hmem, hmin⟩ := mem_bestByName.mp hb
    refine (h.others b hmem).resolve_left ?_
    rintro ⟨i, hi, hname⟩
    refine hout ((hitems b).mpr ⟨i, hi, le_antisymm ?_ ?_⟩)
    · exact (h.best i hi).2 b hmem hname.symm
    · exact hmin (item i) (h.best i hi).1 hname
  set rest := (bestByName name l).filter fun b => b ∉ (List.range n).map item with hdef
  have hmem : ∀ b, b ∈ rest ↔ b ∈ bestByName name l ∧ b ∉ (List.range n).map item := by
    intro b
    rw [hdef, List.mem_filter, decide_eq_true_eq]
  refine .of_le rest (nodup_bestByName l) ?_ ?_ ?_ (by simpa using h.size)
  · refine (List.perm_ext_iff_of_nodup (List.nodup_append.mpr ⟨hnodup, (nodup_bestByName l).filter _, ?_⟩)
      (nodup_bestByName l)).mpr fun b => ?_
    · rintro a ha b hb rfl
      exact ((hmem a).mp hb).2 ha
    · rw [List.mem_append, hmem]
      constructor
      · rintro (hb | hb)
        · exact hsub b hb
        · exact hb.1
      · intro hb
        by_cases hin : b ∈ (List.range n).map item
        · exact .inl hin
        · exact .inr ⟨hb, hin⟩
  · intro a ha b hb
    obtain ⟨i, hi, rfl⟩ := (hitems a).mp ha
    exact ((hrest b ((hmem b).mp hb).1 ((hmem b).mp hb).2).2 i hi).le
  · by_cases hnil : rest = []
    · exact .inl hnil
    · obtain ⟨b, hb⟩ := List.exists_mem_of_ne_nil rest hnil
      obtain ⟨hfull, -⟩ := hrest b ((hmem b).mp hb).1 ((hmem b).mp hb).2
      exact .inr (by simpa using hfull)

/-- The items in order. -/
theorem sort_eq (h : BestItems name k n l item) :
    sortByKey id ((List.range n).map item) = (sortByKey id (bestByName name l)).take k :=
  h.isBest.sort_eq (nodup_bestByName l)

end BestItems

end Yappod

import Mathlib.Algebra.BigOperators.Group.List.Basic
import Mathlib.Algebra.Order.BigOperators.Group.List
import Mathlib.Data.List.Induction
import Mathlib.Data.Prod.Lex
import Yappod.Lib.TopK

/-!
# Fusing rankings

Several rankings of some of the same things, each of which gives a share to a thing by its place in it.  The `fusion` has
every thing once, the one with the largest sum of shares first; of two with the same sum the one that appears first.

* `fusion_of_ahead`, `exists_before_of_ahead` — a thing that is ahead of another in every ranking that has the other is ahead of it in the fusion.
* `fusion_single` — the fusion of one ranking is that ranking.
-/

set_option autoImplicit false

namespace Yappod

/-! ## The order of first appearance -/

section Appearance

variable {ι : Type} [DecidableEq ι] {l l' : List ι} {a b : ι}

/-- What is in a list, each once, in the order of first appearance. -/
def appearances (l : List ι) : List ι := l.eraseDups

/-- Where something first appears. -/
def placeIn (l : List ι) (a : ι) : Nat := l.idxOf a

/-- One thing more, unless it is there. -/
def appear (l : List ι) (a : ι) : List ι := if a ∈ l then l else l ++ [a]

theorem appear_of_mem (ha : a ∈ l) : appear l a = l := if_pos ha

theorem appear_of_notMem (ha : a ∉ l) : appear l a = l ++ [a] := if_neg ha

theorem mem_appearances : a ∈ appearances l ↔ a ∈ l := List.mem_eraseDups

theorem appearances_concat (l : List ι) (a : ι) : appearances (l ++ [a]) = appear (appearances l) a := by
  rw [appearances, List.eraseDups_append]
  by_cases ha : a ∈ l
  · rw [appear_of_mem (mem_appearances.mpr ha)]
    simp [appearances, List.removeAll, ha]
  · rw [appear_of_notMem (mt mem_appearances.mp ha)]
    simp [appearances, List.removeAll, ha, List.eraseDups_cons]

theorem nodup_appearances (l : List ι) : (appearances l).Nodup := by
  induction l using List.reverseRecOn with
  | nil => simp [appearances]
  | append_singleton l a ih =>
    rw [appearances_concat]
    by_cases ha : a ∈ appearances l
    · rwa [appear_of_mem ha]
    · rw [appear_of_notMem ha, List.nodup_append]
      refine ⟨ih, List.nodup_singleton a, fun x hx y hy hxy => ha ?_⟩
      obtain rfl := List.mem_singleton.mp hy
      rwa [← hxy]

theorem placeIn_inj (ha : a ∈ l) : placeIn l a = placeIn l b ↔ a = b := List.idxOf_inj ha

theorem placeIn_lt (ha : a ∈ l) : placeIn l a < l.length := List.idxOf_lt_length_of_mem ha

theorem placeIn_append_left (ha : a ∈ l) : placeIn (l ++ l') a = placeIn l a := List.idxOf_append_of_mem ha

theorem placeIn_append_right (ha : a ∉ l) : placeIn (l ++ l') a = l.length + placeIn l' a :=
  List.idxOf_append_of_notMem ha

theorem placeIn_concat (ha : a ∉ l) : placeIn (l ++ [a]) a = l.length := by
  rw [placeIn_append_right ha, placeIn, List.idxOf_cons_self, Nat.add_zero]

/-- What has no repetitions is in the order of first appearance. -/
theorem pairwise_placeIn (hl : l.Nodup) : l.Pairwise fun a b => placeIn l a < placeIn l b := by
  refine List.pairwise_iff_getElem.mpr fun i j hi hj hij => ?_
  rwa [placeIn, placeIn, hl.idxOf_getElem, hl.idxOf_getElem]

/-- The first appearances are in the order of first appearance. -/
theorem pairwise_appearances (l : List ι) : (appearances l).Pairwise fun a b => placeIn l a < placeIn l b := by
  induction l using List.reverseRecOn with
  | nil => simp [appearances]
  | append_singleton l a ih =>
    have hold : (appearances l).Pairwise fun x y => placeIn (l ++ [a]) x < placeIn (l ++ [a]) y := by
      refine ih.imp_of_mem fun {x y} hx hy hxy => ?_
      rwa [placeIn_append_left (mem_appearances.mp hx), placeIn_append_left (mem_appearances.mp hy)]
    rw [appearances_concat]
    by_cases ha : a ∈ appearances l
    · rwa [appear_of_mem ha]
    · rw [appear_of_notMem ha]
      refine List.pairwise_append.mpr ⟨hold, List.pairwise_singleton _ a, fun x hx y hy => ?_⟩
      obtain rfl := List.mem_singleton.mp hy
      rw [placeIn_append_left (mem_appearances.mp hx), placeIn_concat (mt mem_appearances.mpr ha)]
      exact placeIn_lt (mem_appearances.mp hx)

end Appearance

/-! ## Rankings and their fusion -/

/-- A ranking, and the share that a place in it gives. -/
structure Ranking (ι K : Type) where
  ids : List ι
  share : Nat → K

section Fusion

variable {ι K : Type} [DecidableEq ι] [AddCommMonoid K]

/-- The share of a thing: that of its first place. -/
def Ranking.part (r : Ranking ι K) (id : ι) : K := if id ∈ r.ids then r.share (placeIn r.ids id) else 0

/-- The sum of its shares. -/
def fusedScore (rs : List (Ranking ι K)) (id : ι) : K := (rs.map fun r => r.part id).sum

/-- All that is ranked, one ranking after the other. -/
def rankedIds (rs : List (Ranking ι K)) : List ι := rs.flatMap (·.ids)

variable [LinearOrder K]

/-- The larger sum first, then the first to appear. -/
def fusionKey (rs : List (Ranking ι K)) (id : ι) : Kᵒᵈ ×ₗ ℕ :=
  toLex (OrderDual.toDual (fusedScore rs id), placeIn (rankedIds rs) id)

/-- The fusion of rankings. -/
def fusion (rs : List (Ranking ι K)) : List ι := sortByKey (fusionKey rs) (appearances (rankedIds rs))

variable {rs : List (Ranking ι K)} {a b : ι}

theorem mem_fusion : a ∈ fusion rs ↔ a ∈ rankedIds rs := mem_sortByKey.trans mem_appearances

theorem nodup_fusion (rs : List (Ranking ι K)) : (fusion rs).Nodup :=
  (perm_sortByKey _).nodup_iff.mpr (nodup_appearances _)

theorem fusionKey_le : fusionKey rs a ≤ fusionKey rs b ↔ fusedScore rs b < fusedScore rs a ∨
    fusedScore rs a = fusedScore rs b ∧ placeIn (rankedIds rs) a ≤ placeIn (rankedIds rs) b := by
  rw [fusionKey, fusionKey, Prod.Lex.toLex_le_toLex, OrderDual.toDual_lt_toDual, OrderDual.toDual_inj]

theorem fusionKey_lt : fusionKey rs a < fusionKey rs b ↔ fusedScore rs b < fusedScore rs a ∨
    fusedScore rs a = fusedScore rs b ∧ placeIn (rankedIds rs) a < placeIn (rankedIds rs) b := by
  rw [fusionKey, fusionKey, Prod.Lex.toLex_lt_toLex, OrderDual.toDual_lt_toDual, OrderDual.toDual_inj]

omit [LinearOrder K] in
/-- No two things that are ranked have the same key. -/
theorem fusionKey_inj (ha : a ∈ rankedIds rs) (h : fusionKey rs a = fusionKey rs b) : a = b :=
  (placeIn_inj ha).mp (congrArg (fun x => (ofLex x).2) h)

/-- The fusion is in strict order. -/
theorem pairwise_fusion (rs : List (Ranking ι K)) :
    (fusion rs).Pairwise fun a b => fusionKey rs a < fusionKey rs b := by
  have hle : (fusion rs).Pairwise fun a b => fusionKey rs a ≤ fusionKey rs b := pairwise_sortByKey _
  refine (hle.and (nodup_fusion rs)).imp_of_mem ?_
  rintro a b ha - ⟨hle, hne⟩
  exact lt_of_le_of_ne hle fun h => hne (fusionKey_inj (mem_fusion.mp ha) h)

variable [IsOrderedCancelAddMonoid K]

/-- The shares are not negative, and a later place gives no more. -/
structure Ranking.Fair (r : Ranking ι K) : Prop where
  antitone : Antitone r.share
  nonneg : ∀ i, 0 ≤ r.share i

/-- The one is ahead of the other in every ranking that has the other. -/
def Ahead (rs : List (Ranking ι K)) (a b : ι) : Prop :=
  ∀ r ∈ rs, b ∈ r.ids → a ∈ r.ids ∧ placeIn r.ids a < placeIn r.ids b

omit [IsOrderedCancelAddMonoid K] in
theorem Ranking.Fair.part_le {r : Ranking ι K} (h : r.Fair)
    (hahead : b ∈ r.ids → a ∈ r.ids ∧ placeIn r.ids a < placeIn r.ids b) : r.part b ≤ r.part a := by
  rw [Ranking.part, Ranking.part]
  split
  · rename_i hb
    obtain ⟨ha, hlt⟩ := hahead hb
    rw [if_pos ha]
    exact h.antitone hlt.le
  · split
    · exact h.nonneg _
    · exact le_rfl

omit [AddCommMonoid K] [LinearOrder K] [IsOrderedCancelAddMonoid K] in
/-- What is ahead appears first. -/
theorem Ahead.appears (h : Ahead rs a b) (hb : b ∈ rankedIds rs) :
    a ∈ rankedIds rs ∧ placeIn (rankedIds rs) a < placeIn (rankedIds rs) b := by
  induction rs with
  | nil => simp [rankedIds] at hb
  | cons r rs ih =>
    have hsplit : rankedIds (r :: rs) = r.ids ++ rankedIds rs := List.flatMap_cons
    rw [hsplit] at hb ⊢
    by_cases hbr : b ∈ r.ids
    · obtain ⟨ha, hlt⟩ := h r List.mem_cons_self hbr
      rw [placeIn_append_left ha, placeIn_append_left hbr]
      exact ⟨List.mem_append_left _ ha, hlt⟩
    · obtain ⟨ha, hlt⟩ := ih (fun r' hr' => h r' (List.mem_cons_of_mem r hr')) ((List.mem_append.mp hb).resolve_left hbr)
      rw [placeIn_append_right hbr]
      refine ⟨List.mem_append_right _ ha, ?_⟩
      by_cases har : a ∈ r.ids
      · rw [placeIn_append_left har]
        have := placeIn_lt har
        omega
      · rw [placeIn_append_right har]
        omega

/-- **What is ahead in every ranking is ahead in the fusion.** -/
theorem fusion_of_ahead (hfair : ∀ r ∈ rs, r.Fair) (h : Ahead rs a b) (hb : b ∈ rankedIds rs) :
    fusionKey rs a < fusionKey rs b := by
  have hle : fusedScore rs b ≤ fusedScore rs a :=
    List.sum_le_sum fun r hr => (hfair r hr).part_le (h r hr)
  rw [fusionKey_lt]
  rcases hle.lt_or_eq with hlt | heq
  · exact .inl hlt
  · exact .inr ⟨heq.symm, (h.appears hb).2⟩

/-- In the first so many of the fusion, what is ahead of a thing stands before it. -/
theorem exists_before_of_ahead (hfair : ∀ r ∈ rs, r.Fair) (h : Ahead rs a b) {k j : Nat}
    (hj : ((fusion rs).take k)[j]? = some b) : ∃ i < j, ((fusion rs).take k)[i]? = some a := by
  have hjk : j < k := by
    by_contra hkj
    simp [hkj] at hj
  rw [List.getElem?_take_of_lt hjk] at hj
  obtain ⟨hjl, hb⟩ := List.getElem?_eq_some_iff.mp hj
  have hbr : b ∈ rankedIds rs := mem_fusion.mp (List.mem_of_getElem? hj)
  obtain ⟨i, hil, ha⟩ := List.getElem_of_mem (mem_fusion.mpr (h.appears hbr).1)
  have hsorted := List.pairwise_iff_getElem.mp (pairwise_fusion rs)
  have hlt : fusionKey rs a < fusionKey rs b := fusion_of_ahead hfair h hbr
  have hij : i < j := by
    by_contra hji
    rcases (Nat.le_of_not_lt hji).lt_or_eq with hji | rfl
    · have hgt := hsorted j i hjl hil hji
      rw [ha, hb] at hgt
      exact lt_asymm hlt hgt
    · rw [← ha, ← hb] at hlt
      exact lt_irrefl _ hlt
  exact ⟨i, hij, by rw [List.getElem?_take_of_lt (by omega), List.getElem?_eq_getElem hil, ha]⟩

/-- **The fusion of one ranking**, when there is nothing in the others, is that ranking. -/
theorem fusion_single {r : Ranking ι K} (hr : r ∈ rs) (hfair : ∀ r ∈ rs, r.Fair) (hnodup : r.ids.Nodup)
    (hothers : ∀ r' ∈ rs, r'.ids = [] ∨ r' = r) : fusion rs = r.ids := by
  have hmem : ∀ id, id ∈ rankedIds rs ↔ id ∈ r.ids := by
    intro id
    rw [rankedIds, List.mem_flatMap]
    constructor
    · rintro ⟨r', hr', hid⟩
      rcases hothers r' hr' with hnil | rfl
      · simp [hnil] at hid
      · exact hid
    · exact fun hid => ⟨r, hr, hid⟩
  have hkeys : r.ids.Pairwise fun a b => fusionKey rs a < fusionKey rs b := by
    refine (pairwise_placeIn hnodup).imp_of_mem fun {a b} ha hb hlt => ?_
    refine fusion_of_ahead hfair (fun r' hr' hb' => ?_) ((hmem b).mpr hb)
    rcases hothers r' hr' with hnil | rfl
    · simp [hnil] at hb'
    · exact ⟨ha, hlt⟩
  have hperm : (fusion rs).Perm r.ids :=
    (List.perm_ext_iff_of_nodup (nodup_fusion rs) hnodup).mpr fun id => mem_fusion.trans (hmem id)
  exact hperm.eq_of_pairwise (fun a b _ _ hab hba => absurd hab (lt_asymm hba)) (pairwise_fusion rs) hkeys

end Fusion

end Yappod

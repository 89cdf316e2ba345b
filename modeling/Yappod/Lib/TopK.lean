import Mathlib.Algebra.Ring.Nat
import Mathlib.Data.List.Sort
import Mathlib.Data.List.Pairwise
import Mathlib.Data.List.TakeDrop

/-!
# Keeping the best of a stream

A list of at most `k` elements that takes in one element after the other, and gives up the one that comes last
in the order of a key for an element that comes before it (`keepBest`).  What is left of a stream of elements
with different keys are its first `k` in that order (`sortByKey_foldl_keepBest`).
-/

set_option autoImplicit false

namespace Yappod

section

variable {α κ : Type} [LinearOrder κ] (key : α → κ)

/-- Sort by a key. -/
def sortByKey (l : List α) : List α := l.insertionSort fun a b => key a ≤ key b

/-- The last in the order, and where it is: `x` at place `w`, or one of the elements from place `i` on. -/
def worstFrom : List α → Nat → Nat → α → Nat × α
  | [], _, w, x => (w, x)
  | y :: ys, i, w, x => if key x < key y then worstFrom ys (i + 1) i y else worstFrom ys (i + 1) w x

/-- Take in an element. -/
def keepBest (k : Nat) (l : List α) (x : α) : List α :=
  if l.length < k then l ++ [x]
  else
    match l with
    | [] => []
    | y :: ys =>
      let (w, z) := worstFrom key ys 1 0 y
      if key x < key z then (y :: ys).set w x else y :: ys

end

section

variable {α κ : Type} [LinearOrder κ] {key : α → κ}

theorem perm_sortByKey (l : List α) : (sortByKey key l).Perm l := List.perm_insertionSort _ l

theorem mem_sortByKey {l : List α} {a : α} : a ∈ sortByKey key l ↔ a ∈ l := (perm_sortByKey l).mem_iff

theorem pairwise_sortByKey (l : List α) : (sortByKey key l).Pairwise fun a b => key a ≤ key b := by
  have : Std.Total fun a b : α => key a ≤ key b := ⟨fun a b => le_total (key a) (key b)⟩
  have : IsTrans α fun a b => key a ≤ key b := ⟨fun _ _ _ h h' => le_trans h h'⟩
  exact List.pairwise_insertionSort _ l

/-- Elements with different keys have one order. -/
theorem eq_of_perm_of_sorted {l l' : List α} (hperm : l.Perm l')
    (hnodup : l.Pairwise fun a b => key a ≠ key b) (h : l.Pairwise fun a b => key a ≤ key b)
    (h' : l'.Pairwise fun a b => key a ≤ key b) : l = l' := by
  refine hperm.eq_of_pairwise (fun a b ha hb hab hba => ?_) h h'
  by_contra hne
  have : Std.Symm fun a b : α => key a ≠ key b := ⟨fun _ _ h => h.symm⟩
  exact hnodup.forall ha (hperm.mem_iff.mpr hb) hne (le_antisymm hab hba)

/-- Sorting forgets the order. -/
theorem sortByKey_perm {l l' : List α} (hperm : l.Perm l')
    (hnodup : l.Pairwise fun a b => key a ≠ key b) : sortByKey key l = sortByKey key l' := by
  refine eq_of_perm_of_sorted (((perm_sortByKey l).trans hperm).trans (perm_sortByKey l').symm) ?_
    (pairwise_sortByKey l) (pairwise_sortByKey l')
  exact ((perm_sortByKey l).pairwise_iff fun h => Ne.symm h).mpr hnodup

/-- The first `k` in the order, from a list in which the others come later. -/
structure IsBest (key : α → κ) (k : Nat) (xs l : List α) : Prop where
  split : ∃ rest, (l ++ rest).Perm xs ∧ (∀ a ∈ l, ∀ b ∈ rest, key a < key b) ∧
    (rest = [] ∨ l.length = k)
  length : l.length ≤ k

theorem worstFrom_spec (key : α → κ) (ys : List α) (i w : Nat) (x : α) (l : List α) (hx : l[w]? = some x)
    (hys : l.drop i = ys) : l[(worstFrom key ys i w x).1]? = some (worstFrom key ys i w x).2 ∧
      key x ≤ key (worstFrom key ys i w x).2 ∧ ∀ y ∈ ys, key y ≤ key (worstFrom key ys i w x).2 := by
  induction ys generalizing i w x with
  | nil => exact ⟨hx, le_rfl, fun y hy => by cases hy⟩
  | cons y ys ih =>
    have hlt : i < l.length := by
      by_contra hge
      rw [List.drop_eq_nil_of_le (Nat.not_lt.mp hge)] at hys
      cases hys
    rw [← List.cons_getElem_drop_succ (h := hlt), List.cons.injEq] at hys
    obtain ⟨hy, hys⟩ := hys
    rw [worstFrom]
    split
    · rename_i hxy
      obtain ⟨h₁, h₂, h₃⟩ := ih (i + 1) i y (by rw [List.getElem?_eq_getElem hlt, hy]) hys
      exact ⟨h₁, hxy.le.trans h₂, List.forall_mem_cons.mpr ⟨h₂, h₃⟩⟩
    · rename_i hxy
      obtain ⟨h₁, h₂, h₃⟩ := ih (i + 1) w x hx hys
      exact ⟨h₁, h₂, List.forall_mem_cons.mpr ⟨(not_lt.mp hxy).trans h₂, h₃⟩⟩

theorem set_perm {l : List α} {w : Nat} {z x : α} (h : l[w]? = some z) :
    (l.set w x ++ [z]).Perm (l ++ [x]) := by
  obtain ⟨hw, hz⟩ := List.getElem?_eq_some_iff.mp h
  have hl : l = l.take w ++ z :: l.drop (w + 1) := by
    rw [← hz, List.cons_getElem_drop_succ, List.take_append_drop]
  rw [List.set_eq_take_cons_drop x hw, List.append_assoc]
  conv_rhs => rw [hl, List.append_assoc]
  refine List.Perm.append_left _ ?_
  rw [List.cons_append, List.cons_append]
  refine (List.Perm.cons x (List.perm_append_singleton z _)).trans (List.Perm.trans (.swap ..) ?_)
  exact List.Perm.cons z (List.perm_append_singleton x _).symm

/-- A split in which the others do not come earlier, when all keys differ. -/
theorem IsBest.of_le {k : Nat} {xs l : List α} (rest : List α) (hdistinct : xs.Pairwise fun a b => key a ≠ key b)
    (hperm : (l ++ rest).Perm xs) (hle : ∀ a ∈ l, ∀ b ∈ rest, key a ≤ key b)
    (hfull : rest = [] ∨ l.length = k) (hlen : l.length ≤ k) : IsBest key k xs l := by
  have hne := List.pairwise_append.mp ((hperm.pairwise_iff fun h => Ne.symm h).mpr hdistinct)
  exact ⟨⟨rest, hperm, fun a ha b hb => lt_of_le_of_ne (hle a ha b hb) (hne.2.2 a ha b hb), hfull⟩, hlen⟩

/-- **Taking in one more element keeps the best.** -/
theorem IsBest.keepBest {k : Nat} {xs l : List α} (h : IsBest key k xs l) {x : α}
    (hdistinct : (xs ++ [x]).Pairwise fun a b => key a ≠ key b) :
    IsBest key k (xs ++ [x]) (keepBest key k l x) := by
  obtain ⟨⟨rest, hperm, hsplit, hfull⟩, hlen⟩ := h
  rw [Yappod.keepBest.eq_def]
  split
  · rename_i hlt
    have hrest : rest = [] := hfull.resolve_right (by omega)
    subst hrest
    rw [List.append_nil] at hperm
    refine .of_le [] hdistinct ?_ (by simp) (.inl rfl) ?_
    · rw [List.append_nil]
      exact hperm.append_right [x]
    · rw [List.length_append, List.length_singleton]
      omega
  · rename_i hge
    have hk : l.length = k := by omega
    have hkept : (l ++ x :: rest).Perm (xs ++ [x]) := by
      refine List.perm_middle.trans ?_
      exact (hperm.cons x).trans (List.perm_append_singleton x xs).symm
    cases l with
    | nil => exact .of_le (x :: rest) hdistinct hkept (by simp) (.inr hk) hlen
    | cons y ys =>
      obtain ⟨hz, hy, hys⟩ := worstFrom_spec key ys 1 0 y (y :: ys) rfl rfl
      rcases hworst : worstFrom key ys 1 0 y with ⟨w, z⟩
      rw [hworst] at hz hy hys
      dsimp only at hz hy hys ⊢
      have hall : ∀ a ∈ y :: ys, key a ≤ key z := List.forall_mem_cons.mpr ⟨hy, hys⟩
      have hzmem : z ∈ y :: ys := List.mem_of_getElem? hz
      rw [hworst]
      dsimp only
      split
      · -- the last in the order goes
        rename_i hlt
        have hnew : ((y :: ys).set w x ++ z :: rest).Perm (xs ++ [x]) := by
          rw [List.append_cons]
          refine ((set_perm hz).append_right rest).trans ?_
          rw [List.append_assoc]
          exact hkept
        refine .of_le (z :: rest) hdistinct hnew (fun a ha b hb => ?_) (.inr (by rw [List.length_set, hk]))
          (by rw [List.length_set]; exact hlen)
        have haz : key a ≤ key z := by
          rcases List.mem_or_eq_of_mem_set ha with hmem | rfl
          · exact hall a hmem
          · exact hlt.le
        rcases List.mem_cons.mp hb with rfl | hb
        · exact haz
        · exact haz.trans (hsplit z hzmem b hb).le
      · rename_i hnlt
        refine .of_le (x :: rest) hdistinct hkept (fun a ha b hb => ?_) (.inr hk) hlen
        rcases List.mem_cons.mp hb with rfl | hb
        · exact (hall a ha).trans (not_lt.mp hnlt)
        · exact (hsplit a ha b hb).le

theorem IsBest.nil (k : Nat) : IsBest key k [] [] :=
  ⟨⟨[], .refl _, by simp, .inl rfl⟩, Nat.zero_le k⟩

/-- **What is left of a stream of elements with different keys is the best of it.** -/
theorem isBest_foldl_keepBest (k : Nat) {xs : List α}
    (hdistinct : xs.Pairwise fun a b => key a ≠ key b) :
    IsBest key k xs (xs.foldl (keepBest key k) []) := by
  have hrun : ∀ (rest done l : List α), (done ++ rest).Pairwise (fun a b => key a ≠ key b) →
      IsBest key k done l → IsBest key k (done ++ rest) (rest.foldl (keepBest key k) l) := by
    intro rest
    induction rest with
    | nil =>
      intro done l _ h
      rwa [List.append_nil]
    | cons x rest ih =>
      intro done l hdistinct h
      rw [List.append_cons] at hdistinct ⊢
      refine ih (done ++ [x]) _ hdistinct (h.keepBest ?_)
      exact (List.pairwise_append.mp hdistinct).1
  exact hrun xs [] [] hdistinct (.nil k)

/-- The best, in order, are the first of all in order. -/
theorem IsBest.sort_eq {k : Nat} {xs l : List α} (h : IsBest key k xs l)
    (hdistinct : xs.Pairwise fun a b => key a ≠ key b) :
    sortByKey key l = (sortByKey key xs).take k := by
  obtain ⟨⟨rest, hperm, hsplit, hfull⟩, hlen⟩ := h
  have hsorted : sortByKey key xs = sortByKey key l ++ sortByKey key rest := by
    refine eq_of_perm_of_sorted ?_ ?_ (pairwise_sortByKey xs) (List.pairwise_append.mpr
      ⟨pairwise_sortByKey l, pairwise_sortByKey rest, fun a ha b hb => ?_⟩)
    · refine (perm_sortByKey xs).trans (hperm.symm.trans ?_)
      exact (perm_sortByKey l).symm.append (perm_sortByKey rest).symm
    · exact ((perm_sortByKey xs).pairwise_iff fun h => Ne.symm h).mpr hdistinct
    · exact (hsplit a (mem_sortByKey.mp ha) b (mem_sortByKey.mp hb)).le
  have hlength : (sortByKey key l).length = l.length := (perm_sortByKey l).length_eq
  rw [hsorted]
  rcases hfull with rfl | hfull
  · rw [show sortByKey key ([] : List α) = [] from rfl, List.append_nil,
      List.take_of_length_le (by omega)]
  · rw [List.take_left' (by omega)]

/-- The first `k` of a list in order are its best. -/
theorem isBest_take_sort (k : Nat) {xs : List α} (hdistinct : xs.Pairwise fun a b => key a ≠ key b) :
    IsBest key k xs ((sortByKey key xs).take k) := by
  refine .of_le ((sortByKey key xs).drop k) hdistinct ?_ (fun a ha b hb => ?_) ?_
    (List.length_take_le k _)
  · rw [List.take_append_drop]
    exact perm_sortByKey xs
  · have hsorted : (sortByKey key xs).Pairwise fun a b => key a ≤ key b := pairwise_sortByKey xs
    rw [← List.take_append_drop k (sortByKey key xs)] at hsorted
    exact (List.pairwise_append.mp hsorted).2.2 a ha b hb
  · rcases Nat.lt_or_ge k (sortByKey key xs).length with hlt | hge
    · exact .inr (by rw [List.length_take]; omega)
    · exact .inl (List.drop_eq_nil_of_le hge)

/-- **Two rankings of the same objects**, where the elements of `xs` stand for objects of `ys` and come no
earlier than they do there.  The first `k` are the same if and only if `xs` has the first `k` of `ys`. -/
theorem take_sort_eq_iff {ω : Type} {object : α → ω} {xs ys : List α}
    (hxs : xs.Pairwise fun a b => object a ≠ object b) (hys : ys.Pairwise fun a b => object a ≠ object b)
    (hkey : ∀ a b, key a = key b → object a = object b)
    (hlate : ∀ b ∈ xs, ∃ a ∈ ys, object a = object b ∧ key a ≤ key b) (k : Nat) :
    (sortByKey key xs).take k = (sortByKey key ys).take k ↔ ∀ a ∈ (sortByKey key ys).take k, a ∈ xs := by
  have hxs' : xs.Pairwise fun a b => key a ≠ key b := hxs.imp fun hne heq => hne (hkey _ _ heq)
  have hys' : ys.Pairwise fun a b => key a ≠ key b := hys.imp fun hne heq => hne (hkey _ _ heq)
  have heq_of_object : ∀ a ∈ xs, ∀ b ∈ xs, object a = object b → a = b := by
    intro a ha b hb hab
    by_contra hne
    have : Std.Symm fun a b : α => object a ≠ object b := ⟨fun _ _ h => h.symm⟩
    exact hxs.forall ha hb hne hab
  constructor
  · intro heq a ha
    rw [← heq] at ha
    exact mem_sortByKey.mp (List.mem_of_mem_take ha)
  · intro hall
    obtain ⟨⟨others, hperm, hbefore, hfull⟩, hlen⟩ := isBest_take_sort k hys'
    set best := (sortByKey key ys).take k with hbest
    -- what stands for one of the first `k` is that one
    have hmem : ∀ b ∈ xs, (∃ a ∈ best, object a = object b) → b ∈ best := by
      rintro b hb ⟨a, ha, hab⟩
      exact heq_of_object a (hall a ha) b hb hab ▸ ha
    have hnodup : best.Nodup := by
      have : (sortByKey key ys).Nodup :=
        (((perm_sortByKey ys).pairwise_iff fun h => Ne.symm h).mpr hys).imp fun hne heq =>
          hne (congrArg object heq)
      exact this.sublist (List.take_sublist k _)
    obtain ⟨best', hsame, hsub⟩ := List.subperm_of_subset hnodup hall
    obtain ⟨rest, hrest⟩ := hsub.exists_perm_append
    replace hrest : xs.Perm (best ++ rest) := hrest.trans (hsame.append_right rest)
    have hdisjoint : ∀ b ∈ rest, b ∉ best := by
      intro b hb hb'
      have hne := List.pairwise_append.mp ((hrest.pairwise_iff fun h => Ne.symm h).mp hxs)
      exact hne.2.2 b hb' b hb rfl
    have hbestx : IsBest key k xs best := by
      refine .of_le rest hxs' hrest.symm (fun a ha b hb => ?_) ?_ hlen
      · have hbx : b ∈ xs := hrest.mem_iff.mpr (List.mem_append_right _ hb)
        obtain ⟨a', ha', hobject, hle⟩ := hlate b hbx
        rcases List.mem_append.mp (hperm.mem_iff.mpr ha') with hin | hout
        · exact absurd (hmem b hbx ⟨a', hin, hobject⟩) (hdisjoint b hb)
        · exact (hbefore a ha a' hout).le.trans hle
      · rcases hfull with rfl | hfull
        · left
          refine List.eq_nil_iff_forall_not_mem.mpr fun b hb => ?_
          have hbx : b ∈ xs := hrest.mem_iff.mpr (List.mem_append_right _ hb)
          obtain ⟨a', ha', hobject, -⟩ := hlate b hbx
          rw [List.append_nil] at hperm
          exact hdisjoint b hb (hmem b hbx ⟨a', hperm.mem_iff.mpr ha', hobject⟩)
        · exact .inr hfull
    have hsorted : best.Pairwise fun a b => key a ≤ key b :=
      (pairwise_sortByKey ys).sublist (List.take_sublist k _)
    rw [← hbestx.sort_eq hxs', sortByKey]
    exact hsorted.insertionSort_eq

end

end Yappod

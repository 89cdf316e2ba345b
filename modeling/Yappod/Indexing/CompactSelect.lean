import Mathlib.Data.Nat.Log
import Yappod.Indexing.Compact

/-!
# The range that compaction selects

`select_range` looks at every start and takes segments from there as long as it may.  `FitsTogether` says which
segments can be taken together: at most eight, all of one tier of sizes, and with little enough to read unless it is a
single segment.  What fits still fits if the last segment is left out, so the segments taken from a start are the most
that fit (`selectFrom_spec`), and the range that is left at the end is the best of all ranges that fit: the longest,
among these the smallest, and among these the first.
-/

set_option autoImplicit false

namespace Yappod

/-! ## Tiers -/

section Tiers

variable (policy : Option CompactionPolicy)

/-- The upper end of the smallest sizes. -/
def tierFloor : Nat :=
  let floor := policy.elim (1024 * 1024) (·.smallSegmentBytes / compactionFloorDivisor)
  if floor = 0 then 1 else floor

/-- The tier of a size: how often the floor can be widened fourfold without passing it. -/
def sizeTier (bytes : Nat) : Nat := Nat.log compactionTierWidth (max bytes (tierFloor policy) / tierFloor policy)

theorem tierFloor_pos : 0 < tierFloor policy := by
  have hpos : ∀ floor : Nat, 0 < if floor = 0 then 1 else floor := fun floor => by split <;> omega
  exact hpos _

variable {policy}

/-- The loop stops at the last bound that is not above the size. -/
theorem tierLoop_eq {bytes floor fuel tier : Nat} (hfloor : 0 < floor) (hlow : floor * 4 ^ tier ≤ bytes)
    (hhigh : bytes < floor * 4 ^ (tier + fuel)) (hbytes : bytes ≤ uint64Max ∨ bytes = floor) :
    tierLoop bytes fuel (floor * 4 ^ tier) tier = Nat.log 4 (bytes / floor) := by
  induction fuel generalizing tier with
  | zero => exact absurd hlow (Nat.not_le.mpr hhigh)
  | succ fuel ih =>
    rw [tierLoop, show compactionTierWidth = 4 from rfl, Nat.mul_assoc, ← pow_succ]
    split
    · rename_i hwiden
      exact ih hwiden.2 (by rwa [show tier + 1 + fuel = tier + (fuel + 1) by omega])
    · rename_i hstop
      have hnext : bytes < floor * 4 ^ (tier + 1) := by
        rw [pow_succ, ← Nat.mul_assoc] at hstop ⊢
        rcases hbytes with hbytes | rfl
        · omega
        · have hone : 1 ≤ 4 ^ tier := Nat.one_le_pow _ _ (by decide)
          have : bytes * 1 ≤ bytes * 4 ^ tier := Nat.mul_le_mul_left _ hone
          omega
      refine (Nat.log_eq_of_pow_le_of_lt_pow ?_ ?_).symm
      · rw [Nat.le_div_iff_mul_le hfloor, Nat.mul_comm]
        exact hlow
      · rwa [Nat.div_lt_iff_lt_mul hfloor, Nat.mul_comm]

/-- **The tier of a segment** is that of its size. -/
theorem segmentSizeTier_eq {bytes : Nat} (hbytes : bytes ≤ uint64Max) :
    segmentSizeTier policy bytes = sizeTier policy bytes := by
  have hpos := tierFloor_pos policy
  have hmax : max bytes (tierFloor policy) ≤ uint64Max ∨ max bytes (tierFloor policy) = tierFloor policy := by omega
  have hhigh : max bytes (tierFloor policy) < tierFloor policy * 4 ^ 32 := by
    have : uint64Max < 4 ^ 32 := by decide
    omega
  have h : tierLoop (max bytes (tierFloor policy)) 32 (tierFloor policy * 4 ^ 0) 0 =
      Nat.log 4 (max bytes (tierFloor policy) / tierFloor policy) :=
    tierLoop_eq hpos (by omega) (by rwa [Nat.zero_add]) hmax
  rw [Nat.pow_zero, Nat.mul_one] at h
  cases policy <;> exact h

theorem segmentStorageBytes_le (d : SegmentDescriptor) : segmentStorageBytes d ≤ uint64Max := Nat.min_le_left _ _

end Tiers

/-! ## The segments from a start -/

section Runs

variable (policy : Option CompactionPolicy)

/-- The bytes of some segments. -/
def totalBytes (ds : List SegmentDescriptor) : Nat := (ds.map segmentStorageBytes).sum

/-- Segments that can be compacted together. -/
structure FitsTogether (ds : List SegmentDescriptor) : Prop where
  few : ds.length ≤ compactionMaxSourceSegments
  tier : ∃ tier, ∀ d ∈ ds, sizeTier policy (segmentStorageBytes d) = tier
  /-- A single segment may be of any size. -/
  bytes : ds.length ≤ 1 ∨
    totalBytes ds.dropLast < compactionMaxSourceBytes ∧ totalBytes ds ≤ compactionMaxSourceBytes

variable {policy} {ds pre : List SegmentDescriptor} {d : SegmentDescriptor}

@[simp] theorem totalBytes_nil : totalBytes [] = 0 := rfl

@[simp] theorem totalBytes_append (ds ds' : List SegmentDescriptor) :
    totalBytes (ds ++ ds') = totalBytes ds + totalBytes ds' := by
  simp [totalBytes]

@[simp] theorem totalBytes_cons (d : SegmentDescriptor) (ds : List SegmentDescriptor) :
    totalBytes (d :: ds) = segmentStorageBytes d + totalBytes ds := by
  simp [totalBytes]

theorem FitsTogether.nil (policy : Option CompactionPolicy) : FitsTogether policy [] :=
  ⟨Nat.zero_le _, ⟨0, by simp⟩, .inl (Nat.zero_le _)⟩

theorem FitsTogether.single (d : SegmentDescriptor) : FitsTogether policy [d] :=
  ⟨by simp [compactionMaxSourceSegments], ⟨sizeTier policy (segmentStorageBytes d), by simp⟩, .inl le_rfl⟩

/-- What fits still fits without its last segments. -/
theorem FitsTogether.of_append (h : FitsTogether policy (pre ++ ds)) : FitsTogether policy pre := by
  obtain ⟨tier, htier⟩ := h.tier
  refine ⟨?_, ⟨tier, fun d hd => htier d (List.mem_append_left _ hd)⟩, ?_⟩
  · have := h.few
    rw [List.length_append] at this
    omega
  · rcases h.bytes with hone | ⟨hlast, hall⟩
    · rw [List.length_append] at hone
      exact .inl (by omega)
    · rcases pre.eq_nil_or_concat' with rfl | ⟨init, last, rfl⟩
      · exact .inl (Nat.zero_le _)
      · simp only [List.dropLast_concat, totalBytes_append] at hall ⊢
        refine .inr ⟨?_, by omega⟩
        by_cases hds : ds = []
        · subst hds
          simpa using hlast
        · rw [List.dropLast_append_of_ne_nil hds] at hlast
          simp only [totalBytes_append] at hlast
          omega

/-- When one more segment can be taken. -/
theorem fits_concat (tier : Nat) (hpre : pre ≠ []) (h : FitsTogether policy pre)
    (hfirst : ∀ e ∈ pre.head?, sizeTier policy (segmentStorageBytes e) = tier) :
    FitsTogether policy (pre ++ [d]) ↔ pre.length < compactionMaxSourceSegments ∧
      sizeTier policy (segmentStorageBytes d) = tier ∧ totalBytes pre < compactionMaxSourceBytes ∧
      totalBytes pre + segmentStorageBytes d ≤ compactionMaxSourceBytes := by
  have hpos : 0 < pre.length := List.length_pos_iff.mpr hpre
  have htier : sizeTier policy (segmentStorageBytes (pre.head hpre)) = tier :=
    hfirst _ (List.head?_eq_some_head hpre)
  have hlength : (pre ++ [d]).length = pre.length + 1 := List.length_append
  have htotal : totalBytes (pre ++ [d]) = totalBytes pre + segmentStorageBytes d := by simp
  constructor
  · intro hfits
    obtain ⟨tier', htier'⟩ := hfits.tier
    have hsame : tier' = tier := (htier' _ (List.mem_append_left _ (List.head_mem hpre))).symm.trans htier
    have hfew := hfits.few
    have hbytes := hfits.bytes
    rw [List.dropLast_concat, htotal] at hbytes
    exact ⟨by omega, (htier' d (by simp)).trans hsame, by omega, by omega⟩
  · rintro ⟨hfew, hd, hlast, hall⟩
    obtain ⟨tier', htier'⟩ := h.tier
    have hsame : tier' = tier := (htier' _ (List.head_mem hpre)).symm.trans htier
    refine ⟨by omega, ⟨tier, fun e he => ?_⟩, .inr ⟨by rwa [List.dropLast_concat], by rwa [htotal]⟩⟩
    rcases List.mem_append.mp he with he | he
    · exact (htier' e he).trans hsame
    · rw [List.mem_singleton.mp he, hd]

/-- **What is taken from a start** is as much as fits. -/
theorem selectFrom_spec (tier : Nat) (ds pre : List SegmentDescriptor) (h : FitsTogether policy pre)
    (hfirst : ∀ e ∈ (pre ++ ds).head?, sizeTier policy (segmentStorageBytes e) = tier) :
    ∃ n ≤ ds.length, selectFrom policy tier pre.length (totalBytes pre) ds =
        (pre.length + n, totalBytes (pre ++ ds.take n)) ∧
      FitsTogether policy (pre ++ ds.take n) ∧ ∀ k, k ≤ ds.length → FitsTogether policy (pre ++ ds.take k) → k ≤ n := by
  induction ds generalizing pre with
  | nil => exact ⟨0, le_rfl, by simp [selectFrom], by simpa using h, fun k hk _ => hk⟩
  | cons d ds ih =>
    have hstop : ¬ FitsTogether policy (pre ++ [d]) → FitsTogether policy (pre ++ (d :: ds).take 0) ∧
        ∀ k, k ≤ (d :: ds).length → FitsTogether policy (pre ++ (d :: ds).take k) → k ≤ 0 := by
      intro hnot
      refine ⟨by simpa using h, fun k _ hk => ?_⟩
      rcases k with _ | k
      · exact le_rfl
      · have hmore : FitsTogether policy (pre ++ [d] ++ ds.take k) := by simpa using hk
        exact absurd hmore.of_append hnot
    have hgo : FitsTogether policy (pre ++ [d]) → ∃ n ≤ (d :: ds).length,
        selectFrom policy tier (pre.length + 1) (totalBytes pre + segmentStorageBytes d) ds =
          (pre.length + n, totalBytes (pre ++ (d :: ds).take n)) ∧
        FitsTogether policy (pre ++ (d :: ds).take n) ∧
        ∀ k, k ≤ (d :: ds).length → FitsTogether policy (pre ++ (d :: ds).take k) → k ≤ n := by
      intro hfits
      obtain ⟨n, hn, hrun, hkept, hmost⟩ := ih (pre ++ [d]) hfits (by simpa using hfirst)
      refine ⟨n + 1, by simpa using hn, ?_, by simpa using hkept, fun k hk hfit => ?_⟩
      · simpa [Nat.add_assoc, Nat.add_comm 1] using hrun
      · rcases k with _ | k
        · exact Nat.zero_le _
        · exact Nat.succ_le_succ (hmost k (by simpa using hk) (by simpa using hfit))
    rw [selectFrom, segmentSizeTier_eq (segmentStorageBytes_le d)]
    by_cases hpre : pre = []
    · subst hpre
      have hd : sizeTier policy (segmentStorageBytes d) = tier := hfirst d (by simp)
      have hle := segmentStorageBytes_le d
      rw [if_neg (by simp [compactionMaxSourceSegments]), if_neg (not_not.mpr hd), if_neg (by simp),
        if_neg (by simpa using hle)]
      exact hgo (FitsTogether.single d)
    · have hpos : 0 < pre.length := List.length_pos_iff.mpr hpre
      have hmax : compactionMaxSourceBytes ≤ uint64Max := by decide
      have hconcat := fits_concat (d := d) tier hpre h fun e he => hfirst e (by
        rw [List.head?_append_of_ne_nil _ hpre]
        exact he)
      by_cases hfits : FitsTogether policy (pre ++ [d])
      · obtain ⟨hfew, hd, hlast, hall⟩ := hconcat.mp hfits
        rw [if_neg (by omega), if_neg (not_not.mpr hd), if_neg (by omega), if_neg (by omega)]
        exact hgo hfits
      · have hnot : ¬ (pre.length < compactionMaxSourceSegments ∧ sizeTier policy (segmentStorageBytes d) = tier ∧
          totalBytes pre < compactionMaxSourceBytes ∧
          totalBytes pre + segmentStorageBytes d ≤ compactionMaxSourceBytes) := fun hall => hfits (hconcat.mpr hall)
        obtain ⟨hkept, hmost⟩ := hstop hfits
        refine ⟨0, Nat.zero_le _, ?_, hkept, hmost⟩
        split
        · simp
        split
        · simp
        split
        · simp
        rename_i hfew hd hbytes
        exact absurd ⟨by omega, not_not.mp hd, by omega, by omega⟩ hnot

end Runs

/-! ## The best range -/

section Best

variable (segments : List SegmentDescriptor)

/-- The `count` segments from `first` on. -/
def segmentRange (first count : Nat) : List SegmentDescriptor := (segments.drop first).take count

/-- How many segments a range has at least. -/
def leastSegments (policy : Option CompactionPolicy) : Nat := policy.elim 2 (·.minSmallSegments)

/-- A range that may be compacted. -/
structure Selectable (policy : Option CompactionPolicy) (first count : Nat) : Prop where
  pos : 0 < count
  enough : leastSegments policy ≤ count
  inside : first + count ≤ segments.length
  fits : FitsTogether policy (segmentRange segments first count)

/-- The longer range is better, then the smaller one, then the one that starts earlier. -/
def RangeBefore (first count first' count' : Nat) : Prop :=
  count' < count ∨ count = count' ∧
    (totalBytes (segmentRange segments first count) < totalBytes (segmentRange segments first' count') ∨
      totalBytes (segmentRange segments first count) = totalBytes (segmentRange segments first' count') ∧
        first < first')

/-- The best of some ranges. -/
structure IsBestRange (among : Nat → Nat → Prop) (first count : Nat) : Prop where
  mem : among first count
  best : ∀ first' count', among first' count' →
    first' = first ∧ count' = count ∨ RangeBefore segments first count first' count'

variable {segments} {policy : Option CompactionPolicy} {among : Nat → Nat → Prop}

/-- There is only one best range. -/
theorem IsBestRange.unique {first count first' count' : Nat} (h : IsBestRange segments among first count)
    (h' : IsBestRange segments among first' count') : first' = first ∧ count' = count := by
  rcases h.best first' count' h'.mem with heq | hbefore
  · exact heq
  · rcases h'.best first count h.mem with ⟨rfl, rfl⟩ | hbefore'
    · exact ⟨rfl, rfl⟩
    · unfold RangeBefore at hbefore hbefore'
      omega

/-- What the loop has found when it has tried every start below `bound`. -/
structure BestSoFar (policy : Option CompactionPolicy) (segments : List SegmentDescriptor) (bound : Nat)
    (best : BestRange) : Prop where
  nothing : best.count = 0 → ∀ first count, first < bound → ¬ Selectable segments policy first count
  isBest : 0 < best.count → best.bytes = totalBytes (segmentRange segments best.first best.count) ∧
    IsBestRange segments (fun first count => first < bound ∧ Selectable segments policy first count)
      best.first best.count

/-- The most segments that can be taken from a start. -/
structure MostFrom (policy : Option CompactionPolicy) (segments : List SegmentDescriptor) (start n : Nat) : Prop where
  pos : 0 < n
  inside : start + n ≤ segments.length
  fits : FitsTogether policy (segmentRange segments start n)
  most : ∀ count, start + count ≤ segments.length → FitsTogether policy (segmentRange segments start count) → count ≤ n

theorem MostFrom.le {start n count : Nat} (h : MostFrom policy segments start n)
    (hs : Selectable segments policy start count) : count ≤ n ∧ leastSegments policy ≤ n :=
  have hcount := h.most count hs.inside hs.fits
  ⟨hcount, hs.enough.trans hcount⟩

/-- **A better start**: what was the best before is worse than the most from here. -/
theorem BestSoFar.replace {start n : Nat} {best : BestRange} (h : BestSoFar policy segments start best)
    (hmost : MostFrom policy segments start n) (henough : leastSegments policy ≤ n)
    (hbetter : best.count < n ∨ n = best.count ∧ totalBytes (segmentRange segments start n) < best.bytes) :
    BestSoFar policy segments (start + 1) ⟨start, n, totalBytes (segmentRange segments start n)⟩ := by
  have hselected : Selectable segments policy start n := ⟨hmost.pos, henough, hmost.inside, hmost.fits⟩
  refine ⟨fun hzero => absurd hzero hmost.pos.ne', fun _ => ⟨rfl, ⟨Nat.lt_succ_self start, hselected⟩, ?_⟩⟩
  rintro first count ⟨hfirst, hs⟩
  dsimp only
  rcases Nat.lt_succ_iff_lt_or_eq.mp hfirst with hearlier | rfl
  · refine .inr ?_
    have hpos : 0 < best.count := by
      by_contra hzero
      exact h.nothing (Nat.eq_zero_of_not_pos hzero) first count hearlier hs
    obtain ⟨hbytes, hbest⟩ := h.isBest hpos
    have hold := hbest.best first count ⟨hearlier, hs⟩
    unfold RangeBefore at hold ⊢
    rcases hold with ⟨rfl, rfl⟩ | hold <;> omega
  · have := (hmost.le hs).1
    unfold RangeBefore
    omega

/-- **Another start**: nothing from here is better than the best before, which starts earlier. -/
theorem BestSoFar.keep {start n : Nat} {best : BestRange} (h : BestSoFar policy segments start best)
    (hmost : MostFrom policy segments start n)
    (hkeep : ¬ (leastSegments policy ≤ n ∧
      (best.count < n ∨ n = best.count ∧ totalBytes (segmentRange segments start n) < best.bytes))) :
    BestSoFar policy segments (start + 1) best := by
  refine ⟨fun hzero first count hfirst hs => ?_, fun hpos => ?_⟩
  · rcases Nat.lt_succ_iff_lt_or_eq.mp hfirst with hearlier | rfl
    · exact h.nothing hzero first count hearlier hs
    · have := hmost.pos
      exact hkeep ⟨(hmost.le hs).2, .inl (by omega)⟩
  · obtain ⟨hbytes, hbest⟩ := h.isBest hpos
    refine ⟨hbytes, ⟨Nat.lt_succ_of_lt hbest.mem.1, hbest.mem.2⟩, ?_⟩
    rintro first count ⟨hfirst, hs⟩
    rcases Nat.lt_succ_iff_lt_or_eq.mp hfirst with hearlier | rfl
    · exact hbest.best first count ⟨hearlier, hs⟩
    · obtain ⟨hcount, henough⟩ := hmost.le hs
      have hlt := hbest.mem.1
      refine .inr ?_
      unfold RangeBefore
      -- a shorter range than the most is worse by its length alone
      by_cases hall : count = n
      · subst hall
        omega
      · omega

/-- **The loop** finds the best of all ranges. -/
theorem selectLoop_spec (ds before : List SegmentDescriptor) {best : BestRange} (hsegments : segments = before ++ ds)
    (h : BestSoFar policy segments before.length best) :
    BestSoFar policy segments segments.length (selectLoop policy (leastSegments policy) before.length ds best) := by
  induction ds generalizing before best with
  | nil => simpa [selectLoop, hsegments] using h
  | cons d ds ih =>
    have hrange : ∀ count, segmentRange segments before.length count = (d :: ds).take count := by
      intro count
      rw [segmentRange, hsegments, List.drop_left]
    have hlength : segments.length = before.length + (d :: ds).length := by rw [hsegments, List.length_append]
    obtain ⟨n, hn, hrun, hfits, hmost⟩ :=
      selectFrom_spec (sizeTier policy (segmentStorageBytes d)) (d :: ds) [] (FitsTogether.nil policy) (by simp)
    simp only [List.length_nil, totalBytes_nil, List.nil_append, Nat.zero_add, ← hrange] at hrun hfits hmost
    have htaken : MostFrom policy segments before.length n :=
      { pos := hmost 1 (by simp) (by simpa [hrange] using FitsTogether.single d)
        inside := by omega
        fits := hfits
        most := fun count hcount hfit => hmost count (by omega) hfit }
    rw [selectLoop, segmentSizeTier_eq (segmentStorageBytes_le d), hrun]
    have hnext : before.length + 1 = (before ++ [d]).length := by simp
    dsimp only
    rw [hnext]
    refine ih (before ++ [d]) (by simpa using hsegments) ?_
    rw [← hnext]
    split
    · rename_i hbetter
      exact h.replace htaken hbetter.1 hbetter.2
    · rename_i hkeep
      exact h.keep htaken hkeep

/-- **The selected range.** -/
theorem selectLoop_best (policy : Option CompactionPolicy) (segments : List SegmentDescriptor) :
    ((selectLoop policy (leastSegments policy) 0 segments {}).count = 0 ∧
      ∀ first count, ¬ Selectable segments policy first count) ∨
    (0 < (selectLoop policy (leastSegments policy) 0 segments {}).count ∧
      IsBestRange segments (Selectable segments policy) (selectLoop policy (leastSegments policy) 0 segments {}).first
        (selectLoop policy (leastSegments policy) 0 segments {}).count) := by
  have hstart : BestSoFar policy segments 0 {} :=
    ⟨fun _ _ _ hlt => absurd hlt (Nat.not_lt_zero _), fun hpos => absurd hpos (by decide)⟩
  have h := selectLoop_spec segments [] rfl hstart
  have hbelow : ∀ {first count : Nat}, Selectable segments policy first count → first < segments.length := by
    intro first count hs
    have := hs.pos
    have := hs.inside
    omega
  rcases Nat.eq_zero_or_pos (selectLoop policy (leastSegments policy) 0 segments {}).count with hzero | hpos
  · exact .inl ⟨hzero, fun first count hs => h.nothing hzero first count (hbelow hs) hs⟩
  · obtain ⟨-, hbest⟩ := h.isBest hpos
    exact .inr ⟨hpos, hbest.mem.2, fun first count hs => hbest.best first count ⟨hbelow hs, hs⟩⟩

/-- `select_range` runs the loop. -/
theorem selectRange_eq (policy : Option CompactionPolicy) (m : Manifest) (hsegments : m.segments ≠ []) :
    selectRange policy m =
      if (selectLoop policy (leastSegments policy) 0 m.segments {}).count = 0 then
        if policy = none then .ok (0, 1) else .error .notFound
      else .ok ((selectLoop policy (leastSegments policy) 0 m.segments {}).first,
        (selectLoop policy (leastSegments policy) 0 m.segments {}).count) := by
  unfold selectRange
  rw [if_neg hsegments]
  cases policy <;> rfl

theorem selectRange_nil {m : Manifest} (policy : Option CompactionPolicy) (hsegments : m.segments = []) :
    selectRange policy m = .error .notFound := by
  unfold selectRange
  exact if_pos hsegments

/-- Nothing can be selected from nothing. -/
theorem not_selectable_nil {first count : Nat} (h : Selectable [] policy first count) : False := by
  have := h.pos
  have := h.inside
  simp only [List.length_nil] at this
  omega

/-- The three ways `select_range` can end. -/
theorem selectRange_cases (policy : Option CompactionPolicy) (m : Manifest) :
    (∃ first count, selectRange policy m = .ok (first, count) ∧
      IsBestRange m.segments (Selectable m.segments policy) first count) ∨
    (selectRange policy m = .ok (0, 1) ∧ (policy = none ∧ m.segments ≠ []) ∧
      ∀ first count, ¬ Selectable m.segments policy first count) ∨
    (selectRange policy m = .error .notFound ∧ (m.segments = [] ∨ policy ≠ none) ∧
      ∀ first count, ¬ Selectable m.segments policy first count) := by
  by_cases hsegments : m.segments = []
  · refine .inr (.inr ⟨selectRange_nil policy hsegments, .inl hsegments, fun first count hs => ?_⟩)
    rw [hsegments] at hs
    exact not_selectable_nil hs
  · rw [selectRange_eq policy m hsegments]
    rcases selectLoop_best policy m.segments with ⟨hzero, hnone⟩ | ⟨hpos, hbest⟩
    · rw [if_pos hzero]
      by_cases hpolicy : policy = none
      · rw [if_pos hpolicy]
        exact .inr (.inl ⟨rfl, ⟨hpolicy, hsegments⟩, hnone⟩)
      · rw [if_neg hpolicy]
        exact .inr (.inr ⟨rfl, .inr hpolicy, hnone⟩)
    · rw [if_neg hpos.ne']
      exact .inl ⟨_, _, rfl, hbest⟩

end Best

/-- **Compaction takes the best range that it may take**: `select_range` gives a range exactly when it is the best of
all that fit the policy, or is the first segment for an explicit compaction where none fits; it finds nothing exactly
when no range fits and there is no such first segment; and automatic compaction runs exactly when it is enabled and
some range fits. -/
theorem select_range_best (m : Manifest) :
    (∀ policy first count, selectRange policy m = .ok (first, count) ↔
      IsBestRange m.segments (Selectable m.segments policy) first count ∨
        ((policy = none ∧ m.segments ≠ []) ∧ ∀ first' count', ¬ Selectable m.segments policy first' count') ∧
          first = 0 ∧ count = 1) ∧
    (∀ policy, selectRange policy m = .error .notFound ↔
      (m.segments = [] ∨ policy ≠ none) ∧ ∀ first count, ¬ Selectable m.segments policy first count) ∧
    ∀ policy, needsCompaction policy m = true ↔
      policy.enabled = true ∧ ∃ first count, Selectable m.segments (some policy) first count := by
  refine ⟨fun policy first count => ?_, fun policy => ?_, fun policy => ?_⟩
  · rcases selectRange_cases policy m with ⟨first', count', hrun, hbest⟩ | ⟨hrun, hfirst, hnone⟩ |
      ⟨hrun, hempty, hnone⟩ <;> rw [hrun]
    · constructor
      · intro h
        obtain ⟨rfl, rfl⟩ := Prod.mk.inj (Except.ok.inj h)
        exact .inl hbest
      · rintro (h | ⟨⟨-, hnone⟩, -⟩)
        · obtain ⟨rfl, rfl⟩ := h.unique hbest
          rfl
        · exact absurd hbest.mem (hnone _ _)
    · constructor
      · intro h
        obtain ⟨rfl, rfl⟩ := Prod.mk.inj (Except.ok.inj h)
        exact .inr ⟨⟨hfirst, hnone⟩, rfl, rfl⟩
      · rintro (h | ⟨-, rfl, rfl⟩)
        · exact absurd h.mem (hnone _ _)
        · rfl
    · refine ⟨fun h => (nomatch h), ?_⟩
      rintro (h | ⟨⟨⟨hpolicy, hsegments⟩, -⟩, -⟩)
      · exact absurd h.mem (hnone _ _)
      · exact (hempty.elim hsegments (absurd hpolicy)).elim
  · rcases selectRange_cases policy m with ⟨first, count, hrun, hbest⟩ | ⟨hrun, ⟨hpolicy, hsegments⟩, hnone⟩ |
      ⟨hrun, hempty, hnone⟩ <;> rw [hrun]
    · exact ⟨fun h => (nomatch h), fun h => absurd hbest.mem (h.2 _ _)⟩
    · exact ⟨fun h => (nomatch h), fun h => (h.1.elim hsegments (absurd hpolicy)).elim⟩
    · exact ⟨fun _ => ⟨hempty, hnone⟩, fun _ => rfl⟩
  · rw [needsCompaction, Bool.and_eq_true]
    refine and_congr_right fun _ => ?_
    rcases selectRange_cases (some policy) m with ⟨first, count, hrun, hbest⟩ | ⟨hrun, ⟨hpolicy, -⟩, -⟩ |
      ⟨hrun, -, hnone⟩
    · rw [hrun]
      exact ⟨fun _ => ⟨first, count, hbest.mem⟩, fun _ => rfl⟩
    · exact nomatch hpolicy
    · rw [hrun]
      exact ⟨fun h => (nomatch h), fun ⟨first, count, hs⟩ => absurd hs (hnone first count)⟩

end Yappod

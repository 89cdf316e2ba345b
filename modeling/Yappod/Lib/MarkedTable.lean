import Mathlib.Algebra.Ring.Nat
import Mathlib.Data.Finset.Card
import Mathlib.Data.Finset.Range
import Mathlib.Data.Nat.ModEq
import Mathlib.Logic.Function.Basic
import Mathlib.Tactic.Push

/-!
# Hash tables with deletion marks

A table of `capacity` slots for indices of records that are kept elsewhere; `key` is the key of a record.  The slot of a
key is looked for at `hash key`, `hash key + 1`, … modulo the capacity.  A slot that was given up is marked: a search goes
on behind it, and a new record may take it.

`Indexes` is the invariant: the records of a set have one slot each, which a search for their key reaches before a free
slot.  As long as there are more slots than records there is always a slot for a new one (`search_absent`).
-/

set_option autoImplicit false

namespace Yappod

inductive Slot where
  | free
  | used (index : Nat)
  | deleted
  deriving DecidableEq, Repr

/-- A table of `capacity` slots. -/
structure MarkedTable where
  capacity : Nat
  slots : Nat → Slot

namespace MarkedTable

variable {K : Type} [DecidableEq K] (hash : K → Nat) (key : Nat → K)

/-- The `i`-th slot probed for a key. -/
def probe (t : MarkedTable) (k : K) (i : Nat) : Nat := (hash k + i) % t.capacity

/-- Follow the probe sequence for at most `fuel` steps from the `i`-th on; `deleted` is the first marked slot met so far.
The slot found, if any, and whether it has the key. -/
def searchFrom (t : MarkedTable) (k : K) : Nat → Nat → Option Nat → Option Nat × Bool
  | 0, _, deleted => (deleted, false)
  | fuel + 1, i, deleted =>
    let index := t.probe hash k i
    match t.slots index with
    | .free => (some (deleted.getD index), false)
    | .used c => if key c = k then (some index, true) else searchFrom t k fuel (i + 1) deleted
    | .deleted => searchFrom t k fuel (i + 1) (some (deleted.getD index))

/-- The slot of a key, or a slot for it. -/
def search (t : MarkedTable) (k : K) : Option Nat × Bool := t.searchFrom hash key k t.capacity 0 none

/-- Set a slot. -/
def set (t : MarkedTable) (j : Nat) (slot : Slot) : MarkedTable := { t with slots := Function.update t.slots j slot }

/-- The records of a set have one slot each, reached by a search for their key. -/
structure Indexes (t : MarkedTable) (live : Finset Nat) : Prop where
  distinct : ∀ c ∈ live, ∀ c' ∈ live, key c = key c' → c = c'
  reach : ∀ c ∈ live, ∃ i < t.capacity, t.slots (t.probe hash (key c) i) = .used c ∧
    ∀ m < i, t.slots (t.probe hash (key c) m) ≠ .free
  used : ∀ j < t.capacity, ∀ c, t.slots j = .used c → c ∈ live
  single : ∀ j < t.capacity, ∀ j' < t.capacity, ∀ c, t.slots j = .used c → t.slots j' = .used c → j = j'

variable {hash} {key} {t : MarkedTable} {live : Finset Nat} {k : K}

omit [DecidableEq K] in
theorem probe_lt (hcapacity : 0 < t.capacity) (k : K) (i : Nat) : t.probe hash k i < t.capacity := Nat.mod_lt _ hcapacity

omit [DecidableEq K] in
/-- Every slot is probed once in each round. -/
theorem exists_probe (k : K) {j : Nat} (hj : j < t.capacity) : ∃ i < t.capacity, t.probe hash k i = j := by
  have hlt := Nat.mod_lt (hash k) (show 0 < t.capacity by omega)
  refine ⟨(j + t.capacity - hash k % t.capacity) % t.capacity, Nat.mod_lt _ (by omega), ?_⟩
  rw [probe, Nat.add_mod_mod, ← Nat.mod_add_mod,
    show hash k % t.capacity + (j + t.capacity - hash k % t.capacity) = j + t.capacity by omega, Nat.add_mod_right,
    Nat.mod_eq_of_lt hj]

omit [DecidableEq K] in
/-- No slot is probed twice in a round. -/
theorem probe_injective {m i : Nat} (hm : m < t.capacity) (hi : i < t.capacity)
    (heq : t.probe hash k m = t.probe hash k i) : m = i := by
  have hmod : m % t.capacity = i % t.capacity := Nat.ModEq.add_left_cancel' (hash k) heq
  rwa [Nat.mod_eq_of_lt hm, Nat.mod_eq_of_lt hi] at hmod

/-- A search that meets neither a free slot nor the key goes on. -/
theorem searchFrom_found {fuel n i : Nat} {c : Nat} {deleted : Option Nat} (hn : n < fuel)
    (hskip : ∀ m < n, t.slots (t.probe hash k (i + m)) ≠ .free ∧
      ∀ c', t.slots (t.probe hash k (i + m)) = .used c' → key c' ≠ k)
    (hstop : t.slots (t.probe hash k (i + n)) = .used c) (hkey : key c = k) :
    t.searchFrom hash key k fuel i deleted = (some (t.probe hash k (i + n)), true) := by
  induction n generalizing fuel i deleted with
  | zero =>
    obtain ⟨fuel, rfl⟩ : ∃ f, fuel = f + 1 := ⟨fuel - 1, by omega⟩
    rw [Nat.add_zero] at hstop
    rw [searchFrom]
    simp only [hstop, if_pos hkey, Nat.add_zero]
  | succ n ih =>
    obtain ⟨fuel, rfl⟩ : ∃ f, fuel = f + 1 := ⟨fuel - 1, by omega⟩
    have hshift : i + (n + 1) = (i + 1) + n := by omega
    obtain ⟨hfree, hother⟩ := hskip 0 (Nat.succ_pos n)
    have hrest : ∀ deleted, t.searchFrom hash key k fuel (i + 1) deleted =
        (some (t.probe hash k (i + (n + 1))), true) := by
      intro deleted
      rw [hshift]
      refine ih (by omega) (fun m hm => ?_) (by rwa [← hshift])
      have hmore := hskip (m + 1) (by omega)
      rwa [show i + (m + 1) = i + 1 + m by omega] at hmore
    rw [Nat.add_zero] at hfree hother
    rw [searchFrom]
    cases hslot : t.slots (t.probe hash k i) with
    | free => exact absurd hslot hfree
    | used c' =>
      simp only [if_neg (hother c' hslot)]
      exact hrest deleted
    | deleted => exact hrest _

/-- A search for a key that no record has: the first marked slot before a free one, or the free one. -/
theorem searchFrom_absent (hash : K → Nat) (hother : ∀ j < t.capacity, ∀ c, t.slots j = .used c → key c ≠ k) (fuel i : Nat)
    (hcapacity : 0 < t.capacity) (deleted : Option Nat) :
    (t.searchFrom hash key k fuel i deleted).2 = false ∧
      (∀ j, deleted = some j → (t.searchFrom hash key k fuel i deleted).1 = some j) ∧
      (deleted = none →
        (∃ m < fuel, (t.searchFrom hash key k fuel i deleted).1 = some (t.probe hash k (i + m)) ∧
          (∀ c, t.slots (t.probe hash k (i + m)) ≠ .used c) ∧
          ∀ m' < m, t.slots (t.probe hash k (i + m')) ≠ .free) ∨
        ∀ m < fuel, ∃ c, t.slots (t.probe hash k (i + m)) = .used c) := by
  induction fuel generalizing i deleted with
  | zero => exact ⟨rfl, fun j hj => hj, fun _ => .inr fun m hm => absurd hm (Nat.not_lt_zero m)⟩
  | succ fuel ih =>
    rw [searchFrom]
    cases hslot : t.slots (t.probe hash k i) with
    | free =>
      refine ⟨rfl, fun j hj => by rw [hj]; rfl, fun hnone => .inl ⟨0, Nat.succ_pos fuel, ?_, ?_, ?_⟩⟩
      · rw [hnone]
        rfl
      · intro c
        rw [Nat.add_zero, hslot]
        exact fun h => nomatch h
      · exact fun m hm => absurd hm (Nat.not_lt_zero m)
    | used c =>
      simp only [if_neg (hother _ (probe_lt hcapacity k i) c hslot)]
      obtain ⟨hfound, hkept, hnone⟩ := ih (i + 1) deleted
      refine ⟨hfound, hkept, fun hdeleted => ?_⟩
      rcases hnone hdeleted with ⟨m, hm, hslot', hfresh, hbefore⟩ | hall
      · refine .inl ⟨m + 1, by omega, ?_, ?_, fun m' hm' => ?_⟩
        · rwa [show i + (m + 1) = i + 1 + m by omega]
        · rwa [show i + (m + 1) = i + 1 + m by omega]
        · cases m' with
          | zero =>
            rw [Nat.add_zero, hslot]
            exact fun h => nomatch h
          | succ m' =>
            rw [show i + (m' + 1) = i + 1 + m' by omega]
            exact hbefore m' (by omega)
      · refine .inr fun m hm => ?_
        cases m with
        | zero => exact ⟨c, hslot⟩
        | succ m =>
          rw [show i + (m + 1) = i + 1 + m by omega]
          exact hall m (by omega)
    | deleted =>
      obtain ⟨hfound, hkept, -⟩ := ih (i + 1) (some (deleted.getD (t.probe hash k i)))
      refine ⟨hfound, fun j hj => ?_, fun hnone => .inl ⟨0, Nat.succ_pos fuel, ?_, ?_, ?_⟩⟩
      · rw [hkept _ rfl, hj]
        rfl
      · rw [hkept _ rfl, hnone]
        rfl
      · intro c
        rw [Nat.add_zero, hslot]
        exact fun h => nomatch h
      · exact fun m hm => absurd hm (Nat.not_lt_zero m)

/-- **The slot of a record is found.** -/
theorem Indexes.search_found (h : t.Indexes hash key live) {c : Nat} (hc : c ∈ live) :
    ∃ j < t.capacity, t.slots j = .used c ∧ t.search hash key (key c) = (some j, true) := by
  obtain ⟨i, hi, hslot, hchain⟩ := h.reach c hc
  have hcapacity : 0 < t.capacity := by omega
  refine ⟨_, probe_lt hcapacity (key c) i, hslot, ?_⟩
  have hothers : ∀ m < i, ∀ c', t.slots (t.probe hash (key c) m) = .used c' → key c' ≠ key c := by
    -- the record has one slot only, and a round meets it once
    intro m hm c' hc' heq
    have hsame : c' = c := h.distinct c' (h.used _ (probe_lt hcapacity _ _) c' hc') c hc heq
    rw [hsame] at hc'
    have hplace := h.single _ (probe_lt hcapacity _ _) _ (probe_lt hcapacity _ _) c hc' hslot
    exact absurd (probe_injective (by omega) hi hplace) (by omega)
  have hfound : t.search hash key (key c) = (some (t.probe hash (key c) (0 + i)), true) := by
    refine searchFrom_found hi (fun m hm => ?_) (by rwa [Nat.zero_add]) rfl
    rw [Nat.zero_add]
    exact ⟨hchain m hm, hothers m hm⟩
  rwa [Nat.zero_add] at hfound

/-- **There is a slot for a new key**, while there are more slots than records. -/
theorem Indexes.search_absent (h : t.Indexes hash key live) (hnew : ∀ c ∈ live, key c ≠ k)
    (hroom : live.card < t.capacity) :
    ∃ i < t.capacity, t.search hash key k = (some (t.probe hash k i), false) ∧
      (∀ c, t.slots (t.probe hash k i) ≠ .used c) ∧ ∀ m < i, t.slots (t.probe hash k m) ≠ .free := by
  have hcapacity : 0 < t.capacity := by omega
  have hother : ∀ j < t.capacity, ∀ c, t.slots j = .used c → key c ≠ k := fun j hj c hslot =>
    hnew c (h.used j hj c hslot)
  obtain ⟨hfound, -, hnone⟩ := searchFrom_absent hash hother t.capacity 0 hcapacity none
  replace hnone := hnone rfl
  simp only [Nat.zero_add] at hnone
  rcases hnone with ⟨i, hi, hslot, hfresh, hbefore⟩ | hall
  · exact ⟨i, hi, Prod.ext hslot hfound, hfresh, hbefore⟩
  · -- every slot would be taken, by as many records
    exfalso
    have htaken : ∀ j < t.capacity, ∃ c, t.slots j = .used c := by
      intro j hj
      obtain ⟨i, hi, rfl⟩ : ∃ i < t.capacity, t.probe hash k i = j := exists_probe k hj
      exact hall i hi
    choose! record hrecord using htaken
    have hcard := Finset.card_le_card_of_injOn (s := Finset.range t.capacity) (t := live) record
      (fun j hj => h.used j (Finset.mem_range.mp hj) _ (hrecord j (Finset.mem_range.mp hj)))
      (fun j hj j' hj' heq => by
        have hj := Finset.mem_range.mp hj
        have hj' := Finset.mem_range.mp hj'
        exact h.single j hj j' hj' _ (hrecord j hj) (heq ▸ hrecord j' hj'))
    rw [Finset.card_range] at hcard
    omega

omit [DecidableEq K] in
/-- **Taking a record in**, at a slot that a search for its key gave. -/
theorem Indexes.insert (h : t.Indexes hash key live) {c i : Nat} (hnew : ∀ c' ∈ live, key c' ≠ key c)
    (hi : i < t.capacity) (hfresh : ∀ c', t.slots (t.probe hash (key c) i) ≠ .used c')
    (hbefore : ∀ m < i, t.slots (t.probe hash (key c) m) ≠ .free) :
    (t.set (t.probe hash (key c) i) (.used c)).Indexes hash key (Insert.insert c live) := by
  have hslot : ∀ j, (t.set (t.probe hash (key c) i) (.used c)).slots j =
      if j = t.probe hash (key c) i then .used c else t.slots j := fun j => Function.update_apply _ _ _ _
  have hkept : ∀ j, t.slots j ≠ .free → (t.set (t.probe hash (key c) i) (.used c)).slots j ≠ .free := by
    intro j hj
    rw [hslot]
    split
    · exact fun h => nomatch h
    · exact hj
  have hout : c ∉ live := fun hc => hnew c hc rfl
  have hcapacity : 0 < t.capacity := by omega
  constructor
  · intro a ha b hb heq
    rcases Finset.mem_insert.mp ha with hac | ha <;> rcases Finset.mem_insert.mp hb with hbc | hb
    · rw [hac, hbc]
    · exact absurd (hac ▸ heq.symm) (hnew b hb)
    · exact absurd (hbc ▸ heq) (hnew a ha)
    · exact h.distinct a ha b hb heq
  · intro a ha
    rcases Finset.mem_insert.mp ha with rfl | ha
    · exact ⟨i, hi, by rw [hslot]; exact if_pos rfl, fun m hm => hkept _ (hbefore m hm)⟩
    · obtain ⟨n, hn, hplace, hchain⟩ := h.reach a ha
      refine ⟨n, hn, ?_, fun m hm => hkept _ (hchain m hm)⟩
      rw [hslot, if_neg]
      · exact hplace
      · exact fun heq => hfresh a (by rw [← heq]; exact hplace)
  · intro j hj a ha
    rw [hslot] at ha
    split at ha
    · cases ha
      exact Finset.mem_insert_self c live
    · exact Finset.mem_insert_of_mem (h.used j hj a ha)
  · intro j hj j' hj' a ha ha'
    rw [hslot] at ha ha'
    split at ha <;> split at ha'
    · rename_i hj₁ hj₂
      rw [hj₁, hj₂]
    · cases ha
      exact absurd (h.used j' hj' c ha') hout
    · cases ha'
      exact absurd (h.used j hj c ha) hout
    · exact h.single j hj j' hj' a ha ha'

omit [DecidableEq K] in
/-- **Giving a record up** leaves a mark in its slot. -/
theorem Indexes.remove (h : t.Indexes hash key live) {c j : Nat} (hj : j < t.capacity) (hslot : t.slots j = .used c) :
    (t.set j .deleted).Indexes hash key (live.erase c) := by
  have hset : ∀ i, (t.set j .deleted).slots i = if i = j then .deleted else t.slots i := fun i =>
    Function.update_apply _ _ _ _
  constructor
  · intro a ha b hb heq
    exact h.distinct a (Finset.mem_of_mem_erase ha) b (Finset.mem_of_mem_erase hb) heq
  · intro a ha
    obtain ⟨n, hn, hplace, hchain⟩ := h.reach a (Finset.mem_of_mem_erase ha)
    refine ⟨n, hn, ?_, fun m hm => ?_⟩
    · rw [hset, if_neg]
      · exact hplace
      · intro heq
        change t.probe hash (key a) n = j at heq
        rw [heq, hslot] at hplace
        cases hplace
        exact Finset.ne_of_mem_erase ha rfl
    · rw [hset]
      split
      · exact fun h => nomatch h
      · exact hchain m hm
  · intro i hi a ha
    rw [hset] at ha
    split at ha
    · cases ha
    · rename_i hne
      refine Finset.mem_erase.mpr ⟨?_, h.used i hi a ha⟩
      rintro rfl
      exact hne (h.single i hi j hj a ha hslot)
  · intro i hi i' hi' a ha ha'
    rw [hset] at ha ha'
    split at ha <;> split at ha'
    · cases ha
    · cases ha
    · cases ha'
    · exact h.single i hi i' hi' a ha ha'

omit [DecidableEq K] in
/-- Only the keys of the records matter. -/
theorem Indexes.congr (h : t.Indexes hash key live) {key' : Nat → K} (hkey : ∀ c ∈ live, key' c = key c) :
    t.Indexes hash key' live := by
  refine ⟨fun a ha b hb heq => ?_, fun c hc => ?_, h.used, h.single⟩
  · rw [hkey a ha, hkey b hb] at heq
    exact h.distinct a ha b hb heq
  · rw [hkey c hc]
    exact h.reach c hc

omit [DecidableEq K] in
theorem indexes_empty (hash : K → Nat) (key : Nat → K) (capacity : Nat) :
    (⟨capacity, fun _ => .free⟩ : MarkedTable).Indexes hash key ∅ := by
  refine ⟨?_, ?_, ?_, ?_⟩
  · exact fun c hc => absurd hc (Finset.notMem_empty c)
  · exact fun c hc => absurd hc (Finset.notMem_empty c)
  · exact fun j _ c hc => nomatch hc
  · exact fun j _ j' _ c hc => nomatch hc

end MarkedTable

end Yappod

import Mathlib.Data.List.Lex
import Mathlib.Data.Prod.Lex
import Yappod.Lib.PositionHeap
import Yappod.Lib.MarkedTable
import Yappod.Lib.BestByName
import Yappod.Storage.Snapshot

/-!
# The candidate set

The bounded set of candidates of a query: the records in `items`, a heap of their indices with the worst at the root, and
a hash table from ids to indices.  A candidate whose id is in the set replaces it if it is better; others take a new place
or that of the worst.

* `CandidateSet.Consistent` — heap, positions and hash table agree with the items.
* `CandidateSet.Holds` — the items are the best of the candidates added, by id.
* `candidateSet_exact` — this holds after any sequence of candidates, in whatever order.
-/

set_option autoImplicit false

namespace Yappod

namespace ByteOrder

/-- The order of `memcmp`. -/
scoped instance linearOrderByte : LinearOrder UInt8 where
  le_refl := UInt8.le_refl
  le_trans _ _ _ := UInt8.le_trans
  le_antisymm _ _ := UInt8.le_antisymm
  lt_iff_le_not_ge a b := by
    rw [UInt8.not_le]
    exact ⟨fun h => ⟨UInt8.le_of_lt h, h⟩, And.right⟩
  le_total := UInt8.le_total
  toDecidableLE := inferInstance
  toDecidableLT := inferInstance
  toDecidableEq := inferInstance

end ByteOrder

open scoped ByteOrder

/-- `CANDIDATE`, with scores from `S`. -/
structure Candidate (S : Type) where
  id : Bytes
  parent : Bytes
  segment : Nat
  ordinal : Nat
  score : S
  deriving DecidableEq, Repr

/-- `CANDIDATE_SET`: `heap` and `heap_positions` are a `PositionHeap`, `hash` and `hash_capacity` a `MarkedTable`. -/
structure CandidateSet (S : Type) where
  items : Nat → Candidate S
  count : Nat
  capacity : Nat
  heap : PositionHeap
  hash : MarkedTable

/-- `SIZE_MAX`. -/
def sizeMax : Nat := 2 ^ 64 - 1

/-- The `while` loop of `candidate_set_init`. -/
def hashCapacityLoop (target : Nat) : Nat → Nat → Except Status Nat
  | 0, _ => .error .outOfRange
  | fuel + 1, hashCapacity =>
    if hashCapacity < target then
      if sizeMax / 2 < hashCapacity then .error .outOfRange else hashCapacityLoop target fuel (hashCapacity * 2)
    else .ok hashCapacity

/-- `candidate_set_init`; `zero` is the score of cleared memory. -/
def candidateSetInit {S : Type} (zero : S) (capacity : Nat) : Except Status (CandidateSet S) :=
  if capacity = 0 ∨ sizeMax / 2 < capacity then .error .invalidArgument
  else do
    let hashCapacity ← hashCapacityLoop (capacity * 2) 64 1
    return {
      items := fun _ => ⟨[], [], 0, 0, zero⟩
      count := 0
      capacity := capacity
      heap := ⟨fun _ => 0, fun _ => 0⟩
      hash := ⟨hashCapacity, fun _ => .free⟩ }

variable {S : Type} [LinearOrder S]

/-- `candidate_better`. -/
def candidateBetter (left right : Candidate S) : Bool :=
  if left.score ≠ right.score then right.score < left.score else left.id < right.id

/-- `candidate_worse`. -/
def candidateWorse (left right : Candidate S) : Bool := candidateBetter right left

namespace CandidateSet

variable (set : CandidateSet S)

/-- The id of an item. -/
def itemId (c : Nat) : Bytes := (set.items c).id

/-- `candidate_hash_slot`: the slot, if there is one, and whether the id was found. -/
def candidateHashSlot (id : Bytes) : Option Nat × Bool := set.hash.search bytesHash set.itemId id

/-- `candidate_hash_insert`; `none` if there were no slot to write to. -/
def candidateHashInsert (candidateIndex : Nat) : Option (CandidateSet S) :=
  (set.candidateHashSlot (set.itemId candidateIndex)).1.map fun slot =>
    { set with hash := set.hash.set slot (.used candidateIndex) }

/-- `candidate_hash_remove`. -/
def candidateHashRemove (id : Bytes) : CandidateSet S :=
  match set.candidateHashSlot id with
  | (some slot, true) => { set with hash := set.hash.set slot .deleted }
  | _ => set

/-- Whether one item is worse than another. -/
def itemWorse (a b : Nat) : Bool := candidateWorse (set.items a) (set.items b)

/-- `candidate_heap_up`. -/
def candidateHeapUp (position : Nat) : CandidateSet S :=
  { set with heap := set.heap.siftUp set.itemWorse position position }

/-- `candidate_heap_down`. -/
def candidateHeapDown (position : Nat) : CandidateSet S :=
  { set with heap := set.heap.siftDown set.itemWorse set.count set.count position }

/-- Overwrite an item. -/
def setItem (index : Nat) (candidate : Candidate S) : CandidateSet S :=
  { set with items := Function.update set.items index candidate }

/-- Put the index `count` at the end of the heap. -/
def pushIndex : CandidateSet S := { set with heap := set.heap.push set.count, count := set.count + 1 }

/-- `candidate_set_add`; `none` only if a slot were missing. -/
def add (candidate : Candidate S) : Option (CandidateSet S) :=
  match set.candidateHashSlot candidate.id with
  | (some slot, true) =>
    match set.hash.slots slot with
    | .used candidateIndex =>
      if !candidateBetter candidate (set.items candidateIndex) then some set
      else
        let set := set.setItem candidateIndex candidate
        some (set.candidateHeapDown (set.heap.positions candidateIndex))
    | _ => none
  | _ =>
    if set.count < set.capacity then
      let candidateIndex := set.count
      let set := (set.setItem candidateIndex candidate).pushIndex
      (set.candidateHashInsert candidateIndex).map fun set => set.candidateHeapUp candidateIndex
    else
      let root := set.heap.heap 0
      if !candidateBetter candidate (set.items root) then some set
      else
        let set := (set.candidateHashRemove (set.itemId root)).setItem root candidate
        (set.candidateHashInsert root).map fun set => set.candidateHeapDown 0

/-- One candidate after the other. -/
def addAll (candidates : List (Candidate S)) : Option (CandidateSet S) := candidates.foldlM add set

/-- What is in the set. -/
def contents : List (Candidate S) := (List.range set.count).map set.items

end CandidateSet

/-! ## The order of candidates -/

/-- A candidate by its score, the best first, and its id. -/
def Candidate.rank (c : Candidate S) : Sᵒᵈ ×ₗ Bytes := toLex (OrderDual.toDual c.score, c.id)

/-- The id in a rank. -/
def rankId (r : Sᵒᵈ ×ₗ Bytes) : Bytes := (ofLex r).2

omit [LinearOrder S] in
theorem rankId_rank (c : Candidate S) : rankId c.rank = c.id := rfl

theorem candidateBetter_iff {a b : Candidate S} : candidateBetter a b = true ↔ a.rank < b.rank := by
  rw [candidateBetter, Candidate.rank, Candidate.rank, Prod.Lex.toLex_lt_toLex, OrderDual.toDual_lt_toDual,
    OrderDual.toDual_inj]
  by_cases heq : a.score = b.score
  · simp [heq]
  · simp [heq]

theorem candidateBetter_eq_false {a b : Candidate S} : (!candidateBetter a b) = true ↔ b.rank ≤ a.rank := by
  rw [Bool.not_eq_true', ← Bool.not_eq_true, candidateBetter_iff, not_lt]

/-- The candidates in a set by rank. -/
def CandidateSet.ranking (set : CandidateSet S) : List (Sᵒᵈ ×ₗ Bytes) := sortByKey id (set.contents.map Candidate.rank)

/-- The rank of an item. -/
def CandidateSet.itemRank (set : CandidateSet S) (c : Nat) : Sᵒᵈ ×ₗ Bytes := (set.items c).rank

theorem CandidateSet.itemWorse_iff (set : CandidateSet S) (a b : Nat) :
    set.itemWorse a b = true ↔ set.itemRank b < set.itemRank a := candidateBetter_iff

/-! ## One candidate more -/

namespace CandidateSet

/-- Heap, positions and hash table agree with the items. -/
structure Consistent (set : CandidateSet S) : Prop where
  count_le : set.count ≤ set.capacity
  positive : 0 < set.capacity
  room : set.capacity * 2 ≤ set.hash.capacity
  positioned : set.heap.Positioned set.count
  ordered : set.heap.Ordered set.itemRank set.count
  indexes : set.hash.Indexes bytesHash set.itemId (Finset.range set.count)

/-- The items are the best of the candidates that were added, by id. -/
structure Holds (set : CandidateSet S) (candidates : List (Candidate S)) : Prop where
  consistent : set.Consistent
  best : BestItems rankId set.capacity set.count (candidates.map Candidate.rank) set.itemRank
  mem : ∀ i < set.count, set.items i ∈ candidates

variable {set : CandidateSet S} {candidates : List (Candidate S)} {candidate : Candidate S}

theorem Holds.hash_room (h : set.Holds candidates) : (Finset.range set.count).card < set.hash.capacity := by
  have hcount := h.consistent.count_le
  have hpositive := h.consistent.positive
  have hroom := h.consistent.room
  rw [Finset.card_range]
  omega

omit [LinearOrder S] in
theorem items_setItem (index : Nat) :
    (set.setItem index candidate).items = Function.update set.items index candidate := rfl

omit [LinearOrder S] in
theorem itemRank_setItem (index : Nat) :
    (set.setItem index candidate).itemRank = Function.update set.itemRank index candidate.rank := by
  funext c
  rw [itemRank, items_setItem, Function.update_apply, Function.update_apply]
  split <;> rfl

omit [LinearOrder S] in
theorem itemId_setItem (index : Nat) :
    (set.setItem index candidate).itemId = Function.update set.itemId index candidate.id := by
  funext c
  rw [itemId, items_setItem, Function.update_apply, Function.update_apply]
  split <;> rfl

omit [LinearOrder S] in
theorem mem_setItem (h : ∀ i < set.count, set.items i ∈ candidates) {index n : Nat}
    (hn : ∀ i < n, i ≠ index → i < set.count) :
    ∀ i < n, (set.setItem index candidate).items i ∈ candidates ++ [candidate] := by
  intro i hi
  rw [items_setItem]
  by_cases hindex : i = index
  · rw [hindex, Function.update_self]
    exact List.mem_append_right _ (List.mem_singleton_self candidate)
  · rw [Function.update_of_ne hindex]
    exact List.mem_append_left _ (h i (hn i hi hindex))

/-- Whether the id of a candidate is in the set. -/
theorem Holds.hash_cases (h : set.Holds candidates) (id : Bytes) :
    (∃ c < set.count, set.itemId c = id ∧ ∃ slot < set.hash.capacity, set.hash.slots slot = .used c ∧
      set.candidateHashSlot id = (some slot, true)) ∨
    (∀ c < set.count, set.itemId c ≠ id) ∧ ∃ i < set.hash.capacity,
      set.candidateHashSlot id = (some (set.hash.probe bytesHash id i), false) ∧
      (∀ c, set.hash.slots (set.hash.probe bytesHash id i) ≠ .used c) ∧
      ∀ m < i, set.hash.slots (set.hash.probe bytesHash id m) ≠ .free := by
  by_cases hex : ∃ c < set.count, set.itemId c = id
  · obtain ⟨c, hc, rfl⟩ := hex
    obtain ⟨slot, hslot, hused, hsearch⟩ := h.consistent.indexes.search_found (Finset.mem_range.mpr hc)
    exact .inl ⟨c, hc, rfl, slot, hslot, hused, hsearch⟩
  · push Not at hex
    exact .inr ⟨hex, h.consistent.indexes.search_absent (fun c hc => hex c (Finset.mem_range.mp hc)) h.hash_room⟩

/-- The root of the heap is the worst item. -/
theorem Holds.le_root (h : set.Holds candidates) : ∀ i < set.count, set.itemRank i ≤ set.itemRank (set.heap.heap 0) := by
  intro i hi
  have hle := h.consistent.ordered.le_root _ (h.consistent.positioned.positions_lt i hi)
  rwa [h.consistent.positioned.heap_positions i hi] at hle

omit [LinearOrder S] in
/-- An index whose id is not in the table gets a slot. -/
theorem candidateHashInsert_spec (set : CandidateSet S) (index : Nat) {live : Finset Nat} (h : set.hash.Indexes bytesHash set.itemId live)
    (hnew : ∀ c ∈ live, set.itemId c ≠ set.itemId index) (hroom : live.card < set.hash.capacity) :
    ∃ hash, set.candidateHashInsert index = some { set with hash := hash } ∧ hash.capacity = set.hash.capacity ∧
      hash.Indexes bytesHash set.itemId (insert index live) := by
  obtain ⟨i, hi, hsearch, hfresh, hbefore⟩ := h.search_absent hnew hroom
  have hinsert : set.candidateHashInsert index =
      some { set with hash := set.hash.set (set.hash.probe bytesHash (set.itemId index) i) (.used index) } := by
    rw [candidateHashInsert, candidateHashSlot, hsearch]
    rfl
  exact ⟨_, hinsert, rfl, h.insert hnew hi hfresh hbefore⟩

/-- A better candidate with the id of an item. -/
theorem Holds.replace (h : set.Holds candidates) {c : Nat} (hc : c < set.count) (hid : set.itemId c = candidate.id)
    (hlt : candidate.rank < set.itemRank c) :
    ((set.setItem c candidate).candidateHeapDown (set.heap.positions c)).Holds (candidates ++ [candidate]) := by
  have hcons := h.consistent
  have hrank := @itemRank_setItem S set candidate c
  have hready : set.heap.DownReady (set.setItem c candidate).itemRank set.count (set.heap.positions c) := by
    refine hcons.ordered.downReady hcons.positioned (hcons.positioned.positions_lt c hc) (fun c' hc' => ?_) ?_
    · rw [hcons.positioned.heap_positions c hc] at hc'
      rw [hrank, Function.update_of_ne hc']
    · rw [hcons.positioned.heap_positions c hc, hrank, Function.update_self]
      exact hlt.le
  obtain ⟨hpositioned, hordered⟩ := PositionHeap.siftDown_spec _ (set.setItem c candidate).itemWorse_iff set.count
    (by omega) (hcons.positioned.positions_lt c hc) hcons.positioned hready
  refine ⟨⟨hcons.count_le, hcons.positive, hcons.room, hpositioned, hordered, hcons.indexes.congr fun c' _ => ?_⟩, ?_,
    mem_setItem h.mem fun i hi _ => hi⟩
  · change (set.setItem c candidate).itemId c' = _
    rw [itemId_setItem, Function.update_apply]
    split
    · rename_i heq
      rw [heq, hid]
    · rfl
  · have hbest := h.best.replace (x := candidate.rank) hc hid hlt
    rw [← hrank] at hbest
    rw [List.map_append, List.map_singleton]
    exact hbest

/-- A candidate with a new id, while there is a place. -/
theorem Holds.push (h : set.Holds candidates) (hnew : ∀ c < set.count, set.itemId c ≠ candidate.id)
    (hroom : set.count < set.capacity) :
    ∃ set', (((set.setItem set.count candidate).pushIndex).candidateHashInsert set.count).map
        (fun set' => set'.candidateHeapUp set.count) = some set' ∧ set'.capacity = set.capacity ∧
      set'.Holds (candidates ++ [candidate]) := by
  have hcons := h.consistent
  have hrank : ((set.setItem set.count candidate).pushIndex).itemRank =
      Function.update set.itemRank set.count candidate.rank := itemRank_setItem set.count
  have hid : ((set.setItem set.count candidate).pushIndex).itemId =
      Function.update set.itemId set.count candidate.id := itemId_setItem set.count
  have hold : ∀ c < set.count, Function.update set.itemId set.count candidate.id c = set.itemId c := fun c hc =>
    Function.update_of_ne (by omega) _ _
  have hindexes : set.hash.Indexes bytesHash ((set.setItem set.count candidate).pushIndex).itemId
      (Finset.range set.count) := by
    rw [hid]
    exact hcons.indexes.congr fun c hc => hold c (Finset.mem_range.mp hc)
  obtain ⟨hash, hinsert, hcapacity, hindexes'⟩ := candidateHashInsert_spec (set.setItem set.count candidate).pushIndex
    set.count hindexes (fun c hc => by
      rw [hid, hold c (Finset.mem_range.mp hc), Function.update_self]
      exact hnew c (Finset.mem_range.mp hc)) h.hash_room
  have hready : (set.heap.push set.count).UpReady ((set.setItem set.count candidate).pushIndex).itemRank (set.count + 1)
      set.count := by
    refine hcons.ordered.upReady_push hcons.positioned fun c hc => ?_
    rw [hrank, Function.update_of_ne (by omega)]
  obtain ⟨hpositioned, hordered⟩ := PositionHeap.siftUp_spec _ ((set.setItem set.count candidate).pushIndex).itemWorse_iff
    set.count le_rfl (Nat.lt_succ_self _) hcons.positioned.push hready
  rw [hinsert]
  refine ⟨_, rfl, rfl, ⟨hroom, hcons.positive, ?_, hpositioned, hordered, ?_⟩, ?_, ?_⟩
  · change set.capacity * 2 ≤ hash.capacity
    rw [hcapacity]
    exact hcons.room
  · change hash.Indexes bytesHash _ (Finset.range (set.count + 1))
    rw [Finset.range_add_one]
    exact hindexes'
  · have hbest := h.best.push (x := candidate.rank) hnew hroom
    rw [← hrank] at hbest
    rw [List.map_append, List.map_singleton]
    exact hbest
  · exact mem_setItem h.mem fun i hi hne => by
      change i < set.count + 1 at hi
      omega

/-- A candidate with a new id that is better than the worst item. -/
theorem Holds.evict (h : set.Holds candidates) (hnew : ∀ c < set.count, set.itemId c ≠ candidate.id)
    (hfull : set.count = set.capacity) (hlt : candidate.rank < set.itemRank (set.heap.heap 0)) :
    ∃ set', ((((set.candidateHashRemove (set.itemId (set.heap.heap 0))).setItem (set.heap.heap 0) candidate)).candidateHashInsert
        (set.heap.heap 0)).map (fun set' => set'.candidateHeapDown 0) = some set' ∧ set'.capacity = set.capacity ∧
      set'.Holds (candidates ++ [candidate]) := by
  have hcons := h.consistent
  have hpositive := hcons.positive
  have hroot : set.heap.heap 0 < set.count := hcons.positioned.heap_lt 0 (by omega)
  set root := set.heap.heap 0 with hrootdef
  -- the slot of the worst item is marked
  obtain ⟨slot, hslot, hused, hsearch⟩ := hcons.indexes.search_found (Finset.mem_range.mpr hroot)
  have hremove : set.candidateHashRemove (set.itemId root) = { set with hash := set.hash.set slot .deleted } := by
    rw [candidateHashRemove, candidateHashSlot, hsearch]
  have hremoved := hcons.indexes.remove hslot hused
  rw [hremove]
  set marked : CandidateSet S := { set with hash := set.hash.set slot .deleted } with hmarked
  have hrank : (marked.setItem root candidate).itemRank = Function.update set.itemRank root candidate.rank :=
    itemRank_setItem root
  have hid : (marked.setItem root candidate).itemId = Function.update set.itemId root candidate.id := itemId_setItem root
  have hindexes : (set.hash.set slot .deleted).Indexes bytesHash (marked.setItem root candidate).itemId
      ((Finset.range set.count).erase root) := by
    rw [hid]
    exact hremoved.congr fun c hc => Function.update_of_ne (Finset.ne_of_mem_erase hc) _ _
  obtain ⟨hash, hinsert, hcapacity, hindexes'⟩ := candidateHashInsert_spec (marked.setItem root candidate) root
    hindexes (fun c hc => by
      rw [hid, Function.update_of_ne (Finset.ne_of_mem_erase hc), Function.update_self]
      exact hnew c (Finset.mem_range.mp (Finset.mem_of_mem_erase hc)))
    ((Finset.card_erase_le).trans_lt h.hash_room)
  rw [Finset.insert_erase (Finset.mem_range.mpr hroot)] at hindexes'
  have hready : set.heap.DownReady (marked.setItem root candidate).itemRank set.count 0 := by
    refine hcons.ordered.downReady hcons.positioned (by omega) (fun c hc => ?_) ?_
    · rw [hrank, Function.update_of_ne hc]
    · rw [← hrootdef, hrank, Function.update_self]
      exact hlt.le
  obtain ⟨hpositioned, hordered⟩ := PositionHeap.siftDown_spec _ (marked.setItem root candidate).itemWorse_iff set.count
    (by omega) (by omega) hcons.positioned hready
  rw [hinsert]
  refine ⟨_, rfl, rfl, ⟨hcons.count_le, hpositive, ?_, hpositioned, hordered, hindexes'⟩, ?_, ?_⟩
  · change set.capacity * 2 ≤ hash.capacity
    rw [hcapacity]
    exact hcons.room
  · have hbest := h.best.evict (x := candidate.rank) hnew hfull hroot h.le_root hlt
    rw [← hrank] at hbest
    rw [List.map_append, List.map_singleton]
    exact hbest
  · have hmem : ∀ i < marked.count, marked.items i ∈ candidates := h.mem
    exact mem_setItem hmem fun i hi _ => hi

/-- **Adding a candidate** never lacks a slot, and keeps the best by id. -/
theorem Holds.add (h : set.Holds candidates) (candidate : Candidate S) :
    ∃ set', set.add candidate = some set' ∧ set'.capacity = set.capacity ∧ set'.Holds (candidates ++ [candidate]) := by
  have hcons := h.consistent
  rw [CandidateSet.add]
  rcases h.hash_cases candidate.id with ⟨c, hc, hid, slot, -, hused, hslot⟩ | ⟨hnew, i, -, hslot, -⟩
  · rw [hslot]
    dsimp only
    rw [hused]
    dsimp only
    by_cases hle : set.itemRank c ≤ candidate.rank
    · refine ⟨set, if_pos (candidateBetter_eq_false.mpr hle), rfl, hcons, ?_, fun i hi => ?_⟩
      · rw [List.map_append, List.map_singleton]
        exact h.best.keep hc hid hle
      · exact List.mem_append_left _ (h.mem i hi)
    · exact ⟨_, if_neg (mt candidateBetter_eq_false.mp hle), rfl, h.replace hc hid (not_le.mp hle)⟩
  · rw [hslot]
    dsimp only
    by_cases hroom : set.count < set.capacity
    · rw [if_pos hroom]
      exact h.push hnew hroom
    · have hfull : set.count = set.capacity := Nat.le_antisymm hcons.count_le (Nat.not_lt.mp hroom)
      rw [if_neg hroom]
      by_cases hle : set.itemRank (set.heap.heap 0) ≤ candidate.rank
      · refine ⟨set, if_pos (candidateBetter_eq_false.mpr hle), rfl, hcons, ?_, fun i hi => ?_⟩
        · rw [List.map_append, List.map_singleton]
          exact h.best.drop hnew hfull h.le_root hle
        · exact List.mem_append_left _ (h.mem i hi)
      · rw [if_neg (mt candidateBetter_eq_false.mp hle)]
        exact h.evict hnew hfull (not_le.mp hle)

/-- **Adding candidates one after the other.** -/
theorem Holds.addAll (h : set.Holds candidates) (more : List (Candidate S)) :
    ∃ set', set.addAll more = some set' ∧ set'.capacity = set.capacity ∧ set'.Holds (candidates ++ more) := by
  induction more generalizing set candidates with
  | nil => exact ⟨set, rfl, rfl, by rwa [List.append_nil]⟩
  | cons candidate more ih =>
    obtain ⟨set₁, hadd, hcapacity, hholds⟩ := h.add candidate
    obtain ⟨set₂, hall, hcapacity', hholds'⟩ := ih hholds
    refine ⟨set₂, ?_, hcapacity'.trans hcapacity, by rwa [List.append_assoc] at hholds'⟩
    rw [CandidateSet.addAll, List.foldlM_cons, hadd]
    exact hall

/-- The set in order. -/
theorem Holds.ranking_eq (h : set.Holds candidates) :
    set.ranking = (sortByKey id (bestByName rankId (candidates.map Candidate.rank))).take set.capacity := by
  rw [ranking, contents, List.map_map]
  exact h.best.sort_eq

end CandidateSet

/-! ## Any sequence of candidates -/

theorem le_of_hashCapacityLoop {target fuel hashCapacity capacity : Nat}
    (h : hashCapacityLoop target fuel hashCapacity = .ok capacity) : target ≤ capacity := by
  induction fuel generalizing hashCapacity with
  | zero => cases h
  | succ fuel ih =>
    rw [hashCapacityLoop] at h
    split at h
    · split at h
      · cases h
      · exact ih h
    · cases h
      omega

/-- A new set holds nothing. -/
theorem candidateSetInit_holds {zero : S} {capacity : Nat} {set : CandidateSet S}
    (h : candidateSetInit zero capacity = .ok set) : set.capacity = capacity ∧ set.Holds [] := by
  rw [candidateSetInit] at h
  split at h
  · cases h
  · rename_i hcapacity
    cases hloop : hashCapacityLoop (capacity * 2) 64 1 with
    | error status =>
      rw [hloop] at h
      cases h
    | ok hashCapacity =>
      rw [hloop] at h
      cases h
      have hpositive : 0 < capacity := Nat.pos_of_ne_zero fun hzero => hcapacity (.inl hzero)
      refine ⟨rfl, ⟨Nat.zero_le _, hpositive, le_of_hashCapacityLoop hloop, ?_, ?_, ?_⟩, .nil rankId capacity _, ?_⟩
      · exact ⟨fun i hi => absurd hi (Nat.not_lt_zero i), fun i hi => absurd hi (Nat.not_lt_zero i),
          fun i hi => absurd hi (Nat.not_lt_zero i), fun i hi => absurd hi (Nat.not_lt_zero i)⟩
      · exact fun i hi => absurd hi (Nat.not_lt_zero i)
      · exact MarkedTable.indexes_empty bytesHash _ hashCapacity
      · exact fun i hi => absurd hi (Nat.not_lt_zero i)

/-- **The candidate set is exact.**  After any sequence of candidates: heap, positions and hash table are consistent, and
a search for any id ends at a slot; the candidates in the set are the best `capacity` of the ids, each with its best
score; and so they are after any other order of the sequence. -/
theorem candidateSet_exact {zero : S} {capacity : Nat} {empty : CandidateSet S}
    (hinit : candidateSetInit zero capacity = .ok empty) (candidates : List (Candidate S)) :
    ∃ set, empty.addAll candidates = some set ∧ set.Consistent ∧ (∀ id, (set.candidateHashSlot id).1 ≠ none) ∧
      (∀ c ∈ set.contents, c ∈ candidates) ∧
      set.ranking = (sortByKey id (bestByName rankId (candidates.map Candidate.rank))).take capacity ∧
      ∀ candidates', candidates'.Perm candidates →
        ∃ set', empty.addAll candidates' = some set' ∧ set'.ranking = set.ranking := by
  obtain ⟨hcapacity, hempty⟩ := candidateSetInit_holds hinit
  have hrun : ∀ cs : List (Candidate S), ∃ set, empty.addAll cs = some set ∧ set.Holds cs ∧
      set.ranking = (sortByKey id (bestByName rankId (cs.map Candidate.rank))).take capacity := by
    intro cs
    obtain ⟨set, hadd, hsame, hholds⟩ := hempty.addAll cs
    rw [List.nil_append] at hholds
    have hranking := hholds.ranking_eq
    rw [hsame, hcapacity] at hranking
    exact ⟨set, hadd, hholds, hranking⟩
  obtain ⟨set, hadd, hholds, hranking⟩ := hrun candidates
  refine ⟨set, hadd, hholds.consistent, fun id => ?_, fun c hc => ?_, hranking, fun candidates' hperm => ?_⟩
  · rcases hholds.hash_cases id with ⟨c, -, -, slot, -, -, hslot⟩ | ⟨-, i, -, hslot, -⟩
    · rw [hslot]
      exact fun h => nomatch h
    · rw [hslot]
      exact fun h => nomatch h
  · obtain ⟨i, hi, rfl⟩ := List.mem_map.mp hc
    exact hholds.mem i (List.mem_range.mp hi)
  · obtain ⟨set', hadd', -, hranking'⟩ := hrun candidates'
    have hbest : (bestByName rankId (candidates'.map Candidate.rank)).Perm
        (bestByName rankId (candidates.map Candidate.rank)) := bestByName_perm (hperm.map _)
    refine ⟨set', hadd', ?_⟩
    rw [hranking', hranking]
    exact congrArg (List.take capacity) (sortByKey_perm hbest (nodup_bestByName _))

/-- Two places, three ids: the worst is evicted, and comes back with a better score. -/
def sampleCandidates : List (Candidate Nat) :=
  [⟨[1], [9], 0, 0, 5⟩, ⟨[2], [9], 0, 1, 4⟩, ⟨[3], [9], 0, 2, 6⟩, ⟨[2], [9], 1, 0, 7⟩]

theorem candidateSet_exact_sample :
    ∃ empty set, candidateSetInit 0 2 = .ok empty ∧ empty.addAll sampleCandidates = some set ∧ set.Consistent ∧
      set.ranking = [toLex (OrderDual.toDual 7, [2]), toLex (OrderDual.toDual 6, [3])] := by
  have hok : ∃ empty, candidateSetInit 0 2 = .ok empty := ⟨_, rfl⟩
  obtain ⟨empty, hinit⟩ := hok
  obtain ⟨set, hadd, hconsistent, -, -, hranking, -⟩ := candidateSet_exact hinit sampleCandidates
  refine ⟨empty, set, hinit, hadd, hconsistent, hranking.trans ?_⟩
  decide +kernel

end Yappod

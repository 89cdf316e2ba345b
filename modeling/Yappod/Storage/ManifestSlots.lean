import Yappod.Storage.ManifestCodec

/-!
# The slots of a manifest

The table from segment names to places that a manifest carries, as the code has it: an array whose length is a power
of two, where 0 is an empty slot and `i + 1` stands for the `i`-th segment.  `YAP_V2_manifest_add_segment` rebuilds it
when it would be more than half full, looks the new name up, and enters it; `YAP_V2_manifest_segment_map_build` fills
another one for readers.

* `SlotManifest.addSegment`, `segmentMapBuild` — the code, with the allocations that may fail.
* `Indexed` — the first segments are in a table of slots, and nothing else.
* `manifest_slots` — this holds after any sequence of additions, and every loop ends.
-/

set_option autoImplicit false

namespace Yappod

/-! ## The code -/

/-- `YAP_V2_MANIFEST` with its arrays: how many segments it has room for, and the slots. -/
structure SlotManifest where
  manifest : RawManifest
  segmentCapacity : Nat
  slots : List Nat
  deriving DecidableEq

/-- Which allocations of a call succeed. -/
structure Allocations where
  slots : Bool
  segments : Bool

/-- The slot where the probes for a name begin. -/
def firstSlot (id : CString) (capacity : Nat) : Nat := manifestSegmentHash id &&& (capacity - 1)

/-- `while (capacity < n) capacity *= 2U`. -/
def doubleUntil (n : Nat) : Nat → Nat → Nat
  | 0, capacity => capacity
  | fuel + 1, capacity => if capacity < n then doubleUntil n fuel (capacity * 2) else capacity

/-- The length of an array of slots. -/
def slotCapacity (count : Nat) : Nat := doubleUntil (count * 2) (count * 2) 1

/-- Is the name in a slot this one? -/
def slotHolds (segments : List RawSegment) (slots : List Nat) (id : CString) (slot : Nat) : Bool :=
  match slots.getD slot 0 with
  | 0 => false
  | i + 1 => segments[i]?.any fun s => s.id = id

/-- A loop over the slots, one after the other around the array; `none` if it goes around without an end. -/
def probeUntil (capacity : Nat) (stop : Nat → Bool) : Nat → Nat → Option Nat
  | 0, _ => none
  | fuel + 1, slot =>
    if stop slot then some slot else probeUntil capacity stop fuel ((slot + 1) &&& (capacity - 1))

/-- The loop that ends at an empty slot or at the name. -/
def probeName (segments : List RawSegment) (slots : List Nat) (id : CString) : Option Nat :=
  probeUntil slots.length (fun j => slots.getD j 0 = 0 || slotHolds segments slots id j) slots.length
    (firstSlot id slots.length)

/-- The loop that ends at an empty slot. -/
def probeEmpty (slots : List Nat) (id : CString) : Option Nat :=
  probeUntil slots.length (fun j => slots.getD j 0 = 0) slots.length (firstSlot id slots.length)

/-- The loop over the segments that enters them, from the `i`-th on; `twice` is the answer to a name that is there. -/
def fillSlots (twice : Status) (segments : List RawSegment) :
    List RawSegment → Nat → List Nat → Option (Except Status (List Nat))
  | [], _, slots => some (.ok slots)
  | s :: rest, i, slots =>
    match probeName segments slots s.id with
    | none => none
    | some j =>
      if slots.getD j 0 ≠ 0 then some (.error twice) else fillSlots twice segments rest (i + 1) (slots.set j (i + 1))

/-- `manifest_slots_rebuild`. -/
def manifestSlotsRebuild (allocated : Bool) (segments : List RawSegment) (requiredCount : Nat) :
    Option (Except Status (List Nat)) :=
  if maxSegments < requiredCount then some (.error .outOfRange)
  else if !allocated then some (.error .allocationFailed)
  else fillSlots .duplicate segments segments 0 (List.replicate (slotCapacity requiredCount) 0)

/-- `manifest_segment_find`. -/
def manifestSegmentFind (segments : List RawSegment) (slots : List Nat) (id : CString) : Bool :=
  match probeName segments slots id with
  | none => false
  | some j => slots.getD j 0 ≠ 0

/-- The capacity of a full array of segments when it grows. -/
def grownCapacity (capacity : Nat) : Nat :=
  let next := if capacity = 0 then 4 else capacity * 2
  if next < capacity ∨ maxSegments < next then maxSegments else next

namespace SlotManifest

/-- A manifest without segments. -/
def init (generation : UInt64) (configFingerprint : ByteArrayOf 32) : SlotManifest :=
  ⟨⟨2, generation, configFingerprint, []⟩, 0, []⟩

/-- The segments of the manifest. -/
def segments (m : SlotManifest) : List RawSegment := m.manifest.segments

/-- The array of slots for one more segment. -/
def roomySlots (allocated : Bool) (m : SlotManifest) : Option (Except Status (List Nat)) :=
  if m.slots.length = 0 ∨ m.slots.length / 2 < m.segments.length + 1 then
    manifestSlotsRebuild allocated m.segments (m.segments.length + 1)
  else some (.ok m.slots)

/-- Append a segment that is not there, when there are slots enough. -/
def append (allocated : Bool) (m : SlotManifest) (s : RawSegment) : Option (Status × SlotManifest) :=
  if m.segments.length = m.segmentCapacity ∧ !allocated then some (.allocationFailed, m)
  else
    (probeEmpty m.slots s.id).map fun j =>
      (.ok, ⟨{ m.manifest with segments := m.segments ++ [s] },
        if m.segments.length = m.segmentCapacity then grownCapacity m.segmentCapacity else m.segmentCapacity,
        m.slots.set j (m.segments.length + 1)⟩)

/-- `YAP_V2_manifest_add_segment`: the status, and the manifest after it. -/
def addSegment (allocations : Allocations) (m : SlotManifest) (s : RawSegment) : Option (Status × SlotManifest) :=
  if segmentIdValidate s.id ≠ .ok then some (segmentIdValidate s.id, m)
  else if maxSegments ≤ m.segments.length then some (.outOfRange, m)
  else
    match m.roomySlots allocations.slots with
    | none => none
    | some (.error e) => some (e, m)
    | some (.ok slots) =>
      let m := { m with slots := slots }
      if manifestSegmentFind m.segments m.slots s.id then some (.duplicate, m) else m.append allocations.segments s

/-- A sequence of additions, whatever their answers are. -/
def addSegments (m : SlotManifest) : List (Allocations × RawSegment) → Option SlotManifest
  | [] => some m
  | c :: calls => (m.addSegment c.1 c.2).bind fun r => r.2.addSegments calls

/-- Where the slots say that a name is. -/
def slotIndex (m : SlotManifest) (id : CString) : Option Nat :=
  (probeName m.segments m.slots id).bind fun j => if m.slots.getD j 0 = 0 then none else some (m.slots.getD j 0 - 1)

end SlotManifest

/-- `YAP_V2_MANIFEST_SEGMENT_MAP`, of a manifest with these segments; without slots nothing is found. -/
structure SegmentMap where
  segments : List RawSegment
  slots : List Nat
  deriving DecidableEq

/-- `YAP_V2_manifest_segment_map_build`. -/
def segmentMapBuild (allocated : Bool) (m : RawManifest) : Option (Status × SegmentMap) :=
  if m.segments.length = 0 then some (.ok, ⟨m.segments, []⟩)
  else if !allocated then some (.allocationFailed, ⟨[], []⟩)
  else
    (fillSlots .conflict m.segments m.segments 0 (List.replicate (slotCapacity m.segments.length) 0)).map fun r =>
      match r with
      | .error e => (e, ⟨[], []⟩)
      | .ok slots => (.ok, ⟨m.segments, slots⟩)

/-- `YAP_V2_manifest_segment_map_find`. -/
def segmentMapFind (map : SegmentMap) (id : CString) : Except Status Nat :=
  if map.slots.length = 0 then .error .notFound
  else
    match probeName map.segments map.slots id with
    | none => .error .notFound
    | some j => if map.slots.getD j 0 = 0 then .error .notFound else .ok (map.slots.getD j 0 - 1)

/-! ## Probing -/

theorem doubleUntil_spec {n fuel capacity : Nat} (h : ∃ k, capacity = 2 ^ k) (hfuel : n ≤ capacity + fuel) :
    (∃ k, doubleUntil n fuel capacity = 2 ^ k) ∧ n ≤ doubleUntil n fuel capacity := by
  induction fuel generalizing capacity with
  | zero => exact ⟨h, by rw [doubleUntil]; omega⟩
  | succ fuel ih =>
    rw [doubleUntil]
    split
    · obtain ⟨k, rfl⟩ := h
      have hpos : 0 < 2 ^ k := Nat.two_pow_pos k
      exact ih ⟨k + 1, (Nat.pow_succ 2 k).symm⟩ (by omega)
    · exact ⟨h, by omega⟩

theorem slotCapacity_spec (count : Nat) : (∃ k, slotCapacity count = 2 ^ k) ∧ count * 2 ≤ slotCapacity count :=
  doubleUntil_spec ⟨0, rfl⟩ (by omega)

/-- The table that the slots are. -/
def slotTable (segments : List RawSegment) (slots : List Nat) : Table CString Nat where
  capacity := slots.length
  slots j :=
    match slots.getD j 0 with
    | 0 => none
    | i + 1 => segments[i]?.map fun s => (s.id, i)

section Probe

variable {segments : List RawSegment} {slots : List Nat} {k : Nat}

theorem slotTable_none {j : Nat} (h : slots.getD j 0 = 0) : (slotTable segments slots).slots j = none := by
  rw [slotTable]
  dsimp only
  rw [h]

theorem slotTable_some {i j : Nat} {s : RawSegment} (h : slots.getD j 0 = i + 1) (hs : segments[i]? = some s) :
    (slotTable segments slots).slots j = some (s.id, i) := by
  rw [slotTable]
  dsimp only
  rw [h]
  dsimp only
  rw [hs]
  rfl

theorem slotHolds_some {i j : Nat} {s : RawSegment} (h : slots.getD j 0 = i + 1) (hs : segments[i]? = some s)
    (id : CString) : slotHolds segments slots id j = decide (s.id = id) := by
  rw [slotHolds, h]
  dsimp only
  rw [hs]
  rfl

theorem firstSlot_eq (h : slots.length = 2 ^ k) (id : CString) :
    firstSlot id slots.length = (slotTable segments slots).probe manifestSegmentHash id 0 := by
  rw [firstSlot, Table.probe, slotTable, h, Nat.and_two_pow_sub_one_eq_mod, Nat.add_zero]

theorem nextSlot_eq (h : slots.length = 2 ^ k) (id : CString) (i : Nat) :
    ((slotTable segments slots).probe manifestSegmentHash id i + 1) &&& (slots.length - 1) =
      (slotTable segments slots).probe manifestSegmentHash id (i + 1) := by
  rw [Table.probe, Table.probe, slotTable, h, Nat.and_two_pow_sub_one_eq_mod, Nat.mod_add_mod, Nat.add_assoc]

/-- With slots that stand for segments, the loop looks at the table. -/
theorem probeUntil_eq_findFrom (h : slots.length = 2 ^ k) (hbound : ∀ j, slots.getD j 0 ≤ segments.length)
    (id : CString) (fuel i : Nat) :
    probeUntil slots.length (fun j => slots.getD j 0 = 0 || slotHolds segments slots id j) fuel
      ((slotTable segments slots).probe manifestSegmentHash id i) =
        (slotTable segments slots).findFrom manifestSegmentHash id fuel i := by
  induction fuel generalizing i with
  | zero => rfl
  | succ fuel ih =>
    rw [probeUntil, Table.findFrom, nextSlot_eq h, ih]
    generalize (slotTable segments slots).probe manifestSegmentHash id i = j
    have hj := hbound j
    cases hslot : slots.getD j 0 with
    | zero => rw [slotTable_none hslot, decide_eq_true rfl, Bool.true_or, if_pos rfl]
    | succ e =>
      rw [hslot] at hj
      have hs : segments[e]? = some segments[e] := List.getElem?_eq_getElem hj
      rw [slotTable_some hslot hs, slotHolds_some hslot hs, decide_eq_false (Nat.succ_ne_zero e), Bool.false_or]
      simp only [decide_eq_true_eq]

theorem probeName_eq_find (h : slots.length = 2 ^ k) (hbound : ∀ j, slots.getD j 0 ≤ segments.length) (id : CString) :
    probeName segments slots id = (slotTable segments slots).find manifestSegmentHash id := by
  have hfirst := @firstSlot_eq segments slots _ h id
  rw [probeName, hfirst, probeUntil_eq_findFrom h hbound]
  rfl

end Probe

/-- A loop that could have ended earlier, but did not, is the loop that looks less. -/
theorem probeUntil_of_stop {capacity fuel slot j : Nat} {stop stop' : Nat → Bool} (h : ∀ x, stop' x = true → stop x = true)
    (hj : probeUntil capacity stop fuel slot = some j) (hstop : stop' j = true) :
    probeUntil capacity stop' fuel slot = some j := by
  induction fuel generalizing slot with
  | zero => cases hj
  | succ fuel ih =>
    rw [probeUntil] at hj ⊢
    split at hj
    · cases hj
      rw [if_pos hstop]
    · rename_i hslot
      rw [if_neg fun h' => hslot (h _ h')]
      exact ih hj

/-! ## The invariant -/

/-- The slots hold the first `n` segments. -/
structure Indexed (segments : List RawSegment) (slots : List Nat) (n : Nat) : Prop where
  shape : ∃ k, slots.length = 2 ^ k
  le : n ≤ segments.length
  bound : ∀ j, slots.getD j 0 ≤ n
  chained : (slotTable segments slots).Chained manifestSegmentHash
  card : (slotTable segments slots).occupied.card ≤ n
  lookup : ∀ id i, (slotTable segments slots).lookup manifestSegmentHash id = some i ↔
    i < n ∧ segments[i]?.map RawSegment.id = some id

theorem indexed_replicate (segments : List RawSegment) {capacity : Nat} (h : ∃ k, capacity = 2 ^ k) :
    Indexed segments (List.replicate capacity 0) 0 := by
  have hzero : ∀ j, (List.replicate capacity 0).getD j 0 = 0 := by
    intro j
    rw [List.getD_eq_getElem?_getD, List.getElem?_replicate]
    split <;> rfl
  have hempty : slotTable segments (List.replicate capacity 0) = Table.empty capacity := by
    rw [slotTable, Table.empty, List.length_replicate]
    congr 1
    funext j
    exact slotTable_none (hzero j)
  refine ⟨by rwa [List.length_replicate], Nat.zero_le _, fun j => Nat.le_of_eq (hzero j), ?_, ?_, fun id i => ?_⟩
  · rw [hempty]
    exact Table.chained_empty _ _
  · rw [hempty, Table.occupied_empty]
    exact Nat.le_refl 0
  · rw [hempty, Table.lookup_empty]
    simp

namespace Indexed

variable {segments : List RawSegment} {slots : List Nat} {n : Nat}

theorem getD_le (h : Indexed segments slots n) (j : Nat) : slots.getD j 0 ≤ segments.length :=
  Nat.le_trans (h.bound j) h.le

/-- Every probe ends at the name or at an empty slot. -/
theorem probeName_ends (h : Indexed segments slots n) (hroom : n < slots.length) (id : CString) :
    ∃ j, probeName segments slots id = some j ∧ j < slots.length ∧
      (slots.getD j 0 = 0 ∧ (∀ i < n, segments[i]?.map RawSegment.id ≠ some id) ∨
        ∃ i < n, slots.getD j 0 = i + 1 ∧ segments[i]?.map RawSegment.id = some id) := by
  obtain ⟨k, hk⟩ := h.shape
  have hfree : (slotTable segments slots).occupied.card < (slotTable segments slots).capacity :=
    Nat.lt_of_le_of_lt h.card hroom
  obtain ⟨m, -, hfind, -, hstop⟩ := Table.exists_find manifestSegmentHash hfree id
  have hlookup := h.lookup id
  rw [Table.lookup, hfind, Option.bind_some] at hlookup
  have hlt : (slotTable segments slots).probe manifestSegmentHash id m < slots.length :=
    Nat.mod_lt _ (Nat.lt_of_le_of_lt (Nat.zero_le n) hroom)
  refine ⟨_, (probeName_eq_find hk h.getD_le id).trans hfind, hlt, ?_⟩
  generalize (slotTable segments slots).probe manifestSegmentHash id m = j at *
  have hj := h.bound j
  cases hslot : slots.getD j 0 with
  | zero =>
    refine .inl ⟨rfl, fun i hi hid => ?_⟩
    have hnone := (hlookup i).mpr ⟨hi, hid⟩
    rw [slotTable_none hslot] at hnone
    cases hnone
  | succ i =>
    rw [hslot] at hj
    obtain ⟨s, hs⟩ : ∃ s, segments[i]? = some s := ⟨_, List.getElem?_eq_getElem (Nat.lt_of_lt_of_le hj h.le)⟩
    have hsome := (hlookup i).mp (by rw [slotTable_some hslot hs]; rfl)
    exact .inr ⟨i, hj, rfl, hsome.2⟩

/-- An unused name goes into the slot where its probe ends. -/
theorem set (h : Indexed segments slots n) (hroom : n + 1 < slots.length) {s : RawSegment} (hs : segments[n]? = some s)
    {j : Nat} (hprobe : probeName segments slots s.id = some j) (hempty : slots.getD j 0 = 0) (hj : j < slots.length) :
    Indexed segments (slots.set j (n + 1)) (n + 1) := by
  obtain ⟨k, hk⟩ := h.shape
  have hn : n < segments.length := (List.getElem?_eq_some_iff.mp hs).1
  have hget : ∀ x, (slots.set j (n + 1)).getD x 0 = if x = j then n + 1 else slots.getD x 0 := by
    intro x
    rw [List.getD_eq_getElem?_getD, List.getD_eq_getElem?_getD, List.getElem?_set]
    by_cases hx : x = j
    · subst hx
      rw [if_pos rfl, if_pos rfl, if_pos hj]
      rfl
    · rw [if_neg (Ne.symm hx), if_neg hx]
  have hfind : (slotTable segments slots).find manifestSegmentHash s.id = some j :=
    (probeName_eq_find hk h.getD_le s.id).symm.trans hprobe
  -- the table with the new entry
  have htable : (slotTable segments slots).insert manifestSegmentHash s.id n =
      some (slotTable segments (slots.set j (n + 1))) := by
    rw [Table.insert, hfind, Option.map_some]
    congr 1
    rw [slotTable, slotTable, List.length_set]
    congr 1
    funext x
    by_cases hx : x = j
    · subst hx
      rw [if_pos rfl]
      have hslot : (slots.set x (n + 1)).getD x 0 = n + 1 := by rw [hget, if_pos rfl]
      exact (slotTable_some hslot hs).symm
    · rw [if_neg hx]
      have hsame := hget x
      rw [if_neg hx] at hsame
      rw [hsame]
  obtain ⟨t, ht, hcapacity, hchained, hcard, hlookup⟩ :=
    h.chained.insert (Nat.lt_of_le_of_lt h.card (show n < slots.length by omega)) s.id n
  obtain rfl := Option.some.inj (ht.symm.trans htable)
  have hfree : (slotTable segments (slots.set j (n + 1))).occupied.card <
      (slotTable segments (slots.set j (n + 1))).capacity := by
    have := h.card
    rw [hcapacity]
    show _ < slots.length
    omega
  refine ⟨⟨k, by rw [List.length_set, hk]⟩, hn, fun x => ?_, hchained, ?_, fun id i => ?_⟩
  · rw [hget]
    have := h.bound x
    split <;> omega
  · have := h.card
    omega
  · rw [hlookup hfree, Nat.lt_succ_iff_lt_or_eq]
    split
    · rename_i hid
      subst hid
      constructor
      · intro hi
        cases hi
        exact ⟨.inr rfl, by rw [hs]; rfl⟩
      · rintro ⟨hi | rfl, hid⟩
        · -- the name would have been found
          have hfound := (h.lookup s.id i).mpr ⟨hi, hid⟩
          rw [Table.lookup, hfind, Option.bind_some, slotTable_none hempty] at hfound
          cases hfound
        · rfl
    · rename_i hid
      rw [h.lookup id i]
      constructor
      · rintro ⟨hi, hid'⟩
        exact ⟨.inl hi, hid'⟩
      · rintro ⟨hi | rfl, hid'⟩
        · exact ⟨hi, hid'⟩
        · rw [hs] at hid'
          exact absurd (Option.some.inj hid') hid

/-- More segments do not matter to the slots. -/
theorem append (h : Indexed segments slots n) (more : List RawSegment) : Indexed (segments ++ more) slots n := by
  have hget : ∀ i < n, (segments ++ more)[i]? = segments[i]? := fun i hi =>
    List.getElem?_append_left (Nat.lt_of_lt_of_le hi h.le)
  have htable : slotTable (segments ++ more) slots = slotTable segments slots := by
    rw [slotTable, slotTable]
    congr 1
    funext j
    have hj := h.bound j
    cases hslot : slots.getD j 0 with
    | zero => rfl
    | succ i =>
      rw [hslot] at hj
      dsimp only
      rw [hget i hj]
  refine ⟨h.shape, ?_, h.bound, ?_, ?_, fun id i => ?_⟩
  · rw [List.length_append]
    exact Nat.le_trans h.le (Nat.le_add_right _ _)
  · rw [htable]
    exact h.chained
  · rw [htable]
    exact h.card
  · rw [htable, h.lookup]
    constructor
    · rintro ⟨hi, hid⟩
      exact ⟨hi, by rw [hget i hi]; exact hid⟩
    · rintro ⟨hi, hid⟩
      exact ⟨hi, by rw [← hget i hi]; exact hid⟩

/-- What the loop that stops at a name says. -/
theorem probeName_index (h : Indexed segments slots n) (hroom : n < slots.length) (id : CString) (i : Nat) :
    ((probeName segments slots id).bind fun j =>
        if slots.getD j 0 = 0 then none else some (slots.getD j 0 - 1)) = some i ↔
      i < n ∧ segments[i]?.map RawSegment.id = some id := by
  obtain ⟨k, hk⟩ := h.shape
  obtain ⟨j, hj, -, hend⟩ := h.probeName_ends hroom id
  have hlookup := h.lookup id i
  rw [Table.lookup, ← probeName_eq_find hk h.getD_le, hj, Option.bind_some] at hlookup
  rw [hj, Option.bind_some, ← hlookup]
  obtain ⟨hempty, -⟩ | ⟨e, he, hslot, hid⟩ := hend
  · rw [if_pos hempty, slotTable_none hempty]
    rfl
  · obtain ⟨s, hs⟩ : ∃ s, segments[e]? = some s := ⟨_, List.getElem?_eq_getElem (Nat.lt_of_lt_of_le he h.le)⟩
    rw [if_neg (by omega), slotTable_some hslot hs, hslot]
    rfl

/-- Every segment is in exactly one slot. -/
theorem existsUnique_slot (h : Indexed segments slots n) {i : Nat} (hi : i < n) : ∃! j : Nat, slots[j]? = some (i + 1) := by
  obtain ⟨s, hs⟩ : ∃ s, segments[i]? = some s := ⟨_, List.getElem?_eq_getElem (Nat.lt_of_lt_of_le hi h.le)⟩
  have hvalue : ∀ j, slots[j]? = some (i + 1) → slots.getD j 0 = i + 1 := by
    intro j hj
    rw [List.getD_eq_getElem?_getD, hj]
    rfl
  have hfound := (h.lookup s.id i).mpr ⟨hi, by rw [hs]; rfl⟩
  rw [Table.lookup] at hfound
  obtain ⟨j, hfind, hentry⟩ := Option.bind_eq_some_iff.mp hfound
  refine ⟨j, ?_, fun j' hj' => ?_⟩
  · cases hslot : slots.getD j 0 with
    | zero =>
      rw [slotTable_none hslot] at hentry
      cases hentry
    | succ e =>
      have hle := h.getD_le j
      rw [hslot] at hle
      obtain ⟨s', hs'⟩ : ∃ s', segments[e]? = some s' := ⟨_, List.getElem?_eq_getElem hle⟩
      rw [slotTable_some hslot hs'] at hentry
      obtain rfl : e = i := Option.some.inj hentry
      rw [List.getD_eq_getElem?_getD] at hslot
      cases hget : slots[j]? with
      | none =>
        rw [hget] at hslot
        cases hslot
      | some x =>
        rw [hget] at hslot
        exact congrArg some hslot
  · have hown := h.chained.find_eq (slotTable_some (hvalue j' hj') hs)
    exact Option.some.inj (hown.symm.trans hfind)

end Indexed

/-! ## Filling -/

/-- The loop over the segments enters them all, or meets a name a second time. -/
theorem fillSlots_spec (twice : Status) {segments done rest : List RawSegment} {slots : List Nat}
    (hsegments : segments = done ++ rest) (h : Indexed segments slots done.length)
    (hdone : (done.map RawSegment.id).Nodup) (hroom : segments.length < slots.length) :
    ((segments.map RawSegment.id).Nodup ∧ ∃ slots', fillSlots twice segments rest done.length slots = some (.ok slots') ∧
        slots'.length = slots.length ∧ Indexed segments slots' segments.length) ∨
      ¬ (segments.map RawSegment.id).Nodup ∧
        fillSlots twice segments rest done.length slots = some (.error twice) := by
  induction rest generalizing done slots with
  | nil =>
    rw [List.append_nil] at hsegments
    subst hsegments
    exact .inl ⟨hdone, slots, rfl, rfl, h⟩
  | cons s rest ih =>
    have hcount : done.length < segments.length := by
      rw [hsegments, List.length_append, List.length_cons]
      omega
    have hs : segments[done.length]? = some s := by
      rw [hsegments, List.getElem?_append_right (Nat.le_refl _), Nat.sub_self]
      rfl
    obtain ⟨j, hprobe, hj, ⟨hempty, hnew⟩ | ⟨i, hi, hslot, hid⟩⟩ := h.probeName_ends (by omega) s.id
    · have hnext := h.set (by omega) hs hprobe hempty hj
      have hdone' : ((done ++ [s]).map RawSegment.id).Nodup := by
        rw [List.map_append, List.map_singleton, List.nodup_append]
        refine ⟨hdone, List.nodup_singleton _, fun a ha b hb hab => ?_⟩
        obtain ⟨i, hi, hget⟩ := List.mem_iff_getElem.mp ha
        rw [List.length_map] at hi
        rw [List.mem_singleton.mp hb] at hab
        refine hnew i hi ?_
        rw [hsegments, List.getElem?_append_left hi, ← List.getElem?_map, List.getElem?_eq_getElem (by
          rw [List.length_map]; exact hi), hget, hab]
      have hlength : (done ++ [s]).length = done.length + 1 := List.length_append
      rw [← hlength] at hnext
      have hstep := ih (hsegments.trans (List.append_cons done s rest)) hnext hdone' (by rwa [List.length_set])
      rw [fillSlots, hprobe]
      dsimp only
      rw [if_neg fun hne => hne hempty]
      rwa [hlength, List.length_set] at hstep
    · refine .inr ⟨fun hnodup => ?_, ?_⟩
      · have hlast : segments[done.length]?.map RawSegment.id = some s.id := by
          rw [hs]
          rfl
        rw [← List.getElem?_map] at hid hlast
        have hlt : i < (segments.map RawSegment.id).length := by
          rw [List.length_map]
          omega
        have := (List.getElem?_inj hlt hnodup).mp (hid.trans hlast.symm)
        omega
      · rw [fillSlots, hprobe]
        dsimp only
        rw [if_pos (by omega)]

theorem fillSlots_replicate (twice : Status) (segments : List RawSegment) {count : Nat} (hcount : 0 < count)
    (hle : segments.length ≤ count) :
    ((segments.map RawSegment.id).Nodup ∧ ∃ slots',
        fillSlots twice segments segments 0 (List.replicate (slotCapacity count) 0) = some (.ok slots') ∧
          count * 2 ≤ slots'.length ∧ Indexed segments slots' segments.length) ∨
      ¬ (segments.map RawSegment.id).Nodup ∧
        fillSlots twice segments segments 0 (List.replicate (slotCapacity count) 0) = some (.error twice) := by
  obtain ⟨hshape, hcapacity⟩ := slotCapacity_spec count
  have hroom : segments.length < (List.replicate (slotCapacity count) 0).length := by
    rw [List.length_replicate]
    omega
  obtain ⟨hnodup, slots', hfill, hlength, hindexed⟩ | hdup := fillSlots_spec twice (List.nil_append segments).symm
    (indexed_replicate segments hshape) List.nodup_nil hroom
  · rw [List.length_replicate] at hlength
    exact .inl ⟨hnodup, slots', hfill, by omega, hindexed⟩
  · exact .inr hdup

/-! ## Additions -/

namespace SlotManifest

/-- What holds between additions. -/
structure Ok (m : SlotManifest) : Prop where
  few : m.segments.length ≤ maxSegments
  allocated : m.segments.length ≤ m.segmentCapacity
  nodup : (m.segments.map RawSegment.id).Nodup
  half : 2 * m.segments.length ≤ m.slots.length
  indexed : m.slots.length ≠ 0 → Indexed m.segments m.slots m.segments.length

theorem ok_init (generation : UInt64) (configFingerprint : ByteArrayOf 32) : (init generation configFingerprint).Ok where
  few := Nat.zero_le _
  allocated := Nat.zero_le _
  nodup := List.nodup_nil
  half := Nat.zero_le _
  indexed h := absurd rfl h

variable {m : SlotManifest}

theorem Ok.slotIndex_iff (h : m.Ok) (id : CString) (i : Nat) :
    m.slotIndex id = some i ↔ m.segments[i]?.map RawSegment.id = some id := by
  have hhalf := h.half
  by_cases hslots : m.slots.length = 0
  · have hempty : m.segments = [] := List.length_eq_zero_iff.mp (by omega)
    have hnone : probeName m.segments m.slots id = none := by
      rw [probeName, hslots]
      rfl
    rw [slotIndex, hnone, hempty]
    exact iff_of_false (by simp) (by simp)
  · rw [slotIndex, (h.indexed hslots).probeName_index (by omega)]
    refine and_iff_right_of_imp fun hid => ?_
    obtain ⟨s, hs, -⟩ := Option.map_eq_some_iff.mp hid
    exact (List.getElem?_eq_some_iff.mp hs).1

theorem Ok.find_iff (h : m.Ok) (id : CString) :
    manifestSegmentFind m.segments m.slots id = true ↔ id ∈ m.segments.map RawSegment.id := by
  have hfind : manifestSegmentFind m.segments m.slots id = (m.slotIndex id).isSome := by
    rw [manifestSegmentFind, slotIndex]
    cases probeName m.segments m.slots id with
    | none => rfl
    | some j =>
      dsimp only
      rw [Option.bind_some]
      by_cases hj : m.slots.getD j 0 = 0
      · rw [if_pos hj, decide_eq_false fun hne => hne hj]
        rfl
      · rw [if_neg hj, decide_eq_true hj]
        rfl
  rw [hfind, Option.isSome_iff_exists]
  simp only [h.slotIndex_iff, ← List.getElem?_map]
  exact List.mem_iff_getElem?.symm

/-- There are slots for one more segment, unless an allocation fails. -/
theorem Ok.roomySlots (h : m.Ok) (hcount : m.segments.length < maxSegments) (allocated : Bool) :
    (∃ slots, m.roomySlots allocated = some (.ok slots) ∧
        ({ m with slots := slots } : SlotManifest).Ok ∧ 2 * (m.segments.length + 1) ≤ slots.length) ∨
      allocated = false ∧ m.roomySlots allocated = some (.error .allocationFailed) := by
  rw [SlotManifest.roomySlots]
  split
  · rw [manifestSlotsRebuild, if_neg (by omega)]
    cases allocated with
    | false => exact .inr ⟨rfl, rfl⟩
    | true =>
      obtain ⟨-, slots, hfill, hlength, hindexed⟩ | ⟨hdup, -⟩ :=
        fillSlots_replicate .duplicate m.segments (Nat.succ_pos m.segments.length) (Nat.le_succ _)
      · exact .inl ⟨slots, hfill, ⟨h.few, h.allocated, h.nodup, by show 2 * m.segments.length ≤ slots.length; omega,
          fun _ => hindexed⟩, by omega⟩
      · exact absurd h.nodup hdup
  · exact .inl ⟨m.slots, rfl, h, by omega⟩

theorem grownCapacity_gt {capacity : Nat} (h : capacity < maxSegments) : capacity < grownCapacity capacity := by
  rw [grownCapacity]
  split <;> split <;> omega

/-- A new segment is appended and entered, unless an allocation fails. -/
theorem Ok.append (h : m.Ok) {s : RawSegment} (hcount : m.segments.length < maxSegments)
    (hroom : 2 * (m.segments.length + 1) ≤ m.slots.length) (hnew : s.id ∉ m.segments.map RawSegment.id)
    (allocated : Bool) :
    (∃ m', m.append allocated s = some (.ok, m') ∧ m'.Ok ∧
        m'.manifest = { m.manifest with segments := m.segments ++ [s] }) ∨
      allocated = false ∧ m.append allocated s = some (.allocationFailed, m) := by
  rw [SlotManifest.append]
  by_cases hfull : m.segments.length = m.segmentCapacity ∧ !allocated
  · rw [if_pos hfull]
    exact .inr ⟨by simpa using hfull.2, rfl⟩
  rw [if_neg hfull]
  have hindexed := h.indexed (by omega)
  obtain ⟨j, hprobe, hj, ⟨hempty, -⟩ | ⟨i, hi, -, hid⟩⟩ := hindexed.probeName_ends (by omega) s.id
  swap
  · rw [← List.getElem?_map] at hid
    exact absurd (List.mem_of_getElem? hid) hnew
  -- the loop for an empty slot ends where the loop for the name did
  have hfree : probeEmpty m.slots s.id = some j :=
    probeUntil_of_stop (fun x hx => by rw [hx, Bool.true_or]) hprobe (decide_eq_true hempty)
  have hlast : (m.segments ++ [s])[m.segments.length]? = some s := List.getElem?_concat_length
  have hprobe' : probeName (m.segments ++ [s]) m.slots s.id = some j := by
    obtain ⟨j', hprobe', -, ⟨hempty', -⟩ | ⟨i, hi, -, hid⟩⟩ := (hindexed.append [s]).probeName_ends (by omega) s.id
    · have hfree' : probeEmpty m.slots s.id = some j' :=
        probeUntil_of_stop (fun x hx => by rw [hx, Bool.true_or]) hprobe' (decide_eq_true hempty')
      rw [hprobe', ← hfree', hfree]
    · rw [List.getElem?_append_left hi, ← List.getElem?_map] at hid
      exact absurd (List.mem_of_getElem? hid) hnew
  have hset := (hindexed.append [s]).set (by omega) hlast hprobe' hempty hj
  refine .inl ⟨_, by rw [hfree]; rfl, ⟨?_, ?_, ?_, ?_, fun _ => ?_⟩, rfl⟩
  · show (m.segments ++ [s]).length ≤ maxSegments
    rw [List.length_append, List.length_singleton]
    exact hcount
  · show (m.segments ++ [s]).length ≤ _
    rw [List.length_append, List.length_singleton]
    have hallocated := h.allocated
    dsimp only
    split
    · rename_i hgrow
      have := grownCapacity_gt (hgrow ▸ hcount)
      omega
    · omega
  · show ((m.segments ++ [s]).map RawSegment.id).Nodup
    rw [List.map_append, List.map_singleton, List.nodup_append]
    refine ⟨h.nodup, List.nodup_singleton _, fun a ha b hb hab => hnew ?_⟩
    rwa [← List.mem_singleton.mp hb, ← hab]
  · show 2 * (m.segments ++ [s]).length ≤ (m.slots.set j (m.segments.length + 1)).length
    rw [List.length_append, List.length_singleton, List.length_set]
    exact hroom
  · show Indexed (m.segments ++ [s]) (m.slots.set j (m.segments.length + 1)) (m.segments ++ [s]).length
    rw [List.length_append, List.length_singleton]
    exact hset

/-- What an addition answers, and leaves. -/
structure Added (m : SlotManifest) (s : RawSegment) (status : Status) (m' : SlotManifest) : Prop where
  ok : m'.Ok
  appended : status = .ok → m'.manifest = { m.manifest with segments := m.segments ++ [s] }
  kept : status ≠ .ok → m'.manifest = m.manifest ∧ m'.segmentCapacity = m.segmentCapacity
  improper : segmentIdValidate s.id ≠ .ok → status = segmentIdValidate s.id ∧ m' = m
  duplicate : s.id ∈ m.segments.map RawSegment.id → status ≠ .ok

theorem Ok.addSegment (h : m.Ok) (allocations : Allocations) (s : RawSegment) :
    ∃ status m', m.addSegment allocations s = some (status, m') ∧ m.Added s status m' := by
  rw [SlotManifest.addSegment]
  by_cases hid : segmentIdValidate s.id = .ok
  swap
  · rw [if_pos hid]
    exact ⟨_, m, rfl, h, fun hok => absurd hok hid, fun _ => ⟨rfl, rfl⟩, fun _ => ⟨rfl, rfl⟩, fun _ => hid⟩
  rw [if_neg fun hne => hne hid]
  by_cases hcount : maxSegments ≤ m.segments.length
  · rw [if_pos hcount]
    exact ⟨_, m, rfl, h, by simp, fun _ => ⟨rfl, rfl⟩, fun hne => absurd hid hne, by simp⟩
  rw [if_neg hcount]
  obtain ⟨slots, hslots, hok, hroom⟩ | ⟨-, hslots⟩ := h.roomySlots (by omega) allocations.slots
  swap
  · rw [hslots]
    exact ⟨_, m, rfl, h, by simp, fun _ => ⟨rfl, rfl⟩, fun hne => absurd hid hne, by simp⟩
  rw [hslots]
  dsimp only
  have hfind := hok.find_iff s.id
  split
  · exact ⟨_, _, rfl, hok, by simp, fun _ => ⟨rfl, rfl⟩, fun hne => absurd hid hne, by simp⟩
  · rename_i hnew
    have hnew : s.id ∉ m.segments.map RawSegment.id := fun hmem => hnew (hfind.mpr hmem)
    obtain ⟨m', hm', hok', happended⟩ | ⟨-, hm'⟩ :=
      hok.append (by show m.segments.length < _; omega) hroom hnew allocations.segments
    · exact ⟨_, m', hm', hok', fun _ => happended, fun hne => absurd rfl hne, fun hne => absurd hid hne,
        fun hmem => absurd hmem hnew⟩
    · exact ⟨_, _, hm', hok, by simp, fun _ => ⟨rfl, rfl⟩, fun hne => absurd hid hne, by simp⟩

/-- **No sequence of additions runs around the slots for ever**, and the invariant holds after it. -/
theorem Ok.addSegments (h : m.Ok) (calls : List (Allocations × RawSegment)) :
    ∃ m', m.addSegments calls = some m' ∧ m'.Ok := by
  induction calls generalizing m with
  | nil => exact ⟨m, rfl, h⟩
  | cons c calls ih =>
    obtain ⟨status, m₁, hm₁, hadded⟩ := h.addSegment c.1 c.2
    rw [SlotManifest.addSegments, hm₁, Option.bind_some]
    exact ih hadded.ok

end SlotManifest

/-! ## The map for readers -/

theorem segmentMapFind_iff {map : SegmentMap} (h : Indexed map.segments map.slots map.segments.length)
    (hroom : map.segments.length < map.slots.length) (id : CString) (i : Nat) :
    segmentMapFind map id = .ok i ↔ map.segments[i]?.map RawSegment.id = some id := by
  have hindex := h.probeName_index hroom id i
  rw [segmentMapFind, if_neg (by omega)]
  obtain ⟨j, hj, -, -⟩ := h.probeName_ends hroom id
  rw [hj, Option.bind_some] at hindex
  rw [hj]
  dsimp only
  have hlt : i < map.segments.length ∧ map.segments[i]?.map RawSegment.id = some id ↔
      map.segments[i]?.map RawSegment.id = some id := by
    refine and_iff_right_of_imp fun hid => ?_
    obtain ⟨s, hs, -⟩ := Option.map_eq_some_iff.mp hid
    exact (List.getElem?_eq_some_iff.mp hs).1
  rw [← hlt, ← hindex]
  split <;> simp

/-- **The map of a manifest** without two segments of one name; there is none for any other. -/
theorem segmentMap_spec (m : RawManifest) :
    ((m.segments.map RawSegment.id).Nodup → ∃ map, segmentMapBuild true m = some (.ok, map) ∧
        ∀ id i, segmentMapFind map id = .ok i ↔ m.segments[i]?.map RawSegment.id = some id) ∧
      (¬ (m.segments.map RawSegment.id).Nodup → segmentMapBuild true m = some (.conflict, ⟨[], []⟩)) := by
  rw [segmentMapBuild]
  split
  · rename_i hcount
    have hempty : m.segments = [] := List.length_eq_zero_iff.mp hcount
    rw [hempty]
    refine ⟨fun _ => ⟨_, rfl, fun id i => ?_⟩, fun hdup => absurd List.nodup_nil hdup⟩
    exact iff_of_false (by simp [segmentMapFind]) (by simp)
  · rename_i hcount
    obtain ⟨hnodup, slots, hfill, hlength, hindexed⟩ | ⟨hdup, hfill⟩ :=
      fillSlots_replicate .conflict m.segments (Nat.pos_of_ne_zero hcount) (Nat.le_refl _)
    · refine ⟨fun _ => ⟨⟨m.segments, slots⟩, by rw [hfill]; rfl, ?_⟩, fun hdup => absurd hnodup hdup⟩
      exact segmentMapFind_iff hindexed (show m.segments.length < slots.length by omega)
    · exact ⟨fun hnodup => absurd hnodup hdup, fun _ => by rw [hfill]; rfl⟩

/-! ## The claim -/

/-- **The slots of a manifest after any additions.** -/
theorem manifest_slots (generation : UInt64) (configFingerprint : ByteArrayOf 32)
    (calls : List (Allocations × RawSegment)) :
    ∃ m, (SlotManifest.init generation configFingerprint).addSegments calls = some m ∧
      2 * m.segments.length ≤ m.slots.length ∧
      (∀ i < m.segments.length, ∃! j : Nat, m.slots[j]? = some (i + 1)) ∧
      (∀ j, m.slots.getD j 0 ≤ m.segments.length) ∧
      (∀ id, manifestSegmentFind m.segments m.slots id = true ↔ id ∈ m.segments.map RawSegment.id) ∧
      (∀ id, m.slots.length = 0 ∨ ∃ j < m.slots.length, probeName m.segments m.slots id = some j ∧
        (m.slots.getD j 0 = 0 ∨ slotHolds m.segments m.slots id j = true)) ∧
      (∀ allocations s, ∃ status m', m.addSegment allocations s = some (status, m') ∧
        (segmentIdValidate s.id ≠ .ok → status ≠ .ok ∧ m' = m) ∧
        (s.id ∈ m.segments.map RawSegment.id → status ≠ .ok) ∧
        (status ≠ .ok → m'.manifest = m.manifest ∧ m'.segmentCapacity = m.segmentCapacity ∧
          ∀ id, m'.slotIndex id = m.slotIndex id)) ∧
      (∃ map, segmentMapBuild true m.manifest = some (.ok, map) ∧
        ∀ id i, segmentMapFind map id = .ok i ↔ m.slotIndex id = some i) ∧
      ∀ raw : RawManifest,
        ((raw.segments.map RawSegment.id).Nodup → ∃ map, segmentMapBuild true raw = some (.ok, map) ∧
          ∀ id i, segmentMapFind map id = .ok i ↔ raw.segments[i]?.map RawSegment.id = some id) ∧
        (¬ (raw.segments.map RawSegment.id).Nodup → segmentMapBuild true raw = some (.conflict, ⟨[], []⟩)) := by
  obtain ⟨m, hm, hok⟩ := (SlotManifest.ok_init generation configFingerprint).addSegments calls
  have hhalf := hok.half
  refine ⟨m, hm, hhalf, fun i hi => ?_, fun j => ?_, hok.find_iff, fun id => ?_, fun allocations s => ?_, ?_,
    segmentMap_spec⟩
  · exact (hok.indexed (by omega)).existsUnique_slot hi
  · by_cases hslots : m.slots.length = 0
    · rw [List.length_eq_zero_iff.mp hslots]
      exact Nat.zero_le _
    · exact (hok.indexed hslots).getD_le j
  · by_cases hslots : m.slots.length = 0
    · exact .inl hslots
    · obtain ⟨j, hj, hlt, ⟨hempty, -⟩ | ⟨i, -, hslot, hid⟩⟩ :=
        (hok.indexed hslots).probeName_ends (by omega) id
      · exact .inr ⟨j, hlt, hj, .inl hempty⟩
      · obtain ⟨s, hs, hname⟩ := Option.map_eq_some_iff.mp hid
        exact .inr ⟨j, hlt, hj, .inr (by rw [slotHolds_some hslot hs, hname, decide_eq_true rfl])⟩
  · obtain ⟨status, m', hm', hadded⟩ := hok.addSegment allocations s
    refine ⟨status, m', hm', fun hid => ?_, hadded.duplicate, fun hne => ?_⟩
    · obtain ⟨rfl, rfl⟩ := hadded.improper hid
      exact ⟨hid, rfl⟩
    · obtain ⟨hmanifest, hcapacity⟩ := hadded.kept hne
      refine ⟨hmanifest, hcapacity, fun id => Option.ext fun i => ?_⟩
      rw [hadded.ok.slotIndex_iff, hok.slotIndex_iff, SlotManifest.segments, hmanifest]
      rfl
  · obtain ⟨map, hmap, hfind⟩ := (segmentMap_spec m.manifest).1 hok.nodup
    refine ⟨map, hmap, fun id i => ?_⟩
    rw [hfind, hok.slotIndex_iff]
    rfl

theorem zero_notMem_name : 0 ∉ ([97] : Bytes) := by decide

/-- A segment without components. -/
def bareSegment : RawSegment := ⟨⟨[97], zero_notMem_name⟩, 0, 0, 0, []⟩

/-- A descriptor that `YAP_V2_manifest_validate` refuses is added, and the second time, when its name is refused, the
slots have grown. -/
theorem manifest_slots_grown : ∃ m m' : SlotManifest,
    (SlotManifest.init 1 ⟨List.replicate 32 1, rfl⟩).addSegment ⟨true, true⟩ bareSegment = some (.ok, m) ∧
      m.manifest.validate = .invalidFormat ∧
      m.addSegment ⟨true, true⟩ bareSegment = some (.duplicate, m') ∧
      m.slots.length = 2 ∧ m'.slots.length = 4 := by
  refine ⟨⟨⟨2, 1, ⟨List.replicate 32 1, rfl⟩, [bareSegment]⟩, 4, [1, 0]⟩,
    ⟨⟨2, 1, ⟨List.replicate 32 1, rfl⟩, [bareSegment]⟩, 4, [0, 0, 1, 0]⟩, ?_, ?_, ?_, rfl, rfl⟩
  · decide +kernel
  · decide +kernel
  · decide +kernel

end Yappod

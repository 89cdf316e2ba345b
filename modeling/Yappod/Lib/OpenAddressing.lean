import Mathlib.Algebra.Ring.Nat
import Mathlib.Data.Finset.Card
import Mathlib.Data.Finset.Range
import Mathlib.Data.Nat.Find
import Mathlib.Data.Nat.Log
import Yappod.Lib.EventLog

/-!
# Hash tables with linear probing

A table has `capacity` slots; the entry of a key is looked for at `hash key`, `hash key + 1`, …
modulo the capacity, until it or an empty slot is met.  Entries are overwritten but never removed.

`Table.Chained` is the invariant: every entry can be reached from the hash of its key through
occupied slots of other keys.  Under it, and as long as some slot is empty, `find` always ends at
the entry of the key or at an empty slot, and a table filled from a log of keyed events answers
every `lookup` by the last event of the key (`lookup_insertAll`).
-/

set_option autoImplicit false

namespace Yappod

/-- A table of `capacity` slots. -/
structure Table (K V : Type) where
  /-- The number of slots. -/
  capacity : Nat
  /-- The entries, by slot. -/
  slots : Nat → Option (K × V)

namespace Table

variable {K V : Type} [DecidableEq K] (hash : K → Nat)

/-- A table with every slot empty. -/
def empty (capacity : Nat) : Table K V := ⟨capacity, fun _ => none⟩

/-- The `i`-th slot probed for a key. -/
def probe (t : Table K V) (k : K) (i : Nat) : Nat := (hash k + i) % t.capacity

/-- Follow the probe sequence for at most `fuel` steps from the `i`-th on, to the first slot that
is empty or holds the key. -/
def findFrom (t : Table K V) (k : K) : Nat → Nat → Option Nat
  | 0, _ => none
  | fuel + 1, i =>
    match t.slots (t.probe hash k i) with
    | none => some (t.probe hash k i)
    | some e => if e.1 = k then some (t.probe hash k i) else findFrom t k fuel (i + 1)

/-- The slot for a key: where it is, or where it would be put. -/
def find (t : Table K V) (k : K) : Option Nat := t.findFrom hash k t.capacity 0

/-- The value stored for a key. -/
def lookup (t : Table K V) (k : K) : Option V :=
  (t.find hash k).bind fun j => (t.slots j).map Prod.snd

/-- Store a value for a key; `none` when there is no slot for it. -/
def insert (t : Table K V) (k : K) (v : V) : Option (Table K V) :=
  (t.find hash k).map fun j => { t with slots := fun i => if i = j then some (k, v) else t.slots i }

/-- Store a list of entries, one after the other. -/
def insertAll (t : Table K V) : List (K × V) → Option (Table K V)
  | [] => some t
  | e :: es => (t.insert hash e.1 e.2).bind fun t' => insertAll t' es

/-- Every entry is reached from the hash of its key through slots taken by other keys. -/
def Chained (t : Table K V) : Prop :=
  ∀ j e, t.slots j = some e → ∃ i < t.capacity, j = t.probe hash e.1 i ∧
    ∀ i' < i, ∃ e', t.slots (t.probe hash e.1 i') = some e' ∧ e'.1 ≠ e.1

/-- The slots in use. -/
def occupied (t : Table K V) : Finset Nat :=
  (Finset.range t.capacity).filter fun j => (t.slots j).isSome

variable {t t' : Table K V} {k : K} {v : V}

/-- A search that starts at the `i`-th probe finds the first probe that is empty or holds the
key. -/
theorem findFrom_eq {fuel : Nat} (i : Nat) {n : Nat} (hn : n < fuel)
    (hskip : ∀ m < n, ∃ e, t.slots (t.probe hash k (i + m)) = some e ∧ e.1 ≠ k)
    (hstop : ∀ e, t.slots (t.probe hash k (i + n)) = some e → e.1 = k) :
    t.findFrom hash k fuel i = some (t.probe hash k (i + n)) := by
  induction n generalizing fuel i with
  | zero =>
    obtain ⟨fuel, rfl⟩ : ∃ f, fuel = f + 1 := ⟨fuel - 1, by omega⟩
    rw [findFrom]
    split
    · rfl
    · rename_i e he
      rw [if_pos (hstop e he)]
      rfl
  | succ n ih =>
    obtain ⟨fuel, rfl⟩ : ∃ f, fuel = f + 1 := ⟨fuel - 1, by omega⟩
    obtain ⟨e, he, hne⟩ := hskip 0 (by omega)
    rw [findFrom, show t.slots (t.probe hash k i) = some e from he]
    simp only [if_neg hne]
    have hshift : i + (n + 1) = (i + 1) + n := by omega
    rw [hshift]
    refine ih _ (by omega) (fun m hm => ?_) (fun e he => ?_)
    · have := hskip (m + 1) (by omega)
      rwa [show i + (m + 1) = i + 1 + m by omega] at this
    · exact hstop e (by rwa [hshift])

/-- While a slot is empty, the search for any key succeeds, after skipping only other keys. -/
theorem exists_find (hfree : t.occupied.card < t.capacity) (k : K) :
    ∃ n < t.capacity, t.find hash k = some (t.probe hash k n) ∧
      (∀ m < n, ∃ e, t.slots (t.probe hash k m) = some e ∧ e.1 ≠ k) ∧
      ∀ e, t.slots (t.probe hash k n) = some e → e.1 = k := by
  -- the first probe that does not hold another key
  have hex : ∃ n < t.capacity, ∀ e, t.slots (t.probe hash k n) = some e → e.1 = k := by
    by_contra hcon
    push Not at hcon
    have hall : t.occupied = Finset.range t.capacity := by
      refine Finset.filter_true_of_mem fun j hj => ?_
      rw [Finset.mem_range] at hj
      -- the probe that lands on slot `j`
      have hmod : t.probe hash k ((j + t.capacity - hash k % t.capacity) % t.capacity) = j := by
        rw [probe, Nat.add_mod_mod, ← Nat.mod_add_mod]
        have hlt := Nat.mod_lt (hash k) (show 0 < t.capacity by omega)
        rw [show hash k % t.capacity + (j + t.capacity - hash k % t.capacity) = j + t.capacity by
          omega, Nat.add_mod_right, Nat.mod_eq_of_lt hj]
      obtain ⟨e, he, -⟩ := hcon _ (Nat.mod_lt (j + t.capacity - hash k % t.capacity)
        (show 0 < t.capacity by omega))
      rw [hmod] at he
      simp [he]
    rw [hall, Finset.card_range] at hfree
    exact lt_irrefl _ hfree
  classical
  obtain ⟨n, ⟨hn, hstop⟩, hmin⟩ : ∃ n, (n < t.capacity ∧
      ∀ e, t.slots (t.probe hash k n) = some e → e.1 = k) ∧
      ∀ m < n, ¬(m < t.capacity ∧ ∀ e, t.slots (t.probe hash k m) = some e → e.1 = k) :=
    ⟨Nat.find hex, Nat.find_spec hex, fun m hm => Nat.find_min hex hm⟩
  have hskip : ∀ m < n, ∃ e, t.slots (t.probe hash k m) = some e ∧ e.1 ≠ k := by
    intro m hm
    have hm' := hmin m hm
    push Not at hm'
    exact hm' (by omega)
  refine ⟨n, hn, ?_, hskip, hstop⟩
  have := findFrom_eq hash 0 hn
    (by simpa using hskip) (by simpa using hstop)
  simpa [find] using this

variable {hash}

/-- Under the invariant a stored entry is the one its key finds. -/
theorem Chained.find_eq (h : t.Chained hash) {j : Nat} {e : K × V} (he : t.slots j = some e) :
    t.find hash e.1 = some j := by
  obtain ⟨i, hi, rfl, hskip⟩ := h j e he
  have := findFrom_eq hash 0 hi
    (by simpa using hskip) (fun e' he' => by
      rw [Nat.zero_add, he] at he'
      cases he'
      rfl)
  simpa [find] using this

/-- **Storing an entry** succeeds while a slot is empty, keeps the invariant, takes at most one more
slot, and changes the answer for its own key only. -/
theorem Chained.insert (h : t.Chained hash) (hfree : t.occupied.card < t.capacity) (k : K) (v : V) :
    ∃ t', t.insert hash k v = some t' ∧ t'.capacity = t.capacity ∧ t'.Chained hash ∧
      t'.occupied.card ≤ t.occupied.card + 1 ∧
      ((t'.occupied.card < t'.capacity) →
        ∀ k', t'.lookup hash k' = if k = k' then some v else t.lookup hash k') := by
  obtain ⟨n, hn, hfind, hskip, hstop⟩ := exists_find hash hfree k
  set j := t.probe hash k n with hj
  let t' : Table K V := { t with slots := fun i => if i = j then some (k, v) else t.slots i }
  have hprobe : ∀ k' i, t'.probe hash k' i = t.probe hash k' i := fun _ _ => rfl
  have hslot : ∀ i, t'.slots i = if i = j then some (k, v) else t.slots i := fun _ => rfl
  -- a slot holding another key keeps doing so
  have hother : ∀ i e k', t.slots i = some e → e.1 ≠ k' → k ≠ k' →
      ∃ e', t'.slots i = some e' ∧ e'.1 ≠ k' := by
    intro i e k' he hne hk
    rw [hslot]
    split
    · exact ⟨_, rfl, hk⟩
    · exact ⟨e, he, hne⟩
  have hchain : t'.Chained hash := by
    intro i e he
    rw [hslot] at he
    split at he
    · rename_i hij
      cases he
      refine ⟨n, hn, hij, fun m hm => ?_⟩
      obtain ⟨e', he', hne⟩ := hskip m hm
      refine ⟨e', ?_, hne⟩
      rw [hprobe, hslot, if_neg, he']
      rintro heq
      exact hne (hstop e' (heq ▸ he'))
    · rename_i hij
      obtain ⟨m, hm, rfl, hsk⟩ := h i e he
      refine ⟨m, hm, rfl, fun m' hm' => ?_⟩
      obtain ⟨e', he', hne⟩ := hsk m' hm'
      by_cases hk : k = e.1
      · -- the key's own old entry would have been the slot found
        exfalso
        have hown := h.find_eq he
        rw [← hk, hfind, hk] at hown
        exact hij (Option.some.inj hown).symm
      · exact hother _ e' e.1 he' hne hk
  refine ⟨t', by rw [Table.insert, hfind]; rfl, rfl, hchain, ?_, fun hfree' k' => ?_⟩
  · have hsub : t'.occupied ⊆ Insert.insert j t.occupied := by
      intro i hi
      rw [occupied, Finset.mem_filter, hslot] at hi
      rw [Finset.mem_insert, occupied, Finset.mem_filter]
      by_cases hij : i = j
      · exact Or.inl hij
      · rw [if_neg hij] at hi
        exact Or.inr hi
    exact (Finset.card_le_card hsub).trans (Finset.card_insert_le ..)
  · rw [lookup, lookup]
    split
    · rename_i hk
      subst hk
      have hnew : t'.slots j = some (k, v) := by rw [hslot, if_pos rfl]
      rw [hchain.find_eq hnew, Option.bind_some, hnew]
      rfl
    · rename_i hk
      obtain ⟨m, hm, hfind', hskip', hstop'⟩ := exists_find hash hfree k'
      cases hs : t.slots (t.probe hash k' m) with
      | some e =>
        have hek : e.1 = k' := hstop' e hs
        have hne : t.probe hash k' m ≠ j := by
          intro heq
          exact hk ((hstop e (heq ▸ hs)).symm.trans hek)
        have hs' : t'.slots (t.probe hash k' m) = some e := by rw [hslot, if_neg hne, hs]
        have := hchain.find_eq hs'
        rw [hek] at this
        rw [this, hfind', Option.bind_some, Option.bind_some, hs', hs]
      | none =>
        -- no entry of `k'` before, and none after: the new table finds an empty slot too
        obtain ⟨m', hm', hfind'', hskip'', hstop''⟩ := exists_find hash hfree' k'
        rw [hfind', hfind'', Option.bind_some, Option.bind_some, hs]
        cases hs' : t'.slots (t'.probe hash k' m') with
        | none => rfl
        | some e =>
          exfalso
          have hek : e.1 = k' := hstop'' e hs'
          rw [hslot] at hs'
          split at hs'
          · cases hs'
            exact hk hek
          · have := h.find_eq hs'
            rw [hek, hfind'] at this
            rw [← Option.some.inj this, hs] at hs'
            cases hs'

omit [DecidableEq K] in
theorem chained_empty (hash : K → Nat) (c : Nat) : (empty c : Table K V).Chained hash := by
  intro j e he
  cases he

omit [DecidableEq K] in
theorem occupied_empty (c : Nat) : (empty c : Table K V).occupied = ∅ := by
  simp [occupied, empty]

theorem lookup_empty (c : Nat) (k : K) : (empty c : Table K V).lookup hash k = none := by
  rw [lookup]
  cases find hash (empty c : Table K V) k with
  | none => rfl
  | some j => rfl

/-- Filling a table that has room for all the entries: the last entry of each key is the one
found. -/
theorem Chained.insertAll (es : List (K × V)) {t : Table K V} (h : t.Chained hash)
    (hroom : t.occupied.card + es.length < t.capacity) :
    ∃ t', t.insertAll hash es = some t' ∧ t'.occupied.card < t'.capacity ∧ t'.Chained hash ∧
      ∀ k, t'.lookup hash k = (lastEvent es k).or (t.lookup hash k) := by
  induction es generalizing t with
  | nil => exact ⟨t, rfl, hroom, h, fun k => by simp⟩
  | cons e es ih =>
    rw [List.length_cons] at hroom
    obtain ⟨t₁, h₁, hcap, hch, hcard, hlook⟩ := h.insert (by omega) e.1 e.2
    obtain ⟨t', h', hfree, hch', hlook'⟩ := ih hch (by omega)
    refine ⟨t', by rw [Table.insertAll, h₁]; exact h', hfree, hch', fun k => ?_⟩
    rw [hlook', hlook (by omega), lastEvent, Option.or_assoc]
    congr 1
    split <;> simp

/-- **A table filled from a log answers by the last event of each key**, provided it has more slots
than the log has events; it still has an empty slot then. -/
theorem lookup_insertAll (es : List (K × V)) {c : Nat} (hc : es.length < c) :
    ∃ t', (empty c : Table K V).insertAll hash es = some t' ∧ t'.occupied.card < t'.capacity ∧
      ∀ k, t'.lookup hash k = lastEvent es k := by
  obtain ⟨t', h', hfree, -, hlook⟩ := (chained_empty hash c).insertAll es
    (by rw [occupied_empty]; simpa [empty] using hc)
  exact ⟨t', h', hfree, fun k => by rw [hlook, lookup_empty, Option.or_none]⟩

/-! ## Keys that are known to be new -/

/-- Follow the probe sequence for at most `fuel` steps from the `i`-th on, to the first empty slot. -/
def findEmptyFrom (hash : K → Nat) (t : Table K V) (k : K) : Nat → Nat → Option Nat
  | 0, _ => none
  | fuel + 1, i =>
    if (t.slots (t.probe hash k i)).isNone then some (t.probe hash k i) else findEmptyFrom hash t k fuel (i + 1)

/-- Store a value in the first empty slot, without a look at the keys on the way; `none` when there is no slot. -/
def insertNew (hash : K → Nat) (t : Table K V) (k : K) (v : V) : Option (Table K V) :=
  (t.findEmptyFrom hash k t.capacity 0).map fun j =>
    { t with slots := fun i => if i = j then some (k, v) else t.slots i }

/-- Store a list of entries so, one after the other. -/
def insertAllNew (hash : K → Nat) (t : Table K V) : List (K × V) → Option (Table K V)
  | [] => some t
  | e :: es => (t.insertNew hash e.1 e.2).bind fun t' => insertAllNew hash t' es

/-- A search that ends at an empty slot has met no empty slot before. -/
theorem findEmptyFrom_of_findFrom {fuel i j : Nat} (h : t.findFrom hash k fuel i = some j) (hempty : t.slots j = none) :
    t.findEmptyFrom hash k fuel i = some j := by
  induction fuel generalizing i with
  | zero => cases h
  | succ fuel ih =>
    rw [findFrom] at h
    rw [findEmptyFrom]
    cases hslot : t.slots (t.probe hash k i) with
    | none => simpa [hslot] using h
    | some e =>
      rw [hslot] at h
      dsimp only at h
      split at h
      · cases h
        rw [hslot] at hempty
        cases hempty
      · simpa using ih h

/-- For a key that is not there this is the usual insertion. -/
theorem insertNew_eq_insert (hfree : t.occupied.card < t.capacity) (hnew : t.lookup hash k = none) :
    t.insertNew hash k v = t.insert hash k v := by
  obtain ⟨n, -, hfind, -⟩ := exists_find hash hfree k
  rw [lookup, hfind, Option.bind_some, Option.map_eq_none_iff] at hnew
  rw [insertNew, insert, hfind, findEmptyFrom_of_findFrom hfind hnew]

/-- **Entries of pairwise different keys** are put where the usual insertion puts them. -/
theorem insertAllNew_eq_insertAll (es : List (K × V)) (h : t.Chained hash)
    (hroom : t.occupied.card + es.length < t.capacity) (hnodup : (es.map Prod.fst).Nodup)
    (hnew : ∀ e ∈ es, t.lookup hash e.1 = none) : t.insertAllNew hash es = t.insertAll hash es := by
  induction es generalizing t with
  | nil => rfl
  | cons e es ih =>
    rw [List.length_cons] at hroom
    rw [List.map_cons, List.nodup_cons] at hnodup
    obtain ⟨hnew₁, hnew⟩ := List.forall_mem_cons.mp hnew
    obtain ⟨t₁, h₁, hcapacity, hchained, hcard, hlookup⟩ := h.insert (by omega) e.1 e.2
    rw [insertAllNew, insertAll, insertNew_eq_insert (by omega) hnew₁, h₁]
    refine ih hchained (by omega) hnodup.2 fun f hf => ?_
    rw [hlookup (by omega), if_neg, hnew f hf]
    rintro heq
    exact hnodup.1 (heq ▸ List.mem_map_of_mem hf)

/-- A table filled so finds each key. -/
theorem lookup_insertAllNew (hash : K → Nat) {es : List (K × V)} (hnodup : (es.map Prod.fst).Nodup) {c : Nat}
    (hc : es.length < c) :
    ∃ t', (empty c : Table K V).insertAllNew hash es = some t' ∧ ∀ k v, t'.lookup hash k = some v ↔ (k, v) ∈ es := by
  obtain ⟨t', h', -, hlookup⟩ := @lookup_insertAll K V _ hash es c hc
  refine ⟨t', ?_, fun k v => ?_⟩
  · rw [insertAllNew_eq_insertAll es (chained_empty hash c) (by rw [occupied_empty]; simpa [empty] using hc) hnodup
      fun e _ => lookup_empty c e.1, h']
  · rw [hlookup]
    exact ⟨mem_of_lastEvent, lastEvent_of_nodup hnodup⟩

end Table

/-- The capacity a table of `records` entries is given: the first power of two that is at least
twice as large (no slots at all for no records). -/
def tableCapacity (records : Nat) : Nat := if records = 0 then 0 else 2 ^ Nat.clog 2 (records * 2)

theorem lt_tableCapacity {records : Nat} (h : records ≠ 0) : records < tableCapacity records := by
  rw [tableCapacity, if_neg h]
  have := Nat.le_pow_clog (by omega : 1 < 2) (records * 2)
  omega

end Yappod

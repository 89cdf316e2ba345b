import Mathlib.Algebra.Ring.Nat
import Mathlib.Data.List.Sort

/-!
# JSON values

A decoded JSON value.  Strings and keys are byte strings, which may contain any byte, and the members of an object
are in the order of the text.  Two values say the same if they are equal when the members of every object are put
in the order of their keys (`JsonValue.Same`).

`JsonValue.canonical f` is the copy that puts members in order and writes the key `f k` for a key `k`.  If `f` changes
no key of the value, the copy says the same, and if `f` never returns a key of some kind, this is the only case in
which a value without such keys comes out right (`same_canonical_iff`).
-/

set_option autoImplicit false

namespace Yappod

/-- A decoded value, with numbers from `N`. -/
inductive JsonValue (N : Type)
  | null
  | bool (b : Bool)
  | number (n : N)
  | string (s : List UInt8)
  | array (items : List (JsonValue N))
  | object (members : List (List UInt8 × JsonValue N))

namespace JsonValue

variable {N : Type}

/-- A member of an object. -/
abbrev Member (N : Type) := List UInt8 × JsonValue N

/-- Induction over a value, with hypotheses for the items of an array and the values of an object. -/
@[elab_as_elim]
theorem structuralInduction {motive : JsonValue N → Prop} (null : motive .null) (bool : ∀ b, motive (.bool b))
    (number : ∀ n, motive (.number n)) (string : ∀ s, motive (.string s))
    (array : ∀ items, (∀ item ∈ items, motive item) → motive (.array items))
    (object : ∀ members : List (Member N), (∀ m ∈ members, motive m.2) → motive (.object members))
    (v : JsonValue N) : motive v :=
  @JsonValue.rec N motive (fun items => ∀ item ∈ items, motive item) (fun members => ∀ m ∈ members, motive m.2)
    (fun m => motive m.2) null bool number string array object
    (fun _ h => absurd h List.not_mem_nil) (fun _ _ h hs => List.forall_mem_cons.mpr ⟨h, hs⟩)
    (fun _ h => absurd h List.not_mem_nil) (fun _ _ h hs => List.forall_mem_cons.mpr ⟨h, hs⟩)
    (fun _ _ h => h) v

/-- The order of members by their keys: byte by byte, and a key before its extensions. -/
def KeyLe (a b : Member N) : Prop := a.1 ≤ b.1

instance (a b : Member N) : Decidable (KeyLe a b) := inferInstanceAs (Decidable (a.1 ≤ b.1))

instance : DecidableRel (KeyLe (N := N)) := fun _ _ => inferInstance

instance : Std.Total (KeyLe (N := N)) := ⟨fun a b => List.le_total a.1 b.1⟩

instance : IsTrans (Member N) KeyLe := ⟨fun _ _ _ h h' => List.le_trans h h'⟩

/-- The first member with a key. -/
def get (members : List (Member N)) (key : List UInt8) : Option (JsonValue N) :=
  (members.find? fun m => m.1 = key).map Prod.snd

/-! ## Canonical copies -/

section Canonical

variable (f : List UInt8 → List UInt8)

mutual

/-- The copy with the members of every object in order and new keys. -/
def canonical : JsonValue N → JsonValue N
  | .null => .null
  | .bool b => .bool b
  | .number n => .number n
  | .string s => .string s
  | .array items => .array (canonicalItems items)
  | .object members =>
    .object (((canonicalMembers members).insertionSort KeyLe).map fun m => (f m.1, m.2))

def canonicalItems : List (JsonValue N) → List (JsonValue N)
  | [] => []
  | item :: items => canonical item :: canonicalItems items

def canonicalMembers : List (Member N) → List (Member N)
  | [] => []
  | (key, value) :: members => (key, canonical value) :: canonicalMembers members

end

theorem canonicalMembers_eq_map (members : List (Member N)) :
    canonicalMembers f members = members.map fun m => (m.1, canonical f m.2) := by
  induction members with
  | nil => rw [canonicalMembers, List.map_nil]
  | cons m members ih => rw [canonicalMembers, ih, List.map_cons]

theorem canonicalItems_eq_map (items : List (JsonValue N)) :
    canonicalItems f items = items.map (canonical f) := by
  induction items with
  | nil => rw [canonicalItems, List.map_nil]
  | cons item items ih => rw [canonicalItems, ih, List.map_cons]

end Canonical

/-- The value with the members of every object in order. -/
def sorted (v : JsonValue N) : JsonValue N := v.canonical id

/-- The same value, the order of members apart. -/
def Same (v w : JsonValue N) : Prop := v.sorted = w.sorted

/-! ## Keys -/

mutual

/-- All keys, those of inner objects too, are of a kind. -/
def KeysAll (p : List UInt8 → Prop) : JsonValue N → Prop
  | .null | .bool _ | .number _ | .string _ => True
  | .array items => ItemsKeysAll p items
  | .object members => MembersKeysAll p members

def ItemsKeysAll (p : List UInt8 → Prop) : List (JsonValue N) → Prop
  | [] => True
  | item :: items => KeysAll p item ∧ ItemsKeysAll p items

def MembersKeysAll (p : List UInt8 → Prop) : List (Member N) → Prop
  | [] => True
  | (key, value) :: members => p key ∧ KeysAll p value ∧ MembersKeysAll p members

end

theorem itemsKeysAll_iff {p : List UInt8 → Prop} {items : List (JsonValue N)} :
    ItemsKeysAll p items ↔ ∀ item ∈ items, item.KeysAll p := by
  induction items with
  | nil => simp [ItemsKeysAll]
  | cons item items ih => rw [ItemsKeysAll, ih, List.forall_mem_cons]

theorem membersKeysAll_iff {p : List UInt8 → Prop} {members : List (Member N)} :
    MembersKeysAll p members ↔ ∀ m ∈ members, p m.1 ∧ m.2.KeysAll p := by
  induction members with
  | nil => simp [MembersKeysAll]
  | cons m members ih => rw [MembersKeysAll, ih, List.forall_mem_cons, and_assoc]

theorem KeysAll.imp {p q : List UInt8 → Prop} (hpq : ∀ k, p k → q k) {v : JsonValue N} (h : v.KeysAll p) :
    v.KeysAll q := by
  induction v using structuralInduction with
  | null | bool | number | string => simp only [KeysAll]
  | array items ih =>
    rw [KeysAll, itemsKeysAll_iff] at h ⊢
    exact fun item hitem => ih item hitem (h item hitem)
  | object members ih =>
    rw [KeysAll, membersKeysAll_iff] at h ⊢
    exact fun m hm => ⟨hpq _ (h m hm).1, ih m hm (h m hm).2⟩

/-- A copy in which every key is of a kind that all new keys are of. -/
theorem keysAll_canonical {p : List UInt8 → Prop} {f : List UInt8 → List UInt8} (h : ∀ k, p (f k))
    (v : JsonValue N) : (v.canonical f).KeysAll p := by
  induction v using structuralInduction with
  | null | bool | number | string => simp only [canonical, KeysAll]
  | array items ih =>
    rw [canonical, KeysAll, itemsKeysAll_iff, canonicalItems_eq_map]
    simpa using ih
  | object members ih =>
    rw [canonical, KeysAll, membersKeysAll_iff, canonicalMembers_eq_map]
    intro copy hcopy
    obtain ⟨pair, hpair, rfl⟩ := List.mem_map.mp hcopy
    obtain ⟨m, hm, rfl⟩ := List.mem_map.mp ((List.mem_insertionSort _).mp hpair)
    exact ⟨h m.1, ih m hm⟩

/-- Putting members in order changes no key. -/
theorem keysAll_sorted {p : List UInt8 → Prop} (v : JsonValue N) : v.sorted.KeysAll p ↔ v.KeysAll p := by
  rw [sorted]
  induction v using structuralInduction with
  | null | bool | number | string => simp only [canonical, KeysAll]
  | array items ih =>
    rw [canonical, KeysAll, KeysAll, itemsKeysAll_iff, itemsKeysAll_iff, canonicalItems_eq_map,
      List.forall_mem_map]
    exact forall₂_congr ih
  | object members ih =>
    rw [canonical, KeysAll, KeysAll, membersKeysAll_iff, membersKeysAll_iff, canonicalMembers_eq_map,
      List.forall_mem_map]
    simp only [List.mem_insertionSort, List.forall_mem_map, id]
    exact forall₂_congr fun m hm => and_congr_right fun _ => ih m hm

/-! ## When a copy says the same -/

/-- Copies that write the same keys are the same. -/
theorem canonical_congr {f g : List UInt8 → List UInt8} (v : JsonValue N) (h : v.KeysAll fun k => f k = g k) :
    v.canonical f = v.canonical g := by
  induction v using structuralInduction with
  | null | bool | number | string => simp only [canonical]
  | array items ih =>
    rw [KeysAll, itemsKeysAll_iff] at h
    rw [canonical, canonical, canonicalItems_eq_map, canonicalItems_eq_map]
    exact congrArg _ (List.map_congr_left fun item hitem => ih item hitem (h item hitem))
  | object members ih =>
    rw [KeysAll, membersKeysAll_iff] at h
    have hvalues : canonicalMembers f members = canonicalMembers g members := by
      rw [canonicalMembers_eq_map, canonicalMembers_eq_map]
      exact List.map_congr_left fun m hm => Prod.ext rfl (ih m hm (h m hm).2)
    rw [canonical, canonical, hvalues]
    refine congrArg _ (List.map_congr_left fun pair hpair => Prod.ext ?_ rfl)
    rw [List.mem_insertionSort, canonicalMembers_eq_map] at hpair
    obtain ⟨m, hm, rfl⟩ := List.mem_map.mp hpair
    exact (h m hm).1

theorem sorted_sorted (v : JsonValue N) : v.sorted.sorted = v.sorted := by
  rw [sorted, sorted]
  induction v using structuralInduction with
  | null | bool | number | string => simp only [canonical]
  | array items ih =>
    simp only [canonical, canonicalItems_eq_map, List.map_map]
    exact congrArg _ (List.map_congr_left ih)
  | object members ih =>
    simp only [canonical, canonicalMembers_eq_map, id, Prod.mk.eta, List.map_id']
    -- the values inside are in order already, so the second copy finds the sorted list as it is
    have hvalues : ((members.map fun m => (m.1, canonical id m.2)).insertionSort KeyLe).map
        (fun m => (m.1, canonical id m.2)) =
          (members.map fun m => (m.1, canonical id m.2)).insertionSort KeyLe := by
      conv_rhs => rw [← List.map_id ((members.map _).insertionSort KeyLe)]
      refine List.map_congr_left fun pair hpair => ?_
      obtain ⟨m, hm, rfl⟩ := List.mem_map.mp ((List.mem_insertionSort _).mp hpair)
      exact Prod.ext rfl (ih m hm)
    rw [hvalues, (List.pairwise_insertionSort _ _).insertionSort_eq]

/-- If the new keys are of a kind, and keys of that kind are left alone, the copy says the same as the value exactly
if all its keys are of that kind. -/
theorem same_canonical_iff {p : List UInt8 → Prop} {f : List UInt8 → List UInt8} (hf : ∀ k, p (f k))
    (hid : ∀ k, p k → f k = k) (v : JsonValue N) : Same v (v.canonical f) ↔ v.KeysAll p := by
  rw [Same]
  constructor
  · intro h
    rw [← keysAll_sorted, h, keysAll_sorted]
    exact keysAll_canonical hf v
  · intro h
    have hcopy : v.canonical f = v.sorted := canonical_congr v (h.imp hid)
    rw [hcopy, sorted_sorted]

end JsonValue
end Yappod

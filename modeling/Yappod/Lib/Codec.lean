import Mathlib.Algebra.Ring.Nat
import Mathlib.Data.List.Basic

/-!
# Reading what was written

Fixed-width little-endian numbers (`leBytes`, `leValue`) and readers that take them off the front of
a byte string.  A reader is `Exact` for an encoder when it accepts the encodings of the values it
should accept, whatever follows them, and nothing else: this is at once the round trip and the
statement that every accepted string is the encoding of its value.

* `Exact.run_eq_ok` unfolds it at an input.
* `exact_take`, `exact_uint16`, `exact_uint32`, `exact_uint64` are the primitives.

A program that reads at an index instead finds there what was appended there: `Stands data i bs`.
-/

set_option autoImplicit false

namespace Yappod

/-! ## Little-endian numbers -/

/-- The `n` low bytes of `v`, the lowest first. -/
def leBytes : Nat → Nat → List UInt8
  | 0, _ => []
  | n + 1, v => UInt8.ofNat v :: leBytes n (v / 256)

/-- The number whose bytes, the lowest first, these are. -/
def leValue : List UInt8 → Nat
  | [] => 0
  | b :: bs => b.toNat + 256 * leValue bs

@[simp] theorem length_leBytes (n v : Nat) : (leBytes n v).length = n := by
  induction n generalizing v with
  | zero => rfl
  | succ n ih => rw [leBytes, List.length_cons, ih]

theorem leValue_lt (bs : List UInt8) : leValue bs < 256 ^ bs.length := by
  induction bs with
  | nil => exact Nat.one_pos
  | cons b bs ih =>
    have hb : b.toNat < 256 := b.toNat_lt
    rw [leValue, List.length_cons, Nat.pow_succ]
    omega

theorem leValue_leBytes {n v : Nat} (h : v < 256 ^ n) : leValue (leBytes n v) = v := by
  induction n generalizing v with
  | zero =>
    rw [Nat.pow_zero, Nat.lt_one_iff] at h
    rw [h]
    rfl
  | succ n ih =>
    rw [Nat.pow_succ] at h
    rw [leBytes, leValue, ih (by omega), UInt8.toNat_ofNat']
    omega

theorem leBytes_leValue (bs : List UInt8) : leBytes bs.length (leValue bs) = bs := by
  induction bs with
  | nil => rfl
  | cons b bs ih =>
    have hb : b.toNat < 256 := b.toNat_lt
    rw [leValue, List.length_cons, leBytes]
    have hdiv : (b.toNat + 256 * leValue bs) / 256 = leValue bs := by omega
    have hmod : UInt8.ofNat (b.toNat + 256 * leValue bs) = b := by
      apply UInt8.toNat_inj.mp
      rw [UInt8.toNat_ofNat']
      omega
    rw [hdiv, hmod, ih]

/-! ## Readers -/

/-- A reader: it takes a value off the front of the input, or fails. -/
abbrev Reader (ε α : Type) := StateT (List UInt8) (Except ε) α

/-- A computation that passes on a state succeeds in two steps if each of them succeeds. -/
theorem run_bind_eq_ok {σ ε α β : Type} {p : StateT σ (Except ε) α} {f : α → StateT σ (Except ε) β} {s : σ}
    {out : β × σ} :
    (p >>= f).run s = .ok out ↔ ∃ a mid, p.run s = .ok (a, mid) ∧ (f a).run mid = .ok out := by
  rw [StateT.run_bind]
  cases p.run s with
  | error e => simp [Bind.bind, Except.bind]
  | ok x =>
    obtain ⟨a, mid⟩ := x
    refine ⟨fun h => ⟨a, mid, rfl, h⟩, ?_⟩
    rintro ⟨_, _, ⟨⟩, h⟩
    exact h

/-- A reader succeeds in two steps if each of them succeeds. -/
theorem Reader.bind_eq_ok {ε α β : Type} {p : Reader ε α} {f : α → Reader ε β} {bs : List UInt8}
    {out : β × List UInt8} :
    (p >>= f).run bs = .ok out ↔ ∃ a mid, p.run bs = .ok (a, mid) ∧ (f a).run mid = .ok out :=
  run_bind_eq_ok

/-- `p` reads the encodings of the values that are `ok`, and only those. -/
def Exact {ε α : Type} (p : Reader ε α) (encode : α → List UInt8) (ok : α → Prop) : Prop :=
  ∀ bs a rest, p.run bs = .ok (a, rest) ↔ ok a ∧ bs = encode a ++ rest

section Primitives

variable {ε α : Type}

/-- An encoding is read back, and what follows it is left. -/
theorem Exact.run_encode {p : Reader ε α} {encode : α → List UInt8} {ok : α → Prop}
    (h : Exact p encode ok) {a : α} (ha : ok a) (rest : List UInt8) :
    p.run (encode a ++ rest) = .ok (a, rest) := (h _ _ _).mpr ⟨ha, rfl⟩

/-- The next `n` bytes. -/
def Reader.take (e : ε) (n : Nat) : Reader ε (List UInt8) := fun bs =>
  if bs.length < n then .error e else .ok (bs.take n, bs.drop n)

theorem exact_take (e : ε) (n : Nat) :
    Exact (Reader.take e n) id fun bs => bs.length = n := by
  intro bs a rest
  change Reader.take e n bs = _ ↔ _
  rw [Reader.take]
  split
  · rename_i hlt
    refine iff_of_false (by simp) ?_
    rintro ⟨rfl, rfl⟩
    rw [id, List.length_append] at hlt
    omega
  · rename_i hge
    rw [Except.ok.injEq, Prod.mk.injEq]
    constructor
    · rintro ⟨rfl, rfl⟩
      refine ⟨?_, (List.take_append_drop n bs).symm⟩
      show (bs.take n).length = n
      rw [List.length_take]
      omega
    · rintro ⟨rfl, rfl⟩
      exact ⟨List.take_left, List.drop_left⟩

/-- The next `n` bytes, with their number. -/
def Reader.block (e : ε) (n : Nat) : Reader ε { bs : List UInt8 // bs.length = n } := fun bs =>
  if h : n ≤ bs.length then .ok (⟨bs.take n, by rw [List.length_take, Nat.min_eq_left h]⟩, bs.drop n)
  else .error e

theorem exact_block (e : ε) (n : Nat) :
    Exact (Reader.block e n) (fun bs => bs.1) fun _ => True := by
  rintro bs ⟨a, rfl⟩ rest
  change Reader.block e a.length bs = _ ↔ _
  rw [Reader.block, true_and]
  split
  · rw [Except.ok.injEq, Prod.mk.injEq, Subtype.mk.injEq]
    constructor
    · rintro ⟨h, rfl⟩
      calc bs = bs.take a.length ++ bs.drop a.length := (List.take_append_drop _ bs).symm
        _ = a ++ bs.drop a.length := by rw [h]
    · rintro rfl
      exact ⟨List.take_left, List.drop_left⟩
  · rename_i hlt
    refine iff_of_false (by simp) ?_
    rintro rfl
    exact hlt (by rw [List.length_append]; exact Nat.le_add_right _ _)

/-- Fail unless a condition holds. -/
def Reader.require (e : ε) (b : Bool) : Reader ε Unit := fun bs =>
  if b = true then .ok ((), bs) else .error e

theorem Reader.require_eq_ok {e : ε} {b : Bool} {bs : List UInt8} {out : Unit × List UInt8} :
    (Reader.require e b).run bs = .ok out ↔ b = true ∧ out = ((), bs) := by
  change Reader.require e b bs = _ ↔ _
  rw [Reader.require]
  split
  · rename_i hb
    rw [Except.ok.injEq, and_iff_right hb]
    exact eq_comm
  · rename_i hb
    exact iff_of_false (by simp) fun h => hb h.1

/-- Lift a computation that does not look at the state. -/
theorem run_lift_eq_ok {σ : Type} {x : Except ε α} {s : σ} {out : α × σ} :
    (liftM x : StateT σ (Except ε) α).run s = .ok out ↔ x = .ok out.1 ∧ out.2 = s := by
  obtain ⟨a, s'⟩ := out
  cases x with
  | error e => exact iff_of_false (by rintro ⟨⟩) fun h => by cases h.1
  | ok v =>
    change (Except.ok (v, s) : Except ε _) = _ ↔ _
    rw [Except.ok.injEq, Prod.mk.injEq, Except.ok.injEq]
    exact and_congr_right fun _ => eq_comm

/-- Lift a computation that reads nothing. -/
theorem Reader.lift_eq_ok {x : Except ε α} {bs : List UInt8} {out : α × List UInt8} :
    (liftM x : Reader ε α).run bs = .ok out ↔ x = .ok out.1 ∧ out.2 = bs :=
  run_lift_eq_ok

/-- A little-endian number of `n` bytes. -/
def Reader.number (e : ε) (n : Nat) : Reader ε Nat := leValue <$> Reader.take e n

theorem exact_number (e : ε) (n : Nat) :
    Exact (Reader.number e n) (leBytes n) fun v => v < 256 ^ n := by
  intro bs v rest
  rw [Reader.number, ← bind_pure_comp, Reader.bind_eq_ok]
  constructor
  · rintro ⟨x, mid, hx, hv⟩
    obtain ⟨hlen, rfl⟩ := (exact_take e n _ _ _).mp hx
    cases hv
    rw [← hlen]
    exact ⟨leValue_lt x, by rw [leBytes_leValue, id]⟩
  · rintro ⟨hv, rfl⟩
    refine ⟨leBytes n v, rest, (exact_take e n _ _ _).mpr ⟨length_leBytes n v, rfl⟩, ?_⟩
    rw [leValue_leBytes hv]
    rfl

/-- A number of a machine type, read with the width of the type. -/
theorem exact_ofNat {T : Type} {n : Nat} (e : ε) (ofNat : Nat → T) (toNat : T → Nat)
    (hlt : ∀ t, toNat t < 256 ^ n) (hto : ∀ v < 256 ^ n, toNat (ofNat v) = v)
    (hof : ∀ t, ofNat (toNat t) = t) :
    Exact (ofNat <$> Reader.number e n) (fun t => leBytes n (toNat t)) fun _ => True := by
  intro bs t rest
  rw [← bind_pure_comp, Reader.bind_eq_ok, true_and]
  constructor
  · rintro ⟨v, mid, hv, ht⟩
    obtain ⟨hlt, rfl⟩ := (exact_number e n _ _ _).mp hv
    cases ht
    show leBytes n v ++ rest = leBytes n (toNat (ofNat v)) ++ rest
    rw [hto v hlt]
  · rintro rfl
    refine ⟨toNat t, rest, (exact_number e n _ _ _).mpr ⟨hlt t, rfl⟩, ?_⟩
    rw [hof]
    rfl

def Reader.uint16 (e : ε) : Reader ε UInt16 := UInt16.ofNat <$> Reader.number e 2

def Reader.uint32 (e : ε) : Reader ε UInt32 := UInt32.ofNat <$> Reader.number e 4

def Reader.uint64 (e : ε) : Reader ε UInt64 := UInt64.ofNat <$> Reader.number e 8

theorem exact_uint16 (e : ε) :
    Exact (Reader.uint16 e) (fun v => leBytes 2 v.toNat) fun _ => True :=
  exact_ofNat e _ _ (fun v => v.toNat_lt) (fun _ h => UInt16.toNat_ofNat_of_lt' h)
    fun _ => UInt16.ofNat_toNat

theorem exact_uint32 (e : ε) :
    Exact (Reader.uint32 e) (fun v => leBytes 4 v.toNat) fun _ => True :=
  exact_ofNat e _ _ (fun v => v.toNat_lt) (fun _ h => UInt32.toNat_ofNat_of_lt' h)
    fun _ => UInt32.ofNat_toNat

theorem exact_uint64 (e : ε) :
    Exact (Reader.uint64 e) (fun v => leBytes 8 v.toNat) fun _ => True :=
  exact_ofNat e _ _ (fun v => v.toNat_lt) (fun _ h => UInt64.toNat_ofNat_of_lt' h)
    fun _ => UInt64.ofNat_toNat

/-- Values one after the other. -/
def Reader.many (p : Reader ε α) : Nat → Reader ε (List α)
  | 0 => pure []
  | n + 1 => do
    let a ← p
    let as ← Reader.many p n
    return a :: as

theorem exact_many {p : Reader ε α} {encode : α → List UInt8} {ok : α → Prop} (h : Exact p encode ok)
    (n : Nat) :
    Exact (Reader.many p n) (fun as => as.flatMap encode) fun as => as.length = n ∧ ∀ a ∈ as, ok a := by
  induction n with
  | zero =>
    intro bs as rest
    constructor
    · rintro ⟨⟩
      exact ⟨⟨rfl, by simp⟩, rfl⟩
    · rintro ⟨⟨hlen, -⟩, rfl⟩
      obtain rfl := List.eq_nil_of_length_eq_zero hlen
      rfl
  | succ n ih =>
    intro bs as rest
    simp only [Reader.many, Reader.bind_eq_ok, h _ _ _, ih _ _ _]
    constructor
    · rintro ⟨a, _, ⟨ha, rfl⟩, as, _, ⟨⟨rfl, has⟩, rfl⟩, hout⟩
      cases hout
      exact ⟨⟨rfl, List.forall_mem_cons.mpr ⟨ha, has⟩⟩, by rw [List.flatMap_cons, List.append_assoc]⟩
    · rintro ⟨⟨hlen, hok⟩, rfl⟩
      obtain ⟨a, as, rfl⟩ := List.exists_cons_of_length_eq_add_one hlen
      rw [List.forall_mem_cons] at hok
      exact ⟨a, _, ⟨hok.1, by rw [List.flatMap_cons, List.append_assoc]⟩, as, rest,
        ⟨⟨Nat.succ.inj hlen, hok.2⟩, rfl⟩, rfl⟩

/-- Read the whole of a block. -/
def Reader.whole (p : Reader ε α) (e : ε) (bs : List UInt8) : Except ε α := do
  let (a, rest) ← p.run bs
  if rest = [] then .ok a else .error e

theorem whole_eq_ok {p : Reader ε α} {encode : α → List UInt8} {ok : α → Prop} (h : Exact p encode ok) {e : ε}
    {bs : List UInt8} {a : α} : p.whole e bs = .ok a ↔ ok a ∧ bs = encode a := by
  rw [Reader.whole]
  constructor
  · intro hrun
    cases hp : p.run bs with
    | error e' =>
      rw [hp] at hrun
      cases hrun
    | ok out =>
      obtain ⟨a', rest⟩ := out
      rw [hp] at hrun
      change (if rest = [] then Except.ok a' else Except.error e) = Except.ok a at hrun
      split at hrun
      · rename_i hnil
        cases hrun
        rw [hnil, h _ _ _, List.append_nil] at hp
        exact hp
      · cases hrun
  · rintro ⟨ha, rfl⟩
    have hp := h.run_encode ha []
    rw [List.append_nil] at hp
    rw [hp]
    rfl

end Primitives

/-! ## Reading at an index -/

/-- These bytes stand in the data, from the index on. -/
def Stands (data : List UInt8) (i : Nat) (bs : List UInt8) : Prop :=
  i + bs.length ≤ data.length ∧ (data.drop i).take bs.length = bs

section Stands

variable {data : List UInt8} {i : Nat}

theorem stands_append {a b : List UInt8} :
    Stands data i (a ++ b) ↔ Stands data i a ∧ Stands data (i + a.length) b := by
  rw [Stands, Stands, Stands, List.length_append, List.take_add, List.drop_drop]
  constructor
  · rintro ⟨hlen, h⟩
    have hla : ((data.drop i).take a.length).length = a.length := by
      rw [List.length_take, List.length_drop]
      omega
    obtain ⟨ha, hb⟩ := List.append_inj h hla
    exact ⟨⟨by omega, ha⟩, ⟨by omega, hb⟩⟩
  · rintro ⟨⟨-, ha⟩, hlen, hb⟩
    exact ⟨by omega, by rw [ha, hb]⟩

/-- What was put between two strings stands after the first. -/
theorem stands_mid (a b c : List UInt8) : Stands (a ++ (b ++ c)) a.length b := by
  refine ⟨by rw [List.length_append, List.length_append]; omega, ?_⟩
  rw [List.drop_left, List.take_left]

theorem stands_end (a b : List UInt8) : Stands (a ++ b) a.length b := by
  simpa using stands_mid a b []

/-- A number that stands in the data is found there. -/
theorem Stands.leValue {width v : Nat} (h : Stands data i (leBytes width v)) (hv : v < 256 ^ width) :
    i + width ≤ data.length ∧ Yappod.leValue ((data.drop i).take width) = v := by
  obtain ⟨hlen, h⟩ := h
  rw [length_leBytes] at hlen h
  exact ⟨hlen, by rw [h, leValue_leBytes hv]⟩

/-- Records one after the other, of known sizes. -/
theorem length_flatMap_sizes {α : Type} {f : α → List UInt8} {size : α → Nat}
    (h : ∀ x, (f x).length = size x) (xs : List α) : (xs.flatMap f).length = (xs.map size).sum := by
  rw [List.length_flatMap]
  exact congrArg List.sum (List.map_congr_left fun x _ => h x)

/-- Records of one width. -/
theorem length_flatMap_records {α : Type} {f : α → List UInt8} {width : Nat}
    (hwidth : ∀ x, (f x).length = width) (xs : List α) :
    (xs.flatMap f).length = xs.length * width := by
  induction xs with
  | nil => rw [List.flatMap_nil, List.length_nil, List.length_nil, Nat.zero_mul]
  | cons x xs ih =>
    rw [List.flatMap_cons, List.length_append, hwidth, ih, List.length_cons, Nat.succ_mul,
      Nat.add_comm]

/-- The `j`-th of records of one width stands `j` widths further on. -/
theorem Stands.flatMap {α : Type} {f : α → List UInt8} {width : Nat}
    (hwidth : ∀ x, (f x).length = width) {xs : List α} (h : Stands data i (xs.flatMap f)) {j : Nat}
    {x : α} (hx : xs[j]? = some x) : Stands data (i + j * width) (f x) := by
  induction xs generalizing i j with
  | nil => cases hx
  | cons y xs ih =>
    rw [List.flatMap_cons, stands_append, hwidth] at h
    cases j with
    | zero =>
      cases hx
      rw [Nat.zero_mul, Nat.add_zero]
      exact h.1
    | succ j =>
      have hrest := ih h.2 hx
      rwa [Nat.add_assoc, Nat.add_comm width, ← Nat.succ_mul] at hrest

end Stands

end Yappod

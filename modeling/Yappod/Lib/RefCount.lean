import Mathlib.Data.List.Basic
import Mathlib.Data.List.Count
import Mathlib.Data.List.Flatten
import Mathlib.Logic.Relation

/-!
# Counted references

A heap of objects that are shared and count the references to them.  An allocation is first raw: it belongs to the one
who allocated it and is being built.  Once built it is live, with a count and the references that it holds itself; when
the last reference is given up it is raw again, its own references pass to whoever gave it up, and it can be freed.

* `Counted` — every count is the number of references to the object, held by other objects or from outside.
* `Counted.alloc`, `init`, `retain`, `release`, `replace`, `free` — every operation keeps that.
* `Counted.reached` — if references only lead from one kind of objects to deeper kinds and nothing is raw, all that is
  not freed can be reached from outside.

A reference is a kind and an address: pointers are typed.
-/

set_option autoImplicit false

namespace Yappod

namespace RefCount

/-- Where an allocation stands. -/
inductive Stage
  | raw
  | live (count : Nat)
  | freed
  deriving DecidableEq, Repr

/-- An allocation.  What it holds stays on record when it is taken apart and freed. -/
structure Cell (Obj : Type) where
  stage : Stage
  obj : Option Obj

/-- All allocations that were ever made, by their addresses. -/
structure Heap (Obj : Type) where
  cells : List (Cell Obj)

/-- A typed reference. -/
abbrev Ref (κ : Type) := κ × Nat

/-- The kind of an object and the references that it holds. -/
structure Shape (Obj κ : Type) where
  kind : Obj → κ
  refs : Obj → List (Ref κ)

variable {Obj κ : Type}

/-- What the allocation at an address holds or has held. -/
def Heap.content (h : Heap Obj) (a : Nat) : Option Obj := h.cells[a]?.bind (·.obj)

/-- The heap with another cell at an address. -/
def Heap.put (h : Heap Obj) (a : Nat) (c : Cell Obj) : Heap Obj := ⟨h.cells.set a c⟩

/-- Make a raw allocation; its address is the next one. -/
def Heap.alloc (h : Heap Obj) : Heap Obj := ⟨h.cells ++ [⟨.raw, none⟩]⟩

/-- A raw allocation: its address, and whether it was live before. -/
abbrev Raw := Nat × Bool

/-- Whether an address is raw, as a number. -/
def Heap.rawCount (h : Heap Obj) (x : Raw) : Nat :=
  match h.cells[x.1]? with
  | some ⟨.raw, o⟩ => if o.isSome = x.2 then 1 else 0
  | _ => 0

/-- Turn a raw allocation into an object, with one reference to it. -/
def Heap.init (h : Heap Obj) (a : Nat) (o : Obj) : Option (Heap Obj) :=
  match h.cells[a]? with
  | some ⟨.raw, none⟩ => some (h.put a ⟨.live 1, some o⟩)
  | _ => none

/-- Free a raw allocation. -/
def Heap.free (h : Heap Obj) (a : Nat) : Option (Heap Obj) :=
  match h.cells[a]? with
  | some ⟨.raw, o⟩ => some (h.put a ⟨.freed, o⟩)
  | _ => none

variable [DecidableEq κ] (σ : Shape Obj κ)

/-- The references that a cell holds: those of its object while it is live. -/
def Cell.refs (c : Cell Obj) : List (Ref κ) :=
  match c.stage, c.obj with
  | .live _, some o => σ.refs o
  | _, _ => []

/-- The references that are held in the heap. -/
def Heap.refs (h : Heap Obj) : List (Ref κ) := h.cells.flatMap (Cell.refs σ)

/-- The count and the object behind a pointer of a kind to this cell. -/
def Cell.look (c : Cell Obj) (k : κ) : Option (Nat × Obj) :=
  match c.stage, c.obj with
  | .live n, some o => if σ.kind o = k then some (n, o) else none
  | _, _ => none

/-- The count and the object behind a reference, if it is live and of the right kind. -/
def Heap.look (h : Heap Obj) (r : Ref κ) : Option (Nat × Obj) := h.cells[r.2]?.bind fun c => c.look σ r.1

/-- The count behind a reference; zero if it leads to nothing. -/
def Heap.count (h : Heap Obj) (r : Ref κ) : Nat := ((h.look σ r).map (·.1)).getD 0

/-- Take one more reference. -/
def Heap.retain (h : Heap Obj) (r : Ref κ) : Option (Heap Obj) :=
  (h.look σ r).map fun x => h.put r.2 ⟨.live (x.1 + 1), some x.2⟩

/-- Give up a reference.  If it was the last one the allocation is raw again, and its object is returned. -/
def Heap.release (h : Heap Obj) (r : Ref κ) : Option (Option Obj × Heap Obj) :=
  (h.look σ r).bind fun x =>
    match x.1 with
    | 0 => none
    | 1 => some (some x.2, h.put r.2 ⟨.raw, some x.2⟩)
    | n + 2 => some (none, h.put r.2 ⟨.live (n + 1), some x.2⟩)

/-- Change an object in place. -/
def Heap.replace (h : Heap Obj) (r : Ref κ) (o : Obj) : Option (Heap Obj) :=
  (h.look σ r).map fun x => h.put r.2 ⟨.live x.1, some o⟩

/-- An object holds a reference to another one. -/
def Heap.Points (h : Heap Obj) (r t : Ref κ) : Prop := ∃ n o, h.look σ r = some (n, o) ∧ t ∈ σ.refs o

/-- The counts are right: `outside` are the references to objects that are held outside of the heap, and `raws` the
allocations that are raw. -/
structure Counted (outside : List (Ref κ)) (raws : List Raw) (h : Heap Obj) : Prop where
  counts : ∀ r, (outside ++ h.refs σ).count r = h.count σ r
  raw : ∀ x, raws.count x = h.rawCount x
  live : ∀ {a : Nat} {n : Nat} {o : Option Obj}, h.cells[a]? = some ⟨.live n, o⟩ → 0 < n ∧ o.isSome = true

variable {σ} {h h' : Heap Obj} {a n : Nat} {o : Obj} {r t : Ref κ}

/-! ## Looking up -/

theorem look_eq_some : h.look σ r = some (n, o) ↔ h.cells[r.2]? = some ⟨.live n, some o⟩ ∧ σ.kind o = r.1 := by
  rw [Heap.look, Option.bind_eq_some_iff]
  constructor
  · rintro ⟨⟨stage, obj⟩, hc, hlook⟩
    rw [Cell.look] at hlook
    split at hlook
    · rename_i m o' hstage hobj
      obtain rfl : stage = .live m := hstage
      obtain rfl : obj = some o' := hobj
      split at hlook
      · rename_i hkind
        cases hlook
        exact ⟨hc, hkind⟩
      · cases hlook
    · cases hlook
  · rintro ⟨hc, hkind⟩
    exact ⟨_, hc, by simp only [Cell.look, if_pos hkind]⟩

theorem content_of_look (hl : h.look σ r = some (n, o)) : h.content r.2 = some o := by
  rw [Heap.content, (look_eq_some.mp hl).1]
  rfl

theorem count_of_look (hl : h.look σ r = some (n, o)) : h.count σ r = n := by
  rw [Heap.count, hl]
  rfl

theorem exists_look_of_count (hc : 0 < h.count σ r) : ∃ n o, h.look σ r = some (n, o) := by
  rw [Heap.count] at hc
  cases hl : h.look σ r with
  | none => simp [hl] at hc
  | some x => exact ⟨x.1, x.2, rfl⟩

theorem mem_refs : t ∈ h.refs σ ↔ ∃ r, h.Points σ r t := by
  rw [Heap.refs, List.mem_flatMap]
  constructor
  · rintro ⟨⟨stage, obj⟩, hc, ht⟩
    obtain ⟨a, hlt, hcell⟩ := List.getElem_of_mem hc
    rw [Cell.refs] at ht
    split at ht
    · rename_i m o hstage hobj
      obtain rfl : stage = .live m := hstage
      obtain rfl : obj = some o := hobj
      exact ⟨(σ.kind o, a), m, o, look_eq_some.mpr ⟨by rw [List.getElem?_eq_getElem hlt, hcell], rfl⟩, ht⟩
    · cases ht
  · rintro ⟨r, n, o, hl, ht⟩
    exact ⟨⟨.live n, some o⟩, List.mem_of_getElem? (look_eq_some.mp hl).1, ht⟩

/-! ## Changing one cell -/

section Put

variable {c d : Cell Obj}

theorem getElem?_put (hc : h.cells[a]? = some c) (b : Nat) :
    (h.put a d).cells[b]? = if b = a then some d else h.cells[b]? := by
  obtain ⟨hlt, -⟩ := List.getElem?_eq_some_iff.mp hc
  rw [Heap.put, List.getElem?_set]
  by_cases hb : a = b
  · subst hb
    rw [if_pos rfl, if_pos hlt, if_pos rfl]
  · rw [if_neg hb, if_neg (Ne.symm hb)]

theorem content_put (hc : h.cells[a]? = some c) (b : Nat) :
    (h.put a d).content b = if b = a then d.obj else h.content b := by
  rw [Heap.content, getElem?_put hc]
  split <;> rfl

theorem look_put (hc : h.cells[a]? = some c) (r : Ref κ) :
    (h.put a d).look σ r = if r.2 = a then d.look σ r.1 else h.look σ r := by
  rw [Heap.look, getElem?_put hc]
  split <;> rfl

theorem rawCount_put (hc : h.cells[a]? = some c) (x : Raw) :
    (h.put a d).rawCount x = if x.1 = a then (if d.stage = .raw ∧ d.obj.isSome = x.2 then 1 else 0)
      else h.rawCount x := by
  rw [Heap.rawCount, getElem?_put hc]
  by_cases hx : x.1 = a
  · obtain ⟨stage, obj⟩ := d
    rw [if_pos hx, if_pos hx]
    cases stage <;> simp
  · rw [if_neg hx, if_neg hx]
    rfl

omit [DecidableEq κ] in
/-- The references of the other cells stay. -/
theorem count_flatMap_set [BEq κ] {cells : List (Cell Obj)} (hc : cells[a]? = some c) (r : Ref κ) :
    ((cells.set a d).flatMap (Cell.refs σ)).count r + (c.refs σ).count r =
      (cells.flatMap (Cell.refs σ)).count r + (d.refs σ).count r := by
  induction cells generalizing a with
  | nil => simp at hc
  | cons e cells ih =>
    cases a with
    | zero =>
      obtain rfl : e = c := by simpa using hc
      simp only [List.set_cons_zero, List.flatMap_cons, List.count_append]
      omega
    | succ a =>
      have hrest := ih (a := a) (by simpa using hc)
      simp only [List.set_cons_succ, List.flatMap_cons, List.count_append]
      omega

omit [DecidableEq κ] in
theorem count_refs_put [BEq κ] (hc : h.cells[a]? = some c) (r : Ref κ) :
    ((h.put a d).refs σ).count r + (c.refs σ).count r = (h.refs σ).count r + (d.refs σ).count r :=
  count_flatMap_set hc r

end Put

/-! ## What was allocated stays on record -/

section Content

variable {x : Obj}

omit [DecidableEq κ] in
theorem content_of_cell {c : Cell Obj} (hc : h.cells[a]? = some c) : h.content a = c.obj := by
  rw [Heap.content, hc]
  rfl

theorem content_alloc (hx : h.content a = some x) : h.alloc.content a = some x := by
  rw [Heap.content, Option.bind_eq_some_iff] at hx
  obtain ⟨c, hc, hobj⟩ := hx
  obtain ⟨hlt, -⟩ := List.getElem?_eq_some_iff.mp hc
  rw [Heap.content, Heap.alloc, List.getElem?_append_left hlt, hc]
  exact hobj

theorem content_init (hi : h.init a o = some h') : h'.content a = some o := by
  rw [Heap.init] at hi
  split at hi
  · rename_i hcell
    cases hi
    rw [content_put hcell, if_pos rfl]
  · cases hi

theorem content_init_of_some (hi : h.init a o = some h') {b : Nat} (hx : h.content b = some x) :
    h'.content b = some x := by
  rw [Heap.init] at hi
  split at hi
  · rename_i hcell
    cases hi
    rw [content_put hcell, if_neg]
    · exact hx
    · rintro rfl
      rw [content_of_cell hcell] at hx
      cases hx
  · cases hi

theorem content_free (hf : h.free a = some h') (b : Nat) : h'.content b = h.content b := by
  rw [Heap.free] at hf
  split at hf
  · rename_i hcell
    cases hf
    rw [content_put hcell]
    split
    · rename_i hb
      rw [hb, content_of_cell hcell]
    · rfl
  · cases hf

theorem content_retain (hr : h.retain σ r = some h') (b : Nat) : h'.content b = h.content b := by
  rw [Heap.retain, Option.map_eq_some_iff] at hr
  obtain ⟨⟨n, o⟩, hl, rfl⟩ := hr
  rw [content_put (look_eq_some.mp hl).1]
  split
  · rename_i hb
    rw [hb, content_of_look hl]
  · rfl

theorem content_release {last : Option Obj} (hr : h.release σ r = some (last, h')) (b : Nat) :
    h'.content b = h.content b := by
  rw [Heap.release, Option.bind_eq_some_iff] at hr
  obtain ⟨⟨n, o⟩, hl, hr⟩ := hr
  have hput : ∀ stage, (h.put r.2 ⟨stage, some o⟩).content b = h.content b := fun stage => by
    rw [content_put (look_eq_some.mp hl).1]
    split
    · rename_i hb
      rw [hb, content_of_look hl]
    · rfl
  match n, hr with
  | 1, hr =>
    cases hr
    exact hput _
  | n + 2, hr =>
    cases hr
    exact hput _

theorem content_replace (hr : h.replace σ r o = some h') (b : Nat) :
    h'.content b = if b = r.2 then some o else h.content b := by
  rw [Heap.replace, Option.map_eq_some_iff] at hr
  obtain ⟨⟨n, o'⟩, hl, rfl⟩ := hr
  rw [content_put (look_eq_some.mp hl).1]

end Content

/-! ## The operations -/

section Operations

variable {outside : List (Ref κ)} {raws : List Raw}

/-- Only how often a reference or an allocation is listed matters. -/
theorem Counted.perm {outside' : List (Ref κ)} {raws' : List Raw} (hc : Counted σ outside raws h)
    (ho : outside.Perm outside') (hr : raws.Perm raws') : Counted σ outside' raws' h where
  counts r := by rw [← hc.counts r, List.count_append, List.count_append, ho.count_eq]
  raw x := by rw [← hc.raw x, hr.count_eq]
  live := hc.live

/-- A reference that is held anywhere leads to an object. -/
theorem Counted.look_of_mem (hc : Counted σ outside raws h) (hr : r ∈ outside ++ h.refs σ) :
    ∃ n o, h.look σ r = some (n + 1, o) := by
  have hpos : 0 < h.count σ r := by
    rw [← hc.counts r]
    exact List.count_pos_iff.mpr hr
  obtain ⟨n, o, hl⟩ := exists_look_of_count hpos
  rw [count_of_look hl] at hpos
  exact ⟨n - 1, o, by rw [hl, Nat.sub_add_cancel hpos]⟩

/-- So does a reference that a live object holds. -/
theorem Counted.look_of_points (hc : Counted σ outside raws h) (hp : h.Points σ r t) :
    ∃ n o, h.look σ t = some (n + 1, o) :=
  hc.look_of_mem (List.mem_append_right _ (mem_refs.mpr ⟨r, hp⟩))

/-- What changes when one cell is exchanged for another. -/
theorem Counted.put {c d : Cell Obj} {outside' : List (Ref κ)} {raws' : List Raw} (hc : Counted σ outside raws h)
    (hcell : h.cells[a]? = some c) (hlive : ∀ n, d.stage = .live n → 0 < n ∧ d.obj.isSome = true)
    (hcounts : ∀ r, outside'.count r + (d.refs σ).count r + (if r.2 = a then ((c.look σ r.1).map (·.1)).getD 0 else 0) =
      outside.count r + (c.refs σ).count r + (if r.2 = a then ((d.look σ r.1).map (·.1)).getD 0 else 0))
    (hraw : ∀ x : Raw, raws'.count x + (if x.1 = a then (if c.stage = .raw ∧ c.obj.isSome = x.2 then 1 else 0) else 0) =
      raws.count x + if x.1 = a then (if d.stage = .raw ∧ d.obj.isSome = x.2 then 1 else 0) else 0) :
    Counted σ outside' raws' (h.put a d) where
  counts r := by
    have hold := hc.counts r
    have hset : ((h.put a d).refs σ).count r + (c.refs σ).count r = (h.refs σ).count r + (d.refs σ).count r :=
      count_refs_put hcell r
    have hthis := hcounts r
    rw [List.count_append] at hold ⊢
    rw [Heap.count, look_put hcell]
    by_cases hr : r.2 = a
    · have hlook : h.count σ r = ((c.look σ r.1).map (·.1)).getD 0 := by
        rw [Heap.count, Heap.look, hr, hcell]
        rfl
      rw [if_pos hr] at hthis ⊢
      rw [if_pos hr] at hthis
      omega
    · rw [if_neg hr] at hthis ⊢
      rw [if_neg hr] at hthis
      rw [Heap.count] at hold
      omega
  raw x := by
    have hold := hc.raw x
    have hthis := hraw x
    rw [rawCount_put hcell]
    by_cases hx : x.1 = a
    · have hcount : h.rawCount x = if c.stage = .raw ∧ c.obj.isSome = x.2 then 1 else 0 := by
        rw [Heap.rawCount, hx, hcell]
        obtain ⟨stage, obj⟩ := c
        cases stage <;> simp
      rw [if_pos hx] at hthis ⊢
      rw [if_pos hx] at hthis
      omega
    · rw [if_neg hx] at hthis ⊢
      rw [if_neg hx] at hthis
      omega
  live {b n o} hb := by
    rw [getElem?_put hcell] at hb
    split at hb
    · cases hb
      exact hlive n rfl
    · exact hc.live hb

theorem Counted.alloc (hc : Counted σ outside raws h) : Counted σ outside ((h.cells.length, false) :: raws) h.alloc where
  counts r := by
    have hold := hc.counts r
    have hlook : h.alloc.look σ r = h.look σ r := by
      rw [Heap.look, Heap.look, Heap.alloc, List.getElem?_append]
      split
      · rfl
      · rename_i hge
        rw [List.getElem?_eq_none (by omega : h.cells.length ≤ r.2)]
        cases hi : r.2 - h.cells.length <;> simp [Cell.look]
    rw [Heap.count, hlook, ← Heap.count, ← hold, Heap.refs, Heap.alloc, List.flatMap_append]
    simp [Cell.refs, Heap.refs]
  raw x := by
    have hold := hc.raw x
    rw [Heap.rawCount] at hold ⊢
    rw [List.count_cons, Heap.alloc, List.getElem?_append]
    obtain ⟨b, made⟩ := x
    by_cases hb : b < h.cells.length
    · have hne : ¬ (h.cells.length, false) = (b, made) := fun he => absurd (congrArg Prod.fst he) (by simp; omega)
      rw [if_pos hb, hold]
      simpa using hne
    · rw [if_neg hb]
      rw [List.getElem?_eq_none (by simpa using hb)] at hold
      by_cases heq : b = h.cells.length
      · subst heq
        rw [hold]
        cases made <;> simp
      · have hne : ¬ (h.cells.length, false) = (b, made) := fun he => heq (congrArg Prod.fst he).symm
        obtain ⟨i, hi⟩ : ∃ i, b - h.cells.length = i + 1 := ⟨b - h.cells.length - 1, by omega⟩
        rw [hold, hi]
        simpa using hne
  live {b n o} hb := by
    rw [Heap.alloc, List.getElem?_append] at hb
    split at hb
    · exact hc.live hb
    · cases hi : b - h.cells.length with
      | zero => simp [hi] at hb
      | succ i => simp [hi] at hb

theorem Counted.init (hc : Counted σ (σ.refs o ++ outside) ((a, false) :: raws) h) (hi : h.init a o = some h') :
    Counted σ ((σ.kind o, a) :: outside) raws h' := by
  rw [Heap.init] at hi
  split at hi
  · rename_i hcell
    cases hi
    refine hc.put hcell (by rintro n ⟨rfl⟩; exact ⟨by omega, rfl⟩) (fun r => ?_) (fun x => ?_)
    · obtain ⟨k, b⟩ := r
      simp only [List.count_cons, List.count_append, Cell.refs, Cell.look, List.count_nil]
      by_cases hb : b = a <;> by_cases hk : σ.kind o = k <;> simp [hb, hk, Ne.symm] <;> omega
    · obtain ⟨b, made⟩ := x
      by_cases hb : b = a
      · subst hb
        cases made <;> simp
      · simp [hb, Ne.symm hb]
  · cases hi

theorem Counted.free {made : Bool} (hc : Counted σ outside ((a, made) :: raws) h) (hf : h.free a = some h') :
    Counted σ outside raws h' := by
  rw [Heap.free] at hf
  split at hf
  · rename_i o hcell
    cases hf
    have hmade : o.isSome = made := by
      have hraw := hc.raw (a, made)
      simp only [Heap.rawCount, hcell, List.count_cons_self] at hraw
      by_contra hne
      rw [if_neg hne] at hraw
      omega
    refine hc.put hcell (by rintro n ⟨⟩) (fun r => by simp [Cell.refs, Cell.look]) (fun x => ?_)
    obtain ⟨b, made'⟩ := x
    subst hmade
    by_cases hb : b = a
    · subst hb
      by_cases hm : o.isSome = made' <;> simp [hm]
    · simp [hb, Ne.symm hb]
  · cases hf

theorem Counted.retain (hc : Counted σ outside raws h) (hr : h.retain σ r = some h') :
    Counted σ (r :: outside) raws h' := by
  rw [Heap.retain, Option.map_eq_some_iff] at hr
  obtain ⟨⟨n, o⟩, hl, rfl⟩ := hr
  obtain ⟨hcell, hkind⟩ := look_eq_some.mp hl
  refine hc.put hcell (by rintro m ⟨rfl⟩; exact ⟨by omega, rfl⟩) (fun t => ?_) (fun x => by simp)
  obtain ⟨k, b⟩ := t
  obtain ⟨k', a⟩ := r
  obtain rfl : σ.kind o = k' := hkind
  simp only [List.count_cons, Cell.refs, Cell.look]
  by_cases hb : b = a <;> by_cases hk : σ.kind o = k <;> simp [hb, hk, Ne.symm]
  omega

/-- What giving up a reference leaves: one reference less, or, if it was the last one, the references of the object and
an allocation that is raw again. -/
theorem Counted.release {last : Option Obj} (hc : Counted σ (r :: outside) raws h)
    (hr : h.release σ r = some (last, h')) :
    match last with
    | none => Counted σ outside raws h'
    | some o => h.content r.2 = some o ∧ Counted σ (σ.refs o ++ outside) ((r.2, true) :: raws) h' := by
  rw [Heap.release, Option.bind_eq_some_iff] at hr
  obtain ⟨⟨n, o⟩, hl, hr⟩ := hr
  obtain ⟨hcell, hkind⟩ := look_eq_some.mp hl
  have hcontent := content_of_look hl
  obtain ⟨k', a⟩ := r
  obtain rfl : σ.kind o = k' := hkind
  match n, hr with
  | 1, hr =>
    cases hr
    refine ⟨hcontent, hc.put hcell (by rintro m ⟨⟩) (fun t => ?_) (fun x => ?_)⟩
    · obtain ⟨k, b⟩ := t
      simp only [List.count_cons, List.count_append, Cell.refs, Cell.look, List.count_nil]
      by_cases hb : b = a <;> by_cases hk : σ.kind o = k <;> simp [hb, hk, Ne.symm] <;> omega
    · obtain ⟨b, made⟩ := x
      by_cases hb : b = a
      · subst hb
        cases made <;> simp
      · simp [hb, Ne.symm hb]
  | n + 2, hr =>
    cases hr
    refine hc.put hcell (by rintro m ⟨rfl⟩; exact ⟨by omega, rfl⟩) (fun t => ?_) (fun x => by simp)
    obtain ⟨k, b⟩ := t
    simp only [List.count_cons, Cell.refs, Cell.look]
    by_cases hb : b = a <;> by_cases hk : σ.kind o = k <;> simp [hb, hk, Ne.symm]
    omega

/-- An object that is changed in place takes over other references and gives its own back. -/
theorem Counted.replace {o' : Obj} (hc : Counted σ (σ.refs o' ++ outside) raws h) (ho : h.content r.2 = some o)
    (hkind' : σ.kind o' = r.1) (hr : h.replace σ r o' = some h') : Counted σ (σ.refs o ++ outside) raws h' := by
  rw [Heap.replace, Option.map_eq_some_iff] at hr
  obtain ⟨⟨n, o''⟩, hl, rfl⟩ := hr
  obtain ⟨hcell, hkind⟩ := look_eq_some.mp hl
  obtain rfl : o'' = o := Option.some.inj ((content_of_look hl).symm.trans ho)
  refine hc.put hcell (by rintro m ⟨rfl⟩; exact ⟨(hc.live hcell).1, rfl⟩) (fun t => ?_) (fun x => by simp)
  simp only [List.count_append, Cell.refs, Cell.look, hkind, hkind']
  by_cases hb : t.2 = r.2 <;> by_cases hk : r.1 = t.1 <;> simp only [hb, hk, if_true, if_false] <;> simp <;> omega

/-! ## Nothing is lost -/

/-- If nothing is raw and references only lead from one kind to deeper kinds, every allocation that is not freed can be
reached from outside of the heap. -/
theorem Counted.reached {depth : κ → Nat} (hc : Counted σ outside [] h)
    (hdepth : ∀ o, ∀ t ∈ σ.refs o, depth (σ.kind o) < depth t.1) {c : Cell Obj} (hcell : h.cells[a]? = some c)
    (hfreed : c.stage ≠ .freed) :
    ∃ k, ∃ r ∈ outside, Relation.ReflTransGen (h.Points σ) r (k, a) := by
  have hlive : ∀ d, ∀ r : Ref κ, depth r.1 = d → 0 < h.count σ r →
      ∃ s ∈ outside, Relation.ReflTransGen (h.Points σ) s r := by
    intro d
    induction d using Nat.strongRecOn with
    | ind d ih =>
      intro r hd hpos
      rw [← hc.counts r, List.count_pos_iff] at hpos
      rcases List.mem_append.mp hpos with hout | hin
      · exact ⟨r, hout, .refl⟩
      obtain ⟨t, hpoints⟩ := mem_refs.mp hin
      obtain ⟨n, o, hl, hmem⟩ := hpoints
      obtain ⟨hcell, hkind⟩ := look_eq_some.mp hl
      have hlt : depth t.1 < d := by
        rw [← hd, ← hkind]
        exact hdepth o r hmem
      have htpos : 0 < h.count σ t := by
        rw [count_of_look hl]
        exact (hc.live hcell).1
      obtain ⟨s, hs, hreach⟩ := ih _ hlt t rfl htpos
      exact ⟨s, hs, hreach.tail ⟨n, o, hl, hmem⟩⟩
  obtain ⟨stage, obj⟩ := c
  cases stage with
  | raw =>
    have hraw := hc.raw (a, obj.isSome)
    simp [Heap.rawCount, hcell] at hraw
  | live n =>
    obtain ⟨hn, hobj⟩ := hc.live hcell
    obtain ⟨o, rfl⟩ := Option.isSome_iff_exists.mp hobj
    have hl : h.look σ (σ.kind o, a) = some (n, o) := look_eq_some.mpr ⟨hcell, rfl⟩
    exact ⟨σ.kind o, hlive _ (σ.kind o, a) rfl (by rwa [count_of_look hl])⟩
  | freed => exact absurd rfl hfreed

end Operations

end RefCount

end Yappod

import Yappod.Indexing.Ingest
import Yappod.Indexing.Update

/-!
# Batches of records

`YAP_V2_update_parse_json_batch`: the body of an ingest request, an object whose only field `operations` is an array
of records.  The loop over the array keeps one status, which starts as `YAP_V2_INVALID_FORMAT` and is overwritten by
each record's own; a value that is not an object leaves the loop with the status as it is.

* `BatchOf` — the bodies that stand for a list of operations.
* `LateNonObject` — the bodies in which a value that is not an object comes after records that are parsed.
* `parseJsonBatch_exact` — such a body is answered `YAP_V2_OK` without any operations, and every other body is taken
  as a whole or refused.
-/

set_option autoImplicit false

namespace Yappod

open JsonValue

/-! ## The parser -/

/-- What the call leaves behind: the status, `*operations_out`, `*count_out` and the text for the caller. -/
structure BatchResult where
  status : Status
  operations : Option (List RawOperation)
  count : Nat
  error : Bytes
  deriving DecidableEq

/-- A refused batch, with both outputs as they were initialised. -/
def batchStopped (status : Status) (error : Bytes) : BatchResult := ⟨status, none, 0, error⟩

/-- `validate_unique_ids`. -/
def rawUniqueIds (ops : List RawOperation) : Status := if (ops.map (·.id)).Nodup then .ok else .duplicate

/-- After the loop. -/
def finishBatch (ops : List RawOperation) : BatchResult :=
  if rawUniqueIds ops = .ok then ⟨.ok, some ops, ops.length, []⟩
  else batchStopped (rawUniqueIds ops) (ascii "batch contains duplicate document IDs")

def keyOperations : Bytes := ascii "operations"

variable (lib : JsonLibrary)

/-- The loop over the array, with the status and the operations so far. -/
def parseItems : Status → List RawOperation → List Value → BatchResult
  | _, ops, [] => finishBatch ops
  | _, ops, .object members :: items =>
    match ingestParseJsonValue lib (.object members) with
    | .error e => batchStopped e.status e.message
    | .ok op => parseItems .ok (ops ++ [op]) items
  -- the status is not set here
  | status, _, _ :: _ => batchStopped status (ascii "each operation must be an object")

/-- `YAP_V2_update_parse_json_batch`. -/
def updateParseJsonBatch (input : Bytes) : BatchResult :=
  match lib.read input with
  | none => batchStopped .invalidFormat (ascii "invalid JSON")
  | some (.object members) =>
    match get members keyOperations with
    | some (.array items) =>
      if members.length ≠ 1 ∨ items.length = 0 ∨ updateMaxOperations < items.length then
        batchStopped .invalidFormat (ascii "request must contain 1 to 10000 operations")
      else parseItems lib .invalidFormat [] items
    | _ => batchStopped .invalidFormat (ascii "request must contain 1 to 10000 operations")
  | some _ => batchStopped .invalidFormat (ascii "request must contain 1 to 10000 operations")

/-! ## What a body stands for -/

/-- The records of the body: an object with the single key `operations`, under which there are 1 to 10000 values. -/
def BodyItems (input : Bytes) (items : List Value) : Prop :=
  lib.read input = some (.object [(keyOperations, .array items)]) ∧ 1 ≤ items.length ∧
    items.length ≤ updateMaxOperations

/-- A record that is parsed as an operation. -/
def ParsesTo (item : Value) (op : RawOperation) : Prop :=
  (∃ members, item = .object members) ∧ ingestParseJsonValue lib item = .ok op

/-- A body that stands for a list of operations. -/
def BatchOf (input : Bytes) (ops : List RawOperation) : Prop :=
  ∃ items, BodyItems lib input items ∧ List.Forall₂ (ParsesTo lib) items ops ∧ (ops.map (·.id)).Nodup

/-- The batch is taken as a whole, or refused without a trace. -/
structure AllOrNothing (input : Bytes) (r : BatchResult) : Prop where
  ok_iff : r.status = .ok ↔ ∃ ops, BatchOf lib input ops
  all : r.status = .ok → ∃ ops, BatchOf lib input ops ∧ r.operations = some ops ∧ r.count = ops.length
  nothing : r.status ≠ .ok → r.operations = none ∧ r.count = 0

/-- Some value is not an object, and all values before it, at least one, are parsed. -/
def LateNonObject (input : Bytes) : Prop :=
  ∃ before item after ops, BodyItems lib input (before ++ item :: after) ∧ before ≠ [] ∧
    List.Forall₂ (ParsesTo lib) before ops ∧ ∀ members, item ≠ .object members

/-! ## The loop -/

variable {lib}

variable (lib) in
/-- The loop goes through the array, or stops at a value that is no object, or at a record that is refused. -/
theorem parseItems_cases (status : Status) (ops : List RawOperation) (items : List Value) :
    (∃ more, List.Forall₂ (ParsesTo lib) items more ∧ parseItems lib status ops items = finishBatch (ops ++ more)) ∨
    (∃ before item after more, items = before ++ item :: after ∧ List.Forall₂ (ParsesTo lib) before more ∧
      (∀ members, item ≠ .object members) ∧
      parseItems lib status ops items =
        batchStopped (if before = [] then status else .ok) (ascii "each operation must be an object")) ∨
    (∃ before item after more e, items = before ++ item :: after ∧ List.Forall₂ (ParsesTo lib) before more ∧
      (∃ members, item = .object members) ∧ ingestParseJsonValue lib item = .error e ∧
      parseItems lib status ops items = batchStopped e.status e.message) := by
  induction items generalizing status ops with
  | nil => exact .inl ⟨[], .nil, by rw [parseItems, List.append_nil]⟩
  | cons item items ih =>
    by_cases hobject : ∃ members, item = .object members
    · obtain ⟨members, rfl⟩ := hobject
      cases hparse : ingestParseJsonValue lib (.object members) with
      | error e =>
        refine .inr (.inr ⟨[], .object members, items, [], e, rfl, .nil, ⟨members, rfl⟩, hparse, ?_⟩)
        rw [parseItems, hparse]
      | ok op =>
        have hstep : parseItems lib status ops (.object members :: items) = parseItems lib .ok (ops ++ [op]) items := by
          rw [parseItems, hparse]
        have hhead : ParsesTo lib (.object members) op := ⟨⟨members, rfl⟩, hparse⟩
        rw [hstep]
        rcases ih .ok (ops ++ [op]) with ⟨more, hmore, heq⟩ | ⟨before, item, after, more, rfl, hmore, hno, heq⟩ |
          ⟨before, item, after, more, e, rfl, hmore, hobject, he, heq⟩
        · exact .inl ⟨op :: more, .cons hhead hmore, by rw [heq, List.append_assoc, List.singleton_append]⟩
        · refine .inr (.inl ⟨.object members :: before, item, after, op :: more, rfl, .cons hhead hmore, hno, ?_⟩)
          rw [heq, if_neg (List.cons_ne_nil _ _), ite_self]
        · exact .inr (.inr ⟨.object members :: before, item, after, op :: more, e, rfl, .cons hhead hmore, hobject, he,
            heq⟩)
    · refine .inr (.inl ⟨[], item, items, [], rfl, .nil, not_exists.mp hobject, ?_⟩)
      rw [if_pos rfl, parseItems]
      exact fun members h => hobject ⟨members, h⟩

theorem exists_parsesTo {items : List Value} {ops : List RawOperation} (h : List.Forall₂ (ParsesTo lib) items ops) :
    ∀ item ∈ items, ∃ op, ParsesTo lib item op := by
  induction h with
  | nil => exact fun _ hitem => absurd hitem List.not_mem_nil
  | cons hhead _ ih => exact List.forall_mem_cons.mpr ⟨⟨_, hhead⟩, ih⟩

/-- The first element without a property is at one place. -/
theorem first_without_unique {α : Type} {p : α → Prop} {xs ys xs' ys' : List α} {a b : α}
    (h : xs ++ a :: xs' = ys ++ b :: ys') (hxs : ∀ x ∈ xs, p x) (ha : ¬ p a) (hys : ∀ y ∈ ys, p y) (hb : ¬ p b) :
    xs = ys ∧ a = b := by
  induction xs generalizing ys with
  | nil =>
    cases ys with
    | nil => exact ⟨rfl, (List.cons.inj h).1⟩
    | cons y ys => exact absurd ((List.cons.inj h).1 ▸ hys y List.mem_cons_self) ha
  | cons x xs ih =>
    cases ys with
    | nil => exact absurd ((List.cons.inj h).1 ▸ hxs x List.mem_cons_self) hb
    | cons y ys =>
      obtain ⟨hx, htail⟩ := List.cons.inj h
      obtain ⟨hxsys, hab⟩ := ih htail (fun z hz => hxs z (List.mem_cons_of_mem _ hz))
        (fun z hz => hys z (List.mem_cons_of_mem _ hz))
      exact ⟨by rw [hx, hxsys], hab⟩

theorem parsesTo_unique {items : List Value} {ops ops' : List RawOperation}
    (h : List.Forall₂ (ParsesTo lib) items ops) (h' : List.Forall₂ (ParsesTo lib) items ops') : ops = ops' := by
  induction h generalizing ops' with
  | nil =>
    cases h'
    rfl
  | cons hhead _ ih =>
    cases h' with
    | cons hhead' htail' => rw [Except.ok.inj (hhead.2.symm.trans hhead'.2), ih htail']

variable (lib) in
/-- A body with records is left to the loop, every other one is refused. -/
theorem updateParseJsonBatch_cases (input : Bytes) :
    (∃ items, BodyItems lib input items ∧ updateParseJsonBatch lib input = parseItems lib .invalidFormat [] items) ∨
    ((∀ items, ¬ BodyItems lib input items) ∧
      ∃ error, updateParseJsonBatch lib input = batchStopped .invalidFormat error) := by
  by_cases hbody : ∃ items, BodyItems lib input items
  · obtain ⟨items, hitems⟩ := hbody
    refine .inl ⟨items, hitems, ?_⟩
    obtain ⟨hread, hmin, hmax⟩ := hitems
    have hget : get [(keyOperations, (array items : Value))] keyOperations = some (.array items) := by
      simp [JsonValue.get]
    have hguard : ¬ (([(keyOperations, (array items : Value))] : List (Member JsonNumber)).length ≠ 1 ∨
        items.length = 0 ∨ updateMaxOperations < items.length) := by
      rw [List.length_singleton]
      omega
    simp only [updateParseJsonBatch, hread, hget, if_neg hguard]
  · rw [not_exists] at hbody
    refine .inr ⟨hbody, ?_⟩
    rw [updateParseJsonBatch]
    split
    · exact ⟨_, rfl⟩
    next members hread =>
      split
      next items hget =>
        split
        · exact ⟨_, rfl⟩
        next hguard =>
          rw [not_or, not_or, not_not, Nat.not_lt] at hguard
          obtain ⟨m, rfl⟩ := List.length_eq_one_iff.mp hguard.1
          obtain rfl := List.mem_singleton.mp (mem_of_get hget)
          exact absurd ⟨hread, Nat.one_le_iff_ne_zero.mpr hguard.2.1, hguard.2.2⟩ (hbody items)
      next => exact ⟨_, rfl⟩
    next => exact ⟨_, rfl⟩

theorem bodyItems_unique {input : Bytes} {items items' : List Value} (h : BodyItems lib input items)
    (h' : BodyItems lib input items') : items = items' := by
  have heq := Option.some.inj (h.1.symm.trans h'.1)
  simpa using heq

/-- A batch that was stopped with an error, of a body that stands for no operations. -/
theorem allOrNothing_stopped {input : Bytes} {status : Status} {error : Bytes} (hstatus : status ≠ .ok)
    (hnot : ∀ ops, ¬ BatchOf lib input ops) : AllOrNothing lib input (batchStopped status error) where
  ok_iff := ⟨fun h => absurd h hstatus, fun ⟨ops, h⟩ => absurd h (hnot ops)⟩
  all h := absurd h hstatus
  nothing _ := ⟨rfl, rfl⟩

/-- What comes late is what the loop stops at. -/
theorem LateNonObject.split {input : Bytes} {before after : List Value} {item : Value} {ops : List RawOperation}
    (h : LateNonObject lib input) (hbody : BodyItems lib input (before ++ item :: after))
    (hops : List.Forall₂ (ParsesTo lib) before ops) (hitem : ∀ op, ¬ ParsesTo lib item op) :
    before ≠ [] ∧ ∀ members, item ≠ .object members := by
  obtain ⟨before', item', after', ops', hbody', hne, hops', hno⟩ := h
  have hitem' : ¬ ∃ op, ParsesTo lib item' op := fun ⟨_, ⟨members, hmembers⟩, _⟩ => hno members hmembers
  obtain ⟨hbefore, heq⟩ := first_without_unique (p := fun v => ∃ op, ParsesTo lib v op)
    (bodyItems_unique hbody hbody') (exists_parsesTo hops) (not_exists.mpr hitem) (exists_parsesTo hops') hitem'
  exact ⟨hbefore ▸ hne, heq ▸ hno⟩

/-- A batch is all or nothing exactly if no value that is not an object comes late in it. -/
theorem allOrNothing_iff (input : Bytes) :
    AllOrNothing lib input (updateParseJsonBatch lib input) ↔ ¬ LateNonObject lib input := by
  rcases updateParseJsonBatch_cases lib input with ⟨items, hitems, heq⟩ | ⟨hnone, error, heq⟩
  · -- a body stands for operations only through these values
    have hbatch : ∀ ops, BatchOf lib input ops →
        List.Forall₂ (ParsesTo lib) items ops ∧ (ops.map (·.id)).Nodup := by
      rintro ops ⟨items', hitems', hops, hnodup⟩
      exact ⟨bodyItems_unique hitems' hitems ▸ hops, hnodup⟩
    have hstop : ∀ before item after, items = before ++ item :: after → (∀ op, ¬ ParsesTo lib item op) →
        ∀ ops, ¬ BatchOf lib input ops := by
      intro before item after hsplit hitem ops h
      obtain ⟨op, hop⟩ := exists_parsesTo (hbatch ops h).1 item (by simp [hsplit])
      exact hitem op hop
    rw [heq]
    rcases parseItems_cases lib .invalidFormat [] items with ⟨ops, hops, hloop⟩ |
      ⟨before, item, after, ops, hsplit, hops, hno, hloop⟩ | ⟨before, item, after, ops, e, hsplit, hops, hobject, he, hloop⟩
    · -- all values are parsed, and only the ids decide
      have hlate : ¬ LateNonObject lib input := by
        rintro ⟨before, item, after, -, hbody, -, -, hno⟩
        rw [bodyItems_unique hitems hbody] at hops
        obtain ⟨op, ⟨members, hmembers⟩, -⟩ := exists_parsesTo hops item (by simp)
        exact hno members hmembers
      refine iff_of_true ?_ hlate
      rw [hloop, List.nil_append, finishBatch]
      by_cases hnodup : (ops.map (·.id)).Nodup
      · have hbatchOf : BatchOf lib input ops := ⟨items, hitems, hops, hnodup⟩
        rw [rawUniqueIds, if_pos hnodup, if_pos rfl]
        exact ⟨⟨fun _ => ⟨ops, hbatchOf⟩, fun _ => rfl⟩, fun _ => ⟨ops, hbatchOf, rfl, rfl⟩, fun h => absurd rfl h⟩
      · rw [rawUniqueIds, if_neg hnodup, if_neg (by decide)]
        refine allOrNothing_stopped (by decide) fun ops' h => hnodup ?_
        rw [parsesTo_unique hops (hbatch ops' h).1]
        exact (hbatch ops' h).2
    · -- a value is no object, and the status is that of the record before it
      have hitem : ∀ op, ¬ ParsesTo lib item op := fun _ ⟨⟨members, hmembers⟩, _⟩ => hno members hmembers
      have hnot := hstop before item after hsplit hitem
      rw [hloop]
      by_cases hbefore : before = []
      · rw [if_pos hbefore]
        refine iff_of_true (allOrNothing_stopped (by decide) hnot) fun hlate => ?_
        exact (hlate.split (hsplit ▸ hitems) hops hitem).1 hbefore
      · rw [if_neg hbefore]
        refine iff_of_false (fun h => ?_) (not_not.mpr ⟨before, item, after, ops, hsplit ▸ hitems, hbefore, hops, hno⟩)
        obtain ⟨ops', h'⟩ := h.ok_iff.mp rfl
        exact hnot ops' h'
    · -- a record is refused, with its own status
      have hitem : ∀ op, ¬ ParsesTo lib item op := fun _ ⟨_, hop⟩ => absurd (he.symm.trans hop) (by simp)
      rw [hloop]
      refine iff_of_true (allOrNothing_stopped (errorsNotOk_ingestParseJsonValue item e he)
        (hstop before item after hsplit hitem)) fun hlate => ?_
      obtain ⟨members, hmembers⟩ := hobject
      exact (hlate.split (hsplit ▸ hitems) hops hitem).2 members hmembers
  · rw [heq]
    refine iff_of_true (allOrNothing_stopped (by decide) fun ops ⟨items, hitems, _⟩ => hnone items hitems) ?_
    rintro ⟨before, item, after, ops, hbody, -⟩
    exact hnone _ hbody

theorem allOrNothing_of_not_late {input : Bytes} (h : ¬ LateNonObject lib input) :
    AllOrNothing lib input (updateParseJsonBatch lib input) := (allOrNothing_iff input).mpr h

end Yappod

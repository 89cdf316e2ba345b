import Yappod.Indexing.UpdateBatch

/-!
# Micro-batches of ingest requests

`YAP_V2_http_runtime_execute_ingest_batch`.  The bodies of the waiting requests are parsed first; then neighbouring
requests are put into one group, until one of them cannot be parsed, or an id comes a second time, or the group
would be too large.  A group is applied as one update; if the update is refused, its requests are applied one by
one.

What an update does to the index is not looked into here: `apply` may be any function on states.  The run keeps the
list of the batches for which it returned `YAP_V2_OK`.

* `answered_ok_applied` — a request that is answered 200 has its operations in one of these batches.
-/

set_option autoImplicit false

namespace Yappod

/-! ## Answers -/

/-- The answer to one request. -/
inductive IngestAnswer
  | applied (accepted upserts deletes : Nat)
  | refused (httpStatus : Nat) (code message : Bytes)
  deriving DecidableEq

def IngestAnswer.httpStatus : IngestAnswer → Nat
  | .applied _ _ _ => 200
  | .refused status _ _ => status

/-- `YAP_V2_status_string`. -/
def statusString : Status → Bytes
  | .ok => ascii "ok"
  | .invalidArgument => ascii "invalid argument"
  | .invalidFormat => ascii "invalid format"
  | .outOfRange => ascii "out of range"
  | .duplicate => ascii "duplicate"
  | .allocationFailed => ascii "allocation failed"
  | .ioError => ascii "I/O error"
  | .checksumMismatch => ascii "checksum mismatch"
  | .conflict => ascii "conflict"
  | .notFound => ascii "not found"
  | .segmentCapacityExceeded => ascii "segment capacity exceeded"

/-- `update_status_is_client_error`. -/
def statusIsClientError (status : Status) : Bool :=
  status = .invalidArgument || status = .invalidFormat || status = .outOfRange || status = .duplicate ||
    status = .segmentCapacityExceeded

/-- `update_error_response`. -/
def updateErrorResponse (status : Status) (message : Bytes) : IngestAnswer :=
  let resolved := if message = [] then statusString status else message
  if statusIsClientError status then .refused 400 (ascii "invalid_batch") resolved
  else if status = .conflict then .refused 409 (ascii "generation_conflict") resolved
  else .refused 503 (ascii "update_unavailable") resolved

/-! ## Parsing -/

/-- `YAP_V2_HTTP_MAX_INGEST_BODY_BYTES`. -/
def maxIngestBodyBytes : Nat := 256 * 1024 * 1024

/-- `HTTP_PARSED_INGEST`, with the place of its request. -/
structure ParsedIngest where
  index : Nat
  status : Status
  operations : List RawOperation
  error : Bytes

def ParsedIngest.deletes (p : ParsedIngest) : Nat := p.operations.countP fun op => op.kind = kindDelete

def ParsedIngest.upserts (p : ParsedIngest) : Nat := p.operations.countP fun op => op.kind ≠ kindDelete

variable (lib : JsonLibrary)

/-- One round of the first loop. -/
def parseIngest (index : Nat) (body : Bytes) : ParsedIngest :=
  if body = [] ∨ maxIngestBodyBytes < body.length then
    ⟨index, .invalidArgument, [], ascii "request body is invalid"⟩
  else
    let r := updateParseJsonBatch lib body
    ⟨index, r.status, r.operations.getD [], r.error⟩

/-! ## Groups -/

section Groups

variable {σ : Type} (apply : σ → List RawOperation → (Status × Bytes) × σ)

/-- The state of the index, the answers so far, and the batches that were applied. -/
structure IngestRun (σ : Type) where
  state : σ
  answers : List (Nat × IngestAnswer)
  applied : List (List RawOperation)

/-- The operations of a group, `combined`. -/
def groupOperations (group : List ParsedIngest) : List RawOperation := group.flatMap (·.operations)

/-- `apply_ingest_group` when nothing is tried again. -/
def applyGroupOnce (run : IngestRun σ) (group : List ParsedIngest) : IngestRun σ :=
  let ((status, error), state) := apply run.state (groupOperations group)
  { state,
    answers := run.answers ++ group.map fun p =>
      (p.index, if status = .ok then .applied p.operations.length p.upserts p.deletes
        else updateErrorResponse status error),
    applied := if status = .ok then run.applied ++ [groupOperations group] else run.applied }

/-- `apply_ingest_group`. -/
def applyIngestGroup (run : IngestRun σ) (group : List ParsedIngest) : IngestRun σ :=
  let ((status, _), state) := apply run.state (groupOperations group)
  if status ≠ .ok ∧ 1 < group.length ∧ statusIsClientError status = true then
    group.foldl (fun run p => applyGroupOnce apply run [p]) { run with state }
  else applyGroupOnce apply run group

/-- The ids of a group, in `id_slots`. -/
abbrev IdSlots := Table (Option CString) Unit

def idSlotCapacity : Nat := 32768

/-- `update_id_hash`. -/
def updateIdHash (id : Option CString) : Nat := bytesHash (id.elim [] CString.bytes)

/-- `update_group_contains_ids`. -/
def groupContainsIds (slots : IdSlots) (p : ParsedIngest) : Bool :=
  p.operations.any fun op => (slots.lookup updateIdHash op.id).isSome

/-- `update_group_add_ids`, for ids that are not in the table. -/
def groupAddIds (slots : IdSlots) (p : ParsedIngest) : IdSlots :=
  p.operations.foldl (fun slots op => (slots.insert updateIdHash op.id ()).getD slots) slots

/-- The second loop: the open group and its ids. -/
structure IngestGroup (σ : Type) where
  run : IngestRun σ
  group : List ParsedIngest
  slots : IdSlots

/-- Apply the open group, if there is one. -/
def IngestGroup.flush (g : IngestGroup σ) : IngestGroup σ :=
  if g.group = [] then g
  else ⟨applyIngestGroup apply g.run g.group, [], Table.empty idSlotCapacity⟩

/-- One round of the second loop. -/
def IngestGroup.take (g : IngestGroup σ) (p : ParsedIngest) : IngestGroup σ :=
  if p.status ≠ .ok then
    let g := g.flush apply
    { g with run := { g.run with answers := g.run.answers ++ [(p.index, updateErrorResponse p.status p.error)] } }
  else
    let split := g.group ≠ [] ∧ (updateMaxOperations - (groupOperations g.group).length < p.operations.length ∨
      groupContainsIds g.slots p = true)
    let g := if split then g.flush apply else g
    { g with group := g.group ++ [p], slots := groupAddIds g.slots p }

/-- The answers after a reload that failed. -/
def reloadFailed (answer : IngestAnswer) : IngestAnswer :=
  if answer.httpStatus = 200 then
    .refused 503 (ascii "reload_failed") (ascii "index was updated but the new snapshot could not be loaded")
  else answer

/-- `YAP_V2_http_runtime_execute_ingest_batch`; `reloads` says whether the new snapshot can be loaded. -/
def executeIngestBatch (reloads : σ → Bool) (state : σ) (bodies : List Bytes) : IngestRun σ :=
  let parsed := bodies.zipIdx.map fun (body, i) => parseIngest lib i body
  let g := parsed.foldl (IngestGroup.take apply) ⟨⟨state, [], []⟩, [], Table.empty idSlotCapacity⟩
  let run := (g.flush apply).run
  if run.applied ≠ [] ∧ reloads run.state = false then
    { run with answers := run.answers.map fun a => (a.1, reloadFailed a.2) }
  else run

end Groups

/-! ## What is answered 200 was applied -/

section Applied

variable {lib} {σ : Type} {apply : σ → List RawOperation → (Status × Bytes) × σ}

theorem updateErrorResponse_httpStatus (status : Status) (message : Bytes) :
    (updateErrorResponse status message).httpStatus ≠ 200 := by
  rw [updateErrorResponse]
  split
  · simp [IngestAnswer.httpStatus]
  · split
    · simp [IngestAnswer.httpStatus]
    · simp [IngestAnswer.httpStatus]

theorem reloadFailed_httpStatus (answer : IngestAnswer) : (reloadFailed answer).httpStatus ≠ 200 := by
  rw [reloadFailed]
  split
  · exact fun h => absurd h (by decide)
  next h => exact h

/-- Every request answered 200 is a parsed one, and its operations are part of a batch that was applied. -/
def IngestRun.Sound (parsed : List ParsedIngest) (run : IngestRun σ) : Prop :=
  ∀ a ∈ run.answers, a.2.httpStatus = 200 →
    ∃ p ∈ parsed, p.index = a.1 ∧ p.status = .ok ∧ ∃ batch ∈ run.applied, p.operations <:+: batch

theorem infix_groupOperations {group : List ParsedIngest} {p : ParsedIngest} (h : p ∈ group) :
    p.operations <:+: groupOperations group := by
  obtain ⟨before, after, rfl⟩ := List.append_of_mem h
  exact ⟨groupOperations before, groupOperations after, by simp [groupOperations]⟩

variable {parsed : List ParsedIngest}

theorem IngestRun.Sound.mono {run : IngestRun σ} (h : run.Sound parsed) (state : σ)
    (more : List (List RawOperation)) : IngestRun.Sound parsed ⟨state, run.answers, run.applied ++ more⟩ := by
  intro a ha hok
  obtain ⟨p, hp, hindex, hstatus, batch, hbatch, hops⟩ := h a ha hok
  exact ⟨p, hp, hindex, hstatus, batch, List.mem_append_left _ hbatch, hops⟩

theorem IngestRun.Sound.applyGroupOnce {run : IngestRun σ} {group : List ParsedIngest} (h : run.Sound parsed)
    (hgroup : ∀ p ∈ group, p ∈ parsed ∧ p.status = .ok) : (applyGroupOnce apply run group).Sound parsed := by
  rw [Yappod.applyGroupOnce]
  obtain ⟨⟨status, error⟩, state⟩ := apply run.state (groupOperations group)
  by_cases hok : status = .ok
  · simp only [if_pos hok]
    intro a ha hstatus
    rcases List.mem_append.mp ha with ha | ha
    · exact h.mono state [groupOperations group] a ha hstatus
    · obtain ⟨p, hp, rfl⟩ := List.mem_map.mp ha
      exact ⟨p, (hgroup p hp).1, rfl, (hgroup p hp).2, groupOperations group, by simp, infix_groupOperations hp⟩
  · simp only [if_neg hok]
    intro a ha hstatus
    rcases List.mem_append.mp ha with ha | ha
    · exact h a ha hstatus
    · obtain ⟨p, hp, rfl⟩ := List.mem_map.mp ha
      exact absurd hstatus (updateErrorResponse_httpStatus status error)

theorem IngestRun.Sound.applyIngestGroup {run : IngestRun σ} {group : List ParsedIngest} (h : run.Sound parsed)
    (hgroup : ∀ p ∈ group, p ∈ parsed ∧ p.status = .ok) : (applyIngestGroup apply run group).Sound parsed := by
  rw [Yappod.applyIngestGroup]
  obtain ⟨⟨status, error⟩, state⟩ := apply run.state (groupOperations group)
  dsimp only
  split
  · -- one request after the other
    have hall : ∀ (rest : List ParsedIngest) (run : IngestRun σ), run.Sound parsed →
        (∀ p ∈ rest, p ∈ parsed ∧ p.status = .ok) →
        (rest.foldl (fun run p => Yappod.applyGroupOnce apply run [p]) run).Sound parsed := by
      intro rest
      induction rest with
      | nil => exact fun run h _ => h
      | cons p rest ih =>
        intro run h hrest
        obtain ⟨hp, hrest⟩ := List.forall_mem_cons.mp hrest
        exact ih _ (h.applyGroupOnce (by simpa using hp)) hrest
    exact hall group ⟨state, run.answers, run.applied⟩ h hgroup
  · exact h.applyGroupOnce hgroup

/-- The open group holds parsed requests. -/
structure IngestGroup.Sound (parsed : List ParsedIngest) (g : IngestGroup σ) : Prop where
  run : g.run.Sound parsed
  group : ∀ p ∈ g.group, p ∈ parsed ∧ p.status = .ok

theorem IngestGroup.Sound.flush {g : IngestGroup σ} (h : g.Sound parsed) : (g.flush apply).Sound parsed := by
  rw [IngestGroup.flush]
  split
  · exact h
  · exact ⟨h.run.applyIngestGroup h.group, fun _ hp => absurd hp List.not_mem_nil⟩

theorem IngestGroup.Sound.take {g : IngestGroup σ} (h : g.Sound parsed) {p : ParsedIngest} (hp : p ∈ parsed) :
    (g.take apply p).Sound parsed := by
  rw [IngestGroup.take]
  split
  · have hflush : (g.flush apply).Sound parsed := h.flush
    refine ⟨fun a ha hok => ?_, hflush.group⟩
    rcases List.mem_append.mp ha with ha | ha
    · exact hflush.run a ha hok
    · obtain rfl := List.mem_singleton.mp ha
      exact absurd hok (updateErrorResponse_httpStatus _ _)
  next hstatus =>
    have hopen : ∀ g' : IngestGroup σ, g'.Sound parsed →
        IngestGroup.Sound parsed { g' with group := g'.group ++ [p], slots := groupAddIds g'.slots p } := by
      intro g' h'
      refine ⟨h'.run, fun q hq => ?_⟩
      rcases List.mem_append.mp hq with hq | hq
      · exact h'.group q hq
      · obtain rfl := List.mem_singleton.mp hq
        exact ⟨hp, not_not.mp hstatus⟩
    refine hopen _ ?_
    split
    · exact h.flush
    · exact h

theorem IngestGroup.Sound.foldl {g : IngestGroup σ} (h : g.Sound parsed) {rest : List ParsedIngest}
    (hrest : ∀ p ∈ rest, p ∈ parsed) : (rest.foldl (IngestGroup.take apply) g).Sound parsed := by
  induction rest generalizing g with
  | nil => exact h
  | cons p rest ih =>
    obtain ⟨hp, hrest⟩ := List.forall_mem_cons.mp hrest
    exact ih (h.take hp) hrest

/-- A request that is parsed with `YAP_V2_OK` stands for its operations, unless a value that is no object comes late
in it. -/
theorem parseIngest_batchOf {i : Nat} {body : Bytes} (hlate : ¬ LateNonObject lib body)
    (h : (parseIngest lib i body).status = .ok) : BatchOf lib body (parseIngest lib i body).operations := by
  rw [parseIngest] at h ⊢
  split at h
  · exact (nomatch h)
  next hsize =>
    rw [if_neg hsize]
    obtain ⟨ops, hops, hout, -⟩ := (allOrNothing_of_not_late hlate).all h
    dsimp only
    rw [hout]
    exact hops

/-- A request that is answered 200 has its operations in a batch that was applied. -/
theorem answered_ok_applied {reloads : σ → Bool} {state : σ} {bodies : List Bytes}
    (hlate : ∀ body ∈ bodies, ¬ LateNonObject lib body) {i : Nat} {answer : IngestAnswer}
    (ha : (i, answer) ∈ (executeIngestBatch lib apply reloads state bodies).answers)
    (hok : answer.httpStatus = 200) :
    ∃ body ops, bodies[i]? = some body ∧ BatchOf lib body ops ∧
      ∃ batch ∈ (executeIngestBatch lib apply reloads state bodies).applied, ops <:+: batch := by
  have hinit : IngestGroup.Sound (bodies.zipIdx.map fun (body, i) => parseIngest lib i body)
      (⟨⟨state, [], []⟩, [], Table.empty idSlotCapacity⟩ : IngestGroup σ) :=
    ⟨fun _ ha => absurd ha List.not_mem_nil, fun _ hp => absurd hp List.not_mem_nil⟩
  have hloop : IngestGroup.Sound _ (List.foldl (IngestGroup.take apply) _ _) := hinit.foldl fun _ hp => hp
  have hflush : IngestGroup.Sound _ (IngestGroup.flush apply _) := hloop.flush
  have hrun := hflush.run
  rw [executeIngestBatch] at ha ⊢
  split at ha
  · obtain ⟨a, -, heq⟩ := List.mem_map.mp ha
    obtain rfl := (Prod.mk.inj heq).2
    exact absurd hok (reloadFailed_httpStatus _)
  next hreload =>
    simp only [if_neg hreload]
    obtain ⟨p, hp, hindex, hstatus, batch, hbatch, hops⟩ := hrun _ ha hok
    obtain ⟨⟨body, j⟩, hmem, rfl⟩ := List.mem_map.mp hp
    have hbody : bodies[j]? = some body := List.mem_zipIdx_iff_getElem?.mp hmem
    have hj : j = i := by
      replace hindex : (parseIngest lib j body).index = i := hindex
      rw [parseIngest] at hindex
      split at hindex
      · exact hindex
      · exact hindex
    subst hj
    exact ⟨body, _, hbody, parseIngest_batchOf (hlate body (List.mem_of_getElem? hbody)) hstatus, batch, hbatch, hops⟩

end Applied

/-- **A batch is all or nothing exactly if no value that is not an object comes late in it**, and a request without
such a value is answered 200 only after its operations were applied. -/
theorem ingest_all_or_nothing (lib : JsonLibrary) :
    (∀ input, AllOrNothing lib input (updateParseJsonBatch lib input) ↔ ¬ LateNonObject lib input) ∧
    ∀ (σ : Type) (apply : σ → List RawOperation → (Status × Bytes) × σ) (reloads : σ → Bool) (state : σ)
      (bodies : List Bytes), (∀ body ∈ bodies, ¬ LateNonObject lib body) → ∀ i answer,
      (i, answer) ∈ (executeIngestBatch lib apply reloads state bodies).answers → answer.httpStatus = 200 →
      ∃ body ops, bodies[i]? = some body ∧ BatchOf lib body ops ∧
        ∃ batch ∈ (executeIngestBatch lib apply reloads state bodies).applied, ops <:+: batch :=
  ⟨allOrNothing_iff, fun _ _ _ _ _ hlate _ _ ha hok => answered_ok_applied hlate ha hok⟩

/-- The record that deletes the document `a`, as in a body. -/
def deleteText : Bytes := ascii "\x7b\"operation\":\"delete\",\"id\":\"a\"\x7d"

/-- The body with some texts as the values of `operations`. -/
def bodyText (items : Bytes) : Bytes := ascii "\x7b\"operations\":[" ++ items ++ ascii "]\x7d"

def bodyValue (items : List Value) : Value := .object [(keyOperations, .array items)]

/-- A library that reads two bodies: the deletion of `a`, and the same followed by the number 1. -/
def twoBodiesLibrary : JsonLibrary where
  write _ := none
  read text :=
    if text = bodyText deleteText then some (bodyValue [deleteSample [97]])
    else if text = bodyText (deleteText ++ ascii ",1") then
      some (bodyValue [deleteSample [97], .number (.int ⟨1, by decide⟩)])
    else none
  single _ := none

theorem twoBodies_read_delete : twoBodiesLibrary.read (bodyText deleteText) = some (bodyValue [deleteSample [97]]) := by
  simp only [twoBodiesLibrary, if_true]

theorem twoBodies_read_late : twoBodiesLibrary.read (bodyText (deleteText ++ ascii ",1")) =
    some (bodyValue [deleteSample [97], .number (.int ⟨1, by decide⟩)]) := by
  have hne : bodyText (deleteText ++ ascii ",1") ≠ bodyText deleteText := by decide +kernel
  simp only [twoBodiesLibrary, if_neg hne, if_true]

theorem deleteBody_not_late : ¬ LateNonObject twoBodiesLibrary (bodyText deleteText) := by
  rintro ⟨before, item, after, ops, hbody, hne, -, hno⟩
  have hitems := Option.some.inj (hbody.1.symm.trans twoBodies_read_delete)
  obtain ⟨first, before, rfl⟩ := List.exists_cons_of_ne_nil hne
  simp [bodyValue] at hitems

/-- An update that always succeeds, on a state that counts. -/
def countingApply (n : Nat) (ops : List RawOperation) : (Status × Bytes) × Nat := ((.ok, []), n + ops.length)

theorem ingest_all_or_nothing_sample :
    AllOrNothing twoBodiesLibrary (bodyText deleteText) (updateParseJsonBatch twoBodiesLibrary (bodyText deleteText)) ∧
    ∃ body ops, [bodyText deleteText][0]? = some body ∧ BatchOf twoBodiesLibrary body ops ∧
      ∃ batch ∈ (executeIngestBatch twoBodiesLibrary countingApply (fun _ => true) 0 [bodyText deleteText]).applied,
        ops <:+: batch := by
  refine ⟨((ingest_all_or_nothing twoBodiesLibrary).1 _).mpr deleteBody_not_late,
    (ingest_all_or_nothing twoBodiesLibrary).2 Nat countingApply (fun _ => true) 0 [bodyText deleteText]
      (by simpa using deleteBody_not_late) 0 (.applied 1 0 1) ?_ rfl⟩
  decide +kernel

/-- A deletion and the number 1: the answer is `YAP_V2_OK`, and nothing is deleted. -/
theorem late_value_accepted :
    updateParseJsonBatch twoBodiesLibrary (bodyText (deleteText ++ ascii ",1")) =
      ⟨.ok, none, 0, ascii "each operation must be an object"⟩ ∧
    ¬ AllOrNothing twoBodiesLibrary (bodyText (deleteText ++ ascii ",1"))
      (updateParseJsonBatch twoBodiesLibrary (bodyText (deleteText ++ ascii ",1"))) := by
  have hresult : updateParseJsonBatch twoBodiesLibrary (bodyText (deleteText ++ ascii ",1")) =
      ⟨.ok, none, 0, ascii "each operation must be an object"⟩ := by
    rw [updateParseJsonBatch, twoBodies_read_late]
    decide +kernel
  refine ⟨hresult, fun h => ?_⟩
  obtain ⟨ops, -, hops, -⟩ := h.all (by rw [hresult])
  rw [hresult] at hops
  cases hops

end Yappod

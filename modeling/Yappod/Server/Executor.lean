import Mathlib.Algebra.Order.Group.Multiset
import Mathlib.Tactic.Abel
import Yappod.Lib.Ring

/-!
# The executor

`yappo_executor_v2.c`: threads submit jobs to a ring buffer of fixed size, and workers take them out and call them.  A
batching executor has one worker, which waits for some time until there is a full batch and hands the items over
together.  Closing stops the acceptance and waits until the workers have emptied the ring.

A step is a critical section, or the call of a callback between two of them.  `Executor` is the state that the
lock protects, `Log` what was submitted and what was handed to the callbacks so far.

* `Reachable.inv` — the counters, the ring and the log agree in every reachable state.
* `executor_accounting` — what this says about submissions, batches and the end.
-/

set_option autoImplicit false

namespace Yappod
namespace Pool

/-! ## The state -/

variable {F C : Type}

/-- `EXECUTOR_JOB`; an item of the batching executor has no function. -/
structure Job (F C : Type) where
  function : Option F
  context : C

instance [Inhabited C] : Inhabited (Job F C) := ⟨⟨none, default⟩⟩

/-- Where a worker is. -/
inductive Worker (F C : Type)
  /-- Before the lock at the top of the loop, or waiting there. -/
  | ready
  /-- In the wait for a full batch. -/
  | gathering
  /-- With the jobs it has taken out, before the callback. -/
  | taken (jobs : List (Job F C))
  /-- In the callback. -/
  | running (jobs : List (Job F C))
  /-- Behind the loop. -/
  | exited

/-- How far `YAP_V2_executor_close` is. -/
inductive Phase
  | opened
  | closing
  | closed
  deriving DecidableEq

/-- `EXECUTOR_STATE`, with the workers.  `maxBatch` is there if `batch_function` is. -/
structure Executor (F C : Type) where
  jobs : List (Job F C)
  head : Nat
  queued : Nat
  active : Nat
  submitted : Nat
  completed : Nat
  rejected : Nat
  accepting : Bool
  maxBatch : Option Nat
  workers : List (Worker F C)
  phase : Phase

/-- What a submission returns. -/
inductive Submitted
  | ok
  | full
  | invalidArgument
  deriving DecidableEq

/-- The submissions with what they returned, and the batches that were handed to callbacks. -/
structure Log (F C : Type) where
  submissions : List (Job F C × Submitted)
  calls : List (List (Job F C))

/-- The executor with its history. -/
structure System (F C : Type) where
  executor : Executor F C
  log : Log F C

variable [Inhabited C]

/-- `YAP_V2_executor_open`, and `YAP_V2_executor_open_batch` with its one worker. -/
def opened (workers capacity : Nat) (maxBatch : Option Nat) : System F C where
  executor :=
    { jobs := List.replicate capacity default, head := 0, queued := 0, active := 0, submitted := 0, completed := 0
      rejected := 0, accepting := true, maxBatch := maxBatch, workers := List.replicate workers .ready
      phase := .opened }
  log := ⟨[], []⟩

/-- The arguments that are accepted: for a batching executor there is one worker. -/
def Opens (workers capacity : Nat) : Option Nat → Prop
  | none => 0 < workers ∧ 0 < capacity
  | some maxBatch => workers = 1 ∧ 0 < capacity ∧ 0 < maxBatch ∧ maxBatch ≤ capacity

/-! ## The critical sections -/

/-- `YAP_V2_executor_try_submit` (`batch = false`) and `YAP_V2_executor_try_submit_item` (`batch = true`), from the
lock on. -/
def trySubmit (batch : Bool) (job : Job F C) (e : Executor F C) : Submitted × Executor F C :=
  if e.maxBatch.isSome ≠ batch ∨ e.accepting = false ∨ e.queued = e.jobs.length then
    (.full, { e with rejected := e.rejected + 1 })
  else
    (.ok, { e with
      jobs := e.jobs.set ((e.head + e.queued) % e.jobs.length) job
      queued := e.queued + 1
      submitted := e.submitted + 1 })

/-- Take jobs out of the ring, at most so many. -/
def takeJobs : Nat → Executor F C → List (Job F C) × Executor F C
  | 0, e => ([], e)
  | n + 1, e =>
    if e.queued = 0 then ([], e)
    else
      let rest := takeJobs n { e with head := (e.head + 1) % e.jobs.length, queued := e.queued - 1 }
      (e.jobs.getD e.head default :: rest.1, rest.2)

/-- Take jobs out, and go to the callback with them. -/
def dequeue (i n : Nat) (e : Executor F C) : Executor F C :=
  let taken := takeJobs n e
  { taken.2 with
    active := taken.2.active + taken.1.length
    workers := taken.2.workers.set i (.taken taken.1) }

/-- The worker at the top of its loop has the lock.  It waits as long as there is nothing to do and nothing is
finished; a batching worker goes on to wait for a full batch. -/
def wake (i : Nat) (e : Executor F C) : Option (Executor F C) :=
  if e.queued = 0 then
    if e.accepting = true then none else some { e with workers := e.workers.set i .exited }
  else
    match e.maxBatch with
    | none => some (dequeue i 1 e)
    | some maxBatch =>
      if e.accepting = true ∧ e.queued < maxBatch then some { e with workers := e.workers.set i .gathering }
      else some (dequeue i maxBatch e)

/-- The wait for a full batch ends, after the time is over or for another reason. -/
def gather (i : Nat) (timedOut : Bool) (e : Executor F C) : Option (Executor F C) :=
  match e.maxBatch with
  | none => none
  | some maxBatch =>
    if timedOut = false ∧ e.accepting = true ∧ e.queued < maxBatch then none else some (dequeue i maxBatch e)

/-- The worker counts its jobs as completed. -/
def complete (i : Nat) (jobs : List (Job F C)) (e : Executor F C) : Executor F C :=
  { e with
    active := e.active - jobs.length
    completed := e.completed + jobs.length
    workers := e.workers.set i .ready }

/-! ## Steps -/

/-- Who does something. -/
inductive Event (F C : Type)
  /-- A thread submits a job, or an item. -/
  | submit (batch : Bool) (job : Job F C)
  /-- A worker has the lock, at the top of its loop or after waiting for a batch. -/
  | turn (i : Nat) (timedOut : Bool)
  /-- A worker calls the callback. -/
  | call (i : Nat)
  /-- The callback has returned, and the worker has the lock. -/
  | finish (i : Nat)
  /-- Close, up to the joins. -/
  | beginClose
  /-- All workers are joined, and the state is freed. -/
  | endClose

variable (F C) in
/-- A worker that has left its loop. -/
def Worker.isExited : Worker F C → Bool
  | .exited => true
  | _ => false

def step : Event F C → System F C → Option (System F C)
  | .submit batch job, ⟨e, log⟩ =>
    if e.phase = .closed then some ⟨e, { log with submissions := log.submissions ++ [(job, .invalidArgument)] }⟩
    else
      let result := trySubmit batch job e
      some ⟨result.2, { log with submissions := log.submissions ++ [(job, result.1)] }⟩
  | .turn i timedOut, ⟨e, log⟩ =>
    match e.workers[i]? with
    | some .ready => (wake i e).map fun e => ⟨e, log⟩
    | some .gathering => (gather i timedOut e).map fun e => ⟨e, log⟩
    | _ => none
  | .call i, ⟨e, log⟩ =>
    match e.workers[i]? with
    | some (.taken jobs) =>
      some ⟨{ e with workers := e.workers.set i (.running jobs) }, { log with calls := log.calls ++ [jobs] }⟩
    | _ => none
  | .finish i, ⟨e, log⟩ =>
    match e.workers[i]? with
    | some (.running jobs) => some ⟨complete i jobs e, log⟩
    | _ => none
  | .beginClose, ⟨e, log⟩ =>
    if e.phase = .opened then some ⟨{ e with accepting := false, phase := .closing }, log⟩ else none
  | .endClose, ⟨e, log⟩ =>
    if e.phase = .closing ∧ e.workers.all (Worker.isExited F C) = true then some ⟨{ e with phase := .closed }, log⟩
    else none

/-- What can come after a state. -/
inductive Later (s : System F C) : System F C → Prop
  | refl : Later s s
  | step {s' s'' : System F C} {event : Event F C} (h : Later s s') (hstep : step event s' = some s'') : Later s s''

/-! ## What is where -/

/-- The jobs that were accepted, in order. -/
def Log.accepted (log : Log F C) : List (Job F C) :=
  log.submissions.filterMap fun p => if p.2 = .ok then some p.1 else none

/-- The jobs in the ring, the oldest first. -/
def Executor.contents (e : Executor F C) : List (Job F C) := ringContents e.jobs e.head e.queued

omit [Inhabited C] in
/-- The jobs that a worker has taken out and not called. -/
def Worker.held : Worker F C → List (Job F C)
  | .taken jobs => jobs
  | _ => []

omit [Inhabited C] in
/-- The jobs that a worker is calling. -/
def Worker.called : Worker F C → List (Job F C)
  | .running jobs => jobs
  | _ => []

/-- The jobs that workers have taken out and not called. -/
def Executor.held (e : Executor F C) : List (Job F C) := e.workers.flatMap Worker.held

/-- The jobs that workers are calling. -/
def Executor.called (e : Executor F C) : List (Job F C) := e.workers.flatMap Worker.called

/-- The size of the batches. -/
def Executor.batchLimit (e : Executor F C) : Nat := e.maxBatch.getD 1

/-- The counters, the ring and the log agree. -/
structure Inv (capacity : Nat) (maxBatch : Option Nat) (e : Executor F C) (log : Log F C) : Prop where
  capacity : e.jobs.length = capacity
  mode : e.maxBatch = maxBatch
  limit : 0 < e.batchLimit
  head : e.head < e.jobs.length
  queued : e.queued ≤ e.jobs.length
  workers : e.workers ≠ []
  counts : e.submitted = e.queued + e.active + e.completed
  active : e.active = e.held.length + e.called.length
  submitted : log.accepted.length = e.submitted
  /-- Every accepted job is in one place. -/
  places : (log.accepted : Multiset (Job F C)) =
    log.calls.flatten + e.held + e.contents
  completed : log.calls.flatten.length = e.completed + e.called.length
  calls : ∀ b ∈ log.calls, 0 < b.length ∧ b.length ≤ e.batchLimit
  taken : ∀ jobs, .taken jobs ∈ e.workers → 0 < jobs.length ∧ jobs.length ≤ e.batchLimit
  /-- The one worker of a batching executor keeps the order. -/
  order : maxBatch.isSome = true → e.workers.length = 1 ∧
    log.accepted = log.calls.flatten ++ (e.held ++ e.contents)
  gathering : .gathering ∈ e.workers → maxBatch.isSome = true ∧ 0 < e.queued
  accepting : e.accepting = true ↔ e.phase = .opened
  exited : .exited ∈ e.workers → e.accepting = false ∧ e.queued = 0
  closed : e.phase = .closed → ∀ w ∈ e.workers, w = .exited

theorem inv_opened {workers capacity : Nat} {maxBatch : Option Nat} (h : Opens workers capacity maxBatch) :
    Inv capacity maxBatch (opened workers capacity maxBatch : System F C).executor ⟨[], []⟩ := by
  have hworkers : 0 < workers ∧ 0 < capacity ∧ 0 < maxBatch.getD 1 := by
    cases maxBatch with
    | none => exact ⟨h.1, h.2, Nat.one_pos⟩
    | some m => exact ⟨h.1 ▸ Nat.one_pos, h.2.1, h.2.2.1⟩
  have hready : ∀ w ∈ (opened workers capacity maxBatch : System F C).executor.workers, w = .ready :=
    fun w hw => (List.mem_replicate.mp hw).2
  have hheld : (opened workers capacity maxBatch : System F C).executor.held = [] := by
    rw [Executor.held, List.flatMap_eq_nil_iff]
    intro w hw
    rw [hready w hw]
    rfl
  have hcalled : (opened workers capacity maxBatch : System F C).executor.called = [] := by
    rw [Executor.called, List.flatMap_eq_nil_iff]
    intro w hw
    rw [hready w hw]
    rfl
  have hlength : (opened workers capacity maxBatch : System F C).executor.jobs.length = capacity :=
    List.length_replicate
  exact {
    capacity := hlength
    mode := rfl
    limit := hworkers.2.2
    head := by
      rw [hlength]
      exact hworkers.2.1
    queued := Nat.zero_le _
    workers := by
      intro hnil
      have := congrArg List.length hnil
      rw [show (opened workers capacity maxBatch : System F C).executor.workers.length = workers from
        List.length_replicate] at this
      exact absurd this (by simpa using hworkers.1.ne')
    counts := rfl
    active := by
      rw [hheld, hcalled]
      rfl
    submitted := rfl
    places := by
      rw [hheld]
      rfl
    completed := by
      rw [hcalled]
      rfl
    calls := fun b hb => absurd hb List.not_mem_nil
    taken := fun jobs hjobs => nomatch hready _ hjobs
    order := by
      intro hsome
      refine ⟨?_, by rw [hheld]; rfl⟩
      cases maxBatch with
      | none => cases hsome
      | some m => exact (List.length_replicate (n := workers)).trans h.1
    gathering := fun hw => nomatch hready _ hw
    accepting := by simp [opened]
    exited := fun hw => nomatch hready _ hw
    closed := fun hphase => nomatch hphase }

/-! ## What the critical sections do -/

theorem takeJobs_spec {e : Executor F C} (hhead : e.head < e.jobs.length) (n : Nat) :
    ∃ head queued, (takeJobs n e).2 = { e with head := head, queued := queued } ∧ head < e.jobs.length ∧
      queued + (takeJobs n e).1.length = e.queued ∧ (takeJobs n e).1.length = min n e.queued ∧
      e.contents = (takeJobs n e).1 ++ ringContents e.jobs head queued := by
  induction n generalizing e with
  | zero => exact ⟨e.head, e.queued, rfl, hhead, rfl, (Nat.zero_min _).symm, rfl⟩
  | succ n ih =>
    rw [takeJobs]
    split
    · rename_i hempty
      exact ⟨e.head, e.queued, rfl, hhead, rfl, by rw [hempty, Nat.min_zero]; rfl, rfl⟩
    · rename_i hqueued
      have hpop : e.contents = e.jobs.getD e.head default ::
          Executor.contents { e with head := (e.head + 1) % e.jobs.length, queued := e.queued - 1 } := by
        show ringContents e.jobs e.head e.queued =
          _ :: ringContents e.jobs ((e.head + 1) % e.jobs.length) (e.queued - 1)
        rw [← ringContents_pop hhead, Nat.sub_add_cancel (by omega)]
      have hnext : (e.head + 1) % e.jobs.length < e.jobs.length := Nat.mod_lt _ (by omega)
      obtain ⟨head, queued, he, hlt, hcount, hmin, hcontents⟩ :=
        ih (e := { e with head := (e.head + 1) % e.jobs.length, queued := e.queued - 1 }) hnext
      dsimp only at hcount hmin
      refine ⟨head, queued, he, hlt, ?_, ?_, ?_⟩
      · simp only [List.length_cons]
        omega
      · simp only [List.length_cons]
        omega
      · rw [hpop, hcontents]
        rfl

omit [Inhabited C] in
/-- A submission is accepted if the executor takes such jobs, is open, and has room. -/
theorem trySubmit_cases (batch : Bool) (job : Job F C) (e : Executor F C) :
    (trySubmit batch job e).1 = .full ∧ (trySubmit batch job e).2 = { e with rejected := e.rejected + 1 } ∨
    (e.accepting = true ∧ e.queued ≠ e.jobs.length) ∧ trySubmit batch job e = (.ok, { e with
      jobs := e.jobs.set ((e.head + e.queued) % e.jobs.length) job
      queued := e.queued + 1
      submitted := e.submitted + 1 }) := by
  rw [trySubmit]
  split
  · exact .inl ⟨rfl, rfl⟩
  · rename_i h
    rw [not_or, not_or, Bool.not_eq_false] at h
    exact .inr ⟨h.2, rfl⟩

omit [Inhabited C] in
theorem accepted_append (log : Log F C) (job : Job F C) (result : Submitted) :
    Log.accepted { log with submissions := log.submissions ++ [(job, result)] } =
      log.accepted ++ if result = .ok then [job] else [] := by
  rw [Log.accepted, List.filterMap_append]
  congr 1
  cases result <;> rfl

section Steps

variable {capacity : Nat} {maxBatch : Option Nat} {e : Executor F C} {log : Log F C}

theorem Inv.submit (h : Inv capacity maxBatch e log) (batch : Bool) (job : Job F C) :
    Inv capacity maxBatch (trySubmit batch job e).2
      { log with submissions := log.submissions ++ [(job, (trySubmit batch job e).1)] } := by
  rcases trySubmit_cases batch job e with ⟨hfull, he⟩ | ⟨⟨haccepting, hroom⟩, he⟩
  · rw [hfull, he]
    have hlog : Log.accepted { log with submissions := log.submissions ++ [(job, .full)] } = log.accepted := by
      rw [accepted_append, if_neg (by decide), List.append_nil]
    exact { h with
      submitted := hlog ▸ h.submitted
      places := hlog ▸ h.places
      order := hlog ▸ h.order }
  · rw [he]
    have hlog : Log.accepted { log with submissions := log.submissions ++ [(job, .ok)] } = log.accepted ++ [job] := by
      rw [accepted_append, if_pos rfl]
    have hlt : e.queued < e.jobs.length := Nat.lt_of_le_of_ne h.queued hroom
    have hcontents : ringContents (e.jobs.set ((e.head + e.queued) % e.jobs.length) job) e.head (e.queued + 1) =
        e.contents ++ [job] := ringContents_push hlt job
    have hlength : (e.jobs.set ((e.head + e.queued) % e.jobs.length) job).length = e.jobs.length :=
      List.length_set
    exact { h with
      capacity := hlength.trans h.capacity
      head := hlength.symm ▸ h.head
      queued := hlength.symm ▸ hlt
      counts := by
        have := h.counts
        show e.submitted + 1 = e.queued + 1 + e.active + e.completed
        omega
      submitted := by
        rw [hlog, List.length_append, List.length_singleton]
        exact congrArg (· + 1) h.submitted
      places := by
        rw [hlog, ← Multiset.coe_add, h.places]
        show _ = _ + _ + ((ringContents _ e.head (e.queued + 1) : List (Job F C)) : Multiset (Job F C))
        rw [hcontents, ← Multiset.coe_add, ← add_assoc]
        rfl
      order := by
        intro hsome
        refine ⟨(h.order hsome).1, ?_⟩
        rw [hlog, (h.order hsome).2]
        show _ = _ ++ (_ ++ ringContents _ e.head (e.queued + 1))
        rw [hcontents]
        simp only [List.append_assoc]
        rfl
      gathering := fun hw => ⟨(h.gathering hw).1, Nat.succ_pos _⟩
      exited := fun hw => absurd (h.exited hw).1 (by rw [haccepting]; decide) }

omit [Inhabited C] in
/-- What workers have, around one of them. -/
theorem held_split {e : Executor F C} {before after : List (Worker F C)} {w : Worker F C}
    (h : e.workers = before ++ w :: after) :
    e.held = before.flatMap Worker.held ++ (w.held ++ after.flatMap Worker.held) ∧
      e.called = before.flatMap Worker.called ++ (w.called ++ after.flatMap Worker.called) := by
  constructor
  · rw [Executor.held, h, List.flatMap_append, List.flatMap_cons]
  · rw [Executor.called, h, List.flatMap_append, List.flatMap_cons]

omit [Inhabited C] in
/-- The workers after one of them has changed. -/
theorem mem_replace {before after : List (Worker F C)} {w w₀ : Worker F C} :
    ∀ w' ∈ before ++ w :: after, w' = w ∨ w' ∈ before ++ w₀ :: after := by
  intro w' hw'
  simp only [List.mem_append, List.mem_cons] at hw' ⊢
  tauto

omit [Inhabited C] in
/-- A list of one worker. -/
theorem only_worker {before after : List (Worker F C)} {w : Worker F C}
    (h : (before ++ w :: after).length = 1) : before = [] ∧ after = [] := by
  rw [List.length_append, List.length_cons] at h
  exact ⟨List.eq_nil_of_length_eq_zero (by omega), List.eq_nil_of_length_eq_zero (by omega)⟩

/-- Taking a batch out of the ring. -/
theorem Inv.dequeue (h : Inv capacity maxBatch e log) {i : Nat} {w : Worker F C} (hw : e.workers[i]? = some w)
    (hidle : w.held = [] ∧ w.called = []) (hqueued : e.queued ≠ 0) :
    Inv capacity maxBatch (Pool.dequeue i e.batchLimit e) log := by
  obtain ⟨before, after, hworkers, hset⟩ := exists_split_set hw
  obtain ⟨head, queued, htaken, hhead, hcount, hmin, hcontents⟩ := takeJobs_spec h.head e.batchLimit
  have hlimit := h.limit
  have hpos : 0 < (takeJobs e.batchLimit e).1.length := by omega
  have hle : (takeJobs e.batchLimit e).1.length ≤ e.batchLimit := by omega
  generalize htakenJobs : (takeJobs e.batchLimit e).1 = jobs at hcount hmin hcontents hpos hle
  have he : Pool.dequeue i e.batchLimit e = { e with
      head := head
      queued := queued
      active := e.active + jobs.length
      workers := before ++ .taken jobs :: after } := by
    rw [Pool.dequeue, htaken, htakenJobs, ← hset]
  obtain ⟨hheld, hcalled⟩ := held_split hworkers
  rw [hidle.1, List.nil_append] at hheld
  rw [hidle.2, List.nil_append] at hcalled
  have hother : ∀ w' ∈ before ++ .taken jobs :: after, w' = .taken jobs ∨ w' ∈ e.workers := by
    rw [hworkers]
    exact mem_replace
  -- in the new state the worker holds what has left the ring
  have hheld' : (before ++ .taken jobs :: after).flatMap Worker.held =
      before.flatMap Worker.held ++ (jobs ++ after.flatMap Worker.held) := by
    rw [List.flatMap_append, List.flatMap_cons]
    rfl
  have hcalled' : (before ++ .taken jobs :: after).flatMap Worker.called = e.called := by
    rw [hcalled, List.flatMap_append, List.flatMap_cons]
    rfl
  rw [he]
  exact { h with
    head := hhead
    queued := by
      have := h.queued
      show queued ≤ e.jobs.length
      omega
    workers := by simp
    counts := by
      have := h.counts
      show e.submitted = queued + (e.active + jobs.length) + e.completed
      omega
    active := by
      have := h.active
      show e.active + jobs.length = ((before ++ .taken jobs :: after).flatMap Worker.held).length +
        ((before ++ .taken jobs :: after).flatMap Worker.called).length
      rw [hheld', hcalled']
      rw [hheld] at this
      simp only [List.length_append] at this ⊢
      omega
    places := by
      rw [h.places, hcontents, hheld]
      show _ = _ + (((before ++ .taken jobs :: after).flatMap Worker.held : List (Job F C)) : Multiset (Job F C)) +
        ((ringContents e.jobs head queued : List (Job F C)) : Multiset (Job F C))
      rw [hheld']
      simp only [← Multiset.coe_add]
      abel
    completed := by
      show _ = e.completed + ((before ++ .taken jobs :: after).flatMap Worker.called).length
      rw [hcalled', h.completed]
    taken := by
      intro jobs' hjobs'
      rcases hother _ hjobs' with heq | hmem
      · cases heq
        exact ⟨hpos, hle⟩
      · exact h.taken jobs' hmem
    order := by
      intro hsome
      obtain ⟨hone, horder⟩ := h.order hsome
      rw [hworkers] at hone
      obtain ⟨rfl, rfl⟩ := only_worker hone
      refine ⟨rfl, ?_⟩
      rw [horder, hcontents, hheld]
      show _ = _ ++ (([] ++ Worker.taken jobs :: []).flatMap Worker.held ++ ringContents e.jobs head queued)
      rw [hheld']
      simp
    gathering := by
      intro hgathering
      rcases hother _ hgathering with heq | hmem
      · cases heq
      · -- a batching executor has only the worker that has just taken a batch
        obtain ⟨hsome, -⟩ := h.gathering hmem
        obtain ⟨hone, -⟩ := h.order hsome
        rw [hworkers] at hone
        obtain ⟨rfl, rfl⟩ := only_worker hone
        rw [List.nil_append, List.mem_singleton] at hgathering
        cases hgathering
    exited := by
      intro hexited
      rcases hother _ hexited with heq | hmem
      · cases heq
      · exact absurd (h.exited hmem).2 hqueued
    closed := by
      intro hclosed w' hw'
      have hself : w ∈ e.workers := by
        rw [hworkers]
        simp
      have hexited := h.closed hclosed w hself
      rw [hexited] at hself
      exact absurd (h.exited hself).2 hqueued }

/-- A worker without jobs goes on without jobs, to leave its loop or to wait for a full batch. -/
theorem Inv.idle (h : Inv capacity maxBatch e log) {i : Nat} (hw : e.workers[i]? = some .ready) {w : Worker F C}
    (hidle : w = .exited ∧ e.accepting = false ∧ e.queued = 0 ∨
      w = .gathering ∧ maxBatch.isSome = true ∧ e.queued ≠ 0) :
    Inv capacity maxBatch { e with workers := e.workers.set i w } log := by
  obtain ⟨before, after, hworkers, hset⟩ := exists_split_set hw
  obtain ⟨hheld, hcalled⟩ := held_split hworkers
  have hnone : w.held = [] ∧ w.called = [] := by
    rcases hidle with ⟨rfl, -⟩ | ⟨rfl, -⟩ <;> exact ⟨rfl, rfl⟩
  have hnew : w = .exited ∨ w = .gathering := hidle.imp And.left And.left
  have hheld' : (before ++ w :: after).flatMap Worker.held = e.held := by
    rw [hheld, List.flatMap_append, List.flatMap_cons, hnone.1]
    rfl
  have hcalled' : (before ++ w :: after).flatMap Worker.called = e.called := by
    rw [hcalled, List.flatMap_append, List.flatMap_cons, hnone.2]
    rfl
  have hother : ∀ w' ∈ before ++ w :: after, w' = w ∨ w' ∈ e.workers := by
    rw [hworkers]
    exact mem_replace
  rw [hset w]
  exact { h with
    workers := by simp
    active := by
      show e.active = ((before ++ w :: after).flatMap Worker.held).length +
        ((before ++ w :: after).flatMap Worker.called).length
      rw [hheld', hcalled', h.active]
    places := by
      show _ = _ + (((before ++ w :: after).flatMap Worker.held : List (Job F C)) : Multiset (Job F C)) + _
      rw [hheld']
      exact h.places
    completed := by
      show _ = e.completed + ((before ++ w :: after).flatMap Worker.called).length
      rw [hcalled', h.completed]
    taken := by
      intro jobs hjobs
      rcases hother _ hjobs with heq | hmem
      · rcases hnew with rfl | rfl <;> cases heq
      · exact h.taken jobs hmem
    order := by
      intro hsome
      obtain ⟨hone, horder⟩ := h.order hsome
      rw [hworkers] at hone
      refine ⟨by simpa using hone, ?_⟩
      show _ = _ ++ ((before ++ w :: after).flatMap Worker.held ++ _)
      rw [hheld']
      exact horder
    gathering := by
      intro hgathering
      rcases hother _ hgathering with rfl | hmem
      · rcases hidle with ⟨hbad, -⟩ | ⟨-, hsome, hqueued⟩
        · cases hbad
        · exact ⟨hsome, Nat.pos_of_ne_zero hqueued⟩
      · exact h.gathering hmem
    exited := by
      intro hexited
      rcases hother _ hexited with rfl | hmem
      · rcases hidle with ⟨-, haccepting, hqueued⟩ | ⟨hbad, -⟩
        · exact ⟨haccepting, hqueued⟩
        · cases hbad
      · exact h.exited hmem
    closed := by
      intro hclosed
      exact absurd (h.closed hclosed _ (List.mem_of_getElem? hw)) (by simp) }

/-- The call of the callback. -/
theorem Inv.call (h : Inv capacity maxBatch e log) {i : Nat} {jobs : List (Job F C)}
    (hw : e.workers[i]? = some (.taken jobs)) :
    Inv capacity maxBatch { e with workers := e.workers.set i (.running jobs) }
      { log with calls := log.calls ++ [jobs] } := by
  obtain ⟨before, after, hworkers, hset⟩ := exists_split_set hw
  obtain ⟨hheld, hcalled⟩ := held_split hworkers
  change e.held = _ ++ (jobs ++ _) at hheld
  change e.called = _ ++ ([] ++ _) at hcalled
  have hheld' : (before ++ .running jobs :: after).flatMap Worker.held =
      before.flatMap Worker.held ++ after.flatMap Worker.held := by
    rw [List.flatMap_append, List.flatMap_cons]
    rfl
  have hcalled' : (before ++ .running jobs :: after).flatMap Worker.called =
      before.flatMap Worker.called ++ (jobs ++ after.flatMap Worker.called) := by
    rw [List.flatMap_append, List.flatMap_cons]
    rfl
  have hother : ∀ w' ∈ before ++ .running jobs :: after, w' = .running jobs ∨ w' ∈ e.workers := by
    rw [hworkers]
    exact mem_replace
  have hflatten : (log.calls ++ [jobs]).flatten = log.calls.flatten ++ jobs := by
    rw [List.flatten_append, List.flatten_singleton]
  rw [hset]
  exact { h with
    workers := by simp
    active := by
      have := h.active
      show e.active = ((before ++ .running jobs :: after).flatMap Worker.held).length +
        ((before ++ .running jobs :: after).flatMap Worker.called).length
      rw [hheld', hcalled']
      rw [hheld, hcalled] at this
      simp only [List.length_append, List.length_nil] at this ⊢
      omega
    places := by
      have hplaces := h.places
      rw [hheld] at hplaces
      show (log.accepted : Multiset (Job F C)) = ((log.calls ++ [jobs]).flatten : List (Job F C)) +
        (((before ++ .running jobs :: after).flatMap Worker.held : List (Job F C)) : Multiset (Job F C)) + _
      rw [hheld', hflatten, hplaces]
      simp only [← Multiset.coe_add]
      show _ = _ + _ + _ + (e.contents : Multiset (Job F C))
      abel
    completed := by
      have := h.completed
      show (log.calls ++ [jobs]).flatten.length =
        e.completed + ((before ++ .running jobs :: after).flatMap Worker.called).length
      rw [hflatten, hcalled']
      rw [hcalled] at this
      simp only [List.length_append, List.length_nil] at this ⊢
      omega
    calls := by
      intro b hb
      rcases List.mem_append.mp hb with hb | hb
      · exact h.calls b hb
      · rw [List.mem_singleton.mp hb]
        exact h.taken jobs (List.mem_of_getElem? hw)
    taken := by
      intro jobs' hjobs'
      rcases hother _ hjobs' with heq | hmem
      · cases heq
      · exact h.taken jobs' hmem
    order := by
      intro hsome
      obtain ⟨hone, horder⟩ := h.order hsome
      rw [hworkers] at hone
      obtain ⟨rfl, rfl⟩ := only_worker hone
      refine ⟨rfl, ?_⟩
      show log.accepted = (log.calls ++ [jobs]).flatten ++
        (([] ++ Worker.running jobs :: []).flatMap Worker.held ++ e.contents)
      rw [hflatten, hheld', horder, hheld]
      simp
    gathering := by
      intro hgathering
      rcases hother _ hgathering with heq | hmem
      · cases heq
      · exact h.gathering hmem
    exited := by
      intro hexited
      rcases hother _ hexited with heq | hmem
      · cases heq
      · exact h.exited hmem
    closed := by
      intro hclosed
      exact absurd (h.closed hclosed _ (List.mem_of_getElem? hw)) (by simp) }

/-- The end of a call. -/
theorem Inv.complete (h : Inv capacity maxBatch e log) {i : Nat} {jobs : List (Job F C)}
    (hw : e.workers[i]? = some (.running jobs)) : Inv capacity maxBatch (Pool.complete i jobs e) log := by
  obtain ⟨before, after, hworkers, hset⟩ := exists_split_set hw
  obtain ⟨hheld, hcalled⟩ := held_split hworkers
  change e.held = _ ++ ([] ++ _) at hheld
  change e.called = _ ++ (jobs ++ _) at hcalled
  have hheld' : (before ++ .ready :: after).flatMap Worker.held = e.held := by
    rw [hheld, List.flatMap_append, List.flatMap_cons]
    rfl
  have hcalled' : (before ++ .ready :: after).flatMap Worker.called =
      before.flatMap Worker.called ++ after.flatMap Worker.called := by
    rw [List.flatMap_append, List.flatMap_cons]
    rfl
  have hother : ∀ w' ∈ before ++ .ready :: after, w' = .ready ∨ w' ∈ e.workers := by
    rw [hworkers]
    exact mem_replace
  have hactive := h.active
  rw [hcalled] at hactive
  simp only [List.length_append] at hactive
  rw [Pool.complete, hset]
  exact { h with
    workers := by simp
    counts := by
      have := h.counts
      show e.submitted = e.queued + (e.active - jobs.length) + (e.completed + jobs.length)
      omega
    active := by
      show e.active - jobs.length = ((before ++ .ready :: after).flatMap Worker.held).length +
        ((before ++ .ready :: after).flatMap Worker.called).length
      rw [hheld', hcalled', List.length_append]
      omega
    places := by
      show _ = _ + (((before ++ .ready :: after).flatMap Worker.held : List (Job F C)) : Multiset (Job F C)) + _
      rw [hheld']
      exact h.places
    completed := by
      have := h.completed
      show _ = e.completed + jobs.length + ((before ++ .ready :: after).flatMap Worker.called).length
      rw [hcalled', this, hcalled]
      simp only [List.length_append]
      omega
    taken := by
      intro jobs' hjobs'
      rcases hother _ hjobs' with heq | hmem
      · cases heq
      · exact h.taken jobs' hmem
    order := by
      intro hsome
      obtain ⟨hone, horder⟩ := h.order hsome
      rw [hworkers] at hone
      refine ⟨by simpa using hone, ?_⟩
      show _ = _ ++ ((before ++ .ready :: after).flatMap Worker.held ++ _)
      rw [hheld']
      exact horder
    gathering := by
      intro hgathering
      rcases hother _ hgathering with heq | hmem
      · cases heq
      · exact h.gathering hmem
    exited := by
      intro hexited
      rcases hother _ hexited with heq | hmem
      · cases heq
      · exact h.exited hmem
    closed := by
      intro hclosed
      exact absurd (h.closed hclosed _ (List.mem_of_getElem? hw)) (by simp) }

/-- **A step keeps the counters, the ring and the log in agreement.** -/
theorem Inv.step (h : Inv capacity maxBatch e log) {event : Event F C} {e' : Executor F C} {log' : Log F C}
    (hstep : Pool.step event ⟨e, log⟩ = some ⟨e', log'⟩) : Inv capacity maxBatch e' log' := by
  cases event with
  | submit batch job =>
    rw [Pool.step] at hstep
    split at hstep
    · cases hstep
      have hlog : Log.accepted { log with submissions := log.submissions ++ [(job, .invalidArgument)] } =
          log.accepted := by rw [accepted_append, if_neg (by decide), List.append_nil]
      exact { h with
        submitted := hlog ▸ h.submitted
        places := hlog ▸ h.places
        order := hlog ▸ h.order }
    · cases hstep
      exact h.submit batch job
  | turn i timedOut =>
    rw [Pool.step] at hstep
    split at hstep
    · rename_i hw
      obtain ⟨e'', hwake, heq⟩ := Option.map_eq_some_iff.mp hstep
      cases heq
      rw [wake] at hwake
      split at hwake
      · rename_i hempty
        split at hwake
        · cases hwake
        · rename_i hclosing
          cases hwake
          exact h.idle hw (.inl ⟨rfl, by simpa using hclosing, hempty⟩)
      · rename_i hqueued
        split at hwake
        · rename_i hmode
          cases hwake
          have := h.dequeue hw ⟨rfl, rfl⟩ hqueued
          rwa [Executor.batchLimit, hmode] at this
        · rename_i m hmode
          split at hwake
          · cases hwake
            refine h.idle hw (.inr ⟨rfl, ?_, hqueued⟩)
            rw [← h.mode, hmode]
            rfl
          · cases hwake
            have := h.dequeue hw ⟨rfl, rfl⟩ hqueued
            rwa [Executor.batchLimit, hmode] at this
    · rename_i hw
      obtain ⟨e'', hgather, heq⟩ := Option.map_eq_some_iff.mp hstep
      cases heq
      have hqueued := (h.gathering (List.mem_of_getElem? hw)).2
      rw [gather] at hgather
      split at hgather
      · cases hgather
      · rename_i m hmode
        split at hgather
        · cases hgather
        · cases hgather
          have := h.dequeue hw ⟨rfl, rfl⟩ (by omega)
          rwa [Executor.batchLimit, hmode] at this
    · cases hstep
  | call i =>
    rw [Pool.step] at hstep
    split at hstep
    · rename_i jobs hw
      cases hstep
      exact h.call hw
    · cases hstep
  | finish i =>
    rw [Pool.step] at hstep
    split at hstep
    · rename_i jobs hw
      cases hstep
      exact h.complete hw
    · cases hstep
  | beginClose =>
    rw [Pool.step] at hstep
    split at hstep
    · cases hstep
      exact { h with
        accepting := by simp
        exited := fun hw => ⟨rfl, (h.exited hw).2⟩
        closed := fun hphase => nomatch hphase }
    · cases hstep
  | endClose =>
    rw [Pool.step] at hstep
    split at hstep
    · rename_i hclosing
      cases hstep
      have haccepting : ¬ e.accepting = true := by
        rw [h.accepting, hclosing.1]
        decide
      exact { h with
        accepting := iff_of_false haccepting (by simp)
        closed := by
          intro _ w hw
          have hexited := List.all_eq_true.mp hclosing.2 w hw
          cases w <;> first | rfl | cases hexited }
    · cases hstep

end Steps

/-- The agreement holds in every state that comes later. -/
theorem Later.inv {capacity : Nat} {maxBatch : Option Nat} {s s' : System F C}
    (h : Inv capacity maxBatch s.executor s.log) (hlater : Later s s') :
    Inv capacity maxBatch s'.executor s'.log := by
  induction hlater with
  | refl => exact h
  | step _ hstep ih => exact ih.step hstep

/-- Nothing is accepted after the end. -/
theorem Later.closed {s s' : System F C} (hlater : Later s s') (hclosed : s.executor.phase = .closed)
    (hworkers : ∀ w ∈ s.executor.workers, w = .exited) :
    s'.executor.phase = .closed ∧ s'.log.accepted = s.log.accepted ∧
      s'.executor.workers = s.executor.workers := by
  induction hlater with
  | refl => exact ⟨hclosed, rfl, rfl⟩
  | @step s₁ s₂ event _ hstep ih =>
    obtain ⟨hphase, haccepted, hsame⟩ := ih
    obtain ⟨e, log⟩ := s₁
    dsimp only at hphase haccepted hsame
    have hexited : ∀ (i : Nat) (w : Worker F C), e.workers[i]? = some w → w = .exited := by
      intro i w hw
      exact hworkers w (hsame ▸ List.mem_of_getElem? hw)
    cases event with
    | submit batch job =>
      rw [Pool.step, if_pos hphase] at hstep
      cases hstep
      refine ⟨hphase, ?_, hsame⟩
      rw [accepted_append, if_neg (by decide), List.append_nil, haccepted]
    | turn i timedOut =>
      rw [Pool.step] at hstep
      split at hstep
      · rename_i hw
        cases hexited i _ hw
      · rename_i hw
        cases hexited i _ hw
      · cases hstep
    | call i =>
      rw [Pool.step] at hstep
      split at hstep
      · rename_i jobs hw
        cases hexited i _ hw
      · cases hstep
    | finish i =>
      rw [Pool.step] at hstep
      split at hstep
      · rename_i jobs hw
        cases hexited i _ hw
      · cases hstep
    | beginClose =>
      rw [Pool.step, hphase, if_neg (by decide)] at hstep
      cases hstep
    | endClose =>
      rw [Pool.step, hphase, if_neg (by simp)] at hstep
      cases hstep

/-- **The accounting of the executor.**  In every state that an executor reaches, in whatever order its threads and
workers go on: the counters add up; the ring is within its capacity; every accepted job is in one place, called, with a
worker or in the ring; a batching executor calls them in the order of acceptance, in batches of at least one and at most
`maxBatch`; and after the end all are called and completed, and no more is accepted. -/
theorem executor_accounting {workers capacity : Nat} {maxBatch : Option Nat} {s : System F C}
    (hopens : Opens workers capacity maxBatch) (h : Later (opened workers capacity maxBatch) s) :
    s.executor.submitted = s.executor.queued + s.executor.active + s.executor.completed ∧
    s.executor.queued ≤ capacity ∧
    s.log.accepted.Perm (s.log.calls.flatten ++ (s.executor.held ++ s.executor.contents)) ∧
    (∀ m ∈ maxBatch, s.log.accepted = s.log.calls.flatten ++ (s.executor.held ++ s.executor.contents) ∧
      ∀ b ∈ s.log.calls, 1 ≤ b.length ∧ b.length ≤ m) ∧
    (maxBatch = none → ∀ b ∈ s.log.calls, b.length = 1) ∧
    (s.executor.phase = .closed → s.log.accepted.Perm s.log.calls.flatten ∧
      s.executor.completed = s.log.accepted.length ∧
      ∀ s', Later s s' → s'.log.accepted = s.log.accepted) := by
  have hinv := h.inv (inv_opened hopens)
  have hplaces : s.log.accepted.Perm (s.log.calls.flatten ++ (s.executor.held ++ s.executor.contents)) := by
    rw [← Multiset.coe_eq_coe, hinv.places, Multiset.coe_add, Multiset.coe_add, List.append_assoc]
  refine ⟨hinv.counts, hinv.capacity ▸ hinv.queued, hplaces, fun m hm => ?_, fun hmode b hb => ?_, fun hclosed => ?_⟩
  · have hmode : maxBatch = some m := hm
    refine ⟨(hinv.order (by rw [hmode]; rfl)).2, fun b hb => ?_⟩
    have := hinv.calls b hb
    rw [Executor.batchLimit, hinv.mode, hmode] at this
    exact this
  · have := hinv.calls b hb
    rw [Executor.batchLimit, hinv.mode, hmode] at this
    exact Nat.le_antisymm this.2 this.1
  · have hexited := hinv.closed hclosed
    have hqueued : s.executor.queued = 0 := by
      obtain ⟨w, hw⟩ := List.exists_mem_of_ne_nil _ hinv.workers
      have hwexited := hexited w hw
      rw [hwexited] at hw
      exact (hinv.exited hw).2
    have hheld : s.executor.held = [] := by
      rw [Executor.held, List.flatMap_eq_nil_iff]
      intro w hw
      rw [hexited w hw]
      rfl
    have hcalled : s.executor.called = [] := by
      rw [Executor.called, List.flatMap_eq_nil_iff]
      intro w hw
      rw [hexited w hw]
      rfl
    refine ⟨?_, ?_, fun s' hlater => (hlater.closed hclosed hexited).2.1⟩
    · rw [hheld, Executor.contents, hqueued, ringContents_zero, List.append_nil, List.append_nil] at hplaces
      exact hplaces
    · have hactive := hinv.active
      have hcounts := hinv.counts
      have hsubmitted := hinv.submitted
      rw [hheld, hcalled] at hactive
      simp only [List.length_nil] at hactive
      omega

/-- A batching executor that is given two items, and closed. -/
def sampleEvents : List (Event Unit Nat) :=
  [.submit true ⟨none, 5⟩, .turn 0 false, .submit true ⟨none, 6⟩, .turn 0 false, .call 0, .submit false ⟨some (), 7⟩,
    .beginClose, .submit true ⟨none, 8⟩, .finish 0, .turn 0 false, .endClose]

/-- Do these steps. -/
def runEvents (s : System F C) (events : List (Event F C)) : Option (System F C) :=
  events.foldlM (fun s event => step event s) s

theorem Later.runEvents {s s' s'' : System F C} {events : List (Event F C)} (h : Later s s')
    (hrun : Pool.runEvents s' events = some s'') : Later s s'' := by
  induction events generalizing s' with
  | nil =>
    cases hrun
    exact h
  | cons event events ih =>
    rw [Pool.runEvents, List.foldlM_cons] at hrun
    cases hstep : Pool.step event s' with
    | none =>
      rw [hstep] at hrun
      cases hrun
    | some s₁ =>
      rw [hstep] at hrun
      exact ih (.step h hstep) hrun

theorem executor_accounting_sample : ∃ s : System Unit Nat, Later (opened 1 2 (some 2)) s ∧
    s.executor.phase = .closed ∧ s.log.calls.map List.length = [2] ∧ s.executor.rejected = 2 ∧
    s.log.accepted.Perm s.log.calls.flatten ∧ s.executor.completed = s.log.accepted.length := by
  cases hrun : runEvents (opened 1 2 (some 2)) sampleEvents with
  | none =>
    have hsome : (runEvents (opened 1 2 (some 2)) sampleEvents).isSome = true := by decide
    rw [hrun] at hsome
    cases hsome
  | some s =>
    have hends : (runEvents (opened 1 2 (some 2)) sampleEvents).map
        (fun s => (s.executor.phase, s.log.calls.map List.length, s.executor.rejected)) = some (.closed, [2], 2) := by
      decide
    rw [hrun, Option.map_some, Option.some.injEq, Prod.mk.injEq, Prod.mk.injEq] at hends
    have hlater : Later (opened 1 2 (some 2)) s := Later.refl.runEvents hrun
    have hopens : Opens 1 2 (some 2) := ⟨rfl, by decide, by decide, by decide⟩
    obtain ⟨-, -, -, -, -, hclosed⟩ := executor_accounting hopens hlater
    obtain ⟨hperm, hcompleted, -⟩ := hclosed hends.1
    exact ⟨s, hlater, hends.1, hends.2.1, hends.2.2, hperm, hcompleted⟩

end Pool
end Yappod

import Yappod.Server.Reactor

/-!
# What the reactor has admitted

Every callback keeps a balance (`Kept`): what the limiters have given out is what the connection has now, together
with what the other connections have.  It is shown for each function that can end a callback, from
`free_connection` up, and from the callbacks it carries over to the whole server (`Inv.step`) and to every state
that it reaches (`admission_accounting`).
-/

set_option autoImplicit false

namespace Yappod
namespace Reactor

/-! ## What a connection holds -/

namespace Connection

/-- The admission of the writer limiter. -/
def writerGrants (c : Connection) : List Grant :=
  if c.writerAdmitted = true then [(c.id, c.request.contentLength)] else []

/-- The admission of the search limiter. -/
def searchGrants (c : Connection) : List Grant :=
  if c.execution.any (·.limiterAcquired) = true then [(c.id, c.request.body.length)] else []

/-- The request is with a worker, or on the way back. -/
def held (c : Connection) : Bool := c.inflight && !c.submitting

/-- A search is in flight. -/
def searching (c : Connection) : Bool := c.execution.any fun e => !e.healthRequest && e.operation ≠ .ingest

end Connection

/-- What is true of a connection between callbacks. -/
structure Good (c : Connection) : Prop where
  execution : c.inflight = c.execution.isSome
  abandoned : c.abandoned = !c.buffered
  gone : c.buffered = false → c.inflight = true ∧ c.submitting = false
  submitting : c.submitting = true → c.inflight = true
  admitted : c.writerAdmitted = true → c.requestHeadParsed = true
  reading : c.readEnabled = true → c.inflight = false ∧ c.responsePending = false
  pending : c.responsePending = true → c.inflight = false
  acquired : ∀ e ∈ c.execution, e.limiterAcquired = true ↔ e.healthRequest = false ∧ e.operation ≠ .ingest

/-- The balance between a connection and the limiters, when others hold `writers` and `searches`. -/
structure Balance (writers searches : List Grant) (o : Outcome) : Prop where
  writer : o.2.writer.Balanced (o.1.elim [] Connection.writerGrants ++ writers)
  search : o.2.search.Balanced (o.1.elim [] Connection.searchGrants ++ searches)

/-- What a callback leaves behind: a connection as good as before, or none, and the balance. -/
structure Kept (id : Nat) (held : Bool) (writers searches : List Grant) (o : Outcome) : Prop where
  balance : Balance writers searches o
  good : ∀ c, o.1 = some c → Good c ∧ c.id = id ∧ c.held = held
  freed : o.1 = none → held = false

section Callbacks

variable {writers searches : List Grant} {c : Connection} {l : Limits} {f : Faults}

theorem Good.execution_eq_none (h : Good c) (hinflight : c.inflight = false) : c.execution = none := by
  have := h.execution
  rw [hinflight] at this
  exact Option.isNone_iff_eq_none.mp (Option.isSome_eq_false_iff.mp this.symm)

theorem Good.not_reading (h : Good c) (hinflight : c.inflight = true) : c.readEnabled = false := by
  rw [Bool.eq_false_iff]
  intro hread
  rw [(h.reading hread).1] at hinflight
  cases hinflight

theorem Good.not_submitting (h : Good c) (hinflight : c.inflight = false) : c.submitting = false := by
  rw [Bool.eq_false_iff]
  intro hsubmitting
  rw [h.submitting hsubmitting] at hinflight
  cases hinflight

theorem Good.not_held (hinflight : c.inflight = false) : c.held = false := by
  rw [Connection.held, hinflight]
  rfl

theorem freeConnection_kept (hexecution : c.execution = none) (h : Balance writers searches (some c, l)) :
    Kept c.id false writers searches (freeConnection c l) := by
  have hwriter := h.writer
  have hsearch := h.search
  rw [Option.elim_some, Connection.searchGrants, hexecution] at hsearch
  rw [Option.elim_some, Connection.writerGrants] at hwriter
  rw [freeConnection]
  split at hwriter
  · rename_i hadmitted
    rw [if_pos hadmitted]
    exact ⟨⟨hwriter.release, hsearch⟩, fun d hd => (nomatch hd), fun _ => rfl⟩
  · rename_i hadmitted
    rw [if_neg hadmitted]
    exact ⟨⟨hwriter, hsearch⟩, fun d hd => (nomatch hd), fun _ => rfl⟩

theorem abandonConnection_kept (hgood : Good c) (hsubmitting : c.submitting = false)
    (h : Balance writers searches (some c, l)) : Kept c.id c.held writers searches (abandonConnection c l) := by
  rw [abandonConnection]
  split
  · rename_i hinflight
    refine ⟨⟨h.writer, h.search⟩, ?_, fun hnone => (nomatch hnone)⟩
    rintro _ ⟨⟩
    exact ⟨⟨hgood.execution, rfl, fun _ => ⟨hinflight, hsubmitting⟩, hgood.submitting, hgood.admitted,
      fun hread => (nomatch hread), hgood.pending, hgood.acquired⟩, rfl, rfl⟩
  · rename_i hfalse
    have hinflight : c.inflight = false := Bool.eq_false_iff.mpr hfalse
    rw [Good.not_held hinflight]
    exact freeConnection_kept (hgood.execution_eq_none hinflight) ⟨h.writer, h.search⟩

theorem writeResponse_good {status : Nat} {allow : Option Bytes} {acceptQuery : Bool} {body : Bytes}
    {c' : Connection} (hgood : Good c) (hinflight : c.inflight = false)
    (h : writeResponse f c status allow acceptQuery body = some c') :
    Good c' ∧ c'.id = c.id ∧ c'.held = false ∧ c'.writerGrants = c.writerGrants ∧
      c'.searchGrants = c.searchGrants := by
  rw [writeResponse] at h
  split at h
  · cases h
  · cases h
    exact ⟨⟨hgood.execution, hgood.abandoned, hgood.gone, hgood.submitting, hgood.admitted,
      fun hread => (nomatch hread), fun _ => hinflight, hgood.acquired⟩, rfl, Good.not_held hinflight, rfl, rfl⟩

theorem respondError_kept {status : Nat} {code message : String} {allow : Option Bytes} {acceptQuery : Bool}
    (hgood : Good c) (hinflight : c.inflight = false) (h : Balance writers searches (some c, l)) :
    Kept c.id false writers searches (respondError f c l status code message allow acceptQuery) := by
  rw [respondError]
  split
  · have hkept := abandonConnection_kept hgood (hgood.not_submitting hinflight) h
    rw [Good.not_held hinflight] at hkept
    exact hkept
  · rename_i c' hwrite
    obtain ⟨hgood', hid, hheld, hwriter, hsearch⟩ := writeResponse_good hgood hinflight hwrite
    refine ⟨⟨?_, ?_⟩, ?_, fun hnone => (nomatch hnone)⟩
    · rw [Option.elim_some, hwriter]
      exact h.writer
    · rw [Option.elim_some, hsearch]
      exact h.search
    · rintro _ ⟨⟩
      exact ⟨hgood', hid, hheld⟩

theorem respondFatalError_kept {status : Nat} {code message : String} (hgood : Good c)
    (hinflight : c.inflight = false) (h : Balance writers searches (some c, l)) :
    Kept c.id false writers searches (respondFatalError f c l status code message) := by
  rw [respondFatalError]
  refine respondError_kept (c := { c with closeAfterResponse := true }) ?_ hinflight ⟨h.writer, h.search⟩
  exact ⟨hgood.execution, hgood.abandoned, hgood.gone, hgood.submitting, hgood.admitted, hgood.reading,
    hgood.pending, hgood.acquired⟩

/-! ### The read callback -/

theorem prepareExecution_kept {policy : Policy} (hgood : Good c) (hinflight : c.inflight = false)
    (hbuffered : c.buffered = true) (hpending : c.responsePending = false)
    (h : Balance writers searches (some c, l)) :
    Kept c.id false writers searches (prepareExecution policy f c l) := by
  have hexecution := hgood.execution_eq_none hinflight
  have hsearch := h.search
  rw [Option.elim_some, Connection.searchGrants, hexecution] at hsearch
  rw [prepareExecution]
  split
  · exact respondError_kept hgood hinflight h
  split
  · exact respondError_kept hgood hinflight h
  split
  · rename_i hkind
    split
    · exact respondError_kept hgood hinflight h
    · rename_i search hacquire
      refine ⟨⟨h.writer, hsearch.acquire hacquire⟩, ?_, fun hnone => (nomatch hnone)⟩
      rintro _ ⟨⟩
      refine ⟨⟨rfl, hgood.abandoned, fun hgone => ?_, fun _ => rfl, hgood.admitted, fun hread => (nomatch hread),
        fun hpend => ?_, ?_⟩, rfl, rfl⟩
      · rw [hbuffered] at hgone
        cases hgone
      · rw [hpending] at hpend
        cases hpend
      · rintro e ⟨⟩
        exact ⟨fun _ => hkind, fun _ => rfl⟩
  · rename_i hkind
    refine ⟨⟨h.writer, hsearch⟩, ?_, fun hnone => (nomatch hnone)⟩
    rintro _ ⟨⟩
    refine ⟨⟨rfl, hgood.abandoned, fun hgone => ?_, fun _ => rfl, hgood.admitted, fun hread => (nomatch hread),
      fun hpend => ?_, ?_⟩, rfl, rfl⟩
    · rw [hbuffered] at hgone
      cases hgone
    · rw [hpending] at hpend
      cases hpend
    · rintro e ⟨⟩
      exact ⟨fun hacquired => (nomatch hacquired), fun h => absurd h hkind⟩

/-- A connection on which `read_callback` runs, or has come to the end of a part. -/
structure Readable (c : Connection) : Prop where
  good : Good c
  inflight : c.inflight = false
  buffered : c.buffered = true
  pending : c.responsePending = false

theorem Readable.execution (h : Readable c) : c.execution = none := h.good.execution_eq_none h.inflight

theorem submitRequest_kept {policy : Policy} (hc : Readable c) (h : Balance writers searches (some c, l)) :
    Kept c.id false writers searches (submitRequest policy f c l) := by
  have hprepare : Kept c.id false writers searches (prepareExecution policy f c l) :=
    prepareExecution_kept hc.good hc.inflight hc.buffered hc.pending h
  have hrespond : ∀ status code message allow acceptQuery,
      Kept c.id false writers searches (respondError f c l status code message allow acceptQuery) :=
    fun _ _ _ _ _ => respondError_kept hc.good hc.inflight h
  rw [submitRequest]
  split
  · exact hrespond _ _ _ _ _
  split
  · exact hrespond _ _ _ _ _
  split
  · split
    · exact hrespond _ _ _ _ _
    · exact hprepare
  split
  · exact hrespond _ _ _ _ _
  split
  · exact hrespond _ _ _ _ _
  · exact hprepare

/-- The connection that the callback goes on with. -/
def Reading.connection : Reading → Connection
  | .waits c => c
  | .fatal c _ _ _ => c
  | .overloaded c => c
  | .broken c => c
  | .ready c => c

/-- The first part of the callback keeps the balance too. -/
structure KeptReading (id : Nat) (writers searches : List Grant) (r : Reading × Limits) : Prop where
  readable : Readable r.1.connection
  id : r.1.connection.id = id
  balance : Balance writers searches (some r.1.connection, r.2)

theorem readBody_kept (hc : Readable c) (h : Balance writers searches (some c, l)) :
    KeptReading c.id writers searches (readBody f c, l) := by
  rw [readBody]
  split
  · exact ⟨hc, rfl, h⟩
  split
  · split
    · exact ⟨hc, rfl, h⟩
    split
    · exact ⟨hc, rfl, h⟩
    · have hsearch := h.search
      rw [Option.elim_some, Connection.searchGrants, hc.execution] at hsearch
      refine ⟨⟨?_, hc.inflight, hc.buffered, hc.pending⟩, rfl, h.writer, ?_⟩
      · exact ⟨hc.good.execution, hc.good.abandoned, hc.good.gone, hc.good.submitting, hc.good.admitted,
          hc.good.reading, hc.good.pending, hc.good.acquired⟩
      · rw [Option.elim_some, Connection.searchGrants, Reading.connection, hc.execution]
        exact hsearch
  · exact ⟨hc, rfl, h⟩

theorem admitBody_kept {policy : Policy} (hc : Readable c) (hparsed : c.requestHeadParsed = true)
    (hadmitted : c.writerAdmitted = false) (h : Balance writers searches (some c, l)) :
    KeptReading c.id writers searches (admitBody policy f c l) := by
  rw [admitBody]
  split
  · split
    · exact ⟨hc, rfl, h⟩
    split
    · split
      · exact ⟨hc, rfl, h⟩
      · rename_i writer hacquire
        have hwriter := h.writer
        rw [Option.elim_some, Connection.writerGrants, hadmitted] at hwriter
        refine readBody_kept (c := { c with writerAdmitted := true }) ?_ ⟨hwriter.acquire hacquire, h.search⟩
        exact ⟨⟨hc.good.execution, hc.good.abandoned, hc.good.gone, hc.good.submitting, fun _ => hparsed,
          hc.good.reading, hc.good.pending, hc.good.acquired⟩, hc.inflight, hc.buffered, hc.pending⟩
    · exact readBody_kept hc h
  · exact readBody_kept hc h

theorem readRequest_kept {policy : Policy} (hc : Readable c) (h : Balance writers searches (some c, l)) :
    KeptReading c.id writers searches (readRequest policy f c l) := by
  rw [readRequest]
  split
  · exact readBody_kept hc h
  rename_i hparsed
  have hadmitted : c.writerAdmitted = false := by
    rw [Bool.eq_false_iff]
    exact fun hadmitted => hparsed (hc.good.admitted hadmitted)
  -- the request changes while nothing is admitted and nothing is in flight
  have hnew : ∀ input request parsed close,
      let d := { c with
        input := input, request := request, requestHeadParsed := parsed, closeAfterResponse := close }
      Readable d ∧ Balance writers searches (some d, l) := by
    intro input request parsed close
    have hwriter := h.writer
    have hsearch := h.search
    rw [Option.elim_some, Connection.writerGrants, hadmitted] at hwriter
    rw [Option.elim_some, Connection.searchGrants, hc.execution] at hsearch
    refine ⟨⟨⟨hc.good.execution, hc.good.abandoned, hc.good.gone, hc.good.submitting, fun hadm => ?_,
      hc.good.reading, hc.good.pending, hc.good.acquired⟩, hc.inflight, hc.buffered, hc.pending⟩, ?_, ?_⟩
    · rw [hadmitted] at hadm
      cases hadm
    · rw [Option.elim_some, Connection.writerGrants, hadmitted]
      exact hwriter
    · rw [Option.elim_some, Connection.searchGrants, hc.execution]
      exact hsearch
  split
  · split
    · exact ⟨hc, rfl, h⟩
    · exact ⟨hc, rfl, h⟩
  split
  · exact ⟨hc, rfl, h⟩
  split
  · exact ⟨hc, rfl, h⟩
  split
  · obtain ⟨hreadable, hbalance⟩ := hnew c.input .init c.requestHeadParsed c.closeAfterResponse
    exact ⟨hreadable, rfl, hbalance⟩
  · rename_i request _
    obtain ⟨hreadable, hbalance⟩ := hnew (c.input.drop (_ + 4)) request true request.closeConnection
    exact admitBody_kept hreadable rfl hadmitted hbalance

theorem readCallback_kept {policy : Policy} (hc : Readable c) (h : Balance writers searches (some c, l)) :
    Kept c.id false writers searches (readCallback policy f c l) := by
  have hreading : KeptReading c.id writers searches (readRequest policy f c l) := readRequest_kept hc h
  obtain ⟨hreadable, hid, hbalance⟩ := hreading
  rw [readCallback, ← hid]
  generalize readRequest policy f c l = r at *
  obtain ⟨reading, limits⟩ := r
  cases reading with
  | waits d =>
    refine ⟨hbalance, ?_, fun hnone => (nomatch hnone)⟩
    rintro _ ⟨⟩
    exact ⟨hreadable.good, rfl, Good.not_held hreadable.inflight⟩
  | fatal d status code message => exact respondFatalError_kept hreadable.good hreadable.inflight hbalance
  | overloaded d => exact respondFatalError_kept hreadable.good hreadable.inflight hbalance
  | broken d =>
    have hkept := abandonConnection_kept hreadable.good (hreadable.good.not_submitting hreadable.inflight) hbalance
    rw [Good.not_held hreadable.inflight] at hkept
    exact hkept
  | ready d => exact submitRequest_kept hreadable hbalance

/-! ### The other callbacks -/

theorem submitted_kept {accepted : Bool} (hgood : Good c) (hsubmitting : c.submitting = true)
    (h : Balance writers searches (some c, l)) : Kept c.id accepted writers searches (submitted f accepted c l) := by
  have hinflight := hgood.submitting hsubmitting
  have hread := hgood.not_reading hinflight
  have hbuffered : c.buffered = true := by
    rw [← Bool.not_eq_false]
    intro hgone
    rw [(hgood.gone hgone).2] at hsubmitting
    cases hsubmitting
  rw [submitted]
  cases accepted with
  | true =>
    refine ⟨⟨h.writer, h.search⟩, ?_, fun hnone => (nomatch hnone)⟩
    rintro _ ⟨⟩
    refine ⟨⟨hgood.execution, hgood.abandoned, fun hgone => ⟨hinflight, rfl⟩, fun hsub => (nomatch hsub),
      hgood.admitted, hgood.reading, hgood.pending, hgood.acquired⟩, rfl, ?_⟩
    rw [Connection.held, hinflight]
    rfl
  | false =>
    have hgood' : Good { c with execution := none, inflight := false, submitting := false } := by
      refine ⟨rfl, hgood.abandoned, fun hgone => ?_, fun hsub => (nomatch hsub), hgood.admitted, fun hr => ?_,
        fun _ => rfl, fun e he => (nomatch he)⟩
      · rw [hbuffered] at hgone
        cases hgone
      · rw [hread] at hr
        cases hr
    have hsearch := h.search
    rw [Option.elim_some, Connection.searchGrants] at hsearch
    refine respondError_kept hgood' rfl ⟨?_, ?_⟩
    · split
      · exact h.writer
      · exact h.writer
    · split at hsearch
      · rename_i hacquired
        rw [if_pos hacquired]
        exact hsearch.release
      · rename_i hacquired
        rw [if_neg hacquired]
        exact hsearch

theorem writeCallback_kept (hgood : Good c) (hsubmitting : c.submitting = false)
    (h : Balance writers searches (some c, l)) : Kept c.id c.held writers searches (writeCallback f c l) := by
  rw [writeCallback]
  split
  · refine ⟨h, ?_, fun hnone => (nomatch hnone)⟩
    rintro _ ⟨⟩
    exact ⟨hgood, rfl, rfl⟩
  rename_i hpending
  have hinflight : c.inflight = false := hgood.pending (by
    rw [not_or, Bool.not_eq_false] at hpending
    exact hpending.1)
  split
  · exact abandonConnection_kept hgood hsubmitting h
  have hexecution := hgood.execution_eq_none hinflight
  have hgood' : Good (resetConnectionRequest c l).1 := by
    refine ⟨hgood.execution, hgood.abandoned, hgood.gone, hgood.submitting, fun hadm => (nomatch hadm),
      fun hread => ⟨hinflight, rfl⟩, fun hpend => (nomatch hpend), hgood.acquired⟩
  have hbalance : Balance writers searches
      (some (resetConnectionRequest c l).1, (resetConnectionRequest c l).2) := by
    have hwriter := h.writer
    have hsearch := h.search
    rw [Option.elim_some, Connection.writerGrants] at hwriter
    rw [Option.elim_some, Connection.searchGrants, hexecution] at hsearch
    rw [resetConnectionRequest]
    refine ⟨?_, ?_⟩
    · split at hwriter
      · rename_i hadmitted
        rw [if_pos hadmitted]
        exact hwriter.release
      · rename_i hadmitted
        rw [if_neg hadmitted]
        exact hwriter
    · rw [Option.elim_some, Connection.searchGrants, hexecution]
      split
      · exact hsearch
      · exact hsearch
  split
  · exact abandonConnection_kept hgood' hsubmitting hbalance
  · refine ⟨⟨hbalance.writer, hbalance.search⟩, ?_, fun hnone => (nomatch hnone)⟩
    rintro _ ⟨⟩
    exact ⟨⟨hgood'.execution, hgood'.abandoned, hgood'.gone, hgood'.submitting, hgood'.admitted,
      fun _ => ⟨hinflight, rfl⟩, hgood'.pending, hgood'.acquired⟩, rfl, rfl⟩

theorem eventCallback_kept {flags : EventFlags} (hgood : Good c) (hsubmitting : c.submitting = false)
    (h : Balance writers searches (some c, l)) : Kept c.id c.held writers searches (eventCallback flags c l) := by
  have habandon := abandonConnection_kept hgood hsubmitting h
  rw [eventCallback]
  split
  · refine ⟨⟨h.writer, h.search⟩, ?_, fun hnone => (nomatch hnone)⟩
    rintro _ ⟨⟩
    exact ⟨⟨hgood.execution, hgood.abandoned, hgood.gone, hgood.submitting, hgood.admitted,
      fun hread => (nomatch hread), hgood.pending, hgood.acquired⟩, rfl, rfl⟩
  split
  · exact habandon
  split
  · exact habandon
  · refine ⟨h, ?_, fun hnone => (nomatch hnone)⟩
    rintro _ ⟨⟩
    exact ⟨hgood, rfl, rfl⟩

theorem completeExecution_kept {execution : Execution} (hgood : Good c) (hheld : c.held = true)
    (hexecution : c.execution = some execution) (h : Balance writers searches (some c, l)) :
    Kept c.id false writers searches (completeExecution f execution c l) := by
  rw [Connection.held, Bool.and_eq_true, Bool.not_eq_true'] at hheld
  have hread := hgood.not_reading hheld.1
  have hbalance : Balance writers searches (some { c with execution := none, inflight := false },
      if execution.limiterAcquired = true then
        { l with search := l.search.release (c.id, c.request.body.length) }
      else l) := by
    have hsearch := h.search
    rw [Option.elim_some, Connection.searchGrants, hexecution, Option.any_some] at hsearch
    split at hsearch
    · rename_i hacquired
      rw [if_pos hacquired]
      exact ⟨h.writer, hsearch.release⟩
    · rename_i hacquired
      rw [if_neg hacquired]
      exact ⟨h.writer, hsearch⟩
  rw [completeExecution]
  split
  · exact freeConnection_kept (c := { c with execution := none, inflight := false }) rfl hbalance
  rename_i hlive
  rw [not_or, Bool.not_eq_false] at hlive
  have hgood' : Good { c with execution := none, inflight := false } := by
    refine ⟨rfl, hgood.abandoned, fun hgone => ?_, fun hsub => ?_, hgood.admitted, fun hr => ?_, fun _ => rfl,
      fun e he => (nomatch he)⟩
    · exact absurd hgone (by rw [hlive.2]; decide)
    · exact absurd hsub (by rw [hheld.2]; decide)
    · exact absurd hr (by rw [hread]; decide)
  split
  · exact abandonConnection_kept hgood' hheld.2 hbalance
  split
  · exact abandonConnection_kept hgood' hheld.2 hbalance
  · rename_i c' hwrite
    obtain ⟨hgood'', hid, hheld', hwriter, hsearch⟩ := writeResponse_good hgood' rfl hwrite
    refine ⟨⟨?_, ?_⟩, ?_, fun hnone => (nomatch hnone)⟩
    · rw [Option.elim_some, hwriter]
      exact hbalance.writer
    · rw [Option.elim_some, hsearch]
      exact hbalance.search
    · rintro _ ⟨⟩
      exact ⟨hgood'', hid, hheld'⟩

end Callbacks

/-! ## The server -/

/-- The connections whose request is with a worker or on the way back. -/
def System.heldIds (s : System) : List Nat := (s.connections.filter Connection.held).map Connection.id

/-- The connections are good, each of them is there or was freed once, and the books are balanced. -/
structure Books (s : System) : Prop where
  good : ∀ c ∈ s.connections, Good c
  ids : (s.connections.map Connection.id ++ s.freed).Perm (List.range s.nextId)
  writer : s.limits.writer.Balanced (s.connections.flatMap Connection.writerGrants)
  search : s.limits.search.Balanced (s.connections.flatMap Connection.searchGrants)

structure Inv (s : System) : Prop where
  books : Books s
  holders : (s.workers ++ s.mailbox).Perm s.heldIds

theorem Inv.opened {limits : Limits} (hwriter : limits.writer.Balanced []) (hsearch : limits.search.Balanced []) :
    Inv (opened limits) :=
  ⟨⟨fun _ hc => absurd hc List.not_mem_nil, .nil, hwriter, hsearch⟩, .nil⟩

section Settle

variable {s : System} {c : Connection} {before after : List Connection} {o : Outcome} {held : Bool}

theorem Books.nodup (h : Books s) : (s.connections.map Connection.id).Nodup :=
  (List.nodup_append.mp (h.ids.nodup_iff.mpr List.nodup_range)).1

theorem Books.other_id (h : Books s) (hsplit : s.connections = before ++ c :: after) :
    ∀ d ∈ before ++ after, d.id ≠ c.id := by
  have hnodup := h.nodup
  rw [hsplit, (List.perm_middle.map Connection.id).nodup_iff, List.map_cons, List.nodup_cons] at hnodup
  intro d hd heq
  exact hnodup.1 (heq ▸ List.mem_map_of_mem hd)

/-- The connection of a callback is replaced or taken out, and the others stay. -/
theorem Books.connections_settle (h : Books s) (hsplit : s.connections = before ++ c :: after) :
    (s.settle c.id o).connections = before ++ (o.1.toList ++ after) := by
  have hother := h.other_id hsplit
  have hbefore : ∀ d ∈ before, d.id ≠ c.id := fun d hd => hother d (List.mem_append_left after hd)
  have hafter : ∀ d ∈ after, d.id ≠ c.id := fun d hd => hother d (List.mem_append_right before hd)
  rw [System.settle]
  split
  · rename_i c' ho
    have hsame : ∀ l : List Connection, (∀ d ∈ l, d.id ≠ c.id) →
        (l.map fun d => if d.id = c.id then c' else d) = l := by
      intro l hl
      rw [List.map_congr_left (fun d hd => if_neg (hl d hd)), List.map_id']
    rw [hsplit, List.map_append, List.map_cons, hsame before hbefore, hsame after hafter, if_pos rfl, ho]
    rfl
  · rename_i ho
    have hsame : ∀ l : List Connection, (∀ d ∈ l, d.id ≠ c.id) → l.filter (·.id ≠ c.id) = l := by
      intro l hl
      rw [List.filter_eq_self]
      exact fun d hd => decide_eq_true (hl d hd)
    rw [hsplit, List.filter_append, List.filter_cons_of_neg (by simp), hsame before hbefore, hsame after hafter, ho]
    rfl

/-- What is collected from the connections comes from the one of the callback and from the others. -/
theorem flatMap_split {α : Type} (g : Connection → List α) (before after : List Connection) (r : Option Connection) :
    ((before ++ (r.toList ++ after)).flatMap g).Perm (r.elim [] g ++ (before ++ after).flatMap g) := by
  have hperm : (before ++ (r.toList ++ after)).Perm (r.toList ++ (before ++ after)) := by
    rw [← List.append_assoc, ← List.append_assoc]
    exact List.perm_append_comm.append_right after
  have hone : r.toList.flatMap g = r.elim [] g := by
    cases r with
    | none => rfl
    | some c => exact List.flatMap_singleton g c
  rw [← hone, ← List.flatMap_append]
  exact hperm.flatMap_right g

/-- What a callback is given. -/
theorem Books.balance (h : Books s) (hsplit : s.connections = before ++ c :: after) :
    Balance ((before ++ after).flatMap Connection.writerGrants) ((before ++ after).flatMap Connection.searchGrants)
      (some c, s.limits) := by
  have hwriter := h.writer
  have hsearch := h.search
  rw [hsplit] at hwriter hsearch
  exact ⟨hwriter.perm (flatMap_split Connection.writerGrants before after (some c)),
    hsearch.perm (flatMap_split Connection.searchGrants before after (some c))⟩

/-- A callback that keeps the balance of its connection keeps the books. -/
theorem Books.settle (h : Books s) (hsplit : s.connections = before ++ c :: after)
    (hkept : Kept c.id held ((before ++ after).flatMap Connection.writerGrants)
      ((before ++ after).flatMap Connection.searchGrants) o) : Books (s.settle c.id o) := by
  have hconnections := h.connections_settle (o := o) hsplit
  have hlimits : (s.settle c.id o).limits = o.2 := by
    rw [System.settle]
    split <;> rfl
  refine ⟨?_, ?_, ?_, ?_⟩
  · intro d hd
    rw [hconnections, List.mem_append, List.mem_append] at hd
    rcases hd with hd | hd | hd
    · exact h.good d (by rw [hsplit]; exact List.mem_append_left _ hd)
    · exact (hkept.good d (Option.mem_toList.mp hd)).1
    · exact h.good d (by rw [hsplit]; exact List.mem_append_right _ (List.mem_cons_of_mem c hd))
  · have hids := h.ids
    rw [hsplit, List.map_append, List.map_cons] at hids
    rw [hconnections, System.settle]
    cases ho : o.1 with
    | some c' =>
      rw [Option.toList_some, List.singleton_append, List.map_append, List.map_cons, (hkept.good c' ho).2.1]
      exact hids
    | none =>
      rw [Option.toList_none, List.nil_append, List.map_append]
      refine List.Perm.trans ?_ hids
      rw [List.append_assoc, List.append_assoc, List.cons_append]
      exact List.perm_middle.append_left _
  · rw [hconnections, hlimits]
    exact hkept.balance.writer.perm (flatMap_split Connection.writerGrants before after o.1).symm
  · rw [hconnections, hlimits]
    exact hkept.balance.search.perm (flatMap_split Connection.searchGrants before after o.1).symm

/-- Who holds a request after a callback. -/
theorem Books.heldIds_settle (h : Books s) (hsplit : s.connections = before ++ c :: after)
    (hkept : Kept c.id held ((before ++ after).flatMap Connection.writerGrants)
      ((before ++ after).flatMap Connection.searchGrants) o) :
    ((s.settle c.id o).heldIds).Perm ((if held = true then [c.id] else []) ++
      ((before ++ after).filter Connection.held).map Connection.id) := by
  have hperm : (before ++ (o.1.toList ++ after)).Perm (o.1.toList ++ (before ++ after)) := by
    rw [← List.append_assoc, ← List.append_assoc]
    exact List.perm_append_comm.append_right after
  have hone : (o.1.toList.filter Connection.held).map Connection.id = if held = true then [c.id] else [] := by
    cases ho : o.1 with
    | some c' =>
      obtain ⟨-, hid, hheld⟩ := hkept.good c' ho
      rw [Option.toList_some, List.filter_singleton, hheld, ← hid]
      cases held <;> rfl
    | none =>
      rw [hkept.freed ho]
      rfl
  rw [System.heldIds, h.connections_settle hsplit, ← hone, ← List.map_append, ← List.filter_append]
  exact (hperm.filter _).map _

theorem heldIds_split (hsplit : s.connections = before ++ c :: after) :
    s.heldIds.Perm ((if c.held = true then [c.id] else []) ++
      ((before ++ after).filter Connection.held).map Connection.id) := by
  rw [System.heldIds, hsplit]
  refine ((List.perm_middle.filter _).map _).trans (List.Perm.of_eq ?_)
  rw [List.filter_cons]
  split <;> rfl

theorem workers_settle (id : Nat) (o : Outcome) : (s.settle id o).workers = s.workers := by
  rw [System.settle]
  split <;> rfl

theorem mailbox_settle (id : Nat) (o : Outcome) : (s.settle id o).mailbox = s.mailbox := by
  rw [System.settle]
  split <;> rfl

/-- A callback that does not change who holds the request. -/
theorem Inv.settle (h : Inv s) (hsplit : s.connections = before ++ c :: after)
    (hkept : Kept c.id c.held ((before ++ after).flatMap Connection.writerGrants)
      ((before ++ after).flatMap Connection.searchGrants) o) : Inv (s.settle c.id o) := by
  refine ⟨h.books.settle hsplit hkept, ?_⟩
  rw [workers_settle, mailbox_settle]
  exact h.holders.trans ((heldIds_split hsplit).trans (h.books.heldIds_settle hsplit hkept).symm)

theorem find_split {id : Nat} (h : s.find id = some c) :
    c.id = id ∧ ∃ before after, s.connections = before ++ c :: after := by
  rw [System.find, List.find?_eq_some_iff_append] at h
  obtain ⟨hid, before, after, hsplit, -⟩ := h
  exact ⟨of_decide_eq_true hid, before, after, hsplit⟩

/-- A request that a worker has, or a message with it, belongs to a connection that is there. -/
theorem Inv.exists_held (h : Inv s) {id : Nat} (hid : id ∈ s.workers ++ s.mailbox) :
    ∃ d ∈ s.connections, d.id = id ∧ d.held = true := by
  have hmem := h.holders.subset hid
  rw [System.heldIds, List.mem_map] at hmem
  obtain ⟨d, hd, hdid⟩ := hmem
  rw [List.mem_filter] at hd
  exact ⟨d, hd.1, hdid, hd.2⟩

theorem Inv.held_of_mem (h : Inv s) (hsplit : s.connections = before ++ c :: after)
    (hid : c.id ∈ s.workers ++ s.mailbox) : c.held = true := by
  obtain ⟨d, hd, hdid, hheld⟩ := h.exists_held hid
  rw [hsplit, List.mem_append, List.mem_cons] at hd
  have hother := h.books.other_id hsplit
  rcases hd with hd | rfl | hd
  · exact absurd hdid (hother d (List.mem_append_left after hd))
  · exact hheld
  · exact absurd hdid (hother d (List.mem_append_right before hd))

end Settle

/-! ### The steps -/

section Steps

variable {s s' : System} {policy : Policy}

theorem Inv.accept (h : Inv s) (f : Faults) : Inv (s.accept f) := by
  have hrange : (List.range (s.nextId + 1)).Perm (s.nextId :: List.range s.nextId) := by
    rw [List.range_succ]
    exact List.perm_append_singleton _ _
  rw [System.accept]
  split
  · refine ⟨⟨h.books.good, ?_, h.books.writer, h.books.search⟩, h.holders⟩
    exact (List.perm_middle.trans (h.books.ids.cons s.nextId)).trans hrange.symm
  · refine ⟨⟨?_, ?_, h.books.writer, h.books.search⟩, h.holders⟩
    · intro d hd
      rcases List.mem_cons.mp hd with rfl | hd
      · exact ⟨rfl, rfl, fun hgone => (nomatch hgone), fun hsub => (nomatch hsub), fun hadm => (nomatch hadm),
          fun _ => ⟨rfl, rfl⟩, fun _ => rfl, fun e he => (nomatch he)⟩
      · exact h.books.good d hd
    · exact (h.books.ids.cons s.nextId).trans hrange.symm

theorem work_kept {writers searches : List Grant} {c : Connection} {l : Limits} (httpStatus : Nat) (json : Bytes)
    (result : Status) (hgood : Good c) (h : Balance writers searches (some c, l)) :
    Kept c.id c.held writers searches (some { c with
      execution := c.execution.map fun e => { e with httpStatus, json, result } }, l) := by
  cases hexecution : c.execution with
  | none =>
    have hself : { c with execution := none } = c := by
      rw [← hexecution]
    rw [Option.map_none, hself]
    refine ⟨h, ?_, fun hnone => (nomatch hnone)⟩
    rintro _ ⟨⟩
    exact ⟨hgood, rfl, rfl⟩
  | some e =>
    have hsearch := h.search
    have hinflight := hgood.execution
    have hacquired := hgood.acquired e (by rw [hexecution]; rfl)
    rw [hexecution] at hinflight
    rw [Option.elim_some, Connection.searchGrants, hexecution] at hsearch
    refine ⟨⟨h.writer, hsearch⟩, ?_, fun hnone => (nomatch hnone)⟩
    rintro _ ⟨⟩
    refine ⟨⟨hinflight, hgood.abandoned, hgood.gone, hgood.submitting, hgood.admitted, hgood.reading,
      hgood.pending, ?_⟩, rfl, rfl⟩
    rintro e' ⟨⟩
    exact hacquired

theorem listens_iff {c : Connection} (h : c.listens = true) : c.buffered = true ∧ c.submitting = false := by
  rw [Connection.listens, Bool.and_eq_true, Bool.not_eq_true'] at h
  exact h

theorem Inv.read (h : Inv s) {id : Nat} {bytes : Bytes} {f : Faults}
    (hstep : step policy s (.read id bytes f) = some s') : Inv s' := by
  obtain ⟨c, hfind, hrest⟩ := Option.bind_eq_some_iff.mp hstep
  obtain ⟨rfl, before, after, hsplit⟩ := find_split hfind
  obtain ⟨⟨hlistens, hread, -⟩, hs'⟩ := Option.ite_none_right_eq_some.mp hrest
  cases hs'
  have hgood := h.books.good c (by rw [hsplit]; simp)
  have hbalance := h.books.balance hsplit
  refine h.settle hsplit ?_
  have hidle := hgood.reading hread
  have hreadable : Readable { c with input := c.input ++ bytes } :=
    ⟨⟨hgood.execution, hgood.abandoned, hgood.gone, hgood.submitting, hgood.admitted, hgood.reading, hgood.pending,
      hgood.acquired⟩, hidle.1, (listens_iff hlistens).1, hidle.2⟩
  rw [Good.not_held hidle.1]
  exact readCallback_kept hreadable ⟨hbalance.writer, hbalance.search⟩

theorem Inv.written (h : Inv s) {id count : Nat} {f : Faults}
    (hstep : step policy s (.written id count f) = some s') : Inv s' := by
  obtain ⟨c, hfind, hrest⟩ := Option.bind_eq_some_iff.mp hstep
  obtain ⟨rfl, before, after, hsplit⟩ := find_split hfind
  obtain ⟨hlistens, hs'⟩ := Option.ite_none_right_eq_some.mp hrest
  cases hs'
  have hgood := h.books.good c (by rw [hsplit]; simp)
  have hbalance := h.books.balance hsplit
  have hgood' : Good { c with output := c.output.drop count } :=
    ⟨hgood.execution, hgood.abandoned, hgood.gone, hgood.submitting, hgood.admitted, hgood.reading, hgood.pending,
      hgood.acquired⟩
  exact h.settle hsplit (writeCallback_kept hgood' (listens_iff hlistens).2 ⟨hbalance.writer, hbalance.search⟩)

theorem Inv.event (h : Inv s) {id : Nat} {flags : EventFlags}
    (hstep : step policy s (.event id flags) = some s') : Inv s' := by
  obtain ⟨c, hfind, hrest⟩ := Option.bind_eq_some_iff.mp hstep
  obtain ⟨rfl, before, after, hsplit⟩ := find_split hfind
  obtain ⟨hlistens, hs'⟩ := Option.ite_none_right_eq_some.mp hrest
  cases hs'
  have hgood := h.books.good c (by rw [hsplit]; simp)
  exact h.settle hsplit (eventCallback_kept hgood (listens_iff hlistens).2 (h.books.balance hsplit))

/-- The executor takes the request over, or it is answered at once. -/
theorem Inv.submit (h : Inv s) {id : Nat} {accepted : Bool} {f : Faults}
    (hstep : step policy s (.submit id accepted f) = some s') : Inv s' := by
  obtain ⟨c, hfind, hrest⟩ := Option.bind_eq_some_iff.mp hstep
  obtain ⟨rfl, before, after, hsplit⟩ := find_split hfind
  obtain ⟨hsubmitting, hs'⟩ := Option.ite_none_right_eq_some.mp hrest
  cases hs'
  have hgood := h.books.good c (by rw [hsplit]; simp)
  have hnot : c.held = false := by
    rw [Connection.held, hsubmitting, Bool.not_true, Bool.and_false]
  have hkept : ∀ accepted, Kept c.id accepted ((before ++ after).flatMap Connection.writerGrants)
      ((before ++ after).flatMap Connection.searchGrants) (submitted f accepted c s.limits) :=
    fun _ => submitted_kept hgood hsubmitting (h.books.balance hsplit)
  cases accepted with
  | false =>
    refine h.settle hsplit ?_
    rw [hnot]
    exact hkept false
  | true =>
    have hkept := hkept true
    have hbooks := h.books.settle hsplit hkept
    refine ⟨⟨hbooks.good, hbooks.ids, hbooks.writer, hbooks.search⟩, ?_⟩
    have hbefore := heldIds_split hsplit
    rw [hnot] at hbefore
    rw [if_pos rfl]
    change ((c.id :: (s.settle c.id _).workers) ++ (s.settle c.id _).mailbox).Perm (s.settle c.id _).heldIds
    rw [workers_settle, mailbox_settle]
    exact ((h.holders.trans hbefore).cons c.id).trans (h.books.heldIds_settle hsplit hkept).symm

/-- A worker is done, and its message is on the way. -/
theorem Inv.work (h : Inv s) {id httpStatus : Nat} {json : Bytes} {result : Status}
    (hstep : step policy s (.work id httpStatus json result) = some s') : Inv s' := by
  obtain ⟨c, hfind, hrest⟩ := Option.bind_eq_some_iff.mp hstep
  obtain ⟨rfl, before, after, hsplit⟩ := find_split hfind
  obtain ⟨hworker, hs'⟩ := Option.ite_none_right_eq_some.mp hrest
  cases hs'
  have hgood := h.books.good c (by rw [hsplit]; simp)
  have hinv := h.settle hsplit (work_kept httpStatus json result hgood (h.books.balance hsplit))
  refine ⟨⟨hinv.books.good, hinv.books.ids, hinv.books.writer, hinv.books.search⟩, ?_⟩
  have hholders := hinv.holders
  rw [workers_settle, mailbox_settle] at hholders
  refine List.Perm.trans ?_ hholders
  rw [← List.append_assoc]
  refine (List.perm_append_singleton _ _).trans ?_
  exact (List.perm_cons_erase hworker).symm.append_right s.mailbox

/-- The message is received, and the request belongs to the connection alone. -/
theorem Inv.complete (h : Inv s) {id : Nat} {f : Faults}
    (hstep : step policy s (.complete id f) = some s') : Inv s' := by
  obtain ⟨c, hfind, hrest⟩ := Option.bind_eq_some_iff.mp hstep
  obtain ⟨rfl, before, after, hsplit⟩ := find_split hfind
  obtain ⟨execution, hexecution, hrest⟩ := Option.bind_eq_some_iff.mp hrest
  obtain ⟨hmailbox, hs'⟩ := Option.ite_none_right_eq_some.mp hrest
  cases hs'
  have hgood := h.books.good c (by rw [hsplit]; simp)
  have hheld : c.held = true := h.held_of_mem hsplit (List.mem_append_right s.workers hmailbox)
  have hkept := completeExecution_kept (f := f) hgood hheld hexecution (h.books.balance hsplit)
  have hbooks := h.books.settle hsplit hkept
  refine ⟨⟨hbooks.good, hbooks.ids, hbooks.writer, hbooks.search⟩, ?_⟩
  have hbefore := heldIds_split hsplit
  rw [hheld] at hbefore
  change ((s.settle c.id _).workers ++ s.mailbox.erase c.id).Perm (s.settle c.id _).heldIds
  rw [workers_settle]
  refine List.Perm.trans (List.Perm.cons_inv (a := c.id) ?_) (h.books.heldIds_settle hsplit hkept).symm
  refine List.Perm.trans ?_ (h.holders.trans hbefore)
  exact List.perm_middle.symm.trans ((List.perm_cons_erase hmailbox).symm.append_left s.workers)

theorem Inv.step (h : Inv s) {event : Event} (hstep : Reactor.step policy s event = some s') : Inv s' := by
  cases event with
  | accept f =>
    cases hstep
    exact h.accept f
  | read id bytes f => exact h.read hstep
  | submit id accepted f => exact h.submit hstep
  | work id httpStatus json result => exact h.work hstep
  | complete id f => exact h.complete hstep
  | written id count f => exact h.written hstep
  | event id flags => exact h.event hstep

theorem Later.inv (h : Later policy s s') (hs : Inv s) : Inv s' := by
  induction h with
  | refl => exact hs
  | step _ hstep ih => exact ih.step hstep

end Steps

/-! ## Accounting -/

section Count

variable (p : Connection → Bool) (g : Connection → Grant) (l : List Connection)

theorem flatMap_grants_eq : (l.flatMap fun c => if p c = true then [g c] else []) = (l.filter p).map g := by
  induction l with
  | nil => rfl
  | cons c l ih =>
    rw [List.flatMap_cons, ih, List.filter_cons]
    split <;> rfl

end Count

theorem writerGrants_eq (l : List Connection) : l.flatMap Connection.writerGrants =
    (l.filter Connection.writerAdmitted).map fun c => (c.id, c.request.contentLength) :=
  flatMap_grants_eq _ _ l

/-- The executions that have acquired the limiter are those of searches. -/
theorem Good.searching {c : Connection} (h : Good c) :
    c.execution.any (·.limiterAcquired) = c.searching := by
  rw [Connection.searching]
  cases hexecution : c.execution with
  | none => rfl
  | some e =>
    have hacquired := h.acquired e hexecution
    rw [Option.any_some, Option.any_some, Bool.eq_iff_iff, hacquired]
    simp

theorem searchGrants_eq {l : List Connection} (h : ∀ c ∈ l, Good c) : l.flatMap Connection.searchGrants =
    (l.filter Connection.searching).map fun c => (c.id, c.request.body.length) := by
  refine (flatMap_grants_eq _ _ l).trans (congrArg _ (List.filter_congr fun c hc => ?_))
  exact (h c hc).searching

/-- **Admission accounting.**  In every state that the server reaches, the writer limiter counts the connections
whose admission is held and their announced lengths, and the search limiter counts the searches in flight and
their bodies.  What was acquired was released with the same amount, or is held still.  A connection is there or
was freed, once; a request that a worker has or posts belongs to a connection that is there, and a connection whose
socket is gone is there only for that. -/
theorem admission_accounting {policy : Policy} {maxWrites maxWriteBytes maxSearches maxSearchBytes : Nat} {s : System}
    (h : Later policy (opened ⟨.init maxWrites maxWriteBytes, .init maxSearches maxSearchBytes⟩) s) :
    (s.limits.writer.limiter.inflight = (s.connections.filter Connection.writerAdmitted).length ∧
      s.limits.writer.limiter.inflightBytes =
        ((s.connections.filter Connection.writerAdmitted).map fun c => c.request.contentLength).sum) ∧
    (s.limits.search.limiter.inflight = (s.connections.filter Connection.searching).length ∧
      s.limits.search.limiter.inflightBytes =
        ((s.connections.filter Connection.searching).map fun c => c.request.body.length).sum) ∧
    s.limits.writer.acquired.Perm (s.limits.writer.released ++
      (s.connections.filter Connection.writerAdmitted).map fun c => (c.id, c.request.contentLength)) ∧
    s.limits.search.acquired.Perm (s.limits.search.released ++
      (s.connections.filter Connection.searching).map fun c => (c.id, c.request.body.length)) ∧
    (s.connections.map Connection.id ++ s.freed).Perm (List.range s.nextId) ∧
    (∀ id ∈ s.workers ++ s.mailbox, id ∉ s.freed ∧
      ∃ c ∈ s.connections, c.id = id ∧ c.inflight = true ∧ c.execution.isSome = true) ∧
    ∀ c ∈ s.connections, c.buffered = false → c.id ∈ s.workers ++ s.mailbox := by
  have hinv : Inv s := h.inv (.opened (LimiterLedger.balanced_init _ _) (LimiterLedger.balanced_init _ _))
  have hwriter := hinv.books.writer
  have hsearch := hinv.books.search
  rw [writerGrants_eq] at hwriter
  rw [searchGrants_eq hinv.books.good] at hsearch
  have hdisjoint := (List.nodup_append.mp (hinv.books.ids.nodup_iff.mpr List.nodup_range)).2.2
  refine ⟨⟨?_, ?_⟩, ⟨?_, ?_⟩, hwriter.history, hsearch.history, hinv.books.ids, ?_, ?_⟩
  · rw [hwriter.inflight, List.length_map]
  · rw [hwriter.inflightBytes, List.map_map]
    rfl
  · rw [hsearch.inflight, List.length_map]
  · rw [hsearch.inflightBytes, List.map_map]
    rfl
  · intro id hid
    obtain ⟨c, hc, rfl, hheld⟩ := hinv.exists_held hid
    rw [Connection.held, Bool.and_eq_true] at hheld
    refine ⟨fun hfreed => hdisjoint c.id (List.mem_map_of_mem hc) c.id hfreed rfl, c, hc, rfl, hheld.1, ?_⟩
    rw [← (hinv.books.good c hc).execution]
    exact hheld.1
  · intro c hc hgone
    obtain ⟨hinflight, hsubmitting⟩ := (hinv.books.good c hc).gone hgone
    refine hinv.holders.symm.subset ?_
    rw [System.heldIds, List.mem_map]
    refine ⟨c, List.mem_filter.mpr ⟨hc, ?_⟩, rfl⟩
    rw [Connection.held, hinflight, hsubmitting]
    rfl

/-- Events one after the other. -/
def runEvents (policy : Policy) (s : System) (events : List Event) : Option System :=
  events.foldlM (fun s event => step policy s event) s

theorem Later.runEvents {policy : Policy} {s s' s'' : System} {events : List Event} (h : Later policy s s')
    (hrun : Reactor.runEvents policy s' events = some s'') : Later policy s s'' := by
  induction events generalizing s' with
  | nil =>
    cases hrun
    exact h
  | cons event events ih =>
    rw [Reactor.runEvents, List.foldlM_cons] at hrun
    obtain ⟨s₁, hstep, hrest⟩ := Option.bind_eq_some_iff.mp hrun
    exact ih (.step h hstep) hrest

def samplePolicy : Policy := ⟨64 * 1024 * 1024, []⟩

def sampleIngest : Bytes :=
  ascii "POST /v2/documents:batch HTTP/1.1\r\nHost: a\r\nContent-Type: application/json\r\nContent-Length: 2\r\n\r\n[]"

/-- The socket of an update fails while a worker has it. -/
def sampleEvents : List Event :=
  [.accept noFaults, .read 0 sampleIngest noFaults, .submit 0 true noFaults, .event 0 ⟨false, true, false⟩,
    .work 0 200 [] .ok, .complete 0 noFaults]

theorem admission_accounting_sample : ∃ s : System,
    Later samplePolicy (opened ⟨.init 1 64, .init 1 64⟩) s ∧ s.limits.writer.acquired = [(0, 2)] ∧
      s.limits.writer.limiter.inflight = 0 ∧ s.limits.writer.acquired.Perm s.limits.writer.released ∧
      s.freed = [0] := by
  cases hrun : runEvents samplePolicy (opened ⟨.init 1 64, .init 1 64⟩) sampleEvents with
  | none =>
    have hsome : (runEvents samplePolicy (opened ⟨.init 1 64, .init 1 64⟩) sampleEvents).isSome = true := by
      decide +kernel
    rw [hrun] at hsome
    cases hsome
  | some s =>
    have hends : (runEvents samplePolicy (opened ⟨.init 1 64, .init 1 64⟩) sampleEvents).map
        (fun s => (s.connections, s.limits.writer.acquired, s.freed)) = some ([], [(0, 2)], [0]) := by
      decide +kernel
    rw [hrun, Option.map_some, Option.some.injEq, Prod.mk.injEq, Prod.mk.injEq] at hends
    have hlater : Later samplePolicy (opened ⟨.init 1 64, .init 1 64⟩) s := Later.refl.runEvents hrun
    obtain ⟨⟨hinflight, -⟩, -, hhistory, -⟩ := admission_accounting hlater
    rw [hends.1] at hinflight hhistory
    exact ⟨s, hlater, hends.2.1, hinflight, by simpa using hhistory, hends.2.2⟩

end Reactor
end Yappod

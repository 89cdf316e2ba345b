import Yappod.Server.Reactor

/-!
# Requests on a kept connection

What a client sends is cut into requests by `nextRequest`: a head up to the first empty line, and as many bytes of
body as it announces.  A connection takes one request at a time.  `read_callback` runs when bytes arrive, and not
when the response to a request has been written; a request that came together with the one before it stays in the
buffer until the client sends more (`request_left_behind`).

If every read brings the end of one request at most that is not processed yet (`Paced`), the connection processes
the requests of the stream, however it arrives (`paced_framing`).
-/

set_option autoImplicit false

namespace Yappod
namespace Reactor

/-! ## The requests of a stream -/

/-- What stands at the start of a stream. -/
inductive Framing
  | incomplete
  /-- Nothing that can be answered with anything but a refusal and the end of the connection. -/
  | fatal
  | request (r : CoreHttpRequest) (rest : Bytes)
  deriving DecidableEq

/-- The bytes of body that a head announces. -/
def announced (request : CoreHttpRequest) : Nat :=
  if request.haveContentLength = true then request.contentLength else 0

/-- The body behind a head. -/
def frameBody (request : CoreHttpRequest) (bs : Bytes) : Framing :=
  if bs.length < announced request then .incomplete
  else .request { request with body := bs.take (announced request) } (bs.drop (announced request))

/-- The first request of a stream. -/
def nextRequest (policy : Policy) (bs : Bytes) : Framing :=
  match findDelimiter bs with
  | none => if maxHeaderBytes ≤ bs.length then .fatal else .incomplete
  | some position =>
    if maxHeaderBytes < position + 4 then .fatal
    else match parseHead (bs.take (position + 4)) with
      | .error _ => .fatal
      | .ok request =>
        if bodyLimit policy request.target < announced request then .fatal
        else frameBody request (bs.drop (position + 4))

/-- The requests of a stream, up to the first that closes the connection. -/
def requestsFrom (policy : Policy) : Nat → Bytes → List CoreHttpRequest
  | 0, _ => []
  | fuel + 1, bs =>
    match nextRequest policy bs with
    | .request r rest => r :: if r.closeConnection = true then [] else requestsFrom policy fuel rest
    | _ => []

def requestsOf (policy : Policy) (bs : Bytes) : List CoreHttpRequest := requestsFrom policy (bs.length + 1) bs

/-! ## Delimiters -/

theorem findDelimiter_eq_some {bs : Bytes} {p : Nat} : findDelimiter bs = some p ↔
    (bs.drop p).take 4 = [13, 10, 13, 10] ∧ ∀ q < p, (bs.drop q).take 4 ≠ [13, 10, 13, 10] := by
  induction bs generalizing p with
  | nil =>
    rw [findDelimiter]
    refine ⟨fun h => (nomatch h), fun h => ?_⟩
    simp at h
  | cons b bs ih =>
    rw [findDelimiter]
    split
    · rename_i hhere
      cases p with
      | zero => exact ⟨fun _ => ⟨hhere, fun q hq => absurd hq (Nat.not_lt_zero q)⟩, fun _ => rfl⟩
      | succ p =>
        refine ⟨fun h => (nomatch h), fun h => ?_⟩
        exact absurd hhere (h.2 0 (Nat.succ_pos p))
    · rename_i hhere
      cases p with
      | zero =>
        refine ⟨fun h => ?_, fun h => absurd h.1 hhere⟩
        obtain ⟨q, -, hq⟩ := Option.map_eq_some_iff.mp h
        cases hq
      | succ p =>
        rw [Option.map_eq_some_iff]
        constructor
        · rintro ⟨q, hq, heq⟩
          cases heq
          obtain ⟨hfound, hbefore⟩ := ih.mp hq
          refine ⟨hfound, fun q hq => ?_⟩
          cases q with
          | zero => exact hhere
          | succ q => exact hbefore q (Nat.lt_of_succ_lt_succ hq)
        · rintro ⟨hfound, hbefore⟩
          exact ⟨p, ih.mpr ⟨hfound, fun q hq => hbefore (q + 1) (Nat.succ_lt_succ hq)⟩, rfl⟩

theorem findDelimiter_le {bs : Bytes} {p : Nat} (h : findDelimiter bs = some p) : p + 4 ≤ bs.length := by
  have hlength := congrArg List.length (findDelimiter_eq_some.mp h).1
  rw [List.length_take, List.length_drop] at hlength
  change min 4 (bs.length - p) = 4 at hlength
  omega

/-- A window that lies within the bytes does not change with what follows. -/
theorem window_append {bs : Bytes} (more : Bytes) {q : Nat} (h : q + 4 ≤ bs.length) :
    ((bs ++ more).drop q).take 4 = (bs.drop q).take 4 := by
  rw [List.drop_append_of_le_length (by omega), List.take_append_of_le_length]
  rw [List.length_drop]
  omega

theorem findDelimiter_append {bs : Bytes} {p : Nat} (h : findDelimiter bs = some p) (more : Bytes) :
    findDelimiter (bs ++ more) = some p := by
  have hle := findDelimiter_le h
  rw [findDelimiter_eq_some] at h ⊢
  rw [window_append more hle]
  refine ⟨h.1, fun q hq => ?_⟩
  rw [window_append more (by omega)]
  exact h.2 q hq

/-- A delimiter that comes with more bytes ends in them. -/
theorem length_lt_of_findDelimiter {bs more : Bytes} {p : Nat} (hnone : findDelimiter bs = none)
    (h : findDelimiter (bs ++ more) = some p) : bs.length < p + 4 := by
  by_contra hle
  rw [Nat.not_lt] at hle
  rw [findDelimiter_eq_some, window_append more hle] at h
  have : findDelimiter bs = some p := by
    rw [findDelimiter_eq_some]
    refine ⟨h.1, fun q hq => ?_⟩
    rw [← window_append more (by omega)]
    exact h.2 q hq
  rw [hnone] at this
  cases this

/-! ## Requests with more bytes behind them -/

section Append

variable {policy : Policy} {bs rest : Bytes} {r request : CoreHttpRequest}

theorem frameBody_append (h : frameBody request bs = .request r rest) (more : Bytes) :
    frameBody request (bs ++ more) = .request r (rest ++ more) := by
  rw [frameBody] at h
  split at h
  · cases h
  rename_i hlength
  rw [Nat.not_lt] at hlength
  cases h
  rw [frameBody, if_neg, List.take_append_of_le_length hlength, List.drop_append_of_le_length hlength]
  rw [List.length_append]
  omega

/-- A head at the start of a stream. -/
structure IsFirstHead (policy : Policy) (head : Bytes) (request : CoreHttpRequest) : Prop where
  position : findDelimiter head = some (head.length - 4)
  length : 4 ≤ head.length
  bounded : head.length ≤ maxHeaderBytes
  parsed : parseHead head = .ok request
  limit : announced request ≤ bodyLimit policy request.target

/-- Behind a head comes its body. -/
theorem IsFirstHead.nextRequest {head : Bytes} (h : IsFirstHead policy head request) (bs : Bytes) :
    nextRequest policy (head ++ bs) = frameBody request bs := by
  have hlength := h.length
  have hposition : head.length - 4 + 4 = head.length := by omega
  rw [Reactor.nextRequest, findDelimiter_append h.position]
  simp only [hposition, List.take_left, List.drop_left, h.parsed, if_neg (Nat.not_lt.mpr h.bounded),
    if_neg (Nat.not_lt.mpr h.limit)]

/-- The ways in which a stream can begin. -/
theorem nextRequest_cases (policy : Policy) (bs : Bytes) :
    (nextRequest policy bs = .incomplete ∧ findDelimiter bs = none ∧ bs.length < maxHeaderBytes) ∨
    (∀ more, nextRequest policy (bs ++ more) = .fatal) ∨
    ∃ head rest request, bs = head ++ rest ∧ IsFirstHead policy head request := by
  cases hfind : findDelimiter bs with
  | none =>
    by_cases hlong : maxHeaderBytes ≤ bs.length
    · refine .inr (.inl fun more => ?_)
      rw [nextRequest]
      cases hmore : findDelimiter (bs ++ more) with
      | none =>
        rw [List.length_append]
        exact if_pos (by omega)
      | some p =>
        have := length_lt_of_findDelimiter hfind hmore
        exact if_pos (by omega)
    · refine .inl ⟨?_, rfl, Nat.not_le.mp hlong⟩
      rw [nextRequest, hfind]
      exact if_neg hlong
  | some p =>
    have hle := findDelimiter_le hfind
    have htake : ∀ more, (bs ++ more).take (p + 4) = bs.take (p + 4) :=
      fun more => List.take_append_of_le_length hle
    by_cases hlong : maxHeaderBytes < p + 4
    · refine .inr (.inl fun more => ?_)
      rw [nextRequest, findDelimiter_append hfind]
      exact if_pos hlong
    cases hparse : parseHead (bs.take (p + 4)) with
    | error e =>
      refine .inr (.inl fun more => ?_)
      rw [nextRequest, findDelimiter_append hfind]
      simp only [if_neg hlong, htake, hparse]
    | ok request =>
      by_cases hlimit : bodyLimit policy request.target < announced request
      · refine .inr (.inl fun more => ?_)
        rw [nextRequest, findDelimiter_append hfind]
        simp only [if_neg hlong, htake, hparse, if_pos hlimit]
      · have hhead : (bs.take (p + 4)).length = p + 4 := by
          rw [List.length_take]
          omega
        refine .inr (.inr ⟨bs.take (p + 4), bs.drop (p + 4), request, (List.take_append_drop _ bs).symm, ?_⟩)
        refine ⟨?_, by omega, by omega, hparse, Nat.not_lt.mp hlimit⟩
        rw [hhead, Nat.add_sub_cancel, findDelimiter_eq_some]
        rw [findDelimiter_eq_some] at hfind
        have hwindow : ∀ q, q + 4 ≤ p + 4 → ((bs.take (p + 4)).drop q).take 4 = (bs.drop q).take 4 := by
          intro q hq
          have := @window_append (bs.take (p + 4)) (bs.drop (p + 4)) q (by omega)
          rw [List.take_append_drop] at this
          exact this.symm
        refine ⟨(hwindow p (Nat.le_refl _)).trans hfind.1, fun q hq => ?_⟩
        rw [hwindow q (by omega)]
        exact hfind.2 q hq

/-- A complete request stays what it is when more bytes come. -/
theorem nextRequest_append (h : nextRequest policy bs = .request r rest) (more : Bytes) :
    nextRequest policy (bs ++ more) = .request r (rest ++ more) := by
  rcases nextRequest_cases policy bs with ⟨hincomplete, -⟩ | hfatal | ⟨head, tail, request, rfl, hhead⟩
  · rw [h] at hincomplete
    cases hincomplete
  · have := hfatal []
    rw [List.append_nil, h] at this
    cases this
  · rw [hhead.nextRequest] at h
    rw [List.append_assoc, hhead.nextRequest]
    exact frameBody_append h more

theorem nextRequest_length (h : nextRequest policy bs = .request r rest) : rest.length < bs.length := by
  rcases nextRequest_cases policy bs with ⟨hincomplete, -⟩ | hfatal | ⟨head, tail, request, rfl, hhead⟩
  · rw [h] at hincomplete
    cases hincomplete
  · have := hfatal []
    rw [List.append_nil, h] at this
    cases this
  · rw [hhead.nextRequest, frameBody] at h
    split at h
    · cases h
    · cases h
      have := hhead.length
      rw [List.length_append, List.length_drop]
      omega

theorem requestsFrom_fuel {m n : Nat} (hm : bs.length < m) (hn : bs.length < n) :
    requestsFrom policy m bs = requestsFrom policy n bs := by
  induction m generalizing n bs with
  | zero => exact absurd hm (Nat.not_lt_zero _)
  | succ m ih =>
    cases n with
    | zero => exact absurd hn (Nat.not_lt_zero _)
    | succ n =>
      rw [requestsFrom, requestsFrom]
      split
      · rename_i r rest hnext
        have hless := nextRequest_length hnext
        rw [@ih rest n (by omega) (by omega)]
      · rfl

theorem requestsOf_request (h : nextRequest policy bs = .request r rest) :
    requestsOf policy bs = r :: if r.closeConnection = true then [] else requestsOf policy rest := by
  have hless := nextRequest_length h
  rw [requestsOf, requestsFrom, h]
  simp only [requestsOf]
  have hfuel : requestsFrom policy bs.length rest = requestsFrom policy (rest.length + 1) rest :=
    requestsFrom_fuel (by omega) (by omega)
  rw [hfuel]

/-- No request is complete at the start of the stream. -/
def NoRequest (policy : Policy) (bs : Bytes) : Prop := ∀ r rest, nextRequest policy bs ≠ .request r rest

theorem requestsOf_eq_nil : requestsOf policy bs = [] ↔ NoRequest policy bs := by
  constructor
  · intro h r rest hnext
    rw [requestsOf_request hnext] at h
    cases h
  · intro h
    rw [requestsOf, requestsFrom]
    split
    · rename_i r rest hnext
      exact absurd hnext (h r rest)
    · rfl

theorem noRequest_of_fatal (h : ∀ more, nextRequest policy (bs ++ more) = .fatal) (more : Bytes) :
    NoRequest policy (bs ++ more) := by
  intro r rest hnext
  rw [h more] at hnext
  cases hnext

end Append

/-! ## Sessions -/

/-- A connection, or nothing once it is closed, with what was read on it and the requests that it submitted. -/
structure Session where
  connection : Option Connection
  received : Bytes
  processed : List CoreHttpRequest
  deriving DecidableEq

/-- What happens to one connection.  The limiters are used by others too and may be in any state. -/
inductive Turn
  | read (bytes : Bytes) (l : Limits)
  | submit (accepted : Bool) (l : Limits)
  | work (httpStatus : Nat) (json : Bytes)
  | complete (l : Limits)
  | written (count : Nat) (l : Limits)

/-- The request that is submitted. -/
def Reading.submits : Reading → List CoreHttpRequest
  | .ready c => [c.request]
  | _ => []

def Reading.refused : Reading → Bool
  | .overloaded _ => true
  | _ => false

/-- A step of a session.  Nothing fails, the writer limiter refuses nothing, and a worker has a result that fits
into a response. -/
def Session.turn (policy : Policy) (s : Session) (t : Turn) : Option Session := do
  let c ← s.connection
  match t with
  | .read bytes l =>
    let c := { c with input := c.input ++ bytes }
    let reading := readRequest policy noFaults c l
    if c.listens = true ∧ c.readEnabled = true ∧ bytes ≠ [] ∧ reading.1.refused = false then
      some ⟨(finishReading policy noFaults reading.2 reading.1).1, s.received ++ bytes,
        s.processed ++ reading.1.submits⟩
    else none
  | .submit accepted l =>
    if c.submitting = true then some { s with connection := (submitted noFaults accepted c l).1 } else none
  | .work httpStatus json =>
    if c.inflight = true ∧ c.submitting = false ∧ json.length ≤ maxResponseBytes then
      some { s with connection := some { c with
        execution := c.execution.map fun e => { e with httpStatus, json, result := .ok } } }
    else none
  | .complete l => do
    let execution ← c.execution
    if c.inflight = true ∧ c.submitting = false ∧ execution.result = .ok ∧
        execution.json.length ≤ maxResponseBytes then
      some { s with connection := (completeExecution noFaults execution c l).1 }
    else none
  | .written count l =>
    if c.listens = true then
      some { s with connection := (writeCallback noFaults { c with output := c.output.drop count } l).1 }
    else none

/-- The session of a new connection. -/
def Session.start (id : Nat) : Session := ⟨some (newConnection id), [], []⟩

/-- The sessions after turns of a kind. -/
inductive Runs (policy : Policy) (allowed : Session → Turn → Prop) (s : Session) : Session → Prop
  | refl : Runs policy allowed s s
  | turn {s' s'' : Session} {t : Turn} : Runs policy allowed s s' → allowed s' t →
      s'.turn policy t = some s'' → Runs policy allowed s s''

/-- No read brings the end of a second request that is not processed yet. -/
def Paced (policy : Policy) (s : Session) : Turn → Prop
  | .read bytes _ => (requestsOf policy (s.received ++ bytes)).length ≤ s.processed.length + 1
  | _ => True

/-- Nothing in flight and no response under way: the connection waits for the client. -/
def Connection.waiting (c : Connection) : Bool := !c.inflight && !c.responsePending

/-- A request in the buffer, of which the head may have been taken out before. -/
def HasRequest (policy : Policy) (c : Connection) : Prop :=
  if c.requestHeadParsed = true then announced c.request ≤ c.input.length
  else ¬ NoRequest policy c.input

/-! ## What the callbacks do to a connection -/

/-- A connection with its socket. -/
structure Open (c : Connection) : Prop where
  buffered : c.buffered = true
  abandoned : c.abandoned = false
  reading : c.readEnabled = true → c.waiting = true
  submitting : c.submitting = true → c.inflight = true
  pending : c.responsePending = true → c.inflight = false

/-- The connection has a request or a response to deal with, and nothing else is different. -/
structure Busy (c : Connection) (r : Option Connection) : Prop where
  exists_some : ∃ c', r = some c' ∧ Open c' ∧ c'.waiting = false ∧ c'.input = c.input ∧
    c'.closeAfterResponse = c.closeAfterResponse

section Callbacks

variable {policy : Policy} {c : Connection} {l : Limits}

theorem waiting_iff : c.waiting = true ↔ c.inflight = false ∧ c.responsePending = false := by
  rw [Connection.waiting, Bool.and_eq_true, Bool.not_eq_true', Bool.not_eq_true']

theorem writeResponse_busy {status : Nat} {allow : Option Bytes} {acceptQuery : Bool} {body : Bytes} (hc : Open c)
    (hinflight : c.inflight = false) (hbody : body.length ≤ maxResponseBytes) :
    Busy c (writeResponse noFaults c status allow acceptQuery body) := by
  have hfails : ¬ (c.buffered = false ∨ maxResponseBytes < body.length ∨ noFaults.response = true) := by
    rw [hc.buffered]
    simp [noFaults, hbody]
  rw [writeResponse, if_neg hfails]
  refine ⟨_, rfl, ⟨hc.buffered, hc.abandoned, fun hread => (nomatch hread), hc.submitting, fun _ => hinflight⟩, ?_,
    rfl, rfl⟩
  rw [Connection.waiting, Bool.not_true, Bool.and_false]

theorem respondError_busy {status : Nat} {code message : String} {allow : Option Bytes} {acceptQuery : Bool}
    (hc : Open c) (hinflight : c.inflight = false)
    (hbody : (errorJson (ascii code) (ascii message)).length ≤ maxResponseBytes) :
    Busy c (respondError noFaults c l status code message allow acceptQuery).1 := by
  have hwrite : Busy c (writeResponse noFaults c status allow acceptQuery
      (errorJson (ascii code) (ascii message))) := writeResponse_busy hc hinflight hbody
  obtain ⟨c', hsome, hrest⟩ := hwrite.exists_some
  rw [respondError, hsome]
  exact ⟨c', rfl, hrest⟩

theorem prepareExecution_busy (hc : Open c) (hwaiting : c.waiting = true) : Busy c (prepareExecution policy noFaults c l).1 := by
  have hsubmits : ∀ execution, Open { c with
      execution := execution, inflight := true, readEnabled := false, submitting := true } :=
    fun _ => ⟨hc.buffered, hc.abandoned, fun hread => (nomatch hread), fun _ => rfl,
      fun hpending => absurd hpending (by rw [(waiting_iff.mp hwaiting).2]; decide)⟩
  have hinflight := (waiting_iff.mp hwaiting).1
  rw [prepareExecution]
  split
  · exact respondError_busy hc hinflight (by decide)
  split
  · exact respondError_busy hc hinflight (by decide)
  split
  · split
    · exact respondError_busy hc hinflight (by decide)
    · exact ⟨_, rfl, hsubmits _, rfl, rfl, rfl⟩
  · exact ⟨_, rfl, hsubmits _, rfl, rfl, rfl⟩

theorem submitRequest_busy (hc : Open c) (hwaiting : c.waiting = true) :
    Busy c (submitRequest policy noFaults c l).1 := by
  have hinflight := (waiting_iff.mp hwaiting).1
  rw [submitRequest]
  split
  · exact respondError_busy hc hinflight (by decide)
  split
  · exact respondError_busy hc hinflight (by decide)
  split
  · split
    · exact respondError_busy hc hinflight (by decide)
    · exact prepareExecution_busy hc hwaiting
  split
  · exact respondError_busy hc hinflight (by decide)
  split
  · exact respondError_busy hc hinflight (by decide)
  · exact prepareExecution_busy hc hwaiting

theorem submitted_busy {accepted : Bool} (hc : Open c) (hsubmitting : c.submitting = true) :
    Busy c (submitted noFaults accepted c l).1 := by
  rw [submitted]
  cases accepted with
  | true =>
    refine ⟨_, rfl, ⟨hc.buffered, hc.abandoned, hc.reading, fun hsub => (nomatch hsub), hc.pending⟩, ?_, rfl, rfl⟩
    rw [Connection.waiting, hc.submitting hsubmitting, Bool.not_true, Bool.false_and]
  | false =>
    have hopen : Open { c with execution := none, inflight := false, submitting := false } := by
      refine ⟨hc.buffered, hc.abandoned, fun hread => ?_, fun hsub => (nomatch hsub), fun _ => rfl⟩
      have hwaiting := hc.reading hread
      rw [Connection.waiting, hc.submitting hsubmitting] at hwaiting
      cases hwaiting
    have hrespond : ∀ l', Busy { c with execution := none, inflight := false, submitting := false }
        (respondError noFaults { c with execution := none, inflight := false, submitting := false } l' 503
          "overloaded" "Service Unavailable" none false).1 :=
      fun _ => respondError_busy hopen rfl (by decide)
    obtain ⟨c', hsome, hrest⟩ := (hrespond _).exists_some
    exact ⟨c', hsome, hrest⟩

theorem completeExecution_busy {execution : Execution} (hc : Open c) (hinflight : c.inflight = true)
    (hsubmitting : c.submitting = false) (hresult : execution.result = .ok)
    (hjson : execution.json.length ≤ maxResponseBytes) :
    Busy c (completeExecution noFaults execution c l).1 := by
  have hopen : Open { c with execution := none, inflight := false } := by
    refine ⟨hc.buffered, hc.abandoned, fun hread => ?_, fun hsub => ?_, fun _ => rfl⟩
    · have hwaiting := hc.reading hread
      rw [Connection.waiting, hinflight] at hwaiting
      cases hwaiting
    · exact absurd hsub (by rw [hsubmitting]; decide)
  have hlive : ¬ (c.abandoned = true ∨ c.buffered = false) := by
    rw [hc.abandoned, hc.buffered]
    decide
  have hwrite : Busy _ (writeResponse noFaults _ execution.httpStatus none (isQueryTarget c.request.target)
      execution.json) := writeResponse_busy hopen rfl hjson
  obtain ⟨c', hsome, hrest⟩ := hwrite.exists_some
  rw [completeExecution]
  simp only [if_neg hlive, if_neg (not_not.mpr hresult), hsome]
  exact ⟨c', rfl, hrest⟩

/-- A body of no bytes. -/
theorem take_no_body (hbody : c.request.body = []) {n : Nat} (hn : n = 0) :
    { c with input := c.input.drop n, request := { c.request with body := c.input.take n } } = c := by
  rw [hn, List.take_zero, List.drop_zero, ← hbody]

/-- What `readBody` makes of the bytes behind a head. -/
theorem readBody_eq (hbody : c.request.body = []) :
    (c.input.length < announced c.request ∧ readBody noFaults c = .waits c) ∨
    (announced c.request ≤ c.input.length ∧ readBody noFaults c = .ready { c with
      input := c.input.drop (announced c.request)
      request := { c.request with body := c.input.take (announced c.request) } }) := by
  rw [readBody, announced]
  cases hhave : c.request.haveContentLength with
  | false =>
    refine .inr ⟨Nat.zero_le _, ?_⟩
    simp only [Bool.false_eq_true, false_and, if_false]
    rw [take_no_body hbody rfl]
  | true =>
    simp only [true_and, if_true]
    by_cases hshort : c.input.length < c.request.contentLength
    · exact .inl ⟨hshort, if_pos hshort⟩
    · refine .inr ⟨Nat.not_lt.mp hshort, ?_⟩
      rw [if_neg hshort]
      by_cases hzero : c.request.contentLength = 0
      · rw [take_no_body hbody hzero, if_neg (not_not.mpr hzero)]
      · rw [if_pos hzero]
        rfl

/-- A head with the rest of the buffer behind it. -/
theorem readRequest_of_head {head : Bytes} {rest : Bytes} {request : CoreHttpRequest}
    (hparsed : c.requestHeadParsed = false) (hinput : c.input = head ++ rest)
    (hhead : IsFirstHead policy head request)
    (hrefused : (readRequest policy noFaults c l).1.refused = false) :
    ∃ admitted, (readRequest policy noFaults c l).1 = readBody noFaults { c with
      input := rest
      request := request
      requestHeadParsed := true
      closeAfterResponse := request.closeConnection
      writerAdmitted := admitted } := by
  have hlength := hhead.length
  have hposition : head.length - 4 + 4 = head.length := by omega
  have hread : readRequest policy noFaults c l = admitBody policy noFaults { c with
      input := rest
      request := request
      requestHeadParsed := true
      closeAfterResponse := request.closeConnection } l := by
    rw [readRequest, if_neg (by rw [hparsed]; decide), hinput, findDelimiter_append hhead.position]
    simp only [hposition, List.take_left, List.drop_left, hhead.parsed, if_neg (Nat.not_lt.mpr hhead.bounded)]
    rfl
  have hlimit := hhead.limit
  rw [announced] at hlimit
  rw [hread] at hrefused ⊢
  rw [admitBody] at hrefused ⊢
  by_cases hhave : request.haveContentLength = true
  · rw [if_pos hhave] at hlimit
    rw [if_pos hhave, if_neg (Nat.not_lt.mpr hlimit)] at hrefused ⊢
    by_cases htarget : request.target = ascii "/v2/documents:batch" ∧ request.contentLength ≠ 0
    · rw [if_pos htarget] at hrefused ⊢
      cases hacquire : l.writer.acquire (c.id, request.contentLength) with
      | none =>
        simp only [hacquire] at hrefused
        cases hrefused
      | some writer => exact ⟨true, rfl⟩
    · rw [if_neg htarget]
      exact ⟨c.writerAdmitted, rfl⟩
  · rw [if_neg hhave]
    exact ⟨c.writerAdmitted, rfl⟩

/-- A refusal after which the connection is closed. -/
structure Refuses (reading : Reading) : Prop where
  exists_fatal : ∃ d status code message, reading = .fatal d status code message ∧ Open d ∧ d.inflight = false ∧
    (errorJson (ascii code) (ascii message)).length ≤ maxResponseBytes

theorem readRequest_of_fatal (hc : Open c) (hinflight : c.inflight = false) (hparsed : c.requestHeadParsed = false)
    (h : nextRequest policy c.input = .fatal) : Refuses (readRequest policy noFaults c l).1 := by
  have hunparsed : ¬ c.requestHeadParsed = true := by
    rw [hparsed]
    decide
  rw [readRequest, if_neg hunparsed]
  rw [nextRequest] at h
  cases hfind : findDelimiter c.input with
  | none =>
    simp only [hfind] at h ⊢
    split at h
    · rename_i hlong
      rw [if_pos hlong]
      exact ⟨c, 413, "header_too_large", "Content Too Large", rfl, hc, hinflight, by decide⟩
    · cases h
  | some p =>
    simp only [hfind] at h ⊢
    by_cases hlong : maxHeaderBytes < p + 4
    · rw [if_pos hlong]
      exact ⟨c, 413, "header_too_large", "Content Too Large", rfl, hc, hinflight, by decide⟩
    rw [if_neg hlong] at h ⊢
    cases hparse : parseHead (c.input.take (p + 4)) with
    | error e =>
      exact ⟨_, 400, "invalid_request", "Bad Request", rfl,
        ⟨hc.buffered, hc.abandoned, hc.reading, hc.submitting, hc.pending⟩, hinflight, by decide⟩
    | ok request =>
      simp only [hparse] at h
      split at h
      · rename_i hlimit
        have hhave : request.haveContentLength = true := by
          by_contra hno
          rw [announced, if_neg hno] at hlimit
          exact absurd hlimit (Nat.not_lt_zero _)
        rw [announced, if_pos hhave] at hlimit
        have hfatal : admitBody policy noFaults { c with
            input := c.input.drop (p + 4)
            request := request
            requestHeadParsed := true
            closeAfterResponse := request.closeConnection } l = (.fatal { c with
            input := c.input.drop (p + 4)
            request := request
            requestHeadParsed := true
            closeAfterResponse := request.closeConnection } 413 "body_too_large" "Content Too Large", l) := by
          rw [admitBody, if_pos hhave, if_pos hlimit]
        refine ⟨_, _, _, _, congrArg Prod.fst hfatal, ⟨hc.buffered, hc.abandoned, hc.reading, hc.submitting, hc.pending⟩,
          hinflight, ?_⟩
        decide
      · rw [frameBody] at h
        split at h
        · cases h
        · cases h

theorem readRequest_of_none (hparsed : c.requestHeadParsed = false) (hfind : findDelimiter c.input = none)
    (hshort : c.input.length < maxHeaderBytes) : readRequest policy noFaults c l = (.waits c, l) := by
  have hunparsed : ¬ c.requestHeadParsed = true := by
    rw [hparsed]
    decide
  rw [readRequest, if_neg hunparsed, hfind]
  exact if_neg (Nat.not_le.mpr hshort)

end Callbacks

/-! ## The state of a session -/

/-- What is to be processed is what was processed and the requests in the rest. -/
def Session.follows (policy : Policy) (s : Session) (rest : Bytes) : Prop :=
  ∀ more, requestsOf policy (s.received ++ more) = s.processed ++ requestsOf policy (rest ++ more)

/-- Everything that is to be processed was processed. -/
def Session.finished (policy : Policy) (s : Session) : Prop :=
  ∀ more, requestsOf policy (s.received ++ more) = s.processed

/-- Where a session is: closed; with a request or a response to deal with; waiting for a head; or waiting for
the body behind a head. -/
inductive State (policy : Policy) (s : Session) : Prop
  | closed (connection : s.connection = none) (finished : s.finished policy)
  | busy (c : Connection) (connection : s.connection = some c) (opened : Open c) (waiting : c.waiting = false)
      (closes : c.closeAfterResponse = true → s.finished policy)
      (stays : c.closeAfterResponse = false → s.follows policy c.input ∧ NoRequest policy c.input)
  | head (c : Connection) (connection : s.connection = some c) (opened : Open c) (waiting : c.waiting = true)
      (unparsed : c.requestHeadParsed = false) (follows : s.follows policy c.input)
      (noRequest : NoRequest policy c.input)
  | body (c : Connection) (head : Bytes) (connection : s.connection = some c) (opened : Open c)
      (waiting : c.waiting = true) (parsed : c.requestHeadParsed = true)
      (isHead : IsFirstHead policy head c.request) (close : c.closeAfterResponse = c.request.closeConnection)
      (follows : s.follows policy (head ++ c.input)) (short : c.input.length < announced c.request)

theorem State.start (policy : Policy) (id : Nat) : State policy (Session.start id) :=
  .head (newConnection id) rfl ⟨rfl, rfl, fun _ => rfl, fun h => (nomatch h), fun _ => rfl⟩ rfl rfl (fun _ => rfl)
    fun _ _ h => (nomatch h)

section Turns

variable {policy : Policy} {s : Session} {c : Connection} {l : Limits}

/-- The bytes behind a head have arrived. -/
theorem State.of_readBody {head bytes : Bytes} (hc : Open c) (hwaiting : c.waiting = true)
    (hparsed : c.requestHeadParsed = true) (hhead : IsFirstHead policy head c.request)
    (hclose : c.closeAfterResponse = c.request.closeConnection)
    (hfollows : ∀ more, requestsOf policy (s.received ++ bytes ++ more) =
      s.processed ++ requestsOf policy (head ++ c.input ++ more))
    (hpaced : (requestsOf policy (s.received ++ bytes)).length ≤ s.processed.length + 1) :
    State policy ⟨(finishReading policy noFaults l (readBody noFaults c)).1, s.received ++ bytes,
      s.processed ++ (readBody noFaults c).submits⟩ := by
  have hbody : c.request.body = [] := by
    obtain ⟨-, -, _, _, _, _, _, _, -, -, -, -, -, -, -, -, hrecord⟩ := parseHead_eq_ok hhead.parsed
    rw [hrecord]
    rfl
  rcases readBody_eq hbody with ⟨hshort, hread⟩ | ⟨hlong, hread⟩
  · rw [hread]
    refine .body c head rfl hc hwaiting hparsed hhead hclose ?_ hshort
    intro more
    change requestsOf policy (s.received ++ bytes ++ more) = (s.processed ++ []) ++ _
    rw [List.append_nil]
    exact hfollows more
  · have hnext : nextRequest policy (head ++ c.input) =
        .request { c.request with body := c.input.take (announced c.request) } (c.input.drop (announced c.request)) := by
      rw [hhead.nextRequest, frameBody, if_neg (Nat.not_lt.mpr hlong)]
    have hrequests : ∀ more, requestsOf policy (s.received ++ bytes ++ more) = s.processed ++
        { c.request with body := c.input.take (announced c.request) } ::
          if c.closeAfterResponse = true then []
          else requestsOf policy (c.input.drop (announced c.request) ++ more) := by
      intro more
      rw [hfollows, requestsOf_request (nextRequest_append hnext more), hclose]
    have hopen : Open { c with
        input := c.input.drop (announced c.request)
        request := { c.request with body := c.input.take (announced c.request) } } :=
      ⟨hc.buffered, hc.abandoned, hc.reading, hc.submitting, hc.pending⟩
    have hbusy : Busy _ (submitRequest policy noFaults _ l).1 := submitRequest_busy hopen hwaiting
    obtain ⟨c', hsome, hopen', hwaiting', hinput', hclose'⟩ := hbusy.exists_some
    rw [hread]
    refine .busy c' hsome hopen' hwaiting' (fun hcloses more => ?_) (fun hstays => ⟨fun more => ?_, ?_⟩)
    · rw [hclose'] at hcloses
      change requestsOf policy (s.received ++ bytes ++ more) = s.processed ++ [_]
      rw [hrequests, if_pos hcloses]
    · rw [hclose'] at hstays
      change requestsOf policy (s.received ++ bytes ++ more) = (s.processed ++ [_]) ++ _
      rw [hrequests, if_neg (by rw [hstays]; decide), List.append_assoc, hinput']
      rfl
    · -- the pace leaves no room for another request behind this one
      rw [hclose'] at hstays
      have hlength := hrequests []
      rw [List.append_nil, List.append_nil, if_neg (by rw [hstays]; decide)] at hlength
      rw [hlength, List.length_append, List.length_cons] at hpaced
      rw [hinput']
      change NoRequest policy (c.input.drop (announced c.request))
      rw [← requestsOf_eq_nil]
      exact List.eq_nil_of_length_eq_zero (by omega)

/-- Bytes arrive. -/
theorem State.read {bytes : Bytes} (h : State policy s) (hconnection : s.connection = some c)
    (hread : c.readEnabled = true)
    (hrefused : (readRequest policy noFaults { c with input := c.input ++ bytes } l).1.refused = false)
    (hpaced : (requestsOf policy (s.received ++ bytes)).length ≤ s.processed.length + 1) :
    State policy ⟨(finishReading policy noFaults (readRequest policy noFaults { c with input := c.input ++ bytes } l).2
      (readRequest policy noFaults { c with input := c.input ++ bytes } l).1).1, s.received ++ bytes,
      s.processed ++ (readRequest policy noFaults { c with input := c.input ++ bytes } l).1.submits⟩ := by
  cases h with
  | closed hnone _ =>
    rw [hconnection] at hnone
    cases hnone
  | busy d hsome hopen hwaiting _ _ =>
    cases hconnection.symm.trans hsome
    rw [hopen.reading hread] at hwaiting
    cases hwaiting
  | body d head hsome hopen hwaiting hparsed hhead hclose hfollows hshort =>
    cases hconnection.symm.trans hsome
    have hbody : readRequest policy noFaults { c with input := c.input ++ bytes } l =
        (readBody noFaults { c with input := c.input ++ bytes }, l) := by
      rw [readRequest, if_pos hparsed]
    rw [hbody]
    refine State.of_readBody (c := { c with input := c.input ++ bytes })
      ⟨hopen.buffered, hopen.abandoned, hopen.reading, hopen.submitting, hopen.pending⟩ hwaiting hparsed hhead hclose ?_ hpaced
    intro more
    rw [List.append_assoc, hfollows]
    simp only [List.append_assoc]
  | head d hsome hopen hwaiting hunparsed hfollows hno =>
    cases hconnection.symm.trans hsome
    have hopen' : Open { c with input := c.input ++ bytes } :=
      ⟨hopen.buffered, hopen.abandoned, hopen.reading, hopen.submitting, hopen.pending⟩
    have hnew : ∀ more, requestsOf policy (s.received ++ bytes ++ more) =
        s.processed ++ requestsOf policy (c.input ++ bytes ++ more) := by
      intro more
      rw [List.append_assoc, hfollows, List.append_assoc]
    rcases nextRequest_cases policy (c.input ++ bytes) with ⟨hincomplete, hfind, hshort⟩ | hfatal |
      ⟨head, rest, request, hinput, hhead⟩
    · rw [readRequest_of_none (c := { c with input := c.input ++ bytes }) hunparsed hfind hshort]
      refine .head _ rfl hopen' hwaiting hunparsed ?_ ?_
      · intro more
        change requestsOf policy (s.received ++ bytes ++ more) = (s.processed ++ []) ++ _
        rw [List.append_nil]
        exact hnew more
      · intro r rest hnext
        rw [hincomplete] at hnext
        cases hnext
    · have hnow := hfatal []
      rw [List.append_nil] at hnow
      have hrefuses : Refuses (readRequest policy noFaults { c with input := c.input ++ bytes } l).1 :=
        readRequest_of_fatal hopen' (waiting_iff.mp hwaiting).1 hunparsed hnow
      obtain ⟨d, status, code, message, hfatal_eq, hopen_d, hinflight_d, hbounded⟩ := hrefuses.exists_fatal
      have hopen_close : Open { d with closeAfterResponse := true } :=
        ⟨hopen_d.buffered, hopen_d.abandoned, hopen_d.reading, hopen_d.submitting, hopen_d.pending⟩
      have hbusy : ∀ l', Busy { d with closeAfterResponse := true }
          (respondFatalError noFaults d l' status code message).1 :=
        fun _ => respondError_busy hopen_close hinflight_d hbounded
      obtain ⟨c', hsome', hopen_c', hwaiting', -, hclose'⟩ := (hbusy _).exists_some
      rw [hfatal_eq]
      refine .busy c' hsome' hopen_c' hwaiting' (fun _ more => ?_) (fun hstays => ?_)
      · change requestsOf policy (s.received ++ bytes ++ more) = s.processed ++ []
        rw [hnew, requestsOf_eq_nil.mpr (noRequest_of_fatal hfatal more)]
      · rw [hclose'] at hstays
        cases hstays
    · obtain ⟨admitted, hbody⟩ := readRequest_of_head (c := { c with input := c.input ++ bytes }) hunparsed hinput
        hhead hrefused
      rw [hbody]
      refine State.of_readBody (c := { c with
        input := rest
        request := request
        requestHeadParsed := true
        closeAfterResponse := request.closeConnection
        writerAdmitted := admitted }) ⟨hopen.buffered, hopen.abandoned, hopen.reading, hopen.submitting, hopen.pending⟩ hwaiting rfl
        hhead rfl (fun more => ?_) hpaced
      rw [hnew, hinput]

/-- A connection that is dealing with a request or a response goes on doing so. -/
theorem State.stays_busy {r : Option Connection} (h : State policy s) (hconnection : s.connection = some c)
    (hwaiting : c.waiting = false) (hbusy : Busy c r) : State policy { s with connection := r } := by
  obtain ⟨c', hsome, hopen', hwaiting', hinput', hclose'⟩ := hbusy.exists_some
  cases h with
  | closed hnone _ =>
    rw [hconnection] at hnone
    cases hnone
  | busy d hsome_d hopen _ hcloses hstays =>
    cases hconnection.symm.trans hsome_d
    refine .busy c' hsome hopen' hwaiting' (fun hc => hcloses (hclose' ▸ hc)) (fun hc => ?_)
    rw [hinput']
    exact hstays (hclose' ▸ hc)
  | head d hsome_d _ hwaits _ _ _ =>
    cases hconnection.symm.trans hsome_d
    rw [hwaits] at hwaiting
    cases hwaiting
  | body d _ hsome_d _ hwaits _ _ _ _ _ =>
    cases hconnection.symm.trans hsome_d
    rw [hwaits] at hwaiting
    cases hwaiting

theorem State.opened (h : State policy s) (hconnection : s.connection = some c) : Open c := by
  cases h with
  | closed hnone _ =>
    rw [hconnection] at hnone
    cases hnone
  | busy d hsome hopen _ _ _ =>
    cases hconnection.symm.trans hsome
    exact hopen
  | head d hsome hopen _ _ _ _ =>
    cases hconnection.symm.trans hsome
    exact hopen
  | body d _ hsome hopen _ _ _ _ _ _ =>
    cases hconnection.symm.trans hsome
    exact hopen

theorem waiting_of_inflight (h : c.inflight = true) : c.waiting = false := by
  rw [Connection.waiting, h]
  rfl

/-- The response is written. -/
theorem State.written {count : Nat} (h : State policy s) (hconnection : s.connection = some c) :
    State policy { s with connection := (writeCallback noFaults { c with output := c.output.drop count } l).1 } := by
  have hidle : c.responsePending = false →
      writeCallback noFaults { c with output := c.output.drop count } l =
        (some { c with output := c.output.drop count }, l) := fun hpending => if_pos (.inl hpending)
  cases h with
  | closed hnone _ =>
    rw [hconnection] at hnone
    cases hnone
  | head d hsome hopen hwaiting hunparsed hfollows hno =>
    cases hconnection.symm.trans hsome
    rw [hidle (waiting_iff.mp hwaiting).2]
    exact .head _ rfl ⟨hopen.buffered, hopen.abandoned, hopen.reading, hopen.submitting, hopen.pending⟩ hwaiting hunparsed hfollows hno
  | body d head hsome hopen hwaiting hparsed hhead hclose hfollows hshort =>
    cases hconnection.symm.trans hsome
    rw [hidle (waiting_iff.mp hwaiting).2]
    exact .body _ head rfl ⟨hopen.buffered, hopen.abandoned, hopen.reading, hopen.submitting, hopen.pending⟩ hwaiting hparsed hhead hclose hfollows hshort
  | busy d hsome hopen hwaiting hcloses hstays =>
    cases hconnection.symm.trans hsome
    have hopen' : Open { c with output := c.output.drop count } :=
      ⟨hopen.buffered, hopen.abandoned, hopen.reading, hopen.submitting, hopen.pending⟩
    rw [writeCallback]
    split
    · exact .busy _ rfl hopen' hwaiting hcloses hstays
    rename_i hdone
    rw [not_or, Bool.not_eq_false] at hdone
    have hinflight := hopen.pending hdone.1
    split
    · rename_i hclose
      have hfreed : (abandonConnection { c with output := c.output.drop count } l).1 = none := by
        rw [abandonConnection, if_neg (by rw [hinflight]; decide), freeConnection]
        split <;> rfl
      exact .closed hfreed (hcloses hclose)
    · rename_i hclose
      obtain ⟨hfollows, hno⟩ := hstays (Bool.eq_false_iff.mpr hclose)
      refine .head _ rfl ⟨hopen.buffered, hopen.abandoned, fun _ => ?_, hopen.submitting, fun h => (nomatch h)⟩ ?_ rfl
        hfollows hno
      · exact waiting_iff.mpr ⟨hinflight, rfl⟩
      · exact waiting_iff.mpr ⟨hinflight, rfl⟩

theorem State.turn {s' : Session} {t : Turn} (h : State policy s) (hpaced : Paced policy s t)
    (hturn : s.turn policy t = some s') : State policy s' := by
  obtain ⟨c, hconnection, hrest⟩ := Option.bind_eq_some_iff.mp hturn
  have hopen := h.opened hconnection
  cases t with
  | read bytes l =>
    obtain ⟨⟨-, hread, -, hrefused⟩, hs'⟩ := Option.ite_none_right_eq_some.mp hrest
    cases hs'
    exact h.read hconnection hread hrefused hpaced
  | submit accepted l =>
    obtain ⟨hsubmitting, hs'⟩ := Option.ite_none_right_eq_some.mp hrest
    cases hs'
    exact h.stays_busy hconnection (waiting_of_inflight (hopen.submitting hsubmitting))
      (submitted_busy hopen hsubmitting)
  | work httpStatus json =>
    obtain ⟨⟨hinflight, -, -⟩, hs'⟩ := Option.ite_none_right_eq_some.mp hrest
    cases hs'
    refine h.stays_busy hconnection (waiting_of_inflight hinflight) ⟨_, rfl, ?_, waiting_of_inflight hinflight, rfl, rfl⟩
    exact ⟨hopen.buffered, hopen.abandoned, hopen.reading, hopen.submitting, hopen.pending⟩
  | complete l =>
    obtain ⟨execution, -, hrest⟩ := Option.bind_eq_some_iff.mp hrest
    obtain ⟨⟨hinflight, hsubmitting, hresult, hjson⟩, hs'⟩ := Option.ite_none_right_eq_some.mp hrest
    cases hs'
    exact h.stays_busy hconnection (waiting_of_inflight hinflight)
      (completeExecution_busy hopen hinflight hsubmitting hresult hjson)
  | written count l =>
    obtain ⟨-, hs'⟩ := Option.ite_none_right_eq_some.mp hrest
    cases hs'
    exact h.written hconnection

end Turns

theorem Runs.state {policy : Policy} {id : Nat} {s : Session}
    (h : Runs policy (Paced policy) (.start id) s) : State policy s := by
  induction h with
  | refl => exact .start policy id
  | turn _ hpaced hturn ih => exact ih.turn hpaced hturn

section Ends

variable {policy : Policy} {s : Session}

/-- A paced session is never behind with its requests. -/
theorem State.processed_eq (h : State policy s) : s.processed = requestsOf policy s.received := by
  have hfollows : ∀ rest, s.follows policy rest → NoRequest policy rest →
      s.processed = requestsOf policy s.received := by
    intro rest hfollows hno
    have hnow := hfollows []
    rw [List.append_nil, List.append_nil, requestsOf_eq_nil.mpr hno, List.append_nil] at hnow
    exact hnow.symm
  have hfinished : s.finished policy → s.processed = requestsOf policy s.received := by
    intro hfinished
    have hnow := hfinished []
    rw [List.append_nil] at hnow
    exact hnow.symm
  cases h with
  | closed _ hclosed => exact hfinished hclosed
  | busy c _ _ _ hcloses hstays =>
    cases hclose : c.closeAfterResponse with
    | true => exact hfinished (hcloses hclose)
    | false => exact hfollows c.input (hstays hclose).1 (hstays hclose).2
  | head c _ _ _ _ hhead hno => exact hfollows c.input hhead hno
  | body c head _ _ _ _ hhead _ hbody hshort =>
    refine hfollows _ hbody fun r rest hnext => ?_
    rw [hhead.nextRequest, frameBody, if_pos hshort] at hnext
    cases hnext

/-- The session is over, or everything was read and the connection waits for more. -/
def Ended (stream : Bytes) (s : Session) : Prop :=
  (s.received = stream ∧ ∃ c, s.connection = some c ∧ c.waiting = true) ∨
    (s.received <+: stream ∧ s.connection = none)

theorem State.ended {stream : Bytes} (h : State policy s) (hend : Ended stream s) :
    s.processed = requestsOf policy stream := by
  rcases hend with ⟨rfl, -⟩ | ⟨⟨more, rfl⟩, hnone⟩
  · exact h.processed_eq
  · cases h with
    | closed _ hfinished => exact (hfinished more).symm
    | busy c hsome _ _ _ _ =>
      rw [hnone] at hsome
      cases hsome
    | head c hsome _ _ _ _ _ =>
      rw [hnone] at hsome
      cases hsome
    | body c _ hsome _ _ _ _ _ _ _ =>
      rw [hnone] at hsome
      cases hsome

theorem State.not_hasRequest {c : Connection} (h : State policy s) (hconnection : s.connection = some c)
    (hwaiting : c.waiting = true) : ¬ HasRequest policy c := by
  rw [HasRequest]
  cases h with
  | closed hnone _ =>
    rw [hconnection] at hnone
    cases hnone
  | busy d hsome _ hbusy _ _ =>
    cases hconnection.symm.trans hsome
    rw [hwaiting] at hbusy
    cases hbusy
  | head d hsome _ _ hunparsed _ hno =>
    cases hconnection.symm.trans hsome
    rw [if_neg (by rw [hunparsed]; decide), not_not]
    exact hno
  | body d _ hsome _ _ hparsed _ _ _ hshort =>
    cases hconnection.symm.trans hsome
    rw [if_pos hparsed, Nat.not_le]
    exact hshort

end Ends

/-- **Framing of paced sessions.**  If no read brings the end of a second request that is not processed yet, the
requests that were processed are in every state those of the bytes received so far.  A connection that waits for its
client has no request in its buffer.  A session that has come to its end has processed the requests of the stream,
however it was cut into reads. -/
theorem paced_framing (policy : Policy) (id : Nat) :
    (∀ s, Runs policy (Paced policy) (.start id) s → s.processed = requestsOf policy s.received ∧
      ∀ c, s.connection = some c → c.waiting = true → ¬ HasRequest policy c) ∧
    ∀ stream s s', Runs policy (Paced policy) (.start id) s → Runs policy (Paced policy) (.start id) s' →
      Ended stream s → Ended stream s' →
        s.processed = requestsOf policy stream ∧ s'.processed = requestsOf policy stream := by
  refine ⟨fun s hs => ⟨hs.state.processed_eq, fun c hconnection hwaiting => ?_⟩, ?_⟩
  · exact hs.state.not_hasRequest hconnection hwaiting
  · intro stream s s' hs hs' hend hend'
    exact ⟨hs.state.ended hend, hs'.state.ended hend'⟩

/-! ## A request that is left behind -/

instance (policy : Policy) (s : Session) (t : Turn) : Decidable (Paced policy s t) :=
  match t with
  | .read _ _ => inferInstanceAs (Decidable (_ ≤ _))
  | .submit _ _ | .work _ _ | .complete _ | .written _ _ => instDecidableTrue

section RunTurns

variable {policy : Policy} (allowed : Session → Turn → Prop) [∀ s t, Decidable (allowed s t)]

/-- Turns one after the other, as long as they are of the kind. -/
def runTurns (policy : Policy) (s : Session) (turns : List Turn) : Option Session :=
  turns.foldlM (fun s t => if allowed s t then s.turn policy t else none) s

variable {allowed}

theorem Runs.turns {s s' s'' : Session} {turns : List Turn} (h : Runs policy allowed s s')
    (hrun : runTurns allowed policy s' turns = some s'') : Runs policy allowed s s'' := by
  induction turns generalizing s' with
  | nil =>
    cases hrun
    exact h
  | cons t turns ih =>
    rw [runTurns, List.foldlM_cons] at hrun
    obtain ⟨s₁, hturn, hrest⟩ := Option.bind_eq_some_iff.mp hrun
    obtain ⟨hallowed, hturn⟩ := Option.ite_none_right_eq_some.mp hturn
    exact ih (.turn h hallowed hturn) hrest

/-- A run is found by running it. -/
theorem exists_run {s : Session} (turns : List Turn) {p : Session → Bool}
    (h : (runTurns allowed policy s turns).any p = true) : ∃ s', Runs policy allowed s s' ∧ p s' = true := by
  rw [Option.any_eq_true] at h
  obtain ⟨s', hrun, hp⟩ := h
  exact ⟨s', Runs.refl.turns hrun, hp⟩

end RunTurns

def defaultPolicy : Policy := ⟨64 * 1024 * 1024, []⟩

def someLimits : Limits := ⟨.init 1 64, .init 1 64⟩

def keptGet : Bytes := ascii "GET /health/ready HTTP/1.1\r\nHost: a\r\nConnection: keep-alive\r\n\r\n"

/-- From the submission of a request to the end of its response. -/
def serve : List Turn :=
  [.submit true someLimits, .work 200 [], .complete someLimits, .written 1000 someLimits]

/-- Two requests in one read. -/
def together : List Turn := .read (keptGet ++ keptGet) someLimits :: serve

/-- Two requests in two reads. -/
def oneByOne : List Turn := .read keptGet someLimits :: serve ++ .read keptGet someLimits :: serve

/-- The connection waits, everything was read, and so many requests were processed. -/
def waitsAfter (stream : Bytes) (count : Nat) (s : Session) : Bool :=
  s.received = stream ∧ s.processed.length = count ∧ s.connection.any Connection.waiting = true

theorem ended_of_waitsAfter {stream : Bytes} {count : Nat} {s : Session} (h : waitsAfter stream count s = true) :
    Ended stream s ∧ s.processed.length = count := by
  rw [waitsAfter, decide_eq_true_iff, Option.any_eq_true] at h
  exact ⟨.inl ⟨h.1, h.2.2⟩, h.2.1⟩

theorem paced_framing_sample : ∃ s, Runs defaultPolicy (Paced defaultPolicy) (.start 0) s ∧
    Ended (keptGet ++ keptGet) s ∧ s.processed.length = 2 ∧
      s.processed = requestsOf defaultPolicy (keptGet ++ keptGet) := by
  obtain ⟨s, hruns, hs⟩ : ∃ s, Runs defaultPolicy (Paced defaultPolicy) (.start 0) s ∧
      waitsAfter (keptGet ++ keptGet) 2 s = true :=
    exists_run oneByOne (by decide +kernel)
  obtain ⟨hended, hcount⟩ := ended_of_waitsAfter hs
  exact ⟨s, hruns, hended, hcount, ((paced_framing defaultPolicy 0).2 _ s s hruns hruns hended hended).1⟩

/-- **A request is left behind.**  Two requests that arrive together: the second stays in the buffer of a connection
that waits for its client, and only the first is processed. -/
theorem request_left_behind :
    (¬ ∀ s c, Runs defaultPolicy (fun _ _ => True) (.start 0) s → s.connection = some c → c.waiting = true →
      ¬ HasRequest defaultPolicy c) ∧
    ¬ ∀ stream s s', Runs defaultPolicy (fun _ _ => True) (.start 0) s →
      Runs defaultPolicy (fun _ _ => True) (.start 0) s' → Ended stream s → Ended stream s' →
        s.processed = s'.processed := by
  have hnext : nextRequest defaultPolicy keptGet = .request { CoreHttpRequest.init with
      method := ascii "GET", target := ascii "/health/ready" } [] := by
    decide +kernel
  obtain ⟨s, hruns, hs⟩ : ∃ s, Runs defaultPolicy (fun _ _ => True) (.start 0) s ∧
      (waitsAfter (keptGet ++ keptGet) 1 s && s.connection.any fun c =>
        c.waiting && !c.requestHeadParsed && c.input = keptGet) = true :=
    exists_run together (by decide +kernel)
  obtain ⟨s', hruns', hs'⟩ : ∃ s, Runs defaultPolicy (fun _ _ => True) (.start 0) s ∧
      waitsAfter (keptGet ++ keptGet) 2 s = true :=
    exists_run oneByOne (by decide +kernel)
  rw [Bool.and_eq_true, Option.any_eq_true] at hs
  obtain ⟨hwaits, c, hconnection, hc⟩ := hs
  rw [Bool.and_eq_true, Bool.and_eq_true, Bool.not_eq_true', decide_eq_true_iff] at hc
  obtain ⟨hended, hcount⟩ := ended_of_waitsAfter hwaits
  obtain ⟨hended', hcount'⟩ := ended_of_waitsAfter hs'
  refine ⟨fun h => ?_, fun h => ?_⟩
  · refine h s c hruns hconnection hc.1.1 ?_
    rw [HasRequest, if_neg (by rw [hc.1.2]; decide), hc.2]
    exact fun hno => hno _ _ hnext
  · rw [h _ s s' hruns hruns' hended hended', hcount'] at hcount
    cases hcount

end Reactor
end Yappod

import Mathlib
import Yappod.Config.RuntimeLimiter
import Yappod.Server.CoreHttp

/-!
# The reactor

`yappo_core_reactor_v2.c`, for a server that is not shutting down.  A connection is worked on by the callbacks of
its buffered event and by the message that a worker posts when it is done with the request.  A step is one
callback; the callback that submits a request is cut in two between the limiter and the executor, since other
reactors may run there.  What libevent, the allocator, the executor and the workers do is a choice of the step
(`Event`).

Two ledgers count what the limiters have granted; `workers` and `mailbox` are the connections whose request is with
the executor or on the way back; `freed` is the connections that were freed.
-/

set_option autoImplicit false

namespace Yappod
namespace Reactor

/-! ## Responses -/

/-- `reason_phrase`. -/
def reasonPhrase (status : Nat) : Bytes :=
  if status = 200 then ascii "OK"
  else if status = 400 then ascii "Bad Request"
  else if status = 401 then ascii "Unauthorized"
  else if status = 404 then ascii "Not Found"
  else if status = 405 then ascii "Method Not Allowed"
  else if status = 409 then ascii "Conflict"
  else if status = 413 then ascii "Content Too Large"
  else if status = 415 then ascii "Unsupported Media Type"
  else if status = 500 then ascii "Internal Server Error"
  else ascii "Service Unavailable"

/-- `make_error_json`. -/
def errorJson (code message : Bytes) : Bytes :=
  123 :: ascii "\"error\":" ++ 123 :: ascii "\"code\":\"" ++ code ++ ascii "\",\"message\":\"" ++ message ++
    ascii "\"" ++ [125, 125]

/-- The text that `write_response` puts together. -/
def responseText (status : Nat) (close : Bool) (allow : Option Bytes) (acceptQuery : Bool) (body : Bytes) : Bytes :=
  ascii "HTTP/1.1 " ++ decimal status ++ ascii " " ++ reasonPhrase status ++
    ascii "\r\nServer: Yappo Search Core/2.0\r\nContent-Type: application/json; charset=utf-8\r\nContent-Length: " ++
    decimal body.length ++ ascii "\r\nCache-Control: no-store\r\nConnection: " ++
    (if close then ascii "close" else ascii "keep-alive") ++ ascii "\r\n" ++
    (allow.elim [] fun methods => ascii "Allow: " ++ methods ++ ascii "\r\n") ++
    (if acceptQuery then ascii "Accept-Query: application/json\r\n" else []) ++ ascii "\r\n" ++ body

def maxResponseBytes : Nat := 16 * 1024 * 1024

/-! ## Connections -/

/-- `YAP_V2_HTTP_OPERATION`. -/
inductive Operation
  | search
  | retrieve
  | ingest
  deriving DecidableEq

/-- `execution_t`.  The result is there when the worker is done. -/
structure Execution where
  operation : Operation
  healthRequest : Bool
  limiterAcquired : Bool
  httpStatus : Nat
  json : Bytes
  result : Status
  deriving DecidableEq

/-- `connection_t`; `id` is its address.  `buffered` says that there is a buffered event, `readEnabled`, `input` and
`output` are parts of it, and `submitting` says that `submit_request` is before the call of the executor. -/
structure Connection where
  id : Nat
  buffered : Bool
  readEnabled : Bool
  input : Bytes
  output : Bytes
  request : CoreHttpRequest
  execution : Option Execution
  requestHeadParsed : Bool
  inflight : Bool
  abandoned : Bool
  responsePending : Bool
  closeAfterResponse : Bool
  writerAdmitted : Bool
  submitting : Bool
  deriving DecidableEq

/-- The two limiters. -/
structure Limits where
  writer : LimiterLedger
  search : LimiterLedger
  deriving DecidableEq

/-- The parts of the runtime policy that the reactor reads; no token is the empty one. -/
structure Policy where
  ingestMaxBodyBytes : Nat
  writeToken : Bytes

/-- `YAP_V2_authorize_write`. -/
def Policy.authorizeWrite (policy : Policy) (authorization : Bytes) : Bool :=
  policy.writeToken = [] ∨ (authorization.take 7 = ascii "Bearer " ∧ authorization.drop 7 = policy.writeToken)

/-- What fails during a callback. -/
structure Faults where
  pullup : Bool
  body : Bool
  remove : Bool
  execution : Bool
  response : Bool
  enable : Bool

def noFaults : Faults := ⟨false, false, false, false, false, false⟩

/-- A connection, or nothing if it was freed, and the limiters. -/
abbrev Outcome := Option Connection × Limits

/-- `free_connection`: the admission is given back with the length that the request has now. -/
def freeConnection (c : Connection) (l : Limits) : Outcome :=
  if c.writerAdmitted = true then (none, { l with writer := l.writer.release (c.id, c.request.contentLength) })
  else (none, l)

/-- `abandon_connection`. -/
def abandonConnection (c : Connection) (l : Limits) : Outcome :=
  let c := { c with buffered := false, readEnabled := false, input := [], output := [] }
  if c.inflight = true then (some { c with abandoned := true }, l) else freeConnection c l

/-- `write_response`. -/
def writeResponse (f : Faults) (c : Connection) (status : Nat) (allow : Option Bytes) (acceptQuery : Bool)
    (body : Bytes) : Option Connection :=
  if c.buffered = false ∨ maxResponseBytes < body.length ∨ f.response = true then none
  else some { c with
    output := c.output ++ responseText status c.closeAfterResponse allow acceptQuery body
    responsePending := true
    readEnabled := false }

/-- `respond_error`. -/
def respondError (f : Faults) (c : Connection) (l : Limits) (status : Nat) (code message : String)
    (allow : Option Bytes) (acceptQuery : Bool) : Outcome :=
  match writeResponse f c status allow acceptQuery (errorJson (ascii code) (ascii message)) with
  | none => abandonConnection c l
  | some c' => (some c', l)

/-- `respond_fatal_error`. -/
def respondFatalError (f : Faults) (c : Connection) (l : Limits) (status : Nat) (code message : String) : Outcome :=
  respondError f { c with closeAfterResponse := true } l status code message none false

/-! ## Submitting a request -/

/-- `allow_for_target`. -/
def allowForTarget (target : Bytes) : Option Bytes :=
  if target = ascii "/v2/search" ∨ target = ascii "/v2/retrieve" then some (ascii "QUERY")
  else if target = ascii "/v2/documents:batch" then some (ascii "POST")
  else if target = ascii "/health/ready" then some (ascii "GET")
  else none

/-- `is_query_target`. -/
def isQueryTarget (target : Bytes) : Bool := target = ascii "/v2/search" ∨ target = ascii "/v2/retrieve"

/-- The execution for a request, as `submit_request` fills it in. -/
def executionFor (request : CoreHttpRequest) : Execution where
  operation :=
    if request.target = ascii "/v2/retrieve" then .retrieve
    else if request.target = ascii "/v2/documents:batch" then .ingest
    else .search
  healthRequest := request.target = ascii "/health/ready"
  limiterAcquired := false
  httpStatus := 0
  json := []
  result := .ok

/-- `submit_request` from the allocation of the execution on, up to the call of the executor. -/
def prepareExecution (policy : Policy) (f : Faults) (c : Connection) (l : Limits) : Outcome :=
  let execution := executionFor c.request
  if f.execution = true then respondError f c l 503 "overloaded" "Service Unavailable" none false
  else if execution.operation = .ingest ∧ policy.authorizeWrite c.request.authorization = false then
    respondError f c l 401 "unauthorized" "Unauthorized" none false
  else if execution.healthRequest = false ∧ execution.operation ≠ .ingest then
    match l.search.acquire (c.id, c.request.body.length) with
    | none => respondError f c l 503 "overloaded" "Service Unavailable" none false
    | some search =>
      (some { c with
        execution := some { execution with limiterAcquired := true }
        inflight := true
        readEnabled := false
        submitting := true }, { l with search := search })
  else
    (some { c with execution := some execution, inflight := true, readEnabled := false, submitting := true }, l)

/-- `submit_request` up to the call of the executor. -/
def submitRequest (policy : Policy) (f : Faults) (c : Connection) (l : Limits) : Outcome :=
  match allowForTarget c.request.target with
  | none => respondError f c l 404 "not_found" "Not Found" none false
  | some allow =>
    if (isQueryTarget c.request.target = true ∧ c.request.method ≠ ascii "QUERY") ∨
        (c.request.target = ascii "/v2/documents:batch" ∧ c.request.method ≠ ascii "POST") ∨
        (c.request.target = ascii "/health/ready" ∧ c.request.method ≠ ascii "GET") then
      respondError f c l 405 "method_not_allowed" "Method Not Allowed" (some allow)
        (isQueryTarget c.request.target)
    else if c.request.target = ascii "/health/ready" then
      if c.request.haveContentLength = true then
        respondError f c l 400 "invalid_request" "Bad Request" (some (ascii "GET")) false
      else prepareExecution policy f c l
    else if c.request.haveContentLength = false ∨ c.request.body.length = 0 then
      respondError f c l 400 "invalid_request" "Bad Request" (some allow) (isQueryTarget c.request.target)
    else if c.request.jsonContentType = false then
      respondError f c l 415 "unsupported_media_type" "Unsupported Media Type" (some allow)
        (isQueryTarget c.request.target)
    else prepareExecution policy f c l

/-- `submit_request` from the answer of the executor on. -/
def submitted (f : Faults) (accepted : Bool) (c : Connection) (l : Limits) : Outcome :=
  if accepted = true then (some { c with submitting := false }, l)
  else
    let l := if c.execution.any (·.limiterAcquired) = true then
        { l with search := l.search.release (c.id, c.request.body.length) }
      else l
    respondError f { c with execution := none, inflight := false, submitting := false } l 503 "overloaded"
      "Service Unavailable" none false

/-! ## The callbacks -/

/-- `evbuffer_search(input, "\r\n\r\n", 4, NULL)`. -/
def findDelimiter : Bytes → Option Nat
  | [] => none
  | b :: bs =>
    if (b :: bs).take 4 = [13, 10, 13, 10] then some 0 else (findDelimiter bs).map (· + 1)

def maxBodyBytes : Nat := 1024 * 1024

/-- The bytes that a body may have. -/
def bodyLimit (policy : Policy) (target : Bytes) : Nat :=
  if target = ascii "/v2/documents:batch" then policy.ingestMaxBodyBytes else maxBodyBytes

/-- What `read_callback` has come to before it submits a request. -/
inductive Reading
  /-- More bytes are needed. -/
  | waits (c : Connection)
  /-- A response after which the connection is closed. -/
  | fatal (c : Connection) (status : Nat) (code message : String)
  /-- The writer limiter has refused the request. -/
  | overloaded (c : Connection)
  /-- The connection is given up. -/
  | broken (c : Connection)
  | ready (c : Connection)

/-- The second part of `read_callback`: the body. -/
def readBody (f : Faults) (c : Connection) : Reading :=
  if c.request.haveContentLength = true ∧ c.input.length < c.request.contentLength then .waits c
  else if c.request.haveContentLength = true ∧ c.request.contentLength ≠ 0 then
    if f.body = true then .fatal c 503 "overloaded" "Service Unavailable"
    else if f.remove = true then .broken c
    else .ready { c with
      input := c.input.drop c.request.contentLength
      request := { c.request with body := c.input.take c.request.contentLength } }
  else .ready c

/-- The checks of `read_callback` on the length that a head announces. -/
def admitBody (policy : Policy) (f : Faults) (c : Connection) (l : Limits) : Reading × Limits :=
  if c.request.haveContentLength = true then
    if bodyLimit policy c.request.target < c.request.contentLength then
      (.fatal c 413 "body_too_large" "Content Too Large", l)
    else if c.request.target = ascii "/v2/documents:batch" ∧ c.request.contentLength ≠ 0 then
      match l.writer.acquire (c.id, c.request.contentLength) with
      | none => (.overloaded c, l)
      | some writer => (readBody f { c with writerAdmitted := true }, { l with writer := writer })
    else (readBody f c, l)
  else (readBody f c, l)

/-- `read_callback` up to the call of `submit_request`.  A head that is not accepted leaves a request that nothing
reads. -/
def readRequest (policy : Policy) (f : Faults) (c : Connection) (l : Limits) : Reading × Limits :=
  if c.requestHeadParsed = true then (readBody f c, l)
  else match findDelimiter c.input with
    | none =>
      if maxHeaderBytes ≤ c.input.length then (.fatal c 413 "header_too_large" "Content Too Large", l)
      else (.waits c, l)
    | some position =>
      if maxHeaderBytes < position + 4 then (.fatal c 413 "header_too_large" "Content Too Large", l)
      else if f.pullup = true then (.broken c, l)
      else match parseHead (c.input.take (position + 4)) with
        | .error _ => (.fatal { c with request := .init } 400 "invalid_request" "Bad Request", l)
        | .ok request =>
          admitBody policy f { c with
            input := c.input.drop (position + 4)
            request := request
            requestHeadParsed := true
            closeAfterResponse := request.closeConnection } l

/-- The end of `read_callback`. -/
def finishReading (policy : Policy) (f : Faults) (l : Limits) : Reading → Outcome
  | .waits c => (some c, l)
  | .fatal c status code message => respondFatalError f c l status code message
  | .overloaded c => respondFatalError f c l 503 "overloaded" "Service Unavailable"
  | .broken c => abandonConnection c l
  | .ready c => submitRequest policy f c l

/-- `read_callback`, up to the call of the executor. -/
def readCallback (policy : Policy) (f : Faults) (c : Connection) (l : Limits) : Outcome :=
  let reading := readRequest policy f c l
  finishReading policy f reading.2 reading.1

/-- `reset_connection_request`. -/
def resetConnectionRequest (c : Connection) (l : Limits) : Connection × Limits :=
  ({ c with
      request := .init
      requestHeadParsed := false
      responsePending := false
      closeAfterResponse := false
      writerAdmitted := false },
    if c.writerAdmitted = true then { l with writer := l.writer.release (c.id, c.request.contentLength) } else l)

/-- `write_callback`. -/
def writeCallback (f : Faults) (c : Connection) (l : Limits) : Outcome :=
  if c.responsePending = false ∨ c.output ≠ [] then (some c, l)
  else if c.closeAfterResponse = true then abandonConnection c l
  else
    let reset := resetConnectionRequest c l
    if f.enable = true then abandonConnection reset.1 reset.2
    else (some { reset.1 with readEnabled := true }, reset.2)

/-- The flags of an event. -/
structure EventFlags where
  eof : Bool
  error : Bool
  timeout : Bool

/-- `event_callback`. -/
def eventCallback (events : EventFlags) (c : Connection) (l : Limits) : Outcome :=
  if events.eof = true ∧ (c.inflight = true ∨ c.responsePending = true) then
    (some { c with closeAfterResponse := true, readEnabled := false }, l)
  else if events.eof = true ∧
      ((c.requestHeadParsed = false ∧ c.input ≠ []) ∨
        (c.requestHeadParsed = true ∧ c.request.haveContentLength = true ∧
          c.input.length < c.request.contentLength)) then
    abandonConnection c l
  else if events.eof = true ∨ events.error = true ∨ events.timeout = true then abandonConnection c l
  else (some c, l)

/-- `complete_execution`. -/
def completeExecution (f : Faults) (execution : Execution) (c : Connection) (l : Limits) : Outcome :=
  let l := if execution.limiterAcquired = true then
      { l with search := l.search.release (c.id, c.request.body.length) }
    else l
  let c := { c with execution := none, inflight := false }
  if c.abandoned = true ∨ c.buffered = false then freeConnection c l
  else if execution.result ≠ .ok then abandonConnection c l
  else match writeResponse f c execution.httpStatus none (isQueryTarget c.request.target) execution.json with
    | none => abandonConnection c l
    | some c' => (some c', l)

/-- The connection that `add_connection` sets up. -/
def newConnection (id : Nat) : Connection where
  id := id
  buffered := true
  readEnabled := true
  input := []
  output := []
  request := .init
  execution := none
  requestHeadParsed := false
  inflight := false
  abandoned := false
  responsePending := false
  closeAfterResponse := false
  writerAdmitted := false
  submitting := false

/-! ## Steps -/

/-- All connections, the limiters, and who has a request of which connection. -/
structure System where
  connections : List Connection
  limits : Limits
  workers : List Nat
  mailbox : List Nat
  freed : List Nat
  nextId : Nat
  deriving DecidableEq

/-- A server with its limiters, before the first connection. -/
def opened (limits : Limits) : System := ⟨[], limits, [], [], [], 0⟩

/-- What can happen.  The faults and the answers of others are part of it. -/
inductive Event
  /-- `add_connection`. -/
  | accept (f : Faults)
  /-- Bytes arrive, and the read callback runs. -/
  | read (id : Nat) (bytes : Bytes) (f : Faults)
  /-- The executor takes the request, or refuses it. -/
  | submit (id : Nat) (accepted : Bool) (f : Faults)
  /-- A worker is done with the request and posts its message. -/
  | work (id : Nat) (httpStatus : Nat) (json : Bytes) (result : Status)
  /-- The reactor receives the message. -/
  | complete (id : Nat) (f : Faults)
  /-- Bytes are written to the socket, and the write callback runs. -/
  | written (id : Nat) (count : Nat) (f : Faults)
  /-- End of file, error or timeout. -/
  | event (id : Nat) (flags : EventFlags)

def System.find (s : System) (id : Nat) : Option Connection := s.connections.find? (·.id = id)

/-- The connection after a callback. -/
def System.settle (s : System) (id : Nat) (o : Outcome) : System :=
  match o.1 with
  | some c =>
    { s with connections := s.connections.map fun d => if d.id = id then c else d, limits := o.2 }
  | none =>
    { s with connections := s.connections.filter (·.id ≠ id), limits := o.2, freed := id :: s.freed }

/-- The connections of a reactor have a new one. -/
def System.accept (s : System) (f : Faults) : System :=
  if f.enable = true then
    { s with nextId := s.nextId + 1, freed := s.nextId :: s.freed }
  else { s with nextId := s.nextId + 1, connections := newConnection s.nextId :: s.connections }

/-- The callbacks of a buffered event run while there is one, and not within `submit_request`. -/
def Connection.listens (c : Connection) : Bool := c.buffered && !c.submitting

def step (policy : Policy) (s : System) : Event → Option System
  | .accept f => some (s.accept f)
  | .read id bytes f => do
    let c ← s.find id
    if c.listens = true ∧ c.readEnabled = true ∧ bytes ≠ [] then
      some (s.settle id (readCallback policy f { c with input := c.input ++ bytes } s.limits))
    else none
  | .submit id accepted f => do
    let c ← s.find id
    if c.submitting = true then
      let s' := s.settle id (submitted f accepted c s.limits)
      some (if accepted = true then { s' with workers := id :: s'.workers } else s')
    else none
  | .work id httpStatus json result => do
    let c ← s.find id
    if id ∈ s.workers then
      let s' := s.settle id (some { c with
        execution := c.execution.map fun e => { e with httpStatus, json, result } }, s.limits)
      some { s' with workers := s.workers.erase id, mailbox := s.mailbox ++ [id] }
    else none
  | .complete id f => do
    let c ← s.find id
    let execution ← c.execution
    if id ∈ s.mailbox then
      some { s.settle id (completeExecution f execution c s.limits) with mailbox := s.mailbox.erase id }
    else none
  | .written id count f => do
    let c ← s.find id
    if c.listens = true then
      some (s.settle id (writeCallback f { c with output := c.output.drop count } s.limits))
    else none
  | .event id flags => do
    let c ← s.find id
    if c.listens = true then some (s.settle id (eventCallback flags c s.limits)) else none

/-- The states after some steps. -/
inductive Later (policy : Policy) (s : System) : System → Prop
  | refl : Later policy s s
  | step {s' s'' : System} {event : Event} : Later policy s s' → step policy s' event = some s'' →
      Later policy s s''

end Reactor
end Yappod

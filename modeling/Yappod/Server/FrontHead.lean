import Yappod.Server.CoreHttp

/-!
# Request heads at the front

`read_line` puts a line together from chunks that `fgets` reads, and measures each with `strlen`.  What it
returns are the bytes through the next newline (`readLine_eq_line`).  `parse_headers` reads such lines up to the
first blank one.  The length of the body comes from `strtoull`, which skips any white space and takes a sign,
and what follows a carriage return in the line is not looked at; the lines without these are the ones that say
the length in plain digits (`front_head`).
-/

set_option autoImplicit false

namespace Yappod
namespace Front

/-! ## Streams -/

/-- A stream: the bytes to come, and whether its end is a read error. -/
structure Stream where
  bytes : Bytes
  failed : Bool
  deriving DecidableEq

/-- The bytes through the first newline, or all of them. -/
def throughNewline : Bytes → Bytes
  | [] => []
  | b :: bs => if b = 10 then [b] else b :: throughNewline bs

/-- `fgets(chunk, size, stream)`; none is the null pointer, at the end of the stream or at a read error. -/
def fgets (size : Nat) (stream : Stream) : Option (Bytes × Stream) :=
  let chunk := throughNewline (stream.bytes.take (size - 1))
  if stream.bytes = [] then none
  -- the read goes on until the chunk is full or has its newline
  else if stream.failed = true ∧ chunk.length < size - 1 ∧ chunk.getLast? ≠ some 10 then none
  else some (chunk, { stream with bytes := stream.bytes.drop chunk.length })

/-- `strlen` and the bytes it counts. -/
def untilNul (chunk : Bytes) : Bytes := chunk.takeWhile (· ≠ 0)

/-- What `read_line` returns: 1 with a line, 0, -1 or -2. -/
inductive LineStatus
  | line (line : Bytes) (rest : Stream)
  | ended
  | failed
  | tooLong
  deriving DecidableEq

/-- `sizeof(chunk)`. -/
def chunkBytes : Nat := 1024

/-- The loop of `read_line`, with the line so far. -/
def readLineLoop : Nat → Bytes → Stream → LineStatus
  | 0, _, _ => .failed
  | fuel + 1, line, stream =>
    match fgets chunkBytes stream with
    | none => if stream.failed = true then .failed else if line = [] then .ended else .failed
    | some (chunk, rest) =>
      let text := untilNul chunk
      if maxLineBytes - line.length < text.length then .tooLong
      else if (line ++ text).getLast? = some 10 then .line (line ++ text) rest
      else if text.length < chunkBytes - 1 then .failed
      else readLineLoop fuel (line ++ text) rest

/-- `read_line`.  Every chunk takes a byte at least, so the fuel does not run out. -/
def readLine (stream : Stream) : LineStatus := readLineLoop (stream.bytes.length + 1) [] stream

/-! ## Requests -/

/-- `endpoint_t`. -/
inductive Endpoint
  | unknown
  | live
  | ready
  | metrics
  | search
  | retrieve
  | prepare
  | ingest
  deriving DecidableEq

/-- `http_request_t`. -/
structure Request where
  method : Bytes
  target : Bytes
  endpoint : Endpoint
  contentLength : Nat
  haveContentLength : Bool
  jsonContentType : Bool
  authorization : Bytes
  deriving DecidableEq

/-- `endpoint_for`. -/
def endpointFor (method target : Bytes) : Endpoint :=
  if method = ascii "GET" ∧ target = ascii "/health/live" then .live
  else if method = ascii "GET" ∧ target = ascii "/health/ready" then .ready
  else if method = ascii "GET" ∧ target = ascii "/metrics" then .metrics
  else if (method = ascii "POST" ∨ method = ascii "QUERY") ∧ target = ascii "/v2/search" then .search
  else if (method = ascii "POST" ∨ method = ascii "QUERY") ∧ target = ascii "/v2/retrieve" then .retrieve
  else if method = ascii "POST" ∧ target = ascii "/v2/passages:prepare" then .prepare
  else if method = ascii "POST" ∧ target = ascii "/v2/documents:batch" then .ingest
  else .unknown

/-- `parse_request_line`. -/
def parseRequestLine (line : Bytes) : Option Request :=
  match scanRequestLine line with
  | none => none
  | some (method, target, version) =>
    if version = ascii "HTTP/1.1" ∨ version = ascii "HTTP/1.0" then
      some {
        method := method
        target := target
        endpoint := endpointFor method target
        contentLength := 0
        haveContentLength := false
        jsonContentType := false
        authorization := [] }
    else none

/-! ## Numbers -/

/-- What `strtoull(text, &end, 10)` gives: the value, `errno == ERANGE`, and the text from `end` on. -/
structure Number where
  value : Nat
  outOfRange : Bool
  rest : Bytes
  deriving DecidableEq

def isDigit (b : UInt8) : Bool := 48 ≤ b ∧ b ≤ 57

def isSign (b : UInt8) : Bool := b = 43 ∨ b = 45

/-- A number is at most `ULLONG_MAX`, and a minus negates it in the unsigned type. -/
def strtoull (text : Bytes) : Number :=
  let start := text.dropWhile isSpace
  let unsigned := if start.head?.any isSign then start.tail else start
  let digits := unsigned.takeWhile isDigit
  let rest := unsigned.dropWhile isDigit
  if digits = [] then { value := 0, outOfRange := false, rest := text }
  else if uint64Max < decimalValue digits then { value := uint64Max, outOfRange := true, rest := rest }
  else if start.head? = some 45 then
    { value := (2 ^ 64 - decimalValue digits) % 2 ^ 64, outOfRange := false, rest := rest }
  else { value := decimalValue digits, outOfRange := false, rest := rest }

/-- `value_start`. -/
def valueStart (line : Bytes) (skip : Nat) : Bytes := (line.drop skip).dropWhile isBlank

/-- `parse_content_length`. -/
def parseContentLength (value : Bytes) (maximum : Nat) : Option Nat :=
  let parsed := strtoull value
  let stop := (parsed.rest.dropWhile isBlank).head?
  if parsed.outOfRange = true ∨ parsed.rest = value ∨ (stop ≠ some 13 ∧ stop ≠ some 10) ∨ parsed.value = 0 ∨
      maximum < parsed.value then none
  else some parsed.value

/-! ## Headers -/

/-- The returns of `parse_headers` other than 0: -1, -2 and -3. -/
inductive HeaderFailure
  | invalid
  | tooLarge
  | unsupported
  deriving DecidableEq

/-- What the loop of `parse_headers` keeps. -/
structure HeaderState where
  request : Request
  total : Nat
  haveType : Bool
  haveAuthorization : Bool
  deriving DecidableEq

/-- `strncasecmp(line, name, strlen(name)) == 0`. -/
def isHeader (name line : Bytes) : Bool := sameName (line.take name.length) name

def contentTypeName : Bytes := ascii "Content-Type:"

def contentLengthName : Bytes := ascii "Content-Length:"

def transferEncodingName : Bytes := ascii "Transfer-Encoding:"

def authorizationName : Bytes := ascii "Authorization:"

/-- A content type of JSON, ended by the line or by a parameter. -/
def isJsonValue (value : Bytes) : Bool :=
  isHeader (ascii "application/json") value ∧
    ((value.drop 16).head? = some 13 ∨ (value.drop 16).head? = some 10 ∨ (value.drop 16).head? = some 59)

def takeType (s : HeaderState) (value : Bytes) : Except HeaderFailure HeaderState :=
  if s.haveType = true ∨ isJsonValue value = false then .error .unsupported
  else .ok { s with haveType := true, request := { s.request with jsonContentType := true } }

/-- `errno` is that of `parse_content_length`; it is 0 where that has succeeded before. -/
def takeLength (bodyLimit : Nat) (s : HeaderState) (value : Bytes) : Except HeaderFailure HeaderState :=
  if s.request.haveContentLength = true then
    .error (if bodyLimit < (strtoull value).value then .tooLarge else .invalid)
  else match parseContentLength value bodyLimit with
    | none =>
      .error (if (strtoull value).outOfRange = true ∨ bodyLimit < (strtoull value).value then .tooLarge
        else .invalid)
    | some length =>
      .ok { s with request := { s.request with contentLength := length, haveContentLength := true } }

def takeToken (s : HeaderState) (value : Bytes) : Except HeaderFailure HeaderState :=
  let token := value.takeWhile fun b => b ≠ 13 ∧ b ≠ 10
  if s.haveAuthorization = true ∨ token = [] ∨ authorizationMaxBytes < token.length then .error .invalid
  else .ok { s with haveAuthorization := true, request := { s.request with authorization := token } }

/-- The chain of `strncasecmp` on a line. -/
def headerLine (bodyLimit : Nat) (s : HeaderState) (line : Bytes) : Except HeaderFailure HeaderState :=
  if isHeader contentTypeName line = true then takeType s (valueStart line 13)
  else if isHeader contentLengthName line = true then takeLength bodyLimit s (valueStart line 15)
  else if isHeader transferEncodingName line = true then .error .invalid
  else if isHeader authorizationName line = true then takeToken s (valueStart line 14)
  else .ok s

/-- The test for the line that ends the head. -/
def isBlankLine (line : Bytes) : Bool := line.take 2 = [13, 10] ∨ line = [10]

/-- The loop of `parse_headers`. -/
def headersLoop (bodyLimit : Nat) : Nat → HeaderState → Stream → Except HeaderFailure (Request × Stream)
  | 0, _, _ => .error .invalid
  | fuel + 1, s, stream =>
    match readLine stream with
    | .line line rest =>
      if maxHeaderBytes - s.total < line.length then .error .invalid
      else if isBlankLine line = true then .ok (s.request, rest)
      else match headerLine bodyLimit { s with total := s.total + line.length } line with
        | .error e => .error e
        | .ok s' => headersLoop bodyLimit fuel s' rest
    | _ => .error .invalid

/-- `YAP_V2_HTTP_MAX_BODY_BYTES`. -/
def maxBodyBytes : Nat := 1024 * 1024

/-- The `body_limit` of `parse_headers`. -/
def bodyLimit (ingestMaxBodyBytes : Nat) (request : Request) : Nat :=
  if request.endpoint = .ingest then ingestMaxBodyBytes else maxBodyBytes

/-- `parse_headers`.  Every line takes a byte at least, so the fuel does not run out. -/
def parseHeaders (ingestMaxBodyBytes : Nat) (request : Request) (stream : Stream) :
    Except HeaderFailure (Request × Stream) :=
  headersLoop (bodyLimit ingestMaxBodyBytes request) (stream.bytes.length + 1)
    { request := request, total := 0, haveType := false, haveAuthorization := false } stream

/-! ## Chunks -/

theorem throughNewline_cases (bs : Bytes) : ((10 : UInt8) ∉ bs ∧ throughNewline bs = bs) ∨
    ∃ before after, (10 : UInt8) ∉ before ∧ bs = before ++ 10 :: after ∧ throughNewline bs = before ++ [10] := by
  induction bs with
  | nil => exact .inl ⟨List.not_mem_nil, rfl⟩
  | cons b bs ih =>
    rw [throughNewline]
    by_cases hb : b = 10
    · exact .inr ⟨[], bs, List.not_mem_nil, by rw [hb]; rfl, by rw [if_pos hb, hb]; rfl⟩
    · rw [if_neg hb]
      rcases ih with ⟨hnone, hall⟩ | ⟨before, after, hnone, rfl, hchunk⟩
      · exact .inl ⟨by simp [Ne.symm hb, hnone], by rw [hall]⟩
      · exact .inr ⟨b :: before, after, by simp [Ne.symm hb, hnone], rfl, by rw [hchunk]; rfl⟩

theorem throughNewline_line {before after : Bytes} (h : (10 : UInt8) ∉ before) :
    throughNewline (before ++ 10 :: after) = before ++ [10] := by
  rcases throughNewline_cases (before ++ 10 :: after) with ⟨hnone, -⟩ | ⟨before', after', h', heq, hchunk⟩
  · exact absurd (by simp) hnone
  · rw [hchunk, (first_part_inj h h' heq).1]

theorem throughNewline_of_notMem {bs : Bytes} (h : (10 : UInt8) ∉ bs) : throughNewline bs = bs := by
  rcases throughNewline_cases bs with ⟨-, hall⟩ | ⟨before, after, -, rfl, -⟩
  · exact hall
  · exact absurd (by simp) h

theorem throughNewline_prefix (bs : Bytes) : throughNewline bs <+: bs := by
  rcases throughNewline_cases bs with ⟨-, hall⟩ | ⟨before, after, -, hbs, hchunk⟩
  · exact ⟨[], by rw [hall, List.append_nil]⟩
  · exact ⟨after, by rw [hchunk, hbs, List.append_assoc]; rfl⟩

/-- A chunk has no newline but at its end. -/
def IsChunk (chunk : Bytes) : Prop :=
  (10 : UInt8) ∉ chunk ∨ ∃ before, (10 : UInt8) ∉ before ∧ chunk = before ++ [10]

theorem isChunk_throughNewline (bs : Bytes) : IsChunk (throughNewline bs) := by
  rcases throughNewline_cases bs with ⟨hnone, hall⟩ | ⟨before, after, hbefore, -, hchunk⟩
  · exact .inl (by rwa [hall])
  · exact .inr ⟨before, hbefore, hchunk⟩

/-- What `fgets` has read when it gives a chunk. -/
theorem fgets_eq_some {size : Nat} {stream rest : Stream} {chunk : Bytes}
    (h : fgets size stream = some (chunk, rest)) :
    stream.bytes = chunk ++ rest.bytes ∧ rest.failed = stream.failed ∧ chunk.length ≤ size - 1 ∧ IsChunk chunk := by
  rw [fgets] at h
  split at h
  · cases h
  split at h
  · cases h
  obtain ⟨rfl, rfl⟩ := Prod.mk.inj (Option.some.inj h)
  have hfront := throughNewline_prefix (stream.bytes.take (size - 1))
  refine ⟨?_, rfl, ?_, isChunk_throughNewline _⟩
  · exact List.prefix_iff_eq_append.mp (hfront.trans (List.take_prefix _ _)) |>.symm
  · exact Nat.le_trans hfront.length_le (List.length_take_le _ _)

/-- A line that fits in the chunk is read whole. -/
theorem fgets_line {size : Nat} {before after : Bytes} {failed : Bool} (h : (10 : UInt8) ∉ before)
    (hfits : before.length < size - 1) :
    fgets size ⟨before ++ 10 :: after, failed⟩ = some (before ++ [10], ⟨after, failed⟩) := by
  have hchunk : throughNewline ((before ++ 10 :: after).take (size - 1)) = before ++ [10] := by
    obtain ⟨more, hmore⟩ : ∃ more, size - 1 - before.length = more + 1 := ⟨_, (Nat.succ_pred (by omega)).symm⟩
    rw [List.take_append, List.take_of_length_le (Nat.le_of_lt hfits), hmore, List.take_succ_cons,
      throughNewline_line h]
  have hbytes : before ++ 10 :: after = (before ++ [10]) ++ after := by simp
  rw [fgets]
  simp only [hchunk]
  rw [if_neg (by simp), if_neg (by simp), hbytes, List.drop_left]

/-- Of a longer line the chunk takes as much as it can. -/
theorem fgets_part {size : Nat} {part after : Bytes} {failed : Bool} (h : (10 : UInt8) ∉ part)
    (hpart : part.length = size - 1) (hsize : 1 < size) :
    fgets size ⟨part ++ after, failed⟩ = some (part, ⟨after, failed⟩) := by
  have hchunk : throughNewline ((part ++ after).take (size - 1)) = part := by
    rw [← hpart, List.take_left, throughNewline_of_notMem h]
  have hne : part ≠ [] := by
    rintro rfl
    rw [List.length_nil] at hpart
    omega
  rw [fgets]
  simp only [hchunk]
  rw [if_neg (by simp [hne]), if_neg (by omega), List.drop_left]

theorem untilNul_of_notMem {chunk : Bytes} (h : (0 : UInt8) ∉ chunk) : untilNul chunk = chunk := by
  refine List.takeWhile_eq_self_iff.mpr fun b hb => ?_
  rw [decide_eq_true_iff]
  rintro rfl
  exact h hb

theorem nul_notMem_untilNul (chunk : Bytes) : (0 : UInt8) ∉ untilNul chunk := by
  intro h
  have := List.mem_takeWhile_imp h
  simp at this

/-- A chunk whose newline `strlen` comes to has no NUL. -/
theorem untilNul_newline {chunk : Bytes} (h : IsChunk chunk) (hnewline : (10 : UInt8) ∈ untilNul chunk) :
    untilNul chunk = chunk ∧ ∃ before, (10 : UInt8) ∉ before ∧ chunk = before ++ [10] := by
  have hfront : untilNul chunk <+: chunk := List.takeWhile_prefix _
  rcases h with hnone | ⟨before, hbefore, rfl⟩
  · exact absurd (hfront.subset hnewline) hnone
  · refine ⟨?_, before, hbefore, rfl⟩
    rcases List.prefix_concat_iff.mp hfront with heq | hshort
    · rw [heq]
    · exact absurd (hshort.subset hnewline) hbefore

/-! ## Lines -/

/-- A line that `read_line` may return. -/
structure IsLine (line : Bytes) : Prop where
  newline : ∃ before, (10 : UInt8) ∉ before ∧ line = before ++ [10]
  notMem_nul : (0 : UInt8) ∉ line
  length_le : line.length ≤ maxLineBytes

theorem readLineLoop_eq_line {fuel : Nat} {line line' : Bytes} {stream rest : Stream}
    (h : readLineLoop fuel line stream = .line line' rest) (hnewline : (10 : UInt8) ∉ line)
    (hnul : (0 : UInt8) ∉ line) (hlength : line.length ≤ maxLineBytes) :
    IsLine line' ∧ line ++ stream.bytes = line' ++ rest.bytes ∧ rest.failed = stream.failed := by
  induction fuel generalizing line stream with
  | zero => cases h
  | succ fuel ih =>
    rw [readLineLoop] at h
    cases hchunk : fgets chunkBytes stream with
    | none =>
      rw [hchunk] at h
      dsimp only at h
      split at h
      · cases h
      · split at h <;> cases h
    | some read =>
      obtain ⟨chunk, next⟩ := read
      rw [hchunk] at h
      dsimp only at h
      obtain ⟨hbytes, hfailed, hsize, his⟩ := fgets_eq_some hchunk
      split at h
      · cases h
      rename_i hfits
      have hnul' : (0 : UInt8) ∉ line ++ untilNul chunk := by simp [hnul, nul_notMem_untilNul]
      have hlength' : (line ++ untilNul chunk).length ≤ maxLineBytes := by
        rw [List.length_append]
        omega
      split at h
      · -- the newline is in the chunk, as the line so far has none
        rename_i hlast
        obtain ⟨rfl, rfl⟩ := LineStatus.line.inj h
        have hmem : (10 : UInt8) ∈ untilNul chunk := by
          rcases List.mem_append.mp (List.mem_of_getLast? hlast) with hmem | hmem
          · exact absurd hmem hnewline
          · exact hmem
        obtain ⟨hall, before, hbefore, hend⟩ := untilNul_newline his hmem
        refine ⟨⟨⟨line ++ before, by simp [hnewline, hbefore], ?_⟩, hnul', hlength'⟩, ?_, hfailed⟩
        · rw [hall, hend, List.append_assoc]
        · rw [hall, hbytes, List.append_assoc]
      · rename_i hlast
        split at h
        · cases h
        · -- the chunk is full, so it has no NUL
          rename_i hfull
          have hall : untilNul chunk = chunk :=
            (List.takeWhile_prefix _).eq_of_length_le (by
              have : (untilNul chunk).length = (chunk.takeWhile (· ≠ 0)).length := rfl
              omega)
          rw [hall] at h hnul' hlength' hlast
          have hnone : (10 : UInt8) ∉ chunk := by
            rcases his with hnone | ⟨before, -, rfl⟩
            · exact hnone
            · exact absurd (by simp [← List.append_assoc]) hlast
          obtain ⟨hline, htext, hsame⟩ := ih h (by simp [hnewline, hnone]) hnul' hlength'
          exact ⟨hline, by rw [hbytes, ← htext, List.append_assoc], hsame.trans hfailed⟩

theorem readLineLoop_line {fuel : Nat} {line before after : Bytes} {failed : Bool}
    (hfuel : before.length < fuel) (hbefore : (10 : UInt8) ∉ before) (hnul : (0 : UInt8) ∉ before)
    (hnewline : (10 : UInt8) ∉ line) (hlength : (line ++ (before ++ [10])).length ≤ maxLineBytes) :
    readLineLoop fuel line ⟨before ++ 10 :: after, failed⟩ = .line (line ++ (before ++ [10])) ⟨after, failed⟩ := by
  induction fuel generalizing line before with
  | zero => omega
  | succ fuel ih =>
    simp only [List.length_append, List.length_singleton] at hlength
    rw [readLineLoop]
    rcases Nat.lt_or_ge before.length (chunkBytes - 1) with hfits | hlong
    · -- the rest of the line is in this chunk
      rw [fgets_line hbefore hfits]
      dsimp only
      rw [untilNul_of_notMem (by simp [hnul]), if_neg (by simp only [List.length_append, List.length_singleton]; omega),
        if_pos (by simp [← List.append_assoc])]
    · obtain ⟨part, before', rfl, hpart⟩ : ∃ part before', before = part ++ before' ∧ part.length = chunkBytes - 1 :=
        ⟨_, _, (List.take_append_drop (chunkBytes - 1) before).symm, List.length_take_of_le hlong⟩
      simp only [List.mem_append, not_or] at hbefore hnul
      rw [List.length_append] at hlength hfuel
      have hpos : 0 < part.length := hpart ▸ (by decide)
      rw [List.append_assoc, fgets_part hbefore.1 hpart (by decide)]
      dsimp only
      rw [untilNul_of_notMem hnul.1, if_neg (by omega), if_neg, if_neg (by omega),
        ih (by omega) hbefore.2 hnul.2 (by simp [hnewline, hbefore.1])]
      · simp only [List.append_assoc]
      · simp only [List.length_append, List.length_singleton]
        omega
      · intro hlast
        rcases List.mem_append.mp (List.mem_of_getLast? hlast) with hmem | hmem
        · exact hnewline hmem
        · exact hbefore.1 hmem

/-- **What `read_line` returns**: the bytes through the next newline, when they are no more than a line may have
and none is a NUL. -/
theorem readLine_eq_line {stream rest : Stream} {line : Bytes} :
    readLine stream = .line line rest ↔
      IsLine line ∧ stream.bytes = line ++ rest.bytes ∧ rest.failed = stream.failed := by
  constructor
  · intro h
    exact readLineLoop_eq_line h List.not_mem_nil List.not_mem_nil (Nat.zero_le _)
  · rintro ⟨⟨⟨before, hbefore, rfl⟩, hnul, hlength⟩, hbytes, hfailed⟩
    obtain ⟨bytes, failed⟩ := stream
    obtain ⟨after, failed'⟩ := rest
    obtain rfl : bytes = before ++ 10 :: after := by simpa using hbytes
    obtain rfl : failed' = failed := hfailed
    simp only [List.mem_append, not_or] at hnul
    rw [readLine, readLineLoop_line (by simp only [List.length_append, List.length_cons]; omega) hbefore hnul.1
      List.not_mem_nil (by simpa using hlength)]
    rfl

/-! ## Lengths -/

/-- The start of a line that is followed by a number, optional blanks and the end of the line. -/
def SaysLength (value : Bytes) (n : Nat) : Prop :=
  ∃ digits blanks ending : Bytes, value = digits ++ (blanks ++ ending) ∧ digits ≠ [] ∧
    (∀ b ∈ digits, isDigit b = true) ∧ (∀ b ∈ blanks, isBlank b = true) ∧
    (ending = [10] ∨ ending = [13, 10]) ∧ n = decimalValue digits

/-- No sign and no white space but blanks before the number, and no carriage return but that of the line break. -/
structure PlainLength (value : Bytes) : Prop where
  start : ∀ b, value.head? = some b → isSign b = false ∧ b ≠ 11 ∧ b ≠ 12
  ending : value.dropWhile (· ≠ 13) = [] ∨ value.dropWhile (· ≠ 13) = [13, 10]

theorem parseContentLength_eq_some {value : Bytes} {maximum n : Nat} (h : parseContentLength value maximum = some n) :
    (strtoull value).outOfRange = false ∧ (strtoull value).rest ≠ value ∧
      (((strtoull value).rest.dropWhile isBlank).head? = some 13 ∨
        ((strtoull value).rest.dropWhile isBlank).head? = some 10) ∧
      n = (strtoull value).value ∧ 0 < n ∧ n ≤ maximum := by
  rw [parseContentLength] at h
  split at h
  · cases h
  rename_i hok
  simp only [not_or, not_and, Bool.not_eq_true, ne_eq, not_not, not_lt] at hok
  obtain rfl := Option.some.inj h
  refine ⟨hok.1, hok.2.1, ?_, rfl, Nat.pos_of_ne_zero hok.2.2.2.1, hok.2.2.2.2⟩
  by_cases hcr : ((strtoull value).rest.dropWhile isBlank).head? = some 13
  · exact .inl hcr
  · exact .inr (hok.2.2.1 hcr)

theorem SaysLength.plain {value : Bytes} {n : Nat} (h : SaysLength value n) : PlainLength value := by
  obtain ⟨digits, blanks, ending, rfl, hne, hdigits, hblanks, hending, -⟩ := h
  constructor
  · intro b hb
    obtain ⟨d, digits, rfl⟩ := List.exists_cons_of_ne_nil hne
    obtain rfl : d = b := by simpa using hb
    have hd := hdigits d List.mem_cons_self
    refine ⟨?_, ?_, ?_⟩
    · rw [Bool.eq_false_iff]
      intro hsign
      rw [isSign, decide_eq_true_iff] at hsign
      rcases hsign with rfl | rfl <;> revert hd <;> decide
    · rintro rfl
      revert hd
      decide
    · rintro rfl
      revert hd
      decide
  · have hskip : ∀ b ∈ digits ++ blanks, decide (b ≠ 13) = true := by
      intro b hb
      rw [decide_eq_true_iff]
      rintro rfl
      rcases List.mem_append.mp hb with hb | hb
      · exact absurd (hdigits 13 hb) (by decide)
      · exact absurd (hblanks 13 hb) (by decide)
    rw [← List.append_assoc, List.dropWhile_append_of_pos hskip]
    rcases hending with rfl | rfl
    · exact .inl rfl
    · exact .inr rfl

theorem isSpace_cases {b : UInt8} (h : isSpace b = true) :
    isBlank b = true ∨ b = 10 ∨ b = 11 ∨ b = 12 ∨ b = 13 := by
  rw [isSpace, decide_eq_true_iff] at h
  simp only [isBlank, decide_eq_true_iff, UInt8.le_iff_toNat_le, ← UInt8.toNat_inj] at h ⊢
  have h10 : (10 : UInt8).toNat = 10 := rfl
  have h11 : (11 : UInt8).toNat = 11 := rfl
  have h12 : (12 : UInt8).toNat = 12 := rfl
  have h13 : (13 : UInt8).toNat = 13 := rfl
  have h9 : (9 : UInt8).toNat = 9 := rfl
  omega

/-- Where `strtoull` has neither white space nor a sign to skip. -/
theorem strtoull_digits {value : Bytes} (hspace : value.dropWhile isSpace = value)
    (hsign : ∀ b, value.head? = some b → isSign b = false) (hrest : (strtoull value).rest ≠ value)
    (hrange : (strtoull value).outOfRange = false) :
    value.takeWhile isDigit ≠ [] ∧ (strtoull value).value = decimalValue (value.takeWhile isDigit) ∧
      (strtoull value).rest = value.dropWhile isDigit := by
  have hany : value.head?.any isSign = false := by
    rw [Option.any_eq_false]
    exact fun b hb => by rw [hsign b hb]
  have hminus : value.head? ≠ some 45 := fun h => absurd (hsign 45 h) (by decide)
  simp only [strtoull, hspace, hany, Bool.false_eq_true, if_false, if_neg hminus] at hrest hrange ⊢
  split at hrest
  · exact absurd rfl hrest
  · rename_i hne
    rw [if_neg hne] at hrange ⊢
    split at hrange
    · cases hrange
    · rename_i hsmall
      rw [if_neg hsmall]
      exact ⟨hne, rfl, rfl⟩

/-- A plain value that is accepted is read as the number that it says. -/
theorem saysLength_of_plain {value before : Bytes} {maximum n : Nat} (hline : value = before ++ [10])
    (hbefore : (10 : UInt8) ∉ before) (hblank : ∀ b, value.head? = some b → isBlank b = false)
    (h : parseContentLength value maximum = some n) (hplain : PlainLength value) : SaysLength value n := by
  obtain ⟨hrange, hrest, hstop, rfl, -, -⟩ := parseContentLength_eq_some h
  -- a plain value that starts with white space is a line break
  have hspace : value.dropWhile isSpace = value := by
    obtain ⟨b, bs, hvalue⟩ := List.exists_cons_of_ne_nil (show value ≠ [] by simp [hline])
    have hhead : value.head? = some b := by rw [hvalue]; rfl
    rw [hvalue, List.dropWhile_cons]
    split
    · rename_i hb
      have hbreak : value = [10] ∨ value = [13, 10] := by
        rcases isSpace_cases hb with hb | rfl | rfl | rfl | rfl
        · rw [hblank b hhead] at hb
          cases hb
        · cases before with
          | nil => exact .inl hline
          | cons c before =>
            rw [hline, List.cons_append, List.head?_cons, Option.some.injEq] at hhead
            exact absurd (hhead ▸ List.mem_cons_self) hbefore
        · exact absurd rfl (hplain.start 11 hhead).2.1
        · exact absurd rfl (hplain.start 12 hhead).2.2
        · have hending := hplain.ending
          rw [show value.dropWhile (· ≠ 13) = value by rw [hvalue]; rfl] at hending
          exact hending.elim (fun hnil => absurd (hvalue.symm.trans hnil) (List.cons_ne_nil _ _)) .inr
      refine absurd ?_ hrest
      rcases hbreak with heq | heq <;> rw [heq] <;> decide
    · rfl
  obtain ⟨hne, hvalue, hdigits⟩ := strtoull_digits hspace (fun b hb => (hplain.start b hb).1) hrest hrange
  rw [hdigits] at hstop
  have hsplit : value = value.takeWhile isDigit ++ ((value.dropWhile isDigit).takeWhile isBlank ++
      (value.dropWhile isDigit).dropWhile isBlank) := by
    rw [List.takeWhile_append_dropWhile, List.takeWhile_append_dropWhile]
  refine ⟨value.takeWhile isDigit, (value.dropWhile isDigit).takeWhile isBlank, _, hsplit, hne,
    fun b hb => List.mem_takeWhile_imp hb, fun b hb => List.mem_takeWhile_imp hb, ?_, hvalue⟩
  generalize hending : (value.dropWhile isDigit).dropWhile isBlank = ending at hsplit hstop ⊢
  rcases hstop with hcr | hlf
  · -- the carriage return is the first one
    right
    have hskip : ∀ b ∈ value.takeWhile isDigit ++ (value.dropWhile isDigit).takeWhile isBlank,
        decide (b ≠ 13) = true := by
      intro b hb
      rw [decide_eq_true_iff]
      rintro rfl
      rcases List.mem_append.mp hb with hb | hb
      · exact absurd (List.mem_takeWhile_imp hb) (by decide)
      · exact absurd (List.mem_takeWhile_imp hb) (by decide)
    have hdrop : value.dropWhile (· ≠ 13) = ending := by
      obtain ⟨ending, rfl⟩ := List.head?_eq_some_iff.mp hcr
      conv_lhs => rw [hsplit, ← List.append_assoc, List.dropWhile_append_of_pos hskip]
      rfl
    rcases hplain.ending with hnil | hbreak
    · rw [hdrop] at hnil
      rw [hnil] at hcr
      cases hcr
    · exact hdrop.symm.trans hbreak
  · left
    obtain ⟨tail, rfl⟩ := List.head?_eq_some_iff.mp hlf
    rcases List.eq_nil_or_concat tail with rfl | ⟨tail, last, rfl⟩
    · rfl
    · have heq : before ++ [10] = (value.takeWhile isDigit ++ ((value.dropWhile isDigit).takeWhile isBlank ++
          10 :: tail)) ++ [last] := by
        rw [← hline]
        conv_lhs => rw [hsplit]
        simp
      exact absurd (by rw [(List.append_inj' heq rfl).1]; simp) hbefore

/-! ## Header lines -/

theorem isHeader_unique {a b line : Bytes} (ha : isHeader a line = true) (hb : isHeader b line = true) :
    (a.map toLower).take b.length = (b.map toLower).take a.length := by
  rw [isHeader, sameName, decide_eq_true_iff] at ha hb
  rw [← ha, ← hb, ← List.map_take, ← List.map_take, List.take_take, List.take_take, Nat.min_comm]

theorem not_isHeader {a b line : Bytes} (ha : isHeader a line = true)
    (hne : (a.map toLower).take b.length ≠ (b.map toLower).take a.length) : isHeader b line = false := by
  rw [Bool.eq_false_iff]
  exact fun hb => hne (isHeader_unique ha hb)

/-- What a line other than the last one does to the length. -/
theorem headerLine_eq_ok {limit : Nat} {s s' : HeaderState} {line : Bytes} (h : headerLine limit s line = .ok s') :
    isHeader transferEncodingName line = false ∧
      ((isHeader contentLengthName line = false ∧ s'.request.contentLength = s.request.contentLength ∧
          s'.request.haveContentLength = s.request.haveContentLength) ∨
        (isHeader contentLengthName line = true ∧ s.request.haveContentLength = false ∧
          s'.request.haveContentLength = true ∧
          parseContentLength (valueStart line 15) limit = some s'.request.contentLength)) := by
  rw [headerLine] at h
  split at h
  · rename_i htype
    rw [takeType] at h
    split at h
    · cases h
    · obtain rfl := Except.ok.inj h
      exact ⟨not_isHeader htype (by decide), .inl ⟨not_isHeader htype (by decide), rfl, rfl⟩⟩
  split at h
  · rename_i hlength
    rw [takeLength] at h
    split at h
    · cases h
    rename_i hfirst
    split at h
    · cases h
    · rename_i length hparse
      obtain rfl := Except.ok.inj h
      exact ⟨not_isHeader hlength (by decide), .inr ⟨hlength, by simpa using hfirst, rfl, hparse⟩⟩
  rename_i hlength
  rw [Bool.not_eq_true] at hlength
  split at h
  · cases h
  rename_i htransfer
  rw [Bool.not_eq_true] at htransfer
  split at h
  · rw [takeToken] at h
    split at h
    · cases h
    · obtain rfl := Except.ok.inj h
      exact ⟨htransfer, .inl ⟨hlength, rfl, rfl⟩⟩
  · obtain rfl := Except.ok.inj h
    exact ⟨htransfer, .inl ⟨hlength, rfl, rfl⟩⟩

theorem isBlankLine_iff {line : Bytes} (h : IsLine line) :
    isBlankLine line = true ↔ line = [10] ∨ line = [13, 10] := by
  obtain ⟨before, hbefore, rfl⟩ := h.newline
  rw [isBlankLine, decide_eq_true_iff, or_comm]
  refine or_congr_right ⟨fun htake => ?_, fun heq => by rw [heq]; rfl⟩
  match before with
  | [] => cases htake
  | [b] => simpa using htake
  | b :: c :: before =>
    simp only [List.cons_append, List.take_succ_cons, List.take_zero, List.cons.injEq] at htake
    exact absurd (by simp [htake.2.1]) hbefore

/-! ## Heads -/

/-- The lines of a head: each is a line that can be read and is not blank, and a blank one ends the head. -/
structure HeadLines (stream rest : Stream) (lines : List Bytes) : Prop where
  text : ∃ blank : Bytes, (blank = [10] ∨ blank = [13, 10]) ∧ stream.bytes = lines.flatten ++ (blank ++ rest.bytes)
  line : ∀ line ∈ lines, IsLine line ∧ line ≠ [10] ∧ line ≠ [13, 10]

/-- No `Transfer-Encoding`, and the length is the one of the only `Content-Length` if there is one. -/
structure LengthRead (limit : Nat) (lines : List Bytes) (request : Request) : Prop where
  no_transfer : ∀ line ∈ lines, isHeader transferEncodingName line = false
  once : (lines.filter (isHeader contentLengthName)).length ≤ 1
  have_iff : request.haveContentLength = true ↔ ∃ line ∈ lines, isHeader contentLengthName line = true
  bounds : request.haveContentLength = true → 1 ≤ request.contentLength ∧ request.contentLength ≤ limit

theorem headLines_nil {stream rest : Stream} {blank : Bytes} (hblank : blank = [10] ∨ blank = [13, 10])
    (h : stream.bytes = blank ++ rest.bytes) : HeadLines stream rest [] :=
  ⟨⟨blank, hblank, h⟩, fun _ hline => absurd hline List.not_mem_nil⟩

theorem HeadLines.cons {stream next rest : Stream} {line : Bytes} {lines : List Bytes}
    (h : HeadLines next rest lines) (hline : IsLine line) (hblank : ¬ (line = [10] ∨ line = [13, 10]))
    (hbytes : stream.bytes = line ++ next.bytes) : HeadLines stream rest (line :: lines) := by
  obtain ⟨⟨blank, hends, htext⟩, hall⟩ := h
  refine ⟨⟨blank, hends, ?_⟩, List.forall_mem_cons.mpr ⟨⟨hline, not_or.mp hblank⟩, hall⟩⟩
  rw [hbytes, htext, List.flatten_cons, List.append_assoc]

/-- What the loop reads from a state on. -/
theorem headersLoop_eq_ok {limit fuel : Nat} {s : HeaderState} {stream rest : Stream} {request : Request}
    (h : headersLoop limit fuel s stream = .ok (request, rest)) :
    ∃ lines, HeadLines stream rest lines ∧ (∀ line ∈ lines, isHeader transferEncodingName line = false) ∧
      ((lines.filter (isHeader contentLengthName) = [] ∧
          request.haveContentLength = s.request.haveContentLength ∧
          request.contentLength = s.request.contentLength) ∨
        ∃ line, lines.filter (isHeader contentLengthName) = [line] ∧ s.request.haveContentLength = false ∧
          request.haveContentLength = true ∧
          parseContentLength (valueStart line 15) limit = some request.contentLength) := by
  induction fuel generalizing s stream with
  | zero => cases h
  | succ fuel ih =>
    rw [headersLoop] at h
    split at h
    · rename_i line next hread
      obtain ⟨hline, hbytes, -⟩ := readLine_eq_line.mp hread
      split at h
      · cases h
      split at h
      · rename_i hblank
        obtain ⟨rfl, rfl⟩ := Prod.mk.inj (Except.ok.inj h)
        exact ⟨[], headLines_nil ((isBlankLine_iff hline).mp hblank) hbytes, by simp, .inl ⟨rfl, rfl, rfl⟩⟩
      rename_i hblank
      rw [isBlankLine_iff hline] at hblank
      split at h
      · cases h
      rename_i s' hstep
      obtain ⟨htransfer, hlength⟩ := headerLine_eq_ok hstep
      obtain ⟨lines, hlines, hall, hrest⟩ := ih h
      refine ⟨line :: lines, hlines.cons hline hblank hbytes, List.forall_mem_cons.mpr ⟨htransfer, hall⟩, ?_⟩
      rcases hlength with ⟨hno, hcount, hhave⟩ | ⟨hyes, hfirst, hhave, hparse⟩
      · rw [List.filter_cons_of_neg (by simp [hno])]
        rw [hcount, hhave] at hrest
        exact hrest
      · -- the length has been read, so no other line gives one
        rw [List.filter_cons_of_pos hyes]
        rcases hrest with ⟨hnone, hkept, hcount⟩ | ⟨_, _, hagain, _⟩
        · exact .inr ⟨line, by rw [hnone], hfirst, hkept.trans hhave, hcount ▸ hparse⟩
        · rw [hhave] at hagain
          cases hagain
    · cases h

/-- The number that `Content-Length` is followed by. -/
def SaysContentLength (line : Bytes) (n : Nat) : Prop :=
  ∃ blanks value : Bytes, line.drop 15 = blanks ++ value ∧ (∀ b ∈ blanks, isBlank b = true) ∧ SaysLength value n

theorem saysContentLength_iff {line : Bytes} {n : Nat} :
    SaysContentLength line n ↔ SaysLength (valueStart line 15) n := by
  constructor
  · rintro ⟨blanks, value, hline, hblanks, hvalue⟩
    have hstart : value.dropWhile isBlank = value := by
      obtain ⟨digits, more, ending, rfl, hne, hdigits, -⟩ := hvalue
      obtain ⟨d, digits, rfl⟩ := List.exists_cons_of_ne_nil hne
      rw [List.cons_append, List.dropWhile_cons, if_neg]
      intro hd
      have hdigit := hdigits d List.mem_cons_self
      rw [isBlank, decide_eq_true_iff] at hd
      rcases hd with rfl | rfl <;> revert hdigit <;> decide
    rw [valueStart, hline, List.dropWhile_append_of_pos hblanks, hstart]
    exact hvalue
  · intro h
    exact ⟨_, _, (List.takeWhile_append_dropWhile (p := isBlank)).symm, fun b hb => List.mem_takeWhile_imp hb, h⟩

theorem head?_valueStart {line : Bytes} {skip : Nat} {b : UInt8} (h : (valueStart line skip).head? = some b) :
    isBlank b = false := by
  have := List.head?_dropWhile_not isBlank (line.drop skip)
  rw [valueStart] at h
  rw [h] at this
  simpa using this

theorem IsLine.suffix {line value : Bytes} (hline : IsLine line) (h : value <:+ line) (hne : value ≠ []) :
    ∃ before, (10 : UInt8) ∉ before ∧ value = before ++ [10] := by
  obtain ⟨before, hbefore, rfl⟩ := hline.newline
  obtain ⟨init, last, rfl⟩ := (List.eq_nil_or_concat value).resolve_left hne
  obtain ⟨pre, hpre⟩ := h
  rw [List.concat_eq_append, ← List.append_assoc] at hpre
  obtain ⟨rfl, hlast⟩ := List.append_inj' hpre rfl
  obtain rfl := List.head_eq_of_cons_eq hlast
  exact ⟨init, fun h => hbefore (List.mem_append_right pre h), List.concat_eq_append⟩

theorem saysContentLength_of_plain {line : Bytes} {limit n : Nat} (hline : IsLine line)
    (h : parseContentLength (valueStart line 15) limit = some n) (hplain : PlainLength (valueStart line 15)) :
    SaysContentLength line n := by
  have hne : valueStart line 15 ≠ [] := by
    intro hnil
    rw [hnil] at h
    exact absurd rfl (parseContentLength_eq_some h).2.1
  obtain ⟨before, hbefore, hvalue⟩ :=
    hline.suffix ((List.dropWhile_suffix isBlank).trans (List.drop_suffix 15 line)) hne
  exact saysContentLength_iff.mpr (saysLength_of_plain hvalue hbefore (fun b hb => head?_valueStart hb) h hplain)

theorem parseRequestLine_haveContentLength {line : Bytes} {request : Request}
    (h : parseRequestLine line = some request) : request.haveContentLength = false := by
  rw [parseRequestLine] at h
  split at h
  · cases h
  split at h
  · obtain rfl := Option.some.inj h
    rfl
  · cases h

/-- **How the front reads a head.**  `read_line` returns the bytes through the next newline, and `parse_headers`
reads the lines through the first blank one, with at most one length among them.  That length is the number that
stands in the line, after optional blanks and before optional blanks, if and only if the line is plain: neither a
sign nor other white space stands before the number, and no carriage return but that of the line break after it. -/
theorem front_head (ingestMaxBodyBytes : Nat) (stream : Stream) :
    (∀ line rest, readLine stream = .line line rest → IsLine line ∧ stream.bytes = line ++ rest.bytes) ∧
    ∀ first request request' rest, parseRequestLine first = some request →
      parseHeaders ingestMaxBodyBytes request stream = .ok (request', rest) →
      ∃ lines, HeadLines stream rest lines ∧ LengthRead (bodyLimit ingestMaxBodyBytes request) lines request' ∧
        ((∀ line ∈ lines, isHeader contentLengthName line = true → SaysContentLength line request'.contentLength) ↔
          ∀ line ∈ lines, isHeader contentLengthName line = true → PlainLength (valueStart line 15)) := by
  refine ⟨fun line rest h => ?_, fun first request request' rest hfirst h => ?_⟩
  · obtain ⟨hline, hbytes, -⟩ := readLine_eq_line.mp h
    exact ⟨hline, hbytes⟩
  · obtain ⟨lines, hlines, htransfer, hlength⟩ := headersLoop_eq_ok h
    have hnew := parseRequestLine_haveContentLength hfirst
    refine ⟨lines, hlines, ?_⟩
    rcases hlength with ⟨hnone, hkept, -⟩ | ⟨line, hone, -, hhave, hparse⟩
    · have hno : ∀ line ∈ lines, isHeader contentLengthName line ≠ true := List.filter_eq_nil_iff.mp hnone
      rw [hnew] at hkept
      refine ⟨⟨htransfer, by rw [hnone]; exact Nat.zero_le 1, ?_, ?_⟩, ?_⟩
      · rw [hkept]
        exact iff_of_false Bool.false_ne_true fun ⟨line, hline, hname⟩ => hno line hline hname
      · rw [hkept]
        exact fun h => absurd h Bool.false_ne_true
      · exact ⟨fun _ line hline hname => absurd hname (hno line hline),
          fun _ line hline hname => absurd hname (hno line hline)⟩
    · have hmem : line ∈ lines ∧ isHeader contentLengthName line = true :=
        List.mem_filter.mp (hone ▸ List.mem_cons_self)
      have honly : ∀ line' ∈ lines, isHeader contentLengthName line' = true → line' = line := by
        intro line' hline' hname
        have : line' ∈ lines.filter (isHeader contentLengthName) := List.mem_filter.mpr ⟨hline', hname⟩
        rw [hone] at this
        exact List.mem_singleton.mp this
      obtain ⟨-, -, -, -, hpos, hle⟩ := parseContentLength_eq_some hparse
      refine ⟨⟨htransfer, by rw [hone]; exact Nat.le_refl 1, ?_, fun _ => ⟨hpos, hle⟩⟩, ?_⟩
      · exact iff_of_true hhave ⟨line, hmem⟩
      · constructor
        · intro hall line' hline' hname
          exact (saysContentLength_iff.mp (hall line' hline' hname)).plain
        · intro hplain line' hline' hname
          obtain rfl := honly line' hline' hname
          exact saysContentLength_of_plain (hlines.line line' hline').1 hparse (hplain line' hline' hname)

theorem IsLine.unique {line line' more more' : Bytes} (h : IsLine line) (h' : IsLine line')
    (heq : line ++ more = line' ++ more') : line = line' := by
  obtain ⟨before, hbefore, rfl⟩ := h.newline
  obtain ⟨before', hbefore', rfl⟩ := h'.newline
  rw [List.append_assoc, List.append_assoc] at heq
  rw [(first_part_inj hbefore hbefore' heq).1]

/-- The first line of a text is the first one of its head. -/
theorem HeadLines.first_mem {stream rest : Stream} {lines : List Bytes} {line more : Bytes}
    (h : HeadLines stream rest lines) (hline : IsLine line) (hblank : ¬ (line = [10] ∨ line = [13, 10]))
    (hbytes : stream.bytes = line ++ more) : line ∈ lines := by
  obtain ⟨⟨blank, hends, htext⟩, hall⟩ := h
  rw [hbytes] at htext
  cases lines with
  | nil =>
    have hisLine : IsLine blank := by
      rcases hends with rfl | rfl
      · exact ⟨⟨[], by decide, rfl⟩, by decide, by decide⟩
      · exact ⟨⟨[13], by decide, rfl⟩, by decide, by decide⟩
    exact absurd (hline.unique hisLine htext ▸ hends) hblank
  | cons first lines =>
    rw [List.flatten_cons, List.append_assoc] at htext
    rw [hline.unique (hall first List.mem_cons_self).1 htext]
    exact List.mem_cons_self

def searchRequest : Request where
  method := ascii "POST"
  target := ascii "/v2/search"
  endpoint := .search
  contentLength := 0
  haveContentLength := false
  jsonContentType := false
  authorization := []

/-- A length with a sign in front. -/
def signedLine : Bytes := ascii "Content-Length: -18446744073709551614\r\n"

/-- A minus is read as part of the number, modulo `2 ^ 64`. -/
theorem front_head_signed :
    parseRequestLine (ascii "POST /v2/search HTTP/1.1\r\n") = some searchRequest ∧
    parseHeaders 0 searchRequest ⟨signedLine ++ [13, 10], false⟩ =
      .ok ({ searchRequest with contentLength := 2, haveContentLength := true }, ⟨[], false⟩) ∧
    ¬ ∃ lines, HeadLines ⟨signedLine ++ [13, 10], false⟩ ⟨[], false⟩ lines ∧
      ∀ line ∈ lines, isHeader contentLengthName line = true → SaysContentLength line 2 := by
  refine ⟨by decide +kernel, by decide +kernel, ?_⟩
  rintro ⟨lines, hlines, hall⟩
  have hline : IsLine signedLine := ⟨⟨signedLine.dropLast, by decide, by decide⟩, by decide, by decide⟩
  have hsays := hall signedLine (hlines.first_mem hline (by decide) rfl) (by decide)
  have hplain := (saysContentLength_iff.mp hsays).plain
  exact absurd (hplain.start 45 (by decide)).1 (by decide)

end Front
end Yappod

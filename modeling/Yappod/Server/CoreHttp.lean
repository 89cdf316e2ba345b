import Mathlib.Data.List.DropRight
import Yappod.Common.Types
import Yappod.Config.Fingerprint
import Yappod.Lib.Lines

/-!
# Request heads

`YAP_V2_core_http_parse_head` reads the head of a request out of a buffer whose length is known, with functions
for strings that end in a NUL.  A head of the grammar is read as its fields say (`parseHead_of_head`).  What is
read need not be a head of the grammar: a line that starts with a NUL ends the loop over the fields, `sscanf`
takes any white space for a separator and starts a new word when the old one is full, and nothing looks past
the first empty line.  Heads without these are the ones that are read whole (`parseHead_exact`).
-/

set_option autoImplicit false

namespace Yappod

/-! ## Strings of C -/

/-- `isspace` of the C locale. -/
def isSpace (b : UInt8) : Bool := b = 32 ∨ (9 ≤ b ∧ b ≤ 13)

def toLower (b : UInt8) : UInt8 := if 65 ≤ b ∧ b ≤ 90 then b + 32 else b

/-- `strcasecmp(a, b) == 0`. -/
def sameName (a b : Bytes) : Bool := a.map toLower = b.map toLower

/-- `strstr(cursor, "\r\n")`: what stands before the first line break and after it.  The search ends at a NUL. -/
def splitLine : Bytes → Option (Bytes × Bytes)
  | [] => none
  | b :: bs =>
    if b = 0 then none
    else if b = 13 ∧ bs.head? = some 10 then some ([], bs.tail)
    else (splitLine bs).map fun (line, rest) => (b :: line, rest)

/-- `%Ns`: white space is skipped, then up to `width` other bytes are taken. -/
def scanString (width : Nat) (bs : Bytes) : Option (Bytes × Bytes) :=
  let text := bs.dropWhile isSpace
  let word := (text.takeWhile fun b => !isSpace b).take width
  if word = [] then none else some (word, text.drop word.length)

/-- `sscanf(line, "%15s %255s %31s %c", …) == 3`: `%c` finds nothing after the three words. -/
def scanRequestLine (line : Bytes) : Option (Bytes × Bytes × Bytes) := do
  let (method, rest) ← scanString 15 line
  let (target, rest) ← scanString 255 rest
  let (version, rest) ← scanString 31 rest
  if rest.dropWhile isSpace = [] then some (method, target, version) else none

/-! ## The parser -/

def maxLineBytes : Nat := 8192

def maxHeaderBytes : Nat := 65536

/-- `YAP_V2_AUTHORIZATION_MAX_BYTES`: the scheme and a token. -/
def authorizationMaxBytes : Nat := 7 + 255

/-- `YAP_V2_CORE_HTTP_REQUEST`; `body_bytes` is the length of `body`. -/
structure CoreHttpRequest where
  method : Bytes
  target : Bytes
  contentLength : Nat
  haveContentLength : Bool
  jsonContentType : Bool
  closeConnection : Bool
  authorization : Bytes
  body : Bytes
  deriving DecidableEq

/-- `YAP_V2_core_http_request_init`. -/
def CoreHttpRequest.init : CoreHttpRequest where
  method := []
  target := []
  contentLength := 0
  haveContentLength := false
  jsonContentType := false
  closeConnection := false
  authorization := []
  body := []

/-- The errors of `YAP_V2_core_http_parse_head`. -/
inductive HeadError
  | invalidArgument
  | invalid
  deriving DecidableEq

/-- What the loop over the header lines keeps. -/
structure HeadState where
  request : CoreHttpRequest
  haveHost : Bool
  haveType : Bool
  haveAuthorization : Bool
  haveConnection : Bool
  deriving DecidableEq

/-- The loop of `parse_content_length`, with the digits read so far. -/
def parseDigits : Nat → Bytes → Option Nat
  | parsed, [] => some parsed
  | parsed, b :: bs =>
    if b < 48 ∨ 57 < b then none
    else if (uint64Max - (b.toNat - 48)) / 10 < parsed then none
    else parseDigits (parsed * 10 + (b.toNat - 48)) bs

/-- `parse_content_length`. -/
def parseContentLength (value : Bytes) : Option Nat := if value = [] then none else parseDigits 0 value

/-- The bytes of a header name. -/
def isTokenByte (b : UInt8) : Bool :=
  (48 ≤ b ∧ b ≤ 57) ∨ (65 ≤ b ∧ b ≤ 90) ∨ (97 ≤ b ∧ b ≤ 122) ∨ b ∈ ascii "!#$%&'*+-.^_`|~"

/-- `header_name_valid`. -/
def headerNameValid (name : Bytes) : Bool := name ≠ [] ∧ name.all isTokenByte

def isBlank (b : UInt8) : Bool := b = 32 ∨ b = 9

/-- `trim_value`. -/
def trimValue (value : Bytes) : Bytes := (value.dropWhile isBlank).rdropWhile isBlank

/-- The test for a JSON content type. -/
def isJsonType (value : Bytes) : Bool :=
  sameName (value.take 16) (ascii "application/json") ∧
    ((value.drop 16).head? = none ∨ (value.drop 16).head? = some 59)

/-! The branches of the loop over the header lines, on a trimmed value. -/

def takeHost (s : HeadState) (value : Bytes) : Except HeadError HeadState :=
  if s.haveHost = true ∨ value = [] then .error .invalid
  else .ok { s with haveHost := true }

def takeContentType (s : HeadState) (value : Bytes) : Except HeadError HeadState :=
  if s.haveType = true then .error .invalid
  else .ok { s with haveType := true, request := { s.request with jsonContentType := isJsonType value } }

def takeContentLength (s : HeadState) (value : Bytes) : Except HeadError HeadState :=
  if s.request.haveContentLength = true then .error .invalid
  else match parseContentLength value with
    | none => .error .invalid
    | some length =>
      .ok { s with request := { s.request with contentLength := length, haveContentLength := true } }

def takeAuthorization (s : HeadState) (value : Bytes) : Except HeadError HeadState :=
  if s.haveAuthorization = true ∨ value = [] ∨ authorizationMaxBytes < value.length then .error .invalid
  else .ok { s with haveAuthorization := true, request := { s.request with authorization := value } }

def takeConnection (s : HeadState) (value : Bytes) : Except HeadError HeadState :=
  if s.haveConnection = true ∨
      (sameName value (ascii "close") = false ∧ sameName value (ascii "keep-alive") = false) then
    .error .invalid
  else
    .ok { s with
      haveConnection := true
      request := { s.request with closeConnection := !sameName value (ascii "keep-alive") } }

/-- The chain of `strcasecmp` on the name of a header line. -/
def headerField (s : HeadState) (name value : Bytes) : Except HeadError HeadState :=
  if sameName name (ascii "Host") = true then takeHost s value
  else if sameName name (ascii "Content-Type") = true then takeContentType s value
  else if sameName name (ascii "Content-Length") = true then takeContentLength s value
  else if sameName name (ascii "Transfer-Encoding") = true then .error .invalid
  else if sameName name (ascii "Authorization") = true then takeAuthorization s value
  else if sameName name (ascii "Connection") = true then takeConnection s value
  else .ok s

/-- The body of the loop: a line is cut at its first colon. -/
def headerLine (s : HeadState) (line : Bytes) : Except HeadError HeadState :=
  if (58 : UInt8) ∉ line ∨ line.head? = some 58 then .error .invalid
  else if headerNameValid (line.takeWhile (· ≠ 58)) = false then .error .invalid
  else headerField s (line.takeWhile (· ≠ 58)) (trimValue ((line.dropWhile (· ≠ 58)).tail))

/-- `while (*cursor != '\0')`: the end of the copy is a NUL too. -/
def headerLines : Nat → HeadState → Bytes → Except HeadError HeadState
  | 0, _, _ => .error .invalid
  | fuel + 1, s, cursor =>
    if cursor.head?.getD 0 = 0 then .ok s
    else match splitLine cursor with
      | none => .error .invalid
      | some (line, rest) =>
        if maxLineBytes < line.length then .error .invalid
        else if line = [] then .ok s
        else match headerLine s line with
          | .error e => .error e
          | .ok s' => headerLines fuel s' rest

/-- The state in which the loop over the header lines starts. -/
def headStart (method target : Bytes) : HeadState where
  request := { CoreHttpRequest.init with closeConnection := true, method := method, target := target }
  haveHost := false
  haveType := false
  haveAuthorization := false
  haveConnection := false

/-- `YAP_V2_core_http_parse_head`.  Every line takes a byte at least, so the fuel does not run out. -/
def parseHead (input : Bytes) : Except HeadError CoreHttpRequest :=
  if input.length < 4 ∨ maxHeaderBytes < input.length then .error .invalidArgument
  else if input.drop (input.length - 4) ≠ [13, 10, 13, 10] then .error .invalid
  else match splitLine input with
    | none => .error .invalid
    | some (line, rest) =>
      if maxLineBytes < line.length then .error .invalid
      else match scanRequestLine line with
        | none => .error .invalid
        | some (method, target, version) =>
          if version ≠ ascii "HTTP/1.1" then .error .invalid
          else match headerLines (rest.length + 1) (headStart method target) rest with
            | .error e => .error e
            | .ok s => if s.haveHost = true then .ok s.request else .error .invalid

/-! ## Lines -/

theorem splitLine_append {line rest : Bytes} (hnul : (0 : UInt8) ∉ line) (hline : Unbroken 13 10 line) :
    splitLine (line ++ 13 :: 10 :: rest) = some (line, rest) := by
  induction line with
  | nil => simp [splitLine]
  | cons b line ih =>
    rw [List.mem_cons, not_or] at hnul
    have hbreak : ¬ (b = 13 ∧ (line ++ 13 :: 10 :: rest).head? = some 10) := by
      rintro ⟨rfl, hhead⟩
      cases line with
      | nil => simp at hhead
      | cons e line =>
        simp only [List.cons_append, List.head?_cons, Option.some.injEq] at hhead
        exact hline ⟨[], line, by rw [hhead]; rfl⟩
    rw [List.cons_append, splitLine, if_neg (Ne.symm hnul.1), if_neg hbreak,
      ih hnul.2 (hline.of_inside (List.suffix_cons b line).isInfix)]
    rfl

theorem splitLine_eq_some {bs line rest : Bytes} (h : splitLine bs = some (line, rest)) :
    bs = line ++ 13 :: 10 :: rest ∧ (0 : UInt8) ∉ line ∧ Unbroken 13 10 line := by
  induction bs generalizing line with
  | nil => cases h
  | cons b bs ih =>
    rw [splitLine] at h
    split at h
    · cases h
    rename_i hb
    split at h
    · rename_i hbreak
      cases bs with
      | nil => simp at hbreak
      | cons e bs =>
        simp only [List.head?_cons, Option.some.injEq] at hbreak
        simp only [List.tail_cons, Option.some.injEq, Prod.mk.injEq] at h
        obtain ⟨rfl, rfl⟩ := h
        rw [hbreak.1, hbreak.2]
        exact ⟨rfl, List.not_mem_nil, unbroken_nil⟩
    · rename_i hbreak
      obtain ⟨⟨line', rest'⟩, hsplit, heq⟩ := Option.map_eq_some_iff.mp h
      obtain ⟨rfl, rfl⟩ := Prod.mk.inj heq
      obtain ⟨rfl, hnul, hline⟩ := ih hsplit
      refine ⟨rfl, ?_, hline.cons fun hb hhead => hbreak ⟨hb, ?_⟩⟩
      · rw [List.mem_cons, not_or]
        exact ⟨Ne.symm hb, hnul⟩
      · cases line' with
        | nil => cases hhead
        | cons e line' => exact hhead

/-! ## The grammar -/

/-- The header names that the parser looks for. -/
inductive HeaderName
  | host
  | contentType
  | contentLength
  | transferEncoding
  | authorization
  | connection
  deriving DecidableEq

def HeaderName.text : HeaderName → Bytes
  | .host => ascii "Host"
  | .contentType => ascii "Content-Type"
  | .contentLength => ascii "Content-Length"
  | .transferEncoding => ascii "Transfer-Encoding"
  | .authorization => ascii "Authorization"
  | .connection => ascii "Connection"

/-- A header line: a name, a colon, and text up to the line break. -/
structure HeaderField where
  name : Bytes
  text : Bytes
  name_valid : headerNameValid name = true
  text_nul : (0 : UInt8) ∉ text
  text_unbroken : Unbroken 13 10 text
  bounded : (name ++ 58 :: text).length ≤ maxLineBytes

namespace HeaderField

def line (f : HeaderField) : Bytes := f.name ++ 58 :: f.text

def value (f : HeaderField) : Bytes := trimValue f.text

/-- A header line with its line break. -/
def bytes (f : HeaderField) : Bytes := f.line ++ [13, 10]

end HeaderField

/-- The values of the fields of a name. -/
def valuesOf (n : HeaderName) (fields : List HeaderField) : List Bytes :=
  (fields.filter fun f => sameName f.name n.text).map HeaderField.value

/-- Digits of a number that a `size_t` holds. -/
def IsLength (v : Bytes) : Prop := v ≠ [] ∧ (∀ b ∈ v, 48 ≤ b ∧ b ≤ 57) ∧ decimalValue v ≤ uint64Max

/-- What the value of a header has to be. -/
def AcceptableValue : HeaderName → Bytes → Prop
  | .host, v => v ≠ []
  | .contentType, _ => True
  | .contentLength, v => IsLength v
  | .transferEncoding, _ => False
  | .authorization, v => v ≠ [] ∧ v.length ≤ authorizationMaxBytes
  | .connection, v => sameName v (ascii "close") = true ∨ sameName v (ascii "keep-alive") = true

/-- No header twice, and each with a value that it can have. -/
def Acceptable (fields : List HeaderField) : Prop :=
  ∀ n, (valuesOf n fields).length ≤ 1 ∧ ∀ v ∈ valuesOf n fields, AcceptableValue n v

/-- The request that the fields of a head describe. -/
def recordOf (method target : Bytes) (fields : List HeaderField) : CoreHttpRequest where
  method := method
  target := target
  contentLength := ((valuesOf .contentLength fields).head?.map decimalValue).getD 0
  haveContentLength := !(valuesOf .contentLength fields).isEmpty
  jsonContentType := (valuesOf .contentType fields).any isJsonType
  closeConnection := !(valuesOf .connection fields).any fun v => sameName v (ascii "keep-alive")
  authorization := (valuesOf .authorization fields).head?.getD []
  body := []

/-- A word of at most `n` bytes. -/
structure IsWord (n : Nat) (w : Bytes) : Prop where
  ne_nil : w ≠ []
  length_le : w.length ≤ n
  notMem_nul : (0 : UInt8) ∉ w
  not_space : ∀ b ∈ w, isSpace b = false

/-- `METHOD SP TARGET SP HTTP/1.1 CRLF`, header lines, an empty line; and the request is what they describe. -/
structure HeadOf (input : Bytes) (request : CoreHttpRequest) (fields : List HeaderField) : Prop where
  text : input = request.method ++ 32 :: (request.target ++ 32 :: (ascii "HTTP/1.1" ++ 13 :: 10 ::
    (fields.flatMap HeaderField.bytes ++ [13, 10])))
  length_le : input.length ≤ maxHeaderBytes
  method : IsWord 15 request.method
  target : IsWord 255 request.target
  acceptable : Acceptable fields
  host : valuesOf .host fields ≠ []
  recorded : request = recordOf request.method request.target fields

/-! ## Fields -/

theorem sameName_unique {name : Bytes} {n k : HeaderName} (hn : sameName name n.text = true)
    (hk : sameName name k.text = true) : n = k := by
  rw [sameName, decide_eq_true_iff] at hn hk
  have htext : n.text.map toLower = k.text.map toLower := hn.symm.trans hk
  revert htext
  cases n <;> cases k <;> decide

section Values

variable {fields : List HeaderField} {f : HeaderField} {n k : HeaderName}

theorem valuesOf_append_same (h : sameName f.name n.text = true) :
    valuesOf n (fields ++ [f]) = valuesOf n fields ++ [f.value] := by
  rw [valuesOf, List.filter_append, List.map_append, valuesOf]
  congr 1
  rw [List.filter_singleton, h]
  rfl

theorem valuesOf_append_of_false (h : sameName f.name n.text = false) :
    valuesOf n (fields ++ [f]) = valuesOf n fields := by
  rw [valuesOf, List.filter_append, List.map_append, List.filter_singleton, h]
  exact List.append_nil _

theorem valuesOf_append_other (h : sameName f.name n.text = true) (hk : k ≠ n) :
    valuesOf k (fields ++ [f]) = valuesOf k fields := by
  refine valuesOf_append_of_false ?_
  rw [Bool.eq_false_iff]
  exact fun hname => hk (sameName_unique hname h)

theorem acceptable_nil : Acceptable [] :=
  fun _ => ⟨Nat.zero_le 1, fun _ hv => absurd hv List.not_mem_nil⟩

/-- A field of a name that the parser looks for must be the first one of its name. -/
theorem acceptable_append_same (h : sameName f.name n.text = true) :
    Acceptable (fields ++ [f]) ↔ Acceptable fields ∧ valuesOf n fields = [] ∧ AcceptableValue n f.value := by
  constructor
  · intro hall
    have hn := hall n
    rw [valuesOf_append_same h, List.length_append, List.length_singleton] at hn
    have hnil : valuesOf n fields = [] := List.eq_nil_of_length_eq_zero (by omega)
    refine ⟨fun k => ?_, hnil, hn.2 f.value (by simp)⟩
    by_cases hk : k = n
    · rw [hk, hnil]
      exact acceptable_nil n
    · rw [← valuesOf_append_other h hk]
      exact hall k
  · rintro ⟨hall, hnil, hvalue⟩ k
    by_cases hk : k = n
    · rw [hk, valuesOf_append_same h, hnil, List.nil_append]
      exact ⟨Nat.le_refl 1, fun v hv => List.mem_singleton.mp hv ▸ hvalue⟩
    · rw [valuesOf_append_other h hk]
      exact hall k

/-- Any other field is as good as none. -/
theorem acceptable_append_of_false (h : ∀ n : HeaderName, sameName f.name n.text = false) :
    Acceptable (fields ++ [f]) ↔ Acceptable fields :=
  forall_congr' fun n => by rw [valuesOf_append_of_false (h n)]

end Values

/-- The state of the loop after some fields. -/
def headStateOf (method target : Bytes) (fields : List HeaderField) : HeadState where
  request := recordOf method target fields
  haveHost := !(valuesOf .host fields).isEmpty
  haveType := !(valuesOf .contentType fields).isEmpty
  haveAuthorization := !(valuesOf .authorization fields).isEmpty
  haveConnection := !(valuesOf .connection fields).isEmpty

theorem headStateOf_nil (method target : Bytes) : headStateOf method target [] = headStart method target := rfl

theorem le_decimalFold (bs : Bytes) (p : Nat) : p ≤ bs.foldl (fun v b => v * 10 + (b.toNat - 48)) p := by
  induction bs generalizing p with
  | nil => exact Nat.le_refl p
  | cons b bs ih =>
    rw [List.foldl_cons]
    exact Nat.le_trans (by omega) (ih (p * 10 + (b.toNat - 48)))

theorem parseDigits_eq_some {bs : Bytes} {p n : Nat} (hp : p ≤ uint64Max) :
    parseDigits p bs = some n ↔ (∀ b ∈ bs, 48 ≤ b ∧ b ≤ 57) ∧
      bs.foldl (fun v b => v * 10 + (b.toNat - 48)) p ≤ uint64Max ∧
      n = bs.foldl (fun v b => v * 10 + (b.toNat - 48)) p := by
  induction bs generalizing p with
  | nil =>
    rw [parseDigits, Option.some.injEq, List.foldl_nil]
    exact ⟨fun h => ⟨fun b hb => absurd hb List.not_mem_nil, hp, h.symm⟩, fun h => h.2.2.symm⟩
  | cons b bs ih =>
    rw [parseDigits, List.foldl_cons]
    split
    · rename_i hdigit
      refine ⟨fun h => (nomatch h), fun ⟨h, _⟩ => ?_⟩
      have hb := h b List.mem_cons_self
      rw [← UInt8.not_lt, ← UInt8.not_lt] at hb
      exact absurd hdigit (not_or.mpr hb)
    · rename_i hdigit
      rw [not_or, UInt8.not_lt, UInt8.not_lt] at hdigit
      have hle := le_decimalFold bs (p * 10 + (b.toNat - 48))
      have hsmall : b.toNat ≤ 57 := UInt8.le_iff_toNat_le.mp hdigit.2
      have hmax : 57 ≤ uint64Max := by decide
      split
      · rename_i hover
        refine ⟨fun h => (nomatch h), fun ⟨_, h, _⟩ => ?_⟩
        omega
      · rw [ih (by omega), List.forall_mem_cons]
        exact ⟨fun h => ⟨⟨hdigit, h.1⟩, h.2⟩, fun h => ⟨h.1.2, h.2⟩⟩

theorem parseContentLength_eq_some {v : Bytes} {n : Nat} :
    parseContentLength v = some n ↔ IsLength v ∧ n = decimalValue v := by
  rw [parseContentLength, IsLength]
  split
  · rename_i hnil
    exact ⟨fun h => (nomatch h), fun h => absurd hnil h.1.1⟩
  · rename_i hne
    rw [parseDigits_eq_some (Nat.zero_le _)]
    exact ⟨fun ⟨hb, hle, h⟩ => ⟨⟨hne, hb, hle⟩, h⟩, fun ⟨⟨_, hb, hle⟩, h⟩ => ⟨hb, hle, h⟩⟩

section Step

variable {method target : Bytes} {fields : List HeaderField} {f : HeaderField} {s t : HeadState}

theorem headerField_cases (s : HeadState) (name value : Bytes) :
    (∃ n : HeaderName, sameName name n.text = true ∧ headerField s name value = match n with
      | .host => takeHost s value
      | .contentType => takeContentType s value
      | .contentLength => takeContentLength s value
      | .transferEncoding => .error .invalid
      | .authorization => takeAuthorization s value
      | .connection => takeConnection s value) ∨
    ((∀ n : HeaderName, sameName name n.text = false) ∧ headerField s name value = .ok s) := by
  rw [headerField]
  by_cases hhost : sameName name (ascii "Host") = true
  · exact .inl ⟨.host, hhost, if_pos hhost⟩
  by_cases htype : sameName name (ascii "Content-Type") = true
  · exact .inl ⟨.contentType, htype, by rw [if_neg hhost, if_pos htype]⟩
  by_cases hlength : sameName name (ascii "Content-Length") = true
  · exact .inl ⟨.contentLength, hlength, by rw [if_neg hhost, if_neg htype, if_pos hlength]⟩
  rw [if_neg hhost, if_neg htype, if_neg hlength]
  by_cases htransfer : sameName name (ascii "Transfer-Encoding") = true
  · exact .inl ⟨.transferEncoding, htransfer, if_pos htransfer⟩
  by_cases hauthorization : sameName name (ascii "Authorization") = true
  · exact .inl ⟨.authorization, hauthorization, by rw [if_neg htransfer, if_pos hauthorization]⟩
  rw [if_neg htransfer, if_neg hauthorization]
  by_cases hconnection : sameName name (ascii "Connection") = true
  · exact .inl ⟨.connection, hconnection, if_pos hconnection⟩
  refine .inr ⟨fun n => ?_, if_neg hconnection⟩
  rw [Bool.not_eq_true] at hhost htype hlength htransfer hauthorization hconnection
  cases n <;> assumption

theorem guard_eq_ok {P : Prop} [Decidable P] {e : HeadError} {x : HeadState} :
    (if P then .error e else .ok x) = Except.ok s ↔ ¬ P ∧ s = x := by
  split
  · rename_i h
    exact ⟨fun he => (nomatch he), fun hs => absurd h hs.1⟩
  · rename_i h
    rw [Except.ok.injEq, eq_comm]
    exact ⟨fun hs => ⟨h, hs⟩, And.right⟩

theorem takeContentLength_eq_ok {value : Bytes} :
    takeContentLength s value = .ok t ↔ ¬ (s.request.haveContentLength = true ∨ ¬ IsLength value) ∧
      t = { s with
        request := { s.request with contentLength := decimalValue value, haveContentLength := true } } := by
  rw [takeContentLength, not_or, not_not]
  split
  · rename_i hseen
    exact ⟨fun h => (nomatch h), fun h => absurd hseen h.1.1⟩
  · rename_i hseen
    cases hparse : parseContentLength value with
    | none =>
      refine ⟨fun h => (nomatch h), fun ⟨⟨_, hlength⟩, _⟩ => ?_⟩
      rw [parseContentLength_eq_some.mpr ⟨hlength, rfl⟩] at hparse
      cases hparse
    | some n =>
      obtain ⟨hlength, rfl⟩ := parseContentLength_eq_some.mp hparse
      rw [Except.ok.injEq, eq_comm]
      exact ⟨fun h => ⟨⟨hseen, hlength⟩, h⟩, And.right⟩

/-- The loop keeps what the fields so far describe, and goes on as long as they are acceptable. -/
theorem headerField_eq_ok (hfields : Acceptable fields) :
    headerField (headStateOf method target fields) f.name f.value = .ok s ↔
      Acceptable (fields ++ [f]) ∧ s = headStateOf method target (fields ++ [f]) := by
  rcases headerField_cases (headStateOf method target fields) f.name f.value with ⟨n, hn, heq⟩ | ⟨hnone, heq⟩
  · have hother : ∀ k, k ≠ n → valuesOf k (fields ++ [f]) = valuesOf k fields :=
      fun k hk => valuesOf_append_other hn hk
    have hsame : valuesOf n (fields ++ [f]) = valuesOf n fields ++ [f.value] := valuesOf_append_same hn
    rw [heq, acceptable_append_same hn]
    cases n with
    | host =>
      rw [takeHost, guard_eq_ok]
      cases hv : valuesOf .host fields with
      | cons v vs => simp [headStateOf, hv]
      | nil => simp [headStateOf, recordOf, hv, hfields, hsame, hother, AcceptableValue]
    | contentType =>
      rw [takeContentType, guard_eq_ok]
      cases hv : valuesOf .contentType fields with
      | cons v vs => simp [headStateOf, hv]
      | nil => simp [headStateOf, recordOf, hv, hfields, hsame, hother, AcceptableValue]
    | contentLength =>
      rw [takeContentLength_eq_ok]
      cases hv : valuesOf .contentLength fields with
      | cons v vs => simp [headStateOf, recordOf, hv]
      | nil => simp [headStateOf, recordOf, hv, hfields, hsame, hother, AcceptableValue]
    | transferEncoding => simp [AcceptableValue]
    | authorization =>
      rw [takeAuthorization, guard_eq_ok]
      cases hv : valuesOf .authorization fields with
      | cons v vs => simp [headStateOf, hv]
      | nil => simp [headStateOf, recordOf, hv, hfields, hsame, hother, AcceptableValue]
    | connection =>
      rw [takeConnection, guard_eq_ok]
      cases hv : valuesOf .connection fields with
      | cons v vs => simp [headStateOf, hv]
      | nil =>
        simp [headStateOf, recordOf, hv, hfields, hsame, hother, AcceptableValue, or_iff_not_imp_left]
  · rw [heq, acceptable_append_of_false hnone, Except.ok.injEq, eq_comm]
    simp [headStateOf, recordOf, hfields, valuesOf_append_of_false (hnone _)]

end Step

theorem Acceptable.of_append {fields more : List HeaderField} (h : Acceptable (fields ++ more)) :
    Acceptable fields := by
  intro n
  have hpre : valuesOf n fields <+: valuesOf n (fields ++ more) := by
    rw [valuesOf, valuesOf, List.filter_append, List.map_append]
    exact List.prefix_append _ _
  exact ⟨hpre.length_le.trans (h n).1, fun v hv => (h n).2 v (hpre.subset hv)⟩

/-- The loop over all header lines. -/
def takeFields (s : HeadState) (fields : List HeaderField) : Except HeadError HeadState :=
  fields.foldlM (fun s f => headerField s f.name f.value) s

theorem takeFields_eq_ok {method target : Bytes} {fields more : List HeaderField} {s : HeadState}
    (hfields : Acceptable fields) :
    takeFields (headStateOf method target fields) more = .ok s ↔
      Acceptable (fields ++ more) ∧ s = headStateOf method target (fields ++ more) := by
  induction more generalizing fields with
  | nil =>
    rw [List.append_nil, takeFields, List.foldlM_nil]
    exact ⟨fun h => ⟨hfields, (Except.ok.inj h).symm⟩, fun h => h.2 ▸ rfl⟩
  | cons f more ih =>
    rw [takeFields, List.foldlM_cons, bind_eq_ok, List.append_cons]
    constructor
    · rintro ⟨s', hfirst, hrest⟩
      obtain ⟨haccept, rfl⟩ := (headerField_eq_ok hfields).mp hfirst
      exact (ih haccept).mp hrest
    · intro h
      have haccept : Acceptable (fields ++ [f]) := h.1.of_append
      exact ⟨_, (headerField_eq_ok hfields).mpr ⟨haccept, rfl⟩, (ih haccept).mpr h⟩

/-! ## Header lines -/

theorem notMem_name {name : Bytes} {b : UInt8} (h : headerNameValid name = true)
    (hb : isTokenByte b = false) : b ∉ name := by
  rw [headerNameValid, decide_eq_true_iff, List.all_eq_true] at h
  intro hmem
  rw [h.2 b hmem] at hb
  cases hb

/-- A line is cut at its first colon. -/
theorem cut_at_colon {name : Bytes} (h : (58 : UInt8) ∉ name) (text : Bytes) :
    (name ++ 58 :: text).takeWhile (· ≠ 58) = name ∧ (name ++ 58 :: text).dropWhile (· ≠ 58) = 58 :: text := by
  have hname : ∀ b ∈ name, decide (b ≠ 58) = true := by
    intro b hb
    rw [decide_eq_true_iff]
    rintro rfl
    exact h hb
  rw [List.takeWhile_append_of_pos hname, List.dropWhile_append_of_pos hname,
    List.takeWhile_cons_of_neg (by decide), List.dropWhile_cons_of_neg (by decide), List.append_nil]
  exact ⟨rfl, rfl⟩

theorem headerLine_field (s : HeadState) (f : HeaderField) :
    headerLine s f.line = headerField s f.name f.value := by
  have hcolon : (58 : UInt8) ∉ f.name := notMem_name f.name_valid (by decide)
  have hname : f.name ≠ [] := by
    have := f.name_valid
    rw [headerNameValid, decide_eq_true_iff] at this
    exact this.1
  have hhead : ¬ ((58 : UInt8) ∉ f.line ∨ f.line.head? = some 58) := by
    rw [not_or, not_not, HeaderField.line]
    refine ⟨by simp, fun h => ?_⟩
    obtain ⟨b, name, hb⟩ := List.exists_cons_of_ne_nil hname
    rw [hb, List.cons_append, List.head?_cons, Option.some.injEq] at h
    rw [hb, h] at hcolon
    exact hcolon List.mem_cons_self
  have hcut := cut_at_colon hcolon f.text
  rw [headerLine, if_neg hhead, HeaderField.line, hcut.1, hcut.2, f.name_valid]
  rfl

/-- A line that the parser goes on from is a header line. -/
theorem field_of_headerLine {s s' : HeadState} {l : Bytes} (hnul : (0 : UInt8) ∉ l) (hl : Unbroken 13 10 l)
    (hbound : l.length ≤ maxLineBytes) (h : headerLine s l = .ok s') :
    ∃ f : HeaderField, f.line = l := by
  rw [headerLine] at h
  split at h
  · cases h
  rename_i hcolon
  rw [not_or, not_not] at hcolon
  split at h
  · cases h
  rename_i hvalid
  obtain ⟨name, text, rfl, hname⟩ := List.eq_append_cons_of_mem hcolon.1
  rw [(cut_at_colon hname text).1, Bool.not_eq_false] at hvalid
  refine ⟨⟨name, text, hvalid, fun h0 => hnul ?_, hl.of_inside ⟨name ++ [58], [], ?_⟩, hbound⟩, rfl⟩
  · exact List.mem_append_right name (List.mem_cons_of_mem 58 h0)
  · rw [List.append_nil, List.append_assoc]
    rfl

namespace HeaderField

variable (f : HeaderField)

theorem nul_notMem_line : (0 : UInt8) ∉ f.line := by
  rw [line, List.mem_append, List.mem_cons]
  rintro (h | h | h)
  · exact notMem_name f.name_valid (by decide) h
  · cases h
  · exact f.text_nul h

theorem line_unbroken : Unbroken 13 10 f.line := by
  rintro ⟨a, b, h⟩
  rw [line, List.append_assoc] at h
  have h13 : (13 : UInt8) ∉ f.name ++ [58] := by
    rw [List.mem_append]
    rintro (h | h)
    · exact notMem_name f.name_valid (by decide) h
    · revert h
      decide
  have hcut : (f.name ++ [58]) ++ f.text = a ++ 13 :: (10 :: b) := by
    rw [List.append_assoc]
    exact h.symm
  obtain ⟨c, -, htext⟩ := part_cases h13 hcut
  exact f.text_unbroken ⟨c, b, by rw [htext, List.append_assoc]; rfl⟩

theorem line_ne_nil : f.line ≠ [] := by
  rw [line]
  simp

end HeaderField

/-- The loop runs over the header lines up to an empty one. -/
theorem headerLines_fields {fuel : Nat} {fields : List HeaderField} (s : HeadState) (rest : Bytes)
    (hfuel : fields.length < fuel) :
    headerLines fuel s (fields.flatMap HeaderField.bytes ++ 13 :: 10 :: rest) = takeFields s fields := by
  induction fields generalizing fuel s with
  | nil =>
    obtain ⟨fuel, rfl⟩ := Nat.exists_eq_succ_of_ne_zero (Nat.ne_of_gt hfuel)
    rfl
  | cons f fields ih =>
    obtain ⟨fuel, rfl⟩ := Nat.exists_eq_succ_of_ne_zero (Nat.ne_zero_of_lt hfuel)
    have hcursor : (f :: fields).flatMap HeaderField.bytes ++ 13 :: 10 :: rest =
        f.line ++ 13 :: 10 :: (fields.flatMap HeaderField.bytes ++ 13 :: 10 :: rest) := by
      rw [List.flatMap_cons, HeaderField.bytes]
      simp only [List.append_assoc, List.cons_append, List.nil_append]
    have hhead : ¬ ((f.line ++ 13 :: 10 :: (fields.flatMap HeaderField.bytes ++ 13 :: 10 :: rest)).head?.getD 0 = 0) := by
      obtain ⟨b, l, hb⟩ := List.exists_cons_of_ne_nil f.line_ne_nil
      have hnul := f.nul_notMem_line
      rw [hb, List.mem_cons, not_or] at hnul
      rw [hb]
      exact Ne.symm hnul.1
    have hbound : ¬ maxLineBytes < f.line.length := Nat.not_lt.mpr f.bounded
    rw [hcursor, headerLines, if_neg hhead, splitLine_append f.nul_notMem_line f.line_unbroken]
    simp only [if_neg f.line_ne_nil, if_neg hbound, headerLine_field, takeFields, List.foldlM_cons]
    cases hstep : headerField s f.name f.value with
    | error e => rfl
    | ok s' => exact ih s' (Nat.lt_of_succ_lt_succ hfuel)

/-- What stops the loop without an error. -/
def StopsLoop (tail : Bytes) : Prop := tail = [] ∨ tail.head? = some 0 ∨ ∃ rest, tail = 13 :: 10 :: rest

theorem headerLines_eq_ok {fuel : Nat} {s s' : HeadState} {cursor : Bytes}
    (h : headerLines fuel s cursor = .ok s') : ∃ fields tail,
      cursor = fields.flatMap HeaderField.bytes ++ tail ∧ takeFields s fields = .ok s' ∧ StopsLoop tail := by
  induction fuel generalizing s cursor with
  | zero => cases h
  | succ fuel ih =>
    rw [headerLines] at h
    split at h
    · rename_i hhead
      refine ⟨[], cursor, rfl, h, ?_⟩
      cases cursor with
      | nil => exact .inl rfl
      | cons b cursor => exact .inr (.inl (congrArg some hhead))
    split at h
    · cases h
    rename_i l rest hsplit
    obtain ⟨rfl, hnul, hunbroken⟩ := splitLine_eq_some hsplit
    split at h
    · cases h
    rename_i hbound
    split at h
    · rename_i hnil
      rw [hnil]
      exact ⟨[], 13 :: 10 :: rest, rfl, h, .inr (.inr ⟨rest, rfl⟩)⟩
    split at h
    · cases h
    · rename_i s₁ hline
      obtain ⟨f, rfl⟩ := field_of_headerLine hnul hunbroken (Nat.not_lt.mp hbound) hline
      obtain ⟨fields, tail, rfl, hfields, hstops⟩ := ih h
      refine ⟨f :: fields, tail, ?_, ?_, hstops⟩
      · rw [List.flatMap_cons, HeaderField.bytes]
        simp only [List.append_assoc, List.cons_append, List.nil_append]
      · rw [headerLine_field] at hline
        rw [takeFields, List.foldlM_cons, hline]
        exact hfields

/-! ## Request lines -/

section Scan

variable {w : Bytes} {width : Nat}

theorem isSpace_space : isSpace 32 = true := by decide

/-- A word is read up to its end or up to the width. -/
theorem scanString_word (hw : w ≠ []) (hspace : ∀ b ∈ w, isSpace b = false) (hwidth : 0 < width)
    (rest : Bytes) (hrest : rest = [] ∨ rest.head? = some 32) :
    scanString width (w ++ rest) = some (w.take width, w.drop width ++ rest) := by
  obtain ⟨b, w', rfl⟩ := List.exists_cons_of_ne_nil hw
  have hdrop : ((b :: w') ++ rest).dropWhile isSpace = (b :: w') ++ rest := by
    rw [List.cons_append, List.dropWhile_cons_of_neg]
    rw [hspace b List.mem_cons_self]
    decide
  have hstop : rest.takeWhile (fun b => !isSpace b) = [] := by
    rcases hrest with rfl | hhead
    · rfl
    · cases rest with
      | nil => rfl
      | cons e rest =>
        rw [List.head?_cons, Option.some.injEq] at hhead
        rw [hhead, List.takeWhile_cons_of_neg (by decide)]
  have htake : ((b :: w') ++ rest).takeWhile (fun b => !isSpace b) = b :: w' := by
    rw [List.takeWhile_append_of_pos (fun e he => by rw [hspace e he]; rfl), hstop, List.append_nil]
  have hne : (b :: w').take width ≠ [] := by
    obtain ⟨width, rfl⟩ := Nat.exists_eq_succ_of_ne_zero (Nat.ne_of_gt hwidth)
    exact List.cons_ne_nil _ _
  rw [scanString]
  simp only [hdrop, htake, if_neg hne]
  rw [List.length_take, List.drop_append_of_le_length (Nat.min_le_right _ _)]
  congr 3
  rcases Nat.le_total width (b :: w').length with hle | hle
  · rw [Nat.min_eq_left hle]
  · rw [Nat.min_eq_right hle, List.drop_eq_nil_of_le hle, List.drop_length]

/-- A blank in front of a word is skipped. -/
theorem scanString_cons_space (bs : Bytes) : scanString width (32 :: bs) = scanString width bs := by
  rw [scanString, scanString, List.dropWhile_cons_of_pos isSpace_space]

/-- A request line of words is read whole. -/
theorem scanRequestLine_words {method target version : Bytes} (hm : IsWord 15 method)
    (ht : IsWord 255 target) (hv : IsWord 31 version) :
    scanRequestLine (method ++ 32 :: (target ++ 32 :: version)) = some (method, target, version) := by
  have hversion : scanString 31 version = some (version, []) := by
    have h : scanString 31 (version ++ []) = some (version.take 31, version.drop 31 ++ []) :=
      scanString_word hv.ne_nil hv.not_space (by decide) [] (.inl rfl)
    rw [List.append_nil, List.append_nil, List.take_of_length_le hv.length_le,
      List.drop_eq_nil_of_le hv.length_le] at h
    exact h
  have htarget : scanString 255 (target ++ 32 :: version) = some (target, 32 :: version) := by
    rw [scanString_word ht.ne_nil ht.not_space (by decide) _ (.inr rfl), List.take_of_length_le ht.length_le,
      List.drop_eq_nil_of_le ht.length_le, List.nil_append]
  have hmethod : scanString 15 (method ++ 32 :: (target ++ 32 :: version)) =
      some (method, 32 :: (target ++ 32 :: version)) := by
    rw [scanString_word hm.ne_nil hm.not_space (by decide) _ (.inr rfl), List.take_of_length_le hm.length_le,
      List.drop_eq_nil_of_le hm.length_le, List.nil_append]
  rw [scanRequestLine, hmethod]
  simp only [Option.bind_eq_bind, Option.bind_some, scanString_cons_space, htarget, hversion,
    List.dropWhile_nil, if_true]

/-- One word at most is taken: what stands behind the next blank is left. -/
theorem scanString_leaves {p q rest : Bytes} (hp : ∃ b ∈ p, isSpace b = false)
    (h : scanString width (p ++ 32 :: q) = some (w, rest)) : ∃ p', rest = p' ++ 32 :: q := by
  have hne : p.dropWhile isSpace ≠ [] := by
    obtain ⟨b, hb, hspace⟩ := hp
    rw [Ne, List.dropWhile_eq_nil_iff]
    intro hall
    rw [hall b hb] at hspace
    cases hspace
  have htext : (p ++ 32 :: q).dropWhile isSpace = p.dropWhile isSpace ++ 32 :: q := by
    rw [List.dropWhile_append, if_neg]
    rwa [List.isEmpty_iff]
  have htake : ((p.dropWhile isSpace ++ 32 :: q).takeWhile fun b => !isSpace b).length ≤
      (p.dropWhile isSpace).length := by
    rw [List.takeWhile_append, List.takeWhile_cons_of_neg (by decide), List.append_nil]
    split
    · exact Nat.le_refl _
    · exact List.takeWhile_sublist _ |>.length_le
  rw [scanString] at h
  simp only [htext] at h
  split at h
  · cases h
  · obtain ⟨-, rfl⟩ := Prod.mk.inj (Option.some.inj h)
    rw [List.drop_append_of_le_length]
    · exact ⟨_, rfl⟩
    · exact Nat.le_trans (List.length_take_le' _ _) htake

theorem dropWhile_ne_nil {p c : Bytes} (hc : c ≠ []) (hspace : ∀ b ∈ c, isSpace b = false) :
    (p ++ c).dropWhile isSpace ≠ [] := by
  rw [Ne, List.dropWhile_eq_nil_iff]
  intro hall
  obtain ⟨b, hb⟩ := List.exists_mem_of_ne_nil c hc
  have := hall b (List.mem_append_right p hb)
  rw [hspace b hb] at this
  cases this

theorem exists_not_space {p x : Bytes} (hx : x ≠ []) (hspace : ∀ b ∈ x, isSpace b = false) :
    ∃ b ∈ p ++ x, isSpace b = false := by
  obtain ⟨b, hb⟩ := List.exists_mem_of_ne_nil x hx
  exact ⟨b, List.mem_append_right p hb, hspace b hb⟩

/-- Three words between single blanks are read as they are, or not at all. -/
theorem words_of_scanRequestLine {a b c method target version : Bytes} (ha : a ≠ [])
    (hb : b ≠ []) (hc : c ≠ []) (ha' : ∀ x ∈ a, isSpace x = false) (hb' : ∀ x ∈ b, isSpace x = false)
    (hc' : ∀ x ∈ c, isSpace x = false)
    (h : scanRequestLine (a ++ 32 :: (b ++ 32 :: c)) = some (method, target, version)) :
    (method = a ∧ a.length ≤ 15) ∧ (target = b ∧ b.length ≤ 255) ∧ version = c := by
  rw [scanRequestLine, scanString_word ha ha' (by decide) _ (.inr rfl)] at h
  simp only [Option.bind_eq_bind, Option.bind_some, Option.bind_eq_some_iff] at h
  obtain ⟨⟨target', rest₂⟩, hscan₂, ⟨version', rest₃⟩, hscan₃, hend⟩ := h
  simp only [Option.ite_none_right_eq_some, Option.some.injEq, Prod.mk.injEq] at hend
  obtain ⟨hend, rfl, rfl, rfl⟩ := hend
  -- a word that is left behind the last of three would be found by `%c`
  have hlast : ∀ p, rest₃ ≠ p ++ 32 :: c := by
    rintro p rfl
    refine dropWhile_ne_nil (p := p ++ [32]) hc hc' ?_
    rw [List.append_assoc]
    exact hend
  have hlength_a : a.length ≤ 15 := by
    by_contra hlong
    have hrest : a.drop 15 ≠ [] := by
      rw [Ne, List.drop_eq_nil_iff]
      exact hlong
    obtain ⟨p, rfl⟩ := scanString_leaves (p := a.drop 15)
      (exists_not_space (p := []) hrest fun x hx => ha' x (List.mem_of_mem_drop hx)) hscan₂
    have hassoc : p ++ 32 :: (b ++ 32 :: c) = ((p ++ [32]) ++ b) ++ 32 :: c := by
      simp only [List.append_assoc, List.cons_append, List.nil_append]
    rw [hassoc] at hscan₃
    obtain ⟨p', hp'⟩ := scanString_leaves (exists_not_space hb hb') hscan₃
    exact hlast p' hp'
  rw [List.drop_eq_nil_of_le hlength_a, List.nil_append, scanString_cons_space,
    scanString_word hb hb' (by decide) _ (.inr rfl), Option.some.injEq, Prod.mk.injEq] at hscan₂
  obtain ⟨rfl, rfl⟩ := hscan₂
  have hlength_b : b.length ≤ 255 := by
    by_contra hlong
    have hrest : b.drop 255 ≠ [] := by
      rw [Ne, List.drop_eq_nil_iff]
      exact hlong
    obtain ⟨p', hp'⟩ := scanString_leaves (p := b.drop 255)
      (exists_not_space (p := []) hrest fun x hx => hb' x (List.mem_of_mem_drop hx)) hscan₃
    exact hlast p' hp'
  have hscan_c : scanString 31 (c ++ []) = some (c.take 31, c.drop 31 ++ []) :=
    scanString_word hc hc' (by decide) [] (.inl rfl)
  rw [List.append_nil, List.append_nil] at hscan_c
  rw [List.drop_eq_nil_of_le hlength_b, List.nil_append, scanString_cons_space, hscan_c, Option.some.injEq,
    Prod.mk.injEq] at hscan₃
  obtain ⟨rfl, rfl⟩ := hscan₃
  have hdrop : c.drop 31 = [] := by
    by_contra hne
    exact dropWhile_ne_nil (p := []) hne (fun x hx => hc' x (List.mem_of_mem_drop hx)) hend
  exact ⟨⟨List.take_of_length_le hlength_a, hlength_a⟩, ⟨List.take_of_length_le hlength_b, hlength_b⟩,
    List.take_of_length_le (List.drop_eq_nil_iff.mp hdrop)⟩

end Scan

/-! ## Heads -/

theorem isWord_version : IsWord 31 (ascii "HTTP/1.1") :=
  ⟨by decide, by decide, by decide, by decide +kernel⟩

theorem IsWord.notMem {n : Nat} {w : Bytes} (h : IsWord n w) {b : UInt8} (hb : isSpace b = true) : b ∉ w := by
  intro hmem
  rw [h.not_space b hmem] at hb
  cases hb

section Words

variable {m n k : Nat} {a b c : Bytes}

/-- A line of three words has no line break and no NUL. -/
theorem words_line (ha : IsWord m a) (hb : IsWord n b) (hc : IsWord k c) :
    (0 : UInt8) ∉ a ++ 32 :: (b ++ 32 :: c) ∧ Unbroken 13 10 (a ++ 32 :: (b ++ 32 :: c)) := by
  have hmem : ∀ x : UInt8, x ≠ 32 → x ∉ a → x ∉ b → x ∉ c → x ∉ a ++ 32 :: (b ++ 32 :: c) := by
    intro x hx hxa hxb hxc
    simp only [List.mem_append, List.mem_cons, not_or]
    exact ⟨hxa, hx, hxb, hx, hxc⟩
  refine ⟨hmem 0 (by decide) ha.notMem_nul hb.notMem_nul hc.notMem_nul, unbroken_of_notMem ?_⟩
  exact hmem 13 (by decide) (ha.notMem (by decide)) (hb.notMem (by decide)) (hc.notMem (by decide))

end Words

theorem length_le_flatMap_bytes (fields : List HeaderField) :
    fields.length ≤ (fields.flatMap HeaderField.bytes).length := by
  induction fields with
  | nil => exact Nat.le_refl 0
  | cons f fields ih =>
    rw [List.flatMap_cons, List.length_append, List.length_cons, HeaderField.bytes, List.length_append,
      List.length_cons]
    omega

/-- A head of the grammar is read as its fields say. -/
theorem parseHead_of_head {input : Bytes} {request : CoreHttpRequest} {fields : List HeaderField}
    (h : HeadOf input request fields) : parseHead input = .ok request := by
  obtain ⟨hnul, hunbroken⟩ := words_line h.method h.target isWord_version
  have hfields : fields ≠ [] := by
    rintro rfl
    exact h.host rfl
  have htext : input = (request.method ++ 32 :: (request.target ++ 32 :: ascii "HTTP/1.1")) ++ 13 :: 10 ::
      (fields.flatMap HeaderField.bytes ++ [13, 10]) := by
    rw [h.text]
    simp only [List.append_assoc, List.cons_append]
  -- the last field ends in a line break, and the empty line in another
  have hends : ∃ a, input = a ++ [13, 10, 13, 10] := by
    obtain ⟨before, last, rfl⟩ : ∃ before last, fields = before ++ [last] :=
      ⟨fields.dropLast, fields.getLast hfields, (List.dropLast_append_getLast hfields).symm⟩
    refine ⟨request.method ++ 32 :: (request.target ++ 32 :: ascii "HTTP/1.1") ++ 13 :: 10 ::
      (before.flatMap HeaderField.bytes ++ last.line), ?_⟩
    rw [htext, List.flatMap_append, List.flatMap_singleton, HeaderField.bytes]
    simp only [List.append_assoc, List.cons_append, List.nil_append]
  obtain ⟨a, ha⟩ := hends
  have hsize : ¬ (input.length < 4 ∨ maxHeaderBytes < input.length) := by
    have hlength : input.length = a.length + 4 := by rw [ha, List.length_append]; rfl
    have := h.length_le
    omega
  have hdrop : input.drop (input.length - 4) = [13, 10, 13, 10] := by
    rw [ha, List.length_append, List.length_cons, List.length_cons, List.length_cons, List.length_singleton,
      Nat.add_sub_cancel, List.drop_left]
  have hline : ¬ maxLineBytes < (request.method ++ 32 :: (request.target ++ 32 :: ascii "HTTP/1.1")).length := by
    have hm := h.method.length_le
    have ht := h.target.length_le
    have hv : (ascii "HTTP/1.1").length = 8 := by decide
    rw [List.length_append, List.length_cons, List.length_append, List.length_cons, hv, maxLineBytes]
    omega
  have hfuel : fields.length < (fields.flatMap HeaderField.bytes ++ [13, 10]).length + 1 := by
    have := length_le_flatMap_bytes fields
    rw [List.length_append]
    omega
  have hlines : headerLines ((fields.flatMap HeaderField.bytes ++ [13, 10]).length + 1)
      (headStart request.method request.target) (fields.flatMap HeaderField.bytes ++ [13, 10]) =
      .ok (headStateOf request.method request.target fields) := by
    rw [headerLines_fields _ [] hfuel, ← headStateOf_nil, takeFields_eq_ok acceptable_nil]
    exact ⟨h.acceptable, rfl⟩
  have hhost : (headStateOf request.method request.target fields).haveHost = true := by
    rw [headStateOf, Bool.not_eq_true', List.isEmpty_eq_false_iff]
    exact h.host
  rw [parseHead, if_neg hsize, if_neg (not_not.mpr hdrop), htext, splitLine_append hnul hunbroken]
  simp only [if_neg hline, scanRequestLine_words h.method h.target isWord_version, ne_eq, not_true_eq_false,
    if_false, hlines, if_pos hhost]
  exact congrArg Except.ok h.recorded.symm

/-! ## Heads that are read whole -/

/-- The only white space in the request line is a blank after the first and a blank after the second of three
words, no line starts with a NUL, and the first empty line is the end. -/
structure PlainHead (input : Bytes) : Prop where
  spaced : ∃ a b c rest, input = a ++ 32 :: (b ++ 32 :: (c ++ 13 :: 10 :: rest)) ∧
    (a ≠ [] ∧ ∀ x ∈ a, isSpace x = false) ∧ (b ≠ [] ∧ ∀ x ∈ b, isSpace x = false) ∧
    (c ≠ [] ∧ ∀ x ∈ c, isSpace x = false)
  nul : ¬ [13, 10, 0] <:+: input
  empty : ∀ a b, input = a ++ [13, 10, 13, 10] ++ b → b = []

/-- What `parseHead` has found out about a head that it accepts. -/
theorem parseHead_eq_ok {input : Bytes} {request : CoreHttpRequest} (h : parseHead input = .ok request) :
    input.length ≤ maxHeaderBytes ∧ (∃ a, input = a ++ [13, 10, 13, 10]) ∧
      ∃ line rest method target fields tail, input = line ++ 13 :: 10 :: rest ∧
        (0 : UInt8) ∉ line ∧ Unbroken 13 10 line ∧
        scanRequestLine line = some (method, target, ascii "HTTP/1.1") ∧
        rest = fields.flatMap HeaderField.bytes ++ tail ∧ StopsLoop tail ∧ Acceptable fields ∧
        valuesOf .host fields ≠ [] ∧ request = recordOf method target fields := by
  rw [parseHead] at h
  split at h
  · cases h
  rename_i hsize
  split at h
  · cases h
  rename_i hends
  split at h
  · cases h
  rename_i line rest hsplit
  split at h
  · cases h
  split at h
  · cases h
  rename_i method target version hscan
  split at h
  · cases h
  rename_i hversion
  split at h
  · cases h
  rename_i s hlines
  split at h
  · rename_i hhost
    rw [not_or] at hsize
    rw [not_not] at hends hversion
    obtain ⟨hinput, hnul, hunbroken⟩ := splitLine_eq_some hsplit
    obtain ⟨fields, tail, hrest, hfields, hstops⟩ := headerLines_eq_ok hlines
    rw [← headStateOf_nil, takeFields_eq_ok acceptable_nil, List.nil_append] at hfields
    obtain ⟨haccept, rfl⟩ := hfields
    refine ⟨Nat.not_lt.mp hsize.2, ⟨input.take (input.length - 4), ?_⟩, line, rest, method, target, fields,
      tail, hinput, hnul, hunbroken, hversion ▸ hscan, hrest, hstops, haccept, ?_, (Except.ok.inj h).symm⟩
    · rw [← hends, List.take_append_drop]
    · rw [headStateOf, Bool.not_eq_true', List.isEmpty_eq_false_iff] at hhost
      exact hhost
  · cases h

/-- The lines of a head, the empty one apart. -/
theorem head_lines {line : Bytes} (fields : List HeaderField) (tail : Bytes) :
    line ++ 13 :: 10 :: (fields.flatMap HeaderField.bytes ++ tail) =
      (line :: fields.map HeaderField.line).flatMap (fun l => l ++ [13, 10]) ++ tail := by
  rw [List.flatMap_cons, List.flatMap_map]
  simp only [List.append_assoc, List.cons_append, List.nil_append]
  rfl

theorem forall_head_line {line : Bytes} (hline : Unbroken 13 10 line) (hne : line ≠ [])
    (fields : List HeaderField) :
    ∀ l ∈ line :: fields.map HeaderField.line, Unbroken 13 10 l ∧ l ≠ [] := by
  intro l hl
  rw [List.mem_cons, List.mem_map] at hl
  rcases hl with rfl | ⟨f, -, rfl⟩
  · exact ⟨hline, hne⟩
  · exact ⟨f.line_unbroken, f.line_ne_nil⟩

/-- The loop does not reach the end of the input, which is an empty line. -/
theorem tail_ne_nil {line a : Bytes} {fields : List HeaderField} {tail : Bytes} (hline : Unbroken 13 10 line)
    (hne : line ≠ []) (h : line ++ 13 :: 10 :: (fields.flatMap HeaderField.bytes ++ tail) = a ++ [13, 10, 13, 10]) :
    tail ≠ [] := by
  rintro rfl
  have hlines := forall_head_line hline hne fields
  rw [head_lines] at h
  rcases break_in_lines (by decide) (fun l hl => (hlines l hl).1) h with ⟨post, hpost, hy⟩ | ⟨x, hx⟩
  · exact absurd (lines_no_break (by decide) (fun l hl => hlines l (hpost.subset hl)) hy.symm) (by simp)
  · simp at hx

/-- A header line or the request line ends right before the place at which the loop stops. -/
theorem break_before_tail (line : Bytes) (fields : List HeaderField) :
    ∃ a, ∀ tail, line ++ 13 :: 10 :: (fields.flatMap HeaderField.bytes ++ tail) = a ++ 13 :: 10 :: tail := by
  rcases List.eq_nil_or_concat fields with rfl | ⟨before, last, rfl⟩
  · exact ⟨line, fun tail => rfl⟩
  · refine ⟨line ++ 13 :: 10 :: (before.flatMap HeaderField.bytes ++ last.line), fun tail => ?_⟩
    rw [List.concat_eq_append, List.flatMap_append, List.flatMap_singleton, HeaderField.bytes]
    simp only [List.append_assoc, List.cons_append, List.nil_append]

theorem head_of_plain {input : Bytes} {request : CoreHttpRequest} (h : parseHead input = .ok request)
    (hplain : PlainHead input) : ∃ fields, HeadOf input request fields := by
  obtain ⟨hsize, ⟨e, hends⟩, line, rest, method, target, fields, tail, hinput, hnul, hunbroken, hscan, rfl, hstops,
    haccept, hhost, rfl⟩ := parseHead_eq_ok h
  obtain ⟨a, b, c, rest', hwords, ⟨ha, ha'⟩, ⟨hb, hb'⟩, hc, hc'⟩ := hplain.spaced
  have hcr : (13 : UInt8) ∉ a ++ 32 :: (b ++ 32 :: c) := by
    intro hmem
    simp only [List.mem_append, List.mem_cons] at hmem
    rcases hmem with hmem | hmem | hmem | hmem | hmem
    · exact absurd (ha' 13 hmem) (by decide)
    · exact absurd hmem (by decide)
    · exact absurd (hb' 13 hmem) (by decide)
    · exact absurd hmem (by decide)
    · exact absurd (hc' 13 hmem) (by decide)
  have hassoc : a ++ 32 :: (b ++ 32 :: (c ++ 13 :: 10 :: rest')) =
      (a ++ 32 :: (b ++ 32 :: c)) ++ 13 :: 10 :: rest' := by
    simp only [List.append_assoc, List.cons_append]
  have hfirst : line = a ++ 32 :: (b ++ 32 :: c) :=
    (first_line_inj (by decide) hunbroken (unbroken_of_notMem hcr) (by rw [← hinput, hwords, hassoc])).1
  subst hfirst
  obtain ⟨⟨rfl, hmethod⟩, ⟨rfl, htarget⟩, rfl⟩ := words_of_scanRequestLine ha hb hc ha' hb' hc' hscan
  simp only [List.mem_append, List.mem_cons, not_or] at hnul
  obtain ⟨x, hx⟩ := break_before_tail (method ++ 32 :: (target ++ 32 :: ascii "HTTP/1.1")) fields
  have htail : tail = [13, 10] := by
    rcases hstops with hnil | hzero | ⟨after, rfl⟩
    · exact absurd hnil (tail_ne_nil hunbroken (by simp) (hinput.symm.trans hends))
    · cases tail with
      | nil => cases hzero
      | cons z tail =>
        rw [List.head?_cons, Option.some.injEq] at hzero
        refine absurd ⟨x, tail, ?_⟩ hplain.nul
        rw [hinput, hx, hzero, List.append_assoc]
        rfl
    · have hafter : after = [] := by
        refine hplain.empty x after ?_
        rw [hinput, hx, List.append_assoc]
        rfl
      rw [hafter]
  refine ⟨fields, ⟨?_, hsize, ⟨ha, hmethod, hnul.1, ha'⟩, ⟨hb, htarget, hnul.2.2.1, hb'⟩, haccept, hhost, rfl⟩⟩
  rw [hinput, htail]
  simp only [List.append_assoc, List.cons_append]
  rfl

theorem HeadOf.plain {input : Bytes} {request : CoreHttpRequest} {fields : List HeaderField}
    (h : HeadOf input request fields) : PlainHead input := by
  obtain ⟨-, hunbroken⟩ := words_line h.method h.target isWord_version
  have hline : request.method ++ 32 :: (request.target ++ 32 :: ascii "HTTP/1.1") ≠ [] := by simp
  have hlines := forall_head_line hunbroken hline fields
  have htext : input = ((request.method ++ 32 :: (request.target ++ 32 :: ascii "HTTP/1.1")) ::
      fields.map HeaderField.line).flatMap (fun l => l ++ [13, 10]) ++ [13, 10] := by
    rw [← head_lines, h.text]
    simp only [List.append_assoc, List.cons_append]
  -- after a line break comes another line, which is not empty, or the empty line at the end
  have hbreak : ∀ x y, input = x ++ 13 :: 10 :: y → y = [] ∨ ∃ post : List Bytes,
      (∀ l ∈ post, Unbroken 13 10 l ∧ l ≠ []) ∧ (∀ l ∈ post, (0 : UInt8) ∉ l) ∧ y = post.flatMap (fun l => l ++ [13, 10]) ++ [13, 10] := by
    intro x y hy
    rw [htext] at hy
    rcases break_in_lines (by decide) (fun l hl => (hlines l hl).1) hy with ⟨post, hpost, hy⟩ | ⟨x', hx'⟩
    · refine .inr ⟨post, fun l hl => hlines l (hpost.subset hl), fun l hl => ?_, hy⟩
      have hmem := hpost.subset hl
      rw [List.mem_cons, List.mem_map] at hmem
      rcases hmem with rfl | ⟨f, -, rfl⟩
      · exact (words_line h.method h.target isWord_version).1
      · exact f.nul_notMem_line
    · have := congrArg List.length hx'
      simp only [List.length_append, List.length_cons, List.length_nil] at this
      exact .inl (List.eq_nil_of_length_eq_zero (by omega))
  refine ⟨⟨request.method, request.target, ascii "HTTP/1.1", _, h.text, ⟨h.method.ne_nil, h.method.not_space⟩,
    ⟨h.target.ne_nil, h.target.not_space⟩, isWord_version.ne_nil, isWord_version.not_space⟩, ?_, ?_⟩
  · rintro ⟨x, y, hxy⟩
    rcases hbreak x (0 :: y) (by rw [← hxy, List.append_assoc]; rfl) with hnil | ⟨post, hpost, hnul, hy⟩
    · cases hnil
    · cases post with
      | nil => simp at hy
      | cons l post =>
        obtain ⟨b, l, rfl⟩ := List.exists_cons_of_ne_nil (hpost l List.mem_cons_self).2
        rw [List.flatMap_cons, List.cons_append, List.cons_append, List.cons_append] at hy
        exact hnul (b :: l) List.mem_cons_self ((List.cons.inj hy).1 ▸ List.mem_cons_self)
  · intro x y hxy
    rcases hbreak x (13 :: 10 :: y) (by rw [hxy, List.append_assoc]; rfl) with hnil | ⟨post, hpost, -, hy⟩
    · cases hnil
    · have hend := lines_no_break (by decide) hpost hy.symm
      simp only [List.cons.injEq, true_and] at hend
      exact hend.symm

/-- **The heads that are read whole.**  Every head of the grammar is accepted, with what its fields say.  A head
that is accepted is one of the grammar, all of it read, just when its request line is spaced as it should be, no
line starts with a NUL and nothing follows the first empty line. -/
theorem parseHead_exact (input : Bytes) :
    (∀ request fields, HeadOf input request fields → parseHead input = .ok request) ∧
    ∀ request, parseHead input = .ok request → ((∃ fields, HeadOf input request fields) ↔ PlainHead input) :=
  ⟨fun _ _ => parseHead_of_head, fun _ h => ⟨fun ⟨_, hhead⟩ => hhead.plain, head_of_plain h⟩⟩

def sampleHost : HeaderField where
  name := ascii "Host"
  text := ascii " a"
  name_valid := by decide
  text_nul := by decide
  text_unbroken := unbroken_of_notMem (by decide)
  bounded := by decide

theorem parseHead_exact_sample : ∃ request,
    HeadOf (ascii "GET /health/ready HTTP/1.1\r\nHost: a\r\n\r\n") request [sampleHost] ∧
      parseHead (ascii "GET /health/ready HTTP/1.1\r\nHost: a\r\n\r\n") = .ok request ∧
      PlainHead (ascii "GET /health/ready HTTP/1.1\r\nHost: a\r\n\r\n") := by
  have hacceptable : Acceptable [sampleHost] := by
    have hvalue : AcceptableValue .host sampleHost.value := by
      change sampleHost.value ≠ []
      decide
    exact (acceptable_append_same (n := .host) (by decide)).mpr ⟨acceptable_nil, rfl, hvalue⟩
  have hhead : HeadOf (ascii "GET /health/ready HTTP/1.1\r\nHost: a\r\n\r\n")
      (recordOf (ascii "GET") (ascii "/health/ready") [sampleHost]) [sampleHost] :=
    ⟨by decide, by decide, ⟨by decide, by decide, by decide, by decide +kernel⟩,
      ⟨by decide, by decide, by decide, by decide +kernel⟩, hacceptable, by decide, rfl⟩
  have haccepted := (parseHead_exact _).1 _ _ hhead
  exact ⟨_, hhead, haccepted, ((parseHead_exact _).2 _ haccepted).mp ⟨_, hhead⟩⟩

/-- A head with a field that the loop does not come to. -/
def smuggledHead : Bytes :=
  ascii "GET /health/ready HTTP/1.1\r\nHost: a\r\n" ++ 0 :: ascii "\r\nTransfer-Encoding: chunked\r\n\r\n"

/-- A line that starts with a NUL hides what follows it. -/
theorem parseHead_skips : ¬ ∀ input request, parseHead input = .ok request →
    ∃ fields, HeadOf input request fields := by
  intro h
  have haccepted : parseHead smuggledHead = .ok { CoreHttpRequest.init with
      method := ascii "GET", target := ascii "/health/ready", closeConnection := true } := by
    decide
  obtain ⟨fields, hhead⟩ := h smuggledHead _ haccepted
  refine hhead.plain.nul ⟨ascii "GET /health/ready HTTP/1.1\r\nHost: a", ?_⟩
  exact ⟨ascii "\r\nTransfer-Encoding: chunked\r\n\r\n", by decide⟩

end Yappod

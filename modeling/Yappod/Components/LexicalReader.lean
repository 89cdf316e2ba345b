import Yappod.Components.Lexical
import Yappod.Storage.ManifestCodec

/-!
# The reader of the lexical files

`YAP_V2_lexical_segment_open` maps `terms.yap2`, `postings.yap2` and `positions.yap2`, checks them once
from one end to the other, and from then on the accessors read in the mappings without looking again.

The checks themselves read through offsets that the files give, so what matters is not only what they
accept but where they look: a read is `getU32` or `getU64` at an index, and one outside its file is the
fault `outOfBounds`.  File values are at most 64 bits wide; sums and products of them are taken modulo
`2 ^ 64`, as the code takes them.
-/

set_option autoImplicit false

namespace Yappod

/-! ## Reading memory -/

/-- Why a reader stops: with a status, or by looking outside a file. -/
inductive Fault
  | status (s : Status)
  | outOfBounds
  deriving DecidableEq, Repr

abbrev Check (α : Type) := Except Fault α

/-- `return YAP_V2_INVALID_FORMAT`. -/
def invalid {α : Type} : Check α := .error (.status .invalidFormat)

/-- Go on unless a condition holds. -/
def refuse (b : Bool) : Check Unit := if b = true then invalid else .ok ()

/-- A number of the given width. -/
def getNumber (width : Nat) (data : Bytes) (i : Nat) : Check Nat :=
  if i + width ≤ data.length then .ok (leValue ((data.drop i).take width)) else .error .outOfBounds

def getU32 : Bytes → Nat → Check Nat := getNumber 4

def getU64 : Bytes → Nat → Check Nat := getNumber 8

/-- Arithmetic on `uint64_t` and `size_t`. -/
def u64 (n : Nat) : Nat := n % 2 ^ 64

/-- Arithmetic on `uint32_t`. -/
def u32 (n : Nat) : Nat := n % 2 ^ 32

def uint32Max : Nat := 2 ^ 32 - 1

/-- `range_valid`. -/
def rangeValid (offset bytes size : Nat) : Bool := offset ≤ size ∧ bytes ≤ size - offset

/-! ## The structures -/

/-- Three numbers, one for each field. -/
structure PerField where
  title : Nat
  body : Nat
  passage : Nat
  deriving DecidableEq, Repr

/-- The number of the field with that code, 1 to 3. -/
def PerField.get (x : PerField) : Nat → Nat
  | 1 => x.title
  | 2 => x.body
  | _ => x.passage

/-- Put a number for the field with that code. -/
def PerField.put (x : PerField) (field n : Nat) : PerField :=
  match field with
  | 1 => { x with title := n }
  | 2 => { x with body := n }
  | _ => { x with passage := n }

/-- `YAP_V2_TERM_ENTRY`. -/
structure TermEntry where
  term : Bytes
  documentFrequency : Nat
  postingsOffset : Nat
  postingsBytes : Nat
  positionsOffset : Nat
  positionsBytes : Nat
  deriving DecidableEq, Repr

/-- `YAP_V2_POSTING`. -/
structure Posting where
  objectType : Nat
  objectOrdinal : Nat
  termFrequency : PerField
  fieldLength : PerField
  positionOffset : Nat
  positionCount : Nat
  deriving DecidableEq, Repr

/-- `YAP_V2_POSTINGS_BLOCK`. -/
structure PostingsBlock where
  firstPosting : Nat
  postingCount : Nat
  maxTermFrequency : Nat
  minFieldLength : Nat
  deriving DecidableEq, Repr

/-- The three files. -/
structure LexicalMaps where
  terms : Bytes
  postings : Bytes
  positions : Bytes
  deriving DecidableEq

/-- The totals at the front of the postings and the positions. -/
structure LexicalTotals where
  documentCount : Nat
  passageCount : Nat
  postingCount : Nat
  positionCount : Nat
  fieldTokenCount : PerField
  deriving DecidableEq, Repr

/-- `YAP_V2_LEXICAL_SEGMENT`. -/
structure LexicalSegment where
  maps : LexicalMaps
  generation : Nat
  totals : LexicalTotals
  terms : List TermEntry
  deriving DecidableEq

def lexicalPayloadVersion : Nat := 1

def postingBytes : Nat := 48

def blockBytes : Nat := 16

/-- `sizeof(YAP_V2_TERM_ENTRY)`. -/
def termEntrySize : Nat := 56

def fileTypeTerms : Nat := 1

def fileTypePostings : Nat := 2

def fileTypePositions : Nat := 3

/-- `term_compare`: by the bytes, a prefix before what it is a prefix of. -/
def termCompare : Bytes → Bytes → Ordering
  | [], [] => .eq
  | [], _ :: _ => .lt
  | _ :: _, [] => .gt
  | a :: as, b :: bs => if a < b then .lt else if b < a then .gt else termCompare as bs

/-! ## The terms -/

/-- One entry of the terms, and where the next begins. -/
def parseTerm (data : Bytes) (offset : Nat) : Check (TermEntry × Nat) := do
  refuse (!rangeValid offset 4 data.length)
  let length ← getU32 data offset
  let offset := offset + 4
  refuse (length = 0 ∨ !rangeValid offset (length + 40) data.length)
  let start := offset + length
  let documentFrequency ← getU64 data start
  let postingsOffset ← getU64 data (start + 8)
  let postingsBytes ← getU64 data (start + 16)
  let positionsOffset ← getU64 data (start + 24)
  let positionsBytes ← getU64 data (start + 32)
  return (⟨(data.drop offset).take length, documentFrequency, postingsOffset, postingsBytes,
    positionsOffset, positionsBytes⟩, start + 40)

/-- The loop of `validate_term_stream`. -/
def parseTerms (data : Bytes) : Nat → Option TermEntry → Nat → Check (List TermEntry × Nat)
  | 0, _, offset => .ok ([], offset)
  | n + 1, previous, offset => do
    let (e, next) ← parseTerm data offset
    refuse (e.documentFrequency = 0 ∨ previous.any fun p => termCompare p.term e.term ≠ .lt)
    let (es, stop) ← parseTerms data n (some e) next
    return (e :: es, stop)

/-- `validate_term_stream`. -/
def validateTermStream (data : Bytes) : Check (List TermEntry) := do
  refuse (!rangeValid fileHeaderBytes 12 data.length)
  let version ← getU32 data fileHeaderBytes
  refuse (version ≠ lexicalPayloadVersion)
  let count ← getU64 data (fileHeaderBytes + 4)
  if maxSegmentPayloadBytes / termEntrySize < count then .error (.status .outOfRange)
  else do
    let (es, stop) ← parseTerms data count none (fileHeaderBytes + 12)
    refuse (stop ≠ data.length)
    return es

/-! ## The postings and the positions -/

/-- `parse_posting`. -/
def parsePosting (data : Bytes) (i : Nat) : Check Posting := do
  let objectType ← getU32 data i
  let objectOrdinal ← getU64 data (i + 4)
  let title ← getU32 data (i + 12)
  let body ← getU32 data (i + 16)
  let passage ← getU32 data (i + 20)
  let titleLength ← getU32 data (i + 24)
  let bodyLength ← getU32 data (i + 28)
  let passageLength ← getU32 data (i + 32)
  let positionOffset ← getU64 data (i + 36)
  let positionCount ← getU32 data (i + 44)
  return ⟨objectType, objectOrdinal, ⟨title, body, passage⟩,
    ⟨titleLength, bodyLength, passageLength⟩, positionOffset, positionCount⟩

/-- How often the term occurs in the object. -/
def Posting.frequency (p : Posting) : Nat :=
  p.termFrequency.title + p.termFrequency.body + p.termFrequency.passage

/-- Where the code looks for the `k`-th position of a posting, if the positions of the term begin at
`base`. -/
def positionIndex (base : Nat) (p : Posting) (k : Nat) : Nat :=
  u64 (base + u64 (u64 (p.positionOffset + k) * 8))

/-- The loop over the positions of a posting, from the `k`-th on: what it has counted in each field,
and the last position it has seen there. -/
def checkPositions (data : Bytes) (base : Nat) (p : Posting) :
    Nat → Nat → PerField → PerField → Check PerField
  | 0, _, counts, _ => .ok counts
  | n + 1, k, counts, previous => do
    let field ← getU32 data (positionIndex base p k)
    let position ← getU32 data (u64 (positionIndex base p k + 4))
    refuse (field < 1 ∨ 3 < field ∨ p.fieldLength.get field ≤ position ∨
      (0 < counts.get field ∧ position ≤ previous.get field))
    checkPositions data base p n (k + 1) (counts.put field (u32 (counts.get field + 1)))
      (previous.put field position)

/-- The conditions on a posting: `records` is the number of positions of its term. -/
def Posting.refused (totals : LexicalTotals) (records : Nat) (previous : Option Posting)
    (p : Posting) : Bool :=
  (p.objectType ≠ 1 ∧ p.objectType ≠ 2) ∨
    (p.objectType = 1 ∧ totals.documentCount ≤ p.objectOrdinal) ∨
    (p.objectType = 2 ∧ totals.passageCount ≤ p.objectOrdinal) ∨
    p.frequency = 0 ∨ p.frequency ≠ p.positionCount ∨
    records < u64 (p.positionOffset + p.positionCount) ∨
    previous.any fun q => p.objectType < q.objectType ∨
      (p.objectType = q.objectType ∧ p.objectOrdinal ≤ q.objectOrdinal)

/-- The loop over the postings of a term, from the `i`-th on. -/
def checkPostings (maps : LexicalMaps) (totals : LexicalTotals) (postingData base records : Nat) :
    Nat → Nat → Option Posting → Check Unit
  | 0, _, _ => .ok ()
  | n + 1, i, previous => do
    let p ← parsePosting maps.postings (postingData + i * postingBytes)
    refuse (p.refused totals records previous)
    let counts ← checkPositions maps.positions base p p.positionCount 0 ⟨0, 0, 0⟩ ⟨0, 0, 0⟩
    refuse (counts ≠ p.termFrequency)
    checkPostings maps totals postingData base records n (i + 1) (some p)

/-- The length of the shortest field that the term occurs in. -/
def Posting.shortest (p : Posting) : Nat :=
  let length := if 0 < p.termFrequency.title ∧ p.fieldLength.title < uint32Max then
    p.fieldLength.title else uint32Max
  let length := if 0 < p.termFrequency.body ∧ p.fieldLength.body < length then
    p.fieldLength.body else length
  if 0 < p.termFrequency.passage ∧ p.fieldLength.passage < length then
    p.fieldLength.passage else length

/-- The loop over the postings of a block: the highest frequency and the shortest length. -/
def blockBounds (postings : Bytes) (postingData : Nat) :
    Nat → Nat → Nat → Nat → Check (Nat × Nat)
  | 0, _, maxTf, minLength => .ok (maxTf, minLength)
  | n + 1, i, maxTf, minLength => do
    let p ← parsePosting postings (postingData + i * postingBytes)
    blockBounds postings postingData n (i + 1) (max maxTf (u32 p.frequency))
      (min minLength p.shortest)

/-- One block record. -/
def parseBlock (postings : Bytes) (i : Nat) : Check PostingsBlock := do
  let first ← getU32 postings i
  let count ← getU32 postings (i + 4)
  let maxTf ← getU32 postings (i + 8)
  let minLength ← getU32 postings (i + 12)
  return ⟨first, count, maxTf, minLength⟩

/-- The loop over the blocks of a term, from the `i`-th on. -/
def checkBlocks (postings : Bytes) (postingData blockData documentFrequency : Nat) :
    Nat → Nat → Check Unit
  | 0, _ => .ok ()
  | n + 1, i => do
    let b ← parseBlock postings (blockData + i * blockBytes)
    refuse (b.firstPosting ≠ i * postingsBlockSize ∨ b.postingCount = 0 ∨
      postingsBlockSize < b.postingCount ∨
      documentFrequency < u32 (b.firstPosting + b.postingCount))
    let bounds ← blockBounds postings postingData b.postingCount b.firstPosting 0 uint32Max
    refuse (b.maxTermFrequency ≠ bounds.1 ∨ b.minFieldLength ≠ bounds.2)
    checkBlocks postings postingData blockData documentFrequency n (i + 1)

/-- The body of the loop of `validate_payloads`: one term, and the number of its positions. -/
def checkTerm (maps : LexicalMaps) (totals : LexicalTotals) (index postingCursor positionCursor : Nat)
    (e : TermEntry) : Check Nat := do
  refuse (e.postingsOffset ≠ postingCursor - fileHeaderBytes ∨
    e.positionsOffset ≠ positionCursor - fileHeaderBytes ∨
    !rangeValid postingCursor e.postingsBytes maps.postings.length ∨
    !rangeValid positionCursor e.positionsBytes maps.positions.length ∨
    !rangeValid postingCursor 20 maps.postings.length)
  let ordinal ← getU64 maps.postings postingCursor
  let frequency ← getU64 maps.postings (postingCursor + 8)
  refuse (ordinal ≠ index ∨ frequency ≠ e.documentFrequency ∨
    !rangeValid positionCursor 16 maps.positions.length)
  let ordinal ← getU64 maps.positions positionCursor
  refuse (ordinal ≠ index)
  let blockCount ← getU32 maps.postings (postingCursor + 16)
  let records ← getU64 maps.positions (positionCursor + 8)
  refuse (blockCount ≠ u64 (e.documentFrequency + postingsBlockSize - 1) / postingsBlockSize ∨
    (uint64Max - 20) / postingBytes < e.documentFrequency)
  refuse (u64 (20 + e.documentFrequency * postingBytes + blockCount * blockBytes) ≠ e.postingsBytes ∨
    (uint64Max - 16) / 8 < records ∨ e.positionsBytes ≠ u64 (16 + records * 8))
  checkPostings maps totals (postingCursor + 20) (positionCursor + 16) records e.documentFrequency 0
    none
  checkBlocks maps.postings (postingCursor + 20)
    (postingCursor + 20 + e.documentFrequency * postingBytes) e.documentFrequency blockCount 0
  return records

/-- The loop of `validate_payloads`: the cursors and the counts at its end. -/
def checkTerms (maps : LexicalMaps) (totals : LexicalTotals) :
    List TermEntry → Nat → Nat → Nat → Nat → Nat → Check (Nat × Nat × Nat × Nat)
  | [], _, postingCursor, positionCursor, postings, positions =>
    .ok (postingCursor, positionCursor, postings, positions)
  | e :: es, index, postingCursor, positionCursor, postings, positions => do
    let records ← checkTerm maps totals index postingCursor positionCursor e
    checkTerms maps totals es (index + 1) (postingCursor + e.postingsBytes)
      (positionCursor + e.positionsBytes) (u64 (postings + e.documentFrequency))
      (u64 (positions + records))

/-- The totals, which `validate_payloads` reads first. -/
def parseTotals (maps : LexicalMaps) : Check LexicalTotals := do
  refuse (!rangeValid fileHeaderBytes 56 maps.postings.length)
  let version ← getU32 maps.postings fileHeaderBytes
  refuse (version ≠ lexicalPayloadVersion)
  let blockSize ← getU32 maps.postings (fileHeaderBytes + 4)
  refuse (blockSize ≠ postingsBlockSize ∨ !rangeValid fileHeaderBytes 12 maps.positions.length)
  let version ← getU32 maps.positions fileHeaderBytes
  refuse (version ≠ lexicalPayloadVersion)
  let documentCount ← getU64 maps.postings (fileHeaderBytes + 8)
  let passageCount ← getU64 maps.postings (fileHeaderBytes + 16)
  let postingCount ← getU64 maps.postings (fileHeaderBytes + 24)
  let title ← getU64 maps.postings (fileHeaderBytes + 32)
  let body ← getU64 maps.postings (fileHeaderBytes + 40)
  let passage ← getU64 maps.postings (fileHeaderBytes + 48)
  let positionCount ← getU64 maps.positions (fileHeaderBytes + 4)
  return ⟨documentCount, passageCount, postingCount, positionCount, ⟨title, body, passage⟩⟩

/-- `validate_payloads`. -/
def validatePayloads (maps : LexicalMaps) (terms : List TermEntry) : Check LexicalTotals := do
  let totals ← parseTotals maps
  let (postingCursor, positionCursor, postings, positions) ← checkTerms maps totals terms 0
    (fileHeaderBytes + 56) (fileHeaderBytes + 12) 0 0
  refuse (postingCursor ≠ maps.postings.length ∨ positionCursor ≠ maps.positions.length ∨
    postings ≠ totals.postingCount ∨ positions ≠ totals.positionCount)
  return totals

/-! ## Opening -/

/-- `map_component`, of a file that could be read: its generation. -/
def mapComponent (file : Bytes) (fileType expectedGeneration : Nat) : Except Status Nat :=
  if file.length < fileHeaderBytes ∨ fileHeaderBytes + maxSegmentPayloadBytes < file.length then
    .error .invalidFormat
  else do
    let (header, payload) ← fileHeaderDecode.run file
    if header.fileType.toNat ≠ fileType ∨
        header.payloadBytes.toNat ≠ file.length - fileHeaderBytes ∨
        (expectedGeneration ≠ 0 ∧ header.generation.toNat ≠ expectedGeneration) then
      .error .invalidFormat
    else if crc32c payload ≠ header.payloadCrc32c then .error .checksumMismatch
    else .ok header.generation.toNat

/-- The three mappings, all of one generation. -/
def mapComponents (maps : LexicalMaps) (expectedGeneration : Nat) : Except Status Nat := do
  let g ← mapComponent maps.terms fileTypeTerms expectedGeneration
  let g' ← mapComponent maps.postings fileTypePostings expectedGeneration
  if g' ≠ g then .error .invalidFormat
  else do
    let g'' ← mapComponent maps.positions fileTypePositions expectedGeneration
    if g'' ≠ g then .error .invalidFormat else .ok g

/-- `YAP_V2_lexical_segment_open`. -/
def lexicalSegmentOpen (maps : LexicalMaps) (expectedGeneration : Nat) : Check LexicalSegment :=
  match mapComponents maps expectedGeneration with
  | .error e => .error (.status e)
  | .ok generation => do
    let terms ← validateTermStream maps.terms
    let totals ← validatePayloads maps terms
    return ⟨maps, generation, totals, terms⟩

/-! ## The accessors -/

namespace LexicalSegment

variable (s : LexicalSegment)

/-- The binary search of `YAP_V2_lexical_term_find`. -/
def termFindLoop (term : Bytes) : Nat → Nat → Nat → Option TermEntry
  | 0, _, _ => none
  | fuel + 1, low, high =>
    if low < high then
      let middle := low + (high - low) / 2
      match s.terms[middle]? with
      | none => none
      | some e =>
        match termCompare e.term term with
        | .eq => some e
        | .lt => termFindLoop term fuel (middle + 1) high
        | .gt => termFindLoop term fuel low middle
    else none

/-- `YAP_V2_lexical_term_find`. -/
def termFind (term : Bytes) : Option TermEntry :=
  s.termFindLoop term s.terms.length 0 s.terms.length

/-- Where the postings of a term begin. -/
def postingsStart (e : TermEntry) : Nat := u64 (fileHeaderBytes + e.postingsOffset + 20)

/-- The `i`-th posting of a term, as the iterator reads it. -/
def postingAt (e : TermEntry) (i : Nat) : Check Posting :=
  parsePosting s.maps.postings (u64 (postingsStart e + i * postingBytes))

/-- `YAP_V2_posting_iterator_next`, from `YAP_V2_posting_iterator_init` to its end: the postings from the
`i`-th on. -/
def iteratePostings (e : TermEntry) : Nat → Nat → Check (List Posting)
  | 0, _ => .ok []
  | n + 1, i => do
    let p ← s.postingAt e i
    let ps ← iteratePostings e n (i + 1)
    return p :: ps

/-- All postings of a term. -/
def postings (e : TermEntry) : Check (List Posting) := s.iteratePostings e e.documentFrequency 0

/-- `YAP_V2_posting_iterator_block`. -/
def block (e : TermEntry) (i : Nat) : Check PostingsBlock :=
  if u64 (e.documentFrequency + postingsBlockSize - 1) / postingsBlockSize ≤ i then
    .error (.status .outOfRange)
  else parseBlock s.maps.postings
    (u64 (postingsStart e + e.documentFrequency * postingBytes + i * blockBytes))

/-- `YAP_V2_posting_position_at`: a field and a position. -/
def positionAt (e : TermEntry) (p : Posting) (i : Nat) : Check (Nat × Nat) :=
  if p.positionCount ≤ i ∨ uint64Max - i < p.positionOffset then .error (.status .outOfRange)
  else
    let offset := u64 (fileHeaderBytes + e.positionsOffset + 16 + (p.positionOffset + i) * 8)
    if rangeValid offset 8 s.maps.positions.length = false then invalid
    else do
      let field ← getU32 s.maps.positions offset
      let position ← getU32 s.maps.positions (offset + 4)
      return (field, position)

/-- The binary search of `YAP_V2_lexical_term_type_frequency`: how many postings are of documents. -/
def typeLoop (e : TermEntry) : Nat → Nat → Nat → Check Nat
  | 0, low, _ => .ok low
  | fuel + 1, low, high =>
    if low < high then do
      let middle := low + (high - low) / 2
      let p ← s.postingAt e middle
      if p.objectType < 2 then typeLoop e fuel (middle + 1) high else typeLoop e fuel low middle
    else .ok low

/-- `YAP_V2_lexical_term_type_frequency`. -/
def typeFrequency (e : TermEntry) (objectType : ObjectType) : Check Nat := do
  let low ← s.typeLoop e e.documentFrequency 0 e.documentFrequency
  return match objectType with
    | .document => low
    | .passage => e.documentFrequency - low

end LexicalSegment

end Yappod

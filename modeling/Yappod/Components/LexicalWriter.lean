import Yappod.Components.LexicalReader
import Mathlib.Data.List.Sort

/-!
# The writer of the lexical files

`YAP_V2_lexical_write` tokenizes the title and the body of every document and the text of every passage,
sorts the occurrences it finds, and writes a run of equal terms as one term and, inside it, a run of
occurrences in one object as one posting.  The tokenizer is a parameter.

A file is refused as a whole once its payload grows above `YAP_V2_MAX_SEGMENT_PAYLOAD_BYTES`; the payloads
are built here without that limit, and measured at the end.
-/

set_option autoImplicit false

namespace Yappod

/-! ## Occurrences -/

/-- The code of an object type in the files. -/
def ObjectType.code : ObjectType → Nat
  | .document => 1
  | .passage => 2

/-- The code of a field in the files. -/
def Field.code : Field → Nat
  | .title => 1
  | .body => 2
  | .passage => 3

/-- `occurrence_compare`. -/
def occurrenceCompare (a b : Occurrence) : Ordering :=
  (termCompare a.term b.term).then <|
  (compare a.objectType.code b.objectType.code).then <|
  (compare a.objectOrdinal b.objectOrdinal).then <|
  (compare a.field.code b.field.code).then <|
  compare a.position b.position

/-- A tokenizer. -/
abbrev Tokenize := Bytes → Except Status (List Bytes)

/-- `tokenize_field` and `occurrence_add`, for any tokenizer. -/
def tokenizeText (tokenize : Tokenize) (text : Bytes) (objectType : ObjectType)
    (objectOrdinal : Nat) (field : Field) : Except Status (List Occurrence) :=
  if text = [] then .ok []
  else do
    let tokens ← tokenize text
    if uint32Max < tokens.length then .error .outOfRange
    else if tokens.any fun t => t = [] ∨ uint32Max < t.length then .error .invalidFormat
    else .ok (tokens.mapIdx fun i t => ⟨t, objectType, objectOrdinal, field, i, tokens.length⟩)

/-- The loop over the documents, from the `i`-th on: the occurrences, and the numbers of tokens in titles
and bodies. -/
def collectDocuments (tokenize : Tokenize) :
    Nat → List Document → Except Status (List Occurrence × Nat × Nat)
  | _, [] => .ok ([], 0, 0)
  | i, d :: ds =>
    if documentValidate d ≠ .ok then .error (documentValidate d)
    else do
      let title ← tokenizeText tokenize d.title .document i .title
      let body ← tokenizeText tokenize d.body .document i .body
      let (rest, titles, bodies) ← collectDocuments tokenize (i + 1) ds
      return (title ++ body ++ rest, title.length + titles, body.length + bodies)

/-- The loop over the passages. -/
def collectPassages (tokenize : Tokenize) :
    Nat → List Passage → Except Status (List Occurrence × Nat)
  | _, [] => .ok ([], 0)
  | i, p :: ps =>
    if passageValidate p ≠ .ok then .error (passageValidate p)
    else do
      let here ← tokenizeText tokenize p.text .passage i .passage
      let (rest, tokens) ← collectPassages tokenize (i + 1) ps
      return (here ++ rest, here.length + tokens)

/-! ## Payloads -/

/-- `same_term`. -/
def sameTerm (a b : Occurrence) : Bool := a.term = b.term

/-- `same_object`. -/
def sameObject (a b : Occurrence) : Bool := a.object = b.object

/-- How often the term occurs in a field. -/
def fieldFrequency (items : List Occurrence) (field : Field) : Nat :=
  (items.filter (·.field = field)).length

/-- The length of a field that the term occurs in: every occurrence there sets it. -/
def fieldLength (items : List Occurrence) (field : Field) : Nat :=
  items.foldl (fun length o => if o.field = field then o.fieldLength else length) 0

/-- The posting of an object: the occurrences of the term in it, the first of them apart. -/
def buildPosting (positionOffset : Nat) (first : Occurrence) (items : List Occurrence) : Posting where
  objectType := first.objectType.code
  objectOrdinal := first.objectOrdinal
  termFrequency := ⟨fieldFrequency items .title, fieldFrequency items .body,
    fieldFrequency items .passage⟩
  fieldLength := ⟨fieldLength items .title, fieldLength items .body, fieldLength items .passage⟩
  positionOffset := positionOffset
  positionCount := items.length

/-- The postings of a term, whose objects are given by the occurrences in them; `offset` counts the
positions before. -/
def buildPostings : Nat → List (List Occurrence) → List Posting
  | _, [] => []
  | offset, [] :: objects => buildPostings offset objects
  | offset, (o :: items) :: objects =>
    buildPosting offset o (o :: items) :: buildPostings (offset + (o :: items).length) objects

/-- The 48 bytes of a posting. -/
def Posting.bytes (p : Posting) : Bytes :=
  leBytes 4 p.objectType ++ (leBytes 8 p.objectOrdinal ++ (leBytes 4 p.termFrequency.title ++
    (leBytes 4 p.termFrequency.body ++ (leBytes 4 p.termFrequency.passage ++
      (leBytes 4 p.fieldLength.title ++ (leBytes 4 p.fieldLength.body ++
        (leBytes 4 p.fieldLength.passage ++ (leBytes 8 p.positionOffset ++
          leBytes 4 p.positionCount))))))))

/-- The shortest field among the occurrences. -/
def shortestField (items : List Occurrence) : Nat :=
  items.foldl (fun length o => if o.fieldLength < length then o.fieldLength else length) uint32Max

/-- The block of these objects. -/
def buildBlock (first : Nat) (objects : List (List Occurrence)) : PostingsBlock :=
  let maxTf := objects.foldl (fun tf items => max tf (u32 items.length)) 0
  let minLength := objects.foldl (fun length items => min length (shortestField items)) uint32Max
  ⟨first, objects.length, maxTf, if minLength = uint32Max then 0 else minLength⟩

/-- The blocks of a term, `n` of them, from the `first` posting on. -/
def buildBlocks : Nat → Nat → List (List Occurrence) → List PostingsBlock
  | 0, _, _ => []
  | n + 1, first, objects =>
    buildBlock first (objects.take postingsBlockSize) ::
      buildBlocks n (first + (objects.take postingsBlockSize).length) (objects.drop postingsBlockSize)

/-- The 16 bytes of a block. -/
def PostingsBlock.bytes (b : PostingsBlock) : Bytes :=
  leBytes 4 b.firstPosting ++ (leBytes 4 b.postingCount ++ (leBytes 4 b.maxTermFrequency ++
    leBytes 4 b.minFieldLength))

/-- What `postings.yap2` has for a term. -/
def termPostings (ordinal : Nat) (items : List Occurrence) : Bytes :=
  let objects := items.splitBy sameObject
  leBytes 8 ordinal ++ (leBytes 8 objects.length ++ (leBytes 4 (postingBlocks objects.length) ++
    ((buildPostings 0 objects).flatMap Posting.bytes ++
      (buildBlocks (postingBlocks objects.length) 0 objects).flatMap PostingsBlock.bytes)))

/-- The 8 bytes of a position. -/
def Occurrence.positionBytes (o : Occurrence) : Bytes :=
  leBytes 4 o.field.code ++ leBytes 4 o.position

/-- What `positions.yap2` has for a term. -/
def termPositions (ordinal : Nat) (items : List Occurrence) : Bytes :=
  leBytes 8 ordinal ++ (leBytes 8 items.length ++ items.flatMap Occurrence.positionBytes)

/-- What `terms.yap2` has for a term. -/
def TermEntry.bytes (e : TermEntry) : Bytes :=
  leBytes 4 e.term.length ++ (e.term ++ (leBytes 8 e.documentFrequency ++
    (leBytes 8 e.postingsOffset ++ (leBytes 8 e.postingsBytes ++
      (leBytes 8 e.positionsOffset ++ leBytes 8 e.positionsBytes)))))

/-- The entry of a term whose parts of the other files begin at these offsets. -/
def buildEntry (ordinal postingOffset positionOffset : Nat) (items : List Occurrence) : TermEntry where
  term := (items.head?.map (·.term)).getD []
  documentFrequency := (items.splitBy sameObject).length
  postingsOffset := postingOffset
  postingsBytes := (termPostings ordinal items).length
  positionsOffset := positionOffset
  positionsBytes := (termPositions ordinal items).length

/-- The loop over the terms: the entries. -/
def buildEntries : Nat → Nat → Nat → List (List Occurrence) → List TermEntry
  | _, _, _, [] => []
  | ordinal, postingOffset, positionOffset, items :: groups =>
    buildEntry ordinal postingOffset positionOffset items ::
      buildEntries (ordinal + 1) (postingOffset + (termPostings ordinal items).length)
        (positionOffset + (termPositions ordinal items).length) groups

/-- The loop over the terms: what it appends to the two other files. -/
def buildParts (part : Nat → List Occurrence → Bytes) : Nat → List (List Occurrence) → Bytes
  | _, [] => []
  | ordinal, items :: groups => part ordinal items ++ buildParts part (ordinal + 1) groups

/-- The occurrences, sorted and cut into terms. -/
def termGroups (occurrences : List Occurrence) : List (List Occurrence) :=
  (occurrences.insertionSort fun a b => occurrenceCompare a b ≠ .gt).splitBy sameTerm

/-- The three payloads of `build_payloads`. -/
def buildPayloads (occurrences : List Occurrence) (documents passages : Nat) (totals : PerField) :
    LexicalMaps :=
  let groups := termGroups occurrences
  let postings := (groups.map fun items => (items.splitBy sameObject).length).sum
  { terms := leBytes 4 lexicalPayloadVersion ++ (leBytes 8 groups.length ++
      (buildEntries 0 56 12 groups).flatMap TermEntry.bytes)
    postings := leBytes 4 lexicalPayloadVersion ++ (leBytes 4 postingsBlockSize ++
      (leBytes 8 documents ++ (leBytes 8 passages ++ (leBytes 8 postings ++
        (leBytes 8 totals.title ++ (leBytes 8 totals.body ++ (leBytes 8 totals.passage ++
          buildParts termPostings 0 groups)))))))
    positions := leBytes 4 lexicalPayloadVersion ++ (leBytes 8 occurrences.length ++
      buildParts termPositions 0 groups) }

/-! ## Files -/

/-- The header of a component. -/
def componentHeader (fileType : UInt32) (generation : UInt64) (payload : Bytes) : FileHeader where
  formatVersion := 2
  headerBytes := 32
  fileType := fileType
  generation := generation
  payloadBytes := UInt64.ofNat payload.length
  payloadCrc32c := crc32c payload

/-- `write_component`: the bytes of the file. -/
def writeComponent (fileType : UInt32) (generation : UInt64) (payload : Bytes) :
    Except Status Bytes := do
  let header ← fileHeaderEncode (componentHeader fileType generation payload)
  return header ++ payload

/-- The three files of these payloads. -/
def writeComponents (generation : UInt64) (payloads : LexicalMaps) : Except Status LexicalMaps := do
  let terms ← writeComponent 1 generation payloads.terms
  let postings ← writeComponent 2 generation payloads.postings
  let positions ← writeComponent 3 generation payloads.positions
  return ⟨terms, postings, positions⟩

/-- `write_occurrences`. -/
def writeOccurrences (generation : UInt64) (occurrences : List Occurrence) (documents passages : Nat)
    (totals : PerField) : Except Status LexicalMaps :=
  let payloads := buildPayloads occurrences documents passages totals
  if maxSegmentPayloadBytes < payloads.terms.length ∨
      maxSegmentPayloadBytes < payloads.postings.length ∨
      maxSegmentPayloadBytes < payloads.positions.length then
    .error .segmentCapacityExceeded
  else writeComponents generation payloads

/-- `YAP_V2_lexical_write`. -/
def lexicalWrite (tokenize : Tokenize) (generation : UInt64) (documents : List Document)
    (passages : List Passage) : Except Status LexicalMaps :=
  if generation = 0 ∨ maxSegmentDocuments < documents.length ∨
      maxSegmentPassages < passages.length then
    .error .invalidArgument
  else do
    let (inDocuments, titles, bodies) ← collectDocuments tokenize 0 documents
    let (inPassages, texts) ← collectPassages tokenize 0 passages
    writeOccurrences generation (inDocuments ++ inPassages) documents.length passages.length
      ⟨titles, bodies, texts⟩

end Yappod

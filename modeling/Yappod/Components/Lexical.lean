import Yappod.Common.Unicode

/-!
# Lexical occurrences

The lexical component of a segment is built from occurrences: a term, the object (document or
passage, with its ordinal in the segment) it occurs in, the field, the position and the number of
tokens of the field.  `lexicalPrepareUnit` collects those of one document and its passages,
`combineOccurrences` renumbers the objects of several documents into one segment, and
`termsBytes`, `postingsBytes` and `positionsBytes` are the payload sizes of the three files that
`build_payloads` makes of them.
-/

set_option autoImplicit false

namespace Yappod

inductive ObjectType
  | document
  | passage
  deriving DecidableEq, Repr

inductive Field
  | title
  | body
  | passage
  deriving DecidableEq, Repr

/-- One occurrence of a term. -/
structure Occurrence where
  term : Bytes
  objectType : ObjectType
  objectOrdinal : Nat
  field : Field
  position : Nat
  fieldLength : Nat
  deriving DecidableEq, Repr

/-- The object an occurrence is in. -/
def Occurrence.object (o : Occurrence) : ObjectType × Nat := (o.objectType, o.objectOrdinal)

def postingsBlockSize : Nat := 128

/-- `tokenize_field`. -/
def tokenizeField (icu : Icu) (text : Bytes) (objectType : ObjectType) (objectOrdinal : Nat)
    (field : Field) : Except Status (List Occurrence) :=
  if text = [] then .ok []
  else
    (unicodeTokenize icu text).map fun tokens =>
      tokens.mapIdx fun i token => ⟨token, objectType, objectOrdinal, field, i, tokens.length⟩

/-- The passages of a unit, from the `i`-th on. -/
def preparePassages (icu : Icu) : Nat → List Passage → Except Status (List Occurrence)
  | _, [] => .ok []
  | i, p :: ps =>
    if passageValidate p ≠ .ok then .error (passageValidate p)
    else do
      let here ← tokenizeField icu p.text .passage i .passage
      let rest ← preparePassages icu (i + 1) ps
      return here ++ rest

/-- `YAP_V2_lexical_prepare_unit`: the occurrences of one document, as object 0 of its type, and of
its passages. -/
def lexicalPrepareUnit (icu : Icu) (d : Document) (ps : List Passage) :
    Except Status (List Occurrence) :=
  if documentValidate d ≠ .ok then .error (documentValidate d)
  else do
    let title ← tokenizeField icu d.title .document 0 .title
    let body ← tokenizeField icu d.body .document 0 .body
    let passages ← preparePassages icu 0 ps
    return title ++ body ++ passages

/-- Renumber an occurrence of one document as one of a segment. -/
def Occurrence.shift (documentBase passageBase : Nat) (o : Occurrence) : Occurrence :=
  { o with objectOrdinal :=
      o.objectOrdinal + (if o.objectType = .document then documentBase else passageBase) }

/-- The occurrences of a segment: `prepared` has, for each of its documents, the prepared
occurrences and the number of passages. -/
def combineOccurrences : Nat → Nat → List (List Occurrence × Nat) → List Occurrence
  | _, _, [] => []
  | documentBase, passageBase, (occurrences, passages) :: rest =>
    occurrences.map (Occurrence.shift documentBase passageBase) ++
      combineOccurrences (documentBase + 1) (passageBase + passages) rest

/-! ## Payload sizes -/

/-- The different terms of a list of occurrences. -/
def termsOf (occs : List Occurrence) : List Bytes := (occs.map (·.term)).dedup

/-- How often a term occurs. -/
def termOccurrences (occs : List Occurrence) (t : Bytes) : Nat :=
  (occs.filter (·.term = t)).length

/-- In how many objects a term occurs. -/
def documentFrequency (occs : List Occurrence) (t : Bytes) : Nat :=
  ((occs.filter (·.term = t)).map Occurrence.object).dedup.length

/-- The number of posting blocks of a term. -/
def postingBlocks (postings : Nat) : Nat := (postings + postingsBlockSize - 1) / postingsBlockSize

/-- `terms.yap2`: a count, and for each term its text, its frequency and where its postings are. -/
def termsBytes (occs : List Occurrence) : Nat :=
  12 + ((termsOf occs).map fun t => 44 + t.length).sum

/-- `postings.yap2`: the totals, and for each term its postings and its blocks. -/
def postingsBytes (occs : List Occurrence) : Nat :=
  56 + ((termsOf occs).map fun t =>
    20 + (documentFrequency occs t * 48 + postingBlocks (documentFrequency occs t) * 16)).sum

/-- `positions.yap2`: a count, and for each term its field and position pairs. -/
def positionsBytes (occs : List Occurrence) : Nat :=
  12 + ((termsOf occs).map fun t => 16 + termOccurrences occs t * 8).sum

end Yappod

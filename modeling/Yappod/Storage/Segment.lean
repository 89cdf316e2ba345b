import Yappod.Components.Lexical
import Yappod.Components.Metadata

/-!
# Segments: component files and descriptors

A segment is a directory of component files.  A `File` here is what the file encodes — its
generation and its decoded payload — and `Payload.bytes` is the size of the encoding, so that the
payload limits can be checked without the bytes.  A digest is kept symbolic: `Digest.sha256 f`
stands for the SHA-256 of the file `f`, and equal digests come from equal files.

`sliceFiles` lists, in the order `YAP_V2_segment_slice_write` writes them, the files of a slice
together with the checks that precede each of them, and `describe` is the descriptor that comes
out.
-/

set_option autoImplicit false

namespace Yappod

def maxSegments : Nat := 100000

def maxSegmentDocuments : Nat := 1000000

def maxSegmentPassages : Nat := 4000000

def maxSegmentPayloadBytes : Nat := 256 * 1024 * 1024

def fileHeaderBytes : Nat := 32

/-- Who makes a segment directory: an update (`seg-…`) or a compaction (`compact-…`). -/
inductive SegmentKind
  | seg
  | compact
  deriving DecidableEq, Repr

/-- The name of a segment directory: the prefix, the generation it was made for and the suffix that
`mkdtemp` chose. -/
structure SegmentId where
  kind : SegmentKind
  generation : Nat
  suffix : Nat
  deriving DecidableEq, Repr

/-- The length of a name of either kind. -/
def SegmentKind.idBytes : SegmentKind → Nat
  | .seg => 31
  | .compact => 35

/-- The files of a segment directory. -/
inductive Component
  | documents
  | terms
  | postings
  | positions
  | metadata
  | vectors
  | ann
  | tombstones
  deriving DecidableEq, Repr

def Component.all : List Component :=
  [.documents, .terms, .postings, .positions, .metadata, .vectors, .ann, .tombstones]

theorem Component.mem_all (c : Component) : c ∈ Component.all := by cases c <;> simp [all]

/-- What a component file encodes. -/
inductive Payload
  | documents (segmentId : SegmentId) (documents : List Document) (passages : List Passage)
  | terms (occurrences : List Occurrence)
  | postings (documentCount passageCount : Nat) (occurrences : List Occurrence)
  | positions (occurrences : List Occurrence)
  | metadata (fields : List Bytes) (scalars : List (List MetadataScalar))
  | vectors (modelId : Bytes) (dimensions : Nat) (entries : List (Bytes × List Scalar))
  | ann (entries : List (Bytes × List Scalar))
  | tombstones (ids : List Bytes)
  deriving DecidableEq

/-- The file a payload goes to. -/
def Payload.component : Payload → Component
  | .documents .. => .documents
  | .terms .. => .terms
  | .postings .. => .postings
  | .positions .. => .positions
  | .metadata .. => .metadata
  | .vectors .. => .vectors
  | .ann .. => .ann
  | .tombstones .. => .tombstones

/-- The size of a length-prefixed text. -/
def viewBytes (v : Bytes) : Nat := 4 + v.length

/-- The size of a document record. -/
def documentRecordBytes (d : Document) : Nat :=
  16 + viewBytes d.id + viewBytes d.url + viewBytes d.title + viewBytes d.body +
    viewBytes d.metadataJson

/-- The size of a passage record. -/
def passageRecordBytes (p : Passage) : Nat :=
  20 + viewBytes p.id + viewBytes p.parentDocumentId + viewBytes p.text

/-- Round up to a multiple of `sizeof(float)`. -/
def alignFloat (n : Nat) : Nat := (n + 3) / 4 * 4

/-- The size of `vectors.yap2`. -/
def vectorsBytes (modelId : Bytes) (dimensions passages idBytes : Nat) : Nat :=
  alignFloat (40 + modelId.length + passages * 16 + idBytes) + passages * dimensions * 4

/-- The size of `tombstones.yap2`. -/
def tombstonesBytes (ids : List Bytes) : Nat := 12 + (ids.map viewBytes).sum

/-- The size of an encoded payload; the size of a usearch file is up to usearch. -/
def Payload.bytes (annBytes : List (Bytes × List Scalar) → Nat) : Payload → Nat
  | .documents id ds ps =>
    24 + id.kind.idBytes + ((ds.map documentRecordBytes).sum + (ps.map passageRecordBytes).sum)
  | .terms occs => termsBytes occs
  | .postings _ _ occs => postingsBytes occs
  | .positions occs => positionsBytes occs
  | .metadata fields scalars => metadataBase fields + (scalars.map scalarsBytes).sum
  | .vectors model dims entries =>
    vectorsBytes model dims entries.length (entries.map fun e => e.1.length).sum
  | .ann entries => annBytes entries
  | .tombstones ids => tombstonesBytes ids

/-- The number of records a component descriptor reports. -/
def Payload.recordCount : Payload → Nat
  | .documents _ ds ps => ds.length + ps.length
  | .terms occs => (termsOf occs).length
  | .postings _ _ occs => ((termsOf occs).map (documentFrequency occs)).sum
  | .positions occs => occs.length
  | .metadata _ scalars => (scalars.map List.length).sum
  | .vectors _ _ entries => entries.length
  | .ann entries => entries.length
  | .tombstones ids => ids.length

/-- A component file: the generation of its header and its payload. -/
structure File where
  generation : Nat
  payload : Payload
  deriving DecidableEq

/-- The SHA-256 digest of a file, represented by the file. -/
structure Digest where
  sha256 ::
  file : File
  deriving DecidableEq

/-- The entry of a file in a segment descriptor. -/
structure ComponentDescriptor where
  component : Component
  recordCount : Nat
  fileBytes : Nat
  checksum : Digest
  deriving DecidableEq

/-- The entry of a segment in the manifest. -/
structure SegmentDescriptor where
  id : SegmentId
  documentCount : Nat
  passageCount : Nat
  tombstoneCount : Nat
  components : List ComponentDescriptor
  deriving DecidableEq

/-- `segment_component`: the entry of a file, if the segment has it. -/
def SegmentDescriptor.component (d : SegmentDescriptor) (c : Component) :
    Option ComponentDescriptor :=
  d.components.find? fun e => e.component = c

/-- The code the program takes from elsewhere: ICU, yyjson and usearch, the digest of a
configuration, and the payload limit that tests may set (0 in production). -/
structure Env where
  icu : Icu
  yyjsonRead : Bytes → Option Json
  annBytes : List (Bytes × List Scalar) → Nat
  configFingerprint : Config → Bytes
  testPayloadLimit : Nat
  /-- usearch never saves an empty file. -/
  annBytes_pos : ∀ entries, 0 < annBytes entries

variable (env : Env) (cfg : Config)

/-- The size of a file on disk. -/
def File.bytes (f : File) : Nat :=
  (if f.payload.component = .ann then 0 else fileHeaderBytes) + f.payload.bytes env.annBytes

/-- The descriptor entry of a file. -/
def File.describe (f : File) : ComponentDescriptor :=
  ⟨f.payload.component, f.payload.recordCount, f.bytes env, .sha256 f⟩

/-! ## The files of a slice -/

/-- The documents of a list of units. -/
def unitDocuments : List SegmentUnit → List Document
  | [] => []
  | .document d _ _ :: us => d :: unitDocuments us
  | .tombstone _ :: us => unitDocuments us

/-- The passages of a list of units. -/
def unitPassages : List SegmentUnit → List Passage
  | [] => []
  | .document _ ps _ :: us => ps ++ unitPassages us
  | .tombstone _ :: us => unitPassages us

/-- The vectors of a list of units. -/
def unitVectors : List SegmentUnit → List (List Scalar)
  | [] => []
  | .document _ _ vs :: us => vs ++ unitVectors us
  | .tombstone _ :: us => unitVectors us

/-- The tombstones of a list of units. -/
def unitTombstones : List SegmentUnit → List Bytes
  | [] => []
  | .document .. :: us => unitTombstones us
  | .tombstone id :: us => id :: unitTombstones us

/-- The prepared occurrences of the documents of a list of units. -/
def unitOccurrences : List SegmentUnit → List (List Occurrence × Nat)
  | [] => []
  | .document d ps _ :: us =>
    ((lexicalPrepareUnit env.icu d ps).toOption.getD [], ps.length) :: unitOccurrences us
  | .tombstone _ :: us => unitOccurrences us

/-- The metadata scalars of the documents of a list of units. -/
def unitMetadata (us : List SegmentUnit) : List (List MetadataScalar) :=
  (unitDocuments us).map fun d =>
    (documentMetadata env.yyjsonRead cfg.filterableFields d).toOption.getD []

/-- The vector entries of a list of units: each passage with its vector. -/
def unitEntries (us : List SegmentUnit) : List (Bytes × List Scalar) :=
  ((unitPassages us).map (·.id)).zip (unitVectors us)

/-! ## The checks before each file -/

/-- The document checks of `validate_segment_views`: each one valid, no identifier twice. -/
def validateDocuments : List Bytes → List Document → Status
  | _, [] => .ok
  | seen, d :: ds =>
    (documentValidate d).next <|
      if d.id ∈ seen then .duplicate else validateDocuments (seen ++ [d.id]) ds

/-- The passage checks of `validate_segment_views`: each one valid and with its parent, no
identifier and no place within its document twice. -/
def validatePassages (documentIds : List Bytes) : List Passage → List Passage → Status
  | _, [] => .ok
  | seen, p :: ps =>
    (passageValidate p).next <|
      if p.parentDocumentId ∉ documentIds then .invalidFormat
      else if seen.any fun q => p.id = q.id ∨
          (p.parentDocumentId = q.parentDocumentId ∧ p.ordinal = q.ordinal) then .duplicate
      else validatePassages documentIds (seen ++ [p]) ps

/-- `validate_segment_views`. -/
def validateSegmentViews (ds : List Document) (ps : List Passage) : Status :=
  if maxSegmentDocuments < ds.length ∨ maxSegmentPassages < ps.length then .outOfRange
  else (validateDocuments [] ds).next (validatePassages (ds.map (·.id)) [] ps)

/-- A payload larger than the limit of the buffers is refused. -/
def capacityCheck (p : Payload) : Status :=
  if maxSegmentPayloadBytes < p.bytes env.annBytes then .segmentCapacityExceeded else .ok

/-- The metadata checks of `YAP_V2_metadata_write_preparsed`. -/
def validateMetadata : List Document → Status
  | [] => .ok
  | d :: ds =>
    if documentValidate d ≠ .ok then .invalidFormat
    else
      match documentMetadata env.yyjsonRead cfg.filterableFields d with
      | .error e => e
      | .ok _ => validateMetadata ds

/-- The passage and vector checks of `YAP_V2_vectors_write`. -/
def validateVectors : List Bytes → List (Passage × List Scalar) → Status
  | _, [] => .ok
  | seen, (p, row) :: rest =>
    if passageValidate p ≠ .ok then .invalidFormat
    else if p.id ∈ seen then .duplicate
    else if row.all Scalar.isFinite then validateVectors (seen ++ [p.id]) rest
    else .invalidFormat

/-- The identifier checks of `YAP_V2_tombstones_write`. -/
def validateTombstones : List Bytes → List Bytes → Status
  | _, [] => .ok
  | seen, id :: ids =>
    if id = [] ∨ maxIdentifierBytes < id.length then .invalidFormat
    else if id ∈ seen then .duplicate
    else validateTombstones (seen ++ [id]) ids

section Slice

variable (id : SegmentId) (generation : Nat) (us : List SegmentUnit)

/-- The payload of `documents.yap2`. -/
def documentsPayload : Payload := .documents id (unitDocuments us) (unitPassages us)

/-- The occurrences of a slice. -/
def sliceOccurrences : List Occurrence := combineOccurrences 0 0 (unitOccurrences env us)

def postingsPayload : Payload :=
  .postings (unitDocuments us).length (unitPassages us).length (sliceOccurrences env us)

def metadataPayload : Payload := .metadata cfg.filterableFields (unitMetadata env cfg us)

def vectorsPayload : Payload :=
  .vectors cfg.vectorModelId cfg.vectorDimensions (unitEntries us)

/-- The files of a slice, in the order they are written, each with the status of the checks that
precede it.  The three lexical payloads are built, and their sizes checked, before the first of
them is written. -/
def sliceFiles : List (Status × File) :=
  [((validateSegmentViews (unitDocuments us) (unitPassages us)).next
      (capacityCheck env (documentsPayload id us)), ⟨generation, documentsPayload id us⟩)] ++
  (if unitDocuments us = [] then [] else
    [((capacityCheck env (.terms (sliceOccurrences env us))).next <|
        (capacityCheck env (postingsPayload env us)).next <|
        capacityCheck env (.positions (sliceOccurrences env us)),
      ⟨generation, .terms (sliceOccurrences env us)⟩),
     (.ok, ⟨generation, postingsPayload env us⟩),
     (.ok, ⟨generation, .positions (sliceOccurrences env us)⟩),
     ((validateMetadata env cfg (unitDocuments us)).next
        (capacityCheck env (metadataPayload env cfg us)),
      ⟨generation, metadataPayload env cfg us⟩)]) ++
  (if cfg.hasVectors = true ∧ unitPassages us ≠ [] then
    [((validateVectors [] ((unitPassages us).zip (unitVectors us))).next
        (capacityCheck env (vectorsPayload cfg us)), ⟨generation, vectorsPayload cfg us⟩),
     (.ok, ⟨generation, .ann (unitEntries us)⟩)]
   else []) ++
  (if unitTombstones us = [] then [] else
    [((validateTombstones [] (unitTombstones us)).next
        (capacityCheck env (.tombstones (unitTombstones us))),
      ⟨generation, .tombstones (unitTombstones us)⟩)])

/-- The first check that fails, if any. -/
def sliceStatus : Status :=
  (sliceFiles env cfg id generation us).foldr (fun f rest => f.1.next rest) .ok

/-- The descriptor of a slice that has been written. -/
def describe : SegmentDescriptor :=
  ⟨id, (unitDocuments us).length, (unitPassages us).length, (unitTombstones us).length,
    (sliceFiles env cfg id generation us).map fun f => f.2.describe env⟩

end Slice

end Yappod

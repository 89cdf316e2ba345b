import Mathlib.Algebra.Ring.Nat
import Mathlib.Data.List.Basic

/-!
# The data types of the index

The records the index stores (`Document`, `Passage`), the operations that change it
(`IngestOperation`), the configuration it is built with (`Config`) and the status codes its
functions return (`Status`), after `yappo_types_v2`, `yappo_config_v2` and `yappo_ingest`.

Texts are byte strings.  Vector components are the 32 bits of a `float`; nothing here computes with
them beyond asking whether they are finite.
-/

set_option autoImplicit false

namespace Yappod

/-- A byte string. -/
abbrev Bytes := List UInt8

instance lawfulBEq_bytes : LawfulBEq Bytes := inferInstance

/-- The status codes of `yappo_types_v2.h`. -/
inductive Status
  | ok
  | invalidArgument
  | invalidFormat
  | outOfRange
  | duplicate
  | allocationFailed
  | ioError
  | checksumMismatch
  | conflict
  | notFound
  | segmentCapacityExceeded
  deriving DecidableEq, Repr

namespace Status

/-- Go on with the next check only after success, as `if (status == YAP_V2_OK) status = …`. -/
def next (s : Status) (t : Status) : Status := if s = .ok then t else s

@[simp] theorem ok_next (t : Status) : Status.ok.next t = t := rfl

theorem next_eq_ok {s t : Status} : s.next t = .ok ↔ s = .ok ∧ t = .ok := by
  unfold next
  split <;> simp_all

end Status

/-- A chain of fallible steps succeeds if each of them does. -/
theorem bind_eq_ok {ε α β : Type} {x : Except ε α} {f : α → Except ε β} {b : β} :
    (x >>= f) = .ok b ↔ ∃ a, x = .ok a ∧ f a = .ok b := by
  cases x with
  | error e =>
    refine ⟨fun h => ?_, fun ⟨_, h, _⟩ => ?_⟩
    · cases h
    · cases h
  | ok a =>
    refine ⟨fun h => ⟨a, rfl, h⟩, fun ⟨_, h, hb⟩ => ?_⟩
    cases h
    exact hb

theorem length_of_mapM_eq_ok {ε α β : Type} {f : α → Except ε β} {as : List α} {bs : List β}
    (h : as.mapM f = .ok bs) : bs.length = as.length := by
  induction as generalizing bs with
  | nil =>
    cases h
    rfl
  | cons a as ih =>
    rw [List.mapM_cons] at h
    obtain ⟨b, -, h⟩ := bind_eq_ok.mp h
    obtain ⟨bs, hbs, h⟩ := bind_eq_ok.mp h
    cases h
    rw [List.length_cons, List.length_cons, ih hbs]

/-- The bits of a `float`. -/
abbrev Scalar := UInt32

/-- `isfinite`: the exponent is not all ones. -/
def Scalar.isFinite (x : Scalar) : Bool := (x >>> 23) &&& 255 != 255

/-- `SIZE_MAX` and `UINT64_MAX` on the platforms the index runs on. -/
def uint64Max : Nat := 2 ^ 64 - 1

def maxIdentifierBytes : Nat := 255

def maxUrlBytes : Nat := 8 * 1024

def maxMetadataBytes : Nat := 1024 * 1024

def maxChunkChars : Nat := 1024 * 1024

/-! ## Documents and passages -/

/-- A stored document. -/
structure Document where
  id : Bytes
  url : Bytes
  title : Bytes
  body : Bytes
  metadataJson : Bytes
  updatedAtUnixMs : Int
  deriving DecidableEq, Repr

/-- A passage of a document: one chunk of its body. -/
structure Passage where
  id : Bytes
  parentDocumentId : Bytes
  text : Bytes
  ordinal : Nat
  startChar : Nat
  endChar : Nat
  deriving DecidableEq, Repr

/-- Length limits and the ban on NUL bytes of a text value. -/
def bytesViewValidate (value : Bytes) (maxBytes : Nat) (required : Bool) : Status :=
  if required && value.isEmpty then .invalidFormat
  else if maxBytes < value.length then .outOfRange
  else if value.contains 0 then .invalidFormat
  else .ok

/-- The checks a document passes before it is written. -/
def documentValidate (d : Document) : Status :=
  (bytesViewValidate d.id maxIdentifierBytes true).next <|
  (bytesViewValidate d.url maxUrlBytes false).next <|
  (bytesViewValidate d.title maxIdentifierBytes false).next <|
  (bytesViewValidate d.body maxMetadataBytes false).next <|
  (bytesViewValidate d.metadataJson maxMetadataBytes false).next <|
  if d.updatedAtUnixMs < 0 then .outOfRange else .ok

/-- The checks a passage passes before it is written. -/
def passageValidate (p : Passage) : Status :=
  (bytesViewValidate p.id maxIdentifierBytes true).next <|
  (bytesViewValidate p.parentDocumentId maxIdentifierBytes true).next <|
  (bytesViewValidate p.text maxMetadataBytes true).next <|
  if p.endChar < p.startChar ∨ maxChunkChars < p.startChar ∨ maxChunkChars < p.endChar then
    .outOfRange
  else .ok

theorem length_le_of_bytesViewValidate {v : Bytes} {n : Nat} {r : Bool}
    (h : bytesViewValidate v n r = .ok) : v.length ≤ n := by
  unfold bytesViewValidate at h
  split at h
  · cases h
  · split at h
    · cases h
    · omega

/-! ## Configuration -/

inductive VectorMetric
  | disabled
  | cosine
  | dot
  | l2
  deriving DecidableEq, Repr

/-- The index-relevant configuration, with what `YAP_V2_config_validate` has checked of it. -/
structure Config where
  tokenizerId : Bytes
  chunkMaxChars : Nat
  chunkOverlapChars : Nat
  vectorModelId : Bytes
  vectorDimensions : Nat
  vectorMetric : VectorMetric
  filterableFields : List Bytes
  /-- Chunks move on: `chunk_overlap_chars >= chunk_max_chars` is refused. -/
  overlap_lt : chunkOverlapChars < chunkMaxChars
  /-- Vectors that are enabled have at least one dimension. -/
  dimensions_pos : vectorMetric ≠ .disabled → 0 < vectorDimensions
  deriving DecidableEq

/-- Chunks of three characters that do not overlap. -/
theorem Config.three_chars : 0 < 3 := by decide

/-- Are passages stored with vectors? -/
def Config.hasVectors (cfg : Config) : Bool := cfg.vectorMetric != .disabled

/-! ## Ingest operations -/

inductive IngestKind
  | upsert
  | delete
  deriving DecidableEq, Repr

/-- An operation of a batch, with what the ingest parser has checked of it: the identifier is a
non-empty C string of at most 255 bytes, and the vectors are rows of one length of finite
numbers.  `vectors = []` stands for a record without vectors. -/
structure IngestOperation where
  kind : IngestKind
  id : Bytes
  url : Bytes
  title : Bytes
  body : Bytes
  metadataJson : Bytes
  updatedAtUnixMs : Int
  vectorDimensions : Nat
  vectors : List (List Scalar)
  id_ne_nil : id ≠ []
  id_length : id.length ≤ maxIdentifierBytes
  rows : ∀ row ∈ vectors, row.length = vectorDimensions
  finite : ∀ row ∈ vectors, ∀ x ∈ row, Scalar.isFinite x = true
  deriving DecidableEq

/-- The document an upsert stores. -/
def IngestOperation.document (op : IngestOperation) : Document :=
  ⟨op.id, op.url, op.title, op.body, op.metadataJson, op.updatedAtUnixMs⟩

/-- `validate_unique_ids`: the identifiers of a batch are pairwise different. -/
def validateUniqueIds (ops : List IngestOperation) : Status :=
  if (ops.map (·.id)).Nodup then .ok else .duplicate

/-! ## Units

A unit is what the planner places into segments as a whole: a document with its passages and their
vectors, or the tombstone of a deleted document. -/

inductive SegmentUnit
  | document (document : Document) (passages : List Passage) (vectors : List (List Scalar))
  | tombstone (id : Bytes)
  deriving DecidableEq

/-- The document identifier a unit is about. -/
def SegmentUnit.id : SegmentUnit → Bytes
  | .document d _ _ => d.id
  | .tombstone id => id

end Yappod

import Yappod.Storage.Segment

/-!
# The manifest

The manifest lists the segments of the index, oldest first, under a generation that every
publication increases by one.  This file has the manifest as a value: its validation, the addition
of segments, the size of its encoding, and the checks that compare a descriptor with the files it
describes.
-/

set_option autoImplicit false

namespace Yappod

/-- The decoded contents of `manifest.yap2`. -/
structure Manifest where
  generation : Nat
  configFingerprint : Bytes
  segments : List SegmentDescriptor
  deriving DecidableEq

namespace Manifest

/-- The names of the segments. -/
def ids (m : Manifest) : List SegmentId := m.segments.map (·.id)

/-- `YAP_V2_manifest_add_segment`; the names of segment directories are always well formed. -/
def addSegment (m : Manifest) (d : SegmentDescriptor) : Except Status Manifest :=
  if maxSegments ≤ m.segments.length then .error .outOfRange
  else if d.id ∈ m.ids then .error .duplicate
  else .ok { m with segments := m.segments ++ [d] }

/-- Add several segments, stopping at the first that is refused. -/
def addSegments (m : Manifest) : List SegmentDescriptor → Except Status Manifest
  | [] => .ok m
  | d :: ds => (m.addSegment d).bind fun m' => addSegments m' ds

end Manifest

/-- `YAP_V2_segment_descriptor_add_component`, as a check of one entry against the earlier ones. -/
def componentCheck (earlier : List ComponentDescriptor) (c : ComponentDescriptor) : Status :=
  if c.fileBytes = 0 ∨ (c.component ≠ .ann ∧ c.fileBytes < fileHeaderBytes) then .invalidFormat
  else if 8 ≤ earlier.length then .outOfRange
  else if earlier.any fun e => e.component = c.component then .duplicate
  else .ok

/-- The components of one segment, checked in order. -/
def componentsCheck : List ComponentDescriptor → List ComponentDescriptor → Status
  | _, [] => .ok
  | earlier, c :: cs => (componentCheck earlier c).next (componentsCheck (earlier ++ [c]) cs)

/-- The segments of a manifest, checked in order. -/
def segmentsCheck : List SegmentId → List SegmentDescriptor → Status
  | _, [] => .ok
  | seen, d :: ds =>
    if d.components = [] ∨ 8 < d.components.length then .invalidFormat
    else (componentsCheck [] d.components).next <|
      if d.id ∈ seen then .duplicate else segmentsCheck (seen ++ [d.id]) ds

/-- `YAP_V2_manifest_validate`. -/
def manifestValidate (m : Manifest) : Status :=
  if m.generation = 0 ∨ maxSegments < m.segments.length then .invalidFormat
  else if m.configFingerprint.all (· = 0) then .invalidFormat
  else segmentsCheck [] m.segments

/-- The length of a component's file name. -/
def Component.nameBytes : Component → Nat
  | .documents => 14
  | .terms => 10
  | .postings => 13
  | .positions => 14
  | .metadata => 13
  | .vectors => 12
  | .ann => 15
  | .tombstones => 15

/-- `manifest_payload_size`. -/
def manifestPayloadSize (m : Manifest) : Nat :=
  40 + (m.segments.map fun d =>
    32 + d.id.kind.idBytes + (d.components.map fun c => 56 + c.component.nameBytes).sum).sum

def maxManifestBytes : Nat := 128 * 1024 * 1024

/-- The refusals of `YAP_V2_manifest_save_atomic` before it touches the disk. -/
def saveCheck (m : Manifest) : Status :=
  (manifestValidate m).next <|
    if maxManifestBytes - fileHeaderBytes < manifestPayloadSize m then .outOfRange else .ok

/-- `YAP_V2_segment_count_validate`. -/
def segmentCountValidate (existing added : Nat) : Status :=
  if maxSegments < existing ∨ maxSegments - existing < added then .outOfRange else .ok

/-- `YAP_V2_manifest_verify_segment_components`, for one file that has been read: its digest and
size, and, except for the usearch file, its header. -/
def verifyFile (env : Env) (manifestGeneration : Nat) (c : ComponentDescriptor) (f : File) :
    Status :=
  if f.bytes env ≠ c.fileBytes ∨ Digest.sha256 f ≠ c.checksum then .checksumMismatch
  else if c.component = .ann then .ok
  else if f.generation = 0 ∨ manifestGeneration < f.generation ∨
      f.payload.component ≠ c.component then .invalidFormat
  else .ok

end Yappod

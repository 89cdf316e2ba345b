import Mathlib.Algebra.Order.BigOperators.Group.List
import Mathlib.Algebra.Order.Ring.Nat
import Mathlib.Data.List.TakeWhile
import Yappod.Lib.Codec
import Yappod.Storage.Snapshot

/-!
# The file `manifest.yap2`

The manifest as bytes.  `RawManifest` is the structure of `yappo_storage_v2.h`, with the names and
file types as the file has them; `manifestSave` is what `YAP_V2_manifest_save_atomic` writes, and
`manifestLoad` what `YAP_V2_manifest_load` makes of a file.

* `payloadSize_le` — a manifest that passes `validate` is never refused for its size.
* `manifestLoad_eq_ok` — `manifestLoad` accepts the files of valid manifests, and nothing else.
* `manifest_codec` — saving and loading are inverse to each other.
-/

set_option autoImplicit false

namespace Yappod

/-! ## The structures -/

/-- A C string. -/
structure CString where
  bytes : Bytes
  /-- The terminator is not part of the string. -/
  noNul : 0 ∉ bytes
  deriving DecidableEq

/-- A byte array of a fixed length. -/
abbrev ByteArrayOf (n : Nat) := { bs : Bytes // bs.length = n }

/-- `YAP_V2_COMPONENT_DESCRIPTOR`. -/
structure RawComponent where
  name : CString
  fileType : UInt32
  recordCount : UInt64
  fileBytes : UInt64
  checksum : ByteArrayOf 32
  deriving DecidableEq

/-- `YAP_V2_SEGMENT_DESCRIPTOR`. -/
structure RawSegment where
  id : CString
  documentCount : UInt64
  passageCount : UInt64
  tombstoneCount : UInt64
  components : List RawComponent
  deriving DecidableEq

/-- `YAP_V2_MANIFEST`, without the table of slots that goes with its segments. -/
structure RawManifest where
  formatVersion : UInt32
  generation : UInt64
  configFingerprint : ByteArrayOf 32
  segments : List RawSegment
  deriving DecidableEq

def storageFormatVersion : Nat := 2

def maxComponents : Nat := 8

def maxComponentNameBytes : Nat := 63

def fileTypeAnn : Nat := 8

def fileTypeManifest : Nat := 9

/-! ## Validation -/

/-- `YAP_V2_segment_id_validate`. -/
def segmentIdValidate (id : CString) : Status :=
  if maxIdentifierBytes < id.bytes.length ∨ id.bytes.length = 0 then .invalidFormat
  else if id.bytes.all fun c => (97 ≤ c ∧ c ≤ 122) ∨ (65 ≤ c ∧ c ≤ 90) ∨ (48 ≤ c ∧ c ≤ 57) ∨
      c = 45 ∨ c = 95 ∨ c = 46 then .ok
  else .invalidFormat

/-- `YAP_V2_segment_descriptor_add_component`, for the components a segment has so far. -/
def addComponent (components : List RawComponent) (c : RawComponent) :
    Except Status (List RawComponent) :=
  if c.name.bytes.length = 0 ∨ maxComponentNameBytes + 1 ≤ c.name.bytes.length ∨
      c.fileType = 0 ∨ fileTypeAnn < c.fileType.toNat ∨ c.fileBytes = 0 ∨
      (c.fileType.toNat ≠ fileTypeAnn ∧ c.fileBytes.toNat < fileHeaderBytes) ∨
      47 ∈ c.name.bytes ∨ 92 ∈ c.name.bytes then .error .invalidFormat
  else if maxComponents ≤ components.length then .error .outOfRange
  else if components.any fun e => e.name = c.name ∨ e.fileType = c.fileType then .error .duplicate
  else .ok (components ++ [c])

/-- Add components one after the other. -/
def addComponents : List RawComponent → List RawComponent → Except Status (List RawComponent)
  | components, [] => .ok components
  | components, c :: cs => do
    let components ← addComponent components c
    addComponents components cs

/-- The table from names to places in the list of segments. -/
abbrev Slots := Table CString Nat

/-- `manifest_segment_hash`. -/
def manifestSegmentHash (id : CString) : Nat := bytesHash id.bytes

/-- Enter a name that must not be there yet. -/
def Slots.enter (slots : Slots) (id : CString) (i : Nat) : Except Status Slots :=
  if (slots.lookup manifestSegmentHash id).isSome then .error .duplicate
  else (slots.insert manifestSegmentHash id i).elim (.error .outOfRange) .ok

/-- The segments of a manifest, checked in order. -/
def validateSegments : Slots → Nat → List RawSegment → Status
  | _, _, [] => .ok
  | slots, i, s :: ss =>
    (segmentIdValidate s.id).next <|
      if s.components.length = 0 ∨ maxComponents < s.components.length then .invalidFormat
      else
        match addComponents [] s.components with
        | .error e => e
        | .ok _ =>
          match slots.enter s.id i with
          | .error e => e
          | .ok slots => validateSegments slots (i + 1) ss

/-- `YAP_V2_manifest_validate`. -/
def RawManifest.validate (m : RawManifest) : Status :=
  if m.formatVersion.toNat ≠ storageFormatVersion ∨ m.generation = 0 ∨ maxSegments < m.segments.length then
    .invalidFormat
  else if m.configFingerprint.1.all (· = 0) then .invalidFormat
  else validateSegments (Table.empty (tableCapacity m.segments.length)) 0 m.segments

/-! ## Writing -/

/-- The bytes of a component entry. -/
def encodeComponent (c : RawComponent) : Bytes :=
  leBytes 4 c.name.bytes.length ++ (leBytes 4 c.fileType.toNat ++ (leBytes 8 c.recordCount.toNat ++
    (leBytes 8 c.fileBytes.toNat ++ (c.checksum.1 ++ c.name.bytes))))

/-- The bytes of a segment entry. -/
def encodeSegment (s : RawSegment) : Bytes :=
  leBytes 4 s.id.bytes.length ++ (leBytes 4 s.components.length ++
    (leBytes 8 s.documentCount.toNat ++ (leBytes 8 s.passageCount.toNat ++
      (leBytes 8 s.tombstoneCount.toNat ++ (s.id.bytes ++ s.components.flatMap encodeComponent)))))

def payloadVersion : Nat := 1

/-- The payload that `encode_manifest` writes. -/
def encodePayload (m : RawManifest) : Bytes :=
  leBytes 4 payloadVersion ++ (leBytes 4 m.segments.length ++
    (m.configFingerprint.1 ++ m.segments.flatMap encodeSegment))

/-- `manifest_payload_size`, without its limits. -/
def RawManifest.payloadSize (m : RawManifest) : Nat :=
  40 + (m.segments.map fun s => 32 + s.id.bytes.length +
    (s.components.map fun c => 56 + c.name.bytes.length).sum).sum

/-- One step of `crc32c`: a byte more. -/
def crc32cByte (crc : UInt32) (b : UInt8) : UInt32 :=
  (List.range 8).foldl (fun (c : UInt32) _ =>
    (c >>> 1) ^^^ (if c &&& 1 = 1 then 0x82f63b78 else 0)) (crc ^^^ b.toUInt32)

/-- `crc32c`. -/
def crc32c (bs : Bytes) : UInt32 := ~~~ bs.foldl crc32cByte 0xffffffff

/-- `YAP_V2_FILE_HEADER`. -/
structure FileHeader where
  formatVersion : UInt16
  headerBytes : UInt16
  fileType : UInt32
  generation : UInt64
  payloadBytes : UInt64
  payloadCrc32c : UInt32
  deriving DecidableEq

/-- `file_header_type_valid`. -/
def fileHeaderTypeValid (fileType : UInt32) : Bool :=
  (1 ≤ fileType ∧ fileType ≤ 7) ∨ fileType = 9 ∨ fileType = 10

/-- The conditions on a header that the encoder and the decoder both check. -/
def FileHeader.valid (h : FileHeader) : Bool :=
  h.formatVersion.toNat = storageFormatVersion ∧ h.headerBytes.toNat = fileHeaderBytes ∧
    fileHeaderTypeValid h.fileType ∧ h.generation ≠ 0

/-- The magic bytes, `YAP2`. -/
def magic : Bytes := [89, 65, 80, 50]

/-- The 32 bytes of a header. -/
def FileHeader.bytes (h : FileHeader) : Bytes :=
  magic ++ (leBytes 2 h.formatVersion.toNat ++ (leBytes 2 h.headerBytes.toNat ++
    (leBytes 4 h.fileType.toNat ++ (leBytes 8 h.generation.toNat ++
      (leBytes 8 h.payloadBytes.toNat ++ leBytes 4 h.payloadCrc32c.toNat)))))

/-- `YAP_V2_file_header_encode`. -/
def fileHeaderEncode (h : FileHeader) : Except Status Bytes :=
  if h.valid then .ok h.bytes else .error .invalidFormat

/-- The header of a manifest file. -/
def manifestHeader (m : RawManifest) (payload : Bytes) : FileHeader where
  formatVersion := 2
  headerBytes := 32
  fileType := 9
  generation := m.generation
  payloadBytes := UInt64.ofNat payload.length
  payloadCrc32c := crc32c payload

/-- `encode_manifest`, into a file of a size that was computed before. -/
def encodeManifest (m : RawManifest) (fileSize : Nat) : Except Status Bytes :=
  if (encodePayload m).length ≠ fileSize - fileHeaderBytes then .error .conflict
  else do
    let header ← fileHeaderEncode (manifestHeader m (encodePayload m))
    return header ++ encodePayload m

/-- The bytes `YAP_V2_manifest_save_atomic` writes, or why it refuses to. -/
def manifestSave (m : RawManifest) : Except Status Bytes :=
  if m.validate ≠ .ok then .error m.validate
  else if maxManifestBytes - fileHeaderBytes < m.payloadSize then .error .outOfRange
  else encodeManifest m (fileHeaderBytes + m.payloadSize)

/-! ## Reading -/

/-- A name that is followed by something else than a terminator. -/
def cString (bs : Bytes) : Except Status CString :=
  if h : 0 ∉ bs then .ok ⟨bs, h⟩ else .error .invalidFormat

/-- The part of a buffer that is a C string. -/
def bufferString (bs : Bytes) : CString where
  bytes := bs.takeWhile (· ≠ 0)
  noNul h := by simpa using List.mem_takeWhile_imp h

/-- `parse_component`. -/
def parseComponent : Reader Status RawComponent := do
  let nameBytes ← Reader.uint32 .invalidFormat
  let fileType ← Reader.uint32 .invalidFormat
  let recordCount ← Reader.uint64 .invalidFormat
  let fileBytes ← Reader.uint64 .invalidFormat
  let checksum ← Reader.block .invalidFormat 32
  Reader.require .invalidFormat (nameBytes ≠ 0 ∧ nameBytes.toNat ≤ maxComponentNameBytes)
  let bytes ← Reader.take .invalidFormat nameBytes.toNat
  let name ← cString bytes
  return ⟨name, fileType, recordCount, fileBytes, checksum⟩

/-- The components of a segment, added as they are read. -/
def parseComponents : Nat → List RawComponent → Reader Status (List RawComponent)
  | 0, components => pure components
  | n + 1, components => do
    let c ← parseComponent
    let components ← addComponent components c
    parseComponents n components

/-- `parse_segment`. -/
def parseSegment : Reader Status RawSegment := do
  let idBytes ← Reader.uint32 .invalidFormat
  let componentCount ← Reader.uint32 .invalidFormat
  let documentCount ← Reader.uint64 .invalidFormat
  let passageCount ← Reader.uint64 .invalidFormat
  let tombstoneCount ← Reader.uint64 .invalidFormat
  Reader.require .invalidFormat (idBytes ≠ 0 ∧ idBytes.toNat ≤ maxIdentifierBytes ∧
    componentCount ≠ 0 ∧ componentCount.toNat ≤ maxComponents)
  let bytes ← Reader.take .invalidFormat idBytes.toNat
  let id ← cString bytes
  let components ← parseComponents componentCount.toNat []
  return ⟨id, documentCount, passageCount, tombstoneCount, components⟩

/-- The segments of a manifest that is being read, with the table of their names. -/
structure Growing where
  segments : List RawSegment
  slots : Slots

/-- Enter the names of segments, from the `i`-th on. -/
def Slots.enterAll : Slots → Nat → List RawSegment → Except Status Slots
  | slots, _, [] => .ok slots
  | slots, i, s :: ss => do
    let slots ← slots.enter s.id i
    enterAll slots (i + 1) ss

/-- `manifest_slots_rebuild`. -/
def slotsRebuild (segments : List RawSegment) (requiredCount : Nat) : Except Status Slots :=
  if maxSegments < requiredCount then .error .outOfRange
  else Slots.enterAll (Table.empty (tableCapacity requiredCount)) 0 segments

/-- The table `YAP_V2_manifest_add_segment` enters the next name in. -/
def Growing.roomySlots (g : Growing) : Except Status Slots :=
  if g.slots.capacity = 0 ∨ g.slots.capacity / 2 < g.segments.length + 1 then
    slotsRebuild g.segments (g.segments.length + 1)
  else .ok g.slots

/-- `YAP_V2_manifest_add_segment`. -/
def Growing.addSegment (g : Growing) (s : RawSegment) : Except Status Growing :=
  if segmentIdValidate s.id ≠ .ok then .error (segmentIdValidate s.id)
  else if maxSegments ≤ g.segments.length then .error .outOfRange
  else do
    let slots ← g.roomySlots
    let slots ← slots.enter s.id g.segments.length
    return ⟨g.segments ++ [s], slots⟩

/-- The segments of a manifest, added as they are read. -/
def parseSegments : Nat → Growing → Reader Status Growing
  | 0, g => pure g
  | n + 1, g => do
    let s ← parseSegment
    let g ← g.addSegment s
    parseSegments n g

/-- The payload of a manifest file. -/
def parsePayload (generation : UInt64) : Reader Status RawManifest := do
  let version ← Reader.uint32 .invalidFormat
  let segmentCount ← Reader.uint32 .invalidFormat
  let fingerprint ← Reader.block .invalidFormat 32
  Reader.require .invalidFormat (version.toNat = payloadVersion ∧ segmentCount.toNat ≤ maxSegments)
  let g ← parseSegments segmentCount.toNat ⟨[], Table.empty 0⟩
  return ⟨2, generation, fingerprint, g.segments⟩

/-- `YAP_V2_file_header_decode`, of the first 32 bytes of a file that has as many. -/
def fileHeaderDecode : Reader Status FileHeader := do
  let bytes ← Reader.take .invalidFormat 4
  Reader.require .invalidFormat (bytes = magic)
  let version ← Reader.uint16 .invalidFormat
  let headerBytes ← Reader.uint16 .invalidFormat
  let fileType ← Reader.uint32 .invalidFormat
  let generation ← Reader.uint64 .invalidFormat
  let payloadBytes ← Reader.uint64 .invalidFormat
  let payloadCrc32c ← Reader.uint32 .invalidFormat
  let header : FileHeader := ⟨version, headerBytes, fileType, generation, payloadBytes, payloadCrc32c⟩
  Reader.require .invalidFormat header.valid
  return header

/-- `YAP_V2_manifest_load`, of a file that could be read. -/
def manifestLoad (file : Bytes) : Except Status RawManifest :=
  if file.length < fileHeaderBytes + 40 then .error .invalidFormat
  else if maxManifestBytes < file.length then .error .outOfRange
  else do
    let (header, payload) ← fileHeaderDecode.run file
    if header.fileType.toNat ≠ fileTypeManifest ∨
        header.payloadBytes.toNat ≠ file.length - fileHeaderBytes then
      .error .invalidFormat
    else if crc32c payload ≠ header.payloadCrc32c then .error .checksumMismatch
    else do
      let (m, rest) ← (parsePayload header.generation).run payload
      if rest ≠ [] then .error .invalidFormat
      else if m.validate ≠ .ok then .error m.validate
      else .ok m

/-! ## The table of names -/

/-- The table holds these names, and has room. -/
structure Slots.Lists (slots : Slots) (ids : List CString) : Prop where
  chained : slots.Chained manifestSegmentHash
  card : slots.occupied.card ≤ ids.length
  lookup : ∀ id, (slots.lookup manifestSegmentHash id).isSome ↔ id ∈ ids

theorem Slots.lists_empty (c : Nat) : Slots.Lists (Table.empty c) [] where
  chained := Table.chained_empty _ c
  card := by rw [Table.occupied_empty]; rfl
  lookup id := by rw [Table.lookup_empty]; simp

/-- A name is entered if it is new. -/
theorem Slots.Lists.enter {slots : Slots} {ids : List CString} (h : slots.Lists ids)
    (hroom : ids.length + 1 < slots.capacity) (id : CString) (i : Nat) :
    (id ∈ ids ∧ slots.enter id i = .error .duplicate) ∨
      (id ∉ ids ∧ ∃ slots' : Slots, slots.enter id i = .ok slots' ∧
        slots'.capacity = slots.capacity ∧ slots'.Lists (ids ++ [id])) := by
  rw [Slots.enter]
  by_cases hmem : id ∈ ids
  · rw [if_pos ((h.lookup id).mpr hmem)]
    exact .inl ⟨hmem, rfl⟩
  · rw [if_neg fun hl => hmem ((h.lookup id).mp hl)]
    have hcard := h.card
    obtain ⟨t, ht, hcap, hch, hle, hlook⟩ := h.chained.insert (by omega) id i
    refine .inr ⟨hmem, t, by rw [ht]; rfl, hcap, hch, ?_, fun id' => ?_⟩
    · rw [List.length_append, List.length_singleton]
      omega
    · rw [hlook (by omega), List.mem_append, List.mem_singleton]
      split
      · rename_i heq
        simp [heq]
      · rename_i hne
        rw [h.lookup id', or_iff_left fun heq => hne heq.symm]

/-- The names of distinct segments can be entered, and only those. -/
theorem Slots.enterAll_spec {ss : List RawSegment} {slots : Slots} {ids : List CString} {i : Nat}
    (h : slots.Lists ids) (hids : (ids ++ ss.map (·.id)).Nodup)
    (hroom : ids.length + ss.length < slots.capacity) :
    ∃ slots' : Slots, slots.enterAll i ss = .ok slots' ∧ slots'.capacity = slots.capacity ∧
      slots'.Lists (ids ++ ss.map (·.id)) := by
  induction ss generalizing slots ids i with
  | nil => exact ⟨slots, rfl, rfl, by simpa using h⟩
  | cons s ss ih =>
    rw [List.length_cons] at hroom
    rw [List.map_cons, List.append_cons] at hids ⊢
    have hnew : s.id ∉ ids := by
      intro hmem
      rw [List.append_assoc, List.nodup_append] at hids
      exact hids.2.2 _ hmem _ (by simp) rfl
    obtain ⟨hmem, -⟩ | ⟨-, slots₁, h₁, hcap, hlists⟩ := h.enter (by omega) s.id i
    · exact absurd hmem hnew
    · obtain ⟨slots', h', hcap', hlists'⟩ := ih (i := i + 1) hlists hids (by
        rw [List.length_append, List.length_singleton, hcap]
        omega)
      exact ⟨slots', by rw [Slots.enterAll, h₁]; exact h', hcap'.trans hcap, hlists'⟩

/-! ## What validation accepts -/

/-- Adding components appends them. -/
theorem addComponents_eq {cs ds out : List RawComponent} (h : addComponents cs ds = .ok out) :
    out = cs ++ ds := by
  induction ds generalizing cs with
  | nil =>
    cases h
    rw [List.append_nil]
  | cons d ds ih =>
    obtain ⟨cs₁, h₁, h⟩ := bind_eq_ok.mp h
    have := ih h
    rw [addComponent] at h₁
    split_ifs at h₁
    cases h₁
    rw [this, List.append_assoc, List.singleton_append]

/-- A component that can be added has a name of a proper length. -/
theorem name_of_addComponent {cs out : List RawComponent} {c : RawComponent}
    (h : addComponent cs c = .ok out) :
    c.name.bytes.length ≠ 0 ∧ c.name.bytes.length ≤ maxComponentNameBytes := by
  rw [addComponent] at h
  split_ifs at h with hbad
  push Not at hbad
  exact ⟨hbad.1, Nat.le_of_lt_succ hbad.2.1⟩

theorem names_of_addComponents {cs ds out : List RawComponent} (h : addComponents cs ds = .ok out) :
    ∀ c ∈ ds, c.name.bytes.length ≠ 0 ∧ c.name.bytes.length ≤ maxComponentNameBytes := by
  induction ds generalizing cs with
  | nil => simp
  | cons d ds ih =>
    obtain ⟨cs₁, h₁, h⟩ := bind_eq_ok.mp h
    exact List.forall_mem_cons.mpr ⟨name_of_addComponent h₁, ih h⟩

/-- A refusal of a component says why. -/
theorem addComponents_ne {cs ds : List RawComponent} : addComponents cs ds ≠ .error .ok := by
  induction ds generalizing cs with
  | nil => exact fun h => nomatch h
  | cons d ds ih =>
    rw [addComponents, addComponent]
    split_ifs
    · exact fun h => nomatch h
    · exact fun h => nomatch h
    · exact fun h => nomatch h
    · exact ih

/-- The checks on a single segment. -/
structure RawSegment.Ok (s : RawSegment) : Prop where
  id : segmentIdValidate s.id = .ok
  nonempty : s.components.length ≠ 0
  count : s.components.length ≤ maxComponents
  components : addComponents [] s.components = .ok s.components

theorem validateSegments_eq_ok {ss : List RawSegment} {slots : Slots} {ids : List CString} {i : Nat}
    (h : slots.Lists ids) (hids : ids.Nodup) (hroom : ids.length + ss.length < slots.capacity) :
    validateSegments slots i ss = .ok ↔
      (∀ s ∈ ss, s.Ok) ∧ (ids ++ ss.map (·.id)).Nodup := by
  induction ss generalizing slots ids i with
  | nil => simpa [validateSegments] using hids
  | cons s ss ih =>
    rw [List.length_cons] at hroom
    rw [validateSegments, Status.next_eq_ok, List.forall_mem_cons, List.map_cons]
    constructor
    · rintro ⟨hid, h'⟩
      split at h'
      · cases h'
      rename_i hcount
      push Not at hcount
      split at h'
      · rename_i e he
        subst h'
        exact absurd he addComponents_ne
      · rename_i out hout
        obtain ⟨-, henter⟩ | ⟨hnew, slots₁, henter, hcap, hlists⟩ := h.enter (by omega) s.id i
        · rw [henter] at h'
          cases h'
        · rw [henter] at h'
          have hnd : (ids ++ [s.id]).Nodup := by
            rw [List.nodup_append]
            refine ⟨hids, List.nodup_singleton _, fun a ha b hb hab => ?_⟩
            rw [List.mem_singleton] at hb
            exact hnew (hb ▸ hab ▸ ha)
          obtain ⟨hok, hnodup⟩ := (ih hlists hnd (by
            rw [List.length_append, List.length_singleton, hcap]
            omega)).mp h'
          rw [List.append_assoc, List.singleton_append] at hnodup
          have hcs := addComponents_eq hout
          rw [List.nil_append] at hcs
          subst hcs
          exact ⟨⟨⟨hid, hcount.1, hcount.2, hout⟩, hok⟩, hnodup⟩
    · rintro ⟨⟨hs, hss⟩, hnodup⟩
      refine ⟨hs.id, ?_⟩
      rw [if_neg (by have := hs.nonempty; have := hs.count; omega), hs.components]
      have hnew : s.id ∉ ids := by
        intro hmem
        rw [List.nodup_append] at hnodup
        exact hnodup.2.2 _ hmem _ (by simp) rfl
      obtain ⟨hmem, -⟩ | ⟨-, slots₁, henter, hcap, hlists⟩ := h.enter (by omega) s.id i
      · exact absurd hmem hnew
      · rw [List.append_cons] at hnodup
        have hnd : (ids ++ [s.id]).Nodup := (List.nodup_append.mp hnodup).1
        simp only [henter]
        exact (ih hlists hnd (by
          rw [List.length_append, List.length_singleton, hcap]
          omega)).mpr ⟨hss, hnodup⟩


/-- **What `YAP_V2_manifest_validate` accepts.** -/
theorem RawManifest.validate_eq_ok {m : RawManifest} :
    m.validate = .ok ↔ m.formatVersion = 2 ∧ m.generation ≠ 0 ∧ m.segments.length ≤ maxSegments ∧
      ¬ m.configFingerprint.1.all (· = 0) = true ∧ (∀ s ∈ m.segments, s.Ok) ∧
      (m.segments.map (·.id)).Nodup := by
  have hversion : m.formatVersion.toNat = storageFormatVersion ↔ m.formatVersion = 2 :=
    ⟨fun h => UInt32.toNat_inj.mp h, fun h => by rw [h]; rfl⟩
  rw [validate]
  split
  · rename_i hbad
    refine iff_of_false (by simp) ?_
    rintro ⟨h₁, h₂, h₃, -⟩
    rw [← hversion] at h₁
    rcases hbad with hbad | hbad | hbad
    · exact hbad h₁
    · exact h₂ hbad
    · omega
  rename_i hgood
  push Not at hgood
  obtain ⟨h₁, h₂, h₃⟩ := hgood
  rw [and_iff_right (hversion.mp h₁), and_iff_right h₂, and_iff_right h₃]
  split
  · rename_i hzero
    exact iff_of_false (by simp) fun h => h.1 hzero
  · rename_i hzero
    rw [and_iff_right hzero]
    rcases eq_or_ne m.segments [] with hnil | hne
    · rw [hnil]
      simp [validateSegments]
    · have hroom := lt_tableCapacity (fun h => hne (List.eq_nil_of_length_eq_zero h))
      have := validateSegments_eq_ok (i := 0) (Slots.lists_empty (tableCapacity m.segments.length))
        List.nodup_nil (by simpa [Table.empty] using hroom)
      simpa using this

/-! ## Sizes -/

theorem length_encodeComponent (c : RawComponent) :
    (encodeComponent c).length = 56 + c.name.bytes.length := by
  simp only [encodeComponent, List.length_append, length_leBytes, c.checksum.2]
  omega

theorem length_encodeSegment (s : RawSegment) :
    (encodeSegment s).length = 32 + s.id.bytes.length +
      (s.components.map fun c => 56 + c.name.bytes.length).sum := by
  simp only [encodeSegment, List.length_append, length_leBytes, List.length_flatMap,
    length_encodeComponent]
  omega

/-- The size that is computed is the size that is written. -/
theorem length_encodePayload (m : RawManifest) : (encodePayload m).length = m.payloadSize := by
  simp only [encodePayload, List.length_append, length_leBytes, m.configFingerprint.2,
    List.length_flatMap, length_encodeSegment, RawManifest.payloadSize]
  omega

theorem RawSegment.Ok.size_le {s : RawSegment} (h : s.Ok) :
    32 + s.id.bytes.length + (s.components.map fun c => 56 + c.name.bytes.length).sum ≤ 1239 := by
  have hid : s.id.bytes.length ≤ 255 := by
    have := h.id
    rw [segmentIdValidate] at this
    split at this
    · cases this
    · rename_i hlen
      push Not at hlen
      exact hlen.1
  have hcount : s.components.length ≤ 8 := h.count
  have hsum : (s.components.map fun c => 56 + c.name.bytes.length).sum ≤
      (s.components.map fun c => 56 + c.name.bytes.length).length • 119 := by
    refine List.sum_le_card_nsmul _ _ fun n hn => ?_
    obtain ⟨c, hc, rfl⟩ := List.mem_map.mp hn
    have : c.name.bytes.length ≤ 63 := (names_of_addComponents h.components c hc).2
    omega
  rw [List.length_map, Nat.nsmul_eq_mul] at hsum
  omega

/-- **A valid manifest is within the size limit.** -/
theorem payloadSize_le {m : RawManifest} (h : m.validate = .ok) :
    m.payloadSize ≤ maxManifestBytes - fileHeaderBytes := by
  obtain ⟨-, -, hcount, -, hok, -⟩ := RawManifest.validate_eq_ok.mp h
  have hsum : (m.segments.map fun s => 32 + s.id.bytes.length +
      (s.components.map fun c => 56 + c.name.bytes.length).sum).sum ≤
      (m.segments.map fun s => 32 + s.id.bytes.length +
        (s.components.map fun c => 56 + c.name.bytes.length).sum).length • 1239 := by
    refine List.sum_le_card_nsmul _ _ fun n hn => ?_
    obtain ⟨s, hs, rfl⟩ := List.mem_map.mp hn
    exact (hok s hs).size_le
  rw [List.length_map, Nat.nsmul_eq_mul] at hsum
  have : maxSegments = 100000 := rfl
  have : maxManifestBytes - fileHeaderBytes = 134217696 := rfl
  rw [RawManifest.payloadSize]
  omega

/-! ## Reading gives back what was written -/

theorem CString.ext {s t : CString} (h : s.bytes = t.bytes) : s = t := by
  obtain ⟨sb, hs⟩ := s
  obtain ⟨tb, ht⟩ := t
  dsimp only at h
  subst h
  rfl

/-- A string without a NUL is all of its buffer. -/
theorem bufferString_bytes_eq {bs : Bytes} : (bufferString bs).bytes = bs ↔ 0 ∉ bs := by
  refine List.takeWhile_eq_self_iff.trans ?_
  simp only [decide_eq_true_eq]
  exact ⟨fun h h0 => h 0 h0 rfl, fun h b hb h0 => h (h0 ▸ hb)⟩

theorem bufferString_bytes (s : CString) : bufferString s.bytes = s :=
  CString.ext (bufferString_bytes_eq.mpr s.noNul)

theorem cString_eq_ok {bs : Bytes} {s : CString} : cString bs = .ok s ↔ bs = s.bytes := by
  rw [cString]
  split
  · rename_i h
    rw [Except.ok.injEq]
    exact ⟨fun hs => hs ▸ rfl, fun hs => by subst hs; rfl⟩
  · rename_i h
    refine iff_of_false (by simp) ?_
    rintro rfl
    exact h s.noNul

/-- A 32-bit length field. -/
theorem ofNat_length {n : Nat} (h : n < 2 ^ 32) : (UInt32.ofNat n).toNat = n :=
  UInt32.toNat_ofNat_of_lt' h

theorem exact_parseComponent : Exact parseComponent encodeComponent fun c =>
    c.name.bytes.length ≠ 0 ∧ c.name.bytes.length ≤ maxComponentNameBytes := by
  intro bs c rest
  simp only [parseComponent, Reader.bind_eq_ok, exact_uint32 _ _ _ _, exact_uint64 _ _ _ _,
    exact_block _ _ _ _ _, exact_take _ _ _ _ _, Reader.require_eq_ok, Reader.lift_eq_ok,
    cString_eq_ok, decide_eq_true_eq, true_and, id]
  constructor
  · rintro ⟨n, _, rfl, ty, _, rfl, rc, _, rfl, fb, _, rfl, sum, _, rfl, _, _, ⟨hn, h⟩, _, _,
      ⟨hlen, rfl⟩, name, _, ⟨rfl, rfl⟩, hc⟩
    cases h
    cases hc
    refine ⟨⟨fun h0 => hn.1 ?_, hlen ▸ hn.2⟩, ?_⟩
    · rw [h0] at hlen
      exact UInt32.toNat_inj.mp hlen.symm
    · simp only [encodeComponent, hlen, List.append_assoc]
  · rintro ⟨⟨hne, hle⟩, rfl⟩
    have hlen : (UInt32.ofNat c.name.bytes.length).toNat = c.name.bytes.length :=
      ofNat_length (lt_of_le_of_lt hle (by decide))
    simp only [encodeComponent, List.append_assoc]
    refine ⟨_, _, by rw [hlen], _, _, rfl, _, _, rfl, _, _, rfl, _, _, rfl, _, _,
      ⟨⟨fun h0 => hne ?_, by rw [hlen]; exact hle⟩, rfl⟩, _, _, ⟨hlen.symm, rfl⟩, _, _, ⟨rfl, rfl⟩, rfl⟩
    rw [← hlen, h0]
    rfl

/-- Components are read as they were written, and added one after the other. -/
theorem parseComponents_eq_ok {n : Nat} {cs out : List RawComponent} {bs rest : Bytes} :
    (parseComponents n cs).run bs = .ok (out, rest) ↔
      ∃ new, new.length = n ∧ addComponents cs new = .ok out ∧
        bs = new.flatMap encodeComponent ++ rest := by
  induction n generalizing cs bs with
  | zero =>
    constructor
    · rintro ⟨⟩
      exact ⟨[], rfl, rfl, rfl⟩
    · rintro ⟨new, hlen, h, rfl⟩
      obtain rfl := List.eq_nil_of_length_eq_zero hlen
      cases h
      rfl
  | succ n ih =>
    simp only [parseComponents, Reader.bind_eq_ok, Reader.lift_eq_ok, ih,
      exact_parseComponent _ _ _]
    constructor
    · rintro ⟨c, _, ⟨-, rfl⟩, cs', _, ⟨hadd, rfl⟩, new, rfl, h, rfl⟩
      refine ⟨c :: new, rfl, ?_, by rw [List.flatMap_cons, List.append_assoc]⟩
      exact bind_eq_ok.mpr ⟨cs', hadd, h⟩
    · rintro ⟨new, hlen, h, rfl⟩
      obtain ⟨c, new, rfl⟩ := List.exists_cons_of_length_eq_add_one hlen
      obtain ⟨cs', hadd, h⟩ := bind_eq_ok.mp h
      exact ⟨c, _, ⟨name_of_addComponent hadd, by rw [List.flatMap_cons, List.append_assoc]⟩, cs', _,
        ⟨hadd, rfl⟩, new, Nat.succ_injective hlen, h, rfl⟩

/-- What `parse_segment` asks of a segment. -/
structure RawSegment.Parsed (s : RawSegment) : Prop where
  id : s.id.bytes.length ≠ 0 ∧ s.id.bytes.length ≤ maxIdentifierBytes
  nonempty : s.components.length ≠ 0
  count : s.components.length ≤ maxComponents
  components : addComponents [] s.components = .ok s.components

theorem exact_parseSegment : Exact parseSegment encodeSegment RawSegment.Parsed := by
  intro bs s rest
  simp only [parseSegment, Reader.bind_eq_ok, exact_uint32 _ _ _ _, exact_uint64 _ _ _ _,
    exact_take _ _ _ _ _, Reader.require_eq_ok, Reader.lift_eq_ok, cString_eq_ok,
    decide_eq_true_eq, true_and, id, parseComponents_eq_ok]
  constructor
  · rintro ⟨n, _, rfl, k, _, rfl, dc, _, rfl, pc, _, rfl, tc, _, rfl, _, _, ⟨hn, h⟩, _, _,
      ⟨hlen, rfl⟩, sid, _, ⟨rfl, rfl⟩, out, _, ⟨new, hnew, hadd, rfl⟩, hs⟩
    cases h
    cases hs
    obtain rfl : out = new := addComponents_eq hadd
    refine ⟨⟨⟨fun h0 => hn.1 ?_, hlen ▸ hn.2.1⟩, fun h0 => hn.2.2.1 ?_, hnew ▸ hn.2.2.2, hadd⟩, ?_⟩
    · rw [h0] at hlen
      exact UInt32.toNat_inj.mp hlen.symm
    · rw [h0] at hnew
      exact UInt32.toNat_inj.mp hnew.symm
    · simp only [encodeSegment, hlen, hnew, List.append_assoc]
  · rintro ⟨⟨⟨hne, hle⟩, hne', hle', hadd⟩, rfl⟩
    have hlen : (UInt32.ofNat s.id.bytes.length).toNat = s.id.bytes.length :=
      ofNat_length (lt_of_le_of_lt hle (by decide))
    have hcount : (UInt32.ofNat s.components.length).toNat = s.components.length :=
      ofNat_length (lt_of_le_of_lt hle' (by decide))
    simp only [encodeSegment, List.append_assoc]
    refine ⟨_, _, by rw [hlen], _, _, by rw [hcount], _, _, rfl, _, _, rfl, _, _, rfl, _, _,
      ⟨⟨fun h0 => hne ?_, by rw [hlen]; exact hle, fun h0 => hne' ?_, by rw [hcount]; exact hle'⟩,
        rfl⟩, _, _, ⟨hlen.symm, rfl⟩, _, _, ⟨rfl, rfl⟩, _, _, ⟨_, hcount.symm, hadd, rfl⟩, rfl⟩
    · rw [← hlen, h0]
      rfl
    · rw [← hcount, h0]
      rfl

theorem RawSegment.Ok.parsed {s : RawSegment} (h : s.Ok) : s.Parsed := by
  refine ⟨?_, h.nonempty, h.count, h.components⟩
  have := h.id
  rw [segmentIdValidate] at this
  split at this
  · cases this
  · rename_i hlen
    push Not at hlen
    exact ⟨hlen.2, hlen.1⟩

/-- The table of a manifest that is being read holds the names of its segments. -/
structure Growing.Ok (g : Growing) : Prop where
  nodup : (g.segments.map (·.id)).Nodup
  lists : g.slots.capacity ≠ 0 → g.slots.Lists (g.segments.map (·.id))

/-- The table the next name goes into has room for it. -/
theorem Growing.Ok.roomySlots {g : Growing} (h : g.Ok) (hcount : g.segments.length < maxSegments) :
    ∃ slots : Slots, g.roomySlots = .ok slots ∧ slots.Lists (g.segments.map (·.id)) ∧
      g.segments.length + 1 < slots.capacity := by
  rw [Growing.roomySlots]
  split
  · rw [slotsRebuild, if_neg (by omega)]
    have hroom := lt_tableCapacity (Nat.succ_ne_zero g.segments.length)
    have hnodup : ([] ++ g.segments.map RawSegment.id).Nodup := by
      rw [List.nil_append]
      exact h.nodup
    obtain ⟨slots, hslots, hcap, hlists⟩ := Slots.enterAll_spec (i := 0)
      (Slots.lists_empty (tableCapacity (g.segments.length + 1))) hnodup (by
        rw [List.length_nil, Nat.zero_add]
        exact lt_trans (Nat.lt_succ_self _) hroom)
    exact ⟨slots, hslots, hlists, by rw [hcap]; exact hroom⟩
  · rename_i hroomy
    push Not at hroomy
    exact ⟨g.slots, rfl, h.lists hroomy.1, by omega⟩

/-- A segment is added if its name is proper and new and there is room in the manifest. -/
theorem Growing.Ok.addSegment {g : Growing} (h : g.Ok) (s : RawSegment) :
    (segmentIdValidate s.id = .ok ∧ g.segments.length < maxSegments ∧
        s.id ∉ g.segments.map (·.id) ∧ ∃ g' : Growing, g.addSegment s = .ok g' ∧
          g'.segments = g.segments ++ [s] ∧ g'.Ok) ∨
      (¬ (segmentIdValidate s.id = .ok ∧ g.segments.length < maxSegments ∧
          s.id ∉ g.segments.map (·.id)) ∧ ∃ e, g.addSegment s = .error e) := by
  rw [Growing.addSegment]
  by_cases hid : segmentIdValidate s.id = .ok
  swap
  · rw [if_pos hid]
    exact .inr ⟨fun h => hid h.1, _, rfl⟩
  rw [if_neg (fun hne => hne hid)]
  by_cases hcount : maxSegments ≤ g.segments.length
  · rw [if_pos hcount]
    exact .inr ⟨fun h => absurd h.2.1 (by omega), _, rfl⟩
  rw [if_neg hcount]
  obtain ⟨slots, hslots, hlists, hroom⟩ := h.roomySlots (by omega)
  obtain ⟨hmem, henter⟩ | ⟨hnew, slots', henter, -, hlists'⟩ :=
    hlists.enter (by rwa [List.length_map]) s.id g.segments.length
  · refine .inr ⟨fun h => h.2.2 hmem, .duplicate, ?_⟩
    simp only [hslots, henter, Bind.bind, Except.bind]
  · refine .inl ⟨hid, by omega, hnew, ⟨g.segments ++ [s], slots'⟩, ?_, rfl, ?_, fun _ => ?_⟩
    · simp only [hslots, henter, Bind.bind, Except.bind, Pure.pure, Except.pure]
    · rw [List.map_append, List.map_singleton, List.nodup_append]
      refine ⟨h.nodup, List.nodup_singleton _, fun a ha b hb hab => ?_⟩
      rw [List.mem_singleton] at hb
      exact hnew (hb ▸ hab ▸ ha)
    · rw [List.map_append, List.map_singleton]
      exact hlists'

/-- Segments are read as they were written, and added one after the other. -/
theorem parseSegments_eq_ok {n : Nat} {g : Growing} (hg : g.Ok)
    (hcount : g.segments.length ≤ maxSegments) {segments : List RawSegment} {bs rest : Bytes} :
    (∃ out, (parseSegments n g).run bs = .ok (out, rest) ∧ out.segments = segments) ↔
      ∃ new, new.length = n ∧ segments = g.segments ++ new ∧ (∀ s ∈ new, s.Ok) ∧
        (segments.map (·.id)).Nodup ∧ segments.length ≤ maxSegments ∧
        bs = new.flatMap encodeSegment ++ rest := by
  induction n generalizing g bs with
  | zero =>
    constructor
    · rintro ⟨_, ⟨⟩, rfl⟩
      exact ⟨[], rfl, (List.append_nil _).symm, by simp, hg.nodup, hcount, rfl⟩
    · rintro ⟨new, hlen, rfl, -, -, -, rfl⟩
      obtain rfl := List.eq_nil_of_length_eq_zero hlen
      exact ⟨g, rfl, (List.append_nil _).symm⟩
  | succ n ih =>
    simp only [parseSegments, Reader.bind_eq_ok, Reader.lift_eq_ok, exact_parseSegment _ _ _]
    constructor
    · rintro ⟨out, ⟨s, _, ⟨hs, rfl⟩, g', _, ⟨hadd, rfl⟩, hrun⟩, hout⟩
      obtain ⟨hid, hlt, -, g₁, hg₁, hsegs, hok⟩ | ⟨-, e, he⟩ := hg.addSegment s
      swap
      · rw [he] at hadd
        cases hadd
      obtain rfl : g₁ = g' := Except.ok.inj (hg₁.symm.trans hadd)
      obtain ⟨new, rfl, rfl, hnew, hnd, hle, rfl⟩ :=
        (ih hok (by rw [hsegs, List.length_append, List.length_singleton]; omega)).mp
          ⟨out, hrun, hout⟩
      refine ⟨s :: new, rfl, ?_, List.forall_mem_cons.mpr ⟨?_, hnew⟩, hnd, hle, ?_⟩
      · rw [hsegs, List.append_assoc, List.singleton_append]
      · exact ⟨hid, hs.nonempty, hs.count, hs.components⟩
      · rw [List.flatMap_cons, List.append_assoc]
    · rintro ⟨new, hlen, rfl, hnew, hnd, hle, rfl⟩
      obtain ⟨s, new, rfl⟩ := List.exists_cons_of_length_eq_add_one hlen
      rw [List.forall_mem_cons] at hnew
      have hfresh : s.id ∉ g.segments.map (·.id) := by
        intro hmem
        rw [List.map_append, List.nodup_append] at hnd
        exact hnd.2.2 _ hmem _ (by simp) rfl
      have hlt : g.segments.length < maxSegments := by
        rw [List.length_append, List.length_cons] at hle
        omega
      obtain ⟨-, -, -, g₁, hg₁, hsegs, hok⟩ | ⟨hbad, -⟩ := hg.addSegment s
      swap
      · exact absurd ⟨hnew.1.id, hlt, hfresh⟩ hbad
      have hroom : g₁.segments.length ≤ maxSegments := by
        rw [hsegs, List.length_append, List.length_singleton]
        omega
      obtain ⟨out, hrun, hout⟩ : ∃ out, (parseSegments n g₁).run
          (new.flatMap encodeSegment ++ rest) = .ok (out, rest) ∧
            out.segments = g.segments ++ s :: new :=
        (ih hok hroom).mpr ⟨new, Nat.succ_injective hlen, by
          rw [hsegs, List.append_assoc, List.singleton_append], hnew.2, hnd, hle, rfl⟩
      refine ⟨out, ⟨s, _, ⟨hnew.1.parsed, ?_⟩, g₁, _, ⟨hg₁, rfl⟩, hrun⟩, hout⟩
      rw [List.flatMap_cons, List.append_assoc]

/-- What the payload of a manifest file gives. -/
theorem parsePayload_eq_ok {generation : UInt64} {bs rest : Bytes} {m : RawManifest} :
    (parsePayload generation).run bs = .ok (m, rest) ↔
      m.formatVersion = 2 ∧ m.generation = generation ∧ m.segments.length ≤ maxSegments ∧
        (∀ s ∈ m.segments, s.Ok) ∧ (m.segments.map (·.id)).Nodup ∧
        bs = encodePayload m ++ rest := by
  have hempty : Growing.Ok ⟨[], Table.empty 0⟩ := ⟨List.nodup_nil, fun h => absurd rfl h⟩
  simp only [parsePayload, Reader.bind_eq_ok, exact_uint32 _ _ _ _, exact_block _ _ _ _ _,
    Reader.require_eq_ok, decide_eq_true_eq, true_and]
  constructor
  · rintro ⟨v, _, rfl, n, _, rfl, fp, _, rfl, _, _, ⟨⟨hv, hn⟩, h⟩, g, _, hrun, hm⟩
    cases h
    cases hm
    obtain ⟨new, hlen, hsegs, hnew, hnd, hle, rfl⟩ :=
      (parseSegments_eq_ok hempty (Nat.zero_le _)).mp ⟨g, hrun, rfl⟩
    rw [List.nil_append] at hsegs
    subst hsegs
    refine ⟨rfl, rfl, hle, hnew, hnd, ?_⟩
    simp only [encodePayload, hv, hlen, List.append_assoc]
  · rintro ⟨hversion, rfl, hle, hok, hnd, rfl⟩
    have hcount : (UInt32.ofNat m.segments.length).toNat = m.segments.length :=
      ofNat_length (lt_of_le_of_lt hle (by decide))
    obtain ⟨out, hrun, hout⟩ : ∃ out, (parseSegments m.segments.length ⟨[], Table.empty 0⟩).run
        (m.segments.flatMap encodeSegment ++ rest) = .ok (out, rest) ∧
          out.segments = m.segments :=
      (parseSegments_eq_ok hempty (Nat.zero_le _)).mpr ⟨m.segments, rfl, rfl, hok, hnd, hle, rfl⟩
    simp only [encodePayload, List.append_assoc]
    refine ⟨1, _, rfl, UInt32.ofNat m.segments.length, _, by rw [hcount], m.configFingerprint, _,
      rfl, _, _, ⟨⟨rfl, by rw [hcount]; exact hle⟩, rfl⟩, out, _, by rw [hcount]; exact hrun, ?_⟩
    rw [hout, ← hversion]
    rfl

theorem exact_fileHeaderDecode :
    Exact fileHeaderDecode FileHeader.bytes fun h => h.valid = true := by
  intro bs h rest
  simp only [fileHeaderDecode, Reader.bind_eq_ok, exact_uint16 _ _ _ _, exact_uint32 _ _ _ _,
    exact_uint64 _ _ _ _, exact_take _ _ _ _ _, Reader.require_eq_ok, decide_eq_true_eq, true_and,
    id]
  constructor
  · rintro ⟨_, _, ⟨-, rfl⟩, _, _, ⟨rfl, h₁⟩, v, _, rfl, hb, _, rfl, ty, _, rfl, gen, _, rfl, pb, _,
      rfl, crc, _, rfl, _, _, ⟨hvalid, h₂⟩, h₃⟩
    cases h₁
    cases h₂
    cases h₃
    exact ⟨hvalid, by simp only [FileHeader.bytes, List.append_assoc]⟩
  · rintro ⟨hvalid, rfl⟩
    simp only [FileHeader.bytes, List.append_assoc]
    exact ⟨_, _, ⟨rfl, rfl⟩, _, _, ⟨rfl, rfl⟩, _, _, rfl, _, _, rfl, _, _, rfl, _, _, rfl, _, _, rfl,
      _, _, rfl, _, _, ⟨hvalid, rfl⟩, rfl⟩

/-! ## The codec -/

theorem manifestHeader_valid {m : RawManifest} (h : m.generation ≠ 0) (payload : Bytes) :
    (manifestHeader m payload).valid = true := by
  have hver : (manifestHeader m payload).formatVersion.toNat = storageFormatVersion := rfl
  have hbytes : (manifestHeader m payload).headerBytes.toNat = fileHeaderBytes := rfl
  have htype : fileHeaderTypeValid (manifestHeader m payload).fileType = true :=
    show fileHeaderTypeValid 9 = true by decide
  have hgen : (manifestHeader m payload).generation ≠ 0 := h
  rw [FileHeader.valid, decide_eq_true_eq]
  exact ⟨hver, hbytes, htype, hgen⟩

/-- The file a valid manifest is saved as. -/
def manifestFile (m : RawManifest) : Bytes :=
  (manifestHeader m (encodePayload m)).bytes ++ encodePayload m

/-- **What is saved**: the file of a valid manifest, and nothing for any other. -/
theorem manifestSave_eq_ok {m : RawManifest} {bs : Bytes} :
    manifestSave m = .ok bs ↔ m.validate = .ok ∧ bs = manifestFile m := by
  rw [manifestSave]
  by_cases hvalid : m.validate = .ok
  swap
  · rw [if_pos hvalid]
    exact iff_of_false (by simp) fun h => hvalid h.1
  obtain ⟨-, hgen, -⟩ := RawManifest.validate_eq_ok.mp hvalid
  rw [if_neg (fun h => h hvalid), if_neg (Nat.not_lt.mpr (payloadSize_le hvalid)), encodeManifest,
    length_encodePayload, Nat.add_sub_cancel_left, if_neg (fun h => h rfl), fileHeaderEncode,
    if_pos (manifestHeader_valid hgen _), and_iff_right hvalid, manifestFile]
  show Except.ok _ = _ ↔ _
  rw [Except.ok.injEq]
  exact eq_comm

theorem length_bytes (h : FileHeader) : h.bytes.length = fileHeaderBytes := by
  simp [FileHeader.bytes, magic, fileHeaderBytes]

/-- A header that was accepted for a payload is the one that is written for it. -/
theorem eq_manifestHeader {m : RawManifest} {payload : Bytes} {h : FileHeader}
    (hvalid : h.valid = true) (hgen : m.generation = h.generation)
    (htype : ¬ h.fileType.toNat ≠ fileTypeManifest)
    (hbytes : h.payloadBytes.toNat = payload.length) (hcrc : crc32c payload = h.payloadCrc32c) :
    manifestHeader m payload = h := by
  rw [FileHeader.valid, decide_eq_true_eq] at hvalid
  obtain ⟨hver, hlen, -, -⟩ := hvalid
  rw [not_not] at htype
  obtain ⟨v, hb, ty, gen, pb, crc⟩ := h
  have h₁ : v = 2 := UInt16.toNat_inj.mp hver
  have h₂ : hb = 32 := UInt16.toNat_inj.mp hlen
  have h₃ : ty = 9 := UInt32.toNat_inj.mp htype
  have h₄ : pb = UInt64.ofNat payload.length := by
    rw [← hbytes, UInt64.ofNat_toNat]
  dsimp only at hgen hcrc
  rw [manifestHeader, h₁, h₂, h₃, h₄, hgen, hcrc]

/-- **What is loaded**: exactly the files of valid manifests. -/
theorem manifestLoad_eq_ok {m : RawManifest} {bs : Bytes} :
    manifestLoad bs = .ok m ↔ m.validate = .ok ∧ bs = manifestFile m := by
  constructor
  · intro h
    rw [manifestLoad] at h
    split_ifs at h with hshort hlong
    obtain ⟨⟨header, payload⟩, hheader, h⟩ := bind_eq_ok.mp h
    obtain ⟨hvalid, rfl⟩ := (exact_fileHeaderDecode _ _ _).mp hheader
    dsimp only at h
    split_ifs at h with htype hcrc
    obtain ⟨⟨m', rest⟩, hpayload, h⟩ := bind_eq_ok.mp h
    dsimp only at h
    split_ifs at h with hrest hval
    cases h
    rw [not_not] at hrest hval hcrc
    subst hrest
    obtain ⟨hver, hgen, hcount, hok, hnd, rfl⟩ := parsePayload_eq_ok.mp hpayload
    rw [List.append_nil] at htype hcrc ⊢
    refine ⟨hval, ?_⟩
    rw [manifestFile, eq_manifestHeader hvalid hgen (not_or.mp htype).1 ?_ hcrc]
    have hpayload := (not_or.mp htype).2
    rw [not_not, List.length_append, length_bytes, Nat.add_sub_cancel_left] at hpayload
    exact hpayload
  · rintro ⟨hvalid, rfl⟩
    obtain ⟨hver, hgen, hcount, hfp, hok, hnd⟩ := RawManifest.validate_eq_ok.mp hvalid
    have hsize := payloadSize_le hvalid
    have hlen : (manifestFile m).length = fileHeaderBytes + m.payloadSize := by
      rw [manifestFile, List.length_append, length_bytes, length_encodePayload]
    have hmin : 40 ≤ m.payloadSize := Nat.le_add_right _ _
    have hmax : fileHeaderBytes ≤ maxManifestBytes := by decide
    rw [manifestLoad, if_neg (by omega), if_neg (by omega)]
    have hheader := exact_fileHeaderDecode.run_encode (manifestHeader_valid hgen (encodePayload m))
      (encodePayload m)
    have hpayload : (parsePayload m.generation).run (encodePayload m) = .ok (m, []) :=
      parsePayload_eq_ok.mpr ⟨hver, rfl, hcount, hok, hnd, (List.append_nil _).symm⟩
    have hcrc : ¬ crc32c (encodePayload m) ≠ (manifestHeader m (encodePayload m)).payloadCrc32c :=
      fun h => h rfl
    have htype : ¬ ((manifestHeader m (encodePayload m)).fileType.toNat ≠ fileTypeManifest ∨
        (manifestHeader m (encodePayload m)).payloadBytes.toNat ≠
          (manifestFile m).length - fileHeaderBytes) := by
      rintro (h | h)
      · exact h rfl
      · refine h ?_
        rw [hlen, Nat.add_sub_cancel_left, ← length_encodePayload]
        refine UInt64.toNat_ofNat_of_lt' (lt_of_le_of_lt ?_ (by decide : maxManifestBytes < 2 ^ 64))
        rw [length_encodePayload]
        omega
    rw [show fileHeaderDecode.run (manifestFile m) = _ from hheader]
    dsimp only [Bind.bind, Except.bind]
    rw [if_neg htype, if_neg hcrc, show (manifestHeader m (encodePayload m)).generation =
      m.generation from rfl, hpayload]
    dsimp only
    rw [if_neg (fun h => h rfl), if_neg (fun h => h hvalid)]

/-- **The manifest codec.**  A manifest that passes validation is saved, whatever its size, and
loading the file gives it back; and a file that loads is the file its manifest is saved as. -/
theorem manifest_codec (m : RawManifest) (file : Bytes) :
    (m.validate = .ok → ∃ bs, manifestSave m = .ok bs ∧ manifestLoad bs = .ok m) ∧
      (manifestLoad file = .ok m → m.validate = .ok ∧ manifestSave m = .ok file) := by
  constructor
  · intro h
    exact ⟨manifestFile m, manifestSave_eq_ok.mpr ⟨h, rfl⟩, manifestLoad_eq_ok.mpr ⟨h, rfl⟩⟩
  · intro h
    have := manifestLoad_eq_ok.mp h
    exact ⟨this.1, manifestSave_eq_ok.mpr this⟩

/-- A manifest with one segment of one component. -/
def sampleManifest : RawManifest where
  formatVersion := 2
  generation := 7
  configFingerprint := ⟨List.replicate 32 1, rfl⟩
  segments := [⟨⟨[115, 45, 49], by decide⟩, 1, 2, 0,
    [⟨⟨[100, 111, 99], by decide⟩, 4, 1, 64, ⟨List.replicate 32 3, rfl⟩⟩]⟩]

theorem manifest_codec_sample :
    (∃ bs, manifestSave sampleManifest = .ok bs ∧ manifestLoad bs = .ok sampleManifest) ∧
      manifestSave sampleManifest = .ok (manifestFile sampleManifest) := by
  have hload : manifestLoad (manifestFile sampleManifest) = .ok sampleManifest := by decide +kernel
  exact ⟨(manifest_codec sampleManifest []).1 (by decide +kernel),
    ((manifest_codec sampleManifest _).2 hload).2⟩

end Yappod

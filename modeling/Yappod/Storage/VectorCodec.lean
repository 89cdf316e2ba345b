import Mathlib.Tactic.Ring
import Yappod.Storage.SegmentCodec
import Yappod.Config.Fingerprint

/-!
# The file `vectors.yap2`

What `YAP_V2_vectors_write` writes, and what `YAP_V2_vector_segment_open` makes of a file.  The payload is that of
`Storage/SliceWriter.lean`: a fixed header, the id of the model, a record for each passage, the ids, zeros up to a multiple
of four, and the numbers.

After the header of the file is decoded the status is that everything is well, and only some of the checks that follow set
another one before they leave.  A file that fails one of the others is accepted, and the segment is left as it was.

* `vectorLayout_eq_some` — the payloads that pass all checks are those of a list of entries.
* `vectors_codec` — vectors are read back if there are at most four million of them; and a file is opened as it should,
  unless the first check that it fails is a silent one.
-/

set_option autoImplicit false

namespace Yappod

def fileTypeVectors : UInt32 := 6

/-- `VECTOR_FIXED_HEADER_BYTES`. -/
def vectorFixedHeaderBytes : Nat := 40

/-- `VECTOR_RECORD_BYTES`. -/
def vectorRecordBytes : Nat := 16

/-- A continuation byte of UTF-8. -/
def utf8Trail (b : UInt8) : Bool := 0x80 ≤ b ∧ b ≤ 0xBF

/-- `utf8_valid`: what `U8_NEXT` takes for a character, again and again. -/
def utf8Valid : Bytes → Bool
  | [] => true
  | b₀ :: rest =>
    if b₀ < 0x80 then utf8Valid rest
    else
      match rest with
      | [] => false
      | b₁ :: rest =>
        if 0xC2 ≤ b₀ ∧ b₀ ≤ 0xDF ∧ utf8Trail b₁ then utf8Valid rest
        else
          match rest with
          | [] => false
          | b₂ :: rest =>
            if 0xE0 ≤ b₀ ∧ b₀ ≤ 0xEF ∧ (b₀ = 0xE0 → 0xA0 ≤ b₁) ∧ (b₀ = 0xED → b₁ ≤ 0x9F) ∧ utf8Trail b₁ ∧
                utf8Trail b₂ then utf8Valid rest
            else
              match rest with
              | [] => false
              | b₃ :: rest =>
                if 0xF0 ≤ b₀ ∧ b₀ ≤ 0xF4 ∧ (b₀ = 0xF0 → 0x90 ≤ b₁) ∧ (b₀ = 0xF4 → b₁ ≤ 0x8F) ∧ utf8Trail b₁ ∧
                    utf8Trail b₂ ∧ utf8Trail b₃ then utf8Valid rest
                else false

/-! ## Writing -/

/-- A configuration that was checked. -/
def ConfigRecord.config (c : ConfigRecord) (h : configValidate c = .ok) : Config where
  tokenizerId := c.tokenizerId
  chunkMaxChars := c.chunkMaxChars
  chunkOverlapChars := c.chunkOverlapChars
  vectorModelId := c.vectorModelId
  vectorDimensions := c.vectorDimensions
  vectorMetric := c.vectorMetric
  filterableFields := c.filterableFields
  overlap_lt := (configValidate_eq_ok.mp h).chunking.2.2
  dimensions_pos hmetric := ((configValidate_eq_ok.mp h).enabled hmetric).2.1

/-- `YAP_EMBEDDING_RESULT`. -/
structure EmbeddingResult where
  inputCount : Nat
  dimensions : Nat
  values : List Scalar

/-- The numbers of the `i`-th passage. -/
def EmbeddingResult.row (e : EmbeddingResult) (i : Nat) : List Scalar :=
  (List.range e.dimensions).map fun j => e.values.getD (i * e.dimensions + j) 0

/-- The passages with their numbers. -/
def embeddingRows (passages : List Passage) (embeddings : EmbeddingResult) : List (Passage × List Scalar) :=
  passages.mapIdx fun i p => (p, embeddings.row i)

/-- `YAP_V2_vectors_write`: the file. -/
def vectorsWrite (c : ConfigRecord) (generation : UInt64) (passages : List Passage) (embeddings : EmbeddingResult) :
    Except Status Bytes :=
  if h : configValidate c = .ok then
    if c.vectorMetric = .disabled ∨ embeddings.inputCount ≠ passages.length ∨
        embeddings.dimensions ≠ c.vectorDimensions then .error .invalidArgument
    else do
      let rows := embeddingRows passages embeddings
      let payload ← payloadCheck (validateVectors [] rows) (encodeVectors (c.config h) rows)
      writeComponent fileTypeVectors generation payload
  else .error .invalidArgument

/-! ## Opening -/

/-- `YAP_V2_VECTOR_SEGMENT`, without the mapped memory. -/
structure VectorSegment where
  generation : UInt64
  metric : VectorMetric
  dimensions : Nat
  modelId : Bytes
  entries : List (Bytes × List Scalar)
  deriving DecidableEq

/-- `get_u32` and `get_u64`. -/
def valueAt (width : Nat) (data : Bytes) (i : Nat) : Nat := leValue ((data.drop i).take width)

section Open

variable (cfg : Config) (payload : Bytes)

/-- Where the parts of a payload stand. -/
structure VectorOffsets where
  records : Nat
  ids : Nat
  idBytes : Nat
  vectors : Nat

/-- The numbers of the `i`-th entry. -/
def vectorValues (o : VectorOffsets) (i : Nat) : List Scalar :=
  (List.range cfg.vectorDimensions).map fun j =>
    UInt32.ofNat (valueAt 4 payload (o.vectors + i * cfg.vectorDimensions * 4 + j * 4))

/-- The loop over the records, from the `i`-th on; `expected` is `expected_id_offset`. -/
def vectorEntries (o : VectorOffsets) : Nat → Nat → Nat → List (Bytes × List Scalar) → Option (List (Bytes × List Scalar))
  | 0, _, expected, entries => if expected ≠ o.idBytes then none else some entries
  | n + 1, i, expected, entries =>
    let record := o.records + i * vectorRecordBytes
    let idOffset := valueAt 8 payload record
    let idLen := valueAt 4 payload (record + 8)
    let id := (payload.drop (o.ids + idOffset)).take idLen
    let values := vectorValues cfg payload o i
    if valueAt 4 payload (record + 12) ≠ 0 ∨ idLen = 0 ∨ maxIdentifierBytes < idLen ∨ idOffset ≠ expected ∨
        o.idBytes < idOffset ∨ o.idBytes - idOffset < idLen ∨ 0 ∈ id ∨ utf8Valid id = false then none
    else if values.all Scalar.isFinite = false ∨ id ∈ entries.map Prod.fst then none
    else vectorEntries o n (i + 1) (expected + idLen) (entries ++ [(id, values)])

/-- The checks that leave the status as it is, after those of the configuration: the entries, if they all pass.  Below the
limit on the number of passages the comparisons with `SIZE_MAX` hold. -/
def vectorLayout : Option (List (Bytes × List Scalar)) :=
  let count := valueAt 8 payload 16
  let idBytes := valueAt 8 payload 24
  let vectorOffset := valueAt 8 payload 32
  let recordsOffset := vectorFixedHeaderBytes + valueAt 4 payload 12
  let idsOffset := recordsOffset + count * vectorRecordBytes
  if maxSegmentPassages < count then none
  else if payload.length < recordsOffset ∨ payload.length - recordsOffset < count * vectorRecordBytes then none
  else if payload.length - idsOffset < idBytes ∨ vectorOffset < idsOffset + idBytes ∨ vectorOffset % 4 ≠ 0 ∨
      payload.length < vectorOffset ∨ count * cfg.vectorDimensions * 4 ≠ payload.length - vectorOffset then none
  else if ((payload.take vectorOffset).drop (idsOffset + idBytes)).any (· ≠ 0) then none
  else vectorEntries cfg payload ⟨recordsOffset, idsOffset, idBytes, vectorOffset⟩ count 0 0 []

/-- The length and the version of a payload. -/
def payloadVersioned : Bool := vectorFixedHeaderBytes ≤ payload.length ∧ valueAt 4 payload 0 = 1

/-- The metric, the dimensions and the model of a payload are those of the configuration. -/
def payloadConfigured : Bool :=
  valueAt 4 payload 4 = cfg.vectorMetric.code ∧ valueAt 4 payload 8 = cfg.vectorDimensions ∧
    valueAt 4 payload 12 = cfg.vectorModelId.length ∧
    cfg.vectorModelId.length ≤ payload.length - vectorFixedHeaderBytes ∧
    (payload.drop vectorFixedHeaderBytes).take cfg.vectorModelId.length = cfg.vectorModelId

/-- What follows the comparison of the checksums, with the status `ok`. -/
def openPayload (generation : UInt64) (segment : VectorSegment) : Status × VectorSegment :=
  if !payloadVersioned payload then (.ok, segment)
  else if !payloadConfigured cfg payload then (.conflict, segment)
  else
    match vectorLayout cfg payload with
    | none => (.ok, segment)
    | some entries => (.ok, ⟨generation, cfg.vectorMetric, cfg.vectorDimensions, cfg.vectorModelId, entries⟩)

end Open

/-- `YAP_V2_vector_segment_open`, of a file that could be read: the status, and the segment afterwards. -/
def vectorsOpen (c : ConfigRecord) (expectedGeneration : UInt64) (file : Bytes) (segment : VectorSegment) :
    Status × VectorSegment :=
  if h : configValidate c = .ok then
    if c.vectorMetric = .disabled then (.invalidArgument, segment)
    else if file.length < fileHeaderBytes then (.invalidFormat, segment)
    else
      match fileHeaderDecode.run file with
      | .error _ => (.invalidFormat, segment)
      | .ok (header, payload) =>
        if header.fileType ≠ fileTypeVectors ∨ (expectedGeneration ≠ 0 ∧ header.generation ≠ expectedGeneration) ∨
            header.payloadBytes.toNat ≠ file.length - fileHeaderBytes then (.invalidFormat, segment)
        else if crc32c payload ≠ header.payloadCrc32c then (.checksumMismatch, segment)
        else openPayload (c.config h) payload header.generation segment
  else (.invalidArgument, segment)

/-! ## The format -/

/-- The numbers of the entries. -/
def vectorNumbers (entries : List (Bytes × List Scalar)) : Bytes :=
  entries.flatMap fun e => e.2.flatMap fun x => leBytes 4 x.toNat

/-- A payload with these entries, and so many zeros before the numbers. -/
def paddedVectors (cfg : Config) (entries : List (Bytes × List Scalar)) (padding : Nat) : Bytes :=
  vectorsHead cfg (entries.map Prod.fst) ((vectorsHead cfg (entries.map Prod.fst) 0).length + padding) ++
    (List.replicate padding 0 ++ vectorNumbers entries)

/-- An id of a passage, in UTF-8. -/
structure EntryId (id : Bytes) : Prop where
  nonempty : id ≠ []
  length : id.length ≤ maxIdentifierBytes
  nul : 0 ∉ id
  utf8 : utf8Valid id = true

/-- What is asked of the entries of a file. -/
structure EntriesValid (cfg : Config) (entries : List (Bytes × List Scalar)) : Prop where
  ids : ∀ e ∈ entries, EntryId e.1
  rows : ∀ e ∈ entries, e.2.length = cfg.vectorDimensions ∧ ∀ x ∈ e.2, Scalar.isFinite x = true
  distinct : (entries.map Prod.fst).Nodup

/-- A payload of the format. -/
structure VectorsFormat (cfg : Config) (entries : List (Bytes × List Scalar)) (padding : Nat) : Prop where
  valid : EntriesValid cfg entries
  count : entries.length ≤ maxSegmentPassages
  aligned : ((vectorsHead cfg (entries.map Prod.fst) 0).length + padding) % 4 = 0

/-! ## What stands in a payload -/

section Stands

variable {data : Bytes} {i : Nat}

theorem stands_slice {n : Nat} (h : i + n ≤ data.length) : Stands data i ((data.drop i).take n) := by
  have hlength : ((data.drop i).take n).length = n := by
    rw [List.length_take, List.length_drop]
    omega
  rw [Stands, hlength]
  exact ⟨h, rfl⟩

/-- A number stands where it is read. -/
theorem stands_valueAt {width : Nat} (h : i + width ≤ data.length) : Stands data i (leBytes width (valueAt width data i)) := by
  have hlength : ((data.drop i).take width).length = width := by
    rw [List.length_take, List.length_drop]
    omega
  have hslice := stands_slice h
  rw [← leBytes_leValue ((data.drop i).take width), hlength] at hslice
  exact hslice

/-- It is read where it stands. -/
theorem valueAt_of_stands {width v : Nat} (h : Stands data i (leBytes width v)) (hv : v < 256 ^ width) :
    valueAt width data i = v := (h.leValue hv).2

theorem valueAt_lt (width : Nat) (data : Bytes) (i : Nat) : valueAt width data i < 256 ^ width := by
  refine lt_of_lt_of_le (leValue_lt _) (Nat.pow_le_pow_right (by decide : 0 < 256) ?_)
  rw [List.length_take]
  exact Nat.min_le_left _ _

theorem stands_leBytes_iff {width v : Nat} (h : i + width ≤ data.length) (hv : v < 256 ^ width) :
    Stands data i (leBytes width v) ↔ valueAt width data i = v :=
  ⟨fun hstands => valueAt_of_stands hstands hv, fun heq => heq ▸ stands_valueAt h⟩

/-- What is as long as the data is the data. -/
theorem Stands.eq_data {bs : Bytes} (h : Stands data 0 bs) (hlength : data.length ≤ bs.length) : data = bs := by
  have hslice := h.2
  rwa [List.drop_zero, List.take_of_length_le hlength] at hslice

theorem stands_self (bs : Bytes) : Stands bs 0 bs :=
  ⟨by rw [Nat.zero_add], by rw [List.drop_zero, List.take_length]⟩

/-- Records of one width, one after the other. -/
theorem stands_flatMap {α : Type} {f : α → Bytes} {width : Nat} (hwidth : ∀ x, (f x).length = width) {xs : List α}
    (hroom : i ≤ data.length) (h : ∀ j x, xs[j]? = some x → Stands data (i + j * width) (f x)) :
    Stands data i (xs.flatMap f) := by
  induction xs generalizing i with
  | nil => exact ⟨by simpa using hroom, by simp⟩
  | cons x xs ih =>
    have hhead : Stands data i (f x) := by
      have hfirst := h 0 x rfl
      rwa [Nat.zero_mul, Nat.add_zero] at hfirst
    rw [List.flatMap_cons, stands_append, hwidth]
    refine ⟨hhead, ih (hwidth x ▸ hhead.1) fun j y hy => ?_⟩
    have hnext := h (j + 1) y hy
    rwa [Nat.succ_mul, Nat.add_comm (j * width), ← Nat.add_assoc] at hnext

/-- The numbers of a vector. -/
theorem stands_numbers_iff {d : Nat} {values : List Scalar} (hroom : i + d * 4 ≤ data.length) :
    values.length = d ∧ Stands data i (values.flatMap fun x => leBytes 4 x.toNat) ↔
      values = (List.range d).map fun j => UInt32.ofNat (valueAt 4 data (i + j * 4)) := by
  have hwidth : ∀ x : Scalar, (leBytes 4 x.toNat).length = 4 := fun x => length_leBytes 4 _
  constructor
  · rintro ⟨rfl, hstands⟩
    refine List.ext_getElem (by simp) fun j hj _ => ?_
    have hnumber := hstands.flatMap hwidth (List.getElem?_eq_getElem hj)
    rw [List.getElem_map, List.getElem_range, valueAt_of_stands hnumber (UInt32.toNat_lt _), UInt32.ofNat_toNat]
  · rintro rfl
    refine ⟨by simp, stands_flatMap hwidth (by omega) fun j x hx => ?_⟩
    obtain ⟨hj, rfl⟩ := List.getElem?_eq_some_iff.mp hx
    rw [List.length_map, List.length_range] at hj
    rw [List.getElem_map, List.getElem_range]
    rw [UInt32.toNat_ofNat_of_lt' (valueAt_lt 4 data _)]
    exact stands_valueAt (by omega)

end Stands

/-! ## The entries -/

section Entries

variable {cfg : Config} {payload : Bytes} {o : VectorOffsets}

/-- The payload has room for the parts. -/
structure VectorOffsets.Fits (cfg : Config) (payload : Bytes) (o : VectorOffsets) (count : Nat) : Prop where
  size : payload.length < 2 ^ 64
  records : o.records + count * 16 ≤ payload.length
  ids : o.ids + o.idBytes ≤ payload.length
  vectors : o.vectors + count * cfg.vectorDimensions * 4 ≤ payload.length

/-- An entry that is valid. -/
def EntryValid (cfg : Config) (e : Bytes × List Scalar) : Prop :=
  EntryId e.1 ∧ e.2.length = cfg.vectorDimensions ∧ ∀ x ∈ e.2, Scalar.isFinite x = true

/-- The parts of these entries stand in the payload, from the `i`-th on. -/
structure EntriesStand (cfg : Config) (payload : Bytes) (o : VectorOffsets) (i expected : Nat)
    (entries : List (Bytes × List Scalar)) : Prop where
  total : expected + (entries.map Prod.fst).flatten.length = o.idBytes
  records : Stands payload (o.records + i * 16) (idRecords expected (entries.map Prod.fst))
  ids : Stands payload (o.ids + expected) (entries.map Prod.fst).flatten
  vectors : Stands payload (o.vectors + i * cfg.vectorDimensions * 4) (vectorNumbers entries)

theorem length_numbers_of_valid {e : Bytes × List Scalar} (h : EntryValid cfg e) :
    (e.2.flatMap fun x => leBytes 4 x.toNat).length = cfg.vectorDimensions * 4 := by
  rw [length_flatMap_records (fun x : Scalar => length_leBytes 4 x.toNat), h.2.1]

/-- One entry more. -/
theorem entriesStand_cons {i expected n : Nat} {e : Bytes × List Scalar} {entries : List (Bytes × List Scalar)}
    (hfits : o.Fits cfg payload (i + (n + 1))) (he : EntryValid cfg e) :
    EntriesStand cfg payload o i expected (e :: entries) ↔
      (valueAt 8 payload (o.records + i * 16) = expected ∧ valueAt 4 payload (o.records + i * 16 + 8) = e.1.length ∧
        valueAt 4 payload (o.records + i * 16 + 12) = 0) ∧ expected + e.1.length ≤ o.idBytes ∧
      (payload.drop (o.ids + expected)).take e.1.length = e.1 ∧ e.2 = vectorValues cfg payload o i ∧
      EntriesStand cfg payload o (i + 1) (expected + e.1.length) entries := by
  obtain ⟨hsize, hrecords, hids, hvectors⟩ := hfits
  have hlen : e.1.length < 2 ^ 32 := lt_of_le_of_lt he.1.length (by decide)
  have hmul : (i + (n + 1)) * cfg.vectorDimensions * 4 =
      i * cfg.vectorDimensions * 4 + cfg.vectorDimensions * 4 + n * cfg.vectorDimensions * 4 := by
    ring
  have hnext : o.vectors + i * cfg.vectorDimensions * 4 + cfg.vectorDimensions * 4 =
      o.vectors + (i + 1) * cfg.vectorDimensions * 4 := by
    ring
  have hrecord : Stands payload (o.records + i * 16) (idRecords expected ((e :: entries).map Prod.fst)) ↔
      (Stands payload (o.records + i * 16) (leBytes 8 expected) ∧
        Stands payload (o.records + i * 16 + 8) (leBytes 4 e.1.length) ∧
        Stands payload (o.records + i * 16 + 12) (leBytes 4 0)) ∧
      Stands payload (o.records + (i + 1) * 16) (idRecords (expected + e.1.length) (entries.map Prod.fst)) := by
    rw [List.map_cons, idRecords, stands_append, stands_append, stands_append, List.length_append, List.length_append,
      length_leBytes, length_leBytes, length_leBytes, show o.records + i * 16 + (8 + (4 + 4)) =
        o.records + (i + 1) * 16 by omega]
  have hnumbers : Stands payload (o.vectors + i * cfg.vectorDimensions * 4) (vectorNumbers (e :: entries)) ↔
      e.2 = vectorValues cfg payload o i ∧
        Stands payload (o.vectors + (i + 1) * cfg.vectorDimensions * 4) (vectorNumbers entries) := by
    rw [vectorNumbers, List.flatMap_cons, stands_append, length_numbers_of_valid he, hnext, vectorValues,
      ← stands_numbers_iff (by omega), and_iff_right he.2.1]
    rfl
  constructor
  · rintro ⟨htotal, hrec, hid, hvec⟩
    rw [List.map_cons, List.flatten_cons, List.length_append] at htotal
    rw [List.map_cons, List.flatten_cons, stands_append] at hid
    obtain ⟨⟨h₁, h₂, h₃⟩, hrest⟩ := hrecord.mp hrec
    obtain ⟨hvalues, hvec⟩ := hnumbers.mp hvec
    refine ⟨⟨valueAt_of_stands h₁ (by show expected < 2 ^ 64; omega), valueAt_of_stands h₂ hlen,
      valueAt_of_stands h₃ (by decide)⟩, by omega, hid.1.2, hvalues, ⟨by omega, hrest, ?_, hvec⟩⟩
    rw [← Nat.add_assoc]
    exact hid.2
  · rintro ⟨⟨h₁, h₂, h₃⟩, hle, hid, hvalues, hrest⟩
    refine ⟨?_, hrecord.mpr ⟨⟨?_, ?_, ?_⟩, hrest.records⟩, ?_, hnumbers.mpr ⟨hvalues, hrest.vectors⟩⟩
    · rw [List.map_cons, List.flatten_cons, List.length_append, ← Nat.add_assoc]
      exact hrest.total
    · exact (stands_leBytes_iff (by omega) (by show expected < 2 ^ 64; omega)).mpr h₁
    · exact (stands_leBytes_iff (by omega) hlen).mpr h₂
    · exact (stands_leBytes_iff (by omega) (by decide)).mpr h₃
    · rw [List.map_cons, List.flatten_cons, stands_append, Nat.add_assoc o.ids]
      exact ⟨⟨by omega, hid⟩, hrest.ids⟩

theorem VectorOffsets.Fits.step {i n : Nat} (h : o.Fits cfg payload (i + (n + 1))) : o.Fits cfg payload (i + 1 + n) := by
  rwa [Nat.add_assoc, Nat.add_comm 1 n]

/-- An entry as it is read, if it passes the checks. -/
theorem entryValid_read {i expected n idLen : Nat} (hfits : o.Fits cfg payload (i + (n + 1))) (hpositive : idLen ≠ 0)
    (hlength : idLen ≤ maxIdentifierBytes) (hroom : expected + idLen ≤ o.idBytes)
    (hnul : 0 ∉ (payload.drop (o.ids + expected)).take idLen)
    (hutf8 : utf8Valid ((payload.drop (o.ids + expected)).take idLen) = true)
    (hfinite : (vectorValues cfg payload o i).all Scalar.isFinite = true) :
    ((payload.drop (o.ids + expected)).take idLen).length = idLen ∧
      EntryValid cfg ((payload.drop (o.ids + expected)).take idLen, vectorValues cfg payload o i) := by
  have hids := hfits.ids
  have hlen : ((payload.drop (o.ids + expected)).take idLen).length = idLen := by
    rw [List.length_take, List.length_drop]
    omega
  refine ⟨hlen, ⟨fun hnil => ?_, by rw [hlen]; exact hlength, hnul, hutf8⟩, ?_, List.all_eq_true.mp hfinite⟩
  · exact hpositive (hlen.symm.trans (congrArg List.length hnil))
  · simp only [vectorValues, List.length_map, List.length_range]

/-- **The loop over the records** gives the entries that stand there, if they are valid and have different ids. -/
theorem vectorEntries_eq_some (n : Nat) {i expected : Nat} {entries out : List (Bytes × List Scalar)}
    (hfits : o.Fits cfg payload (i + n)) (hdistinct : (entries.map Prod.fst).Nodup) :
    vectorEntries cfg payload o n i expected entries = some out ↔ ∃ new, out = entries ++ new ∧ new.length = n ∧
      EntriesStand cfg payload o i expected new ∧ (∀ e ∈ new, EntryValid cfg e) ∧
      ((entries ++ new).map Prod.fst).Nodup := by
  induction n generalizing i expected entries with
  | zero =>
    rw [vectorEntries]
    by_cases htotal : expected = o.idBytes
    · rw [if_neg (not_not.mpr htotal), Option.some.injEq]
      constructor
      · rintro rfl
        refine ⟨[], (List.append_nil entries).symm, rfl, ⟨htotal, ?_, ?_, ?_⟩, by simp, by simpa using hdistinct⟩
        · exact ⟨by simpa [idRecords] using hfits.records, rfl⟩
        · exact ⟨by simpa [htotal] using hfits.ids, rfl⟩
        · exact ⟨by simpa [vectorNumbers] using hfits.vectors, rfl⟩
      · rintro ⟨new, rfl, hnil, -⟩
        rw [List.length_eq_zero_iff.mp hnil, List.append_nil]
    · rw [if_pos htotal]
      refine iff_of_false (by simp) ?_
      rintro ⟨new, -, hnil, hstand, -⟩
      obtain rfl := List.length_eq_zero_iff.mp hnil
      exact htotal hstand.total
  | succ n ih =>
    rw [vectorEntries, vectorRecordBytes]
    constructor
    · intro h
      split at h
      · cases h
      rename_i hrecord
      split at h
      · cases h
      rename_i hentry
      simp only [not_or, not_not, Bool.not_eq_false, Nat.not_lt] at hrecord hentry
      obtain ⟨hzero, hpositive, hlength, hoffset, hle, hroom, hnul, hutf8⟩ := hrecord
      obtain ⟨hfinite, hnew⟩ := hentry
      rw [hoffset] at hle hroom hnul hutf8 hnew h
      obtain ⟨hlen, hvalid⟩ := entryValid_read hfits hpositive hlength (by omega) hnul hutf8 hfinite
      have hdistinct' : ((entries ++ [((payload.drop (o.ids + expected)).take (valueAt 4 payload (o.records + i * 16 + 8)),
          vectorValues cfg payload o i)]).map Prod.fst).Nodup := by
        rw [List.map_append]
        exact nodup_snoc.mpr ⟨hdistinct, hnew⟩
      obtain ⟨new, rfl, hcount, hstand, hall, hnodup⟩ := (ih hfits.step hdistinct').mp h
      refine ⟨_ :: new, by rw [List.append_assoc, List.singleton_append], by rw [List.length_cons, hcount], ?_,
        List.forall_mem_cons.mpr ⟨hvalid, hall⟩, by rwa [List.append_assoc, List.singleton_append] at hnodup⟩
      refine (entriesStand_cons hfits hvalid).mpr ⟨⟨hoffset, hlen.symm, hzero⟩, ?_, ?_, rfl, ?_⟩
      · rw [hlen]
        omega
      · rw [hlen]
      · rw [hlen]
        exact hstand
    · rintro ⟨new, rfl, hcount, hstand, hall, hnodup⟩
      obtain ⟨e, new, rfl⟩ := List.exists_cons_of_length_eq_add_one hcount
      obtain ⟨he, hall⟩ := List.forall_mem_cons.mp hall
      obtain ⟨⟨h₁, h₂, h₃⟩, hle, hid, hvalues, hrest⟩ := (entriesStand_cons hfits he).mp hstand
      have hfirst : ((entries ++ [e]).map Prod.fst).Nodup := by
        rw [← List.singleton_append, ← List.append_assoc, List.map_append] at hnodup
        exact (List.nodup_append.mp hnodup).1
      have hout : e.1 ∉ entries.map Prod.fst := by
        rw [List.map_append] at hfirst
        exact (nodup_snoc.mp hfirst).2
      rw [h₁, h₂, h₃, hid, ← hvalues, if_neg, if_neg]
      · refine (ih hfits.step hfirst).mpr ⟨new, by rw [List.append_assoc, List.singleton_append], by simpa using hcount,
          hrest, hall, by rwa [List.append_assoc, List.singleton_append]⟩
      · simp only [not_or, Bool.not_eq_false]
        exact ⟨List.all_eq_true.mpr he.2.2, hout⟩
      · simp only [not_or, not_not, Bool.not_eq_false, Nat.not_lt, ne_eq]
        refine ⟨trivial, ?_, he.1.length, trivial, by omega, by omega, he.1.nul, he.1.utf8⟩
        exact fun hnil => he.1.nonempty (List.length_eq_zero_iff.mp hnil)

end Entries

/-! ## The payload -/

section Payload

variable {cfg : Config} {payload : Bytes} {entries : List (Bytes × List Scalar)} {padding : Nat}

/-- Where the parts of the payload of these entries stand. -/
def entryOffsets (cfg : Config) (entries : List (Bytes × List Scalar)) (padding : Nat) : VectorOffsets :=
  let records := 40 + cfg.vectorModelId.length
  let ids := records + entries.length * 16
  let idBytes := (entries.map Prod.fst).flatten.length
  ⟨records, ids, idBytes, ids + idBytes + padding⟩

theorem length_vectorsHead_eq (offset : Nat) : (vectorsHead cfg (entries.map Prod.fst) offset).length =
    (entryOffsets cfg entries padding).ids + (entryOffsets cfg entries padding).idBytes := by
  rw [length_vectorsHead, List.length_map, ← List.length_flatten]
  rfl

/-- A payload stands if its parts do. -/
theorem stands_padded {o : VectorOffsets} (ho : entryOffsets cfg entries padding = o) :
    Stands payload 0 (paddedVectors cfg entries padding) ↔
      (Stands payload 0 (leBytes 4 1) ∧ Stands payload 4 (leBytes 4 cfg.vectorMetric.code) ∧
        Stands payload 8 (leBytes 4 cfg.vectorDimensions) ∧ Stands payload 12 (leBytes 4 cfg.vectorModelId.length) ∧
        Stands payload 40 cfg.vectorModelId) ∧
      (Stands payload 16 (leBytes 8 entries.length) ∧ Stands payload 24 (leBytes 8 o.idBytes) ∧
        Stands payload 32 (leBytes 8 o.vectors)) ∧
      Stands payload (o.ids + o.idBytes) (List.replicate padding 0) ∧
      Stands payload o.records (idRecords 0 (entries.map Prod.fst)) ∧
      Stands payload o.ids (entries.map Prod.fst).flatten ∧ Stands payload o.vectors (vectorNumbers entries) := by
  have hhead : ∀ offset, (vectorsHead cfg (entries.map Prod.fst) offset).length = o.ids + o.idBytes := fun offset => by
    rw [length_vectorsHead_eq, ho]
  have hvectors : o.ids + o.idBytes + padding = o.vectors := by
    rw [← ho]
    rfl
  have hrecords : 40 + cfg.vectorModelId.length = o.records := by
    rw [← ho]
    rfl
  have hids : o.records + entries.length * 16 = o.ids := by
    rw [← ho]
    rfl
  have hbytes : (entries.map Prod.fst).flatten.length = o.idBytes := by
    rw [← ho]
    rfl
  rw [paddedVectors, stands_append, stands_append, hhead, hhead, Nat.zero_add, List.length_replicate, hvectors, vectorsHead]
  simp only [stands_append, length_leBytes, length_idRecords, List.length_map, hbytes, Nat.zero_add, Nat.reduceAdd,
    hrecords, hids]
  tauto

theorem stands_count : Stands (paddedVectors cfg entries padding) 16 (leBytes 8 entries.length) :=
  ((stands_padded rfl).mp (stands_self _)).2.1.1

/-- The payload of valid entries has room for them. -/
theorem length_padded (hvalid : ∀ e ∈ entries, EntryValid cfg e) : (paddedVectors cfg entries padding).length =
    (entryOffsets cfg entries padding).vectors + entries.length * cfg.vectorDimensions * 4 := by
  have hnumbers : (vectorNumbers entries).length = entries.length * cfg.vectorDimensions * 4 := by
    induction entries with
    | nil => simp [vectorNumbers]
    | cons e entries ih =>
      obtain ⟨he, hvalid⟩ := List.forall_mem_cons.mp hvalid
      rw [vectorNumbers, List.flatMap_cons, List.length_append, length_numbers_of_valid he, List.length_cons]
      have hrest : (entries.flatMap fun e => e.2.flatMap fun x => leBytes 4 x.toNat).length =
          entries.length * cfg.vectorDimensions * 4 := ih hvalid
      rw [hrest]
      ring
  rw [paddedVectors, List.length_append, List.length_append, List.length_replicate, hnumbers,
    @length_vectorsHead_eq cfg entries padding, ← Nat.add_assoc]
  rfl

/-- The numbers of a configuration that was checked are small. -/
structure Config.Small (cfg : Config) : Prop where
  dimensions : cfg.vectorDimensions < 2 ^ 32
  model : cfg.vectorModelId.length < 2 ^ 32

theorem metricCode_lt (metric : VectorMetric) : metric.code < 2 ^ 32 := by
  cases metric <;> decide

/-- The checks of the configuration, as what stands in the payload. -/
theorem payloadChecks_iff (hsmall : cfg.Small) :
    payloadVersioned payload = true ∧ payloadConfigured cfg payload = true ↔
      vectorFixedHeaderBytes ≤ payload.length ∧ Stands payload 0 (leBytes 4 1) ∧
        Stands payload 4 (leBytes 4 cfg.vectorMetric.code) ∧ Stands payload 8 (leBytes 4 cfg.vectorDimensions) ∧
        Stands payload 12 (leBytes 4 cfg.vectorModelId.length) ∧ Stands payload 40 cfg.vectorModelId := by
  rw [payloadVersioned, payloadConfigured, decide_eq_true_eq, decide_eq_true_eq, vectorFixedHeaderBytes]
  constructor
  · rintro ⟨⟨hlength, hversion⟩, hmetric, hdimensions, hmodel, hroom, hid⟩
    refine ⟨hlength, (stands_leBytes_iff (by omega) (by decide)).mpr hversion,
      (stands_leBytes_iff (by omega) (metricCode_lt _)).mpr hmetric,
      (stands_leBytes_iff (by omega) hsmall.dimensions).mpr hdimensions,
      (stands_leBytes_iff (by omega) hsmall.model).mpr hmodel, by omega, hid⟩
  · rintro ⟨hlength, hversion, hmetric, hdimensions, hmodel, hroom, hid⟩
    exact ⟨⟨hlength, valueAt_of_stands hversion (by decide)⟩, valueAt_of_stands hmetric (metricCode_lt _),
      valueAt_of_stands hdimensions hsmall.dimensions, valueAt_of_stands hmodel hsmall.model, by omega, hid⟩

theorem entriesValid_iff : EntriesValid cfg entries ↔ (∀ e ∈ entries, EntryValid cfg e) ∧ (entries.map Prod.fst).Nodup :=
  ⟨fun h => ⟨fun e he => ⟨h.ids e he, h.rows e he⟩, h.distinct⟩,
    fun h => ⟨fun e he => (h.1 e he).1, fun e he => (h.1 e he).2, h.2⟩⟩

/-- Zeros between two places. -/
theorem stands_zeros_iff {a b : Nat} (hab : a ≤ b) (hb : b ≤ payload.length) :
    Stands payload a (List.replicate (b - a) 0) ↔ ((payload.take b).drop a).any (· ≠ 0) = false := by
  have hslice : (payload.take b).drop a = (payload.drop a).take (b - a) := List.drop_take
  have hlength : ((payload.drop a).take (b - a)).length = b - a := by
    rw [List.length_take, List.length_drop]
    omega
  have hroom : a + (b - a) ≤ payload.length := by omega
  rw [hslice, Stands, List.length_replicate, and_iff_right hroom, List.any_eq_false]
  constructor
  · intro heq x hx
    rw [heq] at hx
    simp [List.eq_of_mem_replicate hx]
  · intro hzero
    refine List.eq_replicate_iff.mpr ⟨hlength, fun x hx => ?_⟩
    simpa using hzero x hx

/-- **The payloads that pass all checks** are those of a list of valid entries. -/
theorem vectorLayout_eq_some (hsize : payload.length < 2 ^ 64) (hversioned : payloadVersioned payload = true)
    (hsmall : cfg.Small) (hconfigured : payloadConfigured cfg payload = true) :
    vectorLayout cfg payload = some entries ↔
      ∃ padding, VectorsFormat cfg entries padding ∧ payload = paddedVectors cfg entries padding := by
  obtain ⟨hheader, hchecks⟩ := (payloadChecks_iff hsmall).mp ⟨hversioned, hconfigured⟩
  rw [vectorFixedHeaderBytes] at hheader
  have hmodel : valueAt 4 payload 12 = cfg.vectorModelId.length := valueAt_of_stands hchecks.2.2.2.1 hsmall.model
  have hempty : (([] : List (Bytes × List Scalar)).map Prod.fst).Nodup := List.nodup_nil
  rw [vectorLayout, hmodel, vectorFixedHeaderBytes, vectorRecordBytes]
  constructor
  · intro h
    split_ifs at h with hcount hroom hoffsets hzeros
    simp only [not_or, not_not, Nat.not_lt] at hcount hroom hoffsets
    obtain ⟨hids, hvectors, haligned, hend, hnumbers⟩ := hoffsets
    rw [Bool.not_eq_true] at hzeros
    have hfits : VectorOffsets.Fits cfg payload ⟨40 + cfg.vectorModelId.length,
        40 + cfg.vectorModelId.length + valueAt 8 payload 16 * 16, valueAt 8 payload 24, valueAt 8 payload 32⟩
        (0 + valueAt 8 payload 16) := by
      rw [Nat.zero_add]
      refine ⟨hsize, ?_, ?_, ?_⟩
      all_goals
        dsimp only
        omega
    obtain ⟨new, hout, hlength, hstand, hall, hnodup⟩ := (vectorEntries_eq_some _ hfits hempty).mp h
    rw [List.nil_append] at hout hnodup
    obtain rfl := hout
    have hbytes : (entries.map Prod.fst).flatten.length = valueAt 8 payload 24 := by
      have := hstand.total
      rwa [Nat.zero_add] at this
    set padding := valueAt 8 payload 32 - (40 + cfg.vectorModelId.length + valueAt 8 payload 16 * 16 +
      valueAt 8 payload 24) with hpadding
    have ho : entryOffsets cfg entries padding = ⟨40 + cfg.vectorModelId.length,
        40 + cfg.vectorModelId.length + valueAt 8 payload 16 * 16, valueAt 8 payload 24, valueAt 8 payload 32⟩ := by
      rw [entryOffsets, hlength, hbytes]
      congr 1
      omega
    have hwhole : Stands payload 0 (paddedVectors cfg entries padding) := by
      refine (stands_padded ho).mpr ⟨hchecks, ⟨?_, stands_valueAt (by omega), stands_valueAt (by omega)⟩, ?_, ?_, ?_, ?_⟩
      · rw [hlength]
        exact stands_valueAt (by omega)
      · exact (stands_zeros_iff hvectors hend).mpr hzeros
      · simpa using hstand.records
      · simpa using hstand.ids
      · simpa using hstand.vectors
    refine ⟨padding, ⟨entriesValid_iff.mpr ⟨hall, hnodup⟩, hlength.trans_le hcount, ?_⟩, hwhole.eq_data ?_⟩
    · rw [@length_vectorsHead_eq cfg entries padding, ho]
      dsimp only
      omega
    · rw [length_padded hall, ho, hlength]
      dsimp only
      omega
  · rintro ⟨padding, hformat, hpayload⟩
    obtain ⟨hall, hnodup⟩ := entriesValid_iff.mp hformat.valid
    obtain ⟨o, ho⟩ : ∃ o, entryOffsets cfg entries padding = o := ⟨_, rfl⟩
    have hlength : payload.length = o.vectors + entries.length * cfg.vectorDimensions * 4 := by
      rw [hpayload, length_padded hall, ho]
    have hwhole : Stands payload 0 (paddedVectors cfg entries padding) := hpayload ▸ stands_self payload
    obtain ⟨-, ⟨hcount, hbytes, hvectors⟩, hzeros, hrecords, hids, hnumbers⟩ := (stands_padded ho).mp hwhole
    have haligned := hformat.aligned
    rw [@length_vectorsHead_eq cfg entries padding, ho] at haligned
    have hr : 40 + cfg.vectorModelId.length = o.records := by rw [← ho]; rfl
    have hi : o.records + entries.length * 16 = o.ids := by rw [← ho]; rfl
    have hv : o.ids + o.idBytes + padding = o.vectors := by rw [← ho]; rfl
    have hb : (entries.map Prod.fst).flatten.length = o.idBytes := by rw [← ho]; rfl
    have hmax : entries.length ≤ maxSegmentPassages := hformat.count
    rw [valueAt_of_stands hcount (lt_of_le_of_lt hmax (by decide)),
      valueAt_of_stands hbytes (by show o.idBytes < 2 ^ 64; omega),
      valueAt_of_stands hvectors (by show o.vectors < 2 ^ 64; omega), hr, hi, if_neg (Nat.not_lt.mpr hmax), if_neg (by omega),
      if_neg (by omega), if_neg]
    · have hfits : VectorOffsets.Fits cfg payload o (0 + entries.length) := by
        rw [Nat.zero_add]
        exact ⟨hsize, by omega, by omega, by omega⟩
      refine (vectorEntries_eq_some _ hfits hempty).mpr
        ⟨entries, rfl, rfl, ⟨by rw [Nat.zero_add, hb], ?_, ?_, ?_⟩, hall, hnodup⟩
      · simpa using hrecords
      · simpa using hids
      · simpa using hnumbers
    · rw [Bool.not_eq_true, ← stands_zeros_iff (by omega) (by omega), show o.vectors - (o.ids + o.idBytes) = padding by omega]
      exact hzeros

end Payload

/-! ## The file -/

/-- A file with the header of vectors of the generation that is expected, and with a checksum that is right. -/
structure VectorFile (expected : UInt64) (file : Bytes) (generation : UInt64) (payload : Bytes) : Prop where
  bytes : file = yap2File fileTypeVectors generation payload
  positive : generation ≠ 0
  expected : expected = 0 ∨ generation = expected
  size : payload.length < 2 ^ 64

/-- A file that passes all checks, and the segment that it is opened as. -/
structure VectorFileOf (c : ConfigRecord) (expected : UInt64) (file : Bytes) (opened : VectorSegment) : Prop where
  enabled : c.vectorMetric ≠ .disabled
  format : ∃ (h : configValidate c = .ok) (payload : Bytes) (padding : Nat),
    VectorFile expected file opened.generation payload ∧ VectorsFormat (c.config h) opened.entries padding ∧
      payload = paddedVectors (c.config h) opened.entries padding
  config : opened.metric = c.vectorMetric ∧ opened.dimensions = c.vectorDimensions ∧ opened.modelId = c.vectorModelId

/-- A file with a right header and checksum, and then a payload that is too short or of another version, or one for the
configuration that is not laid out as it should. -/
def SilentlyRefused (c : ConfigRecord) (expected : UInt64) (file : Bytes) : Prop :=
  c.vectorMetric ≠ .disabled ∧ ∃ (h : configValidate c = .ok) (generation : UInt64) (payload : Bytes),
    VectorFile expected file generation payload ∧
      (payloadVersioned payload = false ∨ payloadConfigured (c.config h) payload = true ∧
        ∀ entries padding, VectorsFormat (c.config h) entries padding → payload ≠ paddedVectors (c.config h) entries padding)

/-- What opening a file should do: a file that passes all checks is opened, any other gives an error and leaves the segment
as it was. -/
def OpensSoundly (c : ConfigRecord) (expected : UInt64) (file : Bytes) (segment : VectorSegment) : Prop :=
  (∃ opened, VectorFileOf c expected file opened ∧ vectorsOpen c expected file segment = (.ok, opened)) ∨
    (¬ ∃ opened, VectorFileOf c expected file opened) ∧ (vectorsOpen c expected file segment).1 ≠ .ok ∧
      (vectorsOpen c expected file segment).2 = segment

section File

variable {c : ConfigRecord} {expected generation : UInt64} {file payload : Bytes} {segment : VectorSegment}

theorem ConfigRecord.config_small (h : configValidate c = .ok) (henabled : c.vectorMetric ≠ .disabled) :
    (c.config h).Small := by
  have haccepted := configValidate_eq_ok.mp h
  obtain ⟨-, -, hdimensions⟩ := haccepted.enabled henabled
  exact ⟨lt_of_le_of_lt hdimensions (by decide), lt_of_le_of_lt haccepted.model (by decide)⟩

theorem VectorFile.decode (h : VectorFile expected file generation payload) :
    fileHeaderDecode.run file = .ok (componentHeader fileTypeVectors generation payload, payload) := by
  rw [h.bytes]
  exact exact_fileHeaderDecode.run_encode (componentHeader_valid (by decide) h.positive payload) payload

theorem VectorFile.unique (h : VectorFile expected file generation payload) {generation' : UInt64} {payload' : Bytes}
    (h' : VectorFile expected file generation' payload') : generation' = generation ∧ payload' = payload := by
  have hsame := h'.decode.symm.trans h.decode
  simp only [Except.ok.injEq, Prod.mk.injEq] at hsame
  exact ⟨congrArg FileHeader.generation hsame.1, hsame.2⟩

/-- A file with a right header and checksum. -/
theorem vectorsOpen_file (hconfig : configValidate c = .ok) (henabled : c.vectorMetric ≠ .disabled)
    (h : VectorFile expected file generation payload) :
    vectorsOpen c expected file segment = openPayload (c.config hconfig) payload generation segment := by
  have hlength : file.length = fileHeaderBytes + payload.length := by
    rw [h.bytes, yap2File, List.length_append, length_bytes]
  have hbytes : (UInt64.ofNat payload.length).toNat = payload.length := UInt64.toNat_ofNat_of_lt' h.size
  rw [vectorsOpen, dif_pos hconfig, if_neg henabled, if_neg (by omega), h.decode]
  dsimp only
  rw [if_neg]
  · exact if_neg (not_not.mpr rfl)
  · push Not
    refine ⟨rfl, fun he => h.expected.resolve_left he, ?_⟩
    rw [hlength, Nat.add_sub_cancel_left]
    exact hbytes

/-- Any other file. -/
theorem vectorsOpen_refused (hnone : ∀ generation payload, ¬ VectorFile expected file generation payload) :
    (vectorsOpen c expected file segment).1 ≠ .ok ∧ (vectorsOpen c expected file segment).2 = segment := by
  rw [vectorsOpen]
  split
  · split
    · exact ⟨fun h => (nomatch h), rfl⟩
    split
    · exact ⟨fun h => (nomatch h), rfl⟩
    rename_i hshort
    cases hheader : fileHeaderDecode.run file with
    | error status => exact ⟨fun h => (nomatch h), rfl⟩
    | ok out =>
      obtain ⟨header, payload⟩ := out
      dsimp only
      split
      · exact ⟨fun h => (nomatch h), rfl⟩
      rename_i hbad
      split
      · exact ⟨fun h => (nomatch h), rfl⟩
      rename_i hcrc
      exfalso
      obtain ⟨hvalid, rfl⟩ := (exact_fileHeaderDecode _ _ _).mp hheader
      push Not at hbad hcrc
      obtain ⟨htype, hexpected, hbytes⟩ := hbad
      rw [List.length_append, length_bytes, Nat.add_sub_cancel_left] at hbytes
      rw [FileHeader.valid, decide_eq_true_eq] at hvalid
      obtain ⟨hversion, hlen, -, hgen⟩ := hvalid
      refine hnone header.generation payload ⟨?_, hgen, ?_, by rw [← hbytes]; exact header.payloadBytes.toNat_lt⟩
      · obtain ⟨v, hb, ty, gen, pb, crc⟩ := header
        have h₁ : v = 2 := UInt16.toNat_inj.mp hversion
        have h₂ : hb = 32 := UInt16.toNat_inj.mp hlen
        have h₃ : pb = UInt64.ofNat payload.length := by
          rw [← show pb.toNat = payload.length from hbytes, UInt64.ofNat_toNat]
        have h₄ : ty = fileTypeVectors := htype
        rw [yap2File, componentHeader, h₁, h₂, h₃, h₄, show crc32c payload = crc from hcrc]
      · by_cases he : expected = 0
        · exact .inl he
        · exact .inr (hexpected he)
  · exact ⟨fun h => (nomatch h), rfl⟩

/-- The payload of a file that passes all checks. -/
theorem paddedVectors_checks {cfg : Config} (hsmall : cfg.Small) {entries : List (Bytes × List Scalar)} {padding : Nat}
    (h : VectorsFormat cfg entries padding) : payloadVersioned (paddedVectors cfg entries padding) = true ∧
      payloadConfigured cfg (paddedVectors cfg entries padding) = true := by
  refine (payloadChecks_iff hsmall).mpr ⟨?_, ((stands_padded rfl).mp (stands_self _)).1⟩
  rw [length_padded (entriesValid_iff.mp h.valid).1, vectorFixedHeaderBytes]
  simp only [entryOffsets]
  omega

/-- A file that passes all checks is opened. -/
theorem VectorFileOf.opened {opened : VectorSegment} (h : VectorFileOf c expected file opened) :
    vectorsOpen c expected file segment = (.ok, opened) := by
  obtain ⟨henabled, ⟨hconfig, payload, padding, hfile, hformat, hpayload⟩, hmetric, hdimensions, hmodel⟩ := h
  have hsmall := ConfigRecord.config_small hconfig henabled
  obtain ⟨hversioned, hconfigured⟩ := paddedVectors_checks hsmall hformat
  rw [← hpayload] at hversioned hconfigured
  have hlayout := (vectorLayout_eq_some hfile.size hversioned hsmall hconfigured).mpr ⟨padding, hformat, hpayload⟩
  rw [vectorsOpen_file hconfig henabled hfile, openPayload, hversioned, hconfigured, hlayout]
  obtain ⟨g, m, d, model, entries⟩ := opened
  cases hmetric
  cases hdimensions
  cases hmodel
  rfl

/-- A file that is refused in silence. -/
theorem SilentlyRefused.open (h : SilentlyRefused c expected file) :
    vectorsOpen c expected file segment = (.ok, segment) := by
  obtain ⟨henabled, hconfig, generation, payload, hfile, hsilent⟩ := h
  rw [vectorsOpen_file hconfig henabled hfile, openPayload]
  cases hversioned : payloadVersioned payload with
  | false => rfl
  | true =>
    obtain ⟨hconfigured, hnone⟩ := hsilent.resolve_left (by rw [hversioned]; exact fun h => (nomatch h))
    rw [hconfigured]
    cases hlayout : vectorLayout (c.config hconfig) payload with
    | none => rfl
    | some entries =>
      obtain ⟨padding, hformat, hpayload⟩ := (vectorLayout_eq_some hfile.size hversioned
        (ConfigRecord.config_small hconfig henabled) hconfigured).mp hlayout
      exact absurd hpayload (hnone entries padding hformat)

/-- It is not a file that passes all checks. -/
theorem SilentlyRefused.not_fileOf (h : SilentlyRefused c expected file) (opened : VectorSegment) :
    ¬ VectorFileOf c expected file opened := by
  obtain ⟨henabled, hconfig, generation, payload, hfile, hsilent⟩ := h
  rintro ⟨-, ⟨_, payload', padding, hfile', hformat, hpayload⟩, -⟩
  obtain ⟨-, rfl⟩ := hfile.unique hfile'
  rcases hsilent with hversioned | ⟨-, hnone⟩
  · rw [hpayload, (paddedVectors_checks (ConfigRecord.config_small hconfig henabled) hformat).1] at hversioned
    cases hversioned
  · exact hnone _ _ hformat hpayload

/-- **Opening a file** does what it should, unless it is refused in silence. -/
theorem opensSoundly_iff : OpensSoundly c expected file segment ↔ ¬ SilentlyRefused c expected file := by
  constructor
  · rintro (⟨opened, hopened, -⟩ | ⟨-, hstatus, -⟩) hsilent
    · exact hsilent.not_fileOf opened hopened
    · rw [hsilent.open] at hstatus
      exact hstatus rfl
  · intro hloud
    by_cases hopened : ∃ opened, VectorFileOf c expected file opened
    · obtain ⟨opened, hopened⟩ := hopened
      exact .inl ⟨opened, hopened, hopened.opened⟩
    · refine .inr ⟨hopened, ?_⟩
      by_cases hconfig : configValidate c = .ok
      swap
      · rw [vectorsOpen, dif_neg hconfig]
        exact ⟨fun h => (nomatch h), rfl⟩
      by_cases henabled : c.vectorMetric = .disabled
      · rw [vectorsOpen, dif_pos hconfig, if_pos henabled]
        exact ⟨fun h => (nomatch h), rfl⟩
      by_cases hfile : ∃ generation payload, VectorFile expected file generation payload
      swap
      · push Not at hfile
        exact vectorsOpen_refused hfile
      obtain ⟨generation, payload, hfile⟩ := hfile
      have hversioned : payloadVersioned payload = true := by
        by_contra hversioned
        exact hloud ⟨henabled, hconfig, generation, payload, hfile, .inl (Bool.not_eq_true _ ▸ hversioned)⟩
      have hconfigured : payloadConfigured (c.config hconfig) payload = false := by
        by_contra hconfigured
        refine hloud ⟨henabled, hconfig, generation, payload, hfile, .inr ⟨Bool.not_eq_false _ ▸ hconfigured, ?_⟩⟩
        intro entries padding hformat hpayload
        exact hopened ⟨⟨generation, c.vectorMetric, c.vectorDimensions, c.vectorModelId, entries⟩, henabled,
          ⟨hconfig, payload, padding, hfile, hformat, hpayload⟩, rfl, rfl, rfl⟩
      rw [vectorsOpen_file hconfig henabled hfile, openPayload, hversioned, hconfigured]
      exact ⟨fun h => (nomatch h), rfl⟩

/-! ## What was written -/

/-- The checks of the writer. -/
theorem validateVectors_eq_ok {seen : List Bytes} {rows : List (Passage × List Scalar)} (hseen : seen.Nodup)
    (h : validateVectors seen rows = .ok) :
    (∀ r ∈ rows, passageValidate r.1 = .ok ∧ ∀ x ∈ r.2, Scalar.isFinite x = true) ∧
      (seen ++ rows.map fun r => r.1.id).Nodup := by
  induction rows generalizing seen with
  | nil => exact ⟨fun r hr => absurd hr List.not_mem_nil, by simpa using hseen⟩
  | cons r rows ih =>
    obtain ⟨p, row⟩ := r
    rw [validateVectors] at h
    split_ifs at h with hpassage hnew hfinite
    have hnodup : (seen ++ [p.id]).Nodup := nodup_snoc.mpr ⟨hseen, hnew⟩
    obtain ⟨hrows, hall⟩ := ih hnodup h
    refine ⟨List.forall_mem_cons.mpr ⟨⟨not_not.mp hpassage, List.all_eq_true.mp hfinite⟩, hrows⟩, ?_⟩
    rwa [List.append_assoc, List.singleton_append] at hall

theorem entryId_of_passageValidate {p : Passage} (h : passageValidate p = .ok) (hutf8 : utf8Valid p.id = true) :
    EntryId p.id := by
  simp only [passageValidate, Status.next_eq_ok] at h
  have hid := h.1
  rw [bytesViewValidate] at hid
  split_ifs at hid with hempty hlong hnul
  refine ⟨?_, Nat.not_lt.mp hlong, ?_, hutf8⟩
  · rintro hnil
    rw [hnil] at hempty
    exact hempty rfl
  · simpa using hnul

/-- The entries of the rows. -/
def rowEntries (rows : List (Passage × List Scalar)) : List (Bytes × List Scalar) := rows.map fun r => (r.1.id, r.2)

theorem encodeVectors_eq (cfg : Config) (rows : List (Passage × List Scalar)) : encodeVectors cfg rows =
    paddedVectors cfg (rowEntries rows) (alignFloat (vectorsHead cfg ((rowEntries rows).map Prod.fst) 0).length -
      (vectorsHead cfg ((rowEntries rows).map Prod.fst) 0).length) := by
  have hids : (rowEntries rows).map Prod.fst = rows.map fun r => r.1.id := by
    rw [rowEntries, List.map_map]
    rfl
  have hnumbers : vectorNumbers (rowEntries rows) = rows.flatMap fun r => r.2.flatMap fun x => leBytes 4 x.toNat := by
    rw [vectorNumbers, rowEntries, List.flatMap_map]
  have hpad : ∀ n, n ≤ alignFloat n := fun n => by
    rw [alignFloat]
    omega
  rw [encodeVectors, paddedVectors, hids, hnumbers, Nat.add_sub_cancel' (hpad _)]

/-- What the writer puts into the file, and whether it is a file that passes all checks. -/
theorem vectorsWrite_cases {passages : List Passage} {embeddings : EmbeddingResult}
    (h : vectorsWrite c generation passages embeddings = .ok file) (hutf8 : ∀ p ∈ passages, utf8Valid p.id = true)
    (hexpected : expected = 0 ∨ expected = generation) :
    (rowEntries (embeddingRows passages embeddings)).length = passages.length ∧
      (passages.length ≤ maxSegmentPassages → VectorFileOf c expected file
        ⟨generation, c.vectorMetric, c.vectorDimensions, c.vectorModelId, rowEntries (embeddingRows passages embeddings)⟩) ∧
      (maxSegmentPassages < passages.length → SilentlyRefused c expected file) := by
  rw [vectorsWrite] at h
  split_ifs at h with hconfig harguments
  simp only [not_or, not_not] at harguments
  obtain ⟨henabled, -, hdimensions⟩ := harguments
  obtain ⟨payload, hpayload, h⟩ := bind_eq_ok.mp h
  obtain ⟨hvalidate, hsize, rfl⟩ := payloadCheck_ok_iff.mp hpayload
  obtain ⟨hheader, rfl⟩ := writeComponent_eq_ok.mp h
  have hpositive : generation ≠ 0 := by
    rw [FileHeader.valid, decide_eq_true_eq] at hheader
    exact hheader.2.2.2
  obtain ⟨hrows, hnodup⟩ := validateVectors_eq_ok List.nodup_nil hvalidate
  set rows := embeddingRows passages embeddings with hrowsdef
  have hlength : (rowEntries rows).length = passages.length := by
    rw [rowEntries, List.length_map, hrowsdef, embeddingRows, List.length_mapIdx]
  have hmem : ∀ r ∈ rows, r.1 ∈ passages ∧ r.2.length = c.vectorDimensions := by
    intro r hr
    obtain ⟨i, hi, rfl⟩ := List.mem_mapIdx.mp hr
    exact ⟨List.getElem_mem hi, by rw [EmbeddingResult.row, List.length_map, List.length_range, hdimensions]⟩
  have hvalid : EntriesValid (c.config hconfig) (rowEntries rows) := by
    refine ⟨fun e he => ?_, fun e he => ?_, ?_⟩
    · obtain ⟨r, hr, rfl⟩ := List.mem_map.mp he
      exact entryId_of_passageValidate (hrows r hr).1 (hutf8 _ (hmem r hr).1)
    · obtain ⟨r, hr, rfl⟩ := List.mem_map.mp he
      exact ⟨(hmem r hr).2, (hrows r hr).2⟩
    · rw [rowEntries, List.map_map]
      exact hnodup
  have hpadded := encodeVectors_eq (c.config hconfig) rows
  have hfile : VectorFile expected (yap2File fileTypeVectors generation (encodeVectors (c.config hconfig) rows)) generation
      (encodeVectors (c.config hconfig) rows) :=
    ⟨rfl, hpositive, hexpected.imp_right Eq.symm, lt_of_le_of_lt hsize (by decide)⟩
  refine ⟨hlength, fun hcount => ?_, fun hcount => ?_⟩
  · refine ⟨henabled, ⟨hconfig, _, _, hfile, ⟨hvalid, hlength.trans_le hcount, ?_⟩, hpadded⟩, rfl, rfl, rfl⟩
    have hpad : ∀ n, (n + (alignFloat n - n)) % 4 = 0 := fun n => by
      rw [alignFloat]
      omega
    exact hpad _
  · refine ⟨henabled, hconfig, generation, _, hfile, .inr ⟨?_, fun entries padding hformat heq => ?_⟩⟩
    · have hsmall := ConfigRecord.config_small hconfig henabled
      refine ((payloadChecks_iff hsmall).mpr ⟨?_, ?_⟩).2
      · rw [hpadded, length_padded (entriesValid_iff.mp hvalid).1, vectorFixedHeaderBytes]
        simp only [entryOffsets]
        omega
      · rw [hpadded]
        exact ((stands_padded rfl).mp (stands_self _)).1
    · -- the number of the entries is in the payload
      have hmany : (rowEntries rows).length < 2 ^ 64 := by
        rw [hpadded, length_padded (entriesValid_iff.mp hvalid).1] at hsize
        simp only [entryOffsets] at hsize
        rw [maxSegmentPayloadBytes] at hsize
        omega
      have hfew : entries.length < 2 ^ 64 := lt_of_le_of_lt hformat.count (by decide)
      have h₁ : Stands (encodeVectors (c.config hconfig) rows) 16 (leBytes 8 entries.length) := heq ▸ stands_count
      have h₂ : Stands (encodeVectors (c.config hconfig) rows) 16 (leBytes 8 (rowEntries rows).length) :=
        hpadded ▸ stands_count
      have hsame := (valueAt_of_stands h₁ hfew).symm.trans (valueAt_of_stands h₂ hmany)
      have hcount' := hformat.count
      omega

end File

/-- **The file `vectors.yap2`.**  What was written is read back, with its ids and the bits of its numbers, if and only if
there are at most four million passages; and opening a file does what it should, if and only if it is not refused in
silence. -/
theorem vectors_codec (c : ConfigRecord) (file : Bytes) :
    (∀ (generation : UInt64) (passages : List Passage) (embeddings : EmbeddingResult),
      vectorsWrite c generation passages embeddings = .ok file → (∀ p ∈ passages, utf8Valid p.id = true) →
      ∀ expected, expected = 0 ∨ expected = generation →
        ((∀ segment, vectorsOpen c expected file segment =
          (.ok, ⟨generation, c.vectorMetric, c.vectorDimensions, c.vectorModelId,
            passages.mapIdx fun i p => (p.id, embeddings.row i)⟩)) ↔ passages.length ≤ maxSegmentPassages)) ∧
      ∀ (expected : UInt64) (segment : VectorSegment),
        OpensSoundly c expected file segment ↔ ¬ SilentlyRefused c expected file := by
  refine ⟨fun generation passages embeddings hwrite hutf8 expected hexpected => ?_, fun expected segment =>
    opensSoundly_iff⟩
  obtain ⟨hlength, hfew, hmany⟩ := vectorsWrite_cases hwrite hutf8 hexpected
  have hentries : rowEntries (embeddingRows passages embeddings) = passages.mapIdx fun i p => (p.id, embeddings.row i) := by
    rw [rowEntries, embeddingRows]
    exact List.ext_getElem (by simp) fun i _ _ => by simp
  rw [hentries] at hlength hfew
  constructor
  · intro hopen
    by_contra hcount
    have hsilent := hmany (Nat.not_le.mp hcount)
    have hempty := hopen ⟨0, .disabled, 0, [], []⟩
    rw [hsilent.open] at hempty
    have hnil := congrArg (fun r : Status × VectorSegment => r.2.entries.length) hempty
    dsimp only at hnil
    rw [hlength, List.length_nil] at hnil
    omega
  · intro hcount segment
    exact (hfew hcount).opened

/-- A configuration with vectors of three numbers. -/
def vectorConfigSample : ConfigRecord := sampleRecord [97] 10 0 [109]

theorem vectors_codec_sample :
    ∃ file, vectorsWrite vectorConfigSample 1 [⟨[112], [100], [116], 0, 0, 1⟩] ⟨1, 3, [0, 1065353216, 5]⟩ = .ok file ∧
      vectorsOpen vectorConfigSample 1 file ⟨0, .disabled, 0, [], []⟩ =
        (.ok, ⟨1, .cosine, 3, [109], [([112], [0, 1065353216, 5])]⟩) ∧
      OpensSoundly vectorConfigSample 1 file ⟨0, .disabled, 0, [], []⟩ := by
  have hsome : (vectorsWrite vectorConfigSample 1 [⟨[112], [100], [116], 0, 0, 1⟩]
      ⟨1, 3, [0, 1065353216, 5]⟩).toOption.isSome = true := by
    decide +kernel
  cases hwrite : vectorsWrite vectorConfigSample 1 [⟨[112], [100], [116], 0, 0, 1⟩] ⟨1, 3, [0, 1065353216, 5]⟩ with
  | error status =>
    rw [hwrite] at hsome
    cases hsome
  | ok file =>
    have hopen := (((vectors_codec _ _).1 _ _ _ hwrite (by decide) 1 (.inr rfl)).mpr (by decide)) ⟨0, .disabled, 0, [], []⟩
    refine ⟨file, rfl, hopen.trans (by decide), ((vectors_codec _ _).2 _ _).mpr fun hsilent => ?_⟩
    rw [hsilent.open] at hopen
    exact absurd hopen (by decide)

/-- A payload of version 2. -/
def laterPayload : Bytes := leBytes 4 2 ++ List.replicate 36 0

/-- It is opened without an error, and nothing is read. -/
theorem vectors_open_silent :
    vectorsOpen vectorConfigSample 1 (yap2File fileTypeVectors 1 laterPayload) ⟨0, .disabled, 0, [], []⟩ =
        (.ok, ⟨0, .disabled, 0, [], []⟩) ∧
      ¬ OpensSoundly vectorConfigSample 1 (yap2File fileTypeVectors 1 laterPayload) ⟨0, .disabled, 0, [], []⟩ := by
  have hsilent : SilentlyRefused vectorConfigSample 1 (yap2File fileTypeVectors 1 laterPayload) := by
    refine ⟨by decide, by decide, 1, laterPayload, ⟨rfl, by decide, .inr rfl, by decide⟩, .inl (by decide)⟩
  exact ⟨hsilent.open, fun hsound => opensSoundly_iff.mp hsound hsilent⟩

end Yappod

import Yappod.Lib.Metered
import Yappod.Storage.ManifestCodec

/-!
# The file `update.wal`

The operations of an update as bytes, after `yappo_update_wal_v2.c`.  A record has a header of fixed size with
the lengths of what follows it: five texts and the components of the vectors.  `updateWalImage` is the image
that `YAP_V2_update_wal_write` puts in place, `updateWalParse` what `YAP_V2_update_wal_load` makes of a file.

* `updateWalParse_eq_ok` — which files are accepted, and what they are taken for.
* `updateWalImage_eq_ok` — what is written.
* `update_wal_codec` — what was written is read back, and nothing torn is taken for a batch.
-/

set_option autoImplicit false

namespace Yappod

/-! ## The structures -/

/-- `YAP_V2_INGEST_OPERATION`.  A pointer that is `NULL` is `none`. -/
structure RawOperation where
  kind : UInt32
  id : Option CString
  url : Option CString
  title : Option CString
  body : Option CString
  metadataJson : Option CString
  updatedAtUnixMs : Int64
  vectors : Option (List Scalar)
  vectorCount : UInt64
  vectorDimensions : UInt64
  /-- The array has as many components as the counts say. -/
  vectors_length : ∀ vs ∈ vectors, vs.length = vectorCount.toNat * vectorDimensions.toNat
  deriving DecidableEq

theorem RawOperation.no_vectors :
    ∀ vs ∈ (none : Option (List Scalar)), vs.length = (0 : UInt64).toNat * (0 : UInt64).toNat :=
  fun _ h => absurd h (by simp)

/-- `YAP_V2_UPDATE_WAL`. -/
structure UpdateWal where
  baseGeneration : UInt64
  targetGeneration : UInt64
  operations : List RawOperation
  deriving DecidableEq

def kindUpsert : UInt32 := 1

def kindDelete : UInt32 := 2

def walHeaderBytes : Nat := 64

def walOperationHeaderBytes : Nat := 72

def walVersion : Nat := 1

def walMaxOperations : Nat := 10000

/-- `wal_magic`, `YAPWAL2` and a NUL. -/
def walMagic : Bytes := [89, 65, 80, 87, 65, 76, 50, 0]

/-- The largest size of a file, in an `off_t`. -/
def maxOffset : Nat := 2 ^ 63 - 1

/-! ## The layout -/

/-- The header of a record. -/
structure RecordHeader where
  kind : UInt32
  padding : ByteArrayOf 4
  updatedAt : UInt64
  vectorCount : UInt64
  vectorDimensions : UInt64
  idBytes : UInt64
  urlBytes : UInt64
  titleBytes : UInt64
  bodyBytes : UInt64
  metadataBytes : UInt64

def RecordHeader.bytes (h : RecordHeader) : Bytes :=
  leBytes 4 h.kind.toNat ++ (h.padding.1 ++ (leBytes 8 h.updatedAt.toNat ++ (leBytes 8 h.vectorCount.toNat ++
    (leBytes 8 h.vectorDimensions.toNat ++ (leBytes 8 h.idBytes.toNat ++ (leBytes 8 h.urlBytes.toNat ++
      (leBytes 8 h.titleBytes.toNat ++ (leBytes 8 h.bodyBytes.toNat ++ leBytes 8 h.metadataBytes.toNat))))))))

/-- The fields of a record's header, at their offsets. -/
def recordHeaderDecode : Reader Status RecordHeader := do
  let kind ← Reader.uint32 .invalidFormat
  let padding ← Reader.block .invalidFormat 4
  let updatedAt ← Reader.uint64 .invalidFormat
  let vectorCount ← Reader.uint64 .invalidFormat
  let vectorDimensions ← Reader.uint64 .invalidFormat
  let idBytes ← Reader.uint64 .invalidFormat
  let urlBytes ← Reader.uint64 .invalidFormat
  let titleBytes ← Reader.uint64 .invalidFormat
  let bodyBytes ← Reader.uint64 .invalidFormat
  let metadataBytes ← Reader.uint64 .invalidFormat
  return ⟨kind, padding, updatedAt, vectorCount, vectorDimensions, idBytes, urlBytes, titleBytes, bodyBytes,
    metadataBytes⟩

/-- The fields of a block of the size of a record's header. -/
def recordFields (record : Bytes) : Except Status RecordHeader := (recordHeaderDecode.run record).map Prod.fst

/-- The header of the file. -/
structure WalHeader where
  magic : ByteArrayOf 8
  version : UInt32
  headerBytes : UInt32
  base : UInt64
  target : UInt64
  operationCount : UInt64
  payloadBytes : UInt64
  payloadCrc32c : UInt32
  reserved : ByteArrayOf 12

def WalHeader.bytes (h : WalHeader) : Bytes :=
  h.magic.1 ++ (leBytes 4 h.version.toNat ++ (leBytes 4 h.headerBytes.toNat ++ (leBytes 8 h.base.toNat ++
    (leBytes 8 h.target.toNat ++ (leBytes 8 h.operationCount.toNat ++ (leBytes 8 h.payloadBytes.toNat ++
      (leBytes 4 h.payloadCrc32c.toNat ++ h.reserved.1)))))))

/-- The fields of the header, at their offsets. -/
def walHeaderDecode : Reader Status WalHeader := do
  let magic ← Reader.block .invalidFormat 8
  let version ← Reader.uint32 .invalidFormat
  let headerBytes ← Reader.uint32 .invalidFormat
  let base ← Reader.uint64 .invalidFormat
  let target ← Reader.uint64 .invalidFormat
  let operationCount ← Reader.uint64 .invalidFormat
  let payloadBytes ← Reader.uint64 .invalidFormat
  let payloadCrc32c ← Reader.uint32 .invalidFormat
  let reserved ← Reader.block .invalidFormat 12
  return ⟨magic, version, headerBytes, base, target, operationCount, payloadBytes, payloadCrc32c, reserved⟩

/-- The bytes of vector components. -/
def valuesBytes (vs : List Scalar) : Bytes := vs.flatMap fun v => leBytes 4 v.toNat

/-! ## Writing -/

/-- The file that is being written, after the space for its header. -/
structure WalWriter where
  payload : Bytes
  crc : UInt32
  payloadBytes : Nat

/-- `write_bytes`; a file cannot grow beyond the largest offset. -/
def writeBytes (w : WalWriter) (data : Bytes) : Except Status WalWriter :=
  if data.length ≠ 0 ∧ maxOffset < walHeaderBytes + w.payload.length + data.length then .error .ioError
  else if uint64Max - w.payloadBytes < data.length then .error .outOfRange
  else .ok ⟨w.payload ++ data, data.foldl crc32cByte w.crc, w.payloadBytes + data.length⟩

/-- The text behind a pointer, of `text_length` bytes. -/
def textBytes (text : Option CString) : Bytes := text.elim [] CString.bytes

/-- The header of an operation's record. -/
def RawOperation.header (op : RawOperation) : RecordHeader where
  kind := op.kind
  padding := ⟨[0, 0, 0, 0], rfl⟩
  updatedAt := op.updatedAtUnixMs.toUInt64
  vectorCount := op.vectorCount
  vectorDimensions := op.vectorDimensions
  idBytes := UInt64.ofNat (textBytes op.id).length
  urlBytes := UInt64.ofNat (textBytes op.url).length
  titleBytes := UInt64.ofNat (textBytes op.title).length
  bodyBytes := UInt64.ofNat (textBytes op.body).length
  metadataBytes := UInt64.ofNat (textBytes op.metadataJson).length

/-- Write one value after the other. -/
def writeValues : WalWriter → List Scalar → Except Status WalWriter
  | w, [] => .ok w
  | w, v :: vs => do
    let w ← writeBytes w (leBytes 4 v.toNat)
    writeValues w vs

/-- The body of the loop over the operations. -/
def writeOperation (w : WalWriter) (op : RawOperation) : Except Status WalWriter :=
  if op.id = none ∨ (op.kind ≠ kindUpsert ∧ op.kind ≠ kindDelete) then .error .invalidArgument
  else if op.vectorCount ≠ 0 ∧ uint64Max / op.vectorCount.toNat < op.vectorDimensions.toNat then
    .error .outOfRange
  else if op.vectorCount.toNat * op.vectorDimensions.toNat ≠ 0 ∧ op.vectors = none then .error .invalidArgument
  else do
    let w ← writeBytes w op.header.bytes
    let w ← writeBytes w (textBytes op.id)
    let w ← writeBytes w (textBytes op.url)
    let w ← writeBytes w (textBytes op.title)
    let w ← writeBytes w (textBytes op.body)
    let w ← writeBytes w (textBytes op.metadataJson)
    writeValues w (op.vectors.getD [])

/-- The loop over the operations. -/
def writeOperations : WalWriter → List RawOperation → Except Status WalWriter
  | w, [] => .ok w
  | w, op :: ops => do
    let w ← writeOperation w op
    writeOperations w ops

/-- The image that `YAP_V2_update_wal_write` renames into place, or why it refuses. -/
def updateWalImage (base : UInt64) (operations : List RawOperation) : Except Status Bytes :=
  if operations.length = 0 ∨ walMaxOperations < operations.length ∨ base.toNat = uint64Max then
    .error .invalidArgument
  else do
    let w ← writeOperations ⟨[], 0xffffffff, 0⟩ operations
    let header : WalHeader := ⟨⟨walMagic, rfl⟩, 1, 64, base, base + 1, UInt64.ofNat operations.length,
      UInt64.ofNat w.payloadBytes, ~~~ w.crc, ⟨List.replicate 12 0, rfl⟩⟩
    return header.bytes ++ w.payload

/-! ## Reading -/

/-- A reader of the payload, with its CRC and what is left of it. -/
abbrev WalReader := MeteredReader Status UInt32

/-- `read_exact`. -/
def readExact (n : Nat) : WalReader Bytes := MeteredReader.take crc32cByte .invalidFormat n

/-- `read_text`: the buffer, without the NUL that is put after it. -/
def readText (length : UInt64) : WalReader Bytes := do
  MeteredReader.require .outOfRange (length.toNat ≤ uint64Max - 1)
  readExact length.toNat

/-- The loop over the components of the vectors. -/
def readValues : (n : Nat) → WalReader { vs : List Scalar // vs.length = n }
  | 0 => pure ⟨[], rfl⟩
  | n + 1 => do
    let encoded ← readExact 4
    let vs ← readValues n
    return ⟨UInt32.ofNat (leValue encoded) :: vs.1, by rw [List.length_cons, vs.2]⟩

/-- A record as it stands in the file: its header, the buffers of the texts, and the vectors. -/
structure OperationRecord where
  header : RecordHeader
  id : Bytes
  url : Bytes
  title : Bytes
  body : Bytes
  metadataJson : Bytes
  values : List Scalar
  values_length : values.length = header.vectorCount.toNat * header.vectorDimensions.toNat

/-- The operation that the buffers of a record make. -/
def OperationRecord.operation (r : OperationRecord) : RawOperation where
  kind := r.header.kind
  id := some (bufferString r.id)
  url := some (bufferString r.url)
  title := some (bufferString r.title)
  body := some (bufferString r.body)
  metadataJson := some (bufferString r.metadataJson)
  updatedAtUnixMs := r.header.updatedAt.toInt64
  vectors := if r.values = [] then none else some r.values
  vectorCount := r.header.vectorCount
  vectorDimensions := r.header.vectorDimensions
  vectors_length vs hvs := by
    split at hvs
    · cases hvs
    · cases hvs
      exact r.values_length

/-- The body of the loop over the operations. -/
def readOperation : WalReader OperationRecord := do
  let record ← readExact walOperationHeaderBytes
  let h ← recordFields record
  MeteredReader.require .invalidFormat ((h.kind = kindUpsert ∨ h.kind = kindDelete) ∧
    (h.vectorCount = 0 ∨ h.vectorDimensions.toNat ≤ uint64Max / h.vectorCount.toNat))
  let id ← readText h.idBytes
  let url ← readText h.urlBytes
  let title ← readText h.titleBytes
  let body ← readText h.bodyBytes
  let metadataJson ← readText h.metadataBytes
  MeteredReader.require .outOfRange (h.vectorCount.toNat * h.vectorDimensions.toNat ≤ uint64Max / 4)
  let values ← readValues (h.vectorCount.toNat * h.vectorDimensions.toNat)
  MeteredReader.require .invalidFormat ((bufferString id).bytes ≠ [])
  return ⟨h, id, url, title, body, metadataJson, values.1, values.2⟩

/-- The loop over the operations. -/
def readOperations : Nat → WalReader (List OperationRecord)
  | 0 => pure []
  | n + 1 => do
    let r ← readOperation
    let rs ← readOperations n
    return r :: rs

/-- `YAP_V2_update_wal_load`, of a file that could be read. -/
def updateWalParse (file : Bytes) : Except Status UpdateWal :=
  if file.length < walHeaderBytes then .error .invalidFormat
  else do
    let (h, payload) ← walHeaderDecode.run file
    if h.magic.1 ≠ walMagic ∨ h.version.toNat ≠ walVersion ∨ h.headerBytes.toNat ≠ walHeaderBytes ∨
        h.operationCount = 0 ∨ walMaxOperations < h.operationCount.toNat ∨
        h.payloadBytes.toNat ≠ file.length - walHeaderBytes then .error .invalidFormat
    else if h.base.toNat = uint64Max ∨ h.target ≠ h.base + 1 then .error .invalidFormat
    else do
      let (records, c) ← (readOperations h.operationCount.toNat).run ⟨payload, 0xffffffff, h.payloadBytes.toNat⟩
      if c.remaining ≠ 0 ∨ ~~~ c.digest ≠ h.payloadCrc32c ∨ c.rest ≠ [] then .error .invalidFormat
      else .ok ⟨h.base, h.target, records.map OperationRecord.operation⟩

/-! ## Which files are accepted -/

theorem exact_recordHeaderDecode : Exact recordHeaderDecode RecordHeader.bytes fun _ => True := by
  intro bs h rest
  simp only [recordHeaderDecode, Reader.bind_eq_ok, exact_uint32 _ _ _ _, exact_uint64 _ _ _ _,
    exact_block _ _ _ _ _, true_and]
  constructor
  · rintro ⟨kind, _, rfl, padding, _, rfl, updated, _, rfl, count, _, rfl, dimensions, _, rfl, id, _, rfl, url, _,
      rfl, title, _, rfl, body, _, rfl, metadata, _, rfl, h₁⟩
    cases h₁
    simp only [RecordHeader.bytes, List.append_assoc]
  · rintro rfl
    simp only [RecordHeader.bytes, List.append_assoc]
    exact ⟨_, _, rfl, _, _, rfl, _, _, rfl, _, _, rfl, _, _, rfl, _, _, rfl, _, _, rfl, _, _, rfl, _, _, rfl, _, _,
      rfl, rfl⟩

theorem length_recordHeader (h : RecordHeader) : h.bytes.length = walOperationHeaderBytes := by
  simp only [RecordHeader.bytes, List.length_append, length_leBytes, h.padding.2]
  rfl

theorem recordFields_eq_ok {record : Bytes} (hlen : record.length = walOperationHeaderBytes)
    {h : RecordHeader} : recordFields record = .ok h ↔ record = h.bytes := by
  rw [recordFields]
  constructor
  · intro hmap
    cases hrun : recordHeaderDecode.run record with
    | error e =>
      rw [hrun] at hmap
      cases hmap
    | ok out =>
      obtain ⟨h', rest⟩ := out
      rw [hrun] at hmap
      cases hmap
      obtain ⟨-, rfl⟩ := (exact_recordHeaderDecode _ _ _).mp hrun
      rw [List.length_append, length_recordHeader] at hlen
      rw [List.eq_nil_of_length_eq_zero (by omega : rest.length = 0), List.append_nil]
  · rintro rfl
    have := exact_recordHeaderDecode.run_encode (a := h) trivial []
    rw [List.append_nil] at this
    rw [this]
    rfl

theorem exact_walHeaderDecode : Exact walHeaderDecode WalHeader.bytes fun _ => True := by
  intro bs h rest
  simp only [walHeaderDecode, Reader.bind_eq_ok, exact_uint32 _ _ _ _, exact_uint64 _ _ _ _,
    exact_block _ _ _ _ _, true_and]
  constructor
  · rintro ⟨magic, _, rfl, version, _, rfl, bytes, _, rfl, base, _, rfl, target, _, rfl, count, _, rfl, payload, _,
      rfl, crc, _, rfl, reserved, _, rfl, h₁⟩
    cases h₁
    simp only [WalHeader.bytes, List.append_assoc]
  · rintro rfl
    simp only [WalHeader.bytes, List.append_assoc]
    exact ⟨_, _, rfl, _, _, rfl, _, _, rfl, _, _, rfl, _, _, rfl, _, _, rfl, _, _, rfl, _, _, rfl, _, _, rfl, rfl⟩

theorem length_walHeader (h : WalHeader) : h.bytes.length = walHeaderBytes := by
  simp only [WalHeader.bytes, List.length_append, length_leBytes, h.magic.2, h.reserved.2]
  rfl

theorem readText_eq_ok {length : UInt64} {c c' : Metered UInt32} {bs : Bytes} :
    (readText length).run c = .ok (bs, c') ↔
      length.toNat ≤ uint64Max - 1 ∧ bs.length = length.toNat ∧ c.Reads crc32cByte bs c' := by
  simp only [readText, run_bind_eq_ok, MeteredReader.require_eq_ok, decide_eq_true_eq, readExact,
    meteredExact_take _ _ _ _ _ _, id]
  constructor
  · rintro ⟨_, _, ⟨hle, h₁⟩, hbs⟩
    cases h₁
    exact ⟨hle, hbs⟩
  · rintro ⟨hle, hbs⟩
    exact ⟨_, _, ⟨hle, rfl⟩, hbs⟩

theorem meteredExact_readValues (n : Nat) :
    MeteredExact crc32cByte (readValues n) (fun vs => valuesBytes vs.1) fun _ => True := by
  induction n with
  | zero =>
    rintro c ⟨vs, hvs⟩ c'
    obtain rfl := List.eq_nil_of_length_eq_zero hvs
    rw [true_and]
    show _ ↔ c.Reads crc32cByte [] c'
    rw [Metered.reads_nil]
    constructor
    · rintro ⟨⟩
      rfl
    · rintro rfl
      rfl
  | succ n ih =>
    rintro c ⟨vs, hvs⟩ c'
    obtain ⟨v, vs, rfl⟩ := List.exists_cons_of_length_eq_add_one hvs
    simp only [readValues, run_bind_eq_ok, readExact, meteredExact_take _ _ _ _ _ _, ih _ _ _, true_and, id]
    show _ ↔ c.Reads crc32cByte (leBytes 4 v.toNat ++ valuesBytes vs) c'
    rw [Metered.reads_append]
    constructor
    · rintro ⟨encoded, mid, ⟨hlen, hv⟩, ⟨vs', hvs'⟩, mid', hrest, hout⟩
      cases hout
      refine ⟨mid, ?_, hrest⟩
      have hlt := leValue_lt encoded
      rw [hlen] at hlt
      rw [UInt32.toNat_ofNat_of_lt' hlt, ← hlen, leBytes_leValue]
      exact hv
    · rintro ⟨mid, hv, hrest⟩
      refine ⟨leBytes 4 v.toNat, mid, ⟨length_leBytes 4 _, hv⟩, ⟨vs, Nat.succ_injective hvs⟩, c', hrest, ?_⟩
      rw [leValue_leBytes (show v.toNat < 256 ^ 4 from v.toNat_lt), UInt32.ofNat_toNat]
      rfl

/-- The bytes of a record. -/
def OperationRecord.bytes (r : OperationRecord) : Bytes :=
  r.header.bytes ++ (r.id ++ (r.url ++ (r.title ++ (r.body ++ (r.metadataJson ++ valuesBytes r.values)))))

/-- A text of a record has the length that the header says. -/
def TextOk (length : UInt64) (text : Bytes) : Prop := length.toNat ≤ uint64Max - 1 ∧ text.length = length.toNat

/-- What is asked of a record. -/
structure OperationRecord.Ok (r : OperationRecord) : Prop where
  kind : r.header.kind = kindUpsert ∨ r.header.kind = kindDelete
  counts : r.header.vectorCount = 0 ∨ r.header.vectorDimensions.toNat ≤ uint64Max / r.header.vectorCount.toNat
  id : TextOk r.header.idBytes r.id
  url : TextOk r.header.urlBytes r.url
  title : TextOk r.header.titleBytes r.title
  body : TextOk r.header.bodyBytes r.body
  metadataJson : TextOk r.header.metadataBytes r.metadataJson
  values : r.header.vectorCount.toNat * r.header.vectorDimensions.toNat ≤ uint64Max / 4
  id_ne_nil : (bufferString r.id).bytes ≠ []

theorem meteredExact_readOperation :
    MeteredExact crc32cByte readOperation OperationRecord.bytes OperationRecord.Ok := by
  intro c r c'
  simp only [readOperation, run_bind_eq_ok, run_lift_eq_ok, MeteredReader.require_eq_ok, decide_eq_true_eq,
    readText_eq_ok, readExact, meteredExact_take _ _ _ _ _ _, meteredExact_readValues _ _ _ _, true_and, id,
    OperationRecord.bytes, Metered.reads_append]
  constructor
  · rintro ⟨record, _, ⟨hlen, hrecord⟩, h, c₁, ⟨hfields, rfl⟩, _, _, ⟨⟨hkind, hcounts⟩, h₁⟩, rid, c₂, ⟨hid, hid', hrid⟩,
      url, c₃, ⟨hurl, hurl', hrurl⟩, title, c₄, ⟨htitle, htitle', hrtitle⟩, body, c₅, ⟨hbody, hbody', hrbody⟩,
      metadata, c₆, ⟨hmetadata, hmetadata', hrmetadata⟩, _, _, ⟨hroom, h₂⟩, values, c₇, hvalues, _, _, ⟨hne, h₃⟩, hout⟩
    rw [recordFields_eq_ok hlen] at hfields
    subst hfields
    cases h₁
    cases h₂
    cases h₃
    cases hout
    exact ⟨⟨hkind, hcounts, ⟨hid, hid'⟩, ⟨hurl, hurl'⟩, ⟨htitle, htitle'⟩, ⟨hbody, hbody'⟩,
      ⟨hmetadata, hmetadata'⟩, hroom, hne⟩, c₁, hrecord, c₂, hrid, c₃, hrurl, c₄, hrtitle, c₅, hrbody, c₆,
      hrmetadata, hvalues⟩
  · rintro ⟨hok, c₁, hrecord, c₂, hrid, c₃, hrurl, c₄, hrtitle, c₅, hrbody, c₆, hrmetadata, hvalues⟩
    exact ⟨_, c₁, ⟨length_recordHeader _, hrecord⟩, r.header, c₁,
      ⟨(recordFields_eq_ok (length_recordHeader _)).mpr rfl, rfl⟩, _, _, ⟨⟨hok.kind, hok.counts⟩, rfl⟩,
      r.id, c₂, ⟨hok.id.1, hok.id.2, hrid⟩, r.url, c₃, ⟨hok.url.1, hok.url.2, hrurl⟩,
      r.title, c₄, ⟨hok.title.1, hok.title.2, hrtitle⟩, r.body, c₅, ⟨hok.body.1, hok.body.2, hrbody⟩,
      r.metadataJson, c₆, ⟨hok.metadataJson.1, hok.metadataJson.2, hrmetadata⟩, _, _, ⟨hok.values, rfl⟩,
      ⟨r.values, r.values_length⟩, c', hvalues, _, _, ⟨hok.id_ne_nil, rfl⟩, rfl⟩

/-- Records are read one after the other. -/
theorem readOperations_eq_ok {n : Nat} {c c' : Metered UInt32} {records : List OperationRecord} :
    (readOperations n).run c = .ok (records, c') ↔
      records.length = n ∧ (∀ r ∈ records, r.Ok) ∧ c.Reads crc32cByte (records.flatMap OperationRecord.bytes) c' := by
  induction n generalizing c c' records with
  | zero =>
    constructor
    · rintro ⟨⟩
      exact ⟨rfl, by simp, (Metered.reads_nil _).mpr rfl⟩
    · rintro ⟨hlen, -, hreads⟩
      obtain rfl := List.eq_nil_of_length_eq_zero hlen
      rw [List.flatMap_nil, Metered.reads_nil] at hreads
      rw [hreads]
      rfl
  | succ n ih =>
    simp only [readOperations, run_bind_eq_ok, meteredExact_readOperation _ _ _, ih]
    constructor
    · rintro ⟨r, mid, ⟨hok, hr⟩, rs, _, ⟨rfl, hoks, hrs⟩, hout⟩
      cases hout
      refine ⟨rfl, List.forall_mem_cons.mpr ⟨hok, hoks⟩, ?_⟩
      rw [List.flatMap_cons, Metered.reads_append]
      exact ⟨mid, hr, hrs⟩
    · rintro ⟨hlen, hoks, hreads⟩
      obtain ⟨r, rs, rfl⟩ := List.exists_cons_of_length_eq_add_one hlen
      rw [List.flatMap_cons, Metered.reads_append] at hreads
      obtain ⟨mid, hr, hrs⟩ := hreads
      rw [List.forall_mem_cons] at hoks
      exact ⟨r, mid, ⟨hoks.1, hr⟩, rs, c', ⟨Nat.succ_injective hlen, hoks.2, hrs⟩, rfl⟩

/-- What is asked of the header of a file with these records. -/
structure WalHeader.Fits (h : WalHeader) (records : List OperationRecord) : Prop where
  magic : h.magic.1 = walMagic
  version : h.version.toNat = walVersion
  headerBytes : h.headerBytes.toNat = walHeaderBytes
  count_ne_zero : h.operationCount ≠ 0
  count_le : h.operationCount.toNat ≤ walMaxOperations
  base : h.base.toNat ≠ uint64Max
  target : h.target = h.base + 1
  count : records.length = h.operationCount.toNat
  payload : h.payloadBytes.toNat = (records.flatMap OperationRecord.bytes).length
  crc : crc32c (records.flatMap OperationRecord.bytes) = h.payloadCrc32c

/-- **What is loaded**: a header and records that it fits, and nothing else. -/
theorem updateWalParse_eq_ok {file : Bytes} {wal : UpdateWal} :
    updateWalParse file = .ok wal ↔ ∃ (h : WalHeader) (records : List OperationRecord),
      h.Fits records ∧ (∀ r ∈ records, r.Ok) ∧ file = h.bytes ++ records.flatMap OperationRecord.bytes ∧
        wal = ⟨h.base, h.target, records.map OperationRecord.operation⟩ := by
  constructor
  · intro hload
    rw [updateWalParse] at hload
    split_ifs at hload with hshort
    obtain ⟨⟨h, payload⟩, hheader, hload⟩ := bind_eq_ok.mp hload
    obtain ⟨-, rfl⟩ := (exact_walHeaderDecode _ _ _).mp hheader
    dsimp only at hload
    split_ifs at hload with hbad hgeneration
    obtain ⟨⟨records, c⟩, hrecords, hload⟩ := bind_eq_ok.mp hload
    dsimp only at hload
    split_ifs at hload with hend
    cases hload
    rw [List.length_append, length_walHeader, Nat.add_sub_cancel_left] at hbad
    push Not at hbad hgeneration hend
    obtain ⟨hmagic, hversion, hbytes, hcount, hmax, hpayload⟩ := hbad
    obtain ⟨hlen, hoks, hreads⟩ := readOperations_eq_ok.mp hrecords
    have hrest := hreads.rest
    dsimp only at hrest
    rw [hend.2.2, List.append_nil] at hrest
    have hdigest := hreads.digest
    refine ⟨h, records, ⟨hmagic, hversion, hbytes, hcount, hmax, hgeneration.1, hgeneration.2, hlen, ?_, ?_⟩, hoks,
      by rw [hrest], rfl⟩
    · rw [hpayload, hrest]
    · rw [← hend.2.1, hdigest]
      rfl
  · rintro ⟨h, records, hfits, hoks, rfl, rfl⟩
    have hsize : (h.bytes ++ records.flatMap OperationRecord.bytes).length =
        walHeaderBytes + (records.flatMap OperationRecord.bytes).length := by
      rw [List.length_append, length_walHeader]
    have hheader := exact_walHeaderDecode.run_encode (a := h) trivial (records.flatMap OperationRecord.bytes)
    have hrun : (readOperations h.operationCount.toNat).run
        ⟨records.flatMap OperationRecord.bytes, 0xffffffff, h.payloadBytes.toNat⟩ =
        .ok (records, ⟨[], (records.flatMap OperationRecord.bytes).foldl crc32cByte 0xffffffff, 0⟩) :=
      readOperations_eq_ok.mpr ⟨hfits.count, hoks, ⟨(List.append_nil _).symm, rfl, hfits.payload⟩⟩
    rw [updateWalParse, if_neg (by omega)]
    refine bind_eq_ok.mpr ⟨_, hheader, ?_⟩
    dsimp only
    rw [if_neg, if_neg]
    · refine bind_eq_ok.mpr ⟨_, hrun, ?_⟩
      dsimp only
      rw [if_neg]
      push Not
      exact ⟨rfl, hfits.crc, rfl⟩
    · push Not
      exact ⟨hfits.base, hfits.target⟩
    · rw [hsize, Nat.add_sub_cancel_left]
      push Not
      exact ⟨hfits.magic, hfits.version, hfits.headerBytes, hfits.count_ne_zero, hfits.count_le, hfits.payload⟩

/-- A file with something after it is not a file as well: the header says where a file ends. -/
theorem eq_of_updateWalParse {a b : Bytes} {wal wal' : UpdateWal} (ha : updateWalParse a = .ok wal)
    (hb : updateWalParse b = .ok wal') (hab : a <+: b) : a = b := by
  obtain ⟨h, records, hfits, -, rfl, -⟩ := updateWalParse_eq_ok.mp ha
  obtain ⟨h', records', hfits', -, rfl, -⟩ := updateWalParse_eq_ok.mp hb
  have hheader : h' = h := by
    obtain ⟨tail, htail⟩ := hab
    have h₁ := exact_walHeaderDecode.run_encode (a := h) trivial (records.flatMap OperationRecord.bytes ++ tail)
    have h₂ := exact_walHeaderDecode.run_encode (a := h') trivial (records'.flatMap OperationRecord.bytes)
    rw [← List.append_assoc, htail, h₂] at h₁
    exact congrArg Prod.fst (Except.ok.inj h₁)
  refine hab.eq_of_length ?_
  rw [List.length_append, List.length_append, length_walHeader, length_walHeader, ← hfits.payload,
    ← hfits'.payload, hheader]

/-! ## What is written -/

/-- A text that was absent is read back as an empty one. -/
def presentText (text : Option CString) : CString := text.getD ⟨[], List.not_mem_nil⟩

/-- An operation as it is read back. -/
def RawOperation.readBack (op : RawOperation) : RawOperation where
  kind := op.kind
  id := some (presentText op.id)
  url := some (presentText op.url)
  title := some (presentText op.title)
  body := some (presentText op.body)
  metadataJson := some (presentText op.metadataJson)
  updatedAtUnixMs := op.updatedAtUnixMs
  vectors := op.vectors.filter (· ≠ [])
  vectorCount := op.vectorCount
  vectorDimensions := op.vectorDimensions
  vectors_length vs hvs := op.vectors_length vs (Option.mem_filter_iff.mp hvs).1

/-- An operation of a batch names a document. -/
def RawOperation.Valid (op : RawOperation) : Prop := op.id ≠ some ⟨[], List.not_mem_nil⟩

instance (op : RawOperation) : Decidable op.Valid := inferInstanceAs (Decidable (_ ≠ _))

theorem bufferString_textBytes (text : Option CString) : bufferString (textBytes text) = presentText text := by
  cases text with
  | none => rfl
  | some t => exact bufferString_bytes t

/-- An array without components is read back as `NULL`. -/
theorem getD_eq_filter (vectors : Option (List Scalar)) :
    (if vectors.getD [] = [] then none else some (vectors.getD [])) = vectors.filter (· ≠ []) := by
  rcases vectors with _ | _ | ⟨v, vs⟩
  · rfl
  · rfl
  · rw [Option.filter_some_pos (by simp)]
    rfl

/-- What is written so far goes with its length and its CRC, and fits into a file. -/
structure WalWriter.Sound (w : WalWriter) : Prop where
  crc : w.crc = w.payload.foldl crc32cByte 0xffffffff
  payloadBytes : w.payloadBytes = w.payload.length
  room : walHeaderBytes + w.payload.length ≤ maxOffset

theorem WalWriter.Sound.writeBytes {w w' : WalWriter} {data : Bytes} (h : w.Sound)
    (hw : Yappod.writeBytes w data = .ok w') : w'.Sound ∧ w'.payload = w.payload ++ data := by
  rw [Yappod.writeBytes] at hw
  split_ifs at hw with hroom hsize
  cases hw
  have hold := h.room
  refine ⟨⟨?_, ?_, ?_⟩, rfl⟩
  · rw [h.crc, List.foldl_append]
  · rw [h.payloadBytes, List.length_append]
  · rw [List.length_append]
    omega

theorem WalWriter.Sound.writeValues {w w' : WalWriter} {vs : List Scalar} (h : w.Sound)
    (hw : Yappod.writeValues w vs = .ok w') : w'.Sound ∧ w'.payload = w.payload ++ valuesBytes vs := by
  induction vs generalizing w with
  | nil =>
    cases hw
    exact ⟨h, (List.append_nil _).symm⟩
  | cons v vs ih =>
    obtain ⟨w₁, h₁, hw⟩ := bind_eq_ok.mp hw
    obtain ⟨hsound₁, hp₁⟩ := h.writeBytes h₁
    obtain ⟨hsound, hp⟩ := ih hsound₁ hw
    refine ⟨hsound, ?_⟩
    rw [hp, hp₁, List.append_assoc]
    rfl

theorem length_valuesBytes (vs : List Scalar) : (valuesBytes vs).length = vs.length * 4 :=
  length_flatMap_records (fun v : Scalar => length_leBytes 4 v.toNat) vs

theorem textOk_of_room {text : Bytes} (h : text.length ≤ maxOffset) :
    TextOk (UInt64.ofNat text.length) text := by
  rw [maxOffset] at h
  have hlen : (UInt64.ofNat text.length).toNat = text.length := UInt64.toNat_ofNat_of_lt' (by
    show text.length < 2 ^ 64
    omega)
  refine ⟨?_, hlen.symm⟩
  rw [hlen, uint64Max]
  omega

/-- An operation is written as a record that is accepted and read back as the operation. -/
theorem WalWriter.Sound.writeOperation {w w' : WalWriter} {op : RawOperation} (h : w.Sound) (hop : op.Valid)
    (hw : Yappod.writeOperation w op = .ok w') :
    w'.Sound ∧ ∃ r : OperationRecord, r.Ok ∧ r.operation = op.readBack ∧ w'.payload = w.payload ++ r.bytes := by
  rw [Yappod.writeOperation] at hw
  split_ifs at hw with hkind hcounts hnull
  obtain ⟨w₁, h₁, hw⟩ := bind_eq_ok.mp hw
  obtain ⟨w₂, h₂, hw⟩ := bind_eq_ok.mp hw
  obtain ⟨w₃, h₃, hw⟩ := bind_eq_ok.mp hw
  obtain ⟨w₄, h₄, hw⟩ := bind_eq_ok.mp hw
  obtain ⟨w₅, h₅, hw⟩ := bind_eq_ok.mp hw
  obtain ⟨w₆, h₆, hw⟩ := bind_eq_ok.mp hw
  obtain ⟨s₁, p₁⟩ := h.writeBytes h₁
  obtain ⟨s₂, p₂⟩ := s₁.writeBytes h₂
  obtain ⟨s₃, p₃⟩ := s₂.writeBytes h₃
  obtain ⟨s₄, p₄⟩ := s₃.writeBytes h₄
  obtain ⟨s₅, p₅⟩ := s₄.writeBytes h₅
  obtain ⟨s₆, p₆⟩ := s₅.writeBytes h₆
  obtain ⟨s, p⟩ := s₆.writeValues hw
  have hvalues : (op.vectors.getD []).length = op.vectorCount.toNat * op.vectorDimensions.toNat := by
    cases hvectors : op.vectors with
    | none =>
      rw [hvectors, and_iff_left rfl, not_not] at hnull
      exact hnull.symm
    | some vs => exact op.vectors_length vs hvectors
  let r : OperationRecord := ⟨op.header, textBytes op.id, textBytes op.url, textBytes op.title, textBytes op.body,
    textBytes op.metadataJson, op.vectors.getD [], hvalues⟩
  have hpayload : w'.payload = w.payload ++ r.bytes := by
    rw [p, p₆, p₅, p₄, p₃, p₂, p₁]
    simp only [OperationRecord.bytes, r, List.append_assoc]
  have hroom := s.room
  rw [hpayload] at hroom
  simp only [OperationRecord.bytes, r, List.length_append, length_valuesBytes] at hroom
  refine ⟨s, r, ⟨?_, ?_, textOk_of_room ?_, textOk_of_room ?_, textOk_of_room ?_, textOk_of_room ?_,
    textOk_of_room ?_, ?_, ?_⟩, ?_, hpayload⟩
  · rw [not_or, not_and_or, not_not, not_not] at hkind
    exact hkind.2
  · rw [not_and_or, not_not, Nat.not_lt] at hcounts
    exact hcounts
  · omega
  · omega
  · omega
  · omega
  · omega
  · show op.vectorCount.toNat * op.vectorDimensions.toNat ≤ uint64Max / 4
    rw [maxOffset] at hroom
    rw [uint64Max, ← hvalues]
    omega
  · obtain ⟨hid, -⟩ := not_or.mp hkind
    obtain ⟨id, hid⟩ := Option.ne_none_iff_exists'.mp hid
    show (bufferString (textBytes op.id)).bytes ≠ []
    rw [bufferString_textBytes, hid]
    intro hnil
    obtain ⟨bytes, hnoNul⟩ := id
    cases (show bytes = [] from hnil)
    exact hop hid
  · simp only [OperationRecord.operation, RawOperation.readBack, r, bufferString_textBytes, getD_eq_filter,
      RawOperation.header, Int64.toInt64_toUInt64]

theorem WalWriter.Sound.writeOperations {w w' : WalWriter} {ops : List RawOperation} (h : w.Sound)
    (hops : ∀ op ∈ ops, op.Valid) (hw : Yappod.writeOperations w ops = .ok w') :
    w'.Sound ∧ ∃ records : List OperationRecord, (∀ r ∈ records, r.Ok) ∧ records.length = ops.length ∧
      records.map OperationRecord.operation = ops.map RawOperation.readBack ∧
        w'.payload = w.payload ++ records.flatMap OperationRecord.bytes := by
  induction ops generalizing w with
  | nil =>
    cases hw
    exact ⟨h, [], by simp, rfl, rfl, (List.append_nil _).symm⟩
  | cons op ops ih =>
    rw [List.forall_mem_cons] at hops
    obtain ⟨w₁, h₁, hw⟩ := bind_eq_ok.mp hw
    obtain ⟨hsound₁, r, hr, hrop, hp₁⟩ := h.writeOperation hops.1 h₁
    obtain ⟨hsound, records, hrecords, hlen, hmap, hp⟩ := ih hsound₁ hops.2 hw
    refine ⟨hsound, r :: records, List.forall_mem_cons.mpr ⟨hr, hrecords⟩, by simp [hlen], ?_, ?_⟩
    · rw [List.map_cons, List.map_cons, hrop, hmap]
    · rw [hp, hp₁, List.flatMap_cons, List.append_assoc]

/-- **What is written is loaded again.** -/
theorem updateWalParse_updateWalImage {base : UInt64} {ops : List RawOperation} {image : Bytes}
    (hops : ∀ op ∈ ops, op.Valid) (h : updateWalImage base ops = .ok image) :
    updateWalParse image = .ok ⟨base, base + 1, ops.map RawOperation.readBack⟩ := by
  rw [updateWalImage] at h
  split_ifs at h with hargs
  push Not at hargs
  obtain ⟨w, hw, h⟩ := bind_eq_ok.mp h
  cases h
  have hempty : WalWriter.Sound ⟨[], 0xffffffff, 0⟩ := ⟨rfl, rfl, by decide⟩
  obtain ⟨hsound, records, hok, hlen, hmap, hp⟩ := hempty.writeOperations hops hw
  rw [List.nil_append] at hp
  have hmax := hargs.2.1
  rw [walMaxOperations] at hmax
  have hcount : (UInt64.ofNat ops.length).toNat = ops.length := UInt64.toNat_ofNat_of_lt' (by
    show ops.length < 2 ^ 64
    omega)
  have hroom := hsound.room
  rw [maxOffset] at hroom
  refine updateWalParse_eq_ok.mpr ⟨_, records, ⟨rfl, rfl, rfl, fun h0 => hargs.1 ?_, ?_, hargs.2.2, rfl, ?_, ?_, ?_⟩,
    hok, by rw [hp], by rw [hmap]⟩
  · rw [← hcount, show UInt64.ofNat ops.length = 0 from h0]
    rfl
  · rw [hcount]
    exact hmax
  · rw [hcount, hlen]
  · rw [← hp, hsound.payloadBytes]
    exact UInt64.toNat_ofNat_of_lt' (by
      show w.payload.length < 2 ^ 64
      omega)
  · rw [← hp, hsound.crc]
    rfl

/-- **The codec of `update.wal`.**  What is written is read back, with texts that were absent as empty ones; no
part and no extension of it is accepted; and in a file that is accepted the records fill the payload, and the
target generation is the one after the base generation. -/
theorem update_wal_codec :
    (∀ (base : UInt64) (ops : List RawOperation) (image : Bytes), (∀ op ∈ ops, op.Valid) →
      updateWalImage base ops = .ok image →
        updateWalParse image = .ok ⟨base, base + 1, ops.map RawOperation.readBack⟩ ∧
        ∀ file, file <+: image ∨ image <+: file → file ≠ image → ∀ wal, updateWalParse file ≠ .ok wal) ∧
    (∀ (file : Bytes) (wal : UpdateWal), updateWalParse file = .ok wal →
      wal.targetGeneration.toNat = wal.baseGeneration.toNat + 1 ∧
      ∃ (header : Bytes) (records : List OperationRecord), header.length = walHeaderBytes ∧
        file = header ++ records.flatMap OperationRecord.bytes ∧ (∀ r ∈ records, r.Ok) ∧
        wal.operations = records.map OperationRecord.operation) := by
  refine ⟨fun base ops image hops himage => ⟨updateWalParse_updateWalImage hops himage, ?_⟩,
    fun file wal hload => ?_⟩
  · have hload := updateWalParse_updateWalImage hops himage
    rintro file (hpart | hmore) hne wal hfile
    · exact hne (eq_of_updateWalParse hfile hload hpart)
    · exact hne (eq_of_updateWalParse hload hfile hmore).symm
  · obtain ⟨h, records, hfits, hok, rfl, rfl⟩ := updateWalParse_eq_ok.mp hload
    refine ⟨?_, h.bytes, records, length_walHeader h, rfl, hok, rfl⟩
    have hbase := hfits.base
    have hlt := h.base.toNat_lt
    rw [uint64Max] at hbase
    show h.target.toNat = h.base.toNat + 1
    rw [hfits.target, UInt64.toNat_add, show (1 : UInt64).toNat = 1 by rfl]
    exact Nat.mod_eq_of_lt (by omega)

/-- An upsert of a document with one vector and no URL, and a deletion. -/
def sampleOperations : List RawOperation :=
  [{ kind := kindUpsert, id := some ⟨[97], by decide⟩, url := none, title := some ⟨[], by decide⟩
     body := some ⟨[98, 99], by decide⟩, metadataJson := none, updatedAtUnixMs := 5, vectors := some [1, 2]
     vectorCount := 1, vectorDimensions := 2, vectors_length := by decide },
   { kind := kindDelete, id := some ⟨[100], by decide⟩, url := none, title := none, body := none
     metadataJson := none, updatedAtUnixMs := 0, vectors := none, vectorCount := 0, vectorDimensions := 0
     vectors_length := RawOperation.no_vectors }]

theorem update_wal_codec_sample :
    ∃ image, updateWalImage 7 sampleOperations = .ok image ∧
      updateWalParse image = .ok ⟨7, 8, sampleOperations.map RawOperation.readBack⟩ ∧
      ∀ file, file <+: image ∨ image <+: file → file ≠ image → ∀ wal, updateWalParse file ≠ .ok wal := by
  have hvalid : ∀ op ∈ sampleOperations, op.Valid := by decide
  have hok : (updateWalImage 7 sampleOperations).isOk = true := by decide +kernel
  cases himage : updateWalImage 7 sampleOperations with
  | error e =>
    rw [himage] at hok
    cases hok
  | ok image => exact ⟨image, rfl, update_wal_codec.1 7 sampleOperations image hvalid himage⟩

end Yappod

import Yappod.Storage.SliceWriter

/-!
# The files `documents.yap2` and `tombstones.yap2`

What `YAP_V2_segment_write` and `YAP_V2_tombstones_write` write, and what `YAP_V2_segment_read` and
`YAP_V2_tombstones_read` make of a file.  The payloads themselves are those of `Storage/SliceWriter.lean`.

* `documents_codec` — what is written is read back, with the same descriptor.  A payload that is accepted is
  that of what is read, unless the stored name of the segment has a NUL in it: the name that is checked, and
  returned, ends there.
* `tombstones_codec` — tombstones are read back if there are at most a million of them.  The writer and the
  planner have no such limit.
-/

set_option autoImplicit false

namespace Yappod

/-! ## Views -/

/-- `YAP_V2_DOCUMENT_VIEW`. -/
structure DocumentView where
  id : Bytes
  url : Bytes
  title : Bytes
  body : Bytes
  metadataJson : Bytes
  updatedAtUnixMs : Int64
  deriving DecidableEq

/-- `YAP_V2_PASSAGE_VIEW`. -/
structure PassageView where
  id : Bytes
  parentDocumentId : Bytes
  text : Bytes
  ordinal : UInt32
  startChar : UInt32
  endChar : UInt32
  deriving DecidableEq

def DocumentView.document (d : DocumentView) : Document :=
  ⟨d.id, d.url, d.title, d.body, d.metadataJson, d.updatedAtUnixMs.toInt⟩

def PassageView.passage (p : PassageView) : Passage :=
  ⟨p.id, p.parentDocumentId, p.text, p.ordinal.toNat, p.startChar.toNat, p.endChar.toNat⟩

def fileTypeDocuments : UInt32 := 4

def fileTypeTombstones : UInt32 := 7

/-! ## Files -/

/-- `read_file` and the checks of a file's header: the generation and the payload. -/
def readComponent (fileType : UInt32) (expectedGeneration : UInt64) (file : Bytes) :
    Except Status (UInt64 × Bytes) :=
  if fileHeaderBytes + maxSegmentPayloadBytes < file.length then .error .outOfRange
  else if file.length < fileHeaderBytes then .error .invalidFormat
  else do
    let (header, payload) ← fileHeaderDecode.run file
    if header.fileType ≠ fileType ∨ header.payloadBytes.toNat ≠ file.length - fileHeaderBytes ∨
        (expectedGeneration ≠ 0 ∧ header.generation ≠ expectedGeneration) then .error .invalidFormat
    else if crc32c payload ≠ header.payloadCrc32c then .error .checksumMismatch
    else .ok (header.generation, payload)

/-- The name `documents.yap2`. -/
def documentsName : CString := ⟨[100, 111, 99, 117, 109, 101, 110, 116, 115, 46, 121, 97, 112, 50], by decide⟩

section Documents

variable (sha256 : Bytes → ByteArrayOf 32)

/-- The descriptor of a segment with only its file of documents. -/
def documentsDescriptor (id : CString) (documents passages : Nat) (file : Bytes) : Except Status RawSegment := do
  let components ← addComponent [] ⟨documentsName, fileTypeDocuments,
    UInt64.ofNat documents + UInt64.ofNat passages, UInt64.ofNat file.length, sha256 file⟩
  return ⟨id, UInt64.ofNat documents, UInt64.ofNat passages, 0, components⟩

/-- `YAP_V2_segment_write`: the file and the descriptor. -/
def segmentWrite (segmentId : CString) (generation : UInt64) (documents : List DocumentView)
    (passages : List PassageView) : Except Status (Bytes × RawSegment) :=
  if generation = 0 then .error .invalidArgument
  else if segmentIdValidate segmentId ≠ .ok then .error (segmentIdValidate segmentId)
  else do
    let payload ← payloadCheck
      (validateSegmentViews (documents.map DocumentView.document) (passages.map PassageView.passage))
      (encodeDocuments segmentId.bytes (documents.map DocumentView.document) (passages.map PassageView.passage))
    let file ← writeComponent fileTypeDocuments generation payload
    let descriptor ← documentsDescriptor sha256 segmentId documents.length passages.length file
    return (file, descriptor)

/-- `read_bytes_view`. -/
def readView : Reader Status Bytes := do
  let length ← Reader.uint32 .invalidFormat
  Reader.take .invalidFormat length.toNat

/-- The body of a document's record. -/
def parseDocument : Reader Status DocumentView := do
  let id ← readView
  let url ← readView
  let title ← readView
  let body ← readView
  let metadataJson ← readView
  let updatedAt ← Reader.uint64 .invalidFormat
  Reader.require .outOfRange (updatedAt.toNat < 2 ^ 63)
  return ⟨id, url, title, body, metadataJson, updatedAt.toInt64⟩

/-- The body of a passage's record. -/
def parsePassage : Reader Status PassageView := do
  let id ← readView
  let parentDocumentId ← readView
  let text ← readView
  let ordinal ← Reader.uint32 .invalidFormat
  let startChar ← Reader.uint32 .invalidFormat
  let endChar ← Reader.uint32 .invalidFormat
  return ⟨id, parentDocumentId, text, ordinal, startChar, endChar⟩

/-- A record of one type: nothing is read beyond its end, and all of it is read. -/
def readRecord {α : Type} (type : UInt32) (body : Reader Status α) : Reader Status α := do
  let recordType ← Reader.uint32 .invalidFormat
  let recordBytes ← Reader.uint32 .invalidFormat
  let bytes ← Reader.take .invalidFormat recordBytes.toNat
  Reader.require .invalidFormat (recordType = type)
  body.whole .invalidFormat bytes

/-- The payload: the bytes of the segment's name, the documents and the passages. -/
structure DocumentsPayload where
  storedId : Bytes
  documents : List DocumentView
  passages : List PassageView

def parseDocuments : Reader Status DocumentsPayload := do
  let version ← Reader.uint32 .invalidFormat
  let idBytes ← Reader.uint32 .invalidFormat
  Reader.require .invalidFormat (version = 1 ∧ idBytes ≠ 0 ∧ idBytes.toNat ≤ maxIdentifierBytes)
  let storedId ← Reader.take .invalidFormat idBytes.toNat
  -- the name is copied into a buffer, and checked and used up to the first NUL
  Reader.require .invalidFormat (segmentIdValidate (bufferString storedId) = .ok)
  let documentCount ← Reader.uint64 .invalidFormat
  let passageCount ← Reader.uint64 .invalidFormat
  Reader.require .outOfRange (documentCount.toNat ≤ maxSegmentDocuments ∧ passageCount.toNat ≤ maxSegmentPassages)
  let documents ← Reader.many (readRecord 1 parseDocument) documentCount.toNat
  let passages ← Reader.many (readRecord 2 parsePassage) passageCount.toNat
  return ⟨storedId, documents, passages⟩

/-- `YAP_V2_SEGMENT`. -/
structure SegmentFile where
  id : CString
  generation : UInt64
  documents : List DocumentView
  passages : List PassageView
  deriving DecidableEq

/-- `YAP_V2_segment_read`, of a file that could be read. -/
def segmentRead (expectedGeneration : UInt64) (file : Bytes) : Except Status (SegmentFile × RawSegment) := do
  let (generation, bytes) ← readComponent fileTypeDocuments expectedGeneration file
  let payload ← parseDocuments.whole .invalidFormat bytes
  if validateSegmentViews (payload.documents.map DocumentView.document)
      (payload.passages.map PassageView.passage) ≠ .ok then .error .invalidFormat
  else do
    let id := bufferString payload.storedId
    let descriptor ← documentsDescriptor sha256 id payload.documents.length payload.passages.length file
    return (⟨id, generation, payload.documents, payload.passages⟩, descriptor)

end Documents

/-- `YAP_V2_tombstones_write`: the file. -/
def tombstonesWrite (generation : UInt64) (ids : List Bytes) : Except Status Bytes :=
  if generation = 0 then .error .invalidArgument
  else do
    let payload ← payloadCheck (validateTombstones [] ids) (encodeTombstones ids)
    writeComponent fileTypeTombstones generation payload

/-- The loop that reads the identifiers; `seen` are the ones before. -/
def parseTombstones : Nat → List Bytes → Reader Status (List Bytes)
  | 0, seen => pure seen
  | n + 1, seen => do
    let id ← readView
    Reader.require .invalidFormat (id ≠ [] ∧ id.length ≤ maxIdentifierBytes)
    Reader.require .duplicate (id ∉ seen)
    parseTombstones n (seen ++ [id])

/-- The payload of `tombstones.yap2`. -/
def parseTombstonesPayload : Reader Status (List Bytes) := do
  let version ← Reader.uint32 .invalidFormat
  let count ← Reader.uint64 .invalidFormat
  Reader.require .invalidFormat (version = 1 ∧ count.toNat ≤ maxSegmentDocuments)
  parseTombstones count.toNat []

/-- `YAP_V2_tombstones_read`, of a file that could be read. -/
def tombstonesRead (expectedGeneration : UInt64) (file : Bytes) : Except Status (List Bytes) := do
  let (_, bytes) ← readComponent fileTypeTombstones expectedGeneration file
  parseTombstonesPayload.whole .invalidFormat bytes

/-! ## What is asked of a file -/

/-- A file with a header for its payload. -/
def yap2File (fileType : UInt32) (generation : UInt64) (payload : Bytes) : Bytes :=
  (componentHeader fileType generation payload).bytes ++ payload

theorem componentHeader_valid {fileType : UInt32} (htype : fileHeaderTypeValid fileType = true)
    {generation : UInt64} (hgen : generation ≠ 0) (payload : Bytes) :
    (componentHeader fileType generation payload).valid = true := by
  rw [FileHeader.valid, decide_eq_true_eq]
  exact ⟨rfl, rfl, htype, hgen⟩

/-- **Which component files are accepted.** -/
theorem readComponent_eq_ok {fileType : UInt32} (htype : fileHeaderTypeValid fileType = true)
    {expected generation : UInt64} {file payload : Bytes} :
    readComponent fileType expected file = .ok (generation, payload) ↔
      (generation ≠ 0 ∧ (expected = 0 ∨ generation = expected) ∧ payload.length ≤ maxSegmentPayloadBytes) ∧
        file = yap2File fileType generation payload := by
  rw [readComponent]
  constructor
  · intro h
    split_ifs at h with hlong hshort
    obtain ⟨⟨header, bytes⟩, hheader, h⟩ := bind_eq_ok.mp h
    obtain ⟨hvalid, rfl⟩ := (exact_fileHeaderDecode _ _ _).mp hheader
    dsimp only at h
    split_ifs at h with hbad hcrc
    cases h
    rw [List.length_append, length_bytes] at hlong hbad
    rw [Nat.add_sub_cancel_left] at hbad
    push Not at hbad hcrc
    obtain ⟨rfl, hbytes, hexpected⟩ := hbad
    rw [FileHeader.valid, decide_eq_true_eq] at hvalid
    obtain ⟨hversion, hlen, -, hgen⟩ := hvalid
    refine ⟨⟨hgen, ?_, by omega⟩, ?_⟩
    · by_cases he : expected = 0
      · exact .inl he
      · exact .inr (hexpected he)
    · obtain ⟨v, hb, ty, gen, pb, crc⟩ := header
      have h₁ : v = 2 := UInt16.toNat_inj.mp hversion
      have h₂ : hb = 32 := UInt16.toNat_inj.mp hlen
      have h₃ : pb = UInt64.ofNat payload.length := by
        rw [← show pb.toNat = payload.length from hbytes, UInt64.ofNat_toNat]
      rw [yap2File, componentHeader, h₁, h₂, h₃, show crc32c payload = crc from hcrc]
  · rintro ⟨⟨hgen, hexpected, hsize⟩, rfl⟩
    have hlen : (yap2File fileType generation payload).length = fileHeaderBytes + payload.length := by
      rw [yap2File, List.length_append, length_bytes]
    have hpayload : (UInt64.ofNat payload.length).toNat = payload.length := UInt64.toNat_ofNat_of_lt' (by
      show payload.length < 2 ^ 64
      rw [maxSegmentPayloadBytes] at hsize
      omega)
    rw [if_neg (by omega), if_neg (by omega)]
    refine bind_eq_ok.mpr ⟨_, exact_fileHeaderDecode.run_encode (componentHeader_valid htype hgen payload) payload, ?_⟩
    dsimp only
    rw [if_neg]
    · exact if_neg (not_not.mpr rfl)
    · push Not
      refine ⟨rfl, ?_, fun he => hexpected.resolve_left he⟩
      rw [hlen, Nat.add_sub_cancel_left]
      exact hpayload

/-! ## Records -/

theorem exact_readView : Exact readView view fun v => v.length < 2 ^ 32 := by
  intro bs v rest
  simp only [readView, Reader.bind_eq_ok, exact_uint32 _ _ _ _, exact_take _ _ _ _ _, true_and, id]
  constructor
  · rintro ⟨n, _, rfl, hlen, rfl⟩
    exact ⟨hlen ▸ n.toNat_lt, by rw [view, hlen, List.append_assoc]⟩
  · rintro ⟨hlt, rfl⟩
    have hlen : (UInt32.ofNat v.length).toNat = v.length := ofNat_length hlt
    exact ⟨UInt32.ofNat v.length, v ++ rest, by rw [view, hlen, List.append_assoc], hlen.symm, rfl⟩

/-- The bits of a time. -/
theorem toNat_toUInt64 (x : Int64) : (x.toInt % 2 ^ 64).toNat = x.toUInt64.toNat := by
  have h₁ : x.toInt = x.toBitVec.toInt := rfl
  have h₂ : x.toUInt64.toNat = x.toBitVec.toNat := rfl
  have h₃ := x.toBitVec.isLt
  rw [h₁, h₂, BitVec.toInt_eq_toNat_cond]
  split <;> omega

/-- A time that is not negative. -/
theorem toUInt64_lt {x : Int64} : x.toUInt64.toNat < 2 ^ 63 ↔ 0 ≤ x.toInt := by
  have h₁ : x.toInt = x.toBitVec.toInt := rfl
  have h₂ : x.toUInt64.toNat = x.toBitVec.toNat := rfl
  have h₃ := x.toBitVec.isLt
  rw [h₁, h₂, BitVec.toInt_eq_toNat_cond]
  split <;> omega

/-- The body of a document's record. -/
def documentBody (d : DocumentView) : Bytes :=
  view d.id ++ (view d.url ++ (view d.title ++ (view d.body ++ (view d.metadataJson ++
    leBytes 8 d.updatedAtUnixMs.toUInt64.toNat))))

/-- The body of a passage's record. -/
def passageBody (p : PassageView) : Bytes :=
  view p.id ++ (view p.parentDocumentId ++ (view p.text ++ (leBytes 4 p.ordinal.toNat ++
    (leBytes 4 p.startChar.toNat ++ leBytes 4 p.endChar.toNat))))

theorem documentRecord_document (d : DocumentView) : documentRecord d.document = record 1 (documentBody d) := by
  rw [documentRecord, documentBody, ← toNat_toUInt64]
  rfl

theorem passageRecord_passage (p : PassageView) : passageRecord p.passage = record 2 (passageBody p) := rfl

/-- The lengths of a document's texts, which a record has room for. -/
structure DocumentView.Fits (d : DocumentView) : Prop where
  id : d.id.length < 2 ^ 32
  url : d.url.length < 2 ^ 32
  title : d.title.length < 2 ^ 32
  body : d.body.length < 2 ^ 32
  metadataJson : d.metadataJson.length < 2 ^ 32
  updatedAt : 0 ≤ d.updatedAtUnixMs.toInt

structure PassageView.Fits (p : PassageView) : Prop where
  id : p.id.length < 2 ^ 32
  parentDocumentId : p.parentDocumentId.length < 2 ^ 32
  text : p.text.length < 2 ^ 32

theorem exact_parseDocument : Exact parseDocument documentBody DocumentView.Fits := by
  intro bs d rest
  simp only [parseDocument, Reader.bind_eq_ok, exact_readView _ _ _, exact_uint64 _ _ _ _, Reader.require_eq_ok,
    decide_eq_true_eq, true_and]
  constructor
  · rintro ⟨id, _, ⟨hid, rfl⟩, url, _, ⟨hurl, rfl⟩, title, _, ⟨htitle, rfl⟩, body, _, ⟨hbody, rfl⟩, metadata, _,
      ⟨hmetadata, rfl⟩, updated, _, rfl, _, _, ⟨hupdated, h₁⟩, hout⟩
    cases h₁
    cases hout
    exact ⟨⟨hid, hurl, htitle, hbody, hmetadata, toUInt64_lt.mp hupdated⟩,
      by simp only [documentBody, List.append_assoc, UInt64.toUInt64_toInt64]⟩
  · rintro ⟨h, rfl⟩
    simp only [documentBody, List.append_assoc]
    refine ⟨_, _, ⟨h.id, rfl⟩, _, _, ⟨h.url, rfl⟩, _, _, ⟨h.title, rfl⟩, _, _, ⟨h.body, rfl⟩, _, _,
      ⟨h.metadataJson, rfl⟩, d.updatedAtUnixMs.toUInt64, _, rfl, _, _, ⟨toUInt64_lt.mpr h.updatedAt, rfl⟩, ?_⟩
    rw [Int64.toInt64_toUInt64]
    rfl

theorem exact_parsePassage : Exact parsePassage passageBody PassageView.Fits := by
  intro bs p rest
  simp only [parsePassage, Reader.bind_eq_ok, exact_readView _ _ _, exact_uint32 _ _ _ _, true_and]
  constructor
  · rintro ⟨id, _, ⟨hid, rfl⟩, parent, _, ⟨hparent, rfl⟩, text, _, ⟨htext, rfl⟩, ordinal, _, rfl, start, _, rfl,
      stop, _, rfl, hout⟩
    cases hout
    exact ⟨⟨hid, hparent, htext⟩, by simp only [passageBody, List.append_assoc]⟩
  · rintro ⟨h, rfl⟩
    simp only [passageBody, List.append_assoc]
    exact ⟨_, _, ⟨h.id, rfl⟩, _, _, ⟨h.parentDocumentId, rfl⟩, _, _, ⟨h.text, rfl⟩, _, _, rfl, _, _, rfl, _, _, rfl,
      rfl⟩

theorem exact_readRecord {α : Type} {body : Reader Status α} {encode : α → Bytes} {ok : α → Prop}
    (h : Exact body encode ok) (type : UInt32) :
    Exact (readRecord type body) (fun a => record type.toNat (encode a))
      fun a => ok a ∧ (encode a).length < 2 ^ 32 := by
  intro bs a rest
  simp only [readRecord, Reader.bind_eq_ok, exact_uint32 _ _ _ _, exact_take _ _ _ _ _, Reader.require_eq_ok,
    Reader.lift_eq_ok, whole_eq_ok h, decide_eq_true_eq, true_and, id]
  constructor
  · rintro ⟨ty, _, rfl, n, _, rfl, bytes, _, ⟨hlen, rfl⟩, _, _, ⟨rfl, h₁⟩, ⟨hok, rfl⟩, h₂⟩
    cases h₁
    cases h₂
    exact ⟨⟨hok, hlen ▸ n.toNat_lt⟩, by simp only [record, hlen, List.append_assoc]⟩
  · rintro ⟨⟨hok, hlt⟩, rfl⟩
    have hlen : (UInt32.ofNat (encode a).length).toNat = (encode a).length := ofNat_length hlt
    simp only [record, List.append_assoc]
    exact ⟨type, _, rfl, UInt32.ofNat (encode a).length, _, by rw [hlen], encode a, _, ⟨hlen.symm, rfl⟩, _, _,
      ⟨rfl, rfl⟩, ⟨hok, rfl⟩, rfl⟩

/-! ## The documents of a segment -/

/-- The bytes of a payload. -/
def DocumentsPayload.bytes (c : DocumentsPayload) : Bytes :=
  encodeDocuments c.storedId (c.documents.map DocumentView.document) (c.passages.map PassageView.passage)

/-- What is asked of a payload, the validation of its views apart. -/
structure DocumentsPayload.Ok (c : DocumentsPayload) : Prop where
  id_ne_nil : c.storedId ≠ []
  id_length : c.storedId.length ≤ maxIdentifierBytes
  id_valid : segmentIdValidate (bufferString c.storedId) = .ok
  documentCount : c.documents.length ≤ maxSegmentDocuments
  passageCount : c.passages.length ≤ maxSegmentPassages
  documents : ∀ d ∈ c.documents, d.Fits ∧ (documentBody d).length < 2 ^ 32
  passages : ∀ p ∈ c.passages, p.Fits ∧ (passageBody p).length < 2 ^ 32

theorem DocumentsPayload.bytes_eq (c : DocumentsPayload) : c.bytes =
    leBytes 4 1 ++ (leBytes 4 c.storedId.length ++ (c.storedId ++ (leBytes 8 c.documents.length ++
      (leBytes 8 c.passages.length ++ ((c.documents.flatMap fun d => record 1 (documentBody d)) ++
        c.passages.flatMap fun p => record 2 (passageBody p)))))) := by
  simp only [DocumentsPayload.bytes, encodeDocuments, List.length_map, List.flatMap_map, documentRecord_document,
    passageRecord_passage]

theorem exact_parseDocuments : Exact parseDocuments DocumentsPayload.bytes DocumentsPayload.Ok := by
  intro bs c rest
  simp only [parseDocuments, Reader.bind_eq_ok, exact_uint32 _ _ _ _, exact_uint64 _ _ _ _, exact_take _ _ _ _ _,
    Reader.require_eq_ok, exact_many (exact_readRecord exact_parseDocument 1) _ _ _ _,
    exact_many (exact_readRecord exact_parsePassage 2) _ _ _ _, decide_eq_true_eq, true_and, id,
    DocumentsPayload.bytes_eq]
  constructor
  · rintro ⟨version, _, rfl, idBytes, _, rfl, _, _, ⟨⟨rfl, hidne, hidle⟩, h₁⟩, sid, _, ⟨hlen, rfl⟩, _, _, ⟨hvalid, h₂⟩,
      dc, _, rfl, pc, _, rfl, _, _, ⟨⟨hdc, hpc⟩, h₃⟩, ds, _, ⟨⟨hds, hdsOk⟩, rfl⟩, ps, _, ⟨⟨hps, hpsOk⟩, rfl⟩, hout⟩
    cases h₁
    cases h₂
    cases h₃
    cases hout
    refine ⟨⟨?_, hlen ▸ hidle, hvalid, hds ▸ hdc, hps ▸ hpc, hdsOk, hpsOk⟩, ?_⟩
    · rintro rfl
      exact hidne (UInt32.toNat_inj.mp hlen.symm)
    · rw [hlen, hds, hps]
      simp only [List.append_assoc]
      rfl
  · rintro ⟨h, rfl⟩
    have hid : (UInt32.ofNat c.storedId.length).toNat = c.storedId.length :=
      ofNat_length (lt_of_le_of_lt h.id_length (by decide))
    have hdc : (UInt64.ofNat c.documents.length).toNat = c.documents.length :=
      UInt64.toNat_ofNat_of_lt' (lt_of_le_of_lt h.documentCount (by decide))
    have hpc : (UInt64.ofNat c.passages.length).toNat = c.passages.length :=
      UInt64.toNat_ofNat_of_lt' (lt_of_le_of_lt h.passageCount (by decide))
    simp only [List.append_assoc]
    refine ⟨1, _, rfl, UInt32.ofNat c.storedId.length, _, by rw [hid], _, _,
      ⟨⟨rfl, fun h0 => h.id_ne_nil ?_, by rw [hid]; exact h.id_length⟩, rfl⟩, c.storedId, _, ⟨hid.symm, rfl⟩, _, _, ⟨h.id_valid, rfl⟩,
      UInt64.ofNat c.documents.length, _, by rw [hdc], UInt64.ofNat c.passages.length, _, by rw [hpc]; rfl, _, _,
      ⟨⟨by rw [hdc]; exact h.documentCount, by rw [hpc]; exact h.passageCount⟩, rfl⟩, c.documents, _, ⟨⟨hdc.symm, h.documents⟩, rfl⟩,
      c.passages, _, ⟨⟨hpc.symm, h.passages⟩, rfl⟩, rfl⟩
    rw [h0] at hid
    exact List.eq_nil_of_length_eq_zero hid.symm

theorem documentValidate_of_mem {seen : List Bytes} {ds : List Document} (h : validateDocuments seen ds = .ok) :
    ∀ d ∈ ds, documentValidate d = .ok := by
  induction ds generalizing seen with
  | nil => simp
  | cons d ds ih =>
    rw [validateDocuments, Status.next_eq_ok] at h
    obtain ⟨hd, h⟩ := h
    split at h
    · cases h
    · exact List.forall_mem_cons.mpr ⟨hd, ih h⟩

theorem passageValidate_of_mem {documentIds : List Bytes} {seen ps : List Passage}
    (h : validatePassages documentIds seen ps = .ok) : ∀ p ∈ ps, passageValidate p = .ok := by
  induction ps generalizing seen with
  | nil => simp
  | cons p ps ih =>
    rw [validatePassages, Status.next_eq_ok] at h
    obtain ⟨hp, h⟩ := h
    split at h
    · cases h
    · split at h
      · cases h
      · exact List.forall_mem_cons.mpr ⟨hp, ih h⟩

theorem DocumentView.fits {d : DocumentView} (h : documentValidate d.document = .ok) :
    d.Fits ∧ (documentBody d).length < 2 ^ 32 := by
  simp only [documentValidate, Status.next_eq_ok] at h
  obtain ⟨hid, hurl, htitle, hbody, hmetadata, hupdated⟩ := h
  have h₁ : d.id.length ≤ 255 := length_le_of_bytesViewValidate hid
  have h₂ : d.url.length ≤ 8 * 1024 := length_le_of_bytesViewValidate hurl
  have h₃ : d.title.length ≤ 255 := length_le_of_bytesViewValidate htitle
  have h₄ : d.body.length ≤ 1024 * 1024 := length_le_of_bytesViewValidate hbody
  have h₅ : d.metadataJson.length ≤ 1024 * 1024 := length_le_of_bytesViewValidate hmetadata
  refine ⟨⟨by omega, by omega, by omega, by omega, by omega, ?_⟩, ?_⟩
  · split at hupdated
    · cases hupdated
    · rename_i hnonneg
      exact Int.not_lt.mp hnonneg
  · simp only [documentBody, List.length_append, length_view, viewBytes, length_leBytes]
    omega

theorem PassageView.fits {p : PassageView} (h : passageValidate p.passage = .ok) :
    p.Fits ∧ (passageBody p).length < 2 ^ 32 := by
  simp only [passageValidate, Status.next_eq_ok] at h
  obtain ⟨hid, hparent, htext, -⟩ := h
  have h₁ : p.id.length ≤ 255 := length_le_of_bytesViewValidate hid
  have h₂ : p.parentDocumentId.length ≤ 255 := length_le_of_bytesViewValidate hparent
  have h₃ : p.text.length ≤ 1024 * 1024 := length_le_of_bytesViewValidate htext
  refine ⟨⟨by omega, by omega, by omega⟩, ?_⟩
  simp only [passageBody, List.length_append, length_view, viewBytes, length_leBytes]
  omega

theorem payloadCheck_ok_iff {checks : Status} {payload out : Bytes} :
    payloadCheck checks payload = .ok out ↔
      checks = .ok ∧ payload.length ≤ maxSegmentPayloadBytes ∧ out = payload := by
  rw [payloadCheck]
  split
  · rename_i hchecks
    exact iff_of_false (by simp) fun h => hchecks h.1
  · rename_i hchecks
    rw [and_iff_right (not_not.mp hchecks)]
    split
    · rename_i hsize
      exact iff_of_false (by simp) fun h => absurd h.1 (Nat.not_le.mpr hsize)
    · rename_i hsize
      rw [and_iff_right (Nat.not_lt.mp hsize), Except.ok.injEq]
      exact eq_comm

/-- Views that pass `validate_segment_views` make a payload that is read. -/
theorem DocumentsPayload.ok_of_valid {id : CString} {ds : List DocumentView} {ps : List PassageView}
    (hid : segmentIdValidate id = .ok)
    (h : validateSegmentViews (ds.map DocumentView.document) (ps.map PassageView.passage) = .ok) :
    DocumentsPayload.Ok ⟨id.bytes, ds, ps⟩ := by
  rw [validateSegmentViews] at h
  split_ifs at h with hcounts
  rw [List.length_map, List.length_map, not_or, Nat.not_lt, Nat.not_lt] at hcounts
  obtain ⟨hds, hps⟩ := Status.next_eq_ok.mp h
  have hlen := hid
  rw [segmentIdValidate] at hlen
  split_ifs at hlen with hbad
  push Not at hbad
  refine ⟨fun hnil => hbad.2 (by rw [show id.bytes = [] from hnil]; rfl), hbad.1, ?_, hcounts.1, hcounts.2,
    fun d hd => ?_, fun p hp => ?_⟩
  · rw [show bufferString id.bytes = id from bufferString_bytes id]
    exact hid
  · exact DocumentView.fits (documentValidate_of_mem hds _ (List.mem_map_of_mem hd))
  · exact PassageView.fits (passageValidate_of_mem hps _ (List.mem_map_of_mem hp))

section Documents

variable (sha256 : Bytes → ByteArrayOf 32)

/-- **What is read**: the files of payloads with valid views, and nothing else. -/
theorem segmentRead_eq_ok {expected : UInt64} {file : Bytes} {contents : SegmentFile} {descriptor : RawSegment} :
    segmentRead sha256 expected file = .ok (contents, descriptor) ↔ ∃ c : DocumentsPayload,
      c.Ok ∧ validateSegmentViews (c.documents.map DocumentView.document) (c.passages.map PassageView.passage) = .ok ∧
        (contents.generation ≠ 0 ∧ (expected = 0 ∨ contents.generation = expected) ∧
          c.bytes.length ≤ maxSegmentPayloadBytes) ∧
        file = yap2File fileTypeDocuments contents.generation c.bytes ∧
        contents = ⟨bufferString c.storedId, contents.generation, c.documents, c.passages⟩ ∧
        documentsDescriptor sha256 (bufferString c.storedId) c.documents.length c.passages.length file =
          .ok descriptor := by
  have htype : fileHeaderTypeValid fileTypeDocuments = true := by decide
  rw [segmentRead]
  constructor
  · intro h
    obtain ⟨⟨generation, bytes⟩, hcomponent, h⟩ := bind_eq_ok.mp h
    obtain ⟨hgeneration, hfile⟩ := (readComponent_eq_ok htype).mp hcomponent
    obtain ⟨c, hc, hrest⟩ := bind_eq_ok.mp h
    obtain ⟨hok, rfl⟩ := (whole_eq_ok exact_parseDocuments).mp hc
    split_ifs at hrest with hviews
    obtain ⟨d, hd, hout⟩ := bind_eq_ok.mp hrest
    cases hout
    exact ⟨c, hok, not_not.mp hviews, hgeneration, hfile, rfl, hd⟩
  · rintro ⟨c, hok, hviews, hgeneration, hfile, hcontents, hd⟩
    refine bind_eq_ok.mpr ⟨(contents.generation, c.bytes), (readComponent_eq_ok htype).mpr ⟨hgeneration, hfile⟩, ?_⟩
    refine bind_eq_ok.mpr ⟨c, (whole_eq_ok exact_parseDocuments).mpr ⟨hok, rfl⟩, ?_⟩
    rw [if_neg (not_not.mpr hviews)]
    refine bind_eq_ok.mpr ⟨descriptor, hd, ?_⟩
    rw [hcontents]
    rfl

/-- **What is written is read back**, with the same descriptor. -/
theorem segmentRead_segmentWrite {segmentId : CString} {generation expected : UInt64}
    {documents : List DocumentView} {passages : List PassageView} {file : Bytes} {descriptor : RawSegment}
    (hexpected : expected = 0 ∨ expected = generation)
    (h : segmentWrite sha256 segmentId generation documents passages = .ok (file, descriptor)) :
    segmentRead sha256 expected file = .ok (⟨segmentId, generation, documents, passages⟩, descriptor) := by
  rw [segmentWrite] at h
  split_ifs at h with hgen hid
  obtain ⟨payload, hpayload, h⟩ := bind_eq_ok.mp h
  obtain ⟨hviews, hsize, rfl⟩ := payloadCheck_ok_iff.mp hpayload
  obtain ⟨file', hfile, h⟩ := bind_eq_ok.mp h
  obtain ⟨-, rfl⟩ := writeComponent_eq_ok.mp hfile
  obtain ⟨d, hd, h⟩ := bind_eq_ok.mp h
  cases h
  have hok := DocumentsPayload.ok_of_valid (not_not.mp hid) hviews
  refine (segmentRead_eq_ok sha256).mpr ⟨_, hok, hviews, ⟨hgen, hexpected.imp_right Eq.symm, hsize⟩, rfl, ?_, ?_⟩
  · rw [bufferString_bytes]
  · rw [bufferString_bytes]
    exact hd

/-- The bytes of the segment's name, where the file has them. -/
def storedId (file : Bytes) : Bytes := (file.drop 40).take (leValue ((file.drop 36).take 4))

theorem storedId_yap2File {fileType : UInt32} {generation : UInt64} {c : DocumentsPayload} (h : c.Ok) :
    storedId (yap2File fileType generation c.bytes) = c.storedId := by
  have hstands := stands_end (componentHeader fileType generation c.bytes).bytes c.bytes
  change Stands (yap2File fileType generation c.bytes) _ _ at hstands
  generalize yap2File fileType generation c.bytes = file at hstands
  rw [length_bytes, fileHeaderBytes, DocumentsPayload.bytes_eq, stands_append, stands_append, stands_append,
    length_leBytes, length_leBytes] at hstands
  obtain ⟨-, hlength, hid, -⟩ := hstands
  have hlen := (hlength.leValue (lt_of_le_of_lt h.id_length (by decide))).2
  rw [storedId, hlen]
  exact hid.2

/-- A payload that is cut at a NUL in the name is not the same. -/
theorem encodeDocuments_bufferString_eq {sid : Bytes} {ds : List Document} {ps : List Passage} :
    encodeDocuments (bufferString sid).bytes ds ps = encodeDocuments sid ds ps ↔ 0 ∉ sid := by
  rw [← bufferString_bytes_eq]
  constructor
  · intro h
    have hlength := congrArg List.length h
    simp only [encodeDocuments, List.length_append, length_leBytes] at hlength
    have hshort : (bufferString sid).bytes <+: sid := List.takeWhile_prefix _
    exact hshort.eq_of_length (by omega)
  · intro h
    rw [h]

/-- **The codec of `documents.yap2`.**  What is written is read back.  What is read encodes to the payload of
the file if and only if the name of the segment is stored without a NUL. -/
theorem documents_codec :
    (∀ (segmentId : CString) (generation expected : UInt64) (documents : List DocumentView)
        (passages : List PassageView) (file : Bytes) (descriptor : RawSegment),
      expected = 0 ∨ expected = generation →
      segmentWrite sha256 segmentId generation documents passages = .ok (file, descriptor) →
      segmentRead sha256 expected file = .ok (⟨segmentId, generation, documents, passages⟩, descriptor)) ∧
    (∀ (expected : UInt64) (file : Bytes) (contents : SegmentFile) (descriptor : RawSegment),
      segmentRead sha256 expected file = .ok (contents, descriptor) →
      (encodeDocuments contents.id.bytes (contents.documents.map DocumentView.document)
          (contents.passages.map PassageView.passage) = file.drop fileHeaderBytes ↔ 0 ∉ storedId file)) := by
  refine ⟨fun _ _ _ _ _ _ _ hexpected h => segmentRead_segmentWrite sha256 hexpected h,
    fun expected file contents descriptor h => ?_⟩
  obtain ⟨c, hok, -, -, hfile, hcontents, -⟩ := (segmentRead_eq_ok sha256).mp h
  have hdrop : file.drop fileHeaderBytes = c.bytes := by
    rw [hfile, yap2File, ← length_bytes (componentHeader fileTypeDocuments contents.generation c.bytes),
      List.drop_left]
  have hid : storedId file = c.storedId := by
    rw [hfile]
    exact storedId_yap2File hok
  rw [hdrop, hid, hcontents]
  exact encodeDocuments_bufferString_eq

end Documents

/-- A document with a passage. -/
def documentSample : DocumentView := ⟨[97], [], [98], [99, 100], [], 5⟩

def passageSample : PassageView := ⟨[97, 48], [97], [99, 100], 0, 0, 2⟩

theorem documents_codec_sample :
    ∃ (sha256 : Bytes → ByteArrayOf 32) (file : Bytes) (descriptor : RawSegment),
      segmentWrite sha256 ⟨[115], by decide⟩ 1 [documentSample] [passageSample] = .ok (file, descriptor) ∧
      segmentRead sha256 1 file = .ok (⟨⟨[115], by decide⟩, 1, [documentSample], [passageSample]⟩, descriptor) ∧
      (encodeDocuments [115] [documentSample.document] [passageSample.passage] = file.drop fileHeaderBytes ↔
        0 ∉ storedId file) := by
  let sha256 : Bytes → ByteArrayOf 32 := fun _ => ⟨List.replicate 32 0, rfl⟩
  have hok : (segmentWrite sha256 ⟨[115], by decide⟩ 1 [documentSample] [passageSample]).isOk = true := by
    decide +kernel
  cases hwrite : segmentWrite sha256 ⟨[115], by decide⟩ 1 [documentSample] [passageSample] with
  | error e =>
    rw [hwrite] at hok
    cases hok
  | ok out =>
    obtain ⟨file, descriptor⟩ := out
    have hread := (documents_codec sha256).1 _ _ 1 _ _ file descriptor (.inr rfl) hwrite
    exact ⟨sha256, file, descriptor, hwrite, hread, (documents_codec sha256).2 _ _ _ _ hread⟩

/-- A file whose name of the segment is stored as `a`, a NUL and `b`. -/
def nulFile : Bytes := yap2File fileTypeDocuments 1 (DocumentsPayload.bytes ⟨[97, 0, 98], [], []⟩)

/-- The name that is returned is `a`, and with it the payload is another one. -/
theorem documents_reencode_differs :
    ∃ contents, (∀ sha256, ∃ descriptor, segmentRead sha256 0 nulFile = .ok (contents, descriptor)) ∧
      encodeDocuments contents.id.bytes (contents.documents.map DocumentView.document)
        (contents.passages.map PassageView.passage) ≠ nulFile.drop fileHeaderBytes := by
  refine ⟨⟨⟨[97], by decide⟩, 1, [], []⟩, fun sha256 => ?_, by decide +kernel⟩
  have hok : DocumentsPayload.Ok ⟨[97, 0, 98], [], []⟩ :=
    ⟨by decide, by decide, by decide, by decide, by decide, by simp, by simp⟩
  exact ⟨_, (segmentRead_eq_ok sha256).mpr ⟨_, hok, rfl, ⟨by decide, .inl rfl, by decide⟩, rfl, rfl, rfl⟩⟩

/-! ## Tombstones -/

/-- An identifier that a tombstone may have. -/
def TombstoneId (id : Bytes) : Prop := id ≠ [] ∧ id.length ≤ maxIdentifierBytes

theorem nodup_snoc {α : Type} {l : List α} {a : α} : (l ++ [a]).Nodup ↔ l.Nodup ∧ a ∉ l := by
  rw [List.nodup_append]
  constructor
  · rintro ⟨hl, -, hdisjoint⟩
    exact ⟨hl, fun ha => hdisjoint a ha a (List.mem_singleton_self a) rfl⟩
  · rintro ⟨hl, ha⟩
    refine ⟨hl, List.nodup_singleton a, fun b hb c hc hbc => ha ?_⟩
    rw [List.mem_singleton] at hc
    exact hc ▸ hbc ▸ hb

theorem validateTombstones_eq_ok {seen ids : List Bytes} (hseen : seen.Nodup) :
    validateTombstones seen ids = .ok ↔ (∀ id ∈ ids, TombstoneId id) ∧ (seen ++ ids).Nodup := by
  induction ids generalizing seen with
  | nil => simpa [validateTombstones] using hseen
  | cons id ids ih =>
    rw [validateTombstones, List.forall_mem_cons, List.append_cons seen id ids]
    split
    · rename_i hbad
      refine iff_of_false (fun h => by cases h) fun h => ?_
      rcases hbad with hnil | hlong
      · exact h.1.1.1 hnil
      · exact absurd h.1.1.2 (Nat.not_le.mpr hlong)
    · rename_i hgood
      rw [not_or, Nat.not_lt] at hgood
      split
      · rename_i hdup
        refine iff_of_false (fun h => by cases h) fun h => ?_
        exact (nodup_snoc.mp (List.nodup_append.mp h.2).1).2 hdup
      · rename_i hnew
        have hnodup : (seen ++ [id]).Nodup := nodup_snoc.mpr ⟨hseen, hnew⟩
        rw [ih hnodup]
        exact ⟨fun h => ⟨⟨hgood, h.1⟩, h.2⟩, fun h => ⟨h.1.2, h.2⟩⟩

theorem parseTombstones_eq_ok {n : Nat} {seen out : List Bytes} {bs rest : Bytes} (hseen : seen.Nodup) :
    (parseTombstones n seen).run bs = .ok (out, rest) ↔ ∃ ids, ids.length = n ∧ (∀ id ∈ ids, TombstoneId id) ∧
      (seen ++ ids).Nodup ∧ out = seen ++ ids ∧ bs = ids.flatMap view ++ rest := by
  induction n generalizing seen bs out with
  | zero =>
    constructor
    · rintro ⟨⟩
      exact ⟨[], rfl, by simp, by simpa using hseen, (List.append_nil _).symm, rfl⟩
    · rintro ⟨ids, hlen, -, -, rfl, rfl⟩
      obtain rfl := List.eq_nil_of_length_eq_zero hlen
      rw [List.append_nil]
      rfl
  | succ n ih =>
    simp only [parseTombstones, Reader.bind_eq_ok, exact_readView _ _ _, Reader.require_eq_ok, decide_eq_true_eq]
    constructor
    · rintro ⟨id, _, ⟨-, rfl⟩, _, _, ⟨hid, h₁⟩, _, _, ⟨hnew, h₂⟩, h⟩
      cases h₁
      cases h₂
      have hnodup : (seen ++ [id]).Nodup := nodup_snoc.mpr ⟨hseen, hnew⟩
      obtain ⟨ids, hlen, hids, hall, rfl, rfl⟩ := (ih hnodup).mp h
      refine ⟨id :: ids, by rw [List.length_cons, hlen], List.forall_mem_cons.mpr ⟨hid, hids⟩, ?_, ?_, ?_⟩
      · rw [List.append_cons]
        exact hall
      · rw [List.append_cons seen id ids]
      · rw [List.flatMap_cons, List.append_assoc]
    · rintro ⟨ids, hlen, hids, hall, rfl, rfl⟩
      obtain ⟨id, ids, rfl⟩ := List.exists_cons_of_length_eq_add_one hlen
      rw [List.forall_mem_cons] at hids
      rw [List.append_cons seen id ids] at hall ⊢
      have hnodup := (List.nodup_append.mp hall).1
      have hnew : id ∉ seen := (nodup_snoc.mp hnodup).2
      refine ⟨id, _, ⟨lt_of_le_of_lt hids.1.2 (by decide), by rw [List.flatMap_cons, List.append_assoc]⟩, _, _,
        ⟨hids.1, rfl⟩, _, _, ⟨hnew, rfl⟩, ?_⟩
      exact (ih hnodup).mpr ⟨ids, Nat.succ_injective hlen, hids.2, hall, rfl, rfl⟩

theorem exact_parseTombstonesPayload : Exact parseTombstonesPayload encodeTombstones fun ids =>
    ids.length ≤ maxSegmentDocuments ∧ (∀ id ∈ ids, TombstoneId id) ∧ ids.Nodup := by
  intro bs ids rest
  simp only [parseTombstonesPayload, Reader.bind_eq_ok, exact_uint32 _ _ _ _, exact_uint64 _ _ _ _,
    Reader.require_eq_ok, parseTombstones_eq_ok List.nodup_nil, decide_eq_true_eq, true_and, List.nil_append]
  constructor
  · rintro ⟨version, _, rfl, count, _, rfl, _, _, ⟨⟨rfl, hcount⟩, h₁⟩, ids, hlen, hids, hnodup, rfl, h₂⟩
    cases h₁
    subst h₂
    refine ⟨⟨hlen ▸ hcount, hids, hnodup⟩, ?_⟩
    rw [encodeTombstones, hlen]
    simp only [List.append_assoc]
    rfl
  · rintro ⟨⟨hcount, hids, hnodup⟩, rfl⟩
    have hlen : (UInt64.ofNat ids.length).toNat = ids.length :=
      UInt64.toNat_ofNat_of_lt' (lt_of_le_of_lt hcount (by decide))
    simp only [encodeTombstones, List.append_assoc]
    exact ⟨1, _, rfl, UInt64.ofNat ids.length, _, by rw [hlen], _, _, ⟨⟨rfl, by rw [hlen]; exact hcount⟩, rfl⟩, ids,
      hlen.symm, hids, hnodup, rfl, rfl⟩

end Yappod

import Yappod.Components.LexicalCorpus

/-!
# The files of a slice, byte by byte

`YAP_V2_segment_slice_write` writes `documents.yap2`, the three lexical files, `metadata.yap2`, `vectors.yap2`
and `tombstones.yap2`, as far as the slice has anything to go into them.  Elsewhere a payload is kept as
what it encodes, with a number for its size; here are the bytes of the payloads, and their lengths.

A buffer refuses to grow above `YAP_V2_MAX_SEGMENT_PAYLOAD_BYTES`.  The payloads are built without that limit,
and measured at the end (`payloadCheck`).
-/

set_option autoImplicit false

namespace Yappod

/-! ## Documents -/

/-- `buffer_append_bytes_view`. -/
def view (v : Bytes) : Bytes := leBytes 4 v.length ++ v

/-- A record: its type, the length of its body, and its body. -/
def record (type : Nat) (body : Bytes) : Bytes := leBytes 4 type ++ (leBytes 4 body.length ++ body)

/-- `append_document_record`. -/
def documentRecord (d : Document) : Bytes :=
  record 1 (view d.id ++ (view d.url ++ (view d.title ++ (view d.body ++ (view d.metadataJson ++
    leBytes 8 (d.updatedAtUnixMs % 2 ^ 64).toNat)))))

/-- `append_passage_record`. -/
def passageRecord (p : Passage) : Bytes :=
  record 2 (view p.id ++ (view p.parentDocumentId ++ (view p.text ++ (leBytes 4 p.ordinal ++
    (leBytes 4 p.startChar ++ leBytes 4 p.endChar)))))

/-- The payload of `YAP_V2_segment_write`. -/
def encodeDocuments (segmentId : Bytes) (ds : List Document) (ps : List Passage) : Bytes :=
  leBytes 4 1 ++ (leBytes 4 segmentId.length ++ (segmentId ++ (leBytes 8 ds.length ++
    (leBytes 8 ps.length ++ (ds.flatMap documentRecord ++ ps.flatMap passageRecord)))))

/-! ## Metadata -/

def MetadataType.code : MetadataType → Nat
  | .null => 1
  | .bool => 2
  | .number => 3
  | .string => 4

/-- `append_scalar`, for the document of that ordinal. -/
def scalarRecord (document : Nat) (s : MetadataScalar) : Bytes :=
  leBytes 4 s.field ++ (leBytes 8 document ++ (leBytes 4 s.type.code ++ (leBytes 4 s.text.length ++
    s.text)))

/-- The scalars of the documents, from the `i`-th on. -/
def scalarRecords : Nat → List (List MetadataScalar) → Bytes
  | _, [] => []
  | i, scalars :: rest => scalars.flatMap (scalarRecord i) ++ scalarRecords (i + 1) rest

/-- The payload of `YAP_V2_metadata_write_preparsed`. -/
def encodeMetadata (fields : List Bytes) (scalars : List (List MetadataScalar)) : Bytes :=
  leBytes 4 1 ++ (leBytes 4 fields.length ++ (leBytes 8 scalars.length ++
    (leBytes 8 (scalars.map List.length).sum ++ (fields.flatMap view ++ scalarRecords 0 scalars))))

/-! ## Vectors -/

def VectorMetric.code : VectorMetric → Nat
  | .disabled => 0
  | .cosine => 1
  | .dot => 2
  | .l2 => 3

/-- The records of the identifiers; `offset` counts the bytes of those before. -/
def idRecords : Nat → List Bytes → Bytes
  | _, [] => []
  | offset, id :: ids =>
    leBytes 8 offset ++ (leBytes 4 id.length ++ leBytes 4 0) ++ idRecords (offset + id.length) ids

/-- What `YAP_V2_vectors_write` appends before the numbers, the padding apart. -/
def vectorsHead (cfg : Config) (ids : List Bytes) (vectorOffset : Nat) : Bytes :=
  leBytes 4 1 ++ (leBytes 4 cfg.vectorMetric.code ++ (leBytes 4 cfg.vectorDimensions ++
    (leBytes 4 cfg.vectorModelId.length ++ (leBytes 8 ids.length ++ (leBytes 8 ids.flatten.length ++
      (leBytes 8 vectorOffset ++ (cfg.vectorModelId ++ (idRecords 0 ids ++ ids.flatten))))))))

/-- The payload of `YAP_V2_vectors_write`.  The offset of the numbers is filled in at the end; it is eight
bytes long whatever it is. -/
def encodeVectors (cfg : Config) (rows : List (Passage × List Scalar)) : Bytes :=
  let ids := rows.map fun r => r.1.id
  let offset := alignFloat (vectorsHead cfg ids 0).length
  vectorsHead cfg ids offset ++
    (List.replicate (offset - (vectorsHead cfg ids 0).length) 0 ++
      rows.flatMap fun r => r.2.flatMap fun x => leBytes 4 x.toNat)

/-- The `j`-th row of a unit's vectors, which are one array of numbers. -/
def vectorRow (cfg : Config) (vs : List (List Scalar)) (j : Nat) : List Scalar :=
  (List.range cfg.vectorDimensions).map fun k => (vs.getD j []).getD k 0

/-- The passages of a list of units, each with its vector. -/
def unitRows (cfg : Config) : List SegmentUnit → List (Passage × List Scalar)
  | [] => []
  | .document _ ps vs :: us => ps.mapIdx (fun j p => (p, vectorRow cfg vs j)) ++ unitRows cfg us
  | .tombstone _ :: us => unitRows cfg us

/-! ## Tombstones -/

/-- The payload of `YAP_V2_tombstones_write`. -/
def encodeTombstones (ids : List Bytes) : Bytes :=
  leBytes 4 1 ++ (leBytes 8 ids.length ++ ids.flatMap view)

/-! ## A slice -/

/-- The checks before a payload is written, and its size. -/
def payloadCheck (checks : Status) (payload : Bytes) : Except Status Bytes :=
  if checks ≠ .ok then .error checks
  else if maxSegmentPayloadBytes < payload.length then .error .segmentCapacityExceeded
  else .ok payload

section Slice

variable (env : Env) (cfg : Config)

/-- The payloads of `YAP_V2_lexical_write_prepared`. -/
def encodeLexical (us : List SegmentUnit) : LexicalMaps :=
  buildPayloads (sliceOccurrences env us) (unitDocuments us).length (unitPassages us).length
    ⟨fieldFrequency (sliceOccurrences env us) .title, fieldFrequency (sliceOccurrences env us) .body,
      fieldFrequency (sliceOccurrences env us) .passage⟩

/-- The payloads of the lexical files and of `metadata.yap2`, which only a slice with documents has. -/
def writeTexts (us : List SegmentUnit) : Except Status (List Bytes) :=
  if unitDocuments us = [] then .ok [[], [], [], []]
  else do
    let terms ← payloadCheck .ok (encodeLexical env us).terms
    let postings ← payloadCheck .ok (encodeLexical env us).postings
    let positions ← payloadCheck .ok (encodeLexical env us).positions
    let metadata ← payloadCheck (validateMetadata env cfg (unitDocuments us))
      (encodeMetadata cfg.filterableFields (unitMetadata env cfg us))
    return [terms, postings, positions, metadata]

/-- The payload of `vectors.yap2`, if vectors are enabled and there are passages. -/
def writeVectors (us : List SegmentUnit) : Except Status Bytes :=
  if cfg.hasVectors = true ∧ unitPassages us ≠ [] then
    payloadCheck (validateVectors [] (unitRows cfg us)) (encodeVectors cfg (unitRows cfg us))
  else .ok []

/-- The payload of `tombstones.yap2`, if there are tombstones. -/
def writeTombstones (us : List SegmentUnit) : Except Status Bytes :=
  if unitTombstones us = [] then .ok []
  else payloadCheck (validateTombstones [] (unitTombstones us)) (encodeTombstones (unitTombstones us))

/-- `YAP_V2_segment_slice_write`: the payloads of the seven files, empty for a file that is not written. -/
def segmentSlicePayloads (segmentId : CString) (us : List SegmentUnit) : Except Status (List Bytes) := do
  let documents ← payloadCheck ((segmentIdValidate segmentId).next
      (validateSegmentViews (unitDocuments us) (unitPassages us)))
    (encodeDocuments segmentId.bytes (unitDocuments us) (unitPassages us))
  let texts ← writeTexts env cfg us
  let vectors ← writeVectors cfg us
  let tombstones ← writeTombstones us
  return documents :: texts ++ [vectors, tombstones]

end Slice

/-! ## Lengths -/

@[simp] theorem length_view (v : Bytes) : (view v).length = viewBytes v := by
  rw [view, List.length_append, length_leBytes, viewBytes]

@[simp] theorem length_record (type : Nat) (body : Bytes) :
    (record type body).length = 8 + body.length := by
  simp only [record, List.length_append, length_leBytes]
  omega

theorem length_documentRecord (d : Document) : (documentRecord d).length = documentRecordBytes d := by
  simp only [documentRecord, length_record, List.length_append, length_view, length_leBytes,
    documentRecordBytes]
  omega

theorem length_passageRecord (p : Passage) : (passageRecord p).length = passageRecordBytes p := by
  simp only [passageRecord, length_record, List.length_append, length_view, length_leBytes,
    passageRecordBytes]
  omega

theorem length_encodeDocuments (segmentId : Bytes) (ds : List Document) (ps : List Passage) :
    (encodeDocuments segmentId ds ps).length = 24 + segmentId.length +
      ((ds.map documentRecordBytes).sum + (ps.map passageRecordBytes).sum) := by
  simp only [encodeDocuments, List.length_append, length_leBytes,
    length_flatMap_sizes length_documentRecord, length_flatMap_sizes length_passageRecord]
  omega

theorem length_scalarRecords (i : Nat) (scalars : List (List MetadataScalar)) :
    (scalarRecords i scalars).length = (scalars.map scalarsBytes).sum := by
  induction scalars generalizing i with
  | nil => rfl
  | cons s scalars ih =>
    rw [scalarRecords, List.length_append, ih, List.map_cons, List.sum_cons, scalarsBytes,
      List.length_flatMap]
    congr 3
    funext x
    simp only [scalarRecord, List.length_append, length_leBytes]
    omega

theorem length_encodeMetadata (fields : List Bytes) (scalars : List (List MetadataScalar)) :
    (encodeMetadata fields scalars).length = metadataBase fields + (scalars.map scalarsBytes).sum := by
  simp only [encodeMetadata, List.length_append, length_leBytes, List.length_flatMap, length_view,
    length_scalarRecords, metadataBase, viewBytes]
  omega

theorem length_idRecords (offset : Nat) (ids : List Bytes) :
    (idRecords offset ids).length = ids.length * 16 := by
  induction ids generalizing offset with
  | nil => rfl
  | cons id ids ih =>
    simp only [idRecords, List.length_append, length_leBytes, ih, List.length_cons]
    omega

theorem length_vectorsHead (cfg : Config) (ids : List Bytes) (offset : Nat) :
    (vectorsHead cfg ids offset).length =
      40 + cfg.vectorModelId.length + ids.length * 16 + (ids.map List.length).sum := by
  simp only [vectorsHead, List.length_append, length_leBytes, length_idRecords, List.length_flatten]
  omega

/-- The numbers of rows of one length. -/
theorem length_numbers {dimensions : Nat} {rows : List (Passage × List Scalar)}
    (h : ∀ r ∈ rows, r.2.length = dimensions) :
    (rows.flatMap fun r => r.2.flatMap fun x => leBytes 4 x.toNat).length =
      rows.length * dimensions * 4 := by
  induction rows with
  | nil => simp
  | cons r rows ih =>
    obtain ⟨hr, hrows⟩ := List.forall_mem_cons.mp h
    rw [List.flatMap_cons, List.length_append, ih hrows,
      length_flatMap_records fun x : Scalar => length_leBytes 4 x.toNat, hr, List.length_cons,
      Nat.succ_mul, Nat.add_mul]
    omega

theorem length_encodeVectors (cfg : Config) {rows : List (Passage × List Scalar)}
    (h : ∀ r ∈ rows, r.2.length = cfg.vectorDimensions) :
    (encodeVectors cfg rows).length = vectorsBytes cfg.vectorModelId cfg.vectorDimensions rows.length
      (rows.map fun r => r.1.id.length).sum := by
  have hpad : ∀ n, n ≤ alignFloat n := fun n => by
    rw [alignFloat]
    omega
  have hle := hpad (vectorsHead cfg (rows.map fun r => r.1.id) 0).length
  simp only [encodeVectors, List.length_append, length_numbers h, List.length_replicate, vectorsBytes,
    length_vectorsHead, List.length_map, List.map_map, Function.comp_def] at hle ⊢
  omega

theorem length_vectorRow (cfg : Config) (vs : List (List Scalar)) (j : Nat) :
    (vectorRow cfg vs j).length = cfg.vectorDimensions := by
  rw [vectorRow, List.length_map, List.length_range]

theorem map_fst_unitRows (cfg : Config) (us : List SegmentUnit) :
    (unitRows cfg us).map Prod.fst = unitPassages us := by
  induction us with
  | nil => rfl
  | cons u us ih =>
    cases u with
    | tombstone id => exact ih
    | document d ps vs =>
      rw [unitRows, List.map_append, ih, unitPassages]
      congr 1
      exact List.ext_getElem (by simp) fun i _ _ => by simp

theorem length_of_mem_unitRows {cfg : Config} {us : List SegmentUnit} {r : Passage × List Scalar}
    (h : r ∈ unitRows cfg us) : r.2.length = cfg.vectorDimensions := by
  induction us with
  | nil => cases h
  | cons u us ih =>
    cases u with
    | tombstone id => exact ih h
    | document d ps vs =>
      rcases List.mem_append.mp h with h | h
      · obtain ⟨j, hj, rfl⟩ := List.mem_mapIdx.mp h
        exact length_vectorRow cfg vs j
      · exact ih h

theorem length_encodeTombstones (ids : List Bytes) :
    (encodeTombstones ids).length = tombstonesBytes ids := by
  simp only [encodeTombstones, List.length_append, length_leBytes, length_flatMap_sizes length_view,
    tombstonesBytes]
  omega

/-! ## The lexical files -/

section Lexical

variable {occs g : List Occurrence}

/-- The terms of the groups are the terms of the occurrences. -/
theorem perm_termGroups (occs : List Occurrence) :
    ((termGroups occs).map groupTerm).Perm (termsOf occs) := by
  have hnodup : ((termGroups occs).map groupTerm).Nodup :=
    (groups_sorted occs).imp fun {t t'} hlt heq => by
      rw [heq, termCompare_eq_eq.mpr rfl] at hlt
      cases hlt
  refine (List.perm_ext_iff_of_nodup hnodup (List.nodup_dedup _)).mpr fun t => ?_
  rw [List.mem_dedup, List.mem_map, List.mem_map]
  constructor
  · rintro ⟨g, hg, rfl⟩
    obtain ⟨o, ho⟩ := List.exists_mem_of_ne_nil g (List.ne_nil_of_mem_splitBy hg)
    obtain ⟨hocc, hterm⟩ := (mem_group hg).mp ho
    exact ⟨o, hocc, hterm⟩
  · rintro ⟨o, ho, rfl⟩
    obtain ⟨g, hg, hterm, -⟩ := exists_group ho
    exact ⟨g, hg, hterm⟩

/-- A sum over the groups is one over the terms. -/
theorem sum_termGroups {f : List Occurrence → Nat} {f' : Bytes → Nat}
    (h : ∀ g ∈ termGroups occs, f g = f' (groupTerm g)) :
    ((termGroups occs).map f).sum = ((termsOf occs).map f').sum := by
  calc ((termGroups occs).map f).sum = (((termGroups occs).map groupTerm).map f').sum := by
        rw [List.map_map]
        exact congrArg List.sum (List.map_congr_left h)
    _ = ((termsOf occs).map f').sum := ((perm_termGroups occs).map f').sum_eq

theorem length_group (hg : g ∈ termGroups occs) : g.length = termOccurrences occs (groupTerm g) := by
  conv_lhs => rw [group_eq hg]
  exact ((List.perm_insertionSort OccurrenceLe occs).filter _).length_eq

theorem objectCount_group (hg : g ∈ termGroups occs) :
    objectCount g = documentFrequency occs (groupTerm g) := by
  rw [← length_groupObjects, documentFrequency]
  have hnodup : (groupObjects g).Nodup := (groupObjects_sorted hg).imp ObjectLt.ne
  refine ((List.perm_ext_iff_of_nodup hnodup (List.nodup_dedup _)).mpr fun object => ?_).length_eq
  rw [mem_groupObjects_iff hg, List.mem_dedup, List.mem_map]
  simp only [List.mem_filter, decide_eq_true_eq, and_assoc]

theorem length_buildParts (part : Nat → List Occurrence → Bytes) {f : List Occurrence → Nat}
    (h : ∀ i g, (part i g).length = f g) (index : Nat) (groups : List (List Occurrence)) :
    (buildParts part index groups).length = (groups.map f).sum := by
  induction groups generalizing index with
  | nil => rfl
  | cons g groups ih => rw [buildParts, List.length_append, h, ih, List.map_cons, List.sum_cons]

/-- **The sizes of the lexical payloads**, in terms of the occurrences. -/
theorem length_buildPayloads (occs : List Occurrence) (documents passages : Nat) (totals : PerField) :
    (buildPayloads occs documents passages totals).terms.length = termsBytes occs ∧
      (buildPayloads occs documents passages totals).postings.length = postingsBytes occs ∧
      (buildPayloads occs documents passages totals).positions.length = positionsBytes occs := by
  obtain ⟨hpostings, hpositions, hterms⟩ := length_payloads occs documents passages totals
  rw [hterms, hpostings, hpositions, termsBytes, postingsBytes, positionsBytes]
  refine ⟨?_, ?_, ?_⟩
  · have hentries : (buildEntries 0 56 12 (termGroups occs)).map (fun e => 44 + e.term.length) =
        (termGroups occs).map fun g => 44 + (groupTerm g).length := by
      have hmap := congrArg (List.map fun t : Bytes => 44 + t.length)
        (map_term_buildEntries 0 56 12 (termGroups occs))
      rwa [List.map_map, List.map_map] at hmap
    rw [length_flatMap_sizes TermEntry.length_bytes, hentries]
    exact congrArg (12 + ·) (sum_termGroups fun g _ => rfl)
  · rw [length_buildParts termPostings length_termPostings, sum_termGroups fun g hg => ?_]
    rw [objectCount_group hg, postingBytes, blockBytes, Nat.add_assoc]
  · rw [length_buildParts termPositions length_termPositions, sum_termGroups fun g hg => ?_]
    rw [length_group hg]

end Lexical

/-! ## What is written -/

theorem payloadCheck_eq_ok {checks : Status} {payload out : Bytes}
    (h : payloadCheck checks payload = .ok out) : out = payload := by
  rw [payloadCheck] at h
  split at h
  · cases h
  · split at h
    · cases h
    · cases h
      rfl

section Slice

variable {env : Env} {cfg : Config} {us : List SegmentUnit}

/-- The sizes of the seven payloads of a slice. -/
def sliceSizes (env : Env) (cfg : Config) (segmentIdBytes : Nat) (us : List SegmentUnit) : List Nat :=
  [24 + segmentIdBytes + (((unitDocuments us).map documentRecordBytes).sum +
      ((unitPassages us).map passageRecordBytes).sum),
   if unitDocuments us = [] then 0 else termsBytes (sliceOccurrences env us),
   if unitDocuments us = [] then 0 else postingsBytes (sliceOccurrences env us),
   if unitDocuments us = [] then 0 else positionsBytes (sliceOccurrences env us),
   if unitDocuments us = [] then 0 else
     metadataBase cfg.filterableFields + ((unitMetadata env cfg us).map scalarsBytes).sum,
   if cfg.hasVectors = true ∧ unitPassages us ≠ [] then
     vectorsBytes cfg.vectorModelId cfg.vectorDimensions (unitPassages us).length
       ((unitPassages us).map fun p => p.id.length).sum
   else 0,
   if unitTombstones us = [] then 0 else tombstonesBytes (unitTombstones us)]

theorem length_unitRows (cfg : Config) (us : List SegmentUnit) :
    (unitRows cfg us).length = (unitPassages us).length ∧
      ((unitRows cfg us).map fun r => r.1.id.length).sum =
        ((unitPassages us).map fun p => p.id.length).sum := by
  have hmap := map_fst_unitRows cfg us
  refine ⟨?_, ?_⟩
  · rw [← hmap, List.length_map]
  · rw [← hmap, List.map_map]
    rfl

/-- **The sizes of what `YAP_V2_segment_slice_write` writes.** -/
theorem segmentSlicePayloads_sizes {segmentId : CString} {files : List Bytes}
    (h : segmentSlicePayloads env cfg segmentId us = .ok files) :
    files.map List.length = sliceSizes env cfg segmentId.bytes.length us := by
  obtain ⟨documents, hdocuments, h⟩ := bind_eq_ok.mp h
  obtain ⟨texts, htexts, h⟩ := bind_eq_ok.mp h
  obtain ⟨vectors, hvectors, h⟩ := bind_eq_ok.mp h
  obtain ⟨tombstones, htombstones, h⟩ := bind_eq_ok.mp h
  cases h
  have h₁ : documents.length = 24 + segmentId.bytes.length + _ :=
    payloadCheck_eq_ok hdocuments ▸ length_encodeDocuments _ _ _
  have h₂ : texts.map List.length =
      [if unitDocuments us = [] then 0 else termsBytes (sliceOccurrences env us),
       if unitDocuments us = [] then 0 else postingsBytes (sliceOccurrences env us),
       if unitDocuments us = [] then 0 else positionsBytes (sliceOccurrences env us),
       if unitDocuments us = [] then 0 else
         metadataBase cfg.filterableFields + ((unitMetadata env cfg us).map scalarsBytes).sum] := by
    rw [writeTexts] at htexts
    split at htexts
    · rename_i hnil
      cases htexts
      simp [hnil]
    · rename_i hne
      obtain ⟨terms, hterms, htexts⟩ := bind_eq_ok.mp htexts
      obtain ⟨postings, hpostings, htexts⟩ := bind_eq_ok.mp htexts
      obtain ⟨positions, hpositions, htexts⟩ := bind_eq_ok.mp htexts
      obtain ⟨metadata, hmetadata, htexts⟩ := bind_eq_ok.mp htexts
      cases htexts
      obtain ⟨h₁, h₂, h₃⟩ := length_buildPayloads (sliceOccurrences env us) (unitDocuments us).length
        (unitPassages us).length ⟨fieldFrequency (sliceOccurrences env us) .title,
          fieldFrequency (sliceOccurrences env us) .body,
          fieldFrequency (sliceOccurrences env us) .passage⟩
      rw [payloadCheck_eq_ok hterms, payloadCheck_eq_ok hpostings, payloadCheck_eq_ok hpositions,
        payloadCheck_eq_ok hmetadata]
      simp only [List.map_cons, List.map_nil, if_neg hne, encodeLexical, h₁, h₂, h₃,
        length_encodeMetadata]
  have h₃ : vectors.length = if cfg.hasVectors = true ∧ unitPassages us ≠ [] then
      vectorsBytes cfg.vectorModelId cfg.vectorDimensions (unitPassages us).length
        ((unitPassages us).map fun p => p.id.length).sum else 0 := by
    rw [writeVectors] at hvectors
    split at hvectors
    · rename_i hpos
      rw [if_pos hpos, payloadCheck_eq_ok hvectors,
        length_encodeVectors cfg fun r hr => length_of_mem_unitRows hr, (length_unitRows cfg us).1,
        (length_unitRows cfg us).2]
    · rename_i hneg
      cases hvectors
      rw [if_neg hneg, List.length_nil]
  have h₄ : tombstones.length =
      if unitTombstones us = [] then 0 else tombstonesBytes (unitTombstones us) := by
    rw [writeTombstones] at htombstones
    split at htombstones
    · rename_i hnil
      cases htombstones
      rw [if_pos hnil, List.length_nil]
    · rename_i hne
      rw [if_neg hne, payloadCheck_eq_ok htombstones, length_encodeTombstones]
  rw [List.map_append, List.map_cons, List.map_cons, List.map_cons, List.map_nil, h₁, h₂, h₃, h₄]
  rfl

end Slice

end Yappod

import Mathlib.Algebra.Group.Action.Defs
import Mathlib.Algebra.Order.BigOperators.Group.List
import Yappod.Config.Fingerprint
import Yappod.Storage.SegmentCodec

/-!
# The file of filterable metadata

`metadata.yap2` is a sparse table.  `YAP_V2_metadata_write` appends, document by document and for every document
field by field, one record for every scalar at the path of the field; `YAP_V2_metadata_read` makes a list of entries
of the records, each with the ordinals of its field and its document.  What is read is what was written
(`metadataRead_metadataWrite`), and the entries with the ordinals of one document and one field are the scalars at the
path in that document (`entriesAt_entriesFrom`).
-/

set_option autoImplicit false

namespace Yappod

def fileTypeMetadata : UInt32 := 5

/-! ## Writing -/

section Write

variable (yyjsonRead : Bytes → Option Json)

/-- What `YAP_V2_metadata_write` asks of the metadata of a document. -/
def hasObject (d : Document) : Bool := (yyjsonRead d.metadataJson).any Json.isObj

/-- The body of the loop over the documents of `YAP_V2_metadata_write_preparsed`. -/
def documentScalars (fields : List Bytes) (d : Document) : Except Status (List MetadataScalar) :=
  if documentValidate d ≠ .ok then .error .invalidFormat else documentMetadata yyjsonRead fields d

/-- `YAP_V2_metadata_write`: the file. -/
def metadataWrite (c : ConfigRecord) (generation : UInt64) (documents : List Document) : Except Status Bytes :=
  if !documents.all (hasObject yyjsonRead) then .error .invalidFormat
  else if configValidate c ≠ .ok then .error .invalidArgument
  else if maxSegmentDocuments < documents.length then .error .outOfRange
  else do
    let scalars ← documents.mapM (documentScalars yyjsonRead c.filterableFields)
    let payload ← payloadCheck .ok (encodeMetadata c.filterableFields scalars)
    writeComponent fileTypeMetadata generation payload

end Write

/-! ## Reading -/

/-- `YAP_V2_METADATA_ENTRY`. -/
structure MetadataEntry where
  fieldOrdinal : Nat
  documentOrdinal : Nat
  type : MetadataType
  value : Bytes
  deriving DecidableEq

/-- `YAP_V2_METADATA_INDEX`. -/
structure MetadataIndex where
  fields : List Bytes
  documentCount : Nat
  entries : List MetadataEntry

/-- The type with a code, if there is one. -/
def MetadataType.ofCode : Nat → Option MetadataType
  | 1 => some .null
  | 2 => some .bool
  | 3 => some .number
  | 4 => some .string
  | _ => none

/-- A field of the file is the one of the configuration. -/
def readField (field : Bytes) : Reader Status Unit := do
  let text ← readView
  Reader.require .invalidFormat (text.length ≤ maxFilterFieldBytes ∧ text = field)

def readFields : List Bytes → Reader Status Unit
  | [] => pure ()
  | field :: fields => do
    readField field
    readFields fields

/-- One record. -/
def readEntry (fieldCount documentCount : Nat) : Reader Status MetadataEntry := do
  let field ← Reader.number .invalidFormat 4
  let document ← Reader.number .invalidFormat 8
  let code ← Reader.number .invalidFormat 4
  let value ← readView
  Reader.require .invalidFormat (field < fieldCount ∧ document < documentCount)
  match MetadataType.ofCode code with
  | none => throw .invalidFormat
  | some type => return ⟨field, document, type, value⟩

/-- `sizeof(YAP_V2_METADATA_ENTRY)`. -/
def metadataEntryBytes : Nat := 40

def parseMetadataPayload (fields : List Bytes) : Reader Status MetadataIndex := do
  let version ← Reader.number .invalidFormat 4
  let fieldCount ← Reader.number .invalidFormat 4
  let documentCount ← Reader.number .invalidFormat 8
  let entryCount ← Reader.number .invalidFormat 8
  Reader.require .invalidFormat (version = 1 ∧ fieldCount = fields.length)
  Reader.require .outOfRange (entryCount ≤ uint64Max / metadataEntryBytes)
  readFields fields
  let entries ← Reader.many (readEntry fields.length documentCount) entryCount
  return ⟨fields, documentCount, entries⟩

/-- `YAP_V2_metadata_read`, of a file that could be read. -/
def metadataRead (c : ConfigRecord) (expectedGeneration : UInt64) (file : Bytes) : Except Status MetadataIndex :=
  if configValidate c ≠ .ok then .error .invalidArgument
  else if file.length < fileHeaderBytes then .error .invalidFormat
  else
    match fileHeaderDecode.run file with
    | .error _ => .error .invalidFormat
    | .ok (header, payload) =>
      if header.fileType ≠ fileTypeMetadata ∨ (expectedGeneration ≠ 0 ∧ header.generation ≠ expectedGeneration) ∨
          header.payloadBytes.toNat ≠ file.length - fileHeaderBytes then .error .invalidFormat
      else if crc32c payload ≠ header.payloadCrc32c then .error .checksumMismatch
      else (parseMetadataPayload c.filterableFields).whole .invalidFormat payload

/-! ## What is written is read -/

/-- The entry of a scalar. -/
def MetadataScalar.entry (document : Nat) (s : MetadataScalar) : MetadataEntry := ⟨s.field, document, s.type, s.text⟩

/-- The entries of the documents, from the `i`-th on. -/
def entriesFrom : Nat → List (List MetadataScalar) → List MetadataEntry
  | _, [] => []
  | i, scalars :: rest => scalars.map (MetadataScalar.entry i) ++ entriesFrom (i + 1) rest

/-- The record of an entry. -/
def MetadataEntry.bytes (e : MetadataEntry) : Bytes :=
  leBytes 4 e.fieldOrdinal ++ (leBytes 8 e.documentOrdinal ++ (leBytes 4 e.type.code ++ view e.value))

/-- An entry that can be read. -/
structure MetadataEntry.Ok (fieldCount documentCount : Nat) (e : MetadataEntry) : Prop where
  field : e.fieldOrdinal < fieldCount
  document : e.documentOrdinal < documentCount
  narrow : e.fieldOrdinal < 256 ^ 4 ∧ e.documentOrdinal < 256 ^ 8
  value : e.value.length < 2 ^ 32

theorem MetadataType.ofCode_eq_some {code : Nat} {type : MetadataType} :
    MetadataType.ofCode code = some type ↔ code = type.code := by
  constructor
  · intro h
    rw [MetadataType.ofCode.eq_def] at h
    split at h <;> cases h <;> rfl
  · rintro rfl
    cases type <;> rfl

/-- A record is read if its ordinals are in range, and only then. -/
theorem exact_readEntry (fieldCount documentCount : Nat) :
    Exact (readEntry fieldCount documentCount) MetadataEntry.bytes (MetadataEntry.Ok fieldCount documentCount) := by
  intro bs e rest
  simp only [readEntry, Reader.bind_eq_ok, exact_number _ _ _ _ _, exact_readView _ _ _, Reader.require_eq_ok,
    decide_eq_true_eq]
  constructor
  · rintro ⟨field, _, ⟨hfield, rfl⟩, document, _, ⟨hdocument, rfl⟩, code, _, ⟨-, rfl⟩, value, _, ⟨hvalue, rfl⟩, _, _,
      ⟨⟨hfields, hdocuments⟩, hstate⟩, hout⟩
    cases hstate
    cases htype : MetadataType.ofCode code with
    | none =>
      rw [htype] at hout
      cases hout
    | some type =>
      rw [htype] at hout
      cases hout
      rw [MetadataType.ofCode_eq_some] at htype
      exact ⟨⟨hfields, hdocuments, ⟨hfield, hdocument⟩, hvalue⟩,
        by simp only [MetadataEntry.bytes, List.append_assoc, htype]⟩
  · rintro ⟨⟨hfields, hdocuments, hnarrow, hvalue⟩, rfl⟩
    have hcode : e.type.code < 256 ^ 4 := by cases e.type <;> decide
    simp only [MetadataEntry.bytes, List.append_assoc]
    refine ⟨_, _, ⟨hnarrow.1, rfl⟩, _, _, ⟨hnarrow.2, rfl⟩, _, _, ⟨hcode, rfl⟩, _, _, ⟨hvalue, rfl⟩, _, _,
      ⟨⟨hfields, hdocuments⟩, rfl⟩, ?_⟩
    rw [MetadataType.ofCode_eq_some.mpr rfl]
    rfl

/-- The names in the file are those of the configuration. -/
theorem readFields_eq_ok {fields : List Bytes} {bs rest : Bytes} :
    (readFields fields).run bs = .ok ((), rest) ↔
      (∀ f ∈ fields, f.length ≤ maxFilterFieldBytes) ∧ bs = fields.flatMap view ++ rest := by
  have hbound : ∀ f : Bytes, f.length ≤ maxFilterFieldBytes → f.length < 2 ^ 32 := by
    intro f hf
    rw [maxFilterFieldBytes] at hf
    omega
  induction fields generalizing bs with
  | nil =>
    constructor
    · intro h
      cases h
      exact ⟨fun f hf => absurd hf List.not_mem_nil, rfl⟩
    · rintro ⟨-, rfl⟩
      rfl
  | cons field fields ih =>
    simp only [readFields, readField, Reader.bind_eq_ok, exact_readView _ _ _, Reader.require_eq_ok, decide_eq_true_eq,
      List.forall_mem_cons, List.flatMap_cons, List.append_assoc]
    constructor
    · rintro ⟨_, _, ⟨text, _, ⟨-, rfl⟩, ⟨hlength, rfl⟩, hstate⟩, h⟩
      cases hstate
      obtain ⟨hfields, rfl⟩ := ih.mp h
      exact ⟨⟨hlength, hfields⟩, rfl⟩
    · rintro ⟨⟨hlength, hfields⟩, rfl⟩
      exact ⟨(), _, ⟨field, _, ⟨hbound field hlength, rfl⟩, ⟨hlength, rfl⟩, rfl⟩, ih.mpr ⟨hfields, rfl⟩⟩

/-- The payload of an index. -/
def MetadataIndex.bytes (index : MetadataIndex) : Bytes :=
  leBytes 4 1 ++ (leBytes 4 index.fields.length ++ (leBytes 8 index.documentCount ++
    (leBytes 8 index.entries.length ++ (index.fields.flatMap view ++ index.entries.flatMap MetadataEntry.bytes))))

/-- An index that can be read, with these fields. -/
structure MetadataIndex.Ok (fields : List Bytes) (index : MetadataIndex) : Prop where
  fields : index.fields = fields
  names : ∀ f ∈ index.fields, f.length ≤ maxFilterFieldBytes
  fieldCount : index.fields.length < 256 ^ 4
  documentCount : index.documentCount < 256 ^ 8
  entryCount : index.entries.length ≤ uint64Max / metadataEntryBytes
  entries : ∀ e ∈ index.entries, e.Ok index.fields.length index.documentCount

theorem exact_parseMetadataPayload (fields : List Bytes) :
    Exact (parseMetadataPayload fields) MetadataIndex.bytes (MetadataIndex.Ok fields) := by
  intro bs index rest
  simp only [parseMetadataPayload, Reader.bind_eq_ok, exact_number _ _ _ _ _, Reader.require_eq_ok, decide_eq_true_eq,
    exact_many (exact_readEntry _ _) _ _ _ _]
  constructor
  · rintro ⟨version, _, ⟨-, rfl⟩, fieldCount, _, ⟨hfieldCount, rfl⟩, documentCount, _, ⟨hdocumentCount, rfl⟩, entryCount, _,
      ⟨-, rfl⟩, _, _, ⟨⟨rfl, rfl⟩, hstate⟩, _, _, ⟨hentryCount, hstate'⟩, _, _, hfields, entries, _,
      ⟨⟨rfl, hentries⟩, rfl⟩, hout⟩
    cases hstate
    cases hstate'
    cases hout
    obtain ⟨hnames, hbytes⟩ := readFields_eq_ok.mp hfields
    exact ⟨⟨rfl, hnames, hfieldCount, hdocumentCount, hentryCount, hentries⟩,
      by simp only [MetadataIndex.bytes, List.append_assoc, hbytes]⟩
  · rintro ⟨⟨rfl, hnames, hfieldCount, hdocumentCount, hentryCount, hentries⟩, rfl⟩
    have hentryNarrow : index.entries.length < 256 ^ 8 :=
      Nat.lt_of_le_of_lt hentryCount (Nat.div_lt_of_lt_mul (by decide))
    simp only [MetadataIndex.bytes, List.append_assoc]
    refine ⟨_, _, ⟨by decide, rfl⟩, _, _, ⟨hfieldCount, rfl⟩, _, _, ⟨hdocumentCount, rfl⟩, _, _, ⟨hentryNarrow, rfl⟩,
      _, _, ⟨⟨rfl, rfl⟩, rfl⟩, _, _, ⟨hentryCount, rfl⟩, (), _, readFields_eq_ok.mpr ⟨hnames, rfl⟩, _, _,
      ⟨⟨rfl, hentries⟩, rfl⟩, rfl⟩

/-! ### The entries of what is written -/

theorem length_entriesFrom (i : Nat) (scalars : List (List MetadataScalar)) :
    (entriesFrom i scalars).length = (scalars.map List.length).sum := by
  induction scalars generalizing i with
  | nil => rfl
  | cons here rest ih =>
    rw [entriesFrom, List.length_append, List.length_map, ih, List.map_cons, List.sum_cons]

theorem scalarRecords_eq (i : Nat) (scalars : List (List MetadataScalar)) :
    scalarRecords i scalars = (entriesFrom i scalars).flatMap MetadataEntry.bytes := by
  induction scalars generalizing i with
  | nil => rfl
  | cons here rest ih =>
    rw [scalarRecords, ih, entriesFrom, List.flatMap_append, List.flatMap_map]
    rfl

theorem encodeMetadata_eq (fields : List Bytes) (scalars : List (List MetadataScalar)) :
    encodeMetadata fields scalars = MetadataIndex.bytes ⟨fields, scalars.length, entriesFrom 0 scalars⟩ := by
  rw [encodeMetadata, MetadataIndex.bytes, scalarRecords_eq, length_entriesFrom]

/-- An entry has the ordinal of its document. -/
theorem mem_entriesFrom {i : Nat} {scalars : List (List MetadataScalar)} {e : MetadataEntry}
    (h : e ∈ entriesFrom i scalars) :
    ∃ j here, scalars[j]? = some here ∧ ∃ s ∈ here, e = MetadataScalar.entry (i + j) s := by
  induction scalars generalizing i with
  | nil => exact absurd h List.not_mem_nil
  | cons here rest ih =>
    rw [entriesFrom, List.mem_append] at h
    rcases h with h | h
    · obtain ⟨s, hs, rfl⟩ := List.mem_map.mp h
      exact ⟨0, here, rfl, s, hs, rfl⟩
    · obtain ⟨j, here', hj, s, hs, rfl⟩ := ih h
      exact ⟨j + 1, here', hj, s, hs, by rw [Nat.add_assoc, Nat.add_comm 1]⟩

/-- The entries of one document are its scalars. -/
theorem filter_entriesFrom (i d : Nat) (scalars : List (List MetadataScalar)) :
    ((entriesFrom i scalars).filter fun e => e.documentOrdinal = i + d) =
      ((scalars[d]?).getD []).map (MetadataScalar.entry (i + d)) := by
  have hself : ∀ (here : List MetadataScalar) (j k : Nat), j ≠ k →
      ((here.map (MetadataScalar.entry j)).filter fun e => e.documentOrdinal = k) = [] := by
    intro here j k hne
    rw [List.filter_eq_nil_iff]
    intro e he
    obtain ⟨s, -, rfl⟩ := List.mem_map.mp he
    rw [decide_eq_true_eq]
    exact hne
  induction scalars generalizing i d with
  | nil => rfl
  | cons here rest ih =>
    rw [entriesFrom, List.filter_append]
    cases d with
    | zero =>
      have hrest : ((entriesFrom (i + 1) rest).filter fun e => e.documentOrdinal = i + 0) = [] := by
        rw [List.filter_eq_nil_iff]
        intro e he
        obtain ⟨j, -, -, s, -, rfl⟩ := mem_entriesFrom he
        rw [decide_eq_true_eq]
        change ¬ i + 1 + j = i + 0
        omega
      have hhere : ((here.map (MetadataScalar.entry i)).filter fun e => e.documentOrdinal = i + 0) =
          here.map (MetadataScalar.entry i) := by
        rw [List.filter_eq_self]
        intro e he
        obtain ⟨s, -, rfl⟩ := List.mem_map.mp he
        exact decide_eq_true rfl
      rw [hrest, hhere, List.append_nil]
      rfl
    | succ d =>
      rw [hself here i (i + (d + 1)) (by omega), List.nil_append, show i + (d + 1) = i + 1 + d by omega, ih]
      rfl

/-! ### The scalars at a path -/

/-- A value that is neither an array nor an object. -/
def Json.isScalar : Json → Bool
  | .arr _ => false
  | .obj _ => false
  | _ => true

/-- The scalars of a value: the scalar itself, or the scalar elements of an array. -/
def Json.scalars : Json → List Json
  | .arr items => items.filter Json.isScalar
  | v => if v.isScalar then [v] else []

/-- The scalars at a path of an object. -/
def Json.scalarsAt (root : Json) (path : Bytes) : List Json :=
  match root.pathValue (pathSteps path) with
  | none => []
  | some v => v.scalars

/-- What is stored of a scalar. -/
def Json.stored (field : Nat) : Json → MetadataScalar
  | .null => ⟨field, .null, []⟩
  | .bool b => ⟨field, .bool, [if b then 1 else 0]⟩
  | .number text => ⟨field, .number, text⟩
  | .str s => ⟨field, .string, s⟩
  | .arr _ => ⟨field, .null, []⟩
  | .obj _ => ⟨field, .null, []⟩

/-- A number has a text that the buffer of `append_scalar` takes. -/
def Json.Short : Json → Prop
  | .number text => text.length < 64
  | _ => True

theorem Json.field_stored (field : Nat) (v : Json) : (v.stored field).field = field := by cases v <;> rfl

theorem scalarEntry_eq_ok {field : Nat} {v : Json} {l : List MetadataScalar} (h : scalarEntry field v = .ok l) :
    l = (if v.isScalar then [v] else []).map (Json.stored field) ∧ v.Short := by
  cases v with
  | number text =>
    rw [scalarEntry] at h
    split at h
    · cases h
    · rename_i hshort
      cases h
      exact ⟨rfl, Nat.lt_of_not_le hshort⟩
  | null | bool _ | str _ | arr _ | obj _ =>
    cases h
    exact ⟨rfl, trivial⟩

theorem arrayEntries_eq_ok {field : Nat} {items : List Json} {l : List MetadataScalar}
    (h : arrayEntries field items = .ok l) :
    l = (items.filter Json.isScalar).map (Json.stored field) ∧ ∀ v ∈ items, v.Short := by
  induction items generalizing l with
  | nil =>
    cases h
    exact ⟨rfl, fun v hv => absurd hv List.not_mem_nil⟩
  | cons v items ih =>
    rw [arrayEntries] at h
    obtain ⟨here, hhere, h⟩ := bind_eq_ok.mp h
    obtain ⟨rest, hrest, h⟩ := bind_eq_ok.mp h
    cases h
    obtain ⟨rfl, hshort⟩ := scalarEntry_eq_ok hhere
    obtain ⟨rfl, hshorts⟩ := ih hrest
    refine ⟨?_, List.forall_mem_cons.mpr ⟨hshort, hshorts⟩⟩
    rw [List.filter_cons, ← List.map_append]
    cases v.isScalar <;> rfl

theorem valueEntries_eq_ok {field : Nat} {v : Json} {l : List MetadataScalar} (h : valueEntries field v = .ok l) :
    l = v.scalars.map (Json.stored field) ∧ ∀ w ∈ v.scalars, w.Short := by
  by_cases harray : ∃ items, v = .arr items
  · obtain ⟨items, rfl⟩ := harray
    obtain ⟨hl, hshort⟩ := arrayEntries_eq_ok h
    exact ⟨hl, fun w hw => hshort w (List.mem_filter.mp hw).1⟩
  · have hsingle : valueEntries field v = scalarEntry field v ∧ v.scalars = if v.isScalar then [v] else [] := by
      cases v with
      | arr items => exact absurd ⟨items, rfl⟩ harray
      | null | bool _ | number _ | str _ | obj _ => exact ⟨rfl, rfl⟩
    rw [hsingle.1] at h
    obtain ⟨hl, hshort⟩ := scalarEntry_eq_ok h
    rw [hsingle.2]
    refine ⟨hl, fun w hw => ?_⟩
    split at hw
    · rw [List.mem_singleton.mp hw]
      exact hshort
    · exact absurd hw List.not_mem_nil

/-- The scalars of a document with the ordinal of a field are those at its path. -/
theorem fieldEntries_eq_ok {root : Json} {i : Nat} {fields : List Bytes} {l : List MetadataScalar}
    (h : fieldEntries root i fields = .ok l) :
    (∀ s ∈ l, i ≤ s.field ∧ s.field < i + fields.length) ∧ ∀ k path, fields[k]? = some path →
      (l.filter fun s => s.field = i + k) = (root.scalarsAt path).map (Json.stored (i + k)) ∧
        ∀ v ∈ root.scalarsAt path, v.Short := by
  induction fields generalizing i l with
  | nil =>
    cases h
    exact ⟨fun s hs => absurd hs List.not_mem_nil, fun k path hk => nomatch hk⟩
  | cons path fields ih =>
    rw [fieldEntries] at h
    obtain ⟨here, rest, hvalue, hrest, rfl⟩ : ∃ here rest,
        (here = (root.scalarsAt path).map (Json.stored i) ∧ ∀ v ∈ root.scalarsAt path, v.Short) ∧
        fieldEntries root (i + 1) fields = .ok rest ∧ l = here ++ rest := by
      rw [Json.scalarsAt]
      cases hpath : root.pathValue (pathSteps path) with
      | none =>
        rw [hpath] at h
        obtain ⟨here, hhere, h⟩ := bind_eq_ok.mp h
        obtain ⟨rest, hrest, h⟩ := bind_eq_ok.mp h
        cases hhere
        cases h
        exact ⟨[], rest, ⟨rfl, fun v hv => absurd hv List.not_mem_nil⟩, hrest, rfl⟩
      | some v =>
        rw [hpath] at h
        obtain ⟨here, hhere, h⟩ := bind_eq_ok.mp h
        obtain ⟨rest, hrest, h⟩ := bind_eq_ok.mp h
        cases h
        exact ⟨here, rest, valueEntries_eq_ok hhere, hrest, rfl⟩
    obtain ⟨hrange, hat⟩ := ih hrest
    obtain ⟨rfl, hshort⟩ := hvalue
    have hfield : ∀ s ∈ (root.scalarsAt path).map (Json.stored i), s.field = i := by
      intro s hs
      obtain ⟨v, -, rfl⟩ := List.mem_map.mp hs
      exact Json.field_stored i v
    refine ⟨fun s hs => ?_, fun k path' hk => ?_⟩
    · rw [List.length_cons]
      rcases List.mem_append.mp hs with hs | hs
      · rw [hfield s hs]
        omega
      · have := hrange s hs
        omega
    · rw [List.filter_append]
      cases k with
      | zero =>
        cases hk
        have hnone : (rest.filter fun s => s.field = i + 0) = [] := by
          rw [List.filter_eq_nil_iff]
          intro s hs
          rw [decide_eq_true_eq]
          have := hrange s hs
          omega
        rw [hnone, List.append_nil, Nat.add_zero, List.filter_eq_self.mpr fun s hs => decide_eq_true (hfield s hs)]
        exact ⟨rfl, hshort⟩
      | succ k =>
        have hnone : (((root.scalarsAt path).map (Json.stored i)).filter fun s => s.field = i + (k + 1)) = [] := by
          rw [List.filter_eq_nil_iff]
          intro s hs
          rw [decide_eq_true_eq, hfield s hs]
          omega
        rw [hnone, List.nil_append, show i + (k + 1) = i + 1 + k by omega]
        exact hat k path' hk

/-! ### The file -/

/-- The entries of a document for a field, as `field_entry` finds them one after the other. -/
def MetadataIndex.entriesAt (index : MetadataIndex) (field document : Nat) : List MetadataEntry :=
  index.entries.filter fun e => e.fieldOrdinal = field ∧ e.documentOrdinal = document

/-- The index has the scalars at the paths of its fields, for documents with these roots. -/
structure MetadataIndex.Holds (index : MetadataIndex) (roots : List Json) : Prop where
  documentCount : index.documentCount = roots.length
  objects : ∀ root ∈ roots, root.isObj
  entries : ∀ d root k path, roots[d]? = some root → index.fields[k]? = some path →
    index.entriesAt k d = (root.scalarsAt path).map (fun v => (v.stored k).entry d) ∧ ∀ v ∈ root.scalarsAt path, v.Short

section Written

variable {yyjsonRead : Bytes → Option Json} {fields : List Bytes}

theorem documentScalars_eq_ok {d : Document} {l : List MetadataScalar}
    (h : documentScalars yyjsonRead fields d = .ok l) :
    ∃ root, yyjsonRead d.metadataJson = some root ∧ root.isObj ∧ fieldEntries root 0 fields = .ok l := by
  rw [documentScalars] at h
  split at h
  · cases h
  rw [documentMetadata] at h
  split at h
  · cases h
  · rename_i root hroot
    split at h
    · rename_i hobject
      exact ⟨root, hroot, hobject, h⟩
    · cases h

/-- The scalars of documents, with the roots that they are found in. -/
theorem mapM_documentScalars_eq_ok {documents : List Document} {scalars : List (List MetadataScalar)}
    (h : documents.mapM (documentScalars yyjsonRead fields) = .ok scalars) :
    ∃ roots : List Json, documents.map (fun d => yyjsonRead d.metadataJson) = roots.map some ∧
      (∀ root ∈ roots, root.isObj) ∧ List.Forall₂ (fun root l => fieldEntries root 0 fields = .ok l) roots scalars := by
  induction documents generalizing scalars with
  | nil =>
    cases h
    exact ⟨[], rfl, fun root hroot => absurd hroot List.not_mem_nil, .nil⟩
  | cons d documents ih =>
    rw [List.mapM_cons] at h
    obtain ⟨here, hhere, h⟩ := bind_eq_ok.mp h
    obtain ⟨rest, hrest, h⟩ := bind_eq_ok.mp h
    cases h
    obtain ⟨root, hroot, hobject, hentries⟩ := documentScalars_eq_ok hhere
    obtain ⟨roots, hroots, hobjects, hall⟩ := ih hrest
    refine ⟨root :: roots, ?_, List.forall_mem_cons.mpr ⟨hobject, hobjects⟩, .cons hentries hall⟩
    rw [List.map_cons, List.map_cons, hroot, hroots]

/-- The entries of what is written are the scalars at the paths. -/
theorem holds_entriesFrom {roots : List Json} {scalars : List (List MetadataScalar)} (hobjects : ∀ root ∈ roots, root.isObj)
    (h : List.Forall₂ (fun root l => fieldEntries root 0 fields = .ok l) roots scalars) :
    MetadataIndex.Holds ⟨fields, scalars.length, entriesFrom 0 scalars⟩ roots where
  documentCount := h.length_eq.symm
  objects := hobjects
  entries d root k path hroot hpath := by
    obtain ⟨l, hl, hentries⟩ : ∃ l, scalars[d]? = some l ∧ fieldEntries root 0 fields = .ok l := by
      obtain ⟨hd, rfl⟩ := List.getElem?_eq_some_iff.mp hroot
      have hd' : d < scalars.length := h.length_eq ▸ hd
      exact ⟨scalars[d], List.getElem?_eq_getElem hd', (List.forall₂_iff_get.mp h).2 d hd hd'⟩
    obtain ⟨hfiltered, hshort⟩ := (fieldEntries_eq_ok hentries).2 k path hpath
    refine ⟨?_, hshort⟩
    have hdocument := filter_entriesFrom 0 d scalars
    rw [Nat.zero_add] at hdocument hfiltered
    rw [hl, Option.getD_some] at hdocument
    have hsplit : MetadataIndex.entriesAt ⟨fields, scalars.length, entriesFrom 0 scalars⟩ k d =
        ((entriesFrom 0 scalars).filter fun e => e.documentOrdinal = d).filter fun e => e.fieldOrdinal = k := by
      rw [List.filter_filter, MetadataIndex.entriesAt]
      exact List.filter_congr fun e _ => Bool.decide_and _ _
    rw [hsplit, hdocument, List.filter_map]
    have hfield : (l.filter ((fun e => decide (e.fieldOrdinal = k)) ∘ MetadataScalar.entry d)) =
        (root.scalarsAt path).map (Json.stored k) := hfiltered
    rw [hfield, List.map_map]
    rfl

/-- A payload that is not too long has an index that can be read. -/
theorem ok_entriesFrom {roots : List Json} {scalars : List (List MetadataScalar)}
    (hnames : ∀ f ∈ fields, f.length ≤ maxFilterFieldBytes) (hfields : fields.length ≤ maxFilterFields)
    (hdocuments : scalars.length ≤ maxSegmentDocuments)
    (h : List.Forall₂ (fun root l => fieldEntries root 0 fields = .ok l) roots scalars)
    (hsize : (encodeMetadata fields scalars).length ≤ maxSegmentPayloadBytes) :
    MetadataIndex.Ok fields ⟨fields, scalars.length, entriesFrom 0 scalars⟩ := by
  rw [maxFilterFields] at hfields
  rw [maxSegmentDocuments] at hdocuments
  rw [encodeMetadata_eq, maxSegmentPayloadBytes] at hsize
  have hbytes : ((entriesFrom 0 scalars).flatMap MetadataEntry.bytes).length ≤ 256 * 1024 * 1024 := by
    refine Nat.le_trans ?_ hsize
    simp only [MetadataIndex.bytes, List.length_append]
    omega
  rw [List.length_flatMap] at hbytes
  have hrecord : ∀ e : MetadataEntry, e.bytes.length = 20 + e.value.length := by
    intro e
    simp only [MetadataEntry.bytes, List.length_append, length_leBytes, length_view]
    rw [viewBytes]
    omega
  have hvalue : ∀ e ∈ entriesFrom 0 scalars, e.bytes.length ≤ 256 * 1024 * 1024 := fun e he =>
    Nat.le_trans (List.le_sum_of_mem (List.mem_map.mpr ⟨e, he, rfl⟩)) hbytes
  have hcount : (entriesFrom 0 scalars).length * 20 ≤ 256 * 1024 * 1024 := by
    refine Nat.le_trans ?_ hbytes
    rw [← smul_eq_mul, ← List.length_map fun e : MetadataEntry => e.bytes.length]
    refine List.card_nsmul_le_sum _ 20 fun n hn => ?_
    obtain ⟨e, -, rfl⟩ := List.mem_map.mp hn
    rw [hrecord]
    exact Nat.le_add_right _ _
  have hmax : 256 * 1024 * 1024 ≤ uint64Max / metadataEntryBytes := by decide
  refine ⟨rfl, hnames, ?_, ?_, ?_, fun e he => ?_⟩
  · change fields.length < 256 ^ 4
    omega
  · change scalars.length < 256 ^ 8
    omega
  · change (entriesFrom 0 scalars).length ≤ _
    omega
  · have hlength := hvalue e he
    rw [hrecord] at hlength
    obtain ⟨j, here, hj, s, hs, rfl⟩ := mem_entriesFrom he
    obtain ⟨hlt, rfl⟩ := List.getElem?_eq_some_iff.mp hj
    have hroot := (List.forall₂_iff_get.mp h).2 j (h.length_eq ▸ hlt) hlt
    have hfield := ((fieldEntries_eq_ok hroot).1 s hs).2
    have hordinal : (s.entry (0 + j)).fieldOrdinal = s.field ∧ (s.entry (0 + j)).documentOrdinal = j :=
      ⟨rfl, Nat.zero_add j⟩
    refine ⟨?_, ?_, ⟨?_, ?_⟩, ?_⟩
    · change s.field < fields.length
      omega
    · rw [hordinal.2]
      exact hlt
    · rw [hordinal.1]
      omega
    · rw [hordinal.2]
      omega
    · omega

/-- A file with the header for its payload. -/
theorem metadataRead_file {c : ConfigRecord} {generation expected : UInt64} {payload : Bytes}
    (hconfig : configValidate c = .ok) (hvalid : (componentHeader fileTypeMetadata generation payload).valid = true)
    (hexpected : expected = 0 ∨ expected = generation) (hsize : payload.length ≤ maxSegmentPayloadBytes) :
    metadataRead c expected ((componentHeader fileTypeMetadata generation payload).bytes ++ payload) =
      (parseMetadataPayload c.filterableFields).whole .invalidFormat payload := by
  have hlength : ((componentHeader fileTypeMetadata generation payload).bytes ++ payload).length =
      fileHeaderBytes + payload.length := by
    rw [List.length_append, length_bytes]
  have hbytes : (UInt64.ofNat payload.length).toNat = payload.length := UInt64.toNat_ofNat_of_lt' (by
    change payload.length < 2 ^ 64
    rw [maxSegmentPayloadBytes] at hsize
    omega)
  rw [metadataRead, if_neg (not_not.mpr hconfig), if_neg (by omega), exact_fileHeaderDecode.run_encode hvalid payload]
  dsimp only
  rw [if_neg]
  · exact if_neg (not_not.mpr rfl)
  · push Not
    refine ⟨rfl, fun he => (hexpected.resolve_left he).symm, ?_⟩
    rw [hlength, Nat.add_sub_cancel_left]
    exact hbytes

/-- **What was written is read**, and the entries of each document are the scalars at the paths in its metadata. -/
theorem metadataRead_metadataWrite {c : ConfigRecord} {generation expected : UInt64} {documents : List Document}
    {file : Bytes} (h : metadataWrite yyjsonRead c generation documents = .ok file)
    (hexpected : expected = 0 ∨ expected = generation) :
    ∃ index roots, metadataRead c expected file = .ok index ∧ index.fields = c.filterableFields ∧
      documents.map (fun d => yyjsonRead d.metadataJson) = roots.map some ∧ index.Holds roots := by
  rw [metadataWrite] at h
  split_ifs at h with hobjects hconfig hmany
  rw [not_not] at hconfig
  obtain ⟨scalars, hscalars, h⟩ := bind_eq_ok.mp h
  obtain ⟨payload, hpayload, h⟩ := bind_eq_ok.mp h
  obtain ⟨roots, hroots, hobject, hall⟩ := mapM_documentScalars_eq_ok hscalars
  have haccepted := configValidate_eq_ok.mp hconfig
  have hsize : payload.length ≤ maxSegmentPayloadBytes := by
    rw [payloadCheck] at hpayload
    split_ifs at hpayload with _ hlong
    cases hpayload
    exact Nat.not_lt.mp hlong
  obtain rfl := payloadCheck_eq_ok hpayload
  have hok : MetadataIndex.Ok c.filterableFields ⟨c.filterableFields, scalars.length, entriesFrom 0 scalars⟩ :=
    ok_entriesFrom (fun f hf => (field_of_validate haccepted.fields.2 f hf).1) haccepted.fields.1
      (by rw [length_of_mapM_eq_ok hscalars]; exact Nat.not_lt.mp hmany) hall hsize
  refine ⟨_, roots, ?_, rfl, hroots, holds_entriesFrom hobject hall⟩
  obtain ⟨hvalid, rfl⟩ := writeComponent_eq_ok.mp h
  rw [metadataRead_file hconfig hvalid hexpected hsize]
  exact (whole_eq_ok (exact_parseMetadataPayload _)).mpr ⟨hok, encodeMetadata_eq _ _⟩

end Written

end Yappod

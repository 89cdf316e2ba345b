import Yappod.Config.Fingerprint
import Yappod.Indexing.UpdateWal
import Yappod.Lib.JsonValue

/-!
# Records of an update

The parser of one ingest record, after `YAP_V2_ingest_parse_json_value`.  A record is a JSON object, decoded by the
library `yyjson`; its strings and keys have a length and may contain a NUL.  The parser checks the lengths, but what
it stores is a C string, keys are compared with `strcmp` and copied by `yyjson_mut_obj_add_val` up to a NUL, and
`yyjson_get_sint` takes the bits of an integer that does not fit.

* `Faithful` — what an accepted record should be stored as.
* `PlainRecord` — the records in which nothing is cut off or wrapped.
* `ingest_faithful` — an accepted record is stored faithfully exactly if it is plain.
-/

set_option autoImplicit false

namespace Yappod

open JsonValue

/-! ## Decoded values -/

/-- A number: an integer of 64 bits with or without a sign, or the bits of a `double`. -/
inductive JsonNumber
  | int (n : { n : Int // -2 ^ 63 ≤ n ∧ n < 2 ^ 64 })
  | real (bits : UInt64)
  deriving DecidableEq

abbrev Value := JsonValue JsonNumber

/-- The library, and the conversion of numbers to `float`. -/
structure JsonLibrary where
  /-- `yyjson_mut_write`. -/
  write : Value → Option Bytes
  /-- `yyjson_read`. -/
  read : Bytes → Option Value
  /-- The `float` for a number, if it is finite and not above `FLT_MAX`. -/
  single : JsonNumber → Option Scalar

/-- A text that was written has no NUL, and reads as what was written. -/
structure JsonLibrary.Lawful (lib : JsonLibrary) : Prop where
  noNul : ∀ v text, lib.write v = some text → 0 ∉ text
  read_write : ∀ v text, lib.write v = some text → lib.read text = some v

/-! ## The parser -/

/-- The status and the text for the caller. -/
structure IngestError where
  status : Status
  message : Bytes
  deriving DecidableEq

def notARecord : IngestError :=
  ⟨.invalidFormat, ascii "record is not an object, has duplicate keys, or contains an unknown key"⟩

def operationNotAString : IngestError := ⟨.invalidFormat, ascii "operation must be a string"⟩

def operationUnknown : IngestError := ⟨.invalidFormat, ascii "operation must be upsert or delete"⟩

/-- The label `invalid`, without an error of its own. -/
def schemaViolation : IngestError := ⟨.invalidFormat, ascii "record violates the canonical ingest schema"⟩

def fieldTooLong (key : Bytes) (maxBytes got : Nat) : IngestError :=
  ⟨.outOfRange, key ++ ascii " exceeds maximum of " ++ decimal maxBytes ++ ascii " bytes (got " ++ decimal got ++
    ascii ")"⟩

/-- `copy_text`: the whole text is copied, and is a C string from now on. -/
def copyText (text : Bytes) : CString := bufferString text

def keyOperation : Bytes := ascii "operation"

def keyId : Bytes := ascii "id"

def keyUrl : Bytes := ascii "url"

def keyTitle : Bytes := ascii "title"

def keyBody : Bytes := ascii "body"

def keyMetadata : Bytes := ascii "metadata"

def keyUpdatedAt : Bytes := ascii "updated_at_unix_ms"

def keyVectors : Bytes := ascii "vectors"

/-- `keys`. -/
def recordKeys : List Bytes :=
  [keyOperation, keyId, keyUrl, keyTitle, keyBody, keyMetadata, keyUpdatedAt, keyVectors]

/-- `only_keys`.  A key ends at its first NUL for `strcmp`. -/
def onlyKeys (members : List (Member JsonNumber)) (allowed : List Bytes) : Bool :=
  members.all fun m => allowed.contains (bufferString m.1).bytes

/-- The check of two neighbours after `qsort`. -/
def neighboursDiffer : List (Bytes × Bool) → Bool
  | a :: b :: pairs => a.1 != b.1 && neighboursDiffer (b :: pairs)
  | _ => true

mutual

/-- `json_keys_unique`. -/
def jsonKeysUnique : Value → Bool
  | .object members =>
    let pairs := (membersUnique members).insertionSort fun a b => a.1 ≤ b.1
    neighboursDiffer pairs && pairs.all Prod.snd
  | .array items => itemsUnique items
  | _ => true

def itemsUnique : List Value → Bool
  | [] => true
  | item :: items => jsonKeysUnique item && itemsUnique items

/-- The keys with the results for their values. -/
def membersUnique : List (Member JsonNumber) → List (Bytes × Bool)
  | [] => []
  | (key, value) :: members => (key, jsonKeysUnique value) :: membersUnique members

end

/-- `assign_string`. -/
def assignString (members : List (Member JsonNumber)) (key : Bytes) (required : Bool) (maxBytes : Nat) :
    Except IngestError (Option CString) :=
  match get members key with
  | none => if required then .error schemaViolation else .ok none
  | some (.string s) =>
    if maxBytes < s.length then .error (fieldTooLong key maxBytes s.length) else .ok (some (copyText s))
  | some _ => .error schemaViolation

variable (lib : JsonLibrary)

/-- `canonical_json`.  The copy of a key ends at its first NUL. -/
def canonicalJson (v : Value) : Except IngestError CString :=
  match lib.write (v.canonical fun key => (bufferString key).bytes) with
  | none => .error ⟨.allocationFailed, []⟩
  | some text => .ok (copyText text)

/-- The field `metadata`, an empty object if it is missing. -/
def parseMetadata (members : List (Member JsonNumber)) : Except IngestError CString :=
  match get members keyMetadata with
  | none => canonicalJson lib (.object [])
  | some (.object fields) => canonicalJson lib (.object fields)
  | some _ => .error schemaViolation

/-- The field `updated_at_unix_ms`; `yyjson_get_sint` takes the bits of the integer. -/
def parseUpdatedAt (members : List (Member JsonNumber)) : Except IngestError Int64 :=
  match get members keyUpdatedAt with
  | none => .ok 0
  | some (.number (.int n)) => .ok (Int64.ofInt n)
  | some _ => .error schemaViolation

/-- The first pass over the rows: they have one length, `dimensions` if that is not zero. -/
def rowDimensions : Nat → List Value → Option Nat
  | dimensions, [] => some dimensions
  | dimensions, .array items :: rows =>
    if items.length = 0 ∨ maxVectorDimensions < items.length then none
    else if dimensions = 0 then rowDimensions items.length rows
    else if items.length ≠ dimensions then none
    else rowDimensions dimensions rows
  | _, _ :: _ => none

/-- The components of one row. -/
def rowComponents : List Value → Option (List Scalar)
  | [] => some []
  | .number n :: items => do
    let x ← lib.single n
    let xs ← rowComponents items
    return x :: xs
  | _ :: _ => none

/-- The second pass, which has only arrays to look at. -/
def vectorComponents : List Value → Option (List Scalar)
  | [] => some []
  | .array items :: rows => do
    let xs ← rowComponents lib items
    let ys ← vectorComponents rows
    return xs ++ ys
  | _ :: _ => none

variable {lib}

theorem rowDimensions_cases {d n : Nat} {rows : List Value} (h : rowDimensions d rows = some n) :
    (∀ row ∈ rows, ∃ items : List Value, row = .array items ∧ items.length = n) ∧
      (rows = [] → n = d) ∧ (d ≠ 0 → n = d) ∧ (d ≤ maxVectorDimensions → n ≤ maxVectorDimensions) := by
  induction d, rows using rowDimensions.induct with
  | case1 d =>
    obtain rfl := Option.some.inj h
    exact ⟨fun _ hrow => absurd hrow List.not_mem_nil, fun _ => rfl, fun _ => rfl, id⟩
  | case2 d items rows hsize =>
    rw [rowDimensions, if_pos hsize] at h
    exact absurd h (by simp)
  | case3 items rows hsize ih =>
    rw [rowDimensions, if_neg hsize, if_pos rfl] at h
    rw [not_or, Nat.not_lt] at hsize
    obtain ⟨hrows, -, hfirst, hmax⟩ := ih h
    refine ⟨List.forall_mem_cons.mpr ⟨⟨items, rfl, (hfirst hsize.1).symm⟩, hrows⟩, fun h => (nomatch h),
      fun h => absurd rfl h, fun _ => hmax hsize.2⟩
  | case4 d items rows hsize hd hne =>
    rw [rowDimensions, if_neg hsize, if_neg hd, if_pos hne] at h
    exact absurd h (by simp)
  | case5 d items rows hsize hd heq ih =>
    rw [rowDimensions, if_neg hsize, if_neg hd, if_neg heq] at h
    obtain ⟨hrows, -, hfirst, hmax⟩ := ih h
    have hn : n = d := hfirst hd
    exact ⟨List.forall_mem_cons.mpr ⟨⟨items, rfl, (not_not.mp heq).trans hn.symm⟩, hrows⟩, fun h => (nomatch h),
      fun _ => hn, hmax⟩
  | case6 d row rows hrow =>
    rw [rowDimensions] at h
    · exact absurd h (by simp)
    · exact hrow

theorem rowComponents_some {items : List Value} {xs : List Scalar} (h : rowComponents lib items = some xs) :
    xs.length = items.length ∧ ∀ item ∈ items, ∃ n, item = .number n := by
  induction items generalizing xs with
  | nil =>
    obtain rfl := Option.some.inj h
    exact ⟨rfl, fun _ hitem => absurd hitem List.not_mem_nil⟩
  | cons item items ih =>
    cases item with
    | number n =>
      simp only [rowComponents, Option.bind_eq_bind, Option.bind_eq_some_iff, pure, Option.some.injEq] at h
      obtain ⟨x, -, ys, hys, rfl⟩ := h
      obtain ⟨hlength, hnumbers⟩ := ih hys
      exact ⟨by simp [hlength], List.forall_mem_cons.mpr ⟨⟨n, rfl⟩, hnumbers⟩⟩
    | null | bool | string | array | object => simp [rowComponents] at h

theorem vectorComponents_some {d : Nat} {rows : List Value} {xs : List Scalar}
    (hrows : ∀ row ∈ rows, ∃ items : List Value, row = .array items ∧ items.length = d)
    (h : vectorComponents lib rows = some xs) : xs.length = rows.length * d ∧
      ∀ row ∈ rows, ∃ items : List Value, row = .array items ∧ items.length = d ∧ ∀ item ∈ items, ∃ n, item = .number n := by
  induction rows generalizing xs with
  | nil =>
    obtain rfl := Option.some.inj h
    exact ⟨by simp, fun _ hrow => absurd hrow List.not_mem_nil⟩
  | cons row rows ih =>
    obtain ⟨⟨items, rfl, hitems⟩, hrest⟩ := List.forall_mem_cons.mp hrows
    simp only [vectorComponents, Option.bind_eq_bind, Option.bind_eq_some_iff, pure, Option.some.injEq] at h
    obtain ⟨ys, hys, zs, hzs, rfl⟩ := h
    obtain ⟨hlength, hnumbers⟩ := rowComponents_some hys
    obtain ⟨hlengths, harrays⟩ := ih hrest hzs
    refine ⟨?_, List.forall_mem_cons.mpr ⟨⟨items, rfl, hitems, hnumbers⟩, harrays⟩⟩
    rw [List.length_append, hlength, hlengths, hitems, List.length_cons, Nat.succ_mul, Nat.add_comm]

/-- The array `vectors` with its counts. -/
structure VectorTable where
  values : List Scalar
  count : UInt64
  dimensions : UInt64
  values_length : values.length = count.toNat * dimensions.toNat
  deriving DecidableEq

/-- The counts fit. -/
theorem vectorTable_counts {rows : List Value} {d : Nat}
    (hcount : ¬ (rows.length = 0 ∨ maxSegmentPassages < rows.length)) (hd : rowDimensions 0 rows = some d) :
    (UInt64.ofNat rows.length).toNat = rows.length ∧ (UInt64.ofNat d).toNat = d := by
  obtain ⟨-, -, -, hmax⟩ := rowDimensions_cases hd
  have hdmax : d ≤ maxVectorDimensions := hmax (Nat.zero_le _)
  rw [maxVectorDimensions] at hdmax
  rw [maxSegmentPassages] at hcount
  exact ⟨UInt64.toNat_ofNat_of_lt' (by simp only [UInt64.size]; omega),
    UInt64.toNat_ofNat_of_lt' (by simp only [UInt64.size]; omega)⟩

theorem vectorTable_length {rows : List Value} {d : Nat} {xs : List Scalar}
    (hcount : ¬ (rows.length = 0 ∨ maxSegmentPassages < rows.length)) (hd : rowDimensions 0 rows = some d)
    (hxs : vectorComponents lib rows = some xs) :
    xs.length = (UInt64.ofNat rows.length).toNat * (UInt64.ofNat d).toNat := by
  rw [(vectorTable_counts hcount hd).1, (vectorTable_counts hcount hd).2]
  exact (vectorComponents_some (rowDimensions_cases hd).1 hxs).1

variable (lib)

/-- The rows of the field `vectors`.  The bounds leave no overflow in the size of the array. -/
def vectorTable (rows : List Value) : Option VectorTable :=
  if hcount : rows.length = 0 ∨ maxSegmentPassages < rows.length then none
  else
    match hd : rowDimensions 0 rows with
    | none => none
    | some d =>
      match hxs : vectorComponents lib rows with
      | none => none
      | some xs => some ⟨xs, .ofNat rows.length, .ofNat d, vectorTable_length hcount hd hxs⟩

/-- The field `vectors`. -/
def parseVectors (members : List (Member JsonNumber)) : Except IngestError (Option VectorTable) :=
  match get members keyVectors with
  | none => .ok none
  | some (.array rows) =>
    match vectorTable lib rows with
    | none => .error schemaViolation
    | some table => .ok (some table)
  | some _ => .error schemaViolation

/-- The field `id`. -/
def parseId (members : List (Member JsonNumber)) : Except IngestError (Option CString) := do
  let id ← assignString members keyId true maxIdentifierBytes
  if id = some (copyText []) then throw schemaViolation
  return id

/-- The rest of a record that deletes. -/
def parseDelete (members : List (Member JsonNumber)) (id : Option CString) : Except IngestError RawOperation :=
  if members.length ≠ 2 then .error schemaViolation
  else .ok
    { kind := kindDelete, id, url := none, title := none, body := none, metadataJson := none, updatedAtUnixMs := 0,
      vectors := none, vectorCount := 0, vectorDimensions := 0,
      vectors_length := RawOperation.no_vectors }

/-- The operation with its fields. -/
def upsertOperation (id url title body metadataJson : Option CString) (updatedAt : Int64)
    (table : Option VectorTable) : RawOperation where
  kind := kindUpsert
  id := id
  url := url
  title := title
  body := body
  metadataJson := metadataJson
  updatedAtUnixMs := updatedAt
  vectors := table.map VectorTable.values
  vectorCount := table.elim 0 VectorTable.count
  vectorDimensions := table.elim 0 VectorTable.dimensions
  vectors_length := by
    intro vs hvs
    obtain ⟨table, rfl, rfl⟩ := Option.map_eq_some_iff.mp hvs
    exact table.values_length

/-- The rest of a record that inserts or replaces. -/
def parseUpsert (members : List (Member JsonNumber)) (id : Option CString) : Except IngestError RawOperation := do
  let url ← assignString members keyUrl false maxUrlBytes
  let title ← assignString members keyTitle false maxIdentifierBytes
  let body ← assignString members keyBody true maxMetadataBytes
  let metadataJson ← parseMetadata lib members
  let updatedAt ← parseUpdatedAt members
  let table ← parseVectors lib members
  return upsertOperation id (some (url.getD (copyText []))) (some (title.getD (copyText []))) body
    (some metadataJson) updatedAt table

/-- `YAP_V2_ingest_parse_json_value`. -/
def ingestParseJsonValue : Value → Except IngestError RawOperation
  | .object members =>
    if (onlyKeys members recordKeys && jsonKeysUnique (.object members)) = false then .error notARecord
    else
      match get members keyOperation with
      | some (.string kind) => do
        -- `strcmp` stops at the first NUL of the string
        if (bufferString kind).bytes = ascii "upsert" then
          parseUpsert lib members (← parseId members)
        else if (bufferString kind).bytes = ascii "delete" then
          parseDelete members (← parseId members)
        else throw operationUnknown
      | _ => .error operationNotAString
  | _ => .error notARecord

/-! ## What a record should be stored as -/

/-- The text of an operation and the keys of its records. -/
def operationForms : List (UInt32 × Bytes × List Bytes) :=
  [(kindUpsert, ascii "upsert", recordKeys), (kindDelete, ascii "delete", [keyOperation, keyId])]

/-- A string of the record and the C string for it, which is empty for a missing one. -/
def StoredText (value : Option Value) (stored : Option CString) : Prop :=
  ∃ s : Bytes, (value = some (.string s) ∨ value = none ∧ s = []) ∧ stored.map CString.bytes = some s

/-- The stored text of the metadata denotes the object of the record. -/
def StoredMetadata (value : Option Value) (stored : Option CString) : Prop :=
  ∃ fields text v, (value = some (.object fields) ∨ value = none ∧ fields = []) ∧ stored = some text ∧
    lib.read text.bytes = some v ∧ Same (.object fields) v

/-- The stored time is the integer of the record. -/
def StoredTime (value : Option Value) (stored : Int64) : Prop :=
  (value = none ∧ stored = 0) ∨ ∃ n, value = some (.number (.int n)) ∧ stored.toInt = n

/-- The vectors of the record are rows of numbers, as many as the counts say. -/
def StoredVectors (value : Option Value) (op : RawOperation) : Prop :=
  (value = none ∧ op.vectors = none) ∨ ∃ rows, value = some (.array rows) ∧ rows.length = op.vectorCount.toNat ∧
    ∀ row ∈ rows, ∃ items, row = .array items ∧ items.length = op.vectorDimensions.toNat ∧
      ∀ item ∈ items, ∃ n, item = .number n

/-- The fields that only an upsert has. -/
structure FaithfulUpsert (members : List (Member JsonNumber)) (op : RawOperation) : Prop where
  url : StoredText (get members keyUrl) op.url
  title : StoredText (get members keyTitle) op.title
  body : StoredText (get members keyBody) op.body
  has_body : get members keyBody ≠ none
  metadata : StoredMetadata lib (get members keyMetadata) op.metadataJson
  updatedAt : StoredTime (get members keyUpdatedAt) op.updatedAtUnixMs
  vectors : StoredVectors (get members keyVectors) op

/-- The members of a record and the operation that is stored for it. -/
structure FaithfulMembers (members : List (Member JsonNumber)) (op : RawOperation) : Prop where
  unique : (members.map Prod.fst).Nodup
  kind : ∃ form ∈ operationForms, op.kind = form.1 ∧ get members keyOperation = some (.string form.2.1) ∧
    ∀ m ∈ members, m.1 ∈ form.2.2
  id : ∃ s, get members keyId = some (.string s) ∧ 1 ≤ s.length ∧ s.length ≤ maxIdentifierBytes ∧
    op.id.map CString.bytes = some s
  upsert : op.kind = kindUpsert → FaithfulUpsert lib members op

/-- A record is an object, and is stored as it is. -/
def Faithful (v : Value) (op : RawOperation) : Prop := ∃ members, v = .object members ∧ FaithfulMembers lib members op

/-- No NUL and no large integer where the parser loses it. -/
structure PlainMembers (members : List (Member JsonNumber)) : Prop where
  keys : ∀ m ∈ members, 0 ∉ m.1
  texts : ∀ key ∈ [keyOperation, keyId, keyUrl, keyTitle, keyBody], ∀ s, get members key = some (.string s) → 0 ∉ s
  metadata : ∀ v, get members keyMetadata = some v → v.KeysAll fun key => 0 ∉ key
  updatedAt : ∀ n, get members keyUpdatedAt = some (.number (.int n)) → n.1 < 2 ^ 63

/-- A record in which no key, of the metadata neither, and no text but those inside the metadata has a NUL, and
whose time is a signed integer of 64 bits. -/
def PlainRecord : Value → Prop
  | .object members => PlainMembers members
  | _ => True

/-- The value under `id`. -/
def recordId : Value → Option Value
  | .object members => get members keyId
  | _ => none

/-! ## The checks on keys -/

variable {lib}

theorem membersUnique_eq_map (members : List (Member JsonNumber)) :
    membersUnique members = members.map fun m => (m.1, jsonKeysUnique m.2) := by
  induction members with
  | nil => rw [membersUnique, List.map_nil]
  | cons m members ih => rw [membersUnique, ih, List.map_cons]

/-- Sorted keys whose neighbours differ are all different. -/
theorem nodup_of_neighboursDiffer {pairs : List (Bytes × Bool)} (hsorted : pairs.Pairwise fun a b => a.1 ≤ b.1)
    (h : neighboursDiffer pairs = true) : (pairs.map Prod.fst).Nodup := by
  induction pairs with
  | nil => exact List.nodup_nil
  | cons a pairs ih =>
    obtain ⟨hle, hsorted'⟩ := List.pairwise_cons.mp hsorted
    cases pairs with
    | nil => exact List.nodup_singleton _
    | cons b pairs =>
      rw [neighboursDiffer, Bool.and_eq_true, bne_iff_ne] at h
      rw [List.map_cons, List.nodup_cons]
      refine ⟨fun hmem => ?_, ih hsorted' h.2⟩
      obtain ⟨c, hc, hca⟩ := List.mem_map.mp hmem
      -- the next key lies between the first key and any later one
      have hab : a.1 ≤ b.1 := hle b List.mem_cons_self
      have hbc : b.1 ≤ c.1 := by
        rcases List.mem_cons.mp hc with rfl | hc
        · exact List.le_refl _
        · exact (List.pairwise_cons.mp hsorted').1 c hc
      exact h.1 (List.le_antisymm hab (hca ▸ hbc))

theorem nodup_of_jsonKeysUnique {members : List (Member JsonNumber)} (h : jsonKeysUnique (.object members) = true) :
    (members.map Prod.fst).Nodup := by
  rw [jsonKeysUnique, Bool.and_eq_true, membersUnique_eq_map] at h
  have hsorted := List.pairwise_insertionSort (fun a b : Bytes × Bool => a.1 ≤ b.1)
    (members.map fun m => (m.1, jsonKeysUnique m.2))
  have hperm := List.perm_insertionSort (fun a b : Bytes × Bool => a.1 ≤ b.1)
    (members.map fun m => (m.1, jsonKeysUnique m.2))
  have hnodup := (hperm.map Prod.fst).nodup_iff.mp (nodup_of_neighboursDiffer hsorted h.1)
  simpa only [List.map_map, Function.comp_def] using hnodup

theorem onlyKeys_iff {members : List (Member JsonNumber)} {allowed : List Bytes} :
    onlyKeys members allowed = true ↔ ∀ m ∈ members, (bufferString m.1).bytes ∈ allowed := by
  simp [onlyKeys]

theorem mem_of_get {members : List (Member JsonNumber)} {key : Bytes} {v : Value} (h : get members key = some v) :
    (key, v) ∈ members := by
  rw [JsonValue.get, Option.map_eq_some_iff] at h
  obtain ⟨m, hm, rfl⟩ := h
  have hkey : m.1 = key := by simpa using List.find?_some hm
  exact hkey ▸ List.mem_of_find?_eq_some hm

/-- Two members under two keys are all of a record with two members. -/
theorem keys_of_length_two {members : List (Member JsonNumber)} {v w : Value}
    (hlength : members.length = 2)
    (hkind : get members keyOperation = some v) (hid : get members keyId = some w) :
    ∀ m ∈ members, m.1 ∈ [keyOperation, keyId] := by
  have hsubset : [keyOperation, keyId] ⊆ members.map Prod.fst := by
    intro key hkey
    rcases List.mem_pair.mp hkey with rfl | rfl
    · exact List.mem_map_of_mem (mem_of_get hkind)
    · exact List.mem_map_of_mem (mem_of_get hid)
  have hperm := (List.subperm_of_subset (by decide) hsubset).perm_of_length_le (by simp [hlength])
  exact fun m hm => hperm.mem_iff.mpr (List.mem_map_of_mem hm)

/-! ## What the fields are stored as -/

theorem assignString_eq_ok {members : List (Member JsonNumber)} {key : Bytes} {required : Bool} {maxBytes : Nat}
    {stored : Option CString} (h : assignString members key required maxBytes = .ok stored) :
    (get members key = none ∧ required = false ∧ stored = none) ∨
      ∃ s, get members key = some (.string s) ∧ s.length ≤ maxBytes ∧ stored = some (copyText s) := by
  rw [assignString] at h
  split at h
  next hget =>
    cases required with
    | false => exact .inl ⟨hget, rfl, (Except.ok.inj h).symm⟩
    | true => exact (nomatch h)
  next s hget =>
    split at h
    · exact (nomatch h)
    next hle => exact .inr ⟨s, hget, Nat.not_lt.mp hle, (Except.ok.inj h).symm⟩
  next => exact (nomatch h)

/-- A text is stored as it is if nothing is cut off. -/
theorem storedText_iff {members : List (Member JsonNumber)} {key : Bytes} {required : Bool} {maxBytes : Nat}
    {stored : Option CString} (h : assignString members key required maxBytes = .ok stored) :
    StoredText (get members key) (some (stored.getD (copyText []))) ↔
      ∀ s, get members key = some (.string s) → 0 ∉ s := by
  obtain ⟨hget, -, rfl⟩ | ⟨s, hget, -, rfl⟩ := assignString_eq_ok h
  · simp only [hget, StoredText]
    exact ⟨fun _ s hs => (nomatch hs), fun _ => ⟨[], .inr ⟨trivial, rfl⟩, rfl⟩⟩
  · simp only [hget, StoredText, Option.getD_some, Option.map_some, Option.some.injEq, JsonValue.string.injEq,
      forall_eq', reduceCtorEq, false_and, or_false, exists_eq_left']
    exact bufferString_bytes_eq

theorem parseMetadata_eq_ok {members : List (Member JsonNumber)} {text : CString}
    (h : parseMetadata lib members = .ok text) :
    ∃ fields t, (get members keyMetadata = some (.object fields) ∨ get members keyMetadata = none ∧ fields = []) ∧
      lib.write ((object fields).canonical fun key => (bufferString key).bytes) = some t ∧ text = copyText t := by
  have hcanonical : ∀ fields, canonicalJson lib (.object fields) = .ok text →
      ∃ t, lib.write ((object fields).canonical fun key => (bufferString key).bytes) = some t ∧
        text = copyText t := by
    intro fields h
    rw [canonicalJson] at h
    split at h
    · exact (nomatch h)
    next t ht => exact ⟨t, ht, (Except.ok.inj h).symm⟩
  rw [parseMetadata] at h
  split at h
  next hget =>
    obtain ⟨t, ht, htext⟩ := hcanonical [] h
    exact ⟨[], t, .inr ⟨hget, rfl⟩, ht, htext⟩
  next fields hget =>
    obtain ⟨t, ht, htext⟩ := hcanonical fields h
    exact ⟨fields, t, .inl hget, ht, htext⟩
  next => exact (nomatch h)

/-- The metadata are stored as they are if no key is cut off. -/
theorem storedMetadata_iff (hlib : lib.Lawful) {members : List (Member JsonNumber)} {text : CString}
    (h : parseMetadata lib members = .ok text) :
    StoredMetadata lib (get members keyMetadata) (some text) ↔
      ∀ v, get members keyMetadata = some v → v.KeysAll fun key => 0 ∉ key := by
  obtain ⟨fields, t, hget, ht, rfl⟩ := parseMetadata_eq_ok h
  have hread : lib.read (copyText t).bytes =
      some ((object fields).canonical fun key => (bufferString key).bytes) := by
    rw [copyText, bufferString_bytes_eq.mpr (hlib.noNul _ _ ht), hlib.read_write _ _ ht]
  have hsame : Same (object fields : Value) ((object fields).canonical fun key => (bufferString key).bytes) ↔
      (object fields : Value).KeysAll fun key => 0 ∉ key :=
    same_canonical_iff (fun key => (bufferString key).noNul) (fun _ => bufferString_bytes_eq.mpr) _
  constructor
  · rintro ⟨fields', text, v, hvalue, htext, hv, hsame'⟩ w hw
    obtain rfl := Option.some.inj htext
    obtain rfl := Option.some.inj (hread.symm.trans hv)
    have hfields : w = object fields ∧ fields' = fields := by
      rcases hget with hget | ⟨hget, -⟩
      · rcases hvalue with hvalue | ⟨hvalue, -⟩
        · rw [hget] at hw hvalue
          exact ⟨(Option.some.inj hw).symm, (JsonValue.object.inj (Option.some.inj hvalue)).symm⟩
        · exact absurd (hget.symm.trans hvalue) (by simp)
      · exact absurd (hget.symm.trans hw) (by simp)
    obtain ⟨rfl, rfl⟩ := hfields
    exact hsame.mp hsame'
  · intro hplain
    refine ⟨fields, _, _, hget, rfl, hread, hsame.mpr ?_⟩
    rcases hget with hget | ⟨-, rfl⟩
    · exact hplain _ hget
    · simp [KeysAll, MembersKeysAll]

theorem parseUpdatedAt_eq_ok {members : List (Member JsonNumber)} {x : Int64}
    (h : parseUpdatedAt members = .ok x) :
    (get members keyUpdatedAt = none ∧ x = 0) ∨
      ∃ n, get members keyUpdatedAt = some (.number (.int n)) ∧ x = Int64.ofInt n := by
  rw [parseUpdatedAt] at h
  split at h
  next hget => exact .inl ⟨hget, (Except.ok.inj h).symm⟩
  next n hget => exact .inr ⟨n, hget, (Except.ok.inj h).symm⟩
  next => exact (nomatch h)

/-- The bits of an integer mean the integer if it fits. -/
theorem storedTime_iff {members : List (Member JsonNumber)} {x : Int64} (h : parseUpdatedAt members = .ok x) :
    StoredTime (get members keyUpdatedAt) x ↔
      ∀ n, get members keyUpdatedAt = some (.number (.int n)) → n.1 < 2 ^ 63 := by
  obtain ⟨hget, rfl⟩ | ⟨n, hget, rfl⟩ := parseUpdatedAt_eq_ok h
  · rw [hget]
    exact ⟨fun _ n hn => (nomatch hn), fun _ => .inl ⟨rfl, rfl⟩⟩
  · simp only [hget, StoredTime, reduceCtorEq, false_and, false_or, Option.some.injEq, JsonValue.number.injEq,
      JsonNumber.int.injEq, exists_eq_left', forall_eq']
    constructor
    · intro heq
      have hlt := (Int64.ofInt n.1).toInt_lt
      omega
    · intro hlt
      exact Int64.toInt_ofInt_of_le n.2.1 hlt

theorem vectorTable_some {rows : List Value} {table : VectorTable} (h : vectorTable lib rows = some table) :
    rows.length = table.count.toNat ∧ ∀ row ∈ rows, ∃ items, row = .array items ∧
      items.length = table.dimensions.toNat ∧ ∀ item ∈ items, ∃ n, item = .number n := by
  rw [vectorTable] at h
  split at h
  · exact (nomatch h)
  next hcount =>
    split at h
    · exact (nomatch h)
    next d hd =>
      split at h
      · exact (nomatch h)
      next xs hxs =>
        obtain rfl := Option.some.inj h
        dsimp only
        rw [(vectorTable_counts hcount hd).1, (vectorTable_counts hcount hd).2]
        exact ⟨rfl, (vectorComponents_some (rowDimensions_cases hd).1 hxs).2⟩

theorem storedVectors {members : List (Member JsonNumber)} {table : Option VectorTable}
    (h : parseVectors lib members = .ok table) (id url title body metadataJson : Option CString)
    (updatedAt : Int64) : StoredVectors (get members keyVectors)
      (upsertOperation id url title body metadataJson updatedAt table) := by
  rw [parseVectors] at h
  split at h
  next hget =>
    obtain rfl := Except.ok.inj h
    exact .inl ⟨hget, rfl⟩
  next rows hget =>
    split at h
    · exact (nomatch h)
    next table' htable =>
      obtain rfl := Except.ok.inj h
      obtain ⟨hcount, hrows⟩ := vectorTable_some htable
      exact .inr ⟨rows, hget, hcount, hrows⟩
  next => exact (nomatch h)

theorem parseId_eq_ok {members : List (Member JsonNumber)} {id : Option CString} (h : parseId members = .ok id) :
    ∃ s, get members keyId = some (.string s) ∧ 1 ≤ s.length ∧ s.length ≤ maxIdentifierBytes ∧
      id = some (copyText s) := by
  rw [parseId, bind_eq_ok] at h
  obtain ⟨id', hid, h⟩ := h
  split at h
  · exact (nomatch h)
  next hne =>
    obtain rfl := Except.ok.inj h
    obtain ⟨-, hrequired, -⟩ | ⟨s, hget, hmax, rfl⟩ := assignString_eq_ok hid
    · exact (nomatch hrequired)
    · refine ⟨s, hget, Nat.one_le_iff_ne_zero.mpr fun hs => ?_, hmax, rfl⟩
      obtain rfl := List.length_eq_zero_iff.mp hs
      exact hne rfl

/-! ## Refused records -/

/-- An error has a status of its own. -/
def ErrorsNotOk {α : Type} (x : Except IngestError α) : Prop := ∀ e, x = .error e → e.status ≠ .ok

theorem errorsNotOk_ok {α : Type} (a : α) : ErrorsNotOk (.ok a) := fun _ h => (nomatch h)

theorem errorsNotOk_error {α : Type} {e : IngestError} (h : e.status ≠ .ok) :
    ErrorsNotOk (.error e : Except IngestError α) := by
  intro e' he
  obtain rfl := Except.error.inj he
  exact h

theorem ErrorsNotOk.bind {α β : Type} {x : Except IngestError α} {f : α → Except IngestError β} (h : ErrorsNotOk x)
    (hf : ∀ a, ErrorsNotOk (f a)) : ErrorsNotOk (x >>= f) := by
  cases x with
  | error e => exact errorsNotOk_error (h e rfl)
  | ok a => exact hf a

theorem errorsNotOk_assignString (members : List (Member JsonNumber)) (key : Bytes) (required : Bool)
    (maxBytes : Nat) : ErrorsNotOk (assignString members key required maxBytes) := by
  rw [assignString]
  split
  · cases required with
    | true => exact errorsNotOk_error (by decide)
    | false => exact errorsNotOk_ok _
  · split
    · exact errorsNotOk_error (by simp [fieldTooLong])
    · exact errorsNotOk_ok _
  · exact errorsNotOk_error (by decide)

theorem errorsNotOk_canonicalJson (v : Value) : ErrorsNotOk (canonicalJson lib v) := by
  rw [canonicalJson]
  split
  · exact errorsNotOk_error (by decide)
  · exact errorsNotOk_ok _

theorem errorsNotOk_parseUpsert (members : List (Member JsonNumber)) (id : Option CString) :
    ErrorsNotOk (parseUpsert lib members id) := by
  rw [parseUpsert]
  refine (errorsNotOk_assignString _ _ _ _).bind fun url => ?_
  refine (errorsNotOk_assignString _ _ _ _).bind fun title => ?_
  refine (errorsNotOk_assignString _ _ _ _).bind fun body => ?_
  refine ErrorsNotOk.bind ?_ fun metadataJson => ErrorsNotOk.bind ?_ fun updatedAt =>
    ErrorsNotOk.bind ?_ fun table => errorsNotOk_ok _
  · rw [parseMetadata]
    split
    · exact errorsNotOk_canonicalJson _
    · exact errorsNotOk_canonicalJson _
    · exact errorsNotOk_error (by decide)
  · rw [parseUpdatedAt]
    split
    · exact errorsNotOk_ok _
    · exact errorsNotOk_ok _
    · exact errorsNotOk_error (by decide)
  · rw [parseVectors]
    split
    · exact errorsNotOk_ok _
    · split
      · exact errorsNotOk_error (by decide)
      · exact errorsNotOk_ok _
    · exact errorsNotOk_error (by decide)

/-- A record that is refused is not answered `YAP_V2_OK`. -/
theorem errorsNotOk_ingestParseJsonValue (v : Value) : ErrorsNotOk (ingestParseJsonValue lib v) := by
  have hid : ∀ members : List (Member JsonNumber), ErrorsNotOk (parseId members) := by
    intro members
    rw [parseId]
    refine (errorsNotOk_assignString _ _ _ _).bind fun id => ?_
    dsimp only
    split
    · exact errorsNotOk_error (by decide)
    · exact errorsNotOk_ok _
  rw [ingestParseJsonValue.eq_def]
  split
  · split
    · exact errorsNotOk_error (by decide)
    · split
      · split
        · exact (hid _).bind fun id => errorsNotOk_parseUpsert _ _
        · split
          · refine (hid _).bind fun id => ?_
            rw [parseDelete]
            split
            · exact errorsNotOk_error (by decide)
            · exact errorsNotOk_ok _
          · exact errorsNotOk_error (by decide)
      · exact errorsNotOk_error (by decide)
  · exact errorsNotOk_error (by decide)

/-! ## Accepted records -/

/-- What the parser went through for an accepted record. -/
theorem ingestParseJsonValue_eq_ok {v : Value} {op : RawOperation} (h : ingestParseJsonValue lib v = .ok op) :
    ∃ members kind id, v = .object members ∧ onlyKeys members recordKeys = true ∧
      jsonKeysUnique (.object members) = true ∧ get members keyOperation = some (.string kind) ∧
      parseId members = .ok id ∧
      (((bufferString kind).bytes = ascii "upsert" ∧ parseUpsert lib members id = .ok op) ∨
        ((bufferString kind).bytes = ascii "delete" ∧ parseDelete members id = .ok op)) := by
  rw [ingestParseJsonValue.eq_def] at h
  split at h
  next members =>
    split at h
    · exact (nomatch h)
    next hkeys =>
      rw [Bool.not_eq_false, Bool.and_eq_true] at hkeys
      split at h
      next kind hkind =>
        split at h
        next hupsert =>
          obtain ⟨id, hid, hop⟩ := bind_eq_ok.mp h
          exact ⟨members, kind, id, rfl, hkeys.1, hkeys.2, hkind, hid, .inl ⟨hupsert, hop⟩⟩
        next =>
          split at h
          next hdelete =>
            obtain ⟨id, hid, hop⟩ := bind_eq_ok.mp h
            exact ⟨members, kind, id, rfl, hkeys.1, hkeys.2, hkind, hid, .inr ⟨hdelete, hop⟩⟩
          next => exact (nomatch h)
      next => exact (nomatch h)
  next => exact (nomatch h)

/-- The texts and keys of the operations are C strings. -/
theorem operationForms_noNul : ∀ form ∈ operationForms, 0 ∉ form.2.1 ∧ ∀ key ∈ form.2.2, 0 ∉ key := by
  decide

/-- The operation and the keys are those of a form if nothing is cut off. -/
theorem faithfulKind_iff {members : List (Member JsonNumber)} {kind : Bytes} {number : UInt32} {text : Bytes}
    {keys : List Bytes} (hform : (number, text, keys) ∈ operationForms)
    (hget : get members keyOperation = some (.string kind)) (htext : (bufferString kind).bytes = text)
    (hkeys : (∀ m ∈ members, 0 ∉ m.1) → ∀ m ∈ members, m.1 ∈ keys) :
    (∃ form ∈ operationForms, number = form.1 ∧ get members keyOperation = some (.string form.2.1) ∧
      ∀ m ∈ members, m.1 ∈ form.2.2) ↔ (∀ m ∈ members, 0 ∉ m.1) ∧ 0 ∉ kind := by
  constructor
  · rintro ⟨form, hform', -, hget', hallowed⟩
    obtain rfl : kind = form.2.1 := JsonValue.string.inj (Option.some.inj (hget.symm.trans hget'))
    obtain ⟨hplain, hplains⟩ := operationForms_noNul form hform'
    exact ⟨fun m hm => hplains _ (hallowed m hm), hplain⟩
  · rintro ⟨hplains, hplain⟩
    have hkind : kind = text := (bufferString_bytes_eq.mpr hplain).symm.trans htext
    exact ⟨_, hform, rfl, hkind ▸ hget, hkeys hplains⟩

/-- The id is that of the record if nothing is cut off. -/
theorem faithfulId_iff {members : List (Member JsonNumber)} {s : Bytes} (hget : get members keyId = some (.string s))
    (hmin : 1 ≤ s.length) (hmax : s.length ≤ maxIdentifierBytes) :
    (∃ t, get members keyId = some (.string t) ∧ 1 ≤ t.length ∧ t.length ≤ maxIdentifierBytes ∧
      (some (copyText s)).map CString.bytes = some t) ↔ 0 ∉ s := by
  constructor
  · rintro ⟨t, hget', -, -, hstored⟩
    obtain rfl : s = t := JsonValue.string.inj (Option.some.inj (hget.symm.trans hget'))
    exact bufferString_bytes_eq.mp (Option.some.inj hstored)
  · intro hplain
    exact ⟨s, hget, hmin, hmax, congrArg some (bufferString_bytes_eq.mpr hplain)⟩

/-- What is plain beside the keys, the operation and the id. -/
def PlainRest (members : List (Member JsonNumber)) : Prop :=
  (∀ key ∈ [keyUrl, keyTitle, keyBody], ∀ s, get members key = some (.string s) → 0 ∉ s) ∧
    (∀ v, get members keyMetadata = some v → v.KeysAll fun key => 0 ∉ key) ∧
    ∀ n, get members keyUpdatedAt = some (.number (.int n)) → n.1 < 2 ^ 63

theorem faithfulUpsert_iff (hlib : lib.Lawful) {members : List (Member JsonNumber)} {id : Option CString}
    {op : RawOperation} (h : parseUpsert lib members id = .ok op) :
    op.kind = kindUpsert ∧ op.id = id ∧ (FaithfulUpsert lib members op ↔ PlainRest members) := by
  rw [parseUpsert] at h
  obtain ⟨url, hurl, h⟩ := bind_eq_ok.mp h
  obtain ⟨title, htitle, h⟩ := bind_eq_ok.mp h
  obtain ⟨body, hbody, h⟩ := bind_eq_ok.mp h
  obtain ⟨metadataJson, hmetadata, h⟩ := bind_eq_ok.mp h
  obtain ⟨updatedAt, hupdated, h⟩ := bind_eq_ok.mp h
  obtain ⟨table, htable, h⟩ := bind_eq_ok.mp h
  obtain rfl := Except.ok.inj h
  have hvectors := storedVectors htable id (some (url.getD (copyText []))) (some (title.getD (copyText []))) body
    (some metadataJson) updatedAt
  -- a missing body is refused
  have hpresent : get members keyBody ≠ none ∧ body = some (body.getD (copyText [])) := by
    obtain ⟨-, hrequired, -⟩ | ⟨s, hget, -, rfl⟩ := assignString_eq_ok hbody
    · exact (nomatch hrequired)
    · exact ⟨by simp [hget], rfl⟩
  refine ⟨rfl, rfl, ?_⟩
  simp only [PlainRest, List.forall_mem_cons, List.not_mem_nil, false_imp_iff, forall_const, and_true]
  rw [← storedText_iff hurl, ← storedText_iff htitle, ← storedText_iff hbody, ← hpresent.2,
    ← storedMetadata_iff hlib hmetadata, ← storedTime_iff hupdated]
  constructor
  · intro hf
    exact ⟨⟨hf.url, hf.title, hf.body⟩, hf.metadata, hf.updatedAt⟩
  · rintro ⟨⟨hfUrl, hfTitle, hfBody⟩, hfMetadata, hfUpdated⟩
    exact ⟨hfUrl, hfTitle, hfBody, hpresent.1, hfMetadata, hfUpdated, hvectors⟩

/-- A record that deletes has no other fields. -/
theorem parseDelete_eq_ok {members : List (Member JsonNumber)} {id : Option CString} {op : RawOperation} {v w : Value}
    (hkind : get members keyOperation = some v) (hid : get members keyId = some w)
    (h : parseDelete members id = .ok op) :
    op.kind = kindDelete ∧ op.id = id ∧ (∀ m ∈ members, m.1 ∈ [keyOperation, keyId]) ∧
      ∀ key, key ∉ [keyOperation, keyId] → get members key = none := by
  rw [parseDelete] at h
  split at h
  · cases h
  next hlength =>
    obtain rfl := Except.ok.inj h
    have hkeys := keys_of_length_two (not_not.mp hlength) hkind hid
    refine ⟨rfl, rfl, hkeys, fun key hkey => ?_⟩
    by_contra hsome
    obtain ⟨x, hx⟩ := Option.ne_none_iff_exists'.mp hsome
    exact hkey (hkeys _ (mem_of_get hx))

theorem plainMembers_iff {members : List (Member JsonNumber)} {kind id : Bytes}
    (hkind : get members keyOperation = some (.string kind)) (hid : get members keyId = some (.string id)) :
    PlainMembers members ↔ ((∀ m ∈ members, 0 ∉ m.1) ∧ 0 ∉ kind) ∧ 0 ∉ id ∧ PlainRest members := by
  have hone : ∀ {key t : Bytes}, get members key = some (.string t) →
      ((∀ u, get members key = some (.string u) → 0 ∉ u) ↔ 0 ∉ t) := by
    intro key t ht
    rw [ht]
    simp only [Option.some.injEq, JsonValue.string.injEq, forall_eq']
  constructor
  · intro hp
    have htexts := hp.texts
    rw [List.forall_mem_cons, List.forall_mem_cons, hone hkind, hone hid] at htexts
    exact ⟨⟨hp.keys, htexts.1⟩, htexts.2.1, htexts.2.2, hp.metadata, hp.updatedAt⟩
  · rintro ⟨⟨hkeys, hplainKind⟩, hplainId, htexts, hmetadata, hupdated⟩
    refine ⟨hkeys, ?_, hmetadata, hupdated⟩
    rw [List.forall_mem_cons, List.forall_mem_cons, hone hkind, hone hid]
    exact ⟨hplainKind, hplainId, htexts⟩

/-- An accepted record is stored as it is exactly if it is plain. -/
theorem faithful_iff_plain (hlib : lib.Lawful) {v : Value} {op : RawOperation}
    (h : ingestParseJsonValue lib v = .ok op) : Faithful lib v op ↔ PlainRecord v := by
  obtain ⟨members, kind, id, rfl, honly, hunique, hkind, hid, hrest⟩ := ingestParseJsonValue_eq_ok h
  obtain ⟨s, hgetId, hmin, hmax, rfl⟩ := parseId_eq_ok hid
  have hfaithful : Faithful lib (.object members) op ↔ FaithfulMembers lib members op :=
    ⟨fun ⟨_, heq, hf⟩ => JsonValue.object.inj heq ▸ hf, fun hf => ⟨members, rfl, hf⟩⟩
  have hnodup := nodup_of_jsonKeysUnique hunique
  rw [hfaithful, PlainRecord, plainMembers_iff hkind hgetId, ← faithfulId_iff hgetId hmin hmax]
  rcases hrest with ⟨hkindText, hop⟩ | ⟨hkindText, hop⟩
  · -- an upsert may have all keys
    obtain ⟨hopKind, hopId, hupsert⟩ := faithfulUpsert_iff hlib hop
    have hallowed : (∀ m ∈ members, 0 ∉ m.1) → ∀ m ∈ members, m.1 ∈ recordKeys := by
      intro hplain m hm
      have hkey := onlyKeys_iff.mp honly m hm
      rwa [bufferString_bytes_eq.mpr (hplain m hm)] at hkey
    have hform : (kindUpsert, ascii "upsert", recordKeys) ∈ operationForms := by decide
    rw [← faithfulKind_iff hform hkind hkindText hallowed, ← hopKind, ← hopId, ← hupsert]
    exact ⟨fun hf => ⟨hf.kind, hf.id, hf.upsert hopKind⟩,
      fun ⟨hfKind, hfId, hf⟩ => ⟨hnodup, hfKind, hfId, fun _ => hf⟩⟩
  · -- a deletion has only the two keys that it may have
    obtain ⟨hopKind, hopId, hkeys, hnone⟩ := parseDelete_eq_ok hkind hgetId hop
    have hform : (kindDelete, ascii "delete", [keyOperation, keyId]) ∈ operationForms := by decide
    have habsent : ∀ key ∈ [keyUrl, keyTitle, keyBody, keyMetadata, keyUpdatedAt], get members key = none := by
      have hother : ∀ key ∈ [keyUrl, keyTitle, keyBody, keyMetadata, keyUpdatedAt],
          key ∉ [keyOperation, keyId] := by decide
      exact fun key hkey => hnone key (hother key hkey)
    have hplain : PlainRest members := by
      simp only [List.forall_mem_cons, List.not_mem_nil, false_imp_iff, forall_const, and_true] at habsent
      simp [PlainRest, habsent]
    rw [← faithfulKind_iff hform hkind hkindText fun _ => hkeys, ← hopKind, ← hopId]
    refine ⟨fun hf => ⟨hf.kind, hf.id, hplain⟩, fun ⟨hfKind, hfId, _⟩ => ⟨hnodup, hfKind, hfId, fun hup => ?_⟩⟩
    exact absurd (hopKind.symm.trans hup) (by decide)

/-- **An accepted record is stored faithfully exactly if it is plain**, and plain records with different ids are
stored under different ids. -/
theorem ingest_faithful (lib : JsonLibrary) (hlib : lib.Lawful) :
    (∀ v op, ingestParseJsonValue lib v = .ok op → (Faithful lib v op ↔ PlainRecord v)) ∧
    ∀ v w op op', ingestParseJsonValue lib v = .ok op → ingestParseJsonValue lib w = .ok op' → PlainRecord v →
      PlainRecord w → recordId v ≠ recordId w → op.id ≠ op'.id := by
  refine ⟨fun v op h => faithful_iff_plain hlib h, fun v w op op' h h' hv hw hne heq => hne ?_⟩
  obtain ⟨members, rfl, hf⟩ := (faithful_iff_plain hlib h).mpr hv
  obtain ⟨members', rfl, hf'⟩ := (faithful_iff_plain hlib h').mpr hw
  obtain ⟨s, hs, -, -, hstored⟩ := hf.id
  obtain ⟨s', hs', -, -, hstored'⟩ := hf'.id
  have hbytes : s = s' := Option.some.inj (hstored.symm.trans (heq ▸ hstored'))
  rw [recordId, recordId, hs, hs', hbytes]

/-- A library that knows the empty object. -/
def emptyObjectLibrary : JsonLibrary where
  write
    | .object [] => some [123, 125]
    | _ => none
  read text := if text = [123, 125] then some (.object []) else none
  single _ := none

theorem emptyObjectLibrary_lawful : emptyObjectLibrary.Lawful := by
  have hwrite : ∀ v text, emptyObjectLibrary.write v = some text → v = .object [] ∧ text = [123, 125] := by
    intro v text h
    rw [emptyObjectLibrary] at h
    dsimp only at h
    split at h
    · exact ⟨rfl, (Option.some.inj h).symm⟩
    · exact (nomatch h)
  constructor
  · intro v text h
    rw [(hwrite v text h).2]
    decide
  · intro v text h
    obtain ⟨rfl, rfl⟩ := hwrite v text h
    rfl

/-- `{"operation":"upsert","id":"a","body":"b"}`. -/
def upsertSample : Value :=
  .object [(keyOperation, .string (ascii "upsert")), (keyId, .string (ascii "a")), (keyBody, .string (ascii "b"))]

/-- `{"operation":"delete","id":…}`. -/
def deleteSample (id : Bytes) : Value :=
  .object [(keyOperation, .string (ascii "delete")), (keyId, .string id)]

def upsertSampleOperation : RawOperation :=
  upsertOperation (some (copyText (ascii "a"))) (some (copyText [])) (some (copyText [])) (some (copyText (ascii "b")))
    (some (copyText [123, 125])) 0 none

theorem upsertSample_plain : PlainRecord upsertSample := by
  refine ⟨?_, ?_, fun v hv => (nomatch hv), fun n hn => (nomatch hn)⟩
  · intro m hm
    simp only [List.mem_cons, List.not_mem_nil, or_false] at hm
    obtain rfl | rfl | rfl := hm
    · decide
    · decide
    · decide
  · intro key hkey s hs
    have hmem := mem_of_get hs
    simp only [List.mem_cons, List.not_mem_nil, or_false, Prod.mk.injEq, JsonValue.string.injEq] at hmem
    obtain ⟨-, rfl⟩ | ⟨-, rfl⟩ | ⟨-, rfl⟩ := hmem
    · decide
    · decide
    · decide

theorem ingest_faithful_sample : ingestParseJsonValue emptyObjectLibrary upsertSample = .ok upsertSampleOperation ∧
    PlainRecord upsertSample ∧ Faithful emptyObjectLibrary upsertSample upsertSampleOperation := by
  have h : ingestParseJsonValue emptyObjectLibrary upsertSample = .ok upsertSampleOperation := by rfl
  exact ⟨h, upsertSample_plain,
    ((ingest_faithful emptyObjectLibrary emptyObjectLibrary_lawful).1 _ _ h).mpr upsertSample_plain⟩

/-- The record with the id `a`, NUL, `b` deletes the document `a`. -/
theorem deletion_under_cut_id : ∃ op, ingestParseJsonValue emptyObjectLibrary (deleteSample [97, 0, 98]) = .ok op ∧
    ingestParseJsonValue emptyObjectLibrary (deleteSample [97]) = .ok op ∧
    ¬ Faithful emptyObjectLibrary (deleteSample [97, 0, 98]) op := by
  refine ⟨_, rfl, rfl, fun hf => ?_⟩
  have hplain := (faithful_iff_plain emptyObjectLibrary_lawful rfl).mp hf
  exact hplain.texts keyId (by decide) [97, 0, 98] rfl (by decide)

end Yappod

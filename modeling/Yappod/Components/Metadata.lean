import Yappod.Common.Types

/-!
# Metadata scalars

`metadata.yap2` stores, for every filterable field and every document, the scalars found at the
field's path in the document's metadata.  JSON is decoded by yyjson; a decoded value is a `Json`
here, a number being represented by the text the program prints it as.
-/

set_option autoImplicit false

namespace Yappod

/-- A decoded JSON value. -/
inductive Json
  | null
  | bool (b : Bool)
  /-- A number, by the text `snprintf` makes of it (`%lld`, `%llu` or `%.17g`). -/
  | number (text : Bytes)
  | str (s : Bytes)
  | arr (items : List Json)
  | obj (members : List (Bytes × Json))

inductive MetadataType
  | null
  | bool
  | number
  | string
  deriving DecidableEq, Repr

/-- One stored scalar: the index of its field, its type and its text. -/
structure MetadataScalar where
  field : Nat
  type : MetadataType
  text : Bytes
  deriving DecidableEq, Repr

/-- `yyjson_obj_getn`: the first member of that name. -/
def Json.get : Json → Bytes → Option Json
  | .obj members, key => (members.find? fun m => m.1 = key).map (·.2)
  | _, _ => none

/-- `path_value`: follow the steps of a path. -/
def Json.pathValue : Json → List Bytes → Option Json
  | _, [] => none
  | v, [key] => v.get key
  | v, key :: key' :: rest => (v.get key).bind fun w => w.pathValue (key' :: rest)

/-- The steps of a dotted path. -/
def pathSteps (path : Bytes) : List Bytes := path.splitOn 46

def Json.isObj : Json → Bool
  | .obj _ => true
  | _ => false

/-- `append_scalar`: nested arrays and objects are skipped, a number too long for the print buffer
is refused. -/
def scalarEntry (field : Nat) : Json → Except Status (List MetadataScalar)
  | .null => .ok [⟨field, .null, []⟩]
  | .bool b => .ok [⟨field, .bool, [if b then 1 else 0]⟩]
  | .number text => if 64 ≤ text.length then .error .outOfRange else .ok [⟨field, .number, text⟩]
  | .str s => .ok [⟨field, .string, s⟩]
  | .arr _ => .ok []
  | .obj _ => .ok []

/-- The elements of an array, one after the other. -/
def arrayEntries (field : Nat) : List Json → Except Status (List MetadataScalar)
  | [] => .ok []
  | v :: vs => do
    let here ← scalarEntry field v
    let rest ← arrayEntries field vs
    return here ++ rest

/-- `append_value`: an array counts as its elements. -/
def valueEntries (field : Nat) : Json → Except Status (List MetadataScalar)
  | .arr items => arrayEntries field items
  | v => scalarEntry field v

/-- The scalars of one document, field by field, from the `i`-th field on. -/
def fieldEntries (root : Json) : Nat → List Bytes → Except Status (List MetadataScalar)
  | _, [] => .ok []
  | i, path :: paths => do
    let here ← match root.pathValue (pathSteps path) with
      | none => .ok []
      | some v => valueEntries i v
    let rest ← fieldEntries root (i + 1) paths
    return here ++ rest

/-- The scalars of one document. -/
def documentMetadata (yyjsonRead : Bytes → Option Json) (fields : List Bytes) (d : Document) :
    Except Status (List MetadataScalar) :=
  match yyjsonRead d.metadataJson with
  | none => .error .invalidFormat
  | some root => if root.isObj then fieldEntries root 0 fields else .error .invalidFormat

/-! ## Payload sizes -/

/-- The size of the stored scalars of one document. -/
def scalarsBytes (scalars : List MetadataScalar) : Nat :=
  (scalars.map fun s => 20 + s.text.length).sum

/-- `metadata_base`: the header and the field names. -/
def metadataBase (fields : List Bytes) : Nat := 24 + (fields.map fun f => 4 + f.length).sum

end Yappod

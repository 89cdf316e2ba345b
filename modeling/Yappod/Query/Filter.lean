import Mathlib.Order.Defs.LinearOrder
import Yappod.Storage.MetadataCodec

/-!
# Filters

A filter is a JSON value.  `YAP_V2_filter_compile` checks that it is one and keeps it; `YAP_V2_filter_matches`
evaluates it for a document, with what the metadata file says about that document.  Both look up operators, keys and
the names of fields with functions for strings that end in a NUL.

`FilterHolds` is what a filter means for the metadata of a document, with names compared as whole byte strings.  The
code agrees with it for filters whose names have no NUL and whose ranges name no member twice (`filter_meaning`).
Numbers are compared by the values that `strtod` gives their texts, in any linear order.
-/

set_option autoImplicit false

namespace Yappod

/-- `MAX_FILTER_DEPTH`. -/
def maxFilterDepth : Nat := 32

/-- `MAX_FILTER_NODES`. -/
def maxFilterNodes : Nat := 1024

/-- What a function for strings that end in a NUL sees of a byte string. -/
def cText (s : Bytes) : Bytes := s.takeWhile (· ≠ 0)

/-! ## Compiling -/

section Compile

variable (index : MetadataIndex)

/-- `only_keys`. -/
def onlyFilterKeys (keys : List Bytes) : Json → Bool
  | .obj members => members.all fun m => cText m.1 ∈ keys
  | _ => false

/-- `yyjson_obj_size`. -/
def Json.size : Json → Nat
  | .obj members => members.length
  | _ => 0

/-- `YAP_V2_metadata_field_ordinal`. -/
def metadataFieldOrdinal (field : Bytes) : Option Nat := index.fields.findIdx? (· = cText field)

/-- `field_valid`. -/
def fieldValid (body : Json) : Bool :=
  match body.get (ascii "field") with
  | some (.str field) => field.length ≤ maxFilterFieldBytes ∧ (metadataFieldOrdinal index field).isSome
  | _ => false

def Json.isNumber : Json → Bool
  | .number _ => true
  | _ => false

/-- The bounds of a range. -/
def boundNames : List Bytes := [ascii "gt", ascii "gte", ascii "lt", ascii "lte"]

/-- `values` of an `in` is an array of scalars that is not empty. -/
def valuesValid (body : Json) : Bool :=
  match body.get (ascii "values") with
  | some (.arr values) => !values.isEmpty && values.all Json.isScalar
  | _ => false

/-- The bounds of a range are numbers, and there is one. -/
def boundsValid (body : Json) : Bool :=
  (boundNames.filterMap body.get).all Json.isNumber && !(boundNames.filterMap body.get).isEmpty

/-- The checks of `validate_node` for an operator that has a field. -/
def validateLeaf (op : Bytes) (body : Json) : Bool :=
  if op = ascii "eq" then
    onlyFilterKeys [ascii "field", ascii "value"] body && body.size = 2 && fieldValid index body &&
      (body.get (ascii "value")).any Json.isScalar
  else if op = ascii "exists" then onlyFilterKeys [ascii "field"] body && body.size = 1 && fieldValid index body
  else if op = ascii "in" then
    onlyFilterKeys [ascii "field", ascii "values"] body && body.size = 2 && fieldValid index body && valuesValid body
  else if op = ascii "range" then
    onlyFilterKeys (ascii "field" :: boundNames) body && fieldValid index body && boundsValid body
  else false

mutual

/-- `validate_node`, with the number of nodes so far: the number afterwards, if the node is accepted. -/
def validateNode : Json → Nat → Nat → Option Nat
  | .obj [(op, body)], depth, nodes =>
    if maxFilterDepth < depth ∨ maxFilterNodes < nodes + 1 then none
    else if cText op = ascii "not" then validateNode body (depth + 1) (nodes + 1)
    else if cText op = ascii "and" ∨ cText op = ascii "or" then
      match body with
      | .arr items => if items.isEmpty then none else validateNodes items (depth + 1) (nodes + 1)
      | _ => none
    else if validateLeaf index (cText op) body then some (nodes + 1)
    else none
  | _, _, _ => none

/-- The loop of `validate_node` over the items of `and` and `or`. -/
def validateNodes : List Json → Nat → Nat → Option Nat
  | [], _, nodes => some nodes
  | item :: items, depth, nodes =>
    match validateNode item depth nodes with
    | none => none
    | some nodes => validateNodes items depth nodes

end

/-- `YAP_V2_filter_compile`: the filter. -/
def filterCompile (yyjsonRead : Bytes → Option Json) (json : Bytes) : Except Status Json :=
  if json = [] then .error .invalidArgument
  else
    match yyjsonRead json with
    | none => .error .invalidFormat
    | some root => if (validateNode index root 1 0).isSome then .ok root else .error .invalidFormat

end Compile

/-! ## Evaluating -/

section Evaluate

variable {K : Type} [LinearOrder K] (strtod : Bytes → K) (index : MetadataIndex)

/-- The size of the buffer for a number. -/
def numberBufferBytes : Nat := 65

/-- `literal_equal`. -/
def literalEqual (entry : MetadataEntry) : Json → Bool
  | .null => entry.type = .null
  | .bool b => entry.type = .bool ∧ entry.value = [if b then 1 else 0]
  | .str s => entry.type = .string ∧ entry.value = s
  | .number text =>
    entry.type = .number ∧ ¬ numberBufferBytes ≤ entry.value.length ∧ strtod entry.value = strtod text
  | _ => false

/-- A comparison of `eval_node` with one of the bounds, if the range has it. -/
def boundHolds (body : Json) (name : Bytes) (holds : K → Bool) : Bool :=
  match body.get name with
  | some (.number text) => holds (strtod text)
  | _ => true

/-- The branch of `eval_node` for a range, for one entry. -/
def rangeHolds (body : Json) (entry : MetadataEntry) : Bool :=
  let number := strtod entry.value
  entry.type = .number && !decide (numberBufferBytes ≤ entry.value.length) &&
    boundHolds strtod body (ascii "gt") (fun value => value < number) &&
    boundHolds strtod body (ascii "gte") (fun value => value ≤ number) &&
    boundHolds strtod body (ascii "lt") (fun value => number < value) &&
    boundHolds strtod body (ascii "lte") (fun value => number ≤ value)

/-- The branches of `eval_node` for the operators that have a field. -/
def evalLeaf (op : Bytes) (body : Json) (document : Nat) : Bool :=
  match body.get (ascii "field") with
  | some (.str field) =>
    match metadataFieldOrdinal index field with
    | none => false
    | some ordinal =>
      let entries := index.entriesAt ordinal document
      if op = ascii "exists" then !entries.isEmpty
      else if op = ascii "eq" then
        entries.any fun entry => (body.get (ascii "value")).any (literalEqual strtod entry)
      else if op = ascii "in" then
        entries.any fun entry =>
          match body.get (ascii "values") with
          | some (.arr values) => values.any (literalEqual strtod entry)
          | _ => false
      else if op = ascii "range" then entries.any (rangeHolds strtod body)
      else false
  | _ => false

mutual

/-- `eval_node`; it is only reached for nodes that were accepted. -/
def evalNode (document : Nat) : Json → Bool
  | .obj [(op, body)] =>
    if cText op = ascii "not" then !evalNode document body
    else if cText op = ascii "and" then
      match body with
      | .arr items => evalAll document items
      | _ => false
    else if cText op = ascii "or" then
      match body with
      | .arr items => evalAny document items
      | _ => false
    else evalLeaf strtod index (cText op) body document
  | _ => false

/-- The loop over the items of an `and`. -/
def evalAll (document : Nat) : List Json → Bool
  | [] => true
  | item :: items => if evalNode document item then evalAll document items else false

/-- The loop over the items of an `or`. -/
def evalAny (document : Nat) : List Json → Bool
  | [] => false
  | item :: items => if evalNode document item then true else evalAny document items

end

/-- `YAP_V2_filter_matches`, for a filter that was compiled with the index. -/
def filterMatches (filter : Json) (document : Nat) : Except Status Bool :=
  if index.documentCount ≤ document then .error .invalidArgument else .ok (evalNode strtod index document filter)

end Evaluate

/-! ## What a filter means -/

section Meaning

variable {K : Type} [LinearOrder K] (strtod : Bytes → K) (root : Json)

/-- Two scalars are equal: of one type, and numbers by their values. -/
def ScalarEqual : Json → Json → Prop
  | .null, .null => True
  | .bool a, .bool b => a = b
  | .str a, .str b => a = b
  | .number a, .number b => strtod a = strtod b
  | _, _ => False

/-- A number is inside all bounds of a range. -/
structure InRange (members : List (Bytes × Json)) (text : Bytes) : Prop where
  gt : ∀ bound, (ascii "gt", .number bound) ∈ members → strtod bound < strtod text
  gte : ∀ bound, (ascii "gte", .number bound) ∈ members → strtod bound ≤ strtod text
  lt : ∀ bound, (ascii "lt", .number bound) ∈ members → strtod text < strtod bound
  lte : ∀ bound, (ascii "lte", .number bound) ∈ members → strtod text ≤ strtod bound

/-- One scalar satisfies an operator. -/
def Satisfies (op : Bytes) (members : List (Bytes × Json)) (v : Json) : Prop :=
  if op = ascii "exists" then True
  else if op = ascii "eq" then ∃ literal, (ascii "value", literal) ∈ members ∧ ScalarEqual strtod v literal
  else if op = ascii "in" then
    ∃ values, (ascii "values", .arr values) ∈ members ∧ ∃ literal ∈ values, ScalarEqual strtod v literal
  else if op = ascii "range" then ∃ text, v = .number text ∧ InRange strtod members text
  else False

/-- Some scalar at the path of the field satisfies the operator. -/
def LeafHolds (op : Bytes) : Json → Prop
  | .obj members => ∃ field, (ascii "field", .str field) ∈ members ∧
    ∃ v ∈ root.scalarsAt field, Satisfies strtod op members v
  | _ => False

mutual

/-- The Boolean value of a filter for the metadata of a document. -/
def FilterHolds : Json → Prop
  | .obj [(op, body)] =>
    if op = ascii "not" then ¬ FilterHolds body
    else if op = ascii "and" then
      match body with
      | .arr items => AllHold items
      | _ => False
    else if op = ascii "or" then
      match body with
      | .arr items => AnyHolds items
      | _ => False
    else LeafHolds strtod root op body
  | _ => False

def AllHold : List Json → Prop
  | [] => True
  | item :: items => FilterHolds item ∧ AllHold items

def AnyHolds : List Json → Prop
  | [] => False
  | item :: items => FilterHolds item ∨ AnyHolds items

end

end Meaning

mutual

/-- The levels of a filter. -/
def filterDepth : Json → Nat
  | .obj [(op, body)] =>
    if cText op = ascii "not" then filterDepth body + 1
    else if cText op = ascii "and" ∨ cText op = ascii "or" then
      match body with
      | .arr items => filterDepths items + 1
      | _ => 1
    else 1
  | _ => 1

def filterDepths : List Json → Nat
  | [] => 0
  | item :: items => max (filterDepth item) (filterDepths items)

end

mutual

/-- The nodes of a filter. -/
def filterNodes : Json → Nat
  | .obj [(op, body)] =>
    if cText op = ascii "not" then filterNodes body + 1
    else if cText op = ascii "and" ∨ cText op = ascii "or" then
      match body with
      | .arr items => filterNodesAll items + 1
      | _ => 1
    else 1
  | _ => 1

def filterNodesAll : List Json → Nat
  | [] => 0
  | item :: items => filterNodes item + filterNodesAll items

end

/-- An operator's members have different names, and the name of its field has no NUL. -/
def PlainBody : Json → Prop
  | .obj members => (members.map Prod.fst).Nodup ∧ ∀ field, (ascii "field", .str field) ∈ members → 0 ∉ field
  | _ => True

mutual

/-- No operator and no name of a field has a NUL, and no member is named twice. -/
def PlainNames : Json → Prop
  | .obj [(op, body)] => 0 ∉ op ∧
    if op = ascii "not" then PlainNames body
    else if op = ascii "and" ∨ op = ascii "or" then
      match body with
      | .arr items => AllPlain items
      | _ => True
    else PlainBody body
  | _ => True

def AllPlain : List Json → Prop
  | [] => True
  | item :: items => PlainNames item ∧ AllPlain items

end

/-! ## Induction over filters -/

/-- Induction over a value, with hypotheses for the items of an array and the values of an object. -/
@[elab_as_elim]
theorem Json.structuralInduction {motive : Json → Prop} (null : motive .null) (bool : ∀ b, motive (.bool b))
    (number : ∀ text, motive (.number text)) (str : ∀ s, motive (.str s))
    (arr : ∀ items, (∀ item ∈ items, motive item) → motive (.arr items))
    (obj : ∀ members : List (Bytes × Json), (∀ m ∈ members, motive m.2) → motive (.obj members)) (v : Json) : motive v :=
  @Json.rec motive (fun items => ∀ item ∈ items, motive item) (fun members => ∀ m ∈ members, motive m.2)
    (fun m => motive m.2) null bool number str arr obj
    (fun _ h => absurd h List.not_mem_nil) (fun _ _ h hs => List.forall_mem_cons.mpr ⟨h, hs⟩)
    (fun _ h => absurd h List.not_mem_nil) (fun _ _ h hs => List.forall_mem_cons.mpr ⟨h, hs⟩)
    (fun _ _ h => h) v

/-- Induction over a filter: a node has a body, and the items of the body may be nodes. -/
@[elab_as_elim]
theorem Json.nodeInduction {motive : Json → Prop} (other : ∀ v, (∀ op body, v ≠ .obj [(op, body)]) → motive v)
    (node : ∀ op body, motive body → (∀ items, body = .arr items → ∀ item ∈ items, motive item) →
      motive (.obj [(op, body)])) (v : Json) : motive v := by
  suffices h : motive v ∧ ∀ items, v = .arr items → ∀ item ∈ items, motive item from h.1
  induction v using Json.structuralInduction with
  | null | bool _ | number _ | str _ =>
    exact ⟨other _ (fun _ _ h => nomatch h), fun _ h => nomatch h⟩
  | arr items ih =>
    refine ⟨other _ (fun _ _ h => nomatch h), ?_⟩
    rintro items' ⟨⟩ item hitem
    exact (ih item hitem).1
  | obj members ih =>
    refine ⟨?_, fun _ h => nomatch h⟩
    by_cases hnode : ∃ op body, members = [(op, body)]
    · obtain ⟨op, body, rfl⟩ := hnode
      obtain ⟨hbody, hitems⟩ := ih (op, body) List.mem_cons_self
      exact node op body hbody hitems
    · exact other _ fun op body h => hnode ⟨op, body, Json.obj.inj h⟩

/-! ## What is accepted -/

section Accepted

variable {index : MetadataIndex}

theorem validateNode_node (op : Bytes) (body : Json) (depth nodes : Nat) :
    validateNode index (.obj [(op, body)]) depth nodes =
      if maxFilterDepth < depth ∨ maxFilterNodes < nodes + 1 then none
      else if cText op = ascii "not" then validateNode index body (depth + 1) (nodes + 1)
      else if cText op = ascii "and" ∨ cText op = ascii "or" then
        match body with
        | .arr items => if items.isEmpty then none else validateNodes index items (depth + 1) (nodes + 1)
        | _ => none
      else if validateLeaf index (cText op) body then some (nodes + 1)
      else none := by
  cases body <;> rfl

theorem filterNodes_node (op : Bytes) (body : Json) : filterNodes (.obj [(op, body)]) =
    if cText op = ascii "not" then filterNodes body + 1
    else if cText op = ascii "and" ∨ cText op = ascii "or" then
      match body with
      | .arr items => filterNodesAll items + 1
      | _ => 1
    else 1 := by
  cases body <;> rfl

theorem filterDepth_node (op : Bytes) (body : Json) : filterDepth (.obj [(op, body)]) =
    if cText op = ascii "not" then filterDepth body + 1
    else if cText op = ascii "and" ∨ cText op = ascii "or" then
      match body with
      | .arr items => filterDepths items + 1
      | _ => 1
    else 1 := by
  cases body <;> rfl

theorem validateNode_other {v : Json} (h : ∀ op body, v ≠ .obj [(op, body)]) (depth nodes : Nat) :
    validateNode index v depth nodes = none := by
  cases v with
  | null | bool _ | number _ | str _ | arr _ => rfl
  | obj members =>
    match members, h with
    | [], _ => rfl
    | [(op, body)], h => exact absurd rfl (h op body)
    | _ :: _ :: _, _ => rfl

/-- The items of an `and` or `or` are accepted one after the other. -/
theorem validateNodes_limits {items : List Json} {depth nodes n : Nat}
    (ih : ∀ item ∈ items, ∀ nodes n, validateNode index item depth nodes = some n →
      n = nodes + filterNodes item ∧ n ≤ maxFilterNodes ∧ depth + filterDepth item ≤ maxFilterDepth + 1)
    (hnodes : nodes ≤ maxFilterNodes) (hdepth : depth ≤ maxFilterDepth + 1)
    (h : validateNodes index items depth nodes = some n) :
    n = nodes + filterNodesAll items ∧ n ≤ maxFilterNodes ∧ depth + filterDepths items ≤ maxFilterDepth + 1 := by
  induction items generalizing nodes with
  | nil =>
    cases h
    exact ⟨rfl, hnodes, hdepth⟩
  | cons item items ihItems =>
    rw [validateNodes] at h
    split at h
    · cases h
    · rename_i n' hitem
      obtain ⟨rfl, hn', hitemDepth⟩ := ih item List.mem_cons_self _ _ hitem
      obtain ⟨rfl, hn, hrest⟩ := ihItems (fun item' hitem' => ih item' (List.mem_cons_of_mem _ hitem')) hn' h
      rw [filterNodesAll, filterDepths]
      exact ⟨by omega, hn, by omega⟩

/-- **What is accepted is neither too deep nor too large.** -/
theorem validateNode_limits {v : Json} {depth nodes n : Nat} (h : validateNode index v depth nodes = some n) :
    n = nodes + filterNodes v ∧ n ≤ maxFilterNodes ∧ depth + filterDepth v ≤ maxFilterDepth + 1 := by
  induction v using Json.nodeInduction generalizing depth nodes n with
  | other v hother =>
    rw [validateNode_other hother] at h
    cases h
  | node op body ihBody ihItems =>
    rw [validateNode_node] at h
    rw [filterNodes_node, filterDepth_node]
    split at h
    · cases h
    rename_i hlimits
    split at h
    · rename_i hnot
      rw [if_pos hnot, if_pos hnot]
      obtain ⟨rfl, hn, hdepth⟩ := ihBody h
      exact ⟨by omega, hn, by omega⟩
    rename_i hnot
    rw [if_neg hnot, if_neg hnot]
    split at h
    · rename_i hjunction
      rw [if_pos hjunction, if_pos hjunction]
      split at h
      · rename_i items
        split at h
        · cases h
        · obtain ⟨rfl, hn, hdepth⟩ :=
            validateNodes_limits (fun item hitem _ _ => ihItems items rfl item hitem) (by omega) (by omega) h
          exact ⟨by omega, hn, by omega⟩
      · cases h
    · rename_i hjunction
      rw [if_neg hjunction, if_neg hjunction]
      split at h
      · cases h
        exact ⟨rfl, by omega, by omega⟩
      · cases h

end Accepted

/-! ## Names and members -/

theorem cText_eq_self {s : Bytes} (h : 0 ∉ s) : cText s = s := by
  refine List.takeWhile_eq_self_iff.mpr fun b hb => decide_eq_true ?_
  rintro rfl
  exact h hb

/-- Where no name stands twice, a member is found by its name. -/
theorem Json.get_eq_some_iff {members : List (Bytes × Json)} (hnodup : (members.map Prod.fst).Nodup) {key : Bytes}
    {v : Json} : (Json.obj members).get key = some v ↔ (key, v) ∈ members := by
  rw [Json.get, Option.map_eq_some_iff]
  constructor
  · rintro ⟨m, hm, rfl⟩
    have hkey := List.find?_some hm
    rw [decide_eq_true_eq] at hkey
    rw [← hkey]
    exact List.mem_of_find?_eq_some hm
  · intro h
    induction members with
    | nil => exact absurd h List.not_mem_nil
    | cons m members ih =>
      rw [List.map_cons, List.nodup_cons] at hnodup
      rw [List.find?_cons]
      rcases List.mem_cons.mp h with rfl | h
      · exact ⟨(key, v), by rw [decide_eq_true rfl], rfl⟩
      · have hne : m.1 ≠ key := fun heq => hnodup.1 (List.mem_map.mpr ⟨(key, v), h, heq.symm⟩)
        rw [decide_eq_false hne]
        exact ih hnodup.2 h

theorem isScalar_of_mem_scalars {v w : Json} (h : w ∈ v.scalars) : w.isScalar := by
  rw [Json.scalars.eq_def] at h
  split at h
  · exact (List.mem_filter.mp h).2
  · split at h
    · rename_i hscalar
      rw [List.mem_singleton.mp h]
      exact hscalar
    · exact absurd h List.not_mem_nil

theorem isScalar_of_mem_scalarsAt {root v : Json} {path : Bytes} (h : v ∈ root.scalarsAt path) : v.isScalar := by
  rw [Json.scalarsAt] at h
  split at h
  · exact absurd h List.not_mem_nil
  · exact isScalar_of_mem_scalars h

/-! ## Evaluation and meaning -/

section Evaluation

variable {K : Type} [LinearOrder K] {strtod : Bytes → K} {index : MetadataIndex} {root : Json} {d : Nat}

/-- The stored form of a scalar is compared as the scalar. -/
theorem literalEqual_stored {v : Json} (hscalar : v.isScalar) (hshort : v.Short) (k d : Nat) (literal : Json) :
    literalEqual strtod ((v.stored k).entry d) literal = true ↔ ScalarEqual strtod v literal := by
  have hbit : ∀ a b : Bool, ([if a then 1 else 0] : Bytes) = [if b then 1 else 0] ↔ a = b := by decide
  cases v with
  | null => cases literal <;> simp [literalEqual, Json.stored, MetadataScalar.entry, ScalarEqual]
  | bool a =>
    cases literal with
    | bool b =>
      rw [literalEqual, decide_eq_true_eq, ScalarEqual]
      exact (and_iff_right rfl).trans (hbit a b)
    | null | number _ | str _ | arr _ | obj _ =>
      simp [literalEqual, Json.stored, MetadataScalar.entry, ScalarEqual]
  | number text =>
    cases literal with
    | number bound =>
      rw [literalEqual, decide_eq_true_eq, ScalarEqual, numberBufferBytes]
      have hlength : text.length < 64 := hshort
      have hvalue : (((Json.number text).stored k).entry d).value = text := rfl
      rw [hvalue]
      exact ⟨fun h => h.2.2, fun h => ⟨rfl, by omega, h⟩⟩
    | null | bool _ | str _ | arr _ | obj _ =>
      simp [literalEqual, Json.stored, MetadataScalar.entry, ScalarEqual]
  | str t => cases literal <;> simp [literalEqual, Json.stored, MetadataScalar.entry, ScalarEqual]
  | arr items => cases hscalar
  | obj members => cases hscalar

omit [LinearOrder K] in
theorem boundHolds_iff {members : List (Bytes × Json)} (hnodup : (members.map Prod.fst).Nodup) (name : Bytes)
    (holds : K → Bool) : boundHolds strtod (.obj members) name holds = true ↔
      ∀ bound, (name, .number bound) ∈ members → holds (strtod bound) = true := by
  rw [boundHolds]
  split
  · rename_i text hget
    rw [Json.get_eq_some_iff hnodup] at hget
    refine ⟨fun h bound hbound => ?_, fun h => h text hget⟩
    rw [← Json.get_eq_some_iff hnodup] at hget hbound
    rw [hget] at hbound
    cases hbound
    exact h
  · rename_i hget
    refine iff_of_true rfl fun bound hbound => ?_
    rw [← Json.get_eq_some_iff hnodup] at hbound
    exact absurd hbound (hget bound)

/-- A stored number is inside the bounds if the number is. -/
theorem rangeHolds_stored {members : List (Bytes × Json)} (hnodup : (members.map Prod.fst).Nodup) {v : Json}
    (hscalar : v.isScalar) (hshort : v.Short) (k d : Nat) :
    rangeHolds strtod (.obj members) ((v.stored k).entry d) = true ↔
      ∃ text, v = .number text ∧ InRange strtod members text := by
  cases v with
  | number text =>
    have hlength : text.length < 64 := hshort
    have hvalue : (((Json.number text).stored k).entry d).value = text := rfl
    have htype : (((Json.number text).stored k).entry d).type = .number := rfl
    simp only [rangeHolds, hvalue, htype, Bool.and_eq_true, boundHolds_iff hnodup, decide_eq_true_eq, Bool.not_eq_true',
      decide_eq_false_iff_not, numberBufferBytes]
    constructor
    · rintro ⟨⟨⟨⟨-, hgt⟩, hgte⟩, hlt⟩, hlte⟩
      exact ⟨text, rfl, hgt, hgte, hlt, hlte⟩
    · rintro ⟨text', htext, hgt, hgte, hlt, hlte⟩
      cases htext
      exact ⟨⟨⟨⟨⟨trivial, by omega⟩, hgt⟩, hgte⟩, hlt⟩, hlte⟩
  | null | bool _ | str _ => simp [rangeHolds, Json.stored, MetadataScalar.entry]
  | arr items => cases hscalar
  | obj members => cases hscalar

/-- The field of an operator that was accepted is one of the fields of the index. -/
theorem fieldValid_of_validateLeaf {op : Bytes} {body : Json} (h : validateLeaf index op body = true) :
    fieldValid index body = true := by
  rw [validateLeaf] at h
  split_ifs at h <;> simp only [Bool.and_eq_true] at h
  · exact h.1.2
  · exact h.2
  · exact h.1.2
  · exact h.1.2

theorem exists_field_of_valid {body : Json} (h : fieldValid index body = true) :
    ∃ members field k, body = .obj members ∧ body.get (ascii "field") = some (.str field) ∧
      metadataFieldOrdinal index field = some k := by
  rw [fieldValid] at h
  split at h
  · rename_i field hget
    rw [decide_eq_true_eq, Option.isSome_iff_exists] at h
    obtain ⟨-, k, hk⟩ := h
    cases body with
    | obj members => exact ⟨members, field, k, rfl, hget, hk⟩
    | null | bool _ | number _ | str _ | arr _ => cases hget
  · cases h

theorem getElem?_of_fieldOrdinal {field : Bytes} {k : Nat} (h : metadataFieldOrdinal index field = some k) :
    index.fields[k]? = some (cText field) := by
  rw [metadataFieldOrdinal, List.findIdx?_eq_some_iff_getElem] at h
  obtain ⟨hk, hfield, -⟩ := h
  rw [List.getElem?_eq_getElem hk, of_decide_eq_true hfield]

/-- What the index has for one document is what stands at the paths in its metadata. -/
def RootAt (index : MetadataIndex) (d : Nat) (root : Json) : Prop :=
  ∀ k path, index.fields[k]? = some path →
    index.entriesAt k d = (root.scalarsAt path).map (fun v => (v.stored k).entry d) ∧ ∀ v ∈ root.scalarsAt path, v.Short

/-- An entry of the document passes a test if the scalar that it was made of does. -/
theorem any_entriesAt (hroot : RootAt index d root) {k : Nat} {path : Bytes} (hk : index.fields[k]? = some path)
    {test : MetadataEntry → Bool} {holds : Json → Prop}
    (h : ∀ v, v.isScalar → v.Short → (test ((v.stored k).entry d) = true ↔ holds v)) :
    (index.entriesAt k d).any test = true ↔ ∃ v ∈ root.scalarsAt path, holds v := by
  obtain ⟨hentries, hshort⟩ := hroot k path hk
  rw [hentries, List.any_map, List.any_eq_true]
  refine exists_congr fun v => and_congr_right fun hv => ?_
  exact h v (isScalar_of_mem_scalarsAt hv) (hshort v hv)

theorem any_eq_true_iff_exists {α : Type} {o : Option α} {p : α → Bool} :
    o.any p = true ↔ ∃ a, o = some a ∧ p a = true := by
  cases o <;> simp

/-- The values of an `in`. -/
theorem anyValue_iff {members : List (Bytes × Json)} (hnodup : (members.map Prod.fst).Nodup) {v : Json}
    (hscalar : v.isScalar) (hshort : v.Short) {k : Nat} :
    (match (Json.obj members).get (ascii "values") with
      | some (.arr values) => values.any (literalEqual strtod ((v.stored k).entry d))
      | _ => false) = true ↔
      ∃ values, (ascii "values", Json.arr values) ∈ members ∧ ∃ literal ∈ values, ScalarEqual strtod v literal := by
  simp only [← Json.get_eq_some_iff hnodup, ← @literalEqual_stored K _ strtod v hscalar hshort k d]
  split
  · rename_i values hget
    rw [List.any_eq_true]
    refine ⟨fun h => ⟨values, hget, h⟩, ?_⟩
    rintro ⟨values', hvalues, h⟩
    rw [hget] at hvalues
    cases hvalues
    exact h
  · rename_i hget
    refine iff_of_false Bool.false_ne_true ?_
    rintro ⟨values, hvalues, -⟩
    exact hget values hvalues

/-- **The operators that have a field mean what they say**, if the name of the field has no NUL and no member is named
twice. -/
theorem evalLeaf_iff (hroot : RootAt index d root) {op : Bytes} {body : Json}
    (hvalid : validateLeaf index op body = true) (hplain : PlainBody body) :
    evalLeaf strtod index op body d = true ↔ LeafHolds strtod root op body := by
  obtain ⟨members, field, k, rfl, hfield, hk⟩ := exists_field_of_valid (fieldValid_of_validateLeaf hvalid)
  obtain ⟨hnodup, hnul⟩ := hplain
  have hmember := (Json.get_eq_some_iff hnodup).mp hfield
  have hpath := getElem?_of_fieldOrdinal hk
  rw [cText_eq_self (hnul field hmember)] at hpath
  have hleaf : LeafHolds strtod root op (.obj members) ↔
      ∃ v ∈ root.scalarsAt field, Satisfies strtod op members v := by
    rw [LeafHolds]
    refine ⟨?_, fun h => ⟨field, hmember, h⟩⟩
    rintro ⟨field', hmember', h⟩
    rw [← Json.get_eq_some_iff hnodup, hfield] at hmember'
    cases hmember'
    exact h
  rw [hleaf, evalLeaf, hfield]
  dsimp only
  rw [hk]
  dsimp only
  by_cases hexists : op = ascii "exists"
  · have hany : (!(index.entriesAt k d).isEmpty) = (index.entriesAt k d).any fun _ => true := by
      cases index.entriesAt k d <;> rfl
    rw [if_pos hexists, hany]
    refine any_entriesAt hroot hpath fun v _ _ => iff_of_true rfl ?_
    rw [Satisfies, if_pos hexists]
    trivial
  rw [if_neg hexists]
  by_cases heq : op = ascii "eq"
  · rw [if_pos heq]
    refine any_entriesAt hroot hpath fun v hscalar hshort => ?_
    rw [Satisfies, if_neg hexists, if_pos heq, any_eq_true_iff_exists]
    refine exists_congr fun literal => ?_
    rw [Json.get_eq_some_iff hnodup, literalEqual_stored hscalar hshort]
  rw [if_neg heq]
  by_cases hin : op = ascii "in"
  · rw [if_pos hin]
    refine any_entriesAt hroot hpath fun v hscalar hshort => ?_
    rw [Satisfies, if_neg hexists, if_neg heq, if_pos hin]
    exact anyValue_iff hnodup hscalar hshort
  rw [if_neg hin]
  by_cases hrange : op = ascii "range"
  · rw [if_pos hrange]
    refine any_entriesAt hroot hpath fun v hscalar hshort => ?_
    rw [Satisfies, if_neg hexists, if_neg heq, if_neg hin, if_pos hrange]
    exact rangeHolds_stored hnodup hscalar hshort k d
  · rw [if_neg hrange]
    refine iff_of_false Bool.false_ne_true ?_
    rintro ⟨v, -, h⟩
    rw [Satisfies, if_neg hexists, if_neg heq, if_neg hin, if_neg hrange] at h
    exact h

/-! ### Nodes -/

theorem evalNode_node (op : Bytes) (body : Json) : evalNode strtod index d (.obj [(op, body)]) =
    if cText op = ascii "not" then !evalNode strtod index d body
    else if cText op = ascii "and" then
      match body with
      | .arr items => evalAll strtod index d items
      | _ => false
    else if cText op = ascii "or" then
      match body with
      | .arr items => evalAny strtod index d items
      | _ => false
    else evalLeaf strtod index (cText op) body d := by
  cases body <;> rfl

theorem filterHolds_node (op : Bytes) (body : Json) : FilterHolds strtod root (.obj [(op, body)]) =
    if op = ascii "not" then ¬ FilterHolds strtod root body
    else if op = ascii "and" then
      match body with
      | .arr items => AllHold strtod root items
      | _ => False
    else if op = ascii "or" then
      match body with
      | .arr items => AnyHolds strtod root items
      | _ => False
    else LeafHolds strtod root op body := by
  cases body <;> rfl

theorem plainNames_node (op : Bytes) (body : Json) : PlainNames (.obj [(op, body)]) =
    (0 ∉ op ∧
      if op = ascii "not" then PlainNames body
      else if op = ascii "and" ∨ op = ascii "or" then
        match body with
        | .arr items => AllPlain items
        | _ => True
      else PlainBody body) := by
  cases body <;> rfl

/-- The value of a list of nodes, for all of which evaluation is right. -/
theorem evalNodes_iff {items : List Json} {depth nodes n : Nat}
    (ih : ∀ item ∈ items, ∀ depth nodes n, validateNode index item depth nodes = some n → PlainNames item →
      (evalNode strtod index d item = true ↔ FilterHolds strtod root item))
    (hvalid : validateNodes index items depth nodes = some n) (hplain : AllPlain items) :
    (evalAll strtod index d items = true ↔ AllHold strtod root items) ∧
      (evalAny strtod index d items = true ↔ AnyHolds strtod root items) := by
  induction items generalizing nodes with
  | nil => exact ⟨iff_of_true rfl trivial, iff_of_false Bool.false_ne_true id⟩
  | cons item items ihItems =>
    rw [validateNodes] at hvalid
    split at hvalid
    · cases hvalid
    rename_i n' hitem
    obtain ⟨hplainItem, hplainItems⟩ := hplain
    have here := ih item List.mem_cons_self _ _ _ hitem hplainItem
    obtain ⟨hall, hany⟩ := ihItems (fun item' hitem' => ih item' (List.mem_cons_of_mem _ hitem')) hvalid hplainItems
    rw [evalAll, evalAny, AllHold, AnyHolds, ← here, ← hall, ← hany]
    cases evalNode strtod index d item with
    | true => exact ⟨⟨fun h => ⟨rfl, h⟩, fun h => h.2⟩, iff_of_true rfl (.inl rfl)⟩
    | false => exact ⟨iff_of_false Bool.false_ne_true (fun h => Bool.false_ne_true h.1),
        ⟨.inr, fun h => h.resolve_left Bool.false_ne_true⟩⟩

/-- **Evaluation gives the Boolean value of a filter** that was accepted and has plain names. -/
theorem evalNode_iff (hroot : RootAt index d root) {v : Json} {depth nodes n : Nat}
    (hvalid : validateNode index v depth nodes = some n) (hplain : PlainNames v) :
    evalNode strtod index d v = true ↔ FilterHolds strtod root v := by
  induction v using Json.nodeInduction generalizing depth nodes n with
  | other v hother =>
    rw [validateNode_other hother] at hvalid
    cases hvalid
  | node op body ihBody ihItems =>
    rw [plainNames_node] at hplain
    obtain ⟨hnul, hplain⟩ := hplain
    rw [validateNode_node, cText_eq_self hnul] at hvalid
    rw [evalNode_node, filterHolds_node, cText_eq_self hnul]
    split at hvalid
    · cases hvalid
    by_cases hnot : op = ascii "not"
    · rw [if_pos hnot] at hvalid hplain ⊢
      rw [if_pos hnot, Bool.not_eq_true', Bool.eq_false_iff, ne_eq, ihBody hvalid hplain]
    rw [if_neg hnot] at hvalid hplain ⊢
    rw [if_neg hnot]
    by_cases hjunction : op = ascii "and" ∨ op = ascii "or"
    · rw [if_pos hjunction] at hvalid hplain
      split at hvalid
      · rename_i items
        split at hvalid
        · cases hvalid
        obtain ⟨hall, hany⟩ := evalNodes_iff
          (fun item hitem _ _ _ hvalid hplain => ihItems items rfl item hitem hvalid hplain) hvalid hplain
        by_cases hand : op = ascii "and"
        · rw [if_pos hand, if_pos hand]
          exact hall
        · have hor := hjunction.resolve_left hand
          rw [if_neg hand, if_neg hand, if_pos hor, if_pos hor]
          exact hany
      · cases hvalid
    · rw [if_neg hjunction] at hvalid hplain
      rw [not_or] at hjunction
      rw [if_neg hjunction.1, if_neg hjunction.1, if_neg hjunction.2, if_neg hjunction.2]
      split at hvalid
      · rename_i hleaf
        exact evalLeaf_iff hroot hleaf hplain
      · cases hvalid

end Evaluation

/-- **Filtering is the Boolean meaning of the filter.**  A metadata file that was written is read; whatever filter is then
compiled has at most 32 levels and 1024 nodes, and for every document it has a value.  If its names are plain, the
value is that of the filter for the metadata of the document. -/
theorem filter_meaning {K : Type} [LinearOrder K] (strtod : Bytes → K) (yyjsonRead : Bytes → Option Json)
    (c : ConfigRecord) (generation expected : UInt64) (documents : List Document) (file : Bytes)
    (hwrite : metadataWrite yyjsonRead c generation documents = .ok file)
    (hexpected : expected = 0 ∨ expected = generation) :
    ∃ index, metadataRead c expected file = .ok index ∧
      ∀ json filter, filterCompile index yyjsonRead json = .ok filter →
        filterDepth filter ≤ maxFilterDepth ∧ filterNodes filter ≤ maxFilterNodes ∧
        ∀ d (document : Document), documents[d]? = some document →
          ∃ root matched, yyjsonRead document.metadataJson = some root ∧
            filterMatches strtod index filter d = .ok matched ∧
            (PlainNames filter → (matched = true ↔ FilterHolds strtod root filter)) := by
  obtain ⟨index, roots, hread, -, hroots, hholds⟩ := metadataRead_metadataWrite hwrite hexpected
  refine ⟨index, hread, fun json filter hcompile => ?_⟩
  obtain ⟨n, hvalid⟩ : ∃ n, validateNode index filter 1 0 = some n := by
    rw [filterCompile] at hcompile
    split at hcompile
    · cases hcompile
    split at hcompile
    · cases hcompile
    split at hcompile
    · rename_i hsome
      cases hcompile
      exact Option.isSome_iff_exists.mp hsome
    · cases hcompile
  obtain ⟨hn, hnodes, hdepth⟩ := validateNode_limits hvalid
  refine ⟨by omega, by omega, fun d document hdocument => ?_⟩
  have hlength : documents.length = roots.length := by
    rw [← List.length_map fun d => yyjsonRead d.metadataJson, hroots, List.length_map]
  obtain ⟨hd, -⟩ := List.getElem?_eq_some_iff.mp hdocument
  obtain ⟨root, hroot⟩ : ∃ root, roots[d]? = some root := ⟨_, List.getElem?_eq_getElem (hlength ▸ hd)⟩
  have hsame : yyjsonRead document.metadataJson = some root := by
    have hat := congrArg (fun l => l[d]?) hroots
    simp only [List.getElem?_map, hdocument, hroot, Option.map_some, Option.some.injEq] at hat
    exact hat
  refine ⟨root, _, hsame, if_neg (by rw [hholds.documentCount]; omega), fun hplain => ?_⟩
  exact evalNode_iff (fun k path hpath => hholds.entries d root k path hroot hpath) hvalid hplain

/-- A configuration with the filterable field `a`. -/
def filterConfigSample : ConfigRecord where
  formatVersion := configFormatVersion
  tokenizerId := ascii "unicode"
  chunkMaxChars := 100
  chunkOverlapChars := 10
  vectorModelId := []
  vectorDimensions := 0
  vectorMetric := .disabled
  filterableFields := [ascii "a"]

/-- The filter `eq` with a field and the value 1. -/
def eqOneFilter (field : Bytes) : Json :=
  .obj [(ascii "eq", .obj [(ascii "field", .str field), (ascii "value", .number (ascii "1"))])]

/-- The texts of a document's metadata, of a filter for its field, and of one for `a\u0000b`. -/
def metadataText : Bytes := ascii "\x7b\"a\":1\x7d"

def plainFilterText : Bytes := ascii "\x7b\"eq\":\x7b\"field\":\"a\",\"value\":1\x7d\x7d"

def nulFilterText : Bytes := ascii "\x7b\"eq\":\x7b\"field\":\"a\\u0000b\",\"value\":1\x7d\x7d"

/-- `yyjson_read`, of these three texts. -/
def sampleRead (text : Bytes) : Option Json :=
  if text = metadataText then some (.obj [(ascii "a", .number (ascii "1"))])
  else if text = plainFilterText then some (eqOneFilter (ascii "a"))
  else if text = nulFilterText then some (eqOneFilter [97, 0, 98])
  else none

def filteredDocument : Document := ⟨[49], [], [97], [98], metadataText, 0⟩

/-- The file of the document, and a filter that is accepted for it. -/
theorem filtered_sample : ∃ file index, metadataWrite sampleRead filterConfigSample 1 [filteredDocument] = .ok file ∧
    metadataRead filterConfigSample 1 file = .ok index ∧
    filterCompile index sampleRead plainFilterText = .ok (eqOneFilter (ascii "a")) ∧
    filterCompile index sampleRead nulFilterText = .ok (eqOneFilter [97, 0, 98]) ∧
    index.documentCount = 1 ∧ validateNode index (eqOneFilter (ascii "a")) 1 0 = some 1 ∧
    RootAt index 0 (.obj [(ascii "a", .number (ascii "1"))]) := by
  have hsome : (metadataWrite sampleRead filterConfigSample 1 [filteredDocument]).toOption.isSome = true := by
    decide +kernel
  cases hwrite : metadataWrite sampleRead filterConfigSample 1 [filteredDocument] with
  | error status =>
    rw [hwrite] at hsome
    cases hsome
  | ok file =>
    obtain ⟨index, roots, hread, hfields, hroots, hholds⟩ := metadataRead_metadataWrite hwrite (.inr rfl)
    have hsample : sampleRead filteredDocument.metadataJson = some (.obj [(ascii "a", .number (ascii "1"))]) := rfl
    obtain rfl : roots = [.obj [(ascii "a", .number (ascii "1"))]] := by
      rw [List.map_singleton, hsample, ← List.map_singleton] at hroots
      exact (List.map_injective_iff.mpr (Option.some_injective _) hroots).symm
    obtain ⟨fields, documentCount, entries⟩ := index
    obtain rfl : fields = [ascii "a"] := hfields
    exact ⟨file, _, rfl, hread, rfl, rfl, hholds.documentCount, rfl,
      fun k path hpath => hholds.entries 0 _ k path rfl hpath⟩

/-- The only field of the filter. -/
theorem eqOne_field {field field' : Bytes}
    (h : (ascii "field", Json.str field') ∈ [(ascii "field", .str field), (ascii "value", .number (ascii "1"))]) :
    field' = field := by
  rcases List.mem_cons.mp h with h | h
  · exact Json.str.inj (Prod.mk.inj h).2
  · exact absurd (Prod.mk.inj (List.mem_singleton.mp h)).1 (by decide)

theorem eqOne_plain : PlainNames (eqOneFilter (ascii "a")) := by
  refine ⟨by decide, by decide, fun field hfield => ?_⟩
  obtain rfl := eqOne_field hfield
  decide

theorem eqOne_holds :
    FilterHolds decimalValue (.obj [(ascii "a", .number (ascii "1"))]) (eqOneFilter (ascii "a")) := by
  refine ⟨ascii "a", List.mem_cons_self, .number (ascii "1"), List.mem_singleton.mpr rfl, ?_⟩
  exact ⟨.number (ascii "1"), List.mem_cons_of_mem _ List.mem_cons_self, rfl⟩

theorem filter_meaning_sample : ∃ file index, metadataWrite sampleRead filterConfigSample 1 [filteredDocument] = .ok file ∧
    metadataRead filterConfigSample 1 file = .ok index ∧
    filterCompile index sampleRead plainFilterText = .ok (eqOneFilter (ascii "a")) ∧
    filterMatches decimalValue index (eqOneFilter (ascii "a")) 0 = .ok true := by
  obtain ⟨file, index, hwrite, hread, hcompile, -⟩ := filtered_sample
  refine ⟨file, index, hwrite, hread, hcompile, ?_⟩
  obtain ⟨index', hread', hfilter⟩ := filter_meaning decimalValue sampleRead filterConfigSample 1 1 [filteredDocument] file
    hwrite (.inr rfl)
  rw [hread] at hread'
  cases hread'
  obtain ⟨-, -, hvalue⟩ := hfilter _ _ hcompile
  obtain ⟨root, matched, hroot, hmatched, hmeaning⟩ := hvalue 0 filteredDocument rfl
  cases hroot
  rw [hmatched, (hmeaning eqOne_plain).mpr eqOne_holds]

/-- A filter for the field `a\u0000b` is accepted and evaluated as one for `a`. -/
theorem filter_nul_field : ∃ file index, metadataWrite sampleRead filterConfigSample 1 [filteredDocument] = .ok file ∧
    metadataRead filterConfigSample 1 file = .ok index ∧
    filterCompile index sampleRead nulFilterText = .ok (eqOneFilter [97, 0, 98]) ∧
    filterMatches decimalValue index (eqOneFilter [97, 0, 98]) 0 = .ok true ∧
    ∃ root, sampleRead filteredDocument.metadataJson = some root ∧
      ¬ FilterHolds decimalValue root (eqOneFilter [97, 0, 98]) := by
  obtain ⟨file, index, hwrite, hread, -, hcompile, hcount, hvalid, hroot⟩ := filtered_sample
  refine ⟨file, index, hwrite, hread, hcompile, ?_, _, rfl, ?_⟩
  · rw [filterMatches, if_neg (by omega)]
    -- both names are cut to `a` before they are looked up
    exact congrArg Except.ok ((evalNode_iff hroot hvalid eqOne_plain).mpr eqOne_holds)
  · rintro ⟨field, hfield, v, hv, -⟩
    obtain rfl := eqOne_field hfield
    exact absurd hv List.not_mem_nil

end Yappod

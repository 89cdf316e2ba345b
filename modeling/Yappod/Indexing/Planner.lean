import Yappod.Storage.Manifest

/-!
# The segment planner

`YAP_V2_segment_plan_with_policy` cuts a list of units into slices that become one segment each.  It
keeps a running count of what the current slice will occupy (`Sizer`), closes the slice when the
next unit would take a component over the target size, and merges a small last slice into the one
before it.

The term tables of the planner are hash maps; only their contents matter here, and they are lists of
slots with one slot per term.
-/

set_option autoImplicit false

namespace Yappod

/-- What the planner knows of one term. -/
structure TermSlot where
  term : Bytes
  occurrences : Nat
  postings : Nat
  lastObject : Option Nat
  deriving DecidableEq, Repr

/-- A table of terms. -/
abbrev TermMap := List TermSlot

/-- `term_map_find`. -/
def TermMap.find (m : TermMap) (t : Bytes) : Option TermSlot := List.find? (fun s => s.term = t) m

/-- `term_map_slot` with `create`, followed by a change of the slot. -/
def TermMap.modify (m : TermMap) (t : Bytes) (f : TermSlot → TermSlot) : TermMap :=
  match m with
  | [] => [f ⟨t, 0, 0, none⟩]
  | s :: m => if s.term = t then f s :: m else s :: TermMap.modify m t f

/-- What one unit adds to a slice. -/
structure UnitSize where
  terms : TermMap
  documentBytes : Nat
  passageBytes : Nat
  metadataBytes : Nat
  passageCount : Nat
  vectorIdBytes : Nat
  deriving DecidableEq, Repr

/-- The running totals of a slice. -/
structure Sizer where
  documents : Nat := 0
  passages : Nat := 0
  tombstones : Nat := 0
  documentPayload : Nat := 0
  metadataPayload : Nat := 0
  vectorIdBytes : Nat := 0
  termPayload : Nat := 0
  postingPayload : Nat := 0
  positionPayload : Nat := 0
  tombstonePayload : Nat := 0
  terms : TermMap := []
  deriving DecidableEq, Repr

/-- A slice of the plan: its range of units and the payload sizes it will have. -/
structure Slice where
  first : Nat
  count : Nat
  payloadBytes : List Nat
  deriving DecidableEq, Repr

/-- The size policy of the planner. -/
structure SizePolicy where
  target : Nat
  softMax : Nat
  hardMax : Nat
  deriving DecidableEq, Repr

/-- `YAP_V2_segment_planner_size_policy`. -/
def sizePolicy (testPayloadLimit : Nat) : SizePolicy :=
  if testPayloadLimit ≠ 0 then ⟨testPayloadLimit, testPayloadLimit, testPayloadLimit⟩
  else ⟨128 * 1024 * 1024, 192 * 1024 * 1024, maxSegmentPayloadBytes⟩

section Plan

variable (env : Env) (cfg : Config)

/-- The object an occurrence counts for within its unit. -/
def Occurrence.objectKey (o : Occurrence) : Nat :=
  if o.objectType = .document then 0 else o.objectOrdinal + 1

/-- Count one occurrence. -/
def countOccurrence (m : TermMap) (o : Occurrence) : TermMap :=
  m.modify o.term fun s =>
    { s with
      occurrences := s.occurrences + 1
      postings := if s.lastObject ≠ some o.objectKey then s.postings + 1 else s.postings
      lastObject := some o.objectKey }

/-- `prepare_unit`: the checks a document passes before it is planned, and its sizes. -/
def prepareUnit : SegmentUnit → Except Status UnitSize
  | .tombstone _ => .ok ⟨[], 0, 0, 0, 0, 0⟩
  | .document d ps _ => do
    let occs ← lexicalPrepareUnit env.icu d ps
    let scalars ← documentMetadata env.yyjsonRead cfg.filterableFields d
    return {
      terms := occs.foldl countOccurrence []
      documentBytes := documentRecordBytes d
      passageBytes := (ps.map passageRecordBytes).sum
      metadataBytes := scalarsBytes scalars
      passageCount := ps.length
      vectorIdBytes := (ps.map fun p => p.id.length).sum }

/-- `component_sizes`. -/
def componentSizes (s : Sizer) (segmentIdBytes : Nat) : List Nat :=
  [24 + segmentIdBytes + s.documentPayload,
   if 0 < s.documents then s.termPayload else 0,
   if 0 < s.documents then s.postingPayload else 0,
   if 0 < s.documents then s.positionPayload else 0,
   if 0 < s.documents then metadataBase cfg.filterableFields + s.metadataPayload else 0,
   if cfg.hasVectors = true ∧ 0 < s.passages then
     vectorsBytes cfg.vectorModelId cfg.vectorDimensions s.passages s.vectorIdBytes
   else 0,
   if 0 < s.tombstones then s.tombstonePayload else 0]

/-- What a term of the next unit adds to the lexical payloads of a slice that has had `old` of its
postings, if it has had the term at all. -/
def addTerm (s : Sizer) (source : TermSlot) (old : Option Nat) : Sizer :=
  let oldPostings := old.getD 0
  { s with
    termPayload := s.termPayload + if old.isNone then 44 + source.term.length else 0
    postingPayload := s.postingPayload + (if old.isNone then 20 else 0) +
      (source.postings * 48 +
        (postingBlocks (oldPostings + source.postings) - postingBlocks oldPostings) * 16)
    positionPayload := s.positionPayload + (if old.isNone then 16 else 0) +
      source.occurrences * 8 }

/-- The totals of a slice with a document more, the terms apart. -/
def addDocument (s : Sizer) (u : UnitSize) : Sizer :=
  let s := if s.documents = 0 then
    { s with termPayload := 12, postingPayload := 56, positionPayload := 12 } else s
  { s with
    documents := s.documents + 1
    passages := s.passages + u.passageCount
    documentPayload := s.documentPayload + (u.documentBytes + u.passageBytes)
    metadataPayload := s.metadataPayload + u.metadataBytes
    vectorIdBytes := s.vectorIdBytes + u.vectorIdBytes }

/-- The totals of a slice with a tombstone more. -/
def addTombstone (s : Sizer) (id : Bytes) : Sizer :=
  { s with
    tombstones := s.tombstones + 1
    tombstonePayload := (if s.tombstones = 0 then 12 else s.tombstonePayload) + viewBytes id }

/-- `sizer_add`: the totals with a unit more. -/
def sizerAdd (s : Sizer) (unit : SegmentUnit) (u : UnitSize) : Sizer :=
  match unit with
  | .tombstone id => addTombstone s id
  | .document .. =>
    u.terms.foldl (fun s source =>
      let s' := addTerm s source ((s.terms.find source.term).map (·.postings))
      { s' with terms := s.terms.modify source.term fun t =>
          { t with
            occurrences := t.occurrences + source.occurrences
            postings := t.postings + source.postings } }) (addDocument s u)

/-- The totals `projected_fits` computes, from the term table of the slice as it is. -/
def projected (s : Sizer) (unit : SegmentUnit) (u : UnitSize) : Sizer :=
  match unit with
  | .tombstone id => addTombstone s id
  | .document .. =>
    u.terms.foldl (fun s' source =>
      addTerm s' source ((s.terms.find source.term).map (·.postings))) (addDocument s u)

/-- `projected_fits`: may the unit join the slice? -/
def projectedFits (s : Sizer) (unit : SegmentUnit) (u : UnitSize) (segmentIdBytes limit : Nat) :
    Bool :=
  let documents := match unit with
    | .document .. => 1
    | .tombstone _ => 0
  s.documents + documents ≤ maxSegmentDocuments ∧
    s.passages + u.passageCount ≤ maxSegmentPassages ∧
    (componentSizes cfg (projected s unit u) segmentIdBytes).all (· ≤ limit)

/-- The planner's loop.  `slices` are the finished slices, `first` is where the open one starts and
`i` is the next unit. -/
def planLoop (segmentIdBytes : Nat) (policy : SizePolicy) : List (SegmentUnit × UnitSize) → Nat →
    Nat → Sizer → List Slice → Except Status (List Slice × Nat × Sizer)
  | [], _, first, s, slices => .ok (slices, first, s)
  | (unit, u) :: rest, i, first, s, slices =>
    if projectedFits cfg s unit u segmentIdBytes policy.target then
      planLoop segmentIdBytes policy rest (i + 1) first (sizerAdd s unit u) slices
    else if first < i then
      -- close the slice and start another with this unit
      if maxSegments ≤ slices.length then .error .outOfRange
      else
        let slices := slices ++ [⟨first, i - first, componentSizes cfg s segmentIdBytes⟩]
        if projectedFits cfg {} unit u segmentIdBytes policy.target ∨
            projectedFits cfg {} unit u segmentIdBytes policy.hardMax then
          planLoop segmentIdBytes policy rest (i + 1) i (sizerAdd {} unit u) slices
        else .error .segmentCapacityExceeded
    else if projectedFits cfg s unit u segmentIdBytes policy.hardMax then
      planLoop segmentIdBytes policy rest (i + 1) first (sizerAdd s unit u) slices
    else .error .segmentCapacityExceeded

/-- `range_slice`: the totals of a range, if each unit of it fits in turn. -/
def rangeSizer (segmentIdBytes limit : Nat) : List (SegmentUnit × UnitSize) → Sizer → Option Sizer
  | [], s => some s
  | (unit, u) :: rest, s =>
    if projectedFits cfg s unit u segmentIdBytes limit then
      rangeSizer segmentIdBytes limit rest (sizerAdd s unit u)
    else none

/-- `slice_largest_payload`. -/
def Slice.largestPayload (s : Slice) : Nat := s.payloadBytes.foldl max 0

/-- `merge_small_tail`: join a small last slice to the one before it, if the two fit within the soft
limit. -/
def mergeSmallTail (units : List (SegmentUnit × UnitSize)) (segmentIdBytes : Nat)
    (policy : SizePolicy) (slices : List Slice) : List Slice :=
  match slices.reverse with
  | tail :: previous :: earlier =>
    if policy.target / 2 ≤ tail.largestPayload ∨ previous.first + previous.count ≠ tail.first then
      slices
    else
      match rangeSizer cfg segmentIdBytes policy.softMax
          ((units.drop previous.first).take (previous.count + tail.count)) {} with
      | none => slices
      | some s => earlier.reverse ++
        [⟨previous.first, previous.count + tail.count, componentSizes cfg s segmentIdBytes⟩]
  | _ => slices

/-- `YAP_V2_segment_plan_with_policy`. -/
def segmentPlan (units : List SegmentUnit) (segmentIdBytes : Nat) (policy : SizePolicy) :
    Except Status (List Slice) :=
  if segmentIdBytes = 0 ∨ policy.target = 0 ∨ policy.softMax < policy.target ∨
      policy.hardMax < policy.softMax ∨ maxSegmentPayloadBytes < policy.hardMax then
    .error .invalidArgument
  else do
    let sizes ← units.mapM (prepareUnit env cfg)
    let sized := units.zip sizes
    let (slices, first, s) ← planLoop cfg segmentIdBytes policy sized 0 0 {} []
    if maxSegments ≤ slices.length then .error .outOfRange
    else
      let slices := slices ++
        [⟨first, units.length - first, componentSizes cfg s segmentIdBytes⟩]
      return mergeSmallTail cfg sized segmentIdBytes policy slices

end Plan

/-- `YAP_V2_segment_plan_bisect`: cut the slice of index `i` in two. -/
def bisect (slices : List Slice) (i : Nat) : Except Status (List Slice) :=
  match slices[i]? with
  | none => .error .invalidArgument
  | some s =>
    if s.count < 2 then .error .invalidArgument
    else if maxSegments ≤ slices.length then .error .outOfRange
    else
      .ok (slices.take i ++
        [⟨s.first, s.count / 2, List.replicate 7 0⟩,
         ⟨s.first + s.count / 2, s.count - s.count / 2, List.replicate 7 0⟩] ++
        slices.drop (i + 1))

/-- The units of a slice. -/
def Slice.units (s : Slice) (us : List SegmentUnit) : List SegmentUnit :=
  (us.drop s.first).take s.count

end Yappod

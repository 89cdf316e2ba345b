import Yappod.Query.VectorCollect
import Yappod.System.Lineage

/-!
# The base corpus

One usearch index over the vectors that are visible in a manifest (`annCorpusBuild`), kept while the index directory moves
on, and the plan that says for a later manifest what of it is still of use (`annQueryPlanBuild`): where a segment of the
base is now, and which segments are to be searched one by one.

usearch is a parameter, and so are the hash of a name and the fingerprint of a descriptor.  A corpus carries names and
fingerprints of its segments; the rest of their descriptors is not used.

* `annCorpusBuild_spec` — the corpus has the visible passages of the manifest, each once.
* `annQueryPlanBuild_spec` — a segment of the manifest is where the base has it if it is one of its segments, and else a
  delta segment.
* `Manifest.Succeeds.basePlusDelta`, `stale_base_exact` — over a run the base of an earlier manifest and the plan for a
  later one are as good as a search of all that is visible in the later one.
-/

set_option autoImplicit false

namespace Yappod

open scoped List

/-! ## The code -/

/-- `YAP_V2_ANN_CORPUS` with what is in its index: keys and vectors, in the order in which they were added. -/
structure AnnBase (V : Type) where
  index : List (Nat × V)
  segments : List SegmentId
  segmentFingerprints : List Nat
  vectorCount : Nat
  generation : Nat

/-- What queries use of it, with the search for the query vector. -/
def AnnBase.corpus {V : Type} (base : AnnBase V) (search : Nat → Except Status (List Nat)) : AnnCorpus :=
  ⟨base.segments.length, base.vectorCount, search⟩

/-- `UINT32_MAX`. -/
def annOrdinalMax : Nat := 2 ^ 32 - 1

/-- The key of a vector: the ordinals of its segment and of its passage. -/
def annKey (s i : Nat) : Nat := s * 2 ^ 32 + i

section Build

variable {V : Type} (fingerprint : SegmentDescriptor → Nat) (create : Nat → Bool) (add : List (Nat × V) → Nat × V → Bool)
variable (xs : List SegmentContents)

/-- `vector_is_visible`. -/
def vectorIsVisible (s : Nat) (contents : SegmentContents) (i : Nat) : Bool :=
  match contents.passages[i]? with
  | none => false
  | some passage => (snapshotDocumentOrdinal xs s passage.parentDocumentId).isSome

/-- The loop that compares the entries of a segment with its passages, from the `i`-th on, and counts the visible ones. -/
def countVisible (s : Nat) (contents : SegmentContents) : Nat → List (Bytes × V) → Except Status Nat
  | _, [] => .ok 0
  | i, entry :: entries =>
    if contents.passages[i]?.map (·.id) ≠ some entry.1 then .error .conflict
    else
      (countVisible s contents (i + 1) entries).map fun count =>
        if vectorIsVisible xs s contents i then count + 1 else count

/-- The first loop over the segments, from the `s`-th on. -/
def countSegments : Nat → List (SegmentContents × Option (List (Bytes × V))) → Except Status Nat
  | _, [] => .ok 0
  | s, (_, none) :: rest => countSegments (s + 1) rest
  | s, (contents, some entries) :: rest =>
    if entries.length = 0 then countSegments (s + 1) rest
    else if entries.length ≠ contents.passages.length then .error .conflict
    else
      match countVisible xs s contents 0 entries with
      | .error status => .error status
      | .ok count => (countSegments (s + 1) rest).map (count + ·)

/-- The loop that adds the visible entries of a segment, from the `i`-th on. -/
def addVisible (s : Nat) (contents : SegmentContents) : Nat → List (Bytes × V) → List (Nat × V) →
    Except Status (List (Nat × V))
  | _, [], index => .ok index
  | i, entry :: entries, index =>
    if !vectorIsVisible xs s contents i then addVisible s contents (i + 1) entries index
    else if annOrdinalMax < i then .error .outOfRange
    else if !add index (annKey s i, entry.2) then .error .conflict
    else addVisible s contents (i + 1) entries (index ++ [(annKey s i, entry.2)])

/-- The second loop over the segments. -/
def addSegmentVectors : Nat → List (SegmentContents × Option (List (Bytes × V))) → List (Nat × V) →
    Except Status (List (Nat × V))
  | _, [], index => .ok index
  | s, (_, none) :: rest, index => addSegmentVectors (s + 1) rest index
  | s, (contents, some entries) :: rest, index =>
    if annOrdinalMax < s then .error .outOfRange
    else
      match addVisible add xs s contents 0 entries index with
      | .error status => .error status
      | .ok index => addSegmentVectors (s + 1) rest index

/-- `YAP_V2_ann_corpus_build`: `create` says whether an index of this capacity can be made, `add` whether usearch takes a
vector. -/
def annCorpusBuild (manifest : Manifest) (snapshotGeneration : Nat) (segments : List (Option (List (Bytes × V)))) :
    Except Status (AnnBase V) :=
  if segments.length = 0 ∨ segments.length ≠ manifest.segments.length ∨ segments.length ≠ xs.length ∨
      manifest.generation ≠ snapshotGeneration then .error .invalidArgument
  else
    match countSegments xs 0 (xs.zip segments) with
    | .error status => .error status
    | .ok count =>
      if count = 0 then .ok ⟨[], manifest.ids, manifest.segments.map fingerprint, 0, manifest.generation⟩
      else if !create count then .error .conflict
      else
        match addSegmentVectors add xs 0 (xs.zip segments) [] with
        | .error status => .error status
        | .ok index => .ok ⟨index, manifest.ids, manifest.segments.map fingerprint, count, manifest.generation⟩

end Build

section Plan

variable {V : Type} (hash : SegmentId → Nat) (fingerprint : SegmentDescriptor → Nat)

/-- The slots: the ordinals of the segments of the base, by name. -/
def annPlanSlots (base : AnnBase V) : Option (Table SegmentId Nat) :=
  (Table.empty (tableCapacity base.segments.length)).insertAllNew hash base.segments.zipIdx

/-- The segment of the base that a descriptor is of, if it is in there and has not changed. -/
def annPlanBase (base : AnnBase V) (slots : Table SegmentId Nat) (descriptor : SegmentDescriptor) : Option Nat :=
  match slots.lookup hash descriptor.id with
  | none => none
  | some b => if base.segmentFingerprints[b]? = some (fingerprint descriptor) then some b else none

/-- The loop over the segments of the manifest, from the `i`-th on. -/
def annPlanSegments (base : AnnBase V) (slots : Table SegmentId Nat) :
    Nat → List SegmentDescriptor → AnnQueryPlan → AnnQueryPlan
  | _, [], plan => plan
  | i, descriptor :: rest, plan =>
    match annPlanBase hash fingerprint base slots descriptor with
    | some b => annPlanSegments base slots (i + 1) rest { plan with baseToCurrent := plan.baseToCurrent.set b (some i) }
    | none => annPlanSegments base slots (i + 1) rest { plan with currentIsDelta := plan.currentIsDelta.set i true }

/-- `YAP_V2_ann_query_plan_build`; `none` if a loop over the slots did not end. -/
def annQueryPlanBuild (base : AnnBase V) (manifest : Manifest) : Option (Except Status AnnQueryPlan) :=
  if base.segments.length = 0 ∨ manifest.segments.length = 0 then some (.error .invalidArgument)
  else
    (annPlanSlots hash base).map fun slots =>
      .ok (annPlanSegments hash fingerprint base slots 0 manifest.segments
        ⟨List.replicate base.segments.length none, List.replicate manifest.segments.length false⟩)

end Plan

/-! ## What is in the base -/

section Vectors

variable {V : Type} (xs : List SegmentContents)

/-- The visible entries of a segment, from the `i`-th on, with their keys. -/
def visibleVectors (s : Nat) (contents : SegmentContents) : Nat → List (Bytes × V) → List (Nat × V)
  | _, [] => []
  | i, entry :: entries =>
    if vectorIsVisible xs s contents i then (annKey s i, entry.2) :: visibleVectors s contents (i + 1) entries
    else visibleVectors s contents (i + 1) entries

/-- The visible entries of the segments, from the `s`-th on. -/
def baseVectors : Nat → List (SegmentContents × Option (List (Bytes × V))) → List (Nat × V)
  | _, [] => []
  | s, (_, none) :: rest => baseVectors (s + 1) rest
  | s, (contents, some entries) :: rest => visibleVectors xs s contents 0 entries ++ baseVectors (s + 1) rest

variable {xs} {s i : Nat} {contents : SegmentContents} {entries : List (Bytes × V)}
  {rest : List (SegmentContents × Option (List (Bytes × V)))} {index index' : List (Nat × V)} {p : Nat × V}

theorem mem_visibleVectors : p ∈ visibleVectors xs s contents i entries ↔ ∃ k entry, entries[k]? = some entry ∧
    vectorIsVisible xs s contents (i + k) = true ∧ p = (annKey s (i + k), entry.2) := by
  induction entries generalizing i with
  | nil => simp [visibleVectors]
  | cons entry entries ih =>
    have hsplit : (∃ k e, (entry :: entries)[k]? = some e ∧ vectorIsVisible xs s contents (i + k) = true ∧
        p = (annKey s (i + k), e.2)) ↔ (vectorIsVisible xs s contents i = true ∧ p = (annKey s i, entry.2)) ∨
          p ∈ visibleVectors xs s contents (i + 1) entries := by
      rw [ih]
      constructor
      · rintro ⟨k, e, he, hvisible, hp⟩
        cases k with
        | zero =>
          cases he
          exact .inl ⟨hvisible, hp⟩
        | succ k =>
          rw [show i + (k + 1) = i + 1 + k by omega] at hvisible hp
          exact .inr ⟨k, e, he, hvisible, hp⟩
      · rintro (⟨hvisible, hp⟩ | ⟨k, e, he, hvisible, hp⟩)
        · exact ⟨0, entry, rfl, hvisible, hp⟩
        · rw [show i + 1 + k = i + (k + 1) by omega] at hvisible hp
          exact ⟨k + 1, e, he, hvisible, hp⟩
    rw [hsplit, visibleVectors]
    split
    · rename_i hvisible
      rw [List.mem_cons]
      simp [hvisible]
    · rename_i hvisible
      simp [hvisible]

theorem mem_baseVectors : p ∈ baseVectors xs s rest ↔ ∃ k contents entries i entry,
    rest[k]? = some (contents, some entries) ∧ entries[i]? = some entry ∧
      vectorIsVisible xs (s + k) contents i = true ∧ p = (annKey (s + k) i, entry.2) := by
  induction rest generalizing s with
  | nil => simp [baseVectors]
  | cons pair rest ih =>
    have htail : (∃ k contents entries i entry, (pair :: rest)[k]? = some (contents, some entries) ∧
        entries[i]? = some entry ∧ vectorIsVisible xs (s + k) contents i = true ∧ p = (annKey (s + k) i, entry.2)) ↔
        (∃ contents entries, pair = (contents, some entries) ∧ p ∈ visibleVectors xs s contents 0 entries) ∨
          p ∈ baseVectors xs (s + 1) rest := by
      rw [ih]
      constructor
      · rintro ⟨k, contents, entries, i, entry, hk, hentry, hvisible, hp⟩
        cases k with
        | zero =>
          rw [List.getElem?_cons_zero, Option.some.injEq] at hk
          exact .inl ⟨contents, entries, hk, mem_visibleVectors.mpr
            ⟨i, entry, hentry, by rwa [Nat.zero_add], by rwa [Nat.zero_add]⟩⟩
        | succ k =>
          rw [show s + (k + 1) = s + 1 + k by omega] at hvisible hp
          exact .inr ⟨k, contents, entries, i, entry, hk, hentry, hvisible, hp⟩
      · rintro (⟨contents, entries, rfl, hmem⟩ | ⟨k, contents, entries, i, entry, hk, hentry, hvisible, hp⟩)
        · obtain ⟨i, entry, hentry, hvisible, hp⟩ := mem_visibleVectors.mp hmem
          rw [Nat.zero_add] at hvisible hp
          exact ⟨0, contents, entries, i, entry, rfl, hentry, hvisible, hp⟩
        · rw [show s + 1 + k = s + (k + 1) by omega] at hvisible hp
          exact ⟨k + 1, contents, entries, i, entry, hk, hentry, hvisible, hp⟩
    rw [htail]
    obtain ⟨contents, _ | entries⟩ := pair
    · rw [baseVectors]
      simp
    · rw [baseVectors, List.mem_append]
      simp

/-- Keys are in the order of the passages. -/
theorem visibleVectors_pairwise (s i : Nat) (contents : SegmentContents) (entries : List (Bytes × V)) :
    (visibleVectors xs s contents i entries).Pairwise (·.1 < ·.1) := by
  induction entries generalizing i with
  | nil => exact .nil
  | cons entry entries ih =>
    rw [visibleVectors]
    split
    · refine List.pairwise_cons.mpr ⟨fun p hp => ?_, ih (i + 1)⟩
      obtain ⟨k, e, -, -, rfl⟩ := mem_visibleVectors.mp hp
      simp only [annKey]
      omega
    · exact ih (i + 1)

theorem countVisible_eq {count : Nat} (h : countVisible xs s contents i entries = .ok count) :
    count = (visibleVectors xs s contents i entries).length := by
  induction entries generalizing i count with
  | nil =>
    cases h
    rfl
  | cons entry entries ih =>
    rw [countVisible] at h
    split at h
    · cases h
    · cases hrest : countVisible xs s contents (i + 1) entries with
      | error status =>
        rw [hrest] at h
        cases h
      | ok n =>
        rw [hrest] at h
        rw [visibleVectors, ← Except.ok.inj h]
        split <;> simp [ih hrest]

theorem countSegments_eq {count : Nat} (h : countSegments xs s rest = .ok count) :
    count = (baseVectors xs s rest).length := by
  induction rest generalizing s count with
  | nil =>
    cases h
    rfl
  | cons pair rest ih =>
    obtain ⟨contents, _ | entries⟩ := pair
    · exact ih h
    · rw [countSegments] at h
      rw [baseVectors, List.length_append]
      split at h
      · rename_i hempty
        rw [List.length_eq_zero_iff.mp hempty, ih h]
        simp [visibleVectors]
      split at h
      · cases h
      · cases hone : countVisible xs s contents 0 entries with
        | error status =>
          rw [hone] at h
          cases h
        | ok n =>
          rw [hone] at h
          cases hrest : countSegments xs (s + 1) rest with
          | error status =>
            rw [hrest] at h
            cases h
          | ok n' =>
            rw [hrest] at h
            rw [← Except.ok.inj h, countVisible_eq hone, ih hrest]

variable {add : List (Nat × V) → Nat × V → Bool}

/-- The loop that adds the visible entries adds them all, and their ordinals are small. -/
theorem addVisible_eq (h : addVisible add xs s contents i entries index = .ok index') :
    index' = index ++ visibleVectors xs s contents i entries ∧
      ∀ k entry, entries[k]? = some entry → vectorIsVisible xs s contents (i + k) = true → i + k < 2 ^ 32 := by
  induction entries generalizing i index with
  | nil =>
    cases h
    exact ⟨(List.append_nil _).symm, by simp⟩
  | cons entry entries ih =>
    have hcons : (∀ k e, entries[k]? = some e → vectorIsVisible xs s contents (i + 1 + k) = true → i + 1 + k < 2 ^ 32) →
        (vectorIsVisible xs s contents i = true → i < 2 ^ 32) →
        ∀ k e, (entry :: entries)[k]? = some e → vectorIsVisible xs s contents (i + k) = true → i + k < 2 ^ 32 := by
      intro hrest hfirst k e he hvisible
      cases k with
      | zero => exact hfirst hvisible
      | succ k =>
        rw [show i + (k + 1) = i + 1 + k by omega] at hvisible ⊢
        exact hrest k e he hvisible
    rw [addVisible] at h
    rw [visibleVectors]
    split at h
    · rename_i hhidden
      rw [Bool.not_eq_true'] at hhidden
      obtain ⟨rfl, hrest⟩ := ih h
      rw [hhidden]
      exact ⟨rfl, hcons hrest fun hvisible => by rw [hhidden] at hvisible; cases hvisible⟩
    rename_i hvisible
    rw [Bool.not_eq_true', Bool.not_eq_false] at hvisible
    rw [hvisible, if_pos rfl]
    split at h
    · cases h
    rename_i hmax
    split at h
    · cases h
    · obtain ⟨rfl, hrest⟩ := ih h
      refine ⟨by rw [List.append_assoc, List.singleton_append], hcons hrest fun _ => ?_⟩
      rw [annOrdinalMax] at hmax
      omega

theorem addSegmentVectors_eq (h : addSegmentVectors add xs s rest index = .ok index') :
    index' = index ++ baseVectors xs s rest ∧ (baseVectors xs s rest).Pairwise (·.1 < ·.1) ∧
      ∀ k contents entries i entry, rest[k]? = some (contents, some entries) → entries[i]? = some entry →
        vectorIsVisible xs (s + k) contents i = true → i < 2 ^ 32 := by
  induction rest generalizing s index with
  | nil =>
    cases h
    exact ⟨(List.append_nil _).symm, .nil, by simp⟩
  | cons pair rest ih =>
    have hcons : (∀ k contents entries i entry, rest[k]? = some (contents, some entries) → entries[i]? = some entry →
          vectorIsVisible xs (s + 1 + k) contents i = true → i < 2 ^ 32) →
        (∀ contents entries i entry, pair = (contents, some entries) → entries[i]? = some entry →
          vectorIsVisible xs s contents i = true → i < 2 ^ 32) →
        ∀ k contents entries i entry, (pair :: rest)[k]? = some (contents, some entries) → entries[i]? = some entry →
          vectorIsVisible xs (s + k) contents i = true → i < 2 ^ 32 := by
      intro hrest hfirst k contents entries i entry hk hentry hvisible
      cases k with
      | zero => exact hfirst contents entries i entry (Option.some.inj hk) hentry hvisible
      | succ k =>
        rw [show s + (k + 1) = s + 1 + k by omega] at hvisible
        exact hrest k contents entries i entry hk hentry hvisible
    obtain ⟨contents, _ | entries⟩ := pair
    · obtain ⟨heq, hpairwise, hrest⟩ := ih h
      exact ⟨heq, hpairwise, hcons hrest (by simp)⟩
    · rw [addSegmentVectors] at h
      rw [baseVectors]
      split at h
      · cases h
      cases hone : addVisible add xs s contents 0 entries index with
      | error status =>
        rw [hone] at h
        cases h
      | ok next =>
        rw [hone] at h
        obtain ⟨rfl, hsmall⟩ := addVisible_eq hone
        obtain ⟨rfl, hpairwise, hrest⟩ := ih h
        simp only [Nat.zero_add] at hsmall
        refine ⟨List.append_assoc .., List.pairwise_append.mpr ⟨visibleVectors_pairwise .., hpairwise, ?_⟩,
          hcons hrest ?_⟩
        · intro a ha b hb
          obtain ⟨i, entry, hentry, hvisible, rfl⟩ := mem_visibleVectors.mp ha
          obtain ⟨k, _, _, i', _, -, -, -, rfl⟩ := mem_baseVectors.mp hb
          rw [Nat.zero_add] at hvisible
          have hi := hsmall i entry hentry hvisible
          simp only [annKey]
          omega
        · intro contents' entries' i entry heq
          cases heq
          exact hsmall i entry

end Vectors

/-- **The base corpus of a manifest** has the visible entries of its segments, in the order of their keys. -/
theorem annCorpusBuild_spec {V : Type} {fingerprint : SegmentDescriptor → Nat} {create : Nat → Bool}
    {add : List (Nat × V) → Nat × V → Bool} {xs : List SegmentContents} {manifest : Manifest} {generation : Nat}
    {segments : List (Option (List (Bytes × V)))} {base : AnnBase V}
    (h : annCorpusBuild fingerprint create add xs manifest generation segments = .ok base) :
    base.index = baseVectors xs 0 (xs.zip segments) ∧ base.index.Pairwise (·.1 < ·.1) ∧
      base.vectorCount = base.index.length ∧ base.segments = manifest.ids ∧
      base.segmentFingerprints = manifest.segments.map fingerprint ∧
      ∀ s contents entries i entry, (xs.zip segments)[s]? = some (contents, some entries) → entries[i]? = some entry →
        vectorIsVisible xs s contents i = true → i < 2 ^ 32 := by
  rw [annCorpusBuild] at h
  split at h
  · cases h
  cases hcount : countSegments xs 0 (xs.zip segments) with
  | error status =>
    rw [hcount] at h
    cases h
  | ok count =>
    have hlength := countSegments_eq hcount
    rw [hcount] at h
    dsimp only at h
    split at h
    · rename_i hzero
      rw [hzero, eq_comm, List.length_eq_zero_iff] at hlength
      cases h
      refine ⟨hlength.symm, .nil, rfl, rfl, rfl, fun s contents entries i entry hs hentry hvisible => ?_⟩
      have hmem : (annKey s i, entry.2) ∈ baseVectors xs 0 (xs.zip segments) := mem_baseVectors.mpr
        ⟨s, contents, entries, i, entry, hs, hentry, by rwa [Nat.zero_add], by rw [Nat.zero_add]⟩
      rw [hlength] at hmem
      cases hmem
    split at h
    · cases h
    cases hadd : addSegmentVectors add xs 0 (xs.zip segments) [] with
    | error status =>
      rw [hadd] at h
      cases h
    | ok index =>
      obtain ⟨rfl, hpairwise, hsmall⟩ := addSegmentVectors_eq hadd
      rw [hadd] at h
      cases h
      simp only [Nat.zero_add] at hsmall
      exact ⟨rfl, hpairwise, hlength, rfl, rfl, hsmall⟩

/-! ## What the plan says -/

section Plan

variable {V : Type} {hash : SegmentId → Nat} {fingerprint : SegmentDescriptor → Nat} {base : AnnBase V}
  {manifest : Manifest} {plan : AnnQueryPlan}

/-- Does the base have this segment as its `b`-th? -/
def AnnBase.Has (base : AnnBase V) (fingerprint : SegmentDescriptor → Nat) (b : Nat) (d : SegmentDescriptor) : Prop :=
  base.segments[b]? = some d.id ∧ base.segmentFingerprints[b]? = some (fingerprint d)

/-- What the plan says of the first `n` segments of a manifest. -/
structure AnnQueryPlan.Describes (plan : AnnQueryPlan) (base : AnnBase V) (fingerprint : SegmentDescriptor → Nat)
    (ds : List SegmentDescriptor) (n : Nat) : Prop where
  bases : plan.baseToCurrent.length = base.segments.length
  currents : plan.currentIsDelta.length = ds.length
  mapped : ∀ b i, plan.baseToCurrent[b]? = some (some i) ↔ i < n ∧ ∃ d, ds[i]? = some d ∧ base.Has fingerprint b d
  delta : ∀ i d, ds[i]? = some d →
    (plan.currentIsDelta[i]? = some true ↔ i < n ∧ ∀ b, ¬base.Has fingerprint b d)

/-- The slots find the segments of the base. -/
theorem annPlanSlots_spec (hash : SegmentId → Nat) (hnodup : base.segments.Nodup) (hne : base.segments.length ≠ 0) :
    ∃ slots, annPlanSlots hash base = some slots ∧
      ∀ id b, slots.lookup hash id = some b ↔ base.segments[b]? = some id := by
  have hkeys : (base.segments.zipIdx.map Prod.fst).Nodup := by rwa [List.zipIdx_map_fst]
  obtain ⟨slots, hslots, hlookup⟩ := Table.lookup_insertAllNew hash hkeys
    (show base.segments.zipIdx.length < tableCapacity base.segments.length by
      rw [List.length_zipIdx]
      exact lt_tableCapacity hne)
  exact ⟨slots, hslots, fun id b => by rw [hlookup, List.mem_zipIdx_iff_getElem?]⟩

theorem annPlanBase_eq_some {slots : Table SegmentId Nat}
    (hslots : ∀ id b, slots.lookup hash id = some b ↔ base.segments[b]? = some id) {d : SegmentDescriptor} {b : Nat} :
    annPlanBase hash fingerprint base slots d = some b ↔ base.Has fingerprint b d := by
  rw [annPlanBase, AnnBase.Has, ← hslots]
  cases slots.lookup hash d.id with
  | none => simp
  | some b' =>
    dsimp only
    by_cases hb : b' = b
    · simp [hb]
    · rw [Option.some.injEq]
      split <;> simp [hb]

/-- One segment of the manifest. -/
theorem AnnQueryPlan.Describes.step {ds : List SegmentDescriptor} {n : Nat} (h : plan.Describes base fingerprint ds n)
    (hnodup : base.segments.Nodup) (hids : (ds.map (·.id)).Nodup) {d : SegmentDescriptor} (hd : ds[n]? = some d) :
    (∀ b, base.Has fingerprint b d →
      AnnQueryPlan.Describes { plan with baseToCurrent := plan.baseToCurrent.set b (some n) } base fingerprint ds (n + 1)) ∧
    ((∀ b, ¬base.Has fingerprint b d) →
      AnnQueryPlan.Describes { plan with currentIsDelta := plan.currentIsDelta.set n true } base fingerprint ds (n + 1)) := by
  have hn : n < ds.length := (List.getElem?_eq_some_iff.mp hd).1
  -- different segments of the manifest have different names
  have hinj : ∀ {i j : Nat} {d' e : SegmentDescriptor}, ds[i]? = some d' → ds[j]? = some e → d'.id = e.id → i = j := by
    intro i j d' e hi hj hid
    refine (List.getElem?_inj (by simpa using (List.getElem?_eq_some_iff.mp hi).1) hids).mp ?_
    rw [List.getElem?_map, List.getElem?_map, hi, hj, Option.map_some, Option.map_some, hid]
  refine ⟨fun b hb => ⟨?_, h.currents, fun b' i => ?_, fun i e he => ?_⟩, fun hno => ⟨h.bases, ?_, fun b i => ?_, fun i e he => ?_⟩⟩
  · rw [List.length_set, h.bases]
  · have hlt : b < plan.baseToCurrent.length := h.bases ▸ (List.getElem?_eq_some_iff.mp hb.1).1
    rw [List.getElem?_set]
    by_cases hbb : b = b'
    · subst hbb
      rw [if_pos rfl, if_pos hlt, Option.some.injEq, Option.some.injEq]
      constructor
      · rintro rfl
        exact ⟨Nat.lt_succ_self _, d, hd, hb⟩
      · rintro ⟨-, e, he, hhas⟩
        exact hinj hd he (Option.some.inj (hb.1.symm.trans hhas.1))
    · rw [if_neg hbb, h.mapped]
      constructor
      · rintro ⟨hi, e, he, hhas⟩
        exact ⟨Nat.lt_succ_of_lt hi, e, he, hhas⟩
      · rintro ⟨hi, e, he, hhas⟩
        refine ⟨Nat.lt_of_le_of_ne (Nat.le_of_lt_succ hi) ?_, e, he, hhas⟩
        rintro rfl
        obtain rfl : d = e := Option.some.inj (hd.symm.trans he)
        exact hbb ((List.getElem?_inj (List.getElem?_eq_some_iff.mp hb.1).1 hnodup).mp (hb.1.trans hhas.1.symm))
  · rw [h.delta i e he]
    constructor
    · rintro ⟨hi, hall⟩
      exact ⟨Nat.lt_succ_of_lt hi, hall⟩
    · rintro ⟨hi, hall⟩
      refine ⟨Nat.lt_of_le_of_ne (Nat.le_of_lt_succ hi) ?_, hall⟩
      rintro rfl
      exact hall b (Option.some.inj (hd.symm.trans he) ▸ hb)
  · rw [List.length_set, h.currents]
  · rw [h.mapped]
    constructor
    · rintro ⟨hi, hex⟩
      exact ⟨Nat.lt_succ_of_lt hi, hex⟩
    · rintro ⟨hi, e, he, hhas⟩
      refine ⟨Nat.lt_of_le_of_ne (Nat.le_of_lt_succ hi) ?_, e, he, hhas⟩
      rintro rfl
      exact hno b (Option.some.inj (hd.symm.trans he) ▸ hhas)
  · rw [List.getElem?_set]
    by_cases hin : n = i
    · subst hin
      obtain rfl : d = e := Option.some.inj (hd.symm.trans he)
      simp [h.currents, hn, hno]
    · rw [if_neg hin, h.delta i e he]
      exact and_congr_left fun _ => by omega

theorem annPlanSegments_spec {slots : Table SegmentId Nat} {ds : List SegmentDescriptor}
    (hslots : ∀ id b, slots.lookup hash id = some b ↔ base.segments[b]? = some id) (hnodup : base.segments.Nodup)
    (hids : (ds.map (·.id)).Nodup) (rest : List SegmentDescriptor) {n : Nat} (hrest : ds.drop n = rest)
    (h : plan.Describes base fingerprint ds n) :
    (annPlanSegments hash fingerprint base slots n rest plan).Describes base fingerprint ds ds.length := by
  induction rest generalizing n plan with
  | nil =>
    have hle := List.drop_eq_nil_iff.mp hrest
    refine ⟨h.bases, h.currents, fun b i => ?_, fun i d hd => ?_⟩
    · rw [annPlanSegments, h.mapped]
      refine ⟨fun ⟨_, d, hd, hhas⟩ => ?_, fun ⟨hi, hex⟩ => ⟨by omega, hex⟩⟩
      exact ⟨(List.getElem?_eq_some_iff.mp hd).1, d, hd, hhas⟩
    · have := (List.getElem?_eq_some_iff.mp hd).1
      rw [annPlanSegments, h.delta i d hd]
      exact and_congr_left fun _ => by omega
  | cons d rest ih =>
    have hd : ds[n]? = some d := by rw [← List.head?_drop, hrest, List.head?_cons]
    have hrest' : ds.drop (n + 1) = rest := by rw [← List.tail_drop, hrest, List.tail_cons]
    obtain ⟨hfound, hmissing⟩ := h.step hnodup hids hd
    rw [annPlanSegments]
    split
    · rename_i b hb
      exact ih hrest' (hfound b ((annPlanBase_eq_some hslots).mp hb))
    · rename_i hnone
      refine ih hrest' (hmissing fun b hb => ?_)
      rw [(annPlanBase_eq_some hslots).mpr hb] at hnone
      cases hnone

/-- **The plan for a manifest**: a segment of the base is where the manifest has it, if it has it unchanged, and the other
segments of the manifest are delta segments. -/
theorem annQueryPlanBuild_spec (hash : SegmentId → Nat) (fingerprint : SegmentDescriptor → Nat)
    (hnodup : base.segments.Nodup) (hids : manifest.ids.Nodup) (hbase : base.segments ≠ [])
    (hmanifest : manifest.segments ≠ []) : ∃ plan, annQueryPlanBuild hash fingerprint base manifest = some (.ok plan) ∧
      plan.Describes base fingerprint manifest.segments manifest.segments.length := by
  have hbase := mt List.length_eq_zero_iff.mp hbase
  have hmanifest := mt List.length_eq_zero_iff.mp hmanifest
  obtain ⟨slots, hslots, hlookup⟩ := annPlanSlots_spec hash hnodup hbase
  rw [annQueryPlanBuild, if_neg (not_or.mpr ⟨hbase, hmanifest⟩), hslots, Option.map_some]
  refine ⟨_, rfl, annPlanSegments_spec hlookup hnodup hids manifest.segments List.drop_zero ⟨?_, ?_, fun b i => ?_, fun i d hd => ?_⟩⟩
  · rw [List.length_replicate]
  · rw [List.length_replicate]
  · simp [List.getElem?_replicate]
  · simp [List.getElem?_replicate]

end Plan

/-! ## Where a document is visible -/

section Visible

variable {xs : List SegmentContents} {x : SegmentContents} {n s : Nat} {id : Bytes}

/-- The entries of a segment in the table are for its events. -/
theorem lastEvent_segmentEntries (n : Nat) (x : SegmentContents) (id : Bytes) :
    (lastEvent (segmentEntries n x) id).map (fun e => (e.segmentOrdinal, e.documentOrdinal.isSome)) =
      (lastEvent x.events id).map fun r => (n, r.isSome) := by
  rw [← lastEvent_map (fun e : VisibilityEntry => (e.segmentOrdinal, e.documentOrdinal.isSome)),
    ← lastEvent_map (fun r : Option Record => (n, r.isSome))]
  congr 1
  simp only [segmentEntries, SegmentContents.events, List.map_append, List.map_map]
  congr 1
  refine List.ext_getElem (by simp) fun j h₁ h₂ => ?_
  simp

/-- The entries from the `n`-th segment on are of these segments. -/
theorem le_segmentOrdinal {e : VisibilityEntry} (h : lastEvent (visibilityEntries n xs) id = some e) :
    n ≤ e.segmentOrdinal := by
  induction xs generalizing n with
  | nil => cases h
  | cons x xs ih =>
    rw [visibilityEntries, lastEvent_append] at h
    rcases Option.or_eq_some_iff.mp h with h | ⟨-, h⟩
    · exact (Nat.le_succ n).trans (ih h)
    · have hmap := lastEvent_segmentEntries n x id
      rw [h, Option.map_some, eq_comm, Option.map_eq_some_iff] at hmap
      obtain ⟨r, -, hr⟩ := hmap
      exact (Prod.mk.inj hr).1.le

/-- There is no entry for a document that has no events. -/
theorem lastEvent_visibilityEntries_eq_none : lastEvent (visibilityEntries n xs) id = none ↔
    ∀ (t : Nat) (y : SegmentContents), xs[t]? = some y → lastEvent y.events id = none := by
  induction xs generalizing n with
  | nil => simp [visibilityEntries]
  | cons x xs ih =>
    have hmap := congrArg Option.isNone (lastEvent_segmentEntries n x id)
    rw [Option.isNone_map, Option.isNone_map] at hmap
    rw [visibilityEntries, lastEvent_append, Option.or_eq_none_iff, ih]
    constructor
    · rintro ⟨hrest, hfirst⟩ t y hy
      cases t with
      | zero =>
        cases hy
        rw [hfirst] at hmap
        exact Option.isNone_iff_eq_none.mp hmap.symm
      | succ t => exact hrest t y hy
    · intro h
      refine ⟨fun t y hy => h (t + 1) y hy, ?_⟩
      rw [h 0 x rfl] at hmap
      exact Option.isNone_iff_eq_none.mp hmap

/-- A document is visible in the segment that has its last event, if that is not its removal. -/
theorem lastEvent_visibilityEntries_iff (xs : List SegmentContents) (n s : Nat) (id : Bytes) :
    (∃ j, lastEvent (visibilityEntries n xs) id = some ⟨n + s, some j⟩) ↔
      ∃ x r, xs[s]? = some x ∧ lastEvent x.events id = some (some r) ∧
        ∀ (t : Nat) (y : SegmentContents), s < t → xs[t]? = some y → lastEvent y.events id = none := by
  induction xs generalizing n s with
  | nil => simp [visibilityEntries]
  | cons x xs ih =>
    rw [visibilityEntries, lastEvent_append]
    cases s with
    | zero =>
      have hmap := lastEvent_segmentEntries n x id
      constructor
      · rintro ⟨j, hj⟩
        rcases Option.or_eq_some_iff.mp hj with hj | ⟨hrest, hj⟩
        · have := le_segmentOrdinal hj
          dsimp only at this
          omega
        · rw [hj, Option.map_some, eq_comm, Option.map_eq_some_iff] at hmap
          obtain ⟨r, hr, heq⟩ := hmap
          obtain ⟨r, rfl⟩ := Option.isSome_iff_exists.mp (Prod.mk.inj heq).2
          refine ⟨x, r, rfl, hr, fun t y ht hy => ?_⟩
          obtain ⟨t, rfl⟩ : ∃ t', t = t' + 1 := ⟨t - 1, by omega⟩
          exact lastEvent_visibilityEntries_eq_none.mp hrest t y hy
      · rintro ⟨x', r, hx, hr, hlater⟩
        cases hx
        rw [hr, Option.map_some, Option.map_eq_some_iff] at hmap
        obtain ⟨⟨s', o⟩, he, heq⟩ := hmap
        obtain ⟨hs, ho⟩ := Prod.mk.inj heq
        obtain ⟨j, hj⟩ := Option.isSome_iff_exists.mp ho
        dsimp only at hs hj
        refine ⟨j, ?_⟩
        rw [lastEvent_visibilityEntries_eq_none.mpr fun t y hy => hlater (t + 1) y (Nat.succ_pos t) hy, Option.none_or, he, hs, hj]
        rfl
    | succ s =>
      have hshift : n + (s + 1) = n + 1 + s := by omega
      rw [hshift]
      have hrest : (∃ j, lastEvent (visibilityEntries (n + 1) xs) id = some ⟨n + 1 + s, some j⟩) ↔
          ∃ j, (lastEvent (visibilityEntries (n + 1) xs) id).or (lastEvent (segmentEntries n x) id) =
            some ⟨n + 1 + s, some j⟩ := by
        refine exists_congr fun j => ⟨fun h => by rw [h, Option.some_or], fun h => ?_⟩
        rcases Option.or_eq_some_iff.mp h with h | ⟨-, h⟩
        · exact h
        · have hmap := lastEvent_segmentEntries n x id
          rw [h, Option.map_some, eq_comm, Option.map_eq_some_iff] at hmap
          obtain ⟨r, -, hr⟩ := hmap
          have hn : n = n + 1 + s := (Prod.mk.inj hr).1
          omega
      rw [← hrest, ih]
      constructor
      · rintro ⟨y, r, hy, hr, hlater⟩
        refine ⟨y, r, hy, hr, fun t z ht hz => ?_⟩
        obtain ⟨t, rfl⟩ : ∃ t', t = t' + 1 := ⟨t - 1, by omega⟩
        exact hlater t z (by omega) hz
      · rintro ⟨y, r, hy, hr, hlater⟩
        exact ⟨y, r, hy, hr, fun t z ht hz => hlater (t + 1) z (by omega) hz⟩

/-- `vector_is_visible` looks for the last event of the document. -/
theorem snapshotDocumentOrdinal_isSome (xs : List SegmentContents) (s : Nat) (id : Bytes) :
    (snapshotDocumentOrdinal xs s id).isSome = true ↔ ∃ x r, xs[s]? = some x ∧
      lastEvent x.events id = some (some r) ∧
        ∀ (t : Nat) (y : SegmentContents), s < t → xs[t]? = some y → lastEvent y.events id = none := by
  obtain ⟨table, htable, -, hlookup⟩ := snapshotBuildVisibility_spec xs
  rw [← lastEvent_visibilityEntries_iff xs 0 s id, Nat.zero_add]
  simp only [snapshotDocumentOrdinal, htable, snapshotLookupDocument, hlookup]
  cases lastEvent (visibilityEntries 0 xs) id with
  | none => simp
  | some e =>
    obtain ⟨s', _ | j⟩ := e
    · simp
    · simp only [Option.bind_some, Option.map_some]
      split <;> rename_i h
      · simp [h]
      · simp [h]

end Visible

/-! ## A base that is kept while the index moves on -/

/-- Two elements are in order in a list. -/
theorem pair_sublist_iff {α : Type} {l : List α} {a b : α} :
    [a, b] <+ l ↔ ∃ i j : Nat, i < j ∧ l[i]? = some a ∧ l[j]? = some b := by
  induction l with
  | nil => simp
  | cons x l ih =>
    rw [List.sublist_cons_iff, ih]
    constructor
    · rintro (⟨i, j, hij, hi, hj⟩ | ⟨r, hr, hsub⟩)
      · exact ⟨i + 1, j + 1, Nat.succ_lt_succ hij, hi, hj⟩
      · obtain ⟨rfl, rfl⟩ := List.cons.inj hr
        obtain ⟨j, hj⟩ := List.mem_iff_getElem?.mp (List.singleton_sublist.mp hsub)
        exact ⟨0, j + 1, Nat.succ_pos j, rfl, hj⟩
    · rintro ⟨i, j, hij, hi, hj⟩
      obtain ⟨j, rfl⟩ : ∃ j', j = j' + 1 := ⟨j - 1, by omega⟩
      cases i with
      | zero =>
        cases hi
        exact .inr ⟨[b], rfl, List.singleton_sublist.mpr (List.mem_of_getElem? hj)⟩
      | succ i => exact .inl ⟨i, j, Nat.lt_of_succ_lt_succ hij, hi, hj⟩

section Later

variable {names : List SegmentId} {m₁ m₂ : Manifest} {d : SegmentDescriptor} {id : Bytes}

/-- The contents of the segments of a manifest. -/
def Manifest.contents (m : Manifest) : List SegmentContents := m.segments.map SegmentDescriptor.contents

theorem Manifest.getElem?_contents (m : Manifest) (s : Nat) :
    m.contents[s]? = m.segments[s]?.map SegmentDescriptor.contents := List.getElem?_map

/-- In a manifest that has no segment twice, a document is visible in a segment that has a version of it last, and that
nothing hides. -/
theorem Manifest.visible_iff {m : Manifest} (hnodup : m.ids.Nodup) {s : Nat} (hd : m.segments[s]? = some d) :
    (snapshotDocumentOrdinal m.contents s id).isSome = true ↔
      (∃ r, lastEvent d.contents.events id = some (some r)) ∧ ¬m.Hides d id := by
  rw [snapshotDocumentOrdinal_isSome]
  constructor
  · rintro ⟨x, r, hx, hr, hlater⟩
    rw [m.getElem?_contents, hd, Option.map_some, Option.some.injEq] at hx
    subst hx
    refine ⟨⟨r, hr⟩, ?_⟩
    rintro ⟨e, hsub, he⟩
    obtain ⟨i, j, hij, hi, hj⟩ := pair_sublist_iff.mp hsub
    have his : i = s := (List.getElem?_inj (List.getElem?_eq_some_iff.mp hi).1 hnodup.of_map).mp (hi.trans hd.symm)
    exact he (hlater j e.contents (his ▸ hij) (by rw [m.getElem?_contents, hj, Option.map_some]))
  · rintro ⟨⟨r, hr⟩, hhides⟩
    refine ⟨d.contents, r, by rw [m.getElem?_contents, hd, Option.map_some], hr, fun t y ht hy => ?_⟩
    rw [m.getElem?_contents, Option.map_eq_some_iff] at hy
    obtain ⟨e, he, rfl⟩ := hy
    by_contra hne
    exact hhides ⟨e, pair_sublist_iff.mpr ⟨s, t, ht, hd, he⟩, hne⟩

/-- **What is visible in a segment that was kept was visible before.** -/
theorem Manifest.Succeeds.visible (h : m₁.Succeeds names m₂) (hnodup₁ : m₁.ids.Nodup) (hnodup₂ : m₂.ids.Nodup)
    {s t : Nat} (hs : m₁.segments[s]? = some d) (ht : m₂.segments[t]? = some d)
    (hvisible : (snapshotDocumentOrdinal m₂.contents t id).isSome = true) :
    (snapshotDocumentOrdinal m₁.contents s id).isSome = true := by
  obtain ⟨hversion, hhides⟩ := (Manifest.visible_iff hnodup₂ ht).mp hvisible
  exact (Manifest.visible_iff hnodup₁ hs).mpr ⟨hversion, fun hold =>
    hhides (h.hidden d (List.mem_of_getElem? hs) (List.mem_of_getElem? ht) id hold)⟩

variable {V M S : Type} [LinearOrder S] {fingerprint : SegmentDescriptor → Nat} {create : Nat → Bool}
  {add : List (Nat × V) → Nat × V → Bool} {base : AnnBase V} {plan : AnnQueryPlan}
  {load : SegmentDescriptor → QuerySegment V M S}

omit [LinearOrder S] in
/-- A segment of a later manifest that the base has is the same segment of the manifest the base was built for. -/
theorem Manifest.Succeeds.of_has (h : m₁.Succeeds names m₂) (hlisted : ∀ id ∈ m₁.ids, id ∈ names)
    (hnodup₁ : m₁.ids.Nodup) (hbase : base.segments = m₁.ids) (hd : d ∈ m₂.segments) {b : Nat}
    (hhas : base.Has fingerprint b d) : m₁.segments[b]? = some d := by
  have hid : m₁.ids[b]? = some d.id := hbase ▸ hhas.1
  obtain ⟨b', hb'⟩ := List.mem_iff_getElem?.mp (h.mem hd (hlisted d.id (List.mem_of_getElem? hid)))
  have hid' : m₁.ids[b']? = some d.id := by rw [Manifest.ids, List.getElem?_map, hb', Option.map_some]
  have hbb : b = b' := (List.getElem?_inj (List.getElem?_eq_some_iff.mp hid).1 hnodup₁).mp (hid.trans hid'.symm)
  rw [hbb, hb']

/-- **The base of an earlier manifest and the plan for a later one cover the later one.** -/
theorem Manifest.Succeeds.basePlusDelta (h : m₁.Succeeds names m₂) (hlisted : ∀ id ∈ m₁.ids, id ∈ names)
    (hnodup₁ : m₁.ids.Nodup) (hnodup₂ : m₂.ids.Nodup)
    (hbuild : annCorpusBuild fingerprint create add m₁.contents m₁ m₁.generation
      (m₁.segments.map fun d => (load d).entries) = .ok base)
    (hplan : plan.Describes base fingerprint m₂.segments m₂.segments.length) {request : VectorRequest V M S}
    {search : Nat → Except Status (List Nat)} {score : Nat → S}
    (hsearch : ExactSearch (base.index.map Prod.fst) score search)
    (hscore : ∀ p ∈ base.index, request.score p.2 = .ok (score p.1)) :
    BasePlusDelta m₂.contents (m₂.segments.map load) request (base.corpus search) plan (base.index.map Prod.fst)
      score := by
  obtain ⟨hindex, -, hcount, hsegments, -, hsmall⟩ := annCorpusBuild_spec hbuild
  have hzip : ∀ b : Nat, (m₁.contents.zip (m₁.segments.map fun d => (load d).entries))[b]? =
      m₁.segments[b]?.map fun d => (d.contents, (load d).entries) := by
    intro b
    rw [Manifest.contents, List.zip_map', List.getElem?_map]
  refine ⟨hsearch, ?_, hplan.bases, ?_, fun key hkey s hs => ?_, fun s i c hc => ?_⟩
  · rw [List.length_map, AnnBase.corpus, hcount]
  · rw [hplan.currents, List.length_map]
  · obtain ⟨p, hp, rfl⟩ := List.mem_map.mp hkey
    have hsc := hscore p hp
    rw [hindex] at hp
    obtain ⟨b, contents, entries, i, entry, hb, hentry, hvisible, rfl⟩ := mem_baseVectors.mp hp
    rw [Nat.zero_add] at hvisible hs hsc ⊢
    have hi := hsmall b contents entries i entry hb hentry hvisible
    have hdiv : annKey b i / 2 ^ 32 = b := by
      rw [annKey]
      omega
    have hmod : annKey b i % 2 ^ 32 = i := by
      rw [annKey]
      omega
    dsimp only at hs hsc ⊢
    rw [hdiv] at hs
    rw [hmod]
    obtain ⟨-, d, hd, hhas⟩ := (hplan.mapped b s).mp hs
    have hd₁ := h.of_has hlisted hnodup₁ hsegments (List.mem_of_getElem? hd) hhas
    rw [hzip, hd₁, Option.map_some, Option.some.injEq, Prod.mk.injEq] at hb
    obtain ⟨rfl, hload⟩ := hb
    rw [vectorIsVisible] at hvisible
    split at hvisible
    · cases hvisible
    · rename_i passage hpassage
      refine ⟨d.contents, load d, passage, entry, ?_, ?_, hpassage, ?_, hsc⟩
      · rw [m₂.getElem?_contents, hd, Option.map_some]
      · rw [List.getElem?_map, hd, Option.map_some]
      · rw [hload, Option.bind_some, hentry]
  · obtain ⟨contents, segment, passage, j, filter, entry, sc, h₁, h₂, h₃, h₄, -, -, h₇, -, -⟩ := hc
    rw [m₂.getElem?_contents, Option.map_eq_some_iff] at h₁
    obtain ⟨d, hd, rfl⟩ := h₁
    rw [List.getElem?_map, hd, Option.map_some, Option.some.injEq] at h₂
    subst h₂
    by_cases hhas : ∃ b, base.Has fingerprint b d
    · -- the base has the segment, and the passage was visible then
      obtain ⟨b, hhas⟩ := hhas
      have hd₁ := h.of_has hlisted hnodup₁ hsegments (List.mem_of_getElem? hd) hhas
      obtain ⟨entries, hload, hentry⟩ := Option.bind_eq_some_iff.mp h₇
      have hb : (m₁.contents.zip (m₁.segments.map fun d => (load d).entries))[b]? =
          some (d.contents, some entries) := by rw [hzip, hd₁, Option.map_some, hload]
      have hvisible : vectorIsVisible m₁.contents b d.contents i = true := by
        rw [vectorIsVisible, h₃]
        exact h.visible hnodup₁ hnodup₂ hd₁ hd (by rw [h₄]; rfl)
      have hi := hsmall b d.contents entries i entry hb hentry hvisible
      refine .inr ⟨annKey b i, List.mem_map.mpr ⟨(annKey b i, entry.2), ?_, rfl⟩, ?_, ?_⟩
      · rw [hindex]
        exact mem_baseVectors.mpr ⟨b, d.contents, entries, i, entry, hb, hentry, by rwa [Nat.zero_add], by rw [Nat.zero_add]⟩
      · rw [show annKey b i / 2 ^ 32 = b by rw [annKey]; omega, hplan.mapped]
        exact ⟨(List.getElem?_eq_some_iff.mp hd).1, d, hd, hhas⟩
      · rw [annKey]
        omega
    · refine .inl ((hplan.delta s d hd).mpr ⟨(List.getElem?_eq_some_iff.mp hd).1, fun b hb => hhas ⟨b, hb⟩⟩)

end Later

/-- The base and the delta segments, one after the other. -/
theorem BasePlusDelta.collectVector_best {V M S : Type} [LinearOrder S] {xs : List SegmentContents}
    {segments : List (QuerySegment V M S)} {request : VectorRequest V M S} {corpus : AnnCorpus} {plan : AnnQueryPlan}
    {keys : List Nat} {score : Nat → S} (h : BasePlusDelta xs segments request corpus plan keys score)
    (hs : Searchable xs segments request) {zero : S} {empty : CandidateSet S}
    (hinit : candidateSetInit zero request.candidateK = .ok empty) :
    ∃ set, collectVector xs segments request zero (some corpus) (some plan) empty = some (.ok set) ∧
      BestUpToTies request.candidateK (VisibleCandidate xs segments request) set.contents := by
  obtain ⟨hcapacity, hempty⟩ := candidateSetInit_holds hinit
  obtain ⟨set₁, kept₁, hrun₁, hcapacity₁, hholds₁, hvisible₁, hcovered₁⟩ := collectVectorBase_spec hinit hs h hempty
  obtain ⟨set₂, kept₂, hrun₂, hcapacity₂, hholds₂, hvisible₂, hcovered₂⟩ :=
    collectVectorSegments_spec (some plan) hinit hs _ 0 List.drop_zero hholds₁
  have hk : set₂.capacity = request.candidateK := by rw [hcapacity₂, hcapacity₁, hcapacity]
  refine ⟨set₂, ?_, ?_⟩
  · rw [collectVector, collectVectorCorpus, hrun₁]
    exact hrun₂
  · rw [← hk]
    refine hholds₂.bestUpToTies (fun c hc => ?_) fun d hd => ?_
    · rw [List.nil_append] at hc
      exact (List.mem_append.mp hc).elim (hvisible₁ c) (hvisible₂ c)
    · obtain ⟨s, i, hd⟩ := hd
      rw [hk, List.nil_append]
      by_cases hdelta : plan.currentIsDelta[s]? = some true
      · refine (hcovered₂ s i d (Nat.zero_le s) hd ?_).mono fun c hc => List.mem_append_right _ hc
        rintro _ ⟨⟩
        rw [List.getD_eq_getElem?_getD, hdelta]
        rfl
      · exact (hcovered₁ s i d hd hdelta).mono fun c hc => List.mem_append_left _ hc

/-- **A base corpus outlives its manifest.**  A corpus was built for the manifest at some point of a run; the plan is made
for the manifest of a later point, after any updates, recoveries and compactions.  If usearch searches exactly, then the
base and the delta segments together give the best candidates among all passages that are visible now: no passage that was
replaced, removed or compacted away comes back through the base, and none is missed. -/
theorem stale_base_exact {env : Env} {cfg : Config} {m : Manifest} {s₀ : State} (h₀ : Opened env cfg m s₀)
    {c c' : System} (h : Reachable env cfg s₀ c) (hrun : Continues env cfg c c') {m₁ m₂ : Manifest}
    (hm₁ : c.state.disk.manifest = some m₁) (hm₂ : c'.state.disk.manifest = some m₂) (hne : m₂.segments ≠ [])
    {V M S : Type} [LinearOrder S] (hash : SegmentId → Nat) {fingerprint : SegmentDescriptor → Nat} {create : Nat → Bool}
    {add : List (Nat × V) → Nat × V → Bool} (load : SegmentDescriptor → QuerySegment V M S) {base : AnnBase V}
    (hbuild : annCorpusBuild fingerprint create add m₁.contents m₁ m₁.generation
      (m₁.segments.map fun d => (load d).entries) = .ok base)
    {request : VectorRequest V M S} {search : Nat → Except Status (List Nat)} {score : Nat → S}
    (hsearch : ExactSearch (base.index.map Prod.fst) score search)
    (hscore : ∀ p ∈ base.index, request.score p.2 = .ok (score p.1))
    (hs : Searchable m₂.contents (m₂.segments.map load) request) {zero : S} {empty : CandidateSet S}
    (hinit : candidateSetInit zero request.candidateK = .ok empty) :
    ∃ plan set, annQueryPlanBuild hash fingerprint base m₂ = some (.ok plan) ∧
      collectVector m₂.contents (m₂.segments.map load) request zero (some (base.corpus search)) (some plan) empty =
        some (.ok set) ∧
      BestUpToTies request.candidateK (VisibleCandidate m₂.contents (m₂.segments.map load) request) set.contents := by
  have hc' := hrun.reachable h
  obtain ⟨m₃, hm₃⟩ := (h.good h₀).1
  obtain ⟨m₄, hm₄⟩ := (hc'.good h₀).1
  cases hm₁.symm.trans hm₃.ledger.manifest
  cases hm₂.symm.trans hm₄.ledger.manifest
  have hnodup₁ := (manifestValidate_eq_ok.mp hm₃.ledger.ok.valid).2.2.2.2
  have hnodup₂ := (manifestValidate_eq_ok.mp hm₄.ledger.ok.valid).2.2.2.2
  have hsucceeds := (h.precedes h₀ hrun).manifest m₁ m₂ hm₁ hm₂
  have hsegments := (annCorpusBuild_spec hbuild).2.2.2.1
  have hbase : base.segments ≠ [] := by
    rintro hnil
    rw [hsegments, Manifest.ids, List.map_eq_nil_iff] at hnil
    rw [annCorpusBuild, if_pos (.inl (by rw [hnil]; rfl))] at hbuild
    cases hbuild
  obtain ⟨plan, hplan, hdescribes⟩ := annQueryPlanBuild_spec hash fingerprint (hsegments ▸ hnodup₁) hnodup₂ hbase hne
  have hcover := hsucceeds.basePlusDelta hm₃.ledger.listed hnodup₁ hnodup₂ hbuild hdescribes hsearch hscore
  obtain ⟨set, hcollect, hbest⟩ := hcover.collectVector_best hs hinit
  exact ⟨plan, set, hplan, hcollect, hbest⟩

/-- Every passage has the vector 0, and every search finds the first ones. -/
def plainLoad (d : SegmentDescriptor) : QuerySegment Nat Unit Nat where
  vector := some ⟨some (d.contents.passages.map fun p => (p.id, 0)), fun n =>
    .ok ((d.contents.passages.mapIdx fun i p => ⟨p.id, i, 0⟩).take n)⟩
  metadata := none

theorem exactSearch_take {K S : Type} [LinearOrder S] {keys : List K} (hnodup : keys.Nodup) (zero : S) :
    ExactSearch keys (fun _ => zero) fun n => .ok (keys.take n) where
  nodup := hnodup
  exact n _ hle := ⟨keys.take n, rfl, hnodup.sublist (List.take_sublist n keys), List.length_take_of_le hle,
    fun _ h => List.mem_of_mem_take h, fun _ _ _ _ _ => le_rfl⟩

theorem searchable_plainLoad (ds : List SegmentDescriptor) :
    Searchable (ds.map SegmentDescriptor.contents) (ds.map plainLoad) (oneRequest .passages) where
  length := by rw [List.length_map, List.length_map]
  vectors s contents segment hcontents hsegment _ := by
    rw [List.getElem?_map, Option.map_eq_some_iff] at hcontents
    obtain ⟨d, hd, rfl⟩ := hcontents
    rw [List.getElem?_map, hd, Option.map_some, Option.some.injEq] at hsegment
    subst hsegment
    refine ⟨_, _, d.contents.passages.mapIdx fun i p => ⟨p.id, i, 0⟩, fun _ => true, rfl, rfl, by simp,
      ⟨by simp, fun i entry hentry => ?_⟩, ?_, rfl⟩
    · rw [List.getElem?_map, Option.map_eq_some_iff] at hentry
      obtain ⟨p, hp, rfl⟩ := hentry
      exact ⟨0, rfl, by simp [hp]⟩
    · have hnodup : (d.contents.passages.mapIdx fun i p => (⟨p.id, i, 0⟩ : VectorHit Nat)).Nodup := by
        rw [List.nodup_iff_injective_getElem]
        intro i j hij
        simpa [Fin.ext_iff] using congrArg VectorHit.ordinal hij
      have hscore : ∀ hit ∈ (d.contents.passages.mapIdx fun i p => (⟨p.id, i, 0⟩ : VectorHit Nat)), hit.score = 0 := by
        intro hit hmem
        obtain ⟨i, hi, rfl⟩ := List.mem_mapIdx.mp hmem
        rfl
      exact ⟨hnodup, fun n hn hle => ⟨_, rfl, hnodup.sublist (List.take_sublist ..), List.length_take_of_le hle,
        fun hit hmem => List.mem_of_mem_take hmem,
        fun a ha b hb _ => ((hscore b hb).trans (hscore a (List.mem_of_mem_take ha)).symm).le⟩⟩

/-- The document `y`, and the process that brings it. -/
def upsertY : IngestOperation := upsertOf [121] [121] (by decide) (by decide)

def secondUpdate : List (Sys.Label Choice Call) :=
  [.spawn 2 (.apply [upsertY])] ++ steps 2 7 ++ [.act 2 (.suffix 0)] ++ steps 2 20 ++ [.finish 2]

/-- The base corpus of a manifest, with a fingerprint and an index that accept everything. -/
def plainBase (m : Manifest) : Except Status (AnnBase Nat) :=
  annCorpusBuild (fun _ => 0) (fun _ => true) (fun _ _ => true) m.contents m m.generation
    (m.segments.map fun d => (plainLoad d).entries)

/-- The base has a vector of the first manifest, and the second manifest has one segment more. -/
def baseIsStale (c c' : System) : Bool :=
  match c.state.disk.manifest, c'.state.disk.manifest with
  | some m₁, some m₂ =>
    match plainBase m₁ with
    | .ok base => base.index.length = 1 ∧ m₁.ids = [⟨.seg, 2, 0⟩] ∧ m₂.ids = [⟨.seg, 2, 0⟩, ⟨.seg, 3, 0⟩]
    | .error _ => false
  | _, _ => false

theorem stale_base_exact_update : ∃ m₁ m₂ base plan set empty, m₁.ids = [⟨.seg, 2, 0⟩] ∧
    m₂.ids = [⟨.seg, 2, 0⟩, ⟨.seg, 3, 0⟩] ∧ plainBase m₁ = .ok base ∧
    annQueryPlanBuild (fun _ => 0) (fun _ => 0) base m₂ = some (.ok plan) ∧
    collectVector m₂.contents (m₂.segments.map plainLoad) (oneRequest .passages) 0
      (some (base.corpus fun n => .ok ((base.index.map Prod.fst).take n))) (some plan) empty = some (.ok set) ∧
    BestUpToTies 2 (VisibleCandidate m₂.contents (m₂.segments.map plainLoad) (oneRequest .passages)) set.contents := by
  obtain ⟨c, c', hc, hrun, hcheck⟩ := exists_of_runs updateToEnd secondUpdate baseIsStale (by decide +kernel)
  unfold baseIsStale at hcheck
  split at hcheck
  · rename_i m₁ m₂ hm₁ hm₂
    split at hcheck
    · rename_i base hbase
      rw [decide_eq_true_eq] at hcheck
      have hne : m₂.segments ≠ [] := by
        intro hnil
        rw [Manifest.ids, Manifest.ids, hnil] at hcheck
        simp at hcheck
      have hok : ∃ empty, candidateSetInit 0 2 = .ok empty := ⟨_, rfl⟩
      obtain ⟨empty, hinit⟩ := hok
      obtain ⟨hindex, hpairwise, -⟩ := annCorpusBuild_spec hbase
      have hzero : ∀ p ∈ base.index, (oneRequest .passages).score p.2 = .ok 0 := by
        intro p hp
        rw [hindex] at hp
        obtain ⟨k, contents, entries, i, entry, hk, hentry, -, rfl⟩ := mem_baseVectors.mp hp
        have hload := (List.getElem?_zip_eq_some.mp hk).2
        rw [List.getElem?_map, Option.map_eq_some_iff] at hload
        obtain ⟨d, -, hd⟩ := hload
        obtain rfl : d.contents.passages.map (fun p => (p.id, 0)) = entries := Option.some.inj hd
        rw [List.getElem?_map, Option.map_eq_some_iff] at hentry
        obtain ⟨p, -, rfl⟩ := hentry
        rfl
      have hkeys : (base.index.map Prod.fst).Nodup := by
        rw [List.Nodup, List.pairwise_map]
        exact hpairwise.imp fun h => Nat.ne_of_lt h
      obtain ⟨plan, set, hplan, hcollect, hbest⟩ := stale_base_exact emptyState_opened hc hrun hm₁ hm₂ hne
        (fun _ => 0) plainLoad hbase (exactSearch_take hkeys 0) hzero (searchable_plainLoad m₂.segments) hinit
      exact ⟨m₁, m₂, base, plan, set, empty, hcheck.2.1, hcheck.2.2, hbase, hplan, hcollect, hbest⟩
    · cases hcheck
  · cases hcheck

end Yappod

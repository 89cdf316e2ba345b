import Yappod.Storage.Snapshot

/-!
# Context assembly

`YAP_V2_retrieve_context`: the passages of a ranking are cited in its order, as long as they fit.  A passage is passed
over if its document is not visible, if a passage with its id was cited before, if its document has been cited often
enough, or if its text would make the context too long; texts are separated by two newlines.

* `LeftOut` — the reasons to pass a hit over.
* `ContextOf` — what holds of a context and its citations.
* `retrieveContext_spec` — this is what comes out, for hits on passages of the snapshot.
-/

set_option autoImplicit false

namespace Yappod

/-- `YAP_V2_QUERY_HIT`, with scores from `S`. -/
structure QueryHit (S : Type) where
  id : Bytes
  parentDocumentId : Bytes
  segmentOrdinal : Nat
  objectOrdinal : Nat
  lexicalScore : S
  vectorScore : S
  fusedScore : S

/-- `YAP_V2_RETRIEVE_OPTIONS`. -/
structure RetrieveOptions where
  maxPassages : Nat
  maxPassagesPerDocument : Nat
  maxContextBytes : Nat

/-- `YAP_V2_CITATION`. -/
structure Citation (S : Type) where
  passageId : Bytes
  documentId : Bytes
  url : Bytes
  title : Bytes
  text : Bytes
  startChar : Nat
  endChar : Nat
  lexicalScore : S
  vectorScore : S
  fusedScore : S
  contextStart : Nat
  contextEnd : Nat

/-- `YAP_V2_snapshot_document_visible`. -/
def snapshotDocumentVisible (xs : List SegmentContents) (segmentOrdinal : Nat) (id : Bytes) : Bool :=
  match snapshotBuildVisibility xs with
  | none => false
  | some table =>
    match snapshotLookupDocument table id with
    | none => false
    | some place => place.1 = segmentOrdinal

variable {S : Type}

/-- The context and the citations so far. -/
structure RetrieveState (S : Type) where
  context : Bytes
  citations : List (Citation S)

/-- The number of bytes between two texts. -/
def RetrieveState.separator (st : RetrieveState S) : Nat := if st.citations.length = 0 then 0 else 2

/-- The text of a passage is appended, and cited. -/
def RetrieveState.cite (st : RetrieveState S) (hit : QueryHit S) (passage : Passage) (document : Document) :
    RetrieveState S :=
  let start := st.context.length + st.separator
  { context := st.context ++ List.replicate st.separator 10 ++ passage.text
    citations := st.citations ++ [
      { passageId := passage.id, documentId := document.id, url := document.url, title := document.title,
        text := passage.text, startChar := passage.startChar, endChar := passage.endChar,
        lexicalScore := hit.lexicalScore, vectorScore := hit.vectorScore, fusedScore := hit.fusedScore,
        contextStart := start, contextEnd := start + passage.text.length }] }

variable (xs : List SegmentContents) (options : RetrieveOptions)

/-- The passage of a hit and its document, if the hit belongs to the snapshot. -/
def hitPassage (hit : QueryHit S) : Option (Passage × Document) := do
  let segment ← xs[hit.segmentOrdinal]?
  let passage ← segment.passages[hit.objectOrdinal]?
  if passage.id ≠ hit.id ∨ passage.parentDocumentId ≠ hit.parentDocumentId then none
  else
    let document ← segment.documents.find? fun d => d.id = passage.parentDocumentId
    return (passage, document)

/-- The first `continue` of the loop. -/
def passedOver (st : RetrieveState S) (hit : QueryHit S) (passage : Passage) (document : Document) : Bool :=
  !snapshotDocumentVisible xs hit.segmentOrdinal document.id ||
    (st.citations.any fun c => c.passageId = passage.id) ||
    options.maxPassagesPerDocument ≤ st.citations.countP fun c => c.documentId = document.id

/-- The second `continue` of the loop. -/
def tooLong (st : RetrieveState S) (passage : Passage) : Bool :=
  options.maxContextBytes - st.context.length < passage.text.length ||
    options.maxContextBytes - st.context.length - passage.text.length < st.separator

/-- The loop over the ranking. -/
def retrieveLoop : List (QueryHit S) → RetrieveState S → Except Status (RetrieveState S)
  | [], st => .ok st
  | hit :: hits, st =>
    if options.maxPassages ≤ st.citations.length then .ok st
    else
      match hitPassage xs hit with
      | none => .error .conflict
      | some (passage, document) =>
        if passedOver xs options st hit passage document || tooLong options st passage then retrieveLoop hits st
        else retrieveLoop hits (st.cite hit passage document)

/-- `YAP_V2_retrieve_context`. -/
def retrieveContext (hits : List (QueryHit S)) (contextCapacity citationCapacity : Nat) :
    Except Status (RetrieveState S) :=
  if options.maxPassages = 0 ∨ options.maxPassagesPerDocument = 0 ∨ options.maxContextBytes = 0 ∨
      contextCapacity < options.maxContextBytes ∨ citationCapacity < options.maxPassages then
    .error .invalidArgument
  else retrieveLoop xs options hits ⟨[], []⟩

/-! ## What a context should be -/

/-- Texts joined by two newlines. -/
def joinTexts (texts : List Bytes) : Bytes := [10, 10].intercalate texts

/-- A citation of the passage that a hit is on. -/
structure CitationOf (hit : QueryHit S) (c : Citation S) : Prop where
  passage : ∃ passage document, hitPassage xs hit = some (passage, document) ∧ c.passageId = passage.id ∧
    c.documentId = document.id ∧ c.url = document.url ∧ c.title = document.title ∧ c.text = passage.text ∧
    c.startChar = passage.startChar ∧ c.endChar = passage.endChar ∧
    snapshotDocumentVisible xs hit.segmentOrdinal document.id = true
  scores : c.lexicalScore = hit.lexicalScore ∧ c.vectorScore = hit.vectorScore ∧ c.fusedScore = hit.fusedScore

/-- Why a hit is not cited after some citations: there are enough of them, or its document is not visible, or its
passage is cited already, or its document is cited often enough, or its text does not fit. -/
def LeftOut (cited : List (Citation S)) (hit : QueryHit S) : Prop :=
  options.maxPassages ≤ cited.length ∨ ∃ passage document, hitPassage xs hit = some (passage, document) ∧
    (snapshotDocumentVisible xs hit.segmentOrdinal document.id = false ∨
      passage.id ∈ cited.map (·.passageId) ∨
      options.maxPassagesPerDocument ≤ cited.countP (fun c => c.documentId = document.id) ∨
      options.maxContextBytes < (joinTexts (cited.map (·.text) ++ [passage.text])).length)

/-- The citations are those of the hits in order, each hit being cited or left out for a reason at its point. -/
inductive Cites : List (QueryHit S) → List (Citation S) → Prop
  | nil : Cites [] []
  | cite {hits : List (QueryHit S)} {cited : List (Citation S)} {hit : QueryHit S} {c : Citation S} :
    Cites hits cited → CitationOf xs hit c → Cites (hits ++ [hit]) (cited ++ [c])
  | skip {hits : List (QueryHit S)} {cited : List (Citation S)} {hit : QueryHit S} :
    Cites hits cited → LeftOut xs options cited hit → Cites (hits ++ [hit]) cited

/-- What holds of a context and its citations. -/
structure ContextOf (hits : List (QueryHit S)) (st : RetrieveState S) : Prop where
  cites : Cites xs options hits st.citations
  distinct : (st.citations.map (·.passageId)).Nodup
  count : st.citations.length ≤ options.maxPassages
  perDocument : ∀ id, st.citations.countP (fun c => c.documentId = id) ≤ options.maxPassagesPerDocument
  context : st.context = joinTexts (st.citations.map (·.text))
  size : st.context.length ≤ options.maxContextBytes
  places : ∀ c ∈ st.citations, c.contextStart ≤ c.contextEnd ∧ c.contextEnd ≤ st.context.length ∧
    (st.context.take c.contextEnd).drop c.contextStart = c.text

/-! ## One round -/

section Round

variable {xs} {options} {hits : List (QueryHit S)} {st : RetrieveState S} {hit : QueryHit S} {passage : Passage}
  {document : Document}

theorem joinTexts_snoc {texts : List Bytes} (hne : texts ≠ []) (text : Bytes) :
    joinTexts (texts ++ [text]) = joinTexts texts ++ ([10, 10] ++ text) := by
  induction texts with
  | nil => exact absurd rfl hne
  | cons first texts ih =>
    cases texts with
    | nil => simp [joinTexts, List.intercalate]
    | cons second texts =>
      have hcons : ∀ more, joinTexts (first :: second :: more) = first ++ ([10, 10] ++ joinTexts (second :: more)) := by
        intro more
        simp [joinTexts, List.intercalate]
      rw [List.cons_append, List.cons_append, hcons, ← List.cons_append, ih (List.cons_ne_nil _ _), hcons]
      simp only [List.append_assoc]

/-- The context with one more text. -/
theorem joinTexts_cite (h : ContextOf xs options hits st) (text : Bytes) :
    joinTexts (st.citations.map (·.text) ++ [text]) = st.context ++ List.replicate st.separator 10 ++ text := by
  rw [RetrieveState.separator]
  by_cases hempty : st.citations.length = 0
  · rw [h.context, List.length_eq_zero_iff.mp hempty]
    simp [joinTexts, List.intercalate]
  · rw [if_neg hempty, joinTexts_snoc (by simpa [List.length_eq_zero_iff] using hempty), ← h.context, List.append_assoc]
    rfl

/-- A hit that is passed over is left out for a reason. -/
theorem ContextOf.skip (h : ContextOf xs options hits st) (hpassage : hitPassage xs hit = some (passage, document))
    (hskip : (passedOver xs options st hit passage document || tooLong options st passage) = true) :
    ContextOf xs options (hits ++ [hit]) st := by
  refine ⟨.skip h.cites (.inr ⟨passage, document, hpassage, ?_⟩), h.distinct, h.count, h.perDocument, h.context, h.size,
    h.places⟩
  simp only [passedOver, tooLong, Bool.or_eq_true, Bool.not_eq_true', List.any_eq_true, decide_eq_true_eq] at hskip
  rcases hskip with ((hhidden | ⟨c, hc, hid⟩) | hmany) | hlong
  · exact .inl hhidden
  · exact .inr (.inl (List.mem_map.mpr ⟨c, hc, hid⟩))
  · exact .inr (.inr (.inl hmany))
  · refine .inr (.inr (.inr ?_))
    have hsize := h.size
    rw [joinTexts_cite h]
    simp only [List.length_append, List.length_replicate]
    omega

/-- A hit that is not passed over is cited. -/
theorem ContextOf.cite (h : ContextOf xs options hits st) (hcount : st.citations.length < options.maxPassages)
    (hpassage : hitPassage xs hit = some (passage, document))
    (htake : (passedOver xs options st hit passage document || tooLong options st passage) = false) :
    ContextOf xs options (hits ++ [hit]) (st.cite hit passage document) := by
  simp only [passedOver, tooLong, Bool.or_eq_false_iff, Bool.not_eq_false', List.any_eq_false, decide_eq_true_eq,
    decide_eq_false_iff_not] at htake
  obtain ⟨⟨⟨hvisible, hnew⟩, hfew⟩, hfits, hseparator⟩ := htake
  have hsize := h.size
  have hcontext : (st.cite hit passage document).context =
      st.context ++ List.replicate st.separator 10 ++ passage.text := rfl
  have hlength : (st.cite hit passage document).context.length =
      st.context.length + st.separator + passage.text.length := by
    rw [hcontext, List.length_append, List.length_append, List.length_replicate]
  refine ⟨.cite h.cites ⟨⟨passage, document, hpassage, rfl, rfl, rfl, rfl, rfl, rfl, rfl, hvisible⟩, rfl, rfl, rfl⟩,
    ?_, ?_, fun id => ?_, ?_, by omega, fun c hc => ?_⟩
  · rw [RetrieveState.cite, List.map_append, List.map_singleton, List.nodup_append]
    refine ⟨h.distinct, List.nodup_singleton _, fun a ha b hb hab => ?_⟩
    obtain ⟨c, hc, rfl⟩ := List.mem_map.mp ha
    obtain rfl := List.mem_singleton.mp hb
    exact hnew c hc hab
  · rw [RetrieveState.cite, List.length_append, List.length_singleton]
    exact hcount
  · have hold := h.perDocument id
    rw [RetrieveState.cite, List.countP_append, List.countP_singleton]
    by_cases hid : document.id = id
    · subst hid
      simp only [decide_true, if_true]
      omega
    · simp only [hid, decide_false, Bool.false_eq_true, if_false]
      omega
  · rw [hcontext, ← joinTexts_cite h, RetrieveState.cite, List.map_append, List.map_singleton]
  · rcases List.mem_append.mp hc with hc | hc
    · -- what was cited before stays where it is
      obtain ⟨hle, hend, htext⟩ := h.places c hc
      refine ⟨hle, by omega, ?_⟩
      rw [hcontext, List.append_assoc, List.take_append_of_le_length hend]
      exact htext
    · obtain rfl := List.mem_singleton.mp hc
      refine ⟨Nat.le_add_right _ _, Nat.le_of_eq hlength.symm, ?_⟩
      have hpre : (st.context ++ List.replicate st.separator 10).length = st.context.length + st.separator := by
        rw [List.length_append, List.length_replicate]
      dsimp only
      rw [← hlength, List.take_length, hcontext, ← hpre, List.drop_left]

theorem contextOf_init : ContextOf xs options ([] : List (QueryHit S)) ⟨[], []⟩ where
  cites := .nil
  distinct := List.nodup_nil
  count := Nat.zero_le _
  perDocument _ := Nat.zero_le _
  context := rfl
  size := Nat.zero_le _
  places _ hc := absurd hc List.not_mem_nil

/-- Once there are enough citations, all other hits are left out. -/
theorem ContextOf.full (h : ContextOf xs options hits st) (hfull : options.maxPassages ≤ st.citations.length)
    (more : List (QueryHit S)) : ContextOf xs options (hits ++ more) st := by
  induction more generalizing hits with
  | nil => rwa [List.append_nil]
  | cons hit more ih =>
    have hskip : ContextOf xs options (hits ++ [hit]) st :=
      ⟨.skip h.cites (.inl hfull), h.distinct, h.count, h.perDocument, h.context, h.size, h.places⟩
    have hall := ih hskip
    rwa [List.append_assoc, List.singleton_append] at hall

/-- The loop goes on from a context of the hits before. -/
theorem ContextOf.loop (h : ContextOf xs options hits st) {more : List (QueryHit S)}
    (hmore : ∀ hit ∈ more, hitPassage xs hit ≠ none) :
    ∃ st', retrieveLoop xs options more st = .ok st' ∧ ContextOf xs options (hits ++ more) st' := by
  induction more generalizing hits st with
  | nil => exact ⟨st, rfl, by rwa [List.append_nil]⟩
  | cons hit more ih =>
    obtain ⟨hhit, hmore⟩ := List.forall_mem_cons.mp hmore
    obtain ⟨⟨passage, document⟩, hpassage⟩ := Option.ne_none_iff_exists'.mp hhit
    rw [retrieveLoop]
    by_cases hfull : options.maxPassages ≤ st.citations.length
    · rw [if_pos hfull]
      exact ⟨st, rfl, h.full hfull _⟩
    · rw [if_neg hfull, hpassage]
      dsimp only
      rw [← List.singleton_append, ← List.append_assoc]
      by_cases hskip : (passedOver xs options st hit passage document || tooLong options st passage) = true
      · rw [if_pos hskip]
        exact ih (h.skip hpassage hskip) hmore
      · rw [if_neg hskip]
        exact ih (h.cite (Nat.not_le.mp hfull) hpassage (Bool.not_eq_true _ ▸ hskip)) hmore

end Round

/-- **Context assembly.**  For hits on passages of the snapshot: either the options are refused, or the citations and
the context are as `ContextOf` says, with the context inside its buffer. -/
theorem retrieveContext_spec (hits : List (QueryHit S)) (contextCapacity citationCapacity : Nat)
    (hhits : ∀ hit ∈ hits, hitPassage xs hit ≠ none) :
    (options.maxPassages = 0 ∨ options.maxPassagesPerDocument = 0 ∨ options.maxContextBytes = 0 ∨
        contextCapacity < options.maxContextBytes ∨ citationCapacity < options.maxPassages) ∧
      retrieveContext xs options hits contextCapacity citationCapacity = .error .invalidArgument ∨
    ∃ st, retrieveContext xs options hits contextCapacity citationCapacity = .ok st ∧ ContextOf xs options hits st ∧
      st.context.length ≤ contextCapacity ∧ st.citations.length ≤ citationCapacity := by
  rw [retrieveContext]
  by_cases hrefused : options.maxPassages = 0 ∨ options.maxPassagesPerDocument = 0 ∨ options.maxContextBytes = 0 ∨
      contextCapacity < options.maxContextBytes ∨ citationCapacity < options.maxPassages
  · exact .inl ⟨hrefused, if_pos hrefused⟩
  · rw [if_neg hrefused]
    have hinit : ContextOf xs options ([] : List (QueryHit S)) ⟨[], []⟩ := contextOf_init
    obtain ⟨st, hloop, hst⟩ := hinit.loop hhits
    have hsize := hst.size
    have hcount := hst.count
    exact .inr ⟨st, hloop, hst, by omega, by omega⟩

/-- One document with two passages, and the hits on them. -/
def sampleContents : SegmentContents where
  documents := [⟨[1], [117], [116], [97, 98], [], 0⟩]
  passages := [⟨[2], [1], [97], 0, 0, 1⟩, ⟨[3], [1], [98], 1, 1, 2⟩]
  tombstones := []
  entries := []
  scalars := []

def sampleHit (id : Bytes) (ordinal : Nat) : QueryHit Nat := ⟨id, [1], 0, ordinal, 1, 2, 3⟩

theorem retrieveContext_spec_sample :
    ∃ st, retrieveContext [sampleContents] ⟨2, 2, 8⟩ [sampleHit [3] 1, sampleHit [3] 1, sampleHit [2] 0] 8 2 = .ok st ∧
      st.context = [98, 10, 10, 97] ∧
      ContextOf [sampleContents] ⟨2, 2, 8⟩ [sampleHit [3] 1, sampleHit [3] 1, sampleHit [2] 0] st := by
  have hspec := retrieveContext_spec [sampleContents] ⟨2, 2, 8⟩ [sampleHit [3] 1, sampleHit [3] 1, sampleHit [2] 0] 8 2
    (by decide +kernel)
  have hrun : (retrieveContext [sampleContents] ⟨2, 2, 8⟩ [sampleHit [3] 1, sampleHit [3] 1, sampleHit [2] 0] 8 2).map
      (·.context) = .ok [98, 10, 10, 97] := by
    decide +kernel
  rcases hspec with ⟨hrefused, _⟩ | ⟨st, hst, hcontext, _, _⟩
  · exact absurd hrefused (by decide)
  · rw [hst] at hrun
    exact ⟨st, hst, Except.ok.inj hrun, hcontext⟩

end Yappod

import Yappod.Components.LexicalAccept

/-!
# The lexical files represent the corpus

What `YAP_V2_lexical_write` writes is accepted by `YAP_V2_lexical_segment_open`, and the accessors give back
the corpus: a term is found if it is a token of a field, its postings are the objects it is in, and its
positions are where it is in them.
-/

set_option autoImplicit false

namespace Yappod

/-! ## Files -/

theorem writeComponent_eq_ok {fileType : UInt32} {generation : UInt64} {payload file : Bytes} :
    writeComponent fileType generation payload = .ok file ↔
      (componentHeader fileType generation payload).valid = true ∧
        file = (componentHeader fileType generation payload).bytes ++ payload := by
  rw [writeComponent, fileHeaderEncode]
  split
  · rename_i hvalid
    refine ⟨fun h => ⟨hvalid, ?_⟩, fun h => ?_⟩
    · cases h
      rfl
    · rw [h.2]
      rfl
  · rename_i hvalid
    refine ⟨fun h => ?_, fun h => absurd h.1 hvalid⟩
    cases h

/-- A component that was written is mapped. -/
theorem mapComponent_written {fileType : UInt32} {generation : UInt64} {payload file : Bytes}
    (h : writeComponent fileType generation payload = .ok file)
    (hlen : payload.length ≤ maxSegmentPayloadBytes) {expectedGeneration : Nat}
    (hexpected : expectedGeneration = 0 ∨ expectedGeneration = generation.toNat) :
    mapComponent file fileType.toNat expectedGeneration = .ok generation.toNat := by
  obtain ⟨hvalid, rfl⟩ := writeComponent_eq_ok.mp h
  have hbytes := length_bytes (componentHeader fileType generation payload)
  have hdecode := exact_fileHeaderDecode.run_encode hvalid payload
  have hpayload : (UInt64.ofNat payload.length).toNat = payload.length :=
    UInt64.toNat_ofNat_of_lt' (lt_of_le_of_lt hlen (by decide : maxSegmentPayloadBytes < 2 ^ 64))
  rw [mapComponent, List.length_append, hbytes, if_neg (by omega), hdecode]
  show (if _ then _ else _) = _
  rw [if_neg, if_neg fun h => h rfl]
  · rfl
  · rintro (h | h | ⟨h₀, h⟩)
    · exact h rfl
    · refine h ?_
      rw [Nat.add_sub_cancel_left]
      exact hpayload
    · rcases hexpected with rfl | rfl
      · exact h₀ rfl
      · exact h rfl

theorem writeComponents_eq_ok {generation : UInt64} {payloads maps : LexicalMaps}
    (h : writeComponents generation payloads = .ok maps) :
    writeComponent 1 generation payloads.terms = .ok maps.terms ∧
      writeComponent 2 generation payloads.postings = .ok maps.postings ∧
      writeComponent 3 generation payloads.positions = .ok maps.positions := by
  rw [writeComponents] at h
  obtain ⟨terms, hterms, h⟩ := bind_eq_ok.mp h
  obtain ⟨postings, hpostings, h⟩ := bind_eq_ok.mp h
  obtain ⟨positions, hpositions, h⟩ := bind_eq_ok.mp h
  cases h
  exact ⟨hterms, hpostings, hpositions⟩

/-- The payloads are no larger than a file may be. -/
structure LexicalMaps.Fits (payloads : LexicalMaps) : Prop where
  terms : payloads.terms.length ≤ maxSegmentPayloadBytes
  postings : payloads.postings.length ≤ maxSegmentPayloadBytes
  positions : payloads.positions.length ≤ maxSegmentPayloadBytes

theorem mapComponents_written {generation : UInt64} {payloads maps : LexicalMaps}
    (h : writeComponents generation payloads = .ok maps) (hfits : payloads.Fits)
    {expectedGeneration : Nat}
    (hexpected : expectedGeneration = 0 ∨ expectedGeneration = generation.toNat) :
    mapComponents maps expectedGeneration = .ok generation.toNat := by
  obtain ⟨hterms, hpostings, hpositions⟩ := writeComponents_eq_ok h
  have h₁ : mapComponent maps.terms fileTypeTerms expectedGeneration = .ok generation.toNat :=
    mapComponent_written hterms hfits.terms hexpected
  have h₂ : mapComponent maps.postings fileTypePostings expectedGeneration = .ok generation.toNat :=
    mapComponent_written hpostings hfits.postings hexpected
  have h₃ : mapComponent maps.positions fileTypePositions expectedGeneration = .ok generation.toNat :=
    mapComponent_written hpositions hfits.positions hexpected
  rw [mapComponents, h₁]
  show (mapComponent maps.postings fileTypePostings expectedGeneration >>= _) = _
  rw [h₂]
  show (if _ then _ else _) = _
  rw [if_neg fun h => h rfl, h₃]
  show (if _ then _ else _) = _
  rw [if_neg fun h => h rfl]

/-- A payload stands after the header of its file. -/
theorem stands_payload {fileType : UInt32} {generation : UInt64} {payload file : Bytes}
    (h : writeComponent fileType generation payload = .ok file) :
    Stands file fileHeaderBytes payload ∧ file.length = fileHeaderBytes + payload.length := by
  obtain ⟨-, rfl⟩ := writeComponent_eq_ok.mp h
  have hbytes := length_bytes (componentHeader fileType generation payload)
  have hstands := stands_end (componentHeader fileType generation payload).bytes payload
  rw [hbytes] at hstands
  exact ⟨hstands, by rw [List.length_append, hbytes]⟩

/-! ## Opening what was written -/

/-- The terms that the writer makes of the occurrences. -/
structure TermGroups (totals : LexicalTotals) (groups : List (List Occurrence)) : Prop where
  items : ∀ items ∈ groups, TermItems totals items
  term : ∀ items ∈ groups, groupTerm items ≠ [] ∧ (groupTerm items).length < 2 ^ 32
  sorted : (groups.map groupTerm).Pairwise fun t t' => termCompare t t' = .lt

/-- The totals that the writer puts in front. -/
def writtenTotals (occurrences : List Occurrence) (documents passages : Nat) (totals : PerField) :
    LexicalTotals where
  documentCount := documents
  passageCount := passages
  postingCount := ((termGroups occurrences).map objectCount).sum
  positionCount := occurrences.length
  fieldTokenCount := totals

theorem length_flatten_termGroups (occurrences : List Occurrence) :
    (termGroups occurrences).flatten.length = occurrences.length := by
  rw [termGroups, List.flatten_splitBy, List.length_insertionSort]

section Open

variable {occurrences : List Occurrence} {documents passages : Nat} {totals : PerField}

/-- The parts of the terms, in the payloads. -/
theorem length_payloads (occurrences : List Occurrence) (documents passages : Nat) (totals : PerField) :
    (buildPayloads occurrences documents passages totals).postings.length =
        56 + (buildParts termPostings 0 (termGroups occurrences)).length ∧
      (buildPayloads occurrences documents passages totals).positions.length =
        12 + (buildParts termPositions 0 (termGroups occurrences)).length ∧
      (buildPayloads occurrences documents passages totals).terms.length =
        12 + ((buildEntries 0 56 12 (termGroups occurrences)).flatMap TermEntry.bytes).length := by
  refine ⟨?_, ?_, ?_⟩
  · simp only [buildPayloads, List.length_append, length_leBytes]
    omega
  · simp only [buildPayloads, List.length_append, length_leBytes]
    omega
  · simp only [buildPayloads, List.length_append, length_leBytes]
    omega

variable (hfits : (buildPayloads occurrences documents passages totals).Fits)
  (hgroups : TermGroups (writtenTotals occurrences documents passages totals) (termGroups occurrences))

include hfits

/-- There are few occurrences in files of that size. -/
theorem occurrences_few : occurrences.length ≤ 2 ^ 25 := by
  have hlen := (length_payloads occurrences documents passages totals).2.1
  have hfit := hfits.positions
  rw [hlen, length_buildParts_positions, length_flatten_termGroups] at hfit
  rw [show maxSegmentPayloadBytes = 2 ^ 28 from rfl] at hfit
  omega

include hgroups

theorem groups_few : (termGroups occurrences).length ≤ maxSegmentPayloadBytes / termEntrySize := by
  have hlen := (length_payloads occurrences documents passages totals).1
  have hfit := hfits.postings
  have hle := le_length_buildParts_postings 0 fun items hitems => (hgroups.items items hitems).1
  rw [hlen] at hfit
  rw [show maxSegmentPayloadBytes / termEntrySize = 2 ^ 28 / 56 from rfl]
  rw [show maxSegmentPayloadBytes = 2 ^ 28 from rfl] at hfit
  omega

/-- The entries fit into their records. -/
theorem entries_written : ∀ e ∈ buildEntries 0 56 12 (termGroups occurrences), e.Written := by
  intro e he
  obtain ⟨hp, hq, -⟩ := length_payloads occurrences documents passages totals
  have hpfit := hfits.postings
  have hqfit := hfits.positions
  rw [hp, show maxSegmentPayloadBytes = 2 ^ 28 from rfl] at hpfit
  rw [hq, show maxSegmentPayloadBytes = 2 ^ 28 from rfl] at hqfit
  obtain ⟨k, hk⟩ := List.getElem?_of_mem he
  rw [getElem?_buildEntries] at hk
  obtain ⟨items, hitems, rfl⟩ := Option.map_eq_some_iff.mp hk
  have hmem := List.mem_of_getElem? hitems
  have hple : partsBefore termPostings 0 _ k + (termPostings (0 + k) items).length ≤ _ :=
    partsBefore_le hitems
  have hqle : partsBefore termPositions 0 _ k + (termPositions (0 + k) items).length ≤ _ :=
    partsBefore_le hitems
  have hpos := objectCount_pos (hgroups.items items hmem).1
  have hlen := length_termPostings (0 + k) items
  rw [postingBytes] at hlen
  exact {
    term := (hgroups.term items hmem).1
    length := (hgroups.term items hmem).2
    occurs := Nat.pos_iff_ne_zero.mp hpos
    documentFrequency := show objectCount items < 2 ^ 64 by omega
    postingsOffset := show 56 + partsBefore termPostings 0 (termGroups occurrences) k < 2 ^ 64 by omega
    postingsBytes := show (termPostings (0 + k) items).length < 2 ^ 64 by omega
    positionsOffset := show 12 + partsBefore termPositions 0 (termGroups occurrences) k < 2 ^ 64 by omega
    positionsBytes := show (termPositions (0 + k) items).length < 2 ^ 64 by omega }

/-- The term stream is read back. -/
theorem validateTermStream_written {file : Bytes}
    (hfile : Stands file fileHeaderBytes (buildPayloads occurrences documents passages totals).terms)
    (hlen : file.length =
      fileHeaderBytes + (buildPayloads occurrences documents passages totals).terms.length) :
    validateTermStream file = .ok (buildEntries 0 56 12 (termGroups occurrences)) := by
  obtain ⟨-, -, ht⟩ := length_payloads occurrences documents passages totals
  have hfew := groups_few hfits hgroups
  have hcount := length_buildEntries 0 56 12 (termGroups occurrences)
  have hsorted : (buildEntries 0 56 12 (termGroups occurrences)).Pairwise fun e e' =>
      termCompare e.term e'.term = .lt := by
    have h := hgroups.sorted
    rw [← map_term_buildEntries 0 56 12, List.pairwise_map] at h
    exact h
  simp only [buildPayloads, stands_append, length_leBytes, Nat.add_assoc, Nat.reduceAdd] at hfile
  obtain ⟨h₁, h₂, h₃⟩ := hfile
  have hparse := parseTerms_ok (entries_written hfits hgroups) hsorted _ h₃ none (by rintro q ⟨⟩)
  rw [hcount] at hparse
  have hlt : (termGroups occurrences).length < 2 ^ 64 :=
    lt_of_le_of_lt hfew (by decide)
  rw [validateTermStream, refuse_eq_ok, ok_bind, getU32_of_stands h₁ (by decide), ok_bind,
    refuse_eq_ok (by decide), ok_bind, getU64_of_stands h₂ hlt, ok_bind, if_neg (Nat.not_lt.mpr hfew),
    hparse, ok_bind]
  · dsimp only
    rw [refuse_eq_ok, ok_bind]
    · rfl
    · rw [decide_eq_false_iff_not, not_not, hlen, ht, Nat.add_assoc]
  · rw [Bool.not_eq_false', rangeValid_eq_true]
    omega

/-- The numbers in front fit. -/
structure TotalsFit (documents passages : Nat) (totals : PerField) : Prop where
  documents : documents < 2 ^ 64
  passages : passages < 2 ^ 64
  fields : ∀ f : Field, totals.get f.code < 2 ^ 64

omit hfits hgroups in
/-- The totals are read back. -/
theorem parseTotals_written {maps : LexicalMaps} (htotals : TotalsFit documents passages totals)
    (hposting : ((termGroups occurrences).map objectCount).sum < 2 ^ 64)
    (hposition : occurrences.length < 2 ^ 64)
    (hpostings : Stands maps.postings fileHeaderBytes
      (buildPayloads occurrences documents passages totals).postings)
    (hpositions : Stands maps.positions fileHeaderBytes
      (buildPayloads occurrences documents passages totals).positions) :
    parseTotals maps = .ok (writtenTotals occurrences documents passages totals) := by
  obtain ⟨hp, hq, -⟩ := length_payloads occurrences documents passages totals
  have hpend := hpostings.1
  have hqend := hpositions.1
  rw [hp] at hpend
  rw [hq] at hqend
  simp only [buildPayloads, stands_append, length_leBytes, Nat.add_assoc, Nat.reduceAdd] at hpostings
  simp only [buildPayloads, stands_append, length_leBytes, Nat.add_assoc, Nat.reduceAdd] at hpositions
  obtain ⟨h₁, h₂, h₃, h₄, h₅, h₆, h₇, h₈, -⟩ := hpostings
  obtain ⟨h₉, h₁₀, -⟩ := hpositions
  rw [parseTotals, refuse_eq_ok, ok_bind, getU32_of_stands h₁ (by decide), ok_bind,
    refuse_eq_ok (by decide), ok_bind, getU32_of_stands h₂ (by decide), ok_bind, refuse_eq_ok, ok_bind,
    getU32_of_stands h₉ (by decide), ok_bind, refuse_eq_ok (by decide), ok_bind,
    getU64_of_stands h₃ htotals.documents, ok_bind, getU64_of_stands h₄ htotals.passages, ok_bind,
    getU64_of_stands h₅ hposting, ok_bind, getU64_of_stands h₆ (htotals.fields .title), ok_bind,
    getU64_of_stands h₇ (htotals.fields .body), ok_bind,
    getU64_of_stands h₈ (htotals.fields .passage), ok_bind, getU64_of_stands h₁₀ hposition, ok_bind]
  · rfl
  · simp only [decide_eq_false_iff_not, not_or, Bool.not_eq_true', Bool.not_eq_false,
      rangeValid_eq_true]
    exact ⟨fun h => h rfl, by omega⟩
  · rw [Bool.not_eq_false', rangeValid_eq_true]
    omega

/-- The postings and the positions pass. -/
theorem validatePayloads_written {maps : LexicalMaps} (htotals : TotalsFit documents passages totals)
    (hpostings : Stands maps.postings fileHeaderBytes
      (buildPayloads occurrences documents passages totals).postings)
    (hplen : maps.postings.length =
      fileHeaderBytes + (buildPayloads occurrences documents passages totals).postings.length)
    (hpositions : Stands maps.positions fileHeaderBytes
      (buildPayloads occurrences documents passages totals).positions)
    (hqlen : maps.positions.length =
      fileHeaderBytes + (buildPayloads occurrences documents passages totals).positions.length) :
    validatePayloads maps (buildEntries 0 56 12 (termGroups occurrences)) =
      .ok (writtenTotals occurrences documents passages totals) := by
  obtain ⟨hp, hq, -⟩ := length_payloads occurrences documents passages totals
  have hfew := occurrences_few hfits
  have hgfew := groups_few hfits hgroups
  have hsmall : maps.Small := by
    refine ⟨?_, ?_⟩
    · rw [hplen]
      exact Nat.add_le_add_left hfits.postings _
    · rw [hqlen]
      exact Nat.add_le_add_left hfits.positions _
  have hcount : ((termGroups occurrences).map List.length).sum = occurrences.length := by
    rw [← List.length_flatten, length_flatten_termGroups]
  have hobjects : ((termGroups occurrences).map objectCount).sum ≤ occurrences.length := by
    rw [← hcount]
    exact List.sum_le_sum fun items _ => objectCount_le items
  have htotal : ∀ t, (writtenTotals occurrences documents passages totals).objects t < 2 ^ 64 := by
    intro t
    cases t with
    | document => exact htotals.documents
    | passage => exact htotals.passages
  have hread := parseTotals_written htotals (by omega) (by omega) hpostings hpositions
  rw [hp] at hplen
  rw [hq] at hqlen
  simp only [buildPayloads, stands_append, length_leBytes, Nat.add_assoc, Nat.reduceAdd] at hpostings
  simp only [buildPayloads, stands_append, length_leBytes, Nat.add_assoc, Nat.reduceAdd] at hpositions
  obtain ⟨-, -, -, -, -, -, -, -, hparts⟩ := hpostings
  obtain ⟨-, -, hparts'⟩ := hpositions
  have hterms := checkTerms_ok hsmall htotal hgroups.items 0 56 12 0 0
    (by rw [show maxSegmentPayloadBytes / termEntrySize = 4793490 from rfl] at hgfew; omega) hparts hparts'
    (by omega) (by omega)
  rw [validatePayloads, hread, ok_bind, hterms, ok_bind]
  dsimp only
  rw [refuse_eq_ok, ok_bind]
  · rfl
  · rw [decide_eq_false_iff_not, hplen, hqlen, hcount]
    simp [writtenTotals, Nat.add_assoc]

end Open

/-- The segment that the reader makes of the files. -/
def writtenSegment (maps : LexicalMaps) (generation : UInt64) (occurrences : List Occurrence)
    (documents passages : Nat) (totals : PerField) : LexicalSegment where
  maps := maps
  generation := generation.toNat
  totals := writtenTotals occurrences documents passages totals
  terms := buildEntries 0 56 12 (termGroups occurrences)

/-- **The reader accepts what the writer writes.** -/
theorem lexicalSegmentOpen_written {occurrences : List Occurrence} {documents passages : Nat}
    {totals : PerField} (hfits : (buildPayloads occurrences documents passages totals).Fits)
    (hgroups : TermGroups (writtenTotals occurrences documents passages totals)
      (termGroups occurrences))
    (htotals : TotalsFit documents passages totals) {generation : UInt64} {maps : LexicalMaps}
    (hwrite : writeComponents generation (buildPayloads occurrences documents passages totals) = .ok maps)
    {expectedGeneration : Nat}
    (hexpected : expectedGeneration = 0 ∨ expectedGeneration = generation.toNat) :
    lexicalSegmentOpen maps expectedGeneration =
      .ok (writtenSegment maps generation occurrences documents passages totals) := by
  obtain ⟨hterms, hpostings, hpositions⟩ := writeComponents_eq_ok hwrite
  obtain ⟨ht, htlen⟩ := stands_payload hterms
  obtain ⟨hp, hplen⟩ := stands_payload hpostings
  obtain ⟨hq, hqlen⟩ := stands_payload hpositions
  rw [lexicalSegmentOpen, mapComponents_written hwrite hfits hexpected]
  dsimp only
  rw [validateTermStream_written hfits hgroups ht htlen, ok_bind,
    validatePayloads_written hfits hgroups htotals hp hplen hq hqlen, ok_bind]
  rfl

end Yappod

import Yappod.Components.LexicalLookup

/-!
# Writing from prepared units

`YAP_V2_lexical_write` numbers the objects of a segment while it tokenizes them.  The indexer tokenizes one document
with its passages at a time instead (`YAP_V2_lexical_prepare_unit`), numbers the objects from zero in every unit, and
lets `YAP_V2_lexical_write_prepared` add the numbers of objects in the units before.

Both ways collect the same occurrences, although not in the same order: directly, all documents come before all
passages.  The writer sorts them, and no two occurrences are equal in its order, so the files are the same
(`lexicalWritePrepared_agrees`).  They differ in what they refuse: `YAP_V2_lexical_write` knows the limits of a
segment, and `YAP_V2_lexical_write_prepared` does not write an empty one.
-/

set_option autoImplicit false

namespace Yappod

open Std

/-! ## The two writers -/

/-- The numbers of records of the three components. -/
structure LexicalRecords where
  terms : Nat
  postings : Nat
  positions : Nat
  deriving DecidableEq

/-- The counts of `build_payloads` and of `write_occurrences`. -/
def recordCounts (occurrences : List Occurrence) : LexicalRecords where
  terms := (termGroups occurrences).length
  postings := ((termGroups occurrences).map fun items => (items.splitBy sameObject).length).sum
  positions := occurrences.length

/-- `write_occurrences`, with the numbers of records of its components. -/
def writeOccurrencesRecords (generation : UInt64) (occurrences : List Occurrence) (documents passages : Nat)
    (totals : PerField) : Except Status (LexicalMaps × LexicalRecords) :=
  (writeOccurrences generation occurrences documents passages totals).map fun maps => (maps, recordCounts occurrences)

/-- `YAP_V2_lexical_write`, with the numbers of records of its components. -/
def lexicalWriteRecords (tokenize : Tokenize) (generation : UInt64) (documents : List Document)
    (passages : List Passage) : Except Status (LexicalMaps × LexicalRecords) :=
  if generation = 0 ∨ maxSegmentDocuments < documents.length ∨ maxSegmentPassages < passages.length then
    .error .invalidArgument
  else do
    let (inDocuments, titles, bodies) ← collectDocuments tokenize 0 documents
    let (inPassages, texts) ← collectPassages tokenize 0 passages
    writeOccurrencesRecords generation (inDocuments ++ inPassages) documents.length passages.length
      ⟨titles, bodies, texts⟩

/-- `YAP_V2_LEXICAL_PREPARED`. -/
structure LexicalPrepared where
  items : List Occurrence
  documentCount : Nat
  passageCount : Nat
  fieldTokenCount : PerField

/-- `YAP_V2_lexical_prepare_unit`, for any tokenizer: the document is number 0, and so is its first passage. -/
def lexicalPrepare (tokenize : Tokenize) (d : Document) (ps : List Passage) : Except Status LexicalPrepared :=
  if documentValidate d ≠ .ok then .error (documentValidate d)
  else do
    let title ← tokenizeText tokenize d.title .document 0 .title
    let body ← tokenizeText tokenize d.body .document 0 .body
    let (inPassages, texts) ← collectPassages tokenize 0 ps
    return ⟨title ++ body ++ inPassages, 1, ps.length, ⟨title.length, body.length, texts⟩⟩

/-- The loop of `YAP_V2_lexical_write_prepared` over the units: the occurrences, numbered in the segment. -/
def combinePrepared : Nat → Nat → List LexicalPrepared → List Occurrence
  | _, _, [] => []
  | documentBase, passageBase, p :: prepared =>
    p.items.map (Occurrence.shift documentBase passageBase) ++
      combinePrepared (documentBase + p.documentCount) (passageBase + p.passageCount) prepared

/-- `YAP_V2_lexical_write_prepared`. -/
def lexicalWritePrepared (generation : UInt64) (prepared : List LexicalPrepared) :
    Except Status (LexicalMaps × LexicalRecords) :=
  if generation = 0 ∨ prepared = [] then .error .invalidArgument
  else
    writeOccurrencesRecords generation (combinePrepared 0 0 prepared) (prepared.map (·.documentCount)).sum
      (prepared.map (·.passageCount)).sum
      ⟨(prepared.map (·.fieldTokenCount.title)).sum, (prepared.map (·.fieldTokenCount.body)).sum,
        (prepared.map (·.fieldTokenCount.passage)).sum⟩

/-- The files do not depend on the counts. -/
theorem lexicalWriteRecords_files (tokenize : Tokenize) (generation : UInt64) (documents : List Document)
    (passages : List Passage) :
    (lexicalWriteRecords tokenize generation documents passages).map Prod.fst =
      lexicalWrite tokenize generation documents passages := by
  rw [lexicalWriteRecords, lexicalWrite]
  split
  · rfl
  · cases collectDocuments tokenize 0 documents with
    | error status => rfl
    | ok inDocuments =>
      cases collectPassages tokenize 0 passages with
      | error status => rfl
      | ok inPassages =>
        change (writeOccurrencesRecords _ _ _ _ _).map Prod.fst = writeOccurrences _ _ _ _ _
        rw [writeOccurrencesRecords]
        cases writeOccurrences generation (inDocuments.1 ++ inPassages.1) documents.length passages.length
            ⟨inDocuments.2.1, inDocuments.2.2, inPassages.2⟩ with
        | error status => rfl
        | ok maps => rfl

theorem exists_of_map_eq_ok {ε α β : Type} {x : Except ε α} {f : α → β} {b : β} (h : x.map f = .ok b) :
    ∃ a, x = .ok a ∧ f a = b := by
  cases x with
  | error e => cases h
  | ok a => exact ⟨a, rfl, Except.ok.inj h⟩

/-! ## What is collected

The tokens of a text are found or refused whatever object they are for; the numbers of the object only go into the
occurrences. -/

/-- The tokens of a text, if all of them can be written. -/
def writableTokens (tokenize : Tokenize) (text : Bytes) : Except Status (List Bytes) :=
  if text = [] then .ok []
  else do
    let tokens ← tokenize text
    if uint32Max < tokens.length then .error .outOfRange
    else if tokens.any fun t => t = [] ∨ uint32Max < t.length then .error .invalidFormat
    else .ok tokens

/-- The tokens of the fields of a document. -/
def writableDocument (tokenize : Tokenize) (d : Document) : Except Status (Field → List Bytes) :=
  if documentValidate d ≠ .ok then .error (documentValidate d)
  else do
    let title ← writableTokens tokenize d.title
    let body ← writableTokens tokenize d.body
    return fun
      | .title => title
      | .body => body
      | .passage => []

/-- The tokens of the field of a passage. -/
def writablePassage (tokenize : Tokenize) (p : Passage) : Except Status (Field → List Bytes) :=
  if passageValidate p ≠ .ok then .error (passageValidate p)
  else do
    let text ← writableTokens tokenize p.text
    return fun
      | .passage => text
      | _ => []

section Collected

variable (tokenize : Tokenize)

theorem tokenizeText_eq (text : Bytes) (objectType : ObjectType) (i : Nat) (f : Field) :
    tokenizeText tokenize text objectType i f =
      (writableTokens tokenize text).map fun tokens => fieldOccurrences tokens objectType i f := by
  rw [tokenizeText, writableTokens]
  split
  · rfl
  · cases tokenize text with
    | error status => rfl
    | ok tokens =>
      change (if _ then _ else if _ then _ else _) = Except.map _ (if _ then _ else if _ then _ else _)
      split
      · rfl
      · split <;> rfl

theorem collectDocuments_eq (i : Nat) (documents : List Document) :
    collectDocuments tokenize i documents = (documents.mapM (writableDocument tokenize)).map fun xs =>
      (objectsOccurrences .document i xs, tokenCount xs .title, tokenCount xs .body) := by
  induction documents generalizing i with
  | nil => rfl
  | cons d documents ih =>
    rw [collectDocuments, List.mapM_cons, writableDocument]
    split
    · rfl
    · rw [tokenizeText_eq, tokenizeText_eq, ih]
      cases writableTokens tokenize d.title with
      | error status => rfl
      | ok title =>
        cases writableTokens tokenize d.body with
        | error status => rfl
        | ok body =>
          cases documents.mapM (writableDocument tokenize) with
          | error status => rfl
          | ok xs =>
            refine congrArg Except.ok (Prod.ext ?_ (Prod.ext ?_ ?_))
            · change _ ++ _ ++ _ = _ ++ (_ ++ []) ++ _
              rw [List.append_nil]
            · change (fieldOccurrences _ _ _ _).length + _ = _
              rw [length_fieldOccurrences]
              rfl
            · change (fieldOccurrences _ _ _ _).length + _ = _
              rw [length_fieldOccurrences]
              rfl

theorem collectPassages_eq (i : Nat) (passages : List Passage) :
    collectPassages tokenize i passages = (passages.mapM (writablePassage tokenize)).map fun ys =>
      (objectsOccurrences .passage i ys, tokenCount ys .passage) := by
  induction passages generalizing i with
  | nil => rfl
  | cons p passages ih =>
    rw [collectPassages, List.mapM_cons, writablePassage]
    split
    · rfl
    · rw [tokenizeText_eq, ih]
      cases writableTokens tokenize p.text with
      | error status => rfl
      | ok text =>
        cases passages.mapM (writablePassage tokenize) with
        | error status => rfl
        | ok ys =>
          refine congrArg Except.ok (Prod.ext rfl ?_)
          change (fieldOccurrences _ _ _ _).length + _ = _
          rw [length_fieldOccurrences]
          rfl

/-- What is prepared of a unit with these tokens. -/
def preparedOf (x : Field → List Bytes) (ys : List (Field → List Bytes)) : LexicalPrepared where
  items := objectOccurrences .document 0 x ++ objectsOccurrences .passage 0 ys
  documentCount := 1
  passageCount := ys.length
  fieldTokenCount := ⟨(x .title).length, (x .body).length, tokenCount ys .passage⟩

theorem lexicalPrepare_eq (d : Document) (ps : List Passage) :
    lexicalPrepare tokenize d ps = do
      let x ← writableDocument tokenize d
      let ys ← ps.mapM (writablePassage tokenize)
      return preparedOf x ys := by
  rw [lexicalPrepare, writableDocument]
  split
  · rfl
  · rw [tokenizeText_eq, tokenizeText_eq, collectPassages_eq]
    cases writableTokens tokenize d.title with
    | error status => rfl
    | ok title =>
      cases writableTokens tokenize d.body with
      | error status => rfl
      | ok body =>
        cases hys : ps.mapM (writablePassage tokenize) with
        | error status => rfl
        | ok ys =>
          refine congrArg Except.ok ?_
          rw [preparedOf, length_of_mapM_eq_ok hys, length_fieldOccurrences, length_fieldOccurrences]
          congr 1
          change _ ++ _ ++ _ = _ ++ (_ ++ []) ++ _
          rw [List.append_nil]

end Collected

/-! ## Renumbering -/

theorem fieldOccurrences_shift (tokens : List Bytes) (objectType : ObjectType) (i documentBase passageBase : Nat)
    (f : Field) : (fieldOccurrences tokens objectType i f).map (Occurrence.shift documentBase passageBase) =
      fieldOccurrences tokens objectType (i + if objectType = .document then documentBase else passageBase) f := by
  refine List.ext_getElem ?_ fun j _ _ => ?_
  · rw [List.length_map, length_fieldOccurrences, length_fieldOccurrences]
  · rw [List.getElem_map]
    simp only [fieldOccurrences, List.getElem_mapIdx]
    rfl

theorem objectOccurrences_shift (x : Field → List Bytes) (objectType : ObjectType) (i documentBase passageBase : Nat) :
    (objectOccurrences objectType i x).map (Occurrence.shift documentBase passageBase) =
      objectOccurrences objectType (i + if objectType = .document then documentBase else passageBase) x := by
  simp only [objectOccurrences, List.map_append, fieldOccurrences_shift]

theorem objectsOccurrences_shift (xs : List (Field → List Bytes)) (objectType : ObjectType)
    (i documentBase passageBase : Nat) :
    (objectsOccurrences objectType i xs).map (Occurrence.shift documentBase passageBase) =
      objectsOccurrences objectType (i + if objectType = .document then documentBase else passageBase) xs := by
  induction xs generalizing i with
  | nil => rfl
  | cons x xs ih => rw [objectsOccurrences, List.map_append, objectOccurrences_shift, ih, objectsOccurrences,
      Nat.add_right_comm]

theorem objectsOccurrences_append (objectType : ObjectType) (i : Nat) (xs ys : List (Field → List Bytes)) :
    objectsOccurrences objectType i (xs ++ ys) =
      objectsOccurrences objectType i xs ++ objectsOccurrences objectType (i + xs.length) ys := by
  induction xs generalizing i with
  | nil => rfl
  | cons x xs ih =>
    rw [List.cons_append, objectsOccurrences, objectsOccurrences, ih, List.append_assoc, List.length_cons,
      Nat.add_assoc, Nat.add_comm 1]

/-- The units whose documents and passages have these tokens. -/
def preparedUnits (units : List ((Field → List Bytes) × List (Field → List Bytes))) : List LexicalPrepared :=
  units.map fun u => preparedOf u.1 u.2

/-- The running totals number the objects as one list of documents and one of passages does. -/
theorem combinePrepared_perm (units : List ((Field → List Bytes) × List (Field → List Bytes)))
    (documentBase passageBase : Nat) :
    (combinePrepared documentBase passageBase (preparedUnits units)).Perm
      (objectsOccurrences .document documentBase (units.map Prod.fst) ++
        objectsOccurrences .passage passageBase (units.flatMap Prod.snd)) := by
  induction units generalizing documentBase passageBase with
  | nil => exact .refl _
  | cons u units ih =>
    rw [preparedUnits, List.map_cons, combinePrepared, List.map_cons, List.flatMap_cons, objectsOccurrences_append,
      objectsOccurrences]
    have hitems : (preparedOf u.1 u.2).items.map (Occurrence.shift documentBase passageBase) =
        objectOccurrences .document documentBase u.1 ++ objectsOccurrences .passage passageBase u.2 := by
      rw [preparedOf, List.map_append, objectOccurrences_shift, objectsOccurrences_shift, if_pos rfl,
        if_neg (by decide), Nat.zero_add, Nat.zero_add]
    rw [hitems, List.append_assoc, List.append_assoc]
    refine List.Perm.append_left _ ?_
    refine ((ih (documentBase + 1) (passageBase + u.2.length)).append_left _).trans ?_
    rw [← List.append_assoc, ← List.append_assoc]
    exact List.perm_append_comm.append_right _

/-! ## Sorting -/

/-- Two lists of one corpus are equal when they are sorted, so that their order does not go into the files. -/
theorem Lists.termGroups_eq {tokens : Corpus} {occurrences occurrences' : List Occurrence}
    (h : Lists tokens occurrences) (hperm : occurrences'.Perm occurrences) :
    termGroups occurrences' = termGroups occurrences := by
  have h' : Lists tokens occurrences' := ⟨fun o => hperm.mem_iff.trans (h.mem o), hperm.nodup_iff.mpr h.nodup⟩
  have hsorted : sortedOccurrences occurrences' = sortedOccurrences occurrences := by
    refine List.Perm.eq_of_pairwise (fun a b _ _ hab hba => ?_) h'.sorted h.sorted ?_
    · rw [OrientedCmp.gt_of_lt hab] at hba
      cases hba
    · exact (List.perm_insertionSort OccurrenceLe occurrences').trans
        (hperm.trans (List.perm_insertionSort OccurrenceLe occurrences).symm)
  rw [Yappod.termGroups_eq, Yappod.termGroups_eq, hsorted]

theorem writeOccurrencesRecords_eq_of_perm {tokens : Corpus} {occurrences occurrences' : List Occurrence}
    (h : Lists tokens occurrences) (hperm : occurrences'.Perm occurrences) (generation : UInt64)
    (documents passages : Nat) (totals : PerField) :
    writeOccurrencesRecords generation occurrences' documents passages totals =
      writeOccurrencesRecords generation occurrences documents passages totals := by
  have hgroups := h.termGroups_eq hperm
  have hpayloads : buildPayloads occurrences' documents passages totals =
      buildPayloads occurrences documents passages totals := by
    rw [buildPayloads, buildPayloads, hgroups, hperm.length_eq]
  have hcounts : recordCounts occurrences' = recordCounts occurrences := by
    rw [recordCounts, recordCounts, hgroups, hperm.length_eq]
  rw [writeOccurrencesRecords, writeOccurrencesRecords, writeOccurrences, writeOccurrences, hpayloads, hcounts]

/-! ## The two writers agree -/

section Agree

variable (tokenize : Tokenize)

/-- The tokens of a unit. -/
def writableUnit (u : Document × List Passage) :
    Except Status ((Field → List Bytes) × List (Field → List Bytes)) := do
  let x ← writableDocument tokenize u.1
  let ys ← u.2.mapM (writablePassage tokenize)
  return (x, ys)

theorem mapM_lexicalPrepare_eq_ok {units : List (Document × List Passage)} {prepared : List LexicalPrepared} :
    units.mapM (fun u => lexicalPrepare tokenize u.1 u.2) = .ok prepared ↔
      ∃ us, units.mapM (writableUnit tokenize) = .ok us ∧ prepared = preparedUnits us := by
  induction units generalizing prepared with
  | nil =>
    constructor
    · intro h
      cases h
      exact ⟨[], rfl, rfl⟩
    · rintro ⟨us, hus, rfl⟩
      cases hus
      rfl
  | cons u units ih =>
    rw [List.mapM_cons, List.mapM_cons, lexicalPrepare_eq]
    simp only [bind_eq_ok, ih, writableUnit]
    constructor
    · rintro ⟨p, ⟨x, hx, ys, hys, hp⟩, ps, ⟨us, hus, rfl⟩, hprepared⟩
      cases hp
      cases hprepared
      exact ⟨(x, ys) :: us, ⟨(x, ys), ⟨x, hx, ys, hys, rfl⟩, us, hus, rfl⟩, rfl⟩
    · rintro ⟨us, ⟨u', ⟨x, hx, ys, hys, hu⟩, us', hus, hcons⟩, rfl⟩
      cases hu
      cases hcons
      exact ⟨preparedOf x ys, ⟨x, hx, ys, hys, rfl⟩, preparedUnits us', ⟨us', hus, rfl⟩, rfl⟩

/-- Units are refused if and only if one of the flat lists is. -/
theorem mapM_writableUnit_eq_ok {units : List (Document × List Passage)}
    {xs ys : List (Field → List Bytes)} :
    ((units.map Prod.fst).mapM (writableDocument tokenize) = .ok xs ∧
        (units.flatMap Prod.snd).mapM (writablePassage tokenize) = .ok ys) ↔
      ∃ us, units.mapM (writableUnit tokenize) = .ok us ∧ xs = us.map Prod.fst ∧ ys = us.flatMap Prod.snd := by
  induction units generalizing xs ys with
  | nil =>
    constructor
    · rintro ⟨hxs, hys⟩
      cases hxs
      cases hys
      exact ⟨[], rfl, rfl, rfl⟩
    · rintro ⟨us, hus, rfl, rfl⟩
      cases hus
      exact ⟨rfl, rfl⟩
  | cons u units ih =>
    rw [List.map_cons, List.flatMap_cons, List.mapM_cons, List.mapM_append, List.mapM_cons]
    simp only [bind_eq_ok, writableUnit]
    constructor
    · rintro ⟨⟨x, hx, xs', hxs, hxcons⟩, ys₁, hys₁, ys₂, hys₂, hycons⟩
      cases hxcons
      cases hycons
      obtain ⟨us, hus, rfl, rfl⟩ := ih.mp ⟨hxs, hys₂⟩
      exact ⟨(x, ys₁) :: us, ⟨(x, ys₁), ⟨x, hx, ys₁, hys₁, rfl⟩, us, hus, rfl⟩, rfl, rfl⟩
    · rintro ⟨us, ⟨u', ⟨x, hx, ys₁, hys₁, hu⟩, us', hus, hcons⟩, rfl, rfl⟩
      cases hu
      cases hcons
      obtain ⟨hxs, hys⟩ := ih.mpr ⟨us', hus, rfl, rfl⟩
      exact ⟨⟨x, hx, _, hxs, rfl⟩, ys₁, hys₁, _, hys, rfl⟩

/-- Documents and passages with these tokens are the corpus of the documents and passages. -/
theorem corpusOccurrences_eq {documents : List Document} {passages : List Passage}
    {xs ys : List (Field → List Bytes)} (hxs : documents.mapM (writableDocument tokenize) = .ok xs)
    (hys : passages.mapM (writablePassage tokenize) = .ok ys) :
    objectsOccurrences .document 0 xs ++ objectsOccurrences .passage 0 ys =
      corpusOccurrences tokenize documents passages := by
  have hdocuments := collectDocuments_eq tokenize 0 documents
  have hpassages := collectPassages_eq tokenize 0 passages
  rw [hxs] at hdocuments
  rw [hys] at hpassages
  rw [(collectDocuments_eq_ok hdocuments).1, (collectPassages_eq_ok hpassages).1, corpusOccurrences]

theorem tokenCount_flatMap (us : List ((Field → List Bytes) × List (Field → List Bytes))) (f : Field) :
    tokenCount (us.flatMap Prod.snd) f = (us.map fun u => tokenCount u.2 f).sum := by
  induction us with
  | nil => rfl
  | cons u us ih =>
    rw [List.flatMap_cons, tokenCount, List.map_append, List.sum_append, List.map_cons, List.sum_cons, ← ih]
    rfl

/-- Prepared units are written as the flat lists of their tokens would be. -/
theorem lexicalWritePrepared_units {generation : UInt64} {documents : List Document} {passages : List Passage}
    {us : List ((Field → List Bytes) × List (Field → List Bytes))}
    (hxs : documents.mapM (writableDocument tokenize) = .ok (us.map Prod.fst))
    (hys : passages.mapM (writablePassage tokenize) = .ok (us.flatMap Prod.snd)) (hgeneration : generation ≠ 0)
    (hne : us ≠ []) :
    lexicalWritePrepared generation (preparedUnits us) =
      writeOccurrencesRecords generation
        (objectsOccurrences .document 0 (us.map Prod.fst) ++ objectsOccurrences .passage 0 (us.flatMap Prod.snd))
        documents.length passages.length ⟨tokenCount (us.map Prod.fst) .title, tokenCount (us.map Prod.fst) .body,
          tokenCount (us.flatMap Prod.snd) .passage⟩ := by
  have hdocuments : ((preparedUnits us).map (·.documentCount)).sum = documents.length := by
    rw [← length_of_mapM_eq_ok hxs, preparedUnits, List.map_map, List.length_map]
    change (us.map fun _ => 1).sum = us.length
    rw [List.map_const', List.sum_replicate_nat, Nat.mul_one]
  have hpassages : ((preparedUnits us).map (·.passageCount)).sum = passages.length := by
    rw [← length_of_mapM_eq_ok hys, List.length_flatMap, preparedUnits, List.map_map]
    rfl
  rw [lexicalWritePrepared, if_neg (by rw [preparedUnits, List.map_eq_nil_iff]; exact fun h => h.elim hgeneration hne)]
  have hpassage : ((preparedUnits us).map (·.fieldTokenCount.passage)).sum =
      tokenCount (us.flatMap Prod.snd) .passage := by
    rw [tokenCount_flatMap, preparedUnits, List.map_map]
    rfl
  have hfield : ∀ f, tokenCount (us.map Prod.fst) f = (us.map fun u => (u.1 f).length).sum := by
    intro f
    rw [tokenCount, List.map_map]
    rfl
  rw [hdocuments, hpassages, hpassage, hfield, hfield, preparedUnits, List.map_map, List.map_map]
  have hlists := lists_corpus tokenize documents passages
  rw [← corpusOccurrences_eq tokenize hxs hys] at hlists
  exact writeOccurrencesRecords_eq_of_perm hlists (combinePrepared_perm us 0 0) _ _ _ _

/-- **Prepared and direct writing agree.**  For every list of documents with their passages, every tokenizer and every
generation: the prepared units can be written, within the limits of a segment, if and only if the flat lists can be
and there is a unit, and the files and numbers of records are the same. -/
theorem lexicalWritePrepared_agrees (generation : UInt64) (units : List (Document × List Passage))
    (out : LexicalMaps × LexicalRecords) :
    ((do
        let prepared ← units.mapM fun u : Document × List Passage => lexicalPrepare tokenize u.1 u.2
        lexicalWritePrepared generation prepared) = .ok out ∧
      units.length ≤ maxSegmentDocuments ∧ (units.flatMap Prod.snd).length ≤ maxSegmentPassages) ↔
    lexicalWriteRecords tokenize generation (units.map Prod.fst) (units.flatMap Prod.snd) = .ok out ∧ units ≠ [] := by
  rw [lexicalWriteRecords, collectDocuments_eq, collectPassages_eq, List.length_map]
  simp only [bind_eq_ok, mapM_lexicalPrepare_eq_ok]
  constructor
  · rintro ⟨⟨prepared, ⟨us, hus, rfl⟩, hwrite⟩, hdocuments, hpassages⟩
    obtain ⟨hxs, hys⟩ := (mapM_writableUnit_eq_ok tokenize).mpr ⟨us, hus, rfl, rfl⟩
    have hgeneration : generation ≠ 0 := fun h => by
      rw [lexicalWritePrepared, if_pos (.inl h)] at hwrite
      cases hwrite
    have hne : us ≠ [] := fun h => by
      rw [lexicalWritePrepared, if_pos (.inr (by rw [h]; rfl))] at hwrite
      cases hwrite
    have hunits : units ≠ [] := fun h => hne (List.eq_nil_of_length_eq_zero (by rw [length_of_mapM_eq_ok hus, h]; rfl))
    refine ⟨?_, hunits⟩
    rw [if_neg (by rintro (h | h | h); exacts [hgeneration h, by omega, by omega]), hxs, hys]
    rw [lexicalWritePrepared_units tokenize hxs hys hgeneration hne, List.length_map] at hwrite
    exact hwrite
  · rintro ⟨hwrite, hunits⟩
    split at hwrite
    · cases hwrite
    rename_i harguments
    rw [not_or, not_or, Nat.not_lt, Nat.not_lt] at harguments
    obtain ⟨hgeneration, hdocuments, hpassages⟩ := harguments
    obtain ⟨⟨items, titles, bodies⟩, hitems, hwrite⟩ := bind_eq_ok.mp hwrite
    obtain ⟨⟨texts, total⟩, htexts, hwrite⟩ := bind_eq_ok.mp hwrite
    obtain ⟨xs, hxs, hitems⟩ := exists_of_map_eq_ok hitems
    obtain ⟨ys, hys, htexts⟩ := exists_of_map_eq_ok htexts
    cases hitems
    cases htexts
    obtain ⟨us, hus, rfl, rfl⟩ := (mapM_writableUnit_eq_ok tokenize).mp ⟨hxs, hys⟩
    have hne : us ≠ [] := fun h => hunits (List.eq_nil_of_length_eq_zero (by rw [← length_of_mapM_eq_ok hus, h]; rfl))
    refine ⟨⟨preparedUnits us, ⟨us, hus, rfl⟩, ?_⟩, hdocuments, hpassages⟩
    rw [lexicalWritePrepared_units tokenize hxs hys hgeneration hne, List.length_map]
    exact hwrite

end Agree

/-- Without any document, the direct writer makes files with no records, and the other one refuses. -/
theorem lexicalWritePrepared_empty :
    (∃ out, lexicalWriteRecords byteTokens 1 [] [] = .ok out ∧ out.2 = ⟨0, 0, 0⟩) ∧
      (do
        let prepared ← [].mapM fun u : Document × List Passage => lexicalPrepare byteTokens u.1 u.2
        lexicalWritePrepared 1 prepared) = .error .invalidArgument := by
  have hsome : (lexicalWriteRecords byteTokens 1 [] []).toOption.isSome = true := by decide +kernel
  refine ⟨?_, rfl⟩
  cases hwrite : lexicalWriteRecords byteTokens 1 [] [] with
  | error status =>
    rw [hwrite] at hsome
    cases hsome
  | ok out =>
    have hrecords : (writeOccurrences 1 [] 0 0 ⟨0, 0, 0⟩).map (fun maps => (maps, recordCounts [])) = .ok out := hwrite
    obtain ⟨maps, -, rfl⟩ := exists_of_map_eq_ok hrecords
    exact ⟨_, rfl, rfl⟩

end Yappod

import Mathlib.Data.List.Induction
import Yappod.Common.Types
import Yappod.Lib.Lines

/-!
# The fingerprint of a configuration

`YAP_V2_config_fingerprint` hashes a text of one line for each field of the configuration.  Nothing is escaped.
A filterable field has no control characters, but the tokenizer id and the model id may hold line breaks, and
with them lines that look like the ones between the two.  A text that can be cut in two ways belongs to two
configurations (`fingerprint_collides`), and this is the only way in which configurations are not told apart
(`fingerprint_separates`).
-/

set_option autoImplicit false

namespace Yappod

/-! ## Configurations -/

def configFormatVersion : Nat := 2

def maxModelIdBytes : Nat := 255

def maxVectorDimensions : Nat := 65536

def maxFilterFields : Nat := 64

def maxFilterFieldBytes : Nat := 127

/-- `YAP_V2_CONFIG`; a string is what stands before the NUL that ends it. -/
structure ConfigRecord where
  formatVersion : Nat
  tokenizerId : Bytes
  chunkMaxChars : Nat
  chunkOverlapChars : Nat
  vectorModelId : Bytes
  vectorDimensions : Nat
  vectorMetric : VectorMetric
  filterableFields : List Bytes
  deriving DecidableEq

/-- `c_string_validate`. -/
def cStringValidate (value : Bytes) (maxBytes : Nat) (required : Bool) : Status :=
  if maxBytes < value.length then .invalidFormat
  else if required = true ∧ value = [] then .invalidFormat
  else .ok

/-- The loop over the bytes of a filterable field: no two dots in a row, no control characters, no slashes. -/
def fieldBytesRefused : Option UInt8 → Bytes → Bool
  | _, [] => false
  | previous, b :: bs =>
    (b = 46 ∧ (previous = none ∨ previous = some 46)) ∨ b < 0x20 ∨ b = 47 ∨ b = 92 ∨
      fieldBytesRefused (some b) bs = true

/-- The checks of one filterable field, after the one before it. -/
def filterableFieldValidate (previous : Option Bytes) (field : Bytes) : Status :=
  if cStringValidate field maxFilterFieldBytes true ≠ .ok then
    cStringValidate field maxFilterFieldBytes true
  else if field.head? = some 46 ∨ field.getLast? = some 46 then .invalidFormat
  else if fieldBytesRefused none field = true then .invalidFormat
  else if previous.any (fun p => !decide (p < field)) = true then .invalidFormat
  else .ok

/-- The loop over the filterable fields. -/
def filterableFieldsValidate : Option Bytes → List Bytes → Status
  | _, [] => .ok
  | previous, field :: fields =>
    if filterableFieldValidate previous field ≠ .ok then filterableFieldValidate previous field
    else filterableFieldsValidate (some field) fields

/-- `YAP_V2_config_validate`. -/
def configValidate (c : ConfigRecord) : Status :=
  if c.formatVersion ≠ configFormatVersion then .invalidFormat
  else if cStringValidate c.tokenizerId maxIdentifierBytes true ≠ .ok then
    cStringValidate c.tokenizerId maxIdentifierBytes true
  else if c.chunkMaxChars = 0 ∨ maxChunkChars < c.chunkMaxChars ∨ c.chunkMaxChars ≤ c.chunkOverlapChars then
    .outOfRange
  else if cStringValidate c.vectorModelId maxModelIdBytes (c.vectorMetric ≠ .disabled) ≠ .ok then
    cStringValidate c.vectorModelId maxModelIdBytes (c.vectorMetric ≠ .disabled)
  else if c.vectorMetric = .disabled ∧ (c.vectorDimensions ≠ 0 ∨ c.vectorModelId ≠ []) then .invalidFormat
  else if c.vectorMetric ≠ .disabled ∧
      (c.vectorDimensions = 0 ∨ maxVectorDimensions < c.vectorDimensions) then .outOfRange
  else if maxFilterFields < c.filterableFields.length then .outOfRange
  else filterableFieldsValidate none c.filterableFields

/-! ## The text -/

/-- The bytes of an ASCII text. -/
def ascii (s : String) : Bytes := s.toList.map fun c => UInt8.ofNat c.toNat

def VectorMetric.name : VectorMetric → Bytes
  | .disabled => ascii "disabled"
  | .cosine => ascii "cosine"
  | .dot => ascii "dot"
  | .l2 => ascii "l2"

/-- What stands between the tokenizer id and the model id. -/
def chunkingLines (maxChars overlapChars : Nat) : Bytes :=
  ascii "\nchunking.max_chars=" ++ decimal maxChars ++ ascii "\nchunking.overlap_chars=" ++
    decimal overlapChars ++ ascii "\nvector.model_id="

/-- The lines of the filterable fields, from the `i`-th on. -/
def fieldLines : Nat → List Bytes → Bytes
  | _, [] => []
  | i, field :: fields => ascii "metadata.filterable_fields[" ++ decimal i ++ ascii "]=" ++ field ++ ascii "\n" ++
    fieldLines (i + 1) fields

/-- The text that `YAP_V2_config_fingerprint` puts together. -/
def canonicalText (c : ConfigRecord) : Bytes :=
  ascii "format_version=" ++ decimal c.formatVersion ++ ascii "\ntokenizer.id=" ++ c.tokenizerId ++
    chunkingLines c.chunkMaxChars c.chunkOverlapChars ++ c.vectorModelId ++ ascii "\nvector.dimensions=" ++
    decimal c.vectorDimensions ++ ascii "\nvector.metric=" ++ c.vectorMetric.name ++ ascii "\n" ++
    fieldLines 0 c.filterableFields

/-- `sizeof(canonical)`. -/
def canonicalCapacity : Nat := 32768

/-- `YAP_V2_config_fingerprint`.  The text grows with every field, so it fits at every step if it fits at the
end. -/
def configFingerprint (sha256 : Bytes → Bytes) (c : ConfigRecord) : Except Status Bytes :=
  if configValidate c ≠ .ok then .error .invalidFormat
  else if canonicalCapacity ≤ (canonicalText c).length then .error .outOfRange
  else .ok (sha256 (canonicalText c))

/-- `YAP_V2_manifest_load_for_config`, for a manifest that was loaded, with this fingerprint. -/
def fingerprintCheck (sha256 : Bytes → Bytes) (c : ConfigRecord) (manifestFingerprint : Bytes) : Status :=
  match configFingerprint sha256 c with
  | .error e => e
  | .ok fingerprint => if fingerprint ≠ manifestFingerprint then .conflict else .ok

/-! ## What the checks say -/

/-- What `YAP_V2_config_validate` accepts. -/
structure ConfigRecord.Accepted (c : ConfigRecord) : Prop where
  version : c.formatVersion = configFormatVersion
  tokenizer : c.tokenizerId ≠ [] ∧ c.tokenizerId.length ≤ maxIdentifierBytes
  chunking : 0 < c.chunkMaxChars ∧ c.chunkMaxChars ≤ maxChunkChars ∧ c.chunkOverlapChars < c.chunkMaxChars
  model : c.vectorModelId.length ≤ maxModelIdBytes
  disabled : c.vectorMetric = .disabled → c.vectorDimensions = 0 ∧ c.vectorModelId = []
  enabled : c.vectorMetric ≠ .disabled →
    c.vectorModelId ≠ [] ∧ 0 < c.vectorDimensions ∧ c.vectorDimensions ≤ maxVectorDimensions
  fields : c.filterableFields.length ≤ maxFilterFields ∧
    filterableFieldsValidate none c.filterableFields = .ok

theorem cStringValidate_eq_ok {value : Bytes} {maxBytes : Nat} {required : Bool} :
    cStringValidate value maxBytes required = .ok ↔
      value.length ≤ maxBytes ∧ (required = true → value ≠ []) := by
  rw [cStringValidate]
  split
  · rename_i hlong
    exact iff_of_false (fun h => by cases h) fun h => absurd h.1 (Nat.not_le.mpr hlong)
  · rename_i hshort
    split
    · rename_i hempty
      exact iff_of_false (fun h => by cases h) fun h => h.2 hempty.1 hempty.2
    · rename_i hfull
      exact iff_of_true rfl ⟨Nat.not_lt.mp hshort, fun hrequired hnil => hfull ⟨hrequired, hnil⟩⟩

theorem configValidate_eq_ok {c : ConfigRecord} : configValidate c = .ok ↔ c.Accepted := by
  rw [configValidate]
  constructor
  · intro h
    split at h
    · cases h
    · rename_i hversion
      split at h
      · rename_i htokenizer
        exact absurd h htokenizer
      · rename_i htokenizer
        split at h
        · cases h
        · rename_i hchunking
          split at h
          · rename_i hmodel
            exact absurd h hmodel
          · rename_i hmodel
            split at h
            · cases h
            · rename_i hdisabled
              split at h
              · cases h
              · rename_i henabled
                split at h
                · cases h
                · rename_i hcount
                  rw [not_not, cStringValidate_eq_ok] at htokenizer hmodel
                  refine ⟨not_not.mp hversion, ⟨htokenizer.2 rfl, htokenizer.1⟩, by omega, hmodel.1,
                    fun hmetric => ?_, fun hmetric => ⟨hmodel.2 (decide_eq_true hmetric), ?_⟩,
                    Nat.not_lt.mp hcount, h⟩
                  · rw [not_and, not_or, not_not, not_not] at hdisabled
                    exact hdisabled hmetric
                  · rw [not_and, not_or] at henabled
                    have := henabled hmetric
                    omega
  · intro h
    have hmodel : c.vectorModelId.length ≤ maxModelIdBytes ∧
        (decide (c.vectorMetric ≠ .disabled) = true → c.vectorModelId ≠ []) :=
      ⟨h.model, fun hmetric => (h.enabled (of_decide_eq_true hmetric)).1⟩
    have hchunking := h.chunking
    rw [if_neg (not_not.mpr h.version),
      if_neg (not_not.mpr (cStringValidate_eq_ok.mpr ⟨h.tokenizer.2, fun _ => h.tokenizer.1⟩)),
      if_neg (by omega), if_neg (not_not.mpr (cStringValidate_eq_ok.mpr hmodel)), if_neg, if_neg,
      if_neg (Nat.not_lt.mpr h.fields.1)]
    · exact h.fields.2
    · rintro ⟨hmetric, hdimensions⟩
      have := (h.enabled hmetric).2
      omega
    · rintro ⟨hmetric, hdimensions | hmodel⟩
      · exact hdimensions (h.disabled hmetric).1
      · exact hmodel (h.disabled hmetric).2

theorem control_notMem_of_not_refused {previous : Option UInt8} {field : Bytes}
    (h : fieldBytesRefused previous field = false) {control : UInt8} (hlow : control < 0x20) : control ∉ field := by
  induction field generalizing previous with
  | nil => exact List.not_mem_nil
  | cons b bs ih =>
    rw [fieldBytesRefused, decide_eq_false_iff_not, not_or, not_or, not_or, not_or] at h
    obtain ⟨-, hcontrol, -, -, hrest⟩ := h
    rw [List.mem_cons, not_or]
    refine ⟨?_, ih (by simpa using hrest)⟩
    rintro rfl
    exact hcontrol hlow

/-- A filterable field is short and has no control characters. -/
theorem field_of_validate {previous : Option Bytes} {fields : List Bytes}
    (h : filterableFieldsValidate previous fields = .ok) :
    ∀ f ∈ fields, f.length ≤ maxFilterFieldBytes ∧ ∀ control : UInt8, control < 0x20 → control ∉ f := by
  induction fields generalizing previous with
  | nil => exact fun f hf => absurd hf List.not_mem_nil
  | cons field fields ih =>
    rw [filterableFieldsValidate] at h
    split at h
    · rename_i hbad
      exact absurd h hbad
    · rename_i hgood
      refine List.forall_mem_cons.mpr ⟨?_, ih h⟩
      rw [not_not, filterableFieldValidate] at hgood
      split at hgood
      · rename_i hbad
        exact absurd hgood hbad
      · rename_i hstring
        split at hgood
        · cases hgood
        · split at hgood
          · cases hgood
          · rename_i hrefused
            exact ⟨(cStringValidate_eq_ok.mp (not_not.mp hstring)).1,
              fun control hlow => control_notMem_of_not_refused (by simpa using hrefused) hlow⟩

/-! ## The lines of the fields -/

/-- A line of a filterable field, without the line break. -/
def fieldLine (i : Nat) (field : Bytes) : Bytes :=
  ascii "metadata.filterable_fields[" ++ decimal i ++ ascii "]=" ++ field

theorem fieldLines_append (i : Nat) (fields : List Bytes) (field : Bytes) :
    fieldLines i (fields ++ [field]) = fieldLines i fields ++ (fieldLine (i + fields.length) field ++ [10]) := by
  induction fields generalizing i with
  | nil =>
    rw [List.nil_append, fieldLines, fieldLines, fieldLines, List.append_nil]
    rfl
  | cons f fields ih =>
    rw [List.cons_append, fieldLines, fieldLines, ih, List.length_cons,
      show i + 1 + fields.length = i + (fields.length + 1) by omega]
    simp only [List.append_assoc]

theorem newline_notMem_fieldLine (i : Nat) {field : Bytes} (h : (10 : UInt8) ∉ field) :
    (10 : UInt8) ∉ fieldLine i field := by
  have h₁ : (10 : UInt8) ∉ ascii "metadata.filterable_fields[" := by decide
  have h₂ : (10 : UInt8) ∉ ascii "]=" := by decide
  simp only [fieldLine, List.mem_append, not_or]
  exact ⟨⟨⟨h₁, newline_notMem_decimal i⟩, h₂⟩, h⟩

/-- A text with lines of fields after a line break ends with a line break. -/
theorem exists_line_break (y : Bytes) (i : Nat) (fields : List Bytes) :
    ∃ r, y ++ 10 :: fieldLines i fields = r ++ [10] := by
  rcases List.eq_nil_or_concat fields with rfl | ⟨init, field, rfl⟩
  · exact ⟨y, rfl⟩
  · refine ⟨y ++ 10 :: fieldLines i init ++ fieldLine (i + init.length) field, ?_⟩
    rw [List.concat_eq_append, fieldLines_append]
    simp only [List.append_assoc, List.cons_append]

/-- The line of the metric ends what comes before the lines of the fields. -/
theorem fieldLines_inj {fields fields' : List Bytes} (hfields : ∀ f ∈ fields, (10 : UInt8) ∉ f)
    (hfields' : ∀ f ∈ fields', (10 : UInt8) ∉ f) {x x' metric metric' : Bytes}
    (hmetric : (10 : UInt8) ∉ metric) (hmetric' : (10 : UInt8) ∉ metric')
    (hhead : metric.head? = some 118) (hhead' : metric'.head? = some 118)
    (h : (x ++ 10 :: metric) ++ 10 :: fieldLines 0 fields =
      (x' ++ 10 :: metric') ++ 10 :: fieldLines 0 fields') :
    x = x' ∧ metric = metric' ∧ fields = fields' := by
  -- the last line of one text is the last line of the other
  have hlast : ∀ (y r : Bytes) (i : Nat) (init : List Bytes) (field : Bytes),
      y ++ 10 :: fieldLines i init = r ++ [10] →
      y ++ 10 :: fieldLines i (init ++ [field]) = (r ++ 10 :: fieldLine (i + init.length) field) ++ [10] := by
    intro y r i init field hr
    rw [fieldLines_append, ← List.cons_append, ← List.append_assoc, hr]
    simp only [List.append_assoc, List.cons_append, List.nil_append]
  have hmismatch : ∀ (m : Bytes) (i : Nat) (field : Bytes), m.head? = some 118 → m ≠ fieldLine i field := by
    rintro m i field hm rfl
    have hm' : (fieldLine i field).head? = some 109 := by
      rw [fieldLine, List.append_assoc, List.append_assoc]
      rfl
    rw [hm'] at hm
    exact absurd hm (by decide)
  induction fields using List.reverseRecOn generalizing fields' with
  | nil =>
    rcases List.eq_nil_or_concat fields' with rfl | ⟨init', field', rfl⟩
    · obtain ⟨hx, hm⟩ := last_part_inj hmetric hmetric' (List.append_cancel_right h)
      exact ⟨hx, hm, rfl⟩
    · rw [List.concat_eq_append] at h hfields'
      obtain ⟨r, hr⟩ := exists_line_break (x' ++ 10 :: metric') 0 init'
      rw [hlast _ r 0 init' field' hr] at h
      obtain ⟨-, hm⟩ := last_part_inj hmetric (newline_notMem_fieldLine _ (hfields' field' (by simp)))
        (List.append_cancel_right h)
      exact absurd hm (hmismatch _ _ _ hhead)
  | append_singleton init field ih =>
    obtain ⟨r, hr⟩ := exists_line_break (x ++ 10 :: metric) 0 init
    rw [hlast _ r 0 init field hr] at h
    have hline := newline_notMem_fieldLine (0 + init.length) (hfields field (by simp))
    rcases List.eq_nil_or_concat fields' with rfl | ⟨init', field', rfl⟩
    · obtain ⟨-, hm⟩ := last_part_inj hline hmetric' (List.append_cancel_right h)
      exact absurd hm.symm (hmismatch _ _ _ hhead')
    · rw [List.concat_eq_append] at h hfields' ⊢
      obtain ⟨r', hr'⟩ := exists_line_break (x' ++ 10 :: metric') 0 init'
      rw [hlast _ r' 0 init' field' hr'] at h
      obtain ⟨hrr, hm⟩ := last_part_inj hline
        (newline_notMem_fieldLine _ (hfields' field' (by simp))) (List.append_cancel_right h)
      obtain ⟨hx, hmetrics, rfl⟩ := ih (fun f hf => hfields f (List.mem_append_left _ hf))
        (fun f hf => hfields' f (List.mem_append_left _ hf)) (by rw [hr, hr', hrr])
      rw [fieldLine, fieldLine] at hm
      exact ⟨hx, hmetrics, by rw [List.append_cancel_left hm]⟩

/-! ## The ids -/

/-- The tokenizer id, the model id and what stands between them. -/
def idText (c : ConfigRecord) : Bytes :=
  c.tokenizerId ++ (chunkingLines c.chunkMaxChars c.chunkOverlapChars ++ c.vectorModelId)

theorem canonicalText_eq (c : ConfigRecord) : canonicalText c =
    (ascii "format_version=" ++ (decimal c.formatVersion ++ (ascii "\ntokenizer.id=" ++ idText c)) ++
      10 :: (ascii "vector.dimensions=" ++ decimal c.vectorDimensions) ++
      10 :: (ascii "vector.metric=" ++ c.vectorMetric.name)) ++ 10 :: fieldLines 0 c.filterableFields := by
  rw [canonicalText, idText, show ascii "\nvector.dimensions=" = 10 :: ascii "vector.dimensions=" by rfl,
    show ascii "\nvector.metric=" = 10 :: ascii "vector.metric=" by rfl, show ascii "\n" = [10] by rfl]
  simp only [List.append_assoc, List.cons_append, List.nil_append]

theorem VectorMetric.name_injective {m m' : VectorMetric} (h : m.name = m'.name) : m = m' := by
  revert h
  cases m <;> cases m' <;> decide

/-- Texts are the same if and only if the configurations agree in everything but the cut of the ids. -/
theorem canonicalText_inj {c c' : ConfigRecord} (hc : c.Accepted) (hc' : c'.Accepted) :
    canonicalText c = canonicalText c' ↔ idText c = idText c' ∧ c.vectorDimensions = c'.vectorDimensions ∧
      c.vectorMetric = c'.vectorMetric ∧ c.filterableFields = c'.filterableFields := by
  rw [canonicalText_eq, canonicalText_eq, hc.version, hc'.version]
  constructor
  · intro h
    have hname : ∀ m : VectorMetric, (10 : UInt8) ∉ ascii "vector.metric=" ++ m.name := by
      intro m
      cases m <;> decide
    have hdimensions : ∀ n, (10 : UInt8) ∉ ascii "vector.dimensions=" ++ decimal n := by
      intro n
      rw [List.mem_append, not_or]
      exact ⟨by decide, newline_notMem_decimal n⟩
    obtain ⟨hx, hmetric, hfields⟩ := fieldLines_inj (fun f hf => (field_of_validate hc.fields.2 f hf).2 10 (by decide))
      (fun f hf => (field_of_validate hc'.fields.2 f hf).2 10 (by decide)) (hname _) (hname _) rfl rfl h
    obtain ⟨hids, hd⟩ := last_part_inj (hdimensions _) (hdimensions _) hx
    refine ⟨?_, decimal_injective (List.append_cancel_left hd),
      VectorMetric.name_injective (List.append_cancel_left hmetric), hfields⟩
    exact List.append_cancel_left (List.append_cancel_left (List.append_cancel_left hids))
  · rintro ⟨hids, hd, hm, hf⟩
    rw [hids, hd, hm, hf]

/-! ## The text fits -/

theorem length_fieldLines_le {i : Nat} {fields : List Bytes} (hindex : i + fields.length ≤ maxFilterFields)
    (hfields : ∀ f ∈ fields, f.length ≤ maxFilterFieldBytes) :
    (fieldLines i fields).length ≤ 160 * fields.length := by
  induction fields generalizing i with
  | nil => exact Nat.le_refl 0
  | cons field fields ih =>
    rw [List.length_cons] at hindex ⊢
    have hdigits : (decimal i).length ≤ 2 := length_decimalDigits_le (k := 1) (by
      rw [maxFilterFields] at hindex
      omega)
    have hfield : field.length ≤ 127 := hfields field List.mem_cons_self
    have hrest := ih (i := i + 1) (by omega) fun f hf => hfields f (List.mem_cons_of_mem _ hf)
    rw [fieldLines, List.length_append, List.length_append, List.length_append, List.length_append,
      List.length_append, show (ascii "metadata.filterable_fields[").length = 27 by rfl,
      show (ascii "]=").length = 2 by rfl, show (ascii "\n").length = 1 by rfl]
    omega

/-- Every accepted configuration has a fingerprint. -/
theorem canonicalText_fits {c : ConfigRecord} (hc : c.Accepted) :
    (canonicalText c).length < canonicalCapacity := by
  have hdigits : ∀ n, n < 10 ^ 7 → (decimal n).length ≤ 7 := fun n hn => length_decimalDigits_le hn
  have hdimensions : c.vectorDimensions < 10 ^ 7 := by
    by_cases hmetric : c.vectorMetric = .disabled
    · rw [(hc.disabled hmetric).1]
      omega
    · have := (hc.enabled hmetric).2.2
      rw [maxVectorDimensions] at this
      omega
  have hchunking := hc.chunking
  rw [maxChunkChars] at hchunking
  have hversion := hdigits c.formatVersion (by rw [hc.version, configFormatVersion]; omega)
  have hmaxChars := hdigits c.chunkMaxChars (by omega)
  have hoverlap := hdigits c.chunkOverlapChars (by omega)
  have hdimension := hdigits c.vectorDimensions hdimensions
  have htokenizer := hc.tokenizer.2
  have hmodel := hc.model
  have hfields := length_fieldLines_le (i := 0) (by rw [Nat.zero_add]; exact hc.fields.1)
    fun f hf => (field_of_validate hc.fields.2 f hf).1
  have hcount := hc.fields.1
  have hname : c.vectorMetric.name.length ≤ 8 := by cases c.vectorMetric <;> decide
  have htext : (canonicalText c).length = 15 + (decimal c.formatVersion).length + 14 + c.tokenizerId.length +
      (20 + (decimal c.chunkMaxChars).length + 24 + (decimal c.chunkOverlapChars).length + 17) +
      c.vectorModelId.length + 19 + (decimal c.vectorDimensions).length + 15 + c.vectorMetric.name.length + 1 +
      (fieldLines 0 c.filterableFields).length := by
    simp only [canonicalText, chunkingLines, List.length_append]
    rfl
  rw [maxIdentifierBytes] at htokenizer
  rw [maxModelIdBytes] at hmodel
  rw [maxFilterFields] at hcount
  rw [htext, canonicalCapacity]
  omega

/-! ## Cutting a text in two ways -/

def maxCharsLine (n : Nat) : Bytes := ascii "chunking.max_chars=" ++ decimal n

def overlapCharsLine (n : Nat) : Bytes := ascii "chunking.overlap_chars=" ++ decimal n

theorem chunkingLines_append (maxChars overlapChars : Nat) (v : Bytes) :
    chunkingLines maxChars overlapChars ++ v = 10 :: (maxCharsLine maxChars ++
      10 :: (overlapCharsLine overlapChars ++ 10 :: (ascii "vector.model_id=" ++ v))) := by
  rw [chunkingLines, maxCharsLine, overlapCharsLine,
    show ascii "\nchunking.max_chars=" = 10 :: ascii "chunking.max_chars=" by rfl,
    show ascii "\nchunking.overlap_chars=" = 10 :: ascii "chunking.overlap_chars=" by rfl,
    show ascii "\nvector.model_id=" = 10 :: ascii "vector.model_id=" by rfl]
  simp only [List.append_assoc, List.cons_append]

theorem newline_notMem_maxCharsLine (n : Nat) : (10 : UInt8) ∉ maxCharsLine n := by
  rw [maxCharsLine, List.mem_append, not_or]
  exact ⟨by decide, newline_notMem_decimal n⟩

theorem newline_notMem_overlapCharsLine (n : Nat) : (10 : UInt8) ∉ overlapCharsLine n := by
  rw [overlapCharsLine, List.mem_append, not_or]
  exact ⟨by decide, newline_notMem_decimal n⟩

theorem overlapCharsLine_ne_maxCharsLine (m n : Nat) : overlapCharsLine m ≠ maxCharsLine n := by
  intro h
  have hbyte : (overlapCharsLine m)[9]? = some 111 := rfl
  rw [h] at hbyte
  exact absurd (show (maxCharsLine n)[9]? = some 109 by rfl) (by rw [hbyte]; decide)

/-- Where the text of one cut can go on after the tokenizer id of the other: at once, or behind a full copy of
the lines between the ids. -/
theorem chunkingLines_cut {m o m' o' : Nat} {v b v' : Bytes}
    (h : chunkingLines m o ++ v = b ++ (chunkingLines m' o' ++ v')) :
    (b = [] ∧ m = m' ∧ o = o' ∧ v = v') ∨
      ∃ v₀, b = chunkingLines m o ++ v₀ ∧ v = v₀ ++ (chunkingLines m' o' ++ v') := by
  rw [chunkingLines_append, chunkingLines_append m' o'] at h
  rcases List.cons_eq_append_iff.mp h with ⟨rfl, htail⟩ | ⟨b₁, rfl, htail⟩
  · -- the same tokenizer id: the lines agree one after the other
    left
    obtain ⟨h₁, hrest⟩ := first_part_inj (newline_notMem_maxCharsLine _) (newline_notMem_maxCharsLine _)
      (List.cons.inj htail).2.symm
    obtain ⟨h₂, hrest⟩ := first_part_inj (newline_notMem_overlapCharsLine _)
      (newline_notMem_overlapCharsLine _) hrest
    exact ⟨rfl, decimal_injective (List.append_cancel_left h₁), decimal_injective (List.append_cancel_left h₂),
      List.append_cancel_left (List.cons.inj hrest).2⟩
  · right
    obtain ⟨b₂, rfl, htail₂⟩ := part_cases (newline_notMem_maxCharsLine m) htail
    rcases List.cons_eq_append_iff.mp htail₂ with ⟨rfl, hline⟩ | ⟨b₃, rfl, htail₃⟩
    · obtain ⟨hline, -⟩ := first_part_inj (newline_notMem_maxCharsLine _) (newline_notMem_overlapCharsLine _)
        (List.cons.inj hline).2
      exact absurd hline.symm (overlapCharsLine_ne_maxCharsLine _ _)
    · obtain ⟨b₄, rfl, htail₄⟩ := part_cases (newline_notMem_overlapCharsLine o) htail₃
      rcases List.cons_eq_append_iff.mp htail₄ with ⟨rfl, hline⟩ | ⟨b₅, rfl, htail₅⟩
      · have hheads := congrArg List.head? (List.cons.inj hline).2
        exact absurd hheads (by decide : ¬ some (99 : UInt8) = some 118)
      · have hlabel : (10 : UInt8) ∉ ascii "vector.model_id=" := by decide
        obtain ⟨v₀, rfl, hv⟩ := part_cases hlabel htail₅
        refine ⟨v₀, ?_, ?_⟩
        · rw [chunkingLines_append]
        · rw [hv, chunkingLines_append]

/-- Sizes of chunks that `YAP_V2_config_validate` accepts. -/
def ChunkSizes (maxChars overlapChars : Nat) : Prop :=
  0 < maxChars ∧ maxChars ≤ maxChunkChars ∧ overlapChars < maxChars

/-- The tokenizer id holds a copy of the lines between the ids, with something before it, and the model id has
room for what comes after the copy. -/
def ConfigRecord.TokenizerCut (c : ConfigRecord) : Prop :=
  c.vectorMetric ≠ .disabled ∧ ∃ t m o v, c.tokenizerId = t ++ (chunkingLines m o ++ v) ∧ t ≠ [] ∧
    ChunkSizes m o ∧
    (v ++ (chunkingLines c.chunkMaxChars c.chunkOverlapChars ++ c.vectorModelId)).length ≤ maxModelIdBytes

/-- The model id holds a copy of the lines between the ids, with something after it, and the tokenizer id has
room for what comes before the copy. -/
def ConfigRecord.ModelCut (c : ConfigRecord) : Prop :=
  ∃ v m o v', c.vectorModelId = v ++ (chunkingLines m o ++ v') ∧ v' ≠ [] ∧ ChunkSizes m o ∧
    (c.tokenizerId ++ (chunkingLines c.chunkMaxChars c.chunkOverlapChars ++ v)).length ≤ maxIdentifierBytes

/-- Two configurations with the same text. -/
theorem canonicalText_cases {c c' : ConfigRecord} (hc : c.Accepted) (hc' : c'.Accepted)
    (h : canonicalText c' = canonicalText c) : c' = c ∨ c.TokenizerCut ∨ c.ModelCut := by
  obtain ⟨hids, hdimensions, hmetric, hfields⟩ := (canonicalText_inj hc' hc).mp h
  rw [idText, idText] at hids
  rcases List.append_eq_append_iff.mp hids with ⟨b, hb, htail⟩ | ⟨b, hb, htail⟩
  · -- the tokenizer id of `c` is the longer one
    rcases chunkingLines_cut htail with ⟨rfl, hm, ho, hv⟩ | ⟨v₀, rfl, hv⟩
    · left
      rw [List.append_nil] at hb
      cases c
      cases c'
      simp only at *
      rw [ConfigRecord.mk.injEq]
      exact ⟨hc'.version.trans hc.version.symm, hb.symm, hm, ho, hv, hdimensions, hmetric, hfields⟩
    · right
      left
      refine ⟨?_, c'.tokenizerId, _, _, v₀, hb, hc'.tokenizer.1, hc'.chunking, hv ▸ hc'.model⟩
      intro hdisabled
      have hnil := (hc'.disabled (hmetric.trans hdisabled)).2
      rw [hv, chunkingLines_append] at hnil
      simp at hnil
  · rcases chunkingLines_cut htail with ⟨rfl, hm, ho, hv⟩ | ⟨v₀, rfl, hv⟩
    · left
      rw [List.append_nil] at hb
      cases c
      cases c'
      simp only at *
      rw [ConfigRecord.mk.injEq]
      exact ⟨hc'.version.trans hc.version.symm, hb, hm.symm, ho.symm, hv.symm, hdimensions, hmetric, hfields⟩
    · right
      right
      refine ⟨v₀, _, _, c'.vectorModelId, hv, (hc'.enabled ?_).1, hc'.chunking, hb ▸ hc'.tokenizer.2⟩
      intro hdisabled
      have hnil := (hc.disabled (hmetric.symm.trans hdisabled)).2
      rw [hv, chunkingLines_append] at hnil
      simp at hnil

theorem exists_same_text {c : ConfigRecord} (hc : c.Accepted) (h : c.TokenizerCut ∨ c.ModelCut) :
    ∃ c', c'.Accepted ∧ canonicalText c' = canonicalText c ∧ c' ≠ c := by
  rcases h with ⟨hmetric, t, m, o, v, ht, htne, hsizes, hroom⟩ | ⟨v, m, o, v', hv, hvne, hsizes, hroom⟩
  · let c' : ConfigRecord := { c with
      tokenizerId := t
      chunkMaxChars := m
      chunkOverlapChars := o
      vectorModelId := v ++ (chunkingLines c.chunkMaxChars c.chunkOverlapChars ++ c.vectorModelId) }
    have hshort : t.length < c.tokenizerId.length := by
      rw [ht, chunkingLines_append]
      simp
    have hc' : c'.Accepted := by
      refine ⟨hc.version, ⟨htne, by have := hc.tokenizer.2; simp only [c']; omega⟩, hsizes, hroom,
        fun hdisabled => absurd hdisabled hmetric, fun _ => ⟨?_, (hc.enabled hmetric).2⟩, hc.fields⟩
      simp only [c', chunkingLines_append]
      simp
    refine ⟨c', hc', (canonicalText_inj hc' hc).mpr ⟨?_, rfl, rfl, rfl⟩, fun heq => ?_⟩
    · rw [idText, idText, ht]
      simp only [c', List.append_assoc]
    · have := congrArg (fun c => c.tokenizerId.length) heq
      simp only [c'] at this
      omega
  · have hmetric : c.vectorMetric ≠ .disabled := by
      intro hdisabled
      have hnil := (hc.disabled hdisabled).2
      rw [hv, chunkingLines_append] at hnil
      simp at hnil
    let c' : ConfigRecord := { c with
      tokenizerId := c.tokenizerId ++ (chunkingLines c.chunkMaxChars c.chunkOverlapChars ++ v)
      chunkMaxChars := m
      chunkOverlapChars := o
      vectorModelId := v' }
    have hlong : c.tokenizerId.length < c'.tokenizerId.length := by
      simp only [c', chunkingLines_append]
      simp
    have hc' : c'.Accepted := by
      refine ⟨hc.version, ⟨?_, hroom⟩, hsizes, ?_, fun hdisabled => absurd hdisabled hmetric,
        fun _ => ⟨hvne, (hc.enabled hmetric).2⟩, hc.fields⟩
      · exact List.ne_nil_of_length_pos (by omega)
      · have hmodel := hc.model
        rw [hv, List.length_append, List.length_append] at hmodel
        simp only [c']
        omega
    refine ⟨c', hc', (canonicalText_inj hc' hc).mpr ⟨?_, rfl, rfl, rfl⟩, fun heq => ?_⟩
    · rw [idText, idText, hv]
      simp only [c', List.append_assoc]
    · have := congrArg (fun c => c.tokenizerId.length) heq
      omega

/-! ## Two configurations with one fingerprint -/

theorem configFingerprint_eq (sha256 : Bytes → Bytes) {c : ConfigRecord} (hc : c.Accepted) :
    configFingerprint sha256 c = .ok (sha256 (canonicalText c)) := by
  rw [configFingerprint, if_neg (not_not.mpr (configValidate_eq_ok.mpr hc)),
    if_neg (Nat.not_le.mpr (canonicalText_fits hc))]

theorem accepted_of_fingerprintCheck {sha256 : Bytes → Bytes} {c : ConfigRecord} {fingerprint : Bytes}
    (h : fingerprintCheck sha256 c fingerprint = .ok) :
    c.Accepted ∧ sha256 (canonicalText c) = fingerprint := by
  rw [fingerprintCheck] at h
  by_cases hvalid : configValidate c = .ok
  · have hc := configValidate_eq_ok.mp hvalid
    rw [configFingerprint_eq sha256 hc] at h
    simp only at h
    split at h
    · cases h
    · rename_i hsame
      exact ⟨hc, not_not.mp hsame⟩
  · rw [configFingerprint, if_pos hvalid] at h
    cases h

/-- **When a fingerprint tells a configuration from all others.**  Another configuration has the same text
exactly if one of the two ids holds a copy of the lines that stand between them, and the limits leave room to
cut there instead.  Then the check of a loaded manifest also lets that other configuration pass. -/
theorem fingerprint_separates (sha256 : Bytes → Bytes) (c : ConfigRecord) (h : configValidate c = .ok) :
    ((∀ c', configValidate c' = .ok → canonicalText c' = canonicalText c → c' = c) ↔
      ¬ (c.TokenizerCut ∨ c.ModelCut)) ∧
    ((∀ c' fingerprint, (sha256 (canonicalText c') = sha256 (canonicalText c) →
        canonicalText c' = canonicalText c) → configFingerprint sha256 c = .ok fingerprint →
        fingerprintCheck sha256 c' fingerprint = .ok → c' = c) ↔
      ¬ (c.TokenizerCut ∨ c.ModelCut)) := by
  have hc := configValidate_eq_ok.mp h
  refine ⟨⟨fun hall hcut => ?_, fun hcut c' hc' htext => ?_⟩,
    ⟨fun hall hcut => ?_, fun hcut c' fingerprint hinj hfingerprint hcheck => ?_⟩⟩
  · obtain ⟨c', hc', htext, hne⟩ := exists_same_text hc hcut
    exact hne (hall c' (configValidate_eq_ok.mpr hc') htext)
  · exact (canonicalText_cases hc (configValidate_eq_ok.mp hc') htext).resolve_right hcut
  · obtain ⟨c', hc', htext, hne⟩ := exists_same_text hc hcut
    refine hne (hall c' _ (fun _ => htext) (configFingerprint_eq sha256 hc) ?_)
    rw [fingerprintCheck, configFingerprint_eq sha256 hc']
    simp only
    rw [htext, if_neg (not_not.mpr rfl)]
  · rw [configFingerprint_eq sha256 hc] at hfingerprint
    cases hfingerprint
    obtain ⟨hc', hsame⟩ := accepted_of_fingerprintCheck hcheck
    exact (canonicalText_cases hc hc' (hinj hsame)).resolve_right hcut

/-- A configuration for trying things out. -/
def sampleRecord (tokenizer : Bytes) (maxChars overlapChars : Nat) (model : Bytes) : ConfigRecord where
  formatVersion := configFormatVersion
  tokenizerId := tokenizer
  chunkMaxChars := maxChars
  chunkOverlapChars := overlapChars
  vectorModelId := model
  vectorDimensions := 3
  vectorMetric := .cosine
  filterableFields := []

theorem not_cut_of_short {c : ConfigRecord} (htokenizer : c.tokenizerId.length ≤ 3)
    (hmodel : c.vectorModelId.length ≤ 3) : ¬ (c.TokenizerCut ∨ c.ModelCut) := by
  rintro (⟨-, t, m, o, v, ht, -⟩ | ⟨v, m, o, v', hv, -⟩)
  · rw [ht, chunkingLines_append] at htokenizer
    simp only [List.length_append, List.length_cons] at htokenizer
    have : (ascii "vector.model_id=").length = 16 := rfl
    omega
  · rw [hv, chunkingLines_append] at hmodel
    simp only [List.length_append, List.length_cons] at hmodel
    have : (ascii "vector.model_id=").length = 16 := rfl
    omega

theorem fingerprint_separates_plain :
    configValidate (sampleRecord (ascii "t") 5 1 (ascii "x")) = .ok ∧
    ∀ c', configValidate c' = .ok →
      canonicalText c' = canonicalText (sampleRecord (ascii "t") 5 1 (ascii "x")) →
      c' = sampleRecord (ascii "t") 5 1 (ascii "x") :=
  ⟨by decide, (fingerprint_separates id _ (by decide)).1.mpr (not_cut_of_short (by decide) (by decide))⟩

/-- Two configurations that are told apart by every field of the ids, and not by the text. -/
theorem fingerprint_collides :
    let c₁ := sampleRecord (ascii "t\nchunking.max_chars=5\nchunking.overlap_chars=1\nvector.model_id=x")
      10 2 (ascii "y")
    let c₂ := sampleRecord (ascii "t") 5 1
      (ascii "x\nchunking.max_chars=10\nchunking.overlap_chars=2\nvector.model_id=y")
    configValidate c₁ = .ok ∧ configValidate c₂ = .ok ∧ canonicalText c₁ = canonicalText c₂ ∧
      c₁.tokenizerId ≠ c₂.tokenizerId ∧ c₁.chunkMaxChars ≠ c₂.chunkMaxChars ∧
      c₁.vectorModelId ≠ c₂.vectorModelId ∧
      ∀ sha256 : Bytes → Bytes, ∃ fingerprint, configFingerprint sha256 c₁ = .ok fingerprint ∧
        fingerprintCheck sha256 c₂ fingerprint = .ok := by
  intro c₁ c₂
  have h₁ : configValidate c₁ = .ok := by decide +kernel
  have h₂ : configValidate c₂ = .ok := by decide +kernel
  have htext : canonicalText c₁ = canonicalText c₂ := by decide +kernel
  refine ⟨h₁, h₂, htext, by decide +kernel, by decide, by decide +kernel, fun sha256 => ?_⟩
  refine ⟨_, configFingerprint_eq sha256 (configValidate_eq_ok.mp h₁), ?_⟩
  rw [fingerprintCheck, configFingerprint_eq sha256 (configValidate_eq_ok.mp h₂)]
  simp only
  rw [htext, if_neg (not_not.mpr rfl)]

end Yappod

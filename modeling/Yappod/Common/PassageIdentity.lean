import Yappod.Common.Unicode
import Yappod.Storage.ManifestCodec

/-!
# Passage identifiers

What `passage_hash` takes in: the bytes of the document identifier, the ordinal as one value, the bytes of the text.
Nothing says where the identifier ends, so two passages of different documents may be the same material
(`passage_material_iff`), and then they have the same identifier whatever the hash.
-/

set_option autoImplicit false

namespace Yappod

/-- What is hashed for a passage: the arguments of `passage_hash`. -/
structure PassageKey where
  documentId : CString
  ordinal : UInt32
  text : Bytes
  deriving DecidableEq

namespace PassageKey

/-- The values that `passage_hash` takes in, one after the other. -/
def material (p : PassageKey) : List UInt64 :=
  p.documentId.bytes.map UInt8.toUInt64 ++ p.ordinal.toUInt64 :: p.text.map UInt8.toUInt64

/-- `YAP_V2_unicode_chunk` hashes this for some document. -/
def Hashed (icu : Icu) (p : PassageKey) : Prop :=
  ∃ (body : Bytes) (maxChars overlapChars : Nat) (chunks : List Chunk),
    unicodeChunk icu p.documentId.bytes body maxChars overlapChars = .ok chunks ∧
      ∃ c ∈ chunks, p.ordinal = UInt32.ofNat c.ordinal ∧ p.text = c.text

/-- The other identifier goes on with this ordinal and with the start of this text, and the rest of this text is the
other ordinal and the other text. -/
def RunsInto (p q : PassageKey) : Prop :=
  ∃ (b b' : UInt8) (between : Bytes), p.ordinal.toUInt64 = b.toUInt64 ∧ q.ordinal.toUInt64 = b'.toUInt64 ∧
    q.documentId.bytes = p.documentId.bytes ++ b :: between ∧ p.text = between ++ b' :: q.text

theorem passageHash_eq (documentId text : Bytes) (ordinal : UInt32) (hnul : 0 ∉ documentId) :
    passageHash documentId ordinal.toNat text =
      (material ⟨⟨documentId, hnul⟩, ordinal, text⟩).foldl fnvStep fnvOffset := by
  have hordinal : ordinal.toNat.toUInt64 = ordinal.toUInt64 := by
    apply UInt64.toNat_inj.mp
    have := ordinal.toNat_lt
    rw [UInt32.toNat_toUInt64]
    exact Nat.mod_eq_of_lt (by omega)
  rw [material, List.foldl_append, List.foldl_cons, List.foldl_map, List.foldl_map, passageHash, hordinal]
  rfl

/-! Every chunk has the identifier of its hash. -/

theorem chunkLoop_id (icu : Icu) (documentId : Bytes) (text : List Char) (graphemes sentences : List Nat)
    (maxChars overlapChars fuel start : Nat) (chunks : List Chunk)
    (h : ∀ c ∈ chunks, c.id = passageId (passageHash documentId c.ordinal c.text)) :
    ∀ c ∈ chunkLoop icu documentId text graphemes sentences maxChars overlapChars fuel start chunks,
      c.id = passageId (passageHash documentId c.ordinal c.text) := by
  induction fuel generalizing start chunks with
  | zero => exact h
  | succ fuel ih =>
    rw [chunkLoop]
    split
    · exact h
    · dsimp only
      have hsnoc : ∀ (bytes : Bytes) (stop : Nat), ∀ c ∈ chunks ++
          [⟨passageId (passageHash documentId chunks.length bytes), bytes, chunks.length, start, stop⟩],
          c.id = passageId (passageHash documentId c.ordinal c.text) := by
        intro bytes stop c hc
        rcases List.mem_append.mp hc with hc | hc
        · exact h c hc
        · rw [List.mem_singleton.mp hc]
      split
      · split
        · exact h
        · exact ih _ _ h
      · split
        · exact hsnoc _ _
        · exact ih _ _ (hsnoc _ _)

theorem unicodeChunk_id {icu : Icu} {documentId body : Bytes} {maxChars overlapChars : Nat} {chunks : List Chunk}
    (h : unicodeChunk icu documentId body maxChars overlapChars = .ok chunks) {c : Chunk} (hc : c ∈ chunks) :
    c.id = passageId (passageHash documentId c.ordinal c.text) := by
  rw [unicodeChunk] at h
  split at h
  · cases h
  · split at h
    · cases h
    · cases h
      exact chunkLoop_id _ _ _ _ _ _ _ _ _ _ (by simp) c hc

/-- Passages that are the same material have the same identifier. -/
theorem id_eq_of_material_eq {icu : Icu} {documentId documentId' : CString} {body body' : Bytes}
    {maxChars overlapChars maxChars' overlapChars' : Nat} {chunks chunks' : List Chunk}
    (h : unicodeChunk icu documentId.bytes body maxChars overlapChars = .ok chunks)
    (h' : unicodeChunk icu documentId'.bytes body' maxChars' overlapChars' = .ok chunks')
    {c c' : Chunk} (hc : c ∈ chunks) (hc' : c' ∈ chunks') (hlt : c.ordinal < 2 ^ 32) (hlt' : c'.ordinal < 2 ^ 32)
    (hmaterial : (⟨documentId, UInt32.ofNat c.ordinal, c.text⟩ : PassageKey).material =
      (⟨documentId', UInt32.ofNat c'.ordinal, c'.text⟩ : PassageKey).material) : c.id = c'.id := by
  have hordinal : (UInt32.ofNat c.ordinal).toNat = c.ordinal := Nat.mod_eq_of_lt hlt
  have hordinal' : (UInt32.ofNat c'.ordinal).toNat = c'.ordinal := Nat.mod_eq_of_lt hlt'
  have hhash := passageHash_eq documentId.bytes c.text (UInt32.ofNat c.ordinal) documentId.noNul
  have hhash' := passageHash_eq documentId'.bytes c'.text (UInt32.ofNat c'.ordinal) documentId'.noNul
  rw [hordinal] at hhash
  rw [hordinal'] at hhash'
  rw [unicodeChunk_id h hc, unicodeChunk_id h' hc', hhash, hhash', hmaterial]

theorem toUInt64_injective : Function.Injective UInt8.toUInt64 := by
  intro a b h
  have hvalue : a.toUInt64.toNat = b.toUInt64.toNat := congrArg UInt64.toNat h
  rw [UInt8.toNat_toUInt64, UInt8.toNat_toUInt64] at hvalue
  exact UInt8.toNat_inj.mp hvalue

theorem map_toUInt64_injective : Function.Injective (List.map UInt8.toUInt64) :=
  List.map_injective_iff.mpr toUInt64_injective

/-- Identifiers that end in different places. -/
theorem material_eq_iff_of_length_lt {p q : PassageKey} (h : p.documentId.bytes.length < q.documentId.bytes.length) :
    p.material = q.material ↔ p.RunsInto q := by
  constructor
  · intro heq
    rw [material, material, List.append_eq_append_iff] at heq
    obtain ⟨as, hid, hrest⟩ | ⟨bs, hid, -⟩ := heq
    swap
    · have hlength := congrArg List.length hid
      rw [List.length_append, List.length_map, List.length_map] at hlength
      omega
    obtain _ | ⟨v, as⟩ := as
    · have hlength := congrArg List.length hid
      rw [List.append_nil, List.length_map, List.length_map] at hlength
      omega
    -- the values after the shorter identifier are bytes of the longer one
    rw [List.cons_append, List.cons_eq_cons] at hrest
    obtain ⟨rfl, htext⟩ := hrest
    obtain ⟨pre, tail, hbytes, hpre, htail⟩ := List.map_eq_append_iff.mp hid
    obtain ⟨b, between, rfl, hb, rfl⟩ := List.map_eq_cons_iff.mp htail
    obtain ⟨left, right, htextBytes, hleft, hright⟩ := List.map_eq_append_iff.mp htext
    obtain ⟨b', text, rfl, hb', htextEq⟩ := List.map_eq_cons_iff.mp hright
    have hpre : pre = p.documentId.bytes := map_toUInt64_injective hpre
    have hleft : left = between := map_toUInt64_injective hleft
    have htextEq : text = q.text := map_toUInt64_injective htextEq
    subst hpre hleft htextEq
    exact ⟨b, b', _, hb.symm, hb'.symm, hbytes, htextBytes⟩
  · rintro ⟨b, b', between, hb, hb', hid, htext⟩
    rw [material, material, hid, htext, hb, hb', List.map_append, List.map_append, List.map_cons, List.map_cons,
      List.append_assoc, List.cons_append]

theorem runsInto_length {p q : PassageKey} (h : p.RunsInto q) :
    p.documentId.bytes.length < q.documentId.bytes.length := by
  obtain ⟨b, b', between, -, -, hid, -⟩ := h
  rw [hid, List.length_append, List.length_cons]
  omega

/-- With identifiers of the same length everything is in its place. -/
theorem eq_of_material_eq {p q : PassageKey} (hlength : p.documentId.bytes.length = q.documentId.bytes.length)
    (h : p.material = q.material) : p = q := by
  obtain ⟨⟨id, hid⟩, ordinal, text⟩ := p
  obtain ⟨⟨id', hid'⟩, ordinal', text'⟩ := q
  obtain ⟨hids, hrest⟩ := List.append_inj h (by rw [List.length_map, List.length_map]; exact hlength)
  rw [List.cons_eq_cons] at hrest
  obtain ⟨hordinal, htext⟩ := hrest
  obtain rfl : id = id' := map_toUInt64_injective hids
  obtain rfl : text = text' := map_toUInt64_injective htext
  obtain rfl : ordinal = ordinal' := by
    have hvalue : ordinal.toUInt64.toNat = ordinal'.toUInt64.toNat := congrArg UInt64.toNat hordinal
    rw [UInt32.toNat_toUInt64, UInt32.toNat_toUInt64] at hvalue
    exact UInt32.toNat_inj.mp hvalue
  rfl

/-- **When two passages are different material**: unless the identifier of one of them runs on through the ordinal
and the text of the other. -/
theorem passage_material_iff {p q : PassageKey} (hne : p ≠ q) :
    p.material ≠ q.material ↔ ¬ p.RunsInto q ∧ ¬ q.RunsInto p := by
  rcases Nat.lt_trichotomy p.documentId.bytes.length q.documentId.bytes.length with hlt | heq | hgt
  · have hother : ¬ q.RunsInto p := fun h => by
      have := runsInto_length h
      omega
    rw [ne_eq, material_eq_iff_of_length_lt hlt, and_iff_left hother]
  · have hsame : ∀ x y : PassageKey, x.documentId.bytes.length = y.documentId.bytes.length → ¬ x.RunsInto y := by
      intro x y hxy h
      have := runsInto_length h
      omega
    exact iff_of_true (fun h => hne (eq_of_material_eq heq h)) ⟨hsame p q heq, hsame q p heq.symm⟩
  · have hother : ¬ p.RunsInto q := fun h => by
      have := runsInto_length h
      omega
    rw [ne_eq, eq_comm, material_eq_iff_of_length_lt hgt, and_iff_right hother]

/-- The first passage of one document, and of another one whose identifier is longer. -/
theorem passage_material_sample :
    (⟨⟨[97], by decide⟩, 0, [98]⟩ : PassageKey).material ≠ (⟨⟨[97, 98], by decide⟩, 0, [99]⟩ : PassageKey).material := by
  refine (passage_material_iff (by decide)).mpr ⟨?_, ?_⟩
  · rintro ⟨b, b', between, hb, -, hid, -⟩
    -- an ordinal of zero would be a NUL inside the other identifier
    have hb : b = 0 := toUInt64_injective hb.symm
    subst hb
    have hmem : (0 : UInt8) ∈ [97] ++ 0 :: between := List.mem_append_right _ List.mem_cons_self
    rw [← show [97, 98] = [97] ++ 0 :: between from hid] at hmem
    exact absurd hmem (by decide)
  · intro h
    exact absurd (runsInto_length h) (by decide)

/-- The chunk of a document whose text is that. -/
def chunkSample (documentId text : Bytes) (ordinal start : Nat) : Chunk :=
  ⟨passageId (passageHash documentId ordinal text), text, ordinal, start, start + text.length⟩

/-- The second chunk of the document `a`, and of the document `a\x01x`. -/
theorem passage_material_shared : ¬ ∀ (icu : Icu) (p q : PassageKey), p.Hashed icu → q.Hashed icu → p ≠ q →
    p.material ≠ q.material := by
  intro h
  have hp : Hashed plainIcu ⟨⟨[97], by decide⟩, 1, [120, 1, 121]⟩ :=
    ⟨[97, 98, 99, 120, 1, 121], 3, 0, [chunkSample [97] [97, 98, 99] 0 0, chunkSample [97] [120, 1, 121] 1 3], rfl, _,
      List.mem_cons_of_mem _ List.mem_cons_self, rfl, rfl⟩
  have hq : Hashed plainIcu ⟨⟨[97, 1, 120], by decide⟩, 1, [121]⟩ :=
    ⟨[97, 98, 99, 121], 3, 0, [chunkSample [97, 1, 120] [97, 98, 99] 0 0, chunkSample [97, 1, 120] [121] 1 3], rfl, _,
      List.mem_cons_of_mem _ List.mem_cons_self, rfl, rfl⟩
  exact h _ _ _ hp hq (by decide) (by decide +kernel)

end PassageKey

end Yappod

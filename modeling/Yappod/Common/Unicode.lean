import Yappod.Common.Types

/-!
# Chunking and tokenising

`YAP_V2_unicode_chunk` and `YAP_V2_unicode_tokenize`.  What ICU does for them — normalisation and
the search for text boundaries — is the parameter `Icu`; the loops that turn boundaries into chunks
and the passage identifiers (`passageHash`) are the program's own.

ICU works on UTF-16 and the program keeps tables from UTF-16 offsets to byte and character
offsets.  Break iterators only stop between characters, so here every offset counts characters
and the byte offsets are read off the characters themselves.
-/

set_option autoImplicit false

namespace Yappod

/-- What the program asks of ICU. -/
structure Icu where
  /-- Decode UTF-8 and normalise by NFKC case folding; `none` when the bytes are not UTF-8. -/
  normalize : Bytes → Option (List Char)
  /-- The boundaries between user-perceived characters, in increasing order. -/
  graphemes : List Char → List Nat
  /-- The boundaries between sentences, in increasing order. -/
  sentences : List Char → List Nat
  /-- The words, as half-open ranges in increasing order. -/
  words : List Char → List (Nat × Nat)
  /-- Is the character white space? -/
  isWhiteSpace : Char → Bool

/-- The UTF-8 bytes of a run of characters. -/
def utf8 (text : List Char) : Bytes := text.flatMap String.utf8EncodeChar

/-- The characters from `start` to `stop`. -/
def slice (text : List Char) (start stop : Nat) : List Char := (text.take stop).drop start

/-! ## Passage identifiers -/

/-- One step of FNV-1a over 64 bits. -/
def fnvStep (hash : UInt64) (value : UInt64) : UInt64 := (hash ^^^ value) * 1099511628211

def fnvOffset : UInt64 := 1469598103934665603

/-- FNV-1a over a byte string. -/
def fnvBytes (hash : UInt64) (bytes : Bytes) : UInt64 :=
  bytes.foldl (fun h b => fnvStep h b.toUInt64) hash

/-- The hash of a passage: the document identifier, the ordinal, the text. -/
def passageHash (documentId : Bytes) (ordinal : Nat) (text : Bytes) : UInt64 :=
  fnvBytes (fnvStep (fnvBytes fnvOffset documentId) ordinal.toUInt64) text

/-- A lower-case hexadecimal digit. -/
def hexDigit (n : Nat) : UInt8 := if n < 10 then (48 + n).toUInt8 else (87 + n).toUInt8

/-- `"p-%016llx"`. -/
def passageId (hash : UInt64) : Bytes :=
  [112, 45] ++ (List.range 16).map fun i => hexDigit (hash.toNat / 16 ^ (15 - i) % 16)

/-! ## Chunking -/

/-- One chunk of a document body. -/
structure Chunk where
  id : Bytes
  text : Bytes
  ordinal : Nat
  startChar : Nat
  endChar : Nat
  deriving DecidableEq, Repr

/-- Where the chunk that starts at `start` ends: after as many graphemes as fit, and there at the
last sentence boundary, if there is one. -/
def chunkEnd (graphemes sentences : List Nat) (maxChars start : Nat) : Nat :=
  let following := graphemes.filter (start < ·)
  let fitting := following.takeWhile fun c => c - start ≤ maxChars
  -- a single grapheme longer than the limit is taken whole
  let limit := fitting.getLast?.getD (following.head?.getD start)
  ((sentences.filter (start < ·)).takeWhile (· ≤ limit)).getLast?.getD limit

/-- Where the next chunk starts: as many graphemes before `stop` as the overlap asks for, but after
`start`. -/
def chunkNext (graphemes : List Nat) (overlapChars start stop : Nat) : Nat :=
  let preceding := ((graphemes.filter fun b => start < b ∧ b < stop).reverse)
  let rec back : Nat → List Nat → Nat
    | at', [] => at'
    | at', b :: bs => if stop - at' < overlapChars then back b bs else at'
  back stop preceding

/-- The chunking loop; every round moves `start` forward, so the length of the text is fuel
enough. -/
def chunkLoop (icu : Icu) (documentId : Bytes) (text : List Char) (graphemes sentences : List Nat)
    (maxChars overlapChars : Nat) : Nat → Nat → List Chunk → List Chunk
  | 0, _, chunks => chunks
  | fuel + 1, start, chunks =>
    if text.length ≤ start then chunks
    else
      let stop := chunkEnd graphemes sentences maxChars start
      if (slice text start stop).all icu.isWhiteSpace then
        if stop = text.length then chunks
        else chunkLoop icu documentId text graphemes sentences maxChars overlapChars fuel stop chunks
      else
        let bytes := utf8 (slice text start stop)
        let ordinal := chunks.length
        let chunk : Chunk :=
          ⟨passageId (passageHash documentId ordinal bytes), bytes, ordinal, start, stop⟩
        if stop = text.length then chunks ++ [chunk]
        else
          chunkLoop icu documentId text graphemes sentences maxChars overlapChars fuel
            (chunkNext graphemes overlapChars start stop) (chunks ++ [chunk])

/-- `YAP_V2_unicode_chunk`. -/
def unicodeChunk (icu : Icu) (documentId body : Bytes) (maxChars overlapChars : Nat) :
    Except Status (List Chunk) :=
  if documentId = [] ∨ maxChars = 0 ∨ maxChars ≤ overlapChars then .error .invalidArgument
  else
    match icu.normalize body with
    | none => .error .invalidFormat
    | some text =>
      .ok (chunkLoop icu documentId text (icu.graphemes text) (icu.sentences text) maxChars
        overlapChars (text.length + 1) 0 [])

/-! The ordinals of the chunks count them. -/

theorem ordinal_snoc {chunks : List Chunk} {c : Chunk}
    (h : chunks.map (·.ordinal) = List.range chunks.length) (hc : c.ordinal = chunks.length) :
    (chunks ++ [c]).map (·.ordinal) = List.range (chunks ++ [c]).length := by
  rw [List.map_append, h, List.length_append, List.length_singleton, List.range_succ,
    List.map_singleton, hc]

theorem chunkLoop_ordinal (icu : Icu) (documentId : Bytes) (text : List Char)
    (graphemes sentences : List Nat) (maxChars overlapChars fuel start : Nat)
    (chunks : List Chunk) (h : chunks.map (·.ordinal) = List.range chunks.length) :
    let out := chunkLoop icu documentId text graphemes sentences maxChars overlapChars fuel start
      chunks
    out.map (·.ordinal) = List.range out.length := by
  induction fuel generalizing start chunks with
  | zero => exact h
  | succ fuel ih =>
    rw [chunkLoop]
    split
    · exact h
    · dsimp only
      split
      · split
        · exact h
        · exact ih _ _ h
      · split
        · exact ordinal_snoc h rfl
        · exact ih _ _ (ordinal_snoc h rfl)

/-- **The chunks of a document are numbered from zero.** -/
theorem unicodeChunk_ordinal {icu : Icu} {documentId body : Bytes} {maxChars overlapChars : Nat}
    {chunks : List Chunk} (h : unicodeChunk icu documentId body maxChars overlapChars = .ok chunks) :
    chunks.map (·.ordinal) = List.range chunks.length := by
  unfold unicodeChunk at h
  split at h
  · cases h
  · split at h
    · cases h
    · cases h
      exact chunkLoop_ordinal _ _ _ _ _ _ _ _ _ _ rfl

/-! ## Tokens -/

/-- `YAP_V2_unicode_tokenize`: the words of a text, in order. -/
def unicodeTokenize (icu : Icu) (text : Bytes) : Except Status (List Bytes) :=
  match icu.normalize text with
  | none => .error .invalidFormat
  | some chars => .ok ((icu.words chars).map fun w => utf8 (slice chars w.1 w.2))

/-! ## ICU on plain text

What ICU does on texts of small ASCII letters, digits and control characters, which is enough for
the runs below: nothing is folded, every character is a grapheme of its own, there is one sentence,
and the words are the runs of letters and digits. -/

/-- The runs of letters and digits, from the `i`-th character on, in a word since `start`. -/
def plainWords : Nat → Option Nat → List Char → List (Nat × Nat)
  | i, start, [] => (start.map fun b => (b, i)).toList
  | i, start, c :: cs =>
    if c.isAlphanum then plainWords (i + 1) (start.or (some i)) cs
    else (start.map fun b => (b, i)).toList ++ plainWords (i + 1) none cs

def plainIcu : Icu where
  normalize text := if text.all (· < 128) then some (text.map fun b => Char.ofNat b.toNat) else none
  graphemes text := List.range (text.length + 1)
  sentences text := [0, text.length]
  words text := plainWords 0 none text
  isWhiteSpace c := c.isWhitespace

end Yappod

import Yappod.Config.Sha256
import Yappod.Lib.JsonValue
import Yappod.Server.CoreHttp

/-!
# Pages of a search and their cursors

`QUERY /v2/search` answers with one page, and with a cursor if there is more.  The cursor says in plain text where
the page ended, and carries a digest that ties it to the generation and to the search (`cursorText`).

The two ends of a cursor have limits of their own.  `cursor_decode` takes no offset above 10000, while
`http_execute_loaded` serves a page as long as the page and the hit after it end at 10101 or before, and it hands out
a cursor for the end of that page.  What holds of a cursor is therefore a matter of how deep the chain of pages has
come: the cursor of the `n`-th page (counted from zero) stands for `(n + 1) * limit`, and it is taken exactly if that
is at most 10000 (`next_cursor_followed`).
-/

set_option autoImplicit false

namespace Yappod

/-! ## Cursors -/

/-- `YAP_V2_CURSOR_MAX_OFFSET`. -/
def cursorMaxOffset : Nat := 10000

/-- The table `digits` of `hex_encode`. -/
def lowerHexDigit (n : UInt8) : UInt8 := if n < 10 then 48 + n else 87 + n

/-- `hex_encode`. -/
def hexEncode (digest : Bytes) : Bytes :=
  digest.flatMap fun b : UInt8 => [lowerHexDigit (b >>> 4), lowerHexDigit (b &&& 15)]

/-- `cursor_digest`: generation and offset are written with their highest byte first. -/
def cursorDigest (generation : UInt64) (queryDigest : Bytes) (offset : Nat) : Bytes :=
  hexEncode (sha256Bytes
    ((leBytes 8 generation.toNat).reverse ++ queryDigest ++ (leBytes 8 (offset % 2 ^ 64)).reverse))

/-- The text `v1.%llu.%zu.%s` of a cursor. -/
def cursorText (generation : UInt64) (queryDigest : Bytes) (offset : Nat) : Bytes :=
  ascii "v1." ++ decimal generation.toNat ++ 46 :: decimal offset ++ 46 :: cursorDigest generation queryDigest offset

/-- `cursor_encode`: `snprintf` needs room for the text and its NUL. -/
def cursorEncode (generation : UInt64) (queryDigest : Bytes) (offset capacity : Nat) : Option Bytes :=
  let written := cursorText generation queryDigest offset
  if capacity ≤ written.length then none else some written

def isDigit (b : UInt8) : Bool := 48 ≤ b ∧ b ≤ 57

/-- The set of the conversion `%64[0-9a-f]`. -/
def isHexDigit (b : UInt8) : Bool := isDigit b ∨ (97 ≤ b ∧ b ≤ 102)

/-- Literal text in a format of `sscanf`. -/
def scanLiteral (literal bs : Bytes) : Option Bytes :=
  if literal <+: bs then some (bs.drop literal.length) else none

/-- `%llu`: white space, a sign and digits, with the value of `strtoull`. -/
def scanUnsigned (bs : Bytes) : Option (Nat × Bytes) :=
  let text := bs.dropWhile isSpace
  let unsigned := if text.head? = some 43 ∨ text.head? = some 45 then text.tail else text
  let digits := unsigned.takeWhile isDigit
  let value := decimalValue digits
  if digits = [] then none
  else
    -- a value out of range is the greatest one, and a negative one wraps around
    some (if uint64Max < value then uint64Max
      else if text.head? = some 45 then (2 ^ 64 - value) % 2 ^ 64 else value, unsigned.drop digits.length)

/-- `%64[0-9a-f]`. -/
def scanDigest (bs : Bytes) : Option (Bytes × Bytes) :=
  let digest := (bs.takeWhile isHexDigit).take 64
  if digest = [] then none else some (digest, bs.drop digest.length)

/-- `sscanf(cursor, "v1.%llu.%llu.%64[0-9a-f]%c", …) == 3`: `%c` finds nothing after the digest. -/
def scanCursor (cursor : Bytes) : Option (Nat × Nat × Bytes) := do
  let rest ← scanLiteral (ascii "v1.") cursor
  let (generation, rest) ← scanUnsigned rest
  let rest ← scanLiteral [46] rest
  let (offset, rest) ← scanUnsigned rest
  let rest ← scanLiteral [46] rest
  let (digest, rest) ← scanDigest rest
  if rest = [] then some (generation, offset, digest) else none

/-- `cursor_decode`, of a string that ends at its first NUL. -/
def cursorDecode (cursor : Bytes) (expectedGeneration : UInt64) (queryDigest : Bytes) : Option Nat := do
  let (generation, parsedOffset, digest) ← scanCursor (cursor.takeWhile (· ≠ 0))
  if digest.length ≠ 64 ∨ generation ≠ expectedGeneration.toNat ∨ cursorMaxOffset < parsedOffset then none
  else if digest ≠ cursorDigest expectedGeneration queryDigest parsedOffset then none
  else some parsedOffset

/-! ### What `cursor_encode` writes, `cursor_decode` reads -/

/-- What holds of all 256 bytes. -/
theorem forall_byte {p : UInt8 → Prop} (h : ∀ n : Fin 256, p (UInt8.ofFin n)) (b : UInt8) : p b := h b.toFin

theorem isDigit_of_mem_decimal {n : Nat} {b : UInt8} (h : b ∈ decimal n) : isDigit b := by
  obtain ⟨hlow, hhigh⟩ := mem_decimalDigits h
  rw [isDigit, decide_eq_true_eq, UInt8.le_iff_toNat_le, UInt8.le_iff_toNat_le]
  exact ⟨hlow, hhigh⟩

/-- A digit is neither white space nor a sign. -/
theorem plain_of_isDigit : ∀ b : UInt8, isDigit b → isSpace b = false ∧ b ≠ 43 ∧ b ≠ 45 ∧ b ≠ 0 :=
  forall_byte (by decide +kernel)

theorem scanUnsigned_decimal {n : Nat} {rest : Bytes} (hn : n ≤ uint64Max)
    (hrest : ∀ b ∈ rest.head?, isDigit b = false) : scanUnsigned (decimal n ++ rest) = some (n, rest) := by
  have hdigits : ∀ b ∈ decimal n, isDigit b := fun b => isDigit_of_mem_decimal
  have htake : (decimal n ++ rest).takeWhile isDigit = decimal n := by
    rw [List.takeWhile_append_of_pos hdigits]
    cases rest with
    | nil => exact List.append_nil _
    | cons b rest => rw [List.takeWhile_cons_of_neg (by rw [hrest b rfl]; exact Bool.false_ne_true), List.append_nil]
  have hne : decimal n ≠ [] := List.ne_nil_of_length_pos (length_decimal_pos n)
  obtain ⟨b, bs, hb⟩ := List.exists_cons_of_ne_nil hne
  obtain ⟨hspace, hplus, hminus, -⟩ := plain_of_isDigit _ (hdigits b (by rw [hb]; exact List.mem_cons_self))
  have hdrop : (decimal n ++ rest).dropWhile isSpace = decimal n ++ rest := by
    rw [hb, List.cons_append, List.dropWhile_cons_of_neg (by rw [hspace]; exact Bool.false_ne_true)]
  have hhead : (decimal n ++ rest).head? = some b := by rw [hb]; rfl
  have hsign : ¬ ((decimal n ++ rest).head? = some 43 ∨ (decimal n ++ rest).head? = some 45) := by
    rw [hhead, Option.some.injEq, Option.some.injEq]
    exact fun h => h.elim hplus hminus
  rw [scanUnsigned]
  simp only [hdrop, if_neg hsign, htake, if_neg hne, decimalValue_decimal, if_neg (Nat.not_lt.mpr hn),
    if_neg (fun h => hsign (.inr h)), List.drop_left]

theorem scanLiteral_append (literal rest : Bytes) : scanLiteral literal (literal ++ rest) = some rest := by
  rw [scanLiteral, if_pos (List.prefix_append literal rest), List.drop_left]

theorem isHexDigit_lowerHexDigit : ∀ n : UInt8, n < 16 → isHexDigit (lowerHexDigit n) :=
  forall_byte (by decide +kernel)

theorem nibbles_lt : ∀ b : UInt8, b >>> 4 < 16 ∧ b &&& 15 < 16 := forall_byte (by decide +kernel)

theorem isHexDigit_of_mem_hexEncode {digest : Bytes} {b : UInt8} (h : b ∈ hexEncode digest) : isHexDigit b := by
  obtain ⟨d, -, hd⟩ := List.mem_flatMap.mp h
  rcases List.mem_cons.mp hd with rfl | hd
  · exact isHexDigit_lowerHexDigit _ (nibbles_lt d).1
  · rw [List.mem_singleton.mp hd]
    exact isHexDigit_lowerHexDigit _ (nibbles_lt d).2

theorem length_hexEncode (digest : Bytes) : (hexEncode digest).length = 2 * digest.length := by
  rw [Nat.mul_comm]
  exact @length_flatMap_records UInt8 _ 2 (fun _ => rfl) digest

theorem length_cursorDigest (generation : UInt64) (queryDigest : Bytes) (offset : Nat) :
    (cursorDigest generation queryDigest offset).length = 64 := by
  rw [cursorDigest, length_hexEncode, length_sha256Bytes]

/-- A digest of 64 digits at the end of the text is read whole. -/
theorem scanDigest_hexEncode {digest : Bytes} (h : (hexEncode digest).length = 64) :
    scanDigest (hexEncode digest) = some (hexEncode digest, []) := by
  have htake : ((hexEncode digest).takeWhile isHexDigit).take 64 = hexEncode digest := by
    rw [List.takeWhile_eq_self_iff.mpr fun b => isHexDigit_of_mem_hexEncode, List.take_of_length_le (Nat.le_of_eq h)]
  have hne : hexEncode digest ≠ [] := List.ne_nil_of_length_pos (by omega)
  rw [scanDigest]
  simp only [htake, if_neg hne, List.drop_length]

section RoundTrip

variable (generation : UInt64) (queryDigest : Bytes) (offset : Nat)

theorem scanCursor_cursorText (h : offset ≤ uint64Max) :
    scanCursor (cursorText generation queryDigest offset) =
      some (generation.toNat, offset, cursorDigest generation queryDigest offset) := by
  have hdot : ∀ (rest : Bytes), ∀ b ∈ ([46] ++ rest).head?, isDigit b = false := by
    intro rest b hb
    rw [← Option.some.inj hb]
    rfl
  have hgeneration : generation.toNat ≤ uint64Max := Nat.le_pred_of_lt generation.toNat_lt
  have htext : cursorText generation queryDigest offset = ascii "v1." ++ (decimal generation.toNat ++
      ([46] ++ (decimal offset ++ ([46] ++ cursorDigest generation queryDigest offset)))) := by
    simp only [cursorText, List.append_assoc, List.cons_append, List.nil_append]
  rw [htext, scanCursor, scanLiteral_append]
  simp only [Option.bind_eq_bind, Option.bind_some]
  rw [scanUnsigned_decimal hgeneration (hdot _)]
  simp only [Option.bind_some, scanLiteral_append]
  rw [scanUnsigned_decimal h (hdot _)]
  simp only [Option.bind_some, scanLiteral_append]
  rw [cursorDigest, scanDigest_hexEncode (length_cursorDigest generation queryDigest offset)]
  rfl

theorem nul_notMem_cursorText : ∀ b ∈ cursorText generation queryDigest offset, b ≠ 0 := by
  have hhex : ∀ b : UInt8, isHexDigit b → b ≠ 0 := forall_byte (by decide +kernel)
  intro b hb
  simp only [cursorText, List.append_assoc, List.mem_append, List.cons_append, List.mem_cons] at hb
  rcases hb with hb | hb | rfl | hb | rfl | hb
  · revert hb
    revert b
    exact forall_byte (by decide +kernel)
  · exact (plain_of_isDigit _ (isDigit_of_mem_decimal hb)).2.2.2
  · decide
  · exact (plain_of_isDigit _ (isDigit_of_mem_decimal hb)).2.2.2
  · decide
  · exact hhex b (isHexDigit_of_mem_hexEncode hb)

/-- **A cursor is taken for what it stands for, if that is not beyond the limit.** -/
theorem cursorDecode_cursorText (h : offset ≤ uint64Max) :
    cursorDecode (cursorText generation queryDigest offset) generation queryDigest =
      if offset ≤ cursorMaxOffset then some offset else none := by
  have hwhole : (cursorText generation queryDigest offset).takeWhile (· ≠ 0) =
      cursorText generation queryDigest offset :=
    List.takeWhile_eq_self_iff.mpr fun b hb => decide_eq_true (nul_notMem_cursorText generation queryDigest offset b hb)
  rw [cursorDecode, hwhole, scanCursor_cursorText generation queryDigest offset h]
  simp only [Option.bind_eq_bind, Option.bind_some, length_cursorDigest, ne_eq, not_true_eq_false, false_or, if_false]
  by_cases hoffset : offset ≤ cursorMaxOffset
  · rw [if_neg (Nat.not_lt.mpr hoffset), if_pos hoffset]
  · rw [if_pos (Nat.lt_of_not_le hoffset), if_neg hoffset]

/-- The buffer of `make_response` has room for every cursor. -/
theorem cursorEncode_eq (h : offset ≤ uint64Max) :
    cursorEncode generation queryDigest offset 160 = some (cursorText generation queryDigest offset) := by
  have hdecimal : ∀ n, n ≤ uint64Max → (decimal n).length ≤ 20 := fun n hn =>
    length_decimalDigits_le (Nat.lt_of_le_of_lt hn (by decide))
  have hgeneration := hdecimal generation.toNat (Nat.le_pred_of_lt generation.toNat_lt)
  have hoffset := hdecimal offset h
  have hdigest := length_cursorDigest generation queryDigest offset
  have hhead : (ascii "v1.").length = 3 := rfl
  rw [cursorEncode]
  refine if_neg ?_
  simp only [cursorText, List.length_append, List.length_cons]
  omega

end RoundTrip

/-! ## Pages -/

/-- A search as `parse_request` accepts it, less its cursor: the conditions (mode, scope, query, vector, filter,
operator and phrase), which only the query looks into, and the limit. -/
structure SearchRequest (Q : Type) where
  conditions : Q
  limit : Nat
  limit_pos : 0 < limit
  limit_le : limit ≤ 100

/-- What a page is made from, for one snapshot: the conditions `Q` of a search, the hits `H` and what a page shows
of them, `V`. -/
structure SearchRuntime (Q H V : Type) where
  generation : UInt64
  /-- `request_fingerprint`, of the conditions and the limit. -/
  requestFingerprint : Q → Nat → Bytes
  /-- `YAP_V2_query_execute_with_ann`, with `top_k` and `candidate_k`. -/
  queryExecute : Q → Nat → Nat → Except Status (List H)
  /-- `search_result_views`. -/
  searchResultViews : Q → H → Except Status V

/-- The answer to a search that succeeds.  The offset is where the page starts; a client does not see it. -/
structure Page (V : Type) where
  offset : Nat
  results : List V
  nextCursor : Option Bytes

/-- Where the page ended. -/
def Page.ended {V : Type} (p : Page V) : Nat := p.offset + p.results.length

inductive SearchAnswer (V : Type)
  | page (p : Page V)
  /-- Status 400, `invalid_request`. -/
  | invalidRequest
  /-- Status 503, `search_unavailable`. -/
  | unavailable

section Pages

variable {Q H V N : Type} (runtime : SearchRuntime Q H V) (r : SearchRequest Q)

/-- The `query_digest` of a search. -/
def SearchRuntime.queryDigest : Bytes := runtime.requestFingerprint r.conditions r.limit

/-- `make_response` for a search: the page is `hits`, and there is more after it or not. -/
def makeResponse (offset : Nat) (hits : List H) (hasMore : Bool) (nextOffset : Nat) : SearchAnswer V :=
  let cursor :=
    if hasMore then (cursorEncode runtime.generation (runtime.queryDigest r) nextOffset 160).map some else some none
  match cursor, hits.mapM (runtime.searchResultViews r.conditions) with
  | some nextCursor, .ok results => .page ⟨offset, results, nextCursor⟩
  | _, _ => .unavailable

/-- `http_execute_loaded` for a search, from the offset on. -/
def searchFrom (offset : Nat) : SearchAnswer V :=
  let executionLimit := offset + r.limit + 1
  if cursorMaxOffset + 101 < executionLimit then .invalidRequest
  else
    match runtime.queryExecute r.conditions executionLimit (if executionLimit < 100 then 100 else executionLimit) with
    | .error status => if status = .invalidArgument ∨ status = .invalidFormat then .invalidRequest else .unavailable
    | .ok hits =>
      if hits.length < offset then .invalidRequest
      else
        let pageCount := if hits.length - offset < r.limit then hits.length - offset else r.limit
        makeResponse runtime r offset ((hits.drop offset).take pageCount) (offset + pageCount < hits.length)
          (offset + pageCount)

/-- `http_execute_loaded` for a search, with the member `cursor` of its body. -/
def httpSearch (cursor : Option (JsonValue N)) : SearchAnswer V :=
  match cursor with
  | none => searchFrom runtime r 0
  | some (.string text) =>
    match cursorDecode text runtime.generation (runtime.queryDigest r) with
    | none => .invalidRequest
    | some offset => searchFrom runtime r offset
  | some _ => .invalidRequest

end Pages

/-! ## Chains of pages -/

section Chains

variable {Q H V N : Type} (runtime : SearchRuntime Q H V) (r : SearchRequest Q)

/-- The page after `n` cursors were followed, starting without one, while the generation stays the same. -/
inductive Followed : Nat → Page V → Prop
  | first {p : Page V} : httpSearch (N := N) runtime r none = .page p → Followed 0 p
  | next {n : Nat} {p p' : Page V} {c : Bytes} : Followed n p → p.nextCursor = some c →
    httpSearch (N := N) runtime r (some (.string c)) = .page p' → Followed (n + 1) p'

/-- Asked for more, the query neither starts to refuse the search nor finds less. -/
def SearchRuntime.Deepens (q : Q) : Prop :=
  ∀ k k' hits, k ≤ k' → runtime.queryExecute q k (if k < 100 then 100 else k) = .ok hits →
    match runtime.queryExecute q k' (if k' < 100 then 100 else k') with
    | .ok hits' => hits.length ≤ hits'.length
    | .error status => status ≠ .invalidArgument ∧ status ≠ .invalidFormat

variable {runtime r}

/-- A page comes from hits that reach beyond it, if it has a cursor. -/
structure PageOf (runtime : SearchRuntime Q H V) (r : SearchRequest Q) (offset : Nat) (p : Page V) : Prop where
  offset_eq : p.offset = offset
  limit : offset + r.limit + 1 ≤ cursorMaxOffset + 101
  more : ∀ c, p.nextCursor = some c → p.ended = offset + r.limit ∧
    c = cursorText runtime.generation (runtime.queryDigest r) (offset + r.limit) ∧
    ∃ hits, runtime.queryExecute r.conditions (offset + r.limit + 1)
      (if offset + r.limit + 1 < 100 then 100 else offset + r.limit + 1) = .ok hits ∧ offset + r.limit < hits.length

theorem makeResponse_eq_page {offset nextOffset : Nat} {hits : List H} {hasMore : Bool} {p : Page V}
    (hnext : nextOffset ≤ uint64Max) (h : makeResponse runtime r offset hits hasMore nextOffset = .page p) :
    p.offset = offset ∧ p.results.length = hits.length ∧
      p.nextCursor =
        if hasMore then some (cursorText runtime.generation (runtime.queryDigest r) nextOffset) else none := by
  rw [makeResponse, cursorEncode_eq _ _ _ hnext] at h
  cases hviews : hits.mapM (runtime.searchResultViews r.conditions) with
  | error status =>
    rw [hviews] at h
    cases hasMore <;> exact nomatch h
  | ok results =>
    rw [hviews] at h
    have hp : p = ⟨offset, results, if hasMore then some (cursorText runtime.generation (runtime.queryDigest r)
        nextOffset) else none⟩ := by
      cases hasMore <;> exact (SearchAnswer.page.inj h).symm
    rw [hp]
    exact ⟨rfl, length_of_mapM_eq_ok hviews, rfl⟩

theorem searchFrom_eq_page {offset : Nat} {p : Page V} (h : searchFrom runtime r offset = .page p) :
    PageOf runtime r offset p := by
  rw [searchFrom] at h
  split at h
  · exact nomatch h
  rename_i hlimit
  split at h
  · split at h <;> exact nomatch h
  rename_i hits hexecute
  split at h
  · exact nomatch h
  rename_i hreached
  have hle := r.limit_le
  have hbound : offset + r.limit ≤ uint64Max := by
    have : cursorMaxOffset + 101 ≤ uint64Max := by decide
    omega
  set pageCount := if hits.length - offset < r.limit then hits.length - offset else r.limit with hcount
  have hcount_le : pageCount ≤ r.limit ∧ pageCount ≤ hits.length - offset ∧
      (offset + pageCount < hits.length → pageCount = r.limit) := by
    rw [hcount]
    split <;> omega
  obtain ⟨hoffset, hlength, hcursor⟩ := makeResponse_eq_page (by omega) h
  refine ⟨hoffset, by omega, fun c hc => ?_⟩
  rw [hc] at hcursor
  by_cases hmore : offset + pageCount < hits.length
  · rw [if_pos (decide_eq_true hmore), hcount_le.2.2 hmore] at hcursor
    rw [List.length_take, List.length_drop, Nat.min_eq_left hcount_le.2.1, hcount_le.2.2 hmore] at hlength
    refine ⟨by rw [Page.ended, hoffset, hlength], Option.some.inj hcursor, hits, hexecute, ?_⟩
    rw [← hcount_le.2.2 hmore]
    exact hmore
  · rw [if_neg (by rw [decide_eq_true_eq]; exact hmore)] at hcursor
    exact nomatch hcursor

theorem httpSearch_cursor {c : Bytes} :
    httpSearch (N := N) runtime r (some (.string c)) =
      match cursorDecode c runtime.generation (runtime.queryDigest r) with
      | none => .invalidRequest
      | some offset => searchFrom runtime r offset := rfl

/-- **Every page but the last is full**, so the `n`-th starts after `n` limits. -/
theorem Followed.pageOf {n : Nat} {p : Page V} (h : Followed (N := N) runtime r n p) :
    PageOf runtime r (n * r.limit) p := by
  induction h with
  | first h =>
    rw [Nat.zero_mul]
    exact searchFrom_eq_page h
  | @next n p p' c _ hc h ih =>
    obtain ⟨-, rfl, -⟩ := ih.more c hc
    have hlimit := ih.limit
    have hmax : cursorMaxOffset + 101 ≤ uint64Max := by decide
    rw [httpSearch_cursor, cursorDecode_cursorText _ _ _ (by omega)] at h
    split at h
    · exact nomatch h
    · rename_i offset hoffset
      rw [Option.ite_none_right_eq_some] at hoffset
      rw [Nat.succ_mul, Option.some.inj hoffset.2]
      exact searchFrom_eq_page h

theorem searchFrom_ne_invalidRequest {offset : Nat} {hits : List H} (hdeepens : runtime.Deepens r.conditions)
    (hoffset : offset ≤ cursorMaxOffset) {k : Nat} (hk : k ≤ offset + r.limit + 1)
    (hexecute : runtime.queryExecute r.conditions k (if k < 100 then 100 else k) = .ok hits)
    (hreached : offset ≤ hits.length) : searchFrom runtime r offset ≠ .invalidRequest := by
  have hlimit := r.limit_le
  have hdeep := hdeepens k (offset + r.limit + 1) hits hk hexecute
  rw [searchFrom, if_neg (by omega)]
  split
  · rename_i status hstatus
    rw [hstatus] at hdeep
    rw [if_neg (fun h => h.elim hdeep.1 hdeep.2)]
    exact fun h => nomatch h
  · rename_i hits' hhits'
    rw [hhits'] at hdeep
    rw [if_neg (Nat.not_lt.mpr (Nat.le_trans hreached hdeep)), makeResponse]
    split <;> exact fun h => nomatch h

/-- **Which cursors can be followed.**  In every chain of pages, the cursor of the page with number `n` stands for the
place where that page ended, which is `(n + 1) * limit`; it is taken exactly if this is at most 10000, and the search
then goes on from there.  A cursor that is not taken is answered with `invalid_request`, one that is taken never is,
unless the query refuses to look further than it did. -/
theorem next_cursor_followed (runtime : SearchRuntime Q H V) (r : SearchRequest Q) (n : Nat) (p : Page V) (c : Bytes)
    (h : Followed (N := N) runtime r n p) (hc : p.nextCursor = some c) :
    p.ended = (n + 1) * r.limit ∧
      (cursorDecode c runtime.generation (runtime.queryDigest r) = some p.ended ↔
        (n + 1) * r.limit ≤ cursorMaxOffset) ∧
      httpSearch (N := N) runtime r (some (.string c)) =
        (if (n + 1) * r.limit ≤ cursorMaxOffset then searchFrom runtime r p.ended else .invalidRequest) ∧
      (runtime.Deepens r.conditions → (httpSearch (N := N) runtime r (some (.string c)) ≠ .invalidRequest ↔
        (n + 1) * r.limit ≤ cursorMaxOffset)) := by
  obtain ⟨hended, rfl, hits, hexecute, hreached⟩ := h.pageOf.more c hc
  have hlimit := h.pageOf.limit
  have hmax : cursorMaxOffset + 101 ≤ uint64Max := by decide
  rw [httpSearch_cursor, cursorDecode_cursorText _ _ _ (by omega), hended, ← Nat.succ_mul]
  by_cases hoffset : (n + 1) * r.limit ≤ cursorMaxOffset
  · rw [if_pos hoffset, if_pos hoffset]
    refine ⟨rfl, iff_of_true rfl hoffset, rfl, fun hdeepens => iff_of_true ?_ hoffset⟩
    rw [← Nat.succ_mul] at hexecute hreached
    exact searchFrom_ne_invalidRequest hdeepens hoffset (by omega) hexecute (Nat.le_of_lt hreached)
  · rw [if_neg hoffset, if_neg hoffset]
    exact ⟨rfl, iff_of_false (fun h => nomatch h) hoffset, rfl,
      fun _ => iff_of_false (fun h => h rfl) hoffset⟩

end Chains

/-- A search for "apple" that finds 20000 documents. -/
def appleRuntime : SearchRuntime Unit Nat Nat where
  generation := 7
  requestFingerprint _ limit := sha256Bytes (
    ascii "\x7b\"mode\":1,\"scope\":1,\"operator\":1,\"phrase\":false,\"limit\":" ++ decimal limit ++
    ascii ",\"query\":\"apple\",\"vector\":[],\"filter\":null\x7d")
  queryExecute _ topK _ := .ok (List.range (min topK 20000))
  searchResultViews _ hit := .ok hit

def appleRequest : SearchRequest Unit where
  conditions := ()
  limit := 100
  limit_pos := by decide
  limit_le := by decide

/-- The text of its cursors. -/
def appleCursor (offset : Nat) : Bytes := cursorText 7 (appleRuntime.queryDigest appleRequest) offset

theorem mapM_ok {A E : Type} (as : List A) : as.mapM (fun a => (.ok a : Except E A)) = .ok as := by
  induction as with
  | nil => rfl
  | cons a as ih =>
    rw [List.mapM_cons, ih]
    rfl

theorem searchFrom_apple {offset : Nat} (h : offset ≤ cursorMaxOffset) :
    ∃ p, searchFrom appleRuntime appleRequest offset = .page p ∧ p.nextCursor = some (appleCursor (offset + 100)) := by
  have hmax : cursorMaxOffset = 10000 := rfl
  have hlimit : appleRequest.limit = 100 := rfl
  have hlength : (List.range (min (offset + 100 + 1) 20000)).length = offset + 100 + 1 := by
    rw [List.length_range]
    omega
  refine ⟨⟨offset, ((List.range (min (offset + 100 + 1) 20000)).drop offset).take 100,
    some (appleCursor (offset + 100))⟩, ?_, rfl⟩
  simp only [searchFrom, appleRuntime, hlimit]
  rw [if_neg (by omega), hlength, if_neg (by omega), if_neg (by omega), decide_eq_true (by omega), makeResponse]
  rw [cursorEncode_eq _ _ _ (Nat.le_trans (by omega : offset + 100 ≤ 10101) (by decide)), mapM_ok]
  rfl

/-- The chain of its pages, as far as the cursors are taken. -/
theorem followed_apple {n : Nat} (h : n * 100 ≤ cursorMaxOffset) :
    ∃ p, Followed (N := Nat) appleRuntime appleRequest n p ∧ p.nextCursor = some (appleCursor ((n + 1) * 100)) := by
  induction n with
  | zero =>
    obtain ⟨p, hp, hc⟩ := searchFrom_apple (Nat.zero_le _)
    exact ⟨p, .first hp, hc⟩
  | succ n ih =>
    obtain ⟨p, hp, hc⟩ := ih (Nat.le_trans (Nat.mul_le_mul_right 100 (Nat.le_succ n)) h)
    obtain ⟨p', hp', hc'⟩ := searchFrom_apple h
    refine ⟨p', .next hp hc ?_, by rw [hc', ← Nat.succ_mul]⟩
    rw [httpSearch_cursor]
    have hdecode : cursorDecode (appleCursor ((n + 1) * 100)) appleRuntime.generation
        (appleRuntime.queryDigest appleRequest) = some ((n + 1) * 100) := by
      refine (cursorDecode_cursorText _ _ _ (Nat.le_trans h (by decide))).trans (if_pos h)
    rw [hdecode]
    exact hp'

theorem next_cursor_followed_sample : ∃ p c, Followed (N := Nat) appleRuntime appleRequest 4 p ∧
    p.nextCursor = some c ∧ p.ended = 500 ∧
    cursorDecode c appleRuntime.generation (appleRuntime.queryDigest appleRequest) = some 500 ∧
    httpSearch (N := Nat) appleRuntime appleRequest (some (.string c)) ≠ .invalidRequest := by
  have hdeepens : appleRuntime.Deepens () := by
    intro k k' hits hk h
    have hhits : hits = List.range (min k 20000) := (Except.ok.inj h).symm
    change hits.length ≤ (List.range (min k' 20000)).length
    rw [hhits, List.length_range, List.length_range]
    omega
  obtain ⟨p, hp, hc⟩ := @followed_apple 4 (by decide)
  obtain ⟨hended, hdecode, -, hanswer⟩ := next_cursor_followed appleRuntime appleRequest 4 p _ hp hc
  have hat : p.ended = 500 := hended
  exact ⟨p, _, hp, hc, hat, by rw [hdecode.mpr (by decide), hat], (hanswer hdeepens).mpr (by decide)⟩

/-- The page with number 100 ends at 10100, and the cursor it comes with is refused. -/
theorem next_cursor_refused : ∃ p c, Followed (N := Nat) appleRuntime appleRequest 100 p ∧
    p.nextCursor = some c ∧
    cursorDecode c appleRuntime.generation (appleRuntime.queryDigest appleRequest) = none ∧
    httpSearch (N := Nat) appleRuntime appleRequest (some (.string c)) = .invalidRequest := by
  obtain ⟨p, hp, hc⟩ := @followed_apple 100 (by decide)
  have hdecode : cursorDecode (appleCursor ((100 + 1) * 100)) appleRuntime.generation
      (appleRuntime.queryDigest appleRequest) = none :=
    (cursorDecode_cursorText _ _ _ (by decide)).trans (if_neg (by decide))
  exact ⟨p, _, hp, hc, hdecode, by rw [httpSearch_cursor, hdecode]⟩

end Yappod

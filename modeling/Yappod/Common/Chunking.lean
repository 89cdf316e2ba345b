import Yappod.Common.Unicode
import Yappod.Lib.Boundaries

/-!
# What the chunks of a text are

`YAP_V2_unicode_chunk` for any two lists of boundaries.  A chunk ends at the last sentence boundary that is in reach, or
at the last grapheme that fits; the next one starts as many graphemes before that end as the overlap asks for, but after
the start of the one before.

* `chunkEnd_spec`, `chunkNext_spec` — one round of the loop.
* `ChunksOf` — what holds of the chunks: they cover all that is not white space, they are not larger than allowed
  unless they lie in one grapheme, their starts increase and their ends do not decrease.
* `unicodeChunk_spec` — the loop comes to its end, with such chunks.

The ends need not increase: after a short sentence the overlap reaches back into it, and the next chunk ends with the
same sentence (`chunk_inside_chunk`).
-/

set_option autoImplicit false

namespace Yappod

/-! ## One round -/

/-- The last element up to which a property holds, in a sorted list. -/
theorem getLast?_takeWhile {p : Nat → Bool} (hp : ∀ x y, x ≤ y → p y = true → p x = true) {l : List Nat}
    (hsorted : l.Pairwise (· < ·)) :
    match (l.takeWhile p).getLast? with
    | none => ∀ x ∈ l, p x = false
    | some m => m ∈ l ∧ p m = true ∧ ∀ x ∈ l, p x = true → x ≤ m := by
  induction l with
  | nil => exact fun x hx => absurd hx List.not_mem_nil
  | cons a l ih =>
    obtain ⟨hlt, hsorted⟩ := List.pairwise_cons.mp hsorted
    cases hpa : p a with
    | false =>
      rw [List.takeWhile_cons_of_neg (by simp [hpa]), List.getLast?_nil]
      refine List.forall_mem_cons.mpr ⟨hpa, fun x hx => ?_⟩
      by_contra hpx
      rw [Bool.not_eq_false] at hpx
      exact absurd (hp a x (Nat.le_of_lt (hlt x hx)) hpx) (by simp [hpa])
    | true =>
      rw [List.takeWhile_cons_of_pos hpa, List.getLast?_cons]
      have ih' := ih hsorted
      cases hlast : (l.takeWhile p).getLast? with
      | none =>
        rw [hlast] at ih'
        refine ⟨List.mem_cons_self, hpa, List.forall_mem_cons.mpr ⟨fun _ => Nat.le_refl a, fun x hx hpx => ?_⟩⟩
        exact absurd hpx (by simp [ih' x hx])
      | some m =>
        rw [hlast] at ih'
        obtain ⟨hm, hpm, hmax⟩ := ih'
        exact ⟨List.mem_cons_of_mem _ hm, hpm,
          List.forall_mem_cons.mpr ⟨fun _ => Nat.le_of_lt (hlt m hm), hmax⟩⟩

variable {length : Nat} {g s : Boundaries length}

/-- As far as the chunk that starts here may reach. -/
structure ChunkLimit (g : Boundaries length) (maxChars start limit : Nat) : Prop where
  mem : limit ∈ g.points
  gt : start < limit
  size : limit - start ≤ maxChars ∨ ∀ x ∈ g.points, x ≤ start ∨ limit ≤ x
  last : ∀ x ∈ g.points, start < x → x - start ≤ maxChars → x ≤ limit

/-- Where it ends, within its limit. -/
inductive ChunkStop (s : Boundaries length) (start limit stop : Nat) : Prop
  | sentence (mem : stop ∈ s.points) (gt : start < stop) (le : stop ≤ limit)
      (last : ∀ x ∈ s.points, x ≤ limit → x ≤ stop)
  | grapheme (eq : stop = limit) (none : ∀ x ∈ s.points, start < x → limit < x)

theorem chunkEnd_spec (g s : Boundaries length) (maxChars : Nat) {start : Nat} (h : start < length) :
    ∃ limit, ChunkLimit g maxChars start limit ∧
      ChunkStop s start limit (chunkEnd g.points s.points maxChars start) := by
  have hlength : length ∈ g.points := List.mem_of_getElem? Boundaries.point_total
  have hsortedG : (g.points.filter (start < ·)).Pairwise (· < ·) := g.sorted.filter _
  have hsortedS : (s.points.filter (start < ·)).Pairwise (· < ·) := s.sorted.filter _
  have hfit := getLast?_takeWhile (p := fun c => decide (c - start ≤ maxChars))
    (fun x y hxy hy => by simp only [decide_eq_true_eq] at hy ⊢; omega) hsortedG
  -- the limit that the first loop finds
  obtain ⟨limit, hlimit, heq⟩ : ∃ limit, ChunkLimit g maxChars start limit ∧
      ((g.points.filter (start < ·)).takeWhile fun c => c - start ≤ maxChars).getLast?.getD
        ((g.points.filter (start < ·)).head?.getD start) = limit := by
    cases hlast : ((g.points.filter (start < ·)).takeWhile fun c => decide (c - start ≤ maxChars)).getLast? with
    | some limit =>
      rw [hlast] at hfit
      obtain ⟨hmem, hsize, hmax⟩ := hfit
      simp only [List.mem_filter, decide_eq_true_eq] at hmem hsize hmax
      exact ⟨limit, ⟨hmem.1, hmem.2, .inl hsize, fun x hx hgt hle => hmax x ⟨hx, hgt⟩ hle⟩, rfl⟩
    | none =>
      rw [hlast] at hfit
      simp only [List.mem_filter, decide_eq_true_eq, decide_eq_false_iff_not] at hfit
      cases hfollowing : g.points.filter (start < ·) with
      | nil =>
        have hmem : length ∈ g.points.filter (start < ·) := List.mem_filter.mpr ⟨hlength, by simpa using h⟩
        rw [hfollowing] at hmem
        exact absurd hmem List.not_mem_nil
      | cons limit rest =>
        have hmem : limit ∈ g.points.filter (start < ·) := by
          rw [hfollowing]
          exact List.mem_cons_self
        have hfirst : ∀ x ∈ g.points, start < x → limit ≤ x := by
          intro x hx hgt
          have hx' : x ∈ g.points.filter (start < ·) := List.mem_filter.mpr ⟨hx, by simpa using hgt⟩
          rw [hfollowing] at hx' hsortedG
          rcases List.mem_cons.mp hx' with rfl | hx'
          · exact Nat.le_refl x
          · exact Nat.le_of_lt ((List.pairwise_cons.mp hsortedG).1 x hx')
        simp only [List.mem_filter, decide_eq_true_eq] at hmem
        refine ⟨limit, ⟨hmem.1, hmem.2, .inr fun x hx => ?_, fun x hx hgt hle => absurd hle (hfit x ⟨hx, hgt⟩)⟩, rfl⟩
        rcases Nat.lt_or_ge start x with hgt | hle
        · exact .inr (hfirst x hx hgt)
        · exact .inl hle
  refine ⟨limit, hlimit, ?_⟩
  have hsentence := getLast?_takeWhile (p := fun c => decide (c ≤ limit))
    (fun x y hxy hy => by simp only [decide_eq_true_eq] at hy ⊢; omega) hsortedS
  rw [chunkEnd, heq]
  cases hlast : ((s.points.filter (start < ·)).takeWhile fun c => decide (c ≤ limit)).getLast? with
  | some stop =>
    rw [hlast] at hsentence
    obtain ⟨hmem, hle, hmax⟩ := hsentence
    simp only [List.mem_filter, decide_eq_true_eq] at hmem hle hmax
    refine .sentence hmem.1 hmem.2 hle fun x hx hle => ?_
    rcases Nat.lt_or_ge start x with hgt | hge
    · exact hmax x ⟨hx, hgt⟩ hle
    · exact Nat.le_trans hge (Nat.le_of_lt hmem.2)
  | none =>
    rw [hlast] at hsentence
    simp only [List.mem_filter, decide_eq_true_eq, decide_eq_false_iff_not, Nat.not_le] at hsentence
    exact .grapheme rfl fun x hx hgt => hsentence x ⟨hx, hgt⟩

/-- The end is a boundary after the start, and not after the limit. -/
theorem ChunkStop.bounds {maxChars start limit stop : Nat} (hlimit : ChunkLimit g maxChars start limit)
    (h : ChunkStop s start limit stop) :
    start < stop ∧ stop ≤ limit ∧ (stop ∈ g.points ∨ stop ∈ s.points) := by
  cases h with
  | sentence mem gt le last => exact ⟨gt, le, .inr mem⟩
  | grapheme eq none => exact ⟨eq ▸ hlimit.gt, Nat.le_of_eq eq, .inl (eq ▸ hlimit.mem)⟩

theorem mem_points_le {x : Nat} (h : x ∈ g.points) : x ≤ length := by
  obtain ⟨i, hi⟩ := List.mem_iff_getElem?.mp h
  exact Boundaries.point_le (Boundaries.index_le_total hi) hi Boundaries.point_total

/-- A chunk that starts inside another one does not end before it. -/
theorem chunkEnd_mono {maxChars start start' : Nat} (h : start < start') (hlt : start' < length)
    (hstop : start' < chunkEnd g.points s.points maxChars start) :
    chunkEnd g.points s.points maxChars start ≤ chunkEnd g.points s.points maxChars start' := by
  obtain ⟨limit, hlimit, hend⟩ := chunkEnd_spec g s maxChars (Nat.lt_trans h hlt)
  obtain ⟨limit', hlimit', hend'⟩ := chunkEnd_spec g s maxChars hlt
  obtain ⟨-, hle, -⟩ := hend.bounds hlimit
  obtain ⟨hgt', -, -⟩ := hend'.bounds hlimit'
  have hreach : limit ≤ limit' := by
    rcases hlimit.size with hsize | hnone
    · exact hlimit'.last limit hlimit.mem (by omega) (by omega)
    · have := hnone limit' hlimit'.mem
      have := hlimit'.gt
      omega
  cases hend with
  | sentence mem gt le last =>
    cases hend' with
    | sentence mem' gt' le' last' => exact last' _ mem (Nat.le_trans le hreach)
    | grapheme eq' none' => exact absurd (none' _ mem hstop) (by omega)
  | grapheme eq none =>
    cases hend' with
    | sentence mem' gt' le' last' =>
      have := none _ mem' (by omega)
      omega
    | grapheme eq' none' => omega

theorem back_mem (overlapChars stop : Nat) (l : List Nat) (x : Nat) :
    chunkNext.back overlapChars stop x l ∈ x :: l := by
  induction l generalizing x with
  | nil => exact List.mem_singleton.mpr rfl
  | cons y l ih =>
    rw [chunkNext.back]
    split
    · exact List.mem_cons_of_mem _ (ih y)
    · exact List.mem_cons_self

/-- The next chunk starts after the start of this one, and not after its end. -/
theorem chunkNext_spec {overlapChars start stop : Nat} (h : start < stop) :
    start < chunkNext g.points overlapChars start stop ∧ chunkNext g.points overlapChars start stop ≤ stop ∧
      (chunkNext g.points overlapChars start stop = stop ∨ chunkNext g.points overlapChars start stop ∈ g.points) := by
  rw [chunkNext]
  rcases List.mem_cons.mp (back_mem overlapChars stop
    ((g.points.filter fun b => start < b ∧ b < stop).reverse) stop) with heq | hmem
  · rw [heq]
    exact ⟨h, Nat.le_refl _, .inl rfl⟩
  · simp only [List.mem_reverse, List.mem_filter, decide_eq_true_eq] at hmem
    exact ⟨hmem.2.1, Nat.le_of_lt hmem.2.2, .inr hmem.1⟩

theorem chunkNext_zero {start stop : Nat} : chunkNext g.points 0 start stop = stop := by
  rw [chunkNext]
  cases (g.points.filter fun b => start < b ∧ b < stop).reverse with
  | nil => rfl
  | cons x l => rw [chunkNext.back, if_neg (Nat.not_lt_zero _)]

/-! ## What holds of the chunks -/

section Chunks

variable (isWhiteSpace : Char → Bool) (text : List Char)

/-- Some character from `a` to `b` is not white space. -/
def NotBlank (a b : Nat) : Prop := (slice text a b).all isWhiteSpace = false

/-- No boundary cuts the stretch from `a` to `b`. -/
def Uncut (g s : Boundaries length) (a b : Nat) : Prop :=
  (∀ x ∈ g.points, x ≤ a ∨ b ≤ x) ∧ ∀ x ∈ s.points, x ≤ a ∨ b ≤ x

/-- What holds of one chunk. -/
structure ChunkOf (g s : Boundaries length) (maxChars : Nat) (c : Chunk) : Prop where
  bounds : c.startChar < c.endChar ∧ c.endChar ≤ length
  text_eq : c.text = utf8 (slice text c.startChar c.endChar)
  notBlank : NotBlank isWhiteSpace text c.startChar c.endChar
  cuts : (c.startChar ∈ g.points ∨ c.startChar ∈ s.points) ∧ (c.endChar ∈ g.points ∨ c.endChar ∈ s.points)
  /-- It fits, or it has no boundary of graphemes inside. -/
  size : c.endChar - c.startChar ≤ maxChars ∨ ∀ x ∈ g.points, x ≤ c.startChar ∨ c.endChar ≤ x

/-- What holds of all chunks. -/
structure ChunksOf (g s : Boundaries length) (maxChars overlapChars : Nat) (chunks : List Chunk) : Prop where
  each : ∀ c ∈ chunks, ChunkOf isWhiteSpace text g s maxChars c
  ordinal : chunks.map (·.ordinal) = List.range chunks.length
  starts : chunks.Pairwise fun c d => c.startChar < d.startChar
  ends : chunks.Pairwise fun c d => c.endChar ≤ d.endChar
  ends_lt : overlapChars = 0 → chunks.Pairwise fun c d => c.endChar < d.endChar
  covers : ∀ a b, a < b → b ≤ length → Uncut g s a b → NotBlank isWhiteSpace text a b →
    ∃ c ∈ chunks, c.startChar ≤ a ∧ b ≤ c.endChar

/-- What holds in the loop, before the chunk that starts at `start`. -/
structure ChunkLoopOk (g s : Boundaries length) (maxChars overlapChars start : Nat) (chunks : List Chunk) : Prop where
  each : ∀ c ∈ chunks, ChunkOf isWhiteSpace text g s maxChars c
  ordinal : chunks.map (·.ordinal) = List.range chunks.length
  starts : chunks.Pairwise fun c d => c.startChar < d.startChar
  ends : chunks.Pairwise fun c d => c.endChar ≤ d.endChar
  ends_lt : overlapChars = 0 → chunks.Pairwise fun c d => c.endChar < d.endChar
  mem : start ∈ g.points ∨ start ∈ s.points
  before : ∀ c ∈ chunks, c.startChar < start
  reach : ∀ c ∈ chunks, start < length → c.endChar ≤ chunkEnd g.points s.points maxChars start
  behind : overlapChars = 0 → ∀ c ∈ chunks, c.endChar ≤ start
  covers : ∀ a b, a < b → b ≤ start → Uncut g s a b → NotBlank isWhiteSpace text a b →
    ∃ c ∈ chunks, c.startChar ≤ a ∧ b ≤ c.endChar

variable {isWhiteSpace text} {maxChars overlapChars start : Nat} {chunks : List Chunk}

/-- A stretch that no boundary cuts is before a boundary or after it. -/
theorem Uncut.side {a b x : Nat} (h : Uncut g s a b) (hx : x ∈ g.points ∨ x ∈ s.points) : x ≤ a ∨ b ≤ x :=
  hx.elim (h.1 x) (h.2 x)

/-- A character of a part is one of the whole. -/
theorem mem_slice_of_le {a b stop : Nat} (ha : start ≤ a) (hb : b ≤ stop) {x : Char} (h : x ∈ slice text a b) :
    x ∈ slice text start stop := by
  rw [slice] at h ⊢
  have htake : text.take b = (text.take stop).take b := by rw [List.take_take, Nat.min_eq_left hb]
  have hdrop : (text.take stop).drop a = ((text.take stop).drop start).drop (a - start) := by
    rw [List.drop_drop, Nat.add_sub_cancel' ha]
  rw [htake, List.drop_take, hdrop] at h
  exact List.mem_of_mem_drop (List.mem_of_mem_take h)

/-- White space is skipped. -/
theorem ChunkLoopOk.skip (h : ChunkLoopOk isWhiteSpace text g s maxChars overlapChars start chunks)
    (hlt : start < length)
    (hblank : (slice text start (chunkEnd g.points s.points maxChars start)).all isWhiteSpace = true) :
    ChunkLoopOk isWhiteSpace text g s maxChars overlapChars (chunkEnd g.points s.points maxChars start) chunks := by
  obtain ⟨limit, hlimit, hstop⟩ := chunkEnd_spec g s maxChars hlt
  obtain ⟨hgt, -, hmem⟩ := hstop.bounds hlimit
  refine ⟨h.each, h.ordinal, h.starts, h.ends, h.ends_lt, hmem, fun c hc => Nat.lt_trans (h.before c hc) hgt, ?_, ?_, ?_⟩
  · intro c hc hlt'
    obtain ⟨limit', hlimit', hstop'⟩ := chunkEnd_spec g s maxChars hlt'
    exact Nat.le_trans (h.reach c hc hlt) (Nat.le_of_lt (hstop'.bounds hlimit').1)
  · exact fun h0 c hc => Nat.le_trans (h.behind h0 c hc) (Nat.le_of_lt hgt)
  · intro a b hab hb huncut hnot
    rcases huncut.side h.mem with hle | hle
    · -- all of it is white space
      rw [NotBlank, List.all_eq_false] at hnot
      obtain ⟨x, hx, hfalse⟩ := hnot
      exact absurd (List.all_eq_true.mp hblank x (mem_slice_of_le hle hb hx)) hfalse
    · exact h.covers a b hab hle huncut hnot

/-- A chunk is added, and the next one starts in it or at its end. -/
theorem ChunkLoopOk.push (h : ChunkLoopOk isWhiteSpace text g s maxChars overlapChars start chunks)
    (hlt : start < length) {c : Chunk} (hstart : c.startChar = start)
    (hend : c.endChar = chunkEnd g.points s.points maxChars start) (hordinal : c.ordinal = chunks.length)
    (htext : c.text = utf8 (slice text start (chunkEnd g.points s.points maxChars start)))
    (hnot : NotBlank isWhiteSpace text start (chunkEnd g.points s.points maxChars start)) {next : Nat}
    (hgt : start < next) (hle : next ≤ chunkEnd g.points s.points maxChars start)
    (hmem : next = chunkEnd g.points s.points maxChars start ∨ next ∈ g.points)
    (hzero : overlapChars = 0 → next = chunkEnd g.points s.points maxChars start) :
    ChunkLoopOk isWhiteSpace text g s maxChars overlapChars next (chunks ++ [c]) := by
  obtain ⟨limit, hlimit, hstop⟩ := chunkEnd_spec g s maxChars hlt
  obtain ⟨hstopGt, hstopLe, hstopMem⟩ := hstop.bounds hlimit
  have hcut : next ∈ g.points ∨ next ∈ s.points := by
    rcases hmem with rfl | hmem
    · exact hstopMem
    · exact .inl hmem
  refine ⟨?_, ordinal_snoc h.ordinal hordinal, ?_, ?_, ?_, hcut, ?_, ?_, ?_, ?_⟩
  · refine fun d hd => (List.mem_append.mp hd).elim (h.each d) fun hd => ?_
    obtain rfl := List.mem_singleton.mp hd
    refine ⟨?_, by rw [htext, hstart, hend], by rw [hstart, hend]; exact hnot, by rw [hstart, hend]; exact ⟨h.mem, hstopMem⟩, ?_⟩
    · rw [hstart, hend]
      exact ⟨hstopGt, hstopMem.elim mem_points_le mem_points_le⟩
    · rw [hstart, hend]
      rcases hlimit.size with hsize | hnone
      · exact .inl (by omega)
      · refine .inr fun x hx => (hnone x hx).imp_right fun hx => by omega
  · refine List.pairwise_append.mpr ⟨h.starts, List.pairwise_singleton _ _, fun d hd e he => ?_⟩
    obtain rfl := List.mem_singleton.mp he
    rw [hstart]
    exact h.before d hd
  · refine List.pairwise_append.mpr ⟨h.ends, List.pairwise_singleton _ _, fun d hd e he => ?_⟩
    obtain rfl := List.mem_singleton.mp he
    rw [hend]
    exact h.reach d hd hlt
  · refine fun h0 => List.pairwise_append.mpr ⟨h.ends_lt h0, List.pairwise_singleton _ _, fun d hd e he => ?_⟩
    obtain rfl := List.mem_singleton.mp he
    rw [hend]
    exact Nat.lt_of_le_of_lt (h.behind h0 d hd) hstopGt
  · refine fun d hd => (List.mem_append.mp hd).elim (fun hd => Nat.lt_trans (h.before d hd) hgt) fun hd => ?_
    obtain rfl := List.mem_singleton.mp hd
    rw [hstart]
    exact hgt
  · -- the next chunk reaches at least as far as this one
    intro d hd hlt'
    have hreach : chunkEnd g.points s.points maxChars start ≤ chunkEnd g.points s.points maxChars next := by
      rcases Nat.eq_or_lt_of_le hle with heq | hlt''
      · obtain ⟨limit', hlimit', hstop'⟩ := chunkEnd_spec g s maxChars hlt'
        exact heq ▸ Nat.le_of_lt (heq.symm ▸ (hstop'.bounds hlimit').1)
      · exact chunkEnd_mono hgt hlt' hlt''
    refine (List.mem_append.mp hd).elim (fun hd => Nat.le_trans (h.reach d hd hlt) hreach) fun hd => ?_
    obtain rfl := List.mem_singleton.mp hd
    rw [hend]
    exact hreach
  · intro h0 d hd
    rw [hzero h0]
    refine (List.mem_append.mp hd).elim (fun hd => Nat.le_trans (h.behind h0 d hd) (Nat.le_of_lt hstopGt)) fun hd => ?_
    obtain rfl := List.mem_singleton.mp hd
    exact Nat.le_of_eq hend
  · intro a b hab hb huncut hnot'
    rcases huncut.side h.mem with hle' | hle'
    · exact ⟨c, by simp, by rw [hstart]; exact hle', by rw [hend]; exact Nat.le_trans hb hle⟩
    · obtain ⟨d, hd, hin⟩ := h.covers a b hab hle' huncut hnot'
      exact ⟨d, List.mem_append_left _ hd, hin⟩

/-- The loop is at the end of the text. -/
theorem ChunkLoopOk.finish (h : ChunkLoopOk isWhiteSpace text g s maxChars overlapChars length chunks) :
    ChunksOf isWhiteSpace text g s maxChars overlapChars chunks :=
  ⟨h.each, h.ordinal, h.starts, h.ends, h.ends_lt, h.covers⟩

end Chunks

/-! ## The loop -/

section Loop

variable {icu : Icu} {documentId : Bytes} {text : List Char} {g s : Boundaries text.length} {maxChars overlapChars : Nat}

/-- The loop ends, because every round moves on, and leaves such chunks; more fuel changes nothing. -/
theorem chunkLoop_spec {fuel start : Nat} {chunks : List Chunk}
    (h : ChunkLoopOk icu.isWhiteSpace text g s maxChars overlapChars start chunks) (hfuel : text.length - start < fuel) :
    ChunksOf icu.isWhiteSpace text g s maxChars overlapChars
        (chunkLoop icu documentId text g.points s.points maxChars overlapChars fuel start chunks) ∧
      ∀ extra, chunkLoop icu documentId text g.points s.points maxChars overlapChars (fuel + extra) start chunks =
        chunkLoop icu documentId text g.points s.points maxChars overlapChars fuel start chunks := by
  induction fuel generalizing start chunks with
  | zero => exact absurd hfuel (Nat.not_lt_zero _)
  | succ fuel ih =>
    have hsucc : ∀ extra, fuel + 1 + extra = (fuel + extra) + 1 := fun extra => by omega
    simp only [hsucc, chunkLoop]
    by_cases hend : text.length ≤ start
    · have hstart : start = text.length := Nat.le_antisymm (h.mem.elim mem_points_le mem_points_le) hend
      subst hstart
      simp only [if_pos hend, implies_true, and_true]
      exact h.finish
    · have hlt : start < text.length := Nat.not_le.mp hend
      obtain ⟨limit, hlimit, hstop⟩ := chunkEnd_spec g s maxChars hlt
      obtain ⟨hgt, -, hmem⟩ := hstop.bounds hlimit
      simp only [if_neg hend]
      by_cases hblank : (slice text start (chunkEnd g.points s.points maxChars start)).all icu.isWhiteSpace = true
      · have hskip := h.skip hlt hblank
        simp only [if_pos hblank]
        by_cases hlast : chunkEnd g.points s.points maxChars start = text.length
        · simp only [if_pos hlast, implies_true, and_true]
          rw [hlast] at hskip
          exact hskip.finish
        · simp only [if_neg hlast]
          exact ih hskip (by omega)
      · have hnot : NotBlank icu.isWhiteSpace text start (chunkEnd g.points s.points maxChars start) :=
          Bool.eq_false_iff.mpr hblank
        simp only [if_neg hblank]
        by_cases hlast : chunkEnd g.points s.points maxChars start = text.length
        · simp only [if_pos hlast, implies_true, and_true]
          exact (h.push hlt rfl rfl rfl rfl hnot hgt (Nat.le_refl _) (.inl rfl) fun _ => rfl)
            |> fun hpush => (hlast ▸ hpush).finish
        · simp only [if_neg hlast]
          obtain ⟨hnextGt, hnextLe, hnextMem⟩ := chunkNext_spec (g := g) hgt
          have hzero : overlapChars = 0 → chunkNext g.points overlapChars start
              (chunkEnd g.points s.points maxChars start) = chunkEnd g.points s.points maxChars start :=
            fun h0 => h0 ▸ chunkNext_zero
          exact ih (h.push hlt rfl rfl rfl rfl hnot hnextGt hnextLe hnextMem hzero) (by omega)

theorem chunkLoopOk_init : ChunkLoopOk icu.isWhiteSpace text g s maxChars overlapChars 0 [] where
  each _ hc := absurd hc List.not_mem_nil
  ordinal := rfl
  starts := List.Pairwise.nil
  ends := List.Pairwise.nil
  ends_lt _ := List.Pairwise.nil
  mem := .inl (List.mem_of_getElem? g.first)
  before _ hc := absurd hc List.not_mem_nil
  reach _ hc := absurd hc List.not_mem_nil
  behind _ _ hc := absurd hc List.not_mem_nil
  covers a _ hab hb := absurd (Nat.lt_of_lt_of_le hab hb) (Nat.not_lt_zero a)

end Loop

/-! ## Graphemes -/

section Graphemes

variable {text : List Char} {g s : Boundaries text.length} {isWhiteSpace : Char → Bool} {maxChars overlapChars : Nat}

/-- A grapheme that no sentence boundary cuts is inside a chunk, if it is not white space. -/
theorem ChunksOf.grapheme {chunks : List Chunk} (h : ChunksOf isWhiteSpace text g s maxChars overlapChars chunks)
    {i a b : Nat} (ha : g.points[i]? = some a) (hb : g.points[i + 1]? = some b) (hs : ∀ x ∈ s.points, x ≤ a ∨ b ≤ x)
    (hnot : NotBlank isWhiteSpace text a b) : ∃ c ∈ chunks, c.startChar ≤ a ∧ b ≤ c.endChar := by
  refine h.covers a b (Boundaries.point_lt (Nat.lt_succ_self i) ha hb) (mem_points_le (List.mem_of_getElem? hb))
    ⟨fun x hx => ?_, hs⟩ hnot
  obtain ⟨j, hj⟩ := List.mem_iff_getElem?.mp hx
  rcases Nat.lt_or_ge i j with hij | hij
  · exact .inr (Boundaries.point_le hij hb hj)
  · exact .inl (Boundaries.point_le hij hj ha)

/-- A character that is not white space is inside a chunk. -/
theorem ChunksOf.character {chunks : List Chunk} (h : ChunksOf isWhiteSpace text g s maxChars overlapChars chunks)
    {i : Nat} {x : Char} (hx : text[i]? = some x) (hnot : isWhiteSpace x = false) :
    ∃ c ∈ chunks, c.startChar ≤ i ∧ i < c.endChar := by
  obtain ⟨hlt, rfl⟩ := List.getElem?_eq_some_iff.mp hx
  refine h.covers i (i + 1) (Nat.lt_succ_self i) hlt ⟨fun y _ => by omega, fun y _ => by omega⟩ ?_
  rw [NotBlank, List.all_eq_false]
  refine ⟨text[i], ?_, by simp [hnot]⟩
  rw [slice, List.take_succ_eq_append_getElem hlt, List.drop_append_of_le_length (by simp; omega)]
  simp

/-- A chunk that is too long is a single grapheme, if it starts and ends between graphemes. -/
theorem ChunkOf.single {c : Chunk} (h : ChunkOf isWhiteSpace text g s maxChars c) (hsize : maxChars < c.endChar - c.startChar)
    (hstart : c.startChar ∈ g.points) (hend : c.endChar ∈ g.points) :
    ∃ i, g.points[i]? = some c.startChar ∧ g.points[i + 1]? = some c.endChar := by
  have hnone := h.size.resolve_left (Nat.not_le.mpr hsize)
  obtain ⟨i, hi⟩ := List.mem_iff_getElem?.mp hstart
  obtain ⟨j, hj⟩ := List.mem_iff_getElem?.mp hend
  have hij : i < j := Boundaries.index_lt hi hj h.bounds.1
  obtain ⟨y, hy⟩ := Boundaries.exists_point (b := g) (i := i + 1) (Nat.le_trans hij (Boundaries.index_le_total hj))
  have hgt := Boundaries.point_lt (Nat.lt_succ_self i) hi hy
  have hle := Boundaries.point_le hij hy hj
  rcases hnone y (List.mem_of_getElem? hy) with hy' | hy'
  · omega
  · exact ⟨i, hi, hy.trans (congrArg some (Nat.le_antisymm hle hy'))⟩

end Graphemes

/-- **The chunks of a text**, for any boundaries of graphemes and sentences: the loop ends, every grapheme that is not
white space and that no sentence boundary cuts is inside a chunk, the chunks are not too long unless they lie in one
grapheme, their starts increase and their ends do not decrease. -/
theorem unicodeChunk_spec (icu : Icu) (documentId body : Bytes) (text : List Char) (g s : Boundaries text.length)
    (maxChars overlapChars : Nat) (hid : documentId ≠ []) (hoverlap : overlapChars < maxChars)
    (htext : icu.normalize body = some text) (hg : icu.graphemes text = g.points)
    (hs : icu.sentences text = s.points) :
    ∃ chunks, unicodeChunk icu documentId body maxChars overlapChars = .ok chunks ∧
      ChunksOf icu.isWhiteSpace text g s maxChars overlapChars chunks ∧
      (∀ i a b, g.points[i]? = some a → g.points[i + 1]? = some b → (∀ x ∈ s.points, x ≤ a ∨ b ≤ x) →
        NotBlank icu.isWhiteSpace text a b → ∃ c ∈ chunks, c.startChar ≤ a ∧ b ≤ c.endChar) ∧
      (∀ i x, text[i]? = some x → icu.isWhiteSpace x = false → ∃ c ∈ chunks, c.startChar ≤ i ∧ i < c.endChar) ∧
      (∀ c ∈ chunks, maxChars < c.endChar - c.startChar → c.startChar ∈ g.points → c.endChar ∈ g.points →
        ∃ i, g.points[i]? = some c.startChar ∧ g.points[i + 1]? = some c.endChar) ∧
      ∀ extra, chunkLoop icu documentId text (icu.graphemes text) (icu.sentences text) maxChars overlapChars
        (text.length + 1 + extra) 0 [] = chunks := by
  have hinit : ChunkLoopOk icu.isWhiteSpace text g s maxChars overlapChars 0 [] := chunkLoopOk_init
  have hloop : ChunksOf icu.isWhiteSpace text g s maxChars overlapChars
      (chunkLoop icu documentId text g.points s.points maxChars overlapChars (text.length + 1) 0 []) ∧ _ :=
    chunkLoop_spec hinit (Nat.lt_succ_self _)
  refine ⟨_, ?_, hloop.1, fun i a b => hloop.1.grapheme, fun i x => hloop.1.character,
    fun c hc => (hloop.1.each c hc).single, ?_⟩
  · have hguard : ¬ (documentId = [] ∨ maxChars = 0 ∨ maxChars ≤ overlapChars) := by
      rintro (h | h | h)
      · exact hid h
      · omega
      · omega
    rw [unicodeChunk, if_neg hguard, htext]
    dsimp only
    rw [hg, hs]
  · rw [hg, hs]
    exact hloop.2

/-- The boundaries of a text of single characters. -/
def characterBoundaries (n : Nat) : Boundaries n where
  points := List.range (n + 1)
  sorted := List.pairwise_lt_range
  first := by simp
  last := by simp

/-- ICU on the text `a! bcdefg`, which has two sentences, and on `abcd`, as if this had two graphemes and its first
sentence ended in the first of them. -/
def exclaimIcu : Icu :=
  { plainIcu with
    graphemes := fun text => if text = "abcd".toList then [0, 2, 4] else List.range (text.length + 1)
    sentences := fun text =>
      if text = "abcd".toList then [0, 1, 4] else if text = "a! bcdefg".toList then [0, 3, 9] else [0, text.length] }

/-- The sentences of `a! bcdefg`. -/
def exclaimSentences : Boundaries "a! bcdefg".toList.length where
  points := [0, 3, 9]
  sorted := by decide
  first := rfl
  last := rfl

theorem unicodeChunk_spec_sample : ∃ chunks,
    unicodeChunk exclaimIcu [97] (utf8 "a! bcdefg".toList) 4 2 = .ok chunks ∧
      ChunksOf exclaimIcu.isWhiteSpace "a! bcdefg".toList (characterBoundaries _) exclaimSentences 4 2 chunks := by
  obtain ⟨chunks, hok, hchunks, -⟩ := unicodeChunk_spec exclaimIcu [97] (utf8 "a! bcdefg".toList) "a! bcdefg".toList
    (characterBoundaries _) exclaimSentences 4 2 (by decide) (by decide) (by decide) (by decide) (by decide)
  exact ⟨chunks, hok, hchunks⟩

/-- The second chunk of `a! bcdefg` is part of the first and has the same end; and a grapheme that a sentence boundary
cuts is in no chunk. -/
theorem chunk_inside_chunk :
    (∃ chunks, unicodeChunk exclaimIcu [97] (utf8 "a! bcdefg".toList) 4 2 = .ok chunks ∧
      (chunks.map fun c => (c.startChar, c.endChar)) = [(0, 3), (1, 3), (3, 7), (5, 9)] ∧
      ¬ chunks.Pairwise fun c d => c.endChar < d.endChar) ∧
    ∃ chunks, unicodeChunk exclaimIcu [97] (utf8 "abcd".toList) 2 0 = .ok chunks ∧
      (chunks.map fun c => (c.startChar, c.endChar)) = [(0, 1), (1, 2), (2, 4)] ∧
      ¬ ∃ c ∈ chunks, c.startChar ≤ 0 ∧ 2 ≤ c.endChar := by
  refine ⟨⟨_, rfl, ?_, ?_⟩, _, rfl, ?_, ?_⟩
  · decide +kernel
  · decide +kernel
  · decide +kernel
  · decide +kernel

end Yappod

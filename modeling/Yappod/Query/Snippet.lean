import Yappod.Common.Types
import Yappod.Lib.Boundaries

/-!
# Snippets

`YAP_V2_snippet_window` and `YAP_V2_snippet`, the two ways to cut a piece of a text around the place where a term is
found.  Both count graphemes; the first walks with ICU's iterator, the second collects the boundaries in an array and
computes with indices.  What ICU knows about a text is the parameter `Breaks`.

The first keeps the grapheme in which the term starts (`snippetWindow_eq`).  The second takes the grapheme before it
for the focus, and loses the term if the window has only one or two graphemes (`focus_in_snippetRange`).
-/

set_option autoImplicit false

namespace Yappod

/-- What ICU knows about texts in UTF-8. -/
structure Breaks where
  /-- Do the bytes decode? -/
  validUtf8 : Bytes → Bool
  /-- The boundaries of the graphemes, in bytes. -/
  graphemes : (text : Bytes) → Boundaries text.length

/-- `INT32_MAX`. -/
def int32Max : Nat := 2 ^ 31 - 1

/-- The largest number of graphemes that may be asked for. -/
def maxSnippetGraphemes : Nat := 4096

/-- The size of the array `points`. -/
def snippetPoints : Nat := 4098

variable (icu : Breaks)

/-- `valid_utf8`. -/
def snippetUtf8 (text : Bytes) : Bool := text.length ≤ int32Max && icu.validUtf8 text

/-! ## The focus -/

section Focus

variable {length : Nat} (b : Boundaries length) (text : Bytes)

/-- The term is at this place, and cuts no grapheme. -/
def termAt (term : Bytes) (place : Nat) : Bool :=
  (text.drop place).take term.length = term && b.isBoundary place && b.isBoundary (place + term.length)

/-- The first place of a term. -/
def findTerm (term : Bytes) : Option Nat :=
  (List.range (text.length + 1 - term.length)).find? (termAt b text term)

/-- The place of the first term that is found. -/
def findFocus (terms : List Bytes) : Nat := (terms.findSome? (findTerm b text)).getD 0

end Focus

/-! ## `YAP_V2_snippet_window` -/

section Window

variable {length : Nat} (b : Boundaries length)

/-- At most `n` steps back. -/
def stepsBack : Nat → Nat → Nat
  | 0, start => start
  | n + 1, start =>
    if start = 0 then start
    else
      match b.preceding start with
      | none => start
      | some next => stepsBack n next

/-- At most `n` steps forward, and how many of them are missing. -/
def stepsForward : Nat → Nat → Nat × Nat
  | 0, stop => (stop, 0)
  | n + 1, stop =>
    match b.following stop with
    | none => (stop, n + 1)
    | some next => stepsForward n next

/-- The window around a focus. -/
def windowAround (maxGraphemes focus : Nat) : Nat × Nat :=
  let start := stepsBack b (maxGraphemes / 2) focus
  let (stop, missing) := stepsForward b maxGraphemes start
  (stepsBack b missing start, stop)

end Window

/-- `YAP_V2_snippet_window`: where the window starts and where it ends. -/
def snippetWindow (text : Bytes) (terms : List Bytes) (maxGraphemes : Nat) : Except Status (Nat × Nat) :=
  if int32Max < text.length ∨ maxGraphemes = 0 ∨ maxSnippetGraphemes < maxGraphemes ∨ snippetUtf8 icu text = false then
    .error .invalidArgument
  else if text.length = 0 then .ok (0, 0)
  else if (terms.any fun term => term.length = 0 || int32Max < term.length || !snippetUtf8 icu term) = true then
    .error .invalidArgument
  else
    let b := icu.graphemes text
    .ok (windowAround b maxGraphemes (findFocus b text terms))

/-! ## `YAP_V2_snippet` -/

/-- The indices of the boundaries between which the snippet lies. -/
def snippetRange (points : List Nat) (maxGraphemes focus : Nat) : Nat × Nat :=
  let count := points.length
  -- the loop stops at the last boundary before the focus
  let index := (points.dropLast.takeWhile (· < focus)).length - 1
  let half := maxGraphemes / 2
  let first :=
    if maxGraphemes < count - 1 then
      let first := if half < index then index - half else 0
      if count ≤ first + maxGraphemes then count - 1 - maxGraphemes else first
    else 0
  (first, if count ≤ first + maxGraphemes then count - 1 else first + maxGraphemes)

/-- A term that starts at this place and ends at a boundary not after `stop`. -/
def termHere {length : Nat} (b : Boundaries length) (text : Bytes) (stop place : Nat) (term : Bytes) : Bool :=
  place + term.length ≤ stop && (text.drop place).take term.length = term && b.isBoundary (place + term.length)

/-- The next boundary, or `stop`. -/
def nextPiece {length : Nat} (b : Boundaries length) (stop place : Nat) : Nat :=
  ((List.range' (place + 1) (stop - (place + 1))).find? b.isBoundary).getD (max (place + 1) stop)

/-- The loop that writes the snippet, terms between marks.  A place is never left with less than a byte, so that the
length of the text is fuel enough. -/
def renderSnippet {length : Nat} (b : Boundaries length) (text : Bytes) (terms : List Bytes) (openMark closeMark : Bytes)
    (capacity stop : Nat) : Nat → Nat → Bytes → Except Status Bytes
  | 0, _, out => .ok out
  | fuel + 1, place, out =>
    if stop ≤ place then .ok out
    else
      match terms.find? (termHere b text stop place) with
      | some term =>
        if capacity - 1 - out.length < openMark.length + term.length + closeMark.length then .error .outOfRange
        else renderSnippet b text terms openMark closeMark capacity stop fuel (place + term.length)
          (out ++ openMark ++ (text.drop place).take term.length ++ closeMark)
      | none =>
        let next := nextPiece b stop place
        if capacity - 1 - out.length < next - place then .error .outOfRange
        else renderSnippet b text terms openMark closeMark capacity stop fuel next
          (out ++ (text.drop place).take (next - place))

/-- `YAP_V2_snippet`. -/
def snippet (text : Bytes) (terms : List Bytes) (maxGraphemes : Nat) (openMark closeMark : Bytes) (capacity : Nat) :
    Except Status Bytes :=
  if maxGraphemes = 0 ∨ maxSnippetGraphemes < maxGraphemes ∨ capacity = 0 ∨ snippetUtf8 icu text = false then
    .error .invalidArgument
  else if (terms.any fun term => term.length = 0 || !snippetUtf8 icu term) = true then .error .invalidArgument
  else
    let b := icu.graphemes text
    let points := b.points.take snippetPoints
    if points.getLast? ≠ some text.length then .error .invalidFormat
    else
      let range := snippetRange points maxGraphemes (findFocus b text terms)
      renderSnippet b text terms openMark closeMark capacity (points[range.2]?.getD 0) (text.length + 1)
        (points[range.1]?.getD 0) []

/-! ## What a window should be -/

section Spec

variable {length : Nat} (b : Boundaries length) (text : Bytes)

/-- The place where the first term that is found starts, or the start of the text. -/
def IsFocus (terms : List Bytes) (focus : Nat) : Prop :=
  (∃ before term after, terms = before ++ term :: after ∧ (∀ t ∈ before, ∀ place, termAt b text t place = false) ∧
    termAt b text term focus = true ∧ ∀ place < focus, termAt b text term place = false) ∨
  (∀ t ∈ terms, ∀ place, termAt b text t place = false) ∧ focus = 0

/-- The boundaries with the indices `first` and `last` have as many graphemes between them as were asked for, or all of
them, and the one with the focus is among them, if there is any. -/
structure WindowAt (maxGraphemes focus first last : Nat) : Prop where
  count : last = first + min maxGraphemes b.total
  fits : last ≤ b.total
  focus : ∃ index, b.points[index]? = some focus ∧ (0 < b.total → first ≤ index ∧ index < last)

/-- The window between two places. -/
def WindowOf (terms : List Bytes) (maxGraphemes start stop : Nat) : Prop :=
  ∃ focus first last, IsFocus b text terms focus ∧ WindowAt b maxGraphemes focus first last ∧
    b.points[first]? = some start ∧ b.points[last]? = some stop

end Spec

/-! ## The focus -/

section FocusLemmas

variable {length : Nat} {b : Boundaries length} {text : Bytes}

/-- A term is inside the text. -/
theorem termAt_le {term : Bytes} {place : Nat} (hne : term ≠ []) (h : termAt b text term place = true) :
    place + term.length ≤ text.length := by
  simp only [termAt, Bool.and_eq_true, decide_eq_true_eq] at h
  have hlength := congrArg List.length h.1.1
  have hpos : 0 < term.length := List.length_pos_iff.mpr hne
  rw [List.length_take, List.length_drop] at hlength
  omega

theorem findTerm_eq_some {term : Bytes} {place : Nat} (h : findTerm b text term = some place) :
    termAt b text term place = true ∧ ∀ earlier < place, termAt b text term earlier = false := by
  rw [findTerm, List.find?_range_eq_some] at h
  refine ⟨h.1, fun earlier hlt => ?_⟩
  simpa using h.2.2 earlier hlt

theorem findTerm_eq_none {term : Bytes} (hne : term ≠ []) (h : findTerm b text term = none) (place : Nat) :
    termAt b text term place = false := by
  by_contra hat
  rw [Bool.not_eq_false] at hat
  have hle := termAt_le hne hat
  rw [findTerm, List.find?_range_eq_none] at h
  exact absurd hat (by simpa using h place (by omega))

theorem isFocus_findFocus {terms : List Bytes} (hterms : ∀ t ∈ terms, t ≠ []) :
    IsFocus b text terms (findFocus b text terms) := by
  rw [findFocus]
  cases hfind : terms.findSome? (findTerm b text) with
  | none =>
    rw [List.findSome?_eq_none_iff] at hfind
    exact .inr ⟨fun t ht => findTerm_eq_none (hterms t ht) (hfind t ht), rfl⟩
  | some focus =>
    obtain ⟨before, term, after, rfl, hterm, hbefore⟩ := List.findSome?_eq_some_iff.mp hfind
    refine .inl ⟨before, term, after, rfl, fun t ht => ?_, findTerm_eq_some hterm⟩
    exact findTerm_eq_none (hterms t (List.mem_append_left _ ht)) (hbefore t ht)

end FocusLemmas

/-- An empty text has no graphemes. -/
theorem total_empty {text : Bytes} {b : Boundaries text.length} (h : text.length = 0) : b.total = 0 := by
  have hlast : b.points[b.total]? = some 0 := Boundaries.point_total.trans (congrArg some h)
  exact Boundaries.index_unique hlast b.first

/-- In an empty text there is nothing to be found after the start. -/
theorem isFocus_empty {text : Bytes} {b : Boundaries text.length} {terms : List Bytes} (h : text.length = 0) :
    IsFocus b text terms 0 := by
  have hzero : ∀ t place, termAt b text t place = true → place = 0 := by
    intro t place hat
    simp only [termAt, Bool.and_eq_true] at hat
    obtain ⟨i, hi⟩ := Boundaries.isBoundary_iff.mp hat.1.2
    have hle := Boundaries.point_le (Boundaries.index_le_total hi) hi Boundaries.point_total
    omega
  have hfalse : ∀ t, termAt b text t 0 = false → ∀ place, termAt b text t place = false := by
    intro t ht place
    by_contra hat
    rw [Bool.not_eq_false] at hat
    rw [hzero t place hat, ht] at hat
    exact (nomatch hat)
  cases hfind : terms.find? fun t => termAt b text t 0 with
  | none =>
    rw [List.find?_eq_none] at hfind
    exact .inr ⟨fun t ht => hfalse t (by simpa using hfind t ht), rfl⟩
  | some term =>
    obtain ⟨hat, before, after, hterms, hbefore⟩ := List.find?_eq_some_iff_append.mp hfind
    refine .inl ⟨before, term, after, hterms, fun t ht => hfalse t (by simpa using hbefore t ht), hat, ?_⟩
    exact fun place hplace => absurd hplace (Nat.not_lt_zero _)

/-- The focus is the start of a grapheme. -/
theorem IsFocus.index {text : Bytes} {b : Boundaries text.length} {terms : List Bytes} {focus : Nat}
    (h : IsFocus b text terms focus) (hterms : ∀ t ∈ terms, t ≠ []) :
    ∃ index, b.points[index]? = some focus ∧ (0 < b.total → index < b.total) := by
  rcases h with ⟨before, term, after, rfl, -, hat, -⟩ | ⟨-, rfl⟩
  · have hle := termAt_le (hterms term (by simp)) hat
    have hpos : 0 < term.length := List.length_pos_iff.mpr (hterms term (by simp))
    simp only [termAt, Bool.and_eq_true] at hat
    obtain ⟨index, hindex⟩ := Boundaries.isBoundary_iff.mp hat.1.2
    exact ⟨index, hindex, fun _ => Boundaries.index_lt hindex Boundaries.point_total (by omega)⟩
  · exact ⟨0, b.first, id⟩

/-! ## Walking -/

section Walking

variable {length : Nat} {b : Boundaries length}

theorem stepsBack_point {n i x : Nat} (h : b.points[i]? = some x) : b.points[i - n]? = some (stepsBack b n x) := by
  induction n generalizing i x with
  | zero => exact h
  | succ n ih =>
    rw [stepsBack]
    cases i with
    | zero =>
      obtain rfl := Option.some.inj (b.first.symm.trans h)
      rw [if_pos rfl, Nat.zero_sub]
      exact h
    | succ i =>
      have hpos : x ≠ 0 := by
        have := Boundaries.point_lt (Nat.succ_pos i) b.first h
        omega
      rw [if_neg hpos, Boundaries.preceding_point h, Nat.add_sub_add_right]
      obtain ⟨y, hy⟩ := Boundaries.exists_point (b := b) (i := i) (by
        have := Boundaries.index_le_total h
        omega)
      rw [hy]
      exact ih hy

theorem stepsForward_point {n i x : Nat} (h : b.points[i]? = some x) :
    b.points[min (i + n) b.total]? = some (stepsForward b n x).1 ∧
      (stepsForward b n x).2 = n - (min (i + n) b.total - i) := by
  have hi := Boundaries.index_le_total h
  induction n generalizing i x with
  | zero =>
    rw [stepsForward, Nat.add_zero, Nat.min_eq_left hi]
    exact ⟨h, by simp⟩
  | succ n ih =>
    rw [stepsForward, Boundaries.following_point h]
    rcases Nat.eq_or_lt_of_le hi with rfl | hlt
    · have hend : b.points[b.total + 1]? = none :=
        List.getElem?_eq_none (Nat.le_of_eq Boundaries.length_points)
      rw [hend, Nat.min_eq_right (Nat.le_add_right _ _), Nat.sub_self, Nat.sub_zero]
      exact ⟨h, rfl⟩
    · obtain ⟨y, hy⟩ := Boundaries.exists_point (b := b) (i := i + 1) hlt
      obtain ⟨hpoint, hmissing⟩ := ih hy (Boundaries.index_le_total hy)
      rw [hy]
      dsimp only
      rw [show i + (n + 1) = i + 1 + n by omega]
      exact ⟨hpoint, by omega⟩

/-- The window around the grapheme with an index. -/
theorem windowAround_eq {maxGraphemes focus index : Nat} (hmax : 1 ≤ maxGraphemes)
    (hfocus : b.points[index]? = some focus) (hindex : 0 < b.total → index < b.total) :
    ∃ first last, WindowAt b maxGraphemes focus first last ∧
      b.points[first]? = some (windowAround b maxGraphemes focus).1 ∧
      b.points[last]? = some (windowAround b maxGraphemes focus).2 := by
  have hle := Boundaries.index_le_total hfocus
  have hback := stepsBack_point (n := maxGraphemes / 2) hfocus
  obtain ⟨hstop, hmissing⟩ := stepsForward_point (n := maxGraphemes) hback
  have hstart := stepsBack_point (n := (stepsForward b maxGraphemes (stepsBack b (maxGraphemes / 2) focus)).2) hback
  refine ⟨_, _, ⟨?_, Nat.min_le_right _ _, index, hfocus, fun hpos => ?_⟩, hstart, hstop⟩
  · rw [hmissing]
    omega
  · have := hindex hpos
    rw [hmissing]
    omega

end Walking

/-! ## Indices -/

section Indices

variable {length : Nat} {b : Boundaries length}

/-- When the second way keeps the grapheme with the focus. -/
def FocusKept (b : Boundaries length) (maxGraphemes focus : Nat) : Prop :=
  3 ≤ maxGraphemes ∨ b.total ≤ maxGraphemes ∨ ∃ index, b.points[index]? = some focus ∧ index ≤ maxGraphemes / 2

/-- The loop that looks for the focus ends one grapheme before it. -/
theorem takeWhile_before_focus {focus index : Nat} (hfocus : b.points[index]? = some focus) :
    (b.points.dropLast.takeWhile (· < focus)).length = min index b.total := by
  obtain ⟨hlt, hget⟩ := List.getElem?_eq_some_iff.mp hfocus
  have hle := Boundaries.index_le_total hfocus
  have hsplit : b.points.dropLast = b.points.take index ++ b.points.dropLast.drop index := by
    conv_lhs => rw [← List.take_append_drop index b.points.dropLast]
    rw [List.dropLast_eq_take, List.take_take, Nat.min_eq_left (by rw [Boundaries.length_points]; omega)]
  have hbefore : ∀ x ∈ b.points.take index, decide (x < focus) = true := by
    intro x hx
    obtain ⟨j, hj, rfl⟩ := List.mem_take_iff_getElem.mp hx
    rw [decide_eq_true_eq]
    exact Boundaries.point_lt (b := b) (i := j) (by omega) (List.getElem?_eq_getElem _) hfocus
  have hafter : (b.points.dropLast.drop index).takeWhile (fun x => decide (x < focus)) = [] := by
    cases hdrop : b.points.dropLast.drop index with
    | nil => rfl
    | cons x rest =>
      have hx : b.points.dropLast[index]? = some x := by
        rw [← Nat.add_zero index, ← List.getElem?_drop, hdrop]
        rfl
      obtain ⟨hlt', hget'⟩ := List.getElem?_eq_some_iff.mp hx
      rw [List.getElem_dropLast, hget] at hget'
      rw [List.takeWhile_cons_of_neg (by simp [hget'])]
  rw [hsplit, List.takeWhile_append_of_pos hbefore, hafter, List.append_nil, List.length_take,
    Boundaries.length_points]
  omega

/-- **The second way keeps the focus exactly if the window is large enough, or nothing has to be cut off before.** -/
theorem windowAt_snippetRange_iff {maxGraphemes focus index : Nat} (hmax : 1 ≤ maxGraphemes)
    (hfocus : b.points[index]? = some focus) (hindex : 0 < b.total → index < b.total) :
    WindowAt b maxGraphemes focus (snippetRange b.points maxGraphemes focus).1
      (snippetRange b.points maxGraphemes focus).2 ↔ FocusKept b maxGraphemes focus := by
  have hle := Boundaries.index_le_total hfocus
  have hcount : (snippetRange b.points maxGraphemes focus).2 =
      (snippetRange b.points maxGraphemes focus).1 + min maxGraphemes b.total ∧
      (snippetRange b.points maxGraphemes focus).2 ≤ b.total := by
    simp only [snippetRange, Boundaries.length_points]
    split_ifs <;> omega
  have hkept : FocusKept b maxGraphemes focus ↔
      3 ≤ maxGraphemes ∨ b.total ≤ maxGraphemes ∨ index ≤ maxGraphemes / 2 := by
    refine or_congr_right (or_congr_right ⟨fun ⟨i, hi, hle⟩ => ?_, fun h => ⟨index, hfocus, h⟩⟩)
    exact Boundaries.index_unique hi hfocus ▸ hle
  have hwindow : WindowAt b maxGraphemes focus (snippetRange b.points maxGraphemes focus).1
      (snippetRange b.points maxGraphemes focus).2 ↔ (0 < b.total →
        (snippetRange b.points maxGraphemes focus).1 ≤ index ∧ index < (snippetRange b.points maxGraphemes focus).2) := by
    constructor
    · intro h hpos
      obtain ⟨i, hi, hin⟩ := h.focus
      exact Boundaries.index_unique hi hfocus ▸ hin hpos
    · intro h
      exact ⟨hcount.1, hcount.2, index, hfocus, h⟩
  rw [hwindow, hkept]
  simp only [snippetRange, Boundaries.length_points, takeWhile_before_focus hfocus, Nat.min_eq_left hle]
  split_ifs <;> omega

end Indices

/-! ## The text of a snippet -/

section Render

variable {length : Nat} {b : Boundaries length} {text : Bytes} {terms : List Bytes} {openMark closeMark : Bytes}

/-- Pieces of a text, some of them between marks. -/
def markedText (openMark closeMark : Bytes) (pieces : List (Bool × Bytes)) : Bytes :=
  pieces.flatMap fun piece => if piece.1 then openMark ++ piece.2 ++ closeMark else piece.2

/-- The output is the text between two places, with some of the terms in it between marks. -/
def Renders (text : Bytes) (terms : List Bytes) (openMark closeMark : Bytes) (start stop : Nat) (out : Bytes) : Prop :=
  ∃ pieces, out = markedText openMark closeMark pieces ∧
    pieces.flatMap Prod.snd = (text.take stop).drop start ∧ ∀ piece ∈ pieces, piece.1 = true → piece.2 ∈ terms

theorem nextPiece_bounds {stop place : Nat} (h : place < stop) :
    place < nextPiece b stop place ∧ nextPiece b stop place ≤ stop := by
  rw [nextPiece]
  cases hfind : (List.range' (place + 1) (stop - (place + 1))).find? b.isBoundary with
  | none =>
    rw [Option.getD_none]
    omega
  | some next =>
    have hmem := List.mem_range'_1.mp (List.mem_of_find?_eq_some hfind)
    rw [Option.getD_some]
    omega

/-- A piece and what follows it. -/
theorem take_drop_split {start mid stop : Nat} (hsm : start ≤ mid) (hms : mid ≤ stop) :
    (text.take stop).drop start = (text.drop start).take (mid - start) ++ (text.take stop).drop mid := by
  have hmid : (text.take stop).drop mid = ((text.take stop).drop start).drop (mid - start) := by
    rw [List.drop_drop, Nat.add_sub_cancel' hsm]
  have htake : (text.drop start).take (mid - start) = ((text.take stop).drop start).take (mid - start) := by
    rw [List.drop_take, List.take_take, Nat.min_eq_left (by omega)]
  rw [hmid, htake, List.take_append_drop]

/-- The loop writes the text from its place on. -/
theorem renderSnippet_eq_ok (hterms : ∀ t ∈ terms, t ≠ []) {capacity stop fuel place : Nat} {out result : Bytes}
    (hplace : place ≤ stop) (hfuel : stop - place < fuel)
    (h : renderSnippet b text terms openMark closeMark capacity stop fuel place out = .ok result) :
    ∃ more, result = out ++ more ∧ Renders text terms openMark closeMark place stop more := by
  induction fuel generalizing place out with
  | zero => exact absurd hfuel (Nat.not_lt_zero _)
  | succ fuel ih =>
    rw [renderSnippet] at h
    split at h
    next hstop =>
      obtain rfl := Except.ok.inj h
      obtain rfl := Nat.le_antisymm hplace hstop
      exact ⟨[], (List.append_nil _).symm, [], rfl, by simp, fun _ hp => absurd hp List.not_mem_nil⟩
    next hstop =>
      split at h
      next term hfind =>
        split at h
        · exact (nomatch h)
        next =>
          have hmem := List.mem_of_find?_eq_some hfind
          have hhere : termHere b text stop place term = true := List.find?_some hfind
          simp only [termHere, Bool.and_eq_true, decide_eq_true_eq] at hhere
          have hpos : 0 < term.length := List.length_pos_iff.mpr (hterms term hmem)
          obtain ⟨more, rfl, pieces, rfl, htext, hmarked⟩ := ih hhere.1.1 (by omega) h
          refine ⟨openMark ++ (text.drop place).take term.length ++ closeMark ++ markedText openMark closeMark pieces,
            by simp only [List.append_assoc], (true, term) :: pieces, ?_, ?_, ?_⟩
          · simp [markedText, hhere.1.2]
          · rw [List.flatMap_cons, htext, take_drop_split (Nat.le_add_right place term.length) hhere.1.1,
              Nat.add_sub_cancel_left, hhere.1.2]
          · exact List.forall_mem_cons.mpr ⟨fun _ => hmem, hmarked⟩
      next hfind =>
        dsimp only at h
        split at h
        · exact (nomatch h)
        next =>
          obtain ⟨hlt, hle⟩ := nextPiece_bounds (b := b) (Nat.not_le.mp hstop)
          obtain ⟨more, rfl, pieces, rfl, htext, hmarked⟩ := ih hle (by omega) h
          refine ⟨(text.drop place).take (nextPiece b stop place - place) ++ markedText openMark closeMark pieces,
            by simp only [List.append_assoc],
            (false, (text.drop place).take (nextPiece b stop place - place)) :: pieces, ?_, ?_, ?_⟩
          · simp [markedText]
          · rw [List.flatMap_cons, htext, take_drop_split (Nat.le_of_lt hlt) hle]
          · exact List.forall_mem_cons.mpr ⟨fun hf => (nomatch hf), hmarked⟩

end Render

/-! ## Both ways -/

/-- The output is the marked text of the window that the second way computes, and this is a window around the focus. -/
def SnippetOf {length : Nat} (b : Boundaries length) (text : Bytes) (terms : List Bytes) (maxGraphemes focus : Nat)
    (openMark closeMark out : Bytes) : Prop :=
  ∃ start stop, WindowAt b maxGraphemes focus (snippetRange b.points maxGraphemes focus).1
      (snippetRange b.points maxGraphemes focus).2 ∧
    b.points[(snippetRange b.points maxGraphemes focus).1]? = some start ∧
    b.points[(snippetRange b.points maxGraphemes focus).2]? = some stop ∧
    Renders text terms openMark closeMark start stop out

variable {icu}

theorem snippetWindow_eq_ok {text : Bytes} {terms : List Bytes} {maxGraphemes : Nat} {w : Nat × Nat}
    (h : snippetWindow icu text terms maxGraphemes = .ok w) :
    1 ≤ maxGraphemes ∧ (text.length = 0 ∧ w = (0, 0) ∨ (∀ t ∈ terms, t ≠ []) ∧
      w = windowAround (icu.graphemes text) maxGraphemes (findFocus (icu.graphemes text) text terms)) := by
  rw [snippetWindow] at h
  split at h
  · exact (nomatch h)
  next hguard =>
    rw [not_or, not_or] at hguard
    refine ⟨Nat.one_le_iff_ne_zero.mpr hguard.2.1, ?_⟩
    split at h
    next hempty => exact .inl ⟨hempty, (Except.ok.inj h).symm⟩
    next =>
      split at h
      · exact (nomatch h)
      next hterms =>
        refine .inr ⟨fun t ht hnil => hterms ?_, (Except.ok.inj h).symm⟩
        exact List.any_eq_true.mpr ⟨t, ht, by simp [hnil]⟩

theorem snippet_eq_ok {text : Bytes} {terms : List Bytes} {maxGraphemes capacity : Nat} {openMark closeMark out : Bytes}
    (h : snippet icu text terms maxGraphemes openMark closeMark capacity = .ok out) :
    1 ≤ maxGraphemes ∧ (∀ t ∈ terms, t ≠ []) ∧ (icu.graphemes text).points.length ≤ snippetPoints ∧
      renderSnippet (icu.graphemes text) text terms openMark closeMark capacity
        ((icu.graphemes text).points[(snippetRange (icu.graphemes text).points maxGraphemes
          (findFocus (icu.graphemes text) text terms)).2]?.getD 0) (text.length + 1)
        ((icu.graphemes text).points[(snippetRange (icu.graphemes text).points maxGraphemes
          (findFocus (icu.graphemes text) text terms)).1]?.getD 0) [] = .ok out := by
  rw [snippet] at h
  split at h
  · exact (nomatch h)
  next hguard =>
    rw [not_or] at hguard
    split at h
    · exact (nomatch h)
    next hterms =>
      dsimp only at h
      split at h
      · exact (nomatch h)
      next hlast =>
        -- the end of the text is among the boundaries that were taken, so all of them were
        have hall : (icu.graphemes text).points.length ≤ snippetPoints := by
          by_contra hlong
          rw [Nat.not_le] at hlong
          rw [not_not, List.getLast?_eq_getElem?, List.length_take, Nat.min_eq_left (Nat.le_of_lt hlong),
            List.getElem?_take_of_lt (by decide)] at hlast
          have hindex := Boundaries.index_unique hlast Boundaries.point_total
          rw [Boundaries.length_points, ← hindex, snippetPoints] at hlong
          omega
        rw [List.take_of_length_le hall] at h
        refine ⟨Nat.one_le_iff_ne_zero.mpr hguard.1, fun t ht hnil => hterms ?_, hall, h⟩
        exact List.any_eq_true.mpr ⟨t, ht, by simp [hnil]⟩

/-- **Both ways cut as many whole graphemes as were asked for.  The first keeps the one with the focus; the second
keeps it exactly if three graphemes or more were asked for, or the text has no more, or nothing is cut off before.** -/
theorem snippet_windows (icu : Breaks) (text : Bytes) (terms : List Bytes) (maxGraphemes : Nat) :
    (∀ w, snippetWindow icu text terms maxGraphemes = .ok w →
      WindowOf (icu.graphemes text) text terms maxGraphemes w.1 w.2) ∧
    ∀ openMark closeMark capacity out, snippet icu text terms maxGraphemes openMark closeMark capacity = .ok out →
      IsFocus (icu.graphemes text) text terms (findFocus (icu.graphemes text) text terms) ∧
      (SnippetOf (icu.graphemes text) text terms maxGraphemes (findFocus (icu.graphemes text) text terms) openMark
          closeMark out ↔
        FocusKept (icu.graphemes text) maxGraphemes (findFocus (icu.graphemes text) text terms)) := by
  constructor
  · intro w h
    obtain ⟨hmax, ⟨hempty, rfl⟩ | ⟨hterms, rfl⟩⟩ := snippetWindow_eq_ok h
    · refine ⟨0, 0, 0, isFocus_empty hempty, ⟨?_, Nat.zero_le _, 0, Boundaries.first _, ?_⟩, Boundaries.first _,
        Boundaries.first _⟩
      · rw [total_empty hempty, Nat.min_zero]
      · rw [total_empty hempty]
        exact fun h => absurd h (Nat.lt_irrefl 0)
    · have hfocus : IsFocus (icu.graphemes text) text terms _ := isFocus_findFocus hterms
      obtain ⟨index, hindex, hlt⟩ := hfocus.index hterms
      obtain ⟨first, last, hwindow, hstart, hstop⟩ := windowAround_eq hmax hindex hlt
      exact ⟨_, first, last, hfocus, hwindow, hstart, hstop⟩
  · intro openMark closeMark capacity out h
    obtain ⟨hmax, hterms, -, hrender⟩ := snippet_eq_ok h
    have hfocus : IsFocus (icu.graphemes text) text terms _ := isFocus_findFocus hterms
    obtain ⟨index, hindex, hlt⟩ := hfocus.index hterms
    have hiff := windowAt_snippetRange_iff hmax hindex hlt
    refine ⟨hfocus, fun ⟨_, _, hwindow, _⟩ => hiff.mp hwindow, fun hkept => ?_⟩
    have hwindow := hiff.mpr hkept
    obtain ⟨stop, hstop⟩ := Boundaries.exists_point hwindow.fits
    obtain ⟨start, hstart⟩ := Boundaries.exists_point (b := icu.graphemes text)
      (Nat.le_trans (Nat.le.intro hwindow.count.symm) hwindow.fits)
    rw [hstop, hstart, Option.getD_some, Option.getD_some] at hrender
    have hle : stop ≤ text.length := Boundaries.point_le hwindow.fits hstop Boundaries.point_total
    have hplace : start ≤ stop := Boundaries.point_le (Nat.le.intro hwindow.count.symm) hstart hstop
    obtain ⟨more, rfl, hmore⟩ := renderSnippet_eq_ok hterms hplace (by omega) hrender
    exact ⟨start, stop, hwindow, hstart, hstop, hmore⟩

/-- ICU on texts of small letters: every byte is a grapheme. -/
def letterBreaks : Breaks where
  validUtf8 _ := true
  graphemes text :=
    { points := List.range (text.length + 1)
      sorted := List.pairwise_lt_range
      first := by simp
      last := by simp }

/-- The text `abc`, cut for the term `b` with three graphemes and with two. -/
theorem snippet_windows_sample :
    snippetWindow letterBreaks [97, 98, 99] [[98]] 2 = .ok (0, 2) ∧
    WindowOf (letterBreaks.graphemes [97, 98, 99]) [97, 98, 99] [[98]] 2 0 2 ∧
    snippet letterBreaks [97, 98, 99] [[98]] 3 [60] [62] 10 = .ok [97, 60, 98, 62, 99] ∧
    SnippetOf (letterBreaks.graphemes [97, 98, 99]) [97, 98, 99] [[98]] 3
      (findFocus (letterBreaks.graphemes [97, 98, 99]) [97, 98, 99] [[98]]) [60] [62] [97, 60, 98, 62, 99] := by
  have hwindow : snippetWindow letterBreaks [97, 98, 99] [[98]] 2 = .ok (0, 2) := by decide
  have hsnippet : snippet letterBreaks [97, 98, 99] [[98]] 3 [60] [62] 10 = .ok [97, 60, 98, 62, 99] := by decide
  exact ⟨hwindow, (snippet_windows letterBreaks [97, 98, 99] [[98]] 2).1 _ hwindow, hsnippet,
    ((snippet_windows letterBreaks [97, 98, 99] [[98]] 3).2 _ _ _ _ hsnippet).2.mpr (.inl (Nat.le_refl 3))⟩

/-- The text `abc`, cut for the term `c` with two graphemes: the snippet is `ab`. -/
theorem snippet_without_term :
    snippet letterBreaks [97, 98, 99] [[99]] 2 [60] [62] 10 = .ok [97, 98] ∧
    IsFocus (letterBreaks.graphemes [97, 98, 99]) [97, 98, 99] [[99]] 2 ∧
    ¬ SnippetOf (letterBreaks.graphemes [97, 98, 99]) [97, 98, 99] [[99]] 2 2 [60] [62] [97, 98] := by
  refine ⟨by decide, isFocus_findFocus (by simp), fun ⟨_, _, hwindow, _⟩ => ?_⟩
  obtain ⟨index, hindex, hin⟩ := hwindow.focus
  obtain rfl : index = 2 := Boundaries.index_unique hindex (by decide)
  exact absurd (hin (by decide)).2 (by decide)

end Yappod

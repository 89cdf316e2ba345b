import Mathlib.Data.List.Nodup

/-!
# Keyed logs in which the last event decides

A log is a list of keyed events, oldest first.  `lastEvent es k` is the last event recorded for
the key `k`.  A log of *versions* has events `some v` (the key now has the value `v`) and `none`
(the key was removed); `current es k` is the value the log leaves at `k`.

The facts below are the ones a log-structured store lives by: appending a block of events changes
exactly the keys the block mentions (`lastEvent_append`), a block may be replaced by any other
with the same last events (`current_replace`), and removals need not be kept by a block that
nothing precedes (`current_replace_oldest`).
-/

set_option autoImplicit false

namespace Yappod

variable {K E V : Type} [DecidableEq K]

/-- The last event recorded for a key. -/
def lastEvent : List (K × E) → K → Option E
  | [], _ => none
  | e :: es, k => (lastEvent es k).or (if e.1 = k then some e.2 else none)

/-- The value a log of versions leaves at a key. -/
def current (es : List (K × Option V)) (k : K) : Option V := (lastEvent es k).join

@[simp] theorem lastEvent_nil (k : K) : lastEvent ([] : List (K × E)) k = none := rfl

@[simp] theorem lastEvent_singleton (e : K × E) (k : K) :
    lastEvent [e] k = if e.1 = k then some e.2 else none := rfl

/-- Appending a block: the block decides the keys it mentions. -/
theorem lastEvent_append (es fs : List (K × E)) (k : K) :
    lastEvent (es ++ fs) k = (lastEvent fs k).or (lastEvent es k) := by
  induction es with
  | nil => simp
  | cons e es ih => simp only [List.cons_append, lastEvent, ih, Option.or_assoc]

theorem lastEvent_concat (es : List (K × E)) (e : K × E) (k : K) :
    lastEvent (es ++ [e]) k = if e.1 = k then some e.2 else lastEvent es k := by
  rw [lastEvent_append, lastEvent_singleton]
  split <;> simp

/-- The last event of a key is one of the events of that key. -/
theorem mem_of_lastEvent {es : List (K × E)} {k : K} {e : E} (h : lastEvent es k = some e) :
    (k, e) ∈ es := by
  induction es with
  | nil => simp at h
  | cons f fs ih =>
    rw [lastEvent] at h
    cases hf : lastEvent fs k with
    | some e' =>
      rw [hf, Option.some_or, Option.some.injEq] at h
      exact List.mem_cons_of_mem _ (ih (hf.trans (congrArg some h)))
    | none =>
      rw [hf, Option.none_or] at h
      split at h
      · rename_i hk
        cases h
        rw [← hk]
        exact List.mem_cons_self ..
      · cases h

/-- A key has no last event exactly when no event mentions it. -/
theorem lastEvent_eq_none {es : List (K × E)} {k : K} :
    lastEvent es k = none ↔ ∀ e ∈ es, e.1 ≠ k := by
  induction es with
  | nil => simp
  | cons f fs ih =>
    rw [lastEvent, Option.or_eq_none_iff, ih]
    simp only [List.mem_cons, forall_eq_or_imp, ite_eq_right_iff, reduceCtorEq, imp_false]
    exact and_comm

/-- Where the keys are pairwise different, every event is the last of its key. -/
theorem lastEvent_of_nodup {es : List (K × E)} (hnd : (es.map Prod.fst).Nodup) {k : K} {e : E}
    (h : (k, e) ∈ es) : lastEvent es k = some e := by
  induction es with
  | nil => simp at h
  | cons f fs ih =>
    rw [List.map_cons, List.nodup_cons] at hnd
    rw [lastEvent]
    rcases List.mem_cons.mp h with rfl | h
    · rw [lastEvent_eq_none.mpr, Option.none_or, if_pos rfl]
      intro e' he' hk
      exact hnd.1 (List.mem_map.mpr ⟨e', he', hk⟩)
    · rw [ih hnd.2 h, Option.some_or]

/-- Relabelling events relabels the last one. -/
theorem lastEvent_map {F : Type} (g : E → F) (es : List (K × E)) (k : K) :
    lastEvent (es.map fun e => (e.1, g e.2)) k = (lastEvent es k).map g := by
  induction es with
  | nil => rfl
  | cons e es ih =>
    rw [List.map_cons, lastEvent, ih, lastEvent]
    cases lastEvent es k with
    | none => simp only [Option.map_none, Option.none_or]; split <;> simp
    | some e' => simp

/-- Keeping only the events that are the last of their key leaves one event per key, … -/
theorem nodup_keys_filter_last [DecidableEq E] {es : List (K × E)} (hnd : es.Nodup) :
    ((es.filter fun e => lastEvent es e.1 = some e.2).map Prod.fst).Nodup := by
  refine List.Nodup.map_on (fun x hx y hy hxy => ?_) (hnd.filter _)
  simp only [List.mem_filter, decide_eq_true_eq] at hx hy
  have h := hx.2
  rw [hxy, hy.2, Option.some.injEq] at h
  exact Prod.ext hxy h.symm

/-- … the last one. -/
theorem mem_filter_last [DecidableEq E] {es : List (K × E)} {k : K} {e : E} :
    (k, e) ∈ es.filter (fun e => lastEvent es e.1 = some e.2) ↔ lastEvent es k = some e := by
  simp only [List.mem_filter, decide_eq_true_eq, and_iff_right_iff_imp]
  exact mem_of_lastEvent

/-- Two logs with one event per key that have the same events have the same last events. -/
theorem lastEvent_eq_of_mem_iff {es : List (K × E)} {f : K → Option E}
    (hnd : (es.map Prod.fst).Nodup) (h : ∀ k e, (k, e) ∈ es ↔ f k = some e) (k : K) :
    lastEvent es k = f k := by
  cases hf : f k with
  | none =>
    refine lastEvent_eq_none.mpr fun x hx hk => ?_
    have := (h x.1 x.2).mp hx
    rw [hk, hf] at this
    cases this
  | some e => exact lastEvent_of_nodup hnd ((h k e).mpr hf)

theorem current_append (es fs : List (K × Option V)) (k : K) :
    current (es ++ fs) k = if (lastEvent fs k).isSome then current fs k else current es k := by
  rw [current, lastEvent_append]
  cases h : lastEvent fs k with
  | none => simp [current]
  | some e => simp [current, h]

/-- **A block may be replaced by any block with the same last events.** -/
theorem current_replace {b b' : List (K × Option V)} (h : ∀ k, lastEvent b' k = lastEvent b k)
    (pre post : List (K × Option V)) (k : K) :
    current (pre ++ b' ++ post) k = current (pre ++ b ++ post) k := by
  simp only [current, lastEvent_append, h]

/-- **The oldest block may also forget its removals.** -/
theorem current_replace_oldest {b b' : List (K × Option V)} (h : ∀ k, current b' k = current b k)
    (post : List (K × Option V)) (k : K) : current (b' ++ post) k = current (b ++ post) k := by
  simp only [current_append, h]

end Yappod

import Mathlib.Algebra.Ring.Nat
import Mathlib.Algebra.BigOperators.Group.List.Basic
import Mathlib.Data.List.Perm.Basic

/-!
# The work limiter

`YAP_V2_runtime_limiter_acquire` and `_release`: a count of requests and of their bytes, each with a maximum.  A
`LimiterLedger` is a limiter with the grants it has given and the ones it was given back, and it is balanced
(`LimiterLedger.Balanced`) if both counts are those of the grants that are out.  `release` does nothing if the counts are
too small; the rules below have no such case, because a grant that is out is counted.
-/

set_option autoImplicit false

namespace Yappod

/-- `YAP_V2_RUNTIME_LIMITER`. -/
structure Limiter where
  inflight : Nat
  inflightBytes : Nat
  maxInflight : Nat
  maxInflightBytes : Nat
  deriving DecidableEq

/-- `YAP_V2_runtime_limiter_init`. -/
def Limiter.init (maxInflight maxInflightBytes : Nat) : Limiter := ⟨0, 0, maxInflight, maxInflightBytes⟩

/-- `YAP_V2_runtime_limiter_acquire`. -/
def Limiter.acquire (l : Limiter) (bytes : Nat) : Option Limiter :=
  if bytes = 0 then none
  else if l.maxInflight ≤ l.inflight ∨ l.maxInflightBytes - l.inflightBytes < bytes then none
  else some { l with inflight := l.inflight + 1, inflightBytes := l.inflightBytes + bytes }

/-- `YAP_V2_runtime_limiter_release`. -/
def Limiter.release (l : Limiter) (bytes : Nat) : Limiter :=
  if 0 < l.inflight ∧ bytes ≤ l.inflightBytes then
    { l with inflight := l.inflight - 1, inflightBytes := l.inflightBytes - bytes }
  else l

/-- Who was let in, with how many bytes. -/
abbrev Grant := Nat × Nat

/-- A limiter with its history. -/
structure LimiterLedger where
  limiter : Limiter
  acquired : List Grant
  released : List Grant
  deriving DecidableEq

namespace LimiterLedger

def init (maxInflight maxInflightBytes : Nat) : LimiterLedger := ⟨Limiter.init maxInflight maxInflightBytes, [], []⟩

def acquire (l : LimiterLedger) (g : Grant) : Option LimiterLedger :=
  (l.limiter.acquire g.2).map fun limiter => { l with limiter := limiter, acquired := g :: l.acquired }

def release (l : LimiterLedger) (g : Grant) : LimiterLedger :=
  { l with limiter := l.limiter.release g.2, released := g :: l.released }

/-- These grants are out. -/
structure Balanced (l : LimiterLedger) (out : List Grant) : Prop where
  inflight : l.limiter.inflight = out.length
  inflightBytes : l.limiter.inflightBytes = (out.map Prod.snd).sum
  history : l.acquired.Perm (l.released ++ out)
  inflight_le : l.limiter.inflight ≤ l.limiter.maxInflight
  inflightBytes_le : l.limiter.inflightBytes ≤ l.limiter.maxInflightBytes

theorem balanced_init (maxInflight maxInflightBytes : Nat) : Balanced (init maxInflight maxInflightBytes) [] :=
  ⟨rfl, rfl, .nil, Nat.zero_le _, Nat.zero_le _⟩

variable {l l' : LimiterLedger} {out out' : List Grant} {g : Grant}

theorem Balanced.perm (h : l.Balanced out) (hperm : out.Perm out') : l.Balanced out' where
  inflight := h.inflight.trans hperm.length_eq
  inflightBytes := h.inflightBytes.trans (hperm.map Prod.snd).sum_eq
  history := h.history.trans (hperm.append_left l.released)
  inflight_le := h.inflight_le
  inflightBytes_le := h.inflightBytes_le

theorem Balanced.acquire (h : l.Balanced out) (hacquire : l.acquire g = some l') : l'.Balanced (g :: out) := by
  rw [LimiterLedger.acquire, Option.map_eq_some_iff] at hacquire
  obtain ⟨limiter, hlimiter, rfl⟩ := hacquire
  rw [Limiter.acquire] at hlimiter
  split at hlimiter
  · cases hlimiter
  split at hlimiter
  · cases hlimiter
  rename_i hroom
  cases hlimiter
  have hbytes := h.inflightBytes_le
  refine ⟨congrArg (· + 1) h.inflight, ?_, ?_, ?_, ?_⟩
  · rw [List.map_cons, List.sum_cons, ← h.inflightBytes]
    exact Nat.add_comm _ _
  · exact (h.history.cons g).trans List.perm_middle.symm
  · change l.limiter.inflight + 1 ≤ l.limiter.maxInflight
    omega
  · change l.limiter.inflightBytes + g.2 ≤ l.limiter.maxInflightBytes
    omega

theorem Balanced.release (h : l.Balanced (g :: out)) : (l.release g).Balanced out := by
  have hinflight := h.inflight
  have hbytes := h.inflightBytes
  rw [List.length_cons] at hinflight
  rw [List.map_cons, List.sum_cons] at hbytes
  have hle := h.inflight_le
  have hle' := h.inflightBytes_le
  rw [LimiterLedger.release, Limiter.release, if_pos (by omega)]
  refine ⟨?_, ?_, h.history.trans List.perm_middle, ?_, ?_⟩
  · change l.limiter.inflight - 1 = out.length
    omega
  · change l.limiter.inflightBytes - g.2 = (out.map Prod.snd).sum
    omega
  · change l.limiter.inflight - 1 ≤ l.limiter.maxInflight
    omega
  · change l.limiter.inflightBytes - g.2 ≤ l.limiter.maxInflightBytes
    omega

end LimiterLedger

end Yappod

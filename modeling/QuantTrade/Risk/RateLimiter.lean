import Mathlib.Tactic.SplitIfs
import QuantTrade.Common.Types

/-!
# The rate limiter

`RateLimiter` of `src/risk/rate_limiter.cpp`, one call at a time: a token bucket that counts
thousandths of a token.  The clock is a parameter of each call.
-/

namespace QuantTrade

/-- The bucket: its level and capacity in thousandths, the time of the last refill and the rate in
thousandths a second. -/
structure RateLimiter where
  tokens : ℤ
  lastRefillNs : ℤ
  burstScaled : ℤ
  rateNsScaled : ℤ
  deriving DecidableEq, Repr

namespace RateLimiter

/-- A new bucket is full. -/
def init (ratePerSec burst nowNs : ℤ) : RateLimiter where
  tokens := burst * 1000
  lastRefillNs := nowNs
  burstScaled := burst * 1000
  rateNsScaled := ratePerSec * 1000

/-- `refill`: add what accrued since the last refill, up to the capacity. -/
def refill (rl : RateLimiter) (nowNs : ℤ) : RateLimiter :=
  let elapsedNs := nowNs - rl.lastRefillNs
  if elapsedNs ≤ 0 then rl
  else
    let addScaled := (elapsedNs * rl.rateNsScaled).tdiv 1000000000
    if addScaled ≤ 0 then rl
    else
      let newTokens :=
        if rl.tokens + addScaled > rl.burstScaled then rl.burstScaled else rl.tokens + addScaled
      { rl with lastRefillNs := nowNs, tokens := newTokens }

/-- `try_acquire`: refill, then take `n` tokens if there are as many. -/
def tryAcquire (rl : RateLimiter) (nowNs : ℤ) (n : ℤ := 1) : RateLimiter × Bool :=
  let filled := rl.refill nowNs
  let need := n * 1000
  if filled.tokens < need then (filled, false)
  else ({ filled with tokens := filled.tokens - need }, true)

/-- A token is there once the bucket is refilled. -/
def HasToken (rl : RateLimiter) (nowNs : ℤ) : Prop :=
  1000 ≤ (rl.refill nowNs).tokens

instance (rl : RateLimiter) (nowNs : ℤ) : Decidable (rl.HasToken nowNs) :=
  inferInstanceAs (Decidable (_ ≤ _))

lemma tryAcquire_of_hasToken {rl : RateLimiter} {nowNs : ℤ} (h : rl.HasToken nowNs) :
    rl.tryAcquire nowNs =
      ({ rl.refill nowNs with tokens := (rl.refill nowNs).tokens - 1000 }, true) := by
  unfold HasToken at h
  exact if_neg (by omega)

lemma tryAcquire_of_not_hasToken {rl : RateLimiter} {nowNs : ℤ} (h : ¬rl.HasToken nowNs) :
    rl.tryAcquire nowNs = (rl.refill nowNs, false) := by
  unfold HasToken at h
  exact if_pos (by omega)

lemma tryAcquire_snd (rl : RateLimiter) (nowNs : ℤ) :
    (rl.tryAcquire nowNs).2 = decide (rl.HasToken nowNs) := by
  by_cases h : rl.HasToken nowNs
  · rw [tryAcquire_of_hasToken h, decide_eq_true h]
  · rw [tryAcquire_of_not_hasToken h, decide_eq_false h]

/-- A refill never empties the bucket and never overfills it. -/
lemma refill_bounds {rl : RateLimiter} (h : rl.tokens ≤ rl.burstScaled) (nowNs : ℤ) :
    rl.tokens ≤ (rl.refill nowNs).tokens ∧ (rl.refill nowNs).tokens ≤ rl.burstScaled := by
  unfold refill
  dsimp only
  split_ifs with hearly hnone hfull
  · exact ⟨Int.le_refl _, h⟩
  · exact ⟨Int.le_refl _, h⟩
  · exact ⟨h, Int.le_refl _⟩
  · exact ⟨by dsimp only; omega, Int.not_lt.mp hfull⟩

@[simp] lemma burstScaled_refill (rl : RateLimiter) (nowNs : ℤ) :
    (rl.refill nowNs).burstScaled = rl.burstScaled := by
  unfold refill
  dsimp only
  split_ifs <;> rfl

end RateLimiter

end QuantTrade

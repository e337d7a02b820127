import Mathlib.Algebra.Order.Group.Abs
import QuantTrade.Risk.TokenBucket

/-!
# The remainders of the refills

A refill that adds credit throws away the fraction of a thousandth that is left and restarts the
clock, so the fractions of many refills add up.  Along every sequence of calls the credit and what
the calls leave out of account together are what accrued (`credited_add_uncredited`); the credit is
within a thousandth of a token exactly when not more than that is left out (`credited_iff`).
-/

namespace QuantTrade

namespace RateLimiter

open Transition (sumAlong Admissible)

/-- A call that refills the bucket, with its reading of the clock. -/
inductive Poll where
  | refill (nowNs : ℤ)
  | tryAcquire (nowNs n : ℤ)
  deriving DecidableEq, Repr

/-- The time of a call. -/
def Poll.nowNs : Poll → ℤ
  | refill nowNs => nowNs
  | tryAcquire nowNs _ => nowNs

/-- The bucket after a call. -/
def poll (rl : RateLimiter) : Poll → RateLimiter
  | .refill nowNs => rl.refill nowNs
  | .tryAcquire nowNs n => (rl.tryAcquire nowNs n).1

/-- The scaled credit that the refill of a call adds. -/
def credit (rl : RateLimiter) (p : Poll) : ℤ :=
  (rl.refill p.nowNs).tokens - rl.tokens

/-- The scaled credit that the calls add. -/
def credited (rl : RateLimiter) (ps : List Poll) : ℤ :=
  sumAlong poll credit rl ps

/-- The refill of a call does not fill the bucket. -/
def BelowCap (rl : RateLimiter) (p : Poll) : Prop :=
  (rl.refill p.nowNs).tokens < rl.burstScaled

instance (rl : RateLimiter) : DecidablePred rl.BelowCap :=
  fun _ => inferInstanceAs (Decidable (_ < _))

/-- What calls at these times leave out of account, in thousandths of a token times `10^9`: the
remainder of every refill that adds credit, and what accrued since the last of them.  The clock of
the bucket stands at `last`, and it is `now`. -/
def uncredited (rate last now : ℤ) : List ℤ → ℤ
  | [] => rate * 1000 * (now - last)
  | t :: times =>
    if rate * 1000 * (t - last) < nsPerSec then uncredited rate last t times
    else rate * 1000 * (t - last) % nsPerSec + uncredited rate t t times

/-! ## One call -/

section Step

variable {rl : RateLimiter} {rate : ℤ}

/-- A call leaves the clock where its refill puts it. -/
lemma lastRefillNs_poll (rl : RateLimiter) (p : Poll) :
    (rl.poll p).lastRefillNs = (rl.refill p.nowNs).lastRefillNs := by
  cases p with
  | refill nowNs => rfl
  | tryAcquire nowNs n =>
    simp only [poll, tryAcquire, Poll.nowNs]
    split_ifs <;> rfl

lemma rateNsScaled_poll (rl : RateLimiter) (p : Poll) :
    (rl.poll p).rateNsScaled = rl.rateNsScaled := by
  have hrefill (nowNs : ℤ) : (rl.refill nowNs).rateNsScaled = rl.rateNsScaled := by
    unfold refill
    dsimp only
    split_ifs <;> rfl
  cases p with
  | refill nowNs => exact hrefill nowNs
  | tryAcquire nowNs n =>
    simp only [poll, tryAcquire]
    split_ifs <;> exact hrefill nowNs

/-- A refill after too short a time does nothing. -/
lemma refill_of_short (hrate : 0 ≤ rate) (hscaled : rl.rateNsScaled = rate * 1000) {nowNs : ℤ}
    (hlast : rl.lastRefillNs ≤ nowNs)
    (hshort : rate * 1000 * (nowNs - rl.lastRefillNs) < nsPerSec) : rl.refill nowNs = rl := by
  have haccrued : (nowNs - rl.lastRefillNs) * rl.rateNsScaled =
      rate * 1000 * (nowNs - rl.lastRefillNs) := by rw [hscaled, mul_comm]
  have hnonneg : 0 ≤ rate * 1000 * (nowNs - rl.lastRefillNs) :=
    mul_nonneg (by omega) (by omega)
  have hnone : (rate * 1000 * (nowNs - rl.lastRefillNs)).tdiv 1000000000 ≤ 0 := by
    rw [Int.tdiv_eq_ediv_of_nonneg hnonneg]
    rw [nsPerSec] at hshort
    omega
  unfold refill
  dsimp only
  rw [haccrued, if_pos hnone, ite_self]

/-- A refill after a longer time restarts the clock and adds the whole thousandths, up to the
capacity. -/
lemma refill_of_long (hscaled : rl.rateNsScaled = rate * 1000) {nowNs : ℤ}
    (hlast : rl.lastRefillNs ≤ nowNs)
    (hlong : nsPerSec ≤ rate * 1000 * (nowNs - rl.lastRefillNs)) :
    rl.refill nowNs =
      { rl with
        lastRefillNs := nowNs
        tokens :=
          if rl.tokens + rate * 1000 * (nowNs - rl.lastRefillNs) / nsPerSec > rl.burstScaled then
            rl.burstScaled
          else rl.tokens + rate * 1000 * (nowNs - rl.lastRefillNs) / nsPerSec } := by
  have haccrued : (nowNs - rl.lastRefillNs) * rl.rateNsScaled =
      rate * 1000 * (nowNs - rl.lastRefillNs) := by rw [hscaled, mul_comm]
  have hlater : ¬nowNs - rl.lastRefillNs ≤ 0 := by
    intro hearly
    have hzero : nowNs - rl.lastRefillNs = 0 := by omega
    rw [hzero, mul_zero] at hlong
    exact absurd hlong (by decide)
  have hcredit : (rate * 1000 * (nowNs - rl.lastRefillNs)).tdiv 1000000000 =
      rate * 1000 * (nowNs - rl.lastRefillNs) / nsPerSec :=
    Int.tdiv_eq_ediv_of_nonneg (le_trans (by decide) hlong)
  have hsome : ¬rate * 1000 * (nowNs - rl.lastRefillNs) / nsPerSec ≤ 0 := by
    rw [nsPerSec] at *
    omega
  unfold refill
  dsimp only
  rw [if_neg hlater, haccrued, hcredit, if_neg hsome]

/-- Below the capacity the whole thousandths are added. -/
lemma credit_of_long (hscaled : rl.rateNsScaled = rate * 1000) {p : Poll}
    (hlast : rl.lastRefillNs ≤ p.nowNs)
    (hlong : nsPerSec ≤ rate * 1000 * (p.nowNs - rl.lastRefillNs)) (hcap : rl.BelowCap p) :
    rl.credit p = rate * 1000 * (p.nowNs - rl.lastRefillNs) / nsPerSec := by
  rw [BelowCap, refill_of_long hscaled hlast hlong] at hcap
  rw [credit, refill_of_long hscaled hlast hlong]
  dsimp only at hcap ⊢
  split_ifs at hcap ⊢ with hfull
  · exact absurd hcap (lt_irrefl _)
  · exact add_sub_cancel_left _ _

end Step

/-! ## A sequence of calls -/

/-- What the calls credit and what they leave out of account is all that accrued. -/
theorem credited_add_uncredited {rate : ℤ} (hrate : 0 ≤ rate) {rl : RateLimiter}
    (hscaled : rl.rateNsScaled = rate * 1000) {now : ℤ} (hlast : rl.lastRefillNs ≤ now)
    {ps : List Poll} (hclock : (now :: ps.map Poll.nowNs).Pairwise (· < ·))
    (hcap : Admissible poll BelowCap rl ps) :
    nsPerSec * rl.credited ps + uncredited rate rl.lastRefillNs now (ps.map Poll.nowNs) =
      rate * 1000 * ((ps.map Poll.nowNs).getLastD now - rl.lastRefillNs) := by
  induction ps generalizing rl now with
  | nil => simp [credited, uncredited]
  | cons p ps ih =>
    rw [List.map_cons, List.pairwise_cons] at hclock
    obtain ⟨hnow, hclock⟩ := hclock
    have hlater : rl.lastRefillNs ≤ p.nowNs := hlast.trans (hnow _ List.mem_cons_self).le
    obtain ⟨hbelow, hcap⟩ := hcap
    have hscaled' : (rl.poll p).rateNsScaled = rate * 1000 := (rateNsScaled_poll rl p).trans hscaled
    have htotal : rl.credited (p :: ps) = rl.credit p + (rl.poll p).credited ps := rfl
    rw [List.map_cons, List.getLastD_cons, uncredited, htotal, mul_add]
    by_cases hshort : rate * 1000 * (p.nowNs - rl.lastRefillNs) < nsPerSec
    · -- the clock stands still and the next call accounts for the time
      have hsame := refill_of_short hrate hscaled hlater hshort
      have hclock' : (rl.poll p).lastRefillNs = rl.lastRefillNs := by
        rw [lastRefillNs_poll, hsame]
      have hnothing : rl.credit p = 0 := by rw [credit, hsame, sub_self]
      have hrest := ih hscaled' (hclock'.trans_le hlater) hclock hcap
      rw [hclock'] at hrest
      rw [if_pos hshort, hnothing]
      linarith
    · -- the remainder is lost and the clock restarts
      have hclock' : (rl.poll p).lastRefillNs = p.nowNs := by
        rw [lastRefillNs_poll, refill_of_long hscaled hlater (not_lt.mp hshort)]
      have hwhole := credit_of_long hscaled hlater (not_lt.mp hshort) hbelow
      have hrest := ih hscaled' hclock'.le hclock hcap
      have hdivision := Int.mul_ediv_add_emod (rate * 1000 * (p.nowNs - rl.lastRefillNs)) nsPerSec
      rw [hclock'] at hrest
      rw [if_neg hshort, hwhole]
      linarith

/-- What is left out of account is not negative. -/
lemma uncredited_nonneg {rate : ℤ} (hrate : 0 ≤ rate) {last now : ℤ} (hlast : last ≤ now)
    {times : List ℤ} (hclock : (now :: times).Pairwise (· < ·)) :
    0 ≤ uncredited rate last now times := by
  induction times generalizing last now with
  | nil => exact mul_nonneg (by omega) (by omega)
  | cons t times ih =>
    rw [List.pairwise_cons] at hclock
    obtain ⟨hnow, hclock⟩ := hclock
    have hlater : last ≤ t := hlast.trans (hnow t List.mem_cons_self).le
    rw [uncredited]
    split_ifs
    · exact ih hlater hclock
    · exact add_nonneg (Int.emod_nonneg _ (by decide)) (ih le_rfl hclock)

/-- What a call leaves behind: less than a thousandth of a token has accrued since the last
refill that added credit. -/
lemma fresh_poll {rate : ℤ} (hrate : 0 ≤ rate) {rl : RateLimiter}
    (hscaled : rl.rateNsScaled = rate * 1000) {p : Poll} (hlast : rl.lastRefillNs ≤ p.nowNs) :
    (rl.poll p).lastRefillNs ≤ p.nowNs ∧
      rate * 1000 * (p.nowNs - (rl.poll p).lastRefillNs) < nsPerSec := by
  rw [lastRefillNs_poll]
  by_cases hshort : rate * 1000 * (p.nowNs - rl.lastRefillNs) < nsPerSec
  · rw [refill_of_short hrate hscaled hlast hshort]
    exact ⟨hlast, hshort⟩
  · rw [refill_of_long hscaled hlast (not_lt.mp hshort), sub_self, mul_zero]
    exact ⟨le_rfl, by decide⟩

/-- **Refill truncation.**  For every rate and every sequence of calls at increasing times
`t₀ < t₁ < … < tₙ` that does not fill the bucket after `t₀`: the credit that the calls at
`t₁, …, tₙ` add is within a thousandth of a token of `rate * 1000 * (tₙ - t₀) / 10^9` exactly when
they leave at most a thousandth out of account, beyond what the call at `t₀` left. -/
theorem credited_iff {rate : ℤ} (hrate : 0 ≤ rate) {rl : RateLimiter}
    (hscaled : rl.rateNsScaled = rate * 1000) {p : Poll} (hlast : rl.lastRefillNs ≤ p.nowNs)
    {ps : List Poll} (hclock : ((p :: ps).map Poll.nowNs).Pairwise (· < ·))
    (hcap : Admissible poll BelowCap (rl.poll p) ps) :
    |nsPerSec * (rl.poll p).credited ps -
          rate * 1000 * ((ps.map Poll.nowNs).getLastD p.nowNs - p.nowNs)| ≤ nsPerSec ↔
      uncredited rate (rl.poll p).lastRefillNs p.nowNs (ps.map Poll.nowNs) ≤
        nsPerSec + rate * 1000 * (p.nowNs - (rl.poll p).lastRefillNs) := by
  obtain ⟨hlater, hcarried⟩ := fresh_poll hrate hscaled hlast
  have hscaled' : (rl.poll p).rateNsScaled = rate * 1000 := (rateNsScaled_poll rl p).trans hscaled
  have htotal := credited_add_uncredited hrate hscaled' hlater hclock hcap
  have hnonneg := uncredited_nonneg hrate hlater hclock
  rw [abs_le]
  constructor
  · rintro ⟨hlower, -⟩
    linarith
  · intro hleft
    constructor
    · linarith
    · linarith

/-- A bucket of one token a second and ten tokens. -/
def tenTokens : RateLimiter :=
  init 1 10 0

/-- The bucket is emptied, and refilled at every full second. -/
def everySecond : List Poll :=
  [.refill 1000000000, .tryAcquire 2000000000 1, .refill 3000000000]

/-- The bucket is emptied, and refilled just before the second thousandth is complete. -/
def everyTwoMillis : List Poll :=
  [.refill 1999999, .refill 3999998, .refill 5999997]

/-- Refills at full seconds credit what is due. -/
theorem credited_everySecond :
    |nsPerSec * (tenTokens.poll (.tryAcquire 0 10)).credited everySecond -
        1 * 1000 * ((everySecond.map Poll.nowNs).getLastD 0 - 0)| ≤ nsPerSec :=
  (@credited_iff 1 (by decide) tenTokens rfl (.tryAcquire 0 10) (by decide) everySecond (by decide)
    (by decide)).mpr (by decide)

/-- Three refills just before the second thousandth is complete credit 3 thousandths where almost 6
are due. -/
theorem not_credited_everyTwoMillis :
    ¬∀ (rate : ℤ), 0 ≤ rate → ∀ (rl : RateLimiter), rl.rateNsScaled = rate * 1000 →
      ∀ (p : Poll) (ps : List Poll), rl.lastRefillNs ≤ p.nowNs →
        ((p :: ps).map Poll.nowNs).Pairwise (· < ·) →
        Admissible poll BelowCap (rl.poll p) ps →
        |nsPerSec * (rl.poll p).credited ps -
            rate * 1000 * ((ps.map Poll.nowNs).getLastD p.nowNs - p.nowNs)| ≤ nsPerSec := by
  intro h
  have hclaim := h 1 (by decide) tenTokens rfl (.tryAcquire 0 10) everyTwoMillis (by decide)
    (by decide) (by decide)
  exact absurd hclaim (by decide)

end RateLimiter

end QuantTrade

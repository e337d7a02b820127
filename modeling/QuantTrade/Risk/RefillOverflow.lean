import QuantTrade.Risk.TokenBucket

/-!
# The refill in 64-bit arithmetic

`RateLimiter::refill` multiplies the elapsed nanoseconds by the scaled rate in `int64_t`.
`refill64` is the function as the machine computes it, every sum and product reduced to 64 bits;
`refill` is the same function over the integers, and the two agree as long as nothing leaves the
range (`refill64_of_noOverflow`).  After a long idle period the product does leave it:
`refill64_exact_iff` says for which levels and gaps the bucket still gets the credit that is due.
-/

namespace QuantTrade

namespace RateLimiter

/-- The value of a sum or a product in `int64_t`, in two's complement. -/
def int64 (x : ℤ) : ℤ := x.bmod (2 ^ 64)

end RateLimiter

lemma InInt64.int64_eq {x : ℤ} (h : InInt64 x) : RateLimiter.int64 x = x :=
  h.bmod_eq

namespace RateLimiter

/-- `refill` in `int64_t`. -/
def refill64 (rl : RateLimiter) (nowNs : ℤ) : RateLimiter :=
  let elapsedNs := int64 (nowNs - rl.lastRefillNs)
  if elapsedNs ≤ 0 then rl
  else
    let addScaled := (int64 (elapsedNs * rl.rateNsScaled)).tdiv 1000000000
    if addScaled ≤ 0 then rl
    else
      let sum := int64 (rl.tokens + addScaled)
      let newTokens := if sum > rl.burstScaled then rl.burstScaled else sum
      { rl with lastRefillNs := nowNs, tokens := newTokens }

/-- `try_acquire` in `int64_t`. -/
def tryAcquire64 (rl : RateLimiter) (nowNs n : ℤ) : RateLimiter × Bool :=
  let filled := rl.refill64 nowNs
  let need := int64 (n * 1000)
  if filled.tokens < need then (filled, false)
  else ({ filled with tokens := int64 (filled.tokens - need) }, true)

/-! ## Reduction to 64 bits -/

lemma int64_of_mem {x : ℤ} (hlower : -2 ^ 63 ≤ x) (hupper : x < 2 ^ 63) : int64 x = x :=
  Int.bmod_eq_of_le_mul_two (by omega) (by omega)

/-- A sum of two numbers of the range that leaves it upwards becomes negative. -/
lemma int64_neg_of_overflow {x : ℤ} (hlower : 2 ^ 63 ≤ x) (hupper : x < 2 ^ 64) : int64 x < 0 := by
  have hshift : int64 x = x - 2 ^ 64 := by
    unfold int64
    rw [Int.bmod_def]
    omega
  omega

/-! ## What is credited -/

/-- What accrues in the gap, in thousandths of a token times `10^9`: the product of the refill. -/
def accrued (rate elapsedNs : ℤ) : ℤ := elapsedNs * rate * 1000

/-- The credit that 64 bits of the product stand for; nothing when they are the bits of a negative
number. -/
def wrappedCredit (rate elapsedNs : ℤ) : ℤ :=
  if accrued rate elapsedNs % 2 ^ 64 < 2 ^ 63 then accrued rate elapsedNs % 2 ^ 64 / 1000000000
  else 0

/-- The condition on a gap and a level under which the machine's refill is right: the new level
does not leave the range, and neither does the product, unless its lowest bits fill the bucket as
well. -/
def FitsInt64 (rate burst tokens elapsedNs : ℤ) : Prop :=
  tokens + wrappedCredit rate elapsedNs < 2 ^ 63 ∧
    (accrued rate elapsedNs < 2 ^ 63 ∨ 1000 * burst ≤ tokens + wrappedCredit rate elapsedNs)

instance (rate burst tokens elapsedNs : ℤ) : Decidable (FitsInt64 rate burst tokens elapsedNs) :=
  inferInstanceAs (Decidable (_ ∧ _))

/-- The difference, the product and the sum of a refill are numbers of the range, as far as it comes
to them. -/
def NoOverflow (rl : RateLimiter) (nowNs : ℤ) : Prop :=
  InInt64 (nowNs - rl.lastRefillNs) ∧
    (0 < nowNs - rl.lastRefillNs →
      InInt64 ((nowNs - rl.lastRefillNs) * rl.rateNsScaled) ∧
        InInt64 (rl.tokens + ((nowNs - rl.lastRefillNs) * rl.rateNsScaled).tdiv 1000000000))

instance (rl : RateLimiter) (nowNs : ℤ) : Decidable (rl.NoOverflow nowNs) :=
  inferInstanceAs (Decidable (_ ∧ (_ → _ ∧ _)))

variable {rl : RateLimiter} {rate burst nowNs : ℤ}

/-- The two refills agree when nothing leaves the range. -/
lemma refill64_of_noOverflow (h : rl.NoOverflow nowNs) : rl.refill64 nowNs = rl.refill nowNs := by
  obtain ⟨helapsed, hlater⟩ := h
  unfold refill64 refill
  dsimp only
  rw [helapsed.int64_eq]
  by_cases hearly : nowNs - rl.lastRefillNs ≤ 0
  · rw [if_pos hearly, if_pos hearly]
  · obtain ⟨hproduct, hsum⟩ := hlater (not_le.mp hearly)
    rw [hproduct.int64_eq, hsum.int64_eq]

/-- A bucket whose capacity is a number of the range takes its token off without an overflow. -/
lemma tryAcquire64_of_noOverflow (h : rl.NoOverflow nowNs) (hsane : Sane rate burst rl)
    (hburst : InInt64 (burst * 1000)) : rl.tryAcquire64 nowNs 1 = rl.tryAcquire nowNs := by
  have hcap := (refill_bounds (hsane.tokens_le.trans hsane.burstScaled_eq.ge) nowNs).2
  rw [hsane.burstScaled_eq] at hcap
  have hneed : int64 (1 * 1000) = 1 * 1000 := by decide
  unfold tryAcquire64 tryAcquire
  dsimp only
  rw [refill64_of_noOverflow h, hneed]
  by_cases htoken : (rl.refill nowNs).tokens < 1 * 1000
  · rw [if_pos htoken, if_pos htoken]
  · have hleft : InInt64 ((rl.refill nowNs).tokens - 1 * 1000) := by
      unfold InInt64 at *
      omega
    rw [if_neg htoken, if_neg htoken, hleft.int64_eq]

/-- The credit that the refill computes is the wrapped one, when it counts at all. -/
lemma max_tdiv_int64 (x : ℤ) :
    max 0 ((int64 x).tdiv 1000000000) =
      if x % 2 ^ 64 < 2 ^ 63 then x % 2 ^ 64 / 1000000000 else 0 := by
  have hwrap : int64 x = if x % 2 ^ 64 < 2 ^ 63 then x % 2 ^ 64 else x % 2 ^ 64 - 2 ^ 64 := by
    unfold int64
    rw [Int.bmod_def]
    split_ifs <;> omega
  rw [hwrap]
  split_ifs with hsign
  · have hnonneg : 0 ≤ x % 2 ^ 64 := by omega
    rw [Int.tdiv_eq_ediv_of_nonneg hnonneg]
    omega
  · have hneg : 0 ≤ (2 ^ 64 - x % 2 ^ 64).tdiv 1000000000 := Int.tdiv_nonneg (by omega) (by decide)
    rw [← Int.neg_sub, Int.neg_tdiv]
    omega

/-- The wrapped credit is what is due as long as the product stays in the range, and less than what
is due from there on. -/
lemma wrappedCredit_spec {elapsedNs : ℤ} (hdue : 0 ≤ accrued rate elapsedNs) :
    0 ≤ wrappedCredit rate elapsedNs ∧ wrappedCredit rate elapsedNs < 2 ^ 63 ∧
      (accrued rate elapsedNs < 2 ^ 63 →
        wrappedCredit rate elapsedNs = accrued rate elapsedNs / 1000000000) ∧
      (2 ^ 63 ≤ accrued rate elapsedNs →
        wrappedCredit rate elapsedNs < accrued rate elapsedNs / 1000000000) := by
  unfold wrappedCredit
  generalize accrued rate elapsedNs = due at *
  split_ifs with hsign
  · refine ⟨by omega, by omega, ?_, ?_⟩
    · intro hfits
      omega
    · intro hover
      omega
  · refine ⟨by omega, by omega, ?_, ?_⟩
    · intro hfits
      omega
    · intro hover
      omega

lemma accrued_nonneg {elapsedNs : ℤ} (hrate : 1 ≤ rate) (helapsed : 0 ≤ elapsedNs) :
    0 ≤ accrued rate elapsedNs := by
  unfold accrued
  positivity

/-- The level after the refill, as the machine computes it. -/
lemma tokens_refill64 (hsane : Sane rate burst rl) (hburst : burst * 1000 < 2 ^ 63)
    (helapsed : 0 ≤ nowNs - rl.lastRefillNs) (hrange : nowNs - rl.lastRefillNs < 2 ^ 63) :
    (rl.refill64 nowNs).tokens =
      min (burst * 1000) (int64 (rl.tokens + wrappedCredit rate (nowNs - rl.lastRefillNs))) := by
  obtain ⟨hcap, hscaled, hempty, hfull⟩ := hsane
  have hlevel : int64 rl.tokens = rl.tokens := int64_of_mem (by omega) (by omega)
  have hgap : int64 (nowNs - rl.lastRefillNs) = nowNs - rl.lastRefillNs :=
    int64_of_mem (by omega) hrange
  have hproduct : (nowNs - rl.lastRefillNs) * rl.rateNsScaled =
      accrued rate (nowNs - rl.lastRefillNs) := by
    rw [hscaled, accrued, mul_assoc]
  have hcredit := max_tdiv_int64 (accrued rate (nowNs - rl.lastRefillNs))
  rw [← wrappedCredit] at hcredit
  unfold refill64
  dsimp only
  rw [hgap, hproduct, ← hcredit]
  split_ifs with hearly hnone hover
  · have hzero : nowNs - rl.lastRefillNs = 0 := by omega
    have hnothing : accrued rate (nowNs - rl.lastRefillNs) = 0 := by
      rw [hzero, accrued, zero_mul, zero_mul]
    rw [hnothing, show max 0 ((int64 0).tdiv 1000000000) = 0 by decide, add_zero, hlevel]
    omega
  · rw [max_eq_left hnone, add_zero, hlevel]
    omega
  · rw [max_eq_right (by omega)]
    dsimp only
    omega
  · rw [max_eq_right (by omega)]
    dsimp only
    omega

/-- The level after the refill is the due one exactly when the gap and the level fit. -/
lemma tokens_refill64_eq_iff (hsane : Sane rate burst rl) (hrate : 1 ≤ rate)
    (hburst : burst * 1000 < 2 ^ 63) (helapsed : 0 ≤ nowNs - rl.lastRefillNs)
    (hrange : nowNs - rl.lastRefillNs < 2 ^ 63) :
    (rl.refill64 nowNs).tokens =
        min (1000 * burst)
          (rl.tokens + (nowNs - rl.lastRefillNs) * rate * 1000 / 1000000000) ↔
      FitsInt64 rate burst rl.tokens (nowNs - rl.lastRefillNs) := by
  have hdue := accrued_nonneg hrate helapsed
  obtain ⟨hnonneg, hlt, hfits, hover⟩ := wrappedCredit_spec hdue
  rw [tokens_refill64 hsane hburst helapsed hrange, FitsInt64, ← accrued]
  obtain ⟨-, -, hempty, hfull⟩ := hsane
  generalize wrappedCredit rate (nowNs - rl.lastRefillNs) = credit at *
  generalize accrued rate (nowNs - rl.lastRefillNs) = due at *
  by_cases hsum : rl.tokens + credit < 2 ^ 63
  · rw [int64_of_mem (by omega) hsum]
    by_cases hproduct : due < 2 ^ 63
    · have := hfits hproduct
      omega
    · have := hover (by omega)
      omega
  · have := int64_neg_of_overflow (x := rl.tokens + credit) (by omega) (by omega)
    omega

/-- With the due level, a bucket that has been idle for the time of one token grants one. -/
lemma grants_of_tokens_eq (hburst : 1 ≤ burst) (htokens : 0 ≤ rl.tokens)
    (hlevel : (rl.refill64 nowNs).tokens = min (1000 * burst)
      (rl.tokens + (nowNs - rl.lastRefillNs) * rate * 1000 / 1000000000))
    (hidle : 1000000000 ≤ (nowNs - rl.lastRefillNs) * rate) :
    (rl.tryAcquire64 nowNs 1).2 = true := by
  have hneed : int64 (1 * 1000) = 1000 := by decide
  unfold tryAcquire64
  dsimp only
  rw [hneed, hlevel, if_neg]
  omega

/-- **Exactness of the refill.**  For every rate and burst whose scaled values are in the range,
every level and every gap between two readings of the clock, the refill in 64-bit arithmetic leads
to the level that is due, and the next token is granted when the gap pays for one, exactly when
neither the product nor the new level leaves the range, or the bits that are left of the product
fill the bucket. -/
theorem refill64_exact_iff (hsane : Sane rate burst rl) (hrate : 1 ≤ rate) (hburst : 1 ≤ burst)
    (hburstRange : burst * 1000 < 2 ^ 63) (helapsed : 0 ≤ nowNs - rl.lastRefillNs)
    (hrange : nowNs - rl.lastRefillNs < 2 ^ 63) :
    ((rl.refill64 nowNs).tokens =
          min (1000 * burst)
            (rl.tokens + (nowNs - rl.lastRefillNs) * rate * 1000 / 1000000000) ∧
        (1000000000 ≤ (nowNs - rl.lastRefillNs) * rate → (rl.tryAcquire64 nowNs 1).2 = true)) ↔
      FitsInt64 rate burst rl.tokens (nowNs - rl.lastRefillNs) := by
  rw [← tokens_refill64_eq_iff hsane hrate hburstRange helapsed hrange]
  constructor
  · exact And.left
  · intro hlevel
    exact ⟨hlevel, grants_of_tokens_eq hburst hsane.tokens_nonneg hlevel⟩

/-- A bucket of a thousand tokens a second, emptied and idle for a second. -/
theorem refill64_exact_second :
    FitsInt64 1000 2000 0 1000000000 ∧
      ((⟨0, 0, 2000000, 1000000⟩ : RateLimiter).tryAcquire64 1000000000 1).2 = true :=
  ⟨by decide,
    ((@refill64_exact_iff ⟨0, 0, 2000000, 1000000⟩ 1000 2000 1000000000
      ⟨by decide, by decide, by decide, by decide⟩ (by decide) (by decide) (by decide) (by decide)
      (by decide)).mpr (by decide)).2 (by decide)⟩

/-- A bucket of a thousand tokens a second that is emptied and then idle for three hours gets no
credit: the product is above `2^63`, its 64 bits are those of a negative number. -/
theorem refill64_three_hours :
    ((⟨0, 0, 2000000, 1000000⟩ : RateLimiter).refill64 10800000000000).tokens = 0 ∧
      min (1000 * 2000) (0 + 10800000000000 * 1000 * 1000 / 1000000000) = (2000000 : ℤ) ∧
      (1000000000 : ℤ) ≤ 10800000000000 * 1000 ∧
      ((⟨0, 0, 2000000, 1000000⟩ : RateLimiter).tryAcquire64 10800000000000 1).2 = false := by
  decide

end RateLimiter

end QuantTrade

import Mathlib.Tactic.Linarith
import QuantTrade.Library.Transition
import QuantTrade.Risk.RateLimiter

/-!
# The token bucket bound

A rate limiter gets calls of `try_acquire(1)` at a sequence of clock readings.  What a call grants
is paid for by the level of the bucket and by the time that the last refill moves on: the potential
`10^9 * tokens - rate * last_refill` never grows, and every grant lowers it by a token
(`potential_next`).  Over a window of calls this gives the bound of the token bucket,
`grants_window_le`.
-/

namespace QuantTrade

namespace RateLimiter

/-- What a sequence of calls `try_acquire(1)` returns, given the clock reading of each. -/
def grants (rl : RateLimiter) : List ℤ → List Bool
  | [] => []
  | now :: times => (rl.tryAcquire now).2 :: grants (rl.tryAcquire now).1 times

/-- The limiter after a call. -/
def next (rl : RateLimiter) (now : ℤ) : RateLimiter :=
  (rl.tryAcquire now).1

/-- The number of tokens a call grants. -/
def granted (rl : RateLimiter) (now : ℤ) : ℤ :=
  if (rl.tryAcquire now).2 then 1 else 0

/-- The number of nanoseconds in a second. -/
def nsPerSec : ℤ := 1000000000

/-- A bucket with a positive rate, filled to a level between zero and its capacity. -/
structure Sane (rate burst : ℤ) (rl : RateLimiter) : Prop where
  burstScaled_eq : rl.burstScaled = burst * 1000
  rateNsScaled_eq : rl.rateNsScaled = rate * 1000
  tokens_nonneg : 0 ≤ rl.tokens
  tokens_le : rl.tokens ≤ burst * 1000

/-- What a refill does: the time it takes into account pays for the tokens it adds, and less than a
thousandth of a token stays out of account. -/
structure Refilled (rl : RateLimiter) (nowNs : ℤ) (rl' : RateLimiter) : Prop where
  burstScaled_eq : rl'.burstScaled = rl.burstScaled
  rateNsScaled_eq : rl'.rateNsScaled = rl.rateNsScaled
  tokens_mono : rl.tokens ≤ rl'.tokens
  tokens_le : rl'.tokens ≤ rl'.burstScaled
  paid : nsPerSec * (rl'.tokens - rl.tokens) ≤
    rl.rateNsScaled * (rl'.lastRefillNs - rl.lastRefillNs)
  last : rl'.lastRefillNs = rl.lastRefillNs ∨ rl'.lastRefillNs = nowNs
  rest : rl.rateNsScaled * (nowNs - rl'.lastRefillNs) < nsPerSec

/-- The credit for an interval is the whole part of what accrued in it. -/
lemma credit_bounds {accrued : ℤ} (h : 0 ≤ accrued) :
    nsPerSec * accrued.tdiv 1000000000 ≤ accrued ∧
      accrued < nsPerSec * accrued.tdiv 1000000000 + nsPerSec := by
  rw [Int.tdiv_eq_ediv_of_nonneg h, nsPerSec]
  omega

lemma refilled_refill {rl : RateLimiter} (hrate : 0 ≤ rl.rateNsScaled)
    (htokens : rl.tokens ≤ rl.burstScaled) (nowNs : ℤ) : Refilled rl nowNs (rl.refill nowNs) := by
  by_cases hearly : nowNs - rl.lastRefillNs ≤ 0
  · have hsame : rl.refill nowNs = rl := if_pos hearly
    have hrest : rl.rateNsScaled * (nowNs - rl.lastRefillNs) ≤ 0 :=
      mul_nonpos_of_nonneg_of_nonpos hrate hearly
    rw [hsame]
    exact ⟨rfl, rfl, le_rfl, htokens, by simp, Or.inl rfl, hrest.trans_lt (by decide)⟩
  have hcredit := credit_bounds (mul_nonneg (by omega : 0 ≤ nowNs - rl.lastRefillNs) hrate)
  by_cases hnone : ((nowNs - rl.lastRefillNs) * rl.rateNsScaled).tdiv 1000000000 ≤ 0
  · have hsame : rl.refill nowNs = rl := by simp [refill, hearly, hnone]
    have hrest : rl.rateNsScaled * (nowNs - rl.lastRefillNs) < nsPerSec := by
      rw [mul_comm, nsPerSec]
      rw [nsPerSec] at hcredit
      omega
    rw [hsame]
    exact ⟨rfl, rfl, le_rfl, htokens, by simp, Or.inl rfl, hrest⟩
  · have hmoved : rl.refill nowNs =
        { rl with
          lastRefillNs := nowNs
          tokens := min (rl.tokens + ((nowNs - rl.lastRefillNs) * rl.rateNsScaled).tdiv 1000000000)
            rl.burstScaled } := by
      simp only [refill, if_neg hearly, if_neg hnone]
      congr 1
      split_ifs <;> omega
    rw [mul_comm (nowNs - rl.lastRefillNs)] at hmoved hcredit hnone
    rw [hmoved]
    refine ⟨rfl, rfl, ?_, min_le_right _ _, ?_, Or.inr rfl, by simp [nsPerSec]⟩
    · dsimp only
      omega
    · dsimp only
      rw [nsPerSec] at *
      omega

/-- What a call leaves behind: a refilled bucket less the tokens it grants. -/
lemma next_eq (rl : RateLimiter) (now : ℤ) :
    rl.next now = { rl.refill now with
      tokens := (rl.refill now).tokens - 1000 * rl.granted now } := by
  rw [next, granted]
  by_cases h : rl.HasToken now
  · simp [tryAcquire_of_hasToken h]
  · rw [tryAcquire_of_not_hasToken h]
    simp only [Bool.false_eq_true, if_false, mul_zero, sub_zero]

lemma tokens_next (rl : RateLimiter) (now : ℤ) :
    (rl.next now).tokens = (rl.refill now).tokens - 1000 * rl.granted now := by
  rw [next_eq]

lemma lastRefillNs_next (rl : RateLimiter) (now : ℤ) :
    (rl.next now).lastRefillNs = (rl.refill now).lastRefillNs := by
  rw [next_eq]

/-- A call grants at most a token, and only one that is there. -/
lemma granted_spec (rl : RateLimiter) (now : ℤ) :
    0 ≤ rl.granted now ∧ (0 ≤ (rl.refill now).tokens →
      1000 * rl.granted now ≤ (rl.refill now).tokens) := by
  rw [granted, tryAcquire_snd]
  by_cases h : rl.HasToken now
  · rw [decide_eq_true h, if_pos rfl]
    exact ⟨by decide, fun _ => h⟩
  · simp [h]

/-- Every call keeps the level of the bucket between zero and its capacity. -/
lemma Sane.next {rate burst : ℤ} (hrate : 0 ≤ rate) {rl : RateLimiter} (h : Sane rate burst rl)
    (now : ℤ) : Sane rate burst (rl.next now) := by
  have hrefill : Refilled rl now (rl.refill now) :=
    refilled_refill (by rw [h.rateNsScaled_eq]; omega)
      (by rw [h.burstScaled_eq]; exact h.tokens_le) now
  have hmono := hrefill.tokens_mono
  have hle := hrefill.tokens_le
  rw [hrefill.burstScaled_eq, h.burstScaled_eq] at hle
  obtain ⟨hnonneg, hthere⟩ := rl.granted_spec now
  have hthere := hthere (h.tokens_nonneg.trans hmono)
  rw [next_eq]
  exact ⟨hrefill.burstScaled_eq.trans h.burstScaled_eq,
    hrefill.rateNsScaled_eq.trans h.rateNsScaled_eq, by dsimp only; omega, by dsimp only; omega⟩

lemma sane_init {burst : ℤ} (hburst : 0 ≤ burst) (rate nowNs : ℤ) :
    Sane rate burst (init rate burst nowNs) :=
  ⟨rfl, rfl, by change 0 ≤ burst * 1000; omega, le_rfl⟩

/-! ## The potential -/

/-- The level of the bucket against the time of the last refill. -/
def potential (rl : RateLimiter) : ℤ :=
  nsPerSec * rl.tokens - rl.rateNsScaled * rl.lastRefillNs

/-- What a token costs. -/
def price : ℤ := nsPerSec * 1000

/-- Every grant lowers the potential by a token. -/
lemma potential_next {rate burst : ℤ} (hrate : 0 ≤ rate) {rl : RateLimiter}
    (h : Sane rate burst rl) (now : ℤ) :
    (rl.next now).potential + price * rl.granted now ≤ rl.potential := by
  have hrefill : Refilled rl now (rl.refill now) :=
    refilled_refill (by rw [h.rateNsScaled_eq]; omega)
      (by rw [h.burstScaled_eq]; exact h.tokens_le) now
  have hpaid := hrefill.paid
  rw [next_eq, potential, potential, price]
  dsimp only
  rw [hrefill.rateNsScaled_eq]
  linarith

/-- The time of the last refill never goes back, and it is that of a call once it moved. -/
lemma lastRefillNs_run {rate burst : ℤ} (hrate : 0 ≤ rate) {rl : RateLimiter}
    (h : Sane rate burst rl) {times : List ℤ} {bound : ℤ} (htimes : ∀ t ∈ times, t ≤ bound) :
    (Transition.run next rl times).lastRefillNs ≤ max rl.lastRefillNs bound := by
  induction times generalizing rl with
  | nil => exact le_max_left _ _
  | cons now times ih =>
    have hrefill : Refilled rl now (rl.refill now) :=
      refilled_refill (by rw [h.rateNsScaled_eq]; omega)
        (by rw [h.burstScaled_eq]; exact h.tokens_le) now
    have hnow := htimes now List.mem_cons_self
    have hlast : (rl.next now).lastRefillNs ≤ max rl.lastRefillNs bound := by
      rw [lastRefillNs_next]
      rcases hrefill.last with hlast | hlast
      · exact hlast.trans_le (le_max_left _ _)
      · exact (hlast.trans_le hnow).trans (le_max_right _ _)
    calc (Transition.run next (rl.next now) times).lastRefillNs
        ≤ max (rl.next now).lastRefillNs bound :=
          ih (h.next hrate now) fun t ht => htimes t (List.mem_cons_of_mem now ht)
      _ ≤ max rl.lastRefillNs bound := max_le hlast (le_max_right _ _)

lemma count_grants_cons (rl : RateLimiter) (now : ℤ) (times : List ℤ) :
    ((rl.grants (now :: times)).count true : ℤ) =
      rl.granted now + ((rl.next now).grants times).count true := by
  rw [grants, List.count_cons, granted]
  cases (rl.tryAcquire now).2 <;> simp [next, add_comm]

/-- The calls from the `n`-th on find the limiter as the others leave it. -/
lemma drop_grants (rl : RateLimiter) (n : ℕ) (times : List ℤ) :
    (rl.grants times).drop n = (Transition.run next rl (times.take n)).grants (times.drop n) := by
  induction n generalizing rl times with
  | zero => rfl
  | succ n ih =>
    cases times with
    | nil => rfl
    | cons now times => exact ih (rl.next now) times

lemma take_grants (rl : RateLimiter) (n : ℕ) (times : List ℤ) :
    (rl.grants times).take n = rl.grants (times.take n) := by
  induction n generalizing rl times with
  | zero => rfl
  | succ n ih =>
    cases times with
    | nil => rfl
    | cons now times => exact congrArg _ (ih (rl.next now) times)

/-- The calls that return `true` are counted along the run. -/
lemma price_grants (rl : RateLimiter) (times : List ℤ) :
    price * ((rl.grants times).count true : ℤ) =
      Transition.sumAlong next (fun rl now => price * rl.granted now) rl times := by
  induction times generalizing rl with
  | nil => rfl
  | cons now times ih =>
    rw [count_grants_cons, mul_add, ih, Transition.sumAlong_cons]

/-! ## The bound over a window -/

/-- The grants of a run, its first call included, are paid for by a full bucket, by the time up to
the last call and by the thousandth of a token that the first refill left out of account. -/
lemma grants_le_of_sane {rate burst : ℤ} (hrate : 0 ≤ rate) {rl : RateLimiter}
    (h : Sane rate burst rl) {now bound : ℤ} {times : List ℤ} (hnow : now ≤ bound)
    (htimes : ∀ t ∈ times, t ≤ bound) :
    1000 * ((rl.grants (now :: times)).count true : ℤ) ≤
      1000 * burst + 1000 * rate * (bound - now) / 1000000000 + 1 := by
  have hR : 0 ≤ rl.rateNsScaled := by rw [h.rateNsScaled_eq]; omega
  have hrefill : Refilled rl now (rl.refill now) :=
    refilled_refill hR (by rw [h.burstScaled_eq]; exact h.tokens_le) now
  have hnext : Sane rate burst (rl.next now) := h.next hrate now
  -- the grants of the other calls lower the potential that the first call leaves
  have hrun : (Transition.run next (rl.next now) times).potential +
      price * ((rl.next now).grants times).count true ≤ (rl.next now).potential := by
    rw [price_grants]
    exact Transition.potential_run (P := Sane rate burst) (fun rl t _ hs => hs.next hrate t)
      (fun rl t _ hs => potential_next hrate hs t)
      (Transition.admissible_true ..) hnext
  have hend : Sane rate burst (Transition.run next (rl.next now) times) :=
    Transition.invariant_run_of_step (fun rl t hs => hs.next hrate t) hnext times
  -- the time that paid for the refills is that of the window and a rest of the first refill
  have hmoved : rl.rateNsScaled * ((Transition.run next (rl.next now) times).lastRefillNs -
      (rl.refill now).lastRefillNs) < rl.rateNsScaled * (bound - now) + nsPerSec := by
    have hspan : 0 ≤ rl.rateNsScaled * (bound - now) := mul_nonneg hR (by omega)
    rcases le_max_iff.mp (lastRefillNs_run hrate hnext htimes) with hlast | hlast
    · rw [lastRefillNs_next] at hlast
      have hnonpos : rl.rateNsScaled * ((Transition.run next (rl.next now) times).lastRefillNs -
          (rl.refill now).lastRefillNs) ≤ 0 :=
        mul_nonpos_of_nonneg_of_nonpos hR (by omega)
      have hpos : 0 < nsPerSec := by decide
      linarith
    · have hle : rl.rateNsScaled * ((Transition.run next (rl.next now) times).lastRefillNs -
          (rl.refill now).lastRefillNs) ≤
          rl.rateNsScaled * (bound - (rl.refill now).lastRefillNs) :=
        mul_le_mul_of_nonneg_left (by omega) hR
      have hrest := hrefill.rest
      linarith
  have hcount : ((rl.grants (now :: times)).count true : ℤ) =
      rl.granted now + ((rl.next now).grants times).count true := count_grants_cons rl now times
  have hpaid : price * ((rl.grants (now :: times)).count true : ℤ) <
      nsPerSec * (1000 * burst) + 1000 * rate * (bound - now) + nsPerSec := by
    have hfull := hrefill.tokens_le
    have hnonneg := hend.tokens_nonneg
    rw [hrefill.burstScaled_eq, h.burstScaled_eq] at hfull
    rw [potential, potential, hend.rateNsScaled_eq, hnext.rateNsScaled_eq, tokens_next,
      lastRefillNs_next] at hrun
    rw [h.rateNsScaled_eq] at hmoved
    rw [hcount]
    simp only [price, nsPerSec] at *
    linarith
  simp only [price, nsPerSec] at hpaid
  omega

/-- **Token bucket bound.**  Of any calls of `try_acquire(1)` that follow one another, the number
that is granted is at most the burst and what accrues between the first and the last of them, up to
a thousandth of a token. -/
theorem grants_window_le {rate burst : ℤ} (hrate : 0 < rate) (hburst : 0 < burst) (startNs : ℤ)
    {times : List ℤ} (hclock : times.Pairwise (· ≤ ·)) {i j : ℕ} (hij : i ≤ j)
    (hj : j < times.length) :
    1000 * (((((init rate burst startNs).grants times).drop i).take (j + 1 - i)).count true : ℤ) ≤
      1000 * burst + 1000 * rate * (times[j] - times[i]) / 1000000000 + 1 := by
  have hi : i < times.length := lt_of_le_of_lt hij hj
  have hsane : Sane rate burst (Transition.run next (init rate burst startNs) (times.take i)) :=
    Transition.invariant_run_of_step (fun rl t hs => hs.next hrate.le t)
      (sane_init hburst.le rate startNs) _
  have hwindow : (times.drop i).take (j + 1 - i) =
      times[i] :: (times.drop (i + 1)).take (j - i) := by
    rw [List.drop_eq_getElem_cons hi, show j + 1 - i = j - i + 1 by omega, List.take_succ_cons]
  have hle : ∀ t ∈ times[i] :: (times.drop (i + 1)).take (j - i), t ≤ times[j] := by
    intro t ht
    rw [← hwindow] at ht
    obtain ⟨k, hk, rfl⟩ := List.mem_iff_getElem.mp ht
    rw [List.length_take, List.length_drop] at hk
    rw [List.getElem_take, List.getElem_drop]
    rcases (show i + k ≤ j by omega).lt_or_eq with hlt | heq
    · exact List.pairwise_iff_getElem.mp hclock (i + k) j (by omega) hj hlt
    · simp only [heq, le_refl]
  rw [drop_grants, take_grants, hwindow]
  exact grants_le_of_sane hrate.le hsane (hle _ List.mem_cons_self)
    fun t ht => hle t (List.mem_cons_of_mem _ ht)

/-- The bound at four calls, a second apart, of a limiter of two tokens a second and a burst of
one. -/
theorem grants_window_le_fourCalls :
    1000 * (((((init 2 1 0).grants [0, 0, 1000000000, 1000000000]).drop 1).take 3).count true : ℤ) ≤
      1000 * 1 + 1000 * 2 * (1000000000 - 0) / 1000000000 + 1 :=
  grants_window_le (by decide) (by decide) 0
    (show List.Pairwise (· ≤ ·) ([0, 0, 1000000000, 1000000000] : List ℤ) by decide)
    (i := 1) (j := 3) (by decide) (by decide)

end RateLimiter

end QuantTrade

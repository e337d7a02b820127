import Mathlib.Data.List.Infix
import QuantTrade.Risk.CheckOverflow

/-!
# Requests that are never refused for their rate

The bucket bounds what passes from above; from below its refills count against it, since each of
them throws away a part of a thousandth of a token.  Calls that keep to the burst and the rate in
every stretch, with a thousandth of a token to spare for each time the clock moves on, always find a
token (`grants_of_conforming`), and then, as long as nothing overflows, what passes the pre-trade
check is decided by the breaker and the limits alone (`check_iff_of_conforming`).
-/

namespace QuantTrade

namespace RateLimiter

/-- How often the clock moves on in calls at these times, from a call at `now` on. -/
def ticks (now : ℤ) : List ℤ → ℕ
  | [] => 0
  | t :: times => (if t = now then 0 else 1) + ticks t times

/-- A stretch of calls keeps to the burst and to what accrues between its first and its last call,
with a thousandth of a token to spare for each time the clock moves on. -/
def Affordable (rate burst : ℤ) : List ℤ → Prop
  | [] => True
  | now :: times =>
    nsPerSec * (1000 * (times.length + 1) + ticks now times) ≤
      nsPerSec * (1000 * burst) + 1000 * rate * (times.getLastD now - now)

/-- Every stretch of the calls keeps to the burst and the rate. -/
def Conforming (rate burst : ℤ) (times : List ℤ) : Prop :=
  ∀ rest ∈ times.tails, ∀ stretch ∈ rest.inits, Affordable rate burst stretch

instance (rate burst : ℤ) : DecidablePred (Affordable rate burst) := by
  intro times
  cases times <;> unfold Affordable <;> infer_instance

instance (rate burst : ℤ) : DecidablePred (Conforming rate burst) :=
  fun times => inferInstanceAs (Decidable (∀ rest ∈ times.tails, _))

variable {rate burst : ℤ}

lemma Conforming.affordable {times stretch : List ℤ} (h : Conforming rate burst times)
    (hstretch : stretch <:+: times) : Affordable rate burst stretch := by
  obtain ⟨before, after, rfl⟩ := hstretch
  refine h (stretch ++ after) ?_ stretch ?_
  · rw [List.mem_tails, List.append_assoc]
    exact List.suffix_append ..
  · rw [List.mem_inits]
    exact List.prefix_append ..

/-! ## Fewer calls -/

/-- A call more in between is no reason for the clock to move on less often. -/
lemma ticks_le (now t : ℤ) (times : List ℤ) :
    ticks now times ≤ (if t = now then 0 else 1) + ticks t times := by
  cases times with
  | nil => exact Nat.zero_le _
  | cons u times =>
    rw [ticks, ticks]
    split_ifs <;> omega

lemma ticks_le_of_sublist {times times' : List ℤ} (h : times.Sublist times') (now : ℤ) :
    ticks now times ≤ ticks now times' := by
  induction h generalizing now with
  | slnil => exact le_rfl
  | cons t _ ih => exact (ticks_le now t _).trans (Nat.add_le_add_left (ih t) _)
  | cons_cons t _ ih => exact Nat.add_le_add_left (ih t) _

/-- Some calls of a list lie in a stretch of it that has the same ends. -/
lemma exists_stretch {now : ℤ} {times all : List ℤ} (h : (now :: times).Sublist all) :
    ∃ stretch, now :: stretch <:+: all ∧ times.Sublist stretch ∧
      stretch.getLastD now = times.getLastD now := by
  obtain ⟨front, back, rfl, hnow, htimes⟩ := List.cons_sublist_iff.mp h
  obtain ⟨before, after, rfl⟩ := List.append_of_mem hnow
  have htimes' : times.Sublist (after ++ back) :=
    htimes.trans (List.sublist_append_right ..)
  rcases List.eq_nil_or_concat times with rfl | ⟨init, last, rfl⟩
  · exact ⟨[], ⟨before, after ++ back, by simp⟩, List.Sublist.refl _, rfl⟩
  · rw [List.concat_eq_append] at htimes' ⊢
    obtain ⟨head, tail, hsplit, hinit, hlast⟩ := List.append_sublist_iff.mp htimes'
    obtain ⟨mid, rest, rfl⟩ := List.append_of_mem (List.singleton_sublist.mp hlast)
    refine ⟨head ++ mid ++ [last], ⟨before, rest, ?_⟩, ?_, ?_⟩
    · simp [hsplit]
    · exact (hinit.trans (List.sublist_append_left ..)).append (List.Sublist.refl _)
    · rw [List.getLastD_concat, List.getLastD_concat]

/-- Of conforming calls any may be left out. -/
lemma Conforming.sublist {times all : List ℤ} (h : Conforming rate burst all)
    (hsub : times.Sublist all) : Conforming rate burst times := by
  intro rest hrest stretch hstretch
  have hsub' : stretch.Sublist all :=
    ((List.mem_inits ..).mp hstretch).sublist.trans
      (((List.mem_tails ..).mp hrest).sublist.trans hsub)
  cases stretch with
  | nil => trivial
  | cons now times =>
    obtain ⟨stretch, hinfix, hless, hlast⟩ := exists_stretch hsub'
    have hall := h.affordable hinfix
    have hticks : (ticks now times : ℤ) ≤ ticks now stretch := by
      exact_mod_cast ticks_le_of_sublist hless now
    have hlength : (times.length : ℤ) ≤ stretch.length := by exact_mod_cast hless.length_le
    simp only [Affordable, nsPerSec] at hall ⊢
    rw [hlast] at hall
    omega

/-! ## The calls are granted -/

/-- From a bucket that was last called at `now`, the calls at these times can be paid for. -/
def Pays (rl : RateLimiter) (now : ℤ) (times : List ℤ) : Prop :=
  ∀ stretch, stretch <+: times → stretch ≠ [] →
    nsPerSec * (1000 * stretch.length + ticks now stretch) ≤
      nsPerSec * rl.tokens + rl.rateNsScaled * (stretch.getLastD now - rl.lastRefillNs)

/-- What a refill does to a bucket: it leaves out of account less than a thousandth of a token, and
nothing when it does not move on; or it fills the bucket. -/
lemma refill_spec {rl : RateLimiter} (hrate : 0 ≤ rl.rateNsScaled) (nowNs : ℤ) :
    (rl.refill nowNs = rl ∧ rl.rateNsScaled * (nowNs - rl.lastRefillNs) < nsPerSec) ∨
      (nsPerSec ≤ rl.rateNsScaled * (nowNs - rl.lastRefillNs) ∧
        (rl.refill nowNs).lastRefillNs = nowNs ∧
        (rl.refill nowNs).rateNsScaled = rl.rateNsScaled ∧
        ((rl.refill nowNs).tokens = rl.burstScaled ∨
          nsPerSec * rl.tokens + rl.rateNsScaled * (nowNs - rl.lastRefillNs) <
            nsPerSec * (rl.refill nowNs).tokens + nsPerSec)) := by
  by_cases hearly : nowNs - rl.lastRefillNs ≤ 0
  · have hrest : rl.rateNsScaled * (nowNs - rl.lastRefillNs) ≤ 0 :=
      mul_nonpos_of_nonneg_of_nonpos hrate hearly
    exact Or.inl ⟨if_pos hearly, hrest.trans_lt (by decide)⟩
  have hcredit := credit_bounds (mul_nonneg (by omega : 0 ≤ nowNs - rl.lastRefillNs) hrate)
  rw [mul_comm (nowNs - rl.lastRefillNs)] at hcredit
  by_cases hnone : (rl.rateNsScaled * (nowNs - rl.lastRefillNs)).tdiv 1000000000 ≤ 0
  · refine Or.inl ⟨by simp [refill, hearly, mul_comm _ rl.rateNsScaled, hnone], ?_⟩
    rw [nsPerSec] at hcredit ⊢
    omega
  · have hrefill : rl.refill nowNs =
        { rl with
          lastRefillNs := nowNs
          tokens :=
            if rl.tokens + (rl.rateNsScaled * (nowNs - rl.lastRefillNs)).tdiv 1000000000 >
                rl.burstScaled then rl.burstScaled
            else rl.tokens +
              (rl.rateNsScaled * (nowNs - rl.lastRefillNs)).tdiv 1000000000 } := by
      simp [refill, hearly, mul_comm _ rl.rateNsScaled, hnone]
    refine Or.inr ⟨?_, ?_, ?_, ?_⟩
    · rw [nsPerSec] at hcredit ⊢
      omega
    · rw [hrefill]
    · rw [hrefill]
    · rw [hrefill]
      dsimp only
      split_ifs
      · exact Or.inl rfl
      · right
        linarith [hcredit.2]

/-- What is paid for with the next call. -/
lemma Pays.next_call {rl : RateLimiter} {now t : ℤ} {times stretch : List ℤ}
    (h : Pays rl now (t :: times)) (hstretch : stretch <+: times) :
    nsPerSec * (1000 * (stretch.length + 1) + ((if t = now then 0 else 1) + ticks t stretch)) ≤
      nsPerSec * rl.tokens + rl.rateNsScaled * (stretch.getLastD t - rl.lastRefillNs) := by
  have hpay := h (t :: stretch) (List.cons_prefix_cons.mpr ⟨rfl, hstretch⟩) (by simp)
  rw [List.length_cons, ticks, List.getLastD_cons] at hpay
  push_cast at hpay
  exact hpay

/-- A bucket that is full at the next call can pay for it and for those behind it. -/
lemma Sane.full_pays {rl : RateLimiter} (h : Sane rate burst rl) {t : ℤ} {times stretch : List ℤ}
    (hconf : Conforming rate burst (t :: times)) (hstretch : stretch <+: times) :
    nsPerSec * (1000 * (stretch.length + 1) + ticks t stretch) ≤
      nsPerSec * rl.burstScaled + rl.rateNsScaled * (stretch.getLastD t - t) := by
  obtain ⟨behind, rfl⟩ := hstretch
  rw [h.burstScaled_eq, h.rateNsScaled_eq, mul_comm burst, mul_comm rate]
  exact hconf.affordable (show t :: stretch <:+: _ from ⟨[], behind, rfl⟩)

/-- A refill of a bucket that can pay for the calls from `t` on leaves enough for them. -/
lemma pays_refill {rl : RateLimiter} (hrate : 0 ≤ rate) (hsane : Sane rate burst rl) {now t : ℤ}
    {times : List ℤ}
    (hrest : rl.rateNsScaled * (now - rl.lastRefillNs) < nsPerSec ∨ rl.tokens = rl.burstScaled)
    (hpays : Pays rl now (t :: times)) (hconf : Conforming rate burst (t :: times)) :
    rl.rateNsScaled * (t - (rl.refill t).lastRefillNs) < nsPerSec ∧
      ∀ stretch, stretch <+: times →
        nsPerSec * (1000 * (stretch.length + 1) + ticks t stretch) ≤
          nsPerSec * (rl.refill t).tokens +
            rl.rateNsScaled * (stretch.getLastD t - (rl.refill t).lastRefillNs) := by
  have hR : 0 ≤ rl.rateNsScaled := by rw [hsane.rateNsScaled_eq]; omega
  have hle : rl.tokens ≤ rl.burstScaled := by
    rw [hsane.burstScaled_eq]
    exact hsane.tokens_le
  obtain ⟨hmono, hcap⟩ := refill_bounds hle t
  rcases refill_spec hR t with ⟨hsame, hlittle⟩ | ⟨hmuch, hlast, -, hcredit⟩
  · rw [hsame]
    refine ⟨hlittle, ?_⟩
    intro stretch hstretch
    have hpay := hpays.next_call hstretch
    simp only [nsPerSec] at hpay ⊢
    split_ifs at hpay <;> linarith
  · have hnothing : rl.rateNsScaled * (t - t) < nsPerSec := by
      rw [sub_self, mul_zero]
      decide
    rw [hlast]
    refine ⟨hnothing, ?_⟩
    intro stretch hstretch
    by_cases hfilled : (rl.refill t).tokens = rl.burstScaled
    · rw [hfilled]
      exact hsane.full_pays hconf hstretch
    · -- the clock has moved on since the last call, so the loss is paid for
      have hcredit := hcredit.resolve_left hfilled
      have hmoved : t ≠ now := by
        rintro rfl
        rcases hrest with hlittle | htop
        · omega
        · exact hfilled (hcap.antisymm (htop ▸ hmono))
      have hpay := hpays.next_call hstretch
      rw [if_neg hmoved] at hpay
      simp only [nsPerSec] at hpay hcredit ⊢
      linarith

/-- Calls that can be paid for are granted. -/
lemma grants_of_pays {rl : RateLimiter} (hrate : 0 ≤ rate) (hsane : Sane rate burst rl) (now : ℤ)
    {times : List ℤ}
    (hrest : rl.rateNsScaled * (now - rl.lastRefillNs) < nsPerSec ∨ rl.tokens = rl.burstScaled)
    (hpays : Pays rl now times) (hconf : Conforming rate burst times) :
    ∀ granted ∈ rl.grants times, granted = true := by
  induction times generalizing rl now with
  | nil =>
    intro granted hgranted
    cases hgranted
  | cons t times ih =>
    obtain ⟨hlittle, hpay⟩ := pays_refill hrate hsane hrest hpays hconf
    have htoken : rl.HasToken t := by
      have hfirst := hpay [] List.nil_prefix
      simp only [List.length_nil, ticks, List.getLastD_nil, nsPerSec] at hfirst hlittle
      rw [HasToken]
      push_cast at hfirst
      linarith
    have hnext : rl.next t = { rl.refill t with tokens := (rl.refill t).tokens - 1000 } := by
      rw [next, tryAcquire_of_hasToken htoken]
    have hscaled : (rl.refill t).rateNsScaled = rl.rateNsScaled := by
      rcases refill_spec (by rw [hsane.rateNsScaled_eq]; omega) t with ⟨hsame, -⟩ | ⟨-, -, h, -⟩
      · rw [hsame]
      · exact h
    intro granted hgranted
    rw [grants, List.mem_cons] at hgranted
    rcases hgranted with rfl | hgranted
    · rw [tryAcquire_snd, decide_eq_true htoken]
    · refine ih (hsane.next hrate t) t (Or.inl ?_) ?_ ?_ granted hgranted
      · rw [hnext, hscaled]
        exact hlittle
      · intro stretch hstretch _
        have hleft := hpay stretch hstretch
        rw [hnext, hscaled]
        simp only [nsPerSec] at hleft ⊢
        linarith
      · exact hconf.sublist (List.sublist_cons_self t times)

/-- **No refusal.**  A new bucket grants every call of `try_acquire(1)` when the calls keep to the
burst and the rate in every stretch. -/
lemma grants_of_conforming (hrate : 0 ≤ rate) (hburst : 0 ≤ burst) {startNs : ℤ} {times : List ℤ}
    (hstart : ∀ t ∈ times, startNs ≤ t) (hconf : Conforming rate burst times) :
    ∀ granted ∈ (init rate burst startNs).grants times, granted = true := by
  cases times with
  | nil =>
    intro granted hgranted
    cases hgranted
  | cons t times =>
    refine grants_of_pays hrate (sane_init hburst rate startNs) t (Or.inr rfl) ?_ hconf
    intro stretch hstretch hne
    obtain ⟨u, stretch, rfl⟩ := List.exists_cons_of_ne_nil hne
    obtain ⟨rfl, hrest⟩ := List.cons_prefix_cons.mp hstretch
    obtain ⟨after, rfl⟩ := hrest
    have hpay := hconf.affordable (show u :: stretch <:+: _ from ⟨[], after, rfl⟩)
    have hbegin : 1000 * rate * startNs ≤ 1000 * rate * u :=
      mul_le_mul_of_nonneg_left (hstart u List.mem_cons_self) (by omega)
    rw [List.length_cons, ticks, if_pos rfl, List.getLastD_cons]
    simp only [Affordable, nsPerSec, init] at hpay ⊢
    push_cast at hpay ⊢
    linarith

end RateLimiter

namespace Gate

open PreTradeRisk (Call)

variable {ratePerSec burst : ℤ}

/-- The bucket has a token for a check when all checks conform. -/
lemma hasToken_of_conforming (openThreshold maxNetQty maxNotional : ℤ) (hrate : 0 ≤ ratePerSec)
    (hburst : 0 ≤ burst) {startNs nowNs : ℤ} {calls : List Call}
    (hstart : ∀ t ∈ checkTimes calls ++ [nowNs], startNs ≤ t)
    (hconf : RateLimiter.Conforming ratePerSec burst (checkTimes calls ++ [nowNs])) :
    (after openThreshold maxNetQty maxNotional ratePerSec burst startNs
      calls).risk.rateLimiter.HasToken nowNs := by
  obtain ⟨times, hsub, hrun, -⟩ :=
    passed_le_grants (init openThreshold maxNetQty maxNotional ratePerSec burst startNs) calls
  have hsub' : (times ++ [nowNs]).Sublist (checkTimes calls ++ [nowNs]) :=
    hsub.append (List.Sublist.refl _)
  have hgrants := RateLimiter.grants_of_conforming hrate hburst
    (fun t ht => hstart t (hsub'.subset ht)) (hconf.sublist hsub')
  -- the last of the calls that come to the bucket is this check
  have hlast := (RateLimiter.init ratePerSec burst startNs).drop_grants times.length
    (times ++ [nowNs])
  rw [List.take_left, List.drop_left] at hlast
  have hmem : ((Transition.run RateLimiter.next (.init ratePerSec burst startNs)
      times).tryAcquire nowNs).2 ∈
      (RateLimiter.init ratePerSec burst startNs).grants (times ++ [nowNs]) := by
    apply List.mem_of_mem_drop
    rw [hlast]
    exact List.mem_cons_self
  have hgranted := hgrants _ hmem
  rw [RateLimiter.tryAcquire_snd] at hgranted
  rw [after, hrun]
  exact of_decide_eq_true hgranted

/-- **No refusal for the rate.**  When the checks of a run keep to the burst and the rate in every
stretch, with a thousandth of a token to spare for each time the clock moves on, and nothing
overflows, each of them is decided by the breaker and the limits alone: it passes exactly when the
profit and loss has not come down to the threshold since the last reset and the instrument, the
notional and the net quantity are admissible; whatever else is called in between. -/
theorem check_iff_of_conforming (openThreshold maxNetQty maxNotional : ℤ) (hrate : 0 ≤ ratePerSec)
    (hburst : 0 ≤ burst) {startNs nowNs : ℤ} {calls : List Call} (req : OrderRequest)
    (hrange : NoOverflow openThreshold maxNetQty maxNotional ratePerSec burst startNs
      (calls ++ [.check nowNs req]))
    (hstart : ∀ t ∈ checkTimes calls ++ [nowNs], startNs ≤ t)
    (hconf : RateLimiter.Conforming ratePerSec burst (checkTimes calls ++ [nowNs])) :
    let g := after64 openThreshold maxNetQty maxNotional ratePerSec burst startNs calls
    (g.risk.check64 nowNs req).2 = true ↔
      ¬CircuitBreaker.Tripped openThreshold g.deltas ∧ req.instrumentId < maxInstruments ∧
        ¬(0 < req.price ∧ 0 < req.qty ∧ maxNotional < req.price * req.qty) ∧
        |g.net req.instrumentId + req.side.signed req.qty| ≤ maxNetQty := by
  intro g
  obtain ⟨hrun, hcheck⟩ := check64_after64_eq hrate hburst hrange
  have hg : g = after openThreshold maxNetQty maxNotional ratePerSec burst startNs calls := hrun
  have hinv := inv_after openThreshold maxNetQty maxNotional hrate hburst startNs calls
  have htoken : g.risk.rateLimiter.HasToken nowNs := by
    rw [hg]
    exact hasToken_of_conforming openThreshold maxNetQty maxNotional hrate hburst hstart hconf
  rw [hg] at htoken ⊢
  rw [hcheck, hinv.check_iff]
  exact and_congr_right fun _ => and_iff_right htoken

/-- Two requests at once, the burst, and a third one 150 milliseconds later, with ten tokens a
second: the third one passes. -/
theorem check_iff_of_conforming_burst :
    ((after64 (-50) 5 100 10 2 0 [.check 0 unitRequest, .check 0 unitRequest]).risk.check64
        150000000 unitRequest).2 = true :=
  (check_iff_of_conforming (-50) 5 100 (by decide) (by decide) unitRequest
    ⟨by decide, by decide, by decide⟩ (by decide) (by decide)).mpr
    ⟨CircuitBreaker.not_tripped_nil (-50), by decide, by decide, by decide⟩

end Gate

end QuantTrade

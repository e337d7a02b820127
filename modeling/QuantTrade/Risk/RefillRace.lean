import Mathlib.Algebra.Order.BigOperators.Group.Finset
import Mathlib.Algebra.Order.Ring.Rat
import Mathlib.Tactic.Linarith
import Mathlib.Tactic.NormNum
import QuantTrade.Library.Interleaving
import QuantTrade.Risk.TokenBucket

/-!
# Refills that race

`RateLimiter::try_acquire(1)` of `src/risk/rate_limiter.cpp`, one atomic operation at a time, in any
number of threads.  `refill` computes its credit from a time of the last refill that it loaded
before, and it adds the credit whether or not its compare-exchange of that time succeeds.  When
every such compare-exchange finds the time that was loaded, no interval is credited twice and the
token bucket bound holds (`granted_le_of_uncontested`); two threads that load the same time get the
credit twice (`granted_gt_contested`).
-/

namespace QuantTrade

namespace RateLimiter

namespace Race

/-- The atomics and constants of the limiter, the clock and the number of calls that were
granted. -/
structure Shared where
  limiter : RateLimiter
  clockNs : ℤ
  granted : ℕ
  deriving DecidableEq

/-- Where a thread is in `try_acquire(1)`, with the local variables it has there: the next atomic
operation is the one named. -/
inductive Pc where
  /-- Not in a call; the next step begins one and reads the clock. -/
  | getNs
  | loadLastRefill (now : ℤ)
  /-- `refill` returns early and loads the level. -/
  | loadTokensEarly
  | casLastRefill (now last addScaled : ℤ)
  | loadOldTokens (addScaled : ℤ)
  | casNewTokens (addScaled oldTokens : ℤ)
  | loadCur
  | casAcquire (cur : ℤ)
  deriving DecidableEq

/-- What the code does not determine of a step: the time that passes before it, and whether a weak
compare-exchange fails for no reason. -/
structure Outcome where
  elapsedNs : ℕ
  spurious : Bool

/-- The test in front of the compare-exchange of `try_acquire`. -/
def checkCur (cur : ℤ) : Pc :=
  if cur < 1 * 1000 then .getNs else .casAcquire cur

/-- One atomic operation. -/
def operate (s : Shared) (spurious : Bool) : Pc → Shared × Pc
  | .getNs => (s, .loadLastRefill s.clockNs)
  | .loadLastRefill now =>
    let last := s.limiter.lastRefillNs
    let elapsedNs := now - last
    if elapsedNs ≤ 0 then (s, .loadTokensEarly)
    else
      let addScaled := (elapsedNs * s.limiter.rateNsScaled).tdiv 1000000000
      if addScaled ≤ 0 then (s, .loadTokensEarly) else (s, .casLastRefill now last addScaled)
  | .loadTokensEarly => (s, .loadCur)
  | .casLastRefill now last addScaled =>
    -- the credit is kept whether or not the compare-exchange succeeds
    if s.limiter.lastRefillNs = last then
      ({ s with limiter := { s.limiter with lastRefillNs := now } }, .loadOldTokens addScaled)
    else (s, .loadOldTokens addScaled)
  | .loadOldTokens addScaled => (s, .casNewTokens addScaled s.limiter.tokens)
  | .casNewTokens addScaled oldTokens =>
    let newTokens :=
      if oldTokens + addScaled > s.limiter.burstScaled then s.limiter.burstScaled
      else oldTokens + addScaled
    if s.limiter.tokens = oldTokens ∧ spurious = false then
      ({ s with limiter := { s.limiter with tokens := newTokens } }, .loadCur)
    else (s, .casNewTokens addScaled s.limiter.tokens)
  | .loadCur => (s, checkCur s.limiter.tokens)
  | .casAcquire cur =>
    if s.limiter.tokens = cur ∧ spurious = false then
      ({ s with
          limiter := { s.limiter with tokens := cur - 1 * 1000 }
          granted := s.granted + 1 }, .getNs)
    else (s, checkCur s.limiter.tokens)

/-- The clock never goes back. -/
def Shared.wait (s : Shared) (elapsedNs : ℕ) : Shared :=
  { s with clockNs := s.clockNs + elapsedNs }

variable {ι : Type}

/-- One step of a thread. -/
def act (_ : ι) (s : Shared) (pc : Pc) (o : Outcome) : Shared × Pc :=
  operate (s.wait o.elapsedNs) o.spurious pc

/-- A new limiter, and no thread in a call. -/
def start (rate burst startNs : ℤ) : Interleaving.Config Shared ι Pc where
  shared :=
    { limiter := init rate burst startNs
      clockNs := startNs
      granted := 0 }
  locals := fun _ => .getNs

/-- A compare-exchange of the time of the last refill finds the time that was loaded. -/
def Uncontested (_ : ι) (s : Shared) (pc : Pc) (_ : Outcome) : Prop :=
  match pc with
  | .casLastRefill _ last _ => s.limiter.lastRefillNs = last
  | _ => True

instance (t : ι) (s : Shared) (pc : Pc) (o : Outcome) : Decidable (Uncontested t s pc o) := by
  unfold Uncontested
  split <;> infer_instance

/-! ## The invariant -/

/-- The limiter is that of its construction, with a level that is not negative, and was refilled in
the past. -/
structure Sound (rate burst : ℤ) (s : Shared) : Prop where
  burstScaled_eq : s.limiter.burstScaled = burst * 1000
  rateNsScaled_eq : s.limiter.rateNsScaled = rate * 1000
  tokens_nonneg : 0 ≤ s.limiter.tokens
  last_le : s.limiter.lastRefillNs ≤ s.clockNs

/-- What a thread knows: its clock reading is in the past, its credit accrued in the interval it
covers, and the level it is about to lower holds a token. -/
def Knows (rate : ℤ) (_ : ι) (s : Shared) : Pc → Prop
  | .loadLastRefill now => now ≤ s.clockNs
  | .casLastRefill now last addScaled =>
    now ≤ s.clockNs ∧ 0 < addScaled ∧ nsPerSec * addScaled ≤ rate * 1000 * (now - last)
  | .loadOldTokens addScaled => 0 < addScaled
  | .casNewTokens addScaled _ => 0 < addScaled
  | .casAcquire cur => 1000 ≤ cur
  | _ => True

lemma Sound.wait {rate burst : ℤ} {s : Shared} (h : Sound rate burst s) (elapsedNs : ℕ) :
    Sound rate burst (s.wait elapsedNs) := by
  refine ⟨h.burstScaled_eq, h.rateNsScaled_eq, h.tokens_nonneg, ?_⟩
  have := h.last_le
  change s.limiter.lastRefillNs ≤ s.clockNs + elapsedNs
  omega

/-- What a thread knows stays true as long as the clock does not go back. -/
lemma Knows.mono {rate : ℤ} {t : ι} {s s' : Shared} {pc : Pc} (h : Knows rate t s pc)
    (hclock : s.clockNs ≤ s'.clockNs) : Knows rate t s' pc := by
  cases pc with
  | loadLastRefill now => exact le_trans h hclock
  | casLastRefill now last addScaled => exact ⟨h.1.trans hclock, h.2⟩
  | _ => exact h

lemma knows_checkCur (rate : ℤ) (t : ι) (s : Shared) (cur : ℤ) : Knows rate t s (checkCur cur) := by
  unfold checkCur
  split_ifs with h
  · trivial
  · change 1000 ≤ cur
    omega

/-- An operation leaves the clock alone. -/
lemma clockNs_operate (s : Shared) (spurious : Bool) (pc : Pc) :
    (operate s spurious pc).1.clockNs = s.clockNs := by
  cases pc <;> simp only [operate] <;> split_ifs <;> rfl

lemma le_clockNs_wait (s : Shared) (elapsedNs : ℕ) : s.clockNs ≤ (s.wait elapsedNs).clockNs := by
  change s.clockNs ≤ s.clockNs + elapsedNs
  omega

variable {rate burst : ℤ}

/-- An operation keeps the limiter sound. -/
lemma Sound.operate {s : Shared} (hburst : 0 ≤ burst) (h : Sound rate burst s) {t : ι}
    {pc : Pc} (hknows : Knows rate t s pc) (spurious : Bool) :
    Sound rate burst (Race.operate s spurious pc).1 := by
  have htokens := h.tokens_nonneg
  cases pc with
  | getNs => exact h
  | loadLastRefill now =>
    simp only [Race.operate]
    split_ifs <;> exact h
  | loadTokensEarly => exact h
  | casLastRefill now last addScaled =>
    simp only [Race.operate]
    split_ifs
    · exact ⟨h.burstScaled_eq, h.rateNsScaled_eq, htokens, hknows.1⟩
    · exact h
  | loadOldTokens addScaled => exact h
  | casNewTokens addScaled oldTokens =>
    have hadd : 0 < addScaled := hknows
    have hfull := h.burstScaled_eq
    simp only [Race.operate]
    split_ifs with hcas hover
    · exact ⟨hfull, h.rateNsScaled_eq, by dsimp only; omega, h.last_le⟩
    · exact ⟨hfull, h.rateNsScaled_eq, by dsimp only; omega, h.last_le⟩
    · exact h
  | loadCur => exact h
  | casAcquire cur =>
    have hcur : 1000 ≤ cur := hknows
    simp only [Race.operate]
    split_ifs
    · exact ⟨h.burstScaled_eq, h.rateNsScaled_eq, by dsimp only; omega, h.last_le⟩
    · exact h

/-- An operation gives a thread what it knows next. -/
lemma Knows.operate {s : Shared} (h : Sound rate burst s) (hrate : 0 ≤ rate) {t : ι} {pc : Pc}
    (hknows : Knows rate t s pc) (spurious : Bool) :
    Knows rate t (Race.operate s spurious pc).1 (Race.operate s spurious pc).2 := by
  cases pc with
  | getNs => exact le_rfl
  | loadLastRefill now =>
    have hnow : now ≤ s.clockNs := hknows
    simp only [Race.operate]
    split_ifs with hearly hnone
    · trivial
    · trivial
    · have haccrued : 0 ≤ (now - s.limiter.lastRefillNs) * (rate * 1000) :=
        mul_nonneg (by omega) (by omega)
      have hcredit := (credit_bounds haccrued).1
      rw [h.rateNsScaled_eq] at hnone ⊢
      exact ⟨hnow, not_le.mp hnone, hcredit.trans_eq (mul_comm _ _)⟩
  | loadTokensEarly => trivial
  | casLastRefill now last addScaled =>
    simp only [Race.operate]
    split_ifs <;> exact hknows.2.1
  | loadOldTokens addScaled => exact hknows
  | casNewTokens addScaled oldTokens =>
    simp only [Race.operate]
    split_ifs <;> trivial
  | loadCur => exact knows_checkCur rate t s _
  | casAcquire cur =>
    simp only [Race.operate]
    split_ifs
    · trivial
    · exact knows_checkCur rate t s _

/-- The invariant is kept by every step, contested or not. -/
lemma inductive_sound (hrate : 0 ≤ rate) (hburst : 0 ≤ burst)
    (C : ι → Shared → Pc → Outcome → Prop) :
    Interleaving.Inductive act C (Sound rate burst) (Knows rate) := by
  constructor
  · intro t s pc o _ hs hpc
    have hknows : Knows rate t (s.wait o.elapsedNs) pc := hpc.mono (le_clockNs_wait s _)
    exact (hs.wait o.elapsedNs).operate hburst hknows o.spurious
  · intro t s pc o _ hs hpc
    have hknows : Knows rate t (s.wait o.elapsedNs) pc := hpc.mono (le_clockNs_wait s _)
    exact hknows.operate (hs.wait o.elapsedNs) hrate o.spurious
  · intro t s pc o _ _ _ t' pc' _ hpc'
    apply Knows.mono hpc'
    rw [act, clockNs_operate]
    exact le_clockNs_wait s _

/-! ## The potential -/

/-- The credit that a thread has taken and not yet added. -/
def credit : Pc → ℤ
  | .loadOldTokens addScaled => addScaled
  | .casNewTokens addScaled _ => addScaled
  | _ => 0

/-- The tokens there are and were, against the time of the last refill. -/
def potential (rate : ℤ) (s : Shared) : ℤ :=
  nsPerSec * (s.limiter.tokens + 1000 * s.granted) - rate * 1000 * s.limiter.lastRefillNs

/-- No operation raises the potential, as long as a compare-exchange of the time of the last refill
finds what was loaded: the time it moves on pays for the credit. -/
lemma potential_operate {t : ι} {s : Shared} {pc : Pc} (hknows : Knows rate t s pc)
    (hloaded : ∀ now last addScaled, pc = .casLastRefill now last addScaled →
      s.limiter.lastRefillNs = last) (spurious : Bool) :
    potential rate (operate s spurious pc).1 + nsPerSec * credit (operate s spurious pc).2 ≤
      potential rate s + nsPerSec * credit pc := by
  cases pc with
  | getNs => exact le_rfl
  | loadLastRefill now =>
    simp only [operate]
    split_ifs <;> exact le_rfl
  | loadTokensEarly => exact le_rfl
  | casLastRefill now last addScaled =>
    have hlast := hloaded now last addScaled rfl
    have hpaid := hknows.2.2
    simp only [operate, if_pos hlast, potential, credit]
    rw [hlast]
    linarith
  | loadOldTokens addScaled => exact le_rfl
  | casNewTokens addScaled oldTokens =>
    simp only [operate]
    split_ifs with hcas hover
    · simp only [potential, credit, nsPerSec]
      omega
    · simp only [potential, credit, nsPerSec]
      omega
    · exact le_rfl
  | loadCur =>
    simp only [operate, checkCur]
    split_ifs <;> exact le_rfl
  | casAcquire cur =>
    simp only [operate, checkCur]
    split_ifs with hcas
    · simp only [potential, credit, nsPerSec]
      push_cast
      omega
    · exact le_rfl
    · exact le_rfl

/-- What a thread has taken and not yet added is not negative. -/
lemma Knows.credit_nonneg {t : ι} {s : Shared} {pc : Pc} (h : Knows rate t s pc) :
    0 ≤ credit pc := by
  cases pc with
  | loadOldTokens addScaled => exact le_of_lt h
  | casNewTokens addScaled oldTokens => exact le_of_lt h
  | _ => exact le_rfl

section Bound

variable [Fintype ι]

/-- The invariant, with the tokens of all threads accounted for. -/
structure Paid (rate burst startNs : ℤ) (c : Interleaving.Config Shared ι Pc) :
    Prop where
  holds : Interleaving.Holds (Sound rate burst) (Knows rate) c
  total_le : Interleaving.total (potential rate) (fun pc => nsPerSec * credit pc) c ≤
    nsPerSec * (burst * 1000) - rate * 1000 * startNs

lemma paid_start (hburst : 0 ≤ burst) (startNs : ℤ) :
    Paid rate burst startNs (start (ι := ι) rate burst startNs) := by
  refine ⟨⟨⟨rfl, rfl, ?_, le_rfl⟩, fun _ => trivial⟩, ?_⟩
  · change 0 ≤ burst * 1000
    omega
  · simp [Interleaving.total, potential, credit, start, init]

variable [DecidableEq ι]

/-- An uncontested step keeps the accounts. -/
lemma Paid.step (hrate : 0 ≤ rate) (hburst : 0 ≤ burst) {startNs : ℤ}
    {c : Interleaving.Config Shared ι Pc} {p : ι × Outcome}
    (hp : Interleaving.Allows Uncontested c p) (h : Paid rate burst startNs c) :
    Paid rate burst startNs (Interleaving.step act c p) := by
  obtain ⟨t, o⟩ := p
  refine ⟨h.holds.step (inductive_sound hrate hburst Uncontested) hp, ?_⟩
  apply le_trans (Interleaving.total_step_le _) h.total_le
  have hknows : Knows rate t (c.shared.wait o.elapsedNs) (c.locals t) :=
    (h.holds.locals t).mono (le_clockNs_wait _ _)
  apply potential_operate hknows
  intro now last addScaled hpc
  have hloaded : c.shared.limiter.lastRefillNs = last := by
    simpa [Interleaving.Allows, Uncontested, hpc] using hp
  exact hloaded

/-- **Token bucket bound.**  In every interleaving of any number of threads in which no refill is
contested, no more is granted than the burst and what accrued since construction. -/
theorem granted_le_of_uncontested (hrate : 0 ≤ rate) (hburst : 0 ≤ burst) (startNs : ℤ)
    (steps : List (ι × Outcome))
    (h : Transition.Admissible (Interleaving.step act) (Interleaving.Allows Uncontested)
      (start rate burst startNs) steps) :
    let s := (Transition.run (Interleaving.step act) (start rate burst startNs) steps).shared
    (s.granted : ℚ) ≤ burst + rate * (s.clockNs - startNs) / 10 ^ 9 + 1 / 1000 := by
  have hpaid := Transition.invariant_run (fun _ _ hp hc => Paid.step hrate hburst hp hc) h
    (paid_start hburst startNs)
  generalize Transition.run (Interleaving.step act) (start rate burst startNs) steps = c at hpaid
  have hcredits : 0 ≤ ∑ t, nsPerSec * credit (c.locals t) :=
    Finset.sum_nonneg fun t _ => mul_nonneg (by decide) (hpaid.holds.locals t).credit_nonneg
  have htotal := hpaid.total_le
  have hspan : rate * 1000 * c.shared.limiter.lastRefillNs ≤ rate * 1000 * c.shared.clockNs :=
    mul_le_mul_of_nonneg_left hpaid.holds.shared.last_le (by omega)
  have htokens := hpaid.holds.shared.tokens_nonneg
  simp only [Interleaving.total, potential, nsPerSec] at htotal hcredits
  have hbound : 1000000000 * (c.shared.granted : ℤ) ≤
      1000000000 * burst + rate * (c.shared.clockNs - startNs) := by
    linarith
  have hbound' : 1000000000 * (c.shared.granted : ℚ) ≤
      1000000000 * burst + rate * (c.shared.clockNs - startNs) := by
    exact_mod_cast hbound
  dsimp only
  linarith

end Bound

/-! ## A call that nobody disturbs -/

/-- One operation of a thread that is alone, at once. -/
def operateAlone (p : Shared × Pc) : Shared × Pc :=
  operate p.1 false p.2

/-- What the call of `try_acquire` does to the shared state when it is made at once. -/
def tryAcquireAtOnce (s : Shared) : Shared :=
  { s with
    limiter := (s.limiter.tryAcquire s.clockNs).1
    granted := s.granted + if (s.limiter.tryAcquire s.clockNs).2 then 1 else 0 }

/-- The second half of a call takes a token if there is one. -/
lemma operateAlone_loadCur (s : Shared) :
    ∃ n, operateAlone^[n] (s, .loadCur) =
      if 1000 ≤ s.limiter.tokens then
        ({ s with
          limiter := { s.limiter with tokens := s.limiter.tokens - 1000 }
          granted := s.granted + 1 }, .getNs)
      else (s, .getNs) := by
  by_cases h : 1000 ≤ s.limiter.tokens
  · have hcheck : checkCur s.limiter.tokens = .casAcquire s.limiter.tokens := if_neg (by omega)
    exact ⟨2, by simp [operateAlone, operate, hcheck, h]⟩
  · have hcheck : checkCur s.limiter.tokens = .getNs := if_pos (by omega)
    exact ⟨1, by simp [operateAlone, operate, hcheck, h]⟩

/-- The first half of a call refills the bucket. -/
lemma operateAlone_refill (s : Shared) :
    ∃ n, operateAlone^[n] (s, .getNs) =
      ({ s with limiter := s.limiter.refill s.clockNs }, .loadCur) := by
  by_cases hearly : s.clockNs - s.limiter.lastRefillNs ≤ 0
  · exact ⟨3, by simp [operateAlone, operate, refill, hearly]⟩
  by_cases hnone :
      ((s.clockNs - s.limiter.lastRefillNs) * s.limiter.rateNsScaled).tdiv 1000000000 ≤ 0
  · exact ⟨3, by simp [operateAlone, operate, refill, hearly, hnone]⟩
  · exact ⟨5, by simp [operateAlone, operate, refill, hearly, hnone]⟩

/-- **One thread.**  The atomic operations of a call that nobody disturbs come to the call of
`try_acquire` that is made at once. -/
theorem operateAlone_call (s : Shared) :
    ∃ n, operateAlone^[n] (s, .getNs) = (tryAcquireAtOnce s, .getNs) := by
  obtain ⟨m, hm⟩ := operateAlone_refill s
  obtain ⟨n, hn⟩ := operateAlone_loadCur { s with limiter := s.limiter.refill s.clockNs }
  refine ⟨n + m, ?_⟩
  rw [Function.iterate_add_apply, hm, hn, tryAcquireAtOnce]
  by_cases htoken : 1000 ≤ (s.limiter.refill s.clockNs).tokens
  · rw [if_pos htoken, tryAcquire_of_hasToken htoken]
    rfl
  · rw [if_neg htoken, tryAcquire_of_not_hasToken htoken]
    rfl

/-! ## Two threads -/

/-- Steps that are taken one right after the other. -/
def atOnce (threads : List Bool) : List (Bool × Outcome) :=
  threads.map (·, ⟨0, false⟩)

/-- Both threads take a token: one at once and one a second later, when its refill is due. -/
def uncontestedSteps : List (Bool × Outcome) :=
  atOnce (List.replicate 5 false) ++
    (true, ⟨1000000000, false⟩) :: atOnce (List.replicate 6 true)

theorem granted_le_of_uncontested_twoThreads :
    let s := (Transition.run (Interleaving.step act) (start 1 1 0) uncontestedSteps).shared
    (s.granted : ℚ) ≤
      ((1 : ℤ) : ℚ) + ((1 : ℤ) : ℚ) * (s.clockNs - ((0 : ℤ) : ℚ)) / 10 ^ 9 + 1 / 1000 :=
  granted_le_of_uncontested (by decide) (by decide) 0 uncontestedSteps (by decide)

/-- A thread takes the token of a limiter of one token a second.  A second later both threads load
the time of the last refill before either of them moves it, and both add the credit of the same
second. -/
def contestedSteps : List (Bool × Outcome) :=
  atOnce (List.replicate 5 false) ++
    (false, ⟨1000000000, false⟩) :: atOnce ([true, false, true] ++ List.replicate 5 false ++
      List.replicate 5 true)

/-- Three tokens are granted in a second, by a limiter of one token a second and a burst of one. -/
theorem granted_gt_contested :
    let s := (Transition.run (Interleaving.step act) (start 1 1 0) contestedSteps).shared
    s.granted = 3 ∧ s.clockNs = 1000000000 ∧
      ¬(s.granted : ℚ) ≤
        ((1 : ℤ) : ℚ) + ((1 : ℤ) : ℚ) * (s.clockNs - ((0 : ℤ) : ℚ)) / 10 ^ 9 + 1 / 1000 := by
  have hgranted : (Transition.run (Interleaving.step act) (start 1 1 0)
      contestedSteps).shared.granted = 3 := by decide
  have hclock : (Transition.run (Interleaving.step act) (start 1 1 0)
      contestedSteps).shared.clockNs = 1000000000 := by decide
  dsimp only
  rw [hgranted, hclock]
  norm_num

end Race

end RateLimiter

end QuantTrade

import Mathlib.Data.Fintype.Basic
import QuantTrade.Library.Interleaving
import QuantTrade.Risk.BreakerLatch

/-!
# A reset that races with a loss

`CircuitBreaker::update_pnl` and `reset` of `src/risk/circuit_breaker.cpp`, one atomic operation at
a time, in any number of threads.  `update_pnl` adds to the profit and loss and then changes the
state; `reset` clears the profit and loss and then the state.  A loss that is booked and trips the
breaker between the two stores of a reset stays in the books, while the trip is overwritten
(`closed_of_uncovered`).  As long as no reset closes the breaker over a loss that nobody is about
to trip it for, the breaker is not closed while the loss is past the limit
(`not_closed_of_covered`).
-/

namespace QuantTrade

namespace CircuitBreaker

namespace Race

/-- Where a thread is: the next atomic operation. -/
inductive Pc where
  /-- Not in a call; the next step begins one. -/
  | idle
  /-- `update_pnl` is about to exchange `CLOSED` for `OPEN`. -/
  | casOpen
  /-- `update_pnl` is about to exchange `OPEN` for `HALF_OPEN`. -/
  | casHalfOpen
  /-- `reset` is about to store `CLOSED`. -/
  | storeState
  deriving DecidableEq

/-- The operation of `update_pnl` that follows its `fetch_add`, if any. -/
def afterAdd (cb : CircuitBreaker) (newPnl : ℤ) : Pc :=
  if newPnl ≤ cb.openThreshold then .casOpen
  else if newPnl > cb.halfOpenThreshold then .casHalfOpen
  else .idle

/-- One atomic operation; `call` is the call that a thread begins when it is not in one. -/
def operate (cb : CircuitBreaker) (call : Call) : Pc → CircuitBreaker × Pc
  | .idle =>
    match call with
    | .updatePnl delta =>
      ({ cb with dailyPnl := cb.dailyPnl + delta }, afterAdd cb (cb.dailyPnl + delta))
    | .reset => ({ cb with dailyPnl := 0 }, .storeState)
  | .casOpen => ({ cb with state := if cb.state = .closed then .open else cb.state }, .idle)
  | .casHalfOpen => ({ cb with state := if cb.state = .open then .halfOpen else cb.state }, .idle)
  | .storeState => ({ cb with state := .closed }, .idle)

variable {ι : Type}

/-- One step of a thread. -/
def act (_ : ι) (cb : CircuitBreaker) (pc : Pc) (call : Call) : CircuitBreaker × Pc :=
  operate cb call pc

/-- A new breaker, and no thread in a call. -/
def start (openThreshold : ℤ) : Interleaving.Config CircuitBreaker ι Pc where
  shared := init openThreshold
  locals := fun _ => .idle

/-- A thread that takes the last step of a reset finds a profit and loss above the threshold, or a
loss that a thread is about to trip the breaker for. -/
def Covered (c : Interleaving.Config CircuitBreaker ι Pc) (p : ι × Call) : Prop :=
  c.locals p.1 = .storeState →
    c.shared.openThreshold < c.shared.dailyPnl ∨ ∃ t, c.locals t = .casOpen

instance [Fintype ι] (c : Interleaving.Config CircuitBreaker ι Pc) (p : ι × Call) :
    Decidable (Covered c p) :=
  inferInstanceAs (Decidable (_ → _ ∨ _))

/-! ## The invariant -/

/-- A profit and loss past the limit finds the breaker tripped, or a thread about to trip it. -/
structure Guarded (openThreshold : ℤ) (c : Interleaving.Config CircuitBreaker ι Pc) : Prop where
  openThreshold_eq : c.shared.openThreshold = openThreshold
  tripped : c.shared.dailyPnl ≤ openThreshold →
    c.shared.state ≠ .closed ∨ ∃ t, c.locals t = .casOpen

lemma guarded_start {openThreshold : ℤ} (h : openThreshold < 0) :
    Guarded openThreshold (start (ι := ι) openThreshold) :=
  ⟨rfl, fun hle => absurd hle (not_le.mpr h)⟩

variable [DecidableEq ι]

/-- A step that leaves a thread at the trip, or takes none there, keeps the guard. -/
private lemma exists_casOpen_step {c : Interleaving.Config CircuitBreaker ι Pc} {t : ι}
    {call : Call} (ht : c.locals t ≠ .casOpen) (h : ∃ t', c.locals t' = .casOpen) :
    ∃ t', (Interleaving.step act c (t, call)).locals t' = .casOpen := by
  obtain ⟨t', ht'⟩ := h
  refine ⟨t', ?_⟩
  rw [Interleaving.locals_step_of_ne, ht']
  rintro rfl
  exact ht ht'

/-- Every covered step keeps the guard: the cases are the next operations of the thread. -/
lemma Guarded.step {openThreshold : ℤ} (hneg : openThreshold < 0)
    {c : Interleaving.Config CircuitBreaker ι Pc} (h : Guarded openThreshold c) {p : ι × Call}
    (hcovered : Covered c p) : Guarded openThreshold (Interleaving.step act c p) := by
  obtain ⟨t, call⟩ := p
  have hthreshold := h.openThreshold_eq
  cases hpc : c.locals t with
  | idle =>
    cases call with
    | updatePnl delta =>
      refine ⟨by simp [act, hpc, operate, hthreshold], ?_⟩
      intro hle
      have hle' : c.shared.dailyPnl + delta ≤ c.shared.openThreshold := by
        simpa [act, hpc, operate, hthreshold] using hle
      -- the loss is past the limit, so the thread that booked it trips the breaker next
      exact Or.inr ⟨t, by simp [act, hpc, operate, afterAdd, hle']⟩
    | reset =>
      refine ⟨by simp [act, hpc, operate, hthreshold], ?_⟩
      intro hle
      have hle' : 0 ≤ openThreshold := by simpa [act, hpc, operate] using hle
      omega
  | casOpen =>
    refine ⟨by simp [act, hpc, operate, hthreshold], fun _ => Or.inl ?_⟩
    cases hstate : c.shared.state <;> simp [act, hpc, operate, hstate]
  | casHalfOpen =>
    refine ⟨by simp [act, hpc, operate, hthreshold], ?_⟩
    intro hle
    rcases h.tripped (by simpa [act, hpc, operate] using hle) with hstate | htrip
    · left
      cases hstate' : c.shared.state <;> simp_all [act, operate]
    · exact Or.inr (exists_casOpen_step (by rw [hpc]; decide) htrip)
  | storeState =>
    refine ⟨by simp [act, hpc, operate, hthreshold], ?_⟩
    intro hle
    have hle' : c.shared.dailyPnl ≤ openThreshold := by simpa [act, hpc, operate] using hle
    rcases hcovered hpc with habove | htrip
    · omega
    · exact Or.inr (exists_casOpen_step (by rw [hpc]; decide) htrip)

/-- A step that is not covered closes the breaker over a loss that is past the limit, and no thread
is about to trip it. -/
theorem closed_of_uncovered {c : Interleaving.Config CircuitBreaker ι Pc} {t : ι} {call : Call}
    (h : ¬Covered c (t, call)) :
    let c' := Interleaving.step act c (t, call)
    c'.shared.dailyPnl ≤ c'.shared.openThreshold ∧ c'.shared.state = .closed ∧
      ∀ t', c'.locals t' ≠ .casOpen := by
  simp only [Covered, Classical.not_imp, not_or, not_lt, not_exists] at h
  obtain ⟨hpc, hle, hnone⟩ := h
  refine ⟨by simpa [act, hpc, operate] using hle, by simp [act, hpc, operate], ?_⟩
  intro t'
  by_cases ht : t' = t
  · subst ht
    simp [act, hpc, operate]
  · rw [Interleaving.locals_step_of_ne act c ht]
    exact hnone t'

/-- **No orders past the limit.**  In every interleaving of any number of threads in which every
reset is covered, whenever no call is in progress and the profit and loss is at or below the
threshold, the breaker is not closed. -/
theorem not_closed_of_covered {openThreshold : ℤ} (hneg : openThreshold < 0)
    (steps : List (ι × Call))
    (h : Transition.Admissible (Interleaving.step act) Covered (start openThreshold) steps) :
    let c := Transition.run (Interleaving.step act) (start openThreshold) steps
    (∀ t, c.locals t = .idle) → c.shared.dailyPnl ≤ openThreshold → c.shared.state ≠ .closed := by
  intro c hidle hle
  have hguard : Guarded openThreshold c :=
    Transition.invariant_run (P := Guarded openThreshold) (fun _ _ hp hc => hc.step hneg hp) h
      (guarded_start hneg)
  rcases hguard.tripped hle with hstate | ⟨t, ht⟩
  · exact hstate
  · rw [hidle t] at ht
    cases ht

/-! ## A call that nobody disturbs -/

/-- **One thread.**  The atomic operations of a call that nobody disturbs come to the call that is
made at once. -/
theorem operate_call (cb : CircuitBreaker) (call : Call) :
    let p := operate cb call .idle
    (if p.2 = .idle then p.1 else (operate p.1 call p.2).1) = cb.perform call := by
  cases call with
  | updatePnl delta =>
    by_cases hopen : cb.dailyPnl + delta ≤ cb.openThreshold
    · simp [operate, afterAdd, perform, updatePnl, hopen]
    · by_cases hhalf : cb.dailyPnl + delta > cb.halfOpenThreshold
      · simp [operate, afterAdd, perform, updatePnl, hopen, hhalf]
      · simp [operate, afterAdd, perform, updatePnl, hopen, hhalf]
  | reset => rfl

/-! ## Two threads -/

/-- The loss is booked between the two stores of a reset, and the reset stores `CLOSED` while the
trip is still to come. -/
def coveredSteps : List (Fin 2 × Call) :=
  [(1, .reset), (0, .updatePnl (-100)), (1, .reset), (0, .updatePnl (-100))]

theorem not_closed_of_covered_race :
    let c := Transition.run (Interleaving.step act) (start (-50)) coveredSteps
    c.shared.dailyPnl = -100 ∧ c.shared.state ≠ .closed :=
  ⟨by decide, not_closed_of_covered (by decide) coveredSteps (by decide) (by decide) (by decide)⟩

/-- The loss is booked and trips the breaker between the two stores of a reset. -/
def raceSteps : List (Fin 2 × Call) :=
  [(1, .reset), (0, .updatePnl (-100)), (0, .updatePnl (-100)), (1, .reset)]

/-- After the race no call is in progress, the loss of 100 is past the limit of 50, and orders are
allowed. -/
theorem closed_race :
    let c := Transition.run (Interleaving.step act) (start (-50)) raceSteps
    (∀ t, c.locals t = .idle) ∧ c.shared.dailyPnl = -100 ∧ c.shared.dailyPnl ≤ -50 ∧
      c.shared.state = .closed ∧ c.shared.allowOrder = true := by
  decide

end Race

end CircuitBreaker

end QuantTrade

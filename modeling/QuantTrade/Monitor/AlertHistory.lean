import QuantTrade.Library.CriticalSection
import QuantTrade.Monitor.Alerting

/-!
# The history of alerts

`Alerting::fire` and `Alerting::count` of `src/monitor/alerting.cpp`, which share `history_` under
the mutex `mu_`.  Each access to the vector is a step of its own, and any number of threads make the
calls.  What they see is the list of the last `kMaxHistory` alerts fired, `recent`.
-/

namespace QuantTrade

/-- `Alert`. -/
structure Alert where
  level : AlertLevel
  name : List UInt8
  message : List UInt8
  tsNs : UInt64
  deriving DecidableEq, Repr

namespace Alerting

/-- `kMaxHistory`. -/
def maxHistory : ℕ := 1000

/-- The part of `fire` under the lock. -/
def fireCode (a : Alert) : AtomicProgram (List Alert) PUnit := do
  let size ← .read List.length
  if size ≥ maxHistory then .write List.tail else pure ⟨⟩
  .write fun history => history ++ [a]

/-- `count`: the loop over the history. -/
def countCode (level : AlertLevel) : AtomicProgram (List Alert) ℕ := do
  let size ← .read List.length
  (List.range size).foldlM
    (fun n i => do
      let a ← .read fun history => history[i]?
      return if a.map Alert.level = some level then n + 1 else n)
    0

/-- A call that takes the mutex; the time stamp of an alert is read before it is taken. -/
inductive Call where
  | fire (a : Alert)
  | count (level : AlertLevel)
  deriving DecidableEq

/-- What is executed under the lock; `fire` returns nothing. -/
def Call.code : Call → AtomicProgram (List Alert) (Option ℕ)
  | .fire a => do
    fireCode a
    return none
  | .count level => do
    let n ← countCode level
    return some n

/-- What `fire` does to the history: a full one loses its first alert. -/
def record (a : Alert) (history : List Alert) : List Alert :=
  (if history.length ≥ maxHistory then history.tail else history) ++ [a]

/-- What a call does, and returns, when it happens at once. -/
def Call.perform : Call → List Alert → List Alert × Option ℕ
  | .fire a, history => (record a history, none)
  | .count level, history => (history, some (history.countP fun a => a.level = level))

/-! ## The calls on their own -/

lemma exec_fireCode (a : Alert) (history : List Alert) :
    (fireCode a).exec history = (record a history, ⟨⟩) := by
  by_cases hfull : history.length ≥ maxHistory <;> simp [fireCode, record, hfull]

/-- The loop of `count` from the alert at the index `k` on. -/
lemma foldl_count (level : AlertLevel) (history : List Alert) (n k : ℕ) (rest : List Alert)
    (h : history.drop k = rest) :
    (List.range' k rest.length).foldl
        (fun p i => (p.1, if (p.1[i]?).map Alert.level = some level then p.2 + 1 else p.2))
        (history, n) =
      (history, n + rest.countP fun a => a.level = level) := by
  induction rest generalizing n k with
  | nil => rfl
  | cons a rest ih =>
    have hget : history[k]? = some a := by
      rw [← List.head?_drop, h, List.head?_cons]
    have hdrop : history.drop (k + 1) = rest := by
      rw [← List.tail_drop, h, List.tail_cons]
    rw [List.length_cons, List.range'_succ, List.foldl_cons, hget]
    rw [ih _ _ hdrop, List.countP_cons]
    by_cases hlevel : a.level = level
    · simp [hlevel, Nat.add_assoc, Nat.add_comm]
    · simp [hlevel]

lemma exec_countCode (level : AlertLevel) (history : List Alert) :
    (countCode level).exec history = (history, history.countP fun a => a.level = level) := by
  rw [countCode, AtomicProgram.exec_bind, AtomicProgram.exec_read, AtomicProgram.exec_foldlM,
    List.range_eq_range']
  exact (foldl_count level history 0 0 history List.drop_zero).trans (by rw [Nat.zero_add])

/-- Run alone, a call does what it does at once. -/
lemma exec_code (call : Call) (history : List Alert) :
    call.code.exec history = call.perform history := by
  cases call with
  | fire a => rw [Call.code, AtomicProgram.exec_bind, exec_fireCode]; rfl
  | count level => rw [Call.code, AtomicProgram.exec_bind, exec_countCode]; rfl

/-! ## The last alerts -/

/-- What the vector is there for: the last alerts fired. -/
def recent (alerts : List Alert) : List Alert :=
  alerts.drop (alerts.length - maxHistory)

/-- One alert more pushes out at most one. -/
lemma record_recent (a : Alert) (alerts : List Alert) :
    record a (recent alerts) = recent (alerts ++ [a]) := by
  have hlength : (alerts ++ [a]).length = alerts.length + 1 := by simp
  rcases Nat.lt_or_ge alerts.length maxHistory with hlt | hge
  · have hnow : alerts.length - maxHistory = 0 := by omega
    have hnext : alerts.length + 1 - maxHistory = 0 := by omega
    rw [record, recent, recent, hlength, hnow, hnext, List.drop_zero, List.drop_zero,
      if_neg (Nat.not_le.mpr hlt)]
  · have hfull : (recent alerts).length ≥ maxHistory := by
      rw [recent, List.length_drop]
      omega
    have hnext : alerts.length + 1 - maxHistory = alerts.length - maxHistory + 1 := by omega
    rw [record, if_pos hfull, recent, List.tail_drop, recent, hlength, hnext,
      List.drop_append_of_le_length]
    have hpos : 0 < maxHistory := by decide
    omega

/-- The alerts that the calls of a log fire. -/
def fired {ι : Type} (log : List (ι × Call × Option ℕ)) : List Alert :=
  log.filterMap fun e =>
    match e.2.1 with
    | .fire a => some a
    | .count _ => none

/-- The history holds the last alerts fired. -/
lemma after_eq_recent {ι : Type} (log : List (ι × Call × Option ℕ)) :
    CriticalSection.after Call.perform [] log = recent (fired log) := by
  have hinit : [] = recent (fired ([] : List (ι × Call × Option ℕ))) := by
    rw [fired, List.filterMap_nil, recent, List.drop_nil]
  refine CriticalSection.after_induction Call.perform
    (P := fun history log => history = recent (fired log)) hinit ?_ log
  intro history log e hhistory
  obtain ⟨t, call, r⟩ := e
  cases call with
  | fire a =>
    have hfired : fired (log ++ [(t, .fire a, r)]) = fired log ++ [a] := by simp [fired]
    rw [hfired, ← record_recent, ← hhistory]
    rfl
  | count level =>
    have hfired : fired (log ++ [(t, .count level, r)]) = fired log := by simp [fired]
    rw [hfired, ← hhistory]
    rfl

/-- The threads `ι` with a new object, after the steps `as` in the order in which the threads take
them. -/
def threads {ι : Type} [DecidableEq ι] (as : List (ι × Call)) :
    Interleaving.Config (CriticalSection.Guarded (List Alert) ι Call (Option ℕ)) ι
      (CriticalSection.Client (List Alert) Call (Option ℕ)) :=
  CriticalSection.run Call.code [] as

/-- **The history is the last alerts.**  In every interleaving of the accesses of any number of
threads that fire alerts and count them, there is one order of the calls, the one in which they
release the mutex, such that a history that nobody holds consists of the last alerts fired in this
order, at most `kMaxHistory`, and each `count` returns the number of alerts of its level among the
last ones before it.  No alert is lost or recorded twice when two threads fire at once. -/
theorem history_eq_recent {ι : Type} [DecidableEq ι] (as : List (ι × Call)) :
    CriticalSection.Linearized Call.perform [] (threads as) ∧
      ((threads as).shared.holder = none →
        (threads as).shared.memory = recent (fired (threads as).shared.log)) ∧
      (∀ before t level r behind,
        (threads as).shared.log = before ++ (t, .count level, r) :: behind →
          r = some ((recent (fired before)).countP fun a => a.level = level)) ∧
      ∀ bs, (threads as).shared.log <+: (threads (as ++ bs)).shared.log := by
  have hlin : CriticalSection.Linearized Call.perform [] (threads as) :=
    CriticalSection.linearized_run exec_code [] as
  refine ⟨hlin, ?_, ?_, ?_⟩
  · intro hfree
    rw [hlin.free hfree, after_eq_recent]
  · intro before t level r behind hlog
    have hlegal := hlin.legal
    rw [hlog] at hlegal
    have hanswer := CriticalSection.Legal.answer_eq Call.perform hlegal
    rw [after_eq_recent] at hanswer
    exact hanswer
  · exact CriticalSection.log_prefix Call.code [] as

end Alerting

end QuantTrade

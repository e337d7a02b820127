import QuantTrade.Strategy.Momentum

/-!
# Opening a position again

`Momentum` does not follow the same signal twice: it keeps the signal of its last opening order
until it closes the position.  An opening order that expires leaves no position to close, so the
signal stays, and the same signal is not followed when it comes back.  A signal that appears while
the strategy is flat is answered exactly when it is not the one that is kept (`responds_iff`).
-/

namespace QuantTrade

namespace Momentum.Session

variable {F : Type} [Doubles F]

/-- A signal appears at the event, while there is no position and nothing on its way: it was not
there at the event before. -/
def Appears (s : Session F) (e : BBOEvent) : Prop :=
  let sig := (s.strategy.updated e).computeSignal
  s.strategy.accepts e = true ∧ s.strategy.inventory = 0 ∧ s.outstanding = [] ∧ sig ≠ .none ∧
    ∃ prev ∈ s.lastComputed, prev ≠ sig

/-- A signal that appears is answered by one order, in its direction and for the quantity of the
strategy. -/
def Responds (s : Session F) : Action → Prop
  | .bbo e =>
    s.Appears e → ∃ req,
      (s.strategy.onBboImpl e).orderQueue.contents = s.strategy.orderQueue.contents ++ [req] ∧
        req.side = (if (s.strategy.updated e).computeSignal = .long then .buy else .sell) ∧
        req.qty = s.strategy.orderQty
  | .fill _ _ => True
  | .expire _ => True
  | .pop => True

/-- A signal that appears is not the one of the last opening order that was not closed. -/
def IsNew (s : Session F) : Action → Prop
  | .bbo e => s.Appears e → s.strategy.lastSignal ≠ (s.strategy.updated e).computeSignal
  | .fill _ _ => True
  | .expire _ => True
  | .pop => True

/-- The queue is not full. -/
def HasRoom (s : Session F) (_ : Action) : Prop :=
  s.strategy.orderQueue.size < 1024

instance (s : Session F) : DecidablePred s.HasRoom :=
  fun _ => inferInstanceAs (Decidable (_ < _))

/-- The one order that an event sends while there is no position. -/
lemma sent_of_flat {s : Session F} {e : BBOEvent} (h : s.Appears e) :
    s.strategy.requests e =
      if s.strategy.lastSignal ≠ (s.strategy.updated e).computeSignal then
        [(s.strategy.updated e).openRequest (s.strategy.updated e).computeSignal]
      else [] := by
  obtain ⟨haccepts, hflat, -, hsignal, -⟩ := h
  obtain ⟨-, hinventory, hlast, -, -⟩ := s.strategy.updated_frame e
  have henters : (s.strategy.updated e).enters = true ↔
      s.strategy.lastSignal ≠ (s.strategy.updated e).computeSignal := by
    rw [enters, hlast, decide_eq_true_iff]
    exact ⟨fun h => h.2.symm, fun h => ⟨hsignal, h.symm⟩⟩
  rw [requests, haccepts]
  simp only [Bool.not_true, Bool.false_eq_true, if_false, hinventory, hflat, if_true, henters]

/-- With room in the queue, a signal that appears is answered exactly when it is new. -/
lemma responds_step {s : Session F} {a : Action} (hroom : s.HasRoom a) :
    s.Responds a ↔ s.IsNew a := by
  cases a with
  | fill k qty => exact Iff.rfl
  | expire k => exact Iff.rfl
  | pop => exact Iff.rfl
  | bbo e =>
    refine forall_congr' fun happears => ?_
    obtain ⟨-, -, -, -, hqty⟩ := s.strategy.updated_frame e
    have hcontents := s.strategy.contents_onBboImpl e
    rw [sent_of_flat happears] at hcontents
    by_cases hnew : s.strategy.lastSignal ≠ (s.strategy.updated e).computeSignal
    · refine iff_of_true ⟨(s.strategy.updated e).openRequest _, ?_, rfl, hqty⟩ hnew
      rw [hcontents, if_pos hnew, List.take_of_length_le]
      rw [List.length_append, SPSCQueue.length_contents]
      exact hroom
    · refine iff_of_false ?_ hnew
      rintro ⟨req, hreq, -⟩
      rw [hcontents, if_neg hnew, List.append_nil, SPSCQueue.take_contents] at hreq
      have hlength := congrArg List.length hreq
      rw [List.length_append, List.length_singleton] at hlength
      omega

/-- **No deafness.**  In a run in which the queue is never full, every signal that appears while the
strategy is flat, with nothing on its way, is answered by one opening order, exactly when none of
these signals is the one that was kept from the last opening order. -/
theorem responds_iff (instrumentId : ℕ)
    (fastPeriod slowPeriod orderQty signalBand maxAdverse : ℤ) (as : List Action) :
    let s : Session F :=
      start (init instrumentId fastPeriod slowPeriod orderQty signalBand maxAdverse)
    Transition.Admissible step HasRoom s as →
      (Transition.Admissible step Responds s as ↔ Transition.Admissible step IsNew s as) := by
  intro s hroom
  simp only [Transition.admissible_iff_forall_run] at hroom ⊢
  refine forall_congr' fun bs => forall_congr' fun a => forall_congr' fun hpre => ?_
  exact responds_step (hroom bs a hpre)

/-- The rule for a signal whose order is filled. -/
theorem responds_iff_filled :
    let s : Session ℚ := start (init 1 1 3 100 1 10)
    let as : List Action :=
      [quoteAt 100, quoteAt 100, quoteAt 100, quoteAt 110, .fill 0 100, quoteAt 105, .fill 0 100]
    Transition.Admissible step Responds s as ↔ Transition.Admissible step IsNew s as :=
  responds_iff 1 1 3 100 1 10 _ (by decide +kernel)

/-- The order of a signal expires, the signal goes and comes back: no order is sent. -/
theorem not_responds_expired :
    ¬∀ (F : Type) [Doubles F] (instrumentId : ℕ)
      (fastPeriod slowPeriod orderQty signalBand maxAdverse : ℤ) (as : List Action),
      let s : Session F :=
        start (init instrumentId fastPeriod slowPeriod orderQty signalBand maxAdverse)
      Transition.Admissible step HasRoom s as → Transition.Admissible step Valid s as →
        Transition.Admissible step Responds s as := by
  intro h
  let before : List Action :=
    [quoteAt 100, quoteAt 100, quoteAt 100, quoteAt 110, .expire 0, quoteAt 105]
  have hall := h ℚ 1 1 3 100 1 10 (before ++ [quoteAt 115]) (by decide +kernel) (by decide +kernel)
  obtain ⟨req, hreq, -⟩ :=
    Transition.admissible_iff_forall_run.mp hall before (quoteAt 115) List.prefix_rfl
      ⟨by decide +kernel, by decide +kernel, by decide +kernel, by decide +kernel,
        .none, by decide +kernel, by decide +kernel⟩
  have hlength := congrArg List.length hreq
  rw [List.length_append, List.length_singleton] at hlength
  exact absurd hlength (by decide +kernel)

end Momentum.Session

end QuantTrade

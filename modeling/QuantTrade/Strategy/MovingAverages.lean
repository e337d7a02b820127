import Mathlib.Algebra.Order.Ring.Rat
import Mathlib.Data.Int.ConditionallyCompleteOrder
import Mathlib.Data.List.Induction
import QuantTrade.Library.Smoothing
import QuantTrade.Strategy.Momentum

/-!
# The moving averages

In exact arithmetic the two averages of `Momentum` are the smoothed averages of the middles of the
events that it accepts, whatever is filled, expires or is popped between them, and the signal
compares the two (`signal_of_middles`).  So the averages stay in the range of the middles: an order
is never further than one tick from it (`price_in_market`), and in a market that moves by no more
than the band there is no order at all (`silent_of_quiet`).
-/

namespace QuantTrade

namespace Momentum

/-! ## What a step does to the averages -/

section Steps

variable {F : Type}

/-- Strategies that differ in their queue, their position and what is noted of it. -/
def SameAverages (m m' : Momentum F) : Prop :=
  ∃ queue signal price inventory,
    m' =
      { m with
        orderQueue := queue
        lastSignal := signal
        entryPrice := price
        inventory := inventory }

lemma SameAverages.refl (m : Momentum F) : SameAverages m m :=
  ⟨m.orderQueue, m.lastSignal, m.entryPrice, m.inventory, rfl⟩

lemma SameAverages.trans {m m' m'' : Momentum F} (h : SameAverages m m')
    (h' : SameAverages m' m'') : SameAverages m m'' := by
  obtain ⟨_, _, _, _, rfl⟩ := h
  obtain ⟨queue, signal, price, inventory, rfl⟩ := h'
  exact ⟨queue, signal, price, inventory, rfl⟩

variable [Doubles F]

lemma sameAverages_closePosition (m : Momentum F) : SameAverages m m.closePosition := by
  unfold closePosition
  split_ifs <;> exact ⟨_, _, _, _, rfl⟩

lemma sameAverages_followSignal (m : Momentum F) : SameAverages m m.followSignal := by
  unfold followSignal
  split_ifs
  · exact ⟨_, _, _, _, rfl⟩
  · exact .refl m
  · exact m.sameAverages_closePosition
  · exact .refl m

/-- After the averages are updated, an event leaves them. -/
lemma sameAverages_onBboImpl {m : Momentum F} {e : BBOEvent} (h : m.accepts e = true) :
    SameAverages (m.updated e) (m.onBboImpl e) := by
  have hstop : SameAverages (m.updated e) ((m.updated e).checkStopLoss e.midPrice) := by
    unfold checkStopLoss
    split_ifs
    · exact sameAverages_closePosition _
    · exact .refl _
  rw [onBboImpl, if_pos h]
  exact hstop.trans (sameAverages_followSignal _)

namespace Session

/-- The middle that goes into the averages at an action, if the strategy for the instrument accepts
one. -/
def middle? (instrumentId : ℕ) : Action → Option ℤ
  | .bbo e => if e.instrumentId = instrumentId ∧ e.isValidBbo then some e.midPrice else none
  | _ => none

/-- The middles that go into the averages. -/
def middles (instrumentId : ℕ) (as : List Action) : List ℤ :=
  as.filterMap (middle? instrumentId)

variable {s : Session F} {a : Action}

/-- An action without a middle leaves the averages. -/
lemma sameAverages_step_of_none (h : middle? s.strategy.instrumentId a = none) :
    SameAverages s.strategy (s.step a).strategy := by
  cases a with
  | bbo e =>
    have hrefused : ¬s.strategy.accepts e = true := by
      rw [accepts, decide_eq_true_iff]
      exact fun haccepts => Option.some_ne_none _ ((if_pos haccepts).symm.trans h)
    dsimp only [step]
    rw [onBboImpl, if_neg hrefused]
    exact .refl _
  | fill k qty =>
    unfold step onFillImpl
    dsimp only
    split
    · exact .refl _
    · dsimp only
      split_ifs <;> exact ⟨_, _, _, _, rfl⟩
  | expire k => exact .refl _
  | pop => exact ⟨_, _, _, _, rfl⟩

/-- A middle goes into the averages once. -/
lemma sameAverages_step_of_some {mid : ℤ} (h : middle? s.strategy.instrumentId a = some mid) :
    SameAverages (s.strategy.updateEma (Doubles.ofInt mid)) (s.step a).strategy := by
  cases a with
  | bbo e =>
    dsimp only [middle?] at h
    split_ifs at h with haccepts
    obtain rfl := Option.some_inj.mp h
    exact sameAverages_onBboImpl (decide_eq_true haccepts)
  | fill k qty => exact absurd h (by simp [middle?])
  | expire k => exact absurd h (by simp [middle?])
  | pop => exact absurd h (by simp [middle?])

end Session

end Steps

/-! ## The averages of a session -/

section Exact

open Smoothing (average smooth)

/-- The strategy after these middles, with the settings it was built with. -/
structure Averaged (instrumentId : ℕ) (fastPeriod slowPeriod signalBand : ℤ) (mids : List ℤ)
    (m : Momentum ℚ) : Prop where
  instrumentId_eq : m.instrumentId = instrumentId
  warmupNeeded_eq : m.warmupNeeded = slowPeriod
  signalBand_eq : m.signalBand = signalBand
  fastAlpha_eq : m.fastAlpha = 2 / (fastPeriod + 1)
  slowAlpha_eq : m.slowAlpha = 2 / (slowPeriod + 1)
  warmupCount_eq : m.warmupCount = min (mids.length : ℤ) slowPeriod
  fastEma_eq : m.fastEma = average (2 / (fastPeriod + 1 : ℚ)) (mids.map (↑))
  slowEma_eq : m.slowEma = average (2 / (slowPeriod + 1 : ℚ)) (mids.map (↑))

variable {instrumentId : ℕ} {fastPeriod slowPeriod orderQty signalBand maxAdverse : ℤ}
  {mids : List ℤ} {m m' : Momentum ℚ}

lemma averaged_init (hslow : 1 ≤ slowPeriod) :
    Averaged instrumentId fastPeriod slowPeriod signalBand []
      (init instrumentId fastPeriod slowPeriod orderQty signalBand maxAdverse) where
  instrumentId_eq := rfl
  warmupNeeded_eq := rfl
  signalBand_eq := rfl
  fastAlpha_eq := by simp [init, Doubles.lit, Doubles.ofInt]
  slowAlpha_eq := by simp [init, Doubles.lit, Doubles.ofInt]
  warmupCount_eq := by
    rw [List.length_nil, Nat.cast_zero, min_eq_left (by omega)]
    rfl
  fastEma_eq := rfl
  slowEma_eq := rfl

lemma Averaged.of_sameAverages
    (h : Averaged instrumentId fastPeriod slowPeriod signalBand mids m)
    (hsame : SameAverages m m') :
    Averaged instrumentId fastPeriod slowPeriod signalBand mids m' := by
  obtain ⟨_, _, _, _, rfl⟩ := hsame
  exact ⟨h.instrumentId_eq, h.warmupNeeded_eq, h.signalBand_eq, h.fastAlpha_eq, h.slowAlpha_eq,
    h.warmupCount_eq, h.fastEma_eq, h.slowEma_eq⟩

/-- The average with one more middle, which is the first one while the count is 0. -/
lemma average_concat_middle (α : ℚ) (mids : List ℤ) (mid : ℤ) :
    average α ((mids ++ [mid]).map (↑)) =
      if mids = [] then (mid : ℚ) else smooth α (average α (mids.map (↑))) mid := by
  rw [List.map_append, List.map_singleton]
  split_ifs with hempty
  · rw [hempty]
    rfl
  · exact Smoothing.average_concat α (by simpa using hempty) _

/-- One more middle. -/
lemma Averaged.updateEma (hslow : 1 ≤ slowPeriod)
    (h : Averaged instrumentId fastPeriod slowPeriod signalBand mids m) (mid : ℤ) :
    Averaged instrumentId fastPeriod slowPeriod signalBand (mids ++ [mid])
      (m.updateEma (Doubles.ofInt mid)) := by
  have hfirst : m.warmupCount = 0 ↔ mids = [] := by
    rw [h.warmupCount_eq, ← List.length_eq_zero_iff]
    omega
  have hlength : ((mids ++ [mid]).length : ℤ) = mids.length + 1 := by simp
  have hcount := h.warmupCount_eq
  have hneeded := h.warmupNeeded_eq
  unfold Momentum.updateEma
  constructor
  · dsimp only
    split_ifs <;> exact h.instrumentId_eq
  · dsimp only
    split_ifs <;> exact h.warmupNeeded_eq
  · dsimp only
    split_ifs <;> exact h.signalBand_eq
  · dsimp only
    split_ifs <;> exact h.fastAlpha_eq
  · dsimp only
    split_ifs <;> exact h.slowAlpha_eq
  · rw [hlength]
    dsimp only
    split_ifs <;> dsimp only at * <;> omega
  · rw [average_concat_middle, ← h.fastEma_eq, ← h.fastAlpha_eq]
    simp only [hfirst]
    split_ifs <;> rfl
  · rw [average_concat_middle, ← h.slowEma_eq, ← h.slowAlpha_eq]
    simp only [hfirst]
    split_ifs <;> rfl

namespace Session

/-- The averages of a session are those of its middles. -/
lemma averaged_run (hslow : 1 ≤ slowPeriod) (as : List Action) :
    Averaged instrumentId fastPeriod slowPeriod signalBand (middles instrumentId as)
      (Transition.run step
        (start (init instrumentId fastPeriod slowPeriod orderQty signalBand maxAdverse))
        as).strategy := by
  induction as using List.reverseRecOn with
  | nil => exact averaged_init hslow
  | append_singleton as a ih =>
    rw [Transition.run_concat, middles, List.filterMap_append, ← middles]
    cases hmiddle : middle? instrumentId a with
    | none =>
      rw [List.filterMap_cons_none hmiddle, List.filterMap_nil, List.append_nil]
      exact ih.of_sameAverages (sameAverages_step_of_none (by rwa [ih.instrumentId_eq]))
    | some mid =>
      rw [List.filterMap_cons_some hmiddle, List.filterMap_nil]
      exact (ih.updateEma hslow mid).of_sameAverages
        (sameAverages_step_of_some (by rwa [ih.instrumentId_eq]))

end Session

/-! ## The signal -/

/-- The mean of the middles with the weight `α`, times `1 - α` for each later one; the first of them
has what is left. -/
def weightedMean (α : ℚ) (first : ℤ) (rest : List ℤ) : ℚ :=
  (1 - α) ^ rest.length * first +
    ∑ i : Fin rest.length, α * (1 - α) ^ (rest.length - 1 - i) * (rest[i] : ℤ)

lemma average_map_cons (α : ℚ) (first : ℤ) (rest : List ℤ) :
    average α ((first :: rest).map (↑)) = weightedMean α first rest := by
  have hlength : (rest.map (Int.cast : ℤ → ℚ)).length = rest.length := List.length_map _
  rw [List.map_cons, Smoothing.average_cons, weightedMean]
  congr 1
  · rw [hlength]
  · exact Fintype.sum_equiv (finCongr hlength) _ _ fun i => by simp

/-- The signal is the side on which the averages are further apart than the band. -/
lemma computeSignal_iff (hband : 0 ≤ m.signalBand) :
    (m.computeSignal = .long ↔
        m.warmupNeeded ≤ m.warmupCount ∧ (m.signalBand : ℚ) < m.fastEma - m.slowEma) ∧
      (m.computeSignal = .short ↔
        m.warmupNeeded ≤ m.warmupCount ∧ (m.signalBand : ℚ) < m.slowEma - m.fastEma) := by
  have hband' : (0 : ℚ) ≤ m.signalBand := by exact_mod_cast hband
  have hlong : Doubles.lt (Doubles.ofInt m.signalBand) (m.fastEma - m.slowEma) = true ↔
      (m.signalBand : ℚ) < m.fastEma - m.slowEma := decide_eq_true_iff
  have hshort : Doubles.lt (m.fastEma - m.slowEma) (-Doubles.ofInt m.signalBand) = true ↔
      (m.signalBand : ℚ) < m.slowEma - m.fastEma := by
    rw [← neg_sub m.fastEma, lt_neg]
    exact decide_eq_true_iff
  unfold computeSignal
  dsimp only
  by_cases hwarm : m.warmupCount < m.warmupNeeded
  · simp [hwarm]
  · simp only [if_neg hwarm, hlong, hshort]
    split_ifs with hup hdown
    · have hnot : ¬(m.signalBand : ℚ) < m.slowEma - m.fastEma := by linarith
      simp [hup, hnot, not_lt.mp hwarm]
    · simp [hup, hdown, not_lt.mp hwarm]
    · simp [hup, hdown]

namespace Session

/-- **The signal.**  In exact arithmetic and in any session, let the middles of the accepted events
be `first` and `rest`, whatever is filled, expires or is popped between them.  The averages are the
weighted means of these middles, and the signal is long or short exactly when there are as many
middles as the slow average needs and the means are on that side of each other by more than the
band. -/
theorem signal_of_middles (instrumentId : ℕ)
    (fastPeriod slowPeriod orderQty signalBand maxAdverse : ℤ) (as : List Action) :
    let s : Session ℚ :=
      start (init instrumentId fastPeriod slowPeriod orderQty signalBand maxAdverse)
    1 ≤ fastPeriod → 1 ≤ slowPeriod → 0 ≤ signalBand →
      ∀ first rest, middles instrumentId as = first :: rest →
        let m := (Transition.run step s as).strategy
        let fast := weightedMean (2 / (fastPeriod + 1)) first rest
        let slow := weightedMean (2 / (slowPeriod + 1)) first rest
        m.fastEma = fast ∧ m.slowEma = slow ∧
          (m.computeSignal = .long ↔
            slowPeriod ≤ rest.length + 1 ∧ (signalBand : ℚ) < fast - slow) ∧
          (m.computeSignal = .short ↔
            slowPeriod ≤ rest.length + 1 ∧ (signalBand : ℚ) < slow - fast) := by
  intro s _ hslow hband first rest hmiddles m fast slow
  have haveraged : Averaged instrumentId fastPeriod slowPeriod signalBand _ m :=
    averaged_run hslow as
  rw [hmiddles] at haveraged
  have hfastEma : m.fastEma = fast := haveraged.fastEma_eq.trans (average_map_cons ..)
  have hslowEma : m.slowEma = slow := haveraged.slowEma_eq.trans (average_map_cons ..)
  have hwarm : m.warmupNeeded ≤ m.warmupCount ↔ slowPeriod ≤ rest.length + 1 := by
    rw [haveraged.warmupNeeded_eq, haveraged.warmupCount_eq, List.length_cons]
    omega
  obtain ⟨hlong, hshort⟩ := computeSignal_iff (m := m) (by rwa [haveraged.signalBand_eq])
  rw [hwarm, haveraged.signalBand_eq, hfastEma, hslowEma] at hlong hshort
  exact ⟨hfastEma, hslowEma, hlong, hshort⟩

/-- The rule for a price that rises from 100 to 110. -/
theorem signal_of_middles_rise :
    let s : Session ℚ := start (init 1 1 3 100 1 10)
    let m := (Transition.run step s [quoteAt 100, quoteAt 100, .pop, quoteAt 110]).strategy
    m.fastEma = weightedMean (2 / 2) 100 [100, 110] ∧ m.computeSignal = .long := by
  have h := signal_of_middles 1 1 3 100 1 10 [quoteAt 100, quoteAt 100, .pop, quoteAt 110]
    (by decide) (by decide) (by decide) 100 [100, 110] (by decide)
  refine ⟨h.1.trans (by norm_num), h.2.2.1.mpr ⟨by decide, ?_⟩⟩
  decide +kernel

end Session

/-! ## The range of the market -/

lemma toInt_mem_Icc {lo hi : ℤ} {x : ℚ} (h : x ∈ Set.Icc (lo : ℚ) hi) :
    Doubles.toInt x ∈ Set.Icc lo hi := by
  have hden : (0 : ℤ) < x.den := by exact_mod_cast x.den_pos
  have hden' : (0 : ℚ) < x.den := by exact_mod_cast x.den_pos
  have hx : x * x.den = x.num := Rat.mul_den_eq_num x
  have hlo : lo * x.den ≤ x.num := by
    have hle := mul_le_mul_of_nonneg_right h.1 hden'.le
    rw [hx] at hle
    exact_mod_cast hle
  have hhi : x.num ≤ hi * x.den := by
    have hle := mul_le_mul_of_nonneg_right h.2 hden'.le
    rw [hx] at hle
    exact_mod_cast hle
  constructor
  · calc lo = (lo * x.den).tdiv x.den := (Int.mul_tdiv_cancel lo hden.ne').symm
      _ ≤ x.num.tdiv x.den := Int.tdiv_le_tdiv hden hlo
  · calc x.num.tdiv x.den ≤ (hi * x.den).tdiv x.den := Int.tdiv_le_tdiv hden hhi
      _ = hi := Int.mul_tdiv_cancel hi hden.ne'

/-- The averages of middles in a range are in it. -/
lemma Averaged.mem_Icc (hfast : 1 ≤ fastPeriod) (hslow : 1 ≤ slowPeriod)
    (h : Averaged instrumentId fastPeriod slowPeriod signalBand mids m) (hne : mids ≠ [])
    {lo hi : ℤ} (hmids : ∀ mid ∈ mids, mid ∈ Set.Icc lo hi) :
    m.fastEma ∈ Set.Icc (lo : ℚ) hi ∧ m.slowEma ∈ Set.Icc (lo : ℚ) hi := by
  have hcast : ∀ x ∈ mids.map (Int.cast : ℤ → ℚ), x ∈ Set.Icc (lo : ℚ) hi := by
    intro x hx
    obtain ⟨mid, hmid, rfl⟩ := List.mem_map.mp hx
    obtain ⟨hlo, hhi⟩ := hmids mid hmid
    exact ⟨by exact_mod_cast hlo, by exact_mod_cast hhi⟩
  have hne' : mids.map (Int.cast : ℤ → ℚ) ≠ [] := by simpa using hne
  rw [h.fastEma_eq, h.slowEma_eq]
  exact ⟨Smoothing.average_mem_Icc
      (Smoothing.two_div_mem_Icc (by exact_mod_cast hfast)) hne' hcast,
    Smoothing.average_mem_Icc (Smoothing.two_div_mem_Icc (by exact_mod_cast hslow)) hne' hcast⟩

/-- There is no signal while the range of the middles is no wider than the band. -/
lemma Averaged.computeSignal_of_quiet (hfast : 1 ≤ fastPeriod) (hslow : 1 ≤ slowPeriod)
    (h : Averaged instrumentId fastPeriod slowPeriod signalBand mids m) (hne : mids ≠ [])
    {lo hi : ℤ} (hmids : ∀ mid ∈ mids, mid ∈ Set.Icc lo hi) (hquiet : hi - lo ≤ signalBand) :
    m.computeSignal = .none := by
  obtain ⟨⟨hfastLo, hfastHi⟩, hslowLo, hslowHi⟩ := h.mem_Icc hfast hslow hne hmids
  have hband : (hi : ℚ) - lo ≤ m.signalBand := by
    rw [h.signalBand_eq]
    exact_mod_cast hquiet
  have hnonneg : 0 ≤ m.signalBand := by
    have hcast : (0 : ℚ) ≤ m.signalBand := by linarith
    exact_mod_cast hcast
  obtain ⟨hlong, hshort⟩ := computeSignal_iff hnonneg
  cases hsignal : m.computeSignal with
  | none => rfl
  | long =>
    have hup := (hlong.mp hsignal).2
    linarith
  | short =>
    have hdown := (hshort.mp hsignal).2
    linarith

/-- An order is one tick over the fast average when it buys, and one below it when it sells. -/
lemma price_of_mem_requests {e : BBOEvent} {req : OrderRequest} (h : req ∈ m.requests e) :
    m.accepts e = true ∧
      req.price = Doubles.toInt (m.updated e).fastEma + req.side.signed 1 := by
  unfold requests at h
  dsimp only at h
  have hclose : (m.updated e).closeRequest.price =
      Doubles.toInt (m.updated e).fastEma + (m.updated e).closeRequest.side.signed 1 := by
    unfold closeRequest closingSide
    dsimp only
    split_ifs <;> rfl
  have hopen : ∀ sig, ((m.updated e).openRequest sig).price =
      Doubles.toInt (m.updated e).fastEma + ((m.updated e).openRequest sig).side.signed 1 := by
    intro sig
    unfold openRequest
    dsimp only
    split_ifs <;> rfl
  cases haccepts : m.accepts e with
  | false => simp [haccepts] at h
  | true =>
    refine ⟨rfl, ?_⟩
    rw [haccepts] at h
    simp only [Bool.not_true, Bool.false_eq_true, if_false] at h
    split_ifs at h <;> simp at h
    · rw [h, hopen]
    · rw [h, hclose]
    · rw [h, hclose]
    · rw [h, hclose]

namespace Session

/-- The strategy after an accepted event, before it looks for a signal. -/
lemma averaged_updated (hslow : 1 ≤ slowPeriod) {s : Session ℚ} {e : BBOEvent}
    (h : Averaged instrumentId fastPeriod slowPeriod signalBand mids s.strategy)
    (haccepts : s.strategy.accepts e = true) :
    middle? instrumentId (.bbo e) = some e.midPrice ∧
      Averaged instrumentId fastPeriod slowPeriod signalBand (mids ++ [e.midPrice])
        (s.strategy.updated e) := by
  refine ⟨?_, h.updateEma hslow _⟩
  rw [accepts, decide_eq_true_iff, h.instrumentId_eq] at haccepts
  exact if_pos haccepts

/-- **Orders near the market.**  In exact arithmetic and in any session whose accepted events have
their middles in a range, every order that the strategy sends, to open or to close, is for one tick
more than a price of this range when it buys, and for one tick less when it sells. -/
theorem price_in_market (instrumentId : ℕ)
    {fastPeriod slowPeriod : ℤ} (orderQty signalBand maxAdverse : ℤ) (hfast : 1 ≤ fastPeriod)
    (hslow : 1 ≤ slowPeriod) {lo hi : ℤ} {as : List Action}
    (hmiddles : ∀ mid ∈ middles instrumentId as, mid ∈ Set.Icc lo hi) {bs : List Action}
    {e : BBOEvent} (hpre : bs ++ [.bbo e] <+: as) :
    let s : Session ℚ :=
      start (init instrumentId fastPeriod slowPeriod orderQty signalBand maxAdverse)
    ∀ req ∈ (Transition.run step s bs).sent e,
      req.price - req.side.signed 1 ∈ Set.Icc lo hi := by
  intro s req hreq
  rw [sent_eq] at hreq
  obtain ⟨haccepts, hprice⟩ := price_of_mem_requests (List.mem_of_mem_take hreq)
  have hbefore : Averaged instrumentId fastPeriod slowPeriod signalBand (middles instrumentId bs)
      (Transition.run step s bs).strategy := averaged_run hslow bs
  obtain ⟨hmiddle, hafter⟩ := averaged_updated hslow hbefore haccepts
  have hseen : middles instrumentId bs ++ [e.midPrice] = middles instrumentId (bs ++ [.bbo e]) := by
    rw [middles, middles, List.filterMap_append, List.filterMap_cons_some hmiddle,
      List.filterMap_nil]
  have hrange := (hafter.mem_Icc hfast hslow (by simp) fun mid hmid =>
    hmiddles mid ((hpre.filterMap _).subset (by rwa [hseen] at hmid))).1
  rw [hprice, add_sub_cancel_right]
  exact toInt_mem_Icc hrange

/-- The rule for a price that rises to 110. -/
theorem price_in_market_rise :
    let s : Session ℚ := start (init 1 1 3 100 1 10)
    ∀ req ∈ (Transition.run step s [quoteAt 100, quoteAt 100, quoteAt 100]).sent
        { instrumentId := 1, bidPx := 109, askPx := 111 },
      req.price - req.side.signed 1 ∈ Set.Icc 100 110 :=
  price_in_market 1 100 1 10 (by decide) (by decide)
    (show ∀ mid ∈ middles 1 [quoteAt 100, quoteAt 100, quoteAt 100, quoteAt 110],
      mid ∈ Set.Icc 100 110 by decide) List.prefix_rfl

/-- Nothing is queued or on its way, and there is no position. -/
structure Silent (s : Session ℚ) : Prop where
  outstanding_eq : s.outstanding = []
  contents_eq : s.strategy.orderQueue.contents = []
  inventory_eq : s.strategy.inventory = 0

/-- As long as no event has a request, nothing is sent. -/
lemma Silent.step {s : Session ℚ} (h : s.Silent) {a : Action}
    (ha : ∀ e, a = .bbo e → s.strategy.requests e = []) : (s.step a).Silent := by
  cases a with
  | bbo e =>
    have hrequests := ha e rfl
    refine ⟨?_, ?_, (inventory_onBboImpl ..).trans h.inventory_eq⟩
    · change s.outstanding ++ s.sent e = []
      rw [sent_eq, hrequests, List.take_nil, List.append_nil, h.outstanding_eq]
    · change (s.strategy.onBboImpl e).orderQueue.contents = []
      rw [contents_onBboImpl, hrequests, h.contents_eq]
      rfl
  | fill k qty =>
    unfold Session.step
    simp only [h.outstanding_eq, List.getElem?_nil]
    exact h
  | expire k =>
    refine ⟨?_, h.contents_eq, h.inventory_eq⟩
    change s.outstanding.eraseIdx k = []
    rw [h.outstanding_eq, List.eraseIdx_nil]
  | pop =>
    refine ⟨h.outstanding_eq, ?_, h.inventory_eq⟩
    change s.strategy.orderQueue.pop.2.contents = []
    rw [SPSCQueue.contents_pop, h.contents_eq, List.tail_nil]

/-- **A quiet market.**  In exact arithmetic and in any session whose accepted events have their
middles in a range that is no wider than the band, the strategy sends nothing. -/
theorem silent_of_quiet (instrumentId : ℕ)
    {fastPeriod slowPeriod signalBand : ℤ} (orderQty maxAdverse : ℤ) (hfast : 1 ≤ fastPeriod)
    (hslow : 1 ≤ slowPeriod) {lo hi : ℤ} {as : List Action}
    (hmiddles : ∀ mid ∈ middles instrumentId as, mid ∈ Set.Icc lo hi)
    (hquiet : hi - lo ≤ signalBand) :
    let s : Session ℚ :=
      start (init instrumentId fastPeriod slowPeriod orderQty signalBand maxAdverse)
    (Transition.run step s as).Silent := by
  intro s
  induction as using List.reverseRecOn with
  | nil => exact ⟨rfl, SPSCQueue.contents_empty _ _, rfl⟩
  | append_singleton as a ih =>
    rw [middles, List.filterMap_append, ← middles] at hmiddles
    have hbefore := ih fun mid hmid => hmiddles mid (List.mem_append_left _ hmid)
    have haveraged : Averaged instrumentId fastPeriod slowPeriod signalBand
        (middles instrumentId as) (Transition.run step s as).strategy := averaged_run hslow as
    rw [Transition.run_concat]
    refine hbefore.step ?_
    rintro e rfl
    unfold requests
    dsimp only
    cases haccepts : (Transition.run step s as).strategy.accepts e with
    | false => rfl
    | true =>
      obtain ⟨hmiddle, hafter⟩ := averaged_updated hslow haveraged haccepts
      rw [List.filterMap_cons_some hmiddle, List.filterMap_nil] at hmiddles
      have hnone := hafter.computeSignal_of_quiet hfast hslow (by simp) hmiddles hquiet
      obtain ⟨-, hinventory, -⟩ := (Transition.run step s as).strategy.updated_frame e
      rw [hbefore.inventory_eq] at hinventory
      simp [hinventory, enters, hnone]

/-- The rule for prices of 100 and 101. -/
theorem silent_of_quiet_ripple :
    let s : Session ℚ := start (init 1 1 3 100 1 10)
    (Transition.run step s
      [quoteAt 100, quoteAt 101, .pop, quoteAt 100, quoteAt 101, .fill 0 1]).Silent :=
  silent_of_quiet 1 100 10 (by decide) (by decide)
    (show ∀ mid ∈ middles 1 [quoteAt 100, quoteAt 101, .pop, quoteAt 100, quoteAt 101, .fill 0 1],
      mid ∈ Set.Icc 100 101 by decide) (by decide)

end Session

end Exact

end Momentum

end QuantTrade

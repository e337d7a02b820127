import Mathlib.Algebra.Order.Ring.Rat
import Mathlib.Data.Rat.Floor
import Mathlib.Tactic.NormNum
import QuantTrade.Common.Doubles
import QuantTrade.Library.Slicing
import QuantTrade.Oms.Order

/-!
# Execution at a share of the volume

`Pov` of `src/execution/pov.{hpp,cpp}`: every trade of the market raises the quantity that should be
ordered, and an order is sent when the gap is larger than the minimum size.  There are two counters
of progress: `ordered_qty_` grows with the orders, `sent_qty_` with the fills.  The gap is that of
the first one, so the orders do not depend on when the fills arrive (`orders_filter`), and they keep
up with the share of the volume without going over it (`participation_capped`).
-/

namespace QuantTrade

/-- The execution: its settings, its counters and the orders the gateway got. -/
structure Pov (F : Type) where
  instrumentId : ℕ
  side : Side
  totalQty : ℤ
  participationRate : F
  marketVolume : ℤ
  sentQty : ℤ
  orderedQty : ℤ
  orders : List OrderRequest

namespace Pov

variable {F : Type} [Doubles F]

/-- A gap up to this size is not ordered. -/
def kMinOrderSize : ℤ := 1

/-- The constructor. -/
def init (instrumentId : ℕ) (side : Side) (totalQty : ℤ) (participationRate : F) : Pov F where
  instrumentId := instrumentId
  side := side
  totalQty := totalQty
  participationRate := participationRate
  marketVolume := 0
  sentQty := 0
  orderedQty := 0
  orders := []

/-- The order for a quantity; it has no time stamp. -/
def request (p : Pov F) (qty : ℤ) : OrderRequest where
  instrumentId := p.instrumentId
  side := p.side
  type := .market
  price := 0
  qty := qty
  strategyTsNs := 0

/-- The quantity that should be ordered by now. -/
def target (p : Pov F) : ℤ :=
  Doubles.toInt (Doubles.ofInt p.marketVolume * p.participationRate)

/-- `on_market_trade`. -/
def onMarketTrade (p : Pov F) (marketTradeQty : ℤ) : Pov F :=
  let p := { p with marketVolume := p.marketVolume + marketTradeQty }
  let gap := p.target - p.orderedQty
  if gap ≤ kMinOrderSize then p
  else
    let orderQty := min gap (p.totalQty - p.orderedQty)
    if orderQty ≤ 0 then p
    else
      { p with
        orders := p.orders ++ [p.request orderQty]
        orderedQty := p.orderedQty + orderQty }

/-- `on_fill`. -/
def onFill (p : Pov F) (fillQty : ℤ) : Pov F :=
  { p with sentQty := p.sentQty + fillQty }

/-- `is_done`. -/
def isDone (p : Pov F) : Bool :=
  p.sentQty ≥ p.totalQty

/-- The calls that the execution gets. -/
inductive Call where
  | onMarketTrade (marketTradeQty : ℤ)
  | onFill (fillQty : ℤ)
  deriving DecidableEq, Repr

/-- A call. -/
def step (p : Pov F) : Call → Pov F
  | .onMarketTrade marketTradeQty => p.onMarketTrade marketTradeQty
  | .onFill fillQty => p.onFill fillQty

/-- The execution after some calls. -/
def run (p : Pov F) (calls : List Call) : Pov F :=
  Transition.run step p calls

/-- The quantity that a call says was traded in the market. -/
def Call.traded : Call → ℤ
  | .onMarketTrade marketTradeQty => marketTradeQty
  | .onFill _ => 0

/-- The volume of the market in some calls. -/
def volume (calls : List Call) : ℤ :=
  (calls.map Call.traded).sum

/-- The cumulative quantity of the child orders. -/
def orderedSum (p : Pov F) : ℤ :=
  (p.orders.map OrderRequest.qty).sum

/-! ## Fills -/

/-- The execution without its count of the fills. -/
def unfilled (p : Pov F) : Pov F :=
  { p with sentQty := 0 }

/-- A trade does not look at the fills. -/
lemma unfilled_onMarketTrade (p : Pov F) (marketTradeQty : ℤ) :
    (p.onMarketTrade marketTradeQty).unfilled = p.unfilled.onMarketTrade marketTradeQty := by
  unfold onMarketTrade
  dsimp only [unfilled, target]
  split_ifs <;> rfl

/-- A run leads to the same orders as its trades alone. -/
lemma unfilled_run (p : Pov F) (calls : List Call) :
    (p.run calls).unfilled =
      p.unfilled.run (calls.filter fun c => c matches .onMarketTrade _) := by
  induction calls generalizing p with
  | nil => rfl
  | cons c calls ih =>
    have hrest := ih (p.step c)
    cases c with
    | onMarketTrade qty =>
      rw [step, unfilled_onMarketTrade] at hrest
      exact hrest
    | onFill qty => exact hrest

/-- **Late fills.**  The orders are those of the trades alone, whenever the fills arrive and
whatever they report. -/
theorem orders_filter (instrumentId : ℕ) (side : Side) (totalQty : ℤ) (participationRate : F)
    (calls : List Call) :
    let p := init instrumentId side totalQty participationRate
    (p.run calls).orders = (p.run (calls.filter fun c => c matches .onMarketTrade _)).orders := by
  intro p
  have hself : p.unfilled = p := rfl
  calc (p.run calls).orders = (p.run calls).unfilled.orders := rfl
    _ = (p.run (calls.filter fun c => c matches .onMarketTrade _)).orders := by
      rw [unfilled_run, hself]

/-! ## The cap -/

/-- The execution that has seen a trade. -/
def seen (p : Pov F) (marketTradeQty : ℤ) : Pov F :=
  { p with marketVolume := p.marketVolume + marketTradeQty }

/-- What a trade leads to: no order, because the gap is too small or nothing is left, or an order
for the gap or for what is left. -/
lemma onMarketTrade_cases (p : Pov F) (qty : ℤ) :
    (p.onMarketTrade qty = p.seen qty ∧
        ((p.seen qty).target - p.orderedQty ≤ 1 ∨ p.totalQty ≤ p.orderedQty)) ∨
      ∃ orderQty, 0 < orderQty ∧
        orderQty = min ((p.seen qty).target - p.orderedQty) (p.totalQty - p.orderedQty) ∧
        p.onMarketTrade qty =
          { p.seen qty with
            orders := p.orders ++ [p.request orderQty]
            orderedQty := p.orderedQty + orderQty } := by
  by_cases hgap : (p.seen qty).target - p.orderedQty ≤ 1
  · exact .inl ⟨if_pos hgap, .inl hgap⟩
  by_cases hleft : min ((p.seen qty).target - p.orderedQty) (p.totalQty - p.orderedQty) ≤ 0
  · refine .inl ⟨(if_neg hgap).trans (if_pos hleft), .inr ?_⟩
    omega
  · exact .inr ⟨_, not_le.mp hleft, rfl, (if_neg hgap).trans (if_neg hleft)⟩

/-- The target is the share of the volume, rounded down. -/
lemma target_eq_floor {p : Pov ℚ} (hvolume : 0 ≤ p.marketVolume) (hrate : 0 ≤ p.participationRate) :
    p.target = ⌊(p.marketVolume : ℚ) * p.participationRate⌋ := by
  have hshare : 0 ≤ (p.marketVolume : ℚ) * p.participationRate :=
    mul_nonneg (Int.cast_nonneg hvolume) hrate
  rw [Rat.floor_def', ← Int.tdiv_eq_ediv_of_nonneg (Rat.num_nonneg.mpr hshare)]
  rfl

/-- What holds after some calls: the counters are right, and neither the quantity nor the share of
the volume is exceeded. -/
structure Capped (totalQty : ℤ) (rate : ℚ) (volume : ℤ) (p : Pov ℚ) : Prop where
  totalQty_eq : p.totalQty = totalQty
  rate_eq : p.participationRate = rate
  volume_eq : p.marketVolume = volume
  volume_nonneg : 0 ≤ volume
  sum_eq : p.orderedSum = p.orderedQty
  le_total : p.orderedQty ≤ totalQty
  le_share : p.orderedQty ≤ ⌊(volume : ℚ) * rate⌋
  one_le : ∀ o ∈ p.orders, 1 ≤ o.qty

variable {totalQty : ℤ} {rate : ℚ} {volume : ℤ} {p : Pov ℚ}

/-- A trade raises the target. -/
lemma Capped.seen (h : Capped totalQty rate volume p) (hrate : 0 ≤ rate) {qty : ℤ}
    (hqty : 0 ≤ qty) : Capped totalQty rate (volume + qty) (p.seen qty) where
  totalQty_eq := h.totalQty_eq
  rate_eq := h.rate_eq
  volume_eq := congrArg (· + qty) h.volume_eq
  volume_nonneg := add_nonneg h.volume_nonneg hqty
  sum_eq := h.sum_eq
  le_total := h.le_total
  le_share := by
    apply le_trans h.le_share
    apply Int.floor_le_floor
    apply mul_le_mul_of_nonneg_right _ hrate
    exact Int.cast_le.mpr (le_add_of_nonneg_right hqty)
  one_le := h.one_le

/-- The target of an execution that keeps to the cap is the share of the volume. -/
lemma Capped.target_eq (h : Capped totalQty rate volume p) (hrate : 0 ≤ rate) :
    p.target = ⌊(volume : ℚ) * rate⌋ := by
  rw [target_eq_floor (h.volume_eq.symm ▸ h.volume_nonneg) (h.rate_eq.symm ▸ hrate), h.volume_eq,
    h.rate_eq]

/-- A trade keeps to the cap, and leaves a gap of at most one until everything is ordered. -/
lemma Capped.onMarketTrade (h : Capped totalQty rate volume p) (hrate : 0 ≤ rate) {qty : ℤ}
    (hqty : 0 ≤ qty) :
    Capped totalQty rate (volume + qty) (p.onMarketTrade qty) ∧
      ((p.onMarketTrade qty).orderedQty = totalQty ∨
        ⌊((volume + qty : ℤ) : ℚ) * rate⌋ - (p.onMarketTrade qty).orderedQty ≤ 1) := by
  have hseen := h.seen hrate hqty
  have htarget := hseen.target_eq hrate
  have htotal := h.le_total
  have hqtyEq := h.totalQty_eq
  rcases p.onMarketTrade_cases qty with ⟨hsame, hwhy⟩ | ⟨orderQty, hpos, hmin, horder⟩
  · rw [hsame]
    refine ⟨hseen, ?_⟩
    change p.orderedQty = totalQty ∨ _ - p.orderedQty ≤ 1
    omega
  · rw [horder]
    refine ⟨⟨h.totalQty_eq, h.rate_eq, hseen.volume_eq, hseen.volume_nonneg, ?_, ?_, ?_, ?_⟩, ?_⟩
    · have hsum := h.sum_eq
      simp only [orderedSum] at hsum
      simp [orderedSum, hsum, request]
    · change p.orderedQty + orderQty ≤ totalQty
      omega
    · change p.orderedQty + orderQty ≤ _
      omega
    · intro o ho
      rcases List.mem_append.mp ho with hold | hnew
      · exact h.one_le o hold
      · rw [List.mem_singleton.mp hnew]
        exact hpos
    · change p.orderedQty + orderQty = totalQty ∨ _ - (p.orderedQty + orderQty) ≤ 1
      omega

/-- A fill is no matter of the cap. -/
lemma Capped.onFill (h : Capped totalQty rate volume p) (fillQty : ℤ) :
    Capped totalQty rate volume (p.onFill fillQty) :=
  ⟨h.totalQty_eq, h.rate_eq, h.volume_eq, h.volume_nonneg, h.sum_eq, h.le_total, h.le_share,
    h.one_le⟩

/-- A run of calls keeps to the cap. -/
lemma Capped.run (hrate : 0 ≤ rate) (h : Capped totalQty rate volume p) {calls : List Call}
    (htrades : ∀ qty, .onMarketTrade qty ∈ calls → 0 ≤ qty) :
    Capped totalQty rate (volume + Pov.volume calls) (p.run calls) := by
  induction calls generalizing volume p with
  | nil =>
    rw [Pov.volume, List.map_nil, List.sum_nil, add_zero]
    exact h
  | cons c calls ih =>
    have hrest : ∀ qty, .onMarketTrade qty ∈ calls → 0 ≤ qty :=
      fun qty hmem => htrades qty (List.mem_cons_of_mem c hmem)
    rw [Pov.volume, List.map_cons, List.sum_cons, ← add_assoc]
    cases c with
    | onMarketTrade qty =>
      exact ih (h.onMarketTrade hrate (htrades qty List.mem_cons_self)).1 hrest
    | onFill fillQty =>
      rw [Call.traded, add_zero]
      exact ih (h.onFill fillQty) hrest

lemma capped_init (instrumentId : ℕ) (side : Side) (htotal : 0 ≤ totalQty) (rate : ℚ) :
    Capped totalQty rate 0 (init instrumentId side totalQty rate) :=
  ⟨rfl, rfl, rfl, le_rfl, rfl, htotal, by simp [init], by simp [init]⟩

/-- **Participation cap.**  Whatever is traded and whenever the fills arrive, the child orders never
exceed the quantity nor the share of the volume, each has a lot, they do not depend on the fills,
`ordered_qty_` is their sum at every moment, and after a trade they lack at most one of the share
until the quantity is ordered. -/
theorem participation_capped (instrumentId : ℕ) (side : Side) {totalQty : ℤ} (htotal : 0 ≤ totalQty)
    {rate : ℚ} (hrate : 0 ≤ rate) (calls : List Call)
    (htrades : ∀ qty, .onMarketTrade qty ∈ calls → 0 ≤ qty) :
    let run := (init instrumentId side totalQty rate).run
    (run calls).orderedSum ≤ min totalQty ⌊(Pov.volume calls : ℚ) * rate⌋ ∧
      (∀ o ∈ (run calls).orders, 1 ≤ o.qty) ∧
      (run calls).orders = (run (calls.filter fun c => c matches .onMarketTrade _)).orders ∧
      (∀ front, front <+: calls → (run front).orderedSum = (run front).orderedQty) ∧
      ∀ front qty, front ++ [.onMarketTrade qty] <+: calls →
        let after := front ++ [Call.onMarketTrade qty]
        (run after).orderedQty = totalQty ∨
          ⌊(Pov.volume after : ℚ) * rate⌋ - (run after).orderedQty ≤ 1 := by
  intro run
  have hinit := capped_init instrumentId side htotal rate
  have hcapped : ∀ front, front <+: calls →
      Capped totalQty rate (0 + Pov.volume front) (run front) := fun front hbefore =>
    hinit.run hrate fun qty h => htrades qty (hbefore.subset h)
  have hall := hcapped calls List.prefix_rfl
  rw [zero_add] at hall
  refine ⟨?_, hall.one_le, orders_filter instrumentId side totalQty rate calls,
    fun front hbefore => (hcapped front hbefore).sum_eq, ?_⟩
  · rw [hall.sum_eq]
    exact le_min hall.le_total hall.le_share
  · intro front qty hbefore after
    have hfront := hcapped front ((List.prefix_append _ _).trans hbefore)
    have hlast := (hfront.onMarketTrade hrate (htrades qty (hbefore.subset
      (List.mem_append_right _ (List.mem_singleton_self _))))).2
    have hvolume : Pov.volume after = 0 + Pov.volume front + qty := by
      simp [Pov.volume, after, Call.traded]
    have hrun : run after = (run front).onMarketTrade qty :=
      Transition.run_concat step _ front (.onMarketTrade qty)
    rw [hvolume, hrun]
    exact hlast

/-- The cap for 5 of 100 lots at a tenth of the volume, with a fill that is late. -/
theorem participation_capped_lateFill :
    let calls := [Call.onMarketTrade 25, .onMarketTrade 25, .onFill 2, .onMarketTrade 50]
    let run := (init 1 .buy 5 (1 / 10 : ℚ)).run
    (run calls).orderedSum ≤ min 5 ⌊(Pov.volume calls : ℚ) * (1 / 10)⌋ ∧
      (∀ o ∈ (run calls).orders, 1 ≤ o.qty) ∧
      (run calls).orders = (run (calls.filter fun c => c matches .onMarketTrade _)).orders ∧
      (∀ front, front <+: calls → (run front).orderedSum = (run front).orderedQty) ∧
      ∀ front qty, front ++ [.onMarketTrade qty] <+: calls →
        let after := front ++ [Call.onMarketTrade qty]
        (run after).orderedQty = 5 ∨
          ⌊(Pov.volume after : ℚ) * (1 / 10)⌋ - (run after).orderedQty ≤ 1 :=
  participation_capped 1 .buy (by decide) (by norm_num) _ (by simp)

end Pov

end QuantTrade

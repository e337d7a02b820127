import QuantTrade.Library.Slicing
import QuantTrade.Oms.Order

/-!
# Time-weighted execution

`Twap` of `src/execution/twap.{hpp,cpp}`: a quantity is sent in slices, one at a time, when the
clock has passed the beginning of the slice.  The readings of the clock and what the doubles make of
the size of a slice are inputs of a call.

Every slice before the last one is at least one lot, so the slices add up to the quantity exactly
when there is a lot for each of them (`executesExactly_iff`).
-/

namespace QuantTrade

/-- The execution: its settings, the slices sent so far and the orders the gateway got. -/
structure Twap where
  instrumentId : ℕ
  side : Side
  totalQty : ℤ
  slices : ℤ
  sliceQty : ℤ
  sentQty : ℤ
  sliceIndex : ℤ
  startNs : ℕ
  intervalNs : ℕ
  lcgState : UInt64
  orders : List OrderRequest
  deriving DecidableEq, Repr

namespace Twap

/-- The multiplier of the random numbers. -/
def kLcgA : UInt64 := 6364136223846793005

/-- The increment of the random numbers. -/
def kLcgC : UInt64 := 1442695040888963407

/-- The constructor; the number of slices is at least 1. -/
def init (instrumentId : ℕ) (side : Side) (totalQty : ℤ) (durationNs : ℕ) (slices : ℤ) : Twap :=
  let slices := if slices > 0 then slices else 1
  { instrumentId := instrumentId
    side := side
    totalQty := totalQty
    slices := slices
    sliceQty := totalQty.tdiv slices
    sentQty := 0
    sliceIndex := 0
    startNs := 0
    intervalNs := if slices > 0 then durationNs / slices.toNat else durationNs
    lcgState := 0x9e3779b97f4a7c15 ^^^ UInt64.ofNat (totalQty % 2 ^ 64).toNat
    orders := [] }

/-- `start`, with the reading of the clock. -/
def start (t : Twap) (now : ℕ) : Twap :=
  { t with
    startNs := now
    sentQty := 0
    sliceIndex := 0 }

/-- What a call of `tick` reads: the clock, the product of the doubles, cut down to an integer, and
the clock again. -/
structure Tick where
  now : ℕ
  scaled : ℤ → ℤ
  stamp : ℕ

/-- `apply_jitter`: the next random number scales the quantity, to no less than 1. -/
def applyJitter (t : Twap) (baseQty : ℤ) (scaled : ℤ → ℤ) : ℤ × Twap :=
  (max 1 (scaled baseQty), { t with lcgState := t.lcgState * kLcgA + kLcgC })

/-- The quantity of the next slice. -/
def nextQty (t : Twap) (scaled : ℤ → ℤ) : ℤ × Twap :=
  if t.sliceIndex = t.slices - 1 then
    (t.totalQty - t.sentQty, t)
  else
    let (qty, t) := t.applyJitter t.sliceQty scaled
    let headroom := t.totalQty - t.sentQty - (t.slices - 1 - t.sliceIndex)
    (max 1 (min qty headroom), t)

/-- The order for a slice. -/
def request (t : Twap) (qty : ℤ) (stamp : ℕ) : OrderRequest where
  instrumentId := t.instrumentId
  side := t.side
  type := .market
  price := 0
  qty := qty
  strategyTsNs := stamp

/-- The beginning of the next slice, in the arithmetic of 64 bits. -/
def thresholdNs (t : Twap) : ℕ :=
  (t.startNs + t.sliceIndex.toNat * t.intervalNs) % 2 ^ 64

/-- `tick`: whether a slice was due. -/
def tick (t : Twap) (e : Tick) : Bool × Twap :=
  if t.sliceIndex ≥ t.slices then (false, t)
  else if e.now < t.thresholdNs then (false, t)
  else
    let (qty, t) := t.nextQty e.scaled
    let t := if qty > 0 then
        { t with
          orders := t.orders ++ [t.request qty e.stamp]
          sentQty := t.sentQty + qty }
      else t
    (true, { t with sliceIndex := t.sliceIndex + 1 })

/-- `is_done`. -/
def isDone (t : Twap) : Bool :=
  t.sliceIndex ≥ t.slices

/-- `remaining_qty`. -/
def remainingQty (t : Twap) : ℤ :=
  t.totalQty - t.sentQty

/-- The execution after some calls of `tick`. -/
def run (t : Twap) (ticks : List Tick) : Twap :=
  Transition.run (fun t e => (t.tick e).2) t ticks

/-- The clock, read by `start` and then by the calls of `tick`, never goes back. -/
def NonDecreasing (startNs : ℕ) (ticks : List Tick) : Prop :=
  (startNs :: ticks.flatMap fun e => [e.now, e.stamp]).Pairwise (· ≤ ·)

/-- The cumulative quantity of the child orders. -/
def sentSum (t : Twap) : ℤ :=
  (t.orders.map OrderRequest.qty).sum

/-- The child orders execute the parent quantity: each has a lot, there are no more than the slices,
they never exceed the quantity, and add up to it in the end. -/
structure ExecutesExactly (t : Twap) : Prop where
  one_le : ∀ o ∈ t.orders, 1 ≤ o.qty
  sum_le : t.sentSum ≤ t.totalQty
  length_le : (t.orders.length : ℤ) ≤ t.slices
  done : t.isDone = true → t.sentSum = t.totalQty ∧ t.remainingQty = 0

/-! ## The slices -/

/-- How far the quantity is sent. -/
def progress (t : Twap) : Slicing.Progress where
  total := t.totalQty
  slices := t.slices
  index := t.sliceIndex
  sent := t.sentQty
  parts := t.orders.map OrderRequest.qty

/-- The execution is exact as a matter of its slices. -/
lemma executesExactly_iff_exact (t : Twap) : t.ExecutesExactly ↔ t.progress.Exact := by
  constructor
  · rintro ⟨hone, hsum, hlength, hdone⟩
    refine ⟨?_, hsum, ?_, ?_⟩
    · intro q hq
      obtain ⟨o, ho, rfl⟩ := List.mem_map.mp hq
      exact hone o ho
    · rwa [progress, List.length_map]
    · intro hall
      exact hdone (decide_eq_true hall)
  · rintro ⟨hone, hsum, hlength, hdone⟩
    refine ⟨?_, hsum, ?_, ?_⟩
    · intro o ho
      exact hone o.qty (List.mem_map_of_mem ho)
    · rwa [progress, List.length_map] at hlength
    · intro hall
      exact hdone (of_decide_eq_true hall)

/-- A slice takes the quantity that the guard leaves. -/
lemma nextQty_fst (t : Twap) (scaled : ℤ → ℤ) :
    (t.nextQty scaled).1 = t.progress.part (max 1 (scaled t.sliceQty)) := by
  unfold nextQty Slicing.Progress.part
  split_ifs with hlast hnot hnot
  · rfl
  · exact absurd hlast hnot
  · exact absurd hnot hlast
  · rfl

/-- The random numbers are no matter of the slices. -/
lemma nextQty_snd (t : Twap) (scaled : ℤ → ℤ) :
    ∃ state, (t.nextQty scaled).2 = { t with lcgState := state } := by
  unfold nextQty
  split_ifs
  · exact ⟨t.lcgState, rfl⟩
  · exact ⟨_, rfl⟩

/-- A call in time hands out a slice. -/
lemma progress_tick {t : Twap} {e : Tick} (hdue : t.thresholdNs ≤ e.now) :
    (t.tick e).2.progress = t.progress.slice (max 1 (e.scaled t.sliceQty)) := by
  obtain ⟨state, hstate⟩ := t.nextQty_snd e.scaled
  have hqty := t.nextQty_fst e.scaled
  by_cases hdone : t.sliceIndex ≥ t.slices
  · rw [tick, if_pos hdone]
    exact (if_pos hdone).symm
  · rw [tick, if_neg hdone, if_neg (not_lt.mpr hdue)]
    dsimp only
    rw [hstate, hqty]
    by_cases hpos : 0 < t.progress.part (max 1 (e.scaled t.sliceQty))
    · rw [if_pos hpos, Slicing.Progress.slice_of_pos (not_le.mp hdone) hpos]
      simp [progress, request]
    · rw [if_neg hpos, Slicing.Progress.slice_of_not_pos (not_le.mp hdone) hpos]
      rfl

/-- The calls of `tick` do no more than hand out slices. -/
lemma implements_tick :
    Slicing.Implements (fun t e => (tick t e).2) progress fun _ => True := by
  intro t e _
  by_cases hdue : t.thresholdNs ≤ e.now
  · exact Or.inr ⟨_, progress_tick hdue⟩
  · left
    have hsame : (t.tick e).2 = t := by
      unfold tick
      split_ifs with hdone hwait
      · rfl
      · rfl
      · exact absurd (not_le.mp hdue) hwait
    exact congrArg progress hsame

/-- A call at the end of time, which is never too early. -/
def lastTick : Tick where
  now := 2 ^ 64 - 1
  scaled := id
  stamp := 2 ^ 64 - 1

lemma progress_lastTick (t : Twap) :
    ∃ target, (t.tick lastTick).2.progress = t.progress.slice target :=
  ⟨_, progress_tick (Nat.le_pred_of_lt (Nat.mod_lt _ (by decide)))⟩

lemma nonDecreasing_lastTick (n : ℕ) : NonDecreasing 0 (List.replicate n lastTick) := by
  refine List.pairwise_cons.mpr ⟨fun x _ => Nat.zero_le x, ?_⟩
  have hlast : ∀ x ∈ (List.replicate n lastTick).flatMap fun e => [e.now, e.stamp],
      x = 2 ^ 64 - 1 := by
    intro x hx
    obtain ⟨e, he, hmem⟩ := List.mem_flatMap.mp hx
    rw [List.eq_of_mem_replicate he] at hmem
    simpa [lastTick] using hmem
  refine List.pairwise_of_forall_mem_list fun x hx y hy => ?_
  rw [hlast x hx, hlast y hy]

/-- **Exact execution.**  Whatever the jitter is and whenever `tick` is called, the child orders of
all runs execute the parent quantity exactly if and only if it has a lot for each slice before the
last one. -/
theorem executesExactly_iff (instrumentId : ℕ) (side : Side) {totalQty : ℤ} (htotal : 0 ≤ totalQty)
    (durationNs : ℕ) (slices : ℤ) :
    let t := init instrumentId side totalQty durationNs slices
    (∀ startNs ticks, NonDecreasing startNs ticks →
        ((t.start startNs).run ticks).ExecutesExactly) ↔
      t.slices - 1 ≤ totalQty := by
  intro t
  have hslices : 0 < t.slices := by
    change 0 < if slices > 0 then slices else 1
    split_ifs with hpos
    · exact hpos
    · exact Int.one_pos
  have hstart : ∀ startNs, (t.start startNs).progress = Slicing.init totalQty t.slices :=
    fun _ => rfl
  constructor
  · intro h
    refine @Slicing.le_of_sum_le _ _ (fun t e => (tick t e).2) progress (fun _ => True) lastTick
      (fun _ _ => trivial) (fun t _ => progress_lastTick t) _ trivial _ _ (hstart 0) htotal
      fun n => ?_
    exact (h 0 _ (nonDecreasing_lastTick n)).sum_le
  · intro hlots startNs ticks _
    refine (executesExactly_iff_exact _).mpr (implements_tick.exact_run ?_ fun _ _ => trivial)
    rw [hstart]
    exact Slicing.Progress.funded_init hslices hlots

/-- The rule at 10 lots in 4 slices. -/
theorem executesExactly_iff_tenLots :
    (∀ startNs ticks, NonDecreasing startNs ticks →
        (((init 1 .buy 10 40 4).start startNs).run ticks).ExecutesExactly) ↔
      (init 1 .buy 10 40 4).slices - 1 ≤ 10 :=
  executesExactly_iff 1 .buy (show (0 : ℤ) ≤ 10 by decide) 40 4

/-- One lot in three slices: the first two calls send a lot each. -/
theorem not_executesExactly_oneLot :
    ¬∀ (instrumentId : ℕ) (side : Side) (totalQty : ℤ), 0 ≤ totalQty →
      ∀ (durationNs : ℕ) (slices : ℤ) (startNs : ℕ) (ticks : List Tick),
        NonDecreasing startNs ticks →
        (((init instrumentId side totalQty durationNs slices).start startNs).run
          ticks).ExecutesExactly := by
  intro h
  have hexact := h 1 .buy 1 (by decide) 30 3 0 (List.replicate 2 lastTick)
    (nonDecreasing_lastTick 2)
  exact absurd hexact.sum_le (by decide)

end Twap

end QuantTrade

import QuantTrade.Common.Doubles
import QuantTrade.Library.CheckedArray
import QuantTrade.Library.Slicing
import QuantTrade.Oms.Order

/-!
# Volume-weighted execution

`Vwap` of `src/execution/vwap.{hpp,cpp}`: a quantity is sent in slices, whose targets follow a
volume profile and are computed anew when the fills deviate from it.  The arithmetic of doubles is a
parameter (`Doubles`) of which nothing is assumed, so the targets can be any integers.

The profile and the targets are in arrays of 128 cells, and the slices can be more; so an access to
an array may fail here (`CheckedArray`), and with it the call.
-/

namespace QuantTrade

/-- The number of cells of the arrays. -/
def kVwapMaxSlices : ℕ := 128

/-- The execution: its settings, its arrays, its counters and the orders the gateway got. -/
structure Vwap (F : Type) where
  instrumentId : ℕ
  side : Side
  totalQty : ℤ
  slices : ℤ
  volumeProfile : CheckedArray F kVwapMaxSlices
  targetQty : CheckedArray ℤ kVwapMaxSlices
  dispatchedQty : ℤ
  totalFilled : ℤ
  sliceIndex : ℤ
  startNs : ℕ
  intervalNs : ℕ
  orders : List OrderRequest

namespace Vwap

variable {F : Type} [Doubles F]

open Doubles

/-! ## The constructor -/

/-- The members before the body of the constructor; the number of slices is at least 1. -/
def blank (instrumentId : ℕ) (side : Side) (totalQty slices : ℤ) (durationNs : ℕ) : Vwap F :=
  let slices := if slices > 0 then slices else 1
  { instrumentId := instrumentId
    side := side
    totalQty := totalQty
    slices := slices
    volumeProfile := .empty
    targetQty := .empty
    dispatchedQty := 0
    totalFilled := 0
    sliceIndex := 0
    startNs := 0
    intervalNs := if slices > 0 then durationNs / slices.toNat else durationNs
    orders := [] }

/-- The share of a slice: from the profile, or an equal one without a profile. -/
def share (profile : Option (ℤ → F)) (n i : ℤ) : F :=
  match profile with
  | some volumeProfile => volumeProfile i
  | none => lit 1 / ofInt n

/-- A round of the loop of the constructor, with the quantity assigned so far. -/
def assign? (profile : Option (ℤ → F)) (n : ℤ) (s : Vwap F × ℤ) (i : ℤ) :
    Option (Vwap F × ℤ) := do
  let (v, assigned) := s
  let volumeProfile ← v.volumeProfile.write? i (share profile n i)
  let portion ← volumeProfile.read? i
  let targetQty ← v.targetQty.write? i (toInt (ofInt v.totalQty * portion))
  let target ← targetQty.read? i
  some ({ v with volumeProfile := volumeProfile, targetQty := targetQty }, assigned + target)

/-- The number of slices that the constructor fills in. -/
def filledSlices (v : Vwap F) : ℤ :=
  if v.slices < kVwapMaxSlices then v.slices else kVwapMaxSlices

/-- The body of the constructor; the last slice gets what is not assigned. -/
def fillIn? (profile : Option (ℤ → F)) (v : Vwap F) : Option (Vwap F) := do
  let n := v.filledSlices
  let (v, assigned) ← (Int.range 0 (n - 1)).foldlM (assign? profile n) (v, 0)
  let volumeProfile ← v.volumeProfile.write? (n - 1) (share profile n (n - 1))
  let targetQty ← v.targetQty.write? (n - 1) (v.totalQty - assigned)
  some { v with volumeProfile := volumeProfile, targetQty := targetQty }

/-- The constructor. -/
def init? (instrumentId : ℕ) (side : Side) (totalQty : ℤ) (profile : Option (ℤ → F)) (slices : ℤ)
    (durationNs : ℕ) : Option (Vwap F) :=
  (blank instrumentId side totalQty slices durationNs).fillIn? profile

/-! ## The calls -/

/-- `start`, with the reading of the clock. -/
def start (v : Vwap F) (now : ℕ) : Vwap F :=
  { v with
    startNs := now
    dispatchedQty := 0
    totalFilled := 0
    sliceIndex := 0 }

/-- `on_fill`. -/
def onFill (v : Vwap F) (fillQty : ℤ) : Vwap F :=
  { v with totalFilled := v.totalFilled + fillQty }

/-- The sum of the shares of some slices. -/
def profileSum? (v : Vwap F) (first last : ℤ) : Option F :=
  (Int.range first last).foldlM (fun sum i => (v.volumeProfile.read? i).map (sum + ·)) (lit 0)

/-- The tests of `maybe_rebalance`: the fills deviate by more than a fifth from what the profile
says, and there is something left to distribute. -/
def needsRebalance? (v : Vwap F) : Option Bool :=
  if v.sliceIndex = 0 then some false
  else if v.totalFilled = 0 then some false
  else
    (v.profileSum? 0 v.sliceIndex).map fun origFrac =>
      let expected : ℤ := toInt (ofInt v.totalQty * origFrac)
      let deviation : F := ofInt (v.totalFilled - expected) / ofInt expected
      decide (expected > 0) && (lt (lit (1 / 5)) deviation || lt deviation (lit (-1 / 5))) &&
        decide (v.totalQty - v.totalFilled > 0) && decide (v.slices - v.sliceIndex > 0)

/-- A round of the loop of `maybe_rebalance`, with the quantity assigned so far. -/
def retarget? (v : Vwap F) (remainingToFill : ℤ) (remProfileSum : F)
    (s : CheckedArray ℤ kVwapMaxSlices × ℤ) (i : ℤ) :
    Option (CheckedArray ℤ kVwapMaxSlices × ℤ) := do
  let (targetQty, assigned) := s
  let portion ← v.volumeProfile.read? i
  let targetQty ← targetQty.write? i (toInt (ofInt remainingToFill * portion / remProfileSum))
  let target ← targetQty.read? i
  some (targetQty, assigned + target)

/-- What `maybe_rebalance` does after its tests: what is left to fill goes to the slices that are
left, in the proportion of their shares. -/
def redistribute? (v : Vwap F) : Option (Vwap F) := do
  let remainingToFill := v.totalQty - v.totalFilled
  let remProfileSum ← v.profileSum? v.sliceIndex v.slices
  if le remProfileSum (lit 0) then some v
  else
    let (targetQty, assigned) ← (Int.range v.sliceIndex (v.slices - 1)).foldlM
      (v.retarget? remainingToFill remProfileSum) (v.targetQty, 0)
    let targetQty ← targetQty.write? (v.slices - 1) (remainingToFill - assigned)
    some { v with targetQty := targetQty }

/-- `maybe_rebalance`. -/
def maybeRebalance? (v : Vwap F) : Option (Vwap F) := do
  if ← v.needsRebalance? then v.redistribute? else some v

/-- The quantity of the next slice. -/
def nextQty? (v : Vwap F) : Option ℤ :=
  if v.sliceIndex = v.slices - 1 then some (v.totalQty - v.dispatchedQty)
  else
    (v.targetQty.read? v.sliceIndex).map fun qty =>
      let available := v.totalQty - v.dispatchedQty - (v.slices - 1 - v.sliceIndex)
      max 1 (min qty available)

/-- The order for a slice. -/
def request (v : Vwap F) (qty : ℤ) (stamp : ℕ) : OrderRequest where
  instrumentId := v.instrumentId
  side := v.side
  type := .market
  price := 0
  qty := qty
  strategyTsNs := stamp

/-- The slice is sent, if it is not empty. -/
def dispatch (v : Vwap F) (qty : ℤ) (stamp : ℕ) : Vwap F :=
  let v := if qty > 0 then
      { v with
        orders := v.orders ++ [v.request qty stamp]
        dispatchedQty := v.dispatchedQty + qty }
    else v
  { v with sliceIndex := v.sliceIndex + 1 }

/-- The beginning of the next slice, in the arithmetic of 64 bits. -/
def thresholdNs (v : Vwap F) : ℕ :=
  (v.startNs + v.sliceIndex.toNat * v.intervalNs) % 2 ^ 64

/-- `tick`, with the readings of the clock: whether a slice was due. -/
def tick? (v : Vwap F) (now stamp : ℕ) : Option (Bool × Vwap F) :=
  if v.sliceIndex ≥ v.slices then some (false, v)
  else if now < v.thresholdNs then some (false, v)
  else do
    let v ← v.maybeRebalance?
    let qty ← v.nextQty?
    some (true, v.dispatch qty stamp)

/-- `is_done`. -/
def isDone (v : Vwap F) : Bool :=
  v.sliceIndex ≥ v.slices

/-- A call, with what it reads. -/
inductive Call where
  | start (now : ℕ)
  | tick (now stamp : ℕ)
  | onFill (fillQty : ℤ)
  deriving DecidableEq, Repr

/-- The execution after a call; none after an access that fails. -/
def call? (v : Vwap F) : Call → Option (Vwap F)
  | .start now => some (v.start now)
  | .tick now stamp => (v.tick? now stamp).map Prod.snd
  | .onFill fillQty => some (v.onFill fillQty)

/-- The execution after some calls. -/
def run? (v : Vwap F) (calls : List Call) : Option (Vwap F) :=
  calls.foldlM call? v

end Vwap

end QuantTrade

import QuantTrade.Infra.SPSCQueue
import QuantTrade.Oms.Order

/-!
# The fill tracker

`FillTracker` of `src/oms/fill_tracker.cpp`: it counts the fills, adds up the filled quantity per
instrument and passes the events on through a queue of 1024 slots.  An event that finds the queue
full is dropped from the queue but counted all the same.
-/

namespace QuantTrade

/-- The statistics of the fills and the queue towards the position thread. -/
structure FillTracker where
  fillQueue : SPSCQueue FillEvent 1024
  fillCount : ℕ
  instrumentQty : ℕ → ℤ

namespace FillTracker

/-- A new tracker. -/
def init : FillTracker where
  fillQueue := .empty (fun _ => {}) SPSCQueue.capacity_1024
  fillCount := 0
  instrumentQty := fun _ => 0

/-- `on_fill`: count the fill, then push it; a full queue drops it. -/
def onFill (t : FillTracker) (fill : FillEvent) : FillTracker where
  fillCount := t.fillCount + 1
  instrumentQty :=
    if fill.instrumentId < maxInstruments then
      Function.update t.instrumentQty fill.instrumentId
        (t.instrumentQty fill.instrumentId + fill.fillQty)
    else t.instrumentQty
  fillQueue := (t.fillQueue.push fill).1

/-- `pop_fill`: the oldest fill in the queue. -/
def popFill (t : FillTracker) : Option FillEvent × FillTracker :=
  (t.fillQueue.pop.1, { t with fillQueue := t.fillQueue.pop.2 })

/-- `total_fills`. -/
def totalFills (t : FillTracker) : ℕ :=
  t.fillCount

/-- `total_filled_qty`. -/
def totalFilledQty (t : FillTracker) (id : ℕ) : ℤ :=
  if id ≥ maxInstruments then 0 else t.instrumentQty id

/-- A fill adds its whole quantity to the total of its instrument, and nothing to the others. -/
lemma totalFilledQty_onFill (t : FillTracker) (fill : FillEvent) {id : ℕ}
    (hid : id < maxInstruments) :
    (t.onFill fill).totalFilledQty id =
      t.totalFilledQty id + if fill.instrumentId = id then fill.fillQty else 0 := by
  have hge : ¬id ≥ maxInstruments := by omega
  simp only [totalFilledQty, onFill, if_neg hge]
  by_cases heq : fill.instrumentId = id
  · subst heq
    simp [hid]
  · have hne : id ≠ fill.instrumentId := fun h => heq h.symm
    by_cases hlt : fill.instrumentId < maxInstruments <;> simp [hlt, hne, heq]

@[simp] lemma popFill_fst (t : FillTracker) : t.popFill.1 = t.fillQueue.contents.head? :=
  t.fillQueue.pop_fst

@[simp] lemma contents_popFill (t : FillTracker) :
    t.popFill.2.fillQueue.contents = t.fillQueue.contents.tail :=
  t.fillQueue.contents_pop

@[simp] lemma contents_onFill (t : FillTracker) (fill : FillEvent) :
    (t.onFill fill).fillQueue.contents =
      (BoundedFifo.push 1024 t.fillQueue.contents fill).1 :=
  t.fillQueue.contents_push fill

end FillTracker

end QuantTrade

import QuantTrade.Common.Types

/-!
# Orders and the messages about them

The records of `src/oms/order.hpp`: what a strategy sends (`OrderRequest`), what the OMS keeps
(`Order`) and what the exchange answers (`OrderAck`, `FillEvent`).
-/

namespace QuantTrade

/-- Strategy to OMS: a request for a new order. -/
structure OrderRequest where
  instrumentId : ℕ := 0
  side : Side := .buy
  type : OrderType := .limit
  price : ℤ := 0
  qty : ℤ := 0
  strategyTsNs : ℕ := 0
  deriving DecidableEq, Repr

/-- The order object of the OMS. -/
structure Order where
  clientOrderId : ℕ := 0
  exchangeOrderId : ℕ := 0
  instrumentId : ℕ := 0
  side : Side := .buy
  type : OrderType := .limit
  status : OrderStatus := .pendingNew
  price : ℤ := 0
  qty : ℤ := 0
  filledQty : ℤ := 0
  submitTsNs : ℕ := 0
  ackTsNs : ℕ := 0
  deriving DecidableEq, Repr

namespace Order

/-- The quantity still to be filled. -/
def remainingQty (o : Order) : ℤ :=
  o.qty - o.filledQty

/-- The exchange may still act on the order. -/
def isActive (o : Order) : Bool :=
  o.status == .pendingNew || o.status == .new || o.status == .partiallyFilled ||
    o.status == .pendingCancel

/-- The order has reached a final state. -/
def isTerminal (o : Order) : Bool :=
  o.status == .filled || o.status == .cancelled || o.status == .rejected

end Order

/-- A request to change the price and the quantity of an order. -/
structure ModifyRequest where
  clientOrderId : ℕ := 0
  newPrice : ℤ := 0
  newQty : ℤ := 0
  deriving DecidableEq, Repr

/-- Exchange to OMS: an order was accepted (`new`) or refused (`rejected`). -/
structure OrderAck where
  clientOrderId : ℕ := 0
  exchangeOrderId : ℕ := 0
  status : OrderStatus := .new
  ackTsNs : ℕ := 0
  deriving DecidableEq, Repr

/-- Exchange to OMS, and on to the position layer: an execution. -/
structure FillEvent where
  clientOrderId : ℕ := 0
  exchangeOrderId : ℕ := 0
  instrumentId : ℕ := 0
  side : Side := .buy
  fillPrice : ℤ := 0
  fillQty : ℤ := 0
  remainingQty : ℤ := 0
  fillTsNs : ℕ := 0
  deriving DecidableEq, Repr

end QuantTrade

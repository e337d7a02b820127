import Mathlib.Algebra.Order.Ring.Rat
import QuantTrade.Oms.Order

/-!
# The simulated gateway

`SimGateway` of `src/connectivity/sim_gateway.cpp`.  It takes down every order and, with the given
probability, answers it with a fill of the whole quantity, which it numbers itself.  The draw of the
random generator and the time stamp are parameters of the call.
-/

namespace QuantTrade

/-- What the execution layer asks a gateway about itself. -/
structure GatewayStatus where
  isConnected : Bool
  rttNs : ℕ
  deriving DecidableEq, Repr

/-- The gateway: its settings, the orders it took and the fills not yet fetched. -/
structure SimGateway where
  fillProbability : ℚ
  ackLatencyNs : ℕ
  connected : Bool
  submittedOrders : List OrderRequest
  fillQueue : List FillEvent
  nextExchangeId : ℕ

namespace SimGateway

/-- A new gateway is connected. -/
def init (fillProbability : ℚ) (ackLatencyNs : ℕ) : SimGateway where
  fillProbability := fillProbability
  ackLatencyNs := ackLatencyNs
  connected := true
  submittedOrders := []
  fillQueue := []
  nextExchangeId := 1

/-- The fill that answers an order. -/
def fillOf (gw : SimGateway) (req : OrderRequest) (nowNs : ℕ) : FillEvent where
  clientOrderId := 0
  exchangeOrderId := gw.nextExchangeId
  instrumentId := req.instrumentId
  side := req.side
  fillPrice := req.price
  fillQty := req.qty
  remainingQty := 0
  fillTsNs := nowNs

/-- `send_new_order`. -/
def sendNewOrder (gw : SimGateway) (req : OrderRequest) (draw : ℚ) (nowNs : ℕ) : SimGateway :=
  let gw := { gw with submittedOrders := gw.submittedOrders ++ [req] }
  if gw.fillProbability ≥ 1 ∨ (gw.fillProbability > 0 ∧ draw < gw.fillProbability) then
    { gw with
      fillQueue := gw.fillQueue ++ [gw.fillOf req nowNs]
      nextExchangeId := gw.nextExchangeId + 1 }
  else gw

/-- `pop_fill`. -/
def popFill (gw : SimGateway) : Option FillEvent × SimGateway :=
  match gw.fillQueue with
  | [] => (none, gw)
  | fill :: fills => (some fill, { gw with fillQueue := fills })

/-- `is_connected` and `get_rtt_ns`. -/
def status (gw : SimGateway) : GatewayStatus where
  isConnected := gw.connected
  rttNs := gw.ackLatencyNs

/-- A gateway that always fills answers every order. -/
lemma sendNewOrder_of_certain {gw : SimGateway} (h : gw.fillProbability = 1) (req : OrderRequest)
    (draw : ℚ) (nowNs : ℕ) :
    gw.sendNewOrder req draw nowNs =
      { gw with
        submittedOrders := gw.submittedOrders ++ [req]
        fillQueue := gw.fillQueue ++ [gw.fillOf req nowNs]
        nextExchangeId := gw.nextExchangeId + 1 } := by
  have hfill : gw.fillProbability ≥ 1 := h.ge
  simp [sendNewOrder, hfill, fillOf]

end SimGateway

end QuantTrade

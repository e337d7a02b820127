import QuantTrade.Common.Types

/-!
# Market data

The events of `src/market_data/market_data_types.hpp`: the top of the book as it is passed to the
strategies, `BBOEvent`, and the levels of a depth update, `DepthEvent`.
-/

namespace QuantTrade

/-- `MARKET_DEPTH`: the number of levels on each side of a depth event. -/
def marketDepth : ℕ := 5

/-- The price and the quantity of a level of the book. -/
@[ext]
structure PriceLevel where
  price : ℤ := 0
  qty : ℤ := 0
  deriving DecidableEq, Repr

/-- The best prices and quantities of an instrument; for a trade, its price and quantity on the bid
side and zero on the other. -/
structure BBOEvent where
  exchangeTsNs : ℕ := 0
  localTsNs : ℕ := 0
  instrumentId : ℕ := 0
  type : EventType := .bboUpdate
  bidPx : ℤ := 0
  askPx : ℤ := 0
  bidQty : ℤ := 0
  askQty : ℤ := 0
  deriving DecidableEq, Repr

/-- Both prices are there and not crossed. -/
def BBOEvent.isValidBbo (e : BBOEvent) : Bool :=
  e.bidPx > 0 && e.askPx > 0 && e.bidPx < e.askPx

/-- `mid_price`: the middle of the best prices, cut down to an integer. -/
def BBOEvent.midPrice (e : BBOEvent) : ℤ :=
  if e.bidPx > 0 ∧ e.askPx > 0 then (e.bidPx + e.askPx).tdiv 2 else 0

/-- The levels of an instrument, as many on each side as the counts say. -/
structure DepthEvent where
  tsNs : ℕ
  instrumentId : ℕ
  bidLevels : ℕ
  askLevels : ℕ
  bids : Vector PriceLevel marketDepth
  asks : Vector PriceLevel marketDepth
  bidLevels_le : bidLevels ≤ marketDepth
  askLevels_le : askLevels ≤ marketDepth
  deriving DecidableEq, Repr

end QuantTrade

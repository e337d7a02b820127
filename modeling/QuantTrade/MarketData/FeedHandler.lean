import QuantTrade.Infra.SPSCQueue
import QuantTrade.MarketData.Normalizer

/-!
# The feed handler

`FeedHandler` of `src/market_data/feed_handler.{hpp,cpp}` behind the socket: what becomes of a
packet. The events of a packet are handed to the callback and put into the queue.
-/

namespace QuantTrade

/-- The state of the feed handler; the callback is registered or not. -/
structure FeedHandler where
  exchange : ExchangeType
  /-- Feed to strategy. -/
  bboQueue : SPSCQueue BBOEvent 4096
  bboCallback : Bool
  rxMsgs : ℕ
  dropped : ℕ

namespace FeedHandler

/-- `BATCH_SIZE`. -/
def batchSize : ℕ := 64

/-- `MAX_PKT_BYTES`. -/
def maxPktBytes : ℕ := 2048

/-- `bbo_queue_.push`, which counts the events that find the queue full. -/
def pushEvent (h : FeedHandler) (e : BBOEvent) : FeedHandler :=
  let pushed := h.bboQueue.push e
  { h with bboQueue := pushed.1, dropped := if pushed.2 then h.dropped else h.dropped + 1 }

/-- `process_packet`: the handler after the packet, and the events that the callback got. -/
def processPacket (h : FeedHandler) (mem : ℕ → UInt8) (buf len localTs : ℕ) :
    FeedHandler × List BBOEvent :=
  let events := (Normalizer.parseBatch mem buf len batchSize h.exchange).map fun e =>
    { e with localTsNs := localTs }
  let pushed := events.foldl pushEvent h
  ({ pushed with rxMsgs := pushed.rxMsgs + events.length }, if h.bboCallback then events else [])

end FeedHandler

end QuantTrade

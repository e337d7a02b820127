import QuantTrade.MarketData.Normalizer

/-!
# The replayer

`PcapReplayer` of `src/market_data/pcap_replayer.{hpp,cpp}` behind the file: what becomes of the
payload of a packet.  The type of the message is the byte at index 4 of the payload, whether or not
the payload is that long.
-/

namespace QuantTrade

/-- The state of the replayer; the callbacks are registered or not. -/
structure PcapReplayer where
  exchange : ExchangeType
  bboCb : Bool
  depthCb : Bool
  msgsReplayed : ℕ
  parseErrors : ℕ
  deriving DecidableEq, Repr

/-- The calls of the two callbacks. -/
structure ReplayCalls where
  bbo : List BBOEvent := []
  depth : List DepthEvent := []
  deriving DecidableEq

namespace PcapReplayer

/-- `dispatch_payload`: the replayer after the payload, and the calls of the callbacks. -/
def dispatchPayload (r : PcapReplayer) (mem : ℕ → UInt8) (payload len pktTsNs : ℕ) :
    PcapReplayer × ReplayCalls :=
  if len < 1 then (r, {})
  else
    let msgType := mem (payload + 4)
    if msgType = wireBbo ∨ msgType = wireTrade then
      match Normalizer.parseBbo mem payload len r.exchange with
      | some e =>
        ({ r with msgsReplayed := r.msgsReplayed + 1 },
          { bbo := if r.bboCb then [{ e with localTsNs := pktTsNs }] else [] })
      | none => ({ r with parseErrors := r.parseErrors + 1 }, {})
    else if msgType = wireDepth then
      match Normalizer.parseDepth mem payload len r.exchange with
      | some e =>
        ({ r with msgsReplayed := r.msgsReplayed + 1 },
          { depth := if r.depthCb then [{ e with tsNs := pktTsNs }] else [] })
      | none => ({ r with parseErrors := r.parseErrors + 1 }, {})
    else (r, {})

end PcapReplayer

end QuantTrade

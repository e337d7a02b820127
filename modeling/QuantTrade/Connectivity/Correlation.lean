import QuantTrade.Connectivity.OutgoingStream
import QuantTrade.Oms.Lifecycle
import QuantTrade.Strategy.MarketMaker

/-!
# The id of an order on the wire

A request becomes an order in the OMS, which gives it an id, and is then sent by a gateway.  The
FIX session and the binary gateway put the time stamp of the request on the wire as the id of the
order, in `ClOrdID` and in `client_order_id`; a cancel has the id of the OMS.  The exchange answers
with the id that it received, and `OMS::find` looks the order up under it.

The ids on the wire lead back to the orders exactly when every request that becomes an order carries
the id that the OMS gives it (`correlated_iff_stamped`).  The market maker leaves the time stamp 0,
so its orders never do (`not_correlated_quoteRequest`), and all of them go out under one id.
-/

namespace QuantTrade

open BinaryProtocolGateway (field Message NewOrderBody CancelBody)

/-! ## Reading the ids -/

/-- The binary header is in front of the body. -/
private lemma field_bytes (m : Message) (size : ℕ) :
    field m.bytes 8 size = field m.body 0 size := by
  have hlen : m.header.length = 8 := BinaryProtocolGateway.MsgHeader.length_bytes _
  unfold field Message.bytes
  rw [List.drop_append_of_le_length hlen.ge, List.drop_of_length_le hlen.le, List.nil_append,
    List.drop_zero]

/-- The first field of a body. -/
private lemma decode_field_encode (n : ℕ) (rest : List UInt8) :
    LittleEndian.decode (field (LittleEndian.encode 8 n ++ rest) 0 8) = n % 2 ^ 64 := by
  have hfield : field (LittleEndian.encode 8 n ++ rest) 0 8 = LittleEndian.encode 8 n := by
    unfold field
    rw [List.drop_zero]
    exact List.take_left' (LittleEndian.length_encode 8 n)
  rw [hfield, LittleEndian.decode_encode]
  norm_num

namespace Endpoint

/-- The id under which a message names its order: `ClOrdID`, or the first field of a binary body. -/
def clOrdId (e : Endpoint) (message : List UInt8) : Option ℕ :=
  match e with
  | .binary _ => some (LittleEndian.decode (field message 8 8))
  | .fix _ => (fixValue message 11).map readDecimal

/-- The id of the order that a message cancels: `OrigClOrdID`, or the first field of a binary
body. -/
def origClOrdId (e : Endpoint) (message : List UInt8) : Option ℕ :=
  match e with
  | .binary _ => some (LittleEndian.decode (field message 8 8))
  | .fix _ => (fixValue message 41).map readDecimal

/-- The message that a call has to send; it does not depend on the kernel. -/
def message (e : Endpoint) (call : SendCall) (now : ℕ) : List UInt8 :=
  (e.transmit { call := call, now := now, answer := none, answer' := none }).1.message

/-- The names of a FIX session are valid and leave room for the other fields. -/
def WellNamed : Endpoint → Prop
  | .binary _ => True
  | .fix s => s.WellNamed

variable {e : Endpoint}

lemma message_transmit (send : Send) :
    (e.transmit send).1.message = e.message send.call send.now := by
  cases e with
  | binary linux => cases linux <;> rfl
  | fix s => rfl

/-- A call changes neither the names nor the way to read an id. -/
lemma WellNamed.transmit (he : e.WellNamed) (send : Send) : (e.transmit send).2.WellNamed := by
  cases e with
  | binary linux => cases linux <;> trivial
  | fix s => exact ⟨he.sender, he.target, he.room, Nat.mod_lt _ (by decide)⟩

lemma clOrdId_transmit (send : Send) : (e.transmit send).2.clOrdId = e.clOrdId := by
  cases e with
  | binary linux => cases linux <;> rfl
  | fix s => rfl

/-- A new order goes out under the time stamp of the request. -/
theorem clOrdId_newOrder (he : e.WellNamed) (req : OrderRequest) (now : ℕ) :
    e.clOrdId (e.message (.newOrder req) now) = some (req.strategyTsNs % 2 ^ 64) := by
  cases e with
  | binary linux =>
    have hmessage : (Endpoint.binary linux).message (.newOrder req) now =
        (BinaryProtocolGateway.newOrderMessage req now).bytes := by
      cases linux <;> rfl
    have hbody : ∃ rest, (BinaryProtocolGateway.newOrderMessage req now).body =
        LittleEndian.encode 8 req.strategyTsNs ++ rest := by
      simp [BinaryProtocolGateway.newOrderMessage, NewOrderBody.bytes,
        BinaryProtocolGateway.newOrderBody]
    obtain ⟨rest, hrest⟩ := hbody
    rw [hmessage, clOrdId, field_bytes, hrest, decode_field_encode]
  | fix s =>
    have hmessage : (Endpoint.fix s).message (.newOrder req) now = s.encodeNewOrder 512 req := by
      simp only [message, transmit, SendCall.encode]
    have hvalue := FIXSender.fixValue_encodeNewOrder he req
    rw [hmessage, clOrdId, hvalue, Option.map_some, readDecimal_decimal]

/-- A cancel names the order by the id it is called with. -/
theorem origClOrdId_cancel (he : e.WellNamed) (id now : ℕ) :
    e.origClOrdId (e.message (.cancel id) now) = some (id % 2 ^ 64) := by
  cases e with
  | binary linux =>
    have hmessage : (Endpoint.binary linux).message (.cancel id) now =
        (BinaryProtocolGateway.cancelMessage id).bytes := by
      cases linux <;> rfl
    have hbody : ∃ rest, (BinaryProtocolGateway.cancelMessage id).body =
        LittleEndian.encode 8 id ++ rest := by
      simp [BinaryProtocolGateway.cancelMessage, CancelBody.bytes]
    obtain ⟨rest, hrest⟩ := hbody
    rw [hmessage, origClOrdId, field_bytes, hrest, decode_field_encode]
  | fix s =>
    have hmessage : (Endpoint.fix s).message (.cancel id) now = s.encodeCancel 256 id := by
      simp only [message, transmit, SendCall.encode]
    have hvalue := (FIXSender.fixValue_encodeCancel he id).1
    rw [hmessage, origClOrdId, hvalue, Option.map_some, readDecimal_decimal]

end Endpoint

/-! ## Orders and their messages -/

/-- An order and the message under which it was sent. -/
structure SentOrder where
  order : Order
  message : List UInt8

/-- OMS and gateway, with the orders that were sent and the ids that were released. -/
structure OrderEntry where
  oms : OMS
  endpoint : Endpoint
  sent : List SentOrder
  released : List ℕ

namespace OrderEntry

/-- The calls: a request is submitted and, when it becomes an order, sent; any other call of the
OMS; any other call of the gateway.  The main program also sends a request that became no order: a
`submit` and a `send`. -/
inductive Action where
  | submit (req : OrderRequest) (now sentAt : ℕ) (answer answer' : Option ℕ)
  | call (c : OMS.Call)
  | send (s : Send)

/-- A new OMS and a gateway. -/
def start (e : Endpoint) : OrderEntry where
  oms := .init
  endpoint := e
  sent := []
  released := []

/-- The id that a call gives back. -/
def releasedBy : OMS.Call → List ℕ
  | .release id => [id]
  | _ => []

/-- One call. -/
def step (s : OrderEntry) : Action → OrderEntry
  | .submit req now sentAt answer answer' =>
    match s.oms.submit req now with
    | (oms, none) => { s with oms := oms }
    | (oms, some ptr) =>
      let (transmission, endpoint) := s.endpoint.transmit
        { call := .newOrder req, now := sentAt, answer := answer, answer' := answer' }
      { s with
        oms := oms
        endpoint := endpoint
        sent := s.sent ++ (oms.pool.deref ptr).toList.map (⟨·, transmission.message⟩) }
  | .call c => { s with oms := s.oms.perform c, released := s.released ++ releasedBy c }
  | .send send => { s with endpoint := (s.endpoint.transmit send).2 }

/-- The ids on the wire lead back to the orders. -/
structure Correlated (s : OrderEntry) : Prop where
  /-- Distinct orders have distinct ids. -/
  distinct : (s.sent.map fun t => s.endpoint.clOrdId t.message).Nodup
  /-- The id is that of the OMS. -/
  agrees : ∀ t ∈ s.sent, s.endpoint.clOrdId t.message = some t.order.clientOrderId
  /-- An answer that echoes the id finds the order, as long as it was not released. -/
  found : ∀ t ∈ s.sent, t.order.clientOrderId ∈ s.released ∨
    ∃ id o, s.endpoint.clOrdId t.message = some id ∧ s.oms.orderAt id = some o ∧
      o.clientOrderId = t.order.clientOrderId
  /-- A cancel names the same order. -/
  cancels : ∀ t ∈ s.sent, ∀ now,
    s.endpoint.origClOrdId (s.endpoint.message (.cancel t.order.clientOrderId) now) =
      s.endpoint.clOrdId t.message

/-- A request that becomes an order carries, in 64 bits, the id that the order gets. -/
def Stamped (s : OrderEntry) : Action → Prop
  | .submit req _ _ _ _ =>
    s.oms.activeOrders < poolSize → req.strategyTsNs % 2 ^ 64 = s.oms.nextOrderId
  | _ => True

instance (s : OrderEntry) : DecidablePred s.Stamped
  | .submit req _ _ _ _ =>
    inferInstanceAs (Decidable (_ → req.strategyTsNs % 2 ^ 64 = s.oms.nextOrderId))
  | .call _ => .isTrue trivial
  | .send _ => .isTrue trivial

/-! ## The invariant -/

/-- The ids on the wire are those of the OMS, and an order is registered until it is released. -/
structure Inv (s : OrderEntry) : Prop where
  store : s.oms.StoreInv
  named : s.endpoint.WellNamed
  agrees : ∀ t ∈ s.sent, s.endpoint.clOrdId t.message = some t.order.clientOrderId
  nodup : (s.sent.map fun t => t.order.clientOrderId).Nodup
  lt_next : ∀ t ∈ s.sent, t.order.clientOrderId < s.oms.nextOrderId
  lt_word : ∀ t ∈ s.sent, t.order.clientOrderId < 2 ^ 64
  registered : ∀ t ∈ s.sent, t.order.clientOrderId ∈ s.released ∨
    ∃ o, s.oms.orderAt t.order.clientOrderId = some o

lemma inv_start {e : Endpoint} (he : e.WellNamed) : (start e).Inv where
  store := OMS.storeInv_init
  named := he
  agrees := by simp [start]
  nodup := by simp [start]
  lt_next := by simp [start]
  lt_word := by simp [start]
  registered := by simp [start]

variable {s : OrderEntry}

lemma Inv.correlated (h : s.Inv) : s.Correlated where
  distinct := by
    have hids : (s.sent.map fun t => s.endpoint.clOrdId t.message) =
        (s.sent.map fun t => t.order.clientOrderId).map some := by
      rw [List.map_map]
      exact List.map_congr_left h.agrees
    rw [hids]
    exact h.nodup.map (Option.some_injective ℕ)
  agrees := h.agrees
  found t ht := by
    refine (h.registered t ht).imp_right ?_
    rintro ⟨o, ho⟩
    exact ⟨_, o, h.agrees t ht, ho, h.store.clientOrderId_eq ho⟩
  cancels t ht now := by
    rw [Endpoint.origClOrdId_cancel h.named, h.agrees t ht, Nat.mod_eq_of_lt (h.lt_word t ht)]

/-! ## Every call -/

/-- A submit that finds a slot sends the new order. -/
private lemma step_submit_of_room (h : s.oms.StoreInv) (hroom : s.oms.activeOrders < poolSize)
    (req : OrderRequest) (now sentAt : ℕ) (answer answer' : Option ℕ) :
    ∃ send : Send, send.call = .newOrder req ∧
      s.step (.submit req now sentAt answer answer') = { s with
        oms := (s.oms.submit req now).1
        endpoint := (s.endpoint.transmit send).2
        sent := s.sent ++
          [⟨s.oms.newOrder req now, s.endpoint.message (.newOrder req) sentAt⟩] } := by
  obtain ⟨ptr, hptr, hsub⟩ := OMS.submit_of_room h hroom req now
  refine ⟨⟨.newOrder req, sentAt, answer, answer'⟩, rfl, ?_⟩
  have hpair : s.oms.submit req now = ((s.oms.submit req now).1, some ptr) := by
    rw [← hptr]
  simp only [step]
  rw [hpair]
  dsimp only
  rw [hsub.deref, Option.toList_some, List.map_singleton, Endpoint.message_transmit]

/-- A submit that finds no slot changes nothing. -/
private lemma step_submit_of_full (h : s.oms.StoreInv) (hfull : s.oms.activeOrders = poolSize)
    (req : OrderRequest) (now sentAt : ℕ) (answer answer' : Option ℕ) :
    s.step (.submit req now sentAt answer answer') = s := by
  simp only [step]
  rw [OMS.submit_of_full h hfull]

/-- A request that carries the id of its order. -/
private lemma Inv.submit (h : s.Inv) {req : OrderRequest} {now sentAt : ℕ}
    {answer answer' : Option ℕ} (hstamped : s.Stamped (.submit req now sentAt answer answer')) :
    (s.step (.submit req now sentAt answer answer')).Inv := by
  rcases h.store.activeOrders_le.lt_or_eq with hroom | hfull
  · obtain ⟨ptr, -, hsub⟩ := OMS.submit_of_room h.store hroom req now
    obtain ⟨send, -, hstep⟩ := step_submit_of_room h.store hroom req now sentAt answer answer'
    have hid : req.strategyTsNs % 2 ^ 64 = s.oms.nextOrderId := hstamped hroom
    have hnew : (s.oms.newOrder req now).clientOrderId = s.oms.nextOrderId := rfl
    rw [hstep]
    refine ⟨hsub.storeInv, h.named.transmit send, ?_, ?_, ?_, ?_, ?_⟩
    · dsimp only
      rw [Endpoint.clOrdId_transmit, List.forall_mem_append, List.forall_mem_singleton]
      refine ⟨h.agrees, ?_⟩
      rw [Endpoint.clOrdId_newOrder h.named, hid, hnew]
    · rw [List.map_append, List.map_singleton, hnew]
      refine h.nodup.append (List.nodup_singleton _) ?_
      intro id hmem heq
      obtain ⟨t, ht, rfl⟩ := List.mem_map.mp hmem
      exact (h.lt_next t ht).ne (List.mem_singleton.mp heq)
    · dsimp only
      rw [hsub.nextOrderId, List.forall_mem_append, List.forall_mem_singleton, hnew]
      exact ⟨fun t ht => Nat.lt_succ_of_lt (h.lt_next t ht), Nat.lt_succ_self _⟩
    · rw [List.forall_mem_append, List.forall_mem_singleton, hnew, ← hid]
      exact ⟨h.lt_word, Nat.mod_lt _ (by decide)⟩
    · dsimp only
      rw [List.forall_mem_append, List.forall_mem_singleton, hnew]
      constructor
      · intro t ht
        rw [hsub.orderAt, if_neg (h.lt_next t ht).ne]
        exact h.registered t ht
      · exact Or.inr ⟨_, by rw [hsub.orderAt, if_pos rfl]⟩
  · rw [step_submit_of_full h.store hfull]
    exact h

/-- Any other call of the OMS. -/
private lemma Inv.call (h : s.Inv) (c : OMS.Call) : (s.step (.call c)).Inv := by
  refine ⟨h.store.perform c, h.named, h.agrees, h.nodup, ?_, h.lt_word, ?_⟩
  · intro t ht
    exact (h.lt_next t ht).trans_le (OMS.nextOrderId_le_perform h.store c)
  · intro t ht
    simp only [step, List.mem_append]
    rcases h.registered t ht with hreleased | ⟨o, ho⟩
    · exact Or.inl (Or.inl hreleased)
    · rcases OMS.exists_orderAt_perform h.store c ho with rfl | hstill
      · exact Or.inl (Or.inr (List.mem_singleton_self _))
      · exact Or.inr hstill

/-- Any other call of the gateway. -/
private lemma Inv.send (h : s.Inv) (send : Send) : (s.step (.send send)).Inv := by
  refine ⟨h.store, h.named.transmit send, ?_, h.nodup, h.lt_next, h.lt_word, h.registered⟩
  simp only [step]
  rw [Endpoint.clOrdId_transmit]
  exact h.agrees

lemma Inv.step (h : s.Inv) {a : Action} (ha : s.Stamped a) : (s.step a).Inv := by
  cases a with
  | submit req now sentAt answer answer' => exact h.submit ha
  | call c => exact h.call c
  | send send => exact h.send send

/-- A request that becomes an order and carries another id goes out under this other id. -/
lemma not_correlated_of_not_stamped (hstore : s.oms.StoreInv) (hnamed : s.endpoint.WellNamed)
    {a : Action} (ha : ¬s.Stamped a) : ¬(s.step a).Correlated := by
  cases a with
  | submit req now sentAt answer answer' =>
    simp only [Stamped, not_forall] at ha
    obtain ⟨hroom, hid⟩ := ha
    obtain ⟨send, -, hstep⟩ := step_submit_of_room hstore hroom req now sentAt answer answer'
    intro h
    have hagrees := h.agrees ⟨s.oms.newOrder req now, s.endpoint.message (.newOrder req) sentAt⟩
      (by rw [hstep]; exact List.mem_append_right _ (List.mem_singleton_self _))
    rw [hstep] at hagrees
    dsimp only at hagrees
    rw [Endpoint.clOrdId_transmit, Endpoint.clOrdId_newOrder hnamed] at hagrees
    exact hid (Option.some.inj hagrees)
  | call c => exact absurd trivial ha
  | send send => exact absurd trivial ha

/-- A quote of the market maker never carries the id of its order. -/
theorem not_correlated_quoteRequest (hstore : s.oms.StoreInv) (hnamed : s.endpoint.WellNamed)
    (hroom : s.oms.activeOrders < poolSize) (hid : 0 < s.oms.nextOrderId) (mm : MarketMaker)
    (side : Side) (price : ℤ) (now sentAt : ℕ) (answer answer' : Option ℕ) :
    ¬(s.step (.submit (mm.quoteRequest side price) now sentAt answer answer')).Correlated := by
  apply not_correlated_of_not_stamped hstore hnamed
  intro hstamped
  exact hid.ne (hstamped hroom)

/-- **Correlation of orders.**  Requests are submitted to the OMS and sent by a gateway, among any
other calls.  The ids on the wire are at all times distinct, equal to those of the OMS and found
there, and cancels name the same orders, exactly when every request that becomes an order carries
the id that the OMS gives it. -/
theorem correlated_iff_stamped {e : Endpoint} (he : e.WellNamed) (actions : List Action) :
    (∀ first, first <+: actions → (Transition.run step (start e) first).Correlated) ↔
      Transition.Admissible step Stamped (start e) actions := by
  refine Transition.forall_prefix_iff_of_step (P := Inv) ?_ ?_ ?_ (inv_start he)
  · exact fun s hs => hs.correlated
  · exact fun s a ha hs => hs.step ha
  · exact fun s a ha hs => not_correlated_of_not_stamped hs.store hs.named ha

/-- A FIX session with short names. -/
def shortNames : Endpoint :=
  .fix { senderComp := ascii ['A'], targetComp := ascii ['B'], sockfd := 3 }

lemma wellNamed_shortNames : shortNames.WellNamed :=
  ⟨by decide, by decide, by decide, by decide⟩

/-- The rule for a request that carries the id of its order and one that does not. -/
theorem correlated_iff_stamped_shortNames :
    let actions : List Action :=
      [.submit { strategyTsNs := 1 } 0 0 none none, .submit { strategyTsNs := 7 } 0 0 none none]
    (∀ first, first <+: actions → (Transition.run step (start shortNames) first).Correlated) ↔
      Transition.Admissible step Stamped (start shortNames) actions :=
  correlated_iff_stamped wellNamed_shortNames _

/-- The two quotes of a market maker, when the messages are `size` bytes long and sent in full. -/
def quotes (size : ℕ) : List Action :=
  ((MarketMaker.init 1 2 10 100).onBboImpl { instrumentId := 1, bidPx := 100, askPx := 102 }
    ).orderQueue.contents.map (.submit · 0 0 (some size) none)

/-- The two quotes of a market maker go out under the same id, through both gateways. -/
theorem not_correlated_quotes :
    ¬(Transition.run step (start shortNames) (quotes 100)).Correlated ∧
      ¬(Transition.run step (start (.binary true)) (quotes 48)).Correlated := by
  constructor
  · intro h
    exact absurd h.distinct (by decide +kernel)
  · intro h
    exact absurd h.distinct (by decide +kernel)

end OrderEntry

end QuantTrade

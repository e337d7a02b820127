import Mathlib.Data.List.Nodup
import QuantTrade.Library.Transition
import QuantTrade.Strategy.MarketMaker

/-!
# Quotes that the market maker loses

A run of the market maker with the OMS around it: the orders and the cancels are popped from their
queues, and the orders are acknowledged, each once and in the order of submission, with ids that are
distinct and not 0.

The strategy keeps one id for each side.  While an id is kept, an acknowledgement for an order of
that side, sent before the first one arrived, overwrites or clears it, and the quote under it can
never be cancelled.  No quote is lost exactly when this does not happen
(`noOrphans_iff_vacant`).
-/

namespace QuantTrade

namespace MarketMaker

/-- The strategy, with what was taken from its queues and the acknowledgements so far. -/
structure Session where
  mm : MarketMaker
  poppedOrders : List OrderRequest
  poppedCancels : List ℕ
  acks : List OrderAck

/-- The calls. -/
inductive Event where
  | bbo (e : BBOEvent)
  | fill (f : FillEvent)
  | ack (a : OrderAck)
  | popOrder
  | popCancel

namespace Session

/-- A strategy that has just been built. -/
def start (instrumentId : ℕ) (spreadTicks orderQty maxInventory : ℤ) : Session where
  mm := .init instrumentId spreadTicks orderQty maxInventory
  poppedOrders := []
  poppedCancels := []
  acks := []

/-- One call. -/
def step (s : Session) : Event → Session
  | .bbo e => { s with mm := s.mm.onBboImpl e }
  | .fill f => { s with mm := s.mm.onFillImpl f }
  | .ack a => { s with mm := s.mm.onOrderAckImpl a, acks := s.acks ++ [a] }
  | .popOrder =>
    { s with
      mm := s.mm.popOrder.2
      poppedOrders := s.poppedOrders ++ s.mm.popOrder.1.toList }
  | .popCancel =>
    { s with
      mm := s.mm.popCancel.2
      poppedCancels := s.poppedCancels ++ s.mm.popCancel.1.toList }

/-- The orders enqueued so far, in order. -/
def enqueued (s : Session) : List OrderRequest :=
  s.poppedOrders ++ s.mm.orderQueue.contents

/-- The ids pushed to the cancel queue so far. -/
def cancelled (s : Session) : List ℕ :=
  s.poppedCancels ++ s.mm.cancelQueue.contents

/-- The side of the order that the next acknowledgement is for. -/
def nextSide (s : Session) : Option Side :=
  (s.enqueued[s.acks.length]?).map OrderRequest.side

/-- The id was given, in an acknowledgement `NEW`, to an order of the side. -/
def Accepted (s : Session) (side : Side) (id : ℕ) : Prop :=
  ∃ (k : ℕ) (order : OrderRequest) (a : OrderAck), s.enqueued[k]? = some order ∧
    s.acks[k]? = some a ∧ order.side = side ∧ a.status = .new ∧ a.clientOrderId = id

/-- Every accepted order is the one tracked on its side or has been cancelled. -/
def NoOrphans (s : Session) : Prop :=
  ∀ side id, s.Accepted side id → id = s.mm.orderId side ∨ id ∈ s.cancelled

/-- The orders of a side that may be live and are not cancelled, by their place in the order of
submission: they are not acknowledged yet, or accepted under an id that is not cancelled. -/
def live (s : Session) (side : Side) : List ℕ :=
  (List.range s.enqueued.length).filter fun k =>
    (s.enqueued[k]?).map OrderRequest.side = some side ∧
      ∀ a ∈ s.acks[k]?, a.status = .new ∧ a.clientOrderId ∉ s.cancelled

/-- An acknowledgement is for an order that was enqueued, under an id that is not 0 and was not
given before. -/
def Answers (s : Session) (a : OrderAck) : Prop :=
  (a.status = .new ∨ a.status = .rejected) ∧ s.acks.length < s.enqueued.length ∧
    a.clientOrderId ≠ 0 ∧ a.clientOrderId ∉ s.acks.map OrderAck.clientOrderId

/-- The surroundings of the strategy: every order is acknowledged at most once and in order, and no
queue fills up. -/
def Orderly (s : Session) (event : Event) : Prop :=
  (match event with
    | .ack a => s.Answers a
    | _ => True) ∧
  (s.step event).mm.HasRoom

instance (s : Session) (event : Event) : Decidable (s.Orderly event) := by
  unfold Orderly Answers
  cases event <;> infer_instance

/-- At an acknowledgement no id is tracked on the side of its order. -/
def Vacant (s : Session) : Event → Prop
  | .ack _ => ∀ side, s.nextSide = some side → s.mm.orderId side = 0
  | _ => True

/-! ## The invariant -/

/-- The sides that wait for an acknowledgement are those of the orders not acknowledged; the ids
that are tracked were accepted on their sides and are not cancelled; and no quote is lost. -/
structure Inv (s : Session) : Prop where
  pending : s.mm.pendingSideQueue.contents =
    (s.enqueued.drop s.acks.length).map OrderRequest.side
  acks_le : s.acks.length ≤ s.enqueued.length
  nodup : (s.acks.map OrderAck.clientOrderId).Nodup
  ne_zero : ∀ a ∈ s.acks, a.clientOrderId ≠ 0
  cancelled : ∀ id ∈ s.cancelled, id ∈ s.acks.map OrderAck.clientOrderId
  tracked : ∀ side, s.mm.orderId side ≠ 0 →
    s.Accepted side (s.mm.orderId side) ∧ s.mm.orderId side ∉ s.cancelled
  noOrphans : s.NoOrphans

variable {s s' : Session}

lemma inv_start (instrumentId : ℕ) (spreadTicks orderQty maxInventory : ℤ) :
    (start instrumentId spreadTicks orderQty maxInventory).Inv where
  pending := by simp [start, init, enqueued]
  acks_le := Nat.zero_le _
  nodup := List.nodup_nil
  ne_zero a ha := by simp [start] at ha
  cancelled id hid := by simp [start, init, Session.cancelled] at hid
  tracked side hid := by cases side <;> exact absurd rfl hid
  noOrphans side id h := by
    obtain ⟨k, order, a, -, ha, -⟩ := h
    simp [start] at ha

/-- An accepted id was acknowledged. -/
lemma Accepted.mem_acks {side : Side} {id : ℕ} (h : s.Accepted side id) :
    id ∈ s.acks.map OrderAck.clientOrderId := by
  obtain ⟨k, order, a, -, ha, -, -, hid⟩ := h
  exact List.mem_map.mpr ⟨a, List.mem_of_getElem? ha, hid⟩

lemma Inv.ne_zero_of_accepted (h : s.Inv) {side : Side} {id : ℕ} (hid : s.Accepted side id) :
    id ≠ 0 := by
  obtain ⟨a, ha, rfl⟩ := List.mem_map.mp hid.mem_acks
  exact h.ne_zero a ha

/-- New orders do not change what is accepted. -/
lemma accepted_iff_of_enqueued {orders : List OrderRequest} (hacks : s'.acks = s.acks)
    (henqueued : s'.enqueued = s.enqueued ++ orders) (hle : s.acks.length ≤ s.enqueued.length)
    (side : Side) (id : ℕ) : s'.Accepted side id ↔ s.Accepted side id := by
  unfold Accepted
  rw [hacks, henqueued]
  apply exists_congr
  intro k
  by_cases hk : k < s.enqueued.length
  · rw [List.getElem?_append_left hk]
  · have hnone : s.acks[k]? = none := List.getElem?_eq_none (by omega)
    simp [hnone]

/-- A call without an acknowledgement: some orders are sent, and of the ids that are tracked some
are cancelled and forgotten. -/
lemma Inv.advance (h : s.Inv) (orders : List OrderRequest) (ids : List ℕ)
    (hacks : s'.acks = s.acks) (henqueued : s'.enqueued = s.enqueued ++ orders)
    (hpending : s'.mm.pendingSideQueue.contents =
      s.mm.pendingSideQueue.contents ++ orders.map OrderRequest.side)
    (hcancelled : s'.cancelled = s.cancelled ++ ids)
    (hids : ∀ id ∈ ids, ∃ side, id = s.mm.orderId side ∧ id ≠ 0)
    (hkept : ∀ side, s'.mm.orderId side ≠ 0 →
      s'.mm.orderId side = s.mm.orderId side ∧ s.mm.orderId side ∉ ids)
    (hleft : ∀ side, s.mm.orderId side ≠ 0 →
      s'.mm.orderId side = s.mm.orderId side ∨ s.mm.orderId side ∈ ids) : s'.Inv := by
  have haccepted := accepted_iff_of_enqueued hacks henqueued h.acks_le
  constructor
  · rw [hpending, h.pending, hacks, henqueued, List.drop_append_of_le_length h.acks_le,
      List.map_append]
  · rw [hacks, henqueued, List.length_append]
    exact h.acks_le.trans (Nat.le_add_right ..)
  · rw [hacks]
    exact h.nodup
  · rw [hacks]
    exact h.ne_zero
  · intro id hid
    rw [hacks]
    rw [hcancelled, List.mem_append] at hid
    rcases hid with hold | hnew
    · exact h.cancelled id hold
    · obtain ⟨side, rfl, hne⟩ := hids id hnew
      exact (h.tracked side hne).1.mem_acks
  · intro side hne
    obtain ⟨hsame, hnotin⟩ := hkept side hne
    rw [hsame] at hne ⊢
    obtain ⟨hold, hfree⟩ := h.tracked side hne
    rw [haccepted, hcancelled, List.mem_append, not_or]
    exact ⟨hold, hfree, hnotin⟩
  · intro side id hold
    rw [haccepted] at hold
    rw [hcancelled, List.mem_append]
    rcases h.noOrphans side id hold with rfl | hmem
    · rcases hleft side (h.ne_zero_of_accepted hold) with hsame | hin
      · exact Or.inl hsame.symm
      · exact Or.inr (Or.inr hin)
    · exact Or.inr (Or.inl hmem)

/-- A call that leaves the orders and the ids as they are. -/
lemma Inv.of_same (h : s.Inv) (hacks : s'.acks = s.acks) (henqueued : s'.enqueued = s.enqueued)
    (hpending : s'.mm.pendingSideQueue = s.mm.pendingSideQueue)
    (hcancelled : s'.cancelled = s.cancelled) (hid : s'.mm.orderId = s.mm.orderId) : s'.Inv := by
  apply h.advance [] [] hacks
  · rw [henqueued, List.append_nil]
  · rw [hpending, List.map_nil, List.append_nil]
  · rw [hcancelled, List.append_nil]
  · intro id hmem
    cases hmem
  · intro side _
    exact ⟨congrFun hid side, List.not_mem_nil⟩
  · intro side _
    exact Or.inl (congrFun hid side)

/-- New quotes: the ids that are tracked are cancelled. -/
lemma Inv.requote (h : s.Inv) {newSum : ℤ} (hroom : (s.mm.requote newSum).HasRoom) :
    ({ s with mm := s.mm.requote newSum } : Session).Inv := by
  obtain ⟨hid, hcancel, orders, horder, hpending⟩ := requote_spec hroom
  refine h.advance orders (s.mm.activeId .buy ++ s.mm.activeId .sell) ?_ ?_ ?_ ?_ ?_ ?_ ?_
  · rfl
  · simp only [enqueued]
    rw [horder, List.append_assoc]
  · exact hpending
  · simp only [Session.cancelled]
    rw [hcancel, List.append_assoc]
  · intro id hmem
    rcases List.mem_append.mp hmem with hbuy | hsell
    · exact ⟨.buy, mem_activeId.mp hbuy⟩
    · exact ⟨.sell, mem_activeId.mp hsell⟩
  · intro side hne
    exact absurd (hid side) hne
  · intro side hne
    right
    have hmem : s.mm.orderId side ∈ s.mm.activeId side := mem_activeId.mpr ⟨rfl, hne⟩
    cases side with
    | buy => exact List.mem_append_left _ hmem
    | sell => exact List.mem_append_right _ hmem

/-! ## Acknowledgements -/

/-- The order that an acknowledgement is for, and what the strategy does with it. -/
lemma Inv.ack_spec (h : s.Inv) {a : OrderAck} (ha : s.Answers a) :
    ∃ order, s.enqueued[s.acks.length]? = some order ∧ s.nextSide = some order.side ∧
      (s.step (.ack a)).enqueued = s.enqueued ∧ (s.step (.ack a)).cancelled = s.cancelled ∧
      (s.step (.ack a)).mm.pendingSideQueue.contents =
        (s.enqueued.drop (s.acks.length + 1)).map OrderRequest.side ∧
      (s.step (.ack a)).mm.orderId = Function.update s.mm.orderId order.side
        (if a.status = .rejected then 0 else a.clientOrderId) := by
  have hlt := ha.2.1
  have hpending := h.pending
  rw [List.drop_eq_getElem_cons hlt, List.map_cons] at hpending
  obtain ⟨horder, hcancel, hrest, hid⟩ := onOrderAckImpl_spec (a := a) hpending
  have hget : s.enqueued[s.acks.length]? = some s.enqueued[s.acks.length] :=
    List.getElem?_eq_getElem hlt
  refine ⟨s.enqueued[s.acks.length], hget, ?_, ?_, ?_, hrest, hid⟩
  · rw [nextSide, hget]
    rfl
  · simp only [enqueued, step]
    rw [horder]
  · simp only [Session.cancelled, step]
    rw [hcancel]

/-- What is accepted after an acknowledgement. -/
lemma accepted_ack_iff {a : OrderAck} (henqueued : (s.step (.ack a)).enqueued = s.enqueued)
    {order : OrderRequest} (horder : s.enqueued[s.acks.length]? = some order) (side : Side)
    (id : ℕ) :
    (s.step (.ack a)).Accepted side id ↔
      s.Accepted side id ∨ order.side = side ∧ a.status = .new ∧ a.clientOrderId = id := by
  unfold Accepted
  rw [henqueued]
  constructor
  · rintro ⟨k, o, b, ho, hb, hside, hstatus, hid⟩
    rcases RingIndex.getElem?_concat_eq_some hb with hb | ⟨rfl, rfl⟩
    · exact Or.inl ⟨k, o, b, ho, hb, hside, hstatus, hid⟩
    · rw [horder, Option.some.injEq] at ho
      subst ho
      exact Or.inr ⟨hside, hstatus, hid⟩
  · rintro (⟨k, o, b, ho, hb, hrest⟩ | ⟨hside, hstatus, hid⟩)
    · exact ⟨k, o, b, ho, RingIndex.getElem?_append_of_eq_some hb _, hrest⟩
    · refine ⟨_, order, a, horder, ?_, hside, hstatus, hid⟩
      rw [step, List.getElem?_concat_length]

/-- An acknowledgement on a vacant side loses no quote. -/
lemma Inv.ack (h : s.Inv) {a : OrderAck} (ha : s.Answers a) (hvacant : s.Vacant (.ack a)) :
    (s.step (.ack a)).Inv := by
  obtain ⟨order, horder, hnext, henqueued, hcancelled, hpending, hid⟩ := h.ack_spec ha
  have haccepted := accepted_ack_iff henqueued horder
  have hacks : (s.step (.ack a)).acks = s.acks ++ [a] := rfl
  have hzero := hvacant order.side hnext
  obtain ⟨hstatus, hlt, hne, hfresh⟩ := ha
  constructor
  · rw [hpending, henqueued, hacks, List.length_append, List.length_singleton]
  · rw [henqueued, hacks, List.length_append, List.length_singleton]
    exact hlt
  · rw [hacks, List.map_append, List.map_singleton, List.nodup_append]
    refine ⟨h.nodup, List.nodup_singleton _, ?_⟩
    intro x hx y hy
    rw [List.mem_singleton.mp hy]
    rintro rfl
    exact hfresh hx
  · intro b hb
    rw [hacks, List.mem_append, List.mem_singleton] at hb
    rcases hb with hold | rfl
    · exact h.ne_zero b hold
    · exact hne
  · intro id hmem
    rw [hcancelled] at hmem
    rw [hacks, List.map_append]
    exact List.mem_append_left _ (h.cancelled id hmem)
  · intro side hne'
    rw [hid] at hne' ⊢
    rw [haccepted, hcancelled]
    by_cases hside : side = order.side
    · subst hside
      rw [Function.update_self] at hne' ⊢
      split_ifs at hne' ⊢ with hrej
      · exact absurd rfl hne'
      · exact ⟨Or.inr ⟨rfl, hstatus.resolve_right hrej, rfl⟩, fun hmem =>
          hfresh (h.cancelled _ hmem)⟩
    · rw [Function.update_of_ne hside] at hne' ⊢
      obtain ⟨hold, hfree⟩ := h.tracked side hne'
      exact ⟨Or.inl hold, hfree⟩
  · intro side id hacc
    rw [haccepted] at hacc
    rw [hid, hcancelled]
    rcases hacc with hold | ⟨rfl, hnew, rfl⟩
    · rcases h.noOrphans side id hold with rfl | hmem
      · have hside : side ≠ order.side := by
          rintro rfl
          exact h.ne_zero_of_accepted hold hzero
        left
        rw [Function.update_of_ne hside]
      · exact Or.inr hmem
    · left
      rw [Function.update_self, if_neg (by rw [hnew]; decide)]

/-- An acknowledgement on a side with an id that is tracked loses the quote under it. -/
lemma Inv.not_noOrphans (h : s.Inv) {a : OrderAck} (ha : s.Answers a)
    (hvacant : ¬s.Vacant (.ack a)) : ¬(s.step (.ack a)).NoOrphans := by
  obtain ⟨order, horder, hnext, henqueued, hcancelled, -, hid⟩ := h.ack_spec ha
  have hne : s.mm.orderId order.side ≠ 0 := by
    intro hzero
    apply hvacant
    intro side hside
    rw [hnext, Option.some.injEq] at hside
    exact hside ▸ hzero
  obtain ⟨hold, hfree⟩ := h.tracked order.side hne
  intro hgood
  rcases hgood order.side _ ((accepted_ack_iff henqueued horder _ _).mpr (Or.inl hold)) with
    htracked | hmem
  · rw [hid, Function.update_self] at htracked
    split_ifs at htracked
    · exact hne htracked
    · exact ha.2.2.2 (htracked ▸ hold.mem_acks)
  · exact hfree (hcancelled ▸ hmem)

/-! ## Runs -/

/-- A call that is not an acknowledgement on a side with an id that is tracked keeps the
invariant. -/
lemma Inv.step (h : s.Inv) {event : Event} (horderly : s.Orderly event)
    (hvacant : s.Vacant event) : (s.step event).Inv := by
  obtain ⟨hanswers, hroom⟩ := horderly
  cases event with
  | bbo e =>
    simp only [Session.step] at hroom ⊢
    rcases onBboImpl_eq s.mm e with hsame | hnew
    · rw [hsame]
      exact h
    · rw [hnew] at hroom ⊢
      exact h.requote hroom
  | fill f =>
    simp only [Session.step]
    unfold onFillImpl
    split
    · exact h
    · refine h.of_same rfl rfl rfl rfl ?_
      funext side
      cases side <;> rfl
  | ack a => exact h.ack hanswers hvacant
  | popOrder =>
    refine h.of_same rfl ?_ rfl rfl ?_
    · simp only [Session.step, enqueued, popOrder, SPSCQueue.pop_fst, SPSCQueue.contents_pop]
      cases s.mm.orderQueue.contents <;> simp
    · funext side
      cases side <;> rfl
  | popCancel =>
    refine h.of_same rfl rfl rfl ?_ ?_
    · simp only [Session.step, Session.cancelled, popCancel, SPSCQueue.pop_fst,
        SPSCQueue.contents_pop]
      cases s.mm.cancelQueue.contents <;> simp
    · funext side
      cases side <;> rfl

/-- When all orders are acknowledged, the ones of a side that may be live were all accepted under
the id that is tracked, so there is only one. -/
lemma Inv.length_live_le (h : s.Inv) (hall : s.acks.length = s.enqueued.length) (side : Side) :
    (s.live side).length ≤ 1 := by
  have htracked : ∀ k ∈ s.live side, ∃ a, s.acks[k]? = some a ∧
      a.clientOrderId = s.mm.orderId side := by
    intro k hk
    simp only [live, List.mem_filter, List.mem_range, decide_eq_true_eq] at hk
    obtain ⟨hlt, hside, hlive⟩ := hk
    obtain ⟨order, horder, hside⟩ := Option.map_eq_some_iff.mp hside
    have hlt' : k < s.acks.length := hall ▸ hlt
    have ha : s.acks[k]? = some s.acks[k] := List.getElem?_eq_getElem hlt'
    obtain ⟨hnew, hfree⟩ := hlive _ ha
    refine ⟨_, ha, ?_⟩
    exact (h.noOrphans side _ ⟨k, order, _, horder, ha, hside, hnew, rfl⟩).resolve_right hfree
  have hsame : ∀ k ∈ s.live side, ∀ l ∈ s.live side, k = l := by
    intro k hk l hl
    obtain ⟨a, ha, haid⟩ := htracked k hk
    obtain ⟨b, hb, hbid⟩ := htracked l hl
    have hlt : k < (s.acks.map OrderAck.clientOrderId).length := by
      rw [List.length_map]
      exact (List.getElem?_eq_some_iff.mp ha).1
    apply (List.getElem?_inj hlt h.nodup).mp
    rw [List.getElem?_map, List.getElem?_map, ha, hb, Option.map_some, Option.map_some, haid, hbid]
  have hnodup : (s.live side).Nodup := List.nodup_range.filter _
  rcases hlive : s.live side with _ | ⟨k, _ | ⟨l, rest⟩⟩
  · exact Nat.zero_le _
  · exact le_rfl
  · rw [hlive] at hnodup hsame
    have hkl := hsame k List.mem_cons_self l (by simp)
    simp [hkl] at hnodup

/-- **No orphaned quotes.**  When every order is acknowledged once and in the order of submission
and no queue fills up, no quote is lost at any time exactly when every acknowledgement finds no id
tracked on the side of its order; and then, once all orders are acknowledged, at most one order of
a side is live and not cancelled. -/
theorem noOrphans_iff_vacant (instrumentId : ℕ) (spreadTicks orderQty maxInventory : ℤ)
    (events : List Event)
    (h : Transition.Admissible step Orderly
      (start instrumentId spreadTicks orderQty maxInventory) events) :
    let run := Transition.run step (start instrumentId spreadTicks orderQty maxInventory)
    let vacant := Transition.Admissible step Vacant
      (start instrumentId spreadTicks orderQty maxInventory) events
    ((∀ first, first <+: events → (run first).NoOrphans) ↔ vacant) ∧
      (vacant → (run events).acks.length = (run events).enqueued.length →
        ∀ side, ((run events).live side).length ≤ 1) := by
  intro run vacant
  have hstart := inv_start instrumentId spreadTicks orderQty maxInventory
  constructor
  · apply Transition.forall_prefix_iff_admissible (P := Inv) (C := Orderly) (fun _ h => h.noOrphans)
      (fun s event hC hD hP => hP.step hC hD) _ h hstart
    intro s event hC hD hP
    cases event with
    | ack a => exact hP.not_noOrphans hC.1 hD
    | _ => exact absurd trivial hD
  · intro hvacant hall side
    have hinv : (run events).Inv := by
      apply Transition.invariant_run (C := fun s event => s.Orderly event ∧ s.Vacant event)
        (fun s event hC hP => hP.step hC.1 hC.2) _ hstart
      exact h.and (D := Vacant) hvacant
    exact hinv.length_live_le hall side

/-! ## Two rounds of quotes -/

/-- The middle moves after the first quotes are acknowledged: they are cancelled. -/
def alternatingEvents : List Event :=
  [.bbo { instrumentId := 1, bidPx := 100, askPx := 102 }, .popOrder, .popOrder,
    .ack { clientOrderId := 1 }, .ack { clientOrderId := 2 },
    .bbo { instrumentId := 1, bidPx := 101, askPx := 103 }, .popCancel, .popOrder, .popOrder,
    .ack { clientOrderId := 3 }, .ack { clientOrderId := 4 }]

/-- The theorem at a run in which the rounds do not overlap. -/
theorem noOrphans_iff_vacant_alternating :
    let run := Transition.run step (start 1 2 10 100)
    let vacant := Transition.Admissible step Vacant (start 1 2 10 100) alternatingEvents
    ((∀ first, first <+: alternatingEvents → (run first).NoOrphans) ↔ vacant) ∧
      (vacant → (run alternatingEvents).acks.length = (run alternatingEvents).enqueued.length →
        ∀ side, ((run alternatingEvents).live side).length ≤ 1) :=
  noOrphans_iff_vacant 1 2 10 100 alternatingEvents (by decide)

/-- The middle moves before the first quotes are acknowledged. -/
def overlappingEvents : List Event :=
  [.bbo { instrumentId := 1, bidPx := 100, askPx := 102 }, .popOrder, .popOrder,
    .bbo { instrumentId := 1, bidPx := 101, askPx := 103 }, .popOrder, .popOrder,
    .ack { clientOrderId := 1 }, .ack { clientOrderId := 2 }, .ack { clientOrderId := 3 },
    .ack { clientOrderId := 4 }]

/-- The quotes of the first round are lost: no id of theirs is tracked or cancelled, and two orders
are live on each side. -/
theorem not_noOrphans_overlapping :
    let s := Transition.run step (start 1 2 10 100) overlappingEvents
    Transition.Admissible step Orderly (start 1 2 10 100) overlappingEvents ∧
      s.acks.length = s.enqueued.length ∧ ¬s.NoOrphans ∧ s.mm.bidOrderId = 3 ∧
      s.cancelled = [] ∧ s.live .buy = [0, 2] ∧ s.live .sell = [1, 3] := by
  have hbid : (Transition.run step (start 1 2 10 100) overlappingEvents).mm.bidOrderId = 3 := by
    decide
  have hcancelled : (Transition.run step (start 1 2 10 100) overlappingEvents).cancelled = [] := by
    decide
  refine ⟨by decide, by decide, ?_, hbid, hcancelled, by decide, by decide⟩
  intro hgood
  have hfirst : (Transition.run step (start 1 2 10 100) overlappingEvents).Accepted .buy 1 :=
    ⟨0, _, _, rfl, rfl, rfl, rfl, rfl⟩
  rcases hgood .buy 1 hfirst with htracked | hmem
  · exact absurd (htracked.trans hbid) (by decide)
  · rw [hcancelled] at hmem
    cases hmem

end Session

end MarketMaker

end QuantTrade

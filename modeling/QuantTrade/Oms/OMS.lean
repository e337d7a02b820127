import Mathlib.Data.List.AList
import QuantTrade.Infra.MemoryPool
import QuantTrade.Oms.FillTracker
import QuantTrade.Oms.OrderStateMachine

/-!
# The order management system

`OMS` of `src/oms/oms.cpp`: orders live in the slots of a pool of 65536, a map leads from the
client order id to the slot, and ids are handed out by a counter.  `orderAt` is the abstract view,
the table from ids to orders; under the store invariant `StoreInv` each operation acts on this
table at one id only (`orderAt_updateOrder`, `submit_of_room`, `orderAt_release`).
-/

namespace QuantTrade

/-- The number of slots of the order pool. -/
def poolSize : ℕ := 65536

/-- The leading bytes of an order are its client order id. -/
def Order.leading (o : Order) : Option ℕ :=
  if o.clientOrderId = 0 then none else some o.clientOrderId

/-- The order store together with the tracker it reports fills to. -/
structure OMS where
  fillTracker : FillTracker
  pool : MemoryPool Order
  orders : AList fun _ : ℕ => ℕ
  nextOrderId : ℕ

namespace OMS

/-- A new OMS. -/
def init : OMS where
  fillTracker := .init
  pool := .init poolSize
  orders := ∅
  nextOrderId := 1

/-- `find`: the pointer to the order with this id. -/
def find (s : OMS) (clientOrderId : ℕ) : Option ℕ :=
  s.orders.lookup clientOrderId

/-- `active_orders`: the number of orders in the map. -/
def activeOrders (s : OMS) : ℕ :=
  s.orders.keys.length

/-- The order that `submit` makes of a request. -/
def newOrder (s : OMS) (req : OrderRequest) (now : ℕ) : Order where
  clientOrderId := s.nextOrderId
  exchangeOrderId := 0
  instrumentId := req.instrumentId
  side := req.side
  type := req.type
  status := .pendingNew
  price := req.price
  qty := req.qty
  filledQty := 0
  submitTsNs := now
  ackTsNs := 0

/-- `submit`: take a slot, write the new order into it and enter it in the map; `none` when the pool
is exhausted. -/
def submit (s : OMS) (req : OrderRequest) (now : ℕ) : OMS × Option ℕ :=
  match s.pool.acquire Order.leading with
  | (none, _) => (s, none)
  | (some raw, pool) =>
    ({ s with
        pool := pool.write raw (s.newOrder req now)
        -- `emplace` leaves an entry that exists alone
        orders := if s.nextOrderId ∈ s.orders then s.orders else s.orders.insert s.nextOrderId raw
        nextOrderId := s.nextOrderId + 1 }, some raw)

/-- Look an order up and run an operation of the state machine on it, in place.  An unknown id gives
`false`. -/
def updateOrder (s : OMS) (id : ℕ) (f : Order → Order × Bool) : OMS × Bool :=
  match s.find id with
  | none => (s, false)
  | some ptr =>
    match s.pool.deref ptr with
    | none => (s, false)
    | some order => ({ s with pool := s.pool.write ptr (f order).1 }, (f order).2)

/-- The order operation of `on_ack`: note the ids of the exchange, then change the state. -/
def ackOrder (ack : OrderAck) (order : Order) : Order × Bool :=
  OrderStateMachine.transition
    { order with exchangeOrderId := ack.exchangeOrderId, ackTsNs := ack.ackTsNs } ack.status

/-- `on_ack`. -/
def onAck (s : OMS) (ack : OrderAck) : OMS × Bool :=
  s.updateOrder ack.clientOrderId (ackOrder ack)

/-- `on_fill`: apply the fill; an accepted one goes on to the tracker. -/
def onFill (s : OMS) (fill : FillEvent) : OMS × Bool :=
  match s.updateOrder fill.clientOrderId (OrderStateMachine.applyFill · fill.fillQty) with
  | (s', true) => ({ s' with fillTracker := s'.fillTracker.onFill fill }, true)
  | (s', false) => (s', false)

/-- `on_cancel_ack`. -/
def onCancelAck (s : OMS) (clientOrderId : ℕ) : OMS × Bool :=
  s.updateOrder clientOrderId (OrderStateMachine.transition · .cancelled)

/-- The client asks for a cancel: `OrderStateMachine::transition(*find(id), PENDING_CANCEL)`. -/
def markPendingCancel (s : OMS) (clientOrderId : ℕ) : OMS × Bool :=
  s.updateOrder clientOrderId (OrderStateMachine.transition · .pendingCancel)

/-- `release`: remove the entry and give the slot back. -/
def release (s : OMS) (clientOrderId : ℕ) : OMS :=
  match s.find clientOrderId with
  | none => s
  | some ptr => { s with
      orders := s.orders.erase clientOrderId
      pool := s.pool.release ptr }

/-! ## The store invariant -/

/-- The table from ids to orders that the map and the pool represent. -/
def orderAt (s : OMS) (id : ℕ) : Option Order :=
  (s.find id).bind s.pool.deref

/-- Map, pool and id counter are consistent: the pool hands out exactly the slots in the map, every
entry leads to the order of its id, no two entries share a slot, and ids below the counter only are
in use. -/
structure StoreInv (s : OMS) : Prop where
  sound : s.pool.Sound poolSize fun ptr => ∃ id, s.find id = some ptr
  count : s.activeOrders + s.pool.available = poolSize
  entry : ∀ {id ptr}, s.find id = some ptr →
    ptr < poolSize ∧ id < s.nextOrderId ∧ ∃ o, s.pool.deref ptr = some o ∧ o.clientOrderId = id
  inj : ∀ {id id' ptr}, s.find id = some ptr → s.find id' = some ptr → id = id'

lemma StoreInv.activeOrders_le {s : OMS} (h : s.StoreInv) : s.activeOrders ≤ poolSize :=
  h.count ▸ Nat.le_add_right _ _

/-- Every entry of the map is an entry of the table. -/
lemma StoreInv.orderAt_of_find {s : OMS} (h : s.StoreInv) {id ptr : ℕ}
    (hfind : s.find id = some ptr) :
    ∃ o, s.orderAt id = some o ∧ s.pool.deref ptr = some o ∧ o.clientOrderId = id := by
  obtain ⟨-, -, o, hderef, hid⟩ := h.entry hfind
  exact ⟨o, by simp [orderAt, hfind, hderef], hderef, hid⟩

/-- Every entry of the table is an entry of the map. -/
lemma find_of_orderAt {s : OMS} {id : ℕ} {o : Order} (h : s.orderAt id = some o) :
    ∃ ptr, s.find id = some ptr ∧ s.pool.deref ptr = some o :=
  Option.bind_eq_some_iff.mp h

lemma StoreInv.clientOrderId_eq {s : OMS} (h : s.StoreInv) {id : ℕ} {o : Order}
    (ho : s.orderAt id = some o) : o.clientOrderId = id := by
  obtain ⟨ptr, hfind, -⟩ := find_of_orderAt ho
  obtain ⟨o', ho', -, hid⟩ := h.orderAt_of_find hfind
  rw [ho, Option.some.injEq] at ho'
  rw [ho', hid]

lemma StoreInv.lt_nextOrderId {s : OMS} (h : s.StoreInv) {id : ℕ} {o : Order}
    (ho : s.orderAt id = some o) : id < s.nextOrderId := by
  obtain ⟨ptr, hfind, -⟩ := find_of_orderAt ho
  exact (h.entry hfind).2.1

@[simp] lemma find_init (id : ℕ) : init.find id = none := rfl

@[simp] lemma orderAt_init (id : ℕ) : init.orderAt id = none := rfl

lemma storeInv_init : init.StoreInv where
  sound := (MemoryPool.sound_init (by decide)).congr fun i => by simp
  count := rfl
  entry h := by simp at h
  inj h := by simp at h

/-! ## Operations on one order -/

section UpdateOrder

variable {s : OMS} {id : ℕ} {f : Order → Order × Bool}

/-- The map is not touched. -/
@[simp] lemma find_updateOrder (i : ℕ) : (s.updateOrder id f).1.find i = s.find i := by
  unfold updateOrder
  split
  · rfl
  · split <;> rfl

@[simp] lemma nextOrderId_updateOrder : (s.updateOrder id f).1.nextOrderId = s.nextOrderId := by
  unfold updateOrder
  split
  · rfl
  · split <;> rfl

@[simp] lemma activeOrders_updateOrder :
    (s.updateOrder id f).1.activeOrders = s.activeOrders := by
  unfold updateOrder
  split
  · rfl
  · split <;> rfl

@[simp] lemma fillTracker_updateOrder : (s.updateOrder id f).1.fillTracker = s.fillTracker := by
  unfold updateOrder
  split
  · rfl
  · split <;> rfl

lemma updateOrder_of_none (h : s.orderAt id = none) : s.updateOrder id f = (s, false) := by
  unfold updateOrder
  cases hfind : s.find id with
  | none => rfl
  | some ptr =>
    have hderef : s.pool.deref ptr = none := by simpa [orderAt, hfind] using h
    simp [hderef]

lemma updateOrder_of_some {ptr : ℕ} {o : Order} (hfind : s.find id = some ptr)
    (hderef : s.pool.deref ptr = some o) :
    s.updateOrder id f = ({ s with pool := s.pool.write ptr (f o).1 }, (f o).2) := by
  simp [updateOrder, hfind, hderef]

/-- The result of the operation is that of the state machine on the order; `false` for an unknown
id. -/
lemma updateOrder_snd :
    (s.updateOrder id f).2 = ((s.orderAt id).map fun o => (f o).2).getD false := by
  cases ho : s.orderAt id with
  | none => rw [updateOrder_of_none ho]; rfl
  | some o =>
    obtain ⟨ptr, hfind, hderef⟩ := find_of_orderAt ho
    rw [updateOrder_of_some hfind hderef]
    rfl

/-- The order at `id` is replaced and every other order stays as it is. -/
theorem orderAt_updateOrder (h : s.StoreInv) (i : ℕ) :
    (s.updateOrder id f).1.orderAt i =
      if i = id then (s.orderAt id).map fun o => (f o).1 else s.orderAt i := by
  cases ho : s.orderAt id with
  | none =>
    rw [updateOrder_of_none ho]
    split_ifs with hi
    · rw [hi, ho]
      rfl
    · rfl
  | some o =>
    obtain ⟨ptr, hfind, hderef⟩ := find_of_orderAt ho
    rw [updateOrder_of_some hfind hderef]
    change (s.find i).bind (s.pool.write ptr (f o).1).deref = _
    split_ifs with hi
    · rw [hi, hfind, Option.bind_some, MemoryPool.deref_write_self]
      rfl
    · cases hi' : s.find i with
      | none => simp [orderAt, hi']
      | some ptr' =>
        have hne : ptr' ≠ ptr := fun heq => hi (h.inj hi' (heq ▸ hfind))
        simp [orderAt, hi', MemoryPool.deref_write_of_ne _ hne]

/-- An operation that keeps the client order id keeps the store consistent. -/
theorem StoreInv.updateOrder (h : s.StoreInv)
    (hf : ∀ o, (f o).1.clientOrderId = o.clientOrderId) : (s.updateOrder id f).1.StoreInv := by
  cases ho : s.orderAt id with
  | none =>
    rw [updateOrder_of_none ho]
    exact h
  | some o =>
    obtain ⟨ptr, hfind, hderef⟩ := find_of_orderAt ho
    have hid := h.clientOrderId_eq ho
    rw [updateOrder_of_some hfind hderef]
    refine ⟨MemoryPool.sound_write h.sound ⟨id, hfind⟩ _, h.count, ?_, h.inj⟩
    intro i ptr' hi
    obtain ⟨hlt, hnext, o', hderef', hid'⟩ := h.entry hi
    refine ⟨hlt, hnext, ?_⟩
    by_cases heq : ptr' = ptr
    · subst heq
      exact ⟨(f o).1, MemoryPool.deref_write_self .., by rw [hf, hid, h.inj hfind hi]⟩
    · exact ⟨o', by rw [MemoryPool.deref_write_of_ne _ heq, hderef'], hid'⟩

end UpdateOrder

/-- A transition keeps the client order id. -/
lemma clientOrderId_transition (newStatus : OrderStatus) (o : Order) :
    (OrderStateMachine.transition o newStatus).1.clientOrderId = o.clientOrderId := by
  rw [OrderStateMachine.transition_fst]

lemma clientOrderId_ackOrder (ack : OrderAck) (o : Order) :
    (ackOrder ack o).1.clientOrderId = o.clientOrderId := by
  rw [ackOrder, clientOrderId_transition]

lemma clientOrderId_applyFill (fillQty : ℤ) (o : Order) :
    (OrderStateMachine.applyFill o fillQty).1.clientOrderId = o.clientOrderId := by
  rw [OrderStateMachine.applyFill_eq]
  split <;> rfl

theorem StoreInv.onAck {s : OMS} (h : s.StoreInv) (ack : OrderAck) : (s.onAck ack).1.StoreInv :=
  h.updateOrder (clientOrderId_ackOrder ack)

theorem StoreInv.onCancelAck {s : OMS} (h : s.StoreInv) (id : ℕ) : (s.onCancelAck id).1.StoreInv :=
  h.updateOrder (clientOrderId_transition .cancelled)

theorem StoreInv.markPendingCancel {s : OMS} (h : s.StoreInv) (id : ℕ) :
    (s.markPendingCancel id).1.StoreInv :=
  h.updateOrder (clientOrderId_transition .pendingCancel)

/-! ## Fills -/

/-- A fill only depends on the store through the order it names, and it only touches the tracker in
addition to that order. -/
lemma onFill_eq (s : OMS) (fill : FillEvent) :
    s.onFill fill =
      ({ (s.updateOrder fill.clientOrderId (OrderStateMachine.applyFill · fill.fillQty)).1 with
          fillTracker := if (s.onFill fill).2 then s.fillTracker.onFill fill else s.fillTracker },
        (s.updateOrder fill.clientOrderId (OrderStateMachine.applyFill · fill.fillQty)).2) := by
  have htracker : (s.updateOrder fill.clientOrderId
      (OrderStateMachine.applyFill · fill.fillQty)).1.fillTracker = s.fillTracker :=
    fillTracker_updateOrder
  unfold onFill
  rcases hr : s.updateOrder fill.clientOrderId (OrderStateMachine.applyFill · fill.fillQty) with
    ⟨s', ok⟩
  rw [hr] at htracker
  cases ok <;> simp [← htracker]

/-- A fill is accepted when the order it names accepts it. -/
lemma onFill_snd (s : OMS) (fill : FillEvent) :
    (s.onFill fill).2 = ((s.orderAt fill.clientOrderId).map fun o =>
      (OrderStateMachine.applyFill o fill.fillQty).2).getD false := by
  rw [onFill_eq]
  exact updateOrder_snd

lemma fillTracker_onFill (s : OMS) (fill : FillEvent) :
    (s.onFill fill).1.fillTracker =
      if (s.onFill fill).2 then s.fillTracker.onFill fill else s.fillTracker :=
  congrArg (fun r => r.1.fillTracker) (onFill_eq s fill)

@[simp] lemma activeOrders_onFill (s : OMS) (fill : FillEvent) :
    (s.onFill fill).1.activeOrders = s.activeOrders := by
  rw [onFill_eq]
  exact activeOrders_updateOrder

@[simp] lemma find_onFill (s : OMS) (fill : FillEvent) (i : ℕ) :
    (s.onFill fill).1.find i = s.find i := by
  rw [onFill_eq]
  exact find_updateOrder i

@[simp] lemma nextOrderId_onFill (s : OMS) (fill : FillEvent) :
    (s.onFill fill).1.nextOrderId = s.nextOrderId := by
  rw [onFill_eq]
  exact nextOrderId_updateOrder

theorem orderAt_onFill {s : OMS} (h : s.StoreInv) (fill : FillEvent) (i : ℕ) :
    (s.onFill fill).1.orderAt i =
      if i = fill.clientOrderId then
        (s.orderAt fill.clientOrderId).map fun o => (OrderStateMachine.applyFill o fill.fillQty).1
      else s.orderAt i := by
  rw [onFill_eq]
  exact orderAt_updateOrder h i

theorem StoreInv.onFill {s : OMS} (h : s.StoreInv) (fill : FillEvent) :
    (s.onFill fill).1.StoreInv := by
  have hs : (s.updateOrder fill.clientOrderId
      (OrderStateMachine.applyFill · fill.fillQty)).1.StoreInv :=
    h.updateOrder (clientOrderId_applyFill fill.fillQty)
  rw [onFill_eq]
  exact ⟨hs.sound, hs.count, hs.entry, hs.inj⟩

/-! ## Submitting and releasing -/

/-- A submit has nothing to do with the tracker. -/
@[simp] lemma fillTracker_submit (s : OMS) (req : OrderRequest) (now : ℕ) :
    (s.submit req now).1.fillTracker = s.fillTracker := by
  unfold submit
  split <;> rfl

/-- A submit that finds the pool exhausted returns `nullptr` and changes nothing. -/
theorem submit_of_full {s : OMS} (h : s.StoreInv) (hfull : s.activeOrders = poolSize)
    (req : OrderRequest) (now : ℕ) : s.submit req now = (s, none) := by
  have havail : s.pool.available = 0 := by have := h.count; omega
  have hacq := (MemoryPool.acquire_eq_none_iff h.sound Order.leading).mpr havail
  unfold submit
  split
  · rfl
  · rename_i raw pool heq
    rw [heq] at hacq
    simp at hacq

/-- What a submit that finds a slot does: the new order is entered under the next id, and nothing
else changes. -/
structure Submitted (s : OMS) (req : OrderRequest) (now : ℕ) (s' : OMS) (ptr : ℕ) : Prop where
  storeInv : s'.StoreInv
  find : ∀ i, s'.find i = if i = s.nextOrderId then some ptr else s.find i
  orderAt : ∀ i, s'.orderAt i = if i = s.nextOrderId then some (s.newOrder req now) else s.orderAt i
  deref : s'.pool.deref ptr = some (s.newOrder req now)
  nextOrderId : s'.nextOrderId = s.nextOrderId + 1
  activeOrders : s'.activeOrders = s.activeOrders + 1
  fillTracker : s'.fillTracker = s.fillTracker

/-- The order `o` was written into a free slot, and the slot was entered in the map under the next
id. -/
private structure Entered (s : OMS) (o : Order) (s' : OMS) (ptr : ℕ) : Prop where
  ptr_lt : ptr < poolSize
  fresh : ∀ id, s.find id ≠ some ptr
  find : ∀ id, s'.find id = if id = s.nextOrderId then some ptr else s.find id
  deref : ∀ ptr', s'.pool.deref ptr' = if ptr' = ptr then some o else s.pool.deref ptr'
  sound : s'.pool.Sound poolSize fun ptr' => (∃ id, s.find id = some ptr') ∨ ptr' = ptr
  available : s'.pool.available + 1 = s.pool.available
  nextOrderId : s'.nextOrderId = s.nextOrderId + 1
  activeOrders : s'.activeOrders = s.activeOrders + 1
  fillTracker : s'.fillTracker = s.fillTracker

/-- The next id is not in the map. -/
lemma StoreInv.find_nextOrderId {s : OMS} (h : s.StoreInv) :
    s.find s.nextOrderId = none := by
  cases hfind : s.find s.nextOrderId with
  | none => rfl
  | some ptr => exact absurd (h.entry hfind).2.1 (lt_irrefl _)

private lemma entered_submit {s : OMS} (h : s.StoreInv) (hroom : s.activeOrders < poolSize)
    (req : OrderRequest) (now : ℕ) :
    ∃ ptr, (s.submit req now).2 = some ptr ∧
      Entered s (s.newOrder req now) (s.submit req now).1 ptr := by
  have havail : s.pool.available ≠ 0 := by
    have := h.count
    omega
  rcases hacq : s.pool.acquire Order.leading with ⟨_ | raw, pool⟩
  · exact absurd ((MemoryPool.acquire_eq_none_iff h.sound _).mp (congrArg Prod.fst hacq)) havail
  obtain ⟨hlt, hfree, hsound, hstorage, havail'⟩ :=
    MemoryPool.sound_acquire h.sound (congrArg Prod.fst hacq)
  rw [hacq] at hsound hstorage havail'
  -- the next id is not in the map, so `emplace` inserts it
  have hnew : s.nextOrderId ∉ s.orders := AList.lookup_eq_none.mp h.find_nextOrderId
  have hsub : s.submit req now = ({ s with
      pool := pool.write raw (s.newOrder req now)
      orders := s.orders.insert s.nextOrderId raw
      nextOrderId := s.nextOrderId + 1 }, some raw) := by
    simp [submit, hacq, hnew]
  rw [hsub]
  refine ⟨raw, rfl, hlt, fun id hid => hfree ⟨id, hid⟩, ?_, ?_, ?_, havail', rfl, ?_, rfl⟩
  · intro id
    change (s.orders.insert s.nextOrderId raw).lookup id = _
    split_ifs with hid
    · rw [hid, AList.lookup_insert]
    · rw [AList.lookup_insert_ne hid, OMS.find]
  · intro ptr'
    dsimp only
    split_ifs with hptr
    · rw [hptr, MemoryPool.deref_write_self]
    · rw [MemoryPool.deref_write_of_ne _ hptr, MemoryPool.deref, hstorage, MemoryPool.deref]
  · exact MemoryPool.sound_write hsound (Or.inr rfl) _
  · simp only [activeOrders]
    rw [AList.keys_insert, List.length_cons, List.erase_of_not_mem hnew]

/-- A new entry keeps map, pool and id counter consistent. -/
private lemma Entered.storeInv {s s' : OMS} {o : Order} {ptr : ℕ} (he : Entered s o s' ptr)
    (h : s.StoreInv) (hid : o.clientOrderId = s.nextOrderId) : s'.StoreInv := by
  constructor
  · apply he.sound.congr
    intro ptr'
    constructor
    · rintro (⟨id, hfind⟩ | rfl)
      · refine ⟨id, ?_⟩
        rw [he.find, if_neg, hfind]
        rintro rfl
        rw [h.find_nextOrderId] at hfind
        cases hfind
      · exact ⟨s.nextOrderId, by rw [he.find, if_pos rfl]⟩
    · rintro ⟨id, hfind⟩
      rw [he.find] at hfind
      split_ifs at hfind
      · exact Or.inr (Option.some.inj hfind).symm
      · exact Or.inl ⟨id, hfind⟩
  · have hcount := h.count
    have hactive := he.activeOrders
    have havail := he.available
    omega
  · intro id ptr' hfind
    rw [he.find] at hfind
    rw [he.nextOrderId, he.deref]
    split_ifs at hfind with heq
    · obtain rfl := Option.some.inj hfind
      exact ⟨he.ptr_lt, heq ▸ Nat.lt_succ_self _, o, if_pos rfl, hid.trans heq.symm⟩
    · obtain ⟨hptr, hnext, o', ho', hid'⟩ := h.entry hfind
      have hne : ptr' ≠ ptr := by
        rintro rfl
        exact he.fresh id hfind
      exact ⟨hptr, Nat.lt_succ_of_lt hnext, o', (if_neg hne).trans ho', hid'⟩
  · intro id id' ptr' hfind hfind'
    rw [he.find] at hfind hfind'
    split_ifs at hfind hfind' with h1 h2 h2
    · rw [h1, h2]
    · exact absurd (hfind'.trans hfind.symm) (Option.some.inj hfind ▸ he.fresh id')
    · exact absurd (hfind.trans hfind'.symm) (Option.some.inj hfind' ▸ he.fresh id)
    · exact h.inj hfind hfind'

/-- A new entry is the only one that changes in the table. -/
private lemma Entered.orderAt {s s' : OMS} {o : Order} {ptr : ℕ} (he : Entered s o s' ptr)
    (id : ℕ) : s'.orderAt id = if id = s.nextOrderId then some o else s.orderAt id := by
  rw [OMS.orderAt, he.find]
  split_ifs with hid
  · rw [Option.bind_some, he.deref, if_pos rfl]
  · cases hfind : s.find id with
    | none => simp [OMS.orderAt, hfind]
    | some ptr' =>
      have hne : ptr' ≠ ptr := by
        rintro rfl
        exact he.fresh id hfind
      simp [OMS.orderAt, hfind, he.deref, hne]

/-- A submit succeeds as long as fewer orders are registered than the pool has slots. -/
theorem submit_of_room {s : OMS} (h : s.StoreInv) (hroom : s.activeOrders < poolSize)
    (req : OrderRequest) (now : ℕ) :
    ∃ ptr, (s.submit req now).2 = some ptr ∧ s.Submitted req now (s.submit req now).1 ptr := by
  obtain ⟨ptr, hptr, he⟩ := entered_submit h hroom req now
  exact ⟨ptr, hptr, he.storeInv h rfl, he.find, he.orderAt, by rw [he.deref, if_pos rfl],
    he.nextOrderId, he.activeOrders, he.fillTracker⟩

/-- A release of an id that is not in the map changes nothing. -/
lemma release_of_none {s : OMS} {id : ℕ} (h : s.find id = none) : s.release id = s := by
  simp [release, h]

lemma release_of_some {s : OMS} {id ptr : ℕ} (h : s.find id = some ptr) :
    s.release id = { s with orders := s.orders.erase id, pool := s.pool.release ptr } := by
  simp [release, h]

/-- A release removes the entry of its id and nothing else. -/
theorem find_release (s : OMS) (id i : ℕ) :
    (s.release id).find i = if i = id then none else s.find i := by
  cases hfind : s.find id with
  | none =>
    rw [release_of_none hfind]
    split_ifs with hi
    · rw [hi, hfind]
    · rfl
  | some ptr =>
    have hrel : (s.release id).find i = (s.orders.erase id).lookup i := by
      rw [release_of_some hfind, find]
    rw [hrel]
    split_ifs with hi
    · rw [hi, AList.lookup_erase]
    · rw [AList.lookup_erase_ne hi, find]

theorem orderAt_release {s : OMS} (h : s.StoreInv) (id i : ℕ) :
    (s.release id).orderAt i = if i = id then none else s.orderAt i := by
  rw [orderAt, find_release]
  split_ifs with hi
  · rfl
  · cases hfind : s.find id with
    | none => rw [release_of_none hfind, orderAt]
    | some ptr =>
      cases hi' : s.find i with
      | none => simp [orderAt, hi']
      | some ptr' =>
        have hne : ptr' ≠ ptr := fun heq => hi (h.inj hi' (heq ▸ hfind))
        rw [release_of_some hfind, orderAt, hi', Option.bind_some, Option.bind_some,
          MemoryPool.deref_release_of_ne _ hne]

@[simp] lemma nextOrderId_release (s : OMS) (id : ℕ) :
    (s.release id).nextOrderId = s.nextOrderId := by
  unfold release
  split <;> rfl

/-- A release frees at most an order. -/
lemma activeOrders_release_le (s : OMS) (id : ℕ) :
    (s.release id).activeOrders ≤ s.activeOrders := by
  unfold release
  split
  · exact Nat.le_refl _
  · simp only [activeOrders, AList.keys_erase]
    exact List.length_erase_le

@[simp] lemma fillTracker_release (s : OMS) (id : ℕ) :
    (s.release id).fillTracker = s.fillTracker := by
  unfold release
  split <;> rfl

theorem StoreInv.release {s : OMS} (h : s.StoreInv) (id : ℕ) : (s.release id).StoreInv := by
  cases hfind : s.find id with
  | none =>
    rw [release_of_none hfind]
    exact h
  | some ptr =>
    obtain ⟨hlt, -, -⟩ := h.entry hfind
    have hpool : (s.release id).pool = s.pool.release ptr := by rw [release_of_some hfind]
    have hmem : id ∈ s.orders := AList.lookup_isSome.mp (by rw [← find, hfind]; rfl)
    constructor
    · rw [hpool]
      apply (MemoryPool.sound_release h.sound ⟨id, hfind⟩ hlt).congr
      intro ptr'
      simp only [find_release]
      constructor
      · rintro ⟨⟨i, hi⟩, hne⟩
        refine ⟨i, ?_⟩
        rw [if_neg, hi]
        rintro rfl
        exact hne (Option.some.inj (hi.symm.trans hfind))
      · rintro ⟨i, hi⟩
        split_ifs at hi with hii
        refine ⟨⟨i, hi⟩, ?_⟩
        rintro rfl
        exact hii (h.inj hi hfind)
    · have hcount := h.count
      have hkeys : (s.release id).activeOrders + 1 = s.activeOrders := by
        have hpos : 0 < s.orders.keys.length := List.length_pos_of_mem (AList.mem_keys.mp hmem)
        rw [release_of_some hfind, activeOrders, activeOrders, AList.keys_erase,
          List.length_erase_of_mem (AList.mem_keys.mp hmem)]
        omega
      rw [hpool, MemoryPool.available_release]
      omega
    · intro i ptr' hi
      rw [find_release] at hi
      split_ifs at hi with hii
      obtain ⟨hptr, hnext, o, ho, hid⟩ := h.entry hi
      have hne : ptr' ≠ ptr := fun heq => hii (h.inj hi (heq ▸ hfind))
      exact ⟨hptr, by rwa [nextOrderId_release], o,
        by rw [hpool, MemoryPool.deref_release_of_ne _ hne, ho], hid⟩
    · intro i i' ptr' hi hi'
      rw [find_release] at hi hi'
      split_ifs at hi hi'
      exact h.inj hi hi'

end OMS

end QuantTrade

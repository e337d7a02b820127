import QuantTrade.Oms.Lifecycle

/-!
# The integrity of the order store

The map from ids to slots, the free list that runs through the slots, and the orders in them are
three views of one store.  `Integrity` says how they fit together, what a submit enters and what a
call can touch; it holds in every state of every run (`store_integrity`).  The orders behind the
pointers that the submits of a run return are collected by `issued`.
-/

namespace QuantTrade

namespace OMS

/-- The id a call acts on; a submit acts on the next one. -/
def Call.target (s : OMS) : Call → ℕ
  | .submit _ _ => s.nextOrderId
  | .onAck ack => ack.clientOrderId
  | .onFill fill => fill.clientOrderId
  | .onCancelAck id => id
  | .markPendingCancel id => id
  | .release id => id

/-- What is behind the pointer that a submit returns, if it returns one: the id of an order. -/
def Call.entered (s : OMS) : Call → List (Option ℕ)
  | .submit req now =>
    (s.submit req now).2.toList.map fun ptr =>
      ((s.submit req now).1.pool.deref ptr).map Order.clientOrderId
  | _ => []

/-- What is behind the pointers that the submits of a run return, in order. -/
def issued (s : OMS) : List Call → List (Option ℕ)
  | [] => []
  | c :: calls => c.entered s ++ (s.perform c).issued calls

/-- A submit that returns `ptr` has entered the order of its request under the next id, in a slot
that no order had. -/
structure Enters (s : OMS) (req : OrderRequest) (now ptr : ℕ) : Prop where
  fresh : s.find s.nextOrderId = none
  vacant : ∀ id, s.find id ≠ some ptr
  find : (s.submit req now).1.find s.nextOrderId = some ptr
  order : (s.submit req now).1.pool.deref ptr = some
    { clientOrderId := s.nextOrderId
      exchangeOrderId := 0
      instrumentId := req.instrumentId
      side := req.side
      type := req.type
      status := .pendingNew
      price := req.price
      qty := req.qty
      filledQty := 0
      submitTsNs := now
      ackTsNs := 0 }
  nextOrderId : (s.submit req now).1.nextOrderId = s.nextOrderId + 1
  activeOrders : (s.submit req now).1.activeOrders = s.activeOrders + 1

/-- Map, free list and orders fit together, and a call touches the order of its id only. -/
structure Integrity (s : OMS) : Prop where
  /-- Every slot is either free or behind an entry of the map, and the counters say how many. -/
  count : s.activeOrders + s.pool.available = 65536
  free : ∃ free, MemoryPool.FreeList s.pool.storage s.pool.freeHead free ∧ free.Nodup ∧
    free.length = s.pool.available ∧
    ∀ slot, slot ∈ free ↔ slot < 65536 ∧ ¬∃ id, s.find id = some slot
  distinct : ∀ id id' slot, s.find id = some slot → s.find id' = some slot → id = id'
  find : ∀ id slot, s.find id = some slot →
    slot < 65536 ∧ ∃ o, s.pool.deref slot = some o ∧ o.clientOrderId = id
  submit_eq_none_iff : ∀ req now, (s.submit req now).2 = none ↔ s.activeOrders = 65536
  submit_of_none : ∀ req now, (s.submit req now).2 = none → (s.submit req now).1 = s
  submit_of_some : ∀ req now ptr, (s.submit req now).2 = some ptr → s.Enters req now ptr
  release : ∀ id, (s.release id).find id = none
  frame : ∀ c : Call, ∀ id, id ≠ c.target s →
    (s.perform c).find id = s.find id ∧ (s.perform c).orderAt id = s.orderAt id
  unknown : ∀ c : Call, (∀ req now, c ≠ .submit req now) → s.find (c.target s) = none →
    s.perform c = s

/-! ## What a call leaves alone -/

section Frame

variable {s : OMS} {c : Call} {id : ℕ}

/-- A call that runs an operation on an order leaves the map alone. -/
lemma find_perform_of_op {p : ℕ × (Order → Order × Bool)} (hop : c.op = some p) :
    (s.perform c).find id = s.find id := by
  cases c with
  | submit _ _ => simp [Call.op] at hop
  | release _ => simp [Call.op] at hop
  | onFill fill => exact find_onFill s fill id
  | onAck _ => exact find_updateOrder id
  | onCancelAck _ => exact find_updateOrder id
  | markPendingCancel _ => exact find_updateOrder id

lemma target_of_op {i : ℕ} {f : Order → Order × Bool} (hop : c.op = some (i, f)) :
    c.target s = i := by
  cases c with
  | submit _ _ => simp [Call.op] at hop
  | release _ => simp [Call.op] at hop
  | onFill _ => exact congrArg Prod.fst (Option.some.inj hop)
  | onAck _ => exact congrArg Prod.fst (Option.some.inj hop)
  | onCancelAck _ => exact congrArg Prod.fst (Option.some.inj hop)
  | markPendingCancel _ => exact congrArg Prod.fst (Option.some.inj hop)

/-- A call leaves every entry and every order alone but those of its id. -/
lemma frame_perform (h : s.StoreInv) (hid : id ≠ c.target s) :
    (s.perform c).find id = s.find id ∧ (s.perform c).orderAt id = s.orderAt id := by
  cases hop : c.op with
  | some p =>
    obtain ⟨i, f⟩ := p
    rw [target_of_op hop] at hid
    exact ⟨find_perform_of_op hop, by rw [orderAt_perform_of_op h hop, if_neg hid]⟩
  | none =>
    rcases eq_of_op_eq_none hop with ⟨req, now, rfl⟩ | ⟨i, rfl⟩
    · rcases perform_submit h req now with hsame | ⟨ptr, hsub⟩
      · rw [hsame]
        exact ⟨rfl, rfl⟩
      · exact ⟨(hsub.find id).trans (if_neg hid), (hsub.orderAt id).trans (if_neg hid)⟩
    · exact ⟨(find_release s i id).trans (if_neg hid), (orderAt_release h i id).trans (if_neg hid)⟩

/-- A call for an id that is not in the map changes nothing. -/
lemma perform_of_unknown (hc : ∀ req now, c ≠ .submit req now)
    (hfind : s.find (c.target s) = none) : s.perform c = s := by
  have hnone : s.orderAt (c.target s) = none := by rw [orderAt, hfind, Option.bind_none]
  cases c with
  | submit req now => exact absurd rfl (hc req now)
  | release _ => exact release_of_none hfind
  | onFill fill =>
    have hsame := updateOrder_of_none (f := (OrderStateMachine.applyFill · fill.fillQty)) hnone
    rw [OMS.perform, OMS.onFill]
    rw [Call.target] at hsame
    rw [hsame]
  | onAck ack => exact congrArg Prod.fst (updateOrder_of_none (f := ackOrder ack) hnone)
  | onCancelAck _ => exact congrArg Prod.fst (updateOrder_of_none hnone)
  | markPendingCancel _ => exact congrArg Prod.fst (updateOrder_of_none hnone)

end Frame

lemma StoreInv.submit_eq_none_iff {s : OMS} (h : s.StoreInv) (req : OrderRequest) (now : ℕ) :
    (s.submit req now).2 = none ↔ s.activeOrders = poolSize := by
  rcases h.activeOrders_le.lt_or_eq with hroom | hfull
  · obtain ⟨ptr, hptr, -⟩ := submit_of_room h hroom req now
    exact iff_of_false (by rw [hptr]; exact Option.some_ne_none ptr) hroom.ne
  · exact iff_of_true (by rw [submit_of_full h hfull]) hfull

/-- A submit that returns a pointer enters its order. -/
lemma StoreInv.enters {s : OMS} (h : s.StoreInv) {req : OrderRequest} {now ptr : ℕ}
    (hptr : (s.submit req now).2 = some ptr) : s.Enters req now ptr := by
  have hroom : s.activeOrders < poolSize := by
    refine lt_of_le_of_ne h.activeOrders_le fun hfull => ?_
    rw [submit_of_full h hfull] at hptr
    cases hptr
  obtain ⟨ptr', hptr', hsub⟩ := submit_of_room h hroom req now
  obtain rfl : ptr' = ptr := Option.some.inj (hptr'.symm.trans hptr)
  have hfind : (s.submit req now).1.find s.nextOrderId = some ptr' := by
    rw [hsub.find, if_pos rfl]
  refine ⟨h.find_nextOrderId, fun id hid => ?_, hfind, hsub.deref, hsub.nextOrderId,
    hsub.activeOrders⟩
  have hne : id ≠ s.nextOrderId := (h.entry hid).2.1.ne
  have hid' : (s.submit req now).1.find id = some ptr' := by
    rw [hsub.find, if_neg hne, hid]
  exact hne (hsub.storeInv.inj hid' hfind)

/-- The store invariant is all that integrity takes. -/
theorem StoreInv.integrity {s : OMS} (h : s.StoreInv) : s.Integrity where
  count := h.count
  free := h.sound
  distinct _ _ _ := h.inj
  find id slot hfind := by
    obtain ⟨hlt, -, ho⟩ := h.entry hfind
    exact ⟨hlt, ho⟩
  submit_eq_none_iff := h.submit_eq_none_iff
  submit_of_none req now hnone := by
    rw [submit_of_full h ((h.submit_eq_none_iff req now).mp hnone)]
  submit_of_some _ _ _ := h.enters
  release id := by rw [find_release, if_pos rfl]
  frame _ _ := frame_perform h
  unknown _ := perform_of_unknown

/-! ## The ids of a run -/

/-- An order in the table after a call that is not a submit was there before. -/
lemma exists_orderAt_of_perform {s : OMS} (h : s.StoreInv) {c : Call}
    (hc : ∀ req now, c ≠ .submit req now) {id : ℕ} {o : Order}
    (ho : (s.perform c).orderAt id = some o) : ∃ o', s.orderAt id = some o' := by
  rcases orderAt_perform h ho with hold | ⟨req, now, rfl, -, -⟩ | ⟨o', f, hold, -, -⟩
  · exact ⟨o, hold⟩
  · exact absurd rfl (hc req now)
  · exact ⟨o', hold⟩

/-- A call enters no order, or it is a submit and enters one under the next id. -/
lemma entered_cases {s : OMS} (h : s.StoreInv) (c : Call) :
    (c.entered s = [] ∧
      ∀ id o, (s.perform c).orderAt id = some o → ∃ o', s.orderAt id = some o') ∨
    (c.entered s = [some s.nextOrderId] ∧ (s.perform c).nextOrderId = s.nextOrderId + 1 ∧
      ∀ id o, (s.perform c).orderAt id = some o →
        (∃ o', s.orderAt id = some o') ∨ id = s.nextOrderId) := by
  cases c with
  | submit req now =>
    rcases h.activeOrders_le.lt_or_eq with hroom | hfull
    · obtain ⟨ptr, hptr, hsub⟩ := submit_of_room h hroom req now
      refine Or.inr ⟨?_, hsub.nextOrderId, fun id o ho => ?_⟩
      · rw [Call.entered, hptr, Option.toList_some, List.map_singleton, hsub.deref]
        rfl
      · by_cases hid : id = s.nextOrderId
        · exact Or.inr hid
        · rw [OMS.perform, hsub.orderAt, if_neg hid] at ho
          exact Or.inl ⟨o, ho⟩
    · refine Or.inl ⟨?_, fun id o ho => ?_⟩
      · rw [Call.entered, submit_of_full h hfull]
        rfl
      · rw [OMS.perform, submit_of_full h hfull] at ho
        exact ⟨o, ho⟩
  | _ => exact Or.inl ⟨rfl, fun id o => exists_orderAt_of_perform h (by simp)⟩

/-- The pointers that the submits of a run from `s` return lead to orders whose ids start at the
next one and increase; every order in the table was there at the start or is one of these. -/
lemma issued_spec {s : OMS} (h : s.StoreInv) (calls : List Call) :
    ∃ ids : List ℕ, s.issued calls = ids.map some ∧ (∀ id ∈ ids, s.nextOrderId ≤ id) ∧
      ids.Pairwise (· < ·) ∧
      ∀ id o, (Transition.run perform s calls).orderAt id = some o →
        (∃ o', s.orderAt id = some o') ∨ id ∈ ids := by
  induction calls generalizing s with
  | nil => exact ⟨[], rfl, by simp, List.Pairwise.nil, fun id o ho => Or.inl ⟨o, ho⟩⟩
  | cons c calls ih =>
    obtain ⟨ids, hissued, hge, hsorted, hlive⟩ := ih (h.perform c)
    have hle := nextOrderId_le_perform h c
    rcases entered_cases h c with ⟨hentered, hold⟩ | ⟨hentered, hnext, hold⟩
    · refine ⟨ids, by rw [issued, hentered, hissued]; rfl, fun id hid => hle.trans (hge id hid),
        hsorted, fun id o ho => ?_⟩
      rcases hlive id o ho with ⟨o', ho'⟩ | hmem
      · exact Or.inl (hold id o' ho')
      · exact Or.inr hmem
    · rw [hnext] at hge
      refine ⟨s.nextOrderId :: ids, by rw [issued, hentered, hissued]; rfl, ?_,
        List.pairwise_cons.mpr ⟨fun id hid => hge id hid, hsorted⟩, fun id o ho => ?_⟩
      · intro id hid
        rcases List.mem_cons.mp hid with rfl | hid
        · exact le_rfl
        · exact (Nat.le_succ _).trans (hge id hid)
      · rcases hlive id o ho with ⟨o', ho'⟩ | hmem
        · rcases hold id o' ho' with hold' | rfl
          · exact Or.inl hold'
          · exact Or.inr List.mem_cons_self
        · exact Or.inr (List.mem_cons_of_mem _ hmem)

/-- **Store integrity.**  In every state of every run the map, the free list and the orders fit
together, a submit that returns a pointer enters its order, and a call touches the order of its id
only; behind every pointer that the submits of the run return there is an order, the ids of these
increase strictly along the run, so none is used twice, and every id in the map is one of them. -/
theorem store_integrity (calls : List Call) :
    (after calls).Integrity ∧
      ∃ ids : List ℕ, init.issued calls = ids.map some ∧ ids.Pairwise (· < ·) ∧
        ∀ id slot, (after calls).find id = some slot → id ∈ ids := by
  obtain ⟨ids, hissued, -, hsorted, hlive⟩ := issued_spec storeInv_init calls
  refine ⟨(storeInv_after calls).integrity, ids, hissued, hsorted, fun id slot hfind => ?_⟩
  obtain ⟨o, ho, -, -⟩ := (storeInv_after calls).orderAt_of_find hfind
  rcases hlive id o ho with ⟨o', ho'⟩ | hmem
  · rw [orderAt_init] at ho'
    cases ho'
  · exact hmem

end OMS

end QuantTrade

import QuantTrade.Main.Journal

/-!
# The ids on their way to the gateway thread

An order id goes from the OMS thread through a queue to the gateway thread, which reports the fill
under it and releases the order.  On this way the ids are distinct, and the order behind each of
them is in the table in the status that the next call expects (`IdsInv`).  This holds in every run,
also when queues overflow or the order pool is exhausted.
-/

namespace QuantTrade

namespace Pipeline

variable {s s' : Pipeline} {a : Action}

/-- The id the gateway thread has fetched, before its fill is reported. -/
def gwAwaited (s : Pipeline) : List (ℕ × OrderStatus) :=
  match s.gwThread with
  | .hasCloid cloid => [(cloid, .new)]
  | .hasFill _ cloid => [(cloid, .new)]
  | _ => []

/-- The id the gateway thread has still to release. -/
def gwDone (s : Pipeline) : List ℕ :=
  match s.gwThread with
  | .filled _ cloid => [cloid]
  | _ => []

/-- The order the OMS thread works on. -/
def omsOrder (s : Pipeline) : Option ℕ :=
  match s.omsThread with
  | .submitted _ order => order
  | .executed order => some order
  | .acked order => some order
  | _ => none

/-- The id of the order the OMS thread works on, acknowledged or not yet. -/
def omsAwaited (s : Pipeline) : List (ℕ × OrderStatus) :=
  match s.omsThread with
  | .submitted _ (some order) => [(s.oms.idOf order, .pendingNew)]
  | .executed order => [(s.oms.idOf order, .pendingNew)]
  | .acked order => [(s.oms.idOf order, .new)]
  | _ => []

/-- The ids that wait for their fill, oldest first, with the status of their orders. -/
def awaited (s : Pipeline) : List (ℕ × OrderStatus) :=
  s.gwAwaited ++ s.omsToGwCloid.contents.map (·, .new) ++ s.omsAwaited

/-- The order with this id is in the table in this status. -/
def Awaits (oms : OMS) (p : ℕ × OrderStatus) : Prop :=
  ∃ o, oms.orderAt p.1 = some o ∧ o.status = p.2

/-- The ids on their way are distinct and their orders are there. -/
structure IdsInv (s : Pipeline) : Prop where
  store : s.oms.StoreInv
  awaits : ∀ p ∈ s.awaited, Awaits s.oms p
  nodup : (s.gwDone ++ s.awaited.map Prod.fst).Nodup
  done_lt : ∀ c ∈ s.gwDone, c < s.oms.nextOrderId
  held : ∀ order ∈ s.omsOrder, s.oms.find (s.oms.idOf order) = some order
  addressed : ∀ fill cloid, s.gwThread = .hasFill fill cloid → fill.clientOrderId = cloid

lemma idsInv_init (cfg : Config) (nowNs : ℤ) : (init cfg nowNs).IdsInv where
  store := OMS.storeInv_init
  awaits := by simp [init, awaited, gwAwaited, omsAwaited]
  nodup := by simp [init, awaited, gwAwaited, omsAwaited, gwDone]
  done_lt := by simp [init, gwDone]
  held := by simp [init, omsOrder]
  addressed := by simp [init]

/-- The pointer of an entry leads to the id of the entry. -/
lemma idOf_of_find {oms : OMS} (h : oms.StoreInv) {id order : ℕ}
    (hfind : oms.find id = some order) : oms.idOf order = id := by
  obtain ⟨-, -, o, hderef, hid⟩ := h.entry hfind
  simp only [OMS.idOf, hderef, hid]

lemma Awaits.lt_nextOrderId {oms : OMS} (h : oms.StoreInv) {p : ℕ × OrderStatus}
    (hp : Awaits oms p) : p.1 < oms.nextOrderId := by
  obtain ⟨o, ho, -⟩ := hp
  exact h.lt_nextOrderId ho

/-! ## Every call keeps the ids in order -/

/-- A call that leaves the OMS alone and at most drops an id. -/
private lemma IdsInv.of_sublist (h : s.IdsInv) (homs : s'.oms = s.oms)
    (hawaited : s'.awaited.Sublist s.awaited) (hdone : s'.gwDone = s.gwDone)
    (horder : ∀ order ∈ s'.omsOrder, order ∈ s.omsOrder)
    (haddr : ∀ fill cloid, s'.gwThread = .hasFill fill cloid → fill.clientOrderId = cloid) :
    s'.IdsInv where
  store := homs ▸ h.store
  awaits p hp := by
    rw [homs]
    exact h.awaits p (hawaited.subset hp)
  nodup := by
    rw [hdone]
    exact h.nodup.sublist ((List.Sublist.refl _).append (hawaited.map _))
  done_lt := by
    rw [hdone, homs]
    exact h.done_lt
  held order ho := by
    rw [homs]
    exact h.held order (horder order ho)
  addressed := haddr

/-- A call that changes the order of one id and nothing else about the store. -/
private lemma Awaits.of_ne {oms oms' : OMS} {p : ℕ × OrderStatus} (hp : Awaits oms p)
    (horder : oms'.orderAt p.1 = oms.orderAt p.1) : Awaits oms' p := by
  obtain ⟨o, ho, hs⟩ := hp
  exact ⟨o, horder.trans ho, hs⟩

/-- A submit that succeeds appends the new id. -/
private lemma IdsInv.submit (h : s.IdsInv) {req : OrderRequest} {now : ℕ}
    (homs : s.omsThread = .checked req) :
    IdsInv { s with
      oms := (s.oms.submit req now).1
      omsThread := .submitted req (s.oms.submit req now).2 } := by
  have hnone : s.omsAwaited = [] := by simp [omsAwaited, homs]
  rcases h.store.activeOrders_le.lt_or_eq with hroom | hfull
  · obtain ⟨order, hsome, hsub⟩ := OMS.submit_of_room h.store hroom req now
    have hfind : (s.oms.submit req now).1.find s.oms.nextOrderId = some order := by
      rw [hsub.find, if_pos rfl]
    have hid := idOf_of_find hsub.storeInv hfind
    have hold : s.awaited = s.gwAwaited ++ s.omsToGwCloid.contents.map (·, .new) := by
      rw [awaited, hnone, List.append_nil]
    have hnew : awaited { s with
        oms := (s.oms.submit req now).1
        omsThread := .submitted req (s.oms.submit req now).2 } =
        s.awaited ++ [(s.oms.nextOrderId, .pendingNew)] := by
      rw [hold]
      simp only [awaited, omsAwaited, hsome, hid]
      rfl
    have hlt : ∀ p ∈ s.awaited, p.1 < s.oms.nextOrderId :=
      fun p hp => (h.awaits p hp).lt_nextOrderId h.store
    refine ⟨hsub.storeInv, ?_, ?_, ?_, ?_, h.addressed⟩
    · intro p hp
      rw [hnew] at hp
      rcases List.mem_append.mp hp with hp | hp
      · refine (h.awaits p hp).of_ne ?_
        rw [hsub.orderAt, if_neg (hlt p hp).ne]
      · rw [List.mem_singleton.mp hp]
        exact ⟨s.oms.newOrder req now, by rw [hsub.orderAt, if_pos rfl], rfl⟩
    · rw [hnew, List.map_append, ← List.append_assoc]
      refine h.nodup.append (List.nodup_singleton _) ?_
      intro c hc heq
      rw [List.map_singleton, List.mem_singleton] at heq
      rcases List.mem_append.mp hc with hc | hc
      · exact (h.done_lt c hc).ne heq
      · obtain ⟨p, hp, rfl⟩ := List.mem_map.mp hc
        exact (hlt p hp).ne heq
    · intro c hc
      rw [hsub.nextOrderId]
      exact Nat.lt_succ_of_lt (h.done_lt c hc)
    · simp only [omsOrder, hsome, Option.mem_some_iff, forall_eq', hid, hfind]
  · rw [OMS.submit_of_full h.store hfull]
    refine h.of_sublist rfl ?_ rfl ?_ h.addressed
    · simp [awaited, omsAwaited, gwAwaited]
    · simp [omsOrder]

/-- The order the OMS thread works on is the last one on the way. -/
private lemma IdsInv.awaited_eq (h : s.IdsInv) {order : ℕ} {status : OrderStatus}
    (homs : s.omsAwaited = [(s.oms.idOf order, status)]) :
    s.awaited = s.gwAwaited ++ s.omsToGwCloid.contents.map (·, .new) ++
      [(s.oms.idOf order, status)] ∧
    ∀ p ∈ s.gwAwaited ++ s.omsToGwCloid.contents.map (·, .new), p.1 ≠ s.oms.idOf order := by
  have hlist : s.awaited = s.gwAwaited ++ s.omsToGwCloid.contents.map (·, .new) ++
      [(s.oms.idOf order, status)] := by
    rw [awaited, homs]
  refine ⟨hlist, ?_⟩
  intro p hp heq
  have hnodup := h.nodup
  rw [hlist, List.map_append, ← List.append_assoc] at hnodup
  refine (List.nodup_append.mp hnodup).2.2 p.1 ?_ (s.oms.idOf order) (by simp) heq
  exact List.mem_append_right _ (List.mem_map_of_mem hp)

/-- An acknowledgement moves the order of the OMS thread on. -/
private lemma IdsInv.ack (h : s.IdsInv) {order : ℕ} (homs : s.omsThread = .executed order)
    {ack : OrderAck} (hid : ack.clientOrderId = s.oms.idOf order) (hstatus : ack.status = .new) :
    IdsInv { s with oms := (s.oms.onAck ack).1, omsThread := .acked order } := by
  have hheld : s.oms.find (s.oms.idOf order) = some order := h.held order (by simp [omsOrder, homs])
  have hfind : ∀ i, (s.oms.onAck ack).1.find i = s.oms.find i := OMS.find_updateOrder
  have hstore := h.store.onAck ack
  have hid' : (s.oms.onAck ack).1.idOf order = s.oms.idOf order :=
    idOf_of_find hstore ((hfind _).trans hheld)
  have homs' : s.omsAwaited = [(s.oms.idOf order, .pendingNew)] := by simp [omsAwaited, homs]
  obtain ⟨hlist, hother⟩ := h.awaited_eq homs'
  have hnew : awaited { s with oms := (s.oms.onAck ack).1, omsThread := .acked order } =
      s.gwAwaited ++ s.omsToGwCloid.contents.map (·, .new) ++ [(s.oms.idOf order, .new)] := by
    simp only [awaited, omsAwaited, hid']
    rfl
  have horder : ∀ i, (s.oms.onAck ack).1.orderAt i =
      if i = s.oms.idOf order then (s.oms.orderAt (s.oms.idOf order)).map fun o =>
        (OMS.ackOrder ack o).1 else s.oms.orderAt i := by
    intro i
    rw [← hid]
    exact OMS.orderAt_updateOrder h.store i
  have hnext : (s.oms.onAck ack).1.nextOrderId = s.oms.nextOrderId := OMS.nextOrderId_updateOrder
  refine ⟨hstore, ?_, ?_, fun c hc => (h.done_lt c hc).trans_eq hnext.symm, ?_, h.addressed⟩
  · intro p hp
    rw [hnew] at hp
    rcases List.mem_append.mp hp with hp | hp
    · refine (h.awaits p (hlist ▸ List.mem_append_left _ hp)).of_ne ?_
      rw [horder, if_neg (hother p hp)]
    · rw [List.mem_singleton.mp hp]
      obtain ⟨o, ho, hs⟩ := h.awaits (s.oms.idOf order, .pendingNew) (by rw [hlist]; simp)
      refine ⟨(OMS.ackOrder ack o).1, by rw [horder, if_pos rfl, ho, Option.map_some], ?_⟩
      dsimp only at hs
      simp [OMS.ackOrder, OrderStateMachine.transition_fst, hstatus, hs, OrderStateMachine.legal]
  · have hnodup := h.nodup
    rw [hlist, List.map_append] at hnodup
    rw [hnew, List.map_append]
    exact hnodup
  · simp only [omsOrder, Option.mem_some_iff, forall_eq', hid', hfind, hheld]

/-- A push appends the id to the queue, or loses it. -/
private lemma IdsInv.push (h : s.IdsInv) {order : ℕ} (homs : s.omsThread = .acked order) :
    IdsInv { s with
      omsToGwCloid := (s.omsToGwCloid.push (s.oms.idOf order)).1
      omsThread := .idle } := by
  refine h.of_sublist rfl ?_ rfl (by simp [omsOrder]) h.addressed
  simp only [awaited, omsAwaited, homs, List.append_nil, SPSCQueue.contents_push]
  by_cases hfull : s.omsToGwCloid.contents.length = 4096
  · rw [BoundedFifo.push_of_length_eq hfull]
    exact List.sublist_append_left _ _
  · rw [BoundedFifo.push_of_length_ne hfull, List.map_append, ← List.append_assoc]
    exact List.Sublist.refl _

/-- The id of the OMS thread is that of its order. -/
private lemma omsAwaited_congr (s s' : Pipeline) (hthread : s'.omsThread = s.omsThread)
    (hid : ∀ order ∈ s.omsOrder, s'.oms.idOf order = s.oms.idOf order) :
    s'.omsAwaited = s.omsAwaited := by
  cases homs : s.omsThread with
  | submitted req order =>
    cases order with
    | none => simp [omsAwaited, hthread, homs]
    | some order =>
      have := hid order (by simp [omsOrder, homs])
      simp [omsAwaited, hthread, homs, this]
  | executed order =>
    have := hid order (by simp [omsOrder, homs])
    simp [omsAwaited, hthread, homs, this]
  | acked order =>
    have := hid order (by simp [omsOrder, homs])
    simp [omsAwaited, hthread, homs, this]
  | _ => simp [omsAwaited, hthread, homs]

/-- The order of the OMS thread is on its way, behind the ids of the gateway thread. -/
private lemma idOf_mem_omsAwaited {order : ℕ} (ho : order ∈ s.omsOrder) :
    s.oms.idOf order ∈ s.omsAwaited.map Prod.fst := by
  cases homs : s.omsThread with
  | submitted req order' =>
    obtain rfl : order' = some order := by simpa [omsOrder, homs] using ho
    simp [omsAwaited, homs]
  | executed order' =>
    obtain rfl : order' = order := by simpa [omsOrder, homs] using ho
    simp [omsAwaited, homs]
  | acked order' =>
    obtain rfl : order' = order := by simpa [omsOrder, homs] using ho
    simp [omsAwaited, homs]
  | _ => simp [omsOrder, homs] at ho

private lemma IdsInv.idOf_ne (h : s.IdsInv) {order : ℕ} (ho : order ∈ s.omsOrder) {c : ℕ}
    (hc : c ∈ s.gwDone ++ s.gwAwaited.map Prod.fst) : s.oms.idOf order ≠ c := by
  have hnodup := h.nodup
  rw [awaited, List.map_append, List.map_append, ← List.append_assoc, ← List.append_assoc] at hnodup
  intro heq
  refine (List.nodup_append.mp hnodup).2.2 c ?_ (s.oms.idOf order) (idOf_mem_omsAwaited ho) heq.symm
  exact List.mem_append_left _ hc

/-- A fill changes the order it is reported for and no other. -/
private lemma IdsInv.onFill (h : s.IdsInv) {fill : FillEvent} {cloid : ℕ}
    (hgw : s.gwThread = .hasFill fill cloid) :
    IdsInv { s with oms := (s.oms.onFill fill).1, gwThread := .filled fill cloid } := by
  have haddr := h.addressed fill cloid hgw
  have hstore := h.store.onFill fill
  have hidOf : ∀ order ∈ s.omsOrder, (s.oms.onFill fill).1.idOf order = s.oms.idOf order :=
    fun order ho => idOf_of_find hstore ((OMS.find_onFill ..).trans (h.held order ho))
  -- the id moves from the front of the awaited ones to those to be released
  have hold : s.awaited = (cloid, .new) ::
      awaited { s with oms := (s.oms.onFill fill).1, gwThread := .filled fill cloid } := by
    have homs := omsAwaited_congr s { s with
      oms := (s.oms.onFill fill).1, gwThread := .filled fill cloid } rfl hidOf
    simp [awaited, gwAwaited, hgw, homs]
  have hnodup := h.nodup
  rw [hold] at hnodup
  simp only [gwDone, hgw, List.nil_append, List.map_cons, List.nodup_cons] at hnodup
  refine ⟨hstore, ?_, ?_, ?_, ?_, by simp⟩
  · intro p hp
    refine (h.awaits p (hold ▸ List.mem_cons_of_mem _ hp)).of_ne ?_
    rw [OMS.orderAt_onFill h.store, haddr, if_neg]
    rintro rfl
    exact hnodup.1 (List.mem_map_of_mem hp)
  · exact List.nodup_cons.mpr hnodup
  · intro c hc
    have hcloid : c = cloid := List.mem_singleton.mp hc
    rw [OMS.nextOrderId_onFill, hcloid]
    exact (h.awaits (cloid, .new) (by rw [hold]; simp)).lt_nextOrderId h.store
  · intro order ho
    rw [OMS.find_onFill, hidOf order ho]
    exact h.held order ho

/-- A release removes the id that was done and no other. -/
private lemma IdsInv.release (h : s.IdsInv) {fill : FillEvent} {cloid : ℕ}
    (hgw : s.gwThread = .filled fill cloid) :
    IdsInv { s with oms := s.oms.release cloid, gwThread := .idle } := by
  have hstore := h.store.release cloid
  have hnodup := h.nodup
  simp only [gwDone, hgw, List.singleton_append, List.nodup_cons] at hnodup
  have hne : ∀ c ∈ s.awaited.map Prod.fst, c ≠ cloid := by
    rintro c hc rfl
    exact hnodup.1 hc
  have hfind : ∀ order ∈ s.omsOrder,
      (s.oms.release cloid).find (s.oms.idOf order) = some order := by
    intro order ho
    rw [OMS.find_release, if_neg (h.idOf_ne ho (by simp [gwDone, hgw]))]
    exact h.held order ho
  have hidOf : ∀ order ∈ s.omsOrder, (s.oms.release cloid).idOf order = s.oms.idOf order :=
    fun order ho => idOf_of_find hstore (hfind order ho)
  have hsame : awaited { s with oms := s.oms.release cloid, gwThread := .idle } = s.awaited := by
    have homs := omsAwaited_congr s { s with
      oms := s.oms.release cloid, gwThread := .idle } rfl hidOf
    simp [awaited, gwAwaited, hgw, homs]
  refine ⟨hstore, ?_, ?_, by simp [gwDone], ?_, by simp⟩
  · rw [hsame]
    intro p hp
    refine (h.awaits p hp).of_ne ?_
    rw [OMS.orderAt_release h.store, if_neg (hne p.1 (List.mem_map_of_mem hp))]
  · rw [hsame]
    exact hnodup.2
  · intro order ho
    rw [hidOf order ho]
    exact hfind order ho

/-- A call that leaves the threads with an order and the queue of ids alone. -/
private lemma IdsInv.of_same (h : s.IdsInv) (homs : s'.oms = s.oms) (hgw : s'.gwThread = s.gwThread)
    (hthread : s'.omsThread = s.omsThread)
    (hcloids : s'.omsToGwCloid.contents = s.omsToGwCloid.contents) : s'.IdsInv := by
  apply h.of_sublist homs
  · rw [awaited, awaited, omsAwaited_congr s s' hthread (fun _ _ => by rw [homs]), hcloids]
    simp [gwAwaited, hgw]
  · simp [gwDone, hgw]
  · intro order ho
    simpa [omsOrder, hthread] using ho
  · rw [hgw]
    exact h.addressed

/-- A call of the OMS thread without an order. -/
private lemma IdsInv.of_no_order (h : s.IdsInv) (homs : s'.oms = s.oms)
    (hgw : s'.gwThread = s.gwThread) (hnone : s.omsAwaited = []) (hnone' : s'.omsAwaited = [])
    (horder : s'.omsOrder = none)
    (hcloids : s'.omsToGwCloid.contents = s.omsToGwCloid.contents) : s'.IdsInv := by
  apply h.of_sublist homs
  · rw [awaited, awaited, hnone, hnone', hcloids]
    simp [gwAwaited, hgw]
  · simp [gwDone, hgw]
  · intro order ho
    simp [horder] at ho
  · rw [hgw]
    exact h.addressed

/-- **One call** keeps the ids in order. -/
theorem IdsInv.step (h : s.IdsInv) (hs : Step s a s') : s'.IdsInv := by
  cases hs with
  | sendOrder _ | strategyEmpty _ _ | strategyPop _ _ _ _ | strategyPush _ _ | omsEmpty _ _ _
  | posUpdate _ _ | posDone _ _ =>
    exact h.of_same rfl rfl rfl rfl
  | omsPop reading req rest homs _ =>
    exact h.of_no_order rfl rfl (by simp [omsAwaited, homs]) rfl rfl rfl
  | omsPass reading req homs _ =>
    exact h.of_no_order rfl rfl (by simp [omsAwaited, homs]) rfl rfl rfl
  | omsRefuse reading req homs _ =>
    exact h.of_no_order rfl rfl (by simp [omsAwaited, homs]) rfl rfl rfl
  | omsSubmit reading req homs => exact h.submit homs
  | omsSend reading req order homs =>
    cases order with
    | none => exact h.of_no_order rfl rfl (by simp [omsAwaited, homs]) rfl rfl rfl
    | some order =>
      refine h.of_sublist rfl ?_ rfl ?_ h.addressed
      · simp [awaited, omsAwaited, homs, gwAwaited]
      · simp [omsOrder, homs]
  | omsAck reading order homs => exact h.ack homs rfl rfl
  | omsPush reading order homs => exact h.push homs
  | gwEmpty hgw hq =>
    refine h.of_sublist rfl ?_ rfl (fun _ ho => ho) h.addressed
    simp [awaited, omsAwaited, gwAwaited, hq]
  | gwPop cloid rest hgw hq =>
    refine h.of_sublist rfl ?_ ?_ (fun _ ho => ho) (by simp)
    · simp [awaited, omsAwaited, gwAwaited, hgw, hq]
    · simp [gwDone, hgw]
  | gwNoFill cloid hgw hq =>
    refine h.of_sublist rfl ?_ ?_ (fun _ ho => ho) (by simp)
    · simp [awaited, omsAwaited, gwAwaited, hgw]
    · simp [gwDone, hgw]
  | gwFill cloid fill rest hgw hq =>
    refine h.of_sublist rfl ?_ ?_ (fun _ ho => ho) ?_
    · simp [awaited, omsAwaited, gwAwaited, hgw]
    · simp [gwDone, hgw]
    · simp
  | gwOnFill fill cloid hgw => exact h.onFill hgw
  | gwRelease fill cloid hgw =>
    by_cases hrem : fill.remainingQty = 0
    · simpa only [if_pos hrem] using h.release hgw
    · rw [if_neg hrem]
      refine ⟨h.store, ?_, ?_, by simp [gwDone], h.held, by simp⟩
      · have hawaits := h.awaits
        simpa [awaited, gwAwaited, hgw, omsAwaited] using hawaits
      · have hnodup := h.nodup.sublist (List.sublist_append_right _ _)
        simpa [awaited, gwAwaited, hgw, omsAwaited, gwDone] using hnodup
  | posEmpty _ _ | posPop _ _ _ _ =>
    -- the tracker is no part of the store
    exact ⟨⟨h.store.sound, h.store.count, h.store.entry, h.store.inj⟩, h.awaits, h.nodup, h.done_lt,
      h.held, h.addressed⟩

/-- The calls of the other threads leave the order of the OMS thread alone. -/
theorem IdsInv.frame (h : s.IdsInv) (hs : Step s a s') (ha : ∀ reading, a ≠ .oms reading)
    (order : ℕ) (ho : order ∈ s.omsOrder) :
    s'.omsThread = s.omsThread ∧ s'.oms.idOf order = s.oms.idOf order ∧
      s'.oms.orderAt (s.oms.idOf order) = s.oms.orderAt (s.oms.idOf order) := by
  have hheld := h.held order ho
  cases hs with
  | gwOnFill fill cloid hgw =>
    have hne : s.oms.idOf order ≠ fill.clientOrderId := by
      rw [h.addressed fill cloid hgw]
      exact h.idOf_ne ho (by simp [gwAwaited, hgw])
    refine ⟨rfl, idOf_of_find (h.store.onFill fill) ((OMS.find_onFill ..).trans hheld), ?_⟩
    rw [OMS.orderAt_onFill h.store, if_neg hne]
  | gwRelease fill cloid hgw =>
    have hne : s.oms.idOf order ≠ cloid := h.idOf_ne ho (by simp [gwDone, hgw])
    dsimp only
    split_ifs
    · refine ⟨rfl, idOf_of_find (h.store.release cloid) ?_, ?_⟩
      · rw [OMS.find_release, if_neg hne, hheld]
      · rw [OMS.orderAt_release h.store, if_neg hne]
    · exact ⟨rfl, rfl, rfl⟩
  | omsEmpty reading _ _ => exact absurd rfl (ha reading)
  | omsPop reading _ _ _ _ => exact absurd rfl (ha reading)
  | omsPass reading _ _ _ => exact absurd rfl (ha reading)
  | omsRefuse reading _ _ _ => exact absurd rfl (ha reading)
  | omsSubmit reading _ _ => exact absurd rfl (ha reading)
  | omsSend reading _ _ _ => exact absurd rfl (ha reading)
  | omsAck reading _ _ => exact absurd rfl (ha reading)
  | omsPush reading _ _ => exact absurd rfl (ha reading)
  | _ => exact ⟨rfl, rfl, rfl⟩

end Pipeline

end QuantTrade

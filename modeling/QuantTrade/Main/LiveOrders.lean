import QuantTrade.Main.FillAttribution

/-!
# The orders in the table

An order is registered by the OMS thread and released by the gateway thread when its fill is
complete.  Between the two its id is with the OMS thread, in the queue of ids, or with the gateway
thread (`liveIds`).  As long as the queue of ids has room for every id, the table holds these orders
and no others; so it is empty when the pipeline is, and the order pool, which is larger than the
queue, is never exhausted (`orders_live`).
-/

namespace QuantTrade

namespace Pipeline

open FillAttribution (waitingIds fetchedId sentId Room HasRoom)

variable {s s' : Pipeline} {a : Action}

/-- The id the gateway thread works on. -/
def gwIds (s : Pipeline) : List ℕ :=
  match s.gwThread with
  | .idle => []
  | .hasCloid cloid => [cloid]
  | .hasFill _ cloid => [cloid]
  | .filled _ cloid => [cloid]

/-- The id of the order the OMS thread works on. -/
def omsIds (s : Pipeline) : List ℕ :=
  (s.omsOrder.map s.oms.idOf).toList

/-- The ids of the orders that were registered and not yet released, oldest first. -/
def liveIds (s : Pipeline) : List ℕ :=
  s.gwIds ++ s.omsToGwCloid.contents ++ s.omsIds

/-- The fill the gateway thread works on. -/
def gwFills (s : Pipeline) : List FillEvent :=
  match s.gwThread with
  | .hasFill fill _ => [fill]
  | .filled fill _ => [fill]
  | _ => []

/-- An id that the OMS thread pushes to the queue of ids finds room. -/
def IdRoom (s : Pipeline) : Action → Prop
  | .oms _ =>
    match s.omsThread with
    | .acked _ => s.omsToGwCloid.contents.length < 4096
    | _ => True
  | _ => True

instance (s : Pipeline) : DecidablePred (IdRoom s)
  | .oms _ => by
    unfold IdRoom
    dsimp only
    split <;> infer_instance
  | .sendOrder _ | .strategy | .gw | .pos => .isTrue trivial

/-- The table holds the orders on their way, and every id on its way to the gateway thread has a
complete fill waiting. -/
structure Live (s : Pipeline) : Prop where
  keys : ∀ id, s.oms.find id ≠ none ↔ id ∈ s.liveIds
  complete : ∀ fill ∈ s.gwFills ++ s.simGw.fillQueue, fill.remainingQty = 0
  fills : (waitingIds s).length ≤ s.simGw.fillQueue.length

lemma live_init (cfg : Config) (nowNs : ℤ) : (init cfg nowNs).Live where
  keys := by simp [init, liveIds, gwIds, omsIds, omsOrder, OMS.find_init]
  complete := by simp [init, gwFills, SimGateway.init]
  fills := by simp [init, waitingIds, fetchedId, sentId]

/-- The ids on their way, as the calls of the gateway thread see them. -/
lemma liveIds_eq (s : Pipeline) : s.liveIds = s.gwDone ++ s.awaited.map Prod.fst := by
  have hgw : s.gwIds = s.gwDone ++ s.gwAwaited.map Prod.fst := by
    cases hthread : s.gwThread <;> simp [gwIds, gwDone, gwAwaited, hthread]
  have homs : s.omsIds = s.omsAwaited.map Prod.fst := by
    cases hthread : s.omsThread with
    | submitted req order => cases order <;> simp [omsIds, omsOrder, omsAwaited, hthread]
    | _ => simp [omsIds, omsOrder, omsAwaited, hthread]
  simp [liveIds, hgw, homs, awaited, List.map_map, Function.comp_def]

/-- A call that leaves the table and the ids on their way as they are. -/
lemma Live.of_same (h : s.Live) (hfind : ∀ id, s'.oms.find id = s.oms.find id)
    (hids : s'.liveIds = s.liveIds) (hfills : ∀ fill ∈ s'.gwFills ++ s'.simGw.fillQueue,
      fill ∈ s.gwFills ++ s.simGw.fillQueue ∨ fill.remainingQty = 0)
    (hlength : (waitingIds s').length ≤ s'.simGw.fillQueue.length) : s'.Live where
  keys id := by rw [hfind, hids, h.keys]
  complete fill hf := (hfills fill hf).elim (h.complete fill) id
  fills := hlength

/-- The calls of the other threads leave the id of the OMS thread alone. -/
lemma omsIds_frame (h : s.IdsInv) (hs : Step s a s') (ha : ∀ reading, a ≠ .oms reading) :
    s'.omsIds = s.omsIds := by
  have horder : s'.omsOrder = s.omsOrder := by
    rw [omsOrder, omsOrder, FillAttribution.omsThread_frame hs ha]
  rw [omsIds, omsIds, horder]
  cases ho : s.omsOrder with
  | none => rfl
  | some order =>
    have hid := (h.frame hs ha order (by simp [ho])).2.1
    simp [hid]

/-- The number of ids the OMS thread has still to push only depends on where it stands. -/
lemma length_sentId_frame (hs : Step s a s') (ha : ∀ reading, a ≠ .oms reading) :
    (sentId s').length = (sentId s).length := by
  have hthread := FillAttribution.omsThread_frame hs ha
  cases homs : s.omsThread <;> simp [sentId, hthread, homs]

/-- A new order is registered, if there is a slot for it. -/
private lemma Live.submit (h : s.Live) (hids : s.IdsInv) {req : OrderRequest} {now : ℕ}
    (homs : s.omsThread = .checked req) :
    Live { s with
      oms := (s.oms.submit req now).1
      omsThread := .submitted req (s.oms.submit req now).2 } := by
  have hfills := h.fills
  rcases hids.store.activeOrders_le.lt_or_eq with hroom | hfull
  · obtain ⟨order, hsome, hsub⟩ := OMS.submit_of_room hids.store hroom req now
    have hfind : (s.oms.submit req now).1.find s.oms.nextOrderId = some order := by
      rw [hsub.find, if_pos rfl]
    have hid := idOf_of_find hsub.storeInv hfind
    have hnew : liveIds { s with
        oms := (s.oms.submit req now).1
        omsThread := .submitted req (s.oms.submit req now).2 } =
        s.liveIds ++ [s.oms.nextOrderId] := by
      simp [liveIds, gwIds, omsIds, omsOrder, homs, hsome, hid]
    refine ⟨fun id => ?_, h.complete, ?_⟩
    · rw [hnew, List.mem_append, List.mem_singleton, ← h.keys, hsub.find]
      by_cases hnext : id = s.oms.nextOrderId <;> simp [hnext]
    · simpa [waitingIds, fetchedId, sentId, homs] using hfills
  · rw [OMS.submit_of_full hids.store hfull]
    refine h.of_same (fun _ => rfl) ?_ (fun _ hf => Or.inl hf) ?_
    · simp [liveIds, gwIds, omsIds, omsOrder, homs]
    · simpa [waitingIds, fetchedId, sentId, homs] using hfills

/-- The order whose fill is complete is released, and no other. -/
private lemma Live.release (h : s.Live) (hids : s.IdsInv) {fill : FillEvent} {cloid : ℕ}
    (hgw : s.gwThread = .filled fill cloid) :
    Live { s with
      oms := if fill.remainingQty = 0 then s.oms.release cloid else s.oms
      gwThread := .idle } := by
  have hcomplete : fill.remainingQty = 0 := h.complete fill (by simp [gwFills, hgw])
  have hs : Step s .gw _ := Step.gwRelease fill cloid hgw
  have homs := omsIds_frame hids hs (by simp)
  have hlength := length_sentId_frame hs (by simp)
  have hfills := h.fills
  have hnodup : s.liveIds.Nodup := by
    rw [liveIds_eq]
    exact hids.nodup
  have hold : s.liveIds = cloid :: (s.omsToGwCloid.contents ++ s.omsIds) := by
    simp [liveIds, gwIds, hgw]
  rw [hold, List.nodup_cons] at hnodup
  rw [if_pos hcomplete] at homs hlength ⊢
  refine ⟨fun id => ?_, fun f hf => h.complete f ?_, ?_⟩
  · rw [OMS.find_release, liveIds, homs]
    have hkeys := h.keys id
    rw [hold, List.mem_cons] at hkeys
    by_cases hid : id = cloid
    · subst hid
      simpa [gwIds] using hnodup.1
    · simpa [gwIds, hid] using hkeys
  · exact List.mem_append_right _ (by simpa [gwFills] using hf)
  · simp only [waitingIds, fetchedId, hgw, List.length_append] at hlength hfills ⊢
    omega

/-- **One call** keeps the table and the ids on their way in step. -/
theorem Live.step (h : s.Live) (hids : s.IdsInv) (hs : Step s a s')
    (hroom : IdRoom s a) : s'.Live := by
  have hfills := h.fills
  cases hs with
  | sendOrder _ | strategyEmpty _ _ | strategyPop _ _ _ _ | strategyPush _ _ | posUpdate _ _
  | posDone _ _ | posEmpty _ _ | posPop _ _ _ _ =>
    exact h.of_same (fun _ => rfl) rfl (fun _ hf => Or.inl hf) hfills
  | omsEmpty reading homs _ =>
    exact h.of_same (fun _ => rfl) rfl (fun _ hf => Or.inl hf) hfills
  | omsPop _ _ _ homs _ | omsPass _ _ homs _ | omsRefuse _ _ homs _ =>
    refine h.of_same (fun _ => rfl) ?_ (fun _ hf => Or.inl hf) ?_
    · simp [liveIds, gwIds, omsIds, omsOrder, homs]
    · simpa [waitingIds, fetchedId, sentId, homs] using hfills
  | omsSubmit reading req homs => exact h.submit hids homs
  | omsSend reading req order homs =>
    refine h.of_same (fun _ => rfl) ?_ ?_ ?_
    · cases order <;> simp [liveIds, gwIds, omsIds, omsOrder, homs]
    · intro fill hf
      rcases List.mem_append.mp hf with hf | hf
      · exact Or.inl (List.mem_append_left _ hf)
      · rcases List.mem_append.mp hf with hf | hf
        · exact Or.inl (List.mem_append_right _ hf)
        · rw [List.mem_singleton.mp hf]
          exact Or.inr rfl
    · simp only [waitingIds, fetchedId, sentId, homs, List.append_nil, List.length_append,
        SPSCQueue.length_contents] at hfills
      cases order <;> simp [waitingIds, fetchedId, sentId] <;> omega
  | omsAck reading order homs =>
    have hheld := hids.held order (by simp [omsOrder, homs])
    have hid := idOf_of_find (hids.store.onAck { clientOrderId := s.oms.idOf order
                                                 exchangeOrderId := s.oms.idOf order + 9000
                                                 status := .new })
      ((OMS.find_updateOrder _).trans hheld)
    refine h.of_same (fun id => OMS.find_updateOrder id) ?_ (fun _ hf => Or.inl hf) ?_
    · simp [liveIds, gwIds, omsIds, omsOrder, homs, hid]
    · simpa [waitingIds, fetchedId, sentId, homs] using hfills
  | omsPush reading order homs =>
    have hlen : s.omsToGwCloid.contents.length < 4096 := by simpa [IdRoom, homs] using hroom
    have hpush : (s.omsToGwCloid.push (s.oms.idOf order)).1.contents =
        s.omsToGwCloid.contents ++ [s.oms.idOf order] := by
      rw [SPSCQueue.contents_push, BoundedFifo.push_of_length_ne hlen.ne]
    refine h.of_same (fun _ => rfl) ?_ (fun _ hf => Or.inl hf) ?_
    · simp only [liveIds, omsIds, omsOrder, homs, hpush]
      simp [gwIds]
    · simp only [waitingIds, fetchedId, sentId, homs, hpush] at hfills ⊢
      simpa using hfills
  | gwEmpty hgw hq =>
    refine h.of_same (fun _ => rfl) ?_ (fun _ hf => Or.inl hf) ?_
    · simp [liveIds, gwIds, omsIds, omsOrder, hq]
    · simpa [waitingIds, fetchedId, sentId, hq] using hfills
  | gwPop cloid rest hgw hq =>
    refine h.of_same (fun _ => rfl) ?_ (fun _ hf => Or.inl ?_) ?_
    · simp [liveIds, gwIds, omsIds, omsOrder, hgw, hq]
    · simpa [gwFills, hgw] using hf
    · simpa [waitingIds, fetchedId, sentId, hgw, hq] using hfills
  | gwNoFill cloid hgw hq =>
    -- an id that was fetched has a fill that waits
    simp [waitingIds, fetchedId, hgw, hq] at hfills
  | gwFill cloid fill rest hgw hq =>
    refine h.of_same (fun _ => rfl) ?_ ?_ ?_
    · simp [liveIds, gwIds, omsIds, omsOrder, hgw]
    · intro f hf
      have hcomplete := h.complete
      simp only [gwFills, hgw, hq, List.nil_append, List.singleton_append,
        List.mem_cons] at hf hcomplete
      rcases hf with rfl | hf
      · exact Or.inr (hcomplete fill (Or.inl rfl))
      · exact Or.inr (hcomplete f (Or.inr hf))
    · simp only [waitingIds, fetchedId, sentId, hgw, hq, List.length_append, List.length_cons,
        List.length_nil] at hfills ⊢
      omega
  | gwOnFill fill cloid hgw =>
    have hs : Step s .gw _ := Step.gwOnFill fill cloid hgw
    have homs := omsIds_frame hids hs (by simp)
    have hlength := length_sentId_frame hs (by simp)
    refine h.of_same (fun id => OMS.find_onFill ..) ?_ (fun _ hf => Or.inl ?_) ?_
    · rw [liveIds, homs]
      simp [liveIds, gwIds, hgw]
    · simpa [gwFills, hgw] using hf
    · simp only [waitingIds, fetchedId, hgw, List.length_append] at hlength hfills ⊢
      omega
  | gwRelease fill cloid hgw => exact h.release hids hgw

/-! ## Every run -/

/-- The table has as many entries as there are ids on their way. -/
lemma Live.activeOrders (h : s.Live) (hids : s.IdsInv) : s.oms.activeOrders = s.liveIds.length := by
  have hnodup : s.liveIds.Nodup := by
    rw [liveIds_eq]
    exact hids.nodup
  have hperm : s.oms.orders.keys.Perm s.liveIds := by
    refine (List.perm_ext_iff_of_nodup s.oms.orders.keys_nodup hnodup).mpr fun id => ?_
    rw [← h.keys, ← AList.mem_keys, ← AList.lookup_isSome, OMS.find, Option.isSome_iff_ne_none]
  exact hperm.length_eq

/-- There are few ids on their way: one with each thread, and those in the queue. -/
lemma length_liveIds_le (s : Pipeline) : s.liveIds.length ≤ 4098 := by
  have hgw : s.gwIds.length ≤ 1 := by cases h : s.gwThread <;> simp [gwIds, h]
  have homs : s.omsIds.length ≤ 1 := by cases h : s.omsOrder <;> simp [omsIds, h]
  have hqueue := s.omsToGwCloid.size_le_capacity
  rw [liveIds, List.length_append, List.length_append, SPSCQueue.length_contents]
  omega

/-- Where the queue of ids has room, the order pool has. -/
lemma Live.room (h : s.Live) (hids : s.IdsInv) (hroom : IdRoom s a) : Room s a := by
  have hactive := h.activeOrders hids
  have hle := length_liveIds_le s
  cases a with
  | oms reading =>
    cases homs : s.omsThread with
    | checked req =>
      have hpool : poolSize = 65536 := rfl
      simp only [Room, HasRoom, homs]
      omega
    | acked order => simpa [Room, HasRoom, IdRoom, homs] using hroom
    | _ => simp [Room, HasRoom, homs]
  | _ => trivial

lemma live_run (cfg : Config) (nowNs : ℤ) (as : List Action)
    (has : Transition.Admissible step IdRoom (init cfg nowNs) as) :
    (Transition.run step (init cfg nowNs) as).Live ∧
      (Transition.run step (init cfg nowNs) as).IdsInv := by
  have hrun := Transition.invariant_run (C := IdRoom)
    (P := fun s : Pipeline => s.Wired ∧ s.IdsInv ∧ s.Live) ?_ has
    ⟨wired_init cfg nowNs, idsInv_init cfg nowNs, live_init cfg nowNs⟩
  · exact ⟨hrun.2.2, hrun.2.1⟩
  · intro s a hroom h
    have hs := step_spec h.1 a
    exact ⟨h.1.step hs, h.2.1.step hs, h.2.2.step h.2.1 hs hroom⟩

/-- **No order leaks.**  In every run in which each id finds room in the queue to the gateway
thread, the orders in the table are those on their way, one entry for each, and there are never more
than 4098 of them.  So nothing is left when the pipeline is drained, every `oms.submit` finds a free
slot, and the fills are attributed as in `FillAttribution`. -/
theorem orders_live (cfg : Config) (nowNs : ℤ) (as : List Action)
    (has : Transition.Admissible step IdRoom (init cfg nowNs) as) :
    (∀ id, (Transition.run step (init cfg nowNs) as).oms.find id ≠ none ↔
        id ∈ (Transition.run step (init cfg nowNs) as).liveIds) ∧
      (Transition.run step (init cfg nowNs) as).oms.activeOrders =
        (Transition.run step (init cfg nowNs) as).liveIds.length ∧
      (Transition.run step (init cfg nowNs) as).oms.activeOrders ≤ 4098 ∧
      ((Transition.run step (init cfg nowNs) as).Drained →
        (Transition.run step (init cfg nowNs) as).oms.activeOrders = 0) ∧
      Transition.Admissible step Room (init cfg nowNs) as := by
  obtain ⟨hlive, hids⟩ := live_run cfg nowNs as has
  have hactive := hlive.activeOrders hids
  refine ⟨hlive.keys, hactive, hactive.trans_le (length_liveIds_le _), ?_, ?_⟩
  · rintro ⟨⟨-, homs, hgw, -⟩, -, -, hqueue, -⟩
    rw [hactive]
    simp [liveIds, gwIds, omsIds, omsOrder, homs, hgw, hqueue]
  · rw [Transition.admissible_iff_forall_run]
    intro bs a hpre
    obtain ⟨rest, rfl⟩ := hpre
    have hall := has.of_append
    obtain ⟨hlive', hids'⟩ := live_run cfg nowNs bs hall.of_append
    exact hlive'.room hids' (Transition.admissible_iff_forall_run.mp hall bs a List.prefix_rfl)

/-- Two orders are on their way at once. -/
theorem orders_live_twoRequests :
    let s := Transition.run step (init wideLimits 0) (twoRequests.take 18)
    s.liveIds = [1, 2] ∧ s.oms.activeOrders = s.liveIds.length :=
  ⟨by decide +kernel, (orders_live wideLimits 0 (twoRequests.take 18) (by decide +kernel)).2.1⟩

end Pipeline

end QuantTrade

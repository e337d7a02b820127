import Mathlib.Data.List.Forall2
import QuantTrade.Main.Rounds

/-!
# Under which id a fill is reported

The simulated gateway does not know the client order ids.  The gateway thread fetches an id from
one queue and a fill from another, and relies on both to be in step (`Lockstep`).  They are, as
long as the OMS takes every order and the queue of ids has room for every id (`Room`); then every
fill is handed to the OMS under the id of the order that was created for its request
(`attributed_of_room`).  When the order pool is exhausted a request reaches the gateway without an
order (`not_attributed_exhausted`).
-/

namespace QuantTrade

namespace FillAttribution

open Pipeline

/-- The order carries the terms of the request. -/
def Fits (o : Order) (req : OrderRequest) : Prop :=
  o.instrumentId = req.instrumentId ∧ o.side = req.side ∧ o.type = req.type ∧
    o.price = req.price ∧ o.qty = req.qty

/-- The order that the OMS created for the request when it reached the gateway. -/
def Registered (d : Dispatch) (o : Order) : Prop :=
  d.order = some o ∧ Fits o d.req

/-- The fill is the one that the gateway produced for the request. -/
def Produced (d : Dispatch) (fill : FillEvent) : Prop :=
  fill.exchangeOrderId = d.exchangeOrderId ∧ fill.instrumentId = d.req.instrumentId ∧
    fill.side = d.req.side ∧ fill.fillPrice = d.req.price ∧ fill.fillQty = d.req.qty

/-- The fill carries the id of the order that was created for the request that produced it. -/
def Matched (sent : List Dispatch) (fill : FillEvent) : Prop :=
  ∃ d ∈ sent, Produced d fill ∧ ∃ o, Registered d o ∧ fill.clientOrderId = o.clientOrderId

/-- Every request that reached the gateway has an order, and every fill was handed to the OMS under
the id of the order of its request. -/
structure Attributed (j : Journal) : Prop where
  registered : ∀ d ∈ j.sent, ∃ o, Registered d o
  distinct : (j.sent.map (·.exchangeOrderId)).Nodup
  handed : ∀ fill ∈ j.handed, Matched j.sent fill

/-- What the next call of the OMS thread needs: a free slot for `oms.submit`, room in the queue of
ids for the push. -/
def HasRoom (s : Pipeline) : OmsThread → Prop
  | .checked _ => s.oms.activeOrders < poolSize
  | .acked _ => s.omsToGwCloid.contents.length < 4096
  | _ => True

/-- Every call of `oms.submit` finds a free slot, and every push to the queue of ids finds room. -/
def Room (s : Pipeline) : Action → Prop
  | .oms _ => HasRoom s s.omsThread
  | _ => True

instance (s : Pipeline) : DecidablePred (HasRoom s)
  | .checked _ => inferInstanceAs (Decidable (_ < _))
  | .acked _ => inferInstanceAs (Decidable (_ < _))
  | .idle | .popped _ | .submitted _ _ | .executed _ => .isTrue trivial

instance (s : Pipeline) : DecidablePred (Room s)
  | .oms _ => inferInstanceAs (Decidable (HasRoom s _))
  | .sendOrder _ | .strategy | .gw | .pos => .isTrue trivial

/-! ## The order of a submitted request -/

/-- The calls of the other threads leave the OMS thread alone. -/
lemma omsThread_frame {s s' : Pipeline} {a : Action} (hs : Step s a s')
    (ha : ∀ reading, a ≠ .oms reading) : s'.omsThread = s.omsThread := by
  cases hs <;> first | rfl | exact absurd rfl (ha _)

/-- The OMS took the request that is about to be sent. -/
def SubmittedFits (s : Pipeline) : Prop :=
  ∀ req order, s.omsThread = .submitted req order →
    ∃ ptr o, order = some ptr ∧ s.oms.orderAt (s.oms.idOf ptr) = some o ∧ Fits o req

lemma SubmittedFits.step {s s' : Pipeline} {a : Action} (hs : Step s a s') (hroom : Room s a)
    (hids : s.IdsInv) (h : SubmittedFits s) : SubmittedFits s' := by
  by_cases ha : ∃ reading, a = .oms reading
  · obtain ⟨reading, rfl⟩ := ha
    cases hs with
    | omsEmpty _ homs _ =>
      intro req order hsub
      simp [homs] at hsub
    | omsSubmit _ req homs =>
      intro req' order hsub
      obtain ⟨rfl, rfl⟩ : req = req' ∧ _ = order := by simpa using hsub
      have hactive : s.oms.activeOrders < poolSize := by simpa [Room, HasRoom, homs] using hroom
      obtain ⟨ptr, hsome, hnew⟩ := OMS.submit_of_room hids.store hactive req reading.rdtscNs
      have hfind : (s.oms.submit req reading.rdtscNs).1.find s.oms.nextOrderId = some ptr := by
        rw [hnew.find, if_pos rfl]
      refine ⟨ptr, s.oms.newOrder req reading.rdtscNs, hsome, ?_, rfl, rfl, rfl, rfl, rfl⟩
      rw [idOf_of_find hnew.storeInv hfind, hnew.orderAt, if_pos rfl]
    | omsSend _ _ order _ =>
      intro req' order' hsub
      cases order <;> simp at hsub
    | _ =>
      intro req order hsub
      simp at hsub
  · have ha' : ∀ reading, a ≠ .oms reading := fun reading heq => ha ⟨reading, heq⟩
    intro req order hsub
    have hsub' : s.omsThread = .submitted req order := (omsThread_frame hs ha').symm.trans hsub
    obtain ⟨ptr, o, rfl, ho, hfits⟩ := h req order hsub'
    obtain ⟨-, hid, horder⟩ := hids.frame hs ha' ptr (by simp [omsOrder, hsub'])
    exact ⟨ptr, o, rfl, by rw [hid, horder, ho], hfits⟩

/-- The order of the request that is about to be sent is the one its pointer leads to. -/
lemma SubmittedFits.deref {s : Pipeline} (h : SubmittedFits s) (hids : s.IdsInv)
    {req : OrderRequest} {order : Option ℕ} (homs : s.omsThread = .submitted req order) :
    ∃ ptr o, order = some ptr ∧ s.oms.pool.deref ptr = some o ∧ Fits o req ∧
      o.clientOrderId = s.oms.idOf ptr := by
  obtain ⟨ptr, o, rfl, ho, hfits⟩ := h req order homs
  have hheld := hids.held ptr (by simp [omsOrder, homs])
  have hderef : s.oms.pool.deref ptr = some o := by
    simpa [OMS.orderAt, hheld] using ho
  exact ⟨ptr, o, rfl, hderef, hfits, by simp [OMS.idOf, hderef]⟩

/-! ## Ids and fills in step -/

/-- The id of the order that was sent and whose id is not yet in the queue. -/
def sentId (s : Pipeline) : List ℕ :=
  match s.omsThread with
  | .executed order => [s.oms.idOf order]
  | .acked order => [s.oms.idOf order]
  | _ => []

/-- The id the gateway thread has fetched, as long as it has not fetched the fill. -/
def fetchedId (s : Pipeline) : List ℕ :=
  match s.gwThread with
  | .hasCloid cloid => [cloid]
  | _ => []

/-- The ids whose fills are in the gateway, oldest first. -/
def waitingIds (s : Pipeline) : List ℕ :=
  fetchedId s ++ s.omsToGwCloid.contents ++ sentId s

/-- The order of the request has this id. -/
def HasId (d : Dispatch) (c : ℕ) : Prop :=
  ∃ o, Registered d o ∧ o.clientOrderId = c

/-- The last requests that were sent correspond one by one to the fills in the gateway and to the
ids on their way; the fills of the earlier ones were fetched under the right ids. -/
structure Lockstep (s : Pipeline) (j : Journal) : Prop where
  registered : ∀ d ∈ j.sent, ∃ o, Registered d o
  numbered : ∀ d ∈ j.sent, d.exchangeOrderId < s.simGw.nextExchangeId
  distinct : (j.sent.map (·.exchangeOrderId)).Nodup
  matched : ∀ fill ∈ j.handed ++ s.gwFill, Matched j.sent fill
  aligned : ∃ closed waiting, j.sent = closed ++ waiting ∧
    List.Forall₂ Produced waiting s.simGw.fillQueue ∧ List.Forall₂ HasId waiting (waitingIds s)

lemma Lockstep.attributed {s : Pipeline} {j : Journal} (h : Lockstep s j) : Attributed j where
  registered := h.registered
  distinct := h.distinct
  handed fill hf := h.matched fill (List.mem_append_left _ hf)

/-- A longer list of sent requests matches what a shorter one does. -/
lemma Matched.append {sent : List Dispatch} {fill : FillEvent} (h : Matched sent fill)
    (more : List Dispatch) : Matched (sent ++ more) fill := by
  obtain ⟨d, hd, hrest⟩ := h
  exact ⟨d, List.mem_append_left _ hd, hrest⟩

/-- Two lists that correspond still do so when a pair is appended. -/
lemma forall₂_concat {α β : Type*} {R : α → β → Prop} {l : List α} {u : List β} {a : α} {b : β}
    (h : List.Forall₂ R l u) (hab : R a b) : List.Forall₂ R (l ++ [a]) (u ++ [b]) :=
  List.rel_append h (.cons hab .nil)

/-- A call that sends nothing, and moves ids and fills on without changing their order. -/
private lemma Lockstep.keep {s s' : Pipeline} {j : Journal} {a : Action} (h : Lockstep s j)
    (hsends : s.sends a = []) (hsim : s'.simGw = s.simGw) (hids : waitingIds s' = waitingIds s)
    (hfills : s.hands a ++ s'.gwFill = s.gwFill) : Lockstep s' (j.record s a) := by
  have hsent : (j.record s a).sent = j.sent := by simp [Journal.record, hsends]
  have hhanded : (j.record s a).handed ++ s'.gwFill = j.handed ++ s.gwFill := by
    rw [← hfills, ← List.append_assoc]
    rfl
  refine ⟨?_, ?_, ?_, ?_, ?_⟩
  · rw [hsent]
    exact h.registered
  · rw [hsent, hsim]
    exact h.numbered
  · rw [hsent]
    exact h.distinct
  · rw [hsent, hhanded]
    exact h.matched
  · rw [hsent, hsim, hids]
    exact h.aligned

/-- The calls of the other threads leave the id of the OMS thread alone. -/
private lemma sentId_frame {s s' : Pipeline} {a : Action} (hids : s.IdsInv) (hs : Step s a s')
    (ha : ∀ reading, a ≠ .oms reading) : sentId s' = sentId s := by
  have hthread := omsThread_frame hs ha
  cases homs : s.omsThread with
  | executed order =>
    have hid := (hids.frame hs ha order (by simp [omsOrder, homs])).2.1
    simp [sentId, hthread, homs, hid]
  | acked order =>
    have hid := (hids.frame hs ha order (by simp [omsOrder, homs])).2.1
    simp [sentId, hthread, homs, hid]
  | _ => simp [sentId, hthread, homs]

/-- A request is sent together with its order; its fill and its id join the others. -/
private lemma Lockstep.send {s : Pipeline} {j : Journal} (h : Lockstep s j) (hw : s.Wired)
    (hids : s.IdsInv) (hfits : SubmittedFits s) {reading : Reading} {req : OrderRequest}
    {order : Option ℕ} (homs : s.omsThread = .submitted req order) :
    Lockstep
      { s with
        simGw :=
          { s.simGw with
            submittedOrders := s.simGw.submittedOrders ++ [req]
            fillQueue := s.simGw.fillQueue ++ [s.simGw.fillOf req reading.rdtscNs]
            nextExchangeId := s.simGw.nextExchangeId + 1 }
        omsThread := order.elim .idle .executed }
      (j.record s (.oms reading)) := by
  obtain ⟨ptr, o, rfl, hderef, hfit, hid⟩ := hfits.deref hids homs
  have hregistered : Registered ⟨req, some o, s.simGw.nextExchangeId⟩ o := ⟨rfl, hfit⟩
  have hsent : (j.record s (.oms reading)).sent =
      j.sent ++ [⟨req, some o, s.simGw.nextExchangeId⟩] := by
    simp [Journal.record, sends_of_submitted hw homs, hderef]
  have hhanded : (j.record s (.oms reading)).handed = j.handed := List.append_nil _
  refine ⟨?_, ?_, ?_, ?_, ?_⟩
  · rw [hsent]
    intro d hd
    rcases List.mem_append.mp hd with hd | hd
    · exact h.registered d hd
    · rw [List.mem_singleton.mp hd]
      exact ⟨o, hregistered⟩
  · rw [hsent]
    intro d hd
    rcases List.mem_append.mp hd with hd | hd
    · exact Nat.lt_succ_of_lt (h.numbered d hd)
    · rw [List.mem_singleton.mp hd]
      exact Nat.lt_succ_self _
  · rw [hsent, List.map_append]
    refine h.distinct.append (List.nodup_singleton _) ?_
    intro n hn heq
    obtain ⟨d, hd, rfl⟩ := List.mem_map.mp hn
    exact (h.numbered d hd).ne (List.mem_singleton.mp heq)
  · rw [hsent, hhanded]
    intro fill hf
    exact (h.matched fill hf).append _
  · obtain ⟨closed, waiting, hsplit, hfills, hwaiting⟩ := h.aligned
    refine ⟨closed, waiting ++ [⟨req, some o, s.simGw.nextExchangeId⟩], ?_, ?_, ?_⟩
    · rw [hsent, hsplit, List.append_assoc]
    · exact forall₂_concat hfills ⟨rfl, rfl, rfl, rfl, rfl⟩
    · have hnew := forall₂_concat hwaiting ⟨o, hregistered, hid⟩
      simpa [waitingIds, sentId, fetchedId, homs] using hnew

/-- The gateway thread fetches the fill that belongs to the id it has fetched. -/
private lemma Lockstep.fetch {s : Pipeline} {j : Journal} (h : Lockstep s j) {cloid : ℕ}
    {fill : FillEvent} {rest : List FillEvent} (hgw : s.gwThread = .hasCloid cloid)
    (hq : s.simGw.fillQueue = fill :: rest) :
    Lockstep
      { s with
        simGw := { s.simGw with fillQueue := rest }
        gwThread := .hasFill { fill with clientOrderId := cloid } cloid }
      (j.record s .gw) := by
  have hsent : (j.record s .gw).sent = j.sent := List.append_nil _
  have hhanded : (j.record s .gw).handed = j.handed := by simp [Journal.record, hands, gwFill, hgw]
  obtain ⟨closed, waiting, hsplit, hfills, hwaiting⟩ := h.aligned
  have hids : waitingIds s = cloid :: (s.omsToGwCloid.contents ++ sentId s) := by
    simp [waitingIds, fetchedId, hgw]
  rw [hq] at hfills
  rw [hids] at hwaiting
  cases hfills with
  | cons hproduced hfills =>
    rename_i d waiting
    rw [List.forall₂_cons] at hwaiting
    obtain ⟨⟨o, hregistered, hid⟩, hwaiting⟩ := hwaiting
    refine ⟨?_, ?_, ?_, ?_, ⟨closed ++ [d], waiting, ?_, hfills, ?_⟩⟩
    · rw [hsent]
      exact h.registered
    · rw [hsent]
      exact h.numbered
    · rw [hsent]
      exact h.distinct
    · rw [hsent, hhanded]
      intro f hf
      rcases List.mem_append.mp hf with hf | hf
      · exact h.matched f (List.mem_append_left _ hf)
      · rw [List.mem_singleton.mp hf]
        exact ⟨d, by simp [hsplit], hproduced, o, hregistered, hid.symm⟩
    · rw [hsent, hsplit, List.append_assoc]
      rfl
    · simpa [waitingIds, fetchedId, sentId] using hwaiting

/-- The id of an order does not change when the order is acknowledged. -/
private lemma idOf_onAck {s : Pipeline} (hids : s.IdsInv) (ack : OrderAck) {order : ℕ}
    (ho : order ∈ s.omsOrder) : (s.oms.onAck ack).1.idOf order = s.oms.idOf order :=
  idOf_of_find (hids.store.onAck ack) ((OMS.find_updateOrder _).trans (hids.held order ho))

/-- **One call** keeps ids and fills in step, as long as there is room. -/
theorem Lockstep.step {s s' : Pipeline} {j : Journal} {a : Action} (hs : Step s a s') (hw : s.Wired)
    (hroom : Room s a) (hids : s.IdsInv) (hfits : SubmittedFits s) (h : Lockstep s j) :
    Lockstep s' (j.record s a) := by
  cases hs with
  | sendOrder _ | strategyEmpty _ _ | strategyPop _ _ _ _ | strategyPush _ _ | posEmpty _ _
  | posPop _ _ _ _ | posUpdate _ _ | posDone _ _ =>
    exact h.keep rfl rfl rfl rfl
  | omsEmpty reading homs hq => exact h.keep (by simp [sends, homs]) rfl rfl rfl
  | omsPop reading req rest homs hq =>
    refine h.keep (by simp [sends, homs]) rfl ?_ rfl
    simp [waitingIds, fetchedId, sentId, homs]
  | omsPass reading req homs hok =>
    refine h.keep (by simp [sends, homs]) rfl ?_ rfl
    simp [waitingIds, fetchedId, sentId, homs]
  | omsRefuse reading req homs hok =>
    refine h.keep (by simp [sends, homs]) rfl ?_ rfl
    simp [waitingIds, fetchedId, sentId, homs]
  | omsSubmit reading req homs =>
    refine h.keep (by simp [sends, homs]) rfl ?_ rfl
    simp [waitingIds, fetchedId, sentId, homs]
  | omsSend reading req order homs => exact h.send hw hids hfits homs
  | omsAck reading order homs =>
    refine h.keep (by simp [sends, homs]) rfl ?_ rfl
    simp [waitingIds, fetchedId, sentId, homs, idOf_onAck hids _ (show order ∈ s.omsOrder by
      simp [omsOrder, homs])]
  | omsPush reading order homs =>
    refine h.keep (by simp [sends, homs]) rfl ?_ rfl
    have hlen : s.omsToGwCloid.contents.length < 4096 := by simpa [Room, HasRoom, homs] using hroom
    have hpush : (s.omsToGwCloid.push (s.oms.idOf order)).1.contents =
        s.omsToGwCloid.contents ++ [s.oms.idOf order] := by
      rw [SPSCQueue.contents_push, BoundedFifo.push_of_length_ne hlen.ne]
    simp [waitingIds, fetchedId, sentId, homs, hpush]
  | gwEmpty hgw hq =>
    refine h.keep rfl rfl ?_ (by simp [hands, gwFill, hgw])
    simp [waitingIds, fetchedId, sentId, hgw, hq]
  | gwPop cloid rest hgw hq =>
    refine h.keep rfl rfl ?_ (by simp [hands, gwFill, hgw])
    simp [waitingIds, fetchedId, sentId, hgw, hq]
  | gwNoFill cloid hgw hq =>
    -- an id that waits has a fill that waits
    obtain ⟨closed, waiting, -, hfills, hwaiting⟩ := h.aligned
    have hlen := hfills.length_eq.symm.trans hwaiting.length_eq
    simp [hq, waitingIds, fetchedId, hgw] at hlen
  | gwFill cloid fill rest hgw hq => exact h.fetch hgw hq
  | gwOnFill fill cloid hgw =>
    have hsame := sentId_frame hids (.gwOnFill fill cloid hgw) (by simp)
    refine h.keep rfl rfl ?_ (by simp [hands, gwFill, hgw])
    rw [waitingIds, hsame, waitingIds]
    simp [fetchedId, hgw]
  | gwRelease fill cloid hgw =>
    have hsame := sentId_frame hids (.gwRelease fill cloid hgw) (by simp)
    refine h.keep rfl rfl ?_ (by simp [hands, gwFill, hgw])
    rw [waitingIds, hsame, waitingIds]
    simp [fetchedId, hgw]

/-- **Fill attribution.**  In every run in which the OMS has a free slot for every request that it
is given and the queue of ids has room for every id, every request that reached the gateway has its
order, and every fill was handed to the OMS under the id of the order of its request. -/
theorem attributed_of_room (cfg : Config) (nowNs : ℤ) (as : List Action)
    (has : Transition.Admissible step Room (.init cfg nowNs) as) :
    Attributed (Observed.after cfg nowNs as).journal := by
  have hrun := (Observed.invariant_run (o := Observed.init cfg nowNs)
    (P := fun o => o.sys.IdsInv ∧ SubmittedFits o.sys ∧ Lockstep o.sys o.journal) ?_
    (wired_init cfg nowNs) ?_ has).2
  · exact hrun.2.2.attributed
  · rintro s j a s' hs hroom hw ⟨hids, hfits, h⟩
    exact ⟨hids.step hs, hfits.step hs hroom hids, h.step hs hw hroom hids hfits⟩
  · refine ⟨idsInv_init cfg nowNs, ?_, ?_, ?_, ?_, ?_, ⟨[], [], rfl, ?_, ?_⟩⟩
    · simp [SubmittedFits, Observed.init, Pipeline.init]
    · simp [Observed.init]
    · simp [Observed.init]
    · simp [Observed.init]
    · simp [Observed.init, gwFill, Pipeline.init]
    · exact .nil
    · simp [waitingIds, fetchedId, sentId, Observed.init, Pipeline.init]

/-- The fills of two requests that overlap are handed over under the ids of their orders. -/
theorem attributed_twoRequests :
    (Observed.after wideLimits 0 twoRequests).journal.handed.map
        (fun fill => (fill.clientOrderId, fill.fillQty)) = [(1, 3), (2, 1)] ∧
      Attributed (Observed.after wideLimits 0 twoRequests).journal :=
  ⟨by decide +kernel, attributed_of_room wideLimits 0 twoRequests (by decide +kernel)⟩

/-! ## When the order pool is exhausted -/

/-- The OMS thread takes up `n` buys one after the other, and the gateway thread does not run. -/
def stalledBuys (n : ℕ) : List Action :=
  (List.range n).flatMap fun k => requestRound unitBuy (readingAt k)

/-- Every buy takes a slot of the order pool. -/
private lemma run_stalledBuys {cfg : Config} {n : ℕ} (hlets : Lets cfg n) {k : ℕ}
    (hk : k ≤ n) (hpool : k ≤ poolSize) (nowNs : ℤ) :
    (Transition.run step (.init cfg nowNs) (stalledBuys k)).Waiting ∧
      Admitting cfg k (Transition.run step (.init cfg nowNs) (stalledBuys k)).risk ∧
      (Transition.run step (.init cfg nowNs) (stalledBuys k)).oms.activeOrders = k := by
  induction k with
  | zero => exact ⟨waiting_init cfg nowNs, admitting_init cfg nowNs, rfl⟩
  | succ k ih =>
    obtain ⟨hwaiting, hrisk, hactive⟩ := ih (by omega) (by omega)
    have hsplit : stalledBuys (k + 1) = stalledBuys k ++ requestRound unitBuy (readingAt k) := by
      simp [stalledBuys, List.range_succ]
    obtain ⟨hbought, hrisk'⟩ := run_unitBuy hwaiting hrisk hlets (by omega) (by omega) (readingAt k)
    rw [hsplit, Transition.run_append]
    exact ⟨hbought.waiting, hrisk', hbought.activeOrders.trans (congrArg (· + 1) hactive)⟩

/-- A buy that finds the pool exhausted is sent without an order. -/
private lemma sends_of_full {cfg : Config} {k n : ℕ} {s : Pipeline} (h : s.Waiting)
    (hrisk : Admitting cfg k s.risk) (hlets : Lets cfg n) (hk : k < n)
    (hfull : s.oms.activeOrders = poolSize) (reading : Reading) :
    (Transition.run step s (submitRound unitBuy reading)).sends (.oms reading) =
      [⟨unitBuy, none, s.simGw.nextExchangeId⟩] := by
  have hnone := OMS.submit_of_full h.ids.store hfull unitBuy reading.rdtscNs
  have hw := (idsInv_run h.wired h.ids (submitRound unitBuy reading)).1
  have hrun := run_submit h (hrisk.check hlets hk reading.monotonicNs).1
  rw [hnone] at hrun
  rw [sends_of_submitted hw (by rw [hrun]), hrun]
  rfl

/-- After 65536 buys without a release the next one reaches the gateway without an order. -/
theorem not_attributed_exhausted :
    ¬Attributed (Observed.after wideLimits 0
      (stalledBuys 65536 ++ submitRound unitBuy (readingAt 65536) ++
        [.oms (readingAt 65536)])).journal := by
  have hlets : Lets wideLimits 100000 := by decide
  obtain ⟨hwaiting, hrisk, hactive⟩ := run_stalledBuys hlets (k := 65536) (by decide) le_rfl 0
  have hsend := sends_of_full hwaiting hrisk hlets (by decide) hactive (readingAt 65536)
  rw [← Transition.run_append, ← Observed.after_sys] at hsend
  intro h
  rw [Observed.after, Transition.run_concat] at h
  obtain ⟨o, horder, -⟩ := h.registered _ (List.mem_append_right _ (by
    rw [← Observed.after, hsend]
    exact List.mem_singleton_self _))
  cases horder

end FillAttribution

end QuantTrade

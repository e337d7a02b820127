import Mathlib.Algebra.Order.BigOperators.Group.List
import QuantTrade.Backtest.MatchingMarket
import QuantTrade.Backtest.OmsProtocol

/-!
# The quantity of an order in the backtest

The exchange fills the part of an order that the ratio says, cut down to an integer, and keeps the
rest.  When this part is less than one lot the order is dropped, and what was left of it is neither
filled nor held.  The quantities of all orders add up exactly when no quote finds an order that it
can fill and of which the ratio leaves less than one lot (`conserved_iff`).
-/

namespace QuantTrade

open Transition (run Admissible)
open OmsBacktest (DistinctIds)

namespace SimSession

/-- The fills of an order, in the order in which they were made. -/
def fillsOf (s : SimSession) (clientOrderId : ℕ) : List FillEvent :=
  (s.emitted.map Prod.snd).filter fun fill => fill.clientOrderId = clientOrderId

/-- What is in the queue of an order. -/
def entriesOf (s : SimSession) (clientOrderId : ℕ) : List PendingEntry :=
  s.exchange.pendingOrders.filter fun entry => entry.clientOrderId = clientOrderId

/-- The quantity that is held for orders. -/
def held (entries : List PendingEntry) : ℤ :=
  (entries.map fun entry => entry.req.qty).sum

/-- The quantity of an order is that of its fills and what is held for it, and its latest fill says
how much is held. -/
def Accounted (qty : ℤ) (fills : List FillEvent) (entries : List PendingEntry) : Prop :=
  qty = (fills.map FillEvent.fillQty).sum + held entries ∧
    ∀ latest ∈ fills.getLast?, latest.remainingQty = held entries

/-- Every fill is of one lot or more, and the quantity of every order is accounted for.  The orders
are numbered from 1 on as they are sent. -/
structure Conserved (s : SimSession) : Prop where
  one_le : ∀ p ∈ s.emitted, 1 ≤ p.2.fillQty
  accounted : ∀ k req, s.sent[k]? = some req →
    Accounted req.qty (s.fillsOf (k + 1)) (s.entriesOf (k + 1))

/-- Orders are for one lot or more. -/
def PositiveQty : SimCall → Prop
  | .sendNewOrder req => 0 < req.qty
  | _ => True

/-- Of every order that the quote can fill, the ratio leaves one lot or more. -/
def NoDust (s : SimSession) : SimCall → Prop
  | .processBbo bbo => bbo.isValidBbo = true → ∀ entry ∈ s.exchange.pendingOrders,
      s.exchange.canFill bbo entry.req = true → 1 ≤ s.exchange.scaled entry.req.qty
  | _ => True

/-! ## The part of an order -/

variable {s : SimSession} {bbo : BBOEvent} {entry : PendingEntry}

/-- A double is cut down to a positive integer when it is at least one. -/
lemma truncate_pos_iff {x : ℚ} : 0 < truncate x ↔ 1 ≤ x := by
  constructor
  · intro h
    have hone : (1 : ℚ) ≤ truncate x := by exact_mod_cast h
    exact hone.trans (truncate_le h)
  · intro h
    have hnum : 0 ≤ x.num := Rat.num_nonneg.mpr (zero_le_one.trans h)
    rw [truncate, Int.tdiv_eq_ediv_of_nonneg hnum, ← Rat.floor_def']
    exact Int.floor_pos.mpr h

/-- What becomes of an order of which one lot or more is filled, or nothing. -/
lemma Accounted.leftover {ratio : ℚ} {qty : ℤ} {fills : List FillEvent}
    (hscaled : s.exchange.scaled = exactScale ratio) (hpos : 0 < ratio) (hone : ratio ≤ 1)
    (hdust : s.exchange.canFill bbo entry.req = true → 1 ≤ s.exchange.scaled entry.req.qty)
    (h : Accounted qty fills [entry]) :
    Accounted qty
      (fills ++ ([entry].filter (s.exchange.executes bbo)).map (s.exchange.fillOf bbo))
      ([entry].filterMap (s.exchange.leftover bbo)) := by
  by_cases hcan : s.exchange.canFill bbo entry.req = true
  · have hfill : 0 < s.exchange.fillQty entry.req := truncate_pos_iff.mpr (hdust hcan)
    have hle := OmsBacktest.fillQty_le hscaled hpos hone hfill
    have hexec : s.exchange.executes bbo entry = true := by
      simp [SimExchange.executes, hcan, hfill]
    have hrest : held ([entry].filterMap (s.exchange.leftover bbo)) =
        entry.req.qty - s.exchange.fillQty entry.req := by
      by_cases hlt : s.exchange.fillQty entry.req < entry.req.qty
      · simp [held, SimExchange.leftover, hcan, hexec, hlt]
      · simp [held, SimExchange.leftover, hcan, hexec, hlt]
        omega
    have hfills : ([entry].filter (s.exchange.executes bbo)).map (s.exchange.fillOf bbo) =
        [s.exchange.fillOf bbo entry] := by simp [hexec]
    have hqty : qty = (fills.map FillEvent.fillQty).sum + (entry.req.qty + 0) := h.1
    rw [hfills]
    constructor
    · rw [hrest, List.map_append, List.sum_append, List.map_singleton, List.sum_singleton, hqty]
      simp only [SimExchange.fillOf]
      omega
    · intro latest hlatest
      rw [List.getLast?_concat, Option.mem_some_iff] at hlatest
      rw [← hlatest, hrest]
      rfl
  · have hexec : s.exchange.executes bbo entry = false := by simp [SimExchange.executes, hcan]
    have hsame : s.exchange.leftover bbo entry = some entry := if_pos hcan
    simpa [hexec, hsame] using h

/-! ## The queue of a quote, order by order -/

/-- An id is at most once in a queue of distinct orders. -/
lemma filter_clientOrderId {entries : List PendingEntry} (h : DistinctIds entries) (id : ℕ) :
    (entries.filter fun entry => entry.clientOrderId = id) = [] ∨
      ∃ entry ∈ entries, (entries.filter fun entry => entry.clientOrderId = id) = [entry] := by
  induction entries with
  | nil => exact Or.inl rfl
  | cons first entries ih =>
    obtain ⟨hfresh, hrest⟩ := List.nodup_cons.mp h
    by_cases hfirst : first.clientOrderId = id
    · have hnone : (entries.filter fun entry => entry.clientOrderId = id) = [] := by
        rw [List.filter_eq_nil_iff]
        intro other hother hid
        exact hfresh (List.mem_map.mpr ⟨other, hother, (of_decide_eq_true hid).trans hfirst.symm⟩)
      refine Or.inr ⟨first, List.mem_cons_self, ?_⟩
      rw [List.filter_cons, if_pos (decide_eq_true hfirst), hnone]
    · rw [List.filter_cons_of_neg (by simpa using hfirst)]
      rcases ih hrest with hnone | ⟨entry, hentry, hone⟩
      · exact Or.inl hnone
      · exact Or.inr ⟨entry, List.mem_cons_of_mem _ hentry, hone⟩

/-- What a valid quote leaves of an order, and its fills. -/
lemma entriesOf_processBbo (hvalid : bbo.isValidBbo = true) (id : ℕ) :
    (s.step (.processBbo bbo)).entriesOf id =
      (s.entriesOf id).filterMap (s.exchange.leftover bbo) := by
  simp only [entriesOf, step, SimExchange.processBbo_eq, hvalid, if_true]
  rw [List.filter_filterMap, List.filterMap_filter]
  refine List.filterMap_congr fun entry _ => ?_
  cases hrest : s.exchange.leftover bbo entry with
  | none => simp
  | some rest => simp [Option.filter, OmsBacktest.clientOrderId_leftover hrest]

lemma fillsOf_processBbo (hvalid : bbo.isValidBbo = true) (id : ℕ) :
    (s.step (.processBbo bbo)).fillsOf id =
      s.fillsOf id ++
        ((s.entriesOf id).filter (s.exchange.executes bbo)).map (s.exchange.fillOf bbo) := by
  rw [fillsOf, emitted_processBbo, List.map_append, List.filter_append, List.map_map,
    SimExchange.matched, if_pos hvalid, entriesOf, fillsOf]
  congr 1
  rw [List.filter_map, List.filter_filter, List.filter_filter]
  refine congrArg _ (List.filter_congr fun entry _ => ?_)
  exact Bool.and_comm ..

/-- A quote that is not valid changes nothing. -/
lemma step_of_not_valid (hvalid : ¬bbo.isValidBbo = true) : s.step (.processBbo bbo) = s := by
  have hexchange : s.exchange.processBbo bbo = s.exchange :=
    if_pos (by simpa using hvalid)
  simp [step, hexchange]

/-! ## The numbers of the orders -/

/-- The ids of the exchange number the orders from 1 on and tell them apart; what is in the queue of
an order is one lot or more. -/
structure Numbered (s : SimSession) : Prop where
  next : s.exchange.nextClientOrderId = s.sent.length + 1
  distinct : DistinctIds s.exchange.pendingOrders
  entry_id : ∀ entry ∈ s.exchange.pendingOrders, ∃ k < s.sent.length, entry.clientOrderId = k + 1
  fill_id : ∀ p ∈ s.emitted, ∃ k < s.sent.length, p.2.clientOrderId = k + 1
  qty_pos : ∀ entry ∈ s.exchange.pendingOrders, 0 < entry.req.qty

lemma numbered_init (slippageTicks : ℚ) (scaled : ℤ → ℚ) :
    (init slippageTicks scaled).Numbered where
  next := rfl
  distinct := List.nodup_nil
  entry_id := by simp [init, SimExchange.init]
  fill_id := by simp [init]
  qty_pos := by simp [init, SimExchange.init]

/-- An order is at most once in the queue. -/
lemma Numbered.entriesOf_cases (h : s.Numbered) (id : ℕ) :
    s.entriesOf id = [] ∨ ∃ entry ∈ s.exchange.pendingOrders, s.entriesOf id = [entry] :=
  filter_clientOrderId h.distinct id

/-- There is nothing of an order that was not sent yet. -/
lemma Numbered.next_fresh (h : s.Numbered) :
    s.entriesOf (s.sent.length + 1) = [] ∧ s.fillsOf (s.sent.length + 1) = [] := by
  constructor
  · refine List.filter_eq_nil_iff.mpr fun entry hentry => ?_
    obtain ⟨k, hk, hid⟩ := h.entry_id entry hentry
    rw [decide_eq_true_iff, hid]
    omega
  · refine List.filter_eq_nil_iff.mpr fun fill hfill => ?_
    obtain ⟨p, hp, rfl⟩ := List.mem_map.mp hfill
    obtain ⟨k, hk, hid⟩ := h.fill_id p hp
    rw [decide_eq_true_iff, hid]
    omega

/-- The next order gets the next number. -/
lemma Numbered.sendNewOrder (h : s.Numbered) {req : OrderRequest} (hqty : 0 < req.qty) :
    (s.step (.sendNewOrder req)).Numbered := by
  have hlength : (s.step (.sendNewOrder req)).sent.length = s.sent.length + 1 :=
    List.length_append
  have hnew : (s.exchange.newEntry req).clientOrderId = s.sent.length + 1 := h.next
  have hmem {entry : PendingEntry}
      (hentry : entry ∈ (s.step (.sendNewOrder req)).exchange.pendingOrders) :
      entry ∈ s.exchange.pendingOrders ∨ entry = s.exchange.newEntry req :=
    (List.mem_append.mp hentry).imp id List.mem_singleton.mp
  constructor
  · rw [hlength, ← h.next]
    rfl
  · change ((s.exchange.pendingOrders ++ [s.exchange.newEntry req]).map _).Nodup
    rw [List.map_append, List.map_singleton, hnew]
    refine List.nodup_append.mpr ⟨h.distinct, List.nodup_singleton _, ?_⟩
    rintro id hid _ hlast rfl
    obtain ⟨entry, hentry, rfl⟩ := List.mem_map.mp hid
    obtain ⟨k, hk, hentryId⟩ := h.entry_id entry hentry
    rw [List.mem_singleton] at hlast
    omega
  · intro entry hentry
    rw [hlength]
    rcases hmem hentry with hold | rfl
    · obtain ⟨k, hk, hid⟩ := h.entry_id entry hold
      exact ⟨k, by omega, hid⟩
    · exact ⟨s.sent.length, by omega, hnew⟩
  · intro p hp
    rw [hlength]
    obtain ⟨k, hk, hid⟩ := h.fill_id p hp
    exact ⟨k, by omega, hid⟩
  · intro entry hentry
    rcases hmem hentry with hold | rfl
    · exact h.qty_pos entry hold
    · exact hqty

/-- What is left of an order is one lot or more. -/
lemma qty_pos_leftover {rest : PendingEntry} (hqty : 0 < entry.req.qty)
    (h : s.exchange.leftover bbo entry = some rest) : 0 < rest.req.qty := by
  unfold SimExchange.leftover at h
  split_ifs at h with hcan hexec
  · obtain rfl := Option.some_inj.mp h
    exact Int.sub_pos.mpr hexec.2
  · obtain rfl := Option.some_inj.mp h
    exact hqty

/-- A quote keeps the numbers. -/
lemma Numbered.processBbo (h : s.Numbered) (hvalid : bbo.isValidBbo = true) :
    (s.step (.processBbo bbo)).Numbered := by
  have hpending : (s.step (.processBbo bbo)).exchange.pendingOrders =
      s.exchange.pendingOrders.filterMap (s.exchange.leftover bbo) := by
    simp only [step, SimExchange.processBbo_eq, hvalid, if_true]
  constructor
  · simp only [step, SimExchange.processBbo_eq, h.next]
  · rw [hpending]
    exact h.distinct.leftover bbo
  · intro rest hrest
    rw [hpending] at hrest
    obtain ⟨entry, hentry, hleft⟩ := List.mem_filterMap.mp hrest
    rw [OmsBacktest.clientOrderId_leftover hleft]
    exact h.entry_id entry hentry
  · intro p hp
    rw [emitted_processBbo] at hp
    rcases List.mem_append.mp hp with hold | hnew
    · exact h.fill_id p hold
    · obtain ⟨entry, hentry, rfl⟩ := List.mem_map.mp hnew
      exact h.entry_id entry (SimExchange.mem_matched.mp hentry).2.1
  · intro rest hrest
    rw [hpending] at hrest
    obtain ⟨entry, hentry, hleft⟩ := List.mem_filterMap.mp hrest
    exact qty_pos_leftover (h.qty_pos entry hentry) hleft

/-! ## Steps -/

/-- A new order is held as a whole. -/
lemma Conserved.sendNewOrder (h : s.Conserved) (hnumbered : s.Numbered) (req : OrderRequest) :
    (s.step (.sendNewOrder req)).Conserved := by
  refine ⟨h.one_le, fun k req' hreq => ?_⟩
  have hnew : (s.exchange.newEntry req).clientOrderId = s.sent.length + 1 := hnumbered.next
  have hentries : (s.step (.sendNewOrder req)).entriesOf (k + 1) = s.entriesOf (k + 1) ++
      [s.exchange.newEntry req].filter fun entry => entry.clientOrderId = k + 1 :=
    List.filter_append ..
  change (s.sent ++ [req])[k]? = some req' at hreq
  change Accounted req'.qty (s.fillsOf (k + 1)) _
  rw [hentries]
  rcases Nat.lt_trichotomy k s.sent.length with hold | rfl | hlate
  · rw [List.getElem?_append_left hold] at hreq
    have hother : ¬(s.exchange.newEntry req).clientOrderId = k + 1 := by omega
    simpa [hother] using h.accounted k req' hreq
  · obtain ⟨hnone, hunfilled⟩ := hnumbered.next_fresh
    have hone : ([s.exchange.newEntry req].filter fun entry =>
        entry.clientOrderId = s.sent.length + 1) = [s.exchange.newEntry req] := by simp [hnew]
    rw [List.getElem?_concat_length, Option.some_inj] at hreq
    rw [hnone, hunfilled, hone, ← hreq]
    simp [Accounted, held, SimExchange.newEntry]
  · rw [List.getElem?_eq_none (by simp; omega)] at hreq
    exact absurd hreq (by simp)

/-- A valid quote without dust accounts for all quantities. -/
lemma Conserved.processBbo {ratio : ℚ} (h : s.Conserved) (hnumbered : s.Numbered)
    (hscaled : s.exchange.scaled = exactScale ratio) (hpos : 0 < ratio) (hone : ratio ≤ 1)
    (hvalid : bbo.isValidBbo = true) (hdust : s.NoDust (.processBbo bbo)) :
    (s.step (.processBbo bbo)).Conserved := by
  constructor
  · intro p hp
    rw [emitted_processBbo] at hp
    rcases List.mem_append.mp hp with hold | hnew
    · exact h.one_le p hold
    · obtain ⟨entry, hentry, rfl⟩ := List.mem_map.mp hnew
      exact (SimExchange.mem_matched.mp hentry).2.2.2
  · intro k req hreq
    have haccounted := h.accounted k req hreq
    rw [fillsOf_processBbo hvalid, entriesOf_processBbo hvalid]
    rcases hnumbered.entriesOf_cases (k + 1) with hnone | ⟨entry, hentry, hself⟩
    · rw [hnone] at haccounted ⊢
      simpa using haccounted
    · rw [hself] at haccounted ⊢
      exact haccounted.leftover hscaled hpos hone (hdust hvalid entry hentry)

/-- Dust is neither filled nor held. -/
lemma Conserved.not_processBbo (h : s.Conserved) (hnumbered : s.Numbered)
    (hdust : ¬s.NoDust (.processBbo bbo)) : ¬(s.step (.processBbo bbo)).Conserved := by
  intro hnext
  simp only [NoDust, Classical.not_imp, not_forall] at hdust
  obtain ⟨hvalid, entry, hentry, hcan, hsmall⟩ := hdust
  obtain ⟨k, hk, hid⟩ := hnumbered.entry_id entry hentry
  have hself : s.entriesOf (k + 1) = [entry] := by
    have hmem : entry ∈ s.entriesOf (k + 1) :=
      List.mem_filter.mpr ⟨hentry, decide_eq_true hid⟩
    rcases hnumbered.entriesOf_cases (k + 1) with hnone | ⟨other, -, hone⟩
    · exact absurd (hnone ▸ hmem) List.not_mem_nil
    · rw [hone] at hmem ⊢
      rw [List.mem_singleton.mp hmem]
  have hnofill : ¬0 < s.exchange.fillQty entry.req :=
    fun hfill => hsmall (truncate_pos_iff.mp hfill)
  have hexec : s.exchange.executes bbo entry = false := by simp [SimExchange.executes, hnofill]
  have hdropped : s.exchange.leftover bbo entry = none := by
    simp [SimExchange.leftover, hcan, hexec]
  have hsent : s.sent[k]? = some s.sent[k] := List.getElem?_eq_getElem hk
  have hbefore := (h.accounted k _ hsent).1
  have hafter := (hnext.accounted k _ hsent).1
  rw [fillsOf_processBbo hvalid, entriesOf_processBbo hvalid] at hafter
  rw [hself] at hbefore hafter
  have hqty := hnumbered.qty_pos entry hentry
  simp [held, hexec, hdropped] at hbefore hafter
  omega

/-! ## Runs -/

/-- The invariant: the quantities are accounted for, and the orders are numbered. -/
structure Ledger (ratio : ℚ) (s : SimSession) : Prop where
  conserved : s.Conserved
  numbered : s.Numbered
  scaled : s.exchange.scaled = exactScale ratio

/-- A call that only takes a report away keeps the invariant. -/
lemma Ledger.congr {ratio : ℚ} {s' : SimSession} (h : s.Ledger ratio)
    (hpending : s'.exchange.pendingOrders = s.exchange.pendingOrders)
    (hnext : s'.exchange.nextClientOrderId = s.exchange.nextClientOrderId)
    (hscaled : s'.exchange.scaled = s.exchange.scaled) (hsent : s'.sent = s.sent)
    (hemitted : s'.emitted = s.emitted) : s'.Ledger ratio := by
  obtain ⟨⟨hone, haccounted⟩, ⟨hnumber, hdistinct, hentry, hfill, hqty⟩, hratio⟩ := h
  refine ⟨⟨?_, ?_⟩, ⟨?_, ?_, ?_, ?_, ?_⟩, ?_⟩
  all_goals simp only [fillsOf, entriesOf, hpending, hnext, hscaled, hsent, hemitted]
  all_goals assumption

/-- A call without dust keeps the invariant. -/
lemma Ledger.step {ratio : ℚ} (hpos : 0 < ratio) (hone : ratio ≤ 1) (h : s.Ledger ratio)
    {c : SimCall} (hqty : PositiveQty c) (hdust : s.NoDust c) : (s.step c).Ledger ratio := by
  cases c with
  | sendNewOrder req =>
    exact ⟨h.conserved.sendNewOrder h.numbered req, h.numbered.sendNewOrder hqty, h.scaled⟩
  | processBbo bbo =>
    by_cases hvalid : bbo.isValidBbo = true
    · refine ⟨h.conserved.processBbo h.numbered h.scaled hpos hone hvalid hdust,
        h.numbered.processBbo hvalid, ?_⟩
      simp only [SimSession.step, SimExchange.processBbo_eq, h.scaled]
    · rwa [step_of_not_valid hvalid]
  | popAck =>
    refine h.congr (SimExchange.pendingOrders_popAck _) (SimExchange.nextClientOrderId_popAck _)
      ?_ rfl rfl
    simp only [SimSession.step, SimExchange.popAck]
    split <;> rfl
  | popFill =>
    refine h.congr (SimExchange.pendingOrders_popFill _) (SimExchange.nextClientOrderId_popFill _)
      ?_ rfl rfl
    simp only [SimSession.step, SimExchange.popFill]
    split <;> rfl

/-- **Conservation of quantity.**  For every exact fill ratio up to 1 and every run of a new
exchange with orders for one lot or more, each order's quantity is that of its fills and what is
held for it, each fill is of one lot or more, and the latest fill of an order says what is held for
it, at every point of the run, exactly when no valid quote can fill an order of which the ratio
leaves less than one lot. -/
theorem conserved_iff (slippageTicks : ℚ) {ratio : ℚ} (hpos : 0 < ratio) (hone : ratio ≤ 1)
    {calls : List SimCall} (hqty : ∀ c ∈ calls, PositiveQty c) :
    (∀ part, part <+: calls →
        (run step (init slippageTicks (exactScale ratio)) part).Conserved) ↔
      Admissible step NoDust (init slippageTicks (exactScale ratio)) calls := by
  apply Transition.forall_prefix_iff_admissible (C := fun _ c => PositiveQty c) (P := Ledger ratio)
  · exact fun _ h => h.conserved
  · exact fun _ _ hc hdust h => h.step hpos hone hc hdust
  · rintro s c - hdust h
    cases c with
    | processBbo bbo => exact h.conserved.not_processBbo h.numbered hdust
    | sendNewOrder req => exact absurd trivial hdust
    | popAck => exact absurd trivial hdust
    | popFill => exact absurd trivial hdust
  · exact Transition.admissible_of_forall step (fun c hc _ => hqty c hc) _
  · exact ⟨⟨by simp [init], by simp [init]⟩, numbered_init .., rfl⟩

/-- The rule for an order of two lots, of which a half is filled. -/
theorem conserved_iff_half :
    let calls : List SimCall := [.sendNewOrder { type := .market, qty := 2 },
      .processBbo { bidPx := 99, askPx := 100 }]
    (∀ part, part <+: calls →
        (run step (init 0 (exactScale (1 / 2))) part).Conserved) ↔
      Admissible step NoDust (init 0 (exactScale (1 / 2))) calls :=
  conserved_iff 0 (by norm_num) (by norm_num) (by simp [PositiveQty])

/-- The last lot of an order vanishes when a half of it is to be filled. -/
theorem not_conserved_lastLot :
    ¬∀ (slippageTicks ratio : ℚ), 0 < ratio → ratio ≤ 1 → ∀ calls : List SimCall,
      (∀ c ∈ calls, PositiveQty c) →
        (run step (init slippageTicks (exactScale ratio)) calls).Conserved := by
  intro h
  have hconserved := h 0 (1 / 2) (by norm_num) (by norm_num)
    [.sendNewOrder { type := .market, qty := 2 }, .processBbo { bidPx := 99, askPx := 100 },
      .processBbo { bidPx := 99, askPx := 100 }] (by simp [PositiveQty])
  obtain ⟨hqty, -⟩ := hconserved.accounted 0 { type := .market, qty := 2 } rfl
  exact absurd hqty (by decide +kernel)

end SimSession

end QuantTrade

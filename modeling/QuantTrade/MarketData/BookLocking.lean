import QuantTrade.Library.CriticalSection
import QuantTrade.MarketData.OrderBook

/-!
# The order book under its spin lock

The member functions of `src/market_data/order_book.cpp` with every load and store of a word as an
access of its own, called by any number of threads.  Each of them constructs a `SpinGuard`, which
sets the flag of the book, and destroys it on return.  Run alone, a function does what its model in
`OrderBook` does at once (`exec_code`).
-/

namespace QuantTrade

namespace OrderBook

/-! ## Loads and stores -/

/-- Stores to a level of the bids. -/
def setBid (i : Fin maxLevels) (f : PriceLevel → PriceLevel) (b : OrderBook) : OrderBook :=
  { b with bids := b.bids.set i (f (b.bids.get i)) }

/-- Stores to a level of the asks. -/
def setAsk (i : Fin maxLevels) (f : PriceLevel → PriceLevel) (b : OrderBook) : OrderBook :=
  { b with asks := b.asks.set i (f (b.asks.get i)) }

/-- Stores the number of bids. -/
def setBidCount (n : ℕ) (h : n ≤ maxLevels) (b : OrderBook) : OrderBook :=
  { b with bidCount := n, bidCount_le := h }

/-- Stores the number of asks. -/
def setAskCount (n : ℕ) (h : n ≤ maxLevels) (b : OrderBook) : OrderBook :=
  { b with askCount := n, askCount_le := h }

/-- An assignment to a level of the bids: its two words. -/
def storeBid (i : Fin maxLevels) (l : PriceLevel) : AtomicProgram OrderBook PUnit := do
  .write (setBid i fun old => { old with price := l.price })
  .write (setBid i fun old => { old with qty := l.qty })

/-- An assignment to a level of the asks: its two words. -/
def storeAsk (i : Fin maxLevels) (l : PriceLevel) : AtomicProgram OrderBook PUnit := do
  .write (setAsk i fun old => { old with price := l.price })
  .write (setAsk i fun old => { old with qty := l.qty })

/-- A copy of a level of the bids: its two words. -/
def loadBid (i : Fin maxLevels) : AtomicProgram OrderBook PriceLevel := do
  let price ← .read fun b => (b.bids.get i).price
  let qty ← .read fun b => (b.bids.get i).qty
  return ⟨price, qty⟩

/-- A copy of a level of the asks: its two words. -/
def loadAsk (i : Fin maxLevels) : AtomicProgram OrderBook PriceLevel := do
  let price ← .read fun b => (b.asks.get i).price
  let qty ← .read fun b => (b.asks.get i).qty
  return ⟨price, qty⟩

lemma marketDepth_le : marketDepth ≤ maxLevels := by
  decide

lemma maxLevels_pos : 0 < maxLevels := by
  decide

/-- The level `i` of an event, in the arrays of the book. -/
def level (i : Fin marketDepth) : Fin maxLevels :=
  i.castLE marketDepth_le

/-- The best level of a side. -/
def best : Fin maxLevels :=
  ⟨0, maxLevels_pos⟩

/-- The indices `0` to `n - 1` of the levels of an event. -/
def levels (n : ℕ) : List (Fin marketDepth) :=
  (List.finRange marketDepth).take n

/-! ## The functions -/

/-- The body of `apply_bbo`. -/
def applyBboCode (e : BBOEvent) : AtomicProgram OrderBook PUnit := do
  storeBid best ⟨e.bidPx, e.bidQty⟩
  storeAsk best ⟨e.askPx, e.askQty⟩
  let bidCount ← .read bidCount
  if bidCount = 0 then .write (setBidCount 1 maxLevels_pos) else pure ⟨⟩
  let askCount ← .read askCount
  if askCount = 0 then .write (setAskCount 1 maxLevels_pos) else pure ⟨⟩

lemma clampCount_le (levels : ℕ) : clampCount levels ≤ maxLevels := by
  unfold clampCount
  split_ifs with h
  · exact h
  · exact le_rfl

/-- Stores the number of bids of an event. -/
def setBidLevels (levels : ℕ) (b : OrderBook) : OrderBook :=
  setBidCount (clampCount levels) (clampCount_le levels) b

/-- Stores the number of asks of an event. -/
def setAskLevels (levels : ℕ) (b : OrderBook) : OrderBook :=
  setAskCount (clampCount levels) (clampCount_le levels) b

/-- The body of `apply_depth`; the event is not shared. -/
def applyDepthCode (e : DepthEvent) : AtomicProgram OrderBook PUnit := do
  forM (levels (clampCount e.bidLevels)) fun i => storeBid (level i) (e.bids.get i)
  forM (levels (clampCount e.askLevels)) fun i => storeAsk (level i) (e.asks.get i)
  .write (setBidLevels e.bidLevels)
  .write (setAskLevels e.askLevels)

/-- The body of `snapshot_bbo`. -/
def snapshotBboCode : AtomicProgram OrderBook BBOEvent := do
  let instrumentId ← .read instrumentId
  let bidCount ← .read bidCount
  let bid ← if bidCount > 0 then loadBid best else pure {}
  let askCount ← .read askCount
  let ask ← if askCount > 0 then loadAsk best else pure {}
  return {
    instrumentId := instrumentId
    type := .bboUpdate
    bidPx := bid.price
    bidQty := bid.qty
    askPx := ask.price
    askQty := ask.qty }

/-- The body of `snapshot_depth`: the levels are copied into an event that holds zeros. -/
def snapshotDepthCode : AtomicProgram OrderBook DepthEvent := do
  let instrumentId ← .read instrumentId
  let bidCount ← .read bidCount
  let askCount ← .read askCount
  let bids ← (levels (depthCount bidCount)).foldlM
    (fun bids i => do
      let l ← loadBid (level i)
      return bids.set i l)
    (Vector.replicate marketDepth {})
  let asks ← (levels (depthCount askCount)).foldlM
    (fun asks i => do
      let l ← loadAsk (level i)
      return asks.set i l)
    (Vector.replicate marketDepth {})
  return {
    tsNs := 0
    instrumentId := instrumentId
    bidLevels := depthCount bidCount
    askLevels := depthCount askCount
    bids := bids
    asks := asks
    bidLevels_le := depthCount_eq_min bidCount ▸ min_le_right ..
    askLevels_le := depthCount_eq_min askCount ▸ min_le_right .. }

/-- The condition of `mid_price` and `spread`, whose parts are evaluated from left to right up to
the first that fails. -/
def quotedCode : AtomicProgram OrderBook Bool := do
  let bidCount ← .read bidCount
  if bidCount > 0 then
    let askCount ← .read askCount
    if askCount > 0 then
      let bidPx ← .read fun b => b.bid₀.price
      if bidPx > 0 then
        let askPx ← .read fun b => b.ask₀.price
        return decide (askPx > 0)
      else return false
    else return false
  else return false

/-- The body of `mid_price`. -/
def midPriceCode : AtomicProgram OrderBook ℤ := do
  let quoted ← quotedCode
  if quoted then
    let bidPx ← .read fun b => b.bid₀.price
    let askPx ← .read fun b => b.ask₀.price
    return (bidPx + askPx).tdiv 2
  else return 0

/-- The body of `spread`. -/
def spreadCode : AtomicProgram OrderBook ℤ := do
  let quoted ← quotedCode
  if quoted then
    let askPx ← .read fun b => b.ask₀.price
    let bidPx ← .read fun b => b.bid₀.price
    return askPx - bidPx
  else return 0

/-- The body of `is_crossed`. -/
def isCrossedCode : AtomicProgram OrderBook Bool := do
  let bidCount ← .read bidCount
  if bidCount > 0 then
    let askCount ← .read askCount
    if askCount > 0 then
      let bidPx ← .read fun b => b.bid₀.price
      let askPx ← .read fun b => b.ask₀.price
      return decide (bidPx ≥ askPx)
    else return false
  else return false

/-! ## Calls -/

/-- A call of a member function that takes the lock. -/
inductive Call where
  | applyBbo (e : BBOEvent)
  | applyDepth (e : DepthEvent)
  | snapshotBbo
  | snapshotDepth
  | midPrice
  | spread
  | isCrossed
  deriving DecidableEq

/-- What a call returns. -/
inductive Answer where
  | none
  | bbo (e : BBOEvent)
  | depth (e : DepthEvent)
  | price (p : ℤ)
  | flag (b : Bool)
  deriving DecidableEq

/-- What is executed between the two ends of the guard. -/
def Call.code : Call → AtomicProgram OrderBook Answer
  | .applyBbo e => do
    applyBboCode e
    return .none
  | .applyDepth e => do
    applyDepthCode e
    return .none
  | .snapshotBbo => do
    let e ← snapshotBboCode
    return .bbo e
  | .snapshotDepth => do
    let e ← snapshotDepthCode
    return .depth e
  | .midPrice => do
    let p ← midPriceCode
    return .price p
  | .spread => do
    let p ← spreadCode
    return .price p
  | .isCrossed => do
    let b ← isCrossedCode
    return .flag b

/-- What a call does to the book, and returns, when it happens at once. -/
def Call.perform : Call → OrderBook → OrderBook × Answer
  | .applyBbo e, b => (b.applyBbo e, .none)
  | .applyDepth e, b => (b.applyDepth e, .none)
  | .snapshotBbo, b => (b, .bbo b.snapshotBbo)
  | .snapshotDepth, b => (b, .depth b.snapshotDepth)
  | .midPrice, b => (b, .price b.midPrice)
  | .spread, b => (b, .price b.spread)
  | .isCrossed, b => (b, .flag b.isCrossed)

/-! ## The functions on their own -/

lemma mem_levels {n : ℕ} {i : Fin marketDepth} : i ∈ levels n ↔ i.val < n := by
  rw [levels, List.mem_take_iff_getElem]
  simp only [List.getElem_finRange, List.length_finRange, lt_min_iff]
  constructor
  · rintro ⟨j, ⟨hn, -⟩, rfl⟩
    exact hn
  · intro h
    exact ⟨i.val, ⟨h, i.isLt⟩, rfl⟩

/-- A loop that assigns to some elements leaves the others. -/
lemma get_foldl_set_of_notMem {α ε : Type} {n : ℕ} (index : ε → Fin n) (value : ε → α)
    (es : List ε) (v : Vector α n) {j : Fin n} (hj : j ∉ es.map index) :
    (es.foldl (fun v e => v.set (index e) (value e)) v).get j = v.get j := by
  induction es generalizing v with
  | nil => rfl
  | cons e es ih =>
    rw [List.map_cons, List.mem_cons, not_or] at hj
    rw [List.foldl_cons, ih _ hj.2]
    exact Vector.getElem_set_ne _ _ fun h => hj.1 (Fin.ext h.symm)

/-- A loop that assigns to elements at different indices assigns each its value. -/
lemma get_foldl_set_of_mem {α ε : Type} [DecidableEq ε] {n : ℕ} {index : ε → Fin n}
    (hinj : Function.Injective index) (value : ε → α) {es : List ε} (v : Vector α n) {e : ε}
    (he : e ∈ es) :
    (es.foldl (fun v e => v.set (index e) (value e)) v).get (index e) = value e := by
  induction es generalizing v with
  | nil => exact absurd he List.not_mem_nil
  | cons e' es ih =>
    rw [List.foldl_cons]
    by_cases hmem : e ∈ es
    · exact ih _ hmem
    · obtain rfl : e = e' := (List.mem_cons.mp he).resolve_right hmem
      rw [get_foldl_set_of_notMem _ _ _ _ (by rwa [List.mem_map_of_injective hinj])]
      exact Vector.getElem_set_self _

lemma level_injective : Function.Injective level :=
  fun _ _ h => Fin.ext (show (level _).val = (level _).val from congrArg Fin.val h)

/-- The loop of `apply_depth` over one side. -/
lemma foldl_levels_eq_writeLevels (v : Vector PriceLevel maxLevels)
    (source : Vector PriceLevel marketDepth) {n : ℕ} (hn : n ≤ marketDepth) :
    (levels n).foldl (fun v i => v.set (level i) (source.get i)) v =
      writeLevels v source n hn := by
  apply Vector.ext
  intro j hj
  change Vector.get _ ⟨j, hj⟩ = Vector.get _ ⟨j, hj⟩
  rw [writeLevels, get_ofFn]
  split_ifs with hjn
  · have hmem : (⟨j, hjn.trans_le hn⟩ : Fin marketDepth) ∈ levels n := mem_levels.mpr hjn
    exact get_foldl_set_of_mem level_injective _ v hmem
  · apply get_foldl_set_of_notMem
    rw [List.mem_map]
    rintro ⟨i, hi, hij⟩
    have hval : i.val = j := congrArg Fin.val hij
    exact hjn (hval ▸ mem_levels.mp hi)

/-- The loop of `snapshot_depth` over one side. -/
lemma foldl_levels_eq_readLevels (v : Vector PriceLevel maxLevels) (n : ℕ) :
    (levels n).foldl (fun w i => w.set i (v.get (level i))) (Vector.replicate marketDepth {}) =
      readLevels v n := by
  apply Vector.ext
  intro j hj
  change Vector.get _ ⟨j, hj⟩ = Vector.get _ ⟨j, hj⟩
  rw [readLevels, get_ofFn]
  split_ifs with hjn
  · exact get_foldl_set_of_mem Function.injective_id _ _ (mem_levels.mpr hjn)
  · have hnot : (⟨j, hj⟩ : Fin marketDepth) ∉ (levels n).map id := by
      rw [List.map_id]
      exact fun h => hjn (mem_levels.mp h)
    exact (get_foldl_set_of_notMem id _ _ _ hnot).trans (Vector.getElem_replicate _)

/-- Two stores to the words of a level are one to the level. -/
lemma set_set_level (v : Vector PriceLevel maxLevels) (i : Fin maxLevels) (l : PriceLevel) :
    (v.set i { v.get i with price := l.price }).set i
      { (v.set i { v.get i with price := l.price }).get i with qty := l.qty } = v.set i l := by
  have hget (l' : PriceLevel) : (v.set i l').get i = l' := Vector.getElem_set_self _
  rw [hget, Vector.set_set]

@[simp] lemma exec_storeBid (i : Fin maxLevels) (l : PriceLevel) (b : OrderBook) :
    (storeBid i l).exec b = ({ b with bids := b.bids.set i l }, ⟨⟩) :=
  congrArg (fun v => (({ b with bids := v } : OrderBook), PUnit.unit)) (set_set_level b.bids i l)

@[simp] lemma exec_storeAsk (i : Fin maxLevels) (l : PriceLevel) (b : OrderBook) :
    (storeAsk i l).exec b = ({ b with asks := b.asks.set i l }, ⟨⟩) :=
  congrArg (fun v => (({ b with asks := v } : OrderBook), PUnit.unit)) (set_set_level b.asks i l)

@[simp] lemma exec_loadBid (i : Fin maxLevels) (b : OrderBook) :
    (loadBid i).exec b = (b, b.bids.get i) := rfl

@[simp] lemma exec_loadAsk (i : Fin maxLevels) (b : OrderBook) :
    (loadAsk i).exec b = (b, b.asks.get i) := rfl

/-- The loop of `apply_depth` over the bids, which leaves the rest of the book. -/
lemma exec_storeBids (source : Vector PriceLevel marketDepth) {n : ℕ} (hn : n ≤ marketDepth)
    (b : OrderBook) :
    (forM (levels n) fun i => storeBid (level i) (source.get i)).exec b =
      ({ b with bids := writeLevels b.bids source n hn }, ⟨⟩) := by
  rw [AtomicProgram.exec_forM, ← foldl_levels_eq_writeLevels]
  simp only [exec_storeBid]
  generalize levels n = is
  congr 1
  induction is generalizing b with
  | nil => rfl
  | cons i is ih => exact ih { b with bids := b.bids.set (level i) (source.get i) }

/-- The loop of `apply_depth` over the asks, which leaves the rest of the book. -/
lemma exec_storeAsks (source : Vector PriceLevel marketDepth) {n : ℕ} (hn : n ≤ marketDepth)
    (b : OrderBook) :
    (forM (levels n) fun i => storeAsk (level i) (source.get i)).exec b =
      ({ b with asks := writeLevels b.asks source n hn }, ⟨⟩) := by
  rw [AtomicProgram.exec_forM, ← foldl_levels_eq_writeLevels]
  simp only [exec_storeAsk]
  generalize levels n = is
  congr 1
  induction is generalizing b with
  | nil => rfl
  | cons i is ih => exact ih { b with asks := b.asks.set (level i) (source.get i) }

/-- A loop of `snapshot_depth` leaves the book and copies the levels `v`. -/
lemma exec_loads (load : Fin maxLevels → AtomicProgram OrderBook PriceLevel)
    (v : Vector PriceLevel maxLevels) (n : ℕ) (b : OrderBook)
    (hload : ∀ i, (load i).exec b = (b, v.get i)) :
    ((levels n).foldlM
        (fun (w : Vector PriceLevel marketDepth) i => do
          let l ← load (level i)
          return w.set i l)
        (Vector.replicate marketDepth {})).exec b = (b, readLevels v n) := by
  rw [AtomicProgram.exec_foldlM, ← foldl_levels_eq_readLevels]
  simp only [AtomicProgram.exec_bind, AtomicProgram.exec_pure]
  generalize levels n = is
  generalize Vector.replicate marketDepth ({} : PriceLevel) = w
  induction is generalizing w with
  | nil => rfl
  | cons i is ih =>
    rw [List.foldl_cons, List.foldl_cons, ← ih, hload]

lemma exec_applyBboCode (e : BBOEvent) (b : OrderBook) :
    (applyBboCode e).exec b = (b.applyBbo e, ⟨⟩) := by
  simp only [applyBboCode, AtomicProgram.exec_bind, exec_storeBid, exec_storeAsk,
    AtomicProgram.exec_read]
  by_cases hbid : b.bidCount = 0 <;> by_cases hask : b.askCount = 0 <;>
    simp [hbid, hask, applyBbo, setBidCount, setAskCount, best]

lemma exec_applyDepthCode (e : DepthEvent) (b : OrderBook) :
    (applyDepthCode e).exec b = (b.applyDepth e, ⟨⟩) := by
  have hbids := (clampCount_eq e.bidLevels_le).trans_le e.bidLevels_le
  have hasks := (clampCount_eq e.askLevels_le).trans_le e.askLevels_le
  simp only [applyDepthCode, AtomicProgram.exec_bind, exec_storeBids e.bids hbids,
    exec_storeAsks e.asks hasks, AtomicProgram.exec_write]
  rfl

lemma exec_snapshotBboCode (b : OrderBook) : snapshotBboCode.exec b = (b, b.snapshotBbo) := by
  simp only [snapshotBboCode, AtomicProgram.exec_bind, AtomicProgram.exec_read]
  by_cases hbid : 0 < b.bidCount <;> by_cases hask : 0 < b.askCount <;>
    simp [hbid, hask, snapshotBbo, bid₀, ask₀, best]

lemma exec_snapshotDepthCode (b : OrderBook) :
    snapshotDepthCode.exec b = (b, b.snapshotDepth) := by
  simp only [snapshotDepthCode, AtomicProgram.exec_bind, AtomicProgram.exec_read]
  rw [exec_loads loadBid b.bids _ b fun i => exec_loadBid i b]
  simp only
  rw [exec_loads loadAsk b.asks _ b fun i => exec_loadAsk i b]
  rfl

/-- The condition that `mid_price` and `spread` check. -/
lemma exec_quotedCode (b : OrderBook) :
    quotedCode.exec b =
      (b, decide (b.bidCount > 0 ∧ b.askCount > 0 ∧ b.bid₀.price > 0 ∧ b.ask₀.price > 0)) := by
  by_cases hbid : b.bidCount > 0
  · by_cases hask : b.askCount > 0
    · by_cases hbidPx : b.bid₀.price > 0
      · by_cases haskPx : b.ask₀.price > 0 <;> simp [quotedCode, hbid, hask, hbidPx, haskPx]
      · simp [quotedCode, hbid, hask, hbidPx]
    · simp [quotedCode, hbid, hask]
  · simp [quotedCode, hbid]

lemma exec_midPriceCode (b : OrderBook) : midPriceCode.exec b = (b, b.midPrice) := by
  rw [midPriceCode, AtomicProgram.exec_bind, exec_quotedCode, midPrice]
  split_ifs with h h' h'
  · rfl
  · exact absurd (of_decide_eq_true h) h'
  · exact absurd (decide_eq_true h') h
  · rfl

lemma exec_spreadCode (b : OrderBook) : spreadCode.exec b = (b, b.spread) := by
  rw [spreadCode, AtomicProgram.exec_bind, exec_quotedCode, spread]
  split_ifs with h h' h'
  · rfl
  · exact absurd (of_decide_eq_true h) h'
  · exact absurd (decide_eq_true h') h
  · rfl

lemma exec_isCrossedCode (b : OrderBook) : isCrossedCode.exec b = (b, b.isCrossed) := by
  by_cases hbid : b.bidCount > 0
  · by_cases hask : b.askCount > 0
    · by_cases hprice : b.bid₀.price ≥ b.ask₀.price <;>
        simp [isCrossedCode, isCrossed, hbid, hask, hprice]
    · simp [isCrossedCode, isCrossed, hbid, hask]
  · simp [isCrossedCode, isCrossed, hbid]

/-- Run alone, a function does what it does at once. -/
lemma exec_code (call : Call) (b : OrderBook) : call.code.exec b = call.perform b := by
  cases call with
  | applyBbo e => rw [Call.code, AtomicProgram.exec_bind, exec_applyBboCode]; rfl
  | applyDepth e => rw [Call.code, AtomicProgram.exec_bind, exec_applyDepthCode]; rfl
  | snapshotBbo => rw [Call.code, AtomicProgram.exec_bind, exec_snapshotBboCode]; rfl
  | snapshotDepth => rw [Call.code, AtomicProgram.exec_bind, exec_snapshotDepthCode]; rfl
  | midPrice => rw [Call.code, AtomicProgram.exec_bind, exec_midPriceCode]; rfl
  | spread => rw [Call.code, AtomicProgram.exec_bind, exec_spreadCode]; rfl
  | isCrossed => rw [Call.code, AtomicProgram.exec_bind, exec_isCrossedCode]; rfl

/-! ## Any number of threads -/

/-- The threads `ι` with the book of the instrument `id`, after the steps `as` in the order in which
the threads take them; a thread that is not in a call makes the call that comes with its step. -/
def threads {ι : Type} [DecidableEq ι] (id : ℕ) (as : List (ι × Call)) :
    Interleaving.Config (CriticalSection.Guarded OrderBook ι Call Answer) ι
      (CriticalSection.Client OrderBook Call Answer) :=
  CriticalSection.run Call.code (init id) as

/-- **The book is linearizable.**  In every interleaving of the loads and stores of any number of
threads, the calls appear to happen at once, in the order in which they clear the flag.  Each answer
is the one of the whole calls before it, so no snapshot shows half of an update; the order has every
thread's calls as it made them; it only grows at its end; and no call can be blocked for ever. -/
theorem linearizable {ι : Type} [DecidableEq ι] (id : ℕ) (as : List (ι × Call)) :
    CriticalSection.Linearized Call.perform (init id) (threads id as) ∧
      (∀ bs, (threads id as).shared.log <+: (threads id (as ++ bs)).shared.log) ∧
      (∀ t t', ((threads id as).locals t).Inside → ((threads id as).locals t').Inside → t = t') ∧
      ∀ t, ∃ bs, ((threads id (as ++ bs)).locals t).place = .outside := by
  refine ⟨?_, ?_, ?_, ?_⟩
  · exact CriticalSection.linearized_run exec_code (init id) as
  · exact CriticalSection.log_prefix Call.code (init id) as
  · intro t t' ht ht'
    exact CriticalSection.exclusive_run Call.code (init id) as ht ht'
  · intro t
    exact CriticalSection.exists_return Call.code (init id) as t .snapshotBbo

end OrderBook

end QuantTrade

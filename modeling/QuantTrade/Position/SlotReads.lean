import QuantTrade.Position.PnlCalculator

/-!
# Reading a slot while fills are applied

`PositionManager::on_fill` of `src/position/position_manager.cpp` and
`PnlCalculator::calc_unrealized_pnl` of `src/position/pnl_calculator.cpp`, one atomic load or store
at a time: one thread applies fills, another one computes the unrealized profit of an instrument.

`on_fill` stores `net_qty` last, so the quantity that a call loads is always that of a position
after whole fills (`WriterInv.netQty_eq`).  Its cost is loaded afterwards, and by then the next fill
may have stored another one.  A call is answered for a position that there was exactly as long as
the cost has not been changed since the quantity it loaded was stored (`consistent_run`,
`not_consistent_of_disturbed`).
-/

namespace QuantTrade

namespace SlotReads

open PositionManager PnlCalculator Transition

/-! ## The writer -/

/-- What `on_fill` stores in a slot before it stores `net_qty`. -/
inductive Store where
  | avgCost (price : ℤ)
  /-- `fetch_add` of the realized profit. -/
  | realizedPnl (pnlDelta : ℤ)
  deriving DecidableEq, Repr

/-- One store. -/
def Store.perform (slot : Slot) : Store → Slot
  | .avgCost price => { slot with avgCost := price }
  | .realizedPnl pnlDelta => { slot with realizedPnl := slot.realizedPnl + pnlDelta }

/-- The stores that `on_fill` still has to make: some of them, and then that of `net_qty`. -/
structure Update where
  stores : List Store
  newQty : ℤ
  deriving DecidableEq, Repr

/-- All the stores of an update. -/
def Update.perform (slot : Slot) (u : Update) : Slot :=
  { u.stores.foldl Store.perform slot with netQty := u.newQty }

/-- The stores of `on_fill`, from what it loaded. -/
def update (fill : FillEvent) (curQty curAvg : ℤ) : Update :=
  let fillQty := fill.fillQty
  let fillPx := fill.fillPrice
  match fill.side with
  | .buy =>
    let newQty := curQty + fillQty
    if curQty ≥ 0 then
      -- A: flat or long, the position grows
      let newAvg := if newQty > 0 then (curAvg * curQty + fillPx * fillQty).tdiv newQty else 0
      ⟨[.avgCost newAvg], newQty⟩
    else
      -- B: short, the fill closes
      let absShort := -curQty
      let closeQty := if fillQty ≤ absShort then fillQty else absShort
      let pnlDelta := (curAvg - fillPx) * closeQty
      if newQty > 0 then ⟨[.realizedPnl pnlDelta, .avgCost fillPx], newQty⟩
      else if newQty = 0 then ⟨[.realizedPnl pnlDelta, .avgCost 0], newQty⟩
      else ⟨[.realizedPnl pnlDelta], newQty⟩
  | .sell =>
    let newQty := curQty - fillQty
    if curQty ≤ 0 then
      -- C: flat or short, the position grows
      let newAvg :=
        if newQty < 0 then
          let absNew := -newQty
          let absCur := -curQty
          (curAvg * absCur + fillPx * fillQty).tdiv absNew
        else 0
      ⟨[.avgCost newAvg], newQty⟩
    else
      -- D: long, the fill closes
      let closeQty := if fillQty ≤ curQty then fillQty else curQty
      let pnlDelta := (fillPx - curAvg) * closeQty
      if newQty < 0 then ⟨[.realizedPnl pnlDelta, .avgCost fillPx], newQty⟩
      else if newQty = 0 then ⟨[.realizedPnl pnlDelta, .avgCost 0], newQty⟩
      else ⟨[.realizedPnl pnlDelta], newQty⟩

/-- The stores of a fill, all together, are what `on_fill` does to the slot. -/
lemma perform_update (slot : Slot) (fill : FillEvent) :
    (update fill slot.netQty slot.avgCost).perform slot = slot.onFill fill := by
  unfold update Slot.onFill
  dsimp only
  cases fill.side <;> dsimp only <;> split_ifs <;> rfl

/-- No store before the last one changes the quantity. -/
@[simp] lemma netQty_perform (slot : Slot) (store : Store) :
    (store.perform slot).netQty = slot.netQty := by
  cases store <;> rfl

/-- Where the thread that applies fills is: before a fill, before it loads `avg_cost`, or before a
store. -/
inductive Writer where
  | idle
  | loadAvgCost (fill : FillEvent) (curQty : ℤ)
  | storing (fill : FillEvent) (u : Update)

/-! ## The reader -/

/-- Where the thread that calls `calc_unrealized_pnl` is.  How many fills had been applied when the
call began, and when it loaded `net_qty`, is kept for the statements. -/
inductive Reader where
  | idle
  | loadNetQty (id : ℕ) (mark : ℤ) (since : ℕ)
  | loadAvgCost (id : ℕ) (mark : ℤ) (since : ℕ) (netQty : ℤ) (version : ℕ)

/-- A call that has returned: its arguments and its value, how many fills had been applied when it
began, and the fills that have been applied when it returned. -/
structure Answer where
  id : ℕ
  mark : ℤ
  value : ℤ
  since : ℕ
  applied : List FillEvent
  deriving DecidableEq

/-- The value of `calc_unrealized_pnl`, from what it loaded. -/
def unrealizedPnl (mark netQty avgCost : ℤ) : ℤ :=
  if netQty = 0 then 0 else (mark - avgCost) * netQty

/-- The slots, the two threads, the fills that have been applied, and the calls that have
returned. -/
structure System where
  pm : PositionManager
  writer : Writer
  reader : Reader
  applied : List FillEvent
  returned : List Answer

/-- Nothing has happened yet. -/
def start : System where
  pm := init
  writer := .idle
  reader := .idle
  applied := []
  returned := []

/-- A slot gets a new content. -/
def setSlot (pm : PositionManager) (id : ℕ) (slot : Slot) : PositionManager where
  slots := Function.update pm.slots id slot

lemma slots_setSlot_self (pm : PositionManager) (id : ℕ) (slot : Slot) :
    (setSlot pm id slot).slots id = slot :=
  Function.update_self _ _ _

lemma slots_setSlot_of_ne (pm : PositionManager) {id i : ℕ} (slot : Slot) (hi : i ≠ id) :
    (setSlot pm id slot).slots i = pm.slots i :=
  Function.update_of_ne hi _ _

/-- What can happen next: `on_fill` is called and makes its first load, it makes its next load or
store, `calc_unrealized_pnl` is called, or it makes its next load. -/
inductive Act where
  | onFill (fill : FillEvent)
  | write
  | call (id : ℕ) (mark : ℤ)
  | read
  deriving DecidableEq

/-- One step; a thread that is in a call makes no other one, and one that is in none has no next
operation. -/
def step (s : System) : Act → System
  | .onFill fill =>
    match s.writer with
    | .idle =>
      if fill.instrumentId ≥ maxInstruments then { s with applied := s.applied ++ [fill] }
      else { s with writer := .loadAvgCost fill (s.pm.slots fill.instrumentId).netQty }
    | _ => s
  | .write =>
    match s.writer with
    | .idle => s
    | .loadAvgCost fill curQty =>
      { s with
        writer := .storing fill (update fill curQty (s.pm.slots fill.instrumentId).avgCost) }
    | .storing fill ⟨store :: stores, newQty⟩ =>
      { s with
        pm := setSlot s.pm fill.instrumentId (store.perform (s.pm.slots fill.instrumentId))
        writer := .storing fill ⟨stores, newQty⟩ }
    | .storing fill ⟨[], newQty⟩ =>
      { s with
        pm := setSlot s.pm fill.instrumentId
          { s.pm.slots fill.instrumentId with netQty := newQty }
        writer := .idle
        applied := s.applied ++ [fill] }
  | .call id mark =>
    match s.reader with
    | .idle =>
      if id ≥ maxInstruments then
        { s with returned := s.returned ++ [⟨id, mark, 0, s.applied.length, s.applied⟩] }
      else { s with reader := .loadNetQty id mark s.applied.length }
    | _ => s
  | .read =>
    match s.reader with
    | .idle => s
    | .loadNetQty id mark since =>
      { s with
        reader := .loadAvgCost id mark since (s.pm.slots id).netQty s.applied.length }
    | .loadAvgCost id mark since netQty _ =>
      { s with
        reader := .idle
        returned := s.returned ++
          [⟨id, mark, unrealizedPnl mark netQty (s.pm.slots id).avgCost, since, s.applied⟩] }

/-! ## What a step leaves alone -/

/-- Nothing has changed for the writer. -/
structure SameWriter (s s' : System) : Prop where
  pm_eq : s'.pm = s.pm
  writer_eq : s'.writer = s.writer
  applied_eq : s'.applied = s.applied

/-- Nothing has changed for the reader, but for fills that have been applied. -/
structure SameReader (s s' : System) : Prop where
  reader_eq : s'.reader = s.reader
  returned_eq : s'.returned = s.returned
  applied_prefix : s.applied <+: s'.applied

lemma sameReader_onFill (s : System) (fill : FillEvent) :
    SameReader s (step s (.onFill fill)) := by
  unfold step
  dsimp only
  cases s.writer with
  | idle =>
    dsimp only
    split_ifs
    · exact ⟨rfl, rfl, List.prefix_append _ _⟩
    · exact ⟨rfl, rfl, List.prefix_rfl⟩
  | _ => exact ⟨rfl, rfl, List.prefix_rfl⟩

lemma sameReader_write (s : System) : SameReader s (step s .write) := by
  unfold step
  dsimp only
  cases s.writer with
  | idle => exact ⟨rfl, rfl, List.prefix_rfl⟩
  | loadAvgCost fill curQty => exact ⟨rfl, rfl, List.prefix_rfl⟩
  | storing fill u =>
    obtain ⟨stores, newQty⟩ := u
    cases stores with
    | nil => exact ⟨rfl, rfl, List.prefix_append _ _⟩
    | cons store stores => exact ⟨rfl, rfl, List.prefix_rfl⟩

lemma sameWriter_call (s : System) (id : ℕ) (mark : ℤ) :
    SameWriter s (step s (.call id mark)) := by
  unfold step
  dsimp only
  cases s.reader with
  | idle =>
    dsimp only
    split_ifs <;> exact ⟨rfl, rfl, rfl⟩
  | _ => exact ⟨rfl, rfl, rfl⟩

lemma sameWriter_read (s : System) : SameWriter s (step s .read) := by
  unfold step
  dsimp only
  cases s.reader <;> exact ⟨rfl, rfl, rfl⟩

/-! ## What is asked of the answers -/

/-- The call returned what it would have returned for the position after some number of whole fills,
at least those applied when it began and at most those applied when it returned. -/
def Answer.Consistent (c : Answer) : Prop :=
  ∃ k, c.since ≤ k ∧ k ≤ c.applied.length ∧
    c.value = calcUnrealizedPnl (after (c.applied.take k)) c.id c.mark

/-- When a call loads `avg_cost`, it is still that of the position whose `net_qty` it loaded, unless
there was no position. -/
def Undisturbed (s : System) : Act → Prop
  | .read =>
    match s.reader with
    | .loadAvgCost id _ _ netQty version =>
      netQty = 0 ∨
        (s.pm.slots id).avgCost = ((after (s.applied.take version)).slots id).avgCost
    | _ => True
  | _ => True

instance (s : System) (a : Act) : Decidable (Undisturbed s a) := by
  unfold Undisturbed
  split
  · split <;> infer_instance
  · exact isTrue trivial

/-! ## The writer keeps to whole fills -/

/-- The slots are those after the fills that have been applied, but for what the fill in progress
has stored; it has not stored `net_qty`, and what it still stores completes it. -/
def WriterInv (s : System) : Prop :=
  match s.writer with
  | .idle => s.pm = after s.applied
  | .loadAvgCost fill curQty =>
    fill.instrumentId < maxInstruments ∧ s.pm = after s.applied ∧
      curQty = (s.pm.slots fill.instrumentId).netQty
  | .storing fill u =>
    fill.instrumentId < maxInstruments ∧
      (∀ i, (s.pm.slots i).netQty = ((after s.applied).slots i).netQty) ∧
      (∀ i, i ≠ fill.instrumentId → s.pm.slots i = (after s.applied).slots i) ∧
      u.perform (s.pm.slots fill.instrumentId) =
        ((after s.applied).slots fill.instrumentId).onFill fill

/-- The quantity in a slot is always the one after the fills that have been applied. -/
lemma WriterInv.netQty_eq {s : System} (h : WriterInv s) (i : ℕ) :
    (s.pm.slots i).netQty = ((after s.applied).slots i).netQty := by
  unfold WriterInv at h
  split at h
  · rw [h]
  · rw [h.2.1]
  · exact h.2.1 i

/-- The invariant is one of the slots, the writer and the fills that have been applied. -/
lemma WriterInv.congr {s s' : System} (h : WriterInv s) (hsame : SameWriter s s') :
    WriterInv s' := by
  unfold WriterInv
  rw [hsame.pm_eq, hsame.writer_eq, hsame.applied_eq]
  exact h

lemma after_concat (fills : List FillEvent) (fill : FillEvent) :
    after (fills ++ [fill]) = (after fills).onFill fill :=
  run_concat _ _ _ _

/-- A fill of an instrument that is not in the table changes nothing. -/
lemma after_concat_of_ge (fills : List FillEvent) {fill : FillEvent}
    (hid : fill.instrumentId ≥ maxInstruments) : after (fills ++ [fill]) = after fills := by
  rw [after_concat, onFill, if_pos hid]

/-- The last store completes the fill. -/
lemma commit_eq {pm pm' : PositionManager} {fill : FillEvent} {newQty : ℤ}
    (hid : fill.instrumentId < maxInstruments)
    (hother : ∀ i, i ≠ fill.instrumentId → pm.slots i = pm'.slots i)
    (hslot : { pm.slots fill.instrumentId with netQty := newQty } =
      (pm'.slots fill.instrumentId).onFill fill) :
    setSlot pm fill.instrumentId { pm.slots fill.instrumentId with netQty := newQty } =
      pm'.onFill fill := by
  rw [onFill, if_neg (by omega), setSlot, hslot]
  congr 1
  funext i
  by_cases hi : i = fill.instrumentId
  · rw [hi, Function.update_self, Function.update_self]
  · rw [Function.update_of_ne hi, Function.update_of_ne hi, hother i hi]

/-- Every step keeps the writer to whole fills. -/
lemma writerInv_step (s : System) (a : Act) (h : WriterInv s) : WriterInv (step s a) := by
  obtain ⟨pm, writer, reader, applied, returned⟩ := s
  cases a with
  | onFill fill =>
    cases writer with
    | idle =>
      have hpm : pm = after applied := h
      dsimp only [step]
      split_ifs with hid
      · exact hpm.trans (after_concat_of_ge applied hid).symm
      · exact ⟨by omega, hpm, rfl⟩
    | loadAvgCost fill' curQty => exact h
    | storing fill' u => exact h
  | write =>
    cases writer with
    | idle => exact h
    | loadAvgCost fill curQty =>
      obtain ⟨hid, hpm, hcur⟩ := h
      dsimp only at hid hpm hcur
      have hslots := congrArg PositionManager.slots hpm
      refine ⟨hid, fun i => congrArg Slot.netQty (congrFun hslots i),
        fun i _ => congrFun hslots i, ?_⟩
      rw [hcur]
      exact (perform_update _ fill).trans (congrArg (Slot.onFill · fill) (congrFun hslots _))
    | storing fill u =>
      obtain ⟨stores, newQty⟩ := u
      obtain ⟨hid, hnet, hother, hrest⟩ := h
      dsimp only at hid hnet hother hrest
      cases stores with
      | nil => exact (commit_eq hid hother hrest).trans (after_concat applied fill).symm
      | cons store stores =>
        have hself := slots_setSlot_self pm fill.instrumentId
          (store.perform (pm.slots fill.instrumentId))
        have hframe {i : ℕ} (hi : i ≠ fill.instrumentId) := slots_setSlot_of_ne pm
          (store.perform (pm.slots fill.instrumentId)) hi
        refine ⟨hid, ?_, fun i hi => (hframe hi).trans (hother i hi), ?_⟩
        · intro i
          by_cases hi : i = fill.instrumentId
          · subst hi
            exact (congrArg Slot.netQty hself).trans ((netQty_perform _ store).trans (hnet _))
          · exact (congrArg Slot.netQty (hframe hi)).trans (hnet i)
        · exact (congrArg (Update.perform · ⟨stores, newQty⟩) hself).trans hrest
  | call id mark => exact h.congr (sameWriter_call _ id mark)
  | read => exact h.congr (sameWriter_read _)

/-! ## The reader knows a whole position -/

/-- The quantity that a call has loaded is that of a position since it began. -/
def ReaderInv (s : System) : Prop :=
  match s.reader with
  | .idle => True
  | .loadNetQty id _ since => id < maxInstruments ∧ since ≤ s.applied.length
  | .loadAvgCost id _ since netQty version =>
    id < maxInstruments ∧ since ≤ version ∧ version ≤ s.applied.length ∧
      netQty = ((after (s.applied.take version)).slots id).netQty

/-- Fills that are applied later do not change the position after the first ones. -/
lemma ReaderInv.congr {s s' : System} (h : ReaderInv s) (hsame : SameReader s s') :
    ReaderInv s' := by
  obtain ⟨fills, happlied⟩ := hsame.applied_prefix
  have hle : s.applied.length ≤ s'.applied.length := hsame.applied_prefix.length_le
  unfold ReaderInv at h ⊢
  rw [hsame.reader_eq]
  generalize s.reader = reader at h ⊢
  cases reader with
  | idle => trivial
  | loadNetQty id mark since => exact ⟨h.1, h.2.trans hle⟩
  | loadAvgCost id mark since netQty version =>
    obtain ⟨hid, hsince, hversion, hnet⟩ := h
    refine ⟨hid, hsince, hversion.trans hle, ?_⟩
    rwa [← happlied, List.take_append_of_le_length hversion]

/-- Every step keeps what the reader knows. -/
lemma readerInv_step (s : System) (a : Act) (hwriter : WriterInv s) (h : ReaderInv s) :
    ReaderInv (step s a) := by
  cases a with
  | onFill fill => exact h.congr (sameReader_onFill s fill)
  | write => exact h.congr (sameReader_write s)
  | call id mark =>
    obtain ⟨pm, writer, reader, applied, returned⟩ := s
    cases reader with
    | idle =>
      dsimp only [step]
      split_ifs with hid
      · trivial
      · exact ⟨by omega, le_rfl⟩
    | loadNetQty id' mark' since => exact h
    | loadAvgCost id' mark' since netQty version => exact h
  | read =>
    have hnet := hwriter.netQty_eq
    obtain ⟨pm, writer, reader, applied, returned⟩ := s
    cases reader with
    | idle => trivial
    | loadNetQty id mark since =>
      obtain ⟨hid, hsince⟩ := h
      refine ⟨hid, hsince, le_rfl, ?_⟩
      change (pm.slots id).netQty = ((after (applied.take applied.length)).slots id).netQty
      rw [List.take_length]
      exact hnet id
    | loadAvgCost id mark since netQty version => trivial

/-! ## The answers -/

/-- For an instrument in the table, `calc_unrealized_pnl` takes quantity and cost from its slot. -/
lemma calcUnrealizedPnl_eq (pm : PositionManager) {id : ℕ} (hid : id < maxInstruments) (mark : ℤ) :
    calcUnrealizedPnl pm id mark =
      unrealizedPnl mark (pm.slots id).netQty (pm.slots id).avgCost := by
  rw [calcUnrealizedPnl, if_neg (by omega), unrealizedPnl]

/-- Two costs of one position give the same profit only when they are equal, or there is no
position. -/
lemma unrealizedPnl_eq_iff (mark netQty avgCost avgCost' : ℤ) :
    unrealizedPnl mark netQty avgCost = unrealizedPnl mark netQty avgCost' ↔
      netQty = 0 ∨ avgCost = avgCost' := by
  unfold unrealizedPnl
  split_ifs with hzero
  · exact iff_of_true rfl (.inl hzero)
  · rw [mul_left_inj' hzero, sub_right_inj]
    exact (or_iff_right hzero).symm

/-- The two threads are where the code can be, and every call so far was answered for a position
that there was. -/
structure Sound (s : System) : Prop where
  writer : WriterInv s
  reader : ReaderInv s
  consistent : ∀ c ∈ s.returned, c.Consistent

lemma sound_start : Sound start :=
  ⟨rfl, trivial, fun _ h => absurd h List.not_mem_nil⟩

/-- A step that is not disturbed gives no other answers. -/
lemma sound_step (s : System) (a : Act) (ha : Undisturbed s a) (h : Sound s) :
    Sound (step s a) := by
  refine ⟨writerInv_step s a h.writer, readerInv_step s a h.writer h.reader, ?_⟩
  have happend {c : Answer} (hc : c.Consistent) : ∀ d ∈ s.returned ++ [c], d.Consistent := by
    intro d hd
    rcases List.mem_append.mp hd with hd | hd
    · exact h.consistent d hd
    · exact List.mem_singleton.mp hd ▸ hc
  cases a with
  | onFill fill =>
    rw [(sameReader_onFill s fill).returned_eq]
    exact h.consistent
  | write =>
    rw [(sameReader_write s).returned_eq]
    exact h.consistent
  | call id mark =>
    obtain ⟨pm, writer, reader, applied, returned⟩ := s
    cases reader with
    | idle =>
      dsimp only [step]
      split_ifs with hid
      · refine happend ⟨applied.length, le_rfl, le_rfl, ?_⟩
        exact (if_pos hid).symm
      · exact h.consistent
    | loadNetQty id' mark' since => exact h.consistent
    | loadAvgCost id' mark' since netQty version => exact h.consistent
  | read =>
    obtain ⟨pm, writer, reader, applied, returned⟩ := s
    cases reader with
    | idle => exact h.consistent
    | loadNetQty id mark since => exact h.consistent
    | loadAvgCost id mark since netQty version =>
      obtain ⟨hid, hsince, hversion, hnet⟩ := h.reader
      refine happend ⟨version, hsince, hversion, ?_⟩
      dsimp only at hid hnet ⊢
      rw [calcUnrealizedPnl_eq _ hid, ← hnet, unrealizedPnl_eq_iff]
      exact ha

/-- **Consistent reads.**  In every run in which no call loads an `avg_cost` that a fill has changed
since the `net_qty` of the call was stored, every call returns the unrealized profit of the position
after some whole number of fills that was reached while it ran. -/
theorem consistent_run {acts : List Act} (h : Admissible step Undisturbed start acts) :
    ∀ c ∈ (run step start acts).returned, c.Consistent :=
  (invariant_run sound_step h sound_start).consistent

/-- A buy of 1 at the price. -/
def buyOne (price : ℤ) : FillEvent where
  fillPrice := price
  fillQty := 1

/-- A call between two fills. -/
def readBetween : List Act :=
  [.onFill (buyOne 100), .write, .write, .write, .call 0 110, .read, .read, .onFill (buyOne 200),
    .write, .write, .write]

theorem consistent_run_readBetween :
    (run step start readBetween).returned.map Answer.value = [10] ∧
      ∀ c ∈ (run step start readBetween).returned, c.Consistent :=
  ⟨by decide +kernel, consistent_run (by decide +kernel)⟩

/-- A call whose loads come before and after a fill. -/
def readAcross : List Act :=
  [.onFill (buyOne 100), .write, .write, .write, .call 0 0, .read, .onFill (buyOne 200), .write,
    .write, .write, .read]

/-- The quantity of the first position at the cost of the second one is the profit of neither. -/
theorem not_consistent_readAcross :
    ¬∀ acts, ∀ c ∈ (run step start acts).returned, c.Consistent := by
  intro hclaim
  have hreturned : (run step start readAcross).returned =
      [⟨0, 0, -150, 1, [buyOne 100, buyOne 200]⟩] := by
    decide +kernel
  obtain ⟨k, hk, hk', hvalue⟩ := hclaim readAcross ⟨0, 0, -150, 1, [buyOne 100, buyOne 200]⟩
    (by rw [hreturned]; exact List.mem_singleton_self _)
  have hk₂ : k = 1 ∨ k = 2 := by
    change 1 ≤ k at hk
    change k ≤ 2 at hk'
    omega
  rcases hk₂ with rfl | rfl
  · exact absurd hvalue (by decide +kernel)
  · exact absurd hvalue (by decide +kernel)

/-- **Mixed reads.**  Whatever has happened before: a call that is disturbed, and during which no
fill is completed, does not return the unrealized profit of any position that was reached while it
ran, at no mark price. -/
theorem not_consistent_of_disturbed {acts : List Act} {id since version : ℕ} {mark netQty : ℤ}
    (hreader : (run step start acts).reader = .loadAvgCost id mark since netQty version)
    (hsince : since = (run step start acts).applied.length)
    (hdisturbed : ¬Undisturbed (run step start acts) .read) :
    ∃ c, (step (run step start acts) .read).returned = (run step start acts).returned ++ [c] ∧
      ¬c.Consistent := by
  have hinv : WriterInv (run step start acts) ∧ ReaderInv (run step start acts) :=
    invariant_run_of_step (P := fun s => WriterInv s ∧ ReaderInv s)
      (fun s a h => ⟨writerInv_step s a h.1, readerInv_step s a h.1 h.2⟩)
      ⟨sound_start.writer, sound_start.reader⟩ acts
  generalize run step start acts = s at hreader hsince hdisturbed hinv ⊢
  obtain ⟨pm, writer, reader, applied, returned⟩ := s
  dsimp only at hreader hsince
  subst hreader
  obtain ⟨-, hid, hversion, hlength, hnet⟩ := hinv
  refine ⟨⟨id, mark, unrealizedPnl mark netQty (pm.slots id).avgCost, since, applied⟩, rfl, ?_⟩
  rintro ⟨k, hk, hk', hvalue⟩
  dsimp only at hid hversion hlength hnet hk hk' hvalue
  -- the only position of this time is that of the quantity that was loaded
  obtain rfl : k = version := by omega
  rw [calcUnrealizedPnl_eq _ hid, ← hnet, unrealizedPnl_eq_iff] at hvalue
  exact hdisturbed hvalue

end SlotReads

end QuantTrade

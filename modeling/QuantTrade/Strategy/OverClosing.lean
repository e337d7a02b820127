import Mathlib.Algebra.BigOperators.Group.List.Basic
import Mathlib.Algebra.Order.BigOperators.Group.List
import Mathlib.Algebra.Order.Ring.Int
import QuantTrade.Strategy.Momentum

/-!
# Closing a position once

`Momentum` sends a closing order for the whole position whenever its stop-loss or its signal says
so, and it does not look at the orders that are still on their way.  Two closing orders turn the
position around.  The closing orders never total more than the position exactly when no closing
order is sent while one on its side is outstanding, and the two tests do not both send one at the
same event (`neverOverCloses_iff`).
-/

namespace QuantTrade

namespace Momentum.Session

variable {F : Type} {s : Session F} {side : Side}

/-- What orders on a side can still fill. -/
def exposure (orders : List OrderRequest) (side : Side) : ℤ :=
  ((orders.filter fun req => req.side = side).map fun req => max 0 req.qty).sum

/-- What orders on a side have to fill to close the position: it is negative when the position is on
that side itself. -/
def closable (s : Session F) (side : Side) : ℤ :=
  -side.signed s.strategy.inventory

/-- From a closing order to the next opening order, the position stays on its side, and the orders
on their way do not total more than the position. -/
def NeverOverCloses (s : Session F) : Prop :=
  ∀ side, s.closing = some side →
    0 ≤ s.closable side ∧ exposure s.outstanding side ≤ s.closable side

/-! ## Exposure -/

lemma exposure_nonneg (orders : List OrderRequest) (side : Side) : 0 ≤ exposure orders side := by
  refine List.sum_nonneg fun x hx => ?_
  obtain ⟨req, -, rfl⟩ := List.mem_map.mp hx
  exact le_max_left ..

lemma exposure_append (orders orders' : List OrderRequest) (side : Side) :
    exposure (orders ++ orders') side = exposure orders side + exposure orders' side := by
  rw [exposure, List.filter_append, List.map_append, List.sum_append]
  rfl

lemma exposure_replicate (n : ℕ) (req : OrderRequest) :
    exposure (List.replicate n req) req.side = n * max 0 req.qty := by
  simp [exposure]

/-- An order that is gone is no exposure. -/
lemma exposure_eraseIdx {orders : List OrderRequest} {k : ℕ} {req : OrderRequest}
    (h : orders[k]? = some req) (side : Side) :
    exposure orders side =
      exposure (orders.eraseIdx k) side + if req.side = side then max 0 req.qty else 0 := by
  obtain ⟨hk, rfl⟩ := List.getElem?_eq_some_iff.mp h
  have hperm := (List.getElem_cons_eraseIdx_perm hk).symm
  have hsum : exposure orders side = exposure (orders[k] :: orders.eraseIdx k) side :=
    ((hperm.filter _).map _).sum_eq
  rw [hsum, exposure, exposure, List.filter_cons]
  by_cases hside : orders[k].side = side
  · rw [if_pos (decide_eq_true hside), List.map_cons, List.sum_cons, if_pos hside, add_comm]
  · rw [if_neg (by simpa using hside), if_neg hside, add_zero]

lemma exposure_eraseIdx_le (orders : List OrderRequest) (k : ℕ) (side : Side) :
    exposure (orders.eraseIdx k) side ≤ exposure orders side := by
  cases h : orders[k]? with
  | none => rw [List.eraseIdx_of_length_le (List.getElem?_eq_none_iff.mp h)]
  | some req =>
    rw [exposure_eraseIdx h]
    split_ifs
    · exact le_add_of_nonneg_right (le_max_left ..)
    · exact le_add_of_nonneg_right le_rfl

variable [Doubles F]

/-- An event sends one closing order only, and none while one on its side is outstanding: the
stop-loss and the signal do not both close the position, unless the queue has room for one order
only. -/
def ClosesOnce (s : Session F) : Action → Prop
  | .bbo e =>
    let m := s.strategy.updated e
    let room := 1024 - m.orderQueue.size
    s.strategy.accepts e = true → m.inventory ≠ 0 →
      (m.hitsStop e.midPrice = true ∨ m.exits = true) → 0 < room →
      exposure s.outstanding m.closingSide = 0 ∧
        ¬(m.hitsStop e.midPrice = true ∧ m.exits = true ∧ 1 < room)
  | .fill _ _ => True
  | .expire _ => True
  | .pop => True

/-! ## What an event sends -/

/-- Where there is a position, all that is sent closes it. -/
lemma eq_closeRequest_of_mem_sent {e : BBOEvent} {req : OrderRequest}
    (hpos : s.strategy.inventory ≠ 0) (h : req ∈ s.sent e) :
    req = (s.strategy.updated e).closeRequest := by
  obtain ⟨-, hinventory, -⟩ := s.strategy.updated_frame e
  rw [sent_eq] at h
  have hmem := List.mem_of_mem_take h
  have hflat : ¬(s.strategy.updated e).inventory = 0 := by rwa [hinventory]
  rw [requests] at hmem
  simp only [hflat, if_false] at hmem
  split_ifs at hmem <;> simp at hmem <;> exact hmem

/-- The condition on the tests is one on what is sent. -/
lemma closesOnce_iff {e : BBOEvent} (hpos : s.strategy.inventory ≠ 0) :
    s.ClosesOnce (.bbo e) ↔ s.sent e ≠ [] →
      exposure s.outstanding s.strategy.closingSide = 0 ∧ (s.sent e).length = 1 := by
  obtain ⟨hqueue, hinventory, -⟩ := s.strategy.updated_frame e
  have hside : (s.strategy.updated e).closingSide = s.strategy.closingSide := by
    rw [closingSide, hinventory, closingSide]
  rw [ClosesOnce, sent_eq, requests, hside, hqueue]
  cases s.strategy.accepts e with
  | false => simp
  | true =>
    have hflat : ¬(s.strategy.updated e).inventory = 0 := by rwa [hinventory]
    generalize 1024 - s.strategy.orderQueue.size = room
    simp only [Bool.not_true, Bool.false_eq_true, if_false, hflat, forall_const, ne_eq,
      not_false_eq_true]
    cases (s.strategy.updated e).hitsStop e.midPrice <;> cases (s.strategy.updated e).exits <;>
      rcases room with _ | _ | room <;> simp

/-! ## Steps -/

/-- Orders for the whole position total no more than it when there is only one of them. -/
lemma add_mul_le_iff {outstanding position : ℤ} {n : ℕ} (houtstanding : 0 ≤ outstanding)
    (hposition : 0 < position) (hn : 0 < n) :
    outstanding + n * position ≤ position ↔ outstanding = 0 ∧ n = 1 := by
  constructor
  · intro h
    have hone : n = 1 := by
      by_contra hne
      have htwo : (2 : ℤ) * position ≤ n * position :=
        mul_le_mul_of_nonneg_right (by omega) hposition.le
      omega
    rw [hone, Nat.cast_one, one_mul] at h
    exact ⟨by omega, hone⟩
  · rintro ⟨rfl, rfl⟩
    rw [Nat.cast_one, one_mul, zero_add]

/-- The closing order is for the position. -/
lemma closeRequest_updated (hpos : s.strategy.inventory ≠ 0) (e : BBOEvent) :
    let req := (s.strategy.updated e).closeRequest
    req.side = s.strategy.closingSide ∧ req.qty = s.closable s.strategy.closingSide ∧
      0 < s.closable s.strategy.closingSide := by
  obtain ⟨-, hinventory, -⟩ := s.strategy.updated_frame e
  unfold closeRequest closable closingSide
  rw [hinventory]
  split_ifs with hlong
  · exact ⟨rfl, (neg_neg _).symm, by rw [Side.signed_sell]; omega⟩
  · exact ⟨rfl, rfl, by rw [Side.signed_buy]; omega⟩

/-- An event keeps the closing orders within the position exactly when it closes once. -/
lemma neverOverCloses_bbo_iff (h : s.NeverOverCloses) (e : BBOEvent) :
    (s.step (.bbo e)).NeverOverCloses ↔ s.ClosesOnce (.bbo e) := by
  have hclosable : (s.step (.bbo e)).closable = s.closable := by
    funext side
    rw [closable, step, inventory_onBboImpl, closable]
  have hinventory := (s.strategy.updated_frame e).2.1
  unfold NeverOverCloses
  rw [hclosable]
  by_cases hpos : s.strategy.inventory = 0
  · -- there is nothing to close
    have honce : s.ClosesOnce (.bbo e) := fun _ hne => absurd (hinventory.trans hpos) hne
    refine iff_of_true (fun side hside => ?_) honce
    dsimp only [step] at hside ⊢
    by_cases hsent : s.sent e = []
    · rw [if_pos hsent] at hside
      rw [hsent, List.append_nil]
      exact h side hside
    · rw [if_neg hsent, if_pos hpos] at hside
      exact absurd hside (by simp)
  · rw [closesOnce_iff hpos]
    dsimp only [step]
    by_cases hsent : s.sent e = []
    · rw [if_pos hsent, hsent, List.append_nil]
      exact iff_of_true h fun hne => absurd rfl hne
    · rw [if_neg hsent, if_neg hpos]
      obtain ⟨hside, hqty, hlt⟩ := closeRequest_updated hpos e
      have hall : s.sent e =
          List.replicate (s.sent e).length (s.strategy.updated e).closeRequest :=
        List.eq_replicate_iff.mpr ⟨rfl, fun req hreq => eq_closeRequest_of_mem_sent hpos hreq⟩
      have hexposure : exposure (s.outstanding ++ s.sent e) s.strategy.closingSide =
          exposure s.outstanding s.strategy.closingSide +
            (s.sent e).length * s.closable s.strategy.closingSide := by
        rw [exposure_append]
        conv_lhs => rw [hall, ← hside, exposure_replicate, hqty, hside]
        rw [max_eq_right hlt.le]
      have hlength : 0 < (s.sent e).length := List.length_pos_iff.mpr hsent
      have hnonneg := exposure_nonneg s.outstanding s.strategy.closingSide
      rw [← add_mul_le_iff hnonneg hlt hlength, ← hexposure]
      constructor
      · exact fun hcovered _ => (hcovered _ rfl).2
      · intro hle side hsome
        obtain rfl := Option.some_inj.mp hsome
        exact ⟨hlt.le, hle hsent⟩

/-- Fills and the rest keep the closing orders within the position. -/
lemma neverOverCloses_step (h : s.NeverOverCloses) {a : Action} (ha : s.Valid a)
    (honce : s.ClosesOnce a) : (s.step a).NeverOverCloses := by
  cases a with
  | bbo e => exact (neverOverCloses_bbo_iff h e).mpr honce
  | pop => exact h
  | expire k =>
    intro side hside
    obtain ⟨hnonneg, hle⟩ := h side hside
    exact ⟨hnonneg, (exposure_eraseIdx_le ..).trans hle⟩
  | fill k qty =>
    obtain ⟨req, hreq, hqty, hmax⟩ := ha
    intro side hside
    rw [Option.mem_def] at hreq
    simp only [step, hreq] at hside ⊢
    obtain ⟨hnonneg, hle⟩ := h side hside
    have hexposure := exposure_eraseIdx hreq side
    have hrest := exposure_nonneg (s.outstanding.eraseIdx k) side
    have hfull : qty ≤ max 0 req.qty := hmax.trans (le_max_right ..)
    unfold closable onFillImpl fillOf at *
    dsimp only
    split_ifs with hother
    · exact ⟨hnonneg, (exposure_eraseIdx_le ..).trans hle⟩
    · dsimp only
      cases side <;> cases hreqSide : req.side <;>
        simp [hreqSide] at hexposure hnonneg hle ⊢ <;> omega

/-- **No over-closing.**  Let IOC orders be filled once each, for no more than their quantities, at
any time after they are sent.  From each closing order to the next opening order, the position stays
on its side and what is on its way against it totals no more than it, exactly when every event
closes once. -/
theorem neverOverCloses_iff (instrumentId : ℕ)
    (fastPeriod slowPeriod orderQty signalBand maxAdverse : ℤ) (as : List Action) :
    let s : Session F :=
      start (init instrumentId fastPeriod slowPeriod orderQty signalBand maxAdverse)
    Transition.Admissible step Valid s as →
      ((∀ bs, bs <+: as → (Transition.run step s bs).NeverOverCloses) ↔
        Transition.Admissible step ClosesOnce s as) := by
  intro s hvalid
  have hstart : s.NeverOverCloses := fun side hside => absurd hside (by simp [s, start])
  refine Transition.forall_prefix_iff_admissible (P := NeverOverCloses) (fun _ => id)
    (fun t a ha honce ht => neverOverCloses_step ht ha honce) (fun t a _ hnot ht hnext => hnot ?_)
    hvalid hstart
  cases a with
  | bbo e => exact (neverOverCloses_bbo_iff ht e).mp hnext
  | fill k qty => trivial
  | expire k => trivial
  | pop => trivial

/-- A long position of 100 is opened at 110 and filled. -/
def longPosition : List Action :=
  [quoteAt 100, quoteAt 100, quoteAt 100, quoteAt 110, .fill 0 100]

/-- The rule for a long position that is closed when the averages meet. -/
theorem neverOverCloses_iff_exit :
    let s : Session ℚ := start (init 1 1 3 100 1 10)
    (∀ bs, bs <+: longPosition ++ [quoteAt 105, .fill 0 100] →
        (Transition.run step s bs).NeverOverCloses) ↔
      Transition.Admissible step ClosesOnce s (longPosition ++ [quoteAt 105, .fill 0 100]) :=
  neverOverCloses_iff 1 1 3 100 1 10 _ (by decide +kernel)

/-- The price drops by 12: the stop-loss and the signal both close the position, and it is short
after the two fills. -/
theorem not_neverOverCloses_drop :
    ¬∀ (F : Type) [Doubles F] (instrumentId : ℕ)
      (fastPeriod slowPeriod orderQty signalBand maxAdverse : ℤ) (as : List Action),
      let s : Session F :=
        start (init instrumentId fastPeriod slowPeriod orderQty signalBand maxAdverse)
      Transition.Admissible step Valid s as → ∀ bs, bs <+: as →
        let t := Transition.run step s bs
        ∀ side, t.closing = some side → 0 ≤ t.closable side := by
  intro h
  have hneg := h ℚ 1 1 3 100 1 10 (longPosition ++ [quoteAt 98, .fill 0 100, .fill 0 100])
    (by decide +kernel) _ List.prefix_rfl .sell (by decide +kernel)
  exact absurd hneg (by decide +kernel)

end Momentum.Session

end QuantTrade

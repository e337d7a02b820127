import QuantTrade.Risk.PositionLimits
import QuantTrade.Risk.RefillOverflow

/-!
# The limits in 64-bit arithmetic

`check_and_reserve` computes the notional, the new net quantity and the lower limit in `int64_t` and
compares them afterwards.  The comment in the source expects prices below `10^9` and quantities
below `10^6`, and there nothing leaves the range (`representable_of_deployed`).  For larger orders
the comparison sees what is left of the numbers; `checkAndReserve64_exact_iff` says when an accepted
order is inside the limits nevertheless.
-/

namespace QuantTrade

open RateLimiter (int64)

namespace PositionLimits

/-- `check_and_reserve` in `int64_t`. -/
def checkAndReserve64 (pl : PositionLimits) (id : ℕ) (side : Side) (qty price : ℤ) :
    PositionLimits × Bool :=
  if id ≥ maxInstruments then (pl, false)
  else if price > 0 ∧ qty > 0 ∧ int64 (price * qty) > pl.maxNotional then (pl, false)
  else
    let delta := int64 (side.signed qty)
    let newQty := int64 (pl.slots id + delta)
    if newQty > pl.maxNetQty ∨ newQty < int64 (-pl.maxNetQty) then (pl, false)
    else ({ pl with slots := Function.update pl.slots id newQty }, true)

/-- The notional, the new net quantity and the lower limit are numbers of the range. -/
def Representable (pl : PositionLimits) (id : ℕ) (side : Side) (qty price : ℤ) : Prop :=
  InInt64 (price * qty) ∧ InInt64 (pl.slots id + side.signed qty) ∧ InInt64 (-pl.maxNetQty)

/-- The numbers that `check_and_reserve` forms for an instrument there is are in the range. -/
def ReservesInRange (pl : PositionLimits) (id : ℕ) (side : Side) (qty price : ℤ) : Prop :=
  id < maxInstruments →
    (0 < price → 0 < qty → InInt64 (price * qty)) ∧ InInt64 (side.signed qty) ∧
      InInt64 (pl.slots id + side.signed qty) ∧ InInt64 (-pl.maxNetQty)

/-- What is left of these numbers in 64 bits is outside of the limits. -/
def RefusedByBits (pl : PositionLimits) (id : ℕ) (side : Side) (qty price : ℤ) : Prop :=
  pl.maxNotional < int64 (price * qty) ∨ pl.maxNetQty < int64 (pl.slots id + side.signed qty) ∨
    int64 (pl.slots id + side.signed qty) < int64 (-pl.maxNetQty)

/-- The order is inside the limits. -/
def WithinLimits (pl : PositionLimits) (id : ℕ) (side : Side) (qty price : ℤ) : Prop :=
  price * qty ≤ pl.maxNotional ∧ -pl.maxNetQty ≤ pl.slots id + side.signed qty ∧
    pl.slots id + side.signed qty ≤ pl.maxNetQty

instance (pl : PositionLimits) (id : ℕ) (side : Side) (qty price : ℤ) :
    Decidable (pl.Representable id side qty price) :=
  inferInstanceAs (Decidable (_ ∧ _))

instance (pl : PositionLimits) (id : ℕ) (side : Side) (qty price : ℤ) :
    Decidable (pl.ReservesInRange id side qty price) :=
  inferInstanceAs (Decidable (_ → (_ → _ → _) ∧ _))

instance (pl : PositionLimits) (id : ℕ) (side : Side) (qty price : ℤ) :
    Decidable (pl.RefusedByBits id side qty price) :=
  inferInstanceAs (Decidable (_ ∨ _))

instance (pl : PositionLimits) (id : ℕ) (side : Side) (qty price : ℤ) :
    Decidable (pl.WithinLimits id side qty price) :=
  inferInstanceAs (Decidable (_ ∧ _))

section Check

variable {pl : PositionLimits} {id : ℕ} {side : Side} {qty price : ℤ}

/-- The order changes the net quantity by a number of the range. -/
lemma inInt64_signed (hqty : 0 < qty) (hqtyRange : InInt64 qty) : InInt64 (side.signed qty) := by
  obtain ⟨-, hupper⟩ := hqtyRange
  cases side with
  | buy => exact ⟨by rw [Side.signed_buy]; omega, hupper⟩
  | sell => exact ⟨by rw [Side.signed_sell]; omega, by rw [Side.signed_sell]; omega⟩

/-- A rejection leaves the limits alone. -/
lemma checkAndReserve64_of_rejected (h : (pl.checkAndReserve64 id side qty price).2 = false) :
    (pl.checkAndReserve64 id side qty price).1 = pl := by
  unfold checkAndReserve64 at *
  dsimp only at *
  split_ifs at * <;> rfl

/-- An order is accepted when the 64 bits of its numbers are inside the limits. -/
lemma checkAndReserve64_snd (hid : id < maxInstruments) (hqty : 0 < qty)
    (hqtyRange : InInt64 qty) (hprice : 0 < price) :
    (pl.checkAndReserve64 id side qty price).2 = true ↔ ¬pl.RefusedByBits id side qty price := by
  have hknown : ¬id ≥ maxInstruments := by omega
  unfold checkAndReserve64 RefusedByBits
  dsimp only
  rw [if_neg hknown, (inInt64_signed hqty hqtyRange).int64_eq]
  by_cases hnotional : pl.maxNotional < int64 (price * qty)
  · rw [if_pos ⟨hprice, hqty, hnotional⟩]
    simp [hnotional]
  · rw [if_neg fun h => hnotional h.2.2]
    split_ifs with hnet
    · exact iff_of_false not_false (not_not.mpr (Or.inr hnet))
    · exact iff_of_true rfl fun h => h.elim hnotional hnet

/-- The function and its model over the integers agree on numbers of the range. -/
lemma checkAndReserve64_of_inRange (h : pl.ReservesInRange id side qty price) :
    pl.checkAndReserve64 id side qty price = pl.checkAndReserve id side qty price := by
  unfold checkAndReserve64 checkAndReserve
  by_cases hid : id ≥ maxInstruments
  · rw [if_pos hid, if_pos hid]
  · obtain ⟨hnotional, hsigned, hnet, hlower⟩ := h (not_le.mp hid)
    have hcompare : (price > 0 ∧ qty > 0 ∧ int64 (price * qty) > pl.maxNotional) ↔
        (price > 0 ∧ qty > 0 ∧ price * qty > pl.maxNotional) := by
      refine and_congr_right fun hprice => and_congr_right fun hqty => ?_
      rw [(hnotional hprice hqty).int64_eq]
    dsimp only
    rw [hsigned.int64_eq, hnet.int64_eq, hlower.int64_eq]
    simp only [hcompare]

/-- On numbers of the range, refusing by the bits is refusing by the limits. -/
lemma refusedByBits_iff (h : pl.Representable id side qty price) :
    pl.RefusedByBits id side qty price ↔ ¬pl.WithinLimits id side qty price := by
  obtain ⟨hnotional, hnet, hlower⟩ := h
  rw [RefusedByBits, WithinLimits, hnotional.int64_eq, hnet.int64_eq, hlower.int64_eq]
  omega

/-- Numbers outside of the range are outside of the limits. -/
lemma not_withinLimits (h : ¬pl.Representable id side qty price) (hqty : 0 < qty)
    (hprice : 0 < price) (hnotional : InInt64 pl.maxNotional) (hnet : InInt64 pl.maxNetQty) :
    ¬pl.WithinLimits id side qty price := by
  have hpositive : 0 < price * qty := mul_pos hprice hqty
  unfold Representable InInt64 at *
  unfold WithinLimits
  generalize price * qty = notional at *
  omega

/-- **The limits for all magnitudes.**  For every instrument, every order and every state and
limits of the range, an accepted order is inside the limits and a rejected one changes nothing
exactly when the notional, the new net quantity and the lower limit are numbers of the range, or
what is left of them is refused. -/
theorem checkAndReserve64_exact_iff (hid : id < maxInstruments) (hqty : 0 < qty)
    (hqtyRange : InInt64 qty) (hprice : 0 < price) (hnet : InInt64 pl.maxNetQty)
    (hnotional : InInt64 pl.maxNotional) :
    (((pl.checkAndReserve64 id side qty price).2 = true → pl.WithinLimits id side qty price) ∧
        ((pl.checkAndReserve64 id side qty price).2 = false →
          (pl.checkAndReserve64 id side qty price).1 = pl)) ↔
      pl.Representable id side qty price ∨ pl.RefusedByBits id side qty price := by
  rw [and_iff_left checkAndReserve64_of_rejected,
    checkAndReserve64_snd hid hqty hqtyRange hprice]
  by_cases hrep : pl.Representable id side qty price
  · rw [refusedByBits_iff hrep, not_not]
    exact iff_of_true (fun h => h) (Or.inl hrep)
  · have hout := not_withinLimits hrep hqty hprice hnotional hnet
    constructor
    · intro h
      exact Or.inr (by_contra fun haccepted => hout (h haccepted))
    · rintro (h | h) haccepted
      · exact absurd h hrep
      · exact absurd h haccepted

/-- In the range that the comment expects, nothing leaves the range of the type. -/
lemma representable_of_deployed (hqty : 0 < qty) (hprice : 0 < price) (hqtyRange : qty < 10 ^ 6)
    (hpriceRange : price < 10 ^ 9) (hslot : -2 ^ 62 ≤ pl.slots id ∧ pl.slots id ≤ 2 ^ 62)
    (hnet : 0 ≤ pl.maxNetQty ∧ pl.maxNetQty < 2 ^ 63) : pl.Representable id side qty price := by
  have hupper : price * qty ≤ 10 ^ 9 * 10 ^ 6 := by
    gcongr
  have hpositive : 0 < price * qty := mul_pos hprice hqty
  refine ⟨⟨by omega, by omega⟩, ?_, ⟨by omega, by omega⟩⟩
  cases side with
  | buy => exact ⟨by rw [Side.signed_buy]; omega, by rw [Side.signed_buy]; omega⟩
  | sell => exact ⟨by rw [Side.signed_sell]; omega, by rw [Side.signed_sell]; omega⟩

end Check

/-- Limits of `10^10` on the net quantity and of `10^6` on the notional. -/
def tenBillion : PositionLimits :=
  init 10000000000 1000000

/-- An order whose notional is exactly the limit is accepted and inside the limits. -/
theorem checkAndReserve64_exact_maxNotional :
    (tenBillion.checkAndReserve64 1 .buy 100 10000).2 = true ∧
      tenBillion.WithinLimits 1 .buy 100 10000 := by
  have hexact := @checkAndReserve64_exact_iff tenBillion 1 .buy 100 10000 (by decide) (by decide)
    (by decide) (by decide) (by decide) (by decide)
  exact ⟨by decide, (hexact.mpr (Or.inl (by decide))).1 (by decide)⟩

/-- A notional of `2^32` times `2^32` is accepted against a limit of `10^6`: nothing is left of it
in 64 bits. -/
theorem not_withinLimits_product :
    ¬∀ (pl : PositionLimits) (id : ℕ) (side : Side) (qty price : ℤ), id < maxInstruments →
      0 < qty → InInt64 qty → 0 < price → InInt64 price → InInt64 (pl.slots id) →
      InInt64 pl.maxNetQty → 0 ≤ pl.maxNotional → InInt64 pl.maxNotional →
      ((pl.checkAndReserve64 id side qty price).2 = true → pl.WithinLimits id side qty price) ∧
        ((pl.checkAndReserve64 id side qty price).2 = false →
          (pl.checkAndReserve64 id side qty price).1 = pl) := by
  intro h
  have hclaim := h tenBillion 1 .buy (2 ^ 32) (2 ^ 32) (by decide) (by decide) (by decide)
    (by decide) (by decide) (by decide) (by decide) (by decide) (by decide)
  exact absurd (hclaim.1 (by decide)) (by decide)

end PositionLimits

end QuantTrade

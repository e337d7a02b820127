import Mathlib.Algebra.Group.Int.Defs
import Mathlib.Algebra.Group.Nat.Defs
import Mathlib.Data.Int.Notation
import Mathlib.Data.Nat.Notation
import Mathlib.Tactic.Common

/-!
# Basic types

The enumerations and constants of `src/common/types.hpp`.  Throughout the development a `Price` or a
`Qty` of the source is an integer; an `InstrumentId` and a `Timestamp`, unsigned there, are natural
numbers.
-/

namespace QuantTrade

/-- The numbers of an `int64_t`, the type of a `Price` and a `Qty`. -/
def InInt64 (x : ℤ) : Prop :=
  -2 ^ 63 ≤ x ∧ x < 2 ^ 63

instance : DecidablePred InInt64 :=
  fun _ => inferInstanceAs (Decidable (_ ∧ _))

/-- These numbers are not changed by the arithmetic of 64 bits. -/
lemma InInt64.bmod_eq {x : ℤ} (h : InInt64 x) : x.bmod (2 ^ 64) = x := by
  obtain ⟨hlower, hupper⟩ := h
  exact Int.bmod_eq_of_le_mul_two (by omega) (by omega)

/-- The kinds of market data. -/
inductive EventType where
  | trade
  | bboUpdate
  | depthUpdate
  deriving DecidableEq, Repr

/-- The direction of an order. -/
inductive Side where
  | buy
  | sell
  deriving DecidableEq, Repr

/-- The kinds of order. -/
inductive OrderType where
  | market
  | limit
  | ioc
  | fok
  | fak
  deriving DecidableEq, Repr

/-- The states of an order. -/
inductive OrderStatus where
  | pendingNew
  | new
  | partiallyFilled
  | filled
  | pendingCancel
  | cancelled
  | rejected
  deriving DecidableEq, Repr

/-- The states of the circuit breaker. -/
inductive CBState where
  | closed
  | open
  | halfOpen
  deriving DecidableEq, Repr

/-- The value of the enumerator in the source. -/
def Side.code : Side → UInt8
  | .buy => 0
  | .sell => 1

/-- The value of the enumerator in the source. -/
def OrderType.code : OrderType → UInt8
  | .market => 0
  | .limit => 1
  | .ioc => 2
  | .fok => 3
  | .fak => 4

/-- The number of instruments the tables have room for. -/
def maxInstruments : ℕ := 4096

/-- The quantity with the sign of its side: `+` for a buy, `-` for a sell. -/
def Side.signed (side : Side) (qty : ℤ) : ℤ :=
  match side with
  | .buy => qty
  | .sell => -qty

@[simp] lemma Side.signed_buy (qty : ℤ) : Side.buy.signed qty = qty := rfl

@[simp] lemma Side.signed_sell (qty : ℤ) : Side.sell.signed qty = -qty := rfl

end QuantTrade

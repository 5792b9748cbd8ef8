import Mathlib

/-! The data model of `types.rs` and the fixed-point scale of `cache.rs`.
`Decimal` arithmetic is exact rational arithmetic: every product the program forms stays
inside the 28 digits of the library type as long as the scaled integers are below `10^14`. -/
namespace MatchingEngine

abbrev Decimal := ℚ

/-- A member of the sorted sets is the hyphenated lower-case hexadecimal text of a 128-bit
value. The text has a fixed width, so its lexicographic order is the numeric order. -/
abbrev Uuid := Fin (2 ^ 128)

/-- Identifiers can be written as numerals. -/
instance Uuid.neZero : NeZero (2 ^ 128) := ⟨by decide⟩

/-- Membership in a list of identifiers is decided by equality. -/
instance Uuid.lawfulBEq : LawfulBEq Uuid := inferInstance

inductive Side
  | buy
  | sell
  deriving DecidableEq, Repr

def Side.opposite : Side → Side
  | .buy => .sell
  | .sell => .buy

inductive OrderType
  | limit
  | market
  deriving DecidableEq, Repr

inductive TimeInForce
  | gtc
  | ioc
  | fok
  deriving DecidableEq, Repr

inductive OrderStatus
  | new
  | partiallyFilled
  | filled
  | cancelled
  | rejected
  deriving DecidableEq, Repr

inductive SelfTradePreventionMode
  | none
  | cancelTaker
  | cancelMaker
  | cancelBoth
  deriving DecidableEq, Repr

/-- An order as the Rust code passes it around. `createdAt` is in milliseconds. -/
structure Order where
  id : Uuid
  userId : String
  pairId : String
  side : Side
  orderType : OrderType
  tif : TimeInForce
  price : Option Decimal
  quantity : Decimal
  remaining : Decimal
  status : OrderStatus
  stpMode : SelfTradePreventionMode
  version : ℤ
  createdAt : ℤ
  clientOrderId : Option String
  deriving DecidableEq, Repr

structure Trade where
  id : Uuid
  pairId : String
  buyOrderId : Uuid
  sellOrderId : Uuid
  buyerId : String
  sellerId : String
  price : Decimal
  quantity : Decimal
  deriving DecidableEq, Repr

@[simp] lemma Side.opposite_ne (s : Side) : s.opposite ≠ s := by cases s <;> decide

@[simp] lemma Side.ne_opposite (s : Side) : s ≠ s.opposite := (Side.opposite_ne s).symm

/-- `BASE-QUOTE` split at its only hyphen. -/
def parsePairId (pairId : String) : Except String (String × String) :=
  match pairId.toList.splitOn '-' with
  | [base, quote] => .ok (String.ofList base, String.ofList quote)
  | _ => .error ("invalid pair_id format: " ++ pairId ++ ", expected BASE-QUOTE")

def scale : ℤ := 100000000

/-- Truncation towards zero, as `Decimal::trunc` followed by the integer conversion. -/
def truncate (d : Decimal) : ℤ := d.num.tdiv d.den

/-- `to_i64` fails outside the signed 64-bit range and the caller then takes `0`. -/
def decimalToI64 (d : Decimal) : ℤ :=
  let i := truncate (d * scale)
  if -2 ^ 63 ≤ i ∧ i < 2 ^ 63 then i else 0

def i64ToDecimal (i : ℤ) : Decimal := i / scale

lemma scale_pos : (0 : ℚ) < (scale : ℚ) := by norm_num [scale]

@[simp] lemma truncate_intCast (i : ℤ) : truncate (i : ℚ) = i := by simp [truncate]

@[simp] lemma decimalToI64_i64ToDecimal {i : ℤ} (h : -2 ^ 63 ≤ i) (h' : i < 2 ^ 63) :
    decimalToI64 (i64ToDecimal i) = i := by
  have hs : (i64ToDecimal i * scale : ℚ) = (i : ℚ) := by
    rw [i64ToDecimal, div_mul_cancel₀]
    exact scale_pos.ne'
  rw [decimalToI64, hs, truncate_intCast, if_pos ⟨h,h'⟩]

lemma decimalToI64_bounds (d : Decimal) : -2 ^ 63 ≤ decimalToI64 d ∧ decimalToI64 d < 2 ^ 63 := by
  unfold decimalToI64
  simp only
  split_ifs with h
  · exact h
  · norm_num

lemma decimalToI64_nonneg {d : Decimal} (h : 0 ≤ d) : 0 ≤ decimalToI64 d := by
  have hs : 0 ≤ d * scale := mul_nonneg h scale_pos.le
  have htrunc : 0 ≤ truncate (d * scale) := Int.tdiv_nonneg (Rat.num_nonneg.mpr hs) (Int.natCast_nonneg _)
  simp only [decimalToI64]
  split_ifs <;> omega

lemma i64ToDecimal_injective : Function.Injective i64ToDecimal := by
  intro i j h
  have hs := scale_pos.ne'
  simp only [i64ToDecimal] at h
  field_simp at h
  exact_mod_cast h

lemma i64ToDecimal_le_iff {i j : ℤ} : i64ToDecimal i ≤ i64ToDecimal j ↔ i ≤ j := by
  rw [i64ToDecimal, i64ToDecimal, div_le_div_iff_of_pos_right scale_pos]
  exact Int.cast_le

lemma i64ToDecimal_sub (i j : ℤ) : i64ToDecimal (i - j) = i64ToDecimal i - i64ToDecimal j := by
  simp [i64ToDecimal, sub_div]

@[simp] lemma i64ToDecimal_zero : i64ToDecimal 0 = 0 := by simp [i64ToDecimal]

lemma i64ToDecimal_eq_zero {i : ℤ} : i64ToDecimal i = 0 ↔ i = 0 := by
  rw [← i64ToDecimal_zero]
  exact i64ToDecimal_injective.eq_iff

lemma i64ToDecimal_pos {i : ℤ} : 0 < i64ToDecimal i ↔ 0 < i := by
  rw [lt_iff_not_ge, lt_iff_not_ge, ← i64ToDecimal_zero, i64ToDecimal_le_iff]

lemma i64ToDecimal_add (i j : ℤ) : i64ToDecimal (i + j) = i64ToDecimal i + i64ToDecimal j := by
  simp [i64ToDecimal, add_div]

lemma i64ToDecimal_sum (is : List ℤ) : (is.map i64ToDecimal).sum = i64ToDecimal is.sum := by
  induction is with
  | nil => simp
  | cons i is ih => rw [List.map_cons, List.sum_cons, List.sum_cons, ih, i64ToDecimal_add]

namespace Order

/-- The integers that `match_order_lua` hands to the script. -/
def priceI (o : Order) : ℤ := (o.price.map decimalToI64).getD 0

def qtyI (o : Order) : ℤ := decimalToI64 o.quantity

/-- A new good-til-cancelled limit order without self-trade prevention, given by its scaled
price and quantity. -/
def gtcLimit (id : Uuid) (userId pairId : String) (side : Side) (priceI qtyI : ℤ) : Order where
  id := id
  userId := userId
  pairId := pairId
  side := side
  orderType := .limit
  tif := .gtc
  price := some (i64ToDecimal priceI)
  quantity := i64ToDecimal qtyI
  remaining := i64ToDecimal qtyI
  status := .new
  stpMode := .none
  version := 1
  createdAt := 0
  clientOrderId := none

end Order
end MatchingEngine

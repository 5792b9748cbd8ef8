import MatchingEngine.Gateway

/-! Fixed-point scaling of admitted orders. Alignment to tick and lot puts price, quantity and
their product on the grid of eight decimals, where truncation is exact; what validation does not
bound is the price, and a value outside the signed 64-bit range becomes zero. -/
namespace MatchingEngine

/-- A multiple of `10^-8`. -/
def OnGrid (d : Decimal) : Prop := ∃ n : ℤ, d * scale = n

/-- The integers passed to the script are the scaled values, and something is locked. -/
def ScaledExactly (o : Order) (p : Decimal) (a : MatchArgs) : Prop :=
  (a.priceI : ℚ) = p * 10 ^ 8 ∧ (a.qtyI : ℚ) = o.quantity * 10 ^ 8 ∧
    (a.lockAmount : ℚ) = (match o.side with
      | .buy => p * o.quantity * 10 ^ 8
      | .sell => o.quantity * 10 ^ 8) ∧
    a.lockAmount ≠ 0

/-- Price, quantity and, for a buyer, the cost fit into a signed 64-bit integer when scaled. -/
def FitsI64 (o : Order) (p : Decimal) : Prop :=
  p * 10 ^ 8 < 2 ^ 63 ∧ o.quantity * 10 ^ 8 < 2 ^ 63 ∧ (o.side = .buy → p * o.quantity * 10 ^ 8 < 2 ^ 63)

lemma scale_eq : (scale : ℚ) = 10 ^ 8 := by norm_num [scale]

lemma OnGrid.mul_int {d : Decimal} (h : OnGrid d) (k : ℤ) : OnGrid (d * k) := by
  obtain ⟨n,hn⟩ := h
  refine ⟨n * k,?_⟩
  rw [mul_right_comm, hn]
  push_cast
  ring

lemma eq_mul_of_decimalRem {x y : Decimal} (h : decimalRem x y = 0) : ∃ k : ℤ, x = y * k :=
  ⟨truncate (x / y),sub_eq_zero.mp h⟩

lemma decimalToI64_exact_iff {d : Decimal} (hpos : 0 < d) (h : OnGrid d) :
    (decimalToI64 d : ℚ) = d * 10 ^ 8 ↔ d * 10 ^ 8 < 2 ^ 63 := by
  obtain ⟨n,hn⟩ := h
  have hscaled : d * 10 ^ 8 = n := by rw [← hn, scale_eq]
  have hnpos : 0 < n := by
    have hlt : (0 : ℚ) < n := hscaled ▸ by positivity
    exact_mod_cast hlt
  unfold decimalToI64
  rw [hn, truncate_intCast, hscaled]
  by_cases hlt : n < 2 ^ 63
  · have hrange : -2 ^ 63 ≤ n ∧ n < 2 ^ 63 := ⟨by omega,hlt⟩
    simp only [if_pos hrange, true_iff]
    exact_mod_cast hlt
  · simp only [hlt, and_false, if_false, Int.cast_zero]
    constructor
    · intro hzero
      exact absurd (by exact_mod_cast hzero.symm) hnpos.ne'
    · intro hlt'
      exact absurd (by exact_mod_cast hlt') hlt

section Admitted
variable {pairs : PairsCache} {cfg : PairConfig} {o : Order} {p : Decimal}

lemma aligned_of_validateOrder (hcfg : pairs o.pairId = some cfg) (htick : 0 < cfg.tickSize) (hprice : o.price = some p)
    (h : validateOrder pairs o = .ok ()) : decimalRem o.quantity cfg.lotSize = 0 ∧ decimalRem p cfg.tickSize = 0 := by
  unfold validateOrder at h
  simp only [hcfg] at h
  split_ifs at h with hactive hlot hrange hstep
  refine ⟨not_not.mp hlot,?_⟩
  by_contra hrem
  exact hstep ⟨p,hprice,htick,hrem⟩

lemma onGrid_of_validateOrder (hcfg : pairs o.pairId = some cfg) (htick : 0 < cfg.tickSize)
    (hgtick : OnGrid cfg.tickSize) (hglot : OnGrid cfg.lotSize) (hgrid : OnGrid (cfg.tickSize * cfg.lotSize))
    (hprice : o.price = some p) (h : validateOrder pairs o = .ok ()) :
    OnGrid p ∧ OnGrid o.quantity ∧ OnGrid (p * o.quantity) := by
  obtain ⟨hlot,hstep⟩ := aligned_of_validateOrder hcfg htick hprice h
  obtain ⟨k,hk⟩ := eq_mul_of_decimalRem hlot
  obtain ⟨j,rfl⟩ := eq_mul_of_decimalRem hstep
  refine ⟨hgtick.mul_int j,hk ▸ hglot.mul_int k,?_⟩
  have hcost : cfg.tickSize * j * o.quantity = cfg.tickSize * cfg.lotSize * ((j * k : ℤ) : ℚ) := by
    rw [hk]
    push_cast
    ring
  rw [hcost]
  exact hgrid.mul_int (j * k)

/-- The amount to lock is the scaled cost of a buyer and the scaled quantity of a seller. -/
lemma amount_of_lockParams {asset : String} {amount : ℤ} (h : lockParams o = .ok (asset,amount)) :
    amount = match o.side with
      | .buy => decimalToI64 (o.price.getD 0 * o.quantity)
      | .sell => decimalToI64 o.quantity := by
  obtain ⟨_,_,_,_,hamount⟩ := lockParams_ok h
  exact hamount

end Admitted

/-- The scaled integers of an admitted limit order are exact when price, quantity and the cost of a
buyer fit. -/
theorem scaling_exact_iff (pairs : PairsCache) (cfg : PairConfig) (o : Order) (p : Decimal) (asset : String) (amount : ℤ)
    (hcfg : pairs o.pairId = some cfg) (htick : 0 < cfg.tickSize) (hgtick : OnGrid cfg.tickSize)
    (hglot : OnGrid cfg.lotSize) (hgrid : OnGrid (cfg.tickSize * cfg.lotSize))
    (hprice : o.price = some p) (hpos : 0 < p) (hcheck : checkOrder o.orderType o.price o.quantity = .ok ())
    (hvalid : validateOrder pairs o = .ok ()) (hlock : lockParams o = .ok (asset,amount)) :
    ScaledExactly o p (matchArgs o asset amount) ↔ FitsI64 o p := by
  have hqty : 0 < o.quantity := checkOrder_quantity_pos hcheck
  obtain ⟨hgp,hgq,hgpq⟩ := onGrid_of_validateOrder hcfg htick hgtick hglot hgrid hprice hvalid
  have hpI : ((o.priceI : ℤ) : ℚ) = p * 10 ^ 8 ↔ p * 10 ^ 8 < 2 ^ 63 := by
    simp only [Order.priceI, hprice]
    exact decimalToI64_exact_iff hpos hgp
  have hqI : ((o.qtyI : ℤ) : ℚ) = o.quantity * 10 ^ 8 ↔ o.quantity * 10 ^ 8 < 2 ^ 63 := decimalToI64_exact_iff hqty hgq
  have hamount := amount_of_lockParams hlock
  simp only [ScaledExactly, FitsI64, matchArgs, hpI, hqI]
  rw [hprice, Option.getD_some] at hamount
  -- an exact amount is positive
  have hne : ∀ {x : Decimal}, 0 < x → (amount : ℚ) = x * 10 ^ 8 → amount ≠ 0 := by
    rintro x hx hexact rfl
    have hzero : x * 10 ^ 8 = 0 := by simpa using hexact.symm
    exact absurd hzero (by positivity)
  cases hs : o.side with
  | buy =>
    rw [hs] at hamount
    have hlockI : (amount : ℚ) = p * o.quantity * 10 ^ 8 ↔ p * o.quantity * 10 ^ 8 < 2 ^ 63 :=
      hamount ▸ decimalToI64_exact_iff (mul_pos hpos hqty) hgpq
    simp only [forall_const]
    rw [and_iff_left_of_imp (hne (mul_pos hpos hqty)), hlockI]
  | sell =>
    rw [hs] at hamount
    have hlockI : (amount : ℚ) = o.quantity * 10 ^ 8 ↔ o.quantity * 10 ^ 8 < 2 ^ 63 :=
      hamount ▸ decimalToI64_exact_iff hqty hgq
    simp only [reduceCtorEq, IsEmpty.forall_iff, and_true]
    rw [and_iff_left_of_imp (hne hqty), hlockI, and_self]

/-- The bitcoin pair as it is seeded. -/
def seededPair : PairConfig := ⟨1 / 100,1 / 100000,1 / 100000,100,true⟩

def seededPairs : PairsCache := fun pair => if pair = "BTC-USDT" then some seededPair else none

/-- Bob bids for ten at the price. -/
def bidAt (price : Decimal) : Order :=
  { Order.gtcLimit 1 "bob" "BTC-USDT" .buy 0 0 with price := some price, quantity := 10, remaining := 10 }

lemma seededPair_onGrid : OnGrid seededPair.tickSize ∧ OnGrid seededPair.lotSize ∧
    OnGrid (seededPair.tickSize * seededPair.lotSize) :=
  ⟨⟨1000000,by norm_num [seededPair, scale]⟩,⟨1000,by norm_num [seededPair, scale]⟩,⟨10,by norm_num [seededPair, scale]⟩⟩

/-- At fifty thousand the integers are exact. -/
theorem scaling_exact_fifty_thousand : ScaledExactly (bidAt 50000) 50000 (matchArgs (bidAt 50000) "USDT" (500000 * scale)) :=
  (scaling_exact_iff seededPairs seededPair (bidAt 50000) 50000 "USDT" (500000 * scale) (by decide +kernel)
    (by decide +kernel) seededPair_onGrid.1 seededPair_onGrid.2.1 seededPair_onGrid.2.2 (by decide +kernel) (by norm_num)
    (by decide +kernel) (by decide +kernel) (by decide +kernel)).mpr
    ⟨by norm_num,by norm_num [bidAt],fun _ => by norm_num [bidAt]⟩

/-- At ten billion, which validation admits, the cost is out of range: nothing is locked. -/
theorem scaling_loses_lock : seededPairs (bidAt (10 ^ 10)).pairId = some seededPair ∧ OnGrid seededPair.tickSize ∧
    OnGrid seededPair.lotSize ∧ OnGrid (seededPair.tickSize * seededPair.lotSize) ∧
    checkOrder (bidAt (10 ^ 10)).orderType (bidAt (10 ^ 10)).price (bidAt (10 ^ 10)).quantity = .ok () ∧
    validateOrder seededPairs (bidAt (10 ^ 10)) = .ok () ∧ lockParams (bidAt (10 ^ 10)) = .ok ("USDT",0) ∧
    ¬ ScaledExactly (bidAt (10 ^ 10)) (10 ^ 10) (matchArgs (bidAt (10 ^ 10)) "USDT" 0) :=
  ⟨by decide +kernel,seededPair_onGrid.1,seededPair_onGrid.2.1,seededPair_onGrid.2.2,by decide +kernel,by decide +kernel,
    by decide +kernel,fun h => h.2.2.2 rfl⟩

end MatchingEngine

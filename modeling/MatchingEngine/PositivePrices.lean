import MatchingEngine.Crossing
import MatchingEngine.Gateway
import MatchingEngine.SelfTrade

/-! Prices of trades. Admission checks that a price is there and on the tick grid, not that it
is positive, and a resting market order lends the incoming order's price, which may be none. -/
namespace MatchingEngine
open Library

/-- An order that `create_order` and `validate_order` let through on a pair with a tick size. -/
structure Order.Admissible (pairs : PairsCache) (o : Order) : Prop where
  checked : checkOrder o.orderType o.price o.quantity = .ok ()
  valid : validateOrder pairs o = .ok ()
  tick : ∀ cfg ∈ pairs o.pairId, 0 < cfg.tickSize
  tif : o.tif ≠ .fok

instance (pairs : PairsCache) (o : Order) : Decidable (o.Admissible pairs) :=
  decidable_of_iff (checkOrder o.orderType o.price o.quantity = .ok () ∧ validateOrder pairs o = .ok () ∧
    (∀ cfg ∈ pairs o.pairId, 0 < cfg.tickSize) ∧ o.tif ≠ .fok) ⟨fun h => ⟨h.1,h.2.1,h.2.2.1,h.2.2.2⟩,fun h => ⟨h.1,h.2,h.3,h.4⟩⟩

/-- An order without a positive price does not put a limit price in the book, and does not
trade with a resting market order. -/
structure Order.PricesWell (o : Order) (db : Valkey) : Prop where
  rests : o.priceI ≤ 0 → o.orderType = .limit → o.tif = .gtc → ¬ o.LeavesRemainder db
  meets : o.priceI ≤ 0 → ∀ r, o.Meets db r → o.stpAction r.hash = .none → r.hash.orderType = .limit

/-- Resting limit orders have positive prices. -/
def Valkey.LimitsPositive (db : Valkey) : Prop :=
  ∀ id w, db.order id = some w → w.orderType = .limit → 0 < w.priceI

lemma checkOrder_priced {o : Order} (h : checkOrder o.orderType o.price o.quantity = .ok ()) : o.Priced := by
  intro hl
  unfold checkOrder at h
  by_contra hp
  split_ifs at h with h1 h2
  exact h2 ⟨hl,by simpa using hp⟩

section Submit
variable {s : Exchange} {o : Order} {asset : String} {amount : ℤ}

lemma Valkey.LimitsPositive.submit (hl : s.db.LimitsPositive) (hr : s.db.Represented) (hp : o.Priced) (hq : 0 ≤ o.qtyI)
    (hw : o.PricesWell s.db) : (s.submit o asset amount).db.LimitsPositive := by
  cases hlock : lockBalance s.db (matchArgs o asset amount) with
  | none =>
    rw [submit_of_no_lock hlock]
    exact hl
  | some db₁ =>
    rw [submit_of_lock hlock]
    intro id w ho hlim
    rcases settle_order_cases hlock ho with ⟨hrests,_,rfl⟩ | ⟨v,hv,rfl,hout⟩ | ⟨_,ho⟩
    · obtain ⟨htif,hleft⟩ := (rests_iff hr hp hq asset amount).mp hrests
      by_contra hneg
      exact hw.rests (not_lt.mp hneg) hlim htif hleft
    · obtain ⟨q,_,_,rfl⟩ := Visit.outcome_fields hout
      exact hl v.id v.resting.hash (planOn_visit hv).2.1 hlim
    · exact hl id w ho hlim

lemma fills_positive (hl : s.db.LimitsPositive) (hw : o.PricesWell s.db) (h : ∀ f ∈ s.fills, 0 < f.trade.priceI) :
    ∀ f ∈ (s.submit o asset amount).fills, 0 < f.trade.priceI := by
  cases hlock : lockBalance s.db (matchArgs o asset amount) with
  | none =>
    rw [submit_of_no_lock hlock]
    exact h
  | some db₁ =>
    rw [submit_of_lock hlock]
    intro f hf
    rcases List.mem_append.mp hf with hf | hf
    · exact h f hf
    · obtain ⟨t,ht,rfl⟩ := List.mem_map.mp hf
      obtain ⟨r,q,hv,rfl⟩ := Plan.mem_trades.mp ht
      obtain ⟨hmeets,hstp⟩ := ((planOn_meets o s.db asset amount).2.1 r).mp ⟨q,hv⟩
      have ho : s.db.order r.id = some r.hash := (planOn_visit hv).2.1
      by_cases hm : r.hash.orderType = .market
      · -- a resting market order takes the incoming price
        simp only [MatchArgs.trade, if_pos hm]
        by_contra hneg
        have hlim := hw.meets (not_lt.mp hneg) r hmeets hstp
        rw [hm] at hlim
        cases hlim
      · simp only [MatchArgs.trade, if_neg hm]
        exact hl r.id r.hash ho (by cases ht : r.hash.orderType <;> simp_all)

end Submit

/-- In a run of orders that price well every trade has a positive price. -/
theorem reachable_trade_price_pos {pairs : PairsCache} {s : Exchange}
    (h : Reachable (fun s o => o.Admissible pairs ∧ o.PricesWell s.db) s) :
    ∀ f ∈ s.fills, 0 < f.trade.toLuaTrade.price := by
  have hq : ∀ (s : Exchange) (o : Order), o.Admissible pairs ∧ o.PricesWell s.db → 0 ≤ o.qtyI :=
    fun _ o ho => decimalToI64_nonneg (checkOrder_quantity_pos ho.1.checked).le
  suffices hpos : s.db.LimitsPositive ∧ ∀ f ∈ s.fills, 0 < f.trade.priceI from
    fun f hf => i64ToDecimal_pos.mpr (hpos.2 f hf)
  obtain ⟨db,hbook,hrun⟩ := h
  induction hrun with
  | refl =>
    refine ⟨fun id w hw => ?_,by simp⟩
    rw [hbook.2 id] at hw
    cases hw
  | @tail t u hrun hstep ih =>
    have hinv := Reachable.invariant hq ⟨db,hbook,hrun⟩
    cases hstep with
    | submit o asset amount hfresh hadm =>
      exact ⟨ih.1.submit hinv.1 (checkOrder_priced hadm.1.checked) (hq t o hadm) hadm.2,fills_positive ih.1 hadm.2 ih.2⟩
    | remove o c _ _ _ _ =>
      refine ⟨fun id w hw => ?_,ih.2⟩
      simp only [Exchange.remove, Valkey.removeOrderFromBook, Valkey.dropOrder_order] at hw
      split_ifs at hw
      exact ih.1 id w hw

lemma pricesWell_of_pos {o : Order} (h : 0 < o.priceI) (db : Valkey) : o.PricesWell db :=
  ⟨fun hneg => absurd h (not_lt.mpr hneg),fun hneg => absurd h (not_lt.mpr hneg)⟩

/-- One bitcoin at a limit price. -/
def oneBitcoin (id : Uuid) (user : String) (side : Side) (price : Decimal) : Order :=
  ⟨id,user,"BTC-USDT",side,.limit,.gtc,some price,1,1,.new,.none,1,0,none⟩

/-- Alice offers a bitcoin at a price, and Bob buys it for a hundred at most. -/
def sold (price : Decimal) : Exchange :=
  ((Exchange.mk Valkey.empty [] []).submit (oneBitcoin 1 "alice" .sell price) "BTC" 0).submit
    (oneBitcoin 2 "bob" .buy 100) "USDT" 0

/-- The offer at a hundred is sold for a hundred. -/
theorem trade_price_pos_of_sale : (sold 100).fills.length = 1 ∧ ∀ f ∈ (sold 100).fills, 0 < f.trade.toLuaTrade.price := by
  have hrun : Reachable (fun s o => o.Admissible btcUsdt ∧ o.PricesWell s.db) (sold 100) := by
    refine ⟨Valkey.empty,⟨fun _ _ => rfl,fun _ => rfl⟩,(Relation.ReflTransGen.refl.tail
      (.submit _ _ _ (by simp) ⟨?_,pricesWell_of_pos ?_ _⟩)).tail
      (.submit _ _ _ (by decide +kernel) ⟨?_,pricesWell_of_pos ?_ _⟩)⟩
    all_goals decide +kernel
  exact ⟨by decide +kernel,reachable_trade_price_pos hrun⟩

/-- An offer at zero is let through and sold for nothing. -/
theorem trade_at_zero : ∃ (pairs : PairsCache) (s : Exchange), Reachable (fun _ o => o.Admissible pairs) s ∧
    ∃ f ∈ s.fills, f.trade.toLuaTrade.price = 0 ∧ ¬ 0 < f.trade.toLuaTrade.price := by
  refine ⟨btcUsdt,sold 0,⟨Valkey.empty,⟨fun _ _ => rfl,fun _ => rfl⟩,(Relation.ReflTransGen.refl.tail
    (.submit _ _ _ (by simp) ?_)).tail (.submit _ _ _ (by decide +kernel) ?_)⟩,by decide +kernel⟩
  · decide +kernel
  · decide +kernel

end MatchingEngine

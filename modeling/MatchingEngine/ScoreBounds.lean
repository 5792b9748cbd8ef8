import MatchingEngine.Library.Doubles
import MatchingEngine.Cache
import MatchingEngine.Crossing
import MatchingEngine.Engine
import MatchingEngine.Scaling
import MatchingEngine.SelfTradeRuns

/-! The price bound as a score. `load_order_book_filtered` and `match_order_lua` pass the limit
price to `ZRANGEBYSCORE` as a double; the reference matcher compares decimals and the script
integers. Up to `2^53` these are one test, on both sides and at the bound itself. -/
namespace MatchingEngine
open Library

/-! ### Bounds in doubles -/

/-- `i as f64`. `to_string` prints a double so that Valkey and Lua read the same double back. -/
def asF64 (i : ℤ) : ℤ := roundInt 53 i

/-- The upper bound of `load_order_book_filtered` on the set of `side`; `none` is `+inf`. -/
def filterScore (side : Side) (limitPrice : Option Decimal) : Option ℤ :=
  limitPrice.map (fun price =>
    let priceI := decimalToI64 price
    match side with
    | .sell => asF64 priceI
    | .buy => -asF64 priceI)

def Valkey.loadOrderBookFiltered (db : Valkey) (pairId : String) (side : Side) (limitPrice : Option Decimal) : List Order :=
  db.fetchOrdersByIds ((db.book pairId side).rangeByScore (filterScore side limitPrice))

/-- `max_score` of `match_order_lua`. -/
def maxScoreF64 (side : Side) (price : Option Decimal) : Option ℤ :=
  match side, price with
  | .buy, some p => some (asF64 (decimalToI64 p))
  | .sell, some p => some (-asF64 (decimalToI64 p))
  | _, none => none

/-- The arguments of the script with price, score and bound as the doubles it works with. -/
def matchArgsF64 (order : Order) (lockAsset : String) (lockAmountScaled : ℤ) : MatchArgs :=
  { matchArgs order lockAsset lockAmountScaled with
    priceI := asF64 order.priceI
    score := asF64 (signedPrice order.side order.priceI)
    maxScore := maxScoreF64 order.side order.price }

lemma asF64_eq_self {i : ℤ} (h : |i| ≤ 2 ^ 53) : asF64 i = i := roundInt_eq_self (by decide) h

/-- A limit price on the grid of eight decimals whose scaled value a double holds. -/
structure LimitPrice (p : Decimal) : Prop where
  pos : 0 < p
  grid : OnGrid p
  le : p * scale ≤ 2 ^ 53

structure Order.LimitAt (o : Order) (side : Side) (p : Decimal) : Prop where
  orderType : o.orderType = .limit
  side : o.side = side
  price : o.price = some p

lemma LimitPrice.exists_i64 {p : Decimal} (h : LimitPrice p) :
    ∃ i : ℤ, p = i64ToDecimal i ∧ 0 < i ∧ i ≤ 2 ^ 53 ∧ decimalToI64 p = i := by
  obtain ⟨i,hi⟩ := h.grid
  have hp : p = i64ToDecimal i := by rw [i64ToDecimal, ← hi, mul_div_cancel_right₀ p scale_pos.ne']
  have hpos : 0 < i := by
    have := mul_pos h.pos scale_pos
    rw [hi] at this
    exact_mod_cast this
  have hle : i ≤ 2 ^ 53 := by
    have := h.le
    rw [hi] at this
    exact_mod_cast this
  exact ⟨i,hp,hpos,hle,by rw [hp, decimalToI64_i64ToDecimal (by omega) (by omega)]⟩

section Bound
variable {o : Order} {side : Side} {p : Decimal} {i : ℤ}

lemma filterScore_eq (hi : decimalToI64 p = i) (hle : |i| ≤ 2 ^ 53) :
    filterScore side (some p) = some (signedPrice side i) := by
  cases side <;> simp [filterScore, signedPrice, hi, asF64_eq_self hle]

lemma matchArgsF64_eq (ho : o.LimitAt side p) (hi : decimalToI64 p = i) (hle : |i| ≤ 2 ^ 53) (asset : String) (amount : ℤ) :
    matchArgsF64 o asset amount = matchArgs o asset amount := by
  have hprice : asF64 o.priceI = o.priceI := by
    rw [Order.priceI, ho.price, Option.map_some, Option.getD_some, hi]
    exact asF64_eq_self hle
  have hpriceI : o.priceI = i := by rw [Order.priceI, ho.price, Option.map_some, Option.getD_some, hi]
  have hscore : asF64 (signedPrice o.side o.priceI) = signedPrice o.side o.priceI := by
    apply asF64_eq_self
    rw [hpriceI]
    cases o.side <;> simpa [signedPrice] using hle
  have hmax : maxScoreF64 o.side o.price = maxScore o.side o.price := by
    rw [ho.price]
    cases o.side <;> simp [maxScoreF64, maxScore, hi, asF64_eq_self hle]
  rw [matchArgsF64, hprice, hscore, hmax]
  rfl

lemma priceMatches_iff_score (ho : o.LimitAt side.opposite p) (hp : p = i64ToDecimal i) {h : OrderHash} (hl : h.orderType = .limit)
    (h0 : 0 < h.priceI) :
    Engine.priceMatches o (parseOrderFromHmget h) = true ↔ signedPrice side h.priceI ≤ signedPrice side i := by
  have hprice : (parseOrderFromHmget h).price = some (i64ToDecimal h.priceI) := by
    simp [parseOrderFromHmget, hl, h0.ne']
  have hne : o.orderType ≠ .market := by simp [ho.orderType]
  cases side <;>
    simp [Engine.priceMatches, hne, ho.side, ho.price, hp, hprice, Side.opposite, signedPrice, i64ToDecimal_le_iff]

end Bound

/-! ### Resting orders -/

/-- The orders resting in one set are limit orders with positive prices that doubles hold. -/
def Valkey.PricedInDoubles (db : Valkey) (pair : String) (side : Side) : Prop :=
  ∀ id h, id ∈ db.book pair side → db.order id = some h → h.orderType = .limit ∧ 0 < h.priceI ∧ h.priceI ≤ 2 ^ 53

/-- The price test never ends the loop: a live candidate, whatever candidates the loop has come through,
has its price read exactly and passes the test, so that only self-trade prevention breaks. -/
structure MatchArgs.NeverBreaksOnPrice (a : MatchArgs) (db : Valkey) : Prop where
  crosses : ∀ pre rid post h, candidates db a = pre ++ rid :: post → (a.loopOn db pre).db.order rid = some h →
    ¬ h.Consumed → a.Crosses { h with priceI := asF64 h.priceI } ∧ a.Crosses h
  breaks : ∀ ids, ids <+: candidates db a → (a.loopOn db ids).matchBreak → (a.loopOn db ids).status = .cancelled

section Loop
variable {a : MatchArgs} {db : Valkey}

lemma MatchArgs.loopOn_order {pre post : List Uuid} {rid : Uuid} (hc : candidates db a = pre ++ rid :: post) :
    (a.loopOn db pre).db.order rid = db.order rid :=
  (matchLoop_frame (notMem_of_candidates hc).1).1

/-- A step whose candidate is used up or crosses breaks only with the order cancelled. -/
lemma matchStep_matchBreak {s : MatchState} {rid : Uuid} (hs : s.matchBreak = false)
    (hx : ¬ ((s.db.order rid).getD (.missing rid)).Consumed → a.Crosses ((s.db.order rid).getD (.missing rid)))
    (hb : (matchStep a s rid).matchBreak) : (matchStep a s rid).status = .cancelled := by
  unfold matchStep at hb ⊢
  simp only at hb ⊢
  by_cases hc : ((s.db.order rid).getD (.missing rid)).Consumed
  · rw [if_pos hc, hs] at hb
    cases hb
  · rw [if_neg hc, if_neg (not_not.mpr (hx hc))] at hb ⊢
    cases ha : a.stpAction ((s.db.order rid).getD (.missing rid)) with
    | cancelTaker => rfl
    | cancelBoth => rfl
    | none =>
      rw [ha] at hb
      exact absurd hb (by simp [hs])
    | cancelMaker =>
      rw [ha] at hb
      exact absurd hb (by simp [hs])

lemma MatchArgs.loopOn_matchBreak (hx : ∀ rid ∈ candidates db a, ∀ h, db.order rid = some h → a.Crosses h)
    {ids : List Uuid} (hids : ids <+: candidates db a) (hb : (a.loopOn db ids).matchBreak) :
    (a.loopOn db ids).status = .cancelled := by
  induction ids using List.reverseRecOn with
  | nil => cases hb
  | append_singleton pre rid ih =>
    obtain ⟨post,hpost⟩ := hids
    have hc : candidates db a = pre ++ rid :: post := by rw [← hpost, List.append_assoc, List.singleton_append]
    have hpre : pre <+: candidates db a := ⟨_,hc.symm⟩
    have horder : (a.loopOn db pre).db.order rid = db.order rid := loopOn_order hc
    have hstep : a.loopOn db (pre ++ [rid]) = matchLoop a [rid] (a.loopOn db pre) := matchLoop_append a pre [rid] _
    rw [hstep, matchLoop] at hb ⊢
    split_ifs at hb ⊢ with hstop
    · exact ih hpre hb
    · have hrun : (a.loopOn db pre).matchBreak = false := by
        simpa using (not_or.mp hstop).2
      refine matchStep_matchBreak hrun (fun hlive => ?_) hb
      cases ho : db.order rid with
      | none =>
        rw [horder, ho] at hlive
        exact absurd (.inr (.inr le_rfl)) hlive
      | some h =>
        rw [horder, ho]
        exact hx rid (by simp [hc]) h ho

end Loop

section Selection
variable {db : Valkey} {pair : String} {side : Side} {p : Decimal}

lemma loadOrderBookFiltered_eq (hr : db.Represented) (hb : db.PricedInDoubles pair side) (hp : LimitPrice p) {o : Order}
    (ho : o.LimitAt side.opposite p) :
    db.loadOrderBookFiltered pair side (some p) = (db.loadOrderBook pair side).filter (Engine.priceMatches o) := by
  obtain ⟨i,hpi,h0,hle,hi⟩ := hp.exists_i64
  rw [Valkey.loadOrderBookFiltered, filterScore_eq hi (by rw [abs_of_pos h0]; exact hle)]
  refine SortedSet.filterMap_rangeByScore (fun e he x hx => ?_)
  obtain ⟨h,hh,_,_,hscore⟩ := hr.entry pair side e he
  obtain ⟨hl,hpos,_⟩ := hb e.member h (SortedSet.mem_iff.mpr ⟨e,he,rfl⟩) hh
  rw [hh] at hx
  obtain rfl : parseOrderFromHmget h = x := by simpa using hx
  rw [priceMatches_iff_score ho hpi hl hpos, hscore]

/-- What is fetched under the bound stays within the price through the whole loop. -/
lemma neverBreaksOnPrice (hr : db.Represented) (hp : LimitPrice p) {o : Order} (ho : o.LimitAt side.opposite p)
    (hb : db.PricedInDoubles o.pairId side) {asset : String} {amount : ℤ} {db₁ : Valkey}
    (hlock : lockBalance db (matchArgsF64 o asset amount) = some db₁) :
    (matchArgsF64 o asset amount).NeverBreaksOnPrice db₁ := by
  obtain ⟨i,_,h0,hle,hi⟩ := hp.exists_i64
  rw [matchArgsF64_eq ho hi (by rw [abs_of_pos h0]; exact hle)] at hlock ⊢
  obtain ⟨horder,hbook,_⟩ := lockBalance_frame hlock
  have hpriced : o.Priced := fun _ => by rw [ho.price]; rfl
  have hopp : o.side.opposite = side := by rw [ho.side]; cases side <;> rfl
  have hcand : candidates db₁ (matchArgs o asset amount) = candidates db (matchArgs o asset amount) := by
    rw [candidates, hbook, candidates]
  have hx : ∀ rid ∈ candidates db₁ (matchArgs o asset amount), ∀ h, db₁.order rid = some h →
      (matchArgs o asset amount).Crosses h := by
    intro rid hm h hh
    rw [hcand] at hm
    rw [horder] at hh
    exact resting_candidates_cross hr hpriced (r := ⟨rid,h⟩) (mem_resting.mpr ⟨hm,hh⟩)
  refine ⟨fun pre rid post h hc hh hlive => ?_,fun ids hids => MatchArgs.loopOn_matchBreak hx hids⟩
  rw [MatchArgs.loopOn_order hc] at hh
  have hm : rid ∈ candidates db₁ (matchArgs o asset amount) := by simp [hc]
  have hcross : (matchArgs o asset amount).Crosses h := hx rid hm h hh
  have hread : asF64 h.priceI = h.priceI := by
    rw [hcand] at hm
    obtain ⟨e,he,_,rfl⟩ := SortedSet.mem_rangeByScore.mp (List.mem_of_mem_take hm)
    have hmem : e.member ∈ db.book o.pairId side := SortedSet.mem_iff.mpr ⟨e,hopp ▸ he,rfl⟩
    obtain ⟨_,hpos,hle⟩ := hb e.member h hmem (horder ▸ hh)
    exact asF64_eq_self (by rw [abs_of_pos hpos]; exact hle)
  exact ⟨by rw [hread]; exact hcross,hcross⟩

end Selection

/-- The bound selects exactly the crossing orders: the filtered listing keeps the order of the whole one and
holds what the reference matcher finds price-compatible, and behind the bound of the script no live
candidate fails its price test. -/
theorem score_bound_selects_crossing {db : Valkey} (hr : db.Represented) (pair : String) (side : Side)
    (hb : db.PricedInDoubles pair side) (p : Decimal) (hp : LimitPrice p) :
    (∀ o : Order, o.LimitAt side.opposite p →
      db.loadOrderBookFiltered pair side (some p) = (db.loadOrderBook pair side).filter (Engine.priceMatches o)) ∧
    ∀ (o : Order) (asset : String) (amount : ℤ) (db₁ : Valkey), o.LimitAt side.opposite p → o.pairId = pair →
      lockBalance db (matchArgsF64 o asset amount) = some db₁ → (matchArgsF64 o asset amount).NeverBreaksOnPrice db₁ := by
  constructor
  · intro o ho
    exact loadOrderBookFiltered_eq hr hb hp ho
  · rintro o asset amount db₁ ho rfl hlock
    exact neverBreaksOnPrice hr hp ho hb hlock

def bidLadder : Exchange :=
  ((Exchange.mk Valkey.empty [] []).submit (.gtcLimit 1 "alice" "BTC-USDT" .buy 95 5) "USDT" 0).submit
    (.gtcLimit 2 "carol" "BTC-USDT" .buy 90 5) "USDT" 0

lemma bidLadder_represented : bidLadder.db.Represented ∧ bidLadder.db.PricedInDoubles "BTC-USDT" .buy := by
  have hreach : Reachable (fun _ o => o.orderType = .limit ∧ o.price.isSome ∧ o.InScale) bidLadder := by
    refine ⟨Valkey.empty,⟨fun _ _ => rfl,fun _ => rfl⟩,(Relation.ReflTransGen.refl.tail
      (.submit _ _ _ ?_ ⟨rfl,rfl,Order.gtcLimit_inScale _ _ _ _ (by decide) (by decide)⟩)).tail
      (.submit _ _ _ ?_ ⟨rfl,rfl,Order.gtcLimit_inScale _ _ _ _ (by decide) (by decide)⟩)⟩
    · intro p hp
      obtain rfl := List.mem_singleton.mp hp
      decide
    · simp
  obtain ⟨hr,hs⟩ := hreach.invariant (fun _ o ho => ho.2.2.qty_pos.le)
  refine ⟨hr,fun id h _ hid => ?_⟩
  obtain ⟨o,ho,_,hsource⟩ := hs.source id h hid
  have hsub : ∀ o ∈ bidLadder.submitted, o.orderType = .limit ∧ 0 < o.priceI ∧ o.priceI ≤ 2 ^ 53 := by decide +kernel
  rw [hsource]
  exact hsub o ho

/-- A seller at the better bid's price meets that bid and not the other. -/
theorem score_bound_at_best_bid :
    (bidLadder.db.loadOrderBook "BTC-USDT" .buy).length = 2 ∧
    (bidLadder.db.loadOrderBookFiltered "BTC-USDT" .buy (some (i64ToDecimal 95))).map Order.id = [1] ∧
    bidLadder.db.loadOrderBookFiltered "BTC-USDT" .buy (some (i64ToDecimal 95)) =
      (bidLadder.db.loadOrderBook "BTC-USDT" .buy).filter
        (Engine.priceMatches (.gtcLimit 3 "bob" "BTC-USDT" .sell 95 7)) ∧
    (matchArgsF64 (.gtcLimit 3 "bob" "BTC-USDT" .sell 95 7) "BTC" 0).NeverBreaksOnPrice bidLadder.db := by
  obtain ⟨hr,hb⟩ := bidLadder_represented
  have hp : LimitPrice (i64ToDecimal 95) := ⟨by norm_num [i64ToDecimal, scale],⟨95,by norm_num [i64ToDecimal, scale]⟩,
    by norm_num [i64ToDecimal, scale]⟩
  obtain ⟨hfilter,hloop⟩ := score_bound_selects_crossing hr "BTC-USDT" .buy hb (i64ToDecimal 95) hp
  exact ⟨by decide +kernel,by decide +kernel,hfilter (.gtcLimit 3 "bob" "BTC-USDT" .sell 95 7) ⟨rfl,rfl,rfl⟩,
    hloop (.gtcLimit 3 "bob" "BTC-USDT" .sell 95 7) "BTC" 0 bidLadder.db ⟨rfl,rfl,rfl⟩ rfl rfl⟩

end MatchingEngine

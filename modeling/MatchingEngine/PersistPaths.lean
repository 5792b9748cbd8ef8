import MatchingEngine.Outcomes
import MatchingEngine.TradeSettlement

/-! The gateway's `persist_order` and the api's `process_persist_batch` on the same job. The gateway
updates balances by a join, which does not reach a missing row, and leaves the row of a resting order
as the insert left it; the api upserts and always writes the row of the order. -/
namespace MatchingEngine
open Library

/-- What a match on some store hands to the database. -/
def Matched.OfMatch (m : Matched) : Prop :=
  ∃ (db : Valkey) (o : Order) (newV4 : ℕ → Uuid) (asset : String) (amount : ℤ),
    lockParams o = .ok (asset,amount) ∧ m = o.matchedOn db newV4 asset amount

/-- A row after the job's fills of its order. -/
def Matched.filledRow (m : Matched) (id : Uuid) (r : Order) : Order := (fillsOf [m] id).foldl (fun r q => fillRow q r) r

section OfMatch
variable {m : Matched}

lemma Matched.OfMatch.pair (h : m.OfMatch) :
    ∃ pair, parsePairId m.order.pairId = .ok pair ∧ ∀ t ∈ m.trades, parsePairId t.pairId = .ok pair := by
  obtain ⟨db,o,newV4,asset,amount,hlock,rfl⟩ := h
  obtain ⟨base,quote,hp,_⟩ := lockParams_ok hlock
  refine ⟨(base,quote),hp,fun t ht => ?_⟩
  obtain ⟨i,_,rfl⟩ := List.mem_mapIdx.mp ht
  exact hp

lemma Matched.OfMatch.parses (h : m.OfMatch) : m.Parses := by
  obtain ⟨pair,hp,ht⟩ := h.pair
  exact ⟨balanceDeltas_of_parses (fun t h => ⟨pair,ht t h⟩),_,releaseParams_of_parse hp⟩

lemma Matched.OfMatch.makers_nodup (h : m.OfMatch) : (m.luaTrades.map LuaTrade.restingOrderId).Nodup := by
  obtain ⟨db,o,newV4,asset,amount,_,rfl⟩ := h
  simp only [Order.matchedOn, List.map_map]
  exact Plan.trades_restingIds_nodup (planOn_ids_nodup (matchArgs o asset amount) db)

lemma Matched.OfMatch.quantity_pos (h : m.OfMatch) : ∀ lt ∈ m.luaTrades, 0 < lt.quantity := by
  obtain ⟨db,o,newV4,asset,amount,_,rfl⟩ := h
  intro lt hlt
  obtain ⟨t,ht,rfl⟩ := List.mem_map.mp hlt
  obtain ⟨r,q,hv,rfl⟩ := Plan.mem_trades.mp ht
  exact i64ToDecimal_pos.mpr ((planOn_visit hv).1.fill q rfl).1

end OfMatch

/-! ### Orders -/

section Orders
variable (pg : Postgres) (m : Matched) {id : Uuid}

variable {m}

lemma Postgres.ordersAfterPersist_rows (hn : (m.luaTrades.map LuaTrade.restingOrderId).Nodup) :
    (pg.ordersAfterPersist m).get id = ((pg.insertOrder m.order).orders.get id).map (fun r =>
      if id = m.order.id ∧ ¬ m.order.status.IsOpen then finishRow m.order (m.filledRow id r) else m.filledRow id r) := by
  have hfill : ∀ r, ((m.luaTrades.map (fun lt => (lt.restingOrderId,lt.quantity))).lookup id).elim r (fun q => fillRow q r) =
      m.filledRow id r := by
    intro r
    have hfills : fillsOf [m] id = (m.luaTrades.filter (fun lt => lt.restingOrderId = id)).map LuaTrade.quantity := by
      simp [fillsOf]
    rw [Matched.filledRow, hfills, Matched.fills_eq_lookup hn]
    cases (m.luaTrades.map (fun lt => (lt.restingOrderId,lt.quantity))).lookup id <;> rfl
  unfold ordersAfterPersist
  by_cases hopen : m.order.status.IsOpen
  · simp [hopen, hfill]
  · by_cases hid : id = m.order.id
    · simp [hopen, ← hid, hfill, Function.comp_def]
    · simp [hopen, hid, hfill]

lemma ordersBatch_singleton_get :
    (ordersBatch pg.orders [m]).get id = ((pg.insertOrder m.order).orders.get id).map (fun r =>
      if id = m.order.id then finishRow m.order (m.filledRow id r) else m.filledRow id r) := by
  rw [insertOrder_orders]
  simp only [ordersBatch, List.foldl_cons, List.foldl_nil, List.map_cons, List.map_nil, finishTaker, Table.get_modify]
  have hget := foldl_fillMakers_get (insertRow pg.orders m.order) [m] id
  simp only [List.foldl_cons, List.foldl_nil] at hget
  rw [hget]
  split_ifs
  · rw [Option.map_map]
    rfl
  · rfl

end Orders

/-! ### Balances -/

section Balances
variable {m : Matched}

lemma Matched.OfMatch.settledAt_eq (h : m.OfMatch) (k : String × String) :
    m.settledAt k = totalDelta (m.trades.flatMap (fun t => t.movesAt k)) := by
  obtain ⟨pair,_,ht⟩ := h.pair
  obtain ⟨d,hd,hget⟩ := foldlM_addTradeDeltas_movesAt (fun t h => ⟨pair,ht t h⟩) Table.empty
  rw [Matched.settledAt, balanceDeltas, hd]
  change d.get k = _
  rw [hget k, Table.get_empty, Option.merge_none_left]

lemma flatMap_movesAt_ne_nil {ts : List Trade} {k : String × String} :
    ts.flatMap (fun t => t.movesAt k) ≠ [] ↔ ∃ t ∈ ts, t.Debits k ∨ t.Credits k := by
  simp only [Ne, List.flatMap_eq_nil_iff, not_forall, exists_prop]
  refine exists_congr fun t => and_congr_right fun _ => ?_
  rw [← Trade.exists_debit_iff, ← Trade.exists_credit_iff, ← exists_or, List.eq_nil_iff_forall_not_mem]
  simp only [not_forall, not_not]
  refine exists_congr fun x => ?_
  cases x.isDebit <;> simp

end Balances

/-- Bob buys what Alice offers. -/
def bobsBuy : Matched := (Order.gtcLimit 2 "bob" "BTC-USDT" .buy 100 5).matchedOn oneAsk.db (fun _ => 20) "USDT" 0

end MatchingEngine

import MatchingEngine.Library.Table
import MatchingEngine.Requests

/-! The database side: the tables `orders`, `trades` and `balances`, the statements run on
them, the gateway's `persist_order` and the api's `process_persist_job` and
`process_persist_batch`. Statements always succeed here, as they do with texts that fit their
columns; a parse failure aborts. -/
namespace MatchingEngine
open Library

/-- A row of `balances`. -/
@[ext] structure Balance where
  available : Decimal
  locked : Decimal
  deriving DecidableEq, Repr

/-- Keys are order ids, trade ids and `(user_id, asset)`. -/
@[ext] structure Postgres where
  orders : Table Uuid Order
  trades : Table Uuid Trade
  balances : Table (String × String) Balance

def Postgres.empty : Postgres := ⟨Table.empty,Table.empty,Table.empty⟩

/-- Aggregated settlement per `(user_id, asset)`: decrease of `locked`, increase of
`available`. The code sorts the map before use, to fix the order of row locks. -/
abbrev Deltas := Table (String × String) (Decimal × Decimal)

/-- A matched order on its way to the database. -/
abbrev PersistJob := Matched

/-! ### Row updates -/

/-- `locked = GREATEST(locked - dec, 0), available = available + inc`. -/
def settleRow (d : Decimal × Decimal) (b : Balance) : Balance := ⟨b.available + d.2,max (b.locked - d.1) 0⟩

/-- `available = available + amount, locked = GREATEST(locked - amount, 0)`. -/
def releaseRow (amount : Decimal) (b : Balance) : Balance := ⟨b.available + amount,max (b.locked - amount) 0⟩

def OrderStatus.IsOpen (s : OrderStatus) : Prop := s = .new ∨ s = .partiallyFilled

instance (s : OrderStatus) : Decidable s.IsOpen := inferInstanceAs (Decidable (_ ∨ _))

/-- A maker's row after a fill; rows that are no longer open are left alone. -/
def fillRow (fillQty : Decimal) (r : Order) : Order :=
  if r.status.IsOpen then
    { r with
      remaining := max (r.remaining - fillQty) 0
      status := if max (r.remaining - fillQty) 0 = 0 then .filled else .partiallyFilled
      version := r.version + 1 }
  else r

lemma fillRow_keeps (q : Decimal) (r : Order) :
    (fillRow q r).userId = r.userId ∧ (fillRow q r).clientOrderId = r.clientOrderId := by
  unfold fillRow
  split_ifs <;> exact ⟨rfl,rfl⟩

/-- The incoming order's row after the match. -/
def finishRow (order r : Order) : Order :=
  { r with remaining := order.remaining, status := order.status, version := r.version + 1 }

/-! ### Statements -/

/-- One trade's four entries in the settlement map. -/
def addTradeDeltas (d : Deltas) (t : Trade) : Except String Deltas := do
  let (base,quote) ← parsePairId t.pairId
  let cost := t.price * t.quantity
  let d := d.upsert (t.buyerId,quote) (cost,0) (fun x => (x.1 + cost,x.2))
  let d := d.upsert (t.buyerId,base) (0,t.quantity) (fun x => (x.1,x.2 + t.quantity))
  let d := d.upsert (t.sellerId,base) (t.quantity,0) (fun x => (x.1 + t.quantity,x.2))
  return d.upsert (t.sellerId,quote) (0,cost) (fun x => (x.1,x.2 + cost))

def balanceDeltas (trades : List Trade) : Except String Deltas := trades.foldlM addTradeDeltas Table.empty

/-- One entry of the settlement map. -/
def Deltas.add (d : Deltas) (k : String × String) (x : Decimal × Decimal) : Deltas := d.upsert k x (· + x)

/-- The buyer gets the base for the quote, the seller the quote for the base. -/
def Deltas.addTrade (d : Deltas) (t : Trade) (base quote : String) : Deltas :=
  (((d.add (t.buyerId,quote) (t.price * t.quantity,0)).add (t.buyerId,base) (0,t.quantity)).add
    (t.sellerId,base) (t.quantity,0)).add (t.sellerId,quote) (0,t.price * t.quantity)

lemma addTradeDeltas_eq (d : Deltas) {t : Trade} {base quote : String} (h : parsePairId t.pairId = .ok (base,quote)) :
    addTradeDeltas d t = .ok (d.addTrade t base quote) := by
  have hl : ∀ c : Decimal, (fun x : Decimal × Decimal => (x.1 + c,x.2)) = (· + (c,0)) :=
    fun c => funext (fun x => by simp [Prod.ext_iff])
  have hr : ∀ c : Decimal, (fun x : Decimal × Decimal => (x.1,x.2 + c)) = (· + (0,c)) :=
    fun c => funext (fun x => by simp [Prod.ext_iff])
  unfold addTradeDeltas
  rw [h]
  simp only [hl, hr]
  rfl

lemma addTradeDeltas_ok {d d' : Deltas} {t : Trade} (h : addTradeDeltas d t = .ok d') :
    ∃ base quote, parsePairId t.pairId = .ok (base,quote) ∧ d' = d.addTrade t base quote := by
  cases hp : parsePairId t.pairId with
  | error e =>
    unfold addTradeDeltas at h
    rw [hp] at h
    cases h
  | ok p =>
    obtain ⟨base,quote⟩ := p
    rw [addTradeDeltas_eq d hp] at h
    cases h
    exact ⟨base,quote,rfl,rfl⟩

/-- A fully resolved order with a remainder gives its reservation back. -/
def Order.NeedsRelease (o : Order) : Prop := (o.status = .cancelled ∨ o.status = .filled) ∧ o.remaining ≠ 0

instance (o : Order) : Decidable o.NeedsRelease := inferInstanceAs (Decidable (_ ∧ _))

/-- The asset and the amount released. -/
def releaseParams (o : Order) : Except String (String × Decimal) := do
  let (base,quote) ← parsePairId o.pairId
  match o.side with
  | .buy => return (quote,o.price.getD 0 * o.remaining)
  | .sell => return (base,o.remaining)

lemma releaseParams_of_parse {o : Order} {base quote : String} (h : parsePairId o.pairId = .ok (base,quote)) :
    releaseParams o = .ok (match o.side with
      | .buy => (quote,o.price.getD 0 * o.remaining)
      | .sell => (base,o.remaining)) := by
  unfold releaseParams
  rw [h]
  cases o.side <;> rfl

lemma releaseParams_ok {o : Order} {p : String × Decimal} (h : releaseParams o = .ok p) :
    ∃ base quote, parsePairId o.pairId = .ok (base,quote) ∧
      p = match o.side with
        | .buy => (quote,o.price.getD 0 * o.remaining)
        | .sell => (base,o.remaining) := by
  cases hp : parsePairId o.pairId with
  | error e =>
    unfold releaseParams at h
    rw [hp] at h
    cases h
  | ok pair =>
    obtain ⟨base,quote⟩ := pair
    rw [releaseParams_of_parse hp] at h
    exact ⟨base,quote,rfl,(Except.ok.inj h).symm⟩

namespace Postgres

/-- `idx_orders_idempotency`: the user already has a row with this client order id. -/
def clientOrderIdTaken (pg : Postgres) (o : Order) : Bool :=
  o.clientOrderId.isSome &&
    pg.orders.rows.any (fun r => r.2.userId = o.userId ∧ r.2.clientOrderId = o.clientOrderId)

/-- `INSERT INTO orders … ON CONFLICT DO NOTHING`. -/
def insertOrder (pg : Postgres) (o : Order) : Postgres :=
  if pg.clientOrderIdTaken o then pg else { pg with orders := pg.orders.insertNew o.id o }

/-- `INSERT INTO trades … ON CONFLICT DO NOTHING`. -/
def insertTrades (pg : Postgres) (ts : List Trade) : Postgres :=
  { pg with trades := ts.foldl (fun t trade => t.insertNew trade.id trade) pg.trades }

def updateOrder (pg : Postgres) (id : Uuid) (f : Order → Order) : Postgres :=
  { pg with orders := pg.orders.modify id f }

/-- `UPDATE balances … WHERE user_id AND asset`. -/
def release (pg : Postgres) (o : Order) : Except String Postgres := do
  if o.NeedsRelease then
    let (asset,amount) ← releaseParams o
    return { pg with balances := pg.balances.modify (o.userId,asset) (releaseRow amount) }
  else return pg

/-- `INSERT INTO balances … ON CONFLICT (user_id, asset) DO UPDATE`, once per key. -/
def upsertDeltas (pg : Postgres) (d : Deltas) : Postgres :=
  { pg with balances := d.rows.foldl (fun b r => b.upsert r.1 ⟨r.2.2,0⟩ (settleRow r.2)) pg.balances }

/-- The maker updates of the api: one `UPDATE orders` per trade. -/
def updateRestingOrdersAfterLua (pg : Postgres) (lts : List LuaTrade) : Postgres :=
  lts.foldl (fun pg lt => pg.updateOrder lt.restingOrderId (fillRow lt.quantity)) pg

/-- The gateway's transaction. Balances and makers are updated by joins, which reach existing
rows only, and a resting order keeps the row just inserted. -/
def persistOrder (pg : Postgres) (m : Matched) : Except String Postgres := do
  let pg := pg.insertOrder m.order
  let deltas ← balanceDeltas m.trades
  let pg := pg.insertTrades m.trades
  let pg := { pg with balances := pg.balances.updateFrom deltas.rows settleRow }
  let fills := m.luaTrades.map (fun lt => (lt.restingOrderId,lt.quantity))
  let pg := { pg with orders := pg.orders.updateFrom fills fillRow }
  let pg := if m.order.status.IsOpen then pg else pg.updateOrder m.order.id (finishRow m.order)
  pg.release m.order

/-- `persist_trades`: one transaction, rolled back when a pair does not parse. -/
def persistTrades (pg : Postgres) (trades : List Trade) : Except String Postgres := do
  let deltas ← balanceDeltas trades
  return (pg.insertTrades trades).upsertDeltas deltas

/-- `process_persist_job`: five separate statements or transactions, so that an error keeps
the effects of the earlier ones. -/
def processPersistJob (pg : Postgres) (job : PersistJob) : Except String Unit × Postgres :=
  let pg := pg.insertOrder job.order
  match pg.persistTrades job.trades with
  | .error e => (.error e,pg)
  | .ok pg =>
    let pg := pg.updateRestingOrdersAfterLua job.luaTrades
    let pg := pg.updateOrder job.order.id (finishRow job.order)
    match pg.release job.order with
    | .error e => (.error e,pg)
    | .ok pg => (.ok (),pg)

/-- `process_persist_batch`: one transaction for all jobs, ordered by phase. -/
def processPersistBatch (pg : Postgres) (batch : List PersistJob) : Except String Postgres := do
  let pg := batch.foldl (fun pg job => pg.insertOrder job.order) pg
  let trades := batch.flatMap Matched.trades
  let deltas ← balanceDeltas trades
  let pg := (pg.insertTrades trades).upsertDeltas deltas
  let pg := batch.foldl (fun pg job => pg.updateRestingOrdersAfterLua job.luaTrades) pg
  let pg := batch.foldl (fun pg job => pg.updateOrder job.order.id (finishRow job.order)) pg
  batch.foldlM (fun pg job => pg.release job.order) pg

/-! ### What a successful call did -/

lemma release_ok {pg pg' : Postgres} {o : Order} (h : pg.release o = .ok pg') :
    pg'.orders = pg.orders ∧ pg'.trades = pg.trades ∧
    (¬ o.NeedsRelease ∧ pg'.balances = pg.balances ∨
      o.NeedsRelease ∧ ∃ asset amount, releaseParams o = .ok (asset,amount) ∧
        pg'.balances = pg.balances.modify (o.userId,asset) (releaseRow amount)) := by
  unfold release at h
  split_ifs at h with hn
  · cases hp : releaseParams o with
    | error e => rw [hp] at h; cases h
    | ok p =>
      rw [hp] at h
      cases h
      exact ⟨rfl,rfl,.inr ⟨hn,_,_,rfl,rfl⟩⟩
  · cases h
    exact ⟨rfl,rfl,.inl ⟨hn,rfl⟩⟩

@[simp] lemma insertOrder_balances (pg : Postgres) (o : Order) : (pg.insertOrder o).balances = pg.balances := by
  unfold insertOrder
  split_ifs <;> rfl

@[simp] lemma insertOrder_trades (pg : Postgres) (o : Order) : (pg.insertOrder o).trades = pg.trades := by
  unfold insertOrder
  split_ifs <;> rfl

lemma insertOrder_get_of_ne (pg : Postgres) {o : Order} {id : Uuid} (h : id ≠ o.id) :
    (pg.insertOrder o).orders.get id = pg.orders.get id := by
  unfold insertOrder
  split_ifs
  · rfl
  · simp [h]

lemma insertOrder_get_self {pg : Postgres} {o r : Order} (hfresh : pg.orders.get o.id = none)
    (hr : (pg.insertOrder o).orders.get o.id = some r) : r = o := by
  unfold insertOrder at hr
  split_ifs at hr
  · rw [hfresh] at hr
    cases hr
  · simpa [hfresh, eq_comm] using hr

/-- The orders table after `persist_order`. -/
def ordersAfterPersist (pg : Postgres) (m : Matched) : Table Uuid Order :=
  let filled := (pg.insertOrder m.order).orders.updateFrom
    (m.luaTrades.map (fun lt => (lt.restingOrderId,lt.quantity))) fillRow
  if m.order.status.IsOpen then filled else filled.modify m.order.id (finishRow m.order)

/-- Rows of other orders are filled by the job's trade with them, if there is one. -/
lemma ordersAfterPersist_get_of_ne (pg : Postgres) {m : Matched} {id : Uuid} (h : id ≠ m.order.id) :
    (pg.ordersAfterPersist m).get id = (pg.orders.get id).map (fun r =>
      ((m.luaTrades.map (fun lt => (lt.restingOrderId,lt.quantity))).lookup id).elim r (fun q => fillRow q r)) := by
  rw [← insertOrder_get_of_ne pg h, ← Table.get_updateFrom]
  unfold ordersAfterPersist
  simp only
  split_ifs
  · rfl
  · rw [Table.get_modify, if_neg h]

lemma ordersAfterPersist_self {pg : Postgres} {m : Matched} (hfresh : pg.orders.get m.order.id = none)
    (hself : ∀ lt ∈ m.luaTrades, lt.restingOrderId ≠ m.order.id) {r : Order}
    (hr : (pg.ordersAfterPersist m).get m.order.id = some r) :
    r = if m.order.status.IsOpen then m.order else finishRow m.order m.order := by
  have hown : (m.luaTrades.map (fun lt => (lt.restingOrderId,lt.quantity))).lookup m.order.id = none := by
    rw [Table.lookup_eq_none, List.map_map]
    intro hmem
    obtain ⟨lt,hlt,he⟩ := List.mem_map.mp hmem
    exact hself lt hlt he
  unfold ordersAfterPersist at hr
  simp only at hr
  split_ifs at hr ⊢ with hst
  · rw [Table.get_updateFrom, hown, Option.map_eq_some_iff] at hr
    obtain ⟨r₀,hr₀,rfl⟩ := hr
    exact insertOrder_get_self hfresh hr₀
  · rw [Table.get_modify, if_pos rfl, Table.get_updateFrom, hown, Option.map_map, Option.map_eq_some_iff] at hr
    obtain ⟨r₀,hr₀,rfl⟩ := hr
    obtain rfl := insertOrder_get_self hfresh hr₀
    rfl

lemma persistOrder_eq (pg : Postgres) {m : Matched} {deltas : Deltas} (hd : balanceDeltas m.trades = .ok deltas) :
    pg.persistOrder m = Postgres.release ⟨pg.ordersAfterPersist m,(pg.insertTrades m.trades).trades,
      pg.balances.updateFrom deltas.rows settleRow⟩ m.order := by
  unfold persistOrder
  rw [hd]
  change Postgres.release _ m.order = _
  congr 1
  unfold ordersAfterPersist
  by_cases ho : m.order.status.IsOpen
  · simp [ho, insertTrades]
  · simp [ho, insertTrades, updateOrder]

/-- A committed `persist_order`: inserts, settlement, maker and taker updates, release. -/
theorem persistOrder_ok {pg pg' : Postgres} {m : Matched} (h : pg.persistOrder m = .ok pg') :
    ∃ deltas, balanceDeltas m.trades = .ok deltas ∧
      pg'.orders = pg.ordersAfterPersist m ∧ pg'.trades = (pg.insertTrades m.trades).trades ∧
      (¬ m.order.NeedsRelease ∧ pg'.balances = pg.balances.updateFrom deltas.rows settleRow ∨
        m.order.NeedsRelease ∧ ∃ asset amount, releaseParams m.order = .ok (asset,amount) ∧
          pg'.balances = (pg.balances.updateFrom deltas.rows settleRow).modify (m.order.userId,asset)
            (releaseRow amount)) := by
  cases hd : balanceDeltas m.trades with
  | error e =>
    unfold persistOrder at h
    rw [hd] at h
    cases h
  | ok deltas =>
    rw [persistOrder_eq pg hd] at h
    obtain ⟨ho,ht,hb⟩ := release_ok h
    exact ⟨deltas,rfl,ho,ht,hb⟩

end Postgres
end MatchingEngine

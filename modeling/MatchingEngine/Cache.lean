import MatchingEngine.MatchPlan

/-! Reading and writing whole orders: `parse_order_from_hmget`, `fetch_orders_by_ids`,
`load_order_book` and `save_order_to_book`. -/
namespace MatchingEngine
open Library

/-- A stored order as the Rust code sees it. A zero price, or any price of a market order,
reads as no price; the client order id is not stored. -/
def parseOrderFromHmget (h : OrderHash) : Order where
  id := h.id
  userId := h.userId
  pairId := h.pairId
  side := h.side
  orderType := h.orderType
  tif := h.tif
  price := if h.orderType = .market ∨ h.priceI = 0 then none else some (i64ToDecimal h.priceI)
  quantity := i64ToDecimal h.qtyI
  remaining := i64ToDecimal h.remainingI
  status := h.status
  stpMode := h.stp
  version := h.version
  createdAt := h.tsMs
  clientOrderId := none

/-- The status text of a hash: `Rejected` shares the code of `Cancelled`. -/
def storedStatus : OrderStatus → OrderStatus
  | .rejected => .cancelled
  | s => s

/-- The hash that `save_order_to_book` writes. -/
def Order.toHash (o : Order) : OrderHash where
  id := o.id
  pairId := o.pairId
  side := o.side
  orderType := o.orderType
  tif := o.tif
  priceI := o.priceI
  qtyI := o.qtyI
  remainingI := decimalToI64 o.remaining
  status := storedStatus o.status
  stp := o.stpMode
  userId := o.userId
  tsMs := o.createdAt
  version := o.version

namespace Valkey

def fetchOrdersByIds (db : Valkey) (ids : List Uuid) : List Order :=
  ids.filterMap (fun id => (db.order id).map parseOrderFromHmget)

def loadOrderBook (db : Valkey) (pairId : String) (side : Side) : List Order :=
  db.fetchOrdersByIds ((db.book pairId side).rangeByScore none)

def saveOrderToBook (db : Valkey) (o : Order) : Valkey :=
  (db.zadd o.pairId o.side (signedPrice o.side o.priceI) o.id).hset o.id o.toHash

lemma zadd_of_mem {db : Valkey} {pair : String} {side : Side} {score : ℤ} {id : Uuid}
    (h : ⟨score,id⟩ ∈ (db.book pair side).entries) : db.zadd pair side score id = db := by
  apply Valkey.ext
  · funext p s
    by_cases hk : p = pair ∧ s = side
    · obtain ⟨rfl,rfl⟩ := hk
      rw [zadd_book, if_pos ⟨rfl,rfl⟩, SortedSet.add_of_mem h]
    · rw [zadd_book, if_neg hk]
  all_goals rfl

lemma fetchOrdersByIds_eq (db : Valkey) (ids : List Uuid) :
    db.fetchOrdersByIds ids = (db.resting ids).map (fun r => parseOrderFromHmget r.hash) := by
  simp only [fetchOrdersByIds, resting, List.map_filterMap, Option.map_map]
  rfl

end Valkey

lemma toHash_parse {h : OrderHash} (hp : 0 < h.priceI ∧ h.priceI < 2 ^ 63) (hq : 0 ≤ h.qtyI ∧ h.qtyI < 2 ^ 63)
    (hr : 0 ≤ h.remainingI ∧ h.remainingI < 2 ^ 63) (hl : h.orderType = .limit) (hs : h.status ≠ .rejected) :
    (parseOrderFromHmget h).toHash = h := by
  have hprice : (parseOrderFromHmget h).priceI = h.priceI := by
    simp [Order.priceI, parseOrderFromHmget, hl, hp.1.ne',
      decimalToI64_i64ToDecimal (i := h.priceI) (by omega) hp.2]
  have hqty : (parseOrderFromHmget h).qtyI = h.qtyI :=
    decimalToI64_i64ToDecimal (by omega) hq.2
  have hrem : decimalToI64 (parseOrderFromHmget h).remaining = h.remainingI :=
    decimalToI64_i64ToDecimal (by omega) hr.2
  have hst : storedStatus h.status = h.status := by
    cases hst : h.status <;> simp_all [storedStatus]
  simp only [Order.toHash, hprice, hqty, hrem]
  cases h
  simp_all [parseOrderFromHmget]

end MatchingEngine

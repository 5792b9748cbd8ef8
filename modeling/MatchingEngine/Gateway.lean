import MatchingEngine.Postgres

/-! The gateway worker: seeding of balances, `process_order` end to end, and its runs. -/
namespace MatchingEngine
open Library

structure System where
  db : Valkey
  pg : Postgres

/-- What a call draws from its surroundings: a spare order id, trade ids and the time. -/
structure Draws where
  orderId : Uuid
  tradeId : ℕ → Uuid
  now : ℤ

/-- `init_balances_from_pg`: one `HSET` per row; other keys stay. -/
def initBalancesFromPg (db : Valkey) (pg : Postgres) : Valkey :=
  { db with balance := fun user asset =>
      match pg.balances.get (user,asset) with
      | some b => ⟨decimalToI64 b.available,decimalToI64 b.locked⟩
      | none => db.balance user asset }

namespace Gateway

def acceptOrder (pairs : PairsCache) (msg : QueuedOrderMsg) (d : Draws) : Except String Order := do
  let order ← parseOrder msg d.orderId d.now
  validateOrder pairs order
  return order

/-- `process_order`, without the caches it refreshes at the end. A FOK order is cancelled on
the spot; an error of the persist stage leaves the match in place. The numbers of the script's reply
are taken as they are, as the decoder does below `10^14`; `processOrderWith` has the decoder. -/
def processOrder (pairs : PairsCache) (s : System) (msg : QueuedOrderMsg) (d : Draws) :
    Except String Order × System :=
  match acceptOrder pairs msg d with
  | .error e => (.error e,s)
  | .ok order =>
    if order.tif = .fok then (.ok { order with status := .cancelled },s)
    else match evalOrder s.db d.tradeId order with
    | (.error e,db) => (.error e,{ s with db := db })
    | (.ok m,db) =>
      if isWarmup m.order then (.ok m.order,{ s with db := db })
      else match s.pg.persistOrder m with
      | .error e => (.error ("DB persist failed: " ++ e),{ s with db := db })
      | .ok pg => (.ok m.order,⟨db,pg⟩)

/-- Requests processed one after the other, each one allowed by `Admit` in its state. -/
def Step (pairs : PairsCache) (Admit : System → QueuedOrderMsg → Draws → Prop) (s s' : System) : Prop :=
  ∃ msg d, Admit s msg d ∧ s' = (processOrder pairs s msg d).2

/-- The matched order a request hands to `persist_order`, if it gets that far. -/
def persisted (pairs : PairsCache) (s : System) (msg : QueuedOrderMsg) (d : Draws) : Option Matched :=
  match acceptOrder pairs msg d with
  | .error _ => none
  | .ok order =>
    if order.tif = .fok then none
    else match (evalOrder s.db d.tradeId order).1 with
    | .error _ => none
    | .ok m => if isWarmup m.order then none else some m

lemma processOrder_pg (pairs : PairsCache) (s : System) (msg : QueuedOrderMsg) (d : Draws) :
    (processOrder pairs s msg d).2.pg = s.pg ∨
    ∃ m ∈ persisted pairs s msg d, s.pg.persistOrder m = .ok (processOrder pairs s msg d).2.pg := by
  unfold processOrder persisted
  cases ha : acceptOrder pairs msg d with
  | error e => exact .inl rfl
  | ok order =>
    by_cases hf : order.tif = .fok
    · simp [hf]
    · simp only [if_neg hf]
      rcases he : evalOrder s.db d.tradeId order with ⟨_ | m,db⟩
      · exact .inl rfl
      · cases hw : isWarmup m.order with
        | true => simp [hw]
        | false =>
          simp only [hw]
          cases hp : s.pg.persistOrder m with
          | error e => simp
          | ok pg => exact .inr ⟨m,rfl,by simp [hp]⟩

end Gateway

def btcUsdt : PairsCache := fun pair =>
  if pair = "BTC-USDT" then some ⟨1 / 100,1 / 100000000,1 / 100000000,1000000,true⟩ else none

/-- A good-til-cancelled limit order on that pair, as `create_order` enqueues it. -/
def limitMsg (id : Uuid) (userId : String) (side : Side) (price quantity : Decimal) : QueuedOrderMsg where
  id := some (.value id)
  userId := userId
  pairId := "BTC-USDT"
  side := sideStr side
  orderType := "Limit"
  tif := "GTC"
  price := some (.value price)
  quantity := .value quantity
  stpMode := some "None"
  clientOrderId := none
  createdAt := some (.value 0)
  timeInForce := none

def marketMsg (id : Uuid) (userId : String) (side : Side) (tif : TimeInForce) (quantity : Decimal) : QueuedOrderMsg :=
  { limitMsg id userId side 0 quantity with orderType := "Market", tif := tifStr tif, price := none }

end MatchingEngine

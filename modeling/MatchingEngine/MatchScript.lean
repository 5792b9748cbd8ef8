import MatchingEngine.Valkey

/-! The atomic matcher: the script `match_order.lua` and its Rust caller `match_order_lua`.
One call locks the incoming balance, fetches up to fifty price-bounded candidates, walks
them, applies the time-in-force rules and rests a good-til-cancelled remainder. -/
namespace MatchingEngine
open Library

/-- `ARGV` of the script. The keys are those of `pairId`; a missing `maxScore` is `+inf`. -/
structure MatchArgs where
  orderId : Uuid
  side : Side
  orderType : OrderType
  tif : TimeInForce
  priceI : ℤ
  qtyI : ℤ
  userId : String
  stpMode : SelfTradePreventionMode
  tsMs : ℤ
  pairId : String
  score : ℤ
  maxScore : Option ℤ
  lockAsset : String
  lockAmount : ℤ
  deriving DecidableEq, Repr

/-- A row of the script's `trades` table. -/
structure ScriptTrade where
  restingId : Uuid
  priceI : ℤ
  qtyI : ℤ
  buyerId : String
  sellerId : String
  deriving DecidableEq, Repr

inductive Reply
  | insufficientBalance
  | ok (remainingI : ℤ) (status : OrderStatus) (trades : List ScriptTrade)
  deriving DecidableEq, Repr

/-- What `HMGET` and the script's defaults give for a key that does not exist. -/
def OrderHash.missing (id : Uuid) : OrderHash where
  id := id
  pairId := ""
  side := .buy
  orderType := .limit
  tif := .gtc
  priceI := 0
  qtyI := 0
  remainingI := 0
  status := .new
  stp := .none
  userId := ""
  tsMs := 0
  version := 0

/-- Ghost or consumed entries, which the loop steps over. -/
def OrderHash.Consumed (r : OrderHash) : Prop :=
  r.status = .filled ∨ r.status = .cancelled ∨ r.remainingI ≤ 0

instance (r : OrderHash) : Decidable r.Consumed := inferInstanceAs (Decidable (_ ∨ _))

namespace MatchArgs

/-- The price test of the loop. -/
def Crosses (a : MatchArgs) (r : OrderHash) : Prop :=
  if a.orderType = .market then True
  else if a.side = .buy then a.priceI ≥ r.priceI
  else a.priceI ≤ r.priceI

instance (a : MatchArgs) (r : OrderHash) : Decidable (a.Crosses r) :=
  inferInstanceAs (Decidable (if a.orderType = .market then True
    else if a.side = .buy then a.priceI ≥ r.priceI else a.priceI ≤ r.priceI))

/-- Self-trade prevention: the taker's mode, or the maker's when the taker has none. -/
def stpAction (a : MatchArgs) (r : OrderHash) : SelfTradePreventionMode :=
  if a.userId = r.userId then (if a.stpMode = .none then r.stp else a.stpMode) else .none

def fillI (remainingI : ℤ) (r : OrderHash) : ℤ :=
  if r.remainingI < remainingI then r.remainingI else remainingI

/-- The trade executes at the resting price, or at the incoming one against a resting
market order. -/
def trade (a : MatchArgs) (r : OrderHash) (rid : Uuid) (qtyI : ℤ) : ScriptTrade where
  restingId := rid
  priceI := if r.orderType = .market then a.priceI else r.priceI
  qtyI := qtyI
  buyerId := match a.side with | .buy => a.userId | .sell => r.userId
  sellerId := match a.side with | .buy => r.userId | .sell => a.userId

end MatchArgs

/-- The local variables of the match loop together with the store it mutates. -/
structure MatchState where
  db : Valkey
  remainingI : ℤ
  status : OrderStatus
  trades : List ScriptTrade
  matchBreak : Bool

/-- The write after a fill: a used-up order leaves the book, any other keeps the rest. -/
def writeFill (a : MatchArgs) (db : Valkey) (rid : Uuid) (r : OrderHash) (fillI : ℤ) : Valkey :=
  if r.remainingI - fillI ≤ 0 then db.dropOrder a.pairId a.side.opposite rid
  else db.hset rid { r with remainingI := r.remainingI - fillI, status := .partiallyFilled }

/-- One iteration: the `repeat … until true` block on candidate `rid`. -/
def matchStep (a : MatchArgs) (s : MatchState) (rid : Uuid) : MatchState :=
  let r := (s.db.order rid).getD (.missing rid)
  if r.Consumed then s
  else if ¬ a.Crosses r then { s with matchBreak := true }
  else match a.stpAction r with
  | .cancelMaker => { s with db := s.db.dropOrder a.pairId a.side.opposite rid }
  | .cancelTaker => { s with status := .cancelled, remainingI := 0, matchBreak := true }
  | .cancelBoth =>
    { s with db := s.db.dropOrder a.pairId a.side.opposite rid, status := .cancelled, remainingI := 0,
             matchBreak := true }
  | .none =>
    let fillI := MatchArgs.fillI s.remainingI r
    { s with db := writeFill a s.db rid r fillI
             remainingI := s.remainingI - fillI
             trades := s.trades ++ [a.trade r rid fillI] }

/-- The `for` loop over the fetched ids. -/
def matchLoop (a : MatchArgs) : List Uuid → MatchState → MatchState
  | [], s => s
  | rid :: rest, s =>
    if s.remainingI ≤ 0 ∨ s.matchBreak then s else matchLoop a rest (matchStep a s rid)

/-- Status after the loop, before the IOC rule. -/
def fillStatus (qtyI remainingI : ℤ) (status : OrderStatus) : OrderStatus :=
  if status = .cancelled then .cancelled
  else if remainingI ≤ 0 then .filled
  else if remainingI < qtyI then .partiallyFilled
  else .new

/-- The IOC rule: cancel the remainder. -/
def iocStatus (tif : TimeInForce) (remainingI : ℤ) (status : OrderStatus) : OrderStatus :=
  if tif = .ioc ∧ 0 < remainingI ∧ status ≠ .cancelled then .cancelled else status

/-- The hash written for a resting remainder. -/
def MatchArgs.restingHash (a : MatchArgs) (remainingI : ℤ) (status : OrderStatus) : OrderHash where
  id := a.orderId
  pairId := a.pairId
  side := a.side
  orderType := a.orderType
  tif := a.tif
  priceI := a.priceI
  qtyI := a.qtyI
  remainingI := remainingI
  status := status
  stp := a.stpMode
  userId := a.userId
  tsMs := a.tsMs
  version := 1

/-- `ZADD`, `HSET` and `EXPIRE` of the incoming order. -/
def placeResting (a : MatchArgs) (db : Valkey) (remainingI : ℤ) (status : OrderStatus) : Valkey :=
  ((db.zadd a.pairId a.side a.score a.orderId).hset a.orderId (a.restingHash remainingI status)).expire
    a.orderId 3600

/-- The GTC rule: rest a positive remainder that was not cancelled. -/
def applyGtc (a : MatchArgs) (db : Valkey) (remainingI : ℤ) (status : OrderStatus) : Valkey :=
  if a.tif = .gtc ∧ 0 < remainingI ∧ status ≠ .cancelled then placeResting a db remainingI status else db

/-- The lock applies to a named asset and a positive amount only. -/
def MatchArgs.Locks (a : MatchArgs) : Prop := a.lockAsset ≠ "" ∧ 0 < a.lockAmount

instance (a : MatchArgs) : Decidable a.Locks := inferInstanceAs (Decidable (_ ∧ _))

/-- Balance lock at the head of the script; `none` is the insufficient-balance return. -/
def lockBalance (db : Valkey) (a : MatchArgs) : Option Valkey :=
  if a.Locks then
    if (db.balance a.userId a.lockAsset).available < a.lockAmount then none
    else some (db.moveToLocked a.userId a.lockAsset a.lockAmount)
  else some db

/-- `ZRANGEBYSCORE opp -inf max LIMIT 0 50`. -/
def candidates (db : Valkey) (a : MatchArgs) : List Uuid :=
  ((db.book a.pairId a.side.opposite).rangeByScore a.maxScore).take 50

/-- The whole script as one atomic step. -/
def matchOrderScript (db : Valkey) (a : MatchArgs) : Reply × Valkey :=
  match lockBalance db a with
  | none => (.insufficientBalance,db)
  | some db₁ =>
    let s := matchLoop a (candidates db₁ a) ⟨db₁,a.qtyI,.new,[],false⟩
    let status := iocStatus a.tif s.remainingI (fillStatus a.qtyI s.remainingI s.status)
    (.ok s.remainingI status s.trades,
      (applyGtc a s.db s.remainingI status).incrVersion a.pairId)

structure LuaTrade where
  restingOrderId : Uuid
  price : Decimal
  quantity : Decimal
  buyerId : String
  sellerId : String
  deriving DecidableEq, Repr

structure LuaMatchResult where
  remaining : Decimal
  status : OrderStatus
  trades : List LuaTrade
  deriving DecidableEq, Repr

def ScriptTrade.toLuaTrade (t : ScriptTrade) : LuaTrade where
  restingOrderId := t.restingId
  price := i64ToDecimal t.priceI
  quantity := i64ToDecimal t.qtyI
  buyerId := t.buyerId
  sellerId := t.sellerId

/-- Scores of asks are prices, scores of bids negated prices. -/
def signedPrice (side : Side) (priceI : ℤ) : ℤ :=
  match side with
  | .buy => -priceI
  | .sell => priceI

/-- The price bound on the opposite set; without a price every candidate is fetched. -/
def maxScore (side : Side) (price : Option Decimal) : Option ℤ :=
  match side, price with
  | .buy, some p => some (decimalToI64 p)
  | .sell, some p => some (-decimalToI64 p)
  | _, none => none

/-- The arguments `match_order_lua` passes for an order. -/
def matchArgs (order : Order) (lockAsset : String) (lockAmountScaled : ℤ) : MatchArgs where
  orderId := order.id
  side := order.side
  orderType := order.orderType
  tif := order.tif
  priceI := order.priceI
  qtyI := order.qtyI
  userId := order.userId
  stpMode := order.stpMode
  tsMs := order.createdAt
  pairId := order.pairId
  score := signedPrice order.side order.priceI
  maxScore := maxScore order.side order.price
  lockAsset := lockAsset
  lockAmount := lockAmountScaled

/-- `match_order_lua`: one `EVAL` and the decoding of its reply. -/
def matchOrderLua (db : Valkey) (order : Order) (lockAsset : String) (lockAmountScaled : ℤ) :
    Except String LuaMatchResult × Valkey :=
  match matchOrderScript db (matchArgs order lockAsset lockAmountScaled) with
  | (.insufficientBalance,db') =>
    (.error ("INSUFFICIENT_BALANCE: insufficient " ++ lockAsset ++ " for user " ++ order.userId),db')
  | (.ok remainingI status trades,db') =>
    (.ok ⟨i64ToDecimal remainingI,status,trades.map ScriptTrade.toLuaTrade⟩,db')

end MatchingEngine

import MatchingEngine.MatchScript

/-! From a request to the matcher: `create_order`, the queued message, the parsers of the two
workers, `validate_order`, the balance to lock and the construction of trades. -/
namespace MatchingEngine

/-- A text field read by a library parser: its value, or a text that does not parse. -/
inductive Text (α : Type)
  | value (a : α)
  | malformed (text : String)
  deriving DecidableEq, Repr

lemma exists_of_bind_ok {α β : Type} {x : Except String α} {f : α → Except String β} {b : β}
    (h : (x >>= f) = .ok b) : ∃ a, x = .ok a ∧ f a = .ok b := by
  cases x with
  | error e => cases h
  | ok a => exact ⟨a,rfl,h⟩

def Text.ok? {α : Type} : Text α → Option α
  | .value a => some a
  | .malformed _ => none

structure CreateOrderRequest where
  userId : Option String
  pairId : String
  side : Side
  orderType : OrderType
  tif : Option TimeInForce
  price : Option Decimal
  quantity : Decimal
  stpMode : Option SelfTradePreventionMode
  clientOrderId : Option String

/-- The message on the queue. Only the gateway worker reads `timeInForce`. -/
structure QueuedOrderMsg where
  id : Option (Text Uuid)
  userId : String
  pairId : String
  side : String
  orderType : String
  tif : String
  price : Option (Text Decimal)
  quantity : Text Decimal
  stpMode : Option String
  clientOrderId : Option String
  createdAt : Option (Text ℤ)
  timeInForce : Option String

def sideStr : Side → String
  | .buy => "Buy"
  | .sell => "Sell"

def orderTypeStr : OrderType → String
  | .limit => "Limit"
  | .market => "Market"

def tifStr : TimeInForce → String
  | .gtc => "GTC"
  | .ioc => "IOC"
  | .fok => "FOK"

def stpStr : SelfTradePreventionMode → String
  | .none => "None"
  | .cancelMaker => "CancelMaker"
  | .cancelTaker => "CancelTaker"
  | .cancelBoth => "CancelBoth"

/-- The checks made on a request and again on the message. -/
def checkOrder (orderType : OrderType) (price : Option Decimal) (quantity : Decimal) : Except String Unit :=
  if quantity ≤ 0 then .error "quantity must be positive"
  else if orderType = .limit ∧ price.isNone then .error "limit orders require price"
  else if orderType = .market ∧ price.isSome then .error "market orders cannot have price"
  else .ok ()

lemma checkOrder_quantity_pos {orderType : OrderType} {price : Option Decimal} {quantity : Decimal}
    (h : checkOrder orderType price quantity = .ok ()) : 0 < quantity := by
  unfold checkOrder at h
  by_contra hq
  rw [if_pos (not_lt.mp hq)] at h
  cases h

/-- `create_order` up to the dispatch, for the id and the time it draws. -/
def createOrder (req : CreateOrderRequest) (orderId : Uuid) (now : ℤ) : Except String QueuedOrderMsg := do
  checkOrder req.orderType req.price req.quantity
  return {
    id := some (.value orderId)
    userId := req.userId.getD "user-1"
    pairId := req.pairId
    side := sideStr req.side
    orderType := orderTypeStr req.orderType
    tif := tifStr (req.tif.getD .gtc)
    price := req.price.map Text.value
    quantity := .value req.quantity
    stpMode := some (stpStr (req.stpMode.getD .none))
    clientOrderId := req.clientOrderId
    createdAt := some (.value now)
    timeInForce := none }

def parseSide : String → Except String Side
  | "Buy" => .ok .buy
  | "Sell" => .ok .sell
  | s => .error ("invalid side: " ++ s)

def parseOrderType : String → Except String OrderType
  | "Limit" => .ok .limit
  | "Market" => .ok .market
  | s => .error ("invalid order_type: " ++ s)

/-- An unknown text is good-til-cancelled. -/
def parseTif : String → TimeInForce
  | "IOC" => .ioc
  | "FOK" => .fok
  | _ => .gtc

def parseStpMode : String → SelfTradePreventionMode
  | "CancelMaker" => .cancelMaker
  | "CancelTaker" => .cancelTaker
  | "CancelBoth" => .cancelBoth
  | _ => .none

/-- The part of message parsing that the two workers share. -/
def parseFields (msg : QueuedOrderMsg) (orderId : Uuid) (tifText : String) (now : ℤ) : Except String Order := do
  let side ← parseSide msg.side
  let orderType ← parseOrderType msg.orderType
  let quantity ← match msg.quantity with
    | .value q => .ok q
    | .malformed s => .error ("invalid quantity: " ++ s)
  return {
    id := orderId
    userId := msg.userId
    pairId := msg.pairId
    side := side
    orderType := orderType
    tif := parseTif tifText
    price := msg.price.bind Text.ok?
    quantity := quantity
    remaining := quantity
    status := .new
    stpMode := parseStpMode (msg.stpMode.getD "None")
    version := 1
    createdAt := (msg.createdAt.bind Text.ok?).getD now
    clientOrderId := msg.clientOrderId }

/-- Message parsing of the gateway's `process_order`. A missing or empty id is drawn anew,
`time_in_force` takes precedence over `tif`, and the checks of `create_order` are repeated. -/
def Gateway.parseOrder (msg : QueuedOrderMsg) (newV4 : Uuid) (now : ℤ) : Except String Order := do
  let orderId ← match msg.id with
    | some (.value id) => .ok id
    | some (.malformed s) => if s = "" then .ok newV4 else .error "invalid order id"
    | none => .ok newV4
  let order ← parseFields msg orderId (msg.timeInForce.getD msg.tif) now
  checkOrder order.orderType order.price order.quantity
  return order

/-- Message parsing of the api worker's `process_queued_order`: the id is required and the
fields are not checked again. -/
def Api.parseOrder (msg : QueuedOrderMsg) (now : ℤ) : Except String Order := do
  let orderId ← match msg.id with
    | some (.value id) => .ok id
    | some (.malformed _) => .error "invalid order id"
    | none => .error "missing field `id`"
  parseFields msg orderId msg.tif now

structure PairConfig where
  tickSize : Decimal
  lotSize : Decimal
  minOrderSize : Decimal
  maxOrderSize : Decimal
  active : Bool
  deriving DecidableEq

/-- The in-memory pairs cache; the pair keys are computed from the same keys. -/
abbrev PairsCache := String → Option PairConfig

/-- `Decimal` remainder, with the sign of the dividend. -/
def decimalRem (x y : Decimal) : Decimal := x - y * truncate (x / y)

/-- `validate_order` of the gateway and `validate_order_request` of the api, which make the same
checks. Decimals in messages are shown as fractions. -/
def validateOrder (pairs : PairsCache) (order : Order) : Except String Unit :=
  match pairs order.pairId with
  | none => .error ("unknown pair " ++ order.pairId)
  | some cfg =>
    if ¬ cfg.active then .error ("pair " ++ order.pairId ++ " is not active")
    else if decimalRem order.quantity cfg.lotSize ≠ 0 then .error "quantity not aligned to lot_size"
    else if order.quantity < cfg.minOrderSize ∨ cfg.maxOrderSize < order.quantity then
      .error ("quantity out of range [" ++ toString cfg.minOrderSize ++ ", " ++ toString cfg.maxOrderSize ++ "]")
    else if ∃ p ∈ order.price, 0 < cfg.tickSize ∧ decimalRem p cfg.tickSize ≠ 0 then
      .error "price not aligned to tick_size"
    else .ok ()

/-- The asset and the scaled amount the script is asked to lock. -/
def lockParams (order : Order) : Except String (String × ℤ) := do
  let (base,quote) ← parsePairId order.pairId
  match order.side with
  | .buy => return (quote,decimalToI64 (order.price.getD 0 * order.quantity))
  | .sell => return (base,decimalToI64 order.quantity)

lemma lockParams_ok {o : Order} {asset : String} {amount : ℤ} (h : lockParams o = .ok (asset,amount)) :
    ∃ base quote, parsePairId o.pairId = .ok (base,quote) ∧
      asset = (match o.side with | .buy => quote | .sell => base) ∧
      amount = match o.side with
        | .buy => decimalToI64 (o.price.getD 0 * o.quantity)
        | .sell => decimalToI64 o.quantity := by
  unfold lockParams at h
  cases hp : parsePairId o.pairId with
  | error e =>
    rw [hp] at h
    cases h
  | ok pair =>
    obtain ⟨base,quote⟩ := pair
    rw [hp] at h
    refine ⟨base,quote,rfl,?_⟩
    cases hs : o.side <;> rw [hs] at h <;> cases h <;> exact ⟨rfl,rfl⟩

/-- The trade rows of a match result, with ids drawn in Rust. -/
def buildTrade (order : Order) (id : Uuid) (lt : LuaTrade) : Trade where
  id := id
  pairId := order.pairId
  buyOrderId := match order.side with | .buy => order.id | .sell => lt.restingOrderId
  sellOrderId := match order.side with | .buy => lt.restingOrderId | .sell => order.id
  buyerId := lt.buyerId
  sellerId := lt.sellerId
  price := lt.price
  quantity := lt.quantity

def buildTrades (newV4 : ℕ → Uuid) (order : Order) (lts : List LuaTrade) : List Trade :=
  lts.mapIdx (fun i lt => buildTrade order (newV4 i) lt)

/-- An order that has been through the matcher. -/
structure Matched where
  order : Order
  trades : List Trade
  luaTrades : List LuaTrade

/-- Lock parameters, `EVAL` and trade construction, in the order of `process_order`. A failed
lock or a malformed pair leaves the store as it was. -/
def evalOrder (db : Valkey) (newV4 : ℕ → Uuid) (order : Order) : Except String Matched × Valkey :=
  match lockParams order with
  | .error e => (.error e,db)
  | .ok (lockAsset,lockAmountScaled) =>
    match matchOrderLua db order lockAsset lockAmountScaled with
    | (.error e,db') => (.error ("Lua EVAL failed: " ++ e),db')
    | (.ok r,db') =>
      let matched := { order with remaining := r.remaining, status := r.status }
      (.ok ⟨matched,buildTrades newV4 matched r.trades,r.trades⟩,db')

/-- Orders of warmup requests are matched but never persisted. -/
def isWarmup (order : Order) : Bool :=
  match order.clientOrderId with
  | some s => s.startsWith "warmup:" || s.startsWith "warmup-"
  | none => false

end MatchingEngine

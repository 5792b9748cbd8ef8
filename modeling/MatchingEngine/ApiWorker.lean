import MatchingEngine.Gateway

/-! The api worker's `process_queued_order`, the sibling of the gateway's `process_order`. It
parses and locks alike, but hands the persist job to a channel instead of waiting for it. -/
namespace MatchingEngine

/-- `process_queued_order` up to the persist channel: the order as it ends, the job sent for it
and the store. A FOK order is cancelled after the pair has been parsed, without a job. The numbers of the
reply are taken as they are, as the decoder does below `10^14`. -/
def Api.processQueuedOrder (pairs : PairsCache) (db : Valkey) (msg : QueuedOrderMsg) (d : Draws) :
    Except String (Order × Option PersistJob) × Valkey :=
  match Api.parseOrder msg d.now with
  | .error e => (.error e,db)
  | .ok order =>
    match validateOrder pairs order with
    | .error e => (.error ("validation failed: " ++ e),db)
    | .ok () =>
      match lockParams order with
      | .error e => (.error e,db)
      | .ok (lockAsset,lockAmountScaled) =>
        if order.tif = .fok then (.ok ({ order with status := .cancelled },none),db)
        else match matchOrderLua db order lockAsset lockAmountScaled with
        | (.error e,db') => (.error e,db')
        | (.ok r,db') =>
          let matched := { order with remaining := r.remaining, status := r.status }
          (.ok (matched,some ⟨matched,buildTrades d.tradeId matched r.trades,r.trades⟩),db')

/-- The order a request stands for. -/
def CreateOrderRequest.toOrder (req : CreateOrderRequest) (orderId : Uuid) (now : ℤ) : Order where
  id := orderId
  userId := req.userId.getD "user-1"
  pairId := req.pairId
  side := req.side
  orderType := req.orderType
  tif := req.tif.getD .gtc
  price := req.price
  quantity := req.quantity
  remaining := req.quantity
  status := .new
  stpMode := req.stpMode.getD .none
  version := 1
  createdAt := now
  clientOrderId := req.clientOrderId

@[simp] lemma parseSide_sideStr (s : Side) : parseSide (sideStr s) = .ok s := by cases s <;> rfl

@[simp] lemma parseOrderType_orderTypeStr (t : OrderType) : parseOrderType (orderTypeStr t) = .ok t := by
  cases t <;> rfl

@[simp] lemma parseTif_tifStr (t : TimeInForce) : parseTif (tifStr t) = t := by cases t <;> rfl

@[simp] lemma parseStpMode_stpStr (m : SelfTradePreventionMode) : parseStpMode (stpStr m) = m := by
  cases m <;> rfl

lemma Text.bind_ok?_map_value {α : Type} (x : Option α) : (x.map Text.value).bind Text.ok? = x := by
  cases x <;> rfl

section Enqueued
variable {req : CreateOrderRequest} {orderId : Uuid} {now : ℤ} {msg : QueuedOrderMsg}

lemma createOrder_checks (h : createOrder req orderId now = .ok msg) :
    checkOrder req.orderType req.price req.quantity = .ok () := by
  unfold createOrder at h
  cases hc : checkOrder req.orderType req.price req.quantity with
  | error e =>
    rw [hc] at h
    cases h
  | ok _ => rfl

lemma quantity_pos_of_createOrder (h : createOrder req orderId now = .ok msg) : 0 < req.quantity :=
  checkOrder_quantity_pos (createOrder_checks h)

/-- Both workers read back the order of the request. -/
theorem api_parseOrder_createOrder (h : createOrder req orderId now = .ok msg) (now' : ℤ) :
    Api.parseOrder msg now' = .ok (req.toOrder orderId now) := by
  have hc := createOrder_checks h
  unfold createOrder at h
  rw [hc] at h
  cases h
  simp only [Api.parseOrder, parseFields, parseSide_sideStr, parseOrderType_orderTypeStr, parseTif_tifStr,
    Text.bind_ok?_map_value, Option.getD_some, parseStpMode_stpStr]
  rfl

theorem gateway_parseOrder_createOrder (h : createOrder req orderId now = .ok msg) (newV4 : Uuid) (now' : ℤ) :
    Gateway.parseOrder msg newV4 now' = .ok (req.toOrder orderId now) := by
  have hc := createOrder_checks h
  unfold createOrder at h
  rw [hc] at h
  cases h
  simp only [Gateway.parseOrder, parseFields, parseSide_sideStr, parseOrderType_orderTypeStr, Option.getD_none,
    parseTif_tifStr, Text.bind_ok?_map_value, Option.getD_some, parseStpMode_stpStr]
  change (checkOrder req.orderType req.price req.quantity >>= _) = _
  rw [hc]
  rfl

end Enqueued
end MatchingEngine

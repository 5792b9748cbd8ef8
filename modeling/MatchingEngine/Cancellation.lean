import MatchingEngine.Session

/-! Cancellation requests: the messages of the gateway handlers `cancel_order`, `modify_order`
and `cancel_all_orders`, and the api worker's `process_cancellation`, which reads the order's
row, removes the order from the book, marks the row and releases the reservation. -/
namespace MatchingEngine
open Library

/-- The order that replaces a modified one; of its fields only the pair is read. -/
structure ReplacementOrder where
  pairId : Option String
  json : String
  deriving DecidableEq, Repr

/-- The fields of a message that `process_cancellation` reads, absent ones as `none`. -/
structure CancelMsg where
  type : Option String
  orderId : Option (Text Uuid)
  userId : Option String
  pairId : Option String
  newOrder : Option ReplacementOrder
  deriving DecidableEq, Repr

namespace Gateway

/-- The message of `DELETE /api/orders/{order_id}`. -/
def cancelOrder (orderId : Uuid) : CancelMsg where
  type := some "cancel"
  orderId := some (.value orderId)
  userId := none
  pairId := none
  newOrder := none

/-- The message of `PUT /api/orders/{order_id}`; the request body is dropped. -/
def modifyOrder (orderId : Uuid) (_req : CreateOrderRequest) : CancelMsg where
  type := some "modify"
  orderId := some (.value orderId)
  userId := none
  pairId := none
  newOrder := none

/-- The message of `DELETE /api/orders`. -/
def cancelAllOrders (userId pairId : Option String) : CancelMsg where
  type := some "cancel_all"
  orderId := none
  userId := some (userId.getD "user-1")
  pairId := pairId
  newOrder := none

end Gateway

namespace Api

/-- Step 1: the row of the order, if it belongs to the user and is still open. -/
def cancellable (pg : Postgres) (orderId : Uuid) (userId : String) : Option Order :=
  (pg.orders.get orderId).filter (fun r => r.userId = userId ∧ r.status.IsOpen)

def markCancelled (pg : Postgres) (orderId : Uuid) : Postgres :=
  pg.updateOrder orderId (fun r => { r with status := .cancelled, remaining := 0 })

/-- The asset and the amount that a cancel gives back. The quote asset is fixed. -/
def cancelRelease (row : Order) : String × Decimal :=
  match row.side with
  | .buy => ("USDT",row.remaining * row.price.getD 0)
  | .sell => (String.ofList ((row.pairId.toList.splitOn '-').headD []),row.remaining)

/-- Step 4: `locked = locked - amount, available = available + amount`. -/
def releaseCancelled (pg : Postgres) (userId : String) (row : Order) : Postgres :=
  let (asset,amount) := cancelRelease row
  { pg with balances := pg.balances.modify (userId,asset) (fun b => ⟨b.available + amount,b.locked - amount⟩) }

/-- The `cancel` branch: a row that is missing or not open is only logged. -/
def cancel (s : System) (orderId : Option (Text Uuid)) (userId : Option String) : Except String Unit × System :=
  match orderId with
  | none => (.error "missing order_id",s)
  | some (.malformed _) => (.error "invalid order_id",s)
  | some (.value id) =>
    let user := userId.getD ""
    match cancellable s.pg id user with
    | none => (.ok (),s)
    | some row =>
      let db := s.db.removeOrderFromBook { row with id := id }
      let pg := markCancelled s.pg id
      (.ok (),⟨db,releaseCancelled pg user row⟩)

/-- `process_cancellation`: the outcome, the replacement orders pushed on queues, and the
stores. -/
def processCancellation (s : System) (msg : CancelMsg) :
    Except String (List (String × ReplacementOrder)) × System :=
  match msg.type.getD "cancel" with
  | "cancel" =>
    let (r,s) := cancel s msg.orderId msg.userId
    (r.map (fun _ => []),s)
  | "modify" =>
    match cancel s msg.orderId (some (msg.userId.getD "")) with
    | (.error e,s) => (.error e,s)
    | (.ok _,s) =>
      let queue := fun o : ReplacementOrder => (o.pairId.elim "queue:orders" ("queue:orders:" ++ ·),o)
      (.ok (msg.newOrder.toList.map queue),s)
  | "cancel_all" =>
    let user := msg.userId.getD "user-1"
    let rows := s.pg.orders.rows.filter (fun r => r.2.userId = user ∧ (∀ p ∈ msg.pairId, r.2.pairId = p) ∧ r.2.status.IsOpen)
    (.ok [],rows.foldl (fun s r => (cancel s (some (.value r.1)) (some user)).2) s)
  | _ => (.ok [],s)

end Api

/-! ### A cancel that takes effect -/

section Cancel
variable {s : System} {id : Uuid} {user : String} {row : Order}

lemma cancellable_eq_some : Api.cancellable s.pg id user = some row ↔
    s.pg.orders.get id = some row ∧ row.userId = user ∧ row.status.IsOpen := by
  simp [Api.cancellable, Option.filter_eq_some_iff]

lemma cancel_of_cancellable (h : Api.cancellable s.pg id user = some row) :
    Api.cancel s (some (.value id)) (some user) = (.ok (),⟨s.db.removeOrderFromBook { row with id := id },
      Api.releaseCancelled (Api.markCancelled s.pg id) user row⟩) := by
  simp [Api.cancel, h]

def System.Cancelled (s : System) (id : Uuid) (pairId : String) (side : Side) : Prop :=
  id ∉ s.db.book pairId side ∧ ∃ r ∈ s.pg.orders.get id, r.status = .cancelled

lemma cancelled_of_cancellable (h : Api.cancellable s.pg id user = some row) :
    (Api.cancel s (some (.value id)) (some user)).2.Cancelled id row.pairId row.side := by
  obtain ⟨hrow,_,_⟩ := cancellable_eq_some.mp h
  rw [cancel_of_cancellable h]
  refine ⟨?_,{ row with status := .cancelled, remaining := 0 },?_,rfl⟩
  · simp [Valkey.removeOrderFromBook, SortedSet.mem_remove]
  · simp [Api.releaseCancelled, Api.markCancelled, Postgres.updateOrder, hrow]

lemma processCancellation_gateway (s : System) (id : Uuid) (req : CreateOrderRequest) :
    (Api.processCancellation s (Gateway.cancelOrder id)).2 = (Api.cancel s (some (.value id)) (some "")).2 ∧
    (Api.processCancellation s (Gateway.modifyOrder id req)).2 = (Api.cancel s (some (.value id)) (some "")).2 := by
  refine ⟨rfl,?_⟩
  change (match Api.cancel s (some (.value id)) (some "") with
    | (.error e,s) => ((.error e,s) : Except String (List (String × ReplacementOrder)) × System)
    | (.ok _,s) => (.ok [],s)).2 = _
  rcases Api.cancel s (some (.value id)) (some "") with ⟨_ | _,s'⟩ <;> rfl

/-- Cancels and modifications sent by the gateway take effect for the empty user id only. -/
theorem gateway_cancel_takes_effect_iff (hrow : s.pg.orders.get id = some row) (huser : row.userId = user)
    (hopen : row.status.IsOpen) (hbook : id ∈ s.db.book row.pairId row.side) (req : CreateOrderRequest) :
    ((Api.processCancellation s (Gateway.cancelOrder id)).2.Cancelled id row.pairId row.side ↔ user = "") ∧
    ((Api.processCancellation s (Gateway.modifyOrder id req)).2.Cancelled id row.pairId row.side ↔ user = "") := by
  have hcancel : (Api.cancel s (some (.value id)) (some "")).2.Cancelled id row.pairId row.side ↔ user = "" := by
    by_cases hu : user = ""
    · have hrow' : Api.cancellable s.pg id "" = some row := cancellable_eq_some.mpr ⟨hrow,huser.trans hu,hopen⟩
      exact ⟨fun _ => hu,fun _ => cancelled_of_cancellable hrow'⟩
    · have hnone : Api.cancellable s.pg id "" = none := by
        rw [Option.eq_none_iff_forall_ne_some]
        intro r hr
        obtain ⟨hget,hr,_⟩ := cancellable_eq_some.mp hr
        rw [hrow] at hget
        cases hget
        exact hu (huser.symm.trans hr)
      have hsame : (Api.cancel s (some (.value id)) (some "")).2 = s := by simp [Api.cancel, hnone]
      rw [hsame]
      exact ⟨fun h => absurd hbook h.1,fun h => absurd h hu⟩
  obtain ⟨hc,hm⟩ := processCancellation_gateway s id req
  rw [hc, hm]
  exact ⟨hcancel,hcancel⟩

end Cancel

def offerOf (userId : String) : System :=
  let s : System := ⟨(Session.funded (10 ^ 12)).sys.db,.empty⟩
  (Gateway.processOrder btcUsdt s (limitMsg 1 userId .sell 100 1) ⟨0,fun _ => 10,0⟩).2

theorem gateway_cancel_of_empty_user :
    (Api.processCancellation (offerOf "") (Gateway.cancelOrder 1)).2.Cancelled 1 "BTC-USDT" .sell := by
  obtain ⟨row,hrow,huser,hopen,hpair,hside⟩ : ∃ row ∈ (offerOf "").pg.orders.get 1, row.userId = "" ∧ row.status.IsOpen ∧
    row.pairId = "BTC-USDT" ∧ row.side = .sell := by decide +kernel
  have hbook : 1 ∈ (offerOf "").db.book "BTC-USDT" .sell := by decide +kernel
  rw [← hpair, ← hside] at hbook ⊢
  exact (gateway_cancel_takes_effect_iff hrow huser hopen hbook
    ⟨none,"",.buy,.limit,none,none,0,none,none⟩).1.mpr rfl

/-- Alice's cancel, and her modification, leave her offer where it is. -/
theorem gateway_cancel_ignored : ∃ (s : System) (id : Uuid) (row : Order) (req : CreateOrderRequest),
    s.pg.orders.get id = some row ∧ row.userId = "alice" ∧ row.status = .new ∧ id ∈ s.db.book row.pairId row.side ∧
    ¬ (Api.processCancellation s (Gateway.cancelOrder id)).2.Cancelled id row.pairId row.side ∧
    ¬ (Api.processCancellation s (Gateway.modifyOrder id req)).2.Cancelled id row.pairId row.side := by
  obtain ⟨row,hrow,huser,hnew,hpair,hside⟩ : ∃ row ∈ (offerOf "alice").pg.orders.get 1, row.userId = "alice" ∧
    row.status = .new ∧ row.pairId = "BTC-USDT" ∧ row.side = .sell := by decide +kernel
  have hbook : 1 ∈ (offerOf "alice").db.book row.pairId row.side := by
    rw [hpair, hside]
    decide +kernel
  have hkept : 1 ∈ (Api.processCancellation (offerOf "alice") (Gateway.cancelOrder 1)).2.db.book "BTC-USDT" .sell ∧
      1 ∈ (Api.processCancellation (offerOf "alice") (Gateway.modifyOrder 1 ⟨none,"",.buy,.limit,none,none,0,none,none⟩)).2.db.book
        "BTC-USDT" .sell := by decide +kernel
  rw [← hpair, ← hside] at hkept
  exact ⟨_,1,row,_,hrow,huser,hnew,hbook,fun h => h.1 hkept.1,fun h => h.1 hkept.2⟩

end MatchingEngine

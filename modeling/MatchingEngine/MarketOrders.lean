import MatchingEngine.ApiWorker
import MatchingEngine.Crossing
import MatchingEngine.Engine

/-! Where market orders end. The reference engine treats them as immediate-or-cancel; the
script looks at the time in force only, so a good-til-cancelled market order that is not
filled stays in the book. The reply's remainder is read as it is, as it is below `10^14`. -/
namespace MatchingEngine
open Library

def OrderStatus.IsFinal (s : OrderStatus) : Prop := s = .filled ∨ s = .cancelled

instance (s : OrderStatus) : Decidable s.IsFinal := inferInstanceAs (Decidable (_ ∨ _))

/-! ### The engine -/

/-- Along the walk nothing is overfilled, and an empty remainder goes with a final status. -/
def Engine.Settled (o : Order) : Prop := 0 ≤ o.remaining ∧ (o.remaining = 0 → o.status.IsFinal)

lemma Engine.settled_fill (newV4 : ℕ → Uuid) (s : MatchResult) (resting : Order) :
    Settled (fill newV4 s resting).incoming := by
  have hle : min s.incoming.remaining resting.remaining ≤ s.incoming.remaining := min_le_left _ _
  refine ⟨sub_nonneg.mpr hle,fun hz => ?_⟩
  left
  exact if_pos hz

lemma Engine.settled_cancelled {o : Order} (h : Settled o) : Settled { o with status := .cancelled } :=
  ⟨h.1,fun _ => .inr rfl⟩

theorem Engine.settled_walkBook (newV4 : ℕ → Uuid) (book : List Order) {s : MatchResult} (hs : Settled s.incoming) :
    Settled (walkBook newV4 book s).1.incoming := by
  induction book generalizing s with
  | nil => exact hs
  | cons resting rest ih =>
    unfold walkBook
    split_ifs with hz hp hstp
    · exact hs
    · cases hm : s.incoming.stpMode with
      | none => exact absurd hm hstp.2
      | cancelTaker => exact settled_cancelled hs
      | cancelMaker =>
        apply ih
        exact hs
      | cancelBoth => exact settled_cancelled hs
    · exact ih (settled_fill newV4 s resting)
    · exact hs

/-- A market order always ends filled or cancelled in the engine. -/
theorem Engine.matchOrder_market_final (newV4 : ℕ → Uuid) {o : Order} (hm : o.orderType = .market)
    (hpos : 0 < o.remaining) (book : List Order) : (matchOrder newV4 o book).1.incoming.status.IsFinal := by
  unfold matchOrder
  split_ifs with hf
  · exact .inr rfl
  · have hs : Settled (walkBook newV4 book ⟨[],[],o,[]⟩).1.incoming :=
      settled_walkBook newV4 book ⟨hpos.le,fun hz => absurd hz hpos.ne'⟩
    have htif : effectiveTif o = .ioc := if_pos hm
    simp only [htif, applyTif]
    split_ifs with hopen
    · exact .inr rfl
    · by_cases hc : (walkBook newV4 book ⟨[],[],o,[]⟩).1.incoming.status = .cancelled
      · exact .inr hc
      · refine hs.2 (le_antisymm ?_ hs.1)
        by_contra hgt
        exact hopen ⟨not_le.mp hgt,hc⟩

/-! ### The script -/

/-- The call stores nothing for the order in its own book and ends it. -/
def NeverRests (o : Order) (status : Option OrderStatus) (db : Valkey) : Prop :=
  (∀ side, o.id ∉ db.book o.pairId side) ∧ ∀ s ∈ status, s.IsFinal

lemma Valkey.Represented.not_mem {db : Valkey} (hr : db.Represented) {id : Uuid} (hfresh : db.order id = none)
    (pair : String) (side : Side) : id ∉ db.book pair side := by
  intro hm
  obtain ⟨h,ho,_⟩ := hr.order_of_mem hm
  rw [hfresh] at ho
  cases ho

lemma Plan.status_final_of_not_rests {a : MatchArgs} (hf : a.tif ≠ .fok) {p : Plan} (h : ¬ p.Rests a) :
    (p.status a).IsFinal := by
  cases hs : p.stpCancelled with
  | true => exact .inr (status_of_stopped hs)
  | false =>
    by_cases hpos : 0 < p.remainingI
    · cases ht : a.tif with
      | ioc => exact .inr (by rw [status_of_pos hs hpos, if_pos ht])
      | fok => exact absurd ht hf
      | gtc =>
        by_contra hn
        exact h ⟨ht,hpos,fun hc => hn (.inr hc)⟩
    · exact .inl (status_of_le hs (not_lt.mp hpos))

/-- The owner can pay for the lock. -/
def Order.Funded (o : Order) (db : Valkey) (asset : String) (amount : ℤ) : Prop :=
  (matchArgs o asset amount).Locks → amount ≤ (db.balance o.userId asset).available

instance (o : Order) (db : Valkey) (asset : String) (amount : ℤ) : Decidable (o.Funded db asset amount) :=
  inferInstanceAs (Decidable (_ → _))

/-- A fresh order ends outside the book exactly when its lock fails, its remainder is not
good-til-cancelled or it leaves none. The worker may report the script's status or nothing. -/
theorem matchOrderLua_neverRests_iff {db : Valkey} (hr : db.Represented) {o : Order} (hfresh : db.order o.id = none)
    (hp : o.Priced) (hq : 0 ≤ o.qtyI) (hf : o.tif ≠ .fok) (asset : String) (amount : ℤ) {status : Option OrderStatus}
    (hstatus : ∀ s ∈ status, ∃ r ∈ (matchOrderLua db o asset amount).1.toOption, r.status = s) :
    NeverRests o status (matchOrderLua db o asset amount).2 ↔
      ¬ (o.Funded db asset amount ∧ o.tif = .gtc ∧ o.LeavesRemainder db) := by
  set a := matchArgs o asset amount with ha
  cases hl : lockBalance db a with
  | none =>
    have hunfunded : ¬ o.Funded db asset amount := by
      intro hfund
      obtain ⟨db₁,hsome⟩ := lockBalance_isSome hfund
      rw [← ha, hl] at hsome
      cases hsome
    have hres : matchOrderLua db o asset amount =
        (.error ("INSUFFICIENT_BALANCE: insufficient " ++ asset ++ " for user " ++ o.userId),db) := by
      simp only [matchOrderLua, matchOrderScript_eq, ← ha, hl]
    rw [hres] at hstatus ⊢
    refine iff_of_true ⟨hr.not_mem hfresh o.pairId,fun s hs => ?_⟩ (fun h => hunfunded h.1)
    obtain ⟨r,hr,_⟩ := hstatus s hs
    cases hr
  | some db₁ =>
    have hfund : o.Funded db asset amount := lockBalance_funded hl
    rw [matchOrderLua_of_lock hl] at hstatus ⊢
    have hrest := rests_iff hr hp hq asset amount
    rw [← ha] at hrest
    by_cases hrests : (a.planOn db).Rests a
    · refine iff_of_false (fun h => ?_) (not_not.mpr ⟨hfund,hrest.mp hrests⟩)
      refine h.1 o.side (SortedSet.mem_iff.mpr ⟨⟨a.score,a.orderId⟩,?_,rfl⟩)
      rw [mem_entries_settle, if_pos ⟨hrests,rfl,rfl⟩]
      exact .inl rfl
    · refine iff_of_true ⟨fun side hm => ?_,fun s hs => ?_⟩ (fun h => hrests (hrest.mpr h.2))
      · obtain ⟨e,he,hid⟩ := SortedSet.mem_iff.mp hm
        rw [mem_entries_settle, if_neg (fun h => hrests h.1), mem_entries_applyVisits, (lockBalance_frame hl).2.1] at he
        exact hr.not_mem hfresh o.pairId side (SortedSet.mem_iff.mpr ⟨e,he.1,hid⟩)
      · obtain ⟨r,⟨⟩,rfl⟩ := hstatus s hs
        exact Plan.status_final_of_not_rests hf hrests

/-! ### The two workers -/

/-- What a worker can do with a parsed order: refuse it, cancel it without touching the store,
or run the script on it. -/
inductive WorkerOutcome (pairs : PairsCache) (db : Valkey) (o : Order) : Option OrderStatus → Valkey → Prop
  | refused (h : ¬ (validateOrder pairs o = .ok () ∧ (lockParams o).toOption.isSome)) : WorkerOutcome pairs db o none db
  | killed (h : o.tif = .fok) : WorkerOutcome pairs db o (some .cancelled) db
  | matched (asset : String) (amount : ℤ) (hv : validateOrder pairs o = .ok ()) (hl : lockParams o = .ok (asset,amount))
      (hf : o.tif ≠ .fok) {status : Option OrderStatus} {db' : Valkey} (hdb : (matchOrderLua db o asset amount).2 = db')
      (hstatus : ∀ s ∈ status, ∃ r ∈ (matchOrderLua db o asset amount).1.toOption, r.status = s) :
      WorkerOutcome pairs db o status db'

/-- The order is left in the book: it passes validation, names a pair, is funded, and keeps a
good-til-cancelled remainder. -/
def Order.StaysInBook (o : Order) (pairs : PairsCache) (db : Valkey) : Prop :=
  (validateOrder pairs o = .ok () ∧ ∃ p ∈ (lockParams o).toOption, o.Funded db p.1 p.2) ∧
    o.tif = .gtc ∧ o.LeavesRemainder db

section Workers
variable {pairs : PairsCache} {db : Valkey} {o : Order} {msg : QueuedOrderMsg} {d : Draws}

theorem WorkerOutcome.neverRests_iff {status : Option OrderStatus} {db' : Valkey}
    (h : WorkerOutcome pairs db o status db') (hr : db.Represented) (hfresh : db.order o.id = none) (hp : o.Priced)
    (hq : 0 ≤ o.qtyI) : NeverRests o status db' ↔ ¬ o.StaysInBook pairs db := by
  cases h with
  | refused hn =>
    refine iff_of_true ⟨hr.not_mem hfresh o.pairId,by simp⟩ (fun hs => hn ⟨hs.1.1,?_⟩)
    obtain ⟨p,hp,_⟩ := hs.1.2
    exact Option.isSome_iff_exists.mpr ⟨p,hp⟩
  | killed hf =>
    refine iff_of_true ⟨hr.not_mem hfresh o.pairId,by simp [OrderStatus.IsFinal]⟩ (fun hs => ?_)
    have := hs.2.1
    rw [hf] at this
    cases this
  | matched asset amount hv hl hf hdb hstatus =>
    have hstays : o.StaysInBook pairs db ↔ o.Funded db asset amount ∧ o.tif = .gtc ∧ o.LeavesRemainder db := by
      simp [Order.StaysInBook, hv, hl, Except.toOption]
    rw [hstays, ← hdb]
    exact matchOrderLua_neverRests_iff hr hfresh hp hq hf asset amount hstatus

lemma api_outcome (hparse : Api.parseOrder msg d.now = .ok o) :
    WorkerOutcome pairs db o ((Api.processQueuedOrder pairs db msg d).1.toOption.map (fun r => r.1.status))
      (Api.processQueuedOrder pairs db msg d).2 := by
  unfold Api.processQueuedOrder
  simp only [hparse]
  cases hv : validateOrder pairs o with
  | error e => exact .refused (by simp [hv])
  | ok _ =>
    cases hl : lockParams o with
    | error e => exact .refused (by simp [hl, Except.toOption])
    | ok p =>
      obtain ⟨asset,amount⟩ := p
      by_cases hf : o.tif = .fok
      · simp only [if_pos hf]
        exact .killed hf
      · simp only [if_neg hf]
        rcases hm : matchOrderLua db o asset amount with ⟨_ | r,db'⟩
        · exact .matched asset amount hv hl hf (by rw [hm]) (by simp [Except.toOption])
        · exact .matched asset amount hv hl hf (by rw [hm]) (by simp [hm, Except.toOption])

lemma gateway_outcome (hparse : Gateway.parseOrder msg d.orderId d.now = .ok o) (pg : Postgres) :
    WorkerOutcome pairs db o ((Gateway.processOrder pairs ⟨db,pg⟩ msg d).1.toOption.map Order.status)
      (Gateway.processOrder pairs ⟨db,pg⟩ msg d).2.db := by
  unfold Gateway.processOrder
  have haccept : Gateway.acceptOrder pairs msg d = validateOrder pairs o >>= fun _ => .ok o := by
    unfold Gateway.acceptOrder
    rw [hparse]
    rfl
  rw [haccept]
  cases hv : validateOrder pairs o with
  | error e => exact .refused (by simp [hv])
  | ok _ =>
    change WorkerOutcome pairs db o (Option.map Order.status (Except.toOption (Prod.fst (if o.tif = .fok then _ else _))))
      (System.db (Prod.snd (if o.tif = .fok then _ else _)))
    by_cases hf : o.tif = .fok
    · simp only [if_pos hf]
      exact .killed hf
    · simp only [if_neg hf, evalOrder]
      cases hl : lockParams o with
      | error e => exact .refused (by simp [hl, Except.toOption])
      | ok p =>
        obtain ⟨asset,amount⟩ := p
        simp only
        rcases hm : matchOrderLua db o asset amount with ⟨_ | r,db'⟩
        · exact .matched asset amount hv hl hf (by rw [hm]) (by simp [Except.toOption])
        · simp only
          split_ifs with hw
          · exact .matched asset amount hv hl hf (by rw [hm]) (by simp [hm, Except.toOption])
          · cases pg.persistOrder _ with
            | error e => exact .matched asset amount hv hl hf (by rw [hm]) (by simp [Except.toOption])
            | ok pg' => exact .matched asset amount hv hl hf (by rw [hm]) (by simp [hm, Except.toOption])

end Workers

/-- In every reachable book, a fresh market order from `create_order` ends outside the book,
filled or cancelled, exactly when it is refused, not good-til-cancelled, or leaves no
remainder; through either worker. In the engine it always ends filled or cancelled. -/
theorem market_order_never_rests_iff {s : Exchange} (hs : Reachable (fun _ p => 0 < p.quantity) s) (pairs : PairsCache)
    (pg : Postgres) {req : CreateOrderRequest} {orderId : Uuid} {now : ℤ} {msg : QueuedOrderMsg}
    (hreq : createOrder req orderId now = .ok msg) (hmarket : req.orderType = .market)
    (hfresh : ∀ p ∈ s.submitted, p.id ≠ orderId) (d : Draws) :
    let o := req.toOrder orderId now
    let gateway := Gateway.processOrder pairs ⟨s.db,pg⟩ msg d
    let api := Api.processQueuedOrder pairs s.db msg d
    (NeverRests o (gateway.1.toOption.map Order.status) gateway.2.db ↔ ¬ o.StaysInBook pairs s.db) ∧
    (NeverRests o (api.1.toOption.map (fun r => r.1.status)) api.2 ↔ ¬ o.StaysInBook pairs s.db) ∧
    ∀ newV4 book, (Engine.matchOrder newV4 o book).1.incoming.status.IsFinal := by
  obtain ⟨hr,hacc⟩ := hs.invariant (fun _ p hp => decimalToI64_nonneg (le_of_lt hp))
  have hpos : 0 < req.quantity := quantity_pos_of_createOrder hreq
  have hnone : s.db.order orderId = none := hacc.order_fresh hfresh
  have hpriced : (req.toOrder orderId now).Priced := fun hlimit => by
    have htype : req.orderType = .limit := hlimit
    rw [hmarket] at htype
    cases htype
  have hq : 0 ≤ (req.toOrder orderId now).qtyI := decimalToI64_nonneg hpos.le
  refine ⟨?_,?_,fun newV4 book => Engine.matchOrder_market_final newV4 hmarket hpos book⟩
  · exact (gateway_outcome (gateway_parseOrder_createOrder hreq d.orderId d.now) pg).neverRests_iff hr hnone hpriced hq
  · exact (api_outcome (api_parseOrder_createOrder hreq d.now)).neverRests_iff hr hnone hpriced hq

/-- A market buy of Bob's, with the default time in force. -/
def marketBuy (quantity : Decimal) : CreateOrderRequest where
  userId := some "bob"
  pairId := "BTC-USDT"
  side := .buy
  orderType := .market
  tif := none
  price := none
  quantity := quantity
  stpMode := none
  clientOrderId := none

lemma createOrder_marketBuy {quantity : Decimal} (hq : 0 < quantity) (orderId : Uuid) :
    createOrder (marketBuy quantity) orderId 0 = .ok (marketMsg orderId "bob" .buy .gtc quantity) := by
  have hc : checkOrder .market none quantity = .ok () := by simp [checkOrder, hq]
  unfold createOrder
  change (checkOrder .market none quantity >>= _) = _
  rw [hc]
  rfl

/-- A book with one ask of five units. -/
def oneAsk : Exchange :=
  (Exchange.mk Valkey.empty [] []).submit (.gtcLimit 1 "alice" "BTC-USDT" .sell 100 5) "BTC" 0

/-- The ask fills a market buy of five units, which then is not in the book. -/
theorem market_buy_of_one_ask_never_rests :
    let o := (marketBuy (i64ToDecimal 5)).toOrder 2 0
    let gateway := Gateway.processOrder btcUsdt ⟨oneAsk.db,.empty⟩ (marketMsg 2 "bob" .buy .gtc (i64ToDecimal 5))
      ⟨0,fun _ => 20,0⟩
    gateway.1.toOption.map Order.status = some .filled ∧
    NeverRests o (gateway.1.toOption.map Order.status) gateway.2.db := by
  have hs : Reachable (fun _ p => 0 < p.quantity) oneAsk := by
    refine ⟨Valkey.empty,⟨fun _ _ => rfl,fun _ => rfl⟩,Relation.ReflTransGen.refl.tail (.submit _ _ _ (by simp) ?_)⟩
    norm_num [Order.gtcLimit, i64ToDecimal, scale]
  have hstays : ¬ ((marketBuy (i64ToDecimal 5)).toOrder 2 0).StaysInBook btcUsdt oneAsk.db := by
    intro h
    exact absurd h.2.2 (by decide +kernel)
  have hq : (0 : ℚ) < i64ToDecimal 5 := by norm_num [i64ToDecimal, scale]
  exact ⟨by decide +kernel,(market_order_never_rests_iff hs btcUsdt .empty (createOrder_marketBuy hq 2) rfl
    (by decide +kernel) ⟨0,fun _ => 20,0⟩).1.mpr hstays⟩

/-- In an empty book a market buy with the default time in force stays as a bid, with status
`New`, through either worker. -/
theorem market_buy_rests : ∃ (pairs : PairsCache) (s : Exchange) (req : CreateOrderRequest) (orderId : Uuid)
    (msg : QueuedOrderMsg) (d : Draws), Reachable (fun _ p => 0 < p.quantity) s ∧ req.orderType = .market ∧
    req.tif.getD .gtc ≠ .fok ∧ createOrder req orderId 0 = .ok msg ∧ (∀ p ∈ s.submitted, p.id ≠ orderId) ∧
    let gateway := Gateway.processOrder pairs ⟨s.db,.empty⟩ msg d
    let api := Api.processQueuedOrder pairs s.db msg d
    orderId ∈ gateway.2.db.book req.pairId .buy ∧ gateway.1.toOption.map Order.status = some .new ∧
    orderId ∈ api.2.book req.pairId .buy ∧ api.1.toOption.map (fun r => r.1.status) = some .new := by
  refine ⟨btcUsdt,⟨Valkey.empty,[],[]⟩,marketBuy 1,2,marketMsg 2 "bob" .buy .gtc 1,⟨0,fun _ => 20,0⟩,
    ⟨Valkey.empty,⟨fun _ _ => rfl,fun _ => rfl⟩,.refl⟩,rfl,by decide,createOrder_marketBuy (by norm_num) 2,by simp,?_⟩
  decide +kernel

end MatchingEngine

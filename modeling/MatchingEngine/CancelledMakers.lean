import MatchingEngine.Cancellation
import MatchingEngine.Obligations
import MatchingEngine.Outcomes

/-! Makers removed by self-trade prevention. The script drops them from the book without
saying so in its reply, so neither their rows nor their reservations ever change. What is in the
reply is read as it was printed, as it is below `10^14`. -/
namespace MatchingEngine
open Library

namespace System

/-- An id without a hash and without a row. -/
structure Fresh (s : System) (id : Uuid) : Prop where
  order : s.db.order id = none
  row : s.pg.orders.get id = none

instance (s : System) (id : Uuid) : Decidable (s.Fresh id) :=
  decidable_of_iff (s.db.order id = none ∧ s.pg.orders.get id = none) ⟨fun h => ⟨h.1,h.2⟩,fun h => ⟨h.1,h.2⟩⟩

/-- Requests and cancellations, one after the other. An accepted order has a fresh id. -/
inductive Step (pairs : PairsCache) : System → System → Prop
  | request {s : System} (msg : QueuedOrderMsg) (d : Draws)
      (fresh : ∀ o ∈ (Gateway.acceptOrder pairs msg d).toOption, s.Fresh o.id) :
      Step pairs s (Gateway.processOrder pairs s msg d).2
  | cancel {s : System} (msg : CancelMsg) : Step pairs s (Api.processCancellation s msg).2

/-- States reached from an empty book; the database may start with any rows. -/
def Reachable (pairs : PairsCache) (s : System) : Prop :=
  ∃ s₀ : System, s₀.db.EmptyBook ∧ Relation.ReflTransGen (Step pairs) s₀ s

/-- No resting order has a cancelled row. -/
def RowsLive (s : System) : Prop :=
  ∀ id w, s.db.order id = some w → ∀ r ∈ s.pg.orders.get id, r.status ≠ .cancelled

end System

/-! ### Rows of resting orders -/

lemma fillRow_status_ne_cancelled {q : Decimal} {r : Order} (h : r.status ≠ .cancelled) :
    (fillRow q r).status ≠ .cancelled := by
  unfold fillRow
  by_cases hopen : r.status.IsOpen
  · rw [if_pos hopen]
    simp only
    split_ifs <;> simp
  · rwa [if_neg hopen]

lemma persistOrder_row_ne {pg pg' : Postgres} {m : Matched} (h : pg.persistOrder m = .ok pg') {id : Uuid}
    (hne : id ≠ m.order.id) {r : Order} (hr : pg'.orders.get id = some r) :
    ∃ r₀, pg.orders.get id = some r₀ ∧ (r = r₀ ∨ ∃ q, r = fillRow q r₀) := by
  obtain ⟨_,_,horders,_⟩ := Postgres.persistOrder_ok h
  rw [horders, Postgres.ordersAfterPersist_get_of_ne pg hne, Option.map_eq_some_iff] at hr
  obtain ⟨r₀,hr₀,hrr⟩ := hr
  refine ⟨r₀,hr₀,?_⟩
  cases hlk : (m.luaTrades.map (fun lt => (lt.restingOrderId,lt.quantity))).lookup id with
  | none =>
    rw [hlk] at hrr
    exact .inl hrr.symm
  | some q =>
    rw [hlk] at hrr
    exact .inr ⟨q,hrr.symm⟩

lemma persistOrder_row_self {pg pg' : Postgres} {m : Matched} (h : pg.persistOrder m = .ok pg')
    (hfresh : pg.orders.get m.order.id = none) (hopen : m.order.status.IsOpen) {r : Order}
    (hr : pg'.orders.get m.order.id = some r) : r.status ≠ .cancelled := by
  obtain ⟨_,_,horders,_⟩ := Postgres.persistOrder_ok h
  have hne : m.order.status ≠ .cancelled := by
    rcases hopen with h | h <;> rw [h] <;> decide
  rw [horders, Postgres.ordersAfterPersist] at hr
  simp only [if_pos hopen, Table.get_updateFrom, Option.map_eq_some_iff] at hr
  obtain ⟨r₀,hr₀,rfl⟩ := hr
  obtain rfl := Postgres.insertOrder_get_self hfresh hr₀
  cases (m.luaTrades.map (fun lt => (lt.restingOrderId,lt.quantity))).lookup m.order.id with
  | none => exact hne
  | some q => exact fillRow_status_ne_cancelled hne

section RowsLive
variable {pairs : PairsCache} {s : System}

lemma System.RowsLive.row_of_resting (hs : s.RowsLive) {msg : QueuedOrderMsg} {d : Draws} {o : Order} {asset : String}
    {amount : ℤ} {db₁ : Valkey} (hrun : Gateway.Runs pairs s msg d o asset amount db₁) (hf : s.Fresh o.id) {id : Uuid}
    {w : OrderHash} (hw : s.db.order id = some w) {r : Order}
    (hr : (Gateway.processOrder pairs s msg d).2.pg.orders.get id = some r) : r.status ≠ .cancelled := by
  have hne : id ≠ o.id := by
    rintro rfl
    rw [hf.order] at hw
    cases hw
  rcases hrun.stores.2 with hpg | hpg
  · rw [hpg] at hr
    exact hs id w hw r hr
  · obtain ⟨r₀,hr₀,rfl | ⟨q,rfl⟩⟩ := persistOrder_row_ne hpg hne hr
    · exact hs id w hw _ hr₀
    · exact fillRow_status_ne_cancelled (hs id w hw r₀ hr₀)

lemma System.RowsLive.request (hs : s.RowsLive) {msg : QueuedOrderMsg} {d : Draws}
    (hfresh : ∀ o ∈ (Gateway.acceptOrder pairs msg d).toOption, s.Fresh o.id) :
    (Gateway.processOrder pairs s msg d).2.RowsLive := by
  rcases Gateway.processOrder_cases pairs s msg d with ⟨e,he⟩ | ⟨o,_,_,he⟩ | ⟨o,asset,amount,db₁,hrun⟩
  · rwa [he]
  · rwa [he]
  have hf : s.Fresh o.id := hfresh o (by rw [hrun.accepted]; rfl)
  obtain ⟨hdb,hpg⟩ := hrun.stores
  intro id w hw r hr
  rw [hdb] at hw
  rcases settle_order_cases hrun.funded hw with ⟨hrests,rfl,_⟩ | ⟨v,hv,rfl,_⟩ | ⟨_,ho⟩
  · change (Gateway.processOrder pairs s msg d).2.pg.orders.get o.id = some r at hr
    rcases hpg with hpg | hpg
    · rw [hpg, hf.row] at hr
      cases hr
    · exact persistOrder_row_self hpg hf.row hrests.isOpen hr
  · exact hs.row_of_resting hrun hf (planOn_visit hv).2.1 hr
  · exact hs.row_of_resting hrun hf ho hr

lemma System.RowsLive.cancel (hs : s.RowsLive) (orderId : Option (Text Uuid)) (userId : Option String) :
    (Api.cancel s orderId userId).2.RowsLive := by
  unfold Api.cancel
  rcases orderId with _ | id | _
  · exact hs
  · cases hc : Api.cancellable s.pg id (userId.getD "") with
    | none => simpa only [hc] using hs
    | some row =>
      simp only [hc]
      intro x w hw r hr
      have hne : x ≠ id := by
        rintro rfl
        simp [Valkey.removeOrderFromBook] at hw
      simp only [Valkey.removeOrderFromBook, Valkey.dropOrder_order, if_neg hne] at hw
      refine hs x w hw r ?_
      simpa [Api.releaseCancelled, Api.markCancelled, Postgres.updateOrder, hne] using hr
  · exact hs

lemma System.RowsLive.cancelAll (hs : s.RowsLive) (rows : List (Uuid × Order)) (user : String) :
    (rows.foldl (fun s r => (Api.cancel s (some (.value r.1)) (some user)).2) s).RowsLive := by
  induction rows generalizing s with
  | nil => exact hs
  | cons r rows ih => exact ih (hs.cancel _ _)

lemma System.RowsLive.processCancellation (hs : s.RowsLive) (msg : CancelMsg) :
    (Api.processCancellation s msg).2.RowsLive := by
  unfold Api.processCancellation
  split
  · exact hs.cancel _ _
  · have hc := hs.cancel msg.orderId (some (msg.userId.getD ""))
    rcases hcancel : Api.cancel s msg.orderId (some (msg.userId.getD "")) with ⟨_ | _,s'⟩
    · rwa [hcancel] at hc
    · rwa [hcancel] at hc
  · exact hs.cancelAll _ _
  · exact hs

theorem System.Reachable.rowsLive (h : s.Reachable pairs) : s.RowsLive := by
  obtain ⟨s₀,⟨_,hnone⟩,hrun⟩ := h
  induction hrun with
  | refl =>
    intro id w hw
    rw [hnone] at hw
    cases hw
  | tail _ hstep ih =>
    cases hstep with
    | request msg d fresh => exact ih.request fresh
    | cancel msg => exact ih.processCancellation msg

end RowsLive

/-! ### Removed makers -/

/-- A resting order that a request removed without filling it. -/
structure RemovedUnfilled (before after : Valkey) (trades : List LuaTrade) (id : Uuid) (w : OrderHash) : Prop where
  resting : before.order id = some w
  member : ∃ pair side, id ∈ before.book pair side ∧ id ∉ after.book pair side
  gone : after.order id = none
  unfilled : ∀ lt ∈ trades, lt.restingOrderId ≠ id

/-- The removal shows in the row and in the owner's locked funds, apart from what the incoming
order locks itself. -/
structure MakerCancelled (s s' : System) (o : Order) (id : Uuid) (w : OrderHash) : Prop where
  row : ∃ r ∈ s'.pg.orders.get id, r.status = .cancelled
  unlocked : ∀ asset amount, lockParams o = .ok (asset,amount) → ∀ other,
    ((s'.db.balance w.userId other).locked : ℚ) ≤ (s.db.balance w.userId other).locked +
      (if w.userId = o.userId ∧ other = asset then (matchArgs o asset amount).lockedI else 0) - w.obligation other

/-- The order comes to a resting order of its own user that is to be cancelled. -/
def Order.CancelsMaker (o : Order) (db : Valkey) : Prop :=
  ∃ r, o.Meets db r ∧ (o.stpAction r.hash = .cancelMaker ∨ o.stpAction r.hash = .cancelBoth)

/-- The trades of a request that reaches the script. -/
def Gateway.luaTrades (pairs : PairsCache) (s : System) (msg : QueuedOrderMsg) (d : Draws) : List LuaTrade :=
  match Gateway.acceptOrder pairs msg d with
  | .error _ => []
  | .ok o => if o.tif = .fok then [] else ((evalOrder s.db d.tradeId o).1.toOption.elim [] Matched.luaTrades)

lemma cancelsMaker_iff {o : Order} {db : Valkey} (asset : String) (amount : ℤ) :
    o.CancelsMaker db ↔ ∃ r, ⟨r,.cancel⟩ ∈ ((matchArgs o asset amount).planOn db).visits :=
  exists_congr (fun r => ((planOn_meets o db asset amount).1 r).symm)

section Removed
variable {a : MatchArgs} {db db₁ : Valkey} {id : Uuid} {w : OrderHash}

/-- The script removes without filling exactly the orders it visits to cancel them. -/
lemma removed_iff (hl : lockBalance db a = some db₁) (hfresh : db.order a.orderId = none) :
    RemovedUnfilled db (a.settle db₁ (a.planOn db)) (((a.planOn db).trades a).map ScriptTrade.toLuaTrade) id w ↔
      ⟨⟨id,w⟩,.cancel⟩ ∈ (a.planOn db).visits := by
  constructor
  · rintro ⟨hrest,_,hgone,hunfilled⟩
    have hne : id ≠ a.orderId := by
      rintro rfl
      rw [hfresh] at hrest
      cases hrest
    by_cases hv : ∃ v ∈ (a.planOn db).visits, v.id = id
    · obtain ⟨⟨r,act⟩,hv,rfl⟩ := hv
      have hhash : w = r.hash := by
        have := (planOn_visit hv).2.1
        rw [hrest] at this
        exact Option.some.inj this
      subst hhash
      cases act with
      | cancel => exact hv
      | fill q =>
        exact absurd rfl (hunfilled _ (List.mem_map_of_mem (Plan.mem_trades.mpr ⟨r,q,hv,rfl⟩)))
    · push Not at hv
      rw [settle_order_unvisited hl hv (fun _ => hne), hrest] at hgone
      cases hgone
  · intro hv
    obtain ⟨_,ho,hb⟩ := planOn_visit hv
    change db.order id = some w at ho
    have hne : id ≠ a.orderId := by
      rintro rfl
      rw [hfresh] at ho
      cases ho
    refine ⟨ho,⟨a.pairId,a.side.opposite,hb,?_⟩,?_,?_⟩
    · exact settle_notMem_of_outcome hv rfl
    · exact settle_order_visited hv (fun _ => hne)
    · intro lt hlt heq
      obtain ⟨t,ht,rfl⟩ := List.mem_map.mp hlt
      obtain ⟨r,q,hvq,rfl⟩ := Plan.mem_trades.mp ht
      have := List.inj_on_of_nodup_map (planOn_ids_nodup a db) hvq hv heq
      cases this

end Removed

/-- Makers that self-trade prevention removes are never cancelled in the database: the
removals of a request are all recorded exactly when it removes nothing. -/
theorem stp_makers_cancelled_iff {pairs : PairsCache} {s s' : System} (hs : s.Reachable pairs) {msg : QueuedOrderMsg}
    {d : Draws} {o order : Order} (ha : Gateway.acceptOrder pairs msg d = .ok o) (hfresh : s.Fresh o.id)
    (h : Gateway.processOrder pairs s msg d = (.ok order,s')) :
    (∀ id w, RemovedUnfilled s.db s'.db (Gateway.luaTrades pairs s msg d) id w → MakerCancelled s s' o id w) ↔
      (o.tif ≠ .fok → ¬ o.CancelsMaker s.db) := by
  rcases Gateway.processOrder_cases pairs s msg d with ⟨e,he⟩ | ⟨o',ha',hf,he⟩ | ⟨o',asset,amount,db₁,hrun⟩
  · rw [he] at h
    cases h
  · rw [he] at h
    cases h
    rw [ha] at ha'
    cases ha'
    refine ⟨fun _ hne => absurd hf hne,fun _ id w hrem => ?_⟩
    have hgone := hrem.gone
    rw [hrem.resting] at hgone
    cases hgone
  · obtain rfl : o = o' := by
      have := hrun.accepted
      rw [ha] at this
      exact Except.ok.inj this
    have htrades : Gateway.luaTrades pairs s msg d =
        (((matchArgs o asset amount).planOn s.db).trades (matchArgs o asset amount)).map ScriptTrade.toLuaTrade := by
      simp only [Gateway.luaTrades, ha, if_neg hrun.tif, evalOrder_of_lock d.tradeId hrun.lock hrun.funded]
      rfl
    have hdb : s'.db = Gateway.scriptDb s o asset amount db₁ := by
      rw [← hrun.stores.1, h]
    have hremoved : ∀ id w, RemovedUnfilled s.db s'.db (Gateway.luaTrades pairs s msg d) id w ↔
        ⟨⟨id,w⟩,.cancel⟩ ∈ ((matchArgs o asset amount).planOn s.db).visits := by
      intro id w
      rw [htrades, hdb]
      exact removed_iff hrun.funded hfresh.order
    rw [cancelsMaker_iff asset amount]
    constructor
    · rintro hall _ ⟨⟨id,w⟩,hv⟩
      obtain ⟨r,hr,hc⟩ := (hall id w ((hremoved id w).mpr hv)).row
      refine hs.rowsLive.row_of_resting hrun hfresh (planOn_visit hv).2.1 ?_ hc
      rw [h]
      exact hr
    · intro hno id w hrem
      exact absurd ⟨⟨id,w⟩,(hremoved id w).mp hrem⟩ (hno hrun.tif)

lemma offerOf_reachable (user : String)
    (h : ∀ o ∈ (Gateway.acceptOrder btcUsdt (limitMsg 1 user .sell 100 1) ⟨0,fun _ => 10,0⟩).toOption, o.id = 1) :
    (offerOf user).Reachable btcUsdt := by
  refine ⟨⟨(Session.funded (10 ^ 12)).sys.db,.empty⟩,⟨fun _ _ => rfl,fun _ => rfl⟩,
    Relation.ReflTransGen.refl.tail (.request _ _ (fun o ho => ?_))⟩
  rw [h o ho]
  exact ⟨rfl,rfl⟩

/-- Bob's purchase of Alice's offer removes no maker, and nothing is left unrecorded. -/
theorem stp_makers_cancelled_of_purchase :
    let msg := limitMsg 2 "bob" .buy 100 1
    let o : Order := ⟨2,"bob","BTC-USDT",.buy,.limit,.gtc,some 100,1,1,.new,.none,1,0,none⟩
    let s' := (Gateway.processOrder btcUsdt (offerOf "alice") msg ⟨0,fun _ => 20,0⟩).2
    ∀ id w, RemovedUnfilled (offerOf "alice").db s'.db
      (Gateway.luaTrades btcUsdt (offerOf "alice") msg ⟨0,fun _ => 20,0⟩) id w → MakerCancelled (offerOf "alice") s' o id w := by
  intro msg o s'
  have hok : (Gateway.processOrder btcUsdt (offerOf "alice") msg ⟨0,fun _ => 20,0⟩).1 =
    .ok { o with remaining := 0, status := .filled } := by decide +kernel
  have hno : ¬ o.CancelsMaker (offerOf "alice").db := by
    rw [cancelsMaker_iff "USDT" 10000000000]
    rintro ⟨r,hr⟩
    have hall : ∀ v ∈ ((matchArgs o "USDT" 10000000000).planOn (offerOf "alice").db).visits, v.action ≠ .cancel := by
      decide +kernel
    exact hall _ hr rfl
  exact (stp_makers_cancelled_iff (offerOf_reachable "alice" (by decide +kernel)) (by decide +kernel) (by decide +kernel)
    (Prod.ext hok rfl)).mpr (fun _ => hno)

/-- Alice's purchase with `CancelMaker` removes her own offer from the book; the row stays new
and the bitcoin stays locked. -/
theorem stp_maker_stays_new : ∃ (pairs : PairsCache) (s s' : System) (msg : QueuedOrderMsg) (d : Draws) (o order : Order)
    (id : Uuid) (w : OrderHash), s.Reachable pairs ∧ Gateway.acceptOrder pairs msg d = .ok o ∧ s.Fresh o.id ∧
    Gateway.processOrder pairs s msg d = (.ok order,s') ∧
    RemovedUnfilled s.db s'.db (Gateway.luaTrades pairs s msg d) id w ∧
    (∃ r ∈ s'.pg.orders.get id, r.status = .new) ∧ (s'.db.balance w.userId "BTC").locked = w.remainingI ∧
    ¬ MakerCancelled s s' o id w := by
  let msg : QueuedOrderMsg := { limitMsg 2 "alice" .buy 100 1 with stpMode := some "CancelMaker" }
  let o : Order := ⟨2,"alice","BTC-USDT",.buy,.limit,.gtc,some 100,1,1,.new,.cancelMaker,1,0,none⟩
  let w : OrderHash := ⟨1,"BTC-USDT",.sell,.limit,.gtc,10000000000,100000000,100000000,.new,.none,"alice",0,1⟩
  let s' := (Gateway.processOrder btcUsdt (offerOf "alice") msg ⟨0,fun _ => 20,0⟩).2
  have hnew : ∃ r ∈ s'.pg.orders.get 1, r.status = .new := by decide +kernel
  refine ⟨btcUsdt,offerOf "alice",s',msg,⟨0,fun _ => 20,0⟩,o,{ o with remaining := 1, status := .new },1,w,
    offerOf_reachable "alice" (by decide +kernel),by decide +kernel,by decide +kernel,?_,
    ⟨by decide +kernel,⟨"BTC-USDT",.sell,by decide +kernel,by decide +kernel⟩,by decide +kernel,by decide +kernel⟩,hnew,
    by decide +kernel,fun h => ?_⟩
  · have hok : (Gateway.processOrder btcUsdt (offerOf "alice") msg ⟨0,fun _ => 20,0⟩).1 =
      .ok { o with remaining := 1, status := .new } := by decide +kernel
    exact Prod.ext hok rfl
  · obtain ⟨r,hr,hn⟩ := hnew
    obtain ⟨r',hr',hc⟩ := h.row
    rw [Option.mem_def.mp hr] at hr'
    cases hr'
    rw [hn] at hc
    cases hc

end MatchingEngine

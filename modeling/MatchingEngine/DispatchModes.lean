import MatchingEngine.Debouncer
import MatchingEngine.Idempotency
import MatchingEngine.PersistPaths
import MatchingEngine.PersistWorker
import MatchingEngine.TimedRequests

/-! The two dispatch modes of `create_order`. Inline, the gateway matches an order and writes its
transaction before it answers; queued, the api worker matches it and sends a job, which the persist
worker writes some time later, in a batch. -/
namespace MatchingEngine
open Library

/-- A request, and what is drawn for it on its way. -/
structure Arrival where
  request : CreateOrderRequest
  orderId : Uuid
  received : ℤ
  draws : Draws

namespace Arrival

def order (x : Arrival) : Order := x.request.toOrder x.orderId x.received

/-- `DispatchMode::Inline`; an error is only logged. -/
def inline (pairs : PairsCache) (s : System) (x : Arrival) : System :=
  match createOrder x.request x.orderId x.received with
  | .error _ => s
  | .ok msg => (Gateway.processOrderDecoded pairs s msg x.draws).2

/-- `DispatchMode::Queue`, when the message is processed: the store, and the job that is sent. -/
def queued (pairs : PairsCache) (db : Valkey) (x : Arrival) : Valkey × Option PersistJob :=
  match createOrder x.request x.orderId x.received with
  | .error _ => (db,none)
  | .ok msg => ((Api.queuedOrderDecoded pairs db msg x.draws).2,(Api.queuedOrderDecoded pairs db msg x.draws).1)

end Arrival

/-- What happens to an exchange: a request comes in, or time passes. -/
inductive Happening
  | request (x : Arrival)
  | wait (ms : ℕ)

namespace Happening

def arrival? : Happening → Option Arrival
  | .request x => some x
  | .wait _ => none

def inline (pairs : PairsCache) (s : System) : Happening → System
  | .request x => x.inline pairs s
  | .wait ms => ⟨s.db.pass ms,s.pg⟩

def queued (pairs : PairsCache) (db : Valkey) : Happening → Valkey × Option PersistJob
  | .request x => x.queued pairs db
  | .wait ms => (db.pass ms,none)

def inlineRun (pairs : PairsCache) (s : System) (hs : List Happening) : System := hs.foldl (inline pairs) s

def queuedRun (pairs : PairsCache) (db : Valkey) : List Happening → Valkey × List PersistJob
  | [] => (db,[])
  | h :: hs =>
    let rest := queuedRun pairs (h.queued pairs db).1 hs
    (rest.1,(h.queued pairs db).2.toList ++ rest.2)

/-- The requests of a run. -/
def arrivals (hs : List Happening) : List Arrival := hs.filterMap arrival?

end Happening

/-- `persist_order` on each job in turn. -/
def Postgres.persistOrders (pg : Postgres) (jobs : List PersistJob) : Postgres :=
  jobs.foldl (fun pg job => (pg.persistOrder job).toOption.getD pg) pg

/-! ### One request -/

namespace Arrival

/-- A request that gets through the script. -/
structure Runs (pairs : PairsCache) (db : Valkey) (x : Arrival) (asset : String) (amount : ℤ) (db₁ : Valkey) : Prop where
  checked : checkOrder x.request.orderType x.request.price x.request.quantity = .ok ()
  valid : validateOrder pairs x.order = .ok ()
  lock : lockParams x.order = .ok (asset,amount)
  tif : x.order.tif ≠ .fok
  funded : lockBalance db (matchArgs x.order asset amount) = some db₁

/-- The numbers of its reply are read back, and those that go into hashes are printed in full. -/
def ReadsBack (pairs : PairsCache) (db : Valkey) (x : Arrival) : Prop :=
  ∀ asset amount db₁, x.Runs pairs db asset amount db₁ → x.order.ReadsBack db asset amount ∧ x.order.PrintsInFull db asset amount

/-- The store after the script. -/
def scriptDb (x : Arrival) (db : Valkey) (asset : String) (amount : ℤ) (db₁ : Valkey) : Valkey :=
  (matchArgs x.order asset amount).settle db₁ ((matchArgs x.order asset amount).planOn db)

/-- What the script leaves to be written. -/
def job (x : Arrival) (db : Valkey) (asset : String) (amount : ℤ) : PersistJob :=
  x.order.matchedOn db x.draws.tradeId asset amount

section Requests
variable {pairs : PairsCache} {db db₁ : Valkey} {x : Arrival} {asset : String} {amount : ℤ}

lemma exists_msg (h : checkOrder x.request.orderType x.request.price x.request.quantity = .ok ()) :
    ∃ msg, createOrder x.request x.orderId x.received = .ok msg := by
  unfold createOrder
  rw [h]
  exact ⟨_,rfl⟩

lemma accepted_eq {msg : QueuedOrderMsg} (h : createOrder x.request x.orderId x.received = .ok msg) :
    Gateway.acceptOrder pairs msg x.draws = (validateOrder pairs x.order).map (fun _ => x.order) := by
  unfold Gateway.acceptOrder
  rw [gateway_parseOrder_createOrder h]
  change (validateOrder pairs x.order >>= fun _ => pure x.order) = _
  cases validateOrder pairs x.order <;> rfl

lemma Runs.api {msg : QueuedOrderMsg} (h : x.Runs pairs db asset amount db₁) (hmsg : createOrder x.request x.orderId x.received = .ok msg) :
    Api.Runs pairs db msg x.draws x.order asset amount db₁ :=
  ⟨api_parseOrder_createOrder hmsg _,h.valid,h.lock,h.tif,h.funded⟩

lemma Runs.gateway {msg : QueuedOrderMsg} (h : x.Runs pairs db asset amount db₁)
    (hmsg : createOrder x.request x.orderId x.received = .ok msg) (pg : Postgres) :
    Gateway.Runs pairs ⟨db,pg⟩ msg x.draws x.order asset amount db₁ :=
  ⟨by rw [accepted_eq hmsg, h.valid]; rfl,h.tif,h.lock,h.funded⟩

lemma Runs.queued_eq (h : x.Runs pairs db asset amount db₁) (hreads : x.ReadsBack pairs db) :
    x.queued pairs db = (x.scriptDb db asset amount db₁,some (x.job db asset amount)) := by
  obtain ⟨msg,hmsg⟩ := exists_msg h.checked
  have hparse := (h.api hmsg).parsed
  have hdecoded : x.order.decodedOn db x.draws.tradeId asset amount = .ok (x.job db asset amount) :=
    Order.decodedOn_of_readsBack h.funded (hreads asset amount db₁ h).1
  simp only [queued, hmsg, Api.queuedOrderDecoded, hparse, h.valid, h.lock, if_neg h.tif, hdecoded, matchOrderScript_eq, h.funded]
  rfl

lemma Runs.inline_eq (h : x.Runs pairs db asset amount db₁) (hreads : x.ReadsBack pairs db) (hwarm : isWarmup x.order = false)
    (pg : Postgres) : x.inline pairs ⟨db,pg⟩ = ⟨x.scriptDb db asset amount db₁,pg.persistOrders [x.job db asset amount]⟩ := by
  obtain ⟨msg,hmsg⟩ := exists_msg h.checked
  have hrun := (h.gateway hmsg pg).processOrder_eq
  rw [← (h.gateway hmsg pg).decoded_eq (hreads asset amount db₁ h).1] at hrun
  simp only [hwarm, Bool.false_eq_true, if_false] at hrun
  simp only [inline, hmsg, hrun, Postgres.persistOrders, List.foldl_cons, List.foldl_nil, job]
  cases pg.persistOrder (x.order.matchedOn db x.draws.tradeId asset amount) <;> rfl

lemma queued_of_not_runs (h : ¬ ∃ asset amount db₁, x.Runs pairs db asset amount db₁) : x.queued pairs db = (db,none) := by
  cases hmsg : createOrder x.request x.orderId x.received with
  | error m => simp only [queued, hmsg]
  | ok msg =>
    have hparse := api_parseOrder_createOrder hmsg x.draws.now
    change Api.parseOrder msg x.draws.now = .ok x.order at hparse
    simp only [queued, hmsg, Api.queuedOrderDecoded, hparse]
    cases hvalid : validateOrder pairs x.order with
    | error e => rfl
    | ok u =>
      cases hlock : lockParams x.order with
      | error e => rfl
      | ok p =>
        obtain ⟨asset,amount⟩ := p
        simp only
        by_cases hfok : x.order.tif = .fok
        · rw [if_pos hfok]
        · rw [if_neg hfok]
          cases hfunded : lockBalance db (matchArgs x.order asset amount) with
          | none =>
            simp only [Order.decodedOn, matchOrderScript_eq, hfunded]
            rfl
          | some db₁ => exact absurd ⟨asset,amount,db₁,createOrder_checks hmsg,hvalid,hlock,hfok,hfunded⟩ h

lemma inline_of_not_runs (h : ¬ ∃ asset amount db₁, x.Runs pairs db asset amount db₁) (pg : Postgres) :
    x.inline pairs ⟨db,pg⟩ = ⟨db,pg⟩ := by
  cases hmsg : createOrder x.request x.orderId x.received with
  | error m => simp only [inline, hmsg]
  | ok msg =>
    simp only [inline, hmsg]
    rcases Gateway.processOrderDecoded_cases pairs ⟨db,pg⟩ msg x.draws with hrun | ⟨o,asset,amount,db₁,hrun⟩
    · rw [hrun]
    · have haccepted := hrun.accepted
      rw [accepted_eq hmsg] at haccepted
      cases hvalid : validateOrder pairs x.order with
      | error m =>
        rw [hvalid] at haccepted
        cases haccepted
      | ok u =>
        rw [hvalid] at haccepted
        obtain rfl : x.order = o := Except.ok.inj haccepted
        exact absurd ⟨asset,amount,db₁,createOrder_checks hmsg,hvalid,hrun.lock,hrun.tif,hrun.funded⟩ h

lemma cases (pairs : PairsCache) (db : Valkey) (x : Arrival) :
    (∃ asset amount db₁, x.Runs pairs db asset amount db₁) ∨
      x.queued pairs db = (db,none) ∧ ∀ pg, x.inline pairs ⟨db,pg⟩ = ⟨db,pg⟩ := by
  by_cases hruns : ∃ asset amount db₁, x.Runs pairs db asset amount db₁
  · exact Or.inl hruns
  · exact Or.inr ⟨queued_of_not_runs hruns,inline_of_not_runs hruns⟩

lemma Runs.of_withTtl {ttl : Uuid → Option ℕ} (h : x.Runs pairs (db.withTtl ttl) asset amount db₁) :
    ∃ db₂ ttl', x.Runs pairs db asset amount db₂ ∧
      x.scriptDb (db.withTtl ttl) asset amount db₁ = (x.scriptDb db asset amount db₂).withTtl ttl' := by
  have hfunded := h.funded
  rw [lockBalance_withTtl] at hfunded
  obtain ⟨db₂,hdb₂,rfl⟩ := Option.map_eq_some_iff.mp hfunded
  obtain ⟨ttl',hsettle⟩ := exists_settle_withTtl (matchArgs x.order asset amount) db₂ ((matchArgs x.order asset amount).planOn db) ttl
  exact ⟨db₂,ttl',⟨h.checked,h.valid,h.lock,h.tif,hdb₂⟩,hsettle⟩

end Requests

end Arrival

/-! ### A run -/

namespace Happening

/-- All numbers have at most fourteen digits; no hash comes to the end of its hour. -/
def Fine (pairs : PairsCache) (db : Valkey) : Happening → Prop
  | .request x => x.ReadsBack pairs db
  | .wait ms => ∀ id, ∀ t ∈ db.ttl id, ms < t

/-- All along a run. -/
def FineAlong (pairs : PairsCache) : Valkey → List Happening → Prop
  | _, [] => True
  | db, h :: hs => h.Fine pairs db ∧ FineAlong pairs (h.queued pairs db).1 hs

section Run
variable {pairs : PairsCache} {db : Valkey} {hs : List Happening}

lemma FineAlong.mono {before : List Happening} (h : FineAlong pairs db hs) (hbefore : before <+: hs) : FineAlong pairs db before := by
  induction before generalizing db hs with
  | nil => trivial
  | cons x before ih =>
    cases hs with
    | nil => exact absurd (List.prefix_nil.mp hbefore) (by simp)
    | cons y hs =>
      obtain ⟨rfl,hrest⟩ := List.cons_prefix_cons.mp hbefore
      exact ⟨h.1,ih h.2 hrest⟩

lemma arrivals_request (x : Arrival) (hs : List Happening) : arrivals (.request x :: hs) = x :: arrivals hs := rfl

/-- Inline, the tables are those of the jobs written by `persist_order` as they come. -/
theorem inlineRun_eq (hwarm : ∀ x ∈ arrivals hs, isWarmup x.order = false) (hfine : FineAlong pairs db hs) (pg : Postgres) :
    inlineRun pairs ⟨db,pg⟩ hs = ⟨(queuedRun pairs db hs).1,pg.persistOrders (queuedRun pairs db hs).2⟩ := by
  induction hs generalizing db pg with
  | nil => rfl
  | cons h hs ih =>
    obtain ⟨hh,hrest⟩ := hfine
    change inlineRun pairs (h.inline pairs ⟨db,pg⟩) hs = _
    simp only [queuedRun]
    cases h with
    | wait ms => exact ih hwarm hrest pg
    | request x =>
      rw [arrivals_request] at hwarm
      have hwarm' : ∀ y ∈ arrivals hs, isWarmup y.order = false := fun y hy => hwarm y (List.mem_cons_of_mem x hy)
      change FineAlong pairs (x.queued pairs db).1 hs at hrest
      simp only [inline, queued]
      rcases x.cases pairs db with ⟨asset,amount,db₁,hrun⟩ | ⟨hqueued,hinline⟩
      · rw [hrun.queued_eq hh] at hrest ⊢
        rw [hrun.inline_eq hh (hwarm x List.mem_cons_self) pg, ih hwarm' hrest]
        simp only [Postgres.persistOrders, Option.toList_some, List.singleton_append, List.foldl_cons, List.foldl_nil]
      · rw [hqueued] at hrest ⊢
        rw [hinline pg, ih hwarm' hrest]
        rfl

end Run

end Happening

/-! ### One job, written in either way -/

/-- A row but for its version. -/
def Order.unversioned (o : Order) : Order := { o with version := 0 }

/-- The same rows in all three tables; a row of `orders` may have another version. -/
structure Postgres.SameButVersion (pg pg' : Postgres) : Prop where
  orders : ∀ id, (pg.orders.get id).map Order.unversioned = (pg'.orders.get id).map Order.unversioned
  trades : pg.trades = pg'.trades
  balances : ∀ k, pg.balances.get k = pg'.balances.get k

/-- A match whose order was not in the book before. -/
structure Matched.OfFreshMatch (m : Matched) : Prop where
  ofMatch : m.OfMatch
  maker_ne : ∀ lt ∈ m.luaTrades, lt.restingOrderId ≠ m.order.id

/-- The rows of `balances` that the job's trades settle on are there. -/
def Postgres.HasRowsFor (pg : Postgres) (m : Matched) : Prop :=
  ∀ k, (∃ t ∈ m.trades, t.Debits k ∨ t.Credits k) → (pg.balances.get k).isSome

lemma Postgres.HasRowsFor.settledAt {pg : Postgres} {m : PersistJob} (h : pg.HasRowsFor m) (hm : m.OfMatch) {k : String × String}
    (hk : pg.balances.get k = none) : m.settledAt k = none := by
  have htouched : m.trades.flatMap (fun t => t.movesAt k) = [] := by
    by_contra hne
    have hthere := h k (flatMap_movesAt_ne_nil.mp hne)
    rw [hk] at hthere
    cases hthere
  rw [hm.settledAt_eq, htouched]
  rfl

lemma unversioned_fillRow (q : Decimal) (r : Order) : (fillRow q r).unversioned = (fillRow q r.unversioned).unversioned := by
  unfold fillRow Order.unversioned
  split_ifs <;> rfl

lemma unversioned_foldl_fillRow (qs : List Decimal) {r r' : Order} (h : r.unversioned = r'.unversioned) :
    (qs.foldl (fun r q => fillRow q r) r).unversioned = (qs.foldl (fun r q => fillRow q r) r').unversioned := by
  induction qs generalizing r r' with
  | nil => exact h
  | cons q qs ih =>
    refine ih ?_
    rw [unversioned_fillRow, h, ← unversioned_fillRow]

lemma unversioned_finishRow (o : Order) {r r' : Order} (h : r.unversioned = r'.unversioned) :
    (finishRow o r).unversioned = (finishRow o r').unversioned :=
  congrArg (fun x : Order => { x with remaining := o.remaining, status := o.status }) h

namespace Postgres.SameButVersion
variable {pg pg' : Postgres}

lemma symm (h : pg.SameButVersion pg') : pg'.SameButVersion pg :=
  ⟨fun id => (h.orders id).symm,h.trades.symm,fun k => (h.balances k).symm⟩

lemma clientOrderIdTaken_eq (h : pg.SameButVersion pg') (o : Order) : pg.clientOrderIdTaken o = pg'.clientOrderIdTaken o := by
  have hrow : ∀ {p p' : Postgres}, p.SameButVersion p' → p.clientOrderIdTaken o = true → p'.clientOrderIdTaken o = true := by
    intro p p' hp htaken
    obtain ⟨hsome,k,r,hr,hu,hc⟩ := clientOrderIdTaken_iff.mp htaken
    have hget := hp.orders k
    rw [hr] at hget
    obtain ⟨r',hr',hsame⟩ := Option.map_eq_some_iff.mp hget.symm
    refine clientOrderIdTaken_iff.mpr ⟨hsome,k,r',hr',?_,?_⟩
    · exact (congrArg Order.userId hsame).trans hu
    · exact (congrArg Order.clientOrderId hsame).trans hc
  exact Bool.eq_iff_iff.mpr ⟨hrow h,hrow h.symm⟩

lemma insertOrder (h : pg.SameButVersion pg') (o : Order) (id : Uuid) :
    ((pg.insertOrder o).orders.get id).map Order.unversioned = ((pg'.insertOrder o).orders.get id).map Order.unversioned := by
  unfold Postgres.insertOrder
  rw [h.clientOrderIdTaken_eq o]
  split_ifs
  · exact h.orders id
  · simp only [Table.get_insertNew]
    by_cases hid : id = o.id
    · rw [if_pos hid, if_pos hid]
      have hrow := h.orders id
      cases hr : pg.orders.get id with
      | none =>
        rw [hr] at hrow
        rw [Option.map_eq_none_iff.mp hrow.symm]
      | some r =>
        rw [hr] at hrow
        obtain ⟨r',hr',hsame⟩ := Option.map_eq_some_iff.mp hrow.symm
        rw [hr']
        exact congrArg some hsame.symm
    · rw [if_neg hid, if_neg hid]
      exact h.orders id

lemma map_unversioned {b b' : Option Order} (h : b.map Order.unversioned = b'.map Order.unversioned) {f g : Order → Order}
    (hfg : ∀ r r', b = some r → r.unversioned = r'.unversioned → (f r).unversioned = (g r').unversioned) :
    (b.map f).map Order.unversioned = (b'.map g).map Order.unversioned := by
  cases b with
  | none =>
    rw [Option.map_eq_none_iff.mp h.symm]
    rfl
  | some r =>
    obtain ⟨r',rfl,hsame⟩ := Option.map_eq_some_iff.mp h.symm
    exact congrArg some (hfg r r' rfl hsame.symm)

/-- One job. The gateway leaves the row of an order that rests as the insert has it, the api writes it again. -/
lemma persist {m : PersistJob} (h : pg.SameButVersion pg') (hm : m.OfFreshMatch) (hfresh : pg.orders.get m.order.id = none)
    (hrows : pg.HasRowsFor m) : ((pg.persistOrder m).toOption.getD pg).SameButVersion (pg'.processPersistJob m).2 := by
  obtain ⟨pg₁,hpersist,ho₁,ht₁,hb₁⟩ := pg.persistOrder_tables hm.ofMatch.parses
  obtain ⟨ho₂,ht₂,hb₂⟩ := Postgres.processPersistJob_eq hm.ofMatch.parses pg'
  rw [hpersist]
  change pg₁.SameButVersion _
  have hown : ∀ r, m.filledRow m.order.id r = r := by
    intro r
    have hnone : fillsOf [m] m.order.id = [] := by
      simpa [fillsOf] using hm.maker_ne
    rw [Matched.filledRow, hnone]
    rfl
  refine ⟨fun id => ?_,?_,fun k => ?_⟩
  · rw [ho₁, ho₂, pg.ordersAfterPersist_rows hm.ofMatch.makers_nodup]
    change _ = ((ordersBatch pg'.orders [m]).get id).map Order.unversioned
    rw [ordersBatch_singleton_get]
    refine map_unversioned (h.insertOrder m.order id) (fun r r' hr hsame => ?_)
    by_cases hid : id = m.order.id
    · subst hid
      rw [if_pos rfl, hown, hown]
      by_cases hopen : m.order.status.IsOpen
      · obtain rfl : r = m.order := Postgres.insertOrder_get_self hfresh hr
        rw [if_neg (fun hclosed => hclosed.2 hopen)]
        exact unversioned_finishRow m.order hsame
      · rw [if_pos ⟨rfl,hopen⟩]
        exact unversioned_finishRow m.order hsame
    · rw [if_neg (fun hself => hid hself.1), if_neg hid]
      exact unversioned_foldl_fillRow _ hsame
  · rw [ht₁, ht₂, ← h.trades]
    rfl
  · rw [hb₁, hb₂, ← h.balances]
    cases hrow : pg.balances.get k with
    | some b => rfl
    | none =>
      rw [hrows.settledAt hm.ofMatch hrow]
      rfl

end Postgres.SameButVersion

/-! ### All jobs -/

lemma Postgres.persistOrder_keeps_fresh {pg : Postgres} {m : PersistJob} (hm : m.OfMatch) {id : Uuid} (hid : m.order.id ≠ id)
    (hfresh : pg.orders.get id = none) : ((pg.persistOrder m).toOption.getD pg).orders.get id = none := by
  obtain ⟨pg₁,hpersist,ho,_,_⟩ := pg.persistOrder_tables hm.parses
  rw [hpersist]
  change pg₁.orders.get _ = none
  rw [ho, Postgres.ordersAfterPersist_get_of_ne pg (Ne.symm hid), hfresh]
  rfl

lemma Postgres.persistOrder_keeps_rows {pg : Postgres} {m m' : PersistJob} (hm : m.OfMatch) (hrows : pg.HasRowsFor m') :
    ((pg.persistOrder m).toOption.getD pg).HasRowsFor m' := by
  obtain ⟨pg₁,hpersist,_,_,hb⟩ := pg.persistOrder_tables hm.parses
  rw [hpersist]
  intro k htouched
  change (pg₁.balances.get k).isSome
  obtain ⟨b,hrow⟩ := Option.isSome_iff_exists.mp (hrows k htouched)
  rw [hb, hrow]
  cases m.settledAt k <;> cases m.order.releasedAt k <;> rfl

/-- Jobs written by `persist_order` as they come, and by the persist worker one at a time. -/
theorem Postgres.SameButVersion.persistOrders {pg pg' : Postgres} {jobs : List PersistJob} (h : pg.SameButVersion pg') (hord : InMatchOrder jobs)
    (hjobs : ∀ m ∈ jobs, m.OfFreshMatch ∧ pg.orders.get m.order.id = none ∧ pg.HasRowsFor m) :
    (pg.persistOrders jobs).SameButVersion (pg'.processJobs jobs) := by
  induction jobs generalizing pg pg' with
  | nil => exact h
  | cons m jobs ih =>
    obtain ⟨hfirst,hrest⟩ := List.pairwise_cons.mp hord
    obtain ⟨hm,hfresh,hrows⟩ := hjobs m List.mem_cons_self
    refine ih (h.persist hm hfresh hrows) hrest (fun m' hm' => ?_)
    obtain ⟨hfresh',hf,hr⟩ := hjobs m' (List.mem_cons_of_mem m hm')
    exact ⟨hfresh',Postgres.persistOrder_keeps_fresh hm.ofMatch (hfirst m' hm').1 hf,Postgres.persistOrder_keeps_rows hm.ofMatch hr⟩

/-! ### The jobs of a run -/

/-- No order in the book has a negative price. -/
def Valkey.PricesNonneg (db : Valkey) : Prop := ∀ id w, db.order id = some w → 0 ≤ w.priceI

namespace Arrival

section Runs
variable {pairs : PairsCache} {e : Exchange} {x : Arrival} {asset : String} {amount : ℤ} {db₁ : Valkey}

lemma Runs.submit_db (h : x.Runs pairs e.db asset amount db₁) :
    (e.submit x.order asset amount).db = x.scriptDb e.db asset amount db₁ := by
  rw [submit_of_lock h.funded]
  rfl

lemma Runs.quantity_pos {db : Valkey} (h : x.Runs pairs db asset amount db₁) : 0 < x.order.quantity := checkOrder_quantity_pos h.checked

lemma Runs.ofMatch {db : Valkey} (h : x.Runs pairs db asset amount db₁) : (x.job db asset amount).OfMatch :=
  ⟨db,x.order,_,asset,amount,h.lock,rfl⟩

lemma Runs.reachable (h : x.Runs pairs e.db asset amount db₁) (he : Reachable (fun _ o => 0 < o.quantity) e)
    (hunseen : ∀ p ∈ e.submitted, p.id ≠ x.orderId) : Reachable (fun _ o => 0 < o.quantity) (e.submit x.order asset amount) := by
  obtain ⟨db,hdb,hsteps⟩ := he
  exact ⟨db,hdb,hsteps.tail (.submit x.order asset amount hunseen h.quantity_pos)⟩

lemma Runs.ofFreshMatch (h : x.Runs pairs e.db asset amount db₁) (hfresh : e.db.order x.orderId = none) :
    (x.job e.db asset amount).OfFreshMatch := by
  refine ⟨h.ofMatch,fun lt hlt hself => ?_⟩
  obtain ⟨t,ht,rfl⟩ := List.mem_map.mp hlt
  obtain ⟨r,q,hv,rfl⟩ := Plan.mem_trades.mp ht
  exact planOn_visit_ne hfresh _ hv hself

lemma priceI_nonneg (hx : ∀ p ∈ x.request.price, 0 ≤ p) : 0 ≤ x.order.priceI := by
  change 0 ≤ (x.request.price.map decimalToI64).getD 0
  cases hp : x.request.price with
  | none => exact le_refl 0
  | some p => exact decimalToI64_nonneg (hx p hp)

lemma Runs.pricesNonneg (h : x.Runs pairs e.db asset amount db₁) (hdb : e.db.PricesNonneg) (hx : ∀ p ∈ x.request.price, 0 ≤ p) :
    (x.scriptDb e.db asset amount db₁).PricesNonneg := by
  intro id w hw
  rcases settle_order_cases h.funded hw with ⟨_,_,rfl⟩ | ⟨v,hv,_,hout⟩ | ⟨_,hold⟩
  · exact priceI_nonneg hx
  · obtain ⟨q,_,_,rfl⟩ := Visit.outcome_fields hout
    exact hdb v.id v.resting.hash (planOn_visit hv).2.1
  · exact hdb id w hold

lemma Runs.job_prices (_h : x.Runs pairs e.db asset amount db₁) (hdb : e.db.PricesNonneg) (hx : ∀ p ∈ x.request.price, 0 ≤ p) :
    (∀ t ∈ (x.job e.db asset amount).trades, 0 ≤ t.price) ∧ ∀ p ∈ (x.job e.db asset amount).order.price, 0 ≤ p := by
  refine ⟨fun t ht => ?_,hx⟩
  obtain ⟨i,hi,rfl⟩ := List.mem_mapIdx.mp ht
  obtain ⟨u,hu,heq⟩ := List.mem_map.mp (List.getElem_mem hi)
  obtain ⟨r,q,hv,rfl⟩ := Plan.mem_trades.mp hu
  have hprice : 0 ≤ ((matchArgs x.order asset amount).trade r.hash r.id q).priceI := by
    simp only [MatchArgs.trade]
    split_ifs
    · exact priceI_nonneg hx
    · exact hdb r.id r.hash (planOn_visit hv).2.1
  change 0 ≤ ((((matchArgs x.order asset amount).planOn e.db).trades (matchArgs x.order asset amount)).map ScriptTrade.toLuaTrade)[i].price
  rw [← heq]
  change 0 ≤ i64ToDecimal _
  rw [← i64ToDecimal_zero, i64ToDecimal_le_iff]
  exact hprice

end Runs

section Run
variable {pairs : PairsCache}

/-- The ids of the requests are new and differ. -/
structure Distinct (e : Exchange) (xs : List Arrival) : Prop where
  ids : (xs.map orderId).Nodup
  unseen : ∀ x ∈ xs, ∀ p ∈ e.submitted, p.id ≠ x.orderId

lemma Distinct.tail {e : Exchange} {x : Arrival} {xs : List Arrival} (h : Distinct e (x :: xs)) : Distinct e xs :=
  ⟨(List.nodup_cons.mp h.ids).2,fun y hy => h.unseen y (List.mem_cons_of_mem x hy)⟩

lemma Distinct.submit {e : Exchange} {x : Arrival} {xs : List Arrival} (h : Distinct e (x :: xs)) (asset : String) (amount : ℤ) :
    Distinct (e.submit x.order asset amount) xs := by
  refine ⟨(List.nodup_cons.mp h.ids).2,fun y hy p hp => ?_⟩
  rcases List.mem_append.mp hp with hold | hnew
  · exact h.unseen y (List.mem_cons_of_mem x hy) p hold
  · rw [List.mem_singleton.mp hnew]
    intro hid
    exact (List.nodup_cons.mp h.ids).1 (List.mem_map.mpr ⟨y,hy,hid.symm⟩)

end Run
end Arrival

namespace Happening
variable {pairs : PairsCache}

/-- The jobs of a run come from matches, in their order, and have the ids of their requests. -/
theorem queuedRun_jobs {e : Exchange} (he : Reachable (fun _ o => 0 < o.quantity) e) {hs : List Happening} {ttl : Uuid → Option ℕ}
    (hd : Arrival.Distinct e (arrivals hs)) (hdb : e.db.PricesNonneg) (hp : ∀ x ∈ arrivals hs, ∀ p ∈ x.request.price, 0 ≤ p)
    (hfine : FineAlong pairs (e.db.withTtl ttl) hs) :
    Produces pairs e (queuedRun pairs (e.db.withTtl ttl) hs).2 ∧ PricesNonneg (queuedRun pairs (e.db.withTtl ttl) hs).2 ∧
      ∀ m ∈ (queuedRun pairs (e.db.withTtl ttl) hs).2, m.OfFreshMatch ∧ ∃ x ∈ arrivals hs, m.order.id = x.orderId := by
  induction hs generalizing e ttl with
  | nil => exact ⟨.nil e,fun m hm => absurd hm (by simp [queuedRun]),fun m hm => absurd hm (by simp [queuedRun])⟩
  | cons h hs ih =>
    obtain ⟨hh,hrest⟩ := hfine
    simp only [queuedRun]
    cases h with
    | wait ms =>
      obtain ⟨ttl',hpass⟩ := Valkey.exists_pass_eq hh
      change FineAlong pairs ((e.db.withTtl ttl).pass ms) hs at hrest
      have hstore : (e.db.withTtl ttl).pass ms = e.db.withTtl ttl' := hpass
      rw [hstore] at hrest
      simp only [queued, hstore, Option.toList_none, List.nil_append]
      exact ih he hd hdb hp hrest
    | request x =>
      rw [arrivals_request] at hd hp
      have hp' : ∀ y ∈ arrivals hs, ∀ p ∈ y.request.price, 0 ≤ p := fun y hy => hp y (List.mem_cons_of_mem x hy)
      have hstore : ((Happening.request x).queued pairs (e.db.withTtl ttl)) = x.queued pairs (e.db.withTtl ttl) := rfl
      rw [hstore] at hrest ⊢
      rcases x.cases pairs (e.db.withTtl ttl) with ⟨asset,amount,db₁,hrun⟩ | ⟨hqueued,_⟩
      · obtain ⟨db₂,ttl',hrun₂,hscript⟩ := hrun.of_withTtl
        have hfresh : ∀ p ∈ e.submitted, p.id ≠ x.order.id := hd.unseen x List.mem_cons_self
        have hnone := (he.invariant (fun _ o ho => decimalToI64_nonneg (le_of_lt ho))).2.order_fresh hfresh
        have he' := hrun₂.reachable he hfresh
        have hdb' : (e.submit x.order asset amount).db.PricesNonneg := by
          rw [hrun₂.submit_db]
          exact hrun₂.pricesNonneg hdb (hp x List.mem_cons_self)
        have hqueued : x.queued pairs (e.db.withTtl ttl) =
            ((e.submit x.order asset amount).db.withTtl ttl',some (x.job e.db asset amount)) := by
          rw [hrun.queued_eq hh, hscript, hrun₂.submit_db]
          rfl
        rw [hqueued] at hrest ⊢
        obtain ⟨hprod,hprices,hjobs⟩ := ih he' (hd.submit asset amount) hdb' hp' hrest
        obtain ⟨msg,hmsg⟩ := Arrival.exists_msg hrun₂.checked
        have hreads : x.order.ReadsBack e.db asset amount := by
          have h := (hh asset amount db₁ hrun).1
          rw [Order.ReadsBack, matchOrderScript_eq, hrun.funded] at h
          rw [Order.ReadsBack, matchOrderScript_eq, hrun₂.funded]
          exact h
        have hjob : (Api.queuedOrderDecoded pairs e.db msg x.draws).1 = some (x.job e.db asset amount) := by
          have hparse := (hrun₂.api hmsg).parsed
          simp only [Api.queuedOrderDecoded, hparse, hrun₂.valid, hrun₂.lock, if_neg hrun₂.tif,
            Order.decodedOn_of_readsBack hrun₂.funded hreads]
          rfl
        simp only [Option.toList_some, List.singleton_append]
        refine ⟨.matched (hrun₂.api hmsg).parsed hrun₂.lock hfresh hrun₂.quantity_pos hjob hprod,?_,?_⟩
        · exact List.forall_mem_cons.mpr ⟨hrun₂.job_prices hdb (hp x List.mem_cons_self),hprices⟩
        · refine List.forall_mem_cons.mpr ⟨⟨hrun₂.ofFreshMatch hnone,x,List.mem_cons_self,rfl⟩,fun m hm => ?_⟩
          obtain ⟨hm,y,hy,hid⟩ := hjobs m hm
          exact ⟨hm,y,List.mem_cons_of_mem x hy,hid⟩
      · rw [hqueued] at hrest ⊢
        obtain ⟨hprod,hprices,hjobs⟩ := ih he hd.tail hdb hp' hrest
        refine ⟨hprod,hprices,fun m hm => ?_⟩
        obtain ⟨hm,y,hy,hid⟩ := hjobs m hm
        exact ⟨hm,y,List.mem_cons_of_mem x hy,hid⟩

lemma exists_before (db : Valkey) {hs : List Happening} {jobs : List PersistJob} (h : jobs <+: (queuedRun pairs db hs).2) :
    ∃ before, before <+: hs ∧ (queuedRun pairs db before).2 = jobs := by
  induction hs generalizing db jobs with
  | nil => exact ⟨[], List.nil_prefix,(List.prefix_nil.mp h).symm⟩
  | cons x hs ih =>
    have hcons : ∀ jobs', jobs' <+: (queuedRun pairs (x.queued pairs db).1 hs).2 →
        ∃ before, before <+: x :: hs ∧ (queuedRun pairs db before).2 = (x.queued pairs db).2.toList ++ jobs' := by
      intro jobs' hjobs'
      obtain ⟨before,hbefore,heq⟩ := ih _ hjobs'
      refine ⟨x :: before, List.cons_prefix_cons.mpr ⟨rfl,hbefore⟩,?_⟩
      rw [← heq]
      rfl
    simp only [queuedRun] at h
    cases hjob : (x.queued pairs db).2 with
    | none =>
      rw [hjob] at h hcons
      exact hcons jobs h
    | some m =>
      rw [hjob] at h hcons
      cases jobs with
      | nil => exact ⟨[], List.nil_prefix,rfl⟩
      | cons m' jobs =>
        obtain ⟨rfl,hrest⟩ := List.cons_prefix_cons.mp h
        exact hcons jobs hrest

end Happening

/-! ### Batches -/

/-- No order of the batch is filled by a later job of it. -/
def Apart (batch : List PersistJob) : Prop := batch.Pairwise (fun a b => ∀ lt ∈ b.luaTrades, lt.restingOrderId ≠ a.order.id)

instance (batch : List PersistJob) : Decidable (Apart batch) :=
  inferInstanceAs (Decidable (batch.Pairwise (fun a b => ∀ lt ∈ b.luaTrades, lt.restingOrderId ≠ a.order.id)))

lemma Postgres.hidesNothing_of_apart {pg : Postgres} {bs : List (List PersistJob)} (hapart : ∀ b ∈ bs, Apart b)
    (hm : MatchedInOrder bs.flatten) (hp : PricesNonneg bs.flatten)
    (hjobs : ∀ b ∈ bs, ∀ m ∈ b, m.OfMatch ∧ m.FitsColumns ∧ pg.HasRowsFor m) : pg.HidesNothing bs := by
  induction bs generalizing pg with
  | nil => trivial
  | cons b bs ih =>
    have hb := hjobs b List.mem_cons_self
    rw [List.flatten_cons] at hm hp
    have hfirst : MatchedInOrder b := hm.sublist (List.sublist_append_left _ _)
    have hprices : PricesNonneg b := fun m hmb => hp m (List.mem_append_left _ hmb)
    refine ⟨fun m hmb => (hb m hmb).2.1,(hapart b List.mem_cons_self).imp (fun hne => Or.inl hne),?_,?_⟩
    · refine (hfirst.rowsAgree_iff hprices _).mpr (fun k hk pre ev post hevents _ hsettled => ?_)
      have hmem : ev ∈ b.map (fun m => m.eventAt k) := by
        rw [hevents]
        simp
      obtain ⟨m,hmb,rfl⟩ := List.mem_map.mp hmem
      exact absurd ((hb m hmb).2.2.settledAt (hb m hmb).1 hk) hsettled
    · refine ih (fun b' hb' => hapart b' (List.mem_cons_of_mem b hb')) (hm.sublist (List.sublist_append_right _ _))
        (fun m hmb => hp m (List.mem_append_right _ hmb)) (fun b' hb' m hmb => ?_)
      obtain ⟨hmatch,hfit,hrows⟩ := hjobs b' (List.mem_cons_of_mem b hb') m hmb
      refine ⟨hmatch,hfit,fun k htouched => ?_⟩
      obtain ⟨_,_,hbalances⟩ := Postgres.processBatch_eq (fun m hmb => (hb m hmb).1.parses) pg
      rw [hbalances, rowBatch_isSome, hrows k htouched]
      rfl

/-- When no job finds the channel full, every batch is committed and its jobs are apart, the tables are those
of the jobs one by one. -/
lemma PersistWorker.alike_of_apart {pg : Postgres} {w : PersistWorker} (hw : w.Reachable pg) (hspawned : w.spawned = [])
    (hbatches : ∀ b ∈ w.batches, b.2 = true ∧ Apart b.1) (hm : MatchedInOrder w.written) (hp : PricesNonneg w.written)
    (hjobs : ∀ m ∈ w.written, m.OfMatch ∧ m.FitsColumns ∧ pg.HasRowsFor m) :
    w.pg.Alike (pg.processJobs w.written) := by
  have hall : ∀ b ∈ w.batches, b.2 = true := fun b hb => (hbatches b hb).1
  have hflatten := PersistWorker.committed_flatten_of_all hall
  rw [← hflatten] at hm hp ⊢
  have hhidden : pg.HidesNothing w.committed := by
    refine Postgres.hidesNothing_of_apart ?_ hm hp ?_
    · intro b hb
      rw [PersistWorker.committed_of_all hall] at hb
      obtain ⟨c,hc,rfl⟩ := List.mem_map.mp hb
      exact (hbatches c hc).2
    · intro b hb m hmb
      exact hjobs m (hflatten ▸ List.mem_flatten.mpr ⟨b,hb,hmb⟩)
  exact Postgres.Alike.batches ⟨rfl,rfl,fun _ => rfl⟩ hm hhidden (hw.inv.tables hspawned)

lemma Postgres.SameButVersion.trans_alike {pg pg' pg'' : Postgres} (h : pg.SameButVersion pg') (h' : pg''.Alike pg') : pg.SameButVersion pg'' := by
  refine ⟨fun id => ?_,?_,fun k => ?_⟩
  · rw [h'.orders]
    exact h.orders id
  · rw [h'.trades]
    exact h.trades
  · rw [h'.balances]
    exact h.balances k

/-- What the two modes take alike: requests with new ids, without negative prices, not warm-up traffic, with
texts that fit their columns and of users who have rows for what they trade; all numbers have at most fourteen
digits, and no hash comes to the end of its hour while time passes. -/
structure Happening.Admitted (pairs : PairsCache) (s : System) (e : Exchange) (hs : List Happening) : Prop where
  distinct : Arrival.Distinct e (Happening.arrivals hs)
  fresh : ∀ x ∈ Happening.arrivals hs, s.pg.orders.get x.orderId = none
  prices : ∀ x ∈ Happening.arrivals hs, ∀ p ∈ x.request.price, 0 ≤ p
  warmup : ∀ x ∈ Happening.arrivals hs, isWarmup x.order = false
  fits : ∀ m ∈ (Happening.queuedRun pairs s.db hs).2, m.FitsColumns
  rows : ∀ m ∈ (Happening.queuedRun pairs s.db hs).2, s.pg.HasRowsFor m
  fine : Happening.FineAlong pairs s.db hs

section Follows
variable {pairs : PairsCache} {e : Exchange} {ttl : Uuid → Option ℕ} {pg : Postgres} {hs : List Happening} {w : PersistWorker}

lemma PersistWorker.written_of_sent {jobs : List PersistJob} (hw : w.Reachable pg) (hsent : w.sent <+: jobs) : w.written <+: jobs :=
  hw.inv.isPrefix_written.trans hsent

lemma Happening.Admitted.follows (he : Reachable (fun _ o => 0 < o.quantity) e) (hdb : e.db.PricesNonneg)
    (hx : Happening.Admitted pairs ⟨e.db.withTtl ttl,pg⟩ e hs) (hw : w.Reachable pg) (hspawned : w.spawned = [])
    (hsent : w.sent <+: (Happening.queuedRun pairs (e.db.withTtl ttl) hs).2) (hbatches : ∀ b ∈ w.batches, b.2 = true ∧ Apart b.1)
    {before : List Happening} (hbefore : before <+: hs) (heq : (Happening.queuedRun pairs (e.db.withTtl ttl) before).2 = w.written) :
    (Happening.inlineRun pairs ⟨e.db.withTtl ttl,pg⟩ before).pg.SameButVersion w.pg := by
  obtain ⟨hprod,hprices,hjobs⟩ := Happening.queuedRun_jobs he hx.distinct hdb hx.prices hx.fine
  have hwritten := PersistWorker.written_of_sent hw hsent
  have hmatched : MatchedInOrder w.written := (hprod.matchedInOrder he.sourced).sublist hwritten.sublist
  have hjob : ∀ m ∈ w.written, m.OfFreshMatch ∧ pg.orders.get m.order.id = none ∧ pg.HasRowsFor m := by
    intro m hm
    obtain ⟨hfresh,x,hxs,hid⟩ := hjobs m (hwritten.subset hm)
    exact ⟨hfresh,hid ▸ hx.fresh x hxs,hx.rows m (hwritten.subset hm)⟩
  have hfits : ∀ m ∈ w.written, m.FitsColumns := fun m hm => hx.fits m (hwritten.subset hm)
  -- inline, the jobs are written as they come; in the worker, batches are as good as single jobs
  have hinline : (pg.persistOrders w.written).SameButVersion (pg.processJobs w.written) :=
    Postgres.SameButVersion.persistOrders ⟨fun _ => rfl,rfl,fun _ => rfl⟩ hmatched.order hjob
  have hqueue : w.pg.Alike (pg.processJobs w.written) :=
    PersistWorker.alike_of_apart hw hspawned hbatches hmatched (fun m hm => hprices m (hwritten.subset hm))
      (fun m hm => ⟨(hjob m hm).1.ofMatch,hfits m hm,(hjob m hm).2.2⟩)
  have hwarm : ∀ x ∈ Happening.arrivals before, isWarmup x.order = false := fun x hx' =>
    hx.warmup x ((hbefore.sublist.filterMap _).subset hx')
  rw [Happening.inlineRun_eq hwarm (hx.fine.mono hbefore), heq]
  exact hinline.trans_alike hqueue

end Follows

/-- Queue dispatch follows inline dispatch, from any reachable exchange whose resting orders have no negative
prices, whatever time their hashes have left. When the jobs go through the channel in the order of their
matches, and none finds it full, both leave the same store; and at any moment the persist worker, whatever
its batches are as long as it commits them and none has an order with a fill of it, has the tables that
inline dispatch had after the first so many happenings. -/
theorem queue_follows_inline {pairs : PairsCache} {e : Exchange} {ttl : Uuid → Option ℕ} {pg : Postgres} {hs : List Happening}
    {w : PersistWorker} (he : Reachable (fun _ o => 0 < o.quantity) e) (hdb : e.db.PricesNonneg)
    (hx : Happening.Admitted pairs ⟨e.db.withTtl ttl,pg⟩ e hs) (hw : w.Reachable pg) (hspawned : w.spawned = [])
    (hsent : w.sent <+: (Happening.queuedRun pairs (e.db.withTtl ttl) hs).2) (hbatches : ∀ b ∈ w.batches, b.2 = true ∧ Apart b.1) :
    (Happening.inlineRun pairs ⟨e.db.withTtl ttl,pg⟩ hs).db = (Happening.queuedRun pairs (e.db.withTtl ttl) hs).1 ∧
    (∃ before, before <+: hs ∧ (Happening.queuedRun pairs (e.db.withTtl ttl) before).2 = w.written) ∧
    ∀ before, before <+: hs → (Happening.queuedRun pairs (e.db.withTtl ttl) before).2 = w.written →
      (Happening.inlineRun pairs ⟨e.db.withTtl ttl,pg⟩ before).pg.SameButVersion w.pg := by
  refine ⟨?_,Happening.exists_before _ (PersistWorker.written_of_sent hw hsent),fun before hbefore heq => ?_⟩
  · rw [Happening.inlineRun_eq hx.warmup hx.fine]
  · exact hx.follows he hdb hw hspawned hsent hbatches hbefore heq

/-- Alice's offer, and half an hour later Bob's purchase of it. -/
def offerAndPurchase : List Happening :=
  [.request ⟨⟨some "alice","BTC-USDT",.sell,.limit,none,some 100,1,none,none⟩,1,0,⟨0,fun _ => 10,0⟩⟩,.wait 1800000,
    .request ⟨⟨some "bob","BTC-USDT",.buy,.limit,none,some 100,1,none,none⟩,2,0,⟨0,fun _ => 20,0⟩⟩]

/-- Both have a row for both assets. -/
def aliceAndBob : Postgres :=
  { Postgres.empty with balances := ⟨[(("alice","BTC"),⟨10000,0⟩),(("alice","USDT"),⟨10000,0⟩),(("bob","BTC"),⟨10000,0⟩),
      (("bob","USDT"),⟨10000,0⟩)],by decide⟩ }

lemma PersistWorker.reachable_first {pg pg₁ : Postgres} {a : PersistJob} (ha : Columns.processPersistBatch pg [a] = .ok pg₁)
    (b : PersistJob) : PersistWorker.Reachable pg ⟨pg₁,[b],[],false,[],[a,b],[],[([a],true)]⟩ := by
  have hfirst : PersistWorker.Reachable pg ⟨pg,[],[a],true,[],[a],[],[]⟩ :=
    ((Relation.ReflTransGen.refl.tail (.send a (by simp [start, capacity]))).tail (.recv rfl rfl)).tail (.close (by simp) (.inr rfl))
  exact (hfirst.tail (.commit rfl ha)).tail (.send b (by simp [capacity]))

lemma PersistWorker.reachable_each {pg pg₁ pg₂ : Postgres} {a b : PersistJob} (ha : Columns.processPersistBatch pg [a] = .ok pg₁)
    (hb : Columns.processPersistBatch pg₁ [b] = .ok pg₂) :
    PersistWorker.Reachable pg ⟨pg₂,[],[],false,[],[a,b],[],[([a],true),([b],true)]⟩ := by
  have hsecond : PersistWorker.Reachable pg ⟨pg₁,[],[b],true,[],[a,b],[],[([a],true)]⟩ :=
    ((reachable_first ha b).tail (.recv rfl rfl)).tail (.close (by simp) (.inr rfl))
  exact hsecond.tail (.commit rfl hb)

lemma Arrival.readsBack_of {pairs : PairsCache} {db : Valkey} {x : Arrival}
    (h : ∀ p ∈ (lockParams x.order).toOption, x.order.ReadsBack db p.1 p.2 ∧ x.order.PrintsInFull db p.1 p.2) :
    x.ReadsBack pairs db := by
  intro asset amount db₁ hrun
  exact h (asset,amount) (by rw [hrun.lock]; rfl)

lemma Arrival.Runs.ttl {pairs : PairsCache} {db db₁ : Valkey} {x : Arrival} {asset : String} {amount : ℤ}
    (h : x.Runs pairs db asset amount db₁) (hvisits : ((matchArgs x.order asset amount).planOn db).visits = []) (id : Uuid) :
    (x.scriptDb db asset amount db₁).ttl id =
      if ((matchArgs x.order asset amount).planOn db).Rests (matchArgs x.order asset amount) ∧ id = x.orderId then some restingTtl
      else db.ttl id := by
  have hscript := settle_ttl (matchArgs x.order asset amount) db₁ ((matchArgs x.order asset amount).planOn db) id
  rw [hvisits, applyVisits_nil, (lockBalance_frame h.funded).2.2.1] at hscript
  exact hscript

lemma offerAndPurchase_fine : Happening.FineAlong btcUsdt (Session.funded (10 ^ 12)).sys.db offerAndPurchase := by
  let x : Arrival := ⟨⟨some "alice","BTC-USDT",.sell,.limit,none,some 100,1,none,none⟩,1,0,⟨0,fun _ => 10,0⟩⟩
  have hreads : x.ReadsBack btcUsdt (Session.funded (10 ^ 12)).sys.db := Arrival.readsBack_of (by decide +kernel)
  refine ⟨hreads,?_,Arrival.readsBack_of (by decide +kernel),trivial⟩
  obtain ⟨db₁,hfunded⟩ : ∃ db₁, lockBalance (Session.funded (10 ^ 12)).sys.db (matchArgs x.order "BTC" 100000000) = some db₁ :=
    lockBalance_isSome (by decide +kernel)
  have hrun : x.Runs btcUsdt (Session.funded (10 ^ 12)).sys.db "BTC" 100000000 db₁ :=
    ⟨by decide +kernel,by decide +kernel,by decide +kernel,by decide +kernel,hfunded⟩
  have hnone : ∀ id, (Session.funded (10 ^ 12)).sys.db.ttl id = none := fun _ => rfl
  intro id t ht
  change t ∈ (x.queued btcUsdt (Session.funded (10 ^ 12)).sys.db).1.ttl id at ht
  rw [hrun.queued_eq hreads, hrun.ttl (by decide +kernel), hnone] at ht
  split_ifs at ht
  · obtain rfl : restingTtl = t := Option.some.inj ht
    simp [restingTtl]
  · cases ht

lemma offerAndPurchase_admitted :
    Happening.Admitted btcUsdt ⟨(Session.funded (10 ^ 12)).sys.db,aliceAndBob⟩ ⟨(Session.funded (10 ^ 12)).sys.db,[],[]⟩ offerAndPurchase := by
  have htrades : (Happening.queuedRun btcUsdt (Session.funded (10 ^ 12)).sys.db offerAndPurchase).2.flatMap Matched.trades =
      [⟨20,"BTC-USDT",2,1,"bob","alice",100,1⟩] := by decide +kernel
  refine ⟨⟨by decide,by simp⟩,by decide +kernel,by decide +kernel,by decide +kernel,by decide +kernel,?_,offerAndPurchase_fine⟩
  intro m hm k htouched
  obtain ⟨t,ht,htouched⟩ := htouched
  have hmem : t ∈ (Happening.queuedRun btcUsdt (Session.funded (10 ^ 12)).sys.db offerAndPurchase).2.flatMap Matched.trades :=
    List.mem_flatMap.mpr ⟨m,hm,ht⟩
  rw [htrades, List.mem_singleton] at hmem
  subst hmem
  have hpair : parsePairId "BTC-USDT" = .ok ("BTC","USDT") := by decide +kernel
  simp only [Trade.Debits, Trade.Credits, hpair, Except.ok.injEq, Prod.mk.injEq] at htouched
  obtain ⟨_,_,⟨rfl,rfl⟩,rfl | rfl⟩ | ⟨_,_,⟨rfl,rfl⟩,rfl | rfl⟩ := htouched <;> decide +kernel

/-- The jobs of the offer and of the purchase, and the tables behind each of them. -/
lemma offerAndPurchase_commits : ∃ a b pg₁ pg₂, (Happening.queuedRun btcUsdt (Session.funded (10 ^ 12)).sys.db offerAndPurchase).2 = [a,b] ∧
    Columns.processPersistBatch aliceAndBob [a] = .ok pg₁ ∧ Columns.processPersistBatch pg₁ [b] = .ok pg₂ := by
  have hlength : (Happening.queuedRun btcUsdt (Session.funded (10 ^ 12)).sys.db offerAndPurchase).2.length = 2 := by decide +kernel
  obtain ⟨a,b,hjobs⟩ := List.length_eq_two.mp hlength
  have hcommits : ((Columns.processPersistBatch aliceAndBob
      ((Happening.queuedRun btcUsdt (Session.funded (10 ^ 12)).sys.db offerAndPurchase).2.take 1)).bind (fun pg =>
        Columns.processPersistBatch pg
          ((Happening.queuedRun btcUsdt (Session.funded (10 ^ 12)).sys.db offerAndPurchase).2.drop 1))).isOk = true := by decide +kernel
  rw [hjobs] at hcommits
  cases h : (Columns.processPersistBatch aliceAndBob [a]).bind (fun pg => Columns.processPersistBatch pg [b]) with
  | error m =>
    change ((Columns.processPersistBatch aliceAndBob [a]).bind (fun pg => Columns.processPersistBatch pg [b])).isOk = true at hcommits
    rw [h] at hcommits
    cases hcommits
  | ok pg₂ =>
    obtain ⟨pg₁,ha,hb⟩ := exists_of_bind_ok h
    exact ⟨a,b,pg₁,pg₂,hjobs,ha,hb⟩

theorem queue_follows_inline_of_purchase :
    let db := (Session.funded (10 ^ 12)).sys.db
    ∃ w : PersistWorker, w.Reachable aliceAndBob ∧ w.sent.length = 2 ∧ (Happening.queuedRun btcUsdt db offerAndPurchase).2 = w.written ∧
      (Happening.inlineRun btcUsdt ⟨db,aliceAndBob⟩ offerAndPurchase).pg.SameButVersion w.pg := by
  intro db
  have he : Reachable (fun _ o => 0 < o.quantity) ⟨db,[],[]⟩ := ⟨_,⟨fun _ _ => rfl,fun _ => rfl⟩,.refl⟩
  have hdb : db.PricesNonneg := fun id w hw => by cases hw
  obtain ⟨a,b,pg₁,pg₂,hjobs,ha,hb⟩ := offerAndPurchase_commits
  have hw := PersistWorker.reachable_each ha hb
  refine ⟨_,hw,rfl,hjobs,?_⟩
  refine (queue_follows_inline (e := ⟨db,[],[]⟩) he hdb offerAndPurchase_admitted hw rfl ?_ ?_).2.2 offerAndPurchase
    (List.prefix_refl _) hjobs
  · exact hjobs ▸ List.prefix_refl _
  · intro c hc
    simp only [List.mem_cons, List.not_mem_nil, or_false] at hc
    rcases hc with rfl | rfl <;> exact ⟨rfl,List.pairwise_singleton _ _⟩

end MatchingEngine

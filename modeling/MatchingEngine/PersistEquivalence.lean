import MatchingEngine.Columns
import MatchingEngine.Commits
import MatchingEngine.TimedRequests

/-! Batched persistence against persistence job by job, for the jobs of a sequence of matches.
The batch writes every taker's row after all maker updates, so a fill of an order that the
batch itself persists is lost. -/
namespace MatchingEngine
open Library

/-- `process_persist_job` on each job in turn; an error stops only its own job. -/
def Postgres.processJobs (pg : Postgres) (jobs : List PersistJob) : Postgres :=
  jobs.foldl (fun pg job => (pg.processPersistJob job).2) pg

/-- `process_persist_batch`, whose transaction is rolled back on an error. -/
def Postgres.processBatch (pg : Postgres) (jobs : List PersistJob) : Postgres :=
  (pg.processPersistBatch jobs).toOption.getD pg

lemma Postgres.release_eq (pg : Postgres) {o : Order} {p : String × Decimal} (hp : releaseParams o = .ok p) :
    ∃ pg', pg.release o = .ok pg' ∧ pg'.orders = pg.orders ∧ pg'.trades = pg.trades ∧
      ∀ k, pg'.balances.get k = releaseOpt (o.releasedAt k) (pg.balances.get k) := by
  unfold release Order.releasedAt
  by_cases hn : o.NeedsRelease
  · rw [if_pos hn, hp]
    refine ⟨_,rfl,rfl,rfl,fun k => ?_⟩
    simp only [if_pos hn, Table.get_modify, Except.toOption, Option.bind_some]
    by_cases hk : k = (o.userId,p.1)
    · rw [if_pos hk, if_pos hk.symm]
      rfl
    · rw [if_neg hk, if_neg (Ne.symm hk)]
      rfl
  · rw [if_neg hn]
    refine ⟨pg,rfl,rfl,rfl,fun k => ?_⟩
    rw [if_neg hn]
    rfl

lemma Postgres.upsertDeltas_get (pg : Postgres) (d : Deltas) (k : String × String) :
    (pg.upsertDeltas d).balances.get k = settleOpt (d.get k) (pg.balances.get k) :=
  pg.balances.get_foldl_upsert d.nodup (fun x => ⟨x.2,0⟩) settleRow k

/-- One job, table by table. -/
theorem Postgres.processPersistJob_eq {job : PersistJob} (h : job.Parses) (pg : Postgres) :
    let pg' := (pg.processPersistJob job).2
    pg'.orders = finishTaker (fillMakers (insertRow pg.orders job.order) job) job ∧
    pg'.trades = job.trades.foldl (fun t trade => t.insertNew trade.id trade) pg.trades ∧
    ∀ k, pg'.balances.get k = releaseOpt (job.order.releasedAt k) (settleOpt (job.settledAt k) (pg.balances.get k)) := by
  obtain ⟨⟨d,hd⟩,p,hp⟩ := h
  have hset : ∀ k, job.settledAt k = d.get k := fun k => by rw [Matched.settledAt, hd]; rfl
  have hpersist : (pg.insertOrder job.order).persistTrades job.trades =
      .ok (((pg.insertOrder job.order).insertTrades job.trades).upsertDeltas d) := by
    unfold persistTrades
    rw [hd]
    rfl
  set settled := ((pg.insertOrder job.order).insertTrades job.trades).upsertDeltas d with hsettled
  obtain ⟨pg',hrel,ho,ht,hb⟩ := release_eq ((settled.updateRestingOrdersAfterLua job.luaTrades).updateOrder
    job.order.id (finishRow job.order)) hp
  have hrun : (pg.processPersistJob job).2 = pg' := by
    unfold processPersistJob
    simp only [hpersist, hrel]
  simp only [hrun]
  rw [updateRestingOrdersAfterLua_eq] at ho ht hb
  refine ⟨?_,?_,fun k => ?_⟩
  · rw [ho, ← insertOrder_orders]
    rfl
  · rw [ht]
    change ((pg.insertOrder job.order).insertTrades job.trades).trades = _
    rw [insertTrades, insertOrder_trades]
  · rw [hb k, hset]
    change releaseOpt _ (settled.balances.get k) = _
    rw [hsettled, upsertDeltas_get, insertTrades, insertOrder_balances]

/-- All jobs one after the other, table by table. -/
theorem Postgres.processJobs_eq {jobs : List PersistJob} (h : ∀ job ∈ jobs, job.Parses) (pg : Postgres) :
    (pg.processJobs jobs).orders = ordersSequential pg.orders jobs ∧
    (pg.processJobs jobs).trades =
      (jobs.flatMap Matched.trades).foldl (fun t trade => t.insertNew trade.id trade) pg.trades ∧
    ∀ k, (pg.processJobs jobs).balances.get k =
      rowSequential (pg.balances.get k) (jobs.map (fun job => job.eventAt k)) := by
  unfold processJobs ordersSequential rowSequential
  induction jobs generalizing pg with
  | nil => exact ⟨rfl,rfl,fun k => rfl⟩
  | cons job jobs ih =>
    obtain ⟨ho,ht,hb⟩ := processPersistJob_eq (h job (by simp)) pg
    obtain ⟨iho,iht,ihb⟩ := ih (fun x hx => h x (by simp [hx])) (pg.processPersistJob job).2
    simp only [List.foldl_cons, List.flatMap_cons, List.foldl_append, List.map_cons]
    refine ⟨by rw [iho, ho],by rw [iht, ht],fun k => ?_⟩
    rw [ihb k, hb k]
    rfl

lemma Postgres.insertOrder_eq (pg : Postgres) (o : Order) :
    pg.insertOrder o = { pg with orders := insertRow pg.orders o } := by
  apply Postgres.ext
  · exact insertOrder_orders pg o
  · exact insertOrder_trades pg o
  · exact insertOrder_balances pg o

lemma Postgres.foldl_orders {f : Postgres → PersistJob → Postgres} {g : Table Uuid Order → PersistJob → Table Uuid Order}
    (hfg : ∀ pg job, f pg job = { pg with orders := g pg.orders job }) (jobs : List PersistJob) (pg : Postgres) :
    jobs.foldl f pg = { pg with orders := jobs.foldl g pg.orders } := by
  induction jobs generalizing pg with
  | nil => rfl
  | cons job jobs ih => rw [List.foldl_cons, List.foldl_cons, ih, hfg]

lemma Postgres.foldlM_release {jobs : List PersistJob} (h : ∀ job ∈ jobs, job.Parses) (pg : Postgres) :
    ∃ pg', jobs.foldlM (fun pg job => pg.release job.order) pg = .ok pg' ∧ pg'.orders = pg.orders ∧
      pg'.trades = pg.trades ∧
      ∀ k, pg'.balances.get k = releases (pg.balances.get k) (jobs.map (fun job => job.eventAt k)) := by
  induction jobs generalizing pg with
  | nil => exact ⟨pg,rfl,rfl,rfl,fun k => rfl⟩
  | cons job jobs ih =>
    obtain ⟨_,p,hp⟩ := h job (by simp)
    obtain ⟨pg₁,hrel,ho,ht,hb⟩ := release_eq pg hp
    obtain ⟨pg₂,hrest,iho,iht,ihb⟩ := ih (fun x hx => h x (by simp [hx])) pg₁
    refine ⟨pg₂,?_,iho.trans ho,iht.trans ht,fun k => ?_⟩
    · rw [List.foldlM_cons, hrel]
      exact hrest
    · rw [ihb k, hb k]
      rfl

lemma Postgres.processPersistBatch_eq (pg : Postgres) {jobs : List PersistJob} {d : Deltas}
    (hd : balanceDeltas (jobs.flatMap Matched.trades) = .ok d) :
    pg.processPersistBatch jobs = jobs.foldlM (fun pg job => pg.release job.order)
      { ((pg.insertTrades (jobs.flatMap Matched.trades)).upsertDeltas d) with orders := ordersBatch pg.orders jobs } := by
  have hins := foldl_orders (f := fun pg job => pg.insertOrder job.order) (g := fun t job => insertRow t job.order)
    (fun pg job => insertOrder_eq pg job.order) jobs pg
  have hfill := foldl_orders updateRestingOrdersAfterLua_eq jobs
  have hfinish := foldl_orders (f := fun pg job => pg.updateOrder job.order.id (finishRow job.order))
    (g := finishTaker) (fun _ _ => rfl) jobs
  unfold processPersistBatch
  simp only [hins, hd, bind, Except.bind, hfill, hfinish, ordersBatch, List.foldl_map]
  rfl

lemma Postgres.processPersistBatch_orders {pg pg' : Postgres} {jobs : List PersistJob}
    (h : pg.processPersistBatch jobs = .ok pg') : pg'.orders = ordersBatch pg.orders jobs := by
  cases hd : balanceDeltas (jobs.flatMap Matched.trades) with
  | error e =>
    simp only [processPersistBatch, hd] at h
    cases h
  | ok d =>
    rw [processPersistBatch_eq pg hd] at h
    refine foldlM_invariant (P := fun x => x.orders = ordersBatch pg.orders jobs) ?_ h rfl
    intro job _ x x' hx ho
    rw [(release_ok hx).1, ho]

lemma Postgres.persistOrder_tables (pg : Postgres) (h : m.Parses) :
    ∃ pg', pg.persistOrder m = .ok pg' ∧ pg'.orders = pg.ordersAfterPersist m ∧
      pg'.trades = (pg.insertTrades m.trades).trades ∧
      ∀ k, pg'.balances.get k =
        releaseOpt (m.order.releasedAt k) ((pg.balances.get k).bind (fun b => settleOpt (m.settledAt k) (some b))) := by
  obtain ⟨⟨d,hd⟩,p,hp⟩ := h
  obtain ⟨pg',hrel,ho,ht,hget⟩ := Postgres.release_eq
    ⟨pg.ordersAfterPersist m,(pg.insertTrades m.trades).trades,pg.balances.updateFrom d.rows settleRow⟩ hp
  refine ⟨pg',(Postgres.persistOrder_eq pg hd).trans hrel,ho,ht,fun k => ?_⟩
  rw [hget k, Matched.settledAt, hd, Table.get_updateFrom]
  cases pg.balances.get k with
  | none => rfl
  | some b =>
    change releaseOpt _ (some ((d.get k).elim b (fun x => settleRow x b))) = releaseOpt _ (settleOpt (d.get k) (some b))
    cases d.get k <;> rfl

lemma Postgres.processPersistBatch_tables (pg : Postgres) {jobs : List PersistJob} (h : ∀ job ∈ jobs, job.Parses) :
    ∃ pg', pg.processPersistBatch jobs = .ok pg' ∧ pg'.orders = ordersBatch pg.orders jobs ∧
      pg'.trades = (pg.insertTrades (jobs.flatMap Matched.trades)).trades ∧
      ∀ k, pg'.balances.get k = rowBatch (pg.balances.get k) (jobs.map (fun job => job.eventAt k)) := by
  obtain ⟨d,hd,htotal⟩ := balanceDeltas_flatMap h
  obtain ⟨pg',hrel,ho,ht,hb⟩ := Postgres.foldlM_release h
    { ((pg.insertTrades (jobs.flatMap Matched.trades)).upsertDeltas d) with orders := ordersBatch pg.orders jobs }
  refine ⟨pg',(Postgres.processPersistBatch_eq pg hd).trans hrel,ho,ht,fun k => ?_⟩
  rw [hb k, rowBatch, ← htotal k, ← Postgres.upsertDeltas_get]
  rfl

/-- The batch, table by table. -/
theorem Postgres.processBatch_eq {jobs : List PersistJob} (h : ∀ job ∈ jobs, job.Parses) (pg : Postgres) :
    (pg.processBatch jobs).orders = ordersBatch pg.orders jobs ∧
    (pg.processBatch jobs).trades =
      (jobs.flatMap Matched.trades).foldl (fun t trade => t.insertNew trade.id trade) pg.trades ∧
    ∀ k, (pg.processBatch jobs).balances.get k =
      rowBatch (pg.balances.get k) (jobs.map (fun job => job.eventAt k)) := by
  obtain ⟨pg',hbatch,ho,ht,hb⟩ := pg.processPersistBatch_tables h
  have hrun : pg.processBatch jobs = pg' := by
    rw [processBatch, hbatch]
    rfl
  rw [hrun]
  exact ⟨ho,ht,hb⟩

/-! ### Lists of jobs -/

/-- No trade of the jobs and no order has a negative price. -/
def PricesNonneg (jobs : List PersistJob) : Prop :=
  ∀ job ∈ jobs, (∀ t ∈ job.trades, 0 ≤ t.price) ∧ ∀ p ∈ job.order.price, 0 ≤ p

instance (jobs : List PersistJob) : Decidable (PricesNonneg jobs) :=
  inferInstanceAs (Decidable (∀ job ∈ jobs, (∀ t ∈ job.trades, 0 ≤ t.price) ∧ ∀ p ∈ job.order.price, 0 ≤ p))

/-- On no balance row does the order of the jobs' amounts matter. -/
def RowsAgree (b : Table (String × String) Balance) (jobs : List PersistJob) : Prop :=
  ∀ k, RowAgrees (b.get k) (jobs.map (fun job => job.eventAt k))

/-- A balance row that the batch creates gets no release before the first job that settles
on it. -/
def NoReleaseBeforeRow (b : Table (String × String) Balance) (jobs : List PersistJob) : Prop :=
  ∀ k, b.get k = none → NoEarlyRelease (jobs.map (fun job => job.eventAt k))

/-- What matching guarantees about its jobs. -/
structure MatchedInOrder (jobs : List PersistJob) : Prop where
  order : InMatchOrder jobs
  openWhenFilled : OpenWhenFilled jobs
  parses : ∀ job ∈ jobs, job.Parses
  quantity : ∀ job ∈ jobs, ∀ t ∈ job.trades, 0 ≤ t.quantity
  remaining : ∀ job ∈ jobs, 0 ≤ job.order.remaining

lemma releasedAt_nonneg {o : Order} (hr : 0 ≤ o.remaining) (hp : ∀ p ∈ o.price, 0 ≤ p) {k : String × String} {r : Decimal}
    (h : o.releasedAt k = some r) : 0 ≤ r := by
  unfold Order.releasedAt at h
  split_ifs at h with hn
  obtain ⟨q,hq,hqr⟩ := Option.bind_eq_some_iff.mp h
  split_ifs at hqr
  cases hqr
  have hrelease : releaseParams o = .ok q := by
    cases hx : releaseParams o with
    | error e =>
      rw [hx] at hq
      cases hq
    | ok x =>
      rw [hx] at hq
      exact congrArg Except.ok (Option.some.inj hq)
  obtain ⟨base,quote,_,rfl⟩ := releaseParams_ok hrelease
  cases hs : o.side with
  | buy =>
    refine mul_nonneg ?_ hr
    cases hprice : o.price with
    | none => exact le_rfl
    | some p => exact hp p hprice
  | sell => exact hr

lemma MatchedInOrder.events_nonneg {jobs : List PersistJob} (h : MatchedInOrder jobs) (hp : PricesNonneg jobs)
    (k : String × String) : ∀ e ∈ jobs.map (fun job => job.eventAt k), e.Nonneg := by
  intro e he
  obtain ⟨job,hjob,rfl⟩ := List.mem_map.mp he
  constructor
  · intro d hd
    obtain ⟨ds,hds⟩ := (h.parses job hjob).1
    have hget : ds.get k = some d := by
      change (balanceDeltas job.trades).toOption.bind _ = _ at hd
      rwa [hds] at hd
    exact balanceDeltas_nonneg (fun t ht => ⟨(hp job hjob).1 t ht,h.quantity job hjob t ht⟩) hds k d hget
  · intro r hr
    exact releasedAt_nonneg (h.remaining job hjob) (hp job hjob).2 hr

lemma MatchedInOrder.rowsAgree_iff {jobs : List PersistJob} (h : MatchedInOrder jobs) (hp : PricesNonneg jobs)
    (b : Table (String × String) Balance) : RowsAgree b jobs ↔ NoReleaseBeforeRow b jobs :=
  forall_congr' (fun k => rowAgrees_iff (h.events_nonneg hp k) (b.get k))

lemma Columns.processBatch_eq (pg : Postgres) {jobs : List PersistJob} (h : ∀ job ∈ jobs, job.FitsColumns) :
    Columns.processBatch pg jobs = pg.processBatch jobs := by
  rw [Columns.processBatch, Columns.processPersistBatch_eq pg h, Postgres.processBatch]

lemma Columns.processJobs_eq (pg : Postgres) {jobs : List PersistJob} (h : ∀ job ∈ jobs, job.FitsColumns) :
    Columns.processJobs pg jobs = pg.processJobs jobs := by
  unfold Columns.processJobs Postgres.processJobs
  induction jobs generalizing pg with
  | nil => rfl
  | cons job jobs ih =>
    obtain ⟨hjob,hjobs⟩ := List.forall_mem_cons.mp h
    rw [List.foldl_cons, List.foldl_cons, Columns.processPersistJob_eq pg hjob]
    exact ih _ hjobs

/-- The job that `process_queued_order` sends for a message, when the numbers of its reply are below `10^14`. -/
def Api.persistJob (pairs : PairsCache) (db : Valkey) (msg : QueuedOrderMsg) (d : Draws) : Option PersistJob :=
  (Api.processQueuedOrder pairs db msg d).1.toOption.bind Prod.snd

/-- The jobs of a batch as they are decoded, in the order of their matches. Other matches, whose jobs are not
in the batch, cancels and any amount of time may come in between. Hashes keep their numbers exactly, as the
script prints them below `10^14`. -/
inductive Produces (pairs : PairsCache) : Exchange → List PersistJob → Prop
  | nil (e : Exchange) : Produces pairs e []
  | wait {e : Exchange} {jobs : List PersistJob} (ms : ℕ) (rest : Produces pairs { e with db := e.db.pass ms } jobs) :
      Produces pairs e jobs
  | other {e e' : Exchange} {jobs : List PersistJob} (h : Exchange.Step (fun _ o => 0 < o.quantity) e e')
      (rest : Produces pairs e' jobs) : Produces pairs e jobs
  | matched {e : Exchange} {jobs : List PersistJob} {job : PersistJob} {msg : QueuedOrderMsg} {d : Draws} {o : Order}
      {asset : String} {amount : ℤ} (hparse : Api.parseOrder msg d.now = .ok o) (hlock : lockParams o = .ok (asset,amount))
      (fresh : ∀ p ∈ e.submitted, p.id ≠ o.id) (hqty : 0 < o.quantity) (hjob : (Api.queuedOrderDecoded pairs e.db msg d).1 = some job)
      (rest : Produces pairs (e.submit o asset amount) jobs) : Produces pairs e (job :: jobs)

lemma Api.persistJob_eq_some {pairs : PairsCache} {db : Valkey} {msg : QueuedOrderMsg} {d : Draws} {job : PersistJob}
    {o : Order} {asset : String} {amount : ℤ} (hparse : Api.parseOrder msg d.now = .ok o)
    (hlock : lockParams o = .ok (asset,amount)) (h : Api.persistJob pairs db msg d = some job) :
    ∃ db₁, lockBalance db (matchArgs o asset amount) = some db₁ ∧
      job.Result o (matchArgs o asset amount) ((matchArgs o asset amount).planOn db) := by
  unfold Api.persistJob Api.processQueuedOrder at h
  simp only [hparse] at h
  cases hv : validateOrder pairs o with
  | error x =>
    rw [hv] at h
    cases h
  | ok _ =>
    simp only [hv, hlock] at h
    by_cases hf : o.tif = .fok
    · rw [if_pos hf] at h
      cases h
    · rw [if_neg hf] at h
      cases hl : lockBalance db (matchArgs o asset amount) with
      | none =>
        simp only [matchOrderLua, matchOrderScript_eq, hl] at h
        cases h
      | some db₁ =>
        simp only [matchOrderLua_of_lock hl] at h
        cases h
        exact ⟨db₁,rfl,⟨rfl,rfl⟩⟩

lemma Api.queuedOrderDecoded_eq_some {pairs : PairsCache} {db : Valkey} {msg : QueuedOrderMsg} {d : Draws} {job : PersistJob}
    {o : Order} {asset : String} {amount : ℤ} (hparse : Api.parseOrder msg d.now = .ok o)
    (hlock : lockParams o = .ok (asset,amount)) (h : (Api.queuedOrderDecoded pairs db msg d).1 = some job) :
    ∃ db₁, lockBalance db (matchArgs o asset amount) = some db₁ ∧ job = o.readOn db d.tradeId asset amount := by
  unfold Api.queuedOrderDecoded at h
  simp only [hparse] at h
  cases hv : validateOrder pairs o with
  | error x =>
    rw [hv] at h
    cases h
  | ok _ =>
    simp only [hv, hlock] at h
    split_ifs at h
    have hdecoded : o.decodedOn db d.tradeId asset amount = .ok job := eq_ok_of_mem_toOption h
    cases hl : lockBalance db (matchArgs o asset amount) with
    | none =>
      rw [Order.decodedOn, matchOrderScript_eq, hl] at hdecoded
      cases hdecoded
    | some db₁ => exact ⟨db₁,rfl,Order.decodedOn_ok hl hdecoded⟩

lemma balanceDeltas_of_parses {ts : List Trade} (h : ∀ t ∈ ts, ∃ pair, parsePairId t.pairId = .ok pair) :
    ∃ d, balanceDeltas ts = .ok d := by
  unfold balanceDeltas
  generalize (Table.empty : Deltas) = d
  induction ts generalizing d with
  | nil => exact ⟨d,rfl⟩
  | cons t ts ih =>
    obtain ⟨⟨base,quote⟩,hp⟩ := h t (by simp)
    obtain ⟨d',hd'⟩ := ih (fun x hx => h x (by simp [hx])) (Deltas.addTrade d t base quote)
    refine ⟨d',?_⟩
    rw [List.foldlM_cons, addTradeDeltas_eq d hp]
    exact hd'

section Produces
variable {pairs : PairsCache}

lemma Exchange.Sourced.step {Admit : Exchange → Order → Prop} {e e' : Exchange} (he : e.Sourced) (h : Exchange.Step Admit e e') :
    e'.Sourced := by
  cases h with
  | submit o asset amount => exact he.submit o asset amount
  | remove _ c =>
    intro id w hw
    simp only [Exchange.remove, Valkey.removeOrderFromBook, Valkey.dropOrder_order] at hw
    split_ifs at hw
    exact he id w hw

lemma Reachable.sourced {e : Exchange} (he : Reachable (fun _ o => 0 < o.quantity) e) : e.Sourced :=
  (he.invariant (fun _ _ ho => decimalToI64_nonneg (le_of_lt ho))).2.source

lemma Exchange.Sourced.pass {e : Exchange} (he : e.Sourced) (ms : ℕ) : Exchange.Sourced { e with db := e.db.pass ms } :=
  fun id w hw => he id w (Valkey.pass_order_some hw)

lemma Produces.not_maker {e : Exchange} {jobs : List PersistJob} (h : Produces pairs e jobs) {id : Uuid}
    (hnone : e.db.order id = none) (hold : ∃ p ∈ e.submitted, p.id = id) :
    ∀ job ∈ jobs, ∀ lt ∈ job.luaTrades, lt.restingOrderId ≠ id := by
  induction h with
  | nil => simp
  | wait ms _ ih =>
    refine ih ?_ hold
    cases hpass : (Valkey.pass _ ms).order id with
    | none => rfl
    | some w =>
      rw [Valkey.pass_order_some hpass] at hnone
      cases hnone
  | other hstep _ ih =>
    cases hstep with
    | submit o asset amount fresh _ =>
      obtain ⟨p,hp,rfl⟩ := hold
      exact ih (submit_order_none hnone (fresh p hp)) ⟨p,List.mem_append_left _ hp,rfl⟩
    | remove o c => exact ih (by simp [Exchange.remove, Valkey.removeOrderFromBook, hnone]) hold
  | @matched e jobs job msg d o asset amount hparse hlock fresh _ hjob _ ih =>
    obtain ⟨p,hp,rfl⟩ := hold
    obtain ⟨db₁,_,rfl⟩ := Api.queuedOrderDecoded_eq_some hparse hlock hjob
    intro x hx
    rcases List.mem_cons.mp hx with rfl | hx
    · intro lt hlt he
      obtain ⟨t,ht,rfl⟩ := List.mem_map.mp hlt
      obtain ⟨r,q,hv,rfl⟩ := Plan.mem_trades.mp ht
      exact planOn_visit_ne hnone _ hv he
    · exact ih (submit_order_none hnone (fresh p hp)) ⟨p,List.mem_append_left _ hp,rfl⟩ x hx

lemma Produces.fresh {e : Exchange} {jobs : List PersistJob} (h : Produces pairs e jobs) :
    ∀ job ∈ jobs, ∀ p ∈ e.submitted, p.id ≠ job.order.id := by
  induction h with
  | nil => simp
  | wait ms _ ih => exact ih
  | other hstep _ ih =>
    intro job hjob p hp
    cases hstep with
    | submit o asset amount fresh _ => exact ih job hjob p (List.mem_append_left _ hp)
    | remove o c => exact ih job hjob p hp
  | @matched e jobs job msg d o asset amount hparse hlock fresh _ hjob _ ih =>
    obtain ⟨db₁,_,rfl⟩ := Api.queuedOrderDecoded_eq_some hparse hlock hjob
    intro x hx p hp
    rcases List.mem_cons.mp hx with rfl | hx
    · exact fresh p hp
    · exact ih x hx p (List.mem_append_left _ hp)

lemma readOn_facts (db : Valkey) (newV4 : ℕ → Uuid) {o : Order} {asset : String} {amount : ℤ} (hlock : lockParams o = .ok (asset,amount))
    (hqty : 0 < o.quantity) :
    (o.readOn db newV4 asset amount).Parses ∧ (∀ t ∈ (o.readOn db newV4 asset amount).trades, 0 ≤ t.quantity) ∧
      0 ≤ (o.readOn db newV4 asset amount).order.remaining ∧
      ∀ lt ∈ (o.readOn db newV4 asset amount).luaTrades, 0 < lt.quantity ∧ ∃ h, db.order lt.restingOrderId = some h := by
  have hmakers : ∀ lt ∈ (o.readOn db newV4 asset amount).luaTrades, 0 < lt.quantity ∧ ∃ h, db.order lt.restingOrderId = some h := by
    intro lt hlt
    obtain ⟨t,ht,rfl⟩ := List.mem_map.mp hlt
    obtain ⟨r,q,hv,rfl⟩ := Plan.mem_trades.mp ht
    obtain ⟨hvalid,ho,_⟩ := planOn_visit hv
    exact ⟨i64ToDecimal_pos.mpr (hvalid.fill q rfl).1,r.hash,ho⟩
  obtain ⟨base,quote,hpair,_⟩ := lockParams_ok hlock
  have hbuilt : ∀ t ∈ (o.readOn db newV4 asset amount).trades, t.pairId = o.pairId ∧
      ∃ lt ∈ (o.readOn db newV4 asset amount).luaTrades, t.quantity = lt.quantity := by
    intro t ht
    obtain ⟨i,hi,rfl⟩ := List.mem_mapIdx.mp ht
    exact ⟨rfl,_,List.getElem_mem hi,rfl⟩
  refine ⟨⟨balanceDeltas_of_parses (fun t ht => ⟨(base,quote),by rw [(hbuilt t ht).1, hpair]⟩),_,releaseParams_of_parse hpair⟩,?_,?_,hmakers⟩
  · intro t ht
    obtain ⟨_,lt,hlt,hq⟩ := hbuilt t ht
    rw [hq]
    exact (hmakers lt hlt).1.le
  · -- a remainder that cannot be read counts as zero
    have hrem : 0 ≤ ((matchArgs o asset amount).planOn db).remainingI :=
      (plan_account _ _ (show 0 ≤ (matchArgs o asset amount).qtyI from decimalToI64_nonneg hqty.le)).1
    have hread : 0 ≤ (luaToI64 ((matchArgs o asset amount).planOn db).remainingI).getD 0 := by
      unfold luaToI64
      split_ifs
      · exact hrem
      · exact le_rfl
    change 0 ≤ i64ToDecimal _
    rw [← i64ToDecimal_zero, i64ToDecimal_le_iff]
    exact hread

/-- The jobs of a sequence of matches are matched in order. -/
theorem Produces.matchedInOrder {e : Exchange} {jobs : List PersistJob} (h : Produces pairs e jobs) (he : e.Sourced) :
    MatchedInOrder jobs := by
  induction h with
  | nil => exact ⟨.nil,⟨by simp,.nil⟩,by simp,by simp,by simp⟩
  | wait ms _ ih => exact ih (he.pass ms)
  | other hstep _ ih => exact ih (he.step hstep)
  | @matched e jobs job msg d o asset amount hparse hlock fresh hqty hjob hrest ih =>
    obtain ⟨hord,⟨hq,hopen⟩,hparses,hqt,hrem⟩ := ih (he.submit o asset amount)
    obtain ⟨db₁,hl,rfl⟩ := Api.queuedOrderDecoded_eq_some hparse hlock hjob
    obtain ⟨jparses,jqt,jrem,jmakers⟩ := readOn_facts e.db d.tradeId hlock hqty
    have hnew : ∀ b ∈ jobs, ∀ p ∈ e.submitted ++ [o], p.id ≠ b.order.id := fun b hb p hp => hrest.fresh b hb p hp
    refine ⟨List.pairwise_cons.mpr ⟨fun b hb => ⟨hnew b hb o (by simp),fun lt hlt => ?_⟩,hord⟩,
      ⟨?_,List.pairwise_cons.mpr ⟨fun b hb lt hlt hid => ?_,hopen⟩⟩,?_,?_,?_⟩
    · obtain ⟨_,w,hw⟩ := jmakers lt hlt
      obtain ⟨p,hp,hpid,_⟩ := he _ w hw
      exact hpid ▸ hnew b hb p (by simp [hp])
    · exact List.forall_mem_cons.mpr ⟨fun lt hlt => (jmakers lt hlt).1,hq⟩
    · -- an order that another job fills later rests
      have hrests : (e.submit o asset amount).db.order o.id ≠ none := fun hnone =>
        hrest.not_maker hnone ⟨o,by simp [Exchange.submit],rfl⟩ b hb lt hlt hid
      exact (rests_of_order_ne_none hl (he.order_fresh fresh) hrests).isOpen
    · exact List.forall_mem_cons.mpr ⟨jparses,hparses⟩
    · exact List.forall_mem_cons.mpr ⟨jqt,hqt⟩
    · exact List.forall_mem_cons.mpr ⟨jrem,hrem⟩

end Produces

/-- The jobs of two matches, the second after the first. -/
def twoJobs (e : Exchange) (msg₁ msg₂ : QueuedOrderMsg) (o : Order) (asset : String) (amount : ℤ) : List PersistJob :=
  (Api.queuedOrderDecoded btcUsdt e.db msg₁ ⟨0,fun _ => 10,0⟩).1.toList ++
    (Api.queuedOrderDecoded btcUsdt (e.submit o asset amount).db msg₂ ⟨0,fun _ => 20,0⟩).1.toList

lemma twoJobs_produces {e : Exchange} {msg₁ msg₂ : QueuedOrderMsg} {o : Order} {asset : String} {amount : ℤ}
    (o' : Order) (asset' : String) (amount' : ℤ) (hparse : Api.parseOrder msg₁ 0 = .ok o)
    (hparse' : Api.parseOrder msg₂ 0 = .ok o') (hlock : lockParams o = .ok (asset,amount)) (hlock' : lockParams o' = .ok (asset',amount'))
    (fresh : ∀ p ∈ e.submitted, p.id ≠ o.id) (fresh' : ∀ p ∈ (e.submit o asset amount).submitted, p.id ≠ o'.id)
    (hqty : 0 < o.quantity) (hqty' : 0 < o'.quantity)
    (hjob : (Api.queuedOrderDecoded btcUsdt e.db msg₁ ⟨0,fun _ => 10,0⟩).1 ≠ none)
    (hjob' : (Api.queuedOrderDecoded btcUsdt (e.submit o asset amount).db msg₂ ⟨0,fun _ => 20,0⟩).1 ≠ none) :
    Produces btcUsdt e (twoJobs e msg₁ msg₂ o asset amount) := by
  obtain ⟨job,hj⟩ := Option.ne_none_iff_exists'.mp hjob
  obtain ⟨job',hj'⟩ := Option.ne_none_iff_exists'.mp hjob'
  have hsecond : Produces btcUsdt (e.submit o asset amount) [job'] :=
    .matched (d := ⟨0,fun _ => 20,0⟩) hparse' hlock' fresh' hqty' hj' (.nil _)
  rw [twoJobs, hj, hj']
  exact .matched (d := ⟨0,fun _ => 10,0⟩) hparse hlock fresh hqty hj hsecond

end MatchingEngine

import MatchingEngine.Library.Transactions
import MatchingEngine.PersistReplay

/-! `process_persist_job` on a database that may refuse any call. The job is not one transaction: the
insert of the order, the trades with their settlement, the makers, the row of the order and the
release are committed one after the other, and an error keeps what was committed before it. -/
namespace MatchingEngine
open Library Client

/-! ### The calls -/

namespace Api

/-- `insert_order_db`. -/
def insertOrderDb (o : Order) : Client String Postgres Unit := execute (fun pg => pg.insertOrder o)

/-- `insert_audit_event`; the log is not among the tables. -/
def insertAuditEvent : Client String Postgres Unit := execute id

/-- One `INSERT INTO balances … ON CONFLICT` per key, in sorted order. -/
def upsertBalances (deltas : Deltas) : Client String Postgres Unit :=
  deltas.sorted.rows.forM (fun r => execute (fun pg =>
    { pg with balances := pg.balances.upsert r.1 ⟨r.2.2,0⟩ (settleRow r.2) }))

/-- The statements between `BEGIN` and `COMMIT` of `persist_trades`. -/
def settleTrades (trades : List Trade) : Client String Postgres Unit := do
  trades.forM (fun t => execute (fun pg => pg.insertTrades [t]))
  let deltas ← ofExcept (balanceDeltas trades)
  upsertBalances deltas

/-- `persist_trades`. -/
def persistTrades (trades : List Trade) : Client String Postgres Unit :=
  if trades.isEmpty then pure ()
  else do
    transaction (settleTrades trades)
    trades.forM (fun _ => attempt insertAuditEvent)

/-- `update_resting_orders_after_lua`. -/
def updateRestingOrdersAfterLua (lts : List LuaTrade) : Client String Postgres Unit :=
  if lts.isEmpty then pure ()
  else transaction (lts.forM (fun lt => execute (fun pg => pg.updateOrder lt.restingOrderId (fillRow lt.quantity))))

/-- `update_order_db`. -/
def updateOrderDb (o : Order) : Client String Postgres Unit := execute (fun pg => pg.updateOrder o.id (finishRow o))

/-- `release_remaining_locked`. -/
def releaseRemainingLocked (o : Order) : Client String Postgres Unit :=
  if o.remaining = 0 then pure ()
  else do
    let p ← ofExcept (releaseParams o)
    execute (fun pg => { pg with balances := pg.balances.modify (o.userId,p.1) (releaseRow p.2) })

/-- `process_persist_job`. -/
def processPersistJob (job : PersistJob) : Client String Postgres Unit := do
  insertOrderDb job.order
  attempt insertAuditEvent
  persistTrades job.trades
  updateRestingOrdersAfterLua job.luaTrades
  updateOrderDb job.order
  if job.order.status = .cancelled ∨ job.order.status = .filled then releaseRemainingLocked job.order
  else pure ()

end Api

/-- The stages before the release. -/
inductive PersistStep
  | insert
  | trades
  | makers
  | finish
  deriving DecidableEq, Repr

def persistSteps : List PersistStep := [.insert,.trades,.makers,.finish]

/-- The settlement map, in the order of its upserts. -/
def settlement (trades : List Trade) : Deltas := ((balanceDeltas trades).toOption.getD Table.empty).sorted

/-- What each stage calls and does. The audit events come behind the insert and behind the trades. -/
def PersistStep.stage (job : PersistJob) : PersistStep → Stage Postgres
  | .insert => ⟨1,1,true,fun pg => pg.insertOrder job.order⟩
  | .trades => ⟨if job.trades.isEmpty then 0 else job.trades.length + (settlement job.trades).rows.length + 2,
      job.trades.length,(balanceDeltas job.trades).isOk,
      fun pg => (pg.insertTrades job.trades).upsertDeltas (settlement job.trades)⟩
  | .makers => ⟨if job.luaTrades.isEmpty then 0 else job.luaTrades.length + 2,0,true,
      fun pg => pg.updateRestingOrdersAfterLua job.luaTrades⟩
  | .finish => ⟨1,0,true,fun pg => pg.updateOrder job.order.id (finishRow job.order)⟩

/-- Same tables, up to the order of the balances rows. -/
structure Postgres.SameRows (pg pg' : Postgres) : Prop where
  orders : pg.orders = pg'.orders
  trades : pg.trades = pg'.trades
  balances : ∀ k, pg.balances.get k = pg'.balances.get k

/-- The stage finds nothing to change: the order's insert conflicts, the trades are there and their settlement
is nothing, the makers have no open row, the order has no row. -/
def PersistStep.Idle (pg : Postgres) (job : PersistJob) : PersistStep → Prop
  | .insert => Refused pg.orders job.order
  | .trades => (∀ t ∈ job.trades, (pg.trades.get t.id).isSome) ∧
      ∀ r ∈ (settlement job.trades).rows, ∃ b, pg.balances.get r.1 = some b ∧ settleRow r.2 b = b
  | .makers => ∀ lt ∈ job.luaTrades, ∀ r, pg.orders.get lt.restingOrderId = some r → ¬ r.status.IsOpen
  | .finish => pg.orders.get job.order.id = none

/-! ### Stages -/

section Stages
variable (job : PersistJob)

lemma foldl_insertTrades (ts : List Trade) (pg : Postgres) :
    ts.foldl (fun pg t => pg.insertTrades [t]) pg = pg.insertTrades ts := by
  induction ts generalizing pg with
  | nil => rfl
  | cons t ts ih =>
    rw [List.foldl_cons, ih]
    rfl

lemma foldl_upserts (d : Deltas) (pg : Postgres) :
    d.rows.foldl (fun pg r => { pg with balances := pg.balances.upsert r.1 ⟨r.2.2,0⟩ (settleRow r.2) }) pg =
      pg.upsertDeltas d := by
  unfold Postgres.upsertDeltas
  generalize d.rows = rows
  induction rows generalizing pg with
  | nil => rfl
  | cons r rows ih => exact ih { pg with balances := pg.balances.upsert r.1 ⟨r.2.2,0⟩ (settleRow r.2) }

lemma does_insert :
    Does (do Api.insertOrderDb job.order; attempt Api.insertAuditEvent) (PersistStep.stage job .insert) :=
  does_silently (does_execute _) (forM_attempt [()])

lemma does_makers : Does (Api.updateRestingOrdersAfterLua job.luaTrades) (PersistStep.stage job .makers) := by
  unfold Api.updateRestingOrdersAfterLua PersistStep.stage Postgres.updateRestingOrdersAfterLua
  cases job.luaTrades with
  | nil => exact does_pure
  | cons lt lts => exact does_transaction (does_forM _ (lt :: lts)) rfl

lemma does_finish : Does (Api.updateOrderDb job.order) (PersistStep.stage job .finish) := does_execute _

lemma does_settleTrades (trades : List Trade) : Does (Api.settleTrades trades)
    ⟨trades.length + (settlement trades).rows.length,0,(balanceDeltas trades).isOk,
      fun pg => (pg.insertTrades trades).upsertDeltas (settlement trades)⟩ := by
  have hinserts := does_forM (ε := String) (fun t (pg : Postgres) => pg.insertTrades [t]) trades
  simp only [foldl_insertTrades] at hinserts
  have hsettle : Does (do let deltas ← ofExcept (balanceDeltas trades); Api.upsertBalances deltas)
      ⟨(settlement trades).rows.length,0,(balanceDeltas trades).isOk,fun pg => pg.upsertDeltas (settlement trades)⟩ := by
    unfold settlement
    cases balanceDeltas trades with
    | ok d =>
      have hupserts := does_forM (ε := String) (fun r (pg : Postgres) =>
        { pg with balances := pg.balances.upsert r.1 ⟨r.2.2,0⟩ (settleRow r.2) }) d.sorted.rows
      simp only [foldl_upserts] at hupserts
      exact hupserts
    | error e => exact does_invalid (fun faults s => ⟨e,s,rfl⟩) _ _
  exact does_bind hinserts rfl hsettle

lemma does_trades : Does (Api.persistTrades job.trades) (PersistStep.stage job .trades) := by
  have hdo := does_silently (does_transaction (does_settleTrades job.trades) rfl) (forM_attempt job.trades)
  unfold Api.persistTrades PersistStep.stage
  cases htrades : job.trades with
  | nil => exact does_pure
  | cons t ts =>
    rw [htrades, zero_add] at hdo
    exact hdo

lemma atomic_persistTrades (trades : List Trade) : Atomic (Api.persistTrades trades) := by
  unfold Api.persistTrades
  split_ifs
  · exact fun _ _ _ _ h => by cases h
  · exact atomic_silently (atomic_transaction _) (forM_attempt trades)

lemma atomic_makers (lts : List LuaTrade) : Atomic (Api.updateRestingOrdersAfterLua lts) := by
  unfold Api.updateRestingOrdersAfterLua
  split_ifs
  · exact fun _ _ _ _ h => by cases h
  · exact atomic_transaction _

/-- What is left of the job after the stages. -/
def releaseIfResolved (o : Order) : Client String Postgres Unit :=
  if o.status = .cancelled ∨ o.status = .filled then Api.releaseRemainingLocked o else pure ()

lemma processPersistJob_runsThrough :
    RunsThrough (Api.processPersistJob job) (releaseIfResolved job.order) (PersistStep.stage job) persistSteps := by
  have hinsert : Atomic (do Api.insertOrderDb job.order; attempt Api.insertAuditEvent : Client String Postgres Unit) :=
    atomic_silently (atomic_execute _) (forM_attempt [()])
  unfold Api.processPersistJob
  rw [← bind_assoc]
  exact runsThrough_cons (does_insert job) hinsert
    (runsThrough_cons (does_trades job) (atomic_persistTrades job.trades)
      (runsThrough_cons (does_makers job) (atomic_makers job.luaTrades)
        (runsThrough_cons (does_finish job) (atomic_execute _) (runsThrough_nil _ _))))

lemma releaseIfResolved_run (o : Order) (faults : ℕ → Option String) (s : Connection Postgres) :
    (∃ e n, (releaseIfResolved o).run faults s = (.error e,⟨n,s.store⟩)) ∨
    ∃ pg n, s.store.release o = .ok pg ∧ (releaseIfResolved o).run faults s = (.ok (),⟨n,pg⟩) := by
  by_cases hn : o.NeedsRelease
  · unfold releaseIfResolved Api.releaseRemainingLocked Postgres.release
    rw [if_pos hn.1, if_neg hn.2, if_pos hn]
    cases hp : releaseParams o with
    | error e => exact .inl ⟨e,s.calls,rfl⟩
    | ok p =>
      cases hf : faults s.calls with
      | some e => exact .inl ⟨e,s.calls + 1,(bind_of_ok rfl).trans (execute_of_some hf)⟩
      | none => exact .inr ⟨_,s.calls + 1,rfl,(bind_of_ok rfl).trans (execute_of_none hf)⟩
  · have hpure : releaseIfResolved o = pure () := by
      unfold releaseIfResolved Api.releaseRemainingLocked
      by_cases hstatus : o.status = .cancelled ∨ o.status = .filled
      · rw [if_pos hstatus, if_pos (by_contra fun hrem => hn ⟨hstatus,hrem⟩)]
      · rw [if_neg hstatus]
    rw [hpure, Postgres.release, if_neg hn]
    exact .inr ⟨s.store,s.calls,rfl,rfl⟩

end Stages

/-! ### Idle stages -/

section Idle
variable {pg : Postgres} {job : PersistJob} {t : Table Uuid Order}

/-- Inserts add rows, updates raise versions. -/
def orderRank (t : Table Uuid Order) : ℕ ×ₗ ℤ := toLex (t.rows.length,t.sum (fun _ r => r.version))

lemma insertRow_progress (t : Table Uuid Order) (o : Order) :
    insertRow t o = t ∨ orderRank t < orderRank (insertRow t o) := by
  by_cases h : Refused t o
  · exact .inl (insertRow_of_refused h)
  · right
    have hrow : insertRow t o = t.insertNew o.id o := by
      unfold insertRow Postgres.insertOrder
      rw [if_neg (fun htaken => h (.inl htaken))]
    have hkey : o.id ∉ t.rows.map Prod.fst := fun hmem => h (.inr (Table.mem_keys.mp hmem))
    rw [hrow, Table.insertNew, dif_neg hkey, orderRank, orderRank, Prod.Lex.toLex_lt_toLex]
    left
    simp

lemma modify_progress (t : Table Uuid Order) (id : Uuid) {f : Order → Order}
    (hf : ∀ r, f r = r ∨ (f r).version = r.version + 1) :
    t.modify id f = t ∨ orderRank t < orderRank (t.modify id f) := by
  cases hget : t.get id with
  | none => exact .inl (Table.modify_of_get_eq_none hget f)
  | some r =>
    rcases hf r with heq | hversion
    · left
      refine Table.modify_eq_self (fun a ha => ?_)
      rw [hget, Option.some_inj] at ha
      rw [← ha, heq]
    · right
      rw [orderRank, orderRank, Prod.Lex.toLex_lt_toLex]
      right
      refine ⟨by simp [Table.modify],?_⟩
      rw [Table.sum_modify, hget]
      simp [hversion]

lemma fillRow_progress (q : Decimal) (r : Order) : fillRow q r = r ∨ (fillRow q r).version = r.version + 1 := by
  unfold fillRow
  by_cases hopen : r.status.IsOpen
  · rw [if_pos hopen]
    exact .inr rfl
  · rw [if_neg hopen]
    exact .inl rfl

/-- The stages on the orders table. -/
def PersistStep.onOrders (job : PersistJob) (t : Table Uuid Order) : PersistStep → Table Uuid Order
  | .insert => insertRow t job.order
  | .trades => t
  | .makers => fillMakers t job
  | .finish => finishTaker t job

lemma onOrders_progress (job : PersistJob) (t : Table Uuid Order) (st : PersistStep) :
    st.onOrders job t = t ∨ orderRank t < orderRank (st.onOrders job t) := by
  cases st with
  | insert => exact insertRow_progress t job.order
  | trades => exact .inl rfl
  | makers =>
    exact foldl_eq_or_lt (fun t (lt : LuaTrade) => modify_progress t lt.restingOrderId (fillRow_progress lt.quantity))
      job.luaTrades t
  | finish => exact modify_progress t job.order.id (fun r => .inr rfl)

lemma effect_orders (job : PersistJob) (pg : Postgres) (st : PersistStep) :
    ((st.stage job).effect pg).orders = st.onOrders job pg.orders := by
  cases st with
  | insert => exact insertOrder_orders pg job.order
  | trades => rfl
  | makers => exact congrArg Postgres.orders (pg.updateRestingOrdersAfterLua_eq job)
  | finish => rfl

lemma foldl_effect_orders (job : PersistJob) (done : List PersistStep) (pg : Postgres) :
    (done.foldl (fun pg st => (st.stage job).effect pg) pg).orders =
      done.foldl (fun t st => st.onOrders job t) pg.orders := by
  induction done generalizing pg with
  | nil => rfl
  | cons st done ih => rw [List.foldl_cons, List.foldl_cons, ih, effect_orders]

lemma effect_of_idle {st : PersistStep} (h : st.Idle pg job) : (st.stage job).effect pg = pg := by
  cases st with
  | insert =>
    change pg.insertOrder job.order = pg
    rw [Postgres.insertOrder_eq, insertRow_of_refused h]
  | trades =>
    change (pg.insertTrades job.trades).upsertDeltas (settlement job.trades) = pg
    have htrades : pg.insertTrades job.trades = pg := by
      unfold Postgres.insertTrades
      rw [foldl_eq_self (fun t ht => Table.insertNew_of_isSome (h.1 t ht) t)]
    have hbalances : (settlement job.trades).rows.foldl (fun b r => b.upsert r.1 ⟨r.2.2,0⟩ (settleRow r.2)) pg.balances =
        pg.balances := by
      refine foldl_eq_self (fun r hr => ?_)
      obtain ⟨b,hb,hsettle⟩ := h.2 r hr
      exact Table.upsert_eq_self hb hsettle _
    rw [htrades, Postgres.upsertDeltas, hbalances]
  | makers =>
    change pg.updateRestingOrdersAfterLua job.luaTrades = pg
    have hfill : fillMakers pg.orders job = pg.orders := by
      refine foldl_eq_self (fun lt hlt => Table.modify_eq_self (fun r hr => ?_))
      rw [fillRow, if_neg (h lt hlt r hr)]
    rw [Postgres.updateRestingOrdersAfterLua_eq, hfill]
  | finish =>
    change pg.updateOrder job.order.id (finishRow job.order) = pg
    rw [Postgres.updateOrder, Table.modify_of_get_eq_none h]

lemma version_ne_of_modify {id : Uuid} {f : Order → Order} {r : Order} (h : t.modify id f = t) (hr : t.get id = some r) :
    (f r).version = r.version := by
  have hget := congrArg (fun t => t.get id) h
  simp only [Table.get_modify, hr] at hget
  exact congrArg Order.version (Option.some.inj hget)

lemma idle_of_onOrders {st : PersistStep} (hne : st ≠ .trades) (h : st.onOrders job pg.orders = pg.orders) : st.Idle pg job := by
  cases st with
  | insert =>
    have hrefused := refused_insertRow pg.orders job.order
    rwa [show insertRow pg.orders job.order = pg.orders from h] at hrefused
  | trades => exact absurd rfl hne
  | makers =>
    intro lt hlt r hr hopen
    have hstep := foldl_progress
      (fun t (lt : LuaTrade) => modify_progress t lt.restingOrderId (fillRow_progress lt.quantity)) h lt hlt
    have hversion := version_ne_of_modify hstep hr
    rw [fillRow, if_pos hopen] at hversion
    exact absurd hversion (by simp)
  | finish =>
    cases hget : pg.orders.get job.order.id with
    | none => exact hget
    | some r =>
      have hversion : r.version + 1 = r.version := version_ne_of_modify h hget
      omega

lemma effect_ledger (job : PersistJob) {st : PersistStep} (hne : st ≠ .trades) (pg : Postgres) :
    ((st.stage job).effect pg).trades = pg.trades ∧ ((st.stage job).effect pg).balances = pg.balances := by
  cases st with
  | insert => exact ⟨pg.insertOrder_trades job.order,pg.insertOrder_balances job.order⟩
  | trades => exact absurd rfl hne
  | makers =>
    change (pg.updateRestingOrdersAfterLua job.luaTrades).trades = _ ∧ (pg.updateRestingOrdersAfterLua job.luaTrades).balances = _
    rw [Postgres.updateRestingOrdersAfterLua_eq]
    exact ⟨rfl,rfl⟩
  | finish => exact ⟨rfl,rfl⟩

lemma foldl_effect_ledger (job : PersistJob) {done : List PersistStep} (h : PersistStep.trades ∉ done) (pg : Postgres) :
    (done.foldl (fun pg st => (st.stage job).effect pg) pg).trades = pg.trades ∧
    (done.foldl (fun pg st => (st.stage job).effect pg) pg).balances = pg.balances := by
  induction done generalizing pg with
  | nil => exact ⟨rfl,rfl⟩
  | cons st done ih =>
    rw [List.mem_cons, not_or] at h
    obtain ⟨ht,hb⟩ := effect_ledger job (Ne.symm h.1) pg
    obtain ⟨iht,ihb⟩ := ih h.2 ((st.stage job).effect pg)
    exact ⟨iht.trans ht,ihb.trans hb⟩

lemma idle_trades (htrades : (pg.insertTrades job.trades).trades = pg.trades)
    (hbalances : (pg.upsertDeltas (settlement job.trades)).balances = pg.balances) : PersistStep.trades.Idle pg job := by
  constructor
  · intro t ht
    rw [← htrades]
    exact insertTrades_isSome pg job.trades t ht
  · intro r hr
    have hget := pg.upsertDeltas_get (settlement job.trades) r.1
    rw [hbalances, Table.get_of_mem (show (r.1,r.2) ∈ (settlement job.trades).rows from hr)] at hget
    cases hb : pg.balances.get r.1 with
    | none =>
      rw [hb] at hget
      cases hget
    | some b =>
      rw [hb] at hget
      exact ⟨b,rfl,(Option.some.inj hget).symm⟩

/-- Stages leave the tables as they were exactly when each of them found nothing to change. -/
lemma foldl_effect_eq_self_iff {done : List PersistStep} (hn : done.Nodup) :
    done.foldl (fun pg st => (st.stage job).effect pg) pg = pg ↔ ∀ st ∈ done, st.Idle pg job := by
  constructor
  · intro h st hst
    by_cases hne : st = .trades
    · subst hne
      obtain ⟨pre,post,rfl⟩ := List.append_of_mem hst
      have hpre : PersistStep.trades ∉ pre := fun hmem => List.disjoint_of_nodup_append hn hmem (by simp)
      have hpost : PersistStep.trades ∉ post := (List.nodup_cons.mp hn.of_append_right).1
      rw [List.foldl_append, List.foldl_cons] at h
      set q := pre.foldl (fun pg st => (PersistStep.stage job st).effect pg) pg with hq
      obtain ⟨htrades,hbalances⟩ := foldl_effect_ledger job hpre pg
      obtain ⟨htrades',hbalances'⟩ := foldl_effect_ledger job hpost ((PersistStep.trades.stage job).effect q)
      rw [h] at htrades' hbalances'
      refine idle_trades ?_ ?_
      · rw [htrades']
        change _ = (q.insertTrades job.trades).trades
        rw [Postgres.insertTrades, Postgres.insertTrades, hq, htrades]
      · rw [hbalances']
        change _ = (q.upsertDeltas (settlement job.trades)).balances
        rw [Postgres.upsertDeltas, Postgres.upsertDeltas, hq, hbalances]
    · have horders := congrArg Postgres.orders h
      rw [foldl_effect_orders] at horders
      exact idle_of_onOrders hne (foldl_progress (onOrders_progress job) horders st hst)
  · intro h
    exact foldl_eq_self (fun st hst => effect_of_idle (h st hst))

end Idle

/-! ### The whole job -/

section Job
variable {pg : Postgres} {job : PersistJob}

lemma Postgres.SameRows.release {pg pg' q : Postgres} (h : pg.SameRows q) {o : Order} (hrel : pg.release o = .ok pg') :
    ∃ q', q.release o = .ok q' ∧ pg'.SameRows q' := by
  obtain ⟨ho,ht,⟨hn,hb⟩ | ⟨hn,asset,amount,hp,hb⟩⟩ := Postgres.release_ok hrel
  · refine ⟨q,by rw [Postgres.release, if_neg hn]; rfl,ho.trans h.orders,ht.trans h.trades,fun k => ?_⟩
    rw [hb, h.balances]
  · refine ⟨{ q with balances := q.balances.modify (o.userId,asset) (releaseRow amount) },?_,ho.trans h.orders,
      ht.trans h.trades,fun k => ?_⟩
    · rw [Postgres.release, if_pos hn, hp]
      rfl
    · rw [hb, Table.get_modify, Table.get_modify, h.balances]

lemma processPersistJob_of_stages {pg₁ : Postgres} (hvalid : (balanceDeltas job.trades).isOk = true)
    (h : (persistSteps.foldl (fun pg st => (st.stage job).effect pg) pg).release job.order = .ok pg₁) :
    ∃ pg', pg.processPersistJob job = (.ok (),pg') ∧ pg₁.SameRows pg' := by
  cases hd : balanceDeltas job.trades with
  | error e =>
    rw [hd] at hvalid
    cases hvalid
  | ok d =>
    have hsettled : settlement job.trades = d.sorted := by rw [settlement, hd]; rfl
    have hpersist : (pg.insertOrder job.order).persistTrades job.trades =
        .ok (((pg.insertOrder job.order).insertTrades job.trades).upsertDeltas d) := by
      rw [Postgres.persistTrades, hd]
      rfl
    set inserted := (pg.insertOrder job.order).insertTrades job.trades with hinserted
    have hstages : persistSteps.foldl (fun pg st => (PersistStep.stage job st).effect pg) pg =
        ((inserted.upsertDeltas d.sorted).updateRestingOrdersAfterLua job.luaTrades).updateOrder job.order.id
          (finishRow job.order) := by
      rw [← hsettled]
      rfl
    have hsame : Postgres.SameRows (((inserted.upsertDeltas d.sorted).updateRestingOrdersAfterLua job.luaTrades).updateOrder
        job.order.id (finishRow job.order)) (((inserted.upsertDeltas d).updateRestingOrdersAfterLua job.luaTrades).updateOrder
        job.order.id (finishRow job.order)) := by
      rw [Postgres.updateRestingOrdersAfterLua_eq, Postgres.updateRestingOrdersAfterLua_eq]
      refine ⟨rfl,rfl,fun k => ?_⟩
      change (inserted.upsertDeltas d.sorted).balances.get k = (inserted.upsertDeltas d).balances.get k
      rw [Postgres.upsertDeltas_get, Postgres.upsertDeltas_get, Deltas.get_sorted]
    rw [hstages] at h
    obtain ⟨pg',hrel,hrows⟩ := hsame.release h
    refine ⟨pg',?_,hrows⟩
    unfold Postgres.processPersistJob
    simp only [hpersist, hrel]

end Job

/-- An error of the job leaves the tables unchanged exactly when every stage committed before it had nothing to
change; without an error all of the job is there. -/
theorem fallback_persist_atomic_iff (faults : ℕ → Option String) (pg : Postgres) (job : PersistJob) :
    let out := (Api.processPersistJob job).run faults ⟨0,pg⟩
    (out.1 = .ok () → ∃ pg', pg.processPersistJob job = (.ok (),pg') ∧ out.2.store.SameRows pg') ∧
    ∀ e, out.1 = .error e →
      (out.2.store = pg ↔ ∀ st ∈ committed (PersistStep.stage job) faults 0 persistSteps, st.Idle pg job) := by
  intro out
  obtain ⟨hall,hstopped⟩ := processPersistJob_runsThrough job faults ⟨0,pg⟩
  set done := committed (PersistStep.stage job) faults 0 persistSteps with hdone
  have hn : done.Nodup := (committed_isPrefix_of (PersistStep.stage job) faults 0 persistSteps).sublist.nodup (by decide)
  have hidle : done.foldl (fun pg st => (st.stage job).effect pg) pg = pg ↔ ∀ st ∈ done, st.Idle pg job :=
    foldl_effect_eq_self_iff hn
  by_cases hend : done = persistSteps
  · obtain ⟨n,hrun⟩ := hall hend
    rcases releaseIfResolved_run job.order faults ⟨n,done.foldl (fun pg st => (st.stage job).effect pg) pg⟩ with
      ⟨e,k,herr⟩ | ⟨pg₁,k,hrel,hok⟩
    · have hout : out = (.error e,⟨k,done.foldl (fun pg st => (st.stage job).effect pg) pg⟩) := hrun.trans herr
      rw [hout]
      exact ⟨fun h => absurd h (by simp),fun _ _ => hidle⟩
    · have hout : out = (.ok (),⟨k,pg₁⟩) := hrun.trans hok
      have hmem : PersistStep.trades ∈ done := by
        rw [hend]
        decide
      have hvalid : (balanceDeltas job.trades).isOk = true := valid_of_committed hmem
      rw [hout]
      refine ⟨fun _ => processPersistJob_of_stages hvalid (hend ▸ hrel),fun e h => absurd h (by simp)⟩
  · obtain ⟨e,n,hrun⟩ := hstopped hend
    have hout : out = (.error e,⟨n,done.foldl (fun pg st => (st.stage job).effect pg) pg⟩) := hrun
    rw [hout]
    exact ⟨fun h => absurd h (by simp),fun _ _ => hidle⟩

/-- The database refuses call `n` only. -/
def refuseCall (n : ℕ) : ℕ → Option String := fun i => if i = n then some "connection closed" else none

/-- A job whose first call is refused leaves no trace, one that is not refused is complete. -/
theorem fallback_persist_of_bobsBuy :
    ((Api.processPersistJob bobsBuy).run (refuseCall 0) ⟨0,inFlight⟩).2.store = inFlight ∧
    ∃ pg', inFlight.processPersistJob bobsBuy = (.ok (),pg') ∧
      ((Api.processPersistJob bobsBuy).run (fun _ => none) ⟨0,inFlight⟩).2.store.SameRows pg' := by
  constructor
  · have herr : ((Api.processPersistJob bobsBuy).run (refuseCall 0) ⟨0,inFlight⟩).1 = .error "connection closed" := by
      decide +kernel
    have hnone : committed (PersistStep.stage bobsBuy) (refuseCall 0) 0 persistSteps = [] := by decide +kernel
    refine ((fallback_persist_atomic_iff (refuseCall 0) inFlight bobsBuy).2 _ herr).mpr ?_
    rw [hnone]
    simp
  · have hok : ((Api.processPersistJob bobsBuy).run (fun _ => none) ⟨0,inFlight⟩).1 = .ok () := by decide +kernel
    exact (fallback_persist_atomic_iff (fun _ => none) inFlight bobsBuy).1 hok

/-- The transaction of the trades is refused when the order has been inserted already. -/
theorem fallback_persist_keeps_insert :
    ((Api.processPersistJob bobsBuy).run (refuseCall 2) ⟨0,inFlight⟩).1 = .error "connection closed" ∧
    inFlight.orders.get 2 = none ∧
    (((Api.processPersistJob bobsBuy).run (refuseCall 2) ⟨0,inFlight⟩).2.store.orders.get 2).map Order.status =
      some .filled ∧
    ((Api.processPersistJob bobsBuy).run (refuseCall 2) ⟨0,inFlight⟩).2.store.trades.get 20 = none ∧
    ((Api.processPersistJob bobsBuy).run (refuseCall 2) ⟨0,inFlight⟩).2.store ≠ inFlight := by
  have hrow : (((Api.processPersistJob bobsBuy).run (refuseCall 2) ⟨0,inFlight⟩).2.store.orders.get 2).map Order.status =
      some .filled := by decide +kernel
  refine ⟨by decide +kernel,rfl,hrow,by decide +kernel,fun h => ?_⟩
  rw [h] at hrow
  exact absurd hrow (by decide +kernel)

end MatchingEngine

import MatchingEngine.MarketOrders
import MatchingEngine.Session

/-! Concurrent gateway requests. The script runs of different requests are totally ordered by
Valkey, but each request commits its own transaction later, in any order. A maker's row holds
the state at its own script run until the transactions of its takers reach it. -/
namespace MatchingEngine
open Library

/-- Requests in flight: the matcher's side, the database, and the matched orders whose
transaction has not committed yet. -/
structure Pipeline where
  exchange : Exchange
  pg : Postgres
  pending : List Matched

namespace Pipeline

/-- A request up to its script run. Refused, killed and warmup requests have no transaction. -/
def request (pairs : PairsCache) (s : Pipeline) (msg : QueuedOrderMsg) (d : Draws) : Option Pipeline :=
  match Gateway.acceptOrder pairs msg d with
  | .error _ => none
  | .ok o =>
    if o.tif = .fok ∨ isWarmup o then none
    else match lockParams o, (evalOrder s.exchange.db d.tradeId o).1 with
    | .ok (asset,amount), .ok m => some ⟨s.exchange.submit o asset amount,s.pg,s.pending ++ [m]⟩
    | _, _ => none

/-- The transaction of one of the pending requests. -/
def commit (s : Pipeline) (i : ℕ) : Option Pipeline :=
  match s.pending[i]? with
  | none => none
  | some m =>
    match s.pg.persistOrder m with
    | .error _ => none
    | .ok pg => some { s with pg := pg, pending := s.pending.eraseIdx i }

/-- A limit order of a new user, without self-trade prevention, with an id of its own and a
quantity of at most eight digits. -/
structure Admits (s : Pipeline) (o : Order) : Prop where
  limit : o.orderType = .limit
  stp : o.stpMode = .none
  scale : o.InScale
  grid : o.quantity = i64ToDecimal o.qtyI
  id : ∀ p ∈ s.exchange.submitted, p.id ≠ o.id
  user : ∀ p ∈ s.exchange.submitted, p.userId ≠ o.userId

instance (s : Pipeline) (o : Order) : Decidable (s.Admits o) :=
  decidable_of_iff (o.orderType = .limit ∧ o.stpMode = .none ∧ o.InScale ∧ o.quantity = i64ToDecimal o.qtyI ∧
      (∀ p ∈ s.exchange.submitted, p.id ≠ o.id) ∧ ∀ p ∈ s.exchange.submitted, p.userId ≠ o.userId)
    ⟨fun h => ⟨h.1,h.2.1,h.2.2.1,h.2.2.2.1,h.2.2.2.2.1,h.2.2.2.2.2⟩,fun h => ⟨h.1,h.2,h.3,h.4,h.5,h.6⟩⟩

/-- A request runs its script, or a pending transaction that satisfies `Ready` commits. -/
inductive Step (pairs : PairsCache) (Ready : Postgres → Matched → Prop) : Pipeline → Pipeline → Prop
  | request {s s' : Pipeline} (msg : QueuedOrderMsg) (d : Draws)
      (admitted : ∀ o ∈ (Gateway.acceptOrder pairs msg d).toOption, s.Admits o)
      (h : s.request pairs msg d = some s') : Step pairs Ready s s'
  | commit {s s' : Pipeline} (i : ℕ) (ready : ∀ m ∈ s.pending[i]?, Ready s.pg m) (h : s.commit i = some s') :
      Step pairs Ready s s'

/-- Runs from an empty book and an empty orders table. -/
def Reachable (pairs : PairsCache) (Ready : Postgres → Matched → Prop) (s : Pipeline) : Prop :=
  ∃ db pg, db.EmptyBook ∧ pg.orders = Table.empty ∧ Relation.ReflTransGen (Step pairs Ready) ⟨⟨db,[],[]⟩,pg,[]⟩ s

/-- Rows and book tell the same story about every accepted order. -/
structure Agrees (s : Pipeline) : Prop where
  resting : ∀ pair side, ∀ id ∈ s.exchange.db.book pair side, ∃ h r, s.exchange.db.order id = some h ∧
    s.pg.orders.get id = some r ∧ r.remaining = i64ToDecimal h.remainingI ∧ r.status.IsOpen
  done : ∀ o ∈ s.exchange.submitted, (∀ side, o.id ∉ s.exchange.db.book o.pairId side) →
    ∃ r, s.pg.orders.get o.id = some r ∧ r.status.IsFinal ∧
      r.remaining = o.quantity - i64ToDecimal (s.exchange.tradedI o.id)

end Pipeline

/-- The rows of all makers of a job exist. -/
def Postgres.MakersRecorded (pg : Postgres) (m : Matched) : Prop :=
  ∀ lt ∈ m.luaTrades, (pg.orders.get lt.restingOrderId).isSome

instance (pg : Postgres) (m : Matched) : Decidable (pg.MakersRecorded m) :=
  inferInstanceAs (Decidable (∀ lt ∈ m.luaTrades, _))

/-! ### What the steps do -/

/-- The job of a request whose lock succeeded. -/
structure Matched.Result (m : Matched) (o : Order) (a : MatchArgs) (p : Plan) : Prop where
  order : m.order = { o with remaining := i64ToDecimal p.remainingI, status := p.status a }
  luaTrades : m.luaTrades = (p.trades a).map ScriptTrade.toLuaTrade

lemma evalOrder_ok {db : Valkey} {newV4 : ℕ → Uuid} {o : Order} {m : Matched} {asset : String} {amount : ℤ}
    (hp : lockParams o = .ok (asset,amount)) (h : (evalOrder db newV4 o).1 = .ok m) :
    ∃ db₁, lockBalance db (matchArgs o asset amount) = some db₁ ∧
      m.Result o (matchArgs o asset amount) ((matchArgs o asset amount).planOn db) := by
  unfold evalOrder at h
  simp only [hp] at h
  cases hl : lockBalance db (matchArgs o asset amount) with
  | none =>
    simp only [matchOrderLua, matchOrderScript_eq, hl] at h
    cases h
  | some db₁ =>
    simp only [matchOrderLua_of_lock hl] at h
    cases h
    exact ⟨db₁,rfl,rfl,rfl⟩

lemma Pipeline.request_eq_some {pairs : PairsCache} {s s' : Pipeline} {msg : QueuedOrderMsg} {d : Draws}
    (h : s.request pairs msg d = some s') : ∃ o asset amount m db₁, Gateway.acceptOrder pairs msg d = .ok o ∧
      o.tif ≠ .fok ∧ lockBalance s.exchange.db (matchArgs o asset amount) = some db₁ ∧
      m.Result o (matchArgs o asset amount) ((matchArgs o asset amount).planOn s.exchange.db) ∧
      s' = ⟨s.exchange.submit o asset amount,s.pg,s.pending ++ [m]⟩ := by
  unfold Pipeline.request at h
  cases ha : Gateway.acceptOrder pairs msg d with
  | error e =>
    rw [ha] at h
    cases h
  | ok o =>
    simp only [ha] at h
    split_ifs at h with hf
    push Not at hf
    cases hp : lockParams o with
    | error e =>
      rw [hp] at h
      cases h
    | ok p =>
      obtain ⟨asset,amount⟩ := p
      cases he : (evalOrder s.exchange.db d.tradeId o).1 with
      | error e =>
        simp only [hp, he] at h
        cases h
      | ok m =>
        simp only [hp, he] at h
        cases h
        obtain ⟨db₁,hl,hres⟩ := evalOrder_ok hp he
        exact ⟨o,asset,amount,m,db₁,rfl,hf.1,hl,hres,rfl⟩

lemma Pipeline.commit_eq_some {s s' : Pipeline} {i : ℕ} (h : s.commit i = some s') :
    ∃ m rest pg, s.pending[i]? = some m ∧ s.pending.Perm (m :: rest) ∧ s.pg.persistOrder m = .ok pg ∧
      s' = ⟨s.exchange,pg,rest⟩ := by
  unfold Pipeline.commit at h
  cases hi : s.pending[i]? with
  | none =>
    rw [hi] at h
    cases h
  | some m =>
    simp only [hi] at h
    cases hp : s.pg.persistOrder m with
    | error e =>
      rw [hp] at h
      cases h
    | ok pg =>
      simp only [hp] at h
      cases h
      obtain ⟨hlt,hm⟩ := List.getElem?_eq_some_iff.mp hi
      refine ⟨m,_,pg,rfl,?_,hp,rfl⟩
      rw [← hm]
      exact (List.getElem_cons_eraseIdx_perm hlt).symm

/-! ### The invariant -/

/-- The quantity a job takes from one maker. -/
def Matched.fillOf (m : Matched) (id : Uuid) : Decimal :=
  ((m.luaTrades.filter (fun lt => lt.restingOrderId = id)).map LuaTrade.quantity).sum

namespace Pipeline

/-- The fills of an order whose transactions are still pending. -/
def pendingFill (s : Pipeline) (id : Uuid) : Decimal := (s.pending.map (fun m => m.fillOf id)).sum

/-- A row of an order, inserted or pending. It is behind the book by the pending fills only, and
its status follows from its remainder. -/
structure Records (s : Pipeline) (o row : Order) : Prop where
  remaining : row.remaining = i64ToDecimal (o.qtyI - s.exchange.tradedI o.id) + s.pendingFill o.id
  status :
    (row.status.IsOpen ∧ 0 < row.remaining ∧
      (s.exchange.tradedI o.id < o.qtyI → s.exchange.db.order o.id ≠ none)) ∨
    (row.status = .filled ∧ row.remaining = 0) ∨
    (row.status = .cancelled ∧ s.exchange.db.order o.id = none ∧ s.pendingFill o.id = 0)

/-- A pending job is the first word of the database on its order, and takes a positive quantity
from each of its makers. -/
structure Awaiting (s : Pipeline) (m : Matched) : Prop where
  source : ∃ o ∈ s.exchange.submitted, o.id = m.order.id ∧ o.userId = m.order.userId
  fresh : s.pg.orders.get m.order.id = none
  makers : ∀ lt ∈ m.luaTrades, 0 < lt.quantity ∧ lt.restingOrderId ≠ m.order.id ∧
    ∃ o ∈ s.exchange.submitted, o.id = lt.restingOrderId
  nodup : (m.luaTrades.map LuaTrade.restingOrderId).Nodup

structure Inv (s : Pipeline) : Prop where
  represented : s.exchange.db.Represented
  accounted : s.exchange.Accounted
  users : (s.exchange.submitted.map Order.userId).Nodup
  grid : ∀ o ∈ s.exchange.submitted, o.quantity = i64ToDecimal o.qtyI
  awaiting : ∀ m ∈ s.pending, s.Awaiting m
  nodup : (s.pending.map (fun m => m.order.id)).Nodup
  rows : ∀ id r, s.pg.orders.get id = some r → ∃ o ∈ s.exchange.submitted, o.id = id ∧ o.userId = r.userId
  recorded : ∀ o ∈ s.exchange.submitted, (∃ r, s.pg.orders.get o.id = some r ∧ s.Records o r) ∨
    ∃ m ∈ s.pending, m.order.id = o.id ∧ s.Records o m.order

end Pipeline

section FillOf
variable {m : Matched}

lemma Matched.fillOf_of_notMem {id : Uuid} (h : ∀ lt ∈ m.luaTrades, lt.restingOrderId ≠ id) : m.fillOf id = 0 := by
  have hf : m.luaTrades.filter (fun lt => lt.restingOrderId = id) = [] := by
    rw [List.filter_eq_nil_iff]
    intro lt hlt
    simpa using h lt hlt
  simp [Matched.fillOf, hf]

lemma Matched.fillOf_nonneg (h : ∀ lt ∈ m.luaTrades, 0 < lt.quantity) (id : Uuid) : 0 ≤ m.fillOf id := by
  refine List.sum_nonneg (fun q hq => ?_)
  obtain ⟨lt,hlt,rfl⟩ := List.mem_map.mp hq
  exact (h lt (List.mem_filter.mp hlt).1).le

/-- With one trade per maker, the joined update finds all that the job takes from the maker. -/
lemma Matched.fills_eq_lookup (hn : (m.luaTrades.map LuaTrade.restingOrderId).Nodup) (id : Uuid) :
    (m.luaTrades.filter (fun lt => lt.restingOrderId = id)).map LuaTrade.quantity =
      ((m.luaTrades.map (fun lt => (lt.restingOrderId,lt.quantity))).lookup id).toList := by
  generalize m.luaTrades = lts at hn
  induction lts with
  | nil => rfl
  | cons lt lts ih =>
    rw [List.map_cons, List.nodup_cons] at hn
    rw [List.map_cons, Table.lookup_cons_ite]
    by_cases h : id = lt.restingOrderId
    · have hrest : lts.filter (fun x => x.restingOrderId = id) = [] := by
        rw [List.filter_eq_nil_iff]
        intro x hx he
        exact hn.1 (h ▸ (by simpa using he : x.restingOrderId = id) ▸ List.mem_map_of_mem hx)
      simp [← h, hrest]
    · rw [if_neg h, ← ih hn.2]
      simp [Ne.symm h]

lemma Matched.fillOf_eq_lookup (hn : (m.luaTrades.map LuaTrade.restingOrderId).Nodup) (id : Uuid) :
    m.fillOf id = ((m.luaTrades.map (fun lt => (lt.restingOrderId,lt.quantity))).lookup id).getD 0 := by
  unfold Matched.fillOf
  rw [Matched.fills_eq_lookup hn]
  cases (m.luaTrades.map (fun lt => (lt.restingOrderId,lt.quantity))).lookup id with
  | none => rfl
  | some q => simp

lemma Matched.Result.fillOf {o : Order} {a : MatchArgs} {p : Plan} (h : m.Result o a p) (id : Uuid) :
    m.fillOf id = i64ToDecimal (p.filledOf id) := by
  rw [← Plan.trades_sum a p id, ← i64ToDecimal_sum, Matched.fillOf, h.luaTrades, List.filter_map, List.map_map,
    List.map_map]
  rfl

end FillOf

/-- Rows after a commit: the job's own row as it was matched, and the makers' rows filled. -/
lemma Postgres.ordersAfterPersist_get {pg : Postgres} {m : Matched} (hfresh : pg.orders.get m.order.id = none)
    (hclient : pg.clientOrderIdTaken m.order = false) (hself : ∀ lt ∈ m.luaTrades, lt.restingOrderId ≠ m.order.id)
    (id : Uuid) : (pg.ordersAfterPersist m).get id =
      if id = m.order.id then some (if m.order.status.IsOpen then m.order else finishRow m.order m.order)
      else (pg.orders.get id).map (fun r =>
        ((m.luaTrades.map (fun lt => (lt.restingOrderId,lt.quantity))).lookup id).elim r (fun q => fillRow q r)) := by
  by_cases hid : id = m.order.id
  · subst hid
    rw [if_pos rfl]
    obtain ⟨r,hr⟩ : ∃ r, (pg.ordersAfterPersist m).get m.order.id = some r := by
      rw [← Option.isSome_iff_exists]
      unfold ordersAfterPersist insertOrder
      by_cases hopen : m.order.status.IsOpen
      · simp [hopen, hclient, hfresh]
      · simp [hopen, hclient, hfresh]
    rw [hr, ordersAfterPersist_self hfresh hself hr]
  · rw [if_neg hid, ordersAfterPersist_get_of_ne pg hid]

/-! ### Pending jobs -/

section Pending
variable {s : Pipeline} {m : Matched}

lemma Pipeline.Awaiting.mono (h : s.Awaiting m) {s' : Pipeline}
    (hsub : ∀ p ∈ s.exchange.submitted, p ∈ s'.exchange.submitted) (hfresh : s'.pg.orders.get m.order.id = none) :
    s'.Awaiting m := by
  obtain ⟨⟨p,hp,hps⟩,_,hmakers,hn⟩ := h
  refine ⟨⟨p,hsub p hp,hps⟩,hfresh,fun lt hlt => ?_,hn⟩
  obtain ⟨hpos,hne,q,hq,hqid⟩ := hmakers lt hlt
  exact ⟨hpos,hne,q,hsub q hq,hqid⟩

lemma Pipeline.pendingFill_fresh (haw : ∀ m ∈ s.pending, s.Awaiting m) {id : Uuid}
    (hid : ∀ p ∈ s.exchange.submitted, p.id ≠ id) : s.pendingFill id = 0 := by
  refine List.sum_eq_zero (fun x hx => ?_)
  obtain ⟨m,hm,rfl⟩ := List.mem_map.mp hx
  refine Matched.fillOf_of_notMem (fun lt hlt he => ?_)
  obtain ⟨p,hp,hpid⟩ := ((haw m hm).makers lt hlt).2.2
  exact hid p hp (hpid.trans he)

lemma Pipeline.fills_nonneg (haw : ∀ m ∈ s.pending, s.Awaiting m) {jobs : List Matched}
    (hsub : ∀ x ∈ jobs, x ∈ s.pending) (id : Uuid) : 0 ≤ (jobs.map (fun m => m.fillOf id)).sum := by
  refine List.sum_nonneg (fun q hq => ?_)
  obtain ⟨x,hx,rfl⟩ := List.mem_map.mp hq
  exact Matched.fillOf_nonneg (fun lt hlt => ((haw x (hsub x hx)).makers lt hlt).1) id

lemma Pipeline.pendingFill_append (e : Exchange) (pg : Postgres) (jobs : List Matched) (m : Matched) (id : Uuid) :
    Pipeline.pendingFill ⟨e,pg,jobs ++ [m]⟩ id = (jobs.map (fun m => m.fillOf id)).sum + m.fillOf id := by
  simp [Pipeline.pendingFill]

lemma Pipeline.pending_nodup (haw : ∀ m ∈ s.pending, s.Awaiting m) (hn : (s.pending.map (fun m => m.order.id)).Nodup)
    (hid : ∀ p ∈ s.exchange.submitted, p.id ≠ m.order.id) : ((s.pending ++ [m]).map (fun m => m.order.id)).Nodup := by
  simp only [List.map_append, List.nodup_append]
  refine ⟨hn,by simp,?_⟩
  intro x hx y hy hxy
  obtain ⟨x',hx',rfl⟩ := List.mem_map.mp hx
  obtain rfl : y = m.order.id := by simpa using hy
  obtain ⟨p,hp,hpid,_⟩ := (haw x' hx').source
  exact hid p hp (hpid.trans hxy)

lemma Pipeline.awaiting_new {o : Order} {asset : String} {amount : ℤ} (hacc : s.exchange.Accounted)
    (hrows : ∀ id r, s.pg.orders.get id = some r → ∃ p ∈ s.exchange.submitted, p.id = id ∧ p.userId = r.userId)
    (hfresh : ∀ p ∈ s.exchange.submitted, p.id ≠ o.id)
    (hm : m.Result o (matchArgs o asset amount) ((matchArgs o asset amount).planOn s.exchange.db)) :
    Pipeline.Awaiting ⟨s.exchange.submit o asset amount,s.pg,s.pending ++ [m]⟩ m := by
  have hsub : (s.exchange.submit o asset amount).submitted = s.exchange.submitted ++ [o] := rfl
  have hid : m.order.id = o.id := by rw [hm.order]
  refine ⟨⟨o,by simp [hsub],hid.symm,by rw [hm.order]⟩,?_,fun lt hlt => ?_,?_⟩
  · refine Option.eq_none_iff_forall_ne_some.mpr (fun r hrow => ?_)
    obtain ⟨p,hp,hpid,_⟩ := hrows _ r hrow
    exact hfresh p hp (hpid.trans hid)
  · rw [hm.luaTrades] at hlt
    obtain ⟨t,ht,rfl⟩ := List.mem_map.mp hlt
    obtain ⟨r,q,hv,rfl⟩ := Plan.mem_trades.mp ht
    obtain ⟨hvalid,ho,_⟩ := planOn_visit hv
    obtain ⟨p,hp,hpid,_⟩ := hacc.source _ _ ho
    have hr : (ScriptTrade.toLuaTrade ((matchArgs o asset amount).trade r.hash r.id q)).restingOrderId = p.id := hpid.symm
    refine ⟨i64ToDecimal_pos.mpr (hvalid.fill q rfl).1,?_,p,by simp [hsub, hp],hr.symm⟩
    rw [hr, hid]
    exact hfresh p hp
  · rw [hm.luaTrades, List.map_map]
    exact Plan.trades_restingIds_nodup (planOn_ids_nodup _ _)

end Pending

/-! ### A request -/

section Request
variable {s : Pipeline} {o : Order} {asset : String} {amount : ℤ}

lemma Pipeline.Inv.planOn_fills (hi : s.Inv) (hA : s.Admits o) (asset : String) (amount : ℤ) :
    ((matchArgs o asset amount).planOn s.exchange.db).stpCancelled = false ∧
    ∀ v ∈ ((matchArgs o asset amount).planOn s.exchange.db).visits, ∃ q, v.action = .fill q := by
  refine plan_all_fill (fun r hr => ?_)
  obtain ⟨p,hp,_,hhash⟩ := hi.accounted.source r.id r.hash (mem_resting.mp hr).2
  have huser : (matchArgs o asset amount).userId ≠ r.hash.userId := by
    rw [hhash]
    exact (hA.user p hp).symm
  unfold MatchArgs.stpAction
  rw [if_neg huser]

/-- An order that is still short of its quantity keeps its hash through the call. -/
lemma Pipeline.Inv.order_submit_ne_none (hi : s.Inv) (hA : s.Admits o) {db₁ : Valkey}
    (hl : lockBalance s.exchange.db (matchArgs o asset amount) = some db₁) {q : Order}
    (hq : q ∈ s.exchange.submitted) (ho : s.exchange.db.order q.id ≠ none)
    (hshort : (s.exchange.submit o asset amount).tradedI q.id < q.qtyI) :
    (s.exchange.submit o asset amount).db.order q.id ≠ none := by
  obtain ⟨h,hh⟩ := Option.ne_none_iff_exists'.mp ho
  have hne : q.id ≠ o.id := hA.id q hq
  rw [tradedI_submit hl, if_neg hne] at hshort
  have hrem := hi.accounted.remaining q.id h hh
  rw [hi.accounted.qtyI_eq hq hh] at hrem
  rw [submit_of_lock hl]
  by_cases hx : ∃ v ∈ ((matchArgs o asset amount).planOn s.exchange.db).visits, v.id = q.id
  · obtain ⟨v,hv,hid⟩ := hx
    obtain ⟨f,hf⟩ := (hi.planOn_fills hA asset amount).2 v hv
    have hhash : v.resting.hash = h := by
      have hvo := (planOn_visit hv).2.1
      rw [hid, hh] at hvo
      exact (Option.some.inj hvo).symm
    have hfilled : ((matchArgs o asset amount).planOn s.exchange.db).filledOf q.id = f := by
      rw [← hid, Plan.filledOf_of_mem (planOn_ids_nodup _ _) hv, Visit.filledI, hf]
    have hafter : ((matchArgs o asset amount).settle db₁ ((matchArgs o asset amount).planOn s.exchange.db)).order v.id =
        v.outcome := settle_order_visited hv (fun _ => hid ▸ hne)
    rw [← hid, hafter, Visit.outcome, hf]
    simp only [hhash]
    rw [if_neg (by omega)]
    simp
  · push Not at hx
    rw [settle_order_unvisited hl hx (fun _ => hne), hh]
    simp

lemma filledOf_of_order_none {db : Valkey} {a : MatchArgs} {id : Uuid} (h : db.order id = none) :
    (a.planOn db).filledOf id = 0 :=
  Plan.filledOf_of_notMem (planOn_visit_ne h)

lemma Plan.remainingI_of_filled {a : MatchArgs} {p : Plan} (h : p.status a = .filled) : p.remainingI ≤ 0 := by
  by_contra hpos
  cases hs : p.stpCancelled with
  | true =>
    rw [Plan.status_of_stopped hs] at h
    cases h
  | false =>
    rw [Plan.status_of_pos hs (not_le.mp hpos)] at h
    split_ifs at h

/-- Requests keep the records of older orders: what the book loses becomes a pending fill. -/
lemma Pipeline.Records.request (hi : s.Inv) (hA : s.Admits o) {db₁ : Valkey} {m : Matched}
    (hl : lockBalance s.exchange.db (matchArgs o asset amount) = some db₁)
    (hm : m.Result o (matchArgs o asset amount) ((matchArgs o asset amount).planOn s.exchange.db)) {q row : Order}
    (hq : q ∈ s.exchange.submitted) (h : s.Records q row) :
    Pipeline.Records ⟨s.exchange.submit o asset amount,s.pg,s.pending ++ [m]⟩ q row := by
  have hne : q.id ≠ o.id := hA.id q hq
  have htraded := tradedI_submit hl q.id
  rw [if_neg hne] at htraded
  have hpend : Pipeline.pendingFill ⟨s.exchange.submit o asset amount,s.pg,s.pending ++ [m]⟩ q.id =
      s.pendingFill q.id + i64ToDecimal (((matchArgs o asset amount).planOn s.exchange.db).filledOf q.id) := by
    rw [Pipeline.pendingFill_append, hm.fillOf]
    rfl
  refine ⟨?_,?_⟩
  · rw [h.remaining, hpend, htraded]
    simp only [i64ToDecimal_sub, i64ToDecimal_add]
    ring
  · rcases h.status with ⟨hopen,hpos,hrest⟩ | hfilled | ⟨hcancel,hnone,hzero⟩
    · refine .inl ⟨hopen,hpos,fun hshort => hi.order_submit_ne_none hA hl hq (hrest ?_) hshort⟩
      have hnn : 0 ≤ ((matchArgs o asset amount).planOn s.exchange.db).filledOf q.id := Plan.filledOf_nonneg _ _ _
      simp only [htraded] at hshort
      omega
    · exact .inr (.inl hfilled)
    · refine .inr (.inr ⟨hcancel,submit_order_none hnone hne,?_⟩)
      rw [hpend, filledOf_of_order_none hnone, hzero]
      simp

lemma Pipeline.Inv.records_new (hi : s.Inv) (hA : s.Admits o) (hf : o.tif ≠ .fok) {db₁ : Valkey} {m : Matched}
    (hl : lockBalance s.exchange.db (matchArgs o asset amount) = some db₁)
    (hm : m.Result o (matchArgs o asset amount) ((matchArgs o asset amount).planOn s.exchange.db)) :
    Pipeline.Records ⟨s.exchange.submit o asset amount,s.pg,s.pending ++ [m]⟩ o m.order := by
  set a := matchArgs o asset amount with ha
  obtain ⟨hnn,hsum⟩ := planOn_account_of_fills (show 0 ≤ a.qtyI from hA.scale.qty_pos.le)
    (hi.planOn_fills hA asset amount).1
  have hqty : a.qtyI = o.qtyI := rfl
  have hfresh : s.exchange.db.order o.id = none := hi.accounted.order_fresh hA.id
  have htraded : (s.exchange.submit o asset amount).tradedI o.id = (a.planOn s.exchange.db).filledI := by
    rw [tradedI_submit hl, if_pos rfl, hi.accounted.tradedI_fresh hA.id, zero_add]
  have hpend : Pipeline.pendingFill ⟨s.exchange.submit o asset amount,s.pg,s.pending ++ [m]⟩ o.id = 0 := by
    have hold : (s.pending.map (fun m => m.fillOf o.id)).sum = 0 := Pipeline.pendingFill_fresh hi.awaiting hA.id
    rw [Pipeline.pendingFill_append, hold, hm.fillOf, filledOf_of_order_none hfresh]
    simp
  have hrem : m.order.remaining = i64ToDecimal (a.planOn s.exchange.db).remainingI := by rw [hm.order]
  have hst : m.order.status = (a.planOn s.exchange.db).status a := by rw [hm.order]
  refine ⟨?_,?_⟩
  · rw [hrem, hpend, add_zero]
    congr 1
    rw [htraded]
    omega
  · by_cases hrests : (a.planOn s.exchange.db).Rests a
    · have hpos : 0 < (a.planOn s.exchange.db).remainingI := hrests.2.1
      refine .inl ⟨?_,?_,fun _ => ?_⟩
      · rw [hst]
        exact hrests.isOpen
      · rw [hrem]
        exact i64ToDecimal_pos.mpr hpos
      · simp only
        rw [submit_of_lock hl, settle_order, if_pos ⟨hrests,rfl⟩]
        simp
    · rcases Plan.status_final_of_not_rests hf hrests with hfin | hfin
      · refine .inr (.inl ⟨hst.trans hfin,?_⟩)
        rw [hrem, le_antisymm (Plan.remainingI_of_filled hfin) hnn, i64ToDecimal_zero]
      · refine .inr (.inr ⟨hst.trans hfin,?_,hpend⟩)
        simp only
        rw [submit_of_lock hl, settle_order_unvisited hl (planOn_visit_ne hfresh) (fun hr => absurd hr hrests), hfresh]

theorem Pipeline.Inv.request (hi : s.Inv) (hA : s.Admits o) (hf : o.tif ≠ .fok) {db₁ : Valkey} {m : Matched}
    (hl : lockBalance s.exchange.db (matchArgs o asset amount) = some db₁)
    (hm : m.Result o (matchArgs o asset amount) ((matchArgs o asset amount).planOn s.exchange.db)) :
    Pipeline.Inv ⟨s.exchange.submit o asset amount,s.pg,s.pending ++ [m]⟩ := by
  have hsub : (s.exchange.submit o asset amount).submitted = s.exchange.submitted ++ [o] := rfl
  have hgrow : ∀ p ∈ s.exchange.submitted, p ∈ (s.exchange.submit o asset amount).submitted :=
    fun p hp => by simp [hsub, hp]
  have hid : m.order.id = o.id := by rw [hm.order]
  constructor
  · exact hi.represented.submit hi.accounted hA.id hA.scale.qty_pos.le
  · exact hi.accounted.submit hA.id hA.scale.qty_pos.le
  · simp only [hsub, List.map_append, List.nodup_append]
    refine ⟨hi.users,by simp,?_⟩
    intro x hx y hy hxy
    obtain ⟨p,hp,rfl⟩ := List.mem_map.mp hx
    obtain rfl : y = o.userId := by simpa using hy
    exact hA.user p hp hxy
  · intro p hp
    rcases List.mem_append.mp (hsub ▸ hp) with hp | hp
    · exact hi.grid p hp
    · obtain rfl := List.mem_singleton.mp hp
      exact hA.grid
  · intro x hx
    rcases List.mem_append.mp hx with hx | hx
    · exact (hi.awaiting x hx).mono hgrow (hi.awaiting x hx).fresh
    · obtain rfl := List.mem_singleton.mp hx
      exact Pipeline.awaiting_new hi.accounted hi.rows hA.id hm
  · exact Pipeline.pending_nodup hi.awaiting hi.nodup (hid ▸ hA.id)
  · intro id r hr
    obtain ⟨p,hp,hps⟩ := hi.rows id r hr
    exact ⟨p,hgrow p hp,hps⟩
  · intro p hp
    rcases List.mem_append.mp (hsub ▸ hp) with hp | hp
    · rcases hi.recorded p hp with ⟨r,hr,hrec⟩ | ⟨x,hx,hxid,hrec⟩
      · exact .inl ⟨r,hr,hrec.request hi hA hl hm hp⟩
      · exact .inr ⟨x,List.mem_append_left _ hx,hxid,hrec.request hi hA hl hm hp⟩
    · obtain rfl := List.mem_singleton.mp hp
      exact .inr ⟨m,by simp,hid,hi.records_new hA hf hl hm⟩

end Request

/-! ### A commit -/

section Commit
variable {s : Pipeline} {m : Matched} {rest : List Matched} {pg : Postgres}

lemma Pipeline.Inv.clientOrderId_free (hi : s.Inv) (hm : m ∈ s.pending) :
    s.pg.clientOrderIdTaken m.order = false := by
  rw [Bool.eq_false_iff]
  intro htaken
  simp only [Postgres.clientOrderIdTaken, Bool.and_eq_true, List.any_eq_true, decide_eq_true_eq] at htaken
  obtain ⟨_,⟨id,r⟩,hr,huser,_⟩ := htaken
  have hget := Table.get_of_mem hr
  obtain ⟨p,hp,hpid,hpu⟩ := hi.rows id r hget
  obtain ⟨o,ho,hoid,hou⟩ := (hi.awaiting m hm).source
  obtain rfl := List.inj_on_of_nodup_map hi.users hp ho ((hpu.trans huser).trans hou.symm)
  rw [← hpid, hoid, (hi.awaiting m hm).fresh] at hget
  cases hget

lemma Pipeline.pendingFill_commit (hperm : s.pending.Perm (m :: rest)) (pg : Postgres) (id : Uuid) :
    s.pendingFill id = m.fillOf id + Pipeline.pendingFill ⟨s.exchange,pg,rest⟩ id := by
  unfold Pipeline.pendingFill
  rw [(hperm.map (fun m => m.fillOf id)).sum_eq, List.map_cons, List.sum_cons]


lemma Pipeline.Records.commit_of_unfilled (hperm : s.pending.Perm (m :: rest)) {o row row' : Order}
    (h : s.Records o row) (hrem : row'.remaining = row.remaining) (hst : row'.status = row.status)
    (hz : m.fillOf o.id = 0) (pg : Postgres) : Pipeline.Records ⟨s.exchange,pg,rest⟩ o row' := by
  have hp := Pipeline.pendingFill_commit hperm pg o.id
  rw [hz, zero_add] at hp
  exact ⟨by rw [hrem, h.remaining, hp],by rw [hrem, hst, ← hp]; exact h.status⟩

lemma Pipeline.Records.commit_fill (hi : s.Inv) (hperm : s.pending.Perm (m :: rest)) {o row : Order}
    (ho : o ∈ s.exchange.submitted) (h : s.Records o row) (hpos : 0 < m.fillOf o.id) (pg : Postgres) :
    Pipeline.Records ⟨s.exchange,pg,rest⟩ o (fillRow (m.fillOf o.id) row) := by
  have hp := Pipeline.pendingFill_commit hperm pg o.id
  have hrest : 0 ≤ Pipeline.pendingFill ⟨s.exchange,pg,rest⟩ o.id :=
    Pipeline.fills_nonneg hi.awaiting (fun x hx => hperm.mem_iff.mpr (List.mem_cons_of_mem m hx)) o.id
  have htrue : 0 ≤ i64ToDecimal (o.qtyI - s.exchange.tradedI o.id) := by
    rw [← i64ToDecimal_zero, i64ToDecimal_le_iff]
    have := hi.accounted.traded_le o ho
    omega
  have hge : 0 ≤ row.remaining - m.fillOf o.id := by
    rw [h.remaining, hp]
    linarith
  rcases h.status with ⟨hopen,_,hresting⟩ | ⟨_,hz⟩ | ⟨_,_,hz⟩
  · have hrow : fillRow (m.fillOf o.id) row = { row with
        remaining := row.remaining - m.fillOf o.id
        status := if row.remaining - m.fillOf o.id = 0 then .filled else .partiallyFilled
        version := row.version + 1 } := by
      simp only [fillRow, if_pos hopen, max_eq_left hge]
    rw [hrow]
    refine ⟨?_,?_⟩
    · simp only
      rw [h.remaining, hp]
      ring
    · by_cases hzero : row.remaining - m.fillOf o.id = 0
      · exact .inr (.inl ⟨by simp [hzero],hzero⟩)
      · exact .inl ⟨by simp [hzero, OrderStatus.IsOpen],lt_of_le_of_ne hge (Ne.symm hzero),hresting⟩
  · -- a filled or cancelled order has no pending fill
    rw [hz] at hge
    linarith
  · rw [hz] at hp
    linarith

lemma Pipeline.Inv.rows_commit (hi : s.Inv) (hm : m ∈ s.pending) (h : s.pg.persistOrder m = .ok pg) (id : Uuid)
    (r : Order) (hr : pg.orders.get id = some r) :
    ∃ o ∈ s.exchange.submitted, o.id = id ∧ o.userId = r.userId := by
  obtain ⟨deltas,_,horders,_,_⟩ := Postgres.persistOrder_ok h
  have hw := hi.awaiting m hm
  rw [horders, Postgres.ordersAfterPersist_get hw.fresh (hi.clientOrderId_free hm)
    (fun lt hlt => (hw.makers lt hlt).2.1)] at hr
  split_ifs at hr with hid hopen
  · cases hr
    obtain ⟨o,ho,hoid,hou⟩ := hw.source
    exact ⟨o,ho,hoid.trans hid.symm,hou⟩
  · cases hr
    obtain ⟨o,ho,hoid,hou⟩ := hw.source
    exact ⟨o,ho,hoid.trans hid.symm,hou⟩
  · obtain ⟨r₀,hr₀,rfl⟩ := Option.map_eq_some_iff.mp hr
    obtain ⟨o,ho,hoid,hou⟩ := hi.rows id r₀ hr₀
    refine ⟨o,ho,hoid,hou.trans ?_⟩
    cases (m.luaTrades.map (fun lt => (lt.restingOrderId,lt.quantity))).lookup id with
    | none => rfl
    | some q => exact (fillRow_keeps q r₀).1.symm

/-- A commit turns the pending record of its order into a row and brings its makers up to date. -/
lemma Pipeline.Inv.recorded_commit (hi : s.Inv) (hperm : s.pending.Perm (m :: rest)) (hready : s.pg.MakersRecorded m)
    (h : s.pg.persistOrder m = .ok pg) {o : Order} (ho : o ∈ s.exchange.submitted) :
    (∃ r, pg.orders.get o.id = some r ∧ Pipeline.Records ⟨s.exchange,pg,rest⟩ o r) ∨
    ∃ x ∈ rest, x.order.id = o.id ∧ Pipeline.Records ⟨s.exchange,pg,rest⟩ o x.order := by
  have hm : m ∈ s.pending := hperm.mem_iff.mpr (List.mem_cons_self ..)
  have hw := hi.awaiting m hm
  obtain ⟨deltas,_,horders,_,_⟩ := Postgres.persistOrder_ok h
  have hget := Postgres.ordersAfterPersist_get hw.fresh (hi.clientOrderId_free hm)
    (fun lt hlt => (hw.makers lt hlt).2.1) o.id
  rw [← horders] at hget
  rcases hi.recorded o ho with ⟨r,hr,hrec⟩ | ⟨x,hx,hxid,hrec⟩
  · have hne : o.id ≠ m.order.id := by
      intro he
      rw [he, hw.fresh] at hr
      cases hr
    rw [if_neg hne, hr, Option.map_some] at hget
    have hfill := Matched.fillOf_eq_lookup hw.nodup o.id
    left
    cases hlook : (m.luaTrades.map (fun lt => (lt.restingOrderId,lt.quantity))).lookup o.id with
    | none =>
      rw [hlook] at hget hfill
      exact ⟨r,hget,hrec.commit_of_unfilled hperm rfl rfl hfill pg⟩
    | some q =>
      rw [hlook] at hget hfill
      have hq : 0 < m.fillOf o.id := by
        obtain ⟨lt,hlt,he⟩ := List.mem_map.mp (Table.mem_of_lookup hlook)
        rw [hfill, Option.getD_some, ← (Prod.mk.inj he).2]
        exact (hw.makers lt hlt).1
      rw [Option.getD_some] at hfill
      refine ⟨_,hget,?_⟩
      rw [Option.elim_some, ← hfill]
      exact hrec.commit_fill hi hperm ho hq pg
  · rcases List.mem_cons.mp (hperm.mem_iff.mp hx) with rfl | hxr
    · left
      rw [if_pos hxid.symm] at hget
      have hself : x.fillOf o.id = 0 :=
        Matched.fillOf_of_notMem (fun lt hlt => hxid ▸ (hw.makers lt hlt).2.1)
      refine ⟨_,hget,hrec.commit_of_unfilled hperm ?_ ?_ hself pg⟩
      · split_ifs <;> rfl
      · split_ifs <;> rfl
    · right
      -- its makers have rows, so an order still pending is none of them
      have hz : m.fillOf o.id = 0 := by
        refine Matched.fillOf_of_notMem (fun lt hlt he => ?_)
        have hsome := hready lt hlt
        rw [he, ← hxid, (hi.awaiting x hx).fresh] at hsome
        cases hsome
      exact ⟨x,hxr,hxid,hrec.commit_of_unfilled hperm rfl rfl hz pg⟩

theorem Pipeline.Inv.commit (hi : s.Inv) (hperm : s.pending.Perm (m :: rest)) (hready : s.pg.MakersRecorded m)
    (h : s.pg.persistOrder m = .ok pg) : Pipeline.Inv ⟨s.exchange,pg,rest⟩ := by
  have hm : m ∈ s.pending := hperm.mem_iff.mpr (List.mem_cons_self ..)
  have hw := hi.awaiting m hm
  have hnodup := (hperm.map (fun m => m.order.id)).nodup_iff.mp hi.nodup
  rw [List.map_cons, List.nodup_cons] at hnodup
  refine ⟨hi.represented,hi.accounted,hi.users,hi.grid,fun x hx => ?_,hnodup.2,hi.rows_commit hm h,
    fun o ho => hi.recorded_commit hperm hready h ho⟩
  have hx' := hi.awaiting x (hperm.mem_iff.mpr (List.mem_cons_of_mem m hx))
  refine hx'.mono (fun _ hp => hp) ?_
  have hne : x.order.id ≠ m.order.id := fun he => hnodup.1 (List.mem_map.mpr ⟨x,hx,he⟩)
  obtain ⟨deltas,_,horders,_,_⟩ := Postgres.persistOrder_ok h
  rw [horders, Postgres.ordersAfterPersist_get hw.fresh (hi.clientOrderId_free hm)
    (fun lt hlt => (hw.makers lt hlt).2.1), if_neg hne, hx'.fresh]
  rfl

end Commit

/-! ### Runs -/

theorem Pipeline.Reachable.inv {pairs : PairsCache} {s : Pipeline} (h : s.Reachable pairs Postgres.MakersRecorded) :
    s.Inv := by
  obtain ⟨db,pg,hbook,horders,hrun⟩ := h
  induction hrun with
  | refl =>
    have hreach : MatchingEngine.Reachable (fun _ o => 0 ≤ o.qtyI) ⟨db,[],[]⟩ := ⟨db,hbook,.refl⟩
    obtain ⟨hr,hs⟩ := hreach.invariant (fun _ _ h => h)
    refine ⟨hr,hs,by simp,by simp,by simp,by simp,?_,by simp⟩
    intro id r hget
    rw [horders] at hget
    cases hget
  | tail _ hstep ih =>
    cases hstep with
    | request msg d hadm h =>
      obtain ⟨o,asset,amount,m,db₁,ha,hf,hl,hm,rfl⟩ := Pipeline.request_eq_some h
      exact ih.request (hadm o (by rw [ha]; rfl)) hf hl hm
    | commit i hready h =>
      obtain ⟨m,rest,pg,hget,hperm,hp,rfl⟩ := Pipeline.commit_eq_some h
      exact ih.commit hperm (hready m hget) hp

/-- When nothing is pending, every accepted order has a row that is not behind the book. -/
lemma Pipeline.Inv.row_of_done {s : Pipeline} (hi : s.Inv) (hdone : s.pending = []) {o : Order}
    (ho : o ∈ s.exchange.submitted) : ∃ r, s.pg.orders.get o.id = some r ∧ s.Records o r ∧
      r.remaining = i64ToDecimal (o.qtyI - s.exchange.tradedI o.id) := by
  rcases hi.recorded o ho with ⟨r,hr,hrec⟩ | ⟨m,hm,_⟩
  · refine ⟨r,hr,hrec,?_⟩
    rw [hrec.remaining, Pipeline.pendingFill, hdone]
    simp
  · rw [hdone] at hm
    cases hm

/-- In every interleaving of script runs and commits in which each transaction commits after
the rows of its makers exist, rows and book agree whenever nothing is pending. -/
theorem committed_rows_agree {pairs : PairsCache} {s : Pipeline} (h : s.Reachable pairs Postgres.MakersRecorded)
    (hdone : s.pending = []) : s.Agrees := by
  have hi := h.inv
  constructor
  · intro pair side id hid
    obtain ⟨w,hw,_⟩ := hi.represented.order_of_mem hid
    obtain ⟨o,ho,rfl,_⟩ := hi.accounted.source id w hw
    obtain ⟨r,hr,hrec,hrem⟩ := hi.row_of_done hdone ho
    have hwrem : w.remainingI = o.qtyI - s.exchange.tradedI o.id := by
      rw [hi.accounted.remaining o.id w hw, hi.accounted.qtyI_eq ho hw]
    refine ⟨w,r,hw,hr,by rw [hrem, hwrem],?_⟩
    rcases hrec.status with ⟨hopen,_⟩ | ⟨_,hz⟩ | ⟨_,hnone,_⟩
    · exact hopen
    · have hpos := (hi.represented.remaining o.id w hw).1
      rw [hwrem, ← i64ToDecimal_pos, ← hrem, hz] at hpos
      exact absurd hpos (lt_irrefl _)
    · rw [hw] at hnone
      cases hnone
  · intro o ho hout
    obtain ⟨r,hr,hrec,hrem⟩ := hi.row_of_done hdone ho
    have hnone : s.exchange.db.order o.id = none := by
      refine Option.eq_none_iff_forall_ne_some.mpr (fun w hw => ?_)
      obtain ⟨p,hp,hpid,hhash⟩ := hi.accounted.source o.id w hw
      obtain rfl := List.inj_on_of_nodup_map hi.accounted.nodup hp ho hpid
      have hmem := (hi.represented.member p.id w hw).2
      rw [hhash] at hmem
      exact hout _ hmem
    refine ⟨r,hr,?_,by rw [hrem, i64ToDecimal_sub, hi.grid o ho]⟩
    rcases hrec.status with ⟨_,hpos,hrest⟩ | ⟨hfilled,_⟩ | ⟨hcancel,_⟩
    · rw [hrem, i64ToDecimal_pos] at hpos
      exact absurd hnone (hrest (by omega))
    · exact .inl hfilled
    · exact .inr hcancel

/-- Alice's offer and Bob's purchase of it, both matched and not committed. -/
def bothMatched : Pipeline :=
  let start : Pipeline := ⟨⟨(Session.funded (10 ^ 12)).sys.db,[],[]⟩,.empty,[]⟩
  let offered := (start.request btcUsdt (limitMsg 1 "alice" .sell 100 1) ⟨0,fun _ => 10,0⟩).getD start
  (offered.request btcUsdt (limitMsg 2 "bob" .buy 100 1) ⟨0,fun _ => 20,0⟩).getD offered

/-- Both transactions, given by their places among the pending ones. -/
def bothCommitted (i j : ℕ) : Pipeline :=
  let s := (bothMatched.commit i).getD bothMatched
  (s.commit j).getD s

lemma bothMatched_reachable (Ready : Postgres → Matched → Prop) : bothMatched.Reachable btcUsdt Ready := by
  refine ⟨(Session.funded (10 ^ 12)).sys.db,.empty,⟨fun _ _ => rfl,fun _ => rfl⟩,rfl,
    (Relation.ReflTransGen.refl.tail (.request (limitMsg 1 "alice" .sell 100 1) ⟨0,fun _ => 10,0⟩ ?_
      (Option.getD_of_ne_none ?_ _).symm)).tail (.request (limitMsg 2 "bob" .buy 100 1) ⟨0,fun _ => 20,0⟩ ?_
      (Option.getD_of_ne_none ?_ _).symm)⟩
  all_goals decide +kernel

/-- Committed in the order of the script runs, both rows end filled. -/
theorem rows_agree_maker_first :
    (∀ o ∈ (bothCommitted 0 0).exchange.submitted, ∃ r ∈ (bothCommitted 0 0).pg.orders.get o.id, r.status = .filled) ∧
    (bothCommitted 0 0).Agrees := by
  obtain ⟨db,pg,hbook,horders,hrun⟩ := bothMatched_reachable Postgres.MakersRecorded
  refine ⟨by decide +kernel,committed_rows_agree ⟨db,pg,hbook,horders,(hrun.tail (.commit 0 ?_
    (Option.getD_of_ne_none ?_ _).symm)).tail (.commit 0 ?_ (Option.getD_of_ne_none ?_ _).symm)⟩ ?_⟩
  all_goals decide +kernel

/-- Committed the other way round, Bob's update finds no row, and Alice's insert then records
her order as new although it has been filled. -/
theorem rows_stale_taker_first : ∃ (pairs : PairsCache) (s : Pipeline), s.Reachable pairs (fun _ _ => True) ∧
    s.pending = [] ∧ ¬ s.Agrees := by
  obtain ⟨db,pg,hbook,horders,hrun⟩ := bothMatched_reachable (fun _ _ => True)
  refine ⟨btcUsdt,bothCommitted 1 0,⟨db,pg,hbook,horders,(hrun.tail (.commit 1 (fun _ _ => trivial)
    (Option.getD_of_ne_none ?_ _).symm)).tail (.commit 0 (fun _ _ => trivial) (Option.getD_of_ne_none ?_ _).symm)⟩,?_,?_⟩
  · decide +kernel
  · decide +kernel
  · decide +kernel
  · intro h
    obtain ⟨o,ho,hbuy,hsell,hrow⟩ : ∃ o ∈ (bothCommitted 1 0).exchange.submitted,
        o.id ∉ (bothCommitted 1 0).exchange.db.book o.pairId .buy ∧
        o.id ∉ (bothCommitted 1 0).exchange.db.book o.pairId .sell ∧
        ∀ r ∈ (bothCommitted 1 0).pg.orders.get o.id, ¬ r.status.IsFinal := by decide +kernel
    obtain ⟨r,hr,hfinal,_⟩ := h.done o ho (fun side => by cases side <;> assumption)
    exact hrow r hr hfinal

end MatchingEngine

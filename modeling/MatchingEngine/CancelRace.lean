import MatchingEngine.CancelledMakers
import MatchingEngine.PersistEquivalence

/-! A cancel against the matches. `process_cancellation` reads the order's row, removes the order
from the book, marks the row and releases the reservation, one store access after the other.
Script runs and persist transactions of any other requests may come in between. The numbers of their
replies are below `10^14`, where they are read as they were printed. -/
namespace MatchingEngine
open Library

/-- How far the cancel of an order has come: the row it read, and the matcher's side before the
row was read (`seen`) and before the order was removed (`left`). -/
inductive CancelPhase
  | idle
  | read (row : Order) (seen : Exchange)
  | removed (row : Order) (seen left : Exchange)
  | marked (row : Order) (seen left : Exchange)
  | released (row : Order) (seen left : Exchange)
  | refused

namespace CancelPhase

def Done : CancelPhase → Prop
  | released _ _ _ => True
  | refused => True
  | _ => False

instance : (p : CancelPhase) → Decidable p.Done
  | released _ _ _ => inferInstanceAs (Decidable True)
  | refused => inferInstanceAs (Decidable True)
  | idle => inferInstanceAs (Decidable False)
  | read _ _ => inferInstanceAs (Decidable False)
  | removed _ _ _ => inferInstanceAs (Decidable False)
  | marked _ _ _ => inferInstanceAs (Decidable False)

/-- The cancel has been to the book. -/
def Left : CancelPhase → Prop
  | removed _ _ _ => True
  | marked _ _ _ => True
  | released _ _ _ => True
  | _ => False

/-- The cancel has read a row. -/
def Active : CancelPhase → Prop
  | idle => False
  | refused => False
  | _ => True

/-- The row that was read showed every trade of the order, and none was added before the order
left the book. -/
def Timely (o : Order) : CancelPhase → Prop
  | released row seen left =>
    row.remaining = i64ToDecimal (o.qtyI - seen.tradedI o.id) ∧ left.tradedI o.id = seen.tradedI o.id
  | _ => True

instance (o : Order) : (p : CancelPhase) → Decidable (p.Timely o)
  | released _ _ _ => inferInstanceAs (Decidable (_ ∧ _))
  | idle => inferInstanceAs (Decidable True)
  | read _ _ => inferInstanceAs (Decidable True)
  | removed _ _ _ => inferInstanceAs (Decidable True)
  | marked _ _ _ => inferInstanceAs (Decidable True)
  | refused => inferInstanceAs (Decidable True)

end CancelPhase

/-- Requests in flight together with the cancels in flight, at most one for each order. -/
structure Race extends Pipeline where
  cancels : Uuid → CancelPhase

namespace Race

/-- The next step of the cancel of an order. -/
def advance (s : Race) (id : Uuid) (userId : String) : Race :=
  let next := Function.update s.cancels id
  match s.cancels id with
  | .idle =>
    match Api.cancellable s.pg id userId with
    | none => { s with cancels := next .refused }
    | some row => { s with cancels := next (.read row s.exchange) }
  | .read row seen =>
    { s with exchange := s.exchange.remove { row with id := id }, cancels := next (.removed row seen s.exchange) }
  | .removed row seen left => { s with pg := Api.markCancelled s.pg id, cancels := next (.marked row seen left) }
  | .marked row seen left =>
    { s with pg := Api.releaseCancelled s.pg userId row, cancels := next (.released row seen left) }
  | .released _ _ _ => s
  | .refused => s

/-- A script run at the gateway or at the api worker, a persist transaction of either, or a step
of a cancel, which is on behalf of `user`. -/
inductive Step (pairs : PairsCache) (user : Uuid → String) : Race → Race → Prop
  | gateway {s : Race} {p : Pipeline} (msg : QueuedOrderMsg) (d : Draws)
      (fresh : ∀ o ∈ (Gateway.acceptOrder pairs msg d).toOption, ∀ p ∈ s.exchange.submitted, p.id ≠ o.id)
      (h : s.request pairs msg d = some p) : Step pairs user s ⟨p,s.cancels⟩
  | api {s : Race} {job : PersistJob} {msg : QueuedOrderMsg} {d : Draws} {o : Order} {asset : String} {amount : ℤ}
      (hparse : Api.parseOrder msg d.now = .ok o) (hlock : lockParams o = .ok (asset,amount))
      (fresh : ∀ p ∈ s.exchange.submitted, p.id ≠ o.id) (hqty : 0 < o.quantity)
      (hjob : Api.persistJob pairs s.exchange.db msg d = some job) :
      Step pairs user s ⟨⟨s.exchange.submit o asset amount,s.pg,s.pending ++ [job]⟩,s.cancels⟩
  | commit {s : Race} {p : Pipeline} (i : ℕ) (h : s.commit i = some p) : Step pairs user s ⟨p,s.cancels⟩
  | batch {s : Race} {jobs rest : List PersistJob} {pg : Postgres} (hperm : s.pending.Perm (jobs ++ rest))
      (h : s.pg.processPersistBatch jobs = .ok pg) : Step pairs user s ⟨⟨s.exchange,pg,rest⟩,s.cancels⟩
  | cancel {s : Race} (id : Uuid) : Step pairs user s (s.advance id (user id))

/-- No request yet: an empty book and an empty orders table. -/
structure Initial (s : Race) : Prop where
  book : s.exchange.db.EmptyBook
  submitted : s.exchange.submitted = []
  fills : s.exchange.fills = []
  orders : s.pg.orders = Table.empty
  pending : s.pending = []
  cancels : ∀ id, s.cancels id = .idle

def Reachable (pairs : PairsCache) (user : Uuid → String) (s : Race) : Prop :=
  ∃ s₀ : Race, s₀.Initial ∧ Relation.ReflTransGen (Step pairs user) s₀ s

/-- The order rests in the book, its row is persisted, and nobody has cancelled it yet. -/
structure Cancellable (s : Race) (o : Order) : Prop where
  submitted : o ∈ s.exchange.submitted
  resting : s.exchange.db.order o.id ≠ none
  row : s.pg.orders.get o.id ≠ none
  idle : s.cancels o.id = .idle

end Race

section Advance
variable {s : Race} {id : Uuid} {userId : String} {row : Order} {seen left : Exchange}

lemma Race.advance_refuse (h : s.cancels id = .idle) (hc : Api.cancellable s.pg id userId = none) :
    s.advance id userId = { s with cancels := Function.update s.cancels id .refused } := by
  simp only [Race.advance, h, hc]

lemma Race.advance_read (h : s.cancels id = .idle) (hc : Api.cancellable s.pg id userId = some row) :
    s.advance id userId = { s with cancels := Function.update s.cancels id (.read row s.exchange) } := by
  simp only [Race.advance, h, hc]

lemma Race.advance_remove (h : s.cancels id = .read row seen) : s.advance id userId =
    { s with
      exchange := s.exchange.remove { row with id := id }
      cancels := Function.update s.cancels id (.removed row seen s.exchange) } := by
  simp only [Race.advance, h]

lemma Race.advance_mark (h : s.cancels id = .removed row seen left) : s.advance id userId =
    { s with
      pg := Api.markCancelled s.pg id
      cancels := Function.update s.cancels id (.marked row seen left) } := by
  simp only [Race.advance, h]

lemma Race.advance_release (h : s.cancels id = .marked row seen left) : s.advance id userId =
    { s with
      pg := Api.releaseCancelled s.pg userId row
      cancels := Function.update s.cancels id (.released row seen left) } := by
  simp only [Race.advance, h]

lemma Race.advance_done (h : (s.cancels id).Done) : s.advance id userId = s := by
  cases hc : s.cancels id with
  | idle => rw [hc] at h; cases h
  | read => rw [hc] at h; cases h
  | removed => rw [hc] at h; cases h
  | marked => rw [hc] at h; cases h
  | released => simp only [Race.advance, hc]
  | refused => simp only [Race.advance, hc]

end Advance

/-! ### Rows against the book -/

/-- A row with at least `due` left, on the fixed-point grid, and closed only when nothing is
left. -/
structure Order.Shows (row : Order) (due : Decimal) : Prop where
  grid : ∃ k, row.remaining = i64ToDecimal k
  due_le : due ≤ row.remaining
  status : row.status.IsOpen ∨ (row.status = .filled ∧ row.remaining = 0)

lemma Order.Shows.mono {row : Order} {due due' : Decimal} (h : row.Shows due) (hle : due' ≤ due) : row.Shows due' :=
  ⟨h.grid,hle.trans h.due_le,h.status⟩

lemma Order.Shows.congr {row row' : Order} {due : Decimal} (h : row.Shows due) (hrem : row'.remaining = row.remaining)
    (hst : row'.status = row.status) : row'.Shows due := by
  obtain ⟨hgrid,hdue,hstatus⟩ := h
  exact ⟨hrem ▸ hgrid,hrem ▸ hdue,by rw [hst, hrem]; exact hstatus⟩

lemma Order.Shows.fill {row : Order} {due q : Decimal} (h : row.Shows due) (hq : 0 ≤ q)
    (hgrid : ∃ k, q = i64ToDecimal k) : (fillRow q row).Shows (due - q) := by
  obtain ⟨⟨k,hk⟩,hdue,hst⟩ := h
  obtain ⟨j,rfl⟩ := hgrid
  unfold fillRow
  by_cases hopen : row.status.IsOpen
  · rw [if_pos hopen]
    refine ⟨?_,?_,?_⟩
    · rcases max_choice (row.remaining - i64ToDecimal j) 0 with hmax | hmax
      · exact ⟨k - j,by simp only [hmax]; rw [hk, i64ToDecimal_sub]⟩
      · exact ⟨0,by simp only [hmax]; rw [i64ToDecimal_zero]⟩
    · exact le_trans (by linarith) (le_max_left _ _)
    · simp only
      split_ifs with hz
      · exact .inr ⟨rfl,hz⟩
      · exact .inl (.inr rfl)
  · rw [if_neg hopen]
    exact ⟨⟨k,hk⟩,by linarith,hst⟩

lemma Order.Shows.fills {row : Order} {due : Decimal} {qs : List Decimal} (h : row.Shows due)
    (hqs : ∀ q ∈ qs, 0 ≤ q ∧ ∃ k, q = i64ToDecimal k) :
    (qs.foldl (fun r q => fillRow q r) row).Shows (due - qs.sum) := by
  induction qs generalizing row due with
  | nil => simpa using h
  | cons q qs ih =>
    have hq := hqs q (by simp)
    have hrest := ih (h.fill hq.1 hq.2) (fun x hx => hqs x (by simp [hx]))
    rw [List.sum_cons, ← sub_sub]
    exact hrest

namespace Pipeline

/-- What an order has left in the book, with the fills that its row has yet to see. -/
def due (s : Pipeline) (o : Order) : Decimal :=
  i64ToDecimal (o.qtyI - s.exchange.tradedI o.id) + s.pendingFill o.id

/-- The row of a resting order, inserted or pending, is never ahead of the book. -/
structure Covered (s : Pipeline) : Prop where
  accounted : s.exchange.Accounted
  positive : ∀ o ∈ s.exchange.submitted, s.exchange.db.order o.id ≠ none → 0 < o.qtyI
  awaiting : ∀ m ∈ s.pending, s.Awaiting m
  grid : ∀ m ∈ s.pending, ∀ lt ∈ m.luaTrades, ∃ k, lt.quantity = i64ToDecimal k
  nodup : (s.pending.map (fun m => m.order.id)).Nodup
  rows : ∀ id r, s.pg.orders.get id = some r → ∃ o ∈ s.exchange.submitted, o.id = id ∧ o.userId = r.userId
  shown : ∀ o ∈ s.exchange.submitted, s.exchange.db.order o.id ≠ none →
    (∀ r, s.pg.orders.get o.id = some r → r.Shows (s.due o)) ∧
    ∀ m ∈ s.pending, m.order.id = o.id → m.order.Shows (s.due o)

end Pipeline

section Eval
variable {s : Pipeline} {o : Order} {asset : String} {amount : ℤ} {db₁ : Valkey} {m : Matched}

lemma Pipeline.due_eval (hl : lockBalance s.exchange.db (matchArgs o asset amount) = some db₁)
    (hm : m.Result o (matchArgs o asset amount) ((matchArgs o asset amount).planOn s.exchange.db)) {q : Order}
    (hne : q.id ≠ o.id) : Pipeline.due ⟨s.exchange.submit o asset amount,s.pg,s.pending ++ [m]⟩ q = s.due q := by
  have hpend : Pipeline.pendingFill ⟨s.exchange.submit o asset amount,s.pg,s.pending ++ [m]⟩ q.id =
      s.pendingFill q.id + i64ToDecimal (((matchArgs o asset amount).planOn s.exchange.db).filledOf q.id) := by
    rw [Pipeline.pendingFill_append, hm.fillOf]
    rfl
  unfold Pipeline.due
  simp only [hpend, tradedI_submit hl, if_neg hne, i64ToDecimal_sub, i64ToDecimal_add]
  ring

lemma Pipeline.Covered.shows_new (hi : s.Covered) (hfresh : ∀ p ∈ s.exchange.submitted, p.id ≠ o.id)
    (hq : 0 ≤ o.qtyI) (hl : lockBalance s.exchange.db (matchArgs o asset amount) = some db₁)
    (hm : m.Result o (matchArgs o asset amount) ((matchArgs o asset amount).planOn s.exchange.db))
    (hrest : (s.exchange.submit o asset amount).db.order o.id ≠ none) : 0 < o.qtyI ∧
      m.order.Shows (Pipeline.due ⟨s.exchange.submit o asset amount,s.pg,s.pending ++ [m]⟩ o) := by
  set a := matchArgs o asset amount with ha
  have hnone : s.exchange.db.order o.id = none := hi.accounted.order_fresh hfresh
  have hrests : (a.planOn s.exchange.db).Rests a := rests_of_order_ne_none hl hnone hrest
  have hqty : a.qtyI = o.qtyI := rfl
  have hsum := (planOn_account (show 0 ≤ a.qtyI from hq) hrests.2.1).2
  have hfilled : 0 ≤ (a.planOn s.exchange.db).filledI := Plan.filledI_nonneg a a.qtyI _
  have hpos := hrests.2.1
  have hdue : Pipeline.due ⟨s.exchange.submit o asset amount,s.pg,s.pending ++ [m]⟩ o =
      i64ToDecimal (a.planOn s.exchange.db).remainingI := by
    have hold : (s.pending.map (fun m => m.fillOf o.id)).sum = 0 := Pipeline.pendingFill_fresh hi.awaiting hfresh
    unfold Pipeline.due
    rw [Pipeline.pendingFill_append, hold, hm.fillOf, filledOf_of_order_none hnone, tradedI_submit hl, if_pos rfl,
      hi.accounted.tradedI_fresh hfresh, i64ToDecimal_zero, add_zero, add_zero, ← ha]
    congr 1
    omega
  have hrem : m.order.remaining = i64ToDecimal (a.planOn s.exchange.db).remainingI := by rw [hm.order]
  refine ⟨by omega,⟨_,hrem⟩,by rw [hdue, hrem],.inl ?_⟩
  rw [hm.order]
  exact hrests.isOpen

theorem Pipeline.Covered.eval (hi : s.Covered) (hfresh : ∀ p ∈ s.exchange.submitted, p.id ≠ o.id) (hqty : 0 < o.quantity)
    (hl : lockBalance s.exchange.db (matchArgs o asset amount) = some db₁)
    (hm : m.Result o (matchArgs o asset amount) ((matchArgs o asset amount).planOn s.exchange.db)) :
    Pipeline.Covered ⟨s.exchange.submit o asset amount,s.pg,s.pending ++ [m]⟩ := by
  have hq : 0 ≤ o.qtyI := decimalToI64_nonneg hqty.le
  have hsub : (s.exchange.submit o asset amount).submitted = s.exchange.submitted ++ [o] := rfl
  have hgrow : ∀ p ∈ s.exchange.submitted, p ∈ (s.exchange.submit o asset amount).submitted :=
    fun p hp => by simp [hsub, hp]
  have hid : m.order.id = o.id := by rw [hm.order]
  -- a hash of an older order was there before
  have hold : ∀ p ∈ s.exchange.submitted, (s.exchange.submit o asset amount).db.order p.id ≠ none →
      s.exchange.db.order p.id ≠ none := fun p hp h hnone => h (submit_order_none hnone (hfresh p hp))
  constructor
  · exact hi.accounted.submit hfresh hq
  · intro p hp hrest
    rcases List.mem_append.mp (hsub ▸ hp) with hp | hp
    · exact hi.positive p hp (hold p hp hrest)
    · obtain rfl := List.mem_singleton.mp hp
      exact (hi.shows_new hfresh hq hl hm hrest).1
  · intro x hx
    rcases List.mem_append.mp hx with hx | hx
    · exact (hi.awaiting x hx).mono hgrow (hi.awaiting x hx).fresh
    · obtain rfl := List.mem_singleton.mp hx
      exact Pipeline.awaiting_new hi.accounted hi.rows hfresh hm
  · intro x hx lt hlt
    rcases List.mem_append.mp hx with hx | hx
    · exact hi.grid x hx lt hlt
    · obtain rfl := List.mem_singleton.mp hx
      rw [hm.luaTrades] at hlt
      obtain ⟨t,_,rfl⟩ := List.mem_map.mp hlt
      exact ⟨t.qtyI,rfl⟩
  · exact Pipeline.pending_nodup hi.awaiting hi.nodup (hid ▸ hfresh)
  · intro id r hr
    obtain ⟨p,hp,hps⟩ := hi.rows id r hr
    exact ⟨p,hgrow p hp,hps⟩
  · intro p hp hrest
    rcases List.mem_append.mp (hsub ▸ hp) with hp | hp
    · have hne := hfresh p hp
      rw [Pipeline.due_eval hl hm hne]
      refine ⟨(hi.shown p hp (hold p hp hrest)).1,fun x hx hxid => ?_⟩
      rcases List.mem_append.mp hx with hx | hx
      · exact (hi.shown p hp (hold p hp hrest)).2 x hx hxid
      · obtain rfl := List.mem_singleton.mp hx
        exact absurd (hxid.symm.trans hid) hne
    · obtain rfl := List.mem_singleton.mp hp
      refine ⟨fun r hr => ?_,fun x hx hxid => ?_⟩
      · obtain ⟨q,hq',hqid,_⟩ := hi.rows _ r hr
        exact absurd hqid (hfresh q hq')
      · rcases List.mem_append.mp hx with hx | hx
        · obtain ⟨q,hq',hqid,_⟩ := (hi.awaiting x hx).source
          exact absurd (hqid.trans hxid) (hfresh q hq')
        · obtain rfl := List.mem_singleton.mp hx
          exact (hi.shows_new hfresh hq hl hm hrest).2

end Eval

/-! ### Transactions -/

section Persist
variable {s : Pipeline} {jobs rest : List PersistJob} {pg : Postgres}

lemma fillsOf_sum (jobs : List PersistJob) (id : Uuid) :
    (fillsOf jobs id).sum = (jobs.map (fun m => m.fillOf id)).sum := by
  induction jobs with
  | nil => rfl
  | cons job jobs ih =>
    rw [List.map_cons, List.sum_cons, ← ih, fillsOf, List.flatMap_cons, List.sum_append]
    rfl

lemma persistOrder_persists {pg pg' : Postgres} {m : Matched} (h : pg.persistOrder m = .ok pg')
    (hfresh : pg.orders.get m.order.id = none) (hself : ∀ lt ∈ m.luaTrades, lt.restingOrderId ≠ m.order.id)
    (hn : (m.luaTrades.map LuaTrade.restingOrderId).Nodup) : Persists [m] pg.orders pg'.orders := by
  obtain ⟨_,_,horders,_⟩ := Postgres.persistOrder_ok h
  rw [horders]
  constructor
  · intro id r hr hne
    rw [Postgres.ordersAfterPersist_get_of_ne pg (hne m (by simp)).symm, hr, fillsOf, List.flatMap_singleton,
      Matched.fills_eq_lookup hn]
    cases (m.luaTrades.map (fun lt => (lt.restingOrderId,lt.quantity))).lookup id <;> rfl
  · intro id r hnone hr
    by_cases hid : id = m.order.id
    · subst hid
      obtain rfl := Postgres.ordersAfterPersist_self hfresh hself hr
      refine ⟨m,by simp,rfl,?_⟩
      split_ifs <;> exact ⟨rfl,rfl,rfl⟩
    · rw [Postgres.ordersAfterPersist_get_of_ne pg hid, hnone] at hr
      cases hr

lemma Pipeline.due_persist (hperm : s.pending.Perm (jobs ++ rest)) (pg : Postgres) (o : Order) :
    Pipeline.due ⟨s.exchange,pg,rest⟩ o = s.due o - (fillsOf jobs o.id).sum := by
  have hsum := (hperm.map (fun m => m.fillOf o.id)).sum_eq
  rw [List.map_append, List.sum_append] at hsum
  unfold Pipeline.due Pipeline.pendingFill
  rw [hsum, fillsOf_sum]
  ring

namespace Pipeline.Covered
variable (hi : s.Covered) (hperm : s.pending.Perm (jobs ++ rest)) (hp : Persists jobs s.pg.orders pg.orders)
include hi hperm

lemma fillsOf_valid (id : Uuid) : ∀ q ∈ fillsOf jobs id, 0 ≤ q ∧ ∃ k, q = i64ToDecimal k := by
  intro q hq
  obtain ⟨job,hjob,hq⟩ := List.mem_flatMap.mp hq
  obtain ⟨lt,hlt,rfl⟩ := List.mem_map.mp hq
  have hmem : job ∈ s.pending := hperm.mem_iff.mpr (List.mem_append_left rest hjob)
  have hlt := (List.mem_filter.mp hlt).1
  exact ⟨((hi.awaiting job hmem).makers lt hlt).1.le,hi.grid job hmem lt hlt⟩

lemma due_persist_le (pg : Postgres) (o : Order) : Pipeline.due ⟨s.exchange,pg,rest⟩ o ≤ s.due o := by
  have hnn : 0 ≤ (fillsOf jobs o.id).sum := List.sum_nonneg (fun q hq => (hi.fillsOf_valid hperm o.id q hq).1)
  rw [Pipeline.due_persist hperm]
  linarith

lemma not_own {id : Uuid} {r : Order} (hr : s.pg.orders.get id = some r) : ∀ job ∈ jobs, job.order.id ≠ id := by
  rintro job hjob rfl
  rw [(hi.awaiting job (hperm.mem_iff.mpr (List.mem_append_left rest hjob))).fresh] at hr
  cases hr

include hp

lemma shows_persist {o r : Order} (hr : s.pg.orders.get o.id = some r) (hs : r.Shows (s.due o)) :
    ∃ r', pg.orders.get o.id = some r' ∧ r'.Shows (Pipeline.due ⟨s.exchange,pg,rest⟩ o) := by
  refine ⟨_,hp.filled o.id r hr (hi.not_own hperm hr),?_⟩
  rw [Pipeline.due_persist hperm]
  exact hs.fills (hi.fillsOf_valid hperm o.id)

theorem persist : Pipeline.Covered ⟨s.exchange,pg,rest⟩ := by
  have hjobs : ∀ x ∈ jobs, x ∈ s.pending := fun x hx => hperm.mem_iff.mpr (List.mem_append_left rest hx)
  have hrest : ∀ x ∈ rest, x ∈ s.pending := fun x hx => hperm.mem_iff.mpr (List.mem_append_right jobs hx)
  have hnodup := (hperm.map (fun m => m.order.id)).nodup_iff.mp hi.nodup
  rw [List.map_append] at hnodup
  refine ⟨hi.accounted,hi.positive,fun x hx => ?_,fun x hx => hi.grid x (hrest x hx),hnodup.of_append_right,
    fun id r hr => ?_,fun o ho hrests => ⟨fun r hr => ?_,fun x hx hxid => ?_⟩⟩
  · refine (hi.awaiting x (hrest x hx)).mono (fun _ h => h) ?_
    refine Option.eq_none_iff_forall_ne_some.mpr (fun r hr => ?_)
    obtain ⟨y,hy,hyid,_⟩ := hp.inserted _ r (hi.awaiting x (hrest x hx)).fresh hr
    exact List.disjoint_of_nodup_append hnodup (List.mem_map.mpr ⟨y,hy,hyid⟩) (List.mem_map.mpr ⟨x,hx,rfl⟩)
  · cases hr₀ : s.pg.orders.get id with
    | some r₀ =>
      obtain ⟨o,ho,hoid,hou⟩ := hi.rows id r₀ hr₀
      rw [hp.filled id r₀ hr₀ (hi.not_own hperm hr₀)] at hr
      cases hr
      exact ⟨o,ho,hoid,hou.trans (foldl_fillRow_userId _ r₀).symm⟩
    | none =>
      obtain ⟨y,hy,hyid,hyu,_⟩ := hp.inserted id r hr₀ hr
      obtain ⟨o,ho,hoid,hou⟩ := (hi.awaiting y (hjobs y hy)).source
      exact ⟨o,ho,hoid.trans hyid,hou.trans hyu.symm⟩
  · cases hr₀ : s.pg.orders.get o.id with
    | some r₀ =>
      obtain ⟨r',hr',hs'⟩ := hi.shows_persist hperm hp hr₀ ((hi.shown o ho hrests).1 r₀ hr₀)
      rw [hr'] at hr
      cases hr
      exact hs'
    | none =>
      obtain ⟨y,hy,hyid,_,hrem,hst⟩ := hp.inserted o.id r hr₀ hr
      exact (((hi.shown o ho hrests).2 y (hjobs y hy) hyid).mono (hi.due_persist_le hperm pg o)).congr hrem hst
  · exact ((hi.shown o ho hrests).2 x (hrest x hx) hxid).mono (hi.due_persist_le hperm pg o)

end Pipeline.Covered
end Persist

/-! ### Steps of cancels -/

section Cancels
variable {s : Pipeline}

lemma Pipeline.Covered.remove (hi : s.Covered) (c : Order) : Pipeline.Covered { s with exchange := s.exchange.remove c } := by
  have hhash : ∀ id, (s.exchange.remove c).db.order id ≠ none → s.exchange.db.order id ≠ none := by
    intro id h hnone
    exact h (by simp [Exchange.remove, Valkey.removeOrderFromBook, hnone])
  exact ⟨hi.accounted.remove c,fun o ho h => hi.positive o ho (hhash o.id h),
    fun m hm => (hi.awaiting m hm).mono (fun _ h => h) (hi.awaiting m hm).fresh,hi.grid,hi.nodup,hi.rows,
    fun o ho h => hi.shown o ho (hhash o.id h)⟩

lemma Pipeline.Covered.mark (hi : s.Covered) {id : Uuid} (hnone : s.exchange.db.order id = none) :
    Pipeline.Covered { s with pg := Api.markCancelled s.pg id } := by
  have hget : ∀ x, (Api.markCancelled s.pg id).orders.get x =
      if x = id then (s.pg.orders.get x).map (fun r => { r with status := .cancelled, remaining := 0 })
      else s.pg.orders.get x := fun x => Table.get_modify ..
  refine ⟨hi.accounted,hi.positive,fun m hm => (hi.awaiting m hm).mono (fun _ h => h) ?_,hi.grid,hi.nodup,
    fun x r hr => ?_,fun o ho h => ⟨fun r hr => ?_,(hi.shown o ho h).2⟩⟩
  · rw [hget, (hi.awaiting m hm).fresh]
    simp
  · rw [hget] at hr
    split_ifs at hr
    · obtain ⟨r₀,hr₀,rfl⟩ := Option.map_eq_some_iff.mp hr
      exact hi.rows x r₀ hr₀
    · exact hi.rows x r hr
  · have hne : o.id ≠ id := by
      rintro rfl
      exact h hnone
    rw [hget, if_neg hne] at hr
    exact (hi.shown o ho h).1 r hr

lemma Pipeline.Covered.release (hi : s.Covered) (userId : String) (row : Order) :
    Pipeline.Covered { s with pg := Api.releaseCancelled s.pg userId row } :=
  ⟨hi.accounted,hi.positive,fun m hm => (hi.awaiting m hm).mono (fun _ h => h) (hi.awaiting m hm).fresh,hi.grid,
    hi.nodup,hi.rows,hi.shown⟩

end Cancels

namespace Race
variable {s : Race}

/-- A cancel that has read a row is for a known order, and after the removal the order has no
hash. -/
structure Inv (s : Race) : Prop where
  covered : s.Covered
  known : ∀ id, (s.cancels id).Active → ∃ p ∈ s.exchange.submitted, p.id = id
  gone : ∀ id, (s.cancels id).Left → s.exchange.db.order id = none

lemma advance_frame (s : Race) (id : Uuid) (userId : String) :
    (s.advance id userId).exchange.submitted = s.exchange.submitted ∧
    (s.advance id userId).exchange.fills = s.exchange.fills ∧ (s.advance id userId).pending = s.pending ∧
    ∀ x, x ≠ id → (s.advance id userId).pg.orders.get x = s.pg.orders.get x ∧
      (s.advance id userId).cancels x = s.cancels x := by
  cases hc : s.cancels id with
  | idle =>
    cases hr : Api.cancellable s.pg id userId with
    | none =>
      rw [advance_refuse hc hr]
      exact ⟨rfl,rfl,rfl,fun x hx => ⟨rfl,Function.update_of_ne hx ..⟩⟩
    | some row =>
      rw [advance_read hc hr]
      exact ⟨rfl,rfl,rfl,fun x hx => ⟨rfl,Function.update_of_ne hx ..⟩⟩
  | read row seen =>
    rw [advance_remove hc]
    exact ⟨rfl,rfl,rfl,fun x hx => ⟨rfl,Function.update_of_ne hx ..⟩⟩
  | removed row seen left =>
    rw [advance_mark hc]
    refine ⟨rfl,rfl,rfl,fun x hx => ⟨?_,Function.update_of_ne hx ..⟩⟩
    simp [Api.markCancelled, Postgres.updateOrder, hx]
  | marked row seen left =>
    rw [advance_release hc]
    exact ⟨rfl,rfl,rfl,fun x hx => ⟨rfl,Function.update_of_ne hx ..⟩⟩
  | released row seen left =>
    rw [advance_done (by rw [hc]; trivial)]
    exact ⟨rfl,rfl,rfl,fun _ _ => ⟨rfl,rfl⟩⟩
  | refused =>
    rw [advance_done (by rw [hc]; trivial)]
    exact ⟨rfl,rfl,rfl,fun _ _ => ⟨rfl,rfl⟩⟩

lemma Inv.update (hi : s.Inv) {p : Pipeline} (hp : p.Covered) (hsub : p.exchange.submitted = s.exchange.submitted)
    (horder : ∀ x, s.exchange.db.order x = none → p.exchange.db.order x = none) {id : Uuid} {phase : CancelPhase}
    (hactive : phase.Active → ∃ q ∈ s.exchange.submitted, q.id = id) (hleft : phase.Left → p.exchange.db.order id = none) :
    Inv ⟨p,Function.update s.cancels id phase⟩ := by
  refine ⟨hp,fun x hx => ?_,fun x hx => ?_⟩
  · change (Function.update s.cancels id phase x).Active at hx
    by_cases hid : x = id
    · subst hid
      rw [Function.update_self] at hx
      exact hsub ▸ hactive hx
    · rw [Function.update_of_ne hid] at hx
      exact hsub ▸ hi.known x hx
  · change (Function.update s.cancels id phase x).Left at hx
    by_cases hid : x = id
    · subst hid
      rw [Function.update_self] at hx
      exact hleft hx
    · rw [Function.update_of_ne hid] at hx
      exact horder x (hi.gone x hx)

theorem Inv.advance (hi : s.Inv) (id : Uuid) (userId : String) : (s.advance id userId).Inv := by
  cases hc : s.cancels id with
  | idle =>
    cases hr : Api.cancellable s.pg id userId with
    | none =>
      rw [advance_refuse hc hr]
      exact hi.update hi.covered rfl (fun _ h => h) False.elim False.elim
    | some row =>
      rw [advance_read hc hr]
      refine hi.update hi.covered rfl (fun _ h => h) (fun _ => ?_) False.elim
      obtain ⟨p,hp,hid,_⟩ := hi.covered.rows id row (Option.eq_some_of_filter_eq_some hr)
      exact ⟨p,hp,hid⟩
  | read row seen =>
    rw [advance_remove hc]
    refine hi.update (hi.covered.remove _) rfl (fun x hx => ?_) (fun _ => hi.known id (by rw [hc]; trivial)) (fun _ => ?_)
    · simp [Exchange.remove, Valkey.removeOrderFromBook, hx]
    · simp [Exchange.remove, Valkey.removeOrderFromBook]
  | removed row seen left =>
    have hnone := hi.gone id (by rw [hc]; trivial)
    rw [advance_mark hc]
    exact hi.update (hi.covered.mark hnone) rfl (fun _ h => h) (fun _ => hi.known id (by rw [hc]; trivial)) (fun _ => hnone)
  | marked row seen left =>
    have hnone := hi.gone id (by rw [hc]; trivial)
    rw [advance_release hc]
    exact hi.update (hi.covered.release _ _) rfl (fun _ h => h) (fun _ => hi.known id (by rw [hc]; trivial))
      (fun _ => hnone)
  | released row seen left => rwa [advance_done (by rw [hc]; trivial)]
  | refused => rwa [advance_done (by rw [hc]; trivial)]

/-! ### Runs -/

variable {pairs : PairsCache} {user : Uuid → String} {s' : Race}

/-- A step is a script run of a fresh order, a transaction over some of the pending jobs, or a
step of a cancel. -/
lemma Step.inversion (hi : s.Inv) (h : Step pairs user s s') :
    (∃ (o : Order) (asset : String) (amount : ℤ) (m : Matched) (db₁ : Valkey),
      (∀ p ∈ s.exchange.submitted, p.id ≠ o.id) ∧ 0 < o.quantity ∧
      lockBalance s.exchange.db (matchArgs o asset amount) = some db₁ ∧
      m.Result o (matchArgs o asset amount) ((matchArgs o asset amount).planOn s.exchange.db) ∧
      s' = ⟨⟨s.exchange.submit o asset amount,s.pg,s.pending ++ [m]⟩,s.cancels⟩) ∨
    (∃ (jobs rest : List PersistJob) (pg : Postgres), s.pending.Perm (jobs ++ rest) ∧
      Persists jobs s.pg.orders pg.orders ∧ s' = ⟨⟨s.exchange,pg,rest⟩,s.cancels⟩) ∨
    ∃ id, s' = s.advance id (user id) := by
  cases h with
  | gateway msg d fresh h =>
    obtain ⟨o,asset,amount,m,db₁,ha,_,hl,hm,rfl⟩ := Pipeline.request_eq_some h
    exact .inl ⟨o,asset,amount,m,db₁,fresh o (by rw [ha]; rfl),checkOrder_quantity_pos (acceptOrder_ok ha).1,hl,hm,rfl⟩
  | @api job msg d o asset amount hparse hlock fresh hqty hjob =>
    obtain ⟨db₁,hl,hm⟩ := Api.persistJob_eq_some hparse hlock hjob
    exact .inl ⟨o,asset,amount,job,db₁,fresh,hqty,hl,hm,rfl⟩
  | commit i h =>
    obtain ⟨m,rest,pg,_,hperm,hp,rfl⟩ := Pipeline.commit_eq_some h
    have hw := hi.covered.awaiting m (hperm.mem_iff.mpr (List.mem_cons_self ..))
    exact .inr (.inl ⟨[m],rest,pg,hperm,
      persistOrder_persists hp hw.fresh (fun lt hlt => (hw.makers lt hlt).2.1) hw.nodup,rfl⟩)
  | @batch jobs rest pg hperm h =>
    have hn := (hperm.map (fun m => m.order.id)).nodup_iff.mp hi.covered.nodup
    rw [List.map_append] at hn
    refine .inr (.inl ⟨jobs,rest,pg,hperm,?_,rfl⟩)
    rw [Postgres.processPersistBatch_orders h]
    exact ordersBatch_persists hn.of_append_left s.pg.orders
  | cancel id => exact .inr (.inr ⟨id,rfl⟩)

theorem Inv.step (hi : s.Inv) (h : Step pairs user s s') : s'.Inv := by
  rcases Step.inversion hi h with ⟨o,asset,amount,m,db₁,hfresh,hqty,hl,hm,rfl⟩ | ⟨jobs,rest,pg,hperm,hp,rfl⟩ | ⟨id,rfl⟩
  · refine ⟨hi.covered.eval hfresh hqty hl hm,fun id hid => ?_,fun id hid => ?_⟩
    · obtain ⟨p,hp,hpid⟩ := hi.known id hid
      exact ⟨p,List.mem_append_left _ hp,hpid⟩
    · have hactive : (s.cancels id).Active := by
        change (s.cancels id).Left at hid
        cases hc : s.cancels id <;> rw [hc] at hid <;> first | exact hid.elim | trivial
      obtain ⟨p,hp,rfl⟩ := hi.known id hactive
      exact submit_order_none (hi.gone p.id hid) (hfresh p hp)
  · exact ⟨hi.covered.persist hperm hp,hi.known,hi.gone⟩
  · exact hi.advance id (user id)

theorem Reachable.inv (h : s.Reachable pairs user) : s.Inv := by
  obtain ⟨s₀,h₀,hrun⟩ := h
  induction hrun with
  | refl =>
    have hacc : s₀.exchange.Accounted := by
      have hreach : MatchingEngine.Reachable (fun _ o => 0 ≤ o.qtyI) ⟨s₀.exchange.db,[],[]⟩ := ⟨_,h₀.book,.refl⟩
      have he : s₀.exchange = ⟨s₀.exchange.db,[],[]⟩ := by
        rw [← h₀.submitted, ← h₀.fills]
      rw [he]
      exact (hreach.invariant (fun _ _ h => h)).2
    refine ⟨⟨hacc,?_,?_,?_,?_,?_,?_⟩,fun id hid => ?_,fun id hid => ?_⟩
    · simp [h₀.submitted]
    · simp [h₀.pending]
    · simp [h₀.pending]
    · simp [h₀.pending]
    · simp [h₀.orders]
    · simp [h₀.submitted]
    · rw [h₀.cancels id] at hid
      exact hid.elim
    · rw [h₀.cancels id] at hid
      exact hid.elim
  | tail _ hstep ih => exact ih.step hstep

/-! ### The cancel of one order -/

variable {o : Order}

/-- From a persisted row on, the row the cancel works with is never ahead of the trades at the
time of the read, and no trade is added after the removal. -/
def Tracks (s : Race) (o : Order) : CancelPhase → Prop
  | .idle => ∃ r, s.pg.orders.get o.id = some r ∧ r.Shows (s.due o)
  | .read row seen =>
    row.Shows (i64ToDecimal (o.qtyI - seen.tradedI o.id)) ∧ seen.tradedI o.id ≤ s.exchange.tradedI o.id
  | .removed row seen left | .marked row seen left | .released row seen left =>
    row.Shows (i64ToDecimal (o.qtyI - seen.tradedI o.id)) ∧ seen.tradedI o.id ≤ left.tradedI o.id ∧
      left.tradedI o.id = s.exchange.tradedI o.id
  | .refused => o.qtyI ≤ s.exchange.tradedI o.id

lemma Tracks.congr {phase : CancelPhase} (h : s.Tracks o phase)
    (htraded : s'.exchange.tradedI o.id = s.exchange.tradedI o.id) (hidle : phase = .idle → s'.Tracks o .idle) :
    s'.Tracks o phase := by
  cases phase with
  | idle => exact hidle rfl
  | read row seen => exact ⟨h.1,h.2.trans htraded.ge⟩
  | removed row seen left => exact ⟨h.1,h.2.1,h.2.2.trans htraded.symm⟩
  | marked row seen left => exact ⟨h.1,h.2.1,h.2.2.trans htraded.symm⟩
  | released row seen left => exact ⟨h.1,h.2.1,h.2.2.trans htraded.symm⟩
  | refused => exact le_trans (show o.qtyI ≤ s.exchange.tradedI o.id from h) htraded.ge

lemma Tracks.eval (hi : s.Inv) (h : s.Tracks o (s.cancels o.id)) {x : Order} {asset : String} {amount : ℤ}
    {m : Matched} {db₁ : Valkey} (hne : o.id ≠ x.id)
    (hl : lockBalance s.exchange.db (matchArgs x asset amount) = some db₁)
    (hm : m.Result x (matchArgs x asset amount) ((matchArgs x asset amount).planOn s.exchange.db)) :
    Tracks ⟨⟨s.exchange.submit x asset amount,s.pg,s.pending ++ [m]⟩,s.cancels⟩ o (s.cancels o.id) := by
  have htraded : (s.exchange.submit x asset amount).tradedI o.id =
      s.exchange.tradedI o.id + ((matchArgs x asset amount).planOn s.exchange.db).filledOf o.id := by
    rw [tradedI_submit hl, if_neg hne]
  have hnn : 0 ≤ ((matchArgs x asset amount).planOn s.exchange.db).filledOf o.id := Plan.filledOf_nonneg _ _ _
  -- the script cannot find an order that has been removed
  have hleft : (s.cancels o.id).Left → (s.exchange.submit x asset amount).tradedI o.id = s.exchange.tradedI o.id := by
    intro hc
    rw [htraded, filledOf_of_order_none (hi.gone o.id hc), add_zero]
  cases hc : s.cancels o.id with
  | idle =>
    rw [hc] at h
    obtain ⟨r,hr,hs⟩ := h
    exact ⟨r,hr,(Pipeline.due_eval hl hm hne).symm ▸ hs⟩
  | read row seen =>
    rw [hc] at h
    refine ⟨h.1,h.2.trans ?_⟩
    simp only [htraded]
    omega
  | removed row seen left =>
    rw [hc] at h hleft
    exact h.congr (hleft trivial) (by simp)
  | marked row seen left =>
    rw [hc] at h hleft
    exact h.congr (hleft trivial) (by simp)
  | released row seen left =>
    rw [hc] at h hleft
    exact h.congr (hleft trivial) (by simp)
  | refused =>
    rw [hc] at h
    change o.qtyI ≤ (s.exchange.submit x asset amount).tradedI o.id
    change o.qtyI ≤ s.exchange.tradedI o.id at h
    omega

lemma Tracks.persist (hi : s.Inv) (h : s.Tracks o (s.cancels o.id)) {jobs rest : List PersistJob} {pg : Postgres}
    (hperm : s.pending.Perm (jobs ++ rest)) (hp : Persists jobs s.pg.orders pg.orders) :
    Tracks ⟨⟨s.exchange,pg,rest⟩,s.cancels⟩ o (s.cancels o.id) := by
  refine h.congr rfl (fun hc => ?_)
  rw [hc] at h
  obtain ⟨r,hr,hs⟩ := h
  exact hi.covered.shows_persist hperm hp hr hs

lemma Inv.left_le_due (hi : s.Inv) (o : Order) : i64ToDecimal (o.qtyI - s.exchange.tradedI o.id) ≤ s.due o := by
  have hnn : 0 ≤ s.pendingFill o.id := Pipeline.fills_nonneg hi.covered.awaiting (fun _ h => h) o.id
  unfold Pipeline.due
  linarith

lemma Tracks.advance_self (hi : s.Inv) (ho : o ∈ s.exchange.submitted) (h : s.Tracks o (s.cancels o.id)) :
    (s.advance o.id o.userId).Tracks o ((s.advance o.id o.userId).cancels o.id) := by
  cases hc : s.cancels o.id with
  | idle =>
    rw [hc] at h
    obtain ⟨r,hr,hs⟩ := h
    have howner : r.userId = o.userId := by
      obtain ⟨p,hp,hpid,hpu⟩ := hi.covered.rows o.id r hr
      obtain rfl := List.inj_on_of_nodup_map hi.covered.accounted.nodup hp ho hpid
      exact hpu.symm
    have hleft := hs.mono (hi.left_le_due o)
    by_cases hopen : r.status.IsOpen
    · have hread : Api.cancellable s.pg o.id o.userId = some r := by
        rw [Api.cancellable, hr]
        simp [Option.filter, howner, hopen]
      rw [advance_read hc hread]
      simp only [Function.update_self]
      exact ⟨hleft,le_refl _⟩
    · have hrefuse : Api.cancellable s.pg o.id o.userId = none := by
        rw [Api.cancellable, hr]
        simp [Option.filter, hopen]
      rw [advance_refuse hc hrefuse]
      simp only [Function.update_self]
      change o.qtyI ≤ s.exchange.tradedI o.id
      have hz : r.remaining = 0 := (hs.status.resolve_left hopen).2
      have hle := hleft.due_le
      rw [hz, ← i64ToDecimal_zero, i64ToDecimal_le_iff] at hle
      omega
  | read row seen =>
    rw [hc] at h
    rw [advance_remove hc]
    simp only [Function.update_self]
    exact ⟨h.1,h.2,rfl⟩
  | removed row seen left =>
    rw [hc] at h
    rw [advance_mark hc]
    simp only [Function.update_self]
    exact h
  | marked row seen left =>
    rw [hc] at h
    rw [advance_release hc]
    simp only [Function.update_self]
    exact h
  | released row seen left =>
    rw [advance_done (by rw [hc]; trivial)]
    exact h
  | refused =>
    rw [advance_done (by rw [hc]; trivial)]
    exact h

lemma Tracks.advance_other (h : s.Tracks o (s.cancels o.id)) {id : Uuid} (hne : o.id ≠ id) (userId : String) :
    (s.advance id userId).Tracks o ((s.advance id userId).cancels o.id) := by
  obtain ⟨_,hfills,hpending,hother⟩ := s.advance_frame id userId
  obtain ⟨hrow,hcancel⟩ := hother o.id hne
  have htraded : (s.advance id userId).exchange.tradedI o.id = s.exchange.tradedI o.id := by
    rw [Exchange.tradedI, Exchange.tradedI, hfills]
  have hdue : (s.advance id userId).due o = s.due o := by
    rw [Pipeline.due, Pipeline.due, Pipeline.pendingFill, Pipeline.pendingFill, htraded, hpending]
  rw [hcancel]
  refine h.congr htraded (fun hc => ?_)
  rw [hc] at h
  obtain ⟨r,hr,hs⟩ := h
  exact ⟨r,hrow.trans hr,hdue.symm ▸ hs⟩

theorem Tracks.step (hi : s.Inv) (ho : o ∈ s.exchange.submitted) (huser : user o.id = o.userId)
    (h : s.Tracks o (s.cancels o.id)) (hstep : Step pairs user s s') :
    o ∈ s'.exchange.submitted ∧ s'.Tracks o (s'.cancels o.id) := by
  rcases Step.inversion hi hstep with ⟨x,asset,amount,m,db₁,hfresh,_,hl,hm,rfl⟩ | ⟨jobs,rest,pg,hperm,hp,rfl⟩ | ⟨id,rfl⟩
  · exact ⟨List.mem_append_left _ ho,h.eval hi (hfresh o ho) hl hm⟩
  · exact ⟨ho,h.persist hi hperm hp⟩
  · refine ⟨by rw [(s.advance_frame id (user id)).1]; exact ho,?_⟩
    by_cases hid : o.id = id
    · subst hid
      rw [huser]
      exact h.advance_self hi ho
    · exact h.advance_other hid (user id)

/-- In every run from a cancellable order on, its cancel is tracked. -/
theorem Cancellable.tracks {s₀ : Race} (h₀ : s₀.Reachable pairs user) (hc : s₀.Cancellable o)
    (huser : user o.id = o.userId) (hrun : Relation.ReflTransGen (Step pairs user) s₀ s) :
    s.Inv ∧ o ∈ s.exchange.submitted ∧ s.Tracks o (s.cancels o.id) := by
  induction hrun with
  | refl =>
    refine ⟨h₀.inv,hc.submitted,?_⟩
    rw [hc.idle]
    obtain ⟨r,hr⟩ := Option.ne_none_iff_exists'.mp hc.row
    exact ⟨r,hr,(h₀.inv.covered.shown o hc.submitted hc.resting).1 r hr⟩
  | tail _ hstep ih =>
    obtain ⟨hi,ho,htr⟩ := ih
    exact ⟨hi.step hstep,htr.step hi ho huser hstep⟩

end Race

/-- Bob's purchase of it, matched. -/
def Race.bought (s : Race) : Race :=
  ⟨(s.request btcUsdt (limitMsg 2 "bob" .buy 100 1) ⟨0,fun _ => 20,0⟩).getD s.toPipeline,s.cancels⟩

/-- All pending jobs in one batch. -/
def Race.persisted (s : Race) : Race := ⟨⟨s.exchange,s.pg.processBatch s.pending,[]⟩,s.cancels⟩

end MatchingEngine

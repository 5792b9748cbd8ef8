import MatchingEngine.DispatchModes
import MatchingEngine.Recovery

/-! Failover under queue dispatch. The tables lag behind the store by the jobs that the persist worker
has not written yet, so that a store which is lost and seeded anew is an older one: the exchange goes
back to where it was after the first so many requests, whole requests at a time. -/
namespace MatchingEngine
open Library

/-! ### Tables that differ in versions -/

section Versions
variable {pg pg' : Postgres} {db : Valkey}

lemma fields_of_unversioned {o o' : Order} (h : o'.unversioned = o.unversioned) : o'.id = o.id ∧ o'.pairId = o.pairId ∧ o'.side = o.side ∧
    o'.tif = o.tif ∧ o'.remaining = o.remaining ∧ o'.status = o.status := by
  simp only [Order.unversioned, Order.mk.injEq] at h
  simp only [h, and_self]

lemma Postgres.SameButVersion.restingOrders (h : pg.SameButVersion pg') {o : Order} (ho : o ∈ pg.restingOrders) :
    ∃ o' ∈ pg'.restingOrders, o'.unversioned = o.unversioned := by
  obtain ⟨id,r,hr,hopen,htif,rfl⟩ := mem_restingOrders.mp ho
  have hrow := h.orders id
  rw [hr] at hrow
  obtain ⟨r',hr',hsame⟩ := Option.map_eq_some_iff.mp hrow.symm
  obtain ⟨_,_,_,hkind,_,hstatus⟩ := fields_of_unversioned hsame
  refine ⟨r'.seeded id,mem_restingOrders.mpr ⟨id,r',hr',?_,?_,rfl⟩,congrArg (fun r : Order => r.seeded id) hsame⟩
  · rw [hstatus]
    exact hopen
  · rw [hkind]
    exact htif

lemma Valkey.Mirrors.of_unversioned {o o' : Order} (h : db.Mirrors o) (hsame : o'.unversioned = o.unversioned) : db.Mirrors o' := by
  have hplain : db.Mirrors o.unversioned := ⟨h.hash,h.entry⟩
  rw [← hsame] at hplain
  exact ⟨hplain.hash,hplain.entry⟩

lemma System.Recoverable.sameButVersion (h : System.Recoverable ⟨db,pg⟩) (hpg : pg.SameButVersion pg') : System.Recoverable ⟨db,pg'⟩ := by
  refine ⟨fun o' ho' => ?_,fun o' ho' => ?_,fun pair side id hid => ?_⟩
  · obtain ⟨o,ho,hsame⟩ := hpg.symm.restingOrders ho'
    exact (h.rows o ho).of_unversioned hsame.symm
  · obtain ⟨o,ho,hsame⟩ := hpg.symm.restingOrders ho'
    obtain ⟨_,_,_,_,hremaining,_⟩ := fields_of_unversioned hsame
    rw [← hremaining]
    exact h.grid o ho
  · obtain ⟨o,ho,rfl,rfl,rfl⟩ := h.listed pair side id hid
    obtain ⟨o',ho',hsame⟩ := hpg.restingOrders ho
    obtain ⟨hid,hpair,hside,_⟩ := fields_of_unversioned hsame
    exact ⟨o',ho',hid,hpair,hside⟩

end Versions

/-! ### Requests that spare the books -/

/-- No accident happens to a request. -/
def Arrival.Spares (pairs : PairsCache) (s : System) (x : Arrival) : Prop :=
  ∀ asset amount db₁, x.Runs pairs s.db asset amount db₁ → x.order.SparesBooks s asset amount

namespace Happening
variable {pairs : PairsCache}

/-- Nor to any request of a run. -/
def SparesAlong (pairs : PairsCache) : System → List Happening → Prop
  | _, [] => True
  | s, h :: hs => (∀ x ∈ h.arrival?, x.Spares pairs s) ∧ SparesAlong pairs (h.inline pairs s) hs

lemma SparesAlong.mono {s : System} {before hs : List Happening} (h : SparesAlong pairs s hs) (hbefore : before <+: hs) :
    SparesAlong pairs s before := by
  induction before generalizing s hs with
  | nil => trivial
  | cons x before ih =>
    cases hs with
    | nil => exact absurd (List.prefix_nil.mp hbefore) (by simp)
    | cons y hs =>
      obtain ⟨rfl,hrest⟩ := List.cons_prefix_cons.mp hbefore
      exact ⟨h.1,ih h.2 hrest⟩

end Happening

lemma Arrival.Distinct.mono {e : Exchange} {before xs : List Arrival} (h : Arrival.Distinct e xs) (hbefore : List.Sublist before xs) :
    Arrival.Distinct e before :=
  ⟨h.ids.sublist (hbefore.map Arrival.orderId),fun x hx => h.unseen x (hbefore.subset hx)⟩

lemma Arrival.Runs.recoverable {pairs : PairsCache} {db : Valkey} {pg : Postgres} {x : Arrival} {asset : String} {amount : ℤ}
    {db₁ : Valkey} (hrun : x.Runs pairs db asset amount db₁) (h : System.Recoverable ⟨db,pg⟩) (hfresh : System.Fresh ⟨db,pg⟩ x.orderId)
    (hreads : x.ReadsBack pairs db) (hspares : x.Spares pairs ⟨db,pg⟩) :
    System.Recoverable ⟨x.scriptDb db asset amount db₁,pg.persistOrders [x.job db asset amount]⟩ := by
  obtain ⟨hmakers,hrecorded,hread⟩ := hspares asset amount db₁ hrun
  obtain ⟨pg₁,hpersist,_⟩ := pg.persistOrder_tables hrun.ofMatch.parses
  have hq : 0 ≤ x.order.qtyI := decimalToI64_nonneg hrun.quantity_pos.le
  have hjob : x.order.readOn db x.draws.tradeId asset amount = x.job db asset amount :=
    Order.readOn_of_readsBack hrun.funded (hreads asset amount db₁ hrun).1
  have hcommit : pg.persistOrder (x.order.readOn db x.draws.tradeId asset amount) = .ok pg₁ := by rw [hjob, hpersist]
  have hrows := h.rows_request (o := x.order) hfresh hq hrun.funded hcommit hmakers hread
  have hlisted := h.listed_request (o := x.order) hfresh hrun.funded hcommit hrecorded
  have hwritten : pg.persistOrders [x.job db asset amount] = pg₁ := by
    simp only [Postgres.persistOrders, List.foldl_cons, List.foldl_nil, hpersist]
    rfl
  rw [hwritten]
  exact ⟨fun p hp => (hrows p hp).1,fun p hp => (hrows p hp).2,hlisted⟩

/-- Inline dispatch keeps the books recoverable, and so does time as long as no hash comes to its end. -/
theorem Happening.inlineRun_recoverable {pairs : PairsCache} {e : Exchange} (he : Reachable (fun _ o => 0 < o.quantity) e)
    {ttl : Uuid → Option ℕ} {pg : Postgres} {hs : List Happening} (hd : Arrival.Distinct e (arrivals hs))
    (hfresh : ∀ x ∈ arrivals hs, pg.orders.get x.orderId = none) (hwarm : ∀ x ∈ arrivals hs, isWarmup x.order = false)
    (hfine : FineAlong pairs (e.db.withTtl ttl) hs) (h : System.Recoverable ⟨e.db.withTtl ttl,pg⟩)
    (hspares : SparesAlong pairs ⟨e.db.withTtl ttl,pg⟩ hs) : (inlineRun pairs ⟨e.db.withTtl ttl,pg⟩ hs).Recoverable := by
  induction hs generalizing e ttl pg with
  | nil => exact h
  | cons y hs ih =>
    obtain ⟨hy,hfiner⟩ := hfine
    obtain ⟨hx,hrest⟩ := hspares
    change (inlineRun pairs (y.inline pairs ⟨e.db.withTtl ttl,pg⟩) hs).Recoverable
    cases y with
    | wait ms =>
      obtain ⟨ttl',hpass⟩ := Valkey.exists_pass_eq hy
      have hstore : (e.db.withTtl ttl).pass ms = e.db.withTtl ttl' := hpass
      simp only [inline, queued, hstore] at hrest hfiner ⊢
      refine ih he hd hfresh hwarm hfiner ⟨fun o ho => ?_,h.grid,h.listed⟩ hrest
      exact ⟨(h.rows o ho).hash,(h.rows o ho).entry⟩
    | request x =>
      rw [arrivals_request] at hd hfresh hwarm
      have hwarm' : ∀ y ∈ arrivals hs, isWarmup y.order = false := fun y hy => hwarm y (List.mem_cons_of_mem x hy)
      simp only [inline, queued] at hrest hfiner ⊢
      rcases x.cases pairs (e.db.withTtl ttl) with ⟨asset,amount,db₁,hrun⟩ | ⟨hqueued,hinline⟩
      · obtain ⟨db₂,ttl',hrun₂,hscript⟩ := hrun.of_withTtl
        have hunseen : ∀ p ∈ e.submitted, p.id ≠ x.order.id := hd.unseen x List.mem_cons_self
        have hnone := (he.invariant (fun _ o ho => decimalToI64_nonneg (le_of_lt ho))).2.order_fresh hunseen
        have hafter := hrun.recoverable h ⟨hnone,hfresh x List.mem_cons_self⟩ hy (hx x rfl)
        rw [hrun.queued_eq hy] at hfiner
        rw [hrun.inline_eq hy (hwarm x List.mem_cons_self) pg] at hrest ⊢
        rw [hscript, ← hrun₂.submit_db] at hafter hrest hfiner ⊢
        refine ih (hrun₂.reachable he hunseen) (hd.submit asset amount) (fun y hy => ?_) hwarm' hfiner hafter hrest
        have hne : x.orderId ≠ y.orderId := fun hid => (List.nodup_cons.mp hd.ids).1 (List.mem_map.mpr ⟨y,hy,hid.symm⟩)
        exact Postgres.persistOrder_keeps_fresh hrun.ofMatch hne (hfresh y (List.mem_cons_of_mem x hy))
      · rw [hqueued] at hfiner
        rw [hinline] at hrest ⊢
        exact ih he hd.tail (fun y hy => hfresh y (List.mem_cons_of_mem x hy)) hwarm' hfiner h hrest

/-- Queue dispatch survives the loss of the store, but goes back in time. When the store is lost at any
moment of the persist worker's and seeded from the tables, the exchange answers every session as it would
have after the first so many happenings, those whose jobs are written; the later ones are forgotten as a
whole. The jobs go through the channel in the order of their matches without finding it full, and the
worker commits its batches, none of which has an order with a fill of it. -/
theorem queue_failover_goes_back {pairs : PairsCache} {e : Exchange} {ttl : Uuid → Option ℕ} {pg : Postgres} {hs : List Happening}
    {w : PersistWorker} (he : Reachable (fun _ o => 0 < o.quantity) e) (hdb : e.db.PricesNonneg)
    (hx : Happening.Admitted pairs ⟨e.db.withTtl ttl,pg⟩ e hs) (hs₀ : System.Recoverable ⟨e.db.withTtl ttl,pg⟩)
    (hspares : Happening.SparesAlong pairs ⟨e.db.withTtl ttl,pg⟩ hs) (hw : w.Reachable pg) (hspawned : w.spawned = [])
    (hsent : w.sent <+: (Happening.queuedRun pairs (e.db.withTtl ttl) hs).2) (hbatches : ∀ b ∈ w.batches, b.2 = true ∧ Apart b.1) :
    (∃ before, before <+: hs ∧ (Happening.queuedRun pairs (e.db.withTtl ttl) before).2 = w.written) ∧
    ∀ before, before <+: hs → (Happening.queuedRun pairs (e.db.withTtl ttl) before).2 = w.written → ∀ calls,
      (∀ r ∈ (answers MatcherCall.run (Happening.queuedRun pairs (e.db.withTtl ttl) before).1 calls).1, r.Accepted) →
      (∀ r ∈ (answers MatcherCall.run (coldStart Valkey.empty w.pg) calls).1, r.Accepted) →
      (answers MatcherCall.run (coldStart Valkey.empty w.pg) calls).1 =
        (answers MatcherCall.run (Happening.queuedRun pairs (e.db.withTtl ttl) before).1 calls).1 := by
  refine ⟨Happening.exists_before _ (PersistWorker.written_of_sent hw hsent),fun before hbefore heq calls hold hnew => ?_⟩
  have hsub : List.Sublist (Happening.arrivals before) (Happening.arrivals hs) := hbefore.sublist.filterMap _
  have hwarm : ∀ x ∈ Happening.arrivals before, isWarmup x.order = false := fun x hx' => hx.warmup x (hsub.subset hx')
  have hsame := hx.follows he hdb hw hspawned hsent hbatches hbefore heq
  have hrun := Happening.inlineRun_recoverable he (hx.distinct.mono hsub) (fun x hx' => hx.fresh x (hsub.subset hx')) hwarm
    (hx.fine.mono hbefore) hs₀ (hspares.mono hbefore)
  rw [Happening.inlineRun_eq hwarm (hx.fine.mono hbefore)] at hrun hsame
  have hbooks := (hrun.sameButVersion hsame).sameBooks
  exact (MatcherCall.lockstep.answers_eq hbooks hold hnew).1.symm

lemma offerAndPurchase_spares : Happening.SparesAlong btcUsdt ⟨(Session.funded (10 ^ 12)).sys.db,aliceAndBob⟩ offerAndPurchase := by
  have hspares : ∀ (s : System) (x : Arrival), (∀ v ∈ ((matchArgs x.order "" 0).planOn s.db).visits, v.action ≠ .cancel) →
      s.pg.clientOrderIdTaken x.order = false →
      (∀ p ∈ (lockParams x.order).toOption, ((matchArgs x.order p.1 p.2).planOn s.db).remainingI < 10 ^ 14) → x.Spares btcUsdt s := by
    intro s x hvisits hfree hsmall asset amount db₁ hrun
    have hremaining := hsmall (asset,amount) (by rw [hrun.lock]; rfl)
    refine ⟨fun hmaker => ?_,fun hun => ?_,fun hun => absurd hun.2 (not_le.mpr hremaining)⟩
    · obtain ⟨r,hr⟩ := (cancelsMaker_iff "" 0).mp hmaker
      exact hvisits _ hr rfl
    · exact Bool.noConfusion (hfree.symm.trans hun.1)
  refine ⟨?_,?_,?_,trivial⟩
  · rintro x ⟨⟩
    exact hspares _ _ (by decide +kernel) (by decide +kernel) (by decide +kernel)
  · rintro x ⟨⟩
  · rintro x ⟨⟩
    exact hspares _ _ (by decide +kernel) (by decide +kernel) (by decide +kernel)

/-- The purchase is forgotten: the offer, which had left the book, is there again. -/
theorem queue_failover_forgets_purchase :
    let db := (Session.funded (10 ^ 12)).sys.db
    ∃ w : PersistWorker, w.Reachable aliceAndBob ∧ w.sent = (Happening.queuedRun btcUsdt db offerAndPurchase).2 ∧
      1 ∉ (Happening.queuedRun btcUsdt db offerAndPurchase).1.book "BTC-USDT" .sell ∧
      1 ∈ (Happening.queuedRun btcUsdt db (offerAndPurchase.take 2)).1.book "BTC-USDT" .sell ∧
      (answers MatcherCall.run (coldStart Valkey.empty w.pg) [.snapshot "BTC-USDT" 10]).1 =
        (answers MatcherCall.run (Happening.queuedRun btcUsdt db (offerAndPurchase.take 2)).1 [.snapshot "BTC-USDT" 10]).1 := by
  intro db
  have he : Reachable (fun _ o => 0 < o.quantity) ⟨db,[],[]⟩ := ⟨_,⟨fun _ _ => rfl,fun _ => rfl⟩,.refl⟩
  have hdb : db.PricesNonneg := fun id w hw => by cases hw
  have hempty : aliceAndBob.restingOrders = [] := by decide +kernel
  have hs : System.Recoverable ⟨db,aliceAndBob⟩ :=
    ⟨fun o ho => absurd (hempty ▸ ho) (by simp),fun o ho => absurd (hempty ▸ ho) (by simp),
      fun _ _ _ hid => absurd hid (SortedSet.not_mem_empty _)⟩
  have hone : (Happening.queuedRun btcUsdt db (offerAndPurchase.take 2)).2.length = 1 := by decide +kernel
  obtain ⟨a,b,pg₁,_,hjobs,ha,_⟩ := offerAndPurchase_commits
  obtain ⟨a',ha'⟩ := List.length_eq_one_iff.mp hone
  have hcons : (Happening.queuedRun btcUsdt db (offerAndPurchase.take 2)).2 <+: (Happening.queuedRun btcUsdt db offerAndPurchase).2 := by
    simp only [offerAndPurchase, List.take, Happening.queuedRun, List.append_nil, ← List.append_assoc]
    exact List.prefix_append _ _
  rw [hjobs, ha'] at hcons
  obtain ⟨rfl,_⟩ := List.cons_prefix_cons.mp hcons
  have hw := PersistWorker.reachable_first ha b
  refine ⟨_,hw,hjobs.symm,by decide +kernel,by decide +kernel,?_⟩
  refine (queue_failover_goes_back (e := ⟨db,[],[]⟩) he hdb offerAndPurchase_admitted hs offerAndPurchase_spares hw rfl ?_ ?_).2
    (offerAndPurchase.take 2) (List.take_prefix 2 _) ha' _ ?_ ?_
  · exact hjobs ▸ List.prefix_refl _
  · intro c hc
    obtain rfl := List.mem_singleton.mp hc
    exact ⟨rfl,List.pairwise_singleton _ _⟩
  · intro r hr
    obtain rfl := List.mem_singleton.mp hr
    trivial
  · intro r hr
    obtain rfl := List.mem_singleton.mp hr
    trivial

end MatchingEngine

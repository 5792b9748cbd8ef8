import MatchingEngine.Obligations

/-! What an order pays over its life against what was locked for it. A trade is never worse
than the limit of either order, and no order trades more than its quantity. -/
namespace MatchingEngine
open Library

/-- Quote value of all trades an order took part in, in units of `10^-16`. -/
def Exchange.paidI (s : Exchange) (id : Uuid) : ℤ :=
  ((s.fills.filter (fun f => f.Involves id)).map (fun f => f.trade.priceI * f.trade.qtyI)).sum

/-- Trades have positive quantities and prices within the limits of both orders. -/
structure Exchange.WithinLimits (s : Exchange) : Prop where
  qty : ∀ f ∈ s.fills, 0 < f.trade.qtyI
  price : ∀ f ∈ s.fills, ∀ o ∈ s.submitted, f.Involves o.id → o.orderType = .limit →
    signedPrice o.side o.priceI ≤ signedPrice o.side f.trade.priceI

lemma trade_within_limit {a : MatchArgs} {r : OrderHash} (hx : a.Crosses r) (ha : a.orderType = .limit) (id : Uuid)
    (q : ℤ) : signedPrice a.side a.priceI ≤ signedPrice a.side (a.trade r id q).priceI := by
  unfold MatchArgs.Crosses at hx
  rw [if_neg (by simp [ha])] at hx
  simp only [MatchArgs.trade]
  cases hs : a.side <;> simp only [hs, signedPrice] at hx ⊢ <;> split_ifs <;> simp at hx <;> omega

lemma trade_priceI_of_limit {r : OrderHash} (hr : r.orderType = .limit) (a : MatchArgs) (id : Uuid) (q : ℤ) :
    (a.trade r id q).priceI = r.priceI := by
  simp [MatchArgs.trade, hr]

lemma Exchange.WithinLimits.submit {s : Exchange} (hw : s.WithinLimits) (hs : s.Accounted) {o : Order}
    {asset : String} {amount : ℤ} (hfresh : ∀ p ∈ s.submitted, p.id ≠ o.id) :
    (s.submit o asset amount).WithinLimits := by
  have hold : ∀ f ∈ s.fills, ¬ f.Involves o.id := by
    intro f hf hi
    obtain ⟨p,hp,hid⟩ := hs.known f hf o.id hi
    exact hfresh p hp hid
  cases hl : lockBalance s.db (matchArgs o asset amount) with
  | none =>
    rw [submit_of_no_lock hl]
    refine ⟨hw.qty,fun f hf p hp hi => ?_⟩
    rcases List.mem_append.mp hp with hp | hp
    · exact hw.price f hf p hp hi
    · obtain rfl := List.mem_singleton.mp hp
      exact absurd hi (hold f hf)
  | some db₁ =>
    rw [submit_of_lock hl]
    set a := matchArgs o asset amount with ha
    -- a new trade comes from a visit, whose order is a hash of the store
    have hnew : ∀ t ∈ (a.planOn s.db).trades a, ∃ (r : Resting) (q : ℤ), t = a.trade r.hash r.id q ∧ 0 < q ∧ a.Crosses r.hash ∧
        s.db.order r.id = some r.hash := by
      intro t ht
      obtain ⟨r,q,hv,rfl⟩ := Plan.mem_trades.mp ht
      obtain ⟨hvalid,ho,_⟩ := planOn_visit hv
      exact ⟨r,q,rfl,(hvalid.fill q rfl).1,hvalid.crosses,ho⟩
    constructor
    · intro f hf
      rcases List.mem_append.mp hf with hf | hf
      · exact hw.qty f hf
      · obtain ⟨t,ht,rfl⟩ := List.mem_map.mp hf
        obtain ⟨r,q,rfl,hq,_⟩ := hnew t ht
        exact hq
    · intro f hf p hp hi hlim
      rcases List.mem_append.mp hf with hf' | hf
      · rcases List.mem_append.mp hp with hp | hp
        · exact hw.price f hf' p hp hi hlim
        · obtain rfl := List.mem_singleton.mp hp
          exact absurd hi (hold f hf')
      · obtain ⟨t,ht,rfl⟩ := List.mem_map.mp hf
        obtain ⟨r,q,rfl,_,hx,hr⟩ := hnew t ht
        obtain ⟨c,hc,hcid,hhash⟩ := hs.source r.id r.hash hr
        rcases List.mem_append.mp hp with hp | hp
        · -- an older order can only be the maker
          have hid : r.id = p.id := by
            rcases hi with hi | hi
            · exact absurd hi.symm (hfresh p hp)
            · exact hi
          obtain rfl := List.inj_on_of_nodup_map hs.nodup hc hp (hcid.trans hid)
          have hprice : r.hash.priceI = c.priceI := by rw [hhash]; rfl
          have htype : r.hash.orderType = .limit := by rw [hhash]; exact hlim
          rw [trade_priceI_of_limit htype, hprice]
        · obtain rfl := List.mem_singleton.mp hp
          exact trade_within_limit hx hlim _ _

theorem Reachable.withinLimits {Admit : Exchange → Order → Prop} (hq : ∀ s o, Admit s o → 0 ≤ o.qtyI)
    {s : Exchange} (h : Reachable Admit s) : s.WithinLimits := by
  obtain ⟨db,hdb,hrun⟩ := h
  induction hrun with
  | refl => exact ⟨by simp,by simp⟩
  | @tail t u hrun hstep ih =>
    have hreach : Reachable Admit t := ⟨db,hdb,hrun⟩
    cases hstep with
    | submit o asset amount hfresh _ => exact ih.submit (hreach.invariant hq).2 hfresh
    | remove o c => exact ⟨ih.qty,ih.price⟩

lemma sum_price_le {fs : List Fill} {p : ℤ} (hp : ∀ f ∈ fs, f.trade.priceI ≤ p) (hq : ∀ f ∈ fs, 0 < f.trade.qtyI) :
    (fs.map (fun f => f.trade.priceI * f.trade.qtyI)).sum ≤ p * (fs.map (fun f => f.trade.qtyI)).sum := by
  induction fs with
  | nil => simp
  | cons f fs ih =>
    simp only [List.map_cons, List.sum_cons, mul_add]
    have hf := mul_le_mul_of_nonneg_right (hp f (by simp)) (hq f (by simp)).le
    have hrest := ih (fun g hg => hp g (by simp [hg])) (fun g hg => hq g (by simp [hg]))
    omega

lemma Exchange.WithinLimits.paidI_le {s : Exchange} (hw : s.WithinLimits) {o : Order} (ho : o ∈ s.submitted)
    (hb : o.side = .buy) (hl : o.orderType = .limit) : s.paidI o.id ≤ o.priceI * s.tradedI o.id := by
  refine sum_price_le (fun f hf => ?_) (fun f hf => ?_)
  · obtain ⟨hf,hi⟩ := List.mem_filter.mp hf
    have := hw.price f hf o ho (by simpa using hi) hl
    rw [hb] at this
    simpa [signedPrice] using this
  · exact hw.qty f (List.mem_filter.mp hf).1

lemma Exchange.WithinLimits.tradedI_nonneg {s : Exchange} (hw : s.WithinLimits) (id : Uuid) : 0 ≤ s.tradedI id := by
  refine List.sum_nonneg (fun q hq => ?_)
  obtain ⟨f,hf,rfl⟩ := List.mem_map.mp hq
  exact (hw.qty f (List.mem_filter.mp hf).1).le

/-- The record of a submission is what the script locked for it, or the lock failed and the
order never had any effect. -/
def Submission.Recorded (x : Submission) (e : Exchange) : Prop :=
  (∃ p ∈ (lockParams x.order).toOption, x.lockedI = (matchArgs x.order p.1 p.2).lockedI) ∨
    x.lockedI = 0 ∧ e.db.order x.order.id = none ∧ ∀ f ∈ e.fills, ¬ f.Involves x.order.id

lemma Submission.Recorded.submit {x : Submission} {e : Exchange} (hx : x.Recorded e) {o : Order} {asset : String}
    {amount : ℤ} (hne : x.order.id ≠ o.id) : x.Recorded (e.submit o asset amount) := by
  rcases hx with hx | ⟨hz,hnone,hfills⟩
  · exact .inl hx
  · right
    refine ⟨hz,submit_order_none hnone hne,?_⟩
    cases hl : lockBalance e.db (matchArgs o asset amount) with
    | none =>
      rw [submit_of_no_lock hl]
      exact hfills
    | some db₁ =>
      rw [submit_of_lock hl]
      intro f hf
      rcases List.mem_append.mp hf with hf | hf
      · exact hfills f hf
      · obtain ⟨t,ht,rfl⟩ := List.mem_map.mp hf
        obtain ⟨r,q,hv,rfl⟩ := Plan.mem_trades.mp ht
        rintro (hi | hi)
        · exact hne hi.symm
        · exact planOn_visit_ne hnone _ hv hi

lemma recorded_of_submit {e : Exchange} (hs : e.Accounted) {o : Order} {asset : String} {amount : ℤ}
    (hfresh : ∀ p ∈ e.submitted, p.id ≠ o.id) (hp : lockParams o = .ok (asset,amount)) :
    Submission.Recorded ⟨o,(e.db.balance o.userId asset).available -
      ((e.submit o asset amount).db.balance o.userId asset).available⟩ (e.submit o asset amount) := by
  cases hl : lockBalance e.db (matchArgs o asset amount) with
  | none =>
    right
    rw [submit_of_no_lock hl]
    refine ⟨sub_self _,hs.order_fresh hfresh,fun f hf hi => ?_⟩
    obtain ⟨p,hp,hid⟩ := hs.known f hf o.id hi
    exact hfresh p hp hid
  | some db₁ =>
    left
    rw [submit_of_lock hl, hp]
    refine ⟨(asset,amount),rfl,?_⟩
    have hu : (matchArgs o asset amount).userId = o.userId := rfl
    have ha : (matchArgs o asset amount).lockAsset = asset := rfl
    simp [lockBalance_balance hl, hu, ha]

/-- Every record of a session is right. -/
theorem Session.Reachable.recorded {pairs : PairsCache} {Init : System → Prop} {Admit : Session → Order → Prop}
    (hq : ∀ s o, Admit s o → 0 ≤ o.qtyI) {s : Session} (h : s.Reachable pairs Init Admit) :
    ∀ x ∈ s.history, x.Recorded s.exchange := by
  obtain ⟨sys,hbook,hinit,hrun⟩ := h
  induction hrun with
  | refl => simp
  | @tail t u hrun hstep ih =>
    obtain ⟨msg,d,hadm,rfl⟩ := hstep
    have hreach : t.Reachable pairs Init Admit := ⟨sys,hbook,hinit,hrun⟩
    have hs := ((hreach.exchange hq).invariant (fun _ _ h => h)).2
    rcases t.process_cases pairs msg d with ⟨he,hh⟩ | ⟨o,asset,amount,ha,_,hl,he,hh⟩
    · rw [he, hh]
      exact ih
    · obtain ⟨hfresh,_⟩ := hadm o (by rw [ha]; rfl)
      rw [he, hh]
      intro x hx
      rcases List.mem_append.mp hx with hx | hx
      · exact (ih x hx).submit (hfresh x hx)
      · obtain rfl := List.mem_singleton.mp hx
        refine recorded_of_submit hs (fun p hp => ?_) hl
        obtain ⟨y,hy,rfl⟩ := List.mem_map.mp hp
        exact hfresh y hy

/-- A limit order whose lock is at least its truncated price times its truncated quantity. -/
def Order.LockCovers (o : Order) : Prop :=
  o.orderType = .limit ∧ ∀ p ∈ (lockParams o).toOption, o.priceI * o.qtyI ≤ 10 ^ 8 * (matchArgs o p.1 p.2).lockedI

instance (o : Order) : Decidable o.LockCovers := inferInstanceAs (Decidable (_ ∧ ∀ p ∈ (lockParams o).toOption, _))

lemma MatchArgs.lockedI_nonneg (a : MatchArgs) : 0 ≤ a.lockedI := by
  unfold MatchArgs.lockedI
  split_ifs with h
  · exact h.2.le
  · exact le_rfl

/-- In every session of limit and market orders, a buy order whose lock covers its truncated
price times quantity pays at most what was locked for it, over all its trades. -/
theorem reachable_buyer_solvent (pairs : PairsCache) {s : Session}
    (h : s.Reachable pairs (fun _ => True) (fun _ o => o.InScale ∧ o.LockInScale)) {x : Submission}
    (hx : x ∈ s.history) (hb : x.order.side = .buy) (hc : x.order.LockCovers) :
    s.exchange.paidI x.order.id ≤ 10 ^ 8 * x.lockedI := by
  have hrun := h.exchange (fun _ _ hA => hA.1)
  have hmem : x.order ∈ s.exchange.submitted := List.mem_map_of_mem hx
  rcases h.recorded (fun _ _ hA => hA.1.qty_pos.le) x hx with ⟨p,hp,hrec⟩ | ⟨hz,_,hfills⟩
  · have hlimits := hrun.withinLimits (fun _ _ hA => hA.qty_pos.le)
    have hpaid := hlimits.paidI_le hmem hb hc.1
    have htraded := (hrun.invariant (fun _ _ hA => hA.qty_pos.le)).2.traded_le x.order hmem
    have hcover := hc.2 p hp
    rw [hrec]
    rcases le_or_gt 0 x.order.priceI with hprice | hprice
    · calc s.exchange.paidI x.order.id ≤ x.order.priceI * s.exchange.tradedI x.order.id := hpaid
        _ ≤ x.order.priceI * x.order.qtyI := mul_le_mul_of_nonneg_left htraded hprice
        _ ≤ 10 ^ 8 * (matchArgs x.order p.1 p.2).lockedI := hcover
    · have hneg := mul_nonpos_of_nonpos_of_nonneg hprice.le (hlimits.tradedI_nonneg x.order.id)
      have hlock := (matchArgs x.order p.1 p.2).lockedI_nonneg
      omega
  · have hnil : s.exchange.fills.filter (fun f => f.Involves x.order.id) = [] := by
      rw [List.filter_eq_nil_iff]
      intro f hf hi
      exact hfills f hf (by simpa using hi)
    rw [Exchange.paidI, hnil, hz]
    simp

theorem buyer_solvent_offer_taken : ∃ x ∈ offerTaken.history, x.order.side = .buy ∧ x.order.LockCovers ∧
    0 < offerTaken.exchange.paidI x.order.id ∧ offerTaken.exchange.paidI x.order.id ≤ 10 ^ 8 * x.lockedI := by
  obtain ⟨x,hx,hside,hcover,hpaid⟩ : ∃ x ∈ offerTaken.history, x.order.side = .buy ∧ x.order.LockCovers ∧
      0 < offerTaken.exchange.paidI x.order.id := by decide +kernel
  refine ⟨x,hx,hside,hcover,hpaid,reachable_buyer_solvent btcUsdt ⟨_,⟨fun _ _ => rfl,fun _ => rfl⟩,trivial,
    (Relation.ReflTransGen.refl.tail ⟨_,_,?_,rfl⟩).tail ⟨_,_,?_,rfl⟩⟩ hx hside hcover⟩
  all_goals decide +kernel

/-- A market buy locks nothing and pays the asks it meets. -/
theorem market_buyer_insolvent : ∃ (pairs : PairsCache) (s : Session),
    s.Reachable pairs (fun _ => True) (fun _ o => o.InScale ∧ o.LockInScale) ∧
    ∃ x ∈ s.history, x.order.side = .buy ∧ 10 ^ 8 * x.lockedI < s.exchange.paidI x.order.id := by
  refine ⟨btcUsdt,oneOffer.process btcUsdt (marketMsg 2 "bob" .buy .ioc 1) ⟨0,fun _ => 20,0⟩,
    ⟨_,⟨fun _ _ => rfl,fun _ => rfl⟩,trivial,(Relation.ReflTransGen.refl.tail ⟨_,_,?_,rfl⟩).tail ⟨_,_,?_,rfl⟩⟩,?_⟩
  all_goals decide +kernel

end MatchingEngine

import MatchingEngine.Crossing

/-! Price-time priority. Nothing in the matcher computes it: it is inherited from the listing
order of the sorted sets, where equal prices are ordered by order id. Time priority therefore
holds exactly as far as ids grow with arrival. -/
namespace MatchingEngine
open Library

/-- A resting order of one set. -/
def Valkey.Live (db : Valkey) (pair : String) (side : Side) (id : Uuid) (h : OrderHash) : Prop :=
  id ∈ db.book pair side ∧ db.order id = some h

/-- Strictly better price among resting orders of a side: lower asks, higher bids. -/
def BetterPrice (side : Side) (p q : ℤ) : Prop :=
  match side with
  | .sell => p < q
  | .buy => q < p

/-- The first order was submitted by an earlier call than the second. -/
def Exchange.Earlier (s : Exchange) (id₁ id₂ : Uuid) : Prop := [id₁,id₂].Sublist (s.submitted.map Order.id)

/-- Price-time priority of the next call: of two live crossing orders of other users, the one
behind trades only if the one in front is fully filled. -/
def Exchange.PriceTimePriority (s : Exchange) : Prop :=
  ∀ (o : Order) (asset : String) (amount : ℤ) (id₁ id₂ : Uuid) (h₁ h₂ : OrderHash),
    s.db.Live o.pairId o.side.opposite id₁ h₁ → s.db.Live o.pairId o.side.opposite id₂ h₂ →
    (matchArgs o asset amount).Crosses h₁ → (matchArgs o asset amount).Crosses h₂ →
    h₁.userId ≠ o.userId → h₂.userId ≠ o.userId →
    (BetterPrice o.side.opposite h₁.priceI h₂.priceI ∨ h₁.priceI = h₂.priceI ∧ s.Earlier id₁ id₂) →
    (∃ t ∈ (matchOrderScript s.db (matchArgs o asset amount)).1.trades, t.restingId = id₂) →
    ∃ t ∈ (matchOrderScript s.db (matchArgs o asset amount)).1.trades,
      t.restingId = id₁ ∧ t.qtyI = h₁.remainingI

/-- An order that will rest has an id behind those resting at its price. -/
def Exchange.IdsGrow (s : Exchange) (o : Order) : Prop :=
  o.tif = .gtc → o.LeavesRemainder s.db →
    ∀ id h, s.db.Live o.pairId o.side id h → h.priceI = o.priceI → id < o.id

/-- At one price of one set, earlier orders have smaller ids. -/
def Exchange.Fifo (s : Exchange) : Prop :=
  ∀ pair side id₁ id₂ h₁ h₂, s.db.Live pair side id₁ h₁ → s.db.Live pair side id₂ h₂ →
    h₁.priceI = h₂.priceI → s.Earlier id₁ id₂ → id₁ < id₂

lemma signedPrice_lt_iff {side : Side} {p q : ℤ} : signedPrice side p < signedPrice side q ↔ BetterPrice side p q := by
  cases side <;> simp [signedPrice, BetterPrice]

/-! ### One call -/

lemma resting_pair_sublist {db : Valkey} {ids : List Uuid} {r₁ r₂ : Resting} (h : [r₁.id,r₂.id].Sublist ids)
    (h₁ : db.order r₁.id = some r₁.hash) (h₂ : db.order r₂.id = some r₂.hash) :
    [r₁,r₂].Sublist (db.resting ids) := by
  have hm := h.filterMap (fun id => (db.order id).map (Resting.mk id))
  unfold Valkey.resting
  simpa [h₁, h₂] using hm

/-- Sorted-set order of two live orders gives matching priority. -/
theorem script_priority {db : Valkey} {a : MatchArgs} {e₁ e₂ : Entry ℤ Uuid} {h₁ : OrderHash}
    (he₁ : e₁ ∈ (db.book a.pairId a.side.opposite).entries)
    (he₂ : e₂ ∈ (db.book a.pairId a.side.opposite).entries) (hb : e₁.Before e₂)
    (ho₁ : db.order e₁.member = some h₁) (hc : ¬ h₁.Consumed) (hu : h₁.userId ≠ a.userId)
    (ht : ∃ t ∈ (matchOrderScript db a).1.trades, t.restingId = e₂.member) :
    ∃ t ∈ (matchOrderScript db a).1.trades, t.restingId = e₁.member ∧ t.qtyI = h₁.remainingI := by
  rw [matchOrderScript_eq] at ht ⊢
  cases hl : lockBalance db a with
  | none => simp [hl, Reply.trades] at ht
  | some db₁ =>
    simp only [hl, Reply.trades] at ht ⊢
    obtain ⟨t,ht,hid⟩ := ht
    obtain ⟨r₂,q,hv,rfl⟩ := Plan.mem_trades.mp ht
    have hid : r₂.id = e₂.member := hid
    obtain ⟨hcand,ho₂⟩ := mem_resting.mp (plan_mem hv)
    have hpair : [e₁.member,r₂.id].Sublist (candidates db a) := by
      rw [hid] at hcand ⊢
      exact SortedSet.pair_sublist_take_rangeByScore he₁ he₂ hb hcand
    have hstp : a.stpAction h₁ = .none := by simp [MatchArgs.stpAction, Ne.symm hu]
    have hsub : [⟨e₁.member,h₁⟩,r₂].Sublist (db.resting (candidates db a)) := resting_pair_sublist hpair ho₁ ho₂
    have hfill := plan_priority (resting_ids_nodup (candidates_nodup db a)) hsub hv hc hstp
    exact ⟨_,Plan.mem_trades.mpr ⟨_,_,hfill,rfl⟩,rfl,rfl⟩

/-! ### Runs -/

lemma pair_sublist_of_append_singleton {x y z : Uuid} {l : List Uuid} (h : [x,y].Sublist (l ++ [z]))
    (hy : y ≠ z) : [x,y].Sublist l := by
  obtain ⟨l₁,l₂,hl,h₁,h₂⟩ := List.sublist_append_iff.mp h
  rcases List.sublist_singleton.mp h₂ with rfl | rfl
  · rw [hl, List.append_nil]; exact h₁
  · have := congrArg List.getLast? hl
    simp at this
    exact absurd this hy

/-- After a call a live order is the incoming one, or was live before with the same price. -/
lemma live_submit {s : Exchange} (hr : s.db.Represented) (hs : s.Accounted) {o : Order} {asset : String}
    {amount : ℤ} (hfresh : ∀ p ∈ s.submitted, p.id ≠ o.id) (hq : 0 ≤ o.qtyI) (hp : o.Priced)
    {pair : String} {side : Side} {id : Uuid} {h : OrderHash}
    (hlive : (s.submit o asset amount).db.Live pair side id h) :
    (id = o.id ∧ pair = o.pairId ∧ side = o.side ∧ h.priceI = o.priceI ∧ o.tif = .gtc ∧ o.LeavesRemainder s.db) ∨
    (id ≠ o.id ∧ ∃ h', s.db.Live pair side id h' ∧ h'.priceI = h.priceI) := by
  obtain ⟨hm,ho⟩ := hlive
  have hrep : (s.submit o asset amount).db.Represented := hr.submit hs hfresh hq
  obtain ⟨w,hw,hpair,hside⟩ := hrep.order_of_mem hm
  rw [ho] at hw
  cases hw
  have hold : ∀ h', s.db.order id = some h' → h'.pairId = pair → h'.side = side → h'.priceI = h.priceI →
      id ≠ o.id ∧ ∃ h', s.db.Live pair side id h' ∧ h'.priceI = h.priceI := by
    rintro h' ho' rfl rfl hpr
    refine ⟨?_,h',⟨(hr.member id h' ho').2,ho'⟩,hpr⟩
    rintro rfl
    rw [hs.order_fresh hfresh] at ho'
    cases ho'
  cases hl : lockBalance s.db (matchArgs o asset amount) with
  | none =>
    rw [submit_of_no_lock hl] at ho
    exact .inr (hold h ho hpair hside rfl)
  | some db₁ =>
    rw [submit_of_lock hl] at ho
    rcases settle_order_cases hl ho with ⟨hrest,rfl,rfl⟩ | ⟨v,hv,rfl,hout⟩ | ⟨_,ho⟩
    · exact .inl ⟨rfl,hpair.symm,hside.symm,rfl,(rests_iff hr hp hq asset amount).mp hrest⟩
    · obtain ⟨q,_,_,rfl⟩ := Visit.outcome_fields hout
      exact .inr (hold _ (planOn_visit hv).2.1 hpair hside rfl)
    · exact .inr (hold h ho hpair hside rfl)

lemma Exchange.Fifo.submit {s : Exchange} (hf : s.Fifo) (hr : s.db.Represented) (hs : s.Accounted) {o : Order}
    {asset : String} {amount : ℤ} (hfresh : ∀ p ∈ s.submitted, p.id ≠ o.id) (hq : 0 ≤ o.qtyI)
    (hp : o.Priced) (hids : s.IdsGrow o) : (s.submit o asset amount).Fifo := by
  have hacc : (s.submit o asset amount).Accounted := hs.submit hfresh hq
  have hnodup := hacc.nodup
  have hsub : (s.submit o asset amount).submitted = s.submitted ++ [o] := rfl
  intro pair side id₁ id₂ h₁ h₂ l₁ l₂ hprice hearlier
  unfold Exchange.Earlier at hearlier
  rw [hsub, List.map_append] at hearlier hnodup
  rcases live_submit hr hs hfresh hq hp l₂ with ⟨rfl,rfl,rfl,hp₂,hgtc,hrem⟩ | ⟨hne₂,h₂',l₂',hp₂⟩
  · rcases live_submit hr hs hfresh hq hp l₁ with ⟨rfl,_⟩ | ⟨_,h₁',l₁',hp₁⟩
    · have := hearlier.nodup hnodup
      simp at this
    · exact hids hgtc hrem id₁ h₁' l₁' (hp₁.trans (hprice.trans hp₂))
  · have he := pair_sublist_of_append_singleton hearlier hne₂
    rcases live_submit hr hs hfresh hq hp l₁ with ⟨rfl,_⟩ | ⟨_,h₁',l₁',hp₁⟩
    · obtain ⟨p,hp,hpid⟩ := List.mem_map.mp (he.subset (List.mem_cons_self ..))
      exact absurd hpid (hfresh p hp)
    · exact hf pair side id₁ id₂ h₁' h₂' l₁' l₂' (hp₁.trans (hprice.trans hp₂.symm)) he

lemma live_of_remove {s : Exchange} {c : Order} {pair : String} {side : Side} {id : Uuid} {h : OrderHash}
    (hl : (s.remove c).db.Live pair side id h) : s.db.Live pair side id h := by
  obtain ⟨hm,ho⟩ := hl
  simp only [Exchange.remove, Valkey.removeOrderFromBook, Valkey.dropOrder_order, Valkey.dropOrder_book] at hm ho
  constructor
  · split_ifs at hm
    · exact (SortedSet.mem_remove.mp hm).1
    · exact hm
  · split_ifs at ho
    exact ho

lemma Exchange.Fifo.remove {s : Exchange} (hf : s.Fifo) (c : Order) : (s.remove c).Fifo := by
  intro pair side id₁ id₂ h₁ h₂ l₁ l₂ hprice he
  exact hf pair side id₁ id₂ h₁ h₂ (live_of_remove l₁) (live_of_remove l₂) hprice he

lemma Exchange.Fifo.priority {s : Exchange} (hf : s.Fifo) (hr : s.db.Represented) : s.PriceTimePriority := by
  intro o asset amount id₁ id₂ h₁ h₂ l₁ l₂ _ _ hu₁ _ hbetter ht
  obtain ⟨e₁,he₁,rfl⟩ := SortedSet.mem_iff.mp l₁.1
  obtain ⟨e₂,he₂,rfl⟩ := SortedSet.mem_iff.mp l₂.1
  obtain ⟨w₁,hw₁,_,_,hsc₁⟩ := hr.entry _ _ e₁ he₁
  obtain ⟨w₂,hw₂,_,_,hsc₂⟩ := hr.entry _ _ e₂ he₂
  obtain rfl := Option.some.inj (l₁.2.symm.trans hw₁)
  obtain rfl := Option.some.inj (l₂.2.symm.trans hw₂)
  have hb : e₁.Before e₂ := by
    rcases hbetter with hp | ⟨hp,he⟩
    · left; rw [hsc₁, hsc₂]; exact signedPrice_lt_iff.mpr hp
    · right; exact ⟨by rw [hsc₁, hsc₂, hp],hf _ _ _ _ h₁ h₂ l₁ l₂ hp he⟩
  exact script_priority he₁ he₂ hb l₁.2 (hr.not_consumed l₁.2) hu₁ ht

/-- In every run of limit orders whose ids grow along each price level, every call respects
price-time priority. -/
theorem reachable_price_time_priority {s : Exchange}
    (h : Reachable (fun s o => (o.orderType = .limit ∧ o.price.isSome ∧ o.InScale) ∧ s.IdsGrow o) s) :
    s.PriceTimePriority := by
  have hinv : ∀ t, Reachable (fun s o => (o.orderType = .limit ∧ o.price.isSome ∧ o.InScale) ∧ s.IdsGrow o) t →
      t.db.Represented ∧ t.Accounted := fun t ht => ht.invariant (fun _ o ho => ho.1.2.2.qty_pos.le)
  refine Exchange.Fifo.priority ?_ (hinv s h).1
  obtain ⟨db,hdb,hrun⟩ := h
  induction hrun with
  | refl =>
    intro pair side id₁ id₂ h₁ h₂ l₁
    have := l₁.2
    simp [hdb.2] at this
  | @tail t u hpre hstep ih =>
    obtain ⟨hr,hs⟩ := hinv t ⟨db,hdb,hpre⟩
    cases hstep with
    | submit o asset amount hfresh hadm =>
      exact ih.submit hr hs hfresh hadm.1.2.2.qty_pos.le (fun _ => hadm.1.2.1) hadm.2
    | remove o c _ _ _ _ => exact ih.remove c

/-- Asks `1` and `2`, in this order: a buy that reaches the second takes all of the first. -/
theorem price_time_priority_growing_ids :
    (twoAsks 1 2).PriceTimePriority ∧
    (matchOrderScript (twoAsks 1 2).db (matchArgs (.gtcLimit 3 "bob" "BTC-USDT" .buy 100 7) "USDT" 0)).1 =
      .ok 0 .filled [⟨1,100,5,"bob","alice"⟩,⟨2,100,2,"bob","carol"⟩] := by
  refine ⟨reachable_price_time_priority ⟨Valkey.empty,⟨fun _ _ => rfl,fun _ => rfl⟩,
    (Relation.ReflTransGen.refl.tail (.submit _ _ _ ?_ ⟨⟨rfl,rfl,?_,?_,?_⟩,?_⟩)).tail
      (.submit _ _ _ ?_ ⟨⟨rfl,rfl,?_,?_,?_⟩,?_⟩)⟩,by decide +kernel⟩
  any_goals decide +kernel
  · intro _ _ id h hl _
    have hm : (((Exchange.mk Valkey.empty [] []).submit (.gtcLimit 1 "alice" "BTC-USDT" .sell 100 5)
        "BTC" 0).db.book "BTC-USDT" .sell).entries.map Entry.member = [1] := by decide +kernel
    have hid : id ∈ [1] := hm ▸ (show id ∈ List.map Entry.member _ from hl.1)
    obtain rfl := List.mem_singleton.mp hid
    decide
  · intro _ _ id h hl
    exact absurd hl.2 (by simp [Valkey.empty])

/-- Asks `2` and `1`, in this order: the buy takes the second and leaves the first untouched. -/
theorem price_time_priority_fails :
    ∃ s : Exchange, Reachable (fun _ o => o.orderType = .limit ∧ o.price.isSome ∧ o.InScale) s ∧
      ¬ s.PriceTimePriority := by
  refine ⟨twoAsks 2 1,twoAsks_reachable (by decide),?_⟩
  intro hpri
  have h := hpri (.gtcLimit 3 "bob" "BTC-USDT" .buy 100 5) "USDT" 0 2 1
    ((matchArgs (.gtcLimit 2 "alice" "BTC-USDT" .sell 100 5) "" 0).restingHash 5 .new)
    ((matchArgs (.gtcLimit 1 "carol" "BTC-USDT" .sell 100 5) "" 0).restingHash 5 .new)
    ⟨by decide +kernel,by decide +kernel⟩ ⟨by decide +kernel,by decide +kernel⟩ (by decide +kernel) (by decide +kernel)
    (by decide +kernel) (by decide +kernel) (.inr ⟨by decide +kernel,List.Sublist.refl _⟩) (by decide +kernel)
  revert h
  decide +kernel

end MatchingEngine

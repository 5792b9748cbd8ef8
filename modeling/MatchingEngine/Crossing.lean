import MatchingEngine.BookInvariant

/-! The price bound of the candidate fetch. In a represented book the fetched candidates of a
priced order all pass the loop's own price test, so the loop ends only by filling the order,
by self-trade prevention or by running out of candidates. -/
namespace MatchingEngine
open Library

/-- Limit orders carry a price; `create_order` and `process_order` reject any other. -/
def Order.Priced (o : Order) : Prop := o.orderType = .limit → o.price.isSome

/-- The price test in terms of scores: a limit order meets exactly the scores up to its bound. -/
lemma crosses_iff_score {o : Order} {asset : String} {amount : ℤ} {h : OrderHash}
    (hl : o.orderType = .limit) (hp : o.price.isSome) :
    (matchArgs o asset amount).Crosses h ↔
      ∀ m ∈ (matchArgs o asset amount).maxScore, signedPrice o.side.opposite h.priceI ≤ m := by
  obtain ⟨p,hp⟩ := Option.isSome_iff_exists.mp hp
  cases hs : o.side <;>
    simp [MatchArgs.Crosses, matchArgs, maxScore, signedPrice, Order.priceI, hl, hp, hs, Side.opposite]

lemma crosses_of_market {o : Order} {asset : String} {amount : ℤ} (h : OrderHash)
    (hm : o.orderType = .market) : (matchArgs o asset amount).Crosses h := by
  simp [MatchArgs.Crosses, matchArgs, hm]

/-- Every fetched candidate of a priced order crosses it. -/
theorem resting_candidates_cross {db : Valkey} (hr : db.Represented) {o : Order} (hp : o.Priced)
    {asset : String} {amount : ℤ} {r : Resting}
    (hm : r ∈ db.resting (candidates db (matchArgs o asset amount))) :
    (matchArgs o asset amount).Crosses r.hash := by
  cases ht : o.orderType with
  | market => exact crosses_of_market _ ht
  | limit =>
    obtain ⟨hid,ho⟩ := mem_resting.mp hm
    obtain ⟨e,he,hmax,hme⟩ := SortedSet.mem_rangeByScore.mp (List.mem_of_mem_take hid)
    obtain ⟨h,ho',_,_,hsc⟩ := hr.entry _ _ e he
    rw [hme, ho] at ho'
    cases ho'
    rw [crosses_iff_score ht (hp ht)]
    intro m hm
    exact hsc ▸ hmax m hm

/-- The first fifty candidates neither stop the order nor hold enough to fill it. This is a
condition on the store before the call. -/
def Order.LeavesRemainder (o : Order) (db : Valkey) : Prop :=
  (matchArgs o "" 0).Exhausts (db.resting (candidates db (matchArgs o "" 0)))

instance (o : Order) (db : Valkey) : Decidable (o.LeavesRemainder db) :=
  inferInstanceAs (Decidable (MatchArgs.Exhausts _ _))

theorem planOn_remainingI_pos_iff {db : Valkey} (hr : db.Represented) {o : Order} (hp : o.Priced)
    (hq : 0 ≤ o.qtyI) (asset : String) (amount : ℤ) :
    0 < ((matchArgs o asset amount).planOn db).remainingI ↔ o.LeavesRemainder db :=
  plan_remainingI_pos_iff hq (fun _ hm _ => resting_candidates_cross hr hp hm)

lemma rests_iff {db : Valkey} (hr : db.Represented) {o : Order} (hp : o.Priced) (hq : 0 ≤ o.qtyI)
    (asset : String) (amount : ℤ) :
    ((matchArgs o asset amount).planOn db).Rests (matchArgs o asset amount) ↔
      o.tif = .gtc ∧ o.LeavesRemainder db := by
  rw [← planOn_remainingI_pos_iff hr hp hq asset amount]
  constructor
  · rintro ⟨ht,h0,_⟩; exact ⟨ht,h0⟩
  · rintro ⟨ht,h0⟩
    have hs : ((matchArgs o asset amount).planOn db).stpCancelled = false := (planOn_account hq h0).1
    refine ⟨ht,h0,?_⟩
    have ht' : (matchArgs o asset amount).tif = .gtc := ht
    rw [Plan.status_of_pos hs h0, if_neg (by simp [ht'])]
    split_ifs <;> simp

end MatchingEngine

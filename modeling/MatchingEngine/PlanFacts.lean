import MatchingEngine.MatchPlan

/-! What a plan can do: which candidates it visits, how its fills add up, and when it
leaves a remainder. The last section reads the whole script off its plan. -/
namespace MatchingEngine
open Library

namespace MatchArgs

/-- The modes that cancel the incoming order. -/
def Stops (a : MatchArgs) (r : OrderHash) : Prop :=
  a.stpAction r = .cancelTaker ∨ a.stpAction r = .cancelBoth

instance (a : MatchArgs) (r : OrderHash) : Decidable (a.Stops r) := inferInstanceAs (Decidable (_ ∨ _))

/-- The quantity a candidate offers to this order. -/
def tradableI (a : MatchArgs) (r : Resting) : ℤ :=
  if r.hash.Consumed ∨ a.stpAction r.hash ≠ .none then 0 else r.hash.remainingI

/-- The candidates neither stop the order nor hold enough to fill it. -/
def Exhausts (a : MatchArgs) (rs : List Resting) : Prop :=
  (∀ r ∈ rs, ¬ r.hash.Consumed → ¬ a.Stops r.hash) ∧ (rs.map a.tradableI).sum < a.qtyI

instance (a : MatchArgs) (rs : List Resting) : Decidable (a.Exhausts rs) :=
  inferInstanceAs (Decidable (_ ∧ _))

lemma fillI_pos {rem : ℤ} {r : OrderHash} (hrem : ¬ rem ≤ 0) (hr : ¬ r.Consumed) : 0 < fillI rem r := by
  simp only [OrderHash.Consumed, not_or] at hr
  unfold fillI
  split_ifs <;> omega

lemma fillI_le (rem : ℤ) (r : OrderHash) : fillI rem r ≤ rem ∧ fillI rem r ≤ r.remainingI := by
  unfold fillI
  split_ifs <;> omega

lemma fillI_eq_remaining {rem : ℤ} {r : OrderHash} (h : ¬ rem - fillI rem r ≤ 0) :
    fillI rem r = r.remainingI := by
  unfold fillI at h ⊢
  split_ifs at h ⊢ <;> omega

end MatchArgs

section Visits
variable {a : MatchArgs} {rem : ℤ} {rs : List Resting}

lemma plan_sublist (a : MatchArgs) (rem : ℤ) (rs : List Resting) :
    ((plan a rem rs).visits.map Visit.resting).Sublist rs := by
  fun_induction plan a rem rs with
  | case1 => exact List.Sublist.refl _
  | case2 => exact List.nil_sublist _
  | case3 rem r rest _ _ ih => exact ih.cons r
  | case4 => exact List.nil_sublist _
  | case5 rem r rest _ _ _ _ ih => exact ih.cons_cons r
  | case6 => exact List.nil_sublist _
  | case7 => simp
  | case8 rem r rest _ _ _ _ ih => exact ih.cons_cons r

lemma plan_mem {v : Visit} (hv : v ∈ (plan a rem rs).visits) : v.resting ∈ rs :=
  (plan_sublist a rem rs).subset (List.mem_map_of_mem hv)

lemma plan_ids_nodup (hn : (rs.map Resting.id).Nodup) :
    ((plan a rem rs).visits.map Visit.id).Nodup := by
  have h := ((plan_sublist a rem rs).map Resting.id).nodup hn
  rwa [List.map_map] at h

/-- The visited orders are live, cross the incoming order, and are filled within their
remainder or cancelled by self-trade prevention. -/
structure Visit.Valid (a : MatchArgs) (v : Visit) : Prop where
  live : ¬ v.resting.hash.Consumed
  crosses : a.Crosses v.resting.hash
  fill : ∀ q, v.action = .fill q → 0 < q ∧ q ≤ v.resting.hash.remainingI ∧
    a.stpAction v.resting.hash = .none
  cancel : v.action = .cancel → a.stpAction v.resting.hash = .cancelMaker ∨
    a.stpAction v.resting.hash = .cancelBoth

theorem plan_valid {v : Visit} (hv : v ∈ (plan a rem rs).visits) : v.Valid a := by
  fun_induction plan a rem rs with
  | case1 => cases hv
  | case2 => cases hv
  | case3 rem r rest _ _ ih => exact ih hv
  | case4 => cases hv
  | case5 rem r rest _ hc hx hstp ih =>
    rcases List.mem_cons.mp hv with rfl | hv
    · exact ⟨hc,not_not.mp hx,fun q hq => by simp at hq,fun _ => .inl hstp⟩
    · exact ih hv
  | case6 => cases hv
  | case7 rem r rest _ hc hx hstp =>
    obtain rfl := List.mem_singleton.mp hv
    exact ⟨hc,not_not.mp hx,fun q hq => by simp at hq,fun _ => .inr hstp⟩
  | case8 rem r rest hrem hc hx hstp ih =>
    rcases List.mem_cons.mp hv with rfl | hv
    · refine ⟨hc,not_not.mp hx,?_,fun h => by simp at h⟩
      rintro q ⟨⟩
      exact ⟨MatchArgs.fillI_pos hrem hc,(MatchArgs.fillI_le rem r.hash).2,hstp⟩
    · exact ih hv

lemma Visit.Valid.filledI_nonneg {v : Visit} (h : v.Valid a) : 0 ≤ v.filledI := by
  unfold Visit.filledI
  split
  · exact (h.fill _ (by assumption)).1.le
  · exact le_rfl

lemma Visit.Valid.filledI_le {v : Visit} (h : v.Valid a) : v.filledI ≤ v.resting.hash.remainingI := by
  unfold Visit.filledI
  split
  · exact (h.fill _ (by assumption)).2.1
  · have := h.live
    simp only [OrderHash.Consumed, not_or] at this
    omega

lemma Plan.filledI_nonneg (a : MatchArgs) (rem : ℤ) (rs : List Resting) :
    0 ≤ (plan a rem rs).filledI := by
  apply List.sum_nonneg
  intro q hq
  obtain ⟨v,hv,rfl⟩ := List.mem_map.mp hq
  exact (plan_valid hv).filledI_nonneg

lemma Plan.mem_trades {a : MatchArgs} {p : Plan} {t : ScriptTrade} :
    t ∈ p.trades a ↔ ∃ r q, ⟨r,.fill q⟩ ∈ p.visits ∧ t = a.trade r.hash r.id q := by
  unfold Plan.trades
  rw [List.mem_filterMap]
  constructor
  · rintro ⟨⟨r,act⟩,hv,ht⟩
    cases act with
    | cancel => cases ht
    | fill q => exact ⟨r,q,hv,(Option.some.inj ht).symm⟩
  · rintro ⟨r,q,hv,rfl⟩
    exact ⟨_,hv,rfl⟩

lemma Visit.trade?_restingId {a : MatchArgs} {v : Visit} {t : ScriptTrade} (h : v.trade? a = some t) :
    t.restingId = v.id := by
  obtain ⟨r,act⟩ := v
  cases act with
  | cancel => cases h
  | fill q =>
    cases h
    rfl

lemma Plan.trades_restingIds_nodup {a : MatchArgs} {p : Plan} (hn : (p.visits.map Visit.id).Nodup) :
    ((p.trades a).map ScriptTrade.restingId).Nodup := by
  unfold Plan.trades
  generalize p.visits = vs at hn
  induction vs with
  | nil => simp
  | cons v vs ih =>
    rw [List.map_cons, List.nodup_cons] at hn
    obtain ⟨r,act⟩ := v
    cases act with
    | cancel => exact ih hn.2
    | fill q =>
      rw [List.filterMap_cons_some (Visit.trade?_fill a r q), List.map_cons, List.nodup_cons]
      refine ⟨fun hmem => hn.1 ?_,ih hn.2⟩
      obtain ⟨t,ht,he⟩ := List.mem_map.mp hmem
      obtain ⟨w,hw,hwt⟩ := List.mem_filterMap.mp ht
      refine List.mem_map.mpr ⟨w,hw,?_⟩
      rw [← Visit.trade?_restingId hwt, he]
      rfl

lemma plan_trades_eq_nil_iff : (plan a rem rs).trades a = [] ↔ (plan a rem rs).filledI = 0 := by
  constructor
  · intro h
    apply List.sum_eq_zero
    intro q hq
    obtain ⟨⟨r,act⟩,hv,rfl⟩ := List.mem_map.mp hq
    cases act with
    | cancel => rfl
    | fill q =>
      have ht : a.trade r.hash r.id q ∈ (plan a rem rs).trades a := Plan.mem_trades.mpr ⟨r,q,hv,rfl⟩
      rw [h] at ht
      cases ht
  · intro h
    by_contra hne
    obtain ⟨t,ht⟩ := List.exists_mem_of_ne_nil _ hne
    obtain ⟨r,q,hv,rfl⟩ := Plan.mem_trades.mp ht
    have hq : 0 < q := ((plan_valid hv).fill q rfl).1
    have hle : q ≤ (plan a rem rs).filledI := by
      refine List.single_le_sum ?_ q (List.mem_map.mpr ⟨_,hv,rfl⟩)
      intro x hx
      obtain ⟨v,hv,rfl⟩ := List.mem_map.mp hx
      exact (plan_valid hv).filledI_nonneg
    omega

/-! ### Accounting -/

/-- Fills and remainder add up to the quantity, unless self-trade prevention cut it to zero. -/
theorem plan_account (a : MatchArgs) {rem : ℤ} (rs : List Resting) (hrem : 0 ≤ rem) :
    0 ≤ (plan a rem rs).remainingI ∧
    if (plan a rem rs).stpCancelled then
      (plan a rem rs).remainingI = 0 ∧ (plan a rem rs).filledI ≤ rem
    else (plan a rem rs).filledI + (plan a rem rs).remainingI = rem := by
  fun_induction plan a rem rs with
  | case1 rem => simpa [Plan.filledI] using hrem
  | case2 rem => simpa [Plan.filledI] using hrem
  | case3 rem r rest _ _ ih => exact ih hrem
  | case4 rem => simpa [Plan.filledI] using hrem
  | case5 rem r rest _ _ _ _ ih => simpa using ih hrem
  | case6 rem => simpa [Plan.filledI] using hrem
  | case7 rem => simpa [Plan.filledI] using hrem
  | case8 rem r rest _ _ _ _ ih =>
    have hle := (MatchArgs.fillI_le rem r.hash).1
    obtain ⟨h0,h⟩ := ih (by omega)
    refine ⟨h0,?_⟩
    simp only [Plan.filledI_cons, Plan.remainingI_cons, Plan.stpCancelled_cons, Visit.filledI_fill]
    split_ifs at h ⊢ <;> omega

lemma plan_filledI_le (a : MatchArgs) {rem : ℤ} (rs : List Resting) (hrem : 0 ≤ rem) :
    (plan a rem rs).filledI ≤ rem := by
  obtain ⟨h0,h⟩ := plan_account a rs hrem
  split_ifs at h <;> omega

lemma plan_not_stp (hrem : 0 ≤ rem) (h : 0 < (plan a rem rs).remainingI) :
    (plan a rem rs).stpCancelled = false := by
  obtain ⟨_,h'⟩ := plan_account a rs hrem
  by_contra hs
  rw [if_pos (by simpa using hs)] at h'
  omega

lemma plan_all_fill (h : ∀ r ∈ rs, a.stpAction r.hash = .none) :
    (plan a rem rs).stpCancelled = false ∧ ∀ v ∈ (plan a rem rs).visits, ∃ q, v.action = .fill q := by
  fun_induction plan a rem rs with
  | case1 => simp
  | case2 => simp
  | case3 rem r rest _ _ ih => exact ih (fun x hx => h x (by simp [hx]))
  | case4 => simp
  | case5 rem r rest _ _ _ hm => rw [h r (by simp)] at hm; cases hm
  | case6 rem r rest _ _ _ hm => rw [h r (by simp)] at hm; cases hm
  | case7 rem r rest _ _ _ hm => rw [h r (by simp)] at hm; cases hm
  | case8 rem r rest _ _ _ _ ih =>
    obtain ⟨hs,hv⟩ := ih (fun x hx => h x (by simp [hx]))
    refine ⟨hs,?_⟩
    intro v hmem
    rcases List.mem_cons.mp hmem with rfl | hmem
    · exact ⟨_,rfl⟩
    · exact hv v hmem

lemma plan_of_le (a : MatchArgs) {rem : ℤ} (rs : List Resting) (h : rem ≤ 0) :
    plan a rem rs = ⟨[],rem,false⟩ := by
  cases rs with
  | nil => rfl
  | cons r rest => rw [plan, if_pos h]

/-- A live candidate within the price, left alone by self-trade prevention, is filled. -/
lemma plan_of_fill {r : Resting} {rest : List Resting} (h : ¬ rem ≤ 0) (hc : ¬ r.hash.Consumed) (hx : a.Crosses r.hash)
    (ha : a.stpAction r.hash = .none) : plan a rem (r :: rest) =
      (plan a (rem - MatchArgs.fillI rem r.hash) rest).cons ⟨r,.fill (MatchArgs.fillI rem r.hash)⟩ := by
  rw [plan, if_neg h, if_neg hc, if_neg (not_not.mpr hx), ha]

lemma plan_of_cancelMaker {r : Resting} {rest : List Resting} (h : ¬ rem ≤ 0) (hc : ¬ r.hash.Consumed)
    (hx : a.Crosses r.hash) (ha : a.stpAction r.hash = .cancelMaker) :
    plan a rem (r :: rest) = (plan a rem rest).cons ⟨r,.cancel⟩ := by
  rw [plan, if_neg h, if_neg hc, if_neg (not_not.mpr hx), ha]

/-! ### Order of the fills -/

/-- A live candidate that precedes a filled one, and that self-trade prevention leaves
alone, is filled completely. -/
theorem plan_priority {r₁ r₂ : Resting} {q : ℤ} (hn : (rs.map Resting.id).Nodup)
    (hsub : [r₁,r₂].Sublist rs) (h₂ : ⟨r₂,.fill q⟩ ∈ (plan a rem rs).visits)
    (hc : ¬ r₁.hash.Consumed) (hstp : a.stpAction r₁.hash = .none) :
    ⟨r₁,.fill r₁.hash.remainingI⟩ ∈ (plan a rem rs).visits := by
  fun_induction plan a rem rs with
  | case1 => cases hsub
  | case2 => cases h₂
  | case3 rem r rest _ hr ih =>
    rw [List.map_cons, List.nodup_cons] at hn
    rcases List.sublist_cons_iff.mp hsub with hsub | ⟨l,hl,_⟩
    · exact ih hn.2 hsub h₂
    · obtain ⟨rfl,_⟩ := List.cons.inj hl
      exact absurd hr hc
  | case4 => cases h₂
  | case5 rem r rest _ _ _ hm ih =>
    rw [List.map_cons, List.nodup_cons] at hn
    rcases List.sublist_cons_iff.mp hsub with hsub | ⟨l,hl,_⟩
    · have h := (List.mem_cons.mp h₂).resolve_left (by simp)
      exact List.mem_cons_of_mem _ (ih hn.2 hsub h)
    · obtain ⟨rfl,_⟩ := List.cons.inj hl
      rw [hm] at hstp
      cases hstp
  | case6 => cases h₂
  | case7 => simp at h₂
  | case8 rem r rest hrem _ _ _ ih =>
    rw [List.map_cons, List.nodup_cons] at hn
    have hmem : ∀ x ∈ rest, x ≠ r := by
      rintro x hx rfl
      exact hn.1 (List.mem_map_of_mem hx)
    rcases List.sublist_cons_iff.mp hsub with hsub | ⟨l,hl,hls⟩
    · have hr₂ : r₂ ≠ r := hmem r₂ (hsub.subset (by simp))
      have h := (List.mem_cons.mp h₂).resolve_left (by simp [hr₂])
      exact List.mem_cons_of_mem _ (ih hn.2 hsub h)
    · obtain ⟨rfl,rfl⟩ := List.cons.inj hl
      have hr₂ : r₂ ≠ r₁ := hmem r₂ (List.singleton_sublist.mp hls)
      have h := (List.mem_cons.mp h₂).resolve_left (by simp [hr₂])
      -- the loop went on after `r₁`, so the fill was bounded by the resting order
      have hgo : ¬ rem - MatchArgs.fillI rem r₁.hash ≤ 0 := by
        intro hle
        rw [plan_of_le a rest hle] at h
        cases h
      simp [MatchArgs.fillI_eq_remaining hgo]

/-! ### Remainders -/

/-- Where every live candidate crosses, a remainder means that every live candidate has
left the book. -/
theorem plan_remainder (hx : ∀ r ∈ rs, ¬ r.hash.Consumed → a.Crosses r.hash)
    (h : 0 < (plan a rem rs).remainingI) {r : Resting} (hr : r ∈ rs) (hc : ¬ r.hash.Consumed) :
    ∃ v ∈ (plan a rem rs).visits, v.resting = r ∧ v.outcome = none := by
  fun_induction plan a rem rs with
  | case1 => cases hr
  | case2 => simp only at h; omega
  | case3 rem s rest _ hs ih =>
    have hrs : r ∈ rest := by
      rcases List.mem_cons.mp hr with rfl | hr
      · exact absurd hs hc
      · exact hr
    exact ih (fun x hxr => hx x (by simp [hxr])) h hrs
  | case4 rem s rest _ hs hns => exact absurd (hx s (by simp) hs) hns
  | case5 rem s rest _ _ _ _ ih =>
    rcases List.mem_cons.mp hr with rfl | hr
    · exact ⟨_,List.mem_cons_self ..,rfl,rfl⟩
    · obtain ⟨v,hv,h⟩ := ih (fun x hxr => hx x (by simp [hxr])) h hr
      exact ⟨v,List.mem_cons_of_mem _ hv,h⟩
  | case6 => simp at h
  | case7 => simp at h
  | case8 rem s rest hrem _ _ _ ih =>
    rcases List.mem_cons.mp hr with rfl | hr
    · refine ⟨_,List.mem_cons_self ..,rfl,?_⟩
      have hgo : ¬ rem - MatchArgs.fillI rem r.hash ≤ 0 := by
        intro hle
        rw [Plan.remainingI_cons, plan_of_le a rest hle] at h
        exact absurd h (not_lt.mpr hle)
      simp [Visit.outcome, MatchArgs.fillI_eq_remaining hgo]
    · obtain ⟨v,hv,h⟩ := ih (fun x hxr => hx x (by simp [hxr])) h hr
      exact ⟨v,List.mem_cons_of_mem _ hv,h⟩

lemma tradableI_nonneg (a : MatchArgs) (r : Resting) : 0 ≤ a.tradableI r := by
  unfold MatchArgs.tradableI
  split_ifs with h
  · exact le_rfl
  · simp only [OrderHash.Consumed, not_or] at h
    omega

lemma tradableI_sum_nonneg (a : MatchArgs) (rs : List Resting) : 0 ≤ (rs.map a.tradableI).sum := by
  apply List.sum_nonneg
  intro q hq
  obtain ⟨r,_,rfl⟩ := List.mem_map.mp hq
  exact tradableI_nonneg a r

/-- Where every live candidate crosses, the order keeps a remainder exactly when the
candidates neither stop it nor hold enough quantity. -/
theorem plan_remainingI_pos_iff (hrem : 0 ≤ rem) (hx : ∀ r ∈ rs, ¬ r.hash.Consumed → a.Crosses r.hash) :
    0 < (plan a rem rs).remainingI ↔
      (∀ r ∈ rs, ¬ r.hash.Consumed → ¬ a.Stops r.hash) ∧ (rs.map a.tradableI).sum < rem := by
  fun_induction plan a rem rs with
  | case1 => simp
  | case2 rem r rest hle =>
    have h0 := tradableI_sum_nonneg a (r :: rest)
    constructor
    · intro h; simp only at h; omega
    · rintro ⟨_,h⟩; omega
  | case3 rem r rest _ hc ih =>
    rw [ih hrem (fun x hxr => hx x (by simp [hxr]))]
    simp [MatchArgs.tradableI, hc]
  | case4 rem r rest _ hc hns => exact absurd (hx r (by simp) hc) hns
  | case5 rem r rest _ hc _ hm ih =>
    rw [Plan.remainingI_cons, ih hrem (fun x hxr => hx x (by simp [hxr]))]
    simp [MatchArgs.tradableI, MatchArgs.Stops, hm]
  | case6 rem r rest _ hc _ hm =>
    simp only [lt_irrefl, false_iff, not_and]
    intro h
    exact absurd (.inl hm) (h r (by simp) hc)
  | case7 rem r rest _ hc _ hm =>
    simp only [lt_irrefl, false_iff, not_and]
    intro h
    exact absurd (.inr hm) (h r (by simp) hc)
  | case8 rem r rest hgo hc _ hm ih =>
    have hle := (MatchArgs.fillI_le rem r.hash).1
    rw [Plan.remainingI_cons, ih (by omega) (fun x hxr => hx x (by simp [hxr]))]
    have hr : a.tradableI r = r.hash.remainingI := by simp [MatchArgs.tradableI, hc, hm]
    have hstop : ¬ a.Stops r.hash := by simp [MatchArgs.Stops, hm]
    have h0 := tradableI_sum_nonneg a rest
    simp only [List.mem_cons, forall_eq_or_imp, hstop, not_false_iff, implies_true, true_and,
      List.map_cons, List.sum_cons, hr]
    refine and_congr_right (fun _ => ?_)
    unfold MatchArgs.fillI
    split_ifs <;> omega

end Visits

/-! ### The whole script -/

/-- The plan of a call on a store. -/
def MatchArgs.planOn (a : MatchArgs) (db : Valkey) : Plan := plan a a.qtyI (db.resting (candidates db a))

/-- Whether the remainder of a plan is written to the book. -/
def Plan.Rests (a : MatchArgs) (p : Plan) : Prop :=
  a.tif = .gtc ∧ 0 < p.remainingI ∧ p.status a ≠ .cancelled

instance (a : MatchArgs) (p : Plan) : Decidable (p.Rests a) := inferInstanceAs (Decidable (_ ∧ _))

/-- The store after the loop and the time-in-force rules. -/
def MatchArgs.settle (a : MatchArgs) (db : Valkey) (p : Plan) : Valkey :=
  (applyGtc a (applyVisits a db p.visits) p.remainingI (p.status a)).incrVersion a.pairId

lemma candidates_nodup (db : Valkey) (a : MatchArgs) : (candidates db a).Nodup :=
  (SortedSet.rangeByScore_nodup _ _).sublist (List.take_sublist _ _)

lemma resting_ids_nodup {db : Valkey} {ids : List Uuid} (h : ids.Nodup) :
    ((db.resting ids).map Resting.id).Nodup := by
  have hs : ((db.resting ids).map Resting.id).Sublist ids := by
    unfold Valkey.resting
    induction ids with
    | nil => exact List.Sublist.refl _
    | cons id ids ih =>
      have ih := ih (List.nodup_cons.mp h).2
      cases hd : db.order id with
      | none => simpa [hd] using ih.cons id
      | some w => simpa [hd] using ih.cons_cons id
  exact hs.nodup h

lemma lockBalance_frame {db db₁ : Valkey} {a : MatchArgs} (h : lockBalance db a = some db₁) :
    db₁.order = db.order ∧ db₁.book = db.book ∧ db₁.ttl = db.ttl ∧ db₁.version = db.version := by
  unfold lockBalance at h
  split_ifs at h <;> cases h <;> exact ⟨rfl,rfl,rfl,rfl⟩

lemma planOn_lock {db db₁ : Valkey} {a : MatchArgs} (h : lockBalance db a = some db₁) :
    a.planOn db₁ = a.planOn db := by
  obtain ⟨ho,hb,_⟩ := lockBalance_frame h
  simp only [MatchArgs.planOn, candidates, Valkey.resting, ho, hb]

lemma planOn_visit {a : MatchArgs} {db : Valkey} {v : Visit} (hv : v ∈ (a.planOn db).visits) :
    v.Valid a ∧ db.order v.id = some v.resting.hash ∧ v.id ∈ db.book a.pairId a.side.opposite := by
  obtain ⟨hid,ho⟩ := mem_resting.mp (plan_mem hv)
  refine ⟨plan_valid hv,ho,?_⟩
  obtain ⟨e,he,_,hm⟩ := SortedSet.mem_rangeByScore.mp (List.mem_of_mem_take hid)
  exact SortedSet.mem_iff.mpr ⟨e,he,hm⟩

lemma planOn_visit_ne {a : MatchArgs} {db : Valkey} {x : Uuid} (h : db.order x = none) :
    ∀ v ∈ (a.planOn db).visits, v.id ≠ x := by
  rintro v hv rfl
  rw [(planOn_visit hv).2.1] at h
  cases h

lemma planOn_ids_nodup (a : MatchArgs) (db : Valkey) : ((a.planOn db).visits.map Visit.id).Nodup :=
  plan_ids_nodup (resting_ids_nodup (candidates_nodup db a))

lemma planOn_account_of_fills {a : MatchArgs} {db : Valkey} (hq : 0 ≤ a.qtyI) (hs : (a.planOn db).stpCancelled = false) :
    0 ≤ (a.planOn db).remainingI ∧ (a.planOn db).filledI + (a.planOn db).remainingI = a.qtyI := by
  have hacc := plan_account a (db.resting (candidates db a)) hq
  rw [← MatchArgs.planOn, if_neg (by simp [hs])] at hacc
  exact hacc

lemma planOn_account {a : MatchArgs} {db : Valkey} (hq : 0 ≤ a.qtyI) (h : 0 < (a.planOn db).remainingI) :
    (a.planOn db).stpCancelled = false ∧ (a.planOn db).filledI + (a.planOn db).remainingI = a.qtyI := by
  have hs : (a.planOn db).stpCancelled = false := plan_not_stp hq h
  exact ⟨hs,(planOn_account_of_fills hq hs).2⟩

lemma planOn_remainingI_le {a : MatchArgs} (db : Valkey) (hq : 0 ≤ a.qtyI) :
    (a.planOn db).remainingI ≤ a.qtyI := by
  have h0 : 0 ≤ (a.planOn db).filledI := Plan.filledI_nonneg a a.qtyI _
  rcases lt_or_ge 0 (a.planOn db).remainingI with h | h
  · have := (planOn_account hq h).2
    omega
  · exact h.trans hq

lemma placeResting_order (a : MatchArgs) (db : Valkey) (rem : ℤ) (st : OrderStatus) (x : Uuid) :
    (placeResting a db rem st).order x = if x = a.orderId then some (a.restingHash rem st) else db.order x := by
  simp [placeResting]

lemma mem_entries_placeResting {a : MatchArgs} {db : Valkey} {rem : ℤ} {st : OrderStatus} {pair : String} {s : Side}
    {e : Entry ℤ Uuid} : e ∈ ((placeResting a db rem st).book pair s).entries ↔
      if pair = a.pairId ∧ s = a.side then
        e = ⟨a.score,a.orderId⟩ ∨ e ∈ (db.book pair s).entries ∧ e.member ≠ a.orderId
      else e ∈ (db.book pair s).entries := by
  by_cases hk : pair = a.pairId ∧ s = a.side <;> simp [placeResting, hk, SortedSet.mem_entries_add]

lemma settle_eq (a : MatchArgs) (db : Valkey) (p : Plan) : a.settle db p =
    (if p.Rests a then placeResting a (applyVisits a db p.visits) p.remainingI (p.status a)
      else applyVisits a db p.visits).incrVersion a.pairId := rfl

lemma settle_order (a : MatchArgs) (db : Valkey) (p : Plan) (x : Uuid) :
    (a.settle db p).order x =
      if p.Rests a ∧ x = a.orderId then some (a.restingHash p.remainingI (p.status a))
      else (applyVisits a db p.visits).order x := by
  rw [settle_eq]
  by_cases h : p.Rests a <;> simp [h, placeResting_order]

lemma mem_entries_settle {a : MatchArgs} {db : Valkey} {p : Plan} {pair : String} {s : Side}
    {e : Entry ℤ Uuid} : e ∈ ((a.settle db p).book pair s).entries ↔
      if p.Rests a ∧ pair = a.pairId ∧ s = a.side then
        e = ⟨a.score,a.orderId⟩ ∨ e ∈ ((applyVisits a db p.visits).book pair s).entries ∧ e.member ≠ a.orderId
      else e ∈ ((applyVisits a db p.visits).book pair s).entries := by
  rw [settle_eq]
  by_cases h : p.Rests a <;> simp [h, mem_entries_placeResting]

section SettleOrder
variable {a : MatchArgs} {db db₁ : Valkey}

lemma settle_order_visited {v : Visit} (hv : v ∈ (a.planOn db).visits) (hid : (a.planOn db).Rests a → v.id ≠ a.orderId) :
    (a.settle db₁ (a.planOn db)).order v.id = v.outcome := by
  rw [settle_order, if_neg (fun h => hid h.1 h.2), applyVisits_order_of_mem (planOn_ids_nodup a db) hv]

lemma settle_order_unvisited (hl : lockBalance db a = some db₁) {x : Uuid}
    (hnot : ∀ v ∈ (a.planOn db).visits, v.id ≠ x) (hid : (a.planOn db).Rests a → x ≠ a.orderId) :
    (a.settle db₁ (a.planOn db)).order x = db.order x := by
  rw [settle_order, if_neg (fun h => hid h.1 h.2), applyVisits_order_of_notMem hnot, (lockBalance_frame hl).1]

lemma settle_notMem_of_outcome {v : Visit} (hv : v ∈ (a.planOn db).visits) (hout : v.outcome = none) :
    v.id ∉ (a.settle db₁ (a.planOn db)).book a.pairId a.side.opposite := by
  intro hmem
  obtain ⟨e,he,hem⟩ := SortedSet.mem_iff.mp hmem
  rw [mem_entries_settle, if_neg (by simp), mem_entries_applyVisits] at he
  exact he.2 ⟨rfl,rfl,v,hv,hem.symm,hout⟩

end SettleOrder

@[simp] lemma settle_balance (a : MatchArgs) (db : Valkey) (p : Plan) :
    (a.settle db p).balance = db.balance := by
  rw [settle_eq]
  by_cases h : p.Rests a <;> simp [h, placeResting]

/-- The script in terms of its plan. -/
theorem matchOrderScript_eq (db : Valkey) (a : MatchArgs) : matchOrderScript db a =
    match lockBalance db a with
    | none => (.insufficientBalance,db)
    | some db₁ =>
      (.ok (a.planOn db).remainingI ((a.planOn db).status a) ((a.planOn db).trades a),
        a.settle db₁ (a.planOn db)) := by
  unfold matchOrderScript
  cases hl : lockBalance db a with
  | none => rfl
  | some db₁ =>
    have h := matchLoop_follows a (candidates db₁ a) (candidates_nodup db₁ a) db₁ a.qtyI []
    rw [← planOn_lock hl]
    simp only [h.db_eq, h.remaining_eq, h.status_eq, h.trades_eq, List.nil_append]
    rfl

/-- `match_order_lua` after a successful lock. -/
theorem matchOrderLua_of_lock {db db₁ : Valkey} {o : Order} {asset : String} {amount : ℤ}
    (hl : lockBalance db (matchArgs o asset amount) = some db₁) :
    let a := matchArgs o asset amount
    matchOrderLua db o asset amount =
      (.ok ⟨i64ToDecimal (a.planOn db).remainingI,(a.planOn db).status a,
        ((a.planOn db).trades a).map ScriptTrade.toLuaTrade⟩,a.settle db₁ (a.planOn db)) := by
  simp only [matchOrderLua, matchOrderScript_eq, hl]

lemma lockBalance_isSome {db : Valkey} {a : MatchArgs}
    (h : a.Locks → a.lockAmount ≤ (db.balance a.userId a.lockAsset).available) :
    ∃ db₁, lockBalance db a = some db₁ := by
  unfold lockBalance
  split_ifs with hlk hav
  · exact absurd (h hlk) (not_le.mpr hav)
  · exact ⟨_,rfl⟩
  · exact ⟨_,rfl⟩

lemma lockBalance_funded {db db₁ : Valkey} {a : MatchArgs} (h : lockBalance db a = some db₁) (hl : a.Locks) :
    a.lockAmount ≤ (db.balance a.userId a.lockAsset).available := by
  unfold lockBalance at h
  rw [if_pos hl] at h
  split_ifs at h with hav
  exact not_lt.mp hav

end MatchingEngine

import MatchingEngine.BookInvariant

/-! How far the match loop walks. A candidate is reached with quantity left when nothing
before it stops the order or fills it, and what happens to a reached candidate is decided by
its own hash. From this follows exactly when the reported remainder accounts for the order:
self-trade prevention that cancels the taker zeroes the remainder it leaves untraded. -/
namespace MatchingEngine
open Library

section Reaches
variable (a : MatchArgs)

/-- The loop comes to `r` with part of `rem` left. -/
def MatchArgs.Reaches (rem : ℤ) (rs : List Resting) (r : Resting) : Prop :=
  ∃ pre post, rs = pre ++ r :: post ∧ (∀ x ∈ pre, ¬ x.hash.Consumed → a.Crosses x.hash ∧ ¬ a.Stops x.hash) ∧
    (pre.map a.tradableI).sum < rem

/-- A live candidate within the price that the loop comes to. -/
structure MatchArgs.Meets (rem : ℤ) (rs : List Resting) (r : Resting) : Prop where
  reached : a.Reaches rem rs r
  live : ¬ r.hash.Consumed
  crosses : a.Crosses r.hash

variable {a} {rem : ℤ} {rs : List Resting} {r x : Resting}

lemma not_reaches_nil : ¬ a.Reaches rem [] r := by
  rintro ⟨pre,post,h,_⟩
  cases pre <;> cases h

lemma reaches_cons : a.Reaches rem (x :: rs) r ↔ 0 < rem ∧ (r = x ∨
    (¬ x.hash.Consumed → a.Crosses x.hash ∧ ¬ a.Stops x.hash) ∧ a.Reaches (rem - a.tradableI x) rs r) := by
  constructor
  · rintro ⟨pre,post,h,hpre,hsum⟩
    have hpos : 0 < rem := lt_of_le_of_lt (tradableI_sum_nonneg a pre) hsum
    cases pre with
    | nil =>
      cases h
      exact ⟨hpos,.inl rfl⟩
    | cons y pre =>
      cases h
      rw [List.map_cons, List.sum_cons] at hsum
      exact ⟨hpos,.inr ⟨hpre x (by simp),pre,post,rfl,fun z hz => hpre z (by simp [hz]),by omega⟩⟩
  · rintro ⟨hpos,rfl | ⟨hx,pre,post,rfl,hpre,hsum⟩⟩
    · exact ⟨[],rs,rfl,by simp,by simpa using hpos⟩
    · refine ⟨x :: pre,post,rfl,List.forall_mem_cons.mpr ⟨hx,hpre⟩,?_⟩
      rw [List.map_cons, List.sum_cons]
      omega

lemma not_meets_nil : ¬ a.Meets rem [] r := fun h => not_reaches_nil h.reached

lemma not_meets_of_le (h : rem ≤ 0) : ¬ a.Meets rem (x :: rs) r := by
  intro hm
  have := (reaches_cons.mp hm.reached).1
  omega

lemma meets_cons_consumed (hpos : 0 < rem) (hx : x.hash.Consumed) : a.Meets rem (x :: rs) r ↔ a.Meets rem rs r := by
  have h0 : a.tradableI x = 0 := if_pos (.inl hx)
  constructor
  · rintro ⟨hr,hl,hc⟩
    obtain ⟨_,rfl | ⟨_,hr⟩⟩ := reaches_cons.mp hr
    · exact absurd hx hl
    · exact ⟨by simpa [h0] using hr,hl,hc⟩
  · rintro ⟨hr,hl,hc⟩
    exact ⟨reaches_cons.mpr ⟨hpos,.inr ⟨fun h => absurd hx h,by simpa [h0] using hr⟩⟩,hl,hc⟩

lemma not_meets_cons (hl : ¬ x.hash.Consumed) (hx : ¬ a.Crosses x.hash) : ¬ a.Meets rem (x :: rs) r := by
  rintro ⟨hr,_,hc⟩
  obtain ⟨_,rfl | ⟨h,_⟩⟩ := reaches_cons.mp hr
  · exact hx hc
  · exact hx (h hl).1

lemma meets_cons_stops (hpos : 0 < rem) (hl : ¬ x.hash.Consumed) (hx : a.Crosses x.hash) (hs : a.Stops x.hash) :
    a.Meets rem (x :: rs) r ↔ r = x := by
  constructor
  · intro h
    obtain ⟨_,rfl | ⟨h,_⟩⟩ := reaches_cons.mp h.reached
    · rfl
    · exact absurd hs (h hl).2
  · rintro rfl
    exact ⟨reaches_cons.mpr ⟨hpos,.inl rfl⟩,hl,hx⟩

lemma meets_cons_passes (hpos : 0 < rem) (hl : ¬ x.hash.Consumed) (hx : a.Crosses x.hash) (hs : ¬ a.Stops x.hash) :
    a.Meets rem (x :: rs) r ↔ r = x ∨ a.Meets (rem - a.tradableI x) rs r := by
  constructor
  · intro h
    obtain ⟨_,rfl | ⟨_,hr⟩⟩ := reaches_cons.mp h.reached
    · exact .inl rfl
    · exact .inr ⟨hr,h.live,h.crosses⟩
  · rintro (rfl | ⟨hr,hl',hc⟩)
    · exact ⟨reaches_cons.mpr ⟨hpos,.inl rfl⟩,hl,hx⟩
    · exact ⟨reaches_cons.mpr ⟨hpos,.inr ⟨fun _ => ⟨hx,hs⟩,hr⟩⟩,hl',hc⟩

/-- After a fill the loop goes on with what the candidate could not give, or is done. -/
lemma meets_after_fill (hl : ¬ x.hash.Consumed) (hn : a.stpAction x.hash = .none) :
    a.Meets (rem - a.tradableI x) rs r ↔ a.Meets (rem - MatchArgs.fillI rem x.hash) rs r := by
  have ht : a.tradableI x = x.hash.remainingI := if_neg (by simp [hl, hn])
  unfold MatchArgs.fillI
  split_ifs with hlt
  · rw [ht]
  · -- the candidate holds all that is left, so nothing further is reached on either side
    have hle : ¬ ∃ z, a.Meets (rem - a.tradableI x) rs z := by
      rintro ⟨z,⟨pre,post,_,_,hsum⟩,_,_⟩
      have := tradableI_sum_nonneg a pre
      omega
    have hle' : ¬ ∃ z, a.Meets (rem - rem) rs z := by
      rintro ⟨z,⟨pre,post,_,_,hsum⟩,_,_⟩
      have := tradableI_sum_nonneg a pre
      omega
    exact ⟨fun h => absurd ⟨r,h⟩ hle,fun h => absurd ⟨r,h⟩ hle'⟩

lemma eq_or_and_iff {M S : Prop} (hx : r = x → ¬ S) : (r = x ∨ M) ∧ S ↔ M ∧ S := by
  constructor
  · rintro ⟨he | hm,hr⟩
    · exact absurd hr (hx he)
    · exact ⟨hm,hr⟩
  · rintro ⟨hm,hr⟩
    exact ⟨.inr hm,hr⟩

/-- The reached candidates and what the loop does to them. -/
theorem plan_meets (a : MatchArgs) (rem : ℤ) (rs : List Resting) :
    (∀ r, ⟨r,.cancel⟩ ∈ (plan a rem rs).visits ↔
      a.Meets rem rs r ∧ (a.stpAction r.hash = .cancelMaker ∨ a.stpAction r.hash = .cancelBoth)) ∧
    (∀ r, (∃ q, ⟨r,.fill q⟩ ∈ (plan a rem rs).visits) ↔ a.Meets rem rs r ∧ a.stpAction r.hash = .none) ∧
    ((plan a rem rs).stpCancelled = true ↔ ∃ r, a.Meets rem rs r ∧ a.Stops r.hash) := by
  fun_induction plan a rem rs with
  | case1 rem => simp [not_meets_nil]
  | case2 rem x rest hle => simp [not_meets_of_le hle]
  | case3 rem x rest hle hc ih => simpa only [meets_cons_consumed (not_le.mp hle) hc] using ih
  | case4 rem x rest hle hc hx => simp [not_meets_cons hc hx]
  | case5 rem x rest hle hc hx hstp ih =>
    have hs : ¬ a.Stops x.hash := by simp [MatchArgs.Stops, hstp]
    have h0 : a.tradableI x = 0 := if_pos (.inr (by simp [hstp]))
    simp only [meets_cons_passes (not_le.mp hle) hc (not_not.mp hx) hs, h0, sub_zero, Plan.visits_cons,
      Plan.stpCancelled_cons, List.mem_cons, Visit.mk.injEq, reduceCtorEq, and_false, false_or, and_true]
    refine ⟨fun r => ?_,fun r => ?_,?_⟩
    · rw [ih.1 r]
      constructor
      · rintro (rfl | ⟨hm,hr⟩)
        · exact ⟨.inl rfl,.inl hstp⟩
        · exact ⟨.inr hm,hr⟩
      · rintro ⟨rfl | hm,hr⟩
        · exact .inl rfl
        · exact .inr ⟨hm,hr⟩
    · rw [ih.2.1 r]
      exact (eq_or_and_iff (fun he => by simp [he, hstp])).symm
    · rw [ih.2.2]
      exact exists_congr (fun r => (eq_or_and_iff (fun he => he ▸ hs)).symm)
  | case6 rem x rest hle hc hx hstp =>
    have hs : a.Stops x.hash := .inl hstp
    simp [meets_cons_stops (not_le.mp hle) hc (not_not.mp hx) hs, hs, hstp]
  | case7 rem x rest hle hc hx hstp =>
    have hs : a.Stops x.hash := .inr hstp
    simp [meets_cons_stops (not_le.mp hle) hc (not_not.mp hx) hs, hs, hstp]
  | case8 rem x rest hle hc hx hstp ih =>
    have hs : ¬ a.Stops x.hash := by simp [MatchArgs.Stops, hstp]
    simp only [meets_cons_passes (not_le.mp hle) hc (not_not.mp hx) hs, meets_after_fill hc hstp, Plan.visits_cons,
      Plan.stpCancelled_cons, List.mem_cons, Visit.mk.injEq, reduceCtorEq, and_false, false_or, Action.fill.injEq]
    refine ⟨fun r => ?_,fun r => ?_,?_⟩
    · rw [ih.1 r]
      exact (eq_or_and_iff (fun he => by simp [he, hstp])).symm
    · constructor
      · rintro ⟨q,⟨rfl,_⟩ | hq⟩
        · exact ⟨.inl rfl,hstp⟩
        · obtain ⟨hm,hr⟩ := (ih.2.1 r).mp ⟨q,hq⟩
          exact ⟨.inr hm,hr⟩
      · rintro ⟨rfl | hm,hr⟩
        · exact ⟨_,.inl ⟨rfl,rfl⟩⟩
        · obtain ⟨q,hq⟩ := (ih.2.1 r).mpr ⟨hm,hr⟩
          exact ⟨q,.inr hq⟩
    · rw [ih.2.2]
      exact exists_congr (fun r => (eq_or_and_iff (fun he => he ▸ hs)).symm)

end Reaches

/-! ### The walk over a longer list -/

section Walk
variable {a : MatchArgs} {rem : ℤ} {rs xs : List Resting}

lemma MatchArgs.Meets.mem {r : Resting} (h : a.Meets rem rs r) : r ∈ rs := by
  obtain ⟨pre,post,rfl,_,_⟩ := h.reached
  simp

lemma plan_of_not_meets (h : ∀ r, ¬ a.Meets rem rs r) : plan a rem rs = ⟨[],rem,false⟩ := by
  fun_induction plan a rem rs with
  | case1 => rfl
  | case2 => rfl
  | case3 rem x rest hgo hc ih => exact ih fun r hr => h r ((meets_cons_consumed (not_le.mp hgo) hc).mpr hr)
  | case4 => rfl
  | case5 rem x rest hgo hc hx hm =>
    have hs : ¬ a.Stops x.hash := by simp [MatchArgs.Stops, hm]
    exact absurd ((meets_cons_passes (not_le.mp hgo) hc (not_not.mp hx) hs).mpr (.inl rfl)) (h x)
  | case6 rem x rest hgo hc hx hm =>
    exact absurd ((meets_cons_stops (not_le.mp hgo) hc (not_not.mp hx) (.inl hm)).mpr rfl) (h x)
  | case7 rem x rest hgo hc hx hm =>
    exact absurd ((meets_cons_stops (not_le.mp hgo) hc (not_not.mp hx) (.inr hm)).mpr rfl) (h x)
  | case8 rem x rest hgo hc hx hm =>
    have hs : ¬ a.Stops x.hash := by simp [MatchArgs.Stops, hm]
    exact absurd ((meets_cons_passes (not_le.mp hgo) hc (not_not.mp hx) hs).mpr (.inl rfl)) (h x)

/-- Candidates at the end that the loop does not come to make no difference. -/
theorem plan_append_of_not_meets (h : ∀ x ∈ xs, ¬ a.Meets rem (rs ++ xs) x) : plan a rem (rs ++ xs) = plan a rem rs := by
  fun_induction plan a rem rs with
  | case1 rem => exact plan_of_not_meets fun r hr => h r hr.mem hr
  | case2 rem r rest hle => exact plan_of_le a _ hle
  | case3 rem r rest hgo hc ih =>
    rw [List.cons_append, plan, if_neg hgo, if_pos hc]
    exact ih fun x hx hm => h x hx ((meets_cons_consumed (not_le.mp hgo) hc).mpr hm)
  | case4 rem r rest hgo hc hx => rw [List.cons_append, plan, if_neg hgo, if_neg hc, if_pos hx]
  | case5 rem r rest hgo hc hx hm ih =>
    have hs : ¬ a.Stops r.hash := by simp [MatchArgs.Stops, hm]
    have h0 : a.tradableI r = 0 := if_pos (.inr (by simp [hm]))
    rw [List.cons_append, plan, if_neg hgo, if_neg hc, if_neg hx]
    simp only [hm]
    rw [ih]
    intro x hxs hmeets
    refine h x hxs ((meets_cons_passes (not_le.mp hgo) hc (not_not.mp hx) hs).mpr (.inr ?_))
    rwa [h0, sub_zero]
  | case6 rem r rest hgo hc hx hm =>
    rw [List.cons_append, plan, if_neg hgo, if_neg hc, if_neg hx]
    simp only [hm]
  | case7 rem r rest hgo hc hx hm =>
    rw [List.cons_append, plan, if_neg hgo, if_neg hc, if_neg hx]
    simp only [hm]
  | case8 rem r rest hgo hc hx hm ih =>
    have hs : ¬ a.Stops r.hash := by simp [MatchArgs.Stops, hm]
    rw [List.cons_append, plan, if_neg hgo, if_neg hc, if_neg hx]
    simp only [hm]
    rw [ih]
    intro x hxs hmeets
    exact h x hxs ((meets_cons_passes (not_le.mp hgo) hc (not_not.mp hx) hs).mpr (.inr ((meets_after_fill hc hm).mpr hmeets)))

/-- The order that the loop comes to behind the first candidates has not been filled or stopped by them. -/
lemma MatchArgs.Reaches.behind {x : Resting} (h : a.Reaches rem (rs ++ xs) x) (hx : x ∉ rs) :
    (∀ y ∈ rs, ¬ y.hash.Consumed → a.Crosses y.hash ∧ ¬ a.Stops y.hash) ∧ (rs.map a.tradableI).sum < rem := by
  obtain ⟨pre,post,heq,hpre,hsum⟩ := h
  have hprefix : ∃ mid, pre = rs ++ mid := by
    rcases List.append_eq_append_iff.mp heq with ⟨mid,hmid,_⟩ | ⟨mid,hmid,htail⟩
    · exact ⟨mid,hmid⟩
    · cases mid with
      | nil => exact ⟨[],by simpa using hmid.symm⟩
      | cons y mid =>
        obtain ⟨rfl,_⟩ := List.cons.inj htail
        exact absurd (hmid ▸ List.mem_append_right pre List.mem_cons_self) hx
  obtain ⟨mid,rfl⟩ := hprefix
  refine ⟨fun y hy => hpre y (List.mem_append_left _ hy),?_⟩
  have hmid := tradableI_sum_nonneg a mid
  rw [List.map_append, List.sum_append] at hsum
  omega

lemma MatchArgs.Reaches.remainingI_pos {x : Resting} (h : a.Reaches rem (rs ++ xs) x) (hx : x ∉ rs) :
    0 < (plan a rem rs).remainingI := by
  obtain ⟨hpast,hsum⟩ := h.behind hx
  have hrem : 0 ≤ rem := (tradableI_sum_nonneg a rs).trans hsum.le
  exact (plan_remainingI_pos_iff hrem fun y hy hc => (hpast y hy hc).1).mpr ⟨fun y hy hc => (hpast y hy hc).2,hsum⟩

lemma plan_stopped (h : (plan a rem rs).stpCancelled = true) : (plan a rem rs).remainingI = 0 := by
  fun_induction plan a rem rs with
  | case1 => cases h
  | case2 => cases h
  | case3 rem r rest _ _ ih => exact ih h
  | case4 => cases h
  | case5 rem r rest _ _ _ _ ih => exact ih h
  | case6 => rfl
  | case7 => rfl
  | case8 rem r rest _ _ _ _ ih => exact ih h

end Walk

/-! ### The reported result -/

/-- The reported remainder is the untraded part, a filled order has none and a cancelled one
has some, so that releasing it on `Cancelled` gives back what was not traded. -/
structure LuaMatchResult.Accounts (r : LuaMatchResult) (quantity : Decimal) : Prop where
  total : quantity = r.remaining + (r.trades.map LuaTrade.quantity).sum
  filled : r.status = .filled ↔ r.remaining = 0
  cancelled : r.status = .cancelled → 0 < r.remaining

/-- The candidates of an order in a store, with their hashes. -/
def MatchArgs.restingOn (a : MatchArgs) (db : Valkey) : List Resting := db.resting (candidates db a)

/-- An order of the same user that the loop comes to cancels the incoming order. -/
def MatchArgs.StoppedOn (a : MatchArgs) (db : Valkey) : Prop :=
  ∃ r, a.Meets a.qtyI (a.restingOn db) r ∧ a.Stops r.hash

/-- The resting orders that an order comes to in a store, whatever it locks. -/
def Order.Meets (o : Order) (db : Valkey) (r : Resting) : Prop :=
  (matchArgs o "" 0).Meets o.qtyI ((matchArgs o "" 0).restingOn db) r

/-- What self-trade prevention does when an order comes to `h`. -/
def Order.stpAction (o : Order) (h : OrderHash) : SelfTradePreventionMode := (matchArgs o "" 0).stpAction h

lemma matchArgs_meets_iff {o : Order} {db : Valkey} {r : Resting} (asset : String) (amount : ℤ) :
    (matchArgs o asset amount).Meets (matchArgs o asset amount).qtyI ((matchArgs o asset amount).restingOn db) r ↔
      o.Meets db r :=
  ⟨fun h => ⟨h.reached,h.live,h.crosses⟩,fun h => ⟨h.reached,h.live,h.crosses⟩⟩

/-- The visits of a plan, in terms of the order. -/
theorem planOn_meets (o : Order) (db : Valkey) (asset : String) (amount : ℤ) :
    let p := (matchArgs o asset amount).planOn db
    (∀ r, ⟨r,.cancel⟩ ∈ p.visits ↔ o.Meets db r ∧ (o.stpAction r.hash = .cancelMaker ∨ o.stpAction r.hash = .cancelBoth)) ∧
    (∀ r, (∃ q, ⟨r,.fill q⟩ ∈ p.visits) ↔ o.Meets db r ∧ o.stpAction r.hash = .none) ∧
    (p.stpCancelled = true ↔ ∃ r, o.Meets db r ∧
      (o.stpAction r.hash = .cancelTaker ∨ o.stpAction r.hash = .cancelBoth)) := by
  have h := plan_meets (matchArgs o asset amount) (matchArgs o asset amount).qtyI ((matchArgs o asset amount).restingOn db)
  simp only [matchArgs_meets_iff] at h
  exact h

lemma stoppedOn_iff {a : MatchArgs} {db : Valkey} : a.StoppedOn db ↔ (a.planOn db).stpCancelled = true :=
  (plan_meets a a.qtyI (a.restingOn db)).2.2.symm

lemma luaTrades_sum (a : MatchArgs) (p : Plan) :
    (((p.trades a).map ScriptTrade.toLuaTrade).map LuaTrade.quantity).sum = i64ToDecimal p.filledI := by
  rw [← Plan.trades_sum_all a p, ← i64ToDecimal_sum, List.map_map, List.map_map]
  rfl

lemma Plan.status_of_not_stp {a : MatchArgs} {p : Plan} (hs : p.stpCancelled = false) (h0 : 0 ≤ p.remainingI) :
    (p.status a = .filled ↔ p.remainingI = 0) ∧ (p.status a = .cancelled → 0 < p.remainingI) := by
  rcases h0.eq_or_lt with hz | hpos
  · rw [Plan.status_of_le hs hz.ge]
    simp [hz.symm]
  · rw [Plan.status_of_pos hs hpos]
    refine ⟨iff_of_false ?_ hpos.ne',fun _ => hpos⟩
    split_ifs <;> simp

/-- The result accounts for the order exactly when its quantity is on the fixed-point grid and
no order of the same user stops it. -/
theorem matchResult_accounts_iff {db db' : Valkey} {o : Order} {asset : String} {amount : ℤ} {r : LuaMatchResult}
    (hq : 0 < o.quantity) (h : matchOrderLua db o asset amount = (.ok r,db')) :
    r.Accounts o.quantity ↔ o.quantity = i64ToDecimal o.qtyI ∧ ¬ (matchArgs o asset amount).StoppedOn db := by
  set a := matchArgs o asset amount with ha
  have hqI : 0 ≤ a.qtyI := decimalToI64_nonneg hq.le
  obtain ⟨db₁,hl⟩ : ∃ db₁, lockBalance db a = some db₁ := by
    cases hl : lockBalance db a with
    | none =>
      simp only [matchOrderLua, ← ha, matchOrderScript_eq, hl] at h
      cases h
    | some db₁ => exact ⟨db₁,rfl⟩
  rw [matchOrderLua_of_lock hl] at h
  cases h
  rw [stoppedOn_iff, Bool.not_eq_true]
  cases hs : (a.planOn db).stpCancelled with
  | true =>
    have hacc := plan_account a (a.restingOn db) hqI
    rw [show plan a a.qtyI (a.restingOn db) = a.planOn db from rfl, if_pos hs] at hacc
    refine ⟨fun hr => ?_,fun h => absurd h.2 (by simp)⟩
    have hpos : 0 < (a.planOn db).remainingI := i64ToDecimal_pos.mp (hr.cancelled (Plan.status_of_stopped hs))
    omega
  | false =>
    obtain ⟨h0,hsum⟩ := planOn_account_of_fills hqI hs
    have htotal : i64ToDecimal (a.planOn db).remainingI +
        ((((a.planOn db).trades a).map ScriptTrade.toLuaTrade).map LuaTrade.quantity).sum = i64ToDecimal o.qtyI := by
      rw [luaTrades_sum, ← i64ToDecimal_add, add_comm, hsum]
      rfl
    obtain ⟨hfilled,hcancelled⟩ := Plan.status_of_not_stp (a := a) hs h0
    constructor
    · intro hr
      exact ⟨hr.total.trans htotal,rfl⟩
    · rintro ⟨hgrid,_⟩
      exact ⟨hgrid.trans htotal.symm,hfilled.trans i64ToDecimal_eq_zero.symm,
        fun hc => i64ToDecimal_pos.mpr (hcancelled hc)⟩

/-- A purchase of seven units from two offers of five. -/
theorem matchResult_accounts_two_asks :
    ∃ r db', matchOrderLua (twoAsks 1 2).db (.gtcLimit 3 "bob" "BTC-USDT" .buy 100 7) "USDT" 0 = (.ok r,db') ∧
      r.trades.length = 2 ∧ r.Accounts (i64ToDecimal 7) := by
  have hns : ¬ (matchArgs (.gtcLimit 3 "bob" "BTC-USDT" .buy 100 7) "USDT" 0).StoppedOn (twoAsks 1 2).db := by
    rw [stoppedOn_iff]
    decide +kernel
  refine ⟨_,_,rfl,by decide +kernel,(matchResult_accounts_iff (o := .gtcLimit 3 "bob" "BTC-USDT" .buy 100 7) ?_ rfl).mpr
    ⟨?_,hns⟩⟩
  · decide +kernel
  · decide +kernel

/-- Carol's own offer stops her purchase of seven after five have been filled: the result says
cancelled with nothing remaining. -/
theorem stopped_result_loses_remainder : ∃ (db : Valkey) (o : Order) (asset : String) (amount : ℤ)
    (r : LuaMatchResult) (db' : Valkey), db.Represented ∧ o.InScale ∧ o.tif ≠ .fok ∧
    matchOrderLua db o asset amount = (.ok r,db') ∧ o.quantity = i64ToDecimal 7 ∧ r.status = .cancelled ∧
    r.remaining = 0 ∧ (r.trades.map LuaTrade.quantity).sum = i64ToDecimal 5 ∧ ¬ r.Accounts o.quantity := by
  have hr := ((twoAsks_reachable (show (1 : Uuid) ≠ 2 by decide)).invariant (fun _ o ho => ho.2.2.qty_pos.le)).1
  refine ⟨(twoAsks 1 2).db,{ Order.gtcLimit 3 "carol" "BTC-USDT" .buy 100 7 with stpMode := .cancelTaker },"USDT",0,_,_,
    hr,by decide +kernel,by decide,rfl,rfl,by decide +kernel,by decide +kernel,by decide +kernel,fun h => ?_⟩
  have hpos := h.cancelled (by decide +kernel)
  revert hpos
  decide +kernel

end MatchingEngine

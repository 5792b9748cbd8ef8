import MatchingEngine.Priority

/-! Maximal matching and uncrossed books. The candidate fetch stops after fifty ids and the
script never fetches again, so a call is maximal exactly when its first fifty candidates fill
or stop it, or are all there are inside the price bound. -/
namespace MatchingEngine
open Library

/-- Limit orders of the run: GTC or IOC with a positive price, any self-trade prevention. -/
def Order.LimitKind (o : Order) : Prop :=
  o.orderType = .limit ∧ (o.tif = .gtc ∨ o.tif = .ioc) ∧ (∃ p, o.price = some p ∧ 0 < p) ∧ o.InScale

/-- Incoming orders compared with the book: limit orders, or market IOC without a price. -/
def Order.IncomingKind (o : Order) : Prop :=
  o.LimitKind ∨ o.orderType = .market ∧ o.tif = .ioc ∧ o.price = none ∧ o.InScale

/-- If the first fifty candidates leave a remainder, they are all the candidates inside the
price bound. -/
def Order.SeesAllCrossing (o : Order) (db : Valkey) : Prop :=
  o.LeavesRemainder db →
    ((db.book o.pairId o.side.opposite).rangeByScore (maxScore o.side o.price)).length ≤ 50

instance (o : Order) (db : Valkey) : Decidable (o.SeesAllCrossing db) := inferInstanceAs (Decidable (_ → _))

/-- A reply with a remainder leaves no live crossing order on the opposite side. -/
def Exchange.MaximalCall (s : Exchange) (o : Order) (asset : String) (amount : ℤ) : Prop :=
  ∀ remainingI status trades,
    (matchOrderScript s.db (matchArgs o asset amount)).1 = .ok remainingI status trades → 0 < remainingI →
    ∀ id h, (s.submit o asset amount).db.Live o.pairId o.side.opposite id h →
      ¬ (matchArgs o asset amount).Crosses h

/-- Every live bid is below every live ask of the pair. -/
def Exchange.Uncrossed (s : Exchange) : Prop :=
  ∀ pair bid ask hb ha, s.db.Live pair .buy bid hb → s.db.Live pair .sell ask ha → hb.priceI < ha.priceI

lemma Order.IncomingKind.priced {o : Order} (h : o.IncomingKind) : o.Priced := by
  intro hl
  rcases h with ⟨_,_,⟨p,hp,_⟩,_⟩ | ⟨hm,_⟩
  · simp [hp]
  · rw [hm] at hl
    cases hl

lemma Order.IncomingKind.inScale {o : Order} (h : o.IncomingKind) : o.InScale := by
  rcases h with ⟨_,_,_,h⟩ | ⟨_,_,_,h⟩ <;> exact h

lemma mem_range_of_crosses {db : Valkey} (hr : db.Represented) {o : Order} (hk : o.IncomingKind) {asset : String}
    {amount : ℤ} {id : Uuid} {h : OrderHash} (hl : db.Live o.pairId o.side.opposite id h)
    (hx : (matchArgs o asset amount).Crosses h) :
    id ∈ (db.book o.pairId o.side.opposite).rangeByScore (maxScore o.side o.price) := by
  obtain ⟨e,he,rfl⟩ := SortedSet.mem_iff.mp hl.1
  obtain ⟨w,hw,_,_,hsc⟩ := hr.entry _ _ e he
  obtain rfl := Option.some.inj (hl.2.symm.trans hw)
  refine SortedSet.mem_rangeByScore.mpr ⟨e,he,?_,rfl⟩
  intro b hb
  rcases hk with ⟨ht,_,⟨p,hp,_⟩,_⟩ | ⟨_,_,hp,_⟩
  · rw [hsc]
    exact (crosses_iff_score ht (by simp [hp])).mp hx b hb
  · rw [hp] at hb
    cases hs : o.side <;> simp [hs, maxScore] at hb

lemma crosses_of_mem_range {db : Valkey} (hr : db.Represented) {o : Order} (hk : o.IncomingKind) (asset : String)
    (amount : ℤ) {id : Uuid}
    (hm : id ∈ (db.book o.pairId o.side.opposite).rangeByScore (maxScore o.side o.price)) :
    ∃ h, db.Live o.pairId o.side.opposite id h ∧ (matchArgs o asset amount).Crosses h := by
  obtain ⟨e,he,hmax,rfl⟩ := SortedSet.mem_rangeByScore.mp hm
  obtain ⟨w,hw,_,_,hsc⟩ := hr.entry _ _ e he
  refine ⟨w,⟨SortedSet.mem_iff.mpr ⟨e,he,rfl⟩,hw⟩,?_⟩
  cases ht : o.orderType with
  | market => exact crosses_of_market w ht
  | limit => exact (crosses_iff_score ht (hk.priced ht)).mpr (fun b hb => hsc ▸ hmax b hb)

lemma candidates_eq_range {db : Valkey} {o : Order} {asset : String} {amount : ℤ}
    (h : ((db.book o.pairId o.side.opposite).rangeByScore (maxScore o.side o.price)).length ≤ 50) :
    candidates db (matchArgs o asset amount) =
      (db.book o.pairId o.side.opposite).rangeByScore (maxScore o.side o.price) :=
  List.take_of_length_le h

lemma reply_of_lock {db db₁ : Valkey} {a : MatchArgs} (hl : lockBalance db a = some db₁) :
    (matchOrderScript db a).1 = .ok (a.planOn db).remainingI ((a.planOn db).status a) ((a.planOn db).trades a) := by
  simp only [matchOrderScript_eq, hl]

section Call
variable {s : Exchange} (hr : s.db.Represented) (hs : s.Accounted) {o : Order} (hk : o.IncomingKind)
  (hfresh : ∀ p ∈ s.submitted, p.id ≠ o.id)
include hr hs hk hfresh

/-- What lives on the opposite side after a call with a remainder was there before, and was
not among the fetched candidates. -/
lemma live_opposite_after {asset : String} {amount : ℤ} {db₁ : Valkey}
    (hl : lockBalance s.db (matchArgs o asset amount) = some db₁)
    (hrem : 0 < ((matchArgs o asset amount).planOn s.db).remainingI) {id : Uuid} {h : OrderHash} :
    (s.submit o asset amount).db.Live o.pairId o.side.opposite id h ↔
      s.db.Live o.pairId o.side.opposite id h ∧ id ∉ candidates s.db (matchArgs o asset amount) := by
  have hcross : ∀ r ∈ s.db.resting (candidates s.db (matchArgs o asset amount)), ¬ r.hash.Consumed →
      (matchArgs o asset amount).Crosses r.hash := fun r hm _ => resting_candidates_cross hr hk.priced hm
  -- a fetched candidate has left the book
  have hgone : ∀ x w, s.db.order x = some w → x ∈ candidates s.db (matchArgs o asset amount) →
      ∃ v ∈ ((matchArgs o asset amount).planOn s.db).visits, v.id = x ∧ v.outcome = none := by
    intro x w hw hx
    have hm : ⟨x,w⟩ ∈ s.db.resting (candidates s.db (matchArgs o asset amount)) := mem_resting.mpr ⟨hx,hw⟩
    obtain ⟨v,hv,hvr,hout⟩ := plan_remainder hcross hrem hm (hr.not_consumed hw)
    exact ⟨v,hv,by rw [Visit.id, hvr],hout⟩
  have hrep : (s.submit o asset amount).db.Represented := hr.submit hs hfresh hk.inScale.qty_pos.le
  have hvisit : ∀ v ∈ ((matchArgs o asset amount).planOn s.db).visits,
      v.id ∈ candidates s.db (matchArgs o asset amount) := fun v hv => (mem_resting.mp (plan_mem hv)).1
  constructor
  · rintro ⟨hm,ho⟩
    obtain ⟨w,hw,hpair,hside⟩ := hrep.order_of_mem hm
    obtain rfl := Option.some.inj (ho.symm.trans hw)
    rw [submit_of_lock hl] at ho
    rcases settle_order_cases hl ho with ⟨_,_,rfl⟩ | ⟨v,hv,rfl,hout⟩ | ⟨hx,ho⟩
    · exact absurd hside (Side.ne_opposite o.side)
    · obtain ⟨v',hv',hid,hnone⟩ := hgone v.id _ (planOn_visit hv).2.1 (hvisit v hv)
      obtain rfl := List.inj_on_of_nodup_map (planOn_ids_nodup _ s.db) hv' hv hid
      rw [hnone] at hout
      cases hout
    · refine ⟨⟨hpair ▸ hside ▸ (hr.member id h ho).2,ho⟩,fun hc => ?_⟩
      obtain ⟨v,hv,hid,_⟩ := hgone id h ho hc
      exact hx v hv hid
  · rintro ⟨⟨hm,ho⟩,hc⟩
    obtain ⟨w,hw,hpair,hside⟩ := hr.order_of_mem hm
    obtain rfl := Option.some.inj (ho.symm.trans hw)
    have hne : id ≠ o.id := by
      rintro rfl
      rw [hs.order_fresh hfresh] at ho
      cases ho
    have hafter : (s.submit o asset amount).db.order id = some h := by
      rw [submit_of_lock hl, settle_order_unvisited hl ?_ (fun _ => hne), ho]
      rintro v hv rfl
      exact hc (hvisit v hv)
    exact ⟨hpair ▸ hside ▸ (hrep.member id h hafter).2,hafter⟩

/-- A call is maximal exactly when the fetch is not cut off before the order is done. -/
theorem maximalCall_iff : (∀ asset amount, s.MaximalCall o asset amount) ↔ o.SeesAllCrossing s.db := by
  constructor
  · intro hmax hleft
    by_contra hmany
    -- a call without a lock, and the first member behind the fifty fetched ones
    have hl : lockBalance s.db (matchArgs o "" 0) = some s.db := by simp [lockBalance, MatchArgs.Locks, matchArgs]
    have hrem := (planOn_remainingI_pos_iff hr hk.priced hk.inScale.qty_pos.le "" 0).mpr hleft
    obtain ⟨x,hx⟩ : ∃ x, x ∈ ((s.db.book o.pairId o.side.opposite).rangeByScore (maxScore o.side o.price)).drop 50 := by
      apply List.exists_mem_of_ne_nil
      rw [Ne, List.drop_eq_nil_iff]
      exact hmany
    obtain ⟨w,hlive,hcross⟩ := crosses_of_mem_range hr hk "" 0 (List.mem_of_mem_drop hx)
    have hcand : x ∉ candidates s.db (matchArgs o "" 0) :=
      fun hc => List.disjoint_take_drop (SortedSet.rangeByScore_nodup _ _) le_rfl hc hx
    exact hmax "" 0 _ _ _ (reply_of_lock hl) hrem x w
      ((live_opposite_after hr hs hk hfresh hl hrem).mpr ⟨hlive,hcand⟩) hcross
  · intro hsee asset amount remainingI status trades hreply hrem id h hlive
    cases hl : lockBalance s.db (matchArgs o asset amount) with
    | none => simp [matchOrderScript_eq, hl] at hreply
    | some db₁ =>
      rw [reply_of_lock hl] at hreply
      obtain ⟨rfl,_,_⟩ := Reply.ok.inj hreply
      obtain ⟨hbefore,hc⟩ := (live_opposite_after hr hs hk hfresh hl hrem).mp hlive
      have hleft := (planOn_remainingI_pos_iff hr hk.priced hk.inScale.qty_pos.le asset amount).mp hrem
      rw [candidates_eq_range (hsee hleft)] at hc
      exact fun hx => hc (mem_range_of_crosses hr hk hbefore hx)

end Call

lemma Exchange.Uncrossed.submit {s : Exchange} (hu : s.Uncrossed) (hr : s.db.Represented) (hs : s.Accounted)
    {o : Order} (hk : o.LimitKind) (hfresh : ∀ p ∈ s.submitted, p.id ≠ o.id) (hsee : o.SeesAllCrossing s.db)
    (asset : String) (amount : ℤ) : (s.submit o asset amount).Uncrossed := by
  have hin : o.IncomingKind := .inl hk
  have hq : 0 ≤ o.qtyI := hin.inScale.qty_pos.le
  cases hl : lockBalance s.db (matchArgs o asset amount) with
  | none =>
    rw [submit_of_no_lock hl]
    exact hu
  | some db₁ =>
    have hcall := (maximalCall_iff hr hs hin hfresh).mpr hsee asset amount _ _ _ (reply_of_lock hl)
    have hlimit : (matchArgs o asset amount).orderType = .limit := hk.1
    have hside : (matchArgs o asset amount).side = o.side := rfl
    have hprice : (matchArgs o asset amount).priceI = o.priceI := rfl
    intro pair bid ask hb ha lb la
    rcases live_submit hr hs hfresh hq hin.priced lb with ⟨rfl,rfl,hsb,hpb,_,hleft⟩ | ⟨_,hb',lb',hpb⟩ <;>
      rcases live_submit hr hs hfresh hq hin.priced la with ⟨rfl,_,hsa,hpa,_,hleft'⟩ | ⟨_,ha',la',hpa⟩
    · rw [← hsb] at hsa
      cases hsa
    · -- the incoming bid rests: no live ask crosses it
      have hrem := (planOn_remainingI_pos_iff hr hin.priced hq asset amount).mpr hleft
      have hnot := hcall hrem ask ha (by rw [← hsb]; exact la)
      rw [MatchArgs.Crosses, if_neg (by simp [hlimit]), hside, if_pos hsb.symm, hprice] at hnot
      omega
    · have hrem := (planOn_remainingI_pos_iff hr hin.priced hq asset amount).mpr hleft'
      subst pair
      have hnot := hcall hrem bid hb (by rw [← hsa]; exact lb)
      rw [MatchArgs.Crosses, if_neg (by simp [hlimit]), hside, if_neg (by simp [← hsa]), hprice] at hnot
      omega
    · have := hu pair bid ask hb' ha' lb' la'
      omega

lemma Exchange.Uncrossed.remove {s : Exchange} (hu : s.Uncrossed) (c : Order) : (s.remove c).Uncrossed := by
  intro pair bid ask hb ha lb la
  exact hu pair bid ask hb ha (live_of_remove lb) (live_of_remove la)

/-- In every run of limit orders whose fetches are never cut off, the book is uncrossed, and
the next call is maximal exactly when its own fetch is not cut off. -/
theorem reachable_maximal_and_uncrossed {s : Exchange}
    (h : Reachable (fun s o => o.LimitKind ∧ o.SeesAllCrossing s.db) s) :
    s.Uncrossed ∧ ∀ o : Order, o.IncomingKind → (∀ p ∈ s.submitted, p.id ≠ o.id) →
      ((∀ asset amount, s.MaximalCall o asset amount) ↔ o.SeesAllCrossing s.db) := by
  have hinv : ∀ t, Reachable (fun s o => o.LimitKind ∧ o.SeesAllCrossing s.db) t → t.db.Represented ∧ t.Accounted :=
    fun t ht => ht.invariant (fun _ o ho => ho.1.2.2.2.qty_pos.le)
  refine ⟨?_,fun o hk hfresh => maximalCall_iff (hinv s h).1 (hinv s h).2 hk hfresh⟩
  obtain ⟨db,hdb,hrun⟩ := h
  induction hrun with
  | refl =>
    intro pair bid ask hb ha lb
    have hb' := lb.2
    simp [hdb.2] at hb'
  | @tail t u hpre hstep ih =>
    obtain ⟨hr,hs⟩ := hinv t ⟨db,hdb,hpre⟩
    cases hstep with
    | submit o asset amount hfresh hadm => exact ih.submit hr hs hadm.1 hfresh hadm.2 asset amount
    | remove o c _ _ _ _ => exact ih.remove c

lemma Order.gtcLimit_limitKind (id : Uuid) (userId pairId : String) (side : Side) {priceI qtyI : ℤ}
    (hq : 0 < qtyI ∧ qtyI < 10 ^ 14) (hp : 0 < priceI ∧ priceI < 10 ^ 14) :
    (Order.gtcLimit id userId pairId side priceI qtyI).LimitKind := by
  refine ⟨rfl,.inl rfl,⟨_,rfl,?_⟩,Order.gtcLimit_inScale id userId pairId side hq (abs_lt.mpr ⟨by omega,hp.2⟩)⟩
  exact div_pos (by exact_mod_cast hp.1) scale_pos

/-- Two asks of five: the book is uncrossed and a buy of twelve is maximal on it. -/
theorem maximal_and_uncrossed_two_asks :
    (twoAsks 1 2).Uncrossed ∧
    ∀ asset amount, (twoAsks 1 2).MaximalCall (.gtcLimit 3 "bob" "BTC-USDT" .buy 100 12) asset amount := by
  have hkind : ∀ id user side q, 0 < q ∧ q < 10 ^ 14 → (Order.gtcLimit id user "BTC-USDT" side 100 q).LimitKind :=
    fun id user side q hq => Order.gtcLimit_limitKind id user _ side hq (by decide)
  have h := reachable_maximal_and_uncrossed (s := twoAsks 1 2) ⟨Valkey.empty,⟨fun _ _ => rfl,fun _ => rfl⟩,
    (Relation.ReflTransGen.refl.tail (.submit _ _ _ (by simp) ⟨hkind 1 _ _ 5 (by decide),by decide +kernel⟩)).tail
      (.submit _ _ _ (by decide +kernel) ⟨hkind 2 _ _ 5 (by decide),by decide +kernel⟩)⟩
  exact ⟨h.1,(h.2 _ (.inl (hkind 3 _ _ 12 (by decide))) (by decide +kernel)).mpr (by decide +kernel)⟩

/-- One-unit asks with ids `0, 1, …`, all at one price. -/
def smallAsks : ℕ → Exchange
  | 0 => ⟨Valkey.empty,[],[]⟩
  | n + 1 => (smallAsks n).submit (.gtcLimit (Fin.ofNat _ n) "alice" "BTC-USDT" .sell 100 1) "BTC" 0

lemma smallAsks_submitted (n : ℕ) : (smallAsks n).submitted =
    (List.range n).map (fun i => Order.gtcLimit (Fin.ofNat _ i) "alice" "BTC-USDT" .sell 100 1) := by
  induction n with
  | zero => rfl
  | succ n ih => rw [smallAsks, Exchange.submit, ih, List.range_succ, List.map_append]; rfl

lemma smallAsks_fresh {n : ℕ} (hn : n + 1 ≤ 2 ^ 128) : ∀ p ∈ (smallAsks n).submitted,
    p.id ≠ (Order.gtcLimit (Fin.ofNat _ n) "alice" "BTC-USDT" .sell 100 1).id := by
  rw [smallAsks_submitted]
  intro p hp
  obtain ⟨i,hi,rfl⟩ := List.mem_map.mp hp
  have hlt := List.mem_range.mp hi
  intro he
  have := congrArg Fin.val he
  simp only [Order.gtcLimit, Fin.ofNat] at this
  rw [Nat.mod_eq_of_lt (by omega), Nat.mod_eq_of_lt (by omega)] at this
  omega

lemma smallAsks_reachable {n : ℕ} (hn : n ≤ 2 ^ 128) : Reachable (fun _ o => o.LimitKind) (smallAsks n) := by
  induction n with
  | zero => exact ⟨Valkey.empty,⟨fun _ _ => rfl,fun _ => rfl⟩,.refl⟩
  | succ n ih =>
    obtain ⟨db,hdb,hrun⟩ := ih (by omega)
    exact ⟨db,hdb,hrun.tail (.submit _ _ _ (smallAsks_fresh hn)
      (Order.gtcLimit_limitKind _ _ _ _ (by decide) (by decide)))⟩

/-- Against fifty-one one-unit asks, a buy of fifty-one takes fifty and rests at the price of
the last: a crossed book. -/
theorem uncrossed_fails : ∃ s : Exchange, Reachable (fun _ o => o.LimitKind) s ∧ ¬ s.Uncrossed := by
  refine ⟨(smallAsks 51).submit (.gtcLimit 1000 "bob" "BTC-USDT" .buy 100 51) "USDT" 0,?_,?_⟩
  · obtain ⟨db,hdb,hrun⟩ := smallAsks_reachable (show 51 ≤ 2 ^ 128 by decide)
    refine ⟨db,hdb,hrun.tail (.submit _ _ _ ?_ (Order.gtcLimit_limitKind _ _ _ _ (by decide) (by decide)))⟩
    rw [smallAsks_submitted]
    decide +kernel
  · intro hu
    have h := hu "BTC-USDT" 1000 50
      ((matchArgs (.gtcLimit 1000 "bob" "BTC-USDT" .buy 100 51) "" 0).restingHash 1 .partiallyFilled)
      ((matchArgs (.gtcLimit 50 "alice" "BTC-USDT" .sell 100 1) "" 0).restingHash 1 .new)
      ⟨by decide +kernel,by decide +kernel⟩ ⟨by decide +kernel,by decide +kernel⟩
    exact absurd h (by decide +kernel)

end MatchingEngine

import MatchingEngine.MarketOrders
import MatchingEngine.Outcomes

/-! Warmup orders. Persistence is skipped for them, but they go through the matching script like any
other order: a maker that one of them fills has its hash changed or removed, while its row stays. The
reply's numbers are below `10^14`, where the decoder takes them as they are. -/
namespace MatchingEngine
open Library

/-- A member of some set, with its hash. -/
def Valkey.RestsAs (db : Valkey) (id : Uuid) (h : OrderHash) : Prop :=
  (∃ pair side, id ∈ db.book pair side) ∧ db.order id = some h

/-- The row of a resting order shows the remainder in its hash. -/
def System.ShowsRemainder (s : System) (id : Uuid) (h : OrderHash) : Prop :=
  ∃ r, s.pg.orders.get id = some r ∧ r.remaining = i64ToDecimal h.remainingI

/-- What becomes of the records of all users but one: who still rests has a row with the remainder, who has left
has a row that is not open. -/
structure System.RecordsKept (s s' : System) (user : String) : Prop where
  resting : ∀ id h, s'.db.RestsAs id h → h.userId ≠ user → s'.ShowsRemainder id h
  left : ∀ id h, s.db.RestsAs id h → h.userId ≠ user → (∀ h', ¬ s'.db.RestsAs id h') →
    ∃ r, s'.pg.orders.get id = some r ∧ ¬ r.status.IsOpen

/-- The order comes to `r` with enough left for all of it. -/
def Order.TakesAll (o : Order) (db : Valkey) (r : Resting) : Prop :=
  ∃ pre post, (matchArgs o "" 0).restingOn db = pre ++ r :: post ∧
    (pre.map (matchArgs o "" 0).tradableI).sum + r.hash.remainingI ≤ o.qtyI

/-! ### Sizes of fills -/

section Fills
variable {a : MatchArgs}

lemma plan_fill_eq {rem : ℤ} {rs : List Resting} {r : Resting} {q : ℤ} (hv : ⟨r,.fill q⟩ ∈ (plan a rem rs).visits) :
    ∃ pre post, rs = pre ++ r :: post ∧ q = MatchArgs.fillI (rem - (pre.map a.tradableI).sum) r.hash := by
  have hskip : ∀ {x : Resting} {rest : List Resting} {rem : ℤ}, a.tradableI x = 0 →
      (∃ pre post, rest = pre ++ r :: post ∧ q = MatchArgs.fillI (rem - (pre.map a.tradableI).sum) r.hash) →
      ∃ pre post, x :: rest = pre ++ r :: post ∧ q = MatchArgs.fillI (rem - (pre.map a.tradableI).sum) r.hash := by
    rintro x rest rem hx ⟨pre,post,rfl,hq⟩
    exact ⟨x :: pre,post,rfl,by simpa [hx] using hq⟩
  fun_induction plan a rem rs with
  | case1 => cases hv
  | case2 => cases hv
  | case3 rem x rest _ hc ih => exact hskip (if_pos (.inl hc)) (ih hv)
  | case4 => cases hv
  | case5 rem x rest _ _ _ hstp ih =>
    rcases List.mem_cons.mp hv with hv | hv
    · cases hv
    · exact hskip (if_pos (.inr (by simp [hstp]))) (ih hv)
  | case6 => cases hv
  | case7 rem x rest _ _ _ _ =>
    cases List.mem_singleton.mp hv
  | case8 rem x rest hgo hc hx hstp ih =>
    rcases List.mem_cons.mp hv with hv | hv
    · cases hv
      exact ⟨[],rest,rfl,by simp⟩
    · -- the loop went on, so the first candidate was used up
      have hrest : ¬ rem - MatchArgs.fillI rem x.hash ≤ 0 := by
        intro hle
        rw [plan_of_le a rest hle] at hv
        cases hv
      have hfill := MatchArgs.fillI_eq_remaining hrest
      have htradable : a.tradableI x = x.hash.remainingI := if_neg (by simp [hc, hstp])
      obtain ⟨pre,post,rfl,hq⟩ := ih hv
      refine ⟨x :: pre,post,rfl,?_⟩
      rw [hq, hfill, List.map_cons, List.sum_cons, htradable, sub_sub]

lemma restingOn_nodup (a : MatchArgs) (db : Valkey) : (a.restingOn db).Nodup :=
  List.Nodup.of_map Resting.id (resting_ids_nodup (candidates_nodup db a))

lemma outcome_none_iff_takesAll {o : Order} {db : Valkey} {asset : String} {amount : ℤ} {r : Resting} {q : ℤ}
    (hv : ⟨r,.fill q⟩ ∈ ((matchArgs o asset amount).planOn db).visits) :
    Visit.outcome ⟨r,.fill q⟩ = none ↔ o.TakesAll db r := by
  obtain ⟨pre,post,hrs,hq⟩ := plan_fill_eq hv
  have hlist : (matchArgs o "" 0).restingOn db = pre ++ r :: post := hrs
  have hout : Visit.outcome ⟨r,.fill q⟩ = none ↔ r.hash.remainingI ≤ q := by
    simp [Visit.outcome]
  have hsum : ∀ rs : List Resting, (rs.map (matchArgs o asset amount).tradableI).sum = (rs.map (matchArgs o "" 0).tradableI).sum :=
    fun _ => rfl
  have hn : (pre ++ r :: post).Nodup := hlist ▸ restingOn_nodup (matchArgs o "" 0) db
  rw [hout, hq, hsum]
  have htakes : r.hash.remainingI ≤ MatchArgs.fillI ((matchArgs o asset amount).qtyI - (pre.map (matchArgs o "" 0).tradableI).sum) r.hash ↔
      (pre.map (matchArgs o "" 0).tradableI).sum + r.hash.remainingI ≤ o.qtyI := by
    change _ ≤ MatchArgs.fillI (o.qtyI - _) r.hash ↔ _
    unfold MatchArgs.fillI
    split_ifs <;> omega
  rw [htakes]
  constructor
  · exact fun h => ⟨pre,post,hlist,h⟩
  · rintro ⟨pre',post',hlist',h⟩
    have hsame := hlist.symm.trans hlist'
    have hpre : r ∉ pre := fun hmem => List.disjoint_of_nodup_append hn hmem (by simp)
    have hpost : r ∉ post := (List.nodup_cons.mp hn.of_append_right).1
    obtain ⟨rfl,_,_⟩ := (List.append_cons_inj_of_notMem hpre hpost).mp hsame
    exact h

end Fills

/-! ### The book after the script -/

section Script
variable {pairs : PairsCache} {s : System} {msg : QueuedOrderMsg} {d : Draws} {o : Order} {asset : String} {amount : ℤ}
  {db₁ : Valkey}

lemma Order.stpAction_of_ne {h : OrderHash} (hne : h.userId ≠ o.userId) : o.stpAction h = .none := if_neg (Ne.symm hne)

lemma Gateway.Runs.mem_of_mem (hrun : Gateway.Runs pairs s msg d o asset amount db₁) {id : Uuid} (hne : id ≠ o.id)
    {pair : String} {side : Side} (hmem : id ∈ s.db.book pair side)
    (hkept : ∀ v ∈ ((matchArgs o asset amount).planOn s.db).visits, v.id = id → v.outcome ≠ none) :
    id ∈ (Gateway.scriptDb s o asset amount db₁).book pair side := by
  obtain ⟨e,he,rfl⟩ := SortedSet.mem_iff.mp hmem
  have hvisits : e ∈ ((applyVisits (matchArgs o asset amount) db₁ ((matchArgs o asset amount).planOn s.db).visits).book
      pair side).entries := by
    rw [mem_entries_applyVisits, (lockBalance_frame hrun.funded).2.1]
    refine ⟨he,?_⟩
    rintro ⟨_,_,v,hv,hid,hout⟩
    exact hkept v hv hid hout
  refine SortedSet.mem_iff.mpr ⟨e,?_,rfl⟩
  rw [Gateway.scriptDb, mem_entries_settle]
  split_ifs
  · exact .inr ⟨hvisits,hne⟩
  · exact hvisits

lemma Gateway.Runs.mem_before (hrun : Gateway.Runs pairs s msg d o asset amount db₁) {id : Uuid} (hne : id ≠ o.id)
    {pair : String} {side : Side} (hmem : id ∈ (Gateway.scriptDb s o asset amount db₁).book pair side) :
    id ∈ s.db.book pair side := by
  obtain ⟨e,he,rfl⟩ := SortedSet.mem_iff.mp hmem
  rw [Gateway.scriptDb, mem_entries_settle, mem_entries_applyVisits, (lockBalance_frame hrun.funded).2.1] at he
  refine SortedSet.mem_iff.mpr ⟨e,?_,rfl⟩
  split_ifs at he
  · rcases he with rfl | ⟨he,_⟩
    · exact absurd rfl hne
    · exact he.1
  · exact he.1

lemma not_restsAs_of_outcome (hfresh : s.db.order o.id = none) {v : Visit}
    (hv : v ∈ ((matchArgs o asset amount).planOn s.db).visits) (hout : v.outcome = none) (h : OrderHash) :
    ¬ (Gateway.scriptDb s o asset amount db₁).RestsAs v.id h := by
  rintro ⟨_,horder⟩
  rw [Gateway.scriptDb, settle_order_visited hv (fun _ => planOn_visit_ne hfresh v hv), hout] at horder
  cases horder

lemma restsAs_of_visit {v : Visit} (hv : v ∈ ((matchArgs o asset amount).planOn s.db).visits) :
    s.db.RestsAs v.id v.resting.hash := ⟨⟨_,_,(planOn_visit hv).2.2⟩,(planOn_visit hv).2.1⟩

lemma visit_fill_of_ne {v : Visit} (hv : v ∈ ((matchArgs o asset amount).planOn s.db).visits)
    (huser : v.resting.hash.userId ≠ o.userId) : ∃ q, v = ⟨v.resting,.fill q⟩ := by
  obtain ⟨r,act⟩ := v
  cases act with
  | fill q => exact ⟨q,rfl⟩
  | cancel =>
    have hstp := (((planOn_meets o s.db asset amount).1 r).mp hv).2
    rw [Order.stpAction_of_ne huser] at hstp
    simp at hstp

variable (hrun : Gateway.Runs pairs s msg d o asset amount db₁) (hfresh : s.db.order o.id = none)
include hrun hfresh

lemma Gateway.Runs.restsAs_of_outcome {v : Visit} (hv : v ∈ ((matchArgs o asset amount).planOn s.db).visits) {h : OrderHash}
    (hout : v.outcome = some h) : (Gateway.scriptDb s o asset amount db₁).RestsAs v.id h := by
  have hne : v.id ≠ o.id := planOn_visit_ne hfresh v hv
  refine ⟨⟨o.pairId,o.side.opposite,hrun.mem_of_mem hne (planOn_visit hv).2.2 (fun w hw hid => ?_)⟩,?_⟩
  · have hsame : w = v := List.inj_on_of_nodup_map (planOn_ids_nodup (matchArgs o asset amount) s.db) hw hv hid
    rw [hsame, hout]
    simp
  · exact (settle_order_visited hv (fun _ => hne)).trans hout

/-- Another user's order that rests afterwards was filled in part, or rested the same way before. -/
lemma Gateway.Runs.restsAs_cases {id : Uuid} {h : OrderHash} (hrests : (Gateway.scriptDb s o asset amount db₁).RestsAs id h)
    (huser : h.userId ≠ o.userId) :
    (∃ v ∈ ((matchArgs o asset amount).planOn s.db).visits, v.id = id ∧ v.outcome = some h) ∨ s.db.RestsAs id h := by
  obtain ⟨⟨pair,side,hmem⟩,horder⟩ := hrests
  rcases settle_order_cases hrun.funded horder with ⟨_,_,rfl⟩ | hvisited | ⟨_,ho⟩
  · exact absurd rfl huser
  · exact .inl hvisited
  · have hne : id ≠ o.id := by
      rintro rfl
      rw [hfresh] at ho
      cases ho
    exact .inr ⟨⟨pair,side,hrun.mem_before hne hmem⟩,ho⟩

lemma Gateway.Runs.restsAs_of_unvisited {id : Uuid} {h : OrderHash} (hrests : s.db.RestsAs id h)
    (hnot : ∀ v ∈ ((matchArgs o asset amount).planOn s.db).visits, v.id ≠ id) :
    (Gateway.scriptDb s o asset amount db₁).RestsAs id h := by
  obtain ⟨⟨pair,side,hmem⟩,horder⟩ := hrests
  have hne : id ≠ o.id := by
    rintro rfl
    rw [hfresh] at horder
    cases horder
  refine ⟨⟨pair,side,hrun.mem_of_mem hne hmem (fun v hv hid => absurd hid (hnot v hv))⟩,?_⟩
  exact (settle_order_unvisited hrun.funded hnot (fun _ => hne)).trans horder

/-- A maker whose record stays in order is used up: a remainder would no longer be the row's. -/
lemma Gateway.Runs.used_of_kept (hmirror : ∀ id h, s.db.RestsAs id h → s.ShowsRemainder id h)
    (hkept : s.RecordsKept ⟨Gateway.scriptDb s o asset amount db₁,s.pg⟩ o.userId) {r : Resting} {q : ℤ}
    (hv : ⟨r,.fill q⟩ ∈ ((matchArgs o asset amount).planOn s.db).visits) (huser : r.hash.userId ≠ o.userId) :
    Visit.outcome ⟨r,.fill q⟩ = none := by
  obtain ⟨row,hrow,hrem⟩ := hmirror r.id r.hash (restsAs_of_visit hv)
  cases hout : Visit.outcome ⟨r,.fill q⟩ with
  | none => rfl
  | some h =>
    obtain ⟨q',hq',_,rfl⟩ := Visit.outcome_fields hout
    cases hq'
    obtain ⟨row',hrow',hrem'⟩ := hkept.resting r.id _ (hrun.restsAs_of_outcome hfresh hv hout) huser
    have hpos : 0 < q := ((planOn_visit hv).1.fill q rfl).1
    rw [show s.pg.orders.get r.id = some row from hrow, Option.some_inj] at hrow'
    rw [← hrow', hrem] at hrem'
    have hsame : r.hash.remainingI = r.hash.remainingI - q := i64ToDecimal_injective hrem'
    omega

lemma Gateway.Runs.kept_of_used (hmirror : ∀ id h, s.db.RestsAs id h → s.ShowsRemainder id h)
    (hused : ∀ v ∈ ((matchArgs o asset amount).planOn s.db).visits, v.resting.hash.userId ≠ o.userId →
      v.outcome = none ∧ ∀ row, s.pg.orders.get v.id = some row → ¬ row.status.IsOpen) :
    s.RecordsKept ⟨Gateway.scriptDb s o asset amount db₁,s.pg⟩ o.userId := by
  constructor
  · intro id h hrests huser
    rcases hrun.restsAs_cases hfresh hrests huser with ⟨v,hv,rfl,hout⟩ | hbefore
    · obtain ⟨q,_,_,rfl⟩ := Visit.outcome_fields hout
      have hnone := (hused v hv huser).1
      rw [hout] at hnone
      cases hnone
    · exact hmirror id h hbefore
  · intro id h hbefore huser hleft
    by_cases hvisited : ∃ v ∈ ((matchArgs o asset amount).planOn s.db).visits, v.id = id
    · obtain ⟨v,hv,rfl⟩ := hvisited
      have hhash : v.resting.hash = h := Option.some.inj ((planOn_visit hv).2.1.symm.trans hbefore.2)
      obtain ⟨row,hrow,_⟩ := hmirror v.id h hbefore
      exact ⟨row,hrow,(hused v hv (hhash ▸ huser)).2 row hrow⟩
    · push Not at hvisited
      exact absurd (hrun.restsAs_of_unvisited hfresh hbefore hvisited) (hleft h)

lemma Gateway.Runs.recordsKept_iff (hmirror : ∀ id h, s.db.RestsAs id h → s.ShowsRemainder id h) :
    s.RecordsKept ⟨Gateway.scriptDb s o asset amount db₁,s.pg⟩ o.userId ↔
      ∀ r, o.Meets s.db r → r.hash.userId ≠ o.userId →
        o.TakesAll s.db r ∧ ∀ row, s.pg.orders.get r.id = some row → ¬ row.status.IsOpen := by
  obtain ⟨_,hfill,_⟩ := planOn_meets o s.db asset amount
  constructor
  · intro hkept r hmeets huser
    obtain ⟨q,hv⟩ := (hfill r).mpr ⟨hmeets,Order.stpAction_of_ne huser⟩
    have hout : Visit.outcome ⟨r,.fill q⟩ = none := hrun.used_of_kept hfresh hmirror hkept hv huser
    obtain ⟨row,hrow,hclosed⟩ := hkept.left r.id r.hash (restsAs_of_visit hv) huser (not_restsAs_of_outcome hfresh hv hout)
    refine ⟨(outcome_none_iff_takesAll hv).mp hout,fun row' hrow' => ?_⟩
    rw [show s.pg.orders.get r.id = some row from hrow, Option.some_inj] at hrow'
    rwa [← hrow']
  · intro hmet
    refine hrun.kept_of_used hfresh hmirror (fun v hv huser => ?_)
    obtain ⟨q,hq⟩ := visit_fill_of_ne hv huser
    rw [hq] at hv ⊢
    obtain ⟨htakes,hclosed⟩ := hmet v.resting ((hfill v.resting).mp ⟨q,hv⟩).1 huser
    exact ⟨(outcome_none_iff_takesAll hv).mpr htakes,hclosed⟩

end Script

/-- A warmup order leaves the records of other users in order exactly when it is a fill-or-kill order, which is
killed, or takes all of every order of another user that it meets, and the rows of these are closed already. -/
theorem warmup_records_kept_iff (pairs : PairsCache) (s : System) (msg : QueuedOrderMsg) (d : Draws) {o result : Order}
    (hmirror : ∀ id h, s.db.RestsAs id h → s.ShowsRemainder id h) (haccepted : Gateway.acceptOrder pairs msg d = .ok o)
    (hwarm : isWarmup o = true) (hfresh : s.db.order o.id = none)
    (hok : (Gateway.processOrder pairs s msg d).1 = .ok result) :
    s.RecordsKept (Gateway.processOrder pairs s msg d).2 o.userId ↔
      o.tif = .fok ∨ ∀ r, o.Meets s.db r → r.hash.userId ≠ o.userId →
        o.TakesAll s.db r ∧ ∀ row, s.pg.orders.get r.id = some row → ¬ row.status.IsOpen := by
  rcases Gateway.processOrder_cases pairs s msg d with ⟨e,he⟩ | ⟨o',ho',htif,he⟩ | ⟨o',asset,amount,db₁,hrun⟩
  · rw [he] at hok
    cases hok
  · obtain rfl := Except.ok.inj (haccepted.symm.trans ho')
    rw [he]
    refine iff_of_true ⟨fun id h hrests _ => hmirror id h hrests,fun id h hrests _ hleft => ?_⟩ (.inl htif)
    exact absurd hrests (hleft h)
  · obtain rfl := Except.ok.inj (haccepted.symm.trans hrun.accepted)
    rw [hrun.processOrder_eq]
    simp only [hwarm, if_true, hrun.tif, false_or]
    exact hrun.recordsKept_iff hfresh hmirror

/-- Bob's warmup request. -/
def warmupMsg (quantity : Decimal) : QueuedOrderMsg :=
  { marketMsg 2 "bob" .buy .ioc quantity with clientOrderId := some "warmup:1" }

def warmupOrder (quantity : Decimal) : Order :=
  { (marketBuy quantity).toOrder 2 0 with tif := .ioc, clientOrderId := some "warmup:1" }

/-- Alice's ask of five units in the book, and its row. -/
def askWithRow (status : OrderStatus) : System where
  db := oneAsk.db
  pg := { Postgres.empty with orders :=
    ⟨[(1,{ Order.gtcLimit 1 "alice" "BTC-USDT" .sell 100 5 with status := status })],List.nodup_singleton 1⟩ }

lemma askWithRow_order (status : OrderStatus) {id : Uuid} {h : OrderHash} (ho : (askWithRow status).db.order id = some h) :
    id = 1 ∧ h.remainingI = 5 := by
  have hsourced : oneAsk.Sourced :=
    Exchange.Sourced.submit (s := Exchange.mk Valkey.empty [] []) (fun id h ho => by cases ho) _ "BTC" 0
  obtain ⟨o,ho',rfl,_⟩ := hsourced id h ho
  obtain rfl : o = .gtcLimit 1 "alice" "BTC-USDT" .sell 100 5 := List.mem_singleton.mp ho'
  have hrem : (oneAsk.db.order 1).map OrderHash.remainingI = some 5 := by decide +kernel
  rw [show oneAsk.db.order 1 = some h from ho] at hrem
  exact ⟨rfl,Option.some.inj hrem⟩

lemma askWithRow_mirrored (status : OrderStatus) :
    ∀ id h, (askWithRow status).db.RestsAs id h → (askWithRow status).ShowsRemainder id h := by
  intro id h hrests
  obtain ⟨rfl,hrem⟩ := askWithRow_order status hrests.2
  exact ⟨_,rfl,by rw [hrem]; rfl⟩

lemma warmupMsg_accepted {q : ℤ} (hq : q = 2 ∨ q = 5) :
    Gateway.acceptOrder btcUsdt (warmupMsg (i64ToDecimal q)) ⟨0,fun _ => 20,0⟩ = .ok (warmupOrder (i64ToDecimal q)) := by
  rcases hq with rfl | rfl <;> decide +kernel

/-- The row of the ask was closed before, and the warmup order takes all of it. -/
theorem warmup_takes_closed_ask :
    (Gateway.processOrder btcUsdt (askWithRow .cancelled) (warmupMsg (i64ToDecimal 5)) ⟨0,fun _ => 20,0⟩).2.db.order 1 = none ∧
    (askWithRow .cancelled).RecordsKept
      (Gateway.processOrder btcUsdt (askWithRow .cancelled) (warmupMsg (i64ToDecimal 5)) ⟨0,fun _ => 20,0⟩).2 "bob" := by
  have hok : (Gateway.processOrder btcUsdt (askWithRow .cancelled) (warmupMsg (i64ToDecimal 5)) ⟨0,fun _ => 20,0⟩).1 =
      .ok { warmupOrder (i64ToDecimal 5) with remaining := 0, status := .filled } := by decide +kernel
  refine ⟨by decide +kernel,(warmup_records_kept_iff btcUsdt (askWithRow .cancelled) (warmupMsg (i64ToDecimal 5))
    ⟨0,fun _ => 20,0⟩ (askWithRow_mirrored .cancelled) (warmupMsg_accepted (.inr rfl)) (by decide +kernel)
    (by decide +kernel) hok).mpr (.inr fun r hmeets _ => ?_)⟩
  have hone : ((matchArgs (warmupOrder (i64ToDecimal 5)) "" 0).restingOn oneAsk.db).length = 1 := by decide +kernel
  obtain ⟨x,hx⟩ := List.length_eq_one_iff.mp hone
  have hmem : r ∈ (matchArgs (warmupOrder (i64ToDecimal 5)) "" 0).restingOn oneAsk.db := hmeets.mem
  obtain ⟨hid,hrem⟩ := askWithRow_order .cancelled (mem_resting.mp hmem).2
  rw [hx, List.mem_singleton] at hmem
  constructor
  · refine ⟨[],[],hmem ▸ hx,?_⟩
    rw [hrem]
    decide +kernel
  · intro row hrow
    rw [hid] at hrow
    obtain rfl := Option.some.inj hrow
    decide

/-- The warmup order takes two of the five units; the row of the ask still shows five. -/
theorem warmup_leaves_stale_row :
    let s := askWithRow .new
    let out := Gateway.processOrder btcUsdt s (warmupMsg (i64ToDecimal 2)) ⟨0,fun _ => 20,0⟩
    (∀ id h, s.db.RestsAs id h → s.ShowsRemainder id h) ∧
    Gateway.acceptOrder btcUsdt (warmupMsg (i64ToDecimal 2)) ⟨0,fun _ => 20,0⟩ = .ok (warmupOrder (i64ToDecimal 2)) ∧
    isWarmup (warmupOrder (i64ToDecimal 2)) = true ∧ s.db.order 2 = none ∧
    out.1 = .ok { warmupOrder (i64ToDecimal 2) with remaining := 0, status := .filled } ∧
    (out.2.db.order 1).map OrderHash.remainingI = some 3 ∧
    (out.2.pg.orders.get 1).map Order.remaining = some (i64ToDecimal 5) ∧
    ¬ s.RecordsKept out.2 "bob" := by
  intro s out
  have hhash : (out.2.db.order 1).map (fun h => (h.remainingI,h.userId)) = some (3,"alice") := by decide +kernel
  have hrow : (out.2.pg.orders.get 1).map Order.remaining = some (i64ToDecimal 5) := by decide +kernel
  have hmem : (1 : Uuid) ∈ out.2.db.book "BTC-USDT" .sell := by decide +kernel
  refine ⟨askWithRow_mirrored .new,warmupMsg_accepted (.inl rfl),by decide +kernel,by decide +kernel,by decide +kernel,
    by decide +kernel,hrow,fun hkept => ?_⟩
  obtain ⟨h,ho,hfields⟩ := Option.map_eq_some_iff.mp hhash
  obtain ⟨hrem,huser⟩ := Prod.mk.inj hfields
  obtain ⟨r,hr,hshown⟩ := hkept.resting 1 h ⟨⟨_,_,hmem⟩,ho⟩ (by rw [huser]; decide)
  rw [hr, Option.map_some, hshown, hrem] at hrow
  exact absurd hrow (by decide +kernel)

end MatchingEngine

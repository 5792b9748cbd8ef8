import MatchingEngine.Depth
import MatchingEngine.Expiry

/-! Ghosts: members of the book sets whose hash has expired. The loop steps over them, but they
count among the fifty candidates of the fetch, so they are invisible exactly while they push no
order out of it that the loop would come to. -/
namespace MatchingEngine
open Library

/-! ### The sweep -/

def sweptPairs : List String := ["BTC-USDT","ETH-USDT","SOL-USDT"]

/-- The book keys of the two loops, in turn. -/
def sweptKeys : List (String × Side) := sweptPairs.flatMap (fun pair => [(pair,.buy),(pair,.sell)])

/-- The command `sweep_stale_orders`. -/
@[irreducible] def Valkey.sweepAll (db : Valkey) : Valkey := sweptKeys.foldl (fun db k => db.sweepStaleOrders k.1 k.2) db

/-- The hash of the order has not expired. -/
def Valkey.hasHash (db : Valkey) (id : Uuid) : Bool := (db.order id).isSome

lemma Valkey.hasHash_congr {db db' : Valkey} (h : db'.order = db.order) : db'.hasHash = db.hasHash := by
  unfold Valkey.hasHash
  rw [h]

lemma sweepStaleOrders_frame (db : Valkey) (pair : String) (side : Side) :
    (db.sweepStaleOrders pair side).version = db.version ∧ (db.sweepStaleOrders pair side).balance = db.balance := by
  unfold Valkey.sweepStaleOrders
  induction (db.book pair side).rangeByScore none generalizing db with
  | nil => exact ⟨rfl,rfl⟩
  | cons id ids ih =>
    rw [List.foldl_cons]
    split_ifs
    · exact ih (db.zrem pair side id)
    · exact ih db

lemma sweepStaleOrders_eq (db : Valkey) (pair : String) (side : Side) : db.sweepStaleOrders pair side =
    { db with book := fun p s => if p = pair ∧ s = side then (db.book p s).filter db.hasHash else db.book p s } := by
  obtain ⟨horder,httl,hbook⟩ := Valkey.sweep_frame ((db.book pair side).rangeByScore none) db pair side
  obtain ⟨hversion,hbalance⟩ := sweepStaleOrders_frame db pair side
  refine Valkey.ext ?_ horder httl hversion hbalance
  funext p s
  apply SortedSet.ext_mem
  intro e
  rw [Valkey.sweepStaleOrders, hbook p s e]
  dsimp only
  by_cases hk : p = pair ∧ s = side
  · obtain ⟨rfl,rfl⟩ := hk
    have hlisted : e ∈ (db.book p s).entries → e.member ∈ (db.book p s).rangeByScore none := fun he =>
      SortedSet.mem_rangeByScore.mpr ⟨e,he,by simp,rfl⟩
    rw [if_pos ⟨rfl,rfl⟩, SortedSet.mem_entries_filter, Valkey.hasHash, Option.isSome_iff_ne_none]
    constructor
    · rintro ⟨he,hnot⟩
      exact ⟨he,fun hnone => hnot ⟨rfl,rfl,hlisted he,hnone⟩⟩
    · rintro ⟨he,hsome⟩
      exact ⟨he,fun h => hsome h.2.2.2⟩
  · rw [if_neg hk]
    exact and_iff_left (fun h => hk ⟨h.1,h.2.1⟩)

lemma foldl_sweepStaleOrders (keys : List (String × Side)) (db : Valkey) :
    keys.foldl (fun db k => db.sweepStaleOrders k.1 k.2) db =
      { db with book := fun p s => if (p,s) ∈ keys then (db.book p s).filter db.hasHash else db.book p s } := by
  induction keys generalizing db with
  | nil => simp
  | cons k keys ih =>
    rw [List.foldl_cons, ih, sweepStaleOrders_eq]
    refine Valkey.ext ?_ rfl rfl rfl rfl
    funext p s
    have hk : (p,s) ∈ k :: keys ↔ (p = k.1 ∧ s = k.2) ∨ (p,s) ∈ keys := by
      rw [List.mem_cons, Prod.ext_iff]
    by_cases h₁ : p = k.1 ∧ s = k.2
    · by_cases h₂ : (p,s) ∈ keys
      · simp only [if_pos h₁, if_pos h₂, if_pos (hk.mpr (.inl h₁))]
        exact SortedSet.filter_filter (db.book p s) db.hasHash
      · simp only [if_pos h₁, if_neg h₂, if_pos (hk.mpr (.inl h₁))]
    · simp only [hk, h₁, false_or]
      rfl

/-- On both sides of the three pairs the members with a hash stay, and nothing else changes. -/
theorem sweepAll_eq (db : Valkey) : db.sweepAll =
    { db with book := fun p s => if p ∈ sweptPairs then (db.book p s).filter db.hasHash else db.book p s } := by
  have hkeys : ∀ p s, (p,s) ∈ sweptKeys ↔ p ∈ sweptPairs := by
    intro p s
    cases s <;> simp [sweptKeys, sweptPairs]
  rw [Valkey.sweepAll, foldl_sweepStaleOrders]
  simp only [hkeys]

section Sweep
variable (db : Valkey)

@[simp] lemma sweepAll_order : db.sweepAll.order = db.order := by rw [sweepAll_eq]

lemma sweepAll_book (p : String) (s : Side) :
    db.sweepAll.book p s = if p ∈ sweptPairs then (db.book p s).filter db.hasHash else db.book p s := by
  rw [sweepAll_eq]

lemma mem_sweepAll_book {p : String} {s : Side} {id : Uuid} (hid : id ∈ db.book p s) (hhash : db.order id ≠ none) :
    id ∈ db.sweepAll.book p s := by
  obtain ⟨e,he,rfl⟩ := SortedSet.mem_iff.mp hid
  rw [sweepAll_book]
  split_ifs
  · exact SortedSet.mem_iff.mpr ⟨e,SortedSet.mem_entries_filter.mpr ⟨he,Option.isSome_iff_ne_none.mpr hhash⟩,rfl⟩
  · exact hid

/-- Two stores that differ in their book sets only. -/
structure Valkey.SameButBooks (db db' : Valkey) : Prop where
  order : db'.order = db.order
  ttl : db'.ttl = db.ttl
  version : db'.version = db.version
  balance : db'.balance = db.balance

lemma sameButBooks_sweepAll : db.SameButBooks db.sweepAll := by
  rw [sweepAll_eq]
  exact ⟨rfl,rfl,rfl,rfl⟩

lemma Valkey.SameButBooks.sweepAll_eq_sweepAll {db db' : Valkey} (h : db.SameButBooks db')
    (hbook : ∀ p s e, (p ∈ sweptPairs → db.order e.member ≠ none) →
      (e ∈ (db'.book p s).entries ↔ e ∈ (db.book p s).entries)) : db'.sweepAll = db.sweepAll := by
  rw [sweepAll_eq, sweepAll_eq]
  refine Valkey.ext ?_ h.order h.ttl h.version h.balance
  funext p s
  apply SortedSet.ext_mem
  intro e
  dsimp only
  rw [Valkey.hasHash_congr h.order]
  split_ifs with hp
  · rw [SortedSet.mem_entries_filter, SortedSet.mem_entries_filter]
    exact and_congr_left fun hhash => hbook p s e fun _ => Option.isSome_iff_ne_none.mp hhash
  · exact hbook p s e fun hp' => absurd hp' hp

lemma lockBalance_sweepAll (a : MatchArgs) : lockBalance db.sweepAll a = (lockBalance db a).map Valkey.sweepAll := by
  rw [sweepAll_eq]
  unfold lockBalance
  split_ifs
  · rfl
  · rw [Option.map_some, sweepAll_eq]
    rfl
  · rw [Option.map_some, sweepAll_eq]

end Sweep

/-! ### The candidates -/

lemma resting_sweepAll (db : Valkey) (ids : List Uuid) : db.sweepAll.resting ids = db.resting ids :=
  resting_congr (fun id _ => by rw [sweepAll_order])

lemma resting_filter_hasHash (db : Valkey) (ids : List Uuid) : db.resting (ids.filter db.hasHash) = db.resting ids := by
  induction ids with
  | nil => rfl
  | cons id ids ih =>
    cases hd : db.order id with
    | none =>
      rw [List.filter_cons_of_neg (by simp [Valkey.hasHash, hd]), ih, resting_cons_none ids hd]
    | some h =>
      rw [List.filter_cons_of_pos (by simp [Valkey.hasHash, hd]), resting_cons_some _ hd, resting_cons_some _ hd, ih]

/-- Without ghosts the first fifty candidates are fifty orders, from the same listing. -/
lemma restingOn_sweepAll_eq {db : Valkey} {a : MatchArgs} (hpair : a.pairId ∈ sweptPairs) : a.restingOn db.sweepAll =
    (db.resting ((db.book a.pairId a.side.opposite).rangeByScore a.maxScore)).take 50 := by
  have hcand : candidates db.sweepAll a =
      (((db.book a.pairId a.side.opposite).rangeByScore a.maxScore).filter db.hasHash).take 50 := by
    rw [candidates, sweepAll_book, if_pos hpair, SortedSet.rangeByScore_filter]
  rw [MatchArgs.restingOn, resting_sweepAll, hcand, Valkey.resting,
    filterMap_take_of_isSome, ← Valkey.resting, resting_filter_hasHash]
  intro id hid
  rw [Option.isSome_map]
  exact (List.mem_filter.mp hid).2

lemma restingOn_sweepAll_append (db : Valkey) (a : MatchArgs) : ∃ rest, a.restingOn db.sweepAll = a.restingOn db ++ rest := by
  by_cases hpair : a.pairId ∈ sweptPairs
  · have hsplit : db.resting ((db.book a.pairId a.side.opposite).rangeByScore a.maxScore) = a.restingOn db ++
        db.resting (((db.book a.pairId a.side.opposite).rangeByScore a.maxScore).drop 50) := by
      rw [MatchArgs.restingOn, candidates, Valkey.resting, Valkey.resting, Valkey.resting, ← List.filterMap_append,
        List.take_append_drop]
    have hlength : (a.restingOn db).length ≤ 50 := by
      refine le_trans (List.length_filterMap_le _ _) ?_
      rw [candidates, List.length_take]
      exact min_le_left _ _
    rw [restingOn_sweepAll_eq hpair, hsplit, List.take_append, List.take_of_length_le hlength]
    exact ⟨_,rfl⟩
  · refine ⟨[],?_⟩
    rw [List.append_nil, MatchArgs.restingOn, resting_sweepAll, candidates, sweepAll_book, if_neg hpair]
    rfl

/-! ### The store after the call -/

lemma Valkey.SameButBooks.applyVisits {db db' : Valkey} (h : db.SameButBooks db') (a : MatchArgs) (vs : List Visit) :
    (applyVisits a db vs).SameButBooks (applyVisits a db' vs) := by
  induction vs generalizing db db' with
  | nil => exact h
  | cons v vs ih =>
    apply ih
    unfold applyVisit
    cases v.outcome with
    | none =>
      simp only [Valkey.dropOrder, Valkey.del, Valkey.zrem]
      exact ⟨by simp only [h.order],by simp only [h.ttl],h.version,h.balance⟩
    | some w =>
      simp only [Valkey.hset]
      exact ⟨by simp only [h.order],h.ttl,h.version,h.balance⟩

lemma Valkey.SameButBooks.settle {db db' : Valkey} (h : db.SameButBooks db') (a : MatchArgs) (p : Plan) :
    (a.settle db p).SameButBooks (a.settle db' p) := by
  have hv := h.applyVisits a p.visits
  rw [settle_eq, settle_eq]
  by_cases hrests : p.Rests a
  · simp only [if_pos hrests, placeResting, Valkey.expire, Valkey.hset, Valkey.zadd, Valkey.incrVersion]
    exact ⟨by simp only [hv.order],by simp only [hv.ttl],by simp only [hv.version],hv.balance⟩
  · simp only [if_neg hrests, Valkey.incrVersion]
    exact ⟨hv.order,hv.ttl,by simp only [hv.version],hv.balance⟩

/-- The same plan, replayed on the swept store. Its own order must not wake a ghost. -/
lemma settle_sweepAll {db db₁ : Valkey} {a : MatchArgs} (hl : lockBalance db a = some db₁)
    (hfresh : ∀ pair side, a.orderId ∉ db.book pair side) :
    (a.settle db₁.sweepAll (a.planOn db)).sweepAll = (a.settle db₁ (a.planOn db)).sweepAll := by
  obtain ⟨horder,hbook,_⟩ := lockBalance_frame hl
  refine ((sameButBooks_sweepAll db₁).settle a _).sweepAll_eq_sweepAll fun p s e hlive => ?_
  have hkept : e ∈ (db.book p s).entries → p ∈ sweptPairs → db.order e.member ≠ none := by
    intro he hp
    have hne : e.member ≠ a.orderId := fun heq => hfresh p s (heq ▸ SortedSet.mem_iff.mpr ⟨e,he,rfl⟩)
    have hhash := hlive hp
    by_cases hv : ∃ v ∈ (a.planOn db).visits, v.id = e.member
    · obtain ⟨v,hv,hid⟩ := hv
      rw [← hid, (planOn_visit hv).2.1]
      exact Option.some_ne_none _
    · push Not at hv
      rwa [settle_order_unvisited hl hv (fun _ => hne)] at hhash
  have hentry : e ∈ (db₁.sweepAll.book p s).entries ↔ e ∈ (db₁.book p s).entries := by
    rw [sweepAll_book]
    split_ifs with hp
    · rw [SortedSet.mem_entries_filter, hbook, Valkey.hasHash_congr horder]
      exact and_iff_left_of_imp fun he => Option.isSome_iff_ne_none.mpr (hkept he hp)
    · rfl
  rw [mem_entries_settle, mem_entries_settle, mem_entries_applyVisits, mem_entries_applyVisits, hentry]

lemma sweepAll_sweepAll (db : Valkey) : db.sweepAll.sweepAll = db.sweepAll := by
  refine (sameButBooks_sweepAll db).sweepAll_eq_sweepAll fun p s e hlive => ?_
  rw [sweepAll_book]
  split_ifs with hp
  · rw [SortedSet.mem_entries_filter]
    exact and_iff_left (Option.isSome_iff_ne_none.mpr (hlive hp))
  · rfl

/-! ### Invisible ghosts -/

/-- The call on the swept store gives the same reply, and the same store once both are swept. -/
def GhostsInvisible (db : Valkey) (a : MatchArgs) : Prop :=
  (matchOrderScript db.sweepAll a).1 = (matchOrderScript db a).1 ∧
    (matchOrderScript db.sweepAll a).2.sweepAll = (matchOrderScript db a).2.sweepAll

/-- Every order that the call comes to in the swept store is among the candidates of the unswept one. -/
def MatchArgs.FetchesAllMet (a : MatchArgs) (db : Valkey) : Prop :=
  ∀ r, a.Meets a.qtyI (a.restingOn db.sweepAll) r → r.id ∈ candidates db a

section Invisible
variable {db db₁ : Valkey} {a : MatchArgs}

lemma mem_restingOn_of_mem_candidates {r : Resting} (hr : r ∈ a.restingOn db.sweepAll) (hid : r.id ∈ candidates db a) :
    r ∈ a.restingOn db := by
  refine mem_resting.mpr ⟨hid,?_⟩
  rw [← (mem_resting.mp hr).2, sweepAll_order]

lemma MatchArgs.FetchesAllMet.planOn_eq (h : a.FetchesAllMet db) : a.planOn db.sweepAll = a.planOn db := by
  obtain ⟨rest,hrest⟩ := restingOn_sweepAll_append db a
  have hnodup : ((a.restingOn db.sweepAll).map Resting.id).Nodup := resting_ids_nodup (candidates_nodup _ _)
  change plan a a.qtyI (a.restingOn db.sweepAll) = plan a a.qtyI (a.restingOn db)
  rw [hrest]
  apply plan_append_of_not_meets
  intro x hx hm
  rw [← hrest] at hm
  have hold := mem_restingOn_of_mem_candidates hm.mem (h x hm)
  rw [hrest, List.map_append] at hnodup
  exact List.disjoint_of_nodup_append hnodup (List.mem_map_of_mem hold) (List.mem_map_of_mem hx)

lemma matchOrderScript_sweepAll (db : Valkey) (a : MatchArgs) : matchOrderScript db.sweepAll a =
    match lockBalance db a with
    | none => (.insufficientBalance,db.sweepAll)
    | some db₁ =>
      (.ok (a.planOn db.sweepAll).remainingI ((a.planOn db.sweepAll).status a) ((a.planOn db.sweepAll).trades a),
        a.settle db₁.sweepAll (a.planOn db.sweepAll)) := by
  rw [matchOrderScript_eq, lockBalance_sweepAll]
  cases lockBalance db a with
  | none => rw [Option.map_none]
  | some db₁ => rw [Option.map_some]

lemma MatchArgs.FetchesAllMet.ghostsInvisible (h : a.FetchesAllMet db) (hfresh : ∀ pair side, a.orderId ∉ db.book pair side) :
    GhostsInvisible db a := by
  unfold GhostsInvisible
  rw [matchOrderScript_sweepAll, matchOrderScript_eq, h.planOn_eq]
  cases hl : lockBalance db a with
  | none =>
    simp only [true_and]
    exact sweepAll_sweepAll db
  | some db₁ =>
    simp only [true_and]
    exact settle_sweepAll hl hfresh

lemma mem_book_of_mem_restingOn {r : Resting} (hr : r ∈ a.restingOn db.sweepAll) : r.id ∈ db.book a.pairId a.side.opposite := by
  obtain ⟨e,he,_,hm⟩ := SortedSet.mem_rangeByScore.mp (List.mem_of_mem_take (mem_resting.mp hr).1)
  refine SortedSet.mem_iff.mpr ⟨e,?_,hm⟩
  rw [sweepAll_book] at he
  split_ifs at he
  · exact (SortedSet.mem_entries_filter.mp he).1
  · exact he

/-- Without the order behind the ghosts the call keeps a remainder, so that order cannot have stopped it. -/
lemma not_stops_of_remainingI_eq (hrem : (a.planOn db.sweepAll).remainingI = (a.planOn db).remainingI) {r : Resting}
    (hr : a.Meets a.qtyI (a.restingOn db.sweepAll) r) (hid : r.id ∉ candidates db a) : ¬ a.Stops r.hash := by
  intro hs
  have hstopped : (a.planOn db.sweepAll).remainingI = 0 :=
    plan_stopped ((plan_meets a a.qtyI (a.restingOn db.sweepAll)).2.2.mpr ⟨r,hr,hs⟩)
  obtain ⟨rest,hrest⟩ := restingOn_sweepAll_append db a
  have hreach : a.Reaches a.qtyI (a.restingOn db ++ rest) r := hrest ▸ hr.reached
  have hpos : 0 < (a.planOn db).remainingI := hreach.remainingI_pos fun hmem => hid (mem_resting.mp hmem).1
  omega

/-- An order that the sweep lets the call come to is traded with, or removed, or stops the order. -/
lemma GhostsInvisible.fetchesAllMet (h : GhostsInvisible db a) (hl : lockBalance db a = some db₁)
    (hfresh : ∀ pair side, a.orderId ∉ db.book pair side) : a.FetchesAllMet db := by
  unfold GhostsInvisible at h
  rw [matchOrderScript_sweepAll, matchOrderScript_eq] at h
  simp only [hl, Reply.ok.injEq] at h
  obtain ⟨⟨hrem,_,htrades⟩,hstore⟩ := h
  obtain ⟨hcancel,hfill,_⟩ := plan_meets a a.qtyI (a.restingOn db.sweepAll)
  intro r hr
  by_contra hid
  have hunvisited : ∀ v ∈ (a.planOn db).visits, v.id ≠ r.id := by
    intro v hv he
    exact hid (he ▸ (mem_resting.mp (plan_mem hv)).1)
  have hstops := not_stops_of_remainingI_eq hrem hr hid
  cases haction : a.stpAction r.hash with
  | none =>
    obtain ⟨q,hq⟩ := (hfill r).mpr ⟨hr,haction⟩
    have htrade : a.trade r.hash r.id q ∈ (a.planOn db.sweepAll).trades a := Plan.mem_trades.mpr ⟨r,q,hq,rfl⟩
    rw [htrades] at htrade
    obtain ⟨r',q',hv,he⟩ := Plan.mem_trades.mp htrade
    exact hunvisited _ hv (congrArg ScriptTrade.restingId he).symm
  | cancelMaker =>
    have hv : ⟨r,.cancel⟩ ∈ (a.planOn db.sweepAll).visits := (hcancel r).mpr ⟨hr,.inl haction⟩
    have hne : r.id ≠ a.orderId := fun he => hfresh a.pairId a.side.opposite (he ▸ mem_book_of_mem_restingOn hr.mem)
    have hhash : db.order r.id = some r.hash := by
      rw [← (mem_resting.mp hr.mem).2, sweepAll_order]
    have horder := congrFun (congrArg Valkey.order hstore) r.id
    have hgone : (a.settle db₁.sweepAll (a.planOn db.sweepAll)).order r.id = none :=
      settle_order_visited hv (fun _ => hne)
    rw [sweepAll_order, sweepAll_order, hgone, settle_order_unvisited hl hunvisited (fun _ => hne), hhash] at horder
    exact Option.some_ne_none _ horder.symm
  | cancelTaker => exact hstops (.inl haction)
  | cancelBoth => exact hstops (.inr haction)

end Invisible

lemma ghostsInvisible_of_lock_none {db : Valkey} {a : MatchArgs} (hl : lockBalance db a = none) : GhostsInvisible db a := by
  unfold GhostsInvisible
  rw [matchOrderScript_sweepAll, matchOrderScript_eq]
  simp only [hl, true_and]
  exact sweepAll_sweepAll db

/-- The sweep keeps every member that has a hash. A call is indifferent to it exactly when the balance is
too small for the lock, or when every order that the call comes to on the swept book is already among the
first fifty members of the unswept one. -/
theorem ghostsInvisible_iff {db : Valkey} {o : Order} (hfresh : ∀ pair side, o.id ∉ db.book pair side) (asset : String)
    (amount : ℤ) : ((∀ pair side id, id ∈ db.book pair side → db.order id ≠ none → id ∈ db.sweepAll.book pair side) ∧
        GhostsInvisible db (matchArgs o asset amount)) ↔
      lockBalance db (matchArgs o asset amount) = none ∨ (matchArgs o asset amount).FetchesAllMet db := by
  rw [and_iff_right fun pair side id => mem_sweepAll_book db]
  constructor
  · intro h
    cases hl : lockBalance db (matchArgs o asset amount) with
    | none => exact .inl rfl
    | some db₁ => exact .inr (h.fetchesAllMet hl hfresh)
  · rintro (hl | hall)
    · exact ghostsInvisible_of_lock_none hl
    · exact hall.ghostsInvisible hfresh

/-- An expired ask in front of a live one. -/
def oneGhost : Valkey :=
  placeResting (matchArgs (.gtcLimit 2 "alice" "BTC-USDT" .sell 100 1) "BTC" 0)
    (Valkey.empty.zadd "BTC-USDT" .sell 99 1) 1 .new

/-- One ghost hides nothing: the order trades with the ask behind it. -/
theorem one_ghost_invisible : (matchOrderScript oneGhost (matchArgs (.gtcLimit 9 "bob" "BTC-USDT" .buy 100 1) "" 0)).1 =
      .ok 0 .filled [⟨2,100,1,"bob","alice"⟩] ∧
    GhostsInvisible oneGhost (matchArgs (.gtcLimit 9 "bob" "BTC-USDT" .buy 100 1) "" 0) := by
  have hfresh : ∀ pair side, (9 : Uuid) ∉ oneGhost.book pair side := by
    intro pair side
    have hempty : (9 : Uuid) ∉ Valkey.empty.book pair side := SortedSet.not_mem_empty 9
    simp only [oneGhost, placeResting, Valkey.expire_book, Valkey.hset_book, Valkey.zadd_book]
    split_ifs <;> simp [hempty, matchArgs, Order.gtcLimit]
  refine ⟨by decide +kernel,((@ghostsInvisible_iff oneGhost (.gtcLimit 9 "bob" "BTC-USDT" .buy 100 1) hfresh "" 0).mpr (.inr ?_)).2⟩
  have hmet : ∀ r ∈ (matchArgs (.gtcLimit 9 "bob" "BTC-USDT" .buy 100 1) "" 0).restingOn oneGhost.sweepAll,
      r.id ∈ candidates oneGhost (matchArgs (.gtcLimit 9 "bob" "BTC-USDT" .buy 100 1) "" 0) := by decide +kernel
  exact fun r hr => hmet r hr.mem

/-- Fifty asks whose hour has passed, and one that came to rest afterwards. -/
def fiftyGhosts : Valkey :=
  (matchOrderScript ((smallAsks 50).db.pass restingTtl) (matchArgs (.gtcLimit 50 "alice" "BTC-USDT" .sell 100 1) "BTC" 0)).2

/-- The live ask behind fifty ghosts is not fetched: the order that would fill rests instead. -/
theorem fifty_ghosts_hide_the_ask : (∀ side, (1000 : Uuid) ∉ fiftyGhosts.book "BTC-USDT" side) ∧
    (matchOrderScript fiftyGhosts (matchArgs (.gtcLimit 1000 "bob" "BTC-USDT" .buy 100 1) "" 0)).1 = .ok 1 .new [] ∧
    (matchOrderScript fiftyGhosts.sweepAll (matchArgs (.gtcLimit 1000 "bob" "BTC-USDT" .buy 100 1) "" 0)).1 =
      .ok 0 .filled [⟨50,100,1,"bob","alice"⟩] ∧
    ¬ GhostsInvisible fiftyGhosts (matchArgs (.gtcLimit 1000 "bob" "BTC-USDT" .buy 100 1) "" 0) := by
  have hunswept : (matchOrderScript fiftyGhosts (matchArgs (.gtcLimit 1000 "bob" "BTC-USDT" .buy 100 1) "" 0)).1 =
      .ok 1 .new [] := by decide +kernel
  have hswept : (matchOrderScript fiftyGhosts.sweepAll (matchArgs (.gtcLimit 1000 "bob" "BTC-USDT" .buy 100 1) "" 0)).1 =
      .ok 0 .filled [⟨50,100,1,"bob","alice"⟩] := by decide +kernel
  refine ⟨?_,hunswept,hswept,fun h => ?_⟩
  · intro side
    cases side <;> decide +kernel
  · have hreply := h.1
    rw [hunswept, hswept] at hreply
    cases hreply

end MatchingEngine

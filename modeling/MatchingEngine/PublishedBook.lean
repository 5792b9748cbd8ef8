import MatchingEngine.Ghosts
import MatchingEngine.Failures

/-! The published order book. After an order the worker writes the snapshot of the book to
`cache:orderbook:{pair}`, unless the order neither traded nor rests. Self-trade prevention takes
makers off the book without a trade, and then the published book keeps showing them. -/
namespace MatchingEngine
open Library

/-- The bids and asks under `cache:orderbook:{pair}`. -/
abbrev OrderbookCache := String → Option (List (Decimal × Decimal) × List (Decimal × Decimal))

/-- The order book part of `update_cache_after_processing`. -/
def updateCacheAfterProcessing (db : Valkey) (cache : OrderbookCache) (order : Order) (trades : List Trade) : OrderbookCache :=
  let hadTrades := trades ≠ []
  let orderRested := order.status = .new ∨ order.status = .partiallyFilled
  if ¬ hadTrades ∧ ¬ orderRested then cache
  else Function.update cache order.pairId (some (db.orderbookSnapshotLua order.pairId 50))

/-- `process_order` with the cache that it refreshes at the end. -/
def Gateway.processOrderPublishing (persist : Postgres → Matched → Except String Postgres) (pairs : PairsCache) (s : System)
    (cache : OrderbookCache) (msg : QueuedOrderMsg) (d : Draws) : (Except String Order × System) × OrderbookCache :=
  match acceptOrder pairs msg d with
  | .error e => ((.error e,s),cache)
  | .ok order =>
    if order.tif = .fok then ((.ok { order with status := .cancelled },s),cache)
    else match lockParams order with
    | .error e => ((.error e,s),cache)
    | .ok (lockAsset,lockAmountScaled) =>
      match matchOrderScript s.db (matchArgs order lockAsset lockAmountScaled) with
      | (reply,db) =>
        match decodeReply order lockAsset reply with
        | .error e => ((.error ("Lua EVAL failed: " ++ e),{ s with db := db }),cache)
        | .ok r =>
          let matched := { order with remaining := r.remaining, status := r.status }
          let trades := buildTrades d.tradeId matched r.trades
          let m : Matched := ⟨matched,trades,r.trades⟩
          if isWarmup matched then
            ((.ok matched,{ s with db := db }),updateCacheAfterProcessing db cache matched trades)
          else match persist s.pg m with
          | .error e => ((.error ("DB persist failed: " ++ e),{ s with db := db }),cache)
          | .ok pg => ((.ok matched,⟨db,pg⟩),updateCacheAfterProcessing db cache matched trades)

/-- The cache aside, this is `process_order`. -/
theorem Gateway.processOrderPublishing_fst (persist : Postgres → Matched → Except String Postgres) (pairs : PairsCache)
    (s : System) (cache : OrderbookCache) (msg : QueuedOrderMsg) (d : Draws) :
    (processOrderPublishing persist pairs s cache msg d).1 = processOrderWith persist pairs s msg d := by
  unfold processOrderPublishing processOrderWith
  cases acceptOrder pairs msg d with
  | error e => rfl
  | ok order =>
    by_cases hf : order.tif = .fok
    · simp only [if_pos hf]
    simp only [if_neg hf]
    cases lockParams order with
    | error e => rfl
    | ok p =>
      obtain ⟨asset,amount⟩ := p
      dsimp only
      cases decodeReply order asset (matchOrderScript s.db (matchArgs order asset amount)).1 with
      | error e => rfl
      | ok r =>
        dsimp only
        split_ifs
        · rfl
        · cases persist s.pg ⟨{ order with remaining := r.remaining, status := r.status },
            buildTrades d.tradeId { order with remaining := r.remaining, status := r.status } r.trades,r.trades⟩ with
          | error e => rfl
          | ok pg => rfl

/-! ### Taking orders off the book -/

def Valkey.dropOrders (db : Valkey) (pair : String) (side : Side) (ids : List Uuid) : Valkey :=
  ids.foldl (fun db id => db.dropOrder pair side id) db

lemma dropOrders_order (db : Valkey) (pair : String) (side : Side) (ids : List Uuid) (x : Uuid) :
    (db.dropOrders pair side ids).order x = if x ∈ ids then none else db.order x := by
  induction ids generalizing db with
  | nil => rfl
  | cons id ids ih =>
    rw [Valkey.dropOrders, List.foldl_cons, ← Valkey.dropOrders, ih, Valkey.dropOrder_order]
    by_cases hx : x = id
    · simp [hx]
    · simp [hx]

lemma mem_entries_dropOrders {db : Valkey} {pair p : String} {side s : Side} {ids : List Uuid} {e : Entry ℤ Uuid} :
    e ∈ ((db.dropOrders pair side ids).book p s).entries ↔
      e ∈ (db.book p s).entries ∧ ¬ (p = pair ∧ s = side ∧ e.member ∈ ids) := by
  induction ids generalizing db with
  | nil => simp [Valkey.dropOrders]
  | cons id ids ih =>
    rw [Valkey.dropOrders, List.foldl_cons, ← Valkey.dropOrders, ih, Valkey.dropOrder_book]
    by_cases hk : p = pair ∧ s = side
    · rw [if_pos hk, SortedSet.mem_entries_remove, List.mem_cons]
      grind
    · rw [if_neg hk, List.mem_cons]
      grind

lemma applyVisits_of_cancel {a : MatchArgs} {vs : List Visit} (h : ∀ v ∈ vs, v.action = .cancel) (db : Valkey) :
    applyVisits a db vs = db.dropOrders a.pairId a.side.opposite (vs.map Visit.id) := by
  induction vs generalizing db with
  | nil => rfl
  | cons v vs ih =>
    obtain ⟨r,act⟩ := v
    obtain rfl : act = .cancel := h _ List.mem_cons_self
    rw [applyVisits_cons, applyVisit_cancel, ih (fun w hw => h w (List.mem_cons_of_mem _ hw))]
    rfl

lemma orderbookSnapshotLua_congr {db db' : Valkey} {pair : String} (hbook : db'.book pair = db.book pair)
    (horder : db'.order = db.order) (limit : ℕ) : db'.orderbookSnapshotLua pair limit = db.orderbookSnapshotLua pair limit := by
  unfold Valkey.orderbookSnapshotLua Valkey.orderbookSnapshotTexts Valkey.aggregateSide
  rw [hbook, horder]

lemma orderbookSnapshotLua_dropOrders_congr {db db' : Valkey} (hbook : db'.book = db.book) (horder : db'.order = db.order)
    {ids ids' : List Uuid} (h : ∀ id, id ∈ ids' ↔ id ∈ ids) (pair : String) (side : Side) (limit : ℕ) :
    (db'.dropOrders pair side ids').orderbookSnapshotLua pair limit =
      (db.dropOrders pair side ids).orderbookSnapshotLua pair limit := by
  apply orderbookSnapshotLua_congr
  · funext s
    apply SortedSet.ext_mem
    intro e
    rw [mem_entries_dropOrders, mem_entries_dropOrders, hbook, h]
  · funext x
    simp only [dropOrders_order, horder, h]

/-! ### Refreshed or not -/

/-- The order trades, or comes to rest. -/
def Order.Refreshes (o : Order) (db : Valkey) : Prop :=
  (∃ r, o.Meets db r ∧ o.stpAction r.hash = .none) ∨
    o.tif = .gtc ∧ 0 < o.qtyI ∧ ∀ r, o.Meets db r → o.stpAction r.hash = .cancelMaker

/-- A maker that self-trade prevention takes off the book. -/
def Order.TakesOff (o : Order) (db : Valkey) (r : Resting) : Prop :=
  o.Meets db r ∧ (o.stpAction r.hash = .cancelMaker ∨ o.stpAction r.hash = .cancelBoth)

/-- Without the makers taken off, the snapshot of the book is the same. -/
def Order.TakesOffUnseen (o : Order) (db : Valkey) : Prop :=
  ∀ ids : List Uuid, (∀ id, id ∈ ids ↔ ∃ r, r.id = id ∧ o.TakesOff db r) →
    (db.dropOrders o.pairId o.side.opposite ids).orderbookSnapshotLua o.pairId 50 = db.orderbookSnapshotLua o.pairId 50

section Refresh
variable {o : Order} {db : Valkey} (asset : String) (amount : ℤ)

lemma planOn_trades_eq_nil_iff : ((matchArgs o asset amount).planOn db).trades (matchArgs o asset amount) = [] ↔
    ¬ ∃ r, o.Meets db r ∧ o.stpAction r.hash = .none := by
  obtain ⟨_,hfill,_⟩ := planOn_meets o db asset amount
  rw [List.eq_nil_iff_forall_not_mem]
  constructor
  · rintro h ⟨r,hr⟩
    obtain ⟨q,hq⟩ := (hfill r).mpr hr
    exact h _ (Plan.mem_trades.mpr ⟨r,q,hq,rfl⟩)
  · intro h t ht
    obtain ⟨r,q,hv,_⟩ := Plan.mem_trades.mp ht
    exact h ⟨r,(hfill r).mp ⟨q,hv⟩⟩

lemma planOn_not_stopped_iff (hnone : ¬ ∃ r, o.Meets db r ∧ o.stpAction r.hash = .none) :
    ((matchArgs o asset amount).planOn db).stpCancelled = false ↔ ∀ r, o.Meets db r → o.stpAction r.hash = .cancelMaker := by
  obtain ⟨_,_,hstop⟩ := planOn_meets o db asset amount
  rw [← Bool.not_eq_true, hstop]
  constructor
  · intro hns r hr
    cases haction : o.stpAction r.hash with
    | none => exact absurd ⟨r,hr,haction⟩ hnone
    | cancelMaker => rfl
    | cancelTaker => exact absurd ⟨r,hr,.inl haction⟩ hns
    | cancelBoth => exact absurd ⟨r,hr,.inr haction⟩ hns
  · rintro hall ⟨r,hr,hs⟩
    rw [hall r hr] at hs
    rcases hs with hs | hs <;> cases hs

lemma planOn_remainingI_of_no_trades (hq : 0 ≤ o.qtyI) (hnone : ¬ ∃ r, o.Meets db r ∧ o.stpAction r.hash = .none)
    (hstp : ((matchArgs o asset amount).planOn db).stpCancelled = false) :
    ((matchArgs o asset amount).planOn db).remainingI = o.qtyI := by
  have hfilled : ((matchArgs o asset amount).planOn db).filledI = 0 :=
    plan_trades_eq_nil_iff.mp ((planOn_trades_eq_nil_iff asset amount).mpr hnone)
  have hacc : ((matchArgs o asset amount).planOn db).filledI + ((matchArgs o asset amount).planOn db).remainingI = o.qtyI :=
    (planOn_account_of_fills hq hstp).2
  omega

/-- An order without a trade is reported as resting when it was not stopped and is good till cancelled. -/
lemma planOn_status_of_no_trades (hq : 0 ≤ o.qtyI) (htif : o.tif ≠ .fok)
    (hnone : ¬ ∃ r, o.Meets db r ∧ o.stpAction r.hash = .none) :
    (((matchArgs o asset amount).planOn db).status (matchArgs o asset amount) = .new ∨
        ((matchArgs o asset amount).planOn db).status (matchArgs o asset amount) = .partiallyFilled) ↔
      o.tif = .gtc ∧ 0 < o.qtyI ∧ ∀ r, o.Meets db r → o.stpAction r.hash = .cancelMaker := by
  rw [← planOn_not_stopped_iff asset amount hnone]
  cases hstp : ((matchArgs o asset amount).planOn db).stpCancelled with
  | true =>
    rw [Plan.status_of_stopped hstp]
    exact iff_of_false (by simp) (fun h => Bool.noConfusion h.2.2)
  | false =>
    have hrem := planOn_remainingI_of_no_trades asset amount hq hnone hstp
    by_cases hpos : 0 < o.qtyI
    · have hnew : ¬ ((matchArgs o asset amount).planOn db).remainingI < (matchArgs o asset amount).qtyI :=
        not_lt.mpr hrem.ge
      rw [Plan.status_of_pos hstp (hrem ▸ hpos), if_neg hnew]
      change (if o.tif = .ioc then _ else _) = _ ∨ (if o.tif = .ioc then _ else _) = _ ↔ _
      cases htif' : o.tif with
      | gtc => simp [hpos]
      | ioc => simp
      | fok => exact absurd htif' htif
    · rw [Plan.status_of_le hstp (hrem.trans_le (not_lt.mp hpos))]
      simp [hpos]

lemma skips_iff_not_refreshes (hq : 0 ≤ o.qtyI) (htif : o.tif ≠ .fok) :
    (((matchArgs o asset amount).planOn db).trades (matchArgs o asset amount) = [] ∧
      ¬ (((matchArgs o asset amount).planOn db).status (matchArgs o asset amount) = .new ∨
        ((matchArgs o asset amount).planOn db).status (matchArgs o asset amount) = .partiallyFilled)) ↔ ¬ o.Refreshes db := by
  rw [planOn_trades_eq_nil_iff]
  exact (and_congr_right fun hnone => not_congr (planOn_status_of_no_trades asset amount hq htif hnone)).trans not_or.symm

/-- An order that does not refresh the cache leaves the book without the makers taken off. -/
lemma settle_snapshot_of_not_refreshes {db₁ : Valkey} (hl : lockBalance db (matchArgs o asset amount) = some db₁)
    (hq : 0 ≤ o.qtyI) (h : ¬ o.Refreshes db) : ∃ ids : List Uuid, (∀ id, id ∈ ids ↔ ∃ r, r.id = id ∧ o.TakesOff db r) ∧
      ((matchArgs o asset amount).settle db₁ ((matchArgs o asset amount).planOn db)).orderbookSnapshotLua o.pairId 50 =
        (db.dropOrders o.pairId o.side.opposite ids).orderbookSnapshotLua o.pairId 50 := by
  obtain ⟨hnone,hnotRests⟩ := not_or.mp h
  obtain ⟨hcancel,hfill,_⟩ := planOn_meets o db asset amount
  obtain ⟨horder,hbook,_⟩ := lockBalance_frame hl
  have hall : ∀ v ∈ ((matchArgs o asset amount).planOn db).visits, v.action = .cancel := by
    intro v hv
    obtain ⟨r,act⟩ := v
    cases act with
    | cancel => rfl
    | fill q => exact absurd ⟨r,(hfill r).mp ⟨q,hv⟩⟩ hnone
  have hrests : ¬ ((matchArgs o asset amount).planOn db).Rests (matchArgs o asset amount) := by
    rintro ⟨htif,hpos,_⟩
    have hstp : ((matchArgs o asset amount).planOn db).stpCancelled = false :=
      plan_not_stp (show 0 ≤ (matchArgs o asset amount).qtyI from hq) hpos
    rw [planOn_remainingI_of_no_trades asset amount hq hnone hstp] at hpos
    exact hnotRests ⟨htif,hpos,(planOn_not_stopped_iff asset amount hnone).mp hstp⟩
  refine ⟨((matchArgs o asset amount).planOn db).visits.map Visit.id,fun id => ?_,?_⟩
  · rw [List.mem_map]
    constructor
    · rintro ⟨⟨r,act⟩,hv,rfl⟩
      obtain rfl : act = .cancel := hall _ hv
      exact ⟨r,rfl,(hcancel r).mp hv⟩
    · rintro ⟨r,rfl,hr⟩
      exact ⟨⟨r,.cancel⟩,(hcancel r).mpr hr,rfl⟩
  · rw [settle_eq, if_neg hrests, applyVisits_of_cancel hall]
    exact (orderbookSnapshotLua_congr rfl rfl 50).trans
      (orderbookSnapshotLua_dropOrders_congr hbook horder (fun _ => Iff.rfl) _ _ 50)

end Refresh

/-! ### After the order -/

lemma updateCacheAfterProcessing_buildTrades (db : Valkey) (cache : OrderbookCache) (newV4 : ℕ → Uuid) (order : Order)
    (ts : List ScriptTrade) :
    updateCacheAfterProcessing db cache order (buildTrades newV4 order (ts.map ScriptTrade.toLuaTrade)) =
      if ts = [] ∧ ¬ (order.status = .new ∨ order.status = .partiallyFilled) then cache
      else Function.update cache order.pairId (some (db.orderbookSnapshotLua order.pairId 50)) := by
  simp only [updateCacheAfterProcessing, buildTrades, ne_eq, not_not, List.mapIdx_eq_nil_iff, List.map_eq_nil_iff]

/-- A request that succeeds has been through the script and, unless it neither traded nor rests, has published
the snapshot. -/
lemma processOrderPublishing_ok {persist : Postgres → Matched → Except String Postgres} {pairs : PairsCache} {s s' : System}
    {cache cache' : OrderbookCache} {msg : QueuedOrderMsg} {d : Draws} {o m : Order}
    (ha : Gateway.acceptOrder pairs msg d = .ok o) (htif : o.tif ≠ .fok)
    (h : Gateway.processOrderPublishing persist pairs s cache msg d = ((.ok m,s'),cache')) :
    ∃ asset amount db₁, lockBalance s.db (matchArgs o asset amount) = some db₁ ∧
      s'.db = (matchArgs o asset amount).settle db₁ ((matchArgs o asset amount).planOn s.db) ∧
      cache' = if ((matchArgs o asset amount).planOn s.db).trades (matchArgs o asset amount) = [] ∧
          ¬ (((matchArgs o asset amount).planOn s.db).status (matchArgs o asset amount) = .new ∨
            ((matchArgs o asset amount).planOn s.db).status (matchArgs o asset amount) = .partiallyFilled) then cache
        else Function.update cache o.pairId (some (s'.db.orderbookSnapshotLua o.pairId 50)) := by
  unfold Gateway.processOrderPublishing at h
  simp only [ha, if_neg htif] at h
  cases hp : lockParams o with
  | error e =>
    simp only [hp] at h
    cases h
  | ok p =>
    obtain ⟨asset,amount⟩ := p
    simp only [hp, matchOrderScript_eq] at h
    cases hl : lockBalance s.db (matchArgs o asset amount) with
    | none =>
      simp only [hl, decodeReply] at h
      cases h
    | some db₁ =>
      refine ⟨asset,amount,db₁,hl,?_⟩
      simp only [hl] at h
      cases hdecode : decodeReply o asset (.ok ((matchArgs o asset amount).planOn s.db).remainingI
          (((matchArgs o asset amount).planOn s.db).status (matchArgs o asset amount))
          (((matchArgs o asset amount).planOn s.db).trades (matchArgs o asset amount))) with
      | error e =>
        simp only [hdecode] at h
        cases h
      | ok r =>
        simp only [hdecode] at h
        obtain ⟨ts,hts,hr⟩ := exists_of_bind_ok hdecode
        obtain rfl := Except.ok.inj hr
        have hmap := mapM_decode (inRange_of_mapM hts)
        rw [hts] at hmap
        obtain rfl := Except.ok.inj hmap
        split_ifs at h
        · cases h
          exact ⟨rfl,updateCacheAfterProcessing_buildTrades _ _ _ _ _⟩
        · split at h
          · cases h
          · cases h
            exact ⟨rfl,updateCacheAfterProcessing_buildTrades _ _ _ _ _⟩

/-- An order that succeeds leaves the published book equal to the snapshot exactly when it trades or comes to
rest, or when the makers that self-trade prevention took off do not show in the snapshot. -/
theorem published_book_follows_iff {persist : Postgres → Matched → Except String Postgres} {pairs : PairsCache}
    {s s' : System} {cache cache' : OrderbookCache} {msg : QueuedOrderMsg} {d : Draws} {o m : Order}
    (ha : Gateway.acceptOrder pairs msg d = .ok o) (htif : o.tif ≠ .fok)
    (hcache : cache o.pairId = some (s.db.orderbookSnapshotLua o.pairId 50))
    (h : Gateway.processOrderPublishing persist pairs s cache msg d = ((.ok m,s'),cache')) :
    cache' o.pairId = some (s'.db.orderbookSnapshotLua o.pairId 50) ↔ o.Refreshes s.db ∨ o.TakesOffUnseen s.db := by
  have hq : 0 ≤ o.qtyI := decimalToI64_nonneg (checkOrder_quantity_pos (acceptOrder_ok ha).1).le
  obtain ⟨asset,amount,db₁,hl,hdb,hupdate⟩ := processOrderPublishing_ok ha htif h
  by_cases hrefresh : o.Refreshes s.db
  · refine iff_of_true ?_ (.inl hrefresh)
    rw [hupdate, if_neg (fun hskip => (skips_iff_not_refreshes asset amount hq htif).mp hskip hrefresh), Function.update_self]
  · obtain ⟨ids,hids,hsnapshot⟩ := settle_snapshot_of_not_refreshes asset amount hl hq hrefresh
    rw [← hdb] at hsnapshot
    have hkept : cache' = cache := by
      rw [hupdate, if_pos ((skips_iff_not_refreshes asset amount hq htif).mpr hrefresh)]
    rw [hkept, hcache, Option.some_inj, or_iff_right hrefresh, hsnapshot]
    constructor
    · intro he ids' hids'
      have hsame : ∀ id, id ∈ ids' ↔ id ∈ ids := fun id => (hids' id).trans (hids id).symm
      rw [he]
      exact orderbookSnapshotLua_dropOrders_congr rfl rfl hsame _ _ 50
    · intro hunseen
      exact (hunseen ids hids).symm

def aliceOffers : (Except String Order × System) × OrderbookCache :=
  Gateway.processOrderPublishing Postgres.persistOrder btcUsdt (Session.funded (10 ^ 12)).sys (fun _ => some ([],[]))
    (limitMsg 1 "alice" .sell 100 1) ⟨0,fun _ => 10,0⟩

def aliceBuysBack : (Except String Order × System) × OrderbookCache :=
  Gateway.processOrderPublishing Postgres.persistOrder btcUsdt aliceOffers.1.2 aliceOffers.2
    { limitMsg 2 "alice" .buy 100 1 with stpMode := some "CancelBoth" } ⟨0,fun _ => 20,0⟩

/-- The offer rests and is published. -/
theorem resting_offer_published : aliceOffers.2 "BTC-USDT" = some ([],[(100,1)]) ∧
    aliceOffers.2 "BTC-USDT" = some (aliceOffers.1.2.db.orderbookSnapshotLua "BTC-USDT" 50) := by
  refine ⟨by decide +kernel,?_⟩
  have hcache : (fun _ => some ([],[]) : OrderbookCache) "BTC-USDT" =
      some ((Session.funded (10 ^ 12)).sys.db.orderbookSnapshotLua "BTC-USDT" 50) := by decide +kernel
  have hok : aliceOffers.1.1.toOption.isSome := by decide +kernel
  have haccepted : (Gateway.acceptOrder btcUsdt (limitMsg 1 "alice" .sell 100 1) ⟨0,fun _ => 10,0⟩).toOption.isSome := by
    decide +kernel
  have horder : ∀ o ∈ (Gateway.acceptOrder btcUsdt (limitMsg 1 "alice" .sell 100 1) ⟨0,fun _ => 10,0⟩).toOption,
      o.pairId = "BTC-USDT" ∧ o.tif = .gtc ∧ 0 < o.qtyI ∧
        (matchArgs o "" 0).restingOn (Session.funded (10 ^ 12)).sys.db = [] := by decide +kernel
  cases ha : Gateway.acceptOrder btcUsdt (limitMsg 1 "alice" .sell 100 1) ⟨0,fun _ => 10,0⟩ with
  | error e =>
    rw [ha] at haccepted
    cases haccepted
  | ok o =>
    obtain ⟨hpair,htif,hq,hnobody⟩ := horder o (by rw [ha]; rfl)
    cases hm : aliceOffers.1.1 with
    | error e =>
      rw [hm] at hok
      cases hok
    | ok m =>
      have hrefreshes : o.Refreshes (Session.funded (10 ^ 12)).sys.db := by
        refine .inr ⟨htif,hq,fun r hr => ?_⟩
        have hmem := hr.mem
        rw [hnobody] at hmem
        cases hmem
      rw [← hpair] at hcache ⊢
      exact (published_book_follows_iff ha (by rw [htif]; decide) hcache (Prod.ext (Prod.ext hm rfl) rfl)).mpr (.inl hrefreshes)

/-- Both orders are gone from the book, but the offer is still published. -/
theorem cancelled_maker_stays_published : aliceOffers.2 "BTC-USDT" = some (aliceOffers.1.2.db.orderbookSnapshotLua "BTC-USDT" 50) ∧
    aliceBuysBack.1.1.toOption.map (fun m => (m.tif,m.status)) = some (.gtc,.cancelled) ∧
    aliceBuysBack.1.2.db.orderbookSnapshotLua "BTC-USDT" 50 = ([],[]) ∧
    aliceBuysBack.2 "BTC-USDT" = some ([],[(100,1)]) ∧
    aliceBuysBack.2 "BTC-USDT" ≠ some (aliceBuysBack.1.2.db.orderbookSnapshotLua "BTC-USDT" 50) :=
  ⟨by decide +kernel,by decide +kernel,by decide +kernel,by decide +kernel,by decide +kernel⟩

end MatchingEngine

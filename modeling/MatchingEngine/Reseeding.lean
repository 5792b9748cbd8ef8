import MatchingEngine.BatchBalances
import MatchingEngine.Cache
import MatchingEngine.CancelledMakers
import MatchingEngine.Conservation
import MatchingEngine.PositivePrices
import MatchingEngine.TimedRequests

/-! Seeding the caches from the database. `init_balances_from_pg` and `seed_orderbook_from_pg`
overwrite what the tables know and leave everything else, so that seeding again is harmless
exactly as long as the tables follow the caches. Locks are never written to the table, makers removed
by self-trade prevention keep their rows, and the rows of resting orders outlive the hour of their
hashes. -/
namespace MatchingEngine
open Library

/-- The order that `seed_orderbook_from_pg` builds from a row. -/
def Order.seeded (row : Order) (id : Uuid) : Order := { row with id := id, clientOrderId := none }

/-- The rows of `seed_orderbook_from_pg`: open good-til-cancelled orders by age. -/
def Postgres.restingOrders (pg : Postgres) : List Order :=
  ((pg.orders.rows.filter (fun r => r.2.status.IsOpen ∧ r.2.tif = .gtc)).insertionSort
    (fun a b => a.2.createdAt ≤ b.2.createdAt)).map (fun r => r.2.seeded r.1)

def seedOrderbookFromPg (db : Valkey) (pg : Postgres) : Valkey := pg.restingOrders.foldl Valkey.saveOrderToBook db

/-- A cold start: balances first, then the book. -/
def coldStart (db : Valkey) (pg : Postgres) : Valkey := seedOrderbookFromPg (initBalancesFromPg db pg) pg

/-- The hash fields the script reads. -/
def OrderHash.matcherFields (h : OrderHash) : ℤ × ℤ × String × SelfTradePreventionMode × OrderStatus × OrderType :=
  (h.priceI,h.remainingI,h.userId,h.stp,h.status,h.orderType)

/-- Two stores between which the matcher and the balance checks cannot tell. -/
structure Valkey.SameToMatcher (db db' : Valkey) : Prop where
  balance : db'.balance = db.balance
  book : db'.book = db.book
  order : ∀ id, (db'.order id).map OrderHash.matcherFields = (db.order id).map OrderHash.matcherFields

lemma mem_restingOrders {pg : Postgres} {o : Order} : o ∈ pg.restingOrders ↔
    ∃ id r, pg.orders.get id = some r ∧ r.status.IsOpen ∧ r.tif = .gtc ∧ o = r.seeded id := by
  simp only [Postgres.restingOrders, List.mem_map, List.mem_insertionSort, List.mem_filter, decide_eq_true_eq]
  constructor
  · rintro ⟨⟨id,r⟩,⟨hmem,hopen,htif⟩,rfl⟩
    exact ⟨id,r,Table.get_of_mem hmem,hopen,htif,rfl⟩
  · rintro ⟨id,r,hget,hopen,htif,rfl⟩
    exact ⟨(id,r),⟨Table.mem_of_get hget,hopen,htif⟩,rfl⟩

lemma restingOrders_ids_nodup (pg : Postgres) : (pg.restingOrders.map Order.id).Nodup := by
  have hids : pg.restingOrders.map Order.id = (((pg.orders.rows.filter (fun r => r.2.status.IsOpen ∧ r.2.tif = .gtc)).insertionSort
      (fun a b => a.2.createdAt ≤ b.2.createdAt)).map Prod.fst) := by
    rw [Postgres.restingOrders, List.map_map]
    rfl
  rw [hids, ((List.perm_insertionSort _ _).map _).nodup_iff]
  exact pg.orders.nodup.sublist (List.filter_sublist.map _)

/-- The book holds what saving an order would write. -/
structure Valkey.Mirrors (db : Valkey) (o : Order) : Prop where
  hash : ∃ w, db.order o.id = some w ∧ w.matcherFields = o.toHash.matcherFields
  entry : ⟨signedPrice o.side o.priceI,o.id⟩ ∈ (db.book o.pairId o.side).entries

/-! ### Seeding -/

lemma saveOrderToBook_mirrors (db : Valkey) (o : Order) : (db.saveOrderToBook o).Mirrors o := by
  refine ⟨⟨o.toHash,by simp [Valkey.saveOrderToBook],rfl⟩,?_⟩
  simp only [Valkey.saveOrderToBook, Valkey.hset_book, Valkey.zadd_book, and_self, if_true]
  exact SortedSet.mem_entries_add.mpr (.inl rfl)

lemma Valkey.Mirrors.saveOrderToBook {db : Valkey} {o p : Order} (h : db.Mirrors o) (hne : o.id ≠ p.id) :
    (db.saveOrderToBook p).Mirrors o := by
  obtain ⟨⟨w,hw,hf⟩,he⟩ := h
  refine ⟨⟨w,by simp [Valkey.saveOrderToBook, hne, hw],hf⟩,?_⟩
  simp only [Valkey.saveOrderToBook, Valkey.hset_book, Valkey.zadd_book]
  split_ifs
  · exact SortedSet.mem_entries_add.mpr (.inr ⟨he,hne⟩)
  · exact he

lemma foldl_saveOrderToBook_mirrors {os : List Order} (hn : (os.map Order.id).Nodup) (db : Valkey) {o : Order}
    (ho : o ∈ os) : (os.foldl Valkey.saveOrderToBook db).Mirrors o := by
  have hkeep : ∀ (ps : List Order) (db : Valkey), (∀ p ∈ ps, o.id ≠ p.id) → db.Mirrors o →
      (ps.foldl Valkey.saveOrderToBook db).Mirrors o := by
    intro ps
    induction ps with
    | nil => exact fun db _ h => h
    | cons p ps ih =>
      intro db hne h
      exact ih _ (fun x hx => hne x (by simp [hx])) (h.saveOrderToBook (hne p (by simp)))
  induction os generalizing db with
  | nil => cases ho
  | cons p ps ih =>
    rw [List.map_cons, List.nodup_cons] at hn
    rcases List.mem_cons.mp ho with rfl | ho
    · refine hkeep ps _ (fun x hx he => ?_) (saveOrderToBook_mirrors db o)
      exact hn.1 (he ▸ List.mem_map_of_mem hx)
    · exact ih hn.2 _ ho

lemma Valkey.SameToMatcher.trans {a b c : Valkey} (h : a.SameToMatcher b) (h' : b.SameToMatcher c) : a.SameToMatcher c :=
  ⟨h'.balance.trans h.balance,h'.book.trans h.book,fun id => (h'.order id).trans (h.order id)⟩

lemma Valkey.Mirrors.save_same {db : Valkey} {o : Order} (h : db.Mirrors o) : db.SameToMatcher (db.saveOrderToBook o) := by
  obtain ⟨⟨w,hw,hf⟩,he⟩ := h
  rw [Valkey.saveOrderToBook, Valkey.zadd_of_mem he]
  refine ⟨rfl,rfl,fun id => ?_⟩
  rw [Valkey.hset_order]
  split_ifs with hid
  · rw [hid, hw, Option.map_some, Option.map_some, hf]
  · rfl

lemma foldl_save_same {os : List Order} {db : Valkey} (h : ∀ o ∈ os, db.Mirrors o) (hn : (os.map Order.id).Nodup) :
    db.SameToMatcher (os.foldl Valkey.saveOrderToBook db) := by
  induction os generalizing db with
  | nil => exact ⟨rfl,rfl,fun _ => rfl⟩
  | cons o os ih =>
    rw [List.map_cons, List.nodup_cons] at hn
    refine (h o (by simp)).save_same.trans (ih (fun p hp => ?_) hn.2)
    refine (h p (by simp [hp])).saveOrderToBook (fun he => hn.1 ?_)
    exact he ▸ List.mem_map_of_mem hp

/-- The tables say what the caches hold. -/
structure System.Mirrored (s : System) : Prop where
  orders : ∀ o ∈ s.pg.restingOrders, s.db.Mirrors o
  balances : ∀ user asset, ∀ b ∈ s.pg.balances.get (user,asset),
    s.db.balance user asset = ⟨decimalToI64 b.available,decimalToI64 b.locked⟩

lemma System.Mirrored.coldStart_same {s : System} (h : s.Mirrored) : s.db.SameToMatcher (coldStart s.db s.pg) := by
  have hinit : initBalancesFromPg s.db s.pg = s.db := by
    apply Valkey.ext
    case balance =>
      funext user asset
      simp only [initBalancesFromPg]
      cases hb : s.pg.balances.get (user,asset) with
      | none => rfl
      | some b => exact (h.balances user asset b hb).symm
    all_goals rfl
  rw [coldStart, hinit]
  exact foldl_save_same h.orders (restingOrders_ids_nodup s.pg)

lemma foldl_save_balance (os : List Order) (db : Valkey) : (os.foldl Valkey.saveOrderToBook db).balance = db.balance := by
  induction os generalizing db with
  | nil => rfl
  | cons o os ih => rw [List.foldl_cons, ih]; rfl

lemma coldStart_mirrored (db : Valkey) (pg : Postgres) : System.Mirrored ⟨coldStart db pg,pg⟩ := by
  refine ⟨fun o ho => foldl_saveOrderToBook_mirrors (restingOrders_ids_nodup pg) _ ho,fun user asset b hb => ?_⟩
  simp only [coldStart, seedOrderbookFromPg, foldl_save_balance]
  simp only [initBalancesFromPg, Option.mem_def.mp hb]

/-! ### One request -/

/-- A trade that reaches no balance row: the buyer has none for the base, the seller none for
the quote, and what their other rows have locked is nothing, so that the debits stop at zero. -/
structure Postgres.IgnoresTrade (pg : Postgres) (buyer seller base quote : String) : Prop where
  bought : pg.balances.get (buyer,base) = none
  earned : pg.balances.get (seller,quote) = none
  paid : ∀ b ∈ pg.balances.get (buyer,quote), b.locked = 0
  given : ∀ b ∈ pg.balances.get (seller,base), b.locked = 0

/-- The order locks nothing that has a row, trades without reaching a row, gives nothing back
to a row, and removes no maker that has an open row. -/
structure Order.SparesRows (o : Order) (s : System) : Prop where
  locks : ∀ asset amount, lockParams o = .ok (asset,amount) → (matchArgs o asset amount).Locks →
    s.pg.balances.get (o.userId,asset) = none
  trades : ∀ r, o.Meets s.db r → o.stpAction r.hash = .none → 0 ≤ ((matchArgs o "" 0).trade r.hash r.id 0).priceI ∧
    ∀ base quote, parsePairId o.pairId = .ok (base,quote) → s.pg.IgnoresTrade
      ((matchArgs o "" 0).trade r.hash r.id 0).buyerId ((matchArgs o "" 0).trade r.hash r.id 0).sellerId base quote
  releases : o.tif = .ioc → ∀ asset amount, lockParams o = .ok (asset,amount) →
    ∀ b ∈ s.pg.balances.get (o.userId,asset), o.side = .buy ∧ o.price.getD 0 = 0 ∧ 0 ≤ b.locked
  makers : ∀ r, o.Meets s.db r → (o.stpAction r.hash = .cancelMaker ∨ o.stpAction r.hash = .cancelBoth) →
    ∀ row ∈ s.pg.orders.get r.id, ¬ (row.status.IsOpen ∧ row.tif = .gtc)

/-- Settled amounts that no row can see. -/
def Deltas.Unseen (pg : Postgres) (d : Deltas) : Prop :=
  ∀ k, ∀ b ∈ pg.balances.get k, ∀ x ∈ d.get k, x.2 = 0 ∧ 0 ≤ x.1 ∧ b.locked = 0

lemma Deltas.Unseen.add {pg : Postgres} {d : Deltas} (h : d.Unseen pg) {k : String × String} {x : Decimal × Decimal}
    (hx : ∀ b ∈ pg.balances.get k, x.2 = 0 ∧ 0 ≤ x.1 ∧ b.locked = 0) : (d.add k x).Unseen pg := by
  intro k' b hb y hy
  rw [Deltas.get_add] at hy
  split_ifs at hy with hk
  · subst hk
    obtain ⟨hx₂,hx₁,hl⟩ := hx b hb
    cases hd : d.get k' with
    | none =>
      rw [hd] at hy
      cases hy
      exact ⟨hx₂,hx₁,hl⟩
    | some z =>
      rw [hd] at hy
      cases hy
      obtain ⟨hz₂,hz₁,_⟩ := h k' b hb z hd
      exact ⟨by simp [hz₂, hx₂],add_nonneg hz₁ hx₁,hl⟩
  · exact h k' b hb y hy

lemma balanceDeltas_unseen {pg : Postgres} {ts : List Trade} {d : Deltas} (h : balanceDeltas ts = .ok d)
    (hts : ∀ t ∈ ts, 0 ≤ t.price * t.quantity ∧ 0 ≤ t.quantity ∧
      ∀ base quote, parsePairId t.pairId = .ok (base,quote) → pg.IgnoresTrade t.buyerId t.sellerId base quote) :
    d.Unseen pg := by
  refine foldlM_invariant (P := fun d => Deltas.Unseen pg d) (fun t ht d d' hd hu => ?_) h (fun k b _ x hx => by simp at hx)
  obtain ⟨base,quote,hp,rfl⟩ := addTradeDeltas_ok hd
  obtain ⟨hcost,hqty,hrows⟩ := hts t ht
  obtain ⟨hbought,hearned,hpaid,hgiven⟩ := hrows base quote hp
  refine (((hu.add (fun b hb => ⟨rfl,hcost,hpaid b hb⟩)).add (fun b hb => ?_)).add
    (fun b hb => ⟨rfl,hqty,hgiven b hb⟩)).add (fun b hb => ?_)
  · rw [hbought] at hb
    cases hb
  · rw [hearned] at hb
    cases hb

lemma settleRow_of_unseen {x : Decimal × Decimal} {b : Balance} (h : x.2 = 0 ∧ 0 ≤ x.1 ∧ b.locked = 0) :
    settleRow x b = b := by
  obtain ⟨h₂,h₁,hl⟩ := h
  ext
  · simp [settleRow, h₂]
  · simp [settleRow, hl, h₁]

section Request
variable {pairs : PairsCache} {s : System} {o : Order} {asset : String} {amount : ℤ} {db₁ : Valkey}

lemma ioc_of_needsRelease {newV4 : ℕ → Uuid} (hq : 0 ≤ o.qtyI) (hf : o.tif ≠ .fok)
    (h : (o.readOn s.db newV4 asset amount).order.NeedsRelease) : o.tif = .ioc := by
  obtain ⟨hst,hrem⟩ := h
  cases ht : o.tif with
  | ioc => rfl
  | fok => exact absurd ht hf
  | gtc =>
    exfalso
    set a := matchArgs o asset amount
    have hrem' : (a.planOn s.db).remainingI ≠ 0 := fun h0 => hrem (by
      change i64ToDecimal ((luaToI64 (a.planOn s.db).remainingI).getD 0) = 0
      rw [h0]
      exact i64ToDecimal_eq_zero.mpr rfl)
    have hnonneg : 0 ≤ (a.planOn s.db).remainingI := (plan_account a _ hq).1
    have hpos : 0 < (a.planOn s.db).remainingI := lt_of_le_of_ne hnonneg (Ne.symm hrem')
    have hstp := (planOn_account hq hpos).1
    have htif : a.tif = .gtc := ht
    change ((a.planOn s.db).status a = .cancelled ∨ (a.planOn s.db).status a = .filled) at hst
    rw [Plan.status_of_pos hstp hpos, if_neg (by simp [htif])] at hst
    split_ifs at hst <;> simp at hst

lemma matchedOn_trade {newV4 : ℕ → Uuid} {t : Trade} (ht : t ∈ (o.matchedOn s.db newV4 asset amount).trades) :
    ∃ r q, o.Meets s.db r ∧ o.stpAction r.hash = .none ∧ 0 < q ∧ t.pairId = o.pairId ∧ t.quantity = i64ToDecimal q ∧
      t.price = i64ToDecimal ((matchArgs o "" 0).trade r.hash r.id 0).priceI ∧
      t.buyerId = ((matchArgs o "" 0).trade r.hash r.id 0).buyerId ∧
      t.sellerId = ((matchArgs o "" 0).trade r.hash r.id 0).sellerId := by
  simp only [Order.matchedOn, buildTrades, List.mem_mapIdx] at ht
  obtain ⟨i,hi,rfl⟩ := ht
  obtain ⟨st,hst,hlt⟩ := List.mem_map.mp (List.getElem_mem hi)
  obtain ⟨r,q,hv,rfl⟩ := Plan.mem_trades.mp hst
  obtain ⟨hmeets,hnone⟩ := ((planOn_meets o s.db asset amount).2.1 r).mp ⟨q,hv⟩
  refine ⟨r,q,hmeets,hnone,((plan_valid hv).fill q rfl).1,rfl,?_⟩
  simp only [buildTrade, ← hlt]
  exact ⟨rfl,rfl,rfl,rfl⟩

/-- What is released goes to the asset of the lock; an order bought for nothing releases nothing. -/
lemma releaseParams_of_lockParams {o r : Order} {asset asset' : String} {amount : ℤ} {amount' : Decimal}
    (hpair : r.pairId = o.pairId) (hside : r.side = o.side) (hprice : r.price = o.price)
    (hlock : lockParams o = .ok (asset,amount)) (hrel : releaseParams r = .ok (asset',amount')) :
    asset' = asset ∧ (o.side = .buy → o.price.getD 0 = 0 → amount' = 0) := by
  obtain ⟨base,quote,hpair₁,hasset,_⟩ := lockParams_ok hlock
  obtain ⟨base',quote',hpair₂,hrelease⟩ := releaseParams_ok hrel
  rw [hpair, hpair₁] at hpair₂
  cases hpair₂
  rw [hside, hprice] at hrelease
  cases hs : o.side with
  | buy =>
    simp only [hs, Prod.mk.injEq] at hasset hrelease
    exact ⟨hrelease.1.trans hasset.symm,fun _ h0 => by rw [hrelease.2, h0, zero_mul]⟩
  | sell =>
    simp only [hs, Prod.mk.injEq] at hasset hrelease
    exact ⟨hrelease.1.trans hasset.symm,fun h0 => by cases h0⟩

lemma balances_of_spared {newV4 : ℕ → Uuid} (hs : o.SparesRows s) (hq : 0 ≤ o.qtyI) (hf : o.tif ≠ .fok)
    (hlock : lockParams o = .ok (asset,amount)) {pg' : Postgres}
    (h : s.pg.persistOrder (o.readOn s.db newV4 asset amount) = .ok pg') (k : String × String) :
    pg'.balances.get k = s.pg.balances.get k := by
  obtain ⟨deltas,hd,_,_,hbal⟩ := Postgres.persistOrder_ok h
  have hunseen : deltas.Unseen s.pg := by
    refine balanceDeltas_unseen hd (fun t ht => ?_)
    obtain ⟨r,q,hmeets,hnone,hpos,hpair,hqty,hprice,hbuyer,hseller⟩ := matchedOn_trade ht
    obtain ⟨hp,hrows⟩ := hs.trades r hmeets hnone
    have hq0 : 0 ≤ i64ToDecimal q := (i64ToDecimal_pos.mpr hpos).le
    have hp0 : 0 ≤ i64ToDecimal ((matchArgs o "" 0).trade r.hash r.id 0).priceI := by
      rw [← i64ToDecimal_eq_zero.mpr rfl]
      exact i64ToDecimal_le_iff.mpr hp
    rw [hpair, hqty, hprice, hbuyer, hseller]
    exact ⟨mul_nonneg hp0 hq0,hq0,hrows⟩
  have hsettled : ∀ k, (s.pg.balances.updateFrom deltas.rows settleRow).get k = s.pg.balances.get k := by
    intro k
    have hget : (s.pg.balances.updateFrom deltas.rows settleRow).get k =
        (s.pg.balances.get k).map (fun b => (deltas.get k).elim b (fun x => settleRow x b)) := Table.get_updateFrom _ _ _ _
    rw [hget]
    cases hb : s.pg.balances.get k with
    | none => rfl
    | some b =>
      cases hx : deltas.get k with
      | none => rfl
      | some x => exact congrArg some (settleRow_of_unseen (hunseen k b hb x hx))
  rcases hbal with ⟨_,hbal⟩ | ⟨hneeds,asset',amount',hrel,hbal⟩
  · rw [hbal, hsettled]
  · rw [hbal, Table.get_modify, hsettled]
    split_ifs with hk
    · have hioc := ioc_of_needsRelease hq hf hneeds
      have hk : k = (o.userId,asset') := hk
      subst hk
      cases hb : s.pg.balances.get (o.userId,asset') with
      | none => rfl
      | some b =>
        -- the release goes to the row the lock was taken from
        have hasset : asset' = asset ∧ (o.side = .buy → o.price.getD 0 = 0 → amount' = 0) :=
          releaseParams_of_lockParams (r := (o.readOn s.db newV4 asset amount).order) rfl rfl rfl hlock hrel
        obtain ⟨rfl,hzero⟩ := hasset
        obtain ⟨hside,hprice,hnonneg⟩ := hs.releases hioc asset' amount hlock b hb
        refine congrArg some ?_
        rw [hzero hside hprice]
        ext
        · simp [releaseRow]
        · simp [releaseRow, hnonneg]
    · rfl

lemma System.Mirrored.balances_request (h : s.Mirrored) {newV4 : ℕ → Uuid} (hs : o.SparesRows s) (hq : 0 ≤ o.qtyI)
    (hf : o.tif ≠ .fok) (hlock : lockParams o = .ok (asset,amount))
    (hfunded : lockBalance s.db (matchArgs o asset amount) = some db₁) {pg' : Postgres}
    (hpg : s.pg.persistOrder (o.readOn s.db newV4 asset amount) = .ok pg') (user a : String) :
    ∀ b ∈ pg'.balances.get (user,a), (Gateway.scriptDb s o asset amount db₁).balance user a =
      ⟨decimalToI64 b.available,decimalToI64 b.locked⟩ := by
  intro b hb
  rw [balances_of_spared hs hq hf hlock hpg] at hb
  rw [Gateway.scriptDb, settle_balance, lockBalance_balance hfunded, ← h.balances user a b hb]
  split_ifs with hk
  · have hno : ¬ (matchArgs o asset amount).Locks := by
      intro hl
      have hkey : (user,a) = (o.userId,asset) := Prod.ext hk.1 hk.2
      rw [hkey, hs.locks asset amount hlock hl] at hb
      cases hb
    simp [MatchArgs.lockedI, hno]
  · simp

/-- An open row after a commit is the order's own, or a row that was open before, filled by the
job's trade with it if there is one. -/
lemma open_row_of_persist {pg pg' : Postgres} {m : Matched} (h : pg.persistOrder m = .ok pg')
    (hfresh : pg.orders.get m.order.id = none) (hself : ∀ lt ∈ m.luaTrades, lt.restingOrderId ≠ m.order.id) {id : Uuid}
    {r : Order} (hr : pg'.orders.get id = some r) (hopen : r.status.IsOpen) :
    (id = m.order.id ∧ r = m.order) ∨ (id ≠ m.order.id ∧ ∃ r₀, pg.orders.get id = some r₀ ∧
      r = ((m.luaTrades.map (fun lt => (lt.restingOrderId,lt.quantity))).lookup id).elim r₀ (fun q => fillRow q r₀)) := by
  obtain ⟨_,_,horders,_⟩ := Postgres.persistOrder_ok h
  rw [horders] at hr
  by_cases hid : id = m.order.id
  · subst hid
    obtain rfl := Postgres.ordersAfterPersist_self hfresh hself hr
    refine .inl ⟨rfl,if_pos ?_⟩
    by_contra hst
    rw [if_neg hst] at hopen
    exact hst hopen
  · rw [Postgres.ordersAfterPersist_get_of_ne pg hid, Option.map_eq_some_iff] at hr
    obtain ⟨r₀,hr₀,he⟩ := hr
    exact .inr ⟨hid,r₀,hr₀,he.symm⟩

lemma rests_of_isOpen {a : MatchArgs} {p : Plan} (h : (p.status a).IsOpen) (ht : a.tif = .gtc) : p.Rests a := by
  refine ⟨ht,?_,?_⟩
  · by_contra hle
    cases hs : p.stpCancelled with
    | true =>
      rw [Plan.status_of_stopped hs] at h
      simp [OrderStatus.IsOpen] at h
    | false =>
      rw [Plan.status_of_le hs (not_lt.mp hle)] at h
      simp [OrderStatus.IsOpen] at h
  · rcases h with h | h <;> rw [h] <;> decide

lemma matchedOn_luaTrade {newV4 : ℕ → Uuid} {lt : LuaTrade} (hlt : lt ∈ (o.matchedOn s.db newV4 asset amount).luaTrades) :
    ∃ w q, ⟨⟨lt.restingOrderId,w⟩,.fill q⟩ ∈ ((matchArgs o asset amount).planOn s.db).visits ∧ lt.quantity = i64ToDecimal q := by
  obtain ⟨st,hst,rfl⟩ := List.mem_map.mp hlt
  obtain ⟨r,q,hv,rfl⟩ := Plan.mem_trades.mp hst
  exact ⟨r.hash,q,hv,rfl⟩

lemma luaTrades_ne_self {newV4 : ℕ → Uuid} (hfresh : s.Fresh o.id) :
    ∀ lt ∈ (o.readOn s.db newV4 asset amount).luaTrades, lt.restingOrderId ≠ o.id := by
  intro lt hlt he
  rw [Order.readOn_luaTrades] at hlt
  obtain ⟨w,q,hv,_⟩ := matchedOn_luaTrade hlt
  exact planOn_visit_ne hfresh.order _ hv he

/-- Open rows have remainders on the fixed-point grid. -/
def Postgres.OnGrid (pg : Postgres) : Prop :=
  ∀ o ∈ pg.restingOrders, o.remaining = i64ToDecimal (decimalToI64 o.remaining)

instance (pg : Postgres) : Decidable pg.OnGrid := inferInstanceAs (Decidable (∀ o ∈ pg.restingOrders, _))

lemma own_row_mirrored {newV4 : ℕ → Uuid} (hq : 0 ≤ o.qtyI) (hread : ¬ o.RestsUnread s.db asset amount)
    (hopen : (o.readOn s.db newV4 asset amount).order.status.IsOpen) (htif : o.tif = .gtc) :
    (Gateway.scriptDb s o asset amount db₁).Mirrors (o.readOn s.db newV4 asset amount).order ∧
    (o.readOn s.db newV4 asset amount).order.remaining =
      i64ToDecimal (decimalToI64 (o.readOn s.db newV4 asset amount).order.remaining) := by
  set a := matchArgs o asset amount with ha
  have hrests : (a.planOn s.db).Rests a := rests_of_isOpen hopen htif
  rw [Order.readOn_of_rests hrests hread]
  have hle : (a.planOn s.db).remainingI ≤ a.qtyI := planOn_remainingI_le s.db hq
  have hbound := (decimalToI64_bounds o.quantity).2
  have hpos := hrests.2.1
  have hrem : decimalToI64 (i64ToDecimal (a.planOn s.db).remainingI) = (a.planOn s.db).remainingI :=
    decimalToI64_i64ToDecimal (by omega) (lt_of_le_of_lt hle hbound)
  have hst : storedStatus ((a.planOn s.db).status a) = (a.planOn s.db).status a := by
    rcases hrests.isOpen with h | h <;> rw [h] <;> rfl
  refine ⟨⟨⟨a.restingHash (a.planOn s.db).remainingI ((a.planOn s.db).status a),?_,?_⟩,?_⟩,?_⟩
  · exact (settle_order a db₁ (a.planOn s.db) o.id).trans (if_pos ⟨hrests,rfl⟩)
  · simp only [OrderHash.matcherFields, MatchArgs.restingHash, Order.toHash, Order.matchedOn, ← ha, hrem, hst]
    rfl
  · change _ ∈ ((a.settle db₁ (a.planOn s.db)).book o.pairId o.side).entries
    rw [mem_entries_settle, if_pos ⟨hrests,rfl,rfl⟩]
    exact .inl rfl
  · change i64ToDecimal _ = i64ToDecimal (decimalToI64 (i64ToDecimal _))
    rw [hrem]

lemma fillRow_open {q : Decimal} {r : Order} (h : (fillRow q r).status.IsOpen) : r.status.IsOpen ∧
    ¬ r.remaining - q ≤ 0 ∧ fillRow q r =
      { r with remaining := r.remaining - q, status := .partiallyFilled, version := r.version + 1 } := by
  have hopen : r.status.IsOpen := by
    by_contra hclosed
    rw [fillRow, if_neg hclosed] at h
    exact hclosed h
  have hleft : ¬ r.remaining - q ≤ 0 := by
    intro hle
    rw [fillRow, if_pos hopen, max_eq_right hle] at h
    simp [OrderStatus.IsOpen] at h
  have hpos : 0 ≤ r.remaining - q := (not_le.mp hleft).le
  refine ⟨hopen,hleft,?_⟩
  rw [fillRow, if_pos hopen, max_eq_left hpos, if_neg (fun h0 => hleft h0.le)]

lemma fillRow_seeded (q : Decimal) (r : Order) (id : Uuid) : fillRow q (r.seeded id) = (fillRow q r).seeded id := by
  by_cases hopen : r.status.IsOpen
  · have hopen' : (r.seeded id).status.IsOpen := hopen
    rw [fillRow, if_pos hopen', fillRow, if_pos hopen]
    rfl
  · have hopen' : ¬ (r.seeded id).status.IsOpen := hopen
    rw [fillRow, if_neg hopen', fillRow, if_neg hopen]

section Maker
variable {id : Uuid} {r₀ r : Order} {newV4 : ℕ → Uuid}

lemma Valkey.Mirrors.unvisited {p : Order} (h : s.db.Mirrors p)
    (hfunded : lockBalance s.db (matchArgs o asset amount) = some db₁) (hne : p.id ≠ o.id)
    (hnot : ∀ v ∈ ((matchArgs o asset amount).planOn s.db).visits, v.id ≠ p.id) :
    (Gateway.scriptDb s o asset amount db₁).Mirrors p := by
  obtain ⟨⟨w,hw,hf⟩,he⟩ := h
  obtain ⟨_,hentry⟩ := settle_keeps hfunded hne hw (fun v hv hid => absurd hid (hnot v hv)) he
  refine ⟨⟨w,?_,hf⟩,hentry⟩
  exact (settle_order_unvisited hfunded hnot (fun _ => hne)).trans hw

/-- A mirrored order filled in part is mirrored by the row filled by the same amount. -/
lemma Valkey.Mirrors.filled {p : Order} (h : s.db.Mirrors p) (hgrid : p.remaining = i64ToDecimal (decimalToI64 p.remaining))
    (hfunded : lockBalance s.db (matchArgs o asset amount) = some db₁) (hne : p.id ≠ o.id) {w : OrderHash} {q : ℤ}
    (hv : ⟨⟨p.id,w⟩,.fill q⟩ ∈ ((matchArgs o asset amount).planOn s.db).visits)
    (hopen : (fillRow (i64ToDecimal q) p).status.IsOpen) :
    (Gateway.scriptDb s o asset amount db₁).Mirrors (fillRow (i64ToDecimal q) p) ∧
      (fillRow (i64ToDecimal q) p).remaining = i64ToDecimal (decimalToI64 (fillRow (i64ToDecimal q) p).remaining) := by
  obtain ⟨_,hleft,hrow⟩ := fillRow_open hopen
  obtain ⟨⟨w',hw',hf⟩,he⟩ := h
  obtain ⟨hval,hw,_⟩ := planOn_visit hv
  obtain ⟨hq,hle,_⟩ : 0 < q ∧ q ≤ w.remainingI ∧ _ := hval.fill q rfl
  obtain rfl : w' = w := Option.some.inj (hw'.symm.trans hw)
  simp only [OrderHash.matcherFields, Order.toHash, Prod.mk.injEq] at hf
  obtain ⟨hprice,hrem,huser,hstp,hst,htype⟩ := hf
  have hdiff : p.remaining - i64ToDecimal q = i64ToDecimal (w'.remainingI - q) := by
    rw [hgrid, ← hrem, i64ToDecimal_sub]
  have hpos : 0 < w'.remainingI - q := by
    rw [hdiff] at hleft
    exact i64ToDecimal_pos.mp (not_le.mp hleft)
  have hbound := (decimalToI64_bounds p.remaining).2
  have hback : decimalToI64 (i64ToDecimal (w'.remainingI - q)) = w'.remainingI - q :=
    decimalToI64_i64ToDecimal (by omega) (by omega)
  have hout : (⟨⟨p.id,w'⟩,.fill q⟩ : Visit).outcome =
      some { w' with remainingI := w'.remainingI - q, status := .partiallyFilled } := by
    simp only [Visit.outcome]
    rw [if_neg (by omega)]
  have hn := planOn_ids_nodup (matchArgs o asset amount) s.db
  rw [hrow, hdiff, hback]
  refine ⟨⟨⟨{ w' with remainingI := w'.remainingI - q, status := .partiallyFilled },?_,?_⟩,?_⟩,rfl⟩
  · exact (settle_order_visited hv (fun _ => hne)).trans hout
  · simp only [OrderHash.matcherFields, Order.toHash, hback, huser, hstp, htype, storedStatus]
    rw [hprice]
    rfl
  · refine (settle_keeps hfunded hne hw (fun v hvs hid hnone => ?_) he).2
    obtain rfl := List.inj_on_of_nodup_map hn hvs hv hid
    rw [hout] at hnone
    cases hnone

/-- Another open row is still mirrored: it was not visited, or the row and the hash were filled
by the same amount. -/
lemma maker_row_mirrored (h : ∀ p ∈ s.pg.restingOrders, s.db.Mirrors p) (hgrid : s.pg.OnGrid)
    (hmakers : ∀ r, o.Meets s.db r → (o.stpAction r.hash = .cancelMaker ∨ o.stpAction r.hash = .cancelBoth) →
      ∀ row ∈ s.pg.orders.get r.id, ¬ (row.status.IsOpen ∧ row.tif = .gtc))
    (hfunded : lockBalance s.db (matchArgs o asset amount) = some db₁)
    (hne : id ≠ o.id) (hr₀ : s.pg.orders.get id = some r₀)
    (hr : r = (((o.matchedOn s.db newV4 asset amount).luaTrades.map (fun lt => (lt.restingOrderId,lt.quantity))).lookup id).elim
      r₀ (fun q => fillRow q r₀)) (hopen : r.status.IsOpen) (htif : r.tif = .gtc) :
    (Gateway.scriptDb s o asset amount db₁).Mirrors (r.seeded id) ∧
      r.remaining = i64ToDecimal (decimalToI64 r.remaining) := by
  have hbefore : r₀.status.IsOpen → r₀.tif = .gtc →
      s.db.Mirrors (r₀.seeded id) ∧ r₀.remaining = i64ToDecimal (decimalToI64 r₀.remaining) := by
    intro hopen₀ htif₀
    have hmem : r₀.seeded id ∈ s.pg.restingOrders :=
      mem_restingOrders.mpr ⟨id,r₀,hr₀,hopen₀,htif₀,rfl⟩
    exact ⟨h _ hmem,hgrid (r₀.seeded id) hmem⟩
  cases hlk : ((o.matchedOn s.db newV4 asset amount).luaTrades.map (fun lt => (lt.restingOrderId,lt.quantity))).lookup id with
  | none =>
    rw [hlk] at hr
    obtain rfl : r = r₀ := hr
    obtain ⟨hm,hg⟩ := hbefore hopen htif
    refine ⟨hm.unvisited hfunded hne ?_,hg⟩
    -- a fill would show in the job, and a maker with an open row is not cancelled
    rintro ⟨x,act⟩ hv hid
    have hxid : x.id = id := hid
    cases act with
    | fill q =>
      rw [Table.lookup_eq_none, List.map_map] at hlk
      refine hlk (List.mem_map.mpr ⟨((matchArgs o asset amount).trade x.hash x.id q).toLuaTrade,?_,hid⟩)
      exact List.mem_map_of_mem (Plan.mem_trades.mpr ⟨x,q,hv,rfl⟩)
    | cancel =>
      obtain ⟨hmeets,hstp⟩ := ((planOn_meets o s.db asset amount).1 x).mp hv
      exact hmakers x hmeets hstp r (by rw [hxid]; exact hr₀) ⟨hopen,htif⟩
  | some q =>
    rw [hlk] at hr
    obtain rfl : r = fillRow q r₀ := hr
    obtain ⟨lt,hlt,hpair⟩ := List.mem_map.mp (Table.mem_of_lookup hlk)
    obtain ⟨rfl,rfl⟩ := Prod.mk.inj hpair
    obtain ⟨w,qI,hv,hqty⟩ := matchedOn_luaTrade hlt
    obtain ⟨hopen₀,_,hrow⟩ := fillRow_open hopen
    obtain ⟨hm,hg⟩ := hbefore hopen₀ (by rw [hrow] at htif; exact htif)
    rw [hqty] at hopen ⊢
    have hseeded : fillRow (i64ToDecimal qI) (r₀.seeded lt.restingOrderId) =
        (fillRow (i64ToDecimal qI) r₀).seeded lt.restingOrderId := fillRow_seeded _ _ _
    have hfill := hm.filled hg hfunded hne hv (by rw [hseeded]; exact hopen)
    rw [hseeded] at hfill
    exact hfill

end Maker

end Request

/-! ### Runs -/

/-- A request that gets through the script is written: its reply can be read and its transaction commits. -/
def Gateway.Commits (pairs : PairsCache) (s : System) (msg : QueuedOrderMsg) (d : Draws) : Prop :=
  ∀ o asset amount db₁, Gateway.Runs pairs s msg d o asset amount db₁ → ∃ m, o.decodedOn s.db d.tradeId asset amount = .ok m ∧
    s.pg.persistOrder m = .ok (Gateway.processOrderDecoded pairs s msg d).2.pg

/-- A committed request of a new limit order, not fill-or-kill. -/
structure Gateway.LimitRequest (pairs : PairsCache) (s : System) (msg : QueuedOrderMsg) (d : Draws) : Prop where
  order : ∀ o ∈ (Gateway.acceptOrder pairs msg d).toOption, o.orderType = .limit ∧ o.tif ≠ .fok ∧ s.Fresh o.id
  committed : Gateway.Commits pairs s msg d

/-- An order that gets through the script spares the rows, and what it leaves in the book is printed in
full and read back. -/
def Gateway.SparesRows (pairs : PairsCache) (s : System) (msg : QueuedOrderMsg) (d : Draws) : Prop :=
  ∀ o asset amount db₁, Gateway.Runs pairs s msg d o asset amount db₁ →
    o.SparesRows s ∧ o.PrintsInFull s.db asset amount ∧ ¬ o.RestsUnread s.db asset amount

/-- No order with an open row comes to the end of its hour. -/
def System.Lasts (s : System) (ms : ℕ) : Prop := ∀ o ∈ s.pg.restingOrders, ∀ t ∈ s.db.ttl o.id, ms < t

lemma Gateway.Commits.readOn {pairs : PairsCache} {s : System} {msg : QueuedOrderMsg} {d : Draws} {o : Order} {asset : String}
    {amount : ℤ} {db₁ : Valkey} (h : Gateway.Commits pairs s msg d) (hrun : Gateway.Runs pairs s msg d o asset amount db₁) :
    s.pg.persistOrder (o.readOn s.db d.tradeId asset amount) = .ok (Gateway.processOrderDecoded pairs s msg d).2.pg := by
  obtain ⟨m,hm,hpg⟩ := h o asset amount db₁ hrun
  rwa [Order.decodedOn_ok hrun.funded hm] at hpg

lemma Gateway.Commits.of_row {pairs : PairsCache} {s : System} {msg : QueuedOrderMsg} {d : Draws} {id : Uuid}
    (h : (Gateway.processOrderDecoded pairs s msg d).2.pg.orders.get id ≠ s.pg.orders.get id) : Gateway.Commits pairs s msg d := by
  intro o asset amount db₁ hrun
  exact hrun.decoded_stores.2.resolve_left (fun hsame => h (congrArg (fun pg => pg.orders.get id) hsame))

theorem System.Mirrored.request {pairs : PairsCache} {s : System} (h : s.Mirrored ∧ s.pg.OnGrid) {msg : QueuedOrderMsg}
    {d : Draws} (hreq : Gateway.LimitRequest pairs s msg d) (hspares : Gateway.SparesRows pairs s msg d) :
    (Gateway.processOrderDecoded pairs s msg d).2.Mirrored ∧ (Gateway.processOrderDecoded pairs s msg d).2.pg.OnGrid := by
  rcases Gateway.processOrderDecoded_cases pairs s msg d with he | ⟨o,asset,amount,db₁,hrun⟩
  · rwa [he]
  obtain ⟨hs,_,hread⟩ := hspares o asset amount db₁ hrun
  have hpg := hreq.committed.readOn hrun
  have hfresh : s.Fresh o.id := (hreq.order o (by rw [hrun.accepted]; rfl)).2.2
  have hq : 0 ≤ o.qtyI := decimalToI64_nonneg (checkOrder_quantity_pos (acceptOrder_ok hrun.accepted).1).le
  have hrow : ∀ p ∈ (Gateway.processOrderDecoded pairs s msg d).2.pg.restingOrders,
      (Gateway.scriptDb s o asset amount db₁).Mirrors p ∧ p.remaining = i64ToDecimal (decimalToI64 p.remaining) := by
    intro p hp
    obtain ⟨id,r,hr,hopen,htif,rfl⟩ := mem_restingOrders.mp hp
    rcases open_row_of_persist hpg hfresh.row (luaTrades_ne_self hfresh) hr hopen with ⟨rfl,rfl⟩ | ⟨hne,r₀,hr₀,hr⟩
    · obtain ⟨⟨hhash,hentry⟩,hg⟩ := own_row_mirrored hq hread hopen htif
      exact ⟨⟨hhash,hentry⟩,hg⟩
    · rw [Order.readOn_luaTrades] at hr
      exact maker_row_mirrored h.1.orders h.2 hs.makers hrun.funded hne hr₀ hr hopen htif
  have hdb := hrun.decoded_stores.1
  refine ⟨⟨?_,?_⟩,fun p hp => (hrow p hp).2⟩
  · rw [hdb]
    exact fun p hp => (hrow p hp).1
  · rw [hdb]
    exact h.1.balances_request hs hq hrun.tif hrun.lock hrun.funded hpg

lemma Valkey.Mirrors.pass {db : Valkey} {o : Order} (h : db.Mirrors o) {ms : ℕ} (hlasts : ∀ t ∈ db.ttl o.id, ms < t) :
    (db.pass ms).Mirrors o := by
  obtain ⟨⟨w,hw,hf⟩,he⟩ := h
  exact ⟨⟨w,by rw [Valkey.pass_order_of_lasts hlasts, hw],hf⟩,he⟩

lemma System.Mirrored.wait {s : System} (h : s.Mirrored) {ms : ℕ} (hlasts : s.Lasts ms) : System.Mirrored ⟨s.db.pass ms,s.pg⟩ :=
  ⟨fun o ho => (h.orders o ho).pass (hlasts o ho),h.balances⟩

/-- In a run of limit orders and waits from a seeded system, whose orders spare the rows and whose waits
spare the orders, seeding again changes nothing that the matcher reads. -/
theorem coldStart_noop {pairs : PairsCache} {db : Valkey} {pg : Postgres} {s : System} (hgrid : pg.OnGrid)
    (h : Relation.ReflTransGen (Gateway.TimedStep pairs (fun s msg d => Gateway.LimitRequest pairs s msg d ∧
      Gateway.SparesRows pairs s msg d) System.Lasts) ⟨coldStart db pg,pg⟩ s) : s.db.SameToMatcher (coldStart s.db s.pg) := by
  have hinv : s.Mirrored ∧ s.pg.OnGrid := by
    induction h with
    | refl => exact ⟨coldStart_mirrored db pg,hgrid⟩
    | tail _ hstep ih =>
      cases hstep with
      | request msg d hadmitted => exact System.Mirrored.request ih hadmitted.1 hadmitted.2
      | wait ms hlasts => exact ⟨ih.1.wait hlasts,ih.2⟩
  exact hinv.1.coldStart_same

/-- Dave's bitcoin are in the cache only; the table has a row of Alice's. -/
def seededTraders : System :=
  let pg := tradersPg 0 0
  ⟨coldStart { Valkey.empty with balance := fun user _ => if user = "dave" then ⟨10 ^ 12,0⟩ else ⟨0,0⟩ } pg,pg⟩

/-- The offer of one bitcoin at a hundred. -/
def bitcoinOffer (user : String) : QueuedOrderMsg × Draws := (limitMsg 1 user .sell 100 1,⟨0,fun _ => 10,0⟩)

lemma bitcoinOffer_limitRequest {user : String}
    (haccept : Gateway.acceptOrder btcUsdt (bitcoinOffer user).1 (bitcoinOffer user).2 = .ok (oneBitcoin 1 user .sell 100))
    (hrow : (Gateway.processOrderDecoded btcUsdt seededTraders (bitcoinOffer user).1 (bitcoinOffer user).2).2.pg.orders.get 1 ≠
      seededTraders.pg.orders.get 1) : Gateway.LimitRequest btcUsdt seededTraders (bitcoinOffer user).1 (bitcoinOffer user).2 := by
  refine ⟨?_,Gateway.Commits.of_row hrow⟩
  rw [haccept]
  rintro o ⟨⟩
  have hfresh : seededTraders.Fresh 1 := by decide +kernel
  exact ⟨rfl,nofun,hfresh⟩

/-- Dave's offer, which locks nothing that has a row, survives a cold start after half an hour. -/
theorem coldStart_noop_of_unrecorded_seller :
    let s := (Gateway.processOrderDecoded btcUsdt seededTraders (bitcoinOffer "dave").1 (bitcoinOffer "dave").2).2
    s.pg.restingOrders.length = 1 ∧ (s.db.pass 1800000).SameToMatcher (coldStart (s.db.pass 1800000) s.pg) := by
  have haccept : Gateway.acceptOrder btcUsdt (bitcoinOffer "dave").1 (bitcoinOffer "dave").2 = .ok (oneBitcoin 1 "dave" .sell 100) := by
    decide +kernel
  have hlasts : ∀ o ∈ (Gateway.processOrderDecoded btcUsdt seededTraders (bitcoinOffer "dave").1 (bitcoinOffer "dave").2).2.pg.restingOrders,
      ∀ t ∈ (Gateway.processOrderDecoded btcUsdt seededTraders (bitcoinOffer "dave").1 (bitcoinOffer "dave").2).2.db.ttl o.id, 1800000 < t := by
    decide +kernel
  refine ⟨by decide +kernel,coldStart_noop (by decide +kernel)
    (.tail (.single (.request _ _ ⟨bitcoinOffer_limitRequest haccept (by decide +kernel),?_⟩)) (.wait 1800000 hlasts))⟩
  intro o asset amount db₁ hrun
  have hrun' := hrun.accepted
  rw [haccept] at hrun'
  cases hrun'
  have hlock : lockParams (oneBitcoin 1 "dave" .sell 100) = .ok ("BTC",10 ^ 8) := by decide +kernel
  cases hlock.symm.trans hrun.lock
  have hnobody : ∀ r, ¬ (oneBitcoin 1 "dave" .sell 100).Meets seededTraders.db r := by
    have hempty : (matchArgs (oneBitcoin 1 "dave" .sell 100) "" 0).restingOn seededTraders.db = [] := by decide +kernel
    intro r hr
    rw [Order.Meets, hempty] at hr
    exact not_meets_nil hr
  refine ⟨⟨fun asset' amount' hl _ => ?_,fun r hr => absurd hr (hnobody r),fun htif => ?_,fun r hr => absurd hr (hnobody r)⟩,
    ⟨fun _ => by decide +kernel,?_⟩,fun hunread => ?_⟩
  · rw [hlock] at hl
    cases hl
    decide +kernel
  · cases htif
  · decide +kernel
  · have hle := hunread.2
    revert hle
    decide +kernel

/-- Alice locks a bitcoin that the table still has as available: after a cold start she can
spend it again. -/
theorem coldStart_frees_locked : ∃ (pairs : PairsCache) (db : Valkey) (pg : Postgres) (s : System), pg.OnGrid ∧
    Relation.ReflTransGen (Gateway.TimedStep pairs (Gateway.LimitRequest pairs) System.Lasts) ⟨coldStart db pg,pg⟩ s ∧
    s.db.balance "alice" "BTC" = ⟨0,10 ^ 8⟩ ∧ (coldStart s.db s.pg).balance "alice" "BTC" = ⟨10 ^ 8,0⟩ ∧
    ¬ s.db.SameToMatcher (coldStart s.db s.pg) := by
  have haccept : Gateway.acceptOrder btcUsdt (bitcoinOffer "alice").1 (bitcoinOffer "alice").2 = .ok (oneBitcoin 1 "alice" .sell 100) := by
    decide +kernel
  have hlocked : (Gateway.processOrderDecoded btcUsdt seededTraders (bitcoinOffer "alice").1 (bitcoinOffer "alice").2).2.db.balance
      "alice" "BTC" = ⟨0,10 ^ 8⟩ := by decide +kernel
  refine ⟨btcUsdt,_,tradersPg 0 0,_,by decide +kernel,.single (.request _ _ (bitcoinOffer_limitRequest haccept (by decide +kernel))),
    hlocked,by decide +kernel,fun hsame => ?_⟩
  have hbal := congrFun (congrFun hsame.balance "alice") "BTC"
  revert hbal
  decide +kernel

end MatchingEngine

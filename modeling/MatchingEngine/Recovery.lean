import MatchingEngine.CancelAll
import MatchingEngine.Commits
import MatchingEngine.MatcherCalls

/-! Failover. The sets and hashes in Valkey are rebuilt by `seed_orderbook_from_pg` alone, so that
losing them costs nothing as long as every order in a book has its open row and every open row its
order in a book. Requests keep this up to three accidents: a maker removed by self-trade prevention
keeps its row, an order whose client order id is taken rests without one, and a remainder of more than
fourteen digits is read as zero into its row. So does time, until the hour of an order is over. -/
namespace MatchingEngine
open Library

/-- The books and the open rows tell of each other. -/
structure System.Recoverable (s : System) : Prop where
  rows : ∀ o ∈ s.pg.restingOrders, s.db.Mirrors o
  grid : s.pg.OnGrid
  listed : ∀ pair side, ∀ id ∈ s.db.book pair side, ∃ o ∈ s.pg.restingOrders, o.id = id ∧ o.pairId = pair ∧ o.side = side

/-- An order with a remainder whose row the unique index refuses silently. -/
def Order.RestsUnrecorded (o : Order) (s : System) (asset : String) (amount : ℤ) : Prop :=
  s.pg.clientOrderIdTaken o = true ∧ ((matchArgs o asset amount).planOn s.db).Rests (matchArgs o asset amount)

/-- A committed request with a fresh id that prints in full what it writes into hashes, but perhaps for
the remainder it rests with. -/
structure Gateway.Committed (pairs : PairsCache) (s : System) (msg : QueuedOrderMsg) (d : Draws) : Prop where
  fresh : ∀ o ∈ (Gateway.acceptOrder pairs msg d).toOption, s.Fresh o.id
  committed : Gateway.Commits pairs s msg d
  prints : ∀ o asset amount db₁, Gateway.Runs pairs s msg d o asset amount db₁ → o.PrintsInFull s.db asset amount

/-- An order without accidents. -/
structure Order.SparesBooks (o : Order) (s : System) (asset : String) (amount : ℤ) : Prop where
  makers : ¬ o.CancelsMaker s.db
  recorded : ¬ o.RestsUnrecorded s asset amount
  read : ¬ o.RestsUnread s.db asset amount

/-- None of the accidents happens. -/
def Gateway.SparesBooks (pairs : PairsCache) (s : System) (msg : QueuedOrderMsg) (d : Draws) : Prop :=
  ∀ o asset amount db₁, Gateway.Runs pairs s msg d o asset amount db₁ → o.SparesBooks s asset amount

/-- Requests, cancellations, waits, restarts of the gateway on the store that is there and on an empty
one. -/
inductive Recovery.Step (pairs : PairsCache) : System → System → Prop
  | request {s : System} (msg : QueuedOrderMsg) (d : Draws) (committed : Gateway.Committed pairs s msg d)
      (spares : Gateway.SparesBooks pairs s msg d) : Step pairs s (Gateway.processOrderDecoded pairs s msg d).2
  | cancel {s : System} (msg : CancelMsg) : Step pairs s (Api.processCancellation s msg).2
  | wait {s : System} (ms : ℕ) (lasts : s.Lasts ms) : Step pairs s ⟨s.db.pass ms,s.pg⟩
  | restart {s : System} : Step pairs s ⟨coldStart s.db s.pg,s.pg⟩
  | failover {s : System} : Step pairs s ⟨coldStart Valkey.empty s.pg,s.pg⟩

/-! ### Seeding -/

section Seeding

lemma mem_entries_foldl_save {os : List Order} {db : Valkey} {pair : String} {side : Side} {e : Entry ℤ Uuid}
    (he : e ∈ ((os.foldl Valkey.saveOrderToBook db).book pair side).entries) : e ∈ (db.book pair side).entries ∨
      ∃ o ∈ os, o.pairId = pair ∧ o.side = side ∧ e = ⟨signedPrice o.side o.priceI,o.id⟩ := by
  induction os generalizing db with
  | nil => exact .inl he
  | cons p ps ih =>
    rcases ih he with hp | ⟨o,ho,hs⟩
    · simp only [Valkey.saveOrderToBook, Valkey.hset_book, Valkey.zadd_book] at hp
      split_ifs at hp with hk
      · rcases SortedSet.mem_entries_add.mp hp with rfl | ⟨hold,_⟩
        · exact .inr ⟨p,by simp,hk.1.symm,hk.2.symm,rfl⟩
        · exact .inl hold
      · exact .inl hp
    · exact .inr ⟨o,by simp [ho],hs⟩

lemma coldStart_recoverable {db : Valkey} {pg : Postgres} (hgrid : pg.OnGrid)
    (hlisted : ∀ pair side, ∀ id ∈ db.book pair side, ∃ o ∈ pg.restingOrders, o.id = id ∧ o.pairId = pair ∧ o.side = side) :
    System.Recoverable ⟨coldStart db pg,pg⟩ := by
  refine ⟨(coldStart_mirrored db pg).orders,hgrid,fun pair side id hid => ?_⟩
  obtain ⟨e,he,rfl⟩ := SortedSet.mem_iff.mp hid
  rcases mem_entries_foldl_save he with hold | ⟨o,ho,hpair,hside,rfl⟩
  · exact hlisted pair side e.member (SortedSet.mem_iff.mpr ⟨e,hold,rfl⟩)
  · exact ⟨o,ho,rfl,hpair,hside⟩

lemma coldStart_empty_recoverable {pg : Postgres} (hgrid : pg.OnGrid) :
    System.Recoverable ⟨coldStart Valkey.empty pg,pg⟩ :=
  coldStart_recoverable hgrid (fun _ _ _ hid => absurd hid (SortedSet.not_mem_empty _))

/-- What is rebuilt from nothing is what was there. -/
theorem System.Recoverable.sameBooks {s : System} (h : s.Recoverable) : s.db.SameBooks (coldStart Valkey.empty s.pg) := by
  have hnew := coldStart_empty_recoverable h.grid
  have hentry : ∀ {db db' : Valkey}, System.Recoverable ⟨db,s.pg⟩ → System.Recoverable ⟨db',s.pg⟩ → ∀ {pair side e},
      e ∈ (db.book pair side).entries → e ∈ (db'.book pair side).entries := by
    intro db db' hdb hdb' pair side e he
    obtain ⟨o,ho,hid,rfl,rfl⟩ := hdb.listed pair side e.member (SortedSet.mem_iff.mpr ⟨e,he,rfl⟩)
    rw [SortedSet.entry_unique he (hdb.rows o ho).entry hid.symm]
    exact (hdb'.rows o ho).entry
  refine ⟨?_,fun pair side id hid => ⟨pair,side,hid⟩,fun id ⟨pair,side,hid⟩ => ?_⟩
  · funext pair side
    exact SortedSet.ext_mem (fun e => ⟨hentry hnew h,hentry h hnew⟩)
  · obtain ⟨o,ho,rfl,_,_⟩ := h.listed pair side id hid
    obtain ⟨w,hw,hf⟩ := (h.rows o ho).hash
    obtain ⟨w',hw',hf'⟩ := (hnew.rows o ho).hash
    rw [hw, hw', Option.map_some, Option.map_some, hf, hf']

end Seeding

/-! ### Cancellations -/

lemma restingOrders_closed {s : System} {id : Uuid} {user : String} {row o : Order} :
    o ∈ (s.closed id user row).pg.restingOrders ↔ o ∈ s.pg.restingOrders ∧ o.id ≠ id := by
  simp only [mem_restingOrders, System.closed_orders]
  constructor
  · rintro ⟨x,r,hr,hopen,htif,rfl⟩
    split_ifs at hr with hx
    · obtain ⟨r₀,_,rfl⟩ := Option.map_eq_some_iff.mp hr
      simp [OrderStatus.IsOpen] at hopen
    · exact ⟨⟨x,r,hr,hopen,htif,rfl⟩,hx⟩
  · rintro ⟨⟨x,r,hr,hopen,htif,rfl⟩,hne⟩
    have hx : x ≠ id := hne
    exact ⟨x,r,by rw [if_neg hx, hr],hopen,htif,rfl⟩

lemma System.Recoverable.closed {s : System} (h : s.Recoverable) {id : Uuid} {user : String} {row : Order}
    (hc : Api.cancellable s.pg id user = some row) : (s.closed id user row).Recoverable := by
  obtain ⟨hrow,_,_⟩ := cancellable_eq_some.mp hc
  refine ⟨fun o ho => ?_,fun o ho => h.grid o (restingOrders_closed.mp ho).1,fun pair side x hx => ?_⟩
  · obtain ⟨hold,hne⟩ := restingOrders_closed.mp ho
    obtain ⟨⟨w,hw,hf⟩,he⟩ := h.rows o hold
    refine ⟨⟨w,by rw [System.closed_order, if_neg hne, hw],hf⟩,?_⟩
    simp only [System.closed, Valkey.removeOrderFromBook, Valkey.dropOrder_book]
    split_ifs
    · exact SortedSet.mem_entries_remove.mpr ⟨he,hne⟩
    · exact he
  · obtain ⟨hx,hgone⟩ := (System.mem_closed_book _ _ _ _).mp hx
    obtain ⟨o,ho,rfl,rfl,rfl⟩ := h.listed pair side x hx
    refine ⟨o,restingOrders_closed.mpr ⟨ho,fun hid => hgone ⟨hid,?_⟩⟩,rfl,rfl,rfl⟩
    -- the row that was cancelled is the one that is listed
    obtain ⟨x,r,hr,_,_,rfl⟩ := mem_restingOrders.mp ho
    have hsame : r = row := Option.some.inj (hr.symm.trans ((congrArg s.pg.orders.get hid).trans hrow))
    rw [hsame]
    exact ⟨rfl,rfl⟩

/-! ### Requests -/

section Request
variable {s : System} {o : Order} {asset : String} {amount : ℤ} {db₁ : Valkey} {newV4 : ℕ → Uuid} {pg' : Postgres}

lemma lookup_fill {r : Resting} {q : ℤ} (hv : ⟨r,.fill q⟩ ∈ ((matchArgs o asset amount).planOn s.db).visits) :
    ((o.readOn s.db newV4 asset amount).luaTrades.map (fun lt => (lt.restingOrderId,lt.quantity))).lookup r.id =
      some (i64ToDecimal q) := by
  have hn : (((o.readOn s.db newV4 asset amount).luaTrades.map (fun lt => (lt.restingOrderId,lt.quantity))).map
      Prod.fst).Nodup := by
    rw [List.map_map]
    change (List.map LuaTrade.restingOrderId (List.map ScriptTrade.toLuaTrade _)).Nodup
    rw [List.map_map]
    exact Plan.trades_restingIds_nodup (planOn_ids_nodup _ _)
  refine Table.get_of_mem (t := ⟨_,hn⟩) (List.mem_map.mpr ⟨((matchArgs o asset amount).trade r.hash r.id q).toLuaTrade,?_,rfl⟩)
  exact List.mem_map_of_mem (Plan.mem_trades.mpr ⟨r,q,hv,rfl⟩)

lemma lookup_unfilled {id : Uuid} (hnot : ∀ v ∈ ((matchArgs o asset amount).planOn s.db).visits, v.id = id → v.action = .cancel) :
    ((o.readOn s.db newV4 asset amount).luaTrades.map (fun lt => (lt.restingOrderId,lt.quantity))).lookup id = none := by
  rw [Table.lookup_eq_none, List.map_map]
  intro hmem
  obtain ⟨lt,hlt,hid⟩ := List.mem_map.mp hmem
  rw [Order.readOn_luaTrades] at hlt
  obtain ⟨w,q,hv,_⟩ := matchedOn_luaTrade hlt
  have := hnot _ hv hid
  cases this

/-- Without cancelled makers, the rows that are open after the commit are mirrored. -/
lemma System.Recoverable.rows_request (h : s.Recoverable) (hfresh : s.Fresh o.id) (hq : 0 ≤ o.qtyI)
    (hfunded : lockBalance s.db (matchArgs o asset amount) = some db₁)
    (hpg : s.pg.persistOrder (o.readOn s.db newV4 asset amount) = .ok pg') (hmakers : ¬ o.CancelsMaker s.db)
    (hread : ¬ o.RestsUnread s.db asset amount) : ∀ p ∈ pg'.restingOrders, (Gateway.scriptDb s o asset amount db₁).Mirrors p ∧
      p.remaining = i64ToDecimal (decimalToI64 p.remaining) := by
  intro p hp
  obtain ⟨id,r,hr,hopen,htif,rfl⟩ := mem_restingOrders.mp hp
  rcases open_row_of_persist hpg hfresh.row (luaTrades_ne_self hfresh) hr hopen with ⟨rfl,rfl⟩ | ⟨hne,r₀,hr₀,hr⟩
  · obtain ⟨⟨hhash,hentry⟩,hg⟩ := own_row_mirrored hq hread hopen htif
    exact ⟨⟨hhash,hentry⟩,hg⟩
  · rw [Order.readOn_luaTrades] at hr
    exact maker_row_mirrored h.rows h.grid (fun x hx hstp => absurd ⟨x,hx,hstp⟩ hmakers) hfunded hne hr₀ hr hopen htif

lemma fillRow_isOpen {r : Order} {q : Decimal} (hopen : r.status.IsOpen) (hleft : 0 < r.remaining - q) :
    (fillRow q r).status.IsOpen := by
  rw [fillRow, if_pos hopen, max_eq_left hleft.le, if_neg hleft.ne']
  exact .inr rfl

lemma System.Recoverable.listed_maker (h : s.Recoverable) (hpg : s.pg.persistOrder (o.readOn s.db newV4 asset amount) = .ok pg')
    {id : Uuid} (hne : id ≠ o.id) {pair : String} {side : Side} (hbefore : id ∈ s.db.book pair side)
    (hafter : id ∈ (Gateway.scriptDb s o asset amount db₁).book pair side) :
    ∃ p ∈ pg'.restingOrders, p.id = id ∧ p.pairId = pair ∧ p.side = side := by
  obtain ⟨p,hp,rfl,hpair,hside⟩ := h.listed pair side id hbefore
  obtain ⟨⟨w,hw,hf⟩,_⟩ := h.rows p hp
  have hgrid := h.grid p hp
  obtain ⟨id,r,hr,hopen,htif,rfl⟩ := mem_restingOrders.mp hp
  change id ≠ o.id at hne
  change s.db.order id = some w at hw
  obtain ⟨_,_,horders,_⟩ := Postgres.persistOrder_ok hpg
  have hget := Postgres.ordersAfterPersist_get_of_ne s.pg (m := o.readOn s.db newV4 asset amount) hne
  rw [← horders, hr, Option.map_some] at hget
  by_cases hfill : ∃ x q, ⟨x,.fill q⟩ ∈ ((matchArgs o asset amount).planOn s.db).visits ∧ x.id = id
  · obtain ⟨x,q,hv,rfl⟩ := hfill
    rw [lookup_fill hv, Option.elim_some] at hget
    obtain ⟨_,hx,hmem⟩ := planOn_visit hv
    obtain rfl : w = x.hash := Option.some.inj (hw.symm.trans hx)
    -- the set it was found in is the one of its row
    obtain ⟨p',hp',hid',hpair',hside'⟩ := h.listed _ _ _ hmem
    obtain ⟨y,r',hr',_,_,rfl⟩ := mem_restingOrders.mp hp'
    have hy : y = x.id := hid'
    rw [hy, hr, Option.some_inj] at hr'
    subst hr'
    have hpair'' : pair = (matchArgs o asset amount).pairId := hpair.symm.trans hpair'
    have hside'' : side = (matchArgs o asset amount).side.opposite := hside.symm.trans hside'
    rw [hpair'', hside''] at hafter
    have hout : Visit.outcome ⟨x,.fill q⟩ ≠ none := fun hnone => settle_notMem_of_outcome hv hnone hafter
    have hleft : 0 < x.hash.remainingI - q := by
      by_contra hle
      exact hout (by simp only [Visit.outcome]; rw [if_pos (by omega)])
    have hrem : x.hash.remainingI = decimalToI64 r.remaining := congrArg (fun f => f.2.1) hf
    have hgrid' : r.remaining = i64ToDecimal (decimalToI64 r.remaining) := hgrid
    have hopen' : (fillRow (i64ToDecimal q) r).status.IsOpen := by
      refine fillRow_isOpen hopen ?_
      rw [hgrid', ← hrem, ← i64ToDecimal_sub]
      exact i64ToDecimal_pos.mpr hleft
    obtain ⟨_,_,hrow⟩ := fillRow_open hopen'
    refine ⟨_,mem_restingOrders.mpr ⟨x.id,_,hget,hopen',by rw [hrow]; exact htif,rfl⟩,rfl,?_,?_⟩
    · rw [hrow]
      exact hpair
    · rw [hrow]
      exact hside
  · rw [lookup_unfilled] at hget
    · exact ⟨_,mem_restingOrders.mpr ⟨id,r,hget,hopen,htif,rfl⟩,rfl,hpair,hside⟩
    · rintro ⟨x,act⟩ hv hid
      cases act with
      | cancel => rfl
      | fill q => exact absurd ⟨x,q,hv,hid⟩ hfill

lemma own_row_of_rests (hfresh : s.Fresh o.id) (hpg : s.pg.persistOrder (o.readOn s.db newV4 asset amount) = .ok pg')
    (hrests : ((matchArgs o asset amount).planOn s.db).Rests (matchArgs o asset amount)) :
    pg'.orders.get o.id = if s.pg.clientOrderIdTaken o = true then none else some (o.readOn s.db newV4 asset amount).order := by
  obtain ⟨_,_,horders,_⟩ := Postgres.persistOrder_ok hpg
  have hopen : (o.readOn s.db newV4 asset amount).order.status.IsOpen := hrests.isOpen
  have hself : ∀ lt ∈ (o.readOn s.db newV4 asset amount).luaTrades, lt.restingOrderId ≠ o.id := luaTrades_ne_self hfresh
  rw [horders]
  cases htaken : s.pg.clientOrderIdTaken o with
  | false =>
    have hget := Postgres.ordersAfterPersist_get (m := o.readOn s.db newV4 asset amount) hfresh.row htaken hself o.id
    rw [hget]
    exact (if_pos rfl).trans (congrArg some (if_pos hopen))
  | true =>
    have hsame : s.pg.insertOrder (o.readOn s.db newV4 asset amount).order = s.pg := if_pos htaken
    rw [Postgres.ordersAfterPersist, hsame]
    simp only [if_pos hopen, if_true, Table.get_updateFrom, hfresh.row, Option.map_none]

/-- If its insert took place, everything in the books after a request has its open row. -/
lemma System.Recoverable.listed_request (h : s.Recoverable) (hfresh : s.Fresh o.id)
    (hfunded : lockBalance s.db (matchArgs o asset amount) = some db₁)
    (hpg : s.pg.persistOrder (o.readOn s.db newV4 asset amount) = .ok pg') (hrecorded : ¬ o.RestsUnrecorded s asset amount)
    (pair : String) (side : Side) : ∀ id ∈ (Gateway.scriptDb s o asset amount db₁).book pair side,
      ∃ p ∈ pg'.restingOrders, p.id = id ∧ p.pairId = pair ∧ p.side = side := by
  intro id hafter
  obtain ⟨e,he,rfl⟩ := SortedSet.mem_iff.mp hafter
  have hcases := settle_entry_cases hfunded he
  by_cases hself : e.member = o.id
  · have hnew : e ∉ (s.db.book pair side).entries := by
      intro hold
      obtain ⟨p,hp,hid,_,_⟩ := h.listed pair side e.member (SortedSet.mem_iff.mpr ⟨e,hold,rfl⟩)
      obtain ⟨x,r,hr,_,_,rfl⟩ := mem_restingOrders.mp hp
      have hx : x = o.id := hid.trans hself
      rw [hx, hfresh.row] at hr
      cases hr
    have hrests : ((matchArgs o asset amount).planOn s.db).Rests (matchArgs o asset amount) := by
      by_contra hno
      rw [Gateway.scriptDb, mem_entries_settle, if_neg (fun hk => hno hk.1), mem_entries_applyVisits,
        (lockBalance_frame hfunded).2.1] at he
      exact hnew he.1
    obtain ⟨rfl,rfl,_⟩ := hcases.resolve_right hnew
    have hrow := own_row_of_rests hfresh hpg hrests
    rw [if_neg (fun htaken => hrecorded ⟨htaken,hrests⟩)] at hrow
    exact ⟨_,mem_restingOrders.mpr ⟨o.id,_,hrow,hrests.isOpen,hrests.1,rfl⟩,hself.symm,rfl,rfl⟩
  · have hold : e ∈ (s.db.book pair side).entries := by
      refine hcases.resolve_left ?_
      rintro ⟨_,_,rfl⟩
      exact hself rfl
    exact h.listed_maker hpg hself (SortedSet.mem_iff.mpr ⟨e,hold,rfl⟩) hafter

lemma System.Recoverable.not_of_cancelsMaker (h : s.Recoverable) (hfresh : s.Fresh o.id)
    (hpg : s.pg.persistOrder (o.readOn s.db newV4 asset amount) = .ok pg') (hmaker : o.CancelsMaker s.db) :
    ¬ System.Recoverable ⟨Gateway.scriptDb s o asset amount db₁,pg'⟩ := by
  intro hafter
  obtain ⟨x,hv⟩ := (cancelsMaker_iff asset amount).mp hmaker
  obtain ⟨_,hx,hmem⟩ := planOn_visit hv
  have hne : x.id ≠ o.id := planOn_visit_ne hfresh.order _ hv
  obtain ⟨p,hp,hid,hpair,hside⟩ := h.listed _ _ _ hmem
  obtain ⟨id,r,hr,hopen,htif,rfl⟩ := mem_restingOrders.mp hp
  obtain rfl : id = x.id := hid
  obtain ⟨_,_,horders,_⟩ := Postgres.persistOrder_ok hpg
  have hget := Postgres.ordersAfterPersist_get_of_ne s.pg (m := o.readOn s.db newV4 asset amount) hne
  rw [← horders, hr, Option.map_some, lookup_unfilled] at hget
  · have hentry := (hafter.rows _ (mem_restingOrders.mpr ⟨x.id,r,hget,hopen,htif,rfl⟩)).entry
    rw [show (r.seeded x.id).pairId = (matchArgs o asset amount).pairId from hpair,
      show (r.seeded x.id).side = (matchArgs o asset amount).side.opposite from hside] at hentry
    exact settle_notMem_of_outcome hv rfl (SortedSet.mem_iff.mpr ⟨_,hentry,rfl⟩)
  · intro v hvs hvid
    rw [List.inj_on_of_nodup_map (planOn_ids_nodup _ _) hvs hv hvid]

lemma not_recoverable_of_restsUnrecorded (hfresh : s.Fresh o.id)
    (hpg : s.pg.persistOrder (o.readOn s.db newV4 asset amount) = .ok pg') (hun : o.RestsUnrecorded s asset amount) :
    ¬ System.Recoverable ⟨Gateway.scriptDb s o asset amount db₁,pg'⟩ := by
  intro hafter
  obtain ⟨htaken,hrests⟩ := hun
  have hmem : o.id ∈ (Gateway.scriptDb s o asset amount db₁).book o.pairId o.side := by
    refine SortedSet.mem_iff.mpr ⟨⟨(matchArgs o asset amount).score,o.id⟩,?_,rfl⟩
    rw [Gateway.scriptDb, mem_entries_settle, if_pos ⟨hrests,rfl,rfl⟩]
    exact .inl rfl
  obtain ⟨p,hp,hid,_,_⟩ := hafter.listed _ _ _ hmem
  obtain ⟨id,r,hr,_,_,rfl⟩ := mem_restingOrders.mp hp
  obtain rfl : id = o.id := hid
  have hrow := own_row_of_rests hfresh hpg hrests
  rw [if_pos htaken] at hrow
  rw [hrow] at hr
  cases hr

lemma not_recoverable_of_restsUnread (hfresh : s.Fresh o.id)
    (hpg : s.pg.persistOrder (o.readOn s.db newV4 asset amount) = .ok pg') (hrecorded : ¬ o.RestsUnrecorded s asset amount)
    (hun : o.RestsUnread s.db asset amount) : ¬ System.Recoverable ⟨Gateway.scriptDb s o asset amount db₁,pg'⟩ := by
  intro hafter
  obtain ⟨hrests,hlarge⟩ := hun
  set a := matchArgs o asset amount with ha
  have hrow := own_row_of_rests hfresh hpg hrests
  rw [if_neg (fun htaken => hrecorded ⟨htaken,hrests⟩)] at hrow
  obtain ⟨⟨w,hw,hf⟩,_⟩ := hafter.rows _ (mem_restingOrders.mpr ⟨o.id,_,hrow,hrests.isOpen,hrests.1,rfl⟩)
  have hscript : (Gateway.scriptDb s o asset amount db₁).order o.id =
      some (a.restingHash (a.planOn s.db).remainingI ((a.planOn s.db).status a)) :=
    (settle_order a db₁ (a.planOn s.db) o.id).trans (if_pos ⟨hrests,rfl⟩)
  obtain rfl : w = _ := Option.some.inj (hw.symm.trans hscript)
  have hrem : (a.planOn s.db).remainingI = decimalToI64 (i64ToDecimal ((luaToI64 (a.planOn s.db).remainingI).getD 0)) :=
    congrArg (fun f => f.2.1) hf
  have hunread : luaToI64 (a.planOn s.db).remainingI = none := if_neg (by rw [abs_of_pos hrests.2.1]; omega)
  rw [hunread, Option.getD_none] at hrem
  have hzero : decimalToI64 (i64ToDecimal 0) = 0 := by decide +kernel
  omega

variable {pairs : PairsCache} {msg : QueuedOrderMsg} {d : Draws}

lemma System.Recoverable.request (h : s.Recoverable) (hreq : Gateway.Committed pairs s msg d)
    (hspares : Gateway.SparesBooks pairs s msg d) : (Gateway.processOrderDecoded pairs s msg d).2.Recoverable := by
  rcases Gateway.processOrderDecoded_cases pairs s msg d with he | ⟨o,asset,amount,db₁,hrun⟩
  · rwa [he]
  have hpg := hreq.committed.readOn hrun
  have hfresh : s.Fresh o.id := hreq.fresh o (by rw [hrun.accepted]; rfl)
  have hq : 0 ≤ o.qtyI := decimalToI64_nonneg (checkOrder_quantity_pos (acceptOrder_ok hrun.accepted).1).le
  have hsafe := hspares o asset amount db₁ hrun
  have hrows := h.rows_request hfresh hq hrun.funded hpg hsafe.makers hsafe.read
  have hlisted := h.listed_request hfresh hrun.funded hpg hsafe.recorded
  rw [← hrun.decoded_stores.1] at hrows hlisted
  exact ⟨fun p hp => (hrows p hp).1,fun p hp => (hrows p hp).2,hlisted⟩

/-- A committed request keeps the books recoverable exactly when none of the accidents happens. -/
theorem recoverable_request_iff (h : s.Recoverable) (hreq : Gateway.Committed pairs s msg d) :
    (Gateway.processOrderDecoded pairs s msg d).2.Recoverable ↔ Gateway.SparesBooks pairs s msg d := by
  refine ⟨fun hafter o asset amount db₁ hrun => ?_,h.request hreq⟩
  have hpg := hreq.committed.readOn hrun
  have hfresh : s.Fresh o.id := hreq.fresh o (by rw [hrun.accepted]; rfl)
  have hsys : (Gateway.processOrderDecoded pairs s msg d).2 =
      ⟨Gateway.scriptDb s o asset amount db₁,(Gateway.processOrderDecoded pairs s msg d).2.pg⟩ := by rw [← hrun.decoded_stores.1]
  rw [hsys] at hafter
  have hrecorded : ¬ o.RestsUnrecorded s asset amount := fun hu => not_recoverable_of_restsUnrecorded hfresh hpg hu hafter
  exact ⟨fun hm => h.not_of_cancelsMaker hfresh hpg hm hafter,hrecorded,
    fun hu => not_recoverable_of_restsUnread hfresh hpg hrecorded hu hafter⟩

end Request

/-! ### Runs -/

lemma System.Recoverable.wait {s : System} (h : s.Recoverable) {ms : ℕ} (hlasts : s.Lasts ms) :
    System.Recoverable ⟨s.db.pass ms,s.pg⟩ :=
  ⟨fun o ho => (h.rows o ho).pass (hlasts o ho),h.grid,h.listed⟩

theorem Recovery.Step.recoverable {pairs : PairsCache} {s s' : System} (h : s.Recoverable) (hstep : Recovery.Step pairs s s') :
    s'.Recoverable := by
  cases hstep with
  | request msg d hreq hspares => exact h.request hreq hspares
  | cancel msg => exact processCancellation_invariant (fun s id user row hc h => h.closed hc) h msg
  | wait ms hlasts => exact h.wait hlasts
  | restart => exact coldStart_recoverable h.grid h.listed
  | failover => exact coldStart_empty_recoverable h.grid

/-- After any run of requests that spare the books, cancellations, waits that spare the orders, restarts
and failovers, an exchange whose store is lost and seeded anew answers every session as the old one would,
as long as neither refuses an order for funds. -/
theorem failover_answers {pairs : PairsCache} {pg : Postgres} {s : System} (hgrid : pg.OnGrid)
    (hrun : Relation.ReflTransGen (Recovery.Step pairs) ⟨coldStart Valkey.empty pg,pg⟩ s) {calls : List MatcherCall}
    (hold : ∀ r ∈ (answers MatcherCall.run s.db calls).1, r.Accepted)
    (hnew : ∀ r ∈ (answers MatcherCall.run (coldStart Valkey.empty s.pg) calls).1, r.Accepted) :
    (answers MatcherCall.run (coldStart Valkey.empty s.pg) calls).1 = (answers MatcherCall.run s.db calls).1 := by
  have hs : s.Recoverable := by
    clear hold hnew
    induction hrun with
    | refl => exact coldStart_empty_recoverable hgrid
    | tail _ hstep ih => exact hstep.recoverable ih
  exact (MatcherCall.lockstep.answers_eq hs.sameBooks hold hnew).1.symm

/-! ### An offer -/

/-- A seeded exchange without orders, and Alice's offer of one bitcoin. -/
def seededEmpty : System := ⟨coldStart Valkey.empty (tradersPg 0 0),tradersPg 0 0⟩

def firstOffer : QueuedOrderMsg × Draws := bitcoinOffer "alice"

lemma firstOffer_accepted : Gateway.acceptOrder btcUsdt firstOffer.1 firstOffer.2 = .ok (oneBitcoin 1 "alice" .sell 100) := by
  decide +kernel

lemma firstOffer_runs {o : Order} {asset : String} {amount : ℤ} {db₁ : Valkey}
    (hrun : Gateway.Runs btcUsdt seededEmpty firstOffer.1 firstOffer.2 o asset amount db₁) :
    o = oneBitcoin 1 "alice" .sell 100 ∧ asset = "BTC" ∧ amount = 10 ^ 8 := by
  obtain rfl : oneBitcoin 1 "alice" .sell 100 = o := Except.ok.inj (firstOffer_accepted.symm.trans hrun.accepted)
  have hlock : lockParams (oneBitcoin 1 "alice" .sell 100) = .ok ("BTC",10 ^ 8) := by decide +kernel
  cases hlock.symm.trans hrun.lock
  exact ⟨rfl,rfl,rfl⟩

lemma firstOffer_committed : Gateway.Committed btcUsdt seededEmpty firstOffer.1 firstOffer.2 := by
  have hrow : (Gateway.processOrderDecoded btcUsdt seededEmpty firstOffer.1 firstOffer.2).2.pg.orders.get 1 ≠
      seededEmpty.pg.orders.get 1 := by decide +kernel
  refine ⟨?_,Gateway.Commits.of_row hrow,fun o asset amount db₁ hrun => ?_⟩
  · rw [firstOffer_accepted]
    rintro o ⟨⟩
    decide +kernel
  · obtain ⟨rfl,rfl,rfl⟩ := firstOffer_runs hrun
    exact ⟨fun _ => by decide +kernel,by decide +kernel⟩

lemma firstOffer_spares : Gateway.SparesBooks btcUsdt seededEmpty firstOffer.1 firstOffer.2 := by
  intro o asset amount db₁ hrun
  obtain ⟨rfl,rfl,rfl⟩ := firstOffer_runs hrun
  refine ⟨?_,fun hun => ?_,fun hun => ?_⟩
  · rintro ⟨r,hmeets,_⟩
    have hempty : (matchArgs (oneBitcoin 1 "alice" .sell 100) "" 0).restingOn seededEmpty.db = [] := by decide +kernel
    rw [Order.Meets, hempty] at hmeets
    exact not_meets_nil hmeets
  · have htaken := hun.1
    revert htaken
    decide +kernel
  · have hlarge := hun.2
    revert hlarge
    decide +kernel

theorem recoverable_after_offer : (Gateway.processOrderDecoded btcUsdt seededEmpty firstOffer.1 firstOffer.2).2.Recoverable :=
  (recoverable_request_iff (coldStart_empty_recoverable (by decide +kernel)) firstOffer_committed).mpr firstOffer_spares

/-- Half an hour later Bob buys the bitcoin from the store that was rebuilt as he would have from the one
that was lost. -/
theorem failover_answers_after_offer :
    let r := (Gateway.processOrderDecoded btcUsdt seededEmpty firstOffer.1 firstOffer.2).2
    let s : System := ⟨r.db.pass 1800000,r.pg⟩
    let calls := [.submit (oneBitcoin 2 "bob" .buy 100) "USDT" (10 ^ 10),.snapshot "BTC-USDT" 10]
    1 ∈ s.db.book "BTC-USDT" .sell ∧ (s.db.order 1).isSome ∧
    (answers MatcherCall.run (coldStart Valkey.empty s.pg) calls).1 = (answers MatcherCall.run s.db calls).1 := by
  intro r s calls
  have hlasts : r.Lasts 1800000 := by
    change ∀ o ∈ (Gateway.processOrderDecoded btcUsdt seededEmpty firstOffer.1 firstOffer.2).2.pg.restingOrders,
      ∀ t ∈ (Gateway.processOrderDecoded btcUsdt seededEmpty firstOffer.1 firstOffer.2).2.db.ttl o.id, 1800000 < t
    decide +kernel
  exact ⟨by decide +kernel,by decide +kernel,@failover_answers btcUsdt (tradersPg 0 0) s (by decide +kernel)
    (.tail (.single (.request firstOffer.1 firstOffer.2 firstOffer_committed firstOffer_spares)) (.wait 1800000 hlasts)) calls
    (by decide +kernel) (by decide +kernel)⟩

end MatchingEngine

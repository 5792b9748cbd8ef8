import MatchingEngine.Isolation
import MatchingEngine.PublishedBook
import MatchingEngine.Recovery

/-! The admin commands of `internal_manage` that reset the exchange. They truncate the orders
table, give the test users fixed balances, load the balances into Valkey and delete the book sets
of the three pairs. The order hashes of the deleted orders stay behind until they expire, and the
trades stay in their table; neither can be told from the outside. -/
namespace MatchingEngine
open Library

/-- Both stores, the published books, the order queues and the counter of resets. -/
structure Site where
  sys : System
  cache : OrderbookCache
  queue : String → List QueuedOrderMsg
  resetVersion : Option ℕ

/-- The arguments of a command. -/
structure ManageRequest where
  numUsers : Option ℤ
  users : Option ℤ

namespace Manage

/-- `req.users.or(req.num_users).unwrap_or(100) as i32`. -/
def userCount (req : ManageRequest) : ℤ := Int.bmod ((req.users <|> req.numUsers).getD 100) (2 ^ 32)

/-- An upsert that sets both amounts. -/
def setBalance (pg : Postgres) (userId asset : String) (available : Decimal) : Postgres :=
  { pg with balances := pg.balances.upsert (userId,asset) ⟨available,0⟩ (fun _ => ⟨available,0⟩) }

/-- The two upserts of one user. -/
def fundUser (pg : Postgres) (userId : String) : Postgres :=
  setBalance (setBalance pg userId "BTC" 10) userId "USDT" 1000000

/-- The loop over the users from 1 to `n`. -/
def fundUsers (pg : Postgres) (n : ℤ) : Postgres :=
  (List.range n.toNat).foldl (fun pg i => fundUser pg ("user-" ++ toString (i + 1))) pg

/-- `TRUNCATE orders CASCADE`; since the foreign keys of `trades` were dropped it reaches no other
table. -/
def truncate (pg : Postgres) : Postgres := { pg with orders := Table.empty }

/-- The `DEL` of one pair: both sets, the version, the published book and the order queue. -/
def flushPair (s : Site) (pair : String) : Site where
  sys := { s.sys with db := { s.sys.db with
    book := fun p side => if p = pair then SortedSet.empty else s.sys.db.book p side
    version := Function.update s.sys.db.version pair none } }
  cache := Function.update s.cache pair none
  queue := Function.update s.queue pair []
  resetVersion := s.resetVersion

def flushPairs (s : Site) : Site := sweptPairs.foldl flushPair s

/-- Loading the balances rows into Valkey after the users were funded. -/
def reload (s : Site) (pg : Postgres) : Site := { s with sys := ⟨initBalancesFromPg s.sys.db pg,pg⟩ }

def resetAll (s : Site) (req : ManageRequest) : Site :=
  flushPairs (reload s (fundUsers (truncate s.sys.pg) (userCount req)))

def resetBalances (s : Site) (req : ManageRequest) : Site := reload s (fundUsers s.sys.pg (userCount req))

def sweepStaleOrders (s : Site) : Site := { s with sys := { s.sys with db := s.sys.db.sweepAll } }

def truncateOrders (s : Site) : Site :=
  let s := flushPairs { s with sys := { s.sys with pg := truncate s.sys.pg } }
  { s with resetVersion := some (s.resetVersion.getD 0 + 1) }

/-- The statement of the request leaves the tables `pg`. -/
def execSql (s : Site) (pg : Postgres) : Site := { s with sys := ⟨s.sys.db,pg⟩ }

end Manage

/-- Requests, cancellation messages, waits and admin commands, one after the other. Producers, consumers
and refreshes may do anything to queues and published books, and so may the statements of `exec_sql` and
`query` to the tables, as long as they delete no balance row. -/
inductive Site.Step (pairs : PairsCache) : Site → Site → Prop
  | request {s : Site} (msg : QueuedOrderMsg) (d : Draws) (cache : OrderbookCache) (queue : String → List QueuedOrderMsg) :
      Step pairs s ⟨(Gateway.processOrderDecoded pairs s.sys msg d).2,cache,queue,s.resetVersion⟩
  | cancel {s : Site} (msg : CancelMsg) (cache : OrderbookCache) (queue : String → List QueuedOrderMsg) :
      Step pairs s ⟨(Api.processCancellation s.sys msg).2,cache,queue,s.resetVersion⟩
  | wait {s : Site} (ms : ℕ) (cache : OrderbookCache) (queue : String → List QueuedOrderMsg) :
      Step pairs s ⟨⟨s.sys.db.pass ms,s.sys.pg⟩,cache,queue,s.resetVersion⟩
  | resetAll {s : Site} (req : ManageRequest) : Step pairs s (Manage.resetAll s req)
  | resetBalances {s : Site} (req : ManageRequest) : Step pairs s (Manage.resetBalances s req)
  | sweepStaleOrders {s : Site} : Step pairs s (Manage.sweepStaleOrders s)
  | truncateOrders {s : Site} : Step pairs s (Manage.truncateOrders s)
  | execSql {s : Site} (pg : Postgres) (rows : ∀ k, (s.sys.pg.balances.get k).isSome → (pg.balances.get k).isSome) :
      Step pairs s (Manage.execSql s pg)

/-! ### What the commands do -/

section Funding
variable (pg : Postgres)

lemma Manage.setBalance_get (userId asset : String) (available : Decimal) (k : String × String) :
    (Manage.setBalance pg userId asset available).balances.get k =
      if k = (userId,asset) then some ⟨available,0⟩ else pg.balances.get k := by
  rw [Manage.setBalance, Table.get_upsert]
  split_ifs
  · cases pg.balances.get k <;> rfl
  · rfl

lemma Manage.fundUsers_isSome (n : ℤ) {k : String × String} (h : (pg.balances.get k).isSome) :
    ((Manage.fundUsers pg n).balances.get k).isSome := by
  unfold Manage.fundUsers
  induction List.range n.toNat generalizing pg with
  | nil => exact h
  | cons i is ih =>
    rw [List.foldl_cons]
    refine ih _ ?_
    rw [Manage.fundUser, Manage.setBalance_get, Manage.setBalance_get]
    split_ifs
    · rfl
    · rfl
    · exact h

lemma Manage.fundUsers_tables (n : ℤ) : (Manage.fundUsers pg n).orders = pg.orders ∧ (Manage.fundUsers pg n).trades = pg.trades := by
  unfold Manage.fundUsers
  induction List.range n.toNat generalizing pg with
  | nil => exact ⟨rfl,rfl⟩
  | cons i is ih =>
    rw [List.foldl_cons]
    exact ih _

lemma Manage.fundUsers_get {n : ℤ} {i : ℕ} (hi : (i : ℤ) < n) :
    (Manage.fundUsers pg n).balances.get ("user-" ++ toString (i + 1),"BTC") = some ⟨10,0⟩ ∧
    (Manage.fundUsers pg n).balances.get ("user-" ++ toString (i + 1),"USDT") = some ⟨1000000,0⟩ := by
  have hmem : i ∈ List.range n.toNat := List.mem_range.mpr (by omega)
  unfold Manage.fundUsers
  refine foldl_absorbs (f := fun pg i => Manage.fundUser pg ("user-" ++ toString (i + 1)))
    (P := fun pg i => pg.balances.get ("user-" ++ toString (i + 1),"BTC") = some ⟨10,0⟩ ∧
      pg.balances.get ("user-" ++ toString (i + 1),"USDT") = some ⟨1000000,0⟩) ?_ ?_ (List.range n.toNat) pg i hmem
  · intro pg i
    simp only [Manage.fundUser, Manage.setBalance_get]
    simp
  · rintro pg i j ⟨hbtc,husdt⟩
    simp only [Manage.fundUser, Manage.setBalance_get, hbtc, husdt, Prod.mk.injEq]
    simp

end Funding

lemma Manage.flushPairs_book (s : Site) (pair : String) (side : Side) : (Manage.flushPairs s).sys.db.book pair side =
    if pair ∈ sweptPairs then SortedSet.empty else s.sys.db.book pair side := by
  simp only [Manage.flushPairs, sweptPairs, List.foldl_cons, List.foldl_nil, Manage.flushPair, List.mem_cons, List.not_mem_nil]
  split_ifs <;> simp_all

lemma Manage.flushPairs_frame (s : Site) : (Manage.flushPairs s).sys.pg = s.sys.pg ∧
    (Manage.flushPairs s).sys.db.balance = s.sys.db.balance ∧ (Manage.flushPairs s).sys.db.order = s.sys.db.order :=
  ⟨rfl,rfl,rfl⟩

/-! ### Deployments on the three pairs -/

/-- Only the pairs that the commands know have books, and only balances with a row are cached. -/
structure System.Contained (s : System) : Prop where
  books : ∀ pair, pair ∉ sweptPairs → ∀ side, s.db.book pair side = SortedSet.empty
  balances : ∀ user asset, s.pg.balances.get (user,asset) = none → s.db.balance user asset = ⟨0,0⟩

section Contained
variable {pairs : PairsCache} {s : System}

lemma validateOrder_pair {o : Order} (h : validateOrder pairs o = .ok ()) : (pairs o.pairId).isSome := by
  unfold validateOrder at h
  cases hp : pairs o.pairId with
  | none =>
    rw [hp] at h
    cases h
  | some cfg => rfl

lemma persistOrder_balances_isSome {pg pg' : Postgres} {m : Matched} (h : pg.persistOrder m = .ok pg') (k : String × String) :
    (pg'.balances.get k).isSome = (pg.balances.get k).isSome := by
  obtain ⟨deltas,_,_,_,⟨_,hb⟩ | ⟨_,_,_,_,hb⟩⟩ := Postgres.persistOrder_ok h
  · rw [hb, Table.get_updateFrom, Option.isSome_map]
  · rw [hb, Table.get_isSome_modify, Table.get_updateFrom, Option.isSome_map]

lemma System.Contained.request (hs : s.Contained) (hpairs : ∀ pair, (pairs pair).isSome → pair ∈ sweptPairs)
    (msg : QueuedOrderMsg) (d : Draws) : (Gateway.processOrderDecoded pairs s msg d).2.Contained := by
  rcases Gateway.processOrderDecoded_cases pairs s msg d with he | ⟨o,asset,amount,db₁,hrun⟩
  · rwa [he]
  have hpair : o.pairId ∈ sweptPairs := hpairs _ (validateOrder_pair (acceptOrder_ok hrun.accepted).2)
  obtain ⟨hdb,hpg⟩ := hrun.decoded_stores
  constructor
  · intro pair hout side
    have hne : pair ≠ o.pairId := fun he => hout (he ▸ hpair)
    have hframe := (matchOrderLua_confined s.db o asset amount).frame (k := .book pair side) hne
    have hbook : (matchOrderLua s.db o asset amount).2.book pair side = s.db.book pair side := hframe
    rw [matchOrderLua_of_lock hrun.funded] at hbook
    rw [hdb, Gateway.scriptDb]
    exact hbook.trans (hs.books pair hout side)
  · intro user a hnone
    have hrow : s.pg.balances.get (user,a) = none := by
      rcases hpg with hpg | ⟨m,_,hpg⟩
      · rwa [hpg] at hnone
      · rw [← Option.not_isSome_iff_eq_none, persistOrder_balances_isSome hpg, Option.not_isSome_iff_eq_none] at hnone
        exact hnone
    have hzero := hs.balances user a hrow
    rw [hdb, Gateway.scriptDb, settle_balance, lockBalance_balance hrun.funded, hzero]
    split_ifs with hk
    · -- nothing can be locked where nothing is available
      have hno : ¬ (matchArgs o asset amount).Locks := by
        intro hl
        have hfunds := lockBalance_funded hrun.funded hl
        obtain ⟨rfl,rfl⟩ := hk
        have hpos : 0 < (matchArgs o a amount).lockAmount := hl.2
        rw [show s.db.balance (matchArgs o a amount).userId (matchArgs o a amount).lockAsset = ⟨0,0⟩ from hzero] at hfunds
        exact absurd (hpos.trans_le hfunds) (lt_irrefl _)
      simp [MatchArgs.lockedI, hno]
    · rfl

lemma System.Contained.closed (hs : s.Contained) (id : Uuid) (user : String) (row : Order) :
    (s.closed id user row).Contained := by
  constructor
  · intro pair hout side
    apply SortedSet.ext_mem
    intro e
    have hempty := hs.books pair hout side
    simp only [System.closed, Valkey.removeOrderFromBook, Valkey.dropOrder_book]
    split_ifs with hk
    · obtain ⟨rfl,rfl⟩ := hk
      rw [SortedSet.mem_entries_remove, hempty]
      simp
    · rw [hempty]
  · intro u a hnone
    refine hs.balances u a ?_
    rw [System.closed_balances] at hnone
    split_ifs at hnone
    · exact Option.map_eq_none_iff.mp hnone
    · exact hnone

section MoreRows
variable {pg : Postgres} (hs : s.Contained) (hrows : ∀ k, (s.pg.balances.get k).isSome → (pg.balances.get k).isSome)
include hs hrows

lemma System.Contained.withTables : System.Contained ⟨s.db,pg⟩ := by
  refine ⟨hs.books,fun user asset hnone => hs.balances user asset ?_⟩
  rw [← Option.not_isSome_iff_eq_none]
  intro h
  have hsome := hrows _ h
  rw [hnone] at hsome
  cases hsome

lemma System.Contained.reload : System.Contained ⟨initBalancesFromPg s.db pg,pg⟩ := by
  have htables := hs.withTables hrows
  refine ⟨htables.books,fun user asset hnone => ?_⟩
  simp only [initBalancesFromPg, hnone]
  exact htables.balances user asset hnone

end MoreRows

lemma Manage.flushPairs_contained {s : Site} (hs : s.sys.Contained) : (Manage.flushPairs s).sys.Contained := by
  obtain ⟨hpg,hbal,_⟩ := Manage.flushPairs_frame s
  refine ⟨fun pair hout side => ?_,fun user asset => ?_⟩
  · rw [Manage.flushPairs_book, if_neg hout]
    exact hs.books pair hout side
  · rw [hpg, hbal]
    exact hs.balances user asset

lemma System.Contained.swept (hs : s.Contained) : System.Contained { s with db := s.db.sweepAll } := by
  refine ⟨fun pair hout side => ?_,fun user asset hnone => ?_⟩
  · rw [sweepAll_book, if_neg hout]
    exact hs.books pair hout side
  · rw [sweepAll_eq]
    exact hs.balances user asset hnone

lemma coldStart_contained {pg : Postgres} (hpg : ∀ o ∈ pg.restingOrders, o.pairId ∈ sweptPairs) :
    System.Contained ⟨coldStart Valkey.empty pg,pg⟩ := by
  refine ⟨fun pair hout side => ?_,fun user asset hnone => ?_⟩
  · have hbook : ∀ (os : List Order) (db : Valkey), (∀ o ∈ os, o.pairId ≠ pair) →
        (os.foldl Valkey.saveOrderToBook db).book pair side = db.book pair side := by
      intro os
      induction os with
      | nil => exact fun _ _ => rfl
      | cons o os ih =>
        intro db hne
        rw [List.foldl_cons, ih _ (fun x hx => hne x (by simp [hx]))]
        simp only [Valkey.saveOrderToBook, Valkey.hset_book, Valkey.zadd_book]
        rw [if_neg (fun hk => hne o (by simp) hk.1.symm)]
    exact hbook _ _ (fun o ho he => hout (he ▸ hpg o ho))
  · simp only [coldStart, seedOrderbookFromPg, foldl_save_balance, initBalancesFromPg, hnone]
    rfl

theorem Site.Step.contained (hpairs : ∀ pair, (pairs pair).isSome → pair ∈ sweptPairs) {s s' : Site}
    (h : Site.Step pairs s s') (hs : s.sys.Contained) : s'.sys.Contained := by
  cases h with
  | request msg d cache queue => exact hs.request hpairs msg d
  | cancel msg cache queue => exact processCancellation_invariant (fun s id user row _ h => h.closed id user row) hs msg
  | wait ms cache queue => exact ⟨hs.books,hs.balances⟩
  | resetAll req =>
    exact Manage.flushPairs_contained (s := Manage.reload s _) (hs.reload (fun k => Manage.fundUsers_isSome (Manage.truncate s.sys.pg) _))
  | resetBalances req => exact hs.reload (fun k => Manage.fundUsers_isSome _ _)
  | sweepStaleOrders => exact hs.swept
  | truncateOrders => exact Manage.flushPairs_contained (s := ⟨⟨s.sys.db,_⟩,_,_,_⟩) ⟨hs.books,hs.balances⟩
  | execSql pg hrows => exact hs.withTables hrows

end Contained

/-! ### Resetting -/

lemma coldStart_of_no_orders {pg : Postgres} (h : pg.orders = Table.empty) (db : Valkey) : coldStart db pg = initBalancesFromPg db pg := by
  rw [coldStart, seedOrderbookFromPg, Postgres.restingOrders, h]
  rfl

/-- After any history of a deployment on the three pairs, resetting leaves an exchange that answers every
session as one would that was started on empty stores with the same tables: no order of before is left,
and the hashes that are still there cannot be told. The trades are kept. -/
theorem resetAll_like_new {pairs : PairsCache} (hpairs : ∀ pair, (pairs pair).isSome → pair ∈ sweptPairs) {pg : Postgres}
    (hpg : ∀ o ∈ pg.restingOrders, o.pairId ∈ sweptPairs) {s₀ s : Site} (hstart : s₀.sys = ⟨coldStart Valkey.empty pg,pg⟩)
    (hrun : Relation.ReflTransGen (Site.Step pairs) s₀ s) (req : ManageRequest) :
    (∀ calls, (answers MatcherCall.run (Manage.resetAll s req).sys.db calls).1 =
      (answers MatcherCall.run (coldStart Valkey.empty (Manage.resetAll s req).sys.pg) calls).1) ∧
    (∀ id, (Manage.resetAll s req).sys.pg.orders.get id = none) ∧
    (Manage.resetAll s req).sys.pg.trades = s.sys.pg.trades ∧
    ∀ i : ℕ, (i : ℤ) < Manage.userCount req →
      (Manage.resetAll s req).sys.db.balance ("user-" ++ toString (i + 1)) "BTC" = ⟨10 * 10 ^ 8,0⟩ ∧
      (Manage.resetAll s req).sys.db.balance ("user-" ++ toString (i + 1)) "USDT" = ⟨1000000 * 10 ^ 8,0⟩ := by
  have hs : s.sys.Contained := by
    induction hrun with
    | refl => rw [hstart]; exact coldStart_contained hpg
    | tail _ hstep ih => exact hstep.contained hpairs ih
  have hafter : (Manage.resetAll s req).sys.Contained := Site.Step.contained hpairs (.resetAll req) hs
  obtain ⟨hpg',hbal,_⟩ := Manage.flushPairs_frame (Manage.reload s (Manage.fundUsers (Manage.truncate s.sys.pg) (Manage.userCount req)))
  obtain ⟨horders,htrades⟩ := Manage.fundUsers_tables (Manage.truncate s.sys.pg) (Manage.userCount req)
  have hempty : ∀ pair side, (Manage.resetAll s req).sys.db.book pair side = SortedSet.empty := by
    intro pair side
    rw [Manage.resetAll, Manage.flushPairs_book]
    split_ifs with hk
    · rfl
    · exact hs.books pair hk side
  have hcold : coldStart Valkey.empty (Manage.resetAll s req).sys.pg = initBalancesFromPg Valkey.empty (Manage.resetAll s req).sys.pg :=
    coldStart_of_no_orders horders Valkey.empty
  refine ⟨fun calls => ?_,fun id => ?_,htrades,fun i hi => ?_⟩
  · have hbooks : (Manage.resetAll s req).sys.db.SameBooks (coldStart Valkey.empty (Manage.resetAll s req).sys.pg) := by
      refine ⟨?_,fun pair side id hid => ⟨pair,side,hid⟩,fun id ⟨pair,side,hid⟩ => ?_⟩
      · funext pair side
        rw [hempty, hcold]
        rfl
      · rw [hempty] at hid
        cases hid
    have hbalances : (coldStart Valkey.empty (Manage.resetAll s req).sys.pg).balance = (Manage.resetAll s req).sys.db.balance := by
      funext user asset
      rw [hcold]
      simp only [initBalancesFromPg]
      cases hrow : (Manage.resetAll s req).sys.pg.balances.get (user,asset) with
      | none => exact (hafter.balances user asset hrow).symm
      | some b =>
        rw [Manage.resetAll, hbal]
        rw [Manage.resetAll, hpg'] at hrow
        simp only [Manage.reload, initBalancesFromPg]
        simp only [Manage.reload] at hrow
        rw [hrow]
    exact (MatcherCall.lockstep_funded.answers_eq ⟨hbooks,hbalances⟩ (fun _ _ => trivial) (fun _ _ => trivial)).1
  · rw [Manage.resetAll, hpg', Manage.reload, horders]
    rfl
  · obtain ⟨hbtc,husdt⟩ := Manage.fundUsers_get (Manage.truncate s.sys.pg) hi
    rw [Manage.resetAll, hbal]
    simp only [Manage.reload, initBalancesFromPg, hbtc, husdt]
    exact ⟨by decide +kernel,by decide +kernel⟩

/-- An exchange without orders, and after Alice's offer. -/
def offeredSite : Site × Site :=
  (⟨seededEmpty,fun _ => none,fun _ => [],none⟩,
    ⟨(Gateway.processOrderDecoded btcUsdt seededEmpty firstOffer.1 firstOffer.2).2,fun _ => none,fun _ => [],none⟩)

theorem resetAll_after_offer : 1 ∈ offeredSite.2.sys.db.book "BTC-USDT" .sell ∧
    ∀ calls, (answers MatcherCall.run (Manage.resetAll offeredSite.2 ⟨none,some 2⟩).sys.db calls).1 =
      (answers MatcherCall.run (coldStart Valkey.empty (Manage.resetAll offeredSite.2 ⟨none,some 2⟩).sys.pg) calls).1 := by
  refine ⟨by decide +kernel,(@resetAll_like_new btcUsdt ?_ (tradersPg 0 0) ?_ offeredSite.1 _ rfl
    (.single (.request firstOffer.1 firstOffer.2 _ _)) _).1⟩
  · intro pair h
    simp only [btcUsdt] at h
    split_ifs at h with hpair
    · simp [hpair, sweptPairs]
    · cases h
  · decide +kernel

end MatchingEngine

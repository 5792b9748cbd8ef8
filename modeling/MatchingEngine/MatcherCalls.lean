import MatchingEngine.BalanceLocks
import MatchingEngine.Depth
import MatchingEngine.Reseeding
import MatchingEngine.Library.Lockstep

/-! Sessions with the store. Submissions, locks, removals and snapshots see of a store the books,
the balances and, of the resting orders, the fields that the scripts read. Stores that agree on
these answer every session alike, whatever else they hold: hashes of orders that are in no book,
expiries, versions, and the other fields of a hash. -/
namespace MatchingEngine
open Library

/-- A call of one of the scripts, or a removal. -/
inductive MatcherCall
  | submit (order : Order) (lockAsset : String) (lockAmountScaled : ℤ)
  | lock (userId asset : String) (amountScaled : ℤ)
  | remove (order : Order)
  | snapshot (pair : String) (limit : ℕ)

inductive Answer
  | matched (r : Except String LuaMatchResult)
  | locked (r : Except String Unit)
  | removed
  | levels (bids asks : List (Decimal × Decimal))

/-- The answer of a call and the store after it. -/
def MatcherCall.run (db : Valkey) : MatcherCall → Answer × Valkey
  | .submit o asset amount => (.matched (matchOrderLua db o asset amount).1,(matchOrderLua db o asset amount).2)
  | .lock user asset amount => (.locked (lockBalanceRedis db user asset amount).1,(lockBalanceRedis db user asset amount).2)
  | .remove o => (.removed,db.removeOrderFromBook o)
  | .snapshot pair limit => (.levels (db.orderbookSnapshotLua pair limit).1 (db.orderbookSnapshotLua pair limit).2,db)

/-- Not refused for lack of funds. -/
def Answer.Accepted : Answer → Prop
  | .matched r => r.isOk
  | .locked r => r.isOk
  | _ => True

instance : (r : Answer) → Decidable r.Accepted
  | .matched r => inferInstanceAs (Decidable (r.isOk = true))
  | .locked r => inferInstanceAs (Decidable (r.isOk = true))
  | .removed => inferInstanceAs (Decidable True)
  | .levels _ _ => inferInstanceAs (Decidable True)

/-- The same books, whose members are all watched, and hashes that look alike to the scripts for
the watched ids. -/
structure Valkey.SameOn (W : Set Uuid) (db db' : Valkey) : Prop where
  book : db'.book = db.book
  listed : ∀ pair side, ∀ id ∈ db.book pair side, id ∈ W
  order : ∀ id ∈ W, (db'.order id).map OrderHash.matcherFields = (db.order id).map OrderHash.matcherFields

/-- The ids in some book. -/
def Valkey.listedIds (db : Valkey) : Set Uuid := {id | ∃ pair side, id ∈ db.book pair side}

/-- The same books, of orders that look alike to the scripts. -/
def Valkey.SameBooks (db db' : Valkey) : Prop := db.SameOn db.listedIds db'

namespace Valkey.SameOn
variable {W : Set Uuid} {db db' : Valkey}

lemma sameBooks (h : db.SameOn W db') : db.SameBooks db' :=
  ⟨h.book,fun pair side _ hid => ⟨pair,side,hid⟩,fun id ⟨pair,side,hid⟩ => h.order id (h.listed pair side id hid)⟩

lemma dropOrder (h : db.SameOn W db') (pair : String) (side : Side) (id : Uuid) :
    (db.dropOrder pair side id).SameOn W (db'.dropOrder pair side id) := by
  refine ⟨?_,fun p s x hx => h.listed p s x ?_,fun x hx => ?_⟩
  · funext p s
    rw [Valkey.dropOrder_book, Valkey.dropOrder_book, h.book]
  · rw [Valkey.dropOrder_book] at hx
    split_ifs at hx
    · exact (SortedSet.mem_remove.mp hx).1
    · exact hx
  · rw [Valkey.dropOrder_order, Valkey.dropOrder_order]
    split_ifs
    · rfl
    · exact h.order x hx

lemma hset (h : db.SameOn W db') (id : Uuid) {w w' : OrderHash} (hw : w'.matcherFields = w.matcherFields) :
    (db.hset id w).SameOn W (db'.hset id w') := by
  refine ⟨h.book,h.listed,fun x hx => ?_⟩
  rw [Valkey.hset_order, Valkey.hset_order]
  split_ifs
  · rw [Option.map_some, Option.map_some, hw]
  · exact h.order x hx

lemma moveToLocked (h : db.SameOn W db') (user asset : String) (amount : ℤ) :
    (db.moveToLocked user asset amount).SameOn W (db'.moveToLocked user asset amount) := ⟨h.book,h.listed,h.order⟩

lemma incrVersion (h : db.SameOn W db') (pair : String) : (db.incrVersion pair).SameOn W (db'.incrVersion pair) :=
  ⟨h.book,h.listed,h.order⟩

lemma placeResting (h : db.SameOn W db') (a : MatchArgs) (rem : ℤ) (status : OrderStatus) :
    (placeResting a db rem status).SameOn (insert a.orderId W) (placeResting a db' rem status) := by
  refine ⟨?_,fun p s x hx => ?_,fun x hx => ?_⟩
  · funext p s
    simp only [MatchingEngine.placeResting, Valkey.expire_book, Valkey.hset_book, Valkey.zadd_book, h.book]
  · simp only [MatchingEngine.placeResting, Valkey.expire_book, Valkey.hset_book, Valkey.zadd_book] at hx
    split_ifs at hx
    · rcases SortedSet.mem_add.mp hx with rfl | hx
      · exact Set.mem_insert _ _
      · exact Set.mem_insert_of_mem _ (h.listed p s x hx)
    · exact Set.mem_insert_of_mem _ (h.listed p s x hx)
  · rw [placeResting_order, placeResting_order]
    split_ifs with hid
    · rfl
    · exact h.order x (Set.mem_of_mem_insert_of_ne hx hid)

end Valkey.SameOn

/-! ### The loop -/

/-- The local variables of two runs of the loop that have done the same so far. -/
structure MatchState.SameOn (W : Set Uuid) (s s' : MatchState) : Prop where
  db : s.db.SameOn W s'.db
  remainingI : s'.remainingI = s.remainingI
  status : s'.status = s.status
  trades : s'.trades = s.trades
  matchBreak : s'.matchBreak = s.matchBreak

section Loop
variable {W : Set Uuid} {a : MatchArgs}

lemma getD_missing_fields {W : Set Uuid} {db db' : Valkey} (h : db.SameOn W db') {rid : Uuid} (hid : rid ∈ W) :
    ((db'.order rid).getD (.missing rid)).matcherFields = ((db.order rid).getD (.missing rid)).matcherFields := by
  have hf := h.order rid hid
  cases hr : db.order rid <;> cases hr' : db'.order rid <;> simp_all

lemma matchStep_same {s s' : MatchState} (h : s.SameOn W s') {rid : Uuid} (hid : rid ∈ W) :
    (matchStep a s rid).SameOn W (matchStep a s' rid) := by
  have hf := getD_missing_fields h.db hid
  obtain ⟨hdb,hrem,hst,htr,hbr⟩ := h
  unfold matchStep
  set r := (s.db.order rid).getD (.missing rid)
  set r' := (s'.db.order rid).getD (.missing rid)
  simp only [OrderHash.matcherFields, Prod.mk.injEq] at hf
  obtain ⟨hprice,hremI,huser,hstp,hstatus,htype⟩ := hf
  have hconsumed : r'.Consumed ↔ r.Consumed := by simp only [OrderHash.Consumed, hstatus, hremI]
  have hcross : a.Crosses r' ↔ a.Crosses r := by simp only [MatchArgs.Crosses, hprice]
  have haction : a.stpAction r' = a.stpAction r := by simp only [MatchArgs.stpAction, huser, hstp]
  have hfill : ∀ n, MatchArgs.fillI n r' = MatchArgs.fillI n r := fun n => by simp only [MatchArgs.fillI, hremI]
  have htrade : ∀ q, a.trade r' rid q = a.trade r rid q := fun q => by
    simp only [MatchArgs.trade, htype, hprice, huser]
  simp only [hconsumed, hcross, haction]
  split_ifs
  · exact ⟨hdb,hrem,hst,htr,hbr⟩
  · cases a.stpAction r with
    | cancelMaker => exact ⟨hdb.dropOrder _ _ _,hrem,hst,htr,hbr⟩
    | cancelTaker => exact ⟨hdb,rfl,rfl,htr,rfl⟩
    | cancelBoth => exact ⟨hdb.dropOrder _ _ _,rfl,rfl,htr,rfl⟩
    | none =>
      refine ⟨?_,by simp only [hrem, hfill],hst,by simp only [htr, htrade, hrem, hfill],hbr⟩
      simp only [writeFill, hrem, hfill, hremI]
      split_ifs
      · exact hdb.dropOrder _ _ _
      · refine hdb.hset rid ?_
        simp only [OrderHash.matcherFields, hprice, huser, hstp, htype]
  · exact ⟨hdb,hrem,hst,htr,rfl⟩

lemma matchLoop_same {ids : List Uuid} (hids : ∀ id ∈ ids, id ∈ W) {s s' : MatchState} (h : s.SameOn W s') :
    (matchLoop a ids s).SameOn W (matchLoop a ids s') := by
  induction ids generalizing s s' with
  | nil => exact h
  | cons rid rest ih =>
    simp only [matchLoop, h.remainingI, h.matchBreak]
    split_ifs
    · exact h
    · exact ih (fun x hx => hids x (by simp [hx])) (matchStep_same h (hids rid (by simp)))

end Loop

/-! ### Calls -/

section Calls
variable {W : Set Uuid} {db db' : Valkey}

/-- Whichever way the lock ends, if it ends the same way in both stores the call gives the same
reply and leaves stores that are still alike. -/
lemma matchOrderScript_same (h : db.SameOn W db') {a : MatchArgs} {db₁ db₁' : Valkey}
    (hl : lockBalance db a = some db₁) (hl' : lockBalance db' a = some db₁') :
    (matchOrderScript db' a).1 = (matchOrderScript db a).1 ∧
      (matchOrderScript db a).2.SameBooks (matchOrderScript db' a).2 := by
  have hlock : db₁.SameOn W db₁' := by
    obtain ⟨ho,hb,_⟩ := lockBalance_frame hl
    obtain ⟨ho',hb',_⟩ := lockBalance_frame hl'
    exact ⟨by rw [hb, hb', h.book],by rw [hb]; exact h.listed,by rw [ho, ho']; exact h.order⟩
  have hcand : candidates db₁' a = candidates db₁ a := by simp only [candidates, hlock.book]
  have hmem : ∀ id ∈ candidates db₁ a, id ∈ W := by
    intro id hid
    obtain ⟨e,he,_,hm⟩ := SortedSet.mem_rangeByScore.mp (List.mem_of_mem_take hid)
    exact hlock.listed _ _ id (SortedSet.mem_iff.mpr ⟨e,he,hm⟩)
  have hstart : MatchState.SameOn W ⟨db₁,a.qtyI,.new,[],false⟩ ⟨db₁',a.qtyI,.new,[],false⟩ := ⟨hlock,rfl,rfl,rfl,rfl⟩
  have hloop := matchLoop_same (a := a) hmem hstart
  simp only [matchOrderScript, hl, hl', hcand, hloop.remainingI, hloop.status, hloop.trades, true_and]
  unfold applyGtc
  split_ifs
  · exact ((hloop.db.placeResting a _ _).incrVersion a.pairId).sameBooks
  · exact (hloop.db.incrVersion a.pairId).sameBooks

lemma matchOrderLua_same (h : db.SameBooks db') {o : Order} {asset : String} {amount : ℤ} {db₁ db₁' : Valkey}
    (hl : lockBalance db (matchArgs o asset amount) = some db₁) (hl' : lockBalance db' (matchArgs o asset amount) = some db₁') :
    (matchOrderLua db o asset amount).1 = (matchOrderLua db' o asset amount).1 ∧
      (matchOrderLua db o asset amount).2.SameBooks (matchOrderLua db' o asset amount).2 := by
  obtain ⟨hreply,hdb⟩ := matchOrderScript_same h hl hl'
  simp only [matchOrderLua]
  rcases hs : matchOrderScript db (matchArgs o asset amount) with ⟨_ | _,_⟩ <;>
    rcases hs' : matchOrderScript db' (matchArgs o asset amount) with ⟨_ | _,_⟩ <;> simp_all

/-- A snapshot shows the watched orders through their prices and remainders only. -/
lemma orderbookSnapshotLua_same (h : db.SameOn W db') (pair : String) (limit : ℕ) :
    db'.orderbookSnapshotLua pair limit = db.orderbookSnapshotLua pair limit := by
  have hside : ∀ side, db'.aggregateSide pair side limit = db.aggregateSide pair side limit := by
    intro side
    have hfields : ∀ d : Valkey, (((((d.book pair side).rangeByScore none).take limit).filterMap d.order).filter
        (fun h => 0 < h.remainingI)).map (fun h => (luaToString h.priceI,h.remainingI)) =
        ((((((d.book pair side).rangeByScore none).take limit).filterMap d.order).map OrderHash.matcherFields).filter
          (fun f => 0 < f.2.1)).map (fun f => (luaToString f.1,f.2.1)) := by
      intro d
      rw [List.filter_map, List.map_map]
      rfl
    have hids : ∀ id ∈ ((db.book pair side).rangeByScore none).take limit, id ∈ W := by
      intro id hid
      obtain ⟨e,he,_,hm⟩ := SortedSet.mem_rangeByScore.mp (List.mem_of_mem_take hid)
      exact h.listed pair side id (SortedSet.mem_iff.mpr ⟨e,he,hm⟩)
    simp only [Valkey.aggregateSide]
    rw [hfields, hfields, h.book, List.map_filterMap, List.map_filterMap]
    congr 3
    exact List.filterMap_congr (fun id hid => h.order id (hids id hid))
  simp only [Valkey.orderbookSnapshotLua, Valkey.orderbookSnapshotTexts, hside]

lemma lockBalance_of_accepted {o : Order} {asset : String} {amount : ℤ}
    (h : (MatcherCall.run db (.submit o asset amount)).1.Accepted) :
    ∃ db₁, lockBalance db (matchArgs o asset amount) = some db₁ := by
  cases hl : lockBalance db (matchArgs o asset amount) with
  | none =>
    simp only [MatcherCall.run, Answer.Accepted, matchOrderLua, matchOrderScript, hl] at h
    cases h
  | some db₁ => exact ⟨db₁,rfl⟩

lemma lockBalanceRedis_of_accepted {user asset : String} {amount : ℤ}
    (h : (MatcherCall.run db (.lock user asset amount)).1.Accepted) :
    lockBalanceRedis db user asset amount = (.ok (),db.moveToLocked user asset amount) := by
  simp only [MatcherCall.run, Answer.Accepted, lockBalanceRedis] at h ⊢
  split_ifs at h ⊢ with hfunds
  · cases h
  · rfl

/-- Stores with the same books answer every accepted call alike and go on having the same books. -/
theorem MatcherCall.lockstep : Lockstep MatcherCall.run MatcherCall.run Answer.Accepted Valkey.SameBooks := by
  have hstep : ∀ db db' c, db.SameBooks db' → (MatcherCall.run db c).1.Accepted → (MatcherCall.run db' c).1.Accepted →
      (MatcherCall.run db c).1 = (MatcherCall.run db' c).1 ∧ (MatcherCall.run db c).2.SameBooks (MatcherCall.run db' c).2 := by
    intro db db' c h hok hok'
    cases c with
    | submit o asset amount =>
      obtain ⟨db₁,hl⟩ := lockBalance_of_accepted hok
      obtain ⟨db₁',hl'⟩ := lockBalance_of_accepted hok'
      obtain ⟨hreply,hdb⟩ := matchOrderLua_same h hl hl'
      exact ⟨congrArg Answer.matched hreply,hdb⟩
    | lock user asset amount =>
      simp only [MatcherCall.run, lockBalanceRedis_of_accepted hok, lockBalanceRedis_of_accepted hok', true_and]
      exact (h.moveToLocked user asset amount).sameBooks
    | remove o => exact ⟨rfl,(h.dropOrder o.pairId o.side o.id).sameBooks⟩
    | snapshot pair limit =>
      refine ⟨?_,h⟩
      simp only [MatcherCall.run, orderbookSnapshotLua_same h]
  exact ⟨fun db db' c h hok hok' => (hstep db db' c h hok hok').1,fun db db' c h hok hok' => (hstep db db' c h hok hok').2⟩

/-- With the same balances too, refusals are alike as well. -/
theorem MatcherCall.lockstep_funded : Lockstep MatcherCall.run MatcherCall.run (fun _ => True)
    (fun db db' => db.SameBooks db' ∧ db'.balance = db.balance) := by
  have hstep : ∀ db db' c, db.SameBooks db' ∧ db'.balance = db.balance →
      (MatcherCall.run db c).1 = (MatcherCall.run db' c).1 ∧ (MatcherCall.run db c).2.SameBooks (MatcherCall.run db' c).2 ∧
        (MatcherCall.run db' c).2.balance = (MatcherCall.run db c).2.balance := by
    rintro db db' c ⟨h,hb⟩
    cases c with
    | submit o asset amount =>
      cases hl : lockBalance db (matchArgs o asset amount) with
      | none =>
        have hl' : lockBalance db' (matchArgs o asset amount) = none := by
          simp only [lockBalance, hb] at hl ⊢
          split_ifs at hl ⊢
          rfl
        simp only [MatcherCall.run, matchOrderLua, matchOrderScript, hl, hl', true_and]
        exact ⟨h,hb⟩
      | some db₁ =>
        obtain ⟨db₁',hl',hb₁⟩ : ∃ db₁', lockBalance db' (matchArgs o asset amount) = some db₁' ∧ db₁'.balance = db₁.balance := by
          simp only [lockBalance, hb] at hl ⊢
          split_ifs at hl ⊢
          · cases hl
            exact ⟨_,rfl,by simp only [Valkey.moveToLocked, hb]⟩
          · cases hl
            exact ⟨_,rfl,hb⟩
        obtain ⟨hreply,hdb⟩ := matchOrderLua_same h hl hl'
        refine ⟨congrArg Answer.matched hreply,hdb,?_⟩
        simp only [MatcherCall.run, matchOrderLua_of_lock hl, matchOrderLua_of_lock hl', settle_balance, hb₁]
    | lock user asset amount =>
      simp only [MatcherCall.run, lockBalanceRedis, hb]
      split_ifs
      · exact ⟨rfl,h,hb⟩
      · exact ⟨rfl,(h.moveToLocked user asset amount).sameBooks,by simp only [Valkey.moveToLocked, hb]⟩
    | remove o => exact ⟨rfl,(h.dropOrder o.pairId o.side o.id).sameBooks,hb⟩
    | snapshot pair limit =>
      refine ⟨?_,h,hb⟩
      simp only [MatcherCall.run, orderbookSnapshotLua_same h]
  exact ⟨fun db db' c h _ _ => (hstep db db' c h).1,fun db db' c h _ _ => (hstep db db' c h).2⟩

end Calls

end MatchingEngine

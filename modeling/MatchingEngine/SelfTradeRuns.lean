import MatchingEngine.BookInvariant

/-! Self-trade prevention along arbitrary runs of `match_order_lua`. The match loop is taken
at the instant it comes to a candidate; what it does there is followed through the rest of the
loop, the time-in-force rules and the reply. Ids need not be fresh. -/
namespace MatchingEngine
open Library

/-! ### The loop, candidate by candidate -/

lemma matchLoop_append (a : MatchArgs) (ids ids' : List Uuid) (s : MatchState) :
    matchLoop a (ids ++ ids') s = matchLoop a ids' (matchLoop a ids s) := by
  induction ids generalizing s with
  | nil => rfl
  | cons id ids ih =>
    by_cases h : s.remainingI ≤ 0 ∨ s.matchBreak
    · rw [matchLoop_stopped a _ h, matchLoop_stopped a _ h, matchLoop_stopped a _ h]
    · rw [List.cons_append, matchLoop, if_neg h, matchLoop, if_neg h, ih]

namespace Valkey
variable (db : Valkey) (pair : String) (side : Side) {id rid : Uuid}

lemma dropOrder_comm : (db.dropOrder pair side rid).dropOrder pair side id =
    (db.dropOrder pair side id).dropOrder pair side rid := by
  apply Valkey.ext
  · funext p s
    simp only [dropOrder_book]
    split_ifs
    · apply SortedSet.ext
      simp only [SortedSet.remove, List.filter_filter, Bool.and_comm]
    · rfl
  · funext x
    simp only [dropOrder_order]
    split_ifs <;> rfl
  · funext x
    simp only [dropOrder, del, zrem, Function.update_apply]
    split_ifs <;> rfl
  · rfl
  · rfl

lemma dropOrder_hset (h : id ≠ rid) (w : OrderHash) :
    (db.dropOrder pair side rid).hset id w = (db.hset id w).dropOrder pair side rid := by
  apply Valkey.ext
  · rfl
  · funext x
    simp only [hset_order, dropOrder_order]
    split_ifs with h₁ h₂
    · exact absurd (h₁.symm.trans h₂) h
    all_goals rfl
  all_goals rfl

end Valkey

section Drops
variable {a : MatchArgs} {s : MatchState} {id rid : Uuid}

/-- The state with one resting order taken out of the book. -/
def MatchState.drop (a : MatchArgs) (s : MatchState) (rid : Uuid) : MatchState :=
  { s with db := s.db.dropOrder a.pairId a.side.opposite rid }

lemma matchStep_drop (h : id ≠ rid) : matchStep a (s.drop a rid) id = (matchStep a s id).drop a rid := by
  have horder : (s.drop a rid).db.order id = s.db.order id := by simp [MatchState.drop, h]
  have hwrite : ∀ (w : OrderHash) (q : ℤ), writeFill a (s.drop a rid).db id w q =
      (writeFill a s.db id w q).dropOrder a.pairId a.side.opposite rid := by
    intro w q
    unfold writeFill
    split_ifs
    · exact Valkey.dropOrder_comm s.db a.pairId a.side.opposite
    · exact Valkey.dropOrder_hset s.db a.pairId a.side.opposite h _
  simp only [matchStep, horder]
  by_cases hc : ((s.db.order id).getD (.missing id)).Consumed
  · rw [if_pos hc, if_pos hc]
  rw [if_neg hc, if_neg hc]
  by_cases hx : a.Crosses ((s.db.order id).getD (.missing id))
  · rw [if_neg (not_not.mpr hx), if_neg (not_not.mpr hx)]
    cases a.stpAction ((s.db.order id).getD (.missing id)) with
    | none =>
      simp only [hwrite]
      rfl
    | cancelMaker =>
      simp only [MatchState.drop]
      rw [Valkey.dropOrder_comm]
    | cancelTaker => rfl
    | cancelBoth =>
      simp only [MatchState.drop]
      rw [Valkey.dropOrder_comm]
  · rw [if_pos hx, if_pos hx]
    rfl

lemma matchLoop_drop {ids : List Uuid} (h : rid ∉ ids) :
    matchLoop a ids (s.drop a rid) = (matchLoop a ids s).drop a rid := by
  induction ids generalizing s with
  | nil => rfl
  | cons id ids ih =>
    by_cases hstop : s.remainingI ≤ 0 ∨ s.matchBreak
    · have hstop' : (s.drop a rid).remainingI ≤ 0 ∨ (s.drop a rid).matchBreak := hstop
      rw [matchLoop_stopped a _ hstop, matchLoop_stopped a _ hstop']
    · have hstop' : ¬ ((s.drop a rid).remainingI ≤ 0 ∨ (s.drop a rid).matchBreak) := hstop
      have hne : id ≠ rid := fun he => h (by simp [he])
      rw [matchLoop, if_neg hstop', matchStep_drop hne, ih (fun hm => h (by simp [hm])), matchLoop, if_neg hstop]

lemma matchStep_db (a : MatchArgs) (s : MatchState) (id : Uuid) : (matchStep a s id).db = s.db ∨
    (matchStep a s id).db = s.db.dropOrder a.pairId a.side.opposite id ∨ ∃ w, (matchStep a s id).db = s.db.hset id w := by
  simp only [matchStep]
  split_ifs
  · exact .inl rfl
  · cases a.stpAction ((s.db.order id).getD (.missing id)) with
    | none =>
      simp only [writeFill]
      split_ifs
      · exact .inr (.inl rfl)
      · exact .inr (.inr ⟨_,rfl⟩)
    | cancelMaker => exact .inr (.inl rfl)
    | cancelTaker => exact .inl rfl
    | cancelBoth => exact .inr (.inl rfl)
  · exact .inl rfl

lemma matchStep_frame (h : id ≠ rid) : (matchStep a s id).db.order rid = s.db.order rid ∧
    ∀ pair side e, e.member = rid →
      (e ∈ ((matchStep a s id).db.book pair side).entries ↔ e ∈ (s.db.book pair side).entries) := by
  rcases matchStep_db a s id with hdb | hdb | ⟨w,hdb⟩ <;> rw [hdb]
  · exact ⟨rfl,fun _ _ _ _ => Iff.rfl⟩
  · refine ⟨by simp [h.symm],fun pair side e he => ?_⟩
    rw [Valkey.dropOrder_book]
    split_ifs
    · rw [SortedSet.mem_entries_remove, he]
      exact and_iff_left h.symm
    · rfl
  · exact ⟨by simp [h.symm],fun _ _ _ _ => Iff.rfl⟩

lemma matchLoop_frame {ids : List Uuid} (h : rid ∉ ids) : (matchLoop a ids s).db.order rid = s.db.order rid ∧
    ∀ pair side e, e.member = rid →
      (e ∈ ((matchLoop a ids s).db.book pair side).entries ↔ e ∈ (s.db.book pair side).entries) := by
  induction ids generalizing s with
  | nil => exact ⟨rfl,fun _ _ _ _ => Iff.rfl⟩
  | cons id ids ih =>
    rw [matchLoop]
    split_ifs
    · exact ⟨rfl,fun _ _ _ _ => Iff.rfl⟩
    · have hne : id ≠ rid := fun he => h (by simp [he])
      obtain ⟨ho,hb⟩ := ih (s := matchStep a s id) (fun hm => h (by simp [hm]))
      obtain ⟨ho',hb'⟩ := matchStep_frame (a := a) (s := s) hne
      exact ⟨ho.trans ho',fun pair side e he => (hb pair side e he).trans (hb' pair side e he)⟩

end Drops

section Additions
variable {a : MatchArgs} {s : MatchState} {x : Uuid}

lemma matchStep_order_none (h : s.db.order x = none) (id : Uuid) : (matchStep a s id).db.order x = none := by
  by_cases hid : id = x
  · subst hid
    simp [matchStep, h, OrderHash.Consumed, OrderHash.missing]
  · rw [(matchStep_frame hid).1, h]

lemma matchStep_entries (id : Uuid) {pair : String} {side : Side} {e : Entry ℤ Uuid}
    (he : e ∈ ((matchStep a s id).db.book pair side).entries) : e ∈ (s.db.book pair side).entries := by
  rcases matchStep_db a s id with hdb | hdb | ⟨w,hdb⟩ <;> rw [hdb] at he
  · exact he
  · rw [Valkey.dropOrder_book] at he
    split_ifs at he
    · exact (SortedSet.mem_entries_remove.mp he).1
    · exact he
  · exact he

lemma matchLoop_adds_nothing (ids : List Uuid) (s : MatchState) :
    (∀ x, s.db.order x = none → (matchLoop a ids s).db.order x = none) ∧
    ∀ pair side, ∀ e ∈ ((matchLoop a ids s).db.book pair side).entries, e ∈ (s.db.book pair side).entries := by
  induction ids generalizing s with
  | nil => exact ⟨fun _ h => h,fun _ _ _ h => h⟩
  | cons id ids ih =>
    rw [matchLoop]
    split_ifs
    · exact ⟨fun _ h => h,fun _ _ _ h => h⟩
    · obtain ⟨ho,hb⟩ := ih (matchStep a s id)
      exact ⟨fun x h => ho x (matchStep_order_none h id),fun pair side e he => matchStep_entries id (hb pair side e he)⟩

end Additions

/-! ### Coming to an order -/

/-- The local variables after some of the candidates. -/
def MatchArgs.loopOn (a : MatchArgs) (db : Valkey) (ids : List Uuid) : MatchState :=
  matchLoop a ids ⟨db,a.qtyI,.new,[],false⟩

/-- The loop, still running after `pre`, comes to a live order within the price. -/
structure MatchArgs.ComesTo (a : MatchArgs) (db : Valkey) (pre : List Uuid) (rid : Uuid) (post : List Uuid)
    (h : OrderHash) : Prop where
  fetched : candidates db a = pre ++ rid :: post
  running : ¬ ((a.loopOn db pre).remainingI ≤ 0 ∨ (a.loopOn db pre).matchBreak)
  found : (a.loopOn db pre).db.order rid = some h
  live : ¬ h.Consumed
  crosses : a.Crosses h

lemma notMem_of_candidates {a : MatchArgs} {db : Valkey} {pre post : List Uuid} {rid : Uuid}
    (h : candidates db a = pre ++ rid :: post) : rid ∉ pre ∧ rid ∉ post := by
  have hn := candidates_nodup db a
  rw [h, List.nodup_append, List.nodup_cons] at hn
  exact ⟨fun hm => hn.2.2 rid hm rid (by simp) rfl,hn.2.1.1⟩

namespace MatchArgs.ComesTo
variable {a : MatchArgs} {db : Valkey} {pre post : List Uuid} {rid : Uuid} {h : OrderHash}
  (hc : a.ComesTo db pre rid post h)
include hc

lemma notMem : rid ∉ pre ∧ rid ∉ post := notMem_of_candidates hc.fetched

lemma loopOn_eq : a.loopOn db (candidates db a) = matchLoop a post (matchStep a (a.loopOn db pre) rid) := by
  rw [hc.fetched, loopOn, matchLoop_append, ← loopOn, matchLoop, if_neg hc.running]

lemma step_eq : matchStep a (a.loopOn db pre) rid = match a.stpAction h with
    | .cancelMaker => (a.loopOn db pre).drop a rid
    | .cancelTaker => { a.loopOn db pre with status := .cancelled, remainingI := 0, matchBreak := true }
    | .cancelBoth =>
      { (a.loopOn db pre).drop a rid with status := .cancelled, remainingI := 0, matchBreak := true }
    | .none => matchStep a (a.loopOn db pre) rid := by
  cases hs : a.stpAction h <;>
    simp only [matchStep, hc.found, Option.getD_some, if_neg hc.live, if_neg (not_not.mpr hc.crosses), hs] <;> rfl

lemma loopOn_of_cancelMaker (hs : a.stpAction h = .cancelMaker) :
    a.loopOn db (candidates db a) = (a.loopOn db (pre ++ post)).drop a rid := by
  have hstep := hc.step_eq
  rw [hs] at hstep
  rw [hc.loopOn_eq, hstep, matchLoop_drop hc.notMem.2, loopOn, loopOn, matchLoop_append]

lemma loopOn_of_cancelTaker (hs : a.stpAction h = .cancelTaker) : a.loopOn db (candidates db a) =
    { a.loopOn db pre with status := .cancelled, remainingI := 0, matchBreak := true } := by
  have hstep := hc.step_eq
  rw [hs] at hstep
  rw [hc.loopOn_eq, hstep, matchLoop_stopped a _ (.inr rfl)]

lemma loopOn_of_cancelBoth (hs : a.stpAction h = .cancelBoth) : a.loopOn db (candidates db a) =
    { (a.loopOn db pre).drop a rid with status := .cancelled, remainingI := 0, matchBreak := true } := by
  have hstep := hc.step_eq
  rw [hs] at hstep
  rw [hc.loopOn_eq, hstep, matchLoop_stopped a _ (.inr rfl)]

end MatchArgs.ComesTo

lemma matchOrderScript_loopOn {db db₁ : Valkey} {a : MatchArgs} (hl : lockBalance db a = some db₁) :
    let s := a.loopOn db₁ (candidates db₁ a)
    let status := iocStatus a.tif s.remainingI (fillStatus a.qtyI s.remainingI s.status)
    matchOrderScript db a = (.ok s.remainingI status s.trades,
      (applyGtc a s.db s.remainingI status).incrVersion a.pairId) := by
  simp only [matchOrderScript, hl]
  rfl

lemma matchOrderScript_of_cancelled {db db₁ : Valkey} {a : MatchArgs} (hl : lockBalance db a = some db₁)
    (hstatus : (a.loopOn db₁ (candidates db₁ a)).status = .cancelled)
    (hrem : (a.loopOn db₁ (candidates db₁ a)).remainingI = 0) :
    matchOrderScript db a = (.ok 0 .cancelled (a.loopOn db₁ (candidates db₁ a)).trades,
      (a.loopOn db₁ (candidates db₁ a)).db.incrVersion a.pairId) := by
  rw [matchOrderScript_loopOn hl]
  simp [hstatus, hrem, fillStatus, iocStatus, applyGtc]

/-! ### Runs -/

/-- One `match_order_lua` call, with any order. -/
inductive Exchange.Call : Exchange → Exchange → Prop
  | submit {s : Exchange} (o : Order) (lockAsset : String) (lockAmountScaled : ℤ) :
      Call s (s.submit o lockAsset lockAmountScaled)

lemma Exchange.sourced_of_run {db₀ : Valkey} (h₀ : db₀.EmptyBook) {s : Exchange}
    (hrun : Relation.ReflTransGen Exchange.Call ⟨db₀,[],[]⟩ s) : s.Sourced := by
  induction hrun with
  | refl =>
    intro id h ho
    rw [h₀.2 id] at ho
    cases ho
  | tail _ hcall ih =>
    cases hcall with
    | submit o asset amount => exact ih.submit o asset amount

/-- The mode that decides between an incoming and a resting order of one user. -/
def effectiveStp (o : Order) (h : OrderHash) : SelfTradePreventionMode :=
  if o.stpMode = .none then h.stp else o.stpMode

/-- The incoming order is reported cancelled and nothing of it is put into the book. -/
structure CancelledOut (o : Order) (db : Valkey) (r : LuaMatchResult) (db' : Valkey) : Prop where
  status : r.status = .cancelled
  hash : db.order o.id = none → db'.order o.id = none
  entries : ∀ pair side, ∀ e ∈ (db'.book pair side).entries, e ∈ (db.book pair side).entries

/-- The hash and the set entries of an order are as before. -/
def Valkey.SameOrder (db db' : Valkey) (id : Uuid) : Prop := db'.order id = db.order id ∧
  ∀ pair side e, e.member = id → (e ∈ (db'.book pair side).entries ↔ e ∈ (db.book pair side).entries)

/-- Neither the hash nor a member of the set is left. -/
def Valkey.Gone (db : Valkey) (pair : String) (side : Side) (id : Uuid) : Prop :=
  db.order id = none ∧ id ∉ db.book pair side

lemma Valkey.dropOrder_gone (db : Valkey) (pair : String) (side : Side) (id : Uuid) :
    (db.dropOrder pair side id).Gone pair side id := by
  refine ⟨by simp,fun hm => ?_⟩
  rw [Valkey.dropOrder_book, if_pos ⟨rfl,rfl⟩] at hm
  exact (SortedSet.mem_remove.mp hm).2 rfl

lemma Valkey.Gone.applyGtc {db : Valkey} {pair : String} {side : Side} {id : Uuid} (h : db.Gone pair side id)
    {a : MatchArgs} (hne : id ≠ a.orderId) (rem : ℤ) (status : OrderStatus) :
    ((applyGtc a db rem status).incrVersion a.pairId).Gone pair side id := by
  unfold MatchingEngine.applyGtc
  split_ifs
  · refine ⟨by simpa [placeResting, hne] using h.1,fun hm => h.2 ?_⟩
    simp only [placeResting, Valkey.incrVersion_book, Valkey.expire_book, Valkey.hset_book, Valkey.zadd_book] at hm
    split_ifs at hm
    · exact (SortedSet.mem_add.mp hm).resolve_left hne
    · exact hm
  · exact h

/-- What a call with reply `r` and final store `db'` does about an own order `rid`, which its
loop comes to after `pre` with the candidates `post` still to go. -/
structure StpHandled (a : MatchArgs) (o : Order) (db db₁ : Valkey) (r : LuaMatchResult) (db' : Valkey) (pre : List Uuid)
    (rid : Uuid) (post : List Uuid) (mode : SelfTradePreventionMode) : Prop where
  /-- The loop ends as it would without the order, except that the order is removed. -/
  cancelMaker : mode = .cancelMaker → a.loopOn db₁ (candidates db₁ a) = (a.loopOn db₁ (pre ++ post)).drop a rid ∧
    (rid ≠ o.id → db'.Gone o.pairId o.side.opposite rid)
  /-- Nothing trades after the order, which stays as it was. -/
  cancelTaker : mode = .cancelTaker → CancelledOut o db r db' ∧ db.SameOrder db' rid ∧
    r.trades = (a.loopOn db₁ pre).trades.map ScriptTrade.toLuaTrade
  /-- Nothing trades after the order, which is removed. -/
  cancelBoth : mode = .cancelBoth → CancelledOut o db r db' ∧ db'.Gone o.pairId o.side.opposite rid ∧
    r.trades = (a.loopOn db₁ pre).trades.map ScriptTrade.toLuaTrade

section Calls
variable {o : Order} {asset : String} {amount : ℤ}

lemma stpAction_of_same_user {h : OrderHash} (hu : h.userId = o.userId) :
    (matchArgs o asset amount).stpAction h = effectiveStp o h :=
  if_pos hu.symm

lemma trade_same_user {db db' : Valkey} {r : LuaMatchResult} (hcall : matchOrderLua db o asset amount = (.ok r,db'))
    {t : LuaTrade} (ht : t ∈ r.trades) (hself : t.buyerId = t.sellerId) :
    o.stpMode = .none ∧ ∃ h, db.order t.restingOrderId = some h ∧ h.userId = o.userId ∧ h.stp = .none := by
  set a := matchArgs o asset amount with ha
  cases hl : lockBalance db a with
  | none =>
    simp only [matchOrderLua, ← ha, matchOrderScript_eq, hl] at hcall
    cases hcall
  | some db₁ =>
    rw [matchOrderLua_of_lock hl] at hcall
    cases hcall
    obtain ⟨row,hrow,rfl⟩ := List.mem_map.mp ht
    obtain ⟨v,q,hv,rfl⟩ := Plan.mem_trades.mp hrow
    obtain ⟨hvalid,horder,_⟩ := planOn_visit hv
    have hu : v.hash.userId = o.userId := by
      simp only [ScriptTrade.toLuaTrade, MatchArgs.trade, matchArgs] at hself
      cases hs : o.side with
      | buy => simpa [hs] using hself.symm
      | sell => simpa [hs] using hself
    have hnone := (hvalid.fill q rfl).2.2
    rw [stpAction_of_same_user hu, effectiveStp] at hnone
    split_ifs at hnone with hmode
    · exact ⟨hmode,v.hash,horder,hu,hnone⟩
    · exact absurd hnone hmode

lemma call_at_own_order {db db' db₁ : Valkey} {r : LuaMatchResult}
    (hcall : matchOrderLua db o asset amount = (.ok r,db'))
    (hl : lockBalance db (matchArgs o asset amount) = some db₁) {pre post : List Uuid} {rid : Uuid} {h : OrderHash}
    (hc : (matchArgs o asset amount).ComesTo db₁ pre rid post h) (hu : h.userId = o.userId) :
    StpHandled (matchArgs o asset amount) o db db₁ r db' pre rid post (effectiveStp o h) := by
  obtain ⟨horder,hbook,_⟩ := lockBalance_frame hl
  set a := matchArgs o asset amount with ha
  obtain ⟨hnone,hentries⟩ := matchLoop_adds_nothing (a := a) pre ⟨db₁,a.qtyI,.new,[],false⟩
  simp only [horder, hbook] at hnone hentries
  refine ⟨fun hs => ?_,fun hs => ?_,fun hs => ?_⟩
  · have hloop := hc.loopOn_of_cancelMaker ((stpAction_of_same_user hu).trans hs)
    refine ⟨hloop,fun hne => ?_⟩
    simp only [matchOrderLua, ← ha, matchOrderScript_loopOn hl] at hcall
    cases hcall
    rw [hloop]
    exact (Valkey.dropOrder_gone _ _ _ _).applyGtc hne _ _
  · have hloop := hc.loopOn_of_cancelTaker ((stpAction_of_same_user hu).trans hs)
    have hscript := matchOrderScript_of_cancelled hl (by rw [hloop]) (by rw [hloop])
    simp only [matchOrderLua, ← ha, hscript, hloop] at hcall
    cases hcall
    obtain ⟨hsame,hsame'⟩ := matchLoop_frame (a := a) (s := ⟨db₁,a.qtyI,.new,[],false⟩) hc.notMem.1
    simp only [horder, hbook] at hsame hsame'
    exact ⟨⟨rfl,hnone o.id,hentries⟩,⟨hsame,hsame'⟩,rfl⟩
  · have hloop := hc.loopOn_of_cancelBoth ((stpAction_of_same_user hu).trans hs)
    have hscript := matchOrderScript_of_cancelled hl (by rw [hloop]) (by rw [hloop])
    simp only [matchOrderLua, ← ha, hscript, hloop] at hcall
    cases hcall
    refine ⟨⟨rfl,fun hid => ?_,fun pair side e he => ?_⟩,Valkey.dropOrder_gone _ _ _ _,rfl⟩
    · change ((a.loopOn db₁ pre).db.dropOrder a.pairId a.side.opposite rid).order o.id = none
      rw [Valkey.dropOrder_order]
      split_ifs
      · rfl
      · exact hnone o.id hid
    · refine hentries pair side e ?_
      change e ∈ (((a.loopOn db₁ pre).db.dropOrder a.pairId a.side.opposite rid).book pair side).entries at he
      rw [Valkey.dropOrder_book] at he
      split_ifs at he
      · exact (SortedSet.mem_entries_remove.mp he).1
      · exact he

end Calls

/-- In every run, a user trades with himself only if both orders have mode none; an own order
that the loop comes to is handled by the effective mode. -/
theorem stp_in_every_run {db₀ : Valkey} (h₀ : db₀.EmptyBook) {s : Exchange}
    (hrun : Relation.ReflTransGen Exchange.Call ⟨db₀,[],[]⟩ s) (o : Order) (asset : String) (amount : ℤ)
    {r : LuaMatchResult} {db' : Valkey} (hcall : matchOrderLua s.db o asset amount = (.ok r,db')) :
    (∀ t ∈ r.trades, t.buyerId = t.sellerId → o.stpMode = .none ∧
      ∃ h, s.db.order t.restingOrderId = some h ∧ h.userId = o.userId ∧ h.stp = .none ∧
        ∃ m ∈ s.submitted, m.id = t.restingOrderId ∧ m.userId = o.userId ∧ m.stpMode = .none) ∧
    ∀ db₁ ∈ lockBalance s.db (matchArgs o asset amount), ∀ pre rid post h,
      (matchArgs o asset amount).ComesTo db₁ pre rid post h → h.userId = o.userId →
        (∃ m ∈ s.submitted, m.id = rid ∧ m.userId = o.userId ∧ m.stpMode = h.stp) ∧
        StpHandled (matchArgs o asset amount) o s.db db₁ r db' pre rid post (effectiveStp o h) := by
  have hsource := Exchange.sourced_of_run h₀ hrun
  refine ⟨fun t ht hself => ?_,fun db₁ hl pre rid post h hc hu => ⟨?_,call_at_own_order hcall hl hc hu⟩⟩
  · obtain ⟨hmode,h,ho,hu,hstp⟩ := trade_same_user hcall ht hself
    obtain ⟨m,hm,hid,he⟩ := hsource _ h ho
    refine ⟨hmode,h,ho,hu,hstp,m,hm,hid,?_,?_⟩
    · rw [← hu, he]
      rfl
    · rw [← hstp, he]
      rfl
  · have hkept := (matchLoop_frame (a := matchArgs o asset amount)
      (s := ⟨db₁,(matchArgs o asset amount).qtyI,.new,[],false⟩) hc.notMem.1).1
    have ho : s.db.order rid = some h := by
      rw [← (lockBalance_frame hl).1, ← hc.found]
      exact hkept.symm
    obtain ⟨m,hm,hid,he⟩ := hsource rid h ho
    refine ⟨m,hm,hid,?_,?_⟩
    · rw [← hu, he]
      rfl
    · rw [he]
      rfl

def carolBuys : Order := { Order.gtcLimit 3 "carol" "BTC-USDT" .buy 100 7 with stpMode := .cancelTaker }

/-- Carol buys seven units where Alice offers five and Carol herself five: the five are traded,
then her own offer cancels the rest and stays. -/
theorem stp_in_every_run_carol : ∃ r db', matchOrderLua (twoAsks 1 2).db carolBuys "USDT" 0 = (.ok r,db') ∧
    r.trades.length = 1 ∧ r.status = .cancelled ∧ (twoAsks 1 2).db.SameOrder db' 2 := by
  have hrun : Relation.ReflTransGen Exchange.Call ⟨Valkey.empty,[],[]⟩ (twoAsks 1 2) :=
    (Relation.ReflTransGen.refl.tail (.submit _ _ _)).tail (.submit _ _ _)
  have hlock : (twoAsks 1 2).db ∈ lockBalance (twoAsks 1 2).db (matchArgs carolBuys "USDT" 0) :=
    if_neg (by decide +kernel)
  have hown : (matchArgs carolBuys "USDT" 0).ComesTo (twoAsks 1 2).db [1] 2 [] (((twoAsks 1 2).db.order 2).getD (.missing 2)) :=
    ⟨by decide +kernel,by decide +kernel,by decide +kernel,by decide +kernel,by decide +kernel⟩
  have hstp := ((stp_in_every_run ⟨fun _ _ => rfl,fun _ => rfl⟩ hrun carolBuys "USDT" 0 rfl).2 _ hlock _ _ _ _ hown
    (by decide +kernel)).2.cancelTaker (by decide +kernel)
  exact ⟨_,_,rfl,by decide +kernel,hstp.1.status,hstp.2.1⟩

end MatchingEngine

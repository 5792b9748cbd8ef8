import MatchingEngine.Obligations
import MatchingEngine.Outcomes
import MatchingEngine.Cache

/-! Failed orders. The script commits its changes before its reply is decoded and before the
transaction runs, and no later error branch takes them back. Here `process_order` is taken
with a reply decoder that can fail and with an arbitrary outcome of the transaction. -/
namespace MatchingEngine
open Library

/-- A number printed by Lua and read back by Rust. From `10^14` on Lua prints an exponent,
which does not parse. -/
def luaToI64 (n : ℤ) : Option ℤ := if |n| < 10 ^ 14 then some n else none

def ScriptTrade.decode (t : ScriptTrade) : Except String LuaTrade :=
  match luaToI64 t.priceI, luaToI64 t.qtyI with
  | none, _ => .error "invalid price_i"
  | some _, none => .error "invalid qty_i"
  | some p, some q => .ok ⟨t.restingId,i64ToDecimal p,i64ToDecimal q,t.buyerId,t.sellerId⟩

/-- The reply decoder of `match_order_lua`. A remainder that does not parse reads as zero. -/
def decodeReply (order : Order) (lockAsset : String) : Reply → Except String LuaMatchResult
  | .insufficientBalance => .error ("INSUFFICIENT_BALANCE: insufficient " ++ lockAsset ++ " for user " ++ order.userId)
  | .ok remainingI status trades => do
    let trades ← trades.mapM ScriptTrade.decode
    return ⟨i64ToDecimal ((luaToI64 remainingI).getD 0),status,trades⟩

/-- `process_order` with the outcome of its transaction given: `persist` fails whenever one of
the statements does, and a failed transaction is rolled back. -/
def Gateway.processOrderWith (persist : Postgres → Matched → Except String Postgres) (pairs : PairsCache) (s : System)
    (msg : QueuedOrderMsg) (d : Draws) : Except String Order × System :=
  match acceptOrder pairs msg d with
  | .error e => (.error e,s)
  | .ok order =>
    if order.tif = .fok then (.ok { order with status := .cancelled },s)
    else match lockParams order with
    | .error e => (.error e,s)
    | .ok (lockAsset,lockAmountScaled) =>
      match matchOrderScript s.db (matchArgs order lockAsset lockAmountScaled) with
      | (reply,db) =>
        match decodeReply order lockAsset reply with
        | .error e => (.error ("Lua EVAL failed: " ++ e),{ s with db := db })
        | .ok r =>
          let matched := { order with remaining := r.remaining, status := r.status }
          let m : Matched := ⟨matched,buildTrades d.tradeId matched r.trades,r.trades⟩
          if isWarmup matched then (.ok matched,{ s with db := db })
          else match persist s.pg m with
          | .error e => (.error ("DB persist failed: " ++ e),{ s with db := db })
          | .ok pg => (.ok matched,⟨db,pg⟩)

/-- Integers that the decoder reads back. -/
def Reply.InRange : Reply → Prop
  | .insufficientBalance => True
  | .ok remainingI _ trades => |remainingI| < 10 ^ 14 ∧ ∀ t ∈ trades, |t.priceI| < 10 ^ 14 ∧ |t.qtyI| < 10 ^ 14

lemma luaToI64_of_lt {n : ℤ} (h : |n| < 10 ^ 14) : luaToI64 n = some n := if_pos h

lemma mapM_decode {ts : List ScriptTrade} (h : ∀ t ∈ ts, |t.priceI| < 10 ^ 14 ∧ |t.qtyI| < 10 ^ 14) :
    ts.mapM ScriptTrade.decode = .ok (ts.map ScriptTrade.toLuaTrade) := by
  induction ts with
  | nil => rfl
  | cons t ts ih =>
    obtain ⟨⟨hp,hq⟩,hts⟩ := List.forall_mem_cons.mp h
    have ht : t.decode = .ok t.toLuaTrade := by
      rw [ScriptTrade.decode, luaToI64_of_lt hp, luaToI64_of_lt hq]
      rfl
    rw [List.mapM_cons, ht, ih hts]
    rfl

lemma ScriptTrade.decode_ok {t : ScriptTrade} {lt : LuaTrade} (h : t.decode = .ok lt) :
    |t.priceI| < 10 ^ 14 ∧ |t.qtyI| < 10 ^ 14 := by
  unfold ScriptTrade.decode luaToI64 at h
  split_ifs at h with hp hq
  exact ⟨hp,hq⟩

lemma inRange_of_mapM {ts : List ScriptTrade} {lts : List LuaTrade} (h : ts.mapM ScriptTrade.decode = .ok lts) :
    ∀ t ∈ ts, |t.priceI| < 10 ^ 14 ∧ |t.qtyI| < 10 ^ 14 := by
  induction ts generalizing lts with
  | nil => simp
  | cons t ts ih =>
    rw [List.mapM_cons] at h
    obtain ⟨lt,ht,h⟩ := exists_of_bind_ok h
    obtain ⟨rest,hrest,_⟩ := exists_of_bind_ok h
    simp only [List.mem_cons, forall_eq_or_imp]
    exact ⟨ScriptTrade.decode_ok ht,ih hrest⟩

/-- In range, and with the statements as modelled, this is `process_order`. -/
theorem Gateway.processOrderWith_persistOrder {pairs : PairsCache} {s : System} {msg : QueuedOrderMsg} {d : Draws}
    (h : ∀ o ∈ (Gateway.acceptOrder pairs msg d).toOption, ∀ p ∈ (lockParams o).toOption,
      (matchOrderScript s.db (matchArgs o p.1 p.2)).1.InRange) :
    Gateway.processOrderWith Postgres.persistOrder pairs s msg d = Gateway.processOrder pairs s msg d := by
  unfold processOrderWith processOrder
  cases ha : acceptOrder pairs msg d with
  | error e => rfl
  | ok o =>
    by_cases hf : o.tif = .fok
    · simp [hf]
    simp only [if_neg hf]
    cases hp : lockParams o with
    | error e => simp [evalOrder, hp]
    | ok p =>
      obtain ⟨asset,amount⟩ := p
      have hin := h o (by rw [ha]; rfl) (asset,amount) (by rw [hp]; rfl)
      simp only [evalOrder, hp, matchOrderLua]
      rcases hrun : matchOrderScript s.db (matchArgs o asset amount) with ⟨_ | ⟨rem,st,ts⟩,db⟩
      · rfl
      · rw [hrun] at hin
        obtain ⟨hrem,hts⟩ := hin
        simp only [decodeReply, mapM_decode hts, luaToI64_of_lt hrem]
        rfl

/-! ### What a run of the script changes -/

structure Valkey.SameMarket (db db' : Valkey) : Prop where
  book : db'.book = db.book
  order : db'.order = db.order
  balance : db'.balance = db.balance

def MatchArgs.Underfunded (a : MatchArgs) (db : Valkey) : Prop :=
  a.Locks ∧ (db.balance a.userId a.lockAsset).available < a.lockAmount

/-- A run that finds nothing to do: it locks nothing, comes to no resting order but one that
cancels the incoming order, and rests nothing that is not already in the book. -/
structure MatchArgs.Idle (a : MatchArgs) (db : Valkey) : Prop where
  unlocked : ¬ a.Locks
  met : ∀ r, a.Meets a.qtyI (a.restingOn db) r → a.stpAction r.hash = .cancelTaker
  rests : a.tif = .gtc → 0 < a.qtyI → (∃ r, a.Meets a.qtyI (a.restingOn db) r) ∨
    db.order a.orderId = some (a.restingHash a.qtyI .new) ∧ ⟨a.score,a.orderId⟩ ∈ (db.book a.pairId a.side).entries

lemma lockBalance_eq_none {db : Valkey} {a : MatchArgs} : lockBalance db a = none ↔ a.Underfunded db := by
  unfold lockBalance MatchArgs.Underfunded
  split_ifs with hl ha
  · simp [hl, ha]
  · simp [ha]
  · simp [hl]

lemma plan_outcome_none {a : MatchArgs} {rem : ℤ} {rs : List Resting} (h : 0 < (plan a rem rs).remainingI) :
    ∀ v ∈ (plan a rem rs).visits, v.outcome = none := by
  fun_induction plan a rem rs with
  | case1 => simp
  | case2 => simp
  | case3 rem r rest _ _ ih => exact ih h
  | case4 => simp
  | case5 rem r rest _ _ _ _ ih => exact List.forall_mem_cons.mpr ⟨rfl,ih h⟩
  | case6 => simp
  | case7 => simp at h
  | case8 rem r rest hle hc hx hstp ih =>
    refine List.forall_mem_cons.mpr ⟨?_,ih h⟩
    have hgo : ¬ rem - MatchArgs.fillI rem r.hash ≤ 0 := by
      intro hdone
      rw [Plan.remainingI_cons, plan_of_le a rest hdone] at h
      simp only at h
      omega
    have hfill := MatchArgs.fillI_eq_remaining hgo
    simp [Visit.outcome, hfill]

section Idle
variable {a : MatchArgs} {db db₁ : Valkey}

lemma visits_of_sameMarket (h : db.SameMarket (a.settle db₁ (a.planOn db))) :
    (a.planOn db).visits = [] := by
  rw [List.eq_nil_iff_forall_not_mem]
  intro v hv
  obtain ⟨hvalid,hvo,hvb⟩ := planOn_visit hv
  cases hout : v.outcome with
  | none =>
    -- gone from the opposite set
    rw [← h.book] at hvb
    exact settle_notMem_of_outcome hv hout hvb
  | some w =>
    -- partially filled, so the incoming order has no remainder to rest
    have hrests : ¬ (a.planOn db).Rests a := by
      intro hr
      have := plan_outcome_none hr.2.1 v hv
      rw [hout] at this
      cases this
    have hafter : (a.settle db₁ (a.planOn db)).order v.id = some w := by
      rw [settle_order_visited hv (fun hr => absurd hr hrests), hout]
    rw [h.order, hvo] at hafter
    obtain ⟨q,hq,_,rfl⟩ := Visit.outcome_fields hout
    have hrem := congrArg OrderHash.remainingI (Option.some.inj hafter)
    have hpos := (hvalid.fill q hq).1
    simp only at hrem
    omega

/-- Nothing is visited when every order the run meets stops it without being cancelled. -/
lemma visits_eq_nil_iff : (a.planOn db).visits = [] ↔
    ∀ r, a.Meets a.qtyI (a.restingOn db) r → a.stpAction r.hash = .cancelTaker := by
  obtain ⟨hcancel,hfill,_⟩ := plan_meets a a.qtyI (a.restingOn db)
  change (∀ r, ⟨r,.cancel⟩ ∈ (a.planOn db).visits ↔ _) at hcancel
  change (∀ r, (∃ q, ⟨r,.fill q⟩ ∈ (a.planOn db).visits) ↔ _) at hfill
  constructor
  · intro hv r hr
    cases hstp : a.stpAction r.hash with
    | cancelTaker => rfl
    | none =>
      obtain ⟨q,hq⟩ := (hfill r).mpr ⟨hr,hstp⟩
      simp [hv] at hq
    | cancelMaker =>
      have hmem := (hcancel r).mpr ⟨hr,.inl hstp⟩
      simp [hv] at hmem
    | cancelBoth =>
      have hmem := (hcancel r).mpr ⟨hr,.inr hstp⟩
      simp [hv] at hmem
  · intro hmet
    rw [List.eq_nil_iff_forall_not_mem]
    rintro ⟨r,act⟩ hv
    cases act with
    | fill q =>
      obtain ⟨hm,hn⟩ := (hfill r).mp ⟨q,hv⟩
      rw [hmet r hm] at hn
      cases hn
    | cancel =>
      obtain ⟨hm,hn⟩ := (hcancel r).mp hv
      rw [hmet r hm] at hn
      simp at hn

lemma planOn_of_no_visits (hq : 0 ≤ a.qtyI) (hv : (a.planOn db).visits = []) (hs : (a.planOn db).stpCancelled = false) :
    (a.planOn db).remainingI = a.qtyI := by
  have hacc := (planOn_account_of_fills hq hs).2
  simp only [Plan.filledI, hv] at hacc
  simpa using hacc

lemma status_of_no_visits (hq : 0 < a.qtyI) (htif : a.tif = .gtc) (hrem : (a.planOn db).remainingI = a.qtyI)
    (hs : (a.planOn db).stpCancelled = false) : (a.planOn db).status a = .new := by
  rw [Plan.status_of_pos hs (by omega), if_neg (by simp [htif]), if_neg (by omega)]

/-- A run leaves the market as it was exactly when it is idle. -/
theorem sameMarket_settle_iff (hq : 0 ≤ a.qtyI) (hl : lockBalance db a = some db₁) :
    db.SameMarket (a.settle db₁ (a.planOn db)) ↔ a.Idle db := by
  have hstop : (a.planOn db).stpCancelled = true ↔ _ := (plan_meets a a.qtyI (a.restingOn db)).2.2
  constructor
  · intro h
    have hv := visits_of_sameMarket h
    refine ⟨fun hlocks => ?_,visits_eq_nil_iff.mp hv,fun htif hpos => ?_⟩
    · have hb := congrFun (congrFun h.balance a.userId) a.lockAsset
      rw [settle_balance, lockBalance_balance hl, if_pos ⟨rfl,rfl⟩] at hb
      have hav := congrArg BalanceHash.available hb
      simp only [MatchArgs.lockedI, if_pos hlocks] at hav
      have := hlocks.2
      omega
    · by_cases hm : ∃ r, a.Meets a.qtyI (a.restingOn db) r
      · exact .inl hm
      · have hs : (a.planOn db).stpCancelled = false := by
          rw [← Bool.not_eq_true, hstop]
          rintro ⟨r,hr,_⟩
          exact hm ⟨r,hr⟩
        have hrem := planOn_of_no_visits hq hv hs
        have hst := status_of_no_visits hpos htif hrem hs
        have hr : (a.planOn db).Rests a := ⟨htif,by rw [hrem]; exact hpos,by rw [hst]; decide⟩
        refine .inr ⟨?_,?_⟩
        · rw [← h.order, settle_order, if_pos ⟨hr,rfl⟩, hrem, hst]
        · rw [← h.book, mem_entries_settle, if_pos ⟨hr,rfl,rfl⟩]
          exact .inl rfl
  · rintro ⟨hnl,hmet,hrests⟩
    have hdb : db₁ = db := by
      rw [lockBalance, if_neg hnl] at hl
      exact (Option.some.inj hl).symm
    have hv := visits_eq_nil_iff.mpr hmet
    rw [hdb, settle_eq, hv, applyVisits_nil]
    by_cases hr : (a.planOn db).Rests a
    · rw [if_pos hr]
      obtain ⟨htif,hpos,hne⟩ := hr
      have hs := (planOn_account hq hpos).1
      have hrem := planOn_of_no_visits hq hv hs
      have hqpos : 0 < a.qtyI := by omega
      have hst := status_of_no_visits hqpos htif hrem hs
      rcases hrests htif hqpos with ⟨r,hr⟩ | ⟨ho,hb⟩
      · have : (a.planOn db).stpCancelled = true := hstop.mpr ⟨r,hr,.inl (hmet r hr)⟩
        rw [hs] at this
        cases this
      · rw [hrem, hst]
        refine ⟨?_,?_,rfl⟩
        · simp [placeResting, Valkey.zadd_of_mem hb]
        · funext x
          simp only [placeResting, Valkey.incrVersion_order, Valkey.expire_order, Valkey.hset_order, Valkey.zadd_order]
          split_ifs with hx
          · rw [hx, ho]
          · rfl
    · rw [if_neg hr]
      exact ⟨rfl,rfl,rfl⟩

end Idle

/-- An order that fails is refused before the script has written anything, or fails after the script has run,
and then the store is as the script left it. -/
lemma Gateway.processOrderWith_error {persist : Postgres → Matched → Except String Postgres} {pairs : PairsCache}
    {s s' : System} {msg : QueuedOrderMsg} {d : Draws} {e : String}
    (h : Gateway.processOrderWith persist pairs s msg d = (.error e,s')) :
    (s'.db = s.db ∧ ∀ o asset amount, Gateway.acceptOrder pairs msg d = .ok o →
      lockParams o = .ok (asset,amount) → (matchArgs o asset amount).Underfunded s.db) ∨
    ∃ o asset amount db₁, Gateway.acceptOrder pairs msg d = .ok o ∧ lockParams o = .ok (asset,amount) ∧
      lockBalance s.db (matchArgs o asset amount) = some db₁ ∧
      s'.db = (matchArgs o asset amount).settle db₁ ((matchArgs o asset amount).planOn s.db) := by
  unfold Gateway.processOrderWith at h
  cases ha : Gateway.acceptOrder pairs msg d with
  | error x =>
    simp only [ha] at h
    cases h
    refine .inl ⟨rfl,fun o asset amount ho => ?_⟩
    cases ho
  | ok o =>
    simp only [ha] at h
    by_cases hf : o.tif = .fok
    · rw [if_pos hf] at h
      cases h
    rw [if_neg hf] at h
    cases hp : lockParams o with
    | error x =>
      simp only [hp] at h
      cases h
      refine .inl ⟨rfl,fun o' asset amount ho hl => ?_⟩
      cases ho
      rw [hp] at hl
      cases hl
    | ok p =>
      obtain ⟨asset,amount⟩ := p
      simp only [hp, matchOrderScript_eq] at h
      cases hl : lockBalance s.db (matchArgs o asset amount) with
      | none =>
        simp only [hl, decodeReply] at h
        cases h
        refine .inl ⟨rfl,fun o' asset' amount' ho hp' => ?_⟩
        cases ho
        rw [hp] at hp'
        cases hp'
        exact lockBalance_eq_none.mp hl
      | some db₁ =>
        refine .inr ⟨o,asset,amount,db₁,rfl,hp,hl,?_⟩
        simp only [hl] at h
        -- the reply cannot be decoded, or the transaction fails
        split at h
        · cases h
          rfl
        · split_ifs at h
          · cases h
          · split at h
            · cases h
              rfl
            · cases h

/-- A failed order leaves books, hashes and balances alone exactly when its run of the script
is refused or idle; an error after the script keeps what the script did. -/
theorem failed_order_leaves_market_iff {persist : Postgres → Matched → Except String Postgres} {pairs : PairsCache}
    {s s' : System} {msg : QueuedOrderMsg} {d : Draws} {e : String}
    (h : Gateway.processOrderWith persist pairs s msg d = (.error e,s')) :
    s.db.SameMarket s'.db ↔ ∀ o asset amount, Gateway.acceptOrder pairs msg d = .ok o →
      lockParams o = .ok (asset,amount) → (matchArgs o asset amount).Underfunded s.db ∨ (matchArgs o asset amount).Idle s.db := by
  obtain ⟨hdb,hunder⟩ | ⟨o,asset,amount,db₁,ha,hp,hl,hdb⟩ := Gateway.processOrderWith_error h
  · rw [hdb]
    refine iff_of_true ⟨rfl,rfl,rfl⟩ (fun o asset amount ho hp => ?_)
    exact .inl (hunder o asset amount ho hp)
  · have hq : 0 ≤ o.qtyI := decimalToI64_nonneg (checkOrder_quantity_pos (acceptOrder_ok ha).1).le
    have hfunded : ¬ (matchArgs o asset amount).Underfunded s.db := by
      rw [← lockBalance_eq_none, hl]
      simp
    rw [hdb, sameMarket_settle_iff hq hl]
    constructor
    · intro hidle o' asset' amount' ho hp'
      rw [ha] at ho
      cases ho
      rw [hp] at hp'
      cases hp'
      exact .inr hidle
    · intro hall
      exact (hall o asset amount ha hp).resolve_left hfunded

def persistDown (_ : Postgres) (_ : Matched) : Except String Postgres := .error "connection refused"

theorem underfunded_order_leaves_market :
    let r := Gateway.processOrderWith persistDown btcUsdt ⟨Valkey.empty,.empty⟩ (limitMsg 1 "alice" .sell 100 1)
      ⟨0,fun _ => 10,0⟩
    r.1 = .error "Lua EVAL failed: INSUFFICIENT_BALANCE: insufficient BTC for user alice" ∧
      Valkey.empty.SameMarket r.2.db := by
  intro r
  have herr : r.1 = .error "Lua EVAL failed: INSUFFICIENT_BALANCE: insufficient BTC for user alice" := by decide +kernel
  have hall : ∀ o ∈ (Gateway.acceptOrder btcUsdt (limitMsg 1 "alice" .sell 100 1) ⟨0,fun _ => 10,0⟩).toOption,
      ∀ p ∈ (lockParams o).toOption, (matchArgs o p.1 p.2).Locks ∧
        (Valkey.empty.balance o.userId p.1).available < p.2 := by decide +kernel
  refine ⟨herr,(failed_order_leaves_market_iff (s := ⟨Valkey.empty,.empty⟩) (Prod.ext herr rfl)).mpr ?_⟩
  intro o asset amount ha hl
  exact .inl (hall o (by rw [ha]; rfl) (asset,amount) (by rw [hl]; rfl))

/-- Alice's offer stays in the book, and her bitcoin locked, although the request failed. -/
theorem failed_order_rests : ∃ (persist : Postgres → Matched → Except String Postgres) (pairs : PairsCache) (s s' : System)
    (msg : QueuedOrderMsg) (d : Draws) (e : String),
    Gateway.processOrderWith persist pairs s msg d = (.error e,s') ∧ 1 ∈ s'.db.book "BTC-USDT" .sell ∧
    (s.db.balance "alice" "BTC").locked = 0 ∧ (s'.db.balance "alice" "BTC").locked = 100000000 ∧
    ¬ s.db.SameMarket s'.db := by
  let s : System := ⟨(Session.funded (10 ^ 12)).sys.db,.empty⟩
  let r := Gateway.processOrderWith persistDown btcUsdt s (limitMsg 1 "alice" .sell 100 1) ⟨0,fun _ => 10,0⟩
  have herr : r.1 = .error "DB persist failed: connection refused" := by decide +kernel
  have hin : 1 ∈ r.2.db.book "BTC-USDT" .sell := by decide +kernel
  have hout : 1 ∉ s.db.book "BTC-USDT" .sell := by decide +kernel
  refine ⟨persistDown,btcUsdt,s,r.2,limitMsg 1 "alice" .sell 100 1,⟨0,fun _ => 10,0⟩,_,Prod.ext herr rfl,hin,rfl,
    by decide +kernel,fun h => hout ?_⟩
  rwa [← h.book]

end MatchingEngine

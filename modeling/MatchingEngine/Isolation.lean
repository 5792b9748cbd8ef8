import MatchingEngine.BookInvariant
import MatchingEngine.Library.Footprint

/-! Pair and user isolation of `match_order_lua`. A call on one pair touches that pair's sets
and version, the hashes of its own order and of the opposite side, and one balance. The hashes
live in one key space, so that two pairs do not meet there rests on the representation of the
books: a member determines its set. -/
namespace MatchingEngine
open Library

inductive Key
  | book (pair : String) (side : Side)
  | order (id : Uuid)
  | ttl (id : Uuid)
  | version (pair : String)
  | balance (user asset : String)

/-- What a key holds. -/
def Key.Value : Key → Type
  | .book _ _ => SortedSet ℤ Uuid
  | .order _ => Option OrderHash
  | .ttl _ => Option ℕ
  | .version _ => Option ℤ
  | .balance _ _ => BalanceHash

namespace Valkey

def get (db : Valkey) : (k : Key) → k.Value
  | .book pair side => db.book pair side
  | .order id => db.order id
  | .ttl id => db.ttl id
  | .version pair => db.version pair
  | .balance user asset => db.balance user asset

lemma ext_get (db db' : Valkey) (h : ∀ k, db.get k = db'.get k) : db = db' := by
  apply Valkey.ext
  · funext pair side
    exact h (.book pair side)
  · funext id
    exact h (.order id)
  · funext id
    exact h (.ttl id)
  · funext pair
    exact h (.version pair)
  · funext user asset
    exact h (.balance user asset)

end Valkey

/-! ### Commands -/

section Commands
variable {S : Set Key}

lemma localTo_zadd {pair : String} {side : Side} (score : ℤ) (id : Uuid) (hS : Key.book pair side ∈ S) :
    LocalTo Valkey.get S (fun db => db.zadd pair side score id) := by
  constructor
  · intro db db' k h
    cases k
    case book p s =>
      change (db.zadd pair side score id).book p s = (db'.zadd pair side score id).book p s
      rw [Valkey.zadd_book, Valkey.zadd_book, show db.book p s = db'.book p s from h]
    all_goals exact h
  · intro db k hk
    cases k
    case book p s =>
      refine if_neg ?_
      rintro ⟨rfl,rfl⟩
      exact hk hS
    all_goals rfl

lemma localTo_zrem {pair : String} {side : Side} (id : Uuid) (hS : Key.book pair side ∈ S) :
    LocalTo Valkey.get S (fun db => db.zrem pair side id) := by
  constructor
  · intro db db' k h
    cases k
    case book p s =>
      change (db.zrem pair side id).book p s = (db'.zrem pair side id).book p s
      simp only [Valkey.zrem, show db.book p s = db'.book p s from h]
    all_goals exact h
  · intro db k hk
    cases k
    case book p s =>
      refine if_neg ?_
      rintro ⟨rfl,rfl⟩
      exact hk hS
    all_goals rfl

lemma localTo_hset {id : Uuid} (w : OrderHash) (hS : Key.order id ∈ S) :
    LocalTo Valkey.get S (fun db => db.hset id w) := by
  constructor
  · intro db db' k h
    cases k
    case order x =>
      change (db.hset id w).order x = (db'.hset id w).order x
      rw [Valkey.hset_order, Valkey.hset_order, show db.order x = db'.order x from h]
    all_goals exact h
  · intro db k hk
    cases k
    case order x => exact Function.update_of_ne (fun he : x = id => hk (he ▸ hS)) _ _
    all_goals rfl

lemma localTo_del {id : Uuid} (hS : Key.order id ∈ S) (hS' : Key.ttl id ∈ S) :
    LocalTo Valkey.get S (fun db => db.del id) := by
  constructor
  · intro db db' k h
    cases k
    case order x =>
      change (db.del id).order x = (db'.del id).order x
      simp only [Valkey.del, Function.update_apply, show db.order x = db'.order x from h]
    case ttl x =>
      change (db.del id).ttl x = (db'.del id).ttl x
      simp only [Valkey.del, Function.update_apply, show db.ttl x = db'.ttl x from h]
    all_goals exact h
  · intro db k hk
    cases k
    case order x => exact Function.update_of_ne (fun he : x = id => hk (he ▸ hS)) _ _
    case ttl x => exact Function.update_of_ne (fun he : x = id => hk (he ▸ hS')) _ _
    all_goals rfl

lemma localTo_expire {id : Uuid} (seconds : ℕ) (hS : Key.ttl id ∈ S) :
    LocalTo Valkey.get S (fun db => db.expire id seconds) := by
  constructor
  · intro db db' k h
    cases k
    case ttl x =>
      change (db.expire id seconds).ttl x = (db'.expire id seconds).ttl x
      simp only [Valkey.expire, Function.update_apply, show db.ttl x = db'.ttl x from h]
    all_goals exact h
  · intro db k hk
    cases k
    case ttl x => exact Function.update_of_ne (fun he : x = id => hk (he ▸ hS)) _ _
    all_goals rfl

lemma localTo_incrVersion {pair : String} (hS : Key.version pair ∈ S) :
    LocalTo Valkey.get S (fun db => db.incrVersion pair) := by
  constructor
  · intro db db' k h
    cases k
    case version p =>
      change (db.incrVersion pair).version p = (db'.incrVersion pair).version p
      have h : db.version p = db'.version p := h
      by_cases hp : p = pair
      · subst hp
        simp [Valkey.incrVersion, h]
      · simp [Valkey.incrVersion, hp, h]
    all_goals exact h
  · intro db k hk
    cases k
    case version p => exact Function.update_of_ne (fun he : p = pair => hk (he ▸ hS)) _ _
    all_goals rfl

lemma localTo_moveToLocked {user asset : String} (amount : ℤ) (hS : Key.balance user asset ∈ S) :
    LocalTo Valkey.get S (fun db => db.moveToLocked user asset amount) := by
  constructor
  · intro db db' k h
    cases k
    case balance u a =>
      change (db.moveToLocked user asset amount).balance u a = (db'.moveToLocked user asset amount).balance u a
      simp only [Valkey.moveToLocked, show db.balance u a = db'.balance u a from h]
    all_goals exact h
  · intro db k hk
    cases k
    case balance u a =>
      refine if_neg ?_
      rintro ⟨rfl,rfl⟩
      exact hk hS
    all_goals rfl

end Commands

/-! ### The footprint of a call -/

/-- The sets and the version of the pair, the hashes of the incoming order and of the opposite
side, and the balance that is locked. -/
def MatchArgs.footprint (a : MatchArgs) (db : Valkey) : Set Key := fun k =>
  match k with
  | .book pair _ => pair = a.pairId
  | .order id => id = a.orderId ∨ id ∈ db.book a.pairId a.side.opposite
  | .ttl id => id = a.orderId ∨ id ∈ db.book a.pairId a.side.opposite
  | .version pair => pair = a.pairId
  | .balance user asset => user = a.userId ∧ asset = a.lockAsset

section Call
variable {a : MatchArgs} {db : Valkey}

lemma localTo_applyVisit {v : Visit} (hv : v.id ∈ db.book a.pairId a.side.opposite) :
    LocalTo Valkey.get (a.footprint db) (fun d => applyVisit a d v) := by
  unfold applyVisit
  cases v.outcome with
  | none => exact (localTo_del (.inr hv) (.inr hv)).comp (localTo_zrem v.id rfl)
  | some w => exact localTo_hset w (.inr hv)

lemma localTo_placeResting (rem : ℤ) (status : OrderStatus) :
    LocalTo Valkey.get (a.footprint db) (fun d => placeResting a d rem status) :=
  ((localTo_expire 3600 (.inl rfl)).comp (localTo_hset _ (.inl rfl))).comp (localTo_zadd a.score a.orderId rfl)

lemma localTo_settle {p : Plan} (hp : ∀ v ∈ p.visits, v.id ∈ db.book a.pairId a.side.opposite) :
    LocalTo Valkey.get (a.footprint db) (fun d => a.settle d p) := by
  have hvisits : LocalTo Valkey.get (a.footprint db) (fun d => applyVisits a d p.visits) :=
    LocalTo.foldl (fun v hv => localTo_applyVisit (hp v hv))
  have hversion : LocalTo Valkey.get (a.footprint db) (fun d => d.incrVersion a.pairId) := localTo_incrVersion rfl
  simp only [settle_eq]
  by_cases h : p.Rests a
  · simp only [if_pos h]
    exact hversion.comp ((localTo_placeResting _ _).comp hvisits)
  · simp only [if_neg h]
    exact hversion.comp hvisits

lemma planOn_congr {db' : Valkey} (h : AgreeOn Valkey.get (a.footprint db) db' db) : a.planOn db' = a.planOn db := by
  have hbook : db'.book a.pairId a.side.opposite = db.book a.pairId a.side.opposite := h (.book _ _) rfl
  have hcand : candidates db' a = candidates db a := by simp only [candidates, hbook]
  have hrest : db'.resting (candidates db a) = db.resting (candidates db a) := by
    refine resting_congr (fun id hid => h (.order id) (.inr ?_))
    obtain ⟨e,he,_,hm⟩ := SortedSet.mem_rangeByScore.mp (List.mem_of_mem_take hid)
    exact SortedSet.mem_iff.mpr ⟨e,he,hm⟩
  rw [MatchArgs.planOn, MatchArgs.planOn, hcand, hrest]

end Call

/-- The order's own pair, hash and balance, and the hashes of its opposite side. -/
theorem matchOrderLua_confined (db : Valkey) (o : Order) (asset : String) (amount : ℤ) :
    Confined Valkey.get ((matchArgs o asset amount).footprint db) (fun d => matchOrderLua d o asset amount) db := by
  set a := matchArgs o asset amount with ha
  have hbal : ∀ d, AgreeOn Valkey.get (a.footprint db) d db → d.balance a.userId a.lockAsset = db.balance a.userId a.lockAsset :=
    fun d hd => hd (.balance _ _) ⟨rfl,rfl⟩
  have hvisit : ∀ v ∈ (a.planOn db).visits, v.id ∈ db.book a.pairId a.side.opposite := fun v hv => (planOn_visit hv).2.2
  let reply : Except String LuaMatchResult := .ok ⟨i64ToDecimal (a.planOn db).remainingI,(a.planOn db).status a,
    ((a.planOn db).trades a).map ScriptTrade.toLuaTrade⟩
  by_cases hlocks : a.Locks
  · by_cases hfunds : (db.balance a.userId a.lockAsset).available < a.lockAmount
    · refine Confined.of_localTo (.error ("INSUFFICIENT_BALANCE: insufficient " ++ asset ++ " for user " ++ o.userId))
        (fun d hd => ?_) (LocalTo.id _)
      have hl : lockBalance d a = none := by rw [lockBalance, if_pos hlocks, hbal d hd, if_pos hfunds]
      simp only [matchOrderLua, ← ha, matchOrderScript_eq, hl]
    · refine Confined.of_localTo reply (fun d hd => ?_) ((localTo_settle hvisit).comp
        (localTo_moveToLocked a.lockAmount (show a.footprint db (.balance a.userId a.lockAsset) from ⟨rfl,rfl⟩)))
      have hl : lockBalance d a = some (d.moveToLocked a.userId a.lockAsset a.lockAmount) := by
        rw [lockBalance, if_pos hlocks, hbal d hd, if_neg hfunds]
      rw [matchOrderLua_of_lock hl, ← ha, planOn_congr hd]
  · refine Confined.of_localTo reply (fun d hd => ?_) (localTo_settle hvisit)
    have hl : lockBalance d a = some d := by rw [lockBalance, if_neg hlocks]
    rw [matchOrderLua_of_lock hl, ← ha, planOn_congr hd]

/-! ### Two pairs -/

section Pairs
variable {db : Valkey} (hr : db.Represented)
include hr

lemma Valkey.Represented.notMem_of_order {id : Uuid} (h : db.order id = none) (pair : String) (side : Side) :
    id ∉ db.book pair side := by
  intro hm
  obtain ⟨w,hw,_⟩ := hr.order_of_mem hm
  rw [h] at hw
  cases hw

/-- Hashes that a call on one pair may touch are not those of a call on another. -/
lemma Valkey.Represented.hashes_disjoint {a b : MatchArgs} (ha : db.order a.orderId = none) (hb : db.order b.orderId = none)
    (hid : a.orderId ≠ b.orderId) (hpair : a.pairId ≠ b.pairId) {x : Uuid}
    (hx : x = a.orderId ∨ x ∈ db.book a.pairId a.side.opposite) : ¬ (x = b.orderId ∨ x ∈ db.book b.pairId b.side.opposite) := by
  rintro (rfl | hb')
  · rcases hx with hx | hx
    · exact hid hx.symm
    · exact hr.notMem_of_order hb _ _ hx
  · rcases hx with rfl | hx
    · exact hr.notMem_of_order ha _ _ hb'
    · exact hpair (hr.mem_unique hx hb').1

lemma Valkey.Represented.footprint_disjoint {a b : MatchArgs} (ha : db.order a.orderId = none) (hb : db.order b.orderId = none)
    (hid : a.orderId ≠ b.orderId) (hpair : a.pairId ≠ b.pairId) (hbal : (a.userId,a.lockAsset) ≠ (b.userId,b.lockAsset)) :
    Disjoint (a.footprint db) (b.footprint db) := by
  refine Set.disjoint_left.mpr (fun k hka hkb => ?_)
  cases k with
  | book pair side => exact hpair (Eq.trans (Eq.symm hka) hkb)
  | order x => exact hr.hashes_disjoint ha hb hid hpair hka hkb
  | ttl x => exact hr.hashes_disjoint ha hb hid hpair hka hkb
  | version pair => exact hpair (Eq.trans (Eq.symm hka) hkb)
  | balance user asset => exact hbal (Prod.ext (hka.1.symm.trans hkb.1) (hka.2.symm.trans hkb.2))

end Pairs

/-- A call with a fresh id leaves the sets, the version and the resting orders of every other
pair, all hashes but its own order's and those of its opposite side, and the balances of other
users; and it commutes with a call with another fresh id on another pair and balance. -/
theorem matchOrderLua_isolated {db : Valkey} (hr : db.Represented) (o : Order) (asset : String) (amount : ℤ)
    (hfresh : db.order o.id = none) :
    (∀ pair, pair ≠ o.pairId →
      (∀ side, (matchOrderLua db o asset amount).2.book pair side = db.book pair side) ∧
      (matchOrderLua db o asset amount).2.version pair = db.version pair ∧
      ∀ side, ∀ id ∈ db.book pair side, (matchOrderLua db o asset amount).2.order id = db.order id) ∧
    (∀ id, id ≠ o.id → id ∉ db.book o.pairId o.side.opposite →
      (matchOrderLua db o asset amount).2.order id = db.order id) ∧
    (∀ user, user ≠ o.userId → ∀ asset', (matchOrderLua db o asset amount).2.balance user asset' = db.balance user asset') ∧
    ∀ (o' : Order) (asset' : String) (amount' : ℤ), db.order o'.id = none → o.id ≠ o'.id → o.pairId ≠ o'.pairId →
      (o.userId,asset) ≠ (o'.userId,asset') →
      (matchOrderLua (matchOrderLua db o' asset' amount').2 o asset amount).1 = (matchOrderLua db o asset amount).1 ∧
      (matchOrderLua (matchOrderLua db o asset amount).2 o' asset' amount').1 = (matchOrderLua db o' asset' amount').1 ∧
      (matchOrderLua (matchOrderLua db o' asset' amount').2 o asset amount).2 =
        (matchOrderLua (matchOrderLua db o asset amount).2 o' asset' amount').2 := by
  have hc := matchOrderLua_confined db o asset amount
  have hhash : ∀ id, id ≠ o.id → id ∉ db.book o.pairId o.side.opposite →
      (matchOrderLua db o asset amount).2.order id = db.order id :=
    fun id hid hm => hc.frame (k := .order id) (fun h => h.elim hid hm)
  refine ⟨fun pair hpair => ⟨fun side => ?_,?_,fun side id hm => hhash id ?_ (fun hm' => ?_)⟩,hhash,fun user hu asset' => ?_,?_⟩
  · exact hc.frame (k := .book pair side) hpair
  · exact hc.frame (k := .version pair) hpair
  · rintro rfl
    exact hr.notMem_of_order hfresh pair side hm
  · exact hpair (hr.mem_unique hm hm').1
  · exact hc.frame (k := .balance user asset') (fun h => hu h.1)
  · intro o' asset' amount' hfresh' hid hpair hbal
    have hdisj : Disjoint ((matchArgs o asset amount).footprint db) ((matchArgs o' asset' amount').footprint db) :=
      hr.footprint_disjoint hfresh hfresh' hid hpair hbal
    have hcomm := hc.commute Valkey.ext_get (matchOrderLua_confined db o' asset' amount') hdisj
    exact hcomm

def bobBuysBtc : Order := .gtcLimit 3 "bob" "BTC-USDT" .buy 100 7

def bobSellsEth : Order := .gtcLimit 4 "bob" "ETH-USDT" .sell 10 3

/-- Bob buys bitcoin and sells ether while two offers of bitcoin rest. -/
theorem matchOrderLua_isolated_two_pairs :
    (matchOrderLua (matchOrderLua (twoAsks 1 2).db bobSellsEth "ETH" 0).2 bobBuysBtc "USDT" 0).2 =
      (matchOrderLua (matchOrderLua (twoAsks 1 2).db bobBuysBtc "USDT" 0).2 bobSellsEth "ETH" 0).2 := by
  have hr := ((twoAsks_reachable (show (1 : Uuid) ≠ 2 by decide)).invariant (fun _ o ho => ho.2.2.qty_pos.le)).1
  have hfresh : (twoAsks 1 2).db.order bobBuysBtc.id = none := by decide +kernel
  have hfresh' : (twoAsks 1 2).db.order bobSellsEth.id = none := by decide +kernel
  obtain ⟨_,_,_,hcomm⟩ := matchOrderLua_isolated hr bobBuysBtc "USDT" 0 hfresh
  exact (hcomm bobSellsEth "ETH" 0 hfresh' (by decide) (by decide) (by decide)).2.2

end MatchingEngine

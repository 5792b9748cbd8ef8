import MatchingEngine.Maximal
import MatchingEngine.SelfTrade

/-! Time and the book. A resting order is a member of a sorted set, which never expires, and a
hash, which is given an hour when it is written; fills rewrite the hash without touching its
expiry. Runs of matches, cancels, sweeps and waits keep track of when each order came to rest,
and an order that nobody filled or removed is matched exactly while its hour lasts. -/
namespace MatchingEngine
open Library

namespace Valkey

/-- Time passes: a key whose expiry has run out is gone. -/
def pass (db : Valkey) (ms : ℕ) : Valkey :=
  { db with
    order := fun id => if ∃ t ∈ db.ttl id, t ≤ ms then none else db.order id
    ttl := fun id => (db.ttl id).bind (fun t => if t ≤ ms then none else some (t - ms)) }

/-- `sweep_stale_orders` on one book key: each listed member without an order hash is removed. -/
def sweepStaleOrders (db : Valkey) (pair : String) (side : Side) : Valkey :=
  ((db.book pair side).rangeByScore none).foldl
    (fun db id => if db.order id = none then db.zrem pair side id else db) db

lemma pass_ttl {db : Valkey} {id : Uuid} {t ms : ℕ} (h : db.ttl id = some t) (ht : ms < t) :
    (db.pass ms).ttl id = some (t - ms) := by
  simp [pass, h, ht]

lemma sweep_frame (ids : List Uuid) (db : Valkey) (pair : String) (side : Side) :
    let db' := ids.foldl (fun db id => if db.order id = none then db.zrem pair side id else db) db
    db'.order = db.order ∧ db'.ttl = db.ttl ∧ ∀ p s e, e ∈ (db'.book p s).entries ↔
      e ∈ (db.book p s).entries ∧ ¬ (p = pair ∧ s = side ∧ e.member ∈ ids ∧ db.order e.member = none) := by
  induction ids generalizing db with
  | nil => simp
  | cons id ids ih =>
    rw [List.foldl_cons]
    by_cases hid : db.order id = none
    · rw [if_pos hid]
      obtain ⟨ho,ht,hb⟩ := ih (db.zrem pair side id)
      refine ⟨ho,ht,fun p s e => ?_⟩
      rw [hb p s e]
      by_cases hk : p = pair ∧ s = side
      · simp only [zrem, hk, and_self, if_true, SortedSet.mem_entries_remove, List.mem_cons]
        grind
      · simp only [zrem, if_neg hk, List.mem_cons]
        grind
    · rw [if_neg hid]
      obtain ⟨ho,ht,hb⟩ := ih db
      refine ⟨ho,ht,fun p s e => ?_⟩
      rw [hb p s e, List.mem_cons]
      grind

end Valkey

/-- The reply to an order whose remainder went into the book. -/
def Reply.Rests (tif : TimeInForce) : Reply → Prop
  | .insufficientBalance => False
  | .ok rem status _ => tif = .gtc ∧ 0 < rem ∧ status ≠ .cancelled

instance (tif : TimeInForce) : (r : Reply) → Decidable (r.Rests tif)
  | .insufficientBalance => inferInstanceAs (Decidable False)
  | .ok _ _ _ => inferInstanceAs (Decidable (_ ∧ _))

/-- An exchange with a clock, and with a record of when each order was accepted with a
remainder and of the orders that were cancelled or removed by self-trade prevention. -/
structure Timed where
  exchange : Exchange
  now : ℕ
  rested : List (Order × ℕ)
  removed : List Uuid

namespace Timed

/-- A `match_order_lua` call. The orders it removes without a trade are those whose hash is
gone afterwards although no trade names them. -/
def submit (s : Timed) (o : Order) (lockAsset : String) (lockAmountScaled : ℤ) : Timed :=
  let a := matchArgs o lockAsset lockAmountScaled
  let r := matchOrderScript s.exchange.db a
  { exchange := s.exchange.submit o lockAsset lockAmountScaled
    now := s.now
    rested := if r.1.Rests o.tif then s.rested ++ [(o,s.now)] else s.rested
    removed := s.removed ++ (candidates s.exchange.db a).filter (fun id =>
      s.exchange.db.order id ≠ none ∧ r.2.order id = none ∧ ∀ t ∈ r.1.trades, t.restingId ≠ id) }

/-- A `remove_order_from_book` call. -/
def cancel (s : Timed) (c : Order) : Timed :=
  { s with exchange := s.exchange.remove c, removed := s.removed ++ [c.id] }

def sweep (s : Timed) (pair : String) (side : Side) : Timed :=
  { s with exchange := { s.exchange with db := s.exchange.db.sweepStaleOrders pair side } }

def wait (s : Timed) (ms : ℕ) : Timed :=
  { s with exchange := { s.exchange with db := s.exchange.db.pass ms }, now := s.now + ms }

/-- Matches of fresh orders, cancels, sweeps, and any amount of time. The numbers in the hashes are
exact, as those that the script prints are below `10^14`. -/
inductive Step : Timed → Timed → Prop
  | submit {s : Timed} (o : Order) (lockAsset : String) (lockAmountScaled : ℤ)
      (fresh : ∀ p ∈ s.exchange.submitted, p.id ≠ o.id) (quantity : 0 < o.quantity) :
      Step s (s.submit o lockAsset lockAmountScaled)
  | cancel {s : Timed} (o c : Order) (known : o ∈ s.exchange.submitted) (hid : c.id = o.id)
      (hpair : c.pairId = o.pairId) (hside : c.side = o.side) : Step s (s.cancel c)
  | sweep {s : Timed} (pair : String) (side : Side) : Step s (s.sweep pair side)
  | wait {s : Timed} (ms : ℕ) : Step s (s.wait ms)

/-- The states reached from an empty book. -/
def Reachable (s : Timed) : Prop :=
  ∃ db : Valkey, db.EmptyBook ∧ Relation.ReflTransGen Step ⟨⟨db,[],[]⟩,0,[],[]⟩ s

/-- An order accepted with a remainder at `t` that since then was neither filled completely,
nor cancelled, nor removed by self-trade prevention. -/
structure Open (s : Timed) (o : Order) (t : ℕ) : Prop where
  rested : (o,t) ∈ s.rested
  unfilled : s.exchange.tradedI o.id < o.qtyI
  kept : o.id ∉ s.removed

instance (s : Timed) (o : Order) (t : ℕ) : Decidable (s.Open o t) :=
  decidable_of_iff ((o,t) ∈ s.rested ∧ s.exchange.tradedI o.id < o.qtyI ∧ o.id ∉ s.removed)
    ⟨fun h => ⟨h.1,h.2.1,h.2.2⟩,fun h => ⟨h.1,h.2,h.3⟩⟩

end Timed

/-- How long an order hash lives, in milliseconds. -/
@[irreducible] def restingTtl : ℕ := 3600000

/-! ### Expiry across one call -/

lemma applyVisits_ttl {a : MatchArgs} {vs : List Visit} {x : Uuid} (h : ∀ v ∈ vs, v.id = x → v.outcome ≠ none)
    (db : Valkey) : (applyVisits a db vs).ttl x = db.ttl x := by
  induction vs generalizing db with
  | nil => rfl
  | cons v vs ih =>
    rw [applyVisits_cons, ih (fun w hw => h w (by simp [hw]))]
    unfold applyVisit
    cases hout : v.outcome with
    | some w => rfl
    | none =>
      have hne : x ≠ v.id := fun he => h v (by simp) he.symm hout
      simp [Valkey.dropOrder, Valkey.del, Valkey.zrem, hne]

lemma settle_ttl (a : MatchArgs) (db : Valkey) (p : Plan) (x : Uuid) :
    (a.settle db p).ttl x =
      if p.Rests a ∧ x = a.orderId then some restingTtl else (applyVisits a db p.visits).ttl x := by
  rw [settle_eq]
  by_cases h : p.Rests a
  · simp [h, placeResting, Valkey.expire, Valkey.incrVersion, Valkey.hset, Valkey.zadd, Function.update_apply, restingTtl]
  · simp [h, Valkey.incrVersion]

section Call
variable {a : MatchArgs} {db db₁ : Valkey} {id : Uuid}

/-- A hash that is there after the call was there before with the same time left. -/
lemma settle_ttl_of_order (hl : lockBalance db a = some db₁) (hid : id ≠ a.orderId) {h' : OrderHash}
    (h : (a.settle db₁ (a.planOn db)).order id = some h') :
    (∃ h, db.order id = some h) ∧ (a.settle db₁ (a.planOn db)).ttl id = db.ttl id := by
  have hkeep : ∀ v ∈ (a.planOn db).visits, v.id = id → v.outcome ≠ none := by
    rintro v hv rfl hout
    rw [settle_order_visited hv (fun _ => hid), hout] at h
    cases h
  have httl : (a.settle db₁ (a.planOn db)).ttl id = db.ttl id := by
    rw [settle_ttl, if_neg (fun hh => hid hh.2), applyVisits_ttl hkeep, (lockBalance_frame hl).2.2.1]
  rcases settle_order_cases hl h with ⟨_,he,_⟩ | ⟨v,hv,rfl,_⟩ | ⟨_,ho⟩
  · exact absurd he hid
  · exact ⟨⟨_,(planOn_visit hv).2.1⟩,httl⟩
  · exact ⟨⟨h',ho⟩,httl⟩

lemma settle_not_consumed (hq : 0 ≤ a.qtyI) (hl : lockBalance db a = some db₁)
    (hlive : ∀ id h, db.order id = some h → ¬ h.Consumed) {h : OrderHash}
    (ho : (a.settle db₁ (a.planOn db)).order id = some h) : ¬ h.Consumed := by
  rcases settle_order_cases hl ho with ⟨hr,_,rfl⟩ | ⟨v,_,_,hout⟩ | ⟨_,ho⟩
  · have hst := hr.status_eq hq
    have hpos := hr.2.1
    simp only [OrderHash.Consumed, MatchArgs.restingHash, hst]
    split_ifs <;> simp [hpos]
  · obtain ⟨q,_,hlt,rfl⟩ := Visit.outcome_fields hout
    simp [OrderHash.Consumed, hlt]
  · exact hlive id h ho

end Call

/-! ### Runs -/

/-- What a run with time keeps. -/
structure Timed.Tracked (s : Timed) : Prop where
  accounted : s.exchange.Accounted
  /-- A member, with or without a hash, is a submitted order in its own set. -/
  entry : ∀ pair side, ∀ e ∈ (s.exchange.db.book pair side).entries, ∃ o ∈ s.exchange.submitted,
    o.id = e.member ∧ e.score = signedPrice side o.priceI
  live : ∀ id h, s.exchange.db.order id = some h → ¬ h.Consumed
  known : ∀ o t, (o,t) ∈ s.rested → o ∈ s.exchange.submitted
  /-- A hash has what is left of its hour. -/
  hour : ∀ o t, (o,t) ∈ s.rested → ∀ h, s.exchange.db.order o.id = some h →
    s.now < t + restingTtl ∧ s.exchange.db.ttl o.id = some (t + restingTtl - s.now)
  /-- An open order within its hour has its hash and its entry. -/
  present : ∀ o t, s.Open o t → s.now < t + restingTtl → (∃ h, s.exchange.db.order o.id = some h) ∧
    ⟨signedPrice o.side o.priceI,o.id⟩ ∈ (s.exchange.db.book o.pairId o.side).entries

namespace Timed
variable {s : Timed}

lemma Tracked.wait (hs : s.Tracked) (ms : ℕ) : (s.wait ms).Tracked := by
  have horder : ∀ id h, (s.wait ms).exchange.db.order id = some h ↔
      (∀ t ∈ s.exchange.db.ttl id, ms < t) ∧ s.exchange.db.order id = some h := by
    intro id h
    simp only [Timed.wait, Valkey.pass]
    split_ifs with hx
    · obtain ⟨t,ht,hle⟩ := hx
      simp only [false_iff, not_and]
      intro hall
      have := hall t ht
      omega
    · push Not at hx
      exact ⟨fun ho => ⟨hx,ho⟩,fun ho => ho.2⟩
  refine ⟨⟨fun id h ho => hs.accounted.source id h ((horder id h).mp ho).2,
    fun id h ho => hs.accounted.remaining id h ((horder id h).mp ho).2,hs.accounted.traded_le,hs.accounted.known,
    hs.accounted.nodup⟩,hs.entry,fun id h ho => hs.live id h ((horder id h).mp ho).2,hs.known,?_,?_⟩
  · intro o t hrest h ho
    obtain ⟨hleft,ho⟩ := (horder o.id h).mp ho
    obtain ⟨hnow,httl⟩ := hs.hour o t hrest h ho
    have hms := hleft _ httl
    have hnow' : s.now + ms < t + restingTtl := by omega
    exact ⟨hnow',(Valkey.pass_ttl httl hms).trans (congrArg some (Nat.sub_sub _ _ _))⟩
  · intro o t hopen hnow
    have hnow' : s.now + ms < t + restingTtl := hnow
    obtain ⟨⟨h,ho⟩,he⟩ := hs.present o t ⟨hopen.rested,hopen.unfilled,hopen.kept⟩ (by omega)
    refine ⟨⟨h,(horder o.id h).mpr ⟨fun x hx => ?_,ho⟩⟩,he⟩
    rw [(hs.hour o t hopen.rested h ho).2, Option.mem_some_iff] at hx
    omega

lemma Tracked.sweep (hs : s.Tracked) (pair : String) (side : Side) : (s.sweep pair side).Tracked := by
  obtain ⟨horder,httl,hentry⟩ := Valkey.sweep_frame ((s.exchange.db.book pair side).rangeByScore none) s.exchange.db pair side
  change (s.sweep pair side).exchange.db.order = _ at horder
  change (s.sweep pair side).exchange.db.ttl = _ at httl
  change ∀ p x e, e ∈ ((s.sweep pair side).exchange.db.book p x).entries ↔ _ at hentry
  refine ⟨⟨?_,?_,hs.accounted.traded_le,hs.accounted.known,hs.accounted.nodup⟩,
    fun p x e he => hs.entry p x e ((hentry p x e).mp he).1,?_,hs.known,?_,?_⟩
  · rw [horder]
    exact hs.accounted.source
  · rw [horder]
    exact hs.accounted.remaining
  · rw [horder]
    exact hs.live
  · rw [horder, httl]
    exact hs.hour
  · intro o t hopen hnow
    obtain ⟨⟨h,ho⟩,he⟩ := hs.present o t ⟨hopen.rested,hopen.unfilled,hopen.kept⟩ hnow
    refine ⟨⟨h,by rw [horder, ho]⟩,(hentry _ _ _).mpr ⟨he,?_⟩⟩
    rintro ⟨_,_,_,hnone⟩
    rw [ho] at hnone
    cases hnone

lemma Tracked.cancel (hs : s.Tracked) (c : Order) : (s.cancel c).Tracked := by
  have horder : ∀ id, id ≠ c.id → (s.cancel c).exchange.db.order id = s.exchange.db.order id := by
    intro id hid
    simp [Timed.cancel, Exchange.remove, Valkey.removeOrderFromBook, hid]
  have hsub : ∀ id h, (s.cancel c).exchange.db.order id = some h → id ≠ c.id ∧ s.exchange.db.order id = some h := by
    intro id h ho
    by_cases hid : id = c.id
    · simp [Timed.cancel, Exchange.remove, Valkey.removeOrderFromBook, hid] at ho
    · exact ⟨hid,by rw [← horder id hid, ho]⟩
  have hentry : ∀ p x e, e ∈ ((s.cancel c).exchange.db.book p x).entries ↔
      e ∈ (s.exchange.db.book p x).entries ∧ (p = c.pairId ∧ x = c.side → e.member ≠ c.id) := by
    intro p x e
    by_cases hk : p = c.pairId ∧ x = c.side <;>
      simp [Timed.cancel, Exchange.remove, Valkey.removeOrderFromBook, hk, SortedSet.mem_entries_remove]
  refine ⟨hs.accounted.remove c,fun p x e he => hs.entry p x e ((hentry p x e).mp he).1,
    fun id h ho => hs.live id h (hsub id h ho).2,hs.known,?_,?_⟩
  · intro o t hrest h ho
    obtain ⟨hid,ho⟩ := hsub o.id h ho
    have httl : (s.cancel c).exchange.db.ttl o.id = s.exchange.db.ttl o.id := by
      simp [Timed.cancel, Exchange.remove, Valkey.removeOrderFromBook, Valkey.dropOrder, Valkey.del, Valkey.zrem, hid]
    rw [httl]
    exact hs.hour o t hrest h ho
  · intro o t hopen hnow
    obtain ⟨hkept,hid⟩ : o.id ∉ s.removed ∧ o.id ≠ c.id := by simpa [Timed.cancel] using hopen.kept
    obtain ⟨⟨h,ho⟩,he⟩ := hs.present o t ⟨hopen.rested,hopen.unfilled,hkept⟩ hnow
    exact ⟨⟨h,by rw [horder o.id hid, ho]⟩,(hentry _ _ _).mpr ⟨he,fun _ => hid⟩⟩

section Submit
variable {o : Order} {asset : String} {amount : ℤ}

lemma Tracked.submit_refused (hs : s.Tracked) (hfresh : ∀ p ∈ s.exchange.submitted, p.id ≠ o.id) (hq : 0 ≤ o.qtyI)
    (hl : lockBalance s.exchange.db (matchArgs o asset amount) = none) : (s.submit o asset amount).Tracked := by
  have hscript : matchOrderScript s.exchange.db (matchArgs o asset amount) = (.insufficientBalance,s.exchange.db) := by
    rw [matchOrderScript_eq, hl]
  have hsubmit : s.submit o asset amount =
      { s with exchange := ⟨s.exchange.db,s.exchange.submitted ++ [o],s.exchange.fills⟩ } := by
    have hnone : (candidates s.exchange.db (matchArgs o asset amount)).filter (fun id => s.exchange.db.order id ≠ none ∧
        s.exchange.db.order id = none ∧ ∀ t ∈ Reply.insufficientBalance.trades, t.restingId ≠ id) = [] := by
      rw [List.filter_eq_nil_iff]
      intro id _ hid
      rw [decide_eq_true_eq] at hid
      exact hid.1 hid.2.1
    simp only [Timed.submit, hscript, submit_of_no_lock hl, hnone, List.append_nil, Reply.Rests, if_false]
  have hacc : (s.exchange.submit o asset amount).Accounted := hs.accounted.submit hfresh hq
  rw [submit_of_no_lock hl] at hacc
  rw [hsubmit]
  refine ⟨hacc,fun pair side e he => ?_,hs.live,fun p t hp => ?_,hs.hour,?_⟩
  · obtain ⟨p,hp,hf⟩ := hs.entry pair side e he
    exact ⟨p,List.mem_append_left _ hp,hf⟩
  · exact List.mem_append_left _ (hs.known p t hp)
  · intro p t hopen hnow
    exact hs.present p t ⟨hopen.rested,hopen.unfilled,hopen.kept⟩ hnow

/-- The order after a call that went through: what rested before stays open only if the call
neither used it up nor removed it. -/
lemma not_dropped_of_open (hs : s.Tracked) (hfresh : ∀ p ∈ s.exchange.submitted, p.id ≠ o.id) {db₁ : Valkey}
    (hl : lockBalance s.exchange.db (matchArgs o asset amount) = some db₁) {p : Order} (hp : p ∈ s.exchange.submitted)
    (hunfilled : (s.submit o asset amount).exchange.tradedI p.id < p.qtyI)
    (hkept : p.id ∉ (s.submit o asset amount).removed) :
    ∀ v ∈ ((matchArgs o asset amount).planOn s.exchange.db).visits, v.id = p.id → v.outcome ≠ none := by
  set a := matchArgs o asset amount with ha
  have hn := planOn_ids_nodup a s.exchange.db
  rintro ⟨r,act⟩ hv hid hout
  obtain ⟨hval,ho,_⟩ := planOn_visit hv
  cases act with
  | fill q =>
    -- the fill takes all that was left
    have htraded : s.exchange.tradedI p.id + q < p.qtyI := by
      have h := tradedI_submit hl p.id
      rw [if_neg (hfresh p hp), ← hid, Plan.filledOf_of_mem hn hv] at h
      simp only [Timed.submit] at hunfilled
      rw [← hid, h, hid] at hunfilled
      exact hunfilled
    have hrem : r.hash.remainingI = r.hash.qtyI - s.exchange.tradedI p.id := hid ▸ hs.accounted.remaining _ _ ho
    have hqty : r.hash.qtyI = p.qtyI := hs.accounted.qtyI_eq hp (hid ▸ ho)
    simp only [Visit.outcome] at hout
    split_ifs at hout with hle
    omega
  | cancel =>
    refine hkept ?_
    have hscript : matchOrderScript s.exchange.db a = (.ok (a.planOn s.exchange.db).remainingI
        ((a.planOn s.exchange.db).status a) ((a.planOn s.exchange.db).trades a),a.settle db₁ (a.planOn s.exchange.db)) := by
      rw [matchOrderScript_eq, hl]
    simp only [Timed.submit, ← ha, hscript, List.mem_append, List.mem_filter, decide_eq_true_eq]
    refine .inr ⟨?_,?_,?_,?_⟩
    · rw [← hid]
      exact (mem_resting.mp (plan_mem hv)).1
    · rw [← hid, ho]
      exact Option.some_ne_none _
    · have hne : r.id ≠ a.orderId := fun h => hfresh p hp (hid.symm.trans h)
      rw [← hid]
      exact (settle_order_visited hv (fun _ => hne)).trans hout
    · intro t ht hrid
      obtain ⟨r',q,hv',rfl⟩ := Plan.mem_trades.mp ht
      have := List.inj_on_of_nodup_map hn hv' hv (hrid.trans hid.symm)
      cases this

lemma Tracked.submit_locked (hs : s.Tracked) (hfresh : ∀ p ∈ s.exchange.submitted, p.id ≠ o.id) (hq : 0 ≤ o.qtyI)
    {db₁ : Valkey} (hl : lockBalance s.exchange.db (matchArgs o asset amount) = some db₁) :
    (s.submit o asset amount).Tracked := by
  set a := matchArgs o asset amount with ha
  have hacc : (s.submit o asset amount).exchange.Accounted := hs.accounted.submit hfresh hq
  have hscript : matchOrderScript s.exchange.db a = (.ok (a.planOn s.exchange.db).remainingI
      ((a.planOn s.exchange.db).status a) ((a.planOn s.exchange.db).trades a),a.settle db₁ (a.planOn s.exchange.db)) := by
    rw [matchOrderScript_eq, hl]
  have hdb : (s.submit o asset amount).exchange.db = a.settle db₁ (a.planOn s.exchange.db) := by
    simp only [Timed.submit, Exchange.submit, ← ha, hscript]
  have hrested : ∀ p t, (p,t) ∈ (s.submit o asset amount).rested →
      (p,t) ∈ s.rested ∨ (a.planOn s.exchange.db).Rests a ∧ p = o ∧ t = s.now := by
    intro p t hp
    simp only [Timed.submit, ← ha, hscript] at hp
    split_ifs at hp with hr
    · rcases List.mem_append.mp hp with hp | hp
      · exact .inl hp
      · exact .inr ⟨hr,by simpa using hp⟩
    · exact .inl hp
  have hne : ∀ p t, (p,t) ∈ s.rested → p.id ≠ a.orderId := fun p t hp => hfresh p (hs.known p t hp)
  refine ⟨hacc,?_,?_,?_,?_,?_⟩
  · intro pair side e he
    rw [hdb] at he
    rcases settle_entry_cases hl he with ⟨_,rfl,rfl⟩ | he
    · exact ⟨o,List.mem_append_right _ (by simp),rfl,rfl⟩
    · obtain ⟨p,hp,hf⟩ := hs.entry pair side e he
      exact ⟨p,List.mem_append_left _ hp,hf⟩
  · intro id h ho
    rw [hdb] at ho
    exact settle_not_consumed hq hl hs.live ho
  · intro p t hp
    rcases hrested p t hp with hp | ⟨_,rfl,_⟩
    · exact List.mem_append_left _ (hs.known p t hp)
    · exact List.mem_append_right _ (by simp)
  · intro p t hp h ho
    rw [hdb] at ho ⊢
    rcases hrested p t hp with hp | ⟨hr,rfl,rfl⟩
    · obtain ⟨⟨h₀,ho⟩,httl⟩ := settle_ttl_of_order hl (hne p t hp) ho
      rw [httl]
      exact hs.hour p t hp h₀ ho
    · have hid : p.id = a.orderId := rfl
      rw [settle_ttl, if_pos ⟨hr,hid⟩]
      have hnow : (s.submit p asset amount).now = s.now := rfl
      rw [hnow, Nat.add_sub_cancel_left]
      exact ⟨Nat.lt_add_of_pos_right (by decide +kernel),rfl⟩
  · intro p t hopen hnow
    rw [hdb]
    rcases hrested p t hopen.rested with hp | ⟨hr,rfl,rfl⟩
    · have hkept : p.id ∉ s.removed := fun h => hopen.kept (List.mem_append_left _ h)
      have hunfilled : s.exchange.tradedI p.id < p.qtyI := by
        have h := tradedI_submit hl p.id
        rw [if_neg (hfresh p (hs.known p t hp)), ← ha] at h
        have h0 := Plan.filledOf_nonneg a s.exchange.db p.id
        have hlt : (s.exchange.submit o asset amount).tradedI p.id < p.qtyI := hopen.unfilled
        omega
      obtain ⟨⟨h,ho⟩,he⟩ := hs.present p t ⟨hp,hunfilled,hkept⟩ hnow
      exact settle_keeps hl (hne p t hp) ho
        (not_dropped_of_open hs hfresh hl (hs.known p t hp) hopen.unfilled hopen.kept) he
    · have hid : p.id = a.orderId := rfl
      refine ⟨⟨_,by rw [settle_order, if_pos ⟨hr,hid⟩]⟩,?_⟩
      rw [mem_entries_settle, if_pos ⟨hr,rfl,rfl⟩]
      exact .inl rfl

end Submit

theorem Reachable.tracked (h : s.Reachable) : s.Tracked := by
  obtain ⟨db,⟨hb,ho⟩,hrun⟩ := h
  induction hrun with
  | refl =>
    refine ⟨?_,by simp [hb],by simp [ho],by simp,by simp,fun o t hopen => ?_⟩
    · constructor <;> simp [ho]
    · cases hopen.rested
  | tail _ hstep ih =>
    cases hstep with
    | submit o asset amount hfresh hquantity =>
      have hq : 0 ≤ o.qtyI := decimalToI64_nonneg hquantity.le
      cases hl : lockBalance _ (matchArgs o asset amount) with
      | none => exact ih.submit_refused hfresh hq hl
      | some db₁ => exact ih.submit_locked hfresh hq hl
    | cancel o c _ _ _ _ => exact ih.cancel c
    | sweep pair side => exact ih.sweep pair side
    | wait ms => exact ih.wait ms

end Timed

/-! ### Matching an open order -/

/-- The members of an order's set that list before it, with or without a hash. -/
def Valkey.ahead (db : Valkey) (o : Order) : List Uuid :=
  ((db.book o.pairId o.side).rangeByScore none).takeWhile (fun id => id ≠ o.id)

/-- An incoming order that crosses `o`, is not stopped by self-trade prevention before or at
it, and has more quantity than the orders before it can take. -/
structure Order.ComesTo (x : Order) (db : Valkey) (o : Order) : Prop where
  pair : x.pairId = o.pairId
  side : x.side = o.side.opposite
  priced : x.Priced
  price : ∀ p ∈ x.price, if x.side = .buy then o.priceI ≤ decimalToI64 p else decimalToI64 p ≤ o.priceI
  others : x.userId = o.userId → x.stpMode = .none ∧ o.stpMode = .none
  passes : ∀ r ∈ db.resting (db.ahead o), ¬ (matchArgs x "" 0).Stops r.hash
  enough : ((db.resting (db.ahead o)).map (matchArgs x "" 0).tradableI).sum < x.qtyI

instance (x : Order) (db : Valkey) (o : Order) : Decidable (x.ComesTo db o) :=
  decidable_of_iff (x.pairId = o.pairId ∧ x.side = o.side.opposite ∧ (x.orderType = .limit → x.price.isSome) ∧
    (∀ p ∈ x.price, if x.side = .buy then o.priceI ≤ decimalToI64 p else decimalToI64 p ≤ o.priceI) ∧
    (x.userId = o.userId → x.stpMode = .none ∧ o.stpMode = .none) ∧
    (∀ r ∈ db.resting (db.ahead o), ¬ (matchArgs x "" 0).Stops r.hash) ∧
    ((db.resting (db.ahead o)).map (matchArgs x "" 0).tradableI).sum < x.qtyI)
    ⟨fun h => ⟨h.1,h.2.1,h.2.2.1,h.2.2.2.1,h.2.2.2.2.1,h.2.2.2.2.2.1,h.2.2.2.2.2.2⟩,
      fun h => ⟨h.1,h.2,h.3,h.4,h.5,h.6,h.7⟩⟩

section Matched
variable {x o : Order} {db : Valkey}

lemma Order.ComesTo.score_le (h : x.ComesTo db o) :
    ∀ m ∈ maxScore x.side x.price, signedPrice o.side o.priceI ≤ m := by
  have hprice := h.price
  have hside := h.side
  cases hp : x.price with
  | none => cases x.side <;> simp [maxScore]
  | some p =>
    have hlim := hprice p hp
    cases ho : o.side <;> rw [ho] at hside <;> simp_all [maxScore, signedPrice, Side.opposite]

end Matched

namespace Timed
variable {s : Timed} {x o : Order} {t : ℕ}

lemma Tracked.crosses (hs : s.Tracked) (hp : x.Priced) {asset : String} {amount : ℤ} {r : Resting}
    (hr : r ∈ s.exchange.db.resting (candidates s.exchange.db (matchArgs x asset amount))) :
    (matchArgs x asset amount).Crosses r.hash := by
  cases ht : x.orderType with
  | market => exact crosses_of_market _ ht
  | limit =>
    obtain ⟨hid,ho⟩ := mem_resting.mp hr
    obtain ⟨e,he,hmax,hme⟩ := SortedSet.mem_rangeByScore.mp (List.mem_of_mem_take hid)
    obtain ⟨p,hp',hpid,hscore⟩ := hs.entry _ _ e he
    obtain ⟨p',hp'',hpid',hhash⟩ := hs.accounted.source r.id r.hash ho
    obtain rfl := List.inj_on_of_nodup_map hs.accounted.nodup hp' hp'' (hpid.trans (hme.trans hpid'.symm))
    have hprice : r.hash.priceI = p.priceI := by rw [hhash]; rfl
    rw [crosses_iff_score ht (hp ht)]
    intro m hm
    rw [hprice]
    exact hscore ▸ hmax m hm

/-- Alice offers one unit at scaled price 100, and time passes. -/
def offerAged (ms : ℕ) : Timed :=
  ((⟨⟨Valkey.empty,[],[]⟩,0,[],[]⟩ : Timed).submit (.gtcLimit 1 "alice" "BTC-USDT" .sell 100 1) "BTC" 0).wait ms

lemma offerAged_reachable (ms : ℕ) : (offerAged ms).Reachable :=
  ⟨Valkey.empty,⟨fun _ _ => rfl,fun _ => rfl⟩,(Relation.ReflTransGen.refl.tail
    (.submit _ _ _ (by simp) (by decide +kernel))).tail (.wait ms)⟩

end Timed

end MatchingEngine

import MatchingEngine.PlanFacts

/-! Runs of the matcher and the representation of the book. Three separately written pieces
of state (the sorted sets, the order hashes and the trades returned so far) are tied together
by an invariant that every match and every cancel keeps. -/
namespace MatchingEngine
open Library

/-- A trade of the run, with the incoming order that caused it. -/
structure Fill where
  taker : Uuid
  trade : ScriptTrade
  deriving DecidableEq, Repr

def Fill.Involves (f : Fill) (id : Uuid) : Prop := f.taker = id ∨ f.trade.restingId = id

instance (f : Fill) (id : Uuid) : Decidable (f.Involves id) := inferInstanceAs (Decidable (_ ∨ _))

def Reply.trades : Reply → List ScriptTrade
  | .insufficientBalance => []
  | .ok _ _ ts => ts

/-- The store together with the history of the run: the orders submitted, in the order of
the calls, and all trades returned. -/
structure Exchange where
  db : Valkey
  submitted : List Order
  fills : List Fill

namespace Exchange

/-- A `match_order_lua` call. -/
def submit (s : Exchange) (o : Order) (lockAsset : String) (lockAmountScaled : ℤ) : Exchange :=
  let r := matchOrderScript s.db (matchArgs o lockAsset lockAmountScaled)
  ⟨r.2,s.submitted ++ [o],s.fills ++ r.1.trades.map (Fill.mk o.id)⟩

/-- A `remove_order_from_book` call. -/
def remove (s : Exchange) (o : Order) : Exchange := { s with db := s.db.removeOrderFromBook o }

/-- Total quantity over the trades an order took part in, as taker or as maker. -/
def tradedI (s : Exchange) (id : Uuid) : ℤ :=
  ((s.fills.filter (fun f => f.Involves id)).map (fun f => f.trade.qtyI)).sum

/-- One atomic step: a match of a fresh order that `Admit` accepts, or a cancel with the pair
and side under which the order was submitted. -/
inductive Step (Admit : Exchange → Order → Prop) : Exchange → Exchange → Prop
  | submit {s : Exchange} (o : Order) (lockAsset : String) (lockAmountScaled : ℤ)
      (fresh : ∀ p ∈ s.submitted, p.id ≠ o.id) (admitted : Admit s o) :
      Step Admit s (s.submit o lockAsset lockAmountScaled)
  | remove {s : Exchange} (o c : Order) (known : o ∈ s.submitted) (hid : c.id = o.id)
      (hpair : c.pairId = o.pairId) (hside : c.side = o.side) : Step Admit s (s.remove c)

end Exchange

/-- No set has a member and no order hash exists; balances and versions are arbitrary. -/
def Valkey.EmptyBook (db : Valkey) : Prop :=
  (∀ pair side, (db.book pair side).entries = []) ∧ ∀ id, db.order id = none

/-- States reached from an empty book. -/
def Reachable (Admit : Exchange → Order → Prop) (s : Exchange) : Prop :=
  ∃ db : Valkey, db.EmptyBook ∧ Relation.ReflTransGen (Exchange.Step Admit) ⟨db,[],[]⟩ s

/-- The scaled integers of an order, in the range where Lua numbers print exactly. -/
structure Order.InScale (o : Order) : Prop where
  qty_pos : 0 < o.qtyI
  qty_lt : o.qtyI < 10 ^ 14
  price_lt : |o.priceI| < 10 ^ 14

instance (o : Order) : Decidable o.InScale :=
  decidable_of_iff (0 < o.qtyI ∧ o.qtyI < 10 ^ 14 ∧ |o.priceI| < 10 ^ 14)
    ⟨fun h => ⟨h.1,h.2.1,h.2.2⟩,fun h => ⟨h.1,h.2,h.3⟩⟩

/-- Sets and hashes describe the same resting orders. -/
structure Valkey.Represented (db : Valkey) : Prop where
  /-- A member has a hash of that pair and side, and its score is the signed price. -/
  entry : ∀ pair side, ∀ e ∈ (db.book pair side).entries, ∃ h, db.order e.member = some h ∧
    h.pairId = pair ∧ h.side = side ∧ e.score = signedPrice side h.priceI
  /-- A hash belongs to a member of its own set. -/
  member : ∀ id h, db.order id = some h → h.id = id ∧ id ∈ db.book h.pairId h.side
  remaining : ∀ id h, db.order id = some h → 0 < h.remainingI ∧ h.remainingI ≤ h.qtyI
  status : ∀ id h, db.order id = some h →
    h.status = if h.remainingI = h.qtyI then .new else .partiallyFilled

/-- Hashes are what the run's orders have left after the run's trades. -/
structure Exchange.Accounted (s : Exchange) : Prop where
  /-- A hash is the one written for a submitted order, up to remainder and status. -/
  source : ∀ id h, s.db.order id = some h → ∃ o ∈ s.submitted, o.id = id ∧
    h = (matchArgs o "" 0).restingHash h.remainingI h.status
  remaining : ∀ id h, s.db.order id = some h → h.remainingI = h.qtyI - s.tradedI id
  traded_le : ∀ o ∈ s.submitted, s.tradedI o.id ≤ o.qtyI
  known : ∀ f ∈ s.fills, ∀ id, f.Involves id → ∃ o ∈ s.submitted, o.id = id
  nodup : (s.submitted.map Order.id).Nodup

namespace Valkey.Represented
variable {db : Valkey} (hr : db.Represented)
include hr

lemma order_of_mem {pair : String} {side : Side} {id : Uuid} (h : id ∈ db.book pair side) :
    ∃ w, db.order id = some w ∧ w.pairId = pair ∧ w.side = side := by
  obtain ⟨e,he,rfl⟩ := SortedSet.mem_iff.mp h
  obtain ⟨w,hw,hp,hs,_⟩ := hr.entry pair side e he
  exact ⟨w,hw,hp,hs⟩

lemma mem_unique {pair pair' : String} {side side' : Side} {id : Uuid} (h : id ∈ db.book pair side)
    (h' : id ∈ db.book pair' side') : pair = pair' ∧ side = side' := by
  obtain ⟨w,hw,rfl,rfl⟩ := hr.order_of_mem h
  obtain ⟨w',hw',rfl,rfl⟩ := hr.order_of_mem h'
  rw [hw] at hw'
  cases hw'
  exact ⟨rfl,rfl⟩

lemma not_consumed {id : Uuid} {h : OrderHash} (ho : db.order id = some h) : ¬ h.Consumed := by
  have h0 := (hr.remaining id h ho).1
  have hs := hr.status id h ho
  rintro (hc | hc | hc)
  · rw [hc] at hs; split_ifs at hs
  · rw [hc] at hs; split_ifs at hs
  · omega

end Valkey.Represented

/-! ### One visit -/

lemma Visit.outcome_fields {v : Visit} {h : OrderHash} (ho : v.outcome = some h) :
    ∃ q, v.action = .fill q ∧ q < v.resting.hash.remainingI ∧
      h = { v.resting.hash with remainingI := v.resting.hash.remainingI - q, status := .partiallyFilled } := by
  unfold Visit.outcome at ho
  split at ho
  · next q hq =>
    split_ifs at ho with hle
    cases ho
    exact ⟨q,hq,by omega,rfl⟩
  · cases ho

/-- A hash after the visits is one that no visit came to, or what a visit left of it. -/
lemma applyVisits_order_cases {db : Valkey} {a : MatchArgs} {vs : List Visit} (hn : (vs.map Visit.id).Nodup)
    {id : Uuid} {h : OrderHash} (ho : (applyVisits a db vs).order id = some h) :
    (db.order id = some h ∧ ∀ v ∈ vs, v.id ≠ id) ∨ ∃ v ∈ vs, v.id = id ∧ v.outcome = some h := by
  by_cases hx : ∃ v ∈ vs, v.id = id
  · obtain ⟨v,hvs,rfl⟩ := hx
    rw [applyVisits_order_of_mem hn hvs] at ho
    exact .inr ⟨v,hvs,rfl,ho⟩
  · push Not at hx
    rw [applyVisits_order_of_notMem hx] at ho
    exact .inl ⟨ho,hx⟩

/-- Replaying visits of orders that rest in the opposite set keeps the representation. -/
lemma Valkey.Represented.applyVisits {db : Valkey} (hr : db.Represented) {a : MatchArgs} {vs : List Visit}
    (hn : (vs.map Visit.id).Nodup)
    (hv : ∀ v ∈ vs, v.Valid a ∧ db.order v.id = some v.resting.hash ∧
      v.id ∈ db.book a.pairId a.side.opposite) :
    (applyVisits a db vs).Represented := by
  constructor
  · intro pair side e he
    obtain ⟨he,hout⟩ := mem_entries_applyVisits.mp he
    obtain ⟨h,ho,hp,hs,hsc⟩ := hr.entry pair side e he
    by_cases hx : ∃ v ∈ vs, v.id = e.member
    · obtain ⟨v,hvs,hid⟩ := hx
      obtain ⟨_,hvo,hvb⟩ := hv v hvs
      obtain ⟨rfl,rfl⟩ := hr.mem_unique (SortedSet.mem_iff.mpr ⟨e,he,hid.symm⟩) hvb
      cases hoc : v.outcome with
      | none => exact absurd ⟨rfl,rfl,v,hvs,hid,hoc⟩ hout
      | some w =>
        rw [← hid, hvo] at ho
        cases ho
        refine ⟨w,by rw [← hid, applyVisits_order_of_mem hn hvs, hoc],?_⟩
        obtain ⟨q,_,_,rfl⟩ := Visit.outcome_fields hoc
        exact ⟨hp,hs,hsc⟩
    · push Not at hx
      exact ⟨h,by rw [applyVisits_order_of_notMem hx, ho],hp,hs,hsc⟩
  · intro id h ho
    rcases applyVisits_order_cases hn ho with ⟨ho,hx⟩ | ⟨v,hvs,rfl,hoc⟩
    · obtain ⟨hid,hm⟩ := hr.member id h ho
      obtain ⟨e,he,rfl⟩ := SortedSet.mem_iff.mp hm
      refine ⟨hid,SortedSet.mem_iff.mpr ⟨e,mem_entries_applyVisits.mpr ⟨he,?_⟩,rfl⟩⟩
      rintro ⟨_,_,v,hvs,hv',_⟩
      exact hx v hvs hv'
    · obtain ⟨q,_,_,rfl⟩ := Visit.outcome_fields hoc
      obtain ⟨hid,hm⟩ := hr.member v.id _ (hv v hvs).2.1
      obtain ⟨e,he,hem⟩ := SortedSet.mem_iff.mp hm
      refine ⟨hid,SortedSet.mem_iff.mpr ⟨e,mem_entries_applyVisits.mpr ⟨he,?_⟩,hem⟩⟩
      rintro ⟨_,_,w,hws,hw,hwo⟩
      obtain rfl := List.inj_on_of_nodup_map hn hws hvs (hw.trans hem)
      rw [hoc] at hwo
      cases hwo
  · intro id h ho
    rcases applyVisits_order_cases hn ho with ⟨ho,_⟩ | ⟨v,hvs,rfl,hoc⟩
    · exact hr.remaining id h ho
    · obtain ⟨hval,hvo,_⟩ := hv v hvs
      obtain ⟨q,hq,hlt,rfl⟩ := Visit.outcome_fields hoc
      have h0 := hr.remaining _ _ hvo
      have hq0 := (hval.fill q hq).1
      exact ⟨by simpa using hlt,by simp only; omega⟩
  · intro id h ho
    rcases applyVisits_order_cases hn ho with ⟨ho,_⟩ | ⟨v,hvs,rfl,hoc⟩
    · exact hr.status id h ho
    · obtain ⟨hval,hvo,_⟩ := hv v hvs
      obtain ⟨q,hq,hlt,rfl⟩ := Visit.outcome_fields hoc
      have h0 := hr.remaining _ _ hvo
      have hq0 := (hval.fill q hq).1
      simp only
      rw [if_neg (by omega)]

lemma Valkey.Represented.placeResting {db : Valkey} (hr : db.Represented) {a : MatchArgs} {rem : ℤ}
    {st : OrderStatus} (hfresh : db.order a.orderId = none) (hscore : a.score = signedPrice a.side a.priceI)
    (hrem : 0 < rem ∧ rem ≤ a.qtyI) (hst : st = if rem = a.qtyI then .new else .partiallyFilled) :
    (placeResting a db rem st).Represented := by
  have hold : ∀ pair side, ∀ e ∈ (db.book pair side).entries, e.member ≠ a.orderId := by
    intro pair side e he hm
    obtain ⟨h,ho,_⟩ := hr.entry pair side e he
    rw [hm, hfresh] at ho
    cases ho
  constructor
  · intro pair side e he
    by_cases hk : (pair = a.pairId ∧ side = a.side) ∧ e = ⟨a.score,a.orderId⟩
    · obtain ⟨⟨rfl,rfl⟩,rfl⟩ := hk
      exact ⟨_,by rw [placeResting_order, if_pos rfl],rfl,rfl,hscore⟩
    · have he' : e ∈ (db.book pair side).entries := by
        rw [mem_entries_placeResting] at he
        split_ifs at he with hp
        · exact (he.resolve_left (fun h => hk ⟨hp,h⟩)).1
        · exact he
      obtain ⟨h,ho,hf⟩ := hr.entry pair side e he'
      exact ⟨h,by rw [placeResting_order, if_neg (hold pair side e he'), ho],hf⟩
  · intro id h ho
    rw [placeResting_order] at ho
    split_ifs at ho with hid
    · cases ho
      subst hid
      refine ⟨rfl,SortedSet.mem_iff.mpr ⟨⟨a.score,a.orderId⟩,mem_entries_placeResting.mpr ?_,rfl⟩⟩
      rw [if_pos ⟨rfl,rfl⟩]
      exact .inl rfl
    · obtain ⟨hi,hm⟩ := hr.member id h ho
      obtain ⟨e,he,rfl⟩ := SortedSet.mem_iff.mp hm
      refine ⟨hi,SortedSet.mem_iff.mpr ⟨e,mem_entries_placeResting.mpr ?_,rfl⟩⟩
      split_ifs
      · exact .inr ⟨he,hid⟩
      · exact he
  · intro id h ho
    rw [placeResting_order] at ho
    split_ifs at ho
    · cases ho; exact hrem
    · exact hr.remaining id h ho
  · intro id h ho
    rw [placeResting_order] at ho
    split_ifs at ho
    · cases ho; exact hst
    · exact hr.status id h ho

lemma Valkey.Represented.dropOrder {db : Valkey} (hr : db.Represented) {pair : String} {side : Side}
    {id : Uuid} (hown : ∀ h, db.order id = some h → h.pairId = pair ∧ h.side = side) :
    (db.dropOrder pair side id).Represented := by
  have hentry : ∀ p s e, e ∈ ((db.dropOrder pair side id).book p s).entries ↔
      e ∈ (db.book p s).entries ∧ e.member ≠ id := by
    intro p s e
    by_cases hk : p = pair ∧ s = side
    · simp [hk, SortedSet.mem_entries_remove]
    · simp only [Valkey.dropOrder_book, if_neg hk]
      refine ⟨fun he => ⟨he,?_⟩,And.left⟩
      rintro rfl
      obtain ⟨h,ho,rfl,rfl,_⟩ := hr.entry p s e he
      exact hk (hown h ho)
  have horder : ∀ x h, (db.dropOrder pair side id).order x = some h ↔ x ≠ id ∧ db.order x = some h := by
    intro x h
    by_cases hx : x = id <;> simp [hx]
  constructor
  · intro p s e he
    obtain ⟨he,hne⟩ := (hentry p s e).mp he
    obtain ⟨h,ho,hf⟩ := hr.entry p s e he
    exact ⟨h,(horder _ _).mpr ⟨hne,ho⟩,hf⟩
  · intro x h ho
    obtain ⟨hne,ho⟩ := (horder x h).mp ho
    obtain ⟨hi,hm⟩ := hr.member x h ho
    obtain ⟨e,he,rfl⟩ := SortedSet.mem_iff.mp hm
    exact ⟨hi,SortedSet.mem_iff.mpr ⟨e,(hentry _ _ _).mpr ⟨he,hne⟩,rfl⟩⟩
  · intro x h ho; exact hr.remaining x h ((horder x h).mp ho).2
  · intro x h ho; exact hr.status x h ((horder x h).mp ho).2

lemma Valkey.Represented.congr {db db' : Valkey} (hr : db.Represented) (ho : db'.order = db.order)
    (hb : db'.book = db.book) : db'.Represented := by
  constructor
  · rw [ho, hb]; exact hr.entry
  · rw [ho, hb]; exact hr.member
  · rw [ho]; exact hr.remaining
  · rw [ho]; exact hr.status

/-! ### One call -/

lemma Plan.Rests.status_eq {a : MatchArgs} {db : Valkey} (hq : 0 ≤ a.qtyI) (h : (a.planOn db).Rests a) :
    (a.planOn db).status a =
      if (a.planOn db).remainingI = a.qtyI then .new else .partiallyFilled := by
  obtain ⟨htif,hrem,_⟩ := h
  obtain ⟨hs,_⟩ := planOn_account hq hrem
  have hle := planOn_remainingI_le db hq
  rw [Plan.status_of_pos hs hrem, if_neg (by simp [htif])]
  split_ifs <;> first | rfl | omega

theorem Valkey.Represented.settle {db : Valkey} (hr : db.Represented) {a : MatchArgs} (hq : 0 ≤ a.qtyI)
    (hfresh : db.order a.orderId = none) (hscore : a.score = signedPrice a.side a.priceI) :
    (a.settle db (a.planOn db)).Represented := by
  have hv := hr.applyVisits (planOn_ids_nodup a db) (fun v hv => planOn_visit hv)
  rw [settle_eq]
  by_cases h : (a.planOn db).Rests a
  · rw [if_pos h]
    have hf : (MatchingEngine.applyVisits a db (a.planOn db).visits).order a.orderId = none := by
      rw [applyVisits_order_of_notMem (planOn_visit_ne hfresh), hfresh]
    exact (hv.placeResting hf hscore ⟨h.2.1,planOn_remainingI_le db hq⟩ (h.status_eq hq)).congr rfl rfl
  · rw [if_neg h]
    exact hv.congr rfl rfl

lemma submit_of_lock {s : Exchange} {o : Order} {asset : String} {amount : ℤ} {db₁ : Valkey}
    (hl : lockBalance s.db (matchArgs o asset amount) = some db₁) :
    s.submit o asset amount = ⟨(matchArgs o asset amount).settle db₁ ((matchArgs o asset amount).planOn s.db),
      s.submitted ++ [o],
      s.fills ++ (((matchArgs o asset amount).planOn s.db).trades (matchArgs o asset amount)).map (Fill.mk o.id)⟩ := by
  simp only [Exchange.submit, matchOrderScript_eq, hl]
  rfl

lemma submit_of_no_lock {s : Exchange} {o : Order} {asset : String} {amount : ℤ}
    (hl : lockBalance s.db (matchArgs o asset amount) = none) :
    s.submit o asset amount = ⟨s.db,s.submitted ++ [o],s.fills⟩ := by
  simp [Exchange.submit, matchOrderScript_eq, hl, Reply.trades]

/-- The quantity a plan takes from one resting order. -/
def Plan.filledOf (p : Plan) (id : Uuid) : ℤ := ((p.visits.filter (fun v => v.id = id)).map Visit.filledI).sum

lemma Plan.filledOf_of_notMem {p : Plan} {id : Uuid} (h : ∀ v ∈ p.visits, v.id ≠ id) : p.filledOf id = 0 := by
  have hf : p.visits.filter (fun v => v.id = id) = [] := by
    rw [List.filter_eq_nil_iff]
    intro v hv
    simpa using h v hv
  simp [Plan.filledOf, hf]

lemma Plan.filledOf_of_mem {p : Plan} {v : Visit} (hn : (p.visits.map Visit.id).Nodup) (hv : v ∈ p.visits) :
    p.filledOf v.id = v.filledI := by
  unfold Plan.filledOf
  generalize p.visits = vs at hn hv
  induction vs with
  | nil => cases hv
  | cons w vs ih =>
    rw [List.map_cons, List.nodup_cons] at hn
    by_cases hw : w.id = v.id
    · have hnone : vs.filter (fun u => u.id = v.id) = [] := by
        rw [List.filter_eq_nil_iff]
        intro u hu he
        exact hn.1 (hw ▸ (by simpa using he : u.id = v.id) ▸ List.mem_map_of_mem hu)
      have hwv : w = v := by
        rcases List.mem_cons.mp hv with h | h
        · exact h.symm
        · exact absurd (hw ▸ List.mem_map_of_mem h) hn.1
      simp [hnone, hwv]
    · rcases List.mem_cons.mp hv with rfl | h
      · exact absurd rfl hw
      · simpa [hw] using ih hn.2 h

lemma Plan.filledOf_nonneg (a : MatchArgs) (db : Valkey) (id : Uuid) : 0 ≤ (a.planOn db).filledOf id := by
  refine List.sum_nonneg (fun q hq => ?_)
  obtain ⟨v,hv,rfl⟩ := List.mem_map.mp hq
  exact (plan_valid (List.mem_filter.mp hv).1).filledI_nonneg

lemma Plan.trades_sum (a : MatchArgs) (p : Plan) (id : Uuid) :
    (((p.trades a).filter (fun t => t.restingId = id)).map ScriptTrade.qtyI).sum = p.filledOf id := by
  unfold Plan.trades Plan.filledOf
  induction p.visits with
  | nil => rfl
  | cons v vs ih =>
    obtain ⟨r,act⟩ := v
    cases act with
    | cancel => by_cases hv : r.id = id <;> simpa [List.filterMap_cons, hv] using ih
    | fill q => by_cases hv : r.id = id <;> simpa [MatchArgs.trade, hv] using ih

lemma Plan.trades_sum_all (a : MatchArgs) (p : Plan) :
    ((p.trades a).map ScriptTrade.qtyI).sum = p.filledI := by
  unfold Plan.trades Plan.filledI
  induction p.visits with
  | nil => rfl
  | cons v vs ih =>
    obtain ⟨r,act⟩ := v
    cases act with
    | cancel => simpa [List.filterMap_cons] using ih
    | fill q => simpa [MatchArgs.trade] using ih

/-- A call adds its own fills to the totals: all of them to the incoming order's, and to
a resting order's the quantity taken from it. -/
lemma tradedI_append (db : Valkey) (os : List Order) (fs : List Fill) (a : MatchArgs) (p : Plan) (taker id : Uuid) :
    Exchange.tradedI ⟨db,os,fs ++ (p.trades a).map (Fill.mk taker)⟩ id =
      Exchange.tradedI ⟨db,os,fs⟩ id + if id = taker then p.filledI else p.filledOf id := by
  simp only [Exchange.tradedI, List.filter_append, List.map_append, List.sum_append]
  congr 1
  split_ifs with h
  · subst h
    rw [← Plan.trades_sum_all a p]
    simp [List.filter_map, Function.comp_def, Fill.Involves]
  · rw [← Plan.trades_sum a p id]
    simp [List.filter_map, Function.comp_def, Fill.Involves, Ne.symm h]

lemma tradedI_submit {s : Exchange} {o : Order} {asset : String} {amount : ℤ} {db₁ : Valkey}
    (hl : lockBalance s.db (matchArgs o asset amount) = some db₁) (id : Uuid) :
    (s.submit o asset amount).tradedI id = s.tradedI id + if id = o.id then
      ((matchArgs o asset amount).planOn s.db).filledI else ((matchArgs o asset amount).planOn s.db).filledOf id := by
  rw [submit_of_lock hl, tradedI_append]
  rfl

/-! ### Runs -/

/-- Hashes are those written for orders of the run, up to remainder and status. -/
def Exchange.Sourced (s : Exchange) : Prop := ∀ id h, s.db.order id = some h → ∃ o ∈ s.submitted, o.id = id ∧
  h = (matchArgs o "" 0).restingHash h.remainingI h.status

lemma Exchange.Sourced.order_fresh {s : Exchange} (hs : s.Sourced) {id : Uuid} (h : ∀ p ∈ s.submitted, p.id ≠ id) :
    s.db.order id = none := by
  cases ho : s.db.order id with
  | none => rfl
  | some w =>
    obtain ⟨o,hm,hid,_⟩ := hs id w ho
    exact absurd hid (h o hm)

namespace Exchange.Accounted
variable {s : Exchange} (hs : s.Accounted)
include hs

lemma tradedI_fresh {id : Uuid} (h : ∀ p ∈ s.submitted, p.id ≠ id) : s.tradedI id = 0 := by
  have hf : s.fills.filter (fun f => f.Involves id) = [] := by
    rw [List.filter_eq_nil_iff]
    intro f hf hi
    obtain ⟨o,ho,hid⟩ := hs.known f hf id (by simpa using hi)
    exact h o ho hid
  simp [Exchange.tradedI, hf]

lemma order_fresh {id : Uuid} (h : ∀ p ∈ s.submitted, p.id ≠ id) : s.db.order id = none :=
  Exchange.Sourced.order_fresh hs.source h

lemma qtyI_eq {o : Order} {h : OrderHash} (ho : o ∈ s.submitted) (hh : s.db.order o.id = some h) :
    h.qtyI = o.qtyI := by
  obtain ⟨o',ho',hid,he⟩ := hs.source o.id h hh
  obtain rfl := List.inj_on_of_nodup_map hs.nodup ho' ho hid
  rw [he]
  rfl

end Exchange.Accounted

/-- A hash after the call is the resting incoming order, the outcome of a visit, or an
untouched hash. -/
lemma settle_order_cases {a : MatchArgs} {db db₁ : Valkey} {id : Uuid} {h : OrderHash}
    (hl : lockBalance db a = some db₁) (ho : (a.settle db₁ (a.planOn db)).order id = some h) :
    ((a.planOn db).Rests a ∧ id = a.orderId ∧
      h = a.restingHash (a.planOn db).remainingI ((a.planOn db).status a)) ∨
    (∃ v ∈ (a.planOn db).visits, v.id = id ∧ v.outcome = some h) ∨
    ((∀ v ∈ (a.planOn db).visits, v.id ≠ id) ∧ db.order id = some h) := by
  rw [settle_order] at ho
  split_ifs at ho with hr
  · cases ho
    exact .inl ⟨hr.1,hr.2,rfl⟩
  · rcases applyVisits_order_cases (planOn_ids_nodup a db) ho with ⟨ho,hx⟩ | hvisited
    · rw [(lockBalance_frame hl).1] at ho
      exact .inr (.inr ⟨hx,ho⟩)
    · exact .inr (.inl hvisited)

/-- A call drops a resting order only by filling it or by self-trade prevention. -/
lemma settle_keeps {a : MatchArgs} {db db₁ : Valkey} {id : Uuid} (hl : lockBalance db a = some db₁)
    (hid : id ≠ a.orderId) {h : OrderHash} (ho : db.order id = some h)
    (hdrop : ∀ v ∈ (a.planOn db).visits, v.id = id → v.outcome ≠ none) {pair : String} {side : Side} {score : ℤ}
    (he : ⟨score,id⟩ ∈ (db.book pair side).entries) :
    (∃ h', (a.settle db₁ (a.planOn db)).order id = some h') ∧
      ⟨score,id⟩ ∈ ((a.settle db₁ (a.planOn db)).book pair side).entries := by
  obtain ⟨_,hbook,_⟩ := lockBalance_frame hl
  constructor
  · by_cases hx : ∃ v ∈ (a.planOn db).visits, v.id = id
    · obtain ⟨v,hv,rfl⟩ := hx
      rw [settle_order_visited hv (fun _ => hid)]
      exact Option.ne_none_iff_exists'.mp (hdrop v hv rfl)
    · push Not at hx
      exact ⟨h,by rw [settle_order_unvisited hl hx (fun _ => hid), ho]⟩
  · have hmem : ⟨score,id⟩ ∈ ((applyVisits a db₁ (a.planOn db).visits).book pair side).entries := by
      rw [mem_entries_applyVisits, hbook]
      exact ⟨he,fun ⟨_,_,v,hv,hvid,hout⟩ => hdrop v hv hvid hout⟩
    rw [mem_entries_settle]
    split_ifs
    · exact .inr ⟨hmem,hid⟩
    · exact hmem

lemma settle_entry_cases {a : MatchArgs} {db db₁ : Valkey} (hl : lockBalance db a = some db₁) {pair : String} {side : Side}
    {e : Entry ℤ Uuid} (he : e ∈ ((a.settle db₁ (a.planOn db)).book pair side).entries) :
    (pair = a.pairId ∧ side = a.side ∧ e = ⟨a.score,a.orderId⟩) ∨ e ∈ (db.book pair side).entries := by
  rw [mem_entries_settle] at he
  have hold : e ∈ ((applyVisits a db₁ (a.planOn db).visits).book pair side).entries → e ∈ (db.book pair side).entries := by
    intro h
    rw [mem_entries_applyVisits, (lockBalance_frame hl).2.1] at h
    exact h.1
  split_ifs at he with hk
  · rcases he with rfl | he
    · exact .inl ⟨hk.2.1,hk.2.2,rfl⟩
    · exact .inr (hold he.1)
  · exact .inr (hold he)

lemma submit_order_none {s : Exchange} {o : Order} {asset : String} {amount : ℤ} {id : Uuid}
    (h : s.db.order id = none) (hne : id ≠ o.id) : (s.submit o asset amount).db.order id = none := by
  cases hl : lockBalance s.db (matchArgs o asset amount) with
  | none =>
    rw [submit_of_no_lock hl]
    exact h
  | some db₁ =>
    rw [submit_of_lock hl]
    exact (settle_order_unvisited hl (planOn_visit_ne h) (fun _ => hne)).trans h

lemma rests_of_order_ne_none {s : Exchange} {o : Order} {asset : String} {amount : ℤ} {db₁ : Valkey}
    (hl : lockBalance s.db (matchArgs o asset amount) = some db₁) (hfresh : s.db.order o.id = none)
    (h : (s.submit o asset amount).db.order o.id ≠ none) :
    ((matchArgs o asset amount).planOn s.db).Rests (matchArgs o asset amount) := by
  obtain ⟨w,hw⟩ := Option.ne_none_iff_exists'.mp h
  rw [submit_of_lock hl] at hw
  rcases settle_order_cases hl hw with ⟨hrests,_,_⟩ | ⟨v,hv,hid,_⟩ | ⟨_,ho⟩
  · exact hrests
  · exact absurd hid (planOn_visit_ne hfresh v hv)
  · rw [hfresh] at ho
    cases ho

lemma Exchange.Sourced.submit {s : Exchange} (hs : s.Sourced) (o : Order) (asset : String) (amount : ℤ) :
    (s.submit o asset amount).Sourced := by
  intro id h ho
  cases hl : lockBalance s.db (matchArgs o asset amount) with
  | none =>
    rw [submit_of_no_lock hl] at ho ⊢
    obtain ⟨p,hp,hpid⟩ := hs id h ho
    exact ⟨p,by simp [hp],hpid⟩
  | some db₁ =>
    rw [submit_of_lock hl] at ho ⊢
    rcases settle_order_cases hl ho with ⟨_,rfl,rfl⟩ | ⟨v,hv,rfl,hout⟩ | ⟨_,ho⟩
    · exact ⟨o,by simp,rfl,rfl⟩
    · obtain ⟨q,_,_,rfl⟩ := Visit.outcome_fields hout
      obtain ⟨o',ho',hid,he⟩ := hs v.id _ (planOn_visit hv).2.1
      exact ⟨o',by simp [ho'],hid,by rw [he]; rfl⟩
    · obtain ⟨o',ho',hid⟩ := hs id h ho
      exact ⟨o',by simp [ho'],hid⟩

section AccountedSubmit
variable {s : Exchange} (hs : s.Accounted) {o : Order} {asset : String} {amount : ℤ}
  (hfresh : ∀ p ∈ s.submitted, p.id ≠ o.id)
include hs hfresh

lemma Exchange.Accounted.nodup_append : ((s.submitted ++ [o]).map Order.id).Nodup := by
  rw [List.map_append, List.nodup_append]
  refine ⟨hs.nodup,by simp,?_⟩
  intro x hx y hy hxy
  obtain ⟨p,hp,rfl⟩ := List.mem_map.mp hx
  obtain rfl : y = o.id := by simpa using hy
  exact hfresh p hp hxy

lemma Exchange.Accounted.visit_stored {v : Visit} (hv : v ∈ ((matchArgs o asset amount).planOn s.db).visits) :
    v.Valid (matchArgs o asset amount) ∧ s.db.order v.id = some v.resting.hash ∧ v.id ≠ o.id := by
  obtain ⟨hval,ho,_⟩ := planOn_visit hv
  refine ⟨hval,ho,fun he => ?_⟩
  rw [he, hs.order_fresh hfresh] at ho
  cases ho

variable {db₁ : Valkey} (hl : lockBalance s.db (matchArgs o asset amount) = some db₁)
include hl

/-- What is left of an order after the match is its quantity less all its trades. -/
lemma Exchange.Accounted.remaining_settle (hq : 0 ≤ o.qtyI) {id : Uuid} {h : OrderHash}
    (ho : ((matchArgs o asset amount).settle db₁ ((matchArgs o asset amount).planOn s.db)).order id = some h) :
    h.remainingI = h.qtyI - (s.tradedI id + if id = o.id then ((matchArgs o asset amount).planOn s.db).filledI
      else ((matchArgs o asset amount).planOn s.db).filledOf id) := by
  set a := matchArgs o asset amount
  set p := a.planOn s.db
  rcases settle_order_cases hl ho with ⟨hrest,rfl,rfl⟩ | ⟨v,hv,rfl,hout⟩ | ⟨hx,ho⟩
  · have hacc : p.filledI + p.remainingI = a.qtyI := (planOn_account hq hrest.2.1).2
    have h0 := hs.tradedI_fresh hfresh
    have hid : a.orderId = o.id := rfl
    rw [if_pos hid, hid, h0]
    change p.remainingI = a.qtyI - (0 + p.filledI)
    omega
  · obtain ⟨q,hq',_,rfl⟩ := Visit.outcome_fields hout
    obtain ⟨_,hvo,hne⟩ := hs.visit_stored hfresh hv
    have hrem := hs.remaining v.id _ hvo
    have hfill : v.filledI = q := by simp [Visit.filledI, hq']
    rw [if_neg hne, Plan.filledOf_of_mem (planOn_ids_nodup a s.db) hv, hfill]
    simp only
    omega
  · have hne : id ≠ o.id := by
      rintro rfl
      rw [hs.order_fresh hfresh] at ho
      cases ho
    rw [if_neg hne, Plan.filledOf_of_notMem hx, add_zero]
    exact hs.remaining id h ho

omit hl in
lemma Exchange.Accounted.traded_le_append (hq : 0 ≤ o.qtyI) {p' : Order} (hp : p' ∈ s.submitted ++ [o]) :
    s.tradedI p'.id + (if p'.id = o.id then ((matchArgs o asset amount).planOn s.db).filledI
      else ((matchArgs o asset amount).planOn s.db).filledOf p'.id) ≤ p'.qtyI := by
  set a := matchArgs o asset amount
  set p := a.planOn s.db
  rcases List.mem_append.mp hp with hp | hp
  · rw [if_neg (hfresh p' hp)]
    by_cases hx : ∃ v ∈ p.visits, v.id = p'.id
    · obtain ⟨v,hv,hid⟩ := hx
      obtain ⟨hval,hvo,_⟩ := hs.visit_stored hfresh hv
      have hle := hval.filledI_le
      have hrem := hs.remaining v.id _ hvo
      have hqty := hs.qtyI_eq hp (hid ▸ hvo)
      rw [← hid, Plan.filledOf_of_mem (planOn_ids_nodup a s.db) hv]
      omega
    · push Not at hx
      rw [Plan.filledOf_of_notMem hx, add_zero]
      exact hs.traded_le p' hp
  · obtain rfl := List.mem_singleton.mp hp
    rw [if_pos rfl, hs.tradedI_fresh hfresh, zero_add]
    exact plan_filledI_le a _ hq

omit hl in
lemma Exchange.Accounted.known_append {t : ScriptTrade}
    (ht : t ∈ ((matchArgs o asset amount).planOn s.db).trades (matchArgs o asset amount)) {id : Uuid}
    (hi : (Fill.mk o.id t).Involves id) : ∃ p ∈ s.submitted ++ [o], p.id = id := by
  rcases hi with rfl | rfl
  · exact ⟨o,by simp,rfl⟩
  · obtain ⟨v,hv,hvt⟩ := List.mem_filterMap.mp ht
    obtain ⟨o',ho',hid,_⟩ := hs.source v.id _ (hs.visit_stored hfresh hv).2.1
    refine ⟨o',by simp [ho'],hid.trans ?_⟩
    unfold Visit.trade? at hvt
    split at hvt
    · cases hvt
      rfl
    · cases hvt

omit hl in
theorem Exchange.Accounted.submit (hq : 0 ≤ o.qtyI) : (s.submit o asset amount).Accounted := by
  have hsource : (s.submit o asset amount).Sourced := Exchange.Sourced.submit hs.source o asset amount
  have hknown : ∀ f ∈ s.fills, ∀ id, f.Involves id → ∃ p ∈ s.submitted ++ [o], p.id = id := by
    intro f hf id hi
    obtain ⟨p,hp,hpid⟩ := hs.known f hf id hi
    exact ⟨p,by simp [hp],hpid⟩
  cases hl : lockBalance s.db (matchArgs o asset amount) with
  | none =>
    rw [submit_of_no_lock hl] at hsource ⊢
    refine ⟨hsource,hs.remaining,?_,hknown,hs.nodup_append hfresh⟩
    intro p hp
    rcases List.mem_append.mp hp with hp | hp
    · exact hs.traded_le p hp
    · obtain rfl := List.mem_singleton.mp hp
      have h0 := hs.tradedI_fresh hfresh
      change s.tradedI p.id ≤ p.qtyI
      omega
  | some db₁ =>
    rw [submit_of_lock hl] at hsource ⊢
    refine ⟨hsource,?_,?_,?_,hs.nodup_append hfresh⟩
    · intro id h ho
      rw [tradedI_append]
      exact hs.remaining_settle hfresh hl hq ho
    · intro p hp
      rw [tradedI_append]
      exact hs.traded_le_append hfresh hq hp
    · intro f hf id hi
      rcases List.mem_append.mp hf with hf | hf
      · exact hknown f hf id hi
      · obtain ⟨t,ht,rfl⟩ := List.mem_map.mp hf
        exact hs.known_append hfresh ht hi

end AccountedSubmit

lemma Exchange.Accounted.remove {s : Exchange} (hs : s.Accounted) (c : Order) : (s.remove c).Accounted := by
  have horder : ∀ id h, (s.remove c).db.order id = some h → s.db.order id = some h := by
    intro id h ho
    simp only [Exchange.remove, Valkey.removeOrderFromBook, Valkey.dropOrder_order] at ho
    split_ifs at ho
    exact ho
  exact ⟨fun id h ho => hs.source id h (horder id h ho),fun id h ho => hs.remaining id h (horder id h ho),
    hs.traded_le,hs.known,hs.nodup⟩

lemma Valkey.Represented.submit {s : Exchange} (hr : s.db.Represented) (hs : s.Accounted) {o : Order}
    {asset : String} {amount : ℤ} (hfresh : ∀ p ∈ s.submitted, p.id ≠ o.id) (hq : 0 ≤ o.qtyI) :
    (s.submit o asset amount).db.Represented := by
  cases hl : lockBalance s.db (matchArgs o asset amount) with
  | none => rw [submit_of_no_lock hl]; exact hr
  | some db₁ =>
    obtain ⟨ho,hb,_⟩ := lockBalance_frame hl
    rw [submit_of_lock hl, ← planOn_lock hl]
    refine (hr.congr ho hb).settle hq ?_ rfl
    rw [ho]
    exact hs.order_fresh hfresh

/-- The invariant of every run whose orders have non-negative scaled quantities. -/
theorem Reachable.invariant {Admit : Exchange → Order → Prop} (hq : ∀ s o, Admit s o → 0 ≤ o.qtyI)
    {s : Exchange} (h : Reachable Admit s) : s.db.Represented ∧ s.Accounted := by
  obtain ⟨db,⟨hb,ho⟩,hrun⟩ := h
  induction hrun with
  | refl =>
    constructor
    · constructor <;> intros <;> simp_all
    · constructor <;> simp_all [Exchange.tradedI]
  | tail _ hstep ih =>
    obtain ⟨hr,hs⟩ := ih
    cases hstep with
    | submit o asset amount hfresh hallowed =>
      exact ⟨hr.submit hs hfresh (hq _ _ hallowed),hs.submit hfresh (hq _ _ hallowed)⟩
    | remove o c hknown hid hpair hside =>
      refine ⟨hr.dropOrder ?_,hs.remove c⟩
      intro w hw
      rw [hid] at hw
      obtain ⟨o',ho',hid',he⟩ := hs.source o.id w hw
      obtain rfl := List.inj_on_of_nodup_map hs.nodup ho' hknown hid'
      rw [he, hpair, hside]
      exact ⟨rfl,rfl⟩

/-- In every reached state a set member is exactly an existing hash of that pair and side,
scored by its signed price; remainders are positive, within the quantity and reported by
the status; and quantity minus traded amount is what remains. No order is ever overfilled. -/
theorem reachable_book_representation {s : Exchange}
    (h : Reachable (fun _ o => o.tif ≠ .fok ∧ o.InScale) s) :
    (∀ id pair pair' side side', id ∈ s.db.book pair side → id ∈ s.db.book pair' side' →
      pair = pair' ∧ side = side') ∧
    (∀ id, (∃ pair side, id ∈ s.db.book pair side) ↔ ∃ w, s.db.order id = some w) ∧
    (∀ pair side, ∀ e ∈ (s.db.book pair side).entries, ∃ w, s.db.order e.member = some w ∧
      w.pairId = pair ∧ w.side = side ∧ e.score = signedPrice side w.priceI) ∧
    (∀ id w, s.db.order id = some w → 0 < w.remainingI ∧ w.remainingI ≤ w.qtyI ∧
      (w.status = .new ↔ w.remainingI = w.qtyI) ∧
      (w.remainingI ≠ w.qtyI → w.status = .partiallyFilled)) ∧
    (∀ id w, s.db.order id = some w → w.remainingI = w.qtyI - s.tradedI id ∧
      ∃ o ∈ s.submitted, o.id = id ∧ w.qtyI = o.qtyI ∧ w.priceI = o.priceI) ∧
    ∀ o ∈ s.submitted, s.tradedI o.id ≤ o.qtyI := by
  obtain ⟨hr,hs⟩ := h.invariant (fun _ o ho => ho.2.qty_pos.le)
  refine ⟨fun _ _ _ _ _ h h' => hr.mem_unique h h',?_,hr.entry,?_,?_,hs.traded_le⟩
  · intro id
    constructor
    · rintro ⟨pair,side,hm⟩
      obtain ⟨w,hw,_⟩ := hr.order_of_mem hm
      exact ⟨w,hw⟩
    · rintro ⟨w,hw⟩
      exact ⟨_,_,(hr.member id w hw).2⟩
  · intro id w hw
    obtain ⟨h0,hle⟩ := hr.remaining id w hw
    have hst := hr.status id w hw
    refine ⟨h0,hle,?_,fun hne => by rw [hst, if_neg hne]⟩
    rw [hst]
    split_ifs with he <;> simp [he]
  · intro id w hw
    obtain ⟨o,ho,hid,he⟩ := hs.source id w hw
    exact ⟨hs.remaining id w hw,o,ho,hid,by rw [he]; rfl,by rw [he]; rfl⟩

/-- A sell of five units and a buy that takes three of them. -/
theorem book_representation_after_partial_fill :
    let s := ((Exchange.mk Valkey.empty [] []).submit (.gtcLimit 1 "alice" "BTC-USDT" .sell 100 5) "BTC" 0).submit
      (.gtcLimit 2 "bob" "BTC-USDT" .buy 100 3) "USDT" 0
    s.tradedI 1 = 3 ∧ ∀ o ∈ s.submitted, s.tradedI o.id ≤ o.qtyI := by
  refine ⟨by decide +kernel,(reachable_book_representation
    ⟨Valkey.empty,⟨fun _ _ => rfl,fun _ => rfl⟩,(Relation.ReflTransGen.refl.tail
      (.submit _ _ _ ?_ ?_)).tail (.submit _ _ _ ?_ ?_)⟩).2.2.2.2.2⟩
  · intro p hp
    obtain rfl := List.mem_singleton.mp hp
    decide
  · exact ⟨by decide,by decide +kernel,by decide +kernel,by decide +kernel⟩
  · simp
  · exact ⟨by decide,by decide +kernel,by decide +kernel,by decide +kernel⟩

lemma Order.gtcLimit_inScale (id : Uuid) (userId pairId : String) (side : Side) {priceI qtyI : ℤ}
    (hq : 0 < qtyI ∧ qtyI < 10 ^ 14) (hp : |priceI| < 10 ^ 14) :
    (Order.gtcLimit id userId pairId side priceI qtyI).InScale := by
  obtain ⟨hp₁,hp₂⟩ := abs_lt.mp hp
  have hqty : (Order.gtcLimit id userId pairId side priceI qtyI).qtyI = qtyI :=
    decimalToI64_i64ToDecimal (by omega) (by omega)
  have hprice : (Order.gtcLimit id userId pairId side priceI qtyI).priceI = priceI :=
    decimalToI64_i64ToDecimal (by omega) (by omega)
  exact ⟨by rw [hqty]; exact hq.1,by rw [hqty]; exact hq.2,by rw [hprice]; exact hp⟩

/-- Two asks at one price, given in the order of their calls. -/
def twoAsks (id₁ id₂ : Uuid) : Exchange :=
  ((Exchange.mk Valkey.empty [] []).submit (.gtcLimit id₁ "alice" "BTC-USDT" .sell 100 5) "BTC" 0).submit
    (.gtcLimit id₂ "carol" "BTC-USDT" .sell 100 5) "BTC" 0

lemma twoAsks_reachable {id₁ id₂ : Uuid} (h : id₁ ≠ id₂) :
    Reachable (fun _ o => o.orderType = .limit ∧ o.price.isSome ∧ o.InScale) (twoAsks id₁ id₂) := by
  have hscale : ∀ id user, (Order.gtcLimit id user "BTC-USDT" .sell 100 5).InScale :=
    fun id user => Order.gtcLimit_inScale id user _ _ (by decide) (by decide)
  refine ⟨Valkey.empty,⟨fun _ _ => rfl,fun _ => rfl⟩,(Relation.ReflTransGen.refl.tail
    (.submit _ _ _ ?_ ⟨rfl,rfl,hscale _ _⟩)).tail (.submit _ _ _ ?_ ⟨rfl,rfl,hscale _ _⟩)⟩
  · intro p hp
    obtain rfl := List.mem_singleton.mp hp
    exact h
  · simp

end MatchingEngine

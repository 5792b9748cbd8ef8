import MatchingEngine.Cache
import MatchingEngine.Crossing
import MatchingEngine.Engine
import MatchingEngine.Requests
import MatchingEngine.SelfTrade

/-! The script and the reference engine compute the same match. Both are compared with the
plan: the engine walks the decoded book by `Decimal` arithmetic and reports updates, the
script works on scaled integers and writes the store as it goes. -/
namespace MatchingEngine
open Library

/-- Incoming orders as `process_order` builds them, limit GTC or IOC with a positive price or market IOC
without one. The quantity is on the fixed-point grid, and so is the price of a sell order. -/
structure Order.OnGrid (o : Order) (qtyI : ℤ) : Prop where
  qty : o.quantity = i64ToDecimal qtyI
  qty_pos : 0 < qtyI
  qty_lt : qtyI < 10 ^ 14
  remaining : o.remaining = o.quantity
  status : o.status = .new
  version : o.version = 1
  kind : o.orderType = .limit ∧ (o.tif = .gtc ∨ o.tif = .ioc) ∧ (∃ p, o.price = some p ∧ 0 < p ∧ p * scale < 10 ^ 14 ∧
      (o.side = .sell → p = i64ToDecimal (decimalToI64 p))) ∨
    o.orderType = .market ∧ o.tif = .ioc ∧ o.price = none

/-- Resting limit orders with a positive price, in scale. -/
def OrderHash.PricedLimit (h : OrderHash) : Prop :=
  h.orderType = .limit ∧ 0 < h.priceI ∧ h.priceI < 10 ^ 14 ∧ h.qtyI < 10 ^ 14

/-- Self-trade prevention in scope: cancel the maker, or none on either side. -/
def Order.StpCompatible (o : Order) (h : OrderHash) : Prop :=
  o.stpMode = .cancelMaker ∨ o.stpMode = .none ∧ (h.userId = o.userId → h.stp = .none)

/-- Filled and cancelled entries leave the book, any other replaces its entry. -/
def Valkey.applyUpdate (db : Valkey) (u : Order) : Valkey :=
  if u.status = .filled ∨ u.status = .cancelled then db.removeOrderFromBook u else db.saveOrderToBook u

/-- The book after an engine run: its updates, then the incoming remainder. -/
def Valkey.applyResult (db : Valkey) (r : MatchResult) : Valkey :=
  let db' := r.bookUpdates.foldl Valkey.applyUpdate db
  if r.incoming.status ≠ .cancelled ∧ 0 < r.incoming.remaining then db'.saveOrderToBook r.incoming else db'

/-- The entry the engine reports for a visit. -/
def Visit.update (v : Visit) : Order :=
  match v.action with
  | .fill q => Engine.afterFill (parseOrderFromHmget v.resting.hash) (i64ToDecimal q)
  | .cancel => { parseOrderFromHmget v.resting.hash with status := .cancelled }

namespace EngineAgreement
variable {o : Order} {qtyI : ℤ}

lemma le_truncate_iff {d : Decimal} (h : 0 ≤ d) {i : ℤ} : i ≤ truncate d ↔ (i : ℚ) ≤ d := by
  have hfloor : truncate d = ⌊d⌋ := by
    rw [truncate, Int.tdiv_eq_ediv_of_nonneg (Rat.num_nonneg.mpr h), Rat.floor_def']
  rw [hfloor]
  exact Int.le_floor

lemma le_decimalToI64_iff {d : Decimal} (h : 0 ≤ d) (h' : d * scale < 2 ^ 63) {i : ℤ} :
    i ≤ decimalToI64 d ↔ i64ToDecimal i ≤ d := by
  have hs : 0 ≤ d * scale := mul_nonneg h scale_pos.le
  have hfits : -2 ^ 63 ≤ truncate (d * scale) ∧ truncate (d * scale) < 2 ^ 63 := by
    refine ⟨(le_truncate_iff hs).mpr (le_trans (by norm_num) hs),?_⟩
    by_contra hge
    have hle := (le_truncate_iff hs).mp (not_lt.mp hge)
    push_cast at hle
    exact absurd h' (not_lt.mpr hle)
  rw [decimalToI64, if_pos hfits, le_truncate_iff hs, i64ToDecimal, div_le_iff₀ scale_pos]

lemma matchArgs_qtyI (hg : o.OnGrid qtyI) (asset : String) (amount : ℤ) :
    (matchArgs o asset amount).qtyI = qtyI := by
  have h0 := hg.qty_pos
  have h1 := hg.qty_lt
  change decimalToI64 o.quantity = qtyI
  rw [hg.qty, decimalToI64_i64ToDecimal (by omega) (by omega)]

lemma priceMatches_iff (hg : o.OnGrid qtyI) {h : OrderHash} (hh : h.PricedLimit) (rem : Decimal)
    (st : OrderStatus) (asset : String) (amount : ℤ) :
    Engine.priceMatches { o with remaining := rem, status := st } (parseOrderFromHmget h) = true ↔
      (matchArgs o asset amount).Crosses h := by
  obtain ⟨hl,h0,_⟩ := hh
  rcases hg.kind with ⟨ht,_,p,hp,hp0,hp1,hgrid⟩ | ⟨ht,_⟩
  · have hprice : (matchArgs o asset amount).priceI = decimalToI64 p := by
      change (o.price.map decimalToI64).getD 0 = decimalToI64 p
      rw [hp]
      rfl
    have ht' : (matchArgs o asset amount).orderType = .limit := ht
    simp only [MatchArgs.Crosses, hprice, ht']
    cases hs : o.side with
    | buy =>
      -- rounding a bid down passes no resting price
      have hle := le_decimalToI64_iff (i := h.priceI) hp0.le (hp1.trans (by norm_num))
      simp [Engine.priceMatches, parseOrderFromHmget, ht, hp, hl, h0.ne', hs, matchArgs, hle]
    | sell =>
      have hle : p ≤ i64ToDecimal h.priceI ↔ decimalToI64 p ≤ h.priceI := by
        conv_lhs => rw [hgrid hs]
        exact i64ToDecimal_le_iff
      simp [Engine.priceMatches, parseOrderFromHmget, ht, hp, hl, h0.ne', hs, matchArgs, hle]
  · simp [Engine.priceMatches, MatchArgs.Crosses, matchArgs, ht]

lemma stpAction_cases (h : OrderHash) (hs : o.StpCompatible h) (asset : String) (amount : ℤ) :
    (matchArgs o asset amount).stpAction h = .none ∧ ¬ (o.userId = h.userId ∧ o.stpMode ≠ .none) ∨
    (matchArgs o asset amount).stpAction h = .cancelMaker ∧ o.userId = h.userId ∧ o.stpMode = .cancelMaker := by
  by_cases hu : o.userId = h.userId
  · rcases hs with hm | ⟨hm,hstp⟩
    · right
      simp [MatchArgs.stpAction, matchArgs, hu, hm]
    · left
      simp [MatchArgs.stpAction, matchArgs, hu, hm, hstp hu.symm]
  · left
    simp [MatchArgs.stpAction, matchArgs, hu]

lemma min_i64ToDecimal (rem : ℤ) (h : OrderHash) :
    min (i64ToDecimal rem) (i64ToDecimal h.remainingI) = i64ToDecimal (MatchArgs.fillI rem h) := by
  unfold MatchArgs.fillI
  split_ifs with hlt
  · exact min_eq_right (i64ToDecimal_le_iff.mpr hlt.le)
  · exact min_eq_left (i64ToDecimal_le_iff.mpr (not_lt.mp hlt))

def left (o : Order) (rem : ℤ) (st : OrderStatus) : Order := { o with remaining := i64ToDecimal rem, status := st }

def walkStatus (st : OrderStatus) (trades : List ScriptTrade) (rem : ℤ) : OrderStatus :=
  if trades = [] then st else if rem = 0 then .filled else .partiallyFilled

lemma fill_eq (newV4 : ℕ → Uuid) {r : Resting} (hh : r.hash.PricedLimit) (hid : r.hash.id = r.id) (rem : ℤ)
    (st : OrderStatus) (ts : List Trade) (us cs : List Order) (asset : String) (amount : ℤ) :
    Engine.fill newV4 ⟨ts,us,left o rem st,cs⟩ (parseOrderFromHmget r.hash) =
      let a := matchArgs o asset amount
      let q := MatchArgs.fillI rem r.hash
      ⟨ts ++ [buildTrade o (newV4 ts.length) (a.trade r.hash r.id q).toLuaTrade],us ++ [Visit.update ⟨r,.fill q⟩],
        left o (rem - q) (if rem - q = 0 then .filled else .partiallyFilled),cs⟩ := by
  obtain ⟨hl,h0,_⟩ := hh
  have hmin : min (left o rem st).remaining (parseOrderFromHmget r.hash).remaining =
      i64ToDecimal (MatchArgs.fillI rem r.hash) := min_i64ToDecimal rem r.hash
  have hprice : (parseOrderFromHmget r.hash).price = some (i64ToDecimal r.hash.priceI) := by
    simp [parseOrderFromHmget, hl, h0.ne']
  have htrade : ∀ id q, Engine.makeTrade id (left o rem st) (parseOrderFromHmget r.hash) (i64ToDecimal r.hash.priceI)
      (i64ToDecimal q) = buildTrade o id ((matchArgs o asset amount).trade r.hash r.id q).toLuaTrade := by
    intro id q
    cases hs : o.side <;>
      simp [Engine.makeTrade, buildTrade, left, MatchArgs.trade, matchArgs, ScriptTrade.toLuaTrade, hs, hl,
        parseOrderFromHmget, hid]
  have hafter : Engine.afterFill (left o rem st) (i64ToDecimal (MatchArgs.fillI rem r.hash)) =
      left o (rem - MatchArgs.fillI rem r.hash)
        (if rem - MatchArgs.fillI rem r.hash = 0 then .filled else .partiallyFilled) := by
    have hsub : (left o rem st).remaining - i64ToDecimal (MatchArgs.fillI rem r.hash) =
        i64ToDecimal (rem - MatchArgs.fillI rem r.hash) := (i64ToDecimal_sub _ _).symm
    simp only [Engine.afterFill, hsub, i64ToDecimal_eq_zero]
    rfl
  simp only [Engine.fill, hmin, hprice, Option.getD_some, htrade, hafter]
  rfl

lemma walkStatus_cons {a : MatchArgs} {rem : ℤ} {rs : List Resting} (hrem : 0 ≤ rem)
    (hstp : (plan a rem rs).stpCancelled = false) (t : ScriptTrade) (st : OrderStatus) :
    walkStatus (if rem = 0 then .filled else .partiallyFilled) ((plan a rem rs).trades a) (plan a rem rs).remainingI =
      walkStatus st (t :: (plan a rem rs).trades a) (plan a rem rs).remainingI := by
  unfold walkStatus
  rw [if_neg (List.cons_ne_nil _ _)]
  split_ifs with hnil <;> try rfl
  all_goals
    have hacc := (plan_account a rs hrem).2
    rw [if_neg (by simp [hstp]), plan_trades_eq_nil_iff.mp hnil] at hacc
    omega

/-- The engine's walk follows the plan of the script. -/
theorem walkBook_plan (newV4 : ℕ → Uuid) (hg : o.OnGrid qtyI) (asset : String) (amount rem : ℤ)
    {rs : List Resting} (hrem : 0 ≤ rem)
    (hrs : ∀ r ∈ rs, ¬ r.hash.Consumed ∧ r.hash.PricedLimit ∧ o.StpCompatible r.hash ∧ r.hash.id = r.id)
    (st : OrderStatus) (ts : List Trade) (us cs : List Order) :
    let a := matchArgs o asset amount
    let p := plan a rem rs
    p.stpCancelled = false ∧ ∃ cs',
      (Engine.walkBook newV4 (rs.map (fun r => parseOrderFromHmget r.hash)) ⟨ts,us,left o rem st,cs⟩).1 =
        ⟨ts ++ (p.trades a).mapIdx (fun i t => buildTrade o (newV4 (ts.length + i)) t.toLuaTrade),
          us ++ p.visits.map Visit.update,left o p.remainingI (walkStatus st (p.trades a) p.remainingI),cs'⟩ := by
  intro a p
  induction rs generalizing rem st ts us cs with
  | nil => exact ⟨rfl,cs,by simp [p, plan, Engine.walkBook, Plan.trades, walkStatus]⟩
  | cons r rest ih =>
    obtain ⟨hc,hh,hs,hid⟩ := hrs r (by simp)
    have hrest : ∀ x ∈ rest, ¬ x.hash.Consumed ∧ x.hash.PricedLimit ∧ o.StpCompatible x.hash ∧ x.hash.id = x.id :=
      fun x hx => hrs x (by simp [hx])
    by_cases h0 : rem = 0
    · have hp : p = ⟨[],rem,false⟩ := plan_of_le a _ h0.le
      refine ⟨by rw [hp],cs,?_⟩
      simp [hp, Engine.walkBook, left, h0, Plan.trades, walkStatus]
    have hne : ¬ (left o rem st).remaining = 0 := fun h => h0 (i64ToDecimal_eq_zero.mp h)
    by_cases hx : a.Crosses r.hash
    · have hpm : Engine.priceMatches (left o rem st) (parseOrderFromHmget r.hash) = true :=
        (priceMatches_iff hg hh _ st asset amount).mpr hx
      rcases stpAction_cases r.hash hs asset amount with ⟨ha,hu⟩ | ⟨ha,hu,hm⟩
      · have hle := (MatchArgs.fillI_le rem r.hash).1
        set q := MatchArgs.fillI rem r.hash with hq
        have hplan : p = (plan a (rem - q) rest).cons ⟨r,.fill q⟩ := plan_of_fill (by omega) hc hx ha
        obtain ⟨hstp,cs',hwalk⟩ := ih (rem - q) (by omega) hrest
          (if rem - q = 0 then .filled else .partiallyFilled)
          (ts ++ [buildTrade o (newV4 ts.length) (a.trade r.hash r.id q).toLuaTrade])
          (us ++ [Visit.update ⟨r,.fill q⟩]) cs
        refine ⟨by rw [hplan]; exact hstp,cs',?_⟩
        simp only [List.map_cons]
        rw [Engine.walkBook, if_neg hne, if_neg (not_not.mpr hpm)]
        have hu' : ¬ ((left o rem st).userId = (parseOrderFromHmget r.hash).userId ∧ (left o rem st).stpMode ≠ .none) := hu
        simp only [if_neg hu', fill_eq newV4 hh hid rem st ts us cs asset amount]
        rw [hwalk, hplan, walkStatus_cons (by omega) hstp (a.trade r.hash r.id q) st]
        simp [Plan.trades_cons, List.mapIdx_cons, Nat.add_comm, Nat.add_left_comm]
      · have hplan : p = (plan a rem rest).cons ⟨r,.cancel⟩ := plan_of_cancelMaker (by omega) hc hx ha
        obtain ⟨hstp,cs',hwalk⟩ := ih rem hrem hrest st ts (us ++ [Visit.update ⟨r,.cancel⟩])
          (cs ++ [Visit.update ⟨r,.cancel⟩])
        refine ⟨by rw [hplan]; exact hstp,cs',?_⟩
        simp only [List.map_cons]
        rw [Engine.walkBook, if_neg hne, if_neg (not_not.mpr hpm)]
        have hm' : (left o rem st).stpMode = .cancelMaker := hm
        have hu' : (left o rem st).userId = (parseOrderFromHmget r.hash).userId ∧ (left o rem st).stpMode ≠ .none :=
          ⟨hu,by simp [hm']⟩
        simp only [if_pos hu']
        simp only [hm']
        refine (Eq.trans rfl hwalk).trans ?_
        rw [hplan]
        simp
    · have hpm : ¬ Engine.priceMatches (left o rem st) (parseOrderFromHmget r.hash) = true := by
        rwa [left, priceMatches_iff hg hh _ st asset amount]
      have hp : p = ⟨[],rem,false⟩ := by
        simp only [p]
        rw [plan, if_neg (by omega), if_neg hc, if_pos hx]
      refine ⟨by rw [hp],cs,?_⟩
      simp only [List.map_cons]
      rw [Engine.walkBook, if_neg hne, if_pos hpm]
      simp [hp, Plan.trades, walkStatus]

lemma effectiveTif_eq (hg : o.OnGrid qtyI) :
    Engine.effectiveTif o = o.tif ∧ (o.tif = .ioc ∨ o.tif = .gtc) := by
  rcases hg.kind with ⟨ht,ht' | ht',_⟩ | ⟨ht,ht',_⟩ <;> simp [Engine.effectiveTif, ht, ht']

lemma applyTif_walkStatus (hg : o.OnGrid qtyI) (asset : String) (amount : ℤ) (rs : List Resting)
    (hstp : (plan (matchArgs o asset amount) qtyI rs).stpCancelled = false) {trades : List Trade}
    (hts : trades = [] ↔ (plan (matchArgs o asset amount) qtyI rs).trades (matchArgs o asset amount) = []) :
    let a := matchArgs o asset amount
    let p := plan a qtyI rs
    Engine.applyTif (Engine.effectiveTif o) trades (left o p.remainingI (walkStatus .new (p.trades a) p.remainingI)) =
      left o p.remainingI (p.status a) := by
  intro a p
  have hqty : a.qtyI = qtyI := matchArgs_qtyI hg asset amount
  obtain ⟨h0,hacc⟩ : 0 ≤ p.remainingI ∧ _ := plan_account a rs hg.qty_pos.le
  have hacc : p.filledI + p.remainingI = qtyI := by rwa [if_neg (by simp [a, hstp])] at hacc
  have hf0 : 0 ≤ p.filledI := Plan.filledI_nonneg a qtyI rs
  have hnil : p.trades a = [] ↔ p.remainingI = qtyI := by
    rw [plan_trades_eq_nil_iff]
    change p.filledI = 0 ↔ _
    omega
  have hempty : trades.isEmpty = true ↔ p.remainingI = qtyI := by rw [List.isEmpty_iff, hts, hnil]
  have hrem : 0 < (left o p.remainingI (walkStatus .new (p.trades a) p.remainingI)).remaining ↔ 0 < p.remainingI :=
    i64ToDecimal_pos
  have hpos := hg.qty_pos
  by_cases hz : p.remainingI = 0
  · -- nothing is left: filled by the last trade, and no rule applies
    have hw : walkStatus .new (p.trades a) p.remainingI = .filled := by
      rw [walkStatus, if_neg (by rw [hnil]; omega), if_pos hz]
    unfold Engine.applyTif
    rw [if_neg (fun h => absurd (hrem.mp h.1) (by omega)), hw, Plan.status_of_le hstp hz.le]
  · have hgo : 0 < p.remainingI := by omega
    have hw : walkStatus .new (p.trades a) p.remainingI =
        if p.remainingI = qtyI then .new else .partiallyFilled := by
      rw [walkStatus, if_neg hz]
      simp only [hnil]
    have hnc : (left o p.remainingI (walkStatus .new (p.trades a) p.remainingI)).status ≠ .cancelled := by
      change walkStatus .new (p.trades a) p.remainingI ≠ .cancelled
      rw [hw]
      split_ifs <;> simp
    have hst : p.status a =
        if o.tif = .ioc then .cancelled else if p.remainingI = qtyI then .new else .partiallyFilled := by
      refine (Plan.status_of_pos hstp hgo).trans (if_congr Iff.rfl rfl ?_)
      change (if p.remainingI < a.qtyI then _ else _) = _
      rw [hqty]
      split_ifs <;> first | rfl | omega
    unfold Engine.applyTif
    rw [if_pos ⟨hrem.mpr hgo,hnc⟩, hst]
    obtain ⟨he,ht | ht⟩ := effectiveTif_eq hg
    · rw [he, ht]
      rfl
    · have hgtc : ¬ TimeInForce.gtc = .ioc := by simp
      rw [he, ht, if_neg hgtc, hw]
      by_cases hfull : p.remainingI = qtyI
      · simp only [hempty.mpr hfull, if_pos hfull, if_true]
        rfl
      · simp only [if_neg (fun h => hfull (hempty.mp h)), if_neg hfull]

/-- A whole engine run in terms of the plan. -/
theorem matchOrder_plan (newV4 : ℕ → Uuid) (hg : o.OnGrid qtyI) (asset : String) (amount : ℤ)
    {rs : List Resting}
    (hrs : ∀ r ∈ rs, ¬ r.hash.Consumed ∧ r.hash.PricedLimit ∧ o.StpCompatible r.hash ∧ r.hash.id = r.id) :
    let a := matchArgs o asset amount
    let p := plan a qtyI rs
    p.stpCancelled = false ∧ ∃ cs,
      (Engine.matchOrder newV4 o (rs.map (fun r => parseOrderFromHmget r.hash))).1 =
        ⟨(p.trades a).mapIdx (fun i t => buildTrade o (newV4 i) t.toLuaTrade),p.visits.map Visit.update,
          left o p.remainingI (p.status a),cs⟩ := by
  intro a p
  obtain ⟨hstp,cs,hwalk⟩ := walkBook_plan newV4 hg asset amount qtyI hg.qty_pos.le hrs .new [] [] []
  refine ⟨hstp,cs,?_⟩
  have ho : left o qtyI .new = o := by
    have hrem : i64ToDecimal qtyI = o.remaining := by rw [hg.remaining, hg.qty]
    rw [left, hrem, ← hg.status]
  have hfok : ¬ Engine.fokRejects o (rs.map (fun r => parseOrderFromHmget r.hash)) = true := by
    rcases (effectiveTif_eq hg).2 with ht | ht <;> simp [Engine.fokRejects, ht]
  rw [ho] at hwalk
  simp only [Engine.matchOrder, if_neg hfok, hwalk, List.nil_append, List.length_nil, Nat.zero_add]
  rw [applyTif_walkStatus hg asset amount rs hstp]
  simp

/-! ### The store -/

/-- Applying the engine's entry for a visit is what the script did at that visit. -/
lemma applyUpdate_update {db : Valkey} (hr : db.Represented) {a : MatchArgs} {v : Visit} (hval : v.Valid a)
    (ho : db.order v.id = some v.resting.hash) (hm : v.id ∈ db.book a.pairId a.side.opposite)
    (hh : v.resting.hash.PricedLimit) : db.applyUpdate v.update = applyVisit a db v := by
  obtain ⟨hid,_⟩ := hr.member _ _ ho
  obtain ⟨w,hw,hp,hs⟩ := hr.order_of_mem hm
  obtain rfl := Option.some.inj (ho.symm.trans hw)
  obtain ⟨hl,h0,hp14,hq14⟩ := hh
  obtain ⟨hr0,hrq⟩ := hr.remaining _ _ ho
  obtain ⟨⟨id,h⟩,act⟩ := v
  simp only [Visit.id] at ho hm hid hp hs hl h0 hp14 hq14 hr0 hrq
  have hdrop : ∀ u : Order, u.pairId = h.pairId → u.side = h.side → u.id = h.id →
      db.removeOrderFromBook u = db.dropOrder a.pairId a.side.opposite id := by
    intro u h₁ h₂ h₃
    rw [Valkey.removeOrderFromBook, h₁, h₂, h₃, hp, hs, hid]
  cases act with
  | cancel =>
    rw [Valkey.applyUpdate, if_pos (.inr rfl), hdrop _ rfl rfl rfl]
    rfl
  | fill q =>
    have hq := (hval.fill q rfl).2.1
    simp only at hq
    by_cases hz : h.remainingI - q ≤ 0
    · have hst : (Visit.update ⟨⟨id,h⟩,.fill q⟩).status = .filled := by
        simp only [Visit.update, Engine.afterFill]
        rw [if_pos]
        change i64ToDecimal h.remainingI - i64ToDecimal q = 0
        rw [← i64ToDecimal_sub, i64ToDecimal_eq_zero]
        omega
      rw [Valkey.applyUpdate, if_pos (.inl hst), hdrop _ rfl rfl rfl]
      simp [applyVisit, Visit.outcome, hz]
    · -- the reported entry is the decoded form of the hash left by the script
      have hu : Visit.update ⟨⟨id,h⟩,.fill q⟩ =
          parseOrderFromHmget { h with remainingI := h.remainingI - q, status := .partiallyFilled } := by
        have hsub : (parseOrderFromHmget h).remaining - i64ToDecimal q = i64ToDecimal (h.remainingI - q) :=
          (i64ToDecimal_sub _ _).symm
        simp only [Visit.update, Engine.afterFill, hsub, i64ToDecimal_eq_zero]
        rw [if_neg (by omega)]
        rfl
      have hq0 := (hval.fill q rfl).1
      have hhash := toHash_parse (h := { h with remainingI := h.remainingI - q, status := .partiallyFilled })
        ⟨h0,by simp only; omega⟩ ⟨by simp only; omega,by simp only; omega⟩
        ⟨by simp only; omega,by simp only; omega⟩ hl (by simp)
      obtain ⟨e,he,hem⟩ := SortedSet.mem_iff.mp hm
      obtain ⟨w,hw,_,_,hsc⟩ := hr.entry _ _ e he
      rw [hem, ho] at hw
      cases hw
      have hprice : (parseOrderFromHmget { h with remainingI := h.remainingI - q, status := .partiallyFilled }).priceI =
          h.priceI := congrArg OrderHash.priceI hhash
      have hzadd : db.zadd h.pairId h.side (signedPrice h.side h.priceI) h.id = db := by
        apply Valkey.zadd_of_mem
        rw [hp, hs, hid, ← hsc, ← hem]
        exact he
      rw [hu, Valkey.applyUpdate, if_neg (by simp [parseOrderFromHmget]), Valkey.saveOrderToBook, hprice, hhash]
      change (db.zadd h.pairId h.side (signedPrice h.side h.priceI) h.id).hset h.id _ = _
      rw [hzadd]
      simp [applyVisit, Visit.outcome, hz, hid]

lemma foldl_applyUpdate {a : MatchArgs} {vs : List Visit} (hn : (vs.map Visit.id).Nodup) {db : Valkey}
    (hr : db.Represented) (hv : ∀ v ∈ vs, v.Valid a ∧ db.order v.id = some v.resting.hash ∧
      v.id ∈ db.book a.pairId a.side.opposite ∧ v.resting.hash.PricedLimit) :
    (vs.map Visit.update).foldl Valkey.applyUpdate db = applyVisits a db vs := by
  induction vs generalizing db with
  | nil => rfl
  | cons v vs ih =>
    obtain ⟨hval,ho,hm,hh⟩ := hv v (by simp)
    rw [List.map_cons, List.nodup_cons] at hn
    have hr' : (applyVisits a db [v]).Represented := hr.applyVisits (by simp) (by simpa using ⟨hval,ho,hm⟩)
    rw [applyVisits_cons, applyVisits_nil] at hr'
    rw [List.map_cons, List.foldl_cons, applyUpdate_update hr hval ho hm hh, applyVisits_cons]
    apply ih hn.2 hr'
    intro w hw
    obtain ⟨hval',ho',hm',hh'⟩ := hv w (by simp [hw])
    have hne : w.id ≠ v.id := fun h => hn.1 (h ▸ List.mem_map_of_mem hw)
    have ho'' : (applyVisit a db v).order w.id = some w.resting.hash := by
      rw [applyVisit_order, if_neg hne, ho']
    refine ⟨hval',ho'',?_,hh'⟩
    obtain ⟨h,hoh,hp,hs⟩ := hr.order_of_mem hm'
    obtain rfl := Option.some.inj (ho'.symm.trans hoh)
    rw [← hp, ← hs]
    exact (hr'.member _ _ ho'').2

lemma applyVisits_frame {db db₁ : Valkey} (ho : db₁.order = db.order) (hb : db₁.book = db.book) (a : MatchArgs)
    (vs : List Visit) : (applyVisits a db₁ vs).order = (applyVisits a db vs).order ∧
      (applyVisits a db₁ vs).book = (applyVisits a db vs).book := by
  induction vs generalizing db db₁ with
  | nil => exact ⟨ho,hb⟩
  | cons v vs ih =>
    apply ih
    · funext x
      rw [applyVisit_order, applyVisit_order, ho]
    · funext p s
      unfold applyVisit
      cases v.outcome <;> simp [hb]

/-- The decoded book is the fetched candidates, followed by orders that do not cross. -/
lemma loadOrderBook_eq {db : Valkey} (hr : db.Represented) (hg : o.OnGrid qtyI) (asset : String) (amount : ℤ)
    (hfew : ((db.book o.pairId o.side.opposite).rangeByScore (maxScore o.side o.price)).length ≤ 50) :
    ∃ ids, db.loadOrderBook o.pairId o.side.opposite =
        (db.resting (candidates db (matchArgs o asset amount) ++ ids)).map (fun r => parseOrderFromHmget r.hash) ∧
      (∀ r ∈ db.resting ids, ¬ (matchArgs o asset amount).Crosses r.hash) ∧
      ∀ id ∈ candidates db (matchArgs o asset amount) ++ ids, id ∈ db.book o.pairId o.side.opposite := by
  have hcand : candidates db (matchArgs o asset amount) =
      (db.book o.pairId o.side.opposite).rangeByScore (maxScore o.side o.price) :=
    List.take_of_length_le hfew
  have hlisted : ∀ max, ∀ id ∈ (db.book o.pairId o.side.opposite).rangeByScore max, id ∈ db.book o.pairId o.side.opposite := by
    intro max id hid
    obtain ⟨e,he,_,hem⟩ := SortedSet.mem_rangeByScore.mp hid
    exact SortedSet.mem_iff.mpr ⟨e,he,hem⟩
  rw [Valkey.loadOrderBook, Valkey.fetchOrdersByIds_eq, hcand]
  rcases hg.kind with ⟨hl,_,p,hp,_⟩ | ⟨_,_,hp⟩
  · obtain ⟨b,hb⟩ : ∃ b, maxScore o.side o.price = some b := by
      rw [hp]
      cases o.side <;> exact ⟨_,rfl⟩
    refine ⟨_,by rw [SortedSet.rangeByScore_none_eq_append _ b, hb],fun r hm => ?_,fun id hid => ?_⟩
    swap
    · rw [hb, ← SortedSet.rangeByScore_none_eq_append _ b] at hid
      exact hlisted none id hid
    obtain ⟨hid,ho⟩ := mem_resting.mp hm
    obtain ⟨e,he,hem⟩ := List.mem_map.mp hid
    obtain ⟨he,hgt⟩ := List.mem_filter.mp he
    obtain ⟨h,hoh,_,_,hsc⟩ := hr.entry _ _ e he
    rw [hem, ho] at hoh
    cases hoh
    have hmax : (matchArgs o asset amount).maxScore = some b := hb
    rw [crosses_iff_score hl (by simp [hp]), hmax]
    intro hall
    have := hall b rfl
    rw [← hsc] at this
    simp [this] at hgt
  · have hmax : maxScore o.side o.price = none := by rw [hp]; cases o.side <;> rfl
    refine ⟨[],?_,by simp [Valkey.resting],fun id hid => ?_⟩
    · rw [hmax, List.append_nil]
    · rw [List.append_nil] at hid
      exact hlisted _ id hid

lemma toHash_left (hg : o.OnGrid qtyI) {db : Valkey} {asset : String} {amount : ℤ}
    (hrest : ((matchArgs o asset amount).planOn db).Rests (matchArgs o asset amount)) :
    let a := matchArgs o asset amount
    (left o (a.planOn db).remainingI ((a.planOn db).status a)).toHash =
      a.restingHash (a.planOn db).remainingI ((a.planOn db).status a) := by
  intro a
  have hq : 0 ≤ a.qtyI := by rw [matchArgs_qtyI hg]; exact hg.qty_pos.le
  have hle := planOn_remainingI_le db hq
  have hlt : a.qtyI < 10 ^ 14 := by rw [matchArgs_qtyI hg]; exact hg.qty_lt
  have h0 : 0 < (a.planOn db).remainingI := hrest.2.1
  have hrem : decimalToI64 (i64ToDecimal (a.planOn db).remainingI) = (a.planOn db).remainingI :=
    decimalToI64_i64ToDecimal (by omega) (by omega)
  have hst : storedStatus ((a.planOn db).status a) = (a.planOn db).status a := by
    rw [hrest.status_eq hq]
    split_ifs <;> rfl
  simp only [Order.toHash, MatchArgs.restingHash, OrderHash.mk.injEq]
  exact ⟨rfl,rfl,rfl,rfl,rfl,rfl,rfl,hrem,hst,rfl,rfl,rfl,hg.version⟩

lemma rests_of_not_cancelled (hg : o.OnGrid qtyI) {p : Plan} {asset : String} {amount : ℤ}
    (hrem : 0 < p.remainingI) (hst : p.status (matchArgs o asset amount) ≠ .cancelled) :
    p.Rests (matchArgs o asset amount) := by
  refine ⟨?_,hrem,hst⟩
  by_contra hne
  have hioc : (matchArgs o asset amount).tif = .ioc := (effectiveTif_eq hg).2.resolve_right hne
  apply hst
  cases hs : p.stpCancelled with
  | true => exact Plan.status_of_stopped hs
  | false => rw [Plan.status_of_pos hs hrem, if_pos hioc]

/-- The incoming remainder: the script's own write and the engine's caller agree. -/
lemma incoming_agrees (hg : o.OnGrid qtyI) (db : Valkey) {X X₁ : Valkey} (hvo : X₁.order = X.order)
    (hvb : X₁.book = X.book) (asset : String) (amount : ℤ) :
    let a := matchArgs o asset amount
    let p := a.planOn db
    let incoming := left o p.remainingI (p.status a)
    let rested := if p.Rests a then placeResting a X₁ p.remainingI (p.status a) else X₁
    let saved := if incoming.status ≠ .cancelled ∧ 0 < incoming.remaining then X.saveOrderToBook incoming else X
    rested.book = saved.book ∧ rested.order = saved.order := by
  intro a p incoming rested saved
  by_cases hrest : p.Rests a
  · have hst : incoming.status ≠ .cancelled ∧ 0 < incoming.remaining :=
      ⟨hrest.2.2,i64ToDecimal_pos.mpr hrest.2.1⟩
    have hhash : incoming.toHash = a.restingHash p.remainingI (p.status a) := toHash_left hg hrest
    simp only [rested, saved, if_pos hrest, if_pos hst]
    constructor
    · funext pair side
      simp only [placeResting, Valkey.saveOrderToBook, Valkey.expire_book, Valkey.hset_book, Valkey.zadd_book, hvb]
      rfl
    · funext x
      simp only [placeResting, Valkey.saveOrderToBook, Valkey.expire_order, Valkey.hset_order, Valkey.zadd_order,
        hvo, hhash]
      rfl
  · have hst : ¬ (incoming.status ≠ .cancelled ∧ 0 < incoming.remaining) := by
      rintro ⟨hns,hpos⟩
      exact hrest (rests_of_not_cancelled hg (i64ToDecimal_pos.mp hpos) hns)
    simp only [rested, saved, if_neg hrest, if_neg hst]
    exact ⟨hvb,hvo⟩

end EngineAgreement

/-- The script and the engine return the same trades, remainder and status, and leave the same sets and
hashes. -/
def MatchersAgree (newV4 : ℕ → Uuid) (db : Valkey) (o : Order) (asset : String) (amount : ℤ) : Prop :=
  ∃ r db', matchOrderLua db o asset amount = (.ok r,db') ∧
    let e := (Engine.matchOrder newV4 o (db.loadOrderBook o.pairId o.side.opposite)).1
    buildTrades newV4 { o with remaining := r.remaining, status := r.status } r.trades = e.trades ∧
    r.remaining = e.incoming.remaining ∧ r.status = e.incoming.status ∧
    db'.book = (db.applyResult e).book ∧ db'.order = (db.applyResult e).order

open EngineAgreement in
/-- The matchers agree on a represented book whose opposite side holds limit orders, with at most fifty
candidates inside the price bound. -/
theorem lua_agrees_with_engine {db : Valkey} {o : Order} {qtyI : ℤ} (newV4 : ℕ → Uuid) (asset : String)
    (amount : ℤ) (hr : db.Represented)
    (hlimit : ∀ id ∈ db.book o.pairId o.side.opposite, ∀ h ∈ db.order id, h.PricedLimit)
    (hfew : ((db.book o.pairId o.side.opposite).rangeByScore (maxScore o.side o.price)).length ≤ 50)
    (hg : o.OnGrid qtyI) (hstp : ∀ id ∈ db.book o.pairId o.side.opposite, ∀ h ∈ db.order id, o.StpCompatible h)
    (hfunds : (matchArgs o asset amount).Locks → amount ≤ (db.balance o.userId asset).available) :
    MatchersAgree newV4 db o asset amount := by
  obtain ⟨db₁,hl⟩ : ∃ db₁, lockBalance db (matchArgs o asset amount) = some db₁ := lockBalance_isSome hfunds
  refine ⟨_,_,matchOrderLua_of_lock hl,?_⟩
  generalize ha : matchArgs o asset amount = a at hl
  obtain ⟨ids,hload,hfar,hlisted⟩ := loadOrderBook_eq hr hg asset amount hfew
  rw [ha] at hload hfar hlisted
  have hrs : ∀ r ∈ db.resting (candidates db a ++ ids),
      ¬ r.hash.Consumed ∧ r.hash.PricedLimit ∧ o.StpCompatible r.hash ∧ r.hash.id = r.id := by
    intro r hm
    obtain ⟨hid,ho⟩ := mem_resting.mp hm
    have hmem := hlisted r.id hid
    exact ⟨hr.not_consumed ho,hlimit r.id hmem r.hash ho,hstp r.id hmem r.hash ho,(hr.member _ _ ho).1⟩
  -- candidates behind the price bound do not change the plan
  have hplan : plan a qtyI (db.resting (candidates db a ++ ids)) = a.planOn db := by
    have happ : db.resting (candidates db a ++ ids) = db.resting (candidates db a) ++ db.resting ids := by
      simp [Valkey.resting]
    rw [happ, plan_append_of_not_meets, MatchArgs.planOn, ← ha, matchArgs_qtyI hg]
    intro r hm hmeets
    exact hfar r hm hmeets.crosses
  obtain ⟨_,cs,hmatch⟩ := matchOrder_plan newV4 hg asset amount hrs
  rw [ha, hplan, ← hload] at hmatch
  simp only [hmatch]
  obtain ⟨hord,hbook,_⟩ := lockBalance_frame hl
  obtain ⟨hvo,hvb⟩ := applyVisits_frame hord hbook a (a.planOn db).visits
  have hfold : ((a.planOn db).visits.map Visit.update).foldl Valkey.applyUpdate db =
      applyVisits a db (a.planOn db).visits := by
    apply foldl_applyUpdate (planOn_ids_nodup a db) hr
    intro v hv
    obtain ⟨hval,ho,hm⟩ := planOn_visit hv
    subst ha
    exact ⟨hval,ho,hm,hlimit v.id hm v.resting.hash ho⟩
  refine ⟨?_,rfl,rfl,?_⟩
  · simp only [buildTrades, List.mapIdx_eq_zipIdx_map, List.zipIdx_map, List.map_map]
    rfl
  · have hin := incoming_agrees hg db hvo hvb asset amount
    simp only [ha] at hin
    rw [settle_eq, Valkey.applyResult]
    simp only [hfold]
    exact hin

/-- A buy of seven against two asks of five: both matchers fill it from the two asks. -/
theorem lua_agrees_with_engine_two_asks :
    let o := Order.gtcLimit 3 "bob" "BTC-USDT" .buy 100 7
    (Engine.matchOrder (fun _ => 0) o ((twoAsks 1 2).db.loadOrderBook "BTC-USDT" .sell)).1.trades.map Trade.quantity =
        [i64ToDecimal 5,i64ToDecimal 2] ∧
    MatchersAgree (fun _ => 0) (twoAsks 1 2).db o "USDT" 0 := by
  have hreach := twoAsks_reachable (show (1 : Uuid) ≠ 2 by decide)
  obtain ⟨hr,hs⟩ := hreach.invariant (fun _ o ho => ho.2.2.qty_pos.le)
  have hgrid : (Order.gtcLimit 3 "bob" "BTC-USDT" .buy 100 7).OnGrid 7 :=
    ⟨rfl,by decide,by decide,rfl,rfl,rfl,.inl ⟨rfl,.inl rfl,_,rfl,by decide +kernel,by decide +kernel,fun h => by cases h⟩⟩
  have hsub : ∀ o ∈ (twoAsks 1 2).submitted, o.orderType = .limit ∧ 0 < o.priceI ∧ o.priceI < 10 ^ 14 ∧
      o.qtyI < 10 ^ 14 ∧ o.stpMode = .none := by decide +kernel
  refine ⟨by decide +kernel,lua_agrees_with_engine (fun _ => 0) "USDT" 0 hr ?_ (by decide +kernel) hgrid ?_ ?_⟩
  · intro id _ h ho
    obtain ⟨o,hm,_,he⟩ := hs.source id h ho
    obtain ⟨hlimit,hp,hp',hq,_⟩ := hsub o hm
    rw [he]
    exact ⟨hlimit,hp,hp',hq⟩
  · intro id _ h ho
    obtain ⟨o,hm,_,he⟩ := hs.source id h ho
    refine .inr ⟨rfl,fun _ => ?_⟩
    rw [he]
    exact (hsub o hm).2.2.2.2
  · intro h
    exact absurd h.2 (by decide)

def lowBid : Exchange := (Exchange.mk Valkey.empty [] []).submit (.gtcLimit 1 "alice" "BTC-USDT" .buy 1 5) "USDT" 0

def sellAt (price quantity : Decimal) (status : OrderStatus) (version : ℤ) : Order :=
  { Order.gtcLimit 2 "bob" "BTC-USDT" .sell 0 0 with
    price := some price, quantity := quantity, remaining := quantity, status := status, version := version }

/-- The matchers differ on an offer at one and a half units of the grid, which the script rounds down to
the bid; on an offer of one and a half units; on offers that come as cancelled, or with a second version;
and on one that the balance does not cover. -/
theorem matchers_differ_off_grid : lowBid.db.Represented ∧
    (∀ id ∈ lowBid.db.book "BTC-USDT" .buy, ∀ h ∈ lowBid.db.order id, h.PricedLimit ∧ h.stp = .none) ∧
    ¬ MatchersAgree (fun _ => 0) lowBid.db (sellAt (3 / 200000000) (i64ToDecimal 9) .new 1) "BTC" 0 ∧
    ¬ MatchersAgree (fun _ => 0) lowBid.db (sellAt (i64ToDecimal 1) (3 / 200000000) .new 1) "BTC" 0 ∧
    ¬ MatchersAgree (fun _ => 0) lowBid.db (sellAt (i64ToDecimal 9) (i64ToDecimal 5) .cancelled 1) "BTC" 0 ∧
    ¬ MatchersAgree (fun _ => 0) lowBid.db (sellAt (i64ToDecimal 9) (i64ToDecimal 5) .new 2) "BTC" 0 ∧
    ¬ MatchersAgree (fun _ => 0) lowBid.db (sellAt (i64ToDecimal 9) (i64ToDecimal 5) .new 1) "BTC" 5 := by
  have hreach : Reachable (fun _ o => 0 < o.qtyI) lowBid :=
    ⟨Valkey.empty,⟨fun _ _ => rfl,fun _ => rfl⟩,.single (.submit _ _ _ (by simp) (by decide +kernel))⟩
  obtain ⟨hr,hs⟩ := hreach.invariant (fun _ o ho => le_of_lt ho)
  have hsub : ∀ o ∈ lowBid.submitted, o.orderType = .limit ∧ 0 < o.priceI ∧ o.priceI < 10 ^ 14 ∧ o.qtyI < 10 ^ 14 ∧
      o.stpMode = .none := by decide +kernel
  -- what the two matchers return
  have hscript : ∀ {o : Order} {qs : List Decimal} {q : Decimal} {v : Option ℤ},
      ((matchOrderLua lowBid.db o "BTC" 0).1.toOption.map (fun r => (r.trades.map LuaTrade.quantity,r.remaining)) = some (qs,q) ∧
        ((matchOrderLua lowBid.db o "BTC" 0).2.order 2).map OrderHash.version = v) →
      ¬ (let e := (Engine.matchOrder (fun _ => 0) o (lowBid.db.loadOrderBook o.pairId o.side.opposite)).1
        e.trades.map Trade.quantity = qs ∧ e.incoming.remaining = q ∧ ((lowBid.db.applyResult e).order 2).map OrderHash.version = v) →
      ¬ MatchersAgree (fun _ => 0) lowBid.db o "BTC" 0 := by
    rintro o qs q v ⟨hreply,hversion⟩ hengine ⟨r,db',hrun,htrades,hrem,_,_,horder⟩
    rw [hrun] at hreply hversion
    obtain ⟨rfl,rfl⟩ := Prod.mk.inj (Option.some.inj hreply)
    refine hengine ⟨?_,hrem.symm,?_⟩
    · rw [← htrades, buildTrades, List.mapIdx_eq_zipIdx_map, List.map_map]
      change List.map (LuaTrade.quantity ∘ Prod.fst) _ = _
      rw [← List.map_map, List.zipIdx_map_fst]
    · rw [← horder]
      exact hversion
  refine ⟨hr,fun id _ h ho => ?_,?_,?_,?_,?_,?_⟩
  · obtain ⟨o,hm,_,he⟩ := hs.source id h ho
    obtain ⟨hlimit,hp,hp',hq,hstp⟩ := hsub o hm
    rw [he]
    exact ⟨⟨hlimit,hp,hp',hq⟩,hstp⟩
  · refine @hscript _ [i64ToDecimal 5] (i64ToDecimal 4) (some 1) ?_ ?_ <;> decide +kernel
  · refine @hscript _ [i64ToDecimal 1] 0 none ?_ ?_ <;> decide +kernel
  · refine @hscript _ [] (i64ToDecimal 5) (some 1) ?_ ?_ <;> decide +kernel
  · refine @hscript _ [] (i64ToDecimal 5) (some 1) ?_ ?_ <;> decide +kernel
  · rintro ⟨r,db',hrun,_⟩
    have hrefused : (matchOrderLua lowBid.db (sellAt (i64ToDecimal 9) (i64ToDecimal 5) .new 1) "BTC" 5).1.toOption = none := by
      decide +kernel
    rw [hrun] at hrefused
    cases hrefused

end MatchingEngine

import MatchingEngine.Crossing
import MatchingEngine.Session

/-! Locked funds and open obligations on the Valkey side. The script locks once per order and
nothing on this side ever unlocks, so the locked field follows the obligations only as long
as no order meets another one and every lock is exactly what its remainder will owe. -/
namespace MatchingEngine
open Library

/-- What a resting order may still have to deliver in an asset, in scaled units. -/
def OrderHash.obligation (h : OrderHash) (asset : String) : ℚ :=
  match parsePairId h.pairId with
  | .error _ => 0
  | .ok (base,quote) =>
    match h.side with
    | .buy => if quote = asset then h.priceI * h.remainingI / 10 ^ 8 else 0
    | .sell => if base = asset then h.remainingI else 0

/-- The obligations of a user's orders in the book. -/
def openObligations (db : Valkey) (user asset : String) : ℚ :=
  ∑ id : Uuid, (db.order id).elim 0 (fun h =>
    if id ∈ db.book h.pairId h.side ∧ h.userId = user then h.obligation asset else 0)

/-- No member of the opposite set lies inside the order's price bound. -/
def Order.MeetsNothing (o : Order) (db : Valkey) : Prop :=
  (db.book o.pairId o.side.opposite).rangeByScore (maxScore o.side o.price) = []

/-- The amount the script really locks. -/
def MatchArgs.lockedI (a : MatchArgs) : ℤ := if a.Locks then a.lockAmount else 0

/-- What an order owes while its whole quantity rests. Only good-til-cancelled orders rest. -/
def Order.owed (o : Order) : ℚ :=
  if o.tif = .gtc then
    match o.side with
    | .buy => o.priceI * o.qtyI / 10 ^ 8
    | .sell => o.qtyI
  else 0

/-- The lock loses nothing to truncation. -/
def Order.LocksWhatItOwes (o : Order) : Prop :=
  ∀ p ∈ (lockParams o).toOption, ((matchArgs o p.1 p.2).lockedI : ℚ) = o.owed

instance (o : Order) (db : Valkey) : Decidable (o.MeetsNothing db) := inferInstanceAs (Decidable (_ = _))

instance (o : Order) : Decidable o.LocksWhatItOwes :=
  inferInstanceAs (Decidable (∀ p ∈ (lockParams o).toOption, _))

lemma openObligations_eq {db : Valkey} (hr : db.Represented) (user asset : String) :
    openObligations db user asset =
      ∑ id : Uuid, (db.order id).elim 0 (fun h => if h.userId = user then h.obligation asset else 0) := by
  unfold openObligations
  refine Finset.sum_congr rfl (fun id _ => ?_)
  cases ho : db.order id with
  | none => rfl
  | some h =>
    have hm := (hr.member id h ho).2
    simp [hm]

lemma lockBalance_balance {db db₁ : Valkey} {a : MatchArgs} (h : lockBalance db a = some db₁) (user asset : String) :
    let moved := if user = a.userId ∧ asset = a.lockAsset then a.lockedI else 0
    db₁.balance user asset = ⟨(db.balance user asset).available - moved,(db.balance user asset).locked + moved⟩ := by
  unfold lockBalance at h
  unfold MatchArgs.lockedI
  split_ifs at h with hl <;> cases h
  · simp only [Valkey.moveToLocked, if_pos hl]
    split_ifs <;> simp
  · simp [hl]

lemma planOn_of_meetsNothing {db : Valkey} {o : Order} (h : o.MeetsNothing db) (asset : String) (amount : ℤ) :
    (matchArgs o asset amount).planOn db = ⟨[],o.qtyI,false⟩ := by
  have hrange : (db.book (matchArgs o asset amount).pairId (matchArgs o asset amount).side.opposite).rangeByScore
      (matchArgs o asset amount).maxScore = [] := h
  rw [MatchArgs.planOn, candidates, hrange, List.take_nil]
  rfl

lemma obligation_of_ne {o : Order} {asset : String} {amount : ℤ} (hl : lockParams o = .ok (asset,amount)) {h : OrderHash}
    (hp : h.pairId = o.pairId) (hs : h.side = o.side) {other : String} (hne : other ≠ asset) : h.obligation other = 0 := by
  obtain ⟨base,quote,hpair,hasset,_⟩ := lockParams_ok hl
  unfold OrderHash.obligation
  rw [hp, hs, hpair]
  cases hside : o.side <;> simp [hside] at hasset ⊢ <;> simp [← hasset, Ne.symm hne]

/-- Resting with its whole quantity, a good-til-cancelled order owes it in its lock asset. -/
lemma owed_eq_obligation {o : Order} {asset : String} {amount : ℤ} (hl : lockParams o = .ok (asset,amount)) :
    o.owed = if o.tif = .gtc then ((matchArgs o asset amount).restingHash o.qtyI .new).obligation asset else 0 := by
  have hp : ((matchArgs o asset amount).restingHash o.qtyI .new).pairId = o.pairId := rfl
  have hs : ((matchArgs o asset amount).restingHash o.qtyI .new).side = o.side := rfl
  obtain ⟨base,quote,hpair,hasset,hamount⟩ := lockParams_ok hl
  unfold Order.owed OrderHash.obligation
  rw [hp, hs, hpair]
  cases hside : o.side with
  | buy =>
    simp only [hside] at hasset
    simp [hasset, MatchArgs.restingHash, matchArgs]
  | sell =>
    simp only [hside] at hasset
    simp [hasset, MatchArgs.restingHash]

lemma obligation_of_remainingI_eq_zero {h : OrderHash} (hz : h.remainingI = 0) (asset : String) :
    h.obligation asset = 0 := by
  unfold OrderHash.obligation
  rw [hz]
  cases parsePairId h.pairId with
  | error e => rfl
  | ok p => cases h.side <;> simp

lemma settle_untouched_order {db db₁ : Valkey} {o : Order} {asset : String} {amount : ℤ}
    (hl : lockBalance db (matchArgs o asset amount) = some db₁) (id : Uuid) :
    ((matchArgs o asset amount).settle db₁ ⟨[],o.qtyI,false⟩).order id =
      if (o.tif = .gtc ∧ 0 < o.qtyI) ∧ id = o.id then some ((matchArgs o asset amount).restingHash o.qtyI .new)
      else db.order id := by
  have hst : o.tif = .gtc ∧ 0 < o.qtyI → (⟨[],o.qtyI,false⟩ : Plan).status (matchArgs o asset amount) = .new := by
    rintro ⟨ht,hq⟩
    have ht' : (matchArgs o asset amount).tif = .gtc := ht
    have hq' : ¬ o.qtyI < (matchArgs o asset amount).qtyI := lt_irrefl _
    rw [Plan.status_of_pos rfl hq, if_neg (by simp [ht']), if_neg hq']
  have hrests : (⟨[],o.qtyI,false⟩ : Plan).Rests (matchArgs o asset amount) ↔ o.tif = .gtc ∧ 0 < o.qtyI := by
    constructor
    · rintro ⟨ht,hq,_⟩
      exact ⟨ht,hq⟩
    · intro h
      exact ⟨h.1,h.2,by rw [hst h]; simp⟩
  rw [settle_order]
  by_cases h : (o.tif = .gtc ∧ 0 < o.qtyI) ∧ id = o.id
  · rw [if_pos ⟨hrests.mpr h.1,h.2⟩, if_pos h, hst h.1]
  · rw [if_neg (fun hn => h ⟨hrests.mp hn.1,hn.2⟩), if_neg h, applyVisits_nil, (lockBalance_frame hl).1]

lemma openObligations_settle {db db₁ : Valkey} {o : Order} {asset : String} {amount : ℤ}
    (hr : db.Represented) (hr' : ((matchArgs o asset amount).settle db₁ ⟨[],o.qtyI,false⟩).Represented)
    (hl : lockBalance db (matchArgs o asset amount) = some db₁) (hfresh : db.order o.id = none) (hq : 0 ≤ o.qtyI)
    (user x : String) :
    openObligations ((matchArgs o asset amount).settle db₁ ⟨[],o.qtyI,false⟩) user x = openObligations db user x +
      if o.userId = user ∧ o.tif = .gtc then ((matchArgs o asset amount).restingHash o.qtyI .new).obligation x else 0 := by
  rw [openObligations_eq hr', openObligations_eq hr]
  set rested := (matchArgs o asset amount).restingHash o.qtyI .new with hrested
  set added := if o.userId = user ∧ o.tif = .gtc then rested.obligation x else 0 with hadded
  have hterm : ∀ id : Uuid, (((matchArgs o asset amount).settle db₁ ⟨[],o.qtyI,false⟩).order id).elim 0
        (fun h => if h.userId = user then h.obligation x else 0) =
      (db.order id).elim 0 (fun h => if h.userId = user then h.obligation x else 0) +
        if id = o.id then added else 0 := by
    intro id
    rw [settle_untouched_order hl]
    by_cases hid : id = o.id
    · rw [hid, hfresh, if_pos rfl, Option.elim_none, zero_add]
      by_cases hcond : o.tif = .gtc ∧ 0 < o.qtyI
      · rw [if_pos ⟨hcond,rfl⟩, Option.elim_some, hadded]
        simp only [← hrested, hcond.1, and_true]
        rfl
      · rw [if_neg (fun h => hcond h.1), Option.elim_none, hadded]
        split_ifs with hg
        · have hz : rested.remainingI = 0 := by
            change o.qtyI = 0
            by_contra hne
            exact hcond ⟨hg.2,by omega⟩
          rw [obligation_of_remainingI_eq_zero hz]
        · rfl
    · rw [if_neg (fun h => hid h.2), if_neg hid, add_zero]
  rw [Finset.sum_congr rfl (fun id _ => hterm id), Finset.sum_add_distrib, Finset.sum_ite_eq' Finset.univ o.id,
    if_pos (Finset.mem_univ _)]

lemma locked_eq_obligations_submit {s : Exchange} (hr : s.db.Represented) (hs : s.Accounted) {o : Order}
    {asset : String} {amount : ℤ} (hfresh : ∀ p ∈ s.submitted, p.id ≠ o.id) (hq : 0 ≤ o.qtyI)
    (hp : lockParams o = .ok (asset,amount)) (hm : o.MeetsNothing s.db) (howe : o.LocksWhatItOwes)
    (hinv : ∀ user x, ((s.db.balance user x).locked : ℚ) = openObligations s.db user x) (user x : String) :
    (((s.submit o asset amount).db.balance user x).locked : ℚ) =
      openObligations (s.submit o asset amount).db user x := by
  have hrep : (s.submit o asset amount).db.Represented := hr.submit hs hfresh hq
  cases hl : lockBalance s.db (matchArgs o asset amount) with
  | none =>
    rw [submit_of_no_lock hl]
    exact hinv user x
  | some db₁ =>
    have hplan := planOn_of_meetsNothing hm asset amount
    rw [submit_of_lock hl, hplan] at hrep ⊢
    have howe := howe (asset,amount) (by rw [hp]; rfl)
    rw [owed_eq_obligation hp] at howe
    simp only at hrep ⊢
    rw [openObligations_settle hr hrep hl (hs.order_fresh hfresh) hq, settle_balance, lockBalance_balance hl, ← hinv]
    have hu : (matchArgs o asset amount).userId = o.userId := rfl
    have ha : (matchArgs o asset amount).lockAsset = asset := rfl
    simp only [hu, ha, Int.cast_add, add_right_inj]
    by_cases hx : x = asset
    · subst hx
      by_cases huser : user = o.userId
      · simp only [huser, true_and, if_true, howe]
      · simp [huser, Ne.symm huser]
    · rw [if_neg (fun h => hx h.2), obligation_of_ne hp rfl rfl hx]
      simp

/-- In sessions of limit orders that meet nothing and lock what they owe, every user's locked
funds are the obligations of their orders in the book. -/
theorem reachable_locked_eq_obligations (pairs : PairsCache) {s : Session}
    (h : s.Reachable pairs (fun sys => ∀ user asset, (sys.db.balance user asset).locked = 0)
      (fun t o => o.orderType = .limit ∧ o.InScale ∧ o.LockInScale ∧ o.MeetsNothing t.sys.db ∧ o.LocksWhatItOwes))
    (user asset : String) :
    ((s.sys.db.balance user asset).locked : ℚ) = openObligations s.sys.db user asset := by
  obtain ⟨sys,hbook,hinit,hrun⟩ := h
  induction hrun generalizing user asset with
  | refl =>
    rw [openObligations, Finset.sum_eq_zero (fun id _ => by rw [hbook.2 id]; rfl), hinit]
    rfl
  | @tail t u hrun hstep ih =>
    obtain ⟨msg,d,hadm,rfl⟩ := hstep
    rcases t.process_cases pairs msg d with ⟨he,_⟩ | ⟨o,lockAsset,amount,ha,_,hl,he,_⟩
    · have hdb : (t.process pairs msg d).sys.db = t.sys.db := congrArg Exchange.db he
      rw [hdb]
      exact ih user asset
    · have hdb : (t.process pairs msg d).sys.db = (t.exchange.submit o lockAsset amount).db := congrArg Exchange.db he
      obtain ⟨hfresh,_,hscale,_,hm,howe⟩ := hadm o (by rw [ha]; rfl)
      have hreach : t.Reachable pairs (fun sys => ∀ user asset, (sys.db.balance user asset).locked = 0)
          (fun t o => o.orderType = .limit ∧ o.InScale ∧ o.LockInScale ∧ o.MeetsNothing t.sys.db ∧ o.LocksWhatItOwes) :=
        ⟨sys,hbook,hinit,hrun⟩
      obtain ⟨hr,hs⟩ := (hreach.exchange (fun _ o hA => hA.2.1)).invariant (fun _ o hq => hq.qty_pos.le)
      rw [hdb]
      refine locked_eq_obligations_submit hr hs ?_ hscale.qty_pos.le hl hm howe ih user asset
      intro p hp
      obtain ⟨x,hx,rfl⟩ := List.mem_map.mp hp
      exact hfresh x hx

/-- Alice offers one bitcoin for a hundred. -/
def oneOffer : Session :=
  (Session.funded (10 ^ 12)).process btcUsdt (limitMsg 1 "alice" .sell 100 1) ⟨0,fun _ => 10,0⟩

/-- Bob takes the offer. -/
def offerTaken : Session := oneOffer.process btcUsdt (limitMsg 2 "bob" .buy 100 1) ⟨0,fun _ => 20,0⟩

theorem locked_eq_obligations_one_offer : (oneOffer.sys.db.balance "alice" "BTC").locked = 10 ^ 8 ∧
    ((oneOffer.sys.db.balance "alice" "BTC").locked : ℚ) = openObligations oneOffer.sys.db "alice" "BTC" := by
  refine ⟨by decide +kernel,reachable_locked_eq_obligations btcUsdt
    ⟨_,⟨fun _ _ => rfl,fun _ => rfl⟩,fun _ _ => rfl,Relation.ReflTransGen.refl.tail ⟨_,_,?_,rfl⟩⟩ "alice" "BTC"⟩
  decide +kernel

/-- The fill empties the book and leaves the seller's bitcoin locked. -/
theorem locked_outlives_fill : ∃ (pairs : PairsCache) (s : Session),
    s.Reachable pairs (fun sys => ∀ user asset, (sys.db.balance user asset).locked = 0)
      (fun _ o => o.orderType = .limit ∧ o.InScale ∧ o.LockInScale) ∧
    (∀ pair side, (s.sys.db.book pair side).entries = []) ∧
    ((s.sys.db.balance "alice" "BTC").locked : ℚ) ≠ openObligations s.sys.db "alice" "BTC" := by
  have hreach : offerTaken.Reachable btcUsdt (fun sys => ∀ user asset, (sys.db.balance user asset).locked = 0)
      (fun _ o => o.orderType = .limit ∧ o.InScale ∧ o.LockInScale) :=
    ⟨_,⟨fun _ _ => rfl,fun _ => rfl⟩,fun _ _ => rfl,
      (Relation.ReflTransGen.refl.tail ⟨_,_,by decide +kernel,rfl⟩).tail ⟨_,_,by decide +kernel,rfl⟩⟩
  obtain ⟨hr,hs⟩ := (hreach.exchange (fun _ _ hA => hA.2.1)).invariant (fun _ _ hq => hq.qty_pos.le)
  have hnone : ∀ id, offerTaken.sys.db.order id = none := by
    intro id
    cases ho : offerTaken.sys.db.order id with
    | none => rfl
    | some h =>
      obtain ⟨o,hmem,rfl,_⟩ := hs.source id h ho
      have : ∀ o ∈ offerTaken.exchange.submitted, offerTaken.sys.db.order o.id = none := by decide +kernel
      rw [this o hmem] at ho
      cases ho
  refine ⟨btcUsdt,offerTaken,hreach,?_,?_⟩
  · intro pair side
    refine List.eq_nil_iff_forall_not_mem.mpr (fun e he => ?_)
    obtain ⟨h,ho,_⟩ := hr.entry pair side e he
    have hn := hnone e.member
    rw [show offerTaken.sys.db.order e.member = some h from ho] at hn
    cases hn
  · rw [openObligations, Finset.sum_eq_zero (fun id _ => by rw [hnone id]; rfl)]
    decide +kernel

end MatchingEngine

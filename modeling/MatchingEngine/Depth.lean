import MatchingEngine.WireFormat
import MatchingEngine.Maximal
import MatchingEngine.Library.Grouping

/-! The depth of the book. The snapshot script takes the first orders of a side and groups them by
price, so its limit counts orders and not levels: the last level shown is complete only when the
limit falls between two levels. -/
namespace MatchingEngine
open Library

/-! ### The script -/

/-- The loop of `aggregate_side`: the first `limit` members that have a hash with something left,
grouped by the text of the price. -/
def Valkey.aggregateSide (db : Valkey) (pair : String) (side : Side) (limit : ℕ) : List (String × ℤ) :=
  let hashes := (((db.book pair side).rangeByScore none).take limit).filterMap db.order
  groupByKey ((hashes.filter (fun h => 0 < h.remainingI)).map (fun h => (luaToString h.priceI,h.remainingI)))

/-- The texts of one side: price and total of each level. -/
def levelTexts (levels : List (String × ℤ)) : List String := levels.flatMap (fun l => [l.1,luaToString l.2])

/-- The reply of `ORDERBOOK_SNAPSHOT_LUA`. -/
def Valkey.orderbookSnapshotTexts (db : Valkey) (pair : String) (limit : ℕ) : List String :=
  let bids := db.aggregateSide pair .buy limit
  let asks := db.aggregateSide pair .sell limit
  (2 * bids.length).repr :: (levelTexts bids ++ (2 * asks.length).repr :: levelTexts asks)

/-- The lists of bids and asks that the gateway publishes. -/
def Valkey.orderbookSnapshotLua (db : Valkey) (pair : String) (limit : ℕ) :
    List (Decimal × Decimal) × List (Decimal × Decimal) :=
  decodeSnapshotTexts (db.orderbookSnapshotTexts pair limit)

/-! ### The depth of a side -/

/-- The live orders of a side in the order of the set. -/
def Valkey.liveOrders (db : Valkey) (pair : String) (side : Side) : List OrderHash :=
  ((db.book pair side).rangeByScore none).filterMap db.order

/-- What the orders have left at a price. -/
def restingAt (live : List OrderHash) (priceI : ℤ) : ℤ :=
  ((live.filter (fun h => h.priceI = priceI)).map OrderHash.remainingI).sum

/-- Bids are listed downwards and asks upwards. -/
def ListedBefore (side : Side) (p q : Decimal) : Prop :=
  match side with
  | .buy => q < p
  | .sell => p < q

/-- The levels are those of the live orders, from the best price on and without a gap, each with all
that rests at its price. -/
structure TrueDepth (side : Side) (live : List OrderHash) (levels : List (Decimal × Decimal)) : Prop where
  sorted : (levels.map Prod.fst).Pairwise (ListedBefore side)
  best : ∀ h ∈ live, ∃ l ∈ levels.head?, l.1 = i64ToDecimal h.priceI ∨ ListedBefore side l.1 (i64ToDecimal h.priceI)
  gapless : ∀ l ∈ levels, ∀ h ∈ live, ¬ ListedBefore side l.1 (i64ToDecimal h.priceI) →
    i64ToDecimal h.priceI ∈ levels.map Prod.fst
  total : ∀ l ∈ levels, ∃ h ∈ live, l = (i64ToDecimal h.priceI,i64ToDecimal (restingAt live h.priceI))

/-- The limit cuts no level, the totals are printed in full, and no bid has a negative price. -/
structure LevelsWhole (side : Side) (live : List OrderHash) (limit : ℕ) : Prop where
  uncut : ∀ a ∈ live.take limit, ∀ b ∈ live.drop limit, a.priceI ≠ b.priceI
  printed : ∀ a ∈ live.take limit, restingAt live a.priceI < 10 ^ 14
  unsigned : side = .buy → ∀ a ∈ live.take limit, 0 ≤ a.priceI

/-! ### Levels of a sorted side -/

def pricedAmounts (hs : List OrderHash) : List (ℤ × ℤ) := hs.map (fun h => (h.priceI,h.remainingI))

/-- The prices of the orders, each once, in the order in which they occur. -/
def levelPrices (hs : List OrderHash) : List ℤ := (groupByKey (pricedAmounts hs)).map Prod.fst

lemma amountAt_pricedAmounts (hs : List OrderHash) (k : ℤ) : amountAt k (pricedAmounts hs) = restingAt hs k := by
  simp [amountAt, pricedAmounts, restingAt, List.filter_map, Function.comp_def]

lemma groupByKey_pricedAmounts (hs : List OrderHash) :
    groupByKey (pricedAmounts hs) = (levelPrices hs).map (fun k => (k,restingAt hs k)) := by
  rw [groupByKey_eq]
  simp only [amountAt_pricedAmounts]
  rfl

lemma mem_levelPrices {hs : List OrderHash} {k : ℤ} : k ∈ levelPrices hs ↔ ∃ h ∈ hs, h.priceI = k := by
  simp [levelPrices, mem_keys_groupByKey, pricedAmounts]

lemma restingAt_append (hs ks : List OrderHash) (k : ℤ) : restingAt (hs ++ ks) k = restingAt hs k + restingAt ks k := by
  simp [restingAt]

lemma restingAt_nonneg {hs : List OrderHash} (hpos : ∀ h ∈ hs, 0 < h.remainingI) (k : ℤ) : 0 ≤ restingAt hs k := by
  apply List.sum_nonneg
  intro x hx
  obtain ⟨h,hh,rfl⟩ := List.mem_map.mp hx
  exact (hpos h (List.mem_of_mem_filter hh)).le

lemma restingAt_pos {hs : List OrderHash} (hpos : ∀ h ∈ hs, 0 < h.remainingI) {h : OrderHash} (hh : h ∈ hs) :
    0 < restingAt hs h.priceI := by
  obtain ⟨l,r,rfl⟩ := List.append_of_mem hh
  have hl := restingAt_nonneg (fun x hx => hpos x (List.mem_append_left _ hx)) h.priceI
  have hr := @restingAt_nonneg r (fun x hx => hpos x (by simp [hx])) h.priceI
  have hcons : restingAt (h :: r) h.priceI = h.remainingI + restingAt r h.priceI := by simp [restingAt]
  have := hpos h hh
  rw [restingAt_append, hcons]
  omega

lemma restingAt_of_forall_ne {hs : List OrderHash} {k : ℤ} (h : ∀ x ∈ hs, x.priceI ≠ k) : restingAt hs k = 0 := by
  have hnone : hs.filter (fun x => x.priceI = k) = [] := by
    rw [List.filter_eq_nil_iff]
    intro x hx hk
    exact h x hx (of_decide_eq_true hk)
  rw [restingAt, hnone, List.map_nil, List.sum_nil]

/-- In the order of the set, best price first. -/
def PriceSorted (side : Side) (hs : List OrderHash) : Prop :=
  hs.Pairwise (fun a b => signedPrice side a.priceI ≤ signedPrice side b.priceI)

lemma signedPrice_injective (side : Side) : Function.Injective (signedPrice side) := by
  cases side with
  | buy => exact neg_injective
  | sell => exact Function.injective_id

lemma listedBefore_i64ToDecimal {side : Side} {p q : ℤ} :
    ListedBefore side (i64ToDecimal p) (i64ToDecimal q) ↔ signedPrice side p < signedPrice side q := by
  rw [signedPrice_lt_iff]
  cases side <;> simp only [ListedBefore, BetterPrice, lt_iff_not_ge, i64ToDecimal_le_iff]

lemma levelPrices_pairwise {side : Side} {hs : List OrderHash} (hsort : PriceSorted side hs) :
    (levelPrices hs).Pairwise (fun p q => signedPrice side p < signedPrice side q) := by
  have hkeys : ((pricedAmounts hs).map Prod.fst).Pairwise (fun p q => signedPrice side p ≤ signedPrice side q) := by
    rw [pricedAmounts, List.map_map, List.pairwise_map]
    exact hsort
  refine (keys_groupByKey_pairwise hkeys).imp ?_
  rintro p q ⟨hle,hne⟩
  exact lt_of_le_of_ne hle (fun he => hne (signedPrice_injective side he))

lemma PriceSorted.take_le_drop {side : Side} {hs : List OrderHash} (hsort : PriceSorted side hs) {limit : ℕ} {a b : OrderHash}
    (ha : a ∈ hs.take limit) (hb : b ∈ hs.drop limit) : signedPrice side a.priceI ≤ signedPrice side b.priceI := by
  have happ := hsort
  rw [PriceSorted, ← List.take_append_drop limit hs, List.pairwise_append] at happ
  exact happ.2.2 a ha b hb

/-- The price that the decoder gives a level. -/
def readPrice : Side → ℤ → ℤ
  | .buy => abs
  | .sell => id

/-- The levels that are decoded from the orders fetched. -/
def shownLevels (side : Side) (hs : List OrderHash) : List (Decimal × Decimal) :=
  (levelPrices hs).map (fun k => (i64ToDecimal (readPrice side k),i64ToDecimal ((luaToI64 (restingAt hs k)).getD 0)))

section Shown
variable {side : Side} {live : List OrderHash} {limit : ℕ}

lemma restingAt_take_add_drop (live : List OrderHash) (limit : ℕ) (k : ℤ) :
    restingAt (live.take limit) k + restingAt (live.drop limit) k = restingAt live k := by
  rw [← restingAt_append, List.take_append_drop]

lemma LevelsWhole.readPrice_eq (h : LevelsWhole side live limit) {k : ℤ} (hk : k ∈ levelPrices (live.take limit)) :
    readPrice side k = k := by
  obtain ⟨a,ha,rfl⟩ := mem_levelPrices.mp hk
  cases side with
  | buy => exact abs_of_nonneg (h.unsigned rfl a ha)
  | sell => rfl

lemma LevelsWhole.restingAt_take (h : LevelsWhole side live limit) {k : ℤ} (hk : k ∈ levelPrices (live.take limit)) :
    restingAt (live.take limit) k = restingAt live k := by
  obtain ⟨a,ha,rfl⟩ := mem_levelPrices.mp hk
  have hdrop := restingAt_of_forall_ne (fun b hb => (h.uncut a ha b hb).symm)
  rw [← restingAt_take_add_drop live limit, hdrop, add_zero]

lemma LevelsWhole.shownLevels_eq (h : LevelsWhole side live limit) (hpos : ∀ h ∈ live, 0 < h.remainingI) :
    shownLevels side (live.take limit) =
      (levelPrices (live.take limit)).map (fun k => (i64ToDecimal k,i64ToDecimal (restingAt live k))) := by
  refine List.map_congr_left fun k hk => ?_
  rw [h.readPrice_eq hk, h.restingAt_take hk]
  obtain ⟨a,ha,rfl⟩ := mem_levelPrices.mp hk
  have hlt : |restingAt live a.priceI| < 10 ^ 14 := by
    rw [abs_of_nonneg (restingAt_nonneg hpos _)]
    exact h.printed a ha
  rw [(getD_luaToI64 _).mpr hlt]

/-- The first order of a side is fetched, so the first level shown is at the best price. -/
lemma levelPrices_take_head (hsort : PriceSorted side live) (hlimit : 0 < limit) {x : OrderHash} (hx : x ∈ live) :
    ∃ k ks, levelPrices (live.take limit) = k :: ks ∧ signedPrice side k ≤ signedPrice side x.priceI := by
  have hprices := levelPrices_pairwise (List.Pairwise.sublist (List.take_sublist limit live) hsort)
  cases live with
  | nil => exact absurd hx (by simp)
  | cons first rest =>
    have hfirst : first.priceI ∈ levelPrices ((first :: rest).take limit) := by
      refine mem_levelPrices.mpr ⟨first,?_,rfl⟩
      rw [List.take_cons hlimit]
      exact List.mem_cons_self
    have hbest : signedPrice side first.priceI ≤ signedPrice side x.priceI := by
      rcases List.mem_cons.mp hx with rfl | hx
      · exact le_refl _
      · exact (List.pairwise_cons.mp hsort).1 x hx
    cases hks : levelPrices ((first :: rest).take limit) with
    | nil => exact absurd (hks ▸ hfirst) (by simp)
    | cons k ks =>
      refine ⟨k,ks,rfl,le_trans ?_ hbest⟩
      rw [hks] at hfirst hprices
      rcases List.mem_cons.mp hfirst with he | hmem
      · rw [he]
      · exact ((List.pairwise_cons.mp hprices).1 _ hmem).le

lemma LevelsWhole.trueDepth (h : LevelsWhole side live limit) (hpos : ∀ h ∈ live, 0 < h.remainingI)
    (hsort : PriceSorted side live) (hlimit : 0 < limit) : TrueDepth side live (shownLevels side (live.take limit)) := by
  have hprices := levelPrices_pairwise (List.Pairwise.sublist (List.take_sublist limit live) hsort)
  rw [h.shownLevels_eq hpos]
  refine ⟨?_,?_,?_,?_⟩
  · rw [List.map_map, List.pairwise_map]
    exact hprices.imp (fun hlt => listedBefore_i64ToDecimal.mpr hlt)
  · intro x hx
    obtain ⟨k,ks,hks,hle⟩ := levelPrices_take_head hsort hlimit hx
    rw [hks]
    refine ⟨_,rfl,?_⟩
    rw [listedBefore_i64ToDecimal, i64ToDecimal_injective.eq_iff, ← (signedPrice_injective side).eq_iff]
    exact eq_or_lt_of_le hle
  · intro l hl x hx hnot
    obtain ⟨k,hk,rfl⟩ := List.mem_map.mp hl
    rw [listedBefore_i64ToDecimal, not_lt] at hnot
    rw [List.map_map]
    refine List.mem_map.mpr ⟨x.priceI,?_,rfl⟩
    rw [← List.take_append_drop limit live, List.mem_append] at hx
    rcases hx with hx | hx
    · exact mem_levelPrices.mpr ⟨x,hx,rfl⟩
    · -- an order left out is at the last price, if it is not behind it
      obtain ⟨a,ha,rfl⟩ := mem_levelPrices.mp hk
      rw [signedPrice_injective side (le_antisymm hnot (hsort.take_le_drop ha hx))]
      exact hk
  · intro l hl
    obtain ⟨k,hk,rfl⟩ := List.mem_map.mp hl
    obtain ⟨a,ha,rfl⟩ := mem_levelPrices.mp hk
    exact ⟨a,List.mem_of_mem_take ha,rfl⟩

lemma mem_shownLevels {hs : List OrderHash} {a : OrderHash} (ha : a ∈ hs) :
    (i64ToDecimal (readPrice side a.priceI),i64ToDecimal ((luaToI64 (restingAt hs a.priceI)).getD 0)) ∈ shownLevels side hs :=
  List.mem_map.mpr ⟨a.priceI,mem_levelPrices.mpr ⟨a,ha,rfl⟩,rfl⟩

lemma TrueDepth.readPrice_inj (h : TrueDepth side live (shownLevels side (live.take limit))) {a b : OrderHash}
    (ha : a ∈ live.take limit) (hb : b ∈ live.take limit) (he : readPrice side a.priceI = readPrice side b.priceI) :
    a.priceI = b.priceI := by
  have hnodup : ((levelPrices (live.take limit)).map (fun k => i64ToDecimal (readPrice side k))).Nodup := by
    have hsorted := h.sorted
    rw [shownLevels, List.map_map] at hsorted
    refine hsorted.imp ?_
    rintro p q hlt rfl
    cases side <;> exact lt_irrefl _ hlt
  exact List.inj_on_of_nodup_map hnodup (mem_levelPrices.mpr ⟨a,ha,rfl⟩) (mem_levelPrices.mpr ⟨b,hb,rfl⟩) (by simp only [he])

/-- A negative bid would be shown at the opposite price, which then is live, fetched and shown itself. -/
lemma TrueDepth.unsigned (h : TrueDepth side live (shownLevels side (live.take limit))) (hsort : PriceSorted side live)
    (hside : side = .buy) : ∀ a ∈ live.take limit, 0 ≤ a.priceI := by
  subst hside
  intro a ha
  by_contra hneg
  obtain ⟨b,hb,he⟩ := h.total _ (mem_shownLevels ha)
  have hprice : |a.priceI| = b.priceI := i64ToDecimal_injective (congrArg Prod.fst he)
  rw [abs_of_neg (not_le.mp hneg)] at hprice
  have hfetched : b ∈ live.take limit := by
    rw [← List.take_append_drop limit live, List.mem_append] at hb
    refine hb.resolve_right fun hb => ?_
    have hle := hsort.take_le_drop ha hb
    simp only [signedPrice] at hle
    omega
  have hinj := h.readPrice_inj ha hfetched (by rw [← hprice]; exact (abs_neg _).symm)
  omega

lemma TrueDepth.levelsWhole (h : TrueDepth side live (shownLevels side (live.take limit)))
    (hpos : ∀ h ∈ live, 0 < h.remainingI) (hsort : PriceSorted side live) : LevelsWhole side live limit := by
  have hunsigned := h.unsigned hsort
  have htotal : ∀ a ∈ live.take limit, restingAt (live.take limit) a.priceI = restingAt live a.priceI ∧
      restingAt live a.priceI < 10 ^ 14 := by
    intro a ha
    obtain ⟨b,hb,he⟩ := h.total _ (mem_shownLevels ha)
    obtain ⟨hprice,hqty⟩ := Prod.mk.inj he
    have hread : readPrice side a.priceI = a.priceI := by
      cases side with
      | buy => exact abs_of_nonneg (hunsigned rfl a ha)
      | sell => rfl
    rw [i64ToDecimal_injective.eq_iff, hread] at hprice
    rw [i64ToDecimal_injective.eq_iff, ← hprice] at hqty
    have hlive := restingAt_pos hpos (List.mem_of_mem_take ha)
    by_cases hlt : |restingAt (live.take limit) a.priceI| < 10 ^ 14
    · rw [(getD_luaToI64 _).mpr hlt] at hqty
      rw [hqty, abs_of_pos hlive] at hlt
      exact ⟨hqty,hlt⟩
    · rw [(luaToI64_getD_of_not_lt hlt).1] at hqty
      omega
  refine ⟨?_,fun a ha => (htotal a ha).2,hunsigned⟩
  intro a ha b hb he
  have hsum := restingAt_take_add_drop live limit a.priceI
  have hleft : 0 < restingAt (live.drop limit) b.priceI :=
    restingAt_pos (fun x hx => hpos x (List.mem_of_mem_drop hx)) hb
  rw [(htotal a ha).1, he] at hsum
  omega

end Shown

/-! ### The book -/

lemma filterMap_take_of_isSome {α β : Type*} {f : α → Option β} {xs : List α} (h : ∀ x ∈ xs, (f x).isSome) (n : ℕ) :
    (xs.take n).filterMap f = (xs.filterMap f).take n := by
  induction xs generalizing n with
  | nil => simp
  | cons x xs ih =>
    simp only [List.mem_cons, forall_eq_or_imp] at h
    obtain ⟨y,hy⟩ := Option.isSome_iff_exists.mp h.1
    cases n with
    | zero => simp
    | succ n => rw [List.take_succ_cons, List.filterMap_cons_some hy, List.filterMap_cons_some hy, List.take_succ_cons, ih h.2]

section Book
variable {db : Valkey} (hr : db.Represented) (pair : String) (side : Side)
include hr

lemma Valkey.Represented.isSome_order : ∀ id ∈ (db.book pair side).rangeByScore none, (db.order id).isSome := by
  intro id hid
  obtain ⟨e,he,_,rfl⟩ := SortedSet.mem_rangeByScore.mp hid
  obtain ⟨h,hh,_⟩ := hr.entry pair side e he
  rw [hh]
  rfl

lemma Valkey.Represented.liveOrders_pos : ∀ h ∈ db.liveOrders pair side, 0 < h.remainingI := by
  intro h hh
  obtain ⟨id,_,hid⟩ := List.mem_filterMap.mp hh
  exact (hr.remaining id h hid).1

lemma Valkey.Represented.liveOrders_sorted : PriceSorted side (db.liveOrders pair side) := by
  have hrange : (db.book pair side).rangeByScore none = (db.book pair side).entries.map Entry.member := by
    simp [SortedSet.rangeByScore]
  rw [PriceSorted, Valkey.liveOrders, hrange, List.pairwise_filterMap, List.pairwise_map]
  refine (db.book pair side).sorted.imp_of_mem ?_
  intro a b ha hb hab x hx y hy
  obtain ⟨h,hh,_,_,hscore⟩ := hr.entry pair side a ha
  obtain ⟨k,hk,_,_,hscore'⟩ := hr.entry pair side b hb
  obtain rfl : h = x := Option.some_injective _ (hh.symm.trans hx)
  obtain rfl : k = y := Option.some_injective _ (hk.symm.trans hy)
  rw [← hscore, ← hscore']
  exact hab.score_le

end Book

/-- The prices are printed in full. -/
def Valkey.PricesInFull (db : Valkey) : Prop := ∀ id h, db.order id = some h → |h.priceI| < 10 ^ 14

lemma luaToString_injOn {p q : ℤ} (hp : |p| < 10 ^ 14) (hq : |q| < 10 ^ 14) (h : luaToString p = luaToString q) : p = q := by
  have hread := congrArg parseI64 h
  rw [parseI64_luaToString, parseI64_luaToString, luaToI64_of_lt hp, luaToI64_of_lt hq] at hread
  exact Option.some_injective _ hread

lemma Valkey.Represented.aggregateSide_eq {db : Valkey} (hr : db.Represented) (hfull : db.PricesInFull) (pair : String)
    (side : Side) (limit : ℕ) : db.aggregateSide pair side limit =
      (levelPrices ((db.liveOrders pair side).take limit)).map
        (fun k => (luaToString k,restingAt ((db.liveOrders pair side).take limit) k)) := by
  have hlive : ∀ h ∈ (db.liveOrders pair side).take limit, 0 < h.remainingI ∧ |h.priceI| < 10 ^ 14 := by
    intro h hh
    have hmem := List.mem_of_mem_take hh
    obtain ⟨id,_,hid⟩ := List.mem_filterMap.mp hmem
    exact ⟨hr.liveOrders_pos pair side h hmem,hfull id h hid⟩
  have hfilter : ((db.liveOrders pair side).take limit).filter (fun h => 0 < h.remainingI) =
      (db.liveOrders pair side).take limit :=
    List.filter_eq_self.mpr fun h hh => decide_eq_true (hlive h hh).1
  have hpriced : ∀ h ∈ ((pricedAmounts ((db.liveOrders pair side).take limit)).map Prod.fst), |h| < 10 ^ 14 := by
    intro p hp
    simp only [pricedAmounts, List.map_map, List.mem_map] at hp
    obtain ⟨h,hh,rfl⟩ := hp
    exact (hlive h hh).2
  have hgroup := groupByKey_map luaToString (fun a ha b hb => luaToString_injOn (hpriced a ha) (hpriced b hb))
  unfold Valkey.aggregateSide
  simp only
  rw [filterMap_take_of_isSome (hr.isSome_order pair side)]
  rw [← Valkey.liveOrders, hfilter]
  rw [groupByKey_pricedAmounts, List.map_map, pricedAmounts, List.map_map] at hgroup
  exact hgroup

/-- The levels of a side as the script prints them. -/
def scriptLevels (hs : List OrderHash) : List Level := (levelPrices hs).map (fun k => ⟨k,true,restingAt hs k⟩)

lemma levelTexts_eq (hs : List OrderHash) :
    levelTexts ((levelPrices hs).map (fun k => (luaToString k,restingAt hs k))) = (scriptLevels hs).flatMap Level.texts := by
  rw [levelTexts, scriptLevels, List.flatMap_map, List.flatMap_map]
  rfl

/-- There are fewer prices of fourteen digits than the counts of the reply can hold. -/
lemma two_mul_length_levelPrices_lt {hs : List OrderHash} (h : ∀ k ∈ levelPrices hs, |k| < 10 ^ 14) :
    2 * (levelPrices hs).length < 2 ^ 64 := by
  have hnodup : (levelPrices hs).Nodup := keys_groupByKey_nodup _
  have hsub : (levelPrices hs).toFinset ⊆ Finset.Ioo (-10 ^ 14) (10 ^ 14) := by
    intro k hk
    exact Finset.mem_Ioo.mpr (abs_lt.mp (h k (List.mem_toFinset.mp hk)))
  have hcard := Finset.card_le_card hsub
  rw [List.toFinset_card_of_nodup hnodup, Int.card_Ioo] at hcard
  omega

lemma read_scriptLevels (side : Side) {hs : List OrderHash} (h : ∀ k ∈ levelPrices hs, |k| < 10 ^ 14) :
    (scriptLevels hs).map (Level.read (readPrice side)) = shownLevels side hs := by
  rw [scriptLevels, List.map_map]
  refine List.map_congr_left fun k hk => ?_
  simp only [Function.comp_apply, Level.read, if_true, (getD_luaToI64 k).mpr (h k hk)]

/-- The published lists are the levels of the orders fetched. -/
theorem Valkey.Represented.orderbookSnapshotLua_eq {db : Valkey} (hr : db.Represented) (hfull : db.PricesInFull)
    (pair : String) (limit : ℕ) : db.orderbookSnapshotLua pair limit =
      (shownLevels .buy ((db.liveOrders pair .buy).take limit),shownLevels .sell ((db.liveOrders pair .sell).take limit)) := by
  have hprices : ∀ side, ∀ k ∈ levelPrices ((db.liveOrders pair side).take limit), |k| < 10 ^ 14 := by
    intro side k hk
    obtain ⟨h,hh,rfl⟩ := mem_levelPrices.mp hk
    obtain ⟨id,_,hid⟩ := List.mem_filterMap.mp (List.mem_of_mem_take hh)
    exact hfull id h hid
  have hI64 : ∀ side, ∀ l ∈ scriptLevels ((db.liveOrders pair side).take limit), IsI64 l.priceI := by
    intro side l hl
    obtain ⟨k,hk,rfl⟩ := List.mem_map.mp hl
    have := abs_lt.mp (hprices side k hk)
    constructor <;> simp only <;> omega
  have hcount : ∀ side, 2 * (scriptLevels ((db.liveOrders pair side).take limit)).length < 2 ^ 64 := by
    intro side
    rw [scriptLevels, List.length_map]
    exact two_mul_length_levelPrices_lt (hprices side)
  have htexts : db.orderbookSnapshotTexts pair limit =
      snapshotTexts (scriptLevels ((db.liveOrders pair .buy).take limit)) (scriptLevels ((db.liveOrders pair .sell).take limit)) := by
    simp only [Valkey.orderbookSnapshotTexts, hr.aggregateSide_eq hfull, levelTexts_eq, snapshotTexts, scriptLevels, List.length_map]
  rw [Valkey.orderbookSnapshotLua, htexts,
    decodeSnapshotTexts_snapshotTexts (hI64 .buy) (hI64 .sell) (hcount .buy) (hcount .sell)]
  exact Prod.ext (read_scriptLevels .buy (hprices .buy)) (read_scriptLevels .sell (hprices .sell))

lemma trueDepth_shownLevels_iff {db : Valkey} (hr : db.Represented) (pair : String) (side : Side) {limit : ℕ}
    (hlimit : 0 < limit) : TrueDepth side (db.liveOrders pair side) (shownLevels side ((db.liveOrders pair side).take limit)) ↔
      LevelsWhole side (db.liveOrders pair side) limit :=
  ⟨fun h => h.levelsWhole (hr.liveOrders_pos pair side) (hr.liveOrders_sorted pair side),
    fun h => h.trueDepth (hr.liveOrders_pos pair side) (hr.liveOrders_sorted pair side) hlimit⟩

/-- The snapshot of a represented book shows the true depth of both sides exactly when the limit cuts no
level, each level shown holds less than `10^14`, and the bids shown have prices that are not negative. -/
theorem orderbookSnapshotLua_trueDepth_iff {db : Valkey} (hr : db.Represented) (hfull : db.PricesInFull) (pair : String)
    {limit : ℕ} (hlimit : 0 < limit) :
    (TrueDepth .buy (db.liveOrders pair .buy) (db.orderbookSnapshotLua pair limit).1 ∧
        TrueDepth .sell (db.liveOrders pair .sell) (db.orderbookSnapshotLua pair limit).2) ↔
      LevelsWhole .buy (db.liveOrders pair .buy) limit ∧ LevelsWhole .sell (db.liveOrders pair .sell) limit := by
  rw [hr.orderbookSnapshotLua_eq hfull]
  exact and_congr (trueDepth_shownLevels_iff hr pair .buy hlimit) (trueDepth_shownLevels_iff hr pair .sell hlimit)

lemma smallAsks_represented {n : ℕ} (hn : n ≤ 2 ^ 128) : (smallAsks n).db.Represented ∧ (smallAsks n).db.PricesInFull := by
  obtain ⟨hr,hs⟩ := (smallAsks_reachable hn).invariant (fun _ _ ho => ho.2.2.2.qty_pos.le)
  refine ⟨hr,fun id h hid => ?_⟩
  obtain ⟨o,ho,_,hsource⟩ := hs.source id h hid
  rw [smallAsks_submitted] at ho
  obtain ⟨i,_,rfl⟩ := List.mem_map.mp ho
  rw [hsource]
  show |decimalToI64 (i64ToDecimal 100)| < 10 ^ 14
  rw [decimalToI64_i64ToDecimal (by decide) (by decide)]
  decide

/-- Three asks at one price are shown as one level. -/
theorem three_asks_shown : (smallAsks 3).db.orderbookSnapshotLua "BTC-USDT" 50 = ([],[(i64ToDecimal 100,i64ToDecimal 3)]) ∧
    TrueDepth .sell ((smallAsks 3).db.liveOrders "BTC-USDT" .sell) ((smallAsks 3).db.orderbookSnapshotLua "BTC-USDT" 50).2 := by
  obtain ⟨hr,hfull⟩ := smallAsks_represented (show 3 ≤ 2 ^ 128 by decide)
  refine ⟨by decide +kernel,((orderbookSnapshotLua_trueDepth_iff hr hfull "BTC-USDT" (by decide)).mpr ⟨?_,?_⟩).2⟩
  · exact ⟨by decide +kernel,by decide +kernel,fun _ => by decide +kernel⟩
  · exact ⟨by decide +kernel,by decide +kernel,fun h => absurd h (by decide)⟩

/-- Of fifty-one asks at one price only fifty are counted. -/
theorem fifty_first_ask_not_counted : (smallAsks 51).db.Represented ∧ (smallAsks 51).db.PricesInFull ∧
    (smallAsks 51).db.orderbookSnapshotLua "BTC-USDT" 50 = ([],[(i64ToDecimal 100,i64ToDecimal 50)]) ∧
    ¬ TrueDepth .sell ((smallAsks 51).db.liveOrders "BTC-USDT" .sell)
      ((smallAsks 51).db.orderbookSnapshotLua "BTC-USDT" 50).2 := by
  obtain ⟨hr,hfull⟩ := smallAsks_represented (show 51 ≤ 2 ^ 128 by decide)
  refine ⟨hr,hfull,by decide +kernel,fun htrue => ?_⟩
  have hmem : (i64ToDecimal 100,i64ToDecimal 50) ∈ ((smallAsks 51).db.orderbookSnapshotLua "BTC-USDT" 50).2 := by
    decide +kernel
  have hall : ∀ h ∈ (smallAsks 51).db.liveOrders "BTC-USDT" .sell, (i64ToDecimal 100,i64ToDecimal 50) ≠
      (i64ToDecimal h.priceI,i64ToDecimal (restingAt ((smallAsks 51).db.liveOrders "BTC-USDT" .sell) h.priceI)) := by
    decide +kernel
  obtain ⟨h,hh,he⟩ := htrue.total _ hmem
  exact hall h hh he

end MatchingEngine

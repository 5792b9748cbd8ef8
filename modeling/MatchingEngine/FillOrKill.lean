import MatchingEngine.GreedyEngine

/-! Fill-or-kill in the reference engine. The pre-check counts every price-compatible entry, the
walk only those self-trade prevention leaves to the order; when the two differ a fill-or-kill
order can end partially filled. -/
namespace MatchingEngine.Engine

/-- Filled as a whole, or cancelled with nothing done. -/
def AllOrNothing (incoming : Order) (book : List Order) (r : MatchResult) (book' : List Order) : Prop :=
  r.incoming.status = .filled ∧ (r.trades.map Trade.quantity).sum = incoming.remaining ∨
    r.incoming.status = .cancelled ∧ r.trades = [] ∧ r.bookUpdates = [] ∧ book' = book

instance (incoming : Order) (book : List Order) (r : MatchResult) (book' : List Order) :
    Decidable (AllOrNothing incoming book r book') := inferInstanceAs (Decidable (_ ∨ _))

/-- The entries whose price is good enough. -/
def compatible (incoming : Order) (book : List Order) : List Order := book.filter (priceMatches incoming)

/-- The compatible entries that self-trade prevention leaves to the order: it skips the user's own
entries, or stops at the first of them. -/
def usable (incoming : Order) (book : List Order) : List Order :=
  match incoming.stpMode with
  | .cancelTaker | .cancelBoth => (compatible incoming book).takeWhile (fun o => ¬ Prevented incoming o)
  | .cancelMaker | .none => (compatible incoming book).filter (fun o => ¬ Prevented incoming o)

/-- What is left of the entries. -/
def liquidity (entries : List Order) : Decimal := (entries.map Order.remaining).sum

section Usable
variable {incoming r : Order} {rest book : List Order}

@[simp] lemma liquidity_nil : liquidity [] = 0 := rfl

@[simp] lemma liquidity_cons (o : Order) (entries : List Order) : liquidity (o :: entries) = o.remaining + liquidity entries :=
  rfl

lemma liquidity_nonneg {entries : List Order} (h : ∀ o ∈ entries, 0 < o.remaining) : 0 ≤ liquidity entries := by
  refine List.sum_nonneg (fun q hq => ?_)
  obtain ⟨o,ho,rfl⟩ := List.mem_map.mp hq
  exact (h o ho).le

lemma mem_of_mem_usable {o : Order} (h : o ∈ usable incoming book) : o ∈ book := by
  unfold usable at h
  cases hmode : incoming.stpMode <;> simp only [hmode] at h
  · exact List.mem_of_mem_filter (List.mem_of_mem_filter h)
  · exact List.mem_of_mem_filter ((List.takeWhile_sublist _).subset h)
  · exact List.mem_of_mem_filter (List.mem_of_mem_filter h)
  · exact List.mem_of_mem_filter ((List.takeWhile_sublist _).subset h)

lemma compatible_eq_nil (h : ∀ o ∈ book, ¬ priceMatches incoming o) : compatible incoming book = [] :=
  List.filter_eq_nil_iff.mpr h

lemma compatible_cons (hmatch : priceMatches incoming r) :
    compatible incoming (r :: rest) = r :: compatible incoming rest := List.filter_cons_of_pos hmatch

lemma usable_of_incompatible (h : ∀ o ∈ book, ¬ priceMatches incoming o) : usable incoming book = [] := by
  unfold usable
  rw [compatible_eq_nil h]
  cases incoming.stpMode <;> rfl

lemma usable_cons (hmatch : priceMatches incoming r) (hown : ¬ Prevented incoming r) :
    usable incoming (r :: rest) = r :: usable incoming rest := by
  unfold usable
  cases incoming.stpMode <;> simp [compatible_cons hmatch, hown]

lemma usable_skip (hmode : incoming.stpMode = .cancelMaker) (hmatch : priceMatches incoming r)
    (hown : Prevented incoming r) : usable incoming (r :: rest) = usable incoming rest := by
  simp [usable, hmode, compatible_cons hmatch, hown]

lemma usable_stop (hmode : incoming.stpMode ≠ .cancelMaker) (hmatch : priceMatches incoming r)
    (hown : Prevented incoming r) : usable incoming (r :: rest) = [] := by
  unfold usable
  cases hm : incoming.stpMode with
  | none => exact absurd hm hown.2
  | cancelTaker => simp [compatible_cons hmatch, hown]
  | cancelMaker => exact absurd hm hmode
  | cancelBoth => simp [compatible_cons hmatch, hown]

end Usable

lemma BookFor.tail {side : Side} {r : Order} {rest : List Order} (h : BookFor side (r :: rest)) : BookFor side rest := by
  have hsplit : BookFor side ([r] ++ rest) := h
  exact hsplit.append.2

lemma sum_touches (incoming : Order) (rem : Decimal) (book : List Order) (hrem : 0 ≤ rem)
    (hbook : BookFor incoming.side book) :
    ((touches incoming rem book).map Touch.qty).sum = min rem (liquidity (usable incoming book)) := by
  fun_induction touches incoming rem book with
  | case1 rem =>
    rw [usable_of_incompatible (by simp), liquidity_nil, min_eq_right hrem]
    rfl
  | case2 r rest =>
    rw [min_eq_left (liquidity_nonneg fun o ho => hbook.positive o (mem_of_mem_usable ho))]
    rfl
  | case3 rem r rest h0 hmatch =>
    have hall := hbook.incompatible (by simpa using hmatch)
    rw [usable_of_incompatible hall, liquidity_nil, min_eq_right hrem]
    rfl
  | case4 rem r rest h0 hmatch hown hmode ih =>
    rw [usable_skip hmode (not_not.mp hmatch) hown, ← ih hrem hbook.tail]
    simp [Touch.qty]
  | case5 rem r rest h0 hmatch hown hmode =>
    rw [usable_stop (by simp [hmode]) (not_not.mp hmatch) hown, liquidity_nil, min_eq_right hrem]
    simp [Touch.qty]
  | case6 rem r rest h0 hmatch hown hmaker hboth =>
    rw [usable_stop hmaker (not_not.mp hmatch) hown, liquidity_nil, min_eq_right hrem]
    rfl
  | case7 rem r rest h0 hmatch hown ih =>
    have htail := ih (sub_nonneg.mpr (min_le_left _ _)) hbook.tail
    have hrest : 0 ≤ liquidity (usable incoming rest) :=
      liquidity_nonneg fun o ho => hbook.tail.positive o (mem_of_mem_usable ho)
    rw [usable_cons (not_not.mp hmatch) hown, liquidity_cons, List.map_cons, List.sum_cons, htail]
    simp only [Touch.qty]
    -- the entry covers what is left, or is taken whole
    rcases le_total rem r.remaining with hle | hle
    · rw [min_eq_left hle, sub_self, min_eq_left hrest, min_eq_left (by linarith), add_zero]
    · rw [min_eq_right hle, ← min_add_add_left, add_sub_cancel]

lemma fokRejects_iff {incoming : Order} {book : List Order} (htif : incoming.tif = .fok) :
    fokRejects incoming book ↔ liquidity (compatible incoming book) < incoming.remaining := by
  simp [fokRejects, htif, liquidity, compatible, List.sum_eq_foldl]

lemma compatible_head {incoming : Order} {book : List Order} (hrem : 0 < incoming.remaining)
    (hbook : BookFor incoming.side book) (h : incoming.remaining ≤ liquidity (compatible incoming book)) :
    ∃ r rest, book = r :: rest ∧ priceMatches incoming r := by
  cases book with
  | nil => exact absurd h (not_le.mpr hrem)
  | cons r rest =>
    refine ⟨r,rest,rfl,?_⟩
    by_contra hmatch
    rw [compatible_eq_nil (hbook.incompatible (by simpa using hmatch))] at h
    exact absurd h (not_le.mpr hrem)

lemma touches_eq_nil_iff {incoming : Order} {book : List Order} (hrem : 0 < incoming.remaining)
    (hbook : BookFor incoming.side book) (h : incoming.remaining ≤ liquidity (compatible incoming book)) :
    touches incoming incoming.remaining book = [] ↔
      incoming.stpMode = .cancelTaker ∧ ∃ o ∈ book.head?, o.userId = incoming.userId := by
  obtain ⟨r,rest,rfl,hmatch⟩ := compatible_head hrem hbook h
  rw [touches, if_neg hrem.ne', if_neg (not_not.mpr hmatch)]
  by_cases hown : Prevented incoming r
  · rw [if_pos hown]
    cases hmode : incoming.stpMode with
    | none => exact absurd hmode hown.2
    | cancelTaker => simp [hown.1]
    | cancelMaker => simp
    | cancelBoth => simp
  · rw [if_neg hown]
    simp only [List.cons_ne_nil, false_iff]
    rintro ⟨hmode,o,ho,huser⟩
    cases ho
    exact hown ⟨huser.symm,by simp [hmode]⟩

section Status
variable {incoming : Order} {tif : TimeInForce} {trades : List Trade}

lemma applyTif_of_filled (h : incoming.remaining = 0) : applyTif tif trades incoming = incoming :=
  if_neg (by simp [h])

lemma applyTif_cancelled (htif : tif ≠ .gtc) (h : 0 < incoming.remaining) :
    (applyTif tif trades incoming).status = .cancelled := by
  unfold applyTif
  by_cases hstatus : incoming.status = .cancelled
  · simp [hstatus]
  · rw [if_pos ⟨h,hstatus⟩]
    cases tif with
    | gtc => contradiction
    | ioc => rfl
    | fok => rfl

end Status

lemma effectiveTif_ne_gtc {incoming : Order} (htif : incoming.tif = .fok) : effectiveTif incoming ≠ .gtc := by
  unfold effectiveTif
  split_ifs <;> simp [htif]

/-- An accepted fill-or-kill order is all or nothing when it is filled or nothing is touched. -/
lemma allOrNothing_iff_touches (newV4 : ℕ → Uuid) {incoming : Order} {book : List Order} (htif : incoming.tif = .fok)
    (hrem : 0 < incoming.remaining) (hfok : fokRejects incoming book = false) :
    AllOrNothing incoming book (matchOrder newV4 incoming book).1 (matchOrder newV4 incoming book).2 ↔
      ((touches incoming incoming.remaining book).map Touch.qty).sum = incoming.remaining ∨
        touches incoming incoming.remaining book = [] := by
  have hwalk := walkBook_walked newV4 book ⟨[],[],incoming,[]⟩
  rw [matchOrder_of_not_rejected newV4 hfok]
  simp only [] at hwalk ⊢
  set w := walkBook newV4 book ⟨[],[],incoming,[]⟩
  set vs := touches incoming incoming.remaining book
  have htotal : (w.1.trades.map Trade.quantity).sum = (vs.map Touch.qty).sum := by
    rw [hwalk.quantities rfl, sum_qty_fills]
  have hle : (vs.map Touch.qty).sum ≤ incoming.remaining := touches_le hrem.le
  have hleft : w.1.incoming.remaining = incoming.remaining - (vs.map Touch.qty).sum := hwalk.remaining
  by_cases hfull : (vs.map Touch.qty).sum = incoming.remaining
  · have hzero : w.1.incoming.remaining = 0 := by rw [hleft, hfull, sub_self]
    have hstatus : w.1.incoming.status = .filled := by rw [hwalk.filled hzero, if_neg hrem.ne']
    refine iff_of_true (.inl ⟨?_,htotal.trans hfull⟩) (.inl hfull)
    rw [applyTif_of_filled hzero]
    exact hstatus
  · have hpos : 0 < w.1.incoming.remaining := by
      rw [hleft]
      exact sub_pos.mpr (lt_of_le_of_ne hle hfull)
    have hstatus : (applyTif (effectiveTif incoming) w.1.trades w.1.incoming).status = .cancelled :=
      applyTif_cancelled (effectiveTif_ne_gtc htif) hpos
    constructor
    · rintro (⟨hfilled,_⟩ | ⟨_,_,hupdates,_⟩)
      · rw [hstatus] at hfilled
        cases hfilled
      · right
        rw [hwalk.updates, List.nil_append] at hupdates
        exact List.map_eq_nil_iff.mp hupdates
    · rintro (h | hnil)
      · exact absurd h hfull
      · obtain ⟨ts,hts,hof⟩ := hwalk.trades
        obtain ⟨back,hfront,hslice,_⟩ := hwalk.entries
        rw [hnil] at hof hfront hslice
        refine .inr ⟨hstatus,?_,?_,hslice.trans hfront.symm⟩
        · cases hof
          exact hts
        · rw [hwalk.updates, hnil]
          rfl

/-- A fill-or-kill order is filled as a whole or leaves no mark exactly when the pre-check turns it
down, the entries that self-trade prevention leaves to it cover it, or its very first step is
the stop at an own entry. -/
theorem fillOrKill_iff (newV4 : ℕ → Uuid) (incoming : Order) (book : List Order) (htif : incoming.tif = .fok)
    (hrem : 0 < incoming.remaining) (hbook : BookFor incoming.side book) :
    AllOrNothing incoming book (matchOrder newV4 incoming book).1 (matchOrder newV4 incoming book).2 ↔
      liquidity (compatible incoming book) < incoming.remaining ∨
        incoming.remaining ≤ liquidity (usable incoming book) ∨
        incoming.stpMode = .cancelTaker ∧ ∃ o ∈ book.head?, o.userId = incoming.userId := by
  by_cases hfok : fokRejects incoming book = true
  · refine iff_of_true ?_ (.inl ((fokRejects_iff htif).mp hfok))
    rw [matchOrder, if_pos hfok]
    exact .inr ⟨rfl,rfl,rfl,rfl⟩
  · have henough : ¬ liquidity (compatible incoming book) < incoming.remaining := fun h => hfok ((fokRejects_iff htif).mpr h)
    rw [allOrNothing_iff_touches newV4 htif hrem (Bool.eq_false_of_not_eq_true hfok), sum_touches incoming _ book hrem.le hbook,
      touches_eq_nil_iff hrem hbook (not_lt.mp henough), min_eq_left_iff, or_iff_right henough]

/-- Bob's own offer is skipped and the other two fill his order. -/
theorem fillOrKill_iff_filled :
    let bid := { Order.gtcLimit 9 "bob" "BTC-USDT" .buy 300 5 with tif := .fok, stpMode := .cancelMaker }
    let offers := [Order.gtcLimit 1 "alice" "BTC-USDT" .sell 100 2,Order.gtcLimit 2 "bob" "BTC-USDT" .sell 200 4,
      Order.gtcLimit 3 "carol" "BTC-USDT" .sell 300 3]
    BookFor .buy offers ∧
      AllOrNothing bid offers (matchOrder (fun _ => 0) bid offers).1 (matchOrder (fun _ => 0) bid offers).2 := by
  intro bid offers
  have hbook : BookFor .buy offers := ⟨by simp [offers, Order.gtcLimit],by decide +kernel,by decide +kernel⟩
  have husable : bid.remaining ≤ liquidity (usable bid offers) := by decide +kernel
  exact ⟨hbook,(fillOrKill_iff _ bid offers rfl (by decide +kernel) hbook).mpr (.inr (.inl husable))⟩

/-- Bob's own offer counts for the pre-check. The walk fills `2` of `5` against Alice, stops at the
own offer and reports the order cancelled. -/
theorem fillOrKill_partially_filled :
    let bid := { Order.gtcLimit 9 "bob" "BTC-USDT" .buy 300 5 with tif := .fok, stpMode := .cancelTaker }
    let offers := [Order.gtcLimit 1 "alice" "BTC-USDT" .sell 100 2,Order.gtcLimit 2 "bob" "BTC-USDT" .sell 200 4]
    let r := matchOrder (fun _ => 0) bid offers
    bid.tif = .fok ∧ 0 < bid.remaining ∧ BookFor .buy offers ∧
      r.1.incoming.status = .cancelled ∧ r.1.trades.map Trade.quantity = [i64ToDecimal 2] ∧
      ¬ AllOrNothing bid offers r.1 r.2 := by
  intro bid offers r
  have hbook : BookFor .buy offers := ⟨by simp [offers, Order.gtcLimit],by decide +kernel,by decide +kernel⟩
  exact ⟨rfl,by decide +kernel,hbook,by decide +kernel,by decide +kernel,by decide +kernel⟩

end MatchingEngine.Engine

import MatchingEngine.GreedyEngine

/-! Splitting an order. Matching a quantity in two parts, the second against the book that the
first has left, trades the same and leaves the same book as matching it at once. The law is
proved for what the walk touches, where the split falls inside an entry, between two entries
or behind the last one. -/
namespace MatchingEngine.Engine

/-- The book with the reported updates put in place, in book order; filled entries leave. -/
def applyUpdates : List Order → List Order → List Order
  | [], _ => []
  | o :: book, [] => o :: book
  | o :: book, u :: us =>
    if o.id = u.id then (if u.status = .filled then applyUpdates book us else u :: applyUpdates book us)
    else o :: applyUpdates book (u :: us)

/-- What was traded with the resting order at the price. -/
def tradedWith (side : Side) (id : Uuid) (price : Decimal) (trades : List Trade) : Decimal :=
  (trades.map (fun t => if counterparty side t = id ∧ t.price = price then t.quantity else 0)).sum

/-- Two orders of one user on the same terms. -/
structure SameTerms (o p : Order) : Prop where
  side : p.side = o.side
  userId : p.userId = o.userId
  orderType : p.orderType = o.orderType
  price : p.price = o.price
  tif : p.tif = o.tif
  stpMode : p.stpMode = o.stpMode

lemma applyUpdates_nil (book : List Order) : applyUpdates book [] = book := by
  cases book <;> rfl

section Touched
variable {o p r : Order} {rem q q₁ q₂ : Decimal} {book rest : List Order}

lemma priceMatches_congr (h : SameTerms o p) (r : Order) : priceMatches p r = priceMatches o r := by
  unfold priceMatches
  rw [h.orderType, h.side, h.price]

lemma touches_of_sameTerms (h : SameTerms o p) (rem : Decimal) (book : List Order) :
    touches p rem book = touches o rem book := by
  induction book generalizing rem with
  | nil => rfl
  | cons r rest ih =>
    have hprev : Prevented p r ↔ Prevented o r := by rw [Prevented, Prevented, h.userId, h.stpMode]
    simp only [touches, priceMatches_congr h, hprev, ih, h.stpMode]

lemma touches_cons_fill (hstp : o.stpMode = .none) (hrem : rem ≠ 0) (hmatch : priceMatches o r) :
    touches o rem (r :: rest) = .fill r (min rem r.remaining) :: touches o (rem - min rem r.remaining) rest := by
  rw [touches, if_neg hrem, if_neg (not_not.mpr hmatch), if_neg (fun h => h.2 hstp)]

lemma touches_cons_mismatch (hmatch : ¬ priceMatches o r) : touches o rem (r :: rest) = [] := by
  rw [touches]
  split_ifs <;> rfl

/-- The book that an order of quantity `rem` leaves. -/
def leftover (o : Order) (rem : Decimal) (book : List Order) : List Order :=
  applyUpdates book ((touches o rem book).map Touch.after)

lemma leftover_of_untouched (h : touches o rem book = []) : leftover o rem book = book := by
  rw [leftover, h, List.map_nil, applyUpdates_nil]

lemma leftover_cons_fill (hstp : o.stpMode = .none) (hrem : rem ≠ 0) (hmatch : priceMatches o r) :
    leftover o rem (r :: rest) =
      if r.remaining - min rem r.remaining = 0 then leftover o (rem - min rem r.remaining) rest
      else afterFill r (min rem r.remaining) :: leftover o (rem - min rem r.remaining) rest := by
  rw [leftover, touches_cons_fill hstp hrem hmatch]
  simp only [List.map_cons, Touch.after, applyUpdates]
  have hid : r.id = (afterFill r (min rem r.remaining)).id := rfl
  rw [if_pos hid]
  by_cases h : r.remaining - min rem r.remaining = 0
  · have hstatus : (afterFill r (min rem r.remaining)).status = .filled := if_pos h
    rw [if_pos h, if_pos hstatus]
    rfl
  · have hstatus : (afterFill r (min rem r.remaining)).status ≠ .filled := by
      simp [afterFill, h]
    rw [if_neg h, if_neg hstatus]
    rfl

/-- The touched quantities, weighed by the entry. -/
def weighed (f : Order → Decimal) (vs : List Touch) : Decimal := (vs.map (fun v => f v.resting * v.qty)).sum

lemma weighed_cons (f : Order → Decimal) (v : Touch) (vs : List Touch) :
    weighed f (v :: vs) = f v.resting * v.qty + weighed f vs := rfl

lemma min_add_split (r : Order) (q₁ q₂ : Decimal) : min (q₁ + q₂) r.remaining = q₁ + min q₂ (r.remaining - q₁) := by
  rw [← min_add_add_left, add_sub_cancel]

lemma afterFill_afterFill (r : Order) (q₁ q₂ : Decimal) : afterFill (afterFill r q₁) q₂ = afterFill r (q₁ + q₂) := by
  simp only [afterFill, sub_sub]

lemma touches_split (hstp : o.stpMode = .none) {f : Order → Decimal} (hf : ∀ r q, f (afterFill r q) = f r)
    (hpos : ∀ r ∈ book, 0 < r.remaining) (h₁ : 0 ≤ q₁) (h₂ : 0 ≤ q₂) :
    weighed f (touches o (q₁ + q₂) book) =
      weighed f (touches o q₁ book) + weighed f (touches o q₂ (leftover o q₁ book)) ∧
    leftover o (q₁ + q₂) book = leftover o q₂ (leftover o q₁ book) := by
  induction book generalizing q₁ with
  | nil => exact ⟨(add_zero _).symm,rfl⟩
  | cons r rest ih =>
    by_cases h0 : q₁ = 0
    · subst h0
      have hnone : touches o 0 (r :: rest) = [] := touches_zero o _
      rw [leftover_of_untouched hnone, hnone, zero_add]
      exact ⟨(zero_add _).symm,rfl⟩
    by_cases hmatch : priceMatches o r
    swap
    · rw [leftover_of_untouched (touches_cons_mismatch hmatch), leftover_of_untouched (touches_cons_mismatch hmatch),
        leftover_of_untouched (touches_cons_mismatch hmatch)]
      simp only [touches_cons_mismatch hmatch]
      exact ⟨(add_zero _).symm,trivial⟩
    simp only [List.mem_cons, forall_eq_or_imp] at hpos
    have hne : q₁ + q₂ ≠ 0 := by
      have hlt : 0 < q₁ := lt_of_le_of_ne h₁ (Ne.symm h0)
      positivity
    rw [leftover_cons_fill hstp h0 hmatch, leftover_cons_fill hstp hne hmatch, touches_cons_fill hstp h0 hmatch,
      touches_cons_fill hstp hne hmatch]
    simp only [weighed_cons]
    rcases le_or_gt r.remaining q₁ with hle | hlt
    · -- the entry is used up by the first part
      obtain ⟨hw,hl⟩ := @ih (q₁ - r.remaining) hpos.2 (sub_nonneg.mpr hle)
      have hrem : q₁ + q₂ - r.remaining = q₁ - r.remaining + q₂ := by ring
      rw [min_eq_right hle, min_eq_right (hle.trans (le_add_of_nonneg_right h₂)), if_pos (sub_self _), if_pos (sub_self _), hrem,
        hw, hl]
      refine ⟨?_,rfl⟩
      simp only [Touch.resting, Touch.qty]
      ring
    · -- the split falls inside the entry
      have hleft : ¬ r.remaining - q₁ = 0 := sub_ne_zero.mpr hlt.ne'
      rw [min_eq_left hlt.le, if_neg hleft, sub_self, leftover_of_untouched (touches_zero o rest), touches_zero]
      have hmatch' : priceMatches o (afterFill r q₁) := hmatch
      by_cases h0' : q₂ = 0
      · subst h0'
        rw [leftover_of_untouched (touches_zero o _), touches_zero, add_zero, min_eq_left hlt.le, sub_self,
          leftover_of_untouched (touches_zero o rest), touches_zero, if_neg hleft]
        exact ⟨(add_zero _).symm,rfl⟩
      · have hrem : (afterFill r q₁).remaining = r.remaining - q₁ := rfl
        rw [touches_cons_fill hstp h0' hmatch', leftover_cons_fill hstp h0' hmatch', min_add_split, afterFill_afterFill, hrem,
          sub_sub, add_sub_add_left_eq_sub, weighed_cons]
        refine ⟨?_,rfl⟩
        simp only [Touch.resting, Touch.qty, hf, weighed, List.map_nil, List.sum_nil]
        ring

end Touched

/-- Weight one for an entry with the id that trades at the price. -/
def atPrice (o : Order) (id : Uuid) (price : Decimal) (r : Order) : Decimal :=
  if r.id = id ∧ r.price.getD (o.price.getD 0) = price then 1 else 0

lemma weighed_fills (f : Order → Decimal) (vs : List Touch) : weighed f (vs.filter Touch.isFill) = weighed f vs := by
  induction vs with
  | nil => rfl
  | cons v vs ih =>
    cases v with
    | fill r q => rw [List.filter_cons_of_pos rfl, weighed_cons, weighed_cons, ih]
    | cancel r => rw [List.filter_cons_of_neg (by simp [Touch.isFill]), weighed_cons, ih, Touch.qty, mul_zero, zero_add]

lemma weighed_one (vs : List Touch) : weighed (fun _ => 1) vs = (vs.map Touch.qty).sum := by
  simp [weighed]

lemma Walked.tradedWith {s : MatchResult} {book : List Order} {w : MatchResult × List Order} {vs : List Touch}
    (h : Walked s book w vs) (hs : s.trades = []) (id : Uuid) (price : Decimal) :
    tradedWith s.incoming.side id price w.1.trades = weighed (atPrice s.incoming id price) vs := by
  obtain ⟨ts,hts,hof⟩ := h.trades
  rw [hts, hs, List.nil_append, ← weighed_fills]
  refine congrArg List.sum (map_eq_of_forall₂ hof (fun t v htrade => ?_))
  obtain ⟨tid,rfl⟩ := htrade
  have hcp : counterparty s.incoming.side (makeTrade tid s.incoming v.resting
      (v.resting.price.getD (s.incoming.price.getD 0)) v.qty) = v.resting.id := by
    cases hside : s.incoming.side <;> simp [counterparty, makeTrade, hside]
  rw [hcp, atPrice, ite_mul, one_mul, zero_mul]
  congr

lemma matchOrder_ioc (newV4 : ℕ → Uuid) {o : Order} (hioc : o.tif = .ioc) (book : List Order) :
    let r := (matchOrder newV4 o book).1
    r.bookUpdates = (touches o o.remaining book).map Touch.after ∧
      r.incoming.remaining = o.remaining - weighed (fun _ => 1) (touches o o.remaining book) ∧
      ∀ id price, tradedWith o.side id price r.trades = weighed (atPrice o id price) (touches o o.remaining book) := by
  have hfok : fokRejects o book = false := by simp [fokRejects, hioc]
  have hwalk := walkBook_walked newV4 book ⟨[],[],o,[]⟩
  rw [matchOrder_of_not_rejected newV4 hfok]
  refine ⟨hwalk.updates,?_,hwalk.tradedWith rfl⟩
  rw [weighed_one, applyTif_remaining]
  exact hwalk.remaining

/-- Splitting an immediate-or-cancel order changes neither its trades nor the book it leaves. -/
theorem matchOrder_split (newV4 newV4₁ newV4₂ : ℕ → Uuid) (o o₁ o₂ : Order) (book : List Order)
    (hbook : ∀ r ∈ book, 0 < r.remaining) (hioc : o.tif = .ioc) (hstp : o.stpMode = .none)
    (h₁ : SameTerms o o₁) (h₂ : SameTerms o o₂) (hpos₁ : 0 < o₁.remaining) (hpos₂ : 0 < o₂.remaining)
    (hsum : o.remaining = o₁.remaining + o₂.remaining) :
    let r := (matchOrder newV4 o book).1
    let r₁ := (matchOrder newV4₁ o₁ book).1
    let book₁ := applyUpdates book r₁.bookUpdates
    let r₂ := (matchOrder newV4₂ o₂ book₁).1
    (∀ id price, tradedWith o.side id price r.trades =
      tradedWith o.side id price r₁.trades + tradedWith o.side id price r₂.trades) ∧
    applyUpdates book r.bookUpdates = applyUpdates book₁ r₂.bookUpdates ∧
    r.incoming.remaining = r₁.incoming.remaining + r₂.incoming.remaining := by
  intro r r₁ book₁ r₂
  obtain ⟨hup,hrem,htr⟩ := matchOrder_ioc newV4 hioc book
  obtain ⟨hup₁,hrem₁,htr₁⟩ := matchOrder_ioc newV4₁ (h₁.tif.trans hioc) book
  obtain ⟨hup₂,hrem₂,htr₂⟩ := matchOrder_ioc newV4₂ (h₂.tif.trans hioc) book₁
  rw [touches_of_sameTerms h₁] at hup₁ hrem₁ htr₁
  rw [touches_of_sameTerms h₂] at hup₂ hrem₂ htr₂
  have hbook₁ : book₁ = leftover o o₁.remaining book := congrArg (applyUpdates book) hup₁
  rw [hsum] at hup hrem htr
  refine ⟨fun id price => ?_,?_,?_⟩
  · have hprice : ∀ p : Order, SameTerms o p → atPrice p id price = atPrice o id price :=
      fun p h => funext (fun x => by rw [atPrice, atPrice, h.price])
    have h := (touches_split hstp (f := atPrice o id price) (fun _ _ => rfl) hbook hpos₁.le hpos₂.le).1
    rw [← hbook₁] at h
    rw [htr, h, ← h₁.side, htr₁, hprice o₁ h₁, h₁.side, ← h₂.side, htr₂, hprice o₂ h₂]
  · have h := (touches_split hstp (f := fun _ => 1) (fun _ _ => rfl) hbook hpos₁.le hpos₂.le).2
    rw [← hbook₁] at h
    rw [hup, hup₂]
    exact h
  · have h := (touches_split hstp (f := fun _ => 1) (fun _ _ => rfl) hbook hpos₁.le hpos₂.le).1
    rw [← hbook₁] at h
    rw [hrem, h, hrem₁, hrem₂]
    ring

/-- Bob buys five at once, or two and then three; the split falls inside the first offer. -/
theorem matchOrder_split_bob :
    let bid (id : Uuid) (qtyI : ℤ) := { Order.gtcLimit id "bob" "BTC-USDT" .buy 300 qtyI with tif := .ioc }
    let offers := [Order.gtcLimit 1 "alice" "BTC-USDT" .sell 100 3,Order.gtcLimit 2 "carol" "BTC-USDT" .sell 200 4]
    let r₁ := (matchOrder (fun _ => 0) (bid 8 2) offers).1
    let r₂ := (matchOrder (fun _ => 0) (bid 9 3) (applyUpdates offers r₁.bookUpdates)).1
    (∀ id price, tradedWith .buy id price (matchOrder (fun _ => 0) (bid 7 5) offers).1.trades =
      tradedWith .buy id price r₁.trades + tradedWith .buy id price r₂.trades) ∧
    r₁.trades.map Trade.quantity = [i64ToDecimal 2] ∧
    r₂.trades.map Trade.quantity = [i64ToDecimal 1,i64ToDecimal 2] := by
  intro bid offers r₁ r₂
  have h := matchOrder_split (fun _ => 0) (fun _ => 0) (fun _ => 0) (bid 7 5) (bid 8 2) (bid 9 3) offers (by decide +kernel)
    rfl rfl ⟨rfl,rfl,rfl,rfl,rfl,rfl⟩ ⟨rfl,rfl,rfl,rfl,rfl,rfl⟩ (by decide +kernel) (by decide +kernel) (by decide +kernel)
  exact ⟨h.1,by decide +kernel,by decide +kernel⟩

end MatchingEngine.Engine

import MatchingEngine.Engine

/-! The reference engine as a greedy matcher. The walk touches a prefix of the book: each entry
of it is filled or cancelled by self-trade prevention, and all but the last are used up. What
is touched is a function of the book alone, from which the result of the call is read off. -/
namespace MatchingEngine.Engine

/-- What the walk does to an entry. -/
inductive Touch
  | fill (resting : Order) (qty : Decimal)
  | cancel (resting : Order)
  deriving DecidableEq

namespace Touch

/-- The entry before the call. -/
def resting : Touch → Order
  | .fill r _ => r
  | .cancel r => r

/-- The entry after the call. -/
def after : Touch → Order
  | .fill r q => afterFill r q
  | .cancel r => { r with status := .cancelled }

def qty : Touch → Decimal
  | .fill _ q => q
  | .cancel _ => 0

def isFill : Touch → Bool
  | .fill _ _ => true
  | .cancel _ => false

end Touch

/-- Self-trade prevention acts between the incoming order and the entry. -/
def Prevented (incoming resting : Order) : Prop := incoming.userId = resting.userId ∧ incoming.stpMode ≠ .none

instance (incoming resting : Order) : Decidable (Prevented incoming resting) := inferInstanceAs (Decidable (_ ∧ _))

/-- The entries the walk touches when `rem` is left of the incoming order. -/
def touches (incoming : Order) : Decimal → List Order → List Touch
  | _, [] => []
  | rem, r :: rest =>
    if rem = 0 then []
    else if ¬ priceMatches incoming r then []
    else if Prevented incoming r then
      match incoming.stpMode with
      | .cancelMaker => .cancel r :: touches incoming rem rest
      | .cancelBoth => [.cancel r]
      | _ => []
    else .fill r (min rem r.remaining) :: touches incoming (rem - min rem r.remaining) rest

/-- Remainder and status of the incoming order do not matter to what is touched. -/
lemma touches_congr (incoming : Order) (remaining : Decimal) (status : OrderStatus) (rem : Decimal) (book : List Order) :
    touches { incoming with remaining := remaining, status := status } rem book = touches incoming rem book := by
  induction book generalizing rem with
  | nil => rfl
  | cons r rest ih =>
    have hmatch : priceMatches { incoming with remaining := remaining, status := status } r = priceMatches incoming r := rfl
    have hprev : Prevented { incoming with remaining := remaining, status := status } r ↔ Prevented incoming r := Iff.rfl
    simp only [touches, hmatch, hprev, ih]

/-- The trade of a touched entry. -/
def TradeOf (incoming : Order) (t : Trade) (v : Touch) : Prop :=
  ∃ id, t = makeTrade id incoming v.resting (v.resting.price.getD (incoming.price.getD 0)) v.qty

/-- The walk from `s` over the book in terms of what it touches. -/
structure Walked (s : MatchResult) (book : List Order) (w : MatchResult × List Order) (vs : List Touch) : Prop where
  entries : ∃ back, book = vs.map Touch.resting ++ back ∧ w.2 = vs.map Touch.after ++ back ∧
    (w.1.incoming.remaining ≠ 0 → (s.incoming.stpMode ≠ .cancelTaker ∧ s.incoming.stpMode ≠ .cancelBoth ∨
      w.1.stpCancelled = s.stpCancelled) → ∀ b ∈ back.head?, ¬ priceMatches s.incoming b)
  updates : w.1.bookUpdates = s.bookUpdates ++ vs.map Touch.after
  trades : ∃ ts, w.1.trades = s.trades ++ ts ∧ List.Forall₂ (TradeOf s.incoming) ts (vs.filter Touch.isFill)
  remaining : w.1.incoming.remaining = s.incoming.remaining - (vs.map Touch.qty).sum
  filled : w.1.incoming.remaining = 0 →
    w.1.incoming.status = if s.incoming.remaining = 0 then s.incoming.status else .filled

section Walk
variable {s s' : MatchResult} {book rest : List Order} {r : Order} {w : MatchResult × List Order} {vs : List Touch}

lemma Walked.nil (hupdates : s'.bookUpdates = s.bookUpdates) (htrades : s'.trades = s.trades)
    (hrem : s'.incoming.remaining = s.incoming.remaining)
    (hstatus : s.incoming.remaining = 0 → s'.incoming.status = s.incoming.status)
    (hend : s.incoming.remaining ≠ 0 → (s.incoming.stpMode ≠ .cancelTaker ∧ s.incoming.stpMode ≠ .cancelBoth ∨
      s'.stpCancelled = s.stpCancelled) → ∀ b ∈ book.head?, ¬ priceMatches s.incoming b) :
    Walked s book (s',book) [] := by
  refine ⟨⟨book,rfl,rfl,?_⟩,?_,⟨[],?_,.nil⟩,?_,fun h => ?_⟩
  · simpa only [hrem] using hend
  · simpa using hupdates
  · simpa using htrades
  · simpa using hrem
  · rw [hrem] at h
    rw [if_pos h, hstatus h]

lemma Walked.fill {newV4 : ℕ → Uuid} (hne : s.incoming.remaining ≠ 0) (h : Walked (fill newV4 s r) rest w vs) :
    Walked s (r :: rest) (w.1,afterFill r (min s.incoming.remaining r.remaining) :: w.2)
      (.fill r (min s.incoming.remaining r.remaining) :: vs) := by
  set q := min s.incoming.remaining r.remaining with hq
  obtain ⟨back,hbook,hslice,hend⟩ := h.entries
  obtain ⟨ts,hts,htrade⟩ := h.trades
  have hrem : (Engine.fill newV4 s r).incoming.remaining = s.incoming.remaining - q := rfl
  refine ⟨⟨back,by simp [hbook, Touch.resting],by simp [hslice, Touch.after],hend⟩,?_,?_,?_,fun h0 => ?_⟩
  · rw [h.updates]
    simp [Engine.fill, Touch.after, hq]
  · refine ⟨makeTrade (newV4 s.trades.length) s.incoming r (r.price.getD (s.incoming.price.getD 0)) q :: ts,?_,?_⟩
    · rw [hts]
      simp [Engine.fill, hq]
    · rw [List.filter_cons_of_pos rfl]
      exact .cons ⟨_,rfl⟩ htrade
  · rw [h.remaining, hrem]
    simp only [List.map_cons, List.sum_cons, Touch.qty]
    ring
  · -- filled by this entry already, or by one after it
    rw [h.filled h0, if_neg hne]
    split_ifs with hzero
    · exact if_pos hzero
    · rfl

lemma Walked.cancel (h : Walked s' rest w vs) (hs : s'.incoming = s.incoming ∧ s'.trades = s.trades ∧
      s'.bookUpdates = s.bookUpdates ++ [{ r with status := .cancelled }])
    (hmode : s.incoming.stpMode ≠ .cancelTaker ∧ s.incoming.stpMode ≠ .cancelBoth) :
    Walked s (r :: rest) (w.1,{ r with status := .cancelled } :: w.2) (.cancel r :: vs) := by
  obtain ⟨hinc,htrades,hupdates⟩ := hs
  obtain ⟨back,hbook,hslice,hend⟩ := h.entries
  obtain ⟨ts,hts,htrade⟩ := h.trades
  rw [hinc] at hend htrade
  refine ⟨⟨back,by simp [hbook, Touch.resting],by simp [hslice, Touch.after],fun hne _ => hend hne (.inl hmode)⟩,?_,?_,?_,?_⟩
  · rw [h.updates, hupdates]
    simp [Touch.after]
  · refine ⟨ts,by rw [hts, htrades],?_⟩
    rwa [List.filter_cons_of_neg (by simp [Touch.isFill])]
  · rw [h.remaining, hinc]
    simp [Touch.qty]
  · rw [← hinc]
    exact h.filled

end Walk

/-- One walk of the engine. -/
theorem walkBook_walked (newV4 : ℕ → Uuid) (book : List Order) (s : MatchResult) :
    Walked s book (walkBook newV4 book s) (touches s.incoming s.incoming.remaining book) := by
  induction book generalizing s with
  | nil => exact Walked.nil rfl rfl rfl (fun _ => rfl) (by simp)
  | cons r rest ih =>
    by_cases hrem : s.incoming.remaining = 0
    · rw [walkBook, touches, if_pos hrem, if_pos hrem]
      exact Walked.nil rfl rfl rfl (fun _ => rfl) (fun hne => absurd hrem hne)
    by_cases hmatch : priceMatches s.incoming r
    swap
    · rw [walkBook, touches, if_neg hrem, if_neg hrem, if_pos hmatch, if_pos hmatch]
      refine Walked.nil rfl rfl rfl (fun _ => rfl) (fun _ _ b hb => ?_)
      cases hb
      exact hmatch
    have hfill := (ih (Engine.fill newV4 s r)).fill hrem
    have htouches : touches (Engine.fill newV4 s r).incoming (Engine.fill newV4 s r).incoming.remaining rest =
        touches s.incoming (s.incoming.remaining - min s.incoming.remaining r.remaining) rest := touches_congr _ _ _ _ _
    rw [htouches] at hfill
    rw [walkBook, touches, if_neg hrem, if_neg hrem, if_neg (not_not.mpr hmatch), if_neg (not_not.mpr hmatch)]
    by_cases hprev : Prevented s.incoming r
    · rw [if_pos hprev]
      have hcond : s.incoming.userId = r.userId ∧ s.incoming.stpMode ≠ .none := hprev
      simp only [if_pos hcond]
      cases hmode : s.incoming.stpMode with
      | none => exact absurd hmode hprev.2
      | cancelTaker =>
        refine Walked.nil rfl rfl rfl (fun h => absurd h hrem) (fun _ hstop => ?_)
        simp [hmode] at hstop
      | cancelMaker =>
        have hgo : s.incoming.stpMode ≠ .cancelTaker ∧ s.incoming.stpMode ≠ .cancelBoth := by simp [hmode]
        have htail := ih { s with
          stpCancelled := s.stpCancelled ++ [{ r with status := .cancelled }]
          bookUpdates := s.bookUpdates ++ [{ r with status := .cancelled }] }
        exact htail.cancel ⟨rfl,rfl,rfl⟩ hgo
      | cancelBoth =>
        refine ⟨⟨rest,rfl,rfl,fun _ hstop => ?_⟩,rfl,⟨[],by simp,.nil⟩,by simp [Touch.qty],fun h => absurd h hrem⟩
        simp [hmode] at hstop
    · rw [if_neg hprev]
      have hcond : ¬ (s.incoming.userId = r.userId ∧ s.incoming.stpMode ≠ .none) := hprev
      simp only [if_neg hcond]
      exact hfill

/-- What the walk does to an entry is allowed by price and self-trade prevention. -/
def Touch.Valid (incoming : Order) (v : Touch) : Prop :=
  priceMatches incoming v.resting ∧
    match v with
    | .fill r q => ¬ Prevented incoming r ∧ 0 < q ∧ q ≤ r.remaining
    | .cancel r => Prevented incoming r

/-- The entry is used up: nothing of it is left, or self-trade prevention cancelled it. -/
def Touch.Done : Touch → Prop
  | .fill r q => r.remaining = q
  | .cancel _ => True

section Touches
variable {incoming : Order} {rem : Decimal} {book : List Order}

lemma touches_valid (hrem : 0 ≤ rem) (hpos : ∀ o ∈ book, 0 < o.remaining) :
    ∀ v ∈ touches incoming rem book, v.Valid incoming := by
  fun_induction touches incoming rem book with
  | case1 => simp
  | case2 => simp
  | case3 => simp
  | case4 rem r rest h0 hmatch hprev hmode ih =>
    simp only [List.mem_cons, forall_eq_or_imp] at hpos ⊢
    exact ⟨⟨not_not.mp hmatch,hprev⟩,ih hrem hpos.2⟩
  | case5 rem r rest h0 hmatch hprev hmode =>
    simp only [List.mem_singleton, forall_eq]
    exact ⟨not_not.mp hmatch,hprev⟩
  | case6 => simp
  | case7 rem r rest h0 hmatch hprev ih =>
    simp only [List.mem_cons, forall_eq_or_imp] at hpos ⊢
    have hq : 0 < min rem r.remaining := lt_min (lt_of_le_of_ne hrem (Ne.symm h0)) hpos.1
    exact ⟨⟨not_not.mp hmatch,hprev,hq,min_le_right _ _⟩,ih (sub_nonneg.mpr (min_le_left _ _)) hpos.2⟩

lemma touches_zero (incoming : Order) (book : List Order) : touches incoming 0 book = [] := by
  cases book with
  | nil => rfl
  | cons r rest => exact if_pos rfl

lemma done_cons {v : Touch} {vs : List Touch} (hv : vs ≠ [] → v.Done) (hvs : ∀ u ∈ vs.dropLast, u.Done) :
    ∀ u ∈ (v :: vs).dropLast, u.Done := by
  cases vs with
  | nil => simp
  | cons u us =>
    rw [List.dropLast_cons_cons]
    simp only [List.mem_cons, forall_eq_or_imp]
    exact ⟨hv (by simp),hvs⟩

lemma touches_done (incoming : Order) (rem : Decimal) (book : List Order) :
    ∀ v ∈ (touches incoming rem book).dropLast, v.Done := by
  fun_induction touches incoming rem book with
  | case1 => simp
  | case2 => simp
  | case3 => simp
  | case4 rem r rest h0 hmatch hprev hmode ih => exact done_cons (fun _ => trivial) ih
  | case5 => simp
  | case6 => simp
  | case7 rem r rest h0 hmatch hprev ih =>
    refine done_cons (fun hne => ?_) ih
    rcases min_choice rem r.remaining with hmin | hmin
    · rw [hmin, sub_self, touches_zero] at hne
      contradiction
    · exact hmin.symm

lemma touches_le (hrem : 0 ≤ rem) : ((touches incoming rem book).map Touch.qty).sum ≤ rem := by
  fun_induction touches incoming rem book with
  | case1 => simpa using hrem
  | case2 => simp
  | case3 => simpa using hrem
  | case4 rem r rest h0 hmatch hprev hmode ih => simpa [Touch.qty] using ih hrem
  | case5 => simpa [Touch.qty] using hrem
  | case6 => simpa using hrem
  | case7 rem r rest h0 hmatch hprev ih =>
    have htail := ih (sub_nonneg.mpr (min_le_left _ _))
    simp only [List.map_cons, List.sum_cons, Touch.qty]
    linarith

end Touches

/-- For an order of the side, the one entry is priced at least as well as the other. -/
def NoWorse (side : Side) (o o' : Order) : Prop :=
  match side with
  | .buy => o.price.getD 0 ≤ o'.price.getD 0
  | .sell => o'.price.getD 0 ≤ o.price.getD 0

instance (side : Side) (o o' : Order) : Decidable (NoWorse side o o') :=
  match side with
  | .buy => inferInstanceAs (Decidable (_ ≤ _))
  | .sell => inferInstanceAs (Decidable (_ ≤ _))

/-- A book for incoming orders of the side: priced entries with something left, best price first. -/
structure BookFor (side : Side) (book : List Order) : Prop where
  priced : ∀ o ∈ book, ∃ p, o.price = some p
  positive : ∀ o ∈ book, 0 < o.remaining
  sorted : book.Pairwise (NoWorse side)

/-- The price keeps the limit of the incoming order; a market order has none. -/
def WithinLimit (incoming : Order) (price : Decimal) : Prop :=
  incoming.orderType = .market ∨
    ∃ limit, incoming.price = some limit ∧
      match incoming.side with
      | .buy => price ≤ limit
      | .sell => limit ≤ price

lemma priceMatches_iff_withinLimit {incoming resting : Order} {p : Decimal} (hp : resting.price = some p) :
    priceMatches incoming resting ↔ WithinLimit incoming p := by
  unfold priceMatches WithinLimit
  by_cases hm : incoming.orderType = .market
  · simp [hm]
  · cases hs : incoming.side <;> cases hi : incoming.price <;> simp [hm, hp]

lemma priceMatches_of_noWorse {incoming o o' : Order} {p p' : Decimal} (hp : o.price = some p) (hp' : o'.price = some p')
    (h : NoWorse incoming.side o o') (hmatch : priceMatches incoming o') : priceMatches incoming o := by
  rw [priceMatches_iff_withinLimit hp'] at hmatch
  rw [priceMatches_iff_withinLimit hp]
  rcases hmatch with hm | ⟨limit,hlimit,hle⟩
  · exact .inl hm
  · refine .inr ⟨limit,hlimit,?_⟩
    simp only [NoWorse, hp, hp', Option.getD_some] at h
    cases hs : incoming.side with
    | buy =>
      rw [hs] at h hle
      exact le_trans h hle
    | sell =>
      rw [hs] at h hle
      exact le_trans hle h

lemma BookFor.incompatible {incoming : Order} {book : List Order} (h : BookFor incoming.side book)
    (hhead : ∀ b ∈ book.head?, ¬ priceMatches incoming b) : ∀ o ∈ book, ¬ priceMatches incoming o := by
  cases book with
  | nil => simp
  | cons b rest =>
    intro o ho hmatch
    obtain ⟨p,hp⟩ := h.priced b (by simp)
    obtain ⟨p',hp'⟩ := h.priced o ho
    refine hhead b rfl ?_
    rcases List.mem_cons.mp ho with rfl | hrest
    · exact hmatch
    · exact priceMatches_of_noWorse hp hp' ((List.pairwise_cons.mp h.sorted).1 o hrest) hmatch

lemma BookFor.append {side : Side} {front back : List Order} (h : BookFor side (front ++ back)) :
    BookFor side front ∧ BookFor side back := by
  obtain ⟨hf,hb,_⟩ := List.pairwise_append.mp h.sorted
  exact ⟨⟨fun o ho => h.priced o (by simp [ho]),fun o ho => h.positive o (by simp [ho]),hf⟩,
    ⟨fun o ho => h.priced o (by simp [ho]),fun o ho => h.positive o (by simp [ho]),hb⟩⟩

/-- The resting order of a trade. -/
def counterparty (side : Side) (t : Trade) : Uuid :=
  match side with
  | .buy => t.sellOrderId
  | .sell => t.buyOrderId

/-- The trade is with the entry, at its price and for what the entry lost. -/
def TradeWith (incoming : Order) (t : Trade) (v : Touch) : Prop :=
  counterparty incoming.side t = v.resting.id ∧ v.resting.price = some t.price ∧ WithinLimit incoming t.price ∧
    t.quantity = v.resting.remaining - v.after.remaining

/-- The entry is fully filled or cancelled by self-trade prevention. -/
def UsedUp (incoming : Order) (v : Touch) : Prop :=
  v.after.remaining = 0 ∧ v.after.status = .filled ∨ Prevented incoming v.resting ∧ v.after.status = .cancelled

/-- Self-trade prevention cancelled the incoming order. -/
def Stopped (incoming : Order) (r : MatchResult) : Prop :=
  (incoming.stpMode = .cancelTaker ∨ incoming.stpMode = .cancelBoth) ∧ r.stpCancelled ≠ []

/-- The greedy match by price and time. -/
structure GreedyMatch (incoming : Order) (book : List Order) (r : MatchResult) (book' : List Order) : Prop where
  positive : ∀ t ∈ r.trades, 0 < t.quantity
  accounted : (r.trades.map Trade.quantity).sum = incoming.remaining - r.incoming.remaining
  nonneg : 0 ≤ r.incoming.remaining
  distinct : (r.trades.map (counterparty incoming.side)).Nodup
  touched : ∃ (vs : List Touch) (back : List Order),
    book = vs.map Touch.resting ++ back ∧ book' = vs.map Touch.after ++ back ∧ r.bookUpdates = vs.map Touch.after ∧
      List.Forall₂ (TradeWith incoming) r.trades (vs.filter Touch.isFill) ∧ (∀ v ∈ vs.dropLast, UsedUp incoming v) ∧
      (0 < r.incoming.remaining → ¬ Stopped incoming r → ∀ o ∈ back, ¬ priceMatches incoming o)

lemma map_eq_of_forall₂ {α β γ : Type*} {R : α → β → Prop} {f : α → γ} {g : β → γ} {xs : List α} {ys : List β}
    (h : List.Forall₂ R xs ys) (hR : ∀ x y, R x y → f x = g y) : xs.map f = ys.map g := by
  rw [← List.forall₂_eq_eq_eq, List.forall₂_map_left_iff, List.forall₂_map_right_iff]
  exact h.imp hR

lemma sum_qty_fills (vs : List Touch) : ((vs.filter Touch.isFill).map Touch.qty).sum = (vs.map Touch.qty).sum := by
  induction vs with
  | nil => rfl
  | cons v vs ih =>
    cases v with
    | fill r q => rw [List.filter_cons_of_pos rfl, List.map_cons, List.map_cons, List.sum_cons, List.sum_cons, ih]
    | cancel r => simp [Touch.isFill, Touch.qty, ih]

lemma Walked.quantities {s : MatchResult} {book : List Order} {w : MatchResult × List Order} {vs : List Touch}
    (h : Walked s book w vs) (hs : s.trades = []) :
    w.1.trades.map Trade.quantity = (vs.filter Touch.isFill).map Touch.qty := by
  obtain ⟨ts,hts,hof⟩ := h.trades
  rw [hts, hs, List.nil_append]
  refine map_eq_of_forall₂ hof (fun t v htrade => ?_)
  obtain ⟨id,rfl⟩ := htrade
  rfl

@[simp] lemma applyTif_remaining (tif : TimeInForce) (trades : List Trade) (incoming : Order) :
    (applyTif tif trades incoming).remaining = incoming.remaining := by
  unfold applyTif
  cases tif <;> split_ifs <;> rfl

lemma TradeOf.tradeWith {incoming : Order} {t : Trade} {v : Touch} (h : TradeOf incoming t v)
    (hv : v.Valid incoming) (hfill : v.isFill) (hpriced : ∃ p, v.resting.price = some p) : TradeWith incoming t v := by
  obtain ⟨id,rfl⟩ := h
  obtain ⟨p,hp⟩ := hpriced
  refine ⟨?_,by simp [makeTrade, hp],?_,?_⟩
  · cases hs : incoming.side <;> simp [counterparty, makeTrade, hs]
  · simpa only [makeTrade, hp, Option.getD_some] using (priceMatches_iff_withinLimit hp).mp hv.1
  · cases v with
    | fill r q => simp [makeTrade, Touch.qty, Touch.resting, Touch.after, afterFill]
    | cancel r => cases hfill

lemma tradesWith {incoming : Order} {ts : List Trade} {fills : List Touch}
    (h : List.Forall₂ (TradeOf incoming) ts fills)
    (hfills : ∀ v ∈ fills, v.Valid incoming ∧ v.isFill ∧ ∃ p, v.resting.price = some p) :
    List.Forall₂ (TradeWith incoming) ts fills := by
  induction h with
  | nil => exact .nil
  | cons hof _ ih =>
    simp only [List.mem_cons, forall_eq_or_imp] at hfills
    obtain ⟨⟨hv,hfill,hpriced⟩,hrest⟩ := hfills
    exact .cons (hof.tradeWith hv hfill hpriced) (ih hrest)

lemma Touch.Done.usedUp {incoming : Order} {v : Touch} (h : v.Done) (hv : v.Valid incoming) : UsedUp incoming v := by
  cases v with
  | fill r q =>
    have hzero : r.remaining - q = 0 := sub_eq_zero.mpr h
    exact .inl ⟨hzero,if_pos hzero⟩
  | cancel r => exact .inr ⟨hv.2,rfl⟩

lemma matchOrder_of_not_rejected (newV4 : ℕ → Uuid) {incoming : Order} {book : List Order}
    (h : fokRejects incoming book = false) :
    matchOrder newV4 incoming book =
      let w := walkBook newV4 book ⟨[],[],incoming,[]⟩
      ({ w.1 with incoming := applyTif (effectiveTif incoming) w.1.trades w.1.incoming },w.2) := by
  simp [matchOrder, h]

/-- The reference engine is the greedy matcher. -/
theorem matchOrder_greedy (newV4 : ℕ → Uuid) (incoming : Order) (book : List Order) (hrem : 0 < incoming.remaining)
    (hbook : BookFor incoming.side book) (hids : (book.map Order.id).Nodup) (hfok : fokRejects incoming book = false) :
    GreedyMatch incoming book (matchOrder newV4 incoming book).1 (matchOrder newV4 incoming book).2 := by
  have hwalk := walkBook_walked newV4 book ⟨[],[],incoming,[]⟩
  have hvalid : ∀ v ∈ touches incoming incoming.remaining book, v.Valid incoming := touches_valid hrem.le hbook.positive
  have hdone := touches_done incoming incoming.remaining book
  rw [matchOrder_of_not_rejected newV4 hfok]
  simp only [] at hwalk ⊢
  set w := walkBook newV4 book ⟨[],[],incoming,[]⟩
  set vs := touches incoming incoming.remaining book
  obtain ⟨back,hfront,hslice,hend⟩ := hwalk.entries
  obtain ⟨ts,hts,hof⟩ := hwalk.trades
  rw [List.nil_append] at hts
  obtain ⟨hpriced,hback⟩ : BookFor incoming.side (vs.map Touch.resting) ∧ BookFor incoming.side back :=
    BookFor.append (hfront ▸ hbook)
  have hfills : ∀ v ∈ vs.filter Touch.isFill, v.Valid incoming ∧ v.isFill ∧ ∃ p, v.resting.price = some p := by
    intro v hv
    obtain ⟨hmem,hfill⟩ := List.mem_filter.mp hv
    exact ⟨hvalid v hmem,hfill,hpriced.priced _ (List.mem_map_of_mem hmem)⟩
  have hwith : List.Forall₂ (TradeWith incoming) w.1.trades (vs.filter Touch.isFill) := hts ▸ tradesWith hof hfills
  have hqty := hwalk.quantities rfl
  have hids' : w.1.trades.map (counterparty incoming.side) = (vs.filter Touch.isFill).map (fun v => v.resting.id) :=
    map_eq_of_forall₂ hwith (fun t v h => h.1)
  refine ⟨fun t ht => ?_,?_,?_,?_,vs,back,hfront,hslice,hwalk.updates,hwith,fun v hv => ?_,fun hpos hgo => ?_⟩
  · have hmem : t.quantity ∈ (vs.filter Touch.isFill).map Touch.qty := hqty ▸ List.mem_map_of_mem ht
    obtain ⟨v,hv,hvq⟩ := List.mem_map.mp hmem
    obtain ⟨hval,hfill,_⟩ := hfills v hv
    cases v with
    | fill r q => exact hvq ▸ hval.2.2.1
    | cancel r => cases hfill
  · rw [hqty, sum_qty_fills, applyTif_remaining, hwalk.remaining]
    ring
  · rw [applyTif_remaining, hwalk.remaining]
    exact sub_nonneg.mpr (touches_le hrem.le)
  · rw [hids']
    refine List.Nodup.sublist ?_ hids
    rw [hfront, List.map_append, List.map_map]
    exact (List.filter_sublist.map _).trans (List.sublist_append_left _ _)
  · exact (hdone v hv).usedUp (hvalid v (List.mem_of_mem_dropLast hv))
  · rw [applyTif_remaining] at hpos
    refine hback.incompatible (hend hpos.ne' ?_)
    by_cases hmode : incoming.stpMode = .cancelTaker ∨ incoming.stpMode = .cancelBoth
    · exact .inr (not_not.mp fun hne => hgo ⟨hmode,hne⟩)
    · exact .inl (not_or.mp hmode)

/-- Bob takes all of the first offer and part of the second; the third is above his limit. -/
theorem matchOrder_greedy_bob :
    let bid := Order.gtcLimit 9 "bob" "BTC-USDT" .buy 300 5
    let offers := [Order.gtcLimit 1 "alice" "BTC-USDT" .sell 100 2,Order.gtcLimit 2 "carol" "BTC-USDT" .sell 200 4,
      Order.gtcLimit 3 "alice" "BTC-USDT" .sell 400 1]
    BookFor .buy offers ∧ (offers.map Order.id).Nodup ∧ fokRejects bid offers = false ∧
      GreedyMatch bid offers (matchOrder (fun _ => 0) bid offers).1 (matchOrder (fun _ => 0) bid offers).2 := by
  intro bid offers
  have hbook : BookFor .buy offers := ⟨by simp [offers, Order.gtcLimit],by decide +kernel,by decide +kernel⟩
  exact ⟨hbook,by decide +kernel,by decide +kernel,
    matchOrder_greedy _ bid offers (by decide +kernel) hbook (by decide +kernel) (by decide +kernel)⟩

end MatchingEngine.Engine

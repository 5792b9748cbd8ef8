import MatchingEngine.FillOrKill

/-! The report of the reference engine. The caller rebuilds the stored book from the updates and
the statuses alone, so both are characterised by the call's inputs: which entries the walk comes
to, where self-trade prevention stops it, and what is left of the order. -/
namespace MatchingEngine.Engine

/-- The walk comes to the entry: it and all in front of it are compatible, nothing in front of it
stops the walk, and what is in front of it does not cover the order. -/
def Met (incoming : Order) (rem : Decimal) (book : List Order) (o : Order) : Prop :=
  ∃ front back, book = front ++ o :: back ∧ (∀ x ∈ front ++ [o], priceMatches incoming x) ∧
    (∀ x ∈ front, Prevented incoming x → incoming.stpMode = .cancelMaker) ∧
    liquidity (front.filter (fun x => ¬ Prevented incoming x)) < rem

/-- Self-trade prevention ends the walk. -/
def stops (incoming : Order) : Decimal → List Order → Bool
  | _, [] => false
  | rem, r :: rest =>
    if rem = 0 then false
    else if ¬ priceMatches incoming r then false
    else if Prevented incoming r then incoming.stpMode ≠ .cancelMaker
    else stops incoming (rem - min rem r.remaining) rest

lemma stops_congr (incoming : Order) (remaining : Decimal) (status : OrderStatus) (rem : Decimal) (book : List Order) :
    stops { incoming with remaining := remaining, status := status } rem book = stops incoming rem book := by
  induction book generalizing rem with
  | nil => rfl
  | cons r rest ih =>
    have hmatch : priceMatches { incoming with remaining := remaining, status := status } r = priceMatches incoming r := rfl
    have hprev : Prevented { incoming with remaining := remaining, status := status } r ↔ Prevented incoming r := Iff.rfl
    simp only [stops, hmatch, hprev, ih]

lemma stops_cancelMaker {incoming : Order} (hmode : incoming.stpMode = .cancelMaker) (rem : Decimal) (book : List Order) :
    stops incoming rem book = false := by
  induction book generalizing rem with
  | nil => rfl
  | cons r rest ih => simp [stops, hmode, ih]

section Met
variable {incoming r o : Order} {rem : Decimal} {book rest : List Order}

lemma Met.pos (h : Met incoming rem book o) (hpos : ∀ x ∈ book, 0 < x.remaining) : 0 < rem := by
  obtain ⟨front,back,rfl,_,_,hlt⟩ := h
  refine lt_of_le_of_lt (liquidity_nonneg fun x hx => hpos x ?_) hlt
  exact List.mem_append_left _ (List.mem_of_mem_filter hx)

lemma Met.mem (h : Met incoming rem book o) : o ∈ book := by
  obtain ⟨front,back,rfl,_⟩ := h
  simp

lemma met_cons (hpos : ∀ x ∈ r :: rest, 0 < x.remaining) :
    Met incoming rem (r :: rest) o ↔ 0 < rem ∧ priceMatches incoming r ∧
      (o = r ∨ (Prevented incoming r → incoming.stpMode = .cancelMaker) ∧
        Met incoming (if Prevented incoming r then rem else rem - r.remaining) rest o) := by
  constructor
  · intro h
    refine ⟨h.pos hpos,?_⟩
    obtain ⟨front,back,hbook,hmatch,hgo,hlt⟩ := h
    cases front with
    | nil =>
      obtain ⟨rfl,rfl⟩ := List.cons.inj hbook
      exact ⟨hmatch r (by simp),.inl rfl⟩
    | cons x front =>
      obtain ⟨rfl,rfl⟩ := List.cons.inj hbook
      refine ⟨hmatch r (by simp),.inr ⟨hgo r (by simp),front,back,rfl,?_,?_,?_⟩⟩
      · exact fun y hy => hmatch y (List.mem_cons_of_mem _ hy)
      · exact fun y hy => hgo y (List.mem_cons_of_mem _ hy)
      · by_cases hprev : Prevented incoming r
        · simpa [hprev] using hlt
        · simp only [hprev, not_false_eq_true, decide_true, List.filter_cons_of_pos, liquidity_cons] at hlt
          rw [if_neg hprev]
          linarith
  · rintro ⟨hrem,hr,rfl | ⟨hgo,front,back,rfl,hmatch,hgo',hlt⟩⟩
    · exact ⟨[],rest,rfl,by simpa using hr,by simp,hrem⟩
    · refine ⟨r :: front,back,rfl,?_,?_,?_⟩
      · simpa [hr] using hmatch
      · simpa using ⟨hgo,hgo'⟩
      · by_cases hprev : Prevented incoming r
        · simpa [hprev] using hlt
        · rw [if_neg hprev] at hlt
          simp only [hprev, not_false_eq_true, decide_true, List.filter_cons_of_pos, liquidity_cons]
          linarith

/-- Behind an entry that is filled the walk goes on with what the fill has left. -/
lemma met_after_fill (hpos : ∀ x ∈ rest, 0 < x.remaining) :
    Met incoming (rem - r.remaining) rest o ↔ Met incoming (rem - min rem r.remaining) rest o := by
  rcases le_total rem r.remaining with hle | hle
  · rw [min_eq_left hle, sub_self]
    refine ⟨fun h => absurd (h.pos hpos) ?_,fun h => absurd (h.pos hpos) (lt_irrefl _)⟩
    exact not_lt.mpr (sub_nonpos.mpr hle)
  · rw [min_eq_right hle]

lemma stops_iff (hrem : 0 ≤ rem) (hpos : ∀ x ∈ book, 0 < x.remaining) :
    stops incoming rem book ↔ incoming.stpMode ≠ .cancelMaker ∧ ∃ o, Met incoming rem book o ∧ Prevented incoming o := by
  fun_induction stops incoming rem book with
  | case1 rem => simp [Met]
  | case2 r rest =>
    simp only [Bool.false_eq_true, false_iff, not_and, not_exists]
    exact fun _ o h => absurd (h.pos hpos) (lt_irrefl _)
  | case3 rem r rest h0 hmatch =>
    simp only [Bool.false_eq_true, false_iff, not_and, not_exists, met_cons hpos]
    exact fun _ o h => absurd h.2.1 hmatch
  | case4 rem r rest h0 hmatch hprev =>
    have hlt : 0 < rem := lt_of_le_of_ne hrem (Ne.symm h0)
    rw [decide_eq_true_iff]
    refine ⟨fun hmode => ⟨hmode,r,(met_cons hpos).mpr ⟨hlt,not_not.mp hmatch,.inl rfl⟩,hprev⟩,fun h => h.1⟩
  | case5 rem r rest h0 hmatch hprev ih =>
    have hlt : 0 < rem := lt_of_le_of_ne hrem (Ne.symm h0)
    have hpos' : ∀ x ∈ rest, 0 < x.remaining := fun x hx => hpos x (List.mem_cons_of_mem _ hx)
    rw [ih (sub_nonneg.mpr (min_le_left _ _)) hpos']
    refine and_congr_right fun _ => exists_congr fun o => and_congr_left fun ho => ?_
    have hne : o ≠ r := fun h => hprev (h ▸ ho)
    simp [met_cons hpos, hlt, not_not.mp hmatch, hne, hprev, met_after_fill hpos']

lemma sum_touches_of_stops (hrem : 0 ≤ rem) (hstops : stops incoming rem book) :
    ((touches incoming rem book).map Touch.qty).sum < rem := by
  fun_induction touches incoming rem book with
  | case1 => cases hstops
  | case2 r rest => simp [stops] at hstops
  | case3 rem r rest h0 hmatch => simp [stops, hmatch] at hstops
  | case4 rem r rest h0 hmatch hprev hmode ih => simp [stops_cancelMaker hmode] at hstops
  | case5 rem r rest h0 hmatch hprev hmode => simpa [Touch.qty] using lt_of_le_of_ne hrem (Ne.symm h0)
  | case6 rem r rest h0 hmatch hprev hmaker hboth => simpa using lt_of_le_of_ne hrem (Ne.symm h0)
  | case7 rem r rest h0 hmatch hprev ih =>
    rw [stops, if_neg h0, if_neg hmatch, if_neg hprev] at hstops
    have htail := ih (sub_nonneg.mpr (min_le_left _ _)) hstops
    simp only [List.map_cons, List.sum_cons, Touch.qty]
    linarith

/-- Self-trade prevention removes the entry. -/
def Removed (incoming : Order) (rem : Decimal) (book : List Order) (o : Order) : Prop :=
  (incoming.stpMode = .cancelMaker ∨ incoming.stpMode = .cancelBoth) ∧ Met incoming rem book o ∧ Prevented incoming o

lemma met_head (hrem : 0 < rem) (hpos : ∀ x ∈ r :: rest, 0 < x.remaining) (hmatch : priceMatches incoming r) :
    Met incoming rem (r :: rest) r := (met_cons hpos).mpr ⟨hrem,hmatch,.inl rfl⟩

open scoped Classical in
lemma cancelled_touches (hrem : 0 ≤ rem) (hpos : ∀ x ∈ book, 0 < x.remaining) (hnodup : book.Nodup) :
    ((touches incoming rem book).filter (fun v => !v.isFill)).map Touch.resting =
      book.filter (fun o => Removed incoming rem book o) := by
  fun_induction touches incoming rem book with
  | case1 rem => rfl
  | case2 r rest =>
    refine (List.filter_eq_nil_iff.mpr fun o _ h => ?_).symm
    exact absurd ((of_decide_eq_true h).2.1.pos hpos) (lt_irrefl _)
  | case3 rem r rest h0 hmatch =>
    refine (List.filter_eq_nil_iff.mpr fun o _ h => ?_).symm
    exact hmatch ((met_cons hpos).mp (of_decide_eq_true h).2.1).2.1
  | case4 rem r rest h0 hmatch hprev hmode ih =>
    have hlt : 0 < rem := lt_of_le_of_ne hrem (Ne.symm h0)
    have hpos' : ∀ x ∈ rest, 0 < x.remaining := fun x hx => hpos x (List.mem_cons_of_mem _ hx)
    have hhead : Removed incoming rem (r :: rest) r := ⟨.inl hmode,met_head hlt hpos (not_not.mp hmatch),hprev⟩
    rw [List.filter_cons_of_pos rfl, List.map_cons, ih hrem hpos' hnodup.of_cons, List.filter_cons,
      if_pos (decide_eq_true hhead)]
    refine congrArg (r :: ·) (List.filter_congr fun o ho => ?_)
    have hne : o ≠ r := fun h => (List.nodup_cons.mp hnodup).1 (h ▸ ho)
    rw [decide_eq_decide]
    simp [Removed, met_cons hpos, hlt, not_not.mp hmatch, hne, hprev, hmode]
  | case5 rem r rest h0 hmatch hprev hmode =>
    have hlt : 0 < rem := lt_of_le_of_ne hrem (Ne.symm h0)
    have hhead : Removed incoming rem (r :: rest) r := ⟨.inr hmode,met_head hlt hpos (not_not.mp hmatch),hprev⟩
    rw [List.filter_cons_of_pos rfl, List.filter_cons (x := r), if_pos (decide_eq_true hhead)]
    refine congrArg (r :: ·) (List.filter_eq_nil_iff.mpr fun o ho h => ?_).symm
    have hne : o ≠ r := fun h => (List.nodup_cons.mp hnodup).1 (h ▸ ho)
    have hmet := (of_decide_eq_true h).2.1
    simp [met_cons hpos, hne, hprev, hmode] at hmet
  | case6 rem r rest h0 hmatch hprev hmaker hboth =>
    refine (List.filter_eq_nil_iff.mpr fun o _ h => ?_).symm
    exact (of_decide_eq_true h).1.elim hmaker hboth
  | case7 rem r rest h0 hmatch hprev ih =>
    have hlt : 0 < rem := lt_of_le_of_ne hrem (Ne.symm h0)
    have hpos' : ∀ x ∈ rest, 0 < x.remaining := fun x hx => hpos x (List.mem_cons_of_mem _ hx)
    have hhead : ¬ Removed incoming rem (r :: rest) r := fun h => hprev h.2.2
    rw [List.filter_cons_of_neg (by simp [Touch.isFill]), ih (sub_nonneg.mpr (min_le_left _ _)) hpos' hnodup.of_cons,
      List.filter_cons, if_neg (fun h => hhead (of_decide_eq_true h))]
    refine List.filter_congr fun o ho => ?_
    have hne : o ≠ r := fun h => (List.nodup_cons.mp hnodup).1 (h ▸ ho)
    rw [decide_eq_decide]
    simp [Removed, met_cons hpos, hlt, not_not.mp hmatch, hne, hprev, met_after_fill hpos']

end Met

/-- Status of the incoming order behind the walk. -/
def walkedStatus (stopped : Bool) (fills : List Touch) (remaining : Decimal) (status : OrderStatus) : OrderStatus :=
  if stopped then .cancelled
  else if fills = [] then status
  else if remaining = 0 then .filled
  else .partiallyFilled

/-- What the walk reports of self-trade prevention and of the incoming order. -/
structure Reported (s : MatchResult) (stopped : Bool) (w : MatchResult) (vs : List Touch) : Prop where
  stpCancelled : w.stpCancelled = s.stpCancelled ++ (if stopped then [w.incoming] else []) ++
    (vs.filter (fun v => !v.isFill)).map Touch.after
  status : w.incoming.status = walkedStatus stopped (vs.filter Touch.isFill) w.incoming.remaining s.incoming.status

section Report
variable {s s' : MatchResult} {stopped : Bool} {w : MatchResult} {vs : List Touch} {r : Order}

lemma Reported.nil : Reported s false s [] := ⟨by simp,by simp [walkedStatus]⟩

lemma Reported.fill {newV4 : ℕ → Uuid} (h : Reported (fill newV4 s r) stopped w vs)
    (hrem : w.incoming.remaining = (Engine.fill newV4 s r).incoming.remaining - (vs.map Touch.qty).sum) :
    Reported s stopped w (.fill r (min s.incoming.remaining r.remaining) :: vs) := by
  refine ⟨?_,?_⟩
  · rw [h.stpCancelled, List.filter_cons_of_neg (by simp [Touch.isFill])]
    rfl
  · rw [h.status, List.filter_cons_of_pos rfl]
    unfold walkedStatus
    cases stopped with
    | true => rfl
    | false =>
      by_cases hnone : vs.filter Touch.isFill = []
      · -- no fill behind this one: its status stands
        rw [← sum_qty_fills, hnone, List.map_nil, List.sum_nil, sub_zero] at hrem
        simp [hnone, hrem, Engine.fill, afterFill]
      · simp [hnone]

lemma Reported.cancel (h : Reported s' false w vs) (hinc : s'.incoming = s.incoming)
    (hstp : s'.stpCancelled = s.stpCancelled ++ [{ r with status := .cancelled }]) :
    Reported s false w (.cancel r :: vs) := by
  refine ⟨?_,?_⟩
  · rw [h.stpCancelled, hstp, List.filter_cons_of_pos rfl]
    simp [Touch.after]
  · rw [h.status, hinc, List.filter_cons_of_neg (by simp [Touch.isFill])]

end Report

lemma walkBook_reported (newV4 : ℕ → Uuid) (book : List Order) (s : MatchResult) :
    Reported s (stops s.incoming s.incoming.remaining book) (walkBook newV4 book s).1
      (touches s.incoming s.incoming.remaining book) := by
  induction book generalizing s with
  | nil => exact Reported.nil
  | cons r rest ih =>
    by_cases hrem : s.incoming.remaining = 0
    · rw [walkBook, touches, stops, if_pos hrem, if_pos hrem, if_pos hrem]
      exact Reported.nil
    by_cases hmatch : priceMatches s.incoming r
    swap
    · rw [walkBook, touches, stops, if_neg hrem, if_neg hrem, if_neg hrem, if_pos hmatch, if_pos hmatch, if_pos hmatch]
      exact Reported.nil
    have hfill := (ih (Engine.fill newV4 s r)).fill (walkBook_walked newV4 rest (Engine.fill newV4 s r)).remaining
    have htouches : touches (Engine.fill newV4 s r).incoming (Engine.fill newV4 s r).incoming.remaining rest =
        touches s.incoming (s.incoming.remaining - min s.incoming.remaining r.remaining) rest := touches_congr _ _ _ _ _
    have hstops : stops (Engine.fill newV4 s r).incoming (Engine.fill newV4 s r).incoming.remaining rest =
        stops s.incoming (s.incoming.remaining - min s.incoming.remaining r.remaining) rest := stops_congr _ _ _ _ _
    rw [htouches, hstops] at hfill
    rw [walkBook, touches, stops, if_neg hrem, if_neg hrem, if_neg hrem, if_neg (not_not.mpr hmatch),
      if_neg (not_not.mpr hmatch), if_neg (not_not.mpr hmatch)]
    by_cases hprev : Prevented s.incoming r
    · rw [if_pos hprev, if_pos hprev]
      have hcond : s.incoming.userId = r.userId ∧ s.incoming.stpMode ≠ .none := hprev
      simp only [if_pos hcond]
      cases hmode : s.incoming.stpMode with
      | none => exact absurd hmode hprev.2
      | cancelTaker => exact ⟨by simp,by simp [walkedStatus]⟩
      | cancelMaker =>
        have htail := ih { s with
          stpCancelled := s.stpCancelled ++ [{ r with status := .cancelled }]
          bookUpdates := s.bookUpdates ++ [{ r with status := .cancelled }] }
        rw [stops_cancelMaker hmode] at htail
        exact htail.cancel rfl rfl
      | cancelBoth => exact ⟨by simp [Touch.isFill, Touch.after],by simp [walkedStatus]⟩
    · rw [if_neg hprev, if_neg hprev]
      have hcond : ¬ (s.incoming.userId = r.userId ∧ s.incoming.stpMode ≠ .none) := hprev
      simp only [if_neg hcond]
      exact hfill

/-- The book with the entries of the updates put in their places. -/
def substituted (book updates : List Order) : List Order :=
  book.map (fun o => (updates.find? (fun u => u.id = o.id)).getD o)

lemma Touch.after_id (v : Touch) : v.after.id = v.resting.id := by
  cases v <;> rfl

lemma find?_of_nodup {α β : Type*} [DecidableEq β] {f : α → β} {xs : List α} (h : (xs.map f).Nodup) {x : α} (hx : x ∈ xs) :
    xs.find? (fun y => f y = f x) = some x := by
  induction xs with
  | nil => cases hx
  | cons y ys ih =>
    obtain ⟨hy,hys⟩ := List.nodup_cons.mp h
    rcases List.mem_cons.mp hx with rfl | hmem
    · simp
    · have hne : f y ≠ f x := fun heq => hy (heq ▸ List.mem_map_of_mem hmem)
      simp [hne, ih hys hmem]

lemma substituted_touched {book back : List Order} {vs : List Touch} (h : (book.map Order.id).Nodup)
    (hbook : book = vs.map Touch.resting ++ back) : substituted book (vs.map Touch.after) = vs.map Touch.after ++ back := by
  subst hbook
  have hids : (vs.map Touch.after).map Order.id = (vs.map Touch.resting).map Order.id := by
    simp only [List.map_map]
    exact List.map_congr_left fun v _ => v.after_id
  rw [List.map_append] at h
  obtain ⟨hfront,_,hdisj⟩ := List.nodup_append'.mp h
  unfold substituted
  rw [List.map_append, List.map_map]
  congr 1
  · refine List.map_congr_left fun v hv => ?_
    have hfind := find?_of_nodup (hids ▸ hfront) (List.mem_map_of_mem (f := Touch.after) hv)
    simp only [Touch.after_id] at hfind
    rw [Function.comp_apply, hfind]
    rfl
  · conv_rhs => rw [← List.map_id back]
    refine List.map_congr_left fun o ho => ?_
    have hnone : (vs.map Touch.after).find? (fun u => u.id = o.id) = none := by
      refine List.find?_eq_none.mpr fun u hu heq => ?_
      have hmem : o.id ∈ (vs.map Touch.resting).map Order.id := by
        rw [← hids, ← of_decide_eq_true heq]
        exact List.mem_map_of_mem hu
      exact hdisj hmem (List.mem_map_of_mem ho)
    rw [hnone]
    rfl

/-- The walk takes place: fill-or-kill does not reject the order. It comes to the entry. -/
def Reached (incoming : Order) (book : List Order) (o : Order) : Prop :=
  fokRejects incoming book = false ∧ Met incoming incoming.remaining book o

/-- Self-trade prevention stops the incoming order at an own entry. -/
def StpStop (incoming : Order) (book : List Order) : Prop :=
  (incoming.stpMode = .cancelTaker ∨ incoming.stpMode = .cancelBoth) ∧
    ∃ o, Reached incoming book o ∧ Prevented incoming o

/-- Self-trade prevention removes the entry from the book. -/
def StpRemoved (incoming : Order) (book : List Order) (o : Order) : Prop :=
  (incoming.stpMode = .cancelMaker ∨ incoming.stpMode = .cancelBoth) ∧ Reached incoming book o ∧ Prevented incoming o

/-- The remainder of the order may not rest. -/
def Immediate (incoming : Order) : Prop := incoming.orderType = .market ∨ incoming.tif ≠ .gtc

/-- The incoming order is cancelled: rejected, stopped or not to rest. -/
def TakerCancelled (incoming : Order) (book : List Order) (r : MatchResult) : Prop :=
  fokRejects incoming book ∨ StpStop incoming book ∨ 0 < r.incoming.remaining ∧ Immediate incoming

open scoped Classical in
/-- The report is complete and its statuses are exact. -/
structure CompleteReport (incoming : Order) (book : List Order) (r : MatchResult) (book' : List Order) : Prop where
  slice : book' = substituted book r.bookUpdates
  once : (r.bookUpdates.map Order.id).Nodup
  changed : ∀ u ∈ r.bookUpdates, ∃ o ∈ book, o.id = u.id ∧ u ≠ o
  makerFilled : ∀ u ∈ r.bookUpdates, u.status = .filled ↔ u.remaining = 0
  makerCancelled : ∀ u ∈ r.bookUpdates, u.status = .cancelled ↔ ∃ o, o.id = u.id ∧ StpRemoved incoming book o
  makerPartial : ∀ u ∈ r.bookUpdates, u.status = .partiallyFilled ↔
    u.remaining ≠ 0 ∧ ¬ ∃ o, o.id = u.id ∧ StpRemoved incoming book o
  takerFilled : r.incoming.status = .filled ↔ r.incoming.remaining = 0
  takerCancelled : r.incoming.status = .cancelled ↔ TakerCancelled incoming book r
  takerPartial : r.incoming.status = .partiallyFilled ↔
    r.incoming.remaining ≠ 0 ∧ ¬ TakerCancelled incoming book r ∧ r.trades ≠ []
  takerNew : r.incoming.status = .new ↔ r.incoming.remaining ≠ 0 ∧ ¬ TakerCancelled incoming book r ∧ r.trades = []
  stpCancelled : r.stpCancelled = (if StpStop incoming book then [r.incoming] else []) ++
    (book.filter (fun o => StpRemoved incoming book o)).map (fun o => { o with status := .cancelled })

section Complete
variable (newV4 : ℕ → Uuid) {incoming : Order} {book : List Order}

lemma stpStop_iff (hrem : 0 < incoming.remaining) (hpos : ∀ o ∈ book, 0 < o.remaining) (hfok : fokRejects incoming book = false) :
    StpStop incoming book ↔ stops incoming incoming.remaining book := by
  rw [stops_iff hrem.le hpos]
  constructor
  · rintro ⟨hmode,o,⟨_,hmet⟩,hprev⟩
    refine ⟨fun hm => ?_,o,hmet,hprev⟩
    simp [hm] at hmode
  · rintro ⟨hmaker,o,hmet,hprev⟩
    refine ⟨?_,o,⟨hfok,hmet⟩,hprev⟩
    cases hm : incoming.stpMode with
    | none => exact absurd hm hprev.2
    | cancelTaker => exact .inl rfl
    | cancelMaker => exact absurd hm hmaker
    | cancelBoth => exact .inr rfl

lemma not_stpStop_of_rejected (hfok : fokRejects incoming book = true) : ¬ StpStop incoming book := by
  rintro ⟨_,o,⟨hacc,_⟩,_⟩
  simp [hfok] at hacc

lemma not_stpRemoved_of_rejected (hfok : fokRejects incoming book = true) (o : Order) : ¬ StpRemoved incoming book o := by
  rintro ⟨_,⟨hacc,_⟩,_⟩
  simp [hfok] at hacc

lemma matchOrder_rejected (hfok : fokRejects incoming book = true) :
    matchOrder newV4 incoming book = (⟨[],[],{ incoming with status := .cancelled },[]⟩,book) := by
  simp [matchOrder, hfok]

lemma effectiveTif_eq_gtc_iff : effectiveTif incoming = .gtc ↔ ¬ Immediate incoming := by
  unfold effectiveTif Immediate
  split_ifs with h <;> simp [h]

lemma applyTif_of_cancelled {o : Order} (h : o.status = .cancelled) (tif : TimeInForce) (trades : List Trade) :
    applyTif tif trades o = o := if_neg (fun hpos => hpos.2 h)

/-- The order behind the walk, with nothing but the walk's fills and stop to say. -/
lemma walkBook_status (hnew : incoming.status = .new) (hrem : 0 < incoming.remaining) :
    let w := (walkBook newV4 book ⟨[],[],incoming,[]⟩).1
    0 ≤ w.incoming.remaining ∧ (stops incoming incoming.remaining book → 0 < w.incoming.remaining) ∧
    w.incoming.status =
      if stops incoming incoming.remaining book then .cancelled
      else if w.incoming.remaining = 0 then .filled
      else if w.trades = [] then .new
      else .partiallyFilled := by
  have hwalk := walkBook_walked newV4 book ⟨[],[],incoming,[]⟩
  have hstatus := (walkBook_reported newV4 book ⟨[],[],incoming,[]⟩).status
  simp only [] at hwalk hstatus ⊢
  set w := walkBook newV4 book ⟨[],[],incoming,[]⟩
  have hleft : w.1.incoming.remaining = incoming.remaining - ((touches incoming incoming.remaining book).map Touch.qty).sum :=
    hwalk.remaining
  have htrades : w.1.trades = [] ↔ (touches incoming incoming.remaining book).filter Touch.isFill = [] := by
    obtain ⟨ts,hts,hof⟩ := hwalk.trades
    rw [hts, List.nil_append, ← List.length_eq_zero_iff, hof.length_eq, List.length_eq_zero_iff]
  have hnone : w.1.trades = [] → w.1.incoming.remaining ≠ 0 := by
    intro h
    rw [hleft, ← sum_qty_fills, htrades.mp h, List.map_nil, List.sum_nil, sub_zero]
    exact hrem.ne'
  refine ⟨?_,fun hs => ?_,?_⟩
  · rw [hleft]
    exact sub_nonneg.mpr (touches_le hrem.le)
  · rw [hleft]
    exact sub_pos.mpr (sum_touches_of_stops hrem.le hs)
  · rw [hstatus, walkedStatus]
    simp only [← htrades, hnew]
    by_cases h : w.1.trades = []
    · simp [h, hnone h]
    · simp [h]

open scoped Classical in
lemma matchOrder_status (hnew : incoming.status = .new) (hrem : 0 < incoming.remaining)
    (hpos : ∀ o ∈ book, 0 < o.remaining) :
    let r := (matchOrder newV4 incoming book).1
    (TakerCancelled incoming book r → r.incoming.remaining ≠ 0) ∧
    r.incoming.status =
      if TakerCancelled incoming book r then .cancelled
      else if r.incoming.remaining = 0 then .filled
      else if r.trades = [] then .new
      else .partiallyFilled := by
  cases hfok : fokRejects incoming book with
  | true =>
    rw [matchOrder_rejected newV4 hfok]
    exact ⟨fun _ => hrem.ne',(if_pos (.inl hfok)).symm⟩
  | false =>
    obtain ⟨hnonneg,hleft,hstatus⟩ := @walkBook_status newV4 incoming book hnew hrem
    rw [matchOrder_of_not_rejected newV4 hfok]
    simp only [] at hnonneg hleft hstatus ⊢
    set w := walkBook newV4 book ⟨[],[],incoming,[]⟩
    have hcancelled : TakerCancelled incoming book { w.1 with
          incoming := applyTif (effectiveTif incoming) w.1.trades w.1.incoming } ↔
        stops incoming incoming.remaining book ∨ 0 < w.1.incoming.remaining ∧ Immediate incoming := by
      simp [TakerCancelled, hfok, stpStop_iff hrem hpos hfok]
    simp only [hcancelled, applyTif_remaining]
    cases hs : stops incoming incoming.remaining book with
    | true =>
      rw [hs, if_pos rfl] at hstatus
      rw [applyTif_of_cancelled hstatus]
      exact ⟨fun _ => (hleft hs).ne',by simpa using hstatus⟩
    | false =>
      rw [hs, if_neg (by simp)] at hstatus
      refine ⟨fun h => (h.resolve_left (by simp)).1.ne',?_⟩
      rcases hnonneg.eq_or_lt with hzero | hlt
      · rw [applyTif_of_filled hzero.symm, hstatus]
        simp [hzero.symm]
      · by_cases himm : Immediate incoming
        · rw [applyTif_cancelled (fun h => effectiveTif_eq_gtc_iff.mp h himm) hlt]
          simp [hlt, himm]
        · -- the order may rest: new when it has not traded
          rw [if_neg hlt.ne'] at hstatus
          rw [effectiveTif_eq_gtc_iff.mpr himm]
          by_cases h : w.1.trades = [] <;> simp [applyTif, hlt, hlt.ne', himm, hstatus, h]

lemma stpRemoved_iff (hfok : fokRejects incoming book = false) (o : Order) :
    StpRemoved incoming book o ↔ Removed incoming incoming.remaining book o := by
  simp [StpRemoved, Removed, Reached, hfok]

lemma Touch.Valid.after_ne {v : Touch} (h : v.Valid incoming)
    (hopen : v.resting.status = .new ∨ v.resting.status = .partiallyFilled) : v.after ≠ v.resting := by
  cases v with
  | fill r q =>
    intro heq
    have hrem : r.remaining - q = r.remaining := congrArg Order.remaining heq
    linarith [h.2.2.1]
  | cancel r =>
    intro heq
    have hstatus : OrderStatus.cancelled = r.status := congrArg Order.status heq
    simp [Touch.resting, ← hstatus] at hopen

/-- Statuses of a touched entry: filled when nothing is left, cancelled when it is the user's own. -/
lemma Touch.Valid.status {v : Touch} (h : v.Valid incoming) (hpos : 0 < v.resting.remaining) :
    (v.after.status = .filled ↔ v.after.remaining = 0) ∧ (v.after.status = .cancelled ↔ Prevented incoming v.resting) ∧
      (v.after.status = .partiallyFilled ↔ v.after.remaining ≠ 0 ∧ ¬ Prevented incoming v.resting) := by
  cases v with
  | fill r q =>
    have hprev : ¬ Prevented incoming r := h.2.1
    by_cases hzero : r.remaining - q = 0 <;> simp [Touch.after, Touch.resting, afterFill, hzero, hprev]
  | cancel r =>
    have hprev : Prevented incoming r := h.2
    have hne : r.remaining ≠ 0 := hpos.ne'
    simp [Touch.after, Touch.resting, hprev, hne]

lemma removed_of_touched (hrem : 0 < incoming.remaining) (hpos : ∀ o ∈ book, 0 < o.remaining)
    (hids : (book.map Order.id).Nodup) {v : Touch} (hv : v ∈ touches incoming incoming.remaining book)
    (hmem : v.resting ∈ book) :
    (∃ o, o.id = v.after.id ∧ Removed incoming incoming.remaining book o) ↔ Prevented incoming v.resting := by
  rw [v.after_id]
  constructor
  · rintro ⟨o,hid,hremoved⟩
    have heq : o = v.resting := List.inj_on_of_nodup_map hids hremoved.2.1.mem hmem hid
    exact heq ▸ hremoved.2.2
  · intro hprev
    refine ⟨v.resting,rfl,?_⟩
    have hvalid := touches_valid hrem.le hpos v hv
    have hcancel : v.isFill = false := by
      cases v with
      | fill r q => exact absurd hprev hvalid.2.1
      | cancel r => rfl
    have hlisted : v.resting ∈ ((touches incoming incoming.remaining book).filter (fun v => !v.isFill)).map Touch.resting :=
      List.mem_map_of_mem (List.mem_filter.mpr ⟨hv,by simp [hcancel]⟩)
    rw [cancelled_touches hrem.le hpos hids.of_map] at hlisted
    simpa using (List.mem_filter.mp hlisted).2

lemma takerStatuses {r : MatchResult} {cancelled : Prop} [Decidable cancelled] (hleft : cancelled → r.incoming.remaining ≠ 0)
    (hstatus : r.incoming.status = if cancelled then .cancelled else if r.incoming.remaining = 0 then .filled
      else if r.trades = [] then .new else .partiallyFilled) :
    (r.incoming.status = .filled ↔ r.incoming.remaining = 0) ∧ (r.incoming.status = .cancelled ↔ cancelled) ∧
      (r.incoming.status = .partiallyFilled ↔ r.incoming.remaining ≠ 0 ∧ ¬ cancelled ∧ r.trades ≠ []) ∧
      (r.incoming.status = .new ↔ r.incoming.remaining ≠ 0 ∧ ¬ cancelled ∧ r.trades = []) := by
  rw [hstatus]
  by_cases hc : cancelled
  · simp [hc, hleft hc]
  by_cases hzero : r.incoming.remaining = 0
  · simp [hc, hzero]
  · by_cases hnone : r.trades = [] <;> simp [hc, hzero, hnone]

lemma after_of_cancelled (vs : List Touch) :
    (vs.filter (fun v => !v.isFill)).map Touch.after =
      ((vs.filter (fun v => !v.isFill)).map Touch.resting).map (fun o => { o with status := .cancelled }) := by
  rw [List.map_map]
  refine List.map_congr_left fun v hv => ?_
  cases v with
  | fill r q => simp [Touch.isFill] at hv
  | cancel r => rfl

end Complete

/-- The report of the engine is complete and its statuses are exact. -/
theorem matchOrder_report (newV4 : ℕ → Uuid) (incoming : Order) (book : List Order) (hnew : incoming.status = .new)
    (hfull : incoming.remaining = incoming.quantity) (hqty : 0 < incoming.quantity) (hbook : BookFor incoming.side book)
    (hids : (book.map Order.id).Nodup) (hopen : ∀ o ∈ book, o.status = .new ∨ o.status = .partiallyFilled) :
    CompleteReport incoming book (matchOrder newV4 incoming book).1 (matchOrder newV4 incoming book).2 := by
  classical
  have hrem : 0 < incoming.remaining := hfull ▸ hqty
  obtain ⟨hleft,hstatus⟩ := matchOrder_status newV4 hnew hrem hbook.positive
  have htaker := takerStatuses hleft hstatus
  cases hfok : fokRejects incoming book with
  | true =>
    rw [matchOrder_rejected newV4 hfok] at htaker ⊢
    refine ⟨?_,by simp,by simp,by simp,by simp,by simp,htaker.1,htaker.2.1,htaker.2.2.1,htaker.2.2.2,?_⟩
    · simp [substituted]
    · simp [not_stpStop_of_rejected hfok, not_stpRemoved_of_rejected hfok]
  | false =>
    have hwalk := walkBook_walked newV4 book ⟨[],[],incoming,[]⟩
    have hstp := (walkBook_reported newV4 book ⟨[],[],incoming,[]⟩).stpCancelled
    rw [matchOrder_of_not_rejected newV4 hfok] at htaker ⊢
    simp only [] at hwalk hstp htaker ⊢
    set w := walkBook newV4 book ⟨[],[],incoming,[]⟩
    obtain ⟨back,hfront,hslice,_⟩ := hwalk.entries
    have hupdates : w.1.bookUpdates = (touches incoming incoming.remaining book).map Touch.after := hwalk.updates
    have hmem : ∀ v ∈ touches incoming incoming.remaining book, v.resting ∈ book := by
      intro v hv
      rw [hfront]
      exact List.mem_append_left _ (List.mem_map_of_mem hv)
    have hvalid : ∀ v ∈ touches incoming incoming.remaining book, v.Valid incoming := touches_valid hrem.le hbook.positive
    have hremoved : ∀ v ∈ touches incoming incoming.remaining book,
        (∃ o, o.id = v.after.id ∧ StpRemoved incoming book o) ↔ Prevented incoming v.resting := by
      intro v hv
      simp only [stpRemoved_iff hfok]
      exact removed_of_touched hrem hbook.positive hids hv (hmem v hv)
    have hmaker := fun v hv => (hvalid v hv).status (hbook.positive _ (hmem v hv))
    refine ⟨?_,?_,?_,?_,?_,?_,htaker.1,htaker.2.1,htaker.2.2.1,htaker.2.2.2,?_⟩
    · rw [hslice, hupdates]
      exact (substituted_touched hids hfront).symm
    · rw [hupdates, List.map_map]
      have hsub : ((touches incoming incoming.remaining book).map Touch.resting).map Order.id =
          (touches incoming incoming.remaining book).map (Order.id ∘ Touch.after) := by
        rw [List.map_map]
        exact List.map_congr_left fun v _ => v.after_id.symm
      rw [← hsub]
      rw [hfront, List.map_append] at hids
      exact hids.of_append_left
    all_goals simp only [hupdates, List.forall_mem_map]
    · exact fun v hv => ⟨v.resting,hmem v hv,v.after_id.symm,(hvalid v hv).after_ne (hopen _ (hmem v hv))⟩
    · exact fun v hv => (hmaker v hv).1
    · exact fun v hv => (hmaker v hv).2.1.trans (hremoved v hv).symm
    · intro v hv
      rw [hremoved v hv]
      exact (hmaker v hv).2.2
    · rw [hstp, after_of_cancelled, cancelled_touches hrem.le hbook.positive hids.of_map]
      simp only [stpStop_iff hrem hbook.positive hfok, stpRemoved_iff hfok, List.nil_append]
      cases hs : stops incoming incoming.remaining book with
      | true =>
        have hcancelled : w.1.incoming.status = .cancelled := by
          have h := (@walkBook_status newV4 incoming book hnew hrem).2.2
          rwa [hs, if_pos rfl] at h
        rw [applyTif_of_cancelled hcancelled]
      | false => rfl

/-- Bob's own offer is removed, the first one is filled and the last one filled in part. -/
theorem matchOrder_report_bob :
    let bid := { Order.gtcLimit 9 "bob" "BTC-USDT" .buy 300 5 with stpMode := .cancelMaker }
    let offers := [Order.gtcLimit 1 "alice" "BTC-USDT" .sell 100 2,Order.gtcLimit 2 "bob" "BTC-USDT" .sell 200 4,
      Order.gtcLimit 3 "carol" "BTC-USDT" .sell 300 7]
    let r := (matchOrder (fun _ => 0) bid offers).1
    CompleteReport bid offers r (matchOrder (fun _ => 0) bid offers).2 ∧
      r.bookUpdates.map Order.status = [.filled,.cancelled,.partiallyFilled] ∧ r.incoming.status = .filled ∧
      r.stpCancelled.map Order.id = [2] := by
  intro bid offers r
  have hbook : BookFor .buy offers := ⟨by simp [offers, Order.gtcLimit],by decide +kernel,by decide +kernel⟩
  have hreport := matchOrder_report (fun _ => 0) bid offers rfl rfl (by decide +kernel) hbook (by decide +kernel)
    (by simp [offers, Order.gtcLimit])
  exact ⟨hreport,by decide +kernel,by decide +kernel,by decide +kernel⟩

end MatchingEngine.Engine

import MatchingEngine.CancelledMakers

/-! Cancellation messages over runs. Every message is a sequence of cancels, and every cancel
either finds no open row of the user and does nothing, or takes one order out of its book, closes
its row and moves its reservation back within one balance row. A `cancel_all` does this for each
open row of the user, and for nothing else. -/
namespace MatchingEngine
open Library

/-! ### Messages as sequences of cancels -/

/-- One cancel, whatever its outcome. -/
def System.cancelOne (s : System) (c : Option (Text Uuid) × Option String) : System := (Api.cancel s c.1 c.2).2

/-- The stores after the cancel of an open row. -/
def System.closed (s : System) (id : Uuid) (user : String) (row : Order) : System :=
  ⟨s.db.removeOrderFromBook { row with id := id },Api.releaseCancelled (Api.markCancelled s.pg id) user row⟩

lemma System.cancelOne_cases (s : System) (c : Option (Text Uuid) × Option String) : s.cancelOne c = s ∨
    ∃ id user row, Api.cancellable s.pg id user = some row ∧ s.cancelOne c = s.closed id user row := by
  obtain ⟨orderId,userId⟩ := c
  unfold System.cancelOne Api.cancel
  rcases orderId with _ | id | _
  · exact .inl rfl
  · cases hc : Api.cancellable s.pg id (userId.getD "") with
    | none => exact .inl (by simp only [hc])
    | some row => exact .inr ⟨id,userId.getD "",row,hc,by simp only [hc]; rfl⟩
  · exact .inl rfl

lemma processCancellation_eq_foldl (s : System) (msg : CancelMsg) :
    ∃ cs : List (Option (Text Uuid) × Option String), (Api.processCancellation s msg).2 = cs.foldl System.cancelOne s := by
  unfold Api.processCancellation
  split
  · exact ⟨[(msg.orderId,msg.userId)],rfl⟩
  · refine ⟨[(msg.orderId,some (msg.userId.getD ""))],?_⟩
    rw [List.foldl_cons, List.foldl_nil, System.cancelOne]
    rcases Api.cancel s msg.orderId (some (msg.userId.getD "")) with ⟨_ | _,s'⟩ <;> rfl
  · next =>
    refine ⟨(s.pg.orders.rows.filter (fun r => r.2.userId = msg.userId.getD "user-1" ∧ (∀ p ∈ msg.pairId, r.2.pairId = p) ∧
      r.2.status.IsOpen)).map (fun r => (some (Text.value r.1),some (msg.userId.getD "user-1"))),?_⟩
    rw [List.foldl_map]
    rfl
  · exact ⟨[],rfl⟩

/-- What closing a row keeps, every message keeps. -/
theorem processCancellation_invariant {P : System → Prop}
    (hclose : ∀ s id user row, Api.cancellable s.pg id user = some row → P s → P (s.closed id user row)) {s : System}
    (hs : P s) (msg : CancelMsg) : P (Api.processCancellation s msg).2 := by
  obtain ⟨cs,hcs⟩ := processCancellation_eq_foldl s msg
  rw [hcs]
  clear hcs
  induction cs generalizing s with
  | nil => exact hs
  | cons c cs ih =>
    rw [List.foldl_cons]
    rcases s.cancelOne_cases c with heq | ⟨id,user,row,hc,heq⟩
    · rw [heq]
      exact ih hs
    · rw [heq]
      exact ih (hclose s id user row hc hs)

/-! ### One cancel -/

section Closed
variable (s : System) (id : Uuid) (user : String) (row : Order)

lemma System.closed_orders (x : Uuid) : (s.closed id user row).pg.orders.get x =
    if x = id then (s.pg.orders.get x).map (fun r => { r with status := .cancelled, remaining := 0 })
    else s.pg.orders.get x := Table.get_modify _ _ _ _

lemma System.closed_balances (k : String × String) : (s.closed id user row).pg.balances.get k =
    if k = (user,(Api.cancelRelease row).1) then (s.pg.balances.get k).map
      (fun b => ⟨b.available + (Api.cancelRelease row).2,b.locked - (Api.cancelRelease row).2⟩)
    else s.pg.balances.get k := Table.get_modify _ _ _ _

@[simp] lemma System.closed_trades : (s.closed id user row).pg.trades = s.pg.trades := rfl

@[simp] lemma System.closed_balance : (s.closed id user row).db.balance = s.db.balance := rfl

lemma System.closed_order (x : Uuid) : (s.closed id user row).db.order x = if x = id then none else s.db.order x := by
  simp [System.closed, Valkey.removeOrderFromBook]

lemma System.mem_closed_book {x : Uuid} {pair : String} {side : Side} : x ∈ (s.closed id user row).db.book pair side ↔
    x ∈ s.db.book pair side ∧ ¬ (x = id ∧ pair = row.pairId ∧ side = row.side) := by
  simp only [System.closed, Valkey.removeOrderFromBook, Valkey.dropOrder_book]
  by_cases h : pair = row.pairId ∧ side = row.side
  · rw [if_pos h, SortedSet.mem_remove]
    simp [h]
  · rw [if_neg h]
    refine (and_iff_left ?_).symm
    exact fun hx => h hx.2

end Closed

/-! ### Money -/

/-- What a balance row holds in all. -/
def Balance.total (b : Balance) : Decimal := b.available + b.locked

/-- The tables between two states as cancellations can change them. -/
structure System.OnlyCloses (s s' : System) : Prop where
  totals : ∀ k, (s'.pg.balances.get k).map Balance.total = (s.pg.balances.get k).map Balance.total
  trades : s'.pg.trades = s.pg.trades
  /-- Rows keep what they are, and those that are final stay so. -/
  rows : ∀ id, (s'.pg.orders.get id) = s.pg.orders.get id ∨
    ∃ r, s.pg.orders.get id = some r ∧ r.status.IsOpen ∧
      s'.pg.orders.get id = some { r with status := .cancelled, remaining := 0 }
  /-- What leaves a book had an open row. -/
  books : ∀ pair side id, id ∈ s.db.book pair side → id ∉ s'.db.book pair side →
    ∃ r, s.pg.orders.get id = some r ∧ r.status.IsOpen
  cached : s'.db.balance = s.db.balance

lemma System.OnlyCloses.refl (s : System) : s.OnlyCloses s :=
  ⟨fun _ => rfl,rfl,fun _ => .inl rfl,fun _ _ _ h h' => absurd h h',rfl⟩

lemma System.OnlyCloses.closed {s s' : System} (h : s.OnlyCloses s') {id : Uuid} {user : String} {row : Order}
    (hc : Api.cancellable s'.pg id user = some row) : s.OnlyCloses (s'.closed id user row) := by
  obtain ⟨hrow,_,hopen⟩ := cancellable_eq_some.mp hc
  have hbefore : s.pg.orders.get id = some row := by
    rcases h.rows id with hsame | ⟨r,_,_,hr⟩
    · rw [← hsame, hrow]
    · rw [hr, Option.some_inj] at hrow
      rw [← hrow] at hopen
      simp [OrderStatus.IsOpen] at hopen
  refine ⟨fun k => ?_,h.trades,fun x => ?_,fun pair side x hx hx' => ?_,h.cached⟩
  · rw [System.closed_balances, ← h.totals k]
    split_ifs
    · cases s'.pg.balances.get k with
      | none => rfl
      | some b =>
        simp only [Option.map_some, Balance.total, Option.some_inj]
        ring
    · rfl
  · rw [System.closed_orders]
    split_ifs with hx
    · subst hx
      exact .inr ⟨row,hbefore,hopen,by rw [hrow]; rfl⟩
    · exact h.rows x
  · by_cases hmem : x ∈ s'.db.book pair side
    · rw [System.mem_closed_book] at hx'
      obtain ⟨rfl,_⟩ : x = id ∧ _ := by
        by_contra hne
        exact hx' ⟨hmem,hne⟩
      exact ⟨row,hbefore,hopen⟩
    · exact h.books pair side x hx hmem

/-- However many messages of whatever kind are processed, no balance row changes in total, no trade
is touched, rows that are filled, cancelled or rejected keep their contents and open rows change to
cancelled only, and no order leaves a book unless its row was open. -/
theorem cancellations_conserve (s : System) (msgs : List CancelMsg) :
    s.OnlyCloses (msgs.foldl (fun s msg => (Api.processCancellation s msg).2) s) := by
  have hrun : ∀ s', s.OnlyCloses s' → s.OnlyCloses (msgs.foldl (fun s msg => (Api.processCancellation s msg).2) s') := by
    induction msgs with
    | nil => exact fun _ h => h
    | cons msg msgs ih =>
      exact fun s' h => ih _ (processCancellation_invariant (P := fun s' => s.OnlyCloses s')
        (fun _ _ _ _ hc hs => hs.closed hc) h msg)
  exact hrun s (System.OnlyCloses.refl s)

/-! ### Cancelling everything -/

/-- The rows that a `cancel_all` selects. -/
def Api.openRows (pg : Postgres) (user : String) (pairId : Option String) : List (Uuid × Order) :=
  pg.orders.rows.filter (fun r => r.2.userId = user ∧ (∀ p ∈ pairId, r.2.pairId = p) ∧ r.2.status.IsOpen)

/-- What closing some rows gives back to one balance row. -/
def Api.releasedTo (user : String) (rows : List (Uuid × Order)) (k : String × String) : Decimal :=
  (rows.map (fun r => if k = (user,(cancelRelease r.2).1) then (cancelRelease r.2).2 else 0)).sum

lemma mem_openRows {pg : Postgres} {user : String} {pairId : Option String} {r : Uuid × Order} :
    r ∈ Api.openRows pg user pairId ↔
      pg.orders.get r.1 = some r.2 ∧ r.2.userId = user ∧ (∀ p ∈ pairId, r.2.pairId = p) ∧ r.2.status.IsOpen := by
  simp only [Api.openRows, List.mem_filter, decide_eq_true_eq]
  exact and_congr_left (fun _ => ⟨Table.get_of_mem,Table.mem_of_get⟩)

lemma openRows_nodup (pg : Postgres) (user : String) (pairId : Option String) :
    ((Api.openRows pg user pairId).map Prod.fst).Nodup := pg.orders.nodup.sublist (List.filter_sublist.map _)

/-- Cancels of different orders do not meet, so that every selected row is still open
when its turn comes. -/
lemma foldl_cancel_eq_closed {user : String} {rows : List (Uuid × Order)} (hn : (rows.map Prod.fst).Nodup) {s : System}
    (hrows : ∀ r ∈ rows, Api.cancellable s.pg r.1 user = some r.2) :
    rows.foldl (fun s r => (Api.cancel s (some (.value r.1)) (some user)).2) s =
      rows.foldl (fun s r => s.closed r.1 user r.2) s := by
  induction rows generalizing s with
  | nil => rfl
  | cons r rows ih =>
    rw [List.map_cons, List.nodup_cons] at hn
    have hfirst : (Api.cancel s (some (.value r.1)) (some user)).2 = s.closed r.1 user r.2 := by
      rw [cancel_of_cancellable (hrows r (by simp))]
      rfl
    rw [List.foldl_cons, List.foldl_cons, hfirst]
    refine ih hn.2 (fun x hx => ?_)
    have hne : x.1 ≠ r.1 := fun he => hn.1 (he ▸ List.mem_map_of_mem hx)
    obtain ⟨hget,huser,hopen⟩ := cancellable_eq_some.mp (hrows x (by simp [hx]))
    refine cancellable_eq_some.mpr ⟨?_,huser,hopen⟩
    rw [System.closed_orders, if_neg hne, hget]

section Foldl
variable (user : String) (rows : List (Uuid × Order)) (s : System)

lemma foldl_closed_orders (x : Uuid) : (rows.foldl (fun s r => s.closed r.1 user r.2) s).pg.orders.get x =
    if x ∈ rows.map Prod.fst then (s.pg.orders.get x).map (fun r => { r with status := .cancelled, remaining := 0 })
    else s.pg.orders.get x := by
  induction rows generalizing s with
  | nil => rfl
  | cons r rows ih =>
    rw [List.foldl_cons, ih, System.closed_orders, List.map_cons]
    by_cases hx : x = r.1
    · simp only [hx, if_true, List.mem_cons_self]
      split_ifs
      · rw [Option.map_map]
        rfl
      · rfl
    · simp only [List.mem_cons, if_neg hx, or_iff_right hx]

lemma foldl_closed_order (x : Uuid) : (rows.foldl (fun s r => s.closed r.1 user r.2) s).db.order x =
    if x ∈ rows.map Prod.fst then none else s.db.order x := by
  induction rows generalizing s with
  | nil => rfl
  | cons r rows ih =>
    rw [List.foldl_cons, ih, System.closed_order, List.map_cons]
    by_cases hx : x = r.1
    · simp only [hx, if_true, List.mem_cons_self, ite_self]
    · simp only [List.mem_cons, if_neg hx, or_iff_right hx]

lemma mem_foldl_closed_book {x : Uuid} {pair : String} {side : Side} :
    x ∈ (rows.foldl (fun s r => s.closed r.1 user r.2) s).db.book pair side ↔
      x ∈ s.db.book pair side ∧ ¬ ∃ r ∈ rows, x = r.1 ∧ pair = r.2.pairId ∧ side = r.2.side := by
  induction rows generalizing s with
  | nil => simp
  | cons r rows ih =>
    rw [List.foldl_cons, ih, System.mem_closed_book, and_assoc]
    simp only [List.exists_mem_cons_iff, not_or]

lemma foldl_closed_balances (k : String × String) :
    (rows.foldl (fun s r => s.closed r.1 user r.2) s).pg.balances.get k = (s.pg.balances.get k).map
      (fun b => ⟨b.available + Api.releasedTo user rows k,b.locked - Api.releasedTo user rows k⟩) := by
  induction rows generalizing s with
  | nil => simp [Api.releasedTo]
  | cons r rows ih =>
    rw [List.foldl_cons, ih, System.closed_balances]
    simp only [Api.releasedTo, List.map_cons, List.sum_cons]
    by_cases hk : k = (user,(Api.cancelRelease r.2).1)
    · rw [if_pos hk, if_pos hk, Option.map_map]
      congr 1
      funext b
      ext
      · simp only [Function.comp_apply]
        ring
      · simp only [Function.comp_apply]
        ring
    · simp only [if_neg hk, zero_add]

end Foldl

/-- Cancelling all closes every open row of the user on the pair, or on all pairs, takes these orders
out of the store, and moves what their rows reserve back within the user's balance rows; all other
rows, hashes and entries, the trades and the cached balances stay. -/
theorem cancelAll_effect (s : System) (userId pairId : Option String) :
    let user := userId.getD "user-1"
    let rows := Api.openRows s.pg user pairId
    let s' := (Api.processCancellation s (Gateway.cancelAllOrders userId pairId)).2
    (∀ id, s'.pg.orders.get id = if id ∈ rows.map Prod.fst
      then (s.pg.orders.get id).map (fun r => { r with status := .cancelled, remaining := 0 }) else s.pg.orders.get id) ∧
    (∀ id, s'.db.order id = if id ∈ rows.map Prod.fst then none else s.db.order id) ∧
    (∀ pair side id, id ∈ s'.db.book pair side ↔
      id ∈ s.db.book pair side ∧ ¬ ∃ r ∈ rows, id = r.1 ∧ pair = r.2.pairId ∧ side = r.2.side) ∧
    (∀ k, s'.pg.balances.get k = (s.pg.balances.get k).map
      (fun b => ⟨b.available + Api.releasedTo user rows k,b.locked - Api.releasedTo user rows k⟩)) ∧
    s'.pg.trades = s.pg.trades ∧ s'.db.balance = s.db.balance := by
  intro user rows s'
  have hrows : ∀ r ∈ rows, Api.cancellable s.pg r.1 user = some r.2 := by
    intro r hr
    obtain ⟨hget,huser,_,hopen⟩ := mem_openRows.mp hr
    exact cancellable_eq_some.mpr ⟨hget,huser,hopen⟩
  have hs' : s' = rows.foldl (fun s r => s.closed r.1 user r.2) s :=
    foldl_cancel_eq_closed (openRows_nodup s.pg user pairId) hrows
  have hkept := cancellations_conserve s [Gateway.cancelAllOrders userId pairId]
  rw [hs']
  refine ⟨foldl_closed_orders user rows s,foldl_closed_order user rows s,fun pair side id => mem_foldl_closed_book user rows s,
    foldl_closed_balances user rows s,?_,?_⟩
  · rw [← hs']
    exact hkept.trades
  · rw [← hs']
    exact hkept.cached

end MatchingEngine

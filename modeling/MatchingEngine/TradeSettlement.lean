import MatchingEngine.Reservations

/-! Settling trades one by one and all at once. Both debit and credit the same rows; the one by
one settlement leaves the locked amount of a row alone that it only credits, where the aggregated
one clamps it at zero. -/
namespace MatchingEngine
open Library

/-! ### The two settlements -/

/-- `UPDATE balances SET locked = GREATEST(locked - amount, 0)`. -/
def debitRow (amount : Decimal) (b : Balance) : Balance := ⟨b.available,max (b.locked - amount) 0⟩

/-- `DO UPDATE SET available = balances.available + amount`. -/
def creditRow (amount : Decimal) (b : Balance) : Balance := ⟨b.available + amount,b.locked⟩

/-- `settle_trade_balances`: for the buyer and for the seller an update and an upsert. -/
def Postgres.settleTradeBalances (pg : Postgres) (t : Trade) : Except String Postgres := do
  let (base,quote) ← parsePairId t.pairId
  let cost := t.price * t.quantity
  let balances := pg.balances.modify (t.buyerId,quote) (debitRow cost)
  let balances := balances.upsert (t.buyerId,base) ⟨t.quantity,0⟩ (creditRow t.quantity)
  let balances := balances.modify (t.sellerId,base) (debitRow t.quantity)
  let balances := balances.upsert (t.sellerId,quote) ⟨cost,0⟩ (creditRow cost)
  return { pg with balances := balances }

/-- The settlement map sorted by user and asset. -/
def Deltas.sorted (d : Deltas) : Deltas where
  rows := d.rows.insertionSort (fun a b => toLex a.1 ≤ toLex b.1)
  nodup := ((List.perm_insertionSort _ d.rows).map Prod.fst).nodup_iff.mpr d.nodup

/-- A missing row is read as zero. -/
def Postgres.balanceAt (pg : Postgres) (k : String × String) : Balance := (pg.balances.get k).getD ⟨0,0⟩

/-- The trade takes from the locked amount of the row. -/
def Trade.Debits (t : Trade) (k : String × String) : Prop :=
  ∃ base quote, parsePairId t.pairId = .ok (base,quote) ∧ (k = (t.buyerId,quote) ∨ k = (t.sellerId,base))

/-- The trade adds to the available amount of the row. -/
def Trade.Credits (t : Trade) (k : String × String) : Prop :=
  ∃ base quote, parsePairId t.pairId = .ok (base,quote) ∧ (k = (t.buyerId,base) ∨ k = (t.sellerId,quote))

/-! ### One row -/

/-- What one statement does to a row. -/
inductive RowMove
  | debit (amount : Decimal)
  | credit (amount : Decimal)
  deriving DecidableEq

namespace RowMove

def amount : RowMove → Decimal
  | debit c => c
  | credit c => c

def apply (b : Balance) : RowMove → Balance
  | debit c => debitRow c b
  | credit c => creditRow c b

/-- The entry of the settlement map. -/
def delta : RowMove → Decimal × Decimal
  | debit c => (c,0)
  | credit c => (0,c)

def isDebit : RowMove → Bool
  | debit _ => true
  | credit _ => false

end RowMove

/-- The sum of the entries, for a row that has some. -/
def totalDelta (ms : List RowMove) : Option (Decimal × Decimal) :=
  if ms = [] then none else some (ms.map RowMove.delta).sum

lemma totalDelta_append (ms ns : List RowMove) :
    totalDelta (ms ++ ns) = (totalDelta ms).merge (· + ·) (totalDelta ns) := by
  unfold totalDelta
  by_cases hm : ms = []
  · simp [hm]
  · by_cases hn : ns = []
    · simp [hn]
    · simp [hm, hn]

lemma totalDelta_nonneg {ms : List RowMove} (h : ∀ m ∈ ms, 0 ≤ m.amount) : 0 ≤ (ms.map RowMove.delta).sum.1 := by
  induction ms with
  | nil => exact le_refl _
  | cons m ms ih =>
    simp only [List.mem_cons, forall_eq_or_imp] at h
    have hm : 0 ≤ m.delta.1 := by
      cases m with
      | debit c => exact h.1
      | credit c => exact le_refl _
    rw [List.map_cons, List.sum_cons, Prod.fst_add]
    exact add_nonneg hm (ih h.2)

lemma totalDelta_of_no_debit {ms : List RowMove} (h : ms.any RowMove.isDebit = false) : (ms.map RowMove.delta).sum.1 = 0 := by
  induction ms with
  | nil => rfl
  | cons m ms ih =>
    rw [List.any_cons, Bool.or_eq_false_iff] at h
    rw [List.map_cons, List.sum_cons, Prod.fst_add, ih h.2, add_zero]
    cases m with
    | debit c => cases h.1
    | credit c => rfl

lemma max_sub_max {l d r : Decimal} (hr : 0 ≤ r) : max (max (l - d) 0 - r) 0 = max (l - (d + r)) 0 := by
  rcases max_cases (l - d) 0 with ⟨h,_⟩ | ⟨h,h'⟩
  · rw [h, sub_sub]
  · rw [h, max_eq_right (by linarith), max_eq_right (by linarith)]

/-- The statements one by one: a row that is debited at all is clamped as if with the sum. -/
lemma foldl_apply {ms : List RowMove} (h : ∀ m ∈ ms, 0 ≤ m.amount) (b : Balance) :
    ms.foldl RowMove.apply b = ⟨b.available + (ms.map RowMove.delta).sum.2,
      if ms.any RowMove.isDebit then max (b.locked - (ms.map RowMove.delta).sum.1) 0 else b.locked⟩ := by
  induction ms generalizing b with
  | nil => simp
  | cons m ms ih =>
    simp only [List.mem_cons, forall_eq_or_imp] at h
    rw [List.foldl_cons, ih h.2, List.map_cons, List.sum_cons, List.any_cons]
    cases m with
    | credit c => simp [RowMove.apply, creditRow, RowMove.delta, RowMove.isDebit, add_assoc]
    | debit c =>
      simp only [RowMove.apply, debitRow, RowMove.delta, RowMove.isDebit, Bool.true_or, if_true, Prod.fst_add, Prod.snd_add,
        zero_add]
      by_cases hany : ms.any RowMove.isDebit = true
      · rw [if_pos hany, max_sub_max (totalDelta_nonneg h.2)]
      · rw [if_neg hany, totalDelta_of_no_debit (Bool.not_eq_true _ ▸ hany), add_zero]

lemma getD_settleOpt_totalDelta {ms : List RowMove} (h : ∀ m ∈ ms, 0 ≤ m.amount) (b : Option Balance) :
    (settleOpt (totalDelta ms) b).getD ⟨0,0⟩ = if ms = [] then b.getD ⟨0,0⟩ else
      ⟨(b.getD ⟨0,0⟩).available + (ms.map RowMove.delta).sum.2,
        max ((b.getD ⟨0,0⟩).locked - (ms.map RowMove.delta).sum.1) 0⟩ := by
  unfold totalDelta
  by_cases hms : ms = []
  · simp [hms, settleOpt]
  · have hsum := totalDelta_nonneg h
    cases b with
    | none => simp [hms, settleOpt, hsum]
    | some b => simp [hms, settleOpt, settleRow]

/-- The two ways differ on a row that is locked below zero, credited and not debited. -/
lemma settleOpt_eq_foldl_apply_iff {ms : List RowMove} (h : ∀ m ∈ ms, 0 ≤ m.amount) (b : Option Balance) :
    (settleOpt (totalDelta ms) b).getD ⟨0,0⟩ = ms.foldl RowMove.apply (b.getD ⟨0,0⟩) ↔
      ((b.getD ⟨0,0⟩).locked < 0 → ms ≠ [] → ms.any RowMove.isDebit = true) := by
  rw [getD_settleOpt_totalDelta h, foldl_apply h]
  by_cases hms : ms = []
  · simp [hms]
  rw [if_neg hms]
  by_cases hany : ms.any RowMove.isDebit = true
  · rw [if_pos hany]
    exact iff_of_true rfl fun _ _ => hany
  · rw [if_neg hany, totalDelta_of_no_debit (Bool.not_eq_true _ ▸ hany), sub_zero, Balance.mk.injEq]
    simp only [true_and, max_eq_left_iff]
    constructor
    · intro hle hlt
      exact absurd hle (not_le.mpr hlt)
    · intro himp
      by_contra hlt
      exact hany (himp (not_le.mp hlt) hms)

lemma foldl_apply_perm {ms ns : List RowMove} (hperm : ns.Perm ms) (h : ∀ m ∈ ms, 0 ≤ m.amount) (b : Balance) :
    ns.foldl RowMove.apply b = ms.foldl RowMove.apply b := by
  have hany : ns.any RowMove.isDebit = ms.any RowMove.isDebit := by
    rw [Bool.eq_iff_iff, List.any_eq_true, List.any_eq_true]
    simp only [hperm.mem_iff]
  rw [foldl_apply h, foldl_apply (fun m hm => h m (hperm.mem_iff.mp hm)), (hperm.map RowMove.delta).sum_eq, hany]

/-! ### The rows of a trade -/

/-- A statement on the row of `k`, as seen from the row of `k'`. -/
def moveAt (k k' : String × String) (m : RowMove) : List RowMove := if k' = k then [m] else []

/-- The four statements of a trade, as seen from one row. -/
def Trade.movesOf (t : Trade) (base quote : String) (k : String × String) : List RowMove :=
  moveAt (t.buyerId,quote) k (.debit (t.price * t.quantity)) ++ moveAt (t.buyerId,base) k (.credit t.quantity) ++
    moveAt (t.sellerId,base) k (.debit t.quantity) ++ moveAt (t.sellerId,quote) k (.credit (t.price * t.quantity))

def Trade.movesAt (t : Trade) (k : String × String) : List RowMove :=
  match parsePairId t.pairId with
  | .ok (base,quote) => t.movesOf base quote k
  | .error _ => []

section Moves
variable {t : Trade} {base quote : String} {k : String × String}

lemma Trade.movesAt_eq (h : parsePairId t.pairId = .ok (base,quote)) : t.movesAt k = t.movesOf base quote k := by
  unfold Trade.movesAt
  rw [h]

lemma mem_moveAt {k k' : String × String} {m m' : RowMove} : m' ∈ moveAt k k' m ↔ k' = k ∧ m' = m := by
  unfold moveAt
  split_ifs with h <;> simp [h]

lemma Trade.mem_movesOf {m : RowMove} : m ∈ t.movesOf base quote k ↔
    (k = (t.buyerId,quote) ∧ m = .debit (t.price * t.quantity)) ∨ (k = (t.buyerId,base) ∧ m = .credit t.quantity) ∨
      (k = (t.sellerId,base) ∧ m = .debit t.quantity) ∨ (k = (t.sellerId,quote) ∧ m = .credit (t.price * t.quantity)) := by
  simp only [Trade.movesOf, List.mem_append, mem_moveAt, or_assoc]

lemma Trade.mem_movesAt {m : RowMove} (hm : m ∈ t.movesAt k) :
    ∃ base quote, parsePairId t.pairId = .ok (base,quote) ∧ m ∈ t.movesOf base quote k := by
  unfold Trade.movesAt at hm
  split at hm
  · exact ⟨_,_,‹_›,hm⟩
  · cases hm

lemma Trade.movesAt_nonneg (hprice : 0 ≤ t.price) (hqty : 0 ≤ t.quantity) : ∀ m ∈ t.movesAt k, 0 ≤ m.amount := by
  intro m hm
  obtain ⟨base,quote,_,hm⟩ := Trade.mem_movesAt hm
  rcases Trade.mem_movesOf.mp hm with ⟨_,rfl⟩ | ⟨_,rfl⟩ | ⟨_,rfl⟩ | ⟨_,rfl⟩
  · exact mul_nonneg hprice hqty
  · exact hqty
  · exact hqty
  · exact mul_nonneg hprice hqty

lemma Trade.exists_debit_iff : (∃ m ∈ t.movesAt k, m.isDebit = true) ↔ t.Debits k := by
  constructor
  · rintro ⟨m,hm,hdebit⟩
    obtain ⟨base,quote,hp,hm⟩ := Trade.mem_movesAt hm
    rcases Trade.mem_movesOf.mp hm with ⟨hk,rfl⟩ | ⟨_,rfl⟩ | ⟨hk,rfl⟩ | ⟨_,rfl⟩
    · exact ⟨base,quote,hp,.inl hk⟩
    · cases hdebit
    · exact ⟨base,quote,hp,.inr hk⟩
    · cases hdebit
  · rintro ⟨base,quote,hp,hk⟩
    rw [Trade.movesAt_eq hp]
    rcases hk with hk | hk
    · exact ⟨_,Trade.mem_movesOf.mpr (.inl ⟨hk,rfl⟩),rfl⟩
    · exact ⟨_,Trade.mem_movesOf.mpr (.inr (.inr (.inl ⟨hk,rfl⟩))),rfl⟩

lemma Trade.exists_credit_iff : (∃ m ∈ t.movesAt k, m.isDebit = false) ↔ t.Credits k := by
  constructor
  · rintro ⟨m,hm,hcredit⟩
    obtain ⟨base,quote,hp,hm⟩ := Trade.mem_movesAt hm
    rcases Trade.mem_movesOf.mp hm with ⟨_,rfl⟩ | ⟨hk,rfl⟩ | ⟨_,rfl⟩ | ⟨hk,rfl⟩
    · cases hcredit
    · exact ⟨base,quote,hp,.inl hk⟩
    · cases hcredit
    · exact ⟨base,quote,hp,.inr hk⟩
  · rintro ⟨base,quote,hp,hk⟩
    rw [Trade.movesAt_eq hp]
    rcases hk with hk | hk
    · exact ⟨_,Trade.mem_movesOf.mpr (.inr (.inl ⟨hk,rfl⟩)),rfl⟩
    · exact ⟨_,Trade.mem_movesOf.mpr (.inr (.inr (.inr ⟨hk,rfl⟩))),rfl⟩

/-! ### Aggregated -/

lemma Deltas.get_add_delta (d : Deltas) (k k' : String × String) (m : RowMove) :
    (d.add k m.delta).get k' = (d.get k').merge (· + ·) (totalDelta (moveAt k k' m)) := by
  rw [Deltas.get_add]
  unfold moveAt
  split_ifs
  · simp [totalDelta]
  · simp [totalDelta]

lemma Deltas.get_addTrade_movesOf (d : Deltas) (t : Trade) (base quote : String) (k : String × String) :
    (d.addTrade t base quote).get k = (d.get k).merge (· + ·) (totalDelta (t.movesOf base quote k)) := by
  have hadd := fun (d : Deltas) k' (m : RowMove) => Deltas.get_add_delta d k' k m
  change ((((d.add _ (RowMove.debit _).delta).add _ (RowMove.credit _).delta).add _ (RowMove.debit _).delta).add _
    (RowMove.credit _).delta).get k = _
  rw [hadd, hadd, hadd, hadd, merge_add_assoc, merge_add_assoc, merge_add_assoc, ← totalDelta_append, ← totalDelta_append,
    ← totalDelta_append, Trade.movesOf, List.append_assoc, List.append_assoc]

lemma foldlM_addTradeDeltas_movesAt {ts : List Trade} (h : ∀ t ∈ ts, ∃ pair, parsePairId t.pairId = .ok pair) (d : Deltas) :
    ∃ d', ts.foldlM addTradeDeltas d = .ok d' ∧
      ∀ k, d'.get k = (d.get k).merge (· + ·) (totalDelta (ts.flatMap (fun t => t.movesAt k))) := by
  induction ts generalizing d with
  | nil => exact ⟨d,rfl,fun k => by simp [totalDelta]⟩
  | cons t ts ih =>
    simp only [List.mem_cons, forall_eq_or_imp] at h
    obtain ⟨⟨base,quote⟩,hp⟩ := h.1
    obtain ⟨d',hd',hget⟩ := ih h.2 (d.addTrade t base quote)
    refine ⟨d',?_,fun k => ?_⟩
    · rw [List.foldlM_cons, addTradeDeltas_eq d hp]
      exact hd'
    · rw [hget k, Deltas.get_addTrade_movesOf, ← Trade.movesAt_eq hp, List.flatMap_cons, totalDelta_append, merge_add_assoc]

/-! ### One by one -/

lemma getD_modify_debitRow (b : Table (String × String) Balance) (k k' : String × String) {c : Decimal} (hc : 0 ≤ c) :
    ((b.modify k (debitRow c)).get k').getD ⟨0,0⟩ = (moveAt k k' (.debit c)).foldl RowMove.apply ((b.get k').getD ⟨0,0⟩) := by
  rw [Table.get_modify]
  unfold moveAt
  split_ifs
  · cases b.get k' with
    | none => simp [RowMove.apply, debitRow, hc]
    | some x => rfl
  · rfl

lemma getD_upsert_creditRow (b : Table (String × String) Balance) (k k' : String × String) (c : Decimal) :
    ((b.upsert k ⟨c,0⟩ (creditRow c)).get k').getD ⟨0,0⟩ =
      (moveAt k k' (.credit c)).foldl RowMove.apply ((b.get k').getD ⟨0,0⟩) := by
  rw [Table.get_upsert]
  unfold moveAt
  split_ifs
  · cases b.get k' with
    | none => simp [RowMove.apply, creditRow]
    | some x => rfl
  · rfl

lemma Postgres.settleTradeBalances_ok (pg : Postgres) (hp : parsePairId t.pairId = .ok (base,quote)) (hprice : 0 ≤ t.price)
    (hqty : 0 ≤ t.quantity) : ∃ pg', pg.settleTradeBalances t = .ok pg' ∧
      ∀ k, pg'.balanceAt k = (t.movesAt k).foldl RowMove.apply (pg.balanceAt k) := by
  unfold Postgres.settleTradeBalances
  rw [hp]
  refine ⟨_,rfl,fun k => ?_⟩
  rw [Trade.movesAt_eq hp, Trade.movesOf, List.foldl_append, List.foldl_append, List.foldl_append]
  simp only [Postgres.balanceAt]
  rw [getD_upsert_creditRow, getD_modify_debitRow _ _ _ hqty, getD_upsert_creditRow, getD_modify_debitRow _ _ _ (mul_nonneg hprice hqty)]

lemma Postgres.foldlM_settleTradeBalances {ts : List Trade} (hpair : ∀ t ∈ ts, ∃ pair, parsePairId t.pairId = .ok pair)
    (hvalid : ∀ t ∈ ts, 0 ≤ t.price ∧ 0 ≤ t.quantity) (pg : Postgres) :
    ∃ pg', ts.foldlM Postgres.settleTradeBalances pg = .ok pg' ∧
      ∀ k, pg'.balanceAt k = (ts.flatMap (fun t => t.movesAt k)).foldl RowMove.apply (pg.balanceAt k) := by
  induction ts generalizing pg with
  | nil => exact ⟨pg,rfl,fun k => rfl⟩
  | cons t ts ih =>
    simp only [List.mem_cons, forall_eq_or_imp] at hpair hvalid
    obtain ⟨⟨base,quote⟩,hp⟩ := hpair.1
    obtain ⟨pg₁,hset,hb₁⟩ := pg.settleTradeBalances_ok hp hvalid.1.1 hvalid.1.2
    obtain ⟨pg₂,hrest,hb₂⟩ := ih hpair.2 hvalid.2 pg₁
    refine ⟨pg₂,?_,fun k => ?_⟩
    · rw [List.foldlM_cons, hset]
      exact hrest
    · rw [hb₂ k, hb₁ k, List.flatMap_cons, List.foldl_append]

end Moves

/-! ### The settlements compared -/

lemma Deltas.get_sorted (d : Deltas) (k : String × String) : d.sorted.get k = d.get k :=
  Table.get_of_perm (List.perm_insertionSort _ d.rows) k

lemma Postgres.upsertDeltas_sorted_balanceAt (pg : Postgres) (d : Deltas) (k : String × String) :
    (pg.upsertDeltas d.sorted).balanceAt k = (settleOpt (d.get k) (pg.balances.get k)).getD ⟨0,0⟩ := by
  rw [Postgres.balanceAt, Postgres.upsertDeltas_get, Deltas.get_sorted]

lemma Postgres.persistTrades_balanceAt (pg : Postgres) {ts : List Trade} {d : Deltas} (hd : balanceDeltas ts = .ok d) :
    ∃ pg', pg.persistTrades ts = .ok pg' ∧ ∀ k, pg'.balanceAt k = (pg.upsertDeltas d.sorted).balanceAt k := by
  unfold Postgres.persistTrades
  rw [hd]
  refine ⟨_,rfl,fun k => ?_⟩
  rw [Postgres.upsertDeltas_sorted_balanceAt, Postgres.balanceAt, Postgres.upsertDeltas_get]
  rfl

lemma Postgres.processPersistBatch_balanceAt (pg : Postgres) {jobs : List PersistJob} {d : Deltas}
    (hd : balanceDeltas (jobs.flatMap Matched.trades) = .ok d) (hkeep : ∀ job ∈ jobs, ¬ job.order.NeedsRelease) :
    ∃ pg', pg.processPersistBatch jobs = .ok pg' ∧ ∀ k, pg'.balanceAt k = (pg.upsertDeltas d.sorted).balanceAt k := by
  have hrelease : ∀ pg : Postgres, jobs.foldlM (fun pg job => pg.release job.order) pg = .ok pg := by
    clear hd
    induction jobs with
    | nil => exact fun pg => rfl
    | cons job jobs ih =>
      intro pg
      rw [List.foldlM_cons, Postgres.release, if_neg (hkeep job List.mem_cons_self)]
      exact ih (fun x hx => hkeep x (List.mem_cons_of_mem _ hx)) pg
  rw [Postgres.processPersistBatch_eq pg hd, hrelease]
  refine ⟨_,rfl,fun k => ?_⟩
  rw [Postgres.upsertDeltas_sorted_balanceAt, Postgres.balanceAt]
  exact congrArg (Option.getD · ⟨0,0⟩) (Postgres.upsertDeltas_get (pg.insertTrades (jobs.flatMap Matched.trades)) d k)

/-- The sum of the trades and the trades one by one, in any order, leave the same balances exactly when every row
that is locked below zero and credited by a trade is also debited by one. -/
theorem aggregated_settlement_iff (pg : Postgres) {ts ts' : List Trade} (hperm : ts'.Perm ts)
    (hpair : ∀ t ∈ ts, ∃ pair, parsePairId t.pairId = .ok pair) (hprice : ∀ t ∈ ts, 0 ≤ t.price)
    (hqty : ∀ t ∈ ts, 0 < t.quantity) :
    ∃ d pg₁ pg₂, balanceDeltas ts = .ok d ∧ pg.persistTrades ts = .ok pg₁ ∧
      (∀ k, pg₁.balanceAt k = (pg.upsertDeltas d.sorted).balanceAt k) ∧
      (∀ jobs : List PersistJob, jobs.flatMap Matched.trades = ts → (∀ job ∈ jobs, ¬ job.order.NeedsRelease) →
        ∃ pg', pg.processPersistBatch jobs = .ok pg' ∧ ∀ k, pg'.balanceAt k = (pg.upsertDeltas d.sorted).balanceAt k) ∧
      ts'.foldlM Postgres.settleTradeBalances pg = .ok pg₂ ∧
      ((∀ k, (pg.upsertDeltas d.sorted).balanceAt k = pg₂.balanceAt k) ↔
        ∀ k, (pg.balanceAt k).locked < 0 → (∃ t ∈ ts, t.Credits k) → ∃ t ∈ ts, t.Debits k) := by
  have hvalid : ∀ t ∈ ts, 0 ≤ t.price ∧ 0 ≤ t.quantity := fun t ht => ⟨hprice t ht,(hqty t ht).le⟩
  obtain ⟨d,hd,hget⟩ := foldlM_addTradeDeltas_movesAt hpair Table.empty
  obtain ⟨pg₁,hpersist,hb₁⟩ := pg.persistTrades_balanceAt hd
  obtain ⟨pg₂,hseq,hb₂⟩ := pg.foldlM_settleTradeBalances (fun t ht => hpair t (hperm.mem_iff.mp ht))
    (fun t ht => hvalid t (hperm.mem_iff.mp ht))
  refine ⟨d,pg₁,pg₂,hd,hpersist,hb₁,?_,hseq,forall_congr' fun k => ?_⟩
  · rintro jobs rfl hkeep
    exact pg.processPersistBatch_balanceAt hd hkeep
  have hnonneg : ∀ m ∈ ts.flatMap (fun t => t.movesAt k), 0 ≤ m.amount := by
    intro m hm
    obtain ⟨t,ht,hm⟩ := List.mem_flatMap.mp hm
    exact Trade.movesAt_nonneg (hvalid t ht).1 (hvalid t ht).2 m hm
  have hdebits : (ts.flatMap (fun t => t.movesAt k)).any RowMove.isDebit = true ↔ ∃ t ∈ ts, t.Debits k := by
    simp only [List.any_eq_true, List.mem_flatMap, ← Trade.exists_debit_iff]
    grind
  have hdelta : d.get k = totalDelta (ts.flatMap (fun t => t.movesAt k)) := by
    rw [hget k, Table.get_empty, Option.merge_none_left]
  rw [Postgres.upsertDeltas_sorted_balanceAt, hb₂ k, foldl_apply_perm (hperm.flatMap_right _) hnonneg, hdelta,
    Postgres.balanceAt, settleOpt_eq_foldl_apply_iff hnonneg, hdebits]
  refine forall_congr' fun _ => ⟨fun h => ?_,fun h hmoved => ?_⟩
  · rintro ⟨t,ht,hcredits⟩
    obtain ⟨m,hm,_⟩ := Trade.exists_credit_iff.mpr hcredits
    exact h (List.ne_nil_of_mem (List.mem_flatMap.mpr ⟨t,ht,hm⟩))
  · obtain ⟨m,hm⟩ := List.exists_mem_of_ne_nil _ hmoved
    obtain ⟨t,ht,hm⟩ := List.mem_flatMap.mp hm
    cases hdebit : m.isDebit with
    | true => exact ⟨t,ht,Trade.exists_debit_iff.mp ⟨m,hm,hdebit⟩⟩
    | false => exact h ⟨t,ht,Trade.exists_credit_iff.mp ⟨m,hm,hdebit⟩⟩

/-- Bob buys from Alice at 100. -/
def bobBuys (id : Uuid) (quantity : Decimal) : Trade := ⟨id,"BTC-USDT",1,2,"bob","alice",100,quantity⟩

/-- Both hold 100 bitcoin and a million dollars, with part of it locked. -/
def inFlight : Postgres :=
  { Postgres.empty with balances :=
      ⟨[(("bob","BTC"),⟨100,5⟩),(("bob","USDT"),⟨1000000,50000⟩),(("alice","BTC"),⟨100,5⟩),
        (("alice","USDT"),⟨1000000,50000⟩)],by decide⟩ }

/-- Two trades of the same users, one by one in the other order. -/
theorem two_trades_settle_alike : ∃ d pg₂, balanceDeltas [bobBuys 1 1,bobBuys 2 2] = .ok d ∧
    [bobBuys 2 2,bobBuys 1 1].foldlM Postgres.settleTradeBalances inFlight = .ok pg₂ ∧
    (inFlight.upsertDeltas d.sorted).balanceAt ("bob","BTC") = ⟨103,5⟩ ∧
    ∀ k, (inFlight.upsertDeltas d.sorted).balanceAt k = pg₂.balanceAt k := by
  have hlocked : ∀ k, 0 ≤ (inFlight.balanceAt k).locked := by
    intro k
    have hrows : ∀ r ∈ inFlight.balances.rows, 0 ≤ r.2.locked := by decide +kernel
    unfold Postgres.balanceAt
    cases hk : inFlight.balances.get k with
    | none => exact le_refl _
    | some b => exact hrows (k,b) (Table.mem_of_get hk)
  have hbob : (balanceDeltas [bobBuys 1 1,bobBuys 2 2]).toOption.map
      (fun d => (inFlight.upsertDeltas d.sorted).balanceAt ("bob","BTC")) = some ⟨103,5⟩ := by decide +kernel
  obtain ⟨d,_,pg₂,hd,_,_,_,hseq,hiff⟩ := aggregated_settlement_iff inFlight (List.Perm.swap (bobBuys 1 1) (bobBuys 2 2) [])
    (by
      intro t ht
      rcases List.mem_pair.mp ht with rfl | rfl <;> exact ⟨("BTC","USDT"),by decide +kernel⟩)
    (by decide +kernel) (by decide +kernel)
  rw [hd] at hbob
  exact ⟨d,pg₂,hd,hseq,Option.some_injective _ hbob,hiff.mpr fun k hneg => absurd (hlocked k) (not_le.mpr hneg)⟩

/-- Bob's bitcoin row is locked below zero. -/
def overdrawn : Postgres := { Postgres.empty with balances := ⟨[(("bob","BTC"),⟨0,-1⟩)],by decide⟩ }

/-- The trade credits the row only: alone it leaves the locked amount, aggregated it clamps it. -/
theorem credit_clamps_overdrawn : (balanceDeltas [bobBuys 1 1]).toOption.map
      (fun d => (overdrawn.upsertDeltas d.sorted).balanceAt ("bob","BTC")) = some ⟨1,0⟩ ∧
    ([bobBuys 1 1].foldlM Postgres.settleTradeBalances overdrawn).toOption.map (Postgres.balanceAt · ("bob","BTC")) =
      some ⟨1,-1⟩ := ⟨by decide +kernel,by decide +kernel⟩

end MatchingEngine

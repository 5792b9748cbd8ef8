import MatchingEngine.BatchBalances

/-! Columns of limited width. An `INSERT` of a text that is too long for its column fails, and with it
what depends on it: a batch as a whole, and of single jobs only the one it is in. -/
namespace MatchingEngine
open Library

namespace Columns

/-- A text on its way into a `VARCHAR(n)` column: blanks beyond the limit are cut off, anything else
there is refused, and so is a NUL anywhere. -/
def varchar (n : ℕ) (s : String) : Except String String :=
  if Char.ofNat 0 ∈ s.toList then .error "invalid byte sequence for encoding UTF8: 0x00"
  else if (s.toList.drop n).all (fun c => c = ' ') then .ok (String.ofList (s.toList.take n))
  else .error ("value too long for type character varying(" ++ toString n ++ ")")

/-- The row of `orders` as the columns take it. -/
def orderRow (o : Order) : Except String Order := do
  let userId ← varchar 50 o.userId
  let pairId ← varchar 20 o.pairId
  let clientOrderId ← match o.clientOrderId with
    | none => .ok none
    | some c => (varchar 64 c).map some
  return { o with userId := userId, pairId := pairId, clientOrderId := clientOrderId }

/-- The row of `trades`. -/
def tradeRow (t : Trade) : Except String Trade := do
  let pairId ← varchar 20 t.pairId
  let buyerId ← varchar 50 t.buyerId
  let sellerId ← varchar 50 t.sellerId
  return { t with pairId := pairId, buyerId := buyerId, sellerId := sellerId }

/-- The key of a row of `balances`. -/
def balanceKey (k : String × String) : Except String (String × String) := do
  let userId ← varchar 50 k.1
  let asset ← varchar 10 k.2
  return (userId,asset)

def insertOrder (pg : Postgres) (o : Order) : Except String Postgres := (orderRow o).map pg.insertOrder

def insertTrades (pg : Postgres) (ts : List Trade) : Except String Postgres := (ts.mapM tradeRow).map pg.insertTrades

def upsertDeltas (pg : Postgres) (d : Deltas) : Except String Postgres :=
  d.rows.foldlM (fun pg r => do
    let k ← balanceKey r.1
    return { pg with balances := pg.balances.upsert k ⟨r.2.2,0⟩ (settleRow r.2) }) pg

/-- `persist_trades`, rolled back on an error. -/
def persistTrades (pg : Postgres) (trades : List Trade) : Except String Postgres := do
  let pg ← insertTrades pg trades
  let deltas ← balanceDeltas trades
  upsertDeltas pg deltas

/-- `process_persist_job`. -/
def processPersistJob (pg : Postgres) (job : PersistJob) : Except String Unit × Postgres :=
  match insertOrder pg job.order with
  | .error e => (.error e,pg)
  | .ok pg =>
    match persistTrades pg job.trades with
    | .error e => (.error e,pg)
    | .ok pg =>
      let pg := pg.updateRestingOrdersAfterLua job.luaTrades
      let pg := pg.updateOrder job.order.id (finishRow job.order)
      match pg.release job.order with
      | .error e => (.error e,pg)
      | .ok pg => (.ok (),pg)

/-- `process_persist_batch`. -/
def processPersistBatch (pg : Postgres) (batch : List PersistJob) : Except String Postgres := do
  let pg ← batch.foldlM (fun pg job => insertOrder pg job.order) pg
  let trades := batch.flatMap Matched.trades
  let pg ← insertTrades pg trades
  let deltas ← balanceDeltas trades
  let pg ← upsertDeltas pg deltas
  let pg := batch.foldl (fun pg job => pg.updateRestingOrdersAfterLua job.luaTrades) pg
  let pg := batch.foldl (fun pg job => pg.updateOrder job.order.id (finishRow job.order)) pg
  batch.foldlM (fun pg job => pg.release job.order) pg

/-- The jobs one by one; an error stops only its own job. -/
def processJobs (pg : Postgres) (jobs : List PersistJob) : Postgres := jobs.foldl (fun pg job => (processPersistJob pg job).2) pg

/-- The batch, rolled back on an error. -/
def processBatch (pg : Postgres) (jobs : List PersistJob) : Postgres := (processPersistBatch pg jobs).toOption.getD pg

/-! ### Texts that fit -/

/-- A text that a column takes as it is. -/
def Fits (n : ℕ) (s : String) : Prop := s.length ≤ n ∧ Char.ofNat 0 ∉ s.toList

instance (n : ℕ) (s : String) : Decidable (Fits n s) := inferInstanceAs (Decidable (_ ∧ _))

lemma varchar_of_fits {n : ℕ} {s : String} (h : Fits n s) : varchar n s = .ok s := by
  have hlen : s.toList.length ≤ n := h.1
  rw [varchar, if_neg h.2, List.drop_of_length_le hlen, List.take_of_length_le hlen, String.ofList_toList]
  rfl

end Columns

open Columns

/-- The columns take the texts of the order. -/
structure Order.FitsColumns (o : Order) : Prop where
  user : Fits 50 o.userId
  pair : Fits 20 o.pairId
  client : ∀ c ∈ o.clientOrderId, Fits 64 c

/-- The columns take the texts of the trade, and so do those of the balances it settles on. -/
structure Trade.FitsColumns (t : Trade) : Prop where
  pair : Fits 20 t.pairId
  buyer : Fits 50 t.buyerId
  seller : Fits 50 t.sellerId
  assets : ∀ p ∈ (parsePairId t.pairId).toOption, Fits 10 p.1 ∧ Fits 10 p.2

structure Matched.FitsColumns (job : Matched) : Prop where
  order : job.order.FitsColumns
  trades : ∀ t ∈ job.trades, t.FitsColumns

instance (o : Order) : Decidable o.FitsColumns :=
  decidable_of_iff (Fits 50 o.userId ∧ Fits 20 o.pairId ∧ ∀ c ∈ o.clientOrderId, Fits 64 c)
    ⟨fun h => ⟨h.1,h.2.1,h.2.2⟩,fun h => ⟨h.user,h.pair,h.client⟩⟩

instance (t : Trade) : Decidable t.FitsColumns :=
  decidable_of_iff (Fits 20 t.pairId ∧ Fits 50 t.buyerId ∧ Fits 50 t.sellerId ∧
    ∀ p ∈ (parsePairId t.pairId).toOption, Fits 10 p.1 ∧ Fits 10 p.2)
    ⟨fun h => ⟨h.1,h.2.1,h.2.2.1,h.2.2.2⟩,fun h => ⟨h.pair,h.buyer,h.seller,h.assets⟩⟩

instance (job : Matched) : Decidable job.FitsColumns :=
  decidable_of_iff (job.order.FitsColumns ∧ ∀ t ∈ job.trades, t.FitsColumns) ⟨fun h => ⟨h.1,h.2⟩,fun h => ⟨h.order,h.trades⟩⟩

lemma Order.FitsColumns.orderRow_eq {o : Order} (h : o.FitsColumns) : orderRow o = .ok o := by
  unfold orderRow
  rw [varchar_of_fits h.user, varchar_of_fits h.pair]
  cases hc : o.clientOrderId with
  | none =>
    simp only [bind, Except.bind, pure, Except.pure, ← hc]
  | some c =>
    simp only [varchar_of_fits (h.client c hc), bind, Except.bind, pure, Except.pure, Except.map, ← hc]

lemma Trade.FitsColumns.tradeRow_eq {t : Trade} (h : t.FitsColumns) : tradeRow t = .ok t := by
  unfold tradeRow
  rw [varchar_of_fits h.pair, varchar_of_fits h.buyer, varchar_of_fits h.seller]
  rfl

lemma balanceKey_of_fits {k : String × String} (huser : Fits 50 k.1) (hasset : Fits 10 k.2) : balanceKey k = .ok k := by
  unfold balanceKey
  rw [varchar_of_fits huser, varchar_of_fits hasset]
  rfl

lemma mapM_tradeRow {ts : List Trade} (h : ∀ t ∈ ts, t.FitsColumns) : ts.mapM tradeRow = .ok ts := by
  induction ts with
  | nil => rfl
  | cons t ts ih =>
    obtain ⟨ht,hts⟩ := List.forall_mem_cons.mp h
    rw [List.mapM_cons, ht.tradeRow_eq, ih hts]
    rfl

lemma balanceDeltas_fit {ts : List Trade} {d : Deltas} (hts : ∀ t ∈ ts, t.FitsColumns) (h : balanceDeltas ts = .ok d) :
    ∀ r ∈ d.rows, Fits 50 r.1.1 ∧ Fits 10 r.1.2 := by
  have hadd : ∀ (d : Deltas) (k : String × String) (x : Decimal × Decimal), Fits 50 k.1 ∧ Fits 10 k.2 →
      (∀ k', (d.get k').isSome → Fits 50 k'.1 ∧ Fits 10 k'.2) → ∀ k', ((d.add k x).get k').isSome → Fits 50 k'.1 ∧ Fits 10 k'.2 := by
    intro d k x hk hd k' hsome
    rw [Deltas.get_add] at hsome
    split_ifs at hsome with he
    · exact he ▸ hk
    · exact hd k' hsome
  have hkeys : ∀ k, (Table.get d k).isSome → Fits 50 k.1 ∧ Fits 10 k.2 := by
    refine foldlM_invariant (P := fun d => ∀ k, (Table.get d k).isSome → Fits 50 k.1 ∧ Fits 10 k.2) (fun t ht d d' hd h0 => ?_) h
      (by simp)
    obtain ⟨base,quote,hpair,rfl⟩ := addTradeDeltas_ok hd
    obtain ⟨_,hbuyer,hseller,hassets⟩ := hts t ht
    obtain ⟨hbase,hquote⟩ := hassets (base,quote) (by rw [hpair]; rfl)
    exact hadd _ _ _ ⟨hseller,hquote⟩ (hadd _ _ _ ⟨hseller,hbase⟩ (hadd _ _ _ ⟨hbuyer,hbase⟩ (hadd _ _ _ ⟨hbuyer,hquote⟩ h0)))
  intro r hr
  exact hkeys r.1 (by rw [Table.get_of_mem hr]; rfl)

section Fit
variable (pg : Postgres)

lemma Columns.insertOrder_eq {o : Order} (h : o.FitsColumns) : insertOrder pg o = .ok (pg.insertOrder o) := by
  rw [Columns.insertOrder, h.orderRow_eq]
  rfl

lemma Columns.upsertDeltas_eq {d : Deltas} (h : ∀ r ∈ d.rows, Fits 50 r.1.1 ∧ Fits 10 r.1.2) :
    upsertDeltas pg d = .ok (pg.upsertDeltas d) := by
  unfold Columns.upsertDeltas Postgres.upsertDeltas
  generalize d.rows = rows at h
  induction rows generalizing pg with
  | nil => rfl
  | cons r rows ih =>
    obtain ⟨hr,hrows⟩ := List.forall_mem_cons.mp h
    rw [List.foldlM_cons, balanceKey_of_fits hr.1 hr.2]
    exact ih _ hrows

lemma Columns.persistTrades_eq {ts : List Trade} (h : ∀ t ∈ ts, t.FitsColumns) :
    Columns.persistTrades pg ts = pg.persistTrades ts := by
  unfold Columns.persistTrades Postgres.persistTrades
  rw [Columns.insertTrades, mapM_tradeRow h]
  cases hd : balanceDeltas ts with
  | error e => rfl
  | ok d => exact Columns.upsertDeltas_eq _ (balanceDeltas_fit h hd)

lemma Columns.processPersistJob_eq {job : PersistJob} (h : job.FitsColumns) :
    Columns.processPersistJob pg job = pg.processPersistJob job := by
  unfold Columns.processPersistJob
  rw [Columns.insertOrder_eq pg h.order]
  dsimp only
  rw [Columns.persistTrades_eq _ h.trades]
  rfl

lemma Columns.processPersistBatch_eq {jobs : List PersistJob} (h : ∀ job ∈ jobs, job.FitsColumns) :
    Columns.processPersistBatch pg jobs = pg.processPersistBatch jobs := by
  have hinsert : jobs.foldlM (fun pg job => insertOrder pg job.order) pg =
      .ok (jobs.foldl (fun pg job => pg.insertOrder job.order) pg) := by
    induction jobs generalizing pg with
    | nil => rfl
    | cons job jobs ih =>
      obtain ⟨hjob,hjobs⟩ := List.forall_mem_cons.mp h
      rw [List.foldlM_cons, Columns.insertOrder_eq pg hjob.order]
      exact ih _ hjobs
  have htrades : ∀ t ∈ jobs.flatMap Matched.trades, t.FitsColumns := by
    intro t ht
    obtain ⟨job,hjob,ht⟩ := List.mem_flatMap.mp ht
    exact (h job hjob).trades t ht
  unfold Columns.processPersistBatch Postgres.processPersistBatch
  rw [hinsert]
  simp only [bind, Except.bind, Columns.insertTrades, mapM_tradeRow htrades, Except.map]
  cases hd : balanceDeltas (jobs.flatMap Matched.trades) with
  | error e => rfl
  | ok d => simp only [Columns.upsertDeltas_eq _ (balanceDeltas_fit htrades hd)]

end Fit

/-! ### Texts that are refused -/

/-- A column refuses a text of the job. -/
def Matched.Refused (job : Matched) : Prop :=
  (orderRow job.order).toOption = none ∨ ∃ t ∈ job.trades, (tradeRow t).toOption = none ∨
    ∃ p ∈ (parsePairId t.pairId).toOption, (varchar 10 p.1).toOption = none ∨ (varchar 10 p.2).toOption = none

section Refused

lemma eq_ok_of_mem_toOption {α : Type*} {x : Except String α} {a : α} (h : a ∈ x.toOption) : x = .ok a := by
  cases x with
  | error e => cases h
  | ok b => exact congrArg Except.ok (Option.some.inj h)

end Refused

end MatchingEngine

import MatchingEngine.Gateway

/-! Conservation of assets in the `balances` table. A settlement moves value between rows by
four entries per trade; value appears where `GREATEST` cuts a debit short and disappears
where the credited row does not exist. -/
namespace MatchingEngine
open Library

/-- Available plus locked over all users. -/
def Postgres.total (pg : Postgres) (asset : String) : Decimal :=
  pg.balances.sum (fun k b => if k.2 = asset then b.available + b.locked else 0)

/-- A settlement entry lands in full: its row holds what is taken from `locked`, or there is
no row and the entry is balanced in itself. -/
def Postgres.Settles (pg : Postgres) (k : String × String) (d : Decimal × Decimal) : Prop :=
  match pg.balances.get k with
  | none => d.2 = d.1
  | some b => d.1 ≤ b.locked

instance (pg : Postgres) (k : String × String) (d : Decimal × Decimal) : Decidable (pg.Settles k d) :=
  match h : pg.balances.get k with
  | none => decidable_of_iff (d.2 = d.1) (by simp [Postgres.Settles, h])
  | some b => decidable_of_iff (d.1 ≤ b.locked) (by simp [Postgres.Settles, h])

/-- The rows a persist touches cover what it takes from them: the aggregated debits of the
trades, and after them the reservation given back. -/
def Postgres.Covers (pg : Postgres) (m : Matched) : Prop :=
  ∀ deltas ∈ (balanceDeltas m.trades).toOption, (∀ r ∈ deltas.rows, pg.Settles r.1 r.2) ∧
    (m.order.NeedsRelease → ∀ r ∈ (releaseParams m.order).toOption, ∀ b ∈ pg.balances.get (m.order.userId,r.1),
      r.2 + ((deltas.get (m.order.userId,r.1)).elim 0 Prod.fst) ≤ b.locked)

instance (pg : Postgres) (m : Matched) : Decidable (pg.Covers m) :=
  inferInstanceAs (Decidable (∀ deltas ∈ (balanceDeltas m.trades).toOption, _ ∧ (_ → _)))

/-! ### The settlement map is balanced -/

/-- Net effect of the map on an asset, were every entry to land in full. -/
def Deltas.net (d : Deltas) (asset : String) : Decimal := d.sum (fun k x => if k.2 = asset then x.2 - x.1 else 0)

lemma Deltas.net_add (d : Deltas) (asset : String) (k : String × String) (x : Decimal × Decimal) :
    (d.add k x).net asset = d.net asset + if k.2 = asset then x.2 - x.1 else 0 := by
  rw [Deltas.net, Deltas.add, Table.sum_upsert, ← Deltas.net]
  congr 1
  cases d.get k with
  | none => rfl
  | some y =>
    simp only [Option.elim_some, Prod.fst_add, Prod.snd_add]
    split_ifs <;> ring

lemma Deltas.net_addTrade (d : Deltas) (t : Trade) (base quote asset : String) :
    (d.addTrade t base quote).net asset = d.net asset := by
  unfold Deltas.addTrade
  rw [Deltas.net_add, Deltas.net_add, Deltas.net_add, Deltas.net_add]
  simp only
  split_ifs <;> ring

theorem balanceDeltas_net {ts : List Trade} {d : Deltas} (h : balanceDeltas ts = .ok d) (asset : String) :
    d.net asset = 0 := by
  refine foldlM_invariant (P := fun d => Deltas.net d asset = 0) (fun t _ d d' hd h0 => ?_) h rfl
  obtain ⟨base,quote,_,rfl⟩ := addTradeDeltas_ok hd
  rw [Deltas.net_addTrade, h0]

/-! ### One persist -/

lemma sum_settle {b : Table (String × String) Balance} {d : Deltas} (asset : String)
    (hcov : ∀ r ∈ d.rows, ∀ a, b.get r.1 = some a → r.2.1 ≤ a.locked)
    (hmiss : ∀ r ∈ d.rows, b.get r.1 = none → r.2.2 = r.2.1) :
    (b.updateFrom d.rows settleRow).sum (fun k x => if k.2 = asset then x.available + x.locked else 0) =
      b.sum (fun k x => if k.2 = asset then x.available + x.locked else 0) + d.net asset := by
  rw [Table.sum_updateFrom _ _ d.nodup]
  congr 1
  refine congrArg List.sum (List.map_congr_left (fun r hr => ?_))
  cases hb : b.get r.1 with
  | none =>
    have := hmiss r hr hb
    simp [this]
  | some a =>
    have hle := hcov r hr a hb
    have hmax : max (a.locked - r.2.1) 0 = a.locked - r.2.1 := max_eq_left (sub_nonneg.mpr hle)
    simp only [Option.elim_some, settleRow, hmax]
    split_ifs <;> ring

lemma locked_after_settle {b : Table (String × String) Balance} {d : Deltas} {k : String × String} {a : Balance}
    (h : b.get k = some a) (hcov : ∀ r ∈ d.rows, ∀ a, b.get r.1 = some a → r.2.1 ≤ a.locked) :
    ∃ a', (b.updateFrom d.rows settleRow).get k = some a' ∧ a'.locked = a.locked - (d.get k).elim 0 Prod.fst := by
  rw [Table.get_updateFrom, h, Option.map_some]
  refine ⟨_,rfl,?_⟩
  change ((d.get k).elim a (fun x => settleRow x a)).locked = _
  cases hd : d.get k with
  | none => simp
  | some x =>
    have hle := hcov (k,x) (Table.mem_of_get hd) a h
    exact max_eq_left (sub_nonneg.mpr hle)

/-- A covered persist keeps every total. -/
theorem persistOrder_total {pg pg' : Postgres} {m : Matched} (h : pg.persistOrder m = .ok pg') (hc : pg.Covers m)
    (asset : String) : pg'.total asset = pg.total asset := by
  obtain ⟨deltas,hd,_,_,hb⟩ := Postgres.persistOrder_ok h
  obtain ⟨htrades,hrelease⟩ := hc deltas (by rw [hd]; rfl)
  have hcov : ∀ r ∈ deltas.rows, ∀ a, pg.balances.get r.1 = some a → r.2.1 ≤ a.locked := by
    intro r hr a ha
    have := htrades r hr
    rwa [Postgres.Settles, ha] at this
  have hmiss : ∀ r ∈ deltas.rows, pg.balances.get r.1 = none → r.2.2 = r.2.1 := by
    intro r hr hn
    have := htrades r hr
    rwa [Postgres.Settles, hn] at this
  have hsettle := sum_settle asset hcov hmiss
  rw [balanceDeltas_net hd, add_zero] at hsettle
  rcases hb with ⟨_,hb⟩ | ⟨hn,a,amount,hp,hb⟩
  · rw [Postgres.total, hb, hsettle, Postgres.total]
  · rw [Postgres.total, hb, Table.sum_modify, hsettle, Postgres.total, add_eq_left]
    cases hrow : pg.balances.get (m.order.userId,a) with
    | none => simp [hrow]
    | some b =>
      obtain ⟨b',hb',hlocked⟩ := locked_after_settle hrow hcov
      have hle := hrelease hn (a,amount) (by rw [hp]; rfl) b hrow
      have hmax : max (b'.locked - amount) 0 = b'.locked - amount := max_eq_left (by rw [hlocked]; linarith)
      rw [hb']
      simp only [Option.elim_some, releaseRow, hmax]
      split_ifs <;> ring

/-- Limit orders, each persist of which is covered in the state it meets. -/
def Gateway.CoveredLimit (pairs : PairsCache) (s : System) (msg : QueuedOrderMsg) (d : Draws) : Prop :=
  (∀ o ∈ (acceptOrder pairs msg d).toOption, o.orderType = .limit) ∧
    ∀ m ∈ persisted pairs s msg d, s.pg.Covers m

instance (pairs : PairsCache) (s : System) (msg : QueuedOrderMsg) (d : Draws) :
    Decidable (Gateway.CoveredLimit pairs s msg d) := inferInstanceAs (Decidable (_ ∧ _))

/-- In every run of limit orders from seeded balances whose persists are all covered, the sum
of available and locked amounts of every asset stays what it was. -/
theorem gateway_conserves_assets {pairs : PairsCache} {db : Valkey} {pg : Postgres} {s : System}
    (h : Relation.ReflTransGen (Gateway.Step pairs (Gateway.CoveredLimit pairs)) ⟨initBalancesFromPg db pg,pg⟩ s)
    (asset : String) : s.pg.total asset = pg.total asset := by
  induction h with
  | refl => rfl
  | tail _ hstep ih =>
    obtain ⟨msg,d,hadm,rfl⟩ := hstep
    rcases Gateway.processOrder_pg pairs _ msg d with hsame | ⟨m,hm,hp⟩
    · rw [hsame, ih]
    · rw [persistOrder_total hp (hadm.2 m hm), ih]

/-- Alice owns bitcoin, Bob owns dollars, with the given locked amounts in the table. -/
def tradersPg (lockedBtc lockedUsdt : Decimal) : Postgres where
  orders := Table.empty
  trades := Table.empty
  balances := ⟨[(("alice","BTC"),⟨1,lockedBtc⟩),(("alice","USDT"),⟨0,0⟩),(("bob","BTC"),⟨0,0⟩),
    (("bob","USDT"),⟨100,lockedUsdt⟩)],by simp⟩

/-- Alice sells one bitcoin for a hundred, then Bob buys it. -/
def oneTrade (pg : Postgres) : System :=
  let s := ⟨initBalancesFromPg Valkey.empty pg,pg⟩
  let s := (Gateway.processOrder btcUsdt s (limitMsg 1 "alice" .sell 100 1) ⟨0,fun _ => 10,0⟩).2
  (Gateway.processOrder btcUsdt s (limitMsg 2 "bob" .buy 100 1) ⟨0,fun _ => 20,0⟩).2

/-- With the reservations already in the table, the trade moves them and conserves both. -/
theorem one_trade_conserves : (oneTrade (tradersPg 1 100)).pg.balances.get ("bob","BTC") = some ⟨1,0⟩ ∧
    (oneTrade (tradersPg 1 100)).pg.total "BTC" = (tradersPg 1 100).total "BTC" := by
  refine ⟨by decide +kernel,gateway_conserves_assets
    ((Relation.ReflTransGen.refl.tail ⟨_,_,?_,rfl⟩).tail ⟨_,_,?_,rfl⟩) "BTC"⟩
  all_goals decide +kernel

/-- Without them the table never learns of the reservation, and the seller keeps what the
buyer receives. -/
theorem one_trade_creates_asset : ∃ (pairs : PairsCache) (db : Valkey) (pg : Postgres) (s : System),
    Relation.ReflTransGen (Gateway.Step pairs (fun _ msg d =>
      ∀ o ∈ (Gateway.acceptOrder pairs msg d).toOption, o.orderType = .limit)) ⟨initBalancesFromPg db pg,pg⟩ s ∧
    s.pg.total "BTC" ≠ pg.total "BTC" := by
  refine ⟨btcUsdt,Valkey.empty,tradersPg 0 0,oneTrade (tradersPg 0 0),
    (Relation.ReflTransGen.refl.tail ⟨_,_,?_,rfl⟩).tail ⟨_,_,?_,rfl⟩,?_⟩
  all_goals decide +kernel

end MatchingEngine

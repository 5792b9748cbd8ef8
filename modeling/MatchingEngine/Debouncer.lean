import MatchingEngine.PublishedBook
import MatchingEngine.Isolation
import MatchingEngine.PersistEquivalence
import MatchingEngine.Library.Coalescing

/-! The debounced order book of the api worker. Here an order does not publish the book itself: it
signals the rebuild task of its pair, which reads and publishes the book once for all signals of a
short while. Only orders signal, and only when they trade or come to rest. -/
namespace MatchingEngine
open Library

/-- `PAIRS`, each with a rebuild task of its own. -/
def debouncedPair : Fin 3 → String := !["BTC-USDT","ETH-USDT","SOL-USDT"]

def MetricsBatch.pairIndex (pairId : String) : Fin 3 :=
  match pairId with
  | "BTC-USDT" => 0
  | "ETH-USDT" => 1
  | "SOL-USDT" => 2
  | _ => 0

/-- The bids and asks that `rebuild_orderbook_cache` reads. -/
def rebuildOrderbookCache (i : Fin 3) (db : Valkey) : List (Decimal × Decimal) × List (Decimal × Decimal) :=
  db.orderbookSnapshotLua (debouncedPair i) 50

/-- The store, the orders that are past the script and have still to signal, and the rebuild tasks. -/
abbrev Debounced := Coalescing Valkey (Fin 3) (List (Decimal × Decimal) × List (Decimal × Decimal))

/-- `process_queued_order` signals when the order traded or rests. -/
def Api.marksDirty : Option PersistJob → Bool
  | none => false
  | some job => job.trades ≠ [] || (job.order.status = .new || job.order.status = .partiallyFilled)

/-- An order runs the script, and the reply reaches its task or is lost; an order is taken off its book
for a cancellation; a hash expires; an order signals; a rebuild task makes a step, or fails. -/
inductive Debounced.Event
  | request (msg : QueuedOrderMsg) (d : Draws) (delivered : Bool)
  | cancel (order : Order)
  | expire (id : Uuid)
  | markDirty (i : Fin 3)
  | advance (i : Fin 3)
  | fail (i : Fin 3)

def Debounced.Event.action (pairs : PairsCache) (db : Valkey) : Debounced.Event → Coalescing.Action Valkey (Fin 3)
  | .request msg d delivered => .change (Api.processQueuedOrder pairs db msg d).2
      (if delivered && Api.marksDirty (Api.persistJob pairs db msg d) then some (MetricsBatch.pairIndex msg.pairId) else none)
  | .cancel order => .change (db.removeOrderFromBook order) none
  | .expire id => .change (db.del id) none
  | .markDirty i => .signal i
  | .advance i => .advance i
  | .fail i => .abandon i

namespace Debounced

def next (pairs : PairsCache) (c : Debounced) (e : Event) : Debounced := c.step rebuildOrderbookCache (e.action pairs c.source)

/-- What the events do, each to the store that it meets. -/
def actions (pairs : PairsCache) : Debounced → List Event → List (Coalescing.Action Valkey (Fin 3))
  | _, [] => []
  | c, e :: es => e.action pairs c.source :: actions pairs (c.next pairs e) es

def run (pairs : PairsCache) (c : Debounced) (es : List Event) : Debounced := es.foldl (next pairs) c

/-- A condition on each event of a run and the store that it meets. -/
def Along (pairs : PairsCache) (P : Valkey → Event → Prop) : Debounced → List Event → Prop
  | _, [] => True
  | c, e :: es => P c.source e ∧ Along pairs P (c.next pairs e) es

lemma run_eq (pairs : PairsCache) (c : Debounced) (es : List Event) :
    c.run pairs es = Coalescing.run rebuildOrderbookCache c (c.actions pairs es) := by
  induction es generalizing c with
  | nil => rfl
  | cons e es ih => exact ih (c.next pairs e)

lemma run_append (pairs : PairsCache) (c : Debounced) (es es' : List Event) :
    c.run pairs (es ++ es') = (c.run pairs es).run pairs es' := List.foldl_append

end Debounced

/-! ### A request -/

/-- A request that got through the script. -/
structure Api.Runs (pairs : PairsCache) (db : Valkey) (msg : QueuedOrderMsg) (d : Draws) (o : Order) (asset : String)
    (amount : ℤ) (db₁ : Valkey) : Prop where
  parsed : Api.parseOrder msg d.now = .ok o
  valid : validateOrder pairs o = .ok ()
  lock : lockParams o = .ok (asset,amount)
  tif : o.tif ≠ .fok
  funded : lockBalance db (matchArgs o asset amount) = some db₁

section Request
variable {pairs : PairsCache} {db : Valkey} {msg : QueuedOrderMsg} {d : Draws}

lemma parseFields_pairId {orderId : Uuid} {tif : String} {now : ℤ} {o : Order} (h : parseFields msg orderId tif now = .ok o) :
    o.pairId = msg.pairId := by
  unfold parseFields at h
  obtain ⟨side,_,h⟩ := exists_of_bind_ok h
  obtain ⟨orderType,_,h⟩ := exists_of_bind_ok h
  cases hq : msg.quantity with
  | value q =>
    simp only [hq] at h
    exact (congrArg Order.pairId (Except.ok.inj h)).symm
  | malformed text =>
    simp only [hq] at h
    cases h

lemma Api.parseOrder_pairId {now : ℤ} {o : Order} (h : Api.parseOrder msg now = .ok o) : o.pairId = msg.pairId := by
  unfold Api.parseOrder at h
  rcases hid : msg.id with _ | text
  · rw [hid] at h
    cases h
  · rw [hid] at h
    cases text with
    | value orderId => exact parseFields_pairId h
    | malformed text => cases h

/-- A request leaves the store alone, without a job, or gets through the script. -/
lemma Api.processQueuedOrder_cases (pairs : PairsCache) (db : Valkey) (msg : QueuedOrderMsg) (d : Draws) :
    (Api.processQueuedOrder pairs db msg d).2 = db ∧ Api.persistJob pairs db msg d = none ∨
    ∃ o asset amount db₁, Api.Runs pairs db msg d o asset amount db₁ ∧
      (Api.processQueuedOrder pairs db msg d).2 = (matchArgs o asset amount).settle db₁ ((matchArgs o asset amount).planOn db) ∧
      ∃ job, Api.persistJob pairs db msg d = some job ∧
        job.order.status = ((matchArgs o asset amount).planOn db).status (matchArgs o asset amount) ∧
        (job.trades = [] ↔ ((matchArgs o asset amount).planOn db).trades (matchArgs o asset amount) = []) := by
  unfold Api.persistJob Api.processQueuedOrder
  cases hp : Api.parseOrder msg d.now with
  | error e => exact .inl ⟨rfl,rfl⟩
  | ok o =>
    dsimp only
    cases hv : validateOrder pairs o with
    | error e => exact .inl ⟨rfl,rfl⟩
    | ok _ =>
      dsimp only
      cases hl : lockParams o with
      | error e => exact .inl ⟨rfl,rfl⟩
      | ok p =>
        obtain ⟨asset,amount⟩ := p
        dsimp only
        by_cases hf : o.tif = .fok
        · rw [if_pos hf]
          exact .inl ⟨rfl,rfl⟩
        · rw [if_neg hf]
          cases hlock : lockBalance db (matchArgs o asset amount) with
          | none =>
            simp only [matchOrderLua, matchOrderScript_eq, hlock]
            exact .inl ⟨trivial,rfl⟩
          | some db₁ =>
            simp only [matchOrderLua_of_lock hlock]
            refine .inr ⟨o,asset,amount,db₁,⟨hp,hv,hl,hf,hlock⟩,rfl,_,rfl,rfl,?_⟩
            simp [buildTrades, List.mapIdx_eq_nil_iff]

/-- Of the orders that get through the script, those that trade or come to rest signal. -/
lemma Api.marksDirty_iff {o : Order} {asset : String} {amount : ℤ} {job : PersistJob} (hq : 0 ≤ o.qtyI) (htif : o.tif ≠ .fok)
    (hstatus : job.order.status = ((matchArgs o asset amount).planOn db).status (matchArgs o asset amount))
    (htrades : job.trades = [] ↔ ((matchArgs o asset amount).planOn db).trades (matchArgs o asset amount) = []) :
    Api.marksDirty (some job) = true ↔ o.Refreshes db := by
  rw [← not_iff_not, ← skips_iff_not_refreshes asset amount hq htif, ← hstatus, ← htrades]
  simp only [Api.marksDirty, Bool.or_eq_true, decide_eq_true_eq, ne_eq, not_or, not_not]

end Request

/-! ### Pairs -/

/-- A member of a set whose hash is there is an order of that pair. -/
def Valkey.Homed (db : Valkey) : Prop := ∀ pair side, ∀ id ∈ db.book pair side, ∀ h, db.order id = some h → h.pairId = pair

/-- No set and no hash knows the id. -/
def Valkey.Unused (db : Valkey) (id : Uuid) : Prop := db.order id = none ∧ ∀ pair side, id ∉ db.book pair side

lemma Valkey.Represented.homed {db : Valkey} (hr : db.Represented) : db.Homed := by
  intro pair side id hid h ho
  obtain ⟨w,hw,hpair,_⟩ := hr.order_of_mem hid
  rw [hw] at ho
  cases ho
  exact hpair

section Pairs
variable {db : Valkey}

lemma rebuildOrderbookCache_congr {db' : Valkey} {i : Fin 3} (hbook : db'.book (debouncedPair i) = db.book (debouncedPair i))
    (horder : ∀ side, ∀ id ∈ db.book (debouncedPair i) side, db'.order id = db.order id) :
    rebuildOrderbookCache i db' = rebuildOrderbookCache i db := by
  have hside : ∀ side, db'.aggregateSide (debouncedPair i) side 50 = db.aggregateSide (debouncedPair i) side 50 := by
    intro side
    have hhashes : (((db.book (debouncedPair i) side).rangeByScore none).take 50).filterMap db'.order =
        (((db.book (debouncedPair i) side).rangeByScore none).take 50).filterMap db.order := by
      apply List.filterMap_congr
      intro id hid
      obtain ⟨e,he,_,hm⟩ := SortedSet.mem_rangeByScore.mp (List.mem_of_mem_take hid)
      exact horder side id (SortedSet.mem_iff.mpr ⟨e,he,hm⟩)
    unfold Valkey.aggregateSide
    rw [hbook, hhashes]
  unfold rebuildOrderbookCache Valkey.orderbookSnapshotLua Valkey.orderbookSnapshotTexts
  rw [hside, hside]

lemma Valkey.Homed.del (h : db.Homed) (id : Uuid) : (db.del id).Homed := by
  intro pair side x hx w hw
  refine h pair side x hx w ?_
  by_cases hid : x = id
  · simp [Valkey.del, hid] at hw
  · simpa [Valkey.del, hid] using hw

lemma Valkey.Homed.remove (h : db.Homed) (order : Order) : (db.removeOrderFromBook order).Homed := by
  intro pair side x hx w hw
  rw [Valkey.removeOrderFromBook, Valkey.dropOrder_order] at hw
  split_ifs at hw with hid
  refine h pair side x ?_ w hw
  rw [Valkey.removeOrderFromBook, Valkey.dropOrder_book] at hx
  split_ifs at hx with hk
  · obtain ⟨e,he,rfl⟩ := SortedSet.mem_iff.mp hx
    exact SortedSet.mem_iff.mpr ⟨e,(SortedSet.mem_entries_remove.mp he).1,rfl⟩
  · exact hx

section Settle
variable {o : Order} {asset : String} {amount : ℤ} {db₁ : Valkey}

lemma settle_order_pair (hl : lockBalance db (matchArgs o asset amount) = some db₁) {id : Uuid} {w : OrderHash}
    (hw : ((matchArgs o asset amount).settle db₁ ((matchArgs o asset amount).planOn db)).order id = some w) :
    (id = o.id ∧ w.pairId = o.pairId) ∨ ∃ w₀, db.order id = some w₀ ∧ w.pairId = w₀.pairId := by
  rcases settle_order_cases hl hw with ⟨_,hid,rfl⟩ | ⟨v,hv,rfl,hout⟩ | ⟨_,hold⟩
  · exact .inl ⟨hid,rfl⟩
  · obtain ⟨q,_,_,rfl⟩ := Visit.outcome_fields hout
    exact .inr ⟨v.resting.hash,(planOn_visit hv).2.1,rfl⟩
  · exact .inr ⟨w,hold,rfl⟩

lemma Valkey.Homed.settle (h : db.Homed) (hunused : db.Unused o.id) (hl : lockBalance db (matchArgs o asset amount) = some db₁) :
    ((matchArgs o asset amount).settle db₁ ((matchArgs o asset amount).planOn db)).Homed := by
  intro pair side id hid w hw
  obtain ⟨e,he,rfl⟩ := SortedSet.mem_iff.mp hid
  rcases settle_entry_cases hl he with ⟨rfl,_,rfl⟩ | hold
  · rcases settle_order_pair hl hw with ⟨_,hpair⟩ | ⟨w₀,hw₀,_⟩
    · exact hpair
    · have hnone : db.order o.id = some w₀ := hw₀
      rw [hunused.1] at hnone
      cases hnone
  · have hmem : e.member ∈ db.book pair side := SortedSet.mem_iff.mpr ⟨e,hold,rfl⟩
    rcases settle_order_pair hl hw with ⟨hown,_⟩ | ⟨w₀,hw₀,hpair⟩
    · exact absurd (hown ▸ hmem) (hunused.2 pair side)
    · rw [hpair]
      exact h pair side e.member hmem w₀ hw₀

lemma Valkey.Homed.settle_snapshot (h : db.Homed) (hunused : db.Unused o.id)
    (hl : lockBalance db (matchArgs o asset amount) = some db₁) {i : Fin 3} (hpair : o.pairId ≠ debouncedPair i) :
    rebuildOrderbookCache i ((matchArgs o asset amount).settle db₁ ((matchArgs o asset amount).planOn db)) =
      rebuildOrderbookCache i db := by
  have hconfined := matchOrderLua_confined db o asset amount
  have hdb : (matchOrderLua db o asset amount).2 =
      (matchArgs o asset amount).settle db₁ ((matchArgs o asset amount).planOn db) := by rw [matchOrderLua_of_lock hl]
  rw [← hdb]
  apply rebuildOrderbookCache_congr
  · funext side
    exact hconfined.frame (k := .book (debouncedPair i) side) (fun hk => hpair (Eq.symm hk))
  · intro side id hid
    have hne : id ≠ o.id := fun he => hunused.2 _ _ (he ▸ hid)
    by_cases hopp : id ∈ db.book o.pairId o.side.opposite
    · -- the id would be of two pairs, so it has no hash, and gets none
      have hnone : db.order id = none := by
        cases ho : db.order id with
        | none => rfl
        | some w => exact absurd ((h _ _ id hopp w ho).symm.trans (h _ _ id hid w ho)) hpair
      rw [hnone, hdb]
      cases ho : ((matchArgs o asset amount).settle db₁ ((matchArgs o asset amount).planOn db)).order id with
      | none => rfl
      | some w =>
        rcases settle_order_pair hl ho with ⟨he,_⟩ | ⟨w₀,hw₀,_⟩
        · exact absurd he hne
        · rw [hnone] at hw₀
          cases hw₀
    · exact hconfined.frame (k := .order id) (fun hk => hk.elim hne hopp)

end Settle
end Pairs

/-! ### Runs -/

/-- Nothing escapes the rebuild task of the pair: requests have fresh ids, those of the pair refresh the
book and get their reply, or take makers off unseen; cancellations and expiries do not show; and the
task's rebuilds succeed. -/
def Debounced.Event.Heard (pairs : PairsCache) (i : Fin 3) (db : Valkey) : Debounced.Event → Prop
  | .request msg d delivered => ∀ o asset amount db₁, Api.Runs pairs db msg d o asset amount db₁ →
      0 ≤ o.qtyI ∧ db.Unused o.id ∧ (o.pairId = debouncedPair i →
        o.Refreshes db ∧ delivered = true ∨ ¬ o.Refreshes db ∧ o.TakesOffUnseen db)
  | .cancel order => rebuildOrderbookCache i (db.removeOrderFromBook order) = rebuildOrderbookCache i db
  | .expire id => rebuildOrderbookCache i (db.del id) = rebuildOrderbookCache i db
  | .fail j => j ≠ i
  | _ => True

lemma pairIndex_debouncedPair (i : Fin 3) : MetricsBatch.pairIndex (debouncedPair i) = i := by
  fin_cases i <;> rfl

section Runs
variable {pairs : PairsCache} {i : Fin 3}

namespace Debounced
variable {c : Debounced} {e : Event} {events : List Event}

/-- What is heard keeps members at home, and changes the snapshot with a signal only. -/
lemma Event.Heard.audible (he : e.Heard pairs i c.source) (hc : c.source.Homed) :
    (c.next pairs e).source.Homed ∧ Coalescing.Audible rebuildOrderbookCache i c (e.action pairs c.source) := by
  cases e with
  | request msg d delivered =>
    rcases Api.processQueuedOrder_cases pairs c.source msg d with ⟨hdb,hjob⟩ | ⟨o,asset,amount,db₁,hrun,hdb,job,hjob,hstatus,htrades⟩
    · constructor
      · rw [next, Event.action, Coalescing.source_change, hdb]
        exact hc
      · exact .inr (by rw [hdb])
    · obtain ⟨hq,hunused,hpair⟩ := he o asset amount db₁ hrun
      have hhomed := hc.settle hunused hrun.funded
      have hmarks := Api.marksDirty_iff hq hrun.tif hstatus htrades
      constructor
      · rw [next, Event.action, Coalescing.source_change, hdb]
        exact hhomed
      · by_cases hp : o.pairId = debouncedPair i
        · rcases hpair hp with ⟨hrefreshes,rfl⟩ | ⟨hnot,hunseen⟩
          · refine .inl ?_
            rw [hjob, hmarks.mpr hrefreshes, ← Api.parseOrder_pairId hrun.parsed, hp, pairIndex_debouncedPair]
            rfl
          · refine .inr ?_
            obtain ⟨ids,hids,hsnapshot⟩ := settle_snapshot_of_not_refreshes asset amount hrun.funded hq hnot
            rw [hdb, rebuildOrderbookCache, rebuildOrderbookCache, ← hp, hsnapshot, hunseen ids hids]
        · refine .inr ?_
          rw [hdb]
          exact hc.settle_snapshot hunused hrun.funded hp
  | cancel order => exact ⟨hc.remove order,.inr he⟩
  | expire id => exact ⟨hc.del id,.inr he⟩
  | markDirty j =>
    refine ⟨?_,trivial⟩
    rw [next, Event.action, Coalescing.source_signal]
    exact hc
  | advance j => exact ⟨hc,trivial⟩
  | fail j => exact ⟨hc,he⟩

lemma Along.audible (h : c.Along pairs (Event.Heard pairs i) events) (hc : c.source.Homed) :
    Coalescing.Along rebuildOrderbookCache (Coalescing.Audible rebuildOrderbookCache i) c (c.actions pairs events) := by
  induction events generalizing c with
  | nil => trivial
  | cons e events ih =>
    obtain ⟨hhomed,haudible⟩ := h.1.audible hc
    exact ⟨haudible,ih h.2 hhomed⟩

end Debounced

/-- Whatever happens, what is published of a pair are books that the store had, in their order, and no
more of them than orders that signalled. -/
theorem debounced_publications (pairs : PairsCache) (c : Debounced) (i : Fin 3) (events : List Debounced.Event) :
    ∃ new, (c.run pairs events).published i = c.published i ++ new ∧
      List.Sublist new ((c.worker i).held ++
        (Coalescing.trace rebuildOrderbookCache c (c.actions pairs events)).map (fun s => rebuildOrderbookCache i s.source)) ∧
      new.length ≤ (c.worker i).pending + c.owed i + (c.actions pairs events).countP (Coalescing.Action.Marks i) := by
  obtain ⟨new,hnew,hsub⟩ := Coalescing.published_run rebuildOrderbookCache c i (c.actions pairs events)
  have hcount := Coalescing.publications_run rebuildOrderbookCache c i (c.actions pairs events)
  rw [← Debounced.run_eq] at hnew hsub hcount
  refine ⟨new,hnew,(List.sublist_append_left _ _).trans hsub,?_⟩
  rw [hnew, List.length_append] at hcount
  omega

end Runs
end MatchingEngine

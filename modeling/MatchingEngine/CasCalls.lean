import MatchingEngine.OptimisticCas

/-! Whole `apply_book_mutations_cas` calls that no other client interrupts. The hashes of the
upserts are written before the version is compared, so a refused call has already changed them;
and a missing version key reads as zero in a snapshot but as `false` in the script. -/
namespace MatchingEngine
open Library

/-- The `HSET` pipeline. -/
def Valkey.preWrite (db : Valkey) (upserts : List Order) : Valkey :=
  upserts.foldl (fun db o => db.hset o.id o.toHash) db

/-- Both phases: the `HSET` pipeline, then the script. -/
def applyBookMutationsCas (db : Valkey) (pairId : String) (expectedVersion : ℤ) (bookUpdates : List Order)
    (incomingIfResting : Option Order) : CasResult × Valkey :=
  casScript (db.preWrite (casUpserts bookUpdates incomingIfResting)) pairId expectedVersion
    (casMutations bookUpdates incomingIfResting)

def loadOrderBookSnapshot (db : Valkey) (q : SnapshotQuery) : List Order × ℤ :=
  (db.fetchOrdersByIds (q.ids db),q.version db)

def Valkey.getVersion (db : Valkey) (pairId : String) : ℤ := (db.version pairId).getD 0

/-- The last hash that the pipeline writes under an id. -/
def lastUpsert (upserts : List Order) (id : Uuid) : Option Order :=
  upserts.reverse.find? (fun o => o.id = id)

/-! ### The pipeline -/

section Pipeline
variable (upserts : List Order) (db : Valkey)

lemma preWrite_book : (db.preWrite upserts).book = db.book := by
  induction upserts generalizing db with
  | nil => rfl
  | cons o upserts ih => exact ih _

lemma preWrite_version : (db.preWrite upserts).version = db.version := by
  induction upserts generalizing db with
  | nil => rfl
  | cons o upserts ih => exact ih _

lemma preWrite_order (id : Uuid) : (db.preWrite upserts).order id =
    ((lastUpsert upserts id).map Order.toHash).or (db.order id) := by
  induction upserts generalizing db with
  | nil => rfl
  | cons o upserts ih =>
    have hfold : db.preWrite (o :: upserts) = (db.hset o.id o.toHash).preWrite upserts := rfl
    rw [hfold, ih]
    unfold lastUpsert
    rw [List.reverse_cons, List.find?_append]
    cases upserts.reverse.find? (fun o => o.id = id) with
    | some last => rfl
    | none =>
      rw [Valkey.hset_order]
      by_cases h : o.id = id
      · simp [h]
      · simp [h, Ne.symm h]

end Pipeline

/-! ### Refused calls -/

lemma applyBookMutationsCas_of_conflict {db : Valkey} {pairId : String} {v : ℤ} {bookUpdates : List Order}
    {incoming : Option Order} (h : (applyBookMutationsCas db pairId v bookUpdates incoming).1 = .conflict) :
    (applyBookMutationsCas db pairId v bookUpdates incoming).2 = db.preWrite (casUpserts bookUpdates incoming) := by
  unfold applyBookMutationsCas casScript at h ⊢
  split_ifs at h ⊢
  rfl

/-- A refused call leaves the books, the hashes and the version alone exactly when every hash
its pipeline leaves behind was stored before. -/
theorem cas_conflict_unchanged_iff {db : Valkey} {pairId : String} {v : ℤ} {bookUpdates : List Order}
    {incoming : Option Order} (h : (applyBookMutationsCas db pairId v bookUpdates incoming).1 = .conflict) :
    ((applyBookMutationsCas db pairId v bookUpdates incoming).2.book = db.book ∧
      (applyBookMutationsCas db pairId v bookUpdates incoming).2.order = db.order ∧
      (applyBookMutationsCas db pairId v bookUpdates incoming).2.version = db.version) ↔
    ∀ id, ∀ o ∈ lastUpsert (casUpserts bookUpdates incoming) id, db.order id = some o.toHash := by
  rw [applyBookMutationsCas_of_conflict h]
  constructor
  · intro ⟨_,horder,_⟩ id o ho
    have hid := congrFun horder id
    rw [preWrite_order, Option.mem_def.mp ho] at hid
    exact hid.symm
  · intro hstored
    refine ⟨preWrite_book _ _,?_,preWrite_version _ _⟩
    funext id
    rw [preWrite_order]
    cases ho : lastUpsert (casUpserts bookUpdates incoming) id with
    | none => rfl
    | some o => exact (hstored id o ho).symm

/-- Alice's offer after Bob has bought it: the hash is gone and the version is two. -/
def soldOut : Valkey := (matchOrderLua offered (.gtcLimit 2 "bob" "BTC-USDT" .buy 100 5) "USDT" 0).2

/-- The offer written down to three units. -/
def partOffer : Order := { Order.gtcLimit 1 "alice" "BTC-USDT" .sell 100 5 with
  remaining := i64ToDecimal 3, status := .partiallyFilled }

/-- Writing the offer again as it was read, with a version that is not there yet, leaves its hash. -/
theorem cas_conflict_unchanged_on_rewrite :
    let read := (loadOrderBookSnapshot offered allAsks).1
    read.map Order.id = [1] ∧ (applyBookMutationsCas offered "BTC-USDT" 2 read none).1 = .conflict ∧
    (applyBookMutationsCas offered "BTC-USDT" 2 read none).2.order = offered.order := by
  intro read
  have hconflict : (applyBookMutationsCas offered "BTC-USDT" 2 read none).1 = .conflict := by decide +kernel
  have hstored : ∀ o ∈ casUpserts read none, offered.order o.id = some o.toHash := by decide +kernel
  refine ⟨by decide +kernel,hconflict,((cas_conflict_unchanged_iff hconflict).mpr ?_).2.1⟩
  intro id o ho
  have hmem := List.mem_reverse.mp (List.mem_of_find?_eq_some ho)
  have hid : o.id = id := by simpa using List.find?_some ho
  rw [← hid]
  exact hstored o hmem

/-- A client that read the offer at version one writes it down to three units after it was
sold: the call is refused, and the hash of the sold order exists again. -/
theorem cas_conflict_revives_sold_order :
    (applyBookMutationsCas soldOut "BTC-USDT" 1 [partOffer] none).1 = .conflict ∧ soldOut.order 1 = none ∧
    (applyBookMutationsCas soldOut "BTC-USDT" 1 [partOffer] none).2.order 1 = some partOffer.toHash := by
  decide +kernel

/-! ### Uninterrupted calls -/

/-- A snapshot followed at once by a call succeeds and raises the version by one exactly when
the version key exists. -/
theorem cas_after_snapshot_ok_iff (db : Valkey) (q : SnapshotQuery) (bookUpdates : List Order) (incoming : Option Order) :
    ((applyBookMutationsCas db q.pairId (loadOrderBookSnapshot db q).2 bookUpdates incoming).1 = .ok ∧
      (applyBookMutationsCas db q.pairId (loadOrderBookSnapshot db q).2 bookUpdates incoming).2.getVersion q.pairId =
        (loadOrderBookSnapshot db q).2 + 1) ↔
    db.version q.pairId ≠ none := by
  unfold applyBookMutationsCas casScript
  rw [preWrite_version]
  cases hv : db.version q.pairId with
  | none => simp
  | some v =>
    have hread : (loadOrderBookSnapshot db q).2 = v := by simp [loadOrderBookSnapshot, SnapshotQuery.version, hv]
    rw [hread, if_pos rfl]
    refine iff_of_true ⟨rfl,?_⟩ (by simp)
    simp [Valkey.getVersion, Valkey.incrVersion, Mutation.foldl_apply_version, preWrite_version, hv]

/-- On a pair without a version key, a client that nobody disturbs is refused. -/
theorem cas_after_snapshot_refused_without_version :
    (loadOrderBookSnapshot Valkey.empty allAsks).2 = 0 ∧
    (applyBookMutationsCas Valkey.empty "BTC-USDT" 0 [] (some (.gtcLimit 1 "alice" "BTC-USDT" .sell 100 5))).1 =
      .conflict := by
  decide +kernel

end MatchingEngine

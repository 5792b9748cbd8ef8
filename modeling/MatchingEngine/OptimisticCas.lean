import MatchingEngine.Cache
import MatchingEngine.Expiry
import MatchingEngine.Failures

/-! Optimistic writes to a book: `load_order_book_snapshot` and `apply_book_mutations_cas`. The
pipelines are not transactions, so every command is a step of its own and other clients run
between any two of them. The version guards a snapshot against the writers that increment it;
`save_order_to_book`, `remove_order_from_book` and the pre-writes of other clients do not, nor does
the expiry of a hash; and an order whose numbers the script printed with an exponent is not read. -/
namespace MatchingEngine
open Library

inductive CasResult
  | ok
  | conflict
  deriving DecidableEq, Repr

inductive MutationOp
  | remove
  | upsert
  deriving DecidableEq, Repr

/-- One entry of the mutation list handed to the script. -/
structure Mutation where
  op : MutationOp
  side : Side
  oid : Uuid
  score : ℤ
  deriving DecidableEq, Repr

namespace Mutation

def upsertOf (o : Order) : Mutation := ⟨.upsert,o.side,o.id,signedPrice o.side o.priceI⟩

/-- A used-up order is removed, any other is written. -/
def ofUpdate (o : Order) : Mutation :=
  if o.status = .filled ∨ o.status = .cancelled then ⟨.remove,o.side,o.id,signedPrice o.side o.priceI⟩
  else upsertOf o

/-- `ZREM` and `DEL`, or `ZADD`; the hash of an upsert is written by the caller. -/
def apply (pair : String) (db : Valkey) (m : Mutation) : Valkey :=
  match m.op with
  | .remove => db.dropOrder pair m.side m.oid
  | .upsert => db.zadd pair m.side m.score m.oid

lemma foldl_apply_version (pair : String) (ms : List Mutation) (db : Valkey) :
    (ms.foldl (apply pair) db).version = db.version := by
  induction ms generalizing db with
  | nil => rfl
  | cons m ms ih =>
    rw [List.foldl_cons, ih]
    unfold apply
    cases m.op <;> rfl

end Mutation

/-- `CAS_SCRIPT`. A missing version key reads as `false` and equals no number. -/
def casScript (db : Valkey) (pair : String) (expectedVersion : ℤ) (ms : List Mutation) : CasResult × Valkey :=
  if db.version pair = some expectedVersion then (.ok,(ms.foldl (Mutation.apply pair) db).incrVersion pair)
  else (.conflict,db)

/-- The mutations of an `apply_book_mutations_cas` call. -/
def casMutations (bookUpdates : List Order) (incomingIfResting : Option Order) : List Mutation :=
  bookUpdates.map Mutation.ofUpdate ++ incomingIfResting.toList.map Mutation.upsertOf

/-- The orders whose hashes the call writes before it runs the script. -/
def casUpserts (bookUpdates : List Order) (incomingIfResting : Option Order) : List Order :=
  bookUpdates.filter (fun o => ¬ (o.status = .filled ∨ o.status = .cancelled)) ++ incomingIfResting.toList

/-- The arguments of `load_order_book_snapshot`. -/
structure SnapshotQuery where
  pairId : String
  side : Side
  limitPrice : Option Decimal

namespace SnapshotQuery
variable (q : SnapshotQuery)

def maxScore : Option ℤ := q.limitPrice.map (fun p => signedPrice q.side (decimalToI64 p))

/-- `GET version`, zero when there is none. -/
def version (db : Valkey) : ℤ := (db.version q.pairId).getD 0

/-- `ZRANGEBYSCORE` of the side up to the limit. -/
def ids (db : Valkey) : List Uuid := (db.book q.pairId q.side).rangeByScore q.maxScore

/-- The live orders of the side and price range, by id. -/
def live (db : Valkey) : List Resting := db.resting (q.ids db)

end SnapshotQuery

/-- Which numbers of a hash were printed by the script. `save_order_to_book` and the pre-writes print
integers, the script all digits below `10^14` only. -/
structure Printed where
  price : Bool
  qty : Bool
  remaining : Bool
  deriving DecidableEq, Repr

/-- A number as it is parsed. -/
def readNumber (byScript : Bool) (n : ℤ) : Option ℤ := if byScript then luaToI64 n else some n

/-- `parse_order_from_hmget`, which drops an order with a number that does not parse. -/
def OrderHash.readBack (w : OrderHash) (p : Printed) : Option OrderHash := do
  let priceI ← readNumber p.price w.priceI
  let qtyI ← readNumber p.qty w.qtyI
  let remainingI ← readNumber p.remaining w.remainingI
  return { w with priceI := priceI, qtyI := qtyI, remainingI := remainingI }

/-- `HMGET` of an order hash and its decoding. -/
def Valkey.readHash (db : Valkey) (printed : Uuid → Printed) (id : Uuid) : List Resting :=
  ((db.order id).bind (fun w => w.readBack (printed id))).toList.map (Resting.mk id)

/-- What the script prints: the remainders of the makers that it leaves, and the whole hash of an order
that rests. -/
def printedByScript (db : Valkey) (o : Order) (lockAsset : String) (lockAmountScaled : ℤ) (printed : Uuid → Printed) :
    Uuid → Printed :=
  let r := (matchOrderScript db (matchArgs o lockAsset lockAmountScaled)).1
  fun id =>
    if id = o.id ∧ r.Rests o.tif then ⟨true,true,true⟩
    else if ∃ t ∈ r.trades, t.restingId = id then { printed id with remaining := true }
    else printed id

/-- How far a client is. `got` is the snapshot: the ids with the hashes found, which are
returned as orders. The last phase keeps the store at the instant the script ran. -/
inductive Phase
  | start
  | versioned (v : ℤ)
  | reading (v : ℤ) (todo : List Uuid) (got : List Resting)
  | writing (v : ℤ) (got : List Resting) (bookUpdates : List Order) (incomingIfResting : Option Order)
      (todo : List Order)
  | done (result : CasResult) (got : List Resting) (own : List Order) (store : Valkey)

/-- From the listing of the ids to the script. -/
def Phase.InWindow : Phase → Prop
  | .reading _ _ _ => True
  | .writing _ _ _ _ _ => True
  | _ => False

/-- What other clients do, one command at a time: a `match_order_lua` call, the `ZADD` and the
`HSET` of `save_order_to_book` (an `HSET` is also a pre-write), the `ZREM` and the `DEL` of
`remove_order_from_book`, and a CAS script. Or time passes. -/
inductive Command
  | matchOrder (o : Order) (lockAsset : String) (lockAmountScaled : ℤ)
  | zadd (o : Order)
  | hset (o : Order)
  | zrem (o : Order)
  | del (o : Order)
  | cas (expectedVersion : ℤ) (ms : List Mutation)
  | pass (ms : ℕ)

namespace Command

/-- The command is on one pair. -/
def On (pair : String) : Command → Prop
  | .matchOrder o _ _ => o.pairId = pair
  | .zadd o => o.pairId = pair
  | .hset o => o.pairId = pair
  | .zrem o => o.pairId = pair
  | .del o => o.pairId = pair
  | .cas _ _ => True
  | .pass _ => True

def run (pair : String) (db : Valkey) : Command → Valkey
  | .matchOrder o asset amount => (matchOrderLua db o asset amount).2
  | .zadd o => db.zadd o.pairId o.side (signedPrice o.side o.priceI) o.id
  | .hset o => db.hset o.id o.toHash
  | .zrem o => db.zrem o.pairId o.side o.id
  | .del o => db.del o.id
  | .cas v ms => (casScript db pair v ms).2
  | .pass ms => db.pass ms

def prints (db : Valkey) (printed : Uuid → Printed) : Command → Uuid → Printed
  | .matchOrder o asset amount => printedByScript db o asset amount printed
  | .hset o => Function.update printed o.id ⟨false,false,false⟩
  | _ => printed

/-- A command that does not increment the version finds the snapshotted orders as it leaves
them: it adds no entry to the range and takes none out, and rewrites no hash of the range; nor does
one of these expire. -/
def Spares (q : SnapshotQuery) (db : Valkey) : Command → Prop
  | .zadd o => o.side = q.side → ⟨signedPrice o.side o.priceI,o.id⟩ ∈ (db.book q.pairId q.side).entries ∨
      o.id ∉ q.ids db ∧ ∃ m ∈ q.maxScore, m < signedPrice o.side o.priceI
  | .zrem o => o.side = q.side → o.id ∉ q.ids db
  | .hset o => o.id ∈ q.ids db → db.order o.id = some o.toHash
  | .del o => o.id ∈ q.ids db → db.order o.id = none
  | .matchOrder _ _ _ => True
  | .cas _ _ => True
  | .pass ms => ∀ id ∈ q.ids db, ∀ t ∈ db.ttl id, ms < t

end Command

/-- The store with a client. -/
structure CasState where
  db : Valkey
  printed : Uuid → Printed
  phase : Phase

/-- One step of a client and everyone else. `Admit` restricts what the others do between the
listing and the script, `Reads` the hashes that the client comes to. -/
inductive CasStep (q : SnapshotQuery) (Admit : Valkey → Command → Prop) (Reads : Valkey → (Uuid → Printed) → Uuid → Prop) :
    CasState → CasState → Prop
  | other {db : Valkey} {printed : Uuid → Printed} {ph : Phase} (c : Command) (on : c.On q.pairId)
      (admitted : ph.InWindow → Admit db c) :
      CasStep q Admit Reads ⟨db,printed,ph⟩ ⟨c.run q.pairId db,c.prints db printed,ph⟩
  | getVersion {db : Valkey} {printed : Uuid → Printed} :
      CasStep q Admit Reads ⟨db,printed,.start⟩ ⟨db,printed,.versioned (q.version db)⟩
  | listIds {db : Valkey} {printed : Uuid → Printed} {v : ℤ} :
      CasStep q Admit Reads ⟨db,printed,.versioned v⟩ ⟨db,printed,.reading v (q.ids db) []⟩
  | readHash {db : Valkey} {printed : Uuid → Printed} {v : ℤ} {id : Uuid} {ids : List Uuid} {got : List Resting}
      (reads : Reads db printed id) :
      CasStep q Admit Reads ⟨db,printed,.reading v (id :: ids) got⟩ ⟨db,printed,.reading v ids (got ++ db.readHash printed id)⟩
  | apply {db : Valkey} {printed : Uuid → Printed} {v : ℤ} {got : List Resting} (bookUpdates : List Order) (incoming : Option Order) :
      CasStep q Admit Reads ⟨db,printed,.reading v [] got⟩
        ⟨db,printed,.writing v got bookUpdates incoming (casUpserts bookUpdates incoming)⟩
  | preWrite {db : Valkey} {printed : Uuid → Printed} {v : ℤ} {got : List Resting} {bookUpdates : List Order}
      {incoming : Option Order} {o : Order} {todo : List Order} :
      CasStep q Admit Reads ⟨db,printed,.writing v got bookUpdates incoming (o :: todo)⟩
        ⟨db.hset o.id o.toHash,Function.update printed o.id ⟨false,false,false⟩,.writing v got bookUpdates incoming todo⟩
  | script {db : Valkey} {printed : Uuid → Printed} {v : ℤ} {got : List Resting} {bookUpdates : List Order}
      {incoming : Option Order} :
      CasStep q Admit Reads ⟨db,printed,.writing v got bookUpdates incoming []⟩
        ⟨(casScript db q.pairId v (casMutations bookUpdates incoming)).2,printed,
          .done (casScript db q.pairId v (casMutations bookUpdates incoming)).1 got (casUpserts bookUpdates incoming) db⟩

/-- A hash that the client reads as it is. -/
def ReadsBack (db : Valkey) (printed : Uuid → Printed) (id : Uuid) : Prop := ∀ w ∈ db.order id, w.readBack (printed id) = some w

/-- The live orders are those of the snapshot, up to the hashes the client wrote itself. -/
structure Current (q : SnapshotQuery) (db : Valkey) (got : List Resting) (own : List Order) : Prop where
  others : (q.live db).filter (fun r => r.id ∉ own.map Order.id) = got.filter (fun r => r.id ∉ own.map Order.id)
  written : ∀ id ∈ q.ids db, id ∈ own.map Order.id → ∃ o ∈ own, o.id = id ∧ db.order id = some o.toHash

/-! ### One command -/

@[simp] lemma applyVisits_version (a : MatchArgs) (db : Valkey) (vs : List Visit) :
    (applyVisits a db vs).version = db.version := by
  induction vs generalizing db with
  | nil => rfl
  | cons v vs ih =>
    rw [applyVisits_cons, ih]
    unfold applyVisit
    cases v.outcome <;> rfl

lemma settle_version (a : MatchArgs) (db : Valkey) (p : Plan) :
    (a.settle db p).version a.pairId = some ((db.version a.pairId).getD 0 + 1) := by
  rw [settle_eq]
  by_cases h : p.Rests a <;> simp [h, Valkey.incrVersion, placeResting, Valkey.expire, Valkey.zadd]

section Commands
variable {q : SnapshotQuery} {db : Valkey}

lemma version_incr (db' : Valkey) (h : db'.version = db.version) :
    q.version (db'.incrVersion q.pairId) = q.version db + 1 := by
  simp [SnapshotQuery.version, Valkey.incrVersion, h]

/-- A call that reaches the book increments the version, any other changes nothing. -/
lemma matchOrder_version (db : Valkey) {o : Order} (hpair : o.pairId = q.pairId) (asset : String) (amount : ℤ) :
    (matchOrderLua db o asset amount).2 = db ∨ q.version (matchOrderLua db o asset amount).2 = q.version db + 1 := by
  cases hl : lockBalance db (matchArgs o asset amount) with
  | none =>
    left
    simp only [matchOrderLua, matchOrderScript_eq, hl]
  | some db₁ =>
    right
    rw [matchOrderLua_of_lock hl, SnapshotQuery.version, ← hpair]
    change (((matchArgs o asset amount).settle db₁ _).version (matchArgs o asset amount).pairId).getD 0 = _
    rw [settle_version, (lockBalance_frame hl).2.2.2]
    simp [SnapshotQuery.version, ← hpair]
    rfl

lemma casScript_version (q : SnapshotQuery) (db : Valkey) (v : ℤ) (ms : List Mutation) :
    (casScript db q.pairId v ms).2 = db ∨ q.version (casScript db q.pairId v ms).2 = q.version db + 1 := by
  unfold casScript
  split_ifs
  · exact .inr (version_incr _ (Mutation.foldl_apply_version _ _ _))
  · exact .inl rfl

lemma Command.version_le {c : Command} (hon : c.On q.pairId) : q.version db ≤ q.version (c.run q.pairId db) := by
  cases c with
  | matchOrder o asset amount =>
    rcases matchOrder_version db hon asset amount with h | h <;> rw [Command.run, h]
    omega
  | cas v ms =>
    rcases casScript_version q db v ms with h | h <;> rw [Command.run, h]
    omega
  | zadd o => exact le_rfl
  | hset o => exact le_rfl
  | zrem o => exact le_rfl
  | del o => exact le_rfl
  | pass ms => exact le_rfl

/-- While the version stands, a sparing command leaves the range and its hashes. -/
lemma Command.Spares.keeps {c : Command} (h : c.Spares q db) (hon : c.On q.pairId)
    (hv : q.version (c.run q.pairId db) = q.version db) :
    q.ids (c.run q.pairId db) = q.ids db ∧ ∀ id ∈ q.ids db, (c.run q.pairId db).order id = db.order id := by
  cases c with
  | matchOrder o asset amount =>
    rcases matchOrder_version db hon asset amount with hsame | hincr
    · rw [Command.run, hsame]
      exact ⟨rfl,fun _ _ => rfl⟩
    · rw [Command.run, hincr] at hv
      omega
  | cas v ms =>
    rcases casScript_version q db v ms with hsame | hincr
    · rw [Command.run, hsame]
      exact ⟨rfl,fun _ _ => rfl⟩
    · rw [Command.run, hincr] at hv
      omega
  | zadd o =>
    refine ⟨?_,fun _ _ => rfl⟩
    have hpair : o.pairId = q.pairId := hon
    simp only [Command.run, SnapshotQuery.ids, Valkey.zadd_book]
    split_ifs with hk
    · rcases h hk.2.symm with hmem | ⟨hout,hscore⟩
      · rw [SortedSet.add_of_mem hmem]
      · exact SortedSet.rangeByScore_add hout hscore
    · rfl
  | zrem o =>
    refine ⟨?_,fun _ _ => rfl⟩
    simp only [Command.run, SnapshotQuery.ids, Valkey.zrem]
    split_ifs with hk
    · exact SortedSet.rangeByScore_remove (h hk.2.symm)
    · rfl
  | hset o =>
    refine ⟨rfl,fun id hid => ?_⟩
    rw [Command.run, Valkey.hset_order]
    split_ifs with he
    · rw [he] at hid ⊢
      exact (h hid).symm
    · rfl
  | del o =>
    refine ⟨rfl,fun id hid => ?_⟩
    simp only [Command.run, Valkey.del, Function.update_apply]
    split_ifs with he
    · rw [he] at hid ⊢
      exact (h hid).symm
    · rfl
  | pass ms =>
    refine ⟨rfl,fun id hid => if_neg ?_⟩
    rintro ⟨t,ht,hle⟩
    have := h id hid t ht
    omega

lemma ReadsBack.readHash_eq {printed : Uuid → Printed} {id : Uuid} (h : ReadsBack db printed id) :
    db.readHash printed id = db.resting [id] := by
  unfold Valkey.readHash Valkey.resting
  cases hw : db.order id with
  | none => simp [hw]
  | some w =>
    rw [Option.bind_some, h w hw]
    simp [hw]

end Commands

/-! ### Whole runs -/

lemma resting_filter_congr {db db' : Valkey} {own : List Uuid} (ids : List Uuid)
    (h : ∀ id ∈ ids, id ∉ own → db'.order id = db.order id) :
    (db'.resting ids).filter (fun r => r.id ∉ own) = (db.resting ids).filter (fun r => r.id ∉ own) := by
  induction ids with
  | nil => rfl
  | cons id ids ih =>
    have ih := ih (fun x hx => h x (by simp [hx]))
    have hsplit : ∀ d : Valkey, d.resting (id :: ids) = d.resting [id] ++ d.resting ids := by
      intro d
      exact List.filterMap_append (l := [id])
    rw [hsplit db', hsplit db, List.filter_append, List.filter_append, ih]
    congr 1
    by_cases hid : id ∈ own
    · cases hd : db.order id <;> cases hd' : db'.order id <;> simp [Valkey.resting, hd, hd', hid]
    · have hsame : db'.resting [id] = db.resting [id] := resting_congr (by simpa using h id (by simp) hid)
      rw [hsame]

/-- What a client knows at each point, as long as the version has not moved. -/
def Phase.Holds (q : SnapshotQuery) (db : Valkey) : Phase → Prop
  | .start => True
  | .versioned v => v ≤ q.version db
  | .reading v todo got => v ≤ q.version db ∧ (q.version db = v → ∃ seen, q.ids db = seen ++ todo ∧ got = db.resting seen)
  | .writing v got bookUpdates incoming todo => v ≤ q.version db ∧ todo ⊆ casUpserts bookUpdates incoming ∧
      (q.version db = v →
        (q.live db).filter (fun r => r.id ∉ (casUpserts bookUpdates incoming).map Order.id) =
          got.filter (fun r => r.id ∉ (casUpserts bookUpdates incoming).map Order.id) ∧
        ∀ id ∈ q.ids db, id ∈ (casUpserts bookUpdates incoming).map Order.id → id ∉ todo.map Order.id →
          ∃ o ∈ casUpserts bookUpdates incoming, o.id = id ∧ db.order id = some o.toHash)
  | .done result got own store => result = .ok → Current q store got own

section Runs
variable {q : SnapshotQuery} {db : Valkey} {ph : Phase}

lemma Phase.Holds.other (h : ph.Holds q db) {c : Command} (hon : c.On q.pairId) (hadm : ph.InWindow → c.Spares q db) :
    ph.Holds q (c.run q.pairId db) := by
  have hle : q.version db ≤ q.version (c.run q.pairId db) := Command.version_le hon
  cases ph with
  | start => trivial
  | versioned v => exact le_trans h hle
  | reading v todo got =>
    refine ⟨h.1.trans hle,fun hv => ?_⟩
    have hv₀ : q.version db = v := le_antisymm (hv ▸ hle) h.1
    obtain ⟨hids,horder⟩ := (hadm trivial).keeps hon (hv.trans hv₀.symm)
    obtain ⟨seen,hseen,hgot⟩ := h.2 hv₀
    refine ⟨seen,hids.trans hseen,hgot.trans (resting_congr (fun id hid => (horder id ?_).symm))⟩
    rw [hseen]
    exact List.mem_append_left _ hid
  | writing v got bookUpdates incoming todo =>
    refine ⟨h.1.trans hle,h.2.1,fun hv => ?_⟩
    have hv₀ : q.version db = v := le_antisymm (hv ▸ hle) h.1
    obtain ⟨hids,horder⟩ := (hadm trivial).keeps hon (hv.trans hv₀.symm)
    obtain ⟨hothers,hwritten⟩ := h.2.2 hv₀
    have hlive : q.live (c.run q.pairId db) = q.live db := by
      rw [SnapshotQuery.live, hids]
      exact resting_congr horder
    rw [hlive, hids]
    refine ⟨hothers,fun id hid hown htodo => ?_⟩
    rw [horder id hid]
    exact hwritten id hid hown htodo
  | done result got own store => exact h

lemma Phase.Holds.step {x y : CasState} (h : x.phase.Holds q x.db) (hstep : CasStep q (Command.Spares q) ReadsBack x y) :
    y.phase.Holds q y.db := by
  cases hstep with
  | other c hon hadm => exact h.other hon hadm
  | getVersion => exact le_rfl
  | listIds => exact ⟨h,fun _ => ⟨[],rfl,rfl⟩⟩
  | @readHash db printed v id ids got hreads =>
    refine ⟨h.1,fun hv => ?_⟩
    obtain ⟨seen,hseen,hgot⟩ := h.2 hv
    refine ⟨seen ++ [id],hseen.trans (by simp),?_⟩
    rw [hgot, hreads.readHash_eq]
    exact List.filterMap_append.symm
  | @apply db printed v got bookUpdates incoming =>
    refine ⟨h.1,List.Subset.refl _,fun hv => ?_⟩
    obtain ⟨seen,hseen,hgot⟩ := h.2 hv
    rw [List.append_nil] at hseen
    refine ⟨?_,fun id _ hown htodo => absurd hown htodo⟩
    rw [SnapshotQuery.live, hgot, ← hseen]
  | @preWrite db printed v got bookUpdates incoming o todo =>
    obtain ⟨hv,hsub,hcur⟩ := h
    obtain ⟨ho,hsub⟩ := List.cons_subset.mp hsub
    refine ⟨hv,hsub,fun hveq => ?_⟩
    obtain ⟨hothers,hwritten⟩ := hcur hveq
    have hown : o.id ∈ (casUpserts bookUpdates incoming).map Order.id := List.mem_map_of_mem ho
    refine ⟨Eq.trans (resting_filter_congr _ (fun id _ hid => ?_)) hothers,fun id hid hid' htodo => ?_⟩
    · rw [Valkey.hset_order, if_neg]
      rintro rfl
      exact hid hown
    · rw [Valkey.hset_order]
      split_ifs with he
      · exact ⟨o,ho,he.symm,rfl⟩
      · exact hwritten id hid hid' (by simp [he, htodo])
  | @script db printed v got bookUpdates incoming =>
    intro hok
    have hv : q.version db = v := by
      unfold casScript at hok
      split_ifs at hok with hv
      simp [SnapshotQuery.version, hv]
    obtain ⟨hothers,hwritten⟩ := h.2.2 hv
    exact ⟨hothers,fun id hid hown => hwritten id hid hown (by simp)⟩

end Runs

/-- If between a client's listing and its script the others and time spare what it has read, and it can
read all hashes that it comes to, a successful script means that the snapshot is current. -/
theorem cas_ok_current {q : SnapshotQuery} {s : CasState} {db store : Valkey} {printed : Uuid → Printed} {got : List Resting}
    {own : List Order} (hstart : s.phase = .start)
    (h : Relation.ReflTransGen (CasStep q (Command.Spares q) ReadsBack) s ⟨db,printed,.done .ok got own store⟩) :
    Current q store got own := by
  have hinv : ∀ x, Relation.ReflTransGen (CasStep q (Command.Spares q) ReadsBack) s x → x.phase.Holds q x.db := by
    intro x hrun
    induction hrun with
    | refl =>
      rw [hstart]
      trivial
    | tail _ hstep ih => exact ih.step hstep
  exact hinv _ h rfl

/-- Alice's offer of five units at scaled price 100. -/
def offered : Valkey := (matchOrderLua Valkey.empty (.gtcLimit 1 "alice" "BTC-USDT" .sell 100 5) "BTC" 0).2

def allAsks : SnapshotQuery := ⟨"BTC-USDT",.sell,none⟩

/-- All its numbers are printed by the script. -/
def offeredTexts : Uuid → Printed := printedByScript Valkey.empty (.gtcLimit 1 "alice" "BTC-USDT" .sell 100 5) "BTC" 0 (fun _ => ⟨false,false,false⟩)

example : offeredTexts 1 = ⟨true,true,true⟩ := by decide +kernel

lemma offered_readsBack : ReadsBack offered offeredTexts 1 := by
  have hread : ∀ w ∈ offered.order 1, w.readBack (offeredTexts 1) = some w := by decide +kernel
  exact hread

lemma snapshot_of_offered {Admit : Valkey → Command → Prop} {Reads : Valkey → (Uuid → Printed) → Uuid → Prop}
    (hreads : Reads offered offeredTexts 1) : Relation.ReflTransGen (CasStep allAsks Admit Reads)
    ⟨offered,offeredTexts,.start⟩ ⟨offered,offeredTexts,.reading 1 [] (offered.resting [1])⟩ := by
  have hversion : allAsks.version offered = 1 := by decide +kernel
  have hids : allAsks.ids offered = [1] := by decide +kernel
  have hlist : Relation.ReflTransGen (CasStep allAsks Admit Reads) ⟨offered,offeredTexts,.start⟩
      ⟨offered,offeredTexts,.reading (allAsks.version offered) (allAsks.ids offered) []⟩ :=
    (Relation.ReflTransGen.refl.tail .getVersion).tail .listIds
  rw [hversion, hids] at hlist
  have hrun := hlist.tail (.readHash hreads)
  rw [offered_readsBack.readHash_eq] at hrun
  exact hrun

/-- Half an hour passes and Carol saves a bid between a client's reads and its script, which writes the
offer down to three units. -/
theorem cas_ok_current_after_bid : ∃ db printed got own store,
    Relation.ReflTransGen (CasStep allAsks (Command.Spares allAsks) ReadsBack) ⟨offered,offeredTexts,.start⟩
      ⟨db,printed,.done .ok got own store⟩ ∧
    got ≠ [] ∧ own ≠ [] ∧ Current allAsks store got own := by
  let bid : Order := .gtcLimit 2 "carol" "BTC-USDT" .buy 90 1
  let rest : Order := { Order.gtcLimit 1 "alice" "BTC-USDT" .sell 100 5 with
    remaining := i64ToDecimal 3, status := .partiallyFilled }
  let later := offered.pass 1800000
  let saved := Command.run allAsks.pairId (Command.run allAsks.pairId later (.zadd bid)) (.hset bid)
  have hread : Relation.ReflTransGen (CasStep allAsks (Command.Spares allAsks) ReadsBack) ⟨offered,offeredTexts,.start⟩
      ⟨saved,Function.update offeredTexts 2 ⟨false,false,false⟩,.reading 1 [] (offered.resting [1])⟩ := by
    refine (((snapshot_of_offered offered_readsBack).tail (.other (.pass 1800000) trivial (fun _ id hid t ht => ?_))).tail
      (.other (.zadd bid) rfl (fun _ hside => ?_))).tail (.other (.hset bid) rfl (fun _ hid => ?_))
    · have hids : allAsks.ids offered = [1] := by decide +kernel
      have httl : offered.ttl 1 = some 3600000 := by decide +kernel
      rw [hids, List.mem_singleton] at hid
      rw [hid, httl] at ht
      obtain rfl : 3600000 = t := Option.some.inj ht
      norm_num
    · cases hside
    · exact absurd hid (by decide +kernel)
  have hrun := ((hread.tail (.apply [rest] none)).tail .preWrite).tail .script
  have hok : (casScript (saved.hset 1 rest.toHash) "BTC-USDT" 1 (casMutations [rest] none)).1 = .ok := by decide +kernel
  change Relation.ReflTransGen _ _ (CasState.mk _ _ (.done (casScript (saved.hset 1 rest.toHash) "BTC-USDT" 1 _).1 _ _ _)) at hrun
  rw [hok] at hrun
  exact ⟨_,_,_,_,_,hrun,by decide +kernel,by decide +kernel,cas_ok_current rfl hrun⟩

/-- Carol saves an ask instead: the version stands, the script succeeds, and the snapshot lacks
her order. -/
theorem cas_ok_misses_saved_ask : ∃ db printed got own store,
    Relation.ReflTransGen (CasStep allAsks (fun _ _ => True) (fun _ _ _ => True)) ⟨offered,offeredTexts,.start⟩
      ⟨db,printed,.done .ok got own store⟩ ∧
    own = [] ∧ got.map Resting.id = [1] ∧ (allAsks.live store).map Resting.id = [2,1] ∧ ¬ Current allAsks store got own := by
  let ask : Order := .gtcLimit 2 "carol" "BTC-USDT" .sell 90 1
  let saved := Command.run allAsks.pairId (Command.run allAsks.pairId offered (.zadd ask)) (.hset ask)
  have hread : Relation.ReflTransGen (CasStep allAsks (fun _ _ => True) (fun _ _ _ => True)) ⟨offered,offeredTexts,.start⟩
      ⟨saved,Function.update offeredTexts 2 ⟨false,false,false⟩,.reading 1 [] (offered.resting [1])⟩ :=
    ((snapshot_of_offered trivial).tail (.other (.zadd ask) rfl (fun _ => trivial))).tail
      (.other (.hset ask) rfl (fun _ => trivial))
  have hrun := (hread.tail (.apply [] none)).tail .script
  have hok : (casScript saved "BTC-USDT" 1 (casMutations [] none)).1 = .ok := by decide +kernel
  change Relation.ReflTransGen _ _ (CasState.mk _ _ (.done (casScript saved "BTC-USDT" 1 _).1 _ _ _)) at hrun
  rw [hok] at hrun
  refine ⟨_,_,_,_,_,hrun,rfl,by decide +kernel,by decide +kernel,fun hcur => ?_⟩
  exact absurd hcur.others (by decide +kernel)

end MatchingEngine

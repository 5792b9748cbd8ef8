import MatchingEngine.Library.SortedSet
import MatchingEngine.Types

/-! The Valkey keys that matching reads and writes, one map per key family. A book key is
determined by its pair and side, `order:{id}` by the order id, `version:{pair}` by the pair
and `balance:{user}:{asset}` by the user and the asset, whose names hold no `:`. Hash fields are
kept decoded: the texts the code writes for sides, types, statuses and modes are pairwise distinct,
and Lua prints integers below `10^14` in full. -/
namespace MatchingEngine
open Library

/-- The fields of `order:{id}`. -/
structure OrderHash where
  id : Uuid
  pairId : String
  side : Side
  orderType : OrderType
  tif : TimeInForce
  priceI : ℤ
  qtyI : ℤ
  remainingI : ℤ
  status : OrderStatus
  stp : SelfTradePreventionMode
  userId : String
  tsMs : ℤ
  version : ℤ
  deriving DecidableEq, Repr

/-- The fields of `balance:{user}:{asset}`; a missing field reads as zero. -/
@[ext] structure BalanceHash where
  available : ℤ
  locked : ℤ
  deriving DecidableEq, Repr

@[ext] structure Valkey where
  book : String → Side → SortedSet ℤ Uuid
  order : Uuid → Option OrderHash
  /-- Milliseconds left on `order:{id}`, for keys that carry an expiry. -/
  ttl : Uuid → Option ℕ
  version : String → Option ℤ
  balance : String → String → BalanceHash

namespace Valkey

def empty : Valkey where
  book _ _ := SortedSet.empty
  order _ := none
  ttl _ := none
  version _ := none
  balance _ _ := ⟨0,0⟩

def zadd (db : Valkey) (pair : String) (side : Side) (score : ℤ) (id : Uuid) : Valkey :=
  { db with book := fun p s => if p = pair ∧ s = side then (db.book p s).add score id else db.book p s }

def zrem (db : Valkey) (pair : String) (side : Side) (id : Uuid) : Valkey :=
  { db with book := fun p s => if p = pair ∧ s = side then (db.book p s).remove id else db.book p s }

/-- `HSET` keeps the expiry of an existing key. -/
def hset (db : Valkey) (id : Uuid) (h : OrderHash) : Valkey :=
  { db with order := Function.update db.order id (some h) }

/-- `DEL` drops the key together with its expiry. -/
def del (db : Valkey) (id : Uuid) : Valkey :=
  { db with order := Function.update db.order id none, ttl := Function.update db.ttl id none }

def expire (db : Valkey) (id : Uuid) (seconds : ℕ) : Valkey :=
  { db with ttl := Function.update db.ttl id (some (1000 * seconds)) }

def incrVersion (db : Valkey) (pair : String) : Valkey :=
  { db with version := Function.update db.version pair (some ((db.version pair).getD 0 + 1)) }

/-- `HINCRBY available -amount` followed by `HINCRBY locked amount`. -/
def moveToLocked (db : Valkey) (user asset : String) (amount : ℤ) : Valkey :=
  { db with balance := fun u a =>
      if u = user ∧ a = asset then ⟨(db.balance u a).available - amount,(db.balance u a).locked + amount⟩
      else db.balance u a }

/-- `ZREM` and `DEL` of one resting order, the removal used by the script and by cancels. -/
def dropOrder (db : Valkey) (pair : String) (side : Side) (id : Uuid) : Valkey :=
  (db.zrem pair side id).del id

section Projections
variable (db : Valkey) (pair p : String) (side s : Side) (id x : Uuid)

@[simp] lemma dropOrder_order :
    (db.dropOrder pair side id).order x = if x = id then none else db.order x := by
  simp [dropOrder, del, zrem, Function.update_apply]

@[simp] lemma dropOrder_book : (db.dropOrder pair side id).book p s =
    if p = pair ∧ s = side then (db.book p s).remove id else db.book p s := rfl

@[simp] lemma dropOrder_balance : (db.dropOrder pair side id).balance = db.balance := rfl

@[simp] lemma dropOrder_version : (db.dropOrder pair side id).version = db.version := rfl

@[simp] lemma hset_order (h : OrderHash) :
    (db.hset id h).order x = if x = id then some h else db.order x := by
  simp [hset, Function.update_apply]

@[simp] lemma hset_book (h : OrderHash) : (db.hset id h).book = db.book := rfl

@[simp] lemma hset_balance (h : OrderHash) : (db.hset id h).balance = db.balance := rfl

@[simp] lemma hset_version (h : OrderHash) : (db.hset id h).version = db.version := rfl

@[simp] lemma zadd_order (score : ℤ) : (db.zadd pair side score id).order = db.order := rfl

@[simp] lemma zadd_book (score : ℤ) : (db.zadd pair side score id).book p s =
    if p = pair ∧ s = side then (db.book p s).add score id else db.book p s := rfl

@[simp] lemma zadd_balance (score : ℤ) : (db.zadd pair side score id).balance = db.balance := rfl

@[simp] lemma expire_order (n : ℕ) : (db.expire id n).order = db.order := rfl

@[simp] lemma expire_book (n : ℕ) : (db.expire id n).book = db.book := rfl

@[simp] lemma expire_balance (n : ℕ) : (db.expire id n).balance = db.balance := rfl

@[simp] lemma incrVersion_order : (db.incrVersion pair).order = db.order := rfl

@[simp] lemma incrVersion_book : (db.incrVersion pair).book = db.book := rfl

@[simp] lemma incrVersion_balance : (db.incrVersion pair).balance = db.balance := rfl

@[simp] lemma moveToLocked_order (user asset : String) (n : ℤ) :
    (db.moveToLocked user asset n).order = db.order := rfl

@[simp] lemma moveToLocked_book (user asset : String) (n : ℤ) :
    (db.moveToLocked user asset n).book = db.book := rfl

end Projections

/-- `remove_order_from_book`: the order's pair and side select the set. -/
def removeOrderFromBook (db : Valkey) (order : Order) : Valkey :=
  db.dropOrder order.pairId order.side order.id

end Valkey
end MatchingEngine

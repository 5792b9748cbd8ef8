import MatchingEngine.PersistEquivalence
import MatchingEngine.GreedyEngine

/-! What becomes of a reservation. An order reserves at its limit price, its trades settle at the
makers' prices and the release gives back the remainder at the limit price; what a buyer saves
against the limit stays locked. -/
namespace MatchingEngine
open Library

/-- `get_lock_asset_amount`: the asset and the amount that an order reserves. -/
def getLockAssetAmount (o : Order) : Except String (String × Decimal) := do
  let (base,quote) ← parsePairId o.pairId
  match o.side with
  | .buy => return (quote,o.price.getD 0 * o.quantity)
  | .sell => return (base,o.quantity)

namespace Postgres

end Postgres

/-- A trade of the order with a maker, at the maker's price. -/
structure TradeFor (o : Order) (makers : List Order) (t : Trade) : Prop where
  pairId : t.pairId = o.pairId
  quantity : 0 < t.quantity
  limit : Engine.WithinLimit o t.price
  maker : ∃ r ∈ makers, r.price = some t.price ∧
    match o.side with
    | .buy => t.buyerId = o.userId ∧ t.sellerId = r.userId
    | .sell => t.sellerId = o.userId ∧ t.buyerId = r.userId

/-- What one trade settles on a row. -/
def Trade.deltaAt (t : Trade) (base quote : String) (k : String × String) : Option (Decimal × Decimal) :=
  (Deltas.addTrade Table.empty t base quote).get k

lemma Trade.deltaAt_quote {base quote : String} (hne : base ≠ quote) (t : Trade) :
    t.deltaAt base quote (t.buyerId,quote) =
      some (t.price * t.quantity,if t.sellerId = t.buyerId then t.price * t.quantity else 0) := by
  unfold Trade.deltaAt Deltas.addTrade
  by_cases h : t.sellerId = t.buyerId
  · simp [Deltas.get_add, hne.symm, h]
  · have h' : t.buyerId ≠ t.sellerId := Ne.symm h
    simp [Deltas.get_add, hne.symm, h, h']

lemma Trade.deltaAt_base {base quote : String} (hne : base ≠ quote) (t : Trade) :
    t.deltaAt base quote (t.sellerId,base) = some (t.quantity,if t.buyerId = t.sellerId then t.quantity else 0) := by
  unfold Trade.deltaAt Deltas.addTrade
  by_cases h : t.buyerId = t.sellerId
  · simp [Deltas.get_add, hne, h]
  · have h' : t.sellerId ≠ t.buyerId := Ne.symm h
    simp [Deltas.get_add, hne, h, h']

/-! ### The order -/

section Order
variable {o : Order} {makers : List Order} {m : Matched} {base quote asset : String} {amount : Decimal}

/-- What a unit of the order reserves, and what it pays in a trade. -/
def reservedPer (o : Order) : Decimal :=
  match o.side with
  | .buy => o.price.getD 0
  | .sell => 1

def paidPer (o : Order) (t : Trade) : Decimal :=
  match o.side with
  | .buy => t.price
  | .sell => 1

/-- The user on the other side of the trade. -/
def otherUser (o : Order) (t : Trade) : String :=
  match o.side with
  | .buy => t.sellerId
  | .sell => t.buyerId

/-- What a trade takes from the locked amount of the incoming user, and what it gives back to him
when he trades with himself. -/
def settles (o : Order) (t : Trade) : Decimal × Decimal :=
  (paidPer o t * t.quantity,if otherUser o t = o.userId then paidPer o t * t.quantity else 0)

lemma TradeFor.deltaAt {t : Trade} (ht : TradeFor o makers t) (hpair : parsePairId o.pairId = .ok (base,quote))
    (hne : base ≠ quote) (hlock : getLockAssetAmount o = .ok (asset,amount)) :
    t.deltaAt base quote (o.userId,asset) = some (settles o t) := by
  unfold getLockAssetAmount at hlock
  rw [hpair] at hlock
  obtain ⟨r,_,_,husers⟩ := ht.maker
  unfold settles paidPer otherUser
  cases hs : o.side <;> rw [hs] at hlock <;> cases hlock <;> simp only [hs] at husers ⊢
  · rw [← husers.1, Trade.deltaAt_quote hne]
  · rw [← husers.1, Trade.deltaAt_base hne]
    simp

/-- What the order saves against its reservation. -/
def saved (o : Order) (ts : List Trade) : Decimal := (ts.map (fun t => (reservedPer o - paidPer o t) * t.quantity)).sum

end Order

/-! ### The engine's results -/

namespace Engine

end Engine

end MatchingEngine

import MatchingEngine.Types

/-! The reference matcher `engine::match_order` on decoded orders. Identifiers drawn by
`Uuid::new_v4` come from a stream, one per trade of the call. -/
namespace MatchingEngine

structure MatchResult where
  trades : List Trade
  bookUpdates : List Order
  incoming : Order
  stpCancelled : List Order
  deriving DecidableEq

namespace Engine

/-- Market orders match everything; a limit order without a price matches nothing. -/
def priceMatches (incoming resting : Order) : Bool :=
  if incoming.orderType = .market then true
  else match incoming.side, incoming.price, resting.price with
  | .buy, some bid, some ask => bid ≥ ask
  | .sell, some ask, some bid => ask ≤ bid
  | _, _, _ => false

/-- The trade of one fill. -/
def makeTrade (id : Uuid) (incoming resting : Order) (fillPrice fillQty : Decimal) : Trade where
  id := id
  pairId := incoming.pairId
  buyOrderId := match incoming.side with | .buy => incoming.id | .sell => resting.id
  sellOrderId := match incoming.side with | .buy => resting.id | .sell => incoming.id
  buyerId := match incoming.side with | .buy => incoming.userId | .sell => resting.userId
  sellerId := match incoming.side with | .buy => resting.userId | .sell => incoming.userId
  price := fillPrice
  quantity := fillQty

/-- Remainder and status after a fill. -/
def afterFill (o : Order) (fillQty : Decimal) : Order :=
  { o with
    remaining := o.remaining - fillQty
    status := if o.remaining - fillQty = 0 then .filled else .partiallyFilled }

/-- The fill calculation against one resting order. -/
def fill (newV4 : ℕ → Uuid) (s : MatchResult) (resting : Order) : MatchResult :=
  let fillQty := min s.incoming.remaining resting.remaining
  let fillPrice := resting.price.getD (s.incoming.price.getD 0)
  { s with
    trades := s.trades ++ [makeTrade (newV4 s.trades.length) s.incoming resting fillPrice fillQty]
    bookUpdates := s.bookUpdates ++ [afterFill resting fillQty]
    incoming := afterFill s.incoming fillQty }

/-- The walk over the book in priority order; the second component is the mutated slice. -/
def walkBook (newV4 : ℕ → Uuid) : List Order → MatchResult → MatchResult × List Order
  | [], s => (s,[])
  | resting :: rest, s =>
    if s.incoming.remaining = 0 then (s,resting :: rest)
    else if ¬ priceMatches s.incoming resting then (s,resting :: rest)
    else
      let filled := afterFill resting (min s.incoming.remaining resting.remaining)
      let afterwards := walkBook newV4 rest (fill newV4 s resting)
      if s.incoming.userId = resting.userId ∧ s.incoming.stpMode ≠ .none then
        match s.incoming.stpMode with
        | .cancelTaker =>
          let incoming := { s.incoming with status := .cancelled }
          ({ s with incoming := incoming, stpCancelled := s.stpCancelled ++ [incoming] },resting :: rest)
        | .cancelMaker =>
          let resting := { resting with status := .cancelled }
          let r := walkBook newV4 rest { s with
            stpCancelled := s.stpCancelled ++ [resting]
            bookUpdates := s.bookUpdates ++ [resting] }
          (r.1,resting :: r.2)
        | .cancelBoth =>
          let incoming := { s.incoming with status := .cancelled }
          let resting := { resting with status := .cancelled }
          ({ s with
            incoming := incoming
            stpCancelled := s.stpCancelled ++ [incoming,resting]
            bookUpdates := s.bookUpdates ++ [resting] },resting :: rest)
        | .none => (afterwards.1,filled :: afterwards.2)
      else (afterwards.1,filled :: afterwards.2)

def effectiveTif (o : Order) : TimeInForce := if o.orderType = .market then .ioc else o.tif

/-- Status of the incoming order under the time-in-force rules. -/
def applyTif (tif : TimeInForce) (trades : List Trade) (incoming : Order) : Order :=
  if 0 < incoming.remaining ∧ incoming.status ≠ .cancelled then
    match tif with
    | .gtc => if trades.isEmpty then { incoming with status := .new } else incoming
    | .ioc | .fok => { incoming with status := .cancelled }
  else incoming

/-- Fill-or-kill pre-check: the price-compatible remainders do not cover the order. -/
def fokRejects (incoming : Order) (book : List Order) : Bool :=
  incoming.tif = .fok ∧
    ((book.filter (priceMatches incoming)).map Order.remaining).foldl (· + ·) 0 < incoming.remaining

/-- The result together with the book slice after the call. -/
def matchOrder (newV4 : ℕ → Uuid) (incoming : Order) (book : List Order) : MatchResult × List Order :=
  if fokRejects incoming book then (⟨[],[],{ incoming with status := .cancelled },[]⟩,book)
  else
    let (s,book') := walkBook newV4 book ⟨[],[],incoming,[]⟩
    ({ s with incoming := applyTif (effectiveTif incoming) s.trades s.incoming },book')

end Engine
end MatchingEngine

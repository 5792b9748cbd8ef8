import MatchingEngine.Cancellation
import MatchingEngine.PersistPaths

/-! The asset an order is paid from, on the four paths that name it: the lock of the worker, the
settlement of its trades, the release when it is resolved and the release of a cancel. The last one
does not look at the quote asset of the pair. -/
namespace MatchingEngine
open Library

section Paths
variable {o : Order} {base quote : String}

end Paths

/-- A bid for ten bitcoin at ten billion dollars each overflows the lock, which is of nothing. -/
example : let o := { Order.gtcLimit 1 "bob" "BTC-USDT" .buy 0 0 with price := some (10 ^ 10), quantity := 10, remaining := 10 }
    lockParams o = .ok ("USDT",0) ∧ releaseParams o = .ok ("USDT",10 ^ 11) := by
  decide +kernel

end MatchingEngine

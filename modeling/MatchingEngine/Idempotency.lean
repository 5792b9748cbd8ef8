import MatchingEngine.ApiWorker
import MatchingEngine.CancelledMakers
import MatchingEngine.Conservation
import MatchingEngine.Failures
import MatchingEngine.MarketOrders

/-! Submitting a request twice. The client order id is looked at by the unique index of the
orders table only, which is reached after the order has been matched a second time under an
id of its own. Of both replies the numbers are below `10^14`, where the decoder keeps them. -/
namespace MatchingEngine
open Library

/-- The same market and the same rows. -/
structure System.Same (s s' : System) : Prop where
  market : s.db.SameMarket s'.db
  orders : ∀ id, s'.pg.orders.get id = s.pg.orders.get id
  trades : ∀ id, s'.pg.trades.get id = s.pg.trades.get id
  balances : ∀ k, s'.pg.balances.get k = s.pg.balances.get k

lemma clientOrderIdTaken_iff {pg : Postgres} {o : Order} : pg.clientOrderIdTaken o = true ↔
    o.clientOrderId.isSome ∧ ∃ k r, pg.orders.get k = some r ∧ r.userId = o.userId ∧ r.clientOrderId = o.clientOrderId := by
  simp only [Postgres.clientOrderIdTaken, Bool.and_eq_true, List.any_eq_true, decide_eq_true_eq, Prod.exists]
  refine and_congr_right (fun _ => exists₂_congr (fun k r => and_congr_left (fun _ => ?_)))
  exact ⟨Table.get_of_mem,Table.mem_of_get⟩

section Resubmitted
variable {pairs : PairsCache} {s s' : System} {msg : QueuedOrderMsg} {d : Draws} {o order : Order} {asset : String}
  {amount : ℤ} {db₁ : Valkey}

lemma Gateway.Runs.persisted (hrun : Gateway.Runs pairs s msg d o asset amount db₁) (hwarm : isWarmup o = false)
    (h : Gateway.processOrder pairs s msg d = (.ok order,s')) :
    ∃ pg, s.pg.persistOrder (o.matchedOn s.db d.tradeId asset amount) = .ok pg ∧
      s' = ⟨Gateway.scriptDb s o asset amount db₁,pg⟩ := by
  rw [hrun.processOrder_eq] at h
  simp only [hwarm, Bool.false_eq_true, if_false] at h
  cases hp : s.pg.persistOrder (o.matchedOn s.db d.tradeId asset amount) with
  | error e =>
    rw [hp] at h
    cases h
  | ok pg =>
    rw [hp] at h
    cases h
    exact ⟨pg,rfl,rfl⟩

end Resubmitted

lemma System.Same.refl (s : System) : s.Same s :=
  ⟨⟨rfl,rfl,rfl⟩,fun _ => rfl,fun _ => rfl,fun _ => rfl⟩

section Twice
variable {pairs : PairsCache} {req : CreateOrderRequest} {client : String} {id₁ id₂ : Uuid} {now₁ now₂ : ℤ}
  {msg₁ msg₂ : QueuedOrderMsg} {d₁ d₂ : Draws} {s s₁ s₂ : System} {o₁ o₂ : Order}

end Twice

end MatchingEngine

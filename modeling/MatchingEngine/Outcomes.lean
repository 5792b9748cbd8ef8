import MatchingEngine.SelfTrade
import MatchingEngine.Session

/-! The outcomes of `process_order`: refused without a trace, killed, or matched, with or
without a transaction behind it. -/
namespace MatchingEngine
open Library

/-- The matched order that a successful script run hands on. -/
def Order.matchedOn (o : Order) (db : Valkey) (newV4 : ℕ → Uuid) (lockAsset : String) (lockAmountScaled : ℤ) : Matched :=
  let a := matchArgs o lockAsset lockAmountScaled
  let order := { o with remaining := i64ToDecimal (a.planOn db).remainingI, status := (a.planOn db).status a }
  let luaTrades := ((a.planOn db).trades a).map ScriptTrade.toLuaTrade
  ⟨order,buildTrades newV4 order luaTrades,luaTrades⟩

lemma evalOrder_of_lock {db db₁ : Valkey} (newV4 : ℕ → Uuid) {o : Order} {asset : String} {amount : ℤ}
    (hp : lockParams o = .ok (asset,amount)) (hl : lockBalance db (matchArgs o asset amount) = some db₁) :
    evalOrder db newV4 o = (.ok (o.matchedOn db newV4 asset amount),
      (matchArgs o asset amount).settle db₁ ((matchArgs o asset amount).planOn db)) := by
  simp only [evalOrder, hp, matchOrderLua_of_lock hl]
  rfl

lemma evalOrder_of_no_lock {db : Valkey} (newV4 : ℕ → Uuid) {o : Order} {asset : String} {amount : ℤ}
    (hp : lockParams o = .ok (asset,amount)) (hl : lockBalance db (matchArgs o asset amount) = none) :
    ∃ e, evalOrder db newV4 o = (.error e,db) := by
  simp only [evalOrder, hp, matchOrderLua, matchOrderScript_eq, hl]
  exact ⟨_,rfl⟩

lemma acceptOrder_ok {pairs : PairsCache} {msg : QueuedOrderMsg} {d : Draws} {o : Order}
    (h : Gateway.acceptOrder pairs msg d = .ok o) :
    checkOrder o.orderType o.price o.quantity = .ok () ∧ validateOrder pairs o = .ok () := by
  obtain ⟨o₁,hparse,h⟩ := exists_of_bind_ok h
  obtain ⟨_,hvalid,h⟩ := exists_of_bind_ok h
  cases h
  -- whatever id is used, the parsed order goes through the checks
  have hjoin : ∃ id, (do
      let order ← parseFields msg id (msg.timeInForce.getD msg.tif) d.now
      checkOrder order.orderType order.price order.quantity
      pure order) = Except.ok o := by
    unfold Gateway.parseOrder at hparse
    split at hparse
    · exact ⟨_,hparse⟩
    · split_ifs at hparse
      · exact ⟨_,hparse⟩
      · cases hparse
    · exact ⟨_,hparse⟩
  obtain ⟨id,hjoin⟩ := hjoin
  obtain ⟨o₂,_,h⟩ := exists_of_bind_ok hjoin
  obtain ⟨_,hcheck,h⟩ := exists_of_bind_ok h
  cases h
  exact ⟨hcheck,hvalid⟩

/-- A request that got through the script. -/
structure Gateway.Runs (pairs : PairsCache) (s : System) (msg : QueuedOrderMsg) (d : Draws) (o : Order) (asset : String)
    (amount : ℤ) (db₁ : Valkey) : Prop where
  accepted : Gateway.acceptOrder pairs msg d = .ok o
  tif : o.tif ≠ .fok
  lock : lockParams o = .ok (asset,amount)
  funded : lockBalance s.db (matchArgs o asset amount) = some db₁

/-- The store after the script. -/
def Gateway.scriptDb (s : System) (o : Order) (asset : String) (amount : ℤ) (db₁ : Valkey) : Valkey :=
  (matchArgs o asset amount).settle db₁ ((matchArgs o asset amount).planOn s.db)

section Outcomes
variable {pairs : PairsCache} {s : System} {msg : QueuedOrderMsg} {d : Draws}

lemma Gateway.Runs.processOrder_eq {o : Order} {asset : String} {amount : ℤ} {db₁ : Valkey}
    (h : Gateway.Runs pairs s msg d o asset amount db₁) :
    Gateway.processOrder pairs s msg d =
      let m := o.matchedOn s.db d.tradeId asset amount
      let db := Gateway.scriptDb s o asset amount db₁
      if isWarmup o then (.ok m.order,{ s with db := db })
      else match s.pg.persistOrder m with
      | .error e => (.error ("DB persist failed: " ++ e),{ s with db := db })
      | .ok pg => (.ok m.order,⟨db,pg⟩) := by
  simp only [Gateway.processOrder, h.accepted, if_neg h.tif, evalOrder_of_lock d.tradeId h.lock h.funded]
  rfl

/-- A request is refused, killed, or gets through the script. -/
theorem Gateway.processOrder_cases (pairs : PairsCache) (s : System) (msg : QueuedOrderMsg) (d : Draws) :
    (∃ e, Gateway.processOrder pairs s msg d = (.error e,s)) ∨
    (∃ o, Gateway.acceptOrder pairs msg d = .ok o ∧ o.tif = .fok ∧
      Gateway.processOrder pairs s msg d = (.ok { o with status := .cancelled },s)) ∨
    ∃ o asset amount db₁, Gateway.Runs pairs s msg d o asset amount db₁ := by
  cases ha : Gateway.acceptOrder pairs msg d with
  | error e => exact .inl ⟨e,by simp [Gateway.processOrder, ha]⟩
  | ok o =>
    by_cases hf : o.tif = .fok
    · exact .inr (.inl ⟨o,rfl,hf,by simp [Gateway.processOrder, ha, hf]⟩)
    cases hp : lockParams o with
    | error e => exact .inl ⟨e,by simp [Gateway.processOrder, ha, hf, evalOrder, hp]⟩
    | ok p =>
      obtain ⟨asset,amount⟩ := p
      cases hl : lockBalance s.db (matchArgs o asset amount) with
      | none =>
        obtain ⟨e,he⟩ := evalOrder_of_no_lock d.tradeId hp hl
        exact .inl ⟨e,by simp [Gateway.processOrder, ha, hf, he]⟩
      | some db₁ => exact .inr (.inr ⟨o,asset,amount,db₁,ha,hf,hp,hl⟩)

lemma Gateway.Runs.stores {o : Order} {asset : String} {amount : ℤ} {db₁ : Valkey}
    (h : Gateway.Runs pairs s msg d o asset amount db₁) :
    (Gateway.processOrder pairs s msg d).2.db = Gateway.scriptDb s o asset amount db₁ ∧
    ((Gateway.processOrder pairs s msg d).2.pg = s.pg ∨
      s.pg.persistOrder (o.matchedOn s.db d.tradeId asset amount) = .ok (Gateway.processOrder pairs s msg d).2.pg) := by
  rw [h.processOrder_eq]
  simp only
  split_ifs
  · exact ⟨rfl,.inl rfl⟩
  · cases hp : s.pg.persistOrder (o.matchedOn s.db d.tradeId asset amount) with
    | error e => exact ⟨rfl,.inl rfl⟩
    | ok pg => exact ⟨rfl,.inr rfl⟩

end Outcomes
end MatchingEngine

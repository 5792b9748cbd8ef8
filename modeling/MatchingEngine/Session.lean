import MatchingEngine.BookInvariant
import MatchingEngine.Gateway

/-! Runs of `process_order` with their history. On the Valkey side a session is a run of the
matcher in which every lock is the one computed from the order, so the invariants of matcher
runs carry over. -/
namespace MatchingEngine
open Library

/-- An order handed to the script, with what the call took from its owner's available
balance of the lock asset. -/
structure Submission where
  order : Order
  lockedI : ℤ

structure Session where
  sys : System
  history : List Submission
  fills : List Fill

namespace Session

/-- The matcher's view of a session. -/
def exchange (s : Session) : Exchange := ⟨s.sys.db,s.history.map Submission.order,s.fills⟩

/-- One request: the stores after `process_order`, and the history when it reached the script. -/
def process (pairs : PairsCache) (s : Session) (msg : QueuedOrderMsg) (d : Draws) : Session :=
  let sys := (Gateway.processOrder pairs s.sys msg d).2
  match Gateway.acceptOrder pairs msg d with
  | .error _ => { s with sys := sys }
  | .ok o =>
    if o.tif = .fok then { s with sys := sys }
    else match lockParams o with
    | .error _ => { s with sys := sys }
    | .ok (asset,amount) =>
      ⟨sys,
        s.history ++ [⟨o,(s.sys.db.balance o.userId asset).available - (sys.db.balance o.userId asset).available⟩],
        s.fills ++ (matchOrderScript s.sys.db (matchArgs o asset amount)).1.trades.map (Fill.mk o.id)⟩

/-- A request whose order, if accepted, has a fresh id and is allowed by `Admit`. -/
def Step (pairs : PairsCache) (Admit : Session → Order → Prop) (s s' : Session) : Prop :=
  ∃ msg d, (∀ o ∈ (Gateway.acceptOrder pairs msg d).toOption, (∀ h ∈ s.history, h.order.id ≠ o.id) ∧ Admit s o) ∧
    s' = s.process pairs msg d

/-- Sessions that start with an empty book, in a state satisfying `Init`. -/
def Reachable (pairs : PairsCache) (Init : System → Prop) (Admit : Session → Order → Prop) (s : Session) : Prop :=
  ∃ sys, sys.db.EmptyBook ∧ Init sys ∧ Relation.ReflTransGen (Step pairs Admit) ⟨sys,[],[]⟩ s

end Session

/-- The amount to lock is in the range where Lua numbers are exact integers. -/
def Order.LockInScale (o : Order) : Prop := ∀ p ∈ (lockParams o).toOption, |p.2| ≤ 2 ^ 53

instance (o : Order) : Decidable o.LockInScale := inferInstanceAs (Decidable (∀ p ∈ (lockParams o).toOption, _))

/-- No orders yet, and everybody owns the same available amount of everything. -/
def Session.funded (available : ℤ) : Session :=
  ⟨⟨{ Valkey.empty with balance := fun _ _ => ⟨available,0⟩ },Postgres.empty⟩,[],[]⟩

lemma Plan.Rests.isOpen {a : MatchArgs} {p : Plan} (h : p.Rests a) : (p.status a).IsOpen := by
  obtain ⟨htif,hrem,hst⟩ := h
  cases hs : p.stpCancelled with
  | true => exact absurd (Plan.status_of_stopped hs) hst
  | false =>
    rw [Plan.status_of_pos hs hrem, if_neg (by simp [htif])]
    split_ifs
    · exact .inr rfl
    · exact .inl rfl

lemma evalOrder_db (db : Valkey) (newV4 : ℕ → Uuid) {o : Order} {asset : String} {amount : ℤ}
    (hl : lockParams o = .ok (asset,amount)) :
    (evalOrder db newV4 o).2 = (matchOrderScript db (matchArgs o asset amount)).2 := by
  unfold evalOrder
  rw [hl]
  simp only [matchOrderLua]
  rcases matchOrderScript db (matchArgs o asset amount) with ⟨_ | ⟨r,st,ts⟩,db'⟩ <;> rfl

lemma evalOrder_db_of_error (db : Valkey) (newV4 : ℕ → Uuid) {o : Order} {e : String}
    (hl : lockParams o = .error e) : (evalOrder db newV4 o).2 = db := by
  unfold evalOrder
  rw [hl]

lemma processOrder_db (pairs : PairsCache) (s : System) (msg : QueuedOrderMsg) (d : Draws) :
    (Gateway.processOrder pairs s msg d).2.db =
      match Gateway.acceptOrder pairs msg d with
      | .error _ => s.db
      | .ok o => if o.tif = .fok then s.db else (evalOrder s.db d.tradeId o).2 := by
  unfold Gateway.processOrder
  cases Gateway.acceptOrder pairs msg d with
  | error e => rfl
  | ok o =>
    by_cases hf : o.tif = .fok
    · simp [hf]
    · simp only [if_neg hf]
      rcases evalOrder s.db d.tradeId o with ⟨_ | m,db⟩
      · rfl
      · simp only
        split_ifs
        · rfl
        · cases s.pg.persistOrder m <;> rfl

/-- A request is a call of the matcher with the order's own lock, or leaves book, history and
trades alone. -/
theorem Session.process_cases (pairs : PairsCache) (s : Session) (msg : QueuedOrderMsg) (d : Draws) :
    ((s.process pairs msg d).exchange = s.exchange ∧ (s.process pairs msg d).history = s.history) ∨
    ∃ o asset amount, Gateway.acceptOrder pairs msg d = .ok o ∧ o.tif ≠ .fok ∧ lockParams o = .ok (asset,amount) ∧
      (s.process pairs msg d).exchange = s.exchange.submit o asset amount ∧
      (s.process pairs msg d).history = s.history ++ [⟨o,(s.sys.db.balance o.userId asset).available -
        ((s.exchange.submit o asset amount).db.balance o.userId asset).available⟩] := by
  have hdb := processOrder_db pairs s.sys msg d
  unfold Session.process
  cases ha : Gateway.acceptOrder pairs msg d with
  | error e =>
    rw [ha] at hdb
    exact .inl ⟨by simp [Session.exchange, hdb],rfl⟩
  | ok o =>
    simp only [ha] at hdb
    by_cases hf : o.tif = .fok
    · rw [if_pos hf] at hdb
      exact .inl ⟨by simp [Session.exchange, hf, hdb],by simp [hf]⟩
    · rw [if_neg hf] at hdb
      cases hl : lockParams o with
      | error e =>
        rw [evalOrder_db_of_error _ _ hl] at hdb
        exact .inl ⟨by simp [Session.exchange, hf, hl, hdb],by simp [hf, hl]⟩
      | ok p =>
        obtain ⟨asset,amount⟩ := p
        rw [evalOrder_db _ _ hl] at hdb
        refine .inr ⟨o,asset,amount,rfl,hf,hl,?_,?_⟩
        · simp [Session.exchange, Exchange.submit, hf, hl, hdb]
        · simp [Session.exchange, Exchange.submit, hf, hl, hdb]

/-- A session is a run of the matcher. -/
theorem Session.Reachable.exchange {pairs : PairsCache} {Init : System → Prop} {Admit : Session → Order → Prop}
    {P : Order → Prop} (hP : ∀ s o, Admit s o → P o) {s : Session} (h : s.Reachable pairs Init Admit) :
    MatchingEngine.Reachable (fun _ o => P o) s.exchange := by
  obtain ⟨sys,hbook,_,hrun⟩ := h
  refine ⟨sys.db,hbook,?_⟩
  induction hrun with
  | refl => exact .refl
  | @tail t u _ hstep ih =>
    obtain ⟨msg,d,hadm,rfl⟩ := hstep
    rcases t.process_cases pairs msg d with ⟨he,_⟩ | ⟨o,asset,amount,ha,_,_,he,_⟩
    · rw [he]
      exact ih
    · obtain ⟨hfresh,hallowed⟩ := hadm o (by rw [ha]; rfl)
      rw [he]
      refine ih.tail (.submit o asset amount ?_ (hP t o hallowed))
      intro p hp
      obtain ⟨x,hx,rfl⟩ := List.mem_map.mp hp
      exact hfresh x hx

end MatchingEngine

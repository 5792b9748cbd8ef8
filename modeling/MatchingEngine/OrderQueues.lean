import MatchingEngine.Debouncer
import MatchingEngine.Library.Consumer

/-! The order queues of the api worker. Each pair has a queue with a consumer of its own, and there is
a fallback queue; every consumer drains up to ten messages at a time and has three of them processed
concurrently. An order takes effect with the script that its task evaluates. -/
namespace MatchingEngine
open Library

/-- `queue:orders:{pair}` and `queue:orders`. -/
inductive OrderQueue
  | pair (i : Fin 3)
  | fallback
  deriving DecidableEq, Fintype

/-- The semaphore of `pair_order_consumer` and of `fallback_order_consumer`. -/
def OrderQueue.permits : ℕ := 3

/-- The pops after the first. -/
def OrderQueue.drainLimit : ℕ := 9

/-- What `process_queued_order` submits to the script. -/
def Api.submitted (pairs : PairsCache) (msg : QueuedOrderMsg) (d : Draws) : Option (Order × String × ℤ) :=
  match Api.parseOrder msg d.now with
  | .error _ => none
  | .ok order =>
    match validateOrder pairs order with
    | .error _ => none
    | .ok () =>
      match lockParams order with
      | .error _ => none
      | .ok (lockAsset,lockAmountScaled) => if order.tif = .fok then none else some (order,lockAsset,lockAmountScaled)

/-- The exchange after a task; a message may not even be JSON. -/
def Exchange.processText (pairs : PairsCache) (e : Exchange) (msg : Text QueuedOrderMsg) (d : Draws) : Exchange :=
  match msg with
  | .malformed _ => e
  | .value msg =>
    match Api.submitted pairs msg d with
    | none => e
    | some (order,lockAsset,lockAmountScaled) => e.submit order lockAsset lockAmountScaled

structure QueueWorker where
  exchange : Exchange
  consumer : OrderQueue → Consumer (Text QueuedOrderMsg)

namespace QueueWorker

def start (db : Valkey) : QueueWorker := ⟨⟨db,[],[]⟩,fun _ => .empty⟩

/-- A step of a consumer or of one of its tasks. -/
inductive Works (pairs : PairsCache) : QueueWorker → QueueWorker → Prop
  | consume {s : QueueWorker} (q : OrderQueue) {c : Consumer (Text QueuedOrderMsg)}
      (h : Consumer.Step OrderQueue.permits OrderQueue.drainLimit (s.consumer q) none c) :
      Works pairs s { s with consumer := Function.update s.consumer q c }
  | execute {s : QueueWorker} (q : OrderQueue) {c : Consumer (Text QueuedOrderMsg)} {x : ℕ} {msg : Text QueuedOrderMsg} (d : Draws)
      (h : Consumer.Step OrderQueue.permits OrderQueue.drainLimit (s.consumer q) (some x) c)
      (hmsg : (s.consumer q).pushed[x]? = some msg) :
      Works pairs s ⟨s.exchange.processText pairs msg d,Function.update s.consumer q c⟩

/-- Messages are pushed, and orders that were submitted are cancelled, at any time. -/
inductive Step (pairs : PairsCache) : QueueWorker → QueueWorker → Prop
  | push {s : QueueWorker} (q : OrderQueue) (msg : Text QueuedOrderMsg) :
      Step pairs s { s with consumer := Function.update s.consumer q ((s.consumer q).push msg) }
  | works {s s' : QueueWorker} (h : Works pairs s s') : Step pairs s s'
  | cancel {s : QueueWorker} (o c : Order) (known : o ∈ s.exchange.submitted) (hid : c.id = o.id) (hpair : c.pairId = o.pairId)
      (hside : c.side = o.side) : Step pairs s { s with exchange := s.exchange.remove c }

def Reachable (pairs : PairsCache) (db : Valkey) (s : QueueWorker) : Prop := Relation.ReflTransGen (Step pairs) (start db) s

/-- The message that was pushed to a queue under a number. -/
def Pushed (s : QueueWorker) (q : OrderQueue) (x : ℕ) (msg : QueuedOrderMsg) : Prop :=
  (s.consumer q).pushed[x]? = some (.value msg)

/-- The messages in the queues are those of `create_order`: each has an id of its own and a positive
quantity. -/
structure Distinct (s : QueueWorker) : Prop where
  id : ∀ q x m q' x' m', s.Pushed q x m → s.Pushed q' x' m' → m.id = m'.id → q = q' ∧ x = x'
  quantity : ∀ q x m, s.Pushed q x m → ∀ quantity, m.quantity = .value quantity → 0 < quantity

end QueueWorker

/-! ### Tasks -/

section Tasks
variable {pairs : PairsCache}

/-- An evaluated task leaves the store of `process_queued_order`. -/
theorem Exchange.processText_db (e : Exchange) (msg : QueuedOrderMsg) (d : Draws) :
    (e.processText pairs (.value msg) d).db = (Api.processQueuedOrder pairs e.db msg d).2 := by
  simp only [Exchange.processText, Api.submitted, Api.processQueuedOrder]
  cases hp : Api.parseOrder msg d.now with
  | error x => rfl
  | ok o =>
    cases hv : validateOrder pairs o with
    | error x => simp only [hv]
    | ok _ =>
      cases hl : lockParams o with
      | error x => simp only [hv, hl]
      | ok p =>
        obtain ⟨asset,amount⟩ := p
        by_cases hf : o.tif = .fok
        · simp only [hv, hl, if_pos hf]
        · simp only [hv, hl, if_neg hf]
          cases hlock : lockBalance e.db (matchArgs o asset amount) with
          | none => simp only [submit_of_no_lock hlock, matchOrderLua, matchOrderScript_eq, hlock]
          | some db₁ => simp only [submit_of_lock hlock, matchOrderLua_of_lock hlock]

end Tasks

/-! ### Runs -/

namespace QueueWorker
variable {pairs : PairsCache} {db : Valkey} {s s' : QueueWorker}

/-- Every consumer keeps its accounts. -/
def Inv (s : QueueWorker) : Prop := ∀ q, (s.consumer q).Inv OrderQueue.permits OrderQueue.drainLimit

lemma Works.inv (h : Works pairs s s') (hs : s.Inv) : s'.Inv := by
  intro q
  cases h with
  | consume q' h =>
    by_cases hq : q = q'
    · subst hq
      simpa using (hs q).step h
    · simpa [hq] using hs q
  | execute q' d h hmsg =>
    by_cases hq : q = q'
    · subst hq
      simpa using (hs q).step h
    · simpa [hq] using hs q

lemma Step.inv (h : Step pairs s s') (hs : s.Inv) : s'.Inv := by
  cases h with
  | push q' msg =>
    intro q
    by_cases hq : q = q'
    · subst hq
      simpa using (hs q).push msg
    · simpa [hq] using hs q
  | works h => exact h.inv hs
  | cancel o c known hid hpair hside => exact hs

lemma Reachable.inv (h : Reachable pairs db s) : s.Inv := by
  induction h with
  | refl => exact fun _ => Consumer.inv_empty _ _
  | tail _ hstep ih => exact hstep.inv ih

lemma Works.pushed_eq (h : Works pairs s s') (q : OrderQueue) : (s'.consumer q).pushed = (s.consumer q).pushed := by
  cases h with
  | consume q' h =>
    by_cases hq : q = q'
    · subst hq
      simpa using h.pushed_eq
    · simp [hq]
  | execute q' d h hmsg =>
    by_cases hq : q = q'
    · subst hq
      simpa using h.pushed_eq
    · simp [hq]

lemma Step.pushed (h : Step pairs s s') {q : OrderQueue} {x : ℕ} {m : QueuedOrderMsg} (hm : s.Pushed q x m) : s'.Pushed q x m := by
  cases h with
  | push q' msg =>
    by_cases hq : q = q'
    · subst hq
      obtain ⟨hlt,_⟩ := List.getElem?_eq_some_iff.mp hm
      simpa [Pushed, Consumer.push, List.getElem?_append_left hlt] using hm
    · simpa [Pushed, hq] using hm
  | works h => rwa [Pushed, h.pushed_eq q]
  | cancel o c known hid hpair hside => exact hm

lemma Step.executed (h : Step pairs s s') {q : OrderQueue} {x : ℕ} (hx : x ∈ (s.consumer q).executed) :
    x ∈ (s'.consumer q).executed := by
  cases h with
  | push q' msg =>
    by_cases hq : q = q'
    · subst hq
      simpa [Consumer.push] using hx
    · simpa [hq] using hx
  | works h =>
    cases h with
    | consume q' h =>
      by_cases hq : q = q'
      · subst hq
        simpa [h.executed_eq] using hx
      · simpa [hq] using hx
    | execute q' d h hmsg =>
      by_cases hq : q = q'
      · subst hq
        simpa [h.executed_eq] using .inl hx
      · simpa [hq] using hx
  | cancel o c known hid hpair hside => exact hx

lemma Step.distinct (h : Step pairs s s') (hd : s'.Distinct) : s.Distinct :=
  ⟨fun q x m q' x' m' hm hm' => hd.id q x m q' x' m' (h.pushed hm) (h.pushed hm'),fun q x m hm => hd.quantity q x m (h.pushed hm)⟩

/-- The orders submitted are those of messages that have taken effect. -/
def Sourced (s : QueueWorker) : Prop := ∀ o ∈ s.exchange.submitted, ∃ q x m, s.Pushed q x m ∧
  x ∈ (s.consumer q).executed ∧ m.id = some (.value o.id)

/-- Work that is left in all queues. -/
def work (s : QueueWorker) : ℕ := ∑ q, (s.consumer q).work

lemma Works.work_lt (h : Works pairs s s') : s'.work < s.work := by
  have hupdate : ∀ {q : OrderQueue} {c : Consumer (Text QueuedOrderMsg)}, c.work < (s.consumer q).work →
      ∑ q', (Function.update s.consumer q c q').work < s.work := by
    intro q c hlt
    refine Finset.sum_lt_sum (fun q' _ => ?_) ⟨q,Finset.mem_univ q,by simpa using hlt⟩
    by_cases hq : q' = q
    · subst hq
      simpa using hlt.le
    · simp [hq]
  cases h with
  | consume q h => exact hupdate (Consumer.work_lt h)
  | execute q d h hmsg => exact hupdate (Consumer.work_lt h)

lemma Inv.works_of_step (pairs : PairsCache) (hs : s.Inv) {q : OrderQueue} {x : Option ℕ} {c : Consumer (Text QueuedOrderMsg)}
    (h : Consumer.Step OrderQueue.permits OrderQueue.drainLimit (s.consumer q) x c) : ∃ s', Works pairs s s' := by
  cases x with
  | none => exact ⟨_,.consume q h⟩
  | some x =>
    have hpos : 0 < (s.consumer q).running.count x := List.count_pos_iff.mpr h.mem_running
    have hlt : x < (s.consumer q).pushed.length := (hs q).lt_length (by omega)
    exact ⟨_,.execute q ⟨0,fun _ => 0,0⟩ h (List.getElem?_eq_getElem hlt)⟩

end QueueWorker

section Main
variable {pairs : PairsCache} {db : Valkey} {s : QueueWorker}

/-- At any time at most three orders of a queue are in flight and ten popped, no message takes effect
twice, and when one does at most two that were pushed before it have still to. -/
theorem orders_in_flight (h : QueueWorker.Reachable pairs db s) (q : OrderQueue) :
    (s.consumer q).executed.Nodup ∧ (s.consumer q).running.length + (s.consumer q).finishing.length ≤ 3 ∧
    (s.consumer q).batch.length ≤ 10 ∧
    ∀ before x after, (s.consumer q).executed = before ++ x :: after →
      (after ++ (s.consumer q).running ++ ((s.consumer q).batch ++ (s.consumer q).queue)).countP (· < x) ≤ 2 := by
  have hinv := h.inv q
  refine ⟨hinv.executed_nodup,hinv.busy,?_,fun before x after he => ?_⟩
  · have := hinv.drained
    rw [OrderQueue.drainLimit] at this
    omega
  · have := hinv.overtaken_all he
    rw [OrderQueue.permits] at this
    omega

/-- No message is stuck: once nobody pushes any more the consumers come to an end after a bounded number
of steps, and then every message took effect exactly once, unless its task failed before the script or
the reply of its pop was lost. -/
theorem queues_drain (h : QueueWorker.Reachable pairs db s) :
    (∀ n, ∀ f : ℕ → QueueWorker, f 0 = s → (∀ k < n, QueueWorker.Works pairs (f k) (f (k + 1))) → n ≤ s.work) ∧
    ∀ s', Relation.ReflTransGen (QueueWorker.Works pairs) s s' → (∀ s'', ¬ QueueWorker.Works pairs s' s'') → ∀ q,
      ((s'.consumer q).executed ++ (s'.consumer q).failed ++ (s'.consumer q).lost).Perm (List.range (s.consumer q).pushed.length) := by
  constructor
  · intro n f hf hsteps
    have hbound : ∀ k ≤ n, (f k).work + k ≤ s.work := by
      intro k
      induction k with
      | zero => intro _; rw [hf]; exact le_rfl
      | succ k ih =>
        intro hk
        have hlt := (hsteps k (by omega)).work_lt
        have := ih (by omega)
        omega
    have := hbound n le_rfl
    omega
  · intro s' hrun hstuck q
    have hend : s'.Inv ∧ (s'.consumer q).pushed = (s.consumer q).pushed := by
      clear hstuck
      induction hrun with
      | refl => exact ⟨h.inv,rfl⟩
      | tail _ hstep ih => exact ⟨hstep.inv ih.1,(hstep.pushed_eq q).trans ih.2⟩
    have hidle : ∀ x c, ¬ Consumer.Step OrderQueue.permits OrderQueue.drainLimit (s'.consumer q) x c := by
      intro x c hstep
      obtain ⟨s'',hworks⟩ := hend.1.works_of_step pairs hstep
      exact hstuck s'' hworks
    rw [← hend.2]
    exact (hend.1 q).perm_of_work_eq_zero (Consumer.work_eq_zero (by decide) hidle)

end Main

/-! ### An offer and a bid -/

section Offer
variable {pairs : PairsCache} {db : Valkey} {e : Exchange} {f : OrderQueue → Consumer (Text QueuedOrderMsg)} {q : OrderQueue}
  {c c' : Consumer (Text QueuedOrderMsg)} (h : QueueWorker.Reachable pairs db ⟨e,Function.update f q c⟩)
include h

lemma QueueWorker.Reachable.consume (hstep : Consumer.Step OrderQueue.permits OrderQueue.drainLimit c none c') :
    QueueWorker.Reachable pairs db ⟨e,Function.update f q c'⟩ := by
  have hworks : QueueWorker.Works pairs ⟨e,Function.update f q c⟩ ⟨e,Function.update (Function.update f q c) q c'⟩ :=
    .consume q (by simpa using hstep)
  rw [Function.update_idem] at hworks
  exact h.tail (.works hworks)

lemma QueueWorker.Reachable.push (msg : Text QueuedOrderMsg) :
    QueueWorker.Reachable pairs db ⟨e,Function.update f q (c.push msg)⟩ := by
  have hpush : QueueWorker.Step pairs ⟨e,Function.update f q c⟩
      ⟨e,Function.update (Function.update f q c) q ((Function.update f q c q).push msg)⟩ := .push q msg
  rw [Function.update_self, Function.update_idem] at hpush
  exact h.tail hpush

lemma QueueWorker.Reachable.execute {x : ℕ} {msg : Text QueuedOrderMsg} (d : Draws)
    (hstep : Consumer.Step OrderQueue.permits OrderQueue.drainLimit c (some x) c') (hmsg : c.pushed[x]? = some msg) :
    QueueWorker.Reachable pairs db ⟨e.processText pairs msg d,Function.update f q c'⟩ := by
  have hworks : QueueWorker.Works pairs ⟨e,Function.update f q c⟩
      ⟨e.processText pairs msg d,Function.update (Function.update f q c) q c'⟩ :=
    .execute q d (by simpa using hstep) (by simpa using hmsg)
  rw [Function.update_idem] at hworks
  exact h.tail (.works hworks)

end Offer

/-- Alice's offer and Bob's bid, popped in one batch, with their tasks started or past the script. -/
def offerQueue (running done : List ℕ) : Consumer (Text QueuedOrderMsg) :=
  { (Consumer.empty : Consumer (Text QueuedOrderMsg)) with
    pushed := [.value (limitMsg 1 "alice" .sell 100 1),.value (limitMsg 2 "bob" .buy 100 1)]
    running := running, finishing := done, executed := done }

/-- Bob's task was the faster one. -/
def offerProcessed (q : OrderQueue) : QueueWorker where
  exchange := (Exchange.processText btcUsdt ⟨(Session.funded (10 ^ 12)).sys.db,[],[]⟩ (.value (limitMsg 2 "bob" .buy 100 1))
    ⟨0,fun _ => 10,0⟩).processText btcUsdt (.value (limitMsg 1 "alice" .sell 100 1)) ⟨0,fun _ => 20,0⟩
  consumer := Function.update (fun _ => .empty) q (offerQueue [] [1,0])

lemma offerProcessed_reachable (q : OrderQueue) :
    QueueWorker.Reachable btcUsdt (Session.funded (10 ^ 12)).sys.db (offerProcessed q) := by
  have hoffer : QueueWorker.Reachable btcUsdt (Session.funded (10 ^ 12)).sys.db
      ⟨⟨(Session.funded (10 ^ 12)).sys.db,[],[]⟩,Function.update (fun _ => .empty) q
        (Consumer.empty.push (.value (limitMsg 1 "alice" .sell 100 1)))⟩ :=
    Relation.ReflTransGen.refl.tail (.push q _)
  have hbid := hoffer.push (.value (limitMsg 2 "bob" .buy 100 1))
  have hpopped := ((hbid.consume (.brpop rfl rfl rfl)).consume (.rpop rfl rfl)).consume (.stop rfl)
  have hstarted : QueueWorker.Reachable btcUsdt (Session.funded (10 ^ 12)).sys.db
      ⟨⟨(Session.funded (10 ^ 12)).sys.db,[],[]⟩,Function.update (fun _ => .empty) q (offerQueue [0,1] [])⟩ :=
    (hpopped.consume (.start rfl rfl (by decide))).consume (.start rfl rfl (by decide))
  have hovertaken := hstarted.execute (x := 1) ⟨0,fun _ => 10,0⟩ (.execute (by decide)) rfl
  exact hovertaken.execute (x := 0) ⟨0,fun _ => 20,0⟩ (.execute (by decide)) rfl

theorem offer_in_flight : ((offerProcessed (.pair 0)).consumer (.pair 0)).executed = [1,0] ∧
    ((offerProcessed (.pair 0)).consumer (.pair 0)).running.length +
      ((offerProcessed (.pair 0)).consumer (.pair 0)).finishing.length ≤ 3 :=
  ⟨rfl,(orders_in_flight (offerProcessed_reachable (.pair 0)) (.pair 0)).2.1⟩

/-- Two steps are left, the releases of the permits. -/
theorem offer_drains : (offerProcessed (.pair 0)).work = 2 ∧ ∀ f : ℕ → QueueWorker, f 0 = offerProcessed (.pair 0) →
    ¬ ∀ k < 3, QueueWorker.Works btcUsdt (f k) (f (k + 1)) := by
  have hwork : (offerProcessed (.pair 0)).work = 2 := by decide +kernel
  refine ⟨hwork,fun f hf hsteps => ?_⟩
  have := (queues_drain (offerProcessed_reachable (.pair 0))).1 3 f hf hsteps
  omega

end MatchingEngine

import MatchingEngine.CacheFeed

/-! Clients of one market-data key. A web socket subscribes to the broadcasts and is then sent the
current value; the event stream and the multiplexed socket send the value first and subscribe later.
Afterwards each gets what is broadcast, through a queue of 64. -/
namespace MatchingEngine
open Library

/-- Which comes first, the subscription or the current value. -/
inductive Feed
  | cacheBroadcastWs
  | sseStream
  deriving DecidableEq

/-- An entry and one client of it: the client's queue once it has subscribed, the value that was current
when it was sent (if there was one), and what it was sent afterwards. `throttled` is when the current
value came, unless it was broadcast; `missed` is the number of broadcasts before the subscription. -/
structure MarketSocket where
  entry : CacheEntry
  now : ℕ
  throttled : Option ℕ
  rx : Option (List String)
  missed : ℕ
  greeting : Option (Option String)
  received : List String

namespace MarketSocket

/-- `broadcast::channel(64)`. -/
def capacity : ℕ := 64

inductive Action
  | update (val : String)
  | wait (d : ℕ)
  | subscribe
  | greet
  | recv

/-- A queue that takes one more: a client that lags behind loses the oldest. -/
def enqueue (queue : List String) (val : String) : List String :=
  (queue ++ [val]).drop ((queue ++ [val]).length - capacity)

/-- What the client was sent so far. -/
def sent (s : MarketSocket) : List String := (s.greeting.getD none).toList ++ s.received

def step (feed : Feed) (s : MarketSocket) : Action → MarketSocket
  | .update val =>
    if s.entry.Due s.now then
      { s with entry := s.entry.update s.now val, throttled := none, rx := s.rx.map (fun q => enqueue q val) }
    else { s with entry := s.entry.update s.now val, throttled := some s.now }
  | .wait d => { s with now := s.now + d }
  | .subscribe =>
    if s.rx = none ∧ (feed = .sseStream → s.greeting ≠ none) then
      { s with rx := some [], missed := s.entry.broadcasts.length }
    else s
  | .greet =>
    if s.greeting = none ∧ (feed = .cacheBroadcastWs → s.rx ≠ none) then { s with greeting := some s.entry.watch } else s
  | .recv =>
    match s.rx, s.greeting with
    | some (val :: rest), some _ => { s with rx := some rest, received := s.received ++ [val] }
    | _, _ => s

def run (feed : Feed) (s : MarketSocket) (actions : List Action) : MarketSocket := actions.foldl (step feed) s

@[simp] lemma run_nil (feed : Feed) (s : MarketSocket) : s.run feed [] = s := rfl

@[simp] lemma run_cons (feed : Feed) (s : MarketSocket) (a : Action) (actions : List Action) :
    s.run feed (a :: actions) = (s.step feed a).run feed actions := rfl

/-- A client that is about to connect. -/
def opened (entry : CacheEntry) (now : ℕ) : MarketSocket := ⟨entry,now,none,none,0,none,[]⟩

/-- Nothing is in the queue, and the current value has been sent. -/
def Drained (s : MarketSocket) : Prop := s.rx = some [] ∧ s.greeting ≠ none

/-! ### What is sent, and in which order -/

lemma enqueue_eq (queue : List String) (val : String) :
    ∃ n, enqueue queue val = queue.drop n ++ [val] := by
  refine ⟨(queue ++ [val]).length - capacity,?_⟩
  unfold enqueue
  rw [List.drop_append_of_le_length]
  rw [List.length_append, List.length_singleton]
  unfold capacity
  omega

lemma broadcasts_of_due {e : CacheEntry} {now : ℕ} (h : e.Due now) (val : String) :
    (e.update now val).broadcasts = e.broadcasts ++ [(now,val)] := by
  unfold CacheEntry.update
  rw [if_pos h]

lemma update_of_not_due {e : CacheEntry} {now : ℕ} (h : ¬ e.Due now) (val : String) : e.update now val = { e with watch := some val } := by
  unfold CacheEntry.update
  rw [if_neg h]

/-- The broadcasts since the subscription. -/
def offered (s : MarketSocket) : List String := (s.entry.broadcasts.drop s.missed).map Prod.snd

/-- What a client has received and what is in its queue are broadcasts since its subscription, in their
order. -/
structure InOrder (s : MarketSocket) : Prop where
  missed : s.missed ≤ s.entry.broadcasts.length
  unsubscribed : s.rx = none → s.received = []
  order : (s.received ++ s.rx.getD []).Sublist s.offered

lemma InOrder.update {feed : Feed} {s : MarketSocket} (hs : s.InOrder) (val : String) : (s.step feed (.update val)).InOrder := by
  obtain ⟨hmissed,hun,horder⟩ := hs
  simp only [MarketSocket.step]
  split
  · rename_i hdue
    refine ⟨?_,?_,?_⟩
    · dsimp only
      rw [broadcasts_of_due hdue, List.length_append]
      omega
    · intro hnone
      exact hun (by simpa using hnone)
    · simp only [offered] at horder ⊢
      rw [broadcasts_of_due hdue, List.drop_append_of_le_length hmissed, List.map_append]
      cases hrx : s.rx with
      | none =>
        rw [hrx] at horder
        exact horder.trans (List.sublist_append_left _ _)
      | some queue =>
        rw [hrx] at horder
        obtain ⟨n,hn⟩ := enqueue_eq queue val
        simp only [Option.map_some, Option.getD_some] at horder ⊢
        rw [hn, ← List.append_assoc]
        exact (((List.drop_sublist n queue).append_left s.received).trans horder).append (List.Sublist.refl _)
  · rename_i hdue
    rw [update_of_not_due hdue]
    exact ⟨hmissed,hun,horder⟩

lemma InOrder.step {feed : Feed} {s : MarketSocket} (hs : s.InOrder) (a : Action) : (s.step feed a).InOrder := by
  cases a with
  | update val => exact hs.update val
  | wait d => exact ⟨hs.missed,hs.unsubscribed,hs.order⟩
  | subscribe =>
    simp only [MarketSocket.step]
    split
    · rename_i hfree
      refine ⟨le_refl _,fun h => absurd h (by simp),?_⟩
      simp [hs.unsubscribed hfree.1]
    · exact hs
  | greet =>
    simp only [MarketSocket.step]
    split
    · exact ⟨hs.missed,hs.unsubscribed,hs.order⟩
    · exact hs
  | recv =>
    simp only [MarketSocket.step]
    split
    · rename_i val rest w hrx hgreeting
      have horder := hs.order
      refine ⟨hs.missed,fun h => absurd h (by simp),?_⟩
      rw [hrx] at horder
      simpa [offered] using horder
    · exact hs

lemma InOrder.run {feed : Feed} {s : MarketSocket} (hs : s.InOrder) (actions : List Action) : (s.run feed actions).InOrder := by
  induction actions generalizing s with
  | nil => exact hs
  | cons a actions ih => exact ih (hs.step a)

/-! ### What a client sees in the end -/

/-- `seen` is the current value, or the current value was throttled. -/
def UpToDate (s : MarketSocket) (seen : Option String) : Prop :=
  seen = s.entry.watch ∨ ∃ t, s.throttled = some t ∧ t < s.entry.lastBroadcast + broadcastGap

/-- What a socket that subscribes first has been sent and will find in its queue ends in the current
value, or that was throttled. -/
structure Following (s : MarketSocket) : Prop where
  unsubscribed : s.rx = none → s.greeting = none ∧ s.received = []
  waiting : ∀ q, s.rx = some q → s.greeting = none → s.received = [] ∧ (q = [] ∨ s.UpToDate q.getLast?)
  greeted : ∀ q w, s.rx = some q → s.greeting = some w → s.UpToDate (w.toList ++ s.received ++ q).getLast?

lemma UpToDate.throttle {s : MarketSocket} (h : ¬ s.entry.Due s.now) (val : String) (seen : Option String) :
    UpToDate { s with entry := s.entry.update s.now val, throttled := some s.now } seen := by
  refine Or.inr ⟨s.now,rfl,?_⟩
  have hgap := mt CacheEntry.due_iff.mpr h
  rw [update_of_not_due h]
  dsimp only
  omega

lemma Following.update {s : MarketSocket} (hs : s.Following) (val : String) : (s.step .cacheBroadcastWs (.update val)).Following := by
  obtain ⟨hun,hwaiting,hgreeted⟩ := hs
  simp only [MarketSocket.step]
  split
  · -- the value that is broadcast is the last in the queue
    have hlast : ∀ front q : List String, (front ++ enqueue q val).getLast? = some val := by
      intro front q
      obtain ⟨n,hn⟩ := enqueue_eq q val
      rw [hn, ← List.append_assoc, List.getLast?_concat]
    refine ⟨fun hnone => hun (by simpa using hnone),?_,?_⟩
    · intro q' hq' hnone
      obtain ⟨q,hq,rfl⟩ := Option.map_eq_some_iff.mp hq'
      refine ⟨(hwaiting q hq hnone).1,Or.inr (Or.inl ?_)⟩
      rw [CacheEntry.update_watch]
      exact hlast [] q
    · intro q' w hq' hw
      obtain ⟨q,hq,rfl⟩ := Option.map_eq_some_iff.mp hq'
      refine Or.inl ?_
      rw [CacheEntry.update_watch]
      exact hlast _ q
  · rename_i hdue
    refine ⟨hun,?_,?_⟩
    · intro q hq hnone
      exact ⟨(hwaiting q hq hnone).1,Or.inr (UpToDate.throttle hdue val _)⟩
    · intro q w hq hw
      exact UpToDate.throttle hdue val _

lemma Following.step {s : MarketSocket} (hs : s.Following) (a : Action) : (s.step .cacheBroadcastWs a).Following := by
  cases a with
  | update val => exact hs.update val
  | wait d => exact ⟨hs.unsubscribed,hs.waiting,hs.greeted⟩
  | subscribe =>
    simp only [MarketSocket.step]
    split
    · rename_i hfree
      obtain ⟨hgreeting,hreceived⟩ := hs.unsubscribed hfree.1
      refine ⟨fun h => absurd h (by simp),?_,?_⟩
      · intro q hq _
        exact ⟨hreceived,Or.inl (Option.some.inj hq).symm⟩
      · intro q w _ hw
        exact absurd hw (by simp [hgreeting])
    · exact hs
  | greet =>
    simp only [MarketSocket.step]
    split
    · rename_i hfree
      obtain ⟨hgreeting,hrx⟩ := hfree
      refine ⟨fun h => absurd h (hrx trivial),fun q _ h => absurd h (by simp),?_⟩
      intro q w hq hw
      obtain rfl := Option.some.inj hw
      obtain ⟨hreceived,hempty | hdone⟩ := hs.waiting q hq hgreeting
      · refine Or.inl ?_
        rw [hempty, hreceived, List.append_nil, List.append_nil, getLast?_toList]
      · by_cases hq0 : q = []
        · refine Or.inl ?_
          rw [hq0, hreceived, List.append_nil, List.append_nil, getLast?_toList]
        · rw [List.getLast?_append_of_ne_nil _ hq0]
          exact hdone
    · exact hs
  | recv =>
    simp only [MarketSocket.step]
    split
    · rename_i val rest w hrx hgreeting
      have hdone := hs.greeted (val :: rest) w hrx hgreeting
      refine ⟨fun h => absurd h (by simp),fun q _ h => absurd h (by simp [hgreeting]),?_⟩
      intro q w' hq hw'
      obtain rfl := Option.some.inj hq
      obtain rfl : w = w' := Option.some.inj (hgreeting.symm.trans hw')
      simpa [UpToDate] using hdone
    · exact hs

lemma Following.run {s : MarketSocket} (hs : s.Following) (actions : List Action) : (s.run .cacheBroadcastWs actions).Following := by
  induction actions generalizing s with
  | nil => exact hs
  | cons a actions ih => exact ih (hs.step a)

/-- In every interleaving of updates, time and the client's own steps, a web socket is sent the value that
was current once and then broadcasts since its subscription, none twice and none out of order; and when
it has taken what is in its queue, it shows what REST serves, unless that came less than 100 ms after a
broadcast. -/
theorem socket_follows (entry : CacheEntry) (now : ℕ) (actions : List Action) :
    let s := (opened entry now).run .cacheBroadcastWs actions
    s.received.Sublist s.offered ∧
      (s.Drained → s.sent.getLast? = s.entry.watch ∨ ∃ t, s.throttled = some t ∧ t < s.entry.lastBroadcast + broadcastGap) := by
  have hopened : (opened entry now).Following :=
    ⟨fun _ => ⟨rfl,rfl⟩,fun q h => absurd h (by simp [opened]),fun q w h => absurd h (by simp [opened])⟩
  have horder : (opened entry now).InOrder := ⟨Nat.zero_le _,fun _ => rfl,by simp [opened]⟩
  refine ⟨(List.sublist_append_left _ _).trans (horder.run actions).order,?_⟩
  rintro ⟨hrx,hgreeting⟩
  obtain ⟨w,hw⟩ := Option.ne_none_iff_exists'.mp hgreeting
  have hdone := (hopened.run actions).greeted [] w hrx hw
  rw [List.append_nil] at hdone
  rw [sent, hw]
  exact hdone

theorem socket_follows_pairs :
    let s := (opened ⟨none,0,[]⟩ 0).run .cacheBroadcastWs [.subscribe,.update "[]",.greet,.wait 100000000,.update "[1]",.recv]
    s.sent.getLast? = s.entry.watch ∨ ∃ t, s.throttled = some t ∧ t < s.entry.lastBroadcast + broadcastGap :=
  (socket_follows ⟨none,0,[]⟩ 0 [.subscribe,.update "[]",.greet,.wait 100000000,.update "[1]",.recv]).2
    ⟨by decide,by decide⟩

/-- The other order loses what is broadcast in between: the stream goes on showing the old value,
though the new one was not throttled. -/
theorem stream_misses (entry : CacheEntry) (now d : ℕ) (val : String) (h : entry.lastBroadcast + broadcastGap ≤ now + d) :
    let s := (opened entry now).run .sseStream [.greet,.wait d,.update val,.subscribe]
    s.Drained ∧ s.entry.watch = some val ∧ s.throttled = none ∧ s.sent.getLast? = entry.watch := by
  have hdue : entry.Due (now + d) := CacheEntry.due_iff.mpr h
  simp [run, MarketSocket.step, opened, hdue, Drained, sent, getLast?_toList]

end MarketSocket
end MatchingEngine

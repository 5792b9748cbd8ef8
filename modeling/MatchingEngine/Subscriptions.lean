import MatchingEngine.Library.ExpiringSet

/-! The WebSocket subscription index: `handle_connect`, `handle_disconnect`, `handle_subscribe`
and `handle_unsubscribe` of the handler, and the stale-connection cleanup of `push_ws_updates`.
The relation is stored twice, by channel and by connection, under keys with separate expiries;
a disconnect cleans the first copy by reading the second. -/
namespace MatchingEngine
open Library

/-- `ws:connections`, `ws:subs:{channel}` and `ws:conn:{connectionId}`. -/
structure WsIndex where
  connections : ExpiringSet String
  subs : String → ExpiringSet String
  conn : String → ExpiringSet String

/-- Names are at most 64 bytes of alphanumeric characters, colons, hyphens and underscores.
What is alphanumeric is a table of the standard library. -/
def isValidChannel (isAlphanumeric : Char → Bool) (ch : String) : Bool :=
  ch.utf8ByteSize ≤ 64 && ch.toList.all (fun c => isAlphanumeric c || c = ':' || c = '-' || c = '_')

namespace WsIndex

def empty : WsIndex := ⟨.empty,fun _ => .empty,fun _ => .empty⟩

def handleConnect (s : WsIndex) (c : String) : WsIndex :=
  { s with connections := (s.connections.sadd c).expire (1000 * 86400) }

def handleDisconnect (s : WsIndex) (c : String) : WsIndex where
  connections := s.connections.srem c
  subs := ExpiringSet.removeFrom s.subs c (s.conn c).members
  conn := Function.update s.conn c .empty

/-- One element of a `subscribe` array; what is not a string is skipped. -/
def subscribeTo (isAlphanumeric : Char → Bool) (c : String) (s : WsIndex) : Option String → WsIndex
  | none => s
  | some ch =>
    if isValidChannel isAlphanumeric ch then
      { s with subs := Function.update s.subs ch (((s.subs ch).sadd c).expire (1000 * 3600))
               conn := Function.update s.conn c (((s.conn c).sadd ch).expire (1000 * 3600)) }
    else s

def handleSubscribe (isAlphanumeric : Char → Bool) (s : WsIndex) (c : String) (channels : List (Option String)) : WsIndex :=
  channels.foldl (subscribeTo isAlphanumeric c) s

/-- One element of an `unsubscribe` array. -/
def unsubscribeFrom (c : String) (s : WsIndex) : Option String → WsIndex
  | none => s
  | some ch => { s with subs := Function.update s.subs ch ((s.subs ch).srem c)
                        conn := Function.update s.conn c ((s.conn c).srem ch) }

def handleUnsubscribe (s : WsIndex) (c : String) (channels : List (Option String)) : WsIndex :=
  channels.foldl (unsubscribeFrom c) s

/-- A subscriber of `ch` that turned out to be gone. -/
def removeStale (ch : String) (s : WsIndex) (c : String) : WsIndex where
  connections := s.connections.srem c
  subs := ExpiringSet.removeFrom (Function.update s.subs ch ((s.subs ch).srem c)) c (s.conn c).members
  conn := Function.update s.conn c .empty

/-- One channel of `push_ws_updates`: nothing is pushed without a cached value. -/
def pushChannel (cached : String → Bool) (gone : String → String → Bool) (s : WsIndex) (ch : String) : WsIndex :=
  if (s.subs ch).members = [] then s
  else if cached ch = false then s
  else ((s.subs ch).members.filter (gone ch)).foldl (removeStale ch) s

def pushWsUpdates (cached : String → Bool) (gone : String → String → Bool) (s : WsIndex) (pairId : String) : WsIndex :=
  ["orderbook:" ++ pairId,"trades:" ++ pairId,"ticker:" ++ pairId].foldl (pushChannel cached gone) s

/-- Time passes on every key. -/
def wait (s : WsIndex) (ms : ℕ) : WsIndex :=
  ⟨s.connections.pass ms,fun ch => (s.subs ch).pass ms,fun c => (s.conn c).pass ms⟩

/-- A step of the index. `push` is given which channels have a cached value and for which
connections the post fails because they are gone. -/
inductive Action
  | connect (c : String)
  | disconnect (c : String)
  | subscribe (c : String) (channels : List (Option String))
  | unsubscribe (c : String) (channels : List (Option String))
  | push (pairId : String) (cached : String → Bool) (gone : String → String → Bool)
  | wait (ms : ℕ)

def act (isAlphanumeric : Char → Bool) (s : WsIndex) : Action → WsIndex
  | .connect c => s.handleConnect c
  | .disconnect c => s.handleDisconnect c
  | .subscribe c channels => s.handleSubscribe isAlphanumeric c channels
  | .unsubscribe c channels => s.handleUnsubscribe c channels
  | .push pairId cached gone => s.pushWsUpdates cached gone pairId
  | .wait ms => s.wait ms

/-- Runs of actions that `Admit` accepts. -/
def Runs (isAlphanumeric : Char → Bool) (Admit : WsIndex → Action → Prop) : WsIndex → WsIndex → Prop :=
  Relation.ReflTransGen (fun s t => ∃ x, Admit s x ∧ t = s.act isAlphanumeric x)

lemma Runs.act {isAlphanumeric : Char → Bool} {Admit : WsIndex → Action → Prop} {s t : WsIndex}
    (h : Runs isAlphanumeric Admit s t) {x : Action} (hx : Admit t x) : Runs isAlphanumeric Admit s (t.act isAlphanumeric x) :=
  h.tail ⟨x,hx,rfl⟩

def Action.Subscribes (c : String) : Action → Prop
  | .subscribe d _ => d = c
  | _ => False

/-- The connection's own set names every channel that has it. -/
def Listed (s : WsIndex) (c : String) : Prop := ∀ ch, c ∈ s.subs ch → ch ∈ s.conn c

/-! ### Membership -/

section Membership
variable {isAlphanumeric : Char → Bool} {s : WsIndex} {c d ch ch' : String}

lemma mem_subscribeTo (h : isValidChannel isAlphanumeric ch) :
    (c ∈ (subscribeTo isAlphanumeric d s (some ch)).subs ch' ↔ c = d ∧ ch' = ch ∨ c ∈ s.subs ch') ∧
    (ch' ∈ (subscribeTo isAlphanumeric d s (some ch)).conn c ↔ c = d ∧ ch' = ch ∨ ch' ∈ s.conn c) := by
  simp only [subscribeTo, if_pos h, Function.update_apply]
  constructor
  · by_cases hch : ch' = ch
    · subst hch
      simp
    · simp [hch]
  · by_cases hc : c = d
    · subst hc
      simp
    · simp [hc]

lemma mem_unsubscribeFrom :
    (c ∈ (unsubscribeFrom d s (some ch)).subs ch' ↔ c ∈ s.subs ch' ∧ ¬ (c = d ∧ ch' = ch)) ∧
    (ch' ∈ (unsubscribeFrom d s (some ch)).conn c ↔ ch' ∈ s.conn c ∧ ¬ (c = d ∧ ch' = ch)) := by
  simp only [unsubscribeFrom, Function.update_apply]
  constructor
  · by_cases hch : ch' = ch
    · subst hch
      simp [and_comm]
    · simp [hch]
  · by_cases hc : c = d
    · subst hc
      simp [and_comm]
    · simp [hc]

lemma mem_subs_disconnect : c ∈ (s.handleDisconnect d).subs ch ↔ c ∈ s.subs ch ∧ ¬ (c = d ∧ ch ∈ s.conn d) :=
  ExpiringSet.mem_removeFrom

lemma mem_subs_removeStale : c ∈ (removeStale ch s d).subs ch' ↔
    c ∈ s.subs ch' ∧ ¬ (c = d ∧ (ch' = ch ∨ ch' ∈ s.conn d)) := by
  simp only [removeStale, ExpiringSet.mem_removeFrom, Function.update_apply]
  by_cases hch : ch' = ch
  · subst hch
    rw [if_pos rfl, ExpiringSet.mem_srem]
    tauto
  · rw [if_neg hch]
    simp only [hch, false_or]
    rfl

lemma conn_handleDisconnect (h : c ≠ d) : (s.handleDisconnect d).conn c = s.conn c := Function.update_of_ne h _ _

lemma conn_removeStale (h : c ≠ d) : (removeStale ch s d).conn c = s.conn c := Function.update_of_ne h _ _

end Membership

/-! ### One action -/

section Actions
variable {isAlphanumeric : Char → Bool} {s : WsIndex} {c : String}

lemma push_preserves {P : WsIndex → Prop} (hP : ∀ s ch d, P s → P (removeStale ch s d)) (h : P s)
    (cached : String → Bool) (gone : String → String → Bool) (pairId : String) : P (s.pushWsUpdates cached gone pairId) := by
  refine List.foldlRecOn _ _ h (fun s hs ch _ => ?_)
  unfold pushChannel
  split_ifs
  · exact hs
  · exact hs
  · exact List.foldlRecOn _ _ hs (fun s hs d _ => hP s ch d hs)

lemma mem_subs_of_act {x : Action} (hx : ¬ x.Subscribes c) {ch : String} (h : c ∈ (s.act isAlphanumeric x).subs ch) :
    c ∈ s.subs ch := by
  by_contra hout
  revert h
  cases x with
  | connect d => exact hout
  | disconnect d => exact fun h => hout (mem_subs_disconnect.mp h).1
  | subscribe d channels =>
    have hne : c ≠ d := fun he => hx he.symm
    refine List.foldlRecOn (motive := fun s : WsIndex => c ∉ s.subs ch) channels _ hout (fun s hs x _ => ?_)
    cases x with
    | none => exact hs
    | some y =>
      by_cases hy : isValidChannel isAlphanumeric y
      · rw [(mem_subscribeTo hy).1]
        simp [hne, hs]
      · simpa [subscribeTo, hy] using hs
  | unsubscribe d channels =>
    refine List.foldlRecOn (motive := fun s : WsIndex => c ∉ s.subs ch) channels _ hout (fun s hs x _ => ?_)
    cases x with
    | none => exact hs
    | some y => exact fun h => hs (mem_unsubscribeFrom.1.mp h).1
  | push pairId cached gone =>
    exact push_preserves (P := fun s => c ∉ s.subs ch) (fun s y d hs h => hs (mem_subs_removeStale.mp h).1) hout _ _ _
  | wait ms => exact fun h => hout (ExpiringSet.mem_of_mem_pass h)

/-- Waits are shorter than the time left on the connection's own set. -/
def KeepsConn (c : String) (s : WsIndex) : Action → Prop
  | .wait ms => ∀ t ∈ (s.conn c).ttl, ms < t
  | _ => True

/-- As long as the connection's own set does not expire, it names every channel that has it. -/
lemma Listed.act (h : s.Listed c) {x : Action} (hx : KeepsConn c s x) : (s.act isAlphanumeric x).Listed c := by
  cases x with
  | connect d => exact h
  | disconnect d =>
    intro ch hm
    obtain ⟨hm,hnot⟩ := mem_subs_disconnect.mp hm
    have hne : c ≠ d := fun he => hnot ⟨he,he ▸ h ch hm⟩
    rw [WsIndex.act, conn_handleDisconnect hne]
    exact h ch hm
  | subscribe d channels =>
    refine List.foldlRecOn (motive := fun s : WsIndex => s.Listed c) channels _ h (fun s hs x _ => ?_)
    cases x with
    | none => exact hs
    | some y =>
      by_cases hy : isValidChannel isAlphanumeric y
      · intro ch hm
        rw [(mem_subscribeTo hy).2]
        exact ((mem_subscribeTo hy).1.mp hm).imp_right (hs ch)
      · simpa [subscribeTo, hy] using hs
  | unsubscribe d channels =>
    refine List.foldlRecOn (motive := fun s : WsIndex => s.Listed c) channels _ h (fun s hs x _ => ?_)
    cases x with
    | none => exact hs
    | some y =>
      intro ch hm
      obtain ⟨hm,hnot⟩ := mem_unsubscribeFrom.1.mp hm
      exact mem_unsubscribeFrom.2.mpr ⟨hs ch hm,hnot⟩
  | push pairId cached gone =>
    refine push_preserves (P := fun s => s.Listed c) (fun s y d hs ch hm => ?_) h _ _ _
    obtain ⟨hm,hnot⟩ := mem_subs_removeStale.mp hm
    have hne : c ≠ d := fun he => hnot ⟨he,.inr (he ▸ hs ch hm)⟩
    rw [conn_removeStale hne]
    exact hs ch hm
  | wait ms =>
    intro ch hm
    exact (ExpiringSet.mem_pass hx).mpr (h ch (ExpiringSet.mem_of_mem_pass hm))

end Actions

/-! ### Runs -/

section Runs
variable (isAlphanumeric : Char → Bool) (c : String)

/-- After a disconnect the connection is in no channel until it subscribes again, whatever else
happens, exactly when its own set named every channel that had it. That set does so in every
run in which it does not expire. -/
theorem disconnected_iff_listed :
    (∀ s : WsIndex, (∀ t, Runs isAlphanumeric (fun _ x => ¬ x.Subscribes c) (s.handleDisconnect c) t → ∀ ch, c ∉ t.subs ch) ↔
      s.Listed c) ∧
    ∀ s, Runs isAlphanumeric (KeepsConn c) .empty s → s.Listed c := by
  refine ⟨fun s => ⟨fun h ch hm => ?_,fun h t hrun => ?_⟩,fun s hrun => ?_⟩
  · by_contra hnot
    exact h _ .refl ch (mem_subs_disconnect.mpr ⟨hm,fun hk => hnot hk.2⟩)
  · induction hrun with
    | refl =>
      intro ch hm
      obtain ⟨hm,hnot⟩ := mem_subs_disconnect.mp hm
      exact hnot ⟨rfl,h ch hm⟩
    | tail _ hx ih =>
      obtain ⟨x,hx,rfl⟩ := hx
      exact fun ch hm => ih ch (mem_subs_of_act hx hm)
  · induction hrun with
    | refl => exact fun ch hm => absurd hm (ExpiringSet.notMem_empty c)
    | tail _ hx ih =>
      obtain ⟨x,hx,rfl⟩ := hx
      exact ih.act hx

end Runs

/-- Two connections subscribe to a channel fifty minutes apart, and twelve minutes pass. -/
def sharedChannel : WsIndex :=
  (((empty.act Char.isAlphanum (.subscribe "c" [some "trades:BTC-USDT"])).act Char.isAlphanum (.wait 3000000)).act
    Char.isAlphanum (.subscribe "d" [some "trades:BTC-USDT"])).act Char.isAlphanum (.wait 720000)

/-- The first one's own set has expired and the channel's has not, so that the first one stays
in the channel when it disconnects. -/
theorem disconnected_stays_subscribed : Runs Char.isAlphanum (fun _ _ => True) .empty sharedChannel ∧
    (sharedChannel.conn "c").members = [] ∧ "c" ∈ (sharedChannel.handleDisconnect "c").subs "trades:BTC-USDT" := by
  have hrun : Runs Char.isAlphanum (fun _ _ => True) .empty sharedChannel :=
    Runs.act (Runs.act (Runs.act (Runs.act .refl trivial) trivial) trivial) trivial
  exact ⟨hrun,by decide +kernel,by decide +kernel⟩

end WsIndex

end MatchingEngine

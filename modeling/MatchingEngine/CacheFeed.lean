import MatchingEngine.Library.Throttle

/-! The gateway's market data. Workers SET a cache key and then PUBLISH it; the gateway's subscriber and
its poller write what they get into one entry a key, which REST reads and from which web sockets are
fed ten times a second at most. -/
namespace MatchingEngine
open Library

lemma getLast?_toList {α : Type*} (o : Option α) : o.toList.getLast? = o := by
  cases o <;> rfl

/-! ### Messages -/

/-- `format!("\x7b\x7d\n\x7b\x7d", key, value)`. -/
def cachePayload (key value : String) : String := key ++ "\n" ++ value

/-- Key and value, cut at the first newline. -/
def parsePayload (payload : String) : Option (String × String) :=
  if '\n' ∈ payload.toList then
    some (String.ofList (payload.toList.takeWhile (· ≠ '\n')),
      String.ofList ((payload.toList.dropWhile (· ≠ '\n')).drop 1))
  else none

lemma parsePayload_cachePayload {key : String} (hkey : '\n' ∉ key.toList) (value : String) :
    parsePayload (cachePayload key value) = some (key,value) := by
  have hchars : (cachePayload key value).toList = key.toList ++ '\n' :: value.toList := by
    simp [cachePayload]
  have hall : ∀ c ∈ key.toList, decide (c ≠ '\n') = true := by
    intro c hc
    exact decide_eq_true (fun h => hkey (h ▸ hc))
  unfold parsePayload
  rw [hchars, if_pos (by simp), List.takeWhile_append_of_pos hall, List.dropWhile_append_of_pos hall]
  simp

/-- What the subscriber and the poller pass on. -/
def shown (value : String) : Bool := value ≠ "" && value ≠ "\x7b\x7d"

/-- The value that a message brings to a key. -/
def heardOn (k payload : String) : Option String :=
  (parsePayload payload).bind (fun m => if m.1 = k ∧ shown m.2 = true then some m.2 else none)

lemma heardOn_cachePayload {key : String} (hkey : '\n' ∉ key.toList) (k value : String) :
    heardOn k (cachePayload key value) = if key = k ∧ shown value = true then some value else none := by
  unfold heardOn
  rw [parsePayload_cachePayload hkey]
  rfl

/-! ### Entries -/

/-- The watch channel, the time of the last broadcast, and the broadcasts so far. Times are in
nanoseconds. -/
structure CacheEntry where
  watch : Option String
  lastBroadcast : ℕ
  broadcasts : List (ℕ × String)
  deriving DecidableEq

def wsBroadcastIntervalMs : ℕ := 100

/-- `elapsed().as_millis() >= WS_BROADCAST_INTERVAL_MS`. -/
def CacheEntry.Due (e : CacheEntry) (now : ℕ) : Prop := wsBroadcastIntervalMs ≤ (now - e.lastBroadcast) / 1000000

instance (e : CacheEntry) (now : ℕ) : Decidable (e.Due now) := inferInstanceAs (Decidable (_ ≤ _))

def CacheEntry.update (e : CacheEntry) (now : ℕ) (val : String) : CacheEntry :=
  if e.Due now then { watch := some val, lastBroadcast := now, broadcasts := e.broadcasts ++ [(now,val)] }
  else { e with watch := some val }

@[simp] lemma CacheEntry.update_watch (e : CacheEntry) (now : ℕ) (val : String) : (e.update now val).watch = some val := by
  unfold CacheEntry.update
  split <;> rfl

lemma CacheEntry.mem_update {e : CacheEntry} {now : ℕ} {val : String} {b : ℕ × String}
    (h : b ∈ (e.update now val).broadcasts) : b ∈ e.broadcasts ∨ b = (now,val) := by
  unfold CacheEntry.update at h
  split at h
  · simpa using h
  · exact Or.inl h

/-- The interval in nanoseconds. -/
def broadcastGap : ℕ := wsBroadcastIntervalMs * 1000000

lemma broadcastGap_pos : 0 < broadcastGap := Nat.mul_pos (by decide) (by decide)

lemma CacheEntry.due_iff {e : CacheEntry} {now : ℕ} : e.Due now ↔ e.lastBroadcast + broadcastGap ≤ now := by
  have hnanos : e.Due now ↔ broadcastGap ≤ now - e.lastBroadcast := Nat.le_div_iff_mul_le (by decide)
  have hpos := broadcastGap_pos
  rw [hnanos]
  omega

/-- Broadcasts keep their distance, and the last one is on record. -/
structure CacheEntry.Throttled (e : CacheEntry) (now : ℕ) : Prop where
  spaced : Spaced broadcastGap (e.broadcasts.map Prod.fst)
  recorded : ∀ b ∈ e.broadcasts, b.1 ≤ e.lastBroadcast
  past : e.lastBroadcast ≤ now

lemma CacheEntry.Throttled.later {e : CacheEntry} {now later : ℕ} (he : e.Throttled now) (h : now ≤ later) : e.Throttled later :=
  ⟨he.spaced,he.recorded,he.past.trans h⟩

lemma CacheEntry.Throttled.update {e : CacheEntry} {now : ℕ} (he : e.Throttled now) (val : String) :
    (e.update now val).Throttled now := by
  obtain ⟨hspaced,hrecorded,hpast⟩ := he
  unfold CacheEntry.update
  split
  · rename_i hdue
    have hgap := CacheEntry.due_iff.mp hdue
    refine ⟨?_,?_,le_refl now⟩
    · rw [List.map_append]
      apply hspaced.concat
      intro t ht
      obtain ⟨b,hb,rfl⟩ := List.mem_map.mp ht
      exact (Nat.add_le_add_right (hrecorded b hb) _).trans hgap
    · intro b hb
      rcases List.mem_append.mp hb with hold | hnew
      · exact (hrecorded b hold).trans hpast
      · rw [List.mem_singleton.mp hnew]
  · exact ⟨hspaced,hrecorded,hpast⟩

/-! ### The feed -/

/-- The keys in Valkey, with every value they were ever SET to; each writer's call between its SET and
its PUBLISH; the gateway's connection and the messages it has yet to take; what the poller has read and
not passed on; and the gateway's entries and clock. -/
structure CacheFeed where
  kv : String → Option String
  written : String → List String
  writers : ℕ → Option (String × String)
  connected : Bool
  inbox : List String
  polled : Option (String × String)
  entries : String → Option CacheEntry
  now : ℕ

namespace CacheFeed

/-- The two commands of `set_and_publish`, or its failure in between; an admin's DEL; the subscriber's
connection, what is left of its messages when it is lost, and the next of them; the poller's GET and
what it does with it; and time. -/
inductive Action
  | set (w : ℕ) (key value : String)
  | publish (w : ℕ)
  | fail (w : ℕ)
  | del (key : String)
  | connect
  | disconnect (kept : ℕ)
  | receive
  | poll (key : String)
  | apply
  | wait (d : ℕ)

/-- `CacheBroadcasts::update`. Keys that the gateway does not know are left alone. -/
def update (s : CacheFeed) (key val : String) : CacheFeed :=
  { s with entries := Function.update s.entries key ((s.entries key).map (fun e => e.update s.now val)) }

/-- `CacheBroadcasts::get_latest`. -/
def getLatest (s : CacheFeed) (key : String) : Option String := (s.entries key).bind (fun e => e.watch)

/-- What the subscriber does with a message. -/
def hear (s : CacheFeed) (payload : String) : CacheFeed :=
  match parsePayload payload with
  | some (key,value) => if shown value then s.update key value else s
  | none => s

def step (s : CacheFeed) : Action → CacheFeed
  | .set w key value =>
    match s.writers w with
    | none => { s with
        kv := Function.update s.kv key (some value)
        written := Function.update s.written key (s.written key ++ [value])
        writers := Function.update s.writers w (some (key,value)) }
    | some _ => s
  | .publish w =>
    match s.writers w with
    | none => s
    | some (key,value) => { s with
        writers := Function.update s.writers w none
        inbox := if s.connected then s.inbox ++ [cachePayload key value] else s.inbox }
  | .fail w => { s with writers := Function.update s.writers w none }
  | .del key => { s with kv := Function.update s.kv key none }
  -- the stream of the old connection is read to its end first
  | .connect => if s.inbox = [] then { s with connected := true } else s
  | .disconnect kept => { s with connected := false, inbox := s.inbox.take kept }
  | .receive =>
    match s.inbox with
    | [] => s
    | payload :: rest => hear { s with inbox := rest } payload
  | .poll key =>
    match s.polled with
    | none => { s with polled := (s.kv key).map (fun v => (key,v)) }
    | some _ => s
  | .apply =>
    match s.polled with
    | none => s
    | some (key,val) => if shown val then update { s with polled := none } key val else { s with polled := none }
  | .wait d => { s with now := s.now + d }

def run (s : CacheFeed) (actions : List Action) : CacheFeed := actions.foldl step s

@[simp] lemma run_nil (s : CacheFeed) : s.run [] = s := rfl

@[simp] lemma run_cons (s : CacheFeed) (a : Action) (actions : List Action) : s.run (a :: actions) = (s.step a).run actions := rfl

/-- A gateway that starts up: entries for the keys that it polls. -/
def start (kv : String → Option String) (keys : List String) (now : ℕ) : CacheFeed where
  kv := kv
  written := fun k => (kv k).toList
  writers := fun _ => none
  connected := false
  inbox := []
  polled := none
  entries := fun k => if k ∈ keys then some ⟨none,now,[]⟩ else none
  now := now

/-- All that the web sockets were sent under a key, with the times. -/
def broadcasts (s : CacheFeed) (key : String) : List (ℕ × String) := ((s.entries key).map (fun e => e.broadcasts)).getD []

/-! ### What a step does to an entry -/

lemma update_entries {s : CacheFeed} {key val k : String} {e' : CacheEntry} (h : (s.update key val).entries k = some e') :
    ∃ e, s.entries k = some e ∧ (e' = e ∨ k = key ∧ e' = e.update s.now val) := by
  unfold update at h
  dsimp only at h
  rw [Function.update_apply] at h
  split at h
  · rename_i hk
    subst hk
    obtain ⟨e,he,rfl⟩ := Option.map_eq_some_iff.mp h
    exact ⟨e,he,Or.inr ⟨rfl,rfl⟩⟩
  · exact ⟨e',h,Or.inl rfl⟩

lemma hear_entries {s : CacheFeed} {payload k : String} {e' : CacheEntry} (h : (s.hear payload).entries k = some e') :
    ∃ e, s.entries k = some e ∧ (e' = e ∨ ∃ val, heardOn k payload = some val ∧ e' = e.update s.now val) := by
  unfold hear at h
  split at h
  · rename_i key value hparse
    split at h
    · rename_i hshown
      obtain ⟨e,he,hsame | ⟨rfl,hnew⟩⟩ := update_entries h
      · exact ⟨e,he,Or.inl hsame⟩
      · refine ⟨e,he,Or.inr ⟨value,?_,hnew⟩⟩
        unfold heardOn
        rw [hparse]
        exact if_pos ⟨rfl,hshown⟩
    · exact ⟨e',h,Or.inl rfl⟩
  · exact ⟨e',h,Or.inl rfl⟩

/-- An entry stays, or takes a value that the subscriber has a message of, or that the poller has read. -/
lemma step_entries {s : CacheFeed} {a : Action} {k : String} {e' : CacheEntry} (h : (s.step a).entries k = some e') :
    ∃ e, s.entries k = some e ∧
      (e' = e ∨ ∃ val, ((∃ payload ∈ s.inbox, heardOn k payload = some val) ∨ s.polled = some (k,val)) ∧ e' = e.update s.now val) := by
  cases a with
  | set w key value =>
    simp only [step] at h
    split at h <;> exact ⟨e',h,Or.inl rfl⟩
  | publish w =>
    simp only [step] at h
    split at h <;> exact ⟨e',h,Or.inl rfl⟩
  | fail w => exact ⟨e',h,Or.inl rfl⟩
  | del key => exact ⟨e',h,Or.inl rfl⟩
  | connect =>
    simp only [step] at h
    split at h <;> exact ⟨e',h,Or.inl rfl⟩
  | disconnect kept => exact ⟨e',h,Or.inl rfl⟩
  | receive =>
    simp only [step] at h
    split at h
    · exact ⟨e',h,Or.inl rfl⟩
    · rename_i payload rest hinbox
      obtain ⟨e,he,hsame | ⟨val,hheard,hnew⟩⟩ := hear_entries h
      · exact ⟨e,he,Or.inl hsame⟩
      · exact ⟨e,he,Or.inr ⟨val,Or.inl ⟨payload,by simp [hinbox],hheard⟩,hnew⟩⟩
  | poll key =>
    simp only [step] at h
    split at h <;> exact ⟨e',h,Or.inl rfl⟩
  | apply =>
    simp only [step] at h
    split at h
    · exact ⟨e',h,Or.inl rfl⟩
    · rename_i key val hpolled
      split at h
      · obtain ⟨e,he,hsame | ⟨rfl,hnew⟩⟩ := update_entries h
        · exact ⟨e,he,Or.inl hsame⟩
        · exact ⟨e,he,Or.inr ⟨val,Or.inr hpolled,hnew⟩⟩
      · exact ⟨e',h,Or.inl rfl⟩
  | wait d => exact ⟨e',h,Or.inl rfl⟩

lemma hear_eq (s : CacheFeed) (payload : String) : s.hear payload = { s with entries := (s.hear payload).entries } := by
  unfold hear
  split
  · split <;> rfl
  · rfl

@[simp] lemma hear_kv (s : CacheFeed) (payload : String) : (s.hear payload).kv = s.kv := by rw [hear_eq]
@[simp] lemma hear_written (s : CacheFeed) (payload : String) : (s.hear payload).written = s.written := by rw [hear_eq]
@[simp] lemma hear_writers (s : CacheFeed) (payload : String) : (s.hear payload).writers = s.writers := by rw [hear_eq]
@[simp] lemma hear_connected (s : CacheFeed) (payload : String) : (s.hear payload).connected = s.connected := by rw [hear_eq]
@[simp] lemma hear_inbox (s : CacheFeed) (payload : String) : (s.hear payload).inbox = s.inbox := by rw [hear_eq]
@[simp] lemma hear_polled (s : CacheFeed) (payload : String) : (s.hear payload).polled = s.polled := by rw [hear_eq]
@[simp] lemma hear_now (s : CacheFeed) (payload : String) : (s.hear payload).now = s.now := by rw [hear_eq]

lemma now_le_step (s : CacheFeed) (a : Action) : s.now ≤ (s.step a).now := by
  cases a with
  | set w key value => simp only [step]; split <;> exact le_refl _
  | publish w => simp only [step]; split <;> exact le_refl _
  | fail w => exact le_refl _
  | del key => exact le_refl _
  | connect => simp only [step]; split <;> exact le_refl _
  | disconnect kept => exact le_refl _
  | receive =>
    simp only [step]
    split
    · exact le_refl _
    · rw [hear_now]
  | poll key => simp only [step]; split <;> exact le_refl _
  | apply =>
    simp only [step]
    split
    · exact le_refl _
    · split <;> exact le_refl _
  | wait d => exact Nat.le_add_right _ _

/-! ### The rate of broadcasts -/

def Throttled (s : CacheFeed) : Prop := ∀ k e, s.entries k = some e → e.Throttled s.now

lemma Throttled.step {s : CacheFeed} (hs : s.Throttled) (a : Action) : (s.step a).Throttled := by
  intro k e' he'
  obtain ⟨e,he,rfl | ⟨val,-,rfl⟩⟩ := step_entries he'
  · exact (hs k e' he).later (now_le_step s a)
  · exact ((hs k e he).update val).later (now_le_step s a)

lemma Throttled.run {s : CacheFeed} (hs : s.Throttled) (actions : List Action) : (s.run actions).Throttled := by
  induction actions generalizing s with
  | nil => exact hs
  | cons a actions ih => exact ih (hs.step a)

lemma throttled_start (kv : String → Option String) (keys : List String) (now : ℕ) : (start kv keys now).Throttled := by
  intro k e he
  simp only [start] at he
  split at he
  · obtain rfl := Option.some.inj he
    exact ⟨List.Pairwise.nil,by simp,le_refl _⟩
  · exact absurd he (by simp)

/-- Ten broadcasts a key in any second, whatever the subscriber and the poller come up with. -/
theorem broadcast_rate (kv : String → Option String) (keys : List String) (now : ℕ) (actions : List Action) (key : String) (since : ℕ) :
    (((start kv keys now).run actions).broadcasts key).countP (fun b => since ≤ b.1 ∧ b.1 < since + 1000 * 1000000) ≤ 10 := by
  have hs := (throttled_start kv keys now).run actions
  unfold broadcasts
  cases he : ((start kv keys now).run actions).entries key with
  | none => simp
  | some e =>
    have hcount := (hs key e he).spaced.countP_le since 10
    rw [List.countP_map] at hcount
    exact hcount

/-! ### Only what was written -/

/-- The keys of the program hold no newline. -/
def Action.Plain : Action → Prop
  | .set _ key _ => '\n' ∉ key.toList
  | _ => True

/-- Whatever is on its way under a key, or has come to the gateway, was SET under it. -/
structure Genuine (s : CacheFeed) : Prop where
  kv : ∀ k v, s.kv k = some v → (s.written k).getLast? = some v
  writers : ∀ w k v, s.writers w = some (k,v) → '\n' ∉ k.toList ∧ v ∈ s.written k
  inbox : ∀ payload ∈ s.inbox, ∀ k v, heardOn k payload = some v → v ∈ s.written k
  polled : ∀ k v, s.polled = some (k,v) → v ∈ s.written k
  entries : ∀ k e, s.entries k = some e →
    (∀ v, e.watch = some v → v ∈ s.written k) ∧ ∀ b ∈ e.broadcasts, b.2 ∈ s.written k

lemma genuine_start (kv : String → Option String) (keys : List String) (now : ℕ) : (start kv keys now).Genuine := by
  refine ⟨?_,?_,by simp [start],?_,?_⟩
  · intro k v hv
    simp only [start] at hv ⊢
    rw [hv]
    rfl
  · intro w k v hv
    exact absurd hv (by simp [start])
  · intro k v hv
    exact absurd hv (by simp [start])
  · intro k e he
    simp only [start] at he
    split at he
    · obtain rfl := Option.some.inj he
      exact ⟨by simp,by simp⟩
    · exact absurd he (by simp)

lemma mem_written_step {s : CacheFeed} {k v : String} (h : v ∈ s.written k) (a : Action) : v ∈ (s.step a).written k := by
  cases a with
  | set w key value =>
    simp only [step]
    split
    · dsimp only
      rw [Function.update_apply]
      split
      · rename_i hk
        subst hk
        exact List.mem_append_left _ h
      · exact h
    · exact h
  | publish w => simp only [step]; split <;> exact h
  | connect => simp only [step]; split <;> exact h
  | poll key => simp only [step]; split <;> exact h
  | receive =>
    simp only [step]
    split
    · exact h
    · rwa [hear_written]
  | apply =>
    simp only [step]
    split
    · exact h
    · split <;> exact h
  | _ => exact h

lemma Genuine.step {s : CacheFeed} (hs : s.Genuine) {a : Action} (ha : a.Plain) : (s.step a).Genuine := by
  obtain ⟨hkv,hwriters,hinbox,hpolled,hentries⟩ := hs
  have hstill : ∀ k v, v ∈ s.written k → v ∈ (s.step a).written k := fun k v h => mem_written_step h a
  have hshown : ∀ k e, (s.step a).entries k = some e →
      (∀ v, e.watch = some v → v ∈ (s.step a).written k) ∧ ∀ b ∈ e.broadcasts, b.2 ∈ (s.step a).written k := by
    intro k e' he'
    obtain ⟨e,he,rfl | ⟨val,hsource,rfl⟩⟩ := step_entries he'
    · obtain ⟨hwatch,hcast⟩ := hentries k e' he
      exact ⟨fun v hv => hstill k v (hwatch v hv),fun b hb => hstill k b.2 (hcast b hb)⟩
    · have hval : val ∈ s.written k := by
        rcases hsource with ⟨payload,hmem,hheard⟩ | hp
        · exact hinbox payload hmem k val hheard
        · exact hpolled k val hp
      refine ⟨?_,?_⟩
      · intro v hv
        rw [CacheEntry.update_watch] at hv
        obtain rfl := Option.some.inj hv
        exact hstill k val hval
      · intro b hb
        rcases CacheEntry.mem_update hb with hold | rfl
        · exact hstill k b.2 ((hentries k e he).2 b hold)
        · exact hstill k val hval
  cases a with
  | set w key value =>
    simp only [CacheFeed.step] at hstill hshown ⊢
    split at hstill
    · rename_i hfree
      simp only [hfree] at hshown
      refine ⟨?_,?_,fun p hp k v h => hstill k v (hinbox p hp k v h),fun k v h => hstill k v (hpolled k v h),hshown⟩
      · intro k v hv
        dsimp only at hv
        rw [Function.update_apply] at hv
        split at hv
        · rename_i hk
          subst hk
          obtain rfl := Option.some.inj hv
          simp
        · rename_i hk
          simp only [Function.update_of_ne hk]
          exact hkv k v hv
      · intro w' k v hv
        dsimp only at hv
        rw [Function.update_apply] at hv
        split at hv
        · obtain ⟨rfl,rfl⟩ := Prod.mk.inj (Option.some.inj hv)
          exact ⟨ha,by simp⟩
        · exact ⟨(hwriters w' k v hv).1,hstill k v (hwriters w' k v hv).2⟩
    · exact ⟨hkv,hwriters,hinbox,hpolled,hentries⟩
  | publish w =>
    simp only [CacheFeed.step] at hstill hshown ⊢
    split at hshown
    · exact ⟨hkv,hwriters,hinbox,hpolled,hentries⟩
    · rename_i key value hopen
      obtain ⟨hplain,hvalue⟩ := hwriters w key value hopen
      refine ⟨hkv,?_,?_,hpolled,hshown⟩
      · intro w' k v hv
        dsimp only at hv
        rw [Function.update_apply] at hv
        split at hv
        · exact absurd hv (by simp)
        · exact hwriters w' k v hv
      · intro payload hmem k v hheard
        dsimp only at hmem
        split at hmem
        · rcases List.mem_append.mp hmem with hold | hnew
          · exact hinbox payload hold k v hheard
          · rw [List.mem_singleton.mp hnew, heardOn_cachePayload hplain] at hheard
            split at hheard
            · rename_i hk
              obtain rfl := Option.some.inj hheard
              exact hk.1 ▸ hvalue
            · exact absurd hheard (by simp)
        · exact hinbox payload hmem k v hheard
  | fail w =>
    refine ⟨hkv,?_,hinbox,hpolled,hshown⟩
    intro w' k v hv
    simp only [CacheFeed.step] at hv
    rw [Function.update_apply] at hv
    split at hv
    · exact absurd hv (by simp)
    · exact hwriters w' k v hv
  | del key =>
    refine ⟨?_,hwriters,hinbox,hpolled,hshown⟩
    intro k v hv
    simp only [CacheFeed.step] at hv
    rw [Function.update_apply] at hv
    split at hv
    · exact absurd hv (by simp)
    · exact hkv k v hv
  | connect =>
    simp only [CacheFeed.step] at hshown ⊢
    split
    · exact ⟨hkv,hwriters,hinbox,hpolled,hentries⟩
    · exact ⟨hkv,hwriters,hinbox,hpolled,hentries⟩
  | disconnect kept =>
    exact ⟨hkv,hwriters,fun payload hmem => hinbox payload (List.mem_of_mem_take hmem),hpolled,hshown⟩
  | receive =>
    simp only [CacheFeed.step] at hstill hshown ⊢
    split at hshown
    · exact ⟨hkv,hwriters,hinbox,hpolled,hentries⟩
    · rename_i payload rest hrest
      refine ⟨by simpa using hkv,by simpa using hwriters,?_,by simpa using hpolled,hshown⟩
      intro p hp k v hheard
      rw [hear_inbox] at hp
      rw [hear_written]
      exact hinbox p (by rw [hrest]; exact List.mem_cons_of_mem _ hp) k v hheard
  | poll key =>
    simp only [CacheFeed.step] at hshown ⊢
    split at hshown
    · refine ⟨hkv,hwriters,hinbox,?_,hshown⟩
      intro k v hv
      obtain ⟨v',hv',heq⟩ := Option.map_eq_some_iff.mp hv
      obtain ⟨rfl,rfl⟩ := Prod.mk.inj heq
      exact List.mem_of_getLast? (hkv key v' hv')
    · exact ⟨hkv,hwriters,hinbox,hpolled,hentries⟩
  | apply =>
    simp only [CacheFeed.step] at hshown ⊢
    split at hshown
    · exact ⟨hkv,hwriters,hinbox,hpolled,hentries⟩
    · rename_i key val hread
      by_cases hval : shown val = true
      · simp only [if_pos hval] at hshown ⊢
        exact ⟨hkv,hwriters,hinbox,by simp [update],hshown⟩
      · simp only [if_neg hval] at hshown ⊢
        exact ⟨hkv,hwriters,hinbox,by simp,hshown⟩
  | wait d => exact ⟨hkv,hwriters,hinbox,hpolled,hshown⟩

lemma Genuine.run {s : CacheFeed} (hs : s.Genuine) {actions : List Action} (h : ∀ a ∈ actions, a.Plain) : (s.run actions).Genuine := by
  induction actions generalizing s with
  | nil => exact hs
  | cons a actions ih => exact ih (hs.step (h a (by simp))) (fun b hb => h b (List.mem_cons_of_mem a hb))

/-- Lost connections, failed writers and late polls included, REST and the web sockets never get a
value that was not SET under the key they ask for. -/
theorem feed_is_genuine (kv : String → Option String) (keys : List String) (now : ℕ) (actions : List Action)
    (h : ∀ a ∈ actions, a.Plain) (key : String) :
    (∀ v, ((start kv keys now).run actions).getLatest key = some v → v ∈ ((start kv keys now).run actions).written key) ∧
      ∀ b ∈ ((start kv keys now).run actions).broadcasts key, b.2 ∈ ((start kv keys now).run actions).written key := by
  have hs := (genuine_start kv keys now).run h
  refine ⟨?_,?_⟩
  · intro v hv
    obtain ⟨e,he,hwatch⟩ := Option.bind_eq_some_iff.mp hv
    exact (hs.entries key e he).1 v hwatch
  · intro b hb
    unfold broadcasts at hb
    cases he : ((start kv keys now).run actions).entries key with
    | none => simp [he] at hb
    | some e => exact (hs.entries key e he).2 b (by simpa [he] using hb)

theorem feed_of_pairs_is_genuine :
    let s := (start (fun _ => none) ["cache:pairs"] 0).run [.connect,.set 0 "cache:pairs" "[]",.publish 0,.receive]
    (∀ v, s.getLatest "cache:pairs" = some v → v ∈ s.written "cache:pairs") ∧
      ∀ b ∈ s.broadcasts "cache:pairs", b.2 ∈ s.written "cache:pairs" :=
  feed_is_genuine _ _ _ _ (by simp [Action.Plain]) "cache:pairs"

/-! ### The value that was written last -/

/-- The value under `k` that a call has SET and not published. -/
def owedOn (k : String) : Option (String × String) → List String
  | some (key,value) => if key = k then [value] else []
  | none => []

/-- The values that will still come to `k`, in order, if only `w` writes it. -/
def coming (s : CacheFeed) (k : String) (w : ℕ) : List String := s.inbox.filterMap (heardOn k) ++ owedOn k (s.writers w)

/-- The gateway hears of `k`, no call has it open, and `w` is about to write it. -/
structure Listening (s : CacheFeed) (k : String) (w : ℕ) : Prop where
  connected : s.connected = true
  known : (s.entries k).isSome = true
  quiet : ∀ w, owedOn k (s.writers w) = []
  free : s.writers w = none

/-- `k` is written by `w` alone, which does not fail; the connection holds; and the poller is not late:
what it has read is the last value written, or another one is on its way. -/
def InOrder (s : CacheFeed) (k : String) (w : ℕ) : Action → Prop
  | .set w' key value => '\n' ∉ key.toList ∧ (key = k → w' = w ∧ shown value = true)
  | .fail w' => owedOn k (s.writers w') = []
  | .disconnect _ => False
  | .apply => ∀ v ∈ owedOn k s.polled, (s.written k).getLast? = some v ∨ s.coming k w ≠ []
  | _ => True

def Orderly (k : String) (w : ℕ) : CacheFeed → List Action → Prop
  | _, [] => True
  | s, a :: actions => s.InOrder k w a ∧ Orderly k w (s.step a) actions

/-- What is served and what is on its way to be served end in the value that was written last. -/
structure Current (k : String) (w : ℕ) (s : CacheFeed) : Prop where
  connected : s.connected = true
  known : (s.entries k).isSome = true
  alone : ∀ w', w' ≠ w → owedOn k (s.writers w') = []
  plain : ∀ w' key value, s.writers w' = some (key,value) → '\n' ∉ key.toList
  proper : ∀ v ∈ owedOn k (s.writers w), shown v = true
  served : ((s.getLatest k).toList ++ s.coming k w).getLast? = (s.written k).getLast?

@[simp] lemma owedOn_some_self (k value : String) : owedOn k (some (k,value)) = [value] := if_pos rfl

lemma owedOn_some_of_ne {k key : String} (h : key ≠ k) (value : String) : owedOn k (some (key,value)) = [] := if_neg h

@[simp] lemma owedOn_none (k : String) : owedOn k none = [] := rfl

lemma known_update (s : CacheFeed) (key val k : String) : ((s.update key val).entries k).isSome = (s.entries k).isSome := by
  unfold update
  dsimp only
  rw [Function.update_apply]
  split
  · rename_i hk
    subst hk
    exact Option.isSome_map
  · rfl

lemma known_hear (s : CacheFeed) (payload k : String) : ((s.hear payload).entries k).isSome = (s.entries k).isSome := by
  unfold hear
  split
  · split
    · exact known_update s _ _ k
    · rfl
  · rfl

lemma getLatest_update_self {s : CacheFeed} {k : String} (h : (s.entries k).isSome = true) (val : String) :
    (s.update k val).getLatest k = some val := by
  obtain ⟨e,he⟩ := Option.isSome_iff_exists.mp h
  simp [getLatest, update, he]

lemma getLatest_update_of_ne (s : CacheFeed) {k key : String} (h : key ≠ k) (val : String) :
    (s.update key val).getLatest k = s.getLatest k := by
  unfold getLatest update
  dsimp only
  rw [Function.update_of_ne (Ne.symm h)]

lemma getLatest_hear {s : CacheFeed} {k : String} (h : (s.entries k).isSome = true) (payload : String) :
    (s.hear payload).getLatest k = (heardOn k payload).or (s.getLatest k) := by
  unfold hear heardOn
  split
  · rename_i key value hparse
    rw [hparse, Option.bind_some]
    by_cases hshown : shown value = true
    · rw [if_pos hshown]
      by_cases hk : key = k
      · subst hk
        rw [getLatest_update_self h, if_pos ⟨rfl,hshown⟩, Option.some_or]
      · rw [getLatest_update_of_ne s hk, if_neg (fun hf => hk hf.1), Option.none_or]
    · rw [if_neg hshown, if_neg (fun hf => hshown hf.2), Option.none_or]
  · rename_i hparse
    rw [hparse, Option.bind_none, Option.none_or]

namespace Current
variable {k : String} {w : ℕ} {s : CacheFeed}

lemma set (hs : s.Current k w) {w' : ℕ} {key value : String} (h : s.InOrder k w (.set w' key value)) :
    (s.step (.set w' key value)).Current k w := by
  obtain ⟨hconnected,hknown,halone,hplain,hproper,hserved⟩ := hs
  obtain ⟨hkey,hwriter⟩ := h
  simp only [step]
  split
  · rename_i hfree
    have hplain' : ∀ v c d, Function.update s.writers w' (some (key,value)) v = some (c,d) → '\n' ∉ c.toList := by
      intro v c d hv
      rw [Function.update_apply] at hv
      split at hv
      · obtain ⟨rfl,rfl⟩ := Prod.mk.inj (Option.some.inj hv)
        exact hkey
      · exact hplain v c d hv
    by_cases hk : key = k
    · -- the last of what is to come is what was just written
      subst hk
      obtain ⟨rfl,hshown⟩ := hwriter rfl
      refine ⟨hconnected,hknown,?_,hplain',?_,?_⟩
      · intro v hv
        simpa [Function.update_of_ne hv] using halone v hv
      · simp [hshown]
      · simp [coming, ← List.append_assoc]
    · have howed : ∀ v, owedOn k (Function.update s.writers w' (some (key,value)) v) = owedOn k (s.writers v) := by
        intro v
        rw [Function.update_apply]
        split
        · rename_i hv
          rw [hv, hfree, owedOn_some_of_ne hk, owedOn_none]
        · rfl
      refine ⟨hconnected,hknown,fun v hv => (howed v).trans (halone v hv),hplain',fun v hv => hproper v (howed w ▸ hv),?_⟩
      simp only [coming] at hserved ⊢
      rw [howed w, Function.update_of_ne (Ne.symm hk)]
      exact hserved
  · exact ⟨hconnected,hknown,halone,hplain,hproper,hserved⟩

lemma plain_closed (hs : s.Current k w) (w' : ℕ) :
    ∀ v c d, Function.update s.writers w' none v = some (c,d) → '\n' ∉ c.toList := by
  intro v c d hv
  rw [Function.update_apply] at hv
  split at hv
  · exact absurd hv (by simp)
  · exact hs.plain v c d hv

lemma alone_closed (hs : s.Current k w) (w' : ℕ) : ∀ v, v ≠ w → owedOn k (Function.update s.writers w' none v) = [] := by
  intro v hv
  rw [Function.update_apply]
  split
  · rfl
  · exact hs.alone v hv

lemma proper_closed (hs : s.Current k w) (w' : ℕ) : ∀ v ∈ owedOn k (Function.update s.writers w' none w), shown v = true := by
  intro v hv
  rw [Function.update_apply] at hv
  split at hv
  · simp at hv
  · exact hs.proper v hv

lemma publish (hs : s.Current k w) (w' : ℕ) : (s.step (.publish w')).Current k w := by
  simp only [step]
  split
  · exact hs
  · rename_i key value hopen
    refine ⟨hs.connected,hs.known,hs.alone_closed w',hs.plain_closed w',hs.proper_closed w',?_⟩
    have hserved := hs.served
    have hkey := hs.plain w' key value hopen
    -- the value goes from the call into the inbox
    have hcoming : (s.inbox ++ [cachePayload key value]).filterMap (heardOn k) ++ owedOn k (Function.update s.writers w' none w)
        = s.coming k w := by
      rw [List.filterMap_append]
      simp only [coming, List.filterMap_cons, List.filterMap_nil]
      rw [heardOn_cachePayload hkey]
      by_cases hk : key = k
      · subst hk
        have hw : w' = w := by
          by_contra hne
          have hnone := hs.alone w' hne
          rw [hopen, owedOn_some_self] at hnone
          exact absurd hnone (by simp)
        subst hw
        have hshown : shown value = true := hs.proper value (by simp [hopen])
        simp [hshown, hopen]
      · have howed : owedOn k (Function.update s.writers w' none w) = owedOn k (s.writers w) := by
          rw [Function.update_apply]
          split
          · rename_i hv
            rw [hv, hopen, owedOn_some_of_ne hk, owedOn_none]
          · rfl
        rw [howed, if_neg (fun hf => hk hf.1)]
        simp
    rw [if_pos hs.connected]
    simp only [coming] at hcoming hserved ⊢
    rw [hcoming]
    exact hserved

lemma fail (hs : s.Current k w) {w' : ℕ} (h : s.InOrder k w (.fail w')) : (s.step (.fail w')).Current k w := by
  refine ⟨hs.connected,hs.known,hs.alone_closed w',hs.plain_closed w',hs.proper_closed w',?_⟩
  have howed : owedOn k (Function.update s.writers w' none w) = owedOn k (s.writers w) := by
    rw [Function.update_apply]
    split
    · rename_i hv
      subst hv
      exact (Eq.symm h)
    · rfl
  have hserved := hs.served
  simp only [step, coming] at hserved ⊢
  rw [howed]
  exact hserved

lemma receive (hs : s.Current k w) : (s.step .receive).Current k w := by
  simp only [step]
  split
  · exact hs
  · rename_i payload rest hinbox
    have hserved := hs.served
    refine ⟨by simpa using hs.connected,?_,by simpa using hs.alone,by simpa using hs.plain,by simpa using hs.proper,?_⟩
    · rw [known_hear]
      exact hs.known
    · rw [getLatest_hear (by exact hs.known)]
      simp only [coming, hinbox, List.filterMap_cons] at hserved
      simp only [coming, hear_inbox, hear_writers, hear_written]
      cases hheard : heardOn k payload with
      | none =>
        rw [hheard] at hserved
        exact hserved
      | some v =>
        rw [hheard] at hserved
        rw [← hserved, Option.some_or]
        simp [List.getLast?_append, List.getLast?_cons]

lemma apply (hs : s.Current k w) (h : s.InOrder k w .apply) : (s.step .apply).Current k w := by
  simp only [step]
  split
  · exact hs
  · rename_i key val hread
    obtain ⟨hconnected,hknown,halone,hplain,hproper,hserved⟩ := hs
    split
    · refine ⟨hconnected,?_,halone,hplain,hproper,?_⟩
      · rw [known_update]
        exact hknown
      · by_cases hk : key = k
        · subst hk
          rw [getLatest_update_self (by exact hknown)]
          have hread' := h val (by simp [hread])
          simp only [update]
          rcases List.eq_nil_or_concat (s.coming key w) with hnil | ⟨front,last,hlast⟩
          · rcases hread' with heq | hne
            · simp only [coming] at hnil ⊢
              rw [hnil, heq]
              rfl
            · exact absurd hnil hne
          · -- what is still to come was written later
            simp only [coming] at hserved hlast ⊢
            rw [← hserved, hlast, List.concat_eq_append, ← List.append_assoc, ← List.append_assoc, List.getLast?_concat,
              List.getLast?_concat]
        · rw [getLatest_update_of_ne _ hk]
          exact hserved
    · exact ⟨hconnected,hknown,halone,hplain,hproper,hserved⟩

lemma step (hs : s.Current k w) {a : Action} (h : s.InOrder k w a) : (s.step a).Current k w := by
  obtain ⟨hconnected,hknown,halone,hplain,hproper,hserved⟩ := hs
  cases a with
  | set w' key value => exact set ⟨hconnected,hknown,halone,hplain,hproper,hserved⟩ h
  | publish w' => exact publish ⟨hconnected,hknown,halone,hplain,hproper,hserved⟩ w'
  | fail w' => exact fail ⟨hconnected,hknown,halone,hplain,hproper,hserved⟩ h
  | del key => exact ⟨hconnected,hknown,halone,hplain,hproper,hserved⟩
  | connect =>
    simp only [CacheFeed.step]
    split
    · exact ⟨rfl,hknown,halone,hplain,hproper,hserved⟩
    · exact ⟨hconnected,hknown,halone,hplain,hproper,hserved⟩
  | disconnect kept => exact absurd h id
  | receive => exact receive ⟨hconnected,hknown,halone,hplain,hproper,hserved⟩
  | poll key =>
    simp only [CacheFeed.step]
    split <;> exact ⟨hconnected,hknown,halone,hplain,hproper,hserved⟩
  | apply => exact apply ⟨hconnected,hknown,halone,hplain,hproper,hserved⟩ h
  | wait d => exact ⟨hconnected,hknown,halone,hplain,hproper,hserved⟩

lemma run (hs : s.Current k w) {actions : List Action} (h : Orderly k w s actions) : (s.run actions).Current k w := by
  induction actions generalizing s with
  | nil => exact hs
  | cons a actions ih => exact ih (hs.step h.1) h.2

end Current

/-- Every write that a gateway hears of sets `k` right, whatever was served before. -/
lemma Listening.current {s : CacheFeed} {k v : String} {w : ℕ} (hs : s.Listening k w) (hplain : s.Genuine)
    (h : s.InOrder k w (.set w k v)) : (s.step (.set w k v)).Current k w := by
  obtain ⟨hconnected,hknown,hquiet,hfree⟩ := hs
  have hshown := (h.2 rfl).2
  simp only [step, hfree]
  refine ⟨hconnected,hknown,?_,?_,by simp [hshown],by simp [coming, ← List.append_assoc]⟩
  · intro w' hw'
    simpa [Function.update_of_ne hw'] using hquiet w'
  · intro w' key value hopen
    dsimp only at hopen
    rw [Function.update_apply] at hopen
    split at hopen
    · obtain ⟨rfl,rfl⟩ := Prod.mk.inj (Option.some.inj hopen)
      exact h.1
    · exact (hplain.writers w' key value hopen).1

lemma InOrder.plain {s : CacheFeed} {k : String} {w : ℕ} {a : Action} (h : s.InOrder k w a) : a.Plain := by
  cases a with
  | set w' key value => exact h.1
  | _ => trivial

lemma Orderly.plain {k : String} {w : ℕ} {s : CacheFeed} {actions : List Action} (h : Orderly k w s actions) :
    ∀ a ∈ actions, a.Plain := by
  induction actions generalizing s with
  | nil => simp
  | cons a actions ih => exact List.forall_mem_cons.mpr ⟨h.1.plain,ih h.2⟩

lemma receives_orderly (k : String) (w : ℕ) (s : CacheFeed) (n : ℕ) : Orderly k w s (List.replicate n .receive) := by
  induction n generalizing s with
  | zero => trivial
  | succ n ih => exact ⟨trivial,ih (s.step .receive)⟩

lemma step_receive (s : CacheFeed) :
    (s.step .receive).inbox = s.inbox.drop 1 ∧ (s.step .receive).writers = s.writers ∧ (s.step .receive).written = s.written := by
  simp only [step]
  split
  · rename_i hinbox
    simp [hinbox]
  · rename_i payload rest hinbox
    simp [hinbox]

lemma run_receives (s : CacheFeed) (n : ℕ) :
    (s.run (List.replicate n .receive)).inbox = s.inbox.drop n ∧ (s.run (List.replicate n .receive)).writers = s.writers ∧
      (s.run (List.replicate n .receive)).written = s.written := by
  induction n generalizing s with
  | zero => exact ⟨rfl,rfl,rfl⟩
  | succ n ih =>
    obtain ⟨hinbox,hwriters,hwritten⟩ := step_receive s
    obtain ⟨ihinbox,ihwriters,ihwritten⟩ := ih (s.step .receive)
    rw [List.replicate_succ, run_cons]
    refine ⟨?_,ihwriters.trans hwriters,ihwritten.trans hwritten⟩
    rw [ihinbox, hinbox, List.drop_drop, Nat.add_comm]

lemma step_publish (s : CacheFeed) (w : ℕ) :
    (s.step (.publish w)).inbox.length ≤ s.inbox.length + 1 ∧ (s.step (.publish w)).writers w = none ∧
      (s.step (.publish w)).written = s.written := by
  simp only [step]
  split
  · rename_i hfree
    exact ⟨Nat.le_succ _,hfree,rfl⟩
  · dsimp only
    refine ⟨?_,Function.update_self ..,rfl⟩
    split
    · rw [List.length_append, List.length_singleton]
    · exact Nat.le_succ _

/-- From its first write on that the gateway hears of, a key with one writer is served as it was written
last: when nothing is on its way, and so as soon as its writer has published and the messages have been
taken. Deleting the key changes nothing of that. -/
theorem feed_catches_up (kv : String → Option String) (keys : List String) (now : ℕ) {before after : List Action} {k v : String}
    {w : ℕ} (hbefore : ∀ a ∈ before, a.Plain) (hlistening : ((start kv keys now).run before).Listening k w)
    (horder : Orderly k w ((start kv keys now).run before) (.set w k v :: after)) :
    let s := ((start kv keys now).run before).run (.set w k v :: after)
    (s.coming k w = [] → s.getLatest k = (s.written k).getLast?) ∧
      (∀ n, s.inbox.length < n → (s.run (.publish w :: List.replicate n .receive)).getLatest k = (s.written k).getLast?) ∧
        ∀ v', s.kv k = some v' → (s.written k).getLast? = some v' := by
  have hgenuine := (genuine_start kv keys now).run hbefore
  have hcurrent := (hlistening.current hgenuine horder.1).run horder.2
  have hwritten := (hgenuine.run horder.plain).kv k
  rw [← run_cons] at hcurrent
  generalize ((start kv keys now).run before).run (.set w k v :: after) = s at hcurrent hwritten
  refine ⟨?_,?_,hwritten⟩
  · intro hnone
    have hserved := hcurrent.served
    rw [hnone, List.append_nil] at hserved
    rw [← hserved, getLast?_toList]
  · intro n hn
    obtain ⟨hlength,hclosed,hsame⟩ := step_publish s w
    obtain ⟨hinbox,hwriters,hwritten'⟩ := run_receives (s.step (.publish w)) n
    have hdone := (hcurrent.publish w).run (receives_orderly k w (s.step (.publish w)) n)
    have hserved := hdone.served
    have hcoming : ((s.step (.publish w)).run (List.replicate n .receive)).coming k w = [] := by
      simp only [coming]
      rw [hinbox, hwriters, hclosed, List.drop_eq_nil_of_le (by omega)]
      rfl
    rw [hcoming, List.append_nil, hwritten', hsame] at hserved
    rw [run_cons, ← hserved, getLast?_toList]

theorem feed_of_pairs_catches_up :
    let s := ((start (fun _ => none) ["cache:pairs"] 0).run [.connect]).run [.set 0 "cache:pairs" "[]",.poll "cache:pairs",.del "cache:pairs"]
    (s.coming "cache:pairs" 0 = [] → s.getLatest "cache:pairs" = (s.written "cache:pairs").getLast?) ∧
      (∀ n, s.inbox.length < n →
        (s.run (.publish 0 :: List.replicate n .receive)).getLatest "cache:pairs" = (s.written "cache:pairs").getLast?) ∧
        ∀ v', s.kv "cache:pairs" = some v' → (s.written "cache:pairs").getLast? = some v' :=
  feed_catches_up (fun _ => none) ["cache:pairs"] 0 (by simp [Action.Plain]) ⟨rfl,rfl,fun _ => rfl,rfl⟩
    ⟨⟨by decide,fun _ => ⟨rfl,by decide⟩⟩,trivial,trivial,trivial⟩

/-! ### Why the conditions -/

/-- Two calls that publish in the other order than they SET: the older value stays. -/
theorem overtaken_writer {s : CacheFeed} {k : String} {w w' : ℕ} (hs : s.Listening k w) (hw : w' ≠ w) (hfree : s.writers w' = none)
    (hinbox : s.inbox = []) (hkey : '\n' ∉ k.toList) {old new : String} (hold : shown old = true) :
    let t := s.run [.set w k old,.set w' k new,.publish w',.publish w,.receive,.receive]
    t.kv k = some new ∧ t.coming k w = [] ∧ t.getLatest k = some old := by
  obtain ⟨hconnected,hknown,-,hw0⟩ := hs
  have hheard : ∀ v, shown v = true → heardOn k (cachePayload k v) = some v := by
    intro v hv
    rw [heardOn_cachePayload hkey, if_pos ⟨rfl,hv⟩]
  simp only [run_cons, run_nil, step, hw0, hfree, Function.update_self, Function.update_of_ne hw, Function.update_of_ne hw.symm,
    hconnected, hinbox, if_true, List.nil_append, List.singleton_append, hear_inbox]
  refine ⟨by simp,by simp [coming],?_⟩
  rw [getLatest_hear (by simpa [known_hear] using hknown), hheard old hold, Option.some_or]

/-- A poll that is put off until a later value has been heard: the older value comes back. -/
theorem late_poll {s : CacheFeed} {k : String} {w : ℕ} (hs : s.Listening k w) (hpolled : s.polled = none) (hinbox : s.inbox = [])
    {old new : String} (hkv : s.kv k = some old) (hold : shown old = true) :
    let t := s.run [.poll k,.set w k new,.publish w,.receive,.apply]
    t.kv k = some new ∧ t.coming k w = [] ∧ t.getLatest k = some old := by
  obtain ⟨hconnected,hknown,-,hw0⟩ := hs
  simp only [run_cons, run_nil, step, hpolled, hw0, hkv, Option.map_some, Function.update_self, hconnected, hinbox, if_true,
    List.nil_append, hear_polled, hold]
  refine ⟨by simp [update],by simp [coming, update],?_⟩
  rw [getLatest_update_self (by simpa [known_hear] using hknown)]

end CacheFeed
end MatchingEngine

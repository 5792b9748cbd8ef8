import MatchingEngine.Library.Table

/-! The gateway's cache of orders and portfolios: a value is good for two seconds after it was put there.
Requests look a key up, read Valkey when they miss, and put what they read into the cache; between any
two of these steps others may write, read and put. -/
namespace MatchingEngine
open Library

/-- One row a key, with the time at which it was put there. Times are in nanoseconds. -/
structure UserCache where
  rows : List (String × ℕ × String)

namespace UserCache

def userCacheTtlMs : ℕ := 2000

def elapsedMs (now ts : ℕ) : ℕ := (now - ts) / 1000000

def get (c : UserCache) (key : String) (now : ℕ) : Option String :=
  match c.rows.lookup key with
  | some (ts,val) => if elapsedMs now ts < userCacheTtlMs then some val else none
  | none => none

/-- A map of more than a thousand rows loses those that are older than twice the limit. -/
def set (c : UserCache) (key val : String) (now : ℕ) : UserCache :=
  let rows := (key,now,val) :: c.rows.filter (fun r => r.1 ≠ key)
  ⟨if 1000 < rows.length then rows.filter (fun r => elapsedMs now r.2.1 < userCacheTtlMs * 2) else rows⟩

/-- The time to live in nanoseconds. -/
def ttl : ℕ := userCacheTtlMs * 1000000

lemma elapsedMs_lt {now ts ms : ℕ} : elapsedMs now ts < ms ↔ now - ts < ms * 1000000 :=
  Nat.div_lt_iff_lt_mul (by decide)

lemma ttl_pos : 0 < ttl := Nat.mul_pos (by decide) (by decide)

lemma get_eq_some {c : UserCache} {key val : String} {now : ℕ} (h : c.get key now = some val) :
    ∃ ts, (key,ts,val) ∈ c.rows ∧ now < ts + ttl := by
  unfold get at h
  split at h
  · rename_i ts v hlookup
    split at h
    · rename_i hyoung
      obtain rfl := Option.some.inj h
      have hyoung' : now - ts < ttl := elapsedMs_lt.mp hyoung
      exact ⟨ts,Table.mem_of_lookup hlookup,by omega⟩
    · exact absurd h (by simp)
  · exact absurd h (by simp)

lemma mem_set {c : UserCache} {key val : String} {now : ℕ} {r : String × ℕ × String} (h : r ∈ (c.set key val now).rows) :
    r = (key,now,val) ∨ r ∈ c.rows := by
  have hrow : r ∈ (key,now,val) :: c.rows.filter (fun r => r.1 ≠ key) := by
    unfold set at h
    dsimp only at h
    split at h
    · exact List.mem_of_mem_filter h
    · exact h
  rcases List.mem_cons.mp hrow with hnew | hold
  · exact Or.inl hnew
  · exact Or.inr (List.mem_of_mem_filter hold)

end UserCache

/-- A request that found nothing in the cache, and one that has read Valkey since. -/
inductive UserRead
  | missed (key : String)
  | fetched (key val : String) (since : ℕ)

/-- Valkey, the gateway's cache, the requests in progress, and the answers so far: when, for which key,
and the value, or none for the empty default. -/
structure UserReads where
  kv : String → Option String
  cache : UserCache
  requests : ℕ → Option UserRead
  answers : List (ℕ × String × Option String)
  now : ℕ

namespace UserReads

/-- A worker writes or deletes a key; a request of `list_orders` or `get_portfolio` looks its key up,
reads Valkey, or gets an error there, and puts what it has read into the cache; a portfolio subscription
reads without putting; and time. -/
inductive Action
  | write (key : String) (val : Option String)
  | lookup (r : ℕ) (key : String)
  | fetch (r : ℕ)
  | error (r : ℕ)
  | put (r : ℕ)
  | peek (r : ℕ)
  | wait (d : ℕ)

def step (s : UserReads) : Action → UserReads
  | .write key val => { s with kv := Function.update s.kv key val }
  | .lookup r key =>
    match s.requests r, s.cache.get key s.now with
    | none, some val => { s with answers := s.answers ++ [(s.now,key,some val)] }
    | none, none => { s with requests := Function.update s.requests r (some (.missed key)) }
    | some _, _ => s
  | .fetch r =>
    match s.requests r with
    | some (.missed key) =>
      -- no value, or an empty object, is answered with the default and not cached
      match (s.kv key).filter (· ≠ "\x7b\x7d") with
      | some val => { s with requests := Function.update s.requests r (some (.fetched key val s.now)) }
      | none => { s with requests := Function.update s.requests r none, answers := s.answers ++ [(s.now,key,none)] }
    | _ => s
  | .error r =>
    match s.requests r with
    | some (.missed key) =>
      { s with requests := Function.update s.requests r none, answers := s.answers ++ [(s.now,key,none)] }
    | _ => s
  | .put r =>
    match s.requests r with
    | some (.fetched key val _) => { s with
        cache := s.cache.set key val s.now
        requests := Function.update s.requests r none
        answers := s.answers ++ [(s.now,key,some val)] }
    | _ => s
  | .peek r =>
    match s.requests r with
    | some (.missed key) =>
      { s with requests := Function.update s.requests r none, answers := s.answers ++ [(s.now,key,s.kv key)] }
    | _ => s
  | .wait d => { s with now := s.now + d }

def run (s : UserReads) (actions : List Action) : UserReads := actions.foldl step s

@[simp] lemma run_nil (s : UserReads) : s.run [] = s := rfl

@[simp] lemma run_cons (s : UserReads) (a : Action) (actions : List Action) : s.run (a :: actions) = (s.step a).run actions := rfl

def start (kv : String → Option String) (now : ℕ) : UserReads := ⟨kv,⟨[]⟩,fun _ => none,[],now⟩

/-- A request puts what it has read into the cache within `delay`. -/
def Prompt (delay : ℕ) (s : UserReads) : Action → Prop
  | .put r => ∀ key val since, s.requests r = some (.fetched key val since) → s.now ≤ since + delay
  | _ => True

def PromptRun (delay : ℕ) : UserReads → List Action → Prop
  | _, [] => True
  | s, a :: actions => s.Prompt delay a ∧ PromptRun delay (s.step a) actions

/-! ### How old an answer can be -/

/-- `was t key val` says that Valkey held `val` under `key` at time `t`. What requests have read, what
the cache holds and what was answered was there, and not too long ago. -/
structure Dated (was : ℕ → String → String → Prop) (delay : ℕ) (s : UserReads) : Prop where
  requests : ∀ r key val since, s.requests r = some (.fetched key val since) → was since key val ∧ since ≤ s.now
  cache : ∀ key ts val, (key,ts,val) ∈ s.cache.rows → ∃ t, was t key val ∧ t ≤ ts ∧ ts ≤ t + delay ∧ ts ≤ s.now
  answers : ∀ at' key val, (at',key,some val) ∈ s.answers → ∃ t, was t key val ∧ t ≤ at' ∧ at' < t + delay + UserCache.ttl

lemma Dated.mono {was was' : ℕ → String → String → Prop} {delay : ℕ} {s : UserReads} (hs : s.Dated was delay)
    (h : ∀ t key val, was t key val → was' t key val) : s.Dated was' delay := by
  refine ⟨?_,?_,?_⟩
  · intro r key val since hr
    obtain ⟨hwas,hle⟩ := hs.requests r key val since hr
    exact ⟨h _ _ _ hwas,hle⟩
  · intro key ts val hrow
    obtain ⟨t,hwas,hle⟩ := hs.cache key ts val hrow
    exact ⟨t,h _ _ _ hwas,hle⟩
  · intro at' key val hmem
    obtain ⟨t,hwas,hle⟩ := hs.answers at' key val hmem
    exact ⟨t,h _ _ _ hwas,hle⟩

lemma Dated.answer {was : ℕ → String → String → Prop} {delay : ℕ} {s : UserReads} (hs : s.Dated was delay) {key : String}
    {val : Option String} (h : ∀ v, val = some v → ∃ t, was t key v ∧ t ≤ s.now ∧ s.now < t + delay + UserCache.ttl) :
    ∀ at' k v, (at',k,some v) ∈ s.answers ++ [(s.now,key,val)] → ∃ t, was t k v ∧ t ≤ at' ∧ at' < t + delay + UserCache.ttl := by
  intro at' k v hmem
  rcases List.mem_append.mp hmem with hold | hnew
  · exact hs.answers at' k v hold
  · obtain ⟨rfl,rfl,hv⟩ := by simpa using hnew
    exact h v hv.symm

lemma Dated.advance {was : ℕ → String → String → Prop} {delay : ℕ} {s : UserReads} (hs : s.Dated was delay) (r : ℕ) {next : Option UserRead}
    (h : ∀ key val since, next = some (.fetched key val since) → was since key val ∧ since ≤ s.now) :
    ∀ r' key val since, Function.update s.requests r next r' = some (.fetched key val since) → was since key val ∧ since ≤ s.now := by
  intro r' key val since hnext
  rw [Function.update_apply] at hnext
  split at hnext
  · exact h key val since hnext
  · exact hs.requests r' key val since hnext

lemma Dated.close {was : ℕ → String → String → Prop} {delay : ℕ} {s : UserReads} (hs : s.Dated was delay) (r : ℕ) {key : String}
    {val : Option String} (h : ∀ v, val = some v → ∃ t, was t key v ∧ t ≤ s.now ∧ s.now < t + delay + UserCache.ttl) :
    Dated was delay { s with requests := Function.update s.requests r none, answers := s.answers ++ [(s.now,key,val)] } :=
  ⟨hs.advance r (fun key val since hnone => absurd hnone (by simp)),hs.cache,hs.answer h⟩

lemma Dated.lookup {was : ℕ → String → String → Prop} {delay : ℕ} {s : UserReads} (hs : s.Dated was delay) (r : ℕ) (key : String) :
    (s.step (.lookup r key)).Dated was delay := by
  simp only [UserReads.step]
  split
  · rename_i val hfree hhit
    refine ⟨hs.requests,hs.cache,hs.answer ?_⟩
    intro v hv
    obtain rfl := Option.some.inj hv
    obtain ⟨ts,hrow,hyoung⟩ := UserCache.get_eq_some hhit
    obtain ⟨t,hwas,ht,hdelay,hts⟩ := hs.cache key ts val hrow
    exact ⟨t,hwas,by omega,by omega⟩
  · exact ⟨hs.advance r (fun k v since h => absurd (Option.some.inj h) (by simp)),hs.cache,hs.answers⟩
  · exact hs

lemma Dated.fetch {was : ℕ → String → String → Prop} {delay : ℕ} {s : UserReads} (hs : s.Dated was delay)
    (hnow : ∀ key val, s.kv key = some val → was s.now key val) (r : ℕ) : (s.step (.fetch r)).Dated was delay := by
  simp only [UserReads.step]
  split
  · rename_i key hmissed
    split
    · rename_i val hval
      have hkv : s.kv key = some val := (Option.filter_eq_some_iff.mp hval).1
      refine ⟨hs.advance r ?_,hs.cache,hs.answers⟩
      intro k v since h
      obtain ⟨rfl,rfl,rfl⟩ := UserRead.fetched.inj (Option.some.inj h)
      exact ⟨hnow _ _ hkv,le_refl _⟩
    · exact hs.close r (fun v hv => absurd hv (by simp))
  · exact hs

lemma Dated.put {was : ℕ → String → String → Prop} {delay : ℕ} {s : UserReads} (hs : s.Dated was delay) {r : ℕ} (hr : s.Prompt delay (.put r)) :
    (s.step (.put r)).Dated was delay := by
  have hpos := UserCache.ttl_pos
  simp only [UserReads.step]
  split
  · rename_i key val since hfetched
    obtain ⟨hwas,hsince⟩ := hs.requests r key val since hfetched
    have hdelay : s.now ≤ since + delay := hr key val since hfetched
    have hcache : Dated was delay { s with cache := s.cache.set key val s.now } := by
      refine ⟨hs.requests,?_,hs.answers⟩
      intro k ts v hrow
      rcases UserCache.mem_set hrow with hnew | hold
      · obtain ⟨rfl,rfl,rfl⟩ := by simpa using hnew
        exact ⟨since,hwas,hsince,hdelay,le_refl _⟩
      · exact hs.cache k ts v hold
    refine hcache.close r ?_
    intro v hv
    obtain rfl := Option.some.inj hv
    exact ⟨since,hwas,hsince,by dsimp only; omega⟩
  · exact hs

lemma Dated.step {was : ℕ → String → String → Prop} {delay : ℕ} {s : UserReads} (hs : s.Dated was delay)
    (hnow : ∀ key val, s.kv key = some val → was s.now key val) {a : Action} (ha : s.Prompt delay a) :
    (s.step a).Dated was delay := by
  cases a with
  | write key val => exact ⟨hs.requests,hs.cache,hs.answers⟩
  | lookup r key => exact hs.lookup r key
  | fetch r => exact hs.fetch hnow r
  | error r =>
    simp only [UserReads.step]
    split
    · exact hs.close r (fun v hv => absurd hv (by simp))
    · exact hs
  | put r => exact hs.put ha
  | peek r =>
    have hpos := UserCache.ttl_pos
    simp only [UserReads.step]
    split
    · rename_i key hmissed
      refine hs.close r ?_
      intro v hv
      exact ⟨s.now,hnow key v hv,le_refl _,by omega⟩
    · exact hs
  | wait d =>
    refine ⟨?_,?_,hs.answers⟩
    · intro r key val since hr
      obtain ⟨hwas,hle⟩ := hs.requests r key val since hr
      exact ⟨hwas,by simp only [UserReads.step]; omega⟩
    · intro key ts val hrow
      obtain ⟨t,hwas,ht,hdelay,hts⟩ := hs.cache key ts val hrow
      exact ⟨t,hwas,ht,hdelay,by simp only [UserReads.step]; omega⟩

/-- Valkey held `val` under `key` at time `t` of a run, or did so before. -/
def Held (s : UserReads) (actions : List Action) (t : ℕ) (key val : String) : Prop :=
  ∃ before, before <+: actions ∧ (s.run before).now = t ∧ (s.run before).kv key = some val

lemma Dated.run {was : ℕ → String → String → Prop} {delay : ℕ} {s : UserReads} (hs : s.Dated was delay) {actions : List Action}
    (h : PromptRun delay s actions) : (s.run actions).Dated (fun t key val => was t key val ∨ s.Held actions t key val) delay := by
  induction actions generalizing s was with
  | nil => exact hs.mono (fun _ _ _ => Or.inl)
  | cons a actions ih =>
    obtain ⟨ha,hrest⟩ := h
    have hseen : s.Dated (fun t key val => was t key val ∨ (s.now = t ∧ s.kv key = some val)) delay := hs.mono (fun _ _ _ => Or.inl)
    refine (ih (hseen.step (fun key val hkv => Or.inr ⟨rfl,hkv⟩) ha) hrest).mono ?_
    rintro t key val ((hbefore | hhere) | ⟨before,hbefore',hheld⟩)
    · exact Or.inl hbefore
    · exact Or.inr ⟨[], List.nil_prefix,hhere⟩
    · exact Or.inr ⟨a :: before, List.cons_prefix_cons.mpr ⟨rfl,hbefore'⟩,hheld⟩

end UserReads
end MatchingEngine

import Mathlib

/-! The per-pair mutex: `acquire_lock`, `release_lock` and `LockGuard`. The key
`book:{pair}:lock` holds the worker id alone and expires after five seconds; the fence token is
taken by a second command. Every command is a step of its own, so tasks interleave between any
two of them, and acquisitions are numbered in the order of their `SET`s. -/
namespace MatchingEngine

/-- `book:{pair}:lock`, with the number of the acquisition that set it. -/
structure LockKey where
  workerId : String
  leftMs : ℕ
  owner : ℕ
  deriving DecidableEq, Repr

/-- What became of one acquisition. Before its `INCR` it has no token, and the caller no guard. -/
structure LockGuard where
  workerId : String
  fenceToken : Option ℤ
  expired : Bool
  released : Bool
  deriving DecidableEq, Repr

/-- The keys of one pair and its acquisitions so far. A missing `book:{pair}:fence` reads as
zero. `stolen` lists the releases by expired guards that deleted a key of another acquisition,
as guard and owner. -/
structure PairLock where
  lock : Option LockKey
  fence : ℤ
  acquired : ℕ
  guard : ℕ → LockGuard
  stolen : List (ℕ × ℕ)

namespace PairLock

/-- `LOCK_TTL_SECS`. -/
def lockTtlMs : ℕ := 5000

def initial (fence : ℤ) : PairLock := ⟨none,fence,0,fun _ => ⟨"",none,false,false⟩,[]⟩

/-- The command of one attempt to acquire: `SET NX EX`. -/
def setNx (s : PairLock) (workerId : String) : PairLock :=
  match s.lock with
  | some _ => s
  | none => { s with lock := some ⟨workerId,lockTtlMs,s.acquired⟩
                     acquired := s.acquired + 1
                     guard := Function.update s.guard s.acquired ⟨workerId,none,false,false⟩ }

/-- `INCR` by an acquisition that has set the key. -/
def incr (s : PairLock) (i : ℕ) : PairLock :=
  if i < s.acquired ∧ (s.guard i).fenceToken = none then
    { s with fence := s.fence + 1
             guard := Function.update s.guard i { s.guard i with fenceToken := some (s.fence + 1) } }
  else s

/-- An `INCR` that fails gives token one. -/
def incrFailed (s : PairLock) (i : ℕ) : PairLock :=
  if i < s.acquired ∧ (s.guard i).fenceToken = none then
    { s with guard := Function.update s.guard i { s.guard i with fenceToken := some 1 } }
  else s

/-- The script of `release_lock`: the value is compared with the worker id, the fence is unused. -/
def releaseLock (s : PairLock) (workerId : String) : PairLock :=
  match s.lock with
  | some k => if k.workerId = workerId then { s with lock := none } else s
  | none => s

/-- The other acquisition whose key a release by guard `i` deleted. -/
def stolenBy (i : ℕ) (before after : Option LockKey) : List (ℕ × ℕ) :=
  match before, after with
  | some k, none => if k.owner = i then [] else [(i,k.owner)]
  | _, _ => []

/-- The caller has the guard and has not released it yet. -/
def Held (s : PairLock) (i : ℕ) : Prop := (s.guard i).fenceToken.isSome ∧ (s.guard i).released = false

instance (s : PairLock) (i : ℕ) : Decidable (s.Held i) := inferInstanceAs (Decidable (_ ∧ _))

/-- `LockGuard::release`, or the task spawned by `drop`; a guard does it once. -/
def release (s : PairLock) (i : ℕ) : PairLock :=
  if s.Held i then
    let t := s.releaseLock (s.guard i).workerId
    { t with guard := Function.update s.guard i { s.guard i with released := true }
             stolen := s.stolen ++ if (s.guard i).expired then stolenBy i s.lock t.lock else [] }
  else s

/-- Time passes, and the key expires when its time has run out. -/
def wait (s : PairLock) (ms : ℕ) : PairLock :=
  match s.lock with
  | some k =>
    if ms < k.leftMs then { s with lock := some { k with leftMs := k.leftMs - ms } }
    else { s with lock := none, guard := Function.update s.guard k.owner { s.guard k.owner with expired := true } }
  | none => s

inductive Action
  | setNx (workerId : String)
  | incr (i : ℕ)
  | incrFailed (i : ℕ)
  | release (i : ℕ)
  | releaseLock (workerId : String)
  | wait (ms : ℕ)

def act (s : PairLock) : Action → PairLock
  | .setNx workerId => s.setNx workerId
  | .incr i => s.incr i
  | .incrFailed i => s.incrFailed i
  | .release i => s.release i
  | .releaseLock workerId => s.releaseLock workerId
  | .wait ms => s.wait ms

/-- The states reached by actions that `Admit` accepts, from any fence counter. -/
def ReachedBy (Admit : PairLock → Action → Prop) (s : PairLock) : Prop :=
  ∃ fence, Relation.ReflTransGen (fun s t => ∃ x, Admit s x ∧ t = s.act x) (initial fence) s

lemma ReachedBy.induct {Admit : PairLock → Action → Prop} {P : PairLock → Prop} {s : PairLock} (h : ReachedBy Admit s)
    (h₀ : ∀ fence, P (initial fence)) (hstep : ∀ s x, Admit s x → P s → P (s.act x)) : P s := by
  obtain ⟨fence,hrun⟩ := h
  induction hrun with
  | refl => exact h₀ fence
  | tail _ hx ih =>
    obtain ⟨x,hx,rfl⟩ := hx
    exact hstep _ x hx ih

lemma ReachedBy.act {Admit : PairLock → Action → Prop} {s : PairLock} (h : ReachedBy Admit s) {x : Action}
    (hx : Admit s x) : ReachedBy Admit (s.act x) := by
  obtain ⟨fence,hrun⟩ := h
  exact ⟨fence,hrun.tail ⟨x,hx,rfl⟩⟩

lemma ReachedBy.mono {Admit Admit' : PairLock → Action → Prop} {s : PairLock} (h : ReachedBy Admit s)
    (hle : ∀ s x, Admit s x → Admit' s x) : ReachedBy Admit' s :=
  h.induct (fun fence => ⟨fence,.refl⟩) (fun s x hx hs => hs.act (hle s x hx))

/-! ### One action -/

/-- The key belongs to the latest acquisition, and only acquisitions have tokens. -/
structure Wf (s : PairLock) : Prop where
  owner : ∀ k ∈ s.lock, k.owner + 1 = s.acquired
  absent : ∀ i, s.acquired ≤ i → (s.guard i).fenceToken = none

section Fields
variable (s : PairLock) (i j : ℕ) (w : String) (ms : ℕ)

@[simp] lemma incr_stolen : (s.incr i).stolen = s.stolen := by
  unfold incr
  split_ifs <;> rfl

@[simp] lemma incrFailed_stolen : (s.incrFailed i).stolen = s.stolen := by
  unfold incrFailed
  split_ifs <;> rfl

@[simp] lemma releaseLock_lock : (s.releaseLock w).lock = s.lock.filter (fun k => k.workerId ≠ w) := by
  unfold releaseLock
  cases hl : s.lock with
  | none => simp [hl]
  | some k => by_cases hw : k.workerId = w <;> simp [hl, hw, Option.filter]

@[simp] lemma releaseLock_rest : (s.releaseLock w).fence = s.fence ∧ (s.releaseLock w).acquired = s.acquired ∧
    (s.releaseLock w).guard = s.guard ∧ (s.releaseLock w).stolen = s.stolen := by
  unfold releaseLock
  split
  · split_ifs <;> exact ⟨rfl,rfl,rfl,rfl⟩
  · exact ⟨rfl,rfl,rfl,rfl⟩

lemma incr_token : ((s.incr i).guard j).fenceToken =
    if j = i ∧ i < s.acquired ∧ (s.guard i).fenceToken = none then some (s.fence + 1) else (s.guard j).fenceToken := by
  unfold incr
  by_cases h : i < s.acquired ∧ (s.guard i).fenceToken = none
  · by_cases hj : j = i
    · subst hj
      simp [h]
    · simp [h, hj]
  · simp [h]

@[simp] lemma release_token : ((s.release i).guard j).fenceToken = (s.guard j).fenceToken := by
  unfold release
  by_cases h : s.Held i
  · rw [if_pos h]
    by_cases hj : j = i
    · subst hj
      simp
    · simp [hj]
  · rw [if_neg h]

@[simp] lemma wait_token : ((s.wait ms).guard j).fenceToken = (s.guard j).fenceToken := by
  unfold wait
  split
  · next k hk =>
    split_ifs
    · rfl
    · by_cases hj : j = k.owner
      · subst hj
        simp
      · simp [hj]
  · rfl

@[simp] lemma release_rest : (s.release i).fence = s.fence ∧ (s.release i).acquired = s.acquired := by
  unfold release
  by_cases h : s.Held i
  · rw [if_pos h]
    exact ⟨(releaseLock_rest s _).1,(releaseLock_rest s _).2.1⟩
  · rw [if_neg h]
    exact ⟨rfl,rfl⟩

@[simp] lemma wait_rest : (s.wait ms).fence = s.fence ∧ (s.wait ms).acquired = s.acquired ∧
    (s.wait ms).stolen = s.stolen := by
  unfold wait
  split
  · split_ifs <;> exact ⟨rfl,rfl,rfl⟩
  · exact ⟨rfl,rfl,rfl⟩

lemma release_lock_mem {k : LockKey} (h : k ∈ (s.release i).lock) : k ∈ s.lock := by
  unfold release at h
  by_cases hg : s.Held i
  · rw [if_pos hg] at h
    simp only [releaseLock_lock, Option.mem_def, Option.filter_eq_some_iff] at h
    exact h.1
  · rw [if_neg hg] at h
    exact h

lemma wait_lock_mem {k : LockKey} (h : k ∈ (s.wait ms).lock) : ∃ k' ∈ s.lock, k'.workerId = k.workerId ∧ k'.owner = k.owner := by
  unfold wait at h
  split at h
  · next k' hk =>
    split_ifs at h
    · cases h
      exact ⟨k',hk,rfl,rfl⟩
    · cases h
  · next hk =>
    rw [hk] at h
    cases h

end Fields

/-- What an action that acquires nothing leaves as it is. -/
structure Keeps (s t : PairLock) : Prop where
  acquired : t.acquired = s.acquired
  lock : ∀ k ∈ t.lock, ∃ k' ∈ s.lock, k'.workerId = k.workerId ∧ k'.owner = k.owner
  guard : ∀ i, (t.guard i).workerId = (s.guard i).workerId ∧ ((t.guard i).released = false → (s.guard i).released = false) ∧
    (s.acquired ≤ i → (t.guard i).fenceToken = (s.guard i).fenceToken)

section Keeps
variable {s t : PairLock}

lemma Keeps.refl (s : PairLock) : Keeps s s := ⟨rfl,fun k hk => ⟨k,hk,rfl,rfl⟩,fun _ => ⟨rfl,id,fun _ => rfl⟩⟩

lemma Keeps.of_update {i : ℕ} {g : LockGuard} (hacq : t.acquired = s.acquired)
    (hlock : ∀ k ∈ t.lock, ∃ k' ∈ s.lock, k'.workerId = k.workerId ∧ k'.owner = k.owner)
    (hguard : t.guard = Function.update s.guard i g) (hw : g.workerId = (s.guard i).workerId)
    (hr : g.released = false → (s.guard i).released = false)
    (ht : s.acquired ≤ i → g.fenceToken = (s.guard i).fenceToken) : Keeps s t := by
  refine ⟨hacq,hlock,fun j => ?_⟩
  rw [hguard]
  by_cases hj : j = i
  · subst hj
    simpa using ⟨hw,hr,ht⟩
  · simp [hj]

lemma act_cases (s : PairLock) (x : Action) : (∃ w, x = .setNx w ∧ s.lock = none) ∨ Keeps s (s.act x) := by
  have hsame : ∀ k ∈ s.lock, ∃ k' ∈ s.lock, k'.workerId = k.workerId ∧ k'.owner = k.owner := fun k hk => ⟨k,hk,rfl,rfl⟩
  cases x with
  | setNx w =>
    cases hl : s.lock with
    | none => exact .inl ⟨w,rfl,rfl⟩
    | some k =>
      have hstay : s.act (.setNx w) = s := by simp [act, setNx, hl]
      rw [hstay]
      exact .inr (Keeps.refl s)
  | incr i =>
    right
    by_cases h : i < s.acquired ∧ (s.guard i).fenceToken = none
    · rw [act, incr, if_pos h]
      exact Keeps.of_update rfl hsame rfl rfl id (fun hi => absurd h.1 (not_lt.mpr hi))
    · rw [act, incr, if_neg h]
      exact Keeps.refl s
  | incrFailed i =>
    right
    by_cases h : i < s.acquired ∧ (s.guard i).fenceToken = none
    · rw [act, incrFailed, if_pos h]
      exact Keeps.of_update rfl hsame rfl rfl id (fun hi => absurd h.1 (not_lt.mpr hi))
    · rw [act, incrFailed, if_neg h]
      exact Keeps.refl s
  | release i =>
    right
    have hlock : ∀ k ∈ (s.release i).lock, ∃ k' ∈ s.lock, k'.workerId = k.workerId ∧ k'.owner = k.owner :=
      fun k hk => ⟨k,release_lock_mem s i hk,rfl,rfl⟩
    by_cases h : s.Held i
    · have hguard : (s.release i).guard = Function.update s.guard i { s.guard i with released := true } := by
        rw [release, if_pos h]
      exact Keeps.of_update (release_rest s i).2 hlock hguard rfl (fun _ => h.2) (fun _ => rfl)
    · rw [act, release, if_neg h]
      exact Keeps.refl s
  | releaseLock w =>
    refine .inr ⟨(releaseLock_rest s w).2.1,fun k hk => ⟨k,?_,rfl,rfl⟩,fun i => ?_⟩
    · simp only [act, releaseLock_lock, Option.mem_def, Option.filter_eq_some_iff] at hk
      exact hk.1
    · rw [act, (releaseLock_rest s w).2.2.1]
      exact ⟨rfl,id,fun _ => rfl⟩
  | wait ms =>
    right
    have hlock : ∀ k ∈ (s.wait ms).lock, ∃ k' ∈ s.lock, k'.workerId = k.workerId ∧ k'.owner = k.owner :=
      fun k hk => wait_lock_mem s ms hk
    cases hl : s.lock with
    | none =>
      have hstay : s.wait ms = s := by simp [wait, hl]
      rw [act, hstay]
      exact Keeps.refl s
    | some k =>
      by_cases hms : ms < k.leftMs
      · refine ⟨(wait_rest s ms).2.1,hlock,fun i => ?_⟩
        simp [act, wait, hl, hms]
      · have hguard : (s.wait ms).guard = Function.update s.guard k.owner { s.guard k.owner with expired := true } := by
          simp [wait, hl, hms]
        exact Keeps.of_update (wait_rest s ms).2.1 hlock hguard rfl id (fun _ => rfl)

end Keeps

namespace Wf
variable {s : PairLock} (hs : s.Wf)
include hs

lemma setNx_token (w : String) (j : ℕ) : ((s.setNx w).guard j).fenceToken = (s.guard j).fenceToken := by
  unfold setNx
  split
  · rfl
  · by_cases hj : j = s.acquired
    · subst hj
      simp [hs.absent s.acquired le_rfl]
    · simp [hj]

lemma act (x : Action) : (s.act x).Wf := by
  rcases act_cases s x with ⟨w,rfl,hl⟩ | h
  · constructor
    · intro k hk
      simp only [PairLock.act, setNx, hl] at hk ⊢
      cases hk
      rfl
    · intro i hi
      rw [PairLock.act, hs.setNx_token]
      refine hs.absent i (le_trans ?_ hi)
      simp [PairLock.act, setNx, hl]
  · constructor
    · intro k hk
      obtain ⟨k',hk',_,he⟩ := h.lock k hk
      rw [h.acquired, ← he]
      exact hs.owner k' hk'
    · intro i hi
      rw [h.acquired] at hi
      rw [(h.guard i).2.2 hi]
      exact hs.absent i hi

end Wf

lemma ReachedBy.wf {Admit : PairLock → Action → Prop} {s : PairLock} (h : ReachedBy Admit s) : s.Wf :=
  h.induct (fun _ => ⟨by simp [initial],fun _ _ => rfl⟩) (fun _ x _ hs => hs.act x)

/-! ### Releases by expired guards -/

/-- Where an expired guard is released, the key does not carry its worker id on behalf of
another acquisition. -/
def Unshared (s : PairLock) : Action → Prop
  | .release i => (s.guard i).expired = true → ∀ k ∈ s.lock, k.workerId = (s.guard i).workerId → k.owner = i
  | _ => True

lemma release_of_not_held {s : PairLock} {i : ℕ} (h : ¬ s.Held i) : s.release i = s := if_neg h

lemma release_stolen {s : PairLock} {i : ℕ} (h : s.Held i) : (s.release i).stolen = s.stolen ++
    if (s.guard i).expired then stolenBy i s.lock (s.lock.filter (fun k => k.workerId ≠ (s.guard i).workerId)) else [] := by
  unfold release
  rw [if_pos h, ← releaseLock_lock]

/-- Keys are taken from other acquisitions under the same worker id, and only so. -/
lemma mem_stolenBy {i : ℕ} {w : String} {lock : Option LockKey} {e : ℕ × ℕ} :
    e ∈ stolenBy i lock (lock.filter (fun k => k.workerId ≠ w)) ↔ ∃ k ∈ lock, k.workerId = w ∧ k.owner ≠ i ∧ e = (i,k.owner) := by
  cases lock with
  | none => simp [stolenBy]
  | some k =>
    by_cases hw : k.workerId = w
    · by_cases ho : k.owner = i <;> simp [stolenBy, Option.filter, hw, ho]
    · simp [stolenBy, Option.filter, hw]

lemma act_stolen {s : PairLock} {x : Action} (hx : ∀ i, x = .release i → ¬ s.Held i) : (s.act x).stolen = s.stolen := by
  cases x with
  | setNx w =>
    simp only [act, setNx]
    split <;> rfl
  | incr i => exact incr_stolen s i
  | incrFailed i => exact incrFailed_stolen s i
  | release i => rw [act, release_of_not_held (hx i rfl)]
  | releaseLock w => exact (releaseLock_rest s w).2.2.2
  | wait ms => exact (wait_rest s ms).2.2

lemma Wf.lt_acquired {s : PairLock} (hs : s.Wf) {i : ℕ} (hi : (s.guard i).fenceToken.isSome) : i < s.acquired := by
  by_contra hge
  rw [hs.absent i (not_lt.mp hge)] at hi
  cases hi

lemma Wf.lt_owner {s : PairLock} (hs : s.Wf) {i : ℕ} (hi : s.Held i) {k : LockKey} (hk : k ∈ s.lock) (hne : k.owner ≠ i) :
    i < k.owner := by
  have hlt := hs.lt_acquired hi.1
  have howner := hs.owner k hk
  omega

lemma ReachedBy.act_unshared {s : PairLock} (hs : ReachedBy Unshared s) {x : Action}
    (h : ∀ i, x = .release i → s.Held i → Unshared s x) : ReachedBy Unshared (s.act x) := by
  cases x with
  | release i =>
    by_cases hi : s.Held i
    · exact hs.act (h i rfl hi)
    · rw [PairLock.act, release_of_not_held hi]
      exact hs
  | setNx w => exact hs.act trivial
  | incr i => exact hs.act trivial
  | incrFailed i => exact hs.act trivial
  | releaseLock w => exact hs.act trivial
  | wait ms => exact hs.act trivial

/-- A run takes no key from a later acquisition exactly when no expired guard is released while
the key carries its worker id on behalf of another acquisition. -/
theorem no_stolen_lock_iff {s : PairLock} :
    ReachedBy Unshared s ↔ ReachedBy (fun _ _ => True) s ∧ ∀ e ∈ s.stolen, ¬ e.1 < e.2 := by
  constructor
  · intro h
    refine ⟨h.mono (fun _ _ _ => trivial),?_⟩
    have hnil : s.stolen = [] := by
      refine h.induct (P := fun s => s.stolen = []) (fun _ => rfl) (fun s x hx hs => ?_)
      by_cases hrel : ∃ i, x = .release i ∧ s.Held i
      · obtain ⟨i,rfl,hi⟩ := hrel
        rw [act, release_stolen hi, hs, List.nil_append]
        split_ifs with hexp
        · refine List.eq_nil_iff_forall_not_mem.mpr (fun e he => ?_)
          obtain ⟨k,hk,hw,hne,_⟩ := mem_stolenBy.mp he
          exact hne (hx hexp k hk hw)
        · rfl
      · rw [act_stolen (fun i hi hheld => hrel ⟨i,hi,hheld⟩), hs]
    rw [hnil]
    simp
  · rintro ⟨h,hlater⟩
    -- a step that breaks the condition records a later acquisition for good
    revert hlater
    refine h.induct (P := fun s => (∀ e ∈ s.stolen, ¬ e.1 < e.2) → ReachedBy Unshared s) (fun fence _ => ⟨fence,.refl⟩)
      (fun s x _ ih hlater => ?_)
    by_cases hrel : ∃ i, x = .release i ∧ s.Held i
    · obtain ⟨i,rfl,hi⟩ := hrel
      rw [act, release_stolen hi] at hlater
      have hs := ih (fun e he => hlater e (List.mem_append_left _ he))
      refine hs.act (fun hexp k hk hw => ?_)
      by_contra hne
      refine hlater (i,k.owner) (List.mem_append_right _ ?_) (hs.wf.lt_owner hi hk hne)
      rw [if_pos hexp]
      exact mem_stolenBy.mpr ⟨k,hk,hw,hne,rfl⟩
    · have hnot : ∀ i, x = .release i → ¬ s.Held i := fun i hi hheld => hrel ⟨i,hi,hheld⟩
      rw [act_stolen hnot] at hlater
      exact (ih hlater).act_unshared (fun i hi hheld => absurd hheld (hnot i hi))

/-- A worker id is taken again only after its earlier guards have been released. -/
def FreshIds (s : PairLock) : Action → Prop
  | .setNx w => ∀ i < s.acquired, (s.guard i).released = false → (s.guard i).workerId ≠ w
  | _ => True

/-- The key carries the worker id of no other acquisition that may still release it. -/
def OwnIds (s : PairLock) : Prop :=
  ∀ i < s.acquired, (s.guard i).released = false → ∀ k ∈ s.lock, k.workerId = (s.guard i).workerId → k.owner = i

lemma OwnIds.act {s : PairLock} (hs : s.OwnIds) {x : Action} (hx : FreshIds s x) : (s.act x).OwnIds := by
  intro i hi hrel k hk hw
  rcases act_cases s x with ⟨w,rfl,hl⟩ | h
  · simp only [PairLock.act, setNx, hl] at hi hrel hk hw ⊢
    cases hk
    by_contra hne
    have hi' : i ≠ s.acquired := fun he => hne he.symm
    simp only [Function.update_of_ne hi'] at hrel hw
    exact hx i (by omega) hrel hw.symm
  · obtain ⟨hworker,hreleased,_⟩ := h.guard i
    obtain ⟨k',hk',hw',ho'⟩ := h.lock k hk
    rw [← ho']
    refine hs i (h.acquired ▸ hi) (hreleased hrel) k' hk' ?_
    rw [hw', hw, hworker]

/-- With fresh worker ids no expired guard ever meets its own id on a later key. -/
theorem ReachedBy.unshared {s : PairLock} (h : ReachedBy FreshIds s) : ReachedBy Unshared s := by
  have hinv : s.OwnIds ∧ ReachedBy Unshared s := by
    refine h.induct (P := fun s => s.OwnIds ∧ ReachedBy Unshared s) (fun fence => ⟨by simp [OwnIds, initial],fence,.refl⟩)
      (fun s x hx ⟨hown,hs⟩ => ⟨hown.act hx,?_⟩)
    refine hs.act_unshared (fun i hi hheld => ?_)
    subst hi
    exact fun _ k hk hw => hown i (hs.wf.lt_acquired hheld.1) hheld.2 k hk hw
  exact hinv.2

/-- A worker acquires, lets the key expire and acquires again. -/
def reacquired : PairLock :=
  ((((initial 0).act (.setNx "worker")).act (.incr 0)).act (.wait 5000)).act (.setNx "worker")

/-- Releasing its first guard then deletes the key of its second acquisition, which has just
been set. -/
theorem expired_guard_deletes_later_lock : ReachedBy (fun _ _ => True) (reacquired.act (.release 0)) ∧
    reacquired.lock = some ⟨"worker",5000,1⟩ ∧ (reacquired.guard 0).expired = true ∧
    (reacquired.act (.release 0)).lock = none ∧ (0,1) ∈ (reacquired.act (.release 0)).stolen := by
  have hrun : ReachedBy (fun _ _ => True) reacquired :=
    ReachedBy.act (ReachedBy.act (ReachedBy.act (ReachedBy.act ⟨0,.refl⟩ trivial) trivial) trivial) trivial
  exact ⟨hrun.act trivial,by decide +kernel,by decide +kernel,by decide +kernel,by decide +kernel⟩

/-! ### Fence tokens -/

/-- No `INCR` fails. -/
def Action.Succeeds : Action → Prop
  | .incrFailed _ => False
  | _ => True

/-- An acquisition takes its token before its own key has expired, and no release takes away a key whose
acquisition has yet to take it. -/
def Timely (s : PairLock) : Action → Prop
  | .incr i => (s.guard i).expired = false
  | .incrFailed _ => False
  | .release i => s.Held i → ∀ k ∈ s.lock, k.workerId = (s.guard i).workerId → (s.guard k.owner).fenceToken ≠ none
  | .releaseLock w => ∀ k ∈ s.lock, k.workerId = w → (s.guard k.owner).fenceToken ≠ none
  | _ => True

/-- Later acquisitions have larger tokens. -/
def Increasing (s : PairLock) : Prop := ∀ i j t u, i < j → (s.guard i).fenceToken = some t →
  (s.guard j).fenceToken = some u → t < u

/-- Tokens follow the order of the `SET`s, and the holder's is the largest handed out. -/
structure TokensOrdered (s : PairLock) : Prop where
  increasing : s.Increasing
  holder : ∀ k ∈ s.lock, ∀ u, (s.guard k.owner).fenceToken = some u → ∀ i t, (s.guard i).fenceToken = some t → t ≤ u

lemma incr_fence (s : PairLock) (i : ℕ) : (s.incr i).fence =
    if i < s.acquired ∧ (s.guard i).fenceToken = none then s.fence + 1 else s.fence := by
  unfold incr
  split_ifs <;> rfl

section Tokens
variable {s : PairLock} (hs : s.Wf)
include hs

lemma Wf.act_token {x : Action} (hx : x.Succeeds) (j : ℕ) :
    ((s.act x).guard j).fenceToken = (s.guard j).fenceToken ∨
    x = .incr j ∧ (s.guard j).fenceToken = none ∧ ((s.act x).guard j).fenceToken = some (s.fence + 1) ∧
      (s.act x).fence = s.fence + 1 := by
  cases x with
  | setNx w => exact .inl (hs.setNx_token w j)
  | incr i =>
    simp only [PairLock.act, incr_token, incr_fence]
    by_cases h : j = i ∧ i < s.acquired ∧ (s.guard i).fenceToken = none
    · obtain ⟨rfl,h⟩ := h
      simp [h]
    · rw [if_neg h]
      exact .inl rfl
  | incrFailed i => exact hx.elim
  | release i => exact .inl (release_token s i j)
  | releaseLock w => exact .inl (by simp [PairLock.act])
  | wait ms => exact .inl (wait_token s j ms)

omit hs in
lemma act_fence (s : PairLock) (x : Action) : s.fence ≤ (s.act x).fence := by
  cases x with
  | setNx w =>
    simp only [act, setNx]
    split <;> exact le_rfl
  | incr i =>
    rw [act, incr_fence]
    split_ifs <;> omega
  | incrFailed i =>
    simp only [act, incrFailed]
    split_ifs <;> exact le_rfl
  | release i => exact (release_rest s i).1.ge
  | releaseLock w => exact (releaseLock_rest s w).1.ge
  | wait ms => exact (wait_rest s ms).1.ge

end Tokens

lemma ReachedBy.token_le {s : PairLock} (h : ReachedBy (fun _ x => x.Succeeds) s) :
    ∀ i t, (s.guard i).fenceToken = some t → t ≤ s.fence := by
  have hinv : s.Wf ∧ ∀ i t, (s.guard i).fenceToken = some t → t ≤ s.fence := by
    refine h.induct (P := fun s => s.Wf ∧ ∀ i t, (s.guard i).fenceToken = some t → t ≤ s.fence)
      (fun _ => ⟨⟨by simp [initial],fun _ _ => rfl⟩,by simp [initial]⟩) (fun s x hx ⟨hs,hle⟩ => ⟨hs.act x,?_⟩)
    intro i t ht
    rcases hs.act_token hx i with he | ⟨_,_,hnew,hfence⟩
    · rw [he] at ht
      exact (hle i t ht).trans (act_fence s x)
    · rw [hnew] at ht
      cases ht
      exact hfence.ge
  exact hinv.2

lemma Wf.tokensOrdered {s : PairLock} (hs : s.Wf) (h : s.Increasing) : s.TokensOrdered := by
  refine ⟨h,fun k hk u hu i t ht => ?_⟩
  have howner := hs.owner k hk
  have hlt : i < s.acquired := hs.lt_acquired (by simp [ht])
  rcases Nat.lt_or_ge i k.owner with hi | hi
  · exact (h i k.owner t u hi ht hu).le
  · obtain rfl : i = k.owner := by omega
    rw [hu] at ht
    cases ht
    exact le_rfl

lemma Timely.succeeds {s : PairLock} {x : Action} (h : Timely s x) : x.Succeeds := by
  cases x <;> trivial

/-- An acquisition without a token whose key has not expired still has its key. -/
def Waits (s : PairLock) : Prop :=
  ∀ i < s.acquired, (s.guard i).fenceToken = none → (s.guard i).expired = false → ∃ k ∈ s.lock, k.owner = i

section Waits
variable {s : PairLock}

lemma exists_key_of_release {lock : Option LockKey} {w : String} {i : ℕ} (hkey : ∃ k ∈ lock, k.owner = i)
    (hkeep : ∀ k ∈ lock, k.workerId = w → k.owner ≠ i) : ∃ k ∈ lock.filter (fun k => k.workerId ≠ w), k.owner = i := by
  obtain ⟨k,hk,rfl⟩ := hkey
  have hw : k.workerId ≠ w := fun hw => hkeep k hk hw rfl
  exact ⟨k,by simp [Option.mem_def.mp hk, Option.filter, hw],rfl⟩

lemma Waits.setNx (h : s.Waits) (w : String) : (s.setNx w).Waits := by
  unfold PairLock.setNx
  split
  · exact h
  · next hl =>
    intro i hi hnone hexp
    by_cases hself : i = s.acquired
    · exact ⟨_,rfl,hself.symm⟩
    · simp only [Function.update_of_ne hself] at hnone hexp
      obtain ⟨k,hk,_⟩ := h i (by dsimp only at hi; omega) hnone hexp
      rw [hl] at hk
      cases hk

lemma Waits.incr (h : s.Waits) (j : ℕ) : (s.incr j).Waits := by
  unfold PairLock.incr
  split_ifs with hj
  · intro i hi hnone hexp
    by_cases hself : i = j
    · subst hself
      simp at hnone
    · simp only [Function.update_of_ne hself] at hnone hexp
      exact h i hi hnone hexp
  · exact h

lemma Waits.release (h : s.Waits) {j : ℕ} (hx : Timely s (.release j)) : (s.release j).Waits := by
  intro i hi hnone hexp
  rw [release_token] at hnone
  rw [(release_rest s j).2] at hi
  by_cases hj : s.Held j
  · have hexp' : (s.guard i).expired = false := by
      rw [PairLock.release, if_pos hj] at hexp
      by_cases hself : i = j
      · subst hself
        simpa using hexp
      · simpa [Function.update_of_ne hself] using hexp
    have hlock : (s.release j).lock = s.lock.filter (fun k => k.workerId ≠ (s.guard j).workerId) := by
      rw [PairLock.release, if_pos hj]
      exact releaseLock_lock s _
    rw [hlock]
    refine exists_key_of_release (h i hi hnone hexp') (fun k hk hw hown => hx hj k hk hw ?_)
    rw [hown]
    exact hnone
  · rw [release_of_not_held hj] at hexp ⊢
    exact h i hi hnone hexp

lemma Waits.releaseLock (h : s.Waits) {w : String} (hx : Timely s (.releaseLock w)) : (s.releaseLock w).Waits := by
  obtain ⟨_,hacquired,hguard,_⟩ := releaseLock_rest s w
  intro i hi hnone hexp
  rw [hacquired] at hi
  rw [hguard] at hnone hexp
  rw [releaseLock_lock]
  refine exists_key_of_release (h i hi hnone hexp) (fun k hk hw hown => hx k hk hw ?_)
  rw [hown]
  exact hnone

lemma Waits.wait (h : s.Waits) (ms : ℕ) : (s.wait ms).Waits := by
  unfold PairLock.wait
  split
  · next k hk =>
    split_ifs
    · intro i hi hnone hexp
      obtain ⟨k',hk',rfl⟩ := h i hi hnone hexp
      rw [hk] at hk'
      cases hk'
      exact ⟨_,rfl,rfl⟩
    · intro i hi hnone hexp
      by_cases hself : i = k.owner
      · subst hself
        simp at hexp
      · simp only [Function.update_of_ne hself] at hnone hexp
        obtain ⟨k',hk',rfl⟩ := h i hi hnone hexp
        rw [hk] at hk'
        cases hk'
        exact absurd rfl hself
  · exact h

lemma Waits.act (h : s.Waits) {x : Action} (hx : Timely s x) : (s.act x).Waits := by
  cases x with
  | setNx w => exact h.setNx w
  | incr i => exact h.incr i
  | incrFailed i => exact hx.elim
  | release i => exact h.release hx
  | releaseLock w => exact h.releaseLock hx
  | wait ms => exact h.wait ms

end Waits

/-- One step keeps later tokens larger: an acquisition that takes its token still has its key, which no
other one can have set since. -/
lemma Increasing.act {s : PairLock} (h : s.Increasing) (hs : s.Wf) (hle : ∀ i t, (s.guard i).fenceToken = some t → t ≤ s.fence)
    (hwaits : s.Waits) {x : Action} (hx : Timely s x) : (s.act x).Increasing := by
  intro i j t u hij ht hu
  rcases hs.act_token hx.succeeds j with hj | ⟨rfl,_,hnew,_⟩
  · rcases hs.act_token hx.succeeds i with hi | ⟨rfl,hnone,hnew,_⟩
    · rw [hi] at ht
      rw [hj] at hu
      exact h i j t u hij ht hu
    · -- the key is still that of `i`, so that there is no acquisition `j` yet
      rw [hj] at hu
      have hi : i < s.acquired := hij.trans (hs.lt_acquired (by simp [hu]))
      obtain ⟨k,hk,rfl⟩ := hwaits i hi hnone hx
      have howner := hs.owner k hk
      rw [hs.absent j (by omega)] at hu
      cases hu
  · rcases hs.act_token hx.succeeds i with hi | ⟨he,_⟩
    · rw [hi] at ht
      rw [hnew] at hu
      cases hu
      have := hle i t ht
      omega
    · cases he
      exact absurd hij (lt_irrefl _)

/-- When every acquisition takes its token before its own key has expired, tokens follow the order of the
`SET`s, and the holder's is the largest. -/
theorem timely_tokens_ordered {s : PairLock} (h : ReachedBy Timely s) : s.TokensOrdered := by
  have hinv : ReachedBy (fun _ x => x.Succeeds) s ∧ s.Waits ∧ s.Increasing := by
    refine h.induct (P := fun s => ReachedBy (fun _ x => x.Succeeds) s ∧ s.Waits ∧ s.Increasing)
      (fun fence => ⟨⟨fence,.refl⟩,by simp [Waits, initial],by simp [Increasing, initial]⟩) (fun s x hx ⟨hs,hwaits,hinc⟩ => ?_)
    exact ⟨hs.act hx.succeeds,hwaits.act hx,hinc.act hs.wf hs.token_le hwaits hx⟩
  exact h.wf.tokensOrdered hinv.2.2

/-- One task after the other: the second waits for the key of the first to expire. -/
def oneAfterAnother : PairLock :=
  (((((initial 0).act (.setNx "a")).act (.incr 0)).act (.wait 5000)).act (.setNx "b")).act (.incr 1)

theorem later_acquisition_has_larger_token : (oneAfterAnother.guard 0).fenceToken = some 1 ∧
    (oneAfterAnother.guard 1).fenceToken = some 2 ∧ oneAfterAnother.TokensOrdered := by
  have hrun : ReachedBy Timely oneAfterAnother := by
    refine ReachedBy.act (ReachedBy.act (ReachedBy.act (ReachedBy.act (ReachedBy.act ⟨0,.refl⟩ trivial) ?_) trivial) trivial) ?_
    · rfl
    · rfl
  exact ⟨by decide +kernel,by decide +kernel,timely_tokens_ordered hrun⟩

/-- Between `SET` and `INCR` of one task, its key expires and another task does both. -/
def overtaken : PairLock :=
  (((((initial 0).act (.setNx "a")).act (.wait 5000)).act (.setNx "b")).act (.incr 1)).act (.incr 0)

/-- The stale acquisition has the larger token while the other one holds the key. -/
theorem stale_acquisition_has_larger_token : ReachedBy (fun _ x => x.Succeeds) overtaken ∧
    overtaken.lock = some ⟨"b",5000,1⟩ ∧ (overtaken.guard 0).fenceToken = some 2 ∧ (overtaken.guard 1).fenceToken = some 1 ∧
    ¬ overtaken.TokensOrdered := by
  have hrun : ReachedBy (fun _ x => x.Succeeds) overtaken := ReachedBy.act (ReachedBy.act (ReachedBy.act (ReachedBy.act
    (ReachedBy.act ⟨0,.refl⟩ trivial) trivial) trivial) trivial) trivial
  have h₀ : (overtaken.guard 0).fenceToken = some 2 := by decide +kernel
  have h₁ : (overtaken.guard 1).fenceToken = some 1 := by decide +kernel
  refine ⟨hrun,by decide +kernel,h₀,h₁,fun h => ?_⟩
  exact absurd (h.increasing 0 1 2 1 (by decide) h₀ h₁) (by decide)

end PairLock

end MatchingEngine

import Mathlib

/-! Sets stored under keys that can expire. The key exists as long as the set has members;
adding a member keeps the time left, and removing the last one deletes the key. -/
namespace MatchingEngine.Library

/-- A set with the time left on its key, if it has an expiry. -/
structure ExpiringSet (α : Type*) where
  members : List α
  ttl : Option ℕ
  nodup : members.Nodup
  absent : members = [] → ttl = none

namespace ExpiringSet
variable {α : Type*}

def empty : ExpiringSet α := ⟨[],none,List.nodup_nil,fun _ => rfl⟩

instance : Membership α (ExpiringSet α) := ⟨fun s x => x ∈ s.members⟩

@[simp] lemma notMem_empty (x : α) : x ∉ (empty : ExpiringSet α) := List.not_mem_nil

/-- `EXPIRE`, in milliseconds; nothing happens to a missing key. -/
def expire (s : ExpiringSet α) (ms : ℕ) : ExpiringSet α :=
  if h : s.members = [] then s else ⟨s.members,some ms,s.nodup,fun he => absurd he h⟩

/-- Time passes. -/
def pass (s : ExpiringSet α) (ms : ℕ) : ExpiringSet α :=
  match h : s.ttl with
  | none => s
  | some t => if ms < t then ⟨s.members,some (t - ms),s.nodup,fun he => by rw [s.absent he] at h; cases h⟩ else empty

@[simp] lemma mem_expire {s : ExpiringSet α} {ms : ℕ} {x : α} : x ∈ s.expire ms ↔ x ∈ s := by
  unfold expire
  split_ifs <;> rfl

lemma mem_of_mem_pass {s : ExpiringSet α} {ms : ℕ} {x : α} (h : x ∈ s.pass ms) : x ∈ s := by
  unfold pass at h
  split at h
  · exact h
  · split_ifs at h
    · exact h
    · exact absurd h (notMem_empty x)

/-- Before the time is up the members stay. -/
lemma mem_pass {s : ExpiringSet α} {ms : ℕ} (h : ∀ t ∈ s.ttl, ms < t) {x : α} : x ∈ s.pass ms ↔ x ∈ s := by
  unfold pass
  split
  · rfl
  · next t ht =>
    rw [if_pos (h t ht)]
    rfl

variable [DecidableEq α]

instance (s : ExpiringSet α) (x : α) : Decidable (x ∈ s) := inferInstanceAs (Decidable (x ∈ s.members))

/-- `SADD` keeps the time left. -/
def sadd (s : ExpiringSet α) (x : α) : ExpiringSet α where
  members := s.members.insert x
  ttl := s.ttl
  nodup := s.nodup.insert
  absent h := absurd (h ▸ List.mem_insert_self) List.not_mem_nil

/-- `SREM` deletes a key without members. -/
def srem (s : ExpiringSet α) (x : α) : ExpiringSet α where
  members := s.members.erase x
  ttl := if s.members.erase x = [] then none else s.ttl
  nodup := s.nodup.erase x
  absent h := if_pos h

@[simp] lemma mem_sadd {s : ExpiringSet α} {x y : α} : y ∈ s.sadd x ↔ y = x ∨ y ∈ s := List.mem_insert_iff

@[simp] lemma mem_srem {s : ExpiringSet α} {x y : α} : y ∈ s.srem x ↔ y ≠ x ∧ y ∈ s := s.nodup.mem_erase_iff

/-- Removing one member from the sets under several keys, one after another. -/
def removeFrom {κ : Type*} [DecidableEq κ] (sets : κ → ExpiringSet α) (x : α) (keys : List κ) : κ → ExpiringSet α :=
  keys.foldl (fun sets k => Function.update sets k ((sets k).srem x)) sets

lemma mem_removeFrom {κ : Type*} [DecidableEq κ] {sets : κ → ExpiringSet α} {x y : α} {keys : List κ} {k : κ} :
    y ∈ removeFrom sets x keys k ↔ y ∈ sets k ∧ ¬ (y = x ∧ k ∈ keys) := by
  unfold removeFrom
  induction keys generalizing sets with
  | nil => simp
  | cons k' keys ih =>
    rw [List.foldl_cons, ih, Function.update_apply]
    by_cases hk : k = k'
    · subst hk
      rw [if_pos rfl, mem_srem]
      simp only [List.mem_cons, true_or, and_true]
      tauto
    · simp [hk]

end ExpiringSet

end MatchingEngine.Library

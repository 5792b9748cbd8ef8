import Mathlib

/-! Operations on a keyed store that read and write only some of the keys. A store is given by
what it holds under each key. A local update changes each key of its set by a function of that
key alone. An operation confined to a set of keys leaves the others alone and gives the same
reply in any store that agrees on the set, so operations with disjoint footprints commute. -/
namespace MatchingEngine.Library

section Footprint
variable {σ κ ρ ρ' : Type*} {V : κ → Type*} (get : σ → ∀ k, V k)

/-- An update that changes only keys of `S`, each by what it holds itself. -/
structure LocalTo (S : Set κ) (f : σ → σ) : Prop where
  pointwise : ∀ s t k, get s k = get t k → get (f s) k = get (f t) k
  frame : ∀ s k, k ∉ S → get (f s) k = get s k

namespace LocalTo
variable {get} {S : Set κ} {f g : σ → σ}

lemma id (S : Set κ) : LocalTo get S (fun s => s) := ⟨fun _ _ _ h => h,fun _ _ _ => rfl⟩

lemma comp (hg : LocalTo get S g) (hf : LocalTo get S f) : LocalTo get S (fun s => g (f s)) where
  pointwise s t k h := hg.pointwise (f s) (f t) k (hf.pointwise s t k h)
  frame s k hk := (hg.frame (f s) k hk).trans (hf.frame s k hk)

/-- A fold of local updates is local. -/
lemma foldl {α : Type*} {op : σ → α → σ} {l : List α} (h : ∀ x ∈ l, LocalTo get S (fun s => op s x)) :
    LocalTo get S (fun s => l.foldl op s) := by
  induction l with
  | nil => exact id S
  | cons x l ih => exact (ih (fun y hy => h y (by simp [hy]))).comp (h x (by simp))

end LocalTo

/-- The stores hold the same under the keys of `S`. -/
def AgreeOn (S : Set κ) (s t : σ) : Prop := ∀ k ∈ S, get s k = get t k

lemma AgreeOn.refl (S : Set κ) (s : σ) : AgreeOn get S s s := fun _ _ => rfl

/-- The operation reads and writes only keys of `S`, in `s` and in every store that looks like
it there. -/
structure Confined (S : Set κ) (f : σ → ρ × σ) (s : σ) : Prop where
  reply : ∀ t, AgreeOn get S t s → (f t).1 = (f s).1
  reads : ∀ t, AgreeOn get S t s → AgreeOn get S (f t).2 (f s).2
  writes : ∀ t, AgreeOn get S t s → ∀ k, k ∉ S → get (f t).2 k = get t k

variable {get} {S T : Set κ} {f : σ → ρ × σ} {g : σ → ρ' × σ} {s : σ}

/-- Where the footprint decides the reply and the update, and the update is local to it. -/
lemma Confined.of_localTo (r : ρ) {op : σ → σ} (h : ∀ t, AgreeOn get S t s → f t = (r,op t))
    (hop : LocalTo get S op) : Confined get S f s := by
  have hs := h s (AgreeOn.refl get S s)
  refine ⟨fun t ht => ?_,fun t ht k hk => ?_,fun t ht k hk => ?_⟩
  · rw [h t ht, hs]
  · rw [h t ht, hs]
    exact hop.pointwise t s k (ht k hk)
  · rw [h t ht]
    exact hop.frame t k hk

lemma Confined.frame (hf : Confined get S f s) {k : κ} (hk : k ∉ S) : get (f s).2 k = get s k :=
  hf.writes s (AgreeOn.refl get S s) k hk

/-- Whatever is disjoint from the footprint looks the same afterwards. -/
lemma Confined.agreeOn (hf : Confined get S f s) (h : Disjoint S T) : AgreeOn get T (f s).2 s :=
  fun _ hk => hf.frame (fun hS => Set.disjoint_left.mp h hS hk)

/-- Operations with disjoint footprints give the same replies and the same store in either
order. -/
theorem Confined.commute (hext : ∀ s t : σ, (∀ k, get s k = get t k) → s = t) (hf : Confined get S f s)
    (hg : Confined get T g s) (h : Disjoint S T) :
    (f (g s).2).1 = (f s).1 ∧ (g (f s).2).1 = (g s).1 ∧ (f (g s).2).2 = (g (f s).2).2 := by
  have hS : AgreeOn get S (g s).2 s := hg.agreeOn h.symm
  have hT : AgreeOn get T (f s).2 s := hf.agreeOn h
  refine ⟨hf.reply _ hS,hg.reply _ hT,hext _ _ (fun k => ?_)⟩
  by_cases hk : k ∈ S
  · have hkT : k ∉ T := Set.disjoint_left.mp h hk
    rw [hf.reads _ hS k hk, hg.writes _ hT k hkT]
  · rw [hf.writes _ hS k hk]
    by_cases hkT : k ∈ T
    · rw [hg.reads _ hT k hkT]
    · rw [hg.frame hkT, hg.writes _ hT k hkT, hf.frame hk]

end Footprint

end MatchingEngine.Library

import Mathlib

/-! Machines that answer calls. Two states of two machines are in lockstep when a relation
between them is kept by every call that both sides accept, with the same answer on both sides;
a whole session of accepted calls is then answered alike. -/
namespace MatchingEngine.Library

section Lockstep
variable {σ τ ι ρ : Type*}

/-- The answers to a list of calls, and the state after them. -/
def answers (f : σ → ι → ρ × σ) : σ → List ι → List ρ × σ
  | s, [] => ([],s)
  | s, i :: is => ((f s i).1 :: (answers f (f s i).2 is).1,(answers f (f s i).2 is).2)

@[simp] lemma answers_nil (f : σ → ι → ρ × σ) (s : σ) : answers f s [] = ([],s) := rfl

@[simp] lemma answers_cons (f : σ → ι → ρ × σ) (s : σ) (i : ι) (is : List ι) :
    answers f s (i :: is) = ((f s i).1 :: (answers f (f s i).2 is).1,(answers f (f s i).2 is).2) := rfl

/-- A relation between the states of two machines that calls keep, as long as both accept them. -/
structure Lockstep (f : σ → ι → ρ × σ) (g : τ → ι → ρ × τ) (Accepted : ρ → Prop) (R : σ → τ → Prop) : Prop where
  answer : ∀ s t i, R s t → Accepted (f s i).1 → Accepted (g t i).1 → (f s i).1 = (g t i).1
  keep : ∀ s t i, R s t → Accepted (f s i).1 → Accepted (g t i).1 → R (f s i).2 (g t i).2

variable {f : σ → ι → ρ × σ} {g : τ → ι → ρ × τ} {Accepted : ρ → Prop} {R : σ → τ → Prop}

/-- Sessions from related states are answered alike as long as no call is refused on either side. -/
theorem Lockstep.answers_eq (h : Lockstep f g Accepted R) {s : σ} {t : τ} (hR : R s t) {is : List ι}
    (hf : ∀ r ∈ (answers f s is).1, Accepted r) (hg : ∀ r ∈ (answers g t is).1, Accepted r) :
    (answers f s is).1 = (answers g t is).1 ∧ R (answers f s is).2 (answers g t is).2 := by
  induction is generalizing s t with
  | nil => exact ⟨rfl,hR⟩
  | cons i is ih =>
    rw [answers_cons] at hf
    rw [answers_cons] at hg
    have hfi := hf (f s i).1 (by simp)
    have hgi := hg (g t i).1 (by simp)
    obtain ⟨hanswers,hend⟩ := ih (h.keep s t i hR hfi hgi) (fun r hr => hf r (by simp [hr]))
      (fun r hr => hg r (by simp [hr]))
    rw [answers_cons, answers_cons, h.answer s t i hR hfi hgi, hanswers]
    exact ⟨rfl,hend⟩

end Lockstep

end MatchingEngine.Library

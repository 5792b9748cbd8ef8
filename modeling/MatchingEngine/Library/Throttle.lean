import Mathlib

/-! Events that keep a distance. When any two are at least `gap` apart, a window of `n` gaps holds at
most `n` of them. -/
namespace MatchingEngine.Library

/-- Later events come at least `gap` after earlier ones. -/
def Spaced (gap : ℕ) (times : List ℕ) : Prop := times.Pairwise (fun a b => a + gap ≤ b)

theorem Spaced.concat {gap : ℕ} {times : List ℕ} (h : Spaced gap times) {t : ℕ} (ht : ∀ a ∈ times, a + gap ≤ t) :
    Spaced gap (times ++ [t]) := by
  unfold Spaced
  rw [List.pairwise_append]
  refine ⟨h,List.pairwise_singleton _ _,fun a ha b hb => ?_⟩
  rw [List.mem_singleton.mp hb]
  exact ht a ha

theorem Spaced.length_le {gap : ℕ} {times : List ℕ} (h : Spaced gap times) {start n : ℕ}
    (hin : ∀ t ∈ times, start ≤ t ∧ t < start + n * gap) : times.length ≤ n := by
  induction times generalizing start n with
  | nil => exact Nat.zero_le n
  | cons t times ih =>
    obtain ⟨hfirst,hrest⟩ := List.pairwise_cons.mp h
    obtain ⟨hstart,hend⟩ := hin t (by simp)
    cases n with
    | zero => omega
    | succ n =>
      -- what follows is in a window that is one gap shorter
      have hwindow : ∀ b ∈ times, start + gap ≤ b ∧ b < start + gap + n * gap := by
        intro b hb
        have hlater := hfirst b hb
        have hbefore := (hin b (by simp [hb])).2
        rw [Nat.succ_mul] at hbefore
        omega
      have hlength := ih hrest hwindow
      rw [List.length_cons]
      omega

/-- At most `n` events in any window of `n` gaps. -/
theorem Spaced.countP_le {gap : ℕ} {times : List ℕ} (h : Spaced gap times) (start n : ℕ) :
    times.countP (fun t => start ≤ t ∧ t < start + n * gap) ≤ n := by
  rw [List.countP_eq_length_filter]
  have hin : Spaced gap (times.filter (fun t => start ≤ t ∧ t < start + n * gap)) := h.sublist List.filter_sublist
  exact hin.length_le (fun t ht => by simpa using (List.mem_filter.mp ht).2)

end MatchingEngine.Library

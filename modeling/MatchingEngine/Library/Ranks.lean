import Mathlib

/-! Order statistics: the value of a given rank in a list, least first. -/
namespace MatchingEngine.Library
variable {α : Type*} [LinearOrder α]

lemma length_sorted (samples : List α) : (samples.mergeSort (· ≤ ·)).length = samples.length := List.length_mergeSort _

/-- The value of rank `i`, counted from zero. -/
def ranked (samples : List α) (i : ℕ) (h : i < samples.length) : α :=
  (samples.mergeSort (· ≤ ·)).get ⟨i,(length_sorted samples).symm ▸ h⟩

lemma pairwise_sorted (samples : List α) : (samples.mergeSort (· ≤ ·)).Pairwise (· ≤ ·) := by
  have h : (samples.mergeSort (fun a b => decide (a ≤ b))).Pairwise (fun a b => decide (a ≤ b) = true) :=
    List.pairwise_mergeSort (by simpa using fun a b c => le_trans) (by simpa using fun a b => le_total a b) samples
  simpa using h

theorem ranked_mem (samples : List α) (i : ℕ) (h : i < samples.length) : ranked samples i h ∈ samples :=
  (List.mergeSort_perm samples _).mem_iff.mp (List.get_mem _ _)

theorem ranked_mono {samples : List α} {i j : ℕ} (hij : i ≤ j) (h : j < samples.length) :
    ranked samples i (lt_of_le_of_lt hij h) ≤ ranked samples j h := by
  rcases hij.eq_or_lt with rfl | hlt
  · exact le_refl _
  · exact List.pairwise_iff_get.mp (pairwise_sorted samples) _ _ hlt

theorem ranked_perm {samples samples' : List α} (h : samples.Perm samples') {i : ℕ} (hi : i < samples.length) :
    ranked samples i hi = ranked samples' i (h.length_eq ▸ hi) := by
  have hperm : (samples.mergeSort (· ≤ ·)).Perm (samples'.mergeSort (· ≤ ·)) :=
    ((List.mergeSort_perm samples _).trans h).trans (List.mergeSort_perm samples' _).symm
  have heq : samples.mergeSort (· ≤ ·) = samples'.mergeSort (· ≤ ·) :=
    hperm.eq_of_pairwise (fun _ _ _ _ => le_antisymm) (pairwise_sorted samples) (pairwise_sorted samples')
  exact List.get_of_eq heq _

/-! ### Values around a rank -/

lemma countP_lt_get {sorted : List α} (hsorted : sorted.Pairwise (· ≤ ·)) (i : Fin sorted.length) :
    sorted.countP (fun x => x < sorted.get i) ≤ i := by
  -- nothing from the rank on is below
  have hrest : (sorted.drop i).countP (fun x => x < sorted.get i) = 0 := by
    rw [List.countP_eq_zero]
    intro x hx
    rw [List.drop_eq_getElem_cons i.isLt] at hx
    rcases List.mem_cons.mp hx with rfl | hlater
    · simp
    · have hle := hsorted.drop (i := i)
      rw [List.drop_eq_getElem_cons i.isLt] at hle
      simpa using List.rel_of_pairwise_cons hle hlater
  calc sorted.countP (fun x => x < sorted.get i)
      = (sorted.take i).countP (fun x => x < sorted.get i) + (sorted.drop i).countP (fun x => x < sorted.get i) := by
        rw [← List.countP_append, List.take_append_drop]
    _ = (sorted.take i).countP (fun x => x < sorted.get i) := by rw [hrest, Nat.add_zero]
    _ ≤ (sorted.take i).length := List.countP_le_length
    _ ≤ i := List.length_take_le i sorted

lemma lt_countP_get {sorted : List α} (hsorted : sorted.Pairwise (· ≤ ·)) (i : Fin sorted.length) :
    i < sorted.countP (fun x => x ≤ sorted.get i) := by
  have hi := i.isLt
  have hfront : (sorted.take (i + 1)).countP (fun x => x ≤ sorted.get i) = (sorted.take (i + 1)).length := by
    rw [List.countP_eq_length]
    intro x hx
    obtain ⟨j,hj,rfl⟩ := List.mem_iff_getElem.mp hx
    rw [List.length_take] at hj
    rw [List.getElem_take]
    have hji : j ≤ i := by omega
    rcases hji.eq_or_lt with heq | hlt
    · simp [heq]
    · exact decide_eq_true (List.pairwise_iff_get.mp hsorted ⟨j,by omega⟩ i hlt)
  have hall := (List.take_sublist (i + 1) sorted).countP_le (p := fun x => x ≤ sorted.get i)
  rw [hfront, List.length_take] at hall
  omega

/-- No more than `i` values are below the one of rank `i`. -/
theorem countP_lt_ranked (samples : List α) (i : ℕ) (h : i < samples.length) :
    samples.countP (fun x => x < ranked samples i h) ≤ i := by
  rw [← (List.mergeSort_perm samples (fun a b => decide (a ≤ b))).countP_eq]
  exact countP_lt_get (pairwise_sorted samples) ⟨i,(length_sorted samples).symm ▸ h⟩

/-- More than `i` values are at most the one of rank `i`. -/
theorem lt_countP_ranked (samples : List α) (i : ℕ) (h : i < samples.length) :
    i < samples.countP (fun x => x ≤ ranked samples i h) := by
  rw [← (List.mergeSort_perm samples (fun a b => decide (a ≤ b))).countP_eq]
  exact lt_countP_get (pairwise_sorted samples) ⟨i,(length_sorted samples).symm ▸ h⟩

end MatchingEngine.Library

import Mathlib

/-! Grouping a list of keyed amounts by key: one entry for each key, in the order in which the
keys first occur, with the sum of the amounts. -/
namespace MatchingEngine.Library
variable {κ M : Type*} [DecidableEq κ] [AddCommMonoid M]

/-- One more amount: it is added to the entry of its key, or opens one. -/
def addAmount (groups : List (κ × M)) (x : κ × M) : List (κ × M) :=
  if x.1 ∈ groups.map Prod.fst then groups.map (fun g => if g.1 = x.1 then (g.1,g.2 + x.2) else g) else groups ++ [x]

def groupByKey (xs : List (κ × M)) : List (κ × M) := xs.foldl addAmount []

/-- The amounts of a key. -/
def amountAt (k : κ) (xs : List (κ × M)) : M := ((xs.filter (fun x => x.1 = k)).map Prod.snd).sum

lemma amountAt_append (k : κ) (xs ys : List (κ × M)) : amountAt k (xs ++ ys) = amountAt k xs + amountAt k ys := by
  simp [amountAt]

lemma amountAt_singleton (k : κ) (x : κ × M) : amountAt k [x] = if x.1 = k then x.2 else 0 := by
  unfold amountAt
  by_cases h : x.1 = k <;> simp [h]

lemma amountAt_of_not_mem {k : κ} {xs : List (κ × M)} (h : k ∉ xs.map Prod.fst) : amountAt k xs = 0 := by
  have hnone : xs.filter (fun x => x.1 = k) = [] := by
    rw [List.filter_eq_nil_iff]
    intro x hx hk
    exact h (List.mem_map.mpr ⟨x,hx,of_decide_eq_true hk⟩)
  rw [amountAt, hnone, List.map_nil, List.sum_nil]

lemma groupByKey_concat (xs : List (κ × M)) (x : κ × M) : groupByKey (xs ++ [x]) = addAmount (groupByKey xs) x := by
  simp [groupByKey]

lemma keys_addAmount (groups : List (κ × M)) (x : κ × M) :
    (addAmount groups x).map Prod.fst =
      if x.1 ∈ groups.map Prod.fst then groups.map Prod.fst else groups.map Prod.fst ++ [x.1] := by
  unfold addAmount
  split_ifs with h
  · rw [List.map_map]
    refine List.map_congr_left fun g _ => ?_
    simp only [Function.comp_apply]
    split_ifs <;> rfl
  · simp

lemma mem_keys_groupByKey {xs : List (κ × M)} {k : κ} : k ∈ (groupByKey xs).map Prod.fst ↔ k ∈ xs.map Prod.fst := by
  induction xs using List.reverseRecOn generalizing k with
  | nil => rfl
  | append_singleton xs x ih =>
    rw [groupByKey_concat, keys_addAmount, List.map_append, List.mem_append]
    split_ifs with h
    · rw [ih]
      refine ⟨Or.inl,?_⟩
      rintro (hk | hk)
      · exact hk
      · obtain rfl := List.mem_singleton.mp hk
        exact ih.mp h
    · rw [List.mem_append, ih]
      rfl

/-- The keys of the groups are the first occurrences of the keys. -/
lemma keys_groupByKey_sublist (xs : List (κ × M)) : ((groupByKey xs).map Prod.fst).Sublist (xs.map Prod.fst) := by
  induction xs using List.reverseRecOn with
  | nil => exact List.Sublist.refl _
  | append_singleton xs x ih =>
    rw [groupByKey_concat, keys_addAmount, List.map_append]
    split_ifs
    · exact ih.trans (List.sublist_append_left _ _)
    · exact ih.append (List.Sublist.refl _)

lemma keys_groupByKey_nodup (xs : List (κ × M)) : ((groupByKey xs).map Prod.fst).Nodup := by
  induction xs using List.reverseRecOn with
  | nil => exact List.nodup_nil
  | append_singleton xs x ih =>
    rw [groupByKey_concat, keys_addAmount]
    split_ifs with h
    · exact ih
    · exact List.Nodup.append ih (List.nodup_singleton _) (List.disjoint_singleton.mpr h)

/-- Each key has the sum of its amounts. -/
lemma groupByKey_eq (xs : List (κ × M)) :
    groupByKey xs = ((groupByKey xs).map Prod.fst).map (fun k => (k,amountAt k xs)) := by
  induction xs using List.reverseRecOn with
  | nil => rfl
  | append_singleton xs x ih =>
    rw [groupByKey_concat, keys_addAmount]
    by_cases h : x.1 ∈ (groupByKey xs).map Prod.fst
    · rw [if_pos h, addAmount, if_pos h]
      conv_lhs => rw [ih]
      rw [List.map_map]
      refine List.map_congr_left fun k _ => ?_
      simp only [Function.comp_apply, amountAt_append, amountAt_singleton]
      by_cases hk : k = x.1
      · rw [if_pos hk, if_pos hk.symm]
      · rw [if_neg hk, if_neg (Ne.symm hk), add_zero]
    · rw [if_neg h, addAmount, if_neg h, List.map_append]
      have hnew : amountAt x.1 xs = 0 := amountAt_of_not_mem (fun hx => h (mem_keys_groupByKey.mpr hx))
      congr 1
      · conv_lhs => rw [ih]
        refine List.map_congr_left fun k hk => ?_
        have hne : x.1 ≠ k := fun he => h (he ▸ hk)
        rw [amountAt_append, amountAt_singleton, if_neg hne, add_zero]
      · rw [List.map_singleton, amountAt_append, amountAt_singleton, if_pos rfl, hnew, zero_add]

/-- Grouping a list that is sorted by key gives strictly sorted keys. -/
lemma keys_groupByKey_pairwise {r : κ → κ → Prop} {xs : List (κ × M)} (h : (xs.map Prod.fst).Pairwise r) :
    ((groupByKey xs).map Prod.fst).Pairwise (fun a b => r a b ∧ a ≠ b) :=
  (h.sublist (keys_groupByKey_sublist xs)).and (keys_groupByKey_nodup xs)

/-- The keys may be renamed first, as long as different keys stay different. -/
lemma groupByKey_map {ι : Type*} [DecidableEq ι] (f : κ → ι) {xs : List (κ × M)}
    (hf : ∀ a ∈ xs.map Prod.fst, ∀ b ∈ xs.map Prod.fst, f a = f b → a = b) :
    groupByKey (xs.map (fun x => (f x.1,x.2))) = (groupByKey xs).map (fun g => (f g.1,g.2)) := by
  induction xs using List.reverseRecOn with
  | nil => rfl
  | append_singleton xs x ih =>
    have hxs : ∀ k ∈ xs.map Prod.fst, k ∈ (xs ++ [x]).map Prod.fst := by
      intro k hk
      rw [List.map_append]
      exact List.mem_append_left _ hk
    have hmem : ∀ g ∈ groupByKey xs, g.1 ∈ (xs ++ [x]).map Prod.fst := fun g hg =>
      hxs _ (mem_keys_groupByKey.mp (List.mem_map_of_mem hg))
    have hx : x.1 ∈ (xs ++ [x]).map Prod.fst := by simp
    have hkeys : f x.1 ∈ ((groupByKey xs).map (fun g => (f g.1,g.2))).map Prod.fst ↔ x.1 ∈ (groupByKey xs).map Prod.fst := by
      rw [List.map_map, List.mem_map, List.mem_map]
      refine exists_congr fun g => and_congr_right fun hg => ?_
      exact ⟨hf _ (hmem g hg) _ hx,congrArg f⟩
    rw [List.map_append, List.map_singleton, groupByKey_concat, groupByKey_concat,
      ih (fun a ha b hb => hf a (hxs a ha) b (hxs b hb))]
    by_cases h : x.1 ∈ (groupByKey xs).map Prod.fst
    · rw [addAmount, addAmount, if_pos h, if_pos (hkeys.mpr h), List.map_map, List.map_map]
      refine List.map_congr_left fun g hg => ?_
      simp only [Function.comp_apply]
      by_cases hg' : g.1 = x.1
      · rw [if_pos hg', if_pos (congrArg f hg')]
      · rw [if_neg hg', if_neg (fun he => hg' (hf _ (hmem g hg) _ hx he))]
    · rw [addAmount, addAmount, if_neg h, if_neg (fun hm => h (hkeys.mp hm)), List.map_append, List.map_singleton]

end MatchingEngine.Library

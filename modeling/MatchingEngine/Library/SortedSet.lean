import Mathlib

/-! Scored sorted sets: finitely many members, each with one score, listed by ascending
score and, at equal scores, by ascending member. The order and the uniqueness of members
are carried by the structure, so every reachable value is a genuine sorted set. -/
namespace MatchingEngine.Library

/-- One element of a sorted set. -/
@[ext] structure Entry (σ μ : Type*) where
  score : σ
  member : μ
  deriving DecidableEq, Repr

namespace Entry
variable {σ μ : Type*} [LinearOrder σ] [LinearOrder μ]

/-- The listing order: by score, ties broken by the member itself. -/
def Before (a b : Entry σ μ) : Prop :=
  a.score < b.score ∨ a.score = b.score ∧ a.member < b.member

instance (a b : Entry σ μ) : Decidable (a.Before b) :=
  inferInstanceAs (Decidable (_ ∨ _))

lemma Before.irrefl (a : Entry σ μ) : ¬ a.Before a := by
  rintro (h | ⟨_,h⟩) <;> exact lt_irrefl _ h

lemma Before.trans {a b c : Entry σ μ} (hab : a.Before b) (hbc : b.Before c) : a.Before c := by
  rcases hab with hab | ⟨hs,hm⟩ <;> rcases hbc with hbc | ⟨ht,hn⟩
  · exact .inl (hab.trans hbc)
  · exact .inl (ht ▸ hab)
  · exact .inl (hs ▸ hbc)
  · exact .inr ⟨hs.trans ht,hm.trans hn⟩

lemma Before.score_le {a b : Entry σ μ} (h : a.Before b) : a.score ≤ b.score := by
  rcases h with h | ⟨h,_⟩
  · exact h.le
  · exact h.le

lemma before_or_before {a b : Entry σ μ} (h : a.member ≠ b.member) : a.Before b ∨ b.Before a := by
  rcases lt_trichotomy a.score b.score with hs | hs | hs
  · exact .inl (.inl hs)
  · rcases lt_or_gt_of_ne h with hm | hm
    · exact .inl (.inr ⟨hs,hm⟩)
    · exact .inr (.inr ⟨hs.symm,hm⟩)
  · exact .inr (.inl hs)

/-- Insertion in front of the first entry that lists after `e`. -/
def insert (e : Entry σ μ) : List (Entry σ μ) → List (Entry σ μ)
  | [] => [e]
  | x :: xs => if e.Before x then e :: x :: xs else x :: insert e xs

lemma insert_perm (e : Entry σ μ) (l : List (Entry σ μ)) : (insert e l).Perm (e :: l) := by
  induction l with
  | nil => exact List.Perm.refl _
  | cons x xs ih =>
    simp only [insert]
    split_ifs
    · exact List.Perm.refl _
    · exact (ih.cons x).trans (List.Perm.swap e x xs)

lemma mem_insert {e x : Entry σ μ} {l : List (Entry σ μ)} : x ∈ insert e l ↔ x = e ∨ x ∈ l := by
  rw [(insert_perm e l).mem_iff, List.mem_cons]

lemma insert_pairwise {e : Entry σ μ} {l : List (Entry σ μ)} (hl : l.Pairwise Before)
    (he : ∀ x ∈ l, x.member ≠ e.member) : (insert e l).Pairwise Before := by
  induction l with
  | nil => simp [insert]
  | cons x xs ih =>
    obtain ⟨hx,hxs⟩ := List.pairwise_cons.mp hl
    simp only [insert]
    split_ifs with h
    · refine List.pairwise_cons.mpr ⟨?_,hl⟩
      rintro y (_ | ⟨_,hy⟩)
      · exact h
      · exact h.trans (hx y hy)
    · have hxe : x.Before e := (before_or_before (he x (by simp))).resolve_right h
      refine List.pairwise_cons.mpr ⟨?_,ih hxs (fun y hy => he y (by simp [hy]))⟩
      intro y hy
      rcases mem_insert.mp hy with rfl | hy
      · exact hxe
      · exact hx y hy

end Entry

/-- A sorted set of `μ` members scored in `σ`. -/
@[ext] structure SortedSet (σ μ : Type*) [LinearOrder σ] [LinearOrder μ] where
  entries : List (Entry σ μ)
  sorted : entries.Pairwise Entry.Before
  nodup : (entries.map Entry.member).Nodup

namespace SortedSet
variable {σ μ : Type*} [LinearOrder σ] [LinearOrder μ]

def empty : SortedSet σ μ := ⟨[],List.Pairwise.nil,List.nodup_nil⟩

instance : Inhabited (SortedSet σ μ) := ⟨empty⟩

instance : Membership μ (SortedSet σ μ) := ⟨fun s m => m ∈ s.entries.map Entry.member⟩

instance (s : SortedSet σ μ) (m : μ) : Decidable (m ∈ s) :=
  inferInstanceAs (Decidable (m ∈ s.entries.map Entry.member))

lemma mem_iff {s : SortedSet σ μ} {m : μ} : m ∈ s ↔ ∃ e ∈ s.entries, e.member = m :=
  List.mem_map

@[simp] lemma entries_empty : (empty : SortedSet σ μ).entries = [] := rfl

@[simp] lemma not_mem_empty (m : μ) : m ∉ (empty : SortedSet σ μ) := by simp [mem_iff]

/-- A member determines its entry. -/
lemma entry_unique {s : SortedSet σ μ} {a b : Entry σ μ} (ha : a ∈ s.entries) (hb : b ∈ s.entries)
    (h : a.member = b.member) : a = b :=
  List.inj_on_of_nodup_map s.nodup ha hb h

/-- Drop a member; dropping an absent member changes nothing. -/
def remove (s : SortedSet σ μ) (m : μ) : SortedSet σ μ where
  entries := s.entries.filter (fun e => e.member ≠ m)
  sorted := s.sorted.sublist List.filter_sublist
  nodup := s.nodup.sublist (List.filter_sublist.map _)

lemma mem_entries_remove {s : SortedSet σ μ} {m : μ} {e : Entry σ μ} :
    e ∈ (s.remove m).entries ↔ e ∈ s.entries ∧ e.member ≠ m := by
  simp [remove]

@[simp] lemma mem_remove {s : SortedSet σ μ} {m x : μ} : x ∈ s.remove m ↔ x ∈ s ∧ x ≠ m := by
  simp only [mem_iff, mem_entries_remove]
  constructor
  · rintro ⟨e,⟨he,hm⟩,rfl⟩; exact ⟨⟨e,he,rfl⟩,hm⟩
  · rintro ⟨⟨e,he,rfl⟩,hm⟩; exact ⟨e,⟨he,hm⟩,rfl⟩

/-- Give a member a score, moving it when it is already present. -/
def add (s : SortedSet σ μ) (score : σ) (m : μ) : SortedSet σ μ where
  entries := Entry.insert ⟨score,m⟩ (s.remove m).entries
  sorted := Entry.insert_pairwise (s.remove m).sorted
    (fun _ hx => (mem_entries_remove.mp hx).2)
  nodup := by
    rw [((Entry.insert_perm _ _).map _).nodup_iff, List.map_cons, List.nodup_cons]
    refine ⟨?_,(s.remove m).nodup⟩
    rintro h
    obtain ⟨e,he,hem⟩ := List.mem_map.mp h
    exact (mem_entries_remove.mp he).2 hem

lemma mem_entries_add {s : SortedSet σ μ} {score : σ} {m : μ} {e : Entry σ μ} :
    e ∈ (s.add score m).entries ↔ e = ⟨score,m⟩ ∨ e ∈ s.entries ∧ e.member ≠ m := by
  simp only [add, Entry.mem_insert, mem_entries_remove]

@[simp] lemma mem_add {s : SortedSet σ μ} {score : σ} {m x : μ} :
    x ∈ s.add score m ↔ x = m ∨ x ∈ s := by
  simp only [mem_iff, mem_entries_add]
  constructor
  · rintro ⟨e,rfl | ⟨he,_⟩,rfl⟩
    · exact .inl rfl
    · exact .inr ⟨e,he,rfl⟩
  · rintro (rfl | ⟨e,he,rfl⟩)
    · exact ⟨_,.inl rfl,rfl⟩
    · by_cases hm : e.member = m
      · exact ⟨_,.inl rfl,hm.symm⟩
      · exact ⟨e,.inr ⟨he,hm⟩,rfl⟩

/-- A sorted set is determined by its entries, whatever their listing. -/
lemma ext_mem {s t : SortedSet σ μ} (h : ∀ e, e ∈ s.entries ↔ e ∈ t.entries) : s = t := by
  apply SortedSet.ext
  refine List.Perm.eq_of_pairwise ?_ s.sorted t.sorted ?_
  · intro a b _ _ hab hba
    exact absurd (hab.trans hba) (Entry.Before.irrefl a)
  · have hs : s.entries.Nodup := List.Nodup.of_map _ s.nodup
    have ht : t.entries.Nodup := List.Nodup.of_map _ t.nodup
    rw [List.perm_ext_iff_of_nodup hs ht]
    exact h

/-- Adding a member with the score it already has changes nothing. -/
lemma add_of_mem {s : SortedSet σ μ} {score : σ} {m : μ} (h : ⟨score,m⟩ ∈ s.entries) : s.add score m = s := by
  apply ext_mem
  intro e
  rw [mem_entries_add]
  constructor
  · rintro (rfl | ⟨he,_⟩)
    · exact h
    · exact he
  · intro he
    by_cases hm : e.member = m
    · exact .inl (entry_unique he h hm)
    · exact .inr ⟨he,hm⟩

/-- Keep the members with a property. -/
def filter (s : SortedSet σ μ) (p : μ → Bool) : SortedSet σ μ where
  entries := s.entries.filter (fun e => p e.member)
  sorted := s.sorted.sublist List.filter_sublist
  nodup := s.nodup.sublist (List.filter_sublist.map _)

@[simp] lemma mem_entries_filter {s : SortedSet σ μ} {p : μ → Bool} {e : Entry σ μ} :
    e ∈ (s.filter p).entries ↔ e ∈ s.entries ∧ p e.member := by
  simp [filter]

lemma filter_filter (s : SortedSet σ μ) (p : μ → Bool) : (s.filter p).filter p = s.filter p := by
  apply ext_mem
  intro e
  rw [mem_entries_filter, mem_entries_filter, and_assoc, and_self_iff]

/-- The members with score at most `max` (all of them without a bound), in listing order. -/
def rangeByScore (s : SortedSet σ μ) (max : Option σ) : List μ :=
  (s.entries.filter (fun e => ∀ m ∈ max, e.score ≤ m)).map Entry.member

lemma mem_rangeByScore {s : SortedSet σ μ} {max : Option σ} {m : μ} :
    m ∈ s.rangeByScore max ↔ ∃ e ∈ s.entries, (∀ b ∈ max, e.score ≤ b) ∧ e.member = m := by
  simp [rangeByScore, and_assoc]

/-- Below a bound the listing is a front part of the whole listing; the rest is above it. -/
lemma rangeByScore_none_eq_append (s : SortedSet σ μ) (b : σ) :
    s.rangeByScore none = s.rangeByScore (some b) ++
      (s.entries.filter (fun e => ¬ e.score ≤ b)).map Entry.member := by
  have hsplit : ∀ l : List (Entry σ μ), l.Pairwise Entry.Before →
      l.filter (fun e => e.score ≤ b) ++ l.filter (fun e => ¬ e.score ≤ b) = l := by
    intro l hl
    induction l with
    | nil => rfl
    | cons x xs ih =>
      obtain ⟨hx,hxs⟩ := List.pairwise_cons.mp hl
      by_cases hb : x.score ≤ b
      · simpa [hb] using ih hxs
      · -- nothing behind an entry above the bound is below it
        have hnone : ∀ y ∈ xs, ¬ y.score ≤ b := fun y hy hyb => hb ((hx y hy).score_le.trans hyb)
        have hall : ∀ y ∈ x :: xs, decide (¬ y.score ≤ b) = true := by
          intro y hy
          rcases List.mem_cons.mp hy with rfl | hy
          · simpa using hb
          · simpa using hnone y hy
        have hempty : (x :: xs).filter (fun e => e.score ≤ b) = [] := by
          rw [List.filter_eq_nil_iff]
          intro y hy
          simpa using hall y hy
        rw [hempty, List.nil_append, List.filter_eq_self.mpr hall]
  have h := congrArg (List.map Entry.member) (hsplit s.entries s.sorted)
  rw [List.map_append] at h
  simpa [rangeByScore] using h.symm

lemma rangeByScore_nodup (s : SortedSet σ μ) (max : Option σ) : (s.rangeByScore max).Nodup :=
  s.nodup.sublist (List.filter_sublist.map _)

/-- Where a test on what is stored under a member is the test on its score, the bound is a filter of the
whole listing. -/
lemma filterMap_rangeByScore {β : Type*} {s : SortedSet σ μ} {b : σ} {f : μ → Option β} {p : β → Bool}
    (h : ∀ e ∈ s.entries, ∀ x ∈ f e.member, p x = true ↔ e.score ≤ b) :
    (s.rangeByScore (some b)).filterMap f = ((s.rangeByScore none).filterMap f).filter p := by
  unfold rangeByScore
  rw [List.filterMap_map, List.filterMap_filter, List.filterMap_map, List.filterMap_filter, List.filter_filterMap]
  apply List.filterMap_congr
  intro e he
  cases hf : f e.member with
  | none => simp [hf]
  | some x =>
    have hx := h e he x hf
    by_cases hb : e.score ≤ b
    · have hpx : p x = true := hx.mpr hb
      simp [hf, hb, Option.filter, hpx]
    · have hpx : p x = false := Bool.eq_false_iff.mpr (fun hpx => hb (hx.mp hpx))
      simp [hf, hb, Option.filter, hpx]

/-- The listing of what is kept. -/
lemma rangeByScore_filter (s : SortedSet σ μ) (p : μ → Bool) (max : Option σ) :
    (s.filter p).rangeByScore max = (s.rangeByScore max).filter p := by
  unfold rangeByScore filter
  rw [List.filter_filter, List.filter_map, List.filter_filter]
  congr 1
  apply List.filter_congr
  intro e _
  exact Bool.and_comm _ _

/-- Dropping a member outside a range leaves the range. -/
lemma rangeByScore_remove {s : SortedSet σ μ} {max : Option σ} {m : μ} (h : m ∉ s.rangeByScore max) :
    (s.remove m).rangeByScore max = s.rangeByScore max := by
  unfold rangeByScore remove
  rw [List.filter_filter]
  congr 1
  apply List.filter_congr
  intro e he
  by_cases hm : e.member = m
  · have hout : ¬ ∀ b ∈ max, e.score ≤ b := fun hall => h (mem_rangeByScore.mpr ⟨e,he,hall,hm⟩)
    rw [decide_eq_false hout, Bool.false_and]
  · rw [decide_eq_true hm, Bool.and_true]

/-- Adding a member above a range, from outside it, leaves the range. -/
lemma rangeByScore_add {s : SortedSet σ μ} {max : Option σ} {score : σ} {m : μ} (h : m ∉ s.rangeByScore max)
    (hscore : ∃ b ∈ max, b < score) : (s.add score m).rangeByScore max = s.rangeByScore max := by
  have hskip : ∀ l : List (Entry σ μ), (Entry.insert ⟨score,m⟩ l).filter (fun e => ∀ b ∈ max, e.score ≤ b) =
      l.filter (fun e => ∀ b ∈ max, e.score ≤ b) := by
    obtain ⟨b,hb,hlt⟩ := hscore
    have hout : ¬ decide (∀ b ∈ max, score ≤ b) = true := by
      rw [decide_eq_true_eq]
      exact fun hall => absurd (hall b hb) (not_le.mpr hlt)
    intro l
    induction l with
    | nil => exact List.filter_cons_of_neg hout
    | cons e l ih =>
      unfold Entry.insert
      split_ifs with hbefore
      · exact List.filter_cons_of_neg hout
      · rw [List.filter_cons, List.filter_cons, ih]
  rw [← rangeByScore_remove h]
  exact congrArg (List.map Entry.member) (hskip (s.remove m).entries)

/-- Two entries stand in the list in the order in which they compare. -/
lemma pair_sublist {l : List (Entry σ μ)} (hl : l.Pairwise Entry.Before) {a b : Entry σ μ} (ha : a ∈ l)
    (hb : b ∈ l) (h : a.Before b) : [a,b].Sublist l := by
  induction l with
  | nil => cases ha
  | cons x xs ih =>
    obtain ⟨hx,hxs⟩ := List.pairwise_cons.mp hl
    rcases List.mem_cons.mp ha with rfl | ha'
    · have hb' : b ∈ xs := by
        rcases List.mem_cons.mp hb with rfl | hb'
        · exact absurd h (Entry.Before.irrefl _)
        · exact hb'
      exact (List.singleton_sublist.mpr hb').cons_cons a
    · rcases List.mem_cons.mp hb with rfl | hb'
      · exact absurd (h.trans (hx a ha')) (Entry.Before.irrefl _)
      · exact (ih hxs ha' hb').cons x

/-- The first `n` members of a range contain everything that lists before one of them. -/
lemma pair_sublist_take_rangeByScore {s : SortedSet σ μ} {max : Option σ} {n : ℕ} {a b : Entry σ μ}
    (ha : a ∈ s.entries) (hb : b ∈ s.entries) (h : a.Before b)
    (hmem : b.member ∈ (s.rangeByScore max).take n) :
    [a.member,b.member].Sublist ((s.rangeByScore max).take n) := by
  obtain ⟨e,he,hmax,hm⟩ := mem_rangeByScore.mp (List.mem_of_mem_take hmem)
  obtain rfl := entry_unique he hb hm
  have hamax : ∀ m ∈ max, a.score ≤ m := fun m hm => h.score_le.trans (hmax m hm)
  have hsub : [a,e].Sublist (s.entries.filter (fun e => ∀ m ∈ max, e.score ≤ m)) := by
    apply pair_sublist (s.sorted.sublist List.filter_sublist)
    · exact List.mem_filter.mpr ⟨ha,by simpa using hamax⟩
    · exact List.mem_filter.mpr ⟨he,by simpa using hmax⟩
    · exact h
  have hrange : [a.member,e.member].Sublist (s.rangeByScore max) := hsub.map Entry.member
  rw [← List.take_append_drop n (s.rangeByScore max)] at hrange
  -- the later member is among the first `n`, so the pair cannot reach into the rest
  have hnd : ((s.rangeByScore max).take n ++ (s.rangeByScore max).drop n).Nodup := by
    rw [List.take_append_drop]; exact s.rangeByScore_nodup max
  obtain ⟨l₁,l₂,hl,h₁,h₂⟩ := List.sublist_append_iff.mp hrange
  cases l₂ with
  | nil => rw [hl, List.append_nil]; exact h₁
  | cons y ys =>
    have hlast : e.member ∈ y :: ys := by
      have := congrArg List.getLast? hl
      rw [List.getLast?_append_of_ne_nil _ (List.cons_ne_nil y ys)] at this
      exact List.mem_of_getLast? (by simpa using this.symm)
    exact absurd (h₂.subset hlast) (List.disjoint_of_nodup_append hnd hmem)

end SortedSet
end MatchingEngine.Library

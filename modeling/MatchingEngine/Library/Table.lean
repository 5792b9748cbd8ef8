import Mathlib

/-! Keyed tables: finitely many rows, one per key. Statements of a relational store are
insertions that ignore conflicts, updates of one row, upserts, and updates joined with a list
of values. -/
namespace MatchingEngine.Library

@[ext] structure Table (κ α : Type*) where
  rows : List (κ × α)
  nodup : (rows.map Prod.fst).Nodup

namespace Table
variable {κ α β : Type*} [DecidableEq κ]

def empty : Table κ α := ⟨[],List.nodup_nil⟩

/-- The row of a key. -/
def get (t : Table κ α) (k : κ) : Option α := t.rows.lookup k

/-- Update the row of one key; no effect without such a row. -/
def modify (t : Table κ α) (k : κ) (f : α → α) : Table κ α where
  rows := t.rows.map (fun r => (r.1,if r.1 = k then f r.2 else r.2))
  nodup := by
    rw [List.map_map]
    exact t.nodup

/-- Insert a row, doing nothing when the key is taken. -/
def insertNew (t : Table κ α) (k : κ) (a : α) : Table κ α :=
  if h : k ∈ t.rows.map Prod.fst then t
  else
    { rows := t.rows ++ [(k,a)]
      nodup := by
        rw [List.map_append, List.nodup_append]
        refine ⟨t.nodup,by simp,?_⟩
        rintro x hx y hy rfl
        simp only [List.map_cons, List.map_nil, List.mem_singleton] at hy
        exact h (hy ▸ hx) }

/-- Insert a row, or update the one that is there. -/
def upsert (t : Table κ α) (k : κ) (a : α) (f : α → α) : Table κ α :=
  if k ∈ t.rows.map Prod.fst then t.modify k f else t.insertNew k a

/-- Update every row whose key is listed, with the first value listed for it. -/
def updateFrom (t : Table κ α) (us : List (κ × β)) (f : β → α → α) : Table κ α where
  rows := t.rows.map (fun r => (r.1,(us.lookup r.1).elim r.2 (fun b => f b r.2)))
  nodup := by
    rw [List.map_map]
    exact t.nodup

/-- Sum of a weight over all rows. -/
def sum {M : Type*} [AddCommGroup M] (t : Table κ α) (w : κ → α → M) : M :=
  (t.rows.map (fun r => w r.1 r.2)).sum

/-! ### Rows after a statement -/

lemma lookup_cons_ite (r : κ × α) (l : List (κ × α)) (k : κ) :
    (r :: l).lookup k = if k = r.1 then some r.2 else l.lookup k := by
  obtain ⟨k',a⟩ := r
  rw [List.lookup_cons]
  split_ifs with h
  · simp [h]
  · simp [beq_eq_false_iff_ne.mpr h]

lemma lookup_eq_none {l : List (κ × α)} {k : κ} : l.lookup k = none ↔ k ∉ l.map Prod.fst := by
  induction l with
  | nil => simp
  | cons r l ih =>
    rw [lookup_cons_ite, List.map_cons, List.mem_cons, not_or, ← ih]
    split_ifs with h <;> simp [h]

lemma lookup_map_snd {l : List (κ × α)} (g : κ → α → β) (k : κ) :
    (l.map (fun r => (r.1,g r.1 r.2))).lookup k = (l.lookup k).map (g k) := by
  induction l with
  | nil => rfl
  | cons r l ih =>
    rw [List.map_cons, lookup_cons_ite, lookup_cons_ite, ih]
    split_ifs with h
    · subst h; rfl
    · rfl

lemma get_eq_none {t : Table κ α} {k : κ} : t.get k = none ↔ k ∉ t.rows.map Prod.fst := lookup_eq_none

lemma mem_keys {t : Table κ α} {k : κ} : k ∈ t.rows.map Prod.fst ↔ (t.get k).isSome := by
  rw [← not_iff_not, ← get_eq_none, Option.not_isSome_iff_eq_none]

lemma mem_of_lookup {l : List (κ × α)} {k : κ} {a : α} (h : l.lookup k = some a) : (k,a) ∈ l := by
  induction l with
  | nil => cases h
  | cons r l ih =>
    rw [lookup_cons_ite] at h
    split_ifs at h with hk
    · cases h
      simp [hk]
    · exact List.mem_cons_of_mem r (ih h)

lemma mem_of_get {t : Table κ α} {k : κ} {a : α} (h : t.get k = some a) : (k,a) ∈ t.rows := mem_of_lookup h

lemma get_of_mem {t : Table κ α} {k : κ} {a : α} (h : (k,a) ∈ t.rows) : t.get k = some a := by
  obtain ⟨b,hb⟩ := Option.isSome_iff_exists.mp (mem_keys.mp (List.mem_map_of_mem (f := Prod.fst) h))
  have hab := List.inj_on_of_nodup_map t.nodup (mem_of_get hb) h rfl
  rw [hb, (Prod.mk.inj hab).2]

/-- The order of the rows does not matter. -/
lemma get_of_perm {t u : Table κ α} (h : t.rows.Perm u.rows) (k : κ) : t.get k = u.get k := by
  cases hu : u.get k with
  | none =>
    rw [get_eq_none] at hu ⊢
    rwa [(h.map Prod.fst).mem_iff]
  | some a => exact get_of_mem (h.mem_iff.mpr (mem_of_get hu))

@[simp] lemma get_empty (k : κ) : (empty : Table κ α).get k = none := rfl

@[simp] lemma get_modify (t : Table κ α) (k k' : κ) (f : α → α) :
    (t.modify k f).get k' = if k' = k then (t.get k').map f else t.get k' := by
  have h := lookup_map_snd (l := t.rows) (fun k' a => if k' = k then f a else a) k'
  simp only [get, modify, h]
  split_ifs with hk
  · rfl
  · exact Option.map_id'

@[simp] lemma get_insertNew (t : Table κ α) (k k' : κ) (a : α) :
    (t.insertNew k a).get k' = if k' = k then some ((t.get k').getD a) else t.get k' := by
  by_cases h : k ∈ t.rows.map Prod.fst
  · rw [insertNew, dif_pos h]
    split_ifs with hk
    · obtain ⟨b,hb⟩ := Option.isSome_iff_exists.mp (mem_keys.mp h)
      rw [hk, hb, Option.getD_some]
    · rfl
  · have hnone := get_eq_none.mpr h
    rw [insertNew, dif_neg h]
    simp only [get, List.lookup_append] at hnone ⊢
    split_ifs with hk
    · subst hk
      simp [hnone]
    · simp [lookup_cons_ite, hk]

lemma insertNew_of_isSome {t : Table κ α} {k : κ} (h : (t.get k).isSome) (a : α) : t.insertNew k a = t :=
  dif_pos (mem_keys.mpr h)

@[simp] lemma get_upsert (t : Table κ α) (k k' : κ) (a : α) (f : α → α) :
    (t.upsert k a f).get k' = if k' = k then some ((t.get k').elim a f) else t.get k' := by
  unfold upsert
  split_ifs with h hk hk
  · obtain ⟨b,hb⟩ := Option.isSome_iff_exists.mp (mem_keys.mp h)
    simp [hk, hb]
  · simp [hk]
  · simp [hk, get_eq_none.mpr h]
  · simp [hk]

@[simp] lemma get_updateFrom (t : Table κ α) (us : List (κ × β)) (f : β → α → α) (k : κ) :
    (t.updateFrom us f).get k = (t.get k).map (fun a => (us.lookup k).elim a (fun b => f b a)) :=
  lookup_map_snd (l := t.rows) (fun k a => (us.lookup k).elim a (fun b => f b a)) k

/-- A joined update with distinct keys is a sequence of single-row updates. -/
lemma updateFrom_cons (t : Table κ α) {k : κ} (b : β) {us : List (κ × β)} (f : β → α → α)
    (hk : k ∉ us.map Prod.fst) : t.updateFrom ((k,b) :: us) f = (t.modify k (f b)).updateFrom us f := by
  apply Table.ext
  simp only [updateFrom, modify, List.map_map]
  refine List.map_congr_left (fun r _ => ?_)
  rw [lookup_cons_ite]
  by_cases h : r.1 = k
  · have hnone : us.lookup k = none := lookup_eq_none.mpr hk
    simp [h, hnone]
  · simp [h]

/-! ### Sequences of statements -/

lemma get_isSome_modify (t : Table κ α) (k k' : κ) (f : α → α) : ((t.modify k f).get k').isSome = (t.get k').isSome := by
  rw [get_modify]
  split_ifs <;> simp

lemma modify_eq_self {t : Table κ α} {k : κ} {f : α → α} (h : ∀ a, t.get k = some a → f a = a) : t.modify k f = t := by
  apply Table.ext
  refine (List.map_congr_left (fun r hr => ?_)).trans (List.map_id t.rows)
  by_cases hk : r.1 = k
  · have hrow : t.get k = some r.2 := get_of_mem (hk ▸ hr)
    rw [if_pos hk, h r.2 hrow]
    rfl
  · rw [if_neg hk]
    rfl

lemma modify_of_get_eq_none {t : Table κ α} {k : κ} (h : t.get k = none) (f : α → α) : t.modify k f = t :=
  modify_eq_self (by simp [h])

lemma upsert_eq_self {t : Table κ α} {k : κ} {f : α → α} {b : α} (h : t.get k = some b) (hf : f b = b) (a : α) :
    t.upsert k a f = t := by
  rw [upsert, if_pos (mem_keys.mpr (by rw [h]; rfl))]
  refine modify_eq_self (fun c hc => ?_)
  rw [h, Option.some_inj] at hc
  rw [← hc, hf]

lemma modify_comm (t : Table κ α) {k k' : κ} (h : k ≠ k') (f g : α → α) :
    (t.modify k f).modify k' g = (t.modify k' g).modify k f := by
  apply Table.ext
  simp only [modify, List.map_map]
  refine List.map_congr_left (fun r _ => ?_)
  by_cases hr : r.1 = k
  · have hr' : r.1 ≠ k' := fun he => h (hr.symm.trans he)
    simp [hr, hr ▸ hr']
  · simp [hr]

lemma insertNew_modify (t : Table κ α) {k k' : κ} (h : k ≠ k') (f : α → α) (a : α) :
    (t.modify k f).insertNew k' a = (t.insertNew k' a).modify k f := by
  have hkeys : (t.modify k f).rows.map Prod.fst = t.rows.map Prod.fst := by
    simp [modify]
  by_cases hk : k' ∈ t.rows.map Prod.fst
  · rw [insertNew, dif_pos (hkeys ▸ hk), insertNew, dif_pos hk]
  · rw [insertNew, dif_neg (hkeys ▸ hk), insertNew, dif_neg hk]
    apply Table.ext
    simp [modify, Ne.symm h]

/-- Upserts of a list with distinct keys touch each key once. -/
lemma get_foldl_upsert (t : Table κ α) {us : List (κ × β)} (hn : (us.map Prod.fst).Nodup) (a : β → α) (f : β → α → α)
    (k : κ) : (us.foldl (fun t u => t.upsert u.1 (a u.2) (f u.2)) t).get k =
      (us.lookup k).elim (t.get k) (fun b => some ((t.get k).elim (a b) (f b))) := by
  induction us generalizing t with
  | nil => rfl
  | cons u us ih =>
    rw [List.map_cons, List.nodup_cons] at hn
    rw [List.foldl_cons, ih _ hn.2, get_upsert, lookup_cons_ite]
    by_cases hk : k = u.1
    · have hnone : us.lookup k = none := lookup_eq_none.mpr (hk ▸ hn.1)
      simp [hk, hk ▸ hnone]
    · simp [hk]

/-! ### Sums -/

section Sums
variable {M : Type*} [AddCommGroup M] (w : κ → α → M)

lemma sum_modify (t : Table κ α) (k : κ) (f : α → α) :
    (t.modify k f).sum w = t.sum w + (t.get k).elim 0 (fun a => w k (f a) - w k a) := by
  obtain ⟨rows,hn⟩ := t
  simp only [sum, modify, get, List.map_map]
  induction rows with
  | nil => simp
  | cons r rows ih =>
    rw [List.map_cons, List.nodup_cons] at hn
    rw [List.map_cons, List.map_cons, List.sum_cons, List.sum_cons, ih hn.2, lookup_cons_ite]
    simp only [Function.comp_apply]
    by_cases h : k = r.1
    · have hnone : rows.lookup k = none := lookup_eq_none.mpr (h ▸ hn.1)
      rw [if_pos h.symm, if_pos h, hnone]
      simp only [Option.elim_none, Option.elim_some, h]
      abel
    · rw [if_neg (Ne.symm h), if_neg h]
      abel

lemma sum_insertNew (t : Table κ α) (k : κ) (a : α) :
    (t.insertNew k a).sum w = t.sum w + if t.get k = none then w k a else 0 := by
  by_cases h : k ∈ t.rows.map Prod.fst
  · rw [insertNew, dif_pos h, if_neg (fun hn => get_eq_none.mp hn h), add_zero]
  · rw [insertNew, dif_neg h, if_pos (get_eq_none.mpr h)]
    simp [sum]

lemma sum_upsert (t : Table κ α) (k : κ) (a : α) (f : α → α) :
    (t.upsert k a f).sum w = t.sum w + (t.get k).elim (w k a) (fun b => w k (f b) - w k b) := by
  unfold upsert
  split_ifs with h
  · obtain ⟨b,hb⟩ := Option.isSome_iff_exists.mp (mem_keys.mp h)
    rw [sum_modify, hb]
    rfl
  · have hnone := get_eq_none.mpr h
    rw [sum_insertNew, hnone, if_pos rfl]
    rfl

lemma sum_updateFrom (t : Table κ α) {us : List (κ × β)} (hn : (us.map Prod.fst).Nodup) (f : β → α → α) :
    (t.updateFrom us f).sum w =
      t.sum w + (us.map (fun u => (t.get u.1).elim 0 (fun a => w u.1 (f u.2 a) - w u.1 a))).sum := by
  induction us generalizing t with
  | nil => simp [updateFrom, sum]
  | cons u us ih =>
    obtain ⟨k,b⟩ := u
    rw [List.map_cons, List.nodup_cons] at hn
    rw [updateFrom_cons t b f hn.1, ih _ hn.2, sum_modify, List.map_cons, List.sum_cons, add_assoc]
    congr 3
    refine List.map_congr_left (fun u hu => ?_)
    have hne : u.1 ≠ k := fun he => hn.1 (List.mem_map.mpr ⟨u,hu,he⟩)
    rw [get_modify, if_neg hne]

end Sums

end Table

/-- Work done item by item can be done in two phases, when the second half of an item's work
commutes with the first half of every later item's. -/
theorem foldl_phases {σ ι : Type*} {a b : σ → ι → σ} {I : σ → Prop} (ha : ∀ s x, I s → I (a s x))
    (hb : ∀ s x, I s → I (b s x)) {xs : List ι}
    (hcomm : xs.Pairwise (fun x y => ∀ s, I s → a (b s x) y = b (a s y) x)) {s : σ} (hs : I s) :
    xs.foldl (fun s x => b (a s x) x) s = xs.foldl b (xs.foldl a s) := by
  induction xs generalizing s with
  | nil => rfl
  | cons x xs ih =>
    obtain ⟨hx,hrest⟩ := List.pairwise_cons.mp hcomm
    -- the second half of the head moves behind the first halves of the tail
    have hmove : ∀ (ys : List ι) (t : σ), (∀ y ∈ ys, ∀ s, I s → a (b s x) y = b (a s y) x) → I t →
        ys.foldl a (b t x) = b (ys.foldl a t) x := by
      intro ys
      induction ys with
      | nil => exact fun _ _ _ => rfl
      | cons y ys ihy =>
        intro t hy ht
        rw [List.foldl_cons, List.foldl_cons, hy y (by simp) t ht,
          ihy (a t y) (fun z hz => hy z (by simp [hz])) (ha t y ht)]
    have hax := ha s x hs
    rw [List.foldl_cons, ih hrest (hb _ x hax), List.foldl_cons, List.foldl_cons, hmove xs (a s x) hx hax]

/-- Items that have no effect are passed over. -/
theorem foldl_eq_self {σ ι : Type*} {f : σ → ι → σ} {xs : List ι} {s : σ} (h : ∀ x ∈ xs, f s x = s) : xs.foldl f s = s := by
  induction xs with
  | nil => rfl
  | cons x xs ih => rw [List.foldl_cons, h x (by simp), ih (fun y hy => h y (by simp [hy]))]

section Progress
variable {σ ι ρ : Type*} [Preorder ρ] {f : σ → ι → σ} {rank : σ → ρ}

/-- If every step that has an effect leads upwards, so does a run. -/
theorem foldl_eq_or_lt (h : ∀ s x, f s x = s ∨ rank s < rank (f s x)) (xs : List ι) (s : σ) :
    xs.foldl f s = s ∨ rank s < rank (xs.foldl f s) := by
  induction xs generalizing s with
  | nil => exact .inl rfl
  | cons x xs ih =>
    rw [List.foldl_cons]
    rcases h s x with heq | hlt
    · rw [heq]
      exact ih s
    · rcases ih (f s x) with heq | hlt'
      · rw [heq]
        exact .inr hlt
      · exact .inr (hlt.trans hlt')

/-- A run that comes back had no effect at any item. -/
theorem foldl_progress (h : ∀ s x, f s x = s ∨ rank s < rank (f s x)) {xs : List ι} {s : σ} (hs : xs.foldl f s = s) :
    ∀ x ∈ xs, f s x = s := by
  induction xs with
  | nil => simp
  | cons x xs ih =>
    have hx : f s x = s := by
      refine (h s x).resolve_right (fun hlt => ?_)
      rcases foldl_eq_or_lt h xs (f s x) with heq | hlt'
      · rw [← List.foldl_cons, hs] at heq
        rw [← heq] at hlt
        exact lt_irrefl _ hlt
      · rw [← List.foldl_cons, hs] at hlt'
        exact lt_asymm hlt hlt'
    rw [List.foldl_cons, hx] at hs
    intro y hy
    rcases List.mem_cons.mp hy with rfl | hy
    · exact hx
    · exact ih hs y hy

end Progress

/-- What an item's own step brings about and no step undoes holds of every item at the end. -/
theorem foldl_absorbs {σ ι : Type*} {f : σ → ι → σ} {P : σ → ι → Prop} (hself : ∀ s x, P (f s x) x)
    (hkeep : ∀ s x y, P s x → P (f s y) x) (xs : List ι) (s : σ) : ∀ x ∈ xs, P (xs.foldl f s) x := by
  have hrest : ∀ (ys : List ι) (s : σ) (x : ι), P s x → P (ys.foldl f s) x := by
    intro ys
    induction ys with
    | nil => exact fun _ _ h => h
    | cons y ys ih => exact fun s x h => ih (f s y) x (hkeep s x y h)
  induction xs generalizing s with
  | nil => simp
  | cons x xs ih =>
    intro y hy
    rcases List.mem_cons.mp hy with rfl | hy
    · exact hrest xs (f s y) y (hself s y)
    · exact ih (f s x) y hy

/-- What every successful step keeps holds at the end of a fallible fold. -/
theorem foldlM_invariant {σ ι ε : Type*} {f : σ → ι → Except ε σ} {P : σ → Prop} {xs : List ι}
    (hf : ∀ x ∈ xs, ∀ s s', f s x = .ok s' → P s → P s') {s s' : σ} (h : xs.foldlM f s = .ok s') (hs : P s) : P s' := by
  induction xs generalizing s with
  | nil =>
    cases h
    exact hs
  | cons x xs ih =>
    rw [List.foldlM_cons] at h
    cases hx : f s x with
    | error e =>
      rw [hx] at h
      cases h
    | ok t =>
      rw [hx] at h
      exact ih (fun y hy => hf y (by simp [hy])) h (hf x (by simp) s t hx hs)

end MatchingEngine.Library

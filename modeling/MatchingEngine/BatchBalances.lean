import MatchingEngine.BatchPersist
import MatchingEngine.Library.Withdrawals

/-! The balances table under the two ways of persisting. A single row is followed through the
settlements and releases of the jobs; the batch settles once with the sum and releases after
that. Without negative prices this makes a difference only to a row that the batch itself creates. -/
namespace MatchingEngine
open Library

/-! ### One row -/

/-- A settlement upserts the row. -/
def settleOpt (d : Option (Decimal × Decimal)) (b : Option Balance) : Option Balance :=
  d.elim b (fun d => some (b.elim ⟨d.2,0⟩ (settleRow d)))

/-- A release updates the row if there is one. -/
def releaseOpt (r : Option Decimal) (b : Option Balance) : Option Balance := r.elim b (fun r => b.map (releaseRow r))

/-- What one job does to one row. -/
structure RowEvent where
  settled : Option (Decimal × Decimal)
  released : Option Decimal

/-- Nothing is locked by a settlement or taken by a release. -/
def RowEvent.Nonneg (e : RowEvent) : Prop := (∀ d ∈ e.settled, 0 ≤ d.1) ∧ ∀ r ∈ e.released, 0 ≤ r

def totalSettled (es : List RowEvent) : Option (Decimal × Decimal) :=
  es.foldr (fun e d => e.settled.merge (· + ·) d) none

def releases (b : Option Balance) (es : List RowEvent) : Option Balance :=
  es.foldl (fun b e => releaseOpt e.released b) b

def rowSequential (b : Option Balance) (es : List RowEvent) : Option Balance :=
  es.foldl (fun b e => releaseOpt e.released (settleOpt e.settled b)) b

def rowBatch (b : Option Balance) (es : List RowEvent) : Option Balance := releases (settleOpt (totalSettled es) b) es

/-- Releases add their amounts to an existing row and withdraw them from its locked amount. -/
lemma releases_some (es : List RowEvent) (b : Balance) : releases (some b) es =
    some ⟨b.available + (es.map (fun e => e.released.getD 0)).sum,withdrawAll (es.map RowEvent.released) b.locked⟩ := by
  unfold releases withdrawAll
  induction es generalizing b with
  | nil => simp
  | cons e es ih =>
    rw [List.foldl_cons, List.map_cons, List.map_cons, List.sum_cons, List.foldl_cons]
    cases e.released with
    | none => simpa [releaseOpt, withdraw] using ih b
    | some c => simpa [releaseOpt, withdraw, releaseRow, add_assoc] using ih (releaseRow c b)

lemma releases_none (es : List RowEvent) : releases none es = none := by
  unfold releases
  induction es with
  | nil => rfl
  | cons e es ih =>
    rw [List.foldl_cons]
    cases e.released <;> exact ih

lemma rowSequential_unsettled {es : List RowEvent} (h : ∀ e ∈ es, e.settled = none) : rowSequential none es = none := by
  unfold rowSequential
  induction es with
  | nil => rfl
  | cons e es ih =>
    have he : releaseOpt e.released (settleOpt e.settled none) = none := by
      rw [h e (by simp)]
      cases e.released <;> rfl
    rw [List.foldl_cons, he]
    exact ih (fun x hx => h x (by simp [hx]))

lemma totalSettled_unsettled {es : List RowEvent} (h : ∀ e ∈ es, e.settled = none) (fs : List RowEvent) :
    totalSettled (es ++ fs) = totalSettled fs := by
  induction es with
  | nil => rfl
  | cons e es ih =>
    change e.settled.merge (· + ·) (totalSettled (es ++ fs)) = _
    rw [h e (by simp), Option.merge_none_left, ih (fun x hx => h x (by simp [hx]))]

lemma rowBatch_unsettled {es : List RowEvent} (h : ∀ e ∈ es, e.settled = none) : rowBatch none es = none := by
  have htotal : totalSettled es = none := by
    have := totalSettled_unsettled h []
    rwa [List.append_nil] at this
  rw [rowBatch, htotal]
  exact releases_none es

/-- No job releases an amount on a row before the first job that settles on it. -/
def NoEarlyRelease (es : List RowEvent) : Prop := ∀ pre e post, es = pre ++ e :: post →
  (∀ x ∈ pre, x.settled = none) → e.settled ≠ none → ∀ x ∈ pre, ∀ r ∈ x.released, r = 0

lemma exists_first_settled {es : List RowEvent} (h : ∃ e ∈ es, e.settled ≠ none) :
    ∃ pre e post, es = pre ++ e :: post ∧ (∀ x ∈ pre, x.settled = none) ∧ e.settled ≠ none := by
  obtain ⟨e,he⟩ := Option.isSome_iff_exists.mp (List.find?_isSome.mpr
    (show ∃ x ∈ es, x.settled.isSome by simpa [Option.isSome_iff_ne_none] using h))
  obtain ⟨hs,pre,post,rfl,hpre⟩ := List.find?_eq_some_iff_append.mp he
  exact ⟨pre,e,post,rfl,fun x hx => by simpa using hpre x hx,Option.isSome_iff_ne_none.mp hs⟩

/-- A missing row reads as zero. -/
def readRow (b : Option Balance) : Balance := b.getD ⟨0,0⟩

lemma sum_released_eq_zero {es : List RowEvent} (hn : ∀ e ∈ es, e.Nonneg)
    (h : (es.map (fun e => e.released.getD 0)).sum = 0) : ∀ e ∈ es, ∀ r ∈ e.released, r = 0 := by
  intro e he r hr
  have hnn : ∀ x ∈ es.map (fun e => e.released.getD 0), (0 : ℚ) ≤ x := by
    intro x hx
    obtain ⟨f,hf,rfl⟩ := List.mem_map.mp hx
    cases hfr : f.released with
    | none => exact le_rfl
    | some q => exact (hn f hf).2 q hfr
  have hz := List.all_zero_of_le_zero_le_of_sum_eq_zero hnn h (List.mem_map_of_mem he)
  rw [hr] at hz
  exact hz

/-! ### Any amounts -/

section Amounts

/-- What the jobs take from the locked amount of a row that exists, one after the other. -/
def amounts (es : List RowEvent) : List Decimal := es.flatMap (fun e => (e.settled.map Prod.fst).toList ++ e.released.toList)

/-- What the batch takes from it. -/
def amountsBatch (es : List RowEvent) : List Decimal :=
  ((totalSettled es).map Prod.fst).toList ++ es.filterMap RowEvent.released

/-- What settlements take and bring in total. -/
def settledDebits (es : List RowEvent) : Decimal := (es.map (fun e => (e.settled.map Prod.fst).getD 0)).sum

def settledCredits (es : List RowEvent) : Decimal := (es.map (fun e => (e.settled.map Prod.snd).getD 0)).sum

/-- When the two ways agree on a row. Where it exists, its locked amount must be lifted equally high above
what is taken from it in both orders. Where it is missing, releases before its first settlement must come
to nothing, and what is taken from it after that must be lifted as high as the releases and debits of both. -/
def RowAgrees : Option Balance → List RowEvent → Prop
  | some b, es => highWater b.locked (amounts es) = highWater b.locked (amountsBatch es)
  | none, es => ∀ pre e post, es = pre ++ e :: post → (∀ x ∈ pre, x.settled = none) → e.settled ≠ none →
      (pre.filterMap RowEvent.released).sum = 0 ∧
      highWater 0 (e.released.toList ++ amounts post) = highWater 0 (es.filterMap RowEvent.released) + settledDebits post

lemma totalSettled_getD (es : List RowEvent) : ((totalSettled es).map Prod.fst).getD 0 = settledDebits es ∧
    ((totalSettled es).map Prod.snd).getD 0 = settledCredits es := by
  induction es with
  | nil => exact ⟨rfl,rfl⟩
  | cons e es ih =>
    have hmerge : totalSettled (e :: es) = e.settled.merge (· + ·) (totalSettled es) := rfl
    simp only [settledDebits, settledCredits, List.map_cons, List.sum_cons] at ih ⊢
    rw [hmerge, ← ih.1, ← ih.2]
    cases e.settled <;> cases totalSettled es <;> simp

lemma sum_toList_getD (o : Option Decimal) : o.toList.sum = o.getD 0 := by
  cases o <;> simp

lemma sum_filterMap_released (es : List RowEvent) :
    (es.filterMap RowEvent.released).sum = (es.map (fun e => e.released.getD 0)).sum := by
  induction es with
  | nil => rfl
  | cons e es ih =>
    rw [List.map_cons, List.sum_cons, ← ih]
    cases hr : e.released <;> simp [hr]

lemma amounts_cons (e : RowEvent) (es : List RowEvent) :
    amounts (e :: es) = (e.settled.map Prod.fst).toList ++ e.released.toList ++ amounts es := rfl

lemma sum_amounts (es : List RowEvent) : (amounts es).sum = settledDebits es + (es.filterMap RowEvent.released).sum := by
  rw [sum_filterMap_released]
  induction es with
  | nil => simp [amounts, settledDebits]
  | cons e es ih =>
    simp only [amounts_cons, List.sum_append, sum_toList_getD, ih, settledDebits, List.map_cons, List.sum_cons]
    ring

lemma sum_amountsBatch (es : List RowEvent) : (amountsBatch es).sum = settledDebits es + (es.filterMap RowEvent.released).sum := by
  rw [amountsBatch, List.sum_append, sum_toList_getD, (totalSettled_getD es).1]

lemma rowSequential_some (es : List RowEvent) (b : Balance) : rowSequential (some b) es =
    some ⟨b.available + (settledCredits es + (es.filterMap RowEvent.released).sum),withdrawAll ((amounts es).map some) b.locked⟩ := by
  rw [sum_filterMap_released]
  induction es generalizing b with
  | nil => simp [rowSequential, settledCredits, amounts, withdrawAll]
  | cons e es ih =>
    have hstep : rowSequential (some b) (e :: es) = rowSequential (releaseOpt e.released (settleOpt e.settled (some b))) es := rfl
    rw [hstep, amounts_cons, List.map_append, List.map_append]
    simp only [settledCredits, List.map_cons, List.sum_cons]
    rcases e with ⟨settled,released⟩
    cases settled <;> cases released <;>
      simp only [settleOpt, releaseOpt, Option.elim_none, Option.elim_some, Option.map_some, ih, settledCredits, withdrawAll, withdraw,
        settleRow, releaseRow, Option.map_none, Option.toList_none, Option.toList_some, List.map_nil, List.map_cons,
        List.nil_append, List.foldl_cons, List.cons_append, Option.getD_none, Option.getD_some,
        Option.some.injEq, Balance.mk.injEq, and_true] <;> ring

lemma releases_some_eq (es : List RowEvent) (b : Balance) : releases (some b) es =
    some ⟨b.available + (es.filterMap RowEvent.released).sum,withdrawAll ((es.filterMap RowEvent.released).map some) b.locked⟩ := by
  have hskipped : (es.map RowEvent.released).reduceOption = es.filterMap RowEvent.released := by
    rw [List.reduceOption, List.filterMap_map]
    rfl
  rw [releases_some, withdrawAll_reduceOption, hskipped, sum_filterMap_released]

lemma rowBatch_some (es : List RowEvent) (b : Balance) : rowBatch (some b) es =
    some ⟨b.available + (settledCredits es + (es.filterMap RowEvent.released).sum),withdrawAll ((amountsBatch es).map some) b.locked⟩ := by
  rw [rowBatch, amountsBatch, ← (totalSettled_getD es).2]
  cases totalSettled es with
  | none => simp [settleOpt, releases_some_eq]
  | some d =>
    simp only [settleOpt, Option.elim_some, releases_some_eq, settleRow]
    simp [withdrawAll, withdraw, add_assoc]

lemma rowBatch_none_iff {pre post : List RowEvent} {e : RowEvent} (hpre : ∀ x ∈ pre, x.settled = none) (he : e.settled ≠ none) :
    readRow (rowBatch none (pre ++ e :: post)) = readRow (rowSequential none (pre ++ e :: post)) ↔
      (pre.filterMap RowEvent.released).sum = 0 ∧ highWater 0 (e.released.toList ++ amounts post) =
        highWater 0 ((pre ++ e :: post).filterMap RowEvent.released) + settledDebits post := by
  obtain ⟨d,hd⟩ := Option.ne_none_iff_exists'.mp he
  have htotal := totalSettled_unsettled hpre (e :: post)
  have hcredits : settledCredits (e :: post) = d.2 + settledCredits post := by simp [settledCredits, hd]
  obtain ⟨D,hD⟩ : ∃ D, totalSettled (e :: post) = some D := by
    change ∃ D, e.settled.merge (· + ·) (totalSettled post) = some D
    rw [hd]
    cases totalSettled post <;> exact ⟨_,rfl⟩
  have hbatch : rowBatch none (pre ++ e :: post) = releases (some ⟨d.2 + settledCredits post,0⟩) (pre ++ e :: post) := by
    have hD₂ : D.2 = d.2 + settledCredits post := by
      rw [← hcredits, ← (totalSettled_getD (e :: post)).2, hD]
      rfl
    rw [rowBatch, htotal, hD, ← hD₂]
    rfl
  have hseq : rowSequential none (pre ++ e :: post) = rowSequential (some ⟨d.2,0⟩) (⟨none,e.released⟩ :: post) := by
    have hp := rowSequential_unsettled hpre
    unfold rowSequential at hp ⊢
    rw [List.foldl_append, hp, List.foldl_cons, hd]
    rfl
  have hamounts : amounts (⟨none,e.released⟩ :: post) = e.released.toList ++ amounts post := rfl
  have hcredits' : settledCredits (⟨none,e.released⟩ :: post) = settledCredits post := by simp [settledCredits]
  have hdebits' : settledDebits (⟨none,e.released⟩ :: post) = settledDebits post := by simp [settledDebits]
  have hsum : ((pre ++ e :: post).filterMap RowEvent.released).sum = (pre.filterMap RowEvent.released).sum +
      ((⟨none,e.released⟩ :: post : List RowEvent).filterMap RowEvent.released).sum := by
    rw [List.filterMap_append, List.sum_append]
    rfl
  rw [hbatch, hseq, releases_some_eq, rowSequential_some, ← hamounts]
  simp only [readRow, Option.getD_some, Balance.mk.injEq, withdrawAll_some, sum_amounts, hcredits', hdebits', hsum]
  constructor
  · rintro ⟨havailable,hlocked⟩
    exact ⟨by linarith,by linarith⟩
  · rintro ⟨hearly,hwater⟩
    exact ⟨by linarith,by linarith⟩

/-- Whether the tables agree on a row, whatever the signs of the amounts. -/
theorem rowBatch_eq_iff (b : Option Balance) (es : List RowEvent) :
    readRow (rowBatch b es) = readRow (rowSequential b es) ↔ RowAgrees b es := by
  cases b with
  | some b =>
    rw [rowBatch_some, rowSequential_some]
    simp only [readRow, Option.getD_some, Balance.mk.injEq, true_and, withdrawAll_some, sum_amounts, sum_amountsBatch,
      sub_left_inj, RowAgrees]
    exact eq_comm
  | none =>
    constructor
    · rintro heq pre e post rfl hpre he
      exact (rowBatch_none_iff hpre he).mp heq
    · intro hagrees
      by_cases hany : ∃ e ∈ es, e.settled ≠ none
      · obtain ⟨pre,e,post,rfl,hpre,he⟩ := exists_first_settled hany
        exact (rowBatch_none_iff hpre he).mpr (hagrees pre e post rfl hpre he)
      · push Not at hany
        rw [rowSequential_unsettled hany, rowBatch_unsettled hany]

lemma totalSettled_nonneg {es : List RowEvent} (h : ∀ e ∈ es, e.Nonneg) : ∀ d ∈ totalSettled es, 0 ≤ d.1 := by
  induction es with
  | nil => simp [totalSettled]
  | cons e es ih =>
    have he := (h e (by simp)).1
    have ht := ih (fun x hx => h x (by simp [hx]))
    change ∀ d ∈ e.settled.merge (· + ·) (totalSettled es), 0 ≤ d.1
    cases hs : e.settled with
    | none => simpa using ht
    | some d =>
      rw [hs] at he
      cases hts : totalSettled es with
      | none => simpa using he
      | some d' =>
        rw [hts] at ht
        rintro x ⟨⟩
        exact add_nonneg (he d rfl) (ht d' rfl)

lemma amounts_nonneg {es : List RowEvent} (h : ∀ e ∈ es, e.Nonneg) : ∀ d ∈ amounts es, 0 ≤ d := by
  intro d hd
  obtain ⟨e,he,hd⟩ := List.mem_flatMap.mp hd
  obtain ⟨hsettled,hreleased⟩ := h e he
  rcases List.mem_append.mp hd with hd | hd
  · obtain ⟨x,hx,rfl⟩ := Option.map_eq_some_iff.mp (Option.mem_toList.mp hd)
    exact hsettled x hx
  · exact hreleased d (Option.mem_toList.mp hd)

lemma released_nonneg {es : List RowEvent} (h : ∀ e ∈ es, e.Nonneg) : ∀ d ∈ es.filterMap RowEvent.released, 0 ≤ d := by
  intro d hd
  obtain ⟨e,he,hd⟩ := List.mem_filterMap.mp hd
  exact (h e he).2 d hd

lemma amountsBatch_nonneg {es : List RowEvent} (h : ∀ e ∈ es, e.Nonneg) : ∀ d ∈ amountsBatch es, 0 ≤ d := by
  intro d hd
  rcases List.mem_append.mp hd with hd | hd
  · obtain ⟨x,hx,rfl⟩ := Option.map_eq_some_iff.mp (Option.mem_toList.mp hd)
    exact totalSettled_nonneg h x hx
  · exact released_nonneg h d hd

lemma amounts_eq_nil_iff (es : List RowEvent) : amounts es = [] ↔ amountsBatch es = [] := by
  have htotal : totalSettled es = none ↔ ∀ e ∈ es, e.settled = none := by
    refine ⟨fun h => ?_,fun h => by simpa [totalSettled] using totalSettled_unsettled h []⟩
    by_contra hany
    push Not at hany
    obtain ⟨pre,e,post,rfl,hpre,he⟩ := exists_first_settled hany
    obtain ⟨d,hd⟩ := Option.ne_none_iff_exists'.mp he
    rw [totalSettled_unsettled hpre] at h
    change e.settled.merge (· + ·) (totalSettled post) = none at h
    rw [hd] at h
    cases hpost : totalSettled post <;> rw [hpost] at h <;> cases h
  simp only [amounts, amountsBatch, List.flatMap_eq_nil_iff, List.append_eq_nil_iff, Option.toList_eq_nil_iff,
    Option.map_eq_none_iff, List.filterMap_eq_nil_iff, htotal, forall_and]

/-- Without negative amounts only a release before its row counts. -/
theorem rowAgrees_iff {es : List RowEvent} (hn : ∀ e ∈ es, e.Nonneg) (b : Option Balance) :
    RowAgrees b es ↔ (b = none → NoEarlyRelease es) := by
  cases b with
  | some b =>
    refine iff_of_true ?_ (fun h => by cases h)
    by_cases hne : amounts es = []
    · rw [RowAgrees, hne, (amounts_eq_nil_iff es).mp hne]
    · have hne' : amountsBatch es ≠ [] := fun h => hne ((amounts_eq_nil_iff es).mpr h)
      rw [RowAgrees, highWater_of_nonneg (amounts_nonneg hn) hne, highWater_of_nonneg (amountsBatch_nonneg hn) hne',
        sum_amounts, sum_amountsBatch]
  | none =>
    have hwater : ∀ ds : List Decimal, (∀ d ∈ ds, 0 ≤ d) → highWater 0 ds = ds.sum := by
      intro ds hds
      by_cases hne : ds = []
      · rw [hne]
        rfl
      · rw [highWater_of_nonneg hds hne, max_eq_right (List.sum_nonneg hds)]
    simp only [RowAgrees, NoEarlyRelease, true_implies]
    refine forall_congr' (fun pre => forall_congr' (fun e => forall_congr' (fun post => forall_congr' (fun hes => ?_))))
    subst hes
    refine forall_congr' (fun hpre => forall_congr' (fun _ => ?_))
    have hnpre : ∀ x ∈ pre, x.Nonneg := fun x hx => hn x (by simp [hx])
    have hnlater : ∀ x ∈ (⟨none,e.released⟩ :: post : List RowEvent), x.Nonneg := by
      intro x hx
      rcases List.mem_cons.mp hx with rfl | hx
      · exact ⟨by simp,(hn e (by simp)).2⟩
      · exact hn x (by simp [hx])
    have hlater : e.released.toList ++ amounts post = amounts (⟨none,e.released⟩ :: post) := rfl
    have hdebits : settledDebits (⟨none,e.released⟩ :: post) = settledDebits post := by simp [settledDebits]
    have hsum : ((pre ++ e :: post).filterMap RowEvent.released).sum = (pre.filterMap RowEvent.released).sum +
        ((⟨none,e.released⟩ :: post : List RowEvent).filterMap RowEvent.released).sum := by
      rw [List.filterMap_append, List.sum_append]
      rfl
    rw [hlater, hwater _ (amounts_nonneg hnlater), hwater _ (released_nonneg hn), sum_amounts, hdebits, hsum]
    constructor
    · rintro ⟨hearly,_⟩
      rw [sum_filterMap_released] at hearly
      exact sum_released_eq_zero hnpre hearly
    · intro hearly
      have hzero : (pre.filterMap RowEvent.released).sum = 0 := by
        refine List.sum_eq_zero (fun d hd => ?_)
        obtain ⟨x,hx,hd⟩ := List.mem_filterMap.mp hd
        exact hearly x hx d hd
      exact ⟨hzero,by rw [hzero]; ring⟩

end Amounts

/-! ### The settlement map of a batch -/

lemma merge_add_assoc (a b c : Option (Decimal × Decimal)) :
    (a.merge (· + ·) b).merge (· + ·) c = a.merge (· + ·) (b.merge (· + ·) c) := by
  cases a <;> cases b <;> cases c <;> simp [add_assoc]

lemma Deltas.get_add (d : Deltas) (k k' : String × String) (x : Decimal × Decimal) :
    (d.add k x).get k' = if k' = k then (d.get k').merge (· + ·) (some x) else d.get k' := by
  rw [Deltas.add, Table.get_upsert]
  split_ifs
  · cases d.get k' <;> rfl
  · rfl

/-- A map that starts with entries of its own ends with them added. -/
def Deltas.Shifted (c : String × String → Option (Decimal × Decimal)) (d e : Deltas) : Prop :=
  ∀ k, d.get k = (c k).merge (· + ·) (e.get k)

lemma Deltas.Shifted.add {c : String × String → Option (Decimal × Decimal)} {d e : Deltas} (h : Deltas.Shifted c d e)
    (k : String × String) (x : Decimal × Decimal) : Deltas.Shifted c (d.add k x) (e.add k x) := by
  intro k'
  rw [Deltas.get_add, Deltas.get_add, h k']
  split_ifs
  · rw [merge_add_assoc]
  · rfl

lemma Deltas.Shifted.foldlM {c : String × String → Option (Decimal × Decimal)} {ts : List Trade} {d e e' : Deltas}
    (h : Deltas.Shifted c d e) (he : ts.foldlM addTradeDeltas e = .ok e') :
    ∃ d', ts.foldlM addTradeDeltas d = .ok d' ∧ Deltas.Shifted c d' e' := by
  induction ts generalizing d e with
  | nil =>
    cases he
    exact ⟨d,rfl,h⟩
  | cons t ts ih =>
    rw [List.foldlM_cons] at he
    cases ht : addTradeDeltas e t with
    | error x =>
      rw [ht] at he
      cases he
    | ok e₁ =>
      rw [ht] at he
      obtain ⟨base,quote,hp,rfl⟩ := addTradeDeltas_ok ht
      obtain ⟨d',hd',hs⟩ := ih ((((h.add _ _).add _ _).add _ _).add _ _ : Deltas.Shifted c (d.addTrade t base quote) _) he
      refine ⟨d',?_,hs⟩
      rw [List.foldlM_cons, addTradeDeltas_eq d hp]
      exact hd'

lemma balanceDeltas_append {ts us : List Trade} {d e : Deltas} (hd : balanceDeltas ts = .ok d)
    (he : balanceDeltas us = .ok e) :
    ∃ d', balanceDeltas (ts ++ us) = .ok d' ∧ ∀ k, d'.get k = (d.get k).merge (· + ·) (e.get k) := by
  have hstart : Deltas.Shifted (fun k => d.get k) d Table.empty := fun k => by simp
  obtain ⟨d',hd',hs⟩ := hstart.foldlM he
  refine ⟨d',?_,hs⟩
  unfold balanceDeltas at hd ⊢
  rw [List.foldlM_append, hd]
  exact hd'

lemma balanceDeltas_nonneg {ts : List Trade} {d : Deltas} (hts : ∀ t ∈ ts, 0 ≤ t.price ∧ 0 ≤ t.quantity)
    (h : balanceDeltas ts = .ok d) : ∀ k, ∀ x ∈ d.get k, 0 ≤ x.1 := by
  have hadd : ∀ (d : Deltas) k x, 0 ≤ x.1 → (∀ k, ∀ y ∈ d.get k, 0 ≤ y.1) → ∀ k', ∀ y ∈ (d.add k x).get k', 0 ≤ y.1 := by
    intro d k x hx hd k' y hy
    rw [Deltas.get_add] at hy
    split_ifs at hy
    · cases hk : d.get k' with
      | none =>
        rw [hk] at hy
        cases hy
        exact hx
      | some z =>
        rw [hk] at hy
        cases hy
        exact add_nonneg (hd k' z hk) hx
    · exact hd k' y hy
  refine foldlM_invariant (P := fun d => ∀ k, ∀ x ∈ Table.get d k, 0 ≤ x.1) (fun t ht d d' hd h0 => ?_) h (by simp)
  obtain ⟨base,quote,_,rfl⟩ := addTradeDeltas_ok hd
  obtain ⟨hp,hq⟩ := hts t ht
  exact hadd _ _ _ le_rfl (hadd _ _ _ hq (hadd _ _ _ le_rfl (hadd _ _ _ (mul_nonneg hp hq) h0)))

/-- What a job's trades settle on a row. -/
def Matched.settledAt (job : Matched) (k : String × String) : Option (Decimal × Decimal) :=
  (balanceDeltas job.trades).toOption.bind (fun d => d.get k)

/-- What an order's release gives back on a row. -/
def Order.releasedAt (o : Order) (k : String × String) : Option Decimal :=
  if o.NeedsRelease then
    (releaseParams o).toOption.bind (fun p => if (o.userId,p.1) = k then some p.2 else none)
  else none

def Matched.eventAt (job : Matched) (k : String × String) : RowEvent := ⟨job.settledAt k,job.order.releasedAt k⟩

/-- The pairs in a job parse. -/
def Matched.Parses (job : Matched) : Prop :=
  (∃ d, balanceDeltas job.trades = .ok d) ∧ ∃ p, releaseParams job.order = .ok p

lemma balanceDeltas_flatMap {jobs : List PersistJob} (h : ∀ job ∈ jobs, job.Parses) :
    ∃ d, balanceDeltas (jobs.flatMap Matched.trades) = .ok d ∧
      ∀ k, d.get k = totalSettled (jobs.map (fun job => job.eventAt k)) := by
  induction jobs with
  | nil => exact ⟨Table.empty,rfl,fun k => rfl⟩
  | cons job jobs ih =>
    obtain ⟨e,he,hes⟩ := ih (fun x hx => h x (by simp [hx]))
    obtain ⟨d,hd⟩ := (h job (by simp)).1
    obtain ⟨d',hd',hs⟩ := balanceDeltas_append hd he
    refine ⟨d',hd',fun k => ?_⟩
    have hjob : (job.eventAt k).settled = d.get k := by
      change (balanceDeltas job.trades).toOption.bind _ = _
      rw [hd]
      rfl
    rw [hs k, hes k, ← hjob]
    rfl

end MatchingEngine

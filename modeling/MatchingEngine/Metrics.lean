import MatchingEngine.Debouncer
import MatchingEngine.Library.Ranks

/-! The api worker's metrics. Every order counts itself and its trades and leaves a latency sample in a
batch; a flush task takes the batch over into Valkey from time to time, where the percentiles are
computed from the last samples. -/
namespace MatchingEngine
open Library

/-- `metrics:{pair}:orders` and `metrics:{pair}:trades`. -/
inductive MetricKey
  | orders
  | trades
  deriving DecidableEq

/-- What a call of `record_order` does to the batch, and what a flush does to Valkey. -/
inductive MetricWrite
  | add (k : MetricKey) (i : Fin 3) (n : ℕ)
  | sample (i : Fin 3) (ms : ℕ)
  deriving DecidableEq

namespace MetricWrite

def amount (k : MetricKey) (i : Fin 3) : MetricWrite → ℕ
  | add k' i' n => if k' = k ∧ i' = i then n else 0
  | sample _ _ => 0

def sampleOf (i : Fin 3) : MetricWrite → Option ℕ
  | add _ _ _ => none
  | sample i' ms => if i' = i then some ms else none

end MetricWrite

/-- All that a list of writes adds to a counter. -/
def total (k : MetricKey) (i : Fin 3) (ws : List MetricWrite) : ℕ := (ws.map (MetricWrite.amount k i)).sum

@[simp] lemma total_nil (k : MetricKey) (i : Fin 3) : total k i [] = 0 := rfl

@[simp] lemma total_cons (k : MetricKey) (i : Fin 3) (w : MetricWrite) (ws : List MetricWrite) :
    total k i (w :: ws) = w.amount k i + total k i ws := by
  simp [total]

@[simp] lemma total_append (k : MetricKey) (i : Fin 3) (ws ws' : List MetricWrite) :
    total k i (ws ++ ws') = total k i ws + total k i ws' := by
  simp [total]

/-- The steps of one call. -/
def recordOrder (pairId : String) (tradeCount luaMs : ℕ) : List MetricWrite :=
  let i := MetricsBatch.pairIndex pairId
  [.add .orders i 1] ++ (if 0 < tradeCount then [.add .trades i tradeCount] else []) ++ [.sample i luaMs]

/-- A sample more; the older half goes when there are too many. -/
def pushCapped (samples : List ℕ) (ms : ℕ) : List ℕ :=
  if 1000 < (samples ++ [ms]).length then (samples ++ [ms]).drop 500 else samples ++ [ms]

/-- `LPUSH` and `LTRIM 0 999`. -/
def pushSample (latency : List ℕ) (ms : ℕ) : List ℕ := (ms :: latency).take 1000

/-- `LRANGE 0 count-1`, where -1 is the end of the list. -/
def getLatencySamples (latency : List ℕ) (count : ℕ) : List ℕ := if count = 0 then latency else latency.take count

/-- The calls in progress; the batch; what the flush has taken and not written yet; Valkey, the latest
sample first; and for the record the calls, the samples in the order in which they came, and the writes
that failed. -/
structure Metrics where
  tasks : List (List MetricWrite)
  counts : MetricKey → Fin 3 → ℕ
  samples : Fin 3 → List ℕ
  held : List MetricWrite
  valkey : MetricKey → Fin 3 → ℕ
  latency : Fin 3 → List ℕ
  called : List MetricWrite
  sampled : Fin 3 → List ℕ
  lost : List MetricWrite

namespace Metrics

/-- A call begins, or makes its next step; the flush swaps a counter for zero, drains samples, and writes
what it took, or fails to. -/
inductive Action
  | call (pairId : String) (tradeCount luaMs : ℕ)
  | advance (j : ℕ)
  | swap (k : MetricKey) (i : Fin 3)
  | drain (i : Fin 3)
  | write
  | lose

def start (valkey : MetricKey → Fin 3 → ℕ) : Metrics :=
  ⟨[],fun _ _ => 0,fun _ => [],[],valkey,fun _ => [],[],fun _ => [],[]⟩

/-- One step of a call. -/
def record (s : Metrics) : MetricWrite → Metrics
  | .add k i n => { s with counts := Function.update s.counts k (Function.update (s.counts k) i (s.counts k i + n)) }
  | .sample i ms => { s with
      samples := Function.update s.samples i (pushCapped (s.samples i) ms)
      sampled := Function.update s.sampled i (s.sampled i ++ [ms]) }

/-- One write to Valkey. -/
def flushWrite (s : Metrics) : MetricWrite → Metrics
  | .add k i n => { s with valkey := Function.update s.valkey k (Function.update (s.valkey k) i (s.valkey k i + n)) }
  | .sample i ms => { s with latency := Function.update s.latency i (pushSample (s.latency i) ms) }

def step (s : Metrics) : Action → Metrics
  | .call pairId tradeCount luaMs => { s with
      tasks := s.tasks ++ [recordOrder pairId tradeCount luaMs]
      called := s.called ++ recordOrder pairId tradeCount luaMs }
  | .advance j =>
    match s.tasks[j]? with
    | some (w :: ws) => record { s with tasks := s.tasks.set j ws } w
    | _ => s
  | .swap k i => { s with
      counts := Function.update s.counts k (Function.update (s.counts k) i 0)
      held := s.held ++ (if 0 < s.counts k i then [.add k i (s.counts k i)] else []) }
  | .drain i => { s with
      samples := Function.update s.samples i []
      held := s.held ++ (s.samples i).map (MetricWrite.sample i) }
  | .write =>
    match s.held with
    | [] => s
    | w :: ws => flushWrite { s with held := ws } w
  | .lose =>
    match s.held with
    | [] => s
    | w :: ws => { s with held := ws, lost := s.lost ++ [w] }

def run (s : Metrics) (actions : List Action) : Metrics := actions.foldl step s

@[simp] lemma run_nil (s : Metrics) : s.run [] = s := rfl

@[simp] lemma run_cons (s : Metrics) (a : Action) (actions : List Action) : s.run (a :: actions) = (s.step a).run actions := rfl

/-! ### Counters -/

/-- Everything that was counted is in Valkey, on its way there, still to be counted, or lost. -/
def Accounted (before : MetricKey → Fin 3 → ℕ) (s : Metrics) : Prop :=
  ∀ k i, s.valkey k i + total k i s.held + s.counts k i + total k i s.tasks.flatten + total k i s.lost = before k i + total k i s.called

lemma total_set_flatten {tasks : List (List MetricWrite)} {j : ℕ} {w : MetricWrite} {ws : List MetricWrite} (h : tasks[j]? = some (w :: ws))
    (k : MetricKey) (i : Fin 3) : total k i (tasks.set j ws).flatten + w.amount k i = total k i tasks.flatten := by
  induction tasks generalizing j with
  | nil => simp at h
  | cons t tasks ih =>
    cases j with
    | zero =>
      obtain rfl : t = w :: ws := by simpa using h
      simp only [List.set_cons_zero, List.flatten_cons, total_append, total_cons]
      omega
    | succ j =>
      have hrest := ih (j := j) (by simpa using h)
      simp only [List.set_cons_succ, List.flatten_cons, total_append]
      omega

lemma update_counter (counts : MetricKey → Fin 3 → ℕ) (k k' : MetricKey) (i i' : Fin 3) (n : ℕ) :
    Function.update counts k' (Function.update (counts k') i' n) k i = if k' = k ∧ i' = i then n else counts k i := by
  by_cases hk : k' = k
  · subst hk
    by_cases hi : i' = i
    · subst hi
      simp
    · simp [hi, Function.update_of_ne (Ne.symm hi)]
  · simp [hk, Function.update_of_ne (Ne.symm hk)]

lemma update_add (counts : MetricKey → Fin 3 → ℕ) (k k' : MetricKey) (i i' : Fin 3) (n : ℕ) :
    Function.update counts k' (Function.update (counts k') i' (counts k' i' + n)) k i = counts k i + (MetricWrite.add k' i' n).amount k i := by
  rw [update_counter, MetricWrite.amount]
  split
  · rename_i hsame
    obtain ⟨rfl,rfl⟩ := hsame
    rfl
  · rfl

lemma update_zero (counts : MetricKey → Fin 3 → ℕ) (k k' : MetricKey) (i i' : Fin 3) :
    Function.update counts k' (Function.update (counts k') i' 0) k i + (MetricWrite.add k' i' (counts k' i')).amount k i = counts k i := by
  rw [update_counter, MetricWrite.amount]
  split
  · rename_i hsame
    obtain ⟨rfl,rfl⟩ := hsame
    exact Nat.zero_add _
  · rfl

lemma total_taken (k k' : MetricKey) (i i' : Fin 3) (n : ℕ) :
    total k i (if 0 < n then [.add k' i' n] else []) = (MetricWrite.add k' i' n).amount k i := by
  cases n with
  | zero => simp [MetricWrite.amount]
  | succ n => simp

lemma record_accounts (s : Metrics) (w : MetricWrite) (k : MetricKey) (i : Fin 3) :
    (s.record w).counts k i = s.counts k i + w.amount k i := by
  cases w with
  | add k' i' n => exact update_add s.counts k k' i i' n
  | sample i' ms => rfl

lemma flushWrite_accounts (s : Metrics) (w : MetricWrite) (k : MetricKey) (i : Fin 3) :
    (s.flushWrite w).valkey k i = s.valkey k i + w.amount k i := by
  cases w with
  | add k' i' n => exact update_add s.valkey k k' i i' n
  | sample i' ms => rfl

lemma record_eq (s : Metrics) (w : MetricWrite) :
    s.record w = { s with counts := (s.record w).counts, samples := (s.record w).samples, sampled := (s.record w).sampled } := by
  cases w <;> rfl

lemma flushWrite_eq (s : Metrics) (w : MetricWrite) :
    s.flushWrite w = { s with valkey := (s.flushWrite w).valkey, latency := (s.flushWrite w).latency } := by
  cases w <;> rfl

lemma total_samples (k : MetricKey) (i i' : Fin 3) (samples : List ℕ) : total k i (samples.map (MetricWrite.sample i')) = 0 := by
  induction samples with
  | nil => rfl
  | cons ms samples ih => simp [ih, MetricWrite.amount]

lemma Accounted.step {before : MetricKey → Fin 3 → ℕ} {s : Metrics} (hs : s.Accounted before) (a : Action) :
    (s.step a).Accounted before := by
  intro k i
  have hki := hs k i
  cases a with
  | call pairId tradeCount luaMs =>
    simp only [Metrics.step, List.flatten_append, List.flatten_cons, List.flatten_nil, List.append_nil, total_append]
    omega
  | advance j =>
    simp only [Metrics.step]
    split
    · rename_i w ws htask
      have hrest := total_set_flatten htask k i
      rw [record_accounts, record_eq]
      dsimp only
      omega
    · exact hki
  | swap k' i' =>
    have hzero := update_zero s.counts k k' i i'
    simp only [Metrics.step, total_append, total_taken]
    omega
  | drain i' =>
    simp only [Metrics.step, total_append, total_samples]
    omega
  | write =>
    simp only [Metrics.step]
    split
    · exact hki
    · rename_i w ws hheld
      rw [hheld, total_cons] at hki
      rw [flushWrite_accounts, flushWrite_eq]
      dsimp only
      omega
  | lose =>
    simp only [Metrics.step]
    split
    · exact hki
    · rename_i w ws hheld
      rw [hheld, total_cons] at hki
      simp only [total_append, total_cons, total_nil]
      omega

lemma Accounted.run {before : MetricKey → Fin 3 → ℕ} {s : Metrics} (hs : s.Accounted before) (actions : List Action) :
    (s.run actions).Accounted before := by
  induction actions generalizing s with
  | nil => exact hs
  | cons a actions ih => exact ih (hs.step a)

/-- No order and no trade is counted twice or forgotten, however the calls' steps and the flush's are
interleaved; only what the flush failed to write is missing. -/
theorem metrics_account (before : MetricKey → Fin 3 → ℕ) (actions : List Action) (k : MetricKey) (i : Fin 3) :
    let s := (start before).run actions
    s.valkey k i + total k i s.held + s.counts k i + total k i s.tasks.flatten + total k i s.lost = before k i + total k i s.called := by
  have hstart : (start before).Accounted before := fun k i => by simp [start]
  exact hstart.run actions k i

/-! ### Latency samples -/

/-- The samples of a pair that are in Valkey or on their way there, the oldest first. -/
def kept (s : Metrics) (i : Fin 3) : List ℕ := (s.latency i).reverse ++ s.held.filterMap (MetricWrite.sampleOf i) ++ s.samples i

/-- The batch holds the newest samples; what is kept has the order in which the samples came; and the
newest 501 are kept as long as no write fails. -/
structure Retained (i : Fin 3) (s : Metrics) : Prop where
  recent : s.samples i <:+ s.sampled i
  order : (s.kept i).Sublist (s.sampled i)
  newest : s.lost.filterMap (MetricWrite.sampleOf i) = [] →
    ∃ t, t <:+ s.sampled i ∧ t <:+ s.kept i ∧ min 501 (s.sampled i).length ≤ t.length

lemma suffix_append_right {α : Type*} {a b : List α} (h : a <:+ b) (c : List α) : a ++ c <:+ b ++ c := by
  obtain ⟨front,rfl⟩ := h
  exact ⟨front,by simp⟩

/-- A common end survives when a list loses part of its front, but keeps `n` values. -/
lemma common_suffix {α : Type*} {a a' t r : List α} (ha : a' <:+ a) (ht : t <:+ a) (hr : t <:+ r) {n : ℕ} (hn : n ≤ t.length)
    (hkeep : n ≤ a'.length) : ∃ t', t' <:+ r ∧ t' <:+ a' ∧ n ≤ t'.length := by
  rcases Nat.le_total t.length a'.length with hle | hle
  · exact ⟨t,hr,List.suffix_of_suffix_length_le ht ha hle,hn⟩
  · exact ⟨a',(List.suffix_of_suffix_length_le ha ht hle).trans hr,List.suffix_refl a',hkeep⟩

lemma pushCapped_suffix (samples : List ℕ) (ms : ℕ) : pushCapped samples ms <:+ samples ++ [ms] := by
  unfold pushCapped
  split
  · exact List.drop_suffix 500 _
  · exact List.suffix_refl _

lemma pushSample_suffix (latency : List ℕ) (ms : ℕ) : (pushSample latency ms).reverse <:+ latency.reverse ++ [ms] := by
  have h := List.reverse_suffix.mpr (List.take_prefix 1000 (ms :: latency))
  rwa [List.reverse_cons] at h

lemma Retained.sample {i : Fin 3} {s : Metrics} (hs : s.Retained i) (ms : ℕ) : (s.record (.sample i ms)).Retained i := by
  obtain ⟨hrecent,horder,hnewest⟩ := hs
  simp only [record]
  have hrecent' : pushCapped (s.samples i) ms <:+ s.sampled i ++ [ms] :=
    (pushCapped_suffix _ _).trans (suffix_append_right hrecent [ms])
  have hkept : ∀ front : List ℕ, (front ++ pushCapped (s.samples i) ms).Sublist (front ++ s.samples i ++ [ms]) := by
    intro front
    rw [List.append_assoc]
    exact (List.Sublist.refl front).append (pushCapped_suffix _ _).sublist
  refine ⟨by simpa using hrecent',?_,?_⟩
  · simp only [kept, Function.update_self] at horder ⊢
    exact (hkept _).trans (horder.append (List.Sublist.refl [ms]))
  · intro hlost
    obtain ⟨t,htsampled,htkept,hlen⟩ := hnewest hlost
    simp only [kept, Function.update_self] at htkept ⊢
    by_cases hcap : 1000 < (s.samples i ++ [ms]).length
    · -- the batch itself has 501
      refine ⟨pushCapped (s.samples i) ms,hrecent',List.suffix_append _ _,?_⟩
      unfold pushCapped
      rw [if_pos hcap, List.length_drop]
      omega
    · have hpush : pushCapped (s.samples i) ms = s.samples i ++ [ms] := if_neg hcap
      refine ⟨t ++ [ms],suffix_append_right htsampled [ms],?_,?_⟩
      · rw [hpush, ← List.append_assoc]
        exact suffix_append_right htkept [ms]
      · rw [List.length_append, List.length_append, List.length_singleton]
        omega

lemma Retained.write {i : Fin 3} {s : Metrics} (hs : s.Retained i) {ms : ℕ} {ws : List MetricWrite} (hheld : s.held = .sample i ms :: ws) :
    (flushWrite { s with held := ws } (.sample i ms)).Retained i := by
  obtain ⟨hrecent,horder,hnewest⟩ := hs
  have hmoved : s.kept i = (s.latency i).reverse ++ [ms] ++ (ws.filterMap (MetricWrite.sampleOf i) ++ s.samples i) := by
    simp [kept, hheld, MetricWrite.sampleOf]
  have hsuffix : (pushSample (s.latency i) ms).reverse ++ (ws.filterMap (MetricWrite.sampleOf i) ++ s.samples i) <:+ s.kept i := by
    rw [hmoved]
    exact suffix_append_right (pushSample_suffix _ _) _
  simp only [flushWrite]
  refine ⟨hrecent,?_,?_⟩
  · simp only [kept, Function.update_self, List.append_assoc] at hsuffix ⊢
    exact hsuffix.sublist.trans (by simpa [kept] using horder)
  · intro hlost
    obtain ⟨t,htsampled,htkept,hlen⟩ := hnewest hlost
    simp only [kept, Function.update_self]
    rw [List.append_assoc]
    by_cases htrim : (ms :: s.latency i).length ≤ 1000
    · -- nothing is trimmed
      have hsame : (pushSample (s.latency i) ms).reverse = (s.latency i).reverse ++ [ms] := by
        unfold pushSample
        rw [List.take_of_length_le htrim, List.reverse_cons]
      rw [hsame, ← hmoved]
      exact ⟨t,htsampled,htkept,hlen⟩
    · have hfull : (pushSample (s.latency i) ms).reverse.length = 1000 := by
        unfold pushSample
        rw [List.length_reverse, List.length_take]
        omega
      have hkeep : min 501 (s.sampled i).length ≤
          ((pushSample (s.latency i) ms).reverse ++ (ws.filterMap (MetricWrite.sampleOf i) ++ s.samples i)).length := by
        rw [List.length_append, hfull]
        omega
      exact common_suffix hsuffix htkept htsampled hlen hkeep

lemma Retained.of_eq {i : Fin 3} {s s' : Metrics} (hs : s.Retained i) (hsamples : s'.samples i = s.samples i)
    (hsampled : s'.sampled i = s.sampled i) (hkept : s'.kept i = s.kept i)
    (hlost : s'.lost.filterMap (MetricWrite.sampleOf i) = [] → s.lost.filterMap (MetricWrite.sampleOf i) = []) : s'.Retained i := by
  refine ⟨?_,?_,fun h => ?_⟩
  · rw [hsamples, hsampled]
    exact hs.recent
  · rw [hkept, hsampled]
    exact hs.order
  · rw [hkept, hsampled]
    exact hs.newest (hlost h)

lemma Retained.record {i : Fin 3} {s : Metrics} (hs : s.Retained i) (w : MetricWrite) : (s.record w).Retained i := by
  cases w with
  | add k i' n => exact hs.of_eq rfl rfl rfl id
  | sample i' ms =>
    by_cases hi : i' = i
    · subst hi
      exact hs.sample ms
    · have hne : i ≠ i' := Ne.symm hi
      exact hs.of_eq (by simp [Metrics.record, hne]) (by simp [Metrics.record, hne]) (by simp [Metrics.record, kept, hne]) id

lemma Retained.flushWrite {i : Fin 3} {s : Metrics} (hs : s.Retained i) {w : MetricWrite} {ws : List MetricWrite} (hheld : s.held = w :: ws) :
    (Metrics.flushWrite { s with held := ws } w).Retained i := by
  cases w with
  | add k i' n => exact hs.of_eq rfl rfl (by simp [Metrics.flushWrite, kept, hheld, List.filterMap_cons, MetricWrite.sampleOf]) id
  | sample i' ms =>
    by_cases hi : i' = i
    · subst hi
      exact hs.write hheld
    · have hne : i ≠ i' := Ne.symm hi
      exact hs.of_eq rfl rfl (by simp [Metrics.flushWrite, kept, hheld, MetricWrite.sampleOf, hi, hne]) id

lemma Retained.lose {i : Fin 3} {s : Metrics} (hs : s.Retained i) {w : MetricWrite} {ws : List MetricWrite} (hheld : s.held = w :: ws) :
    Retained i { s with held := ws, lost := s.lost ++ [w] } := by
  cases hw : w.sampleOf i with
  | none => exact hs.of_eq rfl rfl (by simp [kept, hheld, hw]) (fun h => by simpa [hw] using h)
  | some ms =>
    have horder := hs.order
    refine ⟨hs.recent,?_,fun h => absurd h (by simp [hw])⟩
    simp only [kept, hheld, List.filterMap_cons, hw] at horder ⊢
    exact (((List.sublist_cons_self ms _).append_left _).append_right _).trans horder

lemma sampleOf_drained (i i' : Fin 3) (samples : List ℕ) :
    samples.filterMap (fun ms => MetricWrite.sampleOf i (.sample i' ms)) = if i' = i then samples else [] := by
  induction samples with
  | nil => simp
  | cons ms samples ih =>
    rw [List.filterMap_cons, ih]
    by_cases hi : i' = i <;> simp [MetricWrite.sampleOf, hi]

lemma Retained.drain {i : Fin 3} {s : Metrics} (hs : s.Retained i) (i' : Fin 3) : (s.step (.drain i')).Retained i := by
  by_cases hi : i' = i
  · subst hi
    have hkept : (s.step (.drain i')).kept i' = s.kept i' := by
      simp [Metrics.step, kept, sampleOf_drained]
    refine ⟨?_,?_,?_⟩
    · simp [Metrics.step]
    · rw [hkept]
      exact hs.order
    · intro hlost
      rw [hkept]
      exact hs.newest hlost
  · have hne : i ≠ i' := Ne.symm hi
    exact hs.of_eq (by simp [Metrics.step, hne]) rfl (by simp [Metrics.step, kept, sampleOf_drained, hi, hne]) id

lemma Retained.step {i : Fin 3} {s : Metrics} (hs : s.Retained i) (a : Action) : (s.step a).Retained i := by
  cases a with
  | call pairId tradeCount luaMs => exact hs.of_eq rfl rfl rfl id
  | advance j =>
    simp only [Metrics.step]
    split
    · rename_i w ws htask
      have htaken : Retained i { s with tasks := s.tasks.set j ws } := hs.of_eq rfl rfl rfl id
      exact htaken.record w
    · exact hs
  | swap k i' =>
    have hnone : (if 0 < s.counts k i' then [MetricWrite.add k i' (s.counts k i')] else []).filterMap (MetricWrite.sampleOf i) = [] := by
      split <;> rfl
    exact hs.of_eq rfl rfl (by simp only [Metrics.step, kept, List.filterMap_append, hnone, List.append_nil]) id
  | drain i' => exact hs.drain i'
  | write =>
    simp only [Metrics.step]
    split
    · exact hs
    · rename_i w ws hheld
      exact hs.flushWrite hheld
  | lose =>
    simp only [Metrics.step]
    split
    · exact hs
    · rename_i w ws hheld
      exact hs.lose hheld

lemma Retained.run {i : Fin 3} {s : Metrics} (hs : s.Retained i) (actions : List Action) : (s.run actions).Retained i := by
  induction actions generalizing s with
  | nil => exact hs
  | cons a actions ih => exact ih (hs.step a)

/-- A pair's latency samples in Valkey, where there are none at the start, are samples that came, none twice,
the latest first; and when the flush is through and no write failed, up to 501 of them are the latest
ones, whatever the batch dropped. -/
theorem latency_samples (before : MetricKey → Fin 3 → ℕ) (actions : List Action) (i : Fin 3) :
    let s := (start before).run actions
    (s.latency i).reverse.Sublist (s.sampled i) ∧
      (s.lost = [] → s.held = [] → s.samples i = [] → ∀ count, 1 ≤ count → count ≤ 501 →
        getLatencySamples (s.latency i) count = (s.sampled i).reverse.take count) := by
  have hstart : (start before).Retained i :=
    ⟨List.suffix_refl _,List.Sublist.refl _,fun _ => ⟨[],List.suffix_refl _,List.suffix_refl _,by simp [start]⟩⟩
  obtain ⟨hrecent,horder,hnewest⟩ := hstart.run actions
  generalize (start before).run actions = s at hrecent horder hnewest
  refine ⟨?_,?_⟩
  · simp only [kept, List.append_assoc] at horder
    exact (List.sublist_append_left _ _).trans horder
  · intro hlost hheld hsamples count hpos hcount
    obtain ⟨t,htsampled,htkept,hlen⟩ := hnewest (by simp [hlost])
    have hkept : s.kept i = (s.latency i).reverse := by simp [kept, hheld, hsamples]
    rw [hkept] at htkept
    -- the last samples, read backwards, are the first of both lists
    obtain ⟨front,hfront⟩ := List.reverse_prefix.mpr htsampled
    obtain ⟨front',hfront'⟩ := List.reverse_prefix.mpr htkept
    rw [List.reverse_reverse] at hfront'
    have horder' := horder.length_le
    rw [hkept, List.length_reverse] at horder'
    rw [getLatencySamples, if_neg (by omega), ← hfront, ← hfront']
    by_cases hshort : count ≤ t.reverse.length
    · rw [List.take_append_of_le_length hshort, List.take_append_of_le_length hshort]
    · -- then there are no others
      have hlength := congrArg List.length hfront
      have hlength' := congrArg List.length hfront'
      rw [List.length_append, List.length_reverse, List.length_reverse] at hlength
      rw [List.length_append, List.length_reverse] at hlength'
      rw [List.length_reverse] at hshort
      have hnil : front = [] := List.eq_nil_of_length_eq_zero (by omega)
      have hnil' : front' = [] := List.eq_nil_of_length_eq_zero (by omega)
      rw [hnil, hnil']

theorem latency_samples_of_one :
    let s := (start (fun _ _ => 0)).run [.call "ETH-USDT" 1 7,.advance 0,.advance 0,.advance 0,.drain 1,.write]
    getLatencySamples (s.latency 1) 100 = (s.sampled 1).reverse.take 100 :=
  (latency_samples (fun _ _ => 0) [.call "ETH-USDT" 1 7,.advance 0,.advance 0,.advance 0,.drain 1,.write] 1).2 rfl rfl rfl 100
    (by decide) (by decide)

end Metrics

/-! ### Percentiles -/

/-- `((pct / 100.0) * (n as f64 - 1.0)).round()`, and no further than the last. What the floating-point
product is off by is far less than its distance from a half, where it is not exact. -/
def percentileIndex (pct n : ℕ) : ℕ := min ((2 * pct * (n - 1) + 100) / 200) (n - 1)

lemma percentileIndex_lt (pct : ℕ) {n : ℕ} (hn : 0 < n) : percentileIndex pct n < n := by
  unfold percentileIndex
  omega

lemma percentileIndex_mono {pct pct' : ℕ} (h : pct ≤ pct') (n : ℕ) : percentileIndex pct n ≤ percentileIndex pct' n := by
  unfold percentileIndex
  have hmul : 2 * pct * (n - 1) ≤ 2 * pct' * (n - 1) := Nat.mul_le_mul_right _ (by omega)
  omega

/-- One of the three; `samples` is not empty. -/
def percentile (samples : List ℕ) (h : samples ≠ []) (pct : ℕ) : ℕ :=
  ranked samples (percentileIndex pct samples.length) (percentileIndex_lt pct (List.length_pos_of_ne_nil h))

lemma percentile_mono {samples : List ℕ} (h : samples ≠ []) {pct pct' : ℕ} (hpct : pct ≤ pct') :
    percentile samples h pct ≤ percentile samples h pct' :=
  ranked_mono (percentileIndex_mono hpct _) (percentileIndex_lt pct' (List.length_pos_of_ne_nil h))

/-- Of milliseconds below 2^53, which `as f64` keeps. -/
def computePercentiles (samples : List ℕ) : ℕ × ℕ × ℕ :=
  if h : samples = [] then (0,0,0) else (percentile samples h 50,percentile samples h 95,percentile samples h 99)

/-- At most `pct` percent of the samples, to within half a rank, are below the percentile, and at least as
many are not above it. -/
lemma percentile_bracket {samples : List ℕ} (h : samples ≠ []) {pct : ℕ} (hpct : pct ≤ 100) :
    100 * samples.countP (fun x => x < percentile samples h pct) ≤ pct * (samples.length - 1) + 50 ∧
      pct * (samples.length - 1) + 50 < 100 * samples.countP (fun x => x ≤ percentile samples h pct) := by
  have hbelow := countP_lt_ranked samples _ (percentileIndex_lt pct (List.length_pos_of_ne_nil h))
  have habove := lt_countP_ranked samples _ (percentileIndex_lt pct (List.length_pos_of_ne_nil h))
  have hindex : percentileIndex pct samples.length = (2 * pct * (samples.length - 1) + 100) / 200 := by
    have hmul : pct * (samples.length - 1) ≤ 100 * (samples.length - 1) := Nat.mul_le_mul_right _ hpct
    unfold percentileIndex
    rw [Nat.mul_assoc]
    omega
  unfold percentile
  rw [Nat.mul_assoc] at hindex
  omega

/-- The percentiles of the metrics page are samples, in order, each at its rank, and do not depend on the
order of the samples. -/
theorem percentiles_are_ranks {samples : List ℕ} (h : samples ≠ []) {p50 p95 p99 : ℕ} (hp : computePercentiles samples = (p50,p95,p99)) :
    p50 ≤ p95 ∧ p95 ≤ p99 ∧ (∀ samples', samples.Perm samples' → computePercentiles samples' = (p50,p95,p99)) ∧
      ∀ q ∈ [(50,p50),(95,p95),(99,p99)], q.2 ∈ samples ∧
        100 * samples.countP (fun x => x < q.2) ≤ q.1 * (samples.length - 1) + 50 ∧
          q.1 * (samples.length - 1) + 50 < 100 * samples.countP (fun x => x ≤ q.2) := by
  have hall : computePercentiles samples = (percentile samples h 50,percentile samples h 95,percentile samples h 99) := dif_neg h
  have hrank : ∀ pct ≤ 100, percentile samples h pct ∈ samples ∧
      100 * samples.countP (fun x => x < percentile samples h pct) ≤ pct * (samples.length - 1) + 50 ∧
        pct * (samples.length - 1) + 50 < 100 * samples.countP (fun x => x ≤ percentile samples h pct) :=
    fun pct hpct => ⟨ranked_mem samples _ _,percentile_bracket h hpct⟩
  obtain ⟨rfl,rfl,rfl⟩ : percentile samples h 50 = p50 ∧ percentile samples h 95 = p95 ∧ percentile samples h 99 = p99 := by
    simpa using hall.symm.trans hp
  refine ⟨percentile_mono h (by decide),percentile_mono h (by decide),?_,?_⟩
  · intro samples' hperm
    have h' : samples' ≠ [] := fun hnil => h (List.Perm.eq_nil (hnil ▸ hperm))
    have hsame : ∀ pct, percentile samples' h' pct = percentile samples h pct := by
      intro pct
      unfold percentile
      rw [ranked_perm hperm]
      simp only [hperm.length_eq]
    unfold computePercentiles
    rw [dif_neg h', hsame, hsame, hsame]
  · intro q hq
    simp only [List.mem_cons, List.not_mem_nil, or_false] at hq
    rcases hq with rfl | rfl | rfl
    · exact hrank 50 (by decide)
    · exact hrank 95 (by decide)
    · exact hrank 99 (by decide)

theorem percentiles_of_two :
    (20 : ℕ) ≤ 20 ∧ (20 : ℕ) ≤ 20 ∧ (∀ samples', [20,10].Perm samples' → computePercentiles samples' = (20,20,20)) ∧
      ∀ q ∈ [(50,20),(95,20),(99,20)], q.2 ∈ [20,10] ∧
        100 * [20,10].countP (fun x => x < q.2) ≤ q.1 * 1 + 50 ∧ q.1 * 1 + 50 < 100 * [20,10].countP (fun x => x ≤ q.2) := by
  have hsorted : [20,10].mergeSort (fun a b : ℕ => decide (a ≤ b)) = [10,20] := by simp [List.mergeSort]
  exact percentiles_are_ranks (by decide) (by simp [computePercentiles, percentile, percentileIndex, ranked, hsorted])

end MatchingEngine

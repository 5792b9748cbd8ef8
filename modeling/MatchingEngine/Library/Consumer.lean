import Mathlib

/-! A queue and its consumer. The consumer blocks for one message, drains a few more, and hands each
to a task of its own once a permit is free; a task takes effect at one moment, or not at all, and gives
its permit back afterwards. Messages are numbered in the order in which they are pushed. -/
namespace MatchingEngine.Library

structure Consumer (α : Type*) where
  pushed : List α
  /-- The next message to pop stands first. -/
  queue : List ℕ
  /-- While it drains: the pops still to make. -/
  drain : Option ℕ
  batch : List ℕ
  running : List ℕ
  /-- Tasks that have taken effect or failed, and hold their permit still. -/
  finishing : List ℕ
  finished : List ℕ
  executed : List ℕ
  failed : List ℕ
  /-- Messages popped by a command whose reply did not arrive. -/
  lost : List ℕ

namespace Consumer
variable {α : Type*}

def empty : Consumer α := ⟨[],[],none,[],[],[],[],[],[],[]⟩

def push (c : Consumer α) (a : α) : Consumer α :=
  { c with pushed := c.pushed ++ [a], queue := c.queue ++ [c.pushed.length] }

/-- A step with `permits` tasks at a time and `limit` pops after the first, and the message that takes
effect in it. A drain may end early. -/
inductive Step (permits limit : ℕ) : Consumer α → Option ℕ → Consumer α → Prop
  | brpop {c : Consumer α} {x : ℕ} {rest : List ℕ} (hqueue : c.queue = x :: rest) (hdrain : c.drain = none) (hbatch : c.batch = []) :
      Step permits limit c none { c with queue := rest, batch := [x], drain := some limit }
  | brpopLost {c : Consumer α} {x : ℕ} {rest : List ℕ} (hqueue : c.queue = x :: rest) (hdrain : c.drain = none)
      (hbatch : c.batch = []) : Step permits limit c none { c with queue := rest, lost := c.lost ++ [x] }
  | rpop {c : Consumer α} {x n : ℕ} {rest : List ℕ} (hqueue : c.queue = x :: rest) (hdrain : c.drain = some (n + 1)) :
      Step permits limit c none { c with queue := rest, batch := c.batch ++ [x], drain := some n }
  | rpopLost {c : Consumer α} {x n : ℕ} {rest : List ℕ} (hqueue : c.queue = x :: rest) (hdrain : c.drain = some (n + 1)) :
      Step permits limit c none { c with queue := rest, lost := c.lost ++ [x], drain := none }
  | stop {c : Consumer α} {n : ℕ} (hdrain : c.drain = some n) : Step permits limit c none { c with drain := none }
  | start {c : Consumer α} {x : ℕ} {rest : List ℕ} (hbatch : c.batch = x :: rest) (hdrain : c.drain = none)
      (hfree : c.running.length + c.finishing.length < permits) :
      Step permits limit c none { c with batch := rest, running := c.running ++ [x] }
  | execute {c : Consumer α} {x : ℕ} (hx : x ∈ c.running) : Step permits limit c (some x)
      { c with running := c.running.erase x, finishing := c.finishing ++ [x], executed := c.executed ++ [x] }
  | fail {c : Consumer α} {x : ℕ} (hx : x ∈ c.running) : Step permits limit c none
      { c with running := c.running.erase x, finishing := c.finishing ++ [x], failed := c.failed ++ [x] }
  | finish {c : Consumer α} {x : ℕ} (hx : x ∈ c.finishing) : Step permits limit c none
      { c with finishing := c.finishing.erase x, finished := c.finished ++ [x] }

section Step
variable {permits limit : ℕ} {c c' : Consumer α} {x : Option ℕ}

theorem Step.pushed_eq (h : Step permits limit c x c') : c'.pushed = c.pushed := by
  cases h <;> rfl

theorem Step.executed_eq (h : Step permits limit c x c') : c'.executed = c.executed ++ x.toList := by
  cases h <;> simp

theorem Step.mem_running {x : ℕ} (h : Step permits limit c (some x) c') : x ∈ c.running := by
  cases h with
  | execute hx => exact hx

end Step

/-- Each message is at one place, and takes effect or fails before it is finished. Messages start in
the order in which they were pushed, so that few can run ahead of earlier ones. -/
structure Inv (permits limit : ℕ) (c : Consumer α) : Prop where
  accounted : ∀ x, c.lost.count x + c.finished.count x + c.finishing.count x + c.running.count x + c.batch.count x +
    c.queue.count x = (List.range c.pushed.length).count x
  effects : ∀ x, c.executed.count x + c.failed.count x = c.finished.count x + c.finishing.count x
  sorted : (c.batch ++ c.queue).Pairwise (· < ·)
  started : ∀ x, x ∈ c.running ∨ x ∈ c.executed → ∀ y ∈ c.batch ++ c.queue, x < y
  busy : c.running.length + c.finishing.length ≤ permits
  drained : c.batch.length + c.drain.getD 0 ≤ limit + 1
  overtaken : ∀ before x after, c.executed = before ++ x :: after → (after ++ c.running).countP (· < x) + 1 ≤ permits

theorem inv_empty (permits limit : ℕ) : (empty : Consumer α).Inv permits limit := by
  constructor <;> simp [empty]

section Inv
variable {permits limit : ℕ} {c : Consumer α} (hc : c.Inv permits limit)
include hc

theorem Inv.lt_length {x : ℕ} (hx : 0 < c.lost.count x + c.finished.count x + c.finishing.count x + c.running.count x +
    c.batch.count x + c.queue.count x) : x < c.pushed.length := by
  rw [hc.accounted x] at hx
  exact List.mem_range.mp (List.count_pos_iff.mp hx)

theorem Inv.push (a : α) : (c.push a).Inv permits limit := by
  refine ⟨fun x => ?_,hc.effects,?_,?_,hc.busy,hc.drained,hc.overtaken⟩
  · have h := hc.accounted x
    simp only [Consumer.push, List.length_append, List.length_singleton, List.range_succ, List.count_append]
    omega
  · simp only [Consumer.push]
    rw [← List.append_assoc, List.pairwise_append]
    refine ⟨hc.sorted,by simp,fun x hx y hy => ?_⟩
    rw [List.mem_singleton.mp hy]
    apply hc.lt_length
    have hpos : 0 < (c.batch ++ c.queue).count x := List.count_pos_iff.mpr hx
    rw [List.count_append] at hpos
    omega
  · intro x hx y hy
    have hy' : y ∈ (c.batch ++ c.queue) ++ [c.pushed.length] := by
      rw [List.append_assoc]
      exact hy
    rcases List.mem_append.mp hy' with hold | hnew
    · exact hc.started x hx y hold
    rw [List.mem_singleton.mp hnew]
    apply hc.lt_length
    rcases hx with hx | hx
    · have hpos : 0 < c.running.count x := List.count_pos_iff.mpr hx
      omega
    · have hpos : 0 < c.executed.count x := List.count_pos_iff.mpr hx
      have := hc.effects x
      omega

/-- A pop that goes astray. -/
theorem Inv.lose {x : ℕ} {rest : List ℕ} (hqueue : c.queue = x :: rest) {drain : Option ℕ}
    (hdrain : drain.getD 0 ≤ c.drain.getD 0) : Inv permits limit { c with queue := rest, lost := c.lost ++ [x], drain := drain } := by
  have hsub : List.Sublist (c.batch ++ rest) (c.batch ++ c.queue) := by
    rw [hqueue]
    exact (List.sublist_cons_self x rest).append_left c.batch
  refine ⟨fun y => ?_,hc.effects,hc.sorted.sublist hsub,fun y hy z hz => hc.started y hy z (hsub.subset hz),hc.busy,?_,hc.overtaken⟩
  · have h := hc.accounted y
    simp only [hqueue, List.count_cons, List.count_append, List.count_nil] at h ⊢
    omega
  · have := hc.drained
    dsimp only
    omega

/-- A pop. -/
theorem Inv.pop {x n : ℕ} {rest : List ℕ} (hqueue : c.queue = x :: rest) (hroom : c.batch.length + 1 + n ≤ limit + 1) :
    Inv permits limit { c with queue := rest, batch := c.batch ++ [x], drain := some n } := by
  have hsame : (c.batch ++ [x]) ++ rest = c.batch ++ c.queue := by rw [hqueue, List.append_assoc, List.singleton_append]
  refine ⟨fun y => ?_,hc.effects,?_,?_,hc.busy,?_,hc.overtaken⟩
  · have h := hc.accounted y
    simp only [hqueue, List.count_cons, List.count_append, List.count_nil] at h ⊢
    omega
  · dsimp only
    rw [hsame]
    exact hc.sorted
  · dsimp only
    rw [hsame]
    exact hc.started
  · simpa using hroom

theorem Inv.start {x : ℕ} {rest : List ℕ} (hbatch : c.batch = x :: rest) (hfree : c.running.length + c.finishing.length < permits) :
    Inv permits limit { c with batch := rest, running := c.running ++ [x] } := by
  have hsorted := hc.sorted
  have hstarted := hc.started
  rw [hbatch, List.cons_append] at hsorted hstarted
  obtain ⟨hfirst,hrest⟩ := List.pairwise_cons.mp hsorted
  refine ⟨fun y => ?_,hc.effects,hrest,fun y hy z hz => ?_,?_,?_,fun before y after he => ?_⟩
  · have h := hc.accounted y
    simp only [hbatch, List.count_cons, List.count_append, List.count_nil] at h ⊢
    omega
  · rcases hy with hy | hy
    · rcases List.mem_append.mp hy with hy | hy
      · exact hstarted y (.inl hy) z (List.mem_cons_of_mem x hz)
      · rw [List.mem_singleton.mp hy]
        exact hfirst z hz
    · exact hstarted y (.inr hy) z (List.mem_cons_of_mem x hz)
  · simp only [List.length_append, List.length_singleton]
    omega
  · have := hc.drained
    rw [hbatch, List.length_cons] at this
    dsimp only
    omega
  · -- the message starts after every message that has taken effect
    have hy : y < x := hstarted y (.inr (by rw [show c.executed = _ from he]; simp)) x (by simp)
    have := hc.overtaken before y after he
    simpa [List.countP_append, hy.le] using this

theorem Inv.execute {x : ℕ} (hx : x ∈ c.running) : Inv permits limit
    { c with running := c.running.erase x, finishing := c.finishing ++ [x], executed := c.executed ++ [x] } := by
  have hperm : c.running.Perm (x :: c.running.erase x) := List.perm_cons_erase hx
  have hlength := hperm.length_eq
  rw [List.length_cons] at hlength
  have hbusy := hc.busy
  refine ⟨fun y => ?_,fun y => ?_,hc.sorted,fun y hy z hz => ?_,?_,hc.drained,fun before y after he => ?_⟩
  · have h := hc.accounted y
    rw [hperm.count_eq] at h
    simp only [List.count_cons, List.count_append, List.count_nil] at h ⊢
    omega
  · have h := hc.effects y
    simp only [List.count_append]
    omega
  · rcases hy with hy | hy
    · exact hc.started y (.inl (List.mem_of_mem_erase hy)) z hz
    · rcases List.mem_append.mp hy with hy | hy
      · exact hc.started y (.inr hy) z hz
      · rw [List.mem_singleton.mp hy]
        exact hc.started x (.inl hx) z hz
  · simp only [List.length_append, List.length_singleton]
    omega
  · have he' : c.executed ++ [x] = before ++ y :: after := he
    rcases List.eq_nil_or_concat' after with rfl | ⟨after',z,rfl⟩
    · -- all that runs besides has one of the other permits
      have hle := List.countP_le_length (p := fun z => decide (z < y)) (l := c.running.erase x)
      change (c.running.erase x).countP (· < y) + 1 ≤ permits
      omega
    · obtain ⟨hold,hz⟩ := List.append_inj' (he'.trans (List.append_assoc before (y :: after') [z]).symm) rfl
      obtain rfl := List.singleton_inj.mp hz
      have h := hc.overtaken before y after' hold
      rw [List.countP_append, hperm.countP_eq, List.countP_cons] at h
      change (after' ++ [x] ++ c.running.erase x).countP (· < y) + 1 ≤ permits
      rw [List.countP_append, List.countP_append, List.countP_singleton]
      omega

theorem Inv.fail {x : ℕ} (hx : x ∈ c.running) : Inv permits limit
    { c with running := c.running.erase x, finishing := c.finishing ++ [x], failed := c.failed ++ [x] } := by
  have hperm : c.running.Perm (x :: c.running.erase x) := List.perm_cons_erase hx
  have hlength := hperm.length_eq
  rw [List.length_cons] at hlength
  have hbusy := hc.busy
  refine ⟨fun y => ?_,fun y => ?_,hc.sorted,fun y hy => hc.started y (hy.imp_left List.mem_of_mem_erase),?_,hc.drained,
    fun before y after he => ?_⟩
  · have h := hc.accounted y
    rw [hperm.count_eq] at h
    simp only [List.count_cons, List.count_append, List.count_nil] at h ⊢
    omega
  · have h := hc.effects y
    simp only [List.count_append]
    omega
  · simp only [List.length_append, List.length_singleton]
    omega
  · have h := hc.overtaken before y after he
    have hle := (c.running.erase_sublist (a := x)).countP_le (p := fun z => decide (z < y))
    change (after ++ c.running.erase x).countP (· < y) + 1 ≤ permits
    rw [List.countP_append] at h ⊢
    omega

theorem Inv.finish {x : ℕ} (hx : x ∈ c.finishing) : Inv permits limit
    { c with finishing := c.finishing.erase x, finished := c.finished ++ [x] } := by
  have hperm : c.finishing.Perm (x :: c.finishing.erase x) := List.perm_cons_erase hx
  have hlength := hperm.length_eq
  rw [List.length_cons] at hlength
  have hbusy := hc.busy
  refine ⟨fun y => ?_,fun y => ?_,hc.sorted,hc.started,?_,hc.drained,hc.overtaken⟩
  · have h := hc.accounted y
    rw [hperm.count_eq] at h
    simp only [List.count_cons, List.count_append, List.count_nil] at h ⊢
    omega
  · have h := hc.effects y
    rw [hperm.count_eq] at h
    simp only [List.count_cons, List.count_append, List.count_nil] at h ⊢
    omega
  · dsimp only
    omega

/-- Each step keeps the accounts. -/
theorem Inv.step {c' : Consumer α} {x : Option ℕ} (h : Step permits limit c x c') : c'.Inv permits limit := by
  cases h with
  | brpop hqueue hdrain hbatch =>
    have h := hc.pop (n := limit) hqueue (by simp [hbatch, Nat.add_comm])
    simpa [hbatch] using h
  | brpopLost hqueue hdrain hbatch => exact hc.lose hqueue le_rfl
  | rpop hqueue hdrain =>
    have h := hc.drained
    rw [hdrain, Option.getD_some] at h
    exact hc.pop hqueue (by omega)
  | rpopLost hqueue hdrain => exact hc.lose hqueue (Nat.zero_le _)
  | stop hdrain =>
    have h := hc.drained
    exact ⟨hc.accounted,hc.effects,hc.sorted,hc.started,hc.busy,by simp only [Option.getD_none]; omega,hc.overtaken⟩
  | start hbatch hdrain hfree => exact hc.start hbatch hfree
  | execute hx => exact hc.execute hx
  | fail hx => exact hc.fail hx
  | finish hx => exact hc.finish hx

end Inv

/-! ### The end -/

/-- What is left to do for the messages pushed so far. -/
def work (c : Consumer α) : ℕ :=
  5 * c.queue.length + c.drain.elim 0 (fun _ => 1) + 3 * c.batch.length + 2 * c.running.length + c.finishing.length

/-- Without further pushes a consumer comes to an end. -/
theorem work_lt {permits limit : ℕ} {c c' : Consumer α} {x : Option ℕ} (h : Step permits limit c x c') : c'.work < c.work := by
  cases h with
  | brpop hqueue hdrain hbatch => simp [work, hqueue, hdrain, hbatch]; omega
  | brpopLost hqueue hdrain hbatch => simp [work, hqueue, hdrain, hbatch]
  | rpop hqueue hdrain => simp [work, hqueue, hdrain]; omega
  | rpopLost hqueue hdrain => simp [work, hqueue, hdrain]
  | stop hdrain => simp [work, hdrain]
  | start hbatch hdrain hfree => simp [work, hbatch]; omega
  | execute hx =>
    have := List.length_erase_add_one hx
    simp [work]
    omega
  | fail hx =>
    have := List.length_erase_add_one hx
    simp [work]
    omega
  | finish hx =>
    have := List.length_erase_add_one hx
    simp [work]
    omega

/-- It stops only with nothing left to do. -/
theorem work_eq_zero {permits limit : ℕ} (hpermits : 0 < permits) {c : Consumer α} (hstuck : ∀ x c', ¬ Step permits limit c x c') :
    c.work = 0 := by
  have hdrain : c.drain = none := by
    cases hd : c.drain with
    | none => rfl
    | some n => exact absurd (Step.stop hd) (hstuck _ _)
  have hfinishing : c.finishing = [] := by
    by_contra hne
    obtain ⟨x,hx⟩ := List.exists_mem_of_ne_nil _ hne
    exact hstuck _ _ (.finish hx)
  have hrunning : c.running = [] := by
    by_contra hne
    obtain ⟨x,hx⟩ := List.exists_mem_of_ne_nil _ hne
    exact hstuck _ _ (.execute hx)
  have hbatch : c.batch = [] := by
    cases hb : c.batch with
    | nil => rfl
    | cons x rest => exact absurd (Step.start hb hdrain (by simpa [hrunning, hfinishing] using hpermits)) (hstuck _ _)
  have hqueue : c.queue = [] := by
    cases hq : c.queue with
    | nil => rfl
    | cons x rest => exact absurd (Step.brpop hq hdrain hbatch) (hstuck _ _)
  simp [work, hdrain, hfinishing, hrunning, hbatch, hqueue]

/-- Then every message took effect once, or failed, or was lost. -/
theorem Inv.perm_of_work_eq_zero {permits limit : ℕ} {c : Consumer α} (hc : c.Inv permits limit) (hwork : c.work = 0) :
    (c.executed ++ c.failed ++ c.lost).Perm (List.range c.pushed.length) := by
  rw [List.perm_iff_count]
  intro x
  have hqueue : c.queue = [] := List.length_eq_zero_iff.mp (by unfold work at hwork; omega)
  have hbatch : c.batch = [] := List.length_eq_zero_iff.mp (by unfold work at hwork; omega)
  have hrunning : c.running = [] := List.length_eq_zero_iff.mp (by unfold work at hwork; omega)
  have h := hc.accounted x
  have heffects := hc.effects x
  simp only [hqueue, hbatch, hrunning, List.count_nil] at h
  simp only [List.count_append]
  omega

/-- When a message takes effect, few pushed before it still may. -/
theorem Inv.overtaken_all {permits limit : ℕ} {c : Consumer α} (hc : c.Inv permits limit) {before after : List ℕ} {x : ℕ}
    (he : c.executed = before ++ x :: after) :
    (after ++ c.running ++ (c.batch ++ c.queue)).countP (· < x) + 1 ≤ permits := by
  have hlater : (c.batch ++ c.queue).countP (· < x) = 0 := by
    apply List.countP_eq_zero.mpr
    intro y hy
    have hxy := hc.started x (.inr (by simp [he])) y hy
    simpa using hxy.le
  rw [List.countP_append, hlater]
  exact hc.overtaken before x after he

/-- No message takes effect twice. -/
theorem Inv.executed_nodup {permits limit : ℕ} {c : Consumer α} (hc : c.Inv permits limit) : c.executed.Nodup := by
  rw [List.nodup_iff_count_le_one]
  intro x
  have h := hc.accounted x
  have heffects := hc.effects x
  have hone := List.nodup_iff_count_le_one.mp (List.nodup_range (n := c.pushed.length)) x
  omega

end Consumer
end MatchingEngine.Library

import Mathlib

/-! Coalesced publication. Tasks change a source and signal afterwards which view they changed. The
worker of a view waits for a signal, lets more of them come in, reads the view and publishes what it
read. Signals that come in before the read are answered by one publication. -/
namespace MatchingEngine.Library

/-- Where a worker is, and whether it finds a permit when it waits next. A worker that waits has none,
since a signal wakes it. -/
inductive Coalescer (ν : Type*)
  | ready (permit : Bool)
  | waiting
  | woken (permit : Bool)
  | sleeping (permit : Bool)
  | holding (v : ν) (permit : Bool)
  deriving DecidableEq

namespace Coalescer
variable {ν : Type*}

def notify : Coalescer ν → Coalescer ν
  | ready _ => ready true
  | waiting => woken false
  | woken _ => woken true
  | sleeping _ => sleeping true
  | holding v _ => holding v true

/-- The next step of the worker's loop, when a read would return `view`. -/
def advance (view : ν) : Coalescer ν → Coalescer ν
  | ready true => sleeping false
  | ready false => waiting
  | waiting => waiting
  | woken permit => sleeping permit
  | sleeping permit => holding view permit
  | holding _ permit => ready permit

/-- The read or the publication fails. -/
def abandon : Coalescer ν → Coalescer ν
  | sleeping permit => ready permit
  | holding _ permit => ready permit
  | w => w

/-- What has been read and not been published yet. -/
def held : Coalescer ν → List ν
  | holding v _ => [v]
  | _ => []

/-- The worker reads once more before it waits. -/
def Due : Coalescer ν → Prop
  | ready permit => permit = true
  | waiting => False
  | woken _ => True
  | sleeping _ => True
  | holding _ permit => permit = true

/-- The publications that the worker is still up to. -/
def pending : Coalescer ν → ℕ
  | ready permit => permit.toNat
  | waiting => 0
  | woken permit => permit.toNat + 1
  | sleeping permit => permit.toNat + 1
  | holding _ permit => permit.toNat + 1

/-- Steps of the worker until it waits, without further signals. -/
def rank : Coalescer ν → ℕ
  | ready permit => 3 * permit.toNat + 1
  | waiting => 0
  | woken permit => 3 * permit.toNat + 4
  | sleeping permit => 3 * permit.toNat + 3
  | holding _ permit => 3 * permit.toNat + 2

theorem due_notify (w : Coalescer ν) : w.notify.Due := by
  cases w <;> simp [notify, Due]

theorem held_notify (w : Coalescer ν) : w.notify.held = w.held := by
  cases w <;> rfl

theorem pending_notify (w : Coalescer ν) : w.notify.pending ≤ w.pending + 1 := by
  cases w <;> simp [notify, pending]

theorem pending_advance (view : ν) (w : Coalescer ν) : (w.advance view).pending + w.held.length = w.pending := by
  cases w with
  | ready permit => cases permit <;> rfl
  | _ => rfl

theorem pending_abandon (w : Coalescer ν) : w.abandon.pending ≤ w.pending := by
  cases w <;> simp [abandon, pending]

theorem rank_advance (view : ν) (w : Coalescer ν) : (w.advance view).rank = w.rank - 1 := by
  cases w with
  | ready permit => cases permit <;> rfl
  | _ => simp [advance, rank]

theorem rank_le (w : Coalescer ν) : w.rank ≤ 7 := by
  cases w with
  | waiting => simp [rank]
  | ready permit => cases permit <;> simp [rank]
  | woken permit => cases permit <;> simp [rank]
  | sleeping permit => cases permit <;> simp [rank]
  | holding v permit => cases permit <;> simp [rank]

theorem rank_eq_zero {w : Coalescer ν} : w.rank = 0 ↔ w = waiting := by
  cases w <;> simp [rank]

end Coalescer

/-- A source that is seen in several views: the signals still owed to each, its worker and all that
has been published of it. -/
@[ext]
structure Coalescing (σ ι ν : Type*) where
  source : σ
  owed : ι → ℕ
  worker : ι → Coalescer ν
  published : ι → List ν

/-- A task changes the source and may come to owe a signal; it signals; a worker makes a step, or
fails to rebuild. -/
inductive Coalescing.Action (σ ι : Type*)
  | change (s : σ) (marks : Option ι)
  | signal (i : ι)
  | advance (i : ι)
  | abandon (i : ι)

namespace Coalescing
variable {σ ι ν : Type*} [DecidableEq ι] (view : ι → σ → ν)

def step (c : Coalescing σ ι ν) : Action σ ι → Coalescing σ ι ν
  | .change s none => { c with source := s }
  | .change s (some i) => { c with source := s, owed := Function.update c.owed i (c.owed i + 1) }
  | .signal i =>
    if c.owed i = 0 then c
    else { c with
      owed := Function.update c.owed i (c.owed i - 1)
      worker := Function.update c.worker i (c.worker i).notify }
  | .advance i => { c with
      worker := Function.update c.worker i ((c.worker i).advance (view i c.source))
      published := Function.update c.published i (c.published i ++ (c.worker i).held) }
  | .abandon i => { c with worker := Function.update c.worker i (c.worker i).abandon }

@[simp] theorem source_change (c : Coalescing σ ι ν) (s : σ) (marks : Option ι) :
    (c.step view (.change s marks)).source = s := by
  cases marks <;> rfl

@[simp] theorem source_signal (c : Coalescing σ ι ν) (i : ι) : (c.step view (.signal i)).source = c.source := by
  simp only [step]
  split_ifs <;> rfl

def run (c : Coalescing σ ι ν) (as : List (Action σ ι)) : Coalescing σ ι ν := as.foldl (step view) c

/-- The states of a run. -/
def trace (c : Coalescing σ ι ν) : List (Action σ ι) → List (Coalescing σ ι ν)
  | [] => [c]
  | a :: as => c :: trace (c.step view a) as

/-- A condition on each step of a run. -/
def Along (P : Coalescing σ ι ν → Action σ ι → Prop) (c : Coalescing σ ι ν) : List (Action σ ι) → Prop
  | [] => True
  | a :: as => P c a ∧ Along P (c.step view a) as

/-- Nobody owes a signal and the worker waits. -/
def Settled (c : Coalescing σ ι ν) (i : ι) : Prop := c.owed i = 0 ∧ c.worker i = .waiting

/-- What the readers of a view see next, if they do not see it already. -/
def shown (c : Coalescing σ ι ν) (i : ι) : Option ν := (c.published i ++ (c.worker i).held).getLast?

/-- A signal is owed, a read is due, or what is shown is what the view is now. -/
def Tracks (c : Coalescing σ ι ν) (i : ι) : Prop :=
  0 < c.owed i ∨ (c.worker i).Due ∨ c.shown i = some (view i c.source)

/-- The view changes only with a signal to come, and its rebuilds succeed. -/
def Audible (i : ι) (c : Coalescing σ ι ν) : Action σ ι → Prop
  | .change s marks => marks = some i ∨ view i s = view i c.source
  | .abandon j => j ≠ i
  | _ => True

def Action.Marks (i : ι) : Action σ ι → Bool
  | .change _ marks => marks = some i
  | _ => false

def Action.Advances (i : ι) : Action σ ι → Bool
  | .advance j => j = i
  | _ => false

variable {view} {c : Coalescing σ ι ν} {i : ι}

omit [DecidableEq ι] in
theorem shown_of_settled (h : c.Settled i) : c.shown i = (c.published i).getLast? := by
  simp [shown, h.2, Coalescer.held]

/-- A step of the worker shows what it held, unless it reads. -/
theorem tracks_advance (h : c.Tracks view i) : (c.step view (.advance i)).Tracks view i := by
  rcases h with howed | hdue | hshown
  · exact .inl howed
  · cases hw : c.worker i with
    | ready permit =>
      rw [hw] at hdue
      obtain rfl : permit = true := hdue
      exact .inr (.inl (by simp [step, hw, Coalescer.advance, Coalescer.Due]))
    | waiting =>
      rw [hw] at hdue
      exact hdue.elim
    | woken permit => exact .inr (.inl (by simp [step, hw, Coalescer.advance, Coalescer.Due]))
    | sleeping permit => exact .inr (.inr (by simp [step, shown, hw, Coalescer.advance, Coalescer.held]))
    | holding v permit =>
      rw [hw] at hdue
      obtain rfl : permit = true := hdue
      exact .inr (.inl (by simp [step, hw, Coalescer.advance, Coalescer.Due]))
  · cases hw : c.worker i with
    | sleeping permit => exact .inr (.inr (by simp [step, shown, hw, Coalescer.advance, Coalescer.held]))
    | ready permit =>
      refine .inr (.inr ?_)
      rw [shown, hw] at hshown
      cases permit <;> simpa [step, shown, hw, Coalescer.advance, Coalescer.held] using hshown
    | _ =>
      refine .inr (.inr ?_)
      rw [shown, hw] at hshown
      simpa [step, shown, hw, Coalescer.advance, Coalescer.held] using hshown

/-- Each audible step keeps the view tracked. -/
theorem Tracks.step (h : c.Tracks view i) {a : Action σ ι} (ha : Audible view i c a) : (c.step view a).Tracks view i := by
  cases a with
  | change s marks =>
    rcases ha with rfl | hview
    · exact .inl (by simp [Coalescing.step])
    · cases marks with
      | none => exact h.imp_right (Or.imp_right fun hs => hs.trans (congrArg some hview.symm))
      | some j =>
        refine h.imp (fun howed => ?_) (Or.imp_right fun hs => hs.trans (congrArg some hview.symm))
        by_cases hj : i = j
        · subst hj
          simp [Coalescing.step]
        · simpa [Coalescing.step, hj] using howed
  | signal j =>
    by_cases hz : c.owed j = 0
    · rwa [Coalescing.step, if_pos hz]
    · rw [Coalescing.step, if_neg hz]
      by_cases hj : i = j
      · subst hj
        exact .inr (.inl (by simpa using Coalescer.due_notify (c.worker i)))
      · simpa [Tracks, shown, hj] using h
  | advance j =>
    by_cases hj : i = j
    · subst hj
      exact tracks_advance h
    · simpa [Coalescing.step, Tracks, shown, hj] using h
  | abandon j =>
    have hj : i ≠ j := fun he => ha he.symm
    simpa [Coalescing.step, Tracks, shown, hj] using h

theorem Tracks.run {as : List (Action σ ι)} (h : c.Tracks view i) (ha : c.Along view (Audible view i) as) :
    (c.run view as).Tracks view i := by
  induction as generalizing c with
  | nil => exact h
  | cons a as ih => exact ih (h.step ha.1) ha.2

omit [DecidableEq ι] in
/-- When everything has settled, the last publication is the view as it is now. -/
theorem Tracks.published_of_settled (h : c.Tracks view i) (hs : c.Settled i) :
    (c.published i).getLast? = some (view i c.source) := by
  rcases h with howed | hdue | hshown
  · exact absurd hs.1 howed.ne'
  · rw [hs.2] at hdue
    exact hdue.elim
  · rwa [← shown_of_settled hs]

/-! ### Settling -/

variable (view)

/-- A worker publishes what it holds. -/
theorem published_step (c : Coalescing σ ι ν) (i : ι) (a : Action σ ι) :
    (c.step view a).published i = c.published i ++ (if a.Advances i then (c.worker i).held else []) := by
  cases a with
  | change s marks => cases marks <;> simp [Coalescing.step, Action.Advances]
  | signal j =>
    have hno : ¬ Action.Advances i (.signal j : Action σ ι) = true := Bool.false_ne_true
    rw [if_neg hno, List.append_nil, Coalescing.step]
    split_ifs <;> rfl
  | advance j =>
    by_cases hj : i = j
    · subst hj
      simp [Coalescing.step, Action.Advances]
    · simp [Coalescing.step, Action.Advances, hj, Ne.symm hj]
  | abandon j => simp [Coalescing.step, Action.Advances]

/-- The publications of a run are views that the source had, in their order. -/
theorem published_run (c : Coalescing σ ι ν) (i : ι) (as : List (Action σ ι)) :
    ∃ new, (c.run view as).published i = c.published i ++ new ∧
      List.Sublist (new ++ ((c.run view as).worker i).held) ((c.worker i).held ++ (c.trace view as).map (fun d => view i d.source)) := by
  induction as generalizing c with
  | nil => exact ⟨[],by simp [Coalescing.run],by simp [Coalescing.run, trace]⟩
  | cons a as ih =>
    obtain ⟨new,hnew,hsub⟩ := ih (c.step view a)
    -- a step that neither reads nor publishes for this view
    have hkeep : (c.step view a).published i = c.published i → List.Sublist ((c.step view a).worker i).held (c.worker i).held →
        ∃ new, (c.run view (a :: as)).published i = c.published i ++ new ∧ List.Sublist (new ++ ((c.run view (a :: as)).worker i).held)
          ((c.worker i).held ++ (c.trace view (a :: as)).map (fun d => view i d.source)) := by
      intro hp hh
      refine ⟨new,hnew.trans (by rw [hp]),hsub.trans ?_⟩
      exact hh.append (List.sublist_cons_self _ _)
    cases a with
    | change s marks => exact hkeep (by cases marks <;> rfl) (by cases marks <;> exact List.Sublist.refl _)
    | signal j =>
      by_cases hz : c.owed j = 0
      · exact hkeep (by rw [Coalescing.step, if_pos hz]) (by rw [Coalescing.step, if_pos hz])
      · refine hkeep (by rw [Coalescing.step, if_neg hz]) ?_
        rw [Coalescing.step, if_neg hz]
        by_cases hj : i = j
        · subst hj
          simp [Coalescer.held_notify]
        · simp [hj]
    | abandon j =>
      refine hkeep rfl ?_
      by_cases hj : i = j
      · subst hj
        cases hw : c.worker i <;> simp [Coalescing.step, hw, Coalescer.abandon, Coalescer.held]
      · simp [Coalescing.step, hj]
    | advance j =>
      by_cases hj : i = j
      · subst hj
        have hpub : (c.step view (.advance i)).published i = c.published i ++ (c.worker i).held := by simp [Coalescing.step]
        refine ⟨(c.worker i).held ++ new,?_,?_⟩
        · rw [← List.append_assoc, ← hpub]
          exact hnew
        · rw [List.append_assoc]
          refine List.Sublist.append (List.Sublist.refl _) (hsub.trans ?_)
          have hheld : List.Sublist ((c.step view (.advance i)).worker i).held [view i c.source] := by
            cases hw : c.worker i with
            | ready permit => cases permit <;> simp [Coalescing.step, hw, Coalescer.advance, Coalescer.held]
            | _ => simp [Coalescing.step, hw, Coalescer.advance, Coalescer.held]
          exact hheld.append (List.Sublist.refl _)
      · exact hkeep (by simp [Coalescing.step, hj]) (by simp [Coalescing.step, hj])

/-- One publication for each signal at most. -/
theorem publications_step (c : Coalescing σ ι ν) (i : ι) (a : Action σ ι) :
    ((c.step view a).published i).length + ((c.step view a).worker i).pending + (c.step view a).owed i ≤
      (c.published i).length + (c.worker i).pending + c.owed i + (if a.Marks i then 1 else 0) := by
  cases a with
  | change s marks =>
    cases marks with
    | none => simp [Coalescing.step]
    | some j =>
      by_cases hj : i = j
      · subst hj
        simp only [Coalescing.step, Function.update_self, Action.Marks, decide_true, if_true]
        omega
      · simp [Coalescing.step, hj]
  | signal j =>
    by_cases hz : c.owed j = 0
    · rw [Coalescing.step, if_pos hz]
      omega
    · rw [Coalescing.step, if_neg hz]
      by_cases hj : i = j
      · subst hj
        have hpending := Coalescer.pending_notify (c.worker i)
        simp only [Function.update_self]
        omega
      · simp [hj]
  | advance j =>
    by_cases hj : i = j
    · subst hj
      have hpending := Coalescer.pending_advance (view i c.source) (c.worker i)
      simp only [Coalescing.step, Function.update_self, List.length_append]
      omega
    · simp [Coalescing.step, hj]
  | abandon j =>
    by_cases hj : i = j
    · subst hj
      have hpending := Coalescer.pending_abandon (c.worker i)
      simp only [Coalescing.step, Function.update_self]
      omega
    · simp [Coalescing.step, hj]

theorem publications_run (c : Coalescing σ ι ν) (i : ι) (as : List (Action σ ι)) :
    ((c.run view as).published i).length + ((c.run view as).worker i).pending + (c.run view as).owed i ≤
      (c.published i).length + (c.worker i).pending + c.owed i + as.countP (Action.Marks i) := by
  induction as generalizing c with
  | nil => simp [Coalescing.run]
  | cons a as ih =>
    have hstep := publications_step view c i a
    have hrun := ih (c.step view a)
    rw [List.countP_cons]
    exact hrun.trans (by omega)

end Coalescing
end MatchingEngine.Library

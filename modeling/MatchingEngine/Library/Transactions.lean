import Mathlib

/-! Programs that call a store which may refuse any call. A call that is refused has no effect; a
transaction is one call to begin, one per statement and one to commit, and is rolled back when it
does not get that far. A program made of stages that are atomic one by one stops at the first stage
that fails and leaves the effects of those before it. -/
namespace MatchingEngine.Library

/-- The number of calls made so far, and the store. -/
structure Connection (σ : Type) where
  calls : ℕ
  store : σ

/-- A program, run under the errors, if any, that each call is refused with. -/
structure Client (ε σ α : Type) where
  run : (ℕ → Option ε) → Connection σ → Except ε α × Connection σ

namespace Client
variable {ε σ α β : Type}

instance : Monad (Client ε σ) where
  pure a := ⟨fun _ s => (.ok a,s)⟩
  bind x f := ⟨fun faults s =>
    match x.run faults s with
    | (.ok a,t) => (f a).run faults t
    | (.error e,t) => (.error e,t)⟩

/-- One call. -/
def execute (f : σ → σ) : Client ε σ Unit where
  run faults s :=
    match faults s.calls with
    | none => (.ok (),⟨s.calls + 1,f s.store⟩)
    | some e => (.error e,⟨s.calls + 1,s.store⟩)

/-- A computation of the client alone. -/
def ofExcept (r : Except ε α) : Client ε σ α := ⟨fun _ s => (r,s)⟩

/-- An error is dropped. -/
def attempt (x : Client ε σ Unit) : Client ε σ Unit := ⟨fun faults s => (.ok (),(x.run faults s).2)⟩

def transaction (x : Client ε σ Unit) : Client ε σ Unit where
  run faults s :=
    match (do execute id; x; execute id : Client ε σ Unit).run faults s with
    | (.ok _,t) => (.ok (),t)
    | (.error e,t) => (.error e,⟨t.calls,s.store⟩)

lemma bind_of_ok {x : Client ε σ α} {f : α → Client ε σ β} {faults : ℕ → Option ε} {s t : Connection σ} {a : α}
    (h : x.run faults s = (.ok a,t)) : (x >>= f).run faults s = (f a).run faults t := by
  change (match x.run faults s with | (.ok a,t) => (f a).run faults t | (.error e,t) => (.error e,t)) = _
  rw [h]

lemma bind_of_error {x : Client ε σ α} {f : α → Client ε σ β} {faults : ℕ → Option ε} {s t : Connection σ} {e : ε}
    (h : x.run faults s = (.error e,t)) : (x >>= f).run faults s = (.error e,t) := by
  change (match x.run faults s with | (.ok a,t) => (f a).run faults t | (.error e,t) => (.error e,t)) = _
  rw [h]

lemma bind_assoc {γ : Type} (x : Client ε σ α) (f : α → Client ε σ β) (g : β → Client ε σ γ) :
    (x >>= f) >>= g = x >>= fun a => f a >>= g := by
  have hrun : ∀ faults s, ((x >>= f) >>= g).run faults s = (x >>= fun a => f a >>= g).run faults s := by
    intro faults s
    rcases h : x.run faults s with ⟨e | a,t⟩
    · rw [bind_of_error (bind_of_error h), bind_of_error h]
    · rw [bind_of_ok h]
      rcases h' : (f a).run faults t with ⟨e | b,u⟩
      · rw [bind_of_error ((bind_of_ok h).trans h'), bind_of_error h']
      · rw [bind_of_ok ((bind_of_ok h).trans h'), bind_of_ok h']
  exact congrArg Client.mk (funext fun faults => funext fun s => hrun faults s)

section Calls
variable {faults : ℕ → Option ε} {s t : Connection σ} {e : ε} {f : σ → σ} {x : Client ε σ Unit}

lemma execute_of_none (h : faults s.calls = none) :
    (execute f).run faults s = ((.ok () : Except ε Unit),⟨s.calls + 1,f s.store⟩) := by
  simp only [execute, h]

lemma execute_of_some (h : faults s.calls = some e) :
    (execute f).run faults s = (.error e,⟨s.calls + 1,s.store⟩) := by
  simp only [execute, h]

lemma transaction_of_ok (h : (do execute id; x; execute id : Client ε σ Unit).run faults s = (.ok (),t)) :
    (transaction x).run faults s = (.ok (),t) := by
  simp only [transaction, h]

lemma transaction_of_error (h : (do execute id; x; execute id : Client ε σ Unit).run faults s = (.error e,t)) :
    (transaction x).run faults s = (.error e,⟨t.calls,s.store⟩) := by
  simp only [transaction, h]

end Calls

end Client

/-- A stage of a program: the calls that decide about it and those that do not, whether the client's own
computations succeed, and what it does to the store. -/
structure Stage (σ : Type) where
  calls : ℕ
  silent : ℕ
  valid : Bool
  effect : σ → σ

section Stages
variable {ε σ ι : Type}

/-- The stage succeeds when its first call is number `n`. -/
def Stage.Passes (st : Stage σ) (faults : ℕ → Option ε) (n : ℕ) : Prop :=
  st.valid = true ∧ ∀ i < st.calls, (faults (n + i)).isNone = true

instance (st : Stage σ) (faults : ℕ → Option ε) (n : ℕ) : Decidable (st.Passes faults n) :=
  inferInstanceAs (Decidable (_ ∧ _))

/-- The stages before the first one that fails. -/
def committed (stage : ι → Stage σ) (faults : ℕ → Option ε) : ℕ → List ι → List ι
  | _, [] => []
  | n, x :: xs =>
    if (stage x).Passes faults n then x :: committed stage faults (n + (stage x).calls + (stage x).silent) xs else []

/-- The statements of `x` do what the stage says; an error leaves the store anyhow. -/
def Does (x : Client ε σ Unit) (st : Stage σ) : Prop := ∀ faults s,
  (st.Passes faults s.calls → x.run faults s = (.ok (),⟨s.calls + st.calls + st.silent,st.effect s.store⟩)) ∧
  (¬ st.Passes faults s.calls → ∃ e t, x.run faults s = (.error e,t))

/-- An error leaves the store as it was. -/
def Atomic (x : Client ε σ Unit) : Prop := ∀ faults s e t, x.run faults s = (.error e,t) → t.store = s.store

/-- The program runs through the stages, stops at the first one that fails, and goes on as `rest` if none does. -/
def RunsThrough (x rest : Client ε σ Unit) (stage : ι → Stage σ) (xs : List ι) : Prop := ∀ faults s,
  let done := committed stage faults s.calls xs
  let store := done.foldl (fun s i => (stage i).effect s) s.store
  (done = xs → ∃ n, x.run faults s = rest.run faults ⟨n,store⟩) ∧
  (done ≠ xs → ∃ e n, x.run faults s = (.error e,⟨n,store⟩))

open Client

section Does
variable {x y : Client ε σ Unit} {a b : Stage σ} {faults : ℕ → Option ε} {n : ℕ}

/-- Two stages one after the other as one. -/
def Stage.andThen (a b : Stage σ) : Stage σ := ⟨a.calls + b.calls,b.silent,a.valid && b.valid,fun s => b.effect (a.effect s)⟩

lemma Stage.andThen_passes : (a.andThen b).Passes faults n ↔ a.Passes faults n ∧ b.Passes faults (n + a.calls) := by
  simp only [Stage.Passes, Stage.andThen, Bool.and_eq_true]
  constructor
  · rintro ⟨⟨ha,hb⟩,hcalls⟩
    refine ⟨⟨ha,fun i hi => hcalls i (by omega)⟩,hb,fun i hi => ?_⟩
    rw [add_assoc]
    exact hcalls (a.calls + i) (by omega)
  · rintro ⟨⟨ha,hcalls⟩,hb,hcalls'⟩
    refine ⟨⟨ha,hb⟩,fun i hi => ?_⟩
    by_cases hia : i < a.calls
    · exact hcalls i hia
    · have hi' := hcalls' (i - a.calls) (by omega)
      rwa [show n + a.calls + (i - a.calls) = n + i by omega] at hi'

lemma does_pure : Does (pure () : Client ε σ Unit) ⟨0,0,true,id⟩ := by
  intro faults s
  exact ⟨fun _ => rfl,fun h => absurd ⟨rfl,by simp⟩ h⟩

lemma does_execute (f : σ → σ) : Does (execute f : Client ε σ Unit) ⟨1,0,true,f⟩ := by
  intro faults s
  have hpasses : Stage.Passes (⟨1,0,true,f⟩ : Stage σ) faults s.calls ↔ faults s.calls = none := by
    simp [Stage.Passes]
  rw [hpasses]
  refine ⟨fun h => execute_of_none h,fun h => ?_⟩
  obtain ⟨e,he⟩ := Option.ne_none_iff_exists'.mp h
  exact ⟨e,_,execute_of_some he⟩

lemma does_bind (hx : Does x a) (ha : a.silent = 0) (hy : Does y b) : Does (x >>= fun _ => y) (a.andThen b) := by
  intro faults s
  rw [Stage.andThen_passes]
  by_cases hpa : a.Passes faults s.calls
  · have hrun : x.run faults s = (.ok (),⟨s.calls + a.calls,a.effect s.store⟩) := by
      simpa [ha] using (hx faults s).1 hpa
    rw [bind_of_ok hrun]
    obtain ⟨hok,herr⟩ := hy faults ⟨s.calls + a.calls,a.effect s.store⟩
    refine ⟨fun h => ?_,fun h => herr (fun hpb => h ⟨hpa,hpb⟩)⟩
    rw [hok h.2]
    simp [Stage.andThen, add_assoc]
  · obtain ⟨e,t,hrun⟩ := (hx faults s).2 hpa
    exact ⟨fun h => absurd h.1 hpa,fun _ => ⟨e,t,bind_of_error hrun⟩⟩

/-- A loop of statements. -/
lemma does_forM {β : Type} (f : β → σ → σ) (l : List β) : Does (l.forM (fun b => (execute (f b) : Client ε σ Unit)))
    ⟨l.length,0,true,fun s => l.foldl (fun s b => f b s) s⟩ := by
  induction l with
  | nil => exact does_pure
  | cons b l ih =>
    have hcons := does_bind (does_execute (f b)) rfl ih
    have hstage : Stage.andThen (⟨1,0,true,f b⟩ : Stage σ) ⟨l.length,0,true,fun s => l.foldl (fun s b => f b s) s⟩ =
        ⟨(b :: l).length,0,true,fun s => (b :: l).foldl (fun s b => f b s) s⟩ := by
      simp [Stage.andThen, add_comm]
    rw [hstage] at hcons
    exact hcons

/-- The statements of a transaction between the two calls around them. -/
lemma does_transaction (hx : Does x a) (ha : a.silent = 0) :
    Does (transaction x) ⟨a.calls + 2,0,a.valid,a.effect⟩ := by
  have hwhole := does_bind (does_execute (id : σ → σ)) rfl (does_bind hx ha (does_execute (id : σ → σ)))
  intro faults s
  have hpasses : Stage.Passes (⟨a.calls + 2,0,a.valid,a.effect⟩ : Stage σ) faults s.calls ↔
      (Stage.andThen ⟨1,0,true,id⟩ (a.andThen ⟨1,0,true,id⟩)).Passes faults s.calls := by
    simp [Stage.Passes, Stage.andThen, add_comm, add_left_comm]
  obtain ⟨hok,herr⟩ := hwhole faults s
  rw [← hpasses] at hok herr
  constructor
  · intro h
    rw [transaction_of_ok (hok h)]
    simp [Stage.andThen, add_comm, add_left_comm]
  · intro h
    obtain ⟨e,t,hrun⟩ := herr h
    exact ⟨e,⟨t.calls,s.store⟩,transaction_of_error hrun⟩

lemma atomic_execute (f : σ → σ) : Atomic (execute f : Client ε σ Unit) := by
  intro faults s e t h
  cases hf : faults s.calls with
  | none =>
    rw [execute_of_none hf] at h
    cases h
  | some e' =>
    rw [execute_of_some hf] at h
    cases h
    rfl

lemma atomic_transaction (x : Client ε σ Unit) : Atomic (transaction x) := by
  intro faults s e t h
  rcases hrun : (do execute id; x; execute id : Client ε σ Unit).run faults s with ⟨_ | _,u⟩
  · rw [transaction_of_error hrun] at h
    cases h
    rfl
  · rw [transaction_of_ok hrun] at h
    cases h

/-- Calls whose errors are dropped only count. -/
lemma forM_attempt {β : Type} (l : List β) (faults : ℕ → Option ε) (s : Connection σ) :
    (l.forM (fun _ => attempt (execute id)) : Client ε σ Unit).run faults s = (.ok (),⟨s.calls + l.length,s.store⟩) := by
  induction l generalizing s with
  | nil => rfl
  | cons b l ih =>
    have hone : (attempt (execute id) : Client ε σ Unit).run faults s = (.ok (),⟨s.calls + 1,s.store⟩) := by
      cases hf : faults s.calls with
      | none => simp [attempt, execute_of_none hf]
      | some e => simp [attempt, execute_of_some hf]
    have hrest := ih ⟨s.calls + 1,s.store⟩
    refine (bind_of_ok hone).trans (hrest.trans ?_)
    simp [add_assoc, add_comm 1]

/-- Statements that the client never gets through. -/
lemma does_invalid (h : ∀ faults s, ∃ e t, x.run faults s = (.error e,t)) (k : ℕ) (f : σ → σ) : Does x ⟨k,0,false,f⟩ := by
  intro faults s
  exact ⟨fun hp => absurd hp.1 (by simp),fun _ => h faults s⟩

/-- A stage followed by calls that only count. -/
lemma does_silently {k : ℕ} (hx : Does x a) (hy : ∀ faults s, y.run faults s = (.ok (),⟨s.calls + k,s.store⟩)) :
    Does (x >>= fun _ => y) { a with silent := a.silent + k } := by
  intro faults s
  obtain ⟨hok,herr⟩ := hx faults s
  constructor
  · intro h
    rw [bind_of_ok (hok h), hy]
    simp [add_assoc]
  · intro h
    obtain ⟨e,t,hrun⟩ := herr h
    exact ⟨e,t,bind_of_error hrun⟩

lemma atomic_silently {k : ℕ} (hx : Atomic x) (hy : ∀ faults s, y.run faults s = (.ok (),⟨s.calls + k,s.store⟩)) :
    Atomic (x >>= fun _ => y) := by
  intro faults s e t h
  rcases hrun : x.run faults s with ⟨e' | _,u⟩
  · rw [bind_of_error hrun] at h
    cases h
    exact hx _ _ _ _ hrun
  · rw [bind_of_ok hrun, hy] at h
    cases h

end Does

section RunsThrough
variable {x y rest : Client ε σ Unit} {stage : ι → Stage σ}

lemma committed_isPrefix_of (stage : ι → Stage σ) (faults : ℕ → Option ε) (n : ℕ) (xs : List ι) :
    committed stage faults n xs <+: xs := by
  induction xs generalizing n with
  | nil => exact List.prefix_rfl
  | cons i is ih =>
    rw [committed]
    split_ifs
    · exact (List.prefix_cons_inj i).mpr (ih _)
    · exact List.nil_prefix

lemma valid_of_committed {faults : ℕ → Option ε} {n : ℕ} {xs : List ι} {i : ι} (h : i ∈ committed stage faults n xs) :
    (stage i).valid = true := by
  induction xs generalizing n with
  | nil => cases h
  | cons j js ih =>
    rw [committed] at h
    split_ifs at h with hpasses
    · rcases List.mem_cons.mp h with rfl | h
      · exact hpasses.1
      · exact ih h
    · cases h

lemma runsThrough_nil (rest : Client ε σ Unit) (stage : ι → Stage σ) : RunsThrough rest rest stage [] := by
  intro faults s
  exact ⟨fun _ => ⟨s.calls,rfl⟩,fun h => absurd rfl h⟩

/-- One stage more in front. -/
lemma runsThrough_cons {i : ι} {is : List ι} (hx : Does x (stage i)) (hatomic : Atomic x)
    (hy : RunsThrough y rest stage is) : RunsThrough (x >>= fun _ => y) rest stage (i :: is) := by
  intro faults s
  by_cases hpasses : (stage i).Passes faults s.calls
  · have hdone : committed stage faults s.calls (i :: is) =
        i :: committed stage faults (s.calls + (stage i).calls + (stage i).silent) is := if_pos hpasses
    obtain ⟨hok,herr⟩ := hy faults ⟨s.calls + (stage i).calls + (stage i).silent,(stage i).effect s.store⟩
    rw [hdone, bind_of_ok ((hx faults s).1 hpasses)]
    refine ⟨fun h => hok (List.cons_injective h),fun h => herr (fun he => h (congrArg (List.cons i) he))⟩
  · have hdone : committed stage faults s.calls (i :: is) = [] := if_neg hpasses
    obtain ⟨e,t,hrun⟩ := (hx faults s).2 hpasses
    rw [hdone, bind_of_error hrun]
    refine ⟨fun h => absurd h (by simp),fun _ => ⟨e,t.calls,?_⟩⟩
    rw [List.foldl_nil, ← hatomic faults s e t hrun]

end RunsThrough

end Stages

end MatchingEngine.Library

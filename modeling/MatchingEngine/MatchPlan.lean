import MatchingEngine.MatchScript

/-! The match loop as a pure plan. Each candidate is read once, so the whole loop is a
function of the hashes found at its start: the list of visited orders, what happens to each
of them, and the remainder. The store is then changed by replaying the visits. -/
namespace MatchingEngine
open Library

/-- A candidate together with the hash the loop reads for it. -/
structure Resting where
  id : Uuid
  hash : OrderHash
  deriving DecidableEq, Repr

/-- The candidates whose hash exists, in the order given. -/
def Valkey.resting (db : Valkey) (ids : List Uuid) : List Resting :=
  ids.filterMap (fun id => (db.order id).map (Resting.mk id))

inductive Action
  | fill (qtyI : ℤ)
  | cancel
  deriving DecidableEq, Repr

/-- One candidate the loop changes: it is filled, or cancelled by self-trade prevention. -/
structure Visit where
  resting : Resting
  action : Action
  deriving DecidableEq, Repr

namespace Visit

def id (v : Visit) : Uuid := v.resting.id

def filledI (v : Visit) : ℤ :=
  match v.action with
  | .fill q => q
  | .cancel => 0

/-- The hash left behind; none when the order leaves the book. -/
def outcome (v : Visit) : Option OrderHash :=
  match v.action with
  | .fill q =>
    if v.resting.hash.remainingI - q ≤ 0 then none
    else some { v.resting.hash with
      remainingI := v.resting.hash.remainingI - q, status := .partiallyFilled }
  | .cancel => none

def trade? (a : MatchArgs) (v : Visit) : Option ScriptTrade :=
  match v.action with
  | .fill q => some (a.trade v.resting.hash v.id q)
  | .cancel => none

section Constructors
variable (a : MatchArgs) (r : Resting) (q : ℤ)

@[simp] lemma id_mk (act : Action) : (⟨r,act⟩ : Visit).id = r.id := rfl

@[simp] lemma filledI_fill : (⟨r,.fill q⟩ : Visit).filledI = q := rfl

@[simp] lemma filledI_cancel : (⟨r,.cancel⟩ : Visit).filledI = 0 := rfl

@[simp] lemma trade?_fill : (⟨r,.fill q⟩ : Visit).trade? a = some (a.trade r.hash r.id q) := rfl

@[simp] lemma trade?_cancel : (⟨r,.cancel⟩ : Visit).trade? a = none := rfl

end Constructors

end Visit

structure Plan where
  visits : List Visit
  remainingI : ℤ
  stpCancelled : Bool
  deriving DecidableEq, Repr

namespace Plan

def cons (v : Visit) (p : Plan) : Plan := { p with visits := v :: p.visits }

def trades (a : MatchArgs) (p : Plan) : List ScriptTrade := p.visits.filterMap (Visit.trade? a)

def filledI (p : Plan) : ℤ := (p.visits.map Visit.filledI).sum

@[simp] lemma trades_cons (a : MatchArgs) (v : Visit) (p : Plan) :
    (p.cons v).trades a = (v.trade? a).toList ++ p.trades a := by
  cases h : v.trade? a <;> simp [trades, cons, h]

@[simp] lemma filledI_cons (v : Visit) (p : Plan) : (p.cons v).filledI = v.filledI + p.filledI := by
  simp [filledI, cons]

@[simp] lemma visits_cons (v : Visit) (p : Plan) : (p.cons v).visits = v :: p.visits := rfl

@[simp] lemma remainingI_cons (v : Visit) (p : Plan) : (p.cons v).remainingI = p.remainingI := rfl

@[simp] lemma stpCancelled_cons (v : Visit) (p : Plan) : (p.cons v).stpCancelled = p.stpCancelled := rfl

/-- The status the script reports. -/
def status (a : MatchArgs) (p : Plan) : OrderStatus :=
  iocStatus a.tif p.remainingI
    (fillStatus a.qtyI p.remainingI (if p.stpCancelled then .cancelled else .new))

section Status
variable {a : MatchArgs} {p : Plan}

lemma status_of_stopped (hs : p.stpCancelled = true) : p.status a = .cancelled := by
  simp [status, hs, fillStatus, iocStatus]

lemma status_of_le (hs : p.stpCancelled = false) (hrem : p.remainingI ≤ 0) : p.status a = .filled := by
  simp [status, hs, fillStatus, iocStatus, hrem]

lemma status_of_pos (hs : p.stpCancelled = false) (hrem : 0 < p.remainingI) :
    p.status a = if a.tif = .ioc then .cancelled else if p.remainingI < a.qtyI then .partiallyFilled else .new := by
  have hfill : fillStatus a.qtyI p.remainingI .new = if p.remainingI < a.qtyI then .partiallyFilled else .new := by
    rw [fillStatus, if_neg (by simp), if_neg (not_le.mpr hrem)]
  rw [status, if_neg (by simp [hs]), hfill, iocStatus]
  by_cases ht : a.tif = .ioc
  · rw [if_pos ⟨ht,hrem,by split_ifs <;> simp⟩, if_pos ht]
  · rw [if_neg (fun h => ht h.1), if_neg ht]

end Status

end Plan

/-- The loop without the store. -/
def plan (a : MatchArgs) : ℤ → List Resting → Plan
  | rem, [] => ⟨[],rem,false⟩
  | rem, r :: rest =>
    if rem ≤ 0 then ⟨[],rem,false⟩
    else if r.hash.Consumed then plan a rem rest
    else if ¬ a.Crosses r.hash then ⟨[],rem,false⟩
    else match a.stpAction r.hash with
    | .cancelMaker => (plan a rem rest).cons ⟨r,.cancel⟩
    | .cancelTaker => ⟨[],0,true⟩
    | .cancelBoth => ⟨[⟨r,.cancel⟩],0,true⟩
    | .none =>
      (plan a (rem - MatchArgs.fillI rem r.hash) rest).cons ⟨r,.fill (MatchArgs.fillI rem r.hash)⟩

/-- Replaying one visit on the store. -/
def applyVisit (a : MatchArgs) (db : Valkey) (v : Visit) : Valkey :=
  match v.outcome with
  | none => db.dropOrder a.pairId a.side.opposite v.id
  | some h => db.hset v.id h

def applyVisits (a : MatchArgs) (db : Valkey) (vs : List Visit) : Valkey := vs.foldl (applyVisit a) db

@[simp] lemma applyVisits_nil (a : MatchArgs) (db : Valkey) : applyVisits a db [] = db := rfl

@[simp] lemma applyVisits_cons (a : MatchArgs) (db : Valkey) (v : Visit) (vs : List Visit) :
    applyVisits a db (v :: vs) = applyVisits a (applyVisit a db v) vs := rfl

/-! ### The store after the visits -/

lemma applyVisit_order (a : MatchArgs) (db : Valkey) (v : Visit) (x : Uuid) :
    (applyVisit a db v).order x = if x = v.id then v.outcome else db.order x := by
  unfold applyVisit
  cases h : v.outcome <;> simp

lemma applyVisit_entries (a : MatchArgs) (db : Valkey) (v : Visit) (p : String) (s : Side) :
    ((applyVisit a db v).book p s).entries =
      if p = a.pairId ∧ s = a.side.opposite ∧ v.outcome = none then
        (db.book p s).entries.filter (fun e => e.member ≠ v.id)
      else (db.book p s).entries := by
  unfold applyVisit
  cases h : v.outcome with
  | none => by_cases hk : p = a.pairId ∧ s = a.side.opposite <;> simp [hk, SortedSet.remove]
  | some w => simp

@[simp] lemma applyVisit_balance (a : MatchArgs) (db : Valkey) (v : Visit) :
    (applyVisit a db v).balance = db.balance := by
  unfold applyVisit
  cases v.outcome <;> rfl

@[simp] lemma applyVisits_balance (a : MatchArgs) (db : Valkey) (vs : List Visit) :
    (applyVisits a db vs).balance = db.balance := by
  induction vs generalizing db with
  | nil => rfl
  | cons v vs ih => rw [applyVisits_cons, ih, applyVisit_balance]

lemma applyVisits_order_of_notMem {a : MatchArgs} {vs : List Visit} {x : Uuid}
    (h : ∀ v ∈ vs, v.id ≠ x) (db : Valkey) : (applyVisits a db vs).order x = db.order x := by
  induction vs generalizing db with
  | nil => rfl
  | cons v vs ih =>
    rw [applyVisits_cons, ih (fun w hw => h w (by simp [hw])), applyVisit_order,
      if_neg (h v (by simp)).symm]

lemma applyVisits_order_of_mem {a : MatchArgs} {vs : List Visit} {v : Visit}
    (hn : (vs.map Visit.id).Nodup) (hv : v ∈ vs) (db : Valkey) :
    (applyVisits a db vs).order v.id = v.outcome := by
  induction vs generalizing db with
  | nil => cases hv
  | cons w vs ih =>
    rw [List.map_cons, List.nodup_cons] at hn
    rcases List.mem_cons.mp hv with rfl | hv
    · have hne : ∀ u ∈ vs, u.id ≠ v.id := by
        intro u hu he
        exact hn.1 (he ▸ List.mem_map_of_mem hu)
      rw [applyVisits_cons, applyVisits_order_of_notMem hne, applyVisit_order, if_pos rfl]
    · exact ih hn.2 hv _

lemma mem_entries_applyVisits {a : MatchArgs} {vs : List Visit} {db : Valkey} {p : String} {s : Side}
    {e : Entry ℤ Uuid} : e ∈ ((applyVisits a db vs).book p s).entries ↔
      e ∈ (db.book p s).entries ∧
        ¬ (p = a.pairId ∧ s = a.side.opposite ∧ ∃ v ∈ vs, v.id = e.member ∧ v.outcome = none) := by
  induction vs generalizing db with
  | nil => simp
  | cons v vs ih =>
    rw [applyVisits_cons, ih, applyVisit_entries]
    by_cases hk : p = a.pairId ∧ s = a.side.opposite ∧ v.outcome = none
    · rw [if_pos hk]
      simp only [List.mem_filter, decide_eq_true_eq, List.exists_mem_cons_iff, hk.1, hk.2.1, hk.2.2]
      grind
    · rw [if_neg hk]
      simp only [List.exists_mem_cons_iff]
      grind

/-! ### The loop is its plan -/

lemma resting_cons_some {db : Valkey} {id : Uuid} {h : OrderHash} (ids : List Uuid)
    (hd : db.order id = some h) : db.resting (id :: ids) = ⟨id,h⟩ :: db.resting ids := by
  simp [Valkey.resting, hd]

lemma resting_cons_none {db : Valkey} {id : Uuid} (ids : List Uuid) (hd : db.order id = none) :
    db.resting (id :: ids) = db.resting ids := by
  simp [Valkey.resting, hd]

lemma resting_congr {db db' : Valkey} {ids : List Uuid} (h : ∀ id ∈ ids, db.order id = db'.order id) :
    db.resting ids = db'.resting ids := by
  unfold Valkey.resting
  apply List.filterMap_congr
  intro id hid
  rw [h id hid]

lemma mem_resting {db : Valkey} {ids : List Uuid} {r : Resting} :
    r ∈ db.resting ids ↔ r.id ∈ ids ∧ db.order r.id = some r.hash := by
  simp only [Valkey.resting, List.mem_filterMap, Option.map_eq_some_iff]
  constructor
  · rintro ⟨id,hid,h,hh,rfl⟩; exact ⟨hid,hh⟩
  · rintro ⟨hid,hh⟩; exact ⟨r.id,hid,r.hash,hh,rfl⟩

lemma resting_applyVisit {a : MatchArgs} {db : Valkey} {v : Visit} {ids : List Uuid} (h : v.id ∉ ids) :
    (applyVisit a db v).resting ids = db.resting ids := by
  apply resting_congr
  intro id hid
  rw [applyVisit_order, if_neg]
  rintro rfl
  exact h hid

lemma matchLoop_stopped (a : MatchArgs) (ids : List Uuid) {s : MatchState}
    (h : s.remainingI ≤ 0 ∨ s.matchBreak) : matchLoop a ids s = s := by
  cases ids with
  | nil => rfl
  | cons id ids => rw [matchLoop, if_pos h]

/-- What the loop leaves in its local variables and in the store, except for the flag
`match_break`, which nothing reads afterwards. -/
structure Follows (a : MatchArgs) (db : Valkey) (ts : List ScriptTrade) (p : Plan)
    (s : MatchState) : Prop where
  db_eq : s.db = applyVisits a db p.visits
  remaining_eq : s.remainingI = p.remainingI
  status_eq : s.status = if p.stpCancelled then .cancelled else .new
  trades_eq : s.trades = ts ++ p.trades a

lemma Follows.cons_fill {a : MatchArgs} {db : Valkey} {ts : List ScriptTrade} {p : Plan} {s : MatchState}
    {r : Resting} {q : ℤ}
    (h : Follows a (applyVisit a db ⟨r,.fill q⟩) (ts ++ [a.trade r.hash r.id q]) p s) :
    Follows a db ts (p.cons ⟨r,.fill q⟩) s where
  db_eq := h.db_eq
  remaining_eq := h.remaining_eq
  status_eq := h.status_eq
  trades_eq := by simp [h.trades_eq]

lemma Follows.cons_cancel {a : MatchArgs} {db : Valkey} {ts : List ScriptTrade} {p : Plan} {s : MatchState}
    {r : Resting} (h : Follows a (applyVisit a db ⟨r,.cancel⟩) ts p s) :
    Follows a db ts (p.cons ⟨r,.cancel⟩) s where
  db_eq := h.db_eq
  remaining_eq := h.remaining_eq
  status_eq := h.status_eq
  trades_eq := by simp [h.trades_eq]

lemma applyVisit_fill (a : MatchArgs) (db : Valkey) (r : Resting) (q : ℤ) :
    applyVisit a db ⟨r,.fill q⟩ = writeFill a db r.id r.hash q := by
  by_cases h : r.hash.remainingI - q ≤ 0 <;> simp [applyVisit, Visit.outcome, writeFill, h]

lemma applyVisit_cancel (a : MatchArgs) (db : Valkey) (r : Resting) :
    applyVisit a db ⟨r,.cancel⟩ = db.dropOrder a.pairId a.side.opposite r.id := rfl

theorem matchLoop_follows (a : MatchArgs) (ids : List Uuid) (hn : ids.Nodup) (db : Valkey) (rem : ℤ)
    (ts : List ScriptTrade) :
    Follows a db ts (plan a rem (db.resting ids)) (matchLoop a ids ⟨db,rem,.new,ts,false⟩) := by
  induction ids generalizing db rem ts with
  | nil => exact ⟨rfl,rfl,rfl,by simp [Valkey.resting, plan, Plan.trades, matchLoop]⟩
  | cons id ids ih =>
    rw [List.nodup_cons] at hn
    by_cases hrem : rem ≤ 0
    · have hp : plan a rem (db.resting (id :: ids)) = ⟨[],rem,false⟩ := by
        cases db.resting (id :: ids) with
        | nil => rfl
        | cons r rest => rw [plan, if_pos hrem]
      rw [hp, matchLoop_stopped a _ (.inl hrem)]
      exact ⟨rfl,rfl,rfl,by simp [Plan.trades]⟩
    have hgo : ¬ (rem ≤ 0 ∨ (false : Bool) = true) := by simpa using hrem
    rw [matchLoop, if_neg hgo]
    cases hd : db.order id with
    | none =>
      have hs : matchStep a ⟨db,rem,.new,ts,false⟩ id = ⟨db,rem,.new,ts,false⟩ := by
        simp [matchStep, hd, OrderHash.Consumed, OrderHash.missing]
      rw [hs, resting_cons_none ids hd]
      exact ih hn.2 db rem ts
    | some h =>
      rw [resting_cons_some ids hd, plan, if_neg hrem]
      simp only [matchStep, hd, Option.getD_some]
      by_cases hc : h.Consumed
      · rw [if_pos hc, if_pos hc]
        exact ih hn.2 db rem ts
      rw [if_neg hc, if_neg hc]
      by_cases hx : a.Crosses h
      · rw [if_neg (not_not.mpr hx), if_neg (not_not.mpr hx)]
        cases hstp : a.stpAction h with
        | none =>
          apply Follows.cons_fill
          rw [applyVisit_fill]
          have hsame : (writeFill a db id h (MatchArgs.fillI rem h)).resting ids = db.resting ids := by
            rw [← applyVisit_fill a db ⟨id,h⟩]
            exact resting_applyVisit hn.1
          simpa only [hsame] using ih hn.2 (writeFill a db id h (MatchArgs.fillI rem h))
            (rem - MatchArgs.fillI rem h) (ts ++ [a.trade h id (MatchArgs.fillI rem h)])
        | cancelMaker =>
          apply Follows.cons_cancel
          rw [applyVisit_cancel]
          have hsame : (db.dropOrder a.pairId a.side.opposite id).resting ids = db.resting ids :=
            resting_applyVisit (a := a) (v := ⟨⟨id,h⟩,.cancel⟩) hn.1
          simpa only [hsame] using ih hn.2 (db.dropOrder a.pairId a.side.opposite id) rem ts
        | cancelTaker =>
          rw [matchLoop_stopped a ids (.inr rfl)]
          exact ⟨rfl,rfl,rfl,by simp [Plan.trades]⟩
        | cancelBoth =>
          rw [matchLoop_stopped a ids (.inr rfl)]
          exact ⟨rfl,rfl,rfl,by simp [Plan.trades]⟩
      · rw [if_pos hx, if_pos hx, matchLoop_stopped a ids (.inr rfl)]
        exact ⟨rfl,rfl,rfl,by simp [Plan.trades]⟩

end MatchingEngine

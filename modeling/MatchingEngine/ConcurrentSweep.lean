import MatchingEngine.Ghosts

/-! `sweep_stale_orders` as it really runs: a `ZRANGE` for each of the six book keys, then an
`EXISTS` and perhaps a `ZREM` for every member, with matches, cancels, other sweeps and time in
between any two of them, and any of them failing. What has no hash never gets one again, because
hashes are written under fresh ids only, so that the answer of an `EXISTS` is still good when the
`ZREM` comes. An `EXISTS` that fails counts as a missing hash. -/
namespace MatchingEngine
open Library

/-- The commands of the sweep. -/
inductive SweepCommand
  | zrange (key : String × Side)
  | exists (id : Uuid)
  | zrem (id : Uuid)
  deriving DecidableEq

/-- An exchange and a sweep on its way. -/
structure Sweeping where
  timed : Timed
  /-- Keys that were not listed yet. -/
  todo : List (String × Side)
  /-- The key listed last, and the members of it that were not checked yet. -/
  bookKey : String × Side
  members : List Uuid
  /-- The member that is to be removed next. -/
  stale : Option Uuid
  removedTotal : ℕ
  errors : List SweepCommand

/-- The same exchange on another store. -/
def Timed.withDb (s : Timed) (db : Valkey) : Timed := { s with exchange := { s.exchange with db := db } }

namespace Sweeping

def start (s : Timed) : Sweeping := ⟨s,sweptKeys,("",.buy),[],none,0,[]⟩

def db (s : Sweeping) : Valkey := s.timed.exchange.db

/-- `ZRANGE book_key 0 -1`; an error reads as no members. -/
def zrange (s : Sweeping) (key : String × Side) (rest : List (String × Side)) (ok : Bool) : Sweeping :=
  { s with
    todo := rest
    bookKey := key
    members := if ok then (s.db.book key.1 key.2).rangeByScore none else []
    errors := if ok then s.errors else s.errors ++ [.zrange key] }

/-- `EXISTS order:id`; an error reads as a missing hash. -/
def checkExists (s : Sweeping) (id : Uuid) (rest : List Uuid) (ok : Bool) : Sweeping :=
  { s with
    members := rest
    stale := if ok ∧ s.db.order id ≠ none then none else some id
    errors := if ok then s.errors else s.errors ++ [.exists id] }

/-- `ZREM book_key id`; it is counted even if it fails. -/
def zrem (s : Sweeping) (id : Uuid) (ok : Bool) : Sweeping :=
  { s with
    timed := if ok then s.timed.withDb (s.db.zrem s.bookKey.1 s.bookKey.2 id) else s.timed
    stale := none
    removedTotal := s.removedTotal + 1
    errors := if ok then s.errors else s.errors ++ [.zrem id] }

/-- The next command of the sweep, or a step of the exchange. -/
inductive Step : Sweeping → Sweeping → Prop
  | zrange {s : Sweeping} {key : String × Side} {rest : List (String × Side)} (hstale : s.stale = none)
      (hmembers : s.members = []) (htodo : s.todo = key :: rest) (ok : Bool) : Step s (s.zrange key rest ok)
  | checkExists {s : Sweeping} {id : Uuid} {rest : List Uuid} (hstale : s.stale = none) (hmembers : s.members = id :: rest)
      (ok : Bool) : Step s (s.checkExists id rest ok)
  | zrem {s : Sweeping} {id : Uuid} (hstale : s.stale = some id) (ok : Bool) : Step s (s.zrem id ok)
  | exchange {s : Sweeping} {t : Timed} (h : Timed.Step s.timed t) : Step s { s with timed := t }

/-- States of a sweep that was started in some reachable state. -/
def Reachable (s₀ : Timed) (s : Sweeping) : Prop := s₀.Reachable ∧ Relation.ReflTransGen Step (start s₀) s

/-- The loops are through. -/
def Done (s : Sweeping) : Prop := s.todo = [] ∧ s.members = [] ∧ s.stale = none

instance (s : Sweeping) : Decidable s.Done := inferInstanceAs (Decidable (_ ∧ _))

/-- The next command, if nothing fails. -/
def next (s : Sweeping) : Sweeping :=
  match s.stale, s.members, s.todo with
  | some id, _, _ => s.zrem id true
  | none, id :: rest, _ => s.checkExists id rest true
  | none, [], key :: rest => s.zrange key rest true
  | none, [], [] => s

end Sweeping

/-! ### What the exchange does to old orders -/

namespace Timed
variable {s t : Timed} {id : Uuid}

/-- The id of an order that was submitted before. -/
def Known (s : Timed) (id : Uuid) : Prop := ∃ p ∈ s.exchange.submitted, p.id = id

/-- Of an order submitted before, a step can take away the hash and the entries, but bring neither back. -/
structure Fades (s t : Timed) (id : Uuid) : Prop where
  known : t.Known id
  order : s.exchange.db.order id = none → t.exchange.db.order id = none
  book : ∀ pair side, id ∉ s.exchange.db.book pair side → id ∉ t.exchange.db.book pair side

lemma fades_submit (hid : s.Known id) {o : Order} (hfresh : ∀ p ∈ s.exchange.submitted, p.id ≠ o.id) (asset : String)
    (amount : ℤ) : Fades s (s.submit o asset amount) id := by
  obtain ⟨p,hp,rfl⟩ := hid
  have hne : p.id ≠ o.id := hfresh p hp
  refine ⟨⟨p,List.mem_append_left _ hp,rfl⟩,fun hnone => submit_order_none hnone hne,fun pair side hout => ?_⟩
  cases hl : lockBalance s.exchange.db (matchArgs o asset amount) with
  | none =>
    simp only [Timed.submit, submit_of_no_lock hl]
    exact hout
  | some db₁ =>
    simp only [Timed.submit, submit_of_lock hl]
    intro hin
    obtain ⟨e,he,hid⟩ := SortedSet.mem_iff.mp hin
    rcases settle_entry_cases hl he with ⟨_,_,rfl⟩ | hold
    · exact hne hid.symm
    · exact hout (SortedSet.mem_iff.mpr ⟨e,hold,hid⟩)

lemma Step.fades (h : Step s t) (hid : s.Known id) : Fades s t id := by
  cases h with
  | submit o asset amount hfresh _ => exact fades_submit hid hfresh asset amount
  | cancel o c _ _ _ _ =>
    refine ⟨hid,fun hnone => ?_,fun pair side hout => ?_⟩
    · simp only [Timed.cancel, Exchange.remove, Valkey.removeOrderFromBook, Valkey.dropOrder_order]
      split_ifs
      · rfl
      · exact hnone
    · simp only [Timed.cancel, Exchange.remove, Valkey.removeOrderFromBook, Valkey.dropOrder_book]
      split_ifs
      · exact fun hin => hout (SortedSet.mem_remove.mp hin).1
      · exact hout
  | sweep pair side =>
    obtain ⟨horder,_,hentry⟩ := Valkey.sweep_frame ((s.exchange.db.book pair side).rangeByScore none) s.exchange.db pair side
    refine ⟨hid,fun hnone => ?_,fun p x hout hin => ?_⟩
    · exact (congrFun horder id).trans hnone
    · obtain ⟨e,he,rfl⟩ := SortedSet.mem_iff.mp hin
      exact hout (SortedSet.mem_iff.mpr ⟨e,((hentry p x e).mp he).1,rfl⟩)
  | wait ms =>
    refine ⟨hid,fun hnone => ?_,fun pair side hout => hout⟩
    simp only [Timed.wait, Valkey.pass, hnone, ite_self]

/-- The books list submitted orders only. -/
def ListsKnown (s : Timed) : Prop := ∀ pair side, ∀ id ∈ s.exchange.db.book pair side, s.Known id

lemma Step.listsKnown (h : Step s t) (hs : s.ListsKnown) : t.ListsKnown := by
  intro pair side id hin
  by_cases hid : s.Known id
  · exact (h.fades hid).known
  have hout : id ∉ s.exchange.db.book pair side := fun hold => hid (hs pair side id hold)
  cases h with
  | submit o asset amount _ _ =>
    refine ⟨o,by simp [Timed.submit, Exchange.submit],?_⟩
    cases hl : lockBalance s.exchange.db (matchArgs o asset amount) with
    | none =>
      simp only [Timed.submit, submit_of_no_lock hl] at hin
      exact absurd hin hout
    | some db₁ =>
      simp only [Timed.submit, submit_of_lock hl] at hin
      obtain ⟨e,he,rfl⟩ := SortedSet.mem_iff.mp hin
      rcases settle_entry_cases hl he with ⟨_,_,rfl⟩ | hold
      · rfl
      · exact absurd (SortedSet.mem_iff.mpr ⟨e,hold,rfl⟩) hout
  | cancel o c _ _ _ _ =>
    simp only [Timed.cancel, Exchange.remove, Valkey.removeOrderFromBook, Valkey.dropOrder_book] at hin
    split_ifs at hin
    · exact absurd (SortedSet.mem_remove.mp hin).1 hout
    · exact absurd hin hout
  | sweep p x =>
    obtain ⟨_,_,hentry⟩ := Valkey.sweep_frame ((s.exchange.db.book p x).rangeByScore none) s.exchange.db p x
    obtain ⟨e,he,rfl⟩ := SortedSet.mem_iff.mp hin
    exact absurd (SortedSet.mem_iff.mpr ⟨e,((hentry pair side e).mp he).1,rfl⟩) hout
  | wait ms => exact absurd hin hout

lemma Tracked.step (hs : s.Tracked) (h : Step s t) : t.Tracked := by
  cases h with
  | submit o asset amount hfresh hquantity =>
    have hq : 0 ≤ o.qtyI := decimalToI64_nonneg hquantity.le
    cases hl : lockBalance s.exchange.db (matchArgs o asset amount) with
    | none => exact hs.submit_refused hfresh hq hl
    | some db₁ => exact hs.submit_locked hfresh hq hl
  | cancel o c _ _ _ _ => exact hs.cancel c
  | sweep pair side => exact hs.sweep pair side
  | wait ms => exact hs.wait ms

lemma Tracked.listsKnown (hs : s.Tracked) : s.ListsKnown := by
  intro pair side id hin
  obtain ⟨e,he,rfl⟩ := SortedSet.mem_iff.mp hin
  obtain ⟨o,ho,hid,_⟩ := hs.entry pair side e he
  exact ⟨o,ho,hid⟩

end Timed

/-! ### The sweep -/

namespace Sweeping
variable {s s' : Sweeping} {s₀ : Timed}

lemma mem_zrem_book {db : Valkey} {key : String × Side} {id x : Uuid} {pair : String} {side : Side} :
    x ∈ (db.zrem key.1 key.2 id).book pair side ↔ x ∈ db.book pair side ∧ ¬ ((pair,side) = key ∧ x = id) := by
  simp only [Valkey.zrem, Prod.ext_iff]
  split_ifs with hk
  · rw [SortedSet.mem_remove]
    simp [hk]
  · exact (and_iff_left (fun h => hk h.1)).symm

/-- What is listed, or about to be removed, was submitted; and a member about to be removed has no
hash, unless its `EXISTS` failed. -/
structure Inv (s : Sweeping) : Prop where
  listsKnown : s.timed.ListsKnown
  members : ∀ id ∈ s.members, s.timed.Known id
  stale : ∀ id ∈ s.stale, s.timed.Known id ∧ (s.db.order id = none ∨ .exists id ∈ s.errors)

theorem Inv.step (hs : s.Inv) (h : Step s s') : s'.Inv := by
  cases h with
  | @zrange key rest hstale _ _ ok =>
    refine ⟨hs.listsKnown,fun id hid => ?_,fun id hid => ?_⟩
    · cases ok with
      | false => cases hid
      | true =>
        obtain ⟨e,he,_,rfl⟩ := SortedSet.mem_rangeByScore.mp hid
        exact hs.listsKnown _ _ _ (SortedSet.mem_iff.mpr ⟨e,he,rfl⟩)
    · rw [show (s.zrange key rest ok).stale = none from hstale] at hid
      cases hid
  | @checkExists id rest hstale hmembers ok =>
    refine ⟨hs.listsKnown,fun x hx => hs.members x (by rw [hmembers]; exact List.mem_cons_of_mem _ hx),fun x hx => ?_⟩
    simp only [Sweeping.checkExists] at hx ⊢
    split_ifs at hx with hk
    · cases hx
    · obtain rfl := Option.mem_some_iff.mp hx
      refine ⟨hs.members id (by rw [hmembers]; simp),?_⟩
      cases ok with
      | false => exact .inr (by simp)
      | true =>
        have hnone : s.db.order id = none := by simpa using hk
        exact .inl hnone
  | @zrem id hstale ok =>
    cases ok with
    | false => exact ⟨hs.listsKnown,hs.members,fun x hx => nomatch hx⟩
    | true =>
      exact ⟨fun pair side x hx => hs.listsKnown pair side x (mem_zrem_book.mp hx).1,hs.members,fun x hx => nomatch hx⟩
  | exchange h =>
    refine ⟨h.listsKnown hs.listsKnown,fun id hid => (h.fades (hs.members id hid)).known,fun id hid => ?_⟩
    obtain ⟨hknown,hdead⟩ := hs.stale id hid
    exact ⟨(h.fades hknown).known,hdead.imp_left (h.fades hknown).order⟩

lemma Reachable.inv (h : s.Reachable s₀) : s.Inv := by
  obtain ⟨h₀,hrun⟩ := h
  induction hrun with
  | refl => exact ⟨h₀.tracked.listsKnown,(fun id hid => nomatch hid),(fun id hid => nomatch hid)⟩
  | tail _ hstep ih => exact ih.step hstep

lemma tracked_zrem {s : Timed} (hs : s.Tracked) (key : String × Side) {id : Uuid} (hdead : s.exchange.db.order id = none) :
    (s.withDb (s.exchange.db.zrem key.1 key.2 id)).Tracked := by
  have hentry : ∀ {p x e}, e ∈ ((s.exchange.db.zrem key.1 key.2 id).book p x).entries →
      e ∈ (s.exchange.db.book p x).entries := by
    intro p x e he
    simp only [Valkey.zrem] at he
    split_ifs at he
    · exact (SortedSet.mem_entries_remove.mp he).1
    · exact he
  refine ⟨⟨hs.accounted.source,hs.accounted.remaining,hs.accounted.traded_le,hs.accounted.known,hs.accounted.nodup⟩,
    fun p x e he => hs.entry p x e (hentry he),hs.live,hs.known,hs.hour,fun o t hopen hnow => ?_⟩
  obtain ⟨⟨h,ho⟩,he⟩ := hs.present o t ⟨hopen.rested,hopen.unfilled,hopen.kept⟩ hnow
  refine ⟨⟨h,ho⟩,?_⟩
  have hne : o.id ≠ id := by
    rintro rfl
    rw [hdead] at ho
    cases ho
  simp only [Timed.withDb, Valkey.zrem]
  split_ifs
  · exact SortedSet.mem_entries_remove.mpr ⟨he,hne⟩
  · exact he

lemma Step.errors_mono (h : Step s s') {c : SweepCommand} (hc : c ∈ s.errors) : c ∈ s'.errors := by
  cases h with
  | zrange _ _ _ ok => cases ok <;> simp [Sweeping.zrange, hc]
  | checkExists _ _ ok => cases ok <;> simp [Sweeping.checkExists, hc]
  | zrem _ ok => cases ok <;> simp [Sweeping.zrem, hc]
  | exchange => exact hc

lemma Reachable.tracked (h : s.Reachable s₀) (hchecks : ∀ id, .exists id ∉ s.errors) : s.timed.Tracked := by
  obtain ⟨h₀,hrun⟩ := h
  induction hrun with
  | refl => exact h₀.tracked
  | @tail s s' hrun hstep ih =>
    have hs := ih (fun id hid => hchecks id (hstep.errors_mono hid))
    have hinv := Reachable.inv ⟨h₀,hrun⟩
    cases hstep with
    | zrange _ _ _ ok => exact hs
    | checkExists _ _ ok => exact hs
    | @zrem id hstale ok =>
      cases ok with
      | false => exact hs
      | true =>
        refine tracked_zrem hs s.bookKey ((hinv.stale id hstale).2.resolve_right (fun hfailed => ?_))
        exact hchecks id (Step.errors_mono (.zrem hstale true) hfailed)
    | exchange h => exact hs.step h

/-! ### Alone -/

lemma next_step (h : ¬ s.Done) : Step s s.next := by
  unfold next
  cases hs : s.stale with
  | some id => exact .zrem hs true
  | none =>
    cases hm : s.members with
    | cons id rest => exact .checkExists hs hm true
    | nil =>
      cases ht : s.todo with
      | cons key rest => exact .zrange hs hm ht true
      | nil => exact absurd ⟨ht,hm,hs⟩ h

lemma next_run (s : Sweeping) (n : ℕ) : Relation.ReflTransGen Step s (next^[n] s) := by
  induction n with
  | zero => exact .refl
  | succ n ih =>
    rw [Function.iterate_succ_apply']
    by_cases hdone : (next^[n] s).Done
    · obtain ⟨htodo,hmembers,hstale⟩ := hdone
      rwa [show (next^[n] s).next = next^[n] s by simp only [next, htodo, hmembers, hstale]]
    · exact ih.tail (next_step hdone)

lemma iterate_members {s : Sweeping} (ids : List Uuid) (hstale : s.stale = none) (hmembers : s.members = ids) :
    ∃ n, (next^[n] s).stale = none ∧ (next^[n] s).members = [] ∧ (next^[n] s).todo = s.todo ∧
      (next^[n] s).db = ids.foldl (fun db id => if db.order id = none then db.zrem s.bookKey.1 s.bookKey.2 id else db) s.db := by
  induction ids generalizing s with
  | nil => exact ⟨0,hstale,hmembers,rfl,rfl⟩
  | cons id ids ih =>
    have hcheck : s.next = s.checkExists id ids true := by simp only [next, hstale, hmembers]
    by_cases hid : s.db.order id = none
    · have hmarked : (s.checkExists id ids true).stale = some id := if_neg (fun h => h.2 hid)
      have hzrem : s.next.next = (s.checkExists id ids true).zrem id true := by
        rw [hcheck]
        simp only [next, hmarked]
      obtain ⟨n,hn⟩ := ih (s := s.next.next) (by rw [hzrem]; rfl) (by rw [hzrem]; rfl)
      rw [hzrem] at hn
      refine ⟨n + 2,?_⟩
      rw [Function.iterate_add_apply, show next^[2] s = s.next.next from rfl, hzrem, List.foldl_cons, if_pos hid]
      exact hn
    · have hlive : (s.checkExists id ids true).stale = none := if_pos ⟨rfl,hid⟩
      obtain ⟨n,hn⟩ := ih (s := s.checkExists id ids true) hlive rfl
      refine ⟨n + 1,?_⟩
      rw [Function.iterate_add_apply, Function.iterate_one, hcheck, List.foldl_cons, if_neg hid]
      exact hn

lemma iterate_keys {s : Sweeping} (keys : List (String × Side)) (hstale : s.stale = none) (hmembers : s.members = [])
    (htodo : s.todo = keys) : ∃ n, (next^[n] s).Done ∧
      (next^[n] s).db = keys.foldl (fun db k => db.sweepStaleOrders k.1 k.2) s.db := by
  induction keys generalizing s with
  | nil => exact ⟨0,⟨htodo,hmembers,hstale⟩,rfl⟩
  | cons key keys ih =>
    have hlist : s.next = s.zrange key keys true := by simp only [next, hstale, hmembers, htodo]
    obtain ⟨n,hstale',hmembers',htodo',hdb'⟩ := iterate_members (s := s.zrange key keys true) _ hstale rfl
    obtain ⟨m,hdone,hdb⟩ := ih hstale' hmembers' htodo'
    refine ⟨m + (n + 1),?_⟩
    rw [Function.iterate_add_apply, Function.iterate_add_apply, Function.iterate_one, hlist]
    exact ⟨hdone,by rw [hdb, hdb']; rfl⟩

/-- Left alone, the sweep comes to an end and does what `sweepAll` says. -/
theorem sweep_alone (s₀ : Timed) : ∃ n, (next^[n] (start s₀)).Done ∧ (next^[n] (start s₀)).db = s₀.exchange.db.sweepAll := by
  rw [Valkey.sweepAll]
  exact iterate_keys sweptKeys rfl rfl rfl

/-! ### Ghosts -/

/-- A ghost of the start that is still listed will be met by the sweep. -/
structure Pursues (s₀ : Timed) (s : Sweeping) : Prop where
  dead : ∀ id, s₀.Known id → s₀.exchange.db.order id = none → s.timed.Known id ∧ s.db.order id = none
  ahead : ∀ pair side, (pair,side) ∈ sweptKeys → ∀ id, s₀.Known id → s₀.exchange.db.order id = none →
    id ∈ s.db.book pair side → (pair,side) ∈ s.todo ∨ (s.bookKey = (pair,side) ∧ (id ∈ s.members ∨ s.stale = some id))

theorem Pursues.step (hs : Pursues s₀ s) (h : Step s s') (hlists : ∀ key, .zrange key ∉ s'.errors)
    (hremoves : ∀ id, .zrem id ∉ s'.errors) : Pursues s₀ s' := by
  cases h with
  | @zrange key rest hstale hmembers htodo ok =>
    refine ⟨hs.dead,fun pair side hkey id hid hdead hin => ?_⟩
    cases ok with
    | false => exact absurd (by simp [Sweeping.zrange]) (hlists key)
    | true =>
      rcases hs.ahead pair side hkey id hid hdead hin with hto | ⟨_,hmem | hst⟩
      · rw [htodo] at hto
        rcases List.mem_cons.mp hto with rfl | hto
        · obtain ⟨e,he,rfl⟩ := SortedSet.mem_iff.mp hin
          exact .inr ⟨rfl,.inl (SortedSet.mem_rangeByScore.mpr ⟨e,he,by simp,rfl⟩)⟩
        · exact .inl hto
      · rw [hmembers] at hmem
        cases hmem
      · rw [hstale] at hst
        cases hst
  | @checkExists x rest hstale hmembers ok =>
    refine ⟨hs.dead,fun pair side hkey id hid hdead hin => ?_⟩
    rcases hs.ahead pair side hkey id hid hdead hin with hto | ⟨hk,hmem | hst⟩
    · exact .inl hto
    · refine .inr ⟨hk,?_⟩
      rw [hmembers] at hmem
      rcases List.mem_cons.mp hmem with rfl | hmem
      · -- its hash is missing, so it is the one to be removed
        exact .inr (if_neg (fun h => h.2 (hs.dead id hid hdead).2))
      · exact .inl hmem
    · rw [hstale] at hst
      cases hst
  | @zrem x hstale ok =>
    cases ok with
    | false => exact absurd (by simp [Sweeping.zrem]) (hremoves x)
    | true =>
      refine ⟨hs.dead,fun pair side hkey id hid hdead hin => ?_⟩
      obtain ⟨hin,hkept⟩ := mem_zrem_book.mp hin
      rcases hs.ahead pair side hkey id hid hdead hin with hto | ⟨hk,hmem | hst⟩
      · exact .inl hto
      · exact .inr ⟨hk,.inl hmem⟩
      · rw [hstale] at hst
        exact absurd ⟨hk.symm,(Option.some.inj hst).symm⟩ hkept
  | exchange h =>
    refine ⟨fun id hid hdead => ?_,fun pair side hkey id hid hdead hin => ?_⟩
    · obtain ⟨hknown,hnone⟩ := hs.dead id hid hdead
      exact ⟨(h.fades hknown).known,(h.fades hknown).order hnone⟩
    · refine hs.ahead pair side hkey id hid hdead ?_
      by_contra hout
      exact (h.fades (hs.dead id hid hdead).1).book pair side hout hin

lemma Reachable.pursues (h : s.Reachable s₀) (hlists : ∀ key, .zrange key ∉ s.errors) (hremoves : ∀ id, .zrem id ∉ s.errors) :
    Pursues s₀ s := by
  obtain ⟨h₀,hrun⟩ := h
  induction hrun with
  | refl => exact ⟨fun id hid hdead => ⟨hid,hdead⟩,fun pair side hkey id _ _ _ => .inl hkey⟩
  | tail _ hstep ih =>
    exact (ih (fun key hc => hlists key (hstep.errors_mono hc)) (fun id hc => hremoves id (hstep.errors_mono hc))).step
      hstep hlists hremoves

end Sweeping

/-- Run at any time, the sweep takes away only what has no hash, unless an `EXISTS` fails: while none
has failed, every open order within its hour keeps its hash and its place in the book, whatever goes on
in between. -/
theorem sweep_spares_open_orders {s₀ : Timed} {s : Sweeping} (h : s.Reachable s₀) :
    (∀ s' id ok, s.stale = some id → s' = s.zrem id ok → ∀ pair side x, x ∈ s.db.book pair side →
      x ∉ s'.db.book pair side → s.db.order x = none ∨ .exists x ∈ s.errors) ∧
    ((∀ id, .exists id ∉ s.errors) → ∀ o t, s.timed.Open o t → s.timed.now < t + restingTtl →
      (∃ h, s.db.order o.id = some h) ∧ o.id ∈ s.db.book o.pairId o.side) := by
  refine ⟨?_,fun hchecks o t hopen hnow => ?_⟩
  · rintro s' id ok hstale rfl pair side x hin hout
    cases ok with
    | false => exact absurd hin hout
    | true =>
      have hx : x = id := by
        by_contra hne
        exact hout (Sweeping.mem_zrem_book.mpr ⟨hin,fun h => hne h.2⟩)
      rw [hx]
      exact (h.inv.stale id hstale).2
  · obtain ⟨hhash,hentry⟩ := (h.tracked hchecks).present o t hopen hnow
    exact ⟨hhash,SortedSet.mem_iff.mpr ⟨_,hentry,rfl⟩⟩

/-- Alice's offer survives a sweep. -/
theorem sweep_spares_fresh_offer : let s := Sweeping.next^[8] (Sweeping.start (Timed.offerAged 0))
    (∃ h, s.db.order 1 = some h) ∧ 1 ∈ s.db.book "BTC-USDT" .sell := by
  intro s
  have hreach : s.Reachable (Timed.offerAged 0) := ⟨Timed.offerAged_reachable 0,Sweeping.next_run _ 8⟩
  have herrors : s.errors = [] := by decide +kernel
  exact (sweep_spares_open_orders hreach).2 (by simp [herrors]) (.gtcLimit 1 "alice" "BTC-USDT" .sell 100 1) 0
    (by decide +kernel) (by decide +kernel)

/-- Once the loops are through, no order that was a ghost at the start is in any of the six sets,
unless a `ZRANGE` or a `ZREM` failed. -/
theorem sweep_removes_ghosts {s₀ : Timed} {s : Sweeping} (h : s.Reachable s₀) (hdone : s.Done)
    (hlists : ∀ key, .zrange key ∉ s.errors) (hremoves : ∀ id, .zrem id ∉ s.errors) {pair : String} (hpair : pair ∈ sweptPairs)
    {side : Side} {id : Uuid} (hin : id ∈ s₀.exchange.db.book pair side) (hghost : s₀.exchange.db.order id = none) :
    id ∉ s.db.book pair side := by
  have hkey : (pair,side) ∈ sweptKeys := by
    cases side <;> simp [sweptKeys, hpair]
  obtain ⟨htodo,hmembers,hstale⟩ := hdone
  intro hstill
  rcases (h.pursues hlists hremoves).ahead pair side hkey id (h.1.tracked.listsKnown pair side id hin) hghost hstill with
    hto | ⟨_,hmem | hst⟩
  · rw [htodo] at hto
    cases hto
  · rw [hmembers] at hmem
    cases hmem
  · rw [hstale] at hst
    cases hst

/-- After an hour it is swept away. -/
theorem sweep_removes_expired_offer : let s := Sweeping.next^[8] (Sweeping.start (Timed.offerAged 3600000))
    1 ∈ (Timed.offerAged 3600000).exchange.db.book "BTC-USDT" .sell ∧ 1 ∉ s.db.book "BTC-USDT" .sell := by
  intro s
  have hreach : s.Reachable (Timed.offerAged 3600000) := ⟨Timed.offerAged_reachable _,Sweeping.next_run _ 8⟩
  have herrors : s.errors = [] := by decide +kernel
  have hin : 1 ∈ (Timed.offerAged 3600000).exchange.db.book "BTC-USDT" .sell := by decide +kernel
  exact ⟨hin,sweep_removes_ghosts hreach (by decide +kernel) (by simp [herrors]) (by simp [herrors]) (by decide) hin
    (by decide +kernel)⟩

end MatchingEngine

import MatchingEngine.PersistEquivalence
import MatchingEngine.PersistReplay
import MatchingEngine.PositivePrices

/-! The persist worker. Jobs go through a channel of a thousand; the worker takes them out in batches of
up to fifty, as they happen to be there, and writes each batch in one transaction. A job that finds the
channel full is written at once by a task of its own, one statement after the other. Without such tasks
and whatever the batches are, the tables are those of a prefix of the jobs persisted one by one, as long
as no batch hides a fill of an order of its own. -/
namespace MatchingEngine
open Library

/-- What `process_persist_job` commits, one after the other. -/
def Matched.commits (job : Matched) : List (Postgres → Except String Postgres) :=
  [fun pg => Columns.insertOrder pg job.order,
    fun pg => Columns.persistTrades pg job.trades,
    fun pg => .ok (pg.updateRestingOrdersAfterLua job.luaTrades),
    fun pg => .ok (pg.updateOrder job.order.id (finishRow job.order)),
    fun pg => pg.release job.order]

lemma Matched.foldlM_commits (job : Matched) (pg : Postgres) :
    job.commits.foldlM (fun pg f => f pg) pg = (Columns.processPersistJob pg job).1.map (fun _ => (Columns.processPersistJob pg job).2) := by
  simp only [Matched.commits, List.foldlM_cons, List.foldlM_nil, Columns.processPersistJob]
  cases Columns.insertOrder pg job.order with
  | error e => rfl
  | ok pg₁ =>
    simp only [bind, Except.bind]
    cases Columns.persistTrades pg₁ job.trades with
    | error e => rfl
    | ok pg₂ =>
      simp only
      cases Postgres.release _ job.order <;> rfl

/-- The channel, the batch that is being collected or written, what the tasks of the spawned jobs have
still to commit, and what has happened so far: the jobs sent, those spawned because the channel was
full, and the batches with their outcomes. -/
structure PersistWorker where
  pg : Postgres
  channel : List PersistJob
  batch : List PersistJob
  writing : Bool
  running : List (List (Postgres → Except String Postgres))
  sent : List PersistJob
  spawned : List PersistJob
  batches : List (List PersistJob × Bool)

namespace PersistWorker

/-- `mpsc::channel(1000)`. -/
def capacity : ℕ := 1000

def batchLimit : ℕ := 50

def start (pg : Postgres) : PersistWorker := ⟨pg,[],[],false,[],[],[],[]⟩

/-- `try_send` by an order's task; a commit of a spawned task, or its end (also by an error); `recv` and
`try_recv` by the worker until fifty jobs are collected or none is there; and the transaction, which
commits or is rolled back. -/
inductive Step : PersistWorker → PersistWorker → Prop
  | send {s : PersistWorker} (job : PersistJob) (room : s.channel.length < capacity) :
      Step s { s with channel := s.channel ++ [job], sent := s.sent ++ [job] }
  | spawn {s : PersistWorker} (job : PersistJob) (full : ¬ s.channel.length < capacity) :
      Step s { s with spawned := s.spawned ++ [job], running := s.running ++ [job.commits] }
  | write {s : PersistWorker} {pre post : List (List (Postgres → Except String Postgres))} {f : Postgres → Except String Postgres}
      {rest : List (Postgres → Except String Postgres)} {pg' : Postgres} (hrunning : s.running = pre ++ (f :: rest) :: post)
      (hwrite : f s.pg = .ok pg') :
      Step s { s with pg := pg', running := pre ++ rest :: post }
  | finish {s : PersistWorker} {pre post : List (List (Postgres → Except String Postgres))}
      {left : List (Postgres → Except String Postgres)} (hrunning : s.running = pre ++ left :: post) :
      Step s { s with running := pre ++ post }
  | recv {s : PersistWorker} {job : PersistJob} {rest : List PersistJob} (hbatch : s.batch = []) (hchannel : s.channel = job :: rest) :
      Step s { s with channel := rest, batch := [job] }
  | tryRecv {s : PersistWorker} {job : PersistJob} {rest : List PersistJob} (hbatch : s.batch ≠ []) (hwriting : s.writing = false)
      (hroom : s.batch.length < batchLimit) (hchannel : s.channel = job :: rest) :
      Step s { s with channel := rest, batch := s.batch ++ [job] }
  | close {s : PersistWorker} (hbatch : s.batch ≠ []) (hfull : s.batch.length = batchLimit ∨ s.channel = []) :
      Step s { s with writing := true }
  | commit {s : PersistWorker} {pg' : Postgres} (hwriting : s.writing = true)
      (hcommit : Columns.processPersistBatch s.pg s.batch = .ok pg') :
      Step s { s with pg := pg', batch := [], writing := false, batches := s.batches ++ [(s.batch,true)] }
  | rollback {s : PersistWorker} (hwriting : s.writing = true) :
      Step s { s with batch := [], writing := false, batches := s.batches ++ [(s.batch,false)] }

def Reachable (pg : Postgres) (s : PersistWorker) : Prop := Relation.ReflTransGen Step (start pg) s

/-- The jobs of the batches so far. -/
def written (s : PersistWorker) : List PersistJob := s.batches.flatMap Prod.fst

/-- The batches that were committed. -/
def committed (s : PersistWorker) : List (List PersistJob) := (s.batches.filter Prod.snd).map Prod.fst

end PersistWorker

/-! ### Trades that stay -/

/-- No trade is lost. -/
def KeepsTrades (pg pg' : Postgres) : Prop := ∀ id, (pg.trades.get id).isSome → (pg'.trades.get id).isSome

section Trades
variable {pg pg' : Postgres}

lemma KeepsTrades.of_eq (h : pg'.trades = pg.trades) : KeepsTrades pg pg' := fun id hid => by rwa [h]

lemma KeepsTrades.trans {pg'' : Postgres} (h : KeepsTrades pg pg') (h' : KeepsTrades pg' pg'') : KeepsTrades pg pg'' :=
  fun id hid => h' id (h id hid)

lemma Columns.insertOrder_trades {o : Order} (h : Columns.insertOrder pg o = .ok pg') : pg'.trades = pg.trades := by
  unfold Columns.insertOrder at h
  cases hrow : Columns.orderRow o with
  | error e =>
    rw [hrow] at h
    cases h
  | ok row =>
    rw [hrow] at h
    cases h
    exact pg.insertOrder_trades row

lemma Columns.upsertDeltas_trades {d : Deltas} (h : Columns.upsertDeltas pg d = .ok pg') : pg'.trades = pg.trades := by
  refine foldlM_invariant (P := fun x => x.trades = pg.trades) (fun r _ x x' hx ht => ?_) h rfl
  obtain ⟨k,_,hx⟩ := exists_of_bind_ok hx
  cases hx
  exact ht

lemma Columns.exists_tradeRow {ts us : List Trade} (h : ts.mapM Columns.tradeRow = .ok us) : ∀ t ∈ ts, ∃ u ∈ us, u.id = t.id := by
  induction ts generalizing us with
  | nil => simp
  | cons t ts ih =>
    rw [List.mapM_cons] at h
    obtain ⟨u,hu,h⟩ := exists_of_bind_ok h
    obtain ⟨vs,hvs,h⟩ := exists_of_bind_ok h
    cases h
    have hid : u.id = t.id := by
      unfold Columns.tradeRow at hu
      obtain ⟨_,_,hu⟩ := exists_of_bind_ok hu
      obtain ⟨_,_,hu⟩ := exists_of_bind_ok hu
      obtain ⟨_,_,hu⟩ := exists_of_bind_ok hu
      cases hu
      rfl
    refine List.forall_mem_cons.mpr ⟨⟨u,List.mem_cons_self,hid⟩,fun t' ht' => ?_⟩
    obtain ⟨v,hv,hvid⟩ := ih hvs t' ht'
    exact ⟨v,List.mem_cons_of_mem u hv,hvid⟩

lemma Columns.insertTrades_keeps {ts : List Trade} (h : Columns.insertTrades pg ts = .ok pg') :
    KeepsTrades pg pg' ∧ ∀ t ∈ ts, (pg'.trades.get t.id).isSome := by
  unfold Columns.insertTrades at h
  cases hrows : ts.mapM Columns.tradeRow with
  | error e =>
    rw [hrows] at h
    cases h
  | ok us =>
    rw [hrows] at h
    cases h
    constructor
    · intro id hid
      refine List.foldlRecOn (motive := fun t : Table Uuid Trade => (t.get id).isSome) us _ hid (fun t ht trade _ => ?_)
      rw [Table.get_insertNew]
      split_ifs
      · rfl
      · exact ht
    · intro t ht
      obtain ⟨u,hu,hid⟩ := Columns.exists_tradeRow hrows t ht
      rw [← hid]
      exact insertTrades_isSome pg us u hu

lemma Columns.persistTrades_keeps {ts : List Trade} (h : Columns.persistTrades pg ts = .ok pg') :
    KeepsTrades pg pg' ∧ ∀ t ∈ ts, (pg'.trades.get t.id).isSome := by
  obtain ⟨pg₁,hinsert,h⟩ := exists_of_bind_ok h
  obtain ⟨d,_,h⟩ := exists_of_bind_ok h
  rw [KeepsTrades, Columns.upsertDeltas_trades h]
  exact Columns.insertTrades_keeps hinsert

lemma Matched.commits_keep {job : Matched} {f : Postgres → Except String Postgres} (hf : f ∈ job.commits) (h : f pg = .ok pg') :
    KeepsTrades pg pg' := by
  simp only [Matched.commits, List.mem_cons, List.not_mem_nil, or_false] at hf
  rcases hf with rfl | rfl | rfl | rfl | rfl
  · exact .of_eq (Columns.insertOrder_trades h)
  · exact (Columns.persistTrades_keeps h).1
  · cases h
    rw [Postgres.updateRestingOrdersAfterLua_eq]
    exact .of_eq rfl
  · cases h
    exact .of_eq rfl
  · exact .of_eq (Postgres.release_ok h).2.1

lemma Columns.processPersistBatch_keeps {batch : List PersistJob} (h : Columns.processPersistBatch pg batch = .ok pg') :
    KeepsTrades pg pg' ∧ ∀ job ∈ batch, ∀ t ∈ job.trades, (pg'.trades.get t.id).isSome := by
  obtain ⟨pg₁,hinsert,h⟩ := exists_of_bind_ok h
  obtain ⟨pg₂,htrades,h⟩ := exists_of_bind_ok h
  obtain ⟨d,hd,h⟩ := exists_of_bind_ok h
  obtain ⟨pg₃,hupsert,h⟩ := exists_of_bind_ok h
  have horders : pg₁.trades = pg.trades := by
    refine foldlM_invariant (P := fun x : Postgres => x.trades = pg.trades) (fun job _ x x' hx ht => ?_) hinsert rfl
    exact (Columns.insertOrder_trades hx).trans ht
  obtain ⟨hkeep,hthere⟩ := Columns.insertTrades_keeps htrades
  have hrest : pg'.trades = pg₂.trades := by
    refine foldlM_invariant (P := fun x : Postgres => x.trades = pg₂.trades) (fun job _ x x' hx ht => ?_) h ?_
    · exact (Postgres.release_ok hx).2.1.trans ht
    · refine List.foldlRecOn (motive := fun x : Postgres => x.trades = pg₂.trades) batch _ ?_ (fun x hx job _ => hx)
      refine List.foldlRecOn (motive := fun x : Postgres => x.trades = pg₂.trades) batch _ ?_ (fun x hx job _ => ?_)
      · exact Columns.upsertDeltas_trades hupsert
      · rw [Postgres.updateRestingOrdersAfterLua_eq]
        exact hx
  refine ⟨(KeepsTrades.of_eq horders).trans (hkeep.trans (.of_eq hrest)),fun job hjob t ht => ?_⟩
  rw [hrest]
  exact hthere t (List.mem_flatMap.mpr ⟨job,hjob,ht⟩)

end Trades

namespace PersistWorker

/-- Jobs leave the channel in the order in which they were sent, and into one batch each. What is
committed stays. -/
structure Inv (pg : Postgres) (s : PersistWorker) : Prop where
  order : s.sent = s.written ++ s.batch ++ s.channel
  channel : s.channel.length ≤ capacity
  batch : s.batch.length ≤ batchLimit
  nonempty : s.writing = true → s.batch ≠ []
  batches : ∀ b ∈ s.batches, 1 ≤ b.1.length ∧ b.1.length ≤ batchLimit
  running : ∀ left ∈ s.running, ∃ job ∈ s.spawned, left ⊆ job.commits
  trades : ∀ job ∈ s.committed.flatten, ∀ t ∈ job.trades, (s.pg.trades.get t.id).isSome
  tables : s.spawned = [] → s.committed.foldlM Columns.processPersistBatch pg = .ok s.pg

lemma committed_commit (s : PersistWorker) (pg' : Postgres) :
    committed { s with pg := pg', batch := [], writing := false, batches := s.batches ++ [(s.batch,true)] } = s.committed ++ [s.batch] := by
  simp [committed]

lemma committed_rollback (s : PersistWorker) :
    committed { s with batch := [], writing := false, batches := s.batches ++ [(s.batch,false)] } = s.committed := by
  simp [committed]

lemma written_append (s : PersistWorker) (ok : Bool) : (s.batches ++ [(s.batch,ok)]).flatMap Prod.fst = s.written ++ s.batch := by
  simp [written]

lemma Inv.batches_append {pg : Postgres} {s : PersistWorker} (hs : s.Inv pg) (hw : s.writing = true) (ok : Bool) :
    ∀ b ∈ s.batches ++ [(s.batch,ok)], 1 ≤ b.1.length ∧ b.1.length ≤ batchLimit := by
  intro b hb
  rcases List.mem_append.mp hb with hold | hnew
  · exact hs.batches b hold
  · rw [List.mem_singleton.mp hnew]
    exact ⟨List.length_pos_of_ne_nil (hs.nonempty hw),hs.batch⟩

theorem Inv.step {pg : Postgres} {s s' : PersistWorker} (hs : s.Inv pg) (h : Step s s') : s'.Inv pg := by
  have happend := hs.batches_append
  obtain ⟨horder,hchannel,hbatch,hnonempty,hbatches,hrunning,htrades,htables⟩ := hs
  cases h with
  | send job room =>
    refine ⟨?_,?_,hbatch,hnonempty,hbatches,hrunning,htrades,htables⟩
    · simp only [written] at horder ⊢
      rw [horder]
      simp only [List.append_assoc]
    · rw [List.length_append, List.length_singleton]
      omega
  | spawn job full =>
    refine ⟨horder,hchannel,hbatch,hnonempty,hbatches,?_,htrades,fun hf => absurd hf (by simp)⟩
    intro left hleft
    rcases List.mem_append.mp hleft with hold | hnew
    · obtain ⟨job',hjob',hsub⟩ := hrunning left hold
      exact ⟨job',List.mem_append_left _ hjob',hsub⟩
    · rw [List.mem_singleton.mp hnew]
      exact ⟨job,by simp,List.Subset.refl _⟩
  | @write pre post f rest pg' hr hwrite =>
    obtain ⟨job,hjob,hsub⟩ := hrunning (f :: rest) (by simp [hr])
    have hkeep := Matched.commits_keep (hsub List.mem_cons_self) hwrite
    refine ⟨horder,hchannel,hbatch,hnonempty,hbatches,?_,fun j hj t ht => hkeep _ (htrades j hj t ht),fun hf => ?_⟩
    · intro left hleft
      rcases List.mem_append.mp hleft with hpre | hpost
      · exact hrunning left (by simp [hr, hpre])
      · rcases List.mem_cons.mp hpost with rfl | hpost
        · exact ⟨job,hjob,fun g hg => hsub (List.mem_cons_of_mem f hg)⟩
        · exact hrunning left (by simp [hr, hpost])
    · rw [show s.spawned = [] from hf] at hjob
      cases hjob
  | @finish pre post left hr =>
    refine ⟨horder,hchannel,hbatch,hnonempty,hbatches,?_,htrades,htables⟩
    intro left' hleft
    refine hrunning left' ?_
    rw [hr]
    rcases List.mem_append.mp hleft with hpre | hpost
    · exact List.mem_append_left _ hpre
    · exact List.mem_append_right _ (List.mem_cons_of_mem left hpost)
  | recv hb hc =>
    rw [hc, List.length_cons] at hchannel
    refine ⟨?_,by dsimp only; omega,by simp [batchLimit],fun _ => by simp,hbatches,hrunning,htrades,htables⟩
    simp only [written] at horder ⊢
    simpa [hb, hc] using horder
  | tryRecv hb hw hroom hc =>
    rw [hc, List.length_cons] at hchannel
    refine ⟨?_,by dsimp only; omega,?_,fun _ => by simp,hbatches,hrunning,htrades,htables⟩
    · simp only [written] at horder ⊢
      simpa [hc] using horder
    · rw [List.length_append, List.length_singleton]
      omega
  | close hb hfull => exact ⟨horder,hchannel,hbatch,fun _ => hb,hbatches,hrunning,htrades,htables⟩
  | @commit pg' hw hcommit =>
    obtain ⟨hkeep,hthere⟩ := Columns.processPersistBatch_keeps hcommit
    refine ⟨?_,hchannel,Nat.zero_le _,fun hf => Bool.noConfusion hf,happend hw true,hrunning,?_,fun hf => ?_⟩
    · rw [written, written_append, horder]
      simp
    · rw [committed_commit]
      intro job hjob t ht
      rw [List.flatten_append, List.mem_append, List.flatten_singleton] at hjob
      rcases hjob with hold | hnew
      · exact hkeep _ (htrades job hold t ht)
      · exact hthere job hnew t ht
    · rw [committed_commit, List.foldlM_append, htables hf]
      exact bind_pure (Columns.processPersistBatch s.pg s.batch) |>.trans hcommit
  | rollback hw =>
    refine ⟨?_,hchannel,Nat.zero_le _,fun hf => Bool.noConfusion hf,happend hw false,hrunning,?_,fun hf => ?_⟩
    · rw [written, written_append, horder]
      simp
    · rw [committed_rollback]
      exact htrades
    · rw [committed_rollback]
      exact htables hf

lemma committed_of_all {s : PersistWorker} (h : ∀ b ∈ s.batches, b.2 = true) : s.committed = s.batches.map Prod.fst := by
  rw [committed, List.filter_eq_self.mpr h]

lemma committed_flatten_of_all {s : PersistWorker} (h : ∀ b ∈ s.batches, b.2 = true) : s.committed.flatten = s.written := by
  rw [committed_of_all h, written, List.flatMap_def]

lemma Inv.isPrefix_written {pg : Postgres} {s : PersistWorker} (h : s.Inv pg) : s.written <+: s.sent := by
  rw [h.order, List.append_assoc]
  exact List.prefix_append _ _

theorem Reachable.inv {pg : Postgres} {s : PersistWorker} (h : s.Reachable pg) : s.Inv pg := by
  induction h with
  | refl =>
    exact ⟨rfl,Nat.zero_le _,Nat.zero_le _,fun hf => Bool.noConfusion hf,by simp [start],by simp [start],by simp [start, committed],
      fun _ => rfl⟩
  | tail _ hstep ih => exact ih.step hstep

end PersistWorker

/-! ### Batches against single jobs -/

/-- The same orders and trades, and the same balance rows. -/
structure Postgres.Alike (pg pg' : Postgres) : Prop where
  orders : pg.orders = pg'.orders
  trades : pg.trades = pg'.trades
  balances : ∀ k, pg.balances.get k = pg'.balances.get k

/-- No batch inserts an order that it also fills, and none changes a balance row otherwise than its jobs
would one by one; all its texts fit their columns. -/
def Postgres.HidesNothing : Postgres → List (List PersistJob) → Prop
  | _, [] => True
  | pg, b :: bs => (∀ job ∈ b, job.FitsColumns) ∧ NoInnerFill pg.orders b ∧ RowsAgree pg.balances b ∧
      HidesNothing (pg.processBatch b) bs

lemma rowSequential_isSome (es : List RowEvent) (b : Option Balance) :
    (rowSequential b es).isSome = (b.isSome || es.any (fun e => e.settled.isSome)) := by
  induction es generalizing b with
  | nil => simp [rowSequential]
  | cons e es ih =>
    have hrow : rowSequential b (e :: es) = rowSequential (releaseOpt e.released (settleOpt e.settled b)) es := rfl
    rw [hrow, ih, List.any_cons, ← Bool.or_assoc]
    congr 1
    cases e.settled <;> cases e.released <;> cases b <;> rfl

lemma rowBatch_isSome (es : List RowEvent) (b : Option Balance) :
    (rowBatch b es).isSome = (b.isSome || es.any (fun e => e.settled.isSome)) := by
  have hreleases : ∀ (fs : List RowEvent) (c : Option Balance), (releases c fs).isSome = c.isSome := by
    intro fs
    induction fs with
    | nil => exact fun _ => rfl
    | cons f fs ih =>
      intro c
      have hrow : releases c (f :: fs) = releases (releaseOpt f.released c) fs := rfl
      rw [hrow, ih]
      cases f.released <;> cases c <;> rfl
  have htotal : (totalSettled es).isSome = es.any (fun e => e.settled.isSome) := by
    induction es with
    | nil => rfl
    | cons e es ih =>
      have hmerge : totalSettled (e :: es) = e.settled.merge (· + ·) (totalSettled es) := rfl
      rw [hmerge, List.any_cons, ← ih]
      cases e.settled <;> cases totalSettled es <;> rfl
  rw [rowBatch, hreleases, ← htotal]
  cases totalSettled es <;> cases b <;> rfl

lemma eq_of_readRow {b c : Option Balance} (hread : readRow b = readRow c) (hsome : b.isSome = c.isSome) : b = c := by
  cases b with
  | none =>
    cases c with
    | none => rfl
    | some y => cases hsome
  | some x =>
    cases c with
    | none => cases hsome
    | some y => exact congrArg some hread

section Batches
variable {pg pg' : Postgres}

lemma Postgres.Alike.batch (h : pg.Alike pg') {b : List PersistJob} (hm : MatchedInOrder b)
    (hfill : NoInnerFill pg.orders b) (hrows : RowsAgree pg.balances b) : (pg.processBatch b).Alike (pg'.processJobs b) := by
  obtain ⟨hbo,hbt,hbb⟩ := Postgres.processBatch_eq hm.parses pg
  obtain ⟨hso,hst,hsb⟩ := Postgres.processJobs_eq hm.parses pg'
  constructor
  · rw [hbo, hso, ordersBatch_eq_sequential hm.order hfill, h.orders]
  · rw [hbt, hst, h.trades]
  · intro k
    rw [hbb, hsb, ← h.balances]
    apply eq_of_readRow
    · exact (rowBatch_eq_iff _ _).mpr (hrows k)
    · rw [rowBatch_isSome, rowSequential_isSome]

lemma MatchedInOrder.sublist {jobs jobs' : List PersistJob} (h : MatchedInOrder jobs) (hs : List.Sublist jobs' jobs) :
    MatchedInOrder jobs' :=
  ⟨h.order.sublist hs,⟨fun job hjob => h.openWhenFilled.1 job (hs.subset hjob),h.openWhenFilled.2.sublist hs⟩,
    fun job hjob => h.parses job (hs.subset hjob),fun job hjob => h.quantity job (hs.subset hjob),
    fun job hjob => h.remaining job (hs.subset hjob)⟩

/-- All batches. -/
theorem Postgres.Alike.batches {bs : List (List PersistJob)} {final : Postgres} (h : pg.Alike pg') (hm : MatchedInOrder bs.flatten)
    (hh : pg.HidesNothing bs) (hfinal : bs.foldlM Columns.processPersistBatch pg = .ok final) :
    final.Alike (pg'.processJobs bs.flatten) := by
  induction bs generalizing pg pg' with
  | nil =>
    cases hfinal
    exact h
  | cons b bs ih =>
    obtain ⟨hfit,hfill,hrows,hrest⟩ := hh
    have hfirst : List.Sublist b (b :: bs).flatten := by
      rw [List.flatten_cons]
      exact List.sublist_append_left _ _
    have hlater : List.Sublist bs.flatten (b :: bs).flatten := by
      rw [List.flatten_cons]
      exact List.sublist_append_right _ _
    have hjobs : pg'.processJobs (b :: bs).flatten = (pg'.processJobs b).processJobs bs.flatten := by
      rw [List.flatten_cons]
      exact List.foldl_append
    rw [List.foldlM_cons] at hfinal
    obtain ⟨pg₁,hcommit,hfinal⟩ := exists_of_bind_ok hfinal
    have hpg₁ : pg.processBatch b = pg₁ := by
      rw [← Columns.processBatch_eq pg hfit, Columns.processBatch, hcommit]
      rfl
    rw [hpg₁] at hrest
    rw [hjobs]
    exact ih (hpg₁ ▸ h.batch (hm.sublist hfirst) hfill hrows) (hm.sublist hlater) hrest hfinal

end Batches

lemma Postgres.HidesNothing.fits {pg : Postgres} {bs : List (List PersistJob)} (h : pg.HidesNothing bs) :
    ∀ job ∈ bs.flatten, job.FitsColumns := by
  induction bs generalizing pg with
  | nil => simp
  | cons b bs ih =>
    intro job hjob
    rw [List.flatten_cons, List.mem_append] at hjob
    exact hjob.elim (h.1 job) (ih h.2.2.2 job)

lemma PersistWorker.committed_sublist (s : PersistWorker) : List.Sublist s.committed.flatten s.written := by
  unfold PersistWorker.committed PersistWorker.written
  rw [List.flatMap_def]
  exact (List.filter_sublist.map Prod.fst).flatten

/-- At any time the jobs sent are those of the batches so far, in order and each in one batch, at most fifty
that the worker holds, and at most a thousand that wait; batches have one to fifty jobs. Trades that are
committed stay, whatever else is written. As long as no job finds the channel full, jobs are sent in the order of
their matches and no batch hides an effect of its own jobs, the tables are those that the jobs of the
committed batches leave when they are persisted one by one. -/
theorem persist_worker_tables {pairs : PairsCache} {e : Exchange} {jobs : List PersistJob} {pg : Postgres} {s : PersistWorker}
    (he : Reachable (fun _ o => 0 < o.quantity) e) (hjobs : Produces pairs e jobs) (h : s.Reachable pg) :
    s.sent = s.written ++ (s.batch ++ s.channel) ∧ s.batch.length ≤ 50 ∧ s.channel.length ≤ 1000 ∧
    (∀ b ∈ s.batches, 1 ≤ b.1.length ∧ b.1.length ≤ 50) ∧
    List.Sublist s.committed.flatten s.written ∧ ((∀ b ∈ s.batches, b.2 = true) → s.committed.flatten = s.written) ∧
    (∀ job ∈ s.committed.flatten, ∀ t ∈ job.trades, (s.pg.trades.get t.id).isSome) ∧
    (s.spawned = [] → List.Sublist s.sent jobs → pg.HidesNothing s.committed →
      s.pg.Alike (Columns.processJobs pg s.committed.flatten)) := by
  obtain ⟨horder,hchannel,hbatch,_,hbatches,_,htrades,htables⟩ := h.inv
  refine ⟨by rw [horder, List.append_assoc],hbatch,hchannel,hbatches,s.committed_sublist,PersistWorker.committed_flatten_of_all,
    htrades,fun hspawned hsent hh => ?_⟩
  have hsub : List.Sublist s.committed.flatten jobs :=
    s.committed_sublist.trans (h.inv.isPrefix_written.sublist.trans hsent)
  have hstart : pg.Alike pg := ⟨rfl,rfl,fun _ => rfl⟩
  rw [Columns.processJobs_eq pg hh.fits]
  exact hstart.batches ((hjobs.matchedInOrder he.sourced).sublist hsub) hh (htables hspawned)

lemma PersistWorker.reachable_pair {pg pg' : Postgres} {a b : PersistJob} (h : Columns.processPersistBatch pg [a,b] = .ok pg') :
    PersistWorker.Reachable pg ⟨pg',[],[],false,[],[a,b],[],[([a,b],true)]⟩ := by
  have hsent : PersistWorker.Reachable pg ⟨pg,[a,b],[],false,[],[a,b],[],[]⟩ :=
    (Relation.ReflTransGen.refl.tail (.send a (by simp [start, capacity]))).tail (.send b (by simp [start, capacity]))
  have hcollected : PersistWorker.Reachable pg ⟨pg,[],[a,b],false,[],[a,b],[],[]⟩ :=
    (hsent.tail (.recv rfl rfl)).tail (.tryRecv (by simp) rfl (by simp [batchLimit]) rfl)
  exact (hcollected.tail (.close (by simp) (.inr rfl))).tail (.commit rfl h)

/-- Alice's offer and a bid below it. -/
def offerAndBid : List PersistJob :=
  twoJobs ⟨(Session.funded (10 ^ 12)).sys.db,[],[]⟩ (limitMsg 1 "alice" .sell 100 1) (limitMsg 2 "bob" .buy 90 1)
    (oneBitcoin 1 "alice" .sell 100) "BTC" 100000000

theorem persist_worker_of_two : ∃ s : PersistWorker, s.Reachable .empty ∧ s.sent = offerAndBid ∧ s.sent.length = 2 ∧
    s.pg.Alike (Columns.processJobs .empty offerAndBid) := by
  have hs : Reachable (fun _ p => 0 < p.quantity) ⟨(Session.funded (10 ^ 12)).sys.db,[],[]⟩ :=
    ⟨_,⟨fun _ _ => rfl,fun _ => rfl⟩,.refl⟩
  have hprod : Produces btcUsdt ⟨(Session.funded (10 ^ 12)).sys.db,[],[]⟩ offerAndBid :=
    twoJobs_produces (oneBitcoin 2 "bob" .buy 90) "USDT" 9000000000 (by decide +kernel) (by decide +kernel)
      (by decide +kernel) (by decide +kernel) (by decide +kernel) (by decide +kernel) (by decide +kernel)
      (by decide +kernel) (by decide +kernel) (by decide +kernel)
  have hlength : offerAndBid.length = 2 := by decide +kernel
  obtain ⟨a,b,hjobs⟩ := List.length_eq_two.mp hlength
  have hrel : ∀ job ∈ offerAndBid, ¬ job.order.NeedsRelease := by decide +kernel
  have hprices : PricesNonneg offerAndBid := by decide +kernel
  have hfit : ∀ job ∈ offerAndBid, job.FitsColumns := by decide +kernel
  have hfill : NoInnerFill Postgres.empty.orders offerAndBid := by decide +kernel
  have hrows : RowsAgree Postgres.empty.balances offerAndBid := by
    refine ((hprod.matchedInOrder hs.sourced).rowsAgree_iff hprices _).mpr ?_
    rintro k _ pre e post hes _ _ x hx r hr
    obtain ⟨job,hjob,rfl⟩ := List.mem_map.mp (hes ▸ List.mem_append_left _ hx)
    simp [Matched.eventAt, Order.releasedAt, hrel job hjob] at hr
  have hcommits : (Columns.processPersistBatch .empty offerAndBid).isOk = true := by decide +kernel
  obtain ⟨pg',hcommit⟩ : ∃ pg', Columns.processPersistBatch .empty offerAndBid = .ok pg' := by
    cases h : Columns.processPersistBatch .empty offerAndBid with
    | error e =>
      rw [h] at hcommits
      cases hcommits
    | ok pg' => exact ⟨pg',rfl⟩
  rw [hjobs] at hprod hfit hfill hrows hcommit ⊢
  have hw := PersistWorker.reachable_pair hcommit
  exact ⟨_,hw,rfl,rfl,(persist_worker_tables hs hprod hw).2.2.2.2.2.2.2 rfl (List.Sublist.refl _) ⟨hfit,hfill,hrows,trivial⟩⟩

end MatchingEngine

import MatchingEngine.Postgres

/-! The two ways the api persists matched orders: job by job, and a whole batch phase by phase.
Each table is followed separately, as a fold over the jobs. -/
namespace MatchingEngine
open Library

/-! ### Orders -/

/-- The insert, on the orders table alone. -/
def insertRow (t : Table Uuid Order) (o : Order) : Table Uuid Order :=
  (Postgres.insertOrder ⟨t,Table.empty,Table.empty⟩ o).orders

/-- The maker updates of a job. -/
def fillMakers (t : Table Uuid Order) (job : PersistJob) : Table Uuid Order :=
  job.luaTrades.foldl (fun t lt => t.modify lt.restingOrderId (fillRow lt.quantity)) t

lemma Postgres.updateRestingOrdersAfterLua_eq (pg : Postgres) (job : PersistJob) :
    pg.updateRestingOrdersAfterLua job.luaTrades = { pg with orders := fillMakers pg.orders job } := by
  unfold Postgres.updateRestingOrdersAfterLua fillMakers
  induction job.luaTrades generalizing pg with
  | nil => rfl
  | cons lt lts ih => exact ih (pg.updateOrder lt.restingOrderId (fillRow lt.quantity))

/-- The update of a job's own row. -/
def finishTaker (t : Table Uuid Order) (job : PersistJob) : Table Uuid Order :=
  t.modify job.order.id (finishRow job.order)

lemma insertOrder_orders (pg : Postgres) (o : Order) : (pg.insertOrder o).orders = insertRow pg.orders o := by
  have hc : Postgres.clientOrderIdTaken ⟨pg.orders,Table.empty,Table.empty⟩ o = pg.clientOrderIdTaken o := rfl
  unfold insertRow Postgres.insertOrder
  rw [hc]
  split_ifs <;> rfl

/-- Updates that keep owner and client order id do not change which inserts succeed. -/
lemma insertRow_modify (t : Table Uuid Order) {id : Uuid} {o : Order} (h : id ≠ o.id) {f : Order → Order}
    (hf : ∀ r, (f r).userId = r.userId ∧ (f r).clientOrderId = r.clientOrderId) :
    insertRow (t.modify id f) o = (insertRow t o).modify id f := by
  have hc : Postgres.clientOrderIdTaken ⟨t.modify id f,Table.empty,Table.empty⟩ o =
      Postgres.clientOrderIdTaken ⟨t,Table.empty,Table.empty⟩ o := by
    unfold Postgres.clientOrderIdTaken
    congr 1
    simp only [Table.modify, List.any_map]
    refine congrArg (fun p => t.rows.any p) (funext (fun r => ?_))
    by_cases hr : r.1 = id
    · simp [hr, hf]
    · simp [hr]
  unfold insertRow Postgres.insertOrder
  rw [hc]
  split_ifs
  · rfl
  · exact t.insertNew_modify h f o

/-- A later insert commutes with all updates of an earlier job, whose makers it is not. -/
lemma insertRow_job (t : Table Uuid Order) {job : PersistJob} {o : Order} (hid : job.order.id ≠ o.id)
    (hm : ∀ lt ∈ job.luaTrades, lt.restingOrderId ≠ o.id) :
    insertRow (finishTaker (fillMakers t job) job) o = finishTaker (fillMakers (insertRow t o) job) job := by
  have hfill : ∀ (lts : List LuaTrade) (t : Table Uuid Order), (∀ lt ∈ lts, lt.restingOrderId ≠ o.id) →
      insertRow (lts.foldl (fun t lt => t.modify lt.restingOrderId (fillRow lt.quantity)) t) o =
        lts.foldl (fun t lt => t.modify lt.restingOrderId (fillRow lt.quantity)) (insertRow t o) := by
    intro lts
    induction lts with
    | nil => exact fun _ _ => rfl
    | cons lt lts ih =>
      intro t h
      rw [List.foldl_cons, List.foldl_cons, ih _ (fun x hx => h x (by simp [hx])),
        insertRow_modify t (h lt (by simp)) (fillRow_keeps lt.quantity)]
  unfold finishTaker
  rw [insertRow_modify (f := finishRow job.order) _ hid (fun r => ⟨rfl,rfl⟩)]
  exact congrArg (fun t => t.modify job.order.id (finishRow job.order)) (hfill job.luaTrades t hm)

lemma get_isSome_fillMakers (t : Table Uuid Order) (job : PersistJob) (id : Uuid) :
    ((fillMakers t job).get id).isSome = (t.get id).isSome := by
  unfold fillMakers
  induction job.luaTrades generalizing t with
  | nil => rfl
  | cons lt lts ih => rw [List.foldl_cons, ih, Table.get_isSome_modify]

lemma get_isSome_finishTaker (t : Table Uuid Order) (job : PersistJob) (id : Uuid) :
    ((finishTaker t job).get id).isSome = (t.get id).isSome := t.get_isSome_modify _ _ _

lemma finishTaker_get {t : Table Uuid Order} {job : PersistJob} (h : (t.get job.order.id).isSome) :
    ∃ r, (finishTaker t job).get job.order.id = some r ∧ r.remaining = job.order.remaining ∧
      r.status = job.order.status := by
  obtain ⟨r,hr⟩ := Option.isSome_iff_exists.mp h
  exact ⟨finishRow job.order r,by rw [finishTaker, Table.get_modify, if_pos rfl, hr]; rfl,rfl,rfl⟩

lemma get_foldl_finishTaker_of_ne {jobs : List PersistJob} {id : Uuid} (h : ∀ x ∈ jobs, x.order.id ≠ id)
    (t : Table Uuid Order) : (jobs.foldl finishTaker t).get id = t.get id := by
  induction jobs generalizing t with
  | nil => rfl
  | cons job jobs ih =>
    rw [List.foldl_cons, ih (fun x hx => h x (by simp [hx])), finishTaker, Table.get_modify,
      if_neg (h job (by simp)).symm]

/-- A finished row commutes with fills of other rows, and a missing row with everything. -/
lemma fillMakers_finishTaker {t : Table Uuid Order} {a b : PersistJob}
    (h : (∀ lt ∈ b.luaTrades, lt.restingOrderId ≠ a.order.id) ∨ t.get a.order.id = none) :
    fillMakers (finishTaker t a) b = finishTaker (fillMakers t b) a := by
  rcases h with h | h
  · unfold fillMakers finishTaker
    generalize b.luaTrades = lts at h
    induction lts generalizing t with
    | nil => rfl
    | cons lt lts ih =>
      rw [List.foldl_cons, List.foldl_cons, t.modify_comm (h lt (by simp)).symm, ih (fun x hx => h x (by simp [hx]))]
  · have hn : (fillMakers t b).get a.order.id = none := by
      rw [← Option.not_isSome_iff_eq_none, get_isSome_fillMakers, h]
      simp
    unfold finishTaker
    rw [Table.modify_of_get_eq_none h, Table.modify_of_get_eq_none hn]

/-- An order inserted by the batch, or already in the table, is a maker of no later job. -/
def NoInnerFill (t : Table Uuid Order) (jobs : List PersistJob) : Prop :=
  jobs.Pairwise (fun a b => (∀ lt ∈ b.luaTrades, lt.restingOrderId ≠ a.order.id) ∨
    ((jobs.map Matched.order).foldl insertRow t).get a.order.id = none)

instance (t : Table Uuid Order) (jobs : List PersistJob) : Decidable (NoInnerFill t jobs) :=
  inferInstanceAs (Decidable (List.Pairwise _ jobs))

/-- Jobs in the order of their matches: orders have ids of their own and are nobody's makers
before they are matched. -/
def InMatchOrder (jobs : List PersistJob) : Prop :=
  jobs.Pairwise (fun a b => a.order.id ≠ b.order.id ∧ ∀ lt ∈ a.luaTrades, lt.restingOrderId ≠ b.order.id)

/-- The orders table, job by job. -/
def ordersSequential (t : Table Uuid Order) (jobs : List PersistJob) : Table Uuid Order :=
  jobs.foldl (fun t job => finishTaker (fillMakers (insertRow t job.order) job) job) t

/-- The orders table, phase by phase. -/
def ordersBatch (t : Table Uuid Order) (jobs : List PersistJob) : Table Uuid Order :=
  jobs.foldl finishTaker (jobs.foldl fillMakers ((jobs.map Matched.order).foldl insertRow t))

lemma ordersSequential_eq {jobs : List PersistJob} (hord : InMatchOrder jobs) (t : Table Uuid Order) :
    ordersSequential t jobs =
      jobs.foldl (fun t job => finishTaker (fillMakers t job) job) ((jobs.map Matched.order).foldl insertRow t) := by
  unfold ordersSequential
  rw [List.foldl_map]
  exact foldl_phases (a := fun t job => insertRow t job.order) (b := fun t job => finishTaker (fillMakers t job) job)
    (I := fun _ => True) (fun _ _ _ => trivial) (fun _ _ _ => trivial)
    (hord.imp (fun h t _ => insertRow_job t h.1 h.2)) trivial

/-- Without fills inside the batch the two orders tables are the same. -/
theorem ordersBatch_eq_sequential {jobs : List PersistJob} (hord : InMatchOrder jobs) {t : Table Uuid Order}
    (h : NoInnerFill t jobs) : ordersBatch t jobs = ordersSequential t jobs := by
  rw [ordersSequential_eq hord]
  symm
  set t₀ := (jobs.map Matched.order).foldl insertRow t with ht₀
  refine foldl_phases (I := fun t => ∀ id, (t.get id).isSome = (t₀.get id).isSome) ?_ ?_ ?_ (fun _ => rfl)
  · intro t job hI id
    rw [get_isSome_fillMakers, hI]
  · intro t job hI id
    rw [get_isSome_finishTaker, hI]
  · refine h.imp (fun {a b} hab t hI => fillMakers_finishTaker (hab.imp_right (fun hnone => ?_)))
    rw [← Option.not_isSome_iff_eq_none, hI, ht₀, hnone]
    simp

/-! ### Single rows -/

/-- All that jobs take from one maker. -/
def fillsOf (jobs : List PersistJob) (id : Uuid) : List Decimal :=
  jobs.flatMap (fun job => (job.luaTrades.filter (fun lt => lt.restingOrderId = id)).map LuaTrade.quantity)

/-- A transaction over `jobs` fills the rows that exist and writes the first row of an order as
its job has it. -/
structure Persists (jobs : List PersistJob) (t t' : Table Uuid Order) : Prop where
  filled : ∀ id r, t.get id = some r → (∀ job ∈ jobs, job.order.id ≠ id) →
    t'.get id = some ((fillsOf jobs id).foldl (fun r q => fillRow q r) r)
  inserted : ∀ id r, t.get id = none → t'.get id = some r → ∃ job ∈ jobs, job.order.id = id ∧
    r.userId = job.order.userId ∧ r.remaining = job.order.remaining ∧ r.status = job.order.status

lemma insertRow_get_of_ne (t : Table Uuid Order) {o : Order} {id : Uuid} (h : id ≠ o.id) :
    (insertRow t o).get id = t.get id := Postgres.insertOrder_get_of_ne ⟨t,Table.empty,Table.empty⟩ h

lemma insertRow_get_of_some {t : Table Uuid Order} (o : Order) {id : Uuid} {r : Order} (h : t.get id = some r) :
    (insertRow t o).get id = some r := by
  by_cases hid : id = o.id
  · unfold insertRow Postgres.insertOrder
    split_ifs
    · exact h
    · simp [← hid, h]
  · rw [insertRow_get_of_ne t hid, h]

lemma foldl_insertRow_get_of_some {t : Table Uuid Order} (os : List Order) {id : Uuid} {r : Order}
    (h : t.get id = some r) : (os.foldl insertRow t).get id = some r := by
  induction os generalizing t with
  | nil => exact h
  | cons o os ih => exact ih (insertRow_get_of_some o h)

lemma fillMakers_get (t : Table Uuid Order) (job : PersistJob) (id : Uuid) : (fillMakers t job).get id =
    (t.get id).map (fun r => ((job.luaTrades.filter (fun lt => lt.restingOrderId = id)).map LuaTrade.quantity).foldl
      (fun r q => fillRow q r) r) := by
  unfold fillMakers
  generalize job.luaTrades = lts
  induction lts generalizing t with
  | nil => simp
  | cons lt lts ih =>
    rw [List.foldl_cons, ih, Table.get_modify]
    by_cases hid : lt.restingOrderId = id
    · simp [hid, Function.comp_def]
    · simp [hid, Ne.symm hid]

lemma foldl_fillMakers_get (t : Table Uuid Order) (jobs : List PersistJob) (id : Uuid) :
    (jobs.foldl fillMakers t).get id =
      (t.get id).map (fun r => (fillsOf jobs id).foldl (fun r q => fillRow q r) r) := by
  induction jobs generalizing t with
  | nil => simp [fillsOf]
  | cons job jobs ih =>
    rw [List.foldl_cons, ih, fillMakers_get, Option.map_map]
    simp [fillsOf, Function.comp_def, List.foldl_append]

lemma foldl_fillRow_userId (qs : List Decimal) (r : Order) :
    (qs.foldl (fun r q => fillRow q r) r).userId = r.userId := by
  induction qs generalizing r with
  | nil => rfl
  | cons q qs ih => rw [List.foldl_cons, ih, (fillRow_keeps q r).1]

lemma foldl_insertRow_userId {jobs : List PersistJob} {t : Table Uuid Order} {id : Uuid} {user : String}
    (ht : ∀ r, t.get id = some r → r.userId = user) (hjobs : ∀ job ∈ jobs, job.order.id = id → job.order.userId = user)
    {r : Order} (hr : ((jobs.map Matched.order).foldl insertRow t).get id = some r) : r.userId = user := by
  induction jobs generalizing t with
  | nil => exact ht r hr
  | cons job jobs ih =>
    refine ih (fun x hx => ?_) (fun y hy => hjobs y (by simp [hy])) hr
    by_cases hid : id = job.order.id
    · cases hg : t.get id with
      | some r₀ =>
        rw [insertRow_get_of_some job.order hg] at hx
        exact Option.some.inj hx ▸ ht r₀ hg
      | none =>
        rw [hid] at hg hx
        rw [Postgres.insertOrder_get_self hg hx]
        exact hjobs job (by simp) hid.symm
    · rw [insertRow_get_of_ne t hid] at hx
      exact ht x hx

lemma foldl_insertRow_get_of_ne {jobs : List PersistJob} {id : Uuid} (h : ∀ job ∈ jobs, job.order.id ≠ id)
    (t : Table Uuid Order) : ((jobs.map Matched.order).foldl insertRow t).get id = t.get id := by
  induction jobs generalizing t with
  | nil => rfl
  | cons job jobs ih =>
    rw [List.map_cons, List.foldl_cons, ih (fun x hx => h x (by simp [hx])), insertRow_get_of_ne t (h job (by simp)).symm]

lemma foldl_finishTaker_userId (jobs : List PersistJob) {t : Table Uuid Order} {id : Uuid} {user : String}
    (ht : ∀ r, t.get id = some r → r.userId = user) {r : Order} (hr : (jobs.foldl finishTaker t).get id = some r) :
    r.userId = user := by
  induction jobs generalizing t with
  | nil => exact ht r hr
  | cons job jobs ih =>
    refine ih (fun x hx => ?_) hr
    rw [finishTaker, Table.get_modify] at hx
    split_ifs at hx with hid
    · obtain ⟨r₀,hr₀,rfl⟩ := Option.map_eq_some_iff.mp hx
      exact ht r₀ hr₀
    · exact ht x hx

/-- The batch writes the rows of its own orders as matched, over the fills of the same batch. -/
theorem ordersBatch_persists {jobs : List PersistJob} (hn : (jobs.map (fun job => job.order.id)).Nodup)
    (t : Table Uuid Order) : Persists jobs t (ordersBatch t jobs) := by
  unfold ordersBatch
  constructor
  · intro id r hr hne
    rw [get_foldl_finishTaker_of_ne hne, foldl_fillMakers_get, foldl_insertRow_get_of_some _ hr]
    rfl
  · intro id r hnone hr
    obtain ⟨job,hjob,rfl⟩ : ∃ job ∈ jobs, job.order.id = id := by
      by_contra hno
      push Not at hno
      rw [get_foldl_finishTaker_of_ne hno, foldl_fillMakers_get, foldl_insertRow_get_of_ne hno, hnone] at hr
      cases hr
    refine ⟨job,hjob,rfl,?_,?_⟩
    · refine foldl_finishTaker_userId jobs (fun x hx => ?_) hr
      rw [foldl_fillMakers_get, Option.map_eq_some_iff] at hx
      obtain ⟨x₀,hx₀,rfl⟩ := hx
      rw [foldl_fillRow_userId]
      refine foldl_insertRow_userId (by simp [hnone]) (fun y hy hid => ?_) hx₀
      rw [List.inj_on_of_nodup_map hn hy hjob hid]
    · obtain ⟨pre,post,rfl⟩ := List.append_of_mem hjob
      have hpost : ∀ x ∈ post, x.order.id ≠ job.order.id := by
        intro x hx he
        rw [List.map_append, List.map_cons] at hn
        exact (List.nodup_cons.mp hn.of_append_right).1 (List.mem_map.mpr ⟨x,hx,he⟩)
      rw [List.foldl_append, List.foldl_cons, get_foldl_finishTaker_of_ne hpost] at hr
      set u := pre.foldl finishTaker _
      have hsome : (u.get job.order.id).isSome := by
        rw [← get_isSome_finishTaker u job, hr]
        rfl
      obtain ⟨r',hr',hrem,hst⟩ := finishTaker_get hsome
      rw [hr'] at hr
      cases hr
      exact ⟨hrem,hst⟩

/-- No more than `R` is left in the row of an order. -/
def AtMost (R : Decimal) (t : Table Uuid Order) (id : Uuid) : Prop := ∃ r, t.get id = some r ∧ r.remaining ≤ R

/-- A fill shows in the row: less is left of the order, or it is no longer open. -/
def Below (R : Decimal) (t : Table Uuid Order) (id : Uuid) : Prop :=
  ∃ r, t.get id = some r ∧ r.remaining ≤ R ∧ (r.remaining < R ∨ ¬ r.status.IsOpen)

section Fills
variable {R : Decimal} {t : Table Uuid Order} {id : Uuid}

lemma Below.atMost (h : Below R t id) : AtMost R t id := by
  obtain ⟨r,hr,hle,_⟩ := h
  exact ⟨r,hr,hle⟩

lemma fillRow_below (hR : 0 ≤ R) {q : Decimal} (hq : 0 < q) {r : Order} (h : r.remaining ≤ R) :
    (fillRow q r).remaining ≤ R ∧ ((fillRow q r).remaining < R ∨ ¬ (fillRow q r).status.IsOpen) := by
  unfold fillRow
  by_cases hopen : r.status.IsOpen
  · rw [if_pos hopen]
    have hless : r.remaining - q < R := by linarith
    refine ⟨max_le hless.le hR,?_⟩
    by_cases hzero : max (r.remaining - q) 0 = 0
    · rw [if_pos hzero]
      exact Or.inr (show ¬ OrderStatus.filled.IsOpen by decide)
    · -- what is left is positive
      have hpos : 0 < r.remaining - q := by
        by_contra hneg
        exact hzero (max_eq_right (not_lt.mp hneg))
      exact Or.inl (by rwa [max_eq_left hpos.le])
  · rw [if_neg hopen]
    exact ⟨h,Or.inr hopen⟩

lemma AtMost.fill (hR : 0 ≤ R) (h : AtMost R t id) {lt : LuaTrade} (hq : 0 < lt.quantity) :
    AtMost R (t.modify lt.restingOrderId (fillRow lt.quantity)) id ∧
    (lt.restingOrderId = id ∨ Below R t id → Below R (t.modify lt.restingOrderId (fillRow lt.quantity)) id) := by
  obtain ⟨r,hr,hrow⟩ := h
  by_cases hid : id = lt.restingOrderId
  · have hbelow : Below R (t.modify lt.restingOrderId (fillRow lt.quantity)) id :=
      ⟨fillRow lt.quantity r,by rw [Table.get_modify, if_pos hid, hr]; rfl,fillRow_below hR hq hrow⟩
    exact ⟨hbelow.atMost,fun _ => hbelow⟩
  · have hget : (t.modify lt.restingOrderId (fillRow lt.quantity)).get id = t.get id := by
      rw [Table.get_modify, if_neg hid]
    refine ⟨⟨r,hget.trans hr,hrow⟩,?_⟩
    rintro (he | ⟨r',hr',hlt⟩)
    · exact absurd he.symm hid
    · exact ⟨r',hget.trans hr',hlt⟩

lemma AtMost.fillMakers (hR : 0 ≤ R) {job : PersistJob} (hq : ∀ lt ∈ job.luaTrades, 0 < lt.quantity)
    (h : AtMost R t id) : AtMost R (MatchingEngine.fillMakers t job) id ∧
    ((∃ lt ∈ job.luaTrades, lt.restingOrderId = id) ∨ Below R t id → Below R (MatchingEngine.fillMakers t job) id) := by
  unfold MatchingEngine.fillMakers
  generalize job.luaTrades = lts at hq
  induction lts generalizing t with
  | nil => exact ⟨h,by simp⟩
  | cons lt lts ih =>
    obtain ⟨hm,hb⟩ := h.fill hR (hq lt (by simp))
    obtain ⟨hm',hb'⟩ := ih hm (fun x hx => hq x (by simp [hx]))
    refine ⟨hm',fun hcase => hb' ?_⟩
    rcases hcase with ⟨x,hx,hid⟩ | hbelow
    · rcases List.mem_cons.mp hx with rfl | hx
      · exact .inr (hb (.inl hid))
      · exact .inl ⟨x,hx,hid⟩
    · exact .inr (hb (.inr hbelow))

end Fills

/-- What matching guarantees about an order that a later job of the batch fills. -/
def OpenWhenFilled (jobs : List PersistJob) : Prop :=
  (∀ job ∈ jobs, ∀ lt ∈ job.luaTrades, 0 < lt.quantity) ∧
    jobs.Pairwise (fun a b => ∀ lt ∈ b.luaTrades, lt.restingOrderId = a.order.id → a.order.status.IsOpen)

end MatchingEngine

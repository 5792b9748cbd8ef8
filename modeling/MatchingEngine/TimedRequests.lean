import MatchingEngine.Expiry
import MatchingEngine.Failures

/-! Requests as the workers serve them in time: the numbers of the reply are texts that the decoder
reads back only below `10^14`, and between two requests the hour of a resting order goes on. -/
namespace MatchingEngine
open Library

/-- `process_order` with the code's decoder and the statements of `persist_order`. -/
def Gateway.processOrderDecoded (pairs : PairsCache) (s : System) (msg : QueuedOrderMsg) (d : Draws) : Except String Order × System :=
  processOrderWith Postgres.persistOrder pairs s msg d

/-- The job that is read from the reply of a run, if all its trades can be read. -/
def Order.decodedOn (o : Order) (db : Valkey) (newV4 : ℕ → Uuid) (lockAsset : String) (lockAmountScaled : ℤ) : Except String Matched := do
  let r ← decodeReply o lockAsset (matchOrderScript db (matchArgs o lockAsset lockAmountScaled)).1
  let order := { o with remaining := r.remaining, status := r.status }
  return ⟨order,buildTrades newV4 order r.trades,r.trades⟩

/-- The same, with the remainder as it is read. -/
def Order.readOn (o : Order) (db : Valkey) (newV4 : ℕ → Uuid) (lockAsset : String) (lockAmountScaled : ℤ) : Matched :=
  let m := o.matchedOn db newV4 lockAsset lockAmountScaled
  let remainingI := ((matchArgs o lockAsset lockAmountScaled).planOn db).remainingI
  { m with order := { m.order with remaining := i64ToDecimal ((luaToI64 remainingI).getD 0) } }

/-- `process_queued_order` with the code's decoder, up to the persist channel: the job sent and the store. -/
def Api.queuedOrderDecoded (pairs : PairsCache) (db : Valkey) (msg : QueuedOrderMsg) (d : Draws) : Option PersistJob × Valkey :=
  match Api.parseOrder msg d.now with
  | .error _ => (none,db)
  | .ok order =>
    match validateOrder pairs order with
    | .error _ => (none,db)
    | .ok () =>
      match lockParams order with
      | .error _ => (none,db)
      | .ok (lockAsset,lockAmountScaled) =>
        if order.tif = .fok then (none,db)
        else ((order.decodedOn db d.tradeId lockAsset lockAmountScaled).toOption,
          (matchOrderScript db (matchArgs order lockAsset lockAmountScaled)).2)

/-- The numbers that the script writes into hashes have at most fourteen digits, all of which it prints. -/
structure Order.PrintsInFull (o : Order) (db : Valkey) (lockAsset : String) (lockAmountScaled : ℤ) : Prop where
  price : ((matchArgs o lockAsset lockAmountScaled).planOn db).Rests (matchArgs o lockAsset lockAmountScaled) → |o.priceI| < 10 ^ 14
  fills : ∀ v ∈ ((matchArgs o lockAsset lockAmountScaled).planOn db).visits, ∀ w ∈ v.outcome, w.remainingI < 10 ^ 14

instance (o : Order) (db : Valkey) (lockAsset : String) (lockAmountScaled : ℤ) :
    Decidable (o.PrintsInFull db lockAsset lockAmountScaled) :=
  let a := matchArgs o lockAsset lockAmountScaled
  decidable_of_iff (((a.planOn db).Rests a → |o.priceI| < 10 ^ 14) ∧ ∀ v ∈ (a.planOn db).visits, ∀ w ∈ v.outcome, w.remainingI < 10 ^ 14)
    ⟨fun h => ⟨h.1,h.2⟩,fun h => ⟨h.price,h.fills⟩⟩

/-- An order that rests with a remainder which is read as zero. -/
def Order.RestsUnread (o : Order) (db : Valkey) (lockAsset : String) (lockAmountScaled : ℤ) : Prop :=
  ((matchArgs o lockAsset lockAmountScaled).planOn db).Rests (matchArgs o lockAsset lockAmountScaled) ∧
    10 ^ 14 ≤ ((matchArgs o lockAsset lockAmountScaled).planOn db).remainingI

/-- The decoder reads back every number of the reply. -/
def Order.ReadsBack (o : Order) (db : Valkey) (lockAsset : String) (lockAmountScaled : ℤ) : Prop :=
  (matchOrderScript db (matchArgs o lockAsset lockAmountScaled)).1.InRange

instance (r : Reply) : Decidable r.InRange :=
  match r with
  | .insufficientBalance => inferInstanceAs (Decidable True)
  | .ok remainingI _ trades =>
    inferInstanceAs (Decidable (|remainingI| < 10 ^ 14 ∧ ∀ t ∈ trades, |t.priceI| < 10 ^ 14 ∧ |t.qtyI| < 10 ^ 14))

instance (o : Order) (db : Valkey) (lockAsset : String) (lockAmountScaled : ℤ) :
    Decidable (o.ReadsBack db lockAsset lockAmountScaled) :=
  inferInstanceAs (Decidable (matchOrderScript db (matchArgs o lockAsset lockAmountScaled)).1.InRange)

/-- Requests, each allowed by `Admit` in its state, and waits, each allowed by `Lasts`. -/
inductive Gateway.TimedStep (pairs : PairsCache) (Admit : System → QueuedOrderMsg → Draws → Prop) (Lasts : System → ℕ → Prop) :
    System → System → Prop
  | request {s : System} (msg : QueuedOrderMsg) (d : Draws) (admitted : Admit s msg d) :
      TimedStep pairs Admit Lasts s (processOrderDecoded pairs s msg d).2
  | wait {s : System} (ms : ℕ) (lasts : Lasts s ms) : TimedStep pairs Admit Lasts s ⟨s.db.pass ms,s.pg⟩

/-! ### Decoding -/

section Decoding

variable {o : Order} {db db₁ : Valkey} {newV4 : ℕ → Uuid} {asset : String} {amount : ℤ} {m : Matched}

lemma Order.decodedOn_ok (hl : lockBalance db (matchArgs o asset amount) = some db₁)
    (h : o.decodedOn db newV4 asset amount = .ok m) : m = o.readOn db newV4 asset amount := by
  rw [Order.decodedOn, matchOrderScript_eq, hl] at h
  obtain ⟨r,hr,h⟩ := exists_of_bind_ok h
  obtain ⟨lts,hlts,hr⟩ := exists_of_bind_ok hr
  cases hr
  cases h
  rw [mapM_decode (inRange_of_mapM hlts)] at hlts
  cases hlts
  rfl

lemma Order.readOn_of_lt (hlt : |((matchArgs o asset amount).planOn db).remainingI| < 10 ^ 14) :
    o.readOn db newV4 asset amount = o.matchedOn db newV4 asset amount := by
  rw [Order.readOn, luaToI64_of_lt hlt]
  rfl

lemma Order.readOn_of_rests (hrests : ((matchArgs o asset amount).planOn db).Rests (matchArgs o asset amount))
    (hread : ¬ o.RestsUnread db asset amount) : o.readOn db newV4 asset amount = o.matchedOn db newV4 asset amount := by
  refine Order.readOn_of_lt ?_
  rw [abs_of_pos hrests.2.1]
  exact not_le.mp (fun hle => hread ⟨hrests,hle⟩)

lemma Order.decodedOn_of_readsBack (hl : lockBalance db (matchArgs o asset amount) = some db₁) (h : o.ReadsBack db asset amount) :
    o.decodedOn db newV4 asset amount = .ok (o.matchedOn db newV4 asset amount) := by
  rw [Order.ReadsBack, matchOrderScript_eq, hl] at h
  obtain ⟨hremaining,htrades⟩ := h
  rw [Order.decodedOn, matchOrderScript_eq, hl]
  simp only [decodeReply, mapM_decode htrades, luaToI64_of_lt hremaining]
  rfl

lemma Order.readOn_of_readsBack (hl : lockBalance db (matchArgs o asset amount) = some db₁) (h : o.ReadsBack db asset amount) :
    o.readOn db newV4 asset amount = o.matchedOn db newV4 asset amount := by
  rw [Order.ReadsBack, matchOrderScript_eq, hl] at h
  exact Order.readOn_of_lt h.1

end Decoding

@[simp] lemma Order.readOn_luaTrades (o : Order) (db : Valkey) (newV4 : ℕ → Uuid) (asset : String) (amount : ℤ) :
    (o.readOn db newV4 asset amount).luaTrades = (o.matchedOn db newV4 asset amount).luaTrades := rfl

/-! ### Outcomes -/

section Outcomes
variable {pairs : PairsCache} {s : System} {msg : QueuedOrderMsg} {d : Draws}

/-- The stores after a request that got through the script: its job is written, or the tables stay. -/
lemma Gateway.Runs.decoded_stores {o : Order} {asset : String} {amount : ℤ} {db₁ : Valkey}
    (h : Gateway.Runs pairs s msg d o asset amount db₁) :
    (Gateway.processOrderDecoded pairs s msg d).2.db = Gateway.scriptDb s o asset amount db₁ ∧
    ((Gateway.processOrderDecoded pairs s msg d).2.pg = s.pg ∨ ∃ m, o.decodedOn s.db d.tradeId asset amount = .ok m ∧
      s.pg.persistOrder m = .ok (Gateway.processOrderDecoded pairs s msg d).2.pg) := by
  have hscript := matchOrderScript_eq s.db (matchArgs o asset amount)
  rw [h.funded] at hscript
  simp only [Gateway.processOrderDecoded, Gateway.processOrderWith, h.accepted, if_neg h.tif, h.lock, Order.decodedOn, hscript]
  cases hr : decodeReply o asset _ with
  | error e => exact ⟨rfl,.inl rfl⟩
  | ok r =>
    simp only
    split_ifs
    · exact ⟨rfl,.inl rfl⟩
    · cases hp : s.pg.persistOrder _ with
      | error e => exact ⟨rfl,.inl rfl⟩
      | ok pg => exact ⟨rfl,.inr ⟨_,rfl,hp⟩⟩

lemma Gateway.Runs.decoded_eq {o : Order} {asset : String} {amount : ℤ} {db₁ : Valkey}
    (h : Gateway.Runs pairs s msg d o asset amount db₁) (hreads : o.ReadsBack s.db asset amount) :
    Gateway.processOrderDecoded pairs s msg d = Gateway.processOrder pairs s msg d := by
  refine Gateway.processOrderWith_persistOrder (fun o' ho' p hp => ?_)
  rw [h.accepted] at ho'
  obtain rfl : o = o' := Option.some.inj ho'
  rw [h.lock] at hp
  obtain rfl : (asset,amount) = p := Option.some.inj hp
  exact hreads

/-- A request leaves both stores alone, or gets through the script. -/
theorem Gateway.processOrderDecoded_cases (pairs : PairsCache) (s : System) (msg : QueuedOrderMsg) (d : Draws) :
    (Gateway.processOrderDecoded pairs s msg d).2 = s ∨ ∃ o asset amount db₁, Gateway.Runs pairs s msg d o asset amount db₁ := by
  unfold Gateway.processOrderDecoded Gateway.processOrderWith
  cases ha : Gateway.acceptOrder pairs msg d with
  | error e => exact .inl rfl
  | ok o =>
    by_cases hf : o.tif = .fok
    · exact .inl (by simp [hf])
    cases hp : lockParams o with
    | error e => exact .inl (by simp [hf, hp])
    | ok p =>
      obtain ⟨asset,amount⟩ := p
      cases hl : lockBalance s.db (matchArgs o asset amount) with
      | none => exact .inl (by simp [hf, hp, matchOrderScript_eq, hl, decodeReply])
      | some db₁ => exact .inr ⟨o,asset,amount,db₁,ha,hf,hp,hl⟩

end Outcomes

/-! ### Waiting -/

section Waiting
variable {db : Valkey} {ms : ℕ} {id : Uuid}

@[simp] lemma Valkey.pass_book : (db.pass ms).book = db.book := rfl

@[simp] lemma Valkey.pass_balance : (db.pass ms).balance = db.balance := rfl

/-- Time brings no hash back. -/
lemma Valkey.pass_order_some {w : OrderHash} (h : (db.pass ms).order id = some w) : db.order id = some w := by
  simp only [Valkey.pass] at h
  split_ifs at h
  exact h

lemma Valkey.pass_order_of_lasts (h : ∀ t ∈ db.ttl id, ms < t) : (db.pass ms).order id = db.order id := by
  refine if_neg ?_
  rintro ⟨t,ht,hle⟩
  have := h t ht
  omega

/-- The store with other times left. -/
def Valkey.withTtl (db : Valkey) (ttl : Uuid → Option ℕ) : Valkey := { db with ttl := ttl }

/-- As long as no hash comes to its end, waiting takes from the times left only. -/
lemma Valkey.exists_pass_eq (h : ∀ id, ∀ t ∈ db.ttl id, ms < t) : ∃ ttl, db.pass ms = db.withTtl ttl := by
  refine ⟨(db.pass ms).ttl,?_⟩
  have hsame : (db.pass ms).order = db.order := funext fun id => Valkey.pass_order_of_lasts (h id)
  exact Valkey.ext rfl hsame rfl rfl rfl

lemma lockBalance_withTtl (db : Valkey) (ttl : Uuid → Option ℕ) (a : MatchArgs) :
    lockBalance (db.withTtl ttl) a = (lockBalance db a).map (fun db₁ => db₁.withTtl ttl) := by
  unfold lockBalance
  change (if a.Locks then if (db.balance a.userId a.lockAsset).available < a.lockAmount then none
    else some ((db.withTtl ttl).moveToLocked a.userId a.lockAsset a.lockAmount) else some (db.withTtl ttl)) = _
  split_ifs <;> rfl

lemma exists_applyVisits_withTtl (a : MatchArgs) (vs : List Visit) (db : Valkey) (ttl : Uuid → Option ℕ) :
    ∃ ttl', applyVisits a (db.withTtl ttl) vs = (applyVisits a db vs).withTtl ttl' := by
  induction vs generalizing db ttl with
  | nil => exact ⟨ttl,rfl⟩
  | cons v vs ih =>
    have hvisit : ∃ ttl', applyVisit a (db.withTtl ttl) v = (applyVisit a db v).withTtl ttl' := by
      unfold applyVisit
      cases v.outcome with
      | none => exact ⟨_,rfl⟩
      | some w => exact ⟨_,rfl⟩
    obtain ⟨ttl',hvisit⟩ := hvisit
    rw [applyVisits_cons, applyVisits_cons, hvisit]
    exact ih (applyVisit a db v) ttl'

lemma exists_settle_withTtl (a : MatchArgs) (db : Valkey) (p : Plan) (ttl : Uuid → Option ℕ) :
    ∃ ttl', a.settle (db.withTtl ttl) p = (a.settle db p).withTtl ttl' := by
  obtain ⟨ttl',hvisits⟩ := exists_applyVisits_withTtl a p.visits db ttl
  rw [settle_eq, settle_eq, hvisits]
  split_ifs <;> exact ⟨_,rfl⟩

end Waiting

end MatchingEngine

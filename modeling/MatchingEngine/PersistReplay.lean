import MatchingEngine.Library.Withdrawals
import MatchingEngine.Idempotency
import MatchingEngine.PersistPaths

/-! Persisting the same jobs a second time. The inserts find their rows and do nothing, but
balances and makers are updated by amounts, so that the second run shows unless nothing is credited
and what is taken was used up the first time. -/
namespace MatchingEngine
open Library

section Inserts
variable {t t' : Table Uuid Order} {o : Order}

/-- Rows stay, with their owner and client order id. -/
def KeepsOwners (t t' : Table Uuid Order) : Prop := ∀ id r, t.get id = some r →
  ∃ r', t'.get id = some r' ∧ r'.userId = r.userId ∧ r'.clientOrderId = r.clientOrderId

/-- An insert of the order conflicts with a row. -/
def Refused (t : Table Uuid Order) (o : Order) : Prop :=
  Postgres.clientOrderIdTaken ⟨t,Table.empty,Table.empty⟩ o = true ∨ (t.get o.id).isSome

lemma KeepsOwners.refl (t : Table Uuid Order) : KeepsOwners t t := fun _ r h => ⟨r,h,rfl,rfl⟩

lemma KeepsOwners.trans {t'' : Table Uuid Order} (h : KeepsOwners t t') (h' : KeepsOwners t' t'') : KeepsOwners t t'' := by
  intro id r hr
  obtain ⟨r',hr',hu,hc⟩ := h id r hr
  obtain ⟨r'',hr'',hu',hc'⟩ := h' id r' hr'
  exact ⟨r'',hr'',hu'.trans hu,hc'.trans hc⟩

lemma Refused.keeps (h : Refused t o) (hk : KeepsOwners t t') : Refused t' o := by
  rcases h with htaken | hrow
  · obtain ⟨hc,id,r,hr,hu,hcl⟩ := clientOrderIdTaken_iff.mp htaken
    obtain ⟨r',hr',hu',hcl'⟩ := hk id r hr
    exact .inl (clientOrderIdTaken_iff.mpr ⟨hc,id,r',hr',hu'.trans hu,hcl'.trans hcl⟩)
  · obtain ⟨r,hr⟩ := Option.isSome_iff_exists.mp hrow
    obtain ⟨r',hr',_⟩ := hk o.id r hr
    exact .inr (Option.isSome_iff_exists.mpr ⟨r',hr'⟩)

lemma insertRow_of_refused (h : Refused t o) : insertRow t o = t := by
  unfold insertRow Postgres.insertOrder
  split_ifs with htaken
  · rfl
  · exact Table.insertNew_of_isSome (h.resolve_left htaken) o

lemma refused_insertRow (t : Table Uuid Order) (o : Order) : Refused (insertRow t o) o := by
  by_cases h : Refused t o
  · rwa [insertRow_of_refused h]
  · right
    have htaken : ¬ Postgres.clientOrderIdTaken ⟨t,Table.empty,Table.empty⟩ o = true := fun ht => h (.inl ht)
    unfold insertRow Postgres.insertOrder
    rw [if_neg htaken]
    simp

lemma insertTrades_isSome (pg : Postgres) (ts : List Trade) :
    ∀ trade ∈ ts, ((pg.insertTrades ts).trades.get trade.id).isSome := by
  refine foldl_absorbs (P := fun (t : Table Uuid Trade) (trade : Trade) => (t.get trade.id).isSome) ?_ ?_ ts pg.trades
  · intro t trade
    simp
  · intro t trade other h
    rw [Table.get_insertNew]
    split_ifs
    · rfl
    · exact h

end Inserts

/-! ### Fills -/

section Fills

/-- What the comparison of tables sees of a row. -/
def Order.shown (r : Order) : Decimal × OrderStatus := (r.remaining,r.status)

end Fills

/-! ### Rows of orders -/

section Orders
variable {jobs : List PersistJob}

end Orders

/-! ### Rows of balances -/

section Balances
variable {jobs : List PersistJob} {k : String × String}

end Balances

end MatchingEngine

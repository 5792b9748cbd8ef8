import MatchingEngine.PlanFacts

/-! The two scripts that lock balances: the lock merged into `match_order.lua` and
`LOCK_BALANCE_LUA`. Both move an amount from available to locked; the first skips an empty
asset and amounts that are not positive, the second has neither test. -/
namespace MatchingEngine
open Library

/-- `LOCK_BALANCE_LUA` and the decoding of its reply. -/
def lockBalanceRedis (db : Valkey) (userId asset : String) (amountScaled : ℤ) : Except String Unit × Valkey :=
  if (db.balance userId asset).available < amountScaled then
    (.error ("insufficient " ++ asset ++ " balance for user " ++ userId),db)
  else (.ok (),db.moveToLocked userId asset amountScaled)

/-- A call of either script. -/
inductive BalanceCall
  | matchOrder (order : Order) (lockAsset : String) (lockAmountScaled : ℤ)
  | lockBalance (userId asset : String) (amountScaled : ℤ)

namespace BalanceCall

def user : BalanceCall → String
  | .matchOrder o _ _ => o.userId
  | .lockBalance u _ _ => u

def asset : BalanceCall → String
  | .matchOrder _ asset _ => asset
  | .lockBalance _ asset _ => asset

def amount : BalanceCall → ℤ
  | .matchOrder _ _ amount => amount
  | .lockBalance _ _ amount => amount

/-- Whether the call succeeds, and the store after it. -/
def run (db : Valkey) : BalanceCall → Except String Unit × Valkey
  | .matchOrder o asset amount => ((matchOrderLua db o asset amount).1.map (fun _ => ()),(matchOrderLua db o asset amount).2)
  | .lockBalance u asset amount => lockBalanceRedis db u asset amount

/-- Only the match script looks at the asset. -/
def checksAsset : BalanceCall → Bool
  | .matchOrder _ _ _ => true
  | .lockBalance _ _ _ => false

/-- A call that moves something when it succeeds. -/
def Moves (c : BalanceCall) : Prop := 0 < c.amount ∧ (c.checksAsset → c.asset ≠ "")

instance (c : BalanceCall) : Decidable c.Moves := inferInstanceAs (Decidable (_ ∧ _))

/-- The lock script is called with amounts that are not negative. -/
def Signed : BalanceCall → Prop
  | .matchOrder _ _ _ => True
  | .lockBalance _ _ amount => 0 ≤ amount

end BalanceCall

/-- Lua numbers are exact up to this. -/
def ExactInLua (n : ℤ) : Prop := |n| ≤ 2 ^ 53

def Valkey.BalancesExact (db : Valkey) : Prop :=
  ∀ user asset, ExactInLua (db.balance user asset).available ∧ ExactInLua (db.balance user asset).locked

/-- A call whose amount and balances stay exact. -/
structure BalanceCall.Admitted (db : Valkey) (c : BalanceCall) : Prop where
  signed : c.Signed
  amount : ExactInLua c.amount
  before : db.BalancesExact
  after : (c.run db).2.BalancesExact

inductive BalanceStep : Valkey → Valkey → Prop
  | call {db : Valkey} (c : BalanceCall) (h : c.Admitted db) : BalanceStep db (c.run db).2

/-! ### One call -/

section Calls
variable {db : Valkey} {c : BalanceCall}

lemma BalanceCall.run_cases (db : Valkey) (hc : c.Signed) :
    ((∃ e, (c.run db).1 = .error e) ∧ (c.run db).2 = db) ∨
    (c.run db).1 = .ok () ∧ (c.Moves → c.amount ≤ (db.balance c.user c.asset).available) ∧
      ∀ user asset, (c.run db).2.balance user asset =
        if c.Moves ∧ user = c.user ∧ asset = c.asset then
          ⟨(db.balance user asset).available - c.amount,(db.balance user asset).locked + c.amount⟩
        else db.balance user asset := by
  cases c with
  | matchOrder o asset amount =>
    cases hl : MatchingEngine.lockBalance db (matchArgs o asset amount) with
    | none =>
      left
      simp only [run, matchOrderLua, matchOrderScript_eq, hl]
      exact ⟨⟨_,rfl⟩,trivial⟩
    | some db₁ =>
      right
      have hmoves : (BalanceCall.matchOrder o asset amount).Moves ↔ (matchArgs o asset amount).Locks :=
        ⟨fun h => ⟨h.2 rfl,h.1⟩,fun h => ⟨h.2,fun _ => h.1⟩⟩
      simp only [run, matchOrderLua_of_lock hl, settle_balance, hmoves]
      refine ⟨rfl,fun h => lockBalance_funded hl h,fun user a => ?_⟩
      unfold MatchingEngine.lockBalance at hl
      split_ifs at hl with hlocks hfunds
      · cases hl
        simp only [hlocks, true_and]
        rfl
      · cases hl
        simp only [hlocks, false_and, if_false]
  | lockBalance u asset amount =>
    simp only [run, lockBalanceRedis]
    split_ifs with h
    · exact .inl ⟨⟨_,rfl⟩,rfl⟩
    · right
      refine ⟨rfl,fun _ => not_lt.mp h,fun user a => ?_⟩
      -- an amount of zero moves nothing either way
      have hzero : ¬ (BalanceCall.lockBalance u asset amount).Moves → amount = 0 := by
        intro hm
        have hpos : ¬ 0 < amount := fun hpos => hm ⟨hpos,fun h => by cases h⟩
        have hsigned : 0 ≤ amount := hc
        omega
      by_cases hm : (BalanceCall.lockBalance u asset amount).Moves
      · simp only [hm, true_and]
        rfl
      · rw [if_neg (fun hk => hm hk.1), hzero hm]
        simp [Valkey.moveToLocked]

end Calls

/-! ### Runs -/

/-- Along every run available balances stay non-negative and each total stays what it was; a
call that fails changes nothing, and one that succeeds moves its amount from available to
locked of its own user and asset, or nothing at all. -/
theorem balance_locks_safe {db₀ db : Valkey} (h₀ : ∀ user asset, 0 ≤ (db₀.balance user asset).available)
    (hrun : Relation.ReflTransGen BalanceStep db₀ db) :
    (∀ user asset, 0 ≤ (db.balance user asset).available ∧
      (db.balance user asset).available + (db.balance user asset).locked =
        (db₀.balance user asset).available + (db₀.balance user asset).locked) ∧
    ∀ c : BalanceCall, c.Admitted db →
      ((∃ e, (c.run db).1 = .error e) → (c.run db).2 = db) ∧
      ((c.run db).1 = .ok () → ∀ user asset, (c.run db).2.balance user asset =
        if c.Moves ∧ user = c.user ∧ asset = c.asset then
          ⟨(db.balance user asset).available - c.amount,(db.balance user asset).locked + c.amount⟩
        else db.balance user asset) := by
  constructor
  · induction hrun with
    | refl => exact fun user asset => ⟨h₀ user asset,rfl⟩
    | tail _ hstep ih =>
      cases hstep with
      | call c hc =>
        intro user asset
        obtain ⟨_,hsum⟩ := ih user asset
        rcases BalanceCall.run_cases _ hc.signed with ⟨_,hsame⟩ | ⟨_,hfunds,hbal⟩
        · rw [hsame]
          exact ih user asset
        · rw [hbal]
          split_ifs with hk
          · obtain ⟨hm,rfl,rfl⟩ := hk
            have hle := hfunds hm
            exact ⟨sub_nonneg.mpr hle,by rw [← hsum]; ring⟩
          · exact ih user asset
  · intro c hc
    rcases BalanceCall.run_cases db hc.signed with ⟨⟨e,he⟩,hsame⟩ | ⟨hok,_,hbal⟩
    · refine ⟨fun _ => hsame,fun hok => ?_⟩
      rw [he] at hok
      cases hok
    · refine ⟨fun ⟨e,he⟩ => ?_,fun _ => hbal⟩
      rw [hok] at he
      cases he

/-- Everyone has ten units of everything. -/
def tenEach : Valkey := { Valkey.empty with balance := fun _ _ => ⟨10,0⟩ }

lemma tenEach_available (user asset : String) : 0 ≤ (tenEach.balance user asset).available := by
  change (0 : ℤ) ≤ 10
  decide

lemma lock_tenEach_admitted (user asset : String) {amount : ℤ} (h : 0 ≤ amount ∧ amount ≤ 10) :
    (BalanceCall.lockBalance user asset amount).Admitted tenEach := by
  have hexact : ∀ n : ℤ, 0 ≤ n → n ≤ 10 → ExactInLua n := by
    intro n hn hle
    exact abs_le.mpr ⟨by omega,by omega⟩
  have hrun : ((BalanceCall.lockBalance user asset amount).run tenEach).2 = tenEach.moveToLocked user asset amount := by
    have hfunds : ¬ (tenEach.balance user asset).available < amount := not_lt.mpr h.2
    simp only [BalanceCall.run, lockBalanceRedis, if_neg hfunds]
  refine ⟨h.1,hexact _ h.1 h.2,fun _ _ => ⟨hexact 10 (by omega) le_rfl,hexact 0 le_rfl (by omega)⟩,fun u a => ?_⟩
  rw [hrun]
  simp only [Valkey.moveToLocked, tenEach]
  split_ifs
  · exact ⟨hexact (10 - amount) (by omega) (by omega),hexact (0 + amount) (by omega) (by omega)⟩
  · exact ⟨hexact 10 (by omega) le_rfl,hexact 0 le_rfl (by omega)⟩

/-- Alice locks four of her ten units. -/
theorem balance_locks_safe_alice : ∃ db : Valkey, BalanceStep tenEach db ∧ db.balance "alice" "USDT" = ⟨6,4⟩ ∧
    (db.balance "alice" "USDT").available + (db.balance "alice" "USDT").locked = 10 := by
  have hstep := BalanceStep.call _ (lock_tenEach_admitted "alice" "USDT" (show (0 : ℤ) ≤ 4 ∧ (4 : ℤ) ≤ 10 by decide))
  exact ⟨_,hstep,by decide +kernel,((balance_locks_safe tenEach_available (.single hstep)).1 "alice" "USDT").2⟩

/-- `lock_balance_redis` locks units of an asset without a name. -/
theorem lockBalance_moves_unnamed_asset : ∃ (db : Valkey) (c : BalanceCall), c.Admitted db ∧
    (∀ user asset, 0 ≤ (db.balance user asset).available) ∧ c.asset = "" ∧ (c.run db).1 = .ok () ∧
    (c.run db).2.balance c.user c.asset = ⟨5,5⟩ ∧ db.balance c.user c.asset = ⟨10,0⟩ :=
  ⟨tenEach,.lockBalance "alice" "" 5,lock_tenEach_admitted _ _ (by decide),tenEach_available,rfl,by decide +kernel,
    by decide +kernel,rfl⟩

end MatchingEngine

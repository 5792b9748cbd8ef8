import MatchingEngine.Library.Numerals

/-! Integers held in binary floating point. A significand of `bits` bits holds the integers up to
`2 ^ bits`; a longer one is rounded to a multiple of its last place, to the nearest and halfway
to the even one. Exponents are unbounded, as they are for 64-bit integers in a double. -/
namespace MatchingEngine.Library

/-- The unit in the last place of a significand of `bits` bits. -/
def ulp (bits n : ℕ) : ℕ := 2 ^ (n.log2 + 1 - bits)

def roundNat (bits n : ℕ) : ℕ := divRound n (ulp bits n) * ulp bits n

def roundInt (bits : ℕ) (x : ℤ) : ℤ := x.sign * roundNat bits x.natAbs

section Exact
variable {bits n : ℕ}

lemma divRound_of_dvd {m k : ℕ} (hk : 0 < k) (h : k ∣ m) : divRound m k = m / k := by
  rw [divRound, Nat.mod_eq_zero_of_dvd h]
  exact if_pos (.inl (by simpa using hk))

/-- Up to `2 ^ bits` the unit is one, or it is two and the integer is even. -/
lemma ulp_dvd (hb : 0 < bits) (h : n ≤ 2 ^ bits) : ulp bits n ∣ n := by
  rcases h.lt_or_eq with hlt | rfl
  · have hlog : n.log2 + 1 - bits = 0 := by
      rcases Nat.eq_zero_or_pos n with rfl | hn
      · rw [Nat.log2_zero]
        omega
      · have := (Nat.log2_lt hn.ne').mpr hlt
        omega
    rw [ulp, hlog, pow_zero]
    exact one_dvd n
  · rw [ulp, Nat.log2_two_pow]
    exact pow_dvd_pow 2 (by omega)

lemma roundNat_eq_self (hb : 0 < bits) (h : n ≤ 2 ^ bits) : roundNat bits n = n := by
  have hdvd : ulp bits n ∣ n := ulp_dvd hb h
  have hpos : 0 < ulp bits n := Nat.two_pow_pos _
  rw [roundNat, divRound_of_dvd hpos hdvd, Nat.div_mul_cancel hdvd]

/-- What fits into the significand is held exactly. -/
theorem roundInt_eq_self {x : ℤ} (hb : 0 < bits) (h : |x| ≤ 2 ^ bits) : roundInt bits x = x := by
  have hn : x.natAbs ≤ 2 ^ bits := by
    zify
    exact h
  rw [roundInt, roundNat_eq_self hb hn, Int.sign_mul_natAbs]

/-- The first integer that a double does not hold, and the next odd one. -/
example : roundInt 53 (2 ^ 53 + 1) = 2 ^ 53 ∧ roundInt 53 (-(2 ^ 53 + 3)) = -(2 ^ 53 + 4) := by decide

end Exact
end MatchingEngine.Library

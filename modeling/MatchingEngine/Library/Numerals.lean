import Mathlib

/-! Integers as texts: the decimal notation of an integer, the parsers of machine integers and
the general format of C with a given number of significant digits, which changes to an exponent
when the integer has more digits than that. Numerals of a fixed width are at the end. -/
namespace MatchingEngine.Library

/-! ### Parsing -/

/-- Digits only, and at least one. -/
def parseDigits (cs : List Char) : Option ℕ :=
  if cs ≠ [] ∧ cs.all Char.isDigit then some (Nat.ofDigitChars 10 cs 0) else none

/-- An optional sign in front of the digits. -/
def parseSigned : List Char → Option ℤ
  | [] => none
  | c :: cs =>
    if c = '-' then (parseDigits cs).map (fun n : ℕ => -(n : ℤ))
    else if c = '+' then (parseDigits cs).map (fun n : ℕ => (n : ℤ))
    else (parseDigits (c :: cs)).map (fun n : ℕ => (n : ℤ))

/-- A plus sign is the only one in front of an unsigned integer. -/
def parseUnsigned : List Char → Option ℕ
  | [] => none
  | c :: cs => if c = '+' then parseDigits cs else parseDigits (c :: cs)

/-- A signed integer of 64 bits. -/
def parseI64 (s : String) : Option ℤ := (parseSigned s.toList).filter (fun n => -2 ^ 63 ≤ n ∧ n < 2 ^ 63)

/-- An unsigned integer of 64 bits. -/
def parseU64 (s : String) : Option ℕ := (parseUnsigned s.toList).filter (fun n => n < 2 ^ 64)

lemma parseDigits_toDigits (n : ℕ) : parseDigits (Nat.toDigits 10 n) = some n := by
  have hdigits : (Nat.toDigits 10 n).all Char.isDigit := by
    rw [List.all_eq_true]
    exact fun c hc => Nat.isDigit_of_mem_toDigits (by decide) (by decide) hc
  rw [parseDigits, if_pos ⟨Nat.toDigits_ne_nil,hdigits⟩, Nat.ofDigitChars_ten_toDigits]

/-- A character that is no digit is not parsed over. -/
lemma parseDigits_eq_none {cs : List Char} {c : Char} (hc : c ∈ cs) (h : c.isDigit = false) : parseDigits cs = none := by
  refine if_neg fun hcs => ?_
  have hdigit := List.all_eq_true.mp hcs.2 c hc
  rw [h] at hdigit
  cases hdigit

/-- Decimal notation starts with a digit. -/
lemma toDigits_eq_cons (n : ℕ) : ∃ c cs, Nat.toDigits 10 n = c :: cs ∧ c ≠ '-' ∧ c ≠ '+' := by
  cases hds : Nat.toDigits 10 n with
  | nil => exact absurd hds Nat.toDigits_ne_nil
  | cons c cs =>
    have hdigit : c.isDigit := Nat.isDigit_of_mem_toDigits (n := n) (by decide) (by decide) (hds ▸ List.mem_cons_self)
    refine ⟨c,cs,rfl,?_,?_⟩
    · rintro rfl
      cases hdigit
    · rintro rfl
      cases hdigit

lemma parseSigned_toDigits (n : ℕ) : parseSigned (Nat.toDigits 10 n) = some (n : ℤ) := by
  have hparse := parseDigits_toDigits n
  obtain ⟨c,cs,hds,hminus,hplus⟩ := toDigits_eq_cons n
  rw [hds] at hparse ⊢
  rw [parseSigned, if_neg hminus, if_neg hplus, hparse]
  rfl

/-- The decimal notation of an integer is read back. -/
lemma parseSigned_repr (n : ℤ) : parseSigned n.repr.toList = some n := by
  cases n with
  | ofNat m =>
    have hrepr : (Int.ofNat m).repr = m.repr := rfl
    rw [hrepr, Nat.toList_repr]
    exact parseSigned_toDigits m
  | negSucc m =>
    have hrepr : (Int.negSucc m).repr.toList = '-' :: Nat.toDigits 10 (m + 1) := by
      have : (Int.negSucc m).repr = "-" ++ (m + 1).repr := rfl
      rw [this, String.toList_append, Nat.toList_repr]
      rfl
    rw [hrepr, parseSigned, if_pos rfl, parseDigits_toDigits]
    rfl

lemma parseI64_repr {n : ℤ} (h : -2 ^ 63 ≤ n ∧ n < 2 ^ 63) : parseI64 n.repr = some n := by
  rw [parseI64, parseSigned_repr]
  exact Option.filter_some_pos (by simpa using h)

/-- An exponent is not parsed over. -/
lemma parseI64_eq_none {s : String} (h : 'e' ∈ s.toList) : parseI64 s = none := by
  have hsigned : parseSigned s.toList = none := by
    cases hcs : s.toList with
    | nil => rfl
    | cons c cs =>
      rw [hcs] at h
      have hnone := parseDigits_eq_none h (by decide)
      rw [parseSigned]
      split_ifs with hminus hplus
      · rw [parseDigits_eq_none (List.mem_of_ne_of_mem (by simp [hminus]) h) (by decide), Option.map_none]
      · rw [parseDigits_eq_none (List.mem_of_ne_of_mem (by simp [hplus]) h) (by decide), Option.map_none]
      · rw [hnone, Option.map_none]
  rw [parseI64, hsigned]
  rfl

lemma parseU64_eq_none {s : String} (h : 'e' ∈ s.toList) : parseU64 s = none := by
  have hunsigned : parseUnsigned s.toList = none := by
    cases hcs : s.toList with
    | nil => rfl
    | cons c cs =>
      rw [hcs] at h
      rw [parseUnsigned]
      split_ifs with hplus
      · exact parseDigits_eq_none (List.mem_of_ne_of_mem (by simp [hplus]) h) (by decide)
      · exact parseDigits_eq_none h (by decide)
  rw [parseU64, hunsigned]
  rfl

lemma parseU64_repr {n : ℕ} (h : n < 2 ^ 64) : parseU64 n.repr = some n := by
  have hparse := parseDigits_toDigits n
  obtain ⟨c,cs,hds,_,hplus⟩ := toDigits_eq_cons n
  rw [parseU64, Nat.toList_repr, hds, parseUnsigned, if_neg hplus, ← hds, hparse]
  exact Option.filter_some_pos (by simpa using h)

/-! ### The general format -/

/-- Division with rounding to the nearest, ties to even. -/
def divRound (m k : ℕ) : ℕ :=
  if 2 * (m % k) < k ∨ 2 * (m % k) = k ∧ m / k % 2 = 0 then m / k else m / k + 1

/-- The exponent has at least two digits. -/
def exponentDigits (e : ℕ) : List Char := if e < 10 then '0' :: Nat.toDigits 10 e else Nat.toDigits 10 e

/-- Mantissa and exponent, without trailing zeros. -/
def scientific (mantissa exponent : ℕ) : List Char :=
  match Nat.toDigits 10 mantissa with
  | [] => []
  | c :: cs =>
    let fraction := (cs.reverse.dropWhile (· = '0')).reverse
    c :: (if fraction = [] then [] else '.' :: fraction) ++ 'e' :: '+' :: exponentDigits exponent

/-- An integer with more than `p` digits, rounded to `p` of them. -/
def formatLarge (p m : ℕ) : List Char :=
  let length := (Nat.toDigits 10 m).length
  let mantissa := divRound m (10 ^ (length - p))
  if mantissa = 10 ^ p then scientific mantissa length else scientific mantissa (length - 1)

/-- The format `%.{p}g` of an integer. -/
def formatG (p : ℕ) (n : ℤ) : String :=
  if n.natAbs < 10 ^ p then n.repr
  else String.ofList ((if n < 0 then ['-'] else []) ++ formatLarge p n.natAbs)

example : formatG 14 99999999999999 = "99999999999999" ∧ formatG 14 (-123456789012345) = "-1.2345678901234e+14" ∧
    formatG 14 9007199254740992 = "9.007199254741e+15" ∧ formatG 14 999999999999995 = "1e+15" := by decide +kernel

lemma mem_scientific (mantissa exponent : ℕ) : 'e' ∈ scientific mantissa exponent := by
  obtain ⟨c,cs,hds,_⟩ := toDigits_eq_cons mantissa
  unfold scientific
  rw [hds]
  exact List.mem_append_right _ List.mem_cons_self

lemma mem_formatG {p : ℕ} {n : ℤ} (h : ¬ n.natAbs < 10 ^ p) : 'e' ∈ (formatG p n).toList := by
  rw [formatG, if_neg h, String.toList_ofList]
  refine List.mem_append_right _ ?_
  unfold formatLarge
  simp only
  split_ifs <;> exact mem_scientific _ _

/-- What is printed with an exponent is not read back. -/
lemma parseI64_formatG {p : ℕ} (hp : p ≤ 18) (n : ℤ) :
    parseI64 (formatG p n) = if n.natAbs < 10 ^ p then some n else none := by
  split_ifs with h
  · have hpow : 10 ^ p ≤ 10 ^ 18 := Nat.pow_le_pow_right (by decide) hp
    rw [formatG, if_pos h]
    exact parseI64_repr (by omega)
  · exact parseI64_eq_none (mem_formatG h)

lemma parseU64_formatG {p : ℕ} (hp : p ≤ 18) (n : ℕ) : parseU64 (formatG p n) = if n < 10 ^ p then some n else none := by
  split_ifs with h
  · have hpow : 10 ^ p ≤ 10 ^ 18 := Nat.pow_le_pow_right (by decide) hp
    have hrepr : formatG p n = n.repr := if_pos h
    rw [hrepr]
    exact parseU64_repr (by omega)
  · exact parseU64_eq_none (mem_formatG h)

/-! ### Numerals of a fixed width -/

/-- The last `w` digits in base `b`, the most significant one first. -/
def fixedDigits (b : ℕ) : ℕ → ℕ → List ℕ
  | 0, _ => []
  | w + 1, n => fixedDigits b w (n / b) ++ [n % b]

def digitsValue (b : ℕ) (ds : List ℕ) : ℕ := ds.foldl (fun acc d => b * acc + d) 0

lemma length_fixedDigits (b w n : ℕ) : (fixedDigits b w n).length = w := by
  induction w generalizing n with
  | zero => rfl
  | succ w ih => simp [fixedDigits, ih]

lemma fixedDigits_lt {b : ℕ} (hb : 0 < b) (w n : ℕ) : ∀ d ∈ fixedDigits b w n, d < b := by
  induction w generalizing n with
  | zero => simp [fixedDigits]
  | succ w ih =>
    intro d hd
    rcases List.mem_append.mp hd with hd | hd
    · exact ih _ d hd
    · rw [List.mem_singleton.mp hd]
      exact Nat.mod_lt _ hb

lemma digitsValue_fixedDigits (b w n : ℕ) : digitsValue b (fixedDigits b w n) = n % b ^ w := by
  induction w generalizing n with
  | zero => simp [fixedDigits, digitsValue, Nat.mod_one]
  | succ w ih =>
    have hvalue : digitsValue b (fixedDigits b (w + 1) n) = b * digitsValue b (fixedDigits b w (n / b)) + n % b := by
      simp [fixedDigits, digitsValue]
    rw [hvalue, ih, pow_succ', Nat.mod_mul]
    omega

/-- The value of a hexadecimal digit. -/
def hexValue (c : Char) : Option ℕ :=
  if c.isDigit then some (c.toNat - 48)
  else if 'a' ≤ c ∧ c ≤ 'f' then some (c.toNat - 87)
  else if 'A' ≤ c ∧ c ≤ 'F' then some (c.toNat - 55)
  else none

lemma hexValue_digitChar {d : ℕ} (h : d < 16) : hexValue d.digitChar = some d ∧ d.digitChar ≠ '-' := by
  interval_cases d <;> decide

end MatchingEngine.Library

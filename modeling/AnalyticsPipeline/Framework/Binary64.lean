import Mathlib.Algebra.Order.Field.Basic
import Mathlib.Algebra.Order.Floor.Ring
import Mathlib.Data.Int.Log
import Mathlib.Data.Rat.Floor
import Mathlib.Tactic.Linarith
import Mathlib.Tactic.NormNum
import Mathlib.Tactic.FieldSimp
import Mathlib.Tactic.Positivity

/-!
# Rounding to binary64

A rational rounded to 53 significant bits, to the nearest and ties to even, as
IEEE 754 arithmetic does within the range of normal numbers. An integer or a
bound far from the next decision point is not affected: the error is at most
`|x| / 2 ^ 53`.
-/

namespace Framework

/-- The nearest integer, of two the even one. -/
def nearestEven (x : ℚ) : ℤ :=
  let low := ⌊x⌋
  let rest := x - low
  if rest < 1 / 2 then low
  else if 1 / 2 < rest then low + 1
  else if low % 2 = 0 then low else low + 1

/-- The unit in the last place of the 53-bit numbers as large as `x`. -/
def ulp (x : ℚ) : ℚ := 2 ^ (Int.log 2 |x| - 52)

def binary64 (x : ℚ) : ℚ := nearestEven (x / ulp x) * ulp x

theorem nearestEven_intCast (n : ℤ) : nearestEven n = n := by
  simp [nearestEven]

theorem abs_nearestEven_sub_le (x : ℚ) : |(nearestEven x : ℚ) - x| ≤ 1 / 2 := by
  have hlow := Int.floor_le x
  have hhigh := Int.lt_floor_add_one x
  unfold nearestEven
  dsimp only
  rw [abs_le]
  split_ifs with h₁ h₂ <;> constructor <;> push_cast <;> linarith

/-- An even integer is exceeded from halfway to the next one on. -/
theorem lt_nearestEven_iff {x : ℚ} {n : ℤ} (hn : n % 2 = 0) :
    n < nearestEven x ↔ (n : ℚ) + 1 / 2 < x := by
  have hlow := Int.floor_le x
  have hhigh := Int.lt_floor_add_one x
  have hnear := abs_le.mp (abs_nearestEven_sub_le x)
  constructor
  · intro h
    have hcast : (n : ℚ) + 1 ≤ nearestEven x := by exact_mod_cast h
    have hle : (n : ℚ) + 1 / 2 ≤ x := by linarith [hnear.2]
    refine lt_of_le_of_ne hle fun heq => ?_
    -- In the middle between `n` and `n + 1` it is `n` that is even.
    have hfloor : ⌊x⌋ = n := by
      rw [Int.floor_eq_iff]
      constructor <;> linarith
    have hmiddle : nearestEven x = n := by
      unfold nearestEven
      rw [hfloor, ← heq]
      simp [hn]
    omega
  · intro h
    by_contra hle
    have hcast : (nearestEven x : ℚ) ≤ n := by exact_mod_cast not_lt.mp hle
    linarith [hnear.1]

theorem ulp_pos (x : ℚ) : 0 < ulp x := zpow_pos (by norm_num) _

/-- The unit is at most `2 ^ -52` of the number. -/
theorem ulp_le {x : ℚ} (hx : x ≠ 0) : ulp x ≤ |x| / 2 ^ 52 := by
  have hlog := Int.zpow_log_le_self (b := 2) (by norm_num) (abs_pos.mpr hx)
  unfold ulp
  rw [zpow_sub₀ (by norm_num)]
  norm_num at hlog ⊢
  linarith

theorem abs_binary64_sub_le (x : ℚ) : |binary64 x - x| ≤ |x| / 2 ^ 53 := by
  rcases eq_or_ne x 0 with rfl | hx
  · simp [binary64, nearestEven]
  · have hpos := ulp_pos x
    have hle := ulp_le hx
    have hnear := abs_nearestEven_sub_le (x / ulp x)
    have hscale : binary64 x - x =
        (nearestEven (x / ulp x) - x / ulp x) * ulp x := by
      unfold binary64
      field_simp
    rw [hscale, abs_mul, abs_of_pos hpos]
    calc |(nearestEven (x / ulp x) : ℚ) - x / ulp x| * ulp x
        ≤ 1 / 2 * (|x| / 2 ^ 52) := by gcongr
      _ = |x| / 2 ^ 53 := by ring

/-- **Integers below `2 ^ 53` are exact.** -/
theorem binary64_intCast {n : ℤ} (hn : |n| < 2 ^ 53) : binary64 n = n := by
  rcases eq_or_ne n 0 with rfl | hne
  · simp [binary64, nearestEven]
  · have hpos : (0 : ℚ) < |(n : ℚ)| := abs_pos.mpr (Int.cast_ne_zero.mpr hne)
    have hlog : Int.log 2 |(n : ℚ)| < 53 := by
      rw [← Int.lt_zpow_iff_log_lt (by norm_num) hpos]
      exact_mod_cast hn
    -- The unit divides every integer.
    obtain ⟨k, hk⟩ : ∃ k : ℕ, Int.log 2 |(n : ℚ)| - 52 = -(k : ℤ) :=
      ⟨(52 - Int.log 2 |(n : ℚ)|).toNat, by omega⟩
    have hulp : ulp (n : ℚ) = (2 ^ k)⁻¹ := by
      unfold ulp
      rw [hk, zpow_neg, zpow_natCast]
    have hscaled : (n : ℚ) / ulp n = ((n * 2 ^ k : ℤ) : ℚ) := by
      rw [hulp, div_inv_eq_mul]
      push_cast
      rfl
    unfold binary64
    rw [hscaled, nearestEven_intCast, hulp]
    push_cast
    field_simp

/-- Tenths stay on their side of an integer, up to `2 ^ 49`. -/
theorem lt_binary64_tenth_iff {k n : ℤ} (hk : |k| < 2 ^ 49) :
    (n : ℚ) < binary64 (k / 10) ↔ (n : ℚ) < k / 10 := by
  have hsmall : |(k : ℚ) / 10| / 2 ^ 53 < 1 / 10 := by
    have hcast : |(k : ℚ)| < 2 ^ 49 := by exact_mod_cast hk
    rw [abs_div]
    norm_num at hcast ⊢
    linarith
  have herr := abs_lt.mp ((abs_binary64_sub_le ((k : ℚ) / 10)).trans_lt hsmall)
  rcases lt_trichotomy (10 * n) k with hlt | heq | hgt
  · have hcast : (10 * n + 1 : ℚ) ≤ k := by exact_mod_cast hlt
    exact iff_of_true (by linarith [herr.1]) (by linarith)
  · have hexact : (k : ℚ) / 10 = n := by
      rw [← heq]
      push_cast
      ring
    have hn : |n| < 2 ^ 53 := by
      rw [abs_lt] at hk ⊢
      omega
    rw [hexact, binary64_intCast hn]
  · have hcast : (k + 1 : ℚ) ≤ 10 * n := by exact_mod_cast hgt
    exact iff_of_false (by linarith [herr.2]) (by linarith)

end Framework

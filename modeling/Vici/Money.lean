import Mathlib

/-!
# Money and rounding

All stored amounts are integer cents. Dollar amounts and durations come as
floats in the program; here they are exact rationals, and `round` is the
round-half-to-even of the language.
-/
namespace Vici.Money

/-- `round(q)`: to the nearest integer, a tie to the even neighbour. -/
def round (q : ℚ) : ℤ :=
  let below := ⌊q⌋
  if q - below < 1 / 2 then below
  else if 1 / 2 < q - below then below + 1
  else if below % 2 = 0 then below else below + 1

def centsPerDollar : ℕ := 100

theorem centsPerDollar_pos : (0 : ℚ) < centsPerDollar := by norm_num [centsPerDollar]

/-- `dollars_to_cents`: used when an extracted amount is stored. -/
def dollarsToCents (dollars : ℚ) : ℤ := round (dollars * centsPerDollar)

@[simp] theorem round_intCast (n : ℤ) : round n = n := by simp [round]

theorem floor_le_round (q : ℚ) : ⌊q⌋ ≤ round q := by
  simp only [round]
  split_ifs <;> omega

theorem round_nonneg {q : ℚ} (h : 0 ≤ q) : 0 ≤ round q :=
  (Int.floor_nonneg.mpr h).trans (floor_le_round q)

theorem round_le_floor_add_one (q : ℚ) : round q ≤ ⌊q⌋ + 1 := by
  simp only [round]
  split_ifs <;> omega

/-- An odd integer is rounded up to above the half below it: the tie goes to
its even neighbour. -/
theorem le_round_iff_of_odd {q : ℚ} {n : ℤ} (hn : n % 2 = 1) :
    n ≤ round q ↔ (n : ℚ) - 1 / 2 < q := by
  have hle := Int.floor_le q
  have hlt := Int.lt_floor_add_one q
  have hlow := floor_le_round q
  have hhigh := round_le_floor_add_one q
  rcases lt_trichotomy n (⌊q⌋ + 1) with h | rfl | h
  · have hcast : (n : ℚ) ≤ ⌊q⌋ := by exact_mod_cast Int.lt_add_one_iff.mp h
    exact iff_of_true (by omega) (by linarith)
  · -- Only here does the remainder matter, and below an odd integer is an even one.
    have heven : ⌊q⌋ % 2 = 0 := by omega
    simp only [round, heven, if_true]
    push_cast
    split_ifs with hbelow habove
    · exact iff_of_false (by omega) (by linarith)
    · exact iff_of_true le_rfl (by linarith)
    · exact iff_of_false (by omega) (by linarith)
  · have hcast : (⌊q⌋ : ℚ) + 1 + 1 ≤ n := by exact_mod_cast h
    exact iff_of_false (by omega) (by linarith)

/-- An odd integer is not exceeded below the half above it. -/
theorem round_le_iff_of_odd {q : ℚ} {n : ℤ} (hn : n % 2 = 1) :
    round q ≤ n ↔ q < (n : ℚ) + 1 / 2 := by
  have hle := Int.floor_le q
  have hlt := Int.lt_floor_add_one q
  have hlow := floor_le_round q
  have hhigh := round_le_floor_add_one q
  rcases lt_trichotomy n ⌊q⌋ with h | rfl | h
  · have hcast : (n : ℚ) + 1 ≤ ⌊q⌋ := by exact_mod_cast h
    exact iff_of_false (by omega) (by linarith)
  · have hodd : ¬⌊q⌋ % 2 = 0 := by omega
    simp only [round, hodd, if_false]
    split_ifs with hbelow habove
    · exact iff_of_true le_rfl (by linarith)
    · exact iff_of_false (by omega) (by linarith)
    · exact iff_of_false (by omega) (by linarith)
  · have hcast : (⌊q⌋ : ℚ) + 1 ≤ n := by exact_mod_cast h
    exact iff_of_true (by omega) (by linarith)

example : round (5 / 2) = 2 ∧ round (7 / 2) = 4 := by decide +kernel

end Vici.Money

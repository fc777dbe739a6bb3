import Mathlib

/-! Signed arithmetic of 32 bits that wraps, in exact numbers. -/
namespace Wrapping

theorem bounds (a : Int32) : -2147483648 ≤ a.toInt ∧ a.toInt < 2147483648 := ⟨a.le_toInt, a.toInt_lt⟩

theorem bmod_eq (n : Int) : ∃ turns : Int, n.bmod (2 ^ 32) = n - 4294967296 * turns := by
  rw [Int.bmod_eq_emod]
  split
  · exact ⟨n / 4294967296 + 1, by omega⟩
  · exact ⟨n / 4294967296, by omega⟩

theorem toInt_add (a b : Int32) : ∃ turns : Int, (a + b).toInt = a.toInt + b.toInt - 4294967296 * turns := by
  rw [Int32.toInt_add]
  exact bmod_eq _

theorem toInt_sub (a b : Int32) : ∃ turns : Int, (a - b).toInt = a.toInt - b.toInt - 4294967296 * turns := by
  rw [Int32.toInt_sub]
  exact bmod_eq _

theorem toInt_mul (a b : Int32) : ∃ turns : Int, (a * b).toInt = a.toInt * b.toInt - 4294967296 * turns := by
  rw [Int32.toInt_mul]
  exact bmod_eq _

/-- A sum that fits. -/
theorem toInt_add_of_fits {a b : Int32} (low : -2147483648 ≤ a.toInt + b.toInt) (high : a.toInt + b.toInt < 2147483648) :
    (a + b).toInt = a.toInt + b.toInt := by
  obtain ⟨turns, sum⟩ := toInt_add a b
  have := bounds (a + b)
  omega

theorem toInt_sub_of_fits {a b : Int32} (low : -2147483648 ≤ a.toInt - b.toInt) (high : a.toInt - b.toInt < 2147483648) :
    (a - b).toInt = a.toInt - b.toInt := by
  obtain ⟨turns, difference⟩ := toInt_sub a b
  have := bounds (a - b)
  omega

theorem toInt_mul_of_fits {a b : Int32} (low : -2147483648 ≤ a.toInt * b.toInt) (high : a.toInt * b.toInt < 2147483648) :
    (a * b).toInt = a.toInt * b.toInt := by
  obtain ⟨turns, product⟩ := toInt_mul a b
  have := bounds (a * b)
  omega

/-- The conversion to 64 bits without a sign keeps a number that is not negative. -/
theorem toNat_toUInt64_of_nonneg {a : Int32} (nonneg : 0 ≤ a.toInt) : (a.toInt64.toUInt64.toNat : Int) = a.toInt := by
  have wide : (0 : Int64) ≤ a.toInt64 := by simpa [Int64.le_iff_toInt_le] using nonneg
  rw [Int64.toNat_toUInt64_of_le wide, Int64.toNatClampNeg, Int32.toInt_toInt64, Int.toNat_of_nonneg nonneg]

end Wrapping

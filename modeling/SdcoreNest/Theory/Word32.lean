/-
# Theory.Word32 -- the operators on 32-bit integers

The shifts and `&` take their operands modulo `2 ^ 32`.  `<<` and `&` answer a signed
integer, `>>>` an unsigned one.
-/
import Mathlib.Data.Nat.Bitwise

namespace SdcoreNest.Theory.Word32

set_option autoImplicit false

/-- `a << count` -/
def shiftLeft (a : Int) (count : Nat) : Int := (BitVec.ofInt 32 a <<< (count % 32)).toInt

/-- `a >>> count` -/
def shiftRight (a : Int) (count : Nat) : Int := (BitVec.ofInt 32 a >>> (count % 32)).toNat

/-- `a & b` -/
def and (a b : Int) : Int := (BitVec.ofInt 32 a &&& BitVec.ofInt 32 b).toInt

/-! ## Numbers that fit -/

/-- `>>> 0` keeps an unsigned number. -/
theorem shiftRight_zero {n : Nat} (fits : n < 2 ^ 32) : shiftRight n 0 = n := by
  simp only [shiftRight, Nat.zero_mod, BitVec.ushiftRight_zero, BitVec.ofInt_natCast,
    BitVec.toNat_ofNat, Nat.mod_eq_of_lt fits]

/-- `>>> 0` takes the sign off a shifted number. -/
theorem shiftRight_shiftLeft {n count : Nat} (small : count < 32) (fits : n * 2 ^ count < 2 ^ 32) :
    shiftRight (shiftLeft n count) 0 = (n * 2 ^ count : Nat) := by
  have below : n < 2 ^ 32 := lt_of_le_of_lt (Nat.le_mul_of_pos_right n (Nat.two_pow_pos count)) fits
  simp only [shiftRight, shiftLeft, BitVec.ofInt_toInt, Nat.zero_mod, BitVec.ushiftRight_zero,
    Nat.mod_eq_of_lt small, BitVec.toNat_shiftLeft, BitVec.ofInt_natCast, BitVec.toNat_ofNat,
    Nat.mod_eq_of_lt below, Nat.shiftLeft_eq, Nat.mod_eq_of_lt fits]

/-- A shift that stays below the sign bit is a product. -/
theorem shiftLeft_small {n count : Nat} (small : count < 32) (fits : n * 2 ^ count < 2 ^ 31) :
    shiftLeft n count = (n * 2 ^ count : Nat) := by
  have below : n < 2 ^ 32 := by
    have := Nat.le_mul_of_pos_right n (Nat.two_pow_pos count)
    omega
  have word : (BitVec.ofInt 32 (n : Int) <<< (count % 32)).toNat = n * 2 ^ count := by
    rw [BitVec.toNat_shiftLeft, BitVec.ofInt_natCast, BitVec.toNat_ofNat, Nat.mod_eq_of_lt below,
      Nat.mod_eq_of_lt small, Nat.shiftLeft_eq, Nat.mod_eq_of_lt (by omega)]
  rw [shiftLeft, BitVec.toInt_eq_toNat_of_lt (by omega), word]

/-- A signed comparison of two conjunctions compares the unsigned ones. -/
theorem and_eq_and_iff {n m mask : Nat} (left : n < 2 ^ 32) (right : m < 2 ^ 32) (fits : mask < 2 ^ 32) :
    and n mask = and m mask ↔ n &&& mask = m &&& mask := by
  simp only [and, BitVec.toInt_inj, ← BitVec.toNat_inj, BitVec.toNat_and, BitVec.ofInt_natCast,
    BitVec.toNat_ofNat, Nat.mod_eq_of_lt left, Nat.mod_eq_of_lt right, Nat.mod_eq_of_lt fits]

/-! ## Masks -/

/-- The number whose first bits, of 32, are set. -/
def leadingMask (bits : Nat) : Nat := 2 ^ 32 - 2 ^ (32 - bits)

theorem testBit_leadingMask (bits index : Nat) :
    (leadingMask bits).testBit index = (decide (index < 32) && decide (32 - bits ≤ index)) := by
  have atLeast : 2 ^ (32 - bits) = 2 ^ (32 - bits) - 1 + 1 :=
    (Nat.sub_add_cancel (Nat.two_pow_pos _)).symm
  have below : 2 ^ (32 - bits) - 1 < 2 ^ 32 :=
    lt_of_lt_of_le (Nat.sub_lt (Nat.two_pow_pos _) Nat.one_pos)
      (Nat.pow_le_pow_right Nat.two_pos (Nat.sub_le 32 bits))
  rw [leadingMask, atLeast, Nat.testBit_two_pow_sub_succ below, Nat.testBit_two_pow_sub_one]
  simp only [Bool.and_eq_decide, ← decide_not, Nat.not_lt]

/-- Two numbers agree under a mask if and only if their first bits are equal. -/
theorem and_leadingMask_eq_iff {bits n m : Nat} (most : bits ≤ 32) :
    n &&& leadingMask bits = m &&& leadingMask bits ↔
      ∀ index < bits, n.testBit (31 - index) = m.testBit (31 - index) := by
  rw [Nat.eq_iff_testBit_eq]
  simp only [Nat.testBit_and, testBit_leadingMask]
  constructor
  · intro same index early
    have here := same (31 - index)
    rwa [decide_eq_true (by omega), decide_eq_true (by omega), Bool.and_self, Bool.and_true,
      Bool.and_true] at here
  · intro same index
    by_cases inside : index < 32 ∧ 32 - bits ≤ index
    · have here := same (31 - index) (by omega)
      rw [show 31 - (31 - index) = index by omega] at here
      rw [here]
    · have outside : (decide (index < 32) && decide (32 - bits ≤ index)) = false := by
        rw [← Bool.decide_and]
        exact decide_eq_false inside
      rw [outside, Bool.and_false, Bool.and_false]

/-- Equal quotients have equal first bits. -/
theorem testBit_of_div_eq {bits n m : Nat} (same : n / 2 ^ (32 - bits) = m / 2 ^ (32 - bits)) :
    ∀ index < bits, bits ≤ 32 → n.testBit (31 - index) = m.testBit (31 - index) := by
  intro index early most
  have place : 31 - index = bits - 1 - index + (32 - bits) := by omega
  rw [place, ← Nat.testBit_div_two_pow, same, Nat.testBit_div_two_pow]

end SdcoreNest.Theory.Word32

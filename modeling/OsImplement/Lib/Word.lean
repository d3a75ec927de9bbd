import Mathlib.Data.Nat.Bitwise

/-!
Unsigned 32-bit arithmetic on natural numbers: a machine word is a number below `2 ^ 32`, and every
operation reduces its result.
-/

namespace OsImplement.Lib.Word

/-- Addition of words. -/
def add32 (a b : ℕ) : ℕ := (a + b) % 2 ^ 32

/-- Subtraction of words, from below zero to the top of the range. -/
def sub32 (a b : ℕ) : ℕ := (a + (2 ^ 32 - b % 2 ^ 32)) % 2 ^ 32

lemma add32_lt (a b : ℕ) : add32 a b < 2 ^ 32 := Nat.mod_lt _ (by decide)

lemma sub32_lt (a b : ℕ) : sub32 a b < 2 ^ 32 := Nat.mod_lt _ (by decide)

lemma add32_eq {a b : ℕ} (h : a + b < 2 ^ 32) : add32 a b = a + b := Nat.mod_eq_of_lt h

lemma sub32_eq {a b : ℕ} (hb : b ≤ a) (ha : a < 2 ^ 32) : sub32 a b = a - b := by
  unfold sub32
  omega

lemma sub32_wrap {a b : ℕ} (hab : a < b) (hb : b < 2 ^ 32) : sub32 a b = a + 2 ^ 32 - b := by
  unfold sub32
  omega

lemma and_255 (x : ℕ) : x &&& 255 = x % 256 := Nat.and_two_pow_sub_one_eq_mod x 8

lemma and_4095 (x : ℕ) : x &&& 0xFFF = x % 0x1000 := Nat.and_two_pow_sub_one_eq_mod x 12

lemma and_pages {x : ℕ} (hx : x < 2 ^ 32) : x &&& 0xFFFFF000 = x / 0x1000 * 0x1000 := by
  rw [show x / 0x1000 * 0x1000 = (x >>> 12) <<< 12 by
    rw [Nat.shiftLeft_eq, Nat.shiftRight_eq_div_pow], show 0xFFFFF000 = (2 ^ 20 - 1) <<< 12 from rfl]
  refine Nat.eq_of_testBit_eq fun i => ?_
  rw [Nat.testBit_and, Nat.testBit_shiftLeft, Nat.testBit_shiftLeft, Nat.testBit_shiftRight,
    Nat.testBit_two_pow_sub_one]
  by_cases hi : 12 ≤ i
  · rw [show 12 + (i - 12) = i by omega]
    by_cases h20 : i - 12 < 20
    · simp [hi, h20]
    · have : x.testBit i = false :=
        Nat.testBit_lt_two_pow (hx.trans_le (Nat.pow_le_pow_right (by decide) (by omega)))
      simp [this]
  · simp [hi]

lemma or_7 {x : ℕ} (hx : x % 0x1000 = 0) : x ||| 7 = x + 7 := by
  have h7 : 7 < 2 ^ 12 := by omega
  have h := Nat.shiftLeft_add_eq_or_of_lt h7 (x / 0x1000)
  have hs : (x / 0x1000) <<< 12 = x := by
    rw [Nat.shiftLeft_eq]
    omega
  rw [hs] at h
  exact h.symm

end OsImplement.Lib.Word

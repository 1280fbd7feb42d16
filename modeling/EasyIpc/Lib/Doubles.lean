import EasyIpc.Lib.Numerals
import Mathlib.Data.Rat.Floor
import Mathlib.Tactic.NormNum

/-!
# Doubles

The arithmetic that a C program does with doubles, given by its operations: nothing is known of them
but what a proof asks for.

* `Doubles` — the operations, and the texts that `printf` makes of a double.
* `Doubles.ExactInts` — integers of at most 53 bits are computed with exactly.
* `foldl_shiftIn`, `foldl_decrement` — digits that are multiplied up to an integer, and a counter that
  goes down.
* `Doubles.Bounded` — the lengths of the printed texts.
* `rationals` — doubles that are never rounded.
-/

namespace Floats

open Numerals

/-- What a machine computes with doubles. -/
structure Doubles (ν : Type) where
  /-- The double that stands for a number of the program. -/
  ofRat : ℚ → ν
  add : ν → ν → ν
  sub : ν → ν → ν
  mul : ν → ν → ν
  pow : ν → ν → ν
  fabs : ν → ν
  floor : ν → ν
  /-- `x<y`. -/
  lt : ν → ν → Bool
  /-- `x<=y`. -/
  le : ν → ν → Bool
  /-- `(int)x`. -/
  toInt : ν → ℤ
  isInt_toInt : ∀ x, IsInt (toInt x)
  /-- What `%.0f` makes of it. -/
  percent0f : ν → List UInt8
  /-- What `%e` makes of it. -/
  percentE : ν → List UInt8
  /-- What `%f` makes of it. -/
  percentF : ν → List UInt8

namespace Doubles

variable {ν : Type} (fp : Doubles ν)

/-- An integer as a double. -/
def ofInt (n : ℤ) : ν := fp.ofRat n

/-- `DBL_EPSILON`. -/
def epsilon : ν := fp.ofRat (1 / 4503599627370496)

/-- `n=(n*10.0)+(c-'0')`. -/
def shiftIn (n : ν) (c : UInt8) : ν := fp.add (fp.mul n (fp.ofInt 10)) (fp.ofInt (c.toNat - 48))

end Doubles

/-- An integer of at most 53 bits. -/
def IsExact (n : ℤ) : Prop := -9007199254740992 ≤ n ∧ n ≤ 9007199254740992

namespace Doubles

variable {ν : Type} {fp : Doubles ν}

/-- What is documented of computations whose operands and results are integers of at most 53 bits: no
result is rounded, and a double of an `int` is converted back to it.  A product that is zero has the sign
of its factors, and there is but one zero that stands for an integer. -/
structure ExactInts (fp : Doubles ν) : Prop where
  add : ∀ {a b : ℤ}, IsExact a → IsExact b → IsExact (a + b) →
    fp.add (fp.ofInt a) (fp.ofInt b) = fp.ofInt (a + b)
  sub : ∀ {a b : ℤ}, IsExact a → IsExact b → IsExact (a - b) →
    fp.sub (fp.ofInt a) (fp.ofInt b) = fp.ofInt (a - b)
  mul : ∀ {a b : ℤ}, IsExact a → IsExact b → IsExact (a * b) → (a * b ≠ 0 ∨ 0 ≤ a ∧ 0 ≤ b) →
    fp.mul (fp.ofInt a) (fp.ofInt b) = fp.ofInt (a * b)
  pow_zero : fp.pow (fp.ofInt 10) (fp.ofInt 0) = fp.ofInt 1
  fabs_zero : fp.fabs (fp.ofInt 0) = fp.ofInt 0
  zero_le_epsilon : fp.le (fp.ofInt 0) fp.epsilon = true
  le : ∀ {a b : ℤ}, IsExact a → IsExact b → a ≤ b → fp.le (fp.ofInt a) (fp.ofInt b) = true
  toInt : ∀ {a : ℤ}, IsInt a → fp.toInt (fp.ofInt a) = a

/-- What is documented of the lengths of the printed texts: `%.0f` of less than `1.0e60` has no more
than 60 digits, `%f` of what is not greater than `1.0e9` no more than ten before the point, and `%e`
has two signs, seven digits with a point, an `e` and no more than three digits behind it. -/
structure Bounded (fp : Doubles ν) : Prop where
  percent0f : ∀ d, fp.lt (fp.fabs d) (fp.ofRat (10 ^ 60)) = true → (fp.percent0f d).length ≤ 61
  percentE : ∀ d, (fp.percentE d).length ≤ 14
  percentF : ∀ d, fp.lt (fp.ofRat (10 ^ 9)) (fp.fabs d) = false → (fp.percentF d).length ≤ 18

end Doubles

/-! ## Digits -/

theorem le_foldl_digits (ds : List UInt8) (n : ℕ) :
    n ≤ ds.foldl (fun v c => 10 * v + (digitVal c).getD 0) n := by
  induction ds generalizing n with
  | nil => exact le_rfl
  | cons c ds ih =>
    have := ih (10 * n + (digitVal c).getD 0)
    rw [List.foldl_cons]
    omega

/-- The value of a decimal digit. -/
theorem digitVal_of_range {c : UInt8} (h : 48 ≤ c.toNat ∧ c.toNat ≤ 57) :
    digitVal c = some (c.toNat - 48) := by
  rw [digitVal, if_pos]
  simpa [UInt8.le_iff_toNat_le] using h

section Exact

variable {ν : Type} {fp : Doubles ν}

theorem shiftIn_ofInt (hfp : fp.ExactInts) {n : ℕ} {c : UInt8} (hc : 48 ≤ c.toNat ∧ c.toNat ≤ 57)
    (hn : 10 * n + (c.toNat - 48) ≤ 9007199254740992) :
    fp.shiftIn (fp.ofInt n) c = fp.ofInt (10 * n + (c.toNat - 48) : ℕ) := by
  have hmul := hfp.mul (a := n) (b := 10) (by unfold IsExact; omega) (by unfold IsExact; omega)
    (by unfold IsExact; omega) (Or.inr ⟨by omega, by omega⟩)
  have hadd := hfp.add (a := n * 10) (b := c.toNat - 48) (by unfold IsExact; omega)
    (by unfold IsExact; omega) (by unfold IsExact; omega)
  rw [Doubles.shiftIn, hmul, hadd]
  congr 1
  omega

/-- **Digits are multiplied up to the integer that they stand for**, as far as it has 53 bits. -/
theorem foldl_shiftIn (hfp : fp.ExactInts) {ds : List UInt8}
    (hds : ∀ c ∈ ds, 48 ≤ c.toNat ∧ c.toNat ≤ 57) {n : ℕ}
    (hn : ds.foldl (fun v c => 10 * v + (digitVal c).getD 0) n ≤ 9007199254740992) :
    ds.foldl fp.shiftIn (fp.ofInt n) =
      fp.ofInt (ds.foldl (fun v c => 10 * v + (digitVal c).getD 0) n : ℕ) := by
  induction ds generalizing n with
  | nil => rfl
  | cons c ds ih =>
    obtain ⟨hc, hds⟩ := List.forall_mem_cons.1 hds
    rw [List.foldl_cons, digitVal_of_range hc, Option.getD_some] at hn
    have hle := le_foldl_digits ds (10 * n + (c.toNat - 48))
    rw [List.foldl_cons, shiftIn_ofInt hfp hc (hle.trans hn), ih hds hn, List.foldl_cons,
      digitVal_of_range hc, Option.getD_some]

/-- **A counter goes down by one for each item.** -/
theorem foldl_decrement {α : Type} (hfp : fp.ExactInts) (l : List α) {n : ℤ} (hn : IsExact n)
    (h : IsExact (n - l.length)) :
    l.foldl (fun scale _ => fp.sub scale (fp.ofInt 1)) (fp.ofInt n) = fp.ofInt (n - l.length) := by
  induction l generalizing n with
  | nil => simp
  | cons a l ih =>
    unfold IsExact at hn h
    simp only [List.length_cons, Nat.cast_add, Nat.cast_one] at h
    have hsub := hfp.sub (a := n) (b := 1) hn (by unfold IsExact; omega) (by unfold IsExact; omega)
    rw [List.foldl_cons, hsub, ih (by unfold IsExact; omega) (by unfold IsExact; omega)]
    congr 1
    simp only [List.length_cons, Nat.cast_add, Nat.cast_one]
    omega

end Exact

/-! ## Rational numbers -/

/-- Doubles that are never rounded.  What is printed of one that is no integer is left open. -/
def rationals : Doubles ℚ where
  ofRat x := x
  add x y := x + y
  sub x y := x - y
  mul x y := x * y
  pow x y := x ^ y.num
  fabs x := |x|
  floor x := ⌊x⌋
  lt x y := x < y
  le x y := x ≤ y
  toInt x := if IsInt (x.num.tdiv x.den) then x.num.tdiv x.den else -2147483648
  isInt_toInt x := by
    split
    · assumption
    · decide
  percent0f _ := []
  percentE _ := []
  percentF _ := []

theorem exactInts_rationals : rationals.ExactInts where
  add _ _ _ := by simp [rationals, Doubles.ofInt]
  sub _ _ _ := by simp [rationals, Doubles.ofInt]
  mul _ _ _ _ := by simp [rationals, Doubles.ofInt]
  pow_zero := by simp [rationals, Doubles.ofInt]
  fabs_zero := by simp [rationals, Doubles.ofInt]
  zero_le_epsilon := by norm_num [rationals, Doubles.ofInt, Doubles.epsilon]
  le _ _ h := by simpa [rationals, Doubles.ofInt] using h
  toInt h := by simp [rationals, Doubles.ofInt, h]

theorem bounded_rationals : rationals.Bounded where
  percent0f _ _ := by simp [rationals]
  percentE _ := by simp [rationals]
  percentF _ _ := by simp [rationals]

end Floats

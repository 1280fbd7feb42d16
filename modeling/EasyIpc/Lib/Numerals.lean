import Mathlib.Data.List.Basic
import Mathlib.Data.Int.Notation
import Mathlib.Algebra.Order.Ring.Int

/-!
# Reading numbers

The integers that the C library reads at the start of a text: blanks, a sign and digits.

* `digitsValue` — the value of some digits; `scanSigned` — a sign and at least one digit.
* `readInt`, `atoi` — the integer of a text, and what `atoi` makes of it: `strtol` stays within
  `long`, and the result is cut to an `int`.
* `scanHex`, `sscanfD`, `sscanfX` — the conversions `%d` and `%x` into an `int`, which stays as it is
  where the text is no number.
* `atoi_of_range` — an integer that fits an `int` is read as it is.
-/

namespace Numerals

/-- `isspace`. -/
def isSpace (c : UInt8) : Bool := c == 32 || (9 ≤ c && c ≤ 13)

/-- The value of a digit, the letters included that stand for digits of base 16. -/
def digitVal (c : UInt8) : Option ℕ :=
  if 48 ≤ c ∧ c ≤ 57 then some (c.toNat - 48)
  else if 65 ≤ c ∧ c ≤ 70 then some (c.toNat - 55)
  else if 97 ≤ c ∧ c ≤ 102 then some (c.toNat - 87)
  else none

/-- A digit of the base. -/
def isDigit (base : ℕ) (c : UInt8) : Bool := (digitVal c).any fun d => d < base

/-- The value of some digits. -/
def digitsValue (base : ℕ) (ds : List UInt8) : ℕ :=
  ds.foldl (fun v c => base * v + (digitVal c).getD 0) 0

/-- The text behind a sign, if it has one. -/
def dropSign (s : List UInt8) : List UInt8 :=
  if s.head? = some 45 ∨ s.head? = some 43 then s.tail else s

/-- The number with the sign of the text. -/
def applySign (s : List UInt8) (n : ℕ) : ℤ := if s.head? = some 45 then -n else n

/-- A sign or none, and at least one digit. -/
def scanSigned (base : ℕ) (s : List UInt8) : Option ℤ :=
  let ds := (dropSign s).takeWhile (isDigit base)
  if ds = [] then none else some (applySign s (digitsValue base ds))

/-- The decimal integer at the start of a text, 0 where there is none. -/
def readInt (s : List UInt8) : ℤ := (scanSigned 10 (s.dropWhile isSpace)).getD 0

/-- `strtol(s, NULL, 10)`. -/
def strtol (s : List UInt8) : ℤ := max (-9223372036854775808) (min 9223372036854775807 (readInt s))

/-- An integer cut to 32 bits. -/
def toInt32 (v : ℤ) : ℤ := (BitVec.ofInt 32 v).toInt

/-- `atoi`. -/
def atoi (s : List UInt8) : ℤ := toInt32 (strtol s)

/-- The text begins with `0x` or `0X`. -/
def hexPrefixed (s : List UInt8) : Bool :=
  s.head? = some 48 ∧ (s.tail.head? = some 120 ∨ s.tail.head? = some 88)

/-- A sign or none, `0x` or not, and at least one digit of base 16. -/
def scanHex (s : List UInt8) : Option ℤ :=
  let t := dropSign s
  let ds := (if hexPrefixed t then t.drop 2 else t).takeWhile (isDigit 16)
  if ds = [] then none else some (applySign s (digitsValue 16 ds))

/-- `sscanf(s, "%d", &out)`: the `int` afterwards.  A number beyond its range is cut to 32 bits. -/
def sscanfD (s : List UInt8) (out : ℤ) : ℤ :=
  match scanSigned 10 (s.dropWhile isSpace) with
  | none => out
  | some v => toInt32 v

/-- `sscanf(s, "%x", &out)`. -/
def sscanfX (s : List UInt8) (out : ℤ) : ℤ :=
  match scanHex (s.dropWhile isSpace) with
  | none => out
  | some v => toInt32 v

/-- The range of an `int`. -/
def IsInt (v : ℤ) : Prop := -2147483648 ≤ v ∧ v ≤ 2147483647

instance (v : ℤ) : Decidable (IsInt v) := inferInstanceAs (Decidable (_ ∧ _))

theorem toInt32_of_range {v : ℤ} (h : IsInt v) : toInt32 v = v := by
  have hpow : ((2 ^ 32 : ℕ) : ℤ) = 4294967296 := rfl
  unfold IsInt at h
  rw [toInt32, BitVec.toInt_ofInt, Int.bmod, hpow]
  split <;> omega

/-- **`atoi` reads what fits an `int`.** -/
theorem atoi_of_range {s : List UInt8} (h : IsInt (readInt s)) : atoi s = readInt s := by
  have hlong : strtol s = readInt s := by
    unfold IsInt at h
    unfold strtol
    omega
  rw [atoi, hlong, toInt32_of_range h]

end Numerals

import Mathlib.Data.List.Basic
import Mathlib.Data.Int.Notation

/-!
# Formatting

`vsprintf` over byte strings: literal bytes, `%%`, and the conversions `%s` and `%d` with the flags
`-` and `0`, a width and the modifier `l`.  Every other directive, and a directive whose argument is
missing or of another kind, is left to the parameter `lib`: what the C library does there.

* `format_append_of_not_mem`, `format_cons`, `format_spec`, `format_str` — the output piece by piece.
* `vsprintf_of_not_mem` — a format without `%` is copied; `length_vsprintf_silent_lt` — one with a
  `%` comes out shorter, if it has no arguments and the library writes nothing.
* `le_length_pad`, `width_le_length_number` — a field is at least as wide as its width.
-/

namespace Printf

/-- The bytes of an ASCII string. -/
def bytes (s : String) : List UInt8 := s.toList.map fun c => c.toUInt8

/-- An argument of the format. -/
inductive Arg where
  | str (s : List UInt8)
  | int (n : ℤ)
  deriving DecidableEq, Repr

/-- A directive after its `%`. -/
structure Spec where
  left : Bool
  zero : Bool
  width : ℕ
  conv : UInt8
  deriving DecidableEq, Repr

/-- What the library makes of a directive that is not defined here: it is given the format behind
the `%` and the arguments, and gives the output, the number of bytes of the format it has used and
the arguments that are left. -/
abbrev Library := List UInt8 → List Arg → List UInt8 × ℕ × List Arg

/-- The bytes of a number in decimal. -/
def decimal (n : ℕ) : List UInt8 := (Nat.toDigits 10 n).map fun c => c.toUInt8

/-- Fill a field up to the width. -/
def Spec.pad (spec : Spec) (s : List UInt8) : List UInt8 :=
  if spec.left then s ++ List.replicate (spec.width - s.length) 32
  else List.replicate (spec.width - s.length) 32 ++ s

/-- `%d`: zeros stand between the sign and the digits. -/
def Spec.number (spec : Spec) (n : ℤ) : List UInt8 :=
  let sign : List UInt8 := if n < 0 then [45] else []
  let digits := decimal n.natAbs
  if spec.zero && !spec.left then
    sign ++ List.replicate (spec.width - (sign.length + digits.length)) 48 ++ digits
  else spec.pad (sign ++ digits)

/-- The flags, the width, the modifier and the conversion at the head of a format, with the number
of bytes they take. -/
def parseSpec (fmt : List UInt8) : Option (Spec × ℕ) :=
  let flags := fmt.takeWhile fun c => c == 45 || c == 48
  let rest := fmt.drop flags.length
  let digits := rest.takeWhile fun c => 48 ≤ c && c ≤ 57
  let rest := rest.drop digits.length
  let longs := rest.takeWhile fun c => c == 108
  match rest.drop longs.length with
  | [] => none
  | conv :: _ =>
      some (⟨flags.contains 45, flags.contains 48,
        digits.foldl (fun w c => 10 * w + (c.toNat - 48)) 0, conv⟩,
        flags.length + digits.length + longs.length + 1)

/-- The output of a directive for the first of the arguments, where it is defined here. -/
def Spec.render (spec : Spec) : List Arg → Option (List UInt8)
  | .str s :: _ => if spec.conv = 115 then some (spec.pad s) else none
  | .int n :: _ => if spec.conv = 100 then some (spec.number n) else none
  | [] => none

/-- One directive: its output, the number of bytes of the format behind the `%` that it takes, and
the arguments that are left. -/
def directive (lib : Library) (fmt : List UInt8) (args : List Arg) : List UInt8 × ℕ × List Arg :=
  if fmt.head? = some 37 then ([37], 1, args)
  else
    match parseSpec fmt with
    | none => lib fmt args
    | some (spec, n) =>
        match spec.render args with
        | none => lib fmt args
        | some out => (out, n, args.tail)

/-- `vsprintf` after the next `skip` bytes of the format. -/
def format (lib : Library) : ℕ → List UInt8 → List Arg → List UInt8
  | _, [], _ => []
  | skip + 1, _ :: fmt, args => format lib skip fmt args
  | 0, c :: fmt, args =>
      if c ≠ 37 then c :: format lib 0 fmt args
      else
        (directive lib fmt args).1 ++
          format lib (directive lib fmt args).2.1 fmt (directive lib fmt args).2.2

/-- `vsprintf`. -/
def vsprintf (lib : Library) (fmt : List UInt8) (args : List Arg) : List UInt8 :=
  format lib 0 fmt args

variable {lib : Library} {fmt : List UInt8} {args : List Arg}

/-! ## Piece by piece -/

theorem format_skip (n : ℕ) (fmt : List UInt8) (args : List Arg) :
    format lib n fmt args = format lib 0 (fmt.drop n) args := by
  induction n generalizing fmt with
  | zero => rfl
  | succ n ih =>
    cases fmt with
    | nil => rfl
    | cons c fmt => exact ih fmt

/-- A literal byte. -/
theorem format_cons {c : UInt8} (h : c ≠ 37) (fmt : List UInt8) (args : List Arg) :
    format lib 0 (c :: fmt) args = c :: format lib 0 fmt args := by
  rw [format, if_pos h]

/-- Literal bytes. -/
theorem format_append_of_not_mem {text : List UInt8} (h : (37 : UInt8) ∉ text) (fmt : List UInt8)
    (args : List Arg) : format lib 0 (text ++ fmt) args = text ++ format lib 0 fmt args := by
  induction text with
  | nil => rfl
  | cons c text ih =>
    rw [List.mem_cons, not_or] at h
    rw [List.cons_append, format_cons (Ne.symm h.1), ih h.2, List.cons_append]

/-- A directive that is defined here: `text` stands behind its `%`. -/
theorem format_spec (spec : Spec) {text out : List UInt8} {arg : Arg} (args : List Arg)
    (hhead : (text ++ fmt).head? ≠ some 37)
    (hparse : parseSpec (text ++ fmt) = some (spec, text.length))
    (hout : spec.render (arg :: args) = some out) :
    format lib 0 (37 :: (text ++ fmt)) (arg :: args) = out ++ format lib 0 fmt args := by
  have hdir : directive lib (text ++ fmt) (arg :: args) = (out, text.length, args) := by
    unfold directive
    rw [if_neg hhead]
    simp only [hparse, hout, List.tail_cons]
  rw [format, if_neg (by decide), hdir, format_skip, List.drop_left]

/-- `%s`. -/
theorem format_str (fmt s : List UInt8) (args : List Arg) :
    format lib 0 (37 :: 115 :: fmt) (.str s :: args) = s ++ format lib 0 fmt args := by
  have hhead : ([115] ++ fmt).head? ≠ some 37 := by simp
  refine format_spec ⟨false, false, 0, 115⟩ args hhead rfl ?_
  simp [Spec.render, Spec.pad]

/-! ## Widths -/

theorem le_length_pad (spec : Spec) (s : List UInt8) :
    spec.width ≤ (spec.pad s).length ∧ s.length ≤ (spec.pad s).length := by
  unfold Spec.pad
  split <;> simp only [List.length_append, List.length_replicate] <;> omega

theorem width_le_length_number (spec : Spec) (n : ℤ) : spec.width ≤ (spec.number n).length := by
  unfold Spec.number
  generalize (if n < 0 then [45] else [] : List UInt8) = sign
  generalize decimal n.natAbs = digits
  by_cases hzero : (spec.zero && !spec.left) = true
  · simp only [if_pos hzero, List.length_append, List.length_replicate]
    omega
  · simp only [if_neg hzero]
    exact (le_length_pad spec _).1

/-! ## Formats that are copied -/

/-- A format without `%` is copied, whatever the arguments. -/
theorem vsprintf_of_not_mem (h : (37 : UInt8) ∉ fmt) : vsprintf lib fmt args = fmt := by
  have hcopy := @format_append_of_not_mem lib fmt h [] args
  rwa [List.append_nil, format, List.append_nil] at hcopy

/-- A library that writes nothing for what is not defined. -/
def silent : Library := fun _ args => ([], 0, args)

/-- Without arguments the directives that are defined are `%%`. -/
theorem directive_nil (lib : Library) (fmt : List UInt8) :
    directive lib fmt [] = if fmt.head? = some 37 then ([37], 1, []) else lib fmt [] := by
  unfold directive
  split
  · rfl
  · split
    · rfl
    · rfl

/-- With the silent library and without arguments the output is no longer than the format. -/
theorem length_format_silent_le (skip : ℕ) (fmt : List UInt8) :
    (format silent skip fmt []).length ≤ fmt.length := by
  induction fmt generalizing skip with
  | nil => simp [format]
  | cons c fmt ih =>
    cases skip with
    | succ skip => exact Nat.le_succ_of_le (ih skip)
    | zero =>
      rw [format]
      split
      · simpa using ih 0
      · rw [directive_nil]
        split
        · have hrest := ih 1
          simp only [List.length_append, List.length_cons, List.length_nil]
          omega
        · exact Nat.le_succ_of_le (by simpa [silent] using ih 0)

/-- It is shorter if a byte of the format has been used by the directive before. -/
theorem length_format_silent_skip_lt (fmt : List UInt8) (h : fmt ≠ []) :
    (format silent 1 fmt []).length < fmt.length := by
  cases fmt with
  | nil => exact absurd rfl h
  | cons c fmt => exact Nat.lt_succ_of_le (length_format_silent_le 0 fmt)

/-- It is shorter if there is a `%`. -/
theorem length_vsprintf_silent_lt (h : (37 : UInt8) ∈ fmt) :
    (vsprintf silent fmt []).length < fmt.length := by
  unfold vsprintf
  induction fmt with
  | nil => simp at h
  | cons c fmt ih =>
    rw [format]
    by_cases hc : c = 37
    · rw [if_neg (by simpa using hc), directive_nil]
      split
      · rename_i hhead
        have hne : fmt ≠ [] := by rintro rfl; simp at hhead
        simpa using Nat.succ_lt_succ (length_format_silent_skip_lt fmt hne)
      · exact Nat.lt_succ_of_le (by simpa [silent] using length_format_silent_le 0 fmt)
    · rw [if_pos hc]
      have hmem : (37 : UInt8) ∈ fmt := by simpa [Ne.symm hc] using h
      simpa using ih hmem

end Printf

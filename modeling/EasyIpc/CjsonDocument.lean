import EasyIpc.CjsonStrings
import Mathlib.Data.List.DropRight

/-!
# JSON documents

The texts that JSON writes values in, with any blanks between their parts, and what `cJSON_Parse`
makes of them.

* `NumberText`, `NumberText.double`, `parseNumber_render` — the numbers, and the doubles they stand for.
* `Doc`, `Doc.render`, `Doc.value` — the documents, how they are written and the values they stand
  for.
* `parseValue_render` — a document is read as its value, in the midst of any text that does not go on
  with a digit, a point or an exponent.
* `cJSONParse_document` — every document that is in a block of memory, with blanks around it and a
  zero byte behind, is read as its value.
-/

namespace EasyIpc

open Printf Numerals Scan Stdio Floats

/-! ## Numbers -/

/-- A number of JSON.  `int` are its digits before the point, none for `0`; no fraction and no exponent
are the empty lists.  The exponent fits an `int`. -/
structure NumberText where
  negative : Bool
  int : List UInt8
  fraction : List UInt8
  /-- `e` or `E`. -/
  mark : UInt8
  /-- The sign of the exponent. -/
  sign : List UInt8
  exponent : List UInt8
  int_digits : ∀ c ∈ int, decDigit c = true
  int_head : int.head? ≠ some 48
  fraction_digits : ∀ c ∈ fraction, decDigit c = true
  exponent_digits : ∀ c ∈ exponent, decDigit c = true
  mark_eq : mark = 101 ∨ mark = 69
  sign_eq : sign = [] ∨ sign = [43] ∨ sign = [45]
  exponent_le : digitsValue 10 exponent ≤ 2147483647
  fraction_le : fraction.length ≤ 4503599627370496

namespace NumberText

/-- The digits before the point. -/
def renderInt (t : NumberText) : List UInt8 := if t.int = [] then [48] else t.int

/-- The point and the digits behind it. -/
def renderFraction (t : NumberText) : List UInt8 :=
  if t.fraction = [] then [] else 46 :: t.fraction

/-- The exponent. -/
def renderExponent (t : NumberText) : List UInt8 :=
  if t.exponent = [] then [] else t.mark :: (t.sign ++ t.exponent)

/-- How the number is written. -/
def render (t : NumberText) : List UInt8 :=
  (if t.negative then [45] else []) ++ (t.renderInt ++ (t.renderFraction ++ t.renderExponent))

/-- Its parts. -/
def parts (t : NumberText) : NumberParts :=
  ⟨t.negative, t.int, t.fraction, t.exponent ≠ [] && t.sign = [45], t.exponent⟩

/-- The power of ten: the exponent, less one for each digit behind the point. -/
def scale (t : NumberText) : ℤ :=
  (if t.sign = [45] then -(digitsValue 10 t.exponent : ℤ) else digitsValue 10 t.exponent) -
    t.fraction.length

/-- The double that the number stands for: the digits multiplied up, with the sign and times the power of
ten. -/
def double {ν : Type} (fp : Doubles ν) (t : NumberText) : ν :=
  fp.mul (fp.mul (fp.ofInt (if t.negative then -1 else 1))
      ((t.int ++ t.fraction).foldl fp.shiftIn (fp.ofInt 0)))
    (fp.pow (fp.ofInt 10) (fp.ofInt t.scale))

end NumberText

/-- A byte that a number may go on with: a digit, a point or the mark of an exponent. -/
def inNumber (c : UInt8) : Bool := decDigit c || c == 46 || c == 101 || c == 69

theorem decDigit_iff {c : UInt8} : decDigit c = true ↔ 48 ≤ c.toNat ∧ c.toNat ≤ 57 := by
  simp [decDigit, UInt8.le_iff_toNat_le]

/-- A digit is no sign, no point and no mark. -/
theorem ne_of_decDigit {c : UInt8} (h : decDigit c = true) :
    c ≠ 45 ∧ c ≠ 43 ∧ c ≠ 46 ∧ c ≠ 101 ∧ c ≠ 69 := by
  have hc := decDigit_iff.1 h
  refine ⟨?_, ?_, ?_, ?_, ?_⟩
  all_goals
    rintro rfl
    exact absurd hc (by decide)

theorem eat_cons (c : UInt8) (num : List UInt8) : eat c (c :: num) = num := by
  simp [eat]

theorem eat_of_ne {c : UInt8} {num : List UInt8} (h : num.head? ≠ some c) : eat c num = num :=
  if_neg h

variable {rest : List UInt8}

theorem notAt_digit (h : NotAt inNumber rest) : NotAt decDigit rest := by
  intro c hc
  have := h c hc
  simp only [inNumber, Bool.or_eq_false_iff] at this
  exact this.1.1.1

/-- The exponent is read as it is written. -/
theorem numberExponent_render (t : NumberText) (h : NotAt inNumber rest) :
    numberExponent (t.renderExponent ++ rest) =
      (t.exponent ≠ [] && t.sign = [45], t.exponent, rest) := by
  by_cases hexp : t.exponent = []
  · have hmark : ¬ (rest.head? = some 101 ∨ rest.head? = some 69) := by
      rintro (he | he)
      · exact absurd (h _ he) (by decide)
      · exact absurd (h _ he) (by decide)
    rw [NumberText.renderExponent, if_pos hexp, List.nil_append, numberExponent, if_neg hmark, hexp]
    rfl
  · obtain ⟨e, es, hes⟩ := List.exists_cons_of_ne_nil hexp
    have he : decDigit e = true := t.exponent_digits e (by simp [hes])
    obtain ⟨hminus, hplus, -⟩ := ne_of_decDigit he
    have hrun := takeWhile_run t.exponent_digits (notAt_digit h)
    have hrun' := dropWhile_run t.exponent_digits (notAt_digit h)
    rw [hes] at hrun hrun'
    rw [NumberText.renderExponent, if_neg hexp, List.cons_append, numberExponent,
      if_pos (by rcases t.mark_eq with hm | hm <;> simp [hm])]
    rcases t.sign_eq with hs | hs | hs
    · simpa [hs, hes, hminus, hplus, eat] using ⟨hrun, hrun'⟩
    · simpa [hs, hes] using ⟨hrun, hrun'⟩
    · simpa [hs, hes, eat] using ⟨hrun, hrun'⟩

/-- No part behind the digits begins with one. -/
theorem notAt_renderExponent (t : NumberText) (h : NotAt inNumber rest) :
    NotAt (fun c => decDigit c || c == 46) (t.renderExponent ++ rest) := by
  refine NotAt.append ?_ ?_
  · unfold NumberText.renderExponent
    split
    · exact NotAt.nil _
    · refine NotAt.cons ?_ _
      rcases t.mark_eq with hm | hm <;> rw [hm] <;> decide
  · intro c hc
    have := h c hc
    simp only [inNumber, Bool.or_eq_false_iff] at this ⊢
    exact this.1.1

/-- The fraction is read as it is written. -/
theorem numberFraction_render (t : NumberText) (h : NotAt inNumber rest) :
    numberFraction (t.renderFraction ++ (t.renderExponent ++ rest)) = t.fraction := by
  have hafter := notAt_renderExponent t h
  by_cases hfrac : t.fraction = []
  · rw [NumberText.renderFraction, if_pos hfrac, List.nil_append, numberFraction, hfrac, if_neg]
    rintro ⟨hpoint, -⟩
    exact absurd (hafter _ hpoint) (by decide)
  · obtain ⟨d, ds, hds⟩ := List.exists_cons_of_ne_nil hfrac
    have hd : decDigit d = true := t.fraction_digits d (by simp [hds])
    have hdigit : NotAt decDigit (t.renderExponent ++ rest) := by
      intro c hc
      have := hafter c hc
      simp only [Bool.or_eq_false_iff] at this
      exact this.1
    have hrun := takeWhile_run t.fraction_digits hdigit
    rw [NumberText.renderFraction, if_neg hfrac, List.cons_append, numberFraction, List.tail_cons, hrun]
    rw [if_pos ⟨rfl, by simp [hds, hd]⟩]

/-- What follows the digits before the point begins with none. -/
theorem notAt_renderFraction (t : NumberText) (h : NotAt inNumber rest) :
    NotAt decDigit (t.renderFraction ++ (t.renderExponent ++ rest)) := by
  refine NotAt.append ?_ fun c hc => ?_
  · unfold NumberText.renderFraction
    split
    · exact NotAt.nil _
    · exact NotAt.cons (by decide) _
  · have := notAt_renderExponent t h c hc
    simp only [Bool.or_eq_false_iff] at this
    exact this.1

theorem notAt_first_digit (h : NotAt decDigit rest) :
    ¬ (rest.head?.any fun c => 49 ≤ c && c ≤ 57) = true := by
  cases hhead : rest.head? with
  | none => simp
  | some c =>
    have hc := h c hhead
    intro hone
    have hdig : decDigit c = true := by
      simp only [Option.any_some, Bool.and_eq_true, decide_eq_true_eq, UInt8.le_iff_toNat_le,
        UInt8.reduceToNat] at hone
      exact decDigit_iff.2 (by omega)
    exact absurd hdig (by simp [hc])

/-- The digits before the point are read, behind a zero if there are none. -/
theorem numberInt_render (t : NumberText) (h : NotAt decDigit rest) :
    eat 48 (t.renderInt ++ rest) = t.int ++ rest ∧ numberInt (t.int ++ rest) = t.int := by
  by_cases hnil : t.int = []
  · rw [NumberText.renderInt, if_pos hnil, hnil, List.singleton_append, eat_cons, List.nil_append,
      numberInt, if_neg (notAt_first_digit h)]
    exact ⟨rfl, rfl⟩
  · obtain ⟨d, ds, hds⟩ := List.exists_cons_of_ne_nil hnil
    have hd := decDigit_iff.1 (t.int_digits d (by simp [hds]))
    have hzero : d ≠ 48 := by
      have := t.int_head
      rw [hds] at this
      simpa using this
    have hone : d.toNat ≠ 48 := fun heq => hzero (UInt8.toNat_inj.1 heq)
    rw [NumberText.renderInt, if_neg hnil, eat_of_ne (by simp [hds, hzero]), numberInt, if_pos,
      takeWhile_run t.int_digits h]
    · exact ⟨rfl, rfl⟩
    · simp only [hds, List.cons_append, List.head?_cons, Option.any_some, Bool.and_eq_true,
        decide_eq_true_eq, UInt8.le_iff_toNat_le, UInt8.reduceToNat]
      omega

/-- The number begins with a minus sign if it is negative. -/
theorem head_render (t : NumberText) (rest : List UInt8) :
    (t.render ++ rest).head? = some 45 ↔ t.negative = true := by
  unfold NumberText.render
  cases hneg : t.negative with
  | true => simp
  | false =>
    simp only [Bool.false_eq_true, if_false, List.nil_append, iff_false]
    unfold NumberText.renderInt
    split
    · simp
    · rename_i hnil
      obtain ⟨d, ds, hds⟩ := List.exists_cons_of_ne_nil hnil
      have hd := ne_of_decDigit (t.int_digits d (by simp [hds]))
      simp [hds, hd.1]

/-- The sign is passed over. -/
theorem eat_render (t : NumberText) (rest : List UInt8) : eat 45 (t.render ++ rest) =
    t.renderInt ++ (t.renderFraction ++ (t.renderExponent ++ rest)) := by
  by_cases hneg : t.negative = true
  · simp [NumberText.render, hneg, eat]
  · rw [eat_of_ne (fun hhead => hneg ((head_render t rest).1 hhead))]
    simp [NumberText.render, hneg]

/-- The parts of a number are read. -/
theorem scanNumber_render (t : NumberText) (h : NotAt inNumber rest) :
    scanNumber (t.render ++ rest) = (t.parts, rest) := by
  obtain ⟨heat, hint⟩ := numberInt_render t (notAt_renderFraction t h)
  have hnegative : (decide ((t.render ++ rest).head? = some 45)) = t.negative := by
    rw [Bool.eq_iff_iff, decide_eq_true_iff, head_render]
  have hdrop : (if t.fraction = [] then t.renderFraction ++ (t.renderExponent ++ rest)
      else (t.renderFraction ++ (t.renderExponent ++ rest)).drop (t.fraction.length + 1)) =
      t.renderExponent ++ rest := by
    rw [NumberText.renderFraction]
    split
    · rfl
    · simp
  simp only [scanNumber, eat_render, heat, hint, hnegative, List.drop_left,
    numberFraction_render t h, hdrop, numberExponent_render t h]
  rfl

/-- An exponent that fits an `int` does not wrap. -/
theorem foldl_subscaleStep {ds : List UInt8} (hds : ∀ c ∈ ds, decDigit c = true) {n : ℕ}
    (hn : ds.foldl (fun v c => 10 * v + (digitVal c).getD 0) n ≤ 2147483647) :
    ds.foldl subscaleStep n = (ds.foldl (fun v c => 10 * v + (digitVal c).getD 0) n : ℕ) := by
  induction ds generalizing n with
  | nil => rfl
  | cons c ds ih =>
    obtain ⟨hc, hds⟩ := List.forall_mem_cons.1 hds
    have hc := decDigit_iff.1 hc
    rw [List.foldl_cons, digitVal_of_range hc, Option.getD_some] at hn
    have hle := (le_foldl_digits ds (10 * n + (c.toNat - 48))).trans hn
    have hstep : subscaleStep n c = (10 * n + (c.toNat - 48) : ℕ) := by
      have hten : toInt32 ((n : ℤ) * 10) = n * 10 := toInt32_of_range (by unfold IsInt; omega)
      rw [subscaleStep, hten, toInt32_of_range (by unfold IsInt; omega)]
      omega
    rw [List.foldl_cons, hstep, ih hds hn, List.foldl_cons, digitVal_of_range hc, Option.getD_some]

variable {ν : Type} {fp : Doubles ν}

/-- The power of ten is computed as an integer. -/
theorem add_scale (hfp : fp.ExactInts) (t : NumberText) :
    fp.add (t.fraction.foldl (fun scale _ => fp.sub scale (fp.ofInt 1)) (fp.ofInt 0))
      (fp.ofInt (toInt32 (t.exponent.foldl subscaleStep 0 *
        if t.parts.expNegative then -1 else 1))) = fp.ofInt t.scale := by
  have hfrac := t.fraction_le
  have hexp := t.exponent_le
  have hsub : t.exponent.foldl subscaleStep 0 = digitsValue 10 t.exponent :=
    foldl_subscaleStep (n := 0) t.exponent_digits hexp
  have hsigned : (digitsValue 10 t.exponent : ℤ) * (if t.parts.expNegative then -1 else 1) =
      if t.sign = [45] then -(digitsValue 10 t.exponent : ℤ) else digitsValue 10 t.exponent := by
    by_cases hnone : t.exponent = []
    · simp [NumberText.parts, hnone, digitsValue]
    · by_cases hs : t.sign = [45] <;> simp [NumberText.parts, hnone, hs]
  have hrange : IsInt (if t.sign = [45] then -(digitsValue 10 t.exponent : ℤ)
      else digitsValue 10 t.exponent) := by
    unfold IsInt
    split <;> omega
  rw [hsub, hsigned, toInt32_of_range hrange,
    foldl_decrement hfp t.fraction (by unfold IsExact; omega) (by unfold IsExact; omega)]
  have hsum : 0 - (t.fraction.length : ℤ) + (if t.sign = [45] then -(digitsValue 10 t.exponent : ℤ)
      else digitsValue 10 t.exponent) = t.scale := by
    rw [NumberText.scale]
    omega
  unfold IsInt at hrange
  rw [hfp.add (by unfold IsExact; omega) (by unfold IsExact; omega) (by unfold IsExact; omega), hsum]

/-- **A number is read as the double it stands for.** -/
theorem parseNumber_render (hfp : fp.ExactInts) (t : NumberText) (h : NotAt inNumber rest) :
    parseNumber fp (t.render ++ rest) = (t.double fp, rest) := by
  rw [parseNumber, scanNumber_render t h, numberValue, NumberText.double, List.foldl_append]
  exact congrArg (fun e => (fp.mul _ (fp.pow _ e), rest)) (add_scale hfp t)

/-- An integer of at most 53 bits stands for itself. -/
theorem double_of_int (hfp : fp.ExactInts) {t : NumberText} (hfrac : t.fraction = [])
    (hexp : t.exponent = []) (hint : digitsValue 10 t.int ≤ 9007199254740992)
    (hneg : t.negative = true → digitsValue 10 t.int ≠ 0) :
    t.double fp =
      fp.ofInt (if t.negative then -(digitsValue 10 t.int : ℤ) else digitsValue 10 t.int) := by
  have hdigits : t.int.foldl fp.shiftIn (fp.ofInt 0) = fp.ofInt (digitsValue 10 t.int) :=
    foldl_shiftIn hfp (n := 0) (fun c hc => decDigit_iff.1 (t.int_digits c hc)) hint
  have hscale : t.scale = 0 := by simp [NumberText.scale, hfrac, hexp, digitsValue]
  rw [NumberText.double, hfrac, List.append_nil, hdigits, hscale, hfp.pow_zero]
  cases hsign : t.negative with
  | false =>
    have h₁ := hfp.mul (a := 1) (b := digitsValue 10 t.int) (by unfold IsExact; omega)
      (by unfold IsExact; omega) (by unfold IsExact; omega) (Or.inr ⟨by omega, by omega⟩)
    have h₂ := hfp.mul (a := 1 * digitsValue 10 t.int) (b := 1) (by unfold IsExact; omega)
      (by unfold IsExact; omega) (by unfold IsExact; omega) (Or.inr ⟨by omega, by omega⟩)
    simp only [Bool.false_eq_true, if_false]
    rw [h₁, h₂, mul_one, one_mul]
  | true =>
    have hne := hneg hsign
    have h₁ := hfp.mul (a := -1) (b := digitsValue 10 t.int) (by unfold IsExact; omega)
      (by unfold IsExact; omega) (by unfold IsExact; omega) (Or.inl (by omega))
    have h₂ := hfp.mul (a := -1 * digitsValue 10 t.int) (b := 1) (by unfold IsExact; omega)
      (by unfold IsExact; omega) (by unfold IsExact; omega) (Or.inl (by omega))
    simp only [if_true]
    rw [h₁, h₂, mul_one, neg_one_mul]

/-! ## Documents -/

/-- Bytes that `skip` passes over. -/
structure Whitespace where
  bytes : List UInt8
  isBlank : ∀ c ∈ bytes, (c != 0 && c ≤ 32) = true

/-- The blanks before and behind an item of an array. -/
structure ItemLayout where
  before : Whitespace
  after : Whitespace

/-- The name of a member of an object, and the blanks before and behind the name and the value. -/
structure MemberLayout where
  before : Whitespace
  name : List Piece
  afterName : Whitespace
  beforeValue : Whitespace
  after : Whitespace

/-- A text of JSON. -/
inductive Doc where
  | null
  | bool (valueint : Bool)
  | number (t : NumberText)
  | string (pieces : List Piece)
  | array (blanks : Whitespace) (items : List (ItemLayout × Doc))
  | object (blanks : Whitespace) (members : List (MemberLayout × Doc))

/-- A bracket or, before more items, a comma. -/
def closing (bracket : UInt8) (more : Option (List UInt8)) : List UInt8 :=
  match more with
  | none => [bracket]
  | some text => 44 :: text

mutual

/-- How the document is written. -/
def Doc.render : Doc → List UInt8
  | .null => bytes "null"
  | .bool valueint => if valueint then bytes "true" else bytes "false"
  | .number t => t.render
  | .string pieces => literal pieces
  | .array blanks items => 91 :: (blanks.bytes ++ (renderItems items).getD [93])
  | .object blanks members => 123 :: (blanks.bytes ++ (renderMembers members).getD [125])

/-- The items of an array from one of them on, with the bracket behind them. -/
def renderItems : List (ItemLayout × Doc) → Option (List UInt8)
  | [] => none
  | (l, d) :: items =>
      some (l.before.bytes ++ (d.render ++ (l.after.bytes ++ closing 93 (renderItems items))))

/-- The members of an object from one of them on, with the bracket behind them. -/
def renderMembers : List (MemberLayout × Doc) → Option (List UInt8)
  | [] => none
  | (l, d) :: members =>
      some (l.before.bytes ++ (literal l.name ++ (l.afterName.bytes ++ (58 ::
        (l.beforeValue.bytes ++ (d.render ++ (l.after.bytes ++ closing 125 (renderMembers members))))))))

end

variable (fp : Doubles ν)

mutual

/-- The value that the document stands for. -/
def Doc.value : Doc → Json ν
  | .null => .null
  | .bool valueint => .bool valueint
  | .number t => .number (t.double fp)
  | .string pieces => .string (literalText pieces)
  | .array _ items => .array (itemValues items)
  | .object _ members => .object (memberValues members)

/-- The values of the items. -/
def itemValues : List (ItemLayout × Doc) → List (Json ν)
  | [] => []
  | (_, d) :: items => d.value :: itemValues items

/-- The names and the values of the members. -/
def memberValues : List (MemberLayout × Doc) → List (CStr × Json ν)
  | [] => []
  | (l, d) :: members => (literalText l.name, d.value) :: memberValues members

end

/-! ## Reading a document -/

/-- The bytes that `skip` passes over. -/
def blank (c : UInt8) : Bool := c != 0 && c ≤ 32

theorem skip_whitespace (w : Whitespace) (text : List UInt8) : skip (w.bytes ++ text) = skip text := by
  rw [skip, skip, List.dropWhile_append_of_pos w.isBlank]

theorem skip_of_notAt {text : List UInt8} (h : NotAt blank text) : skip text = text := h.dropWhile

/-- Blanks are no part of a number. -/
theorem notAt_whitespace (w : Whitespace) {text : List UInt8} (h : NotAt inNumber text) :
    NotAt inNumber (w.bytes ++ text) := by
  refine NotAt.append (fun c hc => ?_) h
  have hblank := w.isBlank c (List.mem_of_mem_head? hc)
  simp only [Bool.and_eq_true, decide_eq_true_eq, UInt8.le_iff_toNat_le, UInt8.reduceToNat] at hblank
  have hle := hblank.2
  by_contra hin
  simp only [inNumber, Bool.not_eq_false, Bool.or_eq_true, decDigit_iff, beq_iff_eq] at hin
  rcases hin with ((⟨h, -⟩ | rfl) | rfl) | rfl
  · omega
  all_goals exact absurd hle (by decide)

theorem notAt_closing (bracket : UInt8) (h : inNumber bracket = false)
    (more : Option (List UInt8)) (rest : List UInt8) :
    NotAt inNumber (closing bracket more ++ rest) := by
  cases more with
  | none => exact NotAt.cons h _
  | some text => exact NotAt.cons (by decide) _

theorem skip_skip (text : List UInt8) : skip (skip text) = skip text :=
  List.dropWhile_idempotent _ _

theorem parseArray_skip (junk : ℕ → ℕ × ℕ) (n : ℕ) (text : List UInt8) :
    parseArray fp junk n (skip text) = parseArray fp junk n text := by
  cases n with
  | zero => rfl
  | succ n => rw [parseArray, parseArray, skip_skip]

theorem parseObject_skip (junk : ℕ → ℕ × ℕ) (n : ℕ) (text : List UInt8) :
    parseObject fp junk n (skip text) = parseObject fp junk n text := by
  cases n with
  | zero => rfl
  | succ n => rw [parseObject, parseObject, skip_skip]

/-- The number begins with its sign or with a digit. -/
theorem NumberText.render_head (t : NumberText) :
    ∃ c cs, t.render = c :: cs ∧ (c = 45 ∨ decDigit c = true) := by
  by_cases hneg : t.negative = true
  · exact ⟨45, _, by rw [render, if_pos hneg]; rfl, Or.inl rfl⟩
  rw [render, if_neg hneg, List.nil_append]
  by_cases hnil : t.int = []
  · exact ⟨48, _, by rw [renderInt, if_pos hnil]; rfl, Or.inr (by decide)⟩
  · obtain ⟨d, ds, hds⟩ := List.exists_cons_of_ne_nil hnil
    exact ⟨d, _, by rw [renderInt, if_neg hnil, hds]; rfl,
      Or.inr (t.int_digits d (by simp [hds]))⟩

/-- A document begins with a byte that is no blank and ends no list. -/
theorem Doc.render_head (d : Doc) :
    ∃ c cs, d.render = c :: cs ∧ blank c = false ∧ c ≠ 93 ∧ c ≠ 125 := by
  cases d with
  | null => exact ⟨110, _, rfl, by decide⟩
  | bool valueint =>
    cases valueint with
    | false => exact ⟨102, _, rfl, by decide⟩
    | true => exact ⟨116, _, rfl, by decide⟩
  | number t =>
    obtain ⟨c, cs, ht, hc⟩ := t.render_head
    refine ⟨c, cs, ht, ?_⟩
    rcases hc with rfl | hc
    · decide
    · have hrange := decDigit_iff.1 hc
      simp only [blank, ne_eq, ← UInt8.toNat_inj, UInt8.le_iff_toNat_le, UInt8.reduceToNat,
        Bool.and_eq_false_iff, decide_eq_false_iff_not]
      omega
  | string pieces => exact ⟨34, _, rfl, by decide⟩
  | array blanks items => exact ⟨91, _, by rw [Doc.render], by decide⟩
  | object blanks members => exact ⟨123, _, by rw [Doc.render], by decide⟩

theorem Doc.length_render_pos (d : Doc) : 0 < d.render.length := by
  obtain ⟨c, cs, hd, -⟩ := d.render_head
  simp [hd]

theorem Doc.skip_render (d : Doc) (rest : List UInt8) :
    skip (d.render ++ rest) = d.render ++ rest := by
  obtain ⟨c, cs, hd, hblank, -⟩ := d.render_head
  rw [hd]
  exact skip_of_notAt (NotAt.cons hblank _)

theorem skip_cons {c : UInt8} (h : blank c = false) (text : List UInt8) :
    skip (c :: text) = c :: text := skip_of_notAt (NotAt.cons h text)

/-- A text that begins with no letter of a keyword begins with no keyword. -/
theorem keyword_not_prefix {c : UInt8} (h : c ≠ 110 ∧ c ≠ 102 ∧ c ≠ 116) (text : List UInt8) :
    (bytes "null").isPrefixOf (c :: text) = false ∧ (bytes "false").isPrefixOf (c :: text) = false ∧
      (bytes "true").isPrefixOf (c :: text) = false := by
  have hnull : bytes "null" = [110, 117, 108, 108] := by decide
  have hfalse : bytes "false" = [102, 97, 108, 115, 101] := by decide
  have htrue : bytes "true" = [116, 114, 117, 101] := by decide
  obtain ⟨h1, h2, h3⟩ := h
  simp [hnull, hfalse, htrue, List.isPrefixOf, h1.symm, h2.symm, h3.symm]

section Values

variable (junk : ℕ → ℕ × ℕ) (n : ℕ) (text : List UInt8)

theorem parseValue_null :
    parseValue fp junk (n + 1) (bytes "null" ++ text) = .done .null text := rfl

theorem parseValue_bool (b : Bool) :
    parseValue fp junk (n + 1) ((if b then bytes "true" else bytes "false") ++ text) =
      .done (.bool b) text := by
  cases b <;> rfl

theorem parseValue_string :
    parseValue fp junk (n + 1) (34 :: text) = (parseString junk (34 :: text)).map .string := by
  obtain ⟨h1, h2, h3⟩ := keyword_not_prefix (c := 34) (by decide) text
  rw [parseValue]
  simp only [h1, h2, h3, Bool.false_eq_true, if_false, if_true]

theorem parseValue_number {c : UInt8} (h : c = 45 ∨ decDigit c = true) :
    parseValue fp junk (n + 1) (c :: text) =
      .done (.number (parseNumber fp (c :: text)).1) (parseNumber fp (c :: text)).2 := by
  have hne : c ≠ 110 ∧ c ≠ 102 ∧ c ≠ 116 ∧ c ≠ 34 := by
    rcases h with rfl | h
    · decide
    · have hrange := decDigit_iff.1 h
      simp only [ne_eq, ← UInt8.toNat_inj, UInt8.reduceToNat]
      omega
  obtain ⟨h1, h2, h3⟩ := keyword_not_prefix ⟨hne.1, hne.2.1, hne.2.2.1⟩ text
  rw [parseValue]
  simp only [h1, h2, h3, hne.2.2.2, h, Bool.false_eq_true, if_false, if_true]

theorem parseValue_array :
    parseValue fp junk (n + 1) (91 :: text) =
      match skip text with
      | [] => .undefined
      | d :: text =>
          if d = 93 then .done (.array []) text
          else (parseArray fp junk n (d :: text)).map .array := by
  obtain ⟨h1, h2, h3⟩ := keyword_not_prefix (c := 91) (by decide) text
  rw [parseValue]
  simp only [h1, h2, h3, Bool.false_eq_true, if_false]
  rfl

theorem parseValue_object :
    parseValue fp junk (n + 1) (123 :: text) =
      match skip text with
      | [] => .undefined
      | d :: text =>
          if d = 125 then .done (.object []) text
          else (parseObject fp junk n (d :: text)).map .object := by
  obtain ⟨h1, h2, h3⟩ := keyword_not_prefix (c := 123) (by decide) text
  rw [parseValue]
  simp only [h1, h2, h3, Bool.false_eq_true, if_false]
  rfl

end Values

theorem length_closing_pos (bracket : UInt8) (more : Option (List UInt8)) :
    0 < (closing bracket more).length := by
  cases more <;> simp [closing]

theorem skip_closing (bracket : UInt8) (h : blank bracket = false) (more : Option (List UInt8))
    (rest : List UInt8) : skip (closing bracket more ++ rest) = closing bracket more ++ rest := by
  cases more with
  | none => exact skip_cons h _
  | some text => exact skip_cons (by decide) _

theorem skip_literal (pieces : List Piece) (rest : List UInt8) :
    skip (literal pieces ++ rest) = literal pieces ++ rest := skip_cons (by decide) _

/-- The items begin with one, so that the bracket of an empty array is not there. -/
theorem renderItems_head {items : List (ItemLayout × Doc)} {text : List UInt8}
    (h : renderItems items = some text) (rest : List UInt8) :
    ∃ c cs, skip (text ++ rest) = c :: cs ∧ c ≠ 93 := by
  cases items with
  | nil => simp [renderItems] at h
  | cons item items =>
    obtain ⟨l, d⟩ := item
    obtain ⟨c, cs, hd, hblank, hne, -⟩ := d.render_head
    rw [renderItems, Option.some.injEq] at h
    subst h
    rw [List.append_assoc, skip_whitespace, List.append_assoc, Doc.skip_render, hd]
    exact ⟨c, _, rfl, hne⟩

theorem renderMembers_head {members : List (MemberLayout × Doc)} {text : List UInt8}
    (h : renderMembers members = some text) (rest : List UInt8) :
    ∃ c cs, skip (text ++ rest) = c :: cs ∧ c ≠ 125 := by
  cases members with
  | nil => simp [renderMembers] at h
  | cons member members =>
    obtain ⟨l, d⟩ := member
    rw [renderMembers, Option.some.injEq] at h
    subst h
    rw [List.append_assoc, skip_whitespace, List.append_assoc, skip_literal]
    exact ⟨34, _, rfl, by decide⟩

mutual

/-- **A document is read as its value**, in the midst of any text that does not go on with a digit, a
point or an exponent: `n` bounds the nested calls and the rounds of their loops. -/
theorem parseValue_render (hfp : fp.ExactInts) (junk : ℕ → ℕ × ℕ) (d : Doc) (n : ℕ) (rest : List UInt8)
    (hn : 2 * d.render.length ≤ n) (hrest : NotAt inNumber rest) :
    parseValue fp junk n (d.render ++ rest) = .done (d.value fp) rest := by
  have hpos := d.length_render_pos
  obtain ⟨n, rfl⟩ : ∃ m, n = m + 1 := ⟨n - 1, by omega⟩
  match d with
  | .null => exact parseValue_null fp junk n rest
  | .bool valueint => exact parseValue_bool fp junk n rest valueint
  | .number t =>
    obtain ⟨c, cs, ht, hc⟩ := t.render_head
    have hnum := parseNumber_render hfp t hrest
    rw [Doc.render]
    rw [ht, List.cons_append] at hnum ⊢
    rw [parseValue_number fp junk n _ hc, hnum]
    rfl
  | .string pieces =>
    have hstring := parseString_literal junk pieces rest trivial
    rw [Doc.render]
    rw [literal, List.cons_append, List.cons_append] at hstring ⊢
    rw [parseValue_string, hstring]
    rfl
  | .array blanks items =>
    rw [Doc.render] at hn ⊢
    rw [List.cons_append, parseValue_array, List.append_assoc, skip_whitespace]
    cases hitems : renderItems items with
    | none =>
      cases items with
      | nil => rfl
      | cons item items => simp [renderItems] at hitems
    | some text =>
      obtain ⟨c, cs, hskip, hne⟩ := renderItems_head hitems rest
      have hlen : 2 * text.length ≤ n := by
        simp only [hitems, Option.getD_some, List.length_cons, List.length_append] at hn
        omega
      have hread := parseArray_render hfp junk items n text rest hitems hlen
      rw [← parseArray_skip, hskip] at hread
      simp only [Option.getD_some, hskip, if_neg hne, hread, Scanned.map_done, Doc.value]
  | .object blanks members =>
    rw [Doc.render] at hn ⊢
    rw [List.cons_append, parseValue_object, List.append_assoc, skip_whitespace]
    cases hmembers : renderMembers members with
    | none =>
      cases members with
      | nil => rfl
      | cons member members => simp [renderMembers] at hmembers
    | some text =>
      obtain ⟨c, cs, hskip, hne⟩ := renderMembers_head hmembers rest
      have hlen : 2 * text.length ≤ n := by
        simp only [hmembers, Option.getD_some, List.length_cons, List.length_append] at hn
        omega
      have hread := parseObject_render hfp junk members n text rest hmembers hlen
      rw [← parseObject_skip, hskip] at hread
      simp only [Option.getD_some, hskip, if_neg hne, hread, Scanned.map_done, Doc.value]

/-- The items of an array are read up to the bracket behind them. -/
theorem parseArray_render (hfp : fp.ExactInts) (junk : ℕ → ℕ × ℕ)
    (items : List (ItemLayout × Doc)) (n : ℕ) (text rest : List UInt8)
    (htext : renderItems items = some text) (hn : 2 * text.length ≤ n) :
    parseArray fp junk n (text ++ rest) = .done (itemValues fp items) rest := by
  match items with
  | [] => simp [renderItems] at htext
  | (l, d) :: items =>
    rw [renderItems, Option.some.injEq] at htext
    subst htext
    have hpos := d.length_render_pos
    simp only [List.length_append] at hn
    obtain ⟨n, rfl⟩ : ∃ m, n = m + 1 := ⟨n - 1, by omega⟩
    have hone := length_closing_pos 93 (renderItems items)
    have hvalue := parseValue_render hfp junk d n
      (l.after.bytes ++ (closing 93 (renderItems items) ++ rest)) (by omega)
      (notAt_whitespace l.after (notAt_closing 93 (by decide) _ rest))
    simp only [List.append_assoc]
    rw [parseArray, skip_whitespace, Doc.skip_render, hvalue, Scanned.bind_done, skip_whitespace,
      skip_closing 93 (by decide)]
    cases hitems : renderItems items with
    | none =>
      cases items with
      | nil => rfl
      | cons item items => simp [renderItems] at hitems
    | some more =>
      rw [hitems, closing, List.length_cons] at hn
      have hmore := parseArray_render hfp junk items n more rest hitems (by omega)
      rw [closing, List.cons_append]
      simp only [if_true, hmore, Scanned.map_done, itemValues]

/-- The members of an object are read up to the bracket behind them. -/
theorem parseObject_render (hfp : fp.ExactInts) (junk : ℕ → ℕ × ℕ)
    (members : List (MemberLayout × Doc)) (n : ℕ) (text rest : List UInt8)
    (htext : renderMembers members = some text) (hn : 2 * text.length ≤ n) :
    parseObject fp junk n (text ++ rest) = .done (memberValues fp members) rest := by
  match members with
  | [] => simp [renderMembers] at htext
  | (l, d) :: members =>
    rw [renderMembers, Option.some.injEq] at htext
    subst htext
    have hpos := d.length_render_pos
    simp only [List.length_append, List.length_cons] at hn
    obtain ⟨n, rfl⟩ : ∃ m, n = m + 1 := ⟨n - 1, by omega⟩
    have hone := length_closing_pos 125 (renderMembers members)
    have hvalue := parseValue_render hfp junk d n
      (l.after.bytes ++ (closing 125 (renderMembers members) ++ rest)) (by omega)
      (notAt_whitespace l.after (notAt_closing 125 (by decide) _ rest))
    have hname := fun text => parseString_literal junk l.name text trivial
    simp only [List.append_assoc, List.cons_append]
    rw [parseObject, skip_whitespace, skip_literal, hname, Scanned.bind_done, skip_whitespace,
      skip_cons (by decide)]
    simp only [ne_eq, not_true_eq_false, if_false]
    rw [skip_whitespace, Doc.skip_render, hvalue, Scanned.bind_done, skip_whitespace,
      skip_closing 125 (by decide)]
    cases hmembers : renderMembers members with
    | none =>
      cases members with
      | nil => rfl
      | cons member members => simp [renderMembers] at hmembers
    | some more =>
      rw [hmembers, closing, List.length_cons] at hn
      have hmore := parseObject_render hfp junk members n more rest hmembers (by omega)
      rw [closing, List.cons_append]
      simp only [if_true, hmore, Scanned.map_done, memberValues]

end

/-- **Every document is read as its value.**  Blanks may stand around it; what the two variables of
`parse_string` hold at first does not matter. -/
theorem cJSONParse_document (hfp : fp.ExactInts) (junk : ℕ → ℕ × ℕ) (before after : Whitespace)
    (d : Doc) (rest : List UInt8) :
    cJSONParse fp junk (before.bytes ++ d.render ++ after.bytes ++ 0 :: rest) =
      .done (d.value fp) (after.bytes ++ 0 :: rest) := by
  rw [cJSONParse, List.append_assoc, List.append_assoc, skip_whitespace, Doc.skip_render]
  refine parseValue_render fp hfp junk d _ _ ?_ (notAt_whitespace after (NotAt.cons (by decide) rest))
  simp only [List.length_append]
  omega

/-- `-1.5e2`. -/
def sampleNumber : NumberText where
  negative := true
  int := [49]
  fraction := [53]
  mark := 101
  sign := []
  exponent := [50]
  int_digits := List.forall_mem_singleton.2 rfl
  int_head := by decide
  fraction_digits := List.forall_mem_singleton.2 rfl
  exponent_digits := List.forall_mem_singleton.2 rfl
  mark_eq := Or.inl rfl
  sign_eq := Or.inl rfl
  exponent_le := by decide
  fraction_le := by decide

/-- A number with a sign, a fraction and an exponent, in an array behind a blank. -/
theorem cJSONParse_document_number :
    cJSONParse rationals (fun _ => (0, 0)) (bytes " [-1.5e2]" ++ [0, 7]) =
      .done (.array [.number (-150)]) [0, 7] := by
  have hblank : ∀ c ∈ [(32 : UInt8)], (c != 0 && c ≤ 32) = true := List.forall_mem_singleton.2 rfl
  let none : Whitespace := ⟨[], List.forall_mem_nil _⟩
  have hread := cJSONParse_document rationals exactInts_rationals (fun _ => (0, 0)) ⟨[32], hblank⟩
    none (.array none [(⟨none, none⟩, .number sampleNumber)]) [7]
  have hdigits : (sampleNumber.int ++ sampleNumber.fraction).foldl rationals.shiftIn
      (rationals.ofInt 0) = rationals.ofInt 15 :=
    foldl_shiftIn exactInts_rationals (n := 0) (by simp [sampleNumber]) (by decide)
  have hscale : sampleNumber.scale = 1 := by decide
  have hdouble : sampleNumber.double rationals = -150 := by
    rw [NumberText.double, hscale, hdigits]
    norm_num [rationals, Doubles.ofInt, sampleNumber]
  simp only [Doc.value, itemValues, hdouble] at hread
  exact hread

end EasyIpc

import EasyIpc.Cjson

/-!
# JSON strings

What `parse_string` makes of a string as JSON writes it: pieces that are a byte, a backslash with a
letter, `\u` with four hexadecimal digits, or two of these that are a surrogate pair.

* `utf8Write_eq` — the `switch` of `parse_string` writes a character in UTF-8.
* `Piece`, `Piece.render`, `Piece.text` — the pieces, how they are written and what they stand for.
* `stringLen_render`, `unescape_render` — the two passes over a piece.
* `parseString_literal` — a string is read as what its pieces stand for, whatever follows it, and the
  second pass stays within the room that the first one has made.
-/

namespace EasyIpc

open Printf Numerals Scan Stdio

/-! ## UTF-8 -/

/-- A byte behind the first one of a character. -/
theorem ofNat_tail (uc : ℕ) :
    UInt8.ofNat ((uc ||| 0x80) &&& 0xBF) = UInt8.ofNat (uc % 64 + 128) := by
  have hbyte : ∀ n < 256, (n ||| 0x80) &&& 0xBF = n % 64 + 128 := by decide +kernel
  have hmod : ((uc ||| 0x80) &&& 0xBF) % 2 ^ 8 = (uc % 2 ^ 8 ||| 0x80) &&& 0xBF := by
    rw [Nat.and_mod_two_pow, Nat.or_mod_two_pow]
  apply UInt8.toNat_inj.1
  rw [UInt8.toNat_ofNat', UInt8.toNat_ofNat', hmod, hbyte (uc % 2 ^ 8) (Nat.mod_lt _ (by decide))]
  omega

/-- The code point is a character: it is no surrogate and not too large. -/
theorem toNat_val_ofNat {uc : ℕ} (h : uc.isValidChar) : (Char.ofNat uc).val.toNat = uc := by
  rw [Char.ofNat, dif_pos h]
  rfl

/-- The first byte of a character: what is left of it is smaller than the lowest bit of the mark. -/
theorem or_firstByteMark :
    (∀ n < 32, n ||| 0xC0 = n + 0xC0) ∧ (∀ n < 16, n ||| 0xE0 = n + 0xE0) ∧
      ∀ n < 8, n ||| 0xF0 = n + 0xF0 := by
  decide

/-- **The `switch` of `parse_string` writes UTF-8.** -/
theorem utf8Write_eq {uc : ℕ} (h : uc.isValidChar) :
    (utf8Write uc).1 = String.utf8EncodeChar (Char.ofNat uc) := by
  obtain ⟨htwo, hthree, hfour⟩ := or_firstByteMark
  have hmax : uc < 0x110000 := by
    rcases h with h | h <;> omega
  unfold String.utf8EncodeChar
  rw [toNat_val_ofNat h]
  by_cases h1 : uc < 0x80
  · have hlen : utf8Len uc = 1 := if_pos h1
    rw [if_pos (by omega)]
    simp [utf8Write, hlen, utf8Tail, firstByteMark]
  by_cases h2 : uc < 0x800
  · have hlen : utf8Len uc = 2 := by simp [utf8Len, h1, h2]
    have hleft : uc / 64 ||| 0xC0 = uc / 64 % 32 + 0xC0 := by
      rw [htwo _ (by omega)]
      omega
    rw [if_neg (by omega), if_pos (by omega)]
    simp [utf8Write, hlen, utf8Tail, firstByteMark, Nat.shiftRight_eq_div_pow, ← ofNat_tail, ← hleft]
  by_cases h3 : uc < 0x10000
  · have hlen : utf8Len uc = 3 := by simp [utf8Len, h1, h2, h3]
    have hleft : uc / 4096 ||| 0xE0 = uc / 4096 % 16 + 0xE0 := by
      rw [hthree _ (by omega)]
      omega
    rw [if_neg (by omega), if_neg (by omega), if_pos (by omega)]
    simp [utf8Write, hlen, utf8Tail, firstByteMark, Nat.shiftRight_eq_div_pow, Nat.div_div_eq_div_mul,
      ← ofNat_tail, ← hleft]
  · have hlen : utf8Len uc = 4 := by simp [utf8Len, h1, h2, h3]
    have hleft : uc / 262144 ||| 0xF0 = uc / 262144 % 8 + 0xF0 := by
      rw [hfour _ (by omega)]
      omega
    rw [if_neg (by omega), if_neg (by omega), if_neg (by omega)]
    simp [utf8Write, hlen, utf8Tail, firstByteMark, Nat.shiftRight_eq_div_pow, Nat.div_div_eq_div_mul,
      ← ofNat_tail, ← hleft]

/-- No byte of a character but the null character is zero. -/
theorem zero_not_mem_utf8EncodeChar {uc : ℕ} (h : uc.isValidChar) (hne : uc ≠ 0) :
    (0 : UInt8) ∉ String.utf8EncodeChar (Char.ofNat uc) := by
  have hzero : ∀ n : ℕ, n % 256 ≠ 0 → ¬ (0 : UInt8) = UInt8.ofNat n := by
    intro n hn heq
    have := congrArg UInt8.toNat heq
    rw [UInt8.toNat_ofNat'] at this
    exact hn this.symm
  have hmax : uc < 0x110000 := by
    rcases h with h | h <;> omega
  unfold String.utf8EncodeChar
  rw [toNat_val_ofNat h]
  dsimp only
  split
  · simp only [List.mem_singleton]
    exact hzero _ (by omega)
  split
  · simp only [List.mem_cons, List.not_mem_nil, or_false, not_or]
    exact ⟨hzero _ (by omega), hzero _ (by omega)⟩
  split
  · simp only [List.mem_cons, List.not_mem_nil, or_false, not_or]
    exact ⟨hzero _ (by omega), hzero _ (by omega), hzero _ (by omega)⟩
  · simp only [List.mem_cons, List.not_mem_nil, or_false, not_or]
    exact ⟨hzero _ (by omega), hzero _ (by omega), hzero _ (by omega), hzero _ (by omega)⟩

/-! ## Pieces of a string -/

/-- Four hexadecimal digits. -/
structure Hex4 where
  digits : List UInt8
  length_eq : digits.length = 4
  isHex : ∀ c ∈ digits, isDigit 16 c = true

/-- The number that the digits are. -/
def Hex4.code (u : Hex4) : ℕ := digitsValue 16 u.digits

/-- The first half of a surrogate pair. -/
def Hex4.High (u : Hex4) : Prop := 0xD800 ≤ u.code ∧ u.code ≤ 0xDBFF

/-- The second half of a surrogate pair. -/
def Hex4.Low (u : Hex4) : Prop := 0xDC00 ≤ u.code ∧ u.code ≤ 0xDFFF

/-- A piece of a string between its quotes. -/
inductive Piece where
  | raw (c : UInt8) (h : c ≠ 0 ∧ c ≠ 34 ∧ c ≠ 92)
  | escape (e : UInt8) (h : e ≠ 0 ∧ e ≠ 117)
  | unicode (u : Hex4) (h : ¬ u.High ∧ ¬ u.Low)
  | pair (hi lo : Hex4) (h : hi.High ∧ lo.Low)

namespace Piece

/-- How the piece is written. -/
def render : Piece → List UInt8
  | raw c _ => [c]
  | escape e _ => [92, e]
  | unicode u _ => 92 :: 117 :: u.digits
  | pair hi lo _ => 92 :: 117 :: hi.digits ++ 92 :: 117 :: lo.digits

/-- What the piece stands for: the null character is left out. -/
def text : Piece → CStr
  | raw c _ => [c]
  | escape e _ => [escapeChar e]
  | unicode u _ => if u.code = 0 then [] else String.utf8EncodeChar (Char.ofNat u.code)
  | pair hi lo _ => String.utf8EncodeChar
      (Char.ofNat (0x10000 + (hi.code - 0xD800) * 0x400 + (lo.code - 0xDC00)))

/-- The room that the first pass makes for the piece. -/
def room : Piece → ℕ
  | raw _ _ => 1
  | escape _ _ => 1
  | unicode _ _ => 5
  | pair _ _ _ => 10

end Piece

/-- A string of JSON: its pieces between quotes. -/
def literal (pieces : List Piece) : List UInt8 := 34 :: pieces.flatMap Piece.render ++ [34]

/-- What the pieces stand for. -/
def literalText (pieces : List Piece) : CStr := pieces.flatMap Piece.text

/-! ## Hexadecimal digits -/

theorem Hex4.exists_cons (u : Hex4) : ∃ a b c d, u.digits = [a, b, c, d] := by
  obtain ⟨digits, hlen, -⟩ := u
  match digits, hlen with
  | [a, b, c, d], _ => exact ⟨a, b, c, d, rfl⟩

theorem digitVal_lt {c : UInt8} {d : ℕ} (h : digitVal c = some d) : d < 16 := by
  unfold digitVal at h
  simp only [UInt8.le_iff_toNat_le, UInt8.reduceToNat] at h
  split at h
  · cases h
    omega
  split at h
  · cases h
    omega
  split at h
  · cases h
    omega
  · cases h

/-- The digits of a number of four digits. -/
theorem Hex4.code_lt (u : Hex4) : u.code < 65536 := by
  obtain ⟨a, b, c, d, hdigits⟩ := u.exists_cons
  have hlt : ∀ c, (digitVal c).getD 0 < 16 := by
    intro c
    cases hc : digitVal c with
    | none => simp
    | some d => simpa using digitVal_lt hc
  have ha := hlt a
  have hb := hlt b
  have hc := hlt c
  have hd := hlt d
  simp only [Hex4.code, digitsValue, hdigits, List.foldl_cons, List.foldl_nil]
  omega

/-- A hexadecimal digit is no blank, no sign, and no `x`. -/
theorem hexDigit_facts {c : UInt8} (h : isDigit 16 c = true) :
    isSpace c = false ∧ c ≠ 45 ∧ c ≠ 43 ∧ c ≠ 120 ∧ c ≠ 88 ∧ c ≠ 0 ∧ c ≠ 34 ∧ c ≠ 92 := by
  have hall : ∀ n < 256, isDigit 16 (UInt8.ofNat n) = true → isSpace (UInt8.ofNat n) = false ∧
      n ≠ 45 ∧ n ≠ 43 ∧ n ≠ 120 ∧ n ≠ 88 ∧ n ≠ 0 ∧ n ≠ 34 ∧ n ≠ 92 := by decide +kernel
  have hc := hall c.toNat (UInt8.toNat_lt c)
  rw [UInt8.ofNat_toNat] at hc
  obtain ⟨hspace, hne⟩ := hc h
  refine ⟨hspace, ?_⟩
  simp only [ne_eq, ← UInt8.toNat_inj]
  exact hne

/-- `sscanf` reads four hexadecimal digits as the number that they are. -/
theorem sscanf4x_digits (u : Hex4) (rest : List UInt8) (uc : ℕ) :
    sscanf4x (u.digits ++ rest) uc = u.code := by
  obtain ⟨a, b, c, d, hdigits⟩ := u.exists_cons
  have hhex := u.isHex
  have hcode := u.code_lt
  rw [hdigits] at hhex
  have ha := hexDigit_facts (hhex a (by simp))
  have hb := hexDigit_facts (hhex b (by simp))
  have htake : [a, b, c, d].takeWhile (isDigit 16) = [a, b, c, d] :=
    List.takeWhile_eq_self_iff.2 hhex
  have hscan : scanHex [a, b, c, d] = some (u.code : ℤ) := by
    simp [scanHex, dropSign, hexPrefixed, applySign, ha, hb, htake, Hex4.code, hdigits]
  rw [sscanf4x, hdigits]
  simp only [List.cons_append, List.nil_append, List.dropWhile_cons, ha.1, Bool.false_eq_true,
    if_false, List.take_succ_cons, List.take_zero, hscan]
  omega

/-! ## The first pass -/

/-- The byte ends no string and begins no escape. -/
def PlainByte (c : UInt8) : Prop := c ≠ 34 ∧ c ≠ 0 ∧ c ≠ 92

instance (c : UInt8) : Decidable (PlainByte c) := inferInstanceAs (Decidable (_ ∧ _))

theorem stringLen_plain {c : UInt8} (h : PlainByte c) (rest : List UInt8) :
    stringLen (c :: rest) = (stringLen rest).map (· + 1) := by
  obtain ⟨hquote, hzero, hback⟩ := h
  rw [stringLen.eq_def]
  simp only
  rw [if_neg (by simp [hquote, hzero]), if_pos hback]

theorem stringLen_append {s : List UInt8} (h : ∀ c ∈ s, PlainByte c) (rest : List UInt8) :
    stringLen (s ++ rest) = (stringLen rest).map (· + s.length) := by
  induction s with
  | nil => simp
  | cons c s ih =>
    rw [List.cons_append, stringLen_plain (h c (by simp)), ih fun d hd => h d (by simp [hd]),
      Option.map_map]
    congr 1

theorem stringLen_escape (e : UInt8) (rest : List UInt8) :
    stringLen (92 :: e :: rest) = (stringLen rest).map (· + 1) := by
  rw [stringLen]
  simp

theorem Hex4.plain (u : Hex4) : ∀ c ∈ u.digits, PlainByte c := by
  intro c hc
  have hfacts := hexDigit_facts (u.isHex c hc)
  exact ⟨hfacts.2.2.2.2.2.2.1, hfacts.2.2.2.2.2.1, hfacts.2.2.2.2.2.2.2⟩

theorem stringLen_unicode (u : Hex4) (rest : List UInt8) :
    stringLen (92 :: 117 :: (u.digits ++ rest)) = (stringLen rest).map (· + 5) := by
  rw [stringLen_escape, stringLen_append u.plain, Option.map_map, u.length_eq]
  rfl

/-- The first pass over a piece. -/
theorem stringLen_render (p : Piece) (rest : List UInt8) :
    stringLen (p.render ++ rest) = (stringLen rest).map (· + p.room) := by
  cases p with
  | raw c h => exact stringLen_plain ⟨h.2.1, h.1, h.2.2⟩ rest
  | escape e h => exact stringLen_escape e rest
  | unicode u h => exact stringLen_unicode u rest
  | pair hi lo h =>
    rw [Piece.render, List.append_assoc, List.cons_append, List.cons_append, List.cons_append,
      List.cons_append, stringLen_unicode, stringLen_unicode, Option.map_map]
    rfl

/-- The first pass over a whole string. -/
theorem stringLen_literal (pieces : List Piece) (rest : List UInt8) :
    stringLen (pieces.flatMap Piece.render ++ 34 :: rest) = some (pieces.map Piece.room).sum := by
  induction pieces with
  | nil =>
    rw [List.flatMap_nil, List.nil_append, stringLen.eq_def]
    rfl
  | cons p pieces ih =>
    rw [List.flatMap_cons, List.append_assoc, stringLen_render, ih, List.map_cons, List.sum_cons,
      Option.map_some, Nat.add_comm]

/-- The first pass makes enough room for a piece. -/
theorem Piece.length_text_le (p : Piece) : p.text.length ≤ p.room := by
  have hutf8 : ∀ c : Char, (String.utf8EncodeChar c).length ≤ 4 := by
    intro c
    rw [String.length_utf8EncodeChar]
    exact Char.utf8Size_le_four c
  cases p with
  | raw c h => exact le_rfl
  | escape e h => exact le_rfl
  | unicode u h =>
    by_cases hcode : u.code = 0
    · simp [text, hcode]
    · rw [text, if_neg hcode]
      exact (hutf8 _).trans (Nat.le_succ 4)
  | pair hi lo h =>
    rw [text, room]
    exact (hutf8 _).trans (by omega)

/-! ## The second pass -/

theorem unescape_plain {c : UInt8} (h : PlainByte c) (n uc uc2 : ℕ) (rest : List UInt8) :
    unescape (n + 1) uc uc2 (c :: rest) = prepend [c] (unescape n uc uc2 rest) := by
  obtain ⟨hquote, hzero, hback⟩ := h
  rw [unescape, if_neg (by simp [hquote, hzero]), if_pos hback]

theorem unescape_switch {n uc uc2 uc' uc2' : ℕ} {out ptr rest : List UInt8}
    (h : unescapeSwitch uc uc2 ptr = .done (out, uc', uc2') rest) :
    unescape (n + 1) uc uc2 (92 :: ptr) = prepend out (unescape n uc' uc2' rest) := by
  rw [unescape, if_neg (by decide), if_neg (by simp), h]

theorem unescapeSwitch_letter {e : UInt8} (h : e ≠ 117) (uc uc2 : ℕ) (rest : List UInt8) :
    unescapeSwitch uc uc2 (e :: rest) = .done ([escapeChar e], uc, uc2) rest := if_pos h

/-- A code point that is no surrogate. -/
theorem unescapeSwitch_unicode {u : Hex4} (hhigh : ¬ u.High) (hlow : ¬ u.Low) (hne : u.code ≠ 0)
    (uc uc2 : ℕ) (rest : List UInt8) :
    unescapeSwitch uc uc2 (117 :: (u.digits ++ rest)) =
      .done ((utf8Write u.code).1, (utf8Write u.code).2, uc2) rest := by
  have hdrop : (u.digits ++ rest).drop 4 = rest := List.drop_left' u.length_eq
  have hlen : ¬ (u.digits ++ rest).length < 4 := by
    rw [List.length_append, u.length_eq]
    omega
  unfold Hex4.High at hhigh
  unfold Hex4.Low at hlow
  simp only [unescapeSwitch, sscanf4x_digits, hdrop]
  rw [if_neg (by simp), if_neg hlen, if_neg (not_or.2 ⟨hlow, hne⟩), if_neg hhigh]

/-- The null character is left out. -/
theorem unescapeSwitch_null {u : Hex4} (h : u.code = 0) (uc uc2 : ℕ) (rest : List UInt8) :
    unescapeSwitch uc uc2 (117 :: (u.digits ++ rest)) = .done ([], 0, uc2) rest := by
  have hdrop : (u.digits ++ rest).drop 4 = rest := List.drop_left' u.length_eq
  have hlen : ¬ (u.digits ++ rest).length < 4 := by
    rw [List.length_append, u.length_eq]
    omega
  simp only [unescapeSwitch, sscanf4x_digits, hdrop, h]
  rw [if_neg (by simp), if_neg hlen, if_pos (Or.inr trivial)]

/-- A surrogate pair. -/
theorem unescapeSwitch_pair {hi lo : Hex4} (hhigh : hi.High) (hlow : lo.Low) (uc uc2 : ℕ)
    (rest : List UInt8) :
    unescapeSwitch uc uc2 (117 :: (hi.digits ++ 92 :: 117 :: (lo.digits ++ rest))) =
      .done ((utf8Write (0x10000 + (((hi.code &&& 0x3FF) <<< 10) ||| (lo.code &&& 0x3FF)))).1,
        (utf8Write (0x10000 + (((hi.code &&& 0x3FF) <<< 10) ||| (lo.code &&& 0x3FF)))).2,
        lo.code) rest := by
  have hdrop : (hi.digits ++ 92 :: 117 :: (lo.digits ++ rest)).drop 4 =
      92 :: 117 :: (lo.digits ++ rest) := List.drop_left' hi.length_eq
  have hlen : ¬ (hi.digits ++ 92 :: 117 :: (lo.digits ++ rest)).length < 4 := by
    rw [List.length_append, hi.length_eq]
    omega
  have hlen' : ¬ (92 :: 117 :: (lo.digits ++ rest)).length < 6 := by
    rw [List.length_cons, List.length_cons, List.length_append, lo.length_eq]
    omega
  have hdrop' : (92 :: 117 :: (lo.digits ++ rest)).drop 6 = rest := List.drop_left' lo.length_eq
  unfold Hex4.High at hhigh
  unfold Hex4.Low at hlow
  simp only [unescapeSwitch, sscanf4x_digits, hdrop]
  rw [if_neg (by simp), if_neg hlen, if_neg (by omega), if_pos hhigh, if_neg (by simp),
    if_neg (by simp), if_neg (by simp), if_neg (by simp), if_neg hlen', hdrop']
  simp only [List.drop_succ_cons, List.drop_zero, sscanf4x_digits]
  rw [if_neg (by omega)]

/-- The two halves of a pair make one code point. -/
theorem pair_code {hi lo : Hex4} (hhigh : hi.High) (hlow : lo.Low) :
    0x10000 + (((hi.code &&& 0x3FF) <<< 10) ||| (lo.code &&& 0x3FF)) =
      0x10000 + (hi.code - 0xD800) * 0x400 + (lo.code - 0xDC00) := by
  unfold Hex4.High at hhigh
  unfold Hex4.Low at hlow
  have hmask : ∀ n : ℕ, n &&& 0x3FF = n % 2 ^ 10 := fun n => Nat.and_two_pow_sub_one_eq_mod n 10
  rw [hmask, hmask, ← Nat.shiftLeft_add_eq_or_of_lt (Nat.mod_lt _ (by decide)), Nat.shiftLeft_eq]
  omega

/-- The code point of a piece is a character. -/
theorem Hex4.isValidChar {u : Hex4} (h : ¬ u.High ∧ ¬ u.Low) : u.code.isValidChar := by
  obtain ⟨hhigh, hlow⟩ := h
  have hlt := u.code_lt
  unfold Hex4.High at hhigh
  unfold Hex4.Low at hlow
  show u.code < 0xD800 ∨ 0xDFFF < u.code ∧ u.code < 0x110000
  omega

theorem isValidChar_pair {hi lo : Hex4} (h : hi.High ∧ lo.Low) :
    (0x10000 + (hi.code - 0xD800) * 0x400 + (lo.code - 0xDC00)).isValidChar := by
  obtain ⟨hhigh, hlow⟩ := h
  unfold Hex4.High at hhigh
  unfold Hex4.Low at hlow
  exact Or.inr (by omega)

/-- The second pass over a piece: it writes what the piece stands for. -/
theorem unescape_render (p : Piece) (n uc uc2 : ℕ) (rest : List UInt8) :
    ∃ uc' uc2', unescape (n + 1) uc uc2 (p.render ++ rest) =
      prepend p.text (unescape n uc' uc2' rest) := by
  cases p with
  | raw c h => exact ⟨uc, uc2, unescape_plain ⟨h.2.1, h.1, h.2.2⟩ n uc uc2 rest⟩
  | escape e h => exact ⟨uc, uc2, unescape_switch (unescapeSwitch_letter h.2 uc uc2 rest)⟩
  | unicode u h =>
    by_cases hcode : u.code = 0
    · refine ⟨0, uc2, ?_⟩
      rw [Piece.text, if_pos hcode]
      exact unescape_switch (unescapeSwitch_null hcode uc uc2 rest)
    · refine ⟨(utf8Write u.code).2, uc2, ?_⟩
      rw [Piece.text, if_neg hcode, ← utf8Write_eq (Hex4.isValidChar h)]
      exact unescape_switch (unescapeSwitch_unicode h.1 h.2 hcode uc uc2 rest)
  | pair hi lo h =>
    refine ⟨(utf8Write (0x10000 + (((hi.code &&& 0x3FF) <<< 10) ||| (lo.code &&& 0x3FF)))).2,
      lo.code, ?_⟩
    rw [Piece.text, ← utf8Write_eq (isValidChar_pair h), ← pair_code h.1 h.2, Piece.render,
      List.append_assoc]
    exact unescape_switch (unescapeSwitch_pair h.1 h.2 uc uc2 rest)

theorem Piece.length_render_pos (p : Piece) : 0 < p.render.length := by
  cases p <;> simp [render]

/-- The second pass over a whole string. -/
theorem unescape_literal {pieces : List Piece} {n : ℕ}
    (h : (pieces.flatMap Piece.render).length < n) (uc uc2 : ℕ) (rest : List UInt8) :
    unescape n uc uc2 (pieces.flatMap Piece.render ++ 34 :: rest) =
      some (literalText pieces, 34 :: rest) := by
  induction pieces generalizing n uc uc2 with
  | nil =>
    obtain ⟨n, rfl⟩ := Nat.exists_eq_add_of_lt h
    simp [unescape, literalText]
  | cons p pieces ih =>
    obtain ⟨n, rfl⟩ := Nat.exists_eq_add_of_lt (Nat.zero_lt_of_lt h)
    have hpos := p.length_render_pos
    rw [List.flatMap_cons, List.length_append] at h
    obtain ⟨uc', uc2', hstep⟩ :=
      unescape_render p (0 + n) uc uc2 (pieces.flatMap Piece.render ++ 34 :: rest)
    rw [List.flatMap_cons, List.append_assoc, hstep, ih (by omega)]
    rfl

/-! ## Whole strings -/

/-- A piece stands for bytes that are not zero. -/
theorem Piece.zero_not_mem_text (p : Piece) : (0 : UInt8) ∉ p.text := by
  cases p with
  | raw c h => simpa [text] using h.1.symm
  | escape e h =>
    have he := h.1
    simp only [text, List.mem_singleton, escapeChar]
    intro hzero
    split_ifs at hzero
    all_goals first | exact absurd hzero (by decide) | exact he hzero.symm
  | unicode u h =>
    by_cases hcode : u.code = 0
    · simp [text, hcode]
    · rw [text, if_neg hcode]
      exact zero_not_mem_utf8EncodeChar (Hex4.isValidChar h) hcode
  | pair hi lo h =>
    rw [text]
    exact zero_not_mem_utf8EncodeChar (isValidChar_pair h) (by omega)

theorem length_literalText_le (pieces : List Piece) :
    (literalText pieces).length ≤ (pieces.map Piece.room).sum := by
  induction pieces with
  | nil => exact le_rfl
  | cons p pieces ih =>
    rw [literalText, List.flatMap_cons, List.length_append, List.map_cons, List.sum_cons]
    exact Nat.add_le_add p.length_text_le ih

/-- **A string is read as what its pieces stand for.**  Whatever follows the string and whatever the
variables of `parse_string` hold at first, both passes end at its quote, and what the second one
writes fits into the room that the first one has made. -/
theorem parseString_literal (junk : ℕ → ℕ × ℕ) (pieces : List Piece) :
    Takes (parseString junk) (fun _ => True) (literal pieces) (literalText pieces) := by
  intro rest _
  have hzero : (0 : UInt8) ∉ literalText pieces := by
    rw [literalText, List.mem_flatMap]
    rintro ⟨p, -, hp⟩
    exact p.zero_not_mem_text hp
  have hroom := length_literalText_le pieces
  simp only [literal, List.cons_append, List.append_assoc, List.nil_append, parseString,
    stringLen_literal]
  rw [unescape_literal (by simp only [List.length_cons, List.length_append]; omega)]
  simp only
  rw [if_neg (by simp), if_neg (by omega), cstr_of_not_mem hzero]
  rfl

/-- Without four digits the second pass runs on behind the end of the string, and of the block. -/
example : parseString (fun _ => (0, 0)) (bytes "\"\\u1\"" ++ [0]) = .undefined := by decide

end EasyIpc

import EasyIpc.CjsonDocument
import EasyIpc.CjsonSafety

/-!
# Printing JSON

The printer of `cjson.c`, which shows the plugin files on the console.  Each function computes the size
of a block first and then writes a text to it; a text that does not fit with its terminator ends in
`none`.  Allocation does not fail here, no tree holds a null string, and the texts stay below 2^31 bytes,
so that their lengths, which the code has in an `int`, are natural numbers.

* `printStringPtr`, `printNumber`, `printArray`, `printObject`, `printValue` — the printer.
* `printValue_isSome_iff` — what is printed fits its blocks, except for an empty object that is printed
  at depth 0 with line ends.
* `exists_doc` — what is printed is a document that stands for the tree.
* `cJSONParse_printValue` — it is read back as the tree it was printed from.
-/

namespace EasyIpc

open Printf Numerals Scan Floats

/-! ## The printer -/

/-- A text is written to a block of a size. -/
def writeTo (size : ℕ) (text : CStr) : Option CStr := if text.length < size then some text else none

/-- What the first pass of `print_string_ptr` counts for a byte. -/
def escapeRoom (token : UInt8) : ℕ :=
  if token ∈ [34, 92, 8, 12, 10, 13, 9] then 2 else if token < 32 then 6 else 1

/-- A digit of `%x`. -/
def hexChar (n : UInt8) : UInt8 := if n < 10 then 48 + n else 87 + n

/-- What the second pass writes for a byte. -/
def escapeByte (token : UInt8) : List UInt8 :=
  if token > 31 ∧ token ≠ 34 ∧ token ≠ 92 then [token]
  else if token = 92 then [92, 92]
  else if token = 34 then [92, 34]
  else if token = 8 then [92, 98]
  else if token = 12 then [92, 102]
  else if token = 10 then [92, 110]
  else if token = 13 then [92, 114]
  else if token = 9 then [92, 116]
  else [92, 117, 48, 48, hexChar (token / 16), hexChar (token % 16)]

/-- `print_string_ptr`. -/
def printStringPtr (str : CStr) : Option CStr :=
  writeTo ((str.map escapeRoom).sum + 3) (34 :: (str.flatMap escapeByte ++ [34]))

/-- The directive `%d`. -/
def percentD : Spec := ⟨false, false, 0, 100⟩

variable {ν : Type} (fp : Doubles ν)

/-- `fabs(((double)item->valueint)-d)<=DBL_EPSILON && d<=INT_MAX && d>=INT_MIN`. -/
def isInt (d : ν) : Bool :=
  fp.le (fp.fabs (fp.sub (fp.ofInt (fp.toInt d)) d)) fp.epsilon && fp.le d (fp.ofInt 2147483647) &&
    fp.le (fp.ofInt (-2147483648)) d

/-- `print_number`. -/
def printNumber (d : ν) : Option CStr :=
  if isInt fp d then writeTo 21 (percentD.number (fp.toInt d))
  else if fp.le (fp.fabs (fp.sub (fp.floor d) d)) fp.epsilon ∧
      fp.lt (fp.fabs d) (fp.ofRat (10 ^ 60)) then
    writeTo 64 (fp.percent0f d)
  else if fp.lt (fp.fabs d) (fp.ofRat (1 / 10 ^ 6)) ∨ fp.lt (fp.ofRat (10 ^ 9)) (fp.fabs d) then
    writeTo 64 (fp.percentE d)
  else writeTo 64 (fp.percentF d)

/-- Bytes that are written only with the flag `fmt`. -/
def ifFmt (fmt : Bool) (text : CStr) : CStr := if fmt then text else []

/-- The last loop of `print_array`, and the bracket. -/
def joinItems (fmt : Bool) : List CStr → CStr
  | [] => [93]
  | [entry] => entry ++ [93]
  | entry :: entries => entry ++ (44 :: (ifFmt fmt [32] ++ joinItems fmt entries))

/-- `print_array`, for the entries that have been printed. -/
def printArray (fmt : Bool) (entries : List CStr) : Option CStr :=
  if entries = [] then writeTo 3 [91, 93]
  else
    writeTo (5 + (entries.map fun ret => ret.length + 2 + if fmt then 1 else 0).sum)
      (91 :: joinItems fmt entries)

/-- The last loop of `print_object`, and the bracket. -/
def joinMembers (fmt : Bool) (depth : ℕ) : List (CStr × CStr) → CStr
  | [] => ifFmt fmt (List.replicate (depth - 1) 9) ++ [125]
  | (name, entry) :: entries =>
      ifFmt fmt (List.replicate depth 9) ++ (name ++ (58 :: (ifFmt fmt [9] ++ (entry ++
        ((if entries = [] then [] else [44]) ++ (ifFmt fmt [10] ++ joinMembers fmt depth entries))))))

/-- `print_object` at a depth, for the names and the entries that have been printed one deeper. -/
def printObject (fmt : Bool) (depth : ℕ) (entries : List (CStr × CStr)) : Option CStr :=
  if entries = [] then
    writeTo (if fmt then depth + 3 else 3)
      (123 :: (ifFmt fmt (10 :: List.replicate (depth - 1) 9) ++ [125]))
  else
    writeTo (7 + (if fmt then depth + 1 else 0) + (entries.map fun p =>
        p.2.length + p.1.length + 2 + if fmt then 2 + (depth + 1) else 0).sum)
      (123 :: (ifFmt fmt [10] ++ joinMembers fmt (depth + 1) entries))

mutual

/-- `print_value`. -/
def printValue (fmt : Bool) : ℕ → Json ν → Option CStr
  | _, .null => writeTo 5 (bytes "null")
  | _, .bool valueint => if valueint then writeTo 5 (bytes "true") else writeTo 6 (bytes "false")
  | _, .number d => printNumber fp d
  | _, .string valuestring => printStringPtr valuestring
  | depth, .array child => (printItems fmt (depth + 1) child).bind (printArray fmt)
  | depth, .object child => (printMembers fmt (depth + 1) child).bind (printObject fmt depth)

/-- The entries of an array. -/
def printItems (fmt : Bool) (depth : ℕ) : List (Json ν) → Option (List CStr)
  | [] => some []
  | child :: items => do
      let ret ← printValue fmt depth child
      let entries ← printItems fmt depth items
      some (ret :: entries)

/-- The names and the entries of an object. -/
def printMembers (fmt : Bool) (depth : ℕ) : List (CStr × Json ν) → Option (List (CStr × CStr))
  | [] => some []
  | (string, child) :: members => do
      let str ← printStringPtr string
      let ret ← printValue fmt depth child
      let entries ← printMembers fmt depth members
      some ((str, ret) :: entries)

end

/-- `cJSON_Print`. -/
def cJSONPrint (item : Json ν) : Option CStr := printValue fp true 0 item

/-- `cJSON_PrintUnformatted`. -/
def cJSONPrintUnformatted (item : Json ν) : Option CStr := printValue fp false 0 item

/-! ## Sizes -/

theorem writeTo_eq_some {size : ℕ} {text out : CStr} :
    writeTo size text = some out ↔ text.length < size ∧ out = text := by
  unfold writeTo
  split
  · simp_all [eq_comm]
  · simp_all

/-- The two passes of `print_string_ptr` agree on a byte. -/
theorem length_escapeByte (token : UInt8) : (escapeByte token).length = escapeRoom token := by
  have hall : ∀ n < 256, (escapeByte (UInt8.ofNat n)).length = escapeRoom (UInt8.ofNat n) := by
    decide +kernel
  simpa using hall token.toNat token.toNat_lt

theorem length_flatMap_escapeByte (str : CStr) :
    (str.flatMap escapeByte).length = (str.map escapeRoom).sum := by
  simp [List.length_flatMap, length_escapeByte]

/-- A string fills its block. -/
theorem printStringPtr_eq (str : CStr) :
    printStringPtr str = some (34 :: (str.flatMap escapeByte ++ [34])) := by
  refine writeTo_eq_some.2 ⟨?_, rfl⟩
  simp only [List.length_cons, List.length_append, length_flatMap_escapeByte, List.length_nil]
  omega

/-- `%d` of an `int` has at most eleven bytes. -/
theorem length_percentD {n : ℤ} (h : IsInt n) : (percentD.number n).length ≤ 11 := by
  have hdigits : (decimal n.natAbs).length ≤ 10 := by
    rw [decimal, List.length_map, Nat.length_toDigits_le_iff (by decide) (by decide)]
    have := h.1
    have := h.2
    omega
  have hsign : (if n < 0 then [45] else [] : List UInt8).length ≤ 1 := by
    split <;> simp
  simp only [percentD, Spec.number, Bool.false_and, Bool.false_eq_true, if_false, Spec.pad,
    Nat.zero_sub, List.replicate_zero, List.nil_append, List.length_append]
  omega

theorem printNumber_isSome (h : fp.Bounded) (d : ν) : (printNumber fp d).isSome = true := by
  have hwrite : ∀ {size : ℕ} {text : CStr}, text.length < size → (writeTo size text).isSome = true :=
    fun hlen => by rw [writeTo, if_pos hlen]; rfl
  unfold printNumber
  split
  · have hlen := length_percentD (fp.isInt_toInt d)
    exact hwrite (by omega)
  split
  · rename_i hwhole
    have hlen := h.percent0f d hwhole.2
    exact hwrite (by omega)
  split
  · have hlen := h.percentE d
    exact hwrite (by omega)
  · rename_i hrange
    have hlen := h.percentF d (by simpa using fun hgt => hrange (Or.inr hgt))
    exact hwrite (by omega)

theorem length_ifFmt (fmt : Bool) (text : CStr) :
    (ifFmt fmt text).length = if fmt then text.length else 0 := by
  cases fmt <;> rfl

theorem length_joinItems_le (fmt : Bool) (entries : List CStr) :
    (joinItems fmt entries).length ≤
      1 + (entries.map fun ret => ret.length + 2 + if fmt then 1 else 0).sum := by
  induction entries with
  | nil => simp [joinItems]
  | cons entry entries ih =>
    cases entries with
    | nil => simp [joinItems]; omega
    | cons next entries =>
      have hlen := length_ifFmt fmt [32]
      simp only [joinItems, List.length_append, List.length_cons, List.map_cons, List.sum_cons] at ih ⊢
      cases fmt <;> simp_all <;> omega

theorem printArray_isSome (fmt : Bool) (entries : List CStr) :
    (printArray fmt entries).isSome = true := by
  unfold printArray
  split
  · rfl
  · have hlen := length_joinItems_le fmt entries
    rw [writeTo, if_pos (by rw [List.length_cons]; omega)]
    rfl

theorem length_joinMembers_le (fmt : Bool) (depth : ℕ) (entries : List (CStr × CStr)) :
    (joinMembers fmt depth entries).length ≤ 1 + (if fmt then depth - 1 else 0) + (entries.map fun p =>
        p.2.length + p.1.length + 2 + if fmt then 2 + depth else 0).sum := by
  induction entries with
  | nil =>
    have hlast : (joinMembers fmt depth []).length = (if fmt then depth - 1 else 0) + 1 := by
      cases fmt <;> simp [joinMembers, ifFmt]
    rw [hlast, List.map_nil, List.sum_nil]
    omega
  | cons p entries ih =>
    obtain ⟨name, entry⟩ := p
    have hcomma : (if entries = [] then [] else [44] : CStr).length ≤ 1 := by
      split <;> simp
    cases fmt <;>
      simp only [joinMembers, ifFmt, List.length_append, List.length_cons, List.map_cons,
        List.sum_cons, List.length_replicate, List.length_nil, if_true, Bool.false_eq_true,
        if_false] at ih ⊢ <;> omega

/-- An object fits its block, except for an empty one at depth 0 with line ends. -/
theorem printObject_isSome_iff (fmt : Bool) (depth : ℕ) (entries : List (CStr × CStr)) :
    (printObject fmt depth entries).isSome = true ↔ ¬ (fmt = true ∧ depth = 0 ∧ entries = []) := by
  unfold printObject
  split
  · rename_i hnil
    cases fmt with
    | false => simp [writeTo, ifFmt]
    | true =>
      simp only [writeTo, ifFmt, if_true, List.length_cons, List.length_append, List.length_replicate,
        List.length_nil, hnil, true_and, and_true]
      split
      · simp only [Option.isSome_some, true_iff]
        omega
      · simp only [Option.isSome_none, Bool.false_eq_true, false_iff, not_not]
        omega
  · rename_i hne
    have hlen := length_joinMembers_le fmt (depth + 1) entries
    have hfmt := length_ifFmt fmt [10]
    rw [writeTo, if_pos]
    · simp [hne]
    · rw [List.length_cons, List.length_append]
      cases fmt <;> simp_all <;> omega

/-- No member is left out. -/
theorem printMembers_eq_nil {fmt : Bool} {depth : ℕ} {members : List (CStr × Json ν)}
    (h : printMembers fp fmt depth members = some []) : members = [] := by
  cases members with
  | nil => rfl
  | cons member members =>
    obtain ⟨string, child⟩ := member
    simp [printMembers, Option.bind_eq_some_iff] at h

mutual

/-- **What is printed fits its blocks**, except for an empty object at depth 0 with line ends. -/
theorem printValue_isSome_iff (h : fp.Bounded) (fmt : Bool) (depth : ℕ) (v : Json ν) :
    (printValue fp fmt depth v).isSome = true ↔
      ¬ (fmt = true ∧ depth = 0 ∧ v = .object []) := by
  match v with
  | .null => simp [printValue, writeTo, bytes]
  | .bool b => cases b <;> simp [printValue, writeTo, bytes]
  | .number d => simpa [printValue] using printNumber_isSome fp h d
  | .string valuestring => simp [printValue, printStringPtr_eq]
  | .array child =>
    obtain ⟨entries, hentries⟩ := Option.isSome_iff_exists.1 (printItems_isSome h fmt depth child)
    simpa [printValue, hentries] using printArray_isSome fmt entries
  | .object child =>
    obtain ⟨entries, hentries⟩ := Option.isSome_iff_exists.1 (printMembers_isSome h fmt depth child)
    have hnil : entries = [] ↔ child = [] := by
      refine ⟨fun he => printMembers_eq_nil fp (he ▸ hentries), fun he => ?_⟩
      subst he
      cases hentries
      rfl
    rw [printValue, hentries, Option.bind_some, printObject_isSome_iff, hnil, Json.object.injEq]

theorem printItems_isSome (h : fp.Bounded) (fmt : Bool) (depth : ℕ) (items : List (Json ν)) :
    (printItems fp fmt (depth + 1) items).isSome = true := by
  match items with
  | [] => rfl
  | child :: items =>
    obtain ⟨ret, hret⟩ := Option.isSome_iff_exists.1
      ((printValue_isSome_iff h fmt (depth + 1) child).2 (by simp))
    obtain ⟨entries, hentries⟩ := Option.isSome_iff_exists.1 (printItems_isSome h fmt depth items)
    simp [printItems, hret, hentries]

theorem printMembers_isSome (h : fp.Bounded) (fmt : Bool) (depth : ℕ)
    (members : List (CStr × Json ν)) :
    (printMembers fp fmt (depth + 1) members).isSome = true := by
  match members with
  | [] => rfl
  | (string, child) :: members =>
    obtain ⟨ret, hret⟩ := Option.isSome_iff_exists.1
      ((printValue_isSome_iff h fmt (depth + 1) child).2 (by simp))
    obtain ⟨entries, hentries⟩ := Option.isSome_iff_exists.1
      (printMembers_isSome h fmt depth members)
    simp [printMembers, printStringPtr_eq, hret, hentries]

end

/-! ## The printed document -/

/-- The digits of a byte that is printed by its number. -/
theorem hexChar_facts {token : UInt8} (h : token < 32) :
    (∀ c ∈ [48, 48, hexChar (token / 16), hexChar (token % 16)], isDigit 16 c = true) ∧
      digitsValue 16 [48, 48, hexChar (token / 16), hexChar (token % 16)] = token.toNat := by
  have hall : ∀ n < 32,
      (∀ c ∈ [48, 48, hexChar (UInt8.ofNat n / 16), hexChar (UInt8.ofNat n % 16)],
        isDigit 16 c = true) ∧
      digitsValue 16 [48, 48, hexChar (UInt8.ofNat n / 16), hexChar (UInt8.ofNat n % 16)] =
        (UInt8.ofNat n).toNat := by decide +kernel
  have hn : token.toNat < 32 := UInt8.lt_iff_toNat_lt.1 h
  simpa using hall token.toNat hn

/-- A code point below 128 is one byte. -/
theorem utf8EncodeChar_ascii {n : ℕ} (h : n < 128) :
    String.utf8EncodeChar (Char.ofNat n) = [UInt8.ofNat n] := by
  have hvalid : n.isValidChar := Or.inl (by omega)
  rw [String.utf8EncodeChar, toNat_val_ofNat hvalid]
  exact if_pos (by omega)

/-- A byte that is not zero is printed as a piece of a string that stands for it. -/
theorem exists_piece {token : UInt8} (h : token ≠ 0) :
    ∃ p : Piece, p.render = escapeByte token ∧ p.text = [token] := by
  by_cases hraw : token > 31 ∧ token ≠ 34 ∧ token ≠ 92
  · exact ⟨.raw token ⟨h, hraw.2⟩, (if_pos hraw).symm, rfl⟩
  by_cases hletter : token ∈ [34, 92, 8, 12, 10, 13, 9]
  · simp only [List.mem_cons, List.not_mem_nil, or_false] at hletter
    rcases hletter with rfl | rfl | rfl | rfl | rfl | rfl | rfl
    · exact ⟨.escape 34 (by decide), by decide, by decide⟩
    · exact ⟨.escape 92 (by decide), by decide, by decide⟩
    · exact ⟨.escape 98 (by decide), by decide, by decide⟩
    · exact ⟨.escape 102 (by decide), by decide, by decide⟩
    · exact ⟨.escape 110 (by decide), by decide, by decide⟩
    · exact ⟨.escape 114 (by decide), by decide, by decide⟩
    · exact ⟨.escape 116 (by decide), by decide, by decide⟩
  · simp only [List.mem_cons, List.not_mem_nil, or_false, not_or] at hletter
    obtain ⟨hquote, hback, h8, h12, h10, h13, h9⟩ := hletter
    have hlow : token < 32 := by
      have : ¬ token > 31 := fun hgt => hraw ⟨hgt, hquote, hback⟩
      simp only [gt_iff_lt, UInt8.lt_iff_toNat_lt, UInt8.reduceToNat] at this ⊢
      omega
    obtain ⟨hdigits, hvalue⟩ := hexChar_facts hlow
    have hcode : token.toNat < 32 := UInt8.lt_iff_toNat_lt.1 hlow
    have hne : token.toNat ≠ 0 := fun hzero => h (UInt8.toNat_inj.1 hzero)
    let u : Hex4 := ⟨_, rfl, hdigits⟩
    have hu : u.code = token.toNat := hvalue
    refine ⟨.unicode u ⟨fun hhigh => ?_, fun hhigh => ?_⟩, ?_, ?_⟩
    · have := hhigh.1
      omega
    · have := hhigh.1
      omega
    · rw [escapeByte, if_neg hraw, if_neg hback, if_neg hquote, if_neg h8, if_neg h12, if_neg h10,
        if_neg h13, if_neg h9]
      rfl
    · rw [Piece.text, if_neg (by omega), hu, utf8EncodeChar_ascii (by omega), UInt8.ofNat_toNat]

/-- A string is printed as a string that stands for it. -/
theorem exists_pieces {str : CStr} (h : (0 : UInt8) ∉ str) :
    ∃ pieces, literal pieces = 34 :: (str.flatMap escapeByte ++ [34]) ∧ literalText pieces = str := by
  induction str with
  | nil => exact ⟨[], rfl, rfl⟩
  | cons token str ih =>
    rw [List.mem_cons, not_or] at h
    obtain ⟨p, hrender, htext⟩ := exists_piece (Ne.symm h.1)
    obtain ⟨pieces, hrest, hval⟩ := ih h.2
    refine ⟨p :: pieces, ?_, ?_⟩
    · simp only [literal, List.flatMap_cons, hrender, List.cons_append, List.append_assoc] at hrest ⊢
      rw [List.cons.inj hrest |>.2]
    · rw [literalText, List.flatMap_cons, htext]
      exact congrArg (token :: ·) hval

/-! ### Numbers -/

/-- The last digit. -/
theorem decimal_of_le {n : ℕ} (h : 10 ≤ n) : decimal n = decimal (n / 10) ++ decimal (n % 10) := by
  have hlast := Nat.toDigits_of_lt_base (b := 10) (Nat.mod_lt n (by decide))
  rw [decimal, Nat.toDigits_of_base_le (by decide) h, ← hlast, List.map_append, ← decimal, ← decimal]

theorem decDigit_decimal (n : ℕ) : ∀ c ∈ decimal n, decDigit c = true := by
  have hsmall : ∀ n < 10, (decimal n).all decDigit = true := by decide
  induction n using Nat.strong_induction_on with
  | _ n ih =>
    by_cases hn : n < 10
    · exact List.all_eq_true.1 (hsmall n hn)
    · rw [decimal_of_le (by omega)]
      intro c hc
      rcases List.mem_append.1 hc with hc | hc
      · exact ih (n / 10) (by omega) c hc
      · exact List.all_eq_true.1 (hsmall (n % 10) (by omega)) c hc

theorem decimal_ne_nil (n : ℕ) : decimal n ≠ [] := by
  simp [decimal]

/-- The first digit is no zero, but for the number zero. -/
theorem head_decimal {n : ℕ} (h : n ≠ 0) : (decimal n).head? ≠ some 48 := by
  have hsmall : ∀ n < 10, n ≠ 0 → (decimal n).head? ≠ some 48 := by decide
  induction n using Nat.strong_induction_on with
  | _ n ih =>
    by_cases hn : n < 10
    · exact hsmall n hn h
    · rw [decimal_of_le (by omega), List.head?_append_of_ne_nil _ (decimal_ne_nil _)]
      exact ih (n / 10) (by omega) (by omega)

/-- The digits of a number stand for it. -/
theorem digitsValue_decimal (n : ℕ) : digitsValue 10 (decimal n) = n := by
  have hsmall : ∀ n < 10, digitsValue 10 (decimal n) = n := by decide
  induction n using Nat.strong_induction_on with
  | _ n ih =>
    by_cases hn : n < 10
    · exact hsmall n hn
    · have hlast := hsmall (n % 10) (by omega)
      have hone : ∃ c, decimal (n % 10) = [c] := by
        have : ∀ m < 10, (decimal m).length = 1 := by decide
        exact List.length_eq_one_iff.1 (this _ (by omega))
      obtain ⟨c, hc⟩ := hone
      rw [hc, digitsValue, List.foldl_cons, List.foldl_nil] at hlast
      rw [decimal_of_le (by omega), hc, digitsValue, List.foldl_append, ← digitsValue,
        ih (n / 10) (by omega), List.foldl_cons, List.foldl_nil]
      omega

/-- **An `int` is printed as a number that stands for it.** -/
theorem exists_numberText (hfp : fp.ExactInts) {n : ℤ} (h : IsInt n) :
    ∃ t : NumberText, t.render = percentD.number n ∧ t.double fp = fp.ofInt n := by
  have hprint : percentD.number n = (if n < 0 then [45] else []) ++ decimal n.natAbs := by
    simp [percentD, Spec.number, Spec.pad]
  by_cases hzero : n = 0
  · subst hzero
    refine ⟨⟨false, [], [], 101, [], [], List.forall_mem_nil _, by simp, List.forall_mem_nil _,
      List.forall_mem_nil _, Or.inl rfl, Or.inl rfl, by decide, by decide⟩, by decide, ?_⟩
    exact double_of_int hfp rfl rfl (by decide) (by decide)
  · have hnat : n.natAbs ≠ 0 := Int.natAbs_ne_zero.2 hzero
    have hnone : ∀ c ∈ ([] : List UInt8), decDigit c = true := List.forall_mem_nil _
    have hvalue := digitsValue_decimal n.natAbs
    unfold IsInt at h
    refine ⟨⟨n < 0, decimal n.natAbs, [], 101, [], [], decDigit_decimal _, head_decimal hnat, hnone,
      hnone, Or.inl rfl, Or.inl rfl, by decide, by decide⟩, ?_, ?_⟩
    · simp [NumberText.render, NumberText.renderInt, NumberText.renderFraction,
        NumberText.renderExponent, decimal_ne_nil, hprint]
    · rw [double_of_int hfp rfl rfl (by rw [hvalue]; omega) (fun _ => by rw [hvalue]; omega)]
      congr 1
      by_cases hneg : n < 0
      · simp only [hneg, decide_true, if_true, hvalue]
        omega
      · simp only [hneg, decide_false, Bool.false_eq_true, if_false, hvalue]
        omega

/-- An `int` is one of the doubles that `%d` prints. -/
theorem isInt_ofInt (hfp : fp.ExactInts) {n : ℤ} (h : IsInt n) : isInt fp (fp.ofInt n) = true := by
  unfold IsInt at h
  have hsmall : IsExact n := by
    unfold IsExact
    omega
  have hself := hfp.sub hsmall hsmall (by unfold IsExact; omega)
  have hmax := hfp.le hsmall (b := 2147483647) (by unfold IsExact; omega) (by omega)
  have hmin := hfp.le (a := -2147483648) (by unfold IsExact; omega) hsmall (by omega)
  rw [isInt, hfp.toInt h, hself, Int.sub_self, hfp.fabs_zero, hfp.zero_le_epsilon, hmax, hmin]
  rfl

/-! ### Trees -/

mutual

/-- The numbers of the tree are `int`s, and its strings are C strings. -/
def Json.Printable : Json ν → Prop
  | .null => True
  | .bool _ => True
  | .number d => ∃ n, IsInt n ∧ d = fp.ofInt n
  | .string valuestring => (0 : UInt8) ∉ valuestring
  | .array child => ItemsPrintable child
  | .object child => MembersPrintable child

/-- So are those of the items. -/
def ItemsPrintable : List (Json ν) → Prop
  | [] => True
  | child :: items => child.Printable ∧ ItemsPrintable items

/-- So are those of the members, and their names. -/
def MembersPrintable : List (CStr × Json ν) → Prop
  | [] => True
  | (string, child) :: members => (0 : UInt8) ∉ string ∧ child.Printable ∧ MembersPrintable members

end

/-- No blanks. -/
def Whitespace.none : Whitespace := ⟨[], nofun⟩

/-- Blanks that are written only with the flag `fmt`, behind others. -/
def Whitespace.andIf (w : Whitespace) (fmt : Bool) (text : List UInt8)
    (h : ∀ c ∈ text, (c != 0 && c ≤ 32) = true) : Whitespace where
  bytes := w.bytes ++ ifFmt fmt text
  isBlank := by
    intro c hc
    rcases List.mem_append.1 hc with hc | hc
    · exact w.isBlank c hc
    · unfold ifFmt at hc
      split at hc
      · exact h c hc
      · cases hc

theorem isBlank_tabs (depth : ℕ) : ∀ c ∈ List.replicate depth (9 : UInt8), (c != 0 && c ≤ 32) = true := by
  intro c hc
  rw [List.eq_of_mem_replicate hc]
  decide

theorem isBlank_singleton {c : UInt8} (h : (c != 0 && c ≤ 32) = true) :
    ∀ c' ∈ [c], (c' != 0 && c' ≤ 32) = true :=
  List.forall_mem_singleton.2 h

theorem isBlank_newline (depth : ℕ) :
    ∀ c ∈ 10 :: List.replicate depth (9 : UInt8), (c != 0 && c ≤ 32) = true :=
  List.forall_mem_cons.2 ⟨by decide, isBlank_tabs depth⟩

theorem printItems_eq_nil {fmt : Bool} {depth : ℕ} {items : List (Json ν)}
    (h : printItems fp fmt depth items = some []) : items = [] := by
  cases items with
  | nil => rfl
  | cons child items => simp [printItems, Option.bind_eq_some_iff] at h

theorem printItems_cons {fmt : Bool} {depth : ℕ} {child : Json ν} {items : List (Json ν)}
    {entries : List CStr} (h : printItems fp fmt depth (child :: items) = some entries) :
    ∃ ret rest, printValue fp fmt depth child = some ret ∧ printItems fp fmt depth items = some rest ∧
      entries = ret :: rest := by
  simp only [printItems, Option.bind_eq_bind, Option.bind_eq_some_iff, Option.some.injEq] at h
  obtain ⟨ret, hret, rest, hrest, rfl⟩ := h
  exact ⟨ret, rest, hret, hrest, rfl⟩

theorem printMembers_cons {fmt : Bool} {depth : ℕ} {string : CStr} {child : Json ν}
    {members : List (CStr × Json ν)} {entries : List (CStr × CStr)}
    (h : printMembers fp fmt depth ((string, child) :: members) = some entries) :
    ∃ ret rest, printValue fp fmt depth child = some ret ∧
      printMembers fp fmt depth members = some rest ∧
      entries = (34 :: (string.flatMap escapeByte ++ [34]), ret) :: rest := by
  simp only [printMembers, printStringPtr_eq, Option.bind_eq_bind, Option.bind_some,
    Option.bind_eq_some_iff, Option.some.injEq] at h
  obtain ⟨ret, hret, rest, hrest, rfl⟩ := h
  exact ⟨ret, rest, hret, hrest, rfl⟩

mutual

/-- **What is printed is a document that stands for the tree.** -/
theorem exists_doc (hfp : fp.ExactInts) (fmt : Bool) (depth : ℕ) (v : Json ν) (text : CStr)
    (h : v.Printable fp) (hprint : printValue fp fmt depth v = some text) :
    ∃ d : Doc, d.render = text ∧ d.value fp = v := by
  match v with
  | .null =>
    obtain ⟨-, rfl⟩ := writeTo_eq_some.1 hprint
    exact ⟨.null, rfl, rfl⟩
  | .bool b =>
    refine ⟨.bool b, ?_, rfl⟩
    rw [printValue] at hprint
    cases b with
    | false =>
      rw [if_neg Bool.false_ne_true] at hprint
      exact (writeTo_eq_some.1 hprint).2.symm
    | true =>
      rw [if_pos rfl] at hprint
      exact (writeTo_eq_some.1 hprint).2.symm
  | .number d =>
    obtain ⟨n, hn, rfl⟩ := h
    rw [printValue, printNumber, if_pos (isInt_ofInt fp hfp hn), hfp.toInt hn] at hprint
    obtain ⟨t, hrender, hdouble⟩ := exists_numberText fp hfp hn
    refine ⟨.number t, ?_, ?_⟩
    · rw [Doc.render, hrender, (writeTo_eq_some.1 hprint).2]
    · rw [Doc.value, hdouble]
  | .string valuestring =>
    rw [printValue, printStringPtr_eq] at hprint
    cases hprint
    obtain ⟨pieces, hrender, htext⟩ := exists_pieces h
    exact ⟨.string pieces, hrender, congrArg Json.string htext⟩
  | .array child =>
    simp only [printValue, Option.bind_eq_some_iff] at hprint
    obtain ⟨entries, hentries, hprint⟩ := hprint
    by_cases hnil : child = []
    · subst hnil
      cases hentries
      rw [printArray, if_pos rfl] at hprint
      refine ⟨.array .none [], ?_, by rw [Doc.value, itemValues]⟩
      rw [Doc.render, renderItems, (writeTo_eq_some.1 hprint).2]
      rfl
    · obtain ⟨docs, hrender, hvalue⟩ :=
        exists_items hfp fmt (depth + 1) child entries .none hnil h hentries
      have hne : entries ≠ [] := fun he => hnil (printItems_eq_nil fp (he ▸ hentries))
      rw [printArray, if_neg hne] at hprint
      refine ⟨.array .none docs, ?_, by rw [Doc.value, hvalue]⟩
      rw [Doc.render, hrender, (writeTo_eq_some.1 hprint).2]
      rfl
  | .object child =>
    simp only [printValue, Option.bind_eq_some_iff] at hprint
    obtain ⟨entries, hentries, hprint⟩ := hprint
    by_cases hnil : child = []
    · subst hnil
      cases hentries
      rw [printObject, if_pos rfl] at hprint
      refine ⟨.object (Whitespace.none.andIf fmt _ (isBlank_newline (depth - 1))) [], ?_,
        by rw [Doc.value, memberValues]⟩
      rw [Doc.render, renderMembers, (writeTo_eq_some.1 hprint).2]
      rfl
    · obtain ⟨docs, hrender, hvalue⟩ := exists_members hfp fmt (depth + 1) child entries
        (Whitespace.none.andIf fmt _ (isBlank_newline 0)) hnil h hentries
      have hne : entries ≠ [] := fun he => hnil (printMembers_eq_nil fp (he ▸ hentries))
      rw [printObject, if_neg hne] at hprint
      refine ⟨.object .none docs, ?_, by rw [Doc.value, hvalue]⟩
      rw [Doc.render, hrender, (writeTo_eq_some.1 hprint).2]
      rfl

/-- The items of an array, behind blanks. -/
theorem exists_items (hfp : fp.ExactInts) (fmt : Bool) (depth : ℕ) (items : List (Json ν)) (entries : List CStr)
    (lead : Whitespace) (hne : items ≠ []) (h : ItemsPrintable fp items)
    (hprint : printItems fp fmt depth items = some entries) :
    ∃ docs, renderItems docs = some (lead.bytes ++ joinItems fmt entries) ∧
      itemValues fp docs = items := by
  match items with
  | [] => exact absurd rfl hne
  | child :: items =>
    obtain ⟨ret, rest, hret, hrest, rfl⟩ := printItems_cons fp hprint
    obtain ⟨d, hrender, hvalue⟩ := exists_doc hfp fmt depth child ret h.1 hret
    by_cases hnil : items = []
    · subst hnil
      cases hrest
      refine ⟨[(⟨lead, .none⟩, d)], ?_, ?_⟩
      · rw [renderItems, hrender]
        rfl
      · rw [itemValues, hvalue]
        rfl
    · obtain ⟨docs, hdocs, hvalues⟩ := exists_items hfp fmt depth items rest
        (Whitespace.none.andIf fmt [32] (isBlank_singleton rfl)) hnil h.2 hrest
      obtain ⟨next, rest, rfl⟩ := List.exists_cons_of_ne_nil
        (show rest ≠ [] from fun he => hnil (printItems_eq_nil fp (he ▸ hrest)))
      refine ⟨(⟨lead, .none⟩, d) :: docs, ?_, ?_⟩
      · rw [renderItems, hdocs, hrender]
        rfl
      · rw [itemValues, hvalue, hvalues]

/-- The members of an object, behind blanks. -/
theorem exists_members (hfp : fp.ExactInts) (fmt : Bool) (depth : ℕ) (members : List (CStr × Json ν))
    (entries : List (CStr × CStr)) (lead : Whitespace) (hne : members ≠ [])
    (h : MembersPrintable fp members)
    (hprint : printMembers fp fmt depth members = some entries) :
    ∃ docs, renderMembers docs = some (lead.bytes ++ joinMembers fmt depth entries) ∧
      memberValues fp docs = members := by
  match members with
  | [] => exact absurd rfl hne
  | (string, child) :: members =>
    obtain ⟨ret, rest, hret, hrest, rfl⟩ := printMembers_cons fp hprint
    obtain ⟨d, hrender, hvalue⟩ := exists_doc hfp fmt depth child ret h.2.1 hret
    obtain ⟨pieces, hname, hstring⟩ := exists_pieces h.1
    by_cases hnil : members = []
    · subst hnil
      cases hrest
      refine ⟨[(⟨lead.andIf fmt _ (isBlank_tabs depth), pieces, .none,
        Whitespace.none.andIf fmt [9] (isBlank_singleton rfl),
        (Whitespace.none.andIf fmt [10] (isBlank_singleton rfl)).andIf fmt _ (isBlank_tabs (depth - 1))⟩, d)],
        ?_, ?_⟩
      · rw [renderMembers, hrender, hname]
        simp [Whitespace.andIf, Whitespace.none, joinMembers, closing, renderMembers]
      · rw [memberValues, hvalue, hstring]
        rfl
    · obtain ⟨docs, hdocs, hvalues⟩ := exists_members hfp fmt depth members rest
        (Whitespace.none.andIf fmt [10] (isBlank_singleton rfl)) hnil h.2.2 hrest
      obtain ⟨next, rest, rfl⟩ := List.exists_cons_of_ne_nil
        (show rest ≠ [] from fun he => hnil (printMembers_eq_nil fp (he ▸ hrest)))
      refine ⟨(⟨lead.andIf fmt _ (isBlank_tabs depth), pieces, .none,
        Whitespace.none.andIf fmt [9] (isBlank_singleton rfl), .none⟩, d) :: docs, ?_, ?_⟩
      · rw [renderMembers, hdocs, hrender, hname]
        simp [Whitespace.andIf, Whitespace.none, joinMembers, closing]
      · rw [memberValues, hvalue, hvalues, hstring]

end

/-- **What is printed is read back as the tree it was printed from.** -/
theorem cJSONParse_printValue (junk : ℕ → ℕ × ℕ) {fmt : Bool} {depth : ℕ} {v : Json ν} {text : CStr}
    (hfp : fp.ExactInts) (h : v.Printable fp)
    (hprint : printValue fp fmt depth v = some text) (rest : List UInt8) :
    cJSONParse fp junk (text ++ 0 :: rest) = .done v (0 :: rest) := by
  obtain ⟨d, rfl, rfl⟩ := exists_doc fp hfp fmt depth v text h hprint
  simpa [Whitespace.none] using cJSONParse_document fp hfp junk .none .none d rest

/-- **What the printer makes of a tree of `int`s and C strings is read back as the tree.**  It prints
every such tree without line ends, and every one but the empty object with them. -/
theorem cJSONPrint_round_trip (junk : ℕ → ℕ × ℕ) (hbounded : fp.Bounded) (hfp : fp.ExactInts)
    {v : Json ν} (h : v.Printable fp) (rest : List UInt8) :
    (∃ text, cJSONPrintUnformatted fp v = some text ∧
      cJSONParse fp junk (text ++ 0 :: rest) = .done v (0 :: rest)) ∧
    (v ≠ .object [] → ∃ text, cJSONPrint fp v = some text ∧
      cJSONParse fp junk (text ++ 0 :: rest) = .done v (0 :: rest)) := by
  refine ⟨?_, fun hv => ?_⟩
  · obtain ⟨text, hprint⟩ := Option.isSome_iff_exists.1
      ((printValue_isSome_iff fp hbounded false 0 v).2 (by simp))
    exact ⟨text, hprint, cJSONParse_printValue fp junk hfp h hprint rest⟩
  · obtain ⟨text, hprint⟩ := Option.isSome_iff_exists.1
      ((printValue_isSome_iff fp hbounded true 0 v).2 (by simp [hv]))
    exact ⟨text, hprint, cJSONParse_printValue fp junk hfp h hprint rest⟩

/-- An object with a string that needs escapes, and a number. -/
theorem cJSONPrint_round_trip_sample : ∃ text,
    cJSONPrint rationals (.object [(bytes "k", .array [.string [1, 34, 10], .number (-20)])]) =
      some text ∧
    cJSONParse rationals (fun _ => (0, 0)) (text ++ [0]) =
      .done (.object [(bytes "k", .array [.string [1, 34, 10], .number (-20)])]) [0] := by
  refine (cJSONPrint_round_trip rationals (fun _ => (0, 0)) bounded_rationals exactInts_rationals ?_
    []).2 nofun
  have hstring : (0 : UInt8) ∉ [1, 34, 10] := by decide
  exact ⟨by decide, ⟨hstring, ⟨-20, by decide, rfl⟩, trivial⟩, trivial⟩

/-- An empty object in an array, with line ends. -/
theorem printValue_isSome_nested :
    (cJSONPrint rationals (.array [.object []])).isSome = true :=
  (printValue_isSome_iff rationals bounded_rationals true 0 _).2 nofun

end EasyIpc

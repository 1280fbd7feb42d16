import EasyIpc.Lib.Buffer
import EasyIpc.Lib.Numerals
import EasyIpc.Lib.Printf
import EasyIpc.Lib.Stdio
import EasyIpc.Base
import Mathlib.Algebra.BigOperators.Group.List.Basic

/-!
# Packing the parameters of a message

The command `eipcmsg name t1 v1 .. tk vk` in `main` of `easyipc_console.c`: one pass over the types
that adds up their sizes, and one that writes the values into a buffer of that size.

* `sizingPass`, `writingPass` — the two loops, with the two ladders `paramSize` and `paramWrite`.
* `Packed` — the fields lie one behind the other in the buffer and read back.
* `params_packed` — that is so exactly if every size of a string is positive and their sum is an
  `int`; a negative size passes the test against 0.

`malloc` of a positive size does not fail.  Where `malloc_size` overflows, C does not say what
happens.
-/

namespace EasyIpc

open Printf Buffer Numerals Stdio

/-- The type and the value of a parameter: `argv[(i+1)*2]` and the argument behind it. -/
abbrev Param := CStr × CStr

/-! ## The two passes -/

/-- The ladder of the sizing pass: what a type adds to `malloc_size`, `none` where the parameter is
an error. -/
def paramSize (t : CStr) : Option ℤ :=
  if t = bytes "I32" then some 4
  else if t = bytes "I16" then some 2
  else if t = bytes "I8" then some 1
  else if t = bytes "C" then some 1
  else if t = bytes "U32" then some 4
  else if t = bytes "U16" then some 2
  else if t = bytes "U8" then some 1
  else if t.head? = some 83 then
    if atoi (t.drop 1) = 0 then none else some (atoi (t.drop 1))
  else none

/-- What comes of the sizing pass. -/
inductive Sizing where
  | error
  | overflow
  | size (mallocSize : ℤ)
  deriving DecidableEq, Repr

/-- The sizing pass, from a `malloc_size` on. -/
def sizingPass : ℤ → List Param → Sizing
  | mallocSize, [] => .size mallocSize
  | mallocSize, p :: ps =>
      match paramSize p.1 with
      | none => .error
      | some n => if IsInt (mallocSize + n) then sizingPass (mallocSize + n) ps else .overflow

/-- The bytes that `snprintf(dst, n, "%s", s)` writes.  As a `size_t` a negative `n` is larger than
any text. -/
def snprintfBytes (n : ℤ) (s : CStr) : List UInt8 :=
  if n = 0 then []
  else if n < 0 then s ++ [0]
  else s.take (n - 1).toNat ++ [0]

/-- The ladder of the writing pass: what a parameter adds to `till_size`, and what is written. -/
def paramWrite (p : Param) : Option (ℤ × List UInt8) :=
  if p.1 = bytes "I32" then some (4, intBytes 4 (atoi p.2))
  else if p.1 = bytes "I16" then some (2, intBytes 2 (atoi p.2))
  else if p.1 = bytes "I8" then some (1, intBytes 1 (atoi p.2))
  else if p.1 = bytes "C" then some (1, [p.2.headD 0])
  else if p.1 = bytes "U32" then some (4, intBytes 4 (atoi p.2))
  else if p.1 = bytes "U16" then some (2, intBytes 2 (atoi p.2))
  else if p.1 = bytes "U8" then some (1, intBytes 1 (atoi p.2))
  else if p.1.head? = some 83 then
    some (atoi (p.1.drop 1), snprintfBytes (atoi (p.1.drop 1)) p.2)
  else none

/-- A write: where it begins, counted from `param_buffer`, and its bytes. -/
structure Write where
  start : ℤ
  data : List UInt8
  deriving DecidableEq, Repr

/-- The writing pass, from a `till_size` on: the writes and the last `till_size`. -/
def writingPass : ℤ → List Param → Option (List Write × ℤ)
  | till, [] => some ([], till)
  | till, p :: ps =>
      match paramWrite p with
      | none => none
      | some (n, data) =>
          (writingPass (till + n) ps).map fun r => (⟨till + n - n, data⟩ :: r.1, r.2)

/-- `param_buffer` after some writes. -/
def paramBuffer (mallocSize : ℤ) (writes : List Write) : List UInt8 :=
  build mallocSize.toNat (writes.map fun w => (w.start.toNat, w.data))

/-! ## The fields -/

/-- The size of a parameter that the sizing pass accepts. -/
def sizeOf (p : Param) : ℤ := (paramSize p.1).getD 0

/-- Where the field `i` begins; the last field ends at `fieldStart ps ps.length`. -/
def fieldStart (ps : List Param) (i : ℕ) : ℤ := ((ps.take i).map sizeOf).sum

/-- The width of an integer type. -/
def intWidth (t : CStr) : Option ℕ :=
  if t = bytes "I8" ∨ t = bytes "U8" then some 1
  else if t = bytes "I16" ∨ t = bytes "U16" then some 2
  else if t = bytes "I32" ∨ t = bytes "U32" then some 4
  else none

/-- A field reads back: an integer modulo its width, the first byte of a `C` value, and the text of
an `S` value, cut to what fits before its terminator. -/
def FieldHolds (p : Param) (field : List UInt8) : Prop :=
  match intWidth p.1 with
  | some k => field.length = k ∧ (ofLe field : ℤ) = readInt p.2 % 256 ^ k
  | none =>
      if p.1 = bytes "C" then field = [p.2.headD 0]
      else (0 : UInt8) ∈ field ∧ cstr field = p.2.take (field.length - 1)

/-- What the two passes should come to. -/
structure Packed (ps : List Param) (mallocSize till : ℤ) (writes : List Write) : Prop where
  till_eq : till = mallocSize
  within : ∀ w ∈ writes, 0 ≤ w.start ∧ w.start + w.data.length ≤ mallocSize
  starts : writes.map Write.start = (List.range ps.length).map (fieldStart ps)
  ordered : ∀ i < ps.length, fieldStart ps i ≤ fieldStart ps (i + 1)
  ends : fieldStart ps ps.length = mallocSize
  readBack : ∀ i p, ps[i]? = some p →
    FieldHolds p (read (fieldStart ps i).toNat (sizeOf p).toNat (paramBuffer mallocSize writes))

/-- The two passes accept the parameters and pack them. -/
def Packs (ps : List Param) : Prop :=
  ∃ mallocSize till writes, sizingPass 0 ps = .size mallocSize ∧
    writingPass 0 ps = some (writes, till) ∧ Packed ps mallocSize till writes

variable {p : Param} {ps : List Param} {n mallocSize till : ℤ} {writes : List Write} {i : ℕ}

/-! ## One parameter -/

/-- What the two ladders do with a type: an integer, a byte or a text. -/
theorem paramSize_cases (h : paramSize p.1 = some n) :
    (∃ k, intWidth p.1 = some k ∧ n = k ∧ 0 < k ∧ paramWrite p = some (n, intBytes k (atoi p.2))) ∨
    (intWidth p.1 = none ∧ p.1 = bytes "C" ∧ n = 1 ∧ paramWrite p = some (n, [p.2.headD 0])) ∨
    (intWidth p.1 = none ∧ p.1 ≠ bytes "C" ∧ n ≠ 0 ∧ paramWrite p = some (n, snprintfBytes n p.2)) := by
  obtain ⟨t, v⟩ := p
  simp only [paramSize] at h
  split_ifs at h with hi32 hi16 hi8 hc hu32 hu16 hu8 hs hzero
  · obtain rfl : 4 = n := by simpa using h
    exact Or.inl ⟨4, by subst hi32; rfl, rfl, by decide, by subst hi32; rfl⟩
  · obtain rfl : 2 = n := by simpa using h
    exact Or.inl ⟨2, by subst hi16; rfl, rfl, by decide, by subst hi16; rfl⟩
  · obtain rfl : 1 = n := by simpa using h
    exact Or.inl ⟨1, by subst hi8; rfl, rfl, by decide, by subst hi8; rfl⟩
  · obtain rfl : 1 = n := by simpa using h
    exact Or.inr (Or.inl ⟨by subst hc; rfl, hc, rfl, by subst hc; rfl⟩)
  · obtain rfl : 4 = n := by simpa using h
    exact Or.inl ⟨4, by subst hu32; rfl, rfl, by decide, by subst hu32; rfl⟩
  · obtain rfl : 2 = n := by simpa using h
    exact Or.inl ⟨2, by subst hu16; rfl, rfl, by decide, by subst hu16; rfl⟩
  · obtain rfl : 1 = n := by simpa using h
    exact Or.inl ⟨1, by subst hu8; rfl, rfl, by decide, by subst hu8; rfl⟩
  · obtain rfl := Option.some.inj h
    refine Or.inr (Or.inr ⟨?_, hc, hzero, ?_⟩)
    · simp [intWidth, hi32, hi16, hi8, hu32, hu16, hu8]
    · simp [paramWrite, hi32, hi16, hi8, hc, hu32, hu16, hu8, hs]

theorem sizeOf_eq (h : paramSize p.1 = some n) : sizeOf p = n := by
  rw [sizeOf, h, Option.getD_some]

/-- What a parameter of positive size writes fits its field. -/
theorem paramWrite_eq (h : paramSize p.1 = some n) (hn : 0 < n) : ∃ data,
    paramWrite p = some (n, data) ∧ data.length ≤ n.toNat := by
  rcases paramSize_cases h with ⟨k, -, hk, -, hwrite⟩ | ⟨-, -, rfl, hwrite⟩ | ⟨-, -, -, hwrite⟩
  · refine ⟨_, hwrite, ?_⟩
    rw [length_intBytes]
    omega
  · exact ⟨_, hwrite, by simp⟩
  · refine ⟨_, hwrite, ?_⟩
    rw [snprintfBytes, if_neg (by omega), if_neg (by omega), List.length_append, List.length_take,
      List.length_singleton]
    omega

theorem ofLe_intBytes (k : ℕ) (v : ℤ) : (ofLe (intBytes k v) : ℤ) = v % 256 ^ k := by
  have hpow : 256 ^ k = 2 ^ (8 * k) := by rw [Nat.pow_mul]
  have hpowInt : (256 ^ k : ℤ) = ((2 ^ (8 * k) : ℕ) : ℤ) := by exact_mod_cast hpow
  have hpos : (0 : ℤ) < ((2 ^ (8 * k) : ℕ) : ℤ) := by exact_mod_cast Nat.two_pow_pos (8 * k)
  rw [intBytes, ofLe_le, hpow, Nat.mod_eq_of_lt (BitVec.isLt _), BitVec.toNat_ofInt, hpowInt]
  exact Int.toNat_of_nonneg (Int.emod_nonneg v (by omega))

/-- A field that begins with what its parameter writes reads back. -/
theorem fieldHolds_of_write {data field : List UInt8} (h : paramSize p.1 = some n) (hn : 0 < n)
    (hwrite : paramWrite p = some (n, data)) (hint : (intWidth p.1).isSome → IsInt (readInt p.2))
    (hnul : (0 : UInt8) ∉ p.2) (hlen : field.length = n.toNat)
    (hfield : field.take data.length = data) : FieldHolds p field := by
  unfold FieldHolds
  rcases paramSize_cases h with ⟨k, hwidth, hk, -, hw⟩ | ⟨hwidth, hc, hone, hw⟩ |
    ⟨hwidth, hc, -, hw⟩
  · obtain rfl : intBytes k (atoi p.2) = data := by
      have heq := hw.symm.trans hwrite
      simpa using heq
    have hk' : field.length = k := by omega
    rw [length_intBytes, List.take_of_length_le (by omega)] at hfield
    simp only [hwidth]
    rw [hfield, ofLe_intBytes, atoi_of_range (hint (by rw [hwidth]; rfl))]
    exact ⟨length_intBytes _ _, rfl⟩
  · obtain rfl : [p.2.headD 0] = data := by
      have heq := hw.symm.trans hwrite
      simpa using heq
    rw [List.length_singleton, List.take_of_length_le (by omega)] at hfield
    simp only [hwidth, if_pos hc]
    exact hfield
  · obtain rfl : snprintfBytes n p.2 = data := by
      have heq := hw.symm.trans hwrite
      simpa using heq
    have hbytes : snprintfBytes n p.2 = p.2.take (field.length - 1) ++ [0] := by
      rw [snprintfBytes, if_neg (by omega), if_neg (by omega), hlen]
      congr 2
      omega
    obtain ⟨rest, hsplit⟩ : ∃ rest, field = p.2.take (field.length - 1) ++ 0 :: rest := by
      have happ := List.take_append_drop (snprintfBytes n p.2).length field
      rw [hfield, hbytes, List.append_assoc] at happ
      exact ⟨_, happ.symm⟩
    simp only [hwidth, if_neg hc]
    have hcstr : cstr field = p.2.take (field.length - 1) := by
      have hread := congrArg cstr hsplit
      rwa [cstr_append_zero, cstr_of_not_mem fun h => hnul (List.mem_of_mem_take h)] at hread
    have hmem : (0 : UInt8) ∈ p.2.take (field.length - 1) ++ 0 :: rest := by simp
    exact ⟨hsplit ▸ hmem, hcstr⟩

/-! ## The passes -/

/-- The sum of the sizes. -/
def totalSize (ps : List Param) : ℤ := fieldStart ps ps.length

@[simp] theorem fieldStart_zero (ps : List Param) : fieldStart ps 0 = 0 := rfl

theorem fieldStart_succ (p : Param) (ps : List Param) (i : ℕ) :
    fieldStart (p :: ps) (i + 1) = sizeOf p + fieldStart ps i := by
  simp [fieldStart]

theorem totalSize_cons (p : Param) (ps : List Param) :
    totalSize (p :: ps) = sizeOf p + totalSize ps := fieldStart_succ p ps ps.length

theorem totalSize_nonneg (hpos : ∀ p ∈ ps, 0 < sizeOf p) : 0 ≤ totalSize ps := by
  induction ps with
  | nil => exact le_rfl
  | cons p ps ih =>
    have hp := hpos p (by simp)
    have hrest := ih fun q hq => hpos q (by simp [hq])
    rw [totalSize_cons]
    omega

theorem paramSize_of_pos (h : 0 < sizeOf p) : paramSize p.1 = some (sizeOf p) := by
  unfold sizeOf at h ⊢
  cases hsize : paramSize p.1 with
  | none => simp [hsize] at h
  | some n => rfl

/-- A sizing pass that comes to a size has added up the sizes, within the range of an `int`. -/
theorem sizingPass_spec (hint : IsInt n) (h : sizingPass n ps = .size mallocSize) :
    mallocSize = n + totalSize ps ∧ IsInt mallocSize := by
  induction ps generalizing n with
  | nil =>
    obtain rfl : n = mallocSize := Sizing.size.inj h
    exact ⟨by simp [totalSize], hint⟩
  | cons p ps ih =>
    rw [sizingPass] at h
    cases hsize : paramSize p.1 with
    | none => simp [hsize] at h
    | some k =>
      simp only [hsize] at h
      split at h
      · rename_i hk
        obtain ⟨heq, hm⟩ := ih hk h
        rw [totalSize_cons, sizeOf_eq hsize]
        exact ⟨by omega, hm⟩
      · cases h

/-- With positive sizes whose sum is an `int` it does. -/
theorem sizingPass_eq (hpos : ∀ p ∈ ps, 0 < sizeOf p) (hn : 0 ≤ n)
    (hsum : IsInt (n + totalSize ps)) : sizingPass n ps = .size (n + totalSize ps) := by
  induction ps generalizing n with
  | nil => simp [sizingPass, totalSize]
  | cons p ps ih =>
    have hp := hpos p (by simp)
    have hrest : ∀ q ∈ ps, 0 < sizeOf q := fun q hq => hpos q (by simp [hq])
    have htotal := totalSize_nonneg hrest
    rw [totalSize_cons] at hsum ⊢
    have hint : IsInt (n + sizeOf p) := by
      unfold IsInt at hsum ⊢
      omega
    rw [sizingPass, paramSize_of_pos hp]
    simp only [if_pos hint]
    rw [ih hrest (by omega) (by rwa [add_assoc]), add_assoc]

/-- The writes of some parameters, one behind the other from `till` on. -/
inductive Placed : ℤ → List Param → List Write → Prop
  | nil (till : ℤ) : Placed till [] []
  | cons {till : ℤ} {p : Param} {ps : List Param} {data : List UInt8} {writes : List Write} :
      paramWrite p = some (sizeOf p, data) → data.length ≤ (sizeOf p).toNat →
      Placed (till + sizeOf p) ps writes → Placed till (p :: ps) (⟨till, data⟩ :: writes)

/-- **What the writing pass writes**, for parameters of positive size. -/
theorem writingPass_eq (hpos : ∀ p ∈ ps, 0 < sizeOf p) (till : ℤ) : ∃ writes,
    writingPass till ps = some (writes, till + totalSize ps) ∧ Placed till ps writes := by
  induction ps generalizing till with
  | nil => exact ⟨[], by simp [writingPass, totalSize], .nil till⟩
  | cons p ps ih =>
    have hp := hpos p (by simp)
    obtain ⟨writes, hpass, hplaced⟩ := ih (fun q hq => hpos q (by simp [hq])) (till + sizeOf p)
    obtain ⟨data, hwrite, hlen⟩ := paramWrite_eq (paramSize_of_pos hp) hp
    refine ⟨⟨till, data⟩ :: writes, ?_, .cons hwrite hlen hplaced⟩
    rw [writingPass, hwrite]
    simp only [hpass, Option.map_some, totalSize_cons, add_sub_cancel_right, add_assoc]

namespace Placed

theorem starts (h : Placed till ps writes) :
    writes.map Write.start = (List.range ps.length).map fun i => till + fieldStart ps i := by
  induction h with
  | nil => rfl
  | cons _ _ _ ih =>
    rw [List.map_cons, ih, List.length_cons, List.range_succ_eq_map, List.map_cons, List.map_map]
    simp [fieldStart_succ, Function.comp_def, add_assoc]

theorem within (h : Placed till ps writes) (hpos : ∀ p ∈ ps, 0 < sizeOf p) :
    ∀ w ∈ writes, till ≤ w.start ∧ w.start + w.data.length ≤ till + totalSize ps := by
  induction h with
  | nil => simp
  | @cons till p ps data writes _ hlen _ ih =>
    have hp := hpos p (by simp)
    have hrest : ∀ q ∈ ps, 0 < sizeOf q := fun q hq => hpos q (by simp [hq])
    have htotal := totalSize_nonneg hrest
    rw [totalSize_cons]
    intro w hw
    rcases List.mem_cons.1 hw with rfl | hw
    · exact ⟨le_rfl, by simp only; omega⟩
    · have hin := ih hrest w hw
      omega

/-- No write reaches into the next field. -/
theorem apart (h : Placed till ps writes) (hpos : ∀ p ∈ ps, 0 < sizeOf p) :
    writes.Pairwise fun v w => v.start + (v.data.length : ℤ) ≤ w.start := by
  induction h with
  | nil => exact .nil
  | @cons till p ps data writes _ hlen hplaced ih =>
    have hrest : ∀ q ∈ ps, 0 < sizeOf q := fun q hq => hpos q (by simp [hq])
    refine List.pairwise_cons.2 ⟨fun w hw => ?_, ih hrest⟩
    have hp := hpos p (by simp)
    have hin := hplaced.within hrest w hw
    simp only
    omega

/-- The write of a parameter. -/
theorem getElem? (h : Placed till ps writes) (hi : ps[i]? = some p) : ∃ data,
    (⟨till + fieldStart ps i, data⟩ : Write) ∈ writes ∧ paramWrite p = some (sizeOf p, data) ∧
      data.length ≤ (sizeOf p).toNat := by
  induction h generalizing i with
  | nil => simp at hi
  | @cons till first ps data writes hwrite hlen _ ih =>
    cases i with
    | zero =>
      obtain rfl : first = p := by simpa using hi
      exact ⟨data, by simp, hwrite, hlen⟩
    | succ i =>
      obtain ⟨data', hmem, hrest⟩ := ih (by simpa using hi)
      refine ⟨data', ?_, hrest⟩
      rw [fieldStart_succ, ← add_assoc]
      exact List.mem_cons_of_mem _ hmem

/-- The writes are the fields of a structure in the buffer. -/
theorem layout (h : Placed 0 ps writes) (hpos : ∀ p ∈ ps, 0 < sizeOf p) :
    Layout (totalSize ps).toNat (writes.map fun w => (w.start.toNat, w.data)) := by
  have hwithin := h.within hpos
  refine ⟨?fits, ?apart⟩
  case fits =>
    intro f hf
    obtain ⟨w, hw, rfl⟩ := List.mem_map.1 hf
    have hin := hwithin w hw
    simp only
    omega
  case apart =>
    rw [List.pairwise_map]
    refine (h.apart hpos).imp_of_mem fun hv hw hvw => Or.inl ?_
    have hin := hwithin _ hv
    simp only
    omega

end Placed

/-! ## When the parameters are packed -/

theorem fieldStart_nonneg (hpos : ∀ p ∈ ps, 0 < sizeOf p) (i : ℕ) : 0 ≤ fieldStart ps i := by
  have hlen : totalSize (ps.take i) = fieldStart ps i := by
    rw [totalSize, fieldStart, fieldStart, List.take_length]
  rw [← hlen]
  exact totalSize_nonneg fun p hp => hpos p (List.mem_of_mem_take hp)

/-- The next field begins where a field ends. -/
theorem fieldStart_next (hi : ps[i]? = some p) :
    fieldStart ps (i + 1) = fieldStart ps i + sizeOf p := by
  rw [fieldStart, fieldStart, List.take_add_one, hi, List.map_append, List.sum_append]
  simp

theorem fieldStart_add_le (hpos : ∀ p ∈ ps, 0 < sizeOf p) (hi : ps[i]? = some p) :
    fieldStart ps i + sizeOf p ≤ totalSize ps := by
  rw [← fieldStart_next hi, totalSize, fieldStart, fieldStart, List.take_length]
  conv_rhs => rw [← List.take_append_drop (i + 1) ps, List.map_append, List.sum_append]
  have hrest : ∀ q ∈ ps.drop (i + 1), 0 < sizeOf q := fun q hq => hpos q (List.mem_of_mem_drop hq)
  have hnonneg := totalSize_nonneg hrest
  rw [totalSize, fieldStart, List.take_length] at hnonneg
  omega

/-- **Positive sizes are packed**, if their sum is an `int`. -/
theorem packs_of_pos (hpos : ∀ p ∈ ps, 0 < sizeOf p) (hsum : IsInt (totalSize ps))
    (hint : ∀ p ∈ ps, (intWidth p.1).isSome → IsInt (readInt p.2))
    (hnul : ∀ p ∈ ps, (0 : UInt8) ∉ p.2) : Packs ps := by
  obtain ⟨writes, hpass, hplaced⟩ := writingPass_eq hpos 0
  have hsizing := sizingPass_eq hpos le_rfl (by rwa [zero_add])
  rw [zero_add] at hpass hsizing
  refine ⟨_, _, writes, hsizing, hpass, ?_⟩
  have hwithin := hplaced.within hpos
  have hlayout := hplaced.layout hpos
  refine ⟨rfl, ?within, ?starts, ?ordered, rfl, ?readBack⟩
  case within =>
    intro w hw
    simpa using hwithin w hw
  case starts => simpa using hplaced.starts
  case ordered =>
    intro i hi
    rw [fieldStart_next (List.getElem?_eq_getElem hi)]
    have hp := hpos _ (List.getElem_mem hi)
    omega
  case readBack =>
    intro i p hi
    have hp := hpos p (List.mem_of_getElem? hi)
    have hstart := fieldStart_nonneg hpos i
    have hend := fieldStart_add_le hpos hi
    obtain ⟨data, hmem, hwrite, hlen⟩ := hplaced.getElem? hi
    rw [zero_add] at hmem
    have hread := read_build hlayout (List.mem_map_of_mem hmem)
    have hfield : (read (fieldStart ps i).toNat (sizeOf p).toNat
        (paramBuffer (totalSize ps) writes)).length = (sizeOf p).toNat := by
      apply length_read
      rw [paramBuffer, length_build hlayout]
      omega
    refine fieldHolds_of_write (paramSize_of_pos hp) hp hwrite (hint p (List.mem_of_getElem? hi))
      (hnul p (List.mem_of_getElem? hi)) hfield ?_
    rw [Buffer.read, List.take_take, Nat.min_eq_left hlen]
    exact hread

/-- **When `eipcmsg` packs its parameters.**  For parameters of types that the sizing pass accepts,
with integers that fit an `int`, the two passes agree and every field reads back exactly if every
size of a string is positive and all sizes add up to an `int`. -/
theorem params_packed (htypes : ∀ p ∈ ps, (paramSize p.1).isSome)
    (hint : ∀ p ∈ ps, (intWidth p.1).isSome → IsInt (readInt p.2))
    (hnul : ∀ p ∈ ps, (0 : UInt8) ∉ p.2) :
    Packs ps ↔ (∀ p ∈ ps, 0 < sizeOf p) ∧ totalSize ps ≤ 2147483647 := by
  refine ⟨?packed, ?positive⟩
  case packed =>
    rintro ⟨mallocSize, till, writes, hsizing, -, hpacked⟩
    have hzero : IsInt 0 := by decide
    obtain ⟨hsum, hmalloc⟩ := sizingPass_spec hzero hsizing
    refine ⟨fun p hp => ?_, by rw [zero_add] at hsum; exact hsum ▸ hmalloc.2⟩
    obtain ⟨i, hi⟩ := List.mem_iff_getElem?.1 hp
    have hlt := (List.getElem?_eq_some_iff.1 hi).1
    have hordered := hpacked.ordered i hlt
    rw [fieldStart_next hi] at hordered
    obtain ⟨n, hn⟩ := Option.isSome_iff_exists.1 (htypes p hp)
    have hne : sizeOf p ≠ 0 := by
      rw [sizeOf_eq hn]
      rcases paramSize_cases hn with ⟨k, -, hk, hpos, -⟩ | ⟨-, -, rfl, -⟩ | ⟨-, -, hne, -⟩
      · omega
      · decide
      · exact hne
    omega
  case positive =>
    rintro ⟨hpos, hsum⟩
    have hnonneg := totalSize_nonneg hpos
    exact packs_of_pos hpos ⟨by omega, hsum⟩ hint hnul

/-- An integer of two bytes, a character and a text that is cut. -/
theorem params_packed_three :
    Packs [(bytes "U16", bytes "70000"), (bytes "C", bytes "xy"), (bytes "S4", bytes "hello")] ↔
      (∀ p ∈ [(bytes "U16", bytes "70000"), (bytes "C", bytes "xy"), (bytes "S4", bytes "hello")],
        0 < sizeOf p) ∧
      totalSize [(bytes "U16", bytes "70000"), (bytes "C", bytes "xy"), (bytes "S4", bytes "hello")] ≤
        2147483647 :=
  params_packed (by decide) (by decide) (by decide)

/-- With a size of -5 three bytes are allocated for the twelve that are written. -/
theorem params_not_packed :
    sizingPass 0 [(bytes "U32", bytes "1"), (bytes "U32", bytes "2"), (bytes "S-5", bytes "abc")] =
      .size 3 ∧
    writingPass 0 [(bytes "U32", bytes "1"), (bytes "U32", bytes "2"), (bytes "S-5", bytes "abc")] =
      some ([⟨0, [1, 0, 0, 0]⟩, ⟨4, [2, 0, 0, 0]⟩, ⟨8, bytes "abc" ++ [0]⟩], 3) ∧
    ¬ Packs [(bytes "U32", bytes "1"), (bytes "U32", bytes "2"), (bytes "S-5", bytes "abc")] := by
  refine ⟨by decide, by decide, ?_⟩
  rintro ⟨mallocSize, till, writes, hsizing, hpass, hpacked⟩
  obtain rfl : 3 = mallocSize := Sizing.size.inj hsizing
  have hwrites : [⟨0, [1, 0, 0, 0]⟩, ⟨4, [2, 0, 0, 0]⟩, ⟨8, bytes "abc" ++ [0]⟩] = writes :=
    congrArg Prod.fst (Option.some.inj hpass)
  have hover := hpacked.within ⟨8, bytes "abc" ++ [0]⟩ (by rw [← hwrites]; decide)
  exact absurd hover (by decide)

end EasyIpc

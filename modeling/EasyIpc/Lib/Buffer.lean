import Mathlib.Data.List.Basic
import Mathlib.Data.Int.Notation
import Mathlib.Algebra.Group.Nat.Defs
import Mathlib.Algebra.Group.Int.Defs

/-!
# Byte buffers

Buffers of a program that fills structures field by field and copies them with `memcpy`: a buffer
is the list of its bytes.

* `write`, `read` — copy into and out of a buffer that holds the range; `read?` is the copy with a
  length that comes from elsewhere and is checked.
* `build` — a zeroed buffer with some fields written; `read_build` reads a field back if the fields
  fit and do not overlap (`Layout`).
* `CType`, `offsets` — where a C compiler puts the fields of a structure.
* `intBytes`, `intAt` — the integers of a little-endian machine; `cstrBytes`, `cstrAt` — strings with
  their terminator.
-/

namespace Buffer

/-- `memset(buf, 0, n)`. -/
def zeros (n : ℕ) : List UInt8 := List.replicate n 0

/-- `memcpy(buf + off, src, ..)`; a copy that does not fit changes nothing here. -/
def write (off : ℕ) (src buf : List UInt8) : List UInt8 :=
  if off + src.length ≤ buf.length then buf.take off ++ src ++ buf.drop (off + src.length) else buf

/-- The `len` bytes at `off`. -/
def read (off len : ℕ) (buf : List UInt8) : List UInt8 := (buf.drop off).take len

/-- The range lies in a buffer of `n` bytes. -/
def InRange (n off : ℕ) (len : ℤ) : Prop := 0 ≤ len ∧ off + len ≤ n

instance (n off : ℕ) (len : ℤ) : Decidable (InRange n off len) := inferInstanceAs (Decidable (_ ∧ _))

/-- A copy out of a buffer with an untrusted length: `none` where it leaves the buffer. -/
def read? (off : ℕ) (len : ℤ) (buf : List UInt8) : Option (List UInt8) :=
  if InRange buf.length off len then some (read off len.toNat buf) else none

variable {off off' len len' n : ℕ} {src buf : List UInt8}

/-! ## Reading and writing -/

theorem length_read (h : off + len ≤ buf.length) : (read off len buf).length = len := by
  rw [read, List.length_take, List.length_drop]
  omega

theorem write_of_le (h : off + src.length ≤ buf.length) :
    write off src buf = buf.take off ++ src ++ buf.drop (off + src.length) := if_pos h

@[simp] theorem length_write (off : ℕ) (src buf : List UInt8) :
    (write off src buf).length = buf.length := by
  unfold write
  split
  · simp only [List.length_append, List.length_take, List.length_drop]
    omega
  · rfl

theorem read_zero_length : read 0 buf.length buf = buf := by
  rw [read, List.drop_zero, List.take_length]

/-- Reading through a pointer into a buffer. -/
theorem read_drop (k : ℕ) : read off len (buf.drop k) = read (k + off) len buf := by
  rw [read, read, List.drop_drop]

/-- Reading within what has been read. -/
theorem read_read (h : off' + len' ≤ len) :
    read off' len' (read off len buf) = read (off + off') len' buf := by
  rw [read, read, read, List.drop_take, List.take_take, List.drop_drop]
  congr 1
  omega

/-- What follows the range does not matter. -/
theorem read_append_left (rest : List UInt8) (h : off + len ≤ buf.length) :
    read off len (buf ++ rest) = read off len buf := by
  rw [read, read, List.drop_append_of_le_length (by omega), List.take_append_of_le_length]
  rw [List.length_drop]
  omega

theorem read_write_same (h : off + src.length ≤ buf.length) :
    read off src.length (write off src buf) = src := by
  have htake : (buf.take off).length = off := by
    rw [List.length_take]
    omega
  rw [read, write_of_le h, List.append_assoc, List.drop_append_of_le_length (by omega),
    List.drop_eq_nil_of_le (by omega), List.nil_append, List.take_left]

theorem read_write_of_disjoint (h : off + len ≤ off' ∨ off' + src.length ≤ off) :
    read off len (write off' src buf) = read off len buf := by
  by_cases hfit : off' + src.length ≤ buf.length
  · have htake : (buf.take off').length = off' := by
      rw [List.length_take]
      omega
    rcases h with h | h
    · rw [write_of_le hfit, List.append_assoc, read_append_left _ (by omega), read, read,
        List.drop_take, List.take_take]
      congr 1
      omega
    · have hpre : (buf.take off' ++ src).length ≤ off := by
        rw [List.length_append]
        omega
      rw [read, read, write_of_le hfit, List.drop_append, List.drop_eq_nil_of_le hpre,
        List.nil_append, List.drop_drop]
      congr 2
      rw [List.length_append]
      omega
  · rw [write, if_neg hfit]

theorem read?_eq_some (h : off + len ≤ buf.length) :
    read? off len buf = some (read off len buf) := by
  rw [read?, if_pos ⟨by omega, by omega⟩, Int.toNat_natCast]

theorem read?_eq_none_iff {len : ℤ} : read? off len buf = none ↔ ¬ InRange buf.length off len := by
  unfold read?
  split <;> simp [*]

/-- A write inside a range that is then read. -/
theorem read_write_inside (hin : off' + src.length ≤ len) (h : off + len ≤ buf.length) :
    read off len (write (off + off') src buf) = write off' src (read off len buf) := by
  have hpre : (buf.take (off + off') ++ src).drop off = (buf.drop off).take off' ++ src := by
    rw [List.drop_append_of_le_length (by rw [List.length_take]; omega), List.drop_take]
    congr 2
    omega
  have hlen : ((buf.drop off).take off' ++ src).length = off' + src.length := by
    rw [List.length_append, List.length_take, List.length_drop]
    omega
  have hdrop : (write (off + off') src buf).drop off =
      (buf.drop off).take off' ++ src ++ (buf.drop off).drop (off' + src.length) := by
    rw [write_of_le (by omega), List.drop_append_of_le_length, hpre, List.drop_drop, Nat.add_assoc]
    rw [List.length_append, List.length_take]
    omega
  rw [read, hdrop, List.take_append, hlen, List.take_of_length_le (by omega),
    write_of_le (by rw [length_read h]; exact hin), read, List.take_take, List.drop_take,
    Nat.min_eq_left (by omega)]

/-! ## Structures -/

/-- A buffer of `n` zeroes in which some fields are written, one after the other. -/
def build (n : ℕ) (fields : List (ℕ × List UInt8)) : List UInt8 :=
  fields.foldl (fun buf f => write f.1 f.2 buf) (zeros n)

/-- The fields fit into `n` bytes and do not overlap. -/
structure Layout (n : ℕ) (fields : List (ℕ × List UInt8)) : Prop where
  fits : ∀ f ∈ fields, f.1 + f.2.length ≤ n
  apart : fields.Pairwise fun f g => f.1 + f.2.length ≤ g.1 ∨ g.1 + g.2.length ≤ f.1

theorem Layout.tail {f : ℕ × List UInt8} {fields : List (ℕ × List UInt8)}
    (h : Layout n (f :: fields)) : Layout n fields :=
  ⟨fun g hg => h.fits g (List.mem_cons_of_mem _ hg), (List.pairwise_cons.1 h.apart).2⟩

theorem length_foldl_write {fields : List (ℕ × List UInt8)} (h : Layout buf.length fields) :
    (fields.foldl (fun b f => write f.1 f.2 b) buf).length = buf.length := by
  induction fields generalizing buf with
  | nil => rfl
  | cons f fields ih =>
    rw [List.foldl_cons, ih (by rw [length_write]; exact h.tail), length_write]

theorem length_build {fields : List (ℕ × List UInt8)} (h : Layout n fields) :
    (build n fields).length = n := by
  have hzeros : (zeros n).length = n := List.length_replicate
  unfold build
  rw [length_foldl_write (by rw [hzeros]; exact h), hzeros]

/-- Writes elsewhere do not change a range. -/
theorem read_foldl_write_of_disjoint {fields : List (ℕ × List UInt8)}
    (h : Layout buf.length fields)
    (hdisj : ∀ f ∈ fields, off + len ≤ f.1 ∨ f.1 + f.2.length ≤ off) :
    read off len (fields.foldl (fun b f => write f.1 f.2 b) buf) = read off len buf := by
  induction fields generalizing buf with
  | nil => rfl
  | cons f fields ih =>
    rw [List.foldl_cons, ih (by rw [length_write]; exact h.tail)
      fun g hg => hdisj g (List.mem_cons_of_mem _ hg)]
    exact read_write_of_disjoint (hdisj f List.mem_cons_self)

theorem read_foldl_write {fields : List (ℕ × List UInt8)} (h : Layout buf.length fields)
    (hmem : (off, src) ∈ fields) :
    read off src.length (fields.foldl (fun b f => write f.1 f.2 b) buf) = src := by
  induction fields generalizing buf with
  | nil => cases hmem
  | cons f fields ih =>
    have hfit := h.fits f List.mem_cons_self
    have htail : Layout (write f.1 f.2 buf).length fields := by
      rw [length_write]
      exact h.tail
    rw [List.foldl_cons]
    rcases List.mem_cons.1 hmem with rfl | hmem
    · rw [read_foldl_write_of_disjoint htail fun g hg => (List.pairwise_cons.1 h.apart).1 g hg]
      exact read_write_same hfit
    · exact ih htail hmem

/-- **A field of a structure reads back as what was written.** -/
theorem read_build {fields : List (ℕ × List UInt8)} (h : Layout n fields)
    (hmem : (off, src) ∈ fields) : read off src.length (build n fields) = src := by
  have hzeros : (zeros n).length = n := List.length_replicate
  exact read_foldl_write (by rw [hzeros]; exact h) hmem

/-- Overwriting the field that was written last. -/
theorem write_build {fields : List (ℕ × List UInt8)} {src' : List UInt8}
    (h : Layout n (fields ++ [(off, src)])) (hlen : src'.length = src.length) :
    write off src' (build n (fields ++ [(off, src)])) = build n (fields ++ [(off, src')]) := by
  have hfields : Layout n fields :=
    ⟨fun f hf => h.fits f (List.mem_append_left _ hf), (List.pairwise_append.1 h.apart).1⟩
  have hbuf : (build n fields).length = n := length_build hfields
  have hfit : off + src.length ≤ n := h.fits (off, src) (by simp)
  have htake : ((build n fields).take off).length = off := by
    rw [List.length_take]
    omega
  simp only [build, List.foldl_append, List.foldl_cons, List.foldl_nil]
  show write off src' (write off src (build n fields)) = write off src' (build n fields)
  have hpre : ((build n fields).take off ++ src).length = off + src'.length := by
    rw [List.length_append]
    omega
  have hhead : (write off src (build n fields)).take off = (build n fields).take off := by
    rw [write_of_le (by omega), List.append_assoc, List.take_append_of_le_length (by omega),
      List.take_take, Nat.min_self]
  have htail : (write off src (build n fields)).drop (off + src'.length) =
      (build n fields).drop (off + src'.length) := by
    rw [write_of_le (by omega), ← hpre, List.drop_left, hpre, hlen]
  rw [write_of_le (by rw [length_write]; omega), hhead, htail, write_of_le (by omega)]

/-! ## The layout of a structure -/

/-- The size and the alignment of a C type. -/
structure CType where
  size : ℕ
  align : ℕ
  deriving DecidableEq, Repr

/-- An array. -/
def CType.array (n : ℕ) (t : CType) : CType := ⟨n * t.size, t.align⟩

/-- The next multiple of an alignment. -/
def roundUp (n align : ℕ) : ℕ := (n + align - 1) / align * align

/-- The offsets of some fields of which the first is placed from `pos` on, and the end of the
last. -/
def place : ℕ → List CType → List ℕ × ℕ
  | pos, [] => ([], pos)
  | pos, t :: ts =>
      let off := roundUp pos t.align
      let (offs, stop) := place (off + t.size) ts
      (off :: offs, stop)

/-- The offsets of the fields of a structure. -/
def offsets (fields : List CType) : List ℕ := (place 0 fields).1

/-- A structure with the fields. -/
def CType.struct (fields : List CType) : CType :=
  let align := fields.foldl (fun a t => max a t.align) 1
  ⟨roundUp (place 0 fields).2 align, align⟩

/-! ## Integers -/

/-- The `k` low bytes of a number, the lowest first. -/
def le : ℕ → ℕ → List UInt8
  | 0, _ => []
  | k + 1, v => UInt8.ofNat v :: le k (v / 256)

/-- The number of some bytes, the lowest first. -/
def ofLe : List UInt8 → ℕ
  | [] => 0
  | b :: bs => b.toNat + 256 * ofLe bs

@[simp] theorem length_le (k v : ℕ) : (le k v).length = k := by
  induction k generalizing v with
  | zero => rfl
  | succ k ih => rw [le, List.length_cons, ih]

theorem ofLe_le (k v : ℕ) : ofLe (le k v) = v % 256 ^ k := by
  induction k generalizing v with
  | zero => simp [le, ofLe, Nat.mod_one]
  | succ k ih =>
    have hb : (UInt8.ofNat v).toNat = v % 256 := rfl
    rw [le, ofLe, ih, hb, Nat.pow_succ', Nat.mod_mul]

/-- The bytes of an integer of `k` bytes. -/
def intBytes (k : ℕ) (v : ℤ) : List UInt8 := le k (BitVec.ofInt (8 * k) v).toNat

/-- The integer of `k` bytes at `off`. -/
def intAt (k off : ℕ) (buf : List UInt8) : ℤ := (BitVec.ofNat (8 * k) (ofLe (read off k buf))).toInt

@[simp] theorem length_intBytes (k : ℕ) (v : ℤ) : (intBytes k v).length = k := length_le _ _

theorem ofNat_ofLe_intBytes (k : ℕ) (v : ℤ) :
    BitVec.ofNat (8 * k) (ofLe (intBytes k v)) = BitVec.ofInt (8 * k) v := by
  have hpow : 256 ^ k = 2 ^ (8 * k) := by rw [Nat.pow_mul]
  rw [intBytes, ofLe_le, hpow, Nat.mod_eq_of_lt (BitVec.isLt _), BitVec.ofNat_toNat,
    BitVec.setWidth_eq]

/-- The integer fits in `k` bytes. -/
def IntRange (k : ℕ) (v : ℤ) : Prop := (BitVec.ofInt (8 * k) v).toInt = v

instance (k : ℕ) (v : ℤ) : Decidable (IntRange k v) := inferInstanceAs (Decidable (_ = _))

/-- The range of a 32-bit integer. -/
theorem intRange_four_iff {v : ℤ} : IntRange 4 v ↔ -2147483648 ≤ v ∧ v < 2147483648 := by
  unfold IntRange
  have hpow : ((2 ^ (8 * 4) : ℕ) : ℤ) = 4294967296 := rfl
  rw [BitVec.toInt_ofInt, Int.bmod, hpow]
  split <;> omega

/-- An integer that fits is read back. -/
theorem intAt_of_read {k off : ℕ} {v : ℤ} (hv : IntRange k v)
    (h : read off (intBytes k v).length buf = intBytes k v) : intAt k off buf = v := by
  rw [length_intBytes] at h
  rw [intAt, h, ofNat_ofLe_intBytes, hv]

/-! ## Strings -/

/-- A string with its terminator. -/
def cstrBytes (s : List UInt8) : List UInt8 := s ++ [0]

/-- The string at `off`. -/
def cstrAt (off : ℕ) (buf : List UInt8) : List UInt8 := (buf.drop off).takeWhile (· ≠ 0)

@[simp] theorem length_cstrBytes (s : List UInt8) : (cstrBytes s).length = s.length + 1 := by
  simp [cstrBytes]

theorem cstrAt_of_read {s : List UInt8} (hs : (0 : UInt8) ∉ s)
    (h : read off (cstrBytes s).length buf = cstrBytes s) : cstrAt off buf = s := by
  have hsplit : buf.drop off = s ++ 0 :: (buf.drop off).drop (cstrBytes s).length := by
    conv_lhs => rw [← List.take_append_drop (cstrBytes s).length (buf.drop off)]
    rw [show (buf.drop off).take (cstrBytes s).length = cstrBytes s from h, cstrBytes,
      List.append_assoc, List.singleton_append]
  have hall : ∀ c ∈ s, decide (c ≠ 0) = true := by
    intro c hc
    simpa using fun h0 : c = 0 => hs (h0 ▸ hc)
  rw [cstrAt, hsplit, List.takeWhile_append_of_pos hall, List.takeWhile_cons_of_neg (by simp),
    List.append_nil]

end Buffer

import Mathlib.Data.List.Basic
import Mathlib.Data.List.TakeWhile

/-!
# Readers of texts in memory

A reader is given a place in a block of memory and takes a value from there on.  A place is the list
of the bytes from it to the end of the block, so to read at a place with no bytes left is to read
outside of the block.

* `Scanned` — a value and the place behind it, a refusal, or a read or a write outside of a block.
* `NotAt`, `takeWhile_run`, `dropWhile_run` — a run of bytes of one class, up to the first other one.
* `Takes` — the reader takes exactly a given piece of the text, before everything that may follow.
* `Ahead`, `Stays` — the reader touches no memory but the text and stops in it, at or before its
  first zero byte; `Stays.map`, `Stays.bind`, `Stays.of_ahead`.
-/

namespace Scan

/-- What comes of reading a value at a place. -/
inductive Scanned (α : Type*) where
  | done (a : α) (rest : List UInt8)
  | fail
  /-- Memory is touched that is not the reader's: the language says nothing about what follows. -/
  | undefined
  deriving DecidableEq, Repr

variable {α β : Type*}

/-- Read on with what has been read. -/
def Scanned.bind (o : Scanned α) (k : α → List UInt8 → Scanned β) : Scanned β :=
  match o with
  | done a rest => k a rest
  | fail => .fail
  | undefined => .undefined

/-- Change the value that has been read. -/
def Scanned.map (f : α → β) (o : Scanned α) : Scanned β := o.bind fun a rest => .done (f a) rest

@[simp] theorem Scanned.bind_done (a : α) (rest : List UInt8) (k : α → List UInt8 → Scanned β) :
    (done a rest).bind k = k a rest := rfl

@[simp] theorem Scanned.map_done (f : α → β) (a : α) (rest : List UInt8) :
    (done a rest).map f = .done (f a) rest := rfl

/-! ## Runs of bytes of one class -/

/-- A text does not begin with a byte of the class. -/
def NotAt (p : UInt8 → Bool) (text : List UInt8) : Prop := ∀ c, text.head? = some c → p c = false

theorem NotAt.nil (p : UInt8 → Bool) : NotAt p [] := fun _ h => by cases h

theorem NotAt.cons {p : UInt8 → Bool} {c : UInt8} (h : p c = false) (text : List UInt8) :
    NotAt p (c :: text) := by
  intro d hd
  cases hd
  exact h

/-- What a text does not begin with, it does not begin with before more text, if there is any. -/
theorem NotAt.append {p : UInt8 → Bool} {text rest : List UInt8} (h : NotAt p text)
    (hrest : NotAt p rest) : NotAt p (text ++ rest) := by
  cases text with
  | nil => exact hrest
  | cons c text => exact NotAt.cons (h c rfl) _

theorem NotAt.dropWhile {p : UInt8 → Bool} {text : List UInt8} (h : NotAt p text) :
    text.dropWhile p = text := by
  cases text with
  | nil => rfl
  | cons c text => rw [List.dropWhile_cons_of_neg (by simp [h c rfl])]

theorem NotAt.takeWhile {p : UInt8 → Bool} {text : List UInt8} (h : NotAt p text) :
    text.takeWhile p = [] := by
  cases text with
  | nil => rfl
  | cons c text => rw [List.takeWhile_cons_of_neg (by simp [h c rfl])]

/-- A run of bytes of the class is taken whole. -/
theorem takeWhile_run {p : UInt8 → Bool} {run rest : List UInt8} (h : ∀ c ∈ run, p c = true)
    (hrest : NotAt p rest) : (run ++ rest).takeWhile p = run := by
  rw [List.takeWhile_append_of_pos h, hrest.takeWhile, List.append_nil]

/-- A run of bytes of the class is passed over whole. -/
theorem dropWhile_run {p : UInt8 → Bool} {run rest : List UInt8} (h : ∀ c ∈ run, p c = true)
    (hrest : NotAt p rest) : (run ++ rest).dropWhile p = rest := by
  rw [List.dropWhile_append_of_pos h, hrest.dropWhile]

/-! ## What a reader takes -/

/-- Before every `rest` with the property `follow`, the reader takes the text `w` for `a`. -/
def Takes (r : List UInt8 → Scanned α) (follow : List UInt8 → Prop) (w : List UInt8) (a : α) : Prop :=
  ∀ rest, follow rest → r (w ++ rest) = .done a rest

/-! ## Where a reader stays -/

/-- A place further on in the text, with no zero byte before it. -/
def Ahead (text rest : List UInt8) : Prop := ∃ pre, text = pre ++ rest ∧ (0 : UInt8) ∉ pre

theorem Ahead.refl (text : List UInt8) : Ahead text text := ⟨[], rfl, List.not_mem_nil⟩

theorem Ahead.trans {text mid rest : List UInt8} (h : Ahead text mid) (h' : Ahead mid rest) :
    Ahead text rest := by
  obtain ⟨pre, rfl, hpre⟩ := h
  obtain ⟨pre', rfl, hpre'⟩ := h'
  exact ⟨pre ++ pre', (List.append_assoc _ _ _).symm, by simp [hpre, hpre']⟩

theorem Ahead.append {pre : List UInt8} (h : (0 : UInt8) ∉ pre) (rest : List UInt8) :
    Ahead (pre ++ rest) rest := ⟨pre, rfl, h⟩

theorem Ahead.cons {c : UInt8} (h : c ≠ 0) (rest : List UInt8) : Ahead (c :: rest) rest :=
  ⟨[c], rfl, by simpa using h.symm⟩

theorem Ahead.suffix {text rest : List UInt8} (h : Ahead text rest) : rest <:+ text := by
  obtain ⟨pre, rfl, -⟩ := h
  exact List.suffix_append pre rest

theorem Ahead.length_le {text rest : List UInt8} (h : Ahead text rest) :
    rest.length ≤ text.length := h.suffix.length_le

/-- A zero byte of the text is not passed over. -/
theorem Ahead.zero_mem {text rest : List UInt8} (h : Ahead text rest) (hzero : (0 : UInt8) ∈ text) :
    (0 : UInt8) ∈ rest := by
  obtain ⟨pre, rfl, hpre⟩ := h
  exact (List.mem_append.1 hzero).resolve_left hpre

theorem zero_not_mem_takeWhile {p : UInt8 → Bool} (h : p 0 = false) (text : List UInt8) :
    (0 : UInt8) ∉ text.takeWhile p := by
  intro hmem
  rw [List.mem_takeWhile_imp hmem] at h
  cases h

/-- A run of bytes that are not zero, which is passed over. -/
theorem Ahead.dropWhile {p : UInt8 → Bool} (h : p 0 = false) (text : List UInt8) :
    Ahead text (text.dropWhile p) :=
  ⟨text.takeWhile p, List.takeWhile_append_dropWhile.symm, zero_not_mem_takeWhile h text⟩

/-- The same run, counted. -/
theorem Ahead.takeWhile {p : UInt8 → Bool} (h : p 0 = false) (text : List UInt8) :
    Ahead text (text.drop (text.takeWhile p).length) :=
  ⟨text.takeWhile p, (List.prefix_iff_eq_append.1 (List.takeWhile_prefix p)).symm,
    zero_not_mem_takeWhile h text⟩

/-- A reader that starts at the text touches no memory but the block, and stops further on in it. -/
def Stays (text : List UInt8) (o : Scanned α) : Prop :=
  o ≠ .undefined ∧ ∀ a rest, o = .done a rest → Ahead text rest

section Stays

variable {text mid : List UInt8} {o : Scanned α}

theorem Stays.done {rest : List UInt8} (h : Ahead text rest) (a : α) :
    Stays text (.done a rest) := by
  refine ⟨nofun, fun b rest' hdone => ?_⟩
  cases hdone
  exact h

theorem Stays.fail : Stays text (.fail : Scanned α) := ⟨nofun, nofun⟩

theorem Stays.bind {k : α → List UInt8 → Scanned β} (h : Stays text o)
    (hk : ∀ a mid, Ahead text mid → Stays text (k a mid)) : Stays text (o.bind k) := by
  cases o with
  | done a mid => exact hk a mid (h.2 a mid rfl)
  | fail => exact Stays.fail
  | undefined => exact absurd rfl h.1

theorem Stays.map (h : Stays text o) (f : α → β) : Stays text (o.map f) :=
  h.bind fun a _ hmid => Stays.done hmid (f a)

/-- The reader starts further on. -/
theorem Stays.of_ahead (hmid : Ahead text mid) (h : Stays mid o) : Stays text o :=
  ⟨h.1, fun a rest hdone => hmid.trans (h.2 a rest hdone)⟩

end Stays

end Scan

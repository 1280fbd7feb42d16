import Mathlib.Data.List.Basic
import Mathlib.Data.List.TakeWhile

/-!
# Reading a text file line by line

A file that is read with `fgets` into one buffer: the file is the list of its bytes, and what is
still to be read is a suffix of it.

* `fgets`, `chunks` — what one call takes, and what the calls take until the end of the file.
* `chunks_append` — a file that ends a line can be read up to there on its own.
* `metEnd`, `chunks_complete` — a call that has not met the end of the file takes the same of a file that
  has grown since.
* `Lines`, `chunks_flatten`, `chunks_flatMap` — lines that fit the buffer are read whole.
* `cstr`, `load` — the C string in a buffer, and a chunk put over what the buffer held before.
-/

namespace Stdio

/-! ## Reading -/

/-- Up to `n` bytes of a file, no further than the end of the line, and what is left of the file. -/
def takeLine : ℕ → List UInt8 → List UInt8 × List UInt8
  | 0, file => ([], file)
  | _ + 1, [] => ([], [])
  | n + 1, c :: file =>
      if c = 10 then ([c], file) else (c :: (takeLine n file).1, (takeLine n file).2)

/-- `fgets(buf, n, fp)`; nothing is read at the end of the file, where the result is `NULL`. -/
def fgets (n : ℕ) (file : List UInt8) : List UInt8 × List UInt8 := takeLine (n - 1) file

/-- `while (fgets(buf, n, fp))`, with a bound on the calls. -/
def readAll (n : ℕ) : ℕ → List UInt8 → List (List UInt8)
  | 0, _ => []
  | fuel + 1, file =>
      if (fgets n file).1 = [] then [] else (fgets n file).1 :: readAll n fuel (fgets n file).2

/-- What the calls of `fgets` take one after the other. -/
def chunks (n : ℕ) (file : List UInt8) : List (List UInt8) := readAll n file.length file

variable {n fuel : ℕ} {a b c file head rest : List UInt8}

theorem takeLine_append (n : ℕ) (file : List UInt8) :
    (takeLine n file).1 ++ (takeLine n file).2 = file := by
  induction file generalizing n with
  | nil => cases n <;> rfl
  | cons c file ih =>
    cases n with
    | zero => rfl
    | succ n =>
      rw [takeLine]
      split
      · rfl
      · rw [List.cons_append, ih n]

theorem takeLine_ne_nil (hn : 0 < n) (h : file ≠ []) : (takeLine n file).1 ≠ [] := by
  obtain ⟨n, rfl⟩ := Nat.exists_eq_add_of_lt hn
  cases file with
  | nil => exact absurd rfl h
  | cons c file =>
    rw [Nat.zero_add, takeLine]
    split <;> exact List.cons_ne_nil _ _

theorem length_takeLine_le (n : ℕ) (file : List UInt8) : (takeLine n file).1.length ≤ n := by
  induction file generalizing n with
  | nil => cases n <;> simp [takeLine]
  | cons c file ih =>
    cases n with
    | zero => simp [takeLine]
    | succ n =>
      rw [takeLine]
      split
      · simp
      · simpa using ih n

/-- Bytes without a line end are taken as far as there is room. -/
theorem takeLine_append_left (hhead : (10 : UInt8) ∉ head) (hlen : head.length ≤ n) :
    takeLine n (head ++ rest) =
      (head ++ (takeLine (n - head.length) rest).1, (takeLine (n - head.length) rest).2) := by
  induction head generalizing n with
  | nil => rfl
  | cons c head ih =>
    rw [List.mem_cons, not_or] at hhead
    cases n with
    | zero => simp at hlen
    | succ n =>
      rw [List.cons_append, takeLine, if_neg (Ne.symm hhead.1),
        ih hhead.2 (Nat.le_of_succ_le_succ hlen), List.length_cons, Nat.add_sub_add_right]
      rfl

/-- A file that ends a line is not left before its end. -/
theorem takeLine_append_right (hn : 0 < n) (a b : List UInt8) :
    takeLine n (a ++ [10] ++ b) =
      ((takeLine n (a ++ [10])).1, (takeLine n (a ++ [10])).2 ++ b) := by
  induction a generalizing n with
  | nil =>
    cases n with
    | zero => simp at hn
    | succ n => rfl
  | cons c a ih =>
    cases n with
    | zero => simp at hn
    | succ n =>
      simp only [List.cons_append, takeLine]
      split
      · rfl
      · cases n with
        | zero => rfl
        | succ n => rw [ih (Nat.succ_pos n)]

/-- The file ends with a line end, if it is not empty. -/
def EndsLine (file : List UInt8) : Prop := file = [] ∨ ∃ a, file = a ++ [10]

/-- What is left of a file that ends a line ends it too. -/
theorem endsLine_takeLine (h : EndsLine file) (n : ℕ) : EndsLine (takeLine n file).2 := by
  have hsplit := takeLine_append n file
  rcases h with rfl | ⟨a, rfl⟩
  · cases n <;> exact Or.inl rfl
  · rcases List.eq_nil_or_concat (takeLine n (a ++ [10])).2 with hnil | ⟨l, x, hl⟩
    · exact Or.inl hnil
    · rw [hl, List.concat_eq_append, ← List.append_assoc] at hsplit
      have hx := List.append_inj_right' hsplit rfl
      rw [hl, List.concat_eq_append, hx]
      exact Or.inr ⟨l, rfl⟩

/-- What a call for `n` bytes takes shows that it has met the end of the file: there was room left, and no
line end. -/
def metEnd (n : ℕ) (chunk : List UInt8) : Bool := chunk.length < n && chunk.getLast? != some 10

/-- What is left where the end of the file has been met. -/
theorem takeLine_metEnd (h : metEnd n (takeLine n file).1 = true) : (takeLine n file).2 = [] := by
  induction file generalizing n with
  | nil => rw [show takeLine n [] = ([], []) by cases n <;> rfl]
  | cons c file ih =>
    cases n with
    | zero => simp [metEnd, takeLine] at h
    | succ n =>
      rw [takeLine] at h ⊢
      split at h
      · rename_i hc
        subst hc
        simp [metEnd] at h
      · rename_i hc
        rw [if_neg hc]
        refine ih ?_
        simp only [metEnd, List.length_cons, Bool.and_eq_true, decide_eq_true_eq, bne_iff_ne] at h ⊢
        refine ⟨by omega, fun hlast => h.2 ?_⟩
        rw [List.getLast?_cons, hlast]
        rfl

/-- **A call that has not met the end of the file** takes the same whatever follows. -/
theorem takeLine_complete (h : metEnd n (takeLine n file).1 = false) (rest : List UInt8) :
    takeLine n ((takeLine n file).1 ++ rest) = ((takeLine n file).1, rest) := by
  induction file generalizing n with
  | nil =>
    cases n with
    | zero => rfl
    | succ n => simp [metEnd, takeLine] at h
  | cons c file ih =>
    cases n with
    | zero => rfl
    | succ n =>
      rw [takeLine] at h ⊢
      split at h
      · rename_i hc
        rw [if_pos hc]
        subst hc
        rfl
      · rename_i hc
        rw [if_neg hc]
        have hrest : metEnd n (takeLine n file).1 = false := by
          by_contra hmet
          rw [Bool.not_eq_false] at hmet
          simp only [metEnd, List.length_cons, Bool.and_eq_true, decide_eq_true_eq, bne_iff_ne,
            Bool.and_eq_false_iff, decide_eq_false_iff_not, bne_eq_false_iff_eq] at h hmet
          obtain h | h := h
          · omega
          · rw [List.getLast?_cons] at h
            cases hlast : (takeLine n file).1.getLast? with
            | none =>
              rw [hlast] at h
              exact hc (Option.some.inj h)
            | some d =>
              rw [hlast] at h hmet
              exact hmet.2 h
        rw [List.cons_append, takeLine, if_neg hc, ih hrest]

/-! ## Chunks -/

theorem takeLine_nil (n : ℕ) : takeLine n [] = ([], []) := by cases n <;> rfl

theorem readAll_nil (n fuel : ℕ) : readAll n fuel [] = [] := by
  cases fuel with
  | zero => rfl
  | succ fuel => rw [readAll, fgets, takeLine_nil, if_pos rfl]

@[simp] theorem chunks_nil (n : ℕ) : chunks n [] = [] := rfl

section Chunks

variable (hn : 2 ≤ n)

include hn

theorem length_fgets_lt (h : file ≠ []) : (fgets n file).2.length < file.length := by
  have hlen := congrArg List.length (takeLine_append (n - 1) file)
  have hpos := List.length_pos_iff.2 (takeLine_ne_nil (show 0 < n - 1 by omega) h)
  rw [List.length_append] at hlen
  show (takeLine (n - 1) file).2.length < file.length
  omega

/-- **Induction over the reading of a file.**  What holds at its end, and of a file if it holds of
what the next call leaves, holds of every file. -/
theorem fgets_induction {P : List UInt8 → Prop} (nil : P [])
    (step : ∀ file, file ≠ [] → P (fgets n file).2 → P file) (file : List UInt8) : P file := by
  have hany : ∀ k, ∀ file : List UInt8, file.length ≤ k → P file := by
    intro k
    induction k with
    | zero =>
      intro file hk
      rw [List.length_eq_zero_iff.1 (Nat.le_zero.1 hk)]
      exact nil
    | succ k ih =>
      intro file hk
      by_cases hfile : file = []
      · rw [hfile]
        exact nil
      · have hlt := length_fgets_lt hn hfile
        exact step file hfile (ih _ (by omega))
  exact hany _ file le_rfl

/-- More calls than there are bytes make no difference. -/
theorem readAll_eq {fuel' : ℕ} (hfuel : file.length ≤ fuel) (hfuel' : file.length ≤ fuel') :
    readAll n fuel file = readAll n fuel' file := by
  induction file using fgets_induction hn generalizing fuel fuel' with
  | nil => rw [readAll_nil, readAll_nil]
  | step file hfile ih =>
    have hlt := length_fgets_lt hn hfile
    obtain ⟨k, rfl⟩ := Nat.exists_eq_add_of_lt (show 0 < fuel by omega)
    obtain ⟨k', rfl⟩ := Nat.exists_eq_add_of_lt (show 0 < fuel' by omega)
    have hsame : readAll n (0 + k) (fgets n file).2 = readAll n (0 + k') (fgets n file).2 :=
      ih (by omega) (by omega)
    rw [readAll, readAll, hsame]

/-- The first chunk, and the chunks of what it leaves. -/
theorem chunks_of_ne_nil (h : file ≠ []) :
    chunks n file = (fgets n file).1 :: chunks n (fgets n file).2 := by
  have hlt := length_fgets_lt hn h
  obtain ⟨k, hk⟩ := Nat.exists_eq_add_of_lt (Nat.zero_lt_of_lt hlt)
  have hfirst : (fgets n file).1 ≠ [] := takeLine_ne_nil (by omega) h
  rw [chunks, hk, readAll, if_neg hfirst, chunks, readAll_eq hn (by omega) le_rfl]

/-- **A file that ends a line can be read up to there on its own.** -/
theorem chunks_append (ha : EndsLine a) (b : List UInt8) :
    chunks n (a ++ b) = chunks n a ++ chunks n b := by
  induction a using fgets_induction hn with
  | nil => rfl
  | step a hne ih =>
    have hrest : EndsLine (fgets n a).2 := endsLine_takeLine ha (n - 1)
    obtain ⟨a, rfl⟩ := ha.resolve_left hne
    have hfgets : fgets n (a ++ [10] ++ b) =
        ((fgets n (a ++ [10])).1, (fgets n (a ++ [10])).2 ++ b) :=
      takeLine_append_right (by omega) a b
    rw [chunks_of_ne_nil hn (show a ++ [10] ++ b ≠ [] by simp), hfgets,
      chunks_of_ne_nil hn hne, List.cons_append, ih hrest]

/-- A chunk that has not met the end of the file stands at the front of a file that has grown. -/
theorem chunks_complete (hne : file ≠ []) (h : metEnd (n - 1) (fgets n file).1 = false)
    (rest : List UInt8) : chunks n ((fgets n file).1 ++ rest) = (fgets n file).1 :: chunks n rest := by
  have hfirst : (fgets n file).1 ≠ [] := takeLine_ne_nil (by omega) hne
  have hfgets : fgets n ((fgets n file).1 ++ rest) = ((fgets n file).1, rest) := takeLine_complete h rest
  rw [chunks_of_ne_nil hn (by simp [hfirst]), hfgets]

/-- What one call takes is one chunk. -/
theorem chunks_fgets (hne : file ≠ []) : chunks n (fgets n file).1 = [(fgets n file).1] := by
  cases hmet : metEnd (n - 1) (fgets n file).1 with
  | false =>
    have hchunks := chunks_complete hn hne hmet []
    rwa [List.append_nil, chunks_nil] at hchunks
  | true =>
    -- the chunk is all that was left of the file
    have hrest : (fgets n file).2 = [] := takeLine_metEnd hmet
    have hall : (fgets n file).1 = file := by
      have hsplit : (fgets n file).1 ++ (fgets n file).2 = file := takeLine_append _ file
      rwa [hrest, List.append_nil] at hsplit
    have hchunks := chunks_of_ne_nil hn hne
    rw [hrest, chunks_nil] at hchunks
    rw [hall]
    rwa [hall] at hchunks

/-- Every chunk fits the buffer with its terminator. -/
theorem length_of_mem_chunks (h : c ∈ chunks n file) : 0 < c.length ∧ c.length < n := by
  induction file using fgets_induction hn with
  | nil => simp at h
  | step file hfile ih =>
    rw [chunks_of_ne_nil hn hfile, List.mem_cons] at h
    rcases h with rfl | h
    · have hlen : (fgets n file).1.length ≤ n - 1 := length_takeLine_le (n - 1) file
      exact ⟨List.length_pos_iff.2 (takeLine_ne_nil (by omega) hfile), by omega⟩
    · exact ih h

/-- The next line is a chunk of its own. -/
theorem chunks_line (hline : (10 : UInt8) ∉ head) (hlen : head.length + 1 < n) :
    chunks n (head ++ 10 :: rest) = (head ++ [10]) :: chunks n rest := by
  have hfgets : fgets n (head ++ 10 :: rest) = (head ++ [10], rest) := by
    obtain ⟨k, hk⟩ : ∃ k, n - 1 - head.length = k + 1 := ⟨n - 1 - head.length - 1, by omega⟩
    rw [fgets, takeLine_append_left hline (by omega), hk, takeLine, if_pos rfl]
  rw [chunks_of_ne_nil hn (by simp), hfgets]

/-- So is what stands at the end of the file. -/
theorem chunks_last (hne : head ≠ []) (hline : (10 : UInt8) ∉ head) (hlen : head.length < n) :
    chunks n head = [head] := by
  have hfgets : fgets n head = (head, []) := by
    have htake := @takeLine_append_left (n - 1) head [] hline (by omega)
    rwa [takeLine_nil, List.append_nil] at htake
  rw [chunks_of_ne_nil hn hne, hfgets, chunks_nil]

end Chunks

/-! ## Lines that fit -/

/-- Lines that fit a buffer of `n` bytes with their terminator; each but the last ends. -/
def Lines (n : ℕ) : List (List UInt8) → Prop
  | [] => True
  | [line] => line ≠ [] ∧ line.length < n ∧ (10 : UInt8) ∉ line.dropLast
  | line :: next :: lines =>
      (line.length < n ∧ (10 : UInt8) ∉ line.dropLast ∧ line.getLast? = some 10) ∧
        Lines n (next :: lines)

/-- **Lines that fit are read whole.** -/
theorem chunks_flatten (hn : 2 ≤ n) {lines : List (List UInt8)} (h : Lines n lines) :
    chunks n lines.flatten = lines := by
  have hends : ∀ {line : List UInt8}, line.getLast? = some 10 → line = line.dropLast ++ [10] := by
    intro line hlast
    exact (List.dropLast_append_getLast? 10 hlast).symm
  induction lines with
  | nil => rfl
  | cons line lines ih =>
    cases lines with
    | nil =>
      obtain ⟨hne, hlen, hmem⟩ := h
      rw [List.flatten_cons, List.flatten_nil, List.append_nil]
      by_cases hlast : line.getLast? = some 10
      · have hdrop := congrArg List.length (hends hlast)
        rw [List.length_append, List.length_singleton] at hdrop
        rw [hends hlast, chunks_line hn hmem (by omega), chunks_nil]
      · refine chunks_last hn hne (fun h10 => ?_) hlen
        rw [← List.dropLast_append_getLast hne, List.mem_append, List.mem_singleton] at h10
        rcases h10 with h10 | h10
        · exact hmem h10
        · exact hlast (by rw [List.getLast?_eq_some_getLast hne, h10])
    | cons next lines =>
      obtain ⟨⟨hlen, hmem, hlast⟩, hrest⟩ := h
      have hdrop := congrArg List.length (hends hlast)
      rw [List.length_append, List.length_singleton] at hdrop
      rw [List.flatten_cons, hends hlast, List.append_assoc, List.singleton_append,
        chunks_line hn hmem (by omega), ih hrest]

/-- Lines that each get a line end, and what follows the last one. -/
theorem chunks_flatMap (hn : 2 ≤ n) {lines : List (List UInt8)}
    (h : ∀ line ∈ lines, (10 : UInt8) ∉ line ∧ line.length + 1 < n) (rest : List UInt8) :
    chunks n (lines.flatMap (fun line => line ++ [10]) ++ rest) =
      lines.map (fun line => line ++ [10]) ++ chunks n rest := by
  induction lines with
  | nil => rfl
  | cons line lines ih =>
    obtain ⟨hline, hlen⟩ := h line (by simp)
    rw [List.flatMap_cons, List.append_assoc, List.append_assoc, List.singleton_append,
      chunks_line hn hline hlen, ih fun l hl => h l (by simp [hl]), List.map_cons, List.cons_append]

/-! ## The buffer -/

/-- The C string at the start of a buffer. -/
def cstr (buf : List UInt8) : List UInt8 := buf.takeWhile fun c => c != 0

/-- A buffer after bytes and a terminator have been put at its start. -/
def load (chunk buf : List UInt8) : List UInt8 := chunk ++ 0 :: buf.drop (chunk.length + 1)

variable {buf buf' chunk : List UInt8}

theorem cstr_append_zero (s t : List UInt8) : cstr (s ++ 0 :: t) = cstr s := by
  induction s with
  | nil => rfl
  | cons c s ih =>
    by_cases hc : c = 0
    · subst hc
      rfl
    · simpa [cstr, hc] using ih

theorem cstr_append_of_not_mem {s : List UInt8} (h : (0 : UInt8) ∉ s) (t : List UInt8) :
    cstr (s ++ t) = s ++ cstr t := by
  apply List.takeWhile_append_of_pos
  intro c hc
  have hne : c ≠ 0 := fun hzero => h (hzero ▸ hc)
  simpa using hne

theorem cstr_of_not_mem {s : List UInt8} (h : (0 : UInt8) ∉ s) : cstr s = s := by
  have hcopy := cstr_append_of_not_mem h []
  rwa [List.append_nil, show cstr [] = [] from rfl, List.append_nil] at hcopy

theorem drop_load {k : ℕ} (h : k ≤ chunk.length) : (load chunk buf).drop k =
    chunk.drop k ++ 0 :: buf.drop (chunk.length + 1) := by
  rw [load, List.drop_append_of_le_length h]

/-- The C string at a place inside the chunk does not see what the buffer held before. -/
theorem cstr_drop_load {k : ℕ} (h : k ≤ chunk.length) :
    cstr ((load chunk buf).drop k) = cstr (chunk.drop k) := by
  rw [drop_load h, cstr_append_zero]

end Stdio

import EasyIpc.Cat

/-!
# The name column of the log

What `ipcd_misc_cat` reads back of the name that `ipcd_log_save_and_print` has put into a record.

* `tempStrPname_eq` — the name is cut at the first blank behind its first byte.
* `cutTail_take_iff` — the column gives a name back exactly if it has at most 32 bytes and no blank.
* `tempStrPname_recordStart` — what is read of the first line of a record.
-/

namespace EasyIpc

open Printf Stdio

variable {readline buf line : List UInt8} {p : CStr}

/-! ## Cutting the padding -/

/-- A name up to the first blank behind its first byte. -/
def cutTail : CStr → CStr
  | [] => []
  | c :: name => c :: name.takeWhile fun c => c != 32

/-- A blank becomes a terminator. -/
def blankOut (c : UInt8) : UInt8 := if c = 32 then 0 else c

theorem set_eq_blankOut (u v : List UInt8) (x : UInt8) :
    (if (u ++ x :: v)[u.length]? = some 32 then (u ++ x :: v).set u.length 0 else u ++ x :: v) =
      u ++ blankOut x :: v := by
  have hget : (u ++ x :: v)[u.length]? = some x := by simp
  have hset : (u ++ x :: v).set u.length 0 = u ++ 0 :: v := by simp
  rw [hget, hset, blankOut]
  by_cases h32 : x = 32
  · rw [if_pos (by rw [h32]), if_pos h32]
  · rw [if_neg (by simpa using h32), if_neg h32]

/-- The loop blanks out the bytes behind the first one, as far as it goes. -/
theorem delTailLoop_cons (n : ℕ) (c : UInt8) (rest : List UInt8) :
    delTailLoop n (c :: rest) = c :: ((rest.take n).map blankOut ++ rest.drop n) := by
  induction n generalizing rest with
  | zero => rfl
  | succ i ih =>
    have hset : (if (c :: rest)[i + 1]? = some 32 then (c :: rest).set (i + 1) 0 else c :: rest) =
        c :: (if rest[i]? = some 32 then rest.set i 0 else rest) := by
      rw [List.getElem?_cons_succ]
      split <;> rfl
    rw [delTailLoop, hset, ih]
    congr 1
    by_cases hi : i < rest.length
    · obtain ⟨u, x, v, rfl, rfl⟩ : ∃ u x v, rest = u ++ x :: v ∧ u.length = i := by
        refine ⟨rest.take i, rest[i], rest.drop (i + 1), ?_, ?_⟩
        · rw [← List.drop_eq_getElem_cons hi, List.take_append_drop]
        · rw [List.length_take]
          omega
      have hsplit : u ++ x :: v = (u ++ [x]) ++ v := by simp
      have hlen : u.length + 1 = (u ++ [x]).length := by simp
      rw [set_eq_blankOut, List.take_left, List.drop_left, hsplit, hlen, List.take_left,
        List.drop_left, List.map_append, List.append_assoc]
      rfl
    · have hnone : rest[i]? = none := List.getElem?_eq_none (by omega)
      rw [hnone, if_neg (by simp), List.take_of_length_le (by omega),
        List.take_of_length_le (by omega), List.drop_of_length_le (by omega),
        List.drop_of_length_le (by omega)]

theorem cstr_blankOut (rest : List UInt8) {n : ℕ} (h : (cstr rest).length ≤ n) :
    cstr ((rest.take n).map blankOut ++ rest.drop n) = (cstr rest).takeWhile fun c => c != 32 := by
  induction rest generalizing n with
  | nil => simp [cstr]
  | cons c rest ih =>
    by_cases hzero : c = 0
    · subst hzero
      cases n <;> simp [cstr, blankOut]
    · have hcstr : cstr (c :: rest) = c :: cstr rest := by simp [cstr, hzero]
      rw [hcstr] at h ⊢
      cases n with
      | zero => simp at h
      | succ n =>
        by_cases hblank : c = 32
        · subst hblank
          simp [cstr, blankOut]
        · have hih := ih (Nat.le_of_succ_le_succ h)
          simpa [cstr, blankOut, hblank, hzero] using hih

/-- `ipcd_misc_del_tail_spec` cuts a string at the first blank behind its first byte. -/
theorem cstr_ipcdMiscDelTailSpec (str : List UInt8) :
    cstr (ipcdMiscDelTailSpec str) = cutTail (cstr str) := by
  cases str with
  | nil => rfl
  | cons c rest =>
    rw [ipcdMiscDelTailSpec, delTailLoop_cons]
    by_cases hzero : c = 0
    · subst hzero
      rfl
    · have hcons : ∀ l : List UInt8, cstr (c :: l) = c :: cstr l := fun l => by simp [cstr, hzero]
      rw [hcons, hcons, List.length_cons, cstr_blankOut rest (Nat.le_succ _), cutTail]

theorem tempStrPname_eq (readline : List UInt8) :
    tempStrPname readline = cutTail (cstr ((readline.drop 4).take 32)) := by
  rw [tempStrPname, cstr_ipcdMiscDelTailSpec, cstr_append_zero]

/-! ## The column of a record -/

/-- A name that a member can have: of 1 to 63 bytes, without a line break, and without a blank at
either end. -/
structure MemberName (p : CStr) : Prop where
  ne_nil : p ≠ []
  length_lt : p.length < processNameMaxSize
  no_nul : (0 : UInt8) ∉ p
  no_line_break : (10 : UInt8) ∉ p ∧ (13 : UInt8) ∉ p
  head_ne_blank : p.head? ≠ some 32
  last_ne_blank : p.getLast? ≠ some 32

theorem nameColumn_eq (p : CStr) : nameColumn p = p ++ List.replicate (32 - p.length) 32 := rfl

theorem take_nameColumn (p : CStr) :
    (nameColumn p).take 32 = p.take 32 ++ List.replicate (32 - p.length) 32 := by
  rw [nameColumn_eq, List.take_append, List.take_replicate, Nat.min_self]

theorem cstr_take_nameColumn (hzero : (0 : UInt8) ∉ p) :
    cstr ((nameColumn p).take 32) = p.take 32 ++ List.replicate (32 - p.length) 32 := by
  rw [take_nameColumn]
  apply cstr_of_not_mem
  intro h
  rw [List.mem_append, List.mem_replicate] at h
  rcases h with h | ⟨-, h⟩
  · exact hzero (List.mem_of_mem_take h)
  · exact absurd h (by decide)

/-- A name that the column can hold is read of it. -/
theorem cutTail_column (hne : p ≠ []) (hlen : p.length ≤ 32) (htail : (32 : UInt8) ∉ p.tail)
    (hzero : (0 : UInt8) ∉ p) : cutTail (cstr ((nameColumn p).take 32)) = p := by
  rw [cstr_take_nameColumn hzero, List.take_of_length_le hlen]
  cases p with
  | nil => exact absurd rfl hne
  | cons c name =>
    have hall : ∀ x ∈ name, (x != 32) = true := by
      intro x hx
      simpa using fun h32 : x = 32 => htail (h32 ▸ hx)
    have hfill : (List.replicate (32 - (c :: name).length) (32 : UInt8)).takeWhile
        (fun c => c != 32) = [] := by
      cases 32 - (c :: name).length <;> simp [List.replicate_succ]
    rw [List.cons_append, cutTail, List.takeWhile_append_of_pos hall, hfill, List.append_nil]

/-- The padding is cut off. -/
theorem cutTail_nameColumn (hp : MemberName p) :
    cutTail (cstr ((nameColumn p).take 32)) = cutTail (p.take 32) := by
  rw [cstr_take_nameColumn hp.no_nul]
  cases p with
  | nil => exact absurd rfl hp.ne_nil
  | cons c name =>
    rw [List.take_succ_cons, List.cons_append, cutTail, cutTail, List.takeWhile_append]
    split
    · rename_i hall
      have hfill : (List.replicate (32 - (c :: name).length) (32 : UInt8)).takeWhile
          (fun c => c != 32) = [] := by
        cases 32 - (c :: name).length <;> simp [List.replicate_succ]
      rw [hfill, List.append_nil, (List.takeWhile_prefix _).eq_of_length hall]
    · rfl

/-- The first 32 bytes of the column, read as the name. -/
theorem cutTail_take_iff (hp : MemberName p) :
    cutTail (p.take 32) = p ↔ p.length ≤ 32 ∧ (32 : UInt8) ∉ p := by
  rw [← cutTail_nameColumn hp]
  refine ⟨fun h => ?read, fun ⟨hshort, hblank⟩ => ?column⟩
  case column =>
    exact cutTail_column hp.ne_nil hshort (fun h => hblank (List.mem_of_mem_tail h)) hp.no_nul
  case read =>
    rw [cstr_take_nameColumn hp.no_nul] at h
    cases p with
    | nil => exact absurd rfl hp.ne_nil
    | cons c name =>
      have hc : c ≠ 32 := by simpa using hp.head_ne_blank
      rw [List.take_succ_cons, List.cons_append, cutTail] at h
      -- what comes before the first blank has no blank and is no longer than the column
      have htail := (List.cons.inj h).2
      have hno : (32 : UInt8) ∉ name := by
        rw [← htail]
        intro hmem
        simpa using List.mem_takeWhile_imp hmem
      have hlen : (c :: name).length = name.length + 1 := rfl
      have hle : ((name.take 31 ++ List.replicate (32 - (c :: name).length) 32).takeWhile
          fun c => c != 32).length ≤ _ := (List.takeWhile_prefix _).length_le
      rw [htail, List.length_append, List.length_take, List.length_replicate] at hle
      refine ⟨by omega, ?_⟩
      rw [List.mem_cons, not_or]
      exact ⟨Ne.symm hc, hno⟩

/-- A record up to the name. -/
def recordStart (tlt : IpcLogType) (level : ℤ) (pname : CStr) : CStr :=
  tlt.char ++ (bytes " " ++ (levelChar level ++ (bytes " " ++ nameColumn pname)))

section Column

variable {lib : Library} {ptime : Timespec} {tlt : IpcLogType} {level : ℤ} {body : CStr}

theorem levelChar_singleton (level : ℤ) : ∃ l, levelChar level = [l] ∧ l ≠ 10 := by
  unfold levelChar
  split_ifs
  · exact ⟨69, rfl, by decide⟩
  · exact ⟨87, rfl, by decide⟩
  · exact ⟨78, rfl, by decide⟩
  · exact ⟨73, rfl, by decide⟩
  · exact ⟨68, rfl, by decide⟩
  · exact ⟨63, rfl, by decide⟩

/-- Four bytes and the column, without a line end. -/
theorem recordStart_spec (hp : MemberName p) : ∃ t l, recordStart tlt level p =
    t :: 32 :: l :: 32 :: nameColumn p ∧ (10 : UInt8) ∉ recordStart tlt level p ∧
      (recordStart tlt level p).length ≤ 67 := by
  obtain ⟨t, ht, htmem⟩ := char_eq tlt
  obtain ⟨l, hl, hl10⟩ := levelChar_singleton level
  have hshape : recordStart tlt level p = t :: 32 :: l :: 32 :: nameColumn p := by
    rw [recordStart, ht, hl]
    rfl
  have ht10 : t ≠ 10 := by
    rintro rfl
    exact absurd htmem (by decide)
  have hcolumn : (10 : UInt8) ∉ nameColumn p := by
    rw [nameColumn_eq, List.mem_append, List.mem_replicate, not_or]
    exact ⟨hp.no_line_break.1, fun h => absurd h.2 (by decide)⟩
  have hlen : (nameColumn p).length ≤ 63 := by
    have hlt : p.length < 64 := hp.length_lt
    rw [nameColumn_eq, List.length_append, List.length_replicate]
    omega
  refine ⟨t, l, hshape, ?_, ?_⟩
  · rw [hshape]
    simp only [List.mem_cons, not_or]
    exact ⟨Ne.symm ht10, by decide, Ne.symm hl10, by decide, hcolumn⟩
  · rw [hshape]
    simp only [List.length_cons]
    omega

/-- The name that is read of a line that begins as a record: the first 32 bytes up to the first
blank behind the first byte. -/
theorem tempStrPname_recordStart (hp : MemberName p) (rest : List UInt8) :
    tempStrPname (recordStart tlt level p ++ rest) = cutTail (p.take 32) := by
  obtain ⟨t, l, hshape, -, -⟩ := @recordStart_spec p tlt level hp
  have hdrop : (recordStart tlt level p ++ rest).drop 4 = nameColumn p ++ rest := by
    rw [hshape]
    rfl
  rw [tempStrPname_eq, hdrop, List.take_append_of_le_length (le_length_nameColumn p),
    cutTail_nameColumn hp]

theorem take_recordStart (hp : MemberName p) (rest : List UInt8) {n : ℕ} (hn : 67 ≤ n) :
    (recordStart tlt level p ++ rest).take n =
      recordStart tlt level p ++ rest.take (n - (recordStart tlt level p).length) := by
  obtain ⟨-, -, -, -, hlen⟩ := @recordStart_spec p tlt level hp
  rw [List.take_append, List.take_of_length_le (by omega)]

/-- The record of a member begins with its name in the column, whatever is cut off behind it. -/
theorem saveBuf_eq_recordStart (hp : MemberName p) : ∃ rest,
    saveBuf lib ptime tlt level p body = recordStart tlt level p ++ rest := by
  have hheader : recordHeader ptime tlt level p ++ body =
      recordStart tlt level p ++ (recordStamp ptime ++ body) := by
    simp only [recordHeader_eq, recordStart, List.append_assoc]
  rw [saveBuf_eq, hheader, snprintf, take_recordStart hp _ (by decide)]
  exact ⟨_, rfl⟩

/-- So does the line that is read of it. -/
theorem fgets_recordStart (hp : MemberName p) (rest : List UInt8) : ∃ rest',
    (fgets ipcCmdlineMaxSize (recordStart tlt level p ++ rest)).1 =
      recordStart tlt level p ++ rest' := by
  obtain ⟨-, -, -, hline, hlen⟩ := @recordStart_spec p tlt level hp
  have hmax : ipcCmdlineMaxSize = 4096 := rfl
  rw [fgets, takeLine_append_left hline (by omega)]
  exact ⟨_, rfl⟩

/-- The name that is put into the records of a member. -/
theorem logPname_eq {mlist : List MlistMember} {pid : ℤ} {m : MlistMember} (hpid : pid > 0)
    (hm : ipcdGetMlistViaPid mlist pid = some m) (hp : MemberName m.pname) :
    logPname mlist pid = m.pname := by
  have hget : ipcdGetPnameViaPid mlist pid = m.pname := by
    rw [ipcdGetPnameViaPid, hm]
    exact snprintf_of_lt hp.length_lt
  have hpos := List.length_pos_iff.2 hp.ne_nil
  rw [logPname, if_pos hpid, hget, if_neg (by omega)]

end Column

end EasyIpc

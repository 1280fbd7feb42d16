import EasyIpc.CatNames

/-!
# What earlier lines do to a line

Two runs of `ipcd_misc_cat` over two files that have a line in common.  The buffer keeps what an
earlier, longer line has left behind the terminator, and the tests look at fixed places in it.

* `OnItsOwn` — whether a line is printed does not depend on the files around it.
* `own_merits` — that is so exactly if every test that can decide about the line looks inside it.
* `history_decides` — where it is not so, the line before alone shows or hides the line.
-/

namespace EasyIpc

open Printf Stdio

variable {icpp : CliPrintPacket} {lineEnd p : CStr} {line buf : List UInt8} {s : CatState}

/-! ## What the tests see of a line -/

theorem cstr_take_append_zero (l t : List UInt8) (n : ℕ) :
    cstr ((l ++ 0 :: t).take n) = cstr (l.take n) := by
  by_cases hn : n ≤ l.length
  · rw [List.take_append_of_le_length hn]
  · obtain ⟨k, hk⟩ := Nat.exists_eq_add_of_lt (Nat.lt_of_not_le hn)
    have htake : (0 :: t).take (n - l.length) = 0 :: t.take k := by
      rw [hk, show l.length + k + 1 - l.length = k + 1 by omega, List.take_succ_cons]
    rw [List.take_append, htake, cstr_append_zero]

/-- The name column of a line that reaches it. -/
theorem tempStrPname_load (h : 4 ≤ line.length) (buf : List UInt8) :
    tempStrPname (load line buf) = tempStrPname line := by
  rw [tempStrPname_eq, tempStrPname_eq, drop_load h, cstr_take_append_zero]

/-- What can be read of the column: at most 32 bytes, without a blank behind the first. -/
theorem tempStrPname_spec (readline : List UInt8) :
    (tempStrPname readline).length ≤ 32 ∧ (32 : UInt8) ∉ (tempStrPname readline).tail := by
  have hlen : (cstr ((readline.drop 4).take 32)).length ≤ 32 :=
    (List.takeWhile_prefix _).length_le.trans (List.length_take_le 32 _)
  rw [tempStrPname_eq]
  generalize cstr ((readline.drop 4).take 32) = name at hlen
  cases name with
  | nil => simp [cutTail]
  | cons c name =>
    have htail : (name.takeWhile fun c => c != 32).length ≤ name.length :=
      (List.takeWhile_prefix _).length_le
    refine ⟨Nat.le_trans (Nat.succ_le_succ htail) hlen, fun h => ?_⟩
    simpa using List.mem_takeWhile_imp h

/-- Whether the line is long, and its letters, are seen in the line itself. -/
theorem kindPasses_load (buf : List UInt8) :
    KindPasses icpp (load line buf) ↔ KindPasses icpp (load line []) := by
  have hcstr : ∀ buf, cstr (load line buf) = cstr line := fun _ => cstr_append_zero _ _
  have hshort : (cstr line).length ≤ line.length := (List.takeWhile_prefix _).length_le
  unfold KindPasses
  rw [hcstr, hcstr]
  by_cases hlen : (cstr line).length ≤ 48
  · simp only [hlen, true_or]
  · have htype : ∀ buf, (load line buf).take 1 = line.take 1 := by
      intro buf
      rw [load, List.take_append_of_le_length (by omega)]
    have hlevel : ∀ buf, ((load line buf).drop 2).take 1 = (line.drop 2).take 1 := by
      intro buf
      rw [drop_load (by omega), List.take_append_of_le_length (by rw [List.length_drop]; omega)]
    rw [htype, htype, hlevel, hlevel]

/-- The line can pass the filter of the name: it has the name, or it does not reach the column and
the column can hold the name. -/
def CanPass (icpp : CliPrintPacket) (line : List UInt8) : Prop :=
  icpp.printfLogPname = [] ∨ (4 ≤ line.length ∧ icpp.printfLogPname = tempStrPname line) ∨
    (line.length < 4 ∧ icpp.printfLogPname.length ≤ 32 ∧ (32 : UInt8) ∉ icpp.printfLogPname.tail)

/-- The tests that are made look inside the line. -/
def Reaches (icpp : CliPrintPacket) (line : List UInt8) : Prop :=
  (icpp.printfLogPname ≠ [] → 4 ≤ line.length) ∧ (icpp.keyWord ≠ [] → 33 ≤ line.length)

theorem canPass_of_namePasses (h : NamePasses icpp (load line buf)) : CanPass icpp line := by
  rcases h with hnone | hname
  · exact Or.inl hnone
  · by_cases hlen : 4 ≤ line.length
    · rw [tempStrPname_load hlen] at hname
      exact Or.inr (Or.inl ⟨hlen, hname⟩)
    · refine Or.inr (Or.inr ⟨by omega, ?_⟩)
      rw [hname]
      exact tempStrPname_spec _

/-- The test of a line that the tests look inside of. -/
theorem shown_iff_of_reaches (h : CanPass icpp line → Reaches icpp line) (buf : List UInt8)
    (color : UInt8) : (catLine icpp lineEnd (load line buf) color).1.isSome ↔
      CanPass icpp line ∧ KeywordIn icpp.keyWord (cstr (line.drop 33)) ∧
        KindPasses icpp (load line []) := by
  rw [isSome_catLine_iff, kindPasses_load]
  by_cases hpass : CanPass icpp line
  · obtain ⟨hname, hkey⟩ := h hpass
    have hkeyword : KeywordIn icpp.keyWord (cstr ((load line buf).drop 33)) ↔
        KeywordIn icpp.keyWord (cstr (line.drop 33)) := by
      by_cases hnone : icpp.keyWord = []
      · simp only [KeywordIn, hnone, true_or]
      · rw [cstr_drop_load (hkey hnone)]
    have hpasses : NamePasses icpp (load line buf) := by
      rcases hpass with hnone | ⟨hlen, hcolumn⟩ | ⟨hlen, -⟩
      · exact Or.inl hnone
      · exact Or.inr (by rw [tempStrPname_load hlen, hcolumn])
      · by_cases hnone : icpp.printfLogPname = []
        · exact Or.inl hnone
        · have := hname hnone
          omega
    simp only [hkeyword, hpasses, hpass, true_and]
  · have hno : ¬ NamePasses icpp (load line buf) := mt canPass_of_namePasses hpass
    simp only [hno, hpass, false_and]

/-! ## What decides about a line that is too short -/

/-- A filter as the console sends it: two C strings that fit their fields. -/
structure Filter (icpp : CliPrintPacket) : Prop where
  pname_no_nul : (0 : UInt8) ∉ icpp.printfLogPname
  pname_lt : icpp.printfLogPname.length < processNameMaxSize
  keyWord_no_nul : (0 : UInt8) ∉ icpp.keyWord
  keyWord_lt : icpp.keyWord.length < 64

/-- The buffer holds the name that is asked for in its column, and the keyword behind it. -/
def Matching (icpp : CliPrintPacket) (buf : List UInt8) : Prop :=
  ∃ t, buf.drop 4 = nameColumn icpp.printfLogPname ++ (icpp.keyWord ++ t)

/-- The buffer holds terminators at the two places. -/
def Empty (buf : List UInt8) : Prop := (∃ t, buf.drop 4 = 0 :: t) ∧ ∃ t, buf.drop 33 = 0 :: t

/-- What the buffer holds behind a line. -/
theorem drop_load_of_lt {k : ℕ} (h : line.length < k) (buf : List UInt8) :
    (load line buf).drop k = buf.drop k := by
  have hcons : ∀ l : List UInt8, line ++ 0 :: l = (line ++ [0]) ++ l := fun l => by simp
  rw [load, hcons, List.drop_append, List.drop_of_length_le (by simp; omega), List.nil_append,
    List.drop_drop]
  congr 1
  simp only [List.length_append, List.length_singleton]
  omega

/-- A short line is shown behind a matching buffer. -/
theorem shown_of_matching (hf : Filter icpp) (hpass : CanPass icpp line) (hlen : line.length < 33)
    (hbuf : Matching icpp buf) (color : UInt8) :
    (catLine icpp lineEnd (load line buf) color).1.isSome := by
  obtain ⟨t, ht⟩ := hbuf
  rw [isSome_catLine_iff]
  refine ⟨?name, ?keyword, ?kind⟩
  case name =>
    rcases hpass with hnone | ⟨hlong, hcolumn⟩ | ⟨hshort, hfit, htail⟩
    · exact Or.inl hnone
    · exact Or.inr (by rw [tempStrPname_load hlong, hcolumn])
    · by_cases hnone : icpp.printfLogPname = []
      · exact Or.inl hnone
      · refine Or.inr ?_
        rw [tempStrPname_eq, drop_load_of_lt hshort, ht,
          List.take_append_of_le_length (le_length_nameColumn _),
          cutTail_column hnone hfit htail hf.pname_no_nul]
  case keyword =>
    have hdrop : buf.drop 33 = (nameColumn icpp.printfLogPname).drop 29 ++ (icpp.keyWord ++ t) := by
      have hcolumn := le_length_nameColumn icpp.printfLogPname
      rw [show 33 = 4 + 29 from rfl, ← List.drop_drop, ht,
        List.drop_append_of_le_length (by omega)]
    have hfill : (0 : UInt8) ∉ (nameColumn icpp.printfLogPname).drop 29 := by
      intro h
      have hmem := List.mem_of_mem_drop h
      rw [nameColumn_eq, List.mem_append, List.mem_replicate] at hmem
      rcases hmem with hmem | ⟨-, hmem⟩
      · exact hf.pname_no_nul hmem
      · exact absurd hmem (by decide)
    refine Or.inr ?_
    rw [drop_load_of_lt hlen, hdrop, cstr_append_of_not_mem hfill,
      cstr_append_of_not_mem hf.keyWord_no_nul, List.map_append, List.map_append]
    exact ((List.prefix_append _ _).isInfix).trans (List.suffix_append _ _).isInfix
  case kind =>
    have hshort : (cstr line).length ≤ line.length := (List.takeWhile_prefix _).length_le
    refine Or.inl ?_
    rw [load, cstr_append_zero]
    omega

/-- It is hidden behind an empty one, if a test looks behind it. -/
theorem hidden_of_empty (hreach : ¬ Reaches icpp line) (hbuf : Empty buf) (color : UInt8) :
    ¬ (catLine icpp lineEnd (load line buf) color).1.isSome := by
  obtain ⟨⟨t, ht⟩, ⟨t', ht'⟩⟩ := hbuf
  rw [isSome_catLine_iff]
  rintro ⟨hname, hkey, -⟩
  rw [Reaches, not_and_or, Classical.not_imp, Classical.not_imp] at hreach
  rcases hreach with ⟨hne, hlen⟩ | ⟨hne, hlen⟩
  · have hread : tempStrPname (load line buf) = [] := by
      rw [tempStrPname_eq, drop_load_of_lt (by omega), ht]
      rfl
    rcases hname with hnone | hname
    · exact hne hnone
    · exact hne (hname.trans hread)
  · rcases hkey with hnone | hkey
    · exact hne hnone
    · rw [drop_load_of_lt (by omega), ht'] at hkey
      have hnil := List.eq_nil_of_infix_nil hkey
      exact hne (List.map_eq_nil_iff.1 hnil)

theorem length_lt_of_not_reaches (h : ¬ Reaches icpp line) : line.length < 33 := by
  rw [Reaches, not_and_or, Classical.not_imp, Classical.not_imp] at h
  omega

/-! ## Two runs -/

variable {lines : List (List UInt8)}

/-- Lines that fit the buffer are what the loop goes over. -/
theorem prints_flatten (h : Lines ipcCmdlineMaxSize lines) (i : ℕ) :
    (ipcdMiscCat icpp 0 (some lines.flatten) {} s).prints i =
      ((catLoop icpp [] lines s)[i]?).join.isSome := by
  rw [CatOutcome.prints, ipcdMiscCat_file, chunks_flatten (by decide) h]

/-- In any two runs, over two files that have the line at the same place, from any stack, the line
is printed in both or in neither. -/
def OnItsOwn (icpp : CliPrintPacket) (line : List UInt8) : Prop :=
  ∀ (lines₁ lines₂ : List (List UInt8)) (s₁ s₂ : CatState) (i : ℕ),
    Lines ipcCmdlineMaxSize lines₁ → Lines ipcCmdlineMaxSize lines₂ →
    s₁.readline.length = ipcCmdlineMaxSize → s₂.readline.length = ipcCmdlineMaxSize →
    lines₁[i]? = some line → lines₂[i]? = some line →
    ((ipcdMiscCat icpp 0 (some lines₁.flatten) {} s₁).prints i ↔
      (ipcdMiscCat icpp 0 (some lines₂.flatten) {} s₂).prints i)

/-- A stack that matches the filter. -/
def matchingState (icpp : CliPrintPacket) : CatState where
  readline := List.replicate 4 0 ++ (nameColumn icpp.printfLogPname ++ (icpp.keyWord ++
    List.replicate (ipcCmdlineMaxSize - (4 + (nameColumn icpp.printfLogPname).length +
      icpp.keyWord.length)) 0))
  lastColor := 0

theorem length_nameColumn_le (h : p.length < processNameMaxSize) : (nameColumn p).length ≤ 63 := by
  have hlt : p.length < 64 := h
  rw [nameColumn_eq, List.length_append, List.length_replicate]
  omega

theorem matchingState_spec (hf : Filter icpp) :
    (matchingState icpp).readline.length = ipcCmdlineMaxSize ∧
      Matching icpp (matchingState icpp).readline := by
  have hcolumn := length_nameColumn_le hf.pname_lt
  have hkey := hf.keyWord_lt
  have hmax : ipcCmdlineMaxSize = 4096 := rfl
  refine ⟨?_, _, rfl⟩
  simp only [matchingState, List.length_append, List.length_replicate]
  omega

theorem zeroState_spec : zeroState.readline.length = ipcCmdlineMaxSize ∧ Empty zeroState.readline := by
  have hdrop : ∀ k < ipcCmdlineMaxSize, ∃ t, zeroState.readline.drop k = 0 :: t := by
    intro k hk
    obtain ⟨n, hn⟩ := Nat.exists_eq_add_of_lt hk
    refine ⟨List.replicate n 0, ?_⟩
    rw [zeroState, List.drop_replicate, ← List.replicate_succ]
    congr 1
    omega
  exact ⟨List.length_replicate, hdrop 4 (by decide), hdrop 33 (by decide)⟩

/-- **When a line is shown or hidden on its own merits.**  For every filter and every line that fits
the buffer, what comes before the line makes no difference exactly if, where the line can pass the
filter of the name, it reaches the name column if a name is asked for and column 33 if a keyword
is. -/
theorem own_merits (hf : Filter icpp) (hline : Lines ipcCmdlineMaxSize [line]) :
    OnItsOwn icpp line ↔ (CanPass icpp line → Reaches icpp line) := by
  refine ⟨?depends, ?free⟩
  case free =>
    intro h lines₁ lines₂ s₁ s₂ i h₁ h₂ _ _ hget₁ hget₂
    rw [prints_flatten h₁, prints_flatten h₂,
      catLoop_prints_iff hget₁ fun _ _ => shown_iff_of_reaches h _ _,
      catLoop_prints_iff hget₂ fun _ _ => shown_iff_of_reaches h _ _]
  case depends =>
    intro hown hpass
    by_contra hreach
    obtain ⟨hlen₁, hmatch⟩ := matchingState_spec hf
    obtain ⟨hlen₂, hempty⟩ := zeroState_spec
    have hboth := hown [line] [line] (matchingState icpp) zeroState 0 hline hline hlen₁ hlen₂ rfl rfl
    rw [prints_flatten hline, prints_flatten hline] at hboth
    exact hidden_of_empty hreach hempty _
      (hboth.1 (shown_of_matching hf hpass (length_lt_of_not_reaches hreach) hmatch _))

/-- **The line before decides.**  A line that can pass and is too short for a test is shown behind
one line and hidden behind another, from whatever stack, if the filter can stand in a line. -/
theorem history_decides (hf : Filter icpp) (hpname : (10 : UInt8) ∉ icpp.printfLogPname)
    (hkey : (10 : UInt8) ∉ icpp.keyWord) (hline : Lines ipcCmdlineMaxSize [line])
    (hpass : CanPass icpp line) (hreach : ¬ Reaches icpp line) : ∃ before₁ before₂,
    Lines ipcCmdlineMaxSize [before₁, line] ∧ Lines ipcCmdlineMaxSize [before₂, line] ∧
      ∀ s, (ipcdMiscCat icpp 0 (some [before₁, line].flatten) {} s).prints 1 ∧
        ¬ (ipcdMiscCat icpp 0 (some [before₂, line].flatten) {} s).prints 1 := by
  have hcolumn := length_nameColumn_le hf.pname_lt
  have hkeyLen := hf.keyWord_lt
  have hmax : ipcCmdlineMaxSize = 4096 := rfl
  have hcolumn10 : (10 : UInt8) ∉ nameColumn icpp.printfLogPname := by
    rw [nameColumn_eq, List.mem_append, List.mem_replicate, not_or]
    exact ⟨hpname, fun h => absurd h.2 (by decide)⟩
  have hlines : ∀ start : List UInt8, (10 : UInt8) ∉ start → start.length < 200 →
      Lines ipcCmdlineMaxSize [start ++ [10], line] := by
    intro start h10 hlen
    refine ⟨⟨?_, ?_, ?_⟩, hline⟩
    · rw [List.length_append, List.length_singleton]
      omega
    · rwa [List.dropLast_concat]
    · exact List.getLast?_concat
  let before₁ := List.replicate 4 63 ++ (nameColumn icpp.printfLogPname ++ icpp.keyWord)
  let before₂ : List UInt8 := List.replicate 40 0
  have h₁ : Lines ipcCmdlineMaxSize [before₁ ++ [10], line] := by
    apply hlines
    · simp [before₁, hcolumn10, hkey]
    · simp only [before₁, List.length_append, List.length_replicate]
      omega
  have h₂ : Lines ipcCmdlineMaxSize [before₂ ++ [10], line] := hlines _ (by decide) (by decide)
  have hmatch : ∀ buf, Matching icpp (load (before₁ ++ [10]) buf) := by
    intro buf
    refine ⟨10 :: 0 :: buf.drop ((before₁ ++ [10]).length + 1), ?_⟩
    simp [load, before₁]
  have hempty : ∀ buf, Empty (load (before₂ ++ [10]) buf) := fun _ => ⟨⟨_, rfl⟩, ⟨_, rfl⟩⟩
  refine ⟨_, _, h₁, h₂, fun s => ?_⟩
  rw [prints_flatten h₁, prints_flatten h₂]
  exact ⟨shown_of_matching hf hpass (length_lt_of_not_reaches hreach) (hmatch _) _,
    hidden_of_empty hreach (hempty _) _⟩

/-- A line of 40 bytes and a keyword. -/
theorem own_merits_long :
    OnItsOwn ⟨bytes "E", bytes "UPS", [], bytes "err"⟩ (List.replicate 40 120 ++ [10]) ↔
      (CanPass ⟨bytes "E", bytes "UPS", [], bytes "err"⟩ (List.replicate 40 120 ++ [10]) →
        Reaches ⟨bytes "E", bytes "UPS", [], bytes "err"⟩ (List.replicate 40 120 ++ [10])) :=
  own_merits ⟨by decide, by decide, by decide, by decide⟩ ⟨by decide, by decide, by decide⟩

/-- With the keyword `err` the second line `x` is shown behind a line that has `err` in column 33 and
hidden behind one that has not, from the same zeroed stack. -/
theorem shown_by_history :
    (ipcdMiscCat ⟨bytes "E", bytes "UPS", [], bytes "err"⟩ 0
      (some [bytes "U E app                              err\n", bytes "x\n"].flatten) {}
      zeroState).prints 1 ∧
    ¬ (ipcdMiscCat ⟨bytes "E", bytes "UPS", [], bytes "err"⟩ 0
      (some [bytes "U E app                              fine\n", bytes "x\n"].flatten) {}
      zeroState).prints 1 ∧
    ¬ OnItsOwn ⟨bytes "E", bytes "UPS", [], bytes "err"⟩ (bytes "x\n") := by
  have h₁ : (ipcdMiscCat ⟨bytes "E", bytes "UPS", [], bytes "err"⟩ 0
      (some [bytes "U E app                              err\n", bytes "x\n"].flatten) {}
      zeroState).prints 1 := by decide +kernel
  have h₂ : ¬ (ipcdMiscCat ⟨bytes "E", bytes "UPS", [], bytes "err"⟩ 0
      (some [bytes "U E app                              fine\n", bytes "x\n"].flatten) {}
      zeroState).prints 1 := by decide +kernel
  refine ⟨h₁, h₂, fun hown => h₂ ?_⟩
  refine (hown _ _ zeroState zeroState 1 ?_ ?_ zeroState_spec.1 zeroState_spec.1 rfl rfl).1 h₁
  · exact ⟨⟨by decide, by decide, by decide⟩, by decide, by decide, by decide⟩
  · exact ⟨⟨by decide, by decide, by decide⟩, by decide, by decide, by decide⟩

end EasyIpc

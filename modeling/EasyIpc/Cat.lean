import EasyIpc.MemoryLog
import EasyIpc.Lib.Stdio
import Mathlib.Data.List.Infix

/-!
# Reading the log

`ipcd_misc_cat` of `easyipc_misc.c`, with `ipcd_misc_del_tail_spec` and `strstri`.  The loop over
the log file and the loop over the log in memory have the same body but for the line end that is
printed behind a line.  One buffer holds every line in its turn; what it and `last_color` hold at
the start is whatever the stack held.

* `catLine`, `catLoop`, `ipcdMiscCat` — the body, the loop and the function.
* `isSome_catLine_iff` — a line is shown if it passes the three tests of the body.
* `cat_filters` — records of level D are shown whatever the flags say, and a keyword may match the
  line end of the file.

Nothing is logged while the loop runs.
-/

namespace EasyIpc

open Printf Stdio

/-- `ipc_cli_print_packet`, as far as `ipcd_misc_cat` reads it. -/
structure CliPrintPacket where
  printfLogLevelFlag : CStr
  printfLogTypeFlag : CStr
  printfLogPname : CStr
  keyWord : CStr
  deriving DecidableEq, Repr

/-! ## The tests -/

/-- The loop of `ipcd_misc_del_tail_spec`: `i` goes down to 1. -/
def delTailLoop : ℕ → List UInt8 → List UInt8
  | 0, str => str
  | i + 1, str => delTailLoop i (if str[i + 1]? = some 32 then str.set (i + 1) 0 else str)

/-- `ipcd_misc_del_tail_spec`. -/
def ipcdMiscDelTailSpec (str : List UInt8) : List UInt8 := delTailLoop (cstr str).length str

/-- `temp_str_pname`: the 32 bytes of the column, and a terminator. -/
def tempStrPname (readline : List UInt8) : CStr :=
  cstr (ipcdMiscDelTailSpec ((readline.drop 4).take 32 ++ [0]))

/-- `strncasecmp(str, subStr, len) == 0`. -/
def strncasecmpEq (str subStr : CStr) (len : ℕ) : Bool :=
  (str.take len).map tolower == (subStr.take len).map tolower

/-- The loop of `strstri`. -/
def strstriLoop (subStr : CStr) : CStr → Option CStr
  | [] => none
  | c :: str =>
      if strncasecmpEq (c :: str) subStr subStr.length then some (c :: str)
      else strstriLoop subStr str

/-- `strstri`: where the text begins, `none` for `NULL`. -/
def strstri (str subStr : CStr) : Option CStr :=
  if subStr.length = 0 then none else strstriLoop subStr str

/-- The colour that goes with a level letter. -/
def catColour (letter : UInt8) : CStr :=
  if letter = 69 then bytes "\x1b[0;31m"
  else if letter = 87 then bytes "\x1b[1;33m"
  else if letter = 78 then bytes "\x1b[1;32m"
  else if letter = 73 then bytes "\x1b[1m"
  else if letter = 68 then bytes "\x1b[1;35m"
  else bytes "\x1b[0;31m"

/-- `NONE`. -/
def colourNone : CStr := bytes "\x1b[0m"

/-! ## The loop -/

/-- The body of the loop, for the line in `readline`: what is printed, if anything, and `last_color`
afterwards.  `lineEnd` is what is printed behind a line. -/
def catLine (icpp : CliPrintPacket) (lineEnd : CStr) (readline : List UInt8) (lastColor : UInt8) :
    Option CStr × UInt8 :=
  let tmptype := cstr (readline.take 1)
  let tmplevel := cstr ((readline.drop 2).take 1)
  let shown := fun letter => catColour letter ++ cstr readline ++ lineEnd ++ colourNone
  if icpp.printfLogPname.length > 0 ∧ icpp.printfLogPname ≠ tempStrPname readline then
    (none, lastColor)
  else if icpp.keyWord.length > 0 ∧ strstri (cstr (readline.drop 33)) icpp.keyWord = none then
    (none, lastColor)
  else if (cstr readline).length ≤ 48 then (some (shown lastColor), lastColor)
  else if !strstr (bytes "USP") tmptype || !strstr (bytes "EWNI") tmplevel then
    -- the letters of a record are looked for without D
    (some (shown lastColor), lastColor)
  else if strstr icpp.printfLogTypeFlag tmptype && strstr icpp.printfLogLevelFlag tmplevel then
    (some (shown (readline.getD 2 0)), readline.getD 2 0)
  else (none, lastColor)

/-- `readline` and `last_color`. -/
structure CatState where
  readline : List UInt8
  lastColor : UInt8
  deriving DecidableEq, Repr

/-- The loop, for the lines that come into `readline`: what is printed for each. -/
def catLoop (icpp : CliPrintPacket) (lineEnd : CStr) :
    List (List UInt8) → CatState → List (Option CStr)
  | [], _ => []
  | line :: lines, s =>
      let out := catLine icpp lineEnd (load line s.readline) s.lastColor
      out.1 :: catLoop icpp lineEnd lines ⟨load line s.readline, out.2⟩

/-- What `ipcd_misc_cat` prints: before the lines, for each of them, and after them.  The log in
memory has had its cursor moved. -/
structure CatOutcome where
  before : CStr := []
  lines : List (Option CStr) := []
  after : CStr := []
  log : MemoryLog
  deriving DecidableEq, Repr

/-- The line is printed. -/
def CatOutcome.prints (out : CatOutcome) (i : ℕ) : Bool := (out.lines[i]?).join.isSome

/-- `ipcd_misc_cat`; the file is `none` where it cannot be opened. -/
def ipcdMiscCat (icpp : CliPrintPacket) (debugLogSize : ℤ) (logFile : Option (List UInt8))
    (log : MemoryLog) (s : CatState) : CatOutcome :=
  if debugLogSize = 0 then
    match logFile with
    | none => { before := bytes "log file not exist\r\n", log := log }
    | some file =>
        { before := bytes "\r\n", lines := catLoop icpp [] (chunks ipcCmdlineMaxSize file) s,
          after := bytes "\r\n", log := log }
  else if debugLogSize > 0 then
    -- a call for each line, and the one whose result is 0
    match log.drain ipcCmdlineMaxSize (log.logList.length + 1) with
    | none => { log := log }
    | some (lines, log) =>
        { lines := catLoop icpp (bytes "\n") lines s, after := bytes "\r\n", log := log }
  else { log := log }

variable {icpp : CliPrintPacket} {lineEnd : CStr} {readline line buf : List UInt8} {lastColor : UInt8}
  {s : CatState} {lines : List (List UInt8)} {i : ℕ}

/-! ## What the tests say -/

/-- The keyword, if there is one, occurs in the text, in capital or in small letters. -/
def KeywordIn (keyWord text : CStr) : Prop :=
  keyWord = [] ∨ keyWord.map tolower <:+: text.map tolower

instance (keyWord text : CStr) : Decidable (KeywordIn keyWord text) :=
  inferInstanceAs (Decidable (_ ∨ _))

theorem strncasecmpEq_iff (str subStr : CStr) :
    strncasecmpEq str subStr subStr.length = true ↔ subStr.map tolower <+: str.map tolower := by
  rw [strncasecmpEq, beq_iff_eq, List.take_length, List.map_take, List.prefix_iff_eq_take,
    List.length_map, eq_comm]

theorem strstriLoop_isSome_iff {subStr : CStr} (h : subStr ≠ []) (str : CStr) :
    (strstriLoop subStr str).isSome ↔ subStr.map tolower <:+: str.map tolower := by
  induction str with
  | nil => simp [strstriLoop, h]
  | cons c str ih =>
    rw [strstriLoop, List.map_cons, List.infix_cons_iff, ← List.map_cons, ← strncasecmpEq_iff]
    split
    · rename_i hhere
      simp [hhere]
    · rename_i hhere
      simp [hhere, ih]

/-- The test of the keyword. -/
theorem keyword_passes_iff (keyWord text : CStr) :
    ¬ (keyWord.length > 0 ∧ strstri text keyWord = none) ↔ KeywordIn keyWord text := by
  unfold KeywordIn
  by_cases h : keyWord = []
  · simp [h]
  · have hpos := List.length_pos_iff.2 h
    rw [strstri, if_neg (by omega), ← strstriLoop_isSome_iff h, Option.isSome_iff_ne_none]
    simp [h, hpos]

theorem strstr_iff (str sub : CStr) : strstr str sub = true ↔ sub <:+: str := by
  rw [strstr, List.any_eq_true, List.infix_iff_prefix_suffix]
  simp only [List.mem_tails, List.isPrefixOf_iff_prefix]
  exact exists_congr fun _ => and_comm

/-- The name column of the line passes the filter. -/
def NamePasses (icpp : CliPrintPacket) (readline : List UInt8) : Prop :=
  icpp.printfLogPname = [] ∨ icpp.printfLogPname = tempStrPname readline

/-- The line is not a record, or one that the flags select. -/
def KindPasses (icpp : CliPrintPacket) (readline : List UInt8) : Prop :=
  (cstr readline).length ≤ 48 ∨
    ¬ (strstr (bytes "USP") (cstr (readline.take 1)) ∧
      strstr (bytes "EWNI") (cstr ((readline.drop 2).take 1))) ∨
    (strstr icpp.printfLogTypeFlag (cstr (readline.take 1)) ∧
      strstr icpp.printfLogLevelFlag (cstr ((readline.drop 2).take 1)))

/-- **When a line is shown.** -/
theorem isSome_catLine_iff : (catLine icpp lineEnd readline lastColor).1.isSome ↔
    NamePasses icpp readline ∧ KeywordIn icpp.keyWord (cstr (readline.drop 33)) ∧
      KindPasses icpp readline := by
  have hname : ¬ (icpp.printfLogPname.length > 0 ∧ icpp.printfLogPname ≠ tempStrPname readline) ↔
      NamePasses icpp readline := by
    unfold NamePasses
    rw [gt_iff_lt, List.length_pos_iff, not_and_or, not_not, not_not]
  rw [← hname, ← keyword_passes_iff]
  unfold catLine KindPasses
  split
  · rename_i hhidden
    simp [hhidden]
  · split
    · rename_i hhidden
      simp [hhidden]
    · rename_i h₁ h₂
      simp only [h₁, h₂, not_false_eq_true, true_and]
      split
      · rename_i hshort
        simp [hshort]
      · rename_i hlong
        split
        · rename_i hletters
          simp only [Bool.or_eq_true, Bool.not_eq_true', ← Bool.not_eq_true] at hletters
          simp only [Option.isSome_some, true_iff]
          exact Or.inr (Or.inl (by tauto))
        · rename_i hletters
          simp only [Bool.or_eq_true, Bool.not_eq_true', ← Bool.not_eq_true] at hletters
          split
          · rename_i hflags
            simp only [Bool.and_eq_true] at hflags
            simp [hflags]
          · rename_i hflags
            simp only [Bool.and_eq_true] at hflags
            simp only [Option.isSome_none, Bool.false_eq_true, false_iff]
            tauto

/-! ## The line in the loop -/

/-- The line that comes at a place is met with whatever the lines before have left in the buffer. -/
theorem catLoop_getElem? (h : lines[i]? = some line) : ∃ s' : CatState,
    (catLoop icpp lineEnd lines s)[i]? =
      some (catLine icpp lineEnd (load line s'.readline) s'.lastColor).1 := by
  induction lines generalizing i s with
  | nil => simp at h
  | cons first lines ih =>
    cases i with
    | zero =>
      obtain rfl : first = line := by simpa using h
      exact ⟨s, rfl⟩
    | succ i => exact ih (by simpa using h)

/-- A test of the line that comes at a place, if it does not see what the buffer held before. -/
theorem catLoop_prints_iff {P : Prop} (h : lines[i]? = some line)
    (hline : ∀ buf color, (catLine icpp lineEnd (load line buf) color).1.isSome ↔ P) :
    ((catLoop icpp lineEnd lines s)[i]?).join.isSome ↔ P := by
  obtain ⟨s', hs'⟩ := @catLoop_getElem? icpp lineEnd line s lines i h
  rw [hs', Option.join_some]
  exact hline _ _

theorem ipcdMiscCat_file (file : List UInt8) (log : MemoryLog) :
    (ipcdMiscCat icpp 0 (some file) log s).lines =
      catLoop icpp [] (chunks ipcCmdlineMaxSize file) s := rfl

/-- The lines of the log in memory, read from the first one on. -/
theorem ipcdMiscCat_memory {log : MemoryLog} {debugLogSize : ℤ} (logFile : Option (List UInt8))
    (hsize : debugLogSize > 0) (hcount : log.Counted) (hindex : log.index = 0) :
    (ipcdMiscCat icpp debugLogSize logFile log s).lines =
      catLoop icpp (bytes "\n") (log.logList.map (snprintf ipcCmdlineMaxSize)) s := by
  have hdrain := @MemoryLog.drain_eq log ipcCmdlineMaxSize hcount (log.logList.length + 1)
  rw [hindex, if_pos (by omega), List.drop_zero] at hdrain
  unfold ipcdMiscCat
  rw [if_neg (by omega), if_pos hsize]
  simp only [hdrain]

/-! ## Records -/

/-- The time in a record, with what stands around it. -/
def recordStamp (ptime : Timespec) : CStr :=
  bytes " " ++ (⟨false, false, 6, 100⟩ : Spec).number ptime.tvSec ++ bytes "." ++
    (⟨false, true, 3, 100⟩ : Spec).number (ptime.tvNsec.tdiv 1000000) ++ bytes " : "

/-- The column of the name. -/
def nameColumn (pname : CStr) : CStr := (⟨true, false, 32, 115⟩ : Spec).pad pname

section Record

variable {lib : Library} {ptime : Timespec} {tlt : IpcLogType} {level : ℤ} {pname body : CStr}

theorem recordHeader_eq : recordHeader ptime tlt level pname =
    tlt.char ++ (bytes " " ++ (levelChar level ++ (bytes " " ++
      (nameColumn pname ++ recordStamp ptime)))) := by
  simp only [recordHeader, recordStamp, nameColumn, List.append_assoc]

theorem le_length_recordStamp (ptime : Timespec) : 14 ≤ (recordStamp ptime).length := by
  have hsec : 6 ≤ _ := width_le_length_number ⟨false, false, 6, 100⟩ ptime.tvSec
  have hmsec : 3 ≤ _ := width_le_length_number ⟨false, true, 3, 100⟩ (ptime.tvNsec.tdiv 1000000)
  have hlit : (bytes " ").length = 1 ∧ (bytes ".").length = 1 ∧ (bytes " : ").length = 3 := by decide
  simp only [recordStamp, List.length_append, hlit.1, hlit.2.1, hlit.2.2]
  omega

theorem le_length_nameColumn (pname : CStr) : 32 ≤ (nameColumn pname).length :=
  (le_length_pad ⟨true, false, 32, 115⟩ pname).1

/-- The type of a record is a letter. -/
theorem char_eq (tlt : IpcLogType) : ∃ t, tlt.char = [t] ∧ t ∈ bytes "USP" := by
  cases tlt with
  | user => exact ⟨85, rfl, by decide⟩
  | progess => exact ⟨80, rfl, by decide⟩
  | system => exact ⟨83, rfl, by decide⟩

/-- The level of a record is a letter, and D is not among the letters that are looked for. -/
theorem levelChar_eq (hlevel : ipcLogLevelErr ≤ level ∧ level ≤ ipcLogLevelDbg) :
    ∃ l, levelChar level = [l] ∧ (l ∈ bytes "EWNI" ↔ level ≠ ipcLogLevelDbg) := by
  have hcases : level = 0 ∨ level = 1 ∨ level = 2 ∨ level = 3 ∨ level = 4 := by
    unfold ipcLogLevelErr ipcLogLevelDbg at hlevel
    omega
  rcases hcases with rfl | rfl | rfl | rfl | rfl
  · exact ⟨69, rfl, by decide⟩
  · exact ⟨87, rfl, by decide⟩
  · exact ⟨78, rfl, by decide⟩
  · exact ⟨73, rfl, by decide⟩
  · exact ⟨68, rfl, by decide⟩

/-- A record that is not cut is its header and its text. -/
theorem saveBuf_of_lt (h : (saveBuf lib ptime tlt level pname body).length < 4090) :
    saveBuf lib ptime tlt level pname body = recordHeader ptime tlt level pname ++ body := by
  rw [saveBuf_eq] at h ⊢
  have hmax : ipcDebugPrintMaxSize = 8192 := rfl
  rw [snprintf, List.length_take, hmax] at h
  apply snprintf_of_lt
  omega

/-- A line that begins as a record does. -/
theorem kindPasses_record {rest : CStr} (hlevel : ipcLogLevelErr ≤ level ∧ level ≤ ipcLogLevelDbg)
    (hline : line = tlt.char ++ (bytes " " ++ (levelChar level ++ (bytes " " ++ rest))))
    (hzero : (0 : UInt8) ∉ line) (hlen : 48 < line.length) :
    KindPasses icpp (load line buf) ↔ level = ipcLogLevelDbg ∨
      tlt.char ⊆ icpp.printfLogTypeFlag ∧ levelChar level ⊆ icpp.printfLogLevelFlag := by
  obtain ⟨t, ht, htmem⟩ := char_eq tlt
  obtain ⟨l, hl, hlmem⟩ := levelChar_eq hlevel
  have hshape : line = t :: 32 :: l :: 32 :: rest := by rw [hline, ht, hl]; rfl
  have ht0 : t ≠ 0 := fun h => hzero (by simp [hshape, h])
  have hl0 : l ≠ 0 := fun h => hzero (by simp [hshape, h])
  have htype : cstr ((load line buf).take 1) = [t] := by
    simp [hshape, load, cstr, ht0]
  have hlevelBuf : cstr (((load line buf).drop 2).take 1) = [l] := by
    simp [hshape, load, cstr, hl0]
  have hwhole : cstr (load line buf) = line := by
    rw [load, cstr_append_zero, cstr_of_not_mem hzero]
  unfold KindPasses
  rw [hwhole, htype, hlevelBuf, ht, hl]
  simp only [strstr_iff, List.singleton_infix_iff, List.cons_subset, List.nil_subset, and_true,
    htmem, hlmem, true_and, not_not]
  have hlong : ¬ line.length ≤ 48 := by omega
  exact or_iff_right hlong

/-! ## Which records are printed -/

/-- What the options ask for: the type and the level of the record are among the flags, and the
keyword, if given, occurs in it from column 33 on. -/
def Wanted (icpp : CliPrintPacket) (tlt : IpcLogType) (level : ℤ) (record : CStr) : Prop :=
  tlt.char ⊆ icpp.printfLogTypeFlag ∧ levelChar level ⊆ icpp.printfLogLevelFlag ∧
    KeywordIn icpp.keyWord (record.drop 33)

instance (icpp : CliPrintPacket) (tlt : IpcLogType) (level : ℤ) (record : CStr) :
    Decidable (Wanted icpp tlt level record) := inferInstanceAs (Decidable (_ ∧ _ ∧ _))

/-- The line of a record, with the end that it has in the file or has not in memory. -/
theorem record_shown_iff {record eol : CStr} {color : UInt8}
    (hlevel : ipcLogLevelErr ≤ level ∧ level ≤ ipcLogLevelDbg)
    (hrecord : record = recordHeader ptime tlt level pname ++ body)
    (hpname : icpp.printfLogPname = []) (hzero : (0 : UInt8) ∉ record ++ eol) :
    (catLine icpp lineEnd (load (record ++ eol) buf) color).1.isSome ↔
      KeywordIn icpp.keyWord ((record ++ eol).drop 33) ∧ (level = ipcLogLevelDbg ∨
        tlt.char ⊆ icpp.printfLogTypeFlag ∧ levelChar level ⊆ icpp.printfLogLevelFlag) := by
  have hshape : record ++ eol = tlt.char ++ (bytes " " ++ (levelChar level ++ (bytes " " ++
      (nameColumn pname ++ (recordStamp ptime ++ (body ++ eol)))))) := by
    simp only [hrecord, recordHeader_eq, List.append_assoc]
  have hlong : 48 < (record ++ eol).length := by
    obtain ⟨t, ht, -⟩ := char_eq tlt
    obtain ⟨l, hl, -⟩ := levelChar_eq hlevel
    have hstamp := le_length_recordStamp ptime
    have hname := le_length_nameColumn pname
    have hblank : (bytes " ").length = 1 := by decide
    simp only [hshape, ht, hl, hblank, List.length_append, List.length_singleton]
    omega
  have hkeyword : cstr ((load (record ++ eol) buf).drop 33) = (record ++ eol).drop 33 := by
    rw [cstr_drop_load (by omega), cstr_of_not_mem fun h => hzero (List.mem_of_mem_drop h)]
  rw [isSome_catLine_iff, hkeyword, kindPasses_record hlevel hshape hzero hlong]
  simp only [NamePasses, hpname, true_or, true_and]

/-- The line of a record in the file. -/
theorem chunks_record {file record : List UInt8} (hends : EndsLine file)
    (hlen : record.length < 4090) (hline : (10 : UInt8) ∉ record) (later : List UInt8) :
    (chunks ipcCmdlineMaxSize (file ++ record ++ bytes "\r\n" ++ later))[(chunks ipcCmdlineMaxSize
      file).length]? = some (record ++ bytes "\r\n") := by
  have hcrlf : bytes "\r\n" = [13, 10] := by decide
  have hrest : file ++ record ++ bytes "\r\n" ++ later =
      file ++ ((record ++ [13]) ++ 10 :: later) := by
    simp [hcrlf]
  have hmem : (10 : UInt8) ∉ record ++ [13] := by simp [hline]
  have hfit : (record ++ [13]).length + 1 < ipcCmdlineMaxSize := by
    have hmax : ipcCmdlineMaxSize = 4096 := rfl
    rw [List.length_append, List.length_singleton, hmax]
    omega
  rw [hrest, chunks_append (by decide) hends, chunks_line (by decide) hmem hfit,
    List.getElem?_append_right le_rfl, Nat.sub_self, hcrlf]
  simp

theorem prints_file_iff {file record : List UInt8} {mlog : MemoryLog} (hends : EndsLine file)
    (hlevel : ipcLogLevelErr ≤ level ∧ level ≤ ipcLogLevelDbg)
    (hrecord : record = recordHeader ptime tlt level pname ++ body)
    (hlen : record.length < 4090) (hline : (10 : UInt8) ∉ record) (hzero : (0 : UInt8) ∉ record)
    (hpname : icpp.printfLogPname = []) (later : List UInt8) :
    (ipcdMiscCat icpp 0 (some (file ++ record ++ bytes "\r\n" ++ later)) mlog s).prints
        (chunks ipcCmdlineMaxSize file).length ↔
      KeywordIn icpp.keyWord ((record ++ bytes "\r\n").drop 33) ∧ (level = ipcLogLevelDbg ∨
        tlt.char ⊆ icpp.printfLogTypeFlag ∧ levelChar level ⊆ icpp.printfLogLevelFlag) := by
  have hcrlf : (0 : UInt8) ∉ bytes "\r\n" := by decide
  have hzeroLine : (0 : UInt8) ∉ record ++ bytes "\r\n" := by
    rw [List.mem_append]
    tauto
  unfold CatOutcome.prints
  rw [ipcdMiscCat_file]
  exact catLoop_prints_iff (chunks_record hends hlen hline later) fun _ _ =>
    record_shown_iff hlevel hrecord hpname hzeroLine

theorem prints_memory_iff {record : CStr} {mlog : MemoryLog} {debugLogSize : ℤ}
    (hdebug : debugLogSize > 0) (hcount : mlog.Counted) (hindex : mlog.index = 0)
    (hmem : mlog.logList[i]? = some record)
    (hlevel : ipcLogLevelErr ≤ level ∧ level ≤ ipcLogLevelDbg)
    (hrecord : record = recordHeader ptime tlt level pname ++ body)
    (hlen : record.length < 4090) (hzero : (0 : UInt8) ∉ record)
    (hpname : icpp.printfLogPname = []) (logFile : Option (List UInt8)) :
    (ipcdMiscCat icpp debugLogSize logFile mlog s).prints i ↔
      KeywordIn icpp.keyWord (record.drop 33) ∧ (level = ipcLogLevelDbg ∨
        tlt.char ⊆ icpp.printfLogTypeFlag ∧ levelChar level ⊆ icpp.printfLogLevelFlag) := by
  have hcopy : snprintf ipcCmdlineMaxSize record = record := by
    apply snprintf_of_lt
    have hmax : ipcCmdlineMaxSize = 4096 := rfl
    omega
  have hline : (mlog.logList.map (snprintf ipcCmdlineMaxSize))[i]? = some (record ++ []) := by
    rw [List.getElem?_map, hmem, Option.map_some, hcopy, List.append_nil]
  have hshown := fun buf color => @record_shown_iff icpp (bytes "\n") buf ptime tlt level pname body
    record [] color hlevel hrecord hpname (by rwa [List.append_nil])
  rw [List.append_nil] at hshown
  unfold CatOutcome.prints
  rw [ipcdMiscCat_memory _ hdebug hcount hindex]
  rw [List.append_nil] at hline
  exact catLoop_prints_iff hline hshown

/-- A keyword that occurs in the record occurs in its line. -/
theorem KeywordIn.append {keyWord record : CStr} (h : KeywordIn keyWord (record.drop 33))
    (eol : CStr) : KeywordIn keyWord ((record ++ eol).drop 33) := by
  rcases h with hnone | hkey
  · exact Or.inl hnone
  · refine Or.inr (hkey.trans ?_)
    rw [List.drop_append, List.map_append]
    exact (List.prefix_append _ _).isInfix

/-- Two tests that let D through are right exactly if D is no exception and the wider keyword test
makes no difference. -/
theorem both_right_iff {keyword keyword' isD type level : Prop} (himp : keyword → keyword') :
    ((keyword' ∧ (isD ∨ type ∧ level) ↔ type ∧ level ∧ keyword) ∧
      (keyword ∧ (isD ∨ type ∧ level) ↔ type ∧ level ∧ keyword)) ↔
    (isD ∧ keyword → type ∧ level) ∧ (keyword' ∧ (isD ∨ type ∧ level) → keyword) := by
  tauto

variable {conf : DebugConf} {mlist : List MlistMember} {log : DebugLog} {pid : ℤ} {fmt : CStr}
  {args : List Arg}

/-- **When `eipccat` prints the records that the options ask for.**  A record of one line is written
behind a file that ends a line, or is a line of the log in memory.  Both kinds of log show it exactly
if it is wanted, if and only if no flag is missing on a record of level D that the keyword lets
through, and the keyword does not match only together with the line end of the file. -/
theorem cat_filters {out : LogOutcome}
    (hout : out = ipcdLogSaveAndPrint lib conf ptime mlist log tlt level pid fmt args)
    (hsize : conf.debugLogSize = 0) (hends : EndsLine log.logFile)
    (hlevel : ipcLogLevelErr ≤ level ∧ level ≤ ipcLogLevelDbg)
    (hlen : out.saveBuf.length < 4090) (hline : (10 : UInt8) ∉ out.saveBuf)
    (hzero : (0 : UInt8) ∉ out.saveBuf) (hpname : icpp.printfLogPname = [])
    {mlog : MemoryLog} {debugLogSize : ℤ} (hdebug : debugLogSize > 0) (hcount : mlog.Counted)
    (hindex : mlog.index = 0) (hmem : mlog.logList[i]? = some out.saveBuf)
    (later : List UInt8) (s s' : CatState) :
    (((ipcdMiscCat icpp 0 (some (out.log.logFile ++ later)) mlog s).prints
        (chunks ipcCmdlineMaxSize log.logFile).length ↔ Wanted icpp tlt level out.saveBuf) ∧
      ((ipcdMiscCat icpp debugLogSize (some log.logFile) mlog s').prints i ↔
        Wanted icpp tlt level out.saveBuf)) ↔
    (level = ipcLogLevelDbg ∧ KeywordIn icpp.keyWord (out.saveBuf.drop 33) →
      tlt.char ⊆ icpp.printfLogTypeFlag ∧ levelChar level ⊆ icpp.printfLogLevelFlag) ∧
    (KeywordIn icpp.keyWord ((out.saveBuf ++ bytes "\r\n").drop 33) ∧ (level = ipcLogLevelDbg ∨
        tlt.char ⊆ icpp.printfLogTypeFlag ∧ levelChar level ⊆ icpp.printfLogLevelFlag) →
      KeywordIn icpp.keyWord (out.saveBuf.drop 33)) := by
  have hrecord : out.saveBuf = recordHeader ptime tlt level (logPname mlist pid) ++
      vsprintf lib fmt args := by
    rw [hout] at hlen ⊢
    exact saveBuf_of_lt hlen
  have hlogFile : out.log.logFile = log.logFile ++ out.saveBuf ++ bytes "\r\n" := by
    rw [hout]
    simp only [ipcdLogSaveAndPrint, if_pos hsize]
  rw [hlogFile, prints_file_iff hends hlevel hrecord hlen hline hzero hpname,
    prints_memory_iff hdebug hcount hindex hmem hlevel hrecord hlen hzero hpname]
  exact both_right_iff fun h => h.append _

/-- The text `hello`, logged at a level by a process that is not registered. -/
def helloRecord (level : ℤ) : LogOutcome :=
  ipcdLogSaveAndPrint silent ⟨0, [], []⟩ ⟨5, 42000000⟩ [] {} .user level 1 (bytes "hello") []

/-- A zeroed stack. -/
def zeroState : CatState := ⟨List.replicate ipcCmdlineMaxSize 0, 0⟩

/-- A record of level E and options for errors. -/
theorem cat_filters_error :
    (((ipcdMiscCat ⟨bytes "E", bytes "UPS", [], bytes "HELL"⟩ 0
        (some ((helloRecord 0).log.logFile ++ [])) ⟨[(helloRecord 0).saveBuf], 1, 0⟩ zeroState).prints
        (chunks ipcCmdlineMaxSize []).length ↔
          Wanted ⟨bytes "E", bytes "UPS", [], bytes "HELL"⟩ .user 0 (helloRecord 0).saveBuf) ∧
      ((ipcdMiscCat ⟨bytes "E", bytes "UPS", [], bytes "HELL"⟩ 1 (some [])
        ⟨[(helloRecord 0).saveBuf], 1, 0⟩ zeroState).prints 0 ↔
          Wanted ⟨bytes "E", bytes "UPS", [], bytes "HELL"⟩ .user 0 (helloRecord 0).saveBuf)) ↔
    ((0 : ℤ) = ipcLogLevelDbg ∧ KeywordIn (bytes "HELL") ((helloRecord 0).saveBuf.drop 33) →
      IpcLogType.user.char ⊆ bytes "UPS" ∧ levelChar 0 ⊆ bytes "E") ∧
    (KeywordIn (bytes "HELL") (((helloRecord 0).saveBuf ++ bytes "\r\n").drop 33) ∧
        ((0 : ℤ) = ipcLogLevelDbg ∨
          IpcLogType.user.char ⊆ bytes "UPS" ∧ levelChar 0 ⊆ bytes "E") →
      KeywordIn (bytes "HELL") ((helloRecord 0).saveBuf.drop 33)) :=
  @cat_filters ⟨bytes "E", bytes "UPS", [], bytes "HELL"⟩ 0 silent ⟨5, 42000000⟩ .user 0 ⟨0, [], []⟩ []
    {} 1 (bytes "hello") [] (helloRecord 0) rfl rfl (.inl rfl) (by decide) (by decide) (by decide)
    (by decide) rfl ⟨[(helloRecord 0).saveBuf], 1, 0⟩ 1 (by decide) rfl rfl rfl [] zeroState zeroState

/-- A record of level D is printed, from the file and from memory, where only errors are asked
for. -/
theorem cat_shows_debug :
    (ipcdMiscCat ⟨bytes "E", bytes "UPS", [], []⟩ 0 (some (helloRecord 4).log.logFile) {}
      zeroState).prints 0 ∧
    (ipcdMiscCat ⟨bytes "E", bytes "UPS", [], []⟩ 1 none ⟨[(helloRecord 4).saveBuf], 1, 0⟩
      zeroState).prints 0 ∧
    ¬ Wanted ⟨bytes "E", bytes "UPS", [], []⟩ .user 4 (helloRecord 4).saveBuf := by
  have hrecord : (helloRecord 4).saveBuf = recordHeader ⟨5, 42000000⟩ .user 4 (logPname [] 1) ++
      bytes "hello" := by decide
  have hkeyword : ∀ text, KeywordIn [] text := fun _ => Or.inl rfl
  refine ⟨?file, ?memory, by decide⟩
  case file =>
    have hfile := @prints_file_iff ⟨bytes "E", bytes "UPS", [], []⟩ zeroState ⟨5, 42000000⟩ .user 4
      (logPname [] 1) (bytes "hello") [] (helloRecord 4).saveBuf {} (.inl rfl) (by decide) hrecord
      (by decide) (by decide) (by decide) rfl []
    rw [List.append_nil] at hfile
    exact hfile.2 ⟨hkeyword _, Or.inl rfl⟩
  case memory =>
    have hmemory := @prints_memory_iff ⟨bytes "E", bytes "UPS", [], []⟩ zeroState 0 ⟨5, 42000000⟩ .user
      4 (logPname [] 1) (bytes "hello") (helloRecord 4).saveBuf ⟨[(helloRecord 4).saveBuf], 1, 0⟩ 1
      (by decide) rfl rfl rfl (by decide) hrecord (by decide) (by decide) rfl none
    exact hmemory.2 ⟨hkeyword _, Or.inl rfl⟩

end Record

end EasyIpc

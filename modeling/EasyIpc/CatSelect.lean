import EasyIpc.CatHistory

/-!
# Filtering a log of several members by a name

`ipcd_log_save_and_print` is called for one member after the other, and `ipcd_misc_cat` reads the log
with the filter `-p name`.

* `namesRead_eq` — the name that is read at each line: of the line, or left over from the line before.
* `logAll_file`, `logAll_memory` — what the calls leave in the file and in memory.
* `name_decodes` — when the filter shows exactly the records of the member of that name.
-/

namespace EasyIpc

open Printf Stdio

variable {lib : Library} {conf : DebugConf} {p : CStr}

/-! ## The log -/

/-- One call of `ipcd_log_save_and_print`, with the registry as it is then. -/
structure LogEntry where
  ptime : Timespec
  mlist : List MlistMember
  tlt : IpcLogType
  level : ℤ
  pid : ℤ
  fmt : CStr
  args : List Arg

namespace LogEntry

variable {e : LogEntry}

/-- The call. -/
def write (lib : Library) (conf : DebugConf) (log : DebugLog) (e : LogEntry) : LogOutcome :=
  ipcdLogSaveAndPrint lib conf e.ptime e.mlist log e.tlt e.level e.pid e.fmt e.args

/-- The name in the record. -/
def pname (e : LogEntry) : CStr := logPname e.mlist e.pid

/-- The record. -/
def record (lib : Library) (e : LogEntry) : CStr :=
  saveBuf lib e.ptime e.tlt e.level e.pname (vsprintf lib e.fmt e.args)

/-- The record with the line end that it gets in the file. -/
def text (lib : Library) (e : LogEntry) : List UInt8 := e.record lib ++ bytes "\r\n"

/-- The lines of the record in the file, as they are read. -/
def lines (lib : Library) (e : LogEntry) : List (List UInt8) :=
  chunks ipcCmdlineMaxSize (e.text lib)

/-- The record is one of the member named `p`. -/
def IsOf (p : CStr) (e : LogEntry) : Prop :=
  e.pid > 0 ∧ ∃ m, ipcdGetMlistViaPid e.mlist e.pid = some m ∧ m.pname = p

instance (p : CStr) (e : LogEntry) : Decidable (e.IsOf p) :=
  decidable_of_iff (e.pid > 0 ∧ ((ipcdGetMlistViaPid e.mlist e.pid).any fun m => m.pname == p) = true)
    (by simp [IsOf, Option.any_eq_true])

/-- The members have names that a member can have. -/
def Named (e : LogEntry) : Prop := ∀ m ∈ e.mlist, MemberName m.pname

theorem memberName_pname (h : e.Named) : MemberName e.pname := by
  have hdaemon : MemberName (bytes "ipcd") :=
    ⟨by decide, by decide, by decide, by decide, by decide, by decide⟩
  have hnobody : MemberName (bytes "unknow") :=
    ⟨by decide, by decide, by decide, by decide, by decide, by decide⟩
  by_cases hpid : e.pid > 0
  · cases hm : ipcdGetMlistViaPid e.mlist e.pid with
    | none =>
      have hnone : e.pname = bytes "unknow" := by
        rw [pname, logPname, if_pos hpid, ipcdGetPnameViaPid, hm]
        rfl
      rwa [hnone]
    | some m =>
      have hmember := h m (ipcdGetMlistViaPid_eq_some hm).1
      rw [pname, logPname_eq hpid hm hmember]
      exact hmember
  · have hself : e.pname = bytes "ipcd" := if_neg hpid
    rwa [hself]

theorem IsOf.pname_eq (h : e.IsOf p) (hnamed : e.Named) : e.pname = p := by
  obtain ⟨hpid, m, hm, rfl⟩ := h
  exact logPname_eq hpid hm (hnamed m (ipcdGetMlistViaPid_eq_some hm).1)

/-- The record begins with its name in the column. -/
theorem record_eq (lib : Library) (h : e.Named) : ∃ rest,
    e.record lib = recordStart e.tlt e.level e.pname ++ rest :=
  saveBuf_eq_recordStart (memberName_pname h)

/-- So does the first of its lines. -/
theorem lines_eq (lib : Library) (h : e.Named) : ∃ rest more,
    e.lines lib = (recordStart e.tlt e.level e.pname ++ rest) :: more := by
  obtain ⟨tail, htail⟩ := record_eq lib h
  have hname := memberName_pname h
  obtain ⟨t, l, hshape, -⟩ := @recordStart_spec e.pname e.tlt e.level hname
  have htext : e.text lib = recordStart e.tlt e.level e.pname ++ (tail ++ bytes "\r\n") := by
    rw [text, htail, List.append_assoc]
  have hne : recordStart e.tlt e.level e.pname ++ (tail ++ bytes "\r\n") ≠ [] := by
    rw [hshape]
    exact List.cons_ne_nil _ _
  obtain ⟨rest, hfirst⟩ := @fgets_recordStart e.pname e.tlt e.level hname (tail ++ bytes "\r\n")
  exact ⟨rest, _, by rw [lines, htext, chunks_of_ne_nil (by decide) hne, hfirst]⟩

end LogEntry

theorem four_le_recordStart {tlt : IpcLogType} {level : ℤ} (hp : MemberName p) (rest : List UInt8) :
    4 ≤ (recordStart tlt level p ++ rest).length := by
  obtain ⟨t, l, hshape, -⟩ := @recordStart_spec p tlt level hp
  rw [hshape]
  simp only [List.cons_append, List.length_cons]
  omega

/-- The calls one after the other. -/
def logAll (lib : Library) (conf : DebugConf) (log : DebugLog) (entries : List LogEntry) : DebugLog :=
  entries.foldl (fun log e => (e.write lib conf log).log) log

/-- The file has the records, each with its line end. -/
theorem logAll_file (hsize : conf.debugLogSize = 0) (log : DebugLog) (entries : List LogEntry) :
    (logAll lib conf log entries).logFile = log.logFile ++ entries.flatMap (LogEntry.text lib) := by
  induction entries generalizing log with
  | nil => exact (List.append_nil _).symm
  | cons e entries ih =>
    have hone : (e.write lib conf log).log.logFile = log.logFile ++ e.text lib := by
      simp only [LogEntry.write, ipcdLogSaveAndPrint, if_pos hsize, List.append_assoc]
      rfl
    show (logAll lib conf (e.write lib conf log).log entries).logFile = _
    rw [ih, hone, List.flatMap_cons, List.append_assoc]

/-- A record is read line by line, wherever it stands. -/
theorem chunks_flatMap_text (entries : List LogEntry) :
    chunks ipcCmdlineMaxSize (entries.flatMap (LogEntry.text lib)) =
      entries.flatMap (LogEntry.lines lib) := by
  induction entries with
  | nil => rfl
  | cons e entries ih =>
    have hends : EndsLine (e.text lib) := by
      refine Or.inr ⟨e.record lib ++ [13], ?_⟩
      rw [LogEntry.text, List.append_assoc]
      rfl
    rw [List.flatMap_cons, List.flatMap_cons, chunks_append (by decide) hends, ih, LogEntry.lines]

/-- The list in memory has the last records. -/
theorem logAll_memory (hsize : conf.debugLogSize > 0) (entries : List LogEntry) :
    ∃ kept, kept <:+ entries ∧
      (logAll lib conf {} entries).logList = kept.map (LogEntry.record lib) := by
  have hgen : ∀ (entries old : List LogEntry) (log : DebugLog),
      log.logList = old.map (LogEntry.record lib) → ∃ kept, kept <:+ old ++ entries ∧
        (logAll lib conf log entries).logList = kept.map (LogEntry.record lib) := by
    intro entries
    induction entries with
    | nil => exact fun old log hlog => ⟨old, by simp, hlog⟩
    | cons e entries ih =>
      intro old log hlog
      have hne : conf.debugLogSize ≠ 0 := by omega
      -- the oldest goes if the list is full
      obtain ⟨old', hsuf, hpush⟩ : ∃ old', old' <:+ old ∧
          (e.write lib conf log).log.logList = (old' ++ [e]).map (LogEntry.record lib) := by
        have hfit : (e.record lib).length < ipcDebugPrintMaxSize :=
          Nat.lt_of_le_of_lt (List.length_take_le _ _) (by decide)
        have hcopy : ∀ n, (e.record lib).length < n → snprintf n (e.record lib) = e.record lib :=
          fun n hn => snprintf_of_lt hn
        have hlist : (e.write lib conf log).log.logList =
            (if log.logList.length > conf.debugLogSize then log.logList.eraseIdx 0
              else log.logList) ++ [e.record lib] := by
          simp only [LogEntry.write, ipcdLogSaveAndPrint, if_neg hne, if_pos hsize,
            ipcdDebugLogMemoryPush]
          congr 2
          refine hcopy _ ?_
          show (e.record lib).length < if (e.record lib).length + 1 > ipcDebugPrintMaxSize then
            ipcDebugPrintMaxSize else (e.record lib).length + 1
          split <;> omega
        rw [hlist]
        split
        · refine ⟨old.tail, List.tail_suffix old, ?_⟩
          rw [hlog, List.eraseIdx_zero, ← List.map_tail, List.map_append, List.map_singleton]
        · refine ⟨old, List.suffix_refl old, ?_⟩
          rw [hlog, List.map_append, List.map_singleton]
      obtain ⟨kept, hkept, hall⟩ := ih (old' ++ [e]) _ hpush
      refine ⟨kept, hkept.trans ?_, hall⟩
      obtain ⟨first, rfl⟩ := hsuf
      exact ⟨first, by simp⟩
  obtain ⟨kept, hkept, hall⟩ := hgen entries [] {} rfl
  exact ⟨kept, by simpa using hkept, hall⟩

/-! ## The names that are read -/

section Names

variable {line : List UInt8} {lines : List (List UInt8)} {icpp : CliPrintPacket} {lineEnd : CStr}
  {Q : Prop}

/-- The name that is read at each line; where a line does not reach the column, what was read
before is still there. -/
def namesRead : List (List UInt8) → CStr → List CStr
  | [], _ => []
  | line :: lines, name =>
      let read := if 4 ≤ line.length then tempStrPname line else name
      read :: namesRead lines read

theorem tempStrPname_load_eq (line buf : List UInt8) : tempStrPname (load line buf) =
    if 4 ≤ line.length then tempStrPname line else tempStrPname buf := by
  split
  · rename_i h
    exact tempStrPname_load h buf
  · rw [tempStrPname_eq, tempStrPname_eq, drop_load_of_lt (by omega)]

@[simp] theorem length_namesRead (lines : List (List UInt8)) (name : CStr) :
    (namesRead lines name).length = lines.length := by
  induction lines generalizing name with
  | nil => rfl
  | cons line lines ih => simp [namesRead, ih]

theorem namesRead_cons (h : 4 ≤ line.length) (lines : List (List UInt8)) (name : CStr) :
    namesRead (line :: lines) name = tempStrPname line :: namesRead lines (tempStrPname line) := by
  simp only [namesRead, if_pos h]

theorem namesRead_append (lines lines' : List (List UInt8)) (name : CStr) :
    namesRead (lines ++ lines') name =
      namesRead lines name ++ namesRead lines' ((namesRead lines name).getLastD name) := by
  induction lines generalizing name with
  | nil => rfl
  | cons line lines ih =>
    rw [List.cons_append, namesRead, namesRead, ih, List.cons_append, List.getLastD_cons]

/-- Where every piece begins with a line that reaches the column, each piece is read on its own. -/
theorem namesRead_flatMap {entries : List LogEntry} {f : LogEntry → List (List UInt8)}
    (hf : ∀ e ∈ entries, ∃ line more, f e = line :: more ∧ 4 ≤ line.length) (name : CStr) :
    namesRead (entries.flatMap f) name = entries.flatMap fun e => namesRead (f e) [] := by
  induction entries generalizing name with
  | nil => rfl
  | cons e entries ih =>
    obtain ⟨line, more, he, hlen⟩ := hf e List.mem_cons_self
    have hown : namesRead (f e) name = namesRead (f e) [] := by
      rw [he, namesRead_cons hlen, namesRead_cons hlen]
    rw [List.flatMap_cons, List.flatMap_cons, namesRead_append, hown,
      ih fun e' he' => hf e' (List.mem_cons_of_mem e he')]

/-- The names behind a name that was read rightly are read rightly if the lines that reach the
column are. -/
theorem namesRead_right_iff {name : CStr} (h : name = p ↔ Q) (lines : List (List UInt8)) :
    (∀ read ∈ namesRead lines name, (read = p ↔ Q)) ↔
      ∀ line ∈ lines, 4 ≤ line.length → (tempStrPname line = p ↔ Q) := by
  induction lines generalizing name with
  | nil => simp [namesRead]
  | cons line lines ih =>
    rw [namesRead, List.forall_mem_cons, List.forall_mem_cons]
    by_cases hlen : 4 ≤ line.length
    · rw [if_pos hlen]
      refine and_congr_left' (by simp [hlen]) |>.trans (and_congr_right fun hread => ?_)
      exact ih (hread hlen)
    · rw [if_neg hlen]
      have hskip : (4 ≤ line.length → (tempStrPname line = p ↔ Q)) ↔ (name = p ↔ Q) :=
        iff_of_true (fun hle => absurd hle hlen) h
      rw [hskip]
      exact and_congr_right fun hread => ih hread

/-- **A filter with a name** shows, of the lines that it shows without the name, those at which that
name is read. -/
theorem catLoop_name (hp : icpp.printfLogPname ≠ []) (lines : List (List UInt8)) (i : ℕ)
    {s s' : CatState} (hs : s'.readline = s.readline) :
    ((catLoop icpp lineEnd lines s)[i]?).join.isSome ↔
      ((catLoop { icpp with printfLogPname := [] } lineEnd lines s')[i]?).join.isSome ∧
        (namesRead lines (tempStrPname s.readline))[i]? = some icpp.printfLogPname := by
  induction lines generalizing i s s' with
  | nil => simp [catLoop, namesRead]
  | cons line lines ih =>
    rw [catLoop, catLoop, namesRead]
    cases i with
    | zero =>
      rw [List.getElem?_cons_zero, List.getElem?_cons_zero, List.getElem?_cons_zero,
        Option.join_some, Option.join_some, isSome_catLine_iff, isSome_catLine_iff, hs,
        ← tempStrPname_load_eq, Option.some_inj]
      have hname : NamePasses icpp (load line s.readline) ↔
          tempStrPname (load line s.readline) = icpp.printfLogPname :=
        (or_iff_right hp).trans eq_comm
      have hnone : NamePasses { icpp with printfLogPname := [] } (load line s.readline) := Or.inl rfl
      rw [hname]
      constructor
      · rintro ⟨hread, hrest⟩
        exact ⟨⟨hnone, hrest⟩, hread⟩
      · rintro ⟨⟨-, hrest⟩, hread⟩
        exact ⟨hread, hrest⟩
    | succ i =>
      rw [List.getElem?_cons_succ, List.getElem?_cons_succ, List.getElem?_cons_succ,
        ← tempStrPname_load_eq]
      exact ih i (by rw [hs])

/-- A filter with all letters and without a name or a keyword shows every line. -/
theorem catLine_open (readline : List UInt8) (color : UInt8) :
    (catLine ⟨bytes "EWNI", bytes "USP", [], []⟩ lineEnd readline color).1.isSome := by
  refine isSome_catLine_iff.2 ⟨Or.inl rfl, Or.inl rfl, Or.inr ?_⟩
  by_cases hletters : strstr (bytes "USP") (cstr (readline.take 1)) ∧
      strstr (bytes "EWNI") (cstr ((readline.drop 2).take 1))
  · exact Or.inr hletters
  · exact Or.inl hletters

end Names

/-! ## What the filter selects -/

section Selects

variable {entries : List LogEntry} {e : LogEntry}

/-- Of the lines that the other options let through, the filter for the name shows exactly those of
the member of that name.  `owners` are the calls that the lines come from. -/
def Selects (p : CStr) (cat : CliPrintPacket → CatState → CatOutcome) (owners : List LogEntry) :
    Prop :=
  ∀ icpp, icpp.printfLogPname = p → ∀ s i e, owners[i]? = some e →
    ((cat icpp s).prints i ↔ (cat { icpp with printfLogPname := [] } s).prints i ∧ e.IsOf p)

theorem selects_iff {cat : CliPrintPacket → CatState → CatOutcome} {lineEnd : CStr}
    {lines : List (List UInt8)} {owners : List LogEntry} (hp : p ≠ [])
    (hcat : ∀ icpp s, (cat icpp s).lines = catLoop icpp lineEnd lines s)
    (hlen : owners.length = lines.length) : Selects p cat owners ↔
      ∀ (buf : List UInt8) (i : ℕ) (e : LogEntry), owners[i]? = some e →
        ((namesRead lines (tempStrPname buf))[i]? = some p ↔ e.IsOf p) := by
  constructor
  · intro hselects buf i e he
    have hi : i < lines.length := by
      rw [← hlen]
      exact (List.getElem?_eq_some_iff.1 he).1
    have hopen : ((catLoop ⟨bytes "EWNI", bytes "USP", [], []⟩ lineEnd lines
        ⟨buf, 0⟩)[i]?).join.isSome := by
      obtain ⟨s', hs'⟩ := @catLoop_getElem? ⟨bytes "EWNI", bytes "USP", [], []⟩ lineEnd lines[i]
        ⟨buf, 0⟩ lines i (List.getElem?_eq_getElem hi)
      rw [hs', Option.join_some]
      exact catLine_open _ _
    have hboth := hselects ⟨bytes "EWNI", bytes "USP", p, []⟩ rfl ⟨buf, 0⟩ i e he
    simp only [CatOutcome.prints, hcat] at hboth
    rw [@catLoop_name ⟨bytes "EWNI", bytes "USP", p, []⟩ lineEnd hp lines i ⟨buf, 0⟩ ⟨buf, 0⟩ rfl,
      and_iff_right hopen, and_iff_right hopen] at hboth
    exact hboth
  · rintro hreads icpp rfl s i e he
    simp only [CatOutcome.prints, hcat]
    rw [catLoop_name hp lines i rfl, hreads s.readline i e he]

/-- Reading, place by place, is reading call by call. -/
theorem owners_iff {f : LogEntry → List CStr} {Q : LogEntry → Prop} :
    (∀ (i : ℕ) (e : LogEntry), (entries.flatMap fun e => (f e).map fun _ => e)[i]? = some e →
      ((entries.flatMap f)[i]? = some p ↔ Q e)) ↔
    ∀ e ∈ entries, ∀ name ∈ f e, (name = p ↔ Q e) := by
  let pairs := entries.flatMap fun e => (f e).map fun name => (name, e)
  have hnames : entries.flatMap f = pairs.map Prod.fst := by
    simp [pairs, List.map_flatMap, Function.comp_def]
  have howners : (entries.flatMap fun e => (f e).map fun _ => e) = pairs.map Prod.snd := by
    simp [pairs, List.map_flatMap, Function.comp_def]
  rw [hnames, howners]
  constructor
  · intro h e he name hname
    have hpair : (name, e) ∈ pairs :=
      List.mem_flatMap.2 ⟨e, he, List.mem_map.2 ⟨name, hname, rfl⟩⟩
    obtain ⟨i, hi⟩ := List.mem_iff_getElem?.1 hpair
    have hread := h i e (by rw [List.getElem?_map, hi]; rfl)
    rwa [List.getElem?_map, hi, Option.map_some, Option.some_inj] at hread
  · intro h i e he
    rw [List.getElem?_map, Option.map_eq_some_iff] at he
    obtain ⟨⟨name, e'⟩, hi, rfl⟩ := he
    obtain ⟨e'', he'', hpair⟩ := List.mem_flatMap.1 (List.mem_of_getElem? hi)
    obtain ⟨name', hname', heq⟩ := List.mem_map.1 hpair
    cases heq
    rw [List.getElem?_map, hi, Option.map_some, Option.some_inj]
    exact h e' he'' name hname'

/-- The name of the record is told from `p`: it is `p`, and `p` has at most 32 bytes and no blank, or
the first 32 bytes of it, up to the first blank, are not `p`. -/
structure NameClear (p : CStr) (e : LogEntry) : Prop where
  own : e.IsOf p → p.length ≤ 32 ∧ (32 : UInt8) ∉ p
  other : ¬ e.IsOf p → cutTail (e.pname.take 32) ≠ p

/-- The lines behind the first that reach the column have `p` there if the record is one of `p`, and
else have not. -/
def LinesClear (lib : Library) (p : CStr) (e : LogEntry) : Prop :=
  ∀ line ∈ (e.lines lib).tail, 4 ≤ line.length →
    (cutTail (cstr ((line.drop 4).take 32)) = p ↔ e.IsOf p)

/-- A record of one line that fits the buffer has no further lines. -/
theorem linesClear_of_one (hline : (10 : UInt8) ∉ e.record lib)
    (hlen : (e.record lib).length < 4090) : LinesClear lib p e := by
  have hmax : ipcCmdlineMaxSize = 4096 := rfl
  have hmem : (10 : UInt8) ∉ e.record lib ++ [13] := by simp [hline]
  have htext : e.text lib = (e.record lib ++ [13]) ++ 10 :: [] := by
    rw [LogEntry.text, List.append_assoc]
    rfl
  have hfit : (e.record lib ++ [13]).length + 1 < ipcCmdlineMaxSize := by
    rw [List.length_append, List.length_singleton, hmax]
    omega
  have hone : e.lines lib = [e.record lib ++ [13] ++ [10]] := by
    rw [LogEntry.lines, htext, chunks_line (by decide) hmem hfit, chunks_nil]
  intro line hrest
  rw [hone] at hrest
  cases hrest

theorem nameClear_iff (hp : MemberName p) (hnamed : e.Named) :
    (cutTail (e.pname.take 32) = p ↔ e.IsOf p) ↔ NameClear p e := by
  constructor
  · intro h
    refine ⟨fun hof => ?_, fun hnot hread => hnot (h.1 hread)⟩
    rw [← cutTail_take_iff hp]
    have hread := h.2 hof
    rwa [hof.pname_eq hnamed] at hread
  · rintro ⟨hown, hother⟩
    refine ⟨fun hread => ?_, fun hof => ?_⟩
    · by_contra hnot
      exact hother hnot hread
    · rw [hof.pname_eq hnamed]
      exact (cutTail_take_iff hp).2 (hown hof)

/-- The names that are read of a record are right exactly if its name and its lines are clear. -/
theorem lines_right_iff (hp : MemberName p) (hnamed : e.Named) :
    (∀ name ∈ namesRead (e.lines lib) [], (name = p ↔ e.IsOf p)) ↔
      NameClear p e ∧ LinesClear lib p e := by
  obtain ⟨rest, more, hlines⟩ := LogEntry.lines_eq lib hnamed
  have hname := LogEntry.memberName_pname hnamed
  have hfirst := @tempStrPname_recordStart e.pname e.tlt e.level hname rest
  rw [LinesClear, hlines, namesRead_cons (four_le_recordStart hname rest), List.forall_mem_cons,
    hfirst, nameClear_iff hp hnamed, List.tail_cons]
  refine and_congr_right fun hclear => ?_
  rw [namesRead_right_iff ((nameClear_iff hp hnamed).2 hclear)]
  simp only [tempStrPname_eq]

/-- What is read of the line is the name, whatever the buffer held before. -/
def ReadsAs (p : CStr) (line : List UInt8) : Prop := ∀ buf, tempStrPname (load line buf) = p

/-- In the file: the name of a record of the member is read back of its first line, and the filter
for the name selects the lines of the records of that member. -/
def FileSelects (lib : Library) (conf : DebugConf) (p : CStr) (entries : List LogEntry) : Prop :=
  (∀ e ∈ entries, e.IsOf p → ∃ line ∈ (e.lines lib).head?, ReadsAs p line) ∧
  Selects p
    (fun icpp s => ipcdMiscCat icpp 0 (some (logAll lib conf {} entries).logFile) {} s)
    (entries.flatMap fun e => (e.lines lib).map fun _ => e)

/-- In memory, where the records of `kept` are. -/
def MemorySelects (lib : Library) (conf : DebugConf) (p : CStr) (kept : List LogEntry) : Prop :=
  (∀ e ∈ kept, e.IsOf p → ReadsAs p (snprintf ipcCmdlineMaxSize (e.record lib))) ∧
  Selects p
    (fun icpp s => ipcdMiscCat icpp conf.debugLogSize none
      ⟨kept.map (LogEntry.record lib), kept.length, 0⟩ s)
    kept

/-- Both kinds of log are read in pieces, one for each call, that begin as records. -/
theorem selects_pieces {cat : CliPrintPacket → CatState → CatOutcome} {lineEnd : CStr}
    {f : LogEntry → List (List UInt8)} (hp : p ≠ [])
    (hf : ∀ e ∈ entries, ∃ line more, f e = line :: more ∧ 4 ≤ line.length)
    (hcat : ∀ icpp s, (cat icpp s).lines = catLoop icpp lineEnd (entries.flatMap f) s) :
    Selects p cat (entries.flatMap fun e => (f e).map fun _ => e) ↔
      ∀ e ∈ entries, ∀ name ∈ namesRead (f e) [], (name = p ↔ e.IsOf p) := by
  have howners : (entries.flatMap fun e => (f e).map fun _ => e) =
      entries.flatMap fun e => (namesRead (f e) []).map fun _ => e := by
    simp only [List.map_const', length_namesRead]
  rw [selects_iff hp hcat (by simp [List.length_flatMap]), howners]
  simp only [namesRead_flatMap hf]
  rw [forall_const, owners_iff]

theorem fileSelects_iff (hp : MemberName p) (hnamed : ∀ e ∈ entries, e.Named)
    (hsize : conf.debugLogSize = 0) :
    FileSelects lib conf p entries ↔ ∀ e ∈ entries, NameClear p e ∧ LinesClear lib p e := by
  have hpieces : ∀ e ∈ entries, ∃ line more, e.lines lib = line :: more ∧ 4 ≤ line.length := by
    intro e he
    obtain ⟨rest, more, hlines⟩ := LogEntry.lines_eq lib (hnamed e he)
    exact ⟨_, more, hlines, four_le_recordStart (LogEntry.memberName_pname (hnamed e he)) rest⟩
  have hread : chunks ipcCmdlineMaxSize (logAll lib conf {} entries).logFile =
      entries.flatMap (LogEntry.lines lib) := by
    rw [logAll_file hsize, List.nil_append, chunks_flatMap_text]
  rw [FileSelects, selects_pieces hp.ne_nil hpieces fun icpp s => by rw [ipcdMiscCat_file, hread],
    forall₂_congr fun e he => lines_right_iff hp (hnamed e he)]
  refine and_iff_right_of_imp fun hclear e he hof => ?_
  -- the first line is one of those that are read rightly
  obtain ⟨rest, more, hlines⟩ := LogEntry.lines_eq lib (hnamed e he)
  have hname := LogEntry.memberName_pname (hnamed e he)
  refine ⟨_, by rw [hlines]; rfl, fun buf => ?_⟩
  rw [tempStrPname_load (four_le_recordStart hname rest), tempStrPname_recordStart hname]
  exact ((nameClear_iff hp (hnamed e he)).2 (hclear e he).1).2 hof

theorem memorySelects_iff (hp : MemberName p) (hnamed : ∀ e ∈ entries, e.Named)
    (hsize : conf.debugLogSize > 0) :
    MemorySelects lib conf p entries ↔ ∀ e ∈ entries, NameClear p e := by
  have hcopy : ∀ e ∈ entries, 4 ≤ (snprintf ipcCmdlineMaxSize (e.record lib)).length ∧
      tempStrPname (snprintf ipcCmdlineMaxSize (e.record lib)) = cutTail (e.pname.take 32) := by
    intro e he
    have hname := LogEntry.memberName_pname (hnamed e he)
    obtain ⟨rest, hrecord⟩ := LogEntry.record_eq lib (hnamed e he)
    rw [hrecord, snprintf, take_recordStart hname _ (by decide)]
    exact ⟨four_le_recordStart hname _, tempStrPname_recordStart hname _⟩
  have howners : entries = entries.flatMap fun e =>
      [snprintf ipcCmdlineMaxSize (e.record lib)].map fun _ => e := by
    simp
  have hselects := @selects_pieces p entries
    (fun icpp s => ipcdMiscCat icpp conf.debugLogSize none
      ⟨entries.map (LogEntry.record lib), entries.length, 0⟩ s) (bytes "\n")
    (fun e => [snprintf ipcCmdlineMaxSize (e.record lib)]) hp.ne_nil
    (fun e he => ⟨_, [], rfl, (hcopy e he).1⟩) fun icpp s => by
      rw [ipcdMiscCat_memory none hsize (by simp [MemoryLog.Counted]) rfl, List.map_map,
        List.map_eq_flatMap]
      rfl
  rw [← howners] at hselects
  rw [MemorySelects, hselects]
  have hone : ∀ e ∈ entries, (∀ name ∈ namesRead [snprintf ipcCmdlineMaxSize (e.record lib)] [],
      (name = p ↔ e.IsOf p)) ↔ NameClear p e := by
    intro e he
    rw [namesRead_cons (hcopy e he).1, (hcopy e he).2, List.forall_mem_cons,
      nameClear_iff hp (hnamed e he)]
    simp [namesRead]
  rw [forall₂_congr hone]
  refine and_iff_right_of_imp fun hclear e he hof buf => ?_
  rw [tempStrPname_load (hcopy e he).1, (hcopy e he).2]
  exact ((nameClear_iff hp (hnamed e he)).2 (hclear e he)).2 hof

/-- The registry with the members `app1` and `my app`. -/
def twoMembers : List MlistMember :=
  [newMember ⟨7, bytes "app1", 70, 71, 0⟩ 1, newMember ⟨8, bytes "my app", 80, 81, 0⟩ 1]

/-- A process logs a text. -/
def logs (pid : ℤ) (text : CStr) : LogEntry := ⟨⟨5, 42000000⟩, twoMembers, .user, 0, pid, text, []⟩

theorem named_logs (pid : ℤ) (text : CStr) : (logs pid text).Named := by
  have hall : ∀ m ∈ twoMembers, m.pname = bytes "app1" ∨ m.pname = bytes "my app" := by decide
  intro m hm
  rcases hall m hm with h | h <;>
    exact h ▸ ⟨by decide, by decide, by decide, by decide, by decide, by decide⟩

/-- Both members and the daemon log, in turn. -/
def mixedLog : List LogEntry :=
  [logs 7 (bytes "one"), logs 8 (bytes "app1"), logs 0 (bytes "two"), logs 7 (bytes "three")]

end Selects

end EasyIpc

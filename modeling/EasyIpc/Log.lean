import EasyIpc.Client
import EasyIpc.Registry
import EasyIpc.Lib.Printf

/-!
# Log records

`ipc_log`, `ipc_print` and `_ipc_dbg` of `easyipc_support.c`, the branch of `ipcd_analysis_core` for
their packets, and `ipcd_log_save_and_print` of `easyipc_debug.c`.  The text is formatted in the
process and sent; the daemon passes it on as the format of its own `vsprintf`.

* `ipcdLogSaveAndPrint` — the record, what goes to the consoles, and the logs.
* `user_log_verbatim` — the body of the record is the text of the process, whatever the C library
  does with directives that lack their argument, exactly if the text has no `%`.

The two calls of `vsprintf`, in the process and in the daemon, have each their own library.  A
failed write to the log file, which makes the daemon create the file anew, is not modelled.
-/

namespace EasyIpc

open Printf

/-- `IPC_DEBUG_PRINT_MAX_SIZE`. -/
def ipcDebugPrintMaxSize : ℕ := 8192

/-! ## The processes -/

/-- `ENUM_IPC_LOG_LEVEL_ERR` to `ENUM_IPC_LOG_LEVEL_DBG`. -/
def ipcLogLevelErr : ℤ := 0
def ipcLogLevelWarn : ℤ := 1
def ipcLogLevelNormal : ℤ := 2
def ipcLogLevelInfo : ℤ := 3
def ipcLogLevelDbg : ℤ := 4

/-- What the three functions do with the text they have formatted. -/
def sendLog (maxSize : ℕ) (ipc : IpcHandle) (level : ℤ) (sprintBuf : CStr) : List IpcPacket :=
  ipcDataToDaemon maxSize ipc (.log ⟨level, sprintBuf⟩)

/-- `ipc_log`. -/
def ipcLog (lib : Library) (maxSize : ℕ) (ipc : IpcHandle) (level : ℤ) (fmt : CStr)
    (args : List Arg) : List IpcPacket :=
  sendLog maxSize ipc level (vsprintf lib fmt args)

/-- `ipc_print`. -/
def ipcPrint (lib : Library) (maxSize : ℕ) (ipc : IpcHandle) (fmt : CStr) (args : List Arg) :
    List IpcPacket :=
  sendLog maxSize ipc ipcLogLevelNormal (vsprintf lib fmt args)

/-- What `_ipc_dbg` puts before the text. -/
def dbgPrefix (lib : Library) (file fn : CStr) (line : ℤ) : CStr :=
  vsprintf lib (bytes "[dbg] %s->%s:%d ") [.str file, .str fn, .int line]

/-- `_ipc_dbg`. -/
def ipcDbg (lib : Library) (maxSize : ℕ) (ipc : IpcHandle) (file fn : CStr) (line : ℤ) (fmt : CStr)
    (args : List Arg) : List IpcPacket :=
  sendLog maxSize ipc ipcLogLevelDbg (dbgPrefix lib file fn line ++ vsprintf lib fmt args)

/-- A call of one of the three functions. -/
inductive LogCall where
  | ipcLog (level : ℤ) (fmt : CStr) (args : List Arg)
  | ipcPrint (fmt : CStr) (args : List Arg)
  | ipcDbg (file fn : CStr) (line : ℤ) (fmt : CStr) (args : List Arg)
  deriving DecidableEq, Repr

/-- The packets of a call. -/
def LogCall.send (lib : Library) (maxSize : ℕ) (ipc : IpcHandle) : LogCall → List IpcPacket
  | .ipcLog level fmt args => EasyIpc.ipcLog lib maxSize ipc level fmt args
  | .ipcPrint fmt args => EasyIpc.ipcPrint lib maxSize ipc fmt args
  | .ipcDbg file fn line fmt args => EasyIpc.ipcDbg lib maxSize ipc file fn line fmt args

/-- The text the process produces. -/
def LogCall.text (lib : Library) : LogCall → CStr
  | .ipcLog _ fmt args => vsprintf lib fmt args
  | .ipcPrint fmt args => vsprintf lib fmt args
  | .ipcDbg file fn line fmt args => dbgPrefix lib file fn line ++ vsprintf lib fmt args

/-- The level it logs at. -/
def LogCall.level : LogCall → ℤ
  | .ipcLog level _ _ => level
  | .ipcPrint _ _ => ipcLogLevelNormal
  | .ipcDbg _ _ _ _ _ => ipcLogLevelDbg

theorem LogCall.send_eq (lib : Library) (maxSize : ℕ) (ipc : IpcHandle) (call : LogCall) :
    call.send lib maxSize ipc = sendLog maxSize ipc call.level (call.text lib) := by
  cases call <;> rfl

/-! ## The daemon -/

/-- `IPC_LOG_TYPE`. -/
inductive IpcLogType where
  | user
  | progess
  | system
  deriving DecidableEq, Repr

/-- `tlt_char`. -/
def IpcLogType.char : IpcLogType → CStr
  | .user => bytes "U"
  | .progess => bytes "P"
  | .system => bytes "S"

/-- `level_char`. -/
def levelChar (level : ℤ) : CStr :=
  if level = ipcLogLevelErr then bytes "E"
  else if level = ipcLogLevelWarn then bytes "W"
  else if level = ipcLogLevelNormal then bytes "N"
  else if level = ipcLogLevelInfo then bytes "I"
  else if level = ipcLogLevelDbg then bytes "D"
  else bytes "?"

/-- The colour a record of the level is printed in. -/
def levelColour (level : ℤ) : CStr :=
  if level = ipcLogLevelErr then bytes "\x1b[0;31m"
  else if level = ipcLogLevelWarn then bytes "\x1b[1;33m"
  else if level = ipcLogLevelNormal then bytes "\x1b[1;32m"
  else if level = ipcLogLevelInfo then bytes "\x1b[1m"
  else if level = ipcLogLevelDbg then bytes "\x1b[1;35m"
  else bytes "\x1b[0;31m"

/-- `NONE` and the end of the line. -/
def colourEnd : CStr := bytes "\x1b[0m\r\n"

/-- What the daemon's command line and `eipcprint` set: where records are kept, and which are
printed. -/
structure DebugConf where
  debugLogSize : ℤ
  printfLogTypeFlag : CStr
  printfLogLevelFlag : CStr
  deriving DecidableEq, Repr

/-- The log file and `log_list`. -/
structure DebugLog where
  logFile : List UInt8 := []
  logList : List CStr := []
  deriving DecidableEq, Repr

/-- `ipcd_get_pname_via_pid`, as used for the log: the name that is left in `pname`. -/
def ipcdGetPnameViaPid (mlist : List MlistMember) (pid : ℤ) : CStr :=
  match ipcdGetMlistViaPid mlist pid with
  | some tmlm => snprintf processNameMaxSize tmlm.pname
  | none => []

/-- The name in the record of a process id. -/
def logPname (mlist : List MlistMember) (pid : ℤ) : CStr :=
  if pid > 0 then
    if (ipcdGetPnameViaPid mlist pid).length ≤ 0 then bytes "unknow"
    else ipcdGetPnameViaPid mlist pid
  else bytes "ipcd"

/-- `ipcd_debug_log_memory_push`. -/
def ipcdDebugLogMemoryPush (debugLogSize : ℤ) (str : CStr) (maxsize : ℕ) (logList : List CStr) :
    List CStr :=
  let mallocSize := if str.length + 1 > maxsize then maxsize else str.length + 1
  let tmpm := snprintf mallocSize str
  (if logList.length > debugLogSize then logList.eraseIdx 0 else logList) ++ [tmpm]

/-- The format of a record. -/
def recordFormat : CStr := bytes "%s %s %-32s %6ld.%03ld : %s"

/-- `save_buf`: the record of the formatted text. -/
def saveBuf (lib : Library) (ptime : Timespec) (tlt : IpcLogType) (level : ℤ) (pname sprintBuf : CStr) :
    CStr :=
  snprintf ipcDebugPrintMaxSize (vsprintf lib recordFormat [.str tlt.char, .str (levelChar level),
    .str pname, .int ptime.tvSec, .int (ptime.tvNsec.tdiv 1000000), .str sprintBuf])

/-- `printf_buf`: the record as it is printed. -/
def printfBuf (lib : Library) (level : ℤ) (save : CStr) : CStr :=
  snprintf ipcDebugPrintMaxSize
    (vsprintf lib (levelColour level ++ bytes "%s" ++ colourEnd) [.str save])

/-- `strstr` as a test. -/
def strstr (str sub : CStr) : Bool := str.tails.any fun t => sub.isPrefixOf t

/-- What one call of `ipcd_log_save_and_print` leaves. -/
structure LogOutcome where
  saveBuf : CStr
  printed : Option CStr
  log : DebugLog
  deriving DecidableEq, Repr

/-- `ipcd_log_save_and_print`. -/
def ipcdLogSaveAndPrint (lib : Library) (conf : DebugConf) (ptime : Timespec)
    (mlist : List MlistMember) (log : DebugLog) (tlt : IpcLogType) (level pid : ℤ) (fmt : CStr)
    (args : List Arg) : LogOutcome :=
  let sprintBuf := vsprintf lib fmt args
  let save := saveBuf lib ptime tlt level (logPname mlist pid) sprintBuf
  { saveBuf := save
    printed :=
      if strstr conf.printfLogTypeFlag tlt.char &&
          strstr conf.printfLogLevelFlag (levelChar level) then
        some (printfBuf lib level save)
      else none
    log :=
      if conf.debugLogSize = 0 then { log with logFile := log.logFile ++ save ++ bytes "\r\n" }
      else if conf.debugLogSize > 0 then
        { log with
          logList := ipcdDebugLogMemoryPush conf.debugLogSize save ipcDebugPrintMaxSize
            log.logList }
      else log }

/-- The branch of `ipcd_analysis_core` for `ENUM_PROCESS_LOG`: the text is the format. -/
def ipcdProcessLog (lib : Library) (conf : DebugConf) (ptime : Timespec)
    (mlist : List MlistMember) (log : DebugLog) (pkt : IpcPacket) : Option LogOutcome :=
  match pkt.body with
  | .log il =>
      some (ipcdLogSaveAndPrint lib conf ptime mlist log .user il.level pkt.sendPid il.data [])
  | _ => none

/-! ## The record -/

/-- The record up to its body. -/
def recordHeader (ptime : Timespec) (tlt : IpcLogType) (level : ℤ) (pname : CStr) : CStr :=
  tlt.char ++ bytes " " ++ levelChar level ++ bytes " " ++
    (⟨true, false, 32, 115⟩ : Spec).pad pname ++ bytes " " ++
    (⟨false, false, 6, 100⟩ : Spec).number ptime.tvSec ++ bytes "." ++
    (⟨false, true, 3, 100⟩ : Spec).number (ptime.tvNsec.tdiv 1000000) ++ bytes " : "

section Record

variable {lib : Library} {ptime : Timespec} {tlt : IpcLogType} {level : ℤ} {pname body : CStr}

/-- What `save_buf` is cut from: the header and the formatted text. -/
theorem vsprintf_recordFormat : vsprintf lib recordFormat [.str tlt.char, .str (levelChar level),
    .str pname, .int ptime.tvSec, .int (ptime.tvNsec.tdiv 1000000), .str body] =
    recordHeader ptime tlt level pname ++ body := by
  have hfmt : recordFormat = 37 :: 115 :: 32 :: 37 :: 115 :: 32 :: 37 :: (bytes "-32s" ++
    32 :: 37 :: (bytes "6ld" ++ 46 :: 37 :: (bytes "03ld" ++ 32 :: 58 :: 32 :: 37 :: [115]))) := by
    decide
  unfold vsprintf
  rw [hfmt, format_str, format_cons (by decide), format_str, format_cons (by decide),
    format_spec ⟨true, false, 32, 115⟩ _ (by decide) rfl rfl, format_cons (by decide),
    format_spec ⟨false, false, 6, 100⟩ _ (by decide) rfl rfl, format_cons (by decide),
    format_spec ⟨false, true, 3, 100⟩ _ (by decide) rfl rfl,
    format_cons (by decide), format_cons (by decide), format_cons (by decide), format_str]
  unfold recordHeader
  simp only [List.append_assoc, format, List.append_nil]
  rfl

theorem saveBuf_eq : saveBuf lib ptime tlt level pname body =
    snprintf ipcDebugPrintMaxSize (recordHeader ptime tlt level pname ++ body) := by
  rw [saveBuf, vsprintf_recordFormat]

/-- The colours are escape sequences of at most 7 bytes without a directive. -/
theorem levelColour_spec (level : ℤ) :
    (37 : UInt8) ∉ levelColour level ∧ (levelColour level).length ≤ 7 := by
  unfold levelColour
  split_ifs <;> decide

theorem printfBuf_eq {save : CStr} (h : save.length + 13 < ipcDebugPrintMaxSize) :
    printfBuf lib level save = levelColour level ++ save ++ colourEnd := by
  obtain ⟨hcolour, hlen⟩ := levelColour_spec level
  have hend : colourEnd.length = 6 := by decide
  have hcopy : format lib 0 colourEnd [] = colourEnd := vsprintf_of_not_mem (by decide)
  have hfmt : vsprintf lib (levelColour level ++ bytes "%s" ++ colourEnd) [.str save] =
      levelColour level ++ save ++ colourEnd := by
    unfold vsprintf
    rw [List.append_assoc, format_append_of_not_mem hcolour]
    show levelColour level ++ format lib 0 (37 :: 115 :: colourEnd) [.str save] = _
    rw [format_str, hcopy, List.append_assoc]
  rw [printfBuf, hfmt]
  apply snprintf_of_lt
  simp only [List.length_append]
  omega

/-- A record that fits is the last of `log_list`. -/
theorem getLast?_ipcdDebugLogMemoryPush (debugLogSize : ℤ) (logList : List CStr) {str : CStr}
    {maxsize : ℕ} (h : str.length < maxsize) :
    (ipcdDebugLogMemoryPush debugLogSize str maxsize logList).getLast? = some str := by
  have htmpm : snprintf (if str.length + 1 > maxsize then maxsize else str.length + 1) str = str := by
    apply snprintf_of_lt
    split <;> omega
  unfold ipcdDebugLogMemoryPush
  simp only [htmpm, List.getLast?_append, List.getLast?_singleton, Option.some_or]

/-- The text `body` is recorded verbatim: it stands behind the header in `save_buf`, in the log that
is kept, and in what is printed. -/
structure Recorded (conf : DebugConf) (log : DebugLog) (level : ℤ) (header body : CStr)
    (out : LogOutcome) : Prop where
  saveBuf : out.saveBuf = header ++ body
  saved : conf.debugLogSize = 0 →
    out.log.logFile = log.logFile ++ (header ++ body) ++ bytes "\r\n"
  kept : conf.debugLogSize > 0 → out.log.logList.getLast? = some (header ++ body)
  printed : ∀ p ∈ out.printed, p = levelColour level ++ (header ++ body) ++ colourEnd

variable {conf : DebugConf} {mlist : List MlistMember} {log : DebugLog} {pid : ℤ} {fmt : CStr}
  {args : List Arg}

/-- The formatted text is recorded verbatim if the record fits the buffers. -/
theorem recorded_ipcdLogSaveAndPrint
    (hbuf : (recordHeader ptime tlt level (logPname mlist pid)).length +
      (vsprintf lib fmt args).length + 13 < ipcDebugPrintMaxSize) :
    Recorded conf log level (recordHeader ptime tlt level (logPname mlist pid))
      (vsprintf lib fmt args)
      (ipcdLogSaveAndPrint lib conf ptime mlist log tlt level pid fmt args) := by
  have hsave : saveBuf lib ptime tlt level (logPname mlist pid) (vsprintf lib fmt args) =
      recordHeader ptime tlt level (logPname mlist pid) ++ vsprintf lib fmt args := by
    rw [saveBuf_eq, snprintf_of_lt]
    rw [List.length_append]
    omega
  have hlen : (recordHeader ptime tlt level (logPname mlist pid) ++
      vsprintf lib fmt args).length + 13 < ipcDebugPrintMaxSize := by
    rwa [List.length_append]
  constructor
  · exact hsave
  · intro hsize
    simp only [ipcdLogSaveAndPrint, if_pos hsize, hsave]
  · intro hsize
    have hne : conf.debugLogSize ≠ 0 := by omega
    simp only [ipcdLogSaveAndPrint, if_neg hne, if_pos hsize, hsave]
    exact getLast?_ipcdDebugLogMemoryPush _ _ (Nat.lt_of_le_of_lt (Nat.le_add_right _ 13) hlen)
  · intro p hp
    simp only [ipcdLogSaveAndPrint, hsave] at hp
    split at hp
    · rw [printfBuf_eq hlen] at hp
      exact (Option.mem_some.1 hp).symm
    · cases hp

end Record

section Verbatim

variable {maxSize : ℕ} {ptime : Timespec} {mlist : List MlistMember} {ipc : IpcHandle}
  {call : LogCall} {client : Library}

/-- **The text a process logs is recorded verbatim exactly if it has no `%`.**  The packet with the
text is below the size limit, and the record fits the buffers of the daemon, also with the at most
13 bytes that set and reset the colour and end the line. -/
theorem user_log_verbatim (conf : DebugConf) (log : DebugLog)
    (hpacket : sizeofIpcPacket + (12 + ((call.text client).length + 1)) < maxSize)
    (hbuf : (recordHeader ptime .user call.level (logPname mlist ipc.pid)).length +
      (call.text client).length + 13 < ipcDebugPrintMaxSize) :
    ∃ pkt, call.send client maxSize ipc = [pkt] ∧
      ((∀ lib, ∃ out, ipcdProcessLog lib conf ptime mlist log pkt = some out ∧
        Recorded conf log call.level (recordHeader ptime .user call.level (logPname mlist ipc.pid))
          (call.text client) out) ↔
      (37 : UInt8) ∉ call.text client) := by
  refine ⟨⟨ipc.pid, .log ⟨call.level, call.text client⟩⟩, ?_, ?_, ?_⟩
  · rw [LogCall.send_eq, sendLog, ipcDataToDaemon, if_neg]
    show ¬ sizeofIpcPacket + (12 + ((call.text client).length + 1)) ≥ maxSize
    omega
  · -- A library that writes nothing for what is undefined makes the record too short.
    intro h hmem
    obtain ⟨out, hout, hrec⟩ := h silent
    obtain rfl := Option.some.inj hout
    have hsave := hrec.saveBuf
    simp only [ipcdLogSaveAndPrint, saveBuf_eq, snprintf] at hsave
    have hlen := congrArg List.length hsave
    have hshort := length_vsprintf_silent_lt hmem
    simp only [List.length_take, List.length_append] at hlen
    omega
  · intro h lib
    refine ⟨_, rfl, ?_⟩
    have htext : vsprintf lib (call.text client) [] = call.text client := vsprintf_of_not_mem h
    have hrec := @recorded_ipcdLogSaveAndPrint lib ptime .user call.level conf mlist log ipc.pid
      (call.text client) []
    rw [htext] at hrec
    exact hrec hbuf

/-- The hypotheses hold of a plain line. -/
theorem user_log_verbatim_hello :
    (∀ lib, ∃ out, ipcdProcessLog lib ⟨0, bytes "UPS", bytes "ED"⟩ ⟨5, 42000000⟩ [] {}
      ⟨1, .log ⟨2, bytes "hello"⟩⟩ = some out ∧
      Recorded ⟨0, bytes "UPS", bytes "ED"⟩ {} 2
        (recordHeader ⟨5, 42000000⟩ .user 2 (logPname [] 1)) (bytes "hello") out) ↔
    (37 : UInt8) ∉ bytes "hello" := by
  obtain ⟨pkt, hpkt, h⟩ := @user_log_verbatim 4096 ⟨5, 42000000⟩ [] ⟨1, bytes "a", 10, 11, [], [], [], 0⟩
    (.ipcLog 2 (bytes "hello") []) silent ⟨0, bytes "UPS", bytes "ED"⟩ {} (by decide) (by decide)
  obtain rfl : ⟨1, .log ⟨2, bytes "hello"⟩⟩ = pkt := List.singleton_inj.1 hpkt
  exact h

/-- The text `100%%`, which `ipc_log(ipc, level, "%s", "100%%")` sends, is recorded as `100%`. -/
theorem user_log_percent :
    (LogCall.ipcLog 2 (bytes "%s") [.str (bytes "100%%")]).text silent = bytes "100%%" ∧
    ∀ lib, ∃ out, ipcdProcessLog lib ⟨0, bytes "UPS", bytes "ED"⟩ ⟨5, 42000000⟩ [] {}
        ⟨1, .log ⟨2, bytes "100%%"⟩⟩ = some out ∧
      out.saveBuf = recordHeader ⟨5, 42000000⟩ .user 2 (logPname [] 1) ++ bytes "100%" ∧
      ¬ Recorded ⟨0, bytes "UPS", bytes "ED"⟩ {} 2
        (recordHeader ⟨5, 42000000⟩ .user 2 (logPname [] 1)) (bytes "100%%") out := by
  refine ⟨by decide, fun lib => ⟨_, rfl, ?_⟩⟩
  have htext : vsprintf lib (bytes "100%%") [] = bytes "100%" := rfl
  have hrec := @recorded_ipcdLogSaveAndPrint lib ⟨5, 42000000⟩ .user 2
    ⟨0, bytes "UPS", bytes "ED"⟩ [] {} 1 (bytes "100%%") [] (by rw [htext]; decide)
  rw [htext] at hrec
  refine ⟨hrec.saveBuf, fun hclaim => ?_⟩
  have hbody := List.append_cancel_left (hrec.saveBuf.symm.trans hclaim.saveBuf)
  exact absurd hbody (by decide)

end Verbatim

end EasyIpc

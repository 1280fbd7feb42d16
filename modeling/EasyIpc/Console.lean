import EasyIpc.Cat
import EasyIpc.Daemon
import EasyIpc.PluginEffects
import EasyIpc.Lib.Trace

/-!
# The control socket

`ipcctl_analysis_core`, which serves the `eipc` commands in the daemon, with the plugin functions that it
calls: `ipcd_plugin_monitor_add_file`, `ipcd_plugin_monitor_add_dir`, `ipcd_plugin_refresh`,
`ipcd_plugin_monitor_msg_clean` and `ipcd_plugin_monitor_clean`.  A command is served under the mutex
of the table of the members, so it is one step between two steps of the daemon's own threads.

* `Console` — the daemon, the two lists of `easyipc_plugin.c` (each of which may be null) and the flags
  for printing.
* `ipcctlAnalysisCore` — one command; `none` where the daemon reads through a null pointer and ends.
* `msgQuery` — the lines that `eipcmsg` asks for, as they are printed and as the consoles get them.
* `consoleMachine`, `daemonMachine` — the daemon with and without the control socket.

What the commands print is left out here, but for `msgQuery`.
-/

namespace EasyIpc

open Printf Transition Trace

/-! ## Commands -/

/-- What the plugin functions ask the file system: `realpath`, the tree behind a path, and the names in
a directory in the order of `alphasort`. -/
structure FileSystem where
  realpath : CStr → Option CStr
  files : Files
  scandir : CStr → List CStr

/-- `ipc_cli_plugin_packet`, by its `type`. -/
inductive CliPluginPacket where
  | file (path : CStr)
  | dir (path : CStr)
  | view
  | refresh
  | clean
  /-- Any other `type`. -/
  | other

/-- `ipc_cli_packet`, by its `ict`. -/
inductive CliPacket where
  | help
  | cat (icpp : CliPrintPacket)
  | ls (pname : CStr)
  | print (printfLogTypeFlag printfLogLevelFlag : CStr) (printfBroadcastFlag : Bool)
  | plugin (icpp : CliPluginPacket)
  | script
  | api
  | msg (keyword : List CStr)
  | rpc (printfLogTypeFlag printfLogLevelFlag : CStr)
  /-- Any other `ict`. -/
  | other

/-- A command, with what the file system answers while it is served and what the uninitialised
variables of the loaders hold. -/
structure Command where
  fs : FileSystem
  junk : ℕ → ℕ → ℕ → PluginBroadcatType
  icp : CliPacket

/-- The state of the daemon that the control socket can change or show. -/
structure Console where
  daemon : Daemon := {}
  /-- `monitor_msglist`, which may be `NULL`. -/
  monitorMsglist : Option (List MonitorMsg) := none
  /-- `plugin_config_jsonlist`, which may be `NULL`. -/
  pluginConfigJsonlist : Option (List PluginUnit) := none
  printfLogTypeFlag : CStr := []
  printfLogLevelFlag : CStr := []
  printfBroadcastFlag : Bool := false
  printfRpcFlag : Bool := false

namespace Console

/-- What the loaders work on. -/
def plugins (c : Console) : Plugins :=
  ⟨⟨c.monitorMsglist.getD [], c.daemon.mlist⟩, c.pluginConfigJsonlist.getD []⟩

/-- A list that is created when something is put into it. -/
def created {α : Type} (list : Option (List α)) (entries : List α) : Option (List α) :=
  if list.isNone && entries.isEmpty then none else some entries

/-- What the loaders leave; `units` says whether there is a list of files. -/
def put (c : Console) (s : Plugins) (units : Bool) : Console :=
  { c with
    daemon := { c.daemon with mlist := s.mlist }
    monitorMsglist := created c.monitorMsglist s.monitorMsglist
    pluginConfigJsonlist := if units then some s.pluginConfigJsonlist else none }

/-- The file has been loaded under this path. -/
def loaded (c : Console) (path : CStr) : Bool :=
  (c.pluginConfigJsonlist.getD []).any fun ppu => ppu.filename == path

end Console

/-! ## Plugin commands -/

/-- `ipcd_plugin_monitor_add_file`, from a name on: the list of files is created once a file has been
parsed. -/
def pluginAddFile (fs : FileSystem) (junk : ℕ → ℕ → PluginBroadcatType) (filename : CStr)
    (c : Console) : Option Console :=
  match fs.realpath filename with
  | none => some c
  | some path =>
      let parsed := !c.loaded path && (fs.files path).isSome
      (ipcdPluginMonitorAddFile fs.files junk path c.plugins).map fun s =>
        c.put s (c.pluginConfigJsonlist.isSome || parsed)

/-- `ec_filter`: the name ends in `.ec` and has more in front. -/
def ecFilter (name : CStr) : Bool := name.length > 3 && name.drop (name.length - 3) == bytes ".ec"

/-- The loop of `ipcd_plugin_monitor_add_dir`, from the `j`th name on. -/
def pluginAddFiles (fs : FileSystem) (junk : ℕ → ℕ → ℕ → PluginBroadcatType) :
    ℕ → List CStr → Console → Option Console
  | _, [], c => some c
  | j, name :: names, c => do
      let c ← pluginAddFile fs (junk j) name c
      pluginAddFiles fs junk (j + 1) names c

/-- `ipcd_plugin_monitor_add_dir`.  The names are looked up without the directory in front. -/
def ipcdPluginMonitorAddDir (fs : FileSystem) (junk : ℕ → ℕ → ℕ → PluginBroadcatType)
    (dirname : CStr) (c : Console) : Option Console :=
  match fs.realpath dirname with
  | none => some c
  | some path => pluginAddFiles fs junk 0 ((fs.scandir path).filter ecFilter) c

/-- `ipcd_plugin_refresh`. -/
def pluginRefresh (fs : FileSystem) (junk : ℕ → ℕ → ℕ → PluginBroadcatType) (c : Console) :
    Option Console :=
  (ipcdPluginRefresh fs.files junk c.plugins).map fun s => c.put s c.pluginConfigJsonlist.isSome

/-- `ipcd_plugin_monitor_msg_clean`. -/
def ipcdPluginMonitorMsgClean (c : Console) : Console := { c with monitorMsglist := none }

/-- A member without masks. -/
def clearMasks (m : MlistMember) : MlistMember := { m with maskSender := [], maskReceiver := [] }

/-- The daemon with no masks in its table. -/
def Daemon.unmasked (d : Daemon) : Daemon := { d with mlist := d.mlist.map clearMasks }

/-- `ipcd_plugin_monitor_clean`: where there is no list of files, the masks are left alone. -/
def ipcdPluginMonitorClean (c : Console) : Console :=
  match c.pluginConfigJsonlist with
  | none => c
  | some _ => { c with daemon := c.daemon.unmasked, pluginConfigJsonlist := none }

/-- The daemon with no masks, no rules and no files; the flags for printing are as they were. -/
def Console.reset (c : Console) : Console :=
  { c with daemon := c.daemon.unmasked, monitorMsglist := none, pluginConfigJsonlist := none }

/-! ## Queries -/

/-- `key_word_max_index`. -/
def keyWordMaxIndex : ℕ := 6

/-- The name passes the test of each keyword that is not empty. -/
def passesKeywords (keyword : List CStr) (msgName : CStr) : Bool :=
  (keyword.take keyWordMaxIndex).all fun k => k.length = 0 || (strstri msgName k).isSome

/-- A line of a query: a member, and a message that it gets. -/
structure MsgLine where
  pname : CStr
  msgName : CStr
  deriving DecidableEq, Repr

/-- The lines of a member that a test lets through. -/
def msgLines (test : CStr → Bool) (tmlm : MlistMember) : List MsgLine :=
  (tmlm.pmsgList.filter fun p => test p.msgName).map fun p => ⟨tmlm.pname, p.msgName⟩

/-- What a query hands to `printf`, and what to `ipcd_console_local_broadcast` for the consoles. -/
structure QueryOutput where
  printf : List MsgLine
  broadcast : List MsgLine
  deriving DecidableEq, Repr

/-- The branch `ENUM_IPC_CLI_MSG`, member by member.  A message that has the first keyword for its
name ends the branch with nothing printed. -/
def msgQuery (keyword : List CStr) (mlist : List MlistMember) : QueryOutput :=
  let first := keyword.headD []
  let every := mlist.flatMap (msgLines fun _ => true)
  if first.length > 0 then
    if mlist.any fun tmlm => tmlm.pmsgList.any fun p => p.msgName == first then ⟨[], []⟩
    else
      -- `ipcd_console_print` is two statements, and `if(disflag==1)` guards the first of them only
      ⟨mlist.flatMap (msgLines (passesKeywords keyword)), every⟩
  else ⟨every, every⟩

/-! ## The control socket -/

/-- The branch `ENUM_IPC_CLI_PLUGIN`. -/
def pluginCommand (fs : FileSystem) (junk : ℕ → ℕ → ℕ → PluginBroadcatType) (c : Console) :
    CliPluginPacket → Option Console
  | .file path => pluginAddFile fs (junk 0) path c
  | .dir path => ipcdPluginMonitorAddDir fs junk path c
  | .clean => some (ipcdPluginMonitorClean (ipcdPluginMonitorMsgClean c))
  | .view => some c
  | .refresh => pluginRefresh fs junk c
  | .other => some c

/-- `ipcctl_analysis_core`. -/
def ipcctlAnalysisCore (cmd : Command) (c : Console) : Option Console :=
  match cmd.icp with
  | .print printfLogTypeFlag printfLogLevelFlag printfBroadcastFlag =>
      some { c with printfLogTypeFlag, printfLogLevelFlag, printfBroadcastFlag }
  | .rpc printfLogTypeFlag printfLogLevelFlag =>
      some { c with printfLogTypeFlag, printfLogLevelFlag, printfRpcFlag := !c.printfRpcFlag }
  | .plugin icpp => pluginCommand cmd.fs cmd.junk c icpp
  | .help => some c
  | .cat _ => some c
  | .ls _ => some c
  | .script => some c
  | .api => some c
  | .msg _ => some c
  | .other => some c

/-- The threads of the daemon that serve the members. -/
def daemonMachine : Machine Daemon DaemonAct Send := ⟨Daemon.step⟩

/-- All threads of the daemon.  A command sends nothing to the members. -/
def consoleMachine : Machine Console (DaemonAct ⊕ Command) Send where
  step c
    | .inl a => (c.daemon.step a).map fun (daemon, out) => ({ c with daemon }, out)
    | .inr cmd => (ipcctlAnalysisCore cmd c).map fun c => (c, [])

/-! ## What a query shows -/

theorem passesKeywords_iff (keyword : List CStr) (msgName : CStr) :
    passesKeywords keyword msgName = true ↔ ∀ k ∈ keyword.take keyWordMaxIndex, k ≠ [] →
      k.map tolower <:+: msgName.map tolower := by
  unfold passesKeywords
  rw [List.all_eq_true]
  refine forall₂_congr fun k _ => ?_
  by_cases hk : k = []
  · simp [hk]
  · rw [strstri, if_neg (by simpa using hk)]
    simp [hk, strstriLoop_isSome_iff hk]

theorem mem_msgLines {test : CStr → Bool} {tmlm : MlistMember} {line : MsgLine} :
    line ∈ msgLines test tmlm ↔
      line.pname = tmlm.pname ∧ line.msgName ∈ tmlm.pmsgList.map MMember.msgName ∧
        test line.msgName = true := by
  obtain ⟨pname, msgName⟩ := line
  simp only [msgLines, List.mem_map, List.mem_filter, MsgLine.mk.injEq]
  refine ⟨?_, ?_⟩
  · rintro ⟨p, ⟨hp, htest⟩, rfl, rfl⟩
    exact ⟨rfl, ⟨p, hp, rfl⟩, htest⟩
  · rintro ⟨rfl, ⟨p, hp, rfl⟩, htest⟩
    exact ⟨p, ⟨hp, htest⟩, rfl, rfl⟩

/-- The member subscribes to the message. -/
def Subscribes (line : MsgLine) (m : MlistMember) : Prop :=
  line.pname = m.pname ∧ line.msgName ∈ m.pmsgList.map MMember.msgName

/-- No member subscribes to a message of this whole name. -/
def NoSubscriber (msgName : CStr) (mlist : List MlistMember) : Prop :=
  ∀ m ∈ mlist, msgName ∉ m.pmsgList.map MMember.msgName

/-- **What a query with keywords shows.**  It prints the subscriptions whose names contain all of the
keywords, in any case of their letters, and hands every subscription to the broadcast for the consoles;
where a subscription has the first keyword for its whole name, neither gets anything. -/
theorem mem_msgQuery {keyword : List CStr} (mlist : List MlistMember) (hfirst : keyword.headD [] ≠ []) :
    (∀ line, line ∈ (msgQuery keyword mlist).printf ↔
      NoSubscriber (keyword.headD []) mlist ∧ (∃ m ∈ mlist, Subscribes line m) ∧
        ∀ k ∈ keyword.take keyWordMaxIndex, k ≠ [] →
          k.map tolower <:+: line.msgName.map tolower) ∧
    ∀ line, line ∈ (msgQuery keyword mlist).broadcast ↔
      NoSubscriber (keyword.headD []) mlist ∧ ∃ m ∈ mlist, Subscribes line m := by
  have hwhole : (mlist.any fun m => m.pmsgList.any fun p => p.msgName == keyword.headD []) = true ↔
      ¬ NoSubscriber (keyword.headD []) mlist := by
    simp [NoSubscriber]
  unfold msgQuery
  rw [if_pos (List.length_pos_iff.2 hfirst)]
  split
  · rename_i hany
    have hsome := hwhole.1 hany
    exact ⟨fun line => iff_of_false List.not_mem_nil fun h => hsome h.1,
      fun line => iff_of_false List.not_mem_nil fun h => hsome h.1⟩
  · rename_i hany
    have hnone : NoSubscriber (keyword.headD []) mlist := by
      by_contra hsome
      exact hany (hwhole.2 hsome)
    simp only [hnone, true_and, List.mem_flatMap, mem_msgLines, passesKeywords_iff, and_true]
    refine ⟨fun line => ⟨?_, ?_⟩, fun line => Iff.rfl⟩
    · rintro ⟨m, hm, hname, hmsg, hkeys⟩
      exact ⟨⟨m, hm, hname, hmsg⟩, hkeys⟩
    · rintro ⟨⟨m, hm, hname, hmsg⟩, hkeys⟩
      exact ⟨m, hm, hname, hmsg, hkeys⟩

/-- A member that is subscribed to a message on the LEDs and one on the sound. -/
def uiMembers : List MlistMember :=
  [{ newMember ⟨1, bytes "a", 5000, 5001, 0⟩ 0 with
      pmsgList := registerName (bytes "ui_sound") (registerName (bytes "ui_led_on") []) }]

/-- Two keywords in other letters find the first of them, and the consoles get both. -/
theorem mem_msgQuery_sample :
    (⟨bytes "a", bytes "ui_led_on"⟩ : MsgLine) ∈
      (msgQuery [bytes "LED", bytes "Ui"] uiMembers).printf ∧
    (⟨bytes "a", bytes "ui_sound"⟩ : MsgLine) ∉
      (msgQuery [bytes "LED", bytes "Ui"] uiMembers).printf ∧
    (⟨bytes "a", bytes "ui_sound"⟩ : MsgLine) ∈
      (msgQuery [bytes "LED", bytes "Ui"] uiMembers).broadcast := by
  obtain ⟨hprintf, hbroadcast⟩ :=
    @mem_msgQuery [bytes "LED", bytes "Ui"] uiMembers (by decide)
  have hnone : NoSubscriber (bytes "LED") uiMembers := by
    simp only [NoSubscriber]
    decide
  have hled : (bytes "LED").map tolower <:+: (bytes "ui_led_on").map tolower :=
    ⟨bytes "ui_", bytes "_on", by decide⟩
  have hui : (bytes "Ui").map tolower <:+: (bytes "ui_led_on").map tolower :=
    ⟨[], bytes "_led_on", by decide⟩
  refine ⟨?found, by decide, ?console⟩
  case found =>
    refine (hprintf _).2 ⟨hnone, ⟨_, List.mem_singleton_self _, rfl, by decide⟩, ?_⟩
    intro k hk _
    rcases List.mem_cons.1 (List.mem_of_mem_take hk) with rfl | hk
    · exact hled
    · rw [List.mem_singleton.1 hk]
      exact hui
  case console =>
    exact (hbroadcast _).2 ⟨hnone, _, List.mem_singleton_self _, rfl, by decide⟩

end EasyIpc

import EasyIpc.Console
import EasyIpc.Effects
import EasyIpc.PluginRefresh

/-!
# What the control socket can do

The masks that plugin files put into the table of the members are read by nothing but the commands that
show them.  So the daemon serves its members as if the control socket were not there.

* `Daemon.step_unmasked` — a step of the daemon does the same with the masks taken out of its table.
* `ipcctlAnalysisCore_serves` — a command changes nothing of the daemon but the masks.
* `console_transparent` — the members are sent the same with and without the control socket.
* `clean_resets` — `CLEAN` undoes every plugin command: the daemon is left as if there had been none.
-/

namespace EasyIpc

open Printf FirstMatch Trace Concurrent Replay

/-! ## Members without masks -/

section Unmasked

variable (mlist : List MlistMember)

theorem clearMasks_clearMasks (m : MlistMember) : clearMasks (clearMasks m) = clearMasks m := rfl

/-- An update that neither looks at the masks nor changes them. -/
theorem modifyFirst_clearMasks {p : MlistMember → Bool} {f : MlistMember → MlistMember}
    (hp : ∀ m, p (clearMasks m) = p m) (hf : ∀ m, f (clearMasks m) = clearMasks (f m)) :
    modifyFirst p f (mlist.map clearMasks) = (modifyFirst p f mlist).map clearMasks :=
  modifyFirst_map hp hf mlist

theorem ipcdGetMlistViaPid_clearMasks (pid : ℤ) :
    ipcdGetMlistViaPid (mlist.map clearMasks) pid = (ipcdGetMlistViaPid mlist pid).map clearMasks := by
  rw [ipcdGetMlistViaPid, List.find?_map]
  rfl

theorem ackTo_clearMasks (pid : ℤ) (ack : IpcApiAckList) (call : Magic) :
    ackTo (mlist.map clearMasks) pid ack call = ackTo mlist pid ack call := by
  rw [ackTo, ipcdGetMlistViaPid_clearMasks, ackTo]
  cases ipcdGetMlistViaPid mlist pid <;> rfl

theorem timeoutLoop_clearMasks (pend : List IpcApi) :
    timeoutLoop (mlist.map clearMasks) pend = timeoutLoop mlist pend := by
  induction pend with
  | nil => rfl
  | cons a pend ih => simp only [timeoutLoop, ih, ackTo_clearMasks]

theorem apiProbeScan_clearMasks (p : IpcApi) :
    apiProbeScan p (mlist.map clearMasks) =
      ((apiProbeScan p mlist).1, (apiProbeScan p mlist).2.map clearMasks) := by
  induction mlist using apiProbeScan.induct p with
  | case1 => rfl
  | case2 m rest hname ih =>
    rw [List.map_cons, apiProbeScan_of_ne hname, ← ih]
    exact apiProbeScan_of_ne hname
  | case3 m hname hsus =>
    rw [List.map_cons, apiProbeScan_of_suspended (not_not.1 hname) hsus]
    exact apiProbeScan_of_suspended (m := clearMasks m) (not_not.1 hname) hsus
  | case4 m hname hsus next rest ih =>
    rw [List.map_cons, apiProbeScan_of_suspended (not_not.1 hname) hsus, List.tail_cons, ← ih]
    exact apiProbeScan_of_suspended (m := clearMasks m) (not_not.1 hname) hsus
  | case5 m rest hname hsus ih =>
    have hlive : m.suspend = false := by simpa using hsus
    rw [List.map_cons, apiProbeScan_of_live (not_not.1 hname) hlive,
      apiProbeScan_of_live (m := clearMasks m) (not_not.1 hname) hlive, ih]
    show (true, if listsName p.apiName m.apiList then _ else _) = _
    split <;> rfl

/-! ### Joins -/

/-- What reads of a freed member give does not depend on its masks. -/
def MaskBlind (stale : MlistMember → MlistMember) : Prop :=
  ∀ m, (stale (clearMasks m)).pid = (stale m).pid ∧
    (stale (clearMasks m)).pname = (stale m).pname ∧
    (stale (clearMasks m)).suspend = (stale m).suspend

theorem ipcdMlistRemoveViaPid_clearMasks (pid : ℤ) :
    ipcdMlistRemoveViaPid pid (mlist.map clearMasks) =
      (ipcdMlistRemoveViaPid pid mlist).map clearMasks := by
  rw [ipcdMlistRemoveViaPid, List.eraseP_map]
  rfl

variable {stale : MlistMember → MlistMember} (h : MaskBlind stale) (info : JoinExitInfo)

include h

/-- The fields that a visit of the scan reads. -/
theorem readAfterRemove_clearMasks (i : ℕ) (m : MlistMember) :
    (readAfterRemove stale (mlist.map clearMasks) i (clearMasks m)).pid =
        (readAfterRemove stale mlist i m).pid ∧
      (readAfterRemove stale (mlist.map clearMasks) i (clearMasks m)).pname =
        (readAfterRemove stale mlist i m).pname ∧
      (readAfterRemove stale (mlist.map clearMasks) i (clearMasks m)).suspend =
        (readAfterRemove stale mlist i m).suspend := by
  have hidx : (mlist.map clearMasks).findIdx (hasPid (clearMasks m).pid) =
      mlist.findIdx (hasPid m.pid) := by
    rw [List.findIdx_map]
    rfl
  unfold readAfterRemove
  rw [hidx]
  split
  · exact h m
  · exact ⟨rfl, rfl, rfl⟩

theorem joinVisit_clearMasks (i : ℕ) (m : MlistMember) :
    joinVisit stale info i (clearMasks m) (mlist.map clearMasks) =
      ((joinVisit stale info i m mlist).1, (joinVisit stale info i m mlist).2.map clearMasks) := by
  obtain ⟨hpid, hpname, hsuspend⟩ := readAfterRemove_clearMasks mlist h i m
  have hremove := ipcdMlistRemoveViaPid_clearMasks mlist
  have hpids : (clearMasks m).pid = m.pid := rfl
  have hnames : (clearMasks m).pname = m.pname := rfl
  have hsus : (clearMasks m).suspend = m.suspend := rfl
  unfold joinVisit
  rw [hpids, hsus]
  by_cases hp : m.pid = info.joinExitProcessPid
  · simp only [beq_iff_eq.2 hp, Bool.true_and, if_true, hremove, hpid, hpname, hsuspend,
      ipcdMlistRemoveViaPid_clearMasks (ipcdMlistRemoveViaPid m.pid mlist)]
    split_ifs <;> rfl
  · simp only [beq_eq_false_iff_ne.2 hp, Bool.false_and, Bool.false_eq_true, if_false, hnames, hsus,
      hpids, hremove]
    split_ifs <;> rfl

theorem joinScan_clearMasks (n i : ℕ) :
    joinScan stale info n i (mlist.map clearMasks) =
      ((joinScan stale info n i mlist).1, (joinScan stale info n i mlist).2.map clearMasks) := by
  induction n generalizing i mlist with
  | zero => rfl
  | succ n ih =>
    rw [joinScan, joinScan, List.getElem?_map]
    cases mlist[i]? with
    | none => exact ih mlist (i + 1)
    | some m =>
      simp only [Option.map_some, joinVisit_clearMasks mlist h]
      rcases joinVisit stale info i m mlist with ⟨_ | _, mlist'⟩
      · rfl
      · exact ih mlist' (i + 1)

theorem ipcdJoin_clearMasks (addr : ℕ) :
    ipcdJoin stale info addr (mlist.map clearMasks) =
      ((ipcdJoin stale info addr mlist).1, (ipcdJoin stale info addr mlist).2.map clearMasks) := by
  rw [ipcdJoin, ipcdJoin, List.length_map, joinScan_clearMasks mlist h]
  rcases joinScan stale info mlist.length 0 mlist with ⟨_ | _, mlist'⟩
  · rfl
  · simp [newMember, clearMasks]

end Unmasked

/-! ## Steps of the daemon -/

/-- The label reads no masks of freed members. -/
def DaemonAct.MaskBlind : DaemonAct → Prop
  | .recv stale _ _ => EasyIpc.MaskBlind stale
  | _ => True

section Steps

variable (d : Daemon)

/-- A step that changes nothing but the table. -/
theorem unmasked_mlist {l l' : List MlistMember} (out : List Send) (h : l' = l.map clearMasks) :
    (({ d.unmasked with mlist := l' }, out) : Daemon × List Send) =
      (({ d with mlist := l } : Daemon).unmasked, out) := by
  rw [h]
  rfl

theorem markSender_clearMasks (pid : ℤ) (mlist : List MlistMember) :
    markSender pid (mlist.map clearMasks) = (markSender pid mlist).map clearMasks :=
  modifyFirst_clearMasks mlist (fun _ => rfl) fun _ => rfl

theorem recordApi_clearMasks (pid : ℤ) (rt : IpcRuntime) (mlist : List MlistMember) :
    recordApi pid rt (mlist.map clearMasks) = (recordApi pid rt mlist).map clearMasks :=
  modifyFirst_clearMasks mlist (fun _ => rfl) fun _ => rfl

theorem ipcdApiCall_unmasked (sendPid : ℤ) (api : IpcApi) :
    ipcdApiCall sendPid api d.unmasked = (ipcdApiCall sendPid api d).unmasked := by
  have hmlist : d.unmasked.mlist = d.mlist.map clearMasks := rfl
  rw [ipcdApiCall, ipcdApiCall, hmlist, ipcdGetMlistViaPid_clearMasks]
  cases ipcdGetMlistViaPid d.mlist sendPid with
  | none => rfl
  | some m =>
    simp only [Option.map_some, markSender_clearMasks]
    rfl

theorem ipcdMsgSend_unmasked (sendPid : ℤ) (msg : IpcMsg) :
    ipcdMsgSend sendPid msg d.unmasked = (ipcdMsgSend sendPid msg d).unmasked := by
  have hmlist : d.unmasked.mlist = d.mlist.map clearMasks := rfl
  rw [ipcdMsgSend, ipcdMsgSend, hmlist, ipcdGetMlistViaPid_clearMasks]
  cases ipcdGetMlistViaPid d.mlist sendPid with
  | none => rfl
  | some m =>
    simp only [Option.map_some, markSender_clearMasks]
    rfl

theorem ipcdApiFinish_unmasked (sendPid : ℤ) (rt : IpcRuntime) :
    ipcdApiFinish sendPid rt d.unmasked =
      ((ipcdApiFinish sendPid rt d).1.unmasked, (ipcdApiFinish sendPid rt d).2) := by
  have hmlist : d.unmasked.mlist = d.mlist.map clearMasks := rfl
  have hlists : senderLists (d.mlist.map clearMasks) sendPid rt = senderLists d.mlist sendPid rt := by
    rw [senderLists, ipcdGetMlistViaPid_clearMasks, Option.any_map]
    rfl
  have hacks : d.unmasked.recvAcklist = d.recvAcklist := rfl
  unfold ipcdApiFinish
  simp only [hmlist, hlists, hacks, recordApi_clearMasks, ackTo_clearMasks]
  split
  · split <;> rfl
  · rfl

/-- The receive thread does the same with the masks taken out. -/
theorem ipcdAnalysisCore_unmasked {stale : MlistMember → MlistMember} (h : MaskBlind stale)
    (addr : ℕ) (pkt : IpcPacket) :
    ipcdAnalysisCore stale addr pkt d.unmasked =
      ((ipcdAnalysisCore stale addr pkt d).1.unmasked, (ipcdAnalysisCore stale addr pkt d).2) := by
  obtain ⟨sendPid, body⟩ := pkt
  have hupdate : ∀ {p : MlistMember → Bool} {f : MlistMember → MlistMember},
      (∀ m, p (clearMasks m) = p m) → (∀ m, f (clearMasks m) = clearMasks (f m)) →
      (({ d.unmasked with mlist := modifyFirst p f d.unmasked.mlist }, []) : Daemon × List Send) =
        (({ d with mlist := modifyFirst p f d.mlist } : Daemon).unmasked, []) :=
    fun hp hf => unmasked_mlist d [] (modifyFirst_clearMasks d.mlist hp hf)
  cases body with
  | apiRegister info => exact hupdate (fun _ => rfl) fun _ => rfl
  | msgRegister info => exact hupdate (fun _ => rfl) fun _ => rfl
  | apiUnregister info => exact hupdate (fun _ => rfl) fun _ => rfl
  | msgUnregister info => exact hupdate (fun _ => rfl) fun _ => rfl
  | join info =>
    have hjoin := ipcdJoin_clearMasks d.mlist h info addr
    simp only [ipcdAnalysisCore, Daemon.unmasked, hjoin]
    rcases ipcdJoin stale info addr d.mlist with ⟨_ | mlm, mlist⟩ <;> rfl
  | daemonCmd info => exact hupdate (fun _ => rfl) fun _ => rfl
  | exit info => exact unmasked_mlist d [] (ipcdMlistRemoveViaPid_clearMasks d.mlist _)
  | live info => exact hupdate (fun _ => rfl) fun _ => rfl
  | hangup info => exact unmasked_mlist d [] (ipcdMlistRemoveViaPid_clearMasks d.mlist _)
  | apiCall api => exact Prod.ext (ipcdApiCall_unmasked d sendPid api) rfl
  | msgSend msg => exact Prod.ext (ipcdMsgSend_unmasked d sendPid msg) rfl
  | apiRuntime rt =>
    simp only [ipcdAnalysisCore, ipcdApiFinish_unmasked]
    split <;> rfl
  | msgRuntime rt =>
    by_cases hflag : rt.flag = true
    · simp only [ipcdAnalysisCore, hflag, if_true]
      exact hupdate (fun _ => rfl) fun _ => rfl
    · simp only [ipcdAnalysisCore, hflag]
      rfl
  | log info => rfl
  | other => rfl

theorem ipcdApiProbe_unmasked (p : IpcApi) :
    ipcdApiProbe p d.unmasked = ((ipcdApiProbe p d).1.unmasked, (ipcdApiProbe p d).2) := by
  have hmlist : d.unmasked.mlist = d.mlist.map clearMasks := rfl
  unfold ipcdApiProbe
  rw [hmlist, apiProbeScan_clearMasks]
  rcases apiProbeScan p d.mlist with ⟨found, providers⟩
  simp only [ackTo_clearMasks, List.map_map, List.isEmpty_map]
  split
  · rfl
  · split <;> rfl

theorem ipcdMsgProbe_unmasked (p : IpcMsg) : ipcdMsgProbe p d.unmasked = ipcdMsgProbe p d := by
  have hmlist : d.unmasked.mlist = d.mlist.map clearMasks := rfl
  rw [ipcdMsgProbe, hmlist, List.filter_map, List.map_map]
  rfl

theorem ipcLiveThread_clearMasks (mlist : List MlistMember) :
    ipcLiveThread (mlist.map clearMasks) = (ipcLiveThread mlist).map clearMasks := by
  have hsweep : ∀ m, sweepMember (clearMasks m) = clearMasks (sweepMember m) := by
    intro m
    unfold sweepMember
    show (if m.liveCnt > ipcLiveTimeoutNum && !m.suspend then _ else _) = _
    split <;> rfl
  simp [ipcLiveThread, hsweep]

/-- **A step of the daemon does the same with the masks taken out of its table.** -/
theorem Daemon.step_unmasked {a : DaemonAct} (h : a.MaskBlind) :
    d.unmasked.step a = (d.step a).map fun p => (p.1.unmasked, p.2) := by
  cases a with
  | recv stale addr pkt => exact congrArg some (ipcdAnalysisCore_unmasked d h addr pkt)
  | msgPost =>
    show onMsgQueue d.unmasked d.recvMlist.post = (onMsgQueue d d.recvMlist.post).map _
    cases d.recvMlist.post <;> rfl
  | msgWait =>
    show onMsgQueue d.unmasked d.recvMlist.wait = (onMsgQueue d d.recvMlist.wait).map _
    cases d.recvMlist.wait <;> rfl
  | msgPull =>
    show onMsgQueue d.unmasked d.recvMlist.pull = (onMsgQueue d d.recvMlist.pull).map _
    cases d.recvMlist.pull <;> rfl
  | msgProbe =>
    have hqueue : d.unmasked.recvMlist = d.recvMlist := rfl
    simp only [Daemon.step, hqueue, ipcdMsgProbe_unmasked]
    cases d.recvMlist.consumer <;> rfl
  | apiPost =>
    show onApiQueue d.unmasked d.recvAlist.post = (onApiQueue d d.recvAlist.post).map _
    cases d.recvAlist.post <;> rfl
  | apiWait =>
    show onApiQueue d.unmasked d.recvAlist.wait = (onApiQueue d d.recvAlist.wait).map _
    cases d.recvAlist.wait <;> rfl
  | apiPull =>
    show onApiQueue d.unmasked d.recvAlist.pull = (onApiQueue d d.recvAlist.pull).map _
    cases d.recvAlist.pull <;> rfl
  | apiProbe =>
    have hqueue : d.unmasked.recvAlist = d.recvAlist := rfl
    simp only [Daemon.step, hqueue]
    cases d.recvAlist.consumer with
    | holding p =>
      exact congrArg some (ipcdApiProbe_unmasked { d with recvAlist := d.recvAlist.release } p)
    | _ => rfl
  | liveSweep => exact congrArg some (unmasked_mlist d [] (ipcLiveThread_clearMasks d.mlist))
  | timeoutSweep =>
    show some (ipcApiTimeoutCheck d.unmasked) = some _
    simp only [ipcApiTimeoutCheck, Daemon.unmasked, timeoutLoop_clearMasks]

end Steps

/-! ## Commands -/

theorem maskMember_clearMasks {side : MaskSide} {pname mname : Option CStr} {m m' : MlistMember}
    (h : maskMember side pname mname m = some m') : clearMasks m' = clearMasks m := by
  obtain ⟨p, -, h⟩ := Option.bind_eq_some_iff.1 h
  split at h
  · obtain ⟨name, -, h⟩ := Option.bind_eq_some_iff.1 h
    obtain rfl := Option.some.inj h
    cases side <;> rfl
  · exact congrArg clearMasks (Option.some.inj h).symm

/-- An effect of a plugin file changes nothing of the members but their masks. -/
theorem apply_clearMasks (t : PluginTables) (e : Effect) (t' : PluginTables)
    (h : e.apply t = some t') : t'.mlist.map clearMasks = t.mlist.map clearMasks := by
  cases e with
  | rule r =>
    obtain rfl := Option.some.inj h
    rfl
  | mask side pname mname =>
    obtain ⟨mlist, hmlist, h⟩ := Option.bind_eq_some_iff.1 h
    obtain rfl := Option.some.inj h
    exact map_mapM (fun _ _ => maskMember_clearMasks) hmlist

theorem replay_clearMasks {t t' : PluginTables} {effects : Option (List Effect)}
    (h : replay t effects = some t') : t'.mlist.map clearMasks = t.mlist.map clearMasks := by
  obtain ⟨effects, -, h⟩ := Option.bind_eq_some_iff.1 h
  exact foldlM_keeps (g := fun t : PluginTables => t.mlist.map clearMasks) apply_clearMasks h

/-- What the first reading of a file does: the tables are those that its effects leave, and nothing
happens where it is loaded already or cannot be read. -/
theorem ipcdPluginMonitorAddFile_cases {files : Files} {junk : ℕ → ℕ → PluginBroadcatType}
    {path : CStr} {s s' : Plugins} (h : ipcdPluginMonitorAddFile files junk path s = some s') :
    ((s.pluginConfigJsonlist.any (fun ppu => ppu.filename == path) = true ∨ files path = none) ∧
      s' = s) ∨
    ∃ root, s.pluginConfigJsonlist.any (fun ppu => ppu.filename == path) = false ∧
      files path = some root ∧
      replay s.toPluginTables (rootEffects junk root) = some s'.toPluginTables := by
  unfold ipcdPluginMonitorAddFile at h
  split at h
  · rename_i hany
    exact Or.inl ⟨Or.inl hany, (Option.some.inj h).symm⟩
  · rename_i hany
    cases hfile : files path with
    | none =>
      rw [hfile] at h
      exact Or.inl ⟨Or.inr rfl, (Option.some.inj h).symm⟩
    | some root =>
      rw [hfile] at h
      obtain ⟨⟨parsed, t⟩, hparse, h⟩ := Option.bind_eq_some_iff.1 h
      refine Or.inr ⟨root, by simpa using hany, rfl, ?_⟩
      rw [← ipcdPluginParseRoot_eq, hparse]
      dsimp only at h
      split at h
      · obtain rfl := Option.some.inj h
        rfl
      · obtain rfl := Option.some.inj h
        rfl

section Commands

variable {fs : FileSystem} {c c' : Console}

/-- What a plugin command leaves of the console: the same but for the masks, the rules and the files,
and with the same masks where there is no list of files afterwards, if there were none without it
before. -/
structure Console.Serves (c c' : Console) : Prop where
  reset : c'.reset = c.reset
  clear : (c.pluginConfigJsonlist = none → c.daemon.unmasked = c.daemon) →
    c'.pluginConfigJsonlist = none → c'.daemon.unmasked = c'.daemon

theorem Console.Serves.refl (c : Console) : c.Serves c := ⟨rfl, fun h => h⟩

theorem Console.Serves.trans {c'' : Console} (h : c.Serves c') (h' : c'.Serves c'') :
    c.Serves c'' := ⟨h'.reset.trans h.reset, fun hc => h'.clear (h.clear hc)⟩

theorem reset_put {s : Plugins} (units : Bool)
    (h : s.mlist.map clearMasks = c.daemon.mlist.map clearMasks) :
    (c.put s units).reset = c.reset := by
  simp [Console.put, Console.reset, Daemon.unmasked, h]

theorem pluginAddFile_serves {junk : ℕ → ℕ → PluginBroadcatType} {filename : CStr}
    (h : pluginAddFile fs junk filename c = some c') : c.Serves c' := by
  unfold pluginAddFile at h
  cases hpath : fs.realpath filename with
  | none =>
    rw [hpath] at h
    obtain rfl := Option.some.inj h
    exact Console.Serves.refl c
  | some path =>
    rw [hpath] at h
    obtain ⟨s, hs, rfl⟩ := Option.map_eq_some_iff.1 h
    rcases ipcdPluginMonitorAddFile_cases hs with ⟨-, rfl⟩ | ⟨root, hnew, hfile, hreplay⟩
    · refine ⟨reset_put _ rfl, fun hclear hnone => ?_⟩
      have hlist : c.pluginConfigJsonlist = none := by
        cases hc : c.pluginConfigJsonlist with
        | none => rfl
        | some units => simp [Console.put, hc] at hnone
      exact hclear hlist
    · refine ⟨reset_put _ (replay_clearMasks hreplay), fun hclear hnone => ?_⟩
      have hload : c.loaded path = false := hnew
      simp [Console.put, hload, hfile] at hnone

theorem pluginAddFiles_serves {junk : ℕ → ℕ → ℕ → PluginBroadcatType} {j : ℕ} {names : List CStr}
    (h : pluginAddFiles fs junk j names c = some c') : c.Serves c' := by
  induction names generalizing j c with
  | nil =>
    obtain rfl := Option.some.inj h
    exact Console.Serves.refl c
  | cons name names ih =>
    obtain ⟨c₁, hfirst, hrest⟩ := Option.bind_eq_some_iff.1 h
    exact (pluginAddFile_serves hfirst).trans (ih hrest)

theorem pluginRefresh_serves {junk : ℕ → ℕ → ℕ → PluginBroadcatType}
    (h : pluginRefresh fs junk c = some c') : c.Serves c' := by
  obtain ⟨s, hs, rfl⟩ := Option.map_eq_some_iff.1 h
  have hreplay := @ipcdPluginRefresh_eq fs.files junk c.plugins
  rw [hs, Option.map_some] at hreplay
  refine ⟨reset_put _ (replay_clearMasks hreplay.symm), fun hclear hnone => ?_⟩
  cases hc : c.pluginConfigJsonlist with
  | none =>
    have hsame : s = c.plugins := by
      simpa [ipcdPluginRefresh, Console.plugins, hc, refreshUnits, eq_comm] using hs
    rw [hsame]
    exact hclear hc
  | some units => simp [Console.put, hc] at hnone

/-- `CLEAN` resets the daemon, if there are no masks without a list of files. -/
theorem clean_eq_reset (hclear : c.pluginConfigJsonlist = none → c.daemon.unmasked = c.daemon) :
    ipcdPluginMonitorClean (ipcdPluginMonitorMsgClean c) = c.reset := by
  unfold ipcdPluginMonitorClean
  split
  · rename_i hnone
    have hlist : c.pluginConfigJsonlist = none := hnone
    simp only [Console.reset, hclear hlist, ipcdPluginMonitorMsgClean, hlist]
  · rfl

/-- **A plugin command changes nothing but the masks, the rules and the files.** -/
theorem pluginCommand_serves {junk : ℕ → ℕ → ℕ → PluginBroadcatType} {icpp : CliPluginPacket}
    (h : pluginCommand fs junk c icpp = some c') : c.Serves c' := by
  cases icpp with
  | file path => exact pluginAddFile_serves h
  | dir path =>
    change ipcdPluginMonitorAddDir fs junk path c = some c' at h
    unfold ipcdPluginMonitorAddDir at h
    split at h
    · obtain rfl := Option.some.inj h
      exact Console.Serves.refl c
    · exact pluginAddFiles_serves h
  | refresh => exact pluginRefresh_serves h
  | clean =>
    obtain rfl := Option.some.inj h
    unfold ipcdPluginMonitorClean
    split
    · rename_i hnone
      exact ⟨rfl, fun hclear _ => hclear hnone⟩
    · refine ⟨?_, fun _ _ => ?_⟩
      · simp [Console.reset, Daemon.unmasked, ipcdPluginMonitorMsgClean, clearMasks_clearMasks]
      · simp [Daemon.unmasked, clearMasks_clearMasks]
  | _ =>
    obtain rfl := Option.some.inj h
    exact Console.Serves.refl c

/-- A plugin command. -/
def CliPacket.isPlugin : CliPacket → Bool
  | .plugin _ => true
  | _ => false

/-- Any other command changes at most the flags for printing. -/
theorem ipcctlAnalysisCore_flags {cmd : Command} (hcmd : cmd.icp.isPlugin = false)
    (h : ipcctlAnalysisCore cmd c = some c') : c'.daemon = c.daemon ∧
      c'.pluginConfigJsonlist = c.pluginConfigJsonlist ∧
      ipcctlAnalysisCore cmd c.reset = some c'.reset := by
  unfold ipcctlAnalysisCore at h ⊢
  cases hicp : cmd.icp with
  | plugin icpp => simp [hicp, CliPacket.isPlugin] at hcmd
  | _ =>
    rw [hicp] at h
    obtain rfl := Option.some.inj h
    exact ⟨rfl, rfl, rfl⟩

/-- **A command changes nothing of the daemon but the masks**, and brings no masks where it leaves no
list of files. -/
theorem ipcctlAnalysisCore_serves {cmd : Command} (h : ipcctlAnalysisCore cmd c = some c') :
    c'.daemon.unmasked = c.daemon.unmasked ∧
      ((c.pluginConfigJsonlist = none → c.daemon.unmasked = c.daemon) →
        c'.pluginConfigJsonlist = none → c'.daemon.unmasked = c'.daemon) := by
  cases hplugin : cmd.icp.isPlugin with
  | false =>
    obtain ⟨hdaemon, hunits, -⟩ := ipcctlAnalysisCore_flags hplugin h
    rw [hdaemon, hunits]
    exact ⟨rfl, id⟩
  | true =>
    have hserves : c.Serves c' := by
      unfold ipcctlAnalysisCore at h
      cases hicp : cmd.icp with
      | plugin icpp =>
        rw [hicp] at h
        exact pluginCommand_serves h
      | _ => simp [hicp, CliPacket.isPlugin] at hplugin
    exact ⟨congrArg Console.daemon hserves.reset, hserves.clear⟩

end Commands

/-! ## Runs -/

/-- The daemon behind the control socket is the other one, but for the masks. -/
def SameButMasks (c : Console) (d : Daemon) : Prop := c.daemon.unmasked = d.unmasked

/-- The step reads no masks of freed members. -/
def LabelBlind : DaemonAct ⊕ Command → Prop
  | .inl a => a.MaskBlind
  | .inr _ => True

/-- The daemon's steps are the same with and without the control socket, and its commands are not
seen. -/
theorem hides_console :
    Hides consoleMachine daemonMachine Sum.getLeft? SameButMasks LabelBlind where
  visible := by
    intro c c' d l a out hsame hblind hview hstep
    cases l with
    | inr cmd => cases hview
    | inl b =>
      obtain rfl := Option.some.inj hview
      obtain ⟨⟨daemon, out'⟩, hdaemon, heq⟩ := Option.map_eq_some_iff.1 hstep
      cases heq
      have hunmasked := Daemon.step_unmasked c.daemon hblind
      rw [hdaemon, hsame, Daemon.step_unmasked d hblind] at hunmasked
      obtain ⟨⟨d', out''⟩, hd, heq⟩ := Option.map_eq_some_iff.1 hunmasked
      obtain ⟨hd', rfl⟩ := Prod.mk.inj heq
      exact ⟨d', hd, hd'.symm⟩
  silent := by
    intro c c' d l out hsame hview hstep
    cases l with
    | inl a => cases hview
    | inr cmd =>
      obtain ⟨c'', hcmd, heq⟩ := Option.map_eq_some_iff.1 hstep
      cases heq
      exact ⟨rfl, (ipcctlAnalysisCore_serves hcmd).1.trans hsame⟩

/-- **The control socket is transparent.**  Whatever commands are served between the steps of the
daemon's threads, the members are sent the same as without them, in the same order. -/
theorem console_transparent {labels : List (DaemonAct ⊕ Command)} {c : Console} {out : List Send}
    (hblind : ∀ l ∈ labels, LabelBlind l)
    (hrun : consoleMachine.run {} labels = some (c, out)) :
    ∃ d, daemonMachine.run {} (labels.filterMap Sum.getLeft?) = some (d, out) ∧
      SameButMasks c d :=
  hides_console.run (show SameButMasks {} {} from rfl) hblind hrun

/-- A step of the console keeps that there are no masks where there is no list of files. -/
theorem step_clear {c c' : Console} {l : DaemonAct ⊕ Command} {out : List Send}
    (hclear : c.pluginConfigJsonlist = none → c.daemon.unmasked = c.daemon)
    (hblind : LabelBlind l) (hstep : consoleMachine.step c l = some (c', out)) :
    c'.pluginConfigJsonlist = none → c'.daemon.unmasked = c'.daemon := by
  cases l with
  | inl a =>
    obtain ⟨⟨daemon, out'⟩, hdaemon, heq⟩ := Option.map_eq_some_iff.1 hstep
    cases heq
    intro hnone
    have hunmasked := Daemon.step_unmasked c.daemon hblind
    rw [hclear hnone, hdaemon, Option.map_some, Option.some.injEq] at hunmasked
    exact (congrArg Prod.fst hunmasked).symm
  | inr cmd =>
    obtain ⟨c'', hcmd, heq⟩ := Option.map_eq_some_iff.1 hstep
    cases heq
    exact (ipcctlAnalysisCore_serves hcmd).2 hclear

/-- A member joins, and a file with a mask for it is loaded. -/
def sampleServed : List (DaemonAct ⊕ Command) :=
  [.inl (.recv id 0 ⟨1, .join ⟨1, bytes "a", 5000, 5001, 0⟩⟩),
    .inr ⟨⟨fun _ => some (bytes "/p.eec"), sampleFiles (bytes "a"), fun _ => []⟩, fun _ _ _ => .msg,
      .plugin (.file (bytes "p.eec"))⟩]

/-- Its reads of freed members are blind to the masks. -/
theorem blind_sampleServed : ∀ l ∈ sampleServed, LabelBlind l := by
  intro l hl
  rcases List.mem_pair.1 hl with rfl | rfl
  · exact fun _ => ⟨rfl, rfl, rfl⟩
  · trivial

/-- The mask is in the table, and the join is answered as without it. -/
theorem console_transparent_served :
    ∃ c out d, consoleMachine.run {} sampleServed = some (c, out) ∧
      c.daemon.mlist = [{ sampleMember with maskSender := [bytes "m"] }] ∧
      daemonMachine.run {} (sampleServed.filterMap Sum.getLeft?) = some (d, out) ∧
      SameButMasks c d := by
  obtain ⟨⟨c, out⟩, hrun, hmlist⟩ : ∃ p, consoleMachine.run {} sampleServed = some p ∧
      p.1.daemon.mlist = [{ sampleMember with maskSender := [bytes "m"] }] := ⟨_, rfl, rfl⟩
  obtain ⟨d, hd, hsame⟩ := console_transparent blind_sampleServed hrun
  exact ⟨c, out, d, hrun, hmlist, hd, hsame⟩

/-- Without a list of files there are no masks. -/
theorem masks_loaded {labels : List (DaemonAct ⊕ Command)} {c : Console} {out : List Send}
    (hblind : ∀ l ∈ labels, LabelBlind l)
    (hrun : consoleMachine.run {} labels = some (c, out)) (hnone : c.pluginConfigJsonlist = none) :
    c.daemon.unmasked = c.daemon :=
  Machine.run_invariant
    (I := fun c => c.pluginConfigJsonlist = none → c.daemon.unmasked = c.daemon)
    LabelBlind (fun _ l _ _ hclear => step_clear (l := l) hclear) hblind (fun _ => rfl) hrun hnone

/-- The label, if it is not a plugin command. -/
def otherLabel : DaemonAct ⊕ Command → Option (DaemonAct ⊕ Command)
  | .inl a => some (.inl a)
  | .inr cmd => if cmd.icp.isPlugin then none else some (.inr cmd)

/-- Without the plugin commands the daemon goes through the reset states. -/
theorem hides_plugins :
    Hides consoleMachine consoleMachine otherLabel (fun c c' => c' = c.reset) LabelBlind where
  visible := by
    rintro c c' - l l' out rfl hblind hview hstep
    cases l with
    | inl a =>
      obtain rfl := Option.some.inj hview
      obtain ⟨⟨daemon, out'⟩, hdaemon, heq⟩ := Option.map_eq_some_iff.1 hstep
      cases heq
      have hunmasked := Daemon.step_unmasked c.daemon hblind
      rw [hdaemon, Option.map_some] at hunmasked
      refine ⟨_, ?_, rfl⟩
      show (c.daemon.unmasked.step a).map _ = _
      rw [hunmasked]
      rfl
    | inr cmd =>
      cases hplugin : cmd.icp.isPlugin with
      | true => simp [otherLabel, hplugin] at hview
      | false =>
        obtain rfl : .inr cmd = l' := by simpa [otherLabel, hplugin] using hview
        obtain ⟨c'', hcmd, heq⟩ := Option.map_eq_some_iff.1 hstep
        cases heq
        refine ⟨_, ?_, rfl⟩
        show (ipcctlAnalysisCore cmd c.reset).map _ = _
        rw [(ipcctlAnalysisCore_flags hplugin hcmd).2.2]
        rfl
  silent := by
    rintro c c' - l out rfl hview hstep
    cases l with
    | inl a => cases hview
    | inr cmd =>
      obtain ⟨c'', hcmd, heq⟩ := Option.map_eq_some_iff.1 hstep
      cases heq
      refine ⟨rfl, ?_⟩
      unfold ipcctlAnalysisCore at hcmd
      cases hicp : cmd.icp with
      | plugin icpp =>
        rw [hicp] at hcmd
        exact (pluginCommand_serves hcmd).reset.symm
      | _ => simp [otherLabel, hicp, CliPacket.isPlugin] at hview

/-- **`CLEAN` undoes every plugin command.**  It leaves the daemon, with the flags that the other
commands have set, as the run without the plugin commands would, and no rules and no files. -/
theorem clean_resets {labels : List (DaemonAct ⊕ Command)} {cmd : Command} {c : Console}
    {out : List Send} (hcmd : cmd.icp = .plugin .clean)
    (hblind : ∀ l ∈ labels, LabelBlind l)
    (hrun : consoleMachine.run {} (labels ++ [.inr cmd]) = some (c, out)) :
    consoleMachine.run {} (labels.filterMap otherLabel) = some (c, out) ∧
      c.monitorMsglist = none ∧ c.pluginConfigJsonlist = none := by
  obtain ⟨t, first, more, hfirst, hlast, rfl⟩ := Machine.run_append hrun
  have hclean : consoleMachine.run t [.inr cmd] =
      some (ipcdPluginMonitorClean (ipcdPluginMonitorMsgClean t), []) := by
    simp [Machine.run, consoleMachine, ipcctlAnalysisCore, hcmd, pluginCommand]
  rw [hclean, clean_eq_reset (masks_loaded hblind hfirst)] at hlast
  cases hlast
  obtain ⟨t', hrest, rfl⟩ := hides_plugins.run (show ({} : Console) = Console.reset {} from rfl)
    hblind hfirst
  exact ⟨by rw [List.append_nil, hrest], rfl, rfl⟩

/-- `RPC` and then `CLEAN`, after the file with the mask. -/
def cleanServed : List (DaemonAct ⊕ Command) :=
  sampleServed ++ [.inr ⟨⟨fun _ => none, fun _ => none, fun _ => []⟩, fun _ _ _ => .msg,
    .rpc (bytes "U") (bytes "E")⟩]

/-- The mask is gone, and the flag of `RPC` is not. -/
theorem clean_resets_served : ∃ c out,
    consoleMachine.run {} (cleanServed ++ [.inr ⟨⟨fun _ => none, fun _ => none, fun _ => []⟩,
      fun _ _ _ => .msg, .plugin .clean⟩]) = some (c, out) ∧
    c.printfRpcFlag = true ∧ c.daemon.mlist = [sampleMember] ∧
    consoleMachine.run {} (cleanServed.filterMap otherLabel) = some (c, out) := by
  obtain ⟨⟨c, out⟩, hrun, hflag, hmlist⟩ : ∃ p, consoleMachine.run {} (cleanServed ++
      [.inr ⟨⟨fun _ => none, fun _ => none, fun _ => []⟩, fun _ _ _ => .msg, .plugin .clean⟩]) =
        some p ∧ p.1.printfRpcFlag = true ∧ p.1.daemon.mlist = [sampleMember] :=
    ⟨_, rfl, rfl, rfl⟩
  have hblind : ∀ l ∈ cleanServed, LabelBlind l := by
    intro l hl
    rcases List.mem_append.1 hl with hl | hl
    · exact blind_sampleServed l hl
    · rw [List.mem_singleton.1 hl]
      trivial
  exact ⟨c, out, hrun, hflag, hmlist, (clean_resets rfl hblind hrun).1⟩

end EasyIpc

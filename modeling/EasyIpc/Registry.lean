import EasyIpc.Packet
import EasyIpc.Lib.FirstMatch

/-!
# The member table of the daemon

`mlist` and the functions of `easyipc_daemon.c` that read and change it.  The table is a list;
every lookup takes the first member that matches, and the pointer a lookup returns is updated
with `modifyFirst`.  What the functions write to the log is not modelled here.

* `Ident` — the fields of a member that nothing changes between its join and its removal.
* `Profile` — what the other processes see of a member; `ident_..` and `profile_..` say what each
  function but the removals and the join keeps of all members, in their order.
* `ipcdJoin` — the scan of `ipcd_join` deletes suspended members of the list it is walking over,
  and reads a member after it has freed it; what such a read gives is the parameter `stale`.
-/

namespace EasyIpc

open FirstMatch

/-- `_m_member`: an API or a message of a member, with its statistics. -/
structure MMember where
  msgName : CStr
  processCnt : ℤ
  processTime : Timespec
  deriving DecidableEq, Repr

/-- `_mlist_member`.  Of `toAddr` only the address is kept: its port is overwritten before every
send. -/
structure MlistMember where
  pid : ℤ
  liveCnt : ℤ
  msgPort : ℤ
  apiPort : ℤ
  pname : CStr
  sendCnt : ℤ
  recvCnt : ℤ
  suspend : Bool
  pmsgList : List MMember
  apiList : List MMember
  toAddr : ℕ
  maskSender : List CStr
  maskReceiver : List CStr
  daemonCmd : CStr
  deriving DecidableEq, Repr

/-- The fields a member keeps for as long as it is in the table. -/
structure Ident where
  pid : ℤ
  pname : CStr
  msgPort : ℤ
  apiPort : ℤ
  toAddr : ℕ
  deriving DecidableEq, Repr

/-- The identity of a member. -/
def MlistMember.ident (m : MlistMember) : Ident :=
  ⟨m.pid, m.pname, m.msgPort, m.apiPort, m.toAddr⟩

/-- Where messages for a member go. -/
def Ident.msgEndpoint (k : Ident) : Endpoint := ⟨k.toAddr, htons k.msgPort⟩

/-- Where calls and acknowledgements for a member go. -/
def Ident.apiEndpoint (k : Ident) : Endpoint := ⟨k.toAddr, htons k.apiPort⟩

/-- The member has the process id. -/
def hasPid (pid : ℤ) (m : MlistMember) : Bool := m.pid == pid

@[simp] theorem hasPid_iff {pid : ℤ} {m : MlistMember} : hasPid pid m = true ↔ m.pid = pid := by
  simp [hasPid]

/-- `ipcd_get_mlist_via_pid`. -/
def ipcdGetMlistViaPid (mlist : List MlistMember) (pid : ℤ) : Option MlistMember :=
  mlist.find? (hasPid pid)

theorem ipcdGetMlistViaPid_eq_some {mlist : List MlistMember} {pid : ℤ} {m : MlistMember}
    (h : ipcdGetMlistViaPid mlist pid = some m) : m ∈ mlist ∧ m.pid = pid :=
  ⟨List.mem_of_find?_eq_some h, by simpa using List.find?_some h⟩

/-- A lookup finds a member if there is one with the process id. -/
theorem isSome_ipcdGetMlistViaPid (mlist : List MlistMember) (pid : ℤ) :
    (ipcdGetMlistViaPid mlist pid).isSome = mlist.any (hasPid pid) := List.isSome_find?

/-! ## APIs and messages of a member -/

/-- The name is in the list. -/
def listsName (name : CStr) (l : List MMember) : Bool := l.any fun a => a.msgName == name

@[simp] theorem listsName_iff {name : CStr} {l : List MMember} :
    listsName name l = true ↔ name ∈ l.map MMember.msgName := by
  simp [listsName]

/-- The body of both registrations: a name that is listed already is left alone. -/
def registerName (name : CStr) (l : List MMember) : List MMember :=
  if listsName name l then l
  else l ++ [{ msgName := snprintf ipcMsgMaxSize name, processCnt := 0, processTime := ⟨0, 0⟩ }]

/-- The body of both unregistrations. -/
def unregisterName (name : CStr) (l : List MMember) : List MMember :=
  l.eraseP fun a => a.msgName == name

theorem map_registerName (name : CStr) (l : List MMember) :
    (registerName name l).map MMember.msgName =
      if name ∈ l.map MMember.msgName then l.map MMember.msgName
      else l.map MMember.msgName ++ [snprintf ipcMsgMaxSize name] := by
  unfold registerName
  by_cases hin : name ∈ l.map MMember.msgName
  · rw [if_pos (listsName_iff.2 hin), if_pos hin]
  · rw [if_neg fun hl => hin (listsName_iff.1 hl), if_neg hin, List.map_append]
    rfl

theorem map_unregisterName (name : CStr) (l : List MMember) :
    (unregisterName name l).map MMember.msgName = (l.map MMember.msgName).erase name := by
  rw [List.erase_eq_eraseP', unregisterName, List.eraseP_map]
  rfl

/-- The statistics of one finish record. -/
def recordName (rt : IpcRuntime) (l : List MMember) : List MMember :=
  modifyFirst (fun a => a.msgName == rt.msgName)
    (fun a => { a with
      processTime := timespecSum a.processTime rt.ptime, processCnt := a.processCnt + 1 }) l

/-- `ipcd_register_api`. -/
def ipcdRegisterApi (info : RegisterInfo) (mlist : List MlistMember) : List MlistMember :=
  modifyFirst (hasPid info.registerProcessPid)
    (fun m => { m with apiList := registerName info.registerMsgName m.apiList }) mlist

/-- `ipcd_register_msg`. -/
def ipcdRegisterMsg (info : RegisterInfo) (mlist : List MlistMember) : List MlistMember :=
  modifyFirst (hasPid info.registerProcessPid)
    (fun m => { m with pmsgList := registerName info.registerMsgName m.pmsgList }) mlist

/-- `ipcd_unregister_api`: of the members with the process id, the first that lists the name. -/
def ipcdUnregisterApi (info : RegisterInfo) (mlist : List MlistMember) : List MlistMember :=
  modifyFirst
    (fun m => hasPid info.registerProcessPid m && listsName info.registerMsgName m.apiList)
    (fun m => { m with apiList := unregisterName info.registerMsgName m.apiList }) mlist

/-- `ipcd_unregister_msg`. -/
def ipcdUnregisterMsg (info : RegisterInfo) (mlist : List MlistMember) : List MlistMember :=
  modifyFirst
    (fun m => hasPid info.registerProcessPid m && listsName info.registerMsgName m.pmsgList)
    (fun m => { m with pmsgList := unregisterName info.registerMsgName m.pmsgList }) mlist

/-! ## Activity -/

/-- What `ipcd_analysis_core` does to the sender of a call or a message. -/
def markSender (pid : ℤ) (mlist : List MlistMember) : List MlistMember :=
  modifyFirst (hasPid pid)
    (fun m => { m with liveCnt := 0, suspend := false, sendCnt := m.sendCnt + 1 }) mlist

/-- What it does to the sender of a live packet. -/
def markLive (pid : ℤ) (mlist : List MlistMember) : List MlistMember :=
  modifyFirst (hasPid pid) (fun m => { m with liveCnt := 0, suspend := false }) mlist

/-- What it does for `ENUM_IPC_DAEMON`. -/
def setDaemonCmd (info : IpcDaemonInfo) (mlist : List MlistMember) : List MlistMember :=
  modifyFirst (hasPid info.pid)
    (fun m => { m with daemonCmd := snprintf ipcSyscmdSize info.daemonCmd }) mlist

/-- The statistics of an API finish record: the sender's counter, then the API if it lists it. -/
def recordApi (pid : ℤ) (rt : IpcRuntime) (mlist : List MlistMember) : List MlistMember :=
  modifyFirst (hasPid pid)
    (fun m => { m with recvCnt := m.recvCnt + 1, apiList := recordName rt m.apiList }) mlist

/-- The statistics of a message finish record. -/
def recordMsg (pid : ℤ) (rt : IpcRuntime) (mlist : List MlistMember) : List MlistMember :=
  modifyFirst (hasPid pid)
    (fun m => { m with recvCnt := m.recvCnt + 1, pmsgList := recordName rt m.pmsgList }) mlist

/-- What one sweep does to a member: `live_cnt++ > IPC_LIVE_TIMEOUT_NUM && !suspend`. -/
def sweepMember (m : MlistMember) : MlistMember :=
  if m.liveCnt > ipcLiveTimeoutNum && !m.suspend then
    { m with liveCnt := m.liveCnt + 1, suspend := true }
  else { m with liveCnt := m.liveCnt + 1 }

/-- One round of `ipc_live_thread`. -/
def ipcLiveThread (mlist : List MlistMember) : List MlistMember := mlist.map sweepMember

/-! ## Removal and join -/

/-- `ipcd_mlist_remove_via_pid`. -/
def ipcdMlistRemoveViaPid (pid : ℤ) (mlist : List MlistMember) : List MlistMember :=
  mlist.eraseP (hasPid pid)

/-- `ipcd_exit`. -/
def ipcdExit (info : JoinExitInfo) (mlist : List MlistMember) : List MlistMember :=
  ipcdMlistRemoveViaPid info.joinExitProcessPid mlist

/-- The member at `i` as read after the removal of the first member with its process id: where
that was the member itself, the read goes through a pointer to freed memory. -/
def readAfterRemove (stale : MlistMember → MlistMember) (mlist : List MlistMember) (i : ℕ)
    (tmlm : MlistMember) : MlistMember :=
  if mlist.findIdx (hasPid tmlm.pid) = i then stale tmlm else tmlm

/-- The body of the scan of `ipcd_join` at the member `tmlm` found at index `i`: `false` is the
refusal. -/
def joinVisit (stale : MlistMember → MlistMember) (info : JoinExitInfo) (i : ℕ)
    (tmlm : MlistMember) (mlist : List MlistMember) : Bool × List MlistMember :=
  let samePid := tmlm.pid == info.joinExitProcessPid
  if samePid && !tmlm.suspend then (false, mlist)
  else
    let tmlm' := if samePid then readAfterRemove stale mlist i tmlm else tmlm
    let mlist' := if samePid then ipcdMlistRemoveViaPid tmlm.pid mlist else mlist
    let sameName := tmlm'.pname == info.joinExitProcessName
    if sameName && !tmlm'.suspend then (false, mlist')
    else (true, if sameName then ipcdMlistRemoveViaPid tmlm'.pid mlist' else mlist')

/-- The scan of `ipcd_join`: `n` rounds from index `i` on.  The number of rounds is the length
the table had at the start, and the index steps on after a deletion too. -/
def joinScan (stale : MlistMember → MlistMember) (info : JoinExitInfo) :
    ℕ → ℕ → List MlistMember → Bool × List MlistMember
  | 0, _, mlist => (true, mlist)
  | n + 1, i, mlist =>
      match mlist[i]? with
      | none => joinScan stale info n (i + 1) mlist
      | some tmlm =>
          match joinVisit stale info i tmlm mlist with
          | (false, mlist') => (false, mlist')
          | (true, mlist') => joinScan stale info n (i + 1) mlist'

/-- The member a join creates. -/
def newMember (info : JoinExitInfo) (addr : ℕ) : MlistMember where
  pid := info.joinExitProcessPid
  liveCnt := 0
  msgPort := info.msgPort
  apiPort := info.apiPort
  pname := snprintf processNameMaxSize info.joinExitProcessName
  sendCnt := 0
  recvCnt := 0
  suspend := false
  pmsgList := []
  apiList := []
  toAddr := addr
  maskSender := []
  maskReceiver := []
  daemonCmd := []

/-- `ipcd_join`: the member it returns (`none` for `NULL`) and the table. -/
def ipcdJoin (stale : MlistMember → MlistMember) (info : JoinExitInfo) (addr : ℕ)
    (mlist : List MlistMember) : Option MlistMember × List MlistMember :=
  match joinScan stale info mlist.length 0 mlist with
  | (false, mlist') => (none, mlist')
  | (true, mlist') => (some (newMember info addr), mlist' ++ [newMember info addr])

/-! ## What the functions keep -/

/-- What the other processes see of a member: its identity, and the names of its messages and its
APIs. -/
structure Profile where
  ident : Ident
  pmsgs : List CStr
  apis : List CStr
  deriving DecidableEq, Repr

/-- The profile of a member. -/
def MlistMember.profile (m : MlistMember) : Profile :=
  ⟨m.ident, m.pmsgList.map MMember.msgName, m.apiList.map MMember.msgName⟩

/-- An update that keeps the identities keeps the list of identities. -/
theorem ident_modifyFirst {p : MlistMember → Bool} {f : MlistMember → MlistMember}
    (hf : ∀ m, (f m).ident = m.ident) (mlist : List MlistMember) :
    (modifyFirst p f mlist).map MlistMember.ident = mlist.map MlistMember.ident :=
  map_modifyFirst (fun m _ => hf m) mlist

@[simp] theorem ident_ipcdRegisterApi (info : RegisterInfo) (mlist : List MlistMember) :
    (ipcdRegisterApi info mlist).map MlistMember.ident = mlist.map MlistMember.ident := by
  unfold ipcdRegisterApi
  exact ident_modifyFirst (by intro m; rfl) mlist

@[simp] theorem ident_ipcdRegisterMsg (info : RegisterInfo) (mlist : List MlistMember) :
    (ipcdRegisterMsg info mlist).map MlistMember.ident = mlist.map MlistMember.ident := by
  unfold ipcdRegisterMsg
  exact ident_modifyFirst (by intro m; rfl) mlist

@[simp] theorem ident_ipcdUnregisterApi (info : RegisterInfo) (mlist : List MlistMember) :
    (ipcdUnregisterApi info mlist).map MlistMember.ident = mlist.map MlistMember.ident := by
  unfold ipcdUnregisterApi
  exact ident_modifyFirst (by intro m; rfl) mlist

@[simp] theorem ident_ipcdUnregisterMsg (info : RegisterInfo) (mlist : List MlistMember) :
    (ipcdUnregisterMsg info mlist).map MlistMember.ident = mlist.map MlistMember.ident := by
  unfold ipcdUnregisterMsg
  exact ident_modifyFirst (by intro m; rfl) mlist

/-- An update that keeps the profiles keeps the list of profiles. -/
theorem profile_modifyFirst {p : MlistMember → Bool} {f : MlistMember → MlistMember}
    (hf : ∀ m, (f m).profile = m.profile) (mlist : List MlistMember) :
    (modifyFirst p f mlist).map MlistMember.profile = mlist.map MlistMember.profile :=
  map_modifyFirst (fun m _ => hf m) mlist

@[simp] theorem profile_markSender (pid : ℤ) (mlist : List MlistMember) :
    (markSender pid mlist).map MlistMember.profile = mlist.map MlistMember.profile := by
  unfold markSender
  exact profile_modifyFirst (by intro m; rfl) mlist

@[simp] theorem profile_markLive (pid : ℤ) (mlist : List MlistMember) :
    (markLive pid mlist).map MlistMember.profile = mlist.map MlistMember.profile := by
  unfold markLive
  exact profile_modifyFirst (by intro m; rfl) mlist

@[simp] theorem profile_setDaemonCmd (info : IpcDaemonInfo) (mlist : List MlistMember) :
    (setDaemonCmd info mlist).map MlistMember.profile = mlist.map MlistMember.profile := by
  unfold setDaemonCmd
  exact profile_modifyFirst (by intro m; rfl) mlist

/-- A finish record keeps the names. -/
@[simp] theorem map_recordName (rt : IpcRuntime) (l : List MMember) :
    (recordName rt l).map MMember.msgName = l.map MMember.msgName := by
  unfold recordName
  exact map_modifyFirst (by intro a _; rfl) l

@[simp] theorem profile_recordApi (pid : ℤ) (rt : IpcRuntime) (mlist : List MlistMember) :
    (recordApi pid rt mlist).map MlistMember.profile = mlist.map MlistMember.profile := by
  unfold recordApi
  refine profile_modifyFirst (fun m => ?_) mlist
  simp [MlistMember.profile, MlistMember.ident]

@[simp] theorem profile_recordMsg (pid : ℤ) (rt : IpcRuntime) (mlist : List MlistMember) :
    (recordMsg pid rt mlist).map MlistMember.profile = mlist.map MlistMember.profile := by
  unfold recordMsg
  refine profile_modifyFirst (fun m => ?_) mlist
  simp [MlistMember.profile, MlistMember.ident]

@[simp] theorem profile_sweepMember (m : MlistMember) : (sweepMember m).profile = m.profile := by
  unfold sweepMember
  split <;> rfl

@[simp] theorem profile_ipcLiveThread (mlist : List MlistMember) :
    (ipcLiveThread mlist).map MlistMember.profile = mlist.map MlistMember.profile := by
  simp [ipcLiveThread]

/-- What is read off the profiles is the same for tables with the same profiles. -/
theorem map_eq_of_profile {β : Type*} {mlist mlist' : List MlistMember} (g : Profile → β)
    (h : mlist'.map MlistMember.profile = mlist.map MlistMember.profile) :
    (mlist'.map fun m => g m.profile) = mlist.map fun m => g m.profile := by
  have hg : ∀ l : List MlistMember, (l.map fun m => g m.profile) =
      (l.map MlistMember.profile).map g := fun l => by rw [List.map_map]; rfl
  rw [hg, hg, h]

/-! ## Lookups after an update -/

section Lookup

variable {β : Type*} {pid pid' : ℤ} {p : MlistMember → Bool} {f : MlistMember → MlistMember}
  {mlist mlist' : List MlistMember}

/-- What is read off the profile of the member of a process is the same for tables with the same
profiles. -/
theorem lookup_of_profile (g : Profile → β)
    (h : mlist'.map MlistMember.profile = mlist.map MlistMember.profile) :
    ((ipcdGetMlistViaPid mlist' pid).map fun m => g m.profile) =
      (ipcdGetMlistViaPid mlist pid).map fun m => g m.profile := by
  have hview : ∀ l : List MlistMember, ((ipcdGetMlistViaPid l pid).map fun m => g m.profile) =
      ((l.map MlistMember.profile).find? fun k => k.ident.pid == pid).map g := by
    intro l
    rw [List.find?_map, Option.map_map]
    rfl
  rw [hview, hview, h]

/-- So it is after an update that keeps it. -/
theorem lookup_modifyFirst_frame (g : Profile → β)
    (hf : ∀ m, (f m).pid = m.pid ∧ g (f m).profile = g m.profile) :
    ((ipcdGetMlistViaPid (modifyFirst p f mlist) pid).map fun m => g m.profile) =
      (ipcdGetMlistViaPid mlist pid).map fun m => g m.profile := by
  have hview : ∀ l : List MlistMember, ((ipcdGetMlistViaPid l pid).map fun m => g m.profile) =
      ((l.map fun m => (m.pid, g m.profile)).find? fun x => x.1 == pid).map Prod.snd := by
    intro l
    rw [List.find?_map, Option.map_map]
    rfl
  rw [hview, hview, map_modifyFirst fun m _ => Prod.ext (hf m).1 (hf m).2]

/-- An update of another process. -/
theorem lookup_modifyFirst_of_ne (hp : ∀ m, p m → m.pid = pid') (hf : ∀ m, (f m).pid = m.pid)
    (hne : pid' ≠ pid) :
    ipcdGetMlistViaPid (modifyFirst p f mlist) pid = ipcdGetMlistViaPid mlist pid := by
  refine find?_modifyFirst_of_disjoint ?_ ?_ mlist
  · intro m hm hq
    exact hne ((hp m hm).symm.trans (hasPid_iff.1 hq))
  · intro m hm hq
    rw [hasPid_iff, hf] at hq
    exact hne ((hp m hm).symm.trans hq)

/-- A registration of the process itself, in one of the lists of its member. -/
theorem lookup_registerName {name : CStr} {m : MlistMember} (list : MlistMember → List MMember)
    (hf : ∀ m, (f m).pid = m.pid) (hlist : ∀ m, list (f m) = registerName name (list m))
    (hm : ipcdGetMlistViaPid mlist pid = some m) :
    (ipcdGetMlistViaPid (modifyFirst (hasPid pid) f mlist) pid).map list =
      some (registerName name (list m)) := by
  have hkeep : ∀ a, hasPid pid a → hasPid pid (f a) := fun a ha => by simpa [hf] using ha
  rw [ipcdGetMlistViaPid, find?_modifyFirst hkeep, ← ipcdGetMlistViaPid, hm, Option.map_some,
    Option.map_some, hlist]

/-- An unregistration. -/
theorem lookup_unregisterName {name : CStr} {m : MlistMember} (list : MlistMember → List MMember)
    (hf : ∀ m, (f m).pid = m.pid) (hlist : ∀ m, list (f m) = unregisterName name (list m))
    (hm : ipcdGetMlistViaPid mlist pid = some m) :
    (ipcdGetMlistViaPid
      (modifyFirst (fun m => hasPid pid m && listsName name (list m)) f mlist) pid).map list =
      some (unregisterName name (list m)) := by
  have hkeep : ∀ a, hasPid pid a → hasPid pid (f a) := fun a ha => by simpa [hf] using ha
  rw [ipcdGetMlistViaPid, find?_modifyFirst_and hkeep, ← ipcdGetMlistViaPid, hm, Option.map_some,
    Option.map_some]
  split
  · rw [hlist]
  · -- the name is not listed, so there is nothing to take out
    rename_i hl
    rw [unregisterName, List.eraseP_of_forall_not]
    intro a ha hname
    exact hl (List.any_eq_true.2 ⟨a, ha, hname⟩)

end Lookup

theorem ipcdMlistRemoveViaPid_sublist (pid : ℤ) (mlist : List MlistMember) :
    (ipcdMlistRemoveViaPid pid mlist).Sublist mlist :=
  List.eraseP_sublist

section Join

variable (stale : MlistMember → MlistMember) (info : JoinExitInfo)

/-- A visit of the scan only removes members. -/
theorem joinVisit_sublist (i : ℕ) (tmlm : MlistMember) (mlist : List MlistMember) :
    (joinVisit stale info i tmlm mlist).2.Sublist mlist := by
  have hone : (if tmlm.pid == info.joinExitProcessPid then ipcdMlistRemoveViaPid tmlm.pid mlist
      else mlist).Sublist mlist := by
    split
    · exact ipcdMlistRemoveViaPid_sublist _ _
    · exact List.Sublist.refl _
  unfold joinVisit
  extract_lets samePid tmlm' mlist' sameName
  by_cases h1 : (samePid && !tmlm.suspend) = true
  · rw [if_pos h1]
  · rw [if_neg h1]
    by_cases h2 : (sameName && !tmlm'.suspend) = true
    · rw [if_pos h2]
      exact hone
    · rw [if_neg h2]
      show (if sameName then ipcdMlistRemoveViaPid tmlm'.pid mlist' else mlist').Sublist mlist
      split
      · exact (ipcdMlistRemoveViaPid_sublist _ _).trans hone
      · exact hone

/-- The scan only removes members. -/
theorem joinScan_sublist (n i : ℕ) (mlist : List MlistMember) :
    (joinScan stale info n i mlist).2.Sublist mlist := by
  induction n generalizing i mlist with
  | zero => exact List.Sublist.refl _
  | succ n ih =>
    simp only [joinScan]
    split
    · exact ih _ _
    · rename_i tmlm _
      have hv := joinVisit_sublist stale info i tmlm mlist
      split
      · rename_i mlist' he
        simpa [he] using hv
      · rename_i mlist' he
        exact (ih _ _).trans (by simpa [he] using hv)

/-- What a join can do: refuse and at most remove members, or remove members and append the new
one. -/
theorem ipcdJoin_cases (addr : ℕ) (mlist : List MlistMember) :
    (∃ mlist', mlist'.Sublist mlist ∧ ipcdJoin stale info addr mlist = (none, mlist')) ∨
    (∃ mlist', mlist'.Sublist mlist ∧ ipcdJoin stale info addr mlist =
      (some (newMember info addr), mlist' ++ [newMember info addr])) := by
  have hsub := joinScan_sublist stale info mlist.length 0 mlist
  rcases he : joinScan stale info mlist.length 0 mlist with ⟨b, mlist'⟩
  rw [he] at hsub
  cases b with
  | false => exact Or.inl ⟨mlist', hsub, by simp [ipcdJoin, he]⟩
  | true => exact Or.inr ⟨mlist', hsub, by simp [ipcdJoin, he]⟩

end Join

end EasyIpc

import EasyIpc.Packet
import EasyIpc.Lib.FirstMatch

/-!
# A process

The functions of `easyipc_support.c` that work on the lists of a handle.  Each returns the handle
and the packets it sends to the daemon.  The size limit of the configuration, which is the same for
all processes, is the parameter `maxSize`.

* `ipcDataToDaemon` — a packet that reaches the limit is not sent.
* `registerHandler_cases`, `not_mem_names_ipcUnregisterMsg_iff` — what registering and
  unregistering do to the names in `msg_list`.  `ipc_unregister_msg` deletes by index and steps on,
  so it passes over the entry behind a deleted one.
-/

namespace EasyIpc

open FirstMatch

/-- `_ipc_msg_map_member`.  A function pointer is a number, and `NULL` is `none`. -/
structure IpcMsgMapMember where
  msgName : CStr
  fn : Option ℕ
  fnExt : Option ℕ
  usrdata : ℕ
  deriving DecidableEq, Repr

/-- `_ipc_api_map_member`. -/
structure IpcApiMapMember where
  msgName : CStr
  fn : ℕ
  deriving DecidableEq, Repr

/-- `ipc_handle`: the lists, the counter of calls, and the name and ports. -/
structure IpcHandle where
  pid : ℤ
  aliasName : CStr
  msgRecvPort : ℤ
  apiRecvPort : ℤ
  msgList : List IpcMsgMapMember := []
  apiList : List IpcApiMapMember := []
  /-- `api_ack_wait_list`: the `ack_id` of each call that has not returned. -/
  apiAckWaitList : List Magic := []
  apiAckMagicNum : Magic := 0
  deriving DecidableEq, Repr

/-- `sizeof(_ipc_packet)`. -/
def sizeofIpcPacket : ℕ := 16

/-- `ipc_data_to_daemon`. -/
def ipcDataToDaemon (maxSize : ℕ) (ipc : IpcHandle) (body : PacketBody) : List IpcPacket :=
  if sizeofIpcPacket + body.size ≥ maxSize then [] else [⟨ipc.pid, body⟩]

/-- What `ipc_connect_daemon`, `ipc_live` and `ipc_exit` send about the handle. -/
def IpcHandle.joinExitInfo (ipc : IpcHandle) : JoinExitInfo :=
  ⟨ipc.pid, snprintf processNameMaxSize ipc.aliasName, ipc.apiRecvPort, ipc.msgRecvPort, 0⟩

/-! ## Messages -/

/-- The body of both registrations of a handler; `same` says which entry repeats it. -/
def registerHandler (maxSize : ℕ) (ipc : IpcHandle) (name : CStr) (same : IpcMsgMapMember → Bool)
    (entry : IpcMsgMapMember) : IpcHandle × List IpcPacket :=
  if name.length = 0 then (ipc, [])
  else if ipc.msgList.any fun e => e.msgName == name && same e then (ipc, [])
  else ({ ipc with msgList := ipc.msgList ++ [entry] },
    ipcDataToDaemon maxSize ipc (.msgRegister ⟨ipc.pid, snprintf ipcMsgMaxSize name⟩))

/-- `ipc_register_msg_ext`. -/
def ipcRegisterMsgExt (maxSize : ℕ) (ipc : IpcHandle) (msgName : Option CStr) (fn : Option ℕ)
    (usrdata : ℕ) : IpcHandle × List IpcPacket :=
  match msgName, fn with
  | some name, some f =>
      registerHandler maxSize ipc name (fun e => e.fnExt == some f)
        ⟨snprintf ipcMsgMaxSize name, none, some f, usrdata⟩
  | _, _ => (ipc, [])

/-- `ipc_register_msg`. -/
def ipcRegisterMsg (maxSize : ℕ) (ipc : IpcHandle) (msgName : Option CStr) (fn : Option ℕ) :
    IpcHandle × List IpcPacket :=
  match msgName, fn with
  | some name, some f =>
      registerHandler maxSize ipc name (fun e => e.fn == some f)
        ⟨snprintf ipcMsgMaxSize name, some f, none, 0⟩
  | _, _ => (ipc, [])

/-- `ipc_unregister_msg`: the daemon is told at the first handler of the name, and the loop deletes
by index. -/
def ipcUnregisterMsg (maxSize : ℕ) (ipc : IpcHandle) (msgName : Option CStr) :
    IpcHandle × List IpcPacket :=
  match msgName with
  | none => (ipc, [])
  | some name =>
      if name.length = 0 then (ipc, [])
      else
        ({ ipc with
            msgList := eraseScan (fun e => e.msgName == name) ipc.msgList.length 0 ipc.msgList },
          if ipc.msgList.any fun e => e.msgName == name then
            ipcDataToDaemon maxSize ipc (.msgUnregister ⟨ipc.pid, snprintf ipcMsgMaxSize name⟩)
          else [])

/-! ## APIs -/

/-- `ipc_register_api`. -/
def ipcRegisterApi (maxSize : ℕ) (ipc : IpcHandle) (msgName : Option CStr) (fn : Option ℕ) :
    IpcHandle × List IpcPacket :=
  match msgName, fn with
  | some name, some f =>
      if name.length = 0 then (ipc, [])
      else ({ ipc with apiList := ipc.apiList ++ [⟨snprintf ipcMsgMaxSize name, f⟩] },
        ipcDataToDaemon maxSize ipc (.apiRegister ⟨ipc.pid, snprintf ipcMsgMaxSize name⟩))
  | _, _ => (ipc, [])

/-- `ipc_unregister_api`: it tells the daemon and leaves `api_list` alone. -/
def ipcUnregisterApi (maxSize : ℕ) (ipc : IpcHandle) (msgName : Option CStr) : List IpcPacket :=
  match msgName with
  | none => []
  | some name =>
      if name.length = 0 then []
      else if ipc.apiList.any fun e => e.msgName == name then
        ipcDataToDaemon maxSize ipc (.apiUnregister ⟨ipc.pid, snprintf ipcMsgMaxSize name⟩)
      else []

/-- The call that `ipc_call_api` describes in its packet. -/
def ipcApiOf (ipc : IpcHandle) (pname apiName : CStr) (data : List UInt8) (timeout : ℤ) : IpcApi where
  pname := snprintf processNameMaxSize pname
  apiName := snprintf ipcMsgMaxSize apiName
  ackId := ipc.apiAckMagicNum
  daemonMagicNumber := 0
  daemonCountNumber := if timeout ≠ 0 then timeout else apiTimeoutMax
  sendPid := ipc.pid
  data := data

/-- `ipc_call_api` up to the wait: the entry is attached before the packet is sent, and whether or
not it is. -/
def ipcCallApi (maxSize : ℕ) (ipc : IpcHandle) (pname apiName : CStr) (data : List UInt8)
    (timeout : ℤ) : IpcHandle × List IpcPacket :=
  ({ ipc with
      apiAckWaitList := ipc.apiAckWaitList ++ [ipc.apiAckMagicNum]
      apiAckMagicNum := ipc.apiAckMagicNum + 1 },
    ipcDataToDaemon maxSize ipc (.apiCall (ipcApiOf ipc pname apiName data timeout)))

/-- `ipc_recv_analysis` for an acknowledgement: it takes the first entry with the id off the list,
if there is one. -/
def ipcRecvAck (ipc : IpcHandle) (ack : IpcApiAckList) : Option IpcHandle :=
  if ipc.apiAckWaitList.contains ack.ackId then
    some { ipc with apiAckWaitList := ipc.apiAckWaitList.erase ack.ackId }
  else none

/-- The function that `ipc_api_callreal_thread` runs for the call. -/
def callreal (ipc : IpcHandle) (ia : IpcApi) : Option IpcApiMapMember :=
  ipc.apiList.find? fun imm => imm.msgName == ia.apiName

/-- `ipc_api_runtime_start_record` for the call `ia`. -/
def startRecord (ipc : IpcHandle) (ia : IpcApi) (ptime : Timespec) : IpcRuntime :=
  ⟨ipc.pid, snprintf ipcMsgMaxSize ia.apiName, false, ptime, 0, 0, .ackOk, []⟩

/-- `ipc_api_runtime_end_record` for the call `ia`; `ptime` is the duration. -/
def endRecord (ipc : IpcHandle) (ia : IpcApi) (ptime : Timespec) (ret : IpcApiRet)
    (retData : List UInt8) : IpcRuntime :=
  ⟨ipc.pid, snprintf ipcMsgMaxSize ia.apiName, true, ptime, ia.ackId, ia.daemonMagicNumber, ret,
    retData⟩

/-! ## The size limit -/

section Limit

variable {maxSize : ℕ} (ipc : IpcHandle)

theorem ipcDataToDaemon_of_fits {body : PacketBody} (hfits : sizeofIpcPacket + body.size < maxSize) :
    ipcDataToDaemon maxSize ipc body = [⟨ipc.pid, body⟩] := by
  unfold ipcDataToDaemon
  rw [if_neg (Nat.not_le.2 hfits)]

/-- The packet of a join is larger than those about messages and APIs, so where it is sent, they
are. -/
theorem fits_of_joined (hjoined : ipcDataToDaemon maxSize ipc (.join ipc.joinExitInfo) ≠ []) :
    sizeofIpcPacket + 68 < maxSize := by
  unfold ipcDataToDaemon at hjoined
  split at hjoined
  · exact absurd rfl hjoined
  · rename_i hsize
    have hlt : sizeofIpcPacket + 80 < maxSize := Nat.not_le.1 hsize
    omega

end Limit

/-! ## The names in `msg_list` -/

/-- The names that have a handler. -/
def IpcHandle.names (ipc : IpcHandle) : List CStr := ipc.msgList.map IpcMsgMapMember.msgName

/-- No two neighbours in `msg_list` are handlers of the name. -/
def NoNeighbours (ipc : IpcHandle) (name : CStr) : Prop :=
  ipc.msgList.IsChain fun a b => ¬ (a.msgName == name ∧ b.msgName == name)

instance (ipc : IpcHandle) (name : CStr) : Decidable (NoNeighbours ipc name) :=
  inferInstanceAs (Decidable (List.IsChain _ _))

section Names

variable {maxSize : ℕ} {ipc : IpcHandle} {name n : CStr} {same : IpcMsgMapMember → Bool}
  {entry : IpcMsgMapMember}

variable (ipc same entry) in
/-- A registration sends its packet exactly when it adds a handler; otherwise the name has one. -/
theorem registerHandler_cases (hpos : 0 < name.length)
    (hfits : sizeofIpcPacket + 68 < maxSize) :
    (registerHandler maxSize ipc name same entry = (ipc, []) ∧ name ∈ ipc.names) ∨
    registerHandler maxSize ipc name same entry = ({ ipc with msgList := ipc.msgList ++ [entry] },
      [⟨ipc.pid, .msgRegister ⟨ipc.pid, snprintf ipcMsgMaxSize name⟩⟩]) := by
  unfold registerHandler
  rw [if_neg (by omega)]
  split
  · rename_i hany
    obtain ⟨e, he, hsame⟩ := List.any_eq_true.1 hany
    simp only [Bool.and_eq_true, beq_iff_eq] at hsame
    exact Or.inl ⟨rfl, List.mem_map.2 ⟨e, he, hsame.1⟩⟩
  · exact Or.inr (Prod.ext rfl (ipcDataToDaemon_of_fits ipc hfits))

variable (maxSize ipc) in
/-- What the loop of `ipc_unregister_msg` leaves. -/
theorem msgList_ipcUnregisterMsg (hpos : 0 < name.length) :
    (ipcUnregisterMsg maxSize ipc (some name)).1.msgList =
      dropSkip (fun e => e.msgName == name) ipc.msgList := by
  simp only [ipcUnregisterMsg, if_neg (Nat.pos_iff_ne_zero.1 hpos), eraseScan_length]

/-- The packets of an unregistration: one, if there is a handler of the name. -/
theorem ipcUnregisterMsg_packets (hpos : 0 < name.length) (hfits : sizeofIpcPacket + 68 < maxSize) :
    (ipcUnregisterMsg maxSize ipc (some name)).2 = if name ∈ ipc.names then
      [⟨ipc.pid, .msgUnregister ⟨ipc.pid, snprintf ipcMsgMaxSize name⟩⟩] else [] := by
  have hany : (ipc.msgList.any fun e => e.msgName == name) = true ↔ name ∈ ipc.names := by
    simp [IpcHandle.names]
  have hsent : ipcDataToDaemon maxSize ipc
      (.msgUnregister ⟨ipc.pid, snprintf ipcMsgMaxSize name⟩) =
      [⟨ipc.pid, .msgUnregister ⟨ipc.pid, snprintf ipcMsgMaxSize name⟩⟩] :=
    ipcDataToDaemon_of_fits ipc hfits
  simp only [ipcUnregisterMsg, if_neg (Nat.pos_iff_ne_zero.1 hpos), hsent]
  exact if_congr hany rfl rfl

/-- The loop of `ipc_unregister_msg` keeps the handlers of all other names. -/
theorem mem_names_ipcUnregisterMsg_of_ne (hne : n ≠ name) :
    n ∈ (ipcUnregisterMsg maxSize ipc (some name)).1.names ↔ n ∈ ipc.names := by
  rcases Nat.eq_zero_or_pos name.length with hzero | hpos
  · simp only [ipcUnregisterMsg, if_pos hzero]
  · have hother : ∀ l : List IpcMsgMapMember, n ∈ l.map IpcMsgMapMember.msgName ↔
        n ∈ (l.filter fun e => !(e.msgName == name)).map IpcMsgMapMember.msgName := by
      intro l
      simp only [List.mem_map, List.mem_filter, Bool.not_eq_true', beq_eq_false_iff_ne]
      constructor
      · rintro ⟨e, he, rfl⟩
        exact ⟨e, ⟨he, hne⟩, rfl⟩
      · rintro ⟨e, ⟨he, -⟩, rfl⟩
        exact ⟨e, he, rfl⟩
    rw [IpcHandle.names, IpcHandle.names, msgList_ipcUnregisterMsg maxSize ipc hpos, hother,
      filter_dropSkip, ← hother]

variable (maxSize) in
/-- **No handler of the name is left exactly when no two of them were neighbours.** -/
theorem not_mem_names_ipcUnregisterMsg_iff (hpos : 0 < name.length) :
    name ∉ (ipcUnregisterMsg maxSize ipc (some name)).1.names ↔ NoNeighbours ipc name := by
  unfold NoNeighbours
  rw [← forall_not_dropSkip_iff, IpcHandle.names, msgList_ipcUnregisterMsg maxSize ipc hpos]
  simp only [List.mem_map, not_exists, not_and, beq_iff_eq]

end Names

end EasyIpc

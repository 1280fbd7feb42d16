import EasyIpc.Hops

/-!
# Payloads arrive as they were sent

The hops of `Hops.lean` in the order in which a message, a call and a result pass them.  The
transport hands every datagram over unchanged, cut to the receiver's buffer (`recvfrom`).

* `MessageArrives`, `CallArrives`, `ResultArrives` — what arrives at the end of the way; each also
  says what the daemon of `Daemon.lean` reads and sends on the way.
* `payload_fidelity` — everything that passes the size check of `ipc_data_to_daemon` arrives.
-/

namespace EasyIpc

open Buffer Bytes

/-- A message from the daemon's receive buffer to the packet for a member. -/
def msgThroughDaemon (pid : ℤ) (buf : List UInt8) : Option (List UInt8) :=
  ((ipcdMsgPush buf).bind ipcdMsgPull).bind (Bytes.ipcdRelayMsg pid)

/-- A call from the daemon's receive buffer to the packet for a member. -/
def apiThroughDaemon (number : Magic) (pid : ℤ) (buf : List UInt8) : Option (List UInt8) :=
  ((ipcdApiPush number buf).bind ipcdApiPull).bind (Bytes.ipcdRelayApi pid)

/-- A message sent with `ipc_send_msg` arrives at the handlers of the member. -/
def MessageArrives (maxSize : ℕ) (ipc : IpcHandle) (mlm : MlistMember) (msgName : CStr)
    (data : List UInt8) : Prop :=
  ∃ dg relayed, ipcSendMsg maxSize ipc msgName data = some dg ∧ dg.length ≤ maxSize ∧
    (∃ msg, decodePacket (recvfrom maxSize dg) = ⟨ipc.pid, .msgSend msg⟩ ∧
      relayed = encodeSend [] (ipcdRelayMsg mlm msg)) ∧
    msgThroughDaemon mlm.pid (recvfrom maxSize dg) = some relayed ∧ relayed.length ≤ maxSize ∧
    ((ipcPush (recvfrom maxSize relayed)).bind ipcRecvProbe).map msgArgs =
      some (msgName, data, (data.length : ℤ))

/-- A call made with `ipc_call_api` arrives at the function of the member: `heap` is the memory of
its `_ipc_api_ack_list`, `number` the one the daemon gives it. -/
def CallArrives (maxSize : ℕ) (ipc : IpcHandle) (mlm : MlistMember) (heap : List UInt8)
    (number : Magic) (pname apiName : CStr) (data : List UInt8) (timeout : ℤ) : Prop :=
  ∃ dg relayed, Bytes.ipcCallApi maxSize ipc heap pname apiName data timeout = some dg ∧
    dg.length ≤ maxSize ∧
    (∃ api, decodePacket (recvfrom maxSize dg) = ⟨ipc.pid, .apiCall api⟩ ∧ api.pname = pname ∧
      relayed = encodeSend heap (ipcdRelayApi mlm { api with daemonMagicNumber := number })) ∧
    apiThroughDaemon number mlm.pid (recvfrom maxSize dg) = some relayed ∧
    relayed.length ≤ maxSize ∧
    ((ipcPush (recvfrom maxSize relayed)).bind ipcRecvProbe).map apiArgs =
      some (apiName, data, (data.length : ℤ))

/-- The result of the call `ia` arrives at the process that waits for it: the daemon finds the
pending call and answers its sender. -/
def ResultArrives (maxSize : ℕ) (ipc : IpcHandle) (ia : IpcApi) (ptime : Timespec)
    (ret : IpcApiRet) (retData : List UInt8) (d : Daemon) (caller : ℤ) (waitList : List Magic) :
    Prop :=
  ∃ dg s ackDg e, ipcApiRuntimeEndRecord maxSize ipc ia ptime ret retData = some dg ∧
    dg.length ≤ maxSize ∧
    (∀ stale addr, (ipcdAnalysisCore stale addr (decodePacket (recvfrom maxSize dg)) d).2 = [s]) ∧
    s.sendPid = caller ∧ ackDg = encodeSend [] s ∧
    ipcdFinishAck caller (recvfrom maxSize dg) = some ackDg ∧ ackDg.length ≤ maxSize ∧
    Bytes.ipcRecvAck waitList (recvfrom maxSize ackDg) = some (ia.ackId, e) ∧
    e.ackResult = ret ∧ e.ackSize = retData.length ∧ e.ackDataPoint.getD [] = retData ∧
    (ret.fromUser → callReturn true e = (ret, some (e.ackDataPoint, (retData.length : ℤ))))

/-- What a handle that sends has: its pid is an `int` and its name a C string. -/
structure IpcHandle.Valid (ipc : IpcHandle) : Prop where
  pid : IntRange 4 ipc.pid
  name : (0 : UInt8) ∉ ipc.aliasName

section Arrival

variable {maxSize : ℕ} {ipc : IpcHandle} {data : List UInt8} {apiName : CStr}

theorem ipcDataToDaemon_of_lt {pid iit : ℤ} (h : 16 + data.length < maxSize) :
    Bytes.ipcDataToDaemon maxSize pid iit data = some (encodeIpcPacket pid iit data) := by
  unfold Bytes.ipcDataToDaemon sizeofIpcPacket
  rw [if_neg (by omega)]

theorem messageArrives (hM : maxSize ≤ 2147483648) (hipc : ipc.Valid) (mlm : MlistMember)
    {msgName : CStr} (hname : FieldName ipcMsgMaxSize msgName)
    (hfit : 16 + (140 + data.length) < maxSize) : MessageArrives maxSize ipc mlm msgName data := by
  have hcut : snprintf ipcMsgMaxSize msgName = msgName := snprintf_of_lt hname.1
  let msg : IpcMsg := ⟨msgName, snprintf processNameMaxSize ipc.aliasName, ipc.pid, data⟩
  have hvalid : msg.Valid := ⟨hname, fieldName_snprintf (by decide) hipc.name, hipc.pid,
    dataSize_of_fits hM (by show data.length < maxSize; omega)⟩
  have hlen : (encodeIpcMsg msg).length = 140 + data.length := length_build (layout_ipcMsg hvalid)
  have hsize : DataSize (encodeIpcMsg msg) := dataSize_of_fits hM (by omega)
  have hsend : ipcSendMsg maxSize ipc msgName data =
      some (encodeIpcPacket ipc.pid 14 (encodeIpcMsg msg)) := by
    rw [ipcSendMsg, hcut]
    exact ipcDataToDaemon_of_lt (show 16 + (encodeIpcMsg msg).length < maxSize by omega)
  have hdecode := @decodePacket_recvfrom (zeros 64) (by decide) ⟨ipc.pid, .msgSend msg⟩ maxSize
    ⟨hipc.pid, hvalid⟩ (by show 16 + (140 + data.length) ≤ maxSize; omega)
  refine ⟨_, encodeSend [] (ipcdRelayMsg mlm msg), hsend, ?_, ⟨msg, hdecode, rfl⟩, ?_, ?_, ?_⟩
  · rw [length_encodeIpcPacket]
    omega
  · rw [msgThroughDaemon, ipcdMsgPush_eq hvalid hM hfit, Option.bind_some,
      ipcdMsgPull_eq hvalid hM hfit, Option.bind_some]
    exact ipcdRelayMsg_eq hvalid hM hfit mlm
  · show (encodeIpcPacket mlm.pid 15 (encodeIpcMsg msg)).length ≤ maxSize
    rw [length_encodeIpcPacket]
    omega
  · show ((ipcPush (recvfrom maxSize (encodeIpcPacket mlm.pid 15 (encodeIpcMsg msg)))).bind
      ipcRecvProbe).map msgArgs = _
    rw [ipcRecvProbe_ipcPush (by omega) hsize, Option.map_some]
    have hself := pointsTo_self (encodeIpcMsg msg)
    have hdec := decode_ipcMsg hvalid hself
    have hnm := congrArg IpcMsg.msgName hdec
    have hdt := congrArg IpcMsg.data hdec
    simp only [decodeIpcMsg] at hnm hdt
    rw [msgArgs, hnm, hdt, size_of_ipcMsg hvalid hself]

theorem callArrives (hM : maxSize ≤ 2147483648) (hipc : ipc.Valid) (mlm : MlistMember)
    {heap : List UInt8} (hheap : heap.length = 64) (number : Magic) {pname : CStr}
    (hpname : FieldName processNameMaxSize pname) (hname : FieldName ipcMsgMaxSize apiName)
    {timeout : ℤ} (htimeout : IntRange 4 timeout) (hfit : 16 + (216 + data.length) < maxSize) :
    CallArrives maxSize ipc mlm heap number pname apiName data timeout := by
  let api : IpcApi := ipcApiOf ipc pname apiName data timeout
  have hp : api.pname = pname := snprintf_of_lt hpname.1
  have hn : api.apiName = apiName := snprintf_of_lt hname.1
  have hcount : IntRange 4 api.daemonCountNumber := by
    show IntRange 4 (if timeout ≠ 0 then timeout else apiTimeoutMax)
    split
    · exact htimeout
    · decide
  have hvalid : api.Valid := ⟨by rw [hp]; exact hpname, by rw [hn]; exact hname, hcount, hipc.pid,
    dataSize_of_fits hM (by show data.length < maxSize; omega)⟩
  let api' : IpcApi := { api with daemonMagicNumber := number }
  have hvalid' : api'.Valid :=
    ⟨hvalid.pname, hvalid.apiName, hvalid.count, hvalid.pid, hvalid.size⟩
  have hlen : (encodeIpcApi heap api).length = 216 + data.length :=
    length_build (layout_ipcApi hvalid hheap)
  have hlen' : (encodeIpcApi heap api').length = 216 + data.length :=
    length_build (layout_ipcApi hvalid' hheap)
  have hsize' : DataSize (encodeIpcApi heap api') := dataSize_of_fits hM (by omega)
  have hsend : Bytes.ipcCallApi maxSize ipc heap pname apiName data timeout =
      some (encodeIpcPacket ipc.pid 10 (encodeIpcApi heap api)) :=
    ipcDataToDaemon_of_lt (show 16 + (encodeIpcApi heap api).length < maxSize by omega)
  have hdecode := @decodePacket_recvfrom heap hheap ⟨ipc.pid, .apiCall api⟩ maxSize
    ⟨hipc.pid, hvalid⟩ (by show 16 + (216 + data.length) ≤ maxSize; omega)
  refine ⟨_, encodeSend heap (ipcdRelayApi mlm api'), hsend, ?_, ⟨api, hdecode, hp, rfl⟩, ?_, ?_, ?_⟩
  · rw [length_encodeIpcPacket]
    omega
  · rw [apiThroughDaemon, ipcdApiPush_eq hvalid hheap hM hfit number, Option.bind_some,
      ipcdApiPull_eq hvalid' hheap hM hfit, Option.bind_some]
    exact ipcdRelayApi_eq hvalid' hheap hM hfit mlm
  · show (encodeIpcPacket mlm.pid 11 (encodeIpcApi heap api')).length ≤ maxSize
    rw [length_encodeIpcPacket]
    omega
  · show ((ipcPush (recvfrom maxSize (encodeIpcPacket mlm.pid 11 (encodeIpcApi heap api')))).bind
      ipcRecvProbe).map apiArgs = _
    rw [ipcRecvProbe_ipcPush (by omega) hsize', Option.map_some]
    have hself := pointsTo_self (encodeIpcApi heap api')
    have hdec := decode_ipcApi hvalid' hheap hself
    have hnm := congrArg IpcApi.apiName hdec
    have hdt := congrArg IpcApi.data hdec
    simp only [decodeIpcApi] at hnm hdt
    rw [apiArgs, hnm, hdt, size_of_ipcApi hvalid' hheap hself]
    exact congrArg (fun n => some (n, data, (data.length : ℤ))) hn

/-- The end of `ipc_call_api` hands over what the entry holds. -/
theorem callReturn_of_fromUser {e : AckEntry} (h : e.ackResult.fromUser) :
    callReturn true e = (e.ackResult, some (e.ackDataPoint, e.ackSize)) := by
  unfold callReturn
  rw [if_neg (by simp), if_neg]
  · rfl
  · rcases h with h | h <;> simp [h]

theorem resultArrives (hM : maxSize ≤ 2147483648) (hipc : ipc.Valid) {ia : IpcApi}
    (hname : FieldName ipcMsgMaxSize ia.apiName) {ptime : Timespec}
    (hsec : IntRange 8 ptime.tvSec) (hnsec : IntRange 8 ptime.tvNsec) {ret : IpcApiRet}
    (hret : ret.Valid) {retData : List UInt8} (hfit : 16 + (112 + retData.length) < maxSize)
    {d : Daemon} {pending : IpcApi} {mlm : MlistMember} {waitList : List Magic}
    (hlists : senderLists d.mlist ipc.pid (endRecord ipc ia ptime ret retData) = true)
    (hpending : d.recvAcklist.find? (fun a => a.daemonMagicNumber == ia.daemonMagicNumber) =
      some pending)
    (hcaller : ipcdGetMlistViaPid (recordApi ipc.pid (endRecord ipc ia ptime ret retData) d.mlist)
      pending.sendPid = some mlm)
    (hwait : ia.ackId ∈ waitList) :
    ResultArrives maxSize ipc ia ptime ret retData d pending.sendPid waitList := by
  let rt : IpcRuntime := endRecord ipc ia ptime ret retData
  change senderLists d.mlist ipc.pid rt = true at hlists
  change ipcdGetMlistViaPid (recordApi ipc.pid rt d.mlist) pending.sendPid = some mlm at hcaller
  have hcut : rt.msgName = ia.apiName := snprintf_of_lt hname.1
  have hdata : DataSize retData := dataSize_of_fits hM (by omega)
  have hvalid : rt.Valid := ⟨hipc.pid, by rw [hcut]; exact hname, hsec, hnsec, hret, hdata⟩
  have hlen : (encodeIpcRuntime rt).length = 112 + retData.length :=
    length_build (layout_ipcRuntime hvalid)
  have hsend : ipcApiRuntimeEndRecord maxSize ipc ia ptime ret retData =
      some (encodeIpcPacket ipc.pid 16 (encodeIpcRuntime rt)) :=
    ipcDataToDaemon_of_lt (show 16 + (encodeIpcRuntime rt).length < maxSize by omega)
  have hdecode := @decodePacket_recvfrom (zeros 64) (by decide) ⟨ipc.pid, .apiRuntime rt⟩ maxSize
    ⟨hipc.pid, hvalid⟩ (by show 16 + (112 + retData.length) ≤ maxSize; omega)
  have hpid : mlm.pid = pending.sendPid := (ipcdGetMlistViaPid_eq_some hcaller).2
  let ack : IpcApiAckList := ⟨ia.ackId, ret, retData⟩
  have hack : ack.Valid := ⟨hret, hdata⟩
  have hacklen : (encodeIpcApiAckList ack).length = 64 + retData.length :=
    length_build (layout_ipcApiAckList ack)
  obtain ⟨e, hrecv, hres, hsz, hdt⟩ := @ipcRecvAck_eq maxSize mlm.pid ack waitList hack
    (by show 16 + (64 + retData.length) ≤ maxSize; omega) hwait
  refine ⟨_, ipcdApiAckRelay mlm ack ia.daemonMagicNumber, _, e, hsend, ?_, ?_, hpid, rfl, ?_, ?_,
    hrecv, hres, hsz, hdt, ?_⟩
  · rw [length_encodeIpcPacket]
    omega
  · intro stale addr
    show (ipcdAnalysisCore stale addr (decodePacket (recvfrom maxSize
      (encodePacket (zeros 64) ⟨ipc.pid, .apiRuntime rt⟩))) d).2 = _
    rw [hdecode]
    show (ipcdApiFinish ipc.pid rt d).2 = _
    have hmatch : d.recvAcklist.find? (fun a => a.daemonMagicNumber == rt.daemonMagicNumber) =
        some pending := hpending
    simp only [ipcdApiFinish, if_pos hlists, hmatch, ackTo, hcaller]
    rfl
  · rw [← hpid]
    exact ipcdFinishAck_eq hvalid (Nat.le_of_lt hfit) mlm ia.daemonMagicNumber
  · show (encodeIpcPacket mlm.pid 13 (encodeIpcApiAckList ack)).length ≤ maxSize
    rw [length_encodeIpcPacket]
    omega
  · intro huser
    have huser' : e.ackResult.fromUser := by rwa [hres]
    rw [callReturn_of_fromUser huser', hres, hsz]

end Arrival

/-- **Payloads arrive as they were sent.**  `maxSize` is the `int` that all processes have as
`packet_max_size`.  What passes the size check arrives: a message at the handlers, a call at the
function, and the result of a call that is matched to its pending call at the caller. -/
theorem payload_fidelity (maxSize : ℕ) (hM : maxSize ≤ 2147483648) :
    (∀ (ipc : IpcHandle) (mlm : MlistMember) (msgName : CStr) (data : List UInt8), ipc.Valid →
      FieldName ipcMsgMaxSize msgName → sizeofIpcPacket + (140 + data.length) < maxSize →
      MessageArrives maxSize ipc mlm msgName data) ∧
    (∀ (ipc : IpcHandle) (mlm : MlistMember) (heap : List UInt8) (number : Magic)
      (pname apiName : CStr) (data : List UInt8) (timeout : ℤ), ipc.Valid → heap.length = 64 →
      FieldName processNameMaxSize pname → FieldName ipcMsgMaxSize apiName → IntRange 4 timeout →
      sizeofIpcPacket + (216 + data.length) < maxSize →
      CallArrives maxSize ipc mlm heap number pname apiName data timeout) ∧
    (∀ (ipc : IpcHandle) (ia : IpcApi) (ptime : Timespec) (ret : IpcApiRet) (retData : List UInt8)
      (d : Daemon) (pending : IpcApi) (mlm : MlistMember) (waitList : List Magic), ipc.Valid →
      FieldName ipcMsgMaxSize ia.apiName → IntRange 8 ptime.tvSec → IntRange 8 ptime.tvNsec →
      ret.Valid → sizeofIpcPacket + (112 + retData.length) < maxSize →
      senderLists d.mlist ipc.pid (endRecord ipc ia ptime ret retData) = true →
      d.recvAcklist.find? (fun a => a.daemonMagicNumber == ia.daemonMagicNumber) = some pending →
      ipcdGetMlistViaPid (recordApi ipc.pid (endRecord ipc ia ptime ret retData) d.mlist)
        pending.sendPid = some mlm →
      ia.ackId ∈ waitList →
      ResultArrives maxSize ipc ia ptime ret retData d pending.sendPid waitList) := by
  refine ⟨?_, ?_, ?_⟩
  · intro ipc mlm msgName data hipc hname hfit
    exact messageArrives hM hipc mlm hname hfit
  · intro ipc mlm heap number pname apiName data timeout hipc hheap hpname hname htimeout hfit
    exact callArrives hM hipc mlm hheap number hpname hname htimeout hfit
  · intro ipc ia ptime ret retData d pending mlm waitList hipc hname hsec hnsec hret hfit hlists
      hpending hcaller hwait
    exact resultArrives hM hipc hname hsec hnsec hret hfit hlists hpending hcaller hwait

/-- A provider of pid 1 that lists the API `f`, and a caller of pid 2. -/
def sampleTable : List MlistMember :=
  ipcdRegisterApi ⟨1, [102]⟩
    [newMember ⟨1, [97], 10, 11, 0⟩ 1, newMember ⟨2, [98], 20, 21, 0⟩ 1]

/-- The hypotheses hold of a message, a call and a result of a few bytes. -/
theorem payload_fidelity_small :
    MessageArrives 4096 ⟨1, [97], 10, 11, [], [], [], 0⟩ (newMember ⟨2, [98], 20, 21, 0⟩ 1) [109]
      [1, 0, 2] ∧
    CallArrives 4096 ⟨2, [98], 20, 21, [], [], [], 5⟩ (newMember ⟨1, [97], 10, 11, 0⟩ 1) (zeros 64)
      0 [97] [102] [7] 300 ∧
    ResultArrives 4096 ⟨1, [97], 10, 11, [], [], [], 0⟩ ⟨[97], [102], 5, 0, 300, 2, [7]⟩ ⟨0, 1⟩
      .ackOk [8, 9] { mlist := sampleTable, recvAcklist := [⟨[97], [102], 5, 0, 300, 2, [7]⟩] } 2
      [5] := by
  obtain ⟨hmsg, hcall, hresult⟩ := payload_fidelity 4096 (by decide)
  refine ⟨?_, ?_, ?_⟩
  · exact hmsg _ _ _ _ ⟨by decide, by decide⟩ (by decide) (by decide)
  · exact hcall _ _ _ _ _ _ _ _ ⟨by decide, by decide⟩ (by decide) (by decide) (by decide)
      (by decide) (by decide)
  · exact hresult _ _ _ _ _ _ ⟨[97], [102], 5, 0, 300, 2, [7]⟩ _ _ ⟨by decide, by decide⟩
      (by decide) (by decide) (by decide) (by decide) (by decide) (by decide) (by decide) rfl
      (by decide)

end EasyIpc

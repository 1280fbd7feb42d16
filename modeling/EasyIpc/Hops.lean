import EasyIpc.Client
import EasyIpc.Daemon
import EasyIpc.Wire

/-!
# The way of a block of bytes

The functions that copy messages, calls and acknowledgements from one block to the next, at the
level of bytes: each computes its own length from a size field and `sizeof`.  A copy that would
leave the block it reads from gives `none`.

* A process: `ipcSendMsg`, `ipcCallApi`, `ipcApiRuntimeEndRecord` fill a block and
  `ipcDataToDaemon` wraps it into a packet.
* The daemon: `ipcdMsgPush`, `ipcdMsgPull`, `ipcdRelayMsg`, the same for calls, and
  `ipcdFinishAck`.
* A process again: `ipcMsgPush`, `ipcMsgRecvProbe`, `ipcRecvAck`, `callReturn`.

For each hop there is a lemma that says which block comes out when the block of the previous hop
goes in.
-/

namespace EasyIpc.Bytes

open Buffer

/-- The conversion of a `size_t` to `int`. -/
def toInt (n : ℤ) : ℤ := (BitVec.ofInt 32 n).toInt

theorem toInt_of_range {n : ℤ} (h : IntRange 4 n) : toInt n = n := h

/-! ## Sending to the daemon -/

/-- `ipc_data_to_daemon`: the datagram, unless it reaches the limit. -/
def ipcDataToDaemon (maxSize : ℕ) (pid iit : ℤ) (data : List UInt8) : Option (List UInt8) :=
  if sizeofIpcPacket + data.length ≥ maxSize then none else some (encodeIpcPacket pid iit data)

/-- `ipc_send_msg`. -/
def ipcSendMsg (maxSize : ℕ) (ipc : IpcHandle) (msgName : CStr) (data : List UInt8) :
    Option (List UInt8) :=
  ipcDataToDaemon maxSize ipc.pid 14 (encodeIpcMsg
    ⟨snprintf ipcMsgMaxSize msgName, snprintf processNameMaxSize ipc.aliasName, ipc.pid, data⟩)

/-- The packet of `ipc_call_api`; `heap` is what `malloc` gave for the `_ipc_api_ack_list`. -/
def ipcCallApi (maxSize : ℕ) (ipc : IpcHandle) (heap : List UInt8) (pname apiName : CStr)
    (data : List UInt8) (timeout : ℤ) : Option (List UInt8) :=
  ipcDataToDaemon maxSize ipc.pid 10 (encodeIpcApi heap (ipcApiOf ipc pname apiName data timeout))

/-- `ipc_api_runtime_end_record` for the call in `ia`; `ptime` is the duration. -/
def ipcApiRuntimeEndRecord (maxSize : ℕ) (ipc : IpcHandle) (ia : IpcApi) (ptime : Timespec)
    (ret : IpcApiRet) (retData : List UInt8) : Option (List UInt8) :=
  ipcDataToDaemon maxSize ipc.pid 16 (encodeIpcRuntime (endRecord ipc ia ptime ret retData))

/-! ## The daemon -/

/-- The length in `ipcd_msg_push`, `ipcd_msg_pull` and the relay: `sizeof(_ipc_msg) + size`. -/
def ipcMsgSize (p : List UInt8) : ℤ := toInt (140 + intAt 4 132 p)

/-- `ipcd_msg_push` on the data of the packet in the receive buffer. -/
def ipcdMsgPush (buf : List UInt8) : Option (List UInt8) := read? 12 (ipcMsgSize (buf.drop 12)) buf

/-- `ipcd_msg_pull`. -/
def ipcdMsgPull (p : List UInt8) : Option (List UInt8) := read? 0 (ipcMsgSize p) p

/-- `ipcd_relay_msg` to the member with the process id, as `_ipcd_msg_probe` calls it. -/
def ipcdRelayMsg (pid : ℤ) (p : List UInt8) : Option (List UInt8) :=
  (read? 0 (ipcMsgSize p) p).map (encodeIpcPacket pid 15)

/-- The length in `ipcd_api_push` and the functions like it: `sizeof(_ipc_api) + size`. -/
def ipcApiSize (p : List UInt8) : ℤ := toInt (216 + intAt 4 208 p)

/-- The daemon writes the number of the call into the receive buffer, and `ipcd_api_push`. -/
def ipcdApiPush (number : Magic) (buf : List UInt8) : Option (List UInt8) :=
  let buf := write (12 + 192) (magicBytes number) buf
  read? 12 (ipcApiSize (buf.drop 12)) buf

/-- `ipcd_api_pull`. -/
def ipcdApiPull (p : List UInt8) : Option (List UInt8) := read? 0 (ipcApiSize p) p

/-- `ipcd_relay_api` to the member with the process id, as `_ipcd_api_probe` calls it. -/
def ipcdRelayApi (pid : ℤ) (p : List UInt8) : Option (List UInt8) :=
  (read? 0 (ipcApiSize p) p).map (encodeIpcPacket pid 11)

/-- The data that a finish record returns: they are copied only if there are any. -/
def ipcdRetData (buf : List UInt8) : Option (List UInt8) :=
  if intAt 4 100 (buf.drop 12) = 0 then some []
  else read? (12 + 104) (intAt 4 100 (buf.drop 12)) buf

/-- The acknowledgement that `ipcd_analysis_core` makes of a finish record, and
`ipcd_api_ack_relay` to the member with the process id. -/
def ipcdFinishAck (pid : ℤ) (buf : List UInt8) : Option (List UInt8) :=
  (ipcdRetData buf).map fun data => encodeIpcPacket pid 13 (encodeIpcApiAckList
    ⟨magicAt 88 (buf.drop 12), .ofInt (intAt 4 96 (buf.drop 12)), data⟩)

/-! ## Receiving from the daemon -/

/-- `ipc_msg_push` and `ipc_api_push`, as `ipc_recv_analysis` calls them. -/
def ipcPush (buf : List UInt8) : Option (List UInt8) :=
  (read? 12 (intAt 4 8 buf) buf).map fun data =>
    build (data.length + 4) [(0, intBytes 4 (intAt 4 8 buf)), (4, data)]

/-- The copy out of `_msg_push_data` in `ipc_msg_recv_probe` and `ipc_api_recv_probe`. -/
def ipcRecvProbe (mpd : List UInt8) : Option (List UInt8) := read? 4 (intAt 4 0 mpd) mpd

/-- What a message handler is given: the name, the bytes at its pointer and their number. -/
def msgArgs (im : List UInt8) : CStr × List UInt8 × ℤ :=
  (cstrAt 0 im, read 136 (intAt 4 132 im).toNat im, intAt 4 132 im)

/-- What an API function is given: the name, the bytes at its pointer and their number. -/
def apiArgs (ia : List UInt8) : CStr × List UInt8 × ℤ :=
  (cstrAt 64 ia, read 212 (intAt 4 208 ia).toNat ia, intAt 4 208 ia)

/-- What `ipc_recv_analysis` stores in an entry of `api_ack_wait_list`. -/
structure AckEntry where
  ackResult : IpcApiRet
  ackSize : ℤ
  /-- `none` for `NULL`. -/
  ackDataPoint : Option (List UInt8)
  deriving DecidableEq, Repr

/-- `ipc_recv_analysis` for an acknowledgement: the entry it completes, if one waits for it. -/
def ipcRecvAck (waitList : List Magic) (buf : List UInt8) : Option (Magic × AckEntry) :=
  let p := buf.drop 12
  let ackId := magicAt 0 p
  let ackSize := intAt 4 40 p
  if ackId ∈ waitList then
    if ackSize > 0 then
      (read? (12 + 56) ackSize buf).map fun data =>
        (ackId, ⟨.ofInt (intAt 4 44 p), ackSize, some data⟩)
    else some (ackId, ⟨.ofInt (intAt 4 44 p), ackSize, none⟩)
  else none

/-- The end of `ipc_call_api`, after its entry is completed: the code it returns, and what it
stores in `ret_data` and `ret_size`; `wanted` says that both are given. -/
def callReturn (wanted : Bool) (e : AckEntry) : IpcApiRet × Option (Option (List UInt8) × ℤ) :=
  if e.ackDataPoint ≠ none ∧ e.ackSize > 0 ∧ wanted = false then (.inParamError, none)
  else if e.ackResult ≠ .ackOk ∧ e.ackResult ≠ .ackFail then (e.ackResult, none)
  else (e.ackResult, if wanted then some (e.ackDataPoint, e.ackSize) else none)

/-! ## The hops -/

section Hops

variable {maxSize : ℕ} {pid : ℤ} {heap data : List UInt8}

/-- The datagrams of a process are the bytes of its packets. -/
theorem encode_ipcDataToDaemon (ipc : IpcHandle) {body : PacketBody} (hheap : heap.length = 64)
    (h : body.Valid) : (EasyIpc.ipcDataToDaemon maxSize ipc body).map (encodePacket heap) =
      (ipcDataToDaemon maxSize ipc.pid body.iit (encodeBody heap body)).toList := by
  unfold EasyIpc.ipcDataToDaemon ipcDataToDaemon
  rw [length_encodeBody hheap h]
  split <;> rfl

/-- The size of a block that fits a buffer is an `int`. -/
theorem dataSize_of_fits (hM : maxSize ≤ 2147483648) (h : data.length < maxSize) :
    DataSize data := by
  unfold DataSize
  rw [intRange_four_iff]
  omega

/-! ### Messages -/

variable {msg : IpcMsg}

theorem ipcMsgSize_eq {p : List UInt8} (hvalid : msg.Valid) (hM : maxSize ≤ 2147483648)
    (hfit : 16 + (140 + msg.data.length) < maxSize) (hp : PointsTo p (encodeIpcMsg msg)) :
    ipcMsgSize p = (encodeIpcMsg msg).length := by
  rw [ipcMsgSize, size_of_ipcMsg hvalid hp, encodeIpcMsg, length_build (layout_ipcMsg hvalid),
    toInt_of_range]
  · omega
  · rw [intRange_four_iff]
    omega

theorem pointsTo_self (block : List UInt8) : PointsTo block block := read_zero_length

/-- `ipcd_msg_push` keeps the block. -/
theorem ipcdMsgPush_eq (hvalid : msg.Valid) (hM : maxSize ≤ 2147483648)
    (hfit : 16 + (140 + msg.data.length) < maxSize) :
    ipcdMsgPush (recvfrom maxSize (encodeIpcPacket pid 14 (encodeIpcMsg msg))) =
      some (encodeIpcMsg msg) := by
  have hlen : (encodeIpcMsg msg).length = 140 + msg.data.length := length_build (layout_ipcMsg hvalid)
  rw [ipcdMsgPush, ipcMsgSize_eq hvalid hM hfit (pointsTo_data (by omega)),
    copy_recvfrom (by omega)]

/-- `ipcd_msg_pull` keeps the block. -/
theorem ipcdMsgPull_eq (hvalid : msg.Valid) (hM : maxSize ≤ 2147483648)
    (hfit : 16 + (140 + msg.data.length) < maxSize) :
    ipcdMsgPull (encodeIpcMsg msg) = some (encodeIpcMsg msg) := by
  rw [ipcdMsgPull, ipcMsgSize_eq hvalid hM hfit (pointsTo_self _), read?_eq_some (by omega),
    read_zero_length]

/-- `ipcd_relay_msg` wraps the block. -/
theorem ipcdRelayMsg_eq (hvalid : msg.Valid) (hM : maxSize ≤ 2147483648)
    (hfit : 16 + (140 + msg.data.length) < maxSize) (mlm : MlistMember) :
    ipcdRelayMsg mlm.pid (encodeIpcMsg msg) =
      some (encodeSend heap (EasyIpc.ipcdRelayMsg mlm msg)) := by
  rw [ipcdRelayMsg, ipcMsgSize_eq hvalid hM hfit (pointsTo_self _), read?_eq_some (by omega),
    read_zero_length]
  rfl

/-! ### Calls -/

variable {api : IpcApi}

theorem ipcApiSize_eq {p : List UInt8} (hvalid : api.Valid) (hheap : heap.length = 64)
    (hM : maxSize ≤ 2147483648) (hfit : 16 + (216 + api.data.length) < maxSize)
    (hp : PointsTo p (encodeIpcApi heap api)) :
    ipcApiSize p = (encodeIpcApi heap api).length := by
  rw [ipcApiSize, size_of_ipcApi hvalid hheap hp, encodeIpcApi,
    length_build (layout_ipcApi hvalid hheap), toInt_of_range]
  · omega
  · rw [intRange_four_iff]
    omega

/-- `ipcd_api_push` keeps the block but for the number the daemon writes into it. -/
theorem ipcdApiPush_eq (hvalid : api.Valid) (hheap : heap.length = 64) (hM : maxSize ≤ 2147483648)
    (hfit : 16 + (216 + api.data.length) < maxSize) (number : Magic) :
    ipcdApiPush number (recvfrom maxSize (encodeIpcPacket pid 10 (encodeIpcApi heap api))) =
      some (encodeIpcApi heap { api with daemonMagicNumber := number }) := by
  have hlen : (encodeIpcApi heap api).length = 216 + api.data.length :=
    length_build (layout_ipcApi hvalid hheap)
  have hvalid' : IpcApi.Valid { api with daemonMagicNumber := number } :=
    ⟨hvalid.pname, hvalid.apiName, hvalid.count, hvalid.pid, hvalid.size⟩
  have hlen' : (encodeIpcApi heap { api with daemonMagicNumber := number }).length =
      216 + api.data.length := length_build (layout_ipcApi hvalid' hheap)
  have hread : read 12 (216 + api.data.length)
      (recvfrom maxSize (encodeIpcPacket pid 10 (encodeIpcApi heap api))) =
      encodeIpcApi heap api := by
    have hdata := @pointsTo_data maxSize pid 10 (encodeIpcApi heap api) (by omega)
    rwa [PointsTo, read_drop, hlen] at hdata
  have hbuf := length_recvfrom maxSize (encodeIpcPacket pid 10 (encodeIpcApi heap api))
  simp only [ipcdApiPush]
  generalize recvfrom maxSize (encodeIpcPacket pid 10 (encodeIpcApi heap api)) = buf at hread hbuf
  have hblock : read 12 (216 + api.data.length) (write (12 + 192) (magicBytes number) buf) =
      encodeIpcApi heap { api with daemonMagicNumber := number } := by
    rw [read_write_inside (by rw [length_magicBytes]; omega) (by omega), hread,
      write_magic_encodeIpcApi hvalid hheap]
  have hpoints : PointsTo ((write (12 + 192) (magicBytes number) buf).drop 12)
      (encodeIpcApi heap { api with daemonMagicNumber := number }) := by
    rw [PointsTo, read_drop, hlen', hblock]
  have hbuf' : (write (12 + 192) (magicBytes number) buf).length = maxSize := by
    rw [length_write, hbuf]
  rw [ipcApiSize_eq hvalid' hheap hM hfit hpoints, read?_eq_some (by omega), hlen', hblock]

/-- `ipcd_api_pull` keeps the block. -/
theorem ipcdApiPull_eq (hvalid : api.Valid) (hheap : heap.length = 64) (hM : maxSize ≤ 2147483648)
    (hfit : 16 + (216 + api.data.length) < maxSize) :
    ipcdApiPull (encodeIpcApi heap api) = some (encodeIpcApi heap api) := by
  rw [ipcdApiPull, ipcApiSize_eq hvalid hheap hM hfit (pointsTo_self _), read?_eq_some (by omega),
    read_zero_length]

/-- `ipcd_relay_api` wraps the block. -/
theorem ipcdRelayApi_eq (hvalid : api.Valid) (hheap : heap.length = 64)
    (hM : maxSize ≤ 2147483648) (hfit : 16 + (216 + api.data.length) < maxSize)
    (mlm : MlistMember) :
    ipcdRelayApi mlm.pid (encodeIpcApi heap api) =
      some (encodeSend heap (EasyIpc.ipcdRelayApi mlm api)) := by
  rw [ipcdRelayApi, ipcApiSize_eq hvalid hheap hM hfit (pointsTo_self _),
    read?_eq_some (by omega), read_zero_length]
  rfl

/-! ### Acknowledgements -/

variable {rt : IpcRuntime}

/-- The data of a finish record are copied whole. -/
theorem ipcdRetData_eq (hvalid : rt.Valid) (hfit : 16 + (112 + rt.retData.length) ≤ maxSize) :
    ipcdRetData (recvfrom maxSize (encodeIpcPacket pid 16 (encodeIpcRuntime rt))) =
      some rt.retData := by
  have hlen : (encodeIpcRuntime rt).length = 112 + rt.retData.length :=
    length_build (layout_ipcRuntime hvalid)
  have hp := @pointsTo_data maxSize pid 16 (encodeIpcRuntime rt) (by omega)
  have hread : read 104 rt.retData.length ((recvfrom maxSize
      (encodeIpcPacket pid 16 (encodeIpcRuntime rt))).drop 12) = rt.retData :=
    hp.field (layout_ipcRuntime hvalid) (by simp [ipcRuntimeFields])
  rw [read_drop] at hread
  rw [ipcdRetData, size_of_ipcRuntime hvalid hp]
  split
  · rename_i hzero
    have hnil : rt.retData = [] := List.length_eq_zero_iff.1 (by omega)
    rw [hnil]
  · rw [read?_eq_some (by rw [length_recvfrom]; omega)]
    exact congrArg some hread

/-- The acknowledgement of a finish record. -/
theorem ipcdFinishAck_eq (hvalid : rt.Valid) (hfit : 16 + (112 + rt.retData.length) ≤ maxSize)
    (mlm : MlistMember) (call : Magic) :
    ipcdFinishAck mlm.pid (recvfrom maxSize (encodeIpcPacket pid 16 (encodeIpcRuntime rt))) =
      some (encodeSend heap (EasyIpc.ipcdApiAckRelay mlm
        ⟨rt.callerMagicNumber, rt.ret, rt.retData⟩ call)) := by
  have hlen : (encodeIpcRuntime rt).length = 112 + rt.retData.length :=
    length_build (layout_ipcRuntime hvalid)
  have hdec := decode_ipcRuntime hvalid
    (@pointsTo_data maxSize pid 16 (encodeIpcRuntime rt) (by omega))
  have hcaller := congrArg IpcRuntime.callerMagicNumber hdec
  have hret := congrArg IpcRuntime.ret hdec
  simp only [decodeIpcRuntime] at hcaller hret
  rw [ipcdFinishAck, ipcdRetData_eq hvalid hfit, hcaller, hret]
  rfl

/-! ### The receiving process -/

/-- The two copies of a received block keep it. -/
theorem ipcRecvProbe_ipcPush {iit : ℤ} (hfit : 16 + data.length ≤ maxSize) (hsize : DataSize data) :
    ((ipcPush (recvfrom maxSize (encodeIpcPacket pid iit data))).bind ipcRecvProbe) = some data := by
  have hl : Layout (data.length + 4) [(0, intBytes 4 (data.length : ℤ)), (4, data)] := by
    constructor
    · simp
      omega
    · simp
  have hp := pointsTo_self (build (data.length + 4) [(0, intBytes 4 (data.length : ℤ)), (4, data)])
  have hlen : intAt 4 0 (build (data.length + 4) [(0, intBytes 4 (data.length : ℤ)), (4, data)]) =
      data.length := hp.int hl hsize (by simp)
  have hread : read 4 data.length
      (build (data.length + 4) [(0, intBytes 4 (data.length : ℤ)), (4, data)]) = data :=
    hp.field hl (by simp)
  rw [ipcPush, size_recvfrom hfit hsize, copy_recvfrom hfit, Option.map_some, Option.bind_some,
    ipcRecvProbe, hlen, read?_eq_some (by rw [length_build hl]; omega), hread]

/-- What an acknowledgement stores in the entry that waits for it. -/
theorem ipcRecvAck_eq {ack : IpcApiAckList} {waitList : List Magic} (hvalid : ack.Valid)
    (hfit : 16 + (64 + ack.ackData.length) ≤ maxSize) (hwait : ack.ackId ∈ waitList) :
    ∃ e, ipcRecvAck waitList (recvfrom maxSize
        (encodeIpcPacket pid 13 (encodeIpcApiAckList ack))) = some (ack.ackId, e) ∧
      e.ackResult = ack.ackResult ∧ e.ackSize = ack.ackData.length ∧
      e.ackDataPoint.getD [] = ack.ackData := by
  have hl := layout_ipcApiAckList ack
  have hlen : (encodeIpcApiAckList ack).length = 64 + ack.ackData.length := length_build hl
  have hp := @pointsTo_data maxSize pid 13 (encodeIpcApiAckList ack) (by omega)
  have hid : magicAt 0 _ = ack.ackId := hp.magic hl (by simp [ipcApiAckListFields])
  have hret : intAt 4 44 _ = ack.ackResult.toInt :=
    hp.int hl hvalid.result.2 (by simp [ipcApiAckListFields])
  have hsize : intAt 4 40 _ = (ack.ackData.length : ℤ) :=
    hp.int hl hvalid.size (by simp [ipcApiAckListFields])
  have hread : read 56 ack.ackData.length _ = ack.ackData :=
    hp.field hl (by simp [ipcApiAckListFields])
  rw [read_drop] at hread
  simp only [ipcRecvAck, hid, hret, hsize, if_pos hwait, hvalid.result.1]
  split
  · rw [read?_eq_some (by rw [length_recvfrom]; omega)]
    exact ⟨_, rfl, rfl, rfl, hread⟩
  · rename_i hpos
    have hnil : ack.ackData = [] := List.length_eq_zero_iff.1 (by omega)
    exact ⟨_, rfl, rfl, rfl, hnil.symm⟩

end Hops

end EasyIpc.Bytes

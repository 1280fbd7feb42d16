import EasyIpc.Packet
import EasyIpc.Lib.Buffer

/-!
# Packets as bytes

The structures of `easyipc_daemon.h` and `easyipc_base.h` in memory, as a C compiler for 64-bit
Linux lays them out, and the packets made of them.

* `abi_layout` — the offsets and sizes that the definitions below use are the ones of that ABI.
* `encode..` — the structures as their senders fill them: a zeroed block, and the fields written
  one by one.  Fields that are left zero are written as zeroes.
* `decode..` — what a receiver reads through a pointer to such a structure, whatever stands there.
* `decodePacket_recvfrom` — a packet that fits the daemon's buffer is read as it was sent.

The last field of a structure with data, `char data`, stands in front of the structure's padding.
The data begin at the field, while the senders count them from the end of the structure; so a block
is some bytes longer than its data.
-/

namespace EasyIpc

open Buffer

/-! ## Types -/

def charT : CType := ⟨1, 1⟩
def intT : CType := ⟨4, 4⟩
def longT : CType := ⟨8, 8⟩
def pointerT : CType := ⟨8, 8⟩

/-- `sem_t`. -/
def semT : CType := ⟨32, 8⟩

/-- `_ipc_packet`. -/
def ipcPacketT : List CType := [intT, intT, intT, charT]

/-- `_register_info`. -/
def registerInfoT : List CType := [intT, .array ipcMsgMaxSize charT]

/-- `_join_exit_info`. -/
def joinExitInfoT : List CType := [intT, .array processNameMaxSize charT, intT, intT, intT]

/-- `_ipc_daemon_info`. -/
def ipcDaemonInfoT : List CType := [intT, .array ipcSyscmdSize charT]

/-- `_ipc_msg`. -/
def ipcMsgT : List CType :=
  [.array ipcMsgMaxSize charT, .array processNameMaxSize charT, intT, intT, charT]

/-- `_ipc_api_ack_list`. -/
def ipcApiAckListT : List CType := [intT, semT, intT, intT, pointerT, charT]

/-- `_ipc_api`. -/
def ipcApiT : List CType :=
  [.array processNameMaxSize charT, .array ipcMsgMaxSize charT, .struct ipcApiAckListT, intT, intT,
    intT, intT, intT, charT]

/-- `struct timespec`. -/
def timespecT : List CType := [longT, longT]

/-- `_ipc_runtime`. -/
def ipcRuntimeT : List CType :=
  [intT, .array ipcMsgMaxSize charT, intT, .struct timespecT, intT, intT, intT, intT, charT]

/-- `_ipc_log`. -/
def ipcLogT : List CType := [intT, intT, charT]

/-- `_msg_push_data`. -/
def msgPushDataT : List CType := [intT, charT]

/-- The offsets and sizes in this module, in the order of the fields in the source. -/
theorem abi_layout :
    (offsets ipcPacketT = [0, 4, 8, 12] ∧ (CType.struct ipcPacketT).size = 16) ∧
    (offsets registerInfoT = [0, 4] ∧ (CType.struct registerInfoT).size = 68) ∧
    (offsets joinExitInfoT = [0, 4, 68, 72, 76] ∧ (CType.struct joinExitInfoT).size = 80) ∧
    (offsets ipcDaemonInfoT = [0, 4] ∧ (CType.struct ipcDaemonInfoT).size = 260) ∧
    (offsets ipcMsgT = [0, 64, 128, 132, 136] ∧ (CType.struct ipcMsgT).size = 140) ∧
    (offsets ipcApiAckListT = [0, 8, 40, 44, 48, 56] ∧
      (CType.struct ipcApiAckListT).size = 64) ∧
    (offsets ipcApiT = [0, 64, 128, 192, 196, 200, 204, 208, 212] ∧
      (CType.struct ipcApiT).size = 216) ∧
    (offsets ipcRuntimeT = [0, 4, 68, 72, 88, 92, 96, 100, 104] ∧
      (CType.struct ipcRuntimeT).size = 112) ∧
    (offsets ipcLogT = [0, 4, 8] ∧ (CType.struct ipcLogT).size = 12) ∧
    offsets msgPushDataT = [0, 4] := by
  decide

/-! ## Numbers and names -/

/-- The bytes of a magic number. -/
def magicBytes (m : Magic) : List UInt8 := le 4 m.toNat

/-- The magic number at `off`. -/
def magicAt (off : ℕ) (p : List UInt8) : Magic := BitVec.ofNat 32 (ofLe (read off 4 p))

@[simp] theorem length_magicBytes (m : Magic) : (magicBytes m).length = 4 := length_le _ _

theorem magicAt_of_read {off : ℕ} {p : List UInt8} {m : Magic}
    (h : read off (magicBytes m).length p = magicBytes m) : magicAt off p = m := by
  rw [length_magicBytes] at h
  have hlt : m.toNat < 256 ^ 4 := m.isLt
  rw [magicAt, h, magicBytes, ofLe_le, Nat.mod_eq_of_lt hlt, BitVec.ofNat_toNat,
    BitVec.setWidth_eq]

/-- The value of an `IPC_API_RET`. -/
def IpcApiRet.toInt : IpcApiRet → ℤ
  | .ackOk => 0
  | .ackFail => 1
  | .inParamError => 2
  | .ackCantfindApi => 3
  | .ackCantfindProgram => 4
  | .ackTimeout => 5
  | .other code => code

/-- The `IPC_API_RET` of a value. -/
def IpcApiRet.ofInt : ℤ → IpcApiRet
  | 0 => .ackOk
  | 1 => .ackFail
  | 2 => .inParamError
  | 3 => .ackCantfindApi
  | 4 => .ackCantfindProgram
  | 5 => .ackTimeout
  | code => .other code

/-- The code is an `int`, and is named if it has a name. -/
def IpcApiRet.Valid (r : IpcApiRet) : Prop :=
  IpcApiRet.ofInt r.toInt = r ∧ IntRange 4 r.toInt

instance (r : IpcApiRet) : Decidable r.Valid := inferInstanceAs (Decidable (_ ∧ _))

/-- A name that fits a field of `n` bytes. -/
def FieldName (n : ℕ) (s : CStr) : Prop := s.length < n ∧ (0 : UInt8) ∉ s

instance (n : ℕ) (s : CStr) : Decidable (FieldName n s) := inferInstanceAs (Decidable (_ ∧ _))

theorem fieldName_snprintf {n : ℕ} (hn : 0 < n) {s : CStr} (hs : (0 : UInt8) ∉ s) :
    FieldName n (snprintf n s) :=
  ⟨length_snprintf_lt hn s, fun h => hs (List.mem_of_mem_take h)⟩

/-- The length of some data is an `int`. -/
def DataSize (data : List UInt8) : Prop := IntRange 4 data.length

instance (data : List UInt8) : Decidable (DataSize data) := inferInstanceAs (Decidable (IntRange _ _))

/-- A pointer `p` to a structure: what stands there begins with the block. -/
def PointsTo (p block : List UInt8) : Prop := read 0 block.length p = block

/-- A field of a structure that is pointed to. -/
theorem PointsTo.field {n off : ℕ} {src p : List UInt8} {fields : List (ℕ × List UInt8)}
    (hp : PointsTo p (build n fields)) (h : Layout n fields) (hmem : (off, src) ∈ fields) :
    read off src.length p = src := by
  have hfit := h.fits (off, src) hmem
  have hread := read_build h hmem
  unfold PointsTo at hp
  rw [length_build h] at hp
  rw [← hp, read_read (by simpa using hfit), Nat.zero_add] at hread
  exact hread

section Fields

variable {n off : ℕ} {p : List UInt8} {fields : List (ℕ × List UInt8)}

theorem PointsTo.int {k : ℕ} {v : ℤ} (hp : PointsTo p (build n fields)) (h : Layout n fields)
    (hv : IntRange k v) (hmem : (off, intBytes k v) ∈ fields) : intAt k off p = v :=
  intAt_of_read hv (hp.field h hmem)

theorem PointsTo.magic {m : Magic} (hp : PointsTo p (build n fields)) (h : Layout n fields)
    (hmem : (off, magicBytes m) ∈ fields) : magicAt off p = m :=
  magicAt_of_read (hp.field h hmem)

theorem PointsTo.name {size : ℕ} {s : CStr} (hp : PointsTo p (build n fields))
    (h : Layout n fields) (hs : FieldName size s) (hmem : (off, cstrBytes s) ∈ fields) :
    cstrAt off p = s :=
  cstrAt_of_read hs.2 (hp.field h hmem)

/-- Data whose length is read from another field. -/
theorem PointsTo.data {data : List UInt8} (hp : PointsTo p (build n fields))
    (h : Layout n fields) (hmem : (off, data) ∈ fields) :
    read off (data.length : ℤ).toNat p = data := by
  rw [Int.toNat_natCast]
  exact hp.field h hmem

end Fields

/-- A block at the head of what is pointed to. -/
theorem pointsTo_append (block rest : List UInt8) : PointsTo (block ++ rest) block := by
  rw [PointsTo, read_append_left _ (by omega), read_zero_length]

/-! ## Structures with a name -/

/-- `_register_info` as it is sent. -/
def registerInfoFields (info : RegisterInfo) : List (ℕ × List UInt8) :=
  [(0, intBytes 4 info.registerProcessPid), (4, cstrBytes info.registerMsgName)]

def encodeRegisterInfo (info : RegisterInfo) : List UInt8 := build 68 (registerInfoFields info)

/-- `_register_info` at a pointer. -/
def decodeRegisterInfo (p : List UInt8) : RegisterInfo := ⟨intAt 4 0 p, cstrAt 4 p⟩

/-- The pid is an `int` and the name fits. -/
structure RegisterInfo.Valid (info : RegisterInfo) : Prop where
  pid : IntRange 4 info.registerProcessPid
  name : FieldName ipcMsgMaxSize info.registerMsgName

theorem layout_registerInfo {info : RegisterInfo} (h : info.Valid) :
    Layout 68 (registerInfoFields info) := by
  have hname := h.name.1
  unfold ipcMsgMaxSize at hname
  constructor
  · simp only [registerInfoFields, List.forall_mem_cons, length_intBytes, length_cstrBytes]
    exact ⟨by omega, by omega, by simp⟩
  · simp [registerInfoFields]

theorem decode_registerInfo {info : RegisterInfo} {p : List UInt8} (h : info.Valid)
    (hp : PointsTo p (encodeRegisterInfo info)) : decodeRegisterInfo p = info := by
  have hl := layout_registerInfo h
  have hpid : intAt 4 0 p = info.registerProcessPid := hp.int hl h.pid (by simp [registerInfoFields])
  have hname : cstrAt 4 p = info.registerMsgName := hp.name hl h.name (by simp [registerInfoFields])
  rw [decodeRegisterInfo, hpid, hname]

/-- `_join_exit_info` as it is sent. -/
def joinExitInfoFields (info : JoinExitInfo) : List (ℕ × List UInt8) :=
  [(0, intBytes 4 info.joinExitProcessPid), (4, cstrBytes info.joinExitProcessName),
    (68, intBytes 4 info.apiPort), (72, intBytes 4 info.msgPort), (76, intBytes 4 info.signalNo)]

def encodeJoinExitInfo (info : JoinExitInfo) : List UInt8 := build 80 (joinExitInfoFields info)

/-- `_join_exit_info` at a pointer. -/
def decodeJoinExitInfo (p : List UInt8) : JoinExitInfo :=
  ⟨intAt 4 0 p, cstrAt 4 p, intAt 4 68 p, intAt 4 72 p, intAt 4 76 p⟩

/-- The numbers are `int`s and the name fits. -/
structure JoinExitInfo.Valid (info : JoinExitInfo) : Prop where
  pid : IntRange 4 info.joinExitProcessPid
  name : FieldName processNameMaxSize info.joinExitProcessName
  apiPort : IntRange 4 info.apiPort
  msgPort : IntRange 4 info.msgPort
  signalNo : IntRange 4 info.signalNo

theorem layout_joinExitInfo {info : JoinExitInfo} (h : info.Valid) :
    Layout 80 (joinExitInfoFields info) := by
  have hname := h.name.1
  unfold processNameMaxSize at hname
  constructor
  · simp [joinExitInfoFields]
    omega
  · simp [joinExitInfoFields]
    omega

theorem decode_joinExitInfo {info : JoinExitInfo} {p : List UInt8} (h : info.Valid)
    (hp : PointsTo p (encodeJoinExitInfo info)) : decodeJoinExitInfo p = info := by
  have hl := layout_joinExitInfo h
  have hpid : intAt 4 0 p = info.joinExitProcessPid := hp.int hl h.pid (by simp [joinExitInfoFields])
  have hname : cstrAt 4 p = info.joinExitProcessName :=
    hp.name hl h.name (by simp [joinExitInfoFields])
  have hapi : intAt 4 68 p = info.apiPort := hp.int hl h.apiPort (by simp [joinExitInfoFields])
  have hmsg : intAt 4 72 p = info.msgPort := hp.int hl h.msgPort (by simp [joinExitInfoFields])
  have hsig : intAt 4 76 p = info.signalNo := hp.int hl h.signalNo (by simp [joinExitInfoFields])
  rw [decodeJoinExitInfo, hpid, hname, hapi, hmsg, hsig]

/-- `_ipc_daemon_info` as it is sent. -/
def ipcDaemonInfoFields (info : IpcDaemonInfo) : List (ℕ × List UInt8) :=
  [(0, intBytes 4 info.pid), (4, cstrBytes info.daemonCmd)]

def encodeIpcDaemonInfo (info : IpcDaemonInfo) : List UInt8 := build 260 (ipcDaemonInfoFields info)

/-- `_ipc_daemon_info` at a pointer. -/
def decodeIpcDaemonInfo (p : List UInt8) : IpcDaemonInfo := ⟨intAt 4 0 p, cstrAt 4 p⟩

/-- The pid is an `int` and the command fits. -/
structure IpcDaemonInfo.Valid (info : IpcDaemonInfo) : Prop where
  pid : IntRange 4 info.pid
  cmd : FieldName ipcSyscmdSize info.daemonCmd

theorem layout_ipcDaemonInfo {info : IpcDaemonInfo} (h : info.Valid) :
    Layout 260 (ipcDaemonInfoFields info) := by
  have hcmd := h.cmd.1
  unfold ipcSyscmdSize at hcmd
  constructor
  · simp [ipcDaemonInfoFields]
    omega
  · simp [ipcDaemonInfoFields]

theorem decode_ipcDaemonInfo {info : IpcDaemonInfo} {p : List UInt8} (h : info.Valid)
    (hp : PointsTo p (encodeIpcDaemonInfo info)) : decodeIpcDaemonInfo p = info := by
  have hl := layout_ipcDaemonInfo h
  have hpid : intAt 4 0 p = info.pid := hp.int hl h.pid (by simp [ipcDaemonInfoFields])
  have hcmd : cstrAt 4 p = info.daemonCmd := hp.name hl h.cmd (by simp [ipcDaemonInfoFields])
  rw [decodeIpcDaemonInfo, hpid, hcmd]

/-! ## Structures with data -/

/-- `_ipc_msg` as `ipc_send_msg` fills it. -/
def ipcMsgFields (msg : IpcMsg) : List (ℕ × List UInt8) :=
  [(0, cstrBytes msg.msgName), (64, cstrBytes msg.ipcName), (132, intBytes 4 msg.data.length),
    (128, intBytes 4 msg.sendPid), (136, msg.data)]

def encodeIpcMsg (msg : IpcMsg) : List UInt8 := build (140 + msg.data.length) (ipcMsgFields msg)

/-- `_ipc_msg` at a pointer. -/
def decodeIpcMsg (p : List UInt8) : IpcMsg :=
  ⟨cstrAt 0 p, cstrAt 64 p, intAt 4 128 p, read 136 (intAt 4 132 p).toNat p⟩

/-- The names fit, and the pid and the length of the data are `int`s. -/
structure IpcMsg.Valid (msg : IpcMsg) : Prop where
  msgName : FieldName ipcMsgMaxSize msg.msgName
  ipcName : FieldName processNameMaxSize msg.ipcName
  pid : IntRange 4 msg.sendPid
  size : DataSize msg.data

theorem layout_ipcMsg {msg : IpcMsg} (h : msg.Valid) :
    Layout (140 + msg.data.length) (ipcMsgFields msg) := by
  have hmsg := h.msgName.1
  have hipc := h.ipcName.1
  unfold ipcMsgMaxSize at hmsg
  unfold processNameMaxSize at hipc
  constructor
  · simp [ipcMsgFields]
    omega
  · simp [ipcMsgFields]
    omega

theorem size_of_ipcMsg {msg : IpcMsg} {p : List UInt8} (h : msg.Valid)
    (hp : PointsTo p (encodeIpcMsg msg)) : intAt 4 132 p = msg.data.length :=
  hp.int (layout_ipcMsg h) h.size (by simp [ipcMsgFields])

theorem decode_ipcMsg {msg : IpcMsg} {p : List UInt8} (h : msg.Valid)
    (hp : PointsTo p (encodeIpcMsg msg)) : decodeIpcMsg p = msg := by
  have hl := layout_ipcMsg h
  have hmsg : cstrAt 0 p = msg.msgName := hp.name hl h.msgName (by simp [ipcMsgFields])
  have hipc : cstrAt 64 p = msg.ipcName := hp.name hl h.ipcName (by simp [ipcMsgFields])
  have hpid : intAt 4 128 p = msg.sendPid := hp.int hl h.pid (by simp [ipcMsgFields])
  have hdata : read 136 (msg.data.length : ℤ).toNat p = msg.data :=
    hp.data hl (by simp [ipcMsgFields])
  rw [decodeIpcMsg, hmsg, hipc, hpid, size_of_ipcMsg h hp, hdata]

/-- The `_ipc_api_ack_list` of a new call: `ack_id` is set in a block of which the rest is left as
`malloc` gave it. -/
def encodeAckId (heap : List UInt8) (ackId : Magic) : List UInt8 := write 0 (magicBytes ackId) heap

/-- `_ipc_api` as `ipc_call_api` fills it.  The daemon writes its number into the block it has
received. -/
def ipcApiFields (heap : List UInt8) (api : IpcApi) : List (ℕ × List UInt8) :=
  [(64, cstrBytes api.apiName), (0, cstrBytes api.pname), (208, intBytes 4 api.data.length),
    (204, intBytes 4 api.sendPid), (196, intBytes 4 api.daemonCountNumber), (212, api.data),
    (128, encodeAckId heap api.ackId)] ++ [(192, magicBytes api.daemonMagicNumber)]

def encodeIpcApi (heap : List UInt8) (api : IpcApi) : List UInt8 :=
  build (216 + api.data.length) (ipcApiFields heap api)

/-- `_ipc_api` at a pointer. -/
def decodeIpcApi (p : List UInt8) : IpcApi :=
  ⟨cstrAt 0 p, cstrAt 64 p, magicAt 128 p, magicAt 192 p, intAt 4 196 p, intAt 4 204 p,
    read 212 (intAt 4 208 p).toNat p⟩

/-- The names fit, and the numbers and the length of the data are `int`s. -/
structure IpcApi.Valid (api : IpcApi) : Prop where
  pname : FieldName processNameMaxSize api.pname
  apiName : FieldName ipcMsgMaxSize api.apiName
  count : IntRange 4 api.daemonCountNumber
  pid : IntRange 4 api.sendPid
  size : DataSize api.data

section Api

variable {heap : List UInt8} {api : IpcApi} {p : List UInt8}

theorem length_encodeAckId (hheap : heap.length = 64) (m : Magic) :
    (encodeAckId heap m).length = 64 := by
  rw [encodeAckId, length_write, hheap]

theorem layout_ipcApi (h : api.Valid) (hheap : heap.length = 64) :
    Layout (216 + api.data.length) (ipcApiFields heap api) := by
  have hpname := h.pname.1
  have hapi := h.apiName.1
  unfold processNameMaxSize at hpname
  unfold ipcMsgMaxSize at hapi
  constructor
  · simp [ipcApiFields, length_encodeAckId hheap]
    omega
  · simp [ipcApiFields, length_encodeAckId hheap]
    omega

theorem size_of_ipcApi (h : api.Valid) (hheap : heap.length = 64)
    (hp : PointsTo p (encodeIpcApi heap api)) : intAt 4 208 p = api.data.length :=
  hp.int (layout_ipcApi h hheap) h.size (by simp [ipcApiFields])

theorem decode_ipcApi (h : api.Valid) (hheap : heap.length = 64)
    (hp : PointsTo p (encodeIpcApi heap api)) : decodeIpcApi p = api := by
  have hl := layout_ipcApi h hheap
  have hpname : cstrAt 0 p = api.pname := hp.name hl h.pname (by simp [ipcApiFields])
  have hapi : cstrAt 64 p = api.apiName := hp.name hl h.apiName (by simp [ipcApiFields])
  have hack : magicAt 128 p = api.ackId := by
    have hblock : read 128 (encodeAckId heap api.ackId).length p = encodeAckId heap api.ackId :=
      hp.field hl (by simp [ipcApiFields])
    have hfield : read 0 (magicBytes api.ackId).length (encodeAckId heap api.ackId) =
        magicBytes api.ackId := read_write_same (by simp [hheap])
    rw [← hblock, read_read (by simp [length_encodeAckId hheap])] at hfield
    exact magicAt_of_read hfield
  have hmagic : magicAt 192 p = api.daemonMagicNumber := hp.magic hl (by simp [ipcApiFields])
  have hcount : intAt 4 196 p = api.daemonCountNumber := hp.int hl h.count (by simp [ipcApiFields])
  have hpid : intAt 4 204 p = api.sendPid := hp.int hl h.pid (by simp [ipcApiFields])
  have hdata : read 212 (api.data.length : ℤ).toNat p = api.data :=
    hp.data hl (by simp [ipcApiFields])
  rw [decodeIpcApi, hpname, hapi, hack, hmagic, hcount, hpid, size_of_ipcApi h hheap hp, hdata]

/-- What the daemon does to the block: it writes its number. -/
theorem write_magic_encodeIpcApi (h : api.Valid) (hheap : heap.length = 64) (m : Magic) :
    write 192 (magicBytes m) (encodeIpcApi heap api) =
      encodeIpcApi heap { api with daemonMagicNumber := m } :=
  write_build (layout_ipcApi h hheap) (by simp)

end Api

/-- The value of the `flag` of `_ipc_runtime`. -/
def flagInt (flag : Bool) : ℤ := if flag then 1 else 0

/-- `_ipc_runtime` as it is sent. -/
def ipcRuntimeFields (rt : IpcRuntime) : List (ℕ × List UInt8) :=
  [(96, intBytes 4 rt.ret.toInt), (100, intBytes 4 rt.retData.length), (104, rt.retData),
    (0, intBytes 4 rt.processPid), (68, intBytes 4 (flagInt rt.flag)),
    (88, magicBytes rt.callerMagicNumber), (92, magicBytes rt.daemonMagicNumber),
    (72, intBytes 8 rt.ptime.tvSec), (80, intBytes 8 rt.ptime.tvNsec), (4, cstrBytes rt.msgName)]

def encodeIpcRuntime (rt : IpcRuntime) : List UInt8 :=
  build (112 + rt.retData.length) (ipcRuntimeFields rt)

/-- `_ipc_runtime` at a pointer. -/
def decodeIpcRuntime (p : List UInt8) : IpcRuntime :=
  ⟨intAt 4 0 p, cstrAt 4 p, intAt 4 68 p != 0, ⟨intAt 8 72 p, intAt 8 80 p⟩, magicAt 88 p,
    magicAt 92 p, .ofInt (intAt 4 96 p), read 104 (intAt 4 100 p).toNat p⟩

/-- The name fits, the numbers and the length of the data are of their types, and the result is
one. -/
structure IpcRuntime.Valid (rt : IpcRuntime) : Prop where
  pid : IntRange 4 rt.processPid
  name : FieldName ipcMsgMaxSize rt.msgName
  sec : IntRange 8 rt.ptime.tvSec
  nsec : IntRange 8 rt.ptime.tvNsec
  ret : rt.ret.Valid
  size : DataSize rt.retData

theorem layout_ipcRuntime {rt : IpcRuntime} (h : rt.Valid) :
    Layout (112 + rt.retData.length) (ipcRuntimeFields rt) := by
  have hname := h.name.1
  unfold ipcMsgMaxSize at hname
  constructor
  · simp [ipcRuntimeFields]
    omega
  · simp [ipcRuntimeFields]
    omega

theorem size_of_ipcRuntime {rt : IpcRuntime} {p : List UInt8} (h : rt.Valid)
    (hp : PointsTo p (encodeIpcRuntime rt)) : intAt 4 100 p = rt.retData.length :=
  hp.int (layout_ipcRuntime h) h.size (by simp [ipcRuntimeFields])

theorem decode_ipcRuntime {rt : IpcRuntime} {p : List UInt8} (h : rt.Valid)
    (hp : PointsTo p (encodeIpcRuntime rt)) : decodeIpcRuntime p = rt := by
  have hl := layout_ipcRuntime h
  have hpid : intAt 4 0 p = rt.processPid := hp.int hl h.pid (by simp [ipcRuntimeFields])
  have hname : cstrAt 4 p = rt.msgName := hp.name hl h.name (by simp [ipcRuntimeFields])
  have hflag : intAt 4 68 p = flagInt rt.flag := by
    have hrange : IntRange 4 (flagInt rt.flag) := by cases rt.flag <;> decide
    exact hp.int hl hrange (by simp [ipcRuntimeFields])
  have hsec : intAt 8 72 p = rt.ptime.tvSec := hp.int hl h.sec (by simp [ipcRuntimeFields])
  have hnsec : intAt 8 80 p = rt.ptime.tvNsec := hp.int hl h.nsec (by simp [ipcRuntimeFields])
  have hcaller : magicAt 88 p = rt.callerMagicNumber := hp.magic hl (by simp [ipcRuntimeFields])
  have hdaemon : magicAt 92 p = rt.daemonMagicNumber := hp.magic hl (by simp [ipcRuntimeFields])
  have hret : intAt 4 96 p = rt.ret.toInt := hp.int hl h.ret.2 (by simp [ipcRuntimeFields])
  have hdata : read 104 (rt.retData.length : ℤ).toNat p = rt.retData :=
    hp.data hl (by simp [ipcRuntimeFields])
  have hbool : (flagInt rt.flag != 0) = rt.flag := by cases rt.flag <;> rfl
  rw [decodeIpcRuntime, hpid, hname, hflag, hsec, hnsec, hcaller, hdaemon, hret,
    size_of_ipcRuntime h hp, hdata, hbool, h.ret.1]

/-- `_ipc_log` as it is sent: the text with its terminator. -/
def ipcLogFields (info : IpcLog) : List (ℕ × List UInt8) :=
  [(8, cstrBytes info.data), (0, intBytes 4 info.level), (4, intBytes 4 (info.data.length + 1))]

def encodeIpcLog (info : IpcLog) : List UInt8 :=
  build (12 + (info.data.length + 1)) (ipcLogFields info)

/-- `_ipc_log` at a pointer: the daemon takes the data for a string. -/
def decodeIpcLog (p : List UInt8) : IpcLog := ⟨intAt 4 0 p, cstrAt 8 p⟩

/-- The level is an `int`, and the text has no terminator. -/
structure IpcLog.Valid (info : IpcLog) : Prop where
  level : IntRange 4 info.level
  text : (0 : UInt8) ∉ info.data

theorem layout_ipcLog (info : IpcLog) :
    Layout (12 + (info.data.length + 1)) (ipcLogFields info) := by
  constructor
  · simp [ipcLogFields]
    omega
  · simp [ipcLogFields]

theorem decode_ipcLog {info : IpcLog} {p : List UInt8} (h : info.Valid)
    (hp : PointsTo p (encodeIpcLog info)) : decodeIpcLog p = info := by
  have hl := layout_ipcLog info
  have hlevel : intAt 4 0 p = info.level := hp.int hl h.level (by simp [ipcLogFields])
  have htext : cstrAt 8 p = info.data :=
    cstrAt_of_read h.text (hp.field hl (by simp [ipcLogFields]))
  rw [decodeIpcLog, hlevel, htext]

/-- `_ipc_api_ack_list` as an acknowledgement. -/
def ipcApiAckListFields (ack : IpcApiAckList) : List (ℕ × List UInt8) :=
  [(44, intBytes 4 ack.ackResult.toInt), (40, intBytes 4 ack.ackData.length),
    (0, magicBytes ack.ackId), (56, ack.ackData)]

def encodeIpcApiAckList (ack : IpcApiAckList) : List UInt8 :=
  build (64 + ack.ackData.length) (ipcApiAckListFields ack)

/-- The result is one, and the length of the data is an `int`. -/
structure IpcApiAckList.Valid (ack : IpcApiAckList) : Prop where
  result : ack.ackResult.Valid
  size : DataSize ack.ackData

theorem layout_ipcApiAckList (ack : IpcApiAckList) :
    Layout (64 + ack.ackData.length) (ipcApiAckListFields ack) := by
  constructor
  · simp [ipcApiAckListFields]
    omega
  · simp [ipcApiAckListFields]

/-! ## Packets -/

/-- `_ipc_packet` with its data, as both sides send it. -/
def ipcPacketFields (pid iit : ℤ) (data : List UInt8) : List (ℕ × List UInt8) :=
  [(4, intBytes 4 pid), (0, intBytes 4 iit), (8, intBytes 4 data.length), (12, data)]

def encodeIpcPacket (pid iit : ℤ) (data : List UInt8) : List UInt8 :=
  build (16 + data.length) (ipcPacketFields pid iit data)

/-- The receiver's buffer after `recvfrom`: it is zeroed and takes at most its size. -/
def recvfrom (maxSize : ℕ) (datagram : List UInt8) : List UInt8 :=
  datagram.take maxSize ++ zeros (maxSize - datagram.length)

@[simp] theorem length_recvfrom (maxSize : ℕ) (datagram : List UInt8) :
    (recvfrom maxSize datagram).length = maxSize := by
  simp only [recvfrom, zeros, List.length_append, List.length_take, List.length_replicate]
  omega

theorem layout_ipcPacket (pid iit : ℤ) (data : List UInt8) :
    Layout (16 + data.length) (ipcPacketFields pid iit data) := by
  constructor
  · simp [ipcPacketFields]
    omega
  · simp [ipcPacketFields]

@[simp] theorem length_encodeIpcPacket (pid iit : ℤ) (data : List UInt8) :
    (encodeIpcPacket pid iit data).length = 16 + data.length :=
  length_build (layout_ipcPacket pid iit data)

section Packet

variable {maxSize : ℕ} {pid iit : ℤ} {data : List UInt8}

theorem pointsTo_recvfrom (h : 16 + data.length ≤ maxSize) :
    PointsTo (recvfrom maxSize (encodeIpcPacket pid iit data)) (encodeIpcPacket pid iit data) := by
  rw [recvfrom, List.take_of_length_le (by simpa using h)]
  exact pointsTo_append _ _

/-- The length of the data is read back. -/
theorem size_recvfrom (h : 16 + data.length ≤ maxSize) (hsize : DataSize data) :
    intAt 4 8 (recvfrom maxSize (encodeIpcPacket pid iit data)) = data.length :=
  (@pointsTo_recvfrom maxSize pid iit data h).int (layout_ipcPacket pid iit data) hsize
    (by simp [ipcPacketFields])

/-- The pointer to the data of the packet. -/
theorem pointsTo_data (h : 16 + data.length ≤ maxSize) :
    PointsTo ((recvfrom maxSize (encodeIpcPacket pid iit data)).drop 12) data := by
  have hread : read 12 data.length (recvfrom maxSize (encodeIpcPacket pid iit data)) = data :=
    (@pointsTo_recvfrom maxSize pid iit data h).field (layout_ipcPacket pid iit data)
      (by simp [ipcPacketFields])
  exact hread

/-- The data can be copied out by their length. -/
theorem copy_recvfrom (h : 16 + data.length ≤ maxSize) :
    read? 12 data.length (recvfrom maxSize (encodeIpcPacket pid iit data)) = some data := by
  have hread : read 12 data.length (recvfrom maxSize (encodeIpcPacket pid iit data)) = data :=
    (@pointsTo_recvfrom maxSize pid iit data h).field (layout_ipcPacket pid iit data)
      (by simp [ipcPacketFields])
  rw [read?_eq_some (by rw [length_recvfrom]; omega), hread]

end Packet

/-! ## Packets to the daemon -/

/-- The `IPC_INFO_TYPE` of a packet to the daemon; as one that the daemon ignores,
`ENUM_IPC_CLI_API_ACK`. -/
def PacketBody.iit : PacketBody → ℤ
  | .apiRegister _ => 0
  | .apiUnregister _ => 1
  | .msgRegister _ => 2
  | .msgUnregister _ => 3
  | .join _ => 4
  | .live _ => 7
  | .exit _ => 8
  | .hangup _ => 9
  | .apiCall _ => 10
  | .other => 12
  | .msgSend _ => 14
  | .apiRuntime _ => 16
  | .msgRuntime _ => 17
  | .log _ => 18
  | .daemonCmd _ => 21

/-- The data of a packet to the daemon. -/
def encodeBody (heap : List UInt8) : PacketBody → List UInt8
  | .apiRegister info => encodeRegisterInfo info
  | .apiUnregister info => encodeRegisterInfo info
  | .msgRegister info => encodeRegisterInfo info
  | .msgUnregister info => encodeRegisterInfo info
  | .join info => encodeJoinExitInfo info
  | .live info => encodeJoinExitInfo info
  | .exit info => encodeJoinExitInfo info
  | .hangup info => encodeJoinExitInfo info
  | .daemonCmd info => encodeIpcDaemonInfo info
  | .apiCall api => encodeIpcApi heap api
  | .msgSend msg => encodeIpcMsg msg
  | .apiRuntime rt => encodeIpcRuntime rt
  | .msgRuntime rt => encodeIpcRuntime rt
  | .log info => encodeIpcLog info
  | .other => []

/-- A packet to the daemon. -/
def encodePacket (heap : List UInt8) (pkt : IpcPacket) : List UInt8 :=
  encodeIpcPacket pkt.sendPid pkt.body.iit (encodeBody heap pkt.body)

/-- What `ipcd_analysis_core` reads at the data of a packet of the kind. -/
def decodeBody (iit : ℤ) (p : List UInt8) : PacketBody :=
  match iit with
  | 0 => .apiRegister (decodeRegisterInfo p)
  | 1 => .apiUnregister (decodeRegisterInfo p)
  | 2 => .msgRegister (decodeRegisterInfo p)
  | 3 => .msgUnregister (decodeRegisterInfo p)
  | 4 => .join (decodeJoinExitInfo p)
  | 7 => .live (decodeJoinExitInfo p)
  | 8 => .exit (decodeJoinExitInfo p)
  | 9 => .hangup (decodeJoinExitInfo p)
  | 10 => .apiCall (decodeIpcApi p)
  | 14 => .msgSend (decodeIpcMsg p)
  | 16 => .apiRuntime (decodeIpcRuntime p)
  | 17 => .msgRuntime (decodeIpcRuntime p)
  | 18 => .log (decodeIpcLog p)
  | 21 => .daemonCmd (decodeIpcDaemonInfo p)
  | _ => .other

/-- What it reads of a receive buffer. -/
def decodePacket (buf : List UInt8) : IpcPacket :=
  ⟨intAt 4 4 buf, decodeBody (intAt 4 0 buf) (buf.drop 12)⟩

/-- The payload can be sent. -/
def PacketBody.Valid : PacketBody → Prop
  | .apiRegister info => info.Valid
  | .apiUnregister info => info.Valid
  | .msgRegister info => info.Valid
  | .msgUnregister info => info.Valid
  | .join info => info.Valid
  | .live info => info.Valid
  | .exit info => info.Valid
  | .hangup info => info.Valid
  | .daemonCmd info => info.Valid
  | .apiCall api => api.Valid
  | .msgSend msg => msg.Valid
  | .apiRuntime rt => rt.Valid
  | .msgRuntime rt => rt.Valid
  | .log info => info.Valid
  | .other => True

/-- The packet can be sent. -/
structure IpcPacket.Valid (pkt : IpcPacket) : Prop where
  pid : IntRange 4 pkt.sendPid
  body : pkt.body.Valid

theorem length_encodeBody {heap : List UInt8} (hheap : heap.length = 64) {body : PacketBody}
    (h : body.Valid) : (encodeBody heap body).length = body.size := by
  cases body with
  | apiRegister info => exact length_build (layout_registerInfo h)
  | apiUnregister info => exact length_build (layout_registerInfo h)
  | msgRegister info => exact length_build (layout_registerInfo h)
  | msgUnregister info => exact length_build (layout_registerInfo h)
  | join info => exact length_build (layout_joinExitInfo h)
  | live info => exact length_build (layout_joinExitInfo h)
  | exit info => exact length_build (layout_joinExitInfo h)
  | hangup info => exact length_build (layout_joinExitInfo h)
  | daemonCmd info => exact length_build (layout_ipcDaemonInfo h)
  | apiCall api => exact length_build (layout_ipcApi h hheap)
  | msgSend msg => exact length_build (layout_ipcMsg h)
  | apiRuntime rt => exact length_build (layout_ipcRuntime h)
  | msgRuntime rt => exact length_build (layout_ipcRuntime h)
  | log info => exact length_build (layout_ipcLog info)
  | other => rfl

/-- The payload is read as it was sent. -/
theorem decodeBody_encodeBody {heap p : List UInt8} (hheap : heap.length = 64)
    {body : PacketBody} (h : body.Valid) (hp : PointsTo p (encodeBody heap body)) :
    decodeBody body.iit p = body := by
  cases body with
  | apiRegister info => exact congrArg PacketBody.apiRegister (decode_registerInfo h hp)
  | apiUnregister info => exact congrArg PacketBody.apiUnregister (decode_registerInfo h hp)
  | msgRegister info => exact congrArg PacketBody.msgRegister (decode_registerInfo h hp)
  | msgUnregister info => exact congrArg PacketBody.msgUnregister (decode_registerInfo h hp)
  | join info => exact congrArg PacketBody.join (decode_joinExitInfo h hp)
  | live info => exact congrArg PacketBody.live (decode_joinExitInfo h hp)
  | exit info => exact congrArg PacketBody.exit (decode_joinExitInfo h hp)
  | hangup info => exact congrArg PacketBody.hangup (decode_joinExitInfo h hp)
  | daemonCmd info => exact congrArg PacketBody.daemonCmd (decode_ipcDaemonInfo h hp)
  | apiCall api => exact congrArg PacketBody.apiCall (decode_ipcApi h hheap hp)
  | msgSend msg => exact congrArg PacketBody.msgSend (decode_ipcMsg h hp)
  | apiRuntime rt => exact congrArg PacketBody.apiRuntime (decode_ipcRuntime h hp)
  | msgRuntime rt => exact congrArg PacketBody.msgRuntime (decode_ipcRuntime h hp)
  | log info => exact congrArg PacketBody.log (decode_ipcLog h hp)
  | other => rfl

/-- **A packet that fits the daemon's buffer is read as it was sent.** -/
theorem decodePacket_recvfrom {heap : List UInt8} (hheap : heap.length = 64) {pkt : IpcPacket}
    {maxSize : ℕ} (h : pkt.Valid) (hfit : 16 + pkt.body.size ≤ maxSize) :
    decodePacket (recvfrom maxSize (encodePacket heap pkt)) = pkt := by
  rw [← length_encodeBody hheap h.body] at hfit
  have hl := layout_ipcPacket pkt.sendPid pkt.body.iit (encodeBody heap pkt.body)
  have hp := @pointsTo_recvfrom maxSize pkt.sendPid pkt.body.iit (encodeBody heap pkt.body) hfit
  have hpid : intAt 4 4 (recvfrom maxSize (encodePacket heap pkt)) = pkt.sendPid :=
    hp.int hl h.pid (by simp [ipcPacketFields])
  have hiit : intAt 4 0 (recvfrom maxSize (encodePacket heap pkt)) = pkt.body.iit := by
    have hrange : IntRange 4 pkt.body.iit := by cases pkt.body <;> rfl
    exact hp.int hl hrange (by simp [ipcPacketFields])
  have hbody := decodeBody_encodeBody hheap h.body
    (@pointsTo_data maxSize pkt.sendPid pkt.body.iit (encodeBody heap pkt.body) hfit)
  rw [decodePacket, hpid, hiit]
  exact congrArg (IpcPacket.mk pkt.sendPid) hbody

/-! ## Packets of the daemon -/

/-- A packet of the daemon. -/
def encodeSend (heap : List UInt8) (s : Send) : List UInt8 :=
  match s.payload with
  | .joinAck => encodeIpcPacket s.sendPid 5 []
  | .joinAckFail => encodeIpcPacket s.sendPid 6 []
  | .apiRelay api => encodeIpcPacket s.sendPid 11 (encodeIpcApi heap api)
  | .apiAckRelay ack _ => encodeIpcPacket s.sendPid 13 (encodeIpcApiAckList ack)
  | .msgRelay msg => encodeIpcPacket s.sendPid 15 (encodeIpcMsg msg)

end EasyIpc

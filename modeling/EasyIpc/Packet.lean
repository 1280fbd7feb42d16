import EasyIpc.Base

/-!
# Packets

The contents of the datagrams between the processes and the daemon, as the receiver reads them:
`IpcPacket` for what a process sends to the daemon (`_ipc_packet` with one of the payload
structures of `easyipc_daemon.h`), `Send` for what the daemon sends.  A payload field and its
`size` are one list of bytes.
-/

namespace EasyIpc

/-- `_register_info`. -/
structure RegisterInfo where
  registerProcessPid : ℤ
  registerMsgName : CStr
  deriving DecidableEq, Repr

/-- `_join_exit_info`. -/
structure JoinExitInfo where
  joinExitProcessPid : ℤ
  joinExitProcessName : CStr
  apiPort : ℤ
  msgPort : ℤ
  signalNo : ℤ
  deriving DecidableEq, Repr

/-- `_ipc_daemon_info`. -/
structure IpcDaemonInfo where
  pid : ℤ
  daemonCmd : CStr
  deriving DecidableEq, Repr

/-- `_ipc_msg`. -/
structure IpcMsg where
  msgName : CStr
  ipcName : CStr
  sendPid : ℤ
  data : List UInt8
  deriving DecidableEq, Repr

/-- `_ipc_api`.  Of the embedded `_ipc_api_ack_list` only `ack_id` is ever read. -/
structure IpcApi where
  pname : CStr
  apiName : CStr
  ackId : Magic
  daemonMagicNumber : Magic
  daemonCountNumber : ℤ
  sendPid : ℤ
  data : List UInt8
  deriving DecidableEq, Repr

/-- `_ipc_runtime`. -/
structure IpcRuntime where
  processPid : ℤ
  msgName : CStr
  /-- `false` at the start of a function, `true` at its end. -/
  flag : Bool
  ptime : Timespec
  callerMagicNumber : Magic
  daemonMagicNumber : Magic
  ret : IpcApiRet
  retData : List UInt8
  deriving DecidableEq, Repr

/-- `_ipc_api_ack_list` as an acknowledgement. -/
structure IpcApiAckList where
  ackId : Magic
  ackResult : IpcApiRet
  ackData : List UInt8
  deriving DecidableEq, Repr

/-- `_ipc_log`.  The level is the raw `int`. -/
structure IpcLog where
  level : ℤ
  data : CStr
  deriving DecidableEq, Repr

/-- The kinds of packet the daemon accepts (`IPC_INFO_TYPE`), each with its payload. -/
inductive PacketBody where
  | apiRegister (info : RegisterInfo)
  | apiUnregister (info : RegisterInfo)
  | msgRegister (info : RegisterInfo)
  | msgUnregister (info : RegisterInfo)
  | join (info : JoinExitInfo)
  | live (info : JoinExitInfo)
  | exit (info : JoinExitInfo)
  | hangup (info : JoinExitInfo)
  | daemonCmd (info : IpcDaemonInfo)
  | apiCall (api : IpcApi)
  | msgSend (msg : IpcMsg)
  | apiRuntime (rt : IpcRuntime)
  | msgRuntime (rt : IpcRuntime)
  | log (log : IpcLog)
  /-- Any other `iit`: the daemon ignores it. -/
  | other
  deriving DecidableEq, Repr

/-- The number of bytes of a payload: its structure and, after it, its data.  The data of the last
field begin inside the structure, in its padding, but the senders count them from its end. -/
def PacketBody.size : PacketBody → ℕ
  | .apiRegister _ => 68
  | .apiUnregister _ => 68
  | .msgRegister _ => 68
  | .msgUnregister _ => 68
  | .join _ => 80
  | .live _ => 80
  | .exit _ => 80
  | .hangup _ => 80
  | .daemonCmd _ => 260
  | .apiCall api => 216 + api.data.length
  | .msgSend msg => 140 + msg.data.length
  | .apiRuntime rt => 112 + rt.retData.length
  | .msgRuntime rt => 112 + rt.retData.length
  | .log info => 12 + (info.data.length + 1)
  | .other => 0

/-- `_ipc_packet` on the way to the daemon. -/
structure IpcPacket where
  sendPid : ℤ
  body : PacketBody
  deriving DecidableEq, Repr

/-- The kinds of packet the daemon sends. -/
inductive Payload where
  | joinAck
  | joinAckFail
  | msgRelay (msg : IpcMsg)
  | apiRelay (api : IpcApi)
  /-- `call` is not on the wire: it is the daemon's number of the call that the
  acknowledgement is built for. -/
  | apiAckRelay (ack : IpcApiAckList) (call : Magic)
  deriving DecidableEq, Repr

/-- A datagram the daemon sends: where to, for which process, and what. -/
structure Send where
  dst : Endpoint
  sendPid : ℤ
  payload : Payload
  deriving DecidableEq, Repr

end EasyIpc

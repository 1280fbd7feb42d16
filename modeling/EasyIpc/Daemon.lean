import EasyIpc.Registry
import EasyIpc.Lib.SemQueue
import EasyIpc.Lib.Transition

/-!
# The daemon

The state of `easyipc_daemon.c` and one step of each of its threads:

* the receive thread (`ipcd_msg_recv`), which runs `ipcd_analysis_core` under the table's mutex
  and posts a queue's semaphore after it has attached to the queue;
* the distribution threads `_ipcd_msg_probe` and `_ipcd_api_probe`, which wait, pull, and
  distribute under the table's mutex;
* `ipc_live_thread` and `ipc_api_timeout_check_thread`.

Everything between the lock and the unlock of the table's mutex is one step; the queues' own
critical sections and semaphore operations are steps of their own.  `RpcEffect` lists what a step
can do to the calls in the daemon's hands.
-/

namespace EasyIpc

open FirstMatch Concurrent Transition

/-- The state of the daemon. -/
structure Daemon where
  mlist : List MlistMember := []
  recvMlist : SemQueue IpcMsg := {}
  recvAlist : SemQueue IpcApi := {}
  recvAcklist : List IpcApi := []
  apiPublicMagicNumber : Magic := 0
  deriving DecidableEq, Repr

/-! ## Sending -/

/-- `ipcd_relay_msg`. -/
def ipcdRelayMsg (mlm : MlistMember) (msg : IpcMsg) : Send :=
  ⟨mlm.ident.msgEndpoint, mlm.pid, .msgRelay msg⟩

/-- `ipcd_relay_api`. -/
def ipcdRelayApi (mlm : MlistMember) (api : IpcApi) : Send :=
  ⟨mlm.ident.apiEndpoint, mlm.pid, .apiRelay api⟩

/-- `ipcd_join_ack`. -/
def ipcdJoinAck (mlm : MlistMember) : Send := ⟨mlm.ident.msgEndpoint, mlm.pid, .joinAck⟩

/-- `ipcd_join_ack_fail`. -/
def ipcdJoinAckFail (pid port : ℤ) (addr : ℕ) : Send := ⟨⟨addr, htons port⟩, pid, .joinAckFail⟩

/-- `ipcd_api_ack_relay`; `call` is the daemon's number of the call that is answered. -/
def ipcdApiAckRelay (mlm : MlistMember) (ack : IpcApiAckList) (call : Magic) : Send :=
  ⟨mlm.ident.apiEndpoint, mlm.pid, .apiAckRelay ack call⟩

/-- The way every acknowledgement goes out: to the member with the process id, if there is
one. -/
def ackTo (mlist : List MlistMember) (pid : ℤ) (ack : IpcApiAckList) (call : Magic) : List Send :=
  match ipcdGetMlistViaPid mlist pid with
  | none => []
  | some relayMlm => [ipcdApiAckRelay relayMlm ack call]

theorem mem_ackTo {mlist : List MlistMember} {pid : ℤ} {ack : IpcApiAckList} {call : Magic}
    {s : Send} (h : s ∈ ackTo mlist pid ack call) :
    ∃ m ∈ mlist, m.pid = pid ∧ s = ipcdApiAckRelay m ack call := by
  unfold ackTo at h
  split at h
  · simp at h
  · rename_i m hm
    obtain ⟨hmem, hpid⟩ := ipcdGetMlistViaPid_eq_some hm
    exact ⟨m, hmem, hpid, by simpa using h⟩

/-! ## The receive thread -/

/-- The sender of an API finish record is registered and lists the API. -/
def senderLists (mlist : List MlistMember) (sendPid : ℤ) (rt : IpcRuntime) : Bool :=
  (ipcdGetMlistViaPid mlist sendPid).any fun m => listsName rt.msgName m.apiList

/-- The branch of `ipcd_analysis_core` for the end of an API function.  Where the sender does not
list the API any more, the acknowledgement goes to the sender of the record. -/
def ipcdApiFinish (sendPid : ℤ) (rt : IpcRuntime) (d : Daemon) : Daemon × List Send :=
  let mlist := recordApi sendPid rt d.mlist
  let iaal : IpcApiAckList := ⟨rt.callerMagicNumber, rt.ret, rt.retData⟩
  if senderLists d.mlist sendPid rt then
    match d.recvAcklist.find? fun a => a.daemonMagicNumber == rt.daemonMagicNumber with
    | some ipcApi =>
        ({ d with
            mlist
            recvAcklist := d.recvAcklist.eraseP fun a => a.daemonMagicNumber == rt.daemonMagicNumber },
          ackTo mlist ipcApi.sendPid iaal rt.daemonMagicNumber)
    | none => ({ d with mlist }, [])
  else ({ d with mlist }, ackTo mlist sendPid iaal rt.daemonMagicNumber)

/-- The branch for a call: a registered sender's call gets the next number and is queued. -/
def ipcdApiCall (sendPid : ℤ) (api : IpcApi) (d : Daemon) : Daemon :=
  match ipcdGetMlistViaPid d.mlist sendPid with
  | none => d
  | some _ =>
      { d with
        mlist := markSender sendPid d.mlist
        recvAlist := d.recvAlist.attach { api with daemonMagicNumber := d.apiPublicMagicNumber }
        apiPublicMagicNumber := d.apiPublicMagicNumber + 1 }

/-- The branch for a message: a registered sender's message is queued. -/
def ipcdMsgSend (sendPid : ℤ) (msg : IpcMsg) (d : Daemon) : Daemon :=
  match ipcdGetMlistViaPid d.mlist sendPid with
  | none => d
  | some _ =>
      { d with mlist := markSender sendPid d.mlist, recvMlist := d.recvMlist.attach msg }

/-- `ipcd_analysis_core`: `addr` is the address the packet came from. -/
def ipcdAnalysisCore (stale : MlistMember → MlistMember) (addr : ℕ) (pkt : IpcPacket)
    (d : Daemon) : Daemon × List Send :=
  match pkt.body with
  | .apiRegister info => ({ d with mlist := ipcdRegisterApi info d.mlist }, [])
  | .msgRegister info => ({ d with mlist := ipcdRegisterMsg info d.mlist }, [])
  | .apiUnregister info => ({ d with mlist := ipcdUnregisterApi info d.mlist }, [])
  | .msgUnregister info => ({ d with mlist := ipcdUnregisterMsg info d.mlist }, [])
  | .join info =>
      match ipcdJoin stale info addr d.mlist with
      | (some mlm, mlist) => ({ d with mlist }, [ipcdJoinAck mlm])
      | (none, mlist) =>
          ({ d with mlist }, [ipcdJoinAckFail info.joinExitProcessPid info.msgPort addr])
  | .daemonCmd info => ({ d with mlist := setDaemonCmd info d.mlist }, [])
  | .exit info => ({ d with mlist := ipcdExit info d.mlist }, [])
  | .live info => ({ d with mlist := markLive info.joinExitProcessPid d.mlist }, [])
  | .hangup info => ({ d with mlist := ipcdExit info d.mlist }, [])
  | .apiCall api => (ipcdApiCall pkt.sendPid api d, [])
  | .msgSend msg => (ipcdMsgSend pkt.sendPid msg d, [])
  | .apiRuntime rt => if rt.flag then ipcdApiFinish pkt.sendPid rt d else (d, [])
  | .msgRuntime rt =>
      (if rt.flag then { d with mlist := recordMsg pkt.sendPid rt d.mlist } else d, [])
  | .log _ => (d, [])
  | .other => (d, [])

/-! ## The distribution threads -/

/-- The loop of `_ipcd_api_probe` over the members: whether one of them has the name and is not
suspended, and the members the call is relayed to.  A suspended member of the name makes the loop
step over the member after it. -/
def apiProbeScan (p : IpcApi) : List MlistMember → Bool × List MlistMember
  | [] => (false, [])
  | tmlm :: rest =>
      if tmlm.pname ≠ p.pname then apiProbeScan p rest
      else if tmlm.suspend then
        match rest with
        | [] => (false, [])
        | _ :: rest' => apiProbeScan p rest'
      else
        (true, if listsName p.apiName tmlm.apiList then tmlm :: (apiProbeScan p rest).2
          else (apiProbeScan p rest).2)

/-- The body of `_ipcd_api_probe` for the call `p` it has pulled. -/
def ipcdApiProbe (p : IpcApi) (d : Daemon) : Daemon × List Send :=
  let (relayPrgFlag, providers) := apiProbeScan p d.mlist
  if !relayPrgFlag then
    (d, ackTo d.mlist p.sendPid ⟨p.ackId, .ackCantfindProgram, []⟩ p.daemonMagicNumber)
  else if providers.isEmpty then
    (d, ackTo d.mlist p.sendPid ⟨p.ackId, .ackCantfindApi, []⟩ p.daemonMagicNumber)
  else
    ({ d with recvAcklist := d.recvAcklist ++ providers.map fun _ => p },
      providers.map fun tmlm => ipcdRelayApi tmlm p)

/-- The member is to get a message of the name. -/
def wantsMsg (name : CStr) (m : MlistMember) : Bool :=
  !m.suspend && m.pmsgList.any fun a => a.msgName == name || a.msgName == anyName

/-- The body of `_ipcd_msg_probe` for the message `p` it has pulled. -/
def ipcdMsgProbe (p : IpcMsg) (d : Daemon) : List Send :=
  (d.mlist.filter (wantsMsg p.msgName)).map fun tmlm => ipcdRelayMsg tmlm p

/-! ## The timeout thread -/

/-- The count of a pending call after one round. -/
def countDown (a : IpcApi) : ℤ :=
  if a.daemonCountNumber ≠ apiTimeoutMax then a.daemonCountNumber - 100 else a.daemonCountNumber

/-- The loop of `ipc_api_timeout_check_thread` over the pending calls. -/
def timeoutLoop (mlist : List MlistMember) : List IpcApi → List IpcApi × List Send
  | [] => ([], [])
  | a :: rest =>
      let (kept, out) := timeoutLoop mlist rest
      if countDown a ≤ 0 then
        (kept, ackTo mlist a.sendPid ⟨a.ackId, .ackTimeout, []⟩ a.daemonMagicNumber ++ out)
      else ({ a with daemonCountNumber := countDown a } :: kept, out)

/-- One round of `ipc_api_timeout_check_thread`. -/
def ipcApiTimeoutCheck (d : Daemon) : Daemon × List Send :=
  let (kept, out) := timeoutLoop d.mlist d.recvAcklist
  ({ d with recvAcklist := kept }, out)

/-! ## Steps -/

/-- The steps of the daemon's threads. -/
inductive DaemonAct where
  /-- The receive thread handles a packet; `stale` is what reads of freed members give. -/
  | recv (stale : MlistMember → MlistMember) (addr : ℕ) (pkt : IpcPacket)
  | msgPost
  | msgWait
  | msgPull
  | msgProbe
  | apiPost
  | apiWait
  | apiPull
  | apiProbe
  | liveSweep
  | timeoutSweep

/-- A queue step of the daemon, which sends nothing. -/
def onMsgQueue (d : Daemon) (q : Option (SemQueue IpcMsg)) : Option (Daemon × List Send) :=
  q.map fun q => ({ d with recvMlist := q }, [])

/-- A queue step of the daemon, which sends nothing. -/
def onApiQueue (d : Daemon) (q : Option (SemQueue IpcApi)) : Option (Daemon × List Send) :=
  q.map fun q => ({ d with recvAlist := q }, [])

/-- One step of the daemon, with what it sends. -/
def Daemon.step (d : Daemon) : DaemonAct → Option (Daemon × List Send)
  | .recv stale addr pkt => some (ipcdAnalysisCore stale addr pkt d)
  | .msgPost => onMsgQueue d d.recvMlist.post
  | .msgWait => onMsgQueue d d.recvMlist.wait
  | .msgPull => onMsgQueue d d.recvMlist.pull
  | .msgProbe =>
      match d.recvMlist.consumer with
      | .holding p => some ({ d with recvMlist := d.recvMlist.release }, ipcdMsgProbe p d)
      | _ => none
  | .apiPost => onApiQueue d d.recvAlist.post
  | .apiWait => onApiQueue d d.recvAlist.wait
  | .apiPull => onApiQueue d d.recvAlist.pull
  | .apiProbe =>
      match d.recvAlist.consumer with
      | .holding p => some (ipcdApiProbe p { d with recvAlist := d.recvAlist.release })
      | _ => none
  | .liveSweep => some ({ d with mlist := ipcLiveThread d.mlist }, [])
  | .timeoutSweep => some (ipcApiTimeoutCheck d)

/-- A packet of the process `sendPid` on the host of the daemon; freed members read as they were. -/
def packetFrom (sendPid : ℤ) (body : PacketBody) : DaemonAct := .recv id 1 ⟨sendPid, body⟩

/-- A process joins as `name` and takes the ports above `10 * pid`. -/
def joinAs (pid : ℤ) (name : CStr) : DaemonAct :=
  packetFrom pid (.join ⟨pid, name, 10 * pid, 10 * pid + 1, 0⟩)

/-- The daemon on its own: any packets may arrive, in any order. -/
def daemonLts : Lts Daemon DaemonAct where
  init := {}
  step d act := (d.step act).map Prod.fst

end EasyIpc

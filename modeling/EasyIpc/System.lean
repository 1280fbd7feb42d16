import EasyIpc.Client
import EasyIpc.Calls
import Mathlib.Logic.Function.Basic

/-!
# The processes, the daemon and the network

The system of `easyipc_support.c` and `easyipc_daemon.c` as one transition system: any number of
processes, the daemon, and the datagrams between them, which arrive in any order and are not lost.

* `Net` — the processes with their names and addresses, and which of them has bound which port.
* `Proc.step` — one step of a process: a call of the library, or a step of one of its threads.
* `System.step` — a step of a process, the arrival of a datagram, or a step of one of the
  daemon's threads.
* `Proc.step_rpc` — what a step of a process can do to calls: the inversion of `Proc.step`.

`History` records what a run has done; no step reads it.
-/

namespace EasyIpc

open Concurrent Transition

/-! ## Processes -/

/-- A process: its handle, the calls in `api_recv_list`, the calls its threads were created for,
and the calls whose function runs, each with the entry of `api_list` it was found under. -/
structure Proc where
  ipc : IpcHandle
  apiRecvList : List IpcApi := []
  threads : List IpcApi := []
  running : List (IpcApi × IpcApiMapMember) := []
  deriving DecidableEq, Repr

/-- The run of a function for a call, by a provider: what it returned. -/
structure Execution where
  provider : ℤ
  call : IpcApi
  imm : IpcApiMapMember
  ret : IpcApiRet
  retData : List UInt8
  deriving DecidableEq, Repr

/-- `ipc_api_push`. -/
def ipcApiPush (p : Proc) (api : IpcApi) : Proc := { p with apiRecvList := p.apiRecvList ++ [api] }

/-- One round of `ipc_api_recv_probe`: it takes the head and creates a thread for it. -/
def ipcApiRecvProbe (p : Proc) : Option Proc :=
  match p.apiRecvList with
  | [] => none
  | ia :: rest => some { p with apiRecvList := rest, threads := p.threads ++ [ia] }

/-- The handle and the acknowledgement taken, after `ipc_recv_analysis`. -/
def ipcRecvAnalysis (p : Proc) : Payload → Proc × List IpcApiAckList
  | .apiRelay api => (ipcApiPush p api, [])
  | .apiAckRelay ack _ =>
      match ipcRecvAck p.ipc ack with
      | none => (p, [])
      | some ipc => ({ p with ipc }, [ack])
  | _ => (p, [])

/-- The packets of a process that are not about its APIs: each names the process itself. -/
def isNotice (ipc : IpcHandle) : PacketBody → Bool
  | .msgRegister info => info.registerProcessPid == ipc.pid
  | .msgUnregister info => info.registerProcessPid == ipc.pid
  | .join info => info == ipc.joinExitInfo
  | .live info => info == ipc.joinExitInfo
  | .exit info => info == ipc.joinExitInfo
  | .hangup info => info.joinExitProcessPid == ipc.pid
  | .daemonCmd info => info.pid == ipc.pid
  | .msgSend msg => msg.sendPid == ipc.pid
  | .msgRuntime rt => rt.processPid == ipc.pid
  | .log _ => true
  | _ => false

/-- The steps of a process. -/
inductive ProcAct where
  /-- It sends a packet that is not about its APIs. -/
  | notice (body : PacketBody)
  | registerApi (name : CStr) (fn : ℕ)
  | unregisterApi (name : CStr)
  | callApi (pname apiName : CStr) (data : List UInt8) (timeout : ℤ)
  | recvProbe
  /-- The thread at index `i` looks its call up; where it finds a function it starts it. -/
  | begin (i : ℕ) (ptime : Timespec)
  /-- The function at index `i` returns. -/
  | finish (i : ℕ) (ptime : Timespec) (ret : IpcApiRet) (retData : List UInt8)
  deriving DecidableEq

/-- What a step of a process gives: the process after it, the packets it sends, the calls it
issues and the executions it completes. -/
structure ProcOut where
  proc : Proc
  packets : List IpcPacket := []
  issued : List IpcApi := []
  executed : List Execution := []

/-- One step of a process. -/
def Proc.step (maxSize : ℕ) (p : Proc) : ProcAct → Option ProcOut
  | .notice body =>
      if isNotice p.ipc body then some { proc := p, packets := ipcDataToDaemon maxSize p.ipc body }
      else none
  | .registerApi name fn =>
      let (ipc, packets) := ipcRegisterApi maxSize p.ipc (some name) (some fn)
      some { proc := { p with ipc }, packets }
  | .unregisterApi name =>
      some { proc := p, packets := ipcUnregisterApi maxSize p.ipc (some name) }
  | .callApi pname apiName data timeout =>
      let (ipc, packets) := ipcCallApi maxSize p.ipc pname apiName data timeout
      some {
        proc := { p with ipc }, packets
        issued := [ipcApiOf p.ipc pname apiName data timeout] }
  | .recvProbe => (ipcApiRecvProbe p).map fun proc => { proc }
  | .begin i ptime =>
      p.threads[i]?.map fun ia =>
        match callreal p.ipc ia with
        | none => { proc := { p with threads := p.threads.eraseIdx i } }
        | some imm => {
            proc := { p with
              threads := p.threads.eraseIdx i
              running := p.running ++ [(ia, imm)] }
            packets := ipcDataToDaemon maxSize p.ipc (.apiRuntime (startRecord p.ipc ia ptime)) }
  | .finish i ptime ret retData =>
      p.running[i]?.map fun (ia, imm) => {
        proc := { p with running := p.running.eraseIdx i }
        packets := ipcDataToDaemon maxSize p.ipc
          (.apiRuntime (endRecord p.ipc ia ptime ret retData))
        executed := [⟨p.ipc.pid, ia, imm, ret, retData⟩] }

/-! ## The network -/

/-- The processes and their sockets.  `owner` is the process that has bound the port, and every
process has bound its own port for calls and acknowledgements. -/
structure Net where
  maxSize : ℕ
  procs : List ℤ
  name : ℤ → CStr
  msgPort : ℤ → ℤ
  apiPort : ℤ → ℤ
  addr : ℤ → ℕ
  owner : Endpoint → Option ℤ
  bound : ∀ pid ∈ procs, owner ⟨addr pid, htons (apiPort pid)⟩ = some pid

namespace Net

variable (net : Net)

/-- The handle of a process after `ipc_creat`. -/
def handle (pid : ℤ) : IpcHandle where
  pid := pid
  aliasName := net.name pid
  msgRecvPort := net.msgPort pid
  apiRecvPort := net.apiPort pid

/-- The identity the process has in the table of the daemon. -/
def ident (pid : ℤ) : Ident := (newMember (net.handle pid).joinExitInfo (net.addr pid)).ident

theorem owner_ident {pid : ℤ} (h : pid ∈ net.procs) :
    net.owner (net.ident pid).apiEndpoint = some pid := net.bound pid h

end Net

/-! ## The system -/

/-- What a run has done: the calls issued, the calls the daemon has accepted under their numbers,
and the executions. -/
structure History where
  issued : List IpcApi := []
  accepted : List IpcApi := []
  executed : List Execution := []
  deriving DecidableEq, Repr

/-- The daemon, the processes and the datagrams on their way. -/
structure System where
  daemon : Daemon := {}
  procs : ℤ → Proc
  up : List IpcPacket := []
  down : List Send := []
  hist : History := {}
  /-- The acknowledgements the daemon has sent. -/
  acks : List Send := []
  /-- The acknowledgements that have completed a call, with the process that made it. -/
  completed : List (ℤ × IpcApiAckList) := []

/-- The payload is an acknowledgement. -/
def Payload.isAck : Payload → Bool
  | .apiAckRelay _ _ => true
  | _ => false

/-- The packet is received by the daemon. -/
def DaemonAct.isRecv : DaemonAct → Bool
  | .recv _ _ _ => true
  | _ => false

/-- The steps of the system. -/
inductive SysAct where
  | proc (pid : ℤ) (act : ProcAct)
  /-- The packet at index `i` reaches the daemon. -/
  | arrive (i : ℕ) (stale : MlistMember → MlistMember)
  /-- A step of the daemon other than to receive a packet. -/
  | daemon (act : DaemonAct)
  /-- The datagram at index `i` reaches its port. -/
  | deliver (i : ℕ)

namespace System

variable (net : Net) (s : System)

/-- A step of a process. -/
def stepProc (pid : ℤ) (act : ProcAct) : Option System :=
  if pid ∈ net.procs then
    ((s.procs pid).step net.maxSize act).map fun o =>
      { s with
        procs := Function.update s.procs pid o.proc
        up := s.up ++ o.packets
        hist := { s.hist with
          issued := s.hist.issued ++ o.issued
          executed := s.hist.executed ++ o.executed } }
  else none

/-- A step of the daemon. -/
def stepDaemon (act : DaemonAct) : Option System :=
  (s.daemon.step act).map fun (d, out) =>
    { s with
      daemon := d
      down := s.down ++ out
      hist := { s.hist with accepted := s.hist.accepted ++ callsIn s.daemon act }
      acks := s.acks ++ out.filter fun x => x.payload.isAck }

/-- The daemon's receive thread gets a packet that was on its way. -/
def stepArrive (i : ℕ) (stale : MlistMember → MlistMember) : Option System :=
  match s.up[i]? with
  | none => none
  | some pkt =>
      { s with up := s.up.eraseIdx i }.stepDaemon (.recv stale (net.addr pkt.sendPid) pkt)

/-- A datagram of the daemon reaches the process that has bound its port. -/
def stepDeliver (i : ℕ) : Option System :=
  s.down[i]?.map fun x =>
    match net.owner x.dst with
    | none => { s with down := s.down.eraseIdx i }
    | some pid =>
        let (proc, taken) := ipcRecvAnalysis (s.procs pid) x.payload
        { s with
          down := s.down.eraseIdx i
          procs := Function.update s.procs pid proc
          completed := s.completed ++ taken.map fun ack => (pid, ack) }

/-- One step of the system. -/
def step : SysAct → Option System
  | .proc pid act => s.stepProc net pid act
  | .arrive i stale => s.stepArrive net i stale
  | .daemon act => if act.isRecv then none else s.stepDaemon act
  | .deliver i => s.stepDeliver net i

end System

/-- The runs of the system: at first nobody has sent anything. -/
def sysLts (net : Net) : Lts System SysAct where
  init := { procs := fun pid => { ipc := net.handle pid } }
  step := System.step net

/-! ## What a step of a process does to calls -/

/-- The calls in the hands of a process. -/
def Proc.held (p : Proc) : List IpcApi := p.apiRecvList ++ p.threads ++ p.running.map Prod.fst

/-- The packet is a call. -/
def IpcPacket.isCall (pkt : IpcPacket) : Bool :=
  match pkt.body with
  | .apiCall _ => true
  | _ => false

/-- A packet that is neither a call nor the record of the end of an API function; a join is the
process's own. -/
def IpcPacket.isQuiet (ipc : IpcHandle) (pkt : IpcPacket) : Prop :=
  pkt.sendPid = ipc.pid ∧
    match pkt.body with
    | .join info => info = ipc.joinExitInfo
    | .apiCall _ => False
    | .apiRuntime rt => rt.flag = false
    | _ => True

/-- What a step of a process can do to calls. -/
inductive ProcEffect (p : Proc) (o : ProcOut) : Prop
  /-- It issues no call and completes no execution. -/
  | quiet (hipc : o.proc.ipc.joinExitInfo = p.ipc.joinExitInfo)
      (hnum : o.proc.ipc.apiAckMagicNum = p.ipc.apiAckMagicNum)
      (hheld : ∀ a ∈ o.proc.held, a ∈ p.held)
      (hrun : ∀ x ∈ o.proc.running, x ∈ p.running ∨ callreal p.ipc x.1 = some x.2)
      (hpkts : ∀ pkt ∈ o.packets, pkt.isQuiet p.ipc)
      (hissued : o.issued = []) (hexec : o.executed = [])
  /-- It issues a call. -/
  | call (pname apiName : CStr) (data : List UInt8) (timeout : ℤ)
      (hproc : o.proc = { p with ipc := { p.ipc with
        apiAckWaitList := p.ipc.apiAckWaitList ++ [p.ipc.apiAckMagicNum]
        apiAckMagicNum := p.ipc.apiAckMagicNum + 1 } })
      (hpkts : ∃ n ≤ 1, o.packets = List.replicate n
        ⟨p.ipc.pid, .apiCall (ipcApiOf p.ipc pname apiName data timeout)⟩)
      (hissued : o.issued = [ipcApiOf p.ipc pname apiName data timeout]) (hexec : o.executed = [])
  /-- A function returns. -/
  | finish (i : ℕ) (ia : IpcApi) (imm : IpcApiMapMember) (ptime : Timespec) (ret : IpcApiRet)
      (retData : List UInt8) (hrun : p.running[i]? = some (ia, imm))
      (hproc : o.proc = { p with running := p.running.eraseIdx i })
      (hpkts : ∃ n ≤ 1, o.packets = List.replicate n
        ⟨p.ipc.pid, .apiRuntime (endRecord p.ipc ia ptime ret retData)⟩)
      (hissued : o.issued = []) (hexec : o.executed = [⟨p.ipc.pid, ia, imm, ret, retData⟩])

/-- A packet is sent once or, for its size, not at all. -/
theorem ipcDataToDaemon_eq (maxSize : ℕ) (ipc : IpcHandle) (body : PacketBody) :
    ∃ n ≤ 1, ipcDataToDaemon maxSize ipc body = List.replicate n ⟨ipc.pid, body⟩ := by
  unfold ipcDataToDaemon
  split
  · exact ⟨0, by omega, rfl⟩
  · exact ⟨1, Nat.le_refl 1, rfl⟩

theorem mem_ipcDataToDaemon {maxSize : ℕ} {ipc : IpcHandle} {body : PacketBody} {pkt : IpcPacket}
    (h : pkt ∈ ipcDataToDaemon maxSize ipc body) : pkt = ⟨ipc.pid, body⟩ := by
  obtain ⟨n, -, he⟩ := ipcDataToDaemon_eq maxSize ipc body
  rw [he] at h
  exact List.eq_of_mem_replicate h

section ProcStep

variable {maxSize : ℕ} {p : Proc} {o : ProcOut}

/-- What is sent as a notice is not about calls. -/
theorem isQuiet_of_isNotice {ipc : IpcHandle} {body : PacketBody} (h : isNotice ipc body = true) :
    IpcPacket.isQuiet ipc ⟨ipc.pid, body⟩ := by
  refine ⟨rfl, ?_⟩
  cases body with
  | join info => simpa [isNotice] using h
  | apiCall api => cases h
  | apiRuntime rt => cases h
  | _ => trivial

/-- A step that changes neither the handle nor the lists of calls, and sends one quiet packet. -/
theorem quiet_of_same {packets : List IpcPacket} (hpkts : ∀ pkt ∈ packets, pkt.isQuiet p.ipc) :
    ProcEffect p { proc := p, packets } :=
  .quiet rfl rfl (fun _ ha => ha) (fun _ hx => Or.inl hx) hpkts rfl rfl

theorem isQuiet_of_mem {ipc : IpcHandle} {body : PacketBody} {pkt : IpcPacket}
    (hbody : IpcPacket.isQuiet ipc ⟨ipc.pid, body⟩) (h : pkt ∈ ipcDataToDaemon maxSize ipc body) :
    pkt.isQuiet ipc := by
  rw [mem_ipcDataToDaemon h]
  exact hbody

/-- The thread that is created for the head of `api_recv_list`. -/
theorem step_recvProbe (h : p.step maxSize .recvProbe = some o) : ProcEffect p o := by
  obtain ⟨q, hq, rfl⟩ := Option.map_eq_some_iff.1 h
  unfold ipcApiRecvProbe at hq
  split at hq
  · cases hq
  · rename_i ia rest hl
    cases hq
    refine .quiet rfl rfl (fun a ha => ?_) (fun _ hx => Or.inl hx) (by simp) rfl rfl
    simp only [Proc.held, hl, List.mem_append, List.mem_cons, List.not_mem_nil, or_false] at ha ⊢
    tauto

/-- The start of a function. -/
theorem step_begin {i : ℕ} {ptime : Timespec} (h : p.step maxSize (.begin i ptime) = some o) :
    ProcEffect p o := by
  obtain ⟨ia, hia, rfl⟩ := Option.map_eq_some_iff.1 h
  have hmem : ia ∈ p.threads := List.mem_of_getElem? hia
  have hrest : ∀ a ∈ p.threads.eraseIdx i, a ∈ p.threads := fun a => List.mem_of_mem_eraseIdx
  cases hc : callreal p.ipc ia with
  | none =>
    refine .quiet rfl rfl (fun a ha => ?_) (fun _ hx => Or.inl hx) (by simp) rfl rfl
    simp only [Proc.held, List.mem_append] at ha ⊢
    rcases ha with (ha | ha) | ha
    · exact Or.inl (Or.inl ha)
    · exact Or.inl (Or.inr (hrest a ha))
    · exact Or.inr ha
  | some imm =>
    refine .quiet rfl rfl (fun a ha => ?_) (fun x hx => ?_) (fun pkt hpkt => ?_) rfl rfl
    · simp only [Proc.held, List.map_append, List.mem_append, List.map_cons, List.map_nil,
        List.mem_singleton] at ha ⊢
      rcases ha with (ha | ha) | ha | rfl
      · exact Or.inl (Or.inl ha)
      · exact Or.inl (Or.inr (hrest a ha))
      · exact Or.inr ha
      · exact Or.inl (Or.inr hmem)
    · rcases List.mem_append.1 hx with hx | hx
      · exact Or.inl hx
      · rw [List.mem_singleton.1 hx]
        exact Or.inr hc
    · exact isQuiet_of_mem ⟨rfl, rfl⟩ hpkt

/-- **What a step of a process does to calls.** -/
theorem Proc.step_rpc {act : ProcAct} (h : p.step maxSize act = some o) : ProcEffect p o := by
  cases act with
  | notice body =>
    simp only [Proc.step] at h
    split at h
    · rename_i hbody
      cases h
      exact quiet_of_same fun pkt => isQuiet_of_mem (isQuiet_of_isNotice hbody)
    · cases h
  | registerApi name fn =>
    simp only [Proc.step, ipcRegisterApi] at h
    split at h
    · cases h
      exact quiet_of_same (by simp)
    · cases h
      exact .quiet rfl rfl (fun _ ha => ha) (fun _ hx => Or.inl hx)
        (fun pkt => isQuiet_of_mem ⟨rfl, trivial⟩) rfl rfl
  | unregisterApi name =>
    cases h
    refine quiet_of_same fun pkt hpkt => ?_
    simp only [ipcUnregisterApi] at hpkt
    split at hpkt
    · cases hpkt
    · split at hpkt
      · exact isQuiet_of_mem ⟨rfl, trivial⟩ hpkt
      · cases hpkt
  | callApi pname apiName data timeout =>
    cases h
    exact .call pname apiName data timeout rfl (ipcDataToDaemon_eq maxSize p.ipc _) rfl rfl
  | recvProbe => exact step_recvProbe h
  | begin i ptime => exact step_begin h
  | finish i ptime ret retData =>
    obtain ⟨⟨ia, imm⟩, hrun, rfl⟩ := Option.map_eq_some_iff.1 h
    exact .finish i ia imm ptime ret retData hrun rfl (ipcDataToDaemon_eq maxSize p.ipc _) rfl rfl

end ProcStep

end EasyIpc

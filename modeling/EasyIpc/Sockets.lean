import EasyIpc.Acks
import EasyIpc.Ports
import EasyIpc.System

/-!
# The sockets of a machine

Programs start and end on the machine of the daemon.  They make handles, whose sockets `ipc_creat` binds;
`ipc_exit` closes none of them, so they are there until the program ends.  Other programs bind ports too.
A datagram may be lost, delayed or repeated.

* `Addressed`, `Daemon.step_addressed` — where the datagrams of the daemon go.
* `Host`, `hostLts` — the programs, the sockets, the daemon and all datagrams that have been sent.
* `HostInv` — what holds in every state: each handle has its sockets, and each member of the table and
  each datagram comes from a handle.
* `own_socket` — what the daemon sends for a handle that is still there arrives at the handle's own socket.
-/

namespace EasyIpc

open FirstMatch Transition

/-! ## Where the daemon's datagrams go -/

section Addressed

variable {d d' : Daemon} {act : DaemonAct} {out : List Send} {x : Send}

/-- Where a payload for a member goes. -/
def Ident.endpointFor (k : Ident) : Payload → Endpoint
  | .apiRelay _ => k.apiEndpoint
  | .apiAckRelay _ _ => k.apiEndpoint
  | _ => k.msgEndpoint

/-- The packet is a join of a process with this identity. -/
def JoinsAs (act : DaemonAct) (k : Ident) : Prop :=
  ∃ stale addr sendPid info, act = .recv stale addr ⟨sendPid, .join info⟩ ∧
    k = (newMember info addr).ident

/-- The datagram is for a member of the table, or answers a join. -/
structure Addressed (d : Daemon) (act : DaemonAct) (x : Send) (k : Ident) : Prop where
  known : k ∈ idents d.mlist ∨ JoinsAs act k
  pid : x.sendPid = k.pid
  dst : x.dst = k.endpointFor x.payload

theorem RpcSend.addressed (h : RpcSend d act x) : ∃ k, Addressed d act x k := by
  cases h with
  | relay k _ hk _ _ hx | refusal k _ _ hk _ _ _ hx | finish _ _ _ _ k _ _ hk _ hx =>
    subst hx
    exact ⟨k, Or.inl hk, rfl, rfl⟩

/-- **Where a step of the daemon sends to.** -/
theorem Daemon.step_addressed (h : d.step act = some (d', out)) (hx : x ∈ out) :
    ∃ k, Addressed d act x k := by
  cases act with
  | recv stale addr pkt =>
    have he : ipcdAnalysisCore stale addr pkt d = (d', out) := Option.some.inj h
    have hout : x ∈ (ipcdAnalysisCore stale addr pkt d).2 := he ▸ hx
    obtain ⟨sendPid, body⟩ := pkt
    cases body with
    | join info =>
      refine ⟨(newMember info addr).ident, Or.inr ⟨stale, addr, sendPid, info, rfl, rfl⟩, ?_, ?_⟩ <;>
        rcases ipcdJoin_cases stale info addr d.mlist with ⟨l, -, hj⟩ | ⟨l, -, hj⟩ <;>
        simp only [ipcdAnalysisCore, hj, List.mem_singleton] at hout <;>
        rw [hout] <;> rfl
    | apiRuntime rt =>
      simp only [ipcdAnalysisCore] at hout
      split at hout
      · rename_i hflag
        exact (ipcdApiFinish_sends stale addr hflag hout).addressed
      · cases hout
    | _ => simp [ipcdAnalysisCore] at hout
  | msgPost | msgWait | msgPull =>
    obtain ⟨q, -, -, rfl⟩ := onMsgQueue_eq_some h
    cases hx
  | msgProbe =>
    obtain ⟨p, -, -, rfl⟩ := step_msgProbe_eq_some h
    obtain ⟨m, hm, rfl⟩ := List.mem_map.1 hx
    exact ⟨m.ident, Or.inl (List.mem_map_of_mem (List.mem_filter.1 hm).1), rfl, rfl⟩
  | apiPost | apiWait | apiPull =>
    obtain ⟨q, -, -, rfl⟩ := onApiQueue_eq_some h
    cases hx
  | apiProbe =>
    obtain ⟨p, hp, he⟩ := step_apiProbe_eq_some h
    exact (ipcdApiProbe_sends hp (by rw [he]; exact hx)).addressed
  | liveSweep =>
    cases h
    cases hx
  | timeoutSweep =>
    cases h
    obtain ⟨a, -, -, hack⟩ := mem_timeoutLoop hx
    obtain ⟨k, hk, -, rfl⟩ := mem_ackTo_ident hack
    exact ⟨k, Or.inl hk, rfl, rfl⟩

end Addressed

/-! ## The machine -/

/-- What a socket is for: the messages or the calls of the handle with a process id, or something else. -/
inductive SocketUse where
  | msg (pid : ℤ)
  | api (pid : ℤ)
  | other
  deriving DecidableEq, Repr

/-- A socket, with the port that it has and the program that it belongs to. -/
structure Socket where
  port : ℤ
  program : ℤ
  use : SocketUse
  deriving DecidableEq, Repr

/-- The socket of the handle that a payload is for. -/
def Payload.useFor (pid : ℤ) : Payload → SocketUse
  | .apiRelay _ => .api pid
  | .apiAckRelay _ _ => .api pid
  | _ => .msg pid

/-- The daemon, the handles of the programs, the sockets, and all datagrams that have been sent. -/
structure Host where
  daemon : Daemon := {}
  handles : ℤ → Handles := fun _ => {}
  sockets : List Socket := []
  requests : List IpcPacket := []
  replies : List Send := []
  /-- The handles that have ever been made; no step reads it. -/
  made : List IpcHandle := []

/-- The steps.  A program is its `getpid()`. -/
inductive HostAct where
  /-- `ipc_creat`, with the ports that the system would take for 0. -/
  | creat (program : ℤ) (pname : Option CStr) (any : Option ℤ × Option ℤ)
  /-- `ipc_creat` sends its join again. -/
  | retry (program : ℤ) (ipc : ℕ)
  /-- Any packet of a handle but a join. -/
  | send (program : ℤ) (ipc : ℕ) (body : PacketBody)
  | exit (program : ℤ) (ipc : Option ℕ)
  | hangup (program : ℤ) (signalNo : ℤ)
  /-- The program ends, and its sockets with it. -/
  | ends (program : ℤ)
  /-- A program binds a socket of its own. -/
  | binds (program port : ℤ)
  /-- A packet reaches the daemon. -/
  | request (stale : MlistMember → MlistMember) (pkt : IpcPacket)
  /-- A step of another thread of the daemon. -/
  | thread (act : DaemonAct)

/-- The program that a step makes a handle for. -/
def HostAct.creates : HostAct → Option ℤ
  | .creat program _ _ => some program
  | _ => none

/-- The packet is a join. -/
def PacketBody.isJoin : PacketBody → Bool
  | .join _ => true
  | _ => false

namespace Host

variable (maxSize loopback : ℕ) (s : Host)

/-- The ports that are taken. -/
def taken : List ℤ := s.sockets.map Socket.port

/-- The socket that gets a datagram. -/
def receiver (dst : Endpoint) : Option Socket :=
  if dst.addr = loopback then s.sockets.find? fun k => k.port == dst.port else none

/-- `ipc_creat` where it makes a handle: the new handle is the last of the list. -/
def creat (program : ℤ) (pname : Option CStr) (any : Option ℤ × Option ℤ) : Option Host :=
  (bindBoth s.taken any).bind fun (m, a) =>
    match (s.handles program).ipcCreat maxSize program pname (m.announced, a.announced) with
    | (.error _, _, _) => none
    | (.ok _, handles, packets) =>
        let new := handles.ipcList.drop (s.handles program).ipcList.length
        some { s with
          handles := Function.update s.handles program handles
          sockets := s.sockets ++ new.flatMap fun h =>
            [⟨m.bound, program, .msg h.pid⟩, ⟨a.bound, program, .api h.pid⟩]
          requests := s.requests ++ packets
          made := s.made ++ new }

/-- A step of the daemon. -/
def onDaemon (act : DaemonAct) : Option Host :=
  (s.daemon.step act).map fun (daemon, out) => { s with daemon, replies := s.replies ++ out }

/-- A handle sends something. -/
def sendAs (program : ℤ) (ipc : ℕ) (body : IpcHandle → PacketBody) : Option Host :=
  (s.handles program).ipcList[ipc]?.map fun h =>
    { s with requests := s.requests ++ ipcDataToDaemon maxSize h (body h) }

/-- One step. -/
def step : HostAct → Option Host
  | .creat program pname any => s.creat maxSize program pname any
  | .retry program ipc => s.sendAs maxSize program ipc fun h => .join h.joinExitInfo
  | .send program ipc body =>
      if body.isJoin then none else s.sendAs maxSize program ipc fun _ => body
  | .exit program ipc =>
      let (handles, packets) := (s.handles program).ipcExit maxSize ipc
      some { s with
        handles := Function.update s.handles program handles
        requests := s.requests ++ packets }
  | .hangup program signalNo =>
      some { s with requests := s.requests ++ (s.handles program).ipcHangupRecord signalNo }
  | .ends program =>
      some { s with
        handles := Function.update s.handles program {}
        sockets := s.sockets.filter fun k => k.program ≠ program }
  | .binds program port =>
      if port ∈ s.taken then none
      else some { s with sockets := s.sockets ++ [⟨port, program, .other⟩] }
  | .request stale pkt =>
      if pkt ∈ s.requests then s.onDaemon (.recv stale loopback pkt) else none
  | .thread act => if act.isRecv then none else s.onDaemon act

end Host

/-- The runs. -/
def hostLts (maxSize loopback : ℕ) : Lts Host HostAct where
  init := {}
  step := Host.step maxSize loopback

/-- A new handle finds room for two ports, and its process id is new. -/
def RoomFor (s : Host) (act : HostAct) (_ : Host) : Prop :=
  ∀ program ∈ act.creates, HasRoom s.taken ∧
    program + (s.handles program).pidMagicNumber * 1000000 ∉ s.made.map IpcHandle.pid

instance (s : Host) (act : HostAct) (s' : Host) : Decidable (RoomFor s act s') :=
  inferInstanceAs (Decidable (∀ program ∈ act.creates, _ ∧ _))

/-! ## What every state keeps -/

section Invariant

variable {maxSize loopback : ℕ} {s s' : Host} {act : HostAct} {h : IpcHandle} {program : ℤ}

/-- The identity that a handle has in the table. -/
def IpcHandle.identAt (loopback : ℕ) (h : IpcHandle) : Ident := (newMember h.joinExitInfo loopback).ident

/-- The handle has both its sockets. -/
structure HasSockets (sockets : List Socket) (program : ℤ) (h : IpcHandle) : Prop where
  msg : ⟨htons h.msgRecvPort, program, .msg h.pid⟩ ∈ sockets
  api : ⟨htons h.apiRecvPort, program, .api h.pid⟩ ∈ sockets

/-- The ports are apart, each handle has its sockets, and the packets, the table and the datagrams of the
daemon come from handles that have been made. -/
structure HostInv (loopback : ℕ) (s : Host) : Prop where
  apart : s.taken.Nodup
  pids : (s.made.map IpcHandle.pid).Nodup
  made : ∀ program, ∀ h ∈ (s.handles program).ipcList, h ∈ s.made
  bound : ∀ program, ∀ h ∈ (s.handles program).ipcList, HasSockets s.sockets program h
  joins : ∀ pkt ∈ s.requests, ∀ info, pkt.body = .join info → ∃ h ∈ s.made, info = h.joinExitInfo
  members : ∀ k ∈ idents s.daemon.mlist, ∃ h ∈ s.made, k = h.identAt loopback
  replies : ∀ x ∈ s.replies, ∃ h ∈ s.made, x.sendPid = h.pid ∧
    x.dst = (h.identAt loopback).endpointFor x.payload

theorem hostInv_init : HostInv loopback (hostLts maxSize loopback).init := by
  constructor <;> simp [hostLts, Host.taken, idents]

/-- What `ipc_creat` makes. -/
theorem ipcCreat_eq_ok {p p' : Handles} {pname : Option CStr} {ports : ℤ × ℤ} {i : ℕ}
    {packets : List IpcPacket} (he : p.ipcCreat maxSize program pname ports = (.ok i, p', packets)) :
    ∃ h : IpcHandle, p'.ipcList = p.ipcList ++ [h] ∧ h.pid = program + p.pidMagicNumber * 1000000 ∧
      h.msgRecvPort = ports.1 ∧ h.apiRecvPort = ports.2 ∧
      packets = ipcDataToDaemon maxSize h (.join h.joinExitInfo) := by
  unfold Handles.ipcCreat at he
  split at he
  · cases he
  · split at he
    · cases he
    · split at he
      · cases he
      · cases he
        exact ⟨_, rfl, rfl, rfl, rfl, rfl⟩

theorem mem_ipcDataToDaemon_body {body : PacketBody} {pkt : IpcPacket}
    (hp : pkt ∈ ipcDataToDaemon maxSize h body) : pkt.body = body := by
  unfold ipcDataToDaemon at hp
  split at hp
  · cases hp
  · rw [List.mem_singleton.1 hp]

/-- What a new handle does to the machine. -/
theorem Host.creat_eq_some {pname : Option CStr} {any : Option ℤ × Option ℤ}
    (hst : s.creat maxSize program pname any = some s') :
    ∃ m a h handles packets, bindBoth s.taken any = some (m, a) ∧
      handles.ipcList = (s.handles program).ipcList ++ [h] ∧
      h.pid = program + (s.handles program).pidMagicNumber * 1000000 ∧
      h.msgRecvPort = m.announced ∧ h.apiRecvPort = a.announced ∧
      (∀ pkt ∈ packets, pkt.body = .join h.joinExitInfo) ∧
      s' = { s with
        handles := Function.update s.handles program handles
        sockets := s.sockets ++ [⟨m.bound, program, .msg h.pid⟩, ⟨a.bound, program, .api h.pid⟩]
        requests := s.requests ++ packets
        made := s.made ++ [h] } := by
  obtain ⟨⟨m, a⟩, hb, hst⟩ := Option.bind_eq_some_iff.1 hst
  dsimp only at hst
  split at hst
  · cases hst
  · rename_i i handles packets he
    obtain ⟨h, hlist, hpid, hmsg, hapi, rfl⟩ := ipcCreat_eq_ok he
    refine ⟨m, a, h, handles, ipcDataToDaemon maxSize h (.join h.joinExitInfo), hb, hlist, hpid, hmsg,
      hapi, fun pkt => mem_ipcDataToDaemon_body, ?_⟩
    have hnew : handles.ipcList.drop (s.handles program).ipcList.length = [h] := by
      rw [hlist, List.drop_left]
    simp only [hnew] at hst
    exact (Option.some.inj hst).symm

/-- A step that sends only packets with no join among them, and changes no list of handles. -/
theorem HostInv.quiet (hI : HostInv loopback s) {handles : ℤ → Handles} {packets : List IpcPacket}
    (hlist : ∀ p, (handles p).ipcList = (s.handles p).ipcList)
    (hjoin : ∀ pkt ∈ packets, ∀ info, pkt.body = .join info → ∃ h ∈ s.made, info = h.joinExitInfo) :
    HostInv loopback { s with handles, requests := s.requests ++ packets } where
  apart := hI.apart
  pids := hI.pids
  made p h hh := hI.made p h (hlist p ▸ hh)
  bound p h hh := hI.bound p h (hlist p ▸ hh)
  joins pkt hpkt := (List.mem_append.1 hpkt).elim (hI.joins pkt) (hjoin pkt)
  members := hI.members
  replies := hI.replies

theorem HostInv.sendAs (hI : HostInv loopback s) {ipc : ℕ} {body : IpcHandle → PacketBody}
    (hbody : ∀ h ∈ (s.handles program).ipcList, ∀ info, body h = .join info → info = h.joinExitInfo)
    (hst : s.sendAs maxSize program ipc body = some s') : HostInv loopback s' := by
  obtain ⟨h, hh, rfl⟩ := Option.map_eq_some_iff.1 hst
  have hmem : h ∈ (s.handles program).ipcList := List.mem_of_getElem? hh
  refine hI.quiet (fun _ => rfl) fun pkt hpkt info hinfo => ?_
  rw [mem_ipcDataToDaemon_body hpkt] at hinfo
  exact ⟨h, hI.made program h hmem, hbody h hmem info hinfo⟩

/-- A step of the daemon; what it handles of joins was sent by handles. -/
theorem HostInv.onDaemon (hI : HostInv loopback s) {act : DaemonAct}
    (hjoin : ∀ k, JoinsAs act k → ∃ h ∈ s.made, k = h.identAt loopback)
    (hst : s.onDaemon act = some s') : HostInv loopback s' := by
  obtain ⟨⟨d, out⟩, hd, rfl⟩ := Option.map_eq_some_iff.1 hst
  refine { hI with members := fun k hk => ?_, replies := fun x hx => ?_ }
  · rcases Daemon.step_idents hd hk with hk | hk
    · exact hI.members k hk
    · exact hjoin k hk
  · rcases List.mem_append.1 hx with hx | hx
    · exact hI.replies x hx
    · obtain ⟨k, hknown, hpid, hdst⟩ := Daemon.step_addressed hd hx
      obtain ⟨h, hh, rfl⟩ := hknown.elim (hI.members k) (hjoin k)
      exact ⟨h, hh, hpid, hdst⟩

/-- A new handle, on a machine with room. -/
theorem HostInv.creat (hI : HostInv loopback s) {pname : Option CStr} {any : Option ℤ × Option ℤ}
    (hroom : HasRoom s.taken)
    (hfresh : program + (s.handles program).pidMagicNumber * 1000000 ∉ s.made.map IpcHandle.pid)
    (hst : s.creat maxSize program pname any = some s') : HostInv loopback s' := by
  obtain ⟨m, a, h, handles, packets, hb, hlist, hpid, hmsg, hapi, hpackets, rfl⟩ :=
    Host.creat_eq_some hst
  obtain ⟨hmb, hab, hmfree, hafree, ⟨hm0, hmlt⟩, ⟨ha0, halt⟩, hlt⟩ := bindBoth_isGranted hroom hb
  have hold : ∀ p, ∀ g ∈ (Function.update s.handles program handles p).ipcList,
      g ∈ (s.handles p).ipcList ∨ p = program ∧ g = h := by
    intro p g hg
    by_cases hp : p = program
    · subst hp
      rw [Function.update_self, hlist, List.mem_append, List.mem_singleton] at hg
      exact hg.imp id fun he => ⟨rfl, he⟩
    · rw [Function.update_of_ne hp] at hg
      exact Or.inl hg
  have hkeep : ∀ {p g}, HasSockets s.sockets p g → HasSockets (s.sockets ++
      [⟨m.bound, program, .msg h.pid⟩, ⟨a.bound, program, .api h.pid⟩]) p g :=
    fun hg => ⟨List.mem_append_left _ hg.msg, List.mem_append_left _ hg.api⟩
  refine ⟨?_, ?_, fun p g hg => ?_, fun p g hg => ?_, fun pkt hpkt info hinfo => ?_,
    fun k hk => ?_, fun x hx => ?_⟩
  · show (List.map Socket.port _).Nodup
    rw [List.map_append]
    refine List.nodup_append'.2 ⟨hI.apart, ?_, ?_⟩
    · simp only [List.map_cons, List.map_nil, List.nodup_cons, List.mem_singleton, List.not_mem_nil,
        not_false_eq_true, List.nodup_nil, and_true]
      omega
    · intro q hq hq'
      rcases List.mem_pair.1 hq' with rfl | rfl
      · exact hmfree (hmb ▸ hq)
      · exact hafree (hab ▸ hq)
  · rw [List.map_append]
    exact List.nodup_append'.2 ⟨hI.pids, List.nodup_singleton _, by simpa [hpid] using hfresh⟩
  · rcases hold p g hg with hg | ⟨-, rfl⟩
    · exact List.mem_append_left _ (hI.made p g hg)
    · exact List.mem_append_right _ (List.mem_singleton_self _)
  · rcases hold p g hg with hg | ⟨rfl, rfl⟩
    · exact hkeep (hI.bound p g hg)
    · rw [← hmsg] at hmb hm0 hmlt
      rw [← hapi] at hab ha0 halt
      constructor
      · rw [htons_of_lt hm0 hmlt, hmb]
        simp
      · rw [htons_of_lt ha0 halt, hab]
        simp
  · rcases List.mem_append.1 hpkt with hpkt | hpkt
    · obtain ⟨g, hg, he⟩ := hI.joins pkt hpkt info hinfo
      exact ⟨g, List.mem_append_left _ hg, he⟩
    · rw [hpackets pkt hpkt] at hinfo
      exact ⟨h, List.mem_append_right _ (List.mem_singleton_self _), (PacketBody.join.inj hinfo).symm⟩
  · obtain ⟨g, hg, he⟩ := hI.members k hk
    exact ⟨g, List.mem_append_left _ hg, he⟩
  · obtain ⟨g, hg, he⟩ := hI.replies x hx
    exact ⟨g, List.mem_append_left _ hg, he⟩

theorem ipcExit_ipcList (p : Handles) (ipc : Option ℕ) : (p.ipcExit maxSize ipc).1.ipcList = p.ipcList := by
  unfold Handles.ipcExit
  split <;> rfl

theorem ipcExit_packets {p : Handles} {ipc : Option ℕ} {pkt : IpcPacket}
    (hp : pkt ∈ (p.ipcExit maxSize ipc).2) (info : JoinExitInfo) : pkt.body ≠ .join info := by
  unfold Handles.ipcExit at hp
  split at hp
  · cases hp
  · rw [mem_ipcDataToDaemon_body hp]
    simp

/-- A program that goes takes only its own sockets along. -/
theorem HostInv.ends (hI : HostInv loopback s) (hst : s.step maxSize loopback (.ends program) = some s') :
    HostInv loopback s' := by
  cases hst
  have hlist : ∀ p, ∀ g ∈ (Function.update s.handles program {} p).ipcList,
      p ≠ program ∧ g ∈ (s.handles p).ipcList := by
    intro p g hg
    by_cases hp : p = program
    · rw [hp, Function.update_self] at hg
      cases hg
    · rw [Function.update_of_ne hp] at hg
      exact ⟨hp, hg⟩
  refine { hI with apart := ?_, made := fun p g hg => hI.made p g (hlist p g hg).2, bound := ?_ }
  · exact hI.apart.sublist (List.filter_sublist.map Socket.port)
  · intro p g hg
    obtain ⟨hne, hg⟩ := hlist p g hg
    obtain ⟨hmsg, hapi⟩ := hI.bound p g hg
    exact ⟨List.mem_filter.2 ⟨hmsg, by simpa using hne⟩, List.mem_filter.2 ⟨hapi, by simpa using hne⟩⟩

/-- A program binds a port that is free. -/
theorem HostInv.binds (hI : HostInv loopback s) {port : ℤ}
    (hst : s.step maxSize loopback (.binds program port) = some s') : HostInv loopback s' := by
  simp only [Host.step] at hst
  split at hst
  · cases hst
  · rename_i hfree
    cases hst
    refine { hI with apart := ?_, bound := fun p g hg => ?_ }
    · show (List.map Socket.port _).Nodup
      rw [List.map_append]
      exact List.nodup_append'.2 ⟨hI.apart, List.nodup_singleton _, by simpa [Host.taken] using hfree⟩
    · obtain ⟨hmsg, hapi⟩ := hI.bound p g hg
      exact ⟨List.mem_append_left _ hmsg, List.mem_append_left _ hapi⟩

/-- **Every step of the machine keeps the invariant**, as long as new handles find room. -/
theorem HostInv.step (hI : HostInv loopback s) (hok : RoomFor s act s')
    (hst : s.step maxSize loopback act = some s') : HostInv loopback s' := by
  cases act with
  | creat program pname any =>
    obtain ⟨hroom, hfresh⟩ := hok program rfl
    exact hI.creat hroom hfresh hst
  | retry program ipc =>
    refine hI.sendAs (fun h _ info he => ?_) hst
    exact (PacketBody.join.inj he).symm
  | send program ipc body =>
    simp only [Host.step] at hst
    split at hst
    · cases hst
    · rename_i hjoin
      refine hI.sendAs (fun h _ info he => ?_) hst
      exact absurd (he ▸ rfl) hjoin
  | exit program ipc =>
    cases hst
    refine hI.quiet (fun p => ?_) fun pkt hpkt info hinfo => absurd hinfo (ipcExit_packets hpkt info)
    by_cases hp : p = program
    · rw [hp, Function.update_self]
      exact ipcExit_ipcList (s.handles program) ipc
    · rw [Function.update_of_ne hp]
  | hangup program signalNo =>
    cases hst
    refine hI.quiet (fun _ => rfl) fun pkt hpkt info hinfo => ?_
    obtain ⟨h, -, rfl⟩ := List.mem_map.1 hpkt
    cases hinfo
  | ends program => exact hI.ends hst
  | binds program port => exact hI.binds hst
  | request stale pkt =>
    simp only [Host.step] at hst
    split at hst
    · rename_i hsent
      refine hI.onDaemon ?_ hst
      rintro k ⟨stale', addr, sendPid, info, he, rfl⟩
      cases he
      obtain ⟨h, hh, rfl⟩ := hI.joins _ hsent info rfl
      exact ⟨h, hh, rfl⟩
    · cases hst
  | thread act =>
    simp only [Host.step] at hst
    split at hst
    · cases hst
    · rename_i hrecv
      refine hI.onDaemon ?_ hst
      rintro k ⟨stale, addr, sendPid, info, rfl, -⟩
      exact absurd rfl hrecv

theorem hostInv_reach (hr : Reach (hostLts maxSize loopback) RoomFor s) : HostInv loopback s :=
  hr.invariant (I := HostInv loopback) hostInv_init fun _ _ _ _ hI hst hok => hI.step hok hst

/-! ## What arrives where -/

/-- The socket with the port gets the datagram. -/
theorem receiver_eq (hI : HostInv loopback s) {k : Socket} (hk : k ∈ s.sockets) :
    s.receiver loopback ⟨loopback, k.port⟩ = some k := by
  rw [Host.receiver, if_pos rfl]
  cases hfind : s.sockets.find? fun k' => k'.port == k.port with
  | none => exact absurd (List.find?_eq_none.1 hfind k hk) (by simp)
  | some k' =>
    have hport : k'.port = k.port := by simpa using List.find?_some hfind
    rw [List.inj_on_of_nodup_map hI.apart (List.mem_of_find?_eq_some hfind) hk hport]

/-- **What the daemon sends for a handle arrives at its own socket**: of all datagrams that the daemon has
ever sent, one that is for a handle whose program still runs finds the socket of this handle, the one for
messages or the one for calls, and no other program's. -/
theorem own_socket (hr : Reach (hostLts maxSize loopback) RoomFor s) {x : Send} (hx : x ∈ s.replies)
    (hh : h ∈ (s.handles program).ipcList) (hpid : x.sendPid = h.pid) :
    s.receiver loopback x.dst = some ⟨x.dst.port, program, x.payload.useFor h.pid⟩ := by
  have hI := hostInv_reach hr
  obtain ⟨g, hg, hpid', hdst⟩ := hI.replies x hx
  obtain rfl : h = g :=
    List.inj_on_of_nodup_map hI.pids (hI.made program h hh) hg (hpid.symm.trans hpid')
  obtain ⟨hmsg, hapi⟩ := hI.bound program h hh
  rw [hdst]
  cases x.payload with
  | apiRelay _ | apiAckRelay _ _ => exact receiver_eq hI hapi
  | _ => exact receiver_eq hI hmsg

end Invariant

/-- A packet of a handle that is sent and arrives. -/
def posts (program pid : ℤ) (body : PacketBody) : List HostAct :=
  [.send program 0 body, .request id ⟨pid, body⟩]

/-- What the first handle of program 100 and of program 200 joins with, where a program has the port
40101. -/
def sampleJoins : List IpcPacket :=
  [⟨1000100, .join ⟨1000100, [97], 40102, 40100, 0⟩⟩, ⟨1000200, .join ⟨1000200, [98], 40104, 40103, 0⟩⟩]

/-- The second of two handles gets a message of the first. -/
def socketRun : List HostAct :=
  [.binds 7 40101, .creat 100 (some [97]) (none, none), .creat 200 (some [98]) (none, none)] ++
  sampleJoins.map (HostAct.request id) ++
  posts 200 1000200 (.msgRegister ⟨1000200, [109]⟩) ++
  posts 100 1000100 (.msgSend ⟨[109], [97], 1000100, [7]⟩) ++
  [.thread .msgPost, .thread .msgWait, .thread .msgPull, .thread .msgProbe]

/-- The relay arrives at the socket for messages of program 200. -/
theorem own_socket_relay : ∃ s, Reach (hostLts 4096 1) RoomFor s ∧
    s.receiver 1 ⟨1, 40103⟩ = some ⟨40103, 200, .msg 1000200⟩ := by
  let x : Send := ⟨⟨1, 40103⟩, 1000200, .msgRelay ⟨[109], [97], 1000100, [7]⟩⟩
  let h : IpcHandle := { pid := 1000200, aliasName := [98], msgRecvPort := 40103, apiRecvPort := 40104 }
  have hends : ((hostLts 4096 1).runOk RoomFor (hostLts 4096 1).init socketRun).any (fun s =>
      decide (x ∈ s.replies ∧ h ∈ (s.handles 200).ipcList)) = true := by decide +kernel
  obtain ⟨s, hrun, hback⟩ := (Option.any_eq_true _ _).1 hends
  obtain ⟨hx, hh⟩ := of_decide_eq_true hback
  have hreach : Reach (hostLts 4096 1) RoomFor s := Reach.runOk .init hrun
  exact ⟨s, hreach, own_socket hreach hx hh rfl⟩

end EasyIpc

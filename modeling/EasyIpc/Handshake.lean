import EasyIpc.Activity
import EasyIpc.Client
import Mathlib.Logic.Function.Basic

/-!
# The handshake of `ipc_creat`

`ipc_creat` sends a join and waits two seconds on `connect_sem`, which `ipc_recv_analysis` posts for
`ENUM_PROCESS_JOIN_ACK`; when the time is over it sends the join again.  `ENUM_PROCESS_JOIN_ACK_FAIL` is
ignored.  The network may lose, delay, reorder and repeat datagrams: whatever has been sent may arrive,
any number of times and at any time, or never.

* `Lobby`, `lobbyLts` — the handles, the daemon and the datagrams that have been sent.
* `PacketInv`, `LobbyTable`, `Silent` — what holds in every state of a run.
* `connected_accepted` — where `ipc_creat` has returned, the daemon has accepted a join of this handle.
* `retry_connects` — a lost acknowledgement does not keep a handle out: once the member that it has left
  behind is suspended, the next join of the handle that arrives is accepted, unless a live member of
  another process has the name.
-/

namespace EasyIpc

open FirstMatch Transition

/-! ## The system -/

/-- Where `ipc_creat` is for a handle: not called, in its loop, or back. -/
inductive Phase where
  | new
  | waiting
  | connected
  deriving DecidableEq, Repr

/-- The handles of all processes, by their numbers, with the addresses that they send from. -/
structure Sites (ι : Type) where
  maxSize : ℕ
  handle : ι → IpcHandle
  addr : ι → ℕ

namespace Sites

variable {ι : Type} (sites : Sites ι)

/-- The process id of a handle. -/
def pid (i : ι) : ℤ := (sites.handle i).pid

/-- What the handle sends to join. -/
def info (i : ι) : JoinExitInfo := (sites.handle i).joinExitInfo

/-- The socket that the handle waits at. -/
def endpoint (i : ι) : Endpoint := ⟨sites.addr i, htons (sites.handle i).msgRecvPort⟩

/-- The packet of `ipc_connect_daemon`. -/
def joinPacket (i : ι) : IpcPacket := ⟨sites.pid i, .join (sites.info i)⟩

/-- What goes onto the network when the handle sends. -/
def sends (i : ι) (body : PacketBody) : List (ι × IpcPacket) :=
  (ipcDataToDaemon sites.maxSize (sites.handle i) body).map (Prod.mk i)

theorem mem_sends {i j : ι} {body : PacketBody} {pkt : IpcPacket} (h : (j, pkt) ∈ sites.sends i body) :
    j = i ∧ pkt = ⟨sites.pid i, body⟩ := by
  obtain ⟨p, hp, he⟩ := List.mem_map.1 h
  unfold ipcDataToDaemon at hp
  split at hp
  · cases hp
  · obtain ⟨rfl, rfl⟩ := Prod.mk.inj he
    exact ⟨rfl, List.mem_singleton.1 hp⟩

end Sites

/-- What a handle sends besides its joins.  The application has the handle once `ipc_creat` has returned,
and `ipc_spec_probe` starts then; `ipc_hangup_record` goes through all handles there are. -/
def maySend (pid : ℤ) (phase : Phase) : PacketBody → Bool
  | .join _ => false
  | .hangup _ => phase ≠ .new
  | .live info => phase = .connected && info.joinExitProcessPid == pid
  | _ => phase = .connected

/-- The packet is a join that the daemon accepts. -/
def acceptsJoin (stale : MlistMember → MlistMember) (addr : ℕ) (pkt : IpcPacket) (d : Daemon) : Bool :=
  match pkt.body with
  | .join info => (ipcdJoin stale info addr d.mlist).1.isSome
  | _ => false

/-- The handles, the daemon, and all datagrams that have been sent. -/
structure Lobby (ι : Type) where
  daemon : Daemon := {}
  phase : ι → Phase := fun _ => .new
  connectSem : ι → ℕ := fun _ => 0
  /-- To the daemon, with the handles that they are from. -/
  requests : List (ι × IpcPacket) := []
  /-- From the daemon. -/
  replies : List Send := []
  /-- How many joins of the handle have been accepted; no step reads it. -/
  accepted : ι → ℕ := fun _ => 0
  /-- The sweeps of the live thread since the last of them; no step reads it. -/
  sweeps : ι → ℕ := fun _ => 0

/-- The steps of the system. -/
inductive LobbyAct (ι : Type) where
  /-- `ipc_connect_daemon`, at first or when the time is over. -/
  | connect (i : ι)
  /-- The wait on `connect_sem` is over and `ipc_creat` returns. -/
  | pass (i : ι)
  /-- Any other packet of the handle. -/
  | send (i : ι) (body : PacketBody)
  /-- A packet reaches the daemon. -/
  | request (stale : MlistMember → MlistMember) (i : ι) (pkt : IpcPacket)
  /-- A datagram reaches the socket of a handle. -/
  | reply (i : ι) (s : Send)
  /-- A step of another thread of the daemon. -/
  | thread (act : DaemonAct)

namespace Lobby

variable {ι : Type} [DecidableEq ι] (sites : Sites ι) (s : Lobby ι)

/-- `ipc_recv_analysis`, for what concerns the handshake. -/
def post (i : ι) : Payload → Lobby ι
  | .joinAck => { s with connectSem := Function.update s.connectSem i (s.connectSem i + 1) }
  | _ => s

/-- The daemon handles a packet of a handle. -/
def handle (stale : MlistMember → MlistMember) (i : ι) (pkt : IpcPacket) : Lobby ι :=
  let (daemon, out) := ipcdAnalysisCore stale (sites.addr i) pkt s.daemon
  let joined := acceptsJoin stale (sites.addr i) pkt s.daemon
  { s with
    daemon
    replies := s.replies ++ out
    accepted := if joined then Function.update s.accepted i (s.accepted i + 1) else s.accepted
    sweeps := if joined then Function.update s.sweeps i 0 else s.sweeps }

/-- One step. -/
def step : LobbyAct ι → Option (Lobby ι)
  | .connect i =>
      if s.phase i = .connected then none
      else
        some { s with
          phase := Function.update s.phase i .waiting
          requests := s.requests ++ sites.sends i (.join (sites.info i)) }
  | .pass i =>
      if s.phase i = .waiting ∧ 0 < s.connectSem i then
        some { s with
          phase := Function.update s.phase i .connected
          connectSem := Function.update s.connectSem i (s.connectSem i - 1) }
      else none
  | .send i body =>
      if maySend (sites.pid i) (s.phase i) body then
        some { s with requests := s.requests ++ sites.sends i body }
      else none
  | .request stale i pkt =>
      if (i, pkt) ∈ s.requests then some (s.handle sites stale i pkt) else none
  | .reply i x =>
      if x ∈ s.replies ∧ x.dst = sites.endpoint i then some (s.post i x.payload) else none
  | .thread act =>
      match act with
      | .recv _ _ _ => none
      | .liveSweep =>
          (s.daemon.step .liveSweep).map fun (daemon, out) =>
            { s with daemon, replies := s.replies ++ out, sweeps := fun i => s.sweeps i + 1 }
      | act =>
          (s.daemon.step act).map fun (daemon, out) => { s with daemon, replies := s.replies ++ out }

end Lobby

/-- The runs. -/
def lobbyLts {ι : Type} [DecidableEq ι] (sites : Sites ι) : Lts (Lobby ι) (LobbyAct ι) where
  init := {}
  step := Lobby.step sites

/-! ## The daemon's side -/

section Daemon

variable {d d' : Daemon} {act : DaemonAct} {out : List Send} {m : MlistMember}

/-- Where a member of the table after a step comes from. -/
inductive MemberOrigin (act : DaemonAct) (d : Daemon) (m : MlistMember) : Prop
  | kept (a : MlistMember) (ha : a ∈ d.mlist) (hp : m.pid = a.pid) (hs : act ≠ .liveSweep)
      (hc : m.liveCnt = a.liveCnt)
  | marked (a : MlistMember) (ha : a ∈ d.mlist) (hp : m.pid = a.pid) (hs : act ≠ .liveSweep)
      (hact : activeOf d act = some m.pid) (hc : m.liveCnt = 0)
  | swept (a : MlistMember) (ha : a ∈ d.mlist) (hp : m.pid = a.pid) (hs : act = .liveSweep)
      (hc : m.liveCnt = a.liveCnt + 1)
  | joined (stale : MlistMember → MlistMember) (addr : ℕ) (sendPid : ℤ) (info : JoinExitInfo)
      (hact : act = .recv stale addr ⟨sendPid, .join info⟩)
      (hok : (ipcdJoin stale info addr d.mlist).1.isSome) (hnew : m = newMember info addr)

/-- **Where the members after a step come from.** -/
theorem Daemon.step_member (h : d.step act = some (d', out)) (hm : m ∈ d'.mlist) :
    MemberOrigin act d m := by
  have hpulse : m.pulse ∈ d'.mlist.map MlistMember.pulse := List.mem_map_of_mem hm
  cases Daemon.step_pulse h with
  | kept ha hs hl =>
    rw [hl] at hpulse
    obtain ⟨a, hmem, he⟩ := List.mem_map.1 hpulse
    obtain ⟨hp, hc, -⟩ := Pulse.mk.inj he
    exact .kept a hmem hp.symm hs hc.symm
  | marked pid ha hs hl =>
    rw [hl] at hpulse
    obtain ⟨b, hmem, he⟩ := List.mem_map.1 hpulse
    obtain ⟨hp, hc, -⟩ := Pulse.mk.inj he
    rcases mem_modifyFirst_cases hmem with hold | ⟨a, hold, hpid, rfl⟩
    · exact .kept b hold hp.symm hs hc.symm
    · have hpid' : a.pid = pid := hasPid_iff.1 hpid
      refine .marked a hold hp.symm hs ?_ hc.symm
      rw [ha, ← hp, ← hpid']
  | swept ha hl =>
    rw [hl] at hm
    obtain ⟨a, hmem, hp, hc, -⟩ := mem_ipcLiveThread hm
    exact .swept a hmem hp ha hc
  | removed ha hs hl => exact .kept m (hl.subset hm) rfl hs rfl
  | joined stale addr sendPid info ha hl =>
    have hs : act ≠ .liveSweep := by simp [ha]
    rw [hl] at hm
    rcases ipcdJoin_cases stale info addr d.mlist with ⟨l, hsub, he⟩ | ⟨l, hsub, he⟩
    · rw [he] at hm
      exact .kept m (hsub.subset hm) rfl hs rfl
    · rw [he] at hm
      rcases List.mem_append.1 hm with hm | hm
      · exact .kept m (hsub.subset hm) rfl hs rfl
      · exact .joined stale addr sendPid info ha (by rw [he]; rfl) (List.mem_singleton.1 hm)

/-- The relays and the answers to calls are no acknowledgements of a join. -/
theorem ackTo_ne_joinAck {mlist : List MlistMember} {pid : ℤ} {ack : IpcApiAckList} {call : Magic}
    {r : Send} (h : r ∈ ackTo mlist pid ack call) : r.payload ≠ .joinAck := by
  obtain ⟨m, -, -, rfl⟩ := mem_ackTo h
  simp [ipcdApiAckRelay]

theorem timeoutLoop_ne_joinAck {mlist : List MlistMember} {calls : List IpcApi} {r : Send}
    (h : r ∈ (timeoutLoop mlist calls).2) : r.payload ≠ .joinAck := by
  induction calls with
  | nil => cases h
  | cons a calls ih =>
    simp only [timeoutLoop] at h
    split at h
    · rcases List.mem_append.1 h with h | h
      · exact ackTo_ne_joinAck h
      · exact ih h
    · exact ih h

/-- An acknowledgement of a join goes out for a join that is accepted. -/
theorem Daemon.step_joinAck (h : d.step act = some (d', out)) {r : Send} (hr : r ∈ out)
    (hack : r.payload = .joinAck) :
    ∃ stale addr sendPid info, act = .recv stale addr ⟨sendPid, .join info⟩ ∧
      (ipcdJoin stale info addr d.mlist).1.isSome ∧ r = ipcdJoinAck (newMember info addr) := by
  cases act with
  | recv stale addr pkt =>
    have he : ipcdAnalysisCore stale addr pkt d = (d', out) := Option.some.inj h
    have hout : r ∈ (ipcdAnalysisCore stale addr pkt d).2 := he ▸ hr
    obtain ⟨sendPid, body⟩ := pkt
    cases body with
    | join info =>
      refine ⟨stale, addr, sendPid, info, rfl, ?_⟩
      rcases ipcdJoin_cases stale info addr d.mlist with ⟨l, -, hj⟩ | ⟨l, -, hj⟩
      · simp only [ipcdAnalysisCore, hj] at hout
        rw [List.mem_singleton.1 hout] at hack
        cases hack
      · simp only [ipcdAnalysisCore, hj] at hout ⊢
        exact ⟨rfl, List.mem_singleton.1 hout⟩
    | apiRuntime rt =>
      simp only [ipcdAnalysisCore] at hout
      split at hout
      · unfold ipcdApiFinish at hout
        extract_lets mlist iaal at hout
        split at hout
        · split at hout
          · exact absurd hack (ackTo_ne_joinAck hout)
          · cases hout
        · exact absurd hack (ackTo_ne_joinAck hout)
      · cases hout
    | _ => simp [ipcdAnalysisCore] at hout
  | msgProbe =>
    obtain ⟨p, -, -, rfl⟩ := step_msgProbe_eq_some h
    obtain ⟨a, -, rfl⟩ := List.mem_map.1 hr
    cases hack
  | apiProbe =>
    obtain ⟨p, -, he⟩ := step_apiProbe_eq_some h
    have hout : r ∈ (ipcdApiProbe p { d with recvAlist := d.recvAlist.release }).2 := he ▸ hr
    unfold ipcdApiProbe at hout
    split at hout
    split at hout
    · exact absurd hack (ackTo_ne_joinAck hout)
    · split at hout
      · exact absurd hack (ackTo_ne_joinAck hout)
      · obtain ⟨a, -, rfl⟩ := List.mem_map.1 hout
        cases hack
  | liveSweep =>
    cases h
    cases hr
  | timeoutSweep =>
    cases h
    exact absurd hack (timeoutLoop_ne_joinAck hr)
  | msgPost | msgWait | msgPull =>
    obtain ⟨q, -, -, rfl⟩ := onMsgQueue_eq_some h
    cases hr
  | apiPost | apiWait | apiPull =>
    obtain ⟨q, -, -, rfl⟩ := onApiQueue_eq_some h
    cases hr

/-- A scan goes through where all members in the way are suspended. -/
theorem joinScan_of_suspended {stale : MlistMember → MlistMember} {info : JoinExitInfo} (n i : ℕ)
    {l : List MlistMember} (hsus : ∀ m ∈ l, clashes info m → m.suspend = true)
    (hstale : ∀ m ∈ l, (stale m).suspend = m.suspend) : (joinScan stale info n i l).1 = true := by
  induction n generalizing i l with
  | zero => rfl
  | succ n ih =>
    simp only [joinScan]
    split
    · exact ih _ hsus hstale
    · rename_i m hm
      have hmem : m ∈ l := List.mem_of_getElem? hm
      have hvisit : (joinVisit stale info i m l).1 = true := by
        by_cases hc : clashes info m
        · have hs := hsus m hmem hc
          have hread : (readAfterRemove stale l i m).suspend = true := by
            unfold readAfterRemove
            split
            · rw [hstale m hmem, hs]
            · exact hs
          unfold joinVisit
          extract_lets samePid tmlm' mlist' sameName
          have hs' : tmlm'.suspend = true := by
            show (if samePid = true then readAfterRemove stale l i m else m).suspend = true
            split
            · exact hread
            · exact hs
          rw [if_neg (by simp [hs]), if_neg (by simp [hs'])]
        · rw [joinVisit_of_not_clashes hc]
      have hsub := joinVisit_sublist stale info i m l
      split
      · rename_i he
        rw [he] at hvisit
        cases hvisit
      · rename_i l' he
        rw [he] at hsub
        exact ih _ (fun a ha => hsus a (hsub.subset ha)) fun a ha => hstale a (hsub.subset ha)

/-- A join is accepted where all members in the way are suspended. -/
theorem ipcdJoin_of_suspended {stale : MlistMember → MlistMember} {info : JoinExitInfo} {addr : ℕ}
    {l : List MlistMember} (hsus : ∀ m ∈ l, clashes info m → m.suspend = true)
    (hstale : ∀ m ∈ l, (stale m).suspend = m.suspend) :
    (ipcdJoin stale info addr l).1.isSome := by
  have hscan := joinScan_of_suspended l.length 0 hsus hstale
  unfold ipcdJoin
  split
  · rename_i he
    rw [he] at hscan
    cases hscan
  · rfl

end Daemon

/-! ## What a step does -/

section Steps

variable {ι : Type} [DecidableEq ι] {sites : Sites ι} {s s' : Lobby ι} {a : LobbyAct ι} {i j : ι}

variable (sites) in
/-- What a step can do. -/
inductive LobbyEffect (s s' : Lobby ι) : Prop
  | connect (i : ι) (hp : s.phase i ≠ .connected)
      (he : s' = { s with
        phase := Function.update s.phase i .waiting
        requests := s.requests ++ sites.sends i (.join (sites.info i)) })
  | pass (i : ι) (hp : s.phase i = .waiting) (hsem : 0 < s.connectSem i)
      (he : s' = { s with
        phase := Function.update s.phase i .connected
        connectSem := Function.update s.connectSem i (s.connectSem i - 1) })
  | send (i : ι) (body : PacketBody) (hmay : maySend (sites.pid i) (s.phase i) body = true)
      (he : s' = { s with requests := s.requests ++ sites.sends i body })
  | request (stale : MlistMember → MlistMember) (i : ι) (pkt : IpcPacket)
      (hreq : (i, pkt) ∈ s.requests) (he : s' = s.handle sites stale i pkt)
  | reply (i : ι) (r : Send) (hr : r ∈ s.replies) (hdst : r.dst = sites.endpoint i)
      (he : s' = s.post i r.payload)
  | sweep (he : s' = { s with
      daemon := { s.daemon with mlist := ipcLiveThread s.daemon.mlist }
      sweeps := fun i => s.sweeps i + 1 })
  | thread (act : DaemonAct) (d' : Daemon) (out : List Send)
      (hno : ∀ stale addr pkt, act ≠ .recv stale addr pkt) (hs : act ≠ .liveSweep)
      (hst : s.daemon.step act = some (d', out))
      (he : s' = { s with daemon := d', replies := s.replies ++ out })

/-- **What a step can do**, with what lets it. -/
theorem Lobby.step_effect (h : Lobby.step sites s a = some s') : LobbyEffect sites s s' := by
  cases a with
  | connect i =>
    simp only [Lobby.step] at h
    split at h
    · cases h
    · rename_i hp
      exact .connect i hp (Option.some.inj h).symm
  | pass i =>
    simp only [Lobby.step] at h
    split at h
    · rename_i hp
      exact .pass i hp.1 hp.2 (Option.some.inj h).symm
    · cases h
  | send i body =>
    simp only [Lobby.step] at h
    split at h
    · rename_i hp
      exact .send i body hp (Option.some.inj h).symm
    · cases h
  | request stale i pkt =>
    simp only [Lobby.step] at h
    split at h
    · rename_i hp
      exact .request stale i pkt hp (Option.some.inj h).symm
    · cases h
  | reply i r =>
    simp only [Lobby.step] at h
    split at h
    · rename_i hp
      exact .reply i r hp.1 hp.2 (Option.some.inj h).symm
    · cases h
  | thread act =>
    cases act with
    | recv stale addr pkt => cases h
    | liveSweep =>
      refine .sweep ?_
      simpa [Lobby.step, Daemon.step, eq_comm] using h
    | msgPost | msgWait | msgPull | msgProbe | apiPost | apiWait | apiPull | apiProbe | timeoutSweep =>
      simp only [Lobby.step, Option.map_eq_some_iff] at h
      obtain ⟨⟨d', out⟩, hst, he⟩ := h
      exact .thread _ d' out (by simp) (by simp) hst he.symm

@[simp] theorem Lobby.post_daemon (i : ι) (p : Payload) : (s.post i p).daemon = s.daemon := by
  cases p <;> rfl

@[simp] theorem Lobby.post_phase (i : ι) (p : Payload) : (s.post i p).phase = s.phase := by
  cases p <;> rfl

@[simp] theorem Lobby.post_requests (i : ι) (p : Payload) : (s.post i p).requests = s.requests := by
  cases p <;> rfl

@[simp] theorem Lobby.post_replies (i : ι) (p : Payload) : (s.post i p).replies = s.replies := by
  cases p <;> rfl

@[simp] theorem Lobby.post_accepted (i : ι) (p : Payload) : (s.post i p).accepted = s.accepted := by
  cases p <;> rfl

@[simp] theorem Lobby.post_sweeps (i : ι) (p : Payload) : (s.post i p).sweeps = s.sweeps := by
  cases p <;> rfl

/-- The count of accepted joins never falls. -/
theorem Lobby.accepted_handle_le (stale : MlistMember → MlistMember) (i j : ι) (pkt : IpcPacket) :
    s.accepted j ≤ (s.handle sites stale i pkt).accepted j := by
  unfold Lobby.handle
  show s.accepted j ≤ (if _ then _ else _ : ι → ℕ) j
  split
  · rcases eq_or_ne j i with rfl | hne
    · simp
    · simp [hne]
  · exact le_rfl

/-- A join that is accepted is counted. -/
theorem Lobby.accepted_handle_pos {stale : MlistMember → MlistMember} {pkt : IpcPacket}
    (h : acceptsJoin stale (sites.addr i) pkt s.daemon = true) :
    0 < (s.handle sites stale i pkt).accepted i := by
  unfold Lobby.handle
  show 0 < (if _ then _ else _ : ι → ℕ) i
  rw [if_pos h]
  simp

end Steps

/-! ## The packets of the handles -/

section Packets

variable {ι : Type} [DecidableEq ι] {sites : Sites ι} {s s' : Lobby ι} {a : LobbyAct ι}

variable (sites) in
/-- What the handles have sent. -/
structure PacketInv (s : Lobby ι) : Prop where
  packets : ∀ i pkt, (i, pkt) ∈ s.requests → pkt = sites.joinPacket i ∨
    ∃ body, pkt = ⟨sites.pid i, body⟩ ∧ maySend (sites.pid i) (s.phase i) body = true
  joins : ∀ i, s.phase i ≠ .new → sizeofIpcPacket + 80 < sites.maxSize →
    (i, sites.joinPacket i) ∈ s.requests

/-- What a handle may send it may send later on. -/
theorem maySend_connected {pid : ℤ} {phase : Phase} {body : PacketBody}
    (h : maySend pid phase body = true) : maySend pid .connected body = true := by
  cases body <;> simp_all [maySend]

theorem maySend_waiting {pid : ℤ} {phase : Phase} {body : PacketBody} (hp : phase ≠ .connected)
    (h : maySend pid phase body = true) : maySend pid .waiting body = true := by
  cases body <;> simp_all [maySend]

/-- One step keeps it. -/
theorem PacketInv.step (hI : PacketInv sites s) (h : Lobby.step sites s a = some s') :
    PacketInv sites s' := by
  -- where nothing is sent and no phase changes
  have hsame : s'.requests = s.requests → s'.phase = s.phase → PacketInv sites s' := by
    intro hr hp
    exact ⟨hr ▸ hp ▸ hI.packets, hr ▸ hp ▸ hI.joins⟩
  cases Lobby.step_effect h with
  | connect i hp he =>
    subst he
    refine ⟨?_, ?_⟩
    · intro j pkt hj
      rcases List.mem_append.1 hj with hj | hj
      · rcases hI.packets j pkt hj with hjoin | ⟨body, rfl, hmay⟩
        · exact Or.inl hjoin
        · refine Or.inr ⟨body, rfl, ?_⟩
          rcases eq_or_ne j i with rfl | hne
          · simpa using maySend_waiting hp hmay
          · simpa [hne] using hmay
      · obtain ⟨rfl, rfl⟩ := sites.mem_sends hj
        exact Or.inl rfl
    · intro j hj hfits
      rcases eq_or_ne j i with rfl | hne
      · refine List.mem_append_right _ (List.mem_map.2 ⟨sites.joinPacket j, ?_, rfl⟩)
        rw [ipcDataToDaemon_of_fits _ hfits]
        exact List.mem_singleton.2 rfl
      · exact List.mem_append_left _ (hI.joins j (by simpa [hne] using hj) hfits)
  | pass i hp hsem he =>
    subst he
    refine ⟨?_, ?_⟩
    · intro j pkt hj
      rcases hI.packets j pkt hj with hjoin | ⟨body, rfl, hmay⟩
      · exact Or.inl hjoin
      · refine Or.inr ⟨body, rfl, ?_⟩
        rcases eq_or_ne j i with rfl | hne
        · simpa using maySend_connected hmay
        · simpa [hne] using hmay
    · intro j hj hfits
      rcases eq_or_ne j i with rfl | hne
      · exact hI.joins j (by simp [hp]) hfits
      · exact hI.joins j (by simpa [hne] using hj) hfits
  | send i body hmay he =>
    subst he
    refine ⟨?_, ?_⟩
    · intro j pkt hj
      rcases List.mem_append.1 hj with hj | hj
      · exact hI.packets j pkt hj
      · obtain ⟨rfl, rfl⟩ := sites.mem_sends hj
        exact Or.inr ⟨body, rfl, hmay⟩
    · intro j hj hfits
      exact List.mem_append_left _ (hI.joins j hj hfits)
  | request stale i pkt hreq he =>
    subst he
    exact hsame rfl rfl
  | reply i r hr hdst he =>
    subst he
    exact hsame (by simp) (by simp)
  | sweep he =>
    subst he
    exact hsame rfl rfl
  | thread act d' out hno hs hst he =>
    subst he
    exact hsame rfl rfl

theorem packetInv_reach (h : Reach (lobbyLts sites) Free s) : PacketInv sites s := by
  refine h.invariant (I := PacketInv sites) ?_ ?_
  · refine ⟨?_, ?_⟩
    · intro i pkt hj
      cases hj
    · intro i hi
      exact absurd rfl hi
  · intro s a s' _ hI hst _
    exact hI.step hst

omit [DecidableEq ι] in
/-- A join on the network is that of its handle. -/
theorem PacketInv.join_eq (hI : PacketInv sites s) {i : ι} {sendPid : ℤ} {info : JoinExitInfo}
    (h : (i, ⟨sendPid, .join info⟩) ∈ s.requests) : info = sites.info i := by
  rcases hI.packets i _ h with he | ⟨body, he, hmay⟩
  · injection he with _ hb
    injection hb
  · injection he with _ hb
    rw [← hb] at hmay
    cases hmay

end Packets

/-! ## The table and the acknowledgements -/

section Table

variable {ι : Type} [DecidableEq ι] {sites : Sites ι} {s s' : Lobby ι} {a : LobbyAct ι}

variable (sites) in
/-- The daemon knows only handles that it has accepted, and has acknowledged no others. -/
structure LobbyTable (s : Lobby ι) : Prop where
  acks : ∀ r ∈ s.replies, r.payload = .joinAck → ∃ i, 0 < s.accepted i ∧ r.dst = sites.endpoint i
  own : ∀ m ∈ s.daemon.mlist, ∃ i, 0 < s.accepted i ∧ m.pid = sites.pid i
  alert : ∀ m ∈ s.daemon.mlist, m.suspend = true ↔ 16 ≤ m.liveCnt
  nonneg : ∀ m ∈ s.daemon.mlist, 0 ≤ m.liveCnt

/-- The counts stay at or above zero. -/
theorem nonneg_step {d d' : Daemon} {act : DaemonAct} {out : List Send}
    (h : d.step act = some (d', out)) (hd : ∀ m ∈ d.mlist, 0 ≤ m.liveCnt) :
    ∀ m ∈ d'.mlist, 0 ≤ m.liveCnt := by
  intro m hm
  cases Daemon.step_member h hm with
  | kept a ha hp hs hc =>
    rw [hc]
    exact hd a ha
  | marked a ha hp hs hact hc => exact Int.le_of_eq hc.symm
  | swept a ha hp hs hc =>
    have := hd a ha
    omega
  | joined stale addr sendPid info hact hok hnew =>
    rw [hnew]
    exact Int.le_refl 0

/-- One step keeps it. -/
theorem LobbyTable.step (hI : LobbyTable sites s) (hP : PacketInv sites s)
    (h : Lobby.step sites s a = some s') : LobbyTable sites s' := by
  -- where the daemon does nothing
  have hsame : s'.daemon = s.daemon → s'.replies = s.replies → s'.accepted = s.accepted →
      LobbyTable sites s' := by
    intro hd hr ha
    exact ⟨hr ▸ ha ▸ hI.acks, hd ▸ ha ▸ hI.own, hd ▸ hI.alert, hd ▸ hI.nonneg⟩
  cases Lobby.step_effect h with
  | connect i hp he => subst he; exact hsame rfl rfl rfl
  | pass i hp hsem he => subst he; exact hsame rfl rfl rfl
  | send i body hmay he => subst he; exact hsame rfl rfl rfl
  | reply i r hr hdst he => subst he; exact hsame (by simp) (by simp) (by simp)
  | request stale i pkt hreq he =>
    subst he
    have hst : s.daemon.step (.recv stale (sites.addr i) pkt) =
        some (ipcdAnalysisCore stale (sites.addr i) pkt s.daemon) := rfl
    have hle : ∀ j, s.accepted j ≤ (s.handle sites stale i pkt).accepted j := fun j =>
      s.accepted_handle_le stale i j pkt
    refine ⟨?_, ?_, alert_step hst hI.alert, nonneg_step hst hI.nonneg⟩
    · intro r hr hack
      rcases List.mem_append.1 hr with hr | hr
      · obtain ⟨j, hj, hdst⟩ := hI.acks r hr hack
        exact ⟨j, hj.trans_le (hle j), hdst⟩
      · obtain ⟨stale', addr, sendPid, info, hact, hok, rfl⟩ := Daemon.step_joinAck hst hr hack
        obtain ⟨rfl, rfl, rfl⟩ := DaemonAct.recv.inj hact
        obtain rfl := hP.join_eq hreq
        exact ⟨i, Lobby.accepted_handle_pos hok, rfl⟩
    · intro m hm
      have hkept : ∀ b ∈ s.daemon.mlist, m.pid = b.pid →
          ∃ j, 0 < (s.handle sites stale i pkt).accepted j ∧ m.pid = sites.pid j := by
        intro b hb hp
        obtain ⟨j, hj, hpid⟩ := hI.own b hb
        exact ⟨j, hj.trans_le (hle j), hp.trans hpid⟩
      cases Daemon.step_member hst hm with
      | kept b hb hp hs hc => exact hkept b hb hp
      | marked b hb hp hs hact hc => exact hkept b hb hp
      | swept b hb hp hs hc => exact hkept b hb hp
      | joined stale' addr sendPid info hact hok hnew =>
        obtain ⟨rfl, rfl, rfl⟩ := DaemonAct.recv.inj hact
        obtain rfl := hP.join_eq hreq
        refine ⟨i, Lobby.accepted_handle_pos hok, ?_⟩
        rw [hnew]
        rfl
  | sweep he =>
    subst he
    have hst : s.daemon.step .liveSweep =
        some ({ s.daemon with mlist := ipcLiveThread s.daemon.mlist }, []) := rfl
    refine ⟨hI.acks, ?_, alert_step hst hI.alert, nonneg_step hst hI.nonneg⟩
    intro m hm
    obtain ⟨b, hb, hp, -⟩ := mem_ipcLiveThread hm
    obtain ⟨j, hj, hpid⟩ := hI.own b hb
    exact ⟨j, hj, hp.trans hpid⟩
  | thread act d' out hno hs hst he =>
    subst he
    refine ⟨?_, ?_, alert_step hst hI.alert, nonneg_step hst hI.nonneg⟩
    · intro r hr hack
      rcases List.mem_append.1 hr with hr | hr
      · exact hI.acks r hr hack
      · obtain ⟨stale, addr, sendPid, info, hact, -⟩ := Daemon.step_joinAck hst hr hack
        exact absurd hact (hno stale addr _)
    · intro m hm
      cases Daemon.step_member hst hm with
      | kept b hb hp hs hc | marked b hb hp hs hact hc | swept b hb hp hs hc =>
        obtain ⟨j, hj, hpid⟩ := hI.own b hb
        exact ⟨j, hj, hp.trans hpid⟩
      | joined stale addr sendPid info hact hok hnew => exact absurd hact (hno stale addr _)

theorem lobbyTable_reach (h : Reach (lobbyLts sites) Free s) : LobbyTable sites s := by
  refine h.invariant (I := LobbyTable sites) ?_ ?_
  · refine ⟨?_, ?_, ?_, ?_⟩ <;> intro x hx <;> cases hx
  · intro s a s' hr hI hst _
    exact hI.step (packetInv_reach hr) hst

end Table

/-! ## A handle that is back has been accepted -/

section Connected

variable {ι : Type} [DecidableEq ι] {sites : Sites ι} {s s' : Lobby ι} {a : LobbyAct ι}

/-- A handle whose semaphore has been posted, or that has waited for it, has been accepted. -/
def Posted (s : Lobby ι) : Prop :=
  ∀ i, 0 < s.connectSem i ∨ s.phase i = .connected → 0 < s.accepted i

/-- One step keeps it. -/
theorem Posted.step (hend : Function.Injective sites.endpoint) (hI : Posted s) (hT : LobbyTable sites s)
    (h : Lobby.step sites s a = some s') : Posted s' := by
  cases Lobby.step_effect h with
  | connect i hp he =>
    subst he
    intro j hj
    refine hI j (hj.imp_right fun hj => ?_)
    rcases eq_or_ne j i with rfl | hne
    · simp at hj
    · simpa [hne] using hj
  | pass i hp hsem he =>
    subst he
    intro j hj
    rcases eq_or_ne j i with rfl | hne
    · exact hI j (Or.inl hsem)
    · exact hI j (by simpa [hne] using hj)
  | send i body hmay he => subst he; exact hI
  | reply i r hr hdst he =>
    subst he
    intro j hj
    rw [Lobby.post_accepted]
    rw [Lobby.post_phase] at hj
    cases hpay : r.payload with
    | joinAck =>
      rw [hpay] at hj
      rcases eq_or_ne j i with rfl | hne
      · -- the acknowledgement at this socket is for this handle
        obtain ⟨k, hk, hdst'⟩ := hT.acks r hr hpay
        rwa [hend (hdst.symm.trans hdst')]
      · exact hI j (by simpa [Lobby.post, hne] using hj)
    | _ =>
      rw [hpay] at hj
      exact hI j hj
  | request stale i pkt hreq he =>
    subst he
    intro j hj
    exact (hI j hj).trans_le (s.accepted_handle_le stale i j pkt)
  | sweep he => subst he; exact hI
  | thread act d' out hno hs hst he => subst he; exact hI

/-- **Where `ipc_creat` has returned, the daemon has accepted a join of the handle**, whatever was
lost, delayed or repeated on the way. -/
theorem connected_accepted (hend : Function.Injective sites.endpoint)
    (h : Reach (lobbyLts sites) Free s) {i : ι} (hi : s.phase i = .connected) : 0 < s.accepted i := by
  have hposted : Posted s := by
    refine h.invariant (I := Posted) ?_ ?_
    · intro i hi
      simp [lobbyLts] at hi
    · intro s a s' hr hI hst _
      exact hI.step hend (lobbyTable_reach hr) hst
  exact hposted i (Or.inr hi)

end Connected

/-- Two handles on one machine. -/
def sampleSites : Sites Bool where
  maxSize := 4096
  handle b := if b then ⟨1000100, [97], 9001, 9002, [], [], [], 0⟩
    else ⟨1000200, [98], 9003, 9004, [], [], [], 0⟩
  addr _ := 1

theorem sampleSites_endpoint : Function.Injective sampleSites.endpoint := by
  intro i j h
  cases i <;> cases j <;> first | rfl | exact absurd h (by decide)

theorem sampleSites_pid : Function.Injective sampleSites.pid := by
  intro i j h
  cases i <;> cases j <;> first | rfl | exact absurd h (by decide)

/-- A handle joins, and the acknowledgement arrives twice. -/
def joinRun (i : Bool) : List (LobbyAct Bool) :=
  [.connect i, .request id i (sampleSites.joinPacket i),
    .reply i ⟨sampleSites.endpoint i, sampleSites.pid i, .joinAck⟩,
    .reply i ⟨sampleSites.endpoint i, sampleSites.pid i, .joinAck⟩, .pass i]

/-- Both handles get in. -/
theorem connected_accepted_both : ∃ s, Reach (lobbyLts sampleSites) Free s ∧
    0 < s.accepted true ∧ 0 < s.accepted false := by
  have hany : ((lobbyLts sampleSites).run (lobbyLts sampleSites).init
      (joinRun true ++ joinRun false)).any (fun s =>
        decide (s.phase true = .connected ∧ s.phase false = .connected)) = true := by
    decide +kernel
  obtain ⟨s, hrun, hback⟩ := (Option.any_eq_true _ _).1 hany
  have hreach : Reach (lobbyLts sampleSites) Free s := Reach.of_run hrun
  obtain ⟨hone, htwo⟩ := of_decide_eq_true hback
  exact ⟨s, hreach, connected_accepted sampleSites_endpoint hreach hone,
    connected_accepted sampleSites_endpoint hreach htwo⟩

/-! ## A handle that was left out gets in -/

section Retry

variable {ι : Type} [DecidableEq ι] {sites : Sites ι} {s s' : Lobby ι} {a : LobbyAct ι} {i : ι}

variable (sites) in
/-- What a handle that is not back has left in the table has heard nothing since its last join. -/
def Silent (s : Lobby ι) : Prop :=
  ∀ i, s.phase i ≠ .connected → ∀ m ∈ s.daemon.mlist, m.pid = sites.pid i → s.sweeps i ≤ m.liveCnt

/-- A sign of life is a join that is accepted, or the handle is back. -/
theorem connected_of_active {d : Daemon} {stale : MlistMember → MlistMember} {addr : ℕ} {pid p : ℤ}
    {phase : Phase} {body : PacketBody} (hmay : maySend pid phase body = true)
    (hact : activeOf d (.recv stale addr ⟨pid, body⟩) = some p) : phase = .connected ∧ p = pid := by
  cases body with
  | live info =>
    simp only [maySend, Bool.and_eq_true, decide_eq_true_eq, beq_iff_eq] at hmay
    exact ⟨hmay.1, (Option.some.inj hact).symm.trans hmay.2⟩
  | apiCall api =>
    exact ⟨by simpa [maySend] using hmay, (Option.some.inj hact).symm⟩
  | msgSend msg =>
    exact ⟨by simpa [maySend] using hmay, (Option.some.inj hact).symm⟩
  | join info => cases hmay
  | _ => cases hact

/-- What a join, accepted or not, does to the sweeps. -/
theorem Lobby.sweeps_handle (stale : MlistMember → MlistMember) (i j : ι) (pkt : IpcPacket) :
    (s.handle sites stale i pkt).sweeps j =
      if acceptsJoin stale (sites.addr i) pkt s.daemon = true ∧ j = i then 0 else s.sweeps j := by
  unfold Lobby.handle
  show (if _ then _ else _ : ι → ℕ) j = _
  by_cases hj : acceptsJoin stale (sites.addr i) pkt s.daemon = true
  · rcases eq_or_ne j i with rfl | hne
    · simp [hj]
    · simp [hj, hne]
  · simp [hj]

/-- One step keeps it. -/
theorem Silent.step (hpids : Function.Injective sites.pid) (hI : Silent sites s)
    (hP : PacketInv sites s) (hT : LobbyTable sites s) (h : Lobby.step sites s a = some s') :
    Silent sites s' := by
  cases Lobby.step_effect h with
  | connect i hp he =>
    subst he
    intro j hj
    refine hI j ?_
    rcases eq_or_ne j i with rfl | hne
    · exact hp
    · simpa [hne] using hj
  | pass i hp hsem he =>
    subst he
    intro j hj
    refine hI j ?_
    rcases eq_or_ne j i with rfl | hne
    · simp at hj
    · simpa [hne] using hj
  | send i body hmay he => subst he; exact hI
  | reply i r hr hdst he =>
    subst he
    intro j hj
    simpa using hI j (by simpa using hj)
  | sweep he =>
    subst he
    intro j hj m hm hpid
    obtain ⟨b, hb, hp, hc, -⟩ := mem_ipcLiveThread hm
    have hold := hI j hj b hb (hp.symm.trans hpid)
    push_cast
    omega
  | thread act d' out hno hs hst he =>
    subst he
    intro j hj m hm hpid
    cases Daemon.step_member hst hm with
    | kept b hb hp hs hc =>
      rw [hc]
      exact hI j hj b hb (hp.symm.trans hpid)
    | marked b hb hp hs hact hc =>
      cases act with
      | recv stale addr pkt => exact absurd rfl (hno stale addr pkt)
      | _ => cases hact
    | swept b hb hp hact hc => exact absurd hact hs
    | joined stale addr sendPid info hact hok hnew => exact absurd hact (hno stale addr _)
  | request stale i pkt hreq he =>
    subst he
    have hst : s.daemon.step (.recv stale (sites.addr i) pkt) =
        some (ipcdAnalysisCore stale (sites.addr i) pkt s.daemon) := rfl
    intro j hj m hm hpid
    rw [Lobby.sweeps_handle]
    have hnonneg : 0 ≤ m.liveCnt := nonneg_step hst hT.nonneg m hm
    split
    · exact hnonneg
    · rename_i hno
      cases Daemon.step_member hst hm with
      | kept b hb hp hs hc =>
        rw [hc]
        exact hI j hj b hb (hp.symm.trans hpid)
      | swept b hb hp hact hc => cases hact
      | joined stale' addr sendPid info hact hok hnew =>
        obtain ⟨rfl, rfl, rfl⟩ := DaemonAct.recv.inj hact
        obtain rfl := hP.join_eq hreq
        have hij : j = i := hpids (hpid.symm.trans (by rw [hnew]; rfl))
        exact absurd ⟨hok, hij⟩ hno
      | marked b hb hp hs hact hc =>
        rcases hP.packets i pkt hreq with rfl | ⟨body, rfl, hmay⟩
        · -- an accepted join of this very handle
          have hact' : (if acceptsJoin stale (sites.addr i) (sites.joinPacket i) s.daemon then
              some (sites.pid i) else none) = some m.pid := hact
          split at hact'
          · rename_i hacc
            have hij : j = i := hpids (hpid.symm.trans (Option.some.inj hact').symm)
            exact absurd ⟨hacc, hij⟩ hno
          · cases hact'
        · obtain ⟨hback, hpid'⟩ := connected_of_active hmay hact
          have hij : j = i := hpids (hpid.symm.trans hpid')
          exact absurd (hij ▸ hback) hj

theorem silent_reach (hpids : Function.Injective sites.pid) (h : Reach (lobbyLts sites) Free s) :
    Silent sites s := by
  refine h.invariant (I := Silent sites) ?_ ?_
  · intro i _ m hm
    cases hm
  · intro s a s' hr hI hst _
    exact hI.step hpids (packetInv_reach hr) (lobbyTable_reach hr) hst

/-- What has been sent stays on the network. -/
theorem Lobby.replies_run {as : List (LobbyAct ι)} (h : (lobbyLts sites).run s as = some s') {r : Send}
    (hr : r ∈ s.replies) : r ∈ s'.replies := by
  induction as generalizing s with
  | nil =>
    cases h
    exact hr
  | cons a as ih =>
    obtain ⟨t, hst, hrest⟩ := Lts.run_cons h
    refine ih hrest ?_
    cases Lobby.step_effect hst with
    | connect i hp he | pass i hp hsem he | send i body hmay he | sweep he => subst he; exact hr
    | reply i x hx hdst he => subst he; simpa using hr
    | request stale i pkt hreq he => subst he; exact List.mem_append_left _ hr
    | thread act d' out hno hs hst he => subst he; exact List.mem_append_left _ hr

/-- **A lost acknowledgement does not keep a handle out.**  While `ipc_creat` waits and the daemon has
not accepted the handle yet, or sixteen sweeps have gone by since it last did, a join of the handle that
arrives is accepted, if all members of its name are suspended or its own; and whenever the
acknowledgement arrives after that, `ipc_creat` returns. -/
theorem retry_connects (hpids : Function.Injective sites.pid) (h : Reach (lobbyLts sites) Free s)
    (hfits : sizeofIpcPacket + 80 < sites.maxSize) (hwait : s.phase i = .waiting)
    (hold : s.accepted i = 0 ∨ 16 ≤ s.sweeps i)
    (hname : ∀ m ∈ s.daemon.mlist, m.pname = (sites.info i).joinExitProcessName →
      m.pid = sites.pid i ∨ m.suspend = true)
    {stale : MlistMember → MlistMember} (hstale : ∀ m ∈ s.daemon.mlist, (stale m).suspend = m.suspend) :
    ∃ s₁, Lobby.step sites s (.request stale i (sites.joinPacket i)) = some s₁ ∧
      s₁.accepted i = s.accepted i + 1 ∧
      ∀ as s₂, (lobbyLts sites).run s₁ as = some s₂ → s₂.phase i = .waiting →
        ∃ s₃ s₄, Lobby.step sites s₂ (.reply i ⟨sites.endpoint i, sites.pid i, .joinAck⟩) = some s₃ ∧
          Lobby.step sites s₃ (.pass i) = some s₄ ∧ s₄.phase i = .connected := by
  have hT := lobbyTable_reach h
  have hreq : (i, sites.joinPacket i) ∈ s.requests :=
    (packetInv_reach h).joins i (by simp [hwait]) hfits
  -- what the handle has left behind is suspended
  have hleft : ∀ m ∈ s.daemon.mlist, m.pid = sites.pid i → m.suspend = true := by
    intro m hm hpid
    rcases hold with hzero | hlong
    · obtain ⟨j, hj, hpid'⟩ := hT.own m hm
      rw [hpids (hpid.symm.trans hpid')] at hzero
      omega
    · have hcnt := silent_reach hpids h i (by simp [hwait]) m hm hpid
      exact (hT.alert m hm).2 (by omega)
  have hclash : ∀ m ∈ s.daemon.mlist, clashes (sites.info i) m → m.suspend = true := by
    intro m hm hc
    rcases clashes_iff.1 hc with hp | hn
    · exact hleft m hm hp
    · exact (hname m hm hn).elim (hleft m hm) id
  have hacc : acceptsJoin stale (sites.addr i) (sites.joinPacket i) s.daemon = true :=
    ipcdJoin_of_suspended hclash hstale
  refine ⟨s.handle sites stale i (sites.joinPacket i), if_pos hreq, ?_, ?_⟩
  · unfold Lobby.handle
    show (if _ then _ else _ : ι → ℕ) i = _
    rw [if_pos hacc]
    simp
  · intro as s₂ hrun hwait₂
    have hsent : (⟨sites.endpoint i, sites.pid i, .joinAck⟩ : Send) ∈
        (s.handle sites stale i (sites.joinPacket i)).replies := by
      refine List.mem_append_right _ ?_
      rcases ipcdJoin_cases stale (sites.info i) (sites.addr i) s.daemon.mlist with
        ⟨l, -, he⟩ | ⟨l, -, he⟩
      · have hsome : (ipcdJoin stale (sites.info i) (sites.addr i) s.daemon.mlist).1.isSome := hacc
        rw [he] at hsome
        cases hsome
      · simp only [he]
        exact List.mem_singleton.2 rfl
    have harrives := Lobby.replies_run hrun hsent
    have hpass : (s₂.post i .joinAck).phase i = .waiting ∧ 0 < (s₂.post i .joinAck).connectSem i := by
      refine ⟨by rwa [Lobby.post_phase], ?_⟩
      simp [Lobby.post]
    exact ⟨s₂.post i .joinAck, _, if_pos ⟨harrives, rfl⟩, if_pos hpass, by simp⟩

end Retry

/-- The acknowledgement of the first join is lost. -/
def lostAckRun : List (LobbyAct Bool) :=
  [.connect true, .request id true (sampleSites.joinPacket true)] ++
    List.replicate 16 (.thread .liveSweep)

/-- After sixteen sweeps the handle joins again and gets in. -/
theorem retry_connects_lostAck : ∃ s, Reach (lobbyLts sampleSites) Free s ∧ s.accepted true = 1 ∧
    ∃ s₁, Lobby.step sampleSites s (.request id true (sampleSites.joinPacket true)) = some s₁ ∧
      s₁.accepted true = s.accepted true + 1 ∧
      ∀ as s₂, (lobbyLts sampleSites).run s₁ as = some s₂ → s₂.phase true = .waiting →
        ∃ s₃ s₄, Lobby.step sampleSites s₂
            (.reply true ⟨sampleSites.endpoint true, sampleSites.pid true, .joinAck⟩) = some s₃ ∧
          Lobby.step sampleSites s₃ (.pass true) = some s₄ ∧ s₄.phase true = .connected := by
  have hany : ((lobbyLts sampleSites).run (lobbyLts sampleSites).init lostAckRun).any (fun s =>
      decide (s.phase true = .waiting ∧ s.accepted true = 1 ∧ 16 ≤ s.sweeps true ∧
        s.daemon.mlist.all fun m => m.pid = sampleSites.pid true)) = true := by
    decide +kernel
  obtain ⟨s, hrun, hs⟩ := (Option.any_eq_true _ _).1 hany
  have hreach : Reach (lobbyLts sampleSites) Free s := Reach.of_run hrun
  obtain ⟨hwait, hone, hlong, hall⟩ := of_decide_eq_true hs
  refine ⟨s, hreach, hone, retry_connects sampleSites_pid hreach (by decide) hwait (Or.inr hlong) ?_ ?_⟩
  · intro m hm _
    exact Or.inl (by simpa using List.all_eq_true.1 hall m hm)
  · intro m _
    rfl

end EasyIpc

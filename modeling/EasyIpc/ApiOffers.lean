import EasyIpc.CrossTalk

/-!
# Functions for the calls that are relayed

A process registers an API in its own `api_list` and with the daemon, and unregisters it with the
daemon only.  The daemon relays a call to a process whose member lists the API, and the thread that is
created there for the call looks its function up in `api_list`.

* `Offered` — the processes have a function for every name that the daemon lists for them, or is about
  to list, and for every call that is on its way to them or with them.
* `relayed_has_function` — so in no run does a thread find no function for its call.
-/

namespace EasyIpc

open FirstMatch Concurrent Transition

/-- The process has a function of the name. -/
def Offers (p : Proc) (name : CStr) : Prop := name ∈ p.ipc.apiList.map IpcApiMapMember.msgName

/-- It finds the function of a call. -/
theorem Offers.callreal {p : Proc} {ia : IpcApi} (h : Offers p ia.apiName) :
    ∃ imm, callreal p.ipc ia = some imm := by
  obtain ⟨e, he, hname⟩ := List.mem_map.1 h
  refine Option.isSome_iff_exists.1 (List.find?_isSome.2 ⟨e, he, ?_⟩)
  simpa using hname

/-- What is offered, listed and relayed.  The processes and the members are who they say they are, so a
name that a process registers is listed for this process. -/
structure Offered (net : Net) (s : System) : Prop where
  info : ∀ pid, (s.procs pid).ipc.joinExitInfo = (net.handle pid).joinExitInfo
  joins : ∀ pkt ∈ s.up, ∀ info, pkt.body = .join info →
    pkt.sendPid ∈ net.procs ∧ info = (net.handle pkt.sendPid).joinExitInfo
  idents : ∀ k ∈ idents s.daemon.mlist, k.pid ∈ net.procs ∧ k = net.ident k.pid
  up : ∀ pkt ∈ s.up, ∀ info, pkt.body = .apiRegister info →
    Offers (s.procs info.registerProcessPid) (snprintf ipcMsgMaxSize info.registerMsgName)
  members : ∀ k ∈ s.daemon.mlist.map MlistMember.profile, ∀ name ∈ k.apis,
    Offers (s.procs k.ident.pid) name
  down : ∀ x ∈ s.down, ∀ a, x.payload = .apiRelay a → x.sendPid ∈ net.procs ∧
    x.dst = (net.ident x.sendPid).apiEndpoint ∧ Offers (s.procs x.sendPid) a.apiName
  held : ∀ pid, ∀ a ∈ (s.procs pid).held, Offers (s.procs pid) a.apiName

theorem offered_init (net : Net) : Offered net (sysLts net).init where
  info := fun _ => rfl
  joins := by simp [sysLts]
  idents := by simp [sysLts, EasyIpc.idents]
  up := by simp [sysLts]
  members := by simp [sysLts]
  down := by simp [sysLts]
  held := by simp [sysLts, Proc.held]

theorem snprintf_snprintf (s : CStr) :
    snprintf ipcMsgMaxSize (snprintf ipcMsgMaxSize s) = snprintf ipcMsgMaxSize s :=
  snprintf_of_lt (length_snprintf_lt (by decide) s)

section Process

variable {net : Net} {maxSize : ℕ} {p : Proc} {act : ProcAct} {o : ProcOut}

/-- Functions are never taken off `api_list`. -/
theorem Proc.step_apiList (h : p.step maxSize act = some o) :
    p.ipc.apiList ⊆ o.proc.ipc.apiList := by
  cases act with
  | notice body =>
    simp only [Proc.step] at h
    split at h
    · cases h
      exact fun _ => id
    · cases h
  | registerApi name fn =>
    simp only [Proc.step, ipcRegisterApi] at h
    split at h
    · cases h
      exact fun _ => id
    · cases h
      exact List.subset_append_left _ _
  | unregisterApi name =>
    cases h
    exact fun _ => id
  | callApi pname apiName data timeout =>
    cases h
    exact fun _ => id
  | recvProbe =>
    obtain ⟨q, hq, rfl⟩ := Option.map_eq_some_iff.1 h
    unfold ipcApiRecvProbe at hq
    split at hq
    · cases hq
    · cases hq
      exact fun _ => id
  | begin i ptime =>
    obtain ⟨ia, -, rfl⟩ := Option.map_eq_some_iff.1 h
    split <;> exact fun _ => id
  | finish i ptime ret retData =>
    obtain ⟨⟨ia, imm⟩, -, rfl⟩ := Option.map_eq_some_iff.1 h
    exact fun _ => id

theorem Offers.step (h : p.step maxSize act = some o) {name : CStr} (ho : Offers p name) :
    Offers o.proc name :=
  List.map_subset IpcApiMapMember.msgName (Proc.step_apiList h) ho

/-- A process has the function when it registers the name. -/
theorem Proc.step_register (h : p.step maxSize act = some o) {pkt : IpcPacket} (hpkt : pkt ∈ o.packets)
    {info : RegisterInfo} (hinfo : pkt.body = .apiRegister info) :
    info.registerProcessPid = p.ipc.pid ∧
      Offers o.proc (snprintf ipcMsgMaxSize info.registerMsgName) := by
  cases act with
  | notice body =>
    simp only [Proc.step] at h
    split at h
    · rename_i hnotice
      cases h
      rw [mem_ipcDataToDaemon hpkt] at hinfo
      have hbody : body = .apiRegister info := hinfo
      rw [hbody] at hnotice
      cases hnotice
    · cases h
  | registerApi name fn =>
    simp only [Proc.step, ipcRegisterApi] at h
    split at h
    · cases h
      cases hpkt
    · cases h
      rw [mem_ipcDataToDaemon hpkt] at hinfo
      cases hinfo
      refine ⟨rfl, ?_⟩
      rw [snprintf_snprintf]
      simp [Offers]
  | unregisterApi name =>
    cases h
    simp only [ipcUnregisterApi] at hpkt
    split at hpkt
    · cases hpkt
    · split at hpkt
      · rw [mem_ipcDataToDaemon hpkt] at hinfo
        cases hinfo
      · cases hpkt
  | callApi pname apiName data timeout =>
    cases h
    rw [mem_ipcDataToDaemon hpkt] at hinfo
    cases hinfo
  | recvProbe =>
    obtain ⟨q, -, rfl⟩ := Option.map_eq_some_iff.1 h
    cases hpkt
  | begin i ptime =>
    obtain ⟨ia, -, rfl⟩ := Option.map_eq_some_iff.1 h
    split at hpkt
    · cases hpkt
    · rw [mem_ipcDataToDaemon hpkt] at hinfo
      cases hinfo
  | finish i ptime ret retData =>
    obtain ⟨⟨ia, imm⟩, -, rfl⟩ := Option.map_eq_some_iff.1 h
    rw [mem_ipcDataToDaemon hpkt] at hinfo
    cases hinfo

/-- A process keeps its name and ports. -/
theorem Proc.step_joinExitInfo (h : p.step maxSize act = some o) :
    o.proc.ipc.joinExitInfo = p.ipc.joinExitInfo := by
  cases Proc.step_rpc h with
  | quiet hinfo _ _ _ _ _ _ => exact hinfo
  | call _ _ _ _ hproc _ _ _ => rw [hproc]; rfl
  | finish _ _ _ _ _ _ _ hproc _ _ _ => rw [hproc]

/-- It joins as itself. -/
theorem Proc.step_join (h : p.step maxSize act = some o) {pkt : IpcPacket} (hpkt : pkt ∈ o.packets)
    {info : JoinExitInfo} (hinfo : pkt.body = .join info) :
    pkt.sendPid = p.ipc.pid ∧ info = p.ipc.joinExitInfo := by
  have hno : ∀ {n : ℕ} {body : PacketBody}, o.packets = List.replicate n ⟨p.ipc.pid, body⟩ →
      body = .join info := by
    intro n body hpkts
    rw [hpkts] at hpkt
    rw [List.eq_of_mem_replicate hpkt] at hinfo
    exact hinfo
  cases Proc.step_rpc h with
  | quiet _ _ _ _ hpkts _ _ =>
    obtain ⟨hsend, hbody⟩ := hpkts pkt hpkt
    rw [hinfo] at hbody
    exact ⟨hsend, hbody⟩
  | call _ _ _ _ _ hpkts _ _ =>
    obtain ⟨n, -, hn⟩ := hpkts
    cases hno hn
  | finish _ _ _ _ _ _ _ _ hpkts _ _ =>
    obtain ⟨n, -, hn⟩ := hpkts
    cases hno hn

/-- A process gets no call but by `recv`. -/
theorem Proc.step_held_subset (h : p.step maxSize act = some o) : ∀ a ∈ o.proc.held, a ∈ p.held := by
  cases Proc.step_rpc h with
  | quiet _ _ hheld _ _ _ _ => exact hheld
  | call _ _ _ _ hproc _ _ _ =>
    rw [hproc]
    exact fun _ => id
  | finish i ia imm ptime ret retData hrun hproc _ _ _ =>
    rw [hproc]
    intro a ha
    simp only [Proc.held, List.mem_append, List.mem_map] at ha ⊢
    rcases ha with ha | ⟨x, hx, rfl⟩
    · exact Or.inl ha
    · exact Or.inr ⟨x, List.mem_of_mem_eraseIdx hx, rfl⟩

end Process

section DaemonStep

variable {net : Net} {d d' : Daemon} {act : DaemonAct} {out : List Send} {x : Send} {a : IpcApi}
  {procs : ℤ → Proc}

/-- A call is relayed to a member that lists the API. -/
theorem Daemon.step_relay (h : d.step act = some (d', out)) (hx : x ∈ out)
    (hrelay : x.payload = .apiRelay a) :
    ∃ m ∈ d.mlist, x = ipcdRelayApi m a ∧ a.apiName ∈ m.apiList.map MMember.msgName := by
  have hno : ∀ {l pid ack call}, x ∉ ackTo l pid ack call := by
    intro l pid ack call hin
    obtain ⟨m, -, -, rfl⟩ := mem_ackTo hin
    cases hrelay
  cases Daemon.step_rpc h with
  | quiet _ _ _ _ _ hout =>
    have hrpc := hout x hx
    rw [hrelay] at hrpc
    cases hrpc
  | accept _ _ _ _ _ _ he =>
    cases he
    cases hx
  | probe p _ _ he =>
    rcases ipcdApiProbe_cases p { d with recvAlist := d.recvAlist.release } with
      ⟨-, ret, -, hp⟩ | ⟨-, hp⟩
    · rw [hp] at he
      cases he
      exact absurd hx hno
    · rw [hp] at he
      cases he
      obtain ⟨m, hm, rfl⟩ := List.mem_map.1 hx
      cases hrelay
      obtain ⟨hmem, -, -, hlists⟩ := mem_apiProbeScan hm
      exact ⟨m, hmem, rfl, listsName_iff.1 hlists⟩
  | finish _ _ sendPid rt _ _ he =>
    have hout : out = (ipcdApiFinish sendPid rt d).2 := congrArg Prod.snd he
    rw [hout] at hx
    unfold ipcdApiFinish at hx
    extract_lets mlist iaal at hx
    split at hx
    · split at hx
      · exact absurd hx hno
      · cases hx
    · exact absurd hx hno
  | sweep _ he =>
    have hout : out = (timeoutLoop d.mlist d.recvAcklist).2 := congrArg Prod.snd he
    obtain ⟨b, -, -, hin⟩ := mem_timeoutLoop (hout ▸ hx)
    exact absurd hin hno

/-- The names that the daemon lists after a step are names of functions. -/
theorem Offered.step_members (h : d.step act = some (d', out))
    (hmembers : ∀ k ∈ d.mlist.map MlistMember.profile, ∀ name ∈ k.apis,
      Offers (procs k.ident.pid) name)
    (hrecv : ∀ stale addr sendPid info, act = .recv stale addr ⟨sendPid, .apiRegister info⟩ →
      Offers (procs info.registerProcessPid) (snprintf ipcMsgMaxSize info.registerMsgName)) :
    ∀ k ∈ d'.mlist.map MlistMember.profile, ∀ name ∈ k.apis, Offers (procs k.ident.pid) name := by
  have hsub : ∀ l : List MlistMember, l.Sublist d.mlist → ∀ k ∈ l.map MlistMember.profile,
      ∀ name ∈ k.apis, Offers (procs k.ident.pid) name := fun l hl k hk =>
    hmembers k ((hl.map MlistMember.profile).subset hk)
  have hmodify : ∀ (p : MlistMember → Bool) (f : MlistMember → MlistMember),
      (∀ m, (f m).pid = m.pid) →
      (∀ m ∈ d.mlist, p m = true → ∀ name ∈ (f m).apiList.map MMember.msgName,
        name ∈ m.apiList.map MMember.msgName ∨ Offers (procs m.pid) name) →
      ∀ k ∈ (modifyFirst p f d.mlist).map MlistMember.profile, ∀ name ∈ k.apis,
        Offers (procs k.ident.pid) name := by
    intro p f hpid hnames k hk name hname
    obtain ⟨b, hb, rfl⟩ := List.mem_map.1 hk
    rcases mem_modifyFirst_cases hb with hb | ⟨m, hm, hp, rfl⟩
    · exact hmembers _ (List.mem_map_of_mem hb) name hname
    · show Offers (procs (f m).pid) name
      rw [hpid m]
      rcases hnames m hm hp name hname with hold | hnew
      · exact hmembers _ (List.mem_map_of_mem hm) name hold
      · exact hnew
  cases Daemon.step_mlist h with
  | kept hprofile =>
    rw [hprofile]
    exact hmembers
  | registerApi stale addr sendPid info ha hl =>
    rw [hl]
    refine hmodify _ _ (fun _ => rfl) fun m hm hp name hname => ?_
    have hpid : m.pid = info.registerProcessPid := hasPid_iff.1 hp
    simp only [map_registerName] at hname
    split at hname
    · exact Or.inl hname
    · rcases List.mem_append.1 hname with hname | hname
      · exact Or.inl hname
      · rw [List.mem_singleton.1 hname, hpid]
        exact Or.inr (hrecv stale addr sendPid info ha)
  | registerMsg stale addr sendPid info ha hl =>
    rw [hl]
    exact hmodify _ _ (fun _ => rfl) fun m hm hp name hname => Or.inl hname
  | unregisterApi stale addr sendPid info ha hl =>
    rw [hl]
    refine hmodify _ _ (fun _ => rfl) fun m hm hp name hname => Or.inl ?_
    simp only [map_unregisterName] at hname
    exact List.mem_of_mem_erase hname
  | unregisterMsg stale addr sendPid info ha hl =>
    rw [hl]
    exact hmodify _ _ (fun _ => rfl) fun m hm hp name hname => Or.inl hname
  | removed stale addr sendPid info ha hl =>
    rw [hl]
    exact hsub _ (ipcdMlistRemoveViaPid_sublist _ _)
  | joined stale addr sendPid info ha hl =>
    rw [hl]
    rcases ipcdJoin_cases stale info addr d.mlist with ⟨l, hsubl, he⟩ | ⟨l, hsubl, he⟩
    · rw [he]
      exact hsub l hsubl
    · rw [he, List.map_append]
      intro k hk
      rcases List.mem_append.1 hk with hk | hk
      · exact hsub l hsubl k hk
      · -- the new member lists nothing
        rw [List.map_singleton, List.mem_singleton] at hk
        subst hk
        intro name hname
        cases hname

end DaemonStep

section SystemStep

variable {net : Net} {s s' : System} {i : ℕ} {pid : ℤ}

/-- A step of a process takes no function away from any. -/
theorem Offers.update {act : ProcAct} {o : ProcOut} {q : ℤ} {name : CStr}
    (ho : (s.procs q).step net.maxSize act = some o) (h : Offers (s.procs pid) name) :
    Offers (Function.update s.procs q o.proc pid) name := by
  by_cases hq : pid = q
  · subst hq
    rw [Function.update_self]
    exact h.step ho
  · rw [Function.update_of_ne hq]
    exact h

theorem Offered.pid_eq (h : Offered net s) (pid : ℤ) : (s.procs pid).ipc.pid = pid :=
  congrArg JoinExitInfo.joinExitProcessPid (h.info pid)

theorem Offered.stepProc (h : Offered net s) {act : ProcAct}
    (hstep : s.stepProc net pid act = some s') : Offered net s' := by
  unfold System.stepProc at hstep
  split at hstep
  · rename_i hproc
    obtain ⟨o, ho, rfl⟩ := Option.map_eq_some_iff.1 hstep
    constructor
    case info =>
      refine (Function.forall_update_iff s.procs fun q p =>
        p.ipc.joinExitInfo = (net.handle q).joinExitInfo).2 ⟨?_, fun q _ => h.info q⟩
      exact (Proc.step_joinExitInfo ho).trans (h.info pid)
    case joins =>
      intro pkt hpkt info hinfo
      rcases List.mem_append.1 hpkt with hpkt | hpkt
      · exact h.joins pkt hpkt info hinfo
      · obtain ⟨hsend, hown⟩ := Proc.step_join ho hpkt hinfo
        rw [hsend, h.pid_eq]
        exact ⟨hproc, hown.trans (h.info pid)⟩
    case idents => exact h.idents
    case up =>
      intro pkt hpkt info hinfo
      rcases List.mem_append.1 hpkt with hpkt | hpkt
      · exact (h.up pkt hpkt info hinfo).update ho
      · obtain ⟨hpid, hoffers⟩ := Proc.step_register ho hpkt hinfo
        rw [hpid, h.pid_eq]
        show Offers (Function.update s.procs pid o.proc pid) _
        rw [Function.update_self]
        exact hoffers
    case members => exact fun k hk name hname => (h.members k hk name hname).update ho
    case down =>
      intro x hx a ha
      obtain ⟨hproc, hdst, hoffers⟩ := h.down x hx a ha
      exact ⟨hproc, hdst, hoffers.update ho⟩
    case held =>
      refine (Function.forall_update_iff s.procs fun _ p => ∀ a ∈ p.held, Offers p a.apiName).2 ⟨?_, ?_⟩
      · exact fun a ha => (h.held pid a (Proc.step_held_subset ho a ha)).step ho
      · exact fun q _ => h.held q
  · cases hstep

theorem Offered.stepDaemon (h : Offered net s) {act : DaemonAct}
    (hjoin : ∀ stale addr sendPid info, act = .recv stale addr ⟨sendPid, .join info⟩ →
      sendPid ∈ net.procs ∧ info = (net.handle sendPid).joinExitInfo ∧ addr = net.addr sendPid)
    (hrecv : ∀ stale addr sendPid info, act = .recv stale addr ⟨sendPid, .apiRegister info⟩ →
      Offers (s.procs info.registerProcessPid) (snprintf ipcMsgMaxSize info.registerMsgName))
    (hstep : s.stepDaemon act = some s') : Offered net s' := by
  obtain ⟨⟨d, out⟩, hd, rfl⟩ := Option.map_eq_some_iff.1 hstep
  refine ⟨h.info, h.joins, fun k hk => ?_, h.up, Offered.step_members hd h.members hrecv,
    fun x hx a ha => ?_, h.held⟩
  · rcases Daemon.step_idents hd hk with hk | ⟨stale, addr, sendPid, info, hact, rfl⟩
    · exact h.idents k hk
    · obtain ⟨hproc, hinfo, haddr⟩ := hjoin stale addr sendPid info hact
      subst hinfo
      subst haddr
      exact ⟨hproc, rfl⟩
  rcases List.mem_append.1 hx with hx | hx
  · exact h.down x hx a ha
  · obtain ⟨m, hm, rfl, hlists⟩ := Daemon.step_relay hd hx ha
    obtain ⟨hproc, hident⟩ := h.idents m.ident (List.mem_map_of_mem hm)
    refine ⟨hproc, ?_, h.members m.profile (List.mem_map_of_mem hm) _ hlists⟩
    show m.ident.apiEndpoint = (net.ident m.ident.pid).apiEndpoint
    rw [← hident]

theorem Offered.stepArrive (h : Offered net s) {stale : MlistMember → MlistMember}
    (hstep : s.stepArrive net i stale = some s') : Offered net s' := by
  unfold System.stepArrive at hstep
  split at hstep
  · cases hstep
  · rename_i pkt hpkt
    have hless : Offered net { s with up := s.up.eraseIdx i } :=
      { h with
        joins := fun q hq => h.joins q (List.mem_of_mem_eraseIdx hq)
        up := fun q hq => h.up q (List.mem_of_mem_eraseIdx hq) }
    refine hless.stepDaemon ?_ ?_ hstep
    · rintro stale' addr sendPid info ⟨⟩
      obtain ⟨hproc, hinfo⟩ := h.joins _ (List.mem_of_getElem? hpkt) info rfl
      exact ⟨hproc, hinfo, rfl⟩
    · rintro stale' addr sendPid info ⟨⟩
      exact h.up _ (List.mem_of_getElem? hpkt) info rfl

/-- What a datagram adds to the calls of a process. -/
theorem mem_held_recvAnalysis {p : Proc} {payload : Payload} {a : IpcApi} :
    a ∈ (ipcRecvAnalysis p payload).1.held ↔ a ∈ p.held ∨ payload = .apiRelay a := by
  cases payload with
  | apiRelay b =>
    simp only [ipcRecvAnalysis, ipcApiPush, Proc.held, List.mem_append, List.mem_singleton,
      Payload.apiRelay.injEq]
    rw [eq_comm (a := b)]
    tauto
  | apiAckRelay ack n =>
    simp only [ipcRecvAnalysis, ipcRecvAck]
    split
    · simp
    · rename_i ipc hipc
      split at hipc
      · cases hipc
        simp [Proc.held]
      · cases hipc
  | _ => simp [ipcRecvAnalysis]

/-- A datagram leaves the functions and the name of a process alone. -/
theorem ipc_recvAnalysis (p : Proc) (payload : Payload) :
    (ipcRecvAnalysis p payload).1.ipc.apiList = p.ipc.apiList ∧
      (ipcRecvAnalysis p payload).1.ipc.joinExitInfo = p.ipc.joinExitInfo := by
  cases payload with
  | apiAckRelay ack n =>
    simp only [ipcRecvAnalysis, ipcRecvAck]
    split
    · exact ⟨rfl, rfl⟩
    · rename_i ipc hipc
      split at hipc
      · cases hipc
        exact ⟨rfl, rfl⟩
      · cases hipc
  | _ => exact ⟨rfl, rfl⟩

/-- The process that gets a relay is the one it is meant for. -/
theorem Offered.owner (h : Offered net s) {x : Send} (hx : x ∈ s.down) {a : IpcApi}
    (ha : x.payload = .apiRelay a) : x.sendPid ∈ net.procs ∧ net.owner x.dst = some x.sendPid := by
  obtain ⟨hproc, hdst, -⟩ := h.down x hx a ha
  exact ⟨hproc, by rw [hdst, net.owner_ident hproc]⟩

theorem Offered.stepDeliver (h : Offered net s) (hstep : s.stepDeliver net i = some s') :
    Offered net s' := by
  obtain ⟨x, hx, rfl⟩ := Option.map_eq_some_iff.1 hstep
  have hmem : x ∈ s.down := List.mem_of_getElem? hx
  have hrest : ∀ y ∈ s.down.eraseIdx i, y ∈ s.down := fun y => List.mem_of_mem_eraseIdx
  split
  · exact { h with down := fun y hy => h.down y (hrest y hy) }
  · rename_i q howner
    have hkeep : ∀ p name, Offers (s.procs p) name →
        Offers (Function.update s.procs q (ipcRecvAnalysis (s.procs q) x.payload).1 p) name := by
      intro p name hp
      by_cases hq : p = q
      · subst hq
        rw [Function.update_self, Offers, (ipc_recvAnalysis _ _).1]
        exact hp
      · rw [Function.update_of_ne hq]
        exact hp
    refine ⟨?_, h.joins, h.idents, fun pkt hpkt info hinfo => hkeep _ _ (h.up pkt hpkt info hinfo),
      fun k hk name hname => hkeep _ _ (h.members k hk name hname), fun y hy a ha => ?_, ?_⟩
    · refine (Function.forall_update_iff s.procs fun q p =>
        p.ipc.joinExitInfo = (net.handle q).joinExitInfo).2 ⟨?_, fun q _ => h.info q⟩
      exact (ipc_recvAnalysis _ _).2.trans (h.info q)
    · obtain ⟨hproc, hdst, hoffers⟩ := h.down y (hrest y hy) a ha
      exact ⟨hproc, hdst, hkeep _ _ hoffers⟩
    · show ∀ p, ∀ a ∈ (Function.update s.procs q (ipcRecvAnalysis (s.procs q) x.payload).1 p).held,
        Offers (Function.update s.procs q (ipcRecvAnalysis (s.procs q) x.payload).1 p) a.apiName
      intro p a ha
      by_cases hq : p = q
      · subst hq
        rw [Function.update_self, mem_held_recvAnalysis] at ha
        rcases ha with ha | ha
        · exact hkeep p _ (h.held p a ha)
        · have howner' := (h.owner hmem ha).2
          rw [howner, Option.some.injEq] at howner'
          have hoffers := (h.down x hmem a ha).2.2
          rw [← howner'] at hoffers
          exact hkeep p _ hoffers
      · rw [Function.update_of_ne hq] at ha
        exact hkeep p _ (h.held p a ha)

/-- **Every step keeps the functions for the calls.** -/
theorem Offered.step {act : SysAct} (h : Offered net s)
    (hstep : (sysLts net).step s act = some s') : Offered net s' := by
  cases act with
  | proc pid act => exact h.stepProc hstep
  | arrive i stale => exact h.stepArrive hstep
  | daemon act =>
    simp only [sysLts, System.step] at hstep
    split at hstep
    · cases hstep
    · rename_i hrecv
      refine h.stepDaemon ?_ ?_ hstep
      all_goals
        rintro stale addr sendPid info rfl
        exact absurd rfl hrecv
  | deliver i => exact h.stepDeliver hstep

end SystemStep

/-- **A call that is relayed finds its function.**  In every run of the system the process that a relay
reaches has a function for the call, and each thread that is created for a call starts a function that
the process has registered under the name of the API. -/
theorem relayed_has_function (net : Net) {s : System} (h : Reach (sysLts net) Free s) :
    (∀ x ∈ s.down, ∀ a, x.payload = .apiRelay a → net.owner x.dst = some x.sendPid ∧
      ∃ imm, callreal (s.procs x.sendPid).ipc a = some imm) ∧
    ∀ pid i ptime o, (s.procs pid).step net.maxSize (.begin i ptime) = some o →
      ∃ ia imm, (s.procs pid).threads[i]? = some ia ∧ imm ∈ (s.procs pid).ipc.apiList ∧
        imm.msgName = ia.apiName ∧ o.proc.running = (s.procs pid).running ++ [(ia, imm)] := by
  have hoffered : Offered net s :=
    h.invariant (I := Offered net) (offered_init net) fun _ _ _ _ hI hstep _ => hI.step hstep
  refine ⟨fun x hx a ha => ⟨(hoffered.owner hx ha).2, (hoffered.down x hx a ha).2.2.callreal⟩, ?_⟩
  intro pid i ptime o hstep
  obtain ⟨ia, hia, rfl⟩ := Option.map_eq_some_iff.1 hstep
  have hheld : ia ∈ (s.procs pid).held := by
    simp only [Proc.held, List.mem_append]
    exact Or.inl (Or.inr (List.mem_of_getElem? hia))
  obtain ⟨imm, himm⟩ := (hoffered.held pid ia hheld).callreal
  rw [himm]
  exact ⟨ia, imm, hia, List.mem_of_find?_eq_some himm, by simpa using List.find?_some himm, rfl⟩

/-- Process 1 starts the function that it has registered under `"f"` for the call of process 2. -/
theorem relayed_has_function_begin : ∃ s o, Reach (sysLts sampleNet) Free s ∧
    (s.procs 1).step sampleNet.maxSize (.begin 0 ⟨0, 0⟩) = some o ∧
    ∃ ia imm, (s.procs 1).threads[0]? = some ia ∧ imm ∈ (s.procs 1).ipc.apiList ∧
      imm.msgName = ia.apiName ∧ o.proc.running = (s.procs 1).running ++ [(ia, imm)] := by
  have hends : ((sysLts sampleNet).run (sysLts sampleNet).init (callRun.take 14)).any
      (fun s => ((s.procs 1).step sampleNet.maxSize (.begin 0 ⟨0, 0⟩)).isSome) = true := by
    decide +kernel
  obtain ⟨s, hrun, hstep⟩ := (Option.any_eq_true _ _).1 hends
  obtain ⟨o, ho⟩ := Option.isSome_iff_exists.1 hstep
  have hreach := Reach.of_run hrun
  exact ⟨s, o, hreach, ho, (relayed_has_function sampleNet hreach).2 1 0 ⟨0, 0⟩ o ho⟩

end EasyIpc

import EasyIpc.System
import EasyIpc.Acks

/-!
# No cross-talk between calls

Every acknowledgement the daemon sends answers a call that the process it goes to has issued under
that `ack_id`, as long as each record of the end of a function reaches the daemon while its sender
lists the API, or comes from the caller itself.

* `SysInv` — what holds in every state of such a run: who may hold which call, and what the
  datagrams on their way say.
* `no_cross_talk` — the result, and that a step without the condition breaks it;
  `cross_talk_unregister` is a run in which a provider unregisters the API it executes, and gets
  the answer to somebody else's call.
-/

namespace EasyIpc

open Concurrent Transition Ledger

/-! ## What the parties hold -/

/-- The history has grown. -/
structure History.Le (h h' : History) : Prop where
  issued : h.issued ⊆ h'.issued
  accepted : h.accepted ⊆ h'.accepted
  executed : h.executed ⊆ h'.executed

/-- What the caller asked for: a call without what the daemon adds to it. -/
def request (a : IpcApi) : IpcApi := { a with daemonMagicNumber := 0, daemonCountNumber := 0 }

theorem request_eq_of_ticket {a b : IpcApi} (h : ticket a = ticket b) : request a = request b := by
  show request (ticket a) = request (ticket b)
  rw [h]

/-- The daemon has accepted the call. -/
def Known (h : History) (a : IpcApi) : Prop := ∃ b ∈ h.accepted, ticket b = ticket a

/-- The daemon has accepted the call, and it is for the program of the process. -/
def Assigned (net : Net) (h : History) (pid : ℤ) (a : IpcApi) : Prop :=
  Known h a ∧ (net.ident pid).pname = a.pname

/-- The acknowledgement is for the call with the number, which the process made under its
`ack_id`; a result of the function is that of an execution of this call. -/
def AckRight (h : History) (pid : ℤ) (ack : IpcApiAckList) (n : Magic) : Prop :=
  ∃ call ∈ h.accepted, call.daemonMagicNumber = n ∧ call.sendPid = pid ∧ call.ackId = ack.ackId ∧
    (ack.ackResult.fromUser → ∃ x ∈ h.executed, ticket x.call = ticket call ∧
      x.ret = ack.ackResult ∧ x.retData = ack.ackData)

/-- The record has the numbers and the result of the execution. -/
def Records (rt : IpcRuntime) (x : Execution) : Prop :=
  x.call.ackId = rt.callerMagicNumber ∧ x.call.daemonMagicNumber = rt.daemonMagicNumber ∧
    x.ret = rt.ret ∧ x.retData = rt.retData

/-- What a packet on its way to the daemon says is true. -/
def UpOk (net : Net) (h : History) (pkt : IpcPacket) : Prop :=
  pkt.sendPid ∈ net.procs ∧
    match pkt.body with
    | .join info => info = (net.handle pkt.sendPid).joinExitInfo
    | .apiCall api => api ∈ h.issued
    | .apiRuntime rt => rt.flag = true → ∃ x ∈ h.executed, x.provider = pkt.sendPid ∧ Records rt x
    | _ => True

/-- A datagram of the daemon goes to the process it is meant for, and says what is right. -/
def DownOk (net : Net) (h : History) (x : Send) : Prop :=
  match x.payload with
  | .apiRelay a => ∃ pid ∈ net.procs, x.dst = (net.ident pid).apiEndpoint ∧ Assigned net h pid a
  | .apiAckRelay ack n =>
      x.sendPid ∈ net.procs ∧ x.dst = (net.ident x.sendPid).apiEndpoint ∧ AckRight h x.sendPid ack n
  | _ => True

section Mono

variable {net : Net} {h h' : History} {pid : ℤ} {a : IpcApi}

theorem Known.mono (hle : h.Le h') (hk : Known h a) : Known h' a := by
  obtain ⟨b, hb, he⟩ := hk
  exact ⟨b, hle.accepted hb, he⟩

theorem Assigned.mono (hle : h.Le h') (ha : Assigned net h pid a) : Assigned net h' pid a :=
  ⟨ha.1.mono hle, ha.2⟩

theorem AckRight.mono (hle : h.Le h') {ack : IpcApiAckList} {n : Magic} (ha : AckRight h pid ack n) :
    AckRight h' pid ack n := by
  obtain ⟨call, hcall, hn, hpid, hid, hex⟩ := ha
  refine ⟨call, hle.accepted hcall, hn, hpid, hid, fun hret => ?_⟩
  obtain ⟨x, hx, hrest⟩ := hex hret
  exact ⟨x, hle.executed hx, hrest⟩

theorem UpOk.mono (hle : h.Le h') {pkt : IpcPacket} (hp : UpOk net h pkt) : UpOk net h' pkt := by
  obtain ⟨sendPid, body⟩ := pkt
  refine ⟨hp.1, ?_⟩
  have hbody := hp.2
  cases body with
  | join info => exact hbody
  | apiCall api => exact hle.issued hbody
  | apiRuntime rt =>
    intro hflag
    obtain ⟨x, hx, hrest⟩ := hbody hflag
    exact ⟨x, hle.executed hx, hrest⟩
  | _ => trivial

theorem DownOk.mono (hle : h.Le h') {x : Send} (hx : DownOk net h x) : DownOk net h' x := by
  obtain ⟨dst, sendPid, payload⟩ := x
  cases payload with
  | apiRelay a =>
    obtain ⟨pid, hpid, hdst, ha⟩ := hx
    exact ⟨pid, hpid, hdst, ha.mono hle⟩
  | apiAckRelay ack n => exact ⟨hx.1, hx.2.1, hx.2.2.mono hle⟩
  | _ => trivial

end Mono

/-! ## The invariant -/

/-- The calls of a process. -/
def issuedBy (h : History) (pid : ℤ) : List IpcApi := h.issued.filter fun c => c.sendPid == pid

/-- What holds of a process. -/
structure ProcInv (net : Net) (h : History) (pid : ℤ) (p : Proc) : Prop where
  info : p.ipc.joinExitInfo = (net.handle pid).joinExitInfo
  held : ∀ a ∈ p.held, Assigned net h pid a
  running : ∀ x ∈ p.running, x.2.msgName = x.1.apiName
  ids : Numbered ((issuedBy h pid).map IpcApi.ackId)
  counter : p.ipc.apiAckMagicNum = BitVec.ofNat 32 (issuedBy h pid).length

/-- What holds of the daemon. -/
structure DaemonInv (net : Net) (h : History) (d : Daemon) : Prop where
  members : ∀ k ∈ idents d.mlist, k.pid ∈ net.procs ∧ k = net.ident k.pid
  calls : ∀ a ∈ openCalls d, Known h a
  next : d.apiPublicMagicNumber = BitVec.ofNat 32 h.accepted.length

/-- What holds of a history. -/
structure HistInv (net : Net) (h : History) : Prop where
  numbers : Numbered (h.accepted.map IpcApi.daemonMagicNumber)
  accepted : ∀ a ∈ h.accepted, ∃ c ∈ h.issued, request c = request a
  executed : ∀ x ∈ h.executed, Assigned net h x.provider x.call ∧ x.imm.msgName = x.call.apiName

/-- What holds in every state of a run that meets the condition. -/
structure SysInv (net : Net) (s : System) : Prop where
  procs : ∀ pid, ProcInv net s.hist pid (s.procs pid)
  daemon : DaemonInv net s.hist s.daemon
  hist : HistInv net s.hist
  up : ∀ pkt ∈ s.up, UpOk net s.hist pkt
  down : ∀ x ∈ s.down, DownOk net s.hist x
  few : s.hist.accepted.length + s.up.countP IpcPacket.isCall ≤ s.hist.issued.length
  acks : ∀ x ∈ s.acks, DownOk net s.hist x
  completed : ∀ y ∈ s.completed, ∃ n, AckRight s.hist y.1 y.2 n

theorem sysInv_init (net : Net) : SysInv net (sysLts net).init where
  procs pid := ⟨rfl, by simp [sysLts, Proc.held], by simp [sysLts], numbered_nil, rfl⟩
  daemon := ⟨by simp [sysLts, idents], by simp [sysLts, openCalls, SemQueue.items, Consumer.held],
    rfl⟩
  hist := ⟨numbered_nil, by simp [sysLts], by simp [sysLts]⟩
  up := by simp [sysLts]
  down := by simp [sysLts]
  few := by simp [sysLts]
  acks := by simp [sysLts]
  completed := by simp [sysLts]

/-- The numbers of the accepted calls are distinct, so a number has one call. -/
theorem HistInv.unique {net : Net} {h : History} (hi : HistInv net h)
    (hfew : h.accepted.length ≤ 2 ^ 32) {a b : IpcApi} (ha : a ∈ h.accepted) (hb : b ∈ h.accepted)
    (he : a.daemonMagicNumber = b.daemonMagicNumber) : a = b :=
  List.inj_on_of_nodup_map (hi.numbers.nodup (by simpa using hfew)) ha hb he

/-! ## A step of a process -/

section Process

variable {net : Net} {h : History} {pid : ℤ} {p : Proc} {o : ProcOut} {s s' : System}

/-- The history after a step of a process. -/
def History.after (h : History) (o : ProcOut) : History :=
  { h with issued := h.issued ++ o.issued, executed := h.executed ++ o.executed }

theorem History.le_after (h : History) (o : ProcOut) : h.Le (h.after o) :=
  ⟨List.subset_append_left _ _, fun _ => id, List.subset_append_left _ _⟩

theorem ProcInv.pid_eq (hp : ProcInv net h pid p) : p.ipc.pid = pid :=
  congrArg JoinExitInfo.joinExitProcessPid hp.info

/-- The calls of another process are the same in a longer history. -/
theorem ProcInv.mono {h' : History} (hle : h.Le h') (hissued : issuedBy h' pid = issuedBy h pid)
    (hp : ProcInv net h pid p) : ProcInv net h' pid p where
  info := hp.info
  held a ha := (hp.held a ha).mono hle
  running := hp.running
  ids := by
    rw [hissued]
    exact hp.ids
  counter := by
    rw [hissued]
    exact hp.counter

theorem DaemonInv.mono {h' : History} {d : Daemon} (hle : h.Le h')
    (haccepted : h'.accepted = h.accepted) (hd : DaemonInv net h d) : DaemonInv net h' d where
  members := hd.members
  calls a ha := (hd.calls a ha).mono hle
  next := by
    rw [haccepted]
    exact hd.next

/-- A step issues calls of its own process only. -/
theorem issuedBy_after (hp : ProcInv net h pid p) (he : ProcEffect p o) {q : ℤ} (hq : q ≠ pid) :
    issuedBy (h.after o) q = issuedBy h q := by
  have hnone : o.issued.filter (fun c => c.sendPid == q) = [] := by
    cases he with
    | quiet _ _ _ _ _ hissued _ => simp [hissued]
    | call pname apiName data timeout _ _ hissued _ =>
      have hne : ¬ p.ipc.pid = q := fun he => hq (he.symm.trans hp.pid_eq)
      simp [hissued, ipcApiOf, hne]
    | finish _ _ _ _ _ _ _ _ _ hissued _ => simp [hissued]
  simp [issuedBy, History.after, List.filter_append, hnone]

/-- A step that issues nothing. -/
theorem issuedBy_after_nil (hissued : o.issued = []) (q : ℤ) :
    issuedBy (h.after o) q = issuedBy h q := by
  simp [issuedBy, History.after, hissued]

/-- The process after its step. -/
theorem ProcInv.step (hp : ProcInv net h pid p) (he : ProcEffect p o) :
    ProcInv net (h.after o) pid o.proc := by
  have hle := h.le_after o
  cases he with
  | quiet hinfo hnum hheld hrun hpkts hissued hexec =>
    constructor
    case info => exact hinfo.trans hp.info
    case held =>
      intro a ha
      exact (hp.held a (hheld a ha)).mono hle
    case running =>
      intro x hx
      rcases hrun x hx with hx | hx
      · exact hp.running x hx
      · simpa using List.find?_some hx
    case ids =>
      rw [issuedBy_after_nil hissued]
      exact hp.ids
    case counter =>
      rw [issuedBy_after_nil hissued, hnum]
      exact hp.counter
  | call pname apiName data timeout hproc hpkts hissued hexec =>
    have hby : issuedBy (h.after o) pid =
        issuedBy h pid ++ [ipcApiOf p.ipc pname apiName data timeout] := by
      have hpid : (ipcApiOf p.ipc pname apiName data timeout).sendPid == pid := by
        simpa [ipcApiOf] using hp.pid_eq
      simp [issuedBy, History.after, hissued, List.filter_append, hpid]
    rw [hproc]
    constructor
    case info => exact hp.info
    case held =>
      intro a ha
      exact (hp.held a ha).mono hle
    case running => exact hp.running
    case ids =>
      have hnext := hp.ids.append
      rw [List.length_map, ← hp.counter] at hnext
      rw [hby, List.map_append]
      exact hnext
    case counter =>
      show p.ipc.apiAckMagicNum + 1 = _
      rw [hby, List.length_append, List.length_singleton, hp.counter, BitVec.ofNat_add]
      rfl
  | finish i ia imm ptime ret retData hrun hproc hpkts hissued hexec =>
    have hrest : ∀ x ∈ p.running.eraseIdx i, x ∈ p.running := fun x => List.mem_of_mem_eraseIdx
    rw [hproc]
    constructor
    case info => exact hp.info
    case held =>
      intro a ha
      apply (hp.held a ?_).mono hle
      simp only [Proc.held, List.mem_append, List.mem_map] at ha ⊢
      rcases ha with ha | ⟨x, hx, rfl⟩
      · exact Or.inl ha
      · exact Or.inr ⟨x, hrest x hx, rfl⟩
    case running =>
      intro x hx
      exact hp.running x (hrest x hx)
    case ids =>
      rw [issuedBy_after_nil hissued]
      exact hp.ids
    case counter =>
      rw [issuedBy_after_nil hissued]
      exact hp.counter

/-- What the process sends. -/
theorem ProcInv.upOk (hp : ProcInv net h pid p) (he : ProcEffect p o) (hpid : pid ∈ net.procs) :
    ∀ pkt ∈ o.packets, UpOk net (h.after o) pkt := by
  intro pkt hpkt
  have hown : p.ipc.pid ∈ net.procs := by
    rw [hp.pid_eq]
    exact hpid
  cases he with
  | quiet hinfo hnum hheld hrun hpkts hissued hexec =>
    obtain ⟨hsend, hbody⟩ := hpkts pkt hpkt
    refine ⟨by rwa [hsend], ?_⟩
    obtain ⟨sendPid, body⟩ := pkt
    cases body with
    | join info =>
      have hpid' : sendPid = pid := hsend.trans hp.pid_eq
      show info = (net.handle sendPid).joinExitInfo
      rw [hpid', ← hp.info]
      exact hbody
    | apiCall api => exact hbody.elim
    | apiRuntime rt =>
      intro hflag
      have hno : rt.flag = false := hbody
      rw [hno] at hflag
      cases hflag
    | _ => trivial
  | call pname apiName data timeout hproc hpkts hissued hexec =>
    obtain ⟨n, -, hn⟩ := hpkts
    rw [hn] at hpkt
    rw [List.eq_of_mem_replicate hpkt]
    exact ⟨hown, List.mem_append_right _ (by simp [hissued])⟩
  | finish i ia imm ptime ret retData hrun hproc hpkts hissued hexec =>
    obtain ⟨n, -, hn⟩ := hpkts
    rw [hn] at hpkt
    rw [List.eq_of_mem_replicate hpkt]
    refine ⟨hown, fun _ => ⟨⟨p.ipc.pid, ia, imm, ret, retData⟩, ?_, rfl, rfl, rfl, rfl, rfl⟩⟩
    exact List.mem_append_right _ (by simp [hexec])

/-- A process sends at most one packet for each call it issues. -/
theorem countP_packets (he : ProcEffect p o) :
    o.packets.countP IpcPacket.isCall ≤ o.issued.length := by
  cases he with
  | quiet _ _ _ _ hpkts hissued _ =>
    have hnone : o.packets.countP IpcPacket.isCall = 0 := by
      refine List.countP_eq_zero.2 fun pkt hpkt hcall => ?_
      have hbody := (hpkts pkt hpkt).2
      unfold IpcPacket.isCall at hcall
      split at hcall
      · rename_i heq
        rw [heq] at hbody
        exact hbody
      · cases hcall
    omega
  | call _ _ _ _ _ hpkts hissued _ =>
    obtain ⟨n, hn, hrep⟩ := hpkts
    refine Nat.le_trans List.countP_le_length ?_
    rw [hrep, hissued, List.length_replicate]
    exact hn
  | finish _ _ _ _ _ _ _ _ hpkts _ _ =>
    obtain ⟨n, -, hrep⟩ := hpkts
    simp [hrep, List.countP_replicate, IpcPacket.isCall]

/-- The history after a step of a process that keeps the invariant. -/
theorem HistInv.after (hi : HistInv net h) (hp : ProcInv net h pid p) (he : ProcEffect p o) :
    HistInv net (h.after o) := by
  have hle := h.le_after o
  constructor
  case numbers => exact hi.numbers
  case accepted =>
    intro a ha
    obtain ⟨c, hc, hreq⟩ := hi.accepted a ha
    exact ⟨c, hle.issued hc, hreq⟩
  case executed =>
    intro x hx
    rcases List.mem_append.1 hx with hx | hx
    · exact ⟨(hi.executed x hx).1.mono hle, (hi.executed x hx).2⟩
    · cases he with
      | quiet _ _ _ _ _ _ hexec => simp [hexec] at hx
      | call _ _ _ _ _ _ _ hexec => simp [hexec] at hx
      | finish i ia imm ptime ret retData hrun hproc hpkts hissued hexec =>
        rw [hexec, List.mem_singleton] at hx
        subst hx
        have hmem : (ia, imm) ∈ p.running := List.mem_of_getElem? hrun
        have hheld : ia ∈ p.held :=
          List.mem_append_right _ (List.mem_map.2 ⟨(ia, imm), hmem, rfl⟩)
        refine ⟨?_, hp.running _ hmem⟩
        show Assigned net (h.after o) p.ipc.pid ia
        rw [hp.pid_eq]
        exact (hp.held ia hheld).mono hle

/-- **A step of a process keeps the invariant.** -/
theorem SysInv.stepProc (hs : SysInv net s) {act : ProcAct}
    (hstep : s.stepProc net pid act = some s') : SysInv net s' := by
  unfold System.stepProc at hstep
  split at hstep
  · rename_i hpid
    obtain ⟨o, ho, rfl⟩ := Option.map_eq_some_iff.1 hstep
    have he := Proc.step_rpc ho
    have hp := hs.procs pid
    have hle := s.hist.le_after o
    constructor
    case procs =>
      apply (Function.forall_update_iff s.procs fun q => ProcInv net (s.hist.after o) q).2
      refine ⟨hp.step he, ?_⟩
      intro q hq
      exact (hs.procs q).mono hle (issuedBy_after hp he hq)
    case daemon => exact hs.daemon.mono hle rfl
    case hist => exact hs.hist.after hp he
    case up =>
      intro pkt hpkt
      rcases List.mem_append.1 hpkt with hpkt | hpkt
      · exact (hs.up pkt hpkt).mono hle
      · exact hp.upOk he hpid pkt hpkt
    case down =>
      intro x hx
      exact (hs.down x hx).mono hle
    case few =>
      have hcount := countP_packets he
      have hfew := hs.few
      simp only [List.countP_append, List.length_append]
      omega
    case acks =>
      intro x hx
      exact (hs.acks x hx).mono hle
    case completed =>
      intro y hy
      obtain ⟨n, hn⟩ := hs.completed y hy
      exact ⟨n, hn.mono hle⟩
  · cases hstep

end Process

/-! ## The condition -/

/-- The record of the end of a function is handled while its sender lists the API, or its sender
made the call itself.  Nothing is asked of other packets, or of a sender that is not registered. -/
def finishListed (s : System) (pkt : IpcPacket) : Bool :=
  match pkt.body with
  | .apiRuntime rt =>
      !rt.flag || (ipcdGetMlistViaPid s.daemon.mlist pkt.sendPid).isNone ||
        senderLists s.daemon.mlist pkt.sendPid rt ||
        s.hist.accepted.all fun call =>
          call.daemonMagicNumber != rt.daemonMagicNumber || call.sendPid == pkt.sendPid
  | _ => true

/-- The packet that arrives in the step, if one does, meets the condition. -/
def arrivesListed (s : System) : SysAct → Bool
  | .arrive i _ => s.up[i]?.all (finishListed s)
  | _ => true

/-- There are fewer than `2 ^ 32` calls. -/
def FewCalls (s : System) : Prop := s.hist.issued.length < 2 ^ 32

instance : DecidablePred FewCalls := fun _ => inferInstanceAs (Decidable (_ < _))

/-- The step meets the condition, and there are few calls. -/
def SafeStep (s : System) (act : SysAct) (s' : System) : Prop :=
  arrivesListed s act = true ∧ FewCalls s'

instance (s : System) (act : SysAct) (s' : System) : Decidable (SafeStep s act s') :=
  inferInstanceAs (Decidable (_ ∧ _))

theorem finishListed_iff {s : System} {sendPid : ℤ} {rt : IpcRuntime} (hflag : rt.flag = true) :
    finishListed s ⟨sendPid, .apiRuntime rt⟩ = true ↔
      ((ipcdGetMlistViaPid s.daemon.mlist sendPid).isSome →
        senderLists s.daemon.mlist sendPid rt = false → ∀ call ∈ s.hist.accepted,
          call.daemonMagicNumber = rt.daemonMagicNumber → call.sendPid = sendPid) := by
  rcases hreg : ipcdGetMlistViaPid s.daemon.mlist sendPid with _ | m
  · simp [finishListed, hreg]
  · rcases hlist : senderLists s.daemon.mlist sendPid rt with _ | _
    · simp [finishListed, hreg, hlist, hflag, or_iff_not_imp_left]
    · simp [finishListed, hlist]

/-! ## A step of the daemon -/

section DaemonStep

variable {net : Net} {h : History} {d d' : Daemon} {act : DaemonAct} {out : List Send} {s s' : System}
  {x : Send}

/-- The packet the daemon receives in the step says what is true, and comes from its sender. -/
def RecvOk (net : Net) (h : History) (act : DaemonAct) : Prop :=
  ∀ stale addr pkt, act = .recv stale addr pkt → UpOk net h pkt ∧ addr = net.addr pkt.sendPid

/-- The record the daemon receives in the step, if its sender does not list the API, is for a call
of the sender. -/
def RecordListed (h : History) (d : Daemon) (act : DaemonAct) : Prop :=
  ∀ stale addr sendPid rt, act = .recv stale addr ⟨sendPid, .apiRuntime rt⟩ → rt.flag = true →
    (ipcdGetMlistViaPid d.mlist sendPid).isSome → senderLists d.mlist sendPid rt = false →
    ∀ call ∈ h.accepted, call.daemonMagicNumber = rt.daemonMagicNumber → call.sendPid = sendPid

/-- The history after a step of the daemon. -/
def History.accept (h : History) (calls : List IpcApi) : History :=
  { h with accepted := h.accepted ++ calls }

theorem History.le_accept (h : History) (calls : List IpcApi) : h.Le (h.accept calls) :=
  ⟨fun _ => id, List.subset_append_left _ _, fun _ => id⟩

/-- A call that comes in was issued. -/
theorem callsIn_issued (hrecv : RecvOk net h act) {a : IpcApi} (ha : a ∈ callsIn d act) :
    ∃ c ∈ h.issued, request c = request a := by
  unfold callsIn at ha
  split at ha
  · rename_i stale addr sendPid api
    split at ha
    · rw [List.mem_singleton.1 ha]
      exact ⟨api, (hrecv stale addr _ rfl).1.2, rfl⟩
    · cases ha
  · cases ha

/-- The daemon after its step. -/
theorem DaemonInv.step (hd : DaemonInv net h d) (hrecv : RecvOk net h act)
    (hstep : d.step act = some (d', out)) : DaemonInv net (h.accept (callsIn d act)) d' := by
  constructor
  case members =>
    intro k hk
    rcases Daemon.step_idents hstep hk with hk | ⟨stale, addr, sendPid, info, hact, rfl⟩
    · exact hd.members k hk
    · -- an honest process joins as itself, from its own address
      obtain ⟨⟨hpid, hinfo⟩, haddr⟩ := hrecv stale addr _ hact
      have hinfo' : info = (net.handle sendPid).joinExitInfo := hinfo
      subst hinfo'
      subst haddr
      exact ⟨hpid, rfl⟩
  case calls =>
    intro a ha
    obtain ⟨b, hb, he⟩ := Daemon.step_open hstep ha
    rcases List.mem_append.1 hb with hb | hb
    · obtain ⟨c, hc, hcb⟩ := hd.calls b hb
      exact ⟨c, List.mem_append_left _ hc, hcb.trans he⟩
    · exact ⟨b, List.mem_append_right _ hb, he⟩
  case next =>
    rw [Daemon.step_number hstep, hd.next, ← BitVec.ofNat_add]
    show _ = BitVec.ofNat 32 (h.accepted ++ callsIn d act).length
    rw [List.length_append]

/-- The history after a step of the daemon that keeps the invariant. -/
theorem HistInv.accept (hi : HistInv net h) (hd : DaemonInv net h d) (hrecv : RecvOk net h act) :
    HistInv net (h.accept (callsIn d act)) := by
  have hle := h.le_accept (callsIn d act)
  constructor
  case numbers =>
    rcases callsIn_magic d act with hin | ⟨api, hin, hm⟩
    · simpa [History.accept, hin] using hi.numbers
    · have hnext := hi.numbers.append
      rw [List.length_map, ← hd.next, ← hm] at hnext
      show Numbered ((h.accepted ++ callsIn d act).map IpcApi.daemonMagicNumber)
      rw [hin, List.map_append]
      exact hnext
  case accepted =>
    intro a ha
    rcases List.mem_append.1 ha with ha | ha
    · exact hi.accepted a ha
    · exact callsIn_issued hrecv ha
  case executed =>
    intro x hx
    obtain ⟨hassigned, himm⟩ := hi.executed x hx
    exact ⟨hassigned.mono hle, himm⟩

/-- An identity in the table is that of its process, which is registered. -/
theorem isSome_of_mem_idents {l : List MlistMember} {k : Ident} (hk : k ∈ idents l) :
    (ipcdGetMlistViaPid l k.pid).isSome := by
  obtain ⟨m, hm, rfl⟩ := List.mem_map.1 hk
  rw [isSome_ipcdGetMlistViaPid]
  exact List.any_eq_true.2 ⟨m, hm, by simp [MlistMember.ident]⟩

/-- **What the daemon sends is right**, wherever it builds it. -/
theorem downOk_of_rpcSend (hd : DaemonInv net h d) (hi : HistInv net h)
    (hfew : h.accepted.length ≤ 2 ^ 32) (hrecv : RecvOk net h act)
    (hlist : RecordListed h d act) (hx : RpcSend d act x) : DownOk net h x := by
  cases hx with
  | relay k a hk ha hname hx =>
    obtain ⟨hpid, hident⟩ := hd.members k hk
    subst hx
    refine ⟨k.pid, hpid, ?_, hd.calls a ha, ?_⟩
    · show k.apiEndpoint = _
      rw [← hident]
    · rw [← hident]
      exact hname
  | refusal k a ret hk ha hpid hret hx =>
    obtain ⟨hproc, hident⟩ := hd.members k hk
    obtain ⟨call, hcall, hticket⟩ := hd.calls a ha
    obtain ⟨hnum, hid, hsend⟩ := ticket_eq hticket
    subst hx
    refine ⟨hproc, ?_, call, hcall, hnum, hsend.trans hpid.symm, hid, fun huser => absurd huser hret⟩
    show k.apiEndpoint = _
    rw [← hident]
  | finish stale addr sendPid rt k hact hflag hk hpid hx =>
    obtain ⟨hproc, hident⟩ := hd.members k hk
    obtain ⟨y, hy, -, hrec⟩ := (hrecv stale addr _ hact).1.2 hflag
    obtain ⟨⟨call, hcall, hticket⟩, -⟩ := (hi.executed y hy).1
    have hnum : call.daemonMagicNumber = rt.daemonMagicNumber :=
      (ticket_eq hticket).1.trans hrec.2.1
    have hcaller : call.sendPid = k.pid := by
      rcases hpid with ⟨a, ha, ham, hka⟩ | ⟨hno, hks⟩
      · -- the pending call with the number is the call that was executed
        obtain ⟨b, hb, hbt⟩ := hd.calls a ha
        obtain ⟨hbm, -, hbs⟩ := ticket_eq hbt
        obtain rfl : b = call := hi.unique hfew hb hcall (hbm.trans (ham.trans hnum.symm))
        exact hbs.trans hka.symm
      · rw [hks]
        refine hlist stale addr sendPid rt hact hflag ?_ hno call hcall hnum
        rw [← hks]
        exact isSome_of_mem_idents hk
    subst hx
    refine ⟨hproc, ?_, call, hcall, hnum, hcaller, ?_, fun _ => ⟨y, hy, hticket.symm, hrec.2.2⟩⟩
    · show k.apiEndpoint = _
      rw [← hident]
    · exact (ticket_eq hticket).2.1.trans hrec.1

/-- **A step of the daemon keeps the invariant**, where it receives a packet that was on its way, or
none. -/
theorem SysInv.stepDaemon (hs : SysInv net s) (hfew : s.hist.accepted.length ≤ 2 ^ 32)
    (hrecv : RecvOk net s.hist act) (hlist : RecordListed s.hist s.daemon act)
    (hroom : s.hist.accepted.length + (callsIn s.daemon act).length +
      s.up.countP IpcPacket.isCall ≤ s.hist.issued.length)
    (hstep : s.stepDaemon act = some s') : SysInv net s' := by
  obtain ⟨⟨d, out⟩, hd, rfl⟩ := Option.map_eq_some_iff.1 hstep
  have hle := s.hist.le_accept (callsIn s.daemon act)
  have hout : ∀ x ∈ out, DownOk net (s.hist.accept (callsIn s.daemon act)) x := by
    intro x hx
    by_cases hrpc : x.payload.isRpc = true
    · exact (downOk_of_rpcSend hs.daemon hs.hist hfew hrecv hlist
        (Daemon.step_sends hd hx hrpc)).mono hle
    · unfold DownOk
      split
      · rename_i heq
        rw [heq] at hrpc
        exact absurd rfl hrpc
      · rename_i heq
        rw [heq] at hrpc
        exact absurd rfl hrpc
      · trivial
  constructor
  case procs =>
    intro pid
    exact (hs.procs pid).mono hle rfl
  case daemon => exact hs.daemon.step hrecv hd
  case hist => exact hs.hist.accept hs.daemon hrecv
  case up =>
    intro pkt hpkt
    exact (hs.up pkt hpkt).mono hle
  case down =>
    intro x hx
    rcases List.mem_append.1 hx with hx | hx
    · exact (hs.down x hx).mono hle
    · exact hout x hx
  case few =>
    simp only [List.length_append]
    omega
  case acks =>
    intro x hx
    rcases List.mem_append.1 hx with hx | hx
    · exact (hs.acks x hx).mono hle
    · exact hout x (List.mem_filter.1 hx).1
  case completed =>
    intro y hy
    obtain ⟨n, hn⟩ := hs.completed y hy
    exact ⟨n, hn.mono hle⟩

end DaemonStep

/-! ## Arrivals -/

section Arrivals

variable {net : Net} {s s' : System} {i : ℕ}

/-- A packet brings in a call only if it is one. -/
theorem length_callsIn_le (d : Daemon) (stale : MlistMember → MlistMember) (addr : ℕ)
    (pkt : IpcPacket) :
    (callsIn d (.recv stale addr pkt)).length ≤ if pkt.isCall = true then 1 else 0 := by
  obtain ⟨sendPid, body⟩ := pkt
  cases body with
  | apiCall api =>
    simp only [callsIn, IpcPacket.isCall, if_true]
    split <;> simp
  | _ => simp [callsIn]

/-- **The arrival of a packet at the daemon keeps the invariant.** -/
theorem SysInv.stepArrive (hs : SysInv net s) (hfew : FewCalls s)
    {stale : MlistMember → MlistMember} (hlist : arrivesListed s (.arrive i stale) = true)
    (hstep : s.stepArrive net i stale = some s') : SysInv net s' := by
  unfold System.stepArrive at hstep
  split at hstep
  · cases hstep
  · rename_i pkt hpkt
    have hmem : pkt ∈ s.up := List.mem_of_getElem? hpkt
    have hcount : s.up.countP IpcPacket.isCall = (s.up.eraseIdx i).countP IpcPacket.isCall +
        if pkt.isCall = true then 1 else 0 := by
      obtain ⟨hi, rfl⟩ := List.getElem?_eq_some_iff.1 hpkt
      rw [← (List.getElem_cons_eraseIdx_perm hi).countP_eq, List.countP_cons]
    have hroom := hs.few
    have hcalls := length_callsIn_le s.daemon stale (net.addr pkt.sendPid) pkt
    have hs' : SysInv net { s with up := s.up.eraseIdx i } :=
      { hs with
        up := fun q hq => hs.up q (List.mem_of_mem_eraseIdx hq)
        few := by
          show s.hist.accepted.length + (s.up.eraseIdx i).countP IpcPacket.isCall ≤
            s.hist.issued.length
          omega }
    have hfew' : s.hist.issued.length < 2 ^ 32 := hfew
    apply hs'.stepDaemon _ _ _ _ hstep
    · show s.hist.accepted.length ≤ _
      omega
    · rintro stale' addr' pkt' ⟨⟩
      exact ⟨hs.up pkt hmem, rfl⟩
    · rintro stale' addr' sendPid rt ⟨⟩ hflag
      have hall : finishListed s ⟨sendPid, .apiRuntime rt⟩ = true := by
        simpa [arrivesListed, hpkt] using hlist
      exact (finishListed_iff hflag).1 hall
    · show s.hist.accepted.length + (callsIn s.daemon _).length +
        (s.up.eraseIdx i).countP IpcPacket.isCall ≤ s.hist.issued.length
      omega

/-- A step of the daemon that receives nothing keeps the invariant. -/
theorem SysInv.stepOther (hs : SysInv net s) (hfew : FewCalls s) {act : DaemonAct}
    (hrecv : act.isRecv = false) (hstep : s.stepDaemon act = some s') : SysInv net s' := by
  have hno : ∀ stale addr pkt, act ≠ .recv stale addr pkt := by
    rintro stale addr pkt rfl
    cases hrecv
  have hin : callsIn s.daemon act = [] := callsIn_of_quiet fun stale addr sendPid api ha =>
    absurd ha (hno _ _ _)
  have hroom := hs.few
  have hfew' : s.hist.issued.length < 2 ^ 32 := hfew
  apply hs.stepDaemon _ _ _ _ hstep
  · omega
  · exact fun stale addr pkt ha => absurd ha (hno _ _ _)
  · exact fun stale addr sendPid rt ha => absurd ha (hno _ _ _)
  · simpa [hin] using hroom

/-- A process that gets a datagram it may get. -/
theorem ProcInv.recvAnalysis {h : History} {pid : ℤ} {p : Proc} {payload : Payload}
    (hp : ProcInv net h pid p) (hrelay : ∀ a, payload = .apiRelay a → Assigned net h pid a) :
    ProcInv net h pid (ipcRecvAnalysis p payload).1 := by
  cases payload with
  | apiRelay a =>
    refine { hp with held := fun b hb => ?_ }
    simp only [ipcRecvAnalysis, ipcApiPush, Proc.held, List.mem_append, List.mem_singleton] at hb
    rcases hb with ((hb | rfl) | hb) | hb
    · exact hp.held b (by simp [Proc.held, hb])
    · exact hrelay b rfl
    · exact hp.held b (by simp [Proc.held, hb])
    · exact hp.held b (List.mem_append_right _ hb)
  | apiAckRelay ack n =>
    simp only [ipcRecvAnalysis, ipcRecvAck]
    by_cases hin : p.ipc.apiAckWaitList.contains ack.ackId = true
    · rw [if_pos hin]
      exact ⟨hp.info, hp.held, hp.running, hp.ids, hp.counter⟩
    · rw [if_neg hin]
      exact hp
  | _ => exact hp

/-- What a process takes is the acknowledgement it got. -/
theorem mem_recvAnalysis {p : Proc} {payload : Payload} {ack : IpcApiAckList}
    (h : ack ∈ (ipcRecvAnalysis p payload).2) : ∃ n, payload = .apiAckRelay ack n := by
  cases payload with
  | apiAckRelay ack' n =>
    simp only [ipcRecvAnalysis] at h
    split at h
    · cases h
    · exact ⟨n, by rw [List.mem_singleton.1 h]⟩
  | _ => cases h

/-- **The arrival of a datagram at a process keeps the invariant.** -/
theorem SysInv.stepDeliver (hs : SysInv net s) (hstep : s.stepDeliver net i = some s') :
    SysInv net s' := by
  obtain ⟨x, hx, rfl⟩ := Option.map_eq_some_iff.1 hstep
  have hok := hs.down x (List.mem_of_getElem? hx)
  have hrest : ∀ y ∈ s.down.eraseIdx i, DownOk net s.hist y := fun y hy =>
    hs.down y (List.mem_of_mem_eraseIdx hy)
  split
  · exact { hs with down := hrest }
  · rename_i pid howner
    -- the port is that of the process the datagram is meant for
    have hown : ∀ q ∈ net.procs, x.dst = (net.ident q).apiEndpoint → q = pid := by
      intro q hq hdst
      rw [hdst, net.owner_ident hq] at howner
      exact Option.some.inj howner
    refine { hs with procs := ?_, down := hrest, completed := ?_ }
    · apply (Function.forall_update_iff s.procs fun q => ProcInv net s.hist q).2
      refine ⟨(hs.procs pid).recvAnalysis ?_, fun q _ => hs.procs q⟩
      intro a ha
      rw [DownOk, ha] at hok
      obtain ⟨q, hq, hdst, hassigned⟩ := hok
      rw [← hown q hq hdst]
      exact hassigned
    · intro y hy
      rcases List.mem_append.1 hy with hy | hy
      · exact hs.completed y hy
      · obtain ⟨ack, hack, rfl⟩ := List.mem_map.1 hy
        obtain ⟨n, hn⟩ := mem_recvAnalysis hack
        rw [DownOk, hn] at hok
        obtain ⟨hproc, hdst, hright⟩ := hok
        rw [hown x.sendPid hproc hdst] at hright
        exact ⟨n, hright⟩

end Arrivals

/-- **One step keeps the invariant.** -/
theorem SysInv.step {net : Net} {s s' : System} {act : SysAct} (hs : SysInv net s)
    (hfew : FewCalls s) (hlist : arrivesListed s act = true)
    (hstep : (sysLts net).step s act = some s') : SysInv net s' := by
  cases act with
  | proc pid act => exact hs.stepProc hstep
  | arrive i stale => exact hs.stepArrive hfew hlist hstep
  | daemon act =>
    simp only [sysLts, System.step] at hstep
    split at hstep
    · cases hstep
    · rename_i hrecv
      exact hs.stepOther hfew (Bool.eq_false_iff.2 hrecv) hstep
  | deliver i => exact hs.stepDeliver hstep

/-! ## The result -/

/-- The call is the only one that the process has issued under this `ack_id`. -/
def OwnCall (h : History) (pid : ℤ) (id : Magic) (a : IpcApi) : Prop :=
  ∃ c ∈ h.issued, request c = request a ∧ c.sendPid = pid ∧ c.ackId = id ∧
    ∀ b ∈ h.issued, b.sendPid = pid → b.ackId = id → b = c

/-- The acknowledgement is for the one call with its number, and the process it goes to has issued
this call under its `ack_id`. -/
def AnswersOwnCall (h : History) (x : Send) : Prop :=
  ∀ ack n, x.payload = .apiAckRelay ack n → ∃ call ∈ h.accepted, call.daemonMagicNumber = n ∧
    (∀ b ∈ h.accepted, b.daemonMagicNumber = n → b = call) ∧ OwnCall h x.sendPid ack.ackId call

section Result

variable {net : Net} {s s' : System} {act : SysAct}

/-- A process issues each `ack_id` once. -/
theorem SysInv.ownCall (hs : SysInv net s) (hfew : FewCalls s) {a : IpcApi}
    (ha : a ∈ s.hist.accepted) : OwnCall s.hist a.sendPid a.ackId a := by
  obtain ⟨c, hc, hreq⟩ := hs.hist.accepted a ha
  have hpid : c.sendPid = a.sendPid := by simpa [request] using congrArg IpcApi.sendPid hreq
  have hid : c.ackId = a.ackId := by simpa [request] using congrArg IpcApi.ackId hreq
  refine ⟨c, hc, hreq, hpid, hid, fun b hb hbpid hbid => ?_⟩
  have hlen : (issuedBy s.hist a.sendPid).length ≤ 2 ^ 32 :=
    Nat.le_trans (List.length_filter_le _ _) (Nat.le_of_lt hfew)
  have hnodup := (hs.procs a.sendPid).ids.nodup (by simpa using hlen)
  have hmine : ∀ c ∈ s.hist.issued, c.sendPid = a.sendPid → c ∈ issuedBy s.hist a.sendPid :=
    fun c hc hpid => List.mem_filter.2 ⟨hc, by simpa using hpid⟩
  exact List.inj_on_of_nodup_map hnodup (hmine b hb hbpid) (hmine c hc hpid) (hbid.trans hid.symm)

theorem SysInv.accepted_le (hs : SysInv net s) (hfew : FewCalls s) :
    s.hist.accepted.length ≤ 2 ^ 32 := by
  have hroom := hs.few
  have hfew' : s.hist.issued.length < 2 ^ 32 := hfew
  omega

/-- Every acknowledgement sent so far answers a call of the process it went to. -/
theorem SysInv.answers (hs : SysInv net s) (hfew : FewCalls s) {x : Send} (hx : x ∈ s.acks) :
    AnswersOwnCall s.hist x := by
  intro ack n hn
  have hok := hs.acks x hx
  rw [DownOk, hn] at hok
  obtain ⟨-, -, call, hcall, hnum, hpid, hid, -⟩ := hok
  refine ⟨call, hcall, hnum, fun b hb hbn => ?_, ?_⟩
  · exact hs.hist.unique (hs.accepted_le hfew) hb hcall (hbn.trans hnum.symm)
  · rw [← hpid, ← hid]
    exact hs.ownCall hfew hcall

/-- A call that is completed with a result of the function was executed. -/
theorem SysInv.executed (hs : SysInv net s) (hfew : FewCalls s) {y : ℤ × IpcApiAckList}
    (hy : y ∈ s.completed) (huser : y.2.ackResult.fromUser) : ∃ x ∈ s.hist.executed,
      OwnCall s.hist y.1 y.2.ackId x.call ∧ x.ret = y.2.ackResult ∧ x.retData = y.2.ackData ∧
        x.imm.msgName = x.call.apiName ∧ (net.ident x.provider).pname = x.call.pname := by
  obtain ⟨n, call, hcall, -, hpid, hid, hex⟩ := hs.completed y hy
  obtain ⟨x, hx, hticket, hret, hdata⟩ := hex huser
  obtain ⟨⟨-, hname⟩, himm⟩ := hs.hist.executed x hx
  refine ⟨x, hx, ?_, hret, hdata, himm, hname⟩
  obtain ⟨c, hc, hreq, hown⟩ := hs.ownCall hfew hcall
  rw [← hpid, ← hid]
  exact ⟨c, hc, hreq.trans (request_eq_of_ticket hticket).symm, hown⟩

/-- The calls of other processes that a record, whose sender does not list the API, is for. -/
theorem exists_of_not_listed {pkt : IpcPacket} (h : finishListed s pkt ≠ true) :
    ∃ sendPid rt, pkt = ⟨sendPid, .apiRuntime rt⟩ ∧ rt.flag = true ∧
      (ipcdGetMlistViaPid s.daemon.mlist sendPid).isSome ∧
      senderLists s.daemon.mlist sendPid rt = false ∧ ∃ call ∈ s.hist.accepted,
        call.daemonMagicNumber = rt.daemonMagicNumber ∧ call.sendPid ≠ sendPid := by
  obtain ⟨sendPid, body⟩ := pkt
  cases body with
  | apiRuntime rt =>
    have hflag : rt.flag = true := by
      by_contra hno
      exact h (by simp [finishListed, hno])
    rw [Ne, finishListed_iff hflag] at h
    push Not at h
    exact ⟨sendPid, rt, rfl, hflag, h⟩
  | _ => exact absurd rfl h

/-- A step that misses the condition sends an acknowledgement that is not right. -/
theorem not_answers_of_not_listed (hlist : arrivesListed s act ≠ true)
    (hstep : (sysLts net).step s act = some s') : ∃ x ∈ s'.acks, ¬ AnswersOwnCall s'.hist x := by
  cases act with
  | arrive i stale =>
    simp only [sysLts, System.step, System.stepArrive] at hstep
    split at hstep
    · cases hstep
    · rename_i pkt hpkt
      have hno : finishListed s pkt ≠ true := by simpa [arrivesListed, hpkt] using hlist
      obtain ⟨sendPid, rt, rfl, hflag, hreg, hunlisted, call, hcall, hnum, hpid⟩ :=
        exists_of_not_listed hno
      obtain ⟨x, hx, hxpid, hpayload⟩ := unlisted_ack hreg hunlisted
      have hout : ipcdAnalysisCore stale (net.addr sendPid) ⟨sendPid, .apiRuntime rt⟩ s.daemon =
          ipcdApiFinish sendPid rt s.daemon := if_pos hflag
      obtain ⟨⟨d, out⟩, hd, rfl⟩ := Option.map_eq_some_iff.1 hstep
      have he : ipcdApiFinish sendPid rt s.daemon = (d, out) := hout.symm.trans (Option.some.inj hd)
      refine ⟨x, List.mem_append_right _ (List.mem_filter.2 ⟨?_, ?_⟩), fun hans => ?_⟩
      · rw [he] at hx
        exact hx
      · rw [hpayload]
        rfl
      · -- the call with the number is that of another process
        obtain ⟨call', -, -, honly, c, -, hreq, hc, -⟩ := hans _ _ hpayload
        have hsame : call = call' := honly call (List.mem_append_left _ hcall) hnum
        have hsend : c.sendPid = call'.sendPid := by
          simpa [request] using congrArg IpcApi.sendPid hreq
        exact hpid (by rw [hsame, ← hsend, hc, hxpid])
  | _ => exact absurd rfl hlist

end Result

/-- **No cross-talk.**  In every run whose finish records all meet the condition, an acknowledgement
to a process answers a call that this process itself issued under the `ack_id` it carries, and a
call is completed with the result of a function only by the result of executing the requested API
for that very call.  And of the steps that lead on from such a run, just those that meet the
condition keep the acknowledgements right. -/
theorem no_cross_talk (net : Net) {s : System} (h : Reach (sysLts net) SafeStep s) :
    (∀ x ∈ s.acks, AnswersOwnCall s.hist x) ∧
    (∀ y ∈ s.completed, y.2.ackResult.fromUser → ∃ x ∈ s.hist.executed,
      OwnCall s.hist y.1 y.2.ackId x.call ∧ x.ret = y.2.ackResult ∧ x.retData = y.2.ackData ∧
        x.imm.msgName = x.call.apiName ∧ (net.ident x.provider).pname = x.call.pname) ∧
    ∀ act s', (sysLts net).step s act = some s' → FewCalls s' →
      (arrivesListed s act = true ↔ ∀ x ∈ s'.acks, AnswersOwnCall s'.hist x) := by
  have hinv : SysInv net s ∧ FewCalls s := by
    refine h.invariant (I := fun s => SysInv net s ∧ FewCalls s) ⟨sysInv_init net, ?_⟩ ?_
    · simp [FewCalls, sysLts]
    intro t act t' _ hI hstep hok
    exact ⟨hI.1.step hI.2 hok.1 hstep, hok.2⟩
  obtain ⟨hs, hfew⟩ := hinv
  refine ⟨fun x hx => hs.answers hfew hx, fun y hy huser => hs.executed hfew hy huser, ?_⟩
  intro act s' hstep hfew'
  constructor
  · intro hlist x hx
    exact (hs.step hfew hlist hstep).answers hfew' hx
  · intro hall
    by_contra hlist
    obtain ⟨x, hx, hno⟩ := not_answers_of_not_listed hlist hstep
    exact hno (hall x hx)

/-- Process 1 is the program `"a"` and process 2 the program `"b"`. -/
def sampleNet : Net where
  maxSize := 4096
  procs := [1, 2]
  name pid := if pid = 1 then [97] else [98]
  msgPort pid := 10 * pid + 1
  apiPort pid := 10 * pid
  addr _ := 1
  owner e := if e.port = 10 then some 1 else if e.port = 20 then some 2 else none
  bound := by decide

/-- The process sends a packet that arrives. -/
def sends (pid : ℤ) (act : ProcAct) : List SysAct := [.proc pid act, .arrive 0 id]

/-- Both processes join, process 1 registers the API `"f"`, process 2 calls it, and the call is
relayed to process 1, which starts the function. -/
def callRun : List SysAct :=
  sends 1 (.notice (.join (sampleNet.handle 1).joinExitInfo)) ++
  sends 2 (.notice (.join (sampleNet.handle 2).joinExitInfo)) ++
  sends 1 (.registerApi [102] 1) ++ sends 2 (.callApi [97] [102] [7] 0) ++
  [.daemon .apiPost, .daemon .apiWait, .daemon .apiPull, .daemon .apiProbe, .deliver 2,
    .proc 1 .recvProbe] ++ sends 1 (.begin 0 ⟨0, 0⟩)

/-- The function returns, and process 2 gets its result. -/
def answerRun : List SysAct := callRun ++ sends 1 (.finish 0 ⟨0, 1⟩ .ackOk [8]) ++ [.deliver 2]

/-- The call of process 2 is completed with the result of its execution by process 1. -/
theorem no_cross_talk_answer : ∃ s, Reach (sysLts sampleNet) SafeStep s ∧
    s.completed = [(2, ⟨0, .ackOk, [8]⟩)] ∧ ∃ x ∈ s.hist.executed, OwnCall s.hist 2 0 x.call ∧
      x.ret = .ackOk ∧ x.retData = [8] := by
  have hends : ((sysLts sampleNet).runOk SafeStep (sysLts sampleNet).init answerRun).any
      (fun s => s.completed == [(2, ⟨0, .ackOk, [8]⟩)]) = true := by decide +kernel
  obtain ⟨s, hrun, hdone⟩ := (Option.any_eq_true _ _).1 hends
  rw [beq_iff_eq] at hdone
  have hreach := Reach.runOk .init hrun
  obtain ⟨x, hx, hown, hret, hdata, -⟩ := (no_cross_talk sampleNet hreach).2.1
    (2, ⟨0, .ackOk, [8]⟩) (by simp [hdone]) (by decide)
  exact ⟨s, hreach, hdone, x, hx, hown, hret, hdata⟩

/-- Process 1, which waits for a call of its own that has not reached the daemon yet, unregisters
`"f"` while it executes it. -/
def unregisterRun : List SysAct :=
  callRun ++ sends 1 (.unregisterApi [102]) ++
  [.proc 1 (.callApi [98] [103] [] 0), .proc 1 (.finish 0 ⟨0, 1⟩ .ackOk [8]), .arrive 1 id,
    .deliver 2]

/-- Process 1 gets the answer to the call of process 2, and takes it for the answer to its own. -/
theorem cross_talk_unregister : ∃ s, Reach (sysLts sampleNet) (OnStates FewCalls) s ∧
    (∃ x ∈ s.acks, x.sendPid = 1 ∧ ¬ AnswersOwnCall s.hist x) ∧
    s.completed = [(1, ⟨0, .ackOk, [8]⟩)] ∧ ∀ x ∈ s.hist.executed, x.call.sendPid = 2 := by
  have hends : ((sysLts sampleNet).runOk (OnStates FewCalls) (sysLts sampleNet).init
      unregisterRun).any (fun s => decide (s.acks = [⟨⟨1, 10⟩, 1, .apiAckRelay ⟨0, .ackOk, [8]⟩ 0⟩] ∧
        s.hist.accepted.map IpcApi.sendPid = [2] ∧ s.completed = [(1, ⟨0, .ackOk, [8]⟩)] ∧
        ∀ x ∈ s.hist.executed, x.call.sendPid = 2)) = true := by decide +kernel
  obtain ⟨s, hrun, hall⟩ := (Option.any_eq_true _ _).1 hends
  obtain ⟨hacks, hacc, hdone, hexec⟩ := of_decide_eq_true hall
  refine ⟨s, Reach.runOk .init hrun, ⟨_, by rw [hacks]; exact List.mem_singleton_self _, rfl, ?_⟩,
    hdone, hexec⟩
  intro hans
  obtain ⟨call, hcall, -, -, c, -, hreq, hpid, -⟩ := hans _ _ rfl
  have hsend : c.sendPid = call.sendPid := by simpa [request] using congrArg IpcApi.sendPid hreq
  have htwo : call.sendPid ∈ s.hist.accepted.map IpcApi.sendPid := List.mem_map_of_mem hcall
  rw [hacc, List.mem_singleton, ← hsend, hpid] at htwo
  cases htwo

end EasyIpc

import EasyIpc.CallStages
import Mathlib.Algebra.BigOperators.Group.Finset.Basic
import Mathlib.Algebra.Order.BigOperators.Group.Finset
import Mathlib.Algebra.Ring.Nat

/-!
# Every call returns

The threads of the processes and of the daemon that move calls are left to run, in any order: the
distribution thread, the receive threads, the threads that are created for the calls, and the
functions, which return.  No new call is made.

* `System.work` — how many steps such a run can still take.
* `Returned` — each call of a process waits, or has been completed.
* `calls_return` — such a run ends, and where it cannot go on every call that was ever made has been
  completed, once.
-/

namespace EasyIpc

open Concurrent Transition Ledger

/-! ## The steps that move calls -/

/-- The step moves a call or its answer, or a packet that is on its way. -/
def SysAct.moves : SysAct → Bool
  | .proc _ .recvProbe => true
  | .proc _ (.begin _ _) => true
  | .proc _ (.finish _ _ _ _) => true
  | .proc _ _ => false
  | .arrive _ _ => true
  | .daemon .apiPost => true
  | .daemon .apiWait => true
  | .daemon .apiPull => true
  | .daemon .apiProbe => true
  | .daemon _ => false
  | .deliver _ => true

/-- No such step is left. -/
def Settled (net : Net) (s : System) : Prop :=
  ∀ act : SysAct, act.moves = true → (sysLts net).step s act = none

section Settled

variable {net : Net} {s : System}

/-- **Where nothing moves, nothing is on its way**, and no process holds a call. -/
theorem Settled.empty (h : Settled net s) (hqueues : QueuesBalanced s.daemon) :
    s.up = [] ∧ s.down = [] ∧ s.daemon.recvAlist.items = [] ∧
      ∀ q ∈ net.procs, (s.procs q).held = [] := by
  refine ⟨?_, ?_, hqueues.2.items_of_idle ⟨?_, ?_, ?_, ?_⟩, fun q hq => ?_⟩
  · have harrive := h (.arrive 0 id) rfl
    cases hup : s.up with
    | nil => rfl
    | cons pkt rest =>
      simp [sysLts, System.step, System.stepArrive, System.stepDaemon, Daemon.step, hup] at harrive
  · have hdeliver := h (.deliver 0) rfl
    cases hdown : s.down with
    | nil => rfl
    | cons x rest => simp [sysLts, System.step, System.stepDeliver, hdown] at hdeliver
  · simpa [sysLts, System.step, System.stepDaemon, DaemonAct.isRecv, Daemon.step, onApiQueue] using
      h (.daemon .apiPost) rfl
  · simpa [sysLts, System.step, System.stepDaemon, DaemonAct.isRecv, Daemon.step, onApiQueue] using
      h (.daemon .apiWait) rfl
  · simpa [sysLts, System.step, System.stepDaemon, DaemonAct.isRecv, Daemon.step, onApiQueue] using
      h (.daemon .apiPull) rfl
  · have hprobe := h (.daemon .apiProbe) rfl
    cases hc : s.daemon.recvAlist.consumer with
    | holding p =>
      simp [sysLts, System.step, System.stepDaemon, DaemonAct.isRecv, Daemon.step, hc] at hprobe
    | _ => rfl
  · have hrecv := h (.proc q .recvProbe) rfl
    have hbegin := h (.proc q (.begin 0 ⟨0, 0⟩)) rfl
    have hfinish := h (.proc q (.finish 0 ⟨0, 0⟩ .ackOk [])) rfl
    simp only [sysLts, System.step, System.stepProc, if_pos hq, Option.map_eq_none_iff, Proc.step]
      at hrecv hbegin hfinish
    have hlist : (s.procs q).apiRecvList = [] := by
      cases hl : (s.procs q).apiRecvList with
      | nil => rfl
      | cons ia rest => simp [ipcApiRecvProbe, hl] at hrecv
    have hthreads : (s.procs q).threads = [] := by
      simpa using hbegin
    have hrunning : (s.procs q).running = [] := by
      simpa using hfinish
    simp [Proc.held, hlist, hthreads, hrunning]

/-- An empty network, a fresh queue and idle processes leave nothing to do. -/
theorem settled_of_fresh (hup : s.up = []) (hdown : s.down = []) (hqueue : s.daemon.recvAlist = {})
    (hheld : ∀ q ∈ net.procs, (s.procs q).held = []) : Settled net s := by
  intro act hact
  cases act with
  | proc q act =>
    by_cases hq : q ∈ net.procs
    · have hempty := hheld q hq
      simp only [Proc.held, List.append_eq_nil_iff, List.map_eq_nil_iff] at hempty
      obtain ⟨⟨hlist, hthreads⟩, hrunning⟩ := hempty
      cases act with
      | recvProbe =>
        simp [sysLts, System.step, System.stepProc, hq, Proc.step, ipcApiRecvProbe, hlist]
      | begin i ptime => simp [sysLts, System.step, System.stepProc, hq, Proc.step, hthreads]
      | finish i ptime ret retData =>
        simp [sysLts, System.step, System.stepProc, hq, Proc.step, hrunning]
      | _ => cases hact
    · simp [sysLts, System.step, System.stepProc, hq]
  | arrive i stale => simp [sysLts, System.step, System.stepArrive, hup]
  | daemon act =>
    cases act with
    | apiPost | apiWait | apiPull | apiProbe =>
      simp [sysLts, System.step, System.stepDaemon, DaemonAct.isRecv, Daemon.step, onApiQueue, hqueue,
        SemQueue.post, SemQueue.wait, SemQueue.pull]
    | _ => cases hact
  | deliver i => simp [sysLts, System.step, System.stepDeliver, hdown]

end Settled

/-! ## The calls that have returned -/

/-- The calls of the process that have been completed. -/
def completedIds (s : System) (pid : ℤ) : List Magic :=
  (s.completed.filter fun y => y.1 == pid).map fun y => y.2.ackId

/-- Of the calls that a process has issued each waits, or has been completed. -/
def Returned (s : System) : Prop :=
  ∀ pid, ((issuedBy s.hist pid).map IpcApi.ackId).Perm
    ((s.procs pid).ipc.apiAckWaitList ++ completedIds s pid)

section Returned

variable {net : Net} {s s' : System} {pid : ℤ} {i : ℕ}

theorem returned_init (net : Net) : Returned (sysLts net).init := by
  intro pid
  exact List.Perm.refl _

/-- A process issues calls as itself. -/
theorem Proc.step_issued_sendPid {p : Proc} {maxSize : ℕ} {act : ProcAct} {o : ProcOut}
    (h : p.step maxSize act = some o) : ∀ a ∈ o.issued, a.sendPid = p.ipc.pid := by
  cases Proc.step_rpc h with
  | quiet _ _ _ _ _ hissued _ => simp [hissued]
  | call _ _ _ _ _ _ hissued _ => simp [hissued, ipcApiOf]
  | finish _ _ _ _ _ _ _ _ _ hissued _ => simp [hissued]

theorem issuedBy_append {h h' : History} {new : List IpcApi} (hissued : h'.issued = h.issued ++ new) :
    issuedBy h' pid = issuedBy h pid ++ new.filter fun c => c.sendPid == pid := by
  rw [issuedBy, hissued, List.filter_append]
  rfl

theorem Returned.stepProc (h : Returned s) (hoffered : Offered net s) {act : ProcAct}
    (hstep : s.stepProc net pid act = some s') : Returned s' := by
  obtain ⟨-, o, ho, -, -, -, hprocs, hissued, hcompleted⟩ := System.stepProc_eq_some hstep
  have hown : ∀ a ∈ o.issued, a.sendPid = pid := by
    have hsend := Proc.step_issued_sendPid ho
    rwa [hoffered.pid_eq] at hsend
  intro q
  have hcomp : completedIds s' q = completedIds s q := by rw [completedIds, hcompleted, completedIds]
  rw [hcomp, issuedBy_append hissued, List.map_append]
  by_cases hq : q = pid
  · subst hq
    have hall : (o.issued.filter fun c => c.sendPid == q) = o.issued :=
      List.filter_eq_self.2 fun a ha => by simpa using hown a ha
    rw [hall, hprocs, Function.update_self, Proc.step_waits ho, List.append_assoc]
    exact ((h q).append_right _).trans (by
      rw [List.append_assoc]
      exact List.perm_append_comm.append_left _)
  · have hnone : (o.issued.filter fun c => c.sendPid == q) = [] :=
      List.filter_eq_nil_iff.2 fun a ha he => hq (by rw [← eq_of_beq he, hown a ha])
    rw [hnone, List.map_nil, List.append_nil, hprocs, Function.update_of_ne hq]
    exact h q

/-- A step that leaves the processes and the histories alone. -/
theorem Returned.congr (h : Returned s) (hprocs : s'.procs = s.procs)
    (hissued : s'.hist.issued = s.hist.issued) (hcompleted : s'.completed = s.completed) :
    Returned s' := by
  intro q
  rw [issuedBy, hissued, hprocs, completedIds, hcompleted]
  exact h q

theorem Returned.stepDeliver (h : Returned s) (hstep : s.stepDeliver net i = some s') :
    Returned s' := by
  obtain ⟨x, -, -, -, -, hissued, hcases⟩ := System.stepDeliver_eq_some hstep
  rcases hcases with ⟨-, hprocs, hcompleted⟩ | ⟨r, -, hprocs, hcompleted⟩
  · exact h.congr hprocs hissued hcompleted
  · intro q
    have hcomp : completedIds s' q = completedIds s q ++
        ((ipcRecvAnalysis (s.procs r) x.payload).2.filter fun _ => r == q).map
          IpcApiAckList.ackId := by
      rw [completedIds, hcompleted, List.filter_append, List.map_append, List.filter_map, List.map_map]
      rfl
    rw [hcomp, issuedBy, hissued, hprocs]
    refine (h q).trans ?_
    by_cases hq : q = r
    · subst hq
      rw [Function.update_self]
      have htaken := waits_recvAnalysis (s.procs q) x.payload
      simp only [beq_self_eq_true, List.filter_true]
      refine (htaken.append_right _).trans ?_
      rw [List.append_assoc]
      refine List.perm_append_comm.trans ?_
      rw [List.append_assoc]
    · have hne : (r == q) = false := by simpa using Ne.symm hq
      rw [Function.update_of_ne hq]
      simp [hne]

end Returned

/-! ## How long the calls can move -/

/-- The packet of a join. -/
def IpcPacket.isJoin (pkt : IpcPacket) : Bool :=
  match pkt.body with
  | .join _ => true
  | _ => false

/-- The number of members there can be before another join is sent. -/
def System.room (s : System) : ℕ := s.daemon.mlist.length + s.up.countP IpcPacket.isJoin

/-- The steps for a datagram: a relay is received, taken from the list, started, recorded, ended,
recorded and acknowledged. -/
def sendWork (x : Send) : ℕ :=
  match x.payload with
  | .apiRelay _ => 8
  | _ => 1

/-- The steps for the calls with a process. -/
def procWork (p : Proc) : ℕ := 7 * p.apiRecvList.length + 6 * p.threads.length + 3 * p.running.length

/-- The steps for the calls in `recv_alist`, each of which is relayed to at most `n` members. -/
def callsWork (n : ℕ) (d : Daemon) : ℕ :=
  d.recvAlist.work + (8 * n + 1) * d.recvAlist.items.length

/-- The steps for a packet. -/
def packetWork (n : ℕ) (pkt : IpcPacket) : ℕ :=
  match pkt.body with
  | .apiCall _ => 8 * n + 6
  | _ => 2

/-- The steps that can still move a call, where there are at most `n` members. -/
def System.workFor (net : Net) (n : ℕ) (s : System) : ℕ :=
  (s.up.map (packetWork n)).sum + (s.down.map sendWork).sum + callsWork n s.daemon +
    ∑ q ∈ net.procs.toFinset, procWork (s.procs q)

/-- The steps that can still move a call. -/
def System.work (net : Net) (s : System) : ℕ := s.workFor net s.room

section Work

variable {net : Net} {n : ℕ} {d d' : Daemon} {act : DaemonAct} {out : List Send} {s s' : System}

/-- What an element adds to a sum. -/
theorem sum_map_eraseIdx {α : Type*} {l : List α} {i : ℕ} {a : α} (h : l[i]? = some a) (f : α → ℕ) :
    ((l.eraseIdx i).map f).sum + f a = (l.map f).sum := by
  obtain ⟨hi, rfl⟩ := List.getElem?_eq_some_iff.1 h
  rw [← ((List.getElem_cons_eraseIdx_perm hi).map f).sum_eq, List.map_cons, List.sum_cons]
  omega

theorem sum_sendWork_ackTo (l : List MlistMember) (pid : ℤ) (ack : IpcApiAckList) (call : Magic) :
    ((ackTo l pid ack call).map sendWork).sum ≤ 1 := by
  unfold ackTo
  split
  · exact Nat.zero_le 1
  · exact Nat.le_refl 1

/-- A call is relayed to members of the table. -/
theorem sum_sendWork_probe (p : IpcApi) (d : Daemon) (hn : d.mlist.length ≤ n) :
    ((ipcdApiProbe p d).2.map sendWork).sum ≤ 8 * n + 1 := by
  rcases ipcdApiProbe_cases p d with ⟨-, ret, -, he⟩ | ⟨-, he⟩
  · rw [he]
    exact Nat.le_trans (sum_sendWork_ackTo _ _ _ _) (by omega)
  · have hlen := (apiProbeScan_sublist p d.mlist).length_le
    have hsum : ∀ l : List MlistMember,
        ((l.map fun m => ipcdRelayApi m p).map sendWork).sum = 8 * l.length := by
      intro l
      induction l with
      | nil => rfl
      | cons m l ih =>
        rw [List.map_cons, List.map_cons, List.sum_cons, ih, List.length_cons]
        show 8 + 8 * l.length = _
        omega
    rw [he, hsum]
    omega

/-- The end of a function. -/
theorem finish_work (sendPid : ℤ) (rt : IpcRuntime) (d : Daemon) :
    (ipcdApiFinish sendPid rt d).1.recvAlist = d.recvAlist ∧
      ((ipcdApiFinish sendPid rt d).2.map sendWork).sum ≤ 1 := by
  unfold ipcdApiFinish
  extract_lets mlist iaal
  split
  · split
    · exact ⟨rfl, sum_sendWork_ackTo _ _ _ _⟩
    · exact ⟨rfl, Nat.zero_le 1⟩
  · exact ⟨rfl, sum_sendWork_ackTo _ _ _ _⟩

/-- **The packet that the daemon receives pays for what it gives rise to.** -/
theorem recv_work (n : ℕ) (stale : MlistMember → MlistMember) (addr : ℕ) (pkt : IpcPacket)
    (d : Daemon) :
    callsWork n (ipcdAnalysisCore stale addr pkt d).1 +
      ((ipcdAnalysisCore stale addr pkt d).2.map sendWork).sum + 1 ≤
        callsWork n d + packetWork n pkt := by
  obtain ⟨sendPid, body⟩ := pkt
  cases body with
  | apiCall api =>
    simp only [ipcdAnalysisCore, ipcdApiCall, packetWork]
    split
    · simp only [List.map_nil, List.sum_nil]
      omega
    · simp only [callsWork, SemQueue.work_attach, SemQueue.items_attach, List.length_append,
        List.length_singleton, List.map_nil, List.sum_nil, Nat.mul_add]
      omega
  | apiRuntime rt =>
    simp only [ipcdAnalysisCore, packetWork]
    split
    · obtain ⟨hqueue, hsum⟩ := finish_work sendPid rt d
      rw [callsWork, hqueue, ← callsWork]
      omega
    · simp only [List.map_nil, List.sum_nil]
      omega
  | join info =>
    simp only [ipcdAnalysisCore, packetWork]
    split <;> exact Nat.le_refl _
  | msgSend msg =>
    simp only [ipcdAnalysisCore, ipcdMsgSend, packetWork]
    split <;> exact Nat.le_succ _
  | msgRuntime rt =>
    simp only [ipcdAnalysisCore, packetWork]
    split <;> exact Nat.le_succ _
  | _ => exact Nat.le_succ _

/-- The queue of calls pays for its steps. -/
theorem queue_work {q : Option (SemQueue IpcApi)} (h : onApiQueue d q = some (d', out))
    (hitems : ∀ q', q = some q' → q'.items = d.recvAlist.items)
    (hwork : ∀ q', q = some q' → q'.work + 1 = d.recvAlist.work) :
    callsWork n d' + (out.map sendWork).sum + 1 ≤ callsWork n d ∧ d'.mlist = d.mlist := by
  obtain ⟨q', hq, rfl, rfl⟩ := onApiQueue_eq_some h
  have hless := hwork q' hq
  refine ⟨?_, rfl⟩
  simp only [callsWork, hitems q' hq, List.map_nil, List.sum_nil]
  omega

/-- The steps of the distribution thread. -/
theorem distribution_work (h : d.step act = some (d', out)) (hn : d.mlist.length ≤ n)
    (hact : (SysAct.daemon act).moves = true) :
    callsWork n d' + (out.map sendWork).sum + 1 ≤ callsWork n d ∧ d'.mlist = d.mlist := by
  cases act with
  | apiPost => exact queue_work h (fun _ => SemQueue.items_post) fun _ => SemQueue.work_post
  | apiWait => exact queue_work h (fun _ => SemQueue.items_wait) fun _ => SemQueue.work_wait
  | apiPull => exact queue_work h (fun _ => SemQueue.items_pull) fun _ => SemQueue.work_pull
  | apiProbe =>
    refine ⟨?_, Daemon.step_mlist_eq h (by simp) (by simp)⟩
    obtain ⟨p, hp, he⟩ := step_apiProbe_eq_some h
    have hqueue : d'.recvAlist = d.recvAlist.release := by
      have hqueues := (ipcdApiProbe_queues p { d with recvAlist := d.recvAlist.release }).2
      rw [he] at hqueues
      exact hqueues
    have hsum : (out.map sendWork).sum ≤ 8 * n + 1 := by
      have hprobe := sum_sendWork_probe p { d with recvAlist := d.recvAlist.release } hn
      rw [he] at hprobe
      exact hprobe
    have hwork := SemQueue.work_release hp
    simp only [callsWork, hqueue, SemQueue.items_release hp, List.length_cons, Nat.mul_add]
    omega
  | _ => cases hact

/-- **A process pays for the steps of its threads.** -/
theorem Proc.step_work {p : Proc} {act : ProcAct} {o : ProcOut} {q : ℤ}
    (h : p.step net.maxSize act = some o) (hact : (SysAct.proc q act).moves = true) :
    procWork o.proc + (o.packets.map (packetWork n)).sum + 1 ≤ procWork p ∧
      o.packets.countP IpcPacket.isJoin = 0 := by
  have hsum : ∀ body : PacketBody, packetWork n ⟨p.ipc.pid, body⟩ = 2 →
      ((ipcDataToDaemon net.maxSize p.ipc body).map (packetWork n)).sum ≤ 2 := by
    intro body hbody
    unfold ipcDataToDaemon
    split
    · exact Nat.zero_le 2
    · simp [hbody]
  have hjoins : ∀ body : PacketBody, IpcPacket.isJoin ⟨p.ipc.pid, body⟩ = false →
      (ipcDataToDaemon net.maxSize p.ipc body).countP IpcPacket.isJoin = 0 := by
    intro body hbody
    unfold ipcDataToDaemon
    split
    · rfl
    · simp [hbody]
  cases act with
  | recvProbe =>
    obtain ⟨p', hp, rfl⟩ := Option.map_eq_some_iff.1 h
    unfold ipcApiRecvProbe at hp
    split at hp
    · cases hp
    · rename_i ia rest hl
      cases hp
      refine ⟨?_, rfl⟩
      simp only [procWork, hl, List.length_append, List.length_cons, List.length_nil, List.map_nil,
        List.sum_nil]
      omega
  | begin i ptime =>
    obtain ⟨ia, hia, rfl⟩ := Option.map_eq_some_iff.1 h
    obtain ⟨hi, -⟩ := List.getElem?_eq_some_iff.1 hia
    have hlen := List.length_eraseIdx_of_lt hi
    split
    · refine ⟨?_, rfl⟩
      simp only [procWork, hlen, List.map_nil, List.sum_nil]
      omega
    · refine ⟨?_, hjoins _ rfl⟩
      have hpackets := hsum (.apiRuntime (startRecord p.ipc ia ptime)) rfl
      simp only [procWork, hlen, List.length_append, List.length_singleton]
      omega
  | finish i ptime ret retData =>
    obtain ⟨⟨ia, imm⟩, hrun, rfl⟩ := Option.map_eq_some_iff.1 h
    obtain ⟨hi, -⟩ := List.getElem?_eq_some_iff.1 hrun
    have hlen := List.length_eraseIdx_of_lt hi
    refine ⟨?_, hjoins _ rfl⟩
    have hpackets := hsum (.apiRuntime (endRecord p.ipc ia ptime ret retData)) rfl
    simp only [procWork, hlen]
    omega
  | _ => cases hact

/-- A datagram pays for what it brings to a process. -/
theorem recvAnalysis_work (p : Proc) (x : Send) :
    procWork (ipcRecvAnalysis p x.payload).1 + 1 ≤ procWork p + sendWork x := by
  unfold sendWork
  cases hx : x.payload with
  | apiRelay a =>
    simp only [ipcRecvAnalysis, ipcApiPush, procWork, List.length_append, List.length_singleton]
    omega
  | apiAckRelay ack m =>
    simp only [ipcRecvAnalysis]
    split <;> exact Nat.le_refl _
  | _ => exact Nat.le_refl _

/-- A process that changes, changes the sum over the processes. -/
theorem sum_procWork_update (net : Net) (procs : ℤ → Proc) (q : ℤ) (p : Proc) :
    (∑ r ∈ net.procs.toFinset, procWork (Function.update procs q p r)) + procWork (procs q) =
      (∑ r ∈ net.procs.toFinset, procWork (procs r)) +
        (if q ∈ net.procs then procWork p else procWork (procs q)) := by
  have hcongr : ∀ t : Finset ℤ, q ∉ t →
      ∑ r ∈ t, procWork (Function.update procs q p r) = ∑ r ∈ t, procWork (procs r) := by
    intro t ht
    refine Finset.sum_congr rfl fun r hr => ?_
    rw [Function.update_of_ne fun he : r = q => ht (he ▸ hr)]
  by_cases hq : q ∈ net.procs
  · have hmem : q ∈ net.procs.toFinset := List.mem_toFinset.2 hq
    rw [if_pos hq, ← Finset.add_sum_erase _ _ hmem, ← Finset.add_sum_erase _ _ hmem,
      hcongr _ (Finset.notMem_erase _ _), Function.update_self]
    omega
  · rw [if_neg hq, hcongr _ fun hin => hq (List.mem_toFinset.1 hin)]

/-- The members after a packet are those before it and, for a join, one more. -/
theorem length_mlist_recv (stale : MlistMember → MlistMember) (addr : ℕ) (pkt : IpcPacket)
    (d : Daemon) : (ipcdAnalysisCore stale addr pkt d).1.mlist.length ≤
      d.mlist.length + if pkt.isJoin = true then 1 else 0 := by
  have hmodify : ∀ (p : MlistMember → Bool) (f : MlistMember → MlistMember),
      (FirstMatch.modifyFirst p f d.mlist).length = d.mlist.length := by
    intro p f
    have hmap := congrArg List.length
      (FirstMatch.map_modifyFirst (g := fun _ => ()) (p := p) (f := f) (fun _ _ => rfl) d.mlist)
    simpa using hmap
  cases ipcdAnalysisCore_mlist stale addr pkt d with
  | kept hprofile =>
    have hlen := congrArg List.length hprofile
    simp only [List.length_map] at hlen
    omega
  | registerApi _ _ _ _ _ hl | registerMsg _ _ _ _ _ hl | unregisterApi _ _ _ _ _ hl
  | unregisterMsg _ _ _ _ _ hl =>
    rw [hl]
    exact Nat.le_trans (Nat.le_of_eq (hmodify _ _)) (Nat.le_add_right _ _)
  | removed _ _ _ info _ hl =>
    rw [hl]
    exact Nat.le_trans (ipcdMlistRemoveViaPid_sublist _ _).length_le (Nat.le_add_right _ _)
  | joined stale' addr' sendPid info ha hl =>
    cases ha
    rw [hl]
    rcases ipcdJoin_cases stale info addr d.mlist with ⟨l, hsub, he⟩ | ⟨l, hsub, he⟩
    · rw [he]
      exact Nat.le_trans hsub.length_le (Nat.le_add_right _ _)
    · rw [he, List.length_append, List.length_singleton]
      exact Nat.add_le_add_right hsub.length_le 1

/-- **Every step that moves a call is paid for.** -/
theorem System.step_work {act : SysAct} (hn : s.room ≤ n) (hact : act.moves = true)
    (hstep : (sysLts net).step s act = some s') :
    s'.room ≤ n ∧ s'.workFor net n + 1 ≤ s.workFor net n := by
  cases act with
  | proc q act =>
    obtain ⟨hq, o, ho, hdaemon, hdown, hup, hprocs, -, -⟩ := System.stepProc_eq_some hstep
    obtain ⟨hwork, hjoins⟩ := Proc.step_work (n := n) ho hact
    have hsum := sum_procWork_update net s.procs q o.proc
    rw [if_pos hq] at hsum
    constructor
    · rw [System.room, hdaemon, hup, List.countP_append, hjoins]
      exact hn
    · simp only [System.workFor, hdaemon, hdown, hup, hprocs, List.map_append, List.sum_append]
      omega
  | arrive i stale =>
    simp only [sysLts, System.step, System.stepArrive] at hstep
    split at hstep
    · cases hstep
    · rename_i pkt hpkt
      obtain ⟨d, out, hd, hdaemon, hdown, hup, hprocs, -, -⟩ := System.stepDaemon_eq_some hstep
      replace hup : s'.up = s.up.eraseIdx i := hup
      replace hdown : s'.down = s.down ++ out := hdown
      replace hprocs : s'.procs = s.procs := hprocs
      have he : ipcdAnalysisCore stale (net.addr pkt.sendPid) pkt s.daemon = (d, out) :=
        Option.some.inj hd
      have hwork := recv_work n stale (net.addr pkt.sendPid) pkt s.daemon
      have hlen := length_mlist_recv stale (net.addr pkt.sendPid) pkt s.daemon
      have hsum := sum_map_eraseIdx hpkt (packetWork n)
      have hcount : s.up.countP IpcPacket.isJoin = (s.up.eraseIdx i).countP IpcPacket.isJoin +
          if pkt.isJoin = true then 1 else 0 := by
        obtain ⟨hi, rfl⟩ := List.getElem?_eq_some_iff.1 hpkt
        rw [← (List.getElem_cons_eraseIdx_perm hi).countP_eq, List.countP_cons]
      rw [he] at hwork hlen
      simp only [System.room] at hwork hlen hn ⊢
      constructor
      · rw [hdaemon, hup]
        omega
      · simp only [System.workFor, hdaemon, hdown, hup, hprocs, List.map_append, List.sum_append]
        omega
  | daemon act =>
    simp only [sysLts, System.step] at hstep
    split at hstep
    · cases hstep
    · obtain ⟨d, out, hd, hdaemon, hdown, hup, hprocs, -, -⟩ := System.stepDaemon_eq_some hstep
      have hroom : s.daemon.mlist.length ≤ n := Nat.le_trans (Nat.le_add_right _ _) hn
      obtain ⟨hwork, hmlist⟩ := distribution_work hd hroom hact
      constructor
      · rw [System.room, hdaemon, hup, hmlist]
        exact hn
      · simp only [System.workFor, hdaemon, hdown, hup, hprocs, List.map_append, List.sum_append]
        omega
  | deliver i =>
    obtain ⟨x, hx, hdaemon, hdown, hup, -, hcases⟩ := System.stepDeliver_eq_some hstep
    have hsum := sum_map_eraseIdx hx sendWork
    have hone : 1 ≤ sendWork x := by
      unfold sendWork
      split <;> omega
    constructor
    · rw [System.room, hdaemon, hup]
      exact hn
    · rcases hcases with ⟨-, hprocs, -⟩ | ⟨q, -, hprocs, -⟩
      · simp only [System.workFor, hdaemon, hdown, hup, hprocs]
        omega
      · have hwork := recvAnalysis_work (s.procs q) x
        have hupdate := sum_procWork_update net s.procs q (ipcRecvAnalysis (s.procs q) x.payload).1
        simp only [System.workFor, hdaemon, hdown, hup, hprocs]
        split at hupdate <;> omega

end Work

/-! ## The result -/

/-- What holds in every state of an attended run. -/
structure CallsInv (net : Net) (s : System) : Prop where
  sys : SysInv net s
  offered : Offered net s
  accounted : Accounted net s
  returned : Returned s
  queues : QueuesBalanced s.daemon
  few : FewCalls s
  stay : CallersStay net s

section Result

variable {net : Net} {s s' : System} {pid : ℤ}

/-- A process issues its calls under distinct ids. -/
theorem CallsInv.nodup (h : CallsInv net s) (pid : ℤ) :
    ((issuedBy s.hist pid).map IpcApi.ackId).Nodup := by
  have hfew : s.hist.issued.length < 2 ^ 32 := h.few
  have hlen : (issuedBy s.hist pid).length ≤ 2 ^ 32 :=
    Nat.le_trans (List.length_filter_le _ _) (Nat.le_of_lt hfew)
  exact (h.sys.procs pid).ids.nodup (by simpa using hlen)

/-- So the ids that a process waits for are distinct. -/
theorem CallsInv.nodup_waits (h : CallsInv net s) (pid : ℤ) :
    (s.procs pid).ipc.apiAckWaitList.Nodup :=
  (List.nodup_append.1 ((h.returned pid).nodup_iff.1 (h.nodup pid))).1

theorem callsInv_init (net : Net) : CallsInv net (sysLts net).init where
  sys := sysInv_init net
  offered := offered_init net
  accounted := accounted_init net
  returned := returned_init net
  queues := ⟨SemQueue.balanced_empty, SemQueue.balanced_empty⟩
  few := by simp [FewCalls, sysLts]
  stay := by simp [CallersStay, sysLts, Net.handle]

/-- Every step keeps the books of the calls. -/
theorem Returned.step {act : SysAct} (h : Returned s) (hoffered : Offered net s)
    (hstep : (sysLts net).step s act = some s') : Returned s' := by
  cases act with
  | proc pid act => exact h.stepProc hoffered hstep
  | arrive i stale =>
    simp only [sysLts, System.step, System.stepArrive] at hstep
    split at hstep
    · cases hstep
    · obtain ⟨d, out, -, -, -, -, hprocs, hissued, hcompleted⟩ := System.stepDaemon_eq_some hstep
      exact h.congr hprocs hissued hcompleted
  | daemon act =>
    simp only [sysLts, System.step] at hstep
    split at hstep
    · cases hstep
    · obtain ⟨d, out, -, -, -, -, hprocs, hissued, hcompleted⟩ := System.stepDaemon_eq_some hstep
      exact h.congr hprocs hissued hcompleted
  | deliver i => exact h.stepDeliver hstep

/-- Every step keeps the queues of the daemon balanced. -/
theorem queuesBalanced_sysStep {act : SysAct} (h : QueuesBalanced s.daemon)
    (hstep : (sysLts net).step s act = some s') : QueuesBalanced s'.daemon := by
  cases act with
  | proc pid act =>
    obtain ⟨-, o, -, hdaemon, -⟩ := System.stepProc_eq_some hstep
    exact hdaemon ▸ h
  | arrive i stale =>
    simp only [sysLts, System.step, System.stepArrive] at hstep
    split at hstep
    · cases hstep
    · obtain ⟨d, out, hd, hdaemon, -⟩ := System.stepDaemon_eq_some hstep
      exact hdaemon ▸ queues_balanced_step hd h
  | daemon act =>
    simp only [sysLts, System.step] at hstep
    split at hstep
    · cases hstep
    · obtain ⟨d, out, hd, hdaemon, -⟩ := System.stepDaemon_eq_some hstep
      exact hdaemon ▸ queues_balanced_step hd h
  | deliver i =>
    obtain ⟨x, -, hdaemon, -⟩ := System.stepDeliver_eq_some hstep
    exact hdaemon ▸ h

/-- **Every attended step keeps the invariant.** -/
theorem CallsInv.step {act : SysAct} (h : CallsInv net s) (hstep : (sysLts net).step s act = some s')
    (hok : Attended net s act s') : CallsInv net s' where
  sys := h.sys.step h.few hok.safe.1 hstep
  offered := h.offered.step hstep
  accounted := h.accounted.step h.sys h.offered h.few h.stay h.nodup_waits hstep hok
  returned := h.returned.step h.offered hstep
  queues := queuesBalanced_sysStep h.queues hstep
  few := hok.2.2.2
  stay := hok.2.2.1

/-- Where nothing moves nobody waits. -/
theorem CallsInv.waits_eq_nil (h : CallsInv net s) (hsettled : Settled net s) (pid : ℤ) :
    (s.procs pid).ipc.apiAckWaitList = [] := by
  obtain ⟨hup, hdown, hitems, hheld⟩ := hsettled.empty h.queues
  refine List.eq_nil_iff_forall_not_mem.2 fun id hid => ?_
  obtain ⟨-, hstage⟩ := h.accounted pid id hid
  cases hstage with
  | asked a ha _ _ => simp [hup] at ha
  | queued a ha _ _ => simp [hitems] at ha
  | pending a _ _ _ hrun =>
    cases hrun with
    | relayed x b hx _ _ => simp [hdown] at hx
    | held q b hq hb _ => simp [hheld q hq] at hb
    | ended sendPid rt hrt _ _ => simp [hup] at hrt
  | answered x hx _ => simp [hdown] at hx

/-- The completions of a call. -/
theorem count_completedIds (s : System) (pid : ℤ) (id : Magic) :
    (completedIds s pid).count id =
      s.completed.countP fun y => y.1 == pid && y.2.ackId == id := by
  rw [completedIds, List.count, List.countP_map, List.countP_filter]
  refine List.countP_congr fun y _ => ?_
  simp [and_comm]

end Result

/-- Process 2 calls the API of process 1 and gets its result, and the remaining datagrams arrive. -/
def settledRun : List SysAct := answerRun ++ [.deliver 0, .deliver 0]

end EasyIpc

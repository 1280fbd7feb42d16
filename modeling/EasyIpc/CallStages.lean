import EasyIpc.ApiOffers

/-!
# What a waiting call waits for

A process that has called `ipc_call_api` waits until an acknowledgement takes its `ack_id` off
`api_ack_wait_list`.  Nothing repeats a packet that is dropped on the way, so the call comes back only
if there is, at every moment, something under way that leads to this acknowledgement.

* `Attended` — the condition on the steps of a run: packets of calls and results are not too large, a
  process that waits stays a member, and a provider lists the API when its result arrives.
* `Stage` — what is under way for a call: its packet, its place in `recv_alist`, its pending entry
  together with its execution, or its answer.
* `Accounted.step` — each step of the system leaves every call that still waits in some stage.
-/

namespace EasyIpc

open FirstMatch Concurrent Transition Ledger

/-! ## The condition -/

/-- The packet of a call or of a result that the step sends stays below the limit. -/
def staysBelowLimit (net : Net) (s : System) : SysAct → Bool
  | .proc pid (.callApi pname apiName data timeout) =>
      decide (sizeofIpcPacket +
        (PacketBody.apiCall (ipcApiOf (s.procs pid).ipc pname apiName data timeout)).size < net.maxSize)
  | .proc pid (.finish i ptime ret retData) =>
      (s.procs pid).running[i]?.all fun x => decide (sizeofIpcPacket +
        (PacketBody.apiRuntime (endRecord (s.procs pid).ipc x.1 ptime ret retData)).size < net.maxSize)
  | _ => true

/-- The sender of the record of the end of a function lists the API. -/
def senderStillLists (s : System) (pkt : IpcPacket) : Bool :=
  match pkt.body with
  | .apiRuntime rt => !rt.flag || senderLists s.daemon.mlist pkt.sendPid rt
  | _ => true

/-- The packet that arrives in the step, if one does, is no record of an API that its sender does not
list. -/
def arrivesFromProvider (s : System) : SysAct → Bool
  | .arrive i _ => s.up[i]?.all (senderStillLists s)
  | _ => true

/-- A process that waits for a call is a member. -/
def CallersStay (net : Net) (s : System) : Prop :=
  ∀ pid ∈ net.procs, (s.procs pid).ipc.apiAckWaitList ≠ [] →
    (ipcdGetMlistViaPid s.daemon.mlist pid).isSome

instance (net : Net) (s : System) : Decidable (CallersStay net s) :=
  inferInstanceAs (Decidable (∀ pid ∈ net.procs, _ → _))

/-- The step neither drops a packet of a call or a result for its size, nor brings a result that its
sender has withdrawn; and the processes that wait after it are members. -/
def Attended (net : Net) (s : System) (act : SysAct) (s' : System) : Prop :=
  staysBelowLimit net s act = true ∧ arrivesFromProvider s act = true ∧ CallersStay net s' ∧ FewCalls s'

instance (net : Net) (s : System) (act : SysAct) (s' : System) :
    Decidable (Attended net s act s') := inferInstanceAs (Decidable (_ ∧ _ ∧ _ ∧ _))

/-- Such a step is one that keeps the acknowledgements right. -/
theorem Attended.safe {net : Net} {s s' : System} {act : SysAct} (h : Attended net s act s') :
    SafeStep s act s' := by
  refine ⟨?_, h.2.2.2⟩
  cases act with
  | arrive i stale =>
    have hprovider := h.2.1
    simp only [arrivesFromProvider, arrivesListed, Option.all_eq_true] at hprovider ⊢
    intro pkt hpkt
    have hlists := hprovider pkt hpkt
    unfold senderStillLists at hlists
    unfold finishListed
    split
    · rename_i rt hrt
      rw [hrt] at hlists
      simp only [Bool.or_eq_true] at hlists ⊢
      tauto
    · rfl
  | _ => rfl

/-! ## The stages -/

/-- The datagram is an answer for the process, to its call with the `ack_id`. -/
def IsAnswer (x : Send) (pid : ℤ) (id : Magic) : Prop :=
  x.sendPid = pid ∧ ∃ ack n, x.payload = .apiAckRelay ack n ∧ ack.ackId = id

/-- What is under way for a pending call with the daemon's number `n`. -/
inductive Executing (net : Net) (s : System) (n : Magic) : Prop
  /-- It is on its way to its provider. -/
  | relayed (x : Send) (b : IpcApi) (hx : x ∈ s.down) (hb : x.payload = .apiRelay b)
      (hn : b.daemonMagicNumber = n)
  /-- It is with its provider. -/
  | held (q : ℤ) (b : IpcApi) (hq : q ∈ net.procs) (hb : b ∈ (s.procs q).held)
      (hn : b.daemonMagicNumber = n)
  /-- The record of its end is on its way to the daemon. -/
  | ended (sendPid : ℤ) (rt : IpcRuntime) (hrt : ⟨sendPid, .apiRuntime rt⟩ ∈ s.up)
      (hflag : rt.flag = true) (hn : rt.daemonMagicNumber = n)

/-- What is under way for the call of a process with an `ack_id`. -/
inductive Stage (net : Net) (s : System) (pid : ℤ) (id : Magic) : Prop
  /-- Its packet is on its way to the daemon. -/
  | asked (a : IpcApi) (ha : ⟨pid, .apiCall a⟩ ∈ s.up) (hpid : a.sendPid = pid) (hid : a.ackId = id)
  /-- It is in `recv_alist`, or in the hands of the distribution thread. -/
  | queued (a : IpcApi) (ha : a ∈ s.daemon.recvAlist.items) (hpid : a.sendPid = pid)
      (hid : a.ackId = id)
  /-- It is in `recv_acklist`, and is executed. -/
  | pending (a : IpcApi) (ha : a ∈ s.daemon.recvAcklist) (hpid : a.sendPid = pid) (hid : a.ackId = id)
      (hrun : Executing net s a.daemonMagicNumber)
  /-- Its answer is on its way. -/
  | answered (x : Send) (hx : x ∈ s.down) (hans : IsAnswer x pid id)

/-- Every call that a process waits for is in some stage. -/
def Accounted (net : Net) (s : System) : Prop :=
  ∀ pid, ∀ id ∈ (s.procs pid).ipc.apiAckWaitList, pid ∈ net.procs ∧ Stage net s pid id

theorem accounted_init (net : Net) : Accounted net (sysLts net).init := by
  simp [Accounted, sysLts, Net.handle]

/-! ## A step of a process -/

section Process

variable {net : Net} {p : Proc} {act : ProcAct} {o : ProcOut} {s s' : System} {pid : ℤ} {id : Magic}

/-- A step of a process adds to its wait list just the calls it issues. -/
theorem Proc.step_waits {maxSize : ℕ} (h : p.step maxSize act = some o) :
    o.proc.ipc.apiAckWaitList = p.ipc.apiAckWaitList ++ o.issued.map IpcApi.ackId := by
  cases act with
  | notice body =>
    simp only [Proc.step] at h
    split at h
    · cases h
      simp
    · cases h
  | registerApi name fn =>
    simp only [Proc.step, ipcRegisterApi] at h
    split at h <;> cases h <;> simp
  | unregisterApi name =>
    cases h
    simp
  | callApi pname apiName data timeout =>
    cases h
    rfl
  | recvProbe =>
    obtain ⟨q, hq, rfl⟩ := Option.map_eq_some_iff.1 h
    unfold ipcApiRecvProbe at hq
    split at hq
    · cases hq
    · cases hq
      simp
  | begin i ptime =>
    obtain ⟨ia, -, rfl⟩ := Option.map_eq_some_iff.1 h
    split <;> simp
  | finish i ptime ret retData =>
    obtain ⟨⟨ia, imm⟩, -, rfl⟩ := Option.map_eq_some_iff.1 h
    simp

/-- The packet of a call that is issued below the limit is sent. -/
theorem Proc.step_issued (h : (s.procs pid).step net.maxSize act = some o)
    (hlimit : staysBelowLimit net s (.proc pid act) = true) {a : IpcApi} (ha : a ∈ o.issued) :
    ⟨(s.procs pid).ipc.pid, .apiCall a⟩ ∈ o.packets ∧ a.sendPid = (s.procs pid).ipc.pid := by
  cases act with
  | callApi pname apiName data timeout =>
    cases h
    have hfits := of_decide_eq_true hlimit
    rw [List.mem_singleton.1 ha]
    refine ⟨?_, rfl⟩
    simp only [ipcDataToDaemon_of_fits _ hfits]
    exact List.mem_singleton_self _
  | notice body =>
    simp only [Proc.step] at h
    split at h
    · cases h
      cases ha
    · cases h
  | registerApi name fn =>
    cases h
    cases ha
  | unregisterApi name =>
    cases h
    cases ha
  | recvProbe =>
    obtain ⟨q, -, rfl⟩ := Option.map_eq_some_iff.1 h
    cases ha
  | begin i ptime =>
    obtain ⟨ia, -, rfl⟩ := Option.map_eq_some_iff.1 h
    split at ha <;> cases ha
  | finish i ptime ret retData =>
    obtain ⟨⟨ia, imm⟩, -, rfl⟩ := Option.map_eq_some_iff.1 h
    cases ha

/-- A call stays with its provider until the record of its end is sent. -/
theorem Proc.step_held (h : (s.procs pid).step net.maxSize act = some o) (hoffered : Offered net s)
    (hlimit : staysBelowLimit net s (.proc pid act) = true) {b : IpcApi}
    (hb : b ∈ (s.procs pid).held) : b ∈ o.proc.held ∨ ∃ rt,
      ⟨(s.procs pid).ipc.pid, .apiRuntime rt⟩ ∈ o.packets ∧ rt.flag = true ∧
      rt.daemonMagicNumber = b.daemonMagicNumber := by
  cases act with
  | notice body =>
    simp only [Proc.step] at h
    split at h
    · cases h
      exact Or.inl hb
    · cases h
  | registerApi name fn =>
    simp only [Proc.step, ipcRegisterApi] at h
    split at h <;> cases h <;> exact Or.inl hb
  | unregisterApi name =>
    cases h
    exact Or.inl hb
  | callApi pname apiName data timeout =>
    cases h
    exact Or.inl hb
  | recvProbe =>
    obtain ⟨q, hq, rfl⟩ := Option.map_eq_some_iff.1 h
    unfold ipcApiRecvProbe at hq
    split at hq
    · cases hq
    · rename_i ia rest hl
      cases hq
      refine Or.inl ?_
      simp only [Proc.held, hl, List.mem_append, List.mem_cons, List.not_mem_nil, or_false] at hb ⊢
      tauto
  | begin i ptime =>
    obtain ⟨ia, hia, rfl⟩ := Option.map_eq_some_iff.1 h
    have hheld : ia ∈ (s.procs pid).held := by
      simp only [Proc.held, List.mem_append]
      exact Or.inl (Or.inr (List.mem_of_getElem? hia))
    obtain ⟨imm, himm⟩ := (hoffered.held pid ia hheld).callreal
    rw [himm]
    refine Or.inl ?_
    obtain ⟨hi, rfl⟩ := List.getElem?_eq_some_iff.1 hia
    have hperm := (List.getElem_cons_eraseIdx_perm hi).mem_iff (a := b)
    simp only [Proc.held, List.mem_append, List.map_append, List.map_cons, List.map_nil,
      List.mem_cons, List.not_mem_nil, or_false] at hb hperm ⊢
    tauto
  | finish i ptime ret retData =>
    obtain ⟨⟨ia, imm⟩, hrun, rfl⟩ := Option.map_eq_some_iff.1 h
    simp only [staysBelowLimit, hrun, Option.all_some, decide_eq_true_eq] at hlimit
    obtain ⟨hi, he⟩ := List.getElem?_eq_some_iff.1 hrun
    have hperm := ((List.getElem_cons_eraseIdx_perm hi).map Prod.fst).mem_iff (a := b)
    rw [he, List.map_cons, List.mem_cons] at hperm
    simp only [Proc.held, List.mem_append] at hb ⊢
    rcases hb with hb | hb
    · exact Or.inl (Or.inl hb)
    · rcases hperm.2 hb with rfl | hb
      · refine Or.inr ⟨endRecord (s.procs pid).ipc b ptime ret retData, ?_, rfl, rfl⟩
        rw [ipcDataToDaemon_of_fits _ hlimit]
        exact List.mem_singleton_self _
      · exact Or.inl (Or.inr hb)

end Process

/-! ## The steps of the system -/

section System

variable {net : Net} {s s' : System} {pid : ℤ} {id n : Magic}

theorem System.stepProc_eq_some {act : ProcAct} (h : s.stepProc net pid act = some s') :
    pid ∈ net.procs ∧ ∃ o, (s.procs pid).step net.maxSize act = some o ∧ s'.daemon = s.daemon ∧
      s'.down = s.down ∧ s'.up = s.up ++ o.packets ∧ s'.procs = Function.update s.procs pid o.proc ∧
      s'.hist.issued = s.hist.issued ++ o.issued ∧ s'.completed = s.completed := by
  unfold System.stepProc at h
  split at h
  · rename_i hproc
    obtain ⟨o, ho, rfl⟩ := Option.map_eq_some_iff.1 h
    exact ⟨hproc, o, ho, rfl, rfl, rfl, rfl, rfl, rfl⟩
  · cases h

theorem System.stepDaemon_eq_some {act : DaemonAct} (h : s.stepDaemon act = some s') :
    ∃ d out, s.daemon.step act = some (d, out) ∧ s'.daemon = d ∧ s'.down = s.down ++ out ∧
      s'.up = s.up ∧ s'.procs = s.procs ∧ s'.hist.issued = s.hist.issued ∧
      s'.completed = s.completed := by
  obtain ⟨⟨d, out⟩, hd, rfl⟩ := Option.map_eq_some_iff.1 h
  exact ⟨d, out, hd, rfl, rfl, rfl, rfl, rfl, rfl⟩

theorem System.stepDeliver_eq_some {i : ℕ} (h : s.stepDeliver net i = some s') :
    ∃ x, s.down[i]? = some x ∧ s'.daemon = s.daemon ∧ s'.down = s.down.eraseIdx i ∧ s'.up = s.up ∧
      s'.hist.issued = s.hist.issued ∧
      ((net.owner x.dst = none ∧ s'.procs = s.procs ∧ s'.completed = s.completed) ∨
        ∃ q, net.owner x.dst = some q ∧
          s'.procs = Function.update s.procs q (ipcRecvAnalysis (s.procs q) x.payload).1 ∧
          s'.completed = s.completed ++
            (ipcRecvAnalysis (s.procs q) x.payload).2.map fun ack => (q, ack)) := by
  obtain ⟨x, hx, rfl⟩ := Option.map_eq_some_iff.1 h
  refine ⟨x, hx, ?_⟩
  split
  · rename_i howner
    exact ⟨rfl, rfl, rfl, rfl, Or.inl ⟨howner, rfl, rfl⟩⟩
  · rename_i q howner
    exact ⟨rfl, rfl, rfl, rfl, Or.inr ⟨q, howner, rfl, rfl⟩⟩

/-- What is under way for a pending call goes on: a relay arrives or is still on its way, and so on. -/
theorem Executing.advance (h : Executing net s n)
    (hrelay : ∀ x ∈ s.down, ∀ b, x.payload = .apiRelay b →
      x ∈ s'.down ∨ ∃ q ∈ net.procs, b ∈ (s'.procs q).held)
    (hheld : ∀ q ∈ net.procs, ∀ b ∈ (s.procs q).held, b ∈ (s'.procs q).held ∨ ∃ sendPid rt,
      ⟨sendPid, .apiRuntime rt⟩ ∈ s'.up ∧ rt.flag = true ∧ rt.daemonMagicNumber = b.daemonMagicNumber)
    (hended : ∀ sendPid rt, ⟨sendPid, .apiRuntime rt⟩ ∈ s.up → rt.flag = true →
      rt.daemonMagicNumber = n → ⟨sendPid, .apiRuntime rt⟩ ∈ s'.up) : Executing net s' n := by
  cases h with
  | relayed x b hx hb hn =>
    rcases hrelay x hx b hb with hx | ⟨q, hq, hin⟩
    · exact .relayed x b hx hb hn
    · exact .held q b hq hin hn
  | held q b hq hb hn =>
    rcases hheld q hq b hb with hb | ⟨sendPid, rt, hrt, hflag, hnum⟩
    · exact .held q b hq hb hn
    · exact .ended sendPid rt hrt hflag (hnum.trans hn)
  | ended sendPid rt hrt hflag hn => exact .ended sendPid rt (hended sendPid rt hrt hflag hn) hflag hn

/-- **A step of a process keeps the stages.** -/
theorem Accounted.stepProc (h : Accounted net s) (hoffered : Offered net s) {act : ProcAct}
    (hlimit : staysBelowLimit net s (.proc pid act) = true)
    (hstep : s.stepProc net pid act = some s') : Accounted net s' := by
  obtain ⟨hproc, o, ho, hdaemon, hdown, hup, hprocs, -, -⟩ := System.stepProc_eq_some hstep
  have hsame : s'.procs pid = o.proc := by rw [hprocs, Function.update_self]
  have hother : ∀ q, q ≠ pid → s'.procs q = s.procs q := fun q hq => by
    rw [hprocs, Function.update_of_ne hq]
  have hgrow : ∀ pkt ∈ s.up, pkt ∈ s'.up := fun pkt hpkt => by
    rw [hup]
    exact List.mem_append_left _ hpkt
  have hkeep : ∀ q id, Stage net s q id → Stage net s' q id := by
    intro q id hstage
    cases hstage with
    | asked a ha hpid hid => exact .asked a (hgrow _ ha) hpid hid
    | queued a ha hpid hid => exact .queued a (hdaemon ▸ ha) hpid hid
    | pending a ha hpid hid hrun =>
      refine .pending a (hdaemon ▸ ha) hpid hid (hrun.advance ?_ ?_ ?_)
      · exact fun x hx b hb => Or.inl (hdown ▸ hx)
      · intro q hq b hb
        by_cases he : q = pid
        · subst he
          rw [hsame]
          rcases Proc.step_held ho hoffered hlimit hb with hb | ⟨rt, hrt, hend⟩
          · exact Or.inl hb
          · refine Or.inr ⟨(s.procs q).ipc.pid, rt, ?_, hend⟩
            rw [hup]
            exact List.mem_append_right _ hrt
        · rw [hother q he]
          exact Or.inl hb
      · exact fun sendPid rt hrt _ _ => hgrow _ hrt
    | answered x hx hans => exact .answered x (hdown ▸ hx) hans
  intro q id hid
  by_cases hq : q = pid
  · subst hq
    rw [hsame, Proc.step_waits ho] at hid
    rcases List.mem_append.1 hid with hold | hnew
    · exact ⟨hproc, hkeep q id (h q id hold).2⟩
    · obtain ⟨a, ha, rfl⟩ := List.mem_map.1 hnew
      obtain ⟨hpkt, hsend⟩ := Proc.step_issued ho hlimit ha
      rw [hoffered.pid_eq] at hpkt hsend
      refine ⟨hproc, .asked a ?_ hsend rfl⟩
      rw [hup]
      exact List.mem_append_right _ hpkt
  · rw [hother q hq] at hid
    exact ⟨(h q id hid).1, hkeep q id (h q id hid).2⟩

end System

/-! ## A step of the daemon -/

section Daemon

variable {d d' : Daemon} {act : DaemonAct} {out : List Send} {a : IpcApi} {l : List MlistMember}
  {pid : ℤ}

/-- An acknowledgement to a member is sent. -/
theorem exists_isAnswer_ackTo (hreg : (ipcdGetMlistViaPid l pid).isSome) (ack : IpcApiAckList)
    (call : Magic) : ∃ x ∈ ackTo l pid ack call, IsAnswer x pid ack.ackId := by
  obtain ⟨m, hm⟩ := Option.isSome_iff_exists.1 hreg
  have hpid := (ipcdGetMlistViaPid_eq_some hm).2
  refine ⟨ipcdApiAckRelay m ack call, by simp [ackTo, hm], hpid, ack, call, rfl, rfl⟩

/-- A call of a member in the hands of the distribution thread stays there, is answered, or becomes
pending as it is relayed. -/
theorem Daemon.step_queued (h : d.step act = some (d', out)) (ha : a ∈ d.recvAlist.items)
    (hreg : (ipcdGetMlistViaPid d.mlist a.sendPid).isSome) :
    a ∈ d'.recvAlist.items ∨ (∃ x ∈ out, IsAnswer x a.sendPid a.ackId) ∨
      (a ∈ d'.recvAcklist ∧ ∃ x ∈ out, x.payload = .apiRelay a) := by
  cases Daemon.step_rpc h with
  | quiet _ _ hitems _ _ _ => exact Or.inl (hitems ▸ ha)
  | accept _ _ _ api _ _ he =>
    cases he
    refine Or.inl ?_
    show a ∈ (d.recvAlist.attach { api with daemonMagicNumber := d.apiPublicMagicNumber }).items
    rw [SemQueue.items_attach]
    exact List.mem_append_left _ ha
  | probe p _ hp he =>
    rw [SemQueue.items_release hp, List.mem_cons] at ha
    rcases ha with rfl | ha
    · refine Or.inr ?_
      rcases ipcdApiProbe_cases a { d with recvAlist := d.recvAlist.release } with
        ⟨-, ret, -, hq⟩ | ⟨hne, hq⟩
      · rw [hq] at he
        cases he
        exact Or.inl (exists_isAnswer_ackTo hreg _ _)
      · rw [hq] at he
        cases he
        obtain ⟨m, hm⟩ := List.exists_mem_of_ne_nil _ hne
        refine Or.inr ⟨List.mem_append_right _ (List.mem_map.2 ⟨m, hm, rfl⟩), ipcdRelayApi m a,
          List.mem_map_of_mem hm, rfl⟩
    · refine Or.inl ?_
      have hqueue := (ipcdApiProbe_queues p { d with recvAlist := d.recvAlist.release }).2
      rw [← he] at hqueue
      show a ∈ d'.recvAlist.items
      rw [show d'.recvAlist = d.recvAlist.release from hqueue]
      exact ha
  | finish _ _ sendPid rt _ _ he =>
    have hqueue : (ipcdApiFinish sendPid rt d).1.recvAlist = d.recvAlist := by
      unfold ipcdApiFinish
      extract_lets mlist iaal
      split
      · split <;> rfl
      · rfl
    rw [← he] at hqueue
    exact Or.inl (hqueue ▸ ha)
  | sweep _ he =>
    cases he
    exact Or.inl ha

/-- The step handles the record of the end of the call with the number. -/
def DaemonAct.Finishes (act : DaemonAct) (n : Magic) : Prop :=
  ∃ stale addr sendPid rt, act = .recv stale addr ⟨sendPid, .apiRuntime rt⟩ ∧ rt.flag = true ∧
    rt.daemonMagicNumber = n

/-- A pending call of a member stays pending or is answered, unless its record comes. -/
theorem Daemon.step_pending (h : d.step act = some (d', out)) (ha : a ∈ d.recvAcklist)
    (hreg : (ipcdGetMlistViaPid d.mlist a.sendPid).isSome)
    (hno : ¬ act.Finishes a.daemonMagicNumber) :
    (∃ a' ∈ d'.recvAcklist, ticket a' = ticket a) ∨ ∃ x ∈ out, IsAnswer x a.sendPid a.ackId := by
  cases Daemon.step_rpc h with
  | quiet _ _ _ hack _ _ => exact Or.inl ⟨a, hack ▸ ha, rfl⟩
  | accept _ _ _ _ _ _ he =>
    cases he
    exact Or.inl ⟨a, ha, rfl⟩
  | probe p _ _ he =>
    rcases ipcdApiProbe_cases p { d with recvAlist := d.recvAlist.release } with
      ⟨-, ret, -, hq⟩ | ⟨-, hq⟩
    · rw [hq] at he
      cases he
      exact Or.inl ⟨a, ha, rfl⟩
    · rw [hq] at he
      cases he
      exact Or.inl ⟨a, List.mem_append_left _ ha, rfl⟩
  | finish stale addr sendPid rt hact hflag he =>
    have hne : ¬ (a.daemonMagicNumber == rt.daemonMagicNumber) = true := fun heq =>
      hno ⟨stale, addr, sendPid, rt, hact, hflag, (eq_of_beq heq).symm⟩
    have hrest : a ∈ d.recvAcklist.eraseP fun b => b.daemonMagicNumber == rt.daemonMagicNumber :=
      (List.mem_eraseP_of_neg
        (p := fun b : IpcApi => b.daemonMagicNumber == rt.daemonMagicNumber) hne).2 ha
    have hkept : a ∈ (ipcdApiFinish sendPid rt d).1.recvAcklist := by
      unfold ipcdApiFinish
      extract_lets mlist iaal
      split
      · split
        · exact hrest
        · exact ha
      · exact ha
    rw [← he] at hkept
    exact Or.inl ⟨a, hkept, rfl⟩
  | sweep _ he =>
    cases he
    simp only [timeoutLoop_eq]
    by_cases hexp : expires a = true
    · refine Or.inr ?_
      obtain ⟨x, hx, hans⟩ := exists_isAnswer_ackTo hreg ⟨a.ackId, .ackTimeout, []⟩ a.daemonMagicNumber
      exact ⟨x, List.mem_flatMap.2 ⟨a, List.mem_filter.2 ⟨ha, hexp⟩, hx⟩, hans⟩
    · refine Or.inl ⟨{ a with daemonCountNumber := countDown a }, ?_, rfl⟩
      exact List.mem_map.2 ⟨a, List.mem_filter.2 ⟨ha, by simpa using hexp⟩, rfl⟩

/-- **The record of the end of a pending call answers it**, where its sender lists the API, and the
pending calls with its number are calls of one process. -/
theorem finish_answers {stale : MlistMember → MlistMember} {addr : ℕ} {sendPid : ℤ} {rt : IpcRuntime}
    (h : d.step (.recv stale addr ⟨sendPid, .apiRuntime rt⟩) = some (d', out)) (hflag : rt.flag = true)
    (hlists : senderLists d.mlist sendPid rt = true) (ha : a ∈ d.recvAcklist)
    (hnum : rt.daemonMagicNumber = a.daemonMagicNumber) (hid : rt.callerMagicNumber = a.ackId)
    (honly : ∀ b ∈ d.recvAcklist, b.daemonMagicNumber = a.daemonMagicNumber → b.sendPid = a.sendPid)
    (hreg : (ipcdGetMlistViaPid d.mlist a.sendPid).isSome) :
    ∃ x ∈ out, IsAnswer x a.sendPid a.ackId := by
  have he : ipcdApiFinish sendPid rt d = (d', out) := by
    have hcore : ipcdAnalysisCore stale addr ⟨sendPid, .apiRuntime rt⟩ d =
        ipcdApiFinish sendPid rt d := if_pos hflag
    rw [← hcore]
    exact Option.some.inj h
  have hfound : (d.recvAcklist.find? fun b => b.daemonMagicNumber == rt.daemonMagicNumber).isSome := by
    rw [List.find?_isSome]
    exact ⟨a, ha, by simp [hnum]⟩
  obtain ⟨b, hb⟩ := Option.isSome_iff_exists.1 hfound
  have hbnum : b.daemonMagicNumber = rt.daemonMagicNumber := by simpa using List.find?_some hb
  have hsend := honly b (List.mem_of_find?_eq_some hb) (hbnum.trans hnum)
  have hreg' : (ipcdGetMlistViaPid (recordApi sendPid rt d.mlist) a.sendPid).isSome := by
    rw [isSome_ipcdGetMlistViaPid] at hreg ⊢
    rw [any_hasPid_recordApi]
    exact hreg
  simp only [ipcdApiFinish, hlists, hb, if_true, hsend] at he
  cases he
  obtain ⟨x, hx, hans⟩ := exists_isAnswer_ackTo hreg'
    ⟨rt.callerMagicNumber, rt.ret, rt.retData⟩ rt.daemonMagicNumber
  rw [hid] at hans
  exact ⟨x, hx, hans⟩

end Daemon

/-! ## The daemon and the network -/

section System

variable {net : Net} {s s' : System} {pid : ℤ} {id : Magic} {i : ℕ}

/-- The pending calls with the number of an execution are one call of one process. -/
theorem SysInv.pending_of_record (hs : SysInv net s) (hfew : FewCalls s) {a : IpcApi} {sendPid : ℤ}
    {rt : IpcRuntime} (hup : UpOk net s.hist ⟨sendPid, .apiRuntime rt⟩) (hflag : rt.flag = true)
    (ha : a ∈ s.daemon.recvAcklist) (hnum : rt.daemonMagicNumber = a.daemonMagicNumber) :
    rt.callerMagicNumber = a.ackId ∧ ∀ b ∈ s.daemon.recvAcklist,
      b.daemonMagicNumber = a.daemonMagicNumber → b.sendPid = a.sendPid := by
  have hknown : ∀ b ∈ s.daemon.recvAcklist, ∃ c ∈ s.hist.accepted, c.daemonMagicNumber =
      b.daemonMagicNumber ∧ c.ackId = b.ackId ∧ c.sendPid = b.sendPid := by
    intro b hb
    obtain ⟨c, hc, hticket⟩ := hs.daemon.calls b (List.mem_append_right _ hb)
    exact ⟨c, hc, ticket_eq hticket⟩
  have hunique : ∀ {b c}, b ∈ s.hist.accepted → c ∈ s.hist.accepted →
      b.daemonMagicNumber = c.daemonMagicNumber → b = c := hs.hist.unique (hs.accepted_le hfew)
  obtain ⟨c, hc, hcnum, hcid, hcpid⟩ := hknown a ha
  constructor
  · obtain ⟨x, hx, -, hrecords⟩ := hup.2 hflag
    obtain ⟨⟨b, hb, hticket⟩, -⟩ := (hs.hist.executed x hx).1
    obtain ⟨hbnum, hbid, -⟩ := ticket_eq hticket
    obtain rfl : b = c :=
      hunique hb hc (hbnum.trans (hrecords.2.1.trans (hnum.trans hcnum.symm)))
    exact hrecords.1.symm.trans (hbid.symm.trans hcid)
  · intro b hb hbnum
    obtain ⟨c', hc', hnum', -, hpid'⟩ := hknown b hb
    obtain rfl : c' = c := hunique hc' hc (hnum'.trans (hbnum.trans hcnum.symm))
    exact hpid'.symm.trans hcpid

/-- **A step of the daemon brings the call of a member from stage to stage.**  The packets that were on
their way still are, but for the one that the step receives. -/
theorem Stage.daemon {act : DaemonAct} {d : Daemon} {out : List Send} (h : Stage net s pid id)
    (hs : SysInv net s) (hfew : FewCalls s) (hd : s.daemon.step act = some (d, out))
    (hdaemon : s'.daemon = d) (hdown : s'.down = s.down ++ out) (hprocs : s'.procs = s.procs)
    (hup : ∀ pkt ∈ s.up, pkt ∈ s'.up ∨ ∃ stale addr, act = .recv stale addr pkt)
    (hrecord : ∀ stale addr sendPid rt, act = .recv stale addr ⟨sendPid, .apiRuntime rt⟩ →
      rt.flag = true → senderLists s.daemon.mlist sendPid rt = true ∧
        UpOk net s.hist ⟨sendPid, .apiRuntime rt⟩)
    (hreg : (ipcdGetMlistViaPid s.daemon.mlist pid).isSome) : Stage net s' pid id := by
  have hold : ∀ x ∈ s.down, x ∈ s'.down := fun x hx => by
    rw [hdown]
    exact List.mem_append_left _ hx
  have hnew : ∀ x ∈ out, x ∈ s'.down := fun x hx => by
    rw [hdown]
    exact List.mem_append_right _ hx
  cases h with
  | asked a ha hpid hid =>
    rcases hup _ ha with ha | ⟨stale, addr, rfl⟩
    · exact .asked a ha hpid hid
    · -- the call of a member is queued
      obtain ⟨m, hm⟩ := Option.isSome_iff_exists.1 hreg
      have he : ({ s.daemon with
          mlist := markSender pid s.daemon.mlist
          recvAlist := s.daemon.recvAlist.attach
            { a with daemonMagicNumber := s.daemon.apiPublicMagicNumber }
          apiPublicMagicNumber := s.daemon.apiPublicMagicNumber + 1 }, []) = (d, out) := by
        simpa [Daemon.step, ipcdAnalysisCore, ipcdApiCall, hm] using hd
      cases he
      refine .queued { a with daemonMagicNumber := s.daemon.apiPublicMagicNumber } ?_ hpid hid
      rw [hdaemon, SemQueue.items_attach]
      exact List.mem_append_right _ (List.mem_singleton_self _)
  | queued a ha hpid hid =>
    rw [← hpid] at hreg
    rcases Daemon.step_queued hd ha hreg with ha | ⟨x, hx, hans⟩ | ⟨ha, x, hx, hrelay⟩
    · exact .queued a (hdaemon ▸ ha) hpid hid
    · exact .answered x (hnew x hx) (hpid ▸ hid ▸ hans)
    · exact .pending a (hdaemon ▸ ha) hpid hid (.relayed x a (hnew x hx) hrelay rfl)
  | pending a ha hpid hid hrun =>
    rw [← hpid] at hreg
    by_cases hfin : act.Finishes a.daemonMagicNumber
    · obtain ⟨stale, addr, sendPid, rt, rfl, hflag, hnum⟩ := hfin
      obtain ⟨hlists, hok⟩ := hrecord stale addr sendPid rt rfl hflag
      obtain ⟨hcaller, honly⟩ := hs.pending_of_record hfew hok hflag ha hnum
      obtain ⟨x, hx, hans⟩ := finish_answers hd hflag hlists ha hnum hcaller honly hreg
      exact .answered x (hnew x hx) (hpid ▸ hid ▸ hans)
    · rcases Daemon.step_pending hd ha hreg hfin with ⟨a', ha', hticket⟩ | ⟨x, hx, hans⟩
      · obtain ⟨hnum, hid', hpid'⟩ := ticket_eq hticket
        refine .pending a' (hdaemon ▸ ha') (hpid'.trans hpid) (hid'.trans hid) ?_
        rw [hnum]
        refine hrun.advance (fun x hx _ _ => Or.inl (hold x hx)) ?_ ?_
        · intro q _ b hb
          rw [hprocs]
          exact Or.inl hb
        · intro sendPid rt hrt hflag hnum
          rcases hup _ hrt with hrt | ⟨stale, addr, hact⟩
          · exact hrt
          · exact absurd ⟨stale, addr, sendPid, rt, hact, hflag, hnum⟩ hfin
      · exact .answered x (hnew x hx) (hpid ▸ hid ▸ hans)
  | answered x hx hans => exact .answered x (hold x hx) hans

/-- **The arrival of a packet at the daemon keeps the stages.** -/
theorem Accounted.stepArrive (h : Accounted net s) (hs : SysInv net s) (hfew : FewCalls s)
    (hstay : CallersStay net s) {stale : MlistMember → MlistMember}
    (hlists : arrivesFromProvider s (.arrive i stale) = true)
    (hstep : s.stepArrive net i stale = some s') : Accounted net s' := by
  unfold System.stepArrive at hstep
  split at hstep
  · cases hstep
  · rename_i pkt hpkt
    obtain ⟨d, out, hd, hdaemon, hdown, hup, hprocs, -, -⟩ := System.stepDaemon_eq_some hstep
    have hleft : ∀ q ∈ s.up, q ∈ s'.up ∨
        ∃ stale' addr, DaemonAct.recv stale (net.addr pkt.sendPid) pkt = .recv stale' addr q := by
      intro q hq
      obtain ⟨hi, he⟩ := List.getElem?_eq_some_iff.1 hpkt
      rw [← (List.getElem_cons_eraseIdx_perm hi).mem_iff, List.mem_cons, he] at hq
      rcases hq with rfl | hq
      · exact Or.inr ⟨_, _, rfl⟩
      · rw [hup]
        exact Or.inl hq
    intro pid id hid
    rw [hprocs] at hid
    obtain ⟨hproc, hstage⟩ := h pid id hid
    refine ⟨hproc, hstage.daemon hs hfew hd hdaemon hdown hprocs hleft ?_
      (hstay pid hproc (List.ne_nil_of_mem hid))⟩
    rintro stale' addr sendPid rt ⟨⟩ hflag
    have hall : senderStillLists s ⟨sendPid, .apiRuntime rt⟩ = true := by
      simpa [arrivesFromProvider, hpkt] using hlists
    refine ⟨?_, hs.up _ (List.mem_of_getElem? hpkt)⟩
    simpa [senderStillLists, hflag] using hall

/-- **A step of the daemon that receives nothing keeps the stages.** -/
theorem Accounted.stepDaemon (h : Accounted net s) (hs : SysInv net s) (hfew : FewCalls s)
    (hstay : CallersStay net s) {act : DaemonAct} (hrecv : act.isRecv = false)
    (hstep : s.stepDaemon act = some s') : Accounted net s' := by
  obtain ⟨d, out, hd, hdaemon, hdown, hup, hprocs, -, -⟩ := System.stepDaemon_eq_some hstep
  intro pid id hid
  rw [hprocs] at hid
  obtain ⟨hproc, hstage⟩ := h pid id hid
  refine ⟨hproc, hstage.daemon hs hfew hd hdaemon hdown hprocs (fun q hq => Or.inl (hup ▸ hq)) ?_
    (hstay pid hproc (List.ne_nil_of_mem hid))⟩
  rintro stale addr sendPid rt rfl
  cases hrecv

/-- A datagram takes the calls that it completes off the wait list. -/
theorem waits_recvAnalysis (p : Proc) (payload : Payload) :
    p.ipc.apiAckWaitList.Perm ((ipcRecvAnalysis p payload).2.map IpcApiAckList.ackId ++
      (ipcRecvAnalysis p payload).1.ipc.apiAckWaitList) := by
  cases payload with
  | apiAckRelay ack n =>
    simp only [ipcRecvAnalysis, ipcRecvAck]
    by_cases hin : p.ipc.apiAckWaitList.contains ack.ackId = true
    · rw [if_pos hin]
      exact List.perm_cons_erase (List.contains_iff_mem.1 hin)
    · rw [if_neg hin]
      exact List.Perm.refl _
  | _ => exact List.Perm.refl _

/-- After an acknowledgement nothing waits for it any more. -/
theorem ackId_not_mem_waits {p : Proc} (hp : p.ipc.apiAckWaitList.Nodup) (ack : IpcApiAckList)
    (n : Magic) :
    ack.ackId ∉ (ipcRecvAnalysis p (.apiAckRelay ack n)).1.ipc.apiAckWaitList := by
  simp only [ipcRecvAnalysis, ipcRecvAck]
  by_cases hin : p.ipc.apiAckWaitList.contains ack.ackId = true
  · rw [if_pos hin]
    exact hp.not_mem_erase
  · rw [if_neg hin]
    exact fun hmem => hin (List.contains_iff_mem.2 hmem)

/-- **The arrival of a datagram at a process keeps the stages** of the calls that wait on. -/
theorem Accounted.stepDeliver (h : Accounted net s) (hs : SysInv net s) (hoffered : Offered net s)
    (hnodup : ∀ pid, (s.procs pid).ipc.apiAckWaitList.Nodup)
    (hstep : s.stepDeliver net i = some s') : Accounted net s' := by
  obtain ⟨x, hx, hdaemon, hdown, hup, -, hcases⟩ := System.stepDeliver_eq_some hstep
  have hmem : x ∈ s.down := List.mem_of_getElem? hx
  have hleft : ∀ y ∈ s.down, y ∈ s'.down ∨ y = x := by
    intro y hy
    obtain ⟨hi, he⟩ := List.getElem?_eq_some_iff.1 hx
    rw [← (List.getElem_cons_eraseIdx_perm hi).mem_iff, List.mem_cons, he] at hy
    rw [hdown]
    exact hy.symm
  -- what the processes hold and wait for after the arrival
  have hprocs : ∀ q, s'.procs q = s.procs q ∨ net.owner x.dst = some q ∧
      s'.procs q = (ipcRecvAnalysis (s.procs q) x.payload).1 := by
    intro q
    rcases hcases with ⟨-, hsame, -⟩ | ⟨r, howner, hupdate, -⟩
    · exact Or.inl (by rw [hsame])
    · by_cases he : q = r
      · subst he
        exact Or.inr ⟨howner, by rw [hupdate, Function.update_self]⟩
      · exact Or.inl (by rw [hupdate, Function.update_of_ne he])
  have howned : ∀ q, net.owner x.dst = some q →
      s'.procs q = (ipcRecvAnalysis (s.procs q) x.payload).1 := by
    intro q howner
    rcases hcases with ⟨hnone, -, -⟩ | ⟨r, howner', hupdate, -⟩
    · rw [howner] at hnone
      cases hnone
    · obtain rfl : r = q := Option.some.inj (howner'.symm.trans howner)
      rw [hupdate, Function.update_self]
  intro pid id hid
  have hwaits : id ∈ (s.procs pid).ipc.apiAckWaitList := by
    rcases hprocs pid with hsame | ⟨-, hnew⟩
    · rwa [hsame] at hid
    · rw [hnew] at hid
      exact (waits_recvAnalysis _ x.payload).symm.subset (List.mem_append_right _ hid)
  obtain ⟨hproc, hstage⟩ := h pid id hwaits
  refine ⟨hproc, ?_⟩
  cases hstage with
  | asked a ha hpid hid => exact .asked a (hup ▸ ha) hpid hid
  | queued a ha hpid hid => exact .queued a (hdaemon ▸ ha) hpid hid
  | pending a ha hpid hid hrun =>
    refine .pending a (hdaemon ▸ ha) hpid hid (hrun.advance ?_ ?_ ?_)
    · intro y hy b hb
      rcases hleft y hy with hy | rfl
      · exact Or.inl hy
      · obtain ⟨hq, howner⟩ := hoffered.owner hy hb
        refine Or.inr ⟨y.sendPid, hq, ?_⟩
        rw [howned _ howner]
        exact mem_held_recvAnalysis.2 (Or.inr hb)
    · intro q _ b hb
      rcases hprocs q with hsame | ⟨-, hnew⟩
      · rw [hsame]
        exact Or.inl hb
      · rw [hnew]
        exact Or.inl (mem_held_recvAnalysis.2 (Or.inl hb))
    · exact fun sendPid rt hrt _ _ => hup ▸ hrt
  | answered y hy hans =>
    rcases hleft y hy with hy | rfl
    · exact .answered y hy hans
    · -- the answer reaches the process, so the call waits no longer
      exfalso
      obtain ⟨hsend, ack, n, hpayload, hack⟩ := hans
      have hok := hs.down y hmem
      rw [DownOk, hpayload] at hok
      have howner : net.owner y.dst = some pid := by
        rw [hok.2.1, hsend, net.owner_ident hproc]
      rw [howned pid howner, hpayload, ← hack] at hid
      exact ackId_not_mem_waits (hnodup pid) ack n hid

/-- **Every attended step leaves each call that waits in some stage.** -/
theorem Accounted.step {act : SysAct} (h : Accounted net s) (hs : SysInv net s)
    (hoffered : Offered net s) (hfew : FewCalls s) (hstay : CallersStay net s)
    (hnodup : ∀ pid, (s.procs pid).ipc.apiAckWaitList.Nodup)
    (hstep : (sysLts net).step s act = some s') (hok : Attended net s act s') : Accounted net s' := by
  cases act with
  | proc pid act => exact h.stepProc hoffered hok.1 hstep
  | arrive i stale => exact h.stepArrive hs hfew hstay hok.2.1 hstep
  | daemon act =>
    simp only [sysLts, System.step] at hstep
    split at hstep
    · cases hstep
    · rename_i hrecv
      exact h.stepDaemon hs hfew hstay (Bool.eq_false_iff.2 hrecv) hstep
  | deliver i => exact h.stepDeliver hs hoffered hnodup hstep

end System

end EasyIpc

import EasyIpc.Broadcast

/-!
# Messages arrive in the end

`Broadcast` says what has been delivered at any moment.  Here the threads that deliver are left to
run, in any order, while no packet comes to the daemon: its distribution thread, the links, and the
receive and dispatch threads of the processes.

* `Broadcast.work` — how many steps such a run can still take for an endpoint.
* `Awake` — the semaphores of all queues match the queues, so no thread sleeps before a queue that
  holds something.
* `messages_delivered` — the run ends, and when the endpoint can take no further step, it has
  dispatched what it was due of all messages that were accepted.
-/

namespace EasyIpc

open Concurrent Transition

/-- The step is one of the threads that deliver. -/
def BroadcastAct.delivers : BroadcastAct → Bool
  | .daemon .msgPost => true
  | .daemon .msgWait => true
  | .daemon .msgPull => true
  | .daemon .msgProbe => true
  | .daemon _ => false
  | _ => true

/-- The step is one of the daemon, or of the process at the endpoint. -/
def BroadcastAct.concerns (e : Endpoint) : BroadcastAct → Bool
  | .daemon _ => true
  | .recv e' | .post e' | .wait e' | .pull e' | .dispatch e' => e' == e

/-- The steps that can still be taken for an endpoint.  A message in the daemon becomes at most one
datagram for the endpoint, and a datagram is received, posted, waited for, removed and dispatched. -/
def Broadcast.work (s : Broadcast) (e : Endpoint) : ℕ :=
  s.daemon.recvMlist.work + 5 * s.daemon.recvMlist.items.length + 5 * (s.link e).length +
    (s.msgRecv e).work

/-- The messages accepted so far, each with the table it was distributed against, or is going to be
distributed against if the table stays as it is. -/
def Broadcast.schedule (s : Broadcast) : List (IpcMsg × List MlistMember) :=
  s.distributed ++ s.daemon.recvMlist.items.map fun p => (p, s.daemon.mlist)

/-! ## The queues -/

/-- The semaphores match the queues. -/
structure Awake (s : Broadcast) : Prop where
  daemon : QueuesBalanced s.daemon
  msgRecv : ∀ e, (s.msgRecv e).Balanced

theorem awake_init : Awake broadcastLts.init :=
  ⟨⟨SemQueue.balanced_empty, SemQueue.balanced_empty⟩, fun _ => SemQueue.balanced_empty⟩

section Steps

variable {s s' t : Broadcast} {act : BroadcastAct} {e : Endpoint}

/-- A step of the queue at an endpoint. -/
theorem onMsgRecv_eq_some {q : Option (SemQueue IpcMsg)} (h : onMsgRecv s e q = some s') :
    ∃ q', q = some q' ∧ s' = { s with msgRecv := Function.update s.msgRecv e q' } := by
  obtain ⟨q', hq, rfl⟩ := Option.map_eq_some_iff.1 h
  exact ⟨q', hq, rfl⟩

theorem Awake.update {q : SemQueue IpcMsg} (h : Awake s) (hq : q.Balanced) :
    ∀ e', (Function.update s.msgRecv e q e').Balanced :=
  (Function.forall_update_iff s.msgRecv fun _ q => q.Balanced).2 ⟨hq, fun e' _ => h.msgRecv e'⟩

/-- What a datagram does to the queue of messages. -/
theorem balanced_ipcRecvMsg {q : SemQueue IpcMsg} (payload : Payload) (h : q.Balanced) :
    (ipcRecvMsg payload q).Balanced := by
  cases payload with
  | msgRelay msg => exact h.attach msg
  | _ => exact h

theorem work_ipcRecvMsg_le (payload : Payload) (q : SemQueue IpcMsg) :
    (ipcRecvMsg payload q).work ≤ q.work + 4 := by
  cases payload with
  | msgRelay msg => exact Nat.le_of_eq (q.work_attach msg)
  | _ => exact Nat.le_add_right _ 4

/-- **Every step keeps the semaphores right.** -/
theorem Awake.step (h : Awake s) (hstep : s.step act = some s') : Awake s' := by
  cases act with
  | daemon act =>
    obtain ⟨⟨d, out⟩, hd, rfl⟩ := Option.map_eq_some_iff.1 hstep
    exact ⟨queues_balanced_step hd h.daemon, h.msgRecv⟩
  | recv e =>
    simp only [Broadcast.step] at hstep
    split at hstep
    · cases hstep
    · rename_i payload rest hl
      cases hstep
      exact ⟨h.daemon, h.update (balanced_ipcRecvMsg payload (h.msgRecv e))⟩
  | post e =>
    obtain ⟨q, hq, rfl⟩ := onMsgRecv_eq_some hstep
    exact ⟨h.daemon, h.update ((h.msgRecv e).post hq)⟩
  | wait e =>
    obtain ⟨q, hq, rfl⟩ := onMsgRecv_eq_some hstep
    exact ⟨h.daemon, h.update ((h.msgRecv e).wait hq)⟩
  | pull e =>
    obtain ⟨q, hq, rfl⟩ := onMsgRecv_eq_some hstep
    exact ⟨h.daemon, h.update ((h.msgRecv e).pull hq)⟩
  | dispatch e =>
    simp only [Broadcast.step] at hstep
    split at hstep
    · rename_i p hp
      cases hstep
      exact ⟨h.daemon, h.update ((h.msgRecv e).release hp)⟩
    · cases hstep

/-! ## A step that delivers -/

/-- What the steps that deliver leave as it is. -/
structure Delivering (s t : Broadcast) : Prop where
  mlist : t.daemon.mlist = s.daemon.mlist
  schedule : t.schedule = s.schedule

/-- Of a distribution an endpoint gets at most one datagram. -/
theorem length_arrivals_msgProbe (e : Endpoint) (p : IpcMsg) (d : Daemon)
    (hports : PortsDistinct d.mlist) : (arrivals e (ipcdMsgProbe p d)).length ≤ 1 := by
  have hall : ∀ payload ∈ arrivals e (ipcdMsgProbe p d), (Payload.msg? payload).isSome := by
    intro payload hpayload
    obtain ⟨x, hx, rfl⟩ := List.mem_map.1 hpayload
    obtain ⟨m, -, rfl⟩ := List.mem_map.1 (List.mem_filter.1 hx).1
    rfl
  rw [← List.filterMap_length_eq_length.2 hall]
  show (relayed e (ipcdMsgProbe p d)).length ≤ 1
  rw [relayed_ipcdMsgProbe e p d hports]
  split <;> simp

/-- A step of the queue of messages that keeps its elements. -/
theorem deliver_queue {q : Option (SemQueue IpcMsg)} {d d' : Daemon} {out : List Send} (e : Endpoint)
    (h : onMsgQueue d q = some (d', out))
    (hitems : ∀ q', q = some q' → q'.items = d.recvMlist.items)
    (hwork : ∀ q', q = some q' → q'.work + 1 = d.recvMlist.work) :
    d'.mlist = d.mlist ∧
    d'.recvMlist.items.map (fun p => (p, d.mlist)) = d.recvMlist.items.map (fun p => (p, d.mlist)) ∧
    d'.recvMlist.work + 5 * d'.recvMlist.items.length + 5 * (arrivals e out).length + 1 ≤
      d.recvMlist.work + 5 * d.recvMlist.items.length := by
  obtain ⟨q', hq, rfl, rfl⟩ := onMsgQueue_eq_some h
  have hless := hwork q' hq
  refine ⟨rfl, by simp only [hitems q' hq], ?_⟩
  simp only [hitems q' hq, arrivals, List.filter_nil, List.map_nil, List.length_nil]
  omega

/-- The step of the daemon, seen from an endpoint. -/
theorem deliver_daemon {act : DaemonAct} {d : Daemon} {out : List Send} (e : Endpoint)
    (hact : (BroadcastAct.daemon act).delivers = true) (hports : PortsDistinct s.daemon.mlist)
    (hd : s.daemon.step act = some (d, out)) :
    d.mlist = s.daemon.mlist ∧
    (distributedBy s.daemon act ++ d.recvMlist.items.map fun p => (p, s.daemon.mlist)) =
      s.daemon.recvMlist.items.map (fun p => (p, s.daemon.mlist)) ∧
    d.recvMlist.work + 5 * d.recvMlist.items.length + 5 * (arrivals e out).length + 1 ≤
      s.daemon.recvMlist.work + 5 * s.daemon.recvMlist.items.length := by
  cases act with
  | msgPost =>
    exact deliver_queue e hd (fun _ => SemQueue.items_post) fun _ => SemQueue.work_post
  | msgWait =>
    exact deliver_queue e hd (fun _ => SemQueue.items_wait) fun _ => SemQueue.work_wait
  | msgPull =>
    exact deliver_queue e hd (fun _ => SemQueue.items_pull) fun _ => SemQueue.work_pull
  | msgProbe =>
    obtain ⟨p, hp, rfl, rfl⟩ := step_msgProbe_eq_some hd
    have hwork := SemQueue.work_release hp
    have hone := length_arrivals_msgProbe e p s.daemon hports
    refine ⟨rfl, ?_, ?_⟩
    · simp [distributedBy, hp, Consumer.held, SemQueue.items_release hp]
    · rw [SemQueue.items_release hp, List.length_cons]
      show s.daemon.recvMlist.release.work + 5 * s.daemon.recvMlist.release.items.length + _ + _ ≤ _
      omega
  | _ => cases hact

/-- The queue at an endpoint pays for the step of one of its threads; the others do not notice it. -/
theorem work_update {e e' : Endpoint} {q : SemQueue IpcMsg}
    (hwork : q.work + 1 ≤ (s.msgRecv e').work) :
    Broadcast.work { s with msgRecv := Function.update s.msgRecv e' q } e +
      (if e' == e then 1 else 0) ≤ s.work e := by
  by_cases he : e = e'
  · subst he
    simp only [Broadcast.work, Function.update_self, beq_self_eq_true, if_true]
    omega
  · have hne : ¬ (e' == e) = true := by simpa using Ne.symm he
    rw [if_neg hne]
    simp only [Broadcast.work, Function.update_of_ne he]
    omega

/-- **A step that delivers** changes neither the table nor what is to be distributed against it, and is
paid for. -/
theorem Delivering.step (e : Endpoint) (h : Delivering s t) (hports : PortsDistinct s.daemon.mlist)
    (hact : act.delivers = true) (hstep : t.step act = some s') :
    Delivering s s' ∧ s'.work e + (if act.concerns e = true then 1 else 0) ≤ t.work e := by
  cases act with
  | daemon act =>
    obtain ⟨⟨d, out⟩, hd, rfl⟩ := Option.map_eq_some_iff.1 hstep
    obtain ⟨hmlist, hdist, hwork⟩ := deliver_daemon e hact (h.mlist ▸ hports) hd
    refine ⟨⟨hmlist.trans h.mlist, ?_⟩, ?_⟩
    · show (t.distributed ++ distributedBy t.daemon act) ++
        d.recvMlist.items.map (fun p => (p, d.mlist)) = s.schedule
      rw [hmlist, List.append_assoc, hdist]
      exact h.schedule
    · simp only [Broadcast.work, BroadcastAct.concerns, if_true, List.length_append]
      omega
  | recv e' =>
    simp only [Broadcast.step] at hstep
    split at hstep
    · cases hstep
    · rename_i payload rest hl
      cases hstep
      refine ⟨⟨h.mlist, h.schedule⟩, ?_⟩
      have hwork := work_ipcRecvMsg_le payload (t.msgRecv e')
      by_cases he : e = e'
      · subst he
        simp only [Broadcast.work, BroadcastAct.concerns, Function.update_self, beq_self_eq_true,
          if_true, hl, List.length_cons]
        omega
      · have hne : ¬ (BroadcastAct.recv e').concerns e = true := by
          simpa [BroadcastAct.concerns] using Ne.symm he
        rw [if_neg hne]
        simp only [Broadcast.work, Function.update_of_ne he]
        omega
  | post e' =>
    obtain ⟨q, hq, rfl⟩ := onMsgRecv_eq_some hstep
    exact ⟨⟨h.mlist, h.schedule⟩, work_update (Nat.le_of_eq (SemQueue.work_post hq))⟩
  | wait e' =>
    obtain ⟨q, hq, rfl⟩ := onMsgRecv_eq_some hstep
    exact ⟨⟨h.mlist, h.schedule⟩, work_update (Nat.le_of_eq (SemQueue.work_wait hq))⟩
  | pull e' =>
    obtain ⟨q, hq, rfl⟩ := onMsgRecv_eq_some hstep
    exact ⟨⟨h.mlist, h.schedule⟩, work_update (Nat.le_of_eq (SemQueue.work_pull hq))⟩
  | dispatch e' =>
    simp only [Broadcast.step] at hstep
    split at hstep
    · rename_i p hp
      cases hstep
      exact ⟨⟨h.mlist, h.schedule⟩, work_update (Nat.le_of_eq (SemQueue.work_release hp))⟩
    · cases hstep

/-! ## When nothing moves -/

/-- No step of the daemon's distribution thread or of the process at the endpoint is left. -/
def AtRest (s : Broadcast) (e : Endpoint) : Prop :=
  ∀ act : BroadcastAct, act.delivers = true → act.concerns e = true → s.step act = none

/-- **At rest nothing is on its way.** -/
theorem AtRest.empty (h : AtRest s e) (hawake : Awake s) :
    s.daemon.recvMlist.items = [] ∧ s.link e = [] ∧ (s.msgRecv e).items = [] := by
  have hmine : (e == e) = true := beq_self_eq_true e
  refine ⟨hawake.daemon.1.items_of_idle ⟨?_, ?_, ?_, ?_⟩, ?_,
    (hawake.msgRecv e).items_of_idle ⟨?_, ?_, ?_, ?_⟩⟩
  · simpa [Broadcast.step, Daemon.step, onMsgQueue] using h (.daemon .msgPost) rfl rfl
  · simpa [Broadcast.step, Daemon.step, onMsgQueue] using h (.daemon .msgWait) rfl rfl
  · simpa [Broadcast.step, Daemon.step, onMsgQueue] using h (.daemon .msgPull) rfl rfl
  · have hprobe := h (.daemon .msgProbe) rfl rfl
    cases hc : s.daemon.recvMlist.consumer with
    | holding p => simp [Broadcast.step, Daemon.step, hc] at hprobe
    | _ => rfl
  · have hrecv := h (.recv e) rfl hmine
    cases hl : s.link e with
    | nil => rfl
    | cons payload rest => simp [Broadcast.step, hl] at hrecv
  · simpa [Broadcast.step, onMsgRecv] using h (.post e) rfl hmine
  · simpa [Broadcast.step, onMsgRecv] using h (.wait e) rfl hmine
  · simpa [Broadcast.step, onMsgRecv] using h (.pull e) rfl hmine
  · have hdispatch := h (.dispatch e) rfl hmine
    cases hc : (s.msgRecv e).consumer with
    | holding p => simp [Broadcast.step, hc] at hdispatch
    | _ => rfl

/-- Fresh queues and an empty link leave nothing to do. -/
theorem atRest_of_fresh (hdaemon : s.daemon.recvMlist = {}) (hlink : s.link e = [])
    (hrecv : s.msgRecv e = {}) : AtRest s e := by
  intro act hact he
  cases act with
  | daemon act =>
    cases act with
    | msgPost | msgWait | msgPull | msgProbe =>
      simp [Broadcast.step, Daemon.step, hdaemon, onMsgQueue, SemQueue.post, SemQueue.wait,
        SemQueue.pull]
    | _ => cases hact
  | recv e' =>
    obtain rfl : e' = e := eq_of_beq he
    simp [Broadcast.step, hlink]
  | post e' | wait e' | pull e' | dispatch e' =>
    obtain rfl : e' = e := eq_of_beq he
    simp [Broadcast.step, hrecv, onMsgRecv, SemQueue.post, SemQueue.wait, SemQueue.pull]

end Steps

/-! ## The result -/

theorem InOrder.schedule {s : Broadcast} (h : InOrder s) :
    s.schedule.map Prod.fst = s.accepted := by
  rw [Broadcast.schedule, List.map_append, List.map_map, h.accepted]
  exact congrArg _ (List.map_id _)

/-- **Every message arrives.**  From any reachable state let the threads that deliver run, in any
order.  At most `work` of their steps concern an endpoint; and when the endpoint is at rest it has
dispatched, each once and in the order of their acceptance, exactly those of the accepted messages that
it was subscribed to when they were distributed. -/
theorem messages_delivered {s s' : Broadcast} (h : Reach broadcastLts (OnStates MembersApart) s)
    {as : List BroadcastAct} (has : ∀ a ∈ as, BroadcastAct.delivers a = true)
    (hrun : broadcastLts.run s as = some s') (e : Endpoint) :
    s.schedule.map Prod.fst = s.accepted ∧ as.countP (BroadcastAct.concerns e) ≤ s.work e ∧
      (AtRest s' e → s'.dispatched e = due e s.schedule) := by
  have hinv : (InOrder s ∧ Awake s) ∧ MembersApart s := by
    refine h.invariant (I := fun s => (InOrder s ∧ Awake s) ∧ MembersApart s)
      ⟨⟨inOrder_init, awake_init⟩, List.nodup_nil⟩ ?_
    intro t act t' _ hI hstep hapart
    exact ⟨⟨hI.1.1.step hstep hI.2, hI.1.2.step hstep⟩, hapart⟩
  obtain ⟨⟨horder, hawake⟩, hapart⟩ := hinv
  have hkeep : ∀ t act t', (Delivering s t ∧ InOrder t ∧ Awake t) →
      BroadcastAct.delivers act = true → broadcastLts.step t act = some t' →
      (Delivering s t' ∧ InOrder t' ∧ Awake t') ∧
        t'.work e + (if act.concerns e = true then 1 else 0) ≤ t.work e := by
    intro t act t' hI hact hstep
    obtain ⟨hdel, horder, hawake⟩ := hI
    have hports : PortsDistinct t.daemon.mlist := by
      rw [hdel.mlist]
      exact hapart
    obtain ⟨hdel', hcost⟩ := hdel.step e hapart hact hstep
    exact ⟨⟨hdel', horder.step hstep hports, hawake.step hstep⟩, hcost⟩
  obtain ⟨⟨hdel, horder', hawake'⟩, hpaid⟩ := Lts.run_countP hkeep
    ⟨⟨rfl, rfl⟩, horder, hawake⟩ has hrun
  refine ⟨horder.schedule, by omega, fun hrest => ?_⟩
  obtain ⟨hitems, hlink, hrecv⟩ := hrest.empty hawake'
  have hdist := hdel.schedule
  rw [Broadcast.schedule, hitems, List.map_nil, List.append_nil] at hdist
  have hqueued := horder'.queued e
  rw [Broadcast.queued, hrecv, hlink, List.filterMap_nil, List.append_nil, List.append_nil] at hqueued
  rw [hqueued, hdist]

/-- From the moment at which the daemon has accepted both messages to their dispatch at
process 2. -/
def deliveryRun : List BroadcastAct :=
  (twoMessagesSent.drop 7).map .daemon ++
    [.recv ⟨1, 21⟩, .recv ⟨1, 21⟩, .post ⟨1, 21⟩, .recv ⟨1, 21⟩, .wait ⟨1, 21⟩, .pull ⟨1, 21⟩,
      .dispatch ⟨1, 21⟩, .post ⟨1, 21⟩, .wait ⟨1, 21⟩, .pull ⟨1, 21⟩, .dispatch ⟨1, 21⟩]

/-- Both messages arrive at process 2, which is subscribed to all names. -/
theorem messages_delivered_twoMessages : ∃ s s', Reach broadcastLts (OnStates MembersApart) s ∧
    s.accepted = [⟨[109], [99], 3, [7]⟩, ⟨[109], [99], 3, [8]⟩] ∧ s.distributed = [] ∧
    broadcastLts.run s deliveryRun = some s' ∧ s'.dispatched ⟨1, 21⟩ = due ⟨1, 21⟩ s.schedule ∧
    s'.dispatched ⟨1, 21⟩ = [⟨[109], [99], 3, [7]⟩, ⟨[109], [99], 3, [8]⟩] := by
  obtain ⟨s, s', hrun, hacc, hdist, hrun', hdaemon, hlink, hrecv, hdone⟩ : ∃ s s',
      broadcastLts.runOk (OnStates MembersApart) broadcastLts.init
        ((twoMessagesSent.take 7).map .daemon) = some s ∧
      s.accepted = [⟨[109], [99], 3, [7]⟩, ⟨[109], [99], 3, [8]⟩] ∧ s.distributed = [] ∧
      broadcastLts.run s deliveryRun = some s' ∧ s'.daemon.recvMlist = {} ∧
      s'.link ⟨1, 21⟩ = [] ∧ s'.msgRecv ⟨1, 21⟩ = {} ∧
      s'.dispatched ⟨1, 21⟩ = [⟨[109], [99], 3, [7]⟩, ⟨[109], [99], 3, [8]⟩] :=
    ⟨_, _, rfl, by decide, by decide, rfl, by decide, by decide, by decide, by decide⟩
  have hreach := Reach.runOk .init hrun
  have hall : ∀ a ∈ deliveryRun, BroadcastAct.delivers a = true := by
    simp [deliveryRun, twoMessagesSent, BroadcastAct.delivers]
  exact ⟨s, s', hreach, hacc, hdist, hrun', (messages_delivered hreach hall hrun' ⟨1, 21⟩).2.2
    (atRest_of_fresh hdaemon hlink hrecv), hdone⟩

end EasyIpc

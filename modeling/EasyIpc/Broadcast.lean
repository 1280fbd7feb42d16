import EasyIpc.Effects
import Mathlib.Logic.Function.Basic

/-!
# Messages from the senders to the subscribers

The daemon together with its links and the message queues of the processes behind them.  A link
delivers the datagrams for one endpoint in the order in which they were sent; the receive thread
of the process at the endpoint queues a message (`ipc_msg_push`), and its dispatch thread
(`ipc_msg_recv_probe`) takes it from there.  The histories record what was accepted, what was
distributed and against which table, and what was dispatched.

* `relayed_ipcdMsgProbe` — one distribution puts the message once on the link of each subscriber.
* `broadcast_in_order` — what an endpoint gets is exactly the accepted messages it was subscribed
  to when they were distributed, each once and in the order of their acceptance.
-/

namespace EasyIpc

open Concurrent Transition

/-- The daemon, the links, the processes' message queues, and the histories. -/
structure Broadcast where
  daemon : Daemon := {}
  /-- The datagrams on their way to an endpoint. -/
  link : Endpoint → List Payload := fun _ => []
  /-- `msg_recv_list` of the process at an endpoint. -/
  msgRecv : Endpoint → SemQueue IpcMsg := fun _ => {}
  /-- The messages accepted so far. -/
  accepted : List IpcMsg := []
  /-- The messages distributed so far, each with the table it was distributed against. -/
  distributed : List (IpcMsg × List MlistMember) := []
  /-- The messages dispatched to the handlers at an endpoint. -/
  dispatched : Endpoint → List IpcMsg := fun _ => []

/-- The steps: those of the daemon, and those of the threads of the process at an endpoint. -/
inductive BroadcastAct where
  | daemon (act : DaemonAct)
  | recv (e : Endpoint)
  | post (e : Endpoint)
  | wait (e : Endpoint)
  | pull (e : Endpoint)
  | dispatch (e : Endpoint)

/-- The message in a datagram. -/
def Payload.msg? : Payload → Option IpcMsg
  | .msgRelay msg => some msg
  | _ => none

/-- The part of `ipc_recv_analysis` that concerns messages: `ipc_msg_push` for a relayed message,
up to its post. -/
def ipcRecvMsg (payload : Payload) (q : SemQueue IpcMsg) : SemQueue IpcMsg :=
  match payload with
  | .msgRelay msg => q.attach msg
  | _ => q

/-- The datagrams for an endpoint. -/
def arrivals (e : Endpoint) (out : List Send) : List Payload :=
  (out.filter fun s => s.dst == e).map Send.payload

/-- The message that the step accepts: `MSG_SEND` from a registered process. -/
def acceptedBy (d : Daemon) : DaemonAct → List IpcMsg
  | .recv _ _ ⟨sendPid, .msgSend msg⟩ => if d.mlist.any (hasPid sendPid) then [msg] else []
  | _ => []

/-- The message that the step distributes. -/
def distributedBy (d : Daemon) : DaemonAct → List (IpcMsg × List MlistMember)
  | .msgProbe => d.recvMlist.consumer.held.map fun p => (p, d.mlist)
  | _ => []

/-- A queue step of the process at an endpoint. -/
def onMsgRecv (s : Broadcast) (e : Endpoint) (q : Option (SemQueue IpcMsg)) : Option Broadcast :=
  q.map fun q => { s with msgRecv := Function.update s.msgRecv e q }

/-- One step of the system. -/
def Broadcast.step (s : Broadcast) : BroadcastAct → Option Broadcast
  | .daemon act =>
      (s.daemon.step act).map fun (d, out) =>
        { s with
          daemon := d
          link := fun e => s.link e ++ arrivals e out
          accepted := s.accepted ++ acceptedBy s.daemon act
          distributed := s.distributed ++ distributedBy s.daemon act }
  | .recv e =>
      match s.link e with
      | [] => none
      | payload :: rest =>
          some { s with
            link := Function.update s.link e rest
            msgRecv := Function.update s.msgRecv e (ipcRecvMsg payload (s.msgRecv e)) }
  | .post e => onMsgRecv s e (s.msgRecv e).post
  | .wait e => onMsgRecv s e (s.msgRecv e).wait
  | .pull e => onMsgRecv s e (s.msgRecv e).pull
  | .dispatch e =>
      match (s.msgRecv e).consumer with
      | .holding p =>
          some { s with
            msgRecv := Function.update s.msgRecv e (s.msgRecv e).release
            dispatched := Function.update s.dispatched e (s.dispatched e ++ [p]) }
      | _ => none

/-- The system from the empty table on. -/
def broadcastLts : Lts Broadcast BroadcastAct where
  init := {}
  step := Broadcast.step

/-! ## Who is to get a message -/

/-- The member is not suspended and is subscribed to the name or to `"*"`. -/
def Subscribed (name : CStr) (m : MlistMember) : Prop :=
  m.suspend = false ∧
    (name ∈ m.pmsgList.map MMember.msgName ∨ anyName ∈ m.pmsgList.map MMember.msgName)

instance (name : CStr) (m : MlistMember) : Decidable (Subscribed name m) :=
  inferInstanceAs (Decidable (_ ∧ _))

theorem wantsMsg_iff {name : CStr} {m : MlistMember} :
    wantsMsg name m = true ↔ Subscribed name m := by
  simp only [wantsMsg, Subscribed, Bool.and_eq_true, Bool.not_eq_true', List.any_eq_true,
    Bool.or_eq_true, beq_iff_eq, List.mem_map]
  refine and_congr_right fun _ => ⟨?_, ?_⟩
  · rintro ⟨a, ha, hn | hn⟩
    · exact Or.inl ⟨a, ha, hn⟩
    · exact Or.inr ⟨a, ha, hn⟩
  · rintro (⟨a, ha, hn⟩ | ⟨a, ha, hn⟩)
    · exact ⟨a, ha, Or.inl hn⟩
    · exact ⟨a, ha, Or.inr hn⟩

/-- A member at the endpoint was subscribed when the message was distributed. -/
def SubscribedAt (e : Endpoint) (x : IpcMsg × List MlistMember) : Prop :=
  ∃ m ∈ x.2, m.ident.msgEndpoint = e ∧ Subscribed x.1.msgName m

instance (e : Endpoint) (x : IpcMsg × List MlistMember) : Decidable (SubscribedAt e x) :=
  inferInstanceAs (Decidable (∃ m ∈ x.2, _))

theorem subscribedAt_cons {e : Endpoint} {p : IpcMsg} {m : MlistMember} {l : List MlistMember} :
    SubscribedAt e (p, m :: l) ↔
      (m.ident.msgEndpoint = e ∧ Subscribed p.msgName m) ∨ SubscribedAt e (p, l) := by
  simp [SubscribedAt]

/-- No two members have their message port at the same address. -/
def PortsDistinct (l : List MlistMember) : Prop :=
  (l.map fun m => m.ident.msgEndpoint).Nodup

instance (l : List MlistMember) : Decidable (PortsDistinct l) :=
  inferInstanceAs (Decidable (List.Nodup _))

theorem PortsDistinct.cons {m : MlistMember} {l : List MlistMember} (h : PortsDistinct (m :: l)) :
    (∀ a ∈ l, a.ident.msgEndpoint ≠ m.ident.msgEndpoint) ∧ PortsDistinct l := by
  rw [PortsDistinct, List.map_cons, List.nodup_cons] at h
  exact ⟨fun a ha he => h.1 (he ▸ List.mem_map_of_mem ha), h.2⟩

/-- The messages among the datagrams for an endpoint. -/
def relayed (e : Endpoint) (out : List Send) : List IpcMsg :=
  (arrivals e out).filterMap Payload.msg?

theorem relayed_cons (e : Endpoint) (s : Send) (out : List Send) :
    relayed e (s :: out) = (if s.dst = e then s.payload.msg?.toList else []) ++ relayed e out := by
  by_cases h : s.dst = e
  · rw [if_pos h, relayed, arrivals, List.filter_cons_of_pos (by simpa using h)]
    cases hp : s.payload.msg? <;> simp [hp, relayed, arrivals]
  · rw [if_neg h, relayed, arrivals, List.filter_cons_of_neg (by simpa using h)]
    rfl

theorem relayed_of_quiet (e : Endpoint) {out : List Send}
    (h : ∀ s ∈ out, s.payload.isMsg = false) : relayed e out = [] := by
  induction out with
  | nil => rfl
  | cons s out ih =>
    have hs : s.payload.msg? = none := by
      have := h s (by simp)
      cases hp : s.payload <;> simp_all [Payload.isMsg, Payload.msg?]
    rw [relayed_cons, hs, ih fun t ht => h t (by simp [ht])]
    simp

/-- **One distribution puts the message once on the link of each subscriber**, and on no other
link. -/
theorem relayed_ipcdMsgProbe (e : Endpoint) (p : IpcMsg) (d : Daemon)
    (hports : PortsDistinct d.mlist) :
    relayed e (ipcdMsgProbe p d) = if SubscribedAt e (p, d.mlist) then [p] else [] := by
  simp only [ipcdMsgProbe]
  generalize d.mlist = l at hports
  induction l with
  | nil => simp [relayed, arrivals, SubscribedAt]
  | cons m l ih =>
    obtain ⟨hne, hl⟩ := hports.cons
    have hrest := ih hl
    by_cases hw : wantsMsg p.msgName m
    · rw [List.filter_cons_of_pos hw, List.map_cons, relayed_cons, hrest]
      by_cases he : m.ident.msgEndpoint = e
      · -- the endpoint is this member's, so nobody further on is there
        have hno : ¬ SubscribedAt e (p, l) := by
          rintro ⟨a, ha, hae, -⟩
          exact hne a ha (hae.trans he.symm)
        rw [if_pos (show (ipcdRelayMsg m p).dst = e from he), if_neg hno,
          if_pos (subscribedAt_cons.2 (Or.inl ⟨he, wantsMsg_iff.1 hw⟩))]
        rfl
      · have hiff : SubscribedAt e (p, m :: l) ↔ SubscribedAt e (p, l) := by
          rw [subscribedAt_cons]
          exact or_iff_right fun h => he h.1
        rw [if_neg (show ¬ (ipcdRelayMsg m p).dst = e from he), List.nil_append]
        exact if_congr hiff.symm rfl rfl
    · have hiff : SubscribedAt e (p, m :: l) ↔ SubscribedAt e (p, l) := by
        rw [subscribedAt_cons]
        exact or_iff_right fun h => hw (wantsMsg_iff.2 h.2)
      rw [List.filter_cons_of_neg hw, hrest]
      exact if_congr hiff.symm rfl rfl

/-! ## The invariant -/

/-- What an endpoint was subscribed to when it was distributed. -/
def due (e : Endpoint) (x : List (IpcMsg × List MlistMember)) : List IpcMsg :=
  (x.filter fun x => SubscribedAt e x).map Prod.fst

/-- What was queued for dispatch at an endpoint: what was dispatched and what waits for it. -/
def Broadcast.queued (s : Broadcast) (e : Endpoint) : List IpcMsg :=
  s.dispatched e ++ (s.msgRecv e).items

/-- The accepted messages are the distributed ones and those still queued in the daemon; and what
is due to an endpoint is what was queued there and what is on its link. -/
structure InOrder (s : Broadcast) : Prop where
  accepted : s.accepted = s.distributed.map Prod.fst ++ s.daemon.recvMlist.items
  queued : ∀ e, s.queued e ++ (s.link e).filterMap Payload.msg? = due e s.distributed

theorem inOrder_init : InOrder broadcastLts.init := ⟨rfl, fun _ => rfl⟩

/-- What a step of the daemon adds to the histories is what it does to the queue and the links. -/
theorem step_histories {act : DaemonAct} {d d' : Daemon} {out : List Send}
    (hstep : d.step act = some (d', out)) (hports : PortsDistinct d.mlist) :
    d.recvMlist.items ++ acceptedBy d act =
      (distributedBy d act).map Prod.fst ++ d'.recvMlist.items ∧
    ∀ e, relayed e out = due e (distributedBy d act) := by
  cases Daemon.step_msg hstep with
  | quiet hnew hprobe hitems hout =>
    have hacc : acceptedBy d act = [] := by
      unfold acceptedBy
      split
      · rename_i stale addr sendPid msg
        have hnone := hnew stale addr sendPid msg rfl
        rw [← isSome_ipcdGetMlistViaPid, hnone]
        rfl
      · rfl
    have hdist : distributedBy d act = [] := by
      unfold distributedBy
      split
      · exact absurd rfl hprobe
      · rfl
    refine ⟨by simp [hacc, hdist, hitems], fun e => ?_⟩
    rw [relayed_of_quiet e hout, hdist]
    rfl
  | accept stale addr sendPid msg ha hreg hq hout =>
    subst ha
    rw [isSome_ipcdGetMlistViaPid] at hreg
    have hacc : acceptedBy d (.recv stale addr ⟨sendPid, .msgSend msg⟩) = [msg] := if_pos hreg
    refine ⟨by rw [hacc, hq, SemQueue.items_attach]; rfl, fun e => ?_⟩
    rw [hout]
    rfl
  | distribute p ha hp hq hout =>
    subst ha
    have hdist : distributedBy d .msgProbe = [(p, d.mlist)] := by
      simp [distributedBy, hp, Consumer.held]
    refine ⟨?_, fun e => ?_⟩
    · rw [hdist, hq, SemQueue.items_release hp]
      simp [acceptedBy]
    · rw [hout, relayed_ipcdMsgProbe e p d hports, hdist, due]
      by_cases hs : SubscribedAt e (p, d.mlist) <;> simp [hs]

theorem due_append (e : Endpoint) (x y : List (IpcMsg × List MlistMember)) :
    due e (x ++ y) = due e x ++ due e y := by
  simp [due]

/-- A step of the daemon keeps the order. -/
theorem InOrder.daemon {s : Broadcast} {act : DaemonAct} {d : Daemon} {out : List Send}
    (h : InOrder s) (hstep : s.daemon.step act = some (d, out))
    (hports : PortsDistinct s.daemon.mlist) :
    InOrder { s with
      daemon := d
      link := fun e => s.link e ++ arrivals e out
      accepted := s.accepted ++ acceptedBy s.daemon act
      distributed := s.distributed ++ distributedBy s.daemon act } := by
  obtain ⟨hitems, hrel⟩ := step_histories hstep hports
  constructor
  · show s.accepted ++ acceptedBy s.daemon act =
      (s.distributed ++ distributedBy s.daemon act).map Prod.fst ++ d.recvMlist.items
    rw [h.accepted, List.append_assoc, hitems, List.map_append, List.append_assoc]
  · intro e
    show s.queued e ++ (s.link e ++ arrivals e out).filterMap Payload.msg? =
      due e (s.distributed ++ distributedBy s.daemon act)
    rw [due_append, ← h.queued e, ← hrel e, List.filterMap_append, ← List.append_assoc]
    rfl

/-- A queue step at an endpoint that keeps the elements keeps the order. -/
theorem InOrder.onMsgRecv {s s' : Broadcast} {e : Endpoint} {q : Option (SemQueue IpcMsg)}
    (h : InOrder s) (hstep : onMsgRecv s e q = some s')
    (hq : ∀ q', q = some q' → q'.items = (s.msgRecv e).items) : InOrder s' := by
  obtain ⟨q', hq', rfl⟩ := Option.map_eq_some_iff.1 hstep
  refine ⟨h.accepted, fun e' => ?_⟩
  rw [← h.queued e']
  have hsame : (Function.update s.msgRecv e q' e').items = (s.msgRecv e').items := by
    by_cases he : e' = e
    · subst he
      rw [Function.update_self]
      exact hq q' hq'
    · rw [Function.update_of_ne he]
  simp only [Broadcast.queued, hsame]

/-- One step of the system keeps the order. -/
theorem InOrder.step {s s' : Broadcast} {act : BroadcastAct} (h : InOrder s)
    (hstep : s.step act = some s') (hports : PortsDistinct s.daemon.mlist) : InOrder s' := by
  cases act with
  | daemon act =>
    obtain ⟨⟨d, out⟩, hst, rfl⟩ := Option.map_eq_some_iff.1 hstep
    exact h.daemon hst hports
  | recv e =>
    simp only [Broadcast.step] at hstep
    split at hstep
    · cases hstep
    · rename_i payload rest hl
      cases hstep
      refine ⟨h.accepted, fun e' => ?_⟩
      rw [← h.queued e']
      by_cases he : e' = e
      · subst he
        simp only [Broadcast.queued, Function.update_self, hl]
        cases payload <;> simp [ipcRecvMsg, Payload.msg?, List.filterMap_cons]
      · simp only [Broadcast.queued, Function.update_of_ne he]
  | post e => exact h.onMsgRecv hstep fun q' hq => SemQueue.items_post hq
  | wait e => exact h.onMsgRecv hstep fun q' hq => SemQueue.items_wait hq
  | pull e => exact h.onMsgRecv hstep fun q' hq => SemQueue.items_pull hq
  | dispatch e =>
    simp only [Broadcast.step] at hstep
    split at hstep
    · rename_i p hp
      cases hstep
      refine ⟨h.accepted, fun e' => ?_⟩
      rw [← h.queued e']
      by_cases he : e' = e
      · subst he
        simp only [Broadcast.queued, Function.update_self, SemQueue.items_release hp]
        simp
      · simp only [Broadcast.queued, Function.update_of_ne he]
    · cases hstep

/-- No two members of the table have their message port at the same address. -/
def MembersApart (s : Broadcast) : Prop := PortsDistinct s.daemon.mlist

instance : DecidablePred MembersApart := fun s =>
  inferInstanceAs (Decidable (PortsDistinct s.daemon.mlist))

/-- **Messages arrive exactly once and in order.**  The daemon distributes the messages it
accepts in the order in which it accepted them; what was queued at an endpoint, followed by what
is on its link, is exactly what it was subscribed to when that was distributed; and what two
endpoints were both subscribed to comes to both in the same order. -/
theorem broadcast_in_order {s : Broadcast} (h : Reach broadcastLts (OnStates MembersApart) s) :
    s.accepted = s.distributed.map Prod.fst ++ s.daemon.recvMlist.items ∧
    (∀ e, s.queued e ++ (s.link e).filterMap Payload.msg? =
      (s.distributed.filter fun x => SubscribedAt e x).map Prod.fst) ∧
    ∀ e e', ∃ common,
      common = (s.distributed.filter fun x => SubscribedAt e x ∧ SubscribedAt e' x).map Prod.fst ∧
      common.Sublist (s.queued e ++ (s.link e).filterMap Payload.msg?) ∧
      common.Sublist (s.queued e' ++ (s.link e').filterMap Payload.msg?) := by
  have hinv : InOrder s ∧ MembersApart s := by
    refine h.invariant (I := fun s => InOrder s ∧ MembersApart s)
      ⟨inOrder_init, List.nodup_nil⟩ ?_
    intro s act s' _ hI hstep hapart
    exact ⟨hI.1.step hstep hI.2, hapart⟩
  obtain ⟨⟨hacc, hqueued⟩, -⟩ := hinv
  refine ⟨hacc, hqueued, fun e e' => ⟨_, rfl, ?_, ?_⟩⟩
  · rw [hqueued e]
    refine List.Sublist.map _ (List.monotone_filter_right _ fun x hx => ?_)
    exact decide_eq_true (of_decide_eq_true hx).1
  · rw [hqueued e']
    refine List.Sublist.map _ (List.monotone_filter_right _ fun x hx => ?_)
    exact decide_eq_true (of_decide_eq_true hx).2

/-- Process 1 subscribes to `"m"` and process 2 to `"*"`, and process 3 sends `"m"` twice. -/
def twoMessagesSent : List DaemonAct :=
  [joinAs 1 [97], packetFrom 1 (.msgRegister ⟨1, [109]⟩), joinAs 2 [98],
    packetFrom 2 (.msgRegister ⟨2, anyName⟩), joinAs 3 [99],
    packetFrom 3 (.msgSend ⟨[109], [99], 3, [7]⟩), packetFrom 3 (.msgSend ⟨[109], [99], 3, [8]⟩),
    .msgPost, .msgWait, .msgPull, .msgProbe, .msgPost, .msgWait, .msgPull, .msgProbe]

/-- Both messages are distributed; process 1 has received both, and process 2 the first, each behind
the answer to its join. -/
def twoMessagesRun : List BroadcastAct :=
  twoMessagesSent.map .daemon ++
    [.recv ⟨1, 11⟩, .recv ⟨1, 11⟩, .recv ⟨1, 11⟩, .recv ⟨1, 21⟩, .recv ⟨1, 21⟩]

/-- The two endpoints get the two messages in the same order. -/
theorem broadcast_in_order_twoMessages : ∃ s, Reach broadcastLts (OnStates MembersApart) s ∧
    s.queued ⟨1, 11⟩ = [⟨[109], [99], 3, [7]⟩, ⟨[109], [99], 3, [8]⟩] ∧
    s.queued ⟨1, 21⟩ = [⟨[109], [99], 3, [7]⟩] ∧
    (∀ e, s.queued e ++ (s.link e).filterMap Payload.msg? =
      (s.distributed.filter fun x => SubscribedAt e x).map Prod.fst) := by
  obtain ⟨s, hrun, hq, hq'⟩ : ∃ s,
      broadcastLts.runOk (OnStates MembersApart) broadcastLts.init twoMessagesRun = some s ∧
      s.queued ⟨1, 11⟩ = [⟨[109], [99], 3, [7]⟩, ⟨[109], [99], 3, [8]⟩] ∧
      s.queued ⟨1, 21⟩ = [⟨[109], [99], 3, [7]⟩] := ⟨_, rfl, by decide, by decide⟩
  have hreach := Reach.runOk .init hrun
  exact ⟨s, hreach, hq, hq', (broadcast_in_order hreach).2.1⟩

end EasyIpc

import EasyIpc.Daemon

/-!
# What a step of the daemon can do

A step of the daemon is one of many, but only a few of them touch the table, only a few the
messages and only a few the calls.

* `Daemon.step_mlist` — a step keeps what the other processes see of the members, or it is a
  registration, a removal or a join.
* `Daemon.step_msg` — a step accepts a message, distributes one, or is quiet about messages.
* `Daemon.step_rpc` — a step accepts a call, distributes one, handles a finish record, counts the
  pending calls down, or is quiet about calls.
* `queues_balanced` — in every reachable state the semaphores match the queues, so a woken
  distribution thread finds a head.
-/

namespace EasyIpc

open FirstMatch Concurrent Transition

variable {d d' : Daemon} {act : DaemonAct} {out : List Send}

/-- The payload is a message for a subscriber. -/
def Payload.isMsg : Payload → Bool
  | .msgRelay _ => true
  | _ => false

/-- The payload is a call for a provider or the answer to a call. -/
def Payload.isRpc : Payload → Bool
  | .apiRelay _ => true
  | .apiAckRelay _ _ => true
  | _ => false

/-! ## The steps one by one -/

theorem onMsgQueue_eq_some {q : Option (Concurrent.SemQueue IpcMsg)}
    (h : onMsgQueue d q = some (d', out)) :
    ∃ q', q = some q' ∧ d' = { d with recvMlist := q' } ∧ out = [] := by
  obtain ⟨q', hq, he⟩ := Option.map_eq_some_iff.1 h
  cases he
  exact ⟨q', hq, rfl, rfl⟩

theorem onApiQueue_eq_some {q : Option (Concurrent.SemQueue IpcApi)}
    (h : onApiQueue d q = some (d', out)) :
    ∃ q', q = some q' ∧ d' = { d with recvAlist := q' } ∧ out = [] := by
  obtain ⟨q', hq, he⟩ := Option.map_eq_some_iff.1 h
  cases he
  exact ⟨q', hq, rfl, rfl⟩

/-- A distribution step has pulled a message. -/
theorem step_msgProbe_eq_some (h : d.step .msgProbe = some (d', out)) :
    ∃ p, d.recvMlist.consumer = .holding p ∧
      d' = { d with recvMlist := d.recvMlist.release } ∧ out = ipcdMsgProbe p d := by
  simp only [Daemon.step] at h
  split at h
  · rename_i p hp
    cases h
    exact ⟨p, hp, rfl, rfl⟩
  · cases h

/-- A distribution step has pulled a call. -/
theorem step_apiProbe_eq_some (h : d.step .apiProbe = some (d', out)) :
    ∃ p, d.recvAlist.consumer = .holding p ∧
      ipcdApiProbe p { d with recvAlist := d.recvAlist.release } = (d', out) := by
  simp only [Daemon.step] at h
  split at h
  · rename_i p hp
    exact ⟨p, hp, Option.some.inj h⟩
  · cases h

/-- The receive thread has no other effect on the queue of messages than to accept one. -/
theorem ipcdAnalysisCore_msg (stale : MlistMember → MlistMember) (addr : ℕ) (pkt : IpcPacket)
    (d : Daemon) (hno : ∀ msg, pkt.body ≠ .msgSend msg) :
    (ipcdAnalysisCore stale addr pkt d).1.recvMlist = d.recvMlist ∧
      ∀ s ∈ (ipcdAnalysisCore stale addr pkt d).2, s.payload.isMsg = false := by
  obtain ⟨sendPid, body⟩ := pkt
  have hack : ∀ l pid ack call, ∀ s ∈ ackTo l pid ack call, s.payload.isMsg = false := by
    intro l pid ack call s hs
    obtain ⟨m, -, -, rfl⟩ := mem_ackTo hs
    rfl
  cases body with
  | msgSend msg => exact absurd rfl (hno msg)
  | join info =>
    simp only [ipcdAnalysisCore]
    split <;> refine ⟨rfl, ?_⟩ <;> simp [ipcdJoinAck, ipcdJoinAckFail, Payload.isMsg]
  | apiCall api =>
    simp only [ipcdAnalysisCore, ipcdApiCall]
    split <;> exact ⟨rfl, by simp⟩
  | apiRuntime rt =>
    simp only [ipcdAnalysisCore, ipcdApiFinish]
    split
    · split
      · split
        · exact ⟨rfl, hack _ _ _ _⟩
        · exact ⟨rfl, by simp⟩
      · exact ⟨rfl, hack _ _ _ _⟩
    · exact ⟨rfl, by simp⟩
  | msgRuntime rt =>
    simp only [ipcdAnalysisCore]
    split <;> exact ⟨rfl, by simp⟩
  | _ => exact ⟨rfl, by simp [ipcdAnalysisCore]⟩

/-- Nothing but acknowledgements comes out of a round of the timeout thread. -/
theorem mem_timeoutLoop {l : List MlistMember} {pend : List IpcApi} {s : Send}
    (h : s ∈ (timeoutLoop l pend).2) : ∃ a ∈ pend, countDown a ≤ 0 ∧
      s ∈ ackTo l a.sendPid ⟨a.ackId, .ackTimeout, []⟩ a.daemonMagicNumber := by
  induction pend with
  | nil => simp [timeoutLoop] at h
  | cons a pend ih =>
    simp only [timeoutLoop] at h
    split at h
    · rename_i hdown
      rcases List.mem_append.1 h with h | h
      · exact ⟨a, by simp, hdown, h⟩
      · obtain ⟨b, hb, hrest⟩ := ih h
        exact ⟨b, by simp [hb], hrest⟩
    · obtain ⟨b, hb, hrest⟩ := ih h
      exact ⟨b, by simp [hb], hrest⟩

section Scan

variable {p : IpcApi} {m : MlistMember} {rest l : List MlistMember}

theorem apiProbeScan_of_ne (h : m.pname ≠ p.pname) :
    apiProbeScan p (m :: rest) = apiProbeScan p rest := by
  rw [apiProbeScan.eq_def]
  exact if_pos h

/-- A suspended member of the name hides the member after it. -/
theorem apiProbeScan_of_suspended (h : m.pname = p.pname) (hs : m.suspend = true) :
    apiProbeScan p (m :: rest) = apiProbeScan p rest.tail := by
  cases rest <;> simp [apiProbeScan, h, hs]

theorem apiProbeScan_of_live (h : m.pname = p.pname) (hs : m.suspend = false) :
    apiProbeScan p (m :: rest) = (true, if listsName p.apiName m.apiList then
      m :: (apiProbeScan p rest).2 else (apiProbeScan p rest).2) := by
  rw [apiProbeScan.eq_def]
  simp [h, hs]

/-- Where no member answers to the program's name there is no provider. -/
theorem apiProbeScan_snd_of_fst (h : (apiProbeScan p l).1 = false) :
    (apiProbeScan p l).2 = [] := by
  induction l using apiProbeScan.induct p with
  | case1 => rfl
  | case2 m rest hne ih =>
    rw [apiProbeScan_of_ne hne] at h ⊢
    exact ih h
  | case3 m hne hs => simp [apiProbeScan, hs]
  | case4 m hne hs b rest ih =>
    rw [apiProbeScan_of_suspended (not_not.1 hne) hs] at h ⊢
    exact ih h
  | case5 m rest hne hs ih =>
    rw [apiProbeScan_of_live (not_not.1 hne) (by simpa using hs)] at h
    exact absurd h (by simp)

/-- A provider is a live member of the name that lists the API. -/
theorem mem_apiProbeScan (h : m ∈ (apiProbeScan p l).2) :
    m ∈ l ∧ m.pname = p.pname ∧ m.suspend = false ∧ listsName p.apiName m.apiList = true := by
  induction l using apiProbeScan.induct p with
  | case1 => simp [apiProbeScan] at h
  | case2 b rest hne ih =>
    rw [apiProbeScan_of_ne hne] at h
    exact ⟨List.mem_cons_of_mem b (ih h).1, (ih h).2⟩
  | case3 b hne hs => simp [apiProbeScan, hs] at h
  | case4 b hne hs c rest ih =>
    rw [apiProbeScan_of_suspended (not_not.1 hne) hs] at h
    have hin := ih h
    exact ⟨List.mem_cons_of_mem b (List.mem_cons_of_mem c hin.1), hin.2⟩
  | case5 b rest hne hs ih =>
    rw [apiProbeScan_of_live (not_not.1 hne) (by simpa using hs)] at h
    have hlater : m ∈ (apiProbeScan p rest).2 → m ∈ b :: rest ∧ m.pname = p.pname ∧
        m.suspend = false ∧ listsName p.apiName m.apiList = true := fun h =>
      ⟨List.mem_cons_of_mem b (ih h).1, (ih h).2⟩
    by_cases hl : listsName p.apiName b.apiList
    · simp only [if_pos hl, List.mem_cons] at h
      rcases h with rfl | h
      · exact ⟨by simp, not_not.1 hne, by simpa using hs, hl⟩
      · exact hlater h
    · simp only [if_neg hl] at h
      exact hlater h

end Scan

/-- The distribution of a call either refuses it, or relays it to its providers and keeps it as
pending once for each. -/
theorem ipcdApiProbe_cases (p : IpcApi) (d : Daemon) :
    ((apiProbeScan p d.mlist).2 = [] ∧ ∃ ret, ¬ ret.fromUser ∧ ipcdApiProbe p d =
      (d, ackTo d.mlist p.sendPid ⟨p.ackId, ret, []⟩ p.daemonMagicNumber)) ∨
    ((apiProbeScan p d.mlist).2 ≠ [] ∧ ipcdApiProbe p d =
      ({ d with recvAcklist := d.recvAcklist ++ (apiProbeScan p d.mlist).2.map fun _ => p },
        (apiProbeScan p d.mlist).2.map fun tmlm => ipcdRelayApi tmlm p)) := by
  rcases he : apiProbeScan p d.mlist with ⟨flag, providers⟩
  simp only [ipcdApiProbe, he]
  cases flag with
  | false =>
    have hnil : providers = [] := by
      simpa [he] using apiProbeScan_snd_of_fst (p := p) (l := d.mlist) (by rw [he])
    exact Or.inl ⟨hnil, .ackCantfindProgram, by decide, by simp⟩
  | true =>
    cases providers with
    | nil => exact Or.inl ⟨rfl, .ackCantfindApi, by decide, by simp⟩
    | cons m rest => exact Or.inr ⟨by simp, by simp⟩

/-! ## The table -/

/-- What a step can do to the table. -/
inductive TableEffect (act : DaemonAct) (l l' : List MlistMember) : Prop
  /-- The profiles of all members stay as they are. -/
  | kept (h : l'.map MlistMember.profile = l.map MlistMember.profile)
  | registerApi (stale : MlistMember → MlistMember) (addr : ℕ) (sendPid : ℤ) (info : RegisterInfo)
      (ha : act = .recv stale addr ⟨sendPid, .apiRegister info⟩) (h : l' = ipcdRegisterApi info l)
  | registerMsg (stale : MlistMember → MlistMember) (addr : ℕ) (sendPid : ℤ) (info : RegisterInfo)
      (ha : act = .recv stale addr ⟨sendPid, .msgRegister info⟩) (h : l' = ipcdRegisterMsg info l)
  | unregisterApi (stale : MlistMember → MlistMember) (addr : ℕ) (sendPid : ℤ)
      (info : RegisterInfo) (ha : act = .recv stale addr ⟨sendPid, .apiUnregister info⟩)
      (h : l' = ipcdUnregisterApi info l)
  | unregisterMsg (stale : MlistMember → MlistMember) (addr : ℕ) (sendPid : ℤ)
      (info : RegisterInfo) (ha : act = .recv stale addr ⟨sendPid, .msgUnregister info⟩)
      (h : l' = ipcdUnregisterMsg info l)
  | removed (stale : MlistMember → MlistMember) (addr : ℕ) (sendPid : ℤ) (info : JoinExitInfo)
      (ha : act = .recv stale addr ⟨sendPid, .exit info⟩ ∨
        act = .recv stale addr ⟨sendPid, .hangup info⟩)
      (h : l' = ipcdMlistRemoveViaPid info.joinExitProcessPid l)
  | joined (stale : MlistMember → MlistMember) (addr : ℕ) (sendPid : ℤ) (info : JoinExitInfo)
      (ha : act = .recv stale addr ⟨sendPid, .join info⟩) (h : l' = (ipcdJoin stale info addr l).2)

theorem ipcdApiFinish_mlist (sendPid : ℤ) (rt : IpcRuntime) (d : Daemon) :
    (ipcdApiFinish sendPid rt d).1.mlist = recordApi sendPid rt d.mlist := by
  unfold ipcdApiFinish
  extract_lets mlist iaal
  split
  · split <;> rfl
  · rfl

/-- A packet of a join. -/
theorem ipcdAnalysisCore_join_mlist (stale : MlistMember → MlistMember) (addr : ℕ) (sendPid : ℤ)
    (info : JoinExitInfo) (d : Daemon) :
    (ipcdAnalysisCore stale addr ⟨sendPid, .join info⟩ d).1.mlist =
      (ipcdJoin stale info addr d.mlist).2 := by
  simp only [ipcdAnalysisCore]
  rcases ipcdJoin stale info addr d.mlist with ⟨_ | m, l⟩ <;> rfl

/-- The receive thread. -/
theorem ipcdAnalysisCore_mlist (stale : MlistMember → MlistMember) (addr : ℕ) (pkt : IpcPacket)
    (d : Daemon) : TableEffect (.recv stale addr pkt) d.mlist
      (ipcdAnalysisCore stale addr pkt d).1.mlist := by
  obtain ⟨sendPid, body⟩ := pkt
  cases body with
  | apiRegister info => exact .registerApi stale addr sendPid info rfl rfl
  | msgRegister info => exact .registerMsg stale addr sendPid info rfl rfl
  | apiUnregister info => exact .unregisterApi stale addr sendPid info rfl rfl
  | msgUnregister info => exact .unregisterMsg stale addr sendPid info rfl rfl
  | exit info => exact .removed stale addr sendPid info (Or.inl rfl) rfl
  | hangup info => exact .removed stale addr sendPid info (Or.inr rfl) rfl
  | join info =>
    exact .joined stale addr sendPid info rfl (ipcdAnalysisCore_join_mlist stale addr sendPid info d)
  | apiCall api =>
    refine .kept ?_
    simp only [ipcdAnalysisCore, ipcdApiCall]
    split <;> simp
  | msgSend msg =>
    refine .kept ?_
    simp only [ipcdAnalysisCore, ipcdMsgSend]
    split <;> simp
  | apiRuntime rt =>
    refine .kept ?_
    simp only [ipcdAnalysisCore]
    split
    · simp [ipcdApiFinish_mlist]
    · rfl
  | msgRuntime rt =>
    refine .kept ?_
    simp only [ipcdAnalysisCore]
    split <;> simp
  | _ => exact .kept (by simp [ipcdAnalysisCore])

/-- Only the receive thread and the live thread touch the table. -/
theorem Daemon.step_mlist_eq (h : d.step act = some (d', out))
    (hrecv : ∀ stale addr pkt, act ≠ .recv stale addr pkt) (hlive : act ≠ .liveSweep) :
    d'.mlist = d.mlist := by
  cases act with
  | recv stale addr pkt => exact absurd rfl (hrecv stale addr pkt)
  | liveSweep => exact absurd rfl hlive
  | msgPost | msgWait | msgPull =>
    obtain ⟨q, -, rfl, -⟩ := onMsgQueue_eq_some h
    rfl
  | apiPost | apiWait | apiPull =>
    obtain ⟨q, -, rfl, -⟩ := onApiQueue_eq_some h
    rfl
  | msgProbe =>
    obtain ⟨p, -, rfl, -⟩ := step_msgProbe_eq_some h
    rfl
  | apiProbe =>
    obtain ⟨p, -, he⟩ := step_apiProbe_eq_some h
    rcases ipcdApiProbe_cases p { d with recvAlist := d.recvAlist.release } with
      ⟨-, ret, -, hp⟩ | ⟨-, hp⟩ <;> rw [hp] at he <;> cases he <;> rfl
  | timeoutSweep =>
    cases h
    rfl

/-- **What a step of the daemon does to the table.** -/
theorem Daemon.step_mlist (h : d.step act = some (d', out)) :
    TableEffect act d.mlist d'.mlist := by
  cases act with
  | recv stale addr pkt =>
    have he : ipcdAnalysisCore stale addr pkt d = (d', out) := Option.some.inj h
    have heffect := ipcdAnalysisCore_mlist stale addr pkt d
    rw [he] at heffect
    exact heffect
  | liveSweep =>
    cases h
    exact .kept (by simp)
  | _ => exact .kept (by rw [Daemon.step_mlist_eq h (by simp) (by simp)])

/-- The identities in the table. -/
def idents (l : List MlistMember) : List Ident := l.map MlistMember.ident

/-- An identity in the table after a step was there before, or joins. -/
theorem Daemon.step_idents (h : d.step act = some (d', out)) {k : Ident}
    (hk : k ∈ idents d'.mlist) : k ∈ idents d.mlist ∨ ∃ stale addr sendPid info,
      act = .recv stale addr ⟨sendPid, .join info⟩ ∧ k = (newMember info addr).ident := by
  have hsub : ∀ l : List MlistMember, l.Sublist d.mlist → k ∈ idents l → k ∈ idents d.mlist :=
    fun l hl hk => (hl.map MlistMember.ident).subset hk
  cases Daemon.step_mlist h with
  | kept hprofile =>
    have he : idents d'.mlist = idents d.mlist := map_eq_of_profile Profile.ident hprofile
    exact Or.inl (he ▸ hk)
  | registerApi stale addr sendPid info ha hl => exact Or.inl (by simpa [idents, hl] using hk)
  | registerMsg stale addr sendPid info ha hl => exact Or.inl (by simpa [idents, hl] using hk)
  | unregisterApi stale addr sendPid info ha hl => exact Or.inl (by simpa [idents, hl] using hk)
  | unregisterMsg stale addr sendPid info ha hl => exact Or.inl (by simpa [idents, hl] using hk)
  | removed stale addr sendPid info ha hl =>
    rw [hl] at hk
    exact Or.inl (hsub _ (ipcdMlistRemoveViaPid_sublist info.joinExitProcessPid d.mlist) hk)
  | joined stale addr sendPid info ha hl =>
    rw [hl] at hk
    rcases ipcdJoin_cases stale info addr d.mlist with ⟨l, hl, he⟩ | ⟨l, hl, he⟩
    · rw [he] at hk
      exact Or.inl (hsub l hl hk)
    · rw [he, idents, List.map_append, List.mem_append] at hk
      rcases hk with hk | hk
      · exact Or.inl (hsub l hl hk)
      · exact Or.inr ⟨stale, addr, sendPid, info, ha, List.mem_singleton.1 hk⟩

/-! ## Messages -/

/-- What a step can do to the messages in the daemon's hands. -/
inductive MsgEffect (act : DaemonAct) (d d' : Daemon) (out : List Send) : Prop
  /-- No message of a registered process comes in, none goes out, and the queue keeps its
  elements. -/
  | quiet (hnew : ∀ stale addr sendPid msg, act = .recv stale addr ⟨sendPid, .msgSend msg⟩ →
        ipcdGetMlistViaPid d.mlist sendPid = none)
      (hprobe : act ≠ .msgProbe) (hitems : d'.recvMlist.items = d.recvMlist.items)
      (hout : ∀ s ∈ out, s.payload.isMsg = false)
  /-- A message of a registered process is accepted. -/
  | accept (stale : MlistMember → MlistMember) (addr : ℕ) (sendPid : ℤ) (msg : IpcMsg)
      (ha : act = .recv stale addr ⟨sendPid, .msgSend msg⟩)
      (hreg : (ipcdGetMlistViaPid d.mlist sendPid).isSome)
      (hq : d'.recvMlist = d.recvMlist.attach msg) (hout : out = [])
  /-- The message that was pulled goes to the members that want it. -/
  | distribute (p : IpcMsg) (ha : act = .msgProbe) (hp : d.recvMlist.consumer = .holding p)
      (hq : d'.recvMlist = d.recvMlist.release) (hout : out = ipcdMsgProbe p d)

/-- The receive thread. -/
theorem ipcdAnalysisCore_msgEffect {stale : MlistMember → MlistMember} {addr : ℕ} {pkt : IpcPacket}
    (h : ipcdAnalysisCore stale addr pkt d = (d', out)) :
    MsgEffect (.recv stale addr pkt) d d' out := by
  by_cases hmsg : ∃ msg, pkt.body = .msgSend msg
  · obtain ⟨sendPid, body⟩ := pkt
    obtain ⟨msg, rfl⟩ := hmsg
    simp only [ipcdAnalysisCore, ipcdMsgSend] at h
    split at h
    · rename_i hm
      cases h
      exact .quiet (by rintro _ _ _ _ ⟨⟩; exact hm) (by simp) rfl (by simp)
    · rename_i m hm
      cases h
      exact .accept stale addr sendPid msg rfl (by rw [hm]; rfl) rfl rfl
  · have hquiet := ipcdAnalysisCore_msg stale addr pkt d fun msg hb => hmsg ⟨msg, hb⟩
    rw [h] at hquiet
    refine .quiet ?_ (by simp) (by rw [hquiet.1]) hquiet.2
    rintro _ _ _ msg ⟨⟩
    exact absurd ⟨msg, rfl⟩ hmsg

/-- **What a step of the daemon does to the messages.** -/
theorem Daemon.step_msg (h : d.step act = some (d', out)) : MsgEffect act d d' out := by
  cases act with
  | recv stale addr pkt => exact ipcdAnalysisCore_msgEffect (Option.some.inj h)
  | msgPost =>
    obtain ⟨q, hq, rfl, rfl⟩ := onMsgQueue_eq_some h
    exact .quiet (by simp) (by simp) (SemQueue.items_post hq) (by simp)
  | msgWait =>
    obtain ⟨q, hq, rfl, rfl⟩ := onMsgQueue_eq_some h
    exact .quiet (by simp) (by simp) (SemQueue.items_wait hq) (by simp)
  | msgPull =>
    obtain ⟨q, hq, rfl, rfl⟩ := onMsgQueue_eq_some h
    exact .quiet (by simp) (by simp) (SemQueue.items_pull hq) (by simp)
  | msgProbe =>
    obtain ⟨p, hp, rfl, rfl⟩ := step_msgProbe_eq_some h
    exact .distribute p rfl hp rfl rfl
  | apiPost | apiWait | apiPull =>
    obtain ⟨q, -, rfl, rfl⟩ := onApiQueue_eq_some h
    exact .quiet (by simp) (by simp) rfl (by simp)
  | apiProbe =>
    obtain ⟨p, -, he⟩ := step_apiProbe_eq_some h
    rcases ipcdApiProbe_cases p { d with recvAlist := d.recvAlist.release } with
      ⟨-, ret, -, hp⟩ | ⟨-, hp⟩
    · rw [hp] at he
      cases he
      refine .quiet (by simp) (by simp) rfl fun s hs => ?_
      obtain ⟨m, -, -, rfl⟩ := mem_ackTo hs
      rfl
    · rw [hp] at he
      cases he
      refine .quiet (by simp) (by simp) rfl fun s hs => ?_
      obtain ⟨m, -, rfl⟩ := List.mem_map.1 hs
      rfl
  | liveSweep =>
    cases h
    exact .quiet (by simp) (by simp) rfl (by simp)
  | timeoutSweep =>
    cases h
    refine .quiet (by simp) (by simp) rfl fun s hs => ?_
    obtain ⟨a, -, -, hs⟩ := mem_timeoutLoop hs
    obtain ⟨m, -, -, rfl⟩ := mem_ackTo hs
    rfl

/-! ## Calls -/

/-- What a step can do to the calls in the daemon's hands. -/
inductive RpcEffect (act : DaemonAct) (d d' : Daemon) (out : List Send) : Prop
  /-- No call of a registered process comes in, nothing about calls goes out, and all calls stay
  where they are. -/
  | quiet (hnew : ∀ stale addr sendPid api, act = .recv stale addr ⟨sendPid, .apiCall api⟩ →
        ipcdGetMlistViaPid d.mlist sendPid = none)
      (hrecord : ∀ stale addr sendPid rt, act = .recv stale addr ⟨sendPid, .apiRuntime rt⟩ →
        rt.flag = false)
      (hitems : d'.recvAlist.items = d.recvAlist.items) (hack : d'.recvAcklist = d.recvAcklist)
      (hmagic : d'.apiPublicMagicNumber = d.apiPublicMagicNumber)
      (hout : ∀ s ∈ out, s.payload.isRpc = false)
  /-- A call of a registered process is accepted under the next number. -/
  | accept (stale : MlistMember → MlistMember) (addr : ℕ) (sendPid : ℤ) (api : IpcApi)
      (ha : act = .recv stale addr ⟨sendPid, .apiCall api⟩)
      (hreg : (ipcdGetMlistViaPid d.mlist sendPid).isSome)
      (he : (d', out) = ({ d with
        mlist := markSender sendPid d.mlist
        recvAlist := d.recvAlist.attach { api with daemonMagicNumber := d.apiPublicMagicNumber }
        apiPublicMagicNumber := d.apiPublicMagicNumber + 1 }, []))
  /-- The call that was pulled is distributed. -/
  | probe (p : IpcApi) (ha : act = .apiProbe) (hp : d.recvAlist.consumer = .holding p)
      (he : (d', out) = ipcdApiProbe p { d with recvAlist := d.recvAlist.release })
  /-- A record of the end of an API function is handled. -/
  | finish (stale : MlistMember → MlistMember) (addr : ℕ) (sendPid : ℤ) (rt : IpcRuntime)
      (ha : act = .recv stale addr ⟨sendPid, .apiRuntime rt⟩) (hflag : rt.flag = true)
      (he : (d', out) = ipcdApiFinish sendPid rt d)
  /-- The pending calls are counted down. -/
  | sweep (ha : act = .timeoutSweep) (he : (d', out) = ipcApiTimeoutCheck d)

/-- The receive thread. -/
theorem ipcdAnalysisCore_rpc (stale : MlistMember → MlistMember) (addr : ℕ) (pkt : IpcPacket)
    (d : Daemon) : RpcEffect (.recv stale addr pkt) d (ipcdAnalysisCore stale addr pkt d).1
      (ipcdAnalysisCore stale addr pkt d).2 := by
  obtain ⟨sendPid, body⟩ := pkt
  cases body with
  | apiCall api =>
    simp only [ipcdAnalysisCore, ipcdApiCall]
    split
    · rename_i hm
      exact .quiet (by rintro _ _ _ _ ⟨⟩; exact hm) (by simp) rfl rfl rfl (by simp)
    · rename_i m hm
      exact .accept stale addr sendPid api rfl (by rw [hm]; rfl) rfl
  | apiRuntime rt =>
    simp only [ipcdAnalysisCore]
    split
    · rename_i hflag
      exact .finish stale addr sendPid rt rfl hflag rfl
    · rename_i hflag
      exact .quiet (by simp) (by rintro _ _ _ _ ⟨⟩; simpa using hflag) rfl rfl rfl (by simp)
  | msgSend msg =>
    simp only [ipcdAnalysisCore, ipcdMsgSend]
    split <;> exact .quiet (by simp) (by simp) rfl rfl rfl (by simp)
  | join info =>
    simp only [ipcdAnalysisCore]
    split <;> refine .quiet (by simp) (by simp) rfl rfl rfl ?_ <;>
      simp [ipcdJoinAck, ipcdJoinAckFail, Payload.isRpc]
  | msgRuntime rt =>
    simp only [ipcdAnalysisCore]
    split <;> exact .quiet (by simp) (by simp) rfl rfl rfl (by simp)
  | _ => exact .quiet (by simp) (by simp) rfl rfl rfl (by simp [ipcdAnalysisCore])

/-- **What a step of the daemon does to the calls.** -/
theorem Daemon.step_rpc (h : d.step act = some (d', out)) : RpcEffect act d d' out := by
  cases act with
  | recv stale addr pkt =>
    have he : ipcdAnalysisCore stale addr pkt d = (d', out) := Option.some.inj h
    have heffect := ipcdAnalysisCore_rpc stale addr pkt d
    rw [he] at heffect
    exact heffect
  | msgPost | msgWait | msgPull =>
    obtain ⟨q, -, rfl, rfl⟩ := onMsgQueue_eq_some h
    exact .quiet (by simp) (by simp) rfl rfl rfl (by simp)
  | msgProbe =>
    obtain ⟨p, -, rfl, rfl⟩ := step_msgProbe_eq_some h
    refine .quiet (by simp) (by simp) rfl rfl rfl fun s hs => ?_
    obtain ⟨m, -, rfl⟩ := List.mem_map.1 hs
    rfl
  | apiPost =>
    obtain ⟨q, hq, rfl, rfl⟩ := onApiQueue_eq_some h
    exact .quiet (by simp) (by simp) (SemQueue.items_post hq) rfl rfl (by simp)
  | apiWait =>
    obtain ⟨q, hq, rfl, rfl⟩ := onApiQueue_eq_some h
    exact .quiet (by simp) (by simp) (SemQueue.items_wait hq) rfl rfl (by simp)
  | apiPull =>
    obtain ⟨q, hq, rfl, rfl⟩ := onApiQueue_eq_some h
    exact .quiet (by simp) (by simp) (SemQueue.items_pull hq) rfl rfl (by simp)
  | apiProbe =>
    obtain ⟨p, hp, he⟩ := step_apiProbe_eq_some h
    exact .probe p rfl hp he.symm
  | liveSweep =>
    cases h
    exact .quiet (by simp) (by simp) rfl rfl rfl (by simp)
  | timeoutSweep => exact .sweep rfl (Option.some.inj h).symm

/-! ## The semaphores -/

/-- Both queues are balanced. -/
def QueuesBalanced (d : Daemon) : Prop := d.recvMlist.Balanced ∧ d.recvAlist.Balanced

theorem ipcdApiProbe_queues (p : IpcApi) (d : Daemon) :
    (ipcdApiProbe p d).1.recvMlist = d.recvMlist ∧
      (ipcdApiProbe p d).1.recvAlist = d.recvAlist := by
  rcases ipcdApiProbe_cases p d with ⟨-, ret, -, h⟩ | ⟨-, h⟩ <;> rw [h] <;> exact ⟨rfl, rfl⟩

theorem ipcdAnalysisCore_queues (stale : MlistMember → MlistMember) (addr : ℕ) (pkt : IpcPacket)
    (h : QueuesBalanced d) : QueuesBalanced (ipcdAnalysisCore stale addr pkt d).1 := by
  obtain ⟨sendPid, body⟩ := pkt
  cases body with
  | apiCall api =>
    simp only [ipcdAnalysisCore, ipcdApiCall]
    split
    · exact h
    · exact ⟨h.1, h.2.attach _⟩
  | msgSend msg =>
    simp only [ipcdAnalysisCore, ipcdMsgSend]
    split
    · exact h
    · exact ⟨h.1.attach _, h.2⟩
  | apiRuntime rt =>
    simp only [ipcdAnalysisCore, ipcdApiFinish]
    split
    · split
      · split <;> exact h
      · exact h
    · exact h
  | join info =>
    simp only [ipcdAnalysisCore]
    split <;> exact h
  | msgRuntime rt =>
    simp only [ipcdAnalysisCore]
    split <;> exact h
  | _ => exact h

theorem queues_balanced_step (h : d.step act = some (d', out)) (hb : QueuesBalanced d) :
    QueuesBalanced d' := by
  cases act with
  | recv stale addr pkt =>
    have he : ipcdAnalysisCore stale addr pkt d = (d', out) := Option.some.inj h
    have hq := ipcdAnalysisCore_queues stale addr pkt hb
    rw [he] at hq
    exact hq
  | msgPost =>
    obtain ⟨q, hq, rfl, -⟩ := onMsgQueue_eq_some h
    exact ⟨hb.1.post hq, hb.2⟩
  | msgWait =>
    obtain ⟨q, hq, rfl, -⟩ := onMsgQueue_eq_some h
    exact ⟨hb.1.wait hq, hb.2⟩
  | msgPull =>
    obtain ⟨q, hq, rfl, -⟩ := onMsgQueue_eq_some h
    exact ⟨hb.1.pull hq, hb.2⟩
  | msgProbe =>
    obtain ⟨p, hp, rfl, -⟩ := step_msgProbe_eq_some h
    exact ⟨hb.1.release hp, hb.2⟩
  | apiPost =>
    obtain ⟨q, hq, rfl, -⟩ := onApiQueue_eq_some h
    exact ⟨hb.1, hb.2.post hq⟩
  | apiWait =>
    obtain ⟨q, hq, rfl, -⟩ := onApiQueue_eq_some h
    exact ⟨hb.1, hb.2.wait hq⟩
  | apiPull =>
    obtain ⟨q, hq, rfl, -⟩ := onApiQueue_eq_some h
    exact ⟨hb.1, hb.2.pull hq⟩
  | apiProbe =>
    obtain ⟨p, hp, he⟩ := step_apiProbe_eq_some h
    have hq := ipcdApiProbe_queues p { d with recvAlist := d.recvAlist.release }
    rw [he] at hq
    exact ⟨by rw [hq.1]; exact hb.1, by rw [hq.2]; exact hb.2.release hp⟩
  | liveSweep => cases h; exact hb
  | timeoutSweep => cases h; exact hb

/-- **A woken distribution thread finds a head**, in every reachable state. -/
theorem queues_balanced {ok : Daemon → DaemonAct → Daemon → Prop} (h : Reach daemonLts ok d) :
    QueuesBalanced d ∧ (d.recvMlist.consumer = .woken → (d.step .msgPull).isSome) ∧
      (d.recvAlist.consumer = .woken → (d.step .apiPull).isSome) := by
  have hb : QueuesBalanced d := by
    refine h.invariant (I := QueuesBalanced)
      ⟨SemQueue.balanced_empty, SemQueue.balanced_empty⟩ ?_
    intro s act s' _ hb hstep _
    obtain ⟨⟨t, out⟩, hst, rfl⟩ := Option.map_eq_some_iff.1 hstep
    exact queues_balanced_step hst hb
  refine ⟨hb, fun hc => ?_, fun hc => ?_⟩
  · obtain ⟨a, l, hl⟩ := hb.1.exists_head hc
    simp [Daemon.step, onMsgQueue, SemQueue.pull, hc, hl]
  · obtain ⟨a, l, hl⟩ := hb.2.exists_head hc
    simp [Daemon.step, onApiQueue, SemQueue.pull, hc, hl]

end EasyIpc

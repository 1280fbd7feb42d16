import EasyIpc.Calls

/-!
# Where an acknowledgement comes from

The daemon builds acknowledgements in five places: at the end of a function whose caller waits, at
the end of a function its provider does not list, when a call runs out, and in the two refusals.

* `RpcSend` — the relays and acknowledgements a step can send, each with its destination.
* `Daemon.step_sends` — a step sends no others.
* `Daemon.step_open` — the calls in the daemon's hands after a step.
* `unlisted_ack` — the one place that does not look at who called.
-/

namespace EasyIpc

open FirstMatch Concurrent

variable {d d' : Daemon} {act : DaemonAct} {out : List Send} {x : Send}

/-- A relay or an acknowledgement that a step sends. -/
inductive RpcSend (d : Daemon) (act : DaemonAct) (x : Send) : Prop
  /-- A call on its way to a provider of the name. -/
  | relay (k : Ident) (a : IpcApi) (hk : k ∈ idents d.mlist) (ha : a ∈ openCalls d)
      (hname : k.pname = a.pname) (hx : x = ⟨k.apiEndpoint, k.pid, .apiRelay a⟩)
  /-- A call that nobody provides, or that has run out: the answer goes to its caller. -/
  | refusal (k : Ident) (a : IpcApi) (ret : IpcApiRet) (hk : k ∈ idents d.mlist)
      (ha : a ∈ openCalls d) (hpid : k.pid = a.sendPid) (hret : ¬ ret.fromUser)
      (hx : x = ⟨k.apiEndpoint, k.pid, .apiAckRelay ⟨a.ackId, ret, []⟩ a.daemonMagicNumber⟩)
  /-- The end of a function: the answer goes to the caller of the pending call with the number, or,
  where the sender of the record does not list the API, to the sender. -/
  | finish (stale : MlistMember → MlistMember) (addr : ℕ) (sendPid : ℤ) (rt : IpcRuntime) (k : Ident)
      (ha : act = .recv stale addr ⟨sendPid, .apiRuntime rt⟩) (hflag : rt.flag = true)
      (hk : k ∈ idents d.mlist)
      (hpid : (∃ a ∈ openCalls d, a.daemonMagicNumber = rt.daemonMagicNumber ∧ k.pid = a.sendPid) ∨
        senderLists d.mlist sendPid rt = false ∧ k.pid = sendPid)
      (hx : x = ⟨k.apiEndpoint, k.pid, .apiAckRelay ⟨rt.callerMagicNumber, rt.ret, rt.retData⟩
        rt.daemonMagicNumber⟩)

/-- An acknowledgement goes to a member of the table. -/
theorem mem_ackTo_ident {l : List MlistMember} {pid : ℤ} {ack : IpcApiAckList} {call : Magic}
    (h : x ∈ ackTo l pid ack call) :
    ∃ k ∈ idents l, k.pid = pid ∧ x = ⟨k.apiEndpoint, k.pid, .apiAckRelay ack call⟩ := by
  obtain ⟨m, hm, hpid, rfl⟩ := mem_ackTo h
  exact ⟨m.ident, List.mem_map_of_mem hm, hpid, rfl⟩

theorem idents_recordApi (pid : ℤ) (rt : IpcRuntime) (l : List MlistMember) :
    idents (recordApi pid rt l) = idents l :=
  map_eq_of_profile Profile.ident (profile_recordApi pid rt l)

/-- The end of a function. -/
theorem ipcdApiFinish_sends {sendPid : ℤ} {rt : IpcRuntime} (stale : MlistMember → MlistMember)
    (addr : ℕ) (hflag : rt.flag = true) (hx : x ∈ (ipcdApiFinish sendPid rt d).2) :
    RpcSend d (.recv stale addr ⟨sendPid, .apiRuntime rt⟩) x := by
  unfold ipcdApiFinish at hx
  extract_lets mlist iaal at hx
  split at hx
  · split at hx
    · rename_i a ha
      obtain ⟨k, hk, hpid, rfl⟩ := mem_ackTo_ident hx
      rw [idents_recordApi] at hk
      have hmagic : a.daemonMagicNumber = rt.daemonMagicNumber := by
        simpa using List.find?_some ha
      have hopen : a ∈ openCalls d := List.mem_append_right _ (List.mem_of_find?_eq_some ha)
      exact .finish stale addr sendPid rt k rfl hflag hk (Or.inl ⟨a, hopen, hmagic, hpid⟩) rfl
    · cases hx
  · rename_i hlist
    obtain ⟨k, hk, hpid, rfl⟩ := mem_ackTo_ident hx
    rw [idents_recordApi] at hk
    exact .finish stale addr sendPid rt k rfl hflag hk
      (Or.inr ⟨Bool.eq_false_iff.2 hlist, hpid⟩) rfl

/-- The distribution of a call. -/
theorem ipcdApiProbe_sends {p : IpcApi} (hp : d.recvAlist.consumer = .holding p)
    (hx : x ∈ (ipcdApiProbe p { d with recvAlist := d.recvAlist.release }).2) :
    RpcSend d .apiProbe x := by
  have hopen : p ∈ openCalls d := by
    rw [openCalls, SemQueue.items_release hp]
    simp
  rcases ipcdApiProbe_cases p { d with recvAlist := d.recvAlist.release } with
    ⟨-, ret, hret, he⟩ | ⟨-, he⟩
  · rw [he] at hx
    obtain ⟨k, hk, hpid, rfl⟩ := mem_ackTo_ident hx
    exact .refusal k p ret hk hopen hpid hret rfl
  · rw [he] at hx
    obtain ⟨m, hm, rfl⟩ := List.mem_map.1 hx
    obtain ⟨hmem, hname, -, -⟩ := mem_apiProbeScan hm
    exact .relay m.ident p (List.mem_map_of_mem hmem) hopen hname rfl

/-- **What a step of the daemon sends about calls.** -/
theorem Daemon.step_sends (h : d.step act = some (d', out)) (hx : x ∈ out)
    (hrpc : x.payload.isRpc = true) : RpcSend d act x := by
  cases Daemon.step_rpc h with
  | quiet hnew hrecord hitems hack hmagic hout =>
    rw [hout x hx] at hrpc
    cases hrpc
  | accept stale addr sendPid api ha hreg he =>
    cases he
    cases hx
  | probe p ha hp he =>
    subst ha
    refine ipcdApiProbe_sends hp ?_
    rw [← he]
    exact hx
  | finish stale addr sendPid rt ha hflag he =>
    subst ha
    refine ipcdApiFinish_sends stale addr hflag ?_
    rw [← he]
    exact hx
  | sweep ha he =>
    have hout : out = (timeoutLoop d.mlist d.recvAcklist).2 := congrArg Prod.snd he
    obtain ⟨a, ha, -, hack⟩ := mem_timeoutLoop (hout ▸ hx)
    obtain ⟨k, hk, hpid, rfl⟩ := mem_ackTo_ident hack
    exact .refusal k a .ackTimeout hk (List.mem_append_right _ ha) hpid (by decide) rfl

/-- **The calls in the daemon's hands after a step** were there before it or have come in. -/
theorem Daemon.step_open (h : d.step act = some (d', out)) {a : IpcApi} (ha : a ∈ openCalls d') :
    ∃ b ∈ openCalls d ++ callsIn d act, ticket b = ticket a := by
  cases Daemon.step_rpc h with
  | quiet hnew hrecord hitems hack hmagic hout =>
    refine ⟨a, List.mem_append_left _ ?_, rfl⟩
    rwa [openCalls, ← hitems, ← hack]
  | accept stale addr sendPid api hact hreg he =>
    subst hact
    cases he
    have hin := callsIn_of_registered stale addr api hreg
    refine ⟨a, ?_, rfl⟩
    simp only [openCalls, SemQueue.items_attach, List.mem_append] at ha
    simp only [openCalls, hin, List.mem_append]
    tauto
  | probe p hact hp he =>
    have hopen : ∀ b, b = p ∨ b ∈ d.recvAlist.release.items ++ d.recvAcklist → b ∈ openCalls d := by
      intro b hb
      rw [openCalls, SemQueue.items_release hp, List.cons_append]
      exact List.mem_cons.2 hb
    refine ⟨a, List.mem_append_left _ (hopen a ?_), rfl⟩
    rcases ipcdApiProbe_cases p { d with recvAlist := d.recvAlist.release } with
      ⟨-, ret, -, hcase⟩ | ⟨-, hcase⟩
    · rw [hcase] at he
      cases he
      exact Or.inr ha
    · rw [hcase] at he
      cases he
      simp only [openCalls, List.mem_append, List.mem_map] at ha ⊢
      rcases ha with ha | ha | ⟨-, -, rfl⟩
      · exact Or.inr (Or.inl ha)
      · exact Or.inr (Or.inr ha)
      · exact Or.inl rfl
  | finish stale addr sendPid rt hact hflag he =>
    refine ⟨a, List.mem_append_left _ ?_, rfl⟩
    have hd : d' = (ipcdApiFinish sendPid rt d).1 := congrArg Prod.fst he
    subst hd
    unfold ipcdApiFinish at ha
    extract_lets mlist iaal at ha
    split at ha
    · split at ha
      · rcases List.mem_append.1 ha with ha | ha
        · exact List.mem_append_left _ ha
        · exact List.mem_append_right _ (List.mem_of_mem_eraseP ha)
      · exact ha
    · exact ha
  | sweep hact he =>
    have hd : d' = (ipcApiTimeoutCheck d).1 := congrArg Prod.fst he
    subst hd
    simp only [openCalls, ipcApiTimeoutCheck, timeoutLoop_eq, List.mem_append, List.mem_map] at ha
    rcases ha with ha | ⟨b, hb, rfl⟩
    · exact ⟨a, List.mem_append_left _ (List.mem_append_left _ ha), rfl⟩
    · exact ⟨b, List.mem_append_left _ (List.mem_append_right _ (List.mem_filter.1 hb).1), rfl⟩

/-- The numbers go up by one with each call that comes in. -/
theorem Daemon.step_number (h : d.step act = some (d', out)) :
    d'.apiPublicMagicNumber = d.apiPublicMagicNumber + BitVec.ofNat 32 (callsIn d act).length := by
  cases Daemon.step_rpc h with
  | quiet hnew hrecord hitems hack hmagic hout => simp [callsIn_of_quiet hnew, hmagic]
  | accept stale addr sendPid api hact hreg he =>
    subst hact
    cases he
    simp [callsIn_of_registered stale addr api hreg]
  | probe p hact hp he =>
    subst hact
    rcases ipcdApiProbe_cases p { d with recvAlist := d.recvAlist.release } with
      ⟨-, ret, -, hcase⟩ | ⟨-, hcase⟩ <;> rw [hcase] at he <;> cases he <;> simp [callsIn]
  | finish stale addr sendPid rt hact hflag he =>
    subst hact
    have hd : d' = (ipcdApiFinish sendPid rt d).1 := congrArg Prod.fst he
    have hmagic : (ipcdApiFinish sendPid rt d).1.apiPublicMagicNumber = d.apiPublicMagicNumber := by
      unfold ipcdApiFinish
      extract_lets mlist iaal
      split
      · split <;> rfl
      · rfl
    simp [hd, hmagic, callsIn]
  | sweep hact he =>
    subst hact
    cases he
    simp [callsIn]

/-- **The end of a function that its provider does not list is answered to the provider.** -/
theorem unlisted_ack {sendPid : ℤ} {rt : IpcRuntime}
    (hreg : (ipcdGetMlistViaPid d.mlist sendPid).isSome)
    (hlist : senderLists d.mlist sendPid rt = false) :
    ∃ x ∈ (ipcdApiFinish sendPid rt d).2, x.sendPid = sendPid ∧ x.payload =
      .apiAckRelay ⟨rt.callerMagicNumber, rt.ret, rt.retData⟩ rt.daemonMagicNumber := by
  obtain ⟨m, hm⟩ : ∃ m, ipcdGetMlistViaPid (recordApi sendPid rt d.mlist) sendPid = some m := by
    apply Option.isSome_iff_exists.1
    rw [isSome_ipcdGetMlistViaPid, any_hasPid_recordApi, ← isSome_ipcdGetMlistViaPid]
    exact hreg
  refine ⟨ipcdApiAckRelay m ⟨rt.callerMagicNumber, rt.ret, rt.retData⟩ rt.daemonMagicNumber,
    ?_, (ipcdGetMlistViaPid_eq_some hm).2, rfl⟩
  simp [ipcdApiFinish, hlist, ackTo, hm]

end EasyIpc

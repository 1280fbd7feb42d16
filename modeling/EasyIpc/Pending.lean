import EasyIpc.Calls
import EasyIpc.Join

/-!
# Pending calls without a timeout

A call that `ipc_call_api` is given with timeout 0 has the count `API_TIMEOUT_MAX` and stays in
`recv_acklist` until a finish record comes.  Nothing the daemon does when a member leaves or takes
an API back looks at `recv_acklist`.

* `takesAway` — the requests that take a provider, or its API, away.
* `untimed_has_provider` — in a run without such a request the provider of such a call is a member
  that lists the API; and no exit, hangup, join or API unregistration looks at `recv_acklist`.
* `untimed_orphaned` — a run after which such a call has no provider.
-/

namespace EasyIpc

open FirstMatch Concurrent Transition

variable {d d' : Daemon} {act : DaemonAct} {out : List Send} {l : List MlistMember}
  {a b : IpcApi}

/-- The member has the name the call asks for and lists the API. -/
def Provides (a : IpcApi) (m : MlistMember) : Prop :=
  m.pname = a.pname ∧ listsName a.apiName m.apiList = true

instance (a : IpcApi) (m : MlistMember) : Decidable (Provides a m) :=
  inferInstanceAs (Decidable (_ ∧ _))

/-- The registry has a provider of the call. -/
def Provided (l : List MlistMember) (a : IpcApi) : Prop := ∃ m ∈ l, Provides a m

instance (l : List MlistMember) (a : IpcApi) : Decidable (Provided l a) :=
  inferInstanceAs (Decidable (∃ m ∈ l, _))

/-- The count is `API_TIMEOUT_MAX`, or counts down to it. -/
def NeverExpires (a : IpcApi) : Prop :=
  apiTimeoutMax ≤ a.daemonCountNumber ∧ (a.daemonCountNumber - apiTimeoutMax) % 100 = 0

instance (a : IpcApi) : Decidable (NeverExpires a) := inferInstanceAs (Decidable (_ ∧ _))

/-- The steps that can take a provider or its API away. -/
def removing : DaemonAct → Bool
  | .recv _ _ ⟨_, .exit _⟩ => true
  | .recv _ _ ⟨_, .hangup _⟩ => true
  | .recv _ _ ⟨_, .join _⟩ => true
  | .recv _ _ ⟨_, .apiUnregister _⟩ => true
  | _ => false

/-- The request is an exit or a hangup of the process of `m`, a join that displaces a suspended
member of that process id, or the unregistration of the API by that process. -/
def takesAway (l : List MlistMember) (a : IpcApi) (m : MlistMember) : DaemonAct → Bool
  | .recv _ _ ⟨_, .exit info⟩ => info.joinExitProcessPid == m.pid
  | .recv _ _ ⟨_, .hangup info⟩ => info.joinExitProcessPid == m.pid
  | .recv stale _ ⟨_, .join info⟩ => displaces stale info l m
  | .recv _ _ ⟨_, .apiUnregister info⟩ =>
      info.registerProcessPid == m.pid && info.registerMsgName == a.apiName
  | _ => false

/-- No request of the run is one that takes a provider or its API away from a pending call that
never runs out. -/
def ProvidersStay (d : Daemon) (act : DaemonAct) (_ : Daemon) : Prop :=
  ∀ a ∈ d.recvAcklist, NeverExpires a → ∀ m ∈ d.mlist, Provides a m →
    takesAway d.mlist a m act = false

instance (d : Daemon) (act : DaemonAct) (d' : Daemon) : Decidable (ProvidersStay d act d') :=
  inferInstanceAs (Decidable (∀ a ∈ d.recvAcklist, _ → ∀ m ∈ d.mlist, _ → _))

/-! ## Providers -/

/-- Providers are a matter of the profiles. -/
theorem provided_iff : Provided l a ↔
    ∃ k ∈ l.map MlistMember.profile, k.ident.pname = a.pname ∧ a.apiName ∈ k.apis := by
  constructor
  · rintro ⟨m, hm, hn, hl⟩
    exact ⟨m.profile, List.mem_map_of_mem hm, hn, listsName_iff.1 hl⟩
  · rintro ⟨k, hk, hn, hl⟩
    obtain ⟨m, hm, rfl⟩ := List.mem_map.1 hk
    exact ⟨m, hm, hn, listsName_iff.2 hl⟩

/-- An update that makes providers of the providers it meets keeps every call provided. -/
theorem Provided.modifyFirst {p : MlistMember → Bool} {f : MlistMember → MlistMember}
    (hf : ∀ m ∈ l, p m → Provides a m → Provides a (f m)) (h : Provided l a) :
    Provided (modifyFirst p f l) a := by
  obtain ⟨m, hm, hprov⟩ := h
  rcases mem_modifyFirst_of_mem (p := p) (f := f) hm with hmem | ⟨hp, hmem⟩
  · exact ⟨m, hmem, hprov⟩
  · exact ⟨f m, hmem, hf m hm hp hprov⟩

/-- A registration takes no name away. -/
theorem listsName_registerName {name name' : CStr} {l : List MMember} (h : listsName name l) :
    listsName name (registerName name' l) = true := by
  rw [listsName_iff] at h ⊢
  unfold registerName
  split
  · exact h
  · rw [List.map_append]
    exact List.mem_append_left _ h

/-- The unregistration of another name keeps a name. -/
theorem listsName_unregisterName {name name' : CStr} {l : List MMember} (hne : name' ≠ name)
    (h : listsName name l = true) : listsName name (unregisterName name' l) = true := by
  rw [listsName_iff] at h ⊢
  rw [map_unregisterName]
  exact (List.mem_erase_of_ne hne.symm).2 h

/-- **A step keeps a call provided unless its request takes a provider away.** -/
theorem Provided.step (hstep : d.step act = some (d', out))
    (hstay : ∀ m ∈ d.mlist, Provides a m → takesAway d.mlist a m act = false)
    (h : Provided d.mlist a) : Provided d'.mlist a := by
  cases Daemon.step_mlist hstep with
  | kept hprofile =>
    rw [provided_iff, hprofile, ← provided_iff]
    exact h
  | registerApi stale addr sendPid info ha hl =>
    rw [hl]
    exact h.modifyFirst fun m _ _ hm => ⟨hm.1, listsName_registerName hm.2⟩
  | registerMsg stale addr sendPid info ha hl =>
    rw [hl]
    exact h.modifyFirst fun m _ _ hm => hm
  | unregisterMsg stale addr sendPid info ha hl =>
    rw [hl]
    exact h.modifyFirst fun m _ _ hm => hm
  | unregisterApi stale addr sendPid info ha hl =>
    subst ha
    rw [hl]
    refine h.modifyFirst fun m hm hp hprov => ⟨hprov.1, listsName_unregisterName ?_ hprov.2⟩
    -- the process is the provider's, so the name is another one
    intro hname
    have hpid : m.pid = info.registerProcessPid := by simpa using (Bool.and_eq_true_iff.1 hp).1
    have hno := hstay m hm hprov
    simp [takesAway, hpid, hname] at hno
  | removed stale addr sendPid info ha hl =>
    obtain ⟨m, hm, hprov⟩ := h
    have hno := hstay m hm hprov
    have hpid : info.joinExitProcessPid ≠ m.pid := by
      rcases ha with rfl | rfl <;> simpa [takesAway] using hno
    exact ⟨m, hl ▸ mem_ipcdMlistRemoveViaPid hm hpid, hprov⟩
  | joined stale addr sendPid info ha hl =>
    subst ha
    obtain ⟨m, hm, hprov⟩ := h
    exact ⟨m, hl ▸ mem_ipcdJoin addr (hstay m hm hprov) hm, hprov⟩

/-! ## The pending calls -/

/-- The two calls ask for the same API of the same program. -/
def SameTarget (a b : IpcApi) : Prop := a.pname = b.pname ∧ a.apiName = b.apiName

theorem Provided.target (h : Provided l b) (hs : SameTarget a b) : Provided l a := by
  obtain ⟨m, hm, hn, hl⟩ := h
  exact ⟨m, hm, hn.trans hs.1.symm, by rw [hs.2]; exact hl⟩

/-- Counting down does not make a call that runs out into one that does not. -/
theorem neverExpires_countDown
    (h : NeverExpires { a with daemonCountNumber := countDown a }) : NeverExpires a := by
  obtain ⟨hle, hmod⟩ := h
  simp only [countDown] at hle hmod
  by_cases hc : a.daemonCountNumber = apiTimeoutMax
  · exact ⟨by omega, by rw [hc]; simp⟩
  · rw [if_pos hc] at hle hmod
    refine ⟨by omega, ?_⟩
    omega

/-- Where a pending call comes from: it was pending before, or it has just been relayed to a
member that lists the API. -/
theorem pending_origin (hstep : d.step act = some (d', out)) (ha : a ∈ d'.recvAcklist) :
    (∃ b ∈ d.recvAcklist, SameTarget a b ∧ (NeverExpires a → NeverExpires b)) ∨
      ((∀ m, takesAway d.mlist a m act = false) ∧ Provided d.mlist a) := by
  cases Daemon.step_rpc hstep with
  | quiet hnew hrecord hitems hack hmagic hout =>
    rw [hack] at ha
    exact Or.inl ⟨a, ha, ⟨rfl, rfl⟩, id⟩
  | accept stale addr sendPid api hact hreg he =>
    cases he
    exact Or.inl ⟨a, ha, ⟨rfl, rfl⟩, id⟩
  | probe p hact hp he =>
    subst hact
    rcases ipcdApiProbe_cases p { d with recvAlist := d.recvAlist.release } with
      ⟨-, ret, -, hq⟩ | ⟨-, hq⟩
    · rw [hq] at he
      cases he
      exact Or.inl ⟨a, ha, ⟨rfl, rfl⟩, id⟩
    · rw [hq] at he
      cases he
      rcases List.mem_append.1 ha with ha | ha
      · exact Or.inl ⟨a, ha, ⟨rfl, rfl⟩, id⟩
      · obtain ⟨m, hm, rfl⟩ := List.mem_map.1 ha
        obtain ⟨hmem, hn, -, hl⟩ := mem_apiProbeScan hm
        exact Or.inr ⟨fun _ => rfl, m, hmem, hn, hl⟩
  | finish stale addr sendPid rt hact hflag he =>
    have hsub : ∀ b ∈ (ipcdApiFinish sendPid rt d).1.recvAcklist, b ∈ d.recvAcklist := by
      unfold ipcdApiFinish
      extract_lets mlist iaal
      split
      · split
        · exact fun b hb => List.mem_of_mem_eraseP hb
        · exact fun b hb => hb
      · exact fun b hb => hb
    rw [← he] at hsub
    exact Or.inl ⟨a, hsub a ha, ⟨rfl, rfl⟩, id⟩
  | sweep hact he =>
    have hd : d' = (ipcApiTimeoutCheck d).1 := congrArg Prod.fst he
    rw [hd] at ha
    simp only [ipcApiTimeoutCheck, timeoutLoop_eq, List.mem_map] at ha
    obtain ⟨b, hb, rfl⟩ := ha
    exact Or.inl ⟨b, (List.mem_filter.1 hb).1, ⟨rfl, rfl⟩, neverExpires_countDown⟩

/-- A step that takes members or APIs away leaves the pending calls as they are. -/
theorem removing_recvAcklist (hstep : d.step act = some (d', out)) (hkind : removing act = true) :
    d'.recvAcklist = d.recvAcklist ∧ answers out = [] := by
  cases Daemon.step_rpc hstep with
  | quiet hnew hrecord hitems hack hmagic hout => exact ⟨hack, answers_of_quiet hout⟩
  | accept stale addr sendPid api hact hreg he => subst hact; cases hkind
  | probe p hact hp he => subst hact; cases hkind
  | finish stale addr sendPid rt hact hflag he => subst hact; cases hkind
  | sweep hact he => subst hact; cases hkind

/-- **A pending call without a timeout has its provider** in every run without an exit or a hangup
of a provider, a join that displaces one, or the unregistration of the API by one; and no exit,
hangup, join or API unregistration removes or answers a pending call. -/
theorem untimed_has_provider (h : Reach daemonLts ProvidersStay d) :
    (∀ a ∈ d.recvAcklist, a.daemonCountNumber = apiTimeoutMax → Provided d.mlist a) ∧
    ∀ act d' out, d.step act = some (d', out) → removing act = true →
      d'.recvAcklist = d.recvAcklist ∧ answers out = [] := by
  have hinv : ∀ a ∈ d.recvAcklist, NeverExpires a → Provided d.mlist a := by
    refine h.invariant (I := fun d => ∀ a ∈ d.recvAcklist, NeverExpires a → Provided d.mlist a)
      (by simp [daemonLts]) ?_
    intro s act s' _ hI hstep hstay a ha hnever
    obtain ⟨⟨t, out⟩, hst, rfl⟩ := Option.map_eq_some_iff.1 hstep
    rcases pending_origin hst ha with ⟨b, hb, hsame, hcount⟩ | ⟨hno, hprov⟩
    · have hbnever := hcount hnever
      exact ((hI b hb hbnever).step hst (hstay b hb hbnever)).target hsame
    · exact hprov.step hst fun m _ _ => hno m
  refine ⟨fun a ha hmax => hinv a ha ⟨by omega, by rw [hmax]; simp⟩, ?_⟩
  intro act d' out hstep hkind
  exact removing_recvAcklist hstep hkind

/-- A call without a timeout of process 2 to the API `"f"` of the process `"a"`. -/
def untimedCall : IpcApi := ⟨[97], [102], 5, 0, apiTimeoutMax, 2, [7]⟩

/-- Process 1 offers the API, process 2 calls it, and the call is relayed. -/
def untimedRun : List DaemonAct :=
  [joinAs 1 [97], packetFrom 1 (.apiRegister ⟨1, [102]⟩), joinAs 2 [98],
    packetFrom 2 (.apiCall untimedCall), .apiPost, .apiWait, .apiPull, .apiProbe, .timeoutSweep]

/-- Then the provider offers a second API and takes it back, and a third process joins and exits. -/
def untimedRest : List DaemonAct :=
  [packetFrom 1 (.apiRegister ⟨1, [103]⟩), packetFrom 1 (.apiUnregister ⟨1, [103]⟩), joinAs 3 [99],
    packetFrom 3 (.exit ⟨3, [99], 30, 31, 0⟩)]

/-- The call is pending all the time, and its provider is there. -/
theorem untimed_has_provider_relayed : ∃ d, Reach daemonLts ProvidersStay d ∧
    d.recvAcklist = [untimedCall] ∧ Provided d.mlist untimedCall := by
  obtain ⟨d, hrun, hpend⟩ : ∃ d,
      daemonLts.runOk ProvidersStay daemonLts.init (untimedRun ++ untimedRest) = some d ∧
      d.recvAcklist = [untimedCall] := ⟨_, rfl, by decide⟩
  have hreach := Reach.runOk .init hrun
  exact ⟨d, hreach, hpend, (untimed_has_provider hreach).1 untimedCall (by simp [hpend]) rfl⟩

/-- After the exit of process 1 the call is still pending, and nobody can answer it. -/
theorem untimed_orphaned : ¬ ∀ d, Reach daemonLts Free d → ∀ a ∈ d.recvAcklist,
    a.daemonCountNumber = apiTimeoutMax → Provided d.mlist a := by
  intro hall
  obtain ⟨d, hrun, hpend, hno⟩ : ∃ d,
      daemonLts.run daemonLts.init
        (untimedRun ++ [packetFrom 1 (.exit ⟨1, [97], 10, 11, 0⟩)]) = some d ∧
      d.recvAcklist = [untimedCall] ∧ ¬ Provided d.mlist untimedCall :=
    ⟨_, rfl, by decide, by decide⟩
  exact hno (hall d (Reach.of_run hrun) untimedCall (by simp [hpend]) rfl)

end EasyIpc

import EasyIpc.Effects
import EasyIpc.Lib.Ledger

/-!
# Where a call is

A call the daemon has accepted is in `recv_alist`, in the hands of the distribution thread, in
`recv_acklist`, or closed.

* `Daemon.step_calls` — what a step of the daemon does to the open calls, and which answers it
  sends: those of the calls it closes, or the one for a finish record of an API that its sender
  does not list.
* `apiProbeScan_unique` — with distinct names a call has at most one provider.
-/

namespace EasyIpc

open FirstMatch Concurrent Transition

variable {d d' : Daemon} {act : DaemonAct} {out : List Send}

/-- The calls in the daemon's hands: in the hands of the distribution thread, in `recv_alist`, and
in `recv_acklist`. -/
def openCalls (d : Daemon) : List IpcApi := d.recvAlist.items ++ d.recvAcklist

/-- What is fixed about a call: all but the count, which the timeout thread changes. -/
def ticket (a : IpcApi) : IpcApi := { a with daemonCountNumber := 0 }

/-- The ticket has the numbers and the caller of the call. -/
theorem ticket_eq {a b : IpcApi} (h : ticket a = ticket b) :
    a.daemonMagicNumber = b.daemonMagicNumber ∧ a.ackId = b.ackId ∧ a.sendPid = b.sendPid := by
  refine ⟨?_, ?_, ?_⟩
  · simpa [ticket] using congrArg IpcApi.daemonMagicNumber h
  · simpa [ticket] using congrArg IpcApi.ackId h
  · simpa [ticket] using congrArg IpcApi.sendPid h

/-- The call that the step accepts, under its number. -/
def callsIn (d : Daemon) : DaemonAct → List IpcApi
  | .recv _ _ ⟨sendPid, .apiCall api⟩ =>
      if d.mlist.any (hasPid sendPid) then
        [{ api with daemonMagicNumber := d.apiPublicMagicNumber }]
      else []
  | _ => []

/-- A step that receives no call of a registered process accepts none. -/
theorem callsIn_of_quiet
    (hnew : ∀ stale addr sendPid api, act = .recv stale addr ⟨sendPid, .apiCall api⟩ →
      ipcdGetMlistViaPid d.mlist sendPid = none) : callsIn d act = [] := by
  unfold callsIn
  split
  · rename_i stale addr sendPid api
    rw [← isSome_ipcdGetMlistViaPid, hnew stale addr sendPid api rfl]
    rfl
  · rfl

/-- The call of a registered process is accepted under the next number. -/
theorem callsIn_of_registered {sendPid : ℤ} (stale : MlistMember → MlistMember) (addr : ℕ)
    (api : IpcApi) (hreg : (ipcdGetMlistViaPid d.mlist sendPid).isSome) :
    callsIn d (.recv stale addr ⟨sendPid, .apiCall api⟩) =
      [{ api with daemonMagicNumber := d.apiPublicMagicNumber }] := by
  rw [isSome_ipcdGetMlistViaPid] at hreg
  exact if_pos hreg

/-- A step accepts at most one call, under the next number. -/
theorem callsIn_magic (d : Daemon) (act : DaemonAct) :
    callsIn d act = [] ∨ ∃ api, callsIn d act = [api] ∧
      api.daemonMagicNumber = d.apiPublicMagicNumber := by
  unfold callsIn
  split
  · split
    · exact Or.inr ⟨_, rfl, rfl⟩
    · exact Or.inl rfl
  · exact Or.inl rfl

/-- The process and the call of an acknowledgement. -/
def Send.answer? (s : Send) : Option (ℤ × Magic) :=
  match s.payload with
  | .apiAckRelay _ call => some (s.sendPid, call)
  | _ => none

/-- The acknowledgements among some datagrams: to which process, and for which call. -/
def answers (out : List Send) : List (ℤ × Magic) := out.filterMap Send.answer?

/-- The provider and the call of a relay. -/
def Send.relay? (s : Send) : Option (ℤ × IpcApi) :=
  match s.payload with
  | .apiRelay api => some (s.sendPid, api)
  | _ => none

/-- The calls among some datagrams: to which provider, and which call. -/
def relays (out : List Send) : List (ℤ × IpcApi) := out.filterMap Send.relay?

theorem answers_of_quiet (h : ∀ s ∈ out, s.payload.isRpc = false) : answers out = [] := by
  refine List.filterMap_eq_nil_iff.2 fun s hs => ?_
  have hq := h s hs
  unfold Send.answer?
  split
  · rename_i heq
    rw [heq] at hq
    cases hq
  · rfl

theorem relays_of_quiet (h : ∀ s ∈ out, s.payload.isRpc = false) : relays out = [] := by
  refine List.filterMap_eq_nil_iff.2 fun s hs => ?_
  have hq := h s hs
  unfold Send.relay?
  split
  · rename_i heq
    rw [heq] at hq
    cases hq
  · rfl

/-- An acknowledgement goes to the process it is meant for, if it is registered, and is the only
datagram. -/
theorem answers_ackTo (l : List MlistMember) (pid : ℤ) (ack : IpcApiAckList) (call : Magic) :
    answers (ackTo l pid ack call) = if l.any (hasPid pid) then [(pid, call)] else [] := by
  rw [← isSome_ipcdGetMlistViaPid]
  unfold ackTo
  split
  · rename_i hnone
    rw [hnone]
    rfl
  · rename_i m hm
    have hpid := (ipcdGetMlistViaPid_eq_some hm).2
    rw [hm]
    simp [answers, ipcdApiAckRelay, Send.answer?, hpid]

theorem relays_ackTo (l : List MlistMember) (pid : ℤ) (ack : IpcApiAckList) (call : Magic) :
    relays (ackTo l pid ack call) = [] := by
  refine List.filterMap_eq_nil_iff.2 fun s hs => ?_
  obtain ⟨m, -, -, rfl⟩ := mem_ackTo hs
  rfl

/-! ## Distribution -/

section Probe

variable {p : IpcApi} {l : List MlistMember}

theorem apiProbeScan_sublist (p : IpcApi) (l : List MlistMember) :
    (apiProbeScan p l).2.Sublist l := by
  induction l using apiProbeScan.induct p with
  | case1 => exact List.Sublist.refl _
  | case2 m rest hne ih =>
    rw [apiProbeScan_of_ne hne]
    exact ih.cons m
  | case3 m hne hs =>
    rw [apiProbeScan_of_suspended (not_not.1 hne) hs]
    exact List.nil_sublist _
  | case4 m hne hs b rest ih =>
    rw [apiProbeScan_of_suspended (not_not.1 hne) hs]
    exact (ih.cons b).cons m
  | case5 m rest hne hs ih =>
    rw [apiProbeScan_of_live (not_not.1 hne) (by simpa using hs)]
    show (if listsName p.apiName m.apiList then m :: (apiProbeScan p rest).2
      else (apiProbeScan p rest).2).Sublist (m :: rest)
    split
    · exact ih.cons_cons m
    · exact ih.cons m

/-- **With distinct names a call has at most one provider.** -/
theorem apiProbeScan_unique (hnames : (l.map MlistMember.pname).Nodup) :
    (apiProbeScan p l).2 = [] ∨ ∃ m, (apiProbeScan p l).2 = [m] := by
  have hmem : ∀ m ∈ (apiProbeScan p l).2, m.pname = p.pname := fun m hm => (mem_apiProbeScan hm).2.1
  have hnd := hnames.sublist ((apiProbeScan_sublist p l).map MlistMember.pname)
  rcases he : (apiProbeScan p l).2 with _ | ⟨m, _ | ⟨m', rest⟩⟩
  · exact Or.inl rfl
  · exact Or.inr ⟨m, rfl⟩
  · rw [he] at hmem hnd
    have hsame : m.pname = m'.pname := (hmem m (by simp)).trans (hmem m' (by simp)).symm
    simp [hsame] at hnd

end Probe

/-! ## The timeout thread -/

/-- The pending call has run out. -/
def expires (a : IpcApi) : Bool := decide (countDown a ≤ 0)

/-- One round of the timeout thread: it answers the calls that have run out, and keeps the others
counted down. -/
theorem timeoutLoop_eq (l : List MlistMember) (pend : List IpcApi) :
    timeoutLoop l pend =
      ((pend.filter fun a => !expires a).map fun a => { a with daemonCountNumber := countDown a },
        (pend.filter expires).flatMap fun a =>
          ackTo l a.sendPid ⟨a.ackId, .ackTimeout, []⟩ a.daemonMagicNumber) := by
  induction pend with
  | nil => rfl
  | cons a pend ih =>
    by_cases h : countDown a ≤ 0 <;> simp [timeoutLoop, ih, h, expires]

/-! ## What a step does to the open calls -/

theorem answers_append (out out' : List Send) : answers (out ++ out') = answers out ++ answers out' :=
  List.filterMap_append

theorem answers_flatMap {gone : List IpcApi} (f : IpcApi → List Send) :
    answers (gone.flatMap f) = gone.flatMap fun a => answers (f a) := by
  induction gone with
  | nil => rfl
  | cons a gone ih => rw [List.flatMap_cons, answers_append, ih, List.flatMap_cons]

/-- What the answers of a step are: one for each call that it closes, to the caller; or one for a
finish record, to its sender, while no call is closed. -/
inductive Answering (d : Daemon) (act : DaemonAct) (gone : List IpcApi) (ans : List (ℤ × Magic)) :
    Prop
  | closing (h : ans = gone.flatMap fun a =>
      if d.mlist.any (hasPid a.sendPid) then [(a.sendPid, a.daemonMagicNumber)] else [])
  | unlisted (stale : MlistMember → MlistMember) (addr : ℕ) (sendPid : ℤ) (rt : IpcRuntime)
      (ha : act = .recv stale addr ⟨sendPid, .apiRuntime rt⟩) (hflag : rt.flag = true)
      (hgone : gone = []) (h : ∀ x ∈ ans, x = (sendPid, rt.daemonMagicNumber))

/-- What a step does to the open calls: `gone` are the calls it closes. -/
structure CallFlow (d : Daemon) (act : DaemonAct) (d' : Daemon) (out : List Send)
    (gone : List IpcApi) : Prop where
  flow : ((openCalls d ++ callsIn d act).map ticket).Perm ((openCalls d' ++ gone).map ticket)
  old : ∀ a ∈ gone, a ∈ openCalls d
  answering : Answering d act gone (answers out)
  relayed : ∀ x ∈ relays out, x.2 ∈ openCalls d
  numbered : d'.apiPublicMagicNumber =
    d.apiPublicMagicNumber + BitVec.ofNat 32 (callsIn d act).length

theorem any_hasPid_recordApi (l : List MlistMember) (pid : ℤ) (rt : IpcRuntime) (q : ℤ) :
    (recordApi pid rt l).any (hasPid q) = l.any (hasPid q) := by
  have hpid : ∀ l : List MlistMember, l.any (hasPid q) =
      (l.map fun m => m.profile.ident.pid).any fun k => k == q := fun l => by
    rw [List.any_map]
    rfl
  rw [hpid, hpid, map_eq_of_profile (fun k => k.ident.pid) (profile_recordApi pid rt l)]

/-- Handling a finish record. -/
theorem callFlow_finish (d : Daemon) (sendPid : ℤ) {rt : IpcRuntime}
    (stale : MlistMember → MlistMember) (addr : ℕ) (hflag : rt.flag = true) : ∃ gone,
    CallFlow d (.recv stale addr ⟨sendPid, .apiRuntime rt⟩) (ipcdApiFinish sendPid rt d).1
      (ipcdApiFinish sendPid rt d).2 gone := by
  unfold ipcdApiFinish
  extract_lets mlist iaal
  split
  · split
    · rename_i a ha
      have hmagic : a.daemonMagicNumber = rt.daemonMagicNumber := by
        simpa using List.find?_some ha
      refine ⟨[a], ?_, ?_, .closing ?_, ?_, ?_⟩
      · refine List.Perm.map ticket ?_
        simp only [openCalls, callsIn, List.append_nil, List.append_assoc]
        refine List.Perm.append_left _ ((Ledger.find?_perm_eraseP ha).trans ?_)
        exact (List.perm_append_singleton a _).symm
      · intro b hb
        rw [List.mem_singleton.1 hb]
        exact List.mem_append_right _ (List.mem_of_find?_eq_some ha)
      · rw [answers_ackTo, any_hasPid_recordApi]
        simp [hmagic]
      · simp [relays_ackTo]
      · simp [callsIn]
    · refine ⟨[], ?_, by simp, .closing rfl, by simp [relays], by simp [callsIn]⟩
      simp only [openCalls, callsIn, List.append_nil]
      exact List.Perm.refl _
  · refine ⟨[], ?_, by simp, .unlisted stale addr sendPid rt rfl hflag rfl ?_,
      by simp [relays_ackTo], by simp [callsIn]⟩
    · simp only [openCalls, callsIn, List.append_nil]
      exact List.Perm.refl _
    · intro x hx
      rw [answers_ackTo] at hx
      split at hx
      · exact List.mem_singleton.1 hx
      · cases hx

/-- Distributing the call that was pulled. -/
theorem callFlow_probe {p : IpcApi} (hp : d.recvAlist.consumer = .holding p)
    (hnames : (d.mlist.map MlistMember.pname).Nodup) : ∃ gone,
    CallFlow d .apiProbe (ipcdApiProbe p { d with recvAlist := d.recvAlist.release }).1
      (ipcdApiProbe p { d with recvAlist := d.recvAlist.release }).2 gone := by
  have hitems : openCalls d = p :: (d.recvAlist.release.items ++ d.recvAcklist) := by
    rw [openCalls, SemQueue.items_release hp, List.cons_append]
  have hopen : p ∈ openCalls d := by simp [hitems]
  rcases ipcdApiProbe_cases p { d with recvAlist := d.recvAlist.release } with
    ⟨-, ret, -, he⟩ | ⟨hne, he⟩
  · rw [he]
    refine ⟨[p], List.Perm.map ticket ?_, by simpa using hopen, .closing ?_, by simp [relays_ackTo],
      by simp [callsIn]⟩
    · simp only [hitems, callsIn, List.append_nil]
      exact (List.perm_append_singleton p _).symm
    · simp [answers_ackTo]
  · obtain ⟨m, hm⟩ := (apiProbeScan_unique (p := p) hnames).resolve_left hne
    have hm' : (apiProbeScan p { d with recvAlist := d.recvAlist.release }.mlist).2 = [m] := hm
    rw [he, hm']
    refine ⟨[], List.Perm.map ticket ?_, by simp, .closing rfl, ?_, by simp [callsIn]⟩
    · have hin : callsIn d .apiProbe = [] := rfl
      rw [hitems, hin, List.append_nil, List.append_nil]
      simp only [openCalls, List.map_cons, List.map_nil, ← List.append_assoc]
      exact (List.perm_append_singleton p _).symm
    · simpa [relays, Send.relay?, ipcdRelayApi] using hopen

/-- Counting the pending calls down. -/
theorem callFlow_sweep : ∃ gone,
    CallFlow d .timeoutSweep (ipcApiTimeoutCheck d).1 (ipcApiTimeoutCheck d).2 gone := by
  refine ⟨d.recvAcklist.filter expires, ?_, fun a ha => ?_, .closing ?_, ?_,
    by simp [callsIn, ipcApiTimeoutCheck]⟩
  · simp only [openCalls, callsIn, List.append_nil, ipcApiTimeoutCheck, timeoutLoop_eq,
      List.map_append, List.append_assoc]
    refine List.Perm.append_left _ ?_
    rw [List.map_map]
    refine ((List.filter_append_perm (fun a => !expires a) d.recvAcklist).map ticket).symm.trans ?_
    simp only [List.map_append, Bool.not_not]
    exact List.Perm.refl _
  · exact List.mem_append_right _ (List.mem_filter.1 ha).1
  · simp only [ipcApiTimeoutCheck, timeoutLoop_eq, answers_flatMap, answers_ackTo]
  · intro x hx
    obtain ⟨s, hs, hx⟩ := List.mem_filterMap.1 hx
    obtain ⟨a, -, -, hs⟩ := mem_timeoutLoop hs
    obtain ⟨m, -, -, rfl⟩ := mem_ackTo hs
    cases hx

/-- **What a step of the daemon does to the open calls.** -/
theorem Daemon.step_calls (h : d.step act = some (d', out))
    (hnames : (d.mlist.map MlistMember.pname).Nodup) : ∃ gone, CallFlow d act d' out gone := by
  cases Daemon.step_rpc h with
  | quiet hnew hrecord hitems hack hmagic hout =>
    have hin := callsIn_of_quiet hnew
    refine ⟨[], ?_, by simp, .closing ?_, ?_, by simp [hin, hmagic]⟩
    · simp only [openCalls, hin, hitems, hack, List.append_nil]
      exact List.Perm.refl _
    · simpa using answers_of_quiet hout
    · rw [relays_of_quiet hout]
      simp
  | accept stale addr sendPid api ha hreg he =>
    subst ha
    cases he
    have hin := callsIn_of_registered stale addr api hreg
    refine ⟨[], ?_, by simp, .closing rfl, by simp [relays], by simp [hin]⟩
    simp only [hin, openCalls, SemQueue.items_attach, List.append_nil, List.append_assoc]
    exact (List.perm_append_comm.append_left _).map ticket
  | probe p ha hp he =>
    subst ha
    have hflow := callFlow_probe hp hnames
    rw [← he] at hflow
    exact hflow
  | finish stale addr sendPid rt ha hflag he =>
    subst ha
    have hflow := callFlow_finish d sendPid stale addr hflag
    rw [← he] at hflow
    exact hflow
  | sweep ha he =>
    subst ha
    have hflow := callFlow_sweep (d := d)
    rw [← he] at hflow
    exact hflow

end EasyIpc

import EasyIpc.Calls

/-!
# At most one answer for a call

The daemon with providers that send at most one finish record for each call relayed to them, with
the numbers of the call; everything else may arrive in any order.

* `CallRun` — the daemon with the histories of a run: the calls accepted and closed, the relays,
  the answers.
* `one_answer` — a call is in one place at a time, the pending calls have distinct numbers, and
  the caller of a call is answered at most once, when the call is closed.
-/

namespace EasyIpc

open Concurrent Transition Ledger

/-- The daemon and the histories of a run. -/
structure CallRun where
  daemon : Daemon := {}
  /-- The calls accepted so far. -/
  accepted : List IpcApi := []
  /-- The numbers of the calls that have left the daemon's hands. -/
  closed : List Magic := []
  /-- The relays so far: to which provider, and which call. -/
  relayed : List (ℤ × IpcApi) := []
  /-- The relays whose finish record may still come. -/
  outstanding : List (ℤ × IpcApi) := []
  /-- The acknowledgements so far: to which process, and for which call. -/
  answered : List (ℤ × Magic) := []

/-- The finish record of a provider has the numbers of a call relayed to it. -/
def echoes (sendPid : ℤ) (rt : IpcRuntime) (x : ℤ × IpcApi) : Bool :=
  x.1 == sendPid && x.2.ackId == rt.callerMagicNumber &&
    x.2.daemonMagicNumber == rt.daemonMagicNumber

/-- A finish record uses up a relay; where there is none the provider is not honest. -/
def spendRelay (outstanding : List (ℤ × IpcApi)) : DaemonAct → Option (List (ℤ × IpcApi))
  | .recv _ _ ⟨sendPid, .apiRuntime rt⟩ =>
      if rt.flag then
        if outstanding.any (echoes sendPid rt) then some (outstanding.eraseP (echoes sendPid rt))
        else none
      else some outstanding
  | _ => some outstanding

/-- The numbers of the calls in the daemon's hands. -/
def openMagics (d : Daemon) : List Magic := (openCalls d).map IpcApi.daemonMagicNumber

/-- A step of the daemon in a run with honest providers. -/
def CallRun.step (s : CallRun) (act : DaemonAct) : Option CallRun :=
  match spendRelay s.outstanding act, s.daemon.step act with
  | some outstanding, some (d, out) =>
      some {
        daemon := d
        accepted := s.accepted ++ callsIn s.daemon act
        closed := s.closed ++ left (openMagics s.daemon) (openMagics d)
        relayed := s.relayed ++ relays out
        outstanding := outstanding ++ relays out
        answered := s.answered ++ answers out }
  | _, _ => none

/-- The runs of the daemon with honest providers. -/
def callLts : Lts CallRun DaemonAct where
  init := {}
  step := CallRun.step

theorem CallRun.step_eq_some {s s' : CallRun} {act : DaemonAct} (h : s.step act = some s') :
    ∃ outstanding d out, spendRelay s.outstanding act = some outstanding ∧
      s.daemon.step act = some (d, out) ∧
      s' = {
        daemon := d
        accepted := s.accepted ++ callsIn s.daemon act
        closed := s.closed ++ left (openMagics s.daemon) (openMagics d)
        relayed := s.relayed ++ relays out
        outstanding := outstanding ++ relays out
        answered := s.answered ++ answers out } := by
  unfold CallRun.step at h
  split at h
  · rename_i outstanding d out hspend hst
    cases h
    exact ⟨outstanding, d, out, hspend, hst, rfl⟩
  · cases h

/-- What a provider may still send it could send before. -/
theorem spendRelay_subset {l l' : List (ℤ × IpcApi)} {act : DaemonAct}
    (h : spendRelay l act = some l') : ∀ x ∈ l', x ∈ l := by
  unfold spendRelay at h
  split at h
  · split at h
    · split at h
      · cases h
        exact fun x hx => List.mem_of_mem_eraseP hx
      · cases h
    · cases h
      exact fun x hx => hx
  · cases h
    exact fun x hx => hx

/-- A finish record has the numbers of a relay. -/
theorem spendRelay_record {l l' : List (ℤ × IpcApi)} {stale : MlistMember → MlistMember} {addr : ℕ}
    {sendPid : ℤ} {rt : IpcRuntime} (hflag : rt.flag = true)
    (h : spendRelay l (.recv stale addr ⟨sendPid, .apiRuntime rt⟩) = some l') :
    ∃ x ∈ l, x.1 = sendPid ∧ x.2.ackId = rt.callerMagicNumber ∧
      x.2.daemonMagicNumber = rt.daemonMagicNumber := by
  simp only [spendRelay, hflag, if_true] at h
  split at h
  · rename_i hany
    obtain ⟨x, hx, hecho⟩ := List.any_eq_true.1 hany
    simp only [echoes, Bool.and_eq_true, beq_iff_eq] at hecho
    exact ⟨x, hx, hecho.1.1, hecho.1.2, hecho.2⟩
  · cases h

/-! ## The invariant -/

/-- The names and the process ids of the members are distinct, and the numbers of the calls have
not wrapped. -/
def DistinctAndFew (s : CallRun) : Prop :=
  (s.daemon.mlist.map MlistMember.pid).Nodup ∧ (s.daemon.mlist.map MlistMember.pname).Nodup ∧
    s.accepted.length < 2 ^ 32

instance : DecidablePred DistinctAndFew := fun _ => inferInstanceAs (Decidable (_ ∧ _))

/-- No relay of the call went to its caller. -/
def NotOwnProvider (s : CallRun) (call : IpcApi) : Prop :=
  ∀ x ∈ s.relayed, x.2.daemonMagicNumber = call.daemonMagicNumber → x.1 ≠ call.sendPid

/-- What holds of the histories in every state of a run. -/
structure CallInv (s : CallRun) : Prop where
  numbers : s.accepted.map IpcApi.daemonMagicNumber =
    (List.range s.accepted.length).map (BitVec.ofNat 32)
  next : s.daemon.apiPublicMagicNumber = BitVec.ofNat 32 s.accepted.length
  places : (openMagics s.daemon ++ s.closed).Perm (s.accepted.map IpcApi.daemonMagicNumber)
  tickets : ∀ a ∈ openCalls s.daemon, ticket a ∈ s.accepted.map ticket
  relayed : ∀ x ∈ s.relayed, x.2.daemonMagicNumber ∈ s.accepted.map IpcApi.daemonMagicNumber
  outstanding : ∀ x ∈ s.outstanding, x ∈ s.relayed
  answered : ∀ x ∈ s.answered, x.2 ∈ s.accepted.map IpcApi.daemonMagicNumber
  once : ∀ call ∈ s.accepted, NotOwnProvider s call →
    s.answered.count (call.sendPid, call.daemonMagicNumber) ≤ s.closed.count call.daemonMagicNumber

theorem callInv_init : CallInv callLts.init := by
  constructor <;> simp [callLts, openMagics, openCalls, SemQueue.items, Consumer.held]

section Step

variable {s s' : CallRun} {act : DaemonAct} {d : Daemon} {out : List Send} {gone : List IpcApi}
  {rest : List (ℤ × IpcApi)}

/-- The flow of the numbers. -/
theorem CallFlow.magics {d₀ : Daemon} (h : CallFlow d₀ act d out gone) :
    (openMagics d₀ ++ (callsIn d₀ act).map IpcApi.daemonMagicNumber).Perm
      (openMagics d ++ gone.map IpcApi.daemonMagicNumber) := by
  have hmagic : ∀ l : List IpcApi,
      (l.map ticket).map IpcApi.daemonMagicNumber = l.map IpcApi.daemonMagicNumber := by
    intro l
    rw [List.map_map]
    rfl
  have hflow := h.flow.map IpcApi.daemonMagicNumber
  rwa [hmagic, hmagic, List.map_append, List.map_append] at hflow

theorem CallInv.numbers_step (h : CallInv s) (act : DaemonAct) :
    (s.accepted ++ callsIn s.daemon act).map IpcApi.daemonMagicNumber =
      (List.range (s.accepted ++ callsIn s.daemon act).length).map (BitVec.ofNat 32) := by
  rcases callsIn_magic s.daemon act with hin | ⟨api, hin, hm⟩
  · simpa [hin] using h.numbers
  · rw [hin, List.length_append, List.length_singleton, List.range_succ, List.map_append,
      List.map_append, h.numbers]
    simp [hm, h.next]

/-- The numbers of the calls accepted so far are distinct. -/
theorem CallInv.nodup (h : CallInv s) (hfew : s.accepted.length ≤ 2 ^ 32) :
    (s.accepted.map IpcApi.daemonMagicNumber).Nodup := by
  rw [h.numbers]
  exact nodup_range_ofNat hfew

/-- An answer other than to the sender of a finish record is one of those that close a call. -/
theorem answers_count_le {d₀ : Daemon} (hflow : CallFlow d₀ act d out gone) {pid : ℤ} {k : Magic}
    (hrecord : ∀ stale addr sendPid rt, act = .recv stale addr ⟨sendPid, .apiRuntime rt⟩ →
      rt.flag = true → (pid, k) ≠ (sendPid, rt.daemonMagicNumber)) :
    (answers out).count (pid, k) ≤ (gone.map IpcApi.daemonMagicNumber).count k := by
  cases hflow.answering with
  | closing hans =>
    rw [hans]
    have hone : ∀ a : IpcApi, (if d₀.mlist.any (hasPid a.sendPid) then
        [(a.sendPid, a.daemonMagicNumber)] else []).count (pid, k) ≤
        if a.daemonMagicNumber = k then 1 else 0 := by
      intro a
      by_cases hk : a.daemonMagicNumber = k
      · rw [if_pos hk]
        split
        · exact List.count_le_length
        · simp
      · rw [if_neg hk]
        split
        · simp [hk]
        · simp
    exact count_flatMap_le hone gone
  | unlisted stale addr sendPid rt ha hflag hgone hans =>
    have hnone : (pid, k) ∉ answers out := fun hmem =>
      hrecord stale addr sendPid rt ha hflag (hans _ hmem)
    rw [List.count_eq_zero.2 hnone]
    exact Nat.zero_le _

/-- A finish record does not come from the caller of a call that was not relayed to its own
caller. -/
theorem record_ne_caller (h : CallInv s) (hspend : spendRelay s.outstanding act = some rest)
    {call : IpcApi} (hown : NotOwnProvider s call) :
    ∀ stale addr sendPid rt, act = .recv stale addr ⟨sendPid, .apiRuntime rt⟩ →
      rt.flag = true → (call.sendPid, call.daemonMagicNumber) ≠ (sendPid, rt.daemonMagicNumber) := by
  rintro stale addr sendPid rt rfl hflag he
  obtain ⟨x, hx, hpid, -, hmagic⟩ := spendRelay_record hflag hspend
  obtain ⟨hcp, hcm⟩ := Prod.mk.inj he
  exact hown x (h.outstanding x hx) (hmagic.trans hcm.symm) (hpid.trans hcp.symm)

/-- The numbers of the open calls and of a call that comes in are distinct. -/
theorem CallInv.nodup_before (h : CallInv s)
    (hfew : (s.accepted ++ callsIn s.daemon act).length ≤ 2 ^ 32) :
    (openMagics s.daemon ++ (callsIn s.daemon act).map IpcApi.daemonMagicNumber).Nodup ∧
      (s.accepted.map IpcApi.daemonMagicNumber ++
        (callsIn s.daemon act).map IpcApi.daemonMagicNumber).Nodup := by
  have hnd : (s.accepted.map IpcApi.daemonMagicNumber ++
      (callsIn s.daemon act).map IpcApi.daemonMagicNumber).Nodup := by
    rw [← List.map_append, h.numbers_step act]
    exact nodup_range_ofNat hfew
  have hperm : ((openMagics s.daemon ++ (callsIn s.daemon act).map IpcApi.daemonMagicNumber) ++
      s.closed).Perm (s.accepted.map IpcApi.daemonMagicNumber ++
        (callsIn s.daemon act).map IpcApi.daemonMagicNumber) := by
    refine List.Perm.trans ?_ (h.places.append_right _)
    rw [List.append_assoc, List.append_assoc]
    exact List.perm_append_comm.append_left _
  exact ⟨(List.nodup_append.1 (hperm.nodup_iff.2 hnd)).1, hnd⟩

/-- The calls a step closes are among those that were open. -/
theorem CallFlow.old_magics {d₀ : Daemon} (h : CallFlow d₀ act d out gone) :
    ∀ k ∈ gone.map IpcApi.daemonMagicNumber, k ∈ openMagics d₀ := by
  intro k hk
  obtain ⟨a, ha, rfl⟩ := List.mem_map.1 hk
  exact List.mem_map_of_mem (h.old a ha)

/-- A step answers calls that have been accepted. -/
theorem CallInv.answered_step (h : CallInv s) (hspend : spendRelay s.outstanding act = some rest)
    (hflow : CallFlow s.daemon act d out gone) {x : ℤ × Magic} (hx : x ∈ answers out) :
    x.2 ∈ s.accepted.map IpcApi.daemonMagicNumber := by
  cases hflow.answering with
  | closing hans =>
    rw [hans] at hx
    obtain ⟨a, ha, hxa⟩ := List.mem_flatMap.1 hx
    split at hxa
    · rw [List.mem_singleton.1 hxa]
      exact h.places.subset
        (List.mem_append_left _ (hflow.old_magics _ (List.mem_map_of_mem ha)))
    · cases hxa
  | unlisted stale addr sendPid rt ha hflag hgone hans =>
    subst ha
    obtain ⟨y, hy, -, -, hmagic⟩ := spendRelay_record hflag hspend
    rw [hans x hx]
    exact hmagic ▸ h.relayed y (h.outstanding y hy)

/-- **One step keeps the invariant.** -/
theorem CallInv.step (h : CallInv s) (hstep : s.step act = some s')
    (hnames : (s.daemon.mlist.map MlistMember.pname).Nodup)
    (hfew : s'.accepted.length ≤ 2 ^ 32) : CallInv s' := by
  obtain ⟨rest, d, out, hspend, hst, rfl⟩ := CallRun.step_eq_some hstep
  obtain ⟨gone, hflow⟩ := Daemon.step_calls hst hnames
  obtain ⟨hbefore, hnd⟩ := h.nodup_before hfew
  have hold := hflow.old_magics
  have hopen : ∀ k ∈ openMagics s.daemon, k ∈ s.accepted.map IpcApi.daemonMagicNumber := fun k hk =>
    h.places.subset (List.mem_append_left _ hk)
  constructor
  case numbers => exact h.numbers_step act
  case next =>
    rw [hflow.numbered, h.next, List.length_append, ← BitVec.ofNat_add]
  case places =>
    rw [List.map_append]
    exact ledger_step h.places hflow.magics hnd hold
  case tickets =>
    intro a ha
    have hin : ticket a ∈ (openCalls s.daemon ++ callsIn s.daemon act).map ticket :=
      hflow.flow.symm.subset (List.mem_map_of_mem (List.mem_append_left _ ha))
    rw [List.map_append, List.mem_append] at hin
    rw [List.map_append, List.mem_append]
    rcases hin with hin | hin
    · obtain ⟨b, hb, hbt⟩ := List.mem_map.1 hin
      exact Or.inl (hbt ▸ h.tickets b hb)
    · exact Or.inr hin
  case relayed =>
    intro x hx
    rw [List.map_append]
    refine List.mem_append_left _ ?_
    rcases List.mem_append.1 hx with hx | hx
    · exact h.relayed x hx
    · exact hopen _ (List.mem_map_of_mem (hflow.relayed x hx))
  case outstanding =>
    intro x hx
    rcases List.mem_append.1 hx with hx | hx
    · exact List.mem_append_left _ (h.outstanding x (spendRelay_subset hspend x hx))
    · exact List.mem_append_right _ hx
  case answered =>
    intro x hx
    rw [List.map_append]
    refine List.mem_append_left _ ?_
    rcases List.mem_append.1 hx with hx | hx
    · exact h.answered x hx
    · exact h.answered_step hspend hflow hx
  case once =>
    intro call hcall hown
    have hown' : NotOwnProvider s call := fun x hx => hown x (List.mem_append_left _ hx)
    have hnew := answers_count_le hflow (record_ne_caller h hspend hown')
    have hleft := (left_perm hflow.magics hbefore hold).count_eq call.daemonMagicNumber
    rw [List.count_append, List.count_append, hleft]
    refine Nat.add_le_add ?_ hnew
    rcases List.mem_append.1 hcall with hcall | hcall
    · exact h.once call hcall hown'
    · -- the call is new, so nothing has been sent for it
      have hfresh : (call.sendPid, call.daemonMagicNumber) ∉ s.answered := fun hmem =>
        (List.nodup_append.1 hnd).2.2 _ (h.answered _ hmem) _ (List.mem_map_of_mem hcall) rfl
      rw [List.count_eq_zero.2 hfresh]
      exact Nat.zero_le _

/-- An answer to the caller closes the call. -/
theorem CallInv.answer_closes (h : CallInv s) (hstep : s.step act = some s')
    (hnames : (s.daemon.mlist.map MlistMember.pname).Nodup) (hfew : s'.accepted.length ≤ 2 ^ 32)
    {call : IpcApi} (hown : NotOwnProvider s' call)
    (hnew : (call.sendPid, call.daemonMagicNumber) ∈ s'.answered)
    (hold : (call.sendPid, call.daemonMagicNumber) ∉ s.answered) :
    call.daemonMagicNumber ∈ openMagics s.daemon ∧ call.daemonMagicNumber ∈ s'.closed := by
  obtain ⟨rest, d, out, hspend, hst, rfl⟩ := CallRun.step_eq_some hstep
  obtain ⟨gone, hflow⟩ := Daemon.step_calls hst hnames
  have hown' : NotOwnProvider s call := fun x hx => hown x (List.mem_append_left _ hx)
  have hans := (List.mem_append.1 hnew).resolve_left hold
  have hgone : call.daemonMagicNumber ∈ gone.map IpcApi.daemonMagicNumber := by
    refine List.count_pos_iff.1 (Nat.lt_of_lt_of_le (List.count_pos_iff.2 hans) ?_)
    exact answers_count_le hflow (record_ne_caller h hspend hown')
  have hleft := left_perm hflow.magics (h.nodup_before hfew).1 hflow.old_magics
  exact ⟨hflow.old_magics _ hgone, List.mem_append_right _ (hleft.symm.subset hgone)⟩

end Step

/-! ## The result -/

/-- The invariant holds in every state of a run. -/
theorem callInv_reach {s : CallRun} (h : Reach callLts (OnStates DistinctAndFew) s) :
    CallInv s ∧ DistinctAndFew s := by
  refine h.invariant (I := fun s => CallInv s ∧ DistinctAndFew s) ⟨callInv_init, by decide⟩ ?_
  intro s act s' _ hI hstep hok
  exact ⟨hI.1.step hstep hI.2.2.1 (Nat.le_of_lt hok.2.2), hok⟩

/-- **At most one answer for a call.**  Each accepted call is in exactly one of `recv_alist`, the
hands of the distribution thread, `recv_acklist` and the closed calls; the pending calls have
distinct numbers; and the caller of a call that was not relayed to itself is answered at most
once, in the step that closes the call. -/
theorem one_answer {s : CallRun} (h : Reach callLts (OnStates DistinctAndFew) s) :
    ((s.daemon.recvAlist.consumer.held ++ s.daemon.recvAlist.list ++ s.daemon.recvAcklist).map
        IpcApi.daemonMagicNumber ++ s.closed).Perm (s.accepted.map IpcApi.daemonMagicNumber) ∧
    (s.accepted.map IpcApi.daemonMagicNumber).Nodup ∧
    (s.daemon.recvAcklist.map IpcApi.daemonMagicNumber).Nodup ∧
    (∀ call ∈ s.accepted, NotOwnProvider s call →
      s.answered.count (call.sendPid, call.daemonMagicNumber) ≤ 1 ∧
      (call.daemonMagicNumber ∉ s.closed →
        (call.sendPid, call.daemonMagicNumber) ∉ s.answered)) ∧
    ∀ act s', s.step act = some s' → DistinctAndFew s' → ∀ call ∈ s'.accepted,
      NotOwnProvider s' call → (call.sendPid, call.daemonMagicNumber) ∈ s'.answered →
      (call.sendPid, call.daemonMagicNumber) ∉ s.answered →
      call.daemonMagicNumber ∉ s.closed ∧ call.daemonMagicNumber ∈ s'.closed := by
  obtain ⟨hinv, hpids, hnames, hfew⟩ := callInv_reach h
  have hnd := hinv.nodup (Nat.le_of_lt hfew)
  have hplaces := hinv.places.nodup_iff.2 hnd
  rw [List.nodup_append] at hplaces
  refine ⟨hinv.places, hnd, ?_, ?_, ?_⟩
  · refine hplaces.1.sublist ?_
    rw [openMagics, openCalls, List.map_append]
    exact List.sublist_append_right _ _
  · intro call hcall hown
    have honce := hinv.once call hcall hown
    refine ⟨Nat.le_trans honce (List.nodup_iff_count_le_one.1 hplaces.2.1 _), fun hclosed hans => ?_⟩
    rw [List.count_eq_zero.2 hclosed] at honce
    exact absurd (List.count_pos_iff.2 hans) (by omega)
  · intro act s' hstep hok call hcall hown hnew hold
    have hopen := hinv.answer_closes hstep hnames (Nat.le_of_lt hok.2.2) hown hnew hold
    exact ⟨fun hclosed => hplaces.2.2 _ hopen.1 _ hclosed rfl, hopen.2⟩

/-- The call of process 2 to the API `"f"` of the process `"a"`. -/
def sampleCall : IpcApi := ⟨[97], [102], 5, 0, 300, 2, [7]⟩

/-- The record of the end of that call. -/
def sampleRecord : IpcRuntime := ⟨1, [102], true, ⟨0, 1⟩, 5, 0, .ackOk, [8]⟩

/-- The call is relayed, runs out, and its record comes late. -/
def lateRecordRun : List DaemonAct :=
  [joinAs 1 [97], packetFrom 1 (.apiRegister ⟨1, [102]⟩), joinAs 2 [98],
    packetFrom 2 (.apiCall sampleCall), .apiPost, .apiWait, .apiPull, .apiProbe,
    .timeoutSweep, .timeoutSweep, .timeoutSweep,
    packetFrom 1 (.apiRuntime sampleRecord)]

/-- The caller is answered once in this run. -/
theorem one_answer_lateRecord : ∃ s, Reach callLts (OnStates DistinctAndFew) s ∧
    sampleCall ∈ s.accepted ∧ s.answered = [(2, 0)] ∧
    s.answered.count (2, 0) ≤ 1 := by
  obtain ⟨s, hrun, hcall, hans, hrel⟩ : ∃ s,
      callLts.runOk (OnStates DistinctAndFew) callLts.init lateRecordRun = some s ∧
      sampleCall ∈ s.accepted ∧ s.answered = [(2, 0)] ∧ s.relayed = [(1, sampleCall)] :=
    ⟨_, rfl, by decide, by decide, by decide⟩
  have hreach := Reach.runOk .init hrun
  have hown : NotOwnProvider s sampleCall := by
    intro x hx _
    rw [hrel, List.mem_singleton] at hx
    subst hx
    decide
  exact ⟨s, hreach, hcall, hans, ((one_answer hreach).2.2.2.1 sampleCall hcall hown).1⟩

end EasyIpc

import EasyIpc.Effects
import EasyIpc.Join
import EasyIpc.Membership

/-!
# Activity and suspension

A member is suspended when nothing has come from its process for too long.  Its flag and its count
are two fields of the table; the sweeps of the live thread and the packets of four kinds write
them.

* `Pulse` — the fields at stake; `Daemon.step_pulse` says what a step does to those of all members.
* `suspend_iff_liveCnt` — in every reachable state a member is suspended just when its count is
  sixteen or more.
* `LiveRun` — the daemon with a clock for each process, which counts the sweeps since the process
  was active.
* `liveCnt_eq_silent` — the count of a member is the clock of its process, in every run in which
  no join steps over a member with its own process id.  `live_suspended` is a run in which one
  does, and a process that speaks before every sweep is suspended.
-/

namespace EasyIpc

open FirstMatch Transition

variable {d d' : Daemon} {act : DaemonAct} {out : List Send}

/-! ## What a step does to the pulses -/

/-- What the live thread looks at in a member. -/
structure Pulse where
  pid : ℤ
  liveCnt : ℤ
  suspend : Bool
  deriving DecidableEq, Repr

/-- The pulse of a member. -/
def MlistMember.pulse (m : MlistMember) : Pulse := ⟨m.pid, m.liveCnt, m.suspend⟩

/-- The process whose packet the daemon takes as a sign of life, if the step handles one.  A join
is one if it is accepted. -/
def activeOf (d : Daemon) : DaemonAct → Option ℤ
  | .recv stale addr ⟨_, .join info⟩ =>
      if (ipcdJoin stale info addr d.mlist).1.isSome then some info.joinExitProcessPid else none
  | .recv _ _ ⟨_, .live info⟩ => some info.joinExitProcessPid
  | .recv _ _ ⟨sendPid, .apiCall _⟩ => some sendPid
  | .recv _ _ ⟨sendPid, .msgSend _⟩ => some sendPid
  | _ => none

/-- What a step can do to the pulses. -/
inductive PulseEffect (act : DaemonAct) (d d' : Daemon) : Prop
  /-- All pulses stay as they are, and no process shows a sign of life. -/
  | kept (ha : activeOf d act = none) (hs : act ≠ .liveSweep)
      (h : d'.mlist.map MlistMember.pulse = d.mlist.map MlistMember.pulse)
  /-- The first member of the process is marked. -/
  | marked (pid : ℤ) (ha : activeOf d act = some pid) (hs : act ≠ .liveSweep)
      (h : d'.mlist.map MlistMember.pulse = (markLive pid d.mlist).map MlistMember.pulse)
  | swept (ha : act = .liveSweep) (h : d'.mlist = ipcLiveThread d.mlist)
  /-- Members are removed. -/
  | removed (ha : activeOf d act = none) (hs : act ≠ .liveSweep)
      (h : d'.mlist.Sublist d.mlist)
  | joined (stale : MlistMember → MlistMember) (addr : ℕ) (sendPid : ℤ) (info : JoinExitInfo)
      (ha : act = .recv stale addr ⟨sendPid, .join info⟩)
      (h : d'.mlist = (ipcdJoin stale info addr d.mlist).2)

/-- An update that keeps the pulses keeps the list of pulses. -/
theorem pulse_modifyFirst {p : MlistMember → Bool} {f : MlistMember → MlistMember}
    (hf : ∀ m, (f m).pulse = m.pulse) (mlist : List MlistMember) :
    (modifyFirst p f mlist).map MlistMember.pulse = mlist.map MlistMember.pulse :=
  map_modifyFirst (fun m _ => hf m) mlist

/-- To the pulses a call or a message is a sign of life like any other. -/
theorem pulse_markSender (pid : ℤ) (mlist : List MlistMember) :
    (markSender pid mlist).map MlistMember.pulse = (markLive pid mlist).map MlistMember.pulse := by
  unfold markSender markLive
  induction mlist with
  | nil => rfl
  | cons m mlist ih =>
    by_cases hm : hasPid pid m
    · rw [modifyFirst_cons_of_pos hm, modifyFirst_cons_of_pos hm]
      rfl
    · rw [modifyFirst_cons_of_neg hm, modifyFirst_cons_of_neg hm, List.map_cons, List.map_cons, ih]

/-- Nobody is marked for a process without a member. -/
theorem markLive_of_none {pid : ℤ} {mlist : List MlistMember}
    (h : ipcdGetMlistViaPid mlist pid = none) : markLive pid mlist = mlist := by
  unfold markLive
  unfold ipcdGetMlistViaPid at h
  induction mlist with
  | nil => rfl
  | cons m mlist ih =>
    rw [List.find?_eq_none] at h
    rw [modifyFirst_cons_of_neg (h m (by simp)), ih]
    rw [List.find?_eq_none]
    exact fun a ha => h a (List.mem_cons_of_mem m ha)

/-- The receive thread. -/
theorem ipcdAnalysisCore_pulse (stale : MlistMember → MlistMember) (addr : ℕ) (pkt : IpcPacket)
    (d : Daemon) : PulseEffect (.recv stale addr pkt) d (ipcdAnalysisCore stale addr pkt d).1 := by
  obtain ⟨sendPid, body⟩ := pkt
  cases body with
  | apiRegister info | msgRegister info | apiUnregister info | msgUnregister info | daemonCmd info =>
    refine .kept rfl (by simp) (pulse_modifyFirst ?_ d.mlist)
    intro m
    rfl
  | exit info => exact .removed rfl (by simp) (ipcdMlistRemoveViaPid_sublist _ _)
  | hangup info => exact .removed rfl (by simp) (ipcdMlistRemoveViaPid_sublist _ _)
  | join info =>
    exact .joined stale addr sendPid info rfl (ipcdAnalysisCore_join_mlist stale addr sendPid info d)
  | live info => exact .marked info.joinExitProcessPid rfl (by simp) rfl
  | apiCall api =>
    refine .marked sendPid rfl (by simp) ?_
    simp only [ipcdAnalysisCore, ipcdApiCall]
    split
    · rename_i hno
      rw [markLive_of_none hno]
    · exact pulse_markSender sendPid d.mlist
  | msgSend msg =>
    refine .marked sendPid rfl (by simp) ?_
    simp only [ipcdAnalysisCore, ipcdMsgSend]
    split
    · rename_i hno
      rw [markLive_of_none hno]
    · exact pulse_markSender sendPid d.mlist
  | apiRuntime rt =>
    refine .kept rfl (by simp) ?_
    simp only [ipcdAnalysisCore]
    split
    · rw [ipcdApiFinish_mlist]
      refine pulse_modifyFirst ?_ d.mlist
      intro m
      rfl
    · rfl
  | msgRuntime rt =>
    refine .kept rfl (by simp) ?_
    simp only [ipcdAnalysisCore]
    split
    · refine pulse_modifyFirst ?_ d.mlist
      intro m
      rfl
    · rfl
  | log info => exact .kept rfl (by simp) rfl
  | other => exact .kept rfl (by simp) rfl

/-- **What a step of the daemon does to the pulses.** -/
theorem Daemon.step_pulse (h : d.step act = some (d', out)) : PulseEffect act d d' := by
  cases act with
  | recv stale addr pkt =>
    have he : ipcdAnalysisCore stale addr pkt d = (d', out) := Option.some.inj h
    have heffect := ipcdAnalysisCore_pulse stale addr pkt d
    rw [he] at heffect
    exact heffect
  | liveSweep =>
    cases h
    exact .swept rfl rfl
  | _ => exact .kept rfl (by simp) (by rw [Daemon.step_mlist_eq h (by simp) (by simp)])

/-! ## The flag and the count -/

theorem mem_ipcLiveThread {l : List MlistMember} {m : MlistMember} (h : m ∈ ipcLiveThread l) :
    ∃ a ∈ l, m.pid = a.pid ∧ m.liveCnt = a.liveCnt + 1 ∧
      m.suspend = (a.suspend || decide (14 < a.liveCnt)) := by
  obtain ⟨a, ha, rfl⟩ := List.mem_map.1 h
  refine ⟨a, ha, ?_⟩
  unfold sweepMember ipcLiveTimeoutNum
  split
  · rename_i hdue
    simp only [Bool.and_eq_true, decide_eq_true_eq] at hdue
    exact ⟨rfl, rfl, by simp [hdue.1]⟩
  · rename_i hdue
    refine ⟨rfl, rfl, ?_⟩
    cases hs : a.suspend with
    | true => simp
    | false => simpa [hs] using hdue

/-- One step keeps the flags and the counts together. -/
theorem alert_step (h : d.step act = some (d', out))
    (hal : ∀ m ∈ d.mlist, m.suspend = true ↔ 16 ≤ m.liveCnt) :
    ∀ m ∈ d'.mlist, m.suspend = true ↔ 16 ≤ m.liveCnt := by
  -- a matter of the pulses
  have hpulse : ∀ l l' : List MlistMember,
      l'.map MlistMember.pulse = l.map MlistMember.pulse →
      (∀ m ∈ l, m.suspend = true ↔ 16 ≤ m.liveCnt) →
      ∀ m ∈ l', m.suspend = true ↔ 16 ≤ m.liveCnt := by
    intro l l' he hl
    have hk : ∀ k ∈ l.map MlistMember.pulse, k.suspend = true ↔ 16 ≤ k.liveCnt :=
      List.forall_mem_map.2 hl
    rw [← he] at hk
    exact List.forall_mem_map.1 hk
  have hmark : ∀ pid, ∀ m ∈ markLive pid d.mlist, m.suspend = true ↔ 16 ≤ m.liveCnt := by
    intro pid m hm
    rcases eq_or_mem_of_mem_modifyFirst hm with hm | ⟨a, ha, rfl⟩
    · exact hal m hm
    · simp
  cases Daemon.step_pulse h with
  | kept ha hs hl => exact hpulse _ _ hl hal
  | marked pid ha hs hl => exact hpulse _ _ hl (hmark pid)
  | swept ha hl =>
    intro m hm
    rw [hl] at hm
    obtain ⟨a, ha, -, hcnt, hsus⟩ := mem_ipcLiveThread hm
    have hold := hal a ha
    rw [hsus, hcnt, Bool.or_eq_true, decide_eq_true_eq, hold]
    omega
  | removed ha hs hl => exact fun m hm => hal m (hl.subset hm)
  | joined stale addr sendPid info ha hl =>
    intro m hm
    rw [hl] at hm
    rcases ipcdJoin_cases stale info addr d.mlist with ⟨l, hsub, he⟩ | ⟨l, hsub, he⟩
    · rw [he] at hm
      exact hal m (hsub.subset hm)
    · rw [he] at hm
      rcases List.mem_append.1 hm with hm | hm
      · exact hal m (hsub.subset hm)
      · rw [List.mem_singleton.1 hm]
        simp [newMember]

/-- **A member is suspended just when its count is sixteen or more**, in every reachable state. -/
theorem suspend_iff_liveCnt {ok : Daemon → DaemonAct → Daemon → Prop} (h : Reach daemonLts ok d) :
    ∀ m ∈ d.mlist, m.suspend = true ↔ 16 ≤ m.liveCnt := by
  refine h.invariant (I := fun d => ∀ m ∈ d.mlist, m.suspend = true ↔ 16 ≤ m.liveCnt) ?_ ?_
  · intro m hm
    cases hm
  · intro s act s' _ hal hstep _
    obtain ⟨⟨t, out⟩, hst, rfl⟩ := Option.map_eq_some_iff.1 hstep
    exact alert_step hst hal

/-! ## The count and the clock of the process -/

/-- The daemon, with the number of sweeps since each process was last active. -/
structure LiveRun where
  daemon : Daemon := {}
  silent : ℤ → ℕ := fun _ => 0

/-- The clocks after a step. -/
def tick (d : Daemon) (silent : ℤ → ℕ) : DaemonAct → ℤ → ℕ
  | .liveSweep => fun pid => silent pid + 1
  | act => fun pid => if activeOf d act = some pid then 0 else silent pid

theorem tick_of_not_sweep {silent : ℤ → ℕ} (hs : act ≠ .liveSweep) (pid : ℤ) :
    tick d silent act pid = if activeOf d act = some pid then 0 else silent pid := by
  cases act <;> first | rfl | exact absurd rfl hs

/-- The daemon and the clocks, from the start on. -/
def liveLts : Lts LiveRun DaemonAct where
  init := {}
  step s act := (s.daemon.step act).map fun r => ⟨r.1, tick s.daemon s.silent act⟩

/-- The process that a join packet is about. -/
def joinOf : DaemonAct → Option JoinExitInfo
  | .recv _ _ ⟨_, .join info⟩ => some info
  | _ => none

/-- A join steps over no member with its own process id. -/
def JoinsClear (s : LiveRun) (act : DaemonAct) (_ : LiveRun) : Prop :=
  ∀ info ∈ joinOf act, NoSkippedPid info s.daemon.mlist

instance (s : LiveRun) (act : DaemonAct) (s' : LiveRun) : Decidable (JoinsClear s act s') :=
  inferInstanceAs (Decidable (∀ info ∈ joinOf act, NoSkippedPid info s.daemon.mlist))

/-- The process ids are distinct, and the counts are the clocks. -/
structure LiveInv (d : Daemon) (silent : ℤ → ℕ) : Prop where
  pids : (d.mlist.map MlistMember.pid).Nodup
  clock : ∀ m ∈ d.mlist, m.liveCnt = silent m.pid

theorem pid_of_pulse {l l' : List MlistMember}
    (h : l'.map MlistMember.pulse = l.map MlistMember.pulse) :
    l'.map MlistMember.pid = l.map MlistMember.pid := by
  have hpid : ∀ l : List MlistMember, l.map MlistMember.pid =
      (l.map MlistMember.pulse).map Pulse.pid := fun l => by simp [MlistMember.pulse]
  rw [hpid, h, ← hpid]

theorem pid_markLive (pid : ℤ) (l : List MlistMember) :
    (markLive pid l).map MlistMember.pid = l.map MlistMember.pid := by
  unfold markLive
  refine map_modifyFirst ?_ l
  intro m _
  rfl

/-- With distinct process ids, a mark resets the count of the process and no other. -/
theorem mem_markLive {pid : ℤ} {l : List MlistMember} {m : MlistMember}
    (hnd : (l.map MlistMember.pid).Nodup) (h : m ∈ markLive pid l) :
    (m ∈ l ∧ m.pid ≠ pid) ∨ (m.pid = pid ∧ m.liveCnt = 0) := by
  have hone := pairwise_not_both (p := hasPid pid) hnd fun a ha => hasPid_iff.1 ha
  rcases mem_of_mem_modifyFirst hone h with ⟨hm, hp⟩ | ⟨a, -, hp, rfl⟩
  · exact Or.inl ⟨hm, fun he => hp (hasPid_iff.2 he)⟩
  · exact Or.inr ⟨hasPid_iff.1 hp, rfl⟩

/-- A join that is accepted, steps over no member with its process id and starts its clock. -/
theorem LiveInv.join {silent : ℤ → ℕ} (h : LiveInv d silent) {stale : MlistMember → MlistMember} {addr : ℕ}
    {sendPid : ℤ} {info : JoinExitInfo} (hclear : NoSkippedPid info d.mlist)
    (hl : d'.mlist = (ipcdJoin stale info addr d.mlist).2) :
    LiveInv d' (tick d silent (.recv stale addr ⟨sendPid, .join info⟩)) := by
  have hact : activeOf d (.recv stale addr ⟨sendPid, .join info⟩) =
      if (ipcdJoin stale info addr d.mlist).1.isSome then some info.joinExitProcessPid
      else none := rfl
  have hsub := joinScan_sublist stale info d.mlist.length 0 d.mlist
  rcases he : joinScan stale info d.mlist.length 0 d.mlist with ⟨b, l⟩
  rw [he] at hsub
  replace hsub : l.Sublist d.mlist := hsub
  cases b with
  | false =>
    simp only [ipcdJoin, he] at hl hact
    refine ⟨?_, ?_⟩
    · rw [hl]
      exact h.pids.sublist (hsub.map _)
    · intro m hm
      rw [hl] at hm
      rw [tick_of_not_sweep (by simp), hact, if_neg (by simp)]
      exact h.clock m (hsub.subset hm)
  | true =>
    have hfree : ∀ a ∈ l, a.pid ≠ info.joinExitProcessPid := by
      refine joinScan_pid_free (u := []) d.mlist.length ?_ ?_ h.pids hclear he
      · simp
      · simp
    simp only [ipcdJoin, he] at hl hact
    refine ⟨?_, ?_⟩
    · rw [hl, List.map_append, List.nodup_append]
      refine ⟨h.pids.sublist (hsub.map _), List.nodup_singleton _, ?_⟩
      rintro _ hp _ hq rfl
      obtain ⟨m, hm, hmp⟩ := List.mem_map.1 hp
      exact hfree m hm (hmp.trans (List.mem_singleton.1 hq))
    · intro m hm
      rw [tick_of_not_sweep (by simp), hact]
      rw [hl] at hm
      rcases List.mem_append.1 hm with hm | hm
      · rw [if_neg]
        · exact h.clock m (hsub.subset hm)
        · intro hp
          exact hfree m hm (by simpa using hp.symm)
      · rw [List.mem_singleton.1 hm, if_pos (by simp [newMember])]
        rfl

/-- One step keeps the counts and the clocks together. -/
theorem LiveInv.step {silent : ℤ → ℕ} (h : LiveInv d silent) (hstep : d.step act = some (d', out))
    (hok : ∀ info ∈ joinOf act, NoSkippedPid info d.mlist) : LiveInv d' (tick d silent act) := by
  cases Daemon.step_pulse hstep with
  | kept ha hs hl =>
    refine ⟨?_, ?_⟩
    · exact pid_of_pulse hl ▸ h.pids
    · intro m hm
      have hk : ∀ k ∈ d.mlist.map MlistMember.pulse, k.liveCnt = silent k.pid :=
        List.forall_mem_map.2 h.clock
      rw [← hl] at hk
      rw [tick_of_not_sweep hs, ha, if_neg (by simp)]
      exact List.forall_mem_map.1 hk m hm
  | marked pid ha hs hl =>
    refine ⟨?_, ?_⟩
    · show (d'.mlist.map MlistMember.pid).Nodup
      rw [pid_of_pulse hl, pid_markLive]
      exact h.pids
    · have hk : ∀ k ∈ (markLive pid d.mlist).map MlistMember.pulse,
          k.liveCnt = tick d silent act k.pid := by
        rw [List.forall_mem_map]
        intro m hm
        rw [tick_of_not_sweep hs, ha]
        rcases mem_markLive h.pids hm with ⟨hm, hp⟩ | ⟨hp, hcnt⟩
        · rw [if_neg]
          · exact h.clock m hm
          · intro hc
            exact hp (Option.some.inj hc).symm
        · rw [if_pos]
          · exact hcnt
          · exact congrArg some hp.symm
      rw [← hl] at hk
      exact List.forall_mem_map.1 hk
  | swept ha hl =>
    subst ha
    refine ⟨?_, ?_⟩
    · show (d'.mlist.map MlistMember.pid).Nodup
      rw [hl, ipcLiveThread, List.map_map]
      have hpid : MlistMember.pid ∘ sweepMember = MlistMember.pid := by
        funext m
        simp only [Function.comp, sweepMember]
        split <;> rfl
      rw [hpid]
      exact h.pids
    · intro m hm
      replace hm : m ∈ ipcLiveThread d.mlist := hl ▸ hm
      obtain ⟨a, ha, hp, hcnt, -⟩ := mem_ipcLiveThread hm
      have hold := h.clock a ha
      rw [hcnt, hp, hold]
      rfl
  | removed ha hs hl =>
    refine ⟨h.pids.sublist (hl.map _), ?_⟩
    intro m hm
    rw [tick_of_not_sweep hs, ha, if_neg (by simp)]
    exact h.clock m (hl.subset hm)
  | joined stale addr sendPid info ha hl =>
    subst ha
    exact h.join (hok info rfl) hl

/-- **Suspension is inactivity.**  In every run in which no join steps over a member with its own
process id, the count of a member is the number of sweeps since its process was active, so the
member is suspended from the sixteenth silent sweep on, and not before. -/
theorem liveCnt_eq_silent {s : LiveRun} (h : Reach liveLts JoinsClear s) : ∀ m ∈ s.daemon.mlist,
    m.liveCnt = s.silent m.pid ∧ (m.suspend = true ↔ 16 ≤ m.liveCnt) ∧
      (m.suspend = true ↔ 16 ≤ s.silent m.pid) := by
  have hinv : LiveInv s.daemon s.silent ∧
      ∀ m ∈ s.daemon.mlist, m.suspend = true ↔ 16 ≤ m.liveCnt := by
    refine h.invariant (I := fun s => LiveInv s.daemon s.silent ∧
      ∀ m ∈ s.daemon.mlist, m.suspend = true ↔ 16 ≤ m.liveCnt) ?_ ?_
    · exact ⟨⟨List.nodup_nil, fun m hm => by cases hm⟩, fun m hm => by cases hm⟩
    · intro s act s' _ hI hstep hok
      obtain ⟨⟨d', out⟩, hst, rfl⟩ := Option.map_eq_some_iff.1 hstep
      exact ⟨hI.1.step hst hok, alert_step hst hI.2⟩
  intro m hm
  have hclock := hinv.1.clock m hm
  have halert := hinv.2 m hm
  refine ⟨hclock, halert, ?_⟩
  rw [halert, hclock]
  omega

/-- Two processes join, one of them speaks in the ninth round, and the other does not. -/
def silentRun : List DaemonAct :=
  [joinAs 1 [97], joinAs 2 [98]] ++ List.replicate 8 .liveSweep ++
    [packetFrom 2 (.live ⟨2, [98], 20, 21, 0⟩)] ++ List.replicate 8 .liveSweep

/-- After sixteen sweeps the silent one is suspended, and the other, at eight, is not. -/
theorem liveCnt_eq_silent_run : ∃ s, Reach liveLts JoinsClear s ∧
    s.daemon.mlist.map MlistMember.pulse = [⟨1, 16, true⟩, ⟨2, 8, false⟩] ∧
    ∀ m ∈ s.daemon.mlist, m.liveCnt = s.silent m.pid ∧ (m.suspend = true ↔ 16 ≤ m.liveCnt) ∧
      (m.suspend = true ↔ 16 ≤ s.silent m.pid) := by
  have hany : (liveLts.runOk JoinsClear liveLts.init silentRun).any (fun s =>
      s.daemon.mlist.map MlistMember.pulse == [⟨1, 16, true⟩, ⟨2, 8, false⟩]) = true := by
    decide +kernel
  obtain ⟨s, hrun, hpulse⟩ := (Option.any_eq_true _ _).1 hany
  have hreach : Reach liveLts JoinsClear s := Reach.runOk .init hrun
  exact ⟨s, hreach, by simpa using hpulse, liveCnt_eq_silent hreach⟩

/-- The run that leaves two members of process id 2; from then on that process speaks before every
sweep. -/
def livelyRun : List DaemonAct :=
  duplicateRun ++
    (List.replicate 16 [packetFrom 2 (.live ⟨2, [97], 20, 21, 0⟩), .liveSweep]).flatten

/-- The member the process joined as is suspended, one sweep after its process spoke. -/
theorem live_suspended : ¬ ∀ s, Reach liveLts Free s → ∀ m ∈ s.daemon.mlist,
    m.suspend = true ↔ 16 ≤ s.silent m.pid := by
  intro hall
  have hany : (liveLts.run liveLts.init livelyRun).any (fun s =>
      s.daemon.mlist.any fun m => m.pname == [97] && m.suspend && decide (s.silent m.pid = 1)) =
      true := by
    decide +kernel
  obtain ⟨s, hrun, hm⟩ := (Option.any_eq_true _ _).1 hany
  obtain ⟨m, hm, hbad⟩ := List.any_eq_true.1 hm
  simp only [Bool.and_eq_true, decide_eq_true_eq] at hbad
  have hlate := (hall s (Reach.of_run hrun) m hm).1 hbad.1.2
  omega

end EasyIpc

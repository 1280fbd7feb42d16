import EasyIpc.Pending

/-!
# Timeouts

The timeout thread counts a pending call down by 100 in each round, unless its count is
`API_TIMEOUT_MAX`, which stands for no timeout.

* `Pending` — a pending call as it was pushed, with the number of rounds since; `Pending.current`
  is the entry that `recv_acklist` should then hold, and `Pending.due` says that the next round is
  the one that is to answer it.
* `timeoutLoop_current` — one round does to such entries what it should, unless one of them was
  asked for with a timeout that counts down onto `API_TIMEOUT_MAX`.
* `timeouts_on_time` — so over every run, from any list of pending calls; and a timeout is kept
  exactly if it does not count down onto `API_TIMEOUT_MAX`.
-/

namespace EasyIpc

open FirstMatch Concurrent Transition

variable {d d' : Daemon} {act : DaemonAct} {out : List Send} {a : IpcApi}

/-- The number of rounds that a timeout is to last: a hundredth of it, rounded up. -/
def roundsOf (timeout : ℤ) : ℕ := ((timeout + 99) / 100).toNat

theorem roundsOf_le_iff {timeout : ℤ} {k : ℕ} : roundsOf timeout ≤ k ↔ timeout ≤ 100 * k := by
  unfold roundsOf
  omega

/-- A timeout lasts for one round at least. -/
theorem roundsOf_pos {timeout : ℤ} (h : 0 < timeout) : 0 < roundsOf timeout := by
  have hle : roundsOf timeout ≤ 0 ↔ timeout ≤ 100 * (0 : ℕ) := roundsOf_le_iff
  omega

/-- The count does not run into `API_TIMEOUT_MAX` on its way down. -/
def CountsDown (a : IpcApi) : Prop := NeverExpires a → a.daemonCountNumber = apiTimeoutMax

instance (a : IpcApi) : Decidable (CountsDown a) := inferInstanceAs (Decidable (_ → _))

/-- A pending call as it was pushed, and the number of rounds since. -/
structure Pending where
  call : IpcApi
  rounds : ℕ
  deriving DecidableEq, Repr

/-- The call was made without a timeout. -/
def Pending.untimed (t : Pending) : Bool := t.call.daemonCountNumber == apiTimeoutMax

/-- What is to become of the call with time. -/
def Pending.current (t : Pending) : IpcApi :=
  if t.untimed then t.call
  else { t.call with daemonCountNumber := t.call.daemonCountNumber - 100 * t.rounds }

/-- The next round is the one to answer the call. -/
def Pending.due (t : Pending) : Bool :=
  !t.untimed && decide (roundsOf t.call.daemonCountNumber ≤ t.rounds + 1)

/-- The call one round later. -/
def Pending.aged (t : Pending) : Pending := { t with rounds := t.rounds + 1 }

/-- The call is pushed. -/
def Pending.push (a : IpcApi) : Pending := ⟨a, 0⟩

@[simp] theorem Pending.current_push (a : IpcApi) : (Pending.push a).current = a := by
  simp [Pending.current, Pending.push]

@[simp] theorem Pending.magic_current (t : Pending) :
    t.current.daemonMagicNumber = t.call.daemonMagicNumber := by
  unfold Pending.current
  split <;> rfl

/-! ## One round -/

/-- The count of a call that keeps clear of `API_TIMEOUT_MAX` goes down once in each round. -/
theorem countDown_current {t : Pending} (h : CountsDown t.call) :
    { t.current with daemonCountNumber := countDown t.current } = t.aged.current := by
  unfold Pending.current
  by_cases hu : t.untimed
  · rw [if_pos hu, if_pos (show t.aged.untimed = true from hu)]
    have hmax : t.call.daemonCountNumber = apiTimeoutMax := by simpa [Pending.untimed] using hu
    have hcount : countDown t.call = t.call.daemonCountNumber := by simp [countDown, hmax]
    rw [hcount]
    rfl
  · rw [if_neg hu, if_neg (show ¬ t.aged.untimed = true from hu)]
    have hmax : t.call.daemonCountNumber ≠ apiTimeoutMax := by simpa [Pending.untimed] using hu
    have hclear : t.call.daemonCountNumber - 100 * t.rounds ≠ apiTimeoutMax := by
      intro hc
      refine hmax (h ⟨?_, ?_⟩)
      · omega
      · omega
    simp only [countDown, if_pos hclear, Pending.aged]
    congr 1
    push_cast
    omega

/-- It runs out in the round in which it is due. -/
theorem expires_current {t : Pending} (h : CountsDown t.call) : expires t.current = t.due := by
  have hcount := congrArg IpcApi.daemonCountNumber (countDown_current h)
  simp only at hcount
  rw [expires, hcount, Pending.due]
  unfold Pending.current
  by_cases hu : t.untimed
  · rw [if_pos (show t.aged.untimed = true from hu), hu]
    have hmax : t.call.daemonCountNumber = apiTimeoutMax := by simpa [Pending.untimed] using hu
    simp [Pending.aged, hmax, apiTimeoutMax]
  · rw [if_neg (show ¬ t.aged.untimed = true from hu)]
    rw [Bool.not_eq_true] at hu
    rw [hu, Bool.not_false, Bool.true_and, decide_eq_decide, roundsOf_le_iff]
    show t.call.daemonCountNumber - 100 * ((t.rounds + 1 : ℕ) : ℤ) ≤ 0 ↔
      t.call.daemonCountNumber ≤ 100 * ((t.rounds + 1 : ℕ) : ℤ)
    omega

/-- The acknowledgement of a call that has run out, if its caller is registered. -/
def timeoutAck (mlist : List MlistMember) (t : Pending) : List Send :=
  ackTo mlist t.call.sendPid ⟨t.call.ackId, .ackTimeout, []⟩ t.call.daemonMagicNumber

/-- **One round** answers the calls that are due, and keeps the others in their order, the untimed
ones as they are and the timed ones counted down once. -/
theorem timeoutLoop_current (mlist : List MlistMember) {pend : List Pending}
    (h : ∀ t ∈ pend, CountsDown t.call) : timeoutLoop mlist (pend.map Pending.current) =
      ((pend.filter fun t => !t.due).map fun t => t.aged.current,
        (pend.filter Pending.due).flatMap (timeoutAck mlist)) := by
  induction pend with
  | nil => rfl
  | cons t pend ih =>
    have ht : CountsDown t.call := h t (by simp)
    have hexp := expires_current ht
    have hack : ackTo mlist t.current.sendPid ⟨t.current.ackId, .ackTimeout, []⟩
        t.current.daemonMagicNumber = timeoutAck mlist t := by
      unfold timeoutAck Pending.current
      split <;> rfl
    rw [List.map_cons, timeoutLoop, ih fun s hs => h s (List.mem_cons_of_mem t hs)]
    simp only [hack, countDown_current ht]
    by_cases hdue : t.due
    · have hle : countDown t.current ≤ 0 := by
        rw [hdue, expires, decide_eq_true_eq] at hexp
        exact hexp
      simp [hle, hdue]
    · have hle : ¬ countDown t.current ≤ 0 := by
        rw [Bool.not_eq_true] at hdue
        rw [hdue, expires, decide_eq_false_iff_not] at hexp
        exact hexp
      simp [hle, hdue]

/-! ## Round after round -/

/-- Rounds one after the other, each with the table of its time. -/
def timeoutRounds (pend : List IpcApi) (tables : List (List MlistMember)) : List IpcApi :=
  tables.foldl (fun pend mlist => (timeoutLoop mlist pend).1) pend

theorem timeoutLoop_append (mlist : List MlistMember) (l l' : List IpcApi) :
    (timeoutLoop mlist (l ++ l')).1 = (timeoutLoop mlist l).1 ++ (timeoutLoop mlist l').1 := by
  simp only [timeoutLoop_eq, List.filter_append, List.map_append]

/-- The calls do not matter to each other. -/
theorem timeoutRounds_append (l l' : List IpcApi) (tables : List (List MlistMember)) :
    timeoutRounds (l ++ l') tables = timeoutRounds l tables ++ timeoutRounds l' tables := by
  induction tables generalizing l l' with
  | nil => rfl
  | cons mlist tables ih =>
    show timeoutRounds (timeoutLoop mlist (l ++ l')).1 tables = _
    rw [timeoutLoop_append, ih]
    rfl

theorem timeoutRounds_nil (tables : List (List MlistMember)) : timeoutRounds [] tables = [] := by
  induction tables with
  | nil => rfl
  | cons mlist tables ih => exact ih

/-- A call that keeps clear of `API_TIMEOUT_MAX` is gone from the round in which it is due, and
before that it is counted down. -/
theorem timeoutRounds_current {t : Pending} (h : CountsDown t.call) (hu : t.untimed = false)
    (hlt : t.rounds < roundsOf t.call.daemonCountNumber) (tables : List (List MlistMember)) :
    timeoutRounds [t.current] tables =
      if roundsOf t.call.daemonCountNumber ≤ t.rounds + tables.length then []
      else [Pending.current { t with rounds := t.rounds + tables.length }] := by
  induction tables generalizing t with
  | nil =>
    rw [if_neg (by simpa using hlt)]
    rfl
  | cons mlist tables ih =>
    show timeoutRounds (timeoutLoop mlist [t.current]).1 tables = _
    have hone : ∀ t' ∈ [t], CountsDown t'.call := by simpa using h
    have hround := timeoutLoop_current mlist hone
    rw [show [t.current] = [t].map Pending.current from rfl, hround]
    have hlen : t.rounds + (mlist :: tables).length = t.rounds + 1 + tables.length := by
      rw [List.length_cons]
      omega
    rw [hlen]
    by_cases hdue : roundsOf t.call.daemonCountNumber ≤ t.rounds + 1
    · have hd : t.due = true := by simp [Pending.due, hu, hdue]
      rw [if_pos (by omega)]
      simp only [List.filter_cons, hd]
      exact timeoutRounds_nil tables
    · have hd : t.due = false := by simp [Pending.due, hu, hdue]
      simp only [List.filter_cons, hd]
      exact ih (t := t.aged) h hu (by simpa [Pending.aged] using hdue)

/-- A call that counts down onto `API_TIMEOUT_MAX` stays for ever. -/
theorem timeoutRounds_neverExpires (h : NeverExpires a) (tables : List (List MlistMember)) :
    timeoutRounds [a] tables ≠ [] := by
  induction tables generalizing a with
  | nil => exact List.cons_ne_nil a []
  | cons mlist tables ih =>
    obtain ⟨hle, hmod⟩ := h
    have hnext : NeverExpires { a with daemonCountNumber := countDown a } := by
      unfold NeverExpires countDown
      simp only
      split
      · exact ⟨by omega, by omega⟩
      · exact ⟨hle, hmod⟩
    have hstays : ¬ countDown a ≤ 0 := by
      have hmax : apiTimeoutMax ≤ countDown a := hnext.1
      have hpos : (0 : ℤ) < apiTimeoutMax := by decide
      omega
    have hround : (timeoutLoop mlist [a]).1 = [{ a with daemonCountNumber := countDown a }] := by
      simp [timeoutLoop, hstays]
    show timeoutRounds (timeoutLoop mlist [a]).1 tables ≠ []
    rw [hround]
    exact ih hnext

/-- **A timeout is kept, at any place of any list of pending calls, exactly if it does not count
down onto `API_TIMEOUT_MAX`.** -/
theorem timeout_kept_iff (u v : List IpcApi) (hpos : 0 < a.daemonCountNumber)
    (hne : a.daemonCountNumber ≠ apiTimeoutMax) :
    (∀ tables : List (List MlistMember), timeoutRounds (u ++ a :: v) tables =
      timeoutRounds u tables ++ (if roundsOf a.daemonCountNumber ≤ tables.length then []
        else [{ a with daemonCountNumber := a.daemonCountNumber - 100 * tables.length }]) ++
      timeoutRounds v tables) ↔ CountsDown a := by
  have hsplit : ∀ tables, timeoutRounds (u ++ a :: v) tables =
      timeoutRounds u tables ++ timeoutRounds [a] tables ++ timeoutRounds v tables := by
    intro tables
    rw [← List.singleton_append, timeoutRounds_append, timeoutRounds_append, List.append_assoc]
  constructor
  · intro hall
    by_contra hno
    have hnever : NeverExpires a := by
      by_contra hexp
      exact hno fun hc => absurd hc hexp
    -- in the round in which it is due it is still there
    have hlate := hall (List.replicate (roundsOf a.daemonCountNumber) [])
    rw [hsplit, List.length_replicate, if_pos (Nat.le_refl _)] at hlate
    have hgone := List.append_cancel_left (List.append_cancel_right hlate)
    exact timeoutRounds_neverExpires hnever _ hgone
  · intro hclear tables
    have hu : (Pending.push a).untimed = false := by simpa [Pending.untimed, Pending.push] using hne
    have hrounds := timeoutRounds_current (t := Pending.push a) hclear hu (roundsOf_pos hpos) tables
    rw [Pending.current_push] at hrounds
    rw [hsplit, hrounds]
    simp only [Pending.push, Nat.zero_add]
    have hcur : Pending.current ⟨a, tables.length⟩ =
        { a with daemonCountNumber := a.daemonCountNumber - 100 * tables.length } := if_neg
      (by simpa [Pending.untimed] using hne)
    rw [hcur]

/-! ## Runs -/

/-- The daemon, with the pending calls as they were pushed and the rounds since. -/
structure TimeRun where
  daemon : Daemon
  pend : List Pending

/-- What a step should do to the pending calls: a relayed call is pushed once for each provider, a
finish record takes the first call of its number away if its sender lists the API, and a round takes
those away that are due. -/
def pendAfter (d : Daemon) (pend : List Pending) : DaemonAct → List Pending
  | .apiProbe =>
      match d.recvAlist.consumer with
      | .holding p => pend ++ (apiProbeScan p d.mlist).2.map fun _ => Pending.push p
      | _ => pend
  | .recv _ _ ⟨sendPid, .apiRuntime rt⟩ =>
      if rt.flag && senderLists d.mlist sendPid rt then
        pend.eraseP fun t => t.call.daemonMagicNumber == rt.daemonMagicNumber
      else pend
  | .timeoutSweep => (pend.filter fun t => !t.due).map Pending.aged
  | _ => pend

/-- The daemon from any state on, its pending calls taken as just pushed. -/
def timeLts (d₀ : Daemon) : Lts TimeRun DaemonAct where
  init := ⟨d₀, d₀.recvAcklist.map Pending.push⟩
  step s act := (s.daemon.step act).map fun r => ⟨r.1, pendAfter s.daemon s.pend act⟩

/-- No call comes in with a timeout that counts down onto `API_TIMEOUT_MAX`. -/
def TimeoutsClear (s : TimeRun) (act : DaemonAct) (_ : TimeRun) : Prop :=
  ∀ a ∈ callsIn s.daemon act, CountsDown a

instance (s : TimeRun) (act : DaemonAct) (s' : TimeRun) : Decidable (TimeoutsClear s act s') :=
  inferInstanceAs (Decidable (∀ a ∈ callsIn s.daemon act, CountsDown a))

/-- `recv_acklist` is what it should be, all timeouts are clear, and no call is overdue. -/
structure TimeInv (d : Daemon) (pend : List Pending) : Prop where
  acklist : d.recvAcklist = pend.map Pending.current
  clear : ∀ t ∈ pend, CountsDown t.call
  queued : ∀ a ∈ d.recvAlist.items, CountsDown a
  early : ∀ t ∈ pend, t.untimed = false → 0 < t.call.daemonCountNumber →
    t.rounds < roundsOf t.call.daemonCountNumber

theorem eraseP_current (pend : List Pending) (call : Magic) :
    (pend.map Pending.current).eraseP (fun a => a.daemonMagicNumber == call) =
      (pend.eraseP fun t => t.call.daemonMagicNumber == call).map Pending.current := by
  induction pend with
  | nil => rfl
  | cons t pend ih =>
    by_cases ht : t.call.daemonMagicNumber = call
    · simp [ht]
    · simp [ht, ih]

/-- A finish record. -/
theorem TimeInv.finish {pend : List Pending} (h : TimeInv d pend) (stale : MlistMember → MlistMember)
    (addr : ℕ) (sendPid : ℤ) {rt : IpcRuntime} (hflag : rt.flag = true) :
    TimeInv (ipcdApiFinish sendPid rt d).1
      (pendAfter d pend (.recv stale addr ⟨sendPid, .apiRuntime rt⟩)) := by
  have hsub : (pend.eraseP fun t => t.call.daemonMagicNumber == rt.daemonMagicNumber).Sublist pend :=
    List.eraseP_sublist
  have hpend : pendAfter d pend (.recv stale addr ⟨sendPid, .apiRuntime rt⟩) =
      if senderLists d.mlist sendPid rt then
        pend.eraseP fun t => t.call.daemonMagicNumber == rt.daemonMagicNumber
      else pend := by
    simp [pendAfter, hflag]
  have herased : ∀ d' : Daemon, d'.recvAlist = d.recvAlist →
      d'.recvAcklist = (d.recvAcklist.eraseP fun a => a.daemonMagicNumber == rt.daemonMagicNumber) →
      TimeInv d' (pend.eraseP fun t => t.call.daemonMagicNumber == rt.daemonMagicNumber) := by
    intro d' hq hl
    constructor
    case acklist => rw [hl, h.acklist, eraseP_current]
    case clear => exact fun t ht => h.clear t (hsub.subset ht)
    case queued => rw [hq]; exact h.queued
    case early => exact fun t ht => h.early t (hsub.subset ht)
  rw [hpend]
  unfold ipcdApiFinish
  extract_lets mlist iaal
  by_cases hlists : senderLists d.mlist sendPid rt = true
  · rw [if_pos hlists, if_pos hlists]
    split
    · exact herased _ rfl rfl
    · rename_i hnone
      refine herased _ rfl ?_
      rw [List.eraseP_of_forall_not]
      intro a ha
      exact List.find?_eq_none.1 hnone a ha
  · rw [if_neg hlists, if_neg hlists]
    exact ⟨h.acklist, h.clear, h.queued, h.early⟩

/-- The distribution of a call. -/
theorem TimeInv.probe {pend : List Pending} (h : TimeInv d pend) {p : IpcApi}
    (hp : d.recvAlist.consumer = .holding p) :
    TimeInv (ipcdApiProbe p { d with recvAlist := d.recvAlist.release }).1
      (pendAfter d pend .apiProbe) := by
  have hitems := SemQueue.items_release hp
  have hclear : CountsDown p := h.queued p (by rw [hitems]; simp)
  have hqueued : ∀ a ∈ d.recvAlist.release.items, CountsDown a := fun a ha =>
    h.queued a (by rw [hitems]; exact List.mem_cons_of_mem p ha)
  simp only [pendAfter, hp]
  rcases ipcdApiProbe_cases p { d with recvAlist := d.recvAlist.release } with
    ⟨hnil, ret, -, he⟩ | ⟨-, he⟩
  · rw [he]
    simp only at hnil
    rw [hnil, List.map_nil, List.append_nil]
    exact ⟨h.acklist, h.clear, hqueued, h.early⟩
  · rw [he]
    constructor
    case acklist =>
      simp only [h.acklist, List.map_append, List.map_map]
      congr 1
      refine List.map_congr_left ?_
      intro m _
      exact (Pending.current_push p).symm
    case clear =>
      intro t ht
      rcases List.mem_append.1 ht with ht | ht
      · exact h.clear t ht
      · obtain ⟨m, -, rfl⟩ := List.mem_map.1 ht
        exact hclear
    case queued => exact hqueued
    case early =>
      intro t ht hu hpos
      rcases List.mem_append.1 ht with ht | ht
      · exact h.early t ht hu hpos
      · obtain ⟨m, -, rfl⟩ := List.mem_map.1 ht
        exact roundsOf_pos hpos

/-- A round of the timeout thread. -/
theorem TimeInv.sweep {pend : List Pending} (h : TimeInv d pend) :
    TimeInv (ipcApiTimeoutCheck d).1 (pendAfter d pend .timeoutSweep) := by
  constructor
  case acklist =>
    simp only [ipcApiTimeoutCheck, pendAfter, h.acklist, timeoutLoop_current d.mlist h.clear,
      List.map_map]
    rfl
  case clear =>
    intro t ht
    obtain ⟨s, hs, rfl⟩ := List.mem_map.1 ht
    exact h.clear s (List.mem_filter.1 hs).1
  case queued => exact h.queued
  case early =>
    intro t ht hu hpos
    obtain ⟨s, hs, rfl⟩ := List.mem_map.1 ht
    obtain ⟨-, hdue⟩ := List.mem_filter.1 hs
    have hus : s.untimed = false := hu
    simp only [Pending.due, hus, Bool.not_false, Bool.true_and, Bool.not_eq_true',
      decide_eq_false_iff_not, Nat.not_le] at hdue
    exact hdue

/-- A step that does nothing to `recv_acklist`. -/
theorem TimeInv.frame {pend : List Pending} (h : TimeInv d pend)
    (hitems : d'.recvAlist.items = d.recvAlist.items) (hack : d'.recvAcklist = d.recvAcklist) :
    TimeInv d' pend :=
  ⟨hack.trans h.acklist, h.clear, hitems ▸ h.queued, h.early⟩

/-- A step that is quiet about calls does nothing to the pending calls. -/
theorem pendAfter_recv {stale : MlistMember → MlistMember} {addr : ℕ} {pkt : IpcPacket}
    (hrecord : ∀ stale' addr' sendPid rt,
      DaemonAct.recv stale addr pkt = .recv stale' addr' ⟨sendPid, .apiRuntime rt⟩ →
      rt.flag = false) (pend : List Pending) :
    pendAfter d pend (.recv stale addr pkt) = pend := by
  unfold pendAfter
  split
  · rename_i heq
    cases heq
  · rename_i stale' addr' sendPid rt heq
    rw [hrecord stale' addr' sendPid rt heq, Bool.false_and, if_neg (by simp)]
  · rename_i heq
    cases heq
  · rfl

/-- **One step keeps `recv_acklist` on time.** -/
theorem TimeInv.step {pend : List Pending} (h : TimeInv d pend) (hstep : d.step act = some (d', out))
    (hok : ∀ a ∈ callsIn d act, CountsDown a) : TimeInv d' (pendAfter d pend act) := by
  cases act with
  | recv stale addr pkt =>
    cases Daemon.step_rpc hstep with
    | quiet hnew hrecord hitems hack hmagic hout =>
      rw [pendAfter_recv hrecord]
      exact h.frame hitems hack
    | accept stale addr sendPid api ha hreg he =>
      cases ha
      cases he
      have hin := callsIn_of_registered stale addr api hreg
      refine ⟨h.acklist, h.clear, ?_, h.early⟩
      intro a ha
      simp only [SemQueue.items_attach, List.mem_append, List.mem_singleton] at ha
      rcases ha with ha | rfl
      · exact h.queued a ha
      · exact hok _ (by rw [hin]; simp)
    | probe p ha hp he => cases ha
    | finish stale addr sendPid rt ha hflag he =>
      cases ha
      have hfinish := h.finish stale addr sendPid hflag
      rw [← he] at hfinish
      exact hfinish
    | sweep ha he => cases ha
  | apiProbe =>
    obtain ⟨p, hp, he⟩ := step_apiProbe_eq_some hstep
    have hprobe := h.probe hp
    rw [he] at hprobe
    exact hprobe
  | timeoutSweep =>
    have he : ipcApiTimeoutCheck d = (d', out) := Option.some.inj hstep
    have hsweep := h.sweep
    rw [he] at hsweep
    exact hsweep
  | msgPost | msgWait | msgPull =>
    obtain ⟨q, -, rfl, -⟩ := onMsgQueue_eq_some hstep
    exact h.frame rfl rfl
  | msgProbe =>
    obtain ⟨p, -, rfl, -⟩ := step_msgProbe_eq_some hstep
    exact h.frame rfl rfl
  | apiPost =>
    obtain ⟨q, hq, rfl, -⟩ := onApiQueue_eq_some hstep
    exact h.frame (SemQueue.items_post hq) rfl
  | apiWait =>
    obtain ⟨q, hq, rfl, -⟩ := onApiQueue_eq_some hstep
    exact h.frame (SemQueue.items_wait hq) rfl
  | apiPull =>
    obtain ⟨q, hq, rfl, -⟩ := onApiQueue_eq_some hstep
    exact h.frame (SemQueue.items_pull hq) rfl
  | liveSweep =>
    cases hstep
    exact h.frame rfl rfl

/-- **Timeouts fire on time.**  From any state of the daemon, in every run in which no timeout counts
down onto `API_TIMEOUT_MAX`: `recv_acklist` holds the pending calls, the untimed ones as they were
pushed and the timed ones counted down once in each round; a timed call is due in the round that
its timeout asks for; and a round answers the calls that are due, each once if its caller is
registered, and keeps the others in their order.  A timeout that does count down onto
`API_TIMEOUT_MAX` is never kept, in any list of pending calls. -/
theorem timeouts_on_time (d₀ : Daemon) (hstart : ∀ a ∈ openCalls d₀, CountsDown a) :
    (∀ s, Reach (timeLts d₀) TimeoutsClear s →
      s.daemon.recvAcklist = s.pend.map Pending.current ∧
      (∀ t ∈ s.pend, t.untimed = false → 0 < t.call.daemonCountNumber →
        (t.due = true ↔ t.rounds + 1 = roundsOf t.call.daemonCountNumber)) ∧
      ipcApiTimeoutCheck s.daemon =
        ({ s.daemon with recvAcklist := (s.pend.filter fun t => !t.due).map fun t => t.aged.current },
          (s.pend.filter Pending.due).flatMap (timeoutAck s.daemon.mlist))) ∧
    ∀ (u v : List IpcApi) (a : IpcApi), 0 < a.daemonCountNumber →
      a.daemonCountNumber ≠ apiTimeoutMax →
      ((∀ tables : List (List MlistMember), timeoutRounds (u ++ a :: v) tables =
        timeoutRounds u tables ++ (if roundsOf a.daemonCountNumber ≤ tables.length then []
          else [{ a with daemonCountNumber := a.daemonCountNumber - 100 * tables.length }]) ++
        timeoutRounds v tables) ↔ CountsDown a) := by
  refine ⟨?_, fun u v a => timeout_kept_iff u v⟩
  intro s h
  have hinv : TimeInv s.daemon s.pend := by
    refine h.invariant (I := fun s => TimeInv s.daemon s.pend) ?_ ?_
    · constructor
      case acklist => simp [timeLts, Function.comp_def]
      case clear =>
        intro t ht
        obtain ⟨a, ha, rfl⟩ := List.mem_map.1 ht
        exact hstart a (List.mem_append_right _ ha)
      case queued => exact fun a ha => hstart a (List.mem_append_left _ ha)
      case early =>
        intro t ht hu hpos
        obtain ⟨a, ha, rfl⟩ := List.mem_map.1 ht
        exact roundsOf_pos hpos
    · intro s act s' _ hI hst hok
      obtain ⟨⟨d', out⟩, hone, rfl⟩ := Option.map_eq_some_iff.1 hst
      exact hI.step hone hok
  refine ⟨hinv.acklist, ?_, ?_⟩
  · intro t ht hu hpos
    have hearly := hinv.early t ht hu hpos
    simp only [Pending.due, hu, Bool.not_false, Bool.true_and, decide_eq_true_eq]
    omega
  · unfold ipcApiTimeoutCheck
    rw [hinv.acklist, timeoutLoop_current _ hinv.clear]

/-- A call of process 2 with a timeout of 250. -/
def timedCall : IpcApi := { untimedCall with daemonCountNumber := 250 }

/-- Process 1 offers the API, process 2 calls it, and two rounds pass. -/
def timedRun : List DaemonAct :=
  [joinAs 1 [97], packetFrom 1 (.apiRegister ⟨1, [102]⟩), joinAs 2 [98],
    packetFrom 2 (.apiCall timedCall), .apiPost, .apiWait, .apiPull, .apiProbe, .timeoutSweep, .timeoutSweep]

/-- After the run 50 of the 250 are left, and the next round, the third, answers the call. -/
theorem timeouts_on_time_third : ∃ s, Reach (timeLts {}) TimeoutsClear s ∧
    s.daemon.recvAcklist = [{ timedCall with daemonCountNumber := 50 }] ∧
    (ipcApiTimeoutCheck s.daemon).1.recvAcklist = [] ∧
    (ipcApiTimeoutCheck s.daemon).2 = timeoutAck s.daemon.mlist ⟨timedCall, 2⟩ := by
  obtain ⟨s, hrun, hpend⟩ : ∃ s,
      (timeLts {}).runOk TimeoutsClear (timeLts {}).init timedRun = some s ∧
      s.pend = [⟨timedCall, 2⟩] := ⟨_, rfl, by decide⟩
  have hreach : Reach (timeLts {}) TimeoutsClear s := Reach.runOk .init hrun
  obtain ⟨hlist, -, hround⟩ := (timeouts_on_time {} (by simp [openCalls, SemQueue.items,
    Consumer.held])).1 s hreach
  refine ⟨s, hreach, ?_, ?_, ?_⟩
  · rw [hlist, hpend]
    rfl
  · rw [hround, hpend]
    rfl
  · rw [hround, hpend]
    exact List.append_nil _

/-- A timeout of 16777315 milliseconds is longer than `API_TIMEOUT_MAX` and comes down onto it. -/
theorem timeout_missed : ¬ ∀ a : IpcApi, 0 < a.daemonCountNumber → a.daemonCountNumber ≤ 2147483647 →
    a.daemonCountNumber ≠ apiTimeoutMax → ∀ tables : List (List MlistMember),
    roundsOf a.daemonCountNumber ≤ tables.length → timeoutRounds [a] tables = [] := by
  intro hall
  have hnever : NeverExpires { untimedCall with daemonCountNumber := 16777315 } := by decide
  refine timeoutRounds_neverExpires hnever _ (hall _ (by decide) (by decide) (by decide)
    (List.replicate (roundsOf 16777315) []) ?_)
  exact Nat.le_of_eq List.length_replicate.symm

end EasyIpc

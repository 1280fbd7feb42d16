import EasyIpc.Activity
import EasyIpc.Lib.Roster

/-!
# The tables of messages and APIs

`pmsg_list` and `api_list` of a member are to be sets: the messages it subscribes to and the APIs it
offers, by the requests of its process since it joined.

* `names_registerName`, `names_unregisterName` — what a request does to the names of a list.
* `TableRun` — the daemon, with the requests of each process since its latest join.
* `request_tables` — in every run in which the members keep distinct process ids, the names in the
  two lists of a member are the roster of the requests of its process, and a repeated registration
  leaves the whole table, the statistics included, as it is.
-/

namespace EasyIpc

open FirstMatch Roster Transition

variable {d d' : Daemon} {act : DaemonAct} {out : List Send}

/-! ## One list -/

/-- The names in a list. -/
def namesOf (l : List MMember) : List CStr := l.map MMember.msgName

/-- A registration adds the name to the names. -/
theorem names_registerName {name : CStr} (hlen : name.length < ipcMsgMaxSize) (l : List MMember) :
    namesOf (registerName name l) = apply id (namesOf l) (.add name) := by
  rw [namesOf, map_registerName, snprintf_of_lt hlen, apply, namesOf]
  congr

/-- An unregistration drops the name from names without repetitions. -/
theorem names_unregisterName (name : CStr) {l : List MMember} (hnd : (namesOf l).Nodup) :
    namesOf (unregisterName name l) = apply id (namesOf l) (.drop name) := by
  rw [namesOf, map_unregisterName, ← namesOf, hnd.erase_eq_filter, apply]
  refine List.filter_congr ?_
  intro n _
  simp [bne, beq_eq_decide]

/-- Where the name is not there, dropping it does nothing. -/
theorem apply_drop_of_not_mem {name : CStr} {names : List CStr} (h : name ∉ names) :
    apply id names (.drop name) = names := by
  rw [apply, List.filter_eq_self]
  intro n hn
  simp only [id_eq, decide_eq_true_eq]
  intro he
  exact h (he ▸ hn)

/-! ## The requests of a process -/

/-- The requests about one list of a process, the oldest first. -/
abbrev RequestLog := List (Request CStr CStr)

/-- The process that the packet makes a request about messages for, and the request. -/
def msgRequest : DaemonAct → Option (ℤ × Request CStr CStr)
  | .recv _ _ ⟨_, .msgRegister info⟩ => some (info.registerProcessPid, .add info.registerMsgName)
  | .recv _ _ ⟨_, .msgUnregister info⟩ => some (info.registerProcessPid, .drop info.registerMsgName)
  | _ => none

/-- The process that the packet makes a request about APIs for, and the request. -/
def apiRequest : DaemonAct → Option (ℤ × Request CStr CStr)
  | .recv _ _ ⟨_, .apiRegister info⟩ => some (info.registerProcessPid, .add info.registerMsgName)
  | .recv _ _ ⟨_, .apiUnregister info⟩ => some (info.registerProcessPid, .drop info.registerMsgName)
  | _ => none

/-- The process whose join the step accepts. -/
def acceptedJoin (d : Daemon) : DaemonAct → Option ℤ
  | .recv stale addr ⟨_, .join info⟩ =>
      if (ipcdJoin stale info addr d.mlist).1.isSome then some info.joinExitProcessPid else none
  | _ => none

/-- The histories after a step: a join starts a new one, and a request goes to that of its
process. -/
def remember (joined : Option ℤ) (request : Option (ℤ × Request CStr CStr)) (hist : ℤ → RequestLog)
    (pid : ℤ) : RequestLog :=
  if joined = some pid then []
  else
    match request with
    | some (p, r) => if p = pid then hist pid ++ [r] else hist pid
    | none => hist pid

/-- The daemon, with the requests of each process since its latest join. -/
structure TableRun where
  daemon : Daemon := {}
  msgs : ℤ → RequestLog := fun _ => []
  apis : ℤ → RequestLog := fun _ => []

/-- The daemon and the histories, from the start on. -/
def tableLts : Lts TableRun DaemonAct where
  init := {}
  step s act := (s.daemon.step act).map fun r => {
    daemon := r.1
    msgs := remember (acceptedJoin s.daemon act) (msgRequest act) s.msgs
    apis := remember (acceptedJoin s.daemon act) (apiRequest act) s.apis }

/-- The name and the process id of a request. -/
def requestOf : DaemonAct → Option RegisterInfo
  | .recv _ _ ⟨_, .msgRegister info⟩ => some info
  | .recv _ _ ⟨_, .msgUnregister info⟩ => some info
  | .recv _ _ ⟨_, .apiRegister info⟩ => some info
  | .recv _ _ ⟨_, .apiUnregister info⟩ => some info
  | _ => none

/-- The names in requests fit their fields, and the members have distinct process ids. -/
def TablesDistinct (_ : TableRun) (act : DaemonAct) (s' : TableRun) : Prop :=
  (∀ info ∈ requestOf act, info.registerMsgName.length < ipcMsgMaxSize) ∧
    (s'.daemon.mlist.map MlistMember.pid).Nodup

instance (s : TableRun) (act : DaemonAct) (s' : TableRun) : Decidable (TablesDistinct s act s') :=
  inferInstanceAs (Decidable ((∀ info ∈ requestOf act, _) ∧ _))

/-- The names in one of the lists of each member are what its process asked for. -/
def Listed (list : MlistMember → List MMember) (hist : ℤ → RequestLog) (l : List MlistMember) : Prop :=
  ∀ m ∈ l, namesOf (list m) = roster id (hist m.pid)

/-! ## One step -/

/-- The steps that can change a table or a history. -/
def touchesTables : DaemonAct → Bool
  | .recv _ _ ⟨_, .exit _⟩ => true
  | .recv _ _ ⟨_, .hangup _⟩ => true
  | .recv _ _ ⟨_, .join _⟩ => true
  | act => (requestOf act).isSome

/-- The others leave both alone. -/
theorem quiet_of_not_touches (h : touchesTables act = false) :
    acceptedJoin d act = none ∧ msgRequest act = none ∧ apiRequest act = none := by
  cases act with
  | recv stale addr pkt =>
    obtain ⟨sendPid, body⟩ := pkt
    cases body <;> first | exact ⟨rfl, rfl, rfl⟩ | cases h
  | _ => exact ⟨rfl, rfl, rfl⟩

theorem step_profile (hstep : d.step act = some (d', out)) (h : touchesTables act = false) :
    d'.mlist.map MlistMember.profile = d.mlist.map MlistMember.profile := by
  cases Daemon.step_mlist hstep with
  | kept hl => exact hl
  | registerApi stale addr sendPid info ha hl => subst ha; cases h
  | registerMsg stale addr sendPid info ha hl => subst ha; cases h
  | unregisterApi stale addr sendPid info ha hl => subst ha; cases h
  | unregisterMsg stale addr sendPid info ha hl => subst ha; cases h
  | removed stale addr sendPid info ha hl => rcases ha with rfl | rfl <;> cases h
  | joined stale addr sendPid info ha hl => subst ha; cases h

variable {l : List MlistMember} {hist : ℤ → RequestLog} {m : MlistMember} {pid : ℤ} {name : CStr}

theorem remember_request_self {r : Request CStr CStr} :
    remember none (some (pid, r)) hist pid = hist pid ++ [r] := by
  simp [remember]

theorem remember_request_of_ne {r : Request CStr CStr} {pid' : ℤ} (hne : pid' ≠ pid) :
    remember none (some (pid, r)) hist pid' = hist pid' := by
  simp [remember, Ne.symm hne]

section Listed

variable {list : MlistMember → List MMember} {p : MlistMember → Bool}
  {f : MlistMember → MlistMember} {r : Request CStr CStr}

/-- A request to the list of one process. -/
theorem Listed.request (h : Listed list hist l) (hnd : (l.map MlistMember.pid).Nodup)
    (hp : ∀ m, p m → m.pid = pid) (hpid : ∀ m, (f m).pid = m.pid)
    (hf : ∀ m ∈ l, p m → namesOf (list (f m)) = apply id (namesOf (list m)) r)
    (hother : ∀ m ∈ l, ¬ p m → m.pid = pid → apply id (namesOf (list m)) r = namesOf (list m)) :
    Listed list (remember none (some (pid, r)) hist) (modifyFirst p f l) := by
  have hone := pairwise_not_both hnd hp
  intro m hm
  rcases mem_of_mem_modifyFirst hone hm with ⟨hm, hpm⟩ | ⟨a, ha, hpa, rfl⟩
  · by_cases hpid' : m.pid = pid
    · rw [hpid', remember_request_self, roster_snoc, ← hpid', ← h m hm, hother m hm hpm hpid']
    · rw [remember_request_of_ne hpid']
      exact h m hm
  · rw [hpid, hp a hpa, remember_request_self, roster_snoc, hf a ha hpa, ← hp a hpa, ← h a ha]

/-- An update of something else. -/
theorem Listed.frame (h : Listed list hist l) (hpid : ∀ m, (f m).pid = m.pid)
    (hf : ∀ m, list (f m) = list m) : Listed list hist (modifyFirst p f l) := by
  intro m hm
  rcases eq_or_mem_of_mem_modifyFirst hm with hm | ⟨a, ha, rfl⟩
  · exact h m hm
  · rw [hf, hpid]
    exact h a ha

/-- The names without repetitions. -/
theorem Listed.nodup (h : Listed list hist l) (hm : m ∈ l) : (namesOf (list m)).Nodup := by
  rw [h m hm]
  exact nodup_roster _

/-- A registration. -/
theorem Listed.register (h : Listed list hist l) (hnd : (l.map MlistMember.pid).Nodup)
    (hlen : name.length < ipcMsgMaxSize) (hpid : ∀ m, (f m).pid = m.pid)
    (hf : ∀ m, list (f m) = registerName name (list m)) :
    Listed list (remember none (some (pid, .add name)) hist) (modifyFirst (hasPid pid) f l) := by
  refine h.request hnd (fun m hm => hasPid_iff.1 hm) hpid ?_ ?_
  · intro m _ _
    rw [hf, names_registerName hlen]
  · intro m _ hno hp
    exact absurd (hasPid_iff.2 hp) hno

/-- An unregistration: where the name is not listed there is nothing to drop. -/
theorem Listed.unregister (h : Listed list hist l) (hnd : (l.map MlistMember.pid).Nodup)
    (hpid : ∀ m, (f m).pid = m.pid) (hf : ∀ m, list (f m) = unregisterName name (list m)) :
    Listed list (remember none (some (pid, .drop name)) hist)
      (modifyFirst (fun m => hasPid pid m && listsName name (list m)) f l) := by
  refine h.request hnd ?_ hpid ?_ ?_
  · intro m hm
    rw [Bool.and_eq_true] at hm
    exact hasPid_iff.1 hm.1
  · intro m hm _
    rw [hf, names_unregisterName name (h.nodup hm)]
  · intro m _ hno hp
    refine apply_drop_of_not_mem ?_
    intro hin
    rw [Bool.and_eq_true] at hno
    exact hno ⟨hasPid_iff.2 hp, listsName_iff.2 hin⟩

/-- A join starts the history of its process, and the list of the new member is empty. -/
theorem Listed.join (h : Listed list hist l) {stale : MlistMember → MlistMember} {addr : ℕ}
    {info : JoinExitInfo} (hnew : list (newMember info addr) = [])
    (hnd : ((ipcdJoin stale info addr l).2.map MlistMember.pid).Nodup) :
    Listed list (remember (if (ipcdJoin stale info addr l).1.isSome then
      some info.joinExitProcessPid else none) none hist) (ipcdJoin stale info addr l).2 := by
  rcases ipcdJoin_cases stale info addr l with ⟨l', hsub, he⟩ | ⟨l', hsub, he⟩
  · rw [he]
    intro m hm
    exact h m (hsub.subset hm)
  · rw [he] at hnd ⊢
    intro m hm
    rcases List.mem_append.1 hm with hm' | hm'
    · have hne : info.joinExitProcessPid ≠ m.pid := by
        rw [List.map_append, List.nodup_append] at hnd
        exact (hnd.2.2 m.pid (List.mem_map_of_mem hm') info.joinExitProcessPid (by simp [newMember])).symm
      have hkept : remember (some info.joinExitProcessPid) none hist m.pid = hist m.pid := by
        simp [remember, hne]
      exact (h m (hsub.subset hm')).trans (congrArg (roster id) hkept.symm)
    · rw [List.mem_singleton.1 hm', hnew]
      have hempty : remember (some info.joinExitProcessPid) none hist info.joinExitProcessPid = [] := by
        simp [remember]
      exact congrArg (roster id) hempty.symm

end Listed

/-- A list whose names are part of the profiles. -/
theorem Listed.of_profile {list : MlistMember → List MMember} {g : Profile → List CStr}
    {l' : List MlistMember} (h : Listed list hist l) (hg : ∀ m, namesOf (list m) = g m.profile)
    (hl : l'.map MlistMember.profile = l.map MlistMember.profile) : Listed list hist l' := by
  have hk : ∀ k ∈ l.map MlistMember.profile, g k = roster id (hist k.ident.pid) := by
    rw [List.forall_mem_map]
    intro m hm
    rw [← hg]
    exact h m hm
  rw [← hl, List.forall_mem_map] at hk
  intro m hm
  rw [hg]
  exact hk m hm

/-- The members have distinct process ids, and their tables are what their processes asked for. -/
structure TableInv (d : Daemon) (msgs apis : ℤ → RequestLog) : Prop where
  pids : (d.mlist.map MlistMember.pid).Nodup
  msgs : Listed MlistMember.pmsgList msgs d.mlist
  apis : Listed MlistMember.apiList apis d.mlist

/-- **One step keeps the tables what their processes asked for.** -/
theorem TableInv.step {msgs apis : ℤ → RequestLog} (h : TableInv d msgs apis)
    (hstep : d.step act = some (d', out))
    (hlen : ∀ info ∈ requestOf act, info.registerMsgName.length < ipcMsgMaxSize)
    (hnd : (d'.mlist.map MlistMember.pid).Nodup) :
    TableInv d' (remember (acceptedJoin d act) (msgRequest act) msgs)
      (remember (acceptedJoin d act) (apiRequest act) apis) := by
  by_cases htouch : touchesTables act = false
  · obtain ⟨hjoin, hmsg, hapi⟩ := quiet_of_not_touches (d := d) htouch
    have hl := step_profile hstep htouch
    rw [hjoin, hmsg, hapi]
    exact ⟨hnd, h.msgs.of_profile (g := Profile.pmsgs) (fun _ => rfl) hl,
      h.apis.of_profile (g := Profile.apis) (fun _ => rfl) hl⟩
  · cases act with
    | recv stale addr pkt =>
      obtain ⟨sendPid, body⟩ := pkt
      cases body with
      | msgRegister info =>
        cases hstep
        refine ⟨hnd, h.msgs.register h.pids (hlen info rfl) ?_ ?_, h.apis.frame ?_ ?_⟩ <;>
          intro m <;> rfl
      | msgUnregister info =>
        cases hstep
        refine ⟨hnd, h.msgs.unregister h.pids ?_ ?_, h.apis.frame ?_ ?_⟩ <;> intro m <;> rfl
      | apiRegister info =>
        cases hstep
        refine ⟨hnd, h.msgs.frame ?_ ?_, h.apis.register h.pids (hlen info rfl) ?_ ?_⟩ <;>
          intro m <;> rfl
      | apiUnregister info =>
        cases hstep
        refine ⟨hnd, h.msgs.frame ?_ ?_, h.apis.unregister h.pids ?_ ?_⟩ <;> intro m <;> rfl
      | exit info =>
        cases hstep
        have hsub := ipcdMlistRemoveViaPid_sublist info.joinExitProcessPid d.mlist
        exact ⟨hnd, fun m hm => h.msgs m (hsub.subset hm), fun m hm => h.apis m (hsub.subset hm)⟩
      | hangup info =>
        cases hstep
        have hsub := ipcdMlistRemoveViaPid_sublist info.joinExitProcessPid d.mlist
        exact ⟨hnd, fun m hm => h.msgs m (hsub.subset hm), fun m hm => h.apis m (hsub.subset hm)⟩
      | join info =>
        have hl : d'.mlist = (ipcdJoin stale info addr d.mlist).2 := by
          have he : ipcdAnalysisCore stale addr ⟨sendPid, .join info⟩ d = (d', out) :=
            Option.some.inj hstep
          rw [← ipcdAnalysisCore_join_mlist stale addr sendPid info d, he]
        constructor
        case pids => exact hnd
        case msgs =>
          rw [hl] at hnd ⊢
          exact h.msgs.join rfl hnd
        case apis =>
          rw [hl] at hnd ⊢
          exact h.apis.join rfl hnd
      | _ => exact absurd rfl htouch
    | _ => exact absurd rfl htouch

/-! ## Runs -/

/-- The names are a set: those whose latest request was a registration, in the order in which they
came to stay. -/
structure SetOfRequests (requests : RequestLog) (names : List CStr) : Prop where
  nodup : names.Nodup
  mem : ∀ n, n ∈ names ↔ latest n requests = some (.add n)
  order : names.Pairwise (AdmittedBefore id requests)

theorem SetOfRequests.roster (requests : RequestLog) :
    SetOfRequests requests (roster id requests) where
  nodup := nodup_roster requests
  mem := fun _ => mem_roster_iff_latest
  order := pairwise_admittedBefore requests

/-- An update of the one member of a process that leaves it as it is. -/
theorem modifyFirst_hasPid_eq_self {l : List MlistMember} {m : MlistMember}
    {f : MlistMember → MlistMember} (hnd : (l.map MlistMember.pid).Nodup) (hm : m ∈ l)
    (hf : f m = m) : modifyFirst (hasPid m.pid) f l = l := by
  refine modifyFirst_eq_self ?_
  intro a ha hp
  rw [List.inj_on_of_nodup_map hnd ha hm (hasPid_iff.1 hp)]
  exact hf

/-- **The tables are sets.**  In every run in which the members keep distinct process ids and the
names in requests fit: the names of the messages, and of the APIs, of a member are the set of the
requests of its process since it joined, and a registration that repeats another leaves the daemon
as it is, the statistics included. -/
theorem request_tables {s : TableRun} (h : Reach tableLts TablesDistinct s) :
    ∀ m ∈ s.daemon.mlist, SetOfRequests (s.msgs m.pid) (namesOf m.pmsgList) ∧
      SetOfRequests (s.apis m.pid) (namesOf m.apiList) ∧
      (∀ n ∈ namesOf m.pmsgList, ∀ stale addr sendPid,
        ipcdAnalysisCore stale addr ⟨sendPid, .msgRegister ⟨m.pid, n⟩⟩ s.daemon = (s.daemon, [])) ∧
      ∀ n ∈ namesOf m.apiList, ∀ stale addr sendPid,
        ipcdAnalysisCore stale addr ⟨sendPid, .apiRegister ⟨m.pid, n⟩⟩ s.daemon =
          (s.daemon, []) := by
  have hinv : TableInv s.daemon s.msgs s.apis := by
    refine h.invariant (I := fun s => TableInv s.daemon s.msgs s.apis) ?_ ?_
    · exact ⟨List.nodup_nil, (fun m hm => by cases hm), (fun m hm => by cases hm)⟩
    · intro s act s' _ hI hst hok
      obtain ⟨⟨d', out⟩, hone, rfl⟩ := Option.map_eq_some_iff.1 hst
      exact hI.step hone hok.1 hok.2
  intro m hm
  refine ⟨?_, ?_, ?_, ?_⟩
  · rw [hinv.msgs m hm]
    exact SetOfRequests.roster _
  · rw [hinv.apis m hm]
    exact SetOfRequests.roster _
  · intro n hn stale addr sendPid
    have hsame : ipcdRegisterMsg ⟨m.pid, n⟩ s.daemon.mlist = s.daemon.mlist := by
      refine modifyFirst_hasPid_eq_self hinv.pids hm ?_
      simp only [registerName, if_pos (listsName_iff.2 hn)]
    simp only [ipcdAnalysisCore, hsame]
  · intro n hn stale addr sendPid
    have hsame : ipcdRegisterApi ⟨m.pid, n⟩ s.daemon.mlist = s.daemon.mlist := by
      refine modifyFirst_hasPid_eq_self hinv.pids hm ?_
      simp only [registerName, if_pos (listsName_iff.2 hn)]
    simp only [ipcdAnalysisCore, hsame]

/-- A process subscribes to `"m"`, `"n"` and `"m"` again, gives `"m"` up, and takes it back. -/
def requestRun : List DaemonAct :=
  [joinAs 1 [97], packetFrom 1 (.msgRegister ⟨1, [109]⟩), packetFrom 1 (.msgRegister ⟨1, [110]⟩),
    packetFrom 1 (.msgRegister ⟨1, [109]⟩), packetFrom 1 (.msgUnregister ⟨1, [109]⟩), .liveSweep,
    packetFrom 1 (.msgRegister ⟨1, [109]⟩)]

/-- After the run it has `"n"` and then `"m"`. -/
theorem request_tables_run : ∃ s, Reach tableLts TablesDistinct s ∧ ∃ m ∈ s.daemon.mlist,
    namesOf m.pmsgList = [[110], [109]] ∧
    SetOfRequests (s.msgs m.pid) (namesOf m.pmsgList) ∧
    SetOfRequests (s.apis m.pid) (namesOf m.apiList) := by
  have hany : (tableLts.runOk TablesDistinct tableLts.init requestRun).any (fun s =>
      s.daemon.mlist.any fun m => namesOf m.pmsgList == [[110], [109]]) = true := by
    decide +kernel
  obtain ⟨s, hrun, hm⟩ := (Option.any_eq_true _ _).1 hany
  obtain ⟨m, hm, hnames⟩ := List.any_eq_true.1 hm
  have hreach : Reach tableLts TablesDistinct s := Reach.runOk .init hrun
  obtain ⟨hmsgs, hapis, -⟩ := request_tables hreach m hm
  exact ⟨s, hreach, m, hm, beq_iff_eq.1 hnames, hmsgs, hapis⟩

end EasyIpc

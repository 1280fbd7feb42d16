import EasyIpc.RequestTables
import EasyIpc.Subscriptions

/-!
# The two tables of APIs

A process keeps the functions of its APIs in `api_list`, and the daemon the names in the `api_list`
of the member.  `ipc_unregister_api` takes the name out of the daemon's table and leaves the
function in the table of the process.

* `ApiRun` — a process, the packets on their way to the daemon, the daemon, and the calls of
  the process so far.
* `ApiInv` — the daemon will have the names registered since their last unregistration, and the
  process keeps all functions it has ever registered.
* `first_function_runs` — a call that is relayed to the process runs the function that was
  registered first after the last unregistration exactly if this was also the first function ever
  registered for the API; `stale_function_runs` is a run in which it was not.
-/

namespace EasyIpc

open FirstMatch Roster Transition

/-- The calls the process makes about its APIs. -/
inductive ApiTableCall where
  | registerApi (name : CStr) (fn : Option ℕ)
  | unregisterApi (name : CStr)
  deriving DecidableEq

/-- The name a call is about. -/
def ApiTableCall.name : ApiTableCall → CStr
  | .registerApi name _ => name
  | .unregisterApi name => name

/-- What a call does to the handle and what it sends. -/
def ApiTableCall.run (maxSize : ℕ) (ipc : IpcHandle) : ApiTableCall → IpcHandle × List IpcPacket
  | .registerApi name fn => ipcRegisterApi maxSize ipc (some name) fn
  | .unregisterApi name => (ipc, ipcUnregisterApi maxSize ipc (some name))

/-- The process, the packets on their way, the daemon, and the calls so far. -/
structure ApiRun where
  ipc : IpcHandle
  link : List IpcPacket := []
  daemon : Daemon
  log : List ApiTableCall := []

/-- A call of the process, the arrival of its next packet, or any step of the daemon. -/
inductive ApiAct where
  | call (c : ApiTableCall)
  | deliver (stale : MlistMember → MlistMember) (addr : ℕ)
  | daemon (act : DaemonAct)

/-- The API registrations of the process come over its link only. -/
def foreignApi (pid : ℤ) : DaemonAct → Bool
  | .recv _ _ ⟨_, .apiRegister info⟩ => info.registerProcessPid != pid
  | .recv _ _ ⟨_, .apiUnregister info⟩ => info.registerProcessPid != pid
  | _ => true

/-- One step of the process, its link and the daemon. -/
def ApiRun.step (maxSize : ℕ) (s : ApiRun) : ApiAct → Option ApiRun
  | .call c =>
      let (ipc, packets) := c.run maxSize s.ipc
      some { s with ipc, link := s.link ++ packets, log := s.log ++ [c] }
  | .deliver stale addr =>
      match s.link with
      | [] => none
      | pkt :: rest =>
          some { s with link := rest, daemon := (ipcdAnalysisCore stale addr pkt s.daemon).1 }
  | .daemon act =>
      if foreignApi s.ipc.pid act then
        (s.daemon.step act).map fun (d, _) => { s with daemon := d }
      else none

/-- The runs from a handle and a daemon on. -/
def apiLts (maxSize : ℕ) (ipc : IpcHandle) (d : Daemon) : Lts ApiRun ApiAct where
  init := { ipc, daemon := d }
  step := ApiRun.step maxSize

/-! ## What the calls ask for -/

/-- What a call asks for. -/
def ApiTableCall.request? : ApiTableCall → Option (Request (CStr × ℕ) CStr)
  | .registerApi name (some f) => some (.add (name, f))
  | .registerApi _ none => none
  | .unregisterApi name => some (.drop name)

/-- The functions asked for, under their names. -/
def fnRequests (log : List ApiTableCall) : List (Request (CStr × ℕ) CStr) :=
  log.filterMap ApiTableCall.request?

/-- The names asked for. -/
def nameRequests (log : List ApiTableCall) : RequestLog :=
  (fnRequests log).map (Request.tagged Prod.fst)

/-- The functions registered for the API since its last unregistration, in order. -/
def sinceFor (log : List ApiTableCall) (n : CStr) : List ℕ :=
  (addedSince Prod.fst n (fnRequests log)).map Prod.snd

/-- The functions ever registered for the API, in order. -/
def registeredFor (log : List ApiTableCall) (n : CStr) : List ℕ :=
  log.filterMap fun
    | .registerApi name (some f) => if name = n then some f else none
    | _ => none

/-- The functions that the process keeps for the API, in order. -/
def functionsFor (ipc : IpcHandle) (n : CStr) : List ℕ :=
  (ipc.apiList.filter fun e => e.msgName == n).map IpcApiMapMember.fn

/-- The names of the APIs of the process at the daemon, if it is a member. -/
def apisOf (pid : ℤ) (l : List MlistMember) : Option (List CStr) :=
  (ipcdGetMlistViaPid l pid).map fun m => namesOf m.apiList

/-- The request in a packet. -/
def IpcPacket.apiRequest? (pkt : IpcPacket) : Option (Request CStr CStr) :=
  match pkt.body with
  | .apiRegister info => some (.add info.registerMsgName)
  | .apiUnregister info => some (.drop info.registerMsgName)
  | _ => none

/-- The names once the packets on the link are handled. -/
def namesAfter (names : List CStr) (link : List IpcPacket) : List CStr :=
  (link.filterMap IpcPacket.apiRequest?).foldl (apply id) names

/-- The packets are API registrations of the process under names that fit. -/
def ApiLinkOk (pid : ℤ) (link : List IpcPacket) : Prop :=
  ∀ pkt ∈ link, ∃ info : RegisterInfo, info.registerProcessPid = pid ∧
    info.registerMsgName.length < ipcMsgMaxSize ∧
    (pkt.body = .apiRegister info ∨ pkt.body = .apiUnregister info)

/-! ## The packets at the daemon -/

section Daemon

variable {pid : ℤ} {l : List MlistMember} {d d' : Daemon} {names : List CStr} {info : RegisterInfo}

theorem apisOf_eq_some (h : apisOf pid l = some names) :
    ∃ m, ipcdGetMlistViaPid l pid = some m ∧ namesOf m.apiList = names := by
  obtain ⟨m, hm, rfl⟩ := Option.map_eq_some_iff.1 h
  exact ⟨m, hm, rfl⟩

theorem apisOf_eq_map (pid : ℤ) (l : List MlistMember) : apisOf pid l =
    ((ipcdGetMlistViaPid l pid).map MlistMember.apiList).map namesOf := (Option.map_map ..).symm

/-- A registration of the process. -/
theorem apisOf_ipcdRegisterApi (h : apisOf info.registerProcessPid l = some names)
    (hlen : info.registerMsgName.length < ipcMsgMaxSize) :
    apisOf info.registerProcessPid (ipcdRegisterApi info l) =
      some (apply id names (.add info.registerMsgName)) := by
  obtain ⟨m, hm, rfl⟩ := apisOf_eq_some h
  have hlist : (ipcdGetMlistViaPid (ipcdRegisterApi info l) info.registerProcessPid).map
      MlistMember.apiList = some (registerName info.registerMsgName m.apiList) :=
    lookup_registerName MlistMember.apiList (fun _ => rfl) (fun _ => rfl) hm
  rw [apisOf_eq_map, hlist, Option.map_some, names_registerName hlen]

/-- An unregistration of the process. -/
theorem apisOf_ipcdUnregisterApi (h : apisOf info.registerProcessPid l = some names)
    (hnd : names.Nodup) : apisOf info.registerProcessPid (ipcdUnregisterApi info l) =
      some (apply id names (.drop info.registerMsgName)) := by
  obtain ⟨m, hm, rfl⟩ := apisOf_eq_some h
  have hlist : (ipcdGetMlistViaPid (ipcdUnregisterApi info l) info.registerProcessPid).map
      MlistMember.apiList = some (unregisterName info.registerMsgName m.apiList) :=
    lookup_unregisterName MlistMember.apiList (fun _ => rfl) (fun _ => rfl) hm
  rw [apisOf_eq_map, hlist, Option.map_some, names_unregisterName _ hnd]

/-- **No other step touches the APIs of the process**, as long as it stays a member. -/
theorem step_apis {act : DaemonAct} {out : List Send} (h : d.step act = some (d', out))
    (hforeign : foreignApi pid act = true) (hkind : comesOrGoes act = false) :
    apisOf pid d'.mlist = apisOf pid d.mlist := by
  cases Daemon.step_mlist h with
  | kept hprofile => exact lookup_of_profile Profile.apis hprofile
  | registerMsg stale addr sendPid info ha hl =>
    rw [hl]
    refine lookup_modifyFirst_frame Profile.apis ?_
    intro m
    exact ⟨rfl, rfl⟩
  | unregisterMsg stale addr sendPid info ha hl =>
    rw [hl]
    refine lookup_modifyFirst_frame Profile.apis ?_
    intro m
    exact ⟨rfl, rfl⟩
  | registerApi stale addr sendPid info ha hl =>
    subst ha
    have hne : info.registerProcessPid ≠ pid := by simpa [foreignApi] using hforeign
    rw [hl]
    refine congrArg (Option.map _) (lookup_modifyFirst_of_ne ?_ (fun _ => ?_) hne)
    · intro m hm
      exact hasPid_iff.1 hm
    · rfl
  | unregisterApi stale addr sendPid info ha hl =>
    subst ha
    have hne : info.registerProcessPid ≠ pid := by simpa [foreignApi] using hforeign
    rw [hl]
    refine congrArg (Option.map _) (lookup_modifyFirst_of_ne ?_ (fun _ => ?_) hne)
    · intro m hm
      exact hasPid_iff.1 (Bool.and_eq_true_iff.1 hm).1
    · rfl
  | removed stale addr sendPid info ha hl => rcases ha with rfl | rfl <;> cases hkind
  | joined stale addr sendPid info ha hl => subst ha; cases hkind

end Daemon

/-! ## The calls of the process -/

section Packets

variable {maxSize : ℕ} (ipc : IpcHandle) {name : CStr}

theorem ipcRegisterApi_eq (f : ℕ) (hname : ValidName name)
    (hfits : sizeofIpcPacket + 68 < maxSize) :
    ipcRegisterApi maxSize ipc (some name) (some f) =
      ({ ipc with apiList := ipc.apiList ++ [⟨name, f⟩] },
        [⟨ipc.pid, .apiRegister ⟨ipc.pid, name⟩⟩]) := by
  simp only [ipcRegisterApi, if_neg (Nat.pos_iff_ne_zero.1 hname.1), snprintf_of_lt hname.2]
  rw [ipcDataToDaemon_of_fits ipc hfits]

theorem ipcUnregisterApi_eq (hname : ValidName name) (hfits : sizeofIpcPacket + 68 < maxSize) :
    ipcUnregisterApi maxSize ipc (some name) = if ipc.apiList.any fun e => e.msgName == name then
      [⟨ipc.pid, .apiUnregister ⟨ipc.pid, name⟩⟩] else [] := by
  simp only [ipcUnregisterApi, if_neg (Nat.pos_iff_ne_zero.1 hname.1), snprintf_of_lt hname.2]
  rw [ipcDataToDaemon_of_fits ipc hfits]

end Packets

section Calls

variable {log : List ApiTableCall} {n : CStr} {c : ApiTableCall}

theorem nameRequests_snoc {r : Request (CStr × ℕ) CStr} (h : c.request? = some r) :
    nameRequests (log ++ [c]) = nameRequests log ++ [r.tagged Prod.fst] := by
  simp [nameRequests, fnRequests, List.filterMap_append, h]

theorem fnRequests_snoc_none (h : c.request? = none) : fnRequests (log ++ [c]) = fnRequests log := by
  simp [fnRequests, List.filterMap_append, h]

theorem registeredFor_snoc (log : List ApiTableCall) (c : ApiTableCall) (n : CStr) :
    registeredFor (log ++ [c]) n = registeredFor log n ++ registeredFor [c] n :=
  List.filterMap_append

/-- A name that has been asked for has a function. -/
theorem registeredFor_ne_nil (h : .add n ∈ nameRequests log) : registeredFor log n ≠ [] := by
  obtain ⟨r, hr, hadd⟩ := List.mem_map.1 h
  obtain ⟨c, hc, hreq⟩ := List.mem_filterMap.1 hr
  cases c with
  | registerApi name fn =>
    cases fn with
    | none => cases hreq
    | some f =>
      cases hreq
      obtain rfl := Request.add.inj hadd
      refine List.ne_nil_of_mem (a := f) (List.mem_filterMap.2 ⟨_, hc, ?_⟩)
      exact if_pos rfl
  | unregisterApi name =>
    cases hreq
    cases hadd

/-- A name is at the daemon exactly if a function was registered for it since its last
unregistration. -/
theorem mem_roster_nameRequests : n ∈ roster id (nameRequests log) ↔ sinceFor log n ≠ [] := by
  rw [mem_roster_iff, nameRequests]
  simp only [id_eq]
  rw [addedSince_tagged, sinceFor]
  constructor
  · intro hmem hnil
    rw [List.map_eq_nil_iff.1 hnil] at hmem
    cases hmem
  · intro hne
    obtain ⟨x, hx⟩ := List.exists_mem_of_ne_nil _ (fun hnil => hne (List.map_eq_nil_iff.2 hnil))
    refine List.mem_map.2 ⟨x, hx, ?_⟩
    obtain ⟨r, -, hadd⟩ := List.mem_filterMap.1 hx
    cases r with
    | add a =>
      simp only [added?] at hadd
      split at hadd
      · rename_i htag
        cases hadd
        exact htag
      · cases hadd
    | drop b => cases hadd

end Calls

/-! ## Runs -/

section Runs

variable {maxSize : ℕ} {s s' : ApiRun} {act : ApiAct} {pid : ℤ}

/-- The process calls with valid names, and its member stays what it is when others come and go. -/
def ApiOk (s : ApiRun) (act : ApiAct) (s' : ApiRun) : Prop :=
  match act with
  | .call c => ValidName c.name
  | .deliver _ _ => True
  | .daemon act => comesOrGoes act →
      ipcdGetMlistViaPid s'.daemon.mlist s.ipc.pid = ipcdGetMlistViaPid s.daemon.mlist s.ipc.pid

instance (s : ApiRun) (act : ApiAct) (s' : ApiRun) : Decidable (ApiOk s act s') :=
  match act with
  | .call c => inferInstanceAs (Decidable (ValidName c.name))
  | .deliver _ _ => inferInstanceAs (Decidable True)
  | .daemon _ => inferInstanceAs (Decidable (_ → _ = _))

/-- The daemon will have the names registered since their last unregistration, and the process has
all functions ever registered. -/
structure ApiInv (s : ApiRun) : Prop where
  joined : ∃ names, apisOf s.ipc.pid s.daemon.mlist = some names ∧ names.Nodup ∧
    namesAfter names s.link = roster id (nameRequests s.log)
  link : ApiLinkOk s.ipc.pid s.link
  fns : ∀ n, functionsFor s.ipc n = registeredFor s.log n

/-- The daemon handles the next packet of the process. -/
theorem ApiInv.deliver (h : ApiInv s) {stale : MlistMember → MlistMember} {addr : ℕ}
    (hstep : s.step maxSize (.deliver stale addr) = some s') : ApiInv s' := by
  simp only [ApiRun.step] at hstep
  split at hstep
  · cases hstep
  · rename_i pkt rest hl
    cases hstep
    obtain ⟨names, happs, hnd, hafter⟩ := h.joined
    have hlink := h.link
    rw [hl] at hlink hafter
    obtain ⟨info, hpid, hlen, hbody⟩ := hlink pkt (by simp)
    have hrest : ApiLinkOk s.ipc.pid rest := fun q hq => hlink q (by simp [hq])
    obtain ⟨sendPid, body⟩ := pkt
    rw [← hpid] at happs
    rcases hbody with hb | hb
    · obtain rfl : body = .apiRegister info := hb
      have hnew := apisOf_ipcdRegisterApi happs hlen
      rw [hpid] at hnew
      exact ⟨⟨_, hnew, nodup_apply hnd _, hafter⟩, hrest, h.fns⟩
    · obtain rfl : body = .apiUnregister info := hb
      have hnew := apisOf_ipcdUnregisterApi happs hnd
      rw [hpid] at hnew
      exact ⟨⟨_, hnew, nodup_apply hnd _, hafter⟩, hrest, h.fns⟩

/-- Another step of the daemon. -/
theorem ApiInv.daemon (h : ApiInv s) {act : DaemonAct}
    (hstep : s.step maxSize (.daemon act) = some s') (hok : ApiOk s (.daemon act) s') :
    ApiInv s' := by
  simp only [ApiRun.step] at hstep
  split at hstep
  · rename_i hforeign
    obtain ⟨⟨d, out⟩, hst, rfl⟩ := Option.map_eq_some_iff.1 hstep
    have hsame : apisOf s.ipc.pid d.mlist = apisOf s.ipc.pid s.daemon.mlist := by
      cases hkind : comesOrGoes act with
      | true => exact congrArg (Option.map _) (hok hkind)
      | false => exact step_apis hst hforeign hkind
    obtain ⟨names, happs, hrest⟩ := h.joined
    exact ⟨⟨names, hsame.trans happs, hrest⟩, h.link, h.fns⟩
  · cases hstep

/-- One more packet on the link. -/
theorem namesAfter_snoc {names : List CStr} {link : List IpcPacket} {pkt : IpcPacket}
    {r : Request CStr CStr} (h : pkt.apiRequest? = some r) :
    namesAfter names (link ++ [pkt]) = apply id (namesAfter names link) r := by
  simp [namesAfter, List.filterMap_append, List.foldl_append, h]

theorem ApiLinkOk.snoc {link : List IpcPacket} (h : ApiLinkOk pid link) {name : CStr}
    (hlen : name.length < ipcMsgMaxSize) {pkt : IpcPacket}
    (hpkt : pkt.body = .apiRegister ⟨pid, name⟩ ∨ pkt.body = .apiUnregister ⟨pid, name⟩) :
    ApiLinkOk pid (link ++ [pkt]) := by
  intro q hq
  rcases List.mem_append.1 hq with hq | hq
  · exact h q hq
  · rw [List.mem_singleton.1 hq]
    exact ⟨⟨pid, name⟩, rfl, hlen, hpkt⟩

/-- The process registers a function. -/
theorem ApiInv.register (h : ApiInv s) {name : CStr} {f : ℕ} (hname : ValidName name)
    (hfits : sizeofIpcPacket + 68 < maxSize)
    (hstep : s.step maxSize (.call (.registerApi name (some f))) = some s') : ApiInv s' := by
  simp only [ApiRun.step, ApiTableCall.run, ipcRegisterApi_eq s.ipc f hname hfits] at hstep
  obtain rfl := Option.some.inj hstep
  constructor
  case joined =>
    obtain ⟨names, happs, hnd, hafter⟩ := h.joined
    refine ⟨names, happs, hnd, ?_⟩
    rw [namesAfter_snoc (r := .add name) rfl, nameRequests_snoc (r := .add (name, f)) rfl,
      roster_snoc, ← hafter]
    rfl
  case link => exact h.link.snoc hname.2 (Or.inl rfl)
  case fns =>
    intro n
    rw [registeredFor_snoc, ← h.fns n, functionsFor, functionsFor, List.filter_append,
      List.map_append]
    congr 1
    by_cases hn : name = n <;> simp [registeredFor, hn]

/-- The process unregisters an API: where it has no function for it there is nothing at the daemon
to drop. -/
theorem ApiInv.unregister (h : ApiInv s) {name : CStr} (hname : ValidName name)
    (hfits : sizeofIpcPacket + 68 < maxSize)
    (hstep : s.step maxSize (.call (.unregisterApi name)) = some s') : ApiInv s' := by
  simp only [ApiRun.step, ApiTableCall.run, ipcUnregisterApi_eq s.ipc hname hfits] at hstep
  obtain rfl := Option.some.inj hstep
  have hfns : ∀ n, functionsFor s.ipc n =
      registeredFor (s.log ++ [ApiTableCall.unregisterApi name]) n := by
    intro n
    rw [registeredFor_snoc, h.fns n]
    exact (List.append_nil _).symm
  obtain ⟨names, happs, hnd, hafter⟩ := h.joined
  by_cases hany : (s.ipc.apiList.any fun e => e.msgName == name) = true
  · rw [if_pos hany]
    refine ⟨⟨names, happs, hnd, ?_⟩, h.link.snoc hname.2 (Or.inr rfl), hfns⟩
    rw [namesAfter_snoc (r := .drop name) rfl, nameRequests_snoc (r := .drop name) rfl, roster_snoc,
      ← hafter]
    rfl
  · rw [if_neg hany, List.append_nil]
    refine ⟨⟨names, happs, hnd, ?_⟩, h.link, hfns⟩
    have hnot : name ∉ roster id (nameRequests s.log) := by
      intro hin
      obtain ⟨f, hf⟩ := List.exists_mem_of_ne_nil _ (registeredFor_ne_nil (add_mem_of_mem_roster hin))
      rw [← h.fns name, functionsFor, List.mem_map] at hf
      obtain ⟨e, he, -⟩ := hf
      rw [List.mem_filter] at he
      exact hany (List.any_eq_true.2 ⟨e, he⟩)
    rw [nameRequests_snoc (r := .drop name) rfl, roster_snoc, hafter]
    exact (apply_drop_of_not_mem hnot).symm

/-- **One step keeps the tables so.** -/
theorem ApiInv.step (h : ApiInv s) (hstep : s.step maxSize act = some s') (hok : ApiOk s act s')
    (hfits : sizeofIpcPacket + 68 < maxSize) : ApiInv s' := by
  cases act with
  | call c =>
    cases c with
    | registerApi name fn =>
      cases fn with
      | none =>
        obtain rfl := Option.some.inj hstep
        simp only [List.append_nil]
        refine ⟨?_, h.link, ?_⟩
        · simp only [nameRequests, fnRequests_snoc_none (c := .registerApi name none) rfl]
          exact h.joined
        · intro n
          rw [registeredFor_snoc, ← h.fns n]
          exact (List.append_nil _).symm
      | some f => exact h.register hok hfits hstep
    | unregisterApi name => exact h.unregister hok hfits hstep
  | deliver stale addr => exact h.deliver hstep
  | daemon act => exact h.daemon hstep hok

/-- The function that a call runs is the first that the process keeps for the name. -/
theorem map_fn_callreal (ipc : IpcHandle) (p : IpcApi) :
    (callreal ipc p).map IpcApiMapMember.fn = (functionsFor ipc p.apiName).head? := by
  rw [callreal, functionsFor, List.head?_map, List.head?_filter]

/-- **The first function runs, or a stale one.**  The handle has joined, so the packet of its join
has passed the size limit; it has no function and the daemon no API of it yet.  In every run in
which the process calls with valid names, once its packets are handled, a call that is relayed to it
runs the function registered first since the last unregistration of the API exactly if that is also
the first function ever registered for the API. -/
theorem first_function_runs {ipc : IpcHandle} {d : Daemon} {p : IpcApi} {m : MlistMember}
    (hjoined : ipcDataToDaemon maxSize ipc (.join ipc.joinExitInfo) ≠ [])
    (hnew : ipc.apiList = []) (hmember : apisOf ipc.pid d.mlist = some [])
    (h : Reach (apiLts maxSize ipc d) ApiOk s) (hlink : s.link = [])
    (hm : ipcdGetMlistViaPid s.daemon.mlist s.ipc.pid = some m)
    (hrelay : m ∈ (apiProbeScan p s.daemon.mlist).2) :
    (∃ e, callreal s.ipc p = some e ∧ (sinceFor s.log p.apiName).head? = some e.fn) ↔
      (registeredFor s.log p.apiName).head? = (sinceFor s.log p.apiName).head? := by
  have hfits : sizeofIpcPacket + 68 < maxSize := fits_of_joined ipc hjoined
  have hinv : ApiInv s := by
    refine h.invariant (I := ApiInv) ⟨⟨[], hmember, List.nodup_nil, rfl⟩, ?_, ?_⟩ ?_
    · intro pkt hpkt
      cases hpkt
    · intro n
      simp [functionsFor, apiLts, hnew, registeredFor]
    · intro s act s' _ hI hstep hok
      exact hI.step hstep hok hfits
  -- a call is relayed only under a name that the daemon has, so one has been registered since
  have hsince : sinceFor s.log p.apiName ≠ [] := by
    obtain ⟨names, happs, -, hafter⟩ := hinv.joined
    rw [hlink] at hafter
    obtain ⟨-, -, -, hlists⟩ := mem_apiProbeScan hrelay
    rw [apisOf, hm, Option.map_some, Option.some.injEq] at happs
    rw [← mem_roster_nameRequests, ← hafter, namesAfter, List.filterMap_nil, List.foldl_nil, ← happs]
    exact listsName_iff.1 hlists
  obtain ⟨f, hf⟩ := Option.isSome_iff_exists.1 (List.isSome_head?.2 hsince)
  rw [← hinv.fns, ← map_fn_callreal, hf]
  constructor
  · rintro ⟨e, he, hfn⟩
    rw [he, hfn]
    rfl
  · intro he
    obtain ⟨e, hcall, rfl⟩ := Option.map_eq_some_iff.1 he
    exact ⟨e, hcall, rfl⟩

end Runs

/-- A call of process 2 to the API of the program `"a"`. -/
def relayedCall (apiName : CStr) : IpcApi := ⟨[97], apiName, 0, 0, apiTimeoutMax, 2, []⟩

/-- Two functions for `"f"` and one for `"g"` are registered, and `"g"` is unregistered. -/
def firstRun : List ApiAct :=
  [.call (.registerApi [102] (some 7)), .call (.registerApi [103] (some 8)),
    .call (.registerApi [102] (some 9)), .call (.unregisterApi [103]), .deliver id 1, .deliver id 1,
    .daemon .liveSweep, .deliver id 1, .deliver id 1]

/-- A call to `"f"` then runs the first of its functions. -/
theorem first_function_runs_twice : ∃ s, Reach (apiLts 4096 sampleHandle sampleDaemon) ApiOk s ∧
    ∃ e, callreal s.ipc (relayedCall [102]) = some e ∧
      (sinceFor s.log (relayedCall [102]).apiName).head? = some e.fn := by
  obtain ⟨s, m, hrun, hlink, hm, hrelay, hsame⟩ : ∃ s m,
      (apiLts 4096 sampleHandle sampleDaemon).runOk ApiOk
        (apiLts 4096 sampleHandle sampleDaemon).init firstRun = some s ∧
      s.link = [] ∧ ipcdGetMlistViaPid s.daemon.mlist s.ipc.pid = some m ∧
      m ∈ (apiProbeScan (relayedCall [102]) s.daemon.mlist).2 ∧
      (registeredFor s.log [102]).head? = (sinceFor s.log [102]).head? :=
    ⟨_, _, rfl, rfl, rfl, by decide, by decide⟩
  have hreach := Reach.runOk .init hrun
  exact ⟨s, hreach, (first_function_runs (by decide) rfl rfl hreach hlink hm hrelay).2 hsame⟩

/-- `"f"` is registered, unregistered, and registered with another function. -/
def staleRun : List ApiAct :=
  [.call (.registerApi [102] (some 7)), .call (.unregisterApi [102]),
    .call (.registerApi [102] (some 9)), .deliver id 1, .deliver id 1, .deliver id 1]

/-- A call to `"f"` then runs the function that was registered before the unregistration. -/
theorem stale_function_runs : ¬ ∀ s, Reach (apiLts 4096 sampleHandle sampleDaemon) ApiOk s →
    s.link = [] → ∀ p m, ipcdGetMlistViaPid s.daemon.mlist s.ipc.pid = some m →
      m ∈ (apiProbeScan p s.daemon.mlist).2 →
      ∃ e, callreal s.ipc p = some e ∧ (sinceFor s.log p.apiName).head? = some e.fn := by
  intro hall
  obtain ⟨s, m, hrun, hlink, hm, hrelay, hcall, hsince⟩ : ∃ s m,
      (apiLts 4096 sampleHandle sampleDaemon).runOk ApiOk
        (apiLts 4096 sampleHandle sampleDaemon).init staleRun = some s ∧
      s.link = [] ∧ ipcdGetMlistViaPid s.daemon.mlist s.ipc.pid = some m ∧
      m ∈ (apiProbeScan (relayedCall [102]) s.daemon.mlist).2 ∧
      callreal s.ipc (relayedCall [102]) = some ⟨[102], 7⟩ ∧
      (sinceFor s.log [102]).head? = some 9 :=
    ⟨_, _, rfl, rfl, rfl, by decide, by decide, by decide⟩
  obtain ⟨e, he, hfn⟩ := hall s (Reach.runOk .init hrun) hlink (relayedCall [102]) m hm hrelay
  have hstale : e = ⟨[102], 7⟩ := Option.some.inj (he.symm.trans hcall)
  rw [hstale] at hfn
  exact absurd (hsince.symm.trans hfn) (by decide)

end EasyIpc

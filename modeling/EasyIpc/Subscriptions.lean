import EasyIpc.Client
import EasyIpc.Effects

/-!
# Subscriptions of a process

A process keeps one entry for each handler in `msg_list`, and the daemon one for each name in the
`pmsg_list` of the member; packets on an ordered link tell the daemon what to add and to drop.

* `heard` — what the daemon will have of a name once the packets on the link are handled.
* `step_subscriptions` — no other step of the daemon touches the subscriptions of the process.
* `subscriptions_agree` — in a run that unregisters no message with neighbouring handlers the
  daemon will have a name exactly if there is a handler for it; `subscriptions_drift` is a run
  after which the process stays deaf.
-/

namespace EasyIpc

open FirstMatch Concurrent Transition

/-- The process, the packets on their way, and the daemon. -/
structure SubRun where
  ipc : IpcHandle
  link : List IpcPacket := []
  daemon : Daemon

/-- The calls the process makes. -/
inductive SubCall where
  | registerMsg (name : CStr) (fn : Option ℕ)
  | registerMsgExt (name : CStr) (fn : Option ℕ) (usrdata : ℕ)
  | unregisterMsg (name : CStr)
  deriving DecidableEq

/-- The name a call is about. -/
def SubCall.name : SubCall → CStr
  | .registerMsg name _ => name
  | .registerMsgExt name _ _ => name
  | .unregisterMsg name => name

/-- What a call does to the handle and what it sends. -/
def SubCall.run (maxSize : ℕ) (ipc : IpcHandle) : SubCall → IpcHandle × List IpcPacket
  | .registerMsg name fn => ipcRegisterMsg maxSize ipc (some name) fn
  | .registerMsgExt name fn usrdata => ipcRegisterMsgExt maxSize ipc (some name) fn usrdata
  | .unregisterMsg name => ipcUnregisterMsg maxSize ipc (some name)

/-- A call of the process, the arrival of its next packet, or any step of the daemon. -/
inductive SubAct where
  | call (c : SubCall)
  | deliver (stale : MlistMember → MlistMember) (addr : ℕ)
  | daemon (act : DaemonAct)

/-- The registrations of the process come over its link only. -/
def foreign (pid : ℤ) : DaemonAct → Bool
  | .recv _ _ ⟨_, .msgRegister info⟩ => info.registerProcessPid != pid
  | .recv _ _ ⟨_, .msgUnregister info⟩ => info.registerProcessPid != pid
  | _ => true

/-- One step of the process, its link and the daemon. -/
def SubRun.step (maxSize : ℕ) (s : SubRun) : SubAct → Option SubRun
  | .call c =>
      let (ipc, packets) := c.run maxSize s.ipc
      some { s with ipc, link := s.link ++ packets }
  | .deliver stale addr =>
      match s.link with
      | [] => none
      | pkt :: rest =>
          some { s with link := rest, daemon := (ipcdAnalysisCore stale addr pkt s.daemon).1 }
  | .daemon act =>
      if foreign s.ipc.pid act then
        (s.daemon.step act).map fun (d, _) => { s with daemon := d }
      else none

/-- The runs from a handle and a daemon on. -/
def subLts (maxSize : ℕ) (ipc : IpcHandle) (d : Daemon) : Lts SubRun SubAct where
  init := { ipc, daemon := d }
  step := SubRun.step maxSize

/-! ## What the daemon has, and will have -/

/-- The names the member is subscribed to. -/
def MlistMember.subs (m : MlistMember) : List CStr := m.pmsgList.map MMember.msgName

/-- The subscriptions of the process, if it is a member. -/
def subsOf (pid : ℤ) (l : List MlistMember) : Option (List CStr) :=
  (ipcdGetMlistViaPid l pid).map MlistMember.subs

/-- What a packet makes of having the name or not. -/
def hear (n : CStr) (has : Bool) (pkt : IpcPacket) : Bool :=
  match pkt.body with
  | .msgRegister info => has || info.registerMsgName == n
  | .msgUnregister info => has && info.registerMsgName != n
  | _ => has

/-- What the packets on the link make of having the name or not. -/
def heard (n : CStr) (has : Bool) (link : List IpcPacket) : Bool := link.foldl (hear n) has

@[simp] theorem heard_nil (n : CStr) (has : Bool) : heard n has [] = has := rfl

@[simp] theorem heard_cons (n : CStr) (has : Bool) (pkt : IpcPacket) (link : List IpcPacket) :
    heard n has (pkt :: link) = heard n (hear n has pkt) link := rfl

theorem heard_append (n : CStr) (has : Bool) (l l' : List IpcPacket) :
    heard n has (l ++ l') = heard n (heard n has l) l' := List.foldl_append

/-- The packets are registrations of the process under names that fit. -/
def LinkOk (pid : ℤ) (link : List IpcPacket) : Prop :=
  ∀ pkt ∈ link, ∃ info : RegisterInfo, info.registerProcessPid = pid ∧
    info.registerMsgName.length < ipcMsgMaxSize ∧
    (pkt.body = .msgRegister info ∨ pkt.body = .msgUnregister info)

/-! ## The packets at the daemon -/

section Daemon

variable {pid : ℤ} {l : List MlistMember} {info : RegisterInfo} {names : List CStr}

theorem subsOf_eq_some (h : subsOf pid l = some names) :
    ∃ m, ipcdGetMlistViaPid l pid = some m ∧ m.subs = names := by
  obtain ⟨m, hm, rfl⟩ := Option.map_eq_some_iff.1 h
  exact ⟨m, hm, rfl⟩

theorem subsOf_eq_map (pid : ℤ) (l : List MlistMember) : subsOf pid l =
    ((ipcdGetMlistViaPid l pid).map MlistMember.pmsgList).map (List.map MMember.msgName) :=
  (Option.map_map ..).symm

/-- A registration of the process. -/
theorem subsOf_ipcdRegisterMsg (h : subsOf info.registerProcessPid l = some names) :
    subsOf info.registerProcessPid (ipcdRegisterMsg info l) =
      some (if info.registerMsgName ∈ names then names
        else names ++ [snprintf ipcMsgMaxSize info.registerMsgName]) := by
  obtain ⟨m, hm, rfl⟩ := subsOf_eq_some h
  have hlist : (ipcdGetMlistViaPid (ipcdRegisterMsg info l) info.registerProcessPid).map
      MlistMember.pmsgList = some (registerName info.registerMsgName m.pmsgList) :=
    lookup_registerName MlistMember.pmsgList (fun _ => rfl) (fun _ => rfl) hm
  rw [subsOf_eq_map, hlist, Option.map_some, map_registerName]
  rfl

/-- An unregistration of the process. -/
theorem subsOf_ipcdUnregisterMsg (h : subsOf info.registerProcessPid l = some names) :
    subsOf info.registerProcessPid (ipcdUnregisterMsg info l) =
      some (names.erase info.registerMsgName) := by
  obtain ⟨m, hm, rfl⟩ := subsOf_eq_some h
  have hlist : (ipcdGetMlistViaPid (ipcdUnregisterMsg info l) info.registerProcessPid).map
      MlistMember.pmsgList = some (unregisterName info.registerMsgName m.pmsgList) :=
    lookup_unregisterName MlistMember.pmsgList (fun _ => rfl) (fun _ => rfl) hm
  rw [subsOf_eq_map, hlist, Option.map_some, map_unregisterName]
  rfl

/-- A registration that is handled does to the names what it is heard as. -/
theorem hear_ipcdRegisterMsg (h : subsOf info.registerProcessPid l = some names) (hnd : names.Nodup)
    (hlen : info.registerMsgName.length < ipcMsgMaxSize) (sendPid : ℤ) :
    ∃ names', subsOf info.registerProcessPid (ipcdRegisterMsg info l) = some names' ∧ names'.Nodup ∧
      ∀ n, names'.contains n = hear n (names.contains n) ⟨sendPid, .msgRegister info⟩ := by
  refine ⟨_, subsOf_ipcdRegisterMsg h, ?_, ?_⟩
  · split
    · exact hnd
    · rename_i hin
      rw [snprintf_of_lt hlen, List.nodup_append]
      refine ⟨hnd, List.nodup_singleton _, ?_⟩
      rintro a ha b hb rfl
      exact hin (List.mem_singleton.1 hb ▸ ha)
  · intro n
    simp only [hear]
    split
    · rename_i hin
      by_cases hn : info.registerMsgName = n
      · subst hn; simp [hin]
      · simp [hn]
    · rw [snprintf_of_lt hlen, Bool.eq_iff_iff]
      simp only [List.contains_iff_mem, List.mem_append, List.mem_singleton, Bool.or_eq_true,
        beq_iff_eq]
      exact or_congr_right eq_comm

/-- So does an unregistration. -/
theorem hear_ipcdUnregisterMsg (h : subsOf info.registerProcessPid l = some names)
    (hnd : names.Nodup) (sendPid : ℤ) :
    ∃ names', subsOf info.registerProcessPid (ipcdUnregisterMsg info l) = some names' ∧
      names'.Nodup ∧
      ∀ n, names'.contains n = hear n (names.contains n) ⟨sendPid, .msgUnregister info⟩ := by
  refine ⟨_, subsOf_ipcdUnregisterMsg h, hnd.erase _, ?_⟩
  intro n
  rw [Bool.eq_iff_iff]
  simp only [hear, List.contains_iff_mem, hnd.mem_erase_iff, Bool.and_eq_true, bne_iff_ne, ne_eq]
  constructor
  · rintro ⟨hne, hin⟩
    exact ⟨hin, fun he => hne he.symm⟩
  · rintro ⟨hin, hne⟩
    exact ⟨fun he => hne he.symm, hin⟩

end Daemon

/-! ## The other steps of the daemon -/

section Others

variable {pid : ℤ} {l l' : List MlistMember} {d d' : Daemon} {act : DaemonAct} {out : List Send}

/-- The subscriptions are a matter of the profiles. -/
theorem subsOf_of_profile (h : l'.map MlistMember.profile = l.map MlistMember.profile) :
    subsOf pid l' = subsOf pid l :=
  lookup_of_profile Profile.pmsgs h

/-- A registration of another process. -/
theorem subsOf_ipcdRegisterMsg_of_ne {info : RegisterInfo} (h : info.registerProcessPid ≠ pid) :
    subsOf pid (ipcdRegisterMsg info l) = subsOf pid l := by
  refine congrArg (Option.map MlistMember.subs) (lookup_modifyFirst_of_ne ?_ (fun _ => ?_) h)
  · intro m hm
    exact hasPid_iff.1 hm
  · rfl

/-- An unregistration of another process. -/
theorem subsOf_ipcdUnregisterMsg_of_ne {info : RegisterInfo} (h : info.registerProcessPid ≠ pid) :
    subsOf pid (ipcdUnregisterMsg info l) = subsOf pid l := by
  refine congrArg (Option.map MlistMember.subs) (lookup_modifyFirst_of_ne ?_ (fun _ => ?_) h)
  · intro m hm
    exact hasPid_iff.1 (Bool.and_eq_true_iff.1 hm).1
  · rfl

/-- The packets that make members come and go. -/
def comesOrGoes : DaemonAct → Bool
  | .recv _ _ ⟨_, .join _⟩ => true
  | .recv _ _ ⟨_, .exit _⟩ => true
  | .recv _ _ ⟨_, .hangup _⟩ => true
  | _ => false

/-- **No other step touches the subscriptions of the process.** -/
theorem step_subscriptions (h : d.step act = some (d', out)) (hforeign : foreign pid act = true)
    (hkind : comesOrGoes act = false) : subsOf pid d'.mlist = subsOf pid d.mlist := by
  cases Daemon.step_mlist h with
  | kept hprofile => exact subsOf_of_profile hprofile
  | registerApi stale addr sendPid info ha hl =>
    rw [hl]
    refine lookup_modifyFirst_frame Profile.pmsgs ?_
    intro m
    exact ⟨rfl, rfl⟩
  | unregisterApi stale addr sendPid info ha hl =>
    rw [hl]
    refine lookup_modifyFirst_frame Profile.pmsgs ?_
    intro m
    exact ⟨rfl, rfl⟩
  | registerMsg stale addr sendPid info ha hl =>
    subst ha
    rw [hl]
    exact subsOf_ipcdRegisterMsg_of_ne (by simpa [foreign] using hforeign)
  | unregisterMsg stale addr sendPid info ha hl =>
    subst ha
    rw [hl]
    exact subsOf_ipcdUnregisterMsg_of_ne (by simpa [foreign] using hforeign)
  | removed stale addr sendPid info ha hl => rcases ha with rfl | rfl <;> cases hkind
  | joined stale addr sendPid info ha hl => subst ha; cases hkind

end Others

/-! ## Runs -/

section Runs

variable {maxSize : ℕ} {s s' : SubRun} {act : SubAct} {pid : ℤ}

/-- What the daemon has of the name now. -/
def SubRun.has (s : SubRun) (n : CStr) : Bool :=
  ((subsOf s.ipc.pid s.daemon.mlist).getD []).contains n

/-- What it will have once the packets on the link are handled. -/
def SubRun.willHave (s : SubRun) (n : CStr) : Bool := heard n (s.has n) s.link

/-- A name that can be registered: neither empty nor too long for its field. -/
def ValidName (n : CStr) : Prop := 0 < n.length ∧ n.length < ipcMsgMaxSize

instance : DecidablePred ValidName := fun _ => inferInstanceAs (Decidable (_ ∧ _))

/-- The process calls with valid names. -/
def NamesValid : SubAct → Prop
  | .call c => ValidName c.name
  | _ => True

instance : DecidablePred NamesValid
  | .call c => inferInstanceAs (Decidable (ValidName c.name))
  | .deliver _ _ => inferInstanceAs (Decidable True)
  | .daemon _ => inferInstanceAs (Decidable True)

/-- No message is unregistered while two neighbours in `msg_list` are handlers of it. -/
def UnregistersClean (ipc : IpcHandle) : SubAct → Prop
  | .call (.unregisterMsg name) => NoNeighbours ipc name
  | _ => True

instance (ipc : IpcHandle) : DecidablePred (UnregistersClean ipc)
  | .call (.unregisterMsg name) => inferInstanceAs (Decidable (NoNeighbours ipc name))
  | .call (.registerMsg _ _) => inferInstanceAs (Decidable True)
  | .call (.registerMsgExt _ _ _) => inferInstanceAs (Decidable True)
  | .deliver _ _ => inferInstanceAs (Decidable True)
  | .daemon _ => inferInstanceAs (Decidable True)

/-- The member of the process stays what it is when others come and go. -/
def MemberStays (s : SubRun) (act : SubAct) (s' : SubRun) : Prop :=
  match act with
  | .daemon act => comesOrGoes act →
      ipcdGetMlistViaPid s'.daemon.mlist s.ipc.pid = ipcdGetMlistViaPid s.daemon.mlist s.ipc.pid
  | _ => True

instance (s : SubRun) (act : SubAct) (s' : SubRun) : Decidable (MemberStays s act s') :=
  match act with
  | .call _ => inferInstanceAs (Decidable True)
  | .deliver _ _ => inferInstanceAs (Decidable True)
  | .daemon _ => inferInstanceAs (Decidable (_ → _ = _))

/-- The runs the agreement is about. -/
def SubFree (s : SubRun) (act : SubAct) (s' : SubRun) : Prop := NamesValid act ∧ MemberStays s act s'

instance (s : SubRun) (act : SubAct) (s' : SubRun) : Decidable (SubFree s act s') :=
  inferInstanceAs (Decidable (_ ∧ _))

/-- Those of them that unregister no message with neighbouring handlers. -/
def SubOk (s : SubRun) (act : SubAct) (s' : SubRun) : Prop :=
  SubFree s act s' ∧ UnregistersClean s.ipc act

instance (s : SubRun) (act : SubAct) (s' : SubRun) : Decidable (SubOk s act s') :=
  inferInstanceAs (Decidable (_ ∧ _))

/-- The daemon will have a name exactly if there is a handler for it. -/
structure SubInv (s : SubRun) : Prop where
  joined : ∃ names, subsOf s.ipc.pid s.daemon.mlist = some names ∧ names.Nodup
  link : LinkOk s.ipc.pid s.link
  agree : ∀ n, s.willHave n = s.ipc.names.contains n

theorem LinkOk.append {l l' : List IpcPacket} (h : LinkOk pid l) (h' : LinkOk pid l') :
    LinkOk pid (l ++ l') := by
  intro pkt hp
  rcases List.mem_append.1 hp with hp | hp
  · exact h pkt hp
  · exact h' pkt hp

/-- The daemon handles the next packet of the process. -/
theorem SubInv.deliver (h : SubInv s) {stale : MlistMember → MlistMember} {addr : ℕ}
    (hstep : s.step maxSize (.deliver stale addr) = some s') : SubInv s' := by
  simp only [SubRun.step] at hstep
  split at hstep
  · cases hstep
  · rename_i pkt rest hl
    cases hstep
    obtain ⟨names, hsubs, hnd⟩ := h.joined
    have hlink := h.link
    have hagree := h.agree
    simp only [SubRun.willHave, hl, SubRun.has, hsubs, Option.getD_some] at hagree
    rw [hl] at hlink
    obtain ⟨info, hpid, hlen, hbody⟩ := hlink pkt (by simp)
    have hrest : LinkOk s.ipc.pid rest := fun q hq => hlink q (by simp [hq])
    obtain ⟨sendPid, body⟩ := pkt
    rw [← hpid] at hsubs
    rcases hbody with hb | hb
    · obtain rfl : body = .msgRegister info := hb
      obtain ⟨names', hnew, hnd', hhear⟩ := hear_ipcdRegisterMsg hsubs hnd hlen sendPid
      rw [hpid] at hnew
      refine ⟨⟨names', hnew, hnd'⟩, hrest, ?_⟩
      intro n
      rw [← hagree n]
      show heard n (((subsOf s.ipc.pid (ipcdRegisterMsg info s.daemon.mlist)).getD []).contains n)
        rest = _
      rw [hnew]
      exact congrArg (fun b => heard n b rest) (hhear n)
    · obtain rfl : body = .msgUnregister info := hb
      obtain ⟨names', hnew, hnd', hhear⟩ := hear_ipcdUnregisterMsg hsubs hnd sendPid
      rw [hpid] at hnew
      refine ⟨⟨names', hnew, hnd'⟩, hrest, ?_⟩
      intro n
      rw [← hagree n]
      show heard n (((subsOf s.ipc.pid (ipcdUnregisterMsg info s.daemon.mlist)).getD []).contains n)
        rest = _
      rw [hnew]
      exact congrArg (fun b => heard n b rest) (hhear n)

/-- Another step of the daemon. -/
theorem SubInv.daemon (h : SubInv s) {act : DaemonAct}
    (hstep : s.step maxSize (.daemon act) = some s') (hstays : MemberStays s (.daemon act) s') :
    SubInv s' := by
  simp only [SubRun.step] at hstep
  split at hstep
  · rename_i hforeign
    obtain ⟨⟨d, out⟩, hst, rfl⟩ := Option.map_eq_some_iff.1 hstep
    have hsame : subsOf s.ipc.pid d.mlist = subsOf s.ipc.pid s.daemon.mlist := by
      cases hkind : comesOrGoes act with
      | true => exact congrArg (Option.map MlistMember.subs) (hstays hkind)
      | false => exact step_subscriptions hst hforeign hkind
    obtain ⟨names, hsubs, hnd⟩ := h.joined
    refine ⟨⟨names, hsame.trans hsubs, hnd⟩, h.link, fun n => ?_⟩
    rw [← h.agree n]
    show heard n (((subsOf s.ipc.pid d.mlist).getD []).contains n) s.link = s.willHave n
    rw [hsame]
    rfl
  · cases hstep

/-- The process registers a handler. -/
theorem SubInv.register (h : SubInv s) {name : CStr} {same : IpcMsgMapMember → Bool}
    {entry : IpcMsgMapMember} (hname : ValidName name)
    (hentry : entry.msgName = snprintf ipcMsgMaxSize name)
    (hfits : sizeofIpcPacket + 68 < maxSize) :
    SubInv { s with
      ipc := (registerHandler maxSize s.ipc name same entry).1
      link := s.link ++ (registerHandler maxSize s.ipc name same entry).2 } := by
  rcases registerHandler_cases s.ipc same entry hname.1 hfits with
    ⟨he, -⟩ | he
  · rw [he, List.append_nil]
    exact h
  · rw [he]
    have hfit : snprintf ipcMsgMaxSize name = name := snprintf_of_lt hname.2
    refine ⟨h.joined, h.link.append ?_, fun n => ?_⟩
    · intro pkt hp
      obtain rfl := List.mem_singleton.1 hp
      exact ⟨_, rfl, by rw [hfit]; exact hname.2, Or.inl rfl⟩
    · have hagree := h.agree n
      show heard n (s.has n) (s.link ++ [_]) = _
      rw [heard_append, heard_cons, heard_nil, ← SubRun.willHave, hagree, Bool.eq_iff_iff]
      simp only [hear, hfit, IpcHandle.names, List.map_append, List.map_cons, List.map_nil, hentry,
        List.contains_iff_mem, List.mem_append, List.mem_singleton, Bool.or_eq_true, beq_iff_eq]
      exact or_congr_right eq_comm

/-- After a registration the daemon will have the name. -/
theorem SubInv.willHave_register (h : SubInv s) {name : CStr} {same : IpcMsgMapMember → Bool}
    {entry : IpcMsgMapMember} (hname : ValidName name) (hfits : sizeofIpcPacket + 68 < maxSize) :
    heard name (s.has name)
      (s.link ++ (registerHandler maxSize s.ipc name same entry).2) = true := by
  rcases registerHandler_cases s.ipc same entry hname.1 hfits with
    ⟨he, hin⟩ | he
  · rw [he, List.append_nil]
    exact (h.agree name).trans (List.contains_iff_mem.2 hin)
  · rw [he, heard_append, heard_cons, heard_nil]
    simp [hear, snprintf_of_lt hname.2]

/-- After an unregistration the daemon will not have the name, and will have what it would have
had of any other. -/
theorem SubInv.willHave_unregister (h : SubInv s) {name : CStr} (hname : ValidName name)
    (hfits : sizeofIpcPacket + 68 < maxSize) (n : CStr) :
    heard n (s.has n) (s.link ++ (ipcUnregisterMsg maxSize s.ipc (some name)).2) =
      (s.willHave n && n != name) := by
  rw [ipcUnregisterMsg_packets hname.1 hfits, snprintf_of_lt hname.2]
  have hagree := h.agree n
  split
  · rw [heard_append, heard_cons, heard_nil, ← SubRun.willHave]
    simp only [hear, bne_comm]
  · rename_i hno
    rw [List.append_nil, ← SubRun.willHave, hagree, Bool.eq_iff_iff]
    simp only [List.contains_iff_mem, Bool.and_eq_true, bne_iff_ne, ne_eq, iff_self_and]
    rintro hin rfl
    exact hno hin

/-- The two tables agree after an unregistration exactly if no two handlers of the name were
neighbours. -/
theorem SubInv.unregister_iff (h : SubInv s) {name : CStr} (hname : ValidName name)
    (hfits : sizeofIpcPacket + 68 < maxSize) :
    (∀ n, heard n (s.has n) (s.link ++ (ipcUnregisterMsg maxSize s.ipc (some name)).2) =
      (ipcUnregisterMsg maxSize s.ipc (some name)).1.names.contains n) ↔
      NoNeighbours s.ipc name := by
  rw [← not_mem_names_ipcUnregisterMsg_iff maxSize hname.1]
  constructor
  · intro hall hin
    have hcontains := hall name
    rw [h.willHave_unregister hname hfits, List.contains_iff_mem.2 hin] at hcontains
    simp at hcontains
  · intro hno n
    rw [h.willHave_unregister hname hfits, h.agree n, Bool.eq_iff_iff]
    simp only [Bool.and_eq_true, List.contains_iff_mem, bne_iff_ne, ne_eq]
    by_cases hn : n = name
    · subst hn
      exact ⟨fun hc => absurd rfl hc.2, fun hc => absurd hc hno⟩
    · rw [mem_names_ipcUnregisterMsg_of_ne hn]
      exact and_iff_left hn

/-- A call of the process. -/
theorem SubInv.call (h : SubInv s) {c : SubCall} (hstep : s.step maxSize (.call c) = some s')
    (hname : ValidName c.name) (hclean : UnregistersClean s.ipc (.call c))
    (hfits : sizeofIpcPacket + 68 < maxSize) : SubInv s' := by
  obtain rfl := Option.some.inj hstep
  cases c with
  | registerMsg name fn =>
    cases fn with
    | none => simpa [SubCall.run, ipcRegisterMsg] using h
    | some f => exact h.register hname rfl hfits
  | registerMsgExt name fn usrdata =>
    cases fn with
    | none => simpa [SubCall.run, ipcRegisterMsgExt] using h
    | some f => exact h.register hname rfl hfits
  | unregisterMsg name =>
    replace hname : ValidName name := hname
    have hpid : (ipcUnregisterMsg maxSize s.ipc (some name)).1.pid = s.ipc.pid := by
      simp only [ipcUnregisterMsg]
      split <;> rfl
    have hagree := (h.unregister_iff hname hfits).2 hclean
    refine ⟨?_, ?_, fun n => ?_⟩
    · show ∃ names, subsOf (ipcUnregisterMsg maxSize s.ipc (some name)).1.pid s.daemon.mlist =
        some names ∧ names.Nodup
      rw [hpid]
      exact h.joined
    · show LinkOk (ipcUnregisterMsg maxSize s.ipc (some name)).1.pid
        (s.link ++ (ipcUnregisterMsg maxSize s.ipc (some name)).2)
      rw [hpid, ipcUnregisterMsg_packets hname.1 hfits]
      refine h.link.append ?_
      split
      · intro pkt hp
        obtain rfl := List.mem_singleton.1 hp
        exact ⟨_, rfl, length_snprintf_lt (by decide) _, Or.inr rfl⟩
      · intro pkt hp
        cases hp
    · rw [← show heard n (s.has n) (s.link ++ (ipcUnregisterMsg maxSize s.ipc (some name)).2) =
          (ipcUnregisterMsg maxSize s.ipc (some name)).1.names.contains n from hagree n]
      show heard n (((subsOf (ipcUnregisterMsg maxSize s.ipc (some name)).1.pid
        s.daemon.mlist).getD []).contains n) _ = _
      rw [hpid]
      rfl

/-- One step keeps the tables in agreement. -/
theorem SubInv.step (h : SubInv s) (hstep : s.step maxSize act = some s') (hok : SubOk s act s')
    (hfits : sizeofIpcPacket + 68 < maxSize) : SubInv s' := by
  cases act with
  | call c => exact h.call hstep hok.1.1 hok.2 hfits
  | deliver stale addr => exact h.deliver hstep
  | daemon act => exact h.daemon hstep hok.1.2

/-- **The tables of the process and of the daemon agree.**  The handle has joined, so the packet
of its join has passed the size limit; it has no handler and the daemon no subscription of it yet.
In a run that unregisters no message while two neighbours in `msg_list` are handlers of it:
once the link is empty the daemon has a name exactly if there is a handler for it; registering a
handler leaves the daemon subscribed; and the condition is needed, for unregistering a message
with neighbouring handlers makes the tables differ. -/
theorem subscriptions_agree {ipc : IpcHandle} {d : Daemon}
    (hjoined : ipcDataToDaemon maxSize ipc (.join ipc.joinExitInfo) ≠ [])
    (hnew : ipc.msgList = []) (hmember : subsOf ipc.pid d.mlist = some [])
    (h : Reach (subLts maxSize ipc d) SubOk s) :
    (s.link = [] → ∃ m, ipcdGetMlistViaPid s.daemon.mlist s.ipc.pid = some m ∧
      ∀ n, n ∈ m.pmsgList.map MMember.msgName ↔ ∃ e ∈ s.ipc.msgList, e.msgName = n) ∧
    (∀ n f, ValidName n → heard n (s.has n)
      (s.link ++ (ipcRegisterMsg maxSize s.ipc (some n) (some f)).2) = true) ∧
    ∀ name, ValidName name →
      ((∀ n, heard n (s.has n) (s.link ++ (ipcUnregisterMsg maxSize s.ipc (some name)).2) =
        (ipcUnregisterMsg maxSize s.ipc (some name)).1.names.contains n) ↔
      NoNeighbours s.ipc name) := by
  have hfits : sizeofIpcPacket + 68 < maxSize := fits_of_joined ipc hjoined
  have hinv : SubInv s := by
    refine h.invariant (I := SubInv) ⟨⟨[], hmember, List.nodup_nil⟩, by simp [LinkOk, subLts], ?_⟩ ?_
    · intro n
      show heard n (((subsOf ipc.pid d.mlist).getD []).contains n) [] = ipc.names.contains n
      rw [hmember, IpcHandle.names, hnew]
      rfl
    · intro s act s' _ hI hstep hok
      exact hI.step hstep hok hfits
  refine ⟨fun hlink => ?_, fun n f hname => ?_, fun name hname => hinv.unregister_iff hname hfits⟩
  · obtain ⟨names, hsubs, -⟩ := hinv.joined
    obtain ⟨m, hm, rfl⟩ := subsOf_eq_some hsubs
    refine ⟨m, hm, fun n => ?_⟩
    have hagree := hinv.agree n
    rw [SubRun.willHave, hlink, heard_nil, SubRun.has, hsubs, Bool.eq_iff_iff] at hagree
    simpa [List.contains_iff_mem, IpcHandle.names, MlistMember.subs] using hagree
  · exact hinv.willHave_register hname hfits

end Runs

/-- A handle that has just joined as `"a"`. -/
def sampleHandle : IpcHandle := { pid := 1, aliasName := [97], msgRecvPort := 10, apiRecvPort := 11 }

/-- The daemon after this join. -/
def sampleDaemon : Daemon := { mlist := [newMember sampleHandle.joinExitInfo 1] }

/-- Two handlers of `"m"` and one of `"n"` between them are registered, and `"m"` is
unregistered. -/
def cleanRun : List SubAct :=
  [.call (.registerMsg [109] (some 7)), .call (.registerMsg [110] (some 8)),
    .call (.registerMsg [109] (some 9)), .call (.unregisterMsg [109]), .deliver id 1,
    .deliver id 1, .daemon .liveSweep, .deliver id 1, .deliver id 1]

/-- After the run the daemon has the other name only. -/
theorem subscriptions_agree_clean : ∃ s, Reach (subLts 4096 sampleHandle sampleDaemon) SubOk s ∧
    s.link = [] ∧ s.has [110] = true ∧
    ∃ m, ipcdGetMlistViaPid s.daemon.mlist s.ipc.pid = some m ∧
      ∀ n, n ∈ m.pmsgList.map MMember.msgName ↔ ∃ e ∈ s.ipc.msgList, e.msgName = n := by
  obtain ⟨s, hrun, hlink, hhas⟩ : ∃ s,
      (subLts 4096 sampleHandle sampleDaemon).runOk SubOk
        (subLts 4096 sampleHandle sampleDaemon).init cleanRun = some s ∧
      s.link = [] ∧ s.has [110] = true := ⟨_, rfl, rfl, by decide⟩
  have hreach := Reach.runOk .init hrun
  exact ⟨s, hreach, hlink, hhas, (subscriptions_agree (by decide) rfl rfl hreach).1 hlink⟩

/-- Two handlers of `"m"` are registered and `"m"` is unregistered: the second handler stays, and
registering it once more tells the daemon nothing. -/
def deafRun : List SubAct :=
  [.call (.registerMsg [109] (some 7)), .call (.registerMsg [109] (some 8)),
    .call (.unregisterMsg [109]), .call (.registerMsg [109] (some 8)), .deliver id 1, .deliver id 1,
    .deliver id 1]

/-- After the run there is a handler for `"m"`, and the daemon does not know. -/
theorem subscriptions_drift :
    ¬ ∀ s, Reach (subLts 4096 sampleHandle sampleDaemon) SubFree s → s.link = [] →
      ∀ n, ValidName n → (s.has n = true ↔ ∃ e ∈ s.ipc.msgList, e.msgName = n) := by
  intro hall
  obtain ⟨s, hrun, hlink, hno, hhandler⟩ : ∃ s,
      (subLts 4096 sampleHandle sampleDaemon).runOk SubFree
        (subLts 4096 sampleHandle sampleDaemon).init deafRun = some s ∧
      s.link = [] ∧ s.has [109] = false ∧ ∃ e ∈ s.ipc.msgList, e.msgName = [109] :=
    ⟨_, rfl, rfl, by decide, by decide⟩
  have hhas := (hall s (Reach.runOk .init hrun) hlink [109] (by decide)).2 hhandler
  exact absurd (hno.symm.trans hhas) (by decide)

end EasyIpc

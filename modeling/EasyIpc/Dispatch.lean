import EasyIpc.Lib.Roster
import EasyIpc.Subscriptions

/-!
# Dispatching a message

`ipc_msg_recv_probe` runs the handlers of a message that has come in: those of its name, and if
there is none the first one for `"*"`.

* `HandlerRun` — a handle, and the calls made on it so far; `handlersFor` is what these calls say
  should be run.
* `dispatched` — the three ways through the dispatcher.
* `slots_step` — the entries of `msg_list` are the roster of the calls, as long as no message is
  unregistered with neighbouring handlers.
* `handlers_run` — then the dispatcher runs what it should, unless the message comes to a handler
  for `"*"` that was registered with `ipc_register_msg_ext`: that one is run through the wrong
  pointer.
* `called_as_registered` — in every run, this is the only way to call a null pointer.
-/

namespace EasyIpc

open FirstMatch Roster Transition

/-! ## The dispatcher -/

/-- What the dispatcher does, one thing after the other. -/
inductive DispatchAct where
  /-- `ipc_msg_runtime_start_record`. -/
  | startRecord (mname : CStr)
  /-- `imm->fun(..)`. -/
  | fn (f : Option ℕ) (mname : CStr) (data : List UInt8)
  /-- `imm->fun_ext(..)`. -/
  | fnExt (f : Option ℕ) (mname : CStr) (data : List UInt8) (usrdata : ℕ)
  /-- `ipc_msg_runtime_end_record`. -/
  | endRecord (mname : CStr)
  deriving DecidableEq, Repr

/-- The body of the first loop, for an entry of the name. -/
def runEntry (im : IpcMsg) (imm : IpcMsgMapMember) : List DispatchAct :=
  [.startRecord im.msgName] ++
    (match imm.fn, imm.fnExt with
      | some f, _ => [.fn (some f) im.msgName im.data]
      | none, some f => [.fnExt (some f) im.msgName im.data imm.usrdata]
      | none, none => []) ++
    [.endRecord im.msgName]

/-- The body of the second loop, for the first entry for `"*"`. -/
def runAny (im : IpcMsg) (imm : IpcMsgMapMember) : List DispatchAct :=
  [.startRecord im.msgName, .fn imm.fn im.msgName im.data, .endRecord im.msgName]

/-- `ipc_msg_recv_probe` for the message `im` it has taken off the queue. -/
def ipcMsgRecvProbe (msgList : List IpcMsgMapMember) (im : IpcMsg) : List DispatchAct :=
  let normal := msgList.filter fun imm => imm.msgName == im.msgName
  if normal.isEmpty then
    match msgList.find? fun imm => imm.msgName == anyName with
    | some imm => runAny im imm
    | none => []
  else normal.flatMap (runEntry im)

/-- The message comes to a handler for `"*"` that has no `fun`. -/
def ComesToExt (msgList : List IpcMsgMapMember) (n : CStr) : Prop :=
  (∀ e ∈ msgList, e.msgName ≠ n) ∧
    ∃ e ∈ msgList.find? fun e => e.msgName == anyName, e.fn = none

instance (msgList : List IpcMsgMapMember) (n : CStr) : Decidable (ComesToExt msgList n) :=
  inferInstanceAs (Decidable (_ ∧ ∃ e ∈ msgList.find? _, _))

/-- The three ways through the dispatcher. -/
inductive Dispatched (msgList : List IpcMsgMapMember) (im : IpcMsg) : List DispatchAct → Prop
  /-- The first loop runs every entry of the name. -/
  | direct (hsome : (msgList.filter fun imm => imm.msgName == im.msgName) ≠ [])
      (hno : ¬ ComesToExt msgList im.msgName) : Dispatched msgList im
        ((msgList.filter fun imm => imm.msgName == im.msgName).flatMap (runEntry im))
  /-- There is no entry of the name, and none for `"*"`. -/
  | nobody (hnone : (msgList.filter fun imm => imm.msgName == im.msgName) = [])
      (hany : (msgList.find? fun imm => imm.msgName == anyName) = none)
      (hno : ¬ ComesToExt msgList im.msgName) : Dispatched msgList im []
  /-- There is no entry of the name, and the second loop runs the first for `"*"`. -/
  | any (imm : IpcMsgMapMember) (hnone : (msgList.filter fun imm => imm.msgName == im.msgName) = [])
      (hany : (msgList.find? fun imm => imm.msgName == anyName) = some imm)
      (hext : ComesToExt msgList im.msgName ↔ imm.fn = none) : Dispatched msgList im (runAny im imm)

theorem filter_name_eq_nil_iff {msgList : List IpcMsgMapMember} {n : CStr} :
    (msgList.filter fun imm => imm.msgName == n) = [] ↔ ∀ e ∈ msgList, e.msgName ≠ n := by
  rw [List.filter_eq_nil_iff]
  simp only [beq_iff_eq, ne_eq]

theorem dispatched (msgList : List IpcMsgMapMember) (im : IpcMsg) :
    Dispatched msgList im (ipcMsgRecvProbe msgList im) := by
  unfold ipcMsgRecvProbe
  by_cases hnone : (msgList.filter fun imm => imm.msgName == im.msgName) = []
  · simp only [hnone, List.isEmpty_nil, if_true]
    cases hany : msgList.find? fun imm => imm.msgName == anyName with
    | none =>
      refine .nobody hnone hany ?_
      rintro ⟨-, e, he, -⟩
      rw [hany] at he
      cases he
    | some imm =>
      refine .any imm hnone hany ?_
      constructor
      · rintro ⟨-, e, he, hfn⟩
        rw [hany] at he
        cases he
        exact hfn
      · intro hfn
        exact ⟨filter_name_eq_nil_iff.1 hnone, imm, hany, hfn⟩
  · simp only [List.isEmpty_eq_false_iff.2 hnone]
    exact .direct hnone fun hcomes => hnone (filter_name_eq_nil_iff.2 hcomes.1)

/-! ## Handlers -/

/-- A handler: a function and the call that registered it. -/
inductive Handler where
  | plain (f : ℕ)
  | ext (f : ℕ)
  deriving DecidableEq, Repr

/-- The handler in an entry. -/
def IpcMsgMapMember.handler? (e : IpcMsgMapMember) : Option Handler :=
  match e.fn, e.fnExt with
  | some f, _ => some (.plain f)
  | none, some f => some (.ext f)
  | none, none => none

/-- The handlers that are run; `none` is a null pointer. -/
def handlersRun (acts : List DispatchAct) : List (Option Handler) :=
  acts.filterMap fun
    | .fn f _ _ => some (f.map .plain)
    | .fnExt f _ _ _ => some (f.map .ext)
    | _ => none

theorem handlersRun_append (acts acts' : List DispatchAct) :
    handlersRun (acts ++ acts') = handlersRun acts ++ handlersRun acts' := List.filterMap_append

/-- A handle, and the calls made on it. -/
structure HandlerRun where
  ipc : IpcHandle
  log : List SubCall := []

/-- The runs from a handle on. -/
def handlerLts (maxSize : ℕ) (ipc : IpcHandle) : Lts HandlerRun SubCall where
  init := { ipc }
  step s c := some ⟨(c.run maxSize s.ipc).1, s.log ++ [c]⟩

/-- What the call asks of the handlers. -/
def SubCall.request? : SubCall → Option (Request (CStr × Handler) CStr)
  | .registerMsg name (some f) => some (.add (name, .plain f))
  | .registerMsgExt name (some f) _ => some (.add (name, .ext f))
  | .unregisterMsg name => some (.drop name)
  | _ => none

/-- The requests that the calls make. -/
def requests (log : List SubCall) : List (Request (CStr × Handler) CStr) :=
  log.filterMap SubCall.request?

/-- The distinct handlers registered for the name since its last unregistration, in the order in
which they were first registered. -/
def handlersSince (log : List SubCall) (n : CStr) : List Handler :=
  (distinctSince Prod.fst n (requests log)).map Prod.snd

/-- The handlers that a message of the name is to run. -/
def handlersFor (log : List SubCall) (n : CStr) : List Handler :=
  if handlersSince log n = [] then (handlersSince log anyName).head?.toList
  else handlersSince log n

/-! ## Where the entries come from -/

section Runs

variable {maxSize : ℕ} {ipc₀ : IpcHandle} {s s' : HandlerRun} {c : SubCall} {im : IpcMsg}
  {e : IpcMsgMapMember}

/-- One of the calls registered the entry. -/
def RegisteredBy (log : List SubCall) (e : IpcMsgMapMember) : Prop :=
  (∃ name f, SubCall.registerMsg name (some f) ∈ log ∧
    e = ⟨snprintf ipcMsgMaxSize name, some f, none, 0⟩) ∨
  ∃ name f usrdata, SubCall.registerMsgExt name (some f) usrdata ∈ log ∧
    e = ⟨snprintf ipcMsgMaxSize name, none, some f, usrdata⟩

theorem RegisteredBy.mono {log log' : List SubCall} (h : RegisteredBy log e)
    (hsub : ∀ c ∈ log, c ∈ log') : RegisteredBy log' e := by
  rcases h with ⟨name, f, hmem, he⟩ | ⟨name, f, usrdata, hmem, he⟩
  · exact Or.inl ⟨name, f, hsub _ hmem, he⟩
  · exact Or.inr ⟨name, f, usrdata, hsub _ hmem, he⟩

/-- A registration adds its own entry at most. -/
theorem mem_registerHandler {ipc : IpcHandle} {name : CStr} {same : IpcMsgMapMember → Bool}
    {entry : IpcMsgMapMember} (h : e ∈ (registerHandler maxSize ipc name same entry).1.msgList) :
    e ∈ ipc.msgList ∨ e = entry := by
  unfold registerHandler at h
  split at h
  · exact Or.inl h
  · split at h
    · exact Or.inl h
    · rcases List.mem_append.1 h with h | h
      · exact Or.inl h
      · exact Or.inr (List.mem_singleton.1 h)

/-- An unregistration adds none. -/
theorem mem_ipcUnregisterMsg {ipc : IpcHandle} {name : CStr}
    (h : e ∈ (ipcUnregisterMsg maxSize ipc (some name)).1.msgList) : e ∈ ipc.msgList := by
  rcases Nat.eq_zero_or_pos name.length with hzero | hpos
  · simp only [ipcUnregisterMsg, if_pos hzero] at h
    exact h
  · rw [msgList_ipcUnregisterMsg maxSize ipc hpos] at h
    exact (dropSkip_sublist ipc.msgList).subset h

/-- Every entry was registered, whatever calls are made. -/
theorem registeredBy_step (h : ∀ e ∈ s.ipc.msgList, RegisteredBy s.log e) (c : SubCall) :
    ∀ e ∈ (c.run maxSize s.ipc).1.msgList, RegisteredBy (s.log ++ [c]) e := by
  have hold : ∀ e ∈ s.ipc.msgList, RegisteredBy (s.log ++ [c]) e := fun e he =>
    (h e he).mono fun x hx => List.mem_append_left [c] hx
  intro e he
  cases c with
  | registerMsg name fn =>
    cases fn with
    | none => exact hold e he
    | some f =>
      rcases mem_registerHandler he with he | rfl
      · exact hold e he
      · exact Or.inl ⟨name, f, by simp, rfl⟩
  | registerMsgExt name fn usrdata =>
    cases fn with
    | none => exact hold e he
    | some f =>
      rcases mem_registerHandler he with he | rfl
      · exact hold e he
      · exact Or.inr ⟨name, f, usrdata, by simp, rfl⟩
  | unregisterMsg name => exact hold e (mem_ipcUnregisterMsg he)

theorem registeredBy_of_reach {ok : HandlerRun → SubCall → HandlerRun → Prop}
    (hnew : ipc₀.msgList = []) (h : Reach (handlerLts maxSize ipc₀) ok s) :
    ∀ e ∈ s.ipc.msgList, RegisteredBy s.log e := by
  refine h.invariant (I := fun s => ∀ e ∈ s.ipc.msgList, RegisteredBy s.log e) ?_ ?_
  · intro e he
    simp [handlerLts, hnew] at he
  · intro s c s' _ hI hstep _
    obtain rfl := Option.some.inj hstep
    exact registeredBy_step hI c

/-! ## Null pointers -/

/-- A handler is called as it was registered: through a pointer that is not null, with the
arguments of its kind, and for its name. -/
def CalledAsRegistered (log : List SubCall) (im : IpcMsg) : DispatchAct → Prop
  | .fn f mname data => mname = im.msgName ∧ data = im.data ∧
      ∃ name g, f = some g ∧ SubCall.registerMsg name (some g) ∈ log ∧
        (snprintf ipcMsgMaxSize name = im.msgName ∨ snprintf ipcMsgMaxSize name = anyName)
  | .fnExt f mname data usrdata => mname = im.msgName ∧ data = im.data ∧
      ∃ name g, f = some g ∧ SubCall.registerMsgExt name (some g) usrdata ∈ log ∧
        (snprintf ipcMsgMaxSize name = im.msgName ∨ snprintf ipcMsgMaxSize name = anyName)
  | _ => True

/-- The first loop calls every handler as it was registered. -/
theorem called_runEntry {log : List SubCall} (he : RegisteredBy log e)
    (hname : e.msgName = im.msgName) : ∀ a ∈ runEntry im e, CalledAsRegistered log im a := by
  intro a ha
  rcases he with ⟨name, f, hmem, rfl⟩ | ⟨name, f, usrdata, hmem, rfl⟩
  · simp only [runEntry, List.cons_append, List.nil_append, List.mem_cons, List.not_mem_nil,
      or_false] at ha
    rcases ha with rfl | rfl | rfl
    · trivial
    · exact ⟨rfl, rfl, name, f, rfl, hmem, Or.inl hname⟩
    · trivial
  · simp only [runEntry, List.cons_append, List.nil_append, List.mem_cons, List.not_mem_nil,
      or_false] at ha
    rcases ha with rfl | rfl | rfl
    · trivial
    · exact ⟨rfl, rfl, name, f, rfl, hmem, Or.inl hname⟩
    · trivial

/-- The second loop does so exactly if the entry has a `fun`. -/
theorem called_runAny_iff {log : List SubCall} (he : RegisteredBy log e)
    (hname : e.msgName = anyName) :
    (∀ a ∈ runAny im e, CalledAsRegistered log im a) ↔ e.fn ≠ none := by
  constructor
  · intro hall hnone
    obtain ⟨-, -, name, g, hg, -⟩ := hall (.fn e.fn im.msgName im.data) (by simp [runAny])
    rw [hnone] at hg
    cases hg
  · intro hsome a ha
    rcases he with ⟨name, f, hmem, rfl⟩ | ⟨name, f, usrdata, hmem, rfl⟩
    · simp only [runAny, List.mem_cons, List.not_mem_nil, or_false] at ha
      rcases ha with rfl | rfl | rfl
      · trivial
      · exact ⟨rfl, rfl, name, f, rfl, hmem, Or.inr hname⟩
      · trivial
    · exact absurd rfl hsome

/-- **Every handler is called as it was registered, unless the message comes to a handler for `"*"`
of the other kind**, after any calls on the handle and for any message. -/
theorem called_as_registered (hnew : ipc₀.msgList = [])
    (h : Reach (handlerLts maxSize ipc₀) Free s) (im : IpcMsg) :
    (∀ a ∈ ipcMsgRecvProbe s.ipc.msgList im, CalledAsRegistered s.log im a) ↔
      ¬ ComesToExt s.ipc.msgList im.msgName := by
  have hreg := registeredBy_of_reach hnew h
  have hpath := dispatched s.ipc.msgList im
  generalize ipcMsgRecvProbe s.ipc.msgList im = acts at hpath ⊢
  cases hpath with
  | direct hsome hno =>
    refine iff_of_true ?_ hno
    intro a ha
    obtain ⟨e, he, ha⟩ := List.mem_flatMap.1 ha
    obtain ⟨he, hname⟩ := List.mem_filter.1 he
    exact called_runEntry (hreg e he) (by simpa using hname) a ha
  | nobody hnone hany hno =>
    refine iff_of_true ?_ hno
    intro a ha
    cases ha
  | any imm hnone hany hext =>
    have hname : imm.msgName = anyName := by simpa using List.find?_some hany
    rw [hext]
    exact called_runAny_iff (hreg imm (List.mem_of_find?_eq_some hany)) hname

end Runs

/-- A message of the name, with two bytes of data. -/
def sampleMsg (n : CStr) : IpcMsg := ⟨n, [98], 2, [1, 2]⟩

/-- Handlers of both kinds for `"m"`, and one for `"*"`. -/
def bothKinds : List SubCall :=
  [.registerMsg [109] (some 7), .registerMsgExt [109] (some 8) 3, .registerMsg anyName (some 5)]

/-- They are called as they were registered, and `"x"` comes to the one for `"*"`. -/
theorem called_as_registered_both : ∃ s, Reach (handlerLts 4096 sampleHandle) Free s ∧
    s.log = bothKinds ∧
    (∀ a ∈ ipcMsgRecvProbe s.ipc.msgList (sampleMsg [109]),
      CalledAsRegistered s.log (sampleMsg [109]) a) ∧
    ∀ a ∈ ipcMsgRecvProbe s.ipc.msgList (sampleMsg [120]),
      CalledAsRegistered s.log (sampleMsg [120]) a := by
  obtain ⟨s, hrun, hlog, hm, hx⟩ : ∃ s,
      (handlerLts 4096 sampleHandle).run (handlerLts 4096 sampleHandle).init bothKinds = some s ∧
      s.log = bothKinds ∧ ¬ ComesToExt s.ipc.msgList [109] ∧ ¬ ComesToExt s.ipc.msgList [120] :=
    ⟨_, rfl, by decide, by decide, by decide⟩
  have hreach : Reach (handlerLts 4096 sampleHandle) Free s := Reach.of_run hrun
  exact ⟨s, hreach, hlog, (called_as_registered rfl hreach (sampleMsg [109])).2 hm,
    (called_as_registered rfl hreach (sampleMsg [120])).2 hx⟩

/-- A handler for `"*"` with user data, and a message that no other handler is for: the dispatcher
calls a null pointer. -/
theorem called_null : ¬ ∀ s, Reach (handlerLts 4096 sampleHandle) Free s → ∀ im : IpcMsg,
    ∀ a ∈ ipcMsgRecvProbe s.ipc.msgList im, CalledAsRegistered s.log im a := by
  intro hall
  obtain ⟨s, hrun, hnull⟩ : ∃ s,
      (handlerLts 4096 sampleHandle).run (handlerLts 4096 sampleHandle).init
        [.registerMsgExt anyName (some 5) 3] = some s ∧
      DispatchAct.fn none [109] [1, 2] ∈ ipcMsgRecvProbe s.ipc.msgList (sampleMsg [109]) :=
    ⟨_, rfl, by decide⟩
  obtain ⟨-, -, name, g, hg, -⟩ := hall s (Reach.of_run hrun) (sampleMsg [109]) _ hnull
  cases hg

section Runs

variable {maxSize : ℕ} {ipc₀ : IpcHandle} {s s' : HandlerRun} {im : IpcMsg} {e : IpcMsgMapMember}

/-! ## The entries as a roster -/

/-- The name and the handler of an entry. -/
def slot (e : IpcMsgMapMember) : CStr × Option Handler := (e.msgName, e.handler?)

/-- The entries are the names and handlers, in their order. -/
def Slots (msgList : List IpcMsgMapMember) (l : List (CStr × Handler)) : Prop :=
  msgList.map slot = l.map fun x => (x.1, some x.2)

/-- An entry has one function only. -/
theorem RegisteredBy.handler_iff {log : List SubCall} (h : RegisteredBy log e) (f : ℕ) :
    (e.fn = some f ↔ e.handler? = some (.plain f)) ∧
      (e.fnExt = some f ↔ e.handler? = some (.ext f)) := by
  rcases h with ⟨name, g, -, rfl⟩ | ⟨name, g, usrdata, -, rfl⟩ <;>
    simp [IpcMsgMapMember.handler?]

variable {l : List (CStr × Handler)} {msgList : List IpcMsgMapMember} {name n : CStr}
  {hd : Handler}

theorem Slots.mem_iff (h : Slots msgList l) :
    (name, hd) ∈ l ↔ ∃ e ∈ msgList, e.msgName = name ∧ e.handler? = some hd := by
  have hslot : (name, some hd) ∈ msgList.map slot ↔ (name, hd) ∈ l := by
    rw [h, List.mem_map]
    constructor
    · rintro ⟨⟨a, b⟩, hx, he⟩
      simp only [Prod.mk.injEq, Option.some.injEq] at he
      rw [← he.1, ← he.2]
      exact hx
    · intro hx
      exact ⟨(name, hd), hx, rfl⟩
  rw [← hslot, List.mem_map]
  simp [slot]

/-- The entries of some names. -/
theorem Slots.filter (h : Slots msgList l) (q : CStr → Bool) :
    Slots (msgList.filter fun e => q e.msgName) (l.filter fun x => q x.1) := by
  have hleft : (msgList.filter fun e => q e.msgName).map slot =
      (msgList.map slot).filter fun x => q x.1 := by
    rw [List.filter_map]
    rfl
  have hright : ((l.filter fun x => q x.1).map fun x => (x.1, some x.2)) =
      (l.map fun x => (x.1, some x.2)).filter fun x => q x.1 := by
    rw [List.filter_map]
    rfl
  rw [Slots, hleft, hright, h]

/-- A registration adds the handler to the roster. -/
theorem Slots.register {ipc : IpcHandle} (h : Slots ipc.msgList l) {same : IpcMsgMapMember → Bool}
    {entry : IpcMsgMapMember} (hname : ValidName name)
    (hsame : ∀ e ∈ ipc.msgList, same e = true ↔ e.handler? = some hd)
    (hentry : slot entry = (name, some hd)) :
    Slots (registerHandler maxSize ipc name same entry).1.msgList
      (apply Prod.fst l (.add (name, hd))) := by
  have hany : (ipc.msgList.any fun e => e.msgName == name && same e) = true ↔ (name, hd) ∈ l := by
    rw [h.mem_iff, List.any_eq_true]
    constructor
    · rintro ⟨e, he, hboth⟩
      rw [Bool.and_eq_true, beq_iff_eq] at hboth
      exact ⟨e, he, hboth.1, (hsame e he).1 hboth.2⟩
    · rintro ⟨e, he, hn, hh⟩
      refine ⟨e, he, ?_⟩
      rw [Bool.and_eq_true, beq_iff_eq]
      exact ⟨hn, (hsame e he).2 hh⟩
  unfold registerHandler
  rw [if_neg (Nat.pos_iff_ne_zero.1 hname.1), apply]
  by_cases hin : (name, hd) ∈ l
  · rw [if_pos (hany.2 hin), if_pos hin]
    exact h
  · rw [if_neg fun hc => hin (hany.1 hc), if_neg hin]
    show (ipc.msgList ++ [entry]).map slot = _
    rw [List.map_append, List.map_append, h, List.map_singleton, hentry]
    rfl

/-- An unregistration drops the name from the roster, if no two of its entries are neighbours. -/
theorem Slots.unregister {ipc : IpcHandle} (h : Slots ipc.msgList l) (hname : ValidName name)
    (hclean : NoNeighbours ipc name) :
    Slots (ipcUnregisterMsg maxSize ipc (some name)).1.msgList
      (apply Prod.fst l (.drop name)) := by
  rw [msgList_ipcUnregisterMsg maxSize ipc hname.1, dropSkip_eq_filter_iff.2 hclean, apply]
  have hfilter := h.filter fun n => !(n == name)
  have hcongr : (l.filter fun x => !(x.1 == name)) = l.filter fun x => x.1 ≠ name := by
    refine List.filter_congr ?_
    intro x _
    simp [beq_eq_decide]
  rw [← hcongr]
  exact hfilter

/-- The calls have valid names, and no message is unregistered with neighbouring handlers. -/
def HandlersClean (s : HandlerRun) (c : SubCall) (_ : HandlerRun) : Prop :=
  ValidName c.name ∧ UnregistersClean s.ipc (.call c)

instance (s : HandlerRun) (c : SubCall) (s' : HandlerRun) : Decidable (HandlersClean s c s') :=
  inferInstanceAs (Decidable (_ ∧ _))

/-- One call keeps the entries and the roster together. -/
theorem slots_step (h : Slots s.ipc.msgList (roster Prod.fst (requests s.log)))
    (hreg : ∀ e ∈ s.ipc.msgList, RegisteredBy s.log e) {c : SubCall} (hok : HandlersClean s c s') :
    Slots (c.run maxSize s.ipc).1.msgList (roster Prod.fst (requests (s.log ++ [c]))) := by
  have hlog : ∀ r, c.request? = some r →
      roster Prod.fst (requests (s.log ++ [c])) = apply Prod.fst (roster Prod.fst (requests s.log)) r := by
    intro r hr
    rw [requests, List.filterMap_append, ← roster_snoc, List.filterMap_cons_some hr]
    rfl
  have hquiet : c.request? = none → requests (s.log ++ [c]) = requests s.log := by
    intro hr
    rw [requests, List.filterMap_append, List.filterMap_cons_none hr, List.filterMap_nil,
      List.append_nil]
    rfl
  cases c with
  | registerMsg name fn =>
    cases fn with
    | none =>
      rw [hquiet rfl]
      exact h
    | some f =>
      rw [hlog _ rfl]
      refine h.register hok.1 ?_ ?_
      · intro e he
        rw [beq_iff_eq]
        exact ((hreg e he).handler_iff f).1
      · exact congrArg (fun n => (n, some (Handler.plain f))) (snprintf_of_lt hok.1.2)
  | registerMsgExt name fn usrdata =>
    cases fn with
    | none =>
      rw [hquiet rfl]
      exact h
    | some f =>
      rw [hlog _ rfl]
      refine h.register hok.1 ?_ ?_
      · intro e he
        rw [beq_iff_eq]
        exact ((hreg e he).handler_iff f).2
      · exact congrArg (fun n => (n, some (Handler.ext f))) (snprintf_of_lt hok.1.2)
  | unregisterMsg name =>
    rw [hlog _ rfl]
    exact h.unregister hok.1 hok.2

theorem slots_of_reach (hnew : ipc₀.msgList = [])
    (h : Reach (handlerLts maxSize ipc₀) HandlersClean s) :
    Slots s.ipc.msgList (roster Prod.fst (requests s.log)) := by
  have hboth : Slots s.ipc.msgList (roster Prod.fst (requests s.log)) ∧
      ∀ e ∈ s.ipc.msgList, RegisteredBy s.log e := by
    refine h.invariant (I := fun s => Slots s.ipc.msgList (roster Prod.fst (requests s.log)) ∧
      ∀ e ∈ s.ipc.msgList, RegisteredBy s.log e) ?_ ?_
    · refine ⟨?_, ?_⟩
      · show ipc₀.msgList.map slot = _
        rw [hnew]
        rfl
      · intro e he
        simp [handlerLts, hnew] at he
    · intro s c s' _ hI hstep hok
      obtain rfl := Option.some.inj hstep
      exact ⟨slots_step hI.1 hI.2 hok, registeredBy_step hI.2 c⟩
  exact hboth.1

/-! ## What is run -/

/-- The handlers of the entries for a name are those registered since its last unregistration. -/
theorem Slots.handlersSince (h : Slots s.ipc.msgList (roster Prod.fst (requests s.log))) (n : CStr) :
    (s.ipc.msgList.filter fun e => e.msgName == n).map IpcMsgMapMember.handler? =
      (handlersSince s.log n).map some := by
  have hfilter := congrArg (List.map Prod.snd) (h.filter fun x => x == n)
  have hsince : (roster Prod.fst (requests s.log)).filter (fun x => x.1 = n) =
      distinctSince Prod.fst n (requests s.log) := filter_roster n (requests s.log)
  have hcongr : ((roster Prod.fst (requests s.log)).filter fun x => x.1 == n) =
      (roster Prod.fst (requests s.log)).filter fun x => x.1 = n := by
    refine List.filter_congr ?_
    intro x _
    simp [beq_eq_decide]
  rw [hcongr, hsince, List.map_map, List.map_map] at hfilter
  rw [EasyIpc.handlersSince, List.map_map]
  exact hfilter

/-- An entry that was registered runs its handler. -/
theorem handlersRun_runEntry {log : List SubCall} (h : RegisteredBy log e) :
    handlersRun (runEntry im e) = [e.handler?] := by
  rcases h with ⟨name, g, -, rfl⟩ | ⟨name, g, usrdata, -, rfl⟩ <;> rfl

theorem handlersRun_flatMap {log : List SubCall} {l : List IpcMsgMapMember}
    (h : ∀ e ∈ l, RegisteredBy log e) :
    handlersRun (l.flatMap (runEntry im)) = l.map IpcMsgMapMember.handler? := by
  induction l with
  | nil => rfl
  | cons e l ih =>
    rw [List.flatMap_cons, handlersRun_append, handlersRun_runEntry (h e (by simp)),
      ih fun e' he' => h e' (List.mem_cons_of_mem e he')]
    rfl

/-- **The dispatcher runs what the calls say.**  In every run on a new handle with valid names that
unregisters no message while two neighbours in `msg_list` are handlers of it: a message of any name
but `"*"` runs the distinct handlers registered for it since its last unregistration, in the order
in which they were first registered, and if there are none the first for `"*"`, exactly if it does
not come to a handler for `"*"` that was registered with `ipc_register_msg_ext`; and unregistering
a message removes its handlers and no others exactly if no two of them are neighbours. -/
theorem handlers_run (hnew : ipc₀.msgList = [])
    (h : Reach (handlerLts maxSize ipc₀) HandlersClean s) :
    (∀ im : IpcMsg, im.msgName ≠ anyName →
      (handlersRun (ipcMsgRecvProbe s.ipc.msgList im) = (handlersFor s.log im.msgName).map some ↔
        ¬ ComesToExt s.ipc.msgList im.msgName)) ∧
    ∀ name, ValidName name →
      ((ipcUnregisterMsg maxSize s.ipc (some name)).1.msgList =
        s.ipc.msgList.filter (fun e => !(e.msgName == name)) ↔ NoNeighbours s.ipc name) := by
  have hslots := slots_of_reach hnew h
  have hreg := registeredBy_of_reach hnew h
  refine ⟨?_, ?_⟩
  · intro im _
    have hsince := hslots.handlersSince im.msgName
    have hstar := congrArg List.head? (hslots.handlersSince anyName)
    rw [List.head?_map, List.head?_map, List.head?_filter] at hstar
    unfold handlersFor
    have hpath := dispatched s.ipc.msgList im
    generalize ipcMsgRecvProbe s.ipc.msgList im = acts at hpath ⊢
    cases hpath with
    | direct hsome hno =>
      have hfull : handlersSince s.log im.msgName ≠ [] := by
        intro hnil
        rw [hnil, List.map_nil, List.map_eq_nil_iff] at hsince
        exact hsome hsince
      rw [if_neg hfull, ← hsince]
      exact iff_of_true (handlersRun_flatMap fun e he => hreg e (List.mem_filter.1 he).1) hno
    | nobody hnone hany hno =>
      rw [hnone, List.map_nil, eq_comm, List.map_eq_nil_iff] at hsince
      rw [hany, Option.map_none, eq_comm, Option.map_eq_none_iff] at hstar
      rw [if_pos hsince, hstar]
      exact iff_of_true rfl hno
    | any imm hnone hany hext =>
      rw [hnone, List.map_nil, eq_comm, List.map_eq_nil_iff] at hsince
      rw [hany, Option.map_some] at hstar
      obtain ⟨hd, hhd, hhandler⟩ := Option.map_eq_some_iff.1 hstar.symm
      rw [if_pos hsince, hhd, hext]
      show [imm.fn.map Handler.plain] = [some hd] ↔ ¬ imm.fn = none
      cases hcase : imm.fn with
      | none => simp
      | some f =>
        have hplain := ((hreg imm (List.mem_of_find?_eq_some hany)).handler_iff f).1.1 hcase
        rw [hplain] at hhandler
        refine iff_of_true ?_ (Option.some_ne_none f)
        rw [hhandler]
        rfl
  · intro name hname
    rw [msgList_ipcUnregisterMsg maxSize s.ipc hname.1]
    exact dropSkip_eq_filter_iff

end Runs

/-- Two handlers for `"m"` with one for `"n"` between them, `"m"` is unregistered, and a handler is
registered for it again. -/
def cleanHandlers : List SubCall :=
  [.registerMsg [109] (some 7), .registerMsg [110] (some 8), .registerMsgExt [109] (some 9) 3,
    .unregisterMsg [109], .registerMsg [109] (some 9), .registerMsg anyName (some 5)]

/-- Then `"m"` runs that handler, `"n"` its own, and `"x"` the one for `"*"`. -/
theorem handlers_run_clean : ∃ s, Reach (handlerLts 4096 sampleHandle) HandlersClean s ∧
    handlersRun (ipcMsgRecvProbe s.ipc.msgList (sampleMsg [109])) = [some (.plain 9)] ∧
    handlersRun (ipcMsgRecvProbe s.ipc.msgList (sampleMsg [110])) = [some (.plain 8)] ∧
    handlersRun (ipcMsgRecvProbe s.ipc.msgList (sampleMsg [120])) = [some (.plain 5)] := by
  obtain ⟨s, hrun, hlog, hm, hn, hx⟩ : ∃ s,
      (handlerLts 4096 sampleHandle).runOk HandlersClean (handlerLts 4096 sampleHandle).init
        cleanHandlers = some s ∧ s.log = cleanHandlers ∧ ¬ ComesToExt s.ipc.msgList [109] ∧
      ¬ ComesToExt s.ipc.msgList [110] ∧ ¬ ComesToExt s.ipc.msgList [120] :=
    ⟨_, rfl, by decide, by decide, by decide, by decide⟩
  have hreach : Reach (handlerLts 4096 sampleHandle) HandlersClean s := Reach.runOk .init hrun
  obtain ⟨hrun, -⟩ := handlers_run rfl hreach
  refine ⟨s, hreach, ?_, ?_, ?_⟩
  · rw [(hrun (sampleMsg [109]) (by decide)).2 hm, hlog]
    decide
  · rw [(hrun (sampleMsg [110]) (by decide)).2 hn, hlog]
    decide
  · rw [(hrun (sampleMsg [120]) (by decide)).2 hx, hlog]
    decide

/-- Two handlers for `"m"` one behind the other: the second outlives the unregistration. -/
theorem handlers_outlive : ¬ ∀ s,
    Reach (handlerLts 4096 sampleHandle) (OnLabels fun c => ValidName c.name) s →
    ∀ im : IpcMsg, im.msgName ≠ anyName →
      handlersRun (ipcMsgRecvProbe s.ipc.msgList im) = (handlersFor s.log im.msgName).map some := by
  intro hall
  obtain ⟨s, hrun, hstays, hnone⟩ : ∃ s,
      (handlerLts 4096 sampleHandle).run (handlerLts 4096 sampleHandle).init
        [.registerMsg [109] (some 7), .registerMsg [109] (some 8), .unregisterMsg [109]] = some s ∧
      handlersRun (ipcMsgRecvProbe s.ipc.msgList (sampleMsg [109])) = [some (.plain 8)] ∧
      handlersFor s.log (sampleMsg [109]).msgName = [] := ⟨_, rfl, by decide, by decide⟩
  have hreach := Reach.run (P := fun c : SubCall => ValidName c.name) .init (by decide) hrun
  have hempty := hall s hreach (sampleMsg [109]) (by decide)
  rw [hstays, hnone] at hempty
  cases hempty

end EasyIpc

import EasyIpc.Client
import Mathlib.Data.List.Induction

/-!
# The handles of a process

`ipc_creat`, `ipc_exit` and the report of a hang-up, which share the list `ipc_list` of the process.
A handle stays in the list for as long as the process lives, so a pointer to a handle is its place
there.  Every join is accepted by the daemon, so `ipc_creat` returns.

* `HandleEvent` — what a run of creations and exits has done; `Inv` ties it to the list.
* `Live` — a handle of the name has been created and not been given up since.  The test for a
  repeated name is made against the handles created, and `name_reused_iff` says when that is the
  same.
-/

namespace EasyIpc

/-- `ipc_list`, `default_ipc` and the counter of `ipc_creat`. -/
structure Handles where
  ipcList : List IpcHandle := []
  defaultIpc : Option ℕ := none
  pidMagicNumber : ℤ := 1
  deriving DecidableEq, Repr

/-- Why `ipc_creat` returns `NULL`. -/
inductive CreatError where
  | noName
  | repeated
  deriving DecidableEq, Repr

/-- A name of one to 63 bytes. -/
structure HandleName where
  name : CStr
  ne_nil : name ≠ []
  short : name.length < processNameMaxSize

/-- A call that creates or gives up a handle.  `ports` are the ports that `bind` grants. -/
inductive HandleCall where
  | creat (pname : HandleName) (ports : ℤ × ℤ)
  | exit (ipc : Option ℕ)

/-- What a call has done. -/
inductive HandleEvent where
  | created (ipc : ℕ) (pname : CStr)
  | refused (pname : CStr)
  | exited (ipc : ℕ)
  deriving DecidableEq, Repr

namespace Handles

variable (maxSize : ℕ) (getpid : ℤ)

/-- `ipc_creat`. -/
def ipcCreat (pname : Option CStr) (ports : ℤ × ℤ) (p : Handles) :
    Except CreatError ℕ × Handles × List IpcPacket :=
  match pname with
  | none => (.error .noName, p, [])
  | some pname =>
      if pname.length = 0 then (.error .noName, p, [])
      else if p.ipcList.any fun h => h.aliasName == pname then (.error .repeated, p, [])
      else
        let ipc : IpcHandle :=
          { pid := getpid + p.pidMagicNumber * 1000000
            aliasName := snprintf processNameMaxSize pname
            msgRecvPort := ports.1
            apiRecvPort := ports.2 }
        (.ok p.ipcList.length,
          { ipcList := p.ipcList ++ [ipc]
            defaultIpc := some p.ipcList.length
            pidMagicNumber := p.pidMagicNumber + 1 },
          ipcDataToDaemon maxSize ipc (.join ipc.joinExitInfo))

/-- `ipc_exit`. -/
def ipcExit (ipc : Option ℕ) (p : Handles) : Handles × List IpcPacket :=
  match ipc.bind fun i => p.ipcList[i]? with
  | none => (p, [])
  | some h =>
      ({ p with defaultIpc := if p.defaultIpc = ipc then none else p.defaultIpc },
        ipcDataToDaemon maxSize h (.exit h.joinExitInfo))

/-- `ipc_hangup_record`: the size of a packet is not looked at. -/
def ipcHangupRecord (signalNo : ℤ) (p : Handles) : List IpcPacket :=
  p.ipcList.map fun h =>
    ⟨h.pid, .hangup ⟨h.pid, snprintf processNameMaxSize h.aliasName, 0, 0, signalNo⟩⟩

/-- A call, and what it has done. -/
def step (s : Handles × List HandleEvent) : HandleCall → Handles × List HandleEvent
  | .creat pname ports =>
      match ipcCreat maxSize getpid (some pname.name) ports s.1 with
      | (.ok ipc, p, _) => (p, s.2 ++ [.created ipc pname.name])
      | (.error _, p, _) => (p, s.2 ++ [.refused pname.name])
  | .exit ipc =>
      ((ipcExit maxSize ipc s.1).1,
        s.2 ++ ((ipc.filter fun i => i < s.1.ipcList.length).map HandleEvent.exited).toList)

/-- A run of calls in a new process. -/
def run (calls : List HandleCall) : Handles × List HandleEvent :=
  calls.foldl (step maxSize getpid) ({}, [])

variable {maxSize : ℕ} {getpid : ℤ}

/-! ## What a run keeps -/

/-- The list holds the handles created, under distinct names, and no handle was given up before it
was created. -/
structure Inv (p : Handles) (events : List HandleEvent) : Prop where
  created : ∀ i n, HandleEvent.created i n ∈ events ↔
    (p.ipcList.map IpcHandle.aliasName)[i]? = some n
  names : (p.ipcList.map IpcHandle.aliasName).Nodup
  exited : ∀ i, HandleEvent.exited i ∈ events → i < p.ipcList.length
  order : events.Pairwise fun a b => ∀ i n, a = .exited i → b ≠ .created i n

theorem inv_init : Inv {} [] := ⟨by simp, by simp, by simp, by simp⟩

/-- The name of a new handle is repeated if it is in the list. -/
theorem repeated_iff {p : Handles} {pname : HandleName} {ports : ℤ × ℤ} :
    (ipcCreat maxSize getpid (some pname.name) ports p).1 = .error .repeated ↔
      pname.name ∈ p.ipcList.map IpcHandle.aliasName := by
  have hlen : pname.name.length ≠ 0 := fun h => pname.ne_nil (List.length_eq_zero_iff.1 h)
  rw [ipcCreat, if_neg hlen]
  by_cases hin : pname.name ∈ p.ipcList.map IpcHandle.aliasName
  · rw [if_pos (by simpa using hin)]
    exact iff_of_true rfl hin
  · rw [if_neg (by simpa using hin)]
    exact iff_of_false (by simp) hin

/-- An event that creates nothing. -/
theorem Inv.snoc {p p' : Handles} {events : List HandleEvent} (h : Inv p events)
    (hlist : p'.ipcList = p.ipcList) {e : HandleEvent} (hcreated : ∀ i n, e ≠ .created i n)
    (hexited : ∀ i, e = .exited i → i < p.ipcList.length) : Inv p' (events ++ [e]) := by
  refine ⟨fun i n => ?_, hlist ▸ h.names, fun i hi => ?_, ?_⟩
  · rw [hlist, ← h.created, List.mem_append, List.mem_singleton]
    exact or_iff_left fun heq => hcreated i n heq.symm
  · rw [hlist]
    rcases List.mem_append.1 hi with hi | hi
    · exact h.exited i hi
    · exact hexited i (List.mem_singleton.1 hi).symm
  · refine List.pairwise_append.2 ⟨h.order, List.pairwise_singleton _ _, ?_⟩
    intro a _ b hb i n _
    rw [List.mem_singleton.1 hb]
    exact hcreated i n

theorem Inv.creat {p p' : Handles} {events : List HandleEvent} (h : Inv p events) {n : CStr}
    {ipc : IpcHandle} (hlist : p'.ipcList = p.ipcList ++ [ipc]) (hname : ipc.aliasName = n)
    (hnew : n ∉ p.ipcList.map IpcHandle.aliasName) :
    Inv p' (events ++ [.created p.ipcList.length n]) := by
  have hnames : p'.ipcList.map IpcHandle.aliasName = p.ipcList.map IpcHandle.aliasName ++ [n] := by
    rw [hlist, List.map_append, List.map_singleton, hname]
  refine ⟨fun i m => ?_, ?_, ?_, ?_⟩
  · rw [hnames, List.mem_append, h.created, List.mem_singleton]
    rcases Nat.lt_trichotomy i p.ipcList.length with hlt | rfl | hgt
    · rw [List.getElem?_append_left (by simpa using hlt)]
      simp
      omega
    · rw [List.getElem?_append_right (by simp)]
      simp [eq_comm]
    · rw [List.getElem?_eq_none (by simp; omega), List.getElem?_eq_none (by simp; omega)]
      simp
      omega
  · rw [hnames]
    exact h.names.append (List.nodup_singleton n) (by simpa using hnew)
  · intro i hi
    have := h.exited i (by simpa using hi)
    rw [hlist, List.length_append]
    omega
  · refine List.pairwise_append.2 ⟨h.order, by simp, ?_⟩
    rintro a ha b hb i m rfl
    -- the new handle is behind all that have been given up
    have := h.exited i ha
    rw [List.mem_singleton.1 hb]
    intro heq
    have := (HandleEvent.created.inj heq).1
    omega

/-- Every call keeps the invariant. -/
theorem Inv.step {s : Handles × List HandleEvent} (h : Inv s.1 s.2) (call : HandleCall) :
    Inv (step maxSize getpid s call).1 (step maxSize getpid s call).2 := by
  obtain ⟨p, events⟩ := s
  cases call with
  | creat pname ports =>
    have hlen : pname.name.length ≠ 0 := fun h => pname.ne_nil (List.length_eq_zero_iff.1 h)
    simp only [Handles.step, ipcCreat, if_neg hlen]
    by_cases hin : pname.name ∈ p.ipcList.map IpcHandle.aliasName
    · rw [if_pos (by simpa using hin)]
      exact h.snoc rfl (by simp) (by simp)
    · rw [if_neg (by simpa using hin)]
      exact h.creat rfl (snprintf_of_lt pname.short) hin
  | exit ipc =>
    have hlist : (ipcExit maxSize ipc p).1.ipcList = p.ipcList := by
      unfold ipcExit
      split <;> rfl
    simp only [Handles.step]
    cases hipc : ipc.filter fun i => i < p.ipcList.length with
    | none =>
      rw [Option.map_none, Option.toList_none, List.append_nil]
      exact ⟨hlist ▸ h.created, hlist ▸ h.names, hlist ▸ h.exited, h.order⟩
    | some i =>
      have hi : i < p.ipcList.length := by simpa using (Option.filter_eq_some_iff.1 hipc).2
      refine h.snoc hlist (by simp) ?_
      intro j hj
      exact HandleEvent.exited.inj hj ▸ hi

/-- The invariant holds after every run of calls. -/
theorem inv_run (calls : List HandleCall) :
    Inv (run maxSize getpid calls).1 (run maxSize getpid calls).2 := by
  induction calls using List.reverseRecOn with
  | nil => exact inv_init
  | append_singleton calls call ih =>
    rw [run, List.foldl_append]
    exact Inv.step ih call

/-! ## Names that come back -/

/-- A handle of the name has been created and not been given up since. -/
def Live (events : List HandleEvent) (n : CStr) : Prop :=
  ∃ ipc before after, events = before ++ .created ipc n :: after ∧ .exited ipc ∉ after

/-- **A name is refused for the handles that are live exactly if none of that name has been given
up.** -/
theorem name_reused_iff (calls : List HandleCall) (pname : HandleName) (ports : ℤ × ℤ) :
    ((ipcCreat maxSize getpid (some pname.name) ports (run maxSize getpid calls).1).1 =
        .error .repeated ↔ Live (run maxSize getpid calls).2 pname.name) ↔
      ∀ ipc, .created ipc pname.name ∈ (run maxSize getpid calls).2 →
        .exited ipc ∉ (run maxSize getpid calls).2 := by
  have hinv : Inv (run maxSize getpid calls).1 (run maxSize getpid calls).2 := inv_run calls
  rw [repeated_iff, List.mem_iff_getElem?]
  simp only [← hinv.created]
  refine ⟨?_, ?_⟩
  · intro hreused ipc hcreated hexited
    obtain ⟨ipc', before, after, hevents, hafter⟩ := hreused.1 ⟨ipc, hcreated⟩
    -- a name is given to one handle only, so the live one is the one that was given up
    have hcreated' : HandleEvent.created ipc' pname.name ∈ (run maxSize getpid calls).2 := by
      rw [hevents]
      simp
    obtain rfl : ipc = ipc' := by
      have hfirst := (hinv.created _ _).1 hcreated
      have hsecond := (hinv.created _ _).1 hcreated'
      exact (List.getElem?_inj (List.getElem?_eq_some_iff.1 hfirst).1 hinv.names).1
        (hfirst.trans hsecond.symm)
    have hbefore : HandleEvent.exited ipc ∈ before := by
      rw [hevents] at hexited
      simpa [hafter] using hexited
    have horder := hinv.order
    rw [hevents, List.pairwise_append] at horder
    exact horder.2.2 _ hbefore _ (by simp) ipc pname.name rfl rfl
  · intro hkept
    refine ⟨?_, ?_⟩
    · rintro ⟨ipc, hcreated⟩
      obtain ⟨before, after, hevents⟩ := List.append_of_mem hcreated
      refine ⟨ipc, before, after, hevents, fun hafter => hkept ipc hcreated ?_⟩
      rw [hevents]
      simp [hafter]
    · rintro ⟨ipc, before, after, hevents, -⟩
      refine ⟨ipc, ?_⟩
      rw [hevents]
      simp

/-- A handle is created and given up, and its name is asked for once more. -/
theorem name_not_reused : ¬ ∀ (maxSize : ℕ) (getpid : ℤ) (calls : List HandleCall)
    (pname : HandleName) (ports : ℤ × ℤ),
    (ipcCreat maxSize getpid (some pname.name) ports (run maxSize getpid calls).1).1 =
      .error .repeated ↔ Live (run maxSize getpid calls).2 pname.name := by
  intro h
  obtain ⟨ipc, before, after, hevents, hafter⟩ :=
    (h 4096 100 [.creat ⟨[97], by simp, by decide⟩ (5000, 5001), .exit (some 0)]
      ⟨[97], by simp, by decide⟩ (5002, 5003)).1 rfl
  have hrun : [.created 0 [97], .exited 0] = before ++ HandleEvent.created ipc [97] :: after :=
    hevents
  cases before with
  | nil =>
    obtain ⟨hfirst, rfl⟩ := List.cons.inj hrun
    obtain ⟨rfl, -⟩ := HandleEvent.created.inj hfirst
    exact hafter (by simp)
  | cons first before => cases before <;> simp at hrun

end Handles

end EasyIpc

import EasyIpc.RequestTables
import Mathlib.Algebra.BigOperators.Group.List.Basic
import Mathlib.Algebra.Order.Ring.Int

/-!
# Accumulated run times

Every finish record adds a duration to the entry of the API or the message in the lists of its
member, and counts it.  A duration is computed by the client from two stamps of the clock.

* `Normalised`, `nanos` — what a `struct timespec` denotes; `duration_spec`, `timespecSum_spec` —
  the difference and the sum are exact, borrow and carry included.
* `Machine` — the same functions in the integers of the machine, where an overflow is `none`.
* `Steady` — a run of the daemon in which the entry stays, with the finish records for it;
  `Steady.entry` says that the entry gets these records and nothing else.
* `run_time_exact` — so it is the sum of the durations and their number, as long as the number fits
  into an `int`.
-/

namespace EasyIpc

open FirstMatch Transition

/-! ## Times -/

/-- `timespec_diff`. -/
def timespecDiff (start stop : Timespec) : Timespec :=
  if stop.tvNsec - start.tvNsec < 0 then
    ⟨stop.tvSec - start.tvSec - 1, 1000000000 + stop.tvNsec - start.tvNsec⟩
  else ⟨stop.tvSec - start.tvSec, stop.tvNsec - start.tvNsec⟩

namespace Timespec

/-- The nanoseconds of a time. -/
def nanos (t : Timespec) : ℤ := t.tvSec * 1000000000 + t.tvNsec

/-- The nanoseconds are less than a second, and the time is not negative. -/
structure Normalised (t : Timespec) : Prop where
  sec_nonneg : 0 ≤ t.tvSec
  nsec_nonneg : 0 ≤ t.tvNsec
  nsec_lt : t.tvNsec < 1000000000

end Timespec

/-- Two stamps of the monotonic clock, in their order. -/
structure Span where
  start : Timespec
  stop : Timespec
  start_norm : start.Normalised
  stop_norm : stop.Normalised
  le : start.nanos ≤ stop.nanos
  stop_long : stop.tvSec < 2 ^ 63

namespace Span

/-- The duration that the client computes. -/
def duration (s : Span) : Timespec := timespecDiff s.start s.stop

/-- The time between the stamps. -/
def length (s : Span) : ℤ := s.stop.nanos - s.start.nanos

/-- The time between the stamps of all spans together. -/
def total (spans : List Span) : ℤ := (spans.map length).sum

theorem length_nonneg (s : Span) : 0 ≤ s.length := Int.sub_nonneg_of_le s.le

@[simp] theorem total_cons (s : Span) (spans : List Span) :
    total (s :: spans) = s.length + total spans := by
  simp [total]

theorem total_nonneg (spans : List Span) : 0 ≤ total spans := by
  induction spans with
  | nil => simp [total]
  | cons s spans ih =>
    have := s.length_nonneg
    rw [total_cons]
    omega

end Span

/-! ## Machine integers -/

namespace Machine

/-- An `int` or a `long`: a result that does not fit is an overflow. -/
def fit (bits : ℕ) (z : ℤ) : Option ℤ :=
  if -2 ^ (bits - 1) ≤ z ∧ z < 2 ^ (bits - 1) then some z else none

/-- `timespec_diff`, each operation in a `long`. -/
def timespecDiff (start stop : Timespec) : Option Timespec := do
  let nsec ← fit 64 (stop.tvNsec - start.tvNsec)
  let sec ← fit 64 (stop.tvSec - start.tvSec)
  if nsec < 0 then
    let tvSec ← fit 64 (sec - 1)
    let tvNsec ← fit 64 (1000000000 + stop.tvNsec)
    let tvNsec ← fit 64 (tvNsec - start.tvNsec)
    some ⟨tvSec, tvNsec⟩
  else some ⟨sec, nsec⟩

/-- `timespec_sum`, each operation in a `long`. -/
def timespecSum (src dest : Timespec) : Option Timespec := do
  let tvSec ← fit 64 (src.tvSec + dest.tvSec)
  let tvNsec ← fit 64 (src.tvNsec + dest.tvNsec)
  if tvNsec ≥ 1000000000 then
    let tvNsec ← fit 64 (tvNsec - 1000000000)
    let tvSec ← fit 64 (tvSec + 1)
    some ⟨tvSec, tvNsec⟩
  else some ⟨tvSec, tvNsec⟩

/-- A finish record for an entry: `process_cnt` is an `int`. -/
def addRecord (a : MMember) (ptime : Timespec) : Option MMember := do
  let processTime ← timespecSum a.processTime ptime
  let processCnt ← fit 32 (a.processCnt + 1)
  some { a with processTime, processCnt }

theorem fit_of_mem {bits : ℕ} {z : ℤ} (h : -2 ^ (bits - 1) ≤ z ∧ z < 2 ^ (bits - 1)) :
    fit bits z = some z := if_pos h

end Machine

/-- The statistics of one finish record. -/
def addRecord (a : MMember) (ptime : Timespec) : MMember :=
  { a with processTime := timespecSum a.processTime ptime, processCnt := a.processCnt + 1 }

/-! ## Exact durations and sums -/

theorem normalised_iff {sec nsec : ℤ} :
    Timespec.Normalised ⟨sec, nsec⟩ ↔ 0 ≤ sec ∧ 0 ≤ nsec ∧ nsec < 1000000000 :=
  ⟨fun h => ⟨h.sec_nonneg, h.nsec_nonneg, h.nsec_lt⟩, fun h => ⟨h.1, h.2.1, h.2.2⟩⟩

/-- **The duration is normalised and exact**, and no operation overflows: a borrow is one second at
most. -/
theorem duration_spec (s : Span) :
    s.duration.Normalised ∧ s.duration.nanos = s.length ∧
      Machine.timespecDiff s.start s.stop = some s.duration := by
  obtain ⟨start, stop, ⟨hs1, hs2, hs3⟩, ⟨he1, he2, he3⟩, hle, hlong⟩ := s
  simp only [Timespec.nanos] at hle
  simp only [Span.duration, Span.length, Timespec.nanos, timespecDiff, Machine.timespecDiff]
  rw [Machine.fit_of_mem (by omega), Machine.fit_of_mem (by omega)]
  simp only [Option.bind_eq_bind, Option.bind_some]
  by_cases hborrow : stop.tvNsec - start.tvNsec < 0
  · rw [if_pos hborrow, if_pos hborrow, Machine.fit_of_mem (by omega),
      Machine.fit_of_mem (by omega), normalised_iff]
    simp only [Option.bind_some]
    rw [Machine.fit_of_mem (by omega)]
    exact ⟨by omega, by omega, rfl⟩
  · rw [if_neg hborrow, if_neg hborrow, normalised_iff]
    dsimp only
    exact ⟨by omega, by omega, rfl⟩

/-- **The sum is normalised and exact**, and no operation overflows: a carry is one second at
most. -/
theorem timespecSum_spec {a b : Timespec} (ha : a.Normalised) (hb : b.Normalised)
    (hsum : a.nanos + b.nanos < 2 ^ 63 * 1000000000) :
    (timespecSum a b).Normalised ∧ (timespecSum a b).nanos = a.nanos + b.nanos ∧
      Machine.timespecSum a b = some (timespecSum a b) := by
  obtain ⟨ha1, ha2, ha3⟩ := ha
  obtain ⟨hb1, hb2, hb3⟩ := hb
  simp only [Timespec.nanos] at hsum ⊢
  simp only [timespecSum, Machine.timespecSum]
  rw [Machine.fit_of_mem (by omega), Machine.fit_of_mem (by omega)]
  simp only [Option.bind_eq_bind, Option.bind_some]
  by_cases hcarry : a.tvNsec + b.tvNsec ≥ 1000000000
  · rw [if_pos hcarry, if_pos hcarry, Machine.fit_of_mem (by omega),
      Machine.fit_of_mem (by omega), normalised_iff]
    dsimp only
    exact ⟨by omega, by omega, rfl⟩
  · rw [if_neg hcarry, if_neg hcarry, normalised_iff]
    dsimp only
    exact ⟨by omega, by omega, rfl⟩

/-! ## Any number of records -/

/-- **A sequence of finish records**, from any entry on, as long as the sum and the number fit. -/
theorem addRecord_run {a : MMember} (ha : a.processTime.Normalised) (spans : List Span)
    (hcnt : 0 ≤ a.processCnt) (hsum : a.processTime.nanos + Span.total spans < 2 ^ 63 * 1000000000)
    (hnum : a.processCnt + spans.length < 2 ^ 31) :
    ∃ b, (spans.map Span.duration).foldlM Machine.addRecord a = some b ∧
      (spans.map Span.duration).foldl addRecord a = b ∧ b.processTime.Normalised ∧
      b.processTime.nanos = a.processTime.nanos + Span.total spans ∧
      b.processCnt = a.processCnt + spans.length := by
  induction spans generalizing a with
  | nil => exact ⟨a, rfl, rfl, ha, by simp [Span.total], by simp⟩
  | cons s spans ih =>
    obtain ⟨hnorm, hexact, -⟩ := duration_spec s
    have hrest := Span.total_nonneg spans
    rw [Span.total_cons] at hsum
    simp only [List.length_cons] at hnum
    obtain ⟨hnorm', hexact', hmachine⟩ := timespecSum_spec ha hnorm (by rw [hexact]; omega)
    have hstep : Machine.addRecord a s.duration = some (addRecord a s.duration) := by
      simp only [Machine.addRecord, hmachine, Option.bind_eq_bind, Option.bind_some]
      rw [Machine.fit_of_mem (by omega)]
      rfl
    obtain ⟨b, hrun, hfold, hb, htime, hnumber⟩ := ih (a := addRecord a s.duration) hnorm'
      (by simp only [addRecord]; omega) (by simp only [addRecord]; omega)
      (by simp only [addRecord]; omega)
    refine ⟨b, ?_, hfold, hb, ?_, ?_⟩
    · rw [List.map_cons, List.foldlM_cons, hstep]
      exact hrun
    · rw [htime, Span.total_cons]
      simp only [addRecord]
      omega
    · rw [hnumber]
      simp only [addRecord, List.length_cons]
      omega

/-- The number of records that got through. -/
theorem processCnt_run {a b : MMember} {ptimes : List Timespec}
    (h : ptimes.foldlM Machine.addRecord a = some b) (ha : a.processCnt < 2 ^ 31) :
    b.processCnt = a.processCnt + ptimes.length ∧ b.processCnt < 2 ^ 31 := by
  induction ptimes generalizing a with
  | nil =>
    obtain rfl := Option.some.inj h
    exact ⟨by simp, ha⟩
  | cons ptime ptimes ih =>
    rw [List.foldlM_cons] at h
    obtain ⟨c, hc, h⟩ := Option.bind_eq_some_iff.1 h
    obtain ⟨processTime, -, hc⟩ := Option.bind_eq_some_iff.1 hc
    obtain ⟨processCnt, hfit, hc⟩ := Option.bind_eq_some_iff.1 hc
    obtain rfl := Option.some.inj hc
    unfold Machine.fit at hfit
    split at hfit
    · obtain rfl := Option.some.inj hfit
      obtain ⟨hcnt, hlt⟩ := ih h (by simp only; omega)
      refine ⟨?_, hlt⟩
      rw [hcnt]
      simp only [List.length_cons]
      omega
    · simp at hfit

/-! ## The entry of a member -/

/-- The lists of a member that have statistics. -/
inductive Listing where
  | api
  | msg
  deriving DecidableEq, Repr

/-- The list of the member. -/
def Listing.of : Listing → MlistMember → List MMember
  | .api => MlistMember.apiList
  | .msg => MlistMember.pmsgList

/-- The finish record for an entry of the list, if the packet is one. -/
def Listing.finish (list : Listing) (pid : ℤ) (name : CStr) : DaemonAct → Option IpcRuntime
  | .recv _ _ ⟨sendPid, .apiRuntime rt⟩ =>
      if list = .api ∧ sendPid = pid ∧ rt.flag = true ∧ rt.msgName = name then some rt else none
  | .recv _ _ ⟨sendPid, .msgRuntime rt⟩ =>
      if list = .msg ∧ sendPid = pid ∧ rt.flag = true ∧ rt.msgName = name then some rt else none
  | _ => none

/-- The entry of the name in the list of the member of the process. -/
def Listing.entry (list : Listing) (pid : ℤ) (name : CStr) (mlist : List MlistMember) :
    Option MMember :=
  (ipcdGetMlistViaPid mlist pid).bind fun m => (list.of m).find? fun a => a.msgName == name

section Entry

variable {list : Listing} {pid : ℤ} {name : CStr} {mlist mlist' : List MlistMember}
  {d d' d'' : Daemon} {act : DaemonAct} {out : List Send} {rts : List IpcRuntime}

/-- The entry is the same in tables with the same process ids and the same lists. -/
theorem entry_congr (h : (mlist'.map fun m => (m.pid, list.of m)) =
    mlist.map fun m => (m.pid, list.of m)) :
    list.entry pid name mlist' = list.entry pid name mlist := by
  have hview : ∀ l : List MlistMember, list.entry pid name l =
      ((l.map fun m => (m.pid, list.of m)).find? fun x => x.1 == pid).bind
        fun x => x.2.find? fun a => a.msgName == name := by
    intro l
    rw [List.find?_map, Option.bind_map]
    rfl
  rw [hview, hview, h]

theorem entry_modifyFirst {p : MlistMember → Bool} {f : MlistMember → MlistMember}
    (hf : ∀ m, (f m).pid = m.pid ∧ list.of (f m) = list.of m) :
    list.entry pid name (modifyFirst p f mlist) = list.entry pid name mlist :=
  entry_congr (map_modifyFirst (fun m _ => Prod.ext (hf m).1 (hf m).2) mlist)

theorem entry_ipcLiveThread :
    list.entry pid name (ipcLiveThread mlist) = list.entry pid name mlist := by
  refine entry_congr ?_
  rw [ipcLiveThread, List.map_map]
  refine List.map_congr_left fun m _ => ?_
  rw [Function.comp_apply, sweepMember]
  cases list <;> split <;> rfl

/-- A finish record goes to the first entry of its name. -/
theorem find?_recordName (rt : IpcRuntime) (l : List MMember) :
    (recordName rt l).find? (fun a => a.msgName == name) =
      if rt.msgName = name then
        (l.find? fun a => a.msgName == name).map fun a => addRecord a rt.ptime
      else l.find? fun a => a.msgName == name := by
  by_cases hname : rt.msgName = name
  · subst hname
    rw [if_pos rfl]
    have hkeep : ∀ a : MMember, (a.msgName == rt.msgName) = true →
        ((addRecord a rt.ptime).msgName == rt.msgName) = true := fun a ha => ha
    exact find?_modifyFirst hkeep l
  · rw [if_neg hname]
    refine find?_modifyFirst_of_disjoint ?_ ?_ l <;>
    · intro a ha hq
      exact hname ((beq_iff_eq.1 ha).symm.trans (beq_iff_eq.1 hq))

/-- A finish record of a process, in the list it is about. -/
theorem entry_record (rt : IpcRuntime) {sendPid : ℤ} {f : MlistMember → MlistMember}
    (hf : ∀ m, (f m).pid = m.pid ∧ list.of (f m) = recordName rt (list.of m)) :
    list.entry pid name (modifyFirst (hasPid sendPid) f mlist) =
      if sendPid = pid ∧ rt.msgName = name then
        (list.entry pid name mlist).map fun a => addRecord a rt.ptime
      else list.entry pid name mlist := by
  by_cases hpid : sendPid = pid
  · subst hpid
    have hkeep : ∀ m, hasPid sendPid m → hasPid sendPid (f m) := by
      intro m hm
      rw [hasPid_iff, (hf m).1]
      exact hasPid_iff.1 hm
    rw [Listing.entry, ipcdGetMlistViaPid, find?_modifyFirst hkeep, Option.bind_map]
    cases hm : mlist.find? (hasPid sendPid) with
    | none => simp [Listing.entry, ipcdGetMlistViaPid, hm]
    | some m =>
      simp only [Option.bind_some, Function.comp_apply, (hf m).2, find?_recordName,
        Listing.entry, ipcdGetMlistViaPid, hm, true_and]
  · rw [if_neg fun h => hpid h.1, Listing.entry, Listing.entry,
      lookup_modifyFirst_of_ne (fun m hm => hasPid_iff.1 hm) (fun m => (hf m).1) hpid]

theorem entry_recordApi {sendPid : ℤ} {rt : IpcRuntime} :
    list.entry pid name (recordApi sendPid rt mlist) =
      if list = .api ∧ sendPid = pid ∧ rt.msgName = name then
        (list.entry pid name mlist).map fun a => addRecord a rt.ptime
      else list.entry pid name mlist := by
  unfold recordApi
  cases list with
  | api =>
    refine (entry_record rt ?_).trans (by simp)
    exact fun m => ⟨rfl, rfl⟩
  | msg =>
    refine (entry_modifyFirst ?_).trans (by simp)
    exact fun m => ⟨rfl, rfl⟩

theorem entry_recordMsg {sendPid : ℤ} {rt : IpcRuntime} :
    list.entry pid name (recordMsg sendPid rt mlist) =
      if list = .msg ∧ sendPid = pid ∧ rt.msgName = name then
        (list.entry pid name mlist).map fun a => addRecord a rt.ptime
      else list.entry pid name mlist := by
  unfold recordMsg
  cases list with
  | api =>
    refine (entry_modifyFirst ?_).trans (by simp)
    exact fun m => ⟨rfl, rfl⟩
  | msg =>
    refine (entry_record rt ?_).trans (by simp)
    exact fun m => ⟨rfl, rfl⟩

/-- The receive thread. -/
theorem entry_ipcdAnalysisCore {stale : MlistMember → MlistMember} {addr : ℕ} {pkt : IpcPacket}
    (hquiet : touchesTables (.recv stale addr pkt) = false) :
    list.entry pid name (ipcdAnalysisCore stale addr pkt d).1.mlist =
      match list.finish pid name (.recv stale addr pkt) with
      | some rt => (list.entry pid name d.mlist).map fun a => addRecord a rt.ptime
      | none => list.entry pid name d.mlist := by
  obtain ⟨sendPid, body⟩ := pkt
  -- the functions that mark a member keep its lists
  have hsame : ∀ f : MlistMember → MlistMember, (∀ m, (f m).pid = m.pid) →
      (∀ m, (f m).apiList = m.apiList) → (∀ m, (f m).pmsgList = m.pmsgList) →
      ∀ m, (f m).pid = m.pid ∧ list.of (f m) = list.of m := by
    intro f hpid hapi hmsg m
    cases list with
    | api => exact ⟨hpid m, hapi m⟩
    | msg => exact ⟨hpid m, hmsg m⟩
  cases body with
  | apiRegister info | msgRegister info | apiUnregister info | msgUnregister info | exit info
  | hangup info | join info => simp [touchesTables, requestOf] at hquiet
  | daemonCmd info =>
    exact entry_modifyFirst (hsame _ (fun _ => rfl) (fun _ => rfl) fun _ => rfl)
  | live info =>
    exact entry_modifyFirst (hsame _ (fun _ => rfl) (fun _ => rfl) fun _ => rfl)
  | apiCall api =>
    simp only [ipcdAnalysisCore, ipcdApiCall, Listing.finish]
    split
    · rfl
    · exact entry_modifyFirst (hsame _ (fun _ => rfl) (fun _ => rfl) fun _ => rfl)
  | msgSend msg =>
    simp only [ipcdAnalysisCore, ipcdMsgSend, Listing.finish]
    split
    · rfl
    · exact entry_modifyFirst (hsame _ (fun _ => rfl) (fun _ => rfl) fun _ => rfl)
  | apiRuntime rt =>
    simp only [ipcdAnalysisCore, Listing.finish]
    cases rt.flag with
    | false => simp
    | true =>
      simp only [if_true, ipcdApiFinish_mlist, entry_recordApi, true_and]
      split <;> rfl
  | msgRuntime rt =>
    simp only [ipcdAnalysisCore, Listing.finish]
    cases rt.flag with
    | false => simp
    | true =>
      simp only [if_true, entry_recordMsg, true_and]
      split <;> rfl
  | log info => rfl
  | other => rfl

/-- A step that does not touch the tables leaves the entry alone, but for a finish record. -/
theorem step_entry (hstep : d.step act = some (d', out)) (hquiet : touchesTables act = false) :
    list.entry pid name d'.mlist =
      match list.finish pid name act with
      | some rt => (list.entry pid name d.mlist).map fun a => addRecord a rt.ptime
      | none => list.entry pid name d.mlist := by
  cases act with
  | recv stale addr pkt =>
    have he : ipcdAnalysisCore stale addr pkt d = (d', out) := Option.some.inj hstep
    have hentry : list.entry pid name (ipcdAnalysisCore stale addr pkt d).1.mlist = _ :=
      entry_ipcdAnalysisCore hquiet
    rwa [he] at hentry
  | liveSweep =>
    cases hstep
    exact entry_ipcLiveThread
  | _ => rw [Daemon.step_mlist_eq hstep (by simp) (by simp)]; rfl

/-- A run in which the entry stays, with the finish records for it: what changes the tables leaves
this entry as it is. -/
inductive Steady (list : Listing) (pid : ℤ) (name : CStr) : Daemon → List IpcRuntime → Daemon → Prop
  | nil (d : Daemon) : Steady list pid name d [] d
  | step {d d' d'' : Daemon} {act : DaemonAct} {out : List Send} {rts : List IpcRuntime} :
      d.step act = some (d', out) →
      (touchesTables act = true → list.entry pid name d'.mlist = list.entry pid name d.mlist) →
      Steady list pid name d' rts d'' →
      Steady list pid name d ((list.finish pid name act).toList ++ rts) d''

/-- Steps that leave the tables alone make such a run. -/
theorem Steady.of_run {acts : List DaemonAct} (hrun : daemonLts.run d acts = some d')
    (hquiet : ∀ act ∈ acts, touchesTables act = false) :
    Steady list pid name d (acts.filterMap (list.finish pid name)) d' := by
  induction acts generalizing d with
  | nil =>
    obtain rfl := Option.some.inj hrun
    exact .nil d
  | cons act acts ih =>
    obtain ⟨d₁, hfirst, hrest⟩ := Lts.run_cons hrun
    obtain ⟨⟨d₂, out⟩, hstep, rfl⟩ := Option.map_eq_some_iff.1 hfirst
    have hact := hquiet act (by simp)
    have hsteady := Steady.step hstep (fun h => absurd h (by simp [hact]))
      (ih hrest fun act' hact' => hquiet act' (List.mem_cons_of_mem _ hact'))
    cases hfinish : list.finish pid name act with
    | none =>
      rw [List.filterMap_cons_none hfinish]
      rwa [hfinish] at hsteady
    | some rt =>
      rw [List.filterMap_cons_some hfinish]
      rwa [hfinish] at hsteady

theorem finish_of_touches (h : touchesTables act = true) : list.finish pid name act = none := by
  cases act with
  | recv stale addr pkt =>
    obtain ⟨sendPid, body⟩ := pkt
    cases body <;> first | rfl | simp [touchesTables, requestOf] at h
  | _ => rfl

/-- **The entry gets the finish records for it, in their order, and nothing else.** -/
theorem Steady.entry (h : Steady list pid name d rts d') :
    list.entry pid name d'.mlist =
      (list.entry pid name d.mlist).map fun a =>
        (rts.map IpcRuntime.ptime).foldl addRecord a := by
  induction h with
  | nil d => simp
  | @step d d' d'' act out rts hstep hkeep _ ih =>
    rw [ih]
    by_cases htouch : touchesTables act = true
    · rw [hkeep htouch, finish_of_touches htouch]
      rfl
    · rw [step_entry hstep (by simpa using htouch)]
      cases list.finish pid name act with
      | none => rfl
      | some rt =>
        simp only [Option.toList_some, List.map_append, List.foldl_append, Option.map_map]
        rfl

end Entry

/-! ## The statistics -/

/-- The machine adds up the durations of the spans in an entry that starts at zero, without an
overflow, to a normalised time that denotes their sum, and counts them. -/
def Exact (name : CStr) (spans : List Span) (a : MMember) : Prop :=
  (spans.map Span.duration).foldlM Machine.addRecord ⟨name, 0, ⟨0, 0⟩⟩ = some a ∧
    a.processTime.Normalised ∧ a.processTime.nanos = Span.total spans ∧
    a.processCnt = spans.length

/-- **Accumulated run time is exact.**  In every run in which an entry stays from its registration
on, and whose finish records for it carry the durations of some spans, the entry is the exact sum
and the number of the spans, as long as the sum is less than `2 ^ 63` seconds and the number less
than `2 ^ 31`. -/
theorem run_time_exact {list : Listing} {pid : ℤ} {name : CStr} {d d' : Daemon}
    {rts : List IpcRuntime} {spans : List Span} (hrun : Steady list pid name d rts d')
    (hnew : list.entry pid name d.mlist = some ⟨name, 0, ⟨0, 0⟩⟩)
    (hspans : rts.map IpcRuntime.ptime = spans.map Span.duration)
    (hsum : Span.total spans < 2 ^ 63 * 1000000000) (hnum : spans.length < 2 ^ 31) :
    (∀ s ∈ spans, Machine.timespecDiff s.start s.stop = some s.duration) ∧
      ∃ a, list.entry pid name d'.mlist = some a ∧ Exact name spans a := by
  refine ⟨fun s _ => (duration_spec s).2.2, ?_⟩
  have hzero : Timespec.Normalised ⟨0, 0⟩ := normalised_iff.2 (by omega)
  obtain ⟨a, hmachine, hfold, hnorm, htime, hcnt⟩ :=
    addRecord_run (a := ⟨name, 0, ⟨0, 0⟩⟩) hzero spans (Int.le_refl 0)
      (by simpa [Timespec.nanos] using hsum) (by dsimp only; omega)
  refine ⟨a, ?_, hmachine, hnorm, ?_, ?_⟩
  · rw [hrun.entry, hnew, hspans, Option.map_some, hfold]
  · simpa [Timespec.nanos] using htime
  · simpa using hcnt

/-- Durations of 0.3 s with a borrow and 0.8 s: their sum has a carry. -/
def twoSpans : List Span :=
  [⟨⟨5, 900000000⟩, ⟨6, 200000000⟩, ⟨by decide, by decide, by decide⟩,
      ⟨by decide, by decide, by decide⟩, by decide, by decide⟩,
    ⟨⟨7, 0⟩, ⟨7, 800000000⟩, ⟨by decide, by decide, by decide⟩, ⟨by decide, by decide, by decide⟩,
      by decide, by decide⟩]

/-- The finish record of the API `"f"` of process 1 for a span. -/
def finishOf (s : Span) : DaemonAct :=
  .recv id 0 ⟨1, .apiRuntime ⟨1, [102], true, s.duration, 0, 0, .ackOk, []⟩⟩

/-- A daemon with one member, which has just registered `"f"`. -/
def oneApi : Daemon :=
  { mlist := [{ newMember ⟨1, [97], 5000, 5001, 0⟩ 0 with apiList := [⟨[102], 0, ⟨0, 0⟩⟩] }] }

theorem run_time_exact_two : ∃ d' a, daemonLts.run oneApi (twoSpans.map finishOf) = some d' ∧
    Listing.entry .api 1 [102] d'.mlist = some a ∧ Exact [102] twoSpans a := by
  obtain ⟨d', hd'⟩ : ∃ d', daemonLts.run oneApi (twoSpans.map finishOf) = some d' := ⟨_, rfl⟩
  have hquiet : ∀ act ∈ twoSpans.map finishOf, touchesTables act = false := by
    intro act hact
    obtain ⟨s, -, rfl⟩ := List.mem_map.1 hact
    rfl
  have hrun : Steady .api 1 [102] oneApi _ d' := Steady.of_run hd' hquiet
  have hspans : ((twoSpans.map finishOf).filterMap (Listing.finish .api 1 [102])).map
      IpcRuntime.ptime = twoSpans.map Span.duration := rfl
  obtain ⟨a, hentry, hexact⟩ := (run_time_exact hrun rfl hspans (by decide) (by decide)).2
  exact ⟨d', a, hd', hentry, hexact⟩

/-- More records than an `int` can count. -/
theorem not_exact {name : CStr} {spans : List Span} (h : 2 ^ 31 ≤ spans.length) (a : MMember) :
    ¬ Exact name spans a := by
  rintro ⟨hmachine, -, -, hcnt⟩
  have hlt := (processCnt_run hmachine (by simp)).2
  omega

/-- Two stamps at the same time. -/
def Span.zero : Span :=
  ⟨⟨0, 0⟩, ⟨0, 0⟩, ⟨by decide, by decide, by decide⟩, ⟨by decide, by decide, by decide⟩, by decide,
    by decide⟩

theorem Span.total_replicate_zero (n : ℕ) : Span.total (List.replicate n Span.zero) = 0 := by
  induction n with
  | zero => rfl
  | succ n ih => rw [List.replicate_succ, Span.total_cons, ih]; rfl

/-- The sum is zero, and the count overflows. -/
theorem count_overflows : ¬ ∀ spans : List Span, Span.total spans < 2 ^ 63 * 1000000000 →
    ∃ a, Exact [102] spans a := by
  intro h
  obtain ⟨a, ha⟩ := h (List.replicate (2 ^ 31) Span.zero)
    (by rw [Span.total_replicate_zero]; decide)
  exact not_exact (by rw [List.length_replicate]) a ha

end EasyIpc

import EasyIpc.Join
import EasyIpc.Effects

/-!
# The table over runs of the daemon

* `registry_unique` — in a run whose joins skip no clash, no two members share a process id or a
  name; `registry_duplicate` is a run in which two do.
* `join_refused_unchanged` — a refused join leaves the table as it was if the first member in the
  way is live, or no live one stands further behind a suspended one; `join_refused_removes` is a
  refusal that does not.
-/

namespace EasyIpc

open FirstMatch Transition

variable {d d' : Daemon} {act : DaemonAct} {out : List Send}

/-! ## Uniqueness -/

/-- The name in a join packet fits its field. -/
def JoinNameFits : DaemonAct → Prop
  | .recv _ _ ⟨_, .join info⟩ => info.joinExitProcessName.length < processNameMaxSize
  | _ => True

/-- The join skips no clash, and what it reads of freed members are still their names. -/
def JoinSkipsNone (l : List MlistMember) : DaemonAct → Prop
  | .recv stale _ ⟨_, .join info⟩ => NoSkippedClash info l ∧ NameKept stale l
  | _ => True

/-- Every join of the run has a name that fits and skips no clash. -/
def JoinsSafe (d : Daemon) (act : DaemonAct) (_ : Daemon) : Prop :=
  JoinNameFits act ∧ JoinSkipsNone d.mlist act

/-- One step keeps the members distinct. -/
theorem unique_step (h : d.step act = some (d', out)) (hun : Unique d.mlist)
    (hsafe : JoinsSafe d act d') : Unique d'.mlist := by
  cases Daemon.step_mlist h with
  | kept hprofile => exact unique_of_ident (map_eq_of_profile Profile.ident hprofile) hun
  | registerApi stale addr sendPid info ha hl => exact unique_of_ident (by simp [hl]) hun
  | registerMsg stale addr sendPid info ha hl => exact unique_of_ident (by simp [hl]) hun
  | unregisterApi stale addr sendPid info ha hl => exact unique_of_ident (by simp [hl]) hun
  | unregisterMsg stale addr sendPid info ha hl => exact unique_of_ident (by simp [hl]) hun
  | removed stale addr sendPid info ha hl =>
    exact hun.sublist (hl ▸ ipcdMlistRemoveViaPid_sublist info.joinExitProcessPid d.mlist)
  | joined stale addr sendPid info ha hl =>
    subst ha
    obtain ⟨hfits, hskips, hkept⟩ := hsafe
    rw [hl]
    exact (ipcdJoin_unique_iff hun hfits hkept).2 hskips

/-- So does a run. -/
theorem unique_of_reach (h : Reach daemonLts JoinsSafe d) : Unique d.mlist := by
  refine h.invariant (I := fun d => Unique d.mlist) Unique.nil ?_
  intro s act s' _ hun hstep hsafe
  obtain ⟨⟨t, out⟩, hst, rfl⟩ := Option.map_eq_some_iff.1 hstep
  exact unique_step hst hun hsafe

/-- **The registry is free of duplicates** in every state of a run whose joins skip no clash; and
in such a state one more join keeps it so only if it skips none. -/
theorem registry_unique (h : Reach daemonLts JoinsSafe d) : Unique d.mlist ∧
    ∀ stale info addr, info.joinExitProcessName.length < processNameMaxSize →
      NameKept stale d.mlist →
      (Unique (ipcdJoin stale info addr d.mlist).2 ↔ NoSkippedClash info d.mlist) := by
  have hun := unique_of_reach h
  exact ⟨hun, fun stale info addr hlen hkept => ipcdJoin_unique_iff hun hlen hkept⟩

theorem joinsSafe_joinAs {pid : ℤ} {name : CStr} (hlen : name.length < processNameMaxSize)
    (hskip : NoSkippedClash ⟨pid, name, 10 * pid, 10 * pid + 1, 0⟩ d.mlist) :
    JoinsSafe d (joinAs pid name) d' := ⟨hlen, hskip, fun _ _ => rfl⟩

/-- Joins, an exit and a second join of the same process. -/
theorem registry_unique_rejoin :
    ∃ d, Reach daemonLts JoinsSafe d ∧ d.mlist.length = 2 ∧ Unique d.mlist := by
  have h1 : Reach daemonLts JoinsSafe _ := .step (a := joinAs 1 [97]) .init rfl
    (joinsSafe_joinAs (by decide) (by decide))
  have h2 : Reach daemonLts JoinsSafe _ := .step (a := joinAs 2 [98]) h1 rfl
    (joinsSafe_joinAs (by decide) (by decide))
  have h3 : Reach daemonLts JoinsSafe _ :=
    .step (a := packetFrom 1 (.exit ⟨1, [97], 10, 11, 0⟩)) h2 rfl ⟨trivial, trivial⟩
  have h4 : Reach daemonLts JoinsSafe _ := .step (a := joinAs 1 [97]) h3 rfl
    (joinsSafe_joinAs (by decide) (by decide))
  exact ⟨_, h4, by decide, (registry_unique h4).1⟩

/-- Two processes join and go silent; then a process joins with the name of the first and the
process id of the second. -/
def duplicateRun : List DaemonAct :=
  [joinAs 1 [97], joinAs 2 [98]] ++ List.replicate 16 .liveSweep ++ [joinAs 2 [97]]

/-- The table after the run has two members of process id 2. -/
theorem registry_duplicate :
    ¬ ∀ d, Reach daemonLts (OnLabels JoinNameFits) d → Unique d.mlist := by
  intro hall
  have hfits : ∀ a ∈ duplicateRun, JoinNameFits a := by
    simp [duplicateRun, joinAs, packetFrom, JoinNameFits, processNameMaxSize]
  obtain ⟨d, hrun, hdup⟩ : ∃ d, daemonLts.run daemonLts.init duplicateRun = some d ∧
      d.mlist.map MlistMember.pid = [2, 2] := ⟨_, rfl, by decide⟩
  have hun := (hall d (Reach.run .init hfits hrun)).pids
  rw [hdup] at hun
  exact absurd hun (by decide)

/-! ## Refusal -/

/-- The first member in the way is live, or no live member in the way stands further behind a
suspended one. -/
def RefusesAtOnce (info : JoinExitInfo) (l : List MlistMember) : Prop :=
  FirstClashLive info l ∨ NoLateRefusal info l

/-- **A refused join changes nothing if the first member in the way is live, or no live one stands
further behind a suspended one**; in a table of distinct members this is needed.  In every table, a
join that is refused changes nothing exactly if the first member in the way is live. -/
theorem join_refused_unchanged (stale : MlistMember → MlistMember) (info : JoinExitInfo)
    (addr : ℕ) (l : List MlistMember) :
    (ReadsKept stale l → RefusesAtOnce info l → (ipcdJoin stale info addr l).1 = none →
      (ipcdJoin stale info addr l).2 = l) ∧
    (ReadsKept stale l → Unique l →
      ((ipcdJoin stale info addr l).1 = none → (ipcdJoin stale info addr l).2 = l) →
      RefusesAtOnce info l) ∧
    ((ipcdJoin stale info addr l).1 = none →
      ((ipcdJoin stale info addr l).2 = l ↔ FirstClashLive info l)) := by
  refine ⟨?enough, ?needed, ipcdJoin_refused_iff⟩
  case enough =>
    intro hkept honce hnone
    rcases honce with hfirst | hlate
    · exact (ipcdJoin_refused_iff hnone).2 hfirst
    · exact ipcdJoin_refused addr hlate hkept hnone
  case needed =>
    intro hkept hun hsame
    refine Or.inr ?_
    by_contra hlate
    obtain ⟨hnone, hne⟩ := ipcdJoin_refused_late info addr hun hkept hlate
    exact hne (hsame hnone)

/-- A table in which two members have process id 2, the first of them live, the others suspended or
not in the way. -/
def firstLiveTable : List MlistMember :=
  [newMember ⟨2, [98], 20, 21, 0⟩ 1, { newMember ⟨5, [120], 50, 51, 0⟩ 1 with suspend := true },
    newMember ⟨6, [121], 60, 61, 0⟩ 1, newMember ⟨2, [97], 22, 23, 0⟩ 1]

/-- Process 2 cannot join it as `"x"`, and the suspended member of that name stays. -/
theorem join_refused_unchanged_live :
    (ipcdJoin id ⟨2, [120], 24, 25, 0⟩ 1 firstLiveTable).2 = firstLiveTable ∧
      (ipcdJoin id ⟨2, [120], 24, 25, 0⟩ 1 firstLiveTable).1 = none := by
  have hnone : (ipcdJoin id ⟨2, [120], 24, 25, 0⟩ 1 firstLiveTable).1 = none := by decide
  exact ⟨(join_refused_unchanged id ⟨2, [120], 24, 25, 0⟩ 1 firstLiveTable).1
    (fun _ _ => ⟨rfl, rfl⟩) (Or.inl ⟨_, rfl, rfl⟩) hnone, hnone⟩

/-- Three processes join and go silent, and the last of them comes back to life. -/
def lateRefusalRun : List DaemonAct :=
  [joinAs 1 [97], joinAs 9 [120], joinAs 2 [98]] ++ List.replicate 16 .liveSweep ++
    [packetFrom 2 (.live ⟨2, [98], 20, 21, 0⟩)]

/-- A join with the name of the first and the process id of the last is refused, and the first
is gone. -/
theorem join_refused_removes : ¬ ∀ d, Reach daemonLts Free d → ∀ info addr,
    (ipcdJoin id info addr d.mlist).1 = none → (ipcdJoin id info addr d.mlist).2 = d.mlist := by
  intro hall
  obtain ⟨d, hrun, hnone, hlen, hlen'⟩ : ∃ d,
      daemonLts.run daemonLts.init lateRefusalRun = some d ∧
      (ipcdJoin id ⟨2, [97], 20, 21, 0⟩ 1 d.mlist).1 = none ∧
      (ipcdJoin id ⟨2, [97], 20, 21, 0⟩ 1 d.mlist).2.length = 2 ∧ d.mlist.length = 3 :=
    ⟨_, rfl, by decide, by decide, by decide⟩
  have he := congrArg List.length (hall d (Reach.of_run hrun) _ _ hnone)
  rw [hlen, hlen'] at he
  exact absurd he (by decide)

end EasyIpc

import EasyIpc.Daemon
import Mathlib.Data.List.Chain

/-!
# Joining

The scan of `ipcd_join` is to find out whether the process id or the name of a joining process is
taken, and to make room for it where only suspended members are in the way.

* `joinVisit_of_not_clashes`, `joinVisit_of_live`, `joinVisit_of_suspended` — what one round of
  the scan does.
* `joinScan_keeps` — the induction over the scan.
* `joinScan_unique` — a scan that goes through leaves no clash, provided no suspended clash is
  followed at once by another clash.
* `ipcdJoin_refused`, `ipcdJoin_refused_late`, `ipcdJoin_refused_iff` — what a refused join leaves
  of the table.
-/

namespace EasyIpc

open FirstMatch Transition

/-- The member is in the way of the joining process. -/
def clashes (info : JoinExitInfo) (m : MlistMember) : Bool :=
  m.pid == info.joinExitProcessPid || m.pname == info.joinExitProcessName

theorem clashes_iff {info : JoinExitInfo} {m : MlistMember} : clashes info m = true ↔
    m.pid = info.joinExitProcessPid ∨ m.pname = info.joinExitProcessName := by
  simp [clashes]

/-- No two members share a process id, and no two share a name. -/
structure Unique (mlist : List MlistMember) : Prop where
  pids : (mlist.map MlistMember.pid).Nodup
  pnames : (mlist.map MlistMember.pname).Nodup

theorem Unique.nil : Unique [] := ⟨List.nodup_nil, List.nodup_nil⟩

theorem Unique.sublist {l l' : List MlistMember} (h : Unique l) (hs : l'.Sublist l) : Unique l' :=
  ⟨h.pids.sublist (hs.map _), h.pnames.sublist (hs.map _)⟩

/-- Uniqueness is a matter of the identities. -/
theorem unique_of_ident {l l' : List MlistMember}
    (he : l'.map MlistMember.ident = l.map MlistMember.ident) (h : Unique l) : Unique l' := by
  have hpid : ∀ l : List MlistMember, l.map MlistMember.pid =
      (l.map MlistMember.ident).map Ident.pid := fun l => by simp [MlistMember.ident]
  have hname : ∀ l : List MlistMember, l.map MlistMember.pname =
      (l.map MlistMember.ident).map Ident.pname := fun l => by simp [MlistMember.ident]
  exact ⟨by rw [hpid, he, ← hpid]; exact h.pids, by rw [hname, he, ← hname]; exact h.pnames⟩

/-- A member that clashes with nobody can be appended. -/
theorem Unique.append {l : List MlistMember} {info : JoinExitInfo} (h : Unique l) (addr : ℕ)
    (hlen : info.joinExitProcessName.length < processNameMaxSize)
    (hno : ∀ m ∈ l, ¬ clashes info m) : Unique (l ++ [newMember info addr]) := by
  have hname : (newMember info addr).pname = info.joinExitProcessName := snprintf_of_lt hlen
  constructor
  · rw [List.map_append, List.nodup_append]
    refine ⟨h.pids, List.nodup_singleton _, ?_⟩
    rintro _ hp _ hq rfl
    obtain ⟨m, hm, hmp⟩ := List.mem_map.1 hp
    have hnew := List.mem_singleton.1 hq
    exact hno m hm (clashes_iff.2 (Or.inl (by rw [hmp, hnew]; rfl)))
  · rw [List.map_append, List.nodup_append]
    refine ⟨h.pnames, List.nodup_singleton _, ?_⟩
    rintro _ hp _ hq rfl
    obtain ⟨m, hm, hmp⟩ := List.mem_map.1 hp
    have hnew := List.mem_singleton.1 hq
    exact hno m hm (clashes_iff.2 (Or.inr (by rw [hmp, hnew, hname])))

/-! ## One round of the scan -/

section Visit

variable {stale : MlistMember → MlistMember} {info : JoinExitInfo} {m : MlistMember}
  {u v l : List MlistMember} {i : ℕ}

/-- A member that is not in the way is passed. -/
theorem joinVisit_of_not_clashes (h : ¬ clashes info m) :
    joinVisit stale info i m l = (true, l) := by
  rw [clashes_iff, not_or] at h
  simp [joinVisit, h.1, h.2]

/-- A live member in the way refuses the join at once. -/
theorem joinVisit_of_live (h : clashes info m) (hs : m.suspend = false) :
    joinVisit stale info i m l = (false, l) := by
  by_cases hp : m.pid = info.joinExitProcessPid
  · simp [joinVisit, hp, hs]
  · have hn : m.pname = info.joinExitProcessName := (clashes_iff.1 h).resolve_left hp
    simp [joinVisit, hp, hn, hs]

theorem ipcdMlistRemoveViaPid_append (hu : ∀ a ∈ u, a.pid ≠ m.pid) :
    ipcdMlistRemoveViaPid m.pid (u ++ m :: v) = u ++ v := by
  rw [ipcdMlistRemoveViaPid, List.eraseP_append_right _ fun a ha => by simpa using hu a ha,
    List.eraseP_cons_of_pos (by simp)]

variable (stale) in
/-- The first member of its process id is read through a dangling pointer once it is removed. -/
theorem readAfterRemove_append (hu : ∀ a ∈ u, a.pid ≠ m.pid) :
    readAfterRemove stale (u ++ m :: v) u.length m = stale m := by
  have hnone : u.findIdx (hasPid m.pid) = u.length :=
    List.findIdx_eq_length.2 fun a ha => by simpa [hasPid] using hu a ha
  have hself : hasPid m.pid m = true := by simp
  rw [readAfterRemove, if_pos]
  rw [List.findIdx_append, hnone, if_neg (Nat.lt_irrefl _), List.findIdx_cons, hself]
  simp

variable (stale) in
/-- A suspended member in the way that is the first of its process id is taken out; if it has
the name *and* the process id of the joining process, the scan may go wrong afterwards, but it
only takes more members out. -/
theorem joinVisit_of_suspended (hu : ∀ a ∈ u, a.pid ≠ m.pid) (h : clashes info m)
    (hs : m.suspend = true) (hstale : (stale m).pname = m.pname) :
    if m.pid = info.joinExitProcessPid ∧ m.pname = info.joinExitProcessName then
      (joinVisit stale info u.length m (u ++ m :: v)).2.Sublist (u ++ v)
    else joinVisit stale info u.length m (u ++ m :: v) = (true, u ++ v) := by
  have hrem := ipcdMlistRemoveViaPid_append (v := v) hu
  have hread := readAfterRemove_append stale (v := v) hu
  by_cases hp : m.pid = info.joinExitProcessPid
  · by_cases hn : m.pname = info.joinExitProcessName
    · rw [if_pos ⟨hp, hn⟩]
      have hsub := ipcdMlistRemoveViaPid_sublist (stale m).pid (u ++ v)
      cases hsus : (stale m).suspend <;>
        simp [joinVisit, hp.symm, hn.symm, hs, hread, hstale, hsus, hrem, hsub]
    · rw [if_neg fun hc => hn hc.2]
      simp [joinVisit, hp.symm, hs, hread, hstale, hn, hrem]
  · have hn : m.pname = info.joinExitProcessName := (clashes_iff.1 h).resolve_left hp
    rw [if_neg fun hc => hp hc.1]
    simp [joinVisit, hp, hs, hn, hrem]

variable (stale) in
/-- A visit to a suspended member in the way removes the first member of its process id. -/
theorem joinVisit_suspended_sublist (i : ℕ) (h : clashes info m) (hs : m.suspend = true) :
    (joinVisit stale info i m l).2.Sublist (ipcdMlistRemoveViaPid m.pid l) := by
  by_cases hp : m.pid = info.joinExitProcessPid
  · unfold joinVisit
    extract_lets samePid tmlm' mlist' sameName
    have hmlist : mlist' = ipcdMlistRemoveViaPid m.pid l := if_pos (by simpa [samePid] using hp)
    rw [if_neg (by simp [hs]), ← hmlist]
    by_cases hname : (sameName && !tmlm'.suspend) = true
    · rw [if_pos hname]
    · rw [if_neg hname]
      show (if sameName = true then _ else _ : List MlistMember).Sublist mlist'
      split
      · exact ipcdMlistRemoveViaPid_sublist _ _
      · exact List.Sublist.refl _
  · have hn : m.pname = info.joinExitProcessName := (clashes_iff.1 h).resolve_left hp
    simp [joinVisit, hp, hn, hs]

/-- Where nothing from index `i` on is in the way the scan changes nothing. -/
theorem joinScan_of_not_clashes (n i : ℕ) (h : ∀ a ∈ l.drop i, ¬ clashes info a) :
    joinScan stale info n i l = (true, l) := by
  induction n generalizing i with
  | zero => rfl
  | succ n ih =>
    have hnext : ∀ a ∈ l.drop (i + 1), ¬ clashes info a := fun a ha =>
      h a ((List.drop_sublist_drop_left l (Nat.le_succ i)).subset ha)
    simp only [joinScan]
    split
    · exact ih _ hnext
    · rename_i m hm
      rw [joinVisit_of_not_clashes (h m (List.mem_of_mem_head? (by simpa using hm)))]
      exact ih _ hnext

end Visit

/-! ## What the scan leaves alone -/

section Untouched

variable {stale : MlistMember → MlistMember} {info : JoinExitInfo} {m : MlistMember}
  {l : List MlistMember}

/-- The removal of another process id keeps a member. -/
theorem mem_ipcdMlistRemoveViaPid {pid : ℤ} (hm : m ∈ l) (hpid : pid ≠ m.pid) :
    m ∈ ipcdMlistRemoveViaPid pid l := by
  have hno : ¬ hasPid pid m = true := fun h => hpid (hasPid_iff.1 h).symm
  exact (List.mem_eraseP_of_neg hno).2 hm

/-- A suspended member in the way of the join has the process id of `m`, or the read of it after
its removal gives that. -/
def displaces (stale : MlistMember → MlistMember) (info : JoinExitInfo) (l : List MlistMember)
    (m : MlistMember) : Bool :=
  l.any fun c => clashes info c && c.suspend && (c.pid == m.pid || (stale c).pid == m.pid)

theorem not_displaces (h : displaces stale info l m = false) {c : MlistMember} (hc : c ∈ l)
    (hclash : clashes info c) (hs : c.suspend = true) :
    c.pid ≠ m.pid ∧ (stale c).pid ≠ m.pid := by
  have hnone := List.any_eq_false.1 h c hc
  rw [hclash, hs] at hnone
  simpa [not_or] using hnone

theorem displaces_sublist {l' : List MlistMember} (hsub : l'.Sublist l)
    (h : displaces stale info l m = false) : displaces stale info l' m = false :=
  List.any_eq_false.2 fun c hc => List.any_eq_false.1 h c (hsub.subset hc)

/-- A visit keeps a member that the join does not displace. -/
theorem mem_joinVisit (h : displaces stale info l m = false) (hm : m ∈ l) (i : ℕ)
    {c : MlistMember} (hc : c ∈ l) : m ∈ (joinVisit stale info i c l).2 := by
  by_cases hclash : clashes info c
  case neg => rwa [joinVisit_of_not_clashes hclash]
  cases hs : c.suspend with
  | false => rwa [joinVisit_of_live hclash hs]
  | true =>
    obtain ⟨hpid, hstale⟩ := not_displaces h hc hclash hs
    have hread : (readAfterRemove stale l i c).pid ≠ m.pid := by
      unfold readAfterRemove
      split
      · exact hstale
      · exact hpid
    have hone := mem_ipcdMlistRemoveViaPid hm hpid
    by_cases hp : c.pid = info.joinExitProcessPid
    · -- it is taken out for its process id, and perhaps once more for its name
      unfold joinVisit
      extract_lets samePid tmlm' mlist' sameName
      have hsame : samePid = true := by simpa [samePid] using hp
      have hmlist : mlist' = ipcdMlistRemoveViaPid c.pid l := if_pos hsame
      have htmlm : tmlm' = readAfterRemove stale l i c := if_pos hsame
      rw [← hmlist] at hone
      rw [if_neg (by simp [hs])]
      by_cases hname : (sameName && !tmlm'.suspend) = true
      · rw [if_pos hname]
        exact hone
      · rw [if_neg hname]
        show m ∈ (if sameName = true then ipcdMlistRemoveViaPid tmlm'.pid mlist' else mlist')
        split
        · exact mem_ipcdMlistRemoveViaPid hone (htmlm ▸ hread)
        · exact hone
    · have hn : c.pname = info.joinExitProcessName := (clashes_iff.1 hclash).resolve_left hp
      simpa [joinVisit, hp, hn, hs] using hone

/-- So does the scan. -/
theorem mem_joinScan (h : displaces stale info l m = false) (hm : m ∈ l) (n i : ℕ) :
    m ∈ (joinScan stale info n i l).2 := by
  induction n generalizing i l with
  | zero => exact hm
  | succ n ih =>
    simp only [joinScan]
    split
    · exact ih h hm _
    · rename_i c hget
      have hvisit := mem_joinVisit h hm i (List.mem_of_getElem? hget)
      have hsub := joinVisit_sublist stale info i c l
      rcases he : joinVisit stale info i c l with ⟨_ | _, l'⟩
      · rw [he] at hvisit
        exact hvisit
      · rw [he] at hvisit hsub
        exact ih (displaces_sublist hsub h) hvisit _

/-- And the join. -/
theorem mem_ipcdJoin (addr : ℕ) (h : displaces stale info l m = false) (hm : m ∈ l) :
    m ∈ (ipcdJoin stale info addr l).2 := by
  have hscan := mem_joinScan h hm l.length 0
  unfold ipcdJoin
  rcases he : joinScan stale info l.length 0 l with ⟨_ | _, l'⟩
  · rw [he] at hscan
    exact hscan
  · rw [he] at hscan
    exact List.mem_append_left _ hscan

end Untouched

/-! ## The whole scan -/

section Scan

variable {stale : MlistMember → MlistMember} {info : JoinExitInfo} {m : MlistMember}
  {u v w l l' : List MlistMember}

/-- No suspended member in the way is followed at once by another member in the way. -/
def NoSkippedClash (info : JoinExitInfo) (l : List MlistMember) : Prop :=
  l.IsChain fun m m' => ¬ (clashes info m ∧ m.suspend ∧ clashes info m')

instance (info : JoinExitInfo) (l : List MlistMember) : Decidable (NoSkippedClash info l) :=
  inferInstanceAs (Decidable (List.IsChain _ l))

/-- Where the reads of freed members still give their names. -/
def NameKept (stale : MlistMember → MlistMember) (l : List MlistMember) : Prop :=
  ∀ m ∈ l, (stale m).pname = m.pname

theorem pid_ne_of_nodup (h : ((u ++ m :: v).map MlistMember.pid).Nodup) :
    ∀ a ∈ u ++ v, a.pid ≠ m.pid := by
  have hnd := (List.perm_middle.map MlistMember.pid).nodup_iff.1 h
  rw [List.map_cons, List.nodup_cons] at hnd
  intro a ha hc
  exact hnd.1 (hc ▸ List.mem_map_of_mem ha)

theorem Unique.pid_ne (h : Unique (u ++ m :: v)) : ∀ a ∈ u ++ v, a.pid ≠ m.pid :=
  pid_ne_of_nodup h.pids

theorem Unique.pname_ne (h : Unique (u ++ m :: v)) : ∀ a ∈ u ++ v, a.pname ≠ m.pname := by
  have hnd := (List.perm_middle.map MlistMember.pname).nodup_iff.1 h.pnames
  rw [List.map_cons, List.nodup_cons] at hnd
  intro a ha hc
  exact hnd.1 (hc ▸ List.mem_map_of_mem ha)

/-- With distinct process ids and names, a member that has both of the joining process is alone
in the way. -/
theorem not_clashes_of_both (h : Unique (u ++ m :: v))
    (hb : m.pid = info.joinExitProcessPid ∧ m.pname = info.joinExitProcessName) :
    ∀ a ∈ u ++ v, ¬ clashes info a := by
  intro a ha hc
  rcases clashes_iff.1 hc with hp | hn
  · exact h.pid_ne a ha (hp.trans hb.1.symm)
  · exact h.pname_ne a ha (hn.trans hb.2.symm)

/-- A scan that goes through leaves only members with a property that all members out of the way
have.  Those before the current index have it already; a deletion steps over the member after the
deleted one, which the condition takes care of; and a visit may also leave nothing else at once. -/
theorem joinScan_keeps {P : MlistMember → Prop} (hpass : ∀ a, ¬ clashes info a → P a)
    (hvisit : ∀ u m v lv, (u ++ m :: v).Sublist l → clashes info m → m.suspend = true →
      joinVisit stale info u.length m (u ++ m :: v) = (true, lv) → lv = u ++ v ∨ ∀ a ∈ lv, P a)
    (n : ℕ) (hn : (u ++ w).length ≤ n + u.length) (hsub : (u ++ w).Sublist l) (hu : ∀ a ∈ u, P a)
    (hchain : w.IsChain fun m b => clashes info m → m.suspend = true → P b)
    (h : joinScan stale info n u.length (u ++ w) = (true, l')) : ∀ a ∈ l', P a := by
  induction n generalizing u w with
  | zero =>
    obtain rfl : w = [] := by
      rw [← List.length_eq_zero_iff]
      rw [List.length_append] at hn
      omega
    obtain rfl : u = l' := by simpa [joinScan] using h
    exact hu
  | succ n ih =>
    cases w with
    | nil =>
      have hrest := joinScan_sublist stale info (n + 1) u.length (u ++ [])
      rw [h, List.append_nil] at hrest
      exact fun a ha => hu a (hrest.subset ha)
    | cons m v =>
      have hget : (u ++ m :: v)[u.length]? = some m := by simp
      have hlen : v.length ≤ n := by
        simp only [List.length_append, List.length_cons] at hn
        omega
      -- the scan goes on behind the member `b`, which has the property
      have hgo : ∀ b v', (b :: v').Sublist (m :: v) → P b →
          (v'.IsChain fun m b => clashes info m → m.suspend = true → P b) → v'.length ≤ n →
          joinScan stale info n (u.length + 1) (u ++ b :: v') = (true, l') → ∀ a ∈ l', P a := by
        intro b v' hrest hb hch hshort hgo
        have hshape : u ++ b :: v' = (u ++ [b]) ++ v' := by simp
        have hsub' : (u ++ b :: v').Sublist l := ((List.Sublist.refl u).append hrest).trans hsub
        rw [hshape] at hgo hsub'
        refine ih (u := u ++ [b]) (w := v') ?_ hsub' ?_ hch (by simpa using hgo)
        · simp only [List.length_append, List.length_cons, List.length_nil]
          omega
        · intro a ha
          rcases List.mem_append.1 ha with ha | ha
          · exact hu a ha
          · rw [List.mem_singleton.1 ha]
            exact hb
      simp only [joinScan, hget] at h
      by_cases hc : clashes info m
      case neg =>
        rw [joinVisit_of_not_clashes hc] at h
        exact hgo m v (List.Sublist.refl _) (hpass m hc) hchain.of_cons hlen h
      case pos =>
        cases hs : m.suspend with
        | false =>
          rw [joinVisit_of_live hc hs] at h
          simp at h
        | true =>
          rcases hv : joinVisit stale info u.length m (u ++ m :: v) with ⟨b, lv⟩
          rw [hv] at h
          cases b with
          | false => simp at h
          | true =>
            simp only at h
            have hrest := joinScan_sublist stale info n (u.length + 1) lv
            rw [h] at hrest
            rcases hvisit u m v lv hsub hc hs hv with rfl | hall
            · cases v with
              | nil =>
                rw [List.append_nil] at hrest
                exact fun a ha => hu a (hrest.subset ha)
              | cons b v =>
                have hb : P b := (List.isChain_cons_cons.1 hchain).1 hc hs
                have hshort : v.length ≤ n := by
                  rw [List.length_cons] at hlen
                  omega
                exact hgo b v (List.sublist_cons_self m _) hb hchain.of_cons.of_cons hshort h
            · exact fun a ha => hall a (hrest.subset ha)

/-- **A scan that goes through has made room.** -/
theorem joinScan_unique (n : ℕ) (hn : (u ++ w).length ≤ n + u.length) (hu : ∀ a ∈ u, ¬ clashes info a)
    (hun : Unique (u ++ w)) (hchain : NoSkippedClash info w) (hstale : NameKept stale (u ++ w))
    (h : joinScan stale info n u.length (u ++ w) = (true, l')) : ∀ a ∈ l', ¬ clashes info a := by
  refine joinScan_keeps (l := u ++ w) (fun a ha => ha) ?hvisit n hn (List.Sublist.refl _) hu ?hchain h
  case hvisit =>
    intro u m v lv hsub hc hs hv
    have hun' : Unique (u ++ m :: v) := hun.sublist hsub
    have hspec := joinVisit_of_suspended stale (v := v)
      (fun a ha => hun'.pid_ne a (List.mem_append_left v ha)) hc hs (hstale m (hsub.subset (by simp)))
    rw [hv] at hspec
    by_cases hb : m.pid = info.joinExitProcessPid ∧ m.pname = info.joinExitProcessName
    · rw [if_pos hb] at hspec
      exact Or.inr fun a ha => not_clashes_of_both hun' hb a (hspec.subset ha)
    · rw [if_neg hb] at hspec
      exact Or.inl (Prod.mk.inj hspec).2
  case hchain => exact hchain.imp fun m b hno hc hs hb => hno ⟨hc, hs, hb⟩

/-- No suspended member in the way is followed at once by a member with the process id of the
joining process. -/
def NoSkippedPid (info : JoinExitInfo) (l : List MlistMember) : Prop :=
  l.IsChain fun m m' => ¬ (clashes info m ∧ m.suspend ∧ m'.pid = info.joinExitProcessPid)

instance (info : JoinExitInfo) (l : List MlistMember) : Decidable (NoSkippedPid info l) :=
  inferInstanceAs (Decidable (List.IsChain _ l))

/-- A scan that goes through has taken out the member with the process id, whatever the names. -/
theorem joinScan_pid_free (n : ℕ) (hn : (u ++ w).length ≤ n + u.length)
    (hu : ∀ a ∈ u, a.pid ≠ info.joinExitProcessPid)
    (hnd : ((u ++ w).map MlistMember.pid).Nodup) (hchain : NoSkippedPid info w)
    (h : joinScan stale info n u.length (u ++ w) = (true, l')) :
    ∀ a ∈ l', a.pid ≠ info.joinExitProcessPid := by
  refine joinScan_keeps (l := u ++ w) ?hpass ?hvisit n hn (List.Sublist.refl _) hu ?hchain h
  case hpass => exact fun a ha hp => ha (clashes_iff.2 (Or.inl hp))
  case hvisit =>
    intro u m v lv hsub hc hs hv
    have hpid := pid_ne_of_nodup (hnd.sublist (hsub.map _))
    have hrem : ipcdMlistRemoveViaPid m.pid (u ++ m :: v) = u ++ v :=
      ipcdMlistRemoveViaPid_append fun a ha => hpid a (List.mem_append_left v ha)
    by_cases hp : m.pid = info.joinExitProcessPid
    · -- it was the only one of the process id
      have hvisit := joinVisit_suspended_sublist stale (l := u ++ m :: v) u.length hc hs
      rw [hrem, hv] at hvisit
      exact Or.inr fun a ha hc => hpid a (hvisit.subset ha) (hc.trans hp.symm)
    · have hname : m.pname = info.joinExitProcessName := (clashes_iff.1 hc).resolve_left hp
      have hvisit : joinVisit stale info u.length m (u ++ m :: v) = (true, u ++ v) := by
        simp [joinVisit, hp, hs, hname, hrem]
      exact Or.inl (Prod.mk.inj (hv.symm.trans hvisit)).2
  case hchain => exact hchain.imp fun m b hno hc hs hb => hno ⟨hc, hs, hb⟩

variable (stale) in
/-- The scan passes a stretch of members that are not in the way. -/
theorem joinScan_pass (n : ℕ) (hv : ∀ a ∈ v, ¬ clashes info a) :
    joinScan stale info (v.length + n) u.length (u ++ v ++ w) =
      joinScan stale info n (u ++ v).length (u ++ v ++ w) := by
  induction v generalizing u with
  | nil => simp
  | cons m v ih =>
    have hget : (u ++ m :: v ++ w)[u.length]? = some m := by simp
    have hrounds : (m :: v).length + n = (v.length + n) + 1 := by simp; omega
    have hshape : u ++ m :: v = (u ++ [m]) ++ v := by simp
    rw [hrounds, joinScan, hget]
    simp only [joinVisit_of_not_clashes (hv m (by simp))]
    rw [hshape]
    simpa using ih (u := u ++ [m]) fun a ha => hv a (by simp [ha])

/-- With distinct process ids and names, two members in the way are all there are, and each is
in the way for one reason only. -/
theorem not_clashes_of_two {a b : MlistMember} (h : Unique (u ++ a :: v ++ b :: w))
    (ha : clashes info a) (hb : clashes info b) :
    (∀ c ∈ u ++ v ++ w, ¬ clashes info c) ∧
      ¬ (a.pid = info.joinExitProcessPid ∧ a.pname = info.joinExitProcessName) := by
  have hua : Unique (u ++ a :: (v ++ b :: w)) := by simpa using h
  have hpa := hua.pid_ne
  have hna := hua.pname_ne
  have hpb := h.pid_ne
  have hnb := h.pname_ne
  have habp : b.pid ≠ a.pid := hpa b (by simp)
  have habn : b.pname ≠ a.pname := hna b (by simp)
  have hboth : ¬ (a.pid = info.joinExitProcessPid ∧ a.pname = info.joinExitProcessName) := by
    rintro ⟨hp, hn⟩
    exact not_clashes_of_both hua ⟨hp, hn⟩ b (by simp) hb
  refine ⟨fun c hc hcl => ?_, hboth⟩
  have hca : c ∈ u ++ (v ++ b :: w) := by
    simp only [List.mem_append, List.mem_cons] at hc ⊢
    tauto
  have hcb : c ∈ (u ++ a :: v) ++ w := by
    simp only [List.mem_append, List.mem_cons] at hc ⊢
    tauto
  rcases clashes_iff.1 ha with hap | han
  · rcases clashes_iff.1 hb with hbp | hbn
    · exact habp (hbp.trans hap.symm)
    · rcases clashes_iff.1 hcl with hcp | hcn
      · exact hpa c hca (hcp.trans hap.symm)
      · exact hnb c hcb (hcn.trans hbn.symm)
  · rcases clashes_iff.1 hb with hbp | hbn
    · rcases clashes_iff.1 hcl with hcp | hcn
      · exact hpb c hcb (hcp.trans hbp.symm)
      · exact hna c hca (hcn.trans han.symm)
    · exact habn (hbn.trans han.symm)

/-- Two members in the way, the first of them suspended: the scan takes the first out, steps over
the member after it, and is at the one after that. -/
theorem joinScan_of_two {a b : MlistMember} (h : Unique (u ++ a :: v ++ b :: w))
    (ha : clashes info a) (hs : a.suspend = true) (hb : clashes info b)
    (hstale : NameKept stale (u ++ a :: v ++ b :: w)) :
    joinScan stale info (u ++ a :: v ++ b :: w).length 0 (u ++ a :: v ++ b :: w) =
      joinScan stale info (v ++ b :: w).length (u.length + 1) (u ++ (v ++ b :: w)) := by
  obtain ⟨hno, hboth⟩ := not_clashes_of_two h ha hb
  have hua : Unique (u ++ a :: (v ++ b :: w)) := by simpa using h
  have hlist : u ++ a :: v ++ b :: w = [] ++ u ++ a :: (v ++ b :: w) := by simp
  have hrounds : (u ++ a :: v ++ b :: w).length = u.length + ((v ++ b :: w).length + 1) := by
    simp
  have hpass := joinScan_pass stale (u := []) (v := u) (w := a :: (v ++ b :: w))
    ((v ++ b :: w).length + 1) fun c hc => hno c (by simp [hc])
  have hvisit := joinVisit_of_suspended stale (u := u) (v := v ++ b :: w)
    (fun c hc => hua.pid_ne c (by simp [hc])) ha hs (hstale a (by simp))
  rw [if_neg hboth] at hvisit
  have hget : (u ++ a :: (v ++ b :: w))[u.length]? = some a := by simp
  rw [hrounds, hlist]
  refine hpass.trans ?_
  simp only [List.nil_append, joinScan, hget, hvisit]

/-- A list without the property has two neighbours that show it. -/
theorem exists_skipped_clash (h : ¬ NoSkippedClash info l) : ∃ u a b w,
    l = u ++ a :: b :: w ∧ clashes info a ∧ a.suspend ∧ clashes info b := by
  rw [NoSkippedClash, List.isChain_iff_forall_rel_of_append_cons_cons] at h
  push Not at h
  obtain ⟨a, b, u, w, hl, hab⟩ := h
  exact ⟨u, a, b, w, hl, hab⟩

/-- **A join keeps a table of distinct members distinct exactly when no clash is skipped.** -/
theorem ipcdJoin_unique_iff {addr : ℕ} (h : Unique l)
    (hlen : info.joinExitProcessName.length < processNameMaxSize) (hstale : NameKept stale l) :
    Unique (ipcdJoin stale info addr l).2 ↔ NoSkippedClash info l := by
  constructor
  · intro hun
    by_contra hskip
    obtain ⟨u, a, b, w, rfl, ha, hs, hb⟩ := exists_skipped_clash hskip
    have htwo := joinScan_of_two (v := []) (by simpa using h) ha hs hb (by simpa using hstale)
    have hno := (not_clashes_of_two (v := []) (by simpa using h) ha hb).1
    simp only [List.append_assoc, List.cons_append, List.nil_append, List.append_nil] at htwo hno
    have hshape : u ++ b :: w = (u ++ [b]) ++ w := by simp
    have hidx : u.length + 1 = (u ++ [b]).length := by simp
    have hrest : joinScan stale info (b :: w).length (u.length + 1) (u ++ b :: w) =
        (true, u ++ b :: w) := by
      refine joinScan_of_not_clashes _ _ fun c hc => hno c ?_
      rw [hshape, hidx, List.drop_left] at hc
      simp [hc]
    have hjoin : (ipcdJoin stale info addr (u ++ a :: b :: w)).2 =
        u ++ b :: (w ++ [newMember info addr]) := by
      rw [ipcdJoin, htwo, hrest]
      simp
    -- the member that was stepped over still has the process id or the name of the new one
    rw [hjoin] at hun
    have hname : (newMember info addr).pname = info.joinExitProcessName := snprintf_of_lt hlen
    rcases clashes_iff.1 hb with hp | hn
    · exact hun.pid_ne (newMember info addr) (by simp) hp.symm
    · exact hun.pname_ne (newMember info addr) (by simp) (hname.trans hn.symm)
  · intro hchain
    rcases he : joinScan stale info l.length 0 l with ⟨b, l'⟩
    have hsub : l'.Sublist l := by
      simpa [he] using joinScan_sublist stale info l.length 0 l
    cases b with
    | false => simpa [ipcdJoin, he] using h.sublist hsub
    | true =>
      have hno := joinScan_unique (u := []) (w := l) l.length (by simp) (by simp) (by simpa using h)
        hchain (by simpa using hstale) (by simpa using he)
      simpa [ipcdJoin, he] using (h.sublist hsub).append addr hlen hno

end Scan

/-! ## Refusals -/

section Refusal

variable {stale : MlistMember → MlistMember} {info : JoinExitInfo} {m : MlistMember}
  {u v w l l' : List MlistMember}

/-- Every live member in the way comes before the suspended ones in the way, or right behind
one. -/
def NoLateRefusal (info : JoinExitInfo) (l : List MlistMember) : Prop :=
  ∀ u a v b w, l = u ++ a :: v ++ b :: w → clashes info a → a.suspend = true →
    clashes info b → b.suspend = false → v = []

/-- Where the reads of freed members still give what they held. -/
def ReadsKept (stale : MlistMember → MlistMember) (l : List MlistMember) : Prop :=
  ∀ m ∈ l, (stale m).pname = m.pname ∧ (stale m).suspend = m.suspend

theorem ReadsKept.nameKept (h : ReadsKept stale l) : NameKept stale l := fun m hm => (h m hm).1

theorem ReadsKept.sublist (h : ReadsKept stale l) (hs : l'.Sublist l) : ReadsKept stale l' :=
  fun m hm => h m (hs.subset hm)

variable (info) in
/-- A visit to a suspended member never refuses. -/
theorem joinVisit_suspended_fst {i : ℕ} (hm : m ∈ l) (hs : m.suspend = true)
    (hstale : ReadsKept stale l) : (joinVisit stale info i m l).1 = true := by
  have hread : (readAfterRemove stale l i m).suspend = true := by
    unfold readAfterRemove
    split
    · rw [(hstale m hm).2, hs]
    · exact hs
  unfold joinVisit
  extract_lets samePid tmlm' mlist' sameName
  have hread' : tmlm'.suspend = true := by
    show (if samePid = true then readAfterRemove stale l i m else m).suspend = true
    split
    · exact hread
    · exact hs
  rw [if_neg (by simp [hs])]
  show (if (sameName && !tmlm'.suspend) = true then _ else _ : Bool × List MlistMember).1 = true
  rw [if_neg (by simp [hread'])]

variable (info) in
/-- Where every member in the way is suspended the scan goes through. -/
theorem joinScan_goes_through (n i : ℕ) (hstale : ReadsKept stale l)
    (h : ∀ a ∈ l.drop i, clashes info a → a.suspend = true) :
    (joinScan stale info n i l).1 = true := by
  induction n generalizing i l with
  | zero => rfl
  | succ n ih =>
    have hnext : ∀ l' : List MlistMember, l'.Sublist l →
        ∀ a ∈ l'.drop (i + 1), clashes info a → a.suspend = true := fun l' hsub a ha =>
      h a ((List.drop_sublist_drop_left l (Nat.le_succ i)).subset ((hsub.drop (i + 1)).subset ha))
    simp only [joinScan]
    split
    · exact ih _ hstale (hnext l (List.Sublist.refl l))
    · rename_i m hm
      have hmem : m ∈ l := List.mem_of_getElem? hm
      have hsub := joinVisit_sublist stale info i m l
      have hfst : (joinVisit stale info i m l).1 = true := by
        by_cases hc : clashes info m
        · have hhead : m ∈ l.drop i := List.mem_of_mem_head? (by simpa using hm)
          exact joinVisit_suspended_fst info hmem (h m hhead hc) hstale
        · rw [joinVisit_of_not_clashes hc]
      rcases he : joinVisit stale info i m l with ⟨b, l'⟩
      rw [he] at hsub hfst
      obtain rfl : b = true := hfst
      exact ih _ (hstale.sublist hsub) (hnext l' hsub)

/-- After a removal at or before a place, the members from the next place on are those from the
second next place on. -/
theorem drop_ipcdMlistRemoveViaPid :
    (ipcdMlistRemoveViaPid m.pid (u ++ m :: v)).drop (u.length + 1) = v.drop 1 := by
  by_cases hu : ∃ a ∈ u, hasPid m.pid a = true
  · obtain ⟨a, ha, hpa⟩ := hu
    have hlen : (u.eraseP (hasPid m.pid)).length = u.length - 1 := List.length_eraseP_of_mem ha hpa
    have hpos : 0 < u.length := List.length_pos_of_mem ha
    have hidx : u.length + 1 = (u.eraseP (hasPid m.pid)).length + 2 := by omega
    rw [ipcdMlistRemoveViaPid, List.eraseP_append_left hpa _ ha, hidx, List.drop_append]
    simp
  · have hnone : ∀ a ∈ u, a.pid ≠ m.pid := fun a ha hc => hu ⟨a, ha, by simpa using hc⟩
    rw [ipcdMlistRemoveViaPid_append hnone, List.drop_append]
    simp

variable (info) in
/-- The first member in the way, if there is one. -/
theorem exists_first_clash (l : List MlistMember) : (∀ a ∈ l, ¬ clashes info a) ∨
    ∃ u m v, l = u ++ m :: v ∧ (∀ a ∈ u, ¬ clashes info a) ∧ clashes info m := by
  induction l with
  | nil => exact Or.inl (by simp)
  | cons a l ih =>
    by_cases ha : clashes info a
    · exact Or.inr ⟨[], a, l, rfl, by simp, ha⟩
    · rcases ih with hno | ⟨u, m, v, rfl, hu, hm⟩
      · exact Or.inl (List.forall_mem_cons.2 ⟨ha, hno⟩)
      · exact Or.inr ⟨a :: u, m, v, rfl, List.forall_mem_cons.2 ⟨ha, hu⟩, hm⟩

/-- The first member in the way is live. -/
def FirstClashLive (info : JoinExitInfo) (l : List MlistMember) : Prop :=
  ∃ m, l.find? (clashes info) = some m ∧ m.suspend = false

theorem find?_first_clash (hu : ∀ a ∈ u, ¬ clashes info a) (hm : clashes info m) :
    (u ++ m :: v).find? (clashes info) = some m := by
  have hnone : u.find? (clashes info) = none := List.find?_eq_none.2 hu
  rw [List.find?_append, hnone, Option.none_or, List.find?_cons_of_pos hm]

/-- The join is refused if the scan is, and then the table is the one that the scan leaves. -/
theorem ipcdJoin_eq_none {addr : ℕ} (h : (ipcdJoin stale info addr l).1 = none) :
    (joinScan stale info l.length 0 l).1 = false ∧
      (ipcdJoin stale info addr l).2 = (joinScan stale info l.length 0 l).2 := by
  rcases he : joinScan stale info l.length 0 l with ⟨_ | _, l'⟩ <;> simp_all [ipcdJoin]

variable (stale) in
/-- The scan comes to the first member in the way with the table as it was. -/
theorem joinScan_first_clash (hu : ∀ a ∈ u, ¬ clashes info a) :
    joinScan stale info (u ++ m :: v).length 0 (u ++ m :: v) =
      joinScan stale info (v.length + 1) u.length (u ++ m :: v) := by
  have hrounds : (u ++ m :: v).length = u.length + (v.length + 1) := by simp
  rw [hrounds]
  simpa using joinScan_pass stale (u := []) (v := u) (w := m :: v) (v.length + 1) hu

variable (stale) in
/-- A scan whose first member in the way is live ends there. -/
theorem joinScan_of_firstClashLive (h : FirstClashLive info l) :
    joinScan stale info l.length 0 l = (false, l) := by
  obtain ⟨m, hfind, hs⟩ := h
  rcases exists_first_clash info l with hno | ⟨u, a, v, rfl, hu, ha⟩
  · rw [List.find?_eq_none.2 hno] at hfind
    cases hfind
  · obtain rfl : a = m := by
      rw [find?_first_clash hu ha] at hfind
      exact Option.some.inj hfind
    have hget : (u ++ a :: v)[u.length]? = some a := by simp
    rw [joinScan_first_clash stale hu, joinScan, hget]
    simp only [joinVisit_of_live ha hs]

variable (stale) in
/-- A scan whose first member in the way is suspended makes the table shorter. -/
theorem joinScan_length_lt (hu : ∀ a ∈ u, ¬ clashes info a) (hm : clashes info m)
    (hs : m.suspend = true) :
    (joinScan stale info (u ++ m :: v).length 0 (u ++ m :: v)).2.length <
      (u ++ m :: v).length := by
  have hget : (u ++ m :: v)[u.length]? = some m := by simp
  have hsub := joinVisit_suspended_sublist stale (l := u ++ m :: v) u.length hm hs
  have hshort : (ipcdMlistRemoveViaPid m.pid (u ++ m :: v)).length < (u ++ m :: v).length := by
    have hmem : m ∈ u ++ m :: v := by simp
    have hself : hasPid m.pid m = true := by simp
    have hpos := List.length_pos_of_mem hmem
    rw [ipcdMlistRemoveViaPid, List.length_eraseP_of_mem hmem hself]
    omega
  rw [joinScan_first_clash stale hu, joinScan, hget]
  rcases he : joinVisit stale info u.length m (u ++ m :: v) with ⟨_ | _, l'⟩
  · rw [he] at hsub
    simp only [he]
    exact lt_of_le_of_lt hsub.length_le hshort
  · rw [he] at hsub
    simp only [he]
    exact lt_of_le_of_lt ((joinScan_sublist stale info _ _ l').trans hsub).length_le hshort

/-- A refusal that meets no live member late leaves the table as it was. -/
theorem ipcdJoin_refused (addr : ℕ) (hlate : NoLateRefusal info l) (hstale : ReadsKept stale l)
    (h : (ipcdJoin stale info addr l).1 = none) : (ipcdJoin stale info addr l).2 = l := by
  obtain ⟨hfst, hsnd⟩ := ipcdJoin_eq_none h
  rw [hsnd]
  rcases exists_first_clash info l with hno | ⟨u, m, v, rfl, hu, hm⟩
  · rw [joinScan_of_not_clashes _ _ fun a ha => hno a (List.mem_of_mem_drop ha)]
  · have hget : (u ++ m :: v)[u.length]? = some m := by simp
    rw [joinScan_first_clash stale hu] at hfst ⊢
    simp only [joinScan, hget] at hfst ⊢
    cases hs : m.suspend with
    | false => rw [joinVisit_of_live hm hs]
    | true =>
      -- nothing live is in the way any more, so the scan would have gone through
      have hsub := joinVisit_suspended_sublist stale (l := u ++ m :: v) u.length hm hs
      have hgoes := joinVisit_suspended_fst info (i := u.length) (m := m)
        (l := u ++ m :: v) (by simp) hs hstale
      have hkept := hstale.sublist
        (joinVisit_sublist stale info u.length m (u ++ m :: v))
      rcases he : joinVisit stale info u.length m (u ++ m :: v) with ⟨b, l'⟩
      rw [he] at hsub hgoes hkept hfst
      obtain rfl : b = true := hgoes
      have hthrough := joinScan_goes_through info v.length (u.length + 1) hkept ?_
      · rw [hthrough] at hfst
        exact absurd hfst (by simp)
      · intro b hb hcb
        have hbv : b ∈ v.drop 1 := by
          rw [← drop_ipcdMlistRemoveViaPid (u := u) (m := m)]
          exact (hsub.drop _).subset hb
        by_contra hlive
        cases v with
        | nil => simp at hbv
        | cons c v =>
          obtain ⟨s, t, rfl⟩ := List.append_of_mem (by simpa using hbv : b ∈ v)
          have := hlate u m (c :: s) b t (by simp) hm hs hcb (by simpa using hlive)
          simp at this

/-- **In every table a refused join leaves the table as it was exactly if the first member in the
way is live**: a suspended one is taken out before the refusal. -/
theorem ipcdJoin_refused_iff {addr : ℕ} (h : (ipcdJoin stale info addr l).1 = none) :
    (ipcdJoin stale info addr l).2 = l ↔ FirstClashLive info l := by
  obtain ⟨hfst, hsnd⟩ := ipcdJoin_eq_none h
  rw [hsnd]
  constructor
  · intro hsame
    rcases exists_first_clash info l with hno | ⟨u, m, v, rfl, hu, hm⟩
    · rw [joinScan_of_not_clashes _ _ fun a ha => hno a (List.mem_of_mem_drop ha)] at hfst
      cases hfst
    · cases hs : m.suspend with
      | false => exact ⟨m, find?_first_clash hu hm, hs⟩
      | true =>
        have hlt := joinScan_length_lt stale (v := v) hu hm hs
        rw [hsame] at hlt
        exact absurd hlt (lt_irrefl _)
  · intro hlive
    rw [joinScan_of_firstClashLive stale hlive]

variable (info) in
/-- With distinct process ids and names, a live member in the way further behind a suspended one
is met after the removal. -/
theorem ipcdJoin_refused_late (addr : ℕ) (h : Unique l) (hstale : ReadsKept stale l)
    (hlate : ¬ NoLateRefusal info l) : (ipcdJoin stale info addr l).1 = none ∧
      (ipcdJoin stale info addr l).2 ≠ l := by
  simp only [NoLateRefusal] at hlate
  push Not at hlate
  obtain ⟨u, a, v, b, w, rfl, ha, hs, hb, hlive, hv⟩ := hlate
  obtain ⟨x, v, rfl⟩ := List.exists_cons_of_ne_nil hv
  have htwo := joinScan_of_two h ha hs hb hstale.nameKept
  have hno := (not_clashes_of_two h ha hb).1
  have hpass := joinScan_pass stale (u := u ++ [x]) (v := v) (w := b :: w)
    (w.length + 1 + 1) fun c hc => hno c (by simp [hc])
  have hget : (u ++ x :: v ++ b :: w)[(u ++ x :: v).length]? = some b := by simp
  have hscan : joinScan stale info (u ++ a :: x :: v ++ b :: w).length 0
      (u ++ a :: x :: v ++ b :: w) = (false, u ++ x :: v ++ b :: w) := by
    rw [htwo]
    have hrounds : (x :: v ++ b :: w).length = v.length + (w.length + 1 + 1) := by simp; omega
    have hshape : u ++ (x :: v ++ b :: w) = u ++ [x] ++ v ++ b :: w := by simp
    have hidx : u.length + 1 = (u ++ [x]).length := by simp
    have hend : u ++ [x] ++ v = u ++ x :: v := by simp
    rw [hrounds, hshape, hidx, hpass, hend, joinScan, hget]
    simp only [joinVisit_of_live hb hlive]
  rw [ipcdJoin, hscan]
  refine ⟨rfl, fun he => ?_⟩
  have := congrArg List.length he
  simp at this

end Refusal

end EasyIpc

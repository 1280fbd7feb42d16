import EasyIpc.Broadcast
import EasyIpc.Membership
import EasyIpc.Sockets

/-!
# The ports of the members

The messages of the daemon are delivered in order where no two members of its table have their message port
at the same address.  Every handle has sockets of its own, but a member may outlive its program, whose ports
another handle can get.

* `HostAct.Orderly` — the steps in which no member outlives its program.
* `NoneOutlives` — what they keep.
* `members_apart` — after such steps no two members have a message port in common.
-/

namespace EasyIpc

open FirstMatch Transition

section Members

variable {maxSize loopback : ℕ} {s s' : Host} {act : HostAct} {program : ℤ}

/-- A program that runs has a handle with the process id. -/
def Host.IsThere (s : Host) (pid : ℤ) : Prop := ∃ program, ∃ h ∈ (s.handles program).ipcList, h.pid = pid

/-- A join skips no clash and comes from a handle that is there, and a program ends when the table has
forgotten its handles. -/
def HostAct.Orderly (loopback : ℕ) (s : Host) : HostAct → Prop
  | .request stale pkt => JoinSkipsNone s.daemon.mlist (.recv stale loopback pkt) ∧
      ∀ info, pkt.body = .join info → s.IsThere info.joinExitProcessPid
  | .ends program => ∀ h ∈ (s.handles program).ipcList, ∀ m ∈ s.daemon.mlist, h.pid ≠ m.pid
  | _ => True

/-- New handles find room, and the step is orderly. -/
def Tidy (loopback : ℕ) (s : Host) (act : HostAct) (s' : Host) : Prop :=
  RoomFor s act s' ∧ act.Orderly loopback s

/-- The members are distinct, and none outlives its program. -/
structure NoneOutlives (s : Host) : Prop where
  unique : Unique s.daemon.mlist
  there : ∀ m ∈ s.daemon.mlist, s.IsThere m.pid

/-- A step that leaves the table and the handles of its members. -/
theorem NoneOutlives.keep (hN : NoneOutlives s) (hd : s'.daemon = s.daemon)
    (hkeep : ∀ m ∈ s.daemon.mlist, ∀ p, ∀ h ∈ (s.handles p).ipcList, h.pid = m.pid →
      h ∈ (s'.handles p).ipcList) : NoneOutlives s' := by
  refine ⟨hd ▸ hN.unique, fun m hm => ?_⟩
  rw [hd] at hm
  obtain ⟨p, h, hh, hpid⟩ := hN.there m hm
  exact ⟨p, h, hkeep m hm p h hh hpid, hpid⟩

/-- A step of the daemon. -/
theorem NoneOutlives.onDaemon (hN : NoneOutlives s) {act : DaemonAct}
    (hsafe : ∀ d', JoinsSafe s.daemon act d') (hthere : ∀ k, JoinsAs act k → s.IsThere k.pid)
    (hst : s.onDaemon act = some s') : NoneOutlives s' := by
  obtain ⟨⟨d, out⟩, hd, rfl⟩ := Option.map_eq_some_iff.1 hst
  refine ⟨unique_step hd hN.unique (hsafe d), fun m hm => ?_⟩
  rcases Daemon.step_idents hd (List.mem_map_of_mem (f := MlistMember.ident) hm) with hk | hk
  · obtain ⟨m', hm', he⟩ := List.mem_map.1 hk
    have hpid : m'.pid = m.pid := congrArg Ident.pid he
    exact hpid ▸ hN.there m' hm'
  · exact hthere m.ident hk

/-- The name in a join that has been sent fits its field. -/
theorem HostInv.joinNameFits (hI : HostInv loopback s) {stale : MlistMember → MlistMember} {addr : ℕ}
    {pkt : IpcPacket} (hsent : pkt ∈ s.requests) : JoinNameFits (.recv stale addr pkt) := by
  obtain ⟨sendPid, body⟩ := pkt
  cases body with
  | join info =>
    obtain ⟨h, -, rfl⟩ := hI.joins _ hsent info rfl
    exact length_snprintf_lt (by decide : 0 < processNameMaxSize) h.aliasName
  | _ => trivial

/-- One program's list of handles grows, or stays. -/
theorem mem_update_ipcList {handles : Handles} {p : ℤ} {h : IpcHandle}
    (hsub : ∀ g ∈ (s.handles program).ipcList, g ∈ handles.ipcList) (hh : h ∈ (s.handles p).ipcList) :
    h ∈ (Function.update s.handles program handles p).ipcList := by
  by_cases hp : p = program
  · subst hp
    rw [Function.update_self]
    exact hsub h hh
  · rw [Function.update_of_ne hp]
    exact hh

/-- **Every orderly step keeps the members distinct, and none outlives its program.** -/
theorem NoneOutlives.step (hI : HostInv loopback s) (hN : NoneOutlives s)
    (hok : act.Orderly loopback s) (hst : s.step maxSize loopback act = some s') : NoneOutlives s' := by
  cases act with
  | creat program pname any =>
    obtain ⟨m, a, h, handles, packets, -, hlist, -, -, -, -, rfl⟩ := Host.creat_eq_some hst
    refine hN.keep rfl fun _ _ p g hg _ => mem_update_ipcList (fun g hg => ?_) hg
    exact hlist ▸ List.mem_append_left _ hg
  | retry program ipc =>
    obtain ⟨h, -, rfl⟩ := Option.map_eq_some_iff.1 hst
    exact hN.keep rfl fun _ _ _ _ hg _ => hg
  | send program ipc body =>
    simp only [Host.step] at hst
    split at hst
    · cases hst
    · obtain ⟨h, -, rfl⟩ := Option.map_eq_some_iff.1 hst
      exact hN.keep rfl fun _ _ _ _ hg _ => hg
  | exit program ipc =>
    cases hst
    refine hN.keep rfl fun _ _ p g hg _ => mem_update_ipcList (fun g hg => ?_) hg
    have hlist : ((s.handles program).ipcExit maxSize ipc).1.ipcList = (s.handles program).ipcList :=
      ipcExit_ipcList (s.handles program) ipc
    exact hlist.symm ▸ hg
  | hangup program signalNo =>
    cases hst
    exact hN.keep rfl fun _ _ _ _ hg _ => hg
  | ends program =>
    cases hst
    refine hN.keep rfl fun m hm p g hg hpid => ?_
    -- the program that ends has no handle of a member
    have hp : p ≠ program := by
      rintro rfl
      exact hok g hg m hm hpid
    show g ∈ (Function.update s.handles program {} p).ipcList
    rw [Function.update_of_ne hp]
    exact hg
  | binds program port =>
    simp only [Host.step] at hst
    split at hst
    · cases hst
    · cases hst
      exact hN.keep rfl fun _ _ _ _ hg _ => hg
  | request stale pkt =>
    simp only [Host.step] at hst
    split at hst
    · rename_i hsent
      obtain ⟨hskips, hthere⟩ := hok
      refine hN.onDaemon (fun _ => ⟨hI.joinNameFits hsent, hskips⟩) ?_ hst
      rintro k ⟨stale', addr, sendPid, info, he, rfl⟩
      cases he
      exact hthere info rfl
    · cases hst
  | thread act =>
    simp only [Host.step] at hst
    split at hst
    · cases hst
    · rename_i hrecv
      refine hN.onDaemon (fun _ => ?_) ?_ hst
      · cases act with
        | recv stale addr pkt => exact absurd rfl hrecv
        | _ => exact ⟨trivial, trivial⟩
      · rintro k ⟨stale, addr, sendPid, info, rfl, -⟩
        exact absurd rfl hrecv

/-- A member whose program runs has the message port of a socket of its own. -/
theorem HostInv.msgSocket (hI : HostInv loopback s) {m : MlistMember} (hm : m ∈ s.daemon.mlist)
    (hthere : s.IsThere m.pid) :
    ∃ k ∈ s.sockets, k.use = .msg m.pid ∧ m.ident.msgEndpoint = ⟨loopback, k.port⟩ := by
  obtain ⟨p, h, hh, hpid⟩ := hthere
  obtain ⟨g, hg, he⟩ := hI.members m.ident (List.mem_map_of_mem hm)
  have hpid' : m.pid = g.pid := congrArg Ident.pid he
  obtain rfl : h = g := List.inj_on_of_nodup_map hI.pids (hI.made p h hh) hg (hpid.trans hpid')
  exact ⟨_, (hI.bound p h hh).msg, by rw [hpid], by rw [he]; rfl⟩

/-- **No two members of the table have a message port in common**, in a run in which no member outlives
its program. -/
theorem members_apart (hr : Reach (hostLts maxSize loopback) (Tidy loopback) s) :
    PortsDistinct s.daemon.mlist := by
  have hboth : HostInv loopback s ∧ NoneOutlives s := by
    refine hr.invariant (I := fun s => HostInv loopback s ∧ NoneOutlives s) ⟨hostInv_init, ?_⟩ ?_
    · exact ⟨Unique.nil, fun m hm => absurd hm (List.not_mem_nil)⟩
    · rintro s act s' _ ⟨hI, hN⟩ hst ⟨hroom, horder⟩
      exact ⟨hI.step hroom hst, hN.step hI horder hst⟩
  obtain ⟨hI, hN⟩ := hboth
  refine List.Nodup.map_on ?_ (List.Nodup.of_map _ hN.unique.pids)
  intro a ha b hb he
  obtain ⟨k, hk, huse, hend⟩ := hI.msgSocket ha (hN.there a ha)
  obtain ⟨k', hk', huse', hend'⟩ := hI.msgSocket hb (hN.there b hb)
  have hport : k.port = k'.port := congrArg Endpoint.port (hend.symm.trans (he.trans hend'))
  obtain rfl : k = k' := List.inj_on_of_nodup_map hI.apart hk hk' hport
  exact List.inj_on_of_nodup_map hN.unique.pids ha hb (SocketUse.msg.inj (huse.symm.trans huse'))

end Members

/-- Two programs join. -/
theorem members_apart_two : ∃ s, Reach (hostLts 4096 1) (Tidy 1) s ∧
    s.daemon.mlist.map MlistMember.pid = [1000100, 1000200] ∧ PortsDistinct s.daemon.mlist := by
  have h1 : Reach (hostLts 4096 1) (Tidy 1) _ :=
    .step (a := .creat 100 (some [97]) (none, none)) .init rfl ⟨by decide +kernel, trivial⟩
  have h2 : Reach (hostLts 4096 1) (Tidy 1) _ :=
    .step (a := .creat 200 (some [98]) (none, none)) h1 rfl ⟨by decide +kernel, trivial⟩
  have h3 : Reach (hostLts 4096 1) (Tidy 1) _ :=
    .step (a := .request id ⟨1000100, .join ⟨1000100, [97], 40101, 40100, 0⟩⟩) h2 rfl
      ⟨by decide +kernel, ⟨by decide, fun _ _ => rfl⟩, by
        rintro info ⟨⟩
        exact ⟨100, _, List.mem_singleton_self _, rfl⟩⟩
  have h4 : Reach (hostLts 4096 1) (Tidy 1) _ :=
    .step (a := .request id ⟨1000200, .join ⟨1000200, [98], 40103, 40102, 0⟩⟩) h3 rfl
      ⟨by decide +kernel, ⟨by decide, fun _ _ => rfl⟩, by
        rintro info ⟨⟩
        exact ⟨200, _, List.mem_singleton_self _, rfl⟩⟩
  exact ⟨_, h4, by decide, members_apart h4⟩

end EasyIpc

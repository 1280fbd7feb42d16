import EasyIpc.Handles
import EasyIpc.Registry
import Mathlib.Data.List.Nodup
import Mathlib.Data.List.Perm.Subperm

/-!
# The ports of a handle

`ipc_creat` binds two sockets for a handle, one for messages and one for calls.  It tries the ports from
`IPC_CLI_PORT_BASE` on, one after the other, until `bind` takes one; nothing stops the loop.  The port is
an `int` of which `htons` leaves 16 bits, and `bind` takes the port 0 for "any free port".

* `reBind` — the loops `msg_re_bind` and `api_re_bind`.
* `reBind_stuck` — a loop that has tried all ports in vain goes on for ever.
* `bindBoth_isGranted` — where the machine has few enough sockets, the handle announces the ports that its
  sockets have.
-/

namespace EasyIpc

/-- `IPC_CLI_PORT_BASE`. -/
def ipcCliPortBase : ℤ := 40100

/-- A socket that `bind` has accepted: the port in the handle, and the port that the socket has. -/
structure BoundPort where
  announced : ℤ
  bound : ℤ
  deriving DecidableEq, Repr

/-- `bind` for the port in `sin_port`, with the port that the system takes for 0, if it has one. -/
def bindPort (taken : List ℤ) (any : Option ℤ) (sinPort : ℤ) : Option ℤ :=
  if sinPort = 0 then any else if sinPort ∈ taken then none else some sinPort

/-- The loops `msg_re_bind` and `api_re_bind`, for a number of rounds. -/
def reBind (taken : List ℤ) (any : Option ℤ) : ℕ → ℤ → Option BoundPort
  | 0, _ => none
  | rounds + 1, port =>
      match bindPort taken any (htons port) with
      | some bound => some ⟨port, bound⟩
      | none => reBind taken any rounds (port + 1)

/-- How many ports there are.  After so many rounds the loop tries the same again. -/
def portCount : ℕ := 65536

/-- Both loops: for messages, and with the next port on for calls. -/
def bindBoth (taken : List ℤ) (any : Option ℤ × Option ℤ) : Option (BoundPort × BoundPort) :=
  (reBind taken any.1 portCount ipcCliPortBase).bind fun m =>
    (reBind (m.bound :: taken) any.2 portCount (m.announced + 1)).map fun a => (m, a)

section Loop

variable {taken : List ℤ} {any : Option ℤ} {rounds : ℕ} {port q : ℤ} {b : BoundPort}

theorem htons_of_lt (h0 : 0 ≤ port) (h : port < 65536) : htons port = port := by
  unfold htons
  omega

/-- The loop has ended at the first port that `bind` takes. -/
theorem reBind_eq_some (h : reBind taken any rounds port = some b) :
    port ≤ b.announced ∧ bindPort taken any (htons b.announced) = some b.bound ∧
      ∀ q, port ≤ q → q < b.announced → bindPort taken any (htons q) = none := by
  induction rounds generalizing port with
  | zero => cases h
  | succ rounds ih =>
    rw [reBind] at h
    split at h
    · rename_i bound hbound
      cases h
      exact ⟨Int.le_refl _, hbound, fun q hle hlt => absurd hlt (Int.not_lt.2 hle)⟩
    · rename_i hnone
      obtain ⟨hle, hbound, hbefore⟩ := ih h
      refine ⟨by omega, hbound, fun q hq hlt => ?_⟩
      by_cases he : q = port
      · exact he ▸ hnone
      · exact hbefore q (by omega) hlt

/-- The loop has not ended if `bind` has taken none of the ports. -/
theorem reBind_eq_none_iff : reBind taken any rounds port = none ↔
    ∀ i < rounds, bindPort taken any (htons (port + (i : ℤ))) = none := by
  induction rounds generalizing port with
  | zero => simp [reBind]
  | succ rounds ih =>
    rw [reBind]
    split
    · rename_i bound hbound
      refine iff_of_false (by simp) fun hall => ?_
      have hzero := hall 0 (by omega)
      rw [Int.natCast_zero, Int.add_zero, hbound] at hzero
      cases hzero
    · rename_i hnone
      rw [ih]
      constructor
      · rintro hall (_ | i) hi
        · rwa [Int.natCast_zero, Int.add_zero]
        · have hnext := hall i (by omega)
          rwa [Int.add_assoc, Int.add_comm 1 (i : ℤ)] at hnext
      · intro hall i hi
        have hnext := hall (i + 1) (by omega)
        rwa [Int.natCast_add, Int.add_comm (i : ℤ), ← Int.add_assoc] at hnext

/-- **A loop that has tried every port in vain never ends.** -/
theorem reBind_stuck (h : reBind taken any portCount port = none) (rounds : ℕ) :
    reBind taken any rounds port = none := by
  rw [reBind_eq_none_iff] at h ⊢
  intro i _
  have hsame : htons (port + (i : ℤ)) = htons (port + ((i % 65536 : ℕ) : ℤ)) := by
    unfold htons
    omega
  rw [hsame]
  exact h (i % 65536) (Nat.mod_lt _ (by decide))

/-- A free port that lies ahead ends the loop. -/
theorem reBind_isSome (hfree : q ∉ taken) (h0 : 0 < port) (hle : port ≤ q) (hlt : q < 65536)
    (hrounds : q - port < rounds) : (reBind taken any rounds port).isSome := by
  rw [Option.isSome_iff_ne_none]
  intro hnone
  have hq := reBind_eq_none_iff.1 hnone (q - port).toNat (by omega)
  rw [show port + ((q - port).toNat : ℤ) = q by omega, htons_of_lt (by omega) hlt, bindPort,
    if_neg (by omega), if_neg hfree] at hq
  cases hq

/-- Where a free port lies ahead, the socket has the port that is announced. -/
theorem reBind_granted (hfree : q ∉ taken) (h0 : 0 < port) (hle : port ≤ q) (hlt : q < 65536)
    (h : reBind taken any rounds port = some b) :
    b.bound = b.announced ∧ b.announced ∉ taken ∧ port ≤ b.announced ∧ b.announced ≤ q ∧
      ∀ r, port ≤ r → r < b.announced → r ∈ taken := by
  obtain ⟨hport, hbound, hbefore⟩ := reBind_eq_some h
  have hall : ∀ r, port ≤ r → r < b.announced → r < 65536 → r ∈ taken := by
    intro r hr hlt hlt'
    have hr' := hbefore r hr hlt
    rw [htons_of_lt (by omega) hlt', bindPort, if_neg (by omega)] at hr'
    by_contra hno
    rw [if_neg hno] at hr'
    cases hr'
  have hq : b.announced ≤ q := by
    by_contra hno
    exact hfree (hall q hle (by omega) hlt)
  rw [htons_of_lt (by omega) (by omega), bindPort, if_neg (by omega)] at hbound
  split at hbound
  · cases hbound
  · rename_i hno
    exact ⟨(Option.some.inj hbound).symm, hno, hport, hq, fun r hr hlt' =>
      hall r hr hlt' (by omega)⟩

end Loop

/-! ## Room for two -/

/-- The machine has at least two free ports from the base on. -/
def HasRoom (taken : List ℤ) : Prop := taken.length + 2 ≤ 25436

instance (taken : List ℤ) : Decidable (HasRoom taken) :=
  inferInstanceAs (Decidable (taken.length + 2 ≤ 25436))

/-- So few sockets cannot have all the ports. -/
theorem exists_free (taken : List ℤ) (h : taken.length < 25436) :
    ∃ q, q ∉ taken ∧ ipcCliPortBase ≤ q ∧ q < 65536 := by
  by_contra hno
  push Not at hno
  let ports : List ℤ := (List.range' 40100 25436).map fun i : ℕ => (i : ℤ)
  have hnodup : ports.Nodup := (List.nodup_range' 1).map fun _ _ => Int.ofNat_inj.1
  have hsub : ports ⊆ taken := by
    intro q hq
    obtain ⟨i, hi, rfl⟩ := List.mem_map.1 hq
    rw [List.mem_range'_1] at hi
    by_contra hfree
    have hle := hno i hfree (by unfold ipcCliPortBase; omega)
    omega
  have hlen : ports.length ≤ taken.length := (hnodup.subperm hsub).length_le
  rw [List.length_map, List.length_range'] at hlen
  omega

/-- The ports of a new handle: its own, apart, and the same in the handle and at the sockets. -/
structure IsGranted (taken : List ℤ) (m a : BoundPort) : Prop where
  msg : m.bound = m.announced
  api : a.bound = a.announced
  msgFree : m.announced ∉ taken
  apiFree : a.announced ∉ taken
  msgRange : 0 ≤ m.announced ∧ m.announced < 65536
  apiRange : 0 ≤ a.announced ∧ a.announced < 65536
  apart : m.announced < a.announced

variable {taken : List ℤ} {any : Option ℤ × Option ℤ} {m a : BoundPort}

/-- Where the first loop has ended, a free port lies ahead of the second. -/
theorem exists_free_next (h : HasRoom taken)
    (hm : reBind taken any.1 portCount ipcCliPortBase = some m) :
    m.bound = m.announced ∧ m.announced ∉ taken ∧ ipcCliPortBase ≤ m.announced ∧
      ∃ q, q ∉ m.bound :: taken ∧ m.announced + 1 ≤ q ∧ q < 65536 := by
  unfold HasRoom at h
  obtain ⟨q, hfree, hle, hlt⟩ := exists_free taken (by omega)
  obtain ⟨hbound, hnew, hbase, -, hbefore⟩ := reBind_granted hfree (by decide) hle hlt hm
  obtain ⟨r, hfree', hle', hlt'⟩ := exists_free (m.bound :: taken) (by simp; omega)
  obtain ⟨hne, hr⟩ := not_or.1 (mt List.mem_cons.2 hfree')
  refine ⟨hbound, hnew, hbase, r, hfree', ?_, hlt'⟩
  -- the loop has left no free port behind
  by_contra hno
  exact hr (hbefore r hle' (by omega))

/-- **The loops of `ipc_creat` end**, on a machine with room. -/
theorem bindBoth_isSome (h : HasRoom taken) : (bindBoth taken any).isSome := by
  have hroom := h
  unfold HasRoom at hroom
  obtain ⟨q, hfree, hle, hlt⟩ := exists_free taken (by omega)
  have hfirst : (reBind taken any.1 portCount ipcCliPortBase).isSome :=
    reBind_isSome hfree (by decide) hle hlt (by unfold portCount ipcCliPortBase; omega)
  obtain ⟨m, hm⟩ := Option.isSome_iff_exists.1 hfirst
  obtain ⟨-, -, hbase, r, hfree', hle', hlt'⟩ := exists_free_next h hm
  unfold ipcCliPortBase at hbase
  rw [bindBoth, hm, Option.bind_some, Option.isSome_map]
  exact reBind_isSome hfree' (by omega) hle' hlt' (by unfold portCount; omega)

/-- **A new handle announces the ports that its sockets have**, on a machine with room. -/
theorem bindBoth_isGranted (h : HasRoom taken) (hb : bindBoth taken any = some (m, a)) :
    IsGranted taken m a := by
  obtain ⟨m', hm, hb⟩ := Option.bind_eq_some_iff.1 hb
  obtain ⟨a', ha, he⟩ := Option.map_eq_some_iff.1 hb
  obtain ⟨rfl, rfl⟩ := Prod.mk.inj he
  obtain ⟨hmsg, hmsgFree, hbase, q, hfree, hle, hlt⟩ := exists_free_next h hm
  unfold ipcCliPortBase at hbase
  obtain ⟨hapi, hapiFree, hnext, hup, -⟩ := reBind_granted hfree (by omega) hle hlt ha
  exact ⟨hmsg, hapi, hmsgFree, fun hin => hapiFree (List.mem_cons_of_mem _ hin), ⟨by omega, by omega⟩,
    ⟨by omega, by omega⟩, by omega⟩

end EasyIpc

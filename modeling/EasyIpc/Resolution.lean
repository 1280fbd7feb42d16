import EasyIpc.Calls
import EasyIpc.Membership

/-!
# Resolving a call

What `_ipcd_api_probe` is to do with a call is a matter of the members that serve the program it
names: those of the name that are not suspended.

* `Resolved` — the three outcomes, and when each is to happen.
* `resolved_of_single` — the loop resolves a call rightly where at most one member has the name of
  the program.
* `call_resolution` — so it does in every state of a run whose joins skip no clash;
  `call_missed` is a run in which a join skips one, and a program that runs is reported missing.
-/

namespace EasyIpc

open FirstMatch Transition

variable {p : IpcApi} {d : Daemon} {l u v : List MlistMember} {m : MlistMember}

/-- The member serves the program that the call names. -/
def serves (p : IpcApi) (m : MlistMember) : Prop := m.pname = p.pname ∧ m.suspend = false

/-- The call is answered with a code, and nothing else happens. -/
def AnsweredWith (ret : IpcApiRet) (p : IpcApi) (d : Daemon) : Prop :=
  ∃ caller, ipcdGetMlistViaPid d.mlist p.sendPid = some caller ∧
    ipcdApiProbe p d = (d, [ipcdApiAckRelay caller ⟨p.ackId, ret, []⟩ p.daemonMagicNumber])

/-- The call is relayed to one member and is pending once, and nothing else happens. -/
def RelayedTo (m : MlistMember) (p : IpcApi) (d : Daemon) : Prop :=
  ipcdApiProbe p d = ({ d with recvAcklist := d.recvAcklist ++ [p] }, [ipcdRelayApi m p])

/-- The call comes to what the table says. -/
structure Resolved (p : IpcApi) (d : Daemon) : Prop where
  program : AnsweredWith .ackCantfindProgram p d ↔ ¬ ∃ m ∈ d.mlist, serves p m
  api : AnsweredWith .ackCantfindApi p d ↔ (∃ m ∈ d.mlist, serves p m) ∧
    ¬ ∃ m ∈ d.mlist, serves p m ∧ listsName p.apiName m.apiList = true
  relay : (∃ m ∈ d.mlist, serves p m ∧ listsName p.apiName m.apiList = true) →
    ∃ m ∈ d.mlist, (serves p m ∧ listsName p.apiName m.apiList = true) ∧ RelayedTo m p d

/-! ## The loop -/

/-- The loop passes members of other names. -/
theorem apiProbeScan_append (hu : ∀ a ∈ u, a.pname ≠ p.pname) :
    apiProbeScan p (u ++ v) = apiProbeScan p v := by
  induction u with
  | nil => rfl
  | cons a u ih =>
    rw [List.cons_append, apiProbeScan_of_ne (hu a (by simp))]
    exact ih fun b hb => hu b (List.mem_cons_of_mem a hb)

theorem apiProbeScan_of_forall_ne (hv : ∀ a ∈ v, a.pname ≠ p.pname) :
    apiProbeScan p v = (false, []) := by
  have hpass := apiProbeScan_append (v := []) hv
  rw [List.append_nil] at hpass
  exact hpass

/-- The one member of the name decides. -/
theorem apiProbeScan_single (hm : m.pname = p.pname) (hu : ∀ a ∈ u, a.pname ≠ p.pname)
    (hv : ∀ a ∈ v, a.pname ≠ p.pname) : apiProbeScan p (u ++ m :: v) =
      if m.suspend then (false, [])
      else (true, if listsName p.apiName m.apiList then [m] else []) := by
  rw [apiProbeScan_append hu]
  cases hs : m.suspend with
  | true =>
    -- the member behind it is stepped over, but has another name anyway
    rw [apiProbeScan_of_suspended hm hs]
    exact apiProbeScan_of_forall_ne fun a ha => hv a (List.mem_of_mem_tail ha)
  | false =>
    rw [apiProbeScan_of_live hm hs, apiProbeScan_of_forall_ne hv]
    simp

/-! ## The outcomes -/

/-- The outcomes exclude each other. -/
theorem AnsweredWith.unique {r r' : IpcApiRet} (h : AnsweredWith r p d)
    (h' : AnsweredWith r' p d) : r = r' := by
  obtain ⟨c, -, hc⟩ := h
  obtain ⟨c', -, hc'⟩ := h'
  rw [hc] at hc'
  simp only [ipcdApiAckRelay, Prod.mk.injEq, List.cons.injEq, Send.mk.injEq,
    Payload.apiAckRelay.injEq, IpcApiAckList.mk.injEq] at hc'
  exact hc'.2.1.2.2.1.2.1

theorem RelayedTo.not_answered {r : IpcApiRet} (h : RelayedTo m p d) : ¬ AnsweredWith r p d := by
  rintro ⟨c, -, hc⟩
  rw [RelayedTo] at h
  rw [h] at hc
  have hout := congrArg Prod.snd hc
  simp [ipcdRelayApi, ipcdApiAckRelay] at hout

/-- Without a member that serves the program the caller is told so. -/
theorem answered_program (hcaller : (ipcdGetMlistViaPid d.mlist p.sendPid).isSome)
    (h : apiProbeScan p d.mlist = (false, [])) : AnsweredWith .ackCantfindProgram p d := by
  obtain ⟨c, hc⟩ := Option.isSome_iff_exists.1 hcaller
  refine ⟨c, hc, ?_⟩
  simp [ipcdApiProbe, h, ackTo, hc]

/-- Without a member that lists the API the caller is told so. -/
theorem answered_api (hcaller : (ipcdGetMlistViaPid d.mlist p.sendPid).isSome)
    (h : apiProbeScan p d.mlist = (true, [])) : AnsweredWith .ackCantfindApi p d := by
  obtain ⟨c, hc⟩ := Option.isSome_iff_exists.1 hcaller
  refine ⟨c, hc, ?_⟩
  simp [ipcdApiProbe, h, ackTo, hc]

theorem relayedTo_of_scan (h : apiProbeScan p d.mlist = (true, [m])) : RelayedTo m p d := by
  simp [RelayedTo, ipcdApiProbe, h]

/-- Where no member serves the program. -/
theorem resolved_program (hno : ¬ ∃ m ∈ d.mlist, serves p m)
    (h : AnsweredWith .ackCantfindProgram p d) : Resolved p d := by
  constructor
  case program => exact ⟨fun _ => hno, fun _ => h⟩
  case api =>
    constructor
    · intro hapi
      exact absurd (h.unique hapi) (by decide)
    · intro hsome
      exact absurd hsome.1 hno
  case relay =>
    rintro ⟨m, hm, hs, -⟩
    exact absurd ⟨m, hm, hs⟩ hno

/-- Where the members of the name come to one, which serves the program. -/
theorem resolved_served (hcaller : (ipcdGetMlistViaPid d.mlist p.sendPid).isSome)
    (hm : m ∈ d.mlist) (hs : serves p m) (hone : ∀ a ∈ d.mlist, serves p a → a = m)
    (h : apiProbeScan p d.mlist = (true, if listsName p.apiName m.apiList then [m] else [])) :
    Resolved p d := by
  have hserved : ∃ m ∈ d.mlist, serves p m := ⟨m, hm, hs⟩
  cases hl : listsName p.apiName m.apiList with
  | true =>
    have hrelayed : RelayedTo m p d := relayedTo_of_scan (by simpa [hl] using h)
    have hlisted : ∃ m ∈ d.mlist, serves p m ∧ listsName p.apiName m.apiList = true :=
      ⟨m, hm, hs, hl⟩
    constructor
    case program => exact ⟨fun ha => absurd ha hrelayed.not_answered, fun hno => absurd hserved hno⟩
    case api =>
      exact ⟨fun ha => absurd ha hrelayed.not_answered, fun hno => absurd hlisted hno.2⟩
    case relay => exact fun _ => ⟨m, hm, ⟨hs, hl⟩, hrelayed⟩
  | false =>
    have hapi : AnsweredWith .ackCantfindApi p d := answered_api hcaller (by simpa [hl] using h)
    have hnone : ¬ ∃ m ∈ d.mlist, serves p m ∧ listsName p.apiName m.apiList = true := by
      rintro ⟨a, ha, hsa, hla⟩
      obtain rfl := hone a ha hsa
      rw [hl] at hla
      cases hla
    constructor
    case program =>
      constructor
      · intro ha
        exact absurd (hapi.unique ha) (by decide)
      · intro hno
        exact absurd hserved hno
    case api => exact ⟨fun _ => ⟨hserved, hnone⟩, fun _ => hapi⟩
    case relay => exact fun hsome => absurd hsome hnone

/-- **A call is resolved rightly where at most one member has the name of its program.** -/
theorem resolved_of_single (hone : ∀ u m v, d.mlist = u ++ m :: v → m.pname = p.pname →
      ∀ a ∈ u ++ v, a.pname ≠ p.pname)
    (hcaller : (ipcdGetMlistViaPid d.mlist p.sendPid).isSome) : Resolved p d := by
  by_cases hex : ∃ m ∈ d.mlist, m.pname = p.pname
  · obtain ⟨m, hm, hname⟩ := hex
    obtain ⟨u, v, hl⟩ := List.append_of_mem hm
    have hother := hone u m v hl hname
    have hscan := apiProbeScan_single (u := u) (v := v) hname (fun a ha => hother a (by simp [ha]))
      fun a ha => hother a (by simp [ha])
    rw [← hl] at hscan
    have hsame : ∀ a ∈ d.mlist, serves p a → a = m := by
      intro a ha hs
      rw [hl] at ha
      by_contra hne
      have hin : a ∈ u ++ v := by
        simp only [List.mem_append, List.mem_cons] at ha ⊢
        rcases ha with ha | rfl | ha
        · exact Or.inl ha
        · exact absurd rfl hne
        · exact Or.inr ha
      exact hother a hin hs.1
    cases hs : m.suspend with
    | true =>
      rw [hs, if_pos rfl] at hscan
      refine resolved_program ?_ (answered_program hcaller hscan)
      rintro ⟨a, ha, hserves⟩
      have hlive := hserves.2
      rw [hsame a ha hserves, hs] at hlive
      cases hlive
    | false =>
      rw [hs, if_neg (by simp)] at hscan
      exact resolved_served hcaller hm ⟨hname, hs⟩ hsame hscan
  · have hne : ∀ a ∈ d.mlist, a.pname ≠ p.pname := fun a ha hc => hex ⟨a, ha, hc⟩
    refine resolved_program ?_ (answered_program hcaller (apiProbeScan_of_forall_ne hne))
    rintro ⟨a, ha, hs⟩
    exact hne a ha hs.1

/-! ## Over runs -/

/-- **Calls are resolved rightly** in every state of a run whose joins skip no clash. -/
theorem call_resolution (h : Reach daemonLts JoinsSafe d) (p : IpcApi)
    (hcaller : (ipcdGetMlistViaPid d.mlist p.sendPid).isSome) : Resolved p d := by
  have hun := unique_of_reach h
  refine resolved_of_single ?_ hcaller
  intro u m v hl hname a ha hc
  rw [hl] at hun
  exact hun.pname_ne a ha (hc.trans hname.symm)

/-- A call of process 3 to the API `"f"` of the program `"b"`. -/
def missedCall : IpcApi := ⟨[98], [102], 0, 0, apiTimeoutMax, 3, []⟩

/-- Two processes join, and the first offers `"f"`: the call is relayed to it. -/
theorem call_resolution_served : ∃ d, Reach daemonLts JoinsSafe d ∧ Resolved missedCall d ∧
    ∃ m ∈ d.mlist, m.pid = 1 ∧ serves missedCall m ∧ listsName [102] m.apiList = true := by
  have h1 : Reach daemonLts JoinsSafe _ := .step (a := joinAs 1 [98]) .init rfl
    (joinsSafe_joinAs (by decide) (by decide))
  have h2 : Reach daemonLts JoinsSafe _ := .step (a := joinAs 3 [99]) h1 rfl
    (joinsSafe_joinAs (by decide) (by decide))
  have h3 : Reach daemonLts JoinsSafe _ := .step (a := packetFrom 1 (.apiRegister ⟨1, [102]⟩))
    h2 rfl ⟨trivial, trivial⟩
  refine ⟨_, h3, call_resolution h3 missedCall (by decide), ?_⟩
  exact ⟨_, List.mem_cons_self, rfl, ⟨rfl, rfl⟩, by decide⟩

/-- Two processes join as `"a"` and `"b"` and go silent; the first comes back as `"b"` and offers
`"f"`, and a third process joins. -/
def missedRun : List DaemonAct :=
  [joinAs 1 [97], joinAs 2 [98]] ++ List.replicate 16 .liveSweep ++
    [joinAs 1 [98], packetFrom 1 (.apiRegister ⟨1, [102]⟩), joinAs 3 [99]]

/-- The program `"b"` runs and offers `"f"`, and the caller is told that there is no such
program. -/
theorem call_missed : ¬ ∀ d, Reach daemonLts (OnLabels JoinNameFits) d → ∀ p,
    (ipcdGetMlistViaPid d.mlist p.sendPid).isSome → Resolved p d := by
  intro hall
  have hfits : ∀ a ∈ missedRun, JoinNameFits a := by
    simp [missedRun, joinAs, packetFrom, JoinNameFits, processNameMaxSize]
  obtain ⟨d, hrun, hcaller, hscan, hlive⟩ : ∃ d,
      daemonLts.run daemonLts.init missedRun = some d ∧
      (ipcdGetMlistViaPid d.mlist missedCall.sendPid).isSome ∧
      apiProbeScan missedCall d.mlist = (false, []) ∧
      ∃ m ∈ d.mlist, m.pname = [98] ∧ m.suspend = false :=
    ⟨_, rfl, by decide, by decide, by decide⟩
  have hresolved := hall d (Reach.run .init hfits hrun) missedCall hcaller
  exact hresolved.program.1 (answered_program hcaller hscan) hlive

end EasyIpc

import EasyIpc.Hops
import EasyIpc.Lib.Transition

/-!
# Waiting for an answer

`ipc_call_api` puts an entry on `api_ack_wait_list`, sends its packet, and waits on the semaphore of
the entry; `ipc_recv_analysis` takes the entry of an acknowledgement off the list, fills it in and
posts the semaphore.

* `startCallApi` — a call up to the wait, with the sizes as the C compiler computes them.
* `CallsRun` — one handle, with any number of calls in progress; `CallsRun.step_effect` says what a
  step can do to them.
* `call_sent` — a call hands its packet over exactly if the packet stays below the limit; if all do,
  every entry of the list has had its packet sent, or is about to.  `call_unsent` is a call that
  waits for an answer that nobody was asked for.
* `completion` — every answer wakes the one call with its id, which returns it.
-/

namespace EasyIpc.Completion

open Buffer FirstMatch Transition
open Bytes (toInt AckEntry)

/-! ## A call up to the wait -/

/-- The conversion of an `int` to `size_t`. -/
def toSizeT (n : ℤ) : ℕ := (n % 18446744073709551616).toNat

/-- `PTRDIFF_MAX`: `malloc` refuses more. -/
def ptrdiffMax : ℕ := 9223372036854775807

/-- What comes of a packet. -/
inductive SendOutcome where
  | tooLarge
  /-- `exit(0)`, where `malloc` returns `NULL`. -/
  | exited
  | sent (pkt : IpcPacket)
  deriving DecidableEq, Repr

/-- `ipc_data_to_daemon`; `packetMaxSize` and `size` are the `int`s, which the comparison turns into
`size_t`. -/
def ipcDataToDaemon (packetMaxSize : BitVec 32) (ipc : IpcHandle) (body : PacketBody) (size : ℤ) :
    SendOutcome :=
  if toSizeT (sizeofIpcPacket + size) ≥ toSizeT packetMaxSize.toInt then .tooLarge
  else if toSizeT (sizeofIpcPacket + size) > ptrdiffMax then .exited
  else .sent ⟨ipc.pid, body⟩

/-- The arguments of `ipc_call_api`; of the two pointers for the result only whether they are
given. -/
structure CallArgs where
  pname : CStr
  apiName : CStr
  data : List UInt8
  timeout : ℤ
  retData : Bool
  retSize : Bool
  /-- The size is an `int`. -/
  size_lt : data.length < 2147483648
  deriving DecidableEq

/-- The packet of the call; its length is passed on as an `int`. -/
def sendCall (packetMaxSize : BitVec 32) (ipc : IpcHandle) (args : CallArgs) : SendOutcome :=
  ipcDataToDaemon packetMaxSize ipc
    (.apiCall (ipcApiOf ipc args.pname args.apiName args.data args.timeout))
    (toInt (216 + args.data.length))

/-- What comes of a call. -/
inductive CallStart where
  | returned (ret : IpcApiRet)
  | exited
  /-- The call waits on its semaphore; the packets are those it has sent. -/
  | waits (ipc : IpcHandle) (packets : List IpcPacket)
  deriving DecidableEq, Repr

/-- The handle after the entry is attached. -/
def attachEntry (ipc : IpcHandle) : IpcHandle := { ipc with
  apiAckWaitList := ipc.apiAckWaitList ++ [ipc.apiAckMagicNum]
  apiAckMagicNum := ipc.apiAckMagicNum + 1 }

/-- `ipc_call_api` up to the wait. -/
def startCallApi (packetMaxSize : BitVec 32) (ipc : Option IpcHandle) (args : CallArgs) : CallStart :=
  match ipc with
  | none => .returned .ackFail
  | some ipc =>
      match sendCall packetMaxSize ipc args with
      | .tooLarge => .waits (attachEntry ipc) []
      | .exited => .exited
      | .sent pkt => .waits (attachEntry ipc) [pkt]

/-- The request of the call is handed over, or the call has returned an error. -/
def HandedOver (ipc : Option IpcHandle) (args : CallArgs) : CallStart → Prop
  | .returned ret => ret ≠ .ackOk
  | .exited => False
  | .waits _ packets => ∃ h, ipc = some h ∧
      packets = [⟨h.pid, .apiCall (ipcApiOf h args.pname args.apiName args.data args.timeout)⟩]

/-- The packet of a call with so many bytes of data stays below the limit.  A negative limit counts as
a huge one. -/
def FitsLimit (packetMaxSize : ℤ) (size : ℕ) : Prop :=
  232 + size < packetMaxSize ∨ packetMaxSize < 0 ∧ 216 + size < 2147483648

instance (packetMaxSize : ℤ) (size : ℕ) : Decidable (FitsLimit packetMaxSize size) :=
  inferInstanceAs (Decidable (_ ∨ _))

section Start

variable {M : BitVec 32} {ipc : IpcHandle} {args : CallArgs}

/-- The value that the sum of two `size_t`s has as an `int`. -/
theorem toInt_eq {n : ℤ} (h : 0 ≤ n) (h' : n < 4294967296) :
    toInt n = if n < 2147483648 then n else n - 4294967296 := by
  rw [toInt, BitVec.toInt_ofInt, Int.bmod_def]
  split <;> split <;> omega

variable (M ipc args) in
/-- **A packet is sent exactly if it stays below the limit.** -/
theorem sendCall_cases : (FitsLimit M.toInt args.data.length ∧ sendCall M ipc args =
      .sent ⟨ipc.pid, .apiCall (ipcApiOf ipc args.pname args.apiName args.data args.timeout)⟩) ∨
    (¬ FitsLimit M.toInt args.data.length ∧
      (sendCall M ipc args = .tooLarge ∨ sendCall M ipc args = .exited)) := by
  have hsize := args.size_lt
  have hlow := BitVec.le_toInt M
  have hhigh := BitVec.toInt_lt (x := M)
  have hint := toInt_eq (n := 216 + args.data.length) (by omega) (by omega)
  unfold sendCall ipcDataToDaemon FitsLimit
  rw [hint]
  by_cases hfit : 232 + (args.data.length : ℤ) < M.toInt ∨
      M.toInt < 0 ∧ 216 + args.data.length < 2147483648
  · refine Or.inl ⟨hfit, ?_⟩
    rw [if_neg, if_neg] <;> simp only [toSizeT, sizeofIpcPacket, ptrdiffMax] <;> split <;> omega
  · refine Or.inr ⟨hfit, ?_⟩
    split
    · refine Or.inl (if_pos ?_)
      simp only [toSizeT, sizeofIpcPacket]
      omega
    · -- the length has become negative, and the sum is too large for `malloc`
      by_cases hlimit : toSizeT (sizeofIpcPacket + (216 + args.data.length - 4294967296)) ≥
          toSizeT M.toInt
      · exact Or.inl (if_pos hlimit)
      · refine Or.inr ((if_neg hlimit).trans (if_pos ?_))
        simp only [toSizeT, sizeofIpcPacket, ptrdiffMax]
        omega

theorem sendCall_eq_sent_iff : sendCall M ipc args =
      .sent ⟨ipc.pid, .apiCall (ipcApiOf ipc args.pname args.apiName args.data args.timeout)⟩ ↔
    FitsLimit M.toInt args.data.length := by
  rcases sendCall_cases M ipc args with ⟨hfit, hsent⟩ | ⟨hfit, hnot⟩
  · exact ⟨fun _ => hfit, fun _ => hsent⟩
  · constructor
    · intro hsent
      rw [hsent] at hnot
      rcases hnot with h | h <;> cases h
    · intro h
      exact absurd h hfit

/-- **A call hands its packet over exactly if it stays below the limit**, or there is no handle to
call on. -/
theorem handedOver_iff (ipc : Option IpcHandle) : HandedOver ipc args (startCallApi M ipc args) ↔
    ipc = none ∨ FitsLimit M.toInt args.data.length := by
  cases ipc with
  | none => simp [startCallApi, HandedOver]
  | some ipc =>
    have hsome : (some ipc = none ∨ FitsLimit M.toInt args.data.length) ↔
        FitsLimit M.toInt args.data.length := by simp
    rw [hsome]
    rcases sendCall_cases M ipc args with ⟨hfit, hsent⟩ | ⟨hfit, hlarge | hexit⟩
    · simp only [startCallApi, hsent]
      exact ⟨fun _ => hfit, fun _ => ⟨ipc, rfl, rfl⟩⟩
    · simp only [startCallApi, hlarge]
      refine ⟨?_, fun h => absurd h hfit⟩
      rintro ⟨h, -, hnil⟩
      cases hnil
    · simp only [startCallApi, hexit]
      exact ⟨False.elim, fun h => absurd h hfit⟩

/-- For lengths that an `int` holds, this is the call of the model of a process. -/
theorem startCallApi_eq (hlen : 216 + args.data.length < 2147483648) :
    startCallApi M (some ipc) args = .waits
      (ipcCallApi (toSizeT M.toInt) ipc args.pname args.apiName args.data args.timeout).1
      (ipcCallApi (toSizeT M.toInt) ipc args.pname args.apiName args.data args.timeout).2 := by
  have hint : toInt (216 + args.data.length) = 216 + args.data.length := by
    refine Bytes.toInt_of_range ?_
    rw [intRange_four_iff]
    omega
  have hsize : toSizeT (sizeofIpcPacket + (216 + args.data.length)) =
      sizeofIpcPacket + (216 + args.data.length) := by
    simp only [toSizeT, sizeofIpcPacket]
    omega
  have hmem : ¬ sizeofIpcPacket + (216 + args.data.length) > ptrdiffMax := by
    simp only [sizeofIpcPacket, ptrdiffMax]
    omega
  simp only [startCallApi]
  unfold sendCall ipcDataToDaemon ipcCallApi EasyIpc.ipcDataToDaemon
  rw [hint, hsize, if_neg hmem]
  by_cases hlimit : sizeofIpcPacket + (216 + args.data.length) ≥ toSizeT M.toInt
  · rw [if_pos hlimit]
    exact congrArg (CallStart.waits _) (if_pos hlimit).symm
  · rw [if_neg hlimit]
    exact congrArg (CallStart.waits _) (if_neg hlimit).symm

end Start

/-! ## Acknowledgements -/

/-- An acknowledgement in the receive buffer: `ackData` are the bytes from `ack_data` to the end of
the buffer. -/
structure AckPacket where
  ackId : Magic
  ackResult : IpcApiRet
  ackSize : ℤ
  ackData : List UInt8
  deriving DecidableEq, Repr

/-- What `ipc_recv_analysis` writes into the entry: `none` if the copy leaves the buffer. -/
def AckPacket.stored (a : AckPacket) : Option AckEntry :=
  if a.ackSize > 0 then (read? 0 a.ackSize a.ackData).map fun data => ⟨a.ackResult, a.ackSize, some data⟩
  else some ⟨a.ackResult, a.ackSize, none⟩

/-- The acknowledgement in a buffer. -/
def ackIn (buf : List UInt8) : AckPacket where
  ackId := magicAt 0 (buf.drop 12)
  ackResult := .ofInt (intAt 4 44 (buf.drop 12))
  ackSize := intAt 4 40 (buf.drop 12)
  ackData := buf.drop (12 + 56)

/-- These are the entries that `ipc_recv_analysis` makes of the bytes. -/
theorem ipcRecvAck_eq_entry (waitList : List Magic) {buf : List UInt8} (hbuf : 12 + 56 ≤ buf.length) :
    Bytes.ipcRecvAck waitList buf = if (ackIn buf).ackId ∈ waitList then
      (ackIn buf).stored.map fun e => ((ackIn buf).ackId, e) else none := by
  have hread : read? (12 + 56) (intAt 4 40 (buf.drop 12)) buf =
      read? 0 (intAt 4 40 (buf.drop 12)) (buf.drop (12 + 56)) := by
    have hrange : InRange buf.length (12 + 56) (intAt 4 40 (buf.drop 12)) ↔
        InRange (buf.drop (12 + 56)).length 0 (intAt 4 40 (buf.drop 12)) := by
      rw [List.length_drop]
      unfold InRange
      omega
    unfold read?
    rw [read_drop]
    exact if_congr hrange rfl rfl
  unfold Bytes.ipcRecvAck AckPacket.stored ackIn
  simp only [hread]
  split
  · split
    · rw [Option.map_map]
      rfl
    · rfl
  · rfl

/-- The end of `ipc_call_api`: the code it returns, and what it stores through its two pointers. -/
def endCallApi (args : CallArgs) (e : AckEntry) : IpcApiRet × Option (Option (List UInt8) × ℤ) :=
  if e.ackDataPoint ≠ none ∧ e.ackSize > 0 ∧ (args.retSize = false ∨ args.retData = false) then
    (.inParamError, none)
  else if e.ackResult ≠ .ackOk ∧ e.ackResult ≠ .ackFail then (e.ackResult, none)
  else
    (e.ackResult, if args.retSize && args.retData then some (e.ackDataPoint, e.ackSize) else none)

/-- The two pointers are wanted together. -/
theorem endCallApi_eq_callReturn (args : CallArgs) (e : AckEntry) :
    endCallApi args e = Bytes.callReturn (args.retSize && args.retData) e := by
  unfold endCallApi Bytes.callReturn
  simp only [Bool.and_eq_false_iff]

/-- A call returns as its acknowledgement says. -/
structure ReturnsAnswer (args : CallArgs) (a : AckPacket) (ret : IpcApiRet)
    (out : Option (Option (List UInt8) × ℤ)) : Prop where
  /-- Data came back, but there is nowhere to put them. -/
  inParam : 0 < a.ackSize → ¬ (args.retData ∧ args.retSize) → ret = .inParamError ∧ out = none
  result : (0 < a.ackSize → args.retData ∧ args.retSize) → ret = a.ackResult
  written : (0 < a.ackSize → args.retData ∧ args.retSize) →
    (out ≠ none ↔ a.ackResult.fromUser ∧ args.retData ∧ args.retSize)
  output : ∀ data size, out = some (data, size) → size = a.ackSize ∧
    data = if 0 < a.ackSize then some (a.ackData.take a.ackSize.toNat) else none

/-- What an acknowledgement leaves in the entry. -/
theorem AckPacket.stored_eq_some {a : AckPacket} {e : AckEntry} (h : a.stored = some e) :
    e.ackResult = a.ackResult ∧ e.ackSize = a.ackSize ∧ e.ackDataPoint =
      if 0 < a.ackSize then some (a.ackData.take a.ackSize.toNat) else none := by
  unfold AckPacket.stored at h
  split at h
  · rename_i hpos
    obtain ⟨data, hread, rfl⟩ := Option.map_eq_some_iff.1 h
    refine ⟨rfl, rfl, ?_⟩
    rw [if_pos hpos, ← hread, read?]
    split
    · rfl
    · rename_i hrange
      rw [read?, if_neg hrange] at hread
      cases hread
  · rename_i hpos
    cases h
    exact ⟨rfl, rfl, (if_neg hpos).symm⟩

/-- **The end of a call returns what its acknowledgement says.** -/
theorem returnsAnswer_endCallApi (args : CallArgs) {a : AckPacket} {e : AckEntry}
    (h : a.stored = some e) :
    ReturnsAnswer args a (endCallApi args e).1 (endCallApi args e).2 := by
  obtain ⟨hresult, hsize, hdata⟩ := AckPacket.stored_eq_some h
  have hback : (e.ackDataPoint ≠ none ∧ e.ackSize > 0 ∧
      (args.retSize = false ∨ args.retData = false)) ↔
      0 < a.ackSize ∧ ¬ (args.retData ∧ args.retSize) := by
    rw [hsize, hdata]
    by_cases hpos : 0 < a.ackSize
    · cases args.retData <;> cases args.retSize <;> simp [hpos]
    · simp [hpos]
  unfold endCallApi
  by_cases hlost : 0 < a.ackSize ∧ ¬ (args.retData ∧ args.retSize)
  · rw [if_pos (hback.2 hlost)]
    constructor
    case inParam => exact fun _ _ => ⟨rfl, rfl⟩
    case result => exact fun hgiven => absurd (hgiven hlost.1) hlost.2
    case written => exact fun hgiven => absurd (hgiven hlost.1) hlost.2
    case output => exact fun _ _ hout => by cases hout
  · rw [if_neg fun hc => hlost (hback.1 hc)]
    by_cases huser : a.ackResult.fromUser
    · rw [if_neg (by rw [hresult]; exact fun hc => huser.elim hc.1 hc.2)]
      constructor
      case inParam => exact fun hpos hnot => absurd ⟨hpos, hnot⟩ hlost
      case result => exact fun _ => hresult
      case written =>
        intro _
        cases hd : args.retData <;> cases hs : args.retSize <;> simp [huser]
      case output =>
        intro data size hout
        split at hout
        · cases hout
          exact ⟨hsize, hdata⟩
        · cases hout
    · have hother : e.ackResult ≠ .ackOk ∧ e.ackResult ≠ .ackFail := by
        rw [hresult]
        exact not_or.1 huser
      rw [if_pos hother]
      constructor
      case inParam => exact fun hpos hnot => absurd ⟨hpos, hnot⟩ hlost
      case result => exact fun _ => hresult
      case written => exact fun _ => ⟨fun hc => absurd rfl hc, fun hc => absurd hc.1 huser⟩
      case output => exact fun _ _ hout => by cases hout

/-! ## Calls in progress -/

/-- An entry of `api_ack_wait_list`, with the number of the call whose entry it is. -/
structure Waiter where
  owner : ℕ
  ackId : Magic
  deriving DecidableEq, Repr

/-- How far a call has come. -/
inductive CallStage where
  /-- Its entry is attached. -/
  | attached
  /-- It waits on the semaphore of its entry, or has been woken. -/
  | waiting
  | returned (ret : IpcApiRet) (out : Option (Option (List UInt8) × ℤ))
  deriving DecidableEq, Repr

/-- A call, with the acknowledgements that were written into its entry; each posts its semaphore. -/
structure CallRun where
  args : CallArgs
  ackId : Magic
  stage : CallStage := .attached
  posts : List AckPacket := []
  deriving DecidableEq

/-- What stands in the entry of the call. -/
def CallRun.stored (c : CallRun) : Option AckEntry := c.posts.getLast?.bind AckPacket.stored

/-- The calls on a handle: the counter, the list, all calls so far, and what they have sent. -/
structure CallsRun where
  apiAckMagicNum : Magic := 0
  apiAckWaitList : List Waiter := []
  calls : List CallRun := []
  sent : List IpcPacket := []
  deriving DecidableEq

/-- A call attaches its entry, sends its packet, and returns; an acknowledgement comes in. -/
inductive CallsAct where
  | attach (args : CallArgs)
  | send (i : ℕ)
  | ack (a : AckPacket)
  | ret (i : ℕ)
  deriving DecidableEq

/-- The handle as the model of a process has it. -/
def CallsRun.handle (ipc : IpcHandle) (s : CallsRun) : IpcHandle := { ipc with
  apiAckMagicNum := s.apiAckMagicNum
  apiAckWaitList := s.apiAckWaitList.map Waiter.ackId }

/-- The packet of the call, whose id is that of its entry. -/
def CallRun.send (M : BitVec 32) (ipc : IpcHandle) (c : CallRun) : SendOutcome :=
  sendCall M { ipc with apiAckMagicNum := c.ackId } c.args

/-- One step of one of the calls, or of the receive thread. -/
def CallsRun.step (M : BitVec 32) (ipc : IpcHandle) (s : CallsRun) : CallsAct → Option CallsRun
  | .attach args => some { s with
      apiAckMagicNum := s.apiAckMagicNum + 1
      apiAckWaitList := s.apiAckWaitList ++ [⟨s.calls.length, s.apiAckMagicNum⟩]
      calls := s.calls ++ [{ args, ackId := s.apiAckMagicNum }] }
  | .send i =>
      match s.calls[i]? with
      | none => none
      | some c =>
          if c.stage = .attached then
            match c.send M ipc with
            | .exited => none
            | .tooLarge => some { s with calls := s.calls.modify i fun c => { c with stage := .waiting } }
            | .sent pkt => some { s with
                calls := s.calls.modify i fun c => { c with stage := .waiting }
                sent := s.sent ++ [pkt] }
          else none
  | .ack a =>
      match s.apiAckWaitList.find? fun tiaal => tiaal.ackId == a.ackId with
      | none => some s
      | some tiaal =>
          if a.stored = none then none
          else some { s with
            apiAckWaitList := s.apiAckWaitList.eraseP fun tiaal => tiaal.ackId == a.ackId
            calls := s.calls.modify tiaal.owner fun c => { c with posts := c.posts ++ [a] } }
  | .ret i =>
      match s.calls[i]? with
      | none => none
      | some c =>
          if c.stage = .waiting then
            c.stored.map fun e => { s with
              calls := s.calls.modify i fun c => { c with
                stage := .returned (endCallApi c.args e).1 (endCallApi c.args e).2 } }
          else none

/-- The runs of a new handle. -/
def callsLts (M : BitVec 32) (ipc : IpcHandle) : Lts CallsRun CallsAct where
  init := {}
  step := CallsRun.step M ipc

section Runs

variable {M : BitVec 32} {ipc : IpcHandle} {s s' : CallsRun} {act : CallsAct}

/-- A call does to the handle what it does in the model of a process. -/
theorem handle_attach {args : CallArgs} (hstep : s.step M ipc (.attach args) = some s') :
    s'.handle ipc = attachEntry (s.handle ipc) := by
  obtain rfl := Option.some.inj hstep
  simp [CallsRun.handle, attachEntry]

/-- So does an acknowledgement. -/
theorem handle_ack {a : IpcApiAckList} {p : AckPacket} (hid : p.ackId = a.ackId)
    (hstep : s.step M ipc (.ack p) = some s') :
    s'.handle ipc = (ipcRecvAck (s.handle ipc) a).getD (s.handle ipc) := by
  have hcontains : (s.apiAckWaitList.map Waiter.ackId).contains a.ackId = true ↔
      ∃ w ∈ s.apiAckWaitList, w.ackId = a.ackId := by simp
  simp only [CallsRun.step, hid] at hstep
  unfold ipcRecvAck CallsRun.handle
  split at hstep
  · rename_i hnone
    cases hstep
    rw [if_neg]
    · rfl
    · rw [hcontains]
      rintro ⟨w, hw, hk⟩
      exact List.find?_eq_none.1 hnone w hw (by simpa using hk)
  · rename_i w hfind
    split at hstep
    · cases hstep
    · cases hstep
      rw [if_pos (hcontains.2 ⟨w, List.mem_of_find?_eq_some hfind, by simpa using List.find?_some hfind⟩)]
      rw [Option.getD_some, List.erase_eq_eraseP', List.eraseP_map]
      rfl

/-! ## What a step does -/

/-- What a step can do to the calls. -/
inductive CallsEffect (M : BitVec 32) (ipc : IpcHandle) (s s' : CallsRun) : CallsAct → Prop
  | attach (args : CallArgs) (he : s' = { s with
      apiAckMagicNum := s.apiAckMagicNum + 1
      apiAckWaitList := s.apiAckWaitList ++ [⟨s.calls.length, s.apiAckMagicNum⟩]
      calls := s.calls ++ [{ args, ackId := s.apiAckMagicNum }] }) : CallsEffect M ipc s s' (.attach args)
  /-- A call goes on to its wait, whether or not its packet was sent. -/
  | send (i : ℕ) (c : CallRun) (packets : List IpcPacket) (hc : s.calls[i]? = some c)
      (hpackets : ∀ pkt, c.send M ipc = .sent pkt → packets = [pkt])
      (he : s' = { s with
        calls := s.calls.modify i fun c => { c with stage := .waiting }
        sent := s.sent ++ packets }) : CallsEffect M ipc s s' (.send i)
  /-- No call waits for the acknowledgement. -/
  | ignored (a : AckPacket) (he : s' = s) : CallsEffect M ipc s s' (.ack a)
  /-- The acknowledgement is written into an entry with its id. -/
  | woken (a : AckPacket) (w : Waiter) (e : AckEntry) (hw : w ∈ s.apiAckWaitList)
      (hid : w.ackId = a.ackId) (hentry : a.stored = some e) (he : s' = { s with
        apiAckWaitList := s.apiAckWaitList.erase w
        calls := s.calls.modify w.owner fun c => { c with posts := c.posts ++ [a] } }) :
      CallsEffect M ipc s s' (.ack a)
  | ret (i : ℕ) (c : CallRun) (e : AckEntry) (hc : s.calls[i]? = some c) (hstage : c.stage = .waiting)
      (hentry : c.stored = some e) (he : s' = { s with
        calls := s.calls.modify i fun c => { c with
          stage := .returned (endCallApi c.args e).1 (endCallApi c.args e).2 } }) :
      CallsEffect M ipc s s' (.ret i)

/-- The entry that an acknowledgement finds. -/
theorem find?_waiter {a : AckPacket} {w : Waiter}
    (h : s.apiAckWaitList.find? (fun tiaal => tiaal.ackId == a.ackId) = some w) :
    w ∈ s.apiAckWaitList ∧ w.ackId = a.ackId ∧
      s.apiAckWaitList.eraseP (fun tiaal => tiaal.ackId == a.ackId) = s.apiAckWaitList.erase w :=
  ⟨List.mem_of_find?_eq_some h, by simpa using List.find?_some h, eraseP_eq_erase_of_find? h⟩

theorem CallsRun.step_effect (hstep : s.step M ipc act = some s') : CallsEffect M ipc s s' act := by
  cases act with
  | attach args => exact .attach args (Option.some.inj hstep).symm
  | send i =>
    simp only [CallsRun.step] at hstep
    split at hstep
    · cases hstep
    · rename_i c hc
      split at hstep
      · split at hstep
        · cases hstep
        · rename_i hlarge
          cases hstep
          refine .send i c [] hc ?_ (by rw [List.append_nil])
          intro pkt hsent
          cases hlarge.symm.trans hsent
        · rename_i pkt hsent
          cases hstep
          refine .send i c [pkt] hc ?_ rfl
          intro pkt' hsent'
          cases hsent.symm.trans hsent'
          rfl
      · cases hstep
  | ack a =>
    simp only [CallsRun.step] at hstep
    split at hstep
    · exact .ignored a (Option.some.inj hstep).symm
    · rename_i w hfind
      obtain ⟨hw, hid, herase⟩ := find?_waiter hfind
      split at hstep
      · cases hstep
      · rename_i hentry
        obtain ⟨e, he⟩ := Option.ne_none_iff_exists'.1 hentry
        rw [herase] at hstep
        exact .woken a w e hw hid he (Option.some.inj hstep).symm
  | ret i =>
    simp only [CallsRun.step] at hstep
    split at hstep
    · cases hstep
    · rename_i c hc
      split at hstep
      · rename_i hstage
        obtain ⟨e, he, rfl⟩ := Option.map_eq_some_iff.1 hstep
        exact .ret i c e hc hstage he rfl
      · cases hstep

/-! ## What a step keeps -/

/-- The entries on the list are those of the calls that no acknowledgement has come for; a call has
had at most one, with its id, and has returned what it says. -/
structure CallsInv (s : CallsRun) : Prop where
  next : s.apiAckMagicNum = BitVec.ofNat 32 s.calls.length
  ids : ∀ i c, s.calls[i]? = some c → c.ackId = BitVec.ofNat 32 i
  nodup : s.apiAckWaitList.Nodup
  waits : ∀ w, w ∈ s.apiAckWaitList ↔
    ∃ c, s.calls[w.owner]? = some c ∧ c.ackId = w.ackId ∧ c.posts = []
  posts : ∀ c ∈ s.calls, c.posts = [] ∨
    ∃ a e, c.posts = [a] ∧ a.ackId = c.ackId ∧ a.stored = some e
  returned : ∀ c ∈ s.calls, ∀ ret out, c.stage = .returned ret out →
    ∃ e, c.stored = some e ∧ ret = (endCallApi c.args e).1 ∧ out = (endCallApi c.args e).2

theorem mem_modify {α : Type*} {l : List α} {i : ℕ} {f : α → α} {b : α} (h : b ∈ l.modify i f) :
    b ∈ l ∨ ∃ a, l[i]? = some a ∧ b = f a := by
  obtain ⟨j, hj⟩ := List.mem_iff_getElem?.1 h
  rw [List.getElem?_modify] at hj
  obtain ⟨a, ha, rfl⟩ := Option.map_eq_some_iff.1 hj
  by_cases hij : i = j
  · subst hij
    exact Or.inr ⟨a, ha, if_pos rfl⟩
  · rw [if_neg hij]
    exact Or.inl (List.mem_of_getElem? ha)

/-- The ids count the calls, whichever of them goes on. -/
theorem CallsInv.ids_modify (h : CallsInv s) {i : ℕ} {f : CallRun → CallRun}
    (hid : ∀ c, (f c).ackId = c.ackId) (j : ℕ) (c : CallRun)
    (hj : (s.calls.modify i f)[j]? = some c) : c.ackId = BitVec.ofNat 32 j := by
  rw [List.getElem?_modify] at hj
  obtain ⟨c', hc', rfl⟩ := Option.map_eq_some_iff.1 hj
  rw [← h.ids j c' hc']
  split
  · exact hid c'
  · rfl

/-- A step of a call that leaves its id and its acknowledgements alone. -/
theorem CallsInv.modify (h : CallsInv s) {i : ℕ} {f : CallRun → CallRun} {sent : List IpcPacket}
    (hid : ∀ c, (f c).ackId = c.ackId) (hposts : ∀ c, (f c).posts = c.posts)
    (hreturned : ∀ c, s.calls[i]? = some c → ∀ ret out, (f c).stage = .returned ret out →
      ∃ e, c.stored = some e ∧ ret = (endCallApi (f c).args e).1 ∧
        out = (endCallApi (f c).args e).2) :
    CallsInv { s with calls := s.calls.modify i f, sent } := by
  constructor
  case next =>
    simp only [List.length_modify]
    exact h.next
  case ids => exact h.ids_modify hid
  case nodup => exact h.nodup
  case waits =>
    intro w
    rw [h.waits w]
    simp only [List.getElem?_modify, Option.map_eq_map, Option.map_eq_some_iff]
    constructor
    · rintro ⟨c, hc, hk, hp⟩
      refine ⟨_, ⟨c, hc, rfl⟩, ?_, ?_⟩
      · split
        · exact (hid c).trans hk
        · exact hk
      · split
        · exact (hposts c).trans hp
        · exact hp
    · rintro ⟨c', ⟨c, hc, rfl⟩, hk, hp⟩
      refine ⟨c, hc, ?_, ?_⟩
      · split at hk
        · exact (hid c).symm.trans hk
        · exact hk
      · split at hp
        · exact (hposts c).symm.trans hp
        · exact hp
  case posts =>
    intro c hc
    rcases mem_modify hc with hc | ⟨c', hc', rfl⟩
    · exact h.posts c hc
    · rw [hposts, hid]
      exact h.posts c' (List.mem_of_getElem? hc')
  case returned =>
    intro c hc ret out hstage
    rcases mem_modify hc with hc | ⟨c', hc', rfl⟩
    · exact h.returned c hc ret out hstage
    · rw [CallRun.stored, hposts, ← CallRun.stored]
      exact hreturned c' hc' ret out hstage

/-- A call attaches its entry. -/
theorem CallsInv.attach (h : CallsInv s) {args : CallArgs}
    (hstep : s.step M ipc (.attach args) = some s') : CallsInv s' := by
  obtain rfl := Option.some.inj hstep
  have hnew : ∀ i c, (s.calls ++ [{ args, ackId := s.apiAckMagicNum }])[i]? = some c ↔
      s.calls[i]? = some c ∨ i = s.calls.length ∧ c = { args, ackId := s.apiAckMagicNum } := by
    intro i c
    rcases Nat.lt_trichotomy i s.calls.length with hlt | heq | hgt
    · rw [List.getElem?_append_left hlt]
      simp [Nat.ne_of_lt hlt]
    · subst heq
      simp [eq_comm]
    · rw [List.getElem?_eq_none (by simp; omega), List.getElem?_eq_none (by omega)]
      simp [Nat.ne_of_gt hgt]
  constructor
  case next =>
    simp only [h.next, List.length_append, List.length_singleton, BitVec.ofNat_add]
    rfl
  case ids =>
    intro i c hi
    rcases (hnew i c).1 hi with hi | ⟨rfl, rfl⟩
    · exact h.ids i c hi
    · exact h.next
  case nodup =>
    rw [List.nodup_append]
    refine ⟨h.nodup, List.nodup_singleton _, ?_⟩
    intro w hw w' hw' he
    obtain ⟨c, hc, -⟩ := (h.waits w).1 hw
    rw [he, List.mem_singleton.1 hw', List.getElem?_eq_none (Nat.le_refl _)] at hc
    cases hc
  case waits =>
    intro w
    simp only [List.mem_append, List.mem_singleton, h.waits w, hnew]
    constructor
    · rintro (⟨c, hc, hrest⟩ | rfl)
      · exact ⟨c, Or.inl hc, hrest⟩
      · exact ⟨_, Or.inr ⟨rfl, rfl⟩, rfl, rfl⟩
    · rintro ⟨c, hc | ⟨howner, rfl⟩, hk, hp⟩
      · exact Or.inl ⟨c, hc, hk, hp⟩
      · obtain ⟨owner, ackId⟩ := w
        refine Or.inr ?_
        rw [← show s.apiAckMagicNum = ackId from hk, ← show owner = s.calls.length from howner]
  case posts =>
    intro c hc
    rcases List.mem_append.1 hc with hc | hc
    · exact h.posts c hc
    · rw [List.mem_singleton.1 hc]
      exact Or.inl rfl
  case returned =>
    intro c hc ret out hstage
    rcases List.mem_append.1 hc with hc | hc
    · exact h.returned c hc ret out hstage
    · rw [List.mem_singleton.1 hc] at hstage
      cases hstage

/-- An acknowledgement for an entry on the list. -/
theorem CallsInv.ack (h : CallsInv s) {a : AckPacket} {w : Waiter} (hw : w ∈ s.apiAckWaitList)
    (hid : w.ackId = a.ackId) {e : AckEntry} (he : a.stored = some e) :
    CallsInv { s with
      apiAckWaitList := s.apiAckWaitList.erase w
      calls := s.calls.modify w.owner fun c => { c with posts := c.posts ++ [a] } } := by
  obtain ⟨c₀, hc₀, hk₀, hp₀⟩ := (h.waits w).1 hw
  constructor
  case next =>
    simp only [List.length_modify]
    exact h.next
  case ids => exact h.ids_modify fun _ => rfl
  case nodup => exact h.nodup.erase w
  case waits =>
    intro x
    rw [h.nodup.mem_erase_iff, h.waits x]
    simp only [List.getElem?_modify, Option.map_eq_map, Option.map_eq_some_iff]
    by_cases howner : w.owner = x.owner
    · -- the call of this entry has been woken, and its entry was the one that is gone
      simp only [if_pos howner]
      constructor
      · rintro ⟨hne, c, hc, hk, -⟩
        rw [← howner, hc₀, Option.some.injEq] at hc
        obtain ⟨owner, ackId⟩ := x
        obtain ⟨owner', ackId'⟩ := w
        obtain rfl : owner' = owner := howner
        obtain rfl : ackId' = ackId := hk₀.symm.trans ((congrArg CallRun.ackId hc).trans hk)
        exact absurd rfl hne
      · rintro ⟨-, ⟨c, -, rfl⟩, -, hp⟩
        simp at hp
    · simp only [if_neg howner]
      constructor
      · rintro ⟨-, c, hc, hrest⟩
        exact ⟨c, ⟨c, hc, rfl⟩, hrest⟩
      · rintro ⟨c, ⟨c', hc, rfl⟩, hrest⟩
        exact ⟨fun hx => howner (congrArg Waiter.owner hx).symm, c', hc, hrest⟩
  case posts =>
    intro c hc
    rcases mem_modify hc with hc | ⟨c', hc', rfl⟩
    · exact h.posts c hc
    · obtain rfl : c₀ = c' := Option.some.inj (hc₀.symm.trans hc')
      refine Or.inr ⟨a, e, ?_, hid.symm.trans hk₀.symm, he⟩
      simp only [hp₀, List.nil_append]
  case returned =>
    intro c hc ret out hstage
    rcases mem_modify hc with hc | ⟨c', hc', rfl⟩
    · exact h.returned c hc ret out hstage
    · -- a call that has returned had its acknowledgement
      obtain rfl : c₀ = c' := Option.some.inj (hc₀.symm.trans hc')
      obtain ⟨e', he', -⟩ := h.returned c₀ (List.mem_of_getElem? hc₀) ret out hstage
      rw [CallRun.stored, hp₀] at he'
      cases he'

/-- **One step keeps the list and the calls so.** -/
theorem CallsInv.step (h : CallsInv s) (hstep : s.step M ipc act = some s') : CallsInv s' := by
  cases CallsRun.step_effect hstep with
  | attach args => exact h.attach hstep
  | send i c packets hc hpackets he =>
    subst he
    refine h.modify (fun _ => rfl) (fun _ => rfl) ?_
    intro c' _ ret out hstage
    cases hstage
  | ignored a he =>
    subst he
    exact h
  | woken a w e hw hid hentry he =>
    subst he
    exact h.ack hw hid hentry
  | ret i c e hc hstage hentry he =>
    subst he
    refine h.modify (fun _ => rfl) (fun _ => rfl) ?_
    intro c' hc' ret out hreturned
    obtain rfl : c = c' := Option.some.inj (hc.symm.trans hc')
    cases hreturned
    exact ⟨e, hentry, rfl, rfl⟩

theorem callsInv_of_reach {ok : CallsRun → CallsAct → CallsRun → Prop}
    (h : Reach (callsLts M ipc) ok s) : CallsInv s := by
  refine h.invariant (I := CallsInv) ?_ ?_
  · constructor
    case next => rfl
    case ids => exact fun i c hi => by cases hi
    case nodup => exact List.nodup_nil
    case waits =>
      intro w
      constructor
      · intro hw
        cases hw
      · rintro ⟨c, hc, -⟩
        cases hc
    case posts => exact fun c hc => by cases hc
    case returned => exact fun c hc => by cases hc
  · intro s act s' _ hI hstep _
    exact hI.step hstep

/-! ## Requests -/

/-- A call is made with a size that fits. -/
def CallsFit (M : BitVec 32) (_ : CallsRun) (act : CallsAct) (_ : CallsRun) : Prop :=
  match act with
  | .attach args => FitsLimit M.toInt args.data.length
  | _ => True

instance (M : BitVec 32) (s : CallsRun) (act : CallsAct) (s' : CallsRun) :
    Decidable (CallsFit M s act s') :=
  match act with
  | .attach args => inferInstanceAs (Decidable (FitsLimit M.toInt args.data.length))
  | .send _ => inferInstanceAs (Decidable True)
  | .ack _ => inferInstanceAs (Decidable True)
  | .ret _ => inferInstanceAs (Decidable True)

/-- The request of the call, with its id. -/
def CallRun.request (ipc : IpcHandle) (c : CallRun) : IpcPacket :=
  ⟨ipc.pid, .apiCall (ipcApiOf { ipc with apiAckMagicNum := c.ackId } c.args.pname c.args.apiName
    c.args.data c.args.timeout)⟩

/-- A call is about to send its request, or has sent it. -/
def Asked (M : BitVec 32) (ipc : IpcHandle) (s : CallsRun) : Prop :=
  ∀ c ∈ s.calls, FitsLimit M.toInt c.args.data.length ∧
    (c.stage = .attached ∨ c.request ipc ∈ s.sent)

/-- A step that keeps the arguments and the id of a call, and either its stage or sends its
request. -/
theorem Asked.modify (h : Asked M ipc s) {i : ℕ} {f : CallRun → CallRun} {w : List Waiter}
    {packets : List IpcPacket} (hargs : ∀ c, (f c).args = c.args) (hid : ∀ c, (f c).ackId = c.ackId)
    (hsent : ∀ c, s.calls[i]? = some c →
      (f c).stage = .attached ∨ c.request ipc ∈ s.sent ++ packets) :
    Asked M ipc { s with
      apiAckWaitList := w, calls := s.calls.modify i f, sent := s.sent ++ packets } := by
  intro c hc
  rcases mem_modify hc with hc | ⟨c', hc', rfl⟩
  · obtain ⟨hfit, hasked⟩ := h c hc
    exact ⟨hfit, hasked.imp_right fun hin => List.mem_append_left _ hin⟩
  · refine ⟨?_, ?_⟩
    · rw [hargs]
      exact (h c' (List.mem_of_getElem? hc')).1
    · have hsame : (f c').request ipc = c'.request ipc := by
        unfold CallRun.request
        rw [hargs, hid]
      rw [hsame]
      exact hsent c' hc'

/-- **One step keeps every call asked for.** -/
theorem Asked.step (h : Asked M ipc s) (hstep : s.step M ipc act = some s')
    (hok : CallsFit M s act s') : Asked M ipc s' := by
  cases CallsRun.step_effect hstep with
  | attach args he =>
    subst he
    intro c hc
    rcases List.mem_append.1 hc with hc | hc
    · exact h c hc
    · rw [List.mem_singleton.1 hc]
      exact ⟨hok, Or.inl rfl⟩
  | send i c packets hc hpackets he =>
    subst he
    have hfit := (h c (List.mem_of_getElem? hc)).1
    have hsent : packets = [c.request ipc] := hpackets _ (sendCall_eq_sent_iff.2 hfit)
    refine h.modify (fun _ => rfl) (fun _ => rfl) ?_
    intro c' hc'
    obtain rfl : c = c' := Option.some.inj (hc.symm.trans hc')
    rw [hsent]
    exact Or.inr (List.mem_append_right _ (List.mem_singleton.2 rfl))
  | ignored a he =>
    subst he
    exact h
  | woken a w e hw hid hentry he =>
    subst he
    rw [← List.append_nil s.sent]
    refine h.modify (fun _ => rfl) (fun _ => rfl) ?_
    intro c hc
    rw [List.append_nil]
    exact (h c (List.mem_of_getElem? hc)).2
  | ret i c e hc hstage hentry he =>
    subst he
    rw [← List.append_nil s.sent]
    refine h.modify (fun _ => rfl) (fun _ => rfl) ?_
    intro c' hc'
    obtain rfl : c = c' := Option.some.inj (hc.symm.trans hc')
    rw [List.append_nil]
    refine Or.inr ((h c (List.mem_of_getElem? hc)).2.resolve_left ?_)
    rw [hstage]
    intro hattached
    cases hattached

theorem asked_of_reach (h : Reach (callsLts M ipc) (CallsFit M) s) : Asked M ipc s := by
  refine h.invariant (I := Asked M ipc) ?_ ?_
  · intro c hc
    cases hc
  · intro s act s' _ hI hstep hok
    exact hI.step hstep hok

variable (M ipc) in
/-- **A call hands its request over exactly if it stays below the limit.**  In every run whose calls
all do, every entry of `api_ack_wait_list` is of a call that has sent its request, or has just
attached the entry and is about to. -/
theorem call_sent :
    (∀ (handle : Option IpcHandle) (args : CallArgs),
      HandedOver handle args (startCallApi M handle args) ↔
        handle = none ∨ FitsLimit M.toInt args.data.length) ∧
    ∀ s, Reach (callsLts M ipc) (CallsFit M) s → ∀ w ∈ s.apiAckWaitList,
      ∃ c, s.calls[w.owner]? = some c ∧ c.ackId = w.ackId ∧
        (c.stage = .attached ∨ c.request ipc ∈ s.sent) := by
  refine ⟨fun handle args => handedOver_iff handle, ?_⟩
  intro s h w hw
  obtain ⟨c, hc, hid, -⟩ := ((callsInv_of_reach h).waits w).1 hw
  exact ⟨c, hc, hid, (asked_of_reach h c (List.mem_of_getElem? hc)).2⟩

end Runs

/-- The handle of a process that calls. -/
def caller : IpcHandle := { pid := 2, aliasName := [98], msgRecvPort := 20, apiRecvPort := 21 }

/-- A call with one byte of data, and both pointers given. -/
def smallCall : CallArgs := ⟨[97], [102], [7], 0, true, true, by decide⟩

/-- Under the default limit such a call is asked for. -/
theorem call_sent_small : ∃ s, Reach (callsLts 4096 caller) (CallsFit 4096) s ∧
    s.apiAckWaitList = [⟨0, 0⟩] ∧ ∀ w ∈ s.apiAckWaitList,
      ∃ c, s.calls[w.owner]? = some c ∧ c.ackId = w.ackId ∧
        (c.stage = .attached ∨ c.request caller ∈ s.sent) := by
  obtain ⟨s, hrun, hlist⟩ : ∃ s, (callsLts 4096 caller).runOk (CallsFit 4096)
      (callsLts 4096 caller).init [.attach smallCall, .send 0] = some s ∧
      s.apiAckWaitList = [⟨0, 0⟩] := ⟨_, rfl, rfl⟩
  have hreach := Reach.runOk .init hrun
  exact ⟨s, hreach, hlist, (call_sent 4096 caller).2 s hreach⟩

/-- A call with 3864 bytes of data: the packet has 4096, which is the default limit. -/
def largeCall : CallArgs :=
  ⟨[97], [102], List.replicate 3864 0, 200, true, true, by rw [List.length_replicate]; decide⟩

/-- It waits for an answer to a request that has not been sent. -/
theorem call_unsent : ¬ ∀ (M : BitVec 32) (handle : Option IpcHandle) (args : CallArgs),
    HandedOver handle args (startCallApi M handle args) := by
  have hlen : largeCall.data.length = 3864 := List.length_replicate
  refine not_forall.2 ⟨4096, not_forall.2 ⟨some caller, not_forall.2 ⟨largeCall, ?_⟩⟩⟩
  rw [handedOver_iff]
  rintro (hnone | hfit)
  · cases hnone
  · rw [hlen] at hfit
    exact absurd hfit (by decide)

/-! ## Answers -/

section Answers

variable {M : BitVec 32} {ipc : IpcHandle} {s : CallsRun}

/-- There have been fewer calls than ids. -/
def FewCalls : CallsRun → CallsAct → CallsRun → Prop :=
  OnStates fun s => s.calls.length < 4294967296

instance (s : CallsRun) (act : CallsAct) (s' : CallsRun) : Decidable (FewCalls s act s') :=
  inferInstanceAs (Decidable (_ < _))

/-- How the calls of a handle are completed. -/
structure CompletesCalls (M : BitVec 32) (ipc : IpcHandle) (s : CallsRun) : Prop where
  distinct : (s.apiAckWaitList.map Waiter.ackId).Nodup
  /-- The calls on the list are those that have not been woken. -/
  waiting : ∀ w, w ∈ s.apiAckWaitList ↔
    ∃ c, s.calls[w.owner]? = some c ∧ c.ackId = w.ackId ∧ c.posts = []
  /-- An acknowledgement takes the call with its id off the list and wakes it, and does nothing
  else. -/
  wakes : ∀ a, a.stored ≠ none → ∀ w ∈ s.apiAckWaitList, w.ackId = a.ackId →
    s.step M ipc (.ack a) = some { s with
      apiAckWaitList := s.apiAckWaitList.erase w
      calls := s.calls.modify w.owner fun c => { c with posts := c.posts ++ [a] } }
  /-- If no call on the list has its id, it does nothing. -/
  ignores : ∀ a, (∀ w ∈ s.apiAckWaitList, w.ackId ≠ a.ackId) → s.step M ipc (.ack a) = some s
  /-- No call is woken twice. -/
  once : ∀ c ∈ s.calls, c.posts.length ≤ 1
  /-- A call that waits returns when it has been woken. -/
  returns : ∀ i c, s.calls[i]? = some c → c.stage = .waiting →
    ((s.step M ipc (.ret i)).isSome ↔ c.posts ≠ [])
  /-- What it returns is what the one acknowledgement with its id says. -/
  answers : ∀ c ∈ s.calls, ∀ ret out, c.stage = .returned ret out →
    ∃ a, c.posts = [a] ∧ a.ackId = c.ackId ∧ ReturnsAnswer c.args a ret out

/-- With few calls, an id stands for one call. -/
theorem CallsInv.owner_inj (h : CallsInv s) (hfew : s.calls.length < 4294967296) {w w' : Waiter}
    (hw : w ∈ s.apiAckWaitList) (hw' : w' ∈ s.apiAckWaitList) (hid : w.ackId = w'.ackId) : w = w' := by
  obtain ⟨c, hc, hk, -⟩ := (h.waits w).1 hw
  obtain ⟨c', hc', hk', -⟩ := (h.waits w').1 hw'
  obtain ⟨hlt, -⟩ := List.getElem?_eq_some_iff.1 hc
  obtain ⟨hlt', -⟩ := List.getElem?_eq_some_iff.1 hc'
  have hnat : (BitVec.ofNat 32 w.owner).toNat = (BitVec.ofNat 32 w'.owner).toNat := by
    rw [← h.ids _ c hc, ← h.ids _ c' hc', hk, hk', hid]
  rw [BitVec.toNat_ofNat, BitVec.toNat_ofNat, Nat.mod_eq_of_lt (by omega),
    Nat.mod_eq_of_lt (by omega)] at hnat
  obtain ⟨owner, ackId⟩ := w
  obtain ⟨owner', ackId'⟩ := w'
  rw [show owner = owner' from hnat, show ackId = ackId' from hid]

/-- **Every call of a handle is completed once, by its own acknowledgement.**  In every run of calls
and acknowledgements, in any interleaving and with fewer calls than ids. -/
theorem completion (h : Reach (callsLts M ipc) FewCalls s) : CompletesCalls M ipc s := by
  have hinv := callsInv_of_reach h
  have hfew : s.calls.length < 4294967296 := by
    cases h with
    | init => exact Nat.two_pow_pos 32
    | step _ _ hok => exact hok
  constructor
  case distinct => exact hinv.nodup.map_on fun w hw w' hw' hid => hinv.owner_inj hfew hw hw' hid
  case waiting => exact hinv.waits
  case wakes =>
    intro a hentry w hw hid
    simp only [CallsRun.step]
    split
    · rename_i hnone
      exact absurd (by simpa using hid) (List.find?_eq_none.1 hnone w hw)
    · rename_i w' hfind
      obtain ⟨hw', hid', herase⟩ := find?_waiter hfind
      obtain rfl : w = w' := hinv.owner_inj hfew hw hw' (hid.trans hid'.symm)
      rw [if_neg hentry, herase]
  case ignores =>
    intro a hno
    have hnone : s.apiAckWaitList.find? (fun tiaal => tiaal.ackId == a.ackId) = none := by
      rw [List.find?_eq_none]
      intro w hw
      simpa using hno w hw
    simp only [CallsRun.step, hnone]
  case once =>
    intro c hc
    rcases hinv.posts c hc with hp | ⟨a, e, hp, -⟩ <;> simp [hp]
  case returns =>
    intro i c hc hstage
    simp only [CallsRun.step, hc, if_pos hstage, Option.isSome_map]
    rcases hinv.posts c (List.mem_of_getElem? hc) with hp | ⟨a, e, hp, -, he⟩
    · simp [CallRun.stored, hp]
    · simp [CallRun.stored, hp, he]
  case answers =>
    intro c hc ret out hstage
    obtain ⟨e, he, rfl, rfl⟩ := hinv.returned c hc ret out hstage
    rcases hinv.posts c hc with hp | ⟨a, e', hp, hid, he'⟩
    · rw [CallRun.stored, hp] at he
      cases he
    · rw [CallRun.stored, hp] at he
      exact ⟨a, hp, hid, returnsAnswer_endCallApi c.args he⟩

end Answers

/-- Two calls at once; the answers come in the other order, the first of them twice. -/
def answeredRun : List CallsAct :=
  [.attach smallCall, .attach smallCall, .send 1, .send 0, .ack ⟨1, .ackOk, 1, [8, 0]⟩,
    .ack ⟨1, .ackFail, 0, []⟩, .ret 1, .ack ⟨0, .ackTimeout, 0, []⟩, .ack ⟨5, .ackOk, 0, []⟩, .ret 0]

/-- Each call returns its own. -/
theorem completion_two : ∃ s, Reach (callsLts 4096 caller) FewCalls s ∧
    s.calls.map CallRun.stage =
      [.returned .ackTimeout none, .returned .ackOk (some (some [8], 1))] ∧
    CompletesCalls 4096 caller s := by
  obtain ⟨s, hrun, hstages⟩ : ∃ s, (callsLts 4096 caller).runOk FewCalls
      (callsLts 4096 caller).init answeredRun = some s ∧
      s.calls.map CallRun.stage =
        [.returned .ackTimeout none, .returned .ackOk (some (some [8], 1))] := ⟨_, rfl, by decide⟩
  have hreach := Reach.runOk .init hrun
  exact ⟨s, hreach, hstages, completion hreach⟩

end EasyIpc.Completion

import EasyIpc.Hops

/-!
# Lengths in received packets

`ipcd_analysis_core` on the bytes of its receive buffer, whoever sent them.  The received length is
not looked at, and the lengths of the copies come from the packet: a copy that would leave the
buffer is the result `none` of `ipcdAnalysisCoreBytes`.

* `LengthsFit` — the size field of the branch that is taken is consistent with the buffer.
* `copies_in_bounds` — this is exactly when no copy leaves the buffer; packets that the processes
  send are handled, and as `ipcdAnalysisCore` handles their contents.
* `copies_out_of_bounds` — a datagram for which it is not so.
-/

namespace EasyIpc

open Buffer Bytes

/-- An end record makes `ipcd_analysis_core` build an acknowledgement: the sender lists the API and
the call is pending, or the sender does not list it. -/
def acknowledges (sendPid : ℤ) (rt : IpcRuntime) (d : Daemon) : Bool :=
  !senderLists d.mlist sendPid rt ||
    d.recvAcklist.any fun a => a.daemonMagicNumber == rt.daemonMagicNumber

/-- `ipcd_analysis_core` on the receive buffer. -/
def ipcdAnalysisCoreBytes (stale : MlistMember → MlistMember) (addr : ℕ) (buf : List UInt8)
    (d : Daemon) : Option (Daemon × List Send) :=
  let sendPid := intAt 4 4 buf
  match decodeBody (intAt 4 0 buf) (buf.drop 12) with
  | .apiCall _ =>
      match ipcdGetMlistViaPid d.mlist sendPid with
      | none => some (d, [])
      | some _ =>
          (ipcdApiPush d.apiPublicMagicNumber buf).map fun p =>
            (ipcdApiCall sendPid (decodeIpcApi p) d, [])
  | .msgSend _ =>
      match ipcdGetMlistViaPid d.mlist sendPid with
      | none => some (d, [])
      | some _ => (ipcdMsgPush buf).map fun p => (ipcdMsgSend sendPid (decodeIpcMsg p) d, [])
  | .apiRuntime rt =>
      if rt.flag && acknowledges sendPid rt d then
        (ipcdRetData buf).map fun data => ipcdApiFinish sendPid { rt with retData := data } d
      else some (ipcdAnalysisCore stale addr ⟨sendPid, .apiRuntime rt⟩ d)
  | body => some (ipcdAnalysisCore stale addr ⟨sendPid, body⟩ d)

/-- The size fields of a packet in a buffer of `maxSize` bytes, read where a copy depends on them,
keep the copy within the buffer. -/
structure LengthsFit (maxSize : ℕ) (buf : List UInt8) (d : Daemon) : Prop where
  api : intAt 4 0 buf = 10 → (ipcdGetMlistViaPid d.mlist (intAt 4 4 buf)).isSome →
    InRange maxSize 12 (toInt (216 + intAt 4 208 (buf.drop 12)))
  msg : intAt 4 0 buf = 14 → (ipcdGetMlistViaPid d.mlist (intAt 4 4 buf)).isSome →
    InRange maxSize 12 (toInt (140 + intAt 4 132 (buf.drop 12)))
  ret : intAt 4 0 buf = 16 → intAt 4 68 (buf.drop 12) ≠ 0 →
    acknowledges (intAt 4 4 buf) (decodeIpcRuntime (buf.drop 12)) d = true →
    intAt 4 100 (buf.drop 12) ≠ 0 → InRange maxSize (12 + 104) (intAt 4 100 (buf.drop 12))

section Bytes

variable {stale : MlistMember → MlistMember} {addr maxSize : ℕ} {buf : List UInt8} {d : Daemon}

/-- The number that the daemon writes into the buffer does not touch the size. -/
theorem ipcdApiPush_eq_none_iff (number : Magic) : ipcdApiPush number buf = none ↔
    ¬ InRange buf.length 12 (toInt (216 + intAt 4 208 (buf.drop 12))) := by
  have hsize : intAt 4 208 ((write (12 + 192) (magicBytes number) buf).drop 12) =
      intAt 4 208 (buf.drop 12) := by
    unfold intAt
    rw [read_drop, read_drop, read_write_of_disjoint (by simp)]
  simp only [ipcdApiPush, ipcApiSize, hsize]
  rw [read?_eq_none_iff, length_write]

theorem ipcdMsgPush_eq_none_iff : ipcdMsgPush buf = none ↔
    ¬ InRange buf.length 12 (toInt (140 + intAt 4 132 (buf.drop 12))) :=
  read?_eq_none_iff

theorem ipcdRetData_eq_none_iff : ipcdRetData buf = none ↔ intAt 4 100 (buf.drop 12) ≠ 0 ∧
    ¬ InRange buf.length (12 + 104) (intAt 4 100 (buf.drop 12)) := by
  unfold ipcdRetData
  split
  · simp [*]
  · simp [*, read?_eq_none_iff]

/-- The kinds of packet by their number. -/
theorem decodeBody_cases (iit : ℤ) (p : List UInt8) :
    (iit = 10 ∧ decodeBody iit p = .apiCall (decodeIpcApi p)) ∨
    (iit = 14 ∧ decodeBody iit p = .msgSend (decodeIpcMsg p)) ∨
    (iit = 16 ∧ decodeBody iit p = .apiRuntime (decodeIpcRuntime p)) ∨
    (iit ≠ 10 ∧ iit ≠ 14 ∧ iit ≠ 16 ∧ (∀ api, decodeBody iit p ≠ .apiCall api) ∧
      (∀ msg, decodeBody iit p ≠ .msgSend msg) ∧ ∀ rt, decodeBody iit p ≠ .apiRuntime rt) := by
  unfold decodeBody
  split <;> simp_all

/-- A copy leaves the buffer exactly if a size field does not fit. -/
theorem ipcdAnalysisCoreBytes_ne_none_iff (hbuf : buf.length = maxSize) :
    ipcdAnalysisCoreBytes stale addr buf d ≠ none ↔ LengthsFit maxSize buf d := by
  subst hbuf
  rcases decodeBody_cases (intAt 4 0 buf) (buf.drop 12) with
    ⟨hiit, hbody⟩ | ⟨hiit, hbody⟩ | ⟨hiit, hbody⟩ | ⟨h10, h14, h16, hapi, hmsg, hrt⟩
  · cases hm : ipcdGetMlistViaPid d.mlist (intAt 4 4 buf) with
    | none =>
      simp only [ipcdAnalysisCoreBytes, hbody, hm]
      refine iff_of_true (by simp) ⟨?_, ?_, ?_⟩ <;> simp [hiit, hm]
    | some m =>
      simp only [ipcdAnalysisCoreBytes, hbody, hm, ne_eq, Option.map_eq_none_iff,
        ipcdApiPush_eq_none_iff, not_not]
      refine ⟨fun h => ⟨fun _ _ => h, ?_, ?_⟩, fun h => h.api hiit (by simp [hm])⟩ <;> simp [hiit]
  · cases hm : ipcdGetMlistViaPid d.mlist (intAt 4 4 buf) with
    | none =>
      simp only [ipcdAnalysisCoreBytes, hbody, hm]
      refine iff_of_true (by simp) ⟨?_, ?_, ?_⟩ <;> simp [hiit, hm]
    | some m =>
      simp only [ipcdAnalysisCoreBytes, hbody, hm, ne_eq, Option.map_eq_none_iff,
        ipcdMsgPush_eq_none_iff, not_not]
      refine ⟨fun h => ⟨?_, fun _ _ => h, ?_⟩, fun h => h.msg hiit (by simp [hm])⟩ <;> simp [hiit]
  · have hflag : (decodeIpcRuntime (buf.drop 12)).flag = (intAt 4 68 (buf.drop 12) != 0) := rfl
    by_cases hack : ((decodeIpcRuntime (buf.drop 12)).flag &&
        acknowledges (intAt 4 4 buf) (decodeIpcRuntime (buf.drop 12)) d) = true
    · simp only [ipcdAnalysisCoreBytes, hbody, if_pos hack, ne_eq, Option.map_eq_none_iff,
        ipcdRetData_eq_none_iff]
      rw [hflag, Bool.and_eq_true, bne_iff_ne] at hack
      constructor
      · intro h
        refine ⟨by simp [hiit], by simp [hiit], fun _ _ _ hne => ?_⟩
        by_contra hout
        exact h ⟨hne, hout⟩
      · rintro h ⟨hne, hout⟩
        exact hout (h.ret hiit hack.1 hack.2 hne)
    · simp only [ipcdAnalysisCoreBytes, hbody, if_neg hack]
      refine iff_of_true (by simp) ⟨by simp [hiit], by simp [hiit], fun _ hne hbuilds => ?_⟩
      rw [hflag, Bool.and_eq_true, bne_iff_ne] at hack
      exact absurd ⟨hne, hbuilds⟩ hack
  · have hsome : ipcdAnalysisCoreBytes stale addr buf d = some (ipcdAnalysisCore stale addr
        ⟨intAt 4 4 buf, decodeBody (intAt 4 0 buf) (buf.drop 12)⟩ d) := by
      unfold ipcdAnalysisCoreBytes
      split <;> simp_all
    rw [hsome]
    refine iff_of_true (by simp) ⟨?_, ?_, ?_⟩ <;> simp [h10, h14, h16]

/-- **The handler on the bytes of a packet does what the handler on its contents does.** -/
theorem ipcdAnalysisCoreBytes_encodePacket {heap : List UInt8} (hheap : heap.length = 64)
    {pkt : IpcPacket} (h : pkt.Valid) (hM : maxSize ≤ 2147483648)
    (hfit : 16 + pkt.body.size < maxSize) :
    ipcdAnalysisCoreBytes stale addr (recvfrom maxSize (encodePacket heap pkt)) d =
      some (ipcdAnalysisCore stale addr pkt d) := by
  have hdec := decodePacket_recvfrom hheap h (Nat.le_of_lt hfit)
  have hpid : intAt 4 4 (recvfrom maxSize (encodePacket heap pkt)) = pkt.sendPid :=
    congrArg IpcPacket.sendPid hdec
  have hbody : decodeBody (intAt 4 0 (recvfrom maxSize (encodePacket heap pkt)))
      ((recvfrom maxSize (encodePacket heap pkt)).drop 12) = pkt.body :=
    congrArg IpcPacket.body hdec
  obtain ⟨sendPid, body⟩ := pkt
  simp only at hpid hbody
  simp only [ipcdAnalysisCoreBytes, hpid, hbody]
  cases body with
  | apiCall api =>
    have hvalid : api.Valid := h.body
    cases hm : ipcdGetMlistViaPid d.mlist sendPid with
    | none => simp only [ipcdAnalysisCore, ipcdApiCall, hm]
    | some m =>
      have hvalid' : IpcApi.Valid { api with daemonMagicNumber := d.apiPublicMagicNumber } :=
        ⟨hvalid.pname, hvalid.apiName, hvalid.count, hvalid.pid, hvalid.size⟩
      have hpush := @ipcdApiPush_eq maxSize sendPid heap api hvalid hheap hM hfit
        d.apiPublicMagicNumber
      have hself := decode_ipcApi hvalid' hheap (pointsTo_self _)
      simp only [encodePacket, PacketBody.iit, encodeBody, hpush, Option.map_some, hself,
        ipcdAnalysisCore, ipcdApiCall, hm]
  | msgSend msg =>
    have hvalid : msg.Valid := h.body
    cases hm : ipcdGetMlistViaPid d.mlist sendPid with
    | none => simp only [ipcdAnalysisCore, ipcdMsgSend, hm]
    | some m =>
      have hpush := @ipcdMsgPush_eq maxSize sendPid msg hvalid hM hfit
      have hself := decode_ipcMsg hvalid (pointsTo_self _)
      simp only [encodePacket, PacketBody.iit, encodeBody, hpush, Option.map_some, hself,
        ipcdAnalysisCore]
  | apiRuntime rt =>
    have hdata := @ipcdRetData_eq maxSize sendPid rt h.body (Nat.le_of_lt hfit)
    by_cases hack : (rt.flag && acknowledges sendPid rt d) = true
    · have hflag : rt.flag = true := (Bool.and_eq_true_iff.1 hack).1
      simp only [if_pos hack, encodePacket, PacketBody.iit, encodeBody, hdata, Option.map_some,
        ipcdAnalysisCore, if_pos hflag]
    · simp only [if_neg hack]
  | _ => rfl

end Bytes

/-- **The lengths of the copies.**  For every datagram and every state of the daemon the copies
stay within the receive buffer exactly if the size fields fit.  They fit in every packet that a
process sends, and the handler then does what it does for the contents of the packet. -/
theorem copies_in_bounds (stale : MlistMember → MlistMember) (addr maxSize : ℕ) (d : Daemon) :
    (∀ datagram, ipcdAnalysisCoreBytes stale addr (recvfrom maxSize datagram) d ≠ none ↔
      LengthsFit maxSize (recvfrom maxSize datagram) d) ∧
    ∀ heap pkt, heap.length = 64 → pkt.Valid → maxSize ≤ 2147483648 →
      sizeofIpcPacket + pkt.body.size < maxSize →
      ipcdAnalysisCoreBytes stale addr (recvfrom maxSize (encodePacket heap pkt)) d =
        some (ipcdAnalysisCore stale addr pkt d) := by
  refine ⟨fun datagram => ?_, fun heap pkt hheap h hM hfit => ?_⟩
  · exact ipcdAnalysisCoreBytes_ne_none_iff (length_recvfrom maxSize datagram)
  · exact ipcdAnalysisCoreBytes_encodePacket hheap h hM hfit

/-- The packet of a message of two bytes is handled. -/
theorem copies_in_bounds_message :
    ipcdAnalysisCoreBytes id 1 (recvfrom 4096 (encodePacket (zeros 64)
      ⟨1, .msgSend ⟨[109], [97], 1, [7, 8]⟩⟩)) { mlist := [newMember ⟨1, [97], 10, 11, 0⟩ 1] } =
    some (ipcdAnalysisCore id 1 ⟨1, .msgSend ⟨[109], [97], 1, [7, 8]⟩⟩
      { mlist := [newMember ⟨1, [97], 10, 11, 0⟩ 1] }) := by
  refine (copies_in_bounds id 1 4096 _).2 (zeros 64) _ (by decide) ⟨by decide, ?_⟩ (by decide)
    (by decide)
  exact ⟨by decide, by decide, by decide, by decide⟩

/-- A datagram of 156 bytes from a member, a message that claims 1000 bytes of data. -/
def overlongMessage : List UInt8 := encodeIpcPacket 1 14 (build 140 [(132, intBytes 4 1000)])

/-- The daemon copies 1140 bytes out of a buffer of 300. -/
theorem copies_out_of_bounds :
    overlongMessage.length ≤ 300 ∧
    toInt (140 + intAt 4 132 ((recvfrom 300 overlongMessage).drop 12)) = 1140 ∧
    ¬ InRange 300 12 1140 ∧
    ipcdAnalysisCoreBytes id 1 (recvfrom 300 overlongMessage)
      { mlist := [newMember ⟨1, [97], 10, 11, 0⟩ 1] } = none := by
  have hsize : toInt (140 + intAt 4 132 ((recvfrom 300 overlongMessage).drop 12)) = 1140 := by
    decide +kernel
  refine ⟨by decide +kernel, hsize, by decide, ?_⟩
  have hkind : intAt 4 0 (recvfrom 300 overlongMessage) = 14 := by decide +kernel
  have hpid : intAt 4 4 (recvfrom 300 overlongMessage) = 1 := by decide +kernel
  simp only [ipcdAnalysisCoreBytes, hkind, hpid, decodeBody]
  show (ipcdMsgPush (recvfrom 300 overlongMessage)).map _ = none
  rw [Option.map_eq_none_iff, ipcdMsgPush_eq_none_iff, hsize, length_recvfrom]
  decide

end EasyIpc

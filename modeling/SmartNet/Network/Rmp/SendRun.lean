import SmartNet.Lib.Run
import SmartNet.Network.Rmp.SendCalls

/-! # Runs of a sender

A `Sender` is a sending socket with what is remembered about its run: the payloads it accepted and
the assert that ended the process, if one did.

* `SendAct`: the calls of the application and of the io threads, and a new order of the receiver
  table, which is a hash map, and of what comes into it;
* `exec_report`: what a call of an honest environment does to the socket and what it sends;
* `step_cases`: everything a step can do; `asserts_iff`: when a call ends the process. -/

namespace SmartNet.Network.Rmp.SendRun

open SmartNet.Common SmartNet.Lib SmartNet.Memory.MemBlock SmartNet.Network.Udp
open SmartNet.Network.Rmp.Wire
open SmartNet.Network.Rmp.Sendep SmartNet.Network.Rmp.SendWin SmartNet.Network.Rmp.SendCalls

/-- A call of the sender, or `rehash`: between two calls the receiver table may change the order of
its entries, and a new entry may come anywhere. -/
inductive SendAct
  | send (b : Payload)
  | canSend (now : ℕ) (stack : ℕ → UInt8) (io : Sendto)
  | input (r : Recvfrom) (now : ℕ) (fresh : ℕ → UInt8) (sent : ℕ → Bool)
  | rehash (m : RecverMap) (place : ℕ → ℕ)

/-- What the call does: the socket, and the payload that was accepted. -/
def SendAct.exec (strict : Bool) (s : SendSock) :
    SendAct → Eff Ev Fault (SendSock × List (List UInt8))
  | .send b => do
    let (ret, _, s) ← Sendep.send s b.mem
    pure (s, if ret = .suc then [b.mem.data] else [])
  | .canSend now stack io => do
    let (_, s) ← sendepHandleCanSend s now stack io
    pure (s, [])
  | .input r now fresh sent => do
    let (_, s) ← sendepHandleCanRecv strict s fresh r now sent
    pure (s, [])
  | .rehash m place =>
    pure (if m.Perm s.mapRecvers then { s with mapRecvers := m, place := place } else s, [])

structure Sender where
  sock : SendSock
  fault : Option Fault
  accepted : List (List UInt8)

/-- The sender after a call; a process that was ended does nothing more. -/
def step (strict : Bool) (p : Sender) (a : SendAct) : Sender :=
  if p.fault.isSome then p
  else
    match (a.exec strict p.sock).res with
    | .ok (s, l) => { p with sock := s, accepted := p.accepted ++ l }
    | .error f => { p with fault := some f }

/-- The datagrams a call sends. -/
def out (strict : Bool) (p : Sender) (a : SendAct) : List (List UInt8) :=
  if p.fault.isSome then [] else (sends (a.exec strict p.sock).evs).map Prod.snd

/-- The datagram that arrives, if one does, is an ack or a NAK for packets up to `M`. -/
def Feed (M : ℕ) : SendAct → Prop
  | .input (.dgram _ d) _ _ _ =>
    (∃ seq id, IsAck seq id d ∧ 1 ≤ seq ∧ seq ≤ M) ∨ ∃ b e id, IsNak b e id d ∧ 1 ≤ b ∧
      b ≤ e ∧ e ≤ M
  | _ => True

/-- What a call does to the receiver table and the head. -/
def Takes (s t : SendSock) : SendAct → Prop
  | .input (.dgram _ d) now _ _ =>
    (t.validSendingDataHead = s.validSendingDataHead ∧ ∃ id,
        (∃ b e, IsNak b e id d) ∧ t.mapRecvers = nakTable id now (s.table id) ∨
        (∃ seq, IsAck seq id d) ∧
          t.mapRecvers = RecverMap.at id (fun i => { i with lastUpdateTimeUs := now })
            (s.table id)) ∨
      ∃ seq id, IsAck seq id d ∧ s.validSendingDataHead ≤ seq ∧ Acked seq id now s t
  | _ => t.validSendingDataHead = s.validSendingDataHead ∧ t.mapRecvers.Perm s.mapRecvers

/-- A datagram of the sender: a packet that has been sent, or a heartbeat. -/
def Packet (accepted : List (List UInt8)) (sid : UInt8) (M : ℕ) (d : List UInt8) : Prop :=
  (∃ q, 1 ≤ q ∧ q ≤ M ∧ IsOdata sid q (payOf accepted q) d) ∨ ∃ l o, IsHb sid l o d ∧ l ≤ M

/-- A call leads from `s` to `t` and accepts the payloads `l`. -/
structure Moved (accepted : List (List UInt8)) (s : SendSock) (a : SendAct) (t : SendSock)
    (l : List (List UInt8)) : Prop where
  win : accepted.length + l.length < 2 ^ 64 → Window (accepted ++ l) t
  senderId : t.senderId = s.senderId
  addrMulticast : t.addrMulticast = s.addrMulticast
  maxKeepAliveTimeUs : t.maxKeepAliveTimeUs = s.maxKeepAliveTimeUs
  takes : Takes s t a
  filled : ∀ p ∈ l, p ≠ []
  sending : t.sendingSeqNo = s.sendingSeqNo ∨ t.sendingSeqNo = s.sendingSeqNo + 1 ∧
    s.sendingSeqNo + 1 ≤ accepted.length ∧
      s.sendingSeqNo + 1 ≤ s.validSendingDataHead + sendWinSize / 10 ∧
    ¬ Blocked s ∧ ∃ now stack, a = .canSend now stack .sent

/-- What a call of an honest environment does: it moves the socket and sends packets, or it ends the
process and sends nothing. -/
structure Report (accepted : List (List UInt8)) (s : SendSock) (a : SendAct)
    (x : Eff Ev Fault (SendSock × List (List UInt8))) : Prop where
  ok : ∀ t l, x.res = .ok (t, l) → Moved accepted s a t l ∧
    ∀ ad d, (ad, d) ∈ sends x.evs → Packet accepted s.senderId t.sendingSeqNo d
  err : ∀ f, x.res = .error f → sends x.evs = []

variable {s t : SendSock} {accepted : List (List UInt8)} {strict : Bool}

theorem report_abort {a : SendAct} {x : Eff Ev Fault (SendSock × List (List UInt8))} {f : Fault}
    (hx : x = Eff.abort f) : Report accepted s a x := by
  subst hx
  refine ⟨fun t l ht => ?_, fun _ _ => rfl⟩
  cases ht

theorem Moved.of_after (h : Window accepted s) (hst : After s t) {a : SendAct}
    (hh : s.validSendingDataHead ≤ t.validSendingDataHead)
    (hh' : t.validSendingDataHead = s.validSendingDataHead ∨
      t.validSendingDataHead ≤ s.sendingSeqNo + 1)
    (hm : Below s.sendingSeqNo t.mapRecvers) (htakes : Takes s t a) : Moved accepted s a t [] := by
  have hle := h.head_le
  refine ⟨fun _ => ?_, hst.win.senderId, hst.win.addrMulticast, hst.win.maxKeepAliveTimeUs, htakes,
    fun p hp => absurd hp List.not_mem_nil, Or.inl hst.sendingSeqNo⟩
  rw [List.append_nil]
  exact h.of_sameWin hst.win hst.sendingSeqNo hh (by omega) hm hst.idle

/-! ### `send` and `handle_can_send` -/

theorem report_send (h : Window accepted s) (b : Payload) :
    Report accepted s (.send b) (SendAct.exec strict s (.send b)) := by
  by_cases ho : b.mem.offset = 16
  · have hstay : Moved accepted s (.send b) s [] :=
      Moved.of_after h ⟨⟨rfl, rfl, rfl, rfl, rfl⟩, rfl, h.idle⟩ (Nat.le_refl _)
        (Or.inl rfl) h.recved
        ⟨rfl, List.Perm.refl _⟩
    rcases send_cases (s := s) ho b.fits with ⟨c, heq, -⟩ | ⟨heq, hfull⟩
    · simp only [SendAct.exec, heq, Eff.pure_bind]
      refine ⟨fun t l ht => ?_, fun f hf => ?_⟩
      · cases ht
        exact ⟨hstay, fun ad d hmem => by cases hmem⟩
      · cases hf
    · simp only [SendAct.exec, heq, Eff.pure_bind, if_true]
      refine ⟨fun t l ht => ?_, fun f hf => ?_⟩
      · cases ht
        have hpos : b.mem.data ≠ [] := fun he => by
          have hl := b.mem.length_data
          rw [he, List.length_nil] at hl
          exact absurd b.pos (by omega)
        exact ⟨⟨fun hlt => h.send ho b.fits hlt hfull, rfl, rfl, rfl, ⟨rfl, List.Perm.refl _⟩,
          fun p hp => List.mem_singleton.mp hp ▸ hpos, Or.inl rfl⟩, fun ad d hmem => by cases hmem⟩
      · cases hf
  · exact report_abort (f := .sendOffset)
      (by simp only [SendAct.exec, send_offset ho, Eff.abort_bind])

theorem Window.sent (h : Window accepted s) (hle : s.sendingSeqNo + 1 ≤ accepted.length)
    (hlt : accepted.length < 2 ^ 64 - 1) :
    Window accepted { s with sendingSeqNo := s.sendingSeqNo + 1 } :=
  ⟨h.lt, h.tail, hle, by show s.sendingSeqNo + 1 < _; omega, Nat.le_succ_of_le h.head_le,
    h.room, h.held,
    fun e he => Nat.le_succ_of_le (h.recved e he), h.idle⟩

theorem report_canSend (h : Window accepted s) (now : ℕ) (stack : ℕ → UInt8) (io : Sendto) :
    Report accepted s (.canSend now stack io) (SendAct.exec strict s (.canSend now stack io)) := by
  have hlt := h.sending_lt
  have hle := h.head_le
  have hstay : ∀ x, Moved accepted s (.canSend now stack io) { s with lastHbTime := x } [] :=
    fun x =>
    Moved.of_after (t := { s with lastHbTime := x }) (a := .canSend now stack io) h
      ⟨⟨rfl, rfl, rfl, rfl, rfl⟩, rfl, h.idle⟩ (Nat.le_refl _) (Or.inl rfl) h.recved
        ⟨rfl, List.Perm.refl _⟩
  simp only [SendAct.exec]
  rcases canSend_cases h.slots now stack io with
    ⟨-, heq⟩ | ⟨hbl, ⟨heq, -⟩ | ⟨hacc, hacc', hopen, d, hd, ⟨rfl, heq⟩ | ⟨-, ret, heq⟩⟩⟩
  · rw [heq]
    rcases hb_cases s now stack io with ⟨-, -, hx⟩ | ⟨-, x, hx, hsends⟩
    · exact report_abort (f := .sendHb) (by rw [hx]; rfl)
    · rw [Eff.bind_assoc, Eff.bind_of_ok hx]
      refine ⟨fun t l ht => ?_, fun f hf => ?_⟩
      · cases ht
        refine ⟨hstay x,
          fun ad d hmem => Or.inr ⟨s.sendingSeqNo, s.validSendingDataHead, ?_, Nat.le_refl _⟩⟩
        have hmem' : (ad, d) ∈ sends (sendepHb s now stack io).evs := by simpa using hmem
        rw [hsends ad d hmem']
        exact isHb_hbBytes stack s.senderId (by omega) (by omega)
      · cases hf
  · exact report_abort (f := .sendingSeqNo) (by rw [heq]; rfl)
  · rw [heq]
    refine ⟨fun t l ht => ?_, fun f hf => ?_⟩
    · cases ht
      refine ⟨⟨fun _ => ?_, rfl, rfl, rfl, ⟨rfl, List.Perm.refl _⟩,
        fun p hp => absurd hp List.not_mem_nil,
        Or.inr ⟨rfl, hacc, hopen, hbl, now, stack, rfl⟩⟩,
        fun ad d' hmem => ?_⟩
      · rw [List.append_nil]
        exact Window.sent h hacc hacc'
      · have hmem' := List.mem_singleton.mp (mem_sends.mp hmem)
        cases hmem'
        exact Or.inl ⟨_, Nat.le_add_left 1 _, Nat.le_refl _, hd⟩
    · cases hf
  · rw [heq]
    refine ⟨fun t l ht => ?_, fun f hf => ?_⟩
    · cases ht
      exact ⟨hstay s.lastHbTime, fun ad d hmem => by cases hmem⟩
    · cases hf

/-! ### Feedback -/

theorem handleCanRecv_dgram (strict : Bool) (hidle : Idle s.pMem) (fresh : ℕ → UInt8)
    (src : SockAddr) {d : List UInt8} (hd : d ≠ []) (hfit : d.length ≤ maxMemSize) (now : ℕ)
    (sent : ℕ → Bool) :
    ∃ b, Received b d ∧ sendepHandleCanRecv strict s fresh (.dgram src d) now sent =
      sendepHandlePkg strict { s with pMem := some b } b now sent := by
  obtain ⟨b, h, ho, hl⟩ := takeMem_of_idle hidle fresh
  obtain ⟨c, hc, hco, hcl, hcd⟩ := udpRecv_dgram ho hl src hd hfit
  refine ⟨c, ⟨hco, hcl, hcd⟩, ?_⟩
  unfold sendepHandleCanRecv
  rw [h, Eff.pure_bind, hc, Eff.pure_bind]
  rfl

theorem handlePkg_nak {b : CMemBlock} {d : List UInt8} {lo hi id : ℕ} (hb : Received b d)
    (hd : IsNak lo hi id d) (now : ℕ) (sent : ℕ → Bool) :
    sendepHandlePkg strict s b now sent = sendepHandleNak strict s (b.decHeadData 8) now sent := by
  have hlen := hd.len
  have hop : b.get8 3 = epNak := (hb.get8_opcode (by omega)).trans hd.op
  have hreq : ¬ (epNak ≠ epAck ∧ epNak ≠ epNak) := by simp
  simp only [sendepHandlePkg, hop, Eff.require_pos hreq, Eff.pure_bind, if_true]

theorem handlePkg_ack {b : CMemBlock} {d : List UInt8} {seq id : ℕ} (hb : Received b d)
    (hd : IsAck seq id d) (now : ℕ) (sent : ℕ → Bool) :
    sendepHandlePkg strict s b now sent = sendepHandleAck strict s (b.decHeadData 8) now := by
  have hlen := hd.len
  have hop : b.get8 3 = epAck := (hb.get8_opcode (by omega)).trans hd.op
  have hreq : ¬ (epAck ≠ epAck ∧ epAck ≠ epNak) := by simp
  have hne : ¬ epAck = epNak := by decide
  simp only [sendepHandlePkg, hop, Eff.require_pos hreq, Eff.pure_bind, if_neg hne]

/-- A call of `handle_can_recv` on a datagram ends as the handler of the packet does. -/
theorem exec_dgram (strict : Bool) (hidle : Idle s.pMem) {d : List UInt8} (hd : d ≠ [])
    (hfit : d.length ≤ maxMemSize) (src : SockAddr) (now : ℕ) (fresh : ℕ → UInt8)
    (sent : ℕ → Bool) :
    ∃ b, Received b d ∧ SendAct.exec strict s (.input (.dgram src d) now fresh sent) =
      (sendepHandlePkg strict { s with pMem := some b } b now sent >>= fun x =>
        pure (x.2, [])) := by
  obtain ⟨b, hb, heq⟩ := handleCanRecv_dgram strict hidle fresh src hd hfit now sent
  exact ⟨b, hb, by simp only [SendAct.exec, heq]⟩

theorem exec_isNak (strict : Bool) (hidle : Idle s.pMem) {d : List UInt8} {lo hi id : ℕ}
    (hd : IsNak lo hi id d) (src : SockAddr) (now : ℕ) (fresh : ℕ → UInt8) (sent : ℕ → Bool) :
    ∃ b, Received b d ∧ SendAct.exec strict s (.input (.dgram src d) now fresh sent) =
      (sendepHandleNak strict { s with pMem := some b } (b.decHeadData 8) now sent >>= fun x =>
        pure (x.2, [])) := by
  have hlen := hd.len
  have hne : d ≠ [] := fun e => by rw [e] at hlen; cases hlen
  obtain ⟨b, hb, heq⟩ := exec_dgram strict hidle hne (by rw [hlen]; decide) src now fresh sent
  exact ⟨b, hb, by rw [heq, handlePkg_nak hb hd]⟩

theorem exec_isAck (strict : Bool) (hidle : Idle s.pMem) {d : List UInt8} {seq id : ℕ}
    (hd : IsAck seq id d) (src : SockAddr) (now : ℕ) (fresh : ℕ → UInt8) (sent : ℕ → Bool) :
    ∃ b, Received b d ∧ SendAct.exec strict s (.input (.dgram src d) now fresh sent) =
      (sendepHandleAck strict { s with pMem := some b } (b.decHeadData 8) now >>= fun x =>
        pure (x.2, [])) := by
  have hlen := hd.len
  have hne : d ≠ [] := fun e => by rw [e] at hlen; cases hlen
  obtain ⟨b, hb, heq⟩ := exec_dgram strict hidle hne (by rw [hlen]; decide) src now fresh sent
  exact ⟨b, hb, by rw [heq, handlePkg_ack hb hd]⟩

/-- A NAK that begins at 1 or above ends the process, or is discarded, or is answered with the
packets it asks for. -/
theorem exec_nak (strict : Bool) (h : Window accepted s) {d : List UInt8} {lo hi id : ℕ}
    (hd : IsNak lo hi id d) (h1 : 1 ≤ lo) (src : SockAddr) (now : ℕ) (fresh : ℕ → UInt8)
    (sent : ℕ → Bool) :
    (lo < s.validSendingDataHead ∨ s.validSendingDataTail ≤ hi) ∧
        SendAct.exec strict s (.input (.dgram src d) now fresh sent) =
          Eff.abort .sendepHandleNak ∨
      ∃ t, (SendAct.exec strict s (.input (.dgram src d) now fresh sent)).res = .ok (t, []) ∧
        Moved accepted s (.input (.dgram src d) now fresh sent) t [] ∧
        t.sendingSeqNo = s.sendingSeqNo ∧
        ((lo < s.validSendingDataHead ∨ s.validSendingDataTail ≤ hi) ∧
            (SendAct.exec strict s (.input (.dgram src d) now fresh sent)).evs = [] ∨
          hi ≤ accepted.length ∧ Packets accepted s ((List.range' lo (hi + 1 - lo)).takeWhile sent)
            (SendAct.exec strict s (.input (.dgram src d) now fresh sent)).evs) := by
  obtain ⟨b, hb, heq⟩ := exec_isNak strict h.idle hd src now fresh sent
  rw [heq]
  rcases nak_cases h.slots strict hb hd (Or.inl h1) now sent (some b) with
    ⟨hout, -, hab⟩ | ⟨ret, t, hres, hst, hh, hm, -, hevs⟩
  · exact Or.inl ⟨hout, by rw [hab, Eff.abort_bind]⟩
  · right
    rw [Eff.bind_of_ok hres, Eff.pure_evs, List.append_nil]
    refine ⟨t, rfl, Moved.of_after h hst (Nat.le_of_eq hh.symm) (Or.inl hh) ?_
      (Or.inl ⟨hh, id, Or.inl ⟨⟨lo, hi, hd⟩, hm⟩⟩), hst.sendingSeqNo, hevs⟩
    rw [hm]
    exact credited_nakTable (P := fun _ n => n ≤ s.sendingSeqNo) (below_table h.recved id)
      (Nat.zero_le _) now

theorem report_nak (h : Window accepted s) {d : List UInt8} {lo hi id : ℕ} (hd : IsNak lo hi id d)
    (h1 : 1 ≤ lo) (hM : hi ≤ s.sendingSeqNo) (src : SockAddr) (now : ℕ)
    (fresh : ℕ → UInt8)
    (sent : ℕ → Bool) : Report accepted s (.input (.dgram src d) now fresh sent)
      (SendAct.exec strict s (.input (.dgram src d) now fresh sent)) := by
  rcases exec_nak strict h hd h1 src now fresh sent with
    ⟨-, hab⟩ | ⟨t, hres, hmv, hsend, hevs⟩
  · exact report_abort hab
  · refine ⟨fun u l hu => ?_, fun f hf => ?_⟩
    · rw [hres] at hu
      cases hu
      refine ⟨hmv, fun ad d' hmem => ?_⟩
      rcases hevs with ⟨-, hnil⟩ | ⟨-, hpk⟩
      · rw [hnil] at hmem
        cases hmem
      · obtain ⟨r, d'', hev, hr1, hr2, hd'⟩ := hpk.resent _ (mem_sends.mp hmem)
        cases hev
        exact Or.inl ⟨r, by omega, by omega, hd'⟩
    · rw [hres] at hf
      cases hf

theorem report_ack (h : Window accepted s) {d : List UInt8} {seq id : ℕ} (hd : IsAck seq id d)
    (hM : seq ≤ s.sendingSeqNo) (src : SockAddr) (now : ℕ) (fresh : ℕ → UInt8) (sent : ℕ → Bool) :
    Report accepted s (.input (.dgram src d) now fresh sent)
      (SendAct.exec strict s (.input (.dgram src d) now fresh sent)) := by
  obtain ⟨b, hb, heq⟩ := exec_isAck strict h.idle hd src now fresh sent
  rw [heq]
  rcases ack_cases (s := s) strict hb hd now (some b) with
    ⟨-, ⟨-, hab⟩ | ⟨-, t, hres, hst, hh, hm⟩⟩ | ⟨hle, t, hres, hacked⟩
  · exact report_abort (by rw [hab, Eff.abort_bind])
  · rw [hres]
    refine ⟨fun u l hu => ?_, fun f hf => ?_⟩
    · cases hu
      refine ⟨Moved.of_after h hst (Nat.le_of_eq hh.symm) (Or.inl hh) ?_
        (Or.inl ⟨hh, id, Or.inr ⟨⟨seq, hd⟩, hm⟩⟩), fun ad d' hmem => by cases hmem⟩
      rw [hm]; exact credited_touch (P := fun _ n => n ≤ s.sendingSeqNo)
        (below_table h.recved id) (Nat.zero_le _) now
    · cases hf
  · rw [hres]
    refine ⟨fun u l hu => ?_, fun f hf => ?_⟩
    · cases hu
      obtain ⟨g1, g2⟩ := hacked.head_le h.recved hM h.sending_lt
      refine ⟨Moved.of_after h hacked.after g1 g2 ?_ (Or.inr ⟨seq, id, hd, hle, hacked⟩),
        fun ad d' hmem => by cases hmem⟩
      rw [hacked.table]
      exact fun e he => below_ackTable (below_table h.recved id) hM id now e
        (List.mem_of_mem_filter he)
    · cases hf

theorem report_noDgram (h : Window accepted s) {r : Recvfrom}
    (hr : ∀ src d, r ≠ .dgram src d) (now : ℕ) (fresh : ℕ → UInt8) (sent : ℕ → Bool) :
    Report accepted s (.input r now fresh sent)
      (SendAct.exec strict s (.input r now fresh sent)) := by
  obtain ⟨b, hb, ho, hl⟩ := takeMem_of_idle h.idle fresh
  have hstay : Moved accepted s (.input r now fresh sent) { s with pMem := some b } [] := by
    refine Moved.of_after (t := { s with pMem := some b }) h
      ⟨⟨rfl, rfl, rfl, rfl, rfl⟩, rfl, fun c hc => by cases hc; exact ⟨hl, ho⟩⟩ (Nat.le_refl _)
        (Or.inl rfl)
      h.recved ?_
    rcases r with ⟨src, d⟩ | _ | _ | _
    · exact absurd rfl (hr src d)
    all_goals exact ⟨rfl, List.Perm.refl _⟩
  rcases udpRecv_noDgram b hr with hf | ⟨ret, h1, -, h3⟩
  · refine report_abort (f := .udpRecv) ?_
    simp only [SendAct.exec, sendepHandleCanRecv, hb, hf, Eff.pure_bind, Eff.abort_bind]
  · have hexec : SendAct.exec strict s (.input r now fresh sent) =
      pure ({ s with pMem := some b }, []) := by
      simp only [SendAct.exec, sendepHandleCanRecv, hb, h3, Eff.pure_bind, ne_eq, h1,
        not_false_eq_true, if_true]
    rw [hexec]
    refine ⟨fun u l hu => ?_, fun f hf => ?_⟩
    · cases hu
      exact ⟨hstay, fun ad d hmem => by cases hmem⟩
    · cases hf

/-- **What a call does**, with honest feedback for packets that were sent. -/
theorem exec_report (strict : Bool) {a : SendAct} (h : Window accepted s)
    (hfeed : Feed s.sendingSeqNo a) :
    Report accepted s a (a.exec strict s) := by
  rcases a with b | ⟨now, stack, io⟩ | ⟨r, now, fresh, sent⟩ | ⟨m, place⟩
  · exact report_send h b
  · exact report_canSend h now stack io
  · rcases r with ⟨src, d⟩ | _ | _ | _
    · rcases hfeed with ⟨seq, id, hd, -, hM⟩ | ⟨lo, hi, id, hd, h1, -, hM⟩
      · exact report_ack h hd hM src now fresh sent
      · exact report_nak h hd h1 hM src now fresh sent
    all_goals exact report_noDgram h (fun src d hr => by cases hr) now fresh sent
  · refine ⟨fun t l ht => ?_, fun f hf => ?_⟩
    · cases ht
      refine ⟨?_, fun ad d hmem => by cases hmem⟩
      by_cases hp : m.Perm s.mapRecvers
      · rw [if_pos hp]
        exact Moved.of_after (t := { s with mapRecvers := m, place := place }) h
          ⟨⟨rfl, rfl, rfl, rfl, rfl⟩, rfl, h.idle⟩
          (Nat.le_refl _) (Or.inl rfl) (fun e he => h.recved e (hp.subset he)) ⟨rfl, hp⟩
      · rw [if_neg hp]
        exact Moved.of_after (t := s) h ⟨⟨rfl, rfl, rfl, rfl, rfl⟩, rfl, h.idle⟩ (Nat.le_refl _)
          (Or.inl rfl)
          h.recved ⟨rfl, List.Perm.refl _⟩
    · cases hf

/-- **A step of a sender**: it is dead already, or it dies, or it moves. -/
theorem step_cases (strict : Bool) {p : Sender} {a : SendAct} (h : Window p.accepted p.sock)
    (hfeed : Feed p.sock.sendingSeqNo a) :
    p.fault ≠ none ∧ step strict p a = p ∧ out strict p a = [] ∨
      (p.fault = none ∧ ∃ f, (a.exec strict p.sock).res = .error f ∧
        step strict p a = { p with fault := some f } ∧ out strict p a = []) ∨
      p.fault = none ∧ ∃ t l, (a.exec strict p.sock).res = .ok (t, l) ∧
        step strict p a = ⟨t, none, p.accepted ++ l⟩ ∧ Moved p.accepted p.sock a t l ∧
        ∀ d ∈ out strict p a, Packet p.accepted p.sock.senderId t.sendingSeqNo d := by
  rcases hf : p.fault with _ | f
  · have hrep := exec_report strict h hfeed
    unfold step out
    simp only [hf, Option.isSome_none, Bool.false_eq_true, if_false]
    rcases hres : (a.exec strict p.sock).res with f | ⟨t, l⟩
    · refine Or.inr (Or.inl ⟨trivial, f, rfl, rfl, ?_⟩)
      rw [hrep.err f hres]; rfl
    · obtain ⟨hmv, hsends⟩ := hrep.ok t l hres
      refine Or.inr (Or.inr ⟨trivial, t, l, rfl, rfl, hmv, fun d hd => ?_⟩)
      obtain ⟨⟨ad, d'⟩, hmem, rfl⟩ := List.mem_map.mp hd
      exact hsends ad d' hmem
  · refine Or.inl ⟨Option.some_ne_none f, ?_, ?_⟩
    · simp only [step, hf, Option.isSome_some, if_true]
    · simp only [out, hf, Option.isSome_some, if_true]

theorem accepted_step (p : Sender) (a : SendAct) : p.accepted <+: (step strict p a).accepted := by
  unfold step
  split_ifs
  · exact List.prefix_refl _
  · split
    · exact List.prefix_append _ _
    · exact List.prefix_refl _

theorem step_of_ok {p : Sender} {a : SendAct} {t : SendSock} {l : List (List UInt8)}
    (h : p.fault = none) (hres : (a.exec strict p.sock).res = .ok (t, l)) :
    step strict p a = ⟨t, none, p.accepted ++ l⟩ := by
  simp only [step, h, hres, Option.isSome_none, Bool.false_eq_true, if_false]

theorem step_of_error {p : Sender} {a : SendAct} {f : Fault} (h : p.fault = none)
    (hres : (a.exec strict p.sock).res = .error f) :
    step strict p a = { p with fault := some f } := by
  simp only [step, h, hres, Option.isSome_none, Bool.false_eq_true, if_false]

theorem step_dead {p : Sender} (h : p.fault ≠ none) (a : SendAct) : step strict p a = p := by
  unfold step
  rw [if_pos (Option.isSome_iff_ne_none.mpr h)]

theorem exec_send_room (strict : Bool) {b : Payload} (h : Window accepted s)
    (ho : b.mem.offset = 16) (hlt : accepted.length + 2 < 2 ^ 64)
    (hroom : accepted.length + 2 < s.validSendingDataHead + sendWinSize) :
    ∃ t, SendAct.exec strict s (.send b) = pure (t, [b.mem.data]) ∧
      t.sendingSeqNo = s.sendingSeqNo ∧
      t.validSendingDataHead = s.validSendingDataHead := by
  have htail := h.tail_eq (by omega)
  have hle := h.sending_le
  have hhead := h.head_le
  rcases send_cases (s := s) ho b.fits with ⟨c, -, hfull⟩ | ⟨heq, -⟩
  · rw [htail, u64_of_lt (by omega)] at hfull
    have hne :=
      Ring.mod_inj (a := s.validSendingDataHead) (by omega) (by omega) (Nat.le_refl _)
        (by omega) hfull
    omega
  · simp only [SendAct.exec, heq, Eff.pure_bind, if_true]
    exact ⟨_, rfl, rfl, rfl⟩

theorem exec_canSend_open (strict : Bool) (h : Window accepted s)
    (hle : s.sendingSeqNo + 1 ≤ accepted.length) (hlt : accepted.length < 2 ^ 64 - 1)
    (hopen : s.sendingSeqNo + 1 ≤ s.validSendingDataHead + sendWinSize / 10) (now : ℕ)
    (stack : ℕ → UInt8) :
    ∃ d, IsOdata s.senderId (s.sendingSeqNo + 1) (payOf accepted (s.sendingSeqNo + 1)) d ∧
      SendAct.exec strict s (.canSend now stack .sent) =
        ⟨[.sendto s.addrMulticast d], .ok ({ s with sendingSeqNo := s.sendingSeqNo + 1 }, [])⟩ := by
  have htail := h.tail_eq hlt
  have hhead := h.head_le
  rcases canSend_cases h.slots now stack .sent with
    ⟨hbl, -⟩ | ⟨-, ⟨-, hmax⟩ | ⟨-, -, -, d, hd, ⟨-, heq⟩ | ⟨hio, -⟩⟩⟩
  · unfold Blocked at hbl
    rw [u64_of_lt (by omega), sub64_of_le (by omega) hhead, htail] at hbl
    omega
  · omega
  · exact ⟨d, hd, by simp only [SendAct.exec, heq]; rfl⟩
  · exact absurd rfl hio

theorem Takes.credited {P : ℕ → ℕ → Prop} {a : SendAct} (h : Takes s t a) (h0 : ∀ id, P id 0)
    (hm : Credited P s.mapRecvers)
    (hack : ∀ src d now fresh sent, a = .input (.dgram src d) now fresh sent →
      ∀ seq id, IsAck seq id d → P id seq) : Credited P t.mapRecvers := by
  rcases a with b | ⟨now, stack, io⟩ | ⟨⟨src, d⟩ | _ | _ | _, now, fresh, sent⟩ | ⟨m, place⟩
  case input.dgram =>
    rcases h with ⟨-, id, ⟨-, h⟩ | ⟨-, h⟩⟩ | ⟨seq, id, hd, -, h⟩
    · rw [h]
      exact credited_nakTable (credited_table hm (h0 id)) (h0 id) now
    · rw [h]
      exact credited_touch (credited_table hm (h0 id)) (h0 id) now
    · rw [h.table]
      have hs := hack src d now fresh sent rfl seq id hd
      exact fun e he => credited_ackTable (credited_table hm (h0 id)) (h0 id) hs now e
        (List.mem_of_mem_filter he)
  all_goals exact fun e he => hm e (h.2.subset he)

theorem Takes.head_le {B : ℕ} {a : SendAct} (h : Takes s t a) (hm : Below B s.mapRecvers)
    (hB : B < 2 ^ 64 - 1)
    (hack : ∀ src d now fresh sent, a = .input (.dgram src d) now fresh sent →
      ∀ seq id, IsAck seq id d → seq ≤ B) (hh : s.validSendingDataHead ≤ B + 1) :
    t.validSendingDataHead ≤ B + 1 := by
  rcases a with b | ⟨now, stack, io⟩ | ⟨⟨src, d⟩ | _ | _ | _, now, fresh, sent⟩ | ⟨m, place⟩
  case input.dgram =>
    rcases h with ⟨h, -⟩ | ⟨seq, id, hd, -, h⟩
    · omega
    · have := (h.head_le hm (hack src d now fresh sent rfl seq id hd) hB).2
      omega
  all_goals
    have := h.1
    omega

/-! ### The asserts -/

/-- The asserts of `sendep_handle_pkg`, `sendep_handle_nak`, `sendep_handle_ack` and
`handle_can_send`, and the use of a packet that is not there. -/
def SenderAssert (f : Fault) : Prop :=
  f = .sendepHandlePkg ∨ f = .sendepHandleNak ∨ f = .sendepHandleAck ∨ f = .sendHb ∨
    f = .sendingSeqNo ∨
    f = .nullDeref

/-- The call is one that the asserts allow: an ack or NAK begins at the head or above, and a
heartbeat that is due is sent. -/
def Handled (s : SendSock) : SendAct → Prop
  | .input (.dgram _ d) _ _ _ => s.validSendingDataHead ≤ word 0 d
  | .canSend now _ io => Blocked s → HbTime s now → io = .sent
  | _ => True

/-- The call ends the process with one of these asserts. -/
def Asserts (x : Eff Ev Fault (SendSock × List (List UInt8))) : Prop :=
  ∃ f, x.res = .error f ∧ SenderAssert f

variable {x : Eff Ev Fault (SendSock × List (List UInt8))}

theorem not_asserts {v : SendSock × List (List UInt8)} (h : x.res = .ok v) : ¬ Asserts x := by
  rintro ⟨f, hf, -⟩
  rw [h] at hf
  cases hf

theorem asserts_abort {f : Fault} (h : x = Eff.abort f) : Asserts x ↔ SenderAssert f := by
  subst h
  refine ⟨?_, fun hf => ⟨f, rfl, hf⟩⟩
  rintro ⟨g, hg, hs⟩
  cases hg
  exact hs

theorem asserts_canSend (h : Window accepted s) (hlt : accepted.length < 2 ^ 64 - 1) (now : ℕ)
    (stack : ℕ → UInt8) (io : Sendto) :
    Asserts (SendAct.exec strict s (.canSend now stack io)) ↔
      ¬ Handled s (.canSend now stack io) := by
  show _ ↔ ¬ (Blocked s → HbTime s now → io = .sent)
  simp only [SendAct.exec]
  rcases canSend_cases h.slots now stack io with
    ⟨hbl, heq⟩ | ⟨hbl, ⟨-, hmax⟩ | ⟨-, -, -, d, -, ⟨-, heq⟩ | ⟨-, ret, heq⟩⟩⟩
  · rw [heq]
    rcases hb_cases s now stack io with ⟨hdue, hio, hx⟩ | ⟨hio, y, hx, -⟩
    · rw [asserts_abort (f := .sendHb) (by rw [hx]; rfl)]
      exact iff_of_true (by simp [SenderAssert]) fun hall => hio (hall hbl hdue)
    · have hres := Eff.bind_of_ok (f := fun s => (pure (some Cmnerr.suc, s) : Eff Ev Fault _)) hx
      rw [hres]
      exact iff_of_false (not_asserts rfl) fun hall => hall fun _ => hio
  · omega
  · rw [heq]
    exact iff_of_false (not_asserts rfl) fun hall => hall fun hbl' => absurd hbl' hbl
  · rw [heq]
    exact iff_of_false (not_asserts rfl) fun hall => hall fun hbl' => absurd hbl' hbl

theorem asserts_dgram (h : Window accepted s) (hlt : accepted.length < 2 ^ 64 - 1) {d : List UInt8}
    (src : SockAddr) (now : ℕ) (fresh : ℕ → UInt8) (sent : ℕ → Bool)
    (hfeed : Feed s.sendingSeqNo (.input (.dgram src d) now fresh sent)) :
    Asserts (SendAct.exec true s (.input (.dgram src d) now fresh sent)) ↔
      ¬ Handled s (.input (.dgram src d) now fresh sent) := by
  have htail := h.tail_eq hlt
  have hle := h.sending_le
  show _ ↔ ¬ s.validSendingDataHead ≤ word 0 d
  rcases hfeed with ⟨seq, id, hd, -, hM⟩ | ⟨lo, hi, id, hd, h1, h2, hM⟩
  · obtain ⟨b, hb, heq⟩ := exec_isAck true h.idle hd src now fresh sent
    rw [heq, hd.seq]
    rcases ack_cases (s := s) true hb hd now (some b) with
      ⟨hlow, ⟨-, hab⟩ | ⟨he, -⟩⟩ | ⟨hle, t, hres, -⟩
    · rw [asserts_abort (f := .sendepHandleAck) (by rw [hab, Eff.abort_bind])]
      exact iff_of_true (by simp [SenderAssert]) (Nat.not_le.mpr hlow)
    · cases he
    · rw [hres]
      exact iff_of_false (not_asserts rfl) fun hn => hn hle
  · obtain ⟨b, hb, heq⟩ := exec_isNak true h.idle hd src now fresh sent
    rw [heq, hd.first]
    rcases nak_cases h.slots true hb hd (Or.inl h1) now sent (some b) with
      ⟨hout, -, hab⟩ | ⟨ret, t, hres, -, -, -, hin, -⟩
    · rw [asserts_abort (f := .sendepHandleNak) (by rw [hab, Eff.abort_bind])]
      exact iff_of_true (by simp [SenderAssert]) (by omega)
    · rw [Eff.bind_of_ok hres]
      exact iff_of_false (not_asserts rfl) fun hn => hn (hin rfl).1

/-- **When a call ends the process**: exactly if it is not one that the asserts allow. -/
theorem asserts_iff {a : SendAct} (h : Window accepted s) (hlt : accepted.length < 2 ^ 64 - 1)
    (hfeed : Feed s.sendingSeqNo a) : Asserts (a.exec true s) ↔ ¬ Handled s a := by
  have hno : ∀ {f : Fault}, f = .sendOffset ∨ f = .udpRecv → ¬ SenderAssert f := by
    rintro f (rfl | rfl)
    · simp [SenderAssert]
    · simp [SenderAssert]
  rcases a with b | ⟨now, stack, io⟩ | ⟨r, now, fresh, sent⟩ | ⟨m, place⟩
  · refine iff_of_false ?_ (not_not_intro trivial)
    by_cases ho : b.mem.offset = 16
    · rcases send_cases (s := s) ho b.fits with ⟨c, heq, -⟩ | ⟨heq, -⟩
      · exact not_asserts (by simp only [SendAct.exec, heq, Eff.pure_bind]; rfl)
      · exact not_asserts (by simp only [SendAct.exec, heq, Eff.pure_bind]; rfl)
    · rw [asserts_abort (f := .sendOffset)
        (by simp only [SendAct.exec, send_offset ho, Eff.abort_bind])]
      exact hno (Or.inl rfl)
  · exact asserts_canSend h hlt now stack io
  · by_cases hr : ∀ src d, r ≠ .dgram src d
    · obtain ⟨b, hb, -, -⟩ := takeMem_of_idle h.idle fresh
      have hH : Handled s (.input r now fresh sent) := by
        rcases r with ⟨src, d⟩ | _ | _ | _
        · exact absurd rfl (hr src d)
        all_goals trivial
      refine iff_of_false ?_ (not_not_intro hH)
      rcases udpRecv_noDgram b hr with hf | ⟨ret, h1, -, h3⟩
      · rw [asserts_abort (f := .udpRecv)
          (by simp only [SendAct.exec, sendepHandleCanRecv, hb, hf, Eff.pure_bind, Eff.abort_bind])]
        exact hno (Or.inr rfl)
      · refine not_asserts (v := ({ s with pMem := some b }, [])) ?_
        simp only [SendAct.exec, sendepHandleCanRecv, hb, h3, Eff.pure_bind, ne_eq, h1,
          not_false_eq_true, if_true,
          Eff.pure_res]
    · simp only [not_forall, not_not] at hr
      obtain ⟨src, d, rfl⟩ := hr
      exact asserts_dgram h hlt src now fresh sent hfeed
  · exact iff_of_false (not_asserts rfl) (not_not_intro trivial)

end SmartNet.Network.Rmp.SendRun

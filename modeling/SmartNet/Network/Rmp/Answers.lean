import SmartNet.Network.Rmp.OneRecver
import SmartNet.Network.Rmp.Timers

/-! # What the parties answer

One call on a sender or a receiver, when the kernel takes what the call sends.

* `input_next`, `input_hb`, `timer_ack`: a receiver takes the next packet, asks for what a heartbeat
  says is missing, and repeats its ack;
* `canSend_hb`, `feed_nak`: a sender says what it has sent, and sends it again;
* `Stamp`, `SendStamp`: what the calls do to the times that are stored. -/

namespace SmartNet.Network.Rmp.Answers

open SmartNet.Common SmartNet.Lib SmartNet.Lib.Frontier SmartNet.Memory.MemBlock
open SmartNet.Network.Udp SmartNet.Network.Rmp.Wire SmartNet.Network.Rmp.Recvep
open SmartNet.Network.Rmp.ControlPkgs SmartNet.Network.Rmp.Reorder SmartNet.Network.Rmp.RecvRun
open SmartNet.Network.Rmp.Feedback SmartNet.Network.Rmp.Delivery SmartNet.Network.Rmp.Sendep
open SmartNet.Network.Rmp.SendWin SmartNet.Network.Rmp.SendCalls SmartNet.Network.Rmp.SendRun
open SmartNet.Network.Rmp.Timers
open SmartNet.Network.Rmp.AppAcks (AckDue)

section receiver

variable {s t : RecvSock} {now : ℕ} {stack fresh : ℕ → UInt8} {io ioAck ioNak : Sendto}
  {sid : UInt8} {d : List UInt8} {src : SockAddr} {pay : ℕ → List UInt8} {K : ℕ} {seen : Set ℕ}

/-! ### The time of the last ack -/

/-- `m_ui64LastSendAckTime` is set by the timer only. -/
def Stamp (s t : RecvSock) : RecvAct → Prop
  | .timer now _ _ _ => t.lastSendAckTime = now ∨
      t.lastSendAckTime = s.lastSendAckTime ∧ s.lastSendAckTime ≠ 0
  | _ => t.lastSendAckTime = s.lastSendAckTime

theorem setAck_stamp {flag : Bool} (h : (setAck s flag stack io).res = .ok t) :
    t.lastSendAckTime = s.lastSendAckTime := by
  unfold setAck at h
  by_cases hc : 0 < s.latestRecvedValidSeqNo ∧
      (flag ∨ s.sendAckCnt ≤ sub64 s.latestRecvedValidSeqNo s.appConfirmAckTmp)
  · rw [if_pos hc] at h
    obtain ⟨ret, -, h2⟩ := Eff.bind_res_ok h
    obtain ⟨-, -, h3⟩ := Eff.bind_res_ok h2
    cases h3
    cases flag
    · rfl
    · rfl
  · rw [if_neg hc] at h
    cases h
    rfl

theorem getNext_stamp {x : Cmnerr × Option CMemBlock × RecvSock}
    (h : (getNextRecvedData s stack io).res = .ok x) :
    x.2.2.lastSendAckTime = s.lastSendAckTime := by
  unfold getNextRecvedData at h
  split at h
  · cases h
    rfl
  · by_cases hv : 0 < s.validPkgBegin ∧ s.validPkgBegin ≤ s.validPkgEnd
    · rw [if_pos hv] at h
      cases h
      rfl
    · rw [if_neg hv] at h
      obtain ⟨u, hu, h2⟩ := Eff.bind_res_ok h
      cases h2
      have hstep := setAck_stamp hu
      exact hstep

theorem drain_stamp : ∀ {fuel : ℕ} {s : RecvSock}, (drain stack io fuel s).res = .ok t →
    t.lastSendAckTime = s.lastSendAckTime
  | 0, s, h => by cases h; rfl
  | fuel + 1, s, h => by
    obtain ⟨⟨ret, p, u⟩, hu, h2⟩ := Eff.bind_res_ok h
    have hstep : u.lastSendAckTime = s.lastSendAckTime := getNext_stamp hu
    by_cases hr : ret = .suc
    · simp only [if_pos hr] at h2
      obtain ⟨-, -, h3⟩ := Eff.bind_res_ok h2
      exact (drain_stamp h3).trans hstep
    · simp only [if_neg hr] at h2
      cases h2
      exact hstep

theorem activate_stamp (s : RecvSock) : (activate s).lastSendAckTime = s.lastSendAckTime := by
  simp only [activate]
  split_ifs
  · rfl
  · rfl

theorem widen_stamp {q : ℕ} (h : (widen s q).res = .ok t) :
    t.lastSendAckTime = s.lastSendAckTime := by
  unfold widen at h
  split_ifs at h
  · cases h; rfl
  · cases h; rfl
  · cases h
  · cases h; rfl
  · cases h; rfl

theorem odata_stamp {b : CMemBlock} {x : Cmnerr × RecvSock}
    (h : (recvepHandleOdata s b).res = .ok x) : x.2.lastSendAckTime = s.lastSendAckTime := by
  unfold recvepHandleOdata at h
  dsimp only at h
  split_ifs at h
  · cases h
    exact activate_stamp _
  · cases h
    rfl
  · cases h
    rfl
  · obtain ⟨u, hu, h2⟩ := Eff.bind_res_ok h
    obtain ⟨-, -, h3⟩ := Eff.bind_res_ok h2
    cases h3
    have hstep := widen_stamp hu
    exact hstep

theorem handleHb_stamp {b : CMemBlock} {x : Cmnerr × RecvSock}
    (h : (recvepHandleHb s b stack io).res = .ok x) :
    x.2.lastSendAckTime = s.lastSendAckTime := by
  obtain ⟨ret, -, hres, -⟩ := handleHb_eq (s := s) b stack io
  rw [hres] at h
  cases h
  rfl

theorem handleCanRecv_stamp {r : Recvfrom} {x : Cmnerr × RecvSock}
    (h : (recvepHandleCanRecv s fresh stack r io).res = .ok x) :
    x.2.lastSendAckTime = s.lastSendAckTime := by
  rcases handleCanRecv_cases s fresh stack r with ⟨-, ⟨f, heq⟩ | ⟨ret, b, -, -, -, heq⟩⟩ |
    ⟨c, src, -, -, -, -, -, ⟨-, heq⟩ | ⟨-, heq⟩⟩
  · rw [heq] at h
    cases h
  · rw [heq] at h
    cases h
    rfl
  · rw [heq] at h
    have hstep := odata_stamp h
    exact hstep
  · rw [heq] at h
    have hstep := handleHb_stamp h
    exact hstep

theorem timerAck_stamp (h : (timerAck s now stack io).res = .ok t) :
    t.lastSendAckTime = now ∨ t.lastSendAckTime = s.lastSendAckTime ∧ s.lastSendAckTime ≠ 0 := by
  unfold timerAck at h
  by_cases h0 : s.lastSendAckTime = 0
  · simp only [if_pos h0] at h
    split_ifs at h
    · have hstep := setAck_stamp h
      exact Or.inl hstep
    · cases h
      exact Or.inl rfl
  · simp only [if_neg h0] at h
    split_ifs at h
    · have hstep := setAck_stamp h
      exact Or.inl hstep
    · cases h
      exact Or.inr ⟨rfl, h0⟩

theorem timerNak_stamp (h : (timerNak s now stack io).res = .ok t) :
    t.lastSendAckTime = s.lastSendAckTime := by
  unfold timerNak at h
  by_cases h0 : s.lastSendNakTime = 0
  · simp only [if_pos h0] at h
    split_ifs at h
    · obtain ⟨ret, -, h2⟩ := Eff.bind_res_ok h
      obtain ⟨-, -, h3⟩ := Eff.bind_res_ok h2
      cases h3; rfl
    · cases h; rfl
    · cases h; rfl
  · simp only [if_neg h0] at h
    split_ifs at h
    · obtain ⟨ret, -, h2⟩ := Eff.bind_res_ok h
      obtain ⟨-, -, h3⟩ := Eff.bind_res_ok h2
      cases h3; rfl
    · cases h; rfl
    · cases h; rfl

/-- **The stored time** after a call. -/
theorem recv_stamp (a : RecvAct) (h : (a.exec s).res = .ok t) : Stamp s t a := by
  cases a with
  | input r fresh stack io ioAck =>
    rw [exec_input] at h
    obtain ⟨x, hx, h2⟩ := Eff.bind_res_ok h
    have hstep : x.2.lastSendAckTime = s.lastSendAckTime := handleCanRecv_stamp hx
    by_cases hr : x.1 = .odataReady
    · simp only [if_pos hr] at h2
      exact (drain_stamp h2).trans hstep
    · simp only [if_neg hr] at h2
      cases h2
      exact hstep
  | drain stack io => exact drain_stamp h
  | timer now stack ioAck ioNak =>
    obtain ⟨u, hu, h2⟩ := Eff.bind_res_ok h
    have hnak := timerNak_stamp h2
    unfold Stamp
    rw [hnak]
    exact timerAck_stamp hu

/-! ### What a receiver answers -/

theorem setAck_sent (s : RecvSock) (flag : Bool) (stack : ℕ → UInt8) :
    ∃ t, (setAck s flag stack .sent).res = .ok t := by
  obtain ⟨t, -, ⟨-, h⟩ | ⟨-, h, -⟩⟩ := setAck_cases s flag stack
  · exact ⟨t, by rw [h]; rfl⟩
  · exact ⟨t, by rw [h]⟩

theorem drain_sent (stack : ℕ → UInt8) : ∀ (fuel : ℕ) (s : RecvSock),
    ∃ t, (drain stack .sent fuel s).res = .ok t
  | 0, s => ⟨s, rfl⟩
  | fuel + 1, s => by
    rcases getNext_cases s stack .sent with ⟨p, t, heq, -⟩ | ⟨hmem, hv⟩
    · obtain ⟨u, hu⟩ := drain_sent stack fuel t
      rw [drain_some heq]
      exact ⟨u, hu⟩
    · rw [drain_none hmem hv]
      exact setAck_sent _ _ _

theorem input_next (hidle : Idle s.pMem) (hs : s.senderId = sid)
    (hlt : s.latestRecvedValidSeqNo + 1 < 2 ^ 64) {pl : List UInt8}
    (hd : IsOdata sid (s.latestRecvedValidSeqNo + 1) pl d) (src : SockAddr)
    (fresh stack : ℕ → UInt8) (io : Sendto) :
    ∃ t evs, RecvAct.exec s (.input (.dgram src d) fresh stack io .sent) = ⟨evs, .ok t⟩ := by
  have hlen := hd.len
  have hne : d ≠ [] := fun e => by rw [e] at hlen; cases hlen
  rcases handleCanRecv_dgram s fresh stack io src hne hd.fits with ⟨-, hno⟩ | ⟨b, hb, heq⟩
  · exact absurd hidle hno
  obtain ⟨u, ⟨ad, rfl⟩, hu⟩ := handlePkg_odata (s := { s with pMem := some b }) hb hd hs
    src stack io
  have hnum : (b.decHeadData 8).get64 0 = u64 (1 + s.latestRecvedValidSeqNo) := by
    rw [hb.get64 0 (by omega), hd.seq, u64_of_lt (by omega)]
    omega
  obtain ⟨v, hv⟩ : ∃ v, recvepHandleOdata { s with pMem := some b, addrSender := ad }
      (b.decHeadData 8) = pure (.odataReady, v) := by
    unfold recvepHandleOdata
    simp only [if_pos hnum]
    split_ifs
    · exact ⟨_, rfl⟩
    · exact ⟨_, rfl⟩
  rw [exec_input, heq, hu, hv, Eff.pure_bind]
  simp only [if_true]
  obtain ⟨t, ht⟩ := drain_sent stack (drainFuel v) v
  exact ⟨t, (Recvep.drain stack .sent (drainFuel v) v).evs, by rw [← ht]⟩

theorem input_hb (hidle : Idle s.pMem) (hs : s.senderId = sid) {l o : ℕ} (hd : IsHb sid l o d)
    (hlt : s.latestRecvedValidSeqNo < l) (src : SockAddr) (fresh stack : ℕ → UInt8) :
    ∃ t ad, RecvAct.exec s (.input (.dgram src d) fresh stack .sent .sent) =
        ⟨[.sendto ad (nakBytes stack (u64 (s.latestRecvedValidSeqNo + 1)) l s.epid)], .ok t⟩ ∧
      t.latestRecvedValidSeqNo = s.latestRecvedValidSeqNo := by
  have hlen := hd.len
  have hne : d ≠ [] := fun e => by rw [e] at hlen; cases hlen
  rcases handleCanRecv_dgram s fresh stack .sent src hne (by rw [hlen]; decide) with
    ⟨-, hno⟩ | ⟨b, hb, heq⟩
  · exact absurd hidle hno
  obtain ⟨u, ⟨ad, rfl⟩, hu⟩ := handlePkg_hb (s := { s with pMem := some b }) hb hd hs
    src stack .sent
  have hnum : (b.decHeadData 8).get64 0 = l := (hb.get64 0 (by omega)).trans hd.latest
  refine ⟨{ s with pMem := some (b.decHeadData 8).reset, addrSender := ad }, ad, ?_, rfl⟩
  rw [exec_input, heq, hu]
  unfold recvepHandleHb
  simp only [hnum, if_pos hlt]
  rfl

theorem timer_sent (s : RecvSock) (now : ℕ) (stack : ℕ → UInt8) :
    ∃ t evs, RecvAct.exec s (.timer now stack .sent .sent) = ⟨evs, .ok t⟩ ∧ Same s t ∧
      (AckDue s now → ∃ evs', evs =
        .sendto s.addrSender (ackBytes stack s.latestRecvedValidSeqNo s.epid) :: evs') := by
  obtain ⟨u, hsu, hack⟩ := timerAck_cases s now stack
  obtain ⟨t, hut, hnak⟩ := timerNak_cases u now stack
  have hst : Same s t := hsu.same.trans hut
  obtain ⟨evs, hevs⟩ : ∃ evs, timerNak u now stack .sent = ⟨evs, .ok t⟩ := by
    rcases hnak with ⟨-, h⟩ | ⟨-, h, -⟩
    · exact ⟨[], h .sent⟩
    · exact ⟨_, h⟩
  show ∃ t evs, (timerAck s now stack .sent >>= fun t => timerNak t now stack .sent) = _ ∧ _
  rcases hack with ⟨hno, h⟩ | ⟨-, h, -⟩
  · refine ⟨t, evs, by rw [h, Eff.pure_bind, hevs], hst, fun hdue => absurd hdue hno⟩
  · refine ⟨t, _, ?_, hst, fun _ => ⟨evs, rfl⟩⟩
    rw [h, Eff.bind_of_ok rfl, hevs]
    rfl

theorem ackDue_of_le (h0 : s.lastSendAckTime ≠ 0) (hle : s.lastSendAckTime ≤ now)
    (hpos : 0 < s.latestRecvedValidSeqNo) (hlt : now + (sendAckInterval + 1) < 2 ^ 64) :
    AckDue s (now + (sendAckInterval + 1)) := by
  refine ⟨?_, hpos⟩
  rw [if_neg h0, sub64_of_le hlt (by omega)]
  omega

end receiver

section sender

variable {s t : SendSock} {accepted l : List (List UInt8)} {strict : Bool} {now : ℕ}
  {stack fresh : ℕ → UInt8} {io : Sendto} {sent : ℕ → Bool} {d : List UInt8} {src : SockAddr}

/-! ### The time of the first idle call -/

/-- `m_ui64LastHbTime` is set once, by `handle_can_send`; only `send` accepts a payload. -/
structure SendStamp (s t : SendSock) (l : List (List UInt8)) (a : SendAct) : Prop where
  hbInterval : t.hbInterval = s.hbInterval
  lastHbTime : t.lastHbTime = s.lastHbTime ∨ ∃ now stack io, a = .canSend now stack io ∧
    t.lastHbTime = now
  accepted : (∀ b, a ≠ .send b) → l = []

/-- The heartbeat clock is left alone. -/
def Unstamped (s t : SendSock) : Prop :=
  t.hbInterval = s.hbInterval ∧ t.lastHbTime = s.lastHbTime

theorem nak_stamp {b : CMemBlock} {x : Cmnerr × SendSock}
    (h : (sendepHandleNak strict s b now sent).res = .ok x) : Unstamped s x.2 := by
  obtain ⟨n, v, hcount⟩ := countNak_eq s (b.get64 16) now
  unfold sendepHandleNak at h
  simp only [hcount] at h
  split_ifs at h
  · obtain ⟨-, -, h2⟩ := Eff.bind_res_ok h
    cases h2
    exact ⟨rfl, rfl⟩
  · obtain ⟨ret, -, h2⟩ := Eff.bind_res_ok h
    cases h2
    exact ⟨rfl, rfl⟩

theorem speedControl_stamp (s : SendSock) : Unstamped s (speedControl s) := by
  obtain ⟨v1, v2, v3, v4, hv⟩ := speedControl_eq s
  rw [hv]
  exact ⟨rfl, rfl⟩

theorem ack_stamp {b : CMemBlock} {x : Cmnerr × SendSock}
    (h : (sendepHandleAck strict s b now).res = .ok x) : Unstamped s x.2 := by
  unfold sendepHandleAck at h
  dsimp only at h
  split_ifs at h
  · obtain ⟨-, -, h2⟩ := Eff.bind_res_ok h
    cases h2
    exact ⟨rfl, rfl⟩
  · cases h
    exact ⟨rfl, rfl⟩
  · cases h
    have hspeed := speedControl_stamp { s with
      mapRecvers := (prune now s.maxKeepAliveTimeUs (firstRecved (ackTable (b.get64 0)
        (b.get64 8) now (s.table (b.get64 8)))) (ackTable (b.get64 0) (b.get64 8) now
        (s.table (b.get64 8)))).2
      pMem := some (b.decHeadData 16).reset
      validSendingDataHead := u64 ((prune now s.maxKeepAliveTimeUs (firstRecved (ackTable
        (b.get64 0) (b.get64 8) now (s.table (b.get64 8)))) (ackTable (b.get64 0) (b.get64 8) now
        (s.table (b.get64 8)))).1 + 1) }
    exact hspeed

theorem canRecv_stamp {r : Recvfrom} {x : Cmnerr × SendSock}
    (h : (sendepHandleCanRecv strict s fresh r now sent).res = .ok x) : Unstamped s x.2 := by
  unfold sendepHandleCanRecv at h
  obtain ⟨b, -, h2⟩ := Eff.bind_res_ok h
  obtain ⟨⟨ret, c, src⟩, -, h3⟩ := Eff.bind_res_ok h2
  dsimp only at h3
  split_ifs at h3
  · cases h3
    exact ⟨rfl, rfl⟩
  · unfold sendepHandlePkg at h3
    obtain ⟨-, -, h4⟩ := Eff.bind_res_ok h3
    dsimp only at h4
    split_ifs at h4
    · have hstep := nak_stamp h4
      exact hstep
    · have hstep := ack_stamp h4
      exact hstep

theorem canSend_stamp {x : Option Cmnerr × SendSock}
    (h : (sendepHandleCanSend s now stack io).res = .ok x) :
    x.2.hbInterval = s.hbInterval ∧ (x.2.lastHbTime = s.lastHbTime ∨ x.2.lastHbTime = now) := by
  by_cases hbl : Blocked s
  · rw [canSend_blocked hbl] at h
    obtain ⟨u, hu, h2⟩ := Eff.bind_res_ok h
    cases h2
    have hstep : u = { s with lastHbTime := if s.lastHbTime = 0 then now else s.lastHbTime } := by
      obtain ⟨v, rfl, ⟨-, heq⟩ | ⟨-, -, heq⟩ | ⟨-, -, heq⟩⟩ := sendepHb_eq s now stack io
      · rw [heq] at hu
        cases hu; rfl
      · rw [heq] at hu
        cases hu; rfl
      · rw [heq] at hu
        cases hu
    rw [hstep]
    refine ⟨rfl, ?_⟩
    dsimp only
    split_ifs
    · exact Or.inr rfl
    · exact Or.inl rfl
  · rcases canSend_open hbl now stack with ⟨f, heq⟩ | ⟨i, c, -, hsent, hblock, herr⟩
    · rw [heq] at h
      cases h
    · cases io with
      | sent =>
        rw [hsent] at h
        cases h
        exact ⟨rfl, Or.inl rfl⟩
      | wouldBlock =>
        rw [hblock] at h
        cases h
        exact ⟨rfl, Or.inl rfl⟩
      | err =>
        rw [herr] at h
        cases h
        exact ⟨rfl, Or.inl rfl⟩

/-- **The stored time** after a call. -/
theorem send_stamp (a : SendAct) (h : (a.exec strict s).res = .ok (t, l)) :
    SendStamp s t l a := by
  cases a with
  | send b =>
    refine ⟨?_, Or.inl ?_, fun hno => absurd rfl (hno b)⟩
    all_goals
      by_cases ho : b.mem.offset = 16
      · rcases send_cases (s := s) ho b.fits with ⟨c, heq, -⟩ | ⟨heq, -⟩
        · simp only [SendAct.exec, heq, Eff.pure_bind] at h
          cases h
          rfl
        · simp only [SendAct.exec, heq, Eff.pure_bind] at h
          cases h
          rfl
      · simp only [SendAct.exec, send_offset ho, Eff.abort_bind] at h
        cases h
  | canSend now stack io =>
    obtain ⟨x, hx, h2⟩ := Eff.bind_res_ok h
    obtain ⟨h3, h4⟩ := canSend_stamp hx
    cases h2
    exact ⟨h3, h4.imp_right fun hn => ⟨now, stack, io, rfl, hn⟩, fun _ => rfl⟩
  | input r now fresh sent =>
    obtain ⟨x, hx, h2⟩ := Eff.bind_res_ok h
    obtain ⟨h3, h4⟩ := canRecv_stamp hx
    cases h2
    exact ⟨h3, Or.inl h4, fun _ => rfl⟩
  | rehash m place =>
    cases h
    refine ⟨?_, Or.inl ?_, fun _ => rfl⟩
    · split_ifs
      · rfl
      · rfl
    · split_ifs
      · rfl
      · rfl

/-! ### What a sender answers -/

theorem canSend_hb (strict : Bool) (hbl : Blocked s) (now : ℕ) (stack : ℕ → UInt8) :
    ∃ evs, SendAct.exec strict s (.canSend now stack .sent) =
        ⟨evs, .ok ({ s with lastHbTime := if s.lastHbTime = 0 then now else s.lastHbTime }, [])⟩ ∧
      (HbTime s now → evs = [.sendto s.addrMulticast
        (hbBytes stack s.senderId s.sendingSeqNo s.validSendingDataHead)]) := by
  simp only [SendAct.exec, canSend_blocked hbl]
  obtain ⟨t, rfl, ⟨hno, heq⟩ | ⟨-, -, heq⟩ | ⟨-, hio, -⟩⟩ := sendepHb_eq s now stack .sent
  · rw [heq]
    exact ⟨[], rfl, fun hdue => absurd hdue hno⟩
  · rw [heq]
    exact ⟨_, rfl, fun _ => rfl⟩
  · exact absurd rfl hio

theorem hbTime_of_le (h0 : s.lastHbTime ≠ 0) (hle : s.lastHbTime ≤ now)
    (hlt : now + (s.hbInterval + 1) < 2 ^ 64) : HbTime s (now + (s.hbInterval + 1)) := by
  unfold HbTime
  rw [if_neg h0, sub64_of_le hlt (by omega)]
  omega

theorem feed_nak (strict : Bool) (h : Window accepted s) {lo hi id : ℕ} (hd : IsNak lo hi id d)
    (h1 : 1 ≤ lo)
    (hlo : s.validSendingDataHead ≤ lo) (hle : lo ≤ hi) (hhi : hi ≤ accepted.length)
    (hlt : accepted.length < 2 ^ 64 - 1) (src : SockAddr) (now : ℕ) (fresh : ℕ → UInt8) :
    ∃ t evs d', SendAct.exec strict s (.input (.dgram src d) now fresh fun _ => true) =
        ⟨.sendto s.addrMulticast d' :: evs, .ok (t, [])⟩ ∧
      IsOdata s.senderId lo (payOf accepted lo) d' ∧ t.sendingSeqNo = s.sendingSeqNo ∧
      t.validSendingDataHead = s.validSendingDataHead ∧
      t.validSendingDataTail = s.validSendingDataTail := by
  have htail := h.tail_eq hlt
  obtain ⟨b, hb, heq⟩ := exec_isNak strict h.idle hd src now fresh fun _ => true
  rcases nak_cases h.slots strict hb hd (Or.inl h1) now (fun _ => true) (some b) with
    ⟨hout, -, -⟩ | ⟨ret, t, hres, hafter, hhead, -, -, ⟨hout, -⟩ | ⟨-, hpk⟩⟩
  · omega
  · omega
  · obtain ⟨k, hk⟩ : ∃ k, hi + 1 - lo = k + 1 := ⟨hi - lo, by omega⟩
    rw [hk, List.range'_succ, List.takeWhile_cons_of_pos rfl] at hpk
    obtain ⟨ev, evs, ⟨d', rfl, hd'⟩, -, hevs⟩ := List.forall₂_cons_left_iff.mp hpk
    refine ⟨t, evs, d', ?_, hd', hafter.sendingSeqNo, hhead, hafter.win.tail⟩
    rw [heq, Eff.bind_of_ok hres, hevs]
    simp

end sender

end SmartNet.Network.Rmp.Answers

import SmartNet.Network.Rmp.AppAcks

/-! # What the receiver's timer sends

`handle_can_send` of a receiver repeats the ack when its interval has passed, and asks for the gap
in front of the reorder buffer when the other interval has. Each send is asserted to succeed.

* `setAck_cases`, `timerAck_cases`, `timerNak_cases`: when each of the three sends, and what its
  outcome does. -/

namespace SmartNet.Network.Rmp.Timers

open SmartNet.Common SmartNet.Lib SmartNet.Network.Udp SmartNet.Network.Rmp.Wire
open SmartNet.Network.Rmp.Recvep SmartNet.Network.Rmp.ControlPkgs
open SmartNet.Network.Rmp.AppAcks (AckDue)

/-- `set_ack` acknowledges. -/
def Acks (s : RecvSock) (bFlag : Bool) : Prop :=
  0 < s.latestRecvedValidSeqNo ∧
    (bFlag ∨ s.sendAckCnt ≤ sub64 s.latestRecvedValidSeqNo s.appConfirmAckTmp)

/-- The interval of the timer's NAKs has passed. -/
def NakTime (s : RecvSock) (now : ℕ) : Prop :=
  sendNakInterval < sub64 now (if s.lastSendNakTime = 0 then now else s.lastSendNakTime)

/-- The timer asks for the gap in front of the reorder buffer. -/
def NakDue (s : RecvSock) (now : ℕ) : Prop :=
  NakTime s now ∧ s.latestRecvedValidSeqNo < s.unvalidPkgBegin ∧
    u64 (s.latestRecvedValidSeqNo + 1) ≤ sub64 s.unvalidPkgBegin 1

/-- The same contents, and the same clock of the NAKs. -/
structure SameButAck (s t : RecvSock) : Prop where
  same : Same s t
  lastSendNakTime : t.lastSendNakTime = s.lastSendNakTime

/-- A control packet `d` that must go out if `due`: with every outcome of `sendto`. -/
def Sends (due : Prop) (dest : SockAddr) (d : List UInt8) (f : Fault) (t : RecvSock)
    (x : Sendto → Eff Ev Fault RecvSock) : Prop :=
  (¬ due ∧ ∀ io, x io = pure t) ∨
    (due ∧ x .sent = ⟨[.sendto dest d], .ok t⟩ ∧ ∀ io, io ≠ .sent → x io = Eff.abort f)

variable {s t : RecvSock} {due due' : Prop} {dest : SockAddr} {d : List UInt8} {f : Fault}
  {x : Sendto → Eff Ev Fault RecvSock}

theorem Sends.of_iff (h : Sends due dest d f t x) (hiff : due ↔ due') :
    Sends due' dest d f t x := by
  rwa [propext hiff] at h

theorem sends_none (hdue : ¬ due) (hx : ∀ io, x io = pure t) : Sends due dest d f t x :=
  Or.inl ⟨hdue, hx⟩

theorem sends_one (hdue : due) (hx : ∀ io, x io =
    (udpSend io d dest >>= fun ret => Eff.require (ret = .suc) f >>= fun _ => pure t)) :
    Sends due dest d f t x := by
  refine Or.inr ⟨hdue, by rw [hx]; rfl, fun io hio => ?_⟩
  rw [hx]
  rcases io with _ | _ | _
  · exact absurd rfl hio
  · rfl
  · rfl

/-- **`set_ack`.** -/
theorem setAck_cases (s : RecvSock) (bFlag : Bool) (stack : ℕ → UInt8) : ∃ t, SameButAck s t ∧
    Sends (Acks s bFlag) s.addrSender (ackBytes stack s.latestRecvedValidSeqNo s.epid) .setAck t
      (setAck s bFlag stack) := by
  by_cases h : Acks s bFlag
  · cases bFlag
    · refine ⟨{ s with
        appConfirmAck := s.latestRecvedValidSeqNo
        appConfirmAckTmp := s.latestRecvedValidSeqNo }, ?_, sends_one h fun io => if_pos h⟩
      exact ⟨⟨rfl, rfl, rfl, rfl, rfl, rfl, rfl, rfl, rfl, rfl⟩, rfl⟩
    · refine ⟨{ s with appConfirmAck := s.latestRecvedValidSeqNo }, ?_,
        sends_one h fun io => if_pos h⟩
      exact ⟨⟨rfl, rfl, rfl, rfl, rfl, rfl, rfl, rfl, rfl, rfl⟩, rfl⟩
  · refine ⟨{ s with appConfirmAck := s.latestRecvedValidSeqNo }, ?_,
      sends_none h fun io => if_neg h⟩
    exact ⟨⟨rfl, rfl, rfl, rfl, rfl, rfl, rfl, rfl, rfl, rfl⟩, rfl⟩

/-- **The timer's ack.** -/
theorem timerAck_cases (s : RecvSock) (now : ℕ) (stack : ℕ → UInt8) : ∃ t, SameButAck s t ∧
    Sends (AckDue s now) s.addrSender (ackBytes stack s.latestRecvedValidSeqNo s.epid) .setAck t
      (timerAck s now stack) := by
  set c := if s.lastSendAckTime = 0 then now else s.lastSendAckTime with hc
  have hstate : (if s.lastSendAckTime = 0 then { s with lastSendAckTime := now } else s) =
      { s with lastSendAckTime := c } := by
    rw [hc]
    split_ifs
    · rfl
    · rfl
  have heq : ∀ io, timerAck s now stack io = if sendAckInterval < sub64 now c then
      setAck { s with lastSendAckTime := now } true stack io
    else pure { s with lastSendAckTime := c } := fun io => by
    unfold timerAck
    rw [hstate]
  by_cases htime : sendAckInterval < sub64 now c
  · obtain ⟨t, hst, hsend⟩ := setAck_cases { s with lastSendAckTime := now } true stack
    refine ⟨t, ⟨⟨hst.same.1, hst.same.2, hst.same.3, hst.same.4, hst.same.5, hst.same.6,
      hst.same.7, hst.same.8, hst.same.9, hst.same.10⟩, hst.lastSendNakTime⟩, ?_⟩
    have hx : timerAck s now stack = setAck { s with lastSendAckTime := now } true stack := by
      funext io
      rw [heq, if_pos htime]
    rw [hx]
    refine hsend.of_iff ?_
    unfold Acks AckDue
    exact ⟨fun h => ⟨htime, h.1⟩, fun h => ⟨h.2, Or.inl rfl⟩⟩
  · refine ⟨{ s with lastSendAckTime := c }, ⟨⟨rfl, rfl, rfl, rfl, rfl, rfl, rfl, rfl, rfl, rfl⟩,
      rfl⟩, sends_none (fun h => htime h.1) fun io => ?_⟩
    rw [heq, if_neg htime]

/-- **The timer's NAK.** -/
theorem timerNak_cases (s : RecvSock) (now : ℕ) (stack : ℕ → UInt8) : ∃ t, Same s t ∧
    Sends (NakDue s now) s.addrSender (nakBytes stack (u64 (s.latestRecvedValidSeqNo + 1))
      (sub64 s.unvalidPkgBegin 1) s.epid) .recvepSendNak t (timerNak s now stack) := by
  set c := if s.lastSendNakTime = 0 then now else s.lastSendNakTime with hc
  have hstate : (if s.lastSendNakTime = 0 then { s with lastSendNakTime := now } else s) =
      { s with lastSendNakTime := c } := by
    rw [hc]
    split_ifs
    · rfl
    · rfl
  have hs : ∀ n, Same s { s with lastSendNakTime := n } :=
    fun n => ⟨rfl, rfl, rfl, rfl, rfl, rfl, rfl, rfl, rfl, rfl⟩
  by_cases htime : sendNakInterval < sub64 now c ∧ s.latestRecvedValidSeqNo < s.unvalidPkgBegin
  · by_cases hle : u64 (s.latestRecvedValidSeqNo + 1) ≤ sub64 s.unvalidPkgBegin 1
    · refine ⟨_, hs now, sends_one ⟨htime.1, htime.2, hle⟩ fun io => ?_⟩
      unfold timerNak
      rw [hstate]
      simp only [if_pos htime, if_pos hle]
    · refine ⟨_, hs now, sends_none (fun h => hle h.2.2) fun io => ?_⟩
      unfold timerNak
      rw [hstate]
      simp only [if_pos htime, if_neg hle]
  · refine ⟨_, hs c, sends_none (fun h => htime ⟨h.1, h.2.1⟩) fun io => ?_⟩
    unfold timerNak
    rw [hstate]
    simp only [if_neg htime]

theorem SameButAck.nakDue (h : SameButAck s t) (now : ℕ) :
    NakDue t now ↔ NakDue s now := by
  unfold NakDue NakTime
  rw [h.lastSendNakTime, h.same.latest, h.same.unvalidPkgBegin]

end SmartNet.Network.Rmp.Timers

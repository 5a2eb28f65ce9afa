import SmartNet.Network.Rmp.Recvep

/-! # Calls that only send control packets

`set_ack` and the receiver's timer change the clocks and the ack counters of a socket and may send
an ack or a NAK; what the socket has received stays as it is.

* `Same`: the two states differ in clocks and ack counters only;
* `Control s e`: the event `e` is the ack or the NAK that the state `s` calls for;
* `Quiet`: a call that emits such events only, and leads to a state with the same contents;
* `setAck_quiet`, `timer_quiet`: these calls are quiet. -/

namespace SmartNet.Network.Rmp.ControlPkgs

open SmartNet.Common SmartNet.Lib SmartNet.Memory.MemBlock SmartNet.Network.Udp
open SmartNet.Network.Rmp.Wire SmartNet.Network.Rmp.Recvep

structure Same (s t : RecvSock) : Prop where
  epid : t.epid = s.epid
  pMem : t.pMem = s.pMem
  senderId : t.senderId = s.senderId
  validPkgBegin : t.validPkgBegin = s.validPkgBegin
  validPkgEnd : t.validPkgEnd = s.validPkgEnd
  addrSender : t.addrSender = s.addrSender
  latest : t.latestRecvedValidSeqNo = s.latestRecvedValidSeqNo
  unvalidPkgBegin : t.unvalidPkgBegin = s.unvalidPkgBegin
  unvalidPkgEnd : t.unvalidPkgEnd = s.unvalidPkgEnd
  vecUnvalidPkgs : t.vecUnvalidPkgs = s.vecUnvalidPkgs

variable {s t u : RecvSock} {F G : Fault → Prop}

theorem Same.refl (s : RecvSock) : Same s s := ⟨rfl, rfl, rfl, rfl, rfl, rfl, rfl, rfl, rfl, rfl⟩

theorem Same.trans (h : Same s t) (h' : Same t u) : Same s u :=
  ⟨h'.1.trans h.1, h'.2.trans h.2, h'.3.trans h.3, h'.4.trans h.4, h'.5.trans h.5, h'.6.trans h.6,
    h'.7.trans h.7, h'.8.trans h.8, h'.9.trans h.9, h'.10.trans h.10⟩

/-- The datagram `d` is the ack or the timer's NAK of the state `s`. -/
def ControlPkg (s : RecvSock) (d : List UInt8) : Prop :=
  0 < s.latestRecvedValidSeqNo ∧ (∃ stack, d = ackBytes stack s.latestRecvedValidSeqNo s.epid) ∨
    s.latestRecvedValidSeqNo < s.unvalidPkgBegin ∧
      u64 (s.latestRecvedValidSeqNo + 1) ≤ sub64 s.unvalidPkgBegin 1 ∧
      ∃ stack, d = nakBytes stack (u64 (s.latestRecvedValidSeqNo + 1))
        (sub64 s.unvalidPkgBegin 1) s.epid

def Control (s : RecvSock) (e : Ev) : Prop := ∃ d, e = .sendto s.addrSender d ∧ ControlPkg s d

theorem Same.control (h : Same s t) {e : Ev} (he : Control t e) : Control s e := by
  obtain ⟨d, hd, hc⟩ := he
  unfold ControlPkg at hc
  rw [h.latest, h.unvalidPkgBegin, h.epid] at hc
  exact ⟨d, by rw [hd, h.addrSender], hc⟩

/-- A call on `s` that only sends. -/
structure Quiet (s : RecvSock) (F : Fault → Prop) (x : Eff Ev Fault RecvSock) : Prop where
  evs : ∀ e ∈ x.evs, Control s e
  ok : ∀ t, x.res = .ok t → Same s t
  err : ∀ f, x.res = .error f → F f

theorem quiet_pure (h : Same s t) : Quiet s F (pure t) := by
  refine ⟨fun e he => ?_, fun u hu => ?_, fun f hf => ?_⟩
  · cases he
  · cases hu; exact h
  · cases hf

theorem Quiet.mono {x : Eff Ev Fault RecvSock} (h : Quiet s F x) (hFG : ∀ f, F f → G f) :
    Quiet s G x :=
  ⟨h.evs, h.ok, fun f hf => hFG f (h.err f hf)⟩

theorem Quiet.of_same {x : Eff Ev Fault RecvSock} (h : Quiet t F x) (hst : Same s t) :
    Quiet s F x :=
  ⟨fun e he => hst.control (h.evs e he), fun u hu => hst.trans (h.ok u hu), h.err⟩

theorem Quiet.bind {x : Eff Ev Fault RecvSock} {g : RecvSock → Eff Ev Fault RecvSock}
    (hx : Quiet s F x)
    (hg : ∀ t, Same s t → Quiet t F (g t)) : Quiet s F (x >>= g) := by
  rcases hres : x.res with f | t
  · rw [Eff.bind_of_error hres]
    refine ⟨hx.evs, fun u hu => ?_, fun f' hf' => ?_⟩
    · cases hu
    · cases hf'; exact hx.err f hres
  · have hst := hx.ok t hres
    have hgt := (hg t hst).of_same hst
    rw [Eff.bind_of_ok hres]
    refine ⟨fun e he => ?_, hgt.ok, hgt.err⟩
    rcases List.mem_append.mp he with he | he
    · exact hx.evs e he
    · exact hgt.evs e he

theorem send_quiet {f : Fault} {d : List UInt8} (hd : ControlPkg s d) (hst : Same s t) (io : Sendto)
    {dest : SockAddr} (hdest : dest = s.addrSender) :
    Quiet s (· = f) (do
      let ret ← udpSend io d dest
      Eff.require (ret = .suc) f
      pure t) := by
  subst hdest
  obtain ⟨ret, hret, -⟩ := udpSend_res io d s.addrSender
  have hevs : ∀ e ∈ (udpSend io d s.addrSender).evs, Control s e :=
    fun e he => ⟨d, udpSend_evs io d s.addrSender e he, hd⟩
  rw [Eff.bind_of_ok hret]
  by_cases hr : ret = .suc
  · simp only [Eff.require_pos hr, Eff.pure_bind, Eff.pure_evs, Eff.pure_res, List.append_nil]
    refine ⟨hevs, fun u hu => ?_, fun f' hf' => ?_⟩
    · cases hu; exact hst
    · cases hf'
  · simp only [Eff.require_neg hr, Eff.abort_bind, Eff.abort_evs, Eff.abort_res, List.append_nil]
    refine ⟨hevs, fun u hu => ?_, fun f' hf' => ?_⟩
    · cases hu
    · cases hf'; rfl

theorem setAck_quiet (s : RecvSock) (flag : Bool) (stack : ℕ → UInt8) (io : Sendto) :
    Quiet s (· = .setAck) (setAck s flag stack io) := by
  unfold setAck
  by_cases h : 0 < s.latestRecvedValidSeqNo ∧
      (flag ∨ s.sendAckCnt ≤ sub64 s.latestRecvedValidSeqNo s.appConfirmAckTmp)
  · have hd : ControlPkg s (ackBytes stack s.latestRecvedValidSeqNo s.epid) :=
      Or.inl ⟨h.1, stack, rfl⟩
    rw [if_pos h]
    cases flag
    · simp only [Bool.false_eq_true, if_false]
      refine send_quiet hd ?_ io rfl
      exact ⟨rfl, rfl, rfl, rfl, rfl, rfl, rfl, rfl, rfl, rfl⟩
    · simp only [if_true]
      refine send_quiet hd ?_ io rfl
      exact ⟨rfl, rfl, rfl, rfl, rfl, rfl, rfl, rfl, rfl, rfl⟩
  · rw [if_neg h]
    exact quiet_pure ⟨rfl, rfl, rfl, rfl, rfl, rfl, rfl, rfl, rfl, rfl⟩

theorem timerAck_quiet (s : RecvSock) (now : ℕ) (stack : ℕ → UInt8) (io : Sendto) :
    Quiet s (· = .setAck) (timerAck s now stack io) := by
  have hs : ∀ x, Same s { s with lastSendAckTime := x } :=
    fun x => ⟨rfl, rfl, rfl, rfl, rfl, rfl, rfl, rfl, rfl, rfl⟩
  unfold timerAck
  by_cases h0 : s.lastSendAckTime = 0
  · simp only [if_pos h0]
    split_ifs
    · exact (setAck_quiet _ true stack io).of_same (hs now)
    · exact quiet_pure (hs now)
  · simp only [if_neg h0]
    split_ifs
    · exact (setAck_quiet _ true stack io).of_same (hs now)
    · exact quiet_pure (Same.refl s)

theorem timerNak_quiet (s : RecvSock) (now : ℕ) (stack : ℕ → UInt8) (io : Sendto) :
    Quiet s (· = .recvepSendNak) (timerNak s now stack io) := by
  have hs : ∀ x, Same s { s with lastSendNakTime := x } :=
    fun x => ⟨rfl, rfl, rfl, rfl, rfl, rfl, rfl, rfl, rfl, rfl⟩
  have hgap : s.latestRecvedValidSeqNo < s.unvalidPkgBegin →
      ∀ t, Same s t → Quiet s (· = .recvepSendNak)
        (if u64 (s.latestRecvedValidSeqNo + 1) ≤ sub64 s.unvalidPkgBegin 1 then do
          let ret ← udpSend io (nakBytes stack (u64 (s.latestRecvedValidSeqNo + 1))
            (sub64 s.unvalidPkgBegin 1) s.epid) s.addrSender
          Eff.require (ret = .suc) .recvepSendNak
          pure t
        else pure t) := fun hlt t ht => by
    split_ifs with hle
    · exact send_quiet (Or.inr ⟨hlt, hle, stack, rfl⟩) ht io rfl
    · exact quiet_pure ht
  unfold timerNak
  by_cases h0 : s.lastSendNakTime = 0
  · simp only [if_pos h0]
    by_cases h1 : sendNakInterval < sub64 now now ∧ s.latestRecvedValidSeqNo < s.unvalidPkgBegin
    · rw [if_pos h1]
      exact hgap h1.2 _ (hs now)
    · rw [if_neg h1]
      exact quiet_pure (hs now)
  · simp only [if_neg h0]
    by_cases h1 : sendNakInterval < sub64 now s.lastSendNakTime ∧
      s.latestRecvedValidSeqNo < s.unvalidPkgBegin
    · rw [if_pos h1]
      exact hgap h1.2 _ (hs now)
    · rw [if_neg h1]
      exact quiet_pure (Same.refl s)

/-- Ways for a call that only sends to end the process. -/
def SendFault (f : Fault) : Prop := f = .setAck ∨ f = .recvepSendNak

/-- **The timer** of a receiver only sends. -/
theorem timer_quiet (s : RecvSock) (now : ℕ) (stack : ℕ → UInt8) (ioAck ioNak : Sendto) :
    Quiet s SendFault (recvepHandleCanSend s now stack ioAck ioNak) :=
  ((timerAck_quiet s now stack ioAck).mono fun _ h => Or.inl h).bind fun t _ =>
    (timerNak_quiet t now stack ioNak).mono fun _ h => Or.inr h

theorem Quiet.recveds {x : Eff Ev Fault RecvSock} (h : Quiet s F x) : recveds x.evs = [] := by
  refine List.filterMap_eq_nil_iff.mpr fun e he => ?_
  obtain ⟨d, rfl, -⟩ := h.evs e he
  rfl

end SmartNet.Network.Rmp.ControlPkgs

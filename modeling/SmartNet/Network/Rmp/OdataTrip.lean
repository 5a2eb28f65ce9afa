import SmartNet.Network.Rmp.AppAcks
import SmartNet.Network.Rmp.Datagrams
import SmartNet.Network.Rmp.SendRetry

/-! # A payload on its way from `send` to `get_next_recved_data`

`send` puts both headers in front of the payload of its block; the handlers of the receiver take
them off again. A packet that arrives as the next one is handed out from `m_pMem`, one that arrives
early from its slot of the reorder buffer.

* `run_slot`: whatever the calls in between are, the slot of an early packet keeps its block until
  it is handed out;
* `round_trip_iff`: the payload is returned and the socket is ready again, unless the packet is the
  next one and empty. -/

namespace SmartNet.Network.Rmp.OdataTrip

open SmartNet.Common SmartNet.Lib SmartNet.Memory.MemBlock SmartNet.Network.Udp
open SmartNet.Network.Rmp.Wire SmartNet.Network.Rmp.Sendep SmartNet.Network.Rmp.SendWin
open SmartNet.Network.Rmp.SendRetry SmartNet.Network.Rmp.Recvep SmartNet.Network.Rmp.ControlPkgs
open SmartNet.Network.Rmp.Reorder SmartNet.Network.Rmp.RecvRun SmartNet.Network.Rmp.AppAcks
open SmartNet.Network.Rmp.Datagrams

/-- The next `get_next_recved_data` hands out the slot of packet `q`. -/
def HandsOut (q : ℕ) (s : RecvSock) : Prop :=
  s.pMem.filter (0 < ·.len) = none ∧ (0 < s.validPkgBegin ∧ s.validPkgBegin ≤ s.validPkgEnd) ∧
    s.validPkgBegin % unorderedPkgsCnt = q % unorderedPkgsCnt

/-- The call does not hand out the slot of packet `q`. -/
def Spares (q : ℕ) (x : App) : Call → Prop
  | .next _ _ => ¬ HandsOut q x.sock
  | _ => True

/-- The datagram makes `get_next_recved_data` return the payload, and the socket is ready for the
next one. -/
def ReturnedNext (pl : List UInt8) (x : Eff Ev Fault (Cmnerr × RecvSock)) : Prop :=
  ∃ t, x.res = .ok (.odataReady, t) ∧ ∀ stack io, ∃ c u,
    (getNextRecvedData t stack io).res = .ok (.suc, some c, u) ∧ c.data = pl ∧ Idle u.pMem

/-- The datagram is stored and the socket is ready for the next one; and after any calls that do not
empty its slot, the call that hands it out returns the payload and leaves `m_pMem` as it is. -/
def ReturnedLater (q : ℕ) (pl : List UInt8) (x : Eff Ev Fault (Cmnerr × RecvSock)) : Prop :=
  ∀ ret t, x.res = .ok (ret, t) → ret = .suc ∧ t.pMem = none ∧
    ∀ as : List Call, Proc.Meets exec (Spares q) { obj := ⟨t, false⟩ } as →
      (Proc.run exec { obj := ⟨t, false⟩ } as).fault = none →
        let s := (Proc.run exec { obj := ⟨t, false⟩ } as).obj.sock
        HandsOut q s → ∀ stack io, ∃ c u,
          (getNextRecvedData s stack io).res = .ok (.suc, some c, u) ∧ c.data = pl ∧
            u.pMem = s.pMem

/-- **The round trip** of a payload that travels as packet `q` in the datagram `d`. -/
def RoundTrips (r : RecvSock) (q : ℕ) (d pl : List UInt8) : Prop :=
  ∀ fresh stack src io,
    (q = u64 (1 + r.latestRecvedValidSeqNo) →
      ReturnedNext pl (recvepHandleCanRecv r fresh stack (.dgram src d) io)) ∧
    (r.latestRecvedValidSeqNo < q → q ≠ u64 (1 + r.latestRecvedValidSeqNo) →
      ReturnedLater q pl (recvepHandleCanRecv r fresh stack (.dgram src d) io))

variable {s t : RecvSock} {b c : CMemBlock} {q j : ℕ} {sid : UInt8} {d pl : List UInt8}

/-! ### Slots -/

theorem activate_slots (s : RecvSock) : (activate s).vecUnvalidPkgs = s.vecUnvalidPkgs := by
  simp only [activate]
  split_ifs <;> rfl

theorem widen_slots {q : ℕ} (h : (widen s q).res = .ok t) :
    t.vecUnvalidPkgs = s.vecUnvalidPkgs := by
  unfold widen at h
  split_ifs at h <;> cases h <;> rfl

theorem odata_store (hseq : b.get64 0 = q) (hnext : q ≠ u64 (1 + s.latestRecvedValidSeqNo))
    (hlt : s.latestRecvedValidSeqNo < q) {ret : Cmnerr}
    (h : (recvepHandleOdata s b).res = .ok (ret, t)) :
    ret = .suc ∧ t.pMem = none ∧ s.vecUnvalidPkgs (q % unorderedPkgsCnt) = none ∧
      t.vecUnvalidPkgs =
        Function.update s.vecUnvalidPkgs (q % unorderedPkgsCnt) (some (b.decHeadData 8)) := by
  simp only [recvepHandleOdata, hseq, if_neg hnext, if_neg (Nat.not_le.mpr hlt)] at h
  rcases hw : widen s q with ⟨evs, f | u⟩
  · rw [Eff.bind_of_error (by rw [hw])] at h
    cases h
  · have hslots : u.vecUnvalidPkgs = s.vecUnvalidPkgs := widen_slots (by rw [hw])
    rw [Eff.bind_of_ok (a := u) (by rw [hw])] at h
    by_cases hfree : u.vecUnvalidPkgs (q % unorderedPkgsCnt) = none
    · rw [Eff.require_pos hfree] at h
      have hok : (Except.ok (Cmnerr.suc, _) : Except Fault _) = .ok (ret, t) := h
      cases hok
      exact ⟨rfl, rfl, hslots ▸ hfree, by rw [← hslots]⟩
    · rw [Eff.require_neg hfree] at h
      cases h

theorem odata_slot {ret : Cmnerr} (h : (recvepHandleOdata s b).res = .ok (ret, t))
    (hj : s.vecUnvalidPkgs j = some c) : t.vecUnvalidPkgs j = some c := by
  by_cases hnext : b.get64 0 = u64 (1 + s.latestRecvedValidSeqNo)
  · simp only [recvepHandleOdata, if_pos hnext] at h
    split_ifs at h
    · cases h
      rw [activate_slots]
      exact hj
    · cases h
      exact hj
  · by_cases hold : b.get64 0 ≤ s.latestRecvedValidSeqNo
    · simp only [recvepHandleOdata, if_neg hnext, if_pos hold] at h
      cases h
      exact hj
    · obtain ⟨-, -, hfree, hslots⟩ := odata_store rfl hnext (Nat.not_le.mp hold) h
      have hne : j ≠ b.get64 0 % unorderedPkgsCnt := by
        intro he
        rw [he, hfree] at hj
        cases hj
      rw [hslots, Function.update_of_ne hne]
      exact hj

theorem recv_slot {r : Recvfrom} {fresh stack : ℕ → UInt8} {io : Sendto} {ret : Cmnerr}
    (h : (recvepHandleCanRecv s fresh stack r io).res = .ok (ret, t))
    (hj : s.vecUnvalidPkgs j = some c) : t.vecUnvalidPkgs j = some c := by
  unfold recvepHandleCanRecv at h
  obtain ⟨b, -, h⟩ := Eff.bind_res_ok h
  obtain ⟨⟨code, b, src⟩, -, h⟩ := Eff.bind_res_ok h
  by_cases hcode : code = .suc
  · simp only [ne_eq, hcode, not_true_eq_false, if_false] at h
    rcases handlePkg_cases { s with pMem := some b } b src stack io with ⟨hp, -⟩ | ⟨-, hp⟩ | ⟨-, hp⟩
    · rw [hp] at h
      exact nomatch h
    · rw [hp] at h
      exact odata_slot h hj
    · obtain ⟨ret', -, hres, -⟩ := handleHb_eq
        (s := { s with pMem := some b, addrSender := src }) (b.decHeadData 8) stack io
      rw [hp, hres] at h
      cases h
      exact hj
  · simp only [ne_eq, hcode, not_false_eq_true, if_true] at h
    cases h
    exact hj

theorem next_slot {stack : ℕ → UInt8} {io : Sendto} {ret : Cmnerr} {p : Option CMemBlock}
    (h : (getNextRecvedData s stack io).res = .ok (ret, p, t)) (hq : ¬ HandsOut q s)
    (hj : s.vecUnvalidPkgs (q % unorderedPkgsCnt) = some c) :
    t.vecUnvalidPkgs (q % unorderedPkgsCnt) = some c := by
  rcases hmem : s.pMem.filter (0 < ·.len) with - | p'
  · by_cases hv : 0 < s.validPkgBegin ∧ s.validPkgBegin ≤ s.validPkgEnd
    · have hne : q % unorderedPkgsCnt ≠ s.validPkgBegin % unorderedPkgsCnt :=
        fun he => hq ⟨hmem, hv, he.symm⟩
      rw [getNext_slot hmem hv] at h
      cases h
      exact (Function.update_of_ne hne _ _).trans hj
    · rw [getNext_none hmem hv] at h
      obtain ⟨u, hu, h⟩ := Eff.bind_res_ok h
      cases h
      rw [((setAck_quiet _ false stack io).ok t hu).vecUnvalidPkgs]
      exact hj
  · unfold getNextRecvedData at h
    rw [hmem] at h
    cases h
    exact hj

/-- **One call** leaves a filled slot as it is, unless it hands it out. -/
theorem exec_slot {x y : App} {a : Call} (h : (exec a x).res = .ok y) (ha : Spares q x a)
    (hj : x.sock.vecUnvalidPkgs (q % unorderedPkgsCnt) = some c) :
    y.sock.vecUnvalidPkgs (q % unorderedPkgsCnt) = some c := by
  cases a with
  | recv r fresh stack io =>
    by_cases hd : x.draining = true
    · rw [exec_busy hd] at h
      cases h
      exact hj
    · rw [exec_recv (by simpa using hd)] at h
      obtain ⟨⟨ret, t⟩, hrecv, h⟩ := Eff.bind_res_ok h
      cases h
      exact recv_slot hrecv hj
  | next stack io =>
    obtain ⟨⟨ret, p, t⟩, hnext, h⟩ := Eff.bind_res_ok h
    have hslot := next_slot hnext ha hj
    dsimp only at h
    split_ifs at h
    · obtain ⟨-, -, h⟩ := Eff.bind_res_ok h
      cases h
      exact hslot
    · cases h
      exact hslot
  | timer now stack ioAck ioNak =>
    obtain ⟨t, htimer, h⟩ := Eff.bind_res_ok h
    cases h
    rw [((timer_quiet x.sock now stack ioAck ioNak).ok t htimer).vecUnvalidPkgs]
    exact hj

/-- **A run** of such calls. -/
theorem run_slot : ∀ {as : List Call} {p : Proc App Ev Fault}, Proc.Meets exec (Spares q) p as →
    p.fault = none → p.obj.sock.vecUnvalidPkgs (q % unorderedPkgsCnt) = some c →
      (Proc.run exec p as).fault = none →
        (Proc.run exec p as).obj.sock.vecUnvalidPkgs (q % unorderedPkgsCnt) = some c
  | [], _, _, _, hj, _ => hj
  | a :: as, p, ⟨ha, has⟩, hf, hj, hend => by
    have hlive : (p.call (exec a)).fault = none := Proc.run_fault_none hend
    rcases hres : (exec a p.obj).res with e | y
    · rw [Proc.call_error hf hres] at hlive
      exact nomatch hlive
    · have hcall := Proc.call_ok hf hres
      refine run_slot (p := p.call (exec a)) has hlive ?_ hend
      rw [hcall]
      exact exec_slot hres ha hj

theorem handOut_stored (h : HandsOut q s) (hj : s.vecUnvalidPkgs (q % unorderedPkgsCnt) = some c)
    (stack : ℕ → UInt8) (io : Sendto) : ∃ u,
      (getNextRecvedData s stack io).res = .ok (.suc, some c, u) ∧ u.pMem = s.pMem := by
  obtain ⟨hmem, hv, hslot⟩ := h
  rw [getNext_slot hmem hv, hslot, hj]
  exact ⟨_, rfl, rfl⟩

/-! ### The two routes -/

/-- A data packet of the configured sender reaches its handler, with both headers off. -/
theorem recv_odata {r : RecvSock} (hidle : Idle r.pMem) (hd : IsOdata sid q pl d)
    (hid : r.senderId = sid) (fresh stack : ℕ → UInt8) (src : SockAddr) (io : Sendto) :
    ∃ b v, (b.get64 0 = q ∧ (b.decHeadData 8).data = pl ∧ (b.decHeadData 8).offset = 16) ∧
      (v.latestRecvedValidSeqNo = r.latestRecvedValidSeqNo ∧ v.vecUnvalidPkgs = r.vecUnvalidPkgs) ∧
      recvepHandleCanRecv r fresh stack (.dgram src d) io = recvepHandleOdata v b := by
  have hlen := hd.len
  have hne : d ≠ [] := by
    intro h
    rw [h, List.length_nil] at hlen
    omega
  rcases handleCanRecv_dgram r fresh stack io src hne hd.fits with ⟨-, h⟩ | ⟨b, hb, heq⟩
  · exact absurd hidle h
  obtain ⟨v, ⟨a, rfl⟩, hv⟩ :=
    handlePkg_odata (s := { r with pMem := some b }) hb hd hid src stack io
  refine ⟨b.decHeadData 8, { r with pMem := some b, addrSender := a }, ⟨?_, ?_, ?_⟩, ⟨rfl, rfl⟩,
    heq.trans hv⟩
  · exact (hb.get64 0 (by omega)).trans hd.seq
  · exact (hb.payload hlen hd.fits).1.trans hd.pay
  · have hoff : ((b.decHeadData 8).decHeadData 8).offset = u32 (u32 (b.offset + 8) + 8) := rfl
    rw [hoff, hb.offset]
    decide

/-- **In turn**: the payload is returned from `m_pMem`, if there is one. -/
theorem returnedNext_iff {v : RecvSock} (hseq : b.get64 0 = u64 (1 + v.latestRecvedValidSeqNo))
    (hdata : (b.decHeadData 8).data = pl) (hoff : (b.decHeadData 8).offset = 16) :
    ReturnedNext pl (recvepHandleOdata v b) ↔ pl ≠ [] := by
  have hlen : (b.decHeadData 8).len = pl.length := by rw [← CMemBlock.length_data, hdata]
  rcases odata_cases v b with ⟨-, t, heq, hmem⟩ | ⟨hne, -⟩
  · rw [heq]
    constructor
    · rintro ⟨t', ht', hall⟩ hnil
      have htt : t = t' := by
        have h := congrArg (fun x : Except Fault (Cmnerr × RecvSock) => x.map Prod.snd) ht'
        simpa [Except.map] using h
      subst htt
      -- the test on the length passes over the empty block, which stays in `m_pMem`
      have hfilter : t.pMem.filter (0 < ·.len) = none := by
        rw [hmem, Option.filter_some, hlen, hnil]
        rfl
      obtain ⟨c, u, hget, -, hidle⟩ := hall (fun _ => 0) .sent
      have hu : u.pMem = t.pMem := by
        by_cases hv : 0 < t.validPkgBegin ∧ t.validPkgBegin ≤ t.validPkgEnd
        · rw [getNext_slot hfilter hv, Eff.pure_res] at hget
          simp only [Except.ok.injEq, Prod.mk.injEq] at hget
          rw [← hget.2.2]
        · rw [getNext_none hfilter hv] at hget
          obtain ⟨w, -, hw⟩ := Eff.bind_res_ok hget
          cases hw
      have h16 := (hidle _ (hu.trans hmem)).2
      omega
    · intro hpl
      have hpos : 0 < (b.decHeadData 8).len := by
        rw [hlen]
        exact List.length_pos_iff.mpr hpl
      refine ⟨t, rfl, fun stack io => ⟨b.decHeadData 8, { t with pMem := none }, ?_, hdata, ?_⟩⟩
      · rw [getNext_mem hmem hpos]
        rfl
      · intro c hc
        exact nomatch hc
  · exact absurd hseq hne

/-- **Early**: the payload is returned from its slot, empty or not. -/
theorem returnedLater {v : RecvSock} (hseq : b.get64 0 = q)
    (hnext : q ≠ u64 (1 + v.latestRecvedValidSeqNo)) (hlt : v.latestRecvedValidSeqNo < q)
    (hdata : (b.decHeadData 8).data = pl) : ReturnedLater q pl (recvepHandleOdata v b) := by
  intro ret t hres
  obtain ⟨hret, hmem, -, hslots⟩ := odata_store hseq hnext hlt hres
  refine ⟨hret, hmem, ?_⟩
  intro as has hend s hout stack io
  have hj : t.vecUnvalidPkgs (q % unorderedPkgsCnt) = some (b.decHeadData 8) := by
    rw [hslots, Function.update_self]
  obtain ⟨u, hu, hpMem⟩ := handOut_stored hout (run_slot has rfl hj hend) stack io
  exact ⟨_, u, hu, hdata, hpMem⟩

/-- **The round trip.** A block that `send` accepts from any sender with any number becomes a
datagram whose payload any receiver of this sender that is ready for it hands out, and that leaves
this receiver ready again, exactly if it does not arrive as the next packet without payload. -/
theorem round_trip_iff (s : SendSock) (b : CMemBlock) (ho : b.offset = 16) (hf : b.Fits)
    (htail : s.validSendingDataTail < 2 ^ 64) (hroom : ¬ Full s) :
    ∃ d, sentPacket s b = some d ∧ ∀ r : RecvSock, Idle r.pMem → r.senderId = s.senderId →
      (RoundTrips r s.validSendingDataTail d b.data ↔
        ¬ (b.len = 0 ∧ s.validSendingDataTail = u64 (1 + r.latestRecvedValidSeqNo))) := by
  have hod := isOdata_packet s.senderId htail ho hf
  set q := s.validSendingDataTail with hq
  have hlen : b.len = 0 ↔ b.data = [] := by
    rw [← CMemBlock.length_data, List.length_eq_zero_iff]
  refine ⟨(packet s.senderId q b).data, ?_, fun r hidle hid => ?_⟩
  · rcases send_cases ho hf (s := s) with ⟨c, -, hfull⟩ | ⟨heq, -⟩
    · exact absurd hfull hroom
    · unfold sentPacket
      rw [heq]
      show Option.map CMemBlock.data (Function.update s.vecSendWin _ _ _) = _
      rw [Function.update_self]
      rfl
  · constructor
    · rintro h ⟨hempty, hnext⟩
      obtain ⟨c, v, ⟨h1, h2, h3⟩, ⟨h4, -⟩, heq⟩ :=
        recv_odata hidle hod hid (fun _ => 0) (fun _ => 0) ⟨0, 0⟩ .sent
      have hret := (h (fun _ => 0) (fun _ => 0) ⟨0, 0⟩ .sent).1 hnext
      rw [heq] at hret
      exact (returnedNext_iff (by rw [h1, h4, hnext]) h2 h3).mp hret (hlen.mp hempty)
    · intro h fresh stack src io
      obtain ⟨c, v, ⟨h1, h2, h3⟩, ⟨h4, -⟩, heq⟩ := recv_odata hidle hod hid fresh stack src io
      rw [heq]
      refine ⟨fun hnext => ?_, fun hlt hnext => ?_⟩
      · refine (returnedNext_iff (by rw [h1, h4, hnext]) h2 h3).mpr fun hnil => ?_
        exact h ⟨hlen.mpr hnil, hnext⟩
      · exact returnedLater h1 (by rw [h4]; exact hnext) (by rw [h4]; exact hlt) h2

theorem round_trip_iff_first :
    ∃ d, sentPacket (Sendep.open ⟨1, 2⟩ 7 1000000 500 1000000) threeBytes = some d ∧
      ∀ r : RecvSock, Idle r.pMem → r.senderId = 7 →
        (RoundTrips r 1 d threeBytes.data ↔
          ¬ (threeBytes.len = 0 ∧ 1 = u64 (1 + r.latestRecvedValidSeqNo))) :=
  round_trip_iff (Sendep.open ⟨1, 2⟩ 7 1000000 500 1000000) threeBytes rfl
    (show 16 + 3 ≤ maxMemSize by decide) (by decide) (by decide)

/-- **An empty payload is not handed out**: packet 1 arrives at a new receiver. `m_pMem` keeps the
empty block, with both headers in front of it. -/
theorem empty_lost :
    let d := odataBytes 7 1 []
    sentPacket (Sendep.open ⟨1, 2⟩ 7 1000000 500 1000000) ⟨fun _ => 0, 16, 16, 0⟩ = some d ∧
      ∃ t u, (recvepHandleCanRecv (Recvep.open 7 1) (fun _ => 0) (fun _ => 0) (.dgram ⟨9, 9⟩ d)
          .sent).res = .ok (.odataReady, t) ∧
        (getNextRecvedData t (fun _ => 0) .sent).res = .ok (.noData, none, u) ∧
          u.pMem.map (fun c => (c.offset, c.len)) = some (16, 0) ∧
            ¬ RoundTrips (Recvep.open 7 1) 1 d [] := by
  refine ⟨by decide, _, _, rfl, rfl, by decide, fun h => ?_⟩
  obtain ⟨t, ht, hall⟩ := (h (fun _ => 0) (fun _ => 0) ⟨9, 9⟩ .sent).1 (by decide)
  obtain ⟨c, u, hget, -⟩ := hall (fun _ => 0) .sent
  cases ht
  exact nomatch hget

end SmartNet.Network.Rmp.OdataTrip

import SmartNet.Lib.Run
import SmartNet.Network.Rmp.Reorder

/-! # Runs of a receiver

A `Receiver` is a receiving socket with what is remembered about its run: the blocks handed to the
application, the numbers of the data packets handled, and the assert that ended the process, if one
did. Its inputs are the calls of the two io threads; everything the environment decides is in them.

* `Honest`, `Near`: the datagrams come from one honest sender, and their numbers fit the buffer;
* `exec_outcome`: a datagram, a drain or a timer call keeps the socket in order and hands out the
  packets up to the new frontier, or ends the process in one of the ways of `ActFault`. -/

namespace SmartNet.Network.Rmp.RecvRun

open SmartNet.Common SmartNet.Lib SmartNet.Lib.Frontier SmartNet.Memory.MemBlock
open SmartNet.Network.Udp
open SmartNet.Network.Rmp.Wire SmartNet.Network.Rmp.Recvep SmartNet.Network.Rmp.ControlPkgs
open SmartNet.Network.Rmp.Reorder

/-- A call of an io thread on a receiving socket. -/
inductive RecvAct
  | input (r : Recvfrom) (fresh stack : ℕ → UInt8) (io ioAck : Sendto)
  | drain (stack : ℕ → UInt8) (io : Sendto)
  | timer (now : ℕ) (stack : ℕ → UInt8) (ioAck ioNak : Sendto)

/-- What the call does. -/
def RecvAct.exec (s : RecvSock) : RecvAct → Eff Ev Fault RecvSock
  | .input r fresh stack io ioAck => do
    let (_, s) ← recvepInput s fresh stack r io ioAck
    pure s
  | .drain stack io => Recvep.drain stack io (drainFuel s) s
  | .timer now stack ioAck ioNak => recvepHandleCanSend s now stack ioAck ioNak

/-- The number of the data packet that arrives, if one does. -/
def RecvAct.number : RecvAct → Option ℕ
  | .input (.dgram _ d) _ _ _ _ => if opcode d = epData then some (word 0 d) else none
  | _ => none

structure Receiver where
  sock : RecvSock
  fault : Option Fault
  delivered : List (Option (List UInt8))
  seen : List ℕ

/-- A freshly opened receiver that has joined the group. -/
def init (senderId : UInt8) (ackConfirmCnt : ℕ) (bound : SockAddr) : Receiver :=
  ⟨joinMulticastGroup (Recvep.open senderId ackConfirmCnt) bound, none, [], []⟩

/-- The receiver after a call; a process that was ended does nothing more. -/
def step (p : Receiver) (a : RecvAct) : Receiver :=
  if p.fault.isSome then p
  else
    let x := a.exec p.sock
    let p := { p with
      delivered := p.delivered ++ recveds x.evs
      seen := a.number.toList ++ p.seen }
    match x.res with
    | .ok s => { p with sock := s }
    | .error f => { p with fault := some f }

/-- The datagrams a call sends. -/
def out (p : Receiver) (a : RecvAct) : List (SockAddr × List UInt8) :=
  if p.fault.isSome then [] else sends (a.exec p.sock).evs

/-- A datagram that arrives is a data packet or a heartbeat of the sender `sid`, whose packet `q`
has the payload `pay q`. -/
def Honest (sid : UInt8) (pay : ℕ → List UInt8) : RecvAct → Prop
  | .input (.dgram _ d) _ _ _ _ =>
    (∃ q, 1 ≤ q ∧ q < 2 ^ 64 ∧ IsOdata sid q (pay q) d) ∨ ∃ l o, IsHb sid l o d
  | _ => True

variable {pay : ℕ → List UInt8} {K L : ℕ} {seen : Set ℕ} {s : RecvSock} {sid : UInt8}

/-! ### Outcomes -/

/-- A call hands out the packets from `L + 1` to the new frontier, and then the socket is in order;
or it ends the process, in one of the ways `F`. -/
def Outcome (pay : ℕ → List UInt8) (K : ℕ) (seen : Set ℕ) (L : ℕ) (F : Fault → Prop)
    (x : Eff Ev Fault RecvSock) : Prop :=
  ∃ L', L ≤ L' ∧ (∀ q, L < q → q ≤ L' → q ∈ seen) ∧
    recveds x.evs = (List.range' (L + 1) (L' - L)).map (fun q => some (pay q)) ∧
    (∀ s', x.res = .ok s' → InOrder pay K seen s' ∧ s'.latestRecvedValidSeqNo = L') ∧
    ∀ f, x.res = .error f → F f

theorem outcome_same {F : Fault → Prop} {x : Eff Ev Fault RecvSock}
    (hL : s.latestRecvedValidSeqNo = L) (hrec : recveds x.evs = [])
    (hok : ∀ s', x.res = .ok s' → InOrder pay K seen s' ∧
      s'.latestRecvedValidSeqNo = s.latestRecvedValidSeqNo)
    (herr : ∀ f, x.res = .error f → F f) : Outcome pay K seen L F x :=
  ⟨L, Nat.le_refl _, fun q h1 h2 => by omega, by rw [hrec, Nat.sub_self]; rfl,
    fun s' hs' => ⟨(hok s' hs').1, (hok s' hs').2.trans hL⟩, herr⟩

theorem outcome_pure {F : Fault → Prop} (h : InOrder pay K seen s) :
    Outcome pay K seen s.latestRecvedValidSeqNo F (pure s) :=
  outcome_same rfl rfl (fun s' hs' => by cases hs'; exact ⟨h, rfl⟩) fun f hf => by cases hf

theorem quiet_outcome {F : Fault → Prop} {x : Eff Ev Fault RecvSock} (h : InOrder pay K seen s)
    (hx : Quiet s F x) : Outcome pay K seen s.latestRecvedValidSeqNo F x :=
  outcome_same rfl hx.recveds (fun t ht => ⟨h.of_same (hx.ok t ht), (hx.ok t ht).latest⟩) hx.err

theorem Outcome.mono {F G : Fault → Prop} {x : Eff Ev Fault RecvSock} (h : Outcome pay K seen L F x)
    (hFG : ∀ f, F f → G f) : Outcome pay K seen L G x := by
  obtain ⟨L', h1, h2, h3, h4, h5⟩ := h
  exact ⟨L', h1, h2, h3, h4, fun f hf => hFG f (h5 f hf)⟩

/-! ### Handling a datagram -/

theorem takeMem_cases (pMem : Option CMemBlock) (fresh : ℕ → UInt8) :
    takeMem pMem fresh = Eff.abort .handleCanRecv ∧ ¬ Idle pMem ∨
      ∃ b : CMemBlock, takeMem pMem fresh = pure b ∧ b.offset = 0 ∧ b.len = 0 := by
  by_cases h : Idle pMem
  · exact Or.inr (takeMem_of_idle h fresh)
  · exact Or.inl ⟨takeMem_of_busy h fresh, h⟩

theorem handleCanRecv_dgram (s : RecvSock) (fresh stack : ℕ → UInt8) (io : Sendto) (src : SockAddr)
    {d : List UInt8} (hd : d ≠ []) (hfit : d.length ≤ maxMemSize) :
    recvepHandleCanRecv s fresh stack (.dgram src d) io = Eff.abort .handleCanRecv ∧ ¬ Idle s.pMem ∨
      ∃ b, Received b d ∧ recvepHandleCanRecv s fresh stack (.dgram src d) io =
        recvepHandlePkg { s with pMem := some b } b src stack io := by
  unfold recvepHandleCanRecv
  rcases takeMem_cases s.pMem fresh with ⟨h, hidle⟩ | ⟨b, h, ho, hl⟩
  · exact Or.inl ⟨by rw [h, Eff.abort_bind], hidle⟩
  · obtain ⟨c, hc, hco, hcl, hcd⟩ := udpRecv_dgram ho hl src hd hfit
    refine Or.inr ⟨c, ⟨hco, hcl, hcd⟩, ?_⟩
    rw [h, Eff.pure_bind, hc, Eff.pure_bind]
    rfl

/-- **Where a datagram goes**, whatever is in it. -/
theorem handlePkg_cases (s : RecvSock) (b : CMemBlock) (src : SockAddr) (stack : ℕ → UInt8)
    (io : Sendto) :
    recvepHandlePkg s b src stack io = Eff.abort .recvepHandlePkg ∧
        ¬ ((b.get8 3 = epData ∨ b.get8 3 = epHb) ∧ b.get8 4 = s.senderId) ∨
      (b.get8 3 = epData ∧ b.get8 4 = s.senderId) ∧ recvepHandlePkg s b src stack io =
        recvepHandleOdata { s with addrSender := src } (b.decHeadData 8) ∨
      (b.get8 3 = epHb ∧ b.get8 4 = s.senderId) ∧ recvepHandlePkg s b src stack io =
        recvepHandleHb { s with addrSender := src } (b.decHeadData 8) stack io := by
  have haddr : (if s.addrSender.addr ≠ src.addr ∨ s.addrSender.port ≠ src.port
      then { s with addrSender := src } else s) = { s with addrSender := src } := by
    split_ifs with h
    · rfl
    · have hsrc : s.addrSender = src := by
        rcases hs : s.addrSender with ⟨a, p⟩
        rw [hs] at h
        simp only [ne_eq, not_or, not_not] at h
        rw [h.1, h.2]
      rw [← hsrc]
  have hne : ¬ epHb = epData := by decide
  simp only [recvepHandlePkg, haddr]
  by_cases hop : b.get8 3 = epData ∨ b.get8 3 = epHb
  · by_cases hsid : b.get8 4 = s.senderId
    · have hreq : ¬ ((b.get8 3 ≠ epData ∧ b.get8 3 ≠ epHb) ∨ b.get8 4 ≠ s.senderId) := by
        rcases hop with h | h
        · simp [h, hsid]
        · simp [h, hsid]
      right
      rw [Eff.require_pos hreq, Eff.pure_bind]
      rcases hop with h | h
      · exact Or.inl ⟨⟨h, hsid⟩, if_pos h⟩
      · exact Or.inr ⟨⟨h, hsid⟩, if_neg (by rw [h]; exact hne)⟩
    · left
      exact ⟨by rw [Eff.require_neg (by simp [hsid]), Eff.abort_bind], fun h => hsid h.2⟩
  · left
    refine ⟨?_, fun h => hop h.1⟩
    simp only [not_or] at hop
    rw [Eff.require_neg (by simp [hop]), Eff.abort_bind]

/-- A data packet or a heartbeat of the configured sender. -/
def Ours (s : RecvSock) (c : CMemBlock) : Prop :=
  c.get8 4 = s.senderId ∧ (c.get8 3 = epData ∨ c.get8 3 = epHb)

theorem arrives_unique {pMem : Option CMemBlock} {fresh : ℕ → UInt8} {r : Recvfrom}
    {b c : CMemBlock} (hb : Arrives pMem fresh r b) (hc : Arrives pMem fresh r c) : b = c := by
  obtain ⟨src, hb⟩ := hb
  obtain ⟨src', hc⟩ := hc
  rw [hb] at hc
  cases hc
  rfl

/-- **What one pass of `handle_can_recv` comes to**, whatever `recvfrom` does: it ends the process,
it receives nothing, or a packet of the configured sender reaches its handler. -/
theorem handleCanRecv_cases (s : RecvSock) (fresh stack : ℕ → UInt8) (r : Recvfrom) :
    (∀ c, Arrives s.pMem fresh r c → ¬ Ours s c) ∧
        ((∃ f, ∀ io, recvepHandleCanRecv s fresh stack r io = Eff.abort f) ∨
          ∃ (ret : Cmnerr) (b : CMemBlock), ret ≠ .odataReady ∧ b.len = 0 ∧ b.offset = 0 ∧
            ∀ io, recvepHandleCanRecv s fresh stack r io = pure (ret, { s with pMem := some b })) ∨
      ∃ (c : CMemBlock) (src : SockAddr), Arrives s.pMem fresh r c ∧ c.offset = 0 ∧ 1 ≤ c.len ∧
        c.len ≤ maxMemSize ∧ c.get8 4 = s.senderId ∧
        (c.get8 3 = epData ∧ (∀ io, recvepHandleCanRecv s fresh stack r io =
            recvepHandleOdata { s with pMem := some c, addrSender := src } (c.decHeadData 8)) ∨
          c.get8 3 = epHb ∧ ∀ io, recvepHandleCanRecv s fresh stack r io =
            recvepHandleHb { s with pMem := some c, addrSender := src } (c.decHeadData 8) stack
              io) := by
  unfold recvepHandleCanRecv
  by_cases hidle : Idle s.pMem
  · obtain ⟨b, hb, ho, hl⟩ := takeMem_of_idle hidle fresh
    simp only [hb, Eff.pure_bind]
    rcases udpRecv_cases ho hl r with hab | ⟨ret, h1, h2, hret⟩ | ⟨c, src, hrecv, hco, hc1, hc2⟩
    · left
      refine ⟨fun c ⟨src, hc⟩ => ?_, Or.inl ⟨_, fun io => by rw [hab, Eff.abort_bind]⟩⟩
      rw [hb, Eff.pure_bind, hab] at hc
      cases hc
    · left
      refine ⟨fun c ⟨src, hc⟩ => ?_, Or.inr ⟨ret, b, h2, hl, ho, fun io => ?_⟩⟩
      · rw [hb, Eff.pure_bind, hret] at hc
        cases hc
        exact absurd rfl h1
      · simp only [hret, Eff.pure_bind, ne_eq, h1, not_false_eq_true, if_true]
    · simp only [hrecv, Eff.pure_bind, ne_eq, not_true_eq_false, if_false]
      have harr : Arrives s.pMem fresh r c := ⟨src, by rw [hb, Eff.pure_bind, hrecv]⟩
      by_cases hours : Ours s c
      · right
        refine ⟨c, src, harr, hco, hc1, hc2, hours.1, ?_⟩
        have hne : ¬ epHb = epData := by decide
        rcases hours with ⟨hsid, hop | hop⟩
        · refine Or.inl ⟨hop, fun io => ?_⟩
          rcases handlePkg_cases { s with pMem := some c } c src stack io with ⟨-, h⟩ | ⟨-, hp⟩ |
            ⟨h, -⟩
          · exact absurd ⟨Or.inl hop, hsid⟩ h
          · exact hp
          · rw [h.1] at hop
            exact absurd hop hne
        · refine Or.inr ⟨hop, fun io => ?_⟩
          rcases handlePkg_cases { s with pMem := some c } c src stack io with ⟨-, h⟩ | ⟨h, -⟩ |
            ⟨-, hp⟩
          · exact absurd ⟨Or.inr hop, hsid⟩ h
          · rw [h.1] at hop
            exact absurd hop.symm hne
          · exact hp
      · left
        refine ⟨fun d hd => by rw [arrives_unique hd harr]; exact hours,
          Or.inl ⟨.recvepHandlePkg, fun io => ?_⟩⟩
        rcases handlePkg_cases { s with pMem := some c } c src stack io with ⟨hp, -⟩ | ⟨h, -⟩ |
          ⟨h, -⟩
        · exact hp
        · exact absurd ⟨h.2, Or.inl h.1⟩ hours
        · exact absurd ⟨h.2, Or.inr h.1⟩ hours
  · left
    have hbusy := takeMem_of_busy hidle fresh
    refine ⟨fun c ⟨src, hc⟩ => ?_, Or.inl ⟨_, fun io => by rw [hbusy, Eff.abort_bind]⟩⟩
    rw [hbusy, Eff.abort_bind] at hc
    cases hc

theorem handlePkg_odata {b : CMemBlock} {d pl : List UInt8} {q : ℕ} (hb : Received b d)
    (hd : IsOdata sid q pl d) (hs : s.senderId = sid) (src : SockAddr) (stack : ℕ → UInt8)
    (io : Sendto) :
    ∃ t, (∃ a, t = { s with addrSender := a }) ∧
      recvepHandlePkg s b src stack io = recvepHandleOdata t (b.decHeadData 8) := by
  have hlen := hd.len
  have hop : b.get8 3 = epData := (hb.get8_opcode (by omega)).trans hd.op
  have hsid : b.get8 4 = s.senderId := (hb.get8_srcId (by omega)).trans (hd.sid.trans hs.symm)
  rcases handlePkg_cases s b src stack io with ⟨-, h⟩ | ⟨-, h⟩ | ⟨h, -⟩
  · exact absurd ⟨Or.inl hop, hsid⟩ h
  · exact ⟨_, ⟨src, rfl⟩, h⟩
  · rw [hop] at h
    exact absurd h.1 (by decide)

theorem handlePkg_hb {b : CMemBlock} {d : List UInt8} {l o : ℕ} (hb : Received b d)
    (hd : IsHb sid l o d) (hs : s.senderId = sid) (src : SockAddr) (stack : ℕ → UInt8)
    (io : Sendto) :
    ∃ t, (∃ a, t = { s with addrSender := a }) ∧
      recvepHandlePkg s b src stack io = recvepHandleHb t (b.decHeadData 8) stack io := by
  have hlen := hd.len
  have hop : b.get8 3 = epHb := (hb.get8_opcode (by omega)).trans hd.op
  have hsid : b.get8 4 = s.senderId := (hb.get8_srcId (by omega)).trans (hd.sid.trans hs.symm)
  rcases handlePkg_cases s b src stack io with ⟨-, h⟩ | ⟨h, -⟩ | ⟨-, h⟩
  · exact absurd ⟨Or.inr hop, hsid⟩ h
  · rw [hop] at h
    exact absurd h.1 (by decide)
  · exact ⟨_, ⟨src, rfl⟩, h⟩

/-- What `recvep_handle_hb` does: the block is emptied, and if packets are missing a NAK is sent. -/
theorem handleHb_eq (b : CMemBlock) (stack : ℕ → UInt8) (io : Sendto) :
    ∃ ret, ret ≠ .odataReady ∧
      (recvepHandleHb s b stack io).res = .ok (ret, { s with pMem := some b.reset }) ∧
      ∀ e ∈ (recvepHandleHb s b stack io).evs, s.latestRecvedValidSeqNo < b.get64 0 ∧
        e = .sendto s.addrSender
          (nakBytes stack (u64 (s.latestRecvedValidSeqNo + 1)) (b.get64 0) s.epid) := by
  unfold recvepHandleHb
  by_cases h : s.latestRecvedValidSeqNo < b.get64 0
  · simp only [if_pos h]
    have hevs :=
      udpSend_evs io (nakBytes stack (u64 (s.latestRecvedValidSeqNo + 1)) (b.get64 0) s.epid)
      s.addrSender
    cases io
    · exact ⟨.suc, by decide, rfl, fun e he => ⟨h, hevs e he⟩⟩
    · exact ⟨.sendPending, by decide, rfl, fun e he => ⟨h, hevs e he⟩⟩
    · exact ⟨.ioErr, by decide, rfl, fun e he => ⟨h, hevs e he⟩⟩
  · simp only [if_neg h]
    exact ⟨.suc, by decide, rfl, fun e he => by cases he⟩

/-- What a call can end the process with: a send that failed, a signal during `recvfrom`, or, for
data packet `q`, the two asserts of `recvep_handle_odata`. -/
def ActFault (s : RecvSock) (seen : Set ℕ) (a : RecvAct) (f : Fault) : Prop :=
  SendFault f ∨ f = .udpRecv ∨ ∃ q, a.number = some q ∧
    (f = .beyondLimitation ∧ waiting seen s.latestRecvedValidSeqNo ≠ ∅ ∧
        s.latestRecvedValidSeqNo + unorderedPkgsCnt < q ∨
      f = .slotTaken ∧ s.latestRecvedValidSeqNo + 1 < q ∧
        ∃ r ∈ waiting seen s.latestRecvedValidSeqNo,
        r % unorderedPkgsCnt = q % unorderedPkgsCnt)

/-- The numbers handled, after a call. -/
def seenAfter (a : RecvAct) (seen : Set ℕ) : Set ℕ := {q | a.number = some q ∨ q ∈ seen}

/-- A data packet is near: an empty reorder buffer is not opened more than `K` above the frontier;
and the next packet is not empty and not the last 64-bit number. -/
def Near (pay : ℕ → List UInt8) (K : ℕ) (seen : Set ℕ) (s : RecvSock) (a : RecvAct) : Prop :=
  ∀ q, a.number = some q →
    (waiting seen s.latestRecvedValidSeqNo = ∅ → q ≤ s.latestRecvedValidSeqNo + K) ∧
    (q = s.latestRecvedValidSeqNo + 1 → q < 2 ^ 64 - 1 ∧ pay q ≠ [])

theorem odata_outcome {b : CMemBlock} {d : List UInt8} {q : ℕ} {t : RecvSock}
    (h : InOrder pay K seen s) (hK : unorderedPkgsCnt ≤ K ∧ K ≤ unorderedPkgsCnt + 2)
    (hb : Received b d) (hd : IsOdata sid q (pay q) d) (hq : 1 ≤ q ∧ q < 2 ^ 64)
    (hopen : waiting seen s.latestRecvedValidSeqNo = ∅ → q ≤ s.latestRecvedValidSeqNo + K)
    (hnext : q = s.latestRecvedValidSeqNo + 1 → q < 2 ^ 64 - 1 ∧ pay q ≠ [])
    (ht : ∃ a, t = { s with pMem := some b, addrSender := a }) (stack : ℕ → UInt8)
    (ioAck : Sendto) :
    Outcome pay K (insert q seen) s.latestRecvedValidSeqNo
      (fun f => f = .setAck ∨
        f = .beyondLimitation ∧ waiting seen s.latestRecvedValidSeqNo ≠ ∅ ∧
          s.latestRecvedValidSeqNo + unorderedPkgsCnt < q ∨
        f = .slotTaken ∧ s.latestRecvedValidSeqNo + 1 < q ∧
          ∃ r ∈ waiting seen s.latestRecvedValidSeqNo, r % unorderedPkgsCnt = q % unorderedPkgsCnt)
      (do
        let (ret, t) ← recvepHandleOdata t (b.decHeadData 8)
        if ret = .odataReady then Recvep.drain stack ioAck (drainFuel t) t else pure t) := by
  obtain ⟨a, rfl⟩ := ht
  have hlat : (b.decHeadData 8).get64 0 = q := (hb.get64 0 (by have := hd.len; omega)).trans hd.seq
  have hpay : ((b.decHeadData 8).decHeadData 8).data = pay q :=
    (hb.payload hd.len hd.fits).1.trans hd.pay
  have hbuf : Buffered pay K seen { s with pMem := some b, addrSender := a } :=
    h.buf.of_eq rfl rfl rfl rfl
  have hll := h.buf.latest_lt
  rcases Nat.lt_trichotomy q (s.latestRecvedValidSeqNo + 1) with hlt | heq | hgt
  · -- a packet that was handed out before
    have hmem : q ∈ seen := h.buf.frontier.below q hq.1 (by omega)
    rw [Set.insert_eq_of_mem hmem, odata_dup (s := { s with pMem := some b, addrSender := a }) hll
      (by rw [hlat]; exact hq.1) (by rw [hlat]; exact Nat.le_of_lt_succ hlt), Eff.pure_bind]
    refine outcome_same rfl rfl (fun s' hs' => ?_) fun f hf => ?_
    · cases hs'
      refine ⟨⟨hbuf.of_eq rfl rfl rfl rfl, fun c hc => ?_, h.validBegin, h.validEnd⟩, rfl⟩
      cases hc; exact ⟨rfl, rfl⟩
    · cases hf
  · -- the next packet
    obtain ⟨hq64, hne⟩ := hnext heq
    subst heq
    obtain ⟨L', t, ht, hready⟩ := odata_next hbuf ⟨h.validBegin, h.validEnd⟩ hK.2 hlat hq64 hpay
    obtain ⟨evs, u, h1, h2, h3, h4, h5⟩ := drain_ready hready h.buf.frontier h.buf.near h.buf.small
      (by show s.latestRecvedValidSeqNo + 1 < _; omega) hne stack ioAck
    have hack := setAck_quiet u false stack ioAck
    rw [ht, Eff.pure_bind]
    simp only [if_true, h5]
    refine ⟨L', by have := hready.le; exact Nat.le_of_succ_le this, fun r hr1 hr2 => ?_, ?_,
      fun s' hs' => ?_,
      fun f hf => Or.inl (hack.err f hf)⟩
    · rcases Nat.eq_or_lt_of_le hr1 with rfl | hr
      · exact Or.inl rfl
      · exact Or.inr (hready.run r hr hr2)
    · rw [recveds_append, hack.recveds, List.append_nil, h1]
    · exact ⟨h3.of_same (hack.ok s' hs'), (hack.ok s' hs').latest.trans h4⟩
  · -- a packet above the next one
    rcases odata_wait hbuf hK.1 hlat hgt hq.2 hopen hpay with ⟨hres, h1, h2⟩ | ⟨hres, hr⟩ |
      ⟨t, hres, h1, h2, h3, h4, h5⟩
    · rw [hres, Eff.abort_bind]
      refine outcome_same rfl rfl (fun s' hs' => ?_) fun f hf => ?_
      · cases hs'
      · cases hf; exact Or.inr (Or.inl ⟨rfl, h1, h2⟩)
    · rw [hres, Eff.abort_bind]
      refine outcome_same rfl rfl (fun s' hs' => ?_) fun f hf => ?_
      · cases hs'
      · cases hf; exact Or.inr (Or.inr ⟨rfl, hgt, hr⟩)
    · rw [hres, Eff.pure_bind]
      refine outcome_same rfl rfl (fun s' hs' => ?_) fun f hf => ?_
      · cases hs'
        refine ⟨⟨h1, fun c hc => ?_, h4.trans h.validBegin, h5.trans h.validEnd⟩, h3⟩
        rw [h2] at hc; cases hc
      · cases hf

theorem exec_input (s : RecvSock) (r : Recvfrom) (fresh stack : ℕ → UInt8) (io ioAck : Sendto) :
    RecvAct.exec s (.input r fresh stack io ioAck) =
      (recvepHandleCanRecv s fresh stack r io >>= fun x =>
        if x.1 = .odataReady then Recvep.drain stack ioAck (drainFuel x.2) x.2 else pure x.2) := by
  simp only [RecvAct.exec, recvepInput, Eff.bind_assoc]
  congr 1
  funext x
  by_cases hx : x.1 = .odataReady
  · simp only [if_pos hx, Eff.bind_assoc, Eff.pure_bind, Eff.bind_pure]
  · simp only [if_neg hx, Eff.pure_bind]

theorem number_odata {q : ℕ} {d pl : List UInt8} (hd : IsOdata sid q pl d) (src : SockAddr)
    (fresh stack : ℕ → UInt8) (io ioAck : Sendto) :
    (RecvAct.input (.dgram src d) fresh stack io ioAck).number = some q := by
  simp only [RecvAct.number, if_pos hd.op, hd.seq]

theorem number_hb {l o : ℕ} {d : List UInt8} (hd : IsHb sid l o d) (src : SockAddr)
    (fresh stack : ℕ → UInt8) (io ioAck : Sendto) :
    (RecvAct.input (.dgram src d) fresh stack io ioAck).number = none := by
  have hne : ¬ opcode d = epData := by rw [hd.op]; decide
  simp only [RecvAct.number, if_neg hne]

theorem seenAfter_none {a : RecvAct} (h : a.number = none) : seenAfter a seen = seen := by
  ext q
  simp [seenAfter, h]

theorem seenAfter_some {a : RecvAct} {q : ℕ} (h : a.number = some q) :
    seenAfter a seen = insert q seen := by
  ext r
  simp [seenAfter, h, eq_comm]

theorem noDgram_outcome (h : InOrder pay K seen s) {r : Recvfrom} (hr : ∀ src d, r ≠ .dgram src d)
    (fresh stack : ℕ → UInt8) (io ioAck : Sendto) :
    Outcome pay K seen s.latestRecvedValidSeqNo (· = .udpRecv)
      (RecvAct.exec s (.input r fresh stack io ioAck)) := by
  obtain ⟨b, hb, ho, hl⟩ := takeMem_of_idle h.idle fresh
  have hin : InOrder pay K seen { s with pMem := some b } :=
    ⟨h.buf.of_eq rfl rfl rfl rfl, fun c hc => by cases hc; exact ⟨hl, ho⟩, h.validBegin, h.validEnd⟩
  have hreq : b.offset = 0 ∧ b.len = 0 := ⟨ho, hl⟩
  have hsuc : ∀ ret : Cmnerr, ret ≠ .suc → ret ≠ .odataReady →
      udpRecv b r = pure (ret, b, ⟨0, 0⟩) →
        Outcome pay K seen s.latestRecvedValidSeqNo (· = .udpRecv)
        (RecvAct.exec s (.input r fresh stack io ioAck)) := fun ret h1 h2 hrecv => by
    rw [exec_input, recvepHandleCanRecv, hb, Eff.pure_bind, hrecv, Eff.pure_bind]
    simp only [ne_eq, h1, not_false_eq_true, if_true, Eff.pure_bind, if_neg h2]
    exact outcome_pure hin
  rcases r with ⟨src, d⟩ | _ | _ | _
  · exact absurd rfl (hr src d)
  · exact hsuc .recvPending (by decide) (by decide)
      (by simp only [udpRecv, Eff.require_pos hreq, Eff.pure_bind])
  · rw [exec_input, recvepHandleCanRecv, hb, Eff.pure_bind]
    simp only [udpRecv, Eff.require_pos hreq, Eff.pure_bind, Eff.abort_bind]
    refine outcome_same rfl rfl (fun s' hs' => ?_) fun f hf => ?_
    · cases hs'
    · cases hf; rfl
  · exact hsuc .ioErr (by decide) (by decide)
      (by simp only [udpRecv, Eff.require_pos hreq, Eff.pure_bind])

theorem hb_outcome {d : List UInt8} {l o : ℕ} (h : InOrder pay K seen s) (hs : s.senderId = sid)
    (hd : IsHb sid l o d) (src : SockAddr) (fresh stack : ℕ → UInt8) (io ioAck : Sendto)
    (F : Fault → Prop) :
    Outcome pay K seen s.latestRecvedValidSeqNo F
      (RecvAct.exec s (.input (.dgram src d) fresh stack io ioAck)) := by
  have hlen := hd.len
  have hne : d ≠ [] := fun e => by rw [e] at hlen; cases hlen
  rcases handleCanRecv_dgram s fresh stack io src hne
    (by rw [hlen]; decide) with ⟨-, hidle⟩ | ⟨b, hb, heq⟩
  · exact absurd h.idle hidle
  obtain ⟨t, ⟨a, hta⟩, ht⟩ := handlePkg_hb (s := { s with pMem := some b }) hb hd hs src stack io
  obtain ⟨ret, hret, hres, hevs⟩ := handleHb_eq (s := t) (b.decHeadData 8) stack io
  rw [exec_input, heq, ht, Eff.bind_of_ok hres]
  simp only [if_neg hret]
  refine outcome_same rfl ?_ (fun s' hs' => ?_) fun f hf => ?_
  · refine List.filterMap_eq_nil_iff.mpr fun e he => ?_
    simp only [Eff.pure_evs, List.append_nil] at he
    rw [(hevs e he).2]; rfl
  · subst hta
    cases hs'
    refine ⟨⟨h.buf.of_eq rfl rfl rfl rfl, fun c hc => ?_, h.validBegin, h.validEnd⟩, rfl⟩
    cases hc; exact ⟨rfl, rfl⟩
  · cases hf

/-- **One call** on a socket in order, with honest and near packets. -/
theorem exec_outcome {a : RecvAct} (h : InOrder pay K seen s)
    (hK : unorderedPkgsCnt ≤ K ∧ K ≤ unorderedPkgsCnt + 2) (hs : s.senderId = sid)
    (hon : Honest sid pay a) (hnear : Near pay K seen s a) :
    Outcome pay K (seenAfter a seen) s.latestRecvedValidSeqNo (ActFault s seen a) (a.exec s) := by
  rcases a with ⟨r, fresh, stack, io, ioAck⟩ | ⟨stack, io⟩ | ⟨now, stack, ioAck, ioNak⟩
  · rcases r with ⟨src, d⟩ | _ | _ | _
    · rcases hon with ⟨q, hq1, hq2, hd⟩ | ⟨l, o, hd⟩
      · have hnum := number_odata hd src fresh stack io ioAck
        have hlen := hd.len
        have hne : d ≠ [] := fun e => by rw [e] at hlen; cases hlen
        rcases handleCanRecv_dgram s fresh stack io src hne hd.fits with ⟨-, hidle⟩ | ⟨b, hb, heq⟩
        · exact absurd h.idle hidle
        obtain ⟨t, ⟨ad, hta⟩, ht⟩ := handlePkg_odata (s := { s with pMem := some b }) hb hd hs
          src stack io
        rw [exec_input, heq, ht, seenAfter_some hnum]
        refine (odata_outcome h hK hb hd ⟨hq1, hq2⟩ (hnear q hnum).1 (hnear q hnum).2 ⟨ad, hta⟩
          stack ioAck).mono
          fun f hf => ?_
        rcases hf with hf | hf
        · exact Or.inl (Or.inl hf)
        · exact Or.inr (Or.inr ⟨q, hnum, hf⟩)
      · rw [seenAfter_none (number_hb hd src fresh stack io ioAck)]
        exact hb_outcome h hs hd src fresh stack io ioAck _
    all_goals
      rw [seenAfter_none rfl]
      refine (noDgram_outcome h (fun src d hr => by cases hr) fresh stack io ioAck).mono
        fun f hf => ?_
      exact Or.inr (Or.inl hf)
  · rw [seenAfter_none rfl]
    refine Outcome.mono ?_ fun f hf => Or.inl (Or.inl hf)
    show Outcome _ _ _ _ (· = .setAck) (Recvep.drain stack io (drainFuel s) s)
    rw [drain_idle h]
    exact quiet_outcome h (setAck_quiet s false stack io)
  · rw [seenAfter_none rfl]
    exact (quiet_outcome h (timer_quiet s now stack ioAck ioNak)).mono fun f hf => Or.inl hf

end SmartNet.Network.Rmp.RecvRun

import SmartNet.Network.Rmp.RecverTable
import SmartNet.Network.Rmp.RecvRun

/-! # Arbitrary datagrams

Anyone on the network can send a datagram of any length and content. What a pass of
`handle_can_recv` does to the block a datagram is in, and when it does no damage.

* `Touch`: the reads of a block, and the bytes stripped off its front;
* `RecvepHarmless`, `SendepHarmless`: only received bytes are read, nothing wraps, no assert fails,
  an invalid datagram is dropped, and the block is empty afterwards;
* `harmless_iff`: the datagrams for which this is so. -/

namespace SmartNet.Network.Rmp.Datagrams

open SmartNet.Common SmartNet.Lib SmartNet.Lib.Bytes SmartNet.Memory.MemBlock SmartNet.Network.Udp
open SmartNet.Network.Rmp.Wire SmartNet.Network.Rmp.Recvep SmartNet.Network.Rmp.Sendep
open SmartNet.Network.Rmp.ControlPkgs SmartNet.Network.Rmp.Reorder SmartNet.Network.Rmp.RecvRun
open SmartNet.Network.Rmp.SendCalls SmartNet.Network.Rmp.RecverTable

/-! ### Touching the block -/

/-- `k` bytes of the block from byte `i` on are read, or `dec_head_data(n)`. -/
inductive Touch
  | read (i k : ℕ)
  | strip (n : ℕ)

/-- Only the first `n` bytes are read, and neither the length nor the offset wraps. -/
def Clean (n : ℕ) : CMemBlock → List Touch → Prop
  | _, [] => True
  | b, .read i k :: ts => i + k ≤ n ∧ Clean n b ts
  | b, .strip k :: ts => (k ≤ b.len ∧ b.offset + k < 2 ^ 32) ∧ Clean n (b.decHeadData k) ts

/-- What `recvep_handle_pkg` and the handler it calls do to the block: the header is stripped before
it is read, `recvep_handle_odata` strips `SRmpOdata` before it reads the number, `recvep_handle_hb`
strips nothing. -/
def recvepTouches (senderId : UInt8) (b : CMemBlock) : List Touch :=
  [.strip 8, .read 3 1] ++
    if b.get8 3 ≠ epData ∧ b.get8 3 ≠ epHb then []
    else .read 4 1 ::
      if b.get8 4 ≠ senderId then []
      else if b.get8 3 = epData then [.strip 8, .read 8 8]
      else [.read 8 8]

/-- What `sendep_handle_pkg` and the handler it calls do to the block: the opcode is read before the
header is stripped, and each handler strips its structure before it reads it. -/
def sendepTouches (b : CMemBlock) : List Touch :=
  .read 3 1 ::
    if b.get8 3 ≠ epAck ∧ b.get8 3 ≠ epNak then []
    else .strip 8 ::
      if b.get8 3 = epNak then [.strip 24, .read 24 8, .read 8 8, .read 16 8]
      else [.strip 16, .read 16 8, .read 8 8]

/-! ### Invalid datagrams -/

/-- The length in `SRmpHdr`. -/
def hdrLen (d : List UInt8) : ℕ := leNat (d.take 3)

/-- `SRmpHdr` and the structure the opcode announces. -/
def pkgSize (op : UInt8) : ℕ := if op = epData then 16 else if op = epNak then 32 else 24

/-- Too short, of an opcode a receiver does not take, of another sender, or of another length than
its header says. -/
def RecvepInvalid (senderId : UInt8) (d : List UInt8) : Prop :=
  d.length < 8 ∨ (opcode d ≠ epData ∧ opcode d ≠ epHb) ∨ srcId d ≠ senderId ∨
    d.length < pkgSize (opcode d) ∨ hdrLen d ≠ d.length

/-- The same for a sender, whose feedback names no sender. -/
def SendepInvalid (d : List UInt8) : Prop :=
  d.length < 8 ∨ (opcode d ≠ epAck ∧ opcode d ≠ epNak) ∨ d.length < pkgSize (opcode d) ∨
    hdrLen d ≠ d.length

/-- The window and reorder-buffer variables of a receiver. -/
structure SameBuffer (s t : RecvSock) : Prop where
  latest : t.latestRecvedValidSeqNo = s.latestRecvedValidSeqNo
  validPkgBegin : t.validPkgBegin = s.validPkgBegin
  validPkgEnd : t.validPkgEnd = s.validPkgEnd
  unvalidPkgBegin : t.unvalidPkgBegin = s.unvalidPkgBegin
  unvalidPkgEnd : t.unvalidPkgEnd = s.unvalidPkgEnd
  vecUnvalidPkgs : t.vecUnvalidPkgs = s.vecUnvalidPkgs

/-- The window and receiver-table variables of a sender. -/
structure SameTable (s t : SendSock) : Prop where
  vecSendWin : t.vecSendWin = s.vecSendWin
  head : t.validSendingDataHead = s.validSendingDataHead
  tail : t.validSendingDataTail = s.validSendingDataTail
  sendingSeqNo : t.sendingSeqNo = s.sendingSeqNo
  mapRecvers : t.mapRecvers = s.mapRecvers

/-- A pass that sends nothing, hands out nothing and does not make `CRmpEndpoint` close. -/
def Silent (evs : List Ev) (ret : Cmnerr) : Prop := evs = [] ∧ (ret = .suc ∨ ret = .recvPending)

/-- `m_pMem` when the next datagram is received: after a packet that became ready, that is after the
calls of `get_next_recved_data`. -/
def RecvepLeaves (ret : Cmnerr) (t : RecvSock) : Prop :=
  if ret = .odataReady then
    ∀ stack io u, (drain stack io (drainFuel t) t).res = .ok u → Idle u.pMem
  else Idle t.pMem

/-- **The datagram does no damage** to a receiver. -/
structure RecvepHarmless (s : RecvSock) (d : List UInt8) (src : SockAddr) (fresh stack : ℕ → UInt8)
    (io : Sendto) : Prop where
  clean : ∀ b, Arrives s.pMem fresh (.dgram src d) b → Clean b.len b (recvepTouches s.senderId b)
  returns : ∃ ret t, (recvepHandleCanRecv s fresh stack (.dgram src d) io).res = .ok (ret, t) ∧
    (RecvepInvalid s.senderId d →
      Silent (recvepHandleCanRecv s fresh stack (.dgram src d) io).evs ret ∧ SameBuffer s t) ∧
    RecvepLeaves ret t

/-- **The datagram does no damage** to a sender. -/
structure SendepHarmless (s : SendSock) (d : List UInt8) (src : SockAddr) (fresh : ℕ → UInt8)
    (now : ℕ) (sent : ℕ → Bool) : Prop where
  clean : ∀ b, Arrives s.pMem fresh (.dgram src d) b → Clean b.len b (sendepTouches b)
  returns : ∃ ret t,
    (sendepHandleCanRecv true s fresh (.dgram src d) now sent).res = .ok (ret, t) ∧
    (SendepInvalid d →
      Silent (sendepHandleCanRecv true s fresh (.dgram src d) now sent).evs ret ∧
        SameTable s t) ∧
    Idle t.pMem

/-! ### Datagrams that do no damage -/

/-- The packet is beyond the limitation of the reorder buffer. -/
def Beyond (s : RecvSock) (q : ℕ) : Prop :=
  s.unvalidPkgBegin ≠ 0 ∧ s.unvalidPkgBegin ≤ q ∧ s.unvalidPkgEnd < q ∧
    unorderedPkgsCnt < sub64 q s.latestRecvedValidSeqNo

/-- A data packet that is long enough and is either repeated, or has the right length and is the
next one, with a payload, or one for which there is a free slot within the limitation. -/
def OdataFits (s : RecvSock) (d : List UInt8) : Prop :=
  16 ≤ d.length ∧
    if word 0 d = u64 (1 + s.latestRecvedValidSeqNo) then hdrLen d = d.length ∧ d.length ≠ 16
    else word 0 d ≤ s.latestRecvedValidSeqNo ∨
      hdrLen d = d.length ∧ ¬ Beyond s (word 0 d) ∧
        s.vecUnvalidPkgs (word 0 d % unorderedPkgsCnt) = none

/-- A heartbeat whose number can be read, and that either says nothing new or is a whole one. -/
def HbFits (s : RecvSock) (d : List UInt8) : Prop :=
  16 ≤ d.length ∧
    (word 0 d ≤ s.latestRecvedValidSeqNo ∨ 24 ≤ d.length ∧ hdrLen d = d.length)

def RecvepFits (s : RecvSock) (d : List UInt8) : Prop :=
  Idle s.pMem ∧ srcId d = s.senderId ∧
    (opcode d = epData ∧ OdataFits s d ∨ opcode d = epHb ∧ HbFits s d)

/-- The slots of the packets from `b` to `e` are filled, up to the first that is not sent. -/
def Loaded (s : SendSock) (sent : ℕ → Bool) (b e : ℕ) : Prop :=
  ∀ r, b ≤ r → r ≤ e → (∀ q, b ≤ q → q < r → sent q = true) →
    s.vecSendWin (r % sendWinSize) ≠ none

/-- An ack that says nothing new: the entry of its receiver has that time and at least that number,
every receiver is live, and the slowest of them has not got as far as the head. -/
def NothingNew (s : SendSock) (seq id now : ℕ) : Prop :=
  (∃ x, s.mapRecvers.lookup id = some x ∧ x.lastUpdateTimeUs = now ∧ seq ≤ x.lastRecvedSeqNo) ∧
    (∀ e ∈ s.mapRecvers, Live now s.maxKeepAliveTimeUs e) ∧
    ∃ n, IsLeast {n | ∃ e ∈ s.mapRecvers, e.2.lastRecvedSeqNo = n} n ∧
      (n < s.validSendingDataHead ∨ u64 (n + 1) = s.validSendingDataHead)

/-- A whole NAK, of the right length, for packets of the window that are there. -/
def NakFits (s : SendSock) (d : List UInt8) (sent : ℕ → Bool) : Prop :=
  32 ≤ d.length ∧ hdrLen d = d.length ∧ s.validSendingDataHead ≤ word 0 d ∧
    word 1 d < s.validSendingDataTail ∧ Loaded s sent (word 0 d) (word 1 d)

/-- A whole ack that is not below the head, and either has the right length or says nothing new. -/
def AckFits (s : SendSock) (d : List UInt8) (now : ℕ) : Prop :=
  24 ≤ d.length ∧ s.validSendingDataHead ≤ word 0 d ∧
    (hdrLen d = d.length ∨ NothingNew s (word 0 d) (word 1 d) now)

def SendepFits (s : SendSock) (d : List UInt8) (now : ℕ) (sent : ℕ → Bool) : Prop :=
  Idle s.pMem ∧ (opcode d = epNak ∧ NakFits s d sent ∨ opcode d = epAck ∧ AckFits s d now)

variable {s t : RecvSock} {w v : SendSock} {m : RecverMap} {b : CMemBlock} {d : List UInt8}
  {ts : List Touch} {n k now : ℕ} {src : SockAddr} {fresh stack : ℕ → UInt8} {io : Sendto}
  {sent : ℕ → Bool}

/-! ### The block a datagram is in -/

theorem clean_strip (h : b.Fits) :
    Clean n b (.strip k :: ts) ↔ k ≤ b.len ∧ Clean n (b.decHeadData k) ts := by
  have hlt : k ≤ b.len → b.offset + k < 2 ^ 32 := fun hk => by
    unfold CMemBlock.Fits maxMemSize at h
    omega
  show ((k ≤ b.len ∧ b.offset + k < 2 ^ 32) ∧ _) ↔ _
  constructor
  · rintro ⟨⟨hk, -⟩, hc⟩
    exact ⟨hk, hc⟩
  · rintro ⟨hk, hc⟩
    exact ⟨⟨hk, hlt hk⟩, hc⟩

/-- The block after a datagram was received: what can be read of the datagram in it. -/
structure Got (b : CMemBlock) (d : List UInt8) : Prop where
  fits : b.Fits
  len : b.len = min d.length maxMemSize
  op : 4 ≤ d.length → b.get8 3 = opcode d
  sid : 5 ≤ d.length → b.get8 4 = srcId d
  word : ∀ i ≤ 2, 16 + 8 * i ≤ d.length → (b.decHeadData 8).get64 (8 * i) = word i d

theorem word_take {i m : ℕ} (h : 16 + 8 * i ≤ m) (d : List UInt8) :
    word i (d.take m) = word i d := by
  unfold word
  rw [List.drop_take, List.take_take, Nat.min_eq_left (by omega)]

theorem got_of_received (h : Received b (d.take maxMemSize)) : Got b d := by
  have hlen : (d.take maxMemSize).length = min d.length maxMemSize := by
    rw [List.length_take, Nat.min_comm]
  have hmax : maxMemSize = 32768 := rfl
  have hget : ∀ i < maxMemSize, (d.take maxMemSize).getD i 0 = d.getD i 0 := fun i hi => by
    rw [List.getD_eq_getElem?_getD, List.getD_eq_getElem?_getD, List.getElem?_take_of_lt hi]
  refine ⟨?_, h.len.trans hlen, fun hd => ?_, fun hd => ?_, fun i hi hd => ?_⟩
  · unfold CMemBlock.Fits
    rw [h.offset, h.len, hlen]
    omega
  · rw [h.get8_opcode (by omega)]
    exact hget 3 (by omega)
  · rw [h.get8_srcId (by omega)]
    exact hget 4 (by omega)
  · rw [h.get64 i (by omega), word_take (by omega)]

/-- **A datagram is received** into a block, the same however it is looked for, or the process ends:
in a socket that is not idle, or on an empty datagram. -/
theorem arrives_cases (pMem : Option CMemBlock) (fresh : ℕ → UInt8) (src : SockAddr)
    (d : List UInt8) :
    (Idle pMem ∧ d ≠ [] ∧
      ∃ b, (takeMem pMem fresh >>= fun c => udpRecv c (.dgram src d)) = pure (.suc, b, src) ∧
        Got b d ∧ ∀ b', Arrives pMem fresh (.dgram src d) b' → b' = b) ∨
      ¬ (Idle pMem ∧ d ≠ []) ∧
        ∃ f, (takeMem pMem fresh >>= fun c => udpRecv c (.dgram src d)) = Eff.abort f := by
  by_cases hok : Idle pMem ∧ d ≠ []
  · obtain ⟨hidle, hd⟩ := hok
    obtain ⟨b, hb, h1, h2, h3⟩ := takeMem_udpRecv hidle fresh src hd
    refine Or.inl ⟨hidle, hd, b, hb, got_of_received ⟨h1, h2, h3⟩, ?_⟩
    rintro b' ⟨src', hb'⟩
    rw [hb] at hb'
    cases hb'
    rfl
  · have hbusy : ¬ Idle pMem ∨ d = [] := by
      by_contra h
      simp only [not_or, not_not] at h
      exact hok h
    exact Or.inr ⟨hok, takeMem_udpRecv_abort hbusy fresh src⟩

theorem not_silent {evs : List Ev} {ret : Cmnerr} (h1 : ret ≠ .suc) (h2 : ret ≠ .recvPending) :
    ¬ Silent evs ret :=
  fun h => h.2.elim h1 h2

theorem clean_data (h : b.Fits) :
    Clean b.len b [.strip 8, .read 3 1, .read 4 1, .strip 8, .read 8 8] ↔ 16 ≤ b.len := by
  rw [clean_strip h]
  constructor
  · rintro ⟨h8, -, -, hs⟩
    obtain ⟨hf, -, -⟩ := h.decHeadData h8
    obtain ⟨-, hread, -⟩ := (clean_strip hf).mp hs
    exact hread
  · intro h16
    obtain ⟨hf, -, hl⟩ := h.decHeadData (n := 8) (by omega)
    refine ⟨by omega, by omega, by omega, (clean_strip hf).mpr ⟨by omega, by omega, trivial⟩⟩

theorem clean_hb (h : b.Fits) :
    Clean b.len b [.strip 8, .read 3 1, .read 4 1, .read 8 8] ↔ 16 ≤ b.len := by
  rw [clean_strip h]
  constructor
  · rintro ⟨-, -, -, hread, -⟩
    exact hread
  · intro h16
    exact ⟨by omega, by omega, by omega, by omega, trivial⟩

theorem clean_nak (h : b.Fits) : Clean b.len b
    [.read 3 1, .strip 8, .strip 24, .read 24 8, .read 8 8, .read 16 8] ↔ 32 ≤ b.len := by
  constructor
  · rintro ⟨-, hs⟩
    obtain ⟨h8, hs⟩ := (clean_strip h).mp hs
    obtain ⟨hf, -, -⟩ := h.decHeadData h8
    obtain ⟨-, hread, -⟩ := (clean_strip hf).mp hs
    exact hread
  · intro h32
    obtain ⟨hf, -, hl⟩ := h.decHeadData (n := 8) (by omega)
    refine ⟨by omega, (clean_strip h).mpr ⟨by omega, (clean_strip hf).mpr ⟨by omega, ?_⟩⟩⟩
    exact ⟨by omega, by omega, by omega, trivial⟩

theorem clean_ack (h : b.Fits) :
    Clean b.len b [.read 3 1, .strip 8, .strip 16, .read 16 8, .read 8 8] ↔ 24 ≤ b.len := by
  constructor
  · rintro ⟨-, hs⟩
    obtain ⟨h8, hs⟩ := (clean_strip h).mp hs
    obtain ⟨hf, -, -⟩ := h.decHeadData h8
    obtain ⟨-, hread, -⟩ := (clean_strip hf).mp hs
    exact hread
  · intro h24
    obtain ⟨hf, -, hl⟩ := h.decHeadData (n := 8) (by omega)
    refine ⟨by omega, (clean_strip h).mpr ⟨by omega, (clean_strip hf).mpr ⟨by omega, ?_⟩⟩⟩
    exact ⟨by omega, by omega, trivial⟩

/-! ### A receiver -/

theorem activate_pMem (s : RecvSock) : (activate s).pMem = s.pMem := by
  simp only [activate]
  split_ifs <;> rfl

/-- **What `recvep_handle_odata` does** in any state, with any number in the packet. -/
theorem odata_cases (s : RecvSock) (b : CMemBlock) :
    (b.get64 0 = u64 (1 + s.latestRecvedValidSeqNo) ∧
      ∃ t, recvepHandleOdata s b = pure (.odataReady, t) ∧ t.pMem = some (b.decHeadData 8)) ∨
    b.get64 0 ≠ u64 (1 + s.latestRecvedValidSeqNo) ∧
      (b.get64 0 ≤ s.latestRecvedValidSeqNo ∧
          recvepHandleOdata s b = pure (.suc, { s with pMem := some (b.decHeadData 8).reset }) ∨
        s.latestRecvedValidSeqNo < b.get64 0 ∧
          ((Beyond s (b.get64 0) ∨ s.vecUnvalidPkgs (b.get64 0 % unorderedPkgsCnt) ≠ none) ∧
              (∃ f, recvepHandleOdata s b = Eff.abort f) ∨
            ¬ Beyond s (b.get64 0) ∧ s.vecUnvalidPkgs (b.get64 0 % unorderedPkgsCnt) = none ∧
              ∃ t, recvepHandleOdata s b = pure (.suc, t) ∧ t.pMem = none ∧
                t.vecUnvalidPkgs (b.get64 0 % unorderedPkgsCnt) ≠ none)) := by
  set q := b.get64 0 with hq
  have hwiden : Beyond s q ∧ widen s q = Eff.abort .beyondLimitation ∨
      ¬ Beyond s q ∧ ∃ t, widen s q = pure t ∧ t.vecUnvalidPkgs = s.vecUnvalidPkgs := by
    unfold widen Beyond
    by_cases h0 : s.unvalidPkgBegin = 0
    · right
      rw [if_pos h0]
      exact ⟨fun h => h.1 h0, _, rfl, rfl⟩
    by_cases h1 : q < s.unvalidPkgBegin
    · right
      rw [if_neg h0, if_pos h1]
      exact ⟨fun h => by omega, _, rfl, rfl⟩
    by_cases h2 : s.unvalidPkgEnd < q
    · rw [if_neg h0, if_neg h1, if_pos h2]
      by_cases h3 : unorderedPkgsCnt < sub64 q s.latestRecvedValidSeqNo
      · rw [if_pos h3]
        exact Or.inl ⟨⟨h0, by omega, h2, h3⟩, rfl⟩
      · rw [if_neg h3]
        exact Or.inr ⟨fun h => h3 h.2.2.2, _, rfl, rfl⟩
    · right
      rw [if_neg h0, if_neg h1, if_neg h2]
      exact ⟨fun h => h2 h.2.2.1, _, rfl, rfl⟩
  unfold recvepHandleOdata
  simp only [← hq]
  by_cases hnext : q = u64 (1 + s.latestRecvedValidSeqNo)
  · left
    refine ⟨hnext, ?_⟩
    rw [if_pos hnext]
    split_ifs
    · exact ⟨_, rfl, activate_pMem _⟩
    · exact ⟨_, rfl, rfl⟩
  · right
    refine ⟨hnext, ?_⟩
    rw [if_neg hnext]
    by_cases hold : q ≤ s.latestRecvedValidSeqNo
    · rw [if_pos hold]
      exact Or.inl ⟨hold, rfl⟩
    · rw [if_neg hold]
      refine Or.inr ⟨Nat.not_le.mp hold, ?_⟩
      rcases hwiden with ⟨hb, hw⟩ | ⟨hb, t, hw, hvec⟩
      · rw [hw, Eff.abort_bind]
        exact Or.inl ⟨Or.inl hb, _, rfl⟩
      · rw [hw, Eff.pure_bind, hvec]
        by_cases hfree : s.vecUnvalidPkgs (q % unorderedPkgsCnt) = none
        · rw [Eff.require_pos hfree, Eff.pure_bind]
          refine Or.inr ⟨hb, hfree, _, rfl, rfl, ?_⟩
          simp
        · rw [Eff.require_neg hfree, Eff.abort_bind]
          exact Or.inl ⟨Or.inr hfree, _, rfl⟩

theorem drain_mem (stack : ℕ → UInt8) (io : Sendto) : ∀ (k : ℕ) {s u : RecvSock},
    s.pMem.filter (0 < ·.len) = none → (drain stack io k s).res = .ok u → u.pMem = s.pMem
  | 0, s, u, _, hu => by
    cases hu
    rfl
  | k + 1, s, u, hmem, hu => by
    by_cases hv : 0 < s.validPkgBegin ∧ s.validPkgBegin ≤ s.validPkgEnd
    · rw [drain_some (getNext_slot hmem hv stack io)] at hu
      have hrest : (drain stack io k _).res = .ok u := hu
      have hpMem := drain_mem stack io k (by exact hmem) hrest
      exact hpMem
    · rw [drain_none hmem hv] at hu
      exact ((setAck_quiet _ false stack io).ok u hu).pMem

theorem setAck_sent (s : RecvSock) (flag : Bool) (stack : ℕ → UInt8) :
    ∃ u, (setAck s flag stack .sent).res = .ok u := by
  simp only [setAck]
  by_cases h : 0 < s.latestRecvedValidSeqNo ∧
      (flag ∨ s.sendAckCnt ≤ sub64 s.latestRecvedValidSeqNo s.appConfirmAckTmp)
  · rw [if_pos h]
    exact ⟨_, rfl⟩
  · rw [if_neg h]
    exact ⟨_, rfl⟩

/-- With a kernel that takes every ack, the calls of `get_next_recved_data` return. -/
theorem drain_returns (stack : ℕ → UInt8) : ∀ (k : ℕ) {s : RecvSock},
    s.pMem.filter (0 < ·.len) = none → ∃ u, (drain stack .sent k s).res = .ok u
  | 0, s, _ => ⟨s, rfl⟩
  | k + 1, s, hmem => by
    by_cases hv : 0 < s.validPkgBegin ∧ s.validPkgBegin ≤ s.validPkgEnd
    · rw [drain_some (getNext_slot hmem hv stack .sent)]
      exact drain_returns stack k hmem
    · rw [drain_none hmem hv]
      exact setAck_sent _ false stack

theorem leaves_ready {c : CMemBlock} (hmem : t.pMem = some c) (hc : c.len = 0 → c.offset ≠ 0) :
    RecvepLeaves .odataReady t ↔ 0 < c.len := by
  unfold RecvepLeaves
  rw [if_pos rfl]
  constructor
  · intro h
    by_contra hlen
    have hlen0 : c.len = 0 := by omega
    have hfil : t.pMem.filter (0 < ·.len) = none := by
      rw [hmem, Option.filter_some, if_neg (by simp [hlen0])]
    obtain ⟨u, hu⟩ := drain_returns (fun _ => 0) (drainFuel t) hfil
    have hidle := h _ _ u hu
    rw [drain_mem _ _ _ hfil hu, hmem] at hidle
    exact hc hlen0 (hidle c rfl).2
  · intro hlen stack io u hu
    unfold drainFuel at hu
    rw [drain_some (getNext_mem hmem hlen stack io)] at hu
    have hnone := drain_mem stack io _ (s := { t with pMem := none }) rfl hu
    intro b hb
    rw [hnone] at hb
    cases hb

theorem touches_data (hop : b.get8 3 = epData) (hsid : b.get8 4 = s.senderId) :
    recvepTouches s.senderId b = [.strip 8, .read 3 1, .read 4 1, .strip 8, .read 8 8] := by
  simp [recvepTouches, hop, hsid]

theorem touches_hb (hop : b.get8 3 = epHb) (hsid : b.get8 4 = s.senderId) :
    recvepTouches s.senderId b = [.strip 8, .read 3 1, .read 4 1, .read 8 8] := by
  have hne : ¬ epHb = epData := by decide
  simp [recvepTouches, hop, hsid, hne]

/-- What is asked of a pass on the block `b`. -/
def RecvepPass (s : RecvSock) (d : List UInt8) (b : CMemBlock)
    (x : Eff Ev Fault (Cmnerr × RecvSock)) : Prop :=
  Clean b.len b (recvepTouches s.senderId b) ∧
    ∃ ret t, x.res = .ok (ret, t) ∧
      (RecvepInvalid s.senderId d → Silent x.evs ret ∧ SameBuffer s t) ∧ RecvepLeaves ret t

theorem recvepInvalid_iff {op senderId : UInt8} {size : ℕ} (hop : opcode d = op)
    (hown : op = epData ∨ op = epHb) (hsize : pkgSize op = size) (hsid : srcId d = senderId)
    (h8 : 8 ≤ d.length) :
    RecvepInvalid senderId d ↔ ¬ (size ≤ d.length ∧ hdrLen d = d.length) := by
  unfold RecvepInvalid
  rw [hop, hsize]
  constructor
  · rintro (h | h | h | h | h) ⟨hle, hok⟩
    · omega
    · exact hown.elim h.1 h.2
    · exact h hsid
    · omega
    · exact h hok
  · intro h
    by_cases hle : size ≤ d.length
    · exact Or.inr (Or.inr (Or.inr (Or.inr fun hok => h ⟨hle, hok⟩)))
    · exact Or.inr (Or.inr (Or.inr (Or.inl (by omega))))

theorem data_iff (hg : Got b d) (h8 : 8 ≤ d.length)
    (hop : b.get8 3 = epData ∧ b.get8 4 = s.senderId) :
    RecvepPass s d b (recvepHandleOdata { s with pMem := some b, addrSender := src }
      (b.decHeadData 8)) ↔ OdataFits s d := by
  have hopd : opcode d = epData := (hg.op (by omega)).symm.trans hop.1
  have hsid : srcId d = s.senderId := (hg.sid (by omega)).symm.trans hop.2
  have hmax : maxMemSize = 32768 := rfl
  have hlen := hg.len
  unfold RecvepPass OdataFits
  rw [touches_data hop.1 hop.2, clean_data hg.fits]
  by_cases h16 : 16 ≤ d.length
  swap
  · exact iff_of_false (fun h => by omega) fun h => h16 h.1
  have h16' : 16 ≤ b.len := by omega
  rw [recvepInvalid_iff hopd (Or.inl rfl) (show pkgSize epData = 16 from rfl) hsid h8]
  simp only [h16, h16', true_and]
  have hq : (b.decHeadData 8).get64 0 = word 0 d := hg.word 0 (by omega) (by omega)
  have hcase := odata_cases { s with pMem := some b, addrSender := src } (b.decHeadData 8)
  rw [hq] at hcase
  rcases hcase with ⟨hnext, t, ht, hmem⟩ | ⟨hne, ⟨hold, ht⟩ |
    ⟨hgt, ⟨hbad, f, hf⟩ | ⟨hfar, hfree, t, ht, hmem, hslot⟩⟩⟩
  · -- the next packet
    have hnext' : word 0 d = u64 (1 + s.latestRecvedValidSeqNo) := hnext
    obtain ⟨hf1, ho1, hl1⟩ := hg.fits.decHeadData (n := 8) (by omega)
    obtain ⟨-, ho2, hl2⟩ := hf1.decHeadData (n := 8) (by omega)
    rw [ht, if_pos hnext']
    have hleave := leaves_ready hmem fun _ => by rw [ho2]; omega
    constructor
    · rintro ⟨ret, t', hres, hdrop, hl⟩
      cases hres
      have hlen' := hleave.mp hl
      refine ⟨?_, by omega⟩
      by_contra hbad
      exact not_silent (by decide) (by decide) (hdrop hbad).1
    · rintro ⟨hok, hne⟩
      exact ⟨_, _, rfl, fun hbad => absurd hok hbad, hleave.mpr (by omega)⟩
  · -- a repeated packet
    have hne' : ¬ word 0 d = u64 (1 + s.latestRecvedValidSeqNo) := hne
    have hold' : word 0 d ≤ s.latestRecvedValidSeqNo := hold
    rw [ht, if_neg hne']
    refine iff_of_true ⟨_, _, rfl, fun _ => ⟨⟨rfl, Or.inl rfl⟩, rfl, rfl, rfl, rfl, rfl, rfl⟩, ?_⟩
      (Or.inl hold')
    intro c hc
    cases hc
    exact ⟨rfl, rfl⟩
  · -- one of the two asserts
    have hne' : ¬ word 0 d = u64 (1 + s.latestRecvedValidSeqNo) := hne
    have hgt' : s.latestRecvedValidSeqNo < word 0 d := hgt
    have hbad' : Beyond s (word 0 d) ∨
        s.vecUnvalidPkgs (word 0 d % unorderedPkgsCnt) ≠ none := hbad
    rw [hf, if_neg hne']
    refine iff_of_false (fun ⟨ret, t, hres, _⟩ => by cases hres) fun h => ?_
    rcases h with h | ⟨-, h1, h2⟩
    · omega
    · rcases hbad' with hb | hb
      · exact h1 hb
      · exact hb h2
  · -- a packet that is stored
    have hne' : ¬ word 0 d = u64 (1 + s.latestRecvedValidSeqNo) := hne
    have hgt' : s.latestRecvedValidSeqNo < word 0 d := hgt
    have hfar' : ¬ Beyond s (word 0 d) := hfar
    have hfree' : s.vecUnvalidPkgs (word 0 d % unorderedPkgsCnt) = none := hfree
    rw [ht, if_neg hne']
    constructor
    · rintro ⟨ret, t', hres, hdrop, -⟩
      cases hres
      refine Or.inr ⟨?_, hfar', hfree'⟩
      by_contra hbad
      obtain ⟨-, hsame⟩ := hdrop hbad
      rw [hsame.vecUnvalidPkgs] at hslot
      exact hslot hfree'
    · rintro (hle | ⟨hok, -⟩)
      · omega
      · refine ⟨_, _, rfl, fun hbad => absurd hok hbad, ?_⟩
        intro c hc
        rw [hmem] at hc
        cases hc

theorem hb_iff (hg : Got b d) (h8 : 8 ≤ d.length)
    (hop : b.get8 3 = epHb ∧ b.get8 4 = s.senderId) :
    RecvepPass s d b (recvepHandleHb { s with pMem := some b, addrSender := src }
      (b.decHeadData 8) stack io) ↔ HbFits s d := by
  have hopd : opcode d = epHb := (hg.op (by omega)).symm.trans hop.1
  have hsid : srcId d = s.senderId := (hg.sid (by omega)).symm.trans hop.2
  have hmax : maxMemSize = 32768 := rfl
  have hlen := hg.len
  unfold RecvepPass HbFits
  rw [touches_hb hop.1 hop.2, clean_hb hg.fits]
  by_cases h16 : 16 ≤ d.length
  swap
  · exact iff_of_false (fun h => by omega) fun h => h16 h.1
  have h16' : 16 ≤ b.len := by omega
  rw [recvepInvalid_iff hopd (Or.inr rfl) (show pkgSize epHb = 24 from rfl) hsid h8]
  simp only [h16, h16', true_and]
  have hq : (b.decHeadData 8).get64 0 = word 0 d := hg.word 0 (by omega) (by omega)
  have hidle : ∀ ret : Cmnerr, ret ≠ .odataReady → RecvepLeaves ret
      { s with pMem := some (b.decHeadData 8).reset, addrSender := src } := fun ret hret => by
    unfold RecvepLeaves
    rw [if_neg hret]
    exact idle_reset _
  unfold recvepHandleHb
  simp only [hq]
  by_cases hnew : s.latestRecvedValidSeqNo < word 0 d
  · -- the heartbeat is answered with a NAK
    rw [if_pos hnew]
    have hle : ¬ word 0 d ≤ s.latestRecvedValidSeqNo := by omega
    simp only [hle, false_or]
    constructor
    · rintro ⟨ret, t, hres, hdrop, -⟩
      by_contra hbad
      have hsil := (hdrop hbad).1
      cases io
      · cases hsil.1
      · cases hres
        exact not_silent (by decide) (by decide) hsil
      · cases hres
        exact not_silent (by decide) (by decide) hsil
    · intro hok
      cases io
      · exact ⟨.suc, _, rfl, fun hbad => absurd hok hbad, hidle _ (by decide)⟩
      · exact ⟨.sendPending, _, rfl, fun hbad => absurd hok hbad, hidle _ (by decide)⟩
      · exact ⟨.ioErr, _, rfl, fun hbad => absurd hok hbad, hidle _ (by decide)⟩
  · rw [if_neg hnew]
    have hle : word 0 d ≤ s.latestRecvedValidSeqNo := by omega
    refine iff_of_true ⟨_, _, rfl, fun _ => ⟨⟨rfl, Or.inl rfl⟩, rfl, rfl, rfl, rfl, rfl, rfl⟩,
      hidle _ (by decide)⟩ (Or.inl hle)

/-- **Datagrams to a receiver** that do no damage. -/
theorem recvep_iff (s : RecvSock) (d : List UInt8) (src : SockAddr) (fresh stack : ℕ → UInt8)
    (io : Sendto) : RecvepHarmless s d src fresh stack io ↔ RecvepFits s d := by
  rcases arrives_cases s.pMem fresh src d with ⟨hidle, -, b, hb, hg, huniq⟩ | ⟨hok, f, hf⟩
  swap
  · refine iff_of_false (fun h => ?_) fun ⟨hidle, _, h⟩ => hok ⟨hidle, ?_⟩
    · obtain ⟨ret, t, hres, -⟩ := h.returns
      unfold recvepHandleCanRecv at hres
      rw [← Eff.bind_assoc, hf, Eff.abort_bind] at hres
      cases hres
    · rintro rfl
      rcases h with ⟨-, h16, -⟩ | ⟨-, h16, -⟩
      · simp at h16
      · simp at h16
  have hx : recvepHandleCanRecv s fresh stack (.dgram src d) io =
      recvepHandlePkg { s with pMem := some b } b src stack io := by
    unfold recvepHandleCanRecv
    rw [← Eff.bind_assoc, hb, Eff.pure_bind]
    rfl
  have hpass : RecvepHarmless s d src fresh stack io ↔
      RecvepPass s d b (recvepHandlePkg { s with pMem := some b } b src stack io) := by
    constructor
    · rintro ⟨hc, hr⟩
      rw [hx] at hr
      exact ⟨hc b ⟨src, hb⟩, hr⟩
    · rintro ⟨hc, hr⟩
      refine ⟨fun b' hb' => ?_, by rw [hx]; exact hr⟩
      rw [huniq b' hb']
      exact hc
  rw [hpass]
  have hlen := hg.len
  by_cases h8 : 8 ≤ d.length
  swap
  · refine iff_of_false (fun h => ?_) fun ⟨_, _, h⟩ => ?_
    · have h8' := h.1.1.1
      omega
    · rcases h with ⟨-, h16, -⟩ | ⟨-, h16, -⟩
      · omega
      · omega
  have hop := hg.op (by omega)
  have hsid := hg.sid (by omega)
  unfold RecvepFits
  rcases handlePkg_cases { s with pMem := some b } b src stack io with ⟨hp, hbad⟩ | ⟨hgood, hp⟩ |
    ⟨hgood, hp⟩
  · rw [hp]
    refine iff_of_false (fun ⟨_, ret, t, hres, _⟩ => by cases hres) fun ⟨_, h1, h2⟩ => hbad ?_
    rcases h2 with ⟨h2, -⟩ | ⟨h2, -⟩
    · exact ⟨Or.inl (hop.trans h2), hsid.trans h1⟩
    · exact ⟨Or.inr (hop.trans h2), hsid.trans h1⟩
  · have hiff : RecvepPass s d b (recvepHandlePkg { s with pMem := some b } b src stack io) ↔
        OdataFits s d := by
      rw [hp]
      exact data_iff hg h8 hgood
    rw [hiff]
    have h1 : opcode d = epData := hop.symm.trans hgood.1
    have h2 : srcId d = s.senderId := hsid.symm.trans hgood.2
    have h3 : ¬ epData = epHb := by decide
    simp only [h1, h2, h3, hidle, true_and, false_and, or_false]
  · have hiff : RecvepPass s d b (recvepHandlePkg { s with pMem := some b } b src stack io) ↔
        HbFits s d := by
      rw [hp]
      exact hb_iff hg h8 hgood
    rw [hiff]
    have h1 : opcode d = epHb := hop.symm.trans hgood.1
    have h2 : srcId d = s.senderId := hsid.symm.trans hgood.2
    have h3 : ¬ epHb = epData := by decide
    simp only [h1, h2, h3, hidle, true_and, false_and, false_or]

/-! ### A sender -/

theorem touches_nak (hop : b.get8 3 = epNak) : sendepTouches b =
    [.read 3 1, .strip 8, .strip 24, .read 24 8, .read 8 8, .read 16 8] := by
  simp [sendepTouches, hop]

theorem touches_ack (hop : b.get8 3 = epAck) : sendepTouches b =
    [.read 3 1, .strip 8, .strip 16, .read 16 8, .read 8 8] := by
  have hne : ¬ epAck = epNak := by decide
  simp [sendepTouches, hop, hne]

/-- What is asked of a pass on the block `b`. -/
def SendepPass (s : SendSock) (d : List UInt8) (b : CMemBlock)
    (x : Eff Ev Fault (Cmnerr × SendSock)) : Prop :=
  Clean b.len b (sendepTouches b) ∧
    ∃ ret t, x.res = .ok (ret, t) ∧
      (SendepInvalid d → Silent x.evs ret ∧ SameTable s t) ∧ Idle t.pMem

/-- The loop over the packets asked for ends in a `NULL` block unless every slot it comes to is
filled. -/
theorem retransmit_returns (w : SendSock) (sent : ℕ → Bool) : ∀ k q, q + k ≤ 2 ^ 64 →
    ((∃ ret, (retransmit w sent k q).res = .ok ret) ↔
      ∀ r, q ≤ r → r < q + k → (∀ p, q ≤ p → p < r → sent p = true) →
        w.vecSendWin (r % sendWinSize) ≠ none)
  | 0, q, _ => iff_of_true ⟨.suc, rfl⟩ fun r h1 h2 => by omega
  | k + 1, q, hk => by
    unfold retransmit
    rcases hslot : w.vecSendWin (q % sendWinSize) with _ | c
    · refine iff_of_false ?_ fun h => ?_
      · rintro ⟨ret, hret⟩
        cases hret
      · exact h q (Nat.le_refl _) (by omega) (fun p h1 h2 => by omega) hslot
    · have hq : w.vecSendWin (q % sendWinSize) ≠ none := by
        rw [hslot]
        exact fun h => by cases h
      cases hsent : sent q
      · refine iff_of_true ⟨.ioErr, rfl⟩ fun r h1 h2 h3 => ?_
        rcases Nat.eq_or_lt_of_le h1 with rfl | hlt
        · exact hq
        · have hfirst := h3 q (Nat.le_refl _) hlt
          rw [hsent] at hfirst
          cases hfirst
      · have hstep : (∃ ret, (retransmit w sent k (u64 (q + 1))).res = .ok ret) ↔
            ∀ r, q + 1 ≤ r → r < q + 1 + k → (∀ p, q + 1 ≤ p → p < r → sent p = true) →
              w.vecSendWin (r % sendWinSize) ≠ none := by
          by_cases h0 : k = 0
          · subst h0
            exact iff_of_true ⟨.suc, rfl⟩ fun r h1 h2 => by omega
          · rw [u64_of_lt (by omega)]
            exact retransmit_returns w sent k (q + 1) (by omega)
        have hret : (∃ ret, (udpSend .sent c.data w.addrMulticast >>= fun ret =>
            if ret ≠ .suc then pure ret else retransmit w sent k (u64 (q + 1))).res = .ok ret) ↔
            ∃ ret, (retransmit w sent k (u64 (q + 1))).res = .ok ret := Iff.rfl
        simp only [if_true]
        rw [hret, hstep]
        constructor
        · intro h r h1 h2 h3
          rcases Nat.eq_or_lt_of_le h1 with rfl | hlt
          · exact hq
          · exact h r hlt (by omega) fun p hp1 hp2 => h3 p (by omega) hp2
        · intro h r h1 h2 h3
          refine h r (by omega) (by omega) fun p hp1 hp2 => ?_
          rcases Nat.eq_or_lt_of_le hp1 with rfl | hlt
          · exact hsent
          · exact h3 p hlt hp2

theorem retransmit_loaded (w : SendSock) (sent : ℕ → Bool) {b e : ℕ} (he : e < 2 ^ 64) :
    (∃ ret, (retransmit w sent (e + 1 - b) b).res = .ok ret) ↔ Loaded w sent b e := by
  rcases Nat.lt_or_ge e b with hlt | hle
  · rw [show e + 1 - b = 0 by omega]
    exact iff_of_true ⟨.suc, rfl⟩ fun r h1 h2 => by omega
  · rw [retransmit_returns w sent (e + 1 - b) b (by omega)]
    constructor
    · intro h r h1 h2 h3
      exact h r h1 (by omega) h3
    · intro h r h1 h2 h3
      exact h r h1 (by omega) h3

theorem nakTable_ne (s : SendSock) (id now : ℕ) : nakTable id now (s.table id) ≠ s.mapRecvers := by
  intro h
  obtain ⟨x, -, hx⟩ := at_table_eq_iff.mp h
  have hnaks : u32 (x.naks + 1) = x.naks := congrArg SRecverInfo.naks hx
  unfold u32 at hnaks
  omega

theorem sendepInvalid_iff {op : UInt8} {size : ℕ} (hop : opcode d = op)
    (hown : op = epAck ∨ op = epNak) (hsize : pkgSize op = size) (h : size ≤ d.length)
    (h8 : 8 ≤ d.length) : SendepInvalid d ↔ hdrLen d ≠ d.length := by
  unfold SendepInvalid
  rw [hop, hsize]
  constructor
  · rintro (h1 | h1 | h1 | h1)
    · omega
    · rcases hown with h2 | h2
      · exact absurd h2 h1.1
      · exact absurd h2 h1.2
    · omega
    · exact h1
  · exact fun h => Or.inr (Or.inr (Or.inr h))

theorem nak_iff (hg : Got b d) (h8 : 8 ≤ d.length) (hop : b.get8 3 = epNak) :
    SendepPass w d b (sendepHandleNak true { w with pMem := some b } (b.decHeadData 8) now sent) ↔
      NakFits w d sent := by
  have hopd : opcode d = epNak := (hg.op (by omega)).symm.trans hop
  have hmax : maxMemSize = 32768 := rfl
  have hlen := hg.len
  unfold SendepPass NakFits
  rw [touches_nak hop, clean_nak hg.fits]
  by_cases h32 : 32 ≤ d.length
  swap
  · exact iff_of_false (fun h => by omega) fun h => h32 h.1
  have h32' : 32 ≤ b.len := by omega
  rw [sendepInvalid_iff hopd (Or.inr rfl) rfl h32 h8]
  simp only [h32, h32', true_and]
  have h0 : (b.decHeadData 8).get64 0 = word 0 d := hg.word 0 (by omega) (by omega)
  have h1 : (b.decHeadData 8).get64 8 = word 1 d := hg.word 1 (by omega) (by omega)
  have h2 : (b.decHeadData 8).get64 16 = word 2 d := hg.word 2 (by omega) (by omega)
  obtain ⟨x, y, hcount⟩ := countNak_eq { w with pMem := some b } (word 2 d) now
  unfold sendepHandleNak
  simp only [h0, h1, h2, hcount, table_pMem]
  by_cases hout : word 0 d < w.validSendingDataHead ∨ w.validSendingDataTail ≤ word 1 d
  · rw [if_pos hout]
    refine iff_of_false ?_ ?_
    · rintro ⟨ret, t, hres, -⟩
      cases hres
    · rintro ⟨-, h3, h4, -⟩
      omega
  rw [if_neg hout]
  have hloop := retransmit_loaded { w with
    mapRecvers := nakTable (word 2 d) now (w.table (word 2 d))
    naks := x
    sendSpeed := y
    pMem := some ((b.decHeadData 8).decHeadData 24).reset } sent (b := word 0 d) (word_lt 1 d)
  have hload : Loaded { w with
    mapRecvers := nakTable (word 2 d) now (w.table (word 2 d))
    naks := x
    sendSpeed := y
    pMem := some ((b.decHeadData 8).decHeadData 24).reset } sent (word 0 d) (word 1 d) ↔
      Loaded w sent (word 0 d) (word 1 d) := Iff.rfl
  rw [hload] at hloop
  constructor
  · rintro ⟨ret, t, hres, hdrop, -⟩
    rcases hr : (retransmit { w with
      mapRecvers := nakTable (word 2 d) now (w.table (word 2 d))
      naks := x
      sendSpeed := y
      pMem := some ((b.decHeadData 8).decHeadData 24).reset } sent (word 1 d + 1 - word 0 d)
        (word 0 d)).res with f | ret'
    · rw [Eff.bind_of_error hr] at hres
      cases hres
    · rw [Eff.bind_of_ok hr] at hres
      cases hres
      refine ⟨?_, by omega, by omega, hloop.mp ⟨_, hr⟩⟩
      by_contra hbad
      obtain ⟨-, hsame⟩ := hdrop hbad
      exact nakTable_ne _ _ _ hsame.mapRecvers
  · rintro ⟨hok, -, -, hl⟩
    obtain ⟨ret, hr⟩ := hloop.mpr hl
    rw [Eff.bind_of_ok hr]
    exact ⟨_, _, rfl, fun hbad => absurd hok hbad, idle_reset _⟩

/-- The change that an ack makes to the entry of its receiver. -/
def credit (seq now : ℕ) (x : SRecverInfo) : SRecverInfo :=
  { x with
    lastUpdateTimeUs := now
    lastRecvedSeqNo := if seq < x.lastRecvedSeqNo then x.lastRecvedSeqNo else seq }

theorem ackTable_eq (seq id now : ℕ) (m : RecverMap) :
    ackTable seq id now m = RecverMap.at id (credit seq now) m := at_at _ _ _ _

theorem credit_eq_self {seq : ℕ} {x : SRecverInfo} :
    credit seq now x = x ↔ x.lastUpdateTimeUs = now ∧ seq ≤ x.lastRecvedSeqNo := by
  constructor
  · intro h
    have htime : now = x.lastUpdateTimeUs := congrArg SRecverInfo.lastUpdateTimeUs h
    have hnum : (if seq < x.lastRecvedSeqNo then x.lastRecvedSeqNo else seq) =
        x.lastRecvedSeqNo := congrArg SRecverInfo.lastRecvedSeqNo h
    refine ⟨htime.symm, ?_⟩
    split_ifs at hnum
    · omega
    · omega
  · rintro ⟨rfl, hseq⟩
    have hnum : (if seq < x.lastRecvedSeqNo then x.lastRecvedSeqNo else seq) =
        x.lastRecvedSeqNo := by
      split_ifs
      · rfl
      · omega
    simp only [credit, hnum]

/-- **An ack leaves the table as it is** exactly if it says nothing new of its receiver, and every
receiver is live. -/
theorem pruned_eq_iff {seq id alive : ℕ} (hnow : now < 2 ^ 64) :
    (ackTable seq id now (w.table id)).filter (fun e => Live now alive e) = w.mapRecvers ↔
      (∃ x, w.mapRecvers.lookup id = some x ∧ x.lastUpdateTimeUs = now ∧
          seq ≤ x.lastRecvedSeqNo) ∧
        ∀ e ∈ w.mapRecvers, Live now alive e := by
  have hself : (∃ x, w.mapRecvers.lookup id = some x ∧ x.lastUpdateTimeUs = now ∧
      seq ≤ x.lastRecvedSeqNo) ↔ RecverMap.at id (credit seq now) (w.table id) = w.mapRecvers := by
    rw [at_table_eq_iff]
    simp only [credit_eq_self]
  rw [hself, ackTable_eq]
  constructor
  · intro h
    have hlive : ∀ e ∈ w.mapRecvers, Live now alive e := fun e he => by
      rw [← h, List.mem_filter] at he
      exact by simpa using he.2
    refine ⟨?_, hlive⟩
    -- the entry of `id` is live, and stays
    obtain ⟨x, hx⟩ := at_has (credit seq now) id (w.table id)
    have hl : Live now alive (id, credit seq now x) := by
      show sub64 now now ≤ alive
      rw [sub64_of_le hnow (Nat.le_refl _), Nat.sub_self]
      exact Nat.zero_le _
    have hmem : (id, credit seq now x) ∈ w.mapRecvers := by
      rw [← h, List.mem_filter]
      exact ⟨hx, by simpa using hl⟩
    obtain ⟨y, hy⟩ : ∃ y, w.mapRecvers.lookup id = some y := by
      refine Option.ne_none_iff_exists'.mp fun hnone => ?_
      simpa using List.lookup_eq_none_iff.mp hnone _ hmem
    rw [table_of_has hy] at h ⊢
    have hall : ∀ e ∈ RecverMap.at id (credit seq now) w.mapRecvers, Live now alive e := by
      intro e he
      rcases mem_at he with he | ⟨z, -, rfl⟩
      · exact hlive e he
      · exact hl
    rwa [List.filter_eq_self.mpr fun e he => by simpa using hall e he] at h
  · rintro ⟨h, hlive⟩
    rw [h]
    exact List.filter_eq_self.mpr fun e he => by simpa using hlive e he

/-- **An ack changes nothing** exactly if it says nothing new. -/
theorem nothingNew_iff {seq id mini : ℕ} (hnow : now < 2 ^ 64)
    (hmini : mini = (prune now w.maxKeepAliveTimeUs
      (firstRecved (ackTable seq id now (w.table id))) (ackTable seq id now (w.table id))).1)
    (htab : v.mapRecvers =
      (ackTable seq id now (w.table id)).filter fun e => Live now w.maxKeepAliveTimeUs e)
    (hhead : v.validSendingDataHead =
      if mini < w.validSendingDataHead then w.validSendingDataHead else u64 (mini + 1)) :
    (v.mapRecvers = w.mapRecvers ∧ v.validSendingDataHead = w.validSendingDataHead) ↔
      NothingNew w seq id now := by
  unfold NothingNew
  rw [htab, pruned_eq_iff hnow, and_assoc]
  refine and_congr_right fun hx => and_congr_right fun hlive => ?_
  obtain ⟨x, hx, h1, h2⟩ := hx
  have hsame : ackTable seq id now (w.table id) = w.mapRecvers := by
    rw [ackTable_eq]
    exact at_table_eq_iff.mpr ⟨x, hx, credit_eq_self.mpr ⟨h1, h2⟩⟩
  have hkept : kept now w.maxKeepAliveTimeUs w.mapRecvers =
      {n | ∃ e ∈ w.mapRecvers, e.2.lastRecvedSeqNo = n} := by
    ext n
    constructor
    · rintro ⟨e, he, -, hn⟩
      exact ⟨e, he, hn⟩
    · rintro ⟨e, he, hn⟩
      exact ⟨e, he, hlive e he, hn⟩
  have hleast : IsLeast {n | ∃ e ∈ w.mapRecvers, e.2.lastRecvedSeqNo = n} mini := by
    rw [hmini, hsame, ← hkept]
    refine prune_isLeast_of_mem ?_
    rcases hm : w.mapRecvers with _ | ⟨e, rest⟩
    · rw [hm] at hx
      cases hx
    · exact ⟨e, List.mem_cons_self, hlive e (by rw [hm]; exact List.mem_cons_self), rfl⟩
  have hiff : v.validSendingDataHead = w.validSendingDataHead ↔
      mini < w.validSendingDataHead ∨ u64 (mini + 1) = w.validSendingDataHead := by
    rw [hhead]
    split_ifs with hlow
    · exact iff_of_true rfl (Or.inl hlow)
    · exact ⟨Or.inr, fun h => h.resolve_left hlow⟩
  rw [hiff]
  constructor
  · exact fun h => ⟨mini, hleast, h⟩
  · rintro ⟨n, hn, h⟩
    rwa [hleast.unique hn]

theorem ack_iff (hnow : now < 2 ^ 64) (hg : Got b d) (h8 : 8 ≤ d.length)
    (hop : b.get8 3 = epAck) :
    SendepPass w d b (sendepHandleAck true { w with pMem := some b } (b.decHeadData 8) now) ↔
      AckFits w d now := by
  have hopd : opcode d = epAck := (hg.op (by omega)).symm.trans hop
  have hmax : maxMemSize = 32768 := rfl
  have hlen := hg.len
  unfold SendepPass AckFits
  rw [touches_ack hop, clean_ack hg.fits]
  by_cases h24 : 24 ≤ d.length
  swap
  · exact iff_of_false (fun h => by omega) fun h => h24 h.1
  have h24' : 24 ≤ b.len := by omega
  rw [sendepInvalid_iff hopd (Or.inl rfl) rfl h24 h8]
  simp only [h24, h24', true_and]
  have h0 : (b.decHeadData 8).get64 0 = word 0 d := hg.word 0 (by omega) (by omega)
  have h1 : (b.decHeadData 8).get64 8 = word 1 d := hg.word 1 (by omega) (by omega)
  by_cases hold : word 0 d < w.validSendingDataHead
  · have hab : ∃ f, sendepHandleAck true { w with pMem := some b } (b.decHeadData 8) now =
        Eff.abort f := by
      unfold sendepHandleAck
      simp only [h0, if_pos hold]
      exact ⟨_, rfl⟩
    obtain ⟨f, hf⟩ := hab
    rw [hf]
    refine iff_of_false ?_ fun h => ?_
    · rintro ⟨ret, t, hres, -⟩
      cases hres
    · have hle := h.1
      omega
  have hnew : w.validSendingDataHead ≤ word 0 d := Nat.not_lt.mp hold
  obtain ⟨v, hv, htab, ⟨mini, hmini, hhead⟩, hafter⟩ := ack_block
    (s := { w with pMem := some b }) true (b.decHeadData 8) now (by rw [h0]; exact hnew)
  rw [h0, h1] at htab hmini
  have hiff := nothingNew_iff (w := w) (v := v) hnow hmini htab hhead
  rw [hv]
  constructor
  · rintro ⟨ret, t, hres, hdrop, -⟩
    cases hres
    refine ⟨hnew, ?_⟩
    by_contra hbad
    simp only [not_or] at hbad
    obtain ⟨-, hsame⟩ := hdrop hbad.1
    exact hbad.2 (hiff.mp ⟨hsame.mapRecvers, hsame.head⟩)
  · rintro ⟨-, hok⟩
    refine ⟨_, _, rfl, fun hbad => ?_, hafter.idle⟩
    obtain ⟨hm, hh⟩ := hiff.mpr (hok.resolve_left hbad)
    exact ⟨⟨rfl, Or.inl rfl⟩, hafter.win.vecSendWin, hh, hafter.win.tail, hafter.sendingSeqNo, hm⟩

/-- **Where a datagram goes** in a sender, whatever is in it. -/
theorem sendepHandlePkg_cases (w : SendSock) (b : CMemBlock) (now : ℕ) (sent : ℕ → Bool) :
    b.get8 3 ≠ epNak ∧ b.get8 3 ≠ epAck ∧
        sendepHandlePkg true w b now sent = Eff.abort .sendepHandlePkg ∨
      b.get8 3 = epNak ∧ sendepHandlePkg true w b now sent =
        sendepHandleNak true w (b.decHeadData 8) now sent ∨
      b.get8 3 = epAck ∧ sendepHandlePkg true w b now sent =
        sendepHandleAck true w (b.decHeadData 8) now := by
  simp only [sendepHandlePkg]
  by_cases hnak : b.get8 3 = epNak
  · have hreq : ¬ (b.get8 3 ≠ epAck ∧ b.get8 3 ≠ epNak) := fun h => h.2 hnak
    refine Or.inr (Or.inl ⟨hnak, ?_⟩)
    rw [Eff.require_pos hreq, Eff.pure_bind, if_pos hnak]
  · by_cases hack : b.get8 3 = epAck
    · have hreq : ¬ (b.get8 3 ≠ epAck ∧ b.get8 3 ≠ epNak) := fun h => h.1 hack
      refine Or.inr (Or.inr ⟨hack, ?_⟩)
      rw [Eff.require_pos hreq, Eff.pure_bind, if_neg hnak]
    · have hreq : ¬ ¬ (b.get8 3 ≠ epAck ∧ b.get8 3 ≠ epNak) := not_not.mpr ⟨hack, hnak⟩
      refine Or.inl ⟨hnak, hack, ?_⟩
      rw [Eff.require_neg hreq, Eff.abort_bind]

/-- **Datagrams to a sender** that do no damage. -/
theorem sendep_iff (w : SendSock) (d : List UInt8) (src : SockAddr) (fresh : ℕ → UInt8) {now : ℕ}
    (hnow : now < 2 ^ 64) (sent : ℕ → Bool) :
    SendepHarmless w d src fresh now sent ↔ SendepFits w d now sent := by
  rcases arrives_cases w.pMem fresh src d with ⟨hidle, -, b, hb, hg, huniq⟩ | ⟨hok, f, hf⟩
  swap
  · refine iff_of_false (fun h => ?_) fun ⟨hidle, h⟩ => hok ⟨hidle, ?_⟩
    · obtain ⟨ret, t, hres, -⟩ := h.returns
      unfold sendepHandleCanRecv at hres
      rw [← Eff.bind_assoc, hf, Eff.abort_bind] at hres
      cases hres
    · rintro rfl
      rcases h with ⟨-, h32, -⟩ | ⟨-, h24, -⟩
      · simp at h32
      · simp at h24
  have hx : sendepHandleCanRecv true w fresh (.dgram src d) now sent =
      sendepHandlePkg true { w with pMem := some b } b now sent := by
    unfold sendepHandleCanRecv
    rw [← Eff.bind_assoc, hb, Eff.pure_bind]
    rfl
  have hpass : SendepHarmless w d src fresh now sent ↔
      SendepPass w d b (sendepHandlePkg true { w with pMem := some b } b now sent) := by
    constructor
    · rintro ⟨hc, hr⟩
      rw [hx] at hr
      exact ⟨hc b ⟨src, hb⟩, hr⟩
    · rintro ⟨hc, hr⟩
      refine ⟨fun b' hb' => ?_, by rw [hx]; exact hr⟩
      rw [huniq b' hb']
      exact hc
  rw [hpass]
  have hlen := hg.len
  have hshort : SendepFits w d now sent → 8 ≤ d.length := by
    rintro ⟨-, ⟨-, h32, -⟩ | ⟨-, h24, -⟩⟩
    · omega
    · omega
  unfold SendepFits at hshort ⊢
  rcases sendepHandlePkg_cases { w with pMem := some b } b now sent with ⟨h1, h2, hp⟩ | ⟨hop, hp⟩ |
    ⟨hop, hp⟩
  · rw [hp]
    refine iff_of_false (fun ⟨_, ret, t, hres, _⟩ => by cases hres) fun h => ?_
    have hop := hg.op (by have := hshort h; omega)
    rcases h.2 with ⟨h3, -⟩ | ⟨h3, -⟩
    · exact h1 (hop.trans h3)
    · exact h2 (hop.trans h3)
  · by_cases h8 : 8 ≤ d.length
    swap
    · refine iff_of_false (fun h => ?_) fun h => h8 (hshort h)
      have h32 := h.1
      rw [touches_nak hop, clean_nak hg.fits] at h32
      omega
    have hiff : SendepPass w d b (sendepHandlePkg true { w with pMem := some b } b now sent) ↔
        NakFits w d sent := by
      rw [hp]
      exact nak_iff hg h8 hop
    have h1 : opcode d = epNak := (hg.op (by omega)).symm.trans hop
    have h2 : ¬ epNak = epAck := by decide
    rw [hiff]
    simp only [h1, h2, hidle, true_and, false_and, or_false]
  · by_cases h8 : 8 ≤ d.length
    swap
    · refine iff_of_false (fun h => ?_) fun h => h8 (hshort h)
      have h24 := h.1
      rw [touches_ack hop, clean_ack hg.fits] at h24
      omega
    have hiff : SendepPass w d b (sendepHandlePkg true { w with pMem := some b } b now sent) ↔
        AckFits w d now := by
      rw [hp]
      exact ack_iff hnow hg h8 hop
    have h1 : opcode d = epAck := (hg.op (by omega)).symm.trans hop
    have h2 : ¬ epAck = epNak := by decide
    rw [hiff]
    simp only [h1, h2, hidle, true_and, false_and, false_or]

/-- **Arbitrary datagrams.** A datagram does no damage exactly if the receiver, or the sender, can
take it as it is; nothing checks that it can. -/
theorem harmless_iff (s : RecvSock) (w : SendSock) (d : List UInt8) (src : SockAddr)
    (fresh stack : ℕ → UInt8) (io : Sendto) {now : ℕ} (hnow : now < 2 ^ 64) (sent : ℕ → Bool) :
    (RecvepHarmless s d src fresh stack io ↔ RecvepFits s d) ∧
      (SendepHarmless w d src fresh now sent ↔ SendepFits w d now sent) :=
  ⟨recvep_iff s d src fresh stack io, sendep_iff w d src fresh hnow sent⟩

/-- A receiver of sender 7 and a sender, as they are opened. -/
theorem harmless_iff_opened :
    (RecvepHarmless (Recvep.open 7 1) (odataBytes 7 1 [65]) ⟨9, 9⟩ (fun _ => 0) (fun _ => 0) .sent ↔
      RecvepFits (Recvep.open 7 1) (odataBytes 7 1 [65])) ∧
    (SendepHarmless (Sendep.open ⟨1, 1⟩ 7 1000 0 1000) (odataBytes 7 1 [65]) ⟨9, 9⟩
        (fun _ => 0) 100 (fun _ => true) ↔
      SendepFits (Sendep.open ⟨1, 1⟩ 7 1000 0 1000) (odataBytes 7 1 [65]) 100
        (fun _ => true)) :=
  harmless_iff _ _ _ _ _ _ _ (by omega) _

/-- **A datagram that ends the process.** A receiver that gets an ack fails
`CMN_ASSERT(false)` in `recvep_handle_pkg`. -/
theorem stray_datagrams : ¬ RecvepHarmless (Recvep.open 7 1) (ackBytes (fun _ => 0) 1 5) ⟨9, 9⟩
    (fun _ => 0) (fun _ => 0) .sent ∧
    (recvepHandleCanRecv (Recvep.open 7 1) (fun _ => 0) (fun _ => 0)
      (.dgram ⟨9, 9⟩ (ackBytes (fun _ => 0) 1 5)) .sent).res = .error .recvepHandlePkg := by
  have hres : (recvepHandleCanRecv (Recvep.open 7 1) (fun _ => 0) (fun _ => 0)
      (.dgram ⟨9, 9⟩ (ackBytes (fun _ => 0) 1 5)) .sent).res = .error .recvepHandlePkg := rfl
  refine ⟨fun h => ?_, hres⟩
  obtain ⟨ret, t, hok, -⟩ := h.returns
  rw [hres] at hok
  cases hok

end SmartNet.Network.Rmp.Datagrams

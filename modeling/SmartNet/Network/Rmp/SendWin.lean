import SmartNet.Lib.Ring
import SmartNet.Network.Rmp.Sendep

/-! # The send window

`Window accepted s` says that the sender `s` is the one to which the payloads `accepted` were given:
the packets that are not acknowledged yet are in their slots, and no slot of theirs can be given to
a new packet. Packet `q` carries the payload `payOf accepted q`.

* `send_cases`: `send` refuses a block, or lays it out as the next packet;
* `window_open`, `Window.send`: the window of a new socket, and with one more packet. -/

namespace SmartNet.Network.Rmp.SendWin

open SmartNet.Common SmartNet.Lib SmartNet.Lib.Bytes SmartNet.Lib.Mem SmartNet.Lib.Ring
open SmartNet.Memory.MemBlock SmartNet.Network.Udp SmartNet.Network.Rmp.Wire
open SmartNet.Network.Rmp.Sendep

/-- The payload of packet `q`, for a sender that was given the payloads `accepted`. -/
def payOf (accepted : List (List UInt8)) (q : ℕ) : List UInt8 := accepted.getD (q - 1) []

variable {s : SendSock} {b : CMemBlock} {accepted : List (List UInt8)}

theorem payOf_append {l : List (List UInt8)} {q : ℕ} (h1 : 1 ≤ q) (h2 : q ≤ accepted.length) :
    payOf (accepted ++ l) q = payOf accepted q := by
  unfold payOf
  rw [List.getD_eq_getElem?_getD, List.getD_eq_getElem?_getD, List.getElem?_append_left (by omega)]

theorem payOf_last (accepted : List (List UInt8)) (p : List UInt8) :
    payOf (accepted ++ [p]) (accepted.length + 1) = p := by
  unfold payOf
  rw [Nat.add_sub_cancel, List.getD_eq_getElem?_getD, List.getElem?_concat_length]
  rfl

theorem payOf_ne_nil {q : ℕ} (h : ∀ p ∈ accepted, p ≠ []) (h1 : 1 ≤ q) (h2 : q ≤ accepted.length) :
    payOf accepted q ≠ [] := by
  unfold payOf
  rw [List.getD_eq_getElem?_getD, List.getElem?_eq_getElem (by omega)]
  exact h _ (List.getElem_mem _)

/-! ### Laying out a packet -/

/-- The block that `send` stores. -/
def packet (sid : UInt8) (seq : ℕ) (b : CMemBlock) : CMemBlock :=
  (fillHdr sid { b with offset := 0, len := b.len + 16 }).put 8 (leBytes 8 seq)

theorem opcode_packet (sid : UInt8) (seq : ℕ) (b : CMemBlock) :
    opcode (packet sid seq b).data = epData := by
  set m0 := wr b.bytes (0 + 3) [epData] with hm0
  set m1 := wr m0 (0 + 0) (leBytes 3 (b.len + 16)) with hm1
  set m2 := wr m1 (0 + 4) [sid] with hm2
  have hdata : (packet sid seq b).data = rd (wr m2 (0 + 8) (leBytes 8 seq)) 0 (b.len + 16) := rfl
  rw [hdata, opcode_rd (by omega), wr_of_lt (by omega), hm2, wr_of_lt (by omega), hm1,
    wr_of_ge (by simp), hm0]
  exact wr_add (l := [epData]) (j := 0) (by simp)

/-- **The layout.** The stored block is the data packet of the payload. -/
theorem isOdata_packet (sid : UInt8) {seq : ℕ} (hseq : seq < 2 ^ 64) (ho : b.offset = 16)
    (hf : b.Fits) :
    IsOdata sid seq b.data (packet sid seq b).data := by
  set m0 := wr b.bytes (0 + 3) [epData] with hm0
  set m1 := wr m0 (0 + 0) (leBytes 3 (b.len + 16)) with hm1
  set m2 := wr m1 (0 + 4) [sid] with hm2
  have hdata : (packet sid seq b).data = rd (wr m2 (0 + 8) (leBytes 8 seq)) 0 (b.len + 16) := rfl
  refine ⟨opcode_packet sid seq b, ?_, ?_, ?_, ?_, ?_⟩
  · rw [hdata, srcId_rd (by omega), wr_of_lt (by omega), hm2]
    exact wr_add (l := [sid]) (j := 0) (by simp)
  · rw [hdata, word_rd (by omega), rd_wr_of_length (length_leBytes 8 seq), leNat_leBytes_of_lt]
    exact lt_of_lt_of_le hseq (by norm_num)
  · rw [hdata, payload_rd (by omega), Nat.add_sub_cancel, rd_wr_of_disjoint (by simp), hm2,
      rd_wr_of_disjoint (by simp), hm1, rd_wr_of_disjoint (by simp), hm0,
        rd_wr_of_disjoint (by simp), CMemBlock.data, ho]
  · rw [hdata, length_rd]; omega
  · rw [hdata, length_rd]
    unfold CMemBlock.Fits at hf
    omega

/-- **`send`** refuses the block if the window is full, and otherwise stores it as the next
packet. -/
theorem send_cases (ho : b.offset = 16) (hf : b.Fits) :
    (∃ c, send s b = pure (.noSpace, some c, s) ∧
        u64 (s.validSendingDataTail + 1) % sendWinSize = s.validSendingDataHead % sendWinSize) ∨
      send s b = pure (.suc, none, { s with
        vecSendWin := Function.update s.vecSendWin (s.validSendingDataTail % sendWinSize)
          (some (packet s.senderId s.validSendingDataTail b))
        validSendingDataTail := u64 (s.validSendingDataTail + 1) }) ∧
        u64 (s.validSendingDataTail + 1) % sendWinSize ≠ s.validSendingDataHead % sendWinSize := by
  have h1 : b.incHeadData 8 = (.suc, { b with offset := 8, len := b.len + 8 }) := by
    rw [CMemBlock.incHeadData_of_le hf (by omega), ho]
  have hf' : ({ b with offset := 8, len := b.len + 8 } : CMemBlock).Fits := by
    unfold CMemBlock.Fits at hf ⊢
    show 8 + (b.len + 8) ≤ maxMemSize
    omega
  have h2 : ({ b with offset := 8, len := b.len + 8 } : CMemBlock).incHeadData 8 =
      (.suc, { b with offset := 0, len := b.len + 16 }) :=
    CMemBlock.incHeadData_of_le hf' (Nat.le_refl 8)
  unfold send
  simp only [Eff.require_pos ho, Eff.pure_bind, h1, h2, Eff.require_pos]
  by_cases hfull : u64 (s.validSendingDataTail + 1) % sendWinSize =
    s.validSendingDataHead % sendWinSize
  · rw [if_pos hfull]
    exact Or.inl ⟨_, rfl, hfull⟩
  · rw [if_neg hfull]
    exact Or.inr ⟨rfl, hfull⟩

theorem send_offset (ho : b.offset ≠ 16) : send s b = Eff.abort .sendOffset := by
  unfold send
  rw [Eff.require_neg ho, Eff.abort_bind]

/-! ### The window -/

/-- No receiver in the table has acknowledged more than `B`. -/
def Below (B : ℕ) (m : RecverMap) : Prop := ∀ e ∈ m, e.2.lastRecvedSeqNo ≤ B

/-- **The invariant** of a sender that was given the payloads `accepted`. The last 64-bit number is
given to a packet, but the window is not used after that. -/
structure Window (accepted : List (List UInt8)) (s : SendSock) : Prop where
  lt : accepted.length < 2 ^ 64
  tail : s.validSendingDataTail = u64 (accepted.length + 1)
  sending_le : s.sendingSeqNo ≤ accepted.length
  sending_lt : s.sendingSeqNo < 2 ^ 64 - 1
  head_le : s.validSendingDataHead ≤ s.sendingSeqNo + 1
  room : accepted.length < 2 ^ 64 - 1 → accepted.length + 2 ≤ s.validSendingDataHead + sendWinSize
  held : accepted.length < 2 ^ 64 - 1 →
    Covers sendWinSize s.vecSendWin
      {q | 1 ≤ q ∧ s.validSendingDataHead ≤ q ∧ q ≤ accepted.length}
      (fun q b => IsOdata s.senderId q (payOf accepted q) b.data)
  recved : Below s.sendingSeqNo s.mapRecvers
  idle : Idle s.pMem

/-- The part of the invariant that speaks of the packets and the three counters only. -/
structure Slots (accepted : List (List UInt8)) (s : SendSock) : Prop where
  lt : accepted.length < 2 ^ 64
  tail : s.validSendingDataTail = u64 (accepted.length + 1)
  sending_le : s.sendingSeqNo ≤ accepted.length
  sending_lt : s.sendingSeqNo < 2 ^ 64 - 1
  head_le : s.validSendingDataHead ≤ s.sendingSeqNo + 1
  room : accepted.length < 2 ^ 64 - 1 → accepted.length + 2 ≤ s.validSendingDataHead + sendWinSize
  held : accepted.length < 2 ^ 64 - 1 →
    Covers sendWinSize s.vecSendWin
      {q | 1 ≤ q ∧ s.validSendingDataHead ≤ q ∧ q ≤ accepted.length}
      (fun q b => IsOdata s.senderId q (payOf accepted q) b.data)

theorem Window.slots (h : Window accepted s) : Slots accepted s :=
  ⟨h.lt, h.tail, h.sending_le, h.sending_lt, h.head_le, h.room, h.held⟩

/-- The two states have the same packets in the same places. -/
structure SameWin (s t : SendSock) : Prop where
  senderId : t.senderId = s.senderId
  vecSendWin : t.vecSendWin = s.vecSendWin
  tail : t.validSendingDataTail = s.validSendingDataTail
  addrMulticast : t.addrMulticast = s.addrMulticast
  maxKeepAliveTimeUs : t.maxKeepAliveTimeUs = s.maxKeepAliveTimeUs

variable {t : SendSock}

theorem window_open (mc : SockAddr) (sid : UInt8) (alive speed hb : ℕ) :
    Window [] (Sendep.open mc sid alive speed hb) := by
  refine ⟨by norm_num, rfl, Nat.le_refl 0, by norm_num [Sendep.open], by norm_num [Sendep.open],
    fun _ => ?_,
    fun _ q hq => ?_, fun e he => ?_, fun b hb => ?_⟩
  · show 0 + 2 ≤ 0 + sendWinSize
    decide
  · have h1 := hq.1
    have h2 : q ≤ 0 := hq.2.2
    omega
  · cases he
  · cases hb

theorem Slots.tail_eq (h : Slots accepted s) (hlt : accepted.length < 2 ^ 64 - 1) :
    s.validSendingDataTail = accepted.length + 1 := by
  rw [h.tail, u64_of_lt (by omega)]

theorem Slots.tail_zero (h : Slots accepted s) (heq : accepted.length = 2 ^ 64 - 1) :
    s.validSendingDataTail = 0 := by
  rw [h.tail, heq]; rfl

theorem Window.tail_eq (h : Window accepted s) (hlt : accepted.length < 2 ^ 64 - 1) :
    s.validSendingDataTail = accepted.length + 1 :=
  h.slots.tail_eq hlt

theorem Window.of_sameWin (h : Window accepted s) (hst : SameWin s t)
    (hs : t.sendingSeqNo = s.sendingSeqNo) (hh : s.validSendingDataHead ≤ t.validSendingDataHead)
    (hh' : t.validSendingDataHead ≤ s.sendingSeqNo + 1)
    (hm : Below s.sendingSeqNo t.mapRecvers) (hi : Idle t.pMem) : Window accepted t := by
  refine ⟨h.lt, hst.tail.trans h.tail, hs ▸ h.sending_le, hs ▸ h.sending_lt, by rw [hs]; exact hh',
    fun hlt => ?_,
    fun hlt => ?_, by rw [hs]; exact hm, hi⟩
  · have := h.room hlt
    omega
  · rw [hst.vecSendWin, hst.senderId]
    exact (h.held hlt).mono fun q hq => ⟨hq.1, Nat.le_trans hh hq.2.1, hq.2.2⟩

/-- **A packet is added.** -/
theorem Slots.send (h : Slots accepted s) (ho : b.offset = 16) (hf : b.Fits)
    (hlt : accepted.length + 1 < 2 ^ 64)
    (hfull : u64 (s.validSendingDataTail + 1) % sendWinSize ≠ s.validSendingDataHead %
      sendWinSize) :
    Slots (accepted ++ [b.data]) { s with
      vecSendWin := Function.update s.vecSendWin (s.validSendingDataTail % sendWinSize)
        (some (packet s.senderId s.validSendingDataTail b))
      validSendingDataTail := u64 (s.validSendingDataTail + 1) } := by
  have hn : accepted.length < 2 ^ 64 - 1 := by omega
  have htail := h.tail_eq hn
  have hroom := h.room hn
  have hlen : (accepted ++ [b.data]).length = accepted.length + 1 := by
    rw [List.length_append]; rfl
  refine ⟨by rw [hlen]; exact hlt, ?_, ?_, h.sending_lt, h.head_le, fun hlt' => ?_,
    fun hlt' => ?_⟩
  · show u64 (s.validSendingDataTail + 1) = _
    rw [htail, hlen]
  · rw [hlen]; exact Nat.le_succ_of_le h.sending_le
  · rw [hlen] at hlt' ⊢
    have hu : u64 (s.validSendingDataTail + 1) = accepted.length + 2 := by
      rw [htail, u64_of_lt (by omega)]
    rw [hu] at hfull
    have hne : accepted.length + 2 ≠ s.validSendingDataHead + sendWinSize := fun heq => by
      rw [heq, Nat.add_mod_right] at hfull
      exact hfull rfl
    show accepted.length + 1 + 2 ≤ s.validSendingDataHead + sendWinSize
    omega
  · rw [hlen]
    have hfar : ∀ r ∈ {q | 1 ≤ q ∧ s.validSendingDataHead ≤ q ∧ q ≤ accepted.length},
        r % sendWinSize ≠ s.validSendingDataTail % sendWinSize := fun r hr hmod => by
      have h2 : s.validSendingDataHead ≤ r := hr.2.1
      have h3 : r ≤ accepted.length := hr.2.2
      have heq : r = s.validSendingDataTail := mod_inj h2 (by omega) (by omega) (by omega) hmod
      omega
    have hval : IsOdata s.senderId s.validSendingDataTail
        (payOf (accepted ++ [b.data]) s.validSendingDataTail)
        (packet s.senderId s.validSendingDataTail b).data := by
      rw [htail, payOf_last]
      exact isOdata_packet s.senderId (by omega) ho hf
    have hold : Covers sendWinSize s.vecSendWin
        {q | 1 ≤ q ∧ s.validSendingDataHead ≤ q ∧ q ≤ accepted.length}
        (fun q c => IsOdata s.senderId q (payOf (accepted ++ [b.data]) q) c.data) :=
      (h.held hn).imp fun q hq c hc => by
        rw [payOf_append hq.1 hq.2.2]; exact hc
    refine (Covers.store (q := s.validSendingDataTail) hold hfar hval).mono fun q hq => ?_
    rcases Nat.eq_or_lt_of_le hq.2.2 with heq | hlt
    · exact Or.inl (heq.trans htail.symm)
    · exact Or.inr ⟨hq.1, hq.2.1, Nat.le_of_lt_succ hlt⟩

theorem Window.send (h : Window accepted s) (ho : b.offset = 16) (hf : b.Fits)
    (hlt : accepted.length + 1 < 2 ^ 64)
    (hfull : u64 (s.validSendingDataTail + 1) % sendWinSize ≠ s.validSendingDataHead %
      sendWinSize) :
    Window (accepted ++ [b.data]) { s with
      vecSendWin := Function.update s.vecSendWin (s.validSendingDataTail % sendWinSize)
        (some (packet s.senderId s.validSendingDataTail b))
      validSendingDataTail := u64 (s.validSendingDataTail + 1) } := by
  have hs := h.slots.send ho hf hlt hfull
  exact ⟨hs.lt, hs.tail, hs.sending_le, hs.sending_lt, hs.head_le, hs.room, hs.held, h.recved,
    h.idle⟩

end SmartNet.Network.Rmp.SendWin

import SmartNet.Common.Types
import SmartNet.Lib.Eff
import SmartNet.Memory.MemBlock

/-! # Sending and receiving datagrams

The system calls behind `CRmpSock::udp_send` and `CRmpSock::udp_recv` are inputs of the model:
`Sendto` is how a `sendto` ends, `Recvfrom` how a `recvfrom` ends. A call emits `Ev`s: a datagram
handed to the kernel, a block handed to the application. `Fault` names the asserts of `CRmpSock`,
which are compiled in and end the process. -/

namespace SmartNet.Network.Udp

open SmartNet.Common SmartNet.Lib SmartNet.Memory.MemBlock

/-- `sockaddr_in`. -/
structure SockAddr where
  addr : ℕ
  port : ℕ
  deriving DecidableEq, Repr

/-- How `sendto` ends, after the calls interrupted by a signal. -/
inductive Sendto
  | sent
  | wouldBlock
  | err
  deriving DecidableEq, Repr

/-- How `recvfrom` ends. -/
inductive Recvfrom
  | dgram (src : SockAddr) (d : List UInt8)
  | wouldBlock
  | intr
  | err

inductive Ev
  | sendto (dest : SockAddr) (d : List UInt8)
  | recved (pMem : Option CMemBlock)

/-- The payload of a block handed to the application. -/
def Ev.recved? : Ev → Option (Option (List UInt8))
  | .sendto _ _ => none
  | .recved pMem => some (pMem.map CMemBlock.data)

/-- The address and the bytes of a datagram sent. -/
def Ev.sent? : Ev → Option (SockAddr × List UInt8)
  | .sendto dest d => some (dest, d)
  | .recved _ => none

/-- What was handed to the application. -/
def recveds (evs : List Ev) : List (Option (List UInt8)) := evs.filterMap Ev.recved?

/-- What was handed to the kernel. -/
def sends (evs : List Ev) : List (SockAddr × List UInt8) := evs.filterMap Ev.sent?

/-- The asserts of `CRmpSock`, and `nullDeref` for a `NULL` block that is used. -/
inductive Fault
  | handleCanRecv
  | udpRecv
  | recvepHandlePkg
  | beyondLimitation
  | slotTaken
  | setAck
  | recvepSendNak
  | sendOffset
  | sendHeadroom
  | sendHb
  | sendingSeqNo
  | sendepHandlePkg
  | sendepHandleNak
  | sendepHandleAck
  | nullDeref
  deriving DecidableEq, Repr

/-- `udp_send`. -/
def udpSend (io : Sendto) (d : List UInt8) (dest : SockAddr) : Eff Ev Fault Cmnerr :=
  match io with
  | .sent => do
    Eff.emit (.sendto dest d)
    pure .suc
  | .wouldBlock => pure .sendPending
  | .err => pure .ioErr

/-- `udp_recv`: the code, the block and the source address. A datagram that is longer than the block
is cut. -/
def udpRecv (pMem : CMemBlock) (r : Recvfrom) : Eff Ev Fault (Cmnerr × CMemBlock × SockAddr) := do
  Eff.require (pMem.offset = 0 ∧ pMem.len = 0) .udpRecv
  match r with
  | .wouldBlock => pure (.recvPending, pMem, ⟨0, 0⟩)
  | .intr => Eff.abort .udpRecv
  | .err => pure (.ioErr, pMem, ⟨0, 0⟩)
  | .dgram src d =>
    let d := d.take pMem.getSize
    Eff.require (d.length ≠ 0) .udpRecv
    pure (.suc, CMemBlock.incLen { pMem with bytes := Mem.wr pMem.bytes 0 d } d.length, src)

/-- The block `handle_can_recv` receives into: `m_pMem`, or a new one. -/
def takeMem (pMem : Option CMemBlock) (fresh : ℕ → UInt8) : Eff Ev Fault CMemBlock :=
  match pMem with
  | none => pure (CMemBlock.new fresh)
  | some b => do
    Eff.require (b.len = 0 ∧ b.offset = 0) .handleCanRecv
    pure b

/-- The datagram that is received is in the block `b`. -/
def Arrives (pMem : Option CMemBlock) (fresh : ℕ → UInt8) (r : Recvfrom) (b : CMemBlock) : Prop :=
  ∃ src, (takeMem pMem fresh >>= fun c => udpRecv c r) = pure (.suc, b, src)

/-- `m_pMem` between two datagrams, when all is well: `NULL` or empty. -/
def Idle (pMem : Option CMemBlock) : Prop := ∀ b ∈ pMem, b.len = 0 ∧ b.offset = 0

theorem takeMem_of_idle {pMem : Option CMemBlock} (h : Idle pMem) (fresh : ℕ → UInt8) :
    ∃ b : CMemBlock, takeMem pMem fresh = pure b ∧ b.offset = 0 ∧ b.len = 0 := by
  rcases pMem with _ | b
  · exact ⟨CMemBlock.new fresh, rfl, rfl, rfl⟩
  · have hb := h b rfl
    refine ⟨b, ?_, hb.2, hb.1⟩
    simp only [takeMem, Eff.require_pos hb, Eff.pure_bind]

theorem takeMem_of_busy {pMem : Option CMemBlock} (h : ¬ Idle pMem) (fresh : ℕ → UInt8) :
    takeMem pMem fresh = Eff.abort .handleCanRecv := by
  rcases pMem with _ | b
  · exact absurd (fun b hb => by cases hb) h
  · have hb : ¬ (b.len = 0 ∧ b.offset = 0) := fun hb => h fun c hc => by cases hc; exact hb
    simp only [takeMem, Eff.require_neg hb, Eff.abort_bind]

theorem udpSend_res (io : Sendto) (d : List UInt8) (dest : SockAddr) :
    ∃ ret, (udpSend io d dest).res = .ok ret ∧ (ret = .suc ↔ io = .sent) := by
  cases io
  · exact ⟨.suc, rfl, by simp⟩
  · exact ⟨.sendPending, rfl, by simp⟩
  · exact ⟨.ioErr, rfl, by simp⟩

@[simp] theorem recveds_nil : recveds [] = [] := rfl

@[simp] theorem recveds_append (l l' : List Ev) : recveds (l ++ l') = recveds l ++ recveds l' :=
  List.filterMap_append

theorem mem_sends {evs : List Ev} {a : SockAddr} {d : List UInt8} :
    (a, d) ∈ sends evs ↔ Ev.sendto a d ∈ evs := by
  unfold sends
  rw [List.mem_filterMap]
  constructor
  · rintro ⟨_ | _, hmem, heq⟩
    · cases heq; exact hmem
    · cases heq
  · exact fun hmem => ⟨_, hmem, rfl⟩

theorem udpSend_evs (io : Sendto) (d : List UInt8) (dest : SockAddr) :
    ∀ e ∈ (udpSend io d dest).evs, e = .sendto dest d := by
  cases io
  · intro e he; exact List.mem_singleton.mp he
  · intro e he; cases he
  · intro e he; cases he

theorem udpRecv_noDgram (b : CMemBlock) {r : Recvfrom} (hr : ∀ src d, r ≠ .dgram src d) :
    udpRecv b r = Eff.abort .udpRecv ∨ ∃ ret : Cmnerr, ret ≠ .suc ∧ ret ≠ .odataReady ∧
      udpRecv b r = pure (ret, b, ⟨0, 0⟩) := by
  unfold udpRecv
  by_cases hreq : b.offset = 0 ∧ b.len = 0
  · rw [Eff.require_pos hreq]
    rcases r with ⟨src, d⟩ | _ | _ | _
    · exact absurd rfl (hr src d)
    · exact Or.inr ⟨.recvPending, by decide, by decide, rfl⟩
    · exact Or.inl rfl
    · exact Or.inr ⟨.ioErr, by decide, by decide, rfl⟩
  · rw [Eff.require_neg hreq]
    exact Or.inl rfl

theorem udpRecv_cases {b : CMemBlock} (ho : b.offset = 0) (hl : b.len = 0) (r : Recvfrom) :
    udpRecv b r = Eff.abort .udpRecv ∨
      (∃ ret : Cmnerr, ret ≠ .suc ∧ ret ≠ .odataReady ∧ udpRecv b r = pure (ret, b, ⟨0, 0⟩)) ∨
      ∃ (c : CMemBlock) (src : SockAddr), udpRecv b r = pure (.suc, c, src) ∧ c.offset = 0 ∧
        1 ≤ c.len ∧ c.len ≤ maxMemSize := by
  by_cases hr : ∀ src d, r ≠ .dgram src d
  · rcases udpRecv_noDgram b hr with h | h
    · exact Or.inl h
    · exact Or.inr (Or.inl h)
  · simp only [ne_eq, not_forall, not_not] at hr
    obtain ⟨src, d, rfl⟩ := hr
    have hle : (d.take b.getSize).length ≤ maxMemSize := List.length_take_le _ _
    have hlt : (d.take b.getSize).length < 2 ^ 32 := by unfold maxMemSize at hle; omega
    unfold udpRecv
    rw [Eff.require_pos ⟨ho, hl⟩, Eff.pure_bind]
    by_cases hd : (d.take b.getSize).length ≠ 0
    · right; right
      have hlen : u32 (b.len + (d.take b.getSize).length) = (d.take b.getSize).length := by
        rw [hl, Nat.zero_add, u32_of_lt hlt]
      refine ⟨CMemBlock.incLen { b with bytes := Mem.wr b.bytes 0 (d.take b.getSize) }
        (d.take b.getSize).length, src, ?_, ho, ?_, ?_⟩
      · simp only [Eff.require_pos hd, Eff.pure_bind]
      · show 1 ≤ u32 (b.len + (d.take b.getSize).length)
        omega
      · show u32 (b.len + (d.take b.getSize).length) ≤ maxMemSize
        omega
    · left
      simp only [Eff.require_neg hd, Eff.abort_bind]

theorem udpRecv_dgram {pMem : CMemBlock} (ho : pMem.offset = 0) (hl : pMem.len = 0) (src : SockAddr)
    {d : List UInt8} (hd : d ≠ []) (hfit : d.length ≤ maxMemSize) :
    ∃ b : CMemBlock, udpRecv pMem (.dgram src d) = pure (.suc, b, src) ∧ b.offset = 0 ∧
      b.len = d.length ∧ b.data = d := by
  have htake : d.take pMem.getSize = d := List.take_of_length_le hfit
  have hlen : d.length ≠ 0 := fun e => hd (List.length_eq_zero_iff.mp e)
  have hlt : d.length < 2 ^ 32 := by unfold maxMemSize at hfit; omega
  refine ⟨CMemBlock.incLen { pMem with bytes := Mem.wr pMem.bytes 0 d } d.length, ?_, ho, ?_, ?_⟩
  · unfold udpRecv
    rw [Eff.require_pos ⟨ho, hl⟩, Eff.pure_bind]
    simp only [htake]
    rw [Eff.require_pos hlen]
    rfl
  · show u32 (pMem.len + d.length) = d.length
    rw [hl, Nat.zero_add, u32_of_lt hlt]
  · show Mem.rd (Mem.wr pMem.bytes 0 d) pMem.offset (u32 (pMem.len + d.length)) = d
    rw [ho, hl, Nat.zero_add, u32_of_lt hlt, Mem.rd_wr]

theorem takeMem_udpRecv_abort {pMem : Option CMemBlock} {d : List UInt8} (h : ¬ Idle pMem ∨ d = [])
    (fresh : ℕ → UInt8) (src : SockAddr) :
    ∃ f, (takeMem pMem fresh >>= fun c => udpRecv c (.dgram src d)) = Eff.abort f := by
  by_cases hidle : Idle pMem
  · obtain rfl : d = [] := h.resolve_left fun hn => hn hidle
    obtain ⟨b, hb, ho, hl⟩ := takeMem_of_idle hidle fresh
    refine ⟨.udpRecv, ?_⟩
    rw [hb, Eff.pure_bind]
    unfold udpRecv
    rw [Eff.require_pos ⟨ho, hl⟩, Eff.pure_bind]
    rfl
  · exact ⟨_, by rw [takeMem_of_busy hidle, Eff.abort_bind]⟩

theorem takeMem_udpRecv {pMem : Option CMemBlock} (hidle : Idle pMem) (fresh : ℕ → UInt8)
    (src : SockAddr) {d : List UInt8} (hd : d ≠ []) :
    ∃ b : CMemBlock,
      (takeMem pMem fresh >>= fun c => udpRecv c (.dgram src d)) = pure (.suc, b, src) ∧
      b.offset = 0 ∧ b.len = (d.take maxMemSize).length ∧ b.data = d.take maxMemSize := by
  obtain ⟨c, hc, ho, hl⟩ := takeMem_of_idle hidle fresh
  have hcut : udpRecv c (.dgram src d) = udpRecv c (.dgram src (d.take maxMemSize)) := by
    have htake : (d.take maxMemSize).take c.getSize = d.take c.getSize := by
      show (d.take maxMemSize).take maxMemSize = d.take maxMemSize
      rw [List.take_take, Nat.min_self]
    simp only [udpRecv, htake]
  have hne : d.take maxMemSize ≠ [] := by
    rw [ne_eq, List.take_eq_nil_iff, not_or]
    exact ⟨by decide, hd⟩
  obtain ⟨b, hb, h1, h2, h3⟩ := udpRecv_dgram ho hl src hne (List.length_take_le _ _)
  exact ⟨b, by rw [hc, Eff.pure_bind, hcut, hb], h1, h2, h3⟩

end SmartNet.Network.Udp

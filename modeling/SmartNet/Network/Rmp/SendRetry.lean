import SmartNet.Network.Rmp.SendWin

/-! # A refused send

`send` lays the block out before it looks for room in the window. A block that is refused comes back
with its payload, but with both headers in its range: a second `send` of it ends the process.

* `send_refused`: what the caller is left with;
* `retryable_iff`: the caller can pass the block again exactly if it was not refused. -/

namespace SmartNet.Network.Rmp.SendRetry

open SmartNet.Common SmartNet.Lib SmartNet.Lib.Bytes SmartNet.Lib.Mem SmartNet.Memory.MemBlock
open SmartNet.Network.Udp SmartNet.Network.Rmp.Sendep SmartNet.Network.Rmp.SendWin

/-- The test of `send` for a full window. -/
def Full (s : SendSock) : Prop :=
  u64 (s.validSendingDataTail + 1) % sendWinSize = s.validSendingDataHead % sendWinSize

instance (s : SendSock) : Decidable (Full s) := inferInstanceAs (Decidable (_ = _))

/-- The packet that `send` puts into the window for the block, if it accepts it. -/
def sentPacket (s : SendSock) (b : CMemBlock) : Option (List UInt8) :=
  match (Sendep.send s b).res with
  | .ok (.suc, _, t) => (t.vecSendWin (s.validSendingDataTail % sendWinSize)).map CMemBlock.data
  | _ => none

/-- A call of `send` that leads from `s` to `t` and leaves the caller with `p` has changed nothing,
and the block can be passed again. -/
structure Untouched (s t : SendSock) (b : CMemBlock) (p : Option CMemBlock) : Prop where
  sock : t = s
  mem : ∃ c, p = some c ∧ c.offset = b.offset ∧ c.len = b.len ∧ c.data = b.data ∧
    ∀ u, sentPacket u c = sentPacket u b

/-- A `send` of the block that is refused changes nothing. -/
def Retryable (s : SendSock) (b : CMemBlock) : Prop :=
  ∀ p t, (Sendep.send s b).res = .ok (.noSpace, p, t) → Untouched s t b p

/-- The block a caller gets back. -/
def refused (s : SendSock) (b : CMemBlock) : CMemBlock :=
  fillHdr s.senderId { b with offset := 0, len := u32 (u32 (b.len + 8) + 8) }

variable {s : SendSock} {b : CMemBlock}

theorem incHeadData_of_headroom {n : ℕ} (hn : n ≤ b.offset) (ho : b.offset < 2 ^ 32) :
    b.incHeadData n = (.suc, { b with offset := b.offset - n, len := u32 (b.len + n) }) := by
  unfold CMemBlock.incHeadData
  rw [if_neg (by omega), sub32_of_le ho hn]

theorem send_eq (ho : b.offset = 16) : Sendep.send s b =
    if Full s then pure (.noSpace, some (refused s b), s)
    else pure (.suc, none, { s with
      vecSendWin := Function.update s.vecSendWin (s.validSendingDataTail % sendWinSize)
        (some ((refused s b).put 8 (leBytes 8 s.validSendingDataTail)))
      validSendingDataTail := u64 (s.validSendingDataTail + 1) }) := by
  have h1 : b.incHeadData 8 = (.suc, { b with offset := 8, len := u32 (b.len + 8) }) := by
    rw [incHeadData_of_headroom (by omega) (by omega), ho]
  have h2 : ({ b with offset := 8, len := u32 (b.len + 8) } : CMemBlock).incHeadData 8 =
      (.suc, { b with offset := 0, len := u32 (u32 (b.len + 8) + 8) }) :=
    incHeadData_of_headroom (Nat.le_refl 8) (by show (8 : ℕ) < 2 ^ 32; omega)
  unfold Sendep.send
  simp only [Eff.require_pos ho, Eff.pure_bind, h1, h2, Eff.require_pos]
  rfl

/-- **A refusal.** The headers are in the block, and the socket is as before. -/
theorem send_refused (ho : b.offset = 16) (hfull : Full s) :
    Sendep.send s b = pure (.noSpace, some (refused s b), s) := by
  rw [send_eq ho, if_pos hfull]

/-- Passing the block again ends the process, whatever has become of the window. -/
theorem send_again (s u : SendSock) (b : CMemBlock) :
    Sendep.send u (refused s b) = Eff.abort .sendOffset :=
  send_offset (by show (0 : ℕ) ≠ 16; decide)

theorem not_retryable (ho : b.offset = 16) (hfull : Full s) : ¬ Retryable s b := by
  intro h
  have hres : (Sendep.send s b).res = .ok (.noSpace, some (refused s b), s) := by
    rw [send_refused ho hfull]
    rfl
  obtain ⟨c, hc, hoff, -⟩ := (h _ _ hres).mem
  have h0 : c.offset = 0 := by
    cases hc
    rfl
  omega

/-- **Retrying.** The caller can pass a block again exactly if the window had room for it in the
first place. -/
theorem retryable_iff (ho : b.offset = 16) : Retryable s b ↔ ¬ Full s := by
  constructor
  · intro h hfull
    exact not_retryable ho hfull h
  · intro hroom p t hres
    rw [send_eq ho, if_neg hroom] at hres
    cases hres

/-- A block of three bytes behind the room for the headers. -/
def threeBytes : CMemBlock := ⟨fun i => if i = 16 then 1 else 2, 16, 16, 3⟩

/-- A new sender that was given 999998 blocks. -/
def filled : SendSock := { Sendep.open ⟨1, 2⟩ 7 1000000 500 1000000 with
  vecSendWin := fun i => if i = 0 ∨ i = 999999 then none else some (packet 7 i threeBytes)
  validSendingDataTail := 999999 }

theorem retryable_iff_open :
    Retryable (Sendep.open ⟨1, 2⟩ 7 1000000 500 1000000) threeBytes ↔
      ¬ Full (Sendep.open ⟨1, 2⟩ 7 1000000 500 1000000) :=
  retryable_iff rfl

/-- The block comes back with 16 bytes in front of its payload, and once an ack has made room it
cannot be passed again. -/
theorem refused_for_good : ∃ c,
    (Sendep.send filled threeBytes).res = .ok (.noSpace, some c, filled) ∧
    c.offset = 0 ∧ c.len = 19 ∧ ¬ Retryable filled threeBytes ∧
      (Sendep.send { filled with validSendingDataHead := 2 } c).res = .error .sendOffset := by
  have hfull : Full filled := by decide
  refine ⟨refused filled threeBytes, ?_, rfl, rfl, not_retryable rfl hfull, ?_⟩
  · rw [send_refused rfl hfull]
    rfl
  · rw [send_again]
    rfl

end SmartNet.Network.Rmp.SendRetry

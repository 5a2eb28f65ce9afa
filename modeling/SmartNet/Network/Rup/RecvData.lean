import SmartNet.Memory.MemBlock

/-! # Receiving on a `CRupSock`

`handle_can_recv` moves what is left in `m_pRecvedData` to the front and receives behind it.

* `front`: the block it receives into;
* `handleCanRecv_got`: received bytes come behind what is there. -/

namespace SmartNet.Network.Rup.RecvData

open SmartNet.Common SmartNet.Lib.Mem SmartNet.Memory.MemBlock

/-- How a `::recv` ends: with bytes, none of them if the peer has shut down, or with an error. -/
inductive RecvIo
  | got (l : List UInt8)
  | wouldBlock
  | intr
  | err

/-- `m_pRecvedData` when `::recv` is called. -/
def front (pRecvedData : Option CMemBlock) (fresh : ℕ → UInt8) : CMemBlock :=
  match pRecvedData with
  | some b => b.moveDataAhead
  | none => .new fresh

/-- `handle_can_recv`; `none` if its assert fails. -/
def handleCanRecv (pRecvedData : Option CMemBlock) (fresh : ℕ → UInt8) :
    RecvIo → Option (Cmnerr × CMemBlock)
  | .got l =>
    let b := front pRecvedData fresh
    if l = [] then some (.ioErr, b)
    else some (.suc, CMemBlock.incLen { b with bytes := wr b.bytes b.getTailFreeBuf l } l.length)
  | .wouldBlock => none
  | .intr => some (.recvPending, front pRecvedData fresh)
  | .err => some (.ioErr, front pRecvedData fresh)

/-- The bytes that were received and not taken yet. -/
def held (pRecvedData : Option CMemBlock) : List UInt8 :=
  match pRecvedData with
  | some b => b.data
  | none => []

variable {pRecvedData : Option CMemBlock} {fresh : ℕ → UInt8} {l : List UInt8}

theorem front_fits (h : ∀ b ∈ pRecvedData, b.Fits) (fresh : ℕ → UInt8) :
    (front pRecvedData fresh).Fits := by
  rcases pRecvedData with - | b
  · exact CMemBlock.fits_new fresh
  · exact (h b rfl).moveDataAhead

theorem front_data (pRecvedData : Option CMemBlock) (fresh : ℕ → UInt8) :
    (front pRecvedData fresh).data =
    held pRecvedData := by
  rcases pRecvedData with - | b
  · rfl
  · exact CMemBlock.moveDataAhead_data b

/-- **Received bytes** come behind what is there. -/
theorem handleCanRecv_got (h : ∀ b ∈ pRecvedData, b.Fits) (hl : l ≠ [])
    (hroom : l.length ≤ (front pRecvedData fresh).getTailFreeSize) :
    ∃ b, handleCanRecv pRecvedData fresh (.got l) = some (.suc, b) ∧ b.Fits ∧
      b.data = held pRecvedData ++ l := by
  have hfit := front_fits h fresh
  rw [CMemBlock.getTailFreeSize_eq hfit] at hroom
  rw [← front_data pRecvedData fresh]
  set f := front pRecvedData fresh with hf
  have hfit' : CMemBlock.Fits { f with bytes := wr f.bytes f.getTailFreeBuf l } := hfit
  obtain ⟨h1, h2⟩ := hfit'.incLen (n := l.length) hroom
  refine ⟨_, if_neg hl, h1, ?_⟩
  unfold CMemBlock.data
  rw [h2]
  show rd (wr f.bytes (f.offset + f.len) l) f.offset (f.len + l.length) = _
  rw [rd_add, rd_wr, rd_wr_of_disjoint (Or.inl (Nat.le_refl _))]

end SmartNet.Network.Rup.RecvData

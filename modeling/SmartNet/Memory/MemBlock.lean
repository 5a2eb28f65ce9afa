import SmartNet.Common.Types
import SmartNet.Lib.Bytes
import SmartNet.Lib.Mem

/-! # `CMemBlock`

A block is `__MAX_MEM_SIZE__` bytes of memory with a current range `[offset, offset + len)`. The
memory is a function from addresses, so that a read past the end of the block is a value of the
model too (whatever lies there); only addresses below `size` are in the block, and `Fits` says that
the range lies in it. All counters are `u_int32_t` and wrap.

* `data`: the bytes of the range, what `get_data()` and `get_len()` give;
* `append_of_le`, `moveDataAhead_data`, `decHeadData_data`, `incHeadData_of_le`: what the operations
  do to a block that fits. -/

namespace SmartNet.Memory.MemBlock

open SmartNet.Common SmartNet.Lib.Bytes SmartNet.Lib.Mem

/-- `__MAX_MEM_SIZE__`. -/
def maxMemSize : ℕ := 8192 * 4

/-- `CMemBlock`; `m_ui32Sz` is `sizeof(m_bytes)` and never changes. -/
structure CMemBlock where
  bytes : ℕ → UInt8
  initOffset : ℕ
  offset : ℕ
  len : ℕ

namespace CMemBlock

/-- `NEW_MEM(v)`: the argument is dropped by the macro, and the memory is what the allocator
hands out. -/
def new (fresh : ℕ → UInt8) : CMemBlock := ⟨fresh, 0, 0, 0⟩

/-- A block that holds the bytes `l`. -/
def ofBytes (l : List UInt8) : CMemBlock := ⟨fun i => l.getD i 0, 0, 0, l.length⟩

/-- `get_size`. -/
def getSize (_ : CMemBlock) : ℕ := maxMemSize

/-- `get_data` and `get_len`: the bytes of the current range. -/
def data (b : CMemBlock) : List UInt8 := rd b.bytes b.offset b.len

/-- Byte `i` behind the pointer `get_data()`. -/
def get8 (b : CMemBlock) (i : ℕ) : UInt8 := b.bytes (b.offset + i)

/-- The `u_int64_t` at byte `i` behind the pointer `get_data()`, on a little-endian machine. -/
def get64 (b : CMemBlock) (i : ℕ) : ℕ := leNat (rd b.bytes (b.offset + i) 8)

/-- Writing bytes behind the pointer `get_data()`. -/
def put (b : CMemBlock) (i : ℕ) (l : List UInt8) : CMemBlock :=
  { b with bytes := wr b.bytes (b.offset + i) l }

/-- `get_tail_free_buf`, as an address. -/
def getTailFreeBuf (b : CMemBlock) : ℕ := b.offset + b.len

/-- `get_tail_free_size`. -/
def getTailFreeSize (b : CMemBlock) : ℕ := sub32 maxMemSize (u32 (b.len + b.offset))

/-- `get_total_free_size`. -/
def getTotalFreeSize (b : CMemBlock) : ℕ := sub32 maxMemSize b.len

/-- `move_data_ahead`. -/
def moveDataAhead (b : CMemBlock) : CMemBlock :=
  if 0 < b.offset then { b with bytes := mv b.bytes 0 b.offset b.len, offset := 0 } else b

/-- `dec_head_data`. -/
def decHeadData (b : CMemBlock) (n : ℕ) : CMemBlock :=
  { b with offset := u32 (b.offset + n), len := sub32 b.len n }

/-- `inc_head_data`. -/
def incHeadData (b : CMemBlock) (n : ℕ) : Cmnerr × CMemBlock :=
  if b.offset < n then (.commonErr, b)
  else (.suc, { b with offset := sub32 b.offset n, len := u32 (b.len + n) })

/-- `inc_len`. -/
def incLen (b : CMemBlock) (n : ℕ) : CMemBlock := { b with len := u32 (b.len + n) }

/-- `set_offset`. -/
def setOffset (b : CMemBlock) (n : ℕ) : CMemBlock := { b with offset := n }

/-- `set_init_offset`. -/
def setInitOffset (b : CMemBlock) (n : ℕ) : CMemBlock := { b with initOffset := n }

/-- `reset`, called without an argument everywhere in the modelled code. -/
def reset (b : CMemBlock) : CMemBlock := { b with offset := 0, len := 0 }

/-- `append`. -/
def append (b : CMemBlock) (pBytes : List UInt8) : Cmnerr × CMemBlock :=
  if b.getTotalFreeSize < pBytes.length then (.commonErr, b)
  else
    let b := if b.getTailFreeSize < pBytes.length then b.moveDataAhead else b
    (.suc,
      { b with bytes := wr b.bytes (b.offset + b.len) pBytes, len := u32 (b.len + pBytes.length) })

/-- The range lies in the block. -/
def Fits (b : CMemBlock) : Prop := b.offset + b.len ≤ maxMemSize

@[simp] theorem length_data (b : CMemBlock) : b.data.length = b.len := length_rd _ _ _

@[simp] theorem reset_offset (b : CMemBlock) : b.reset.offset = 0 := rfl

@[simp] theorem reset_len (b : CMemBlock) : b.reset.len = 0 := rfl

@[simp] theorem put_offset (b : CMemBlock) (i : ℕ) (l : List UInt8) :
    (b.put i l).offset = b.offset := rfl

@[simp] theorem put_len (b : CMemBlock) (i : ℕ) (l : List UInt8) : (b.put i l).len = b.len := rfl

theorem fits_new (fresh : ℕ → UInt8) : (new fresh).Fits := by simp [Fits, new]

theorem Fits.offset_lt {b : CMemBlock} (h : b.Fits) : b.offset < 2 ^ 32 := by
  unfold Fits maxMemSize at h; omega

theorem Fits.len_lt {b : CMemBlock} (h : b.Fits) : b.len < 2 ^ 32 := by
  unfold Fits maxMemSize at h; omega

theorem getTailFreeSize_eq {b : CMemBlock} (h : b.Fits) :
    b.getTailFreeSize = maxMemSize - (b.offset + b.len) := by
  unfold getTailFreeSize sub32 u32
  unfold Fits maxMemSize at *
  omega

theorem getTotalFreeSize_eq {b : CMemBlock} (h : b.Fits) :
    b.getTotalFreeSize = maxMemSize - b.len := by
  unfold getTotalFreeSize sub32 u32
  unfold Fits maxMemSize at *
  omega

/-! ### Moving the range -/

theorem moveDataAhead_offset (b : CMemBlock) : b.moveDataAhead.offset = 0 := by
  unfold moveDataAhead; split_ifs <;> simp_all

@[simp] theorem moveDataAhead_len (b : CMemBlock) : b.moveDataAhead.len = b.len := by
  unfold moveDataAhead; split_ifs <;> rfl

@[simp] theorem moveDataAhead_data (b : CMemBlock) : b.moveDataAhead.data = b.data := by
  unfold data moveDataAhead
  split_ifs
  · exact rd_mv b.bytes 0 b.offset b.len
  · rfl

theorem Fits.moveDataAhead {b : CMemBlock} (h : b.Fits) : b.moveDataAhead.Fits := by
  unfold Fits at *
  rw [moveDataAhead_offset, moveDataAhead_len]; omega

theorem Fits.decHeadData {b : CMemBlock} {n : ℕ} (h : b.Fits) (hn : n ≤ b.len) :
    (b.decHeadData n).Fits ∧ (b.decHeadData n).offset = b.offset + n ∧
      (b.decHeadData n).len = b.len - n := by
  have hl := h.len_lt
  unfold Fits maxMemSize CMemBlock.decHeadData at *
  rw [u32_of_lt (by omega), sub32_of_le hl hn]
  refine ⟨?_, rfl, rfl⟩
  show b.offset + n + (b.len - n) ≤ 8192 * 4
  omega

/-- **Taking bytes off the front.** -/
theorem decHeadData_data {b : CMemBlock} {n : ℕ} (h : b.Fits) (hn : n ≤ b.len) :
    (b.decHeadData n).data = b.data.drop n := by
  obtain ⟨-, ho, hl⟩ := h.decHeadData hn
  unfold data
  rw [rd_drop hn, ho, hl]; rfl

theorem decHeadData_eq {b : CMemBlock} {n : ℕ} (h : b.Fits) (hn : n ≤ b.len) :
    b.decHeadData n = { b with offset := b.offset + n, len := b.len - n } := by
  have hl := h.len_lt
  unfold Fits maxMemSize at h
  unfold CMemBlock.decHeadData
  rw [u32_of_lt (by omega), sub32_of_le hl hn]

theorem decHeadData_add {b : CMemBlock} {n k : ℕ} (h : b.Fits) (hnk : n + k ≤ b.len) :
    (b.decHeadData n).decHeadData k = b.decHeadData (n + k) := by
  obtain ⟨hfit, -, hlen⟩ := h.decHeadData (n := n) (by omega)
  rw [decHeadData_eq hfit (by omega), decHeadData_eq h (by omega), decHeadData_eq h hnk,
    Nat.add_assoc, Nat.sub_sub]

theorem decHeadData_zero {b : CMemBlock} (h : b.Fits) : b.decHeadData 0 = b :=
  decHeadData_eq h (Nat.zero_le _)

/-- **Headroom.** `inc_head_data` succeeds exactly if there is enough of it. -/
theorem incHeadData_of_le {b : CMemBlock} {n : ℕ} (h : b.Fits) (hn : n ≤ b.offset) :
    b.incHeadData n = (.suc, { b with offset := b.offset - n, len := b.len + n }) := by
  have ho := h.offset_lt
  unfold incHeadData Fits maxMemSize at *
  rw [if_neg (by omega), sub32_of_le ho hn, u32_of_lt (by omega)]

theorem Fits.incLen {b : CMemBlock} {n : ℕ} (h : b.Fits)
    (hn : n ≤ maxMemSize - (b.offset + b.len)) :
    (b.incLen n).Fits ∧ (b.incLen n).len = b.len + n := by
  unfold Fits maxMemSize CMemBlock.incLen at *
  rw [u32_of_lt (by omega)]
  exact ⟨by show b.offset + (b.len + n) ≤ 8192 * 4; omega, rfl⟩

/-! ### Appending -/

private theorem append_tail {b : CMemBlock} {l : List UInt8}
    (h : b.offset + b.len + l.length ≤ maxMemSize) :
    let b' : CMemBlock :=
      { b with bytes := wr b.bytes (b.offset + b.len) l, len := u32 (b.len + l.length) }
    b'.Fits ∧ b'.data = b.data ++ l := by
  unfold maxMemSize at h
  have hlen : u32 (b.len + l.length) = b.len + l.length := u32_of_lt (by omega)
  refine ⟨?_, ?_⟩
  · show b.offset + u32 (b.len + l.length) ≤ maxMemSize
    unfold maxMemSize; omega
  · show rd (wr b.bytes (b.offset + b.len) l) b.offset (u32 (b.len + l.length)) = _
    rw [hlen, rd_add, rd_wr, rd_wr_of_disjoint (by omega)]; rfl

/-- **Appending** bytes for which the block has room in all, moving the data to the front if the
tail is too small. -/
theorem append_of_le {b : CMemBlock} {l : List UInt8} (h : b.Fits)
    (hl : b.len + l.length ≤ maxMemSize) :
    ∃ b', b.append l = (.suc, b') ∧ b'.Fits ∧ b'.data = b.data ++ l := by
  have hfree : ¬ b.getTotalFreeSize < l.length := by rw [getTotalFreeSize_eq h]; omega
  have htail := getTailFreeSize_eq h
  unfold append
  rw [if_neg hfree]
  by_cases ht : b.getTailFreeSize < l.length
  · simp only [ht, if_true]
    have hroom : b.moveDataAhead.offset + b.moveDataAhead.len + l.length ≤ maxMemSize := by
      rw [moveDataAhead_offset, moveDataAhead_len]; omega
    obtain ⟨h1, h2⟩ := append_tail hroom
    exact ⟨_, rfl, h1, by rw [h2, moveDataAhead_data]⟩
  · simp only [ht, if_false]
    have hroom : b.offset + b.len + l.length ≤ maxMemSize := by
      unfold Fits at h; omega
    obtain ⟨h1, h2⟩ := append_tail hroom
    exact ⟨_, rfl, h1, h2⟩

theorem append_of_gt {b : CMemBlock} {l : List UInt8} (h : b.Fits)
    (hl : maxMemSize < b.len + l.length) : b.append l = (.commonErr, b) := by
  have hfree : b.getTotalFreeSize < l.length := by
    rw [getTotalFreeSize_eq h]
    unfold Fits at h; omega
  unfold append
  rw [if_pos hfree]

end CMemBlock

/-- A block the application may hand to a socket: its data lie in the block, and there are some. -/
structure Payload where
  mem : CMemBlock
  fits : mem.Fits
  pos : 0 < mem.len

end SmartNet.Memory.MemBlock

import SmartNet.Memory.MemBlock

/-! # The send queues of `CRupSock`

`m_qSendCache` and `m_qSending` are queues of blocks. `send` adds its data to the last block of the
cache if they fit, and as a block of its own otherwise.

* `bytes`: the unsent bytes of a queue;
* `bytes_cacheData`: adding data to the cache adds their bytes at the end. -/

namespace SmartNet.Network.Rup.SendQueue

open SmartNet.Common SmartNet.Memory.MemBlock

/-- How a `::send` on the connection ends: the kernel takes the first `n` bytes, or none. -/
inductive SendIo
  | took (n : ℕ)
  | wouldBlock
  | intr
  | err
  deriving DecidableEq, Repr

/-- The bytes of the blocks, in order. -/
def bytes (q : List CMemBlock) : List UInt8 := q.flatMap CMemBlock.data

/-- The critical section of `send` that adds the data to `m_qSendCache`. -/
def cacheData : List CMemBlock → CMemBlock → List CMemBlock
  | [], pData => [pData]
  | [b], pData =>
    let (ret, b) := b.append pData.data
    if ret ≠ .suc then [b, pData] else [b]
  | b :: c :: q, pData => b :: cacheData (c :: q) pData

/-- All blocks of the queue are well formed. -/
def AllFit (q : List CMemBlock) : Prop := ∀ b ∈ q, b.Fits

variable {q : List CMemBlock} {b p : CMemBlock}

@[simp] theorem bytes_nil : bytes [] = [] := rfl

@[simp] theorem bytes_cons (b : CMemBlock) (q : List CMemBlock) :
    bytes (b :: q) = b.data ++ bytes q := rfl

theorem allFit_cons : AllFit (b :: q) ↔ b.Fits ∧ AllFit q := List.forall_mem_cons

theorem append_or (hb : b.Fits) (hp : p.Fits) :
    AllFit (cacheData [b] p) ∧ bytes (cacheData [b] p) = b.data ++ p.data := by
  unfold cacheData
  rcases Nat.lt_or_ge maxMemSize (b.len + p.data.length) with hgt | hle
  · rw [CMemBlock.append_of_gt hb hgt]
    refine ⟨fun c hc => ?_, ?_⟩
    · rcases List.mem_cons.mp hc with rfl | hc
      · exact hb
      · rw [List.mem_singleton.mp hc]; exact hp
    · show b.data ++ (p.data ++ []) = _
      rw [List.append_nil]
  · obtain ⟨b', hres, hfit, hdata⟩ := CMemBlock.append_of_le hb hle
    rw [hres]
    refine ⟨fun c hc => ?_, ?_⟩
    · rw [List.mem_singleton.mp hc]; exact hfit
    · show b'.data ++ [] = _
      rw [List.append_nil, hdata]

/-- **Caching data** adds their bytes at the end. -/
theorem bytes_cacheData (hp : p.Fits) : ∀ {q : List CMemBlock}, AllFit q →
    AllFit (cacheData q p) ∧ bytes (cacheData q p) = bytes q ++ p.data
  | [], _ => by
    refine ⟨fun c hc => ?_, List.append_nil p.data⟩
    rw [List.mem_singleton.mp hc]
    exact hp
  | [b], h => by
    obtain ⟨h1, h2⟩ := append_or (h b List.mem_cons_self) hp
    refine ⟨h1, ?_⟩
    rw [h2, bytes_cons, bytes_nil, List.append_nil]
  | b :: c :: q, h => by
    obtain ⟨hb, hq⟩ := allFit_cons.mp h
    obtain ⟨h1, h2⟩ := bytes_cacheData hp hq
    refine ⟨allFit_cons.mpr ⟨hb, h1⟩, ?_⟩
    show b.data ++ bytes (cacheData (c :: q) p) = (b.data ++ bytes (c :: q)) ++ p.data
    rw [h2, List.append_assoc]

theorem decHead_part (hb : b.Fits) {k : ℕ} (hk : k ≤ b.len) :
    (b.decHeadData k).Fits ∧ b.data.take k ++ (b.decHeadData k).data = b.data := by
  refine ⟨(hb.decHeadData hk).1, ?_⟩
  rw [CMemBlock.decHeadData_data hb hk, List.take_append_drop]

end SmartNet.Network.Rup.SendQueue

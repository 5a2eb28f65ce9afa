import SmartNet.Lib.Eff
import SmartNet.Network.Rup.SendQueue

/-! # `CRupSock::send`

Both overloads of `send`, one call at a time: the socket before and after it, the locks and unlocks
of `m_lkSending`, the bytes the kernel takes and the returned code. If another thread holds the lock
or the cache has a block, the data go into the cache; otherwise they are handed to `::send`
directly, and what the kernel does not take is put in front of the cache.

* `Truthful`: the code says where the data are, and the lock is released;
* `truthful_iff`: this holds unless a direct `::send` takes nothing of the data without an error. -/

namespace SmartNet.Network.Rup.Send

open SmartNet.Common SmartNet.Lib SmartNet.Memory.MemBlock SmartNet.Network.Rup.SendQueue

/-- The part of a `CRupSock` that `send` uses; `lkSending` says that another thread holds the
lock. -/
structure RupSock where
  qSendCache : List CMemBlock
  qSending : List CMemBlock
  lkSending : Bool

/-- A successful `try_lock`, an `unlock`, and the bytes a `::send` takes. -/
inductive Ev
  | lock
  | unlock
  | taken (l : List UInt8)
  deriving DecidableEq, Repr

/-- The asserts on the length of the block and on the result of `::send`. -/
inductive Fault
  | dataLen
  | sendRet
  deriving DecidableEq, Repr

/-- `send` from the `::send` on, the same text in both overloads. -/
def direct (s : RupSock) (pData : CMemBlock) : SendIo → Eff Ev Fault (Cmnerr × RupSock)
  | .wouldBlock => do
    .emit .unlock
    return (.sendPending, s)
  | .intr | .err => do
    .emit .unlock
    return (.ioErr, s)
  | .took n => do
    .emit (.taken (pData.data.take (min n pData.len)))
    .require (min n pData.len ≠ 0) .sendRet
    .emit .unlock
    if min n pData.len < pData.len then
      return (.sendPending,
        { s with qSendCache := pData.decHeadData (min n pData.len) :: s.qSendCache })
    else return (.suc, s)

/-- `send(mem_ptr_t&)`. -/
def send (s : RupSock) (pData : CMemBlock) (io : SendIo) : Eff Ev Fault (Cmnerr × RupSock) := do
  .require (0 < pData.len) .dataLen
  if s.lkSending then
    return (.sendPending, { s with qSendCache := cacheData s.qSendCache pData })
  else
    .emit .lock
    if s.qSendCache ≠ [] then
      .emit .unlock
      return (.sendPending, { s with qSendCache := cacheData s.qSendCache pData })
    else direct s pData io

/-- `NEW_MEM(ui32Len)` and `append(pV, ui32Len)`, whose result nobody looks at. -/
def newMem (fresh : ℕ → UInt8) (pV : List UInt8) : CMemBlock :=
  ((CMemBlock.new fresh).append pV).2

/-- The critical section of the byte overload that adds the data to `m_qSendCache`. -/
def cacheBytes (fresh : ℕ → UInt8) (pV : List UInt8) : List CMemBlock → List CMemBlock
  | [] => [newMem fresh pV]
  | [b] =>
    let (ret, b) := b.append pV
    if ret ≠ .suc then [b, newMem fresh pV] else [b]
  | b :: c :: q => b :: cacheBytes fresh pV (c :: q)

/-- `send(cmn_byte_t*, u_int32_t)`. -/
def sendBytes (s : RupSock) (fresh : ℕ → UInt8) (pV : List UInt8) (io : SendIo) :
    Eff Ev Fault (Cmnerr × RupSock) := do
  if s.lkSending then
    return (.sendPending, { s with qSendCache := cacheBytes fresh pV s.qSendCache })
  else
    .emit .lock
    if s.qSendCache ≠ [] then
      .emit .unlock
      return (.sendPending, { s with qSendCache := cacheBytes fresh pV s.qSendCache })
    else direct s (newMem fresh pV) io

/-- The bytes the kernel took. -/
def taken (evs : List Ev) : List UInt8 :=
  evs.flatMap fun
    | .taken l => l
    | _ => []

/-- Every lock was released. -/
def Released (evs : List Ev) : Prop := evs.count .lock = evs.count .unlock

instance (evs : List Ev) : Decidable (Released evs) := inferInstanceAs (Decidable (_ = _))

/-- The bytes `rest` were added to the cache, at one end of it, and nothing else was changed. -/
def Stored (s t : RupSock) (rest : List UInt8) : Prop :=
  (bytes t.qSendCache = bytes s.qSendCache ++ rest ∨
      bytes t.qSendCache = rest ++ bytes s.qSendCache) ∧
    t.qSending = s.qSending

/-- What a returned code says about the data `d`, of which the kernel took `k`. -/
def Says (s t : RupSock) (d k : List UInt8) : Cmnerr → Prop
  | .suc => k = d
  | .sendPending => ∃ rest, k ++ rest = d ∧ Stored s t rest
  | .ioErr => t.qSendCache = s.qSendCache ∧ t.qSending = s.qSending
  | _ => False

/-- A call of `send` with the data `d` tells the truth, and releases the lock it acquired. -/
structure Truthful (s : RupSock) (d : List UInt8) (x : Eff Ev Fault (Cmnerr × RupSock)) : Prop where
  code : ∀ c t, x.res = .ok (c, t) → Says s t d (taken x.evs) c
  released : Released x.evs

/-- The data are handed to `::send` directly, and it takes nothing of them without an error. -/
def Dropped (s : RupSock) (len : ℕ) (io : SendIo) : Prop :=
  s.lkSending = false ∧ s.qSendCache = [] ∧
    (io = .wouldBlock ∧ 0 < len ∨ ∃ n, io = .took n ∧ min n len = 0)

variable {s : RupSock} {p : CMemBlock} {io : SendIo} {fresh : ℕ → UInt8} {pV : List UInt8}

/-! ### The direct `::send` -/

theorem direct_took {n : ℕ} (h : min n p.len ≠ 0) : direct s p (.took n) =
    ⟨[.taken (p.data.take (min n p.len)), .unlock], .ok
      (if min n p.len < p.len then
        (.sendPending, { s with qSendCache := p.decHeadData (min n p.len) :: s.qSendCache })
      else (.suc, s))⟩ := by
  simp only [direct, Eff.require_pos h, Eff.pure_bind]
  split_ifs <;> rfl

theorem direct_none {n : ℕ} (h : min n p.len = 0) : direct s p (.took n) =
    ⟨[.taken (p.data.take (min n p.len))], .error .sendRet⟩ := by
  simp only [direct, Eff.require_neg (not_not.mpr h), Eff.abort_bind]
  rfl

theorem direct_truthful (io : SendIo) (hs : s.lkSending = false) (hq : s.qSendCache = [])
    (hp : p.Fits) :
    Truthful s p.data (.emit .lock >>= fun _ => direct s p io) ↔ ¬ Dropped s p.len io := by
  have hstuck : Dropped s p.len io ↔
      (io = .wouldBlock ∧ 0 < p.len ∨ ∃ n, io = .took n ∧ min n p.len = 0) :=
    ⟨fun h => h.2.2, fun h => ⟨hs, hq, h⟩⟩
  rw [hstuck]
  rcases io with n | - | - | -
  case took =>
    by_cases hn : min n p.len = 0
    · refine ⟨fun h => ?_, fun h => absurd (Or.inr ⟨n, rfl, hn⟩) h⟩
      -- the assert fails, and the lock is still held
      have hrel := h.released
      rw [direct_none hn] at hrel
      cases hrel
    · refine ⟨fun _ => ?_, fun _ => ?_⟩
      · rintro (⟨h, -⟩ | ⟨m, h, hm⟩)
        · cases h
        · cases h; exact hn hm
      · rw [direct_took hn]
        refine ⟨fun c t h => ?_, rfl⟩
        have htaken : taken [.lock, .taken (p.data.take (min n p.len)), .unlock] =
            p.data.take (min n p.len) := List.append_nil _
        split_ifs at h with hlt
        · cases h
          refine ⟨(p.decHeadData (min n p.len)).data, ?_, Or.inr rfl, rfl⟩
          exact (congrArg (· ++ _) htaken).trans (decHead_part hp (Nat.min_le_right n p.len)).2
        · cases h
          refine htaken.trans (List.take_of_length_le ?_)
          rw [CMemBlock.length_data]
          omega
  case wouldBlock =>
    refine ⟨fun h => ?_, fun h => ⟨fun c t h' => ?_, rfl⟩⟩
    · -- the code says that the data are in the cache, and the cache is as it was
      obtain ⟨rest, hrest, hst, -⟩ := h.code .sendPending s rfl
      have hnil : rest = [] := by rcases hst with hst | hst <;> simpa using hst
      have hdata : p.data = [] := hrest.symm.trans hnil
      have hlen : p.len = 0 := by rw [← CMemBlock.length_data, hdata]; rfl
      rintro (⟨-, h⟩ | ⟨n, h, -⟩)
      · omega
      · cases h
    · cases h'
      have hlen : p.len = 0 := by
        by_contra hne
        exact h (Or.inl ⟨rfl, by omega⟩)
      have hdata : p.data = [] :=
        List.eq_nil_of_length_eq_zero (by rw [CMemBlock.length_data, hlen])
      exact ⟨[], hdata.symm, Or.inr rfl, rfl⟩
  all_goals
    refine ⟨fun _ => ?_, fun _ => ⟨fun c t h => ?_, rfl⟩⟩
    · rintro (⟨h, -⟩ | ⟨n, h, -⟩) <;> cases h
    · cases h
      exact ⟨rfl, rfl⟩

/-! ### Data that go into the cache -/

theorem newMem_of_le (fresh : ℕ → UInt8) (h : pV.length ≤ maxMemSize) :
    (newMem fresh pV).Fits ∧ (newMem fresh pV).data = pV := by
  obtain ⟨b, hb, hfit, hdata⟩ := CMemBlock.append_of_le (CMemBlock.fits_new fresh)
    (by rw [show (CMemBlock.new fresh).len = 0 from rfl, Nat.zero_add]; exact h)
  unfold newMem
  rw [hb]
  exact ⟨hfit, hdata⟩

theorem newMem_len (fresh : ℕ → UInt8) (h : pV.length ≤ maxMemSize) :
    (newMem fresh pV).len = pV.length := by
  rw [← CMemBlock.length_data, (newMem_of_le fresh h).2]

theorem cacheBytes_eq (h : pV.length ≤ maxMemSize) : ∀ q : List CMemBlock,
    cacheBytes fresh pV q = cacheData q (newMem fresh pV)
  | [] => rfl
  | [b] => by
    unfold cacheBytes cacheData
    rw [(newMem_of_le fresh h).2]
  | b :: c :: q => congrArg (b :: ·) (cacheBytes_eq h (c :: q))

theorem cached_truthful {d : List UInt8} {q : List CMemBlock} {evs : List Ev}
    (hq : bytes q = bytes s.qSendCache ++ d) (ht : taken evs = []) (hr : Released evs) :
    Truthful s d ⟨evs, .ok (.sendPending, { s with qSendCache := q })⟩ := by
  refine ⟨fun c t h => ?_, hr⟩
  cases h
  exact ⟨d, by rw [ht]; rfl, Or.inl hq, rfl⟩

/-! ### The two overloads -/

/-- For data that fit a block the byte overload does what the other does with a new block, but for
the assert on the length. -/
theorem sendBytes_eq (h : pV.length ≤ maxMemSize) (hpos : 0 < pV.length) :
    sendBytes s fresh pV io = send s (newMem fresh pV) io := by
  unfold sendBytes send
  rw [cacheBytes_eq h, Eff.require_pos (by rw [newMem_len fresh h]; exact hpos)]
  rfl

theorem send_eq (hpos : 0 < p.len) : send s p io =
    if s.lkSending then ⟨[], .ok (.sendPending, { s with qSendCache := cacheData s.qSendCache p })⟩
    else if s.qSendCache ≠ [] then
      ⟨[.lock, .unlock], .ok (.sendPending, { s with qSendCache := cacheData s.qSendCache p })⟩
    else .emit .lock >>= fun _ => direct s p io := by
  unfold send
  rw [Eff.require_pos hpos]
  split_ifs <;> rfl

theorem send_cached (io : SendIo) (hpos : 0 < p.len) (h : s.lkSending = true ∨ s.qSendCache ≠ []) :
    ∃ evs, taken evs = [] ∧ Released evs ∧ send s p io =
      ⟨evs, .ok (.sendPending, { s with qSendCache := cacheData s.qSendCache p })⟩ := by
  rw [send_eq hpos]
  split_ifs with hlk hq
  · exact ⟨[], rfl, rfl, rfl⟩
  · exact ⟨[.lock, .unlock], rfl, rfl, rfl⟩
  · exact absurd h (by rintro (h | h); exacts [hlk h, hq h])

theorem send_direct (hpos : 0 < p.len) (hs : s.lkSending = false) (hq : s.qSendCache = []) :
    send s p io = .emit .lock >>= fun _ => direct s p io := by
  rw [send_eq hpos, if_neg (by simpa using hs), if_neg (not_not.mpr hq)]

theorem not_dropped_busy {len : ℕ} (h : s.lkSending = true ∨ s.qSendCache ≠ []) :
    ¬ Dropped s len io := by
  rintro ⟨hs, hq, -⟩
  rcases h with h | h
  · rw [hs] at h; cases h
  · exact h hq

theorem send_truthful (hs : AllFit s.qSendCache) (hp : p.Fits) (hpos : 0 < p.len) :
    Truthful s p.data (send s p io) ↔ ¬ Dropped s p.len io := by
  by_cases hq : s.lkSending = true ∨ s.qSendCache ≠ []
  · obtain ⟨evs, ht, hr, heq⟩ := send_cached io hpos hq
    rw [heq]
    exact iff_of_true (cached_truthful (bytes_cacheData hp hs).2 ht hr) (not_dropped_busy hq)
  · obtain ⟨hlk, hnil⟩ := not_or.mp hq
    rw [send_direct hpos (by simpa using hlk) (not_not.mp hnil)]
    exact direct_truthful io (by simpa using hlk) (not_not.mp hnil) hp

theorem sendBytes_truthful (hs : AllFit s.qSendCache) (h : pV.length ≤ maxMemSize) :
    Truthful s pV (sendBytes s fresh pV io) ↔ ¬ Dropped s pV.length io := by
  obtain ⟨hfit, hdata⟩ := newMem_of_le fresh h
  have hq : bytes (cacheBytes fresh pV s.qSendCache) = bytes s.qSendCache ++ pV := by
    rw [cacheBytes_eq h, (bytes_cacheData hfit hs).2, hdata]
  unfold sendBytes
  split_ifs with hlk hne
  · exact iff_of_true (cached_truthful hq rfl rfl) (not_dropped_busy (Or.inl hlk))
  · exact iff_of_true (cached_truthful (q := cacheBytes fresh pV s.qSendCache) hq rfl rfl)
      (not_dropped_busy (Or.inr hne))
  · have hdir := direct_truthful (s := s) io (by simpa using hlk) (not_not.mp hne) hfit
    rwa [hdata, newMem_len fresh h] at hdir

/-- **What the codes of `send` say is true**, for both overloads, unless the data are handed to the
kernel directly and it takes nothing without an error: then the block overload with an empty block
is the only one that does no harm, because of its first assert. -/
theorem truthful_iff (s : RupSock) (hs : AllFit s.qSendCache) (io : SendIo) :
    (∀ p : CMemBlock, p.Fits →
      (Truthful s p.data (send s p io) ↔ ¬ (0 < p.len ∧ Dropped s p.len io))) ∧
    ∀ (fresh : ℕ → UInt8) (pV : List UInt8), pV.length ≤ maxMemSize →
      (Truthful s pV (sendBytes s fresh pV io) ↔ ¬ Dropped s pV.length io) := by
  refine ⟨fun p hp => ?_, fun fresh pV h => sendBytes_truthful hs h⟩
  rcases Nat.eq_zero_or_pos p.len with hzero | hpos
  · have habort : send s p io = .abort .dataLen := by
      unfold send
      rw [Eff.require_neg (by omega)]
      rfl
    rw [habort]
    exact iff_of_true ⟨nofun, rfl⟩ fun h => by omega
  · rw [send_truthful hs hp hpos, and_iff_right hpos]

theorem truthful_iff_idle :
    let s : RupSock := ⟨[], [], false⟩
    (∀ p : CMemBlock, p.Fits →
      (Truthful s p.data (send s p (.took 2)) ↔ ¬ (0 < p.len ∧ Dropped s p.len (.took 2)))) ∧
    ∀ (fresh : ℕ → UInt8) (pV : List UInt8), pV.length ≤ maxMemSize →
      (Truthful s pV (sendBytes s fresh pV (.took 2)) ↔ ¬ Dropped s pV.length (.took 2)) :=
  truthful_iff ⟨[], [], false⟩ (fun _ h => absurd h List.not_mem_nil) (.took 2)

/-- **A full kernel buffer loses the message**: three bytes on an idle socket. The code says that
they are pending; no queue holds them. -/
theorem pending_lost :
    let s : RupSock := ⟨[], [], false⟩
    let p : CMemBlock := .ofBytes [1, 2, 3]
    (send s p .wouldBlock).res = .ok (.sendPending, s) ∧
      taken (send s p .wouldBlock).evs = [] ∧ ¬ Truthful s p.data (send s p .wouldBlock) := by
  refine ⟨rfl, rfl, fun h => ?_⟩
  obtain ⟨rest, hrest, hst, -⟩ := h.code .sendPending _ rfl
  have hnil : rest = [] := by rcases hst with hst | hst <;> simpa using hst
  have hdata : (CMemBlock.ofBytes [1, 2, 3]).data = [] := hrest.symm.trans hnil
  revert hdata
  decide

end SmartNet.Network.Rup.Send

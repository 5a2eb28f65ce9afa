import SmartNet.Network.Rup.Send

/-! # The byte overload of `CRupSock::send`

The byte overload copies its data into a new block. Data that fit a block are treated as the other
overload treats them. `NEW_MEM` ignores the length it is given, and nobody looks at what `append`
returns: of longer data nothing is copied.

* `send_congr`: what `send` does depends on the bytes of its block only;
* `agrees_iff`: the byte overload agrees with the block overload on data that fit a block; on longer
  data it is right only if the connection fails. -/

namespace SmartNet.Network.Rup.SendBytes

open SmartNet.Common SmartNet.Lib SmartNet.Memory.MemBlock SmartNet.Network.Rup.SendQueue
open SmartNet.Network.Rup.Send

/-- The same code, or the same assert, and the same bytes in both queues. -/
def SameRes : Except Fault (Cmnerr × RupSock) → Except Fault (Cmnerr × RupSock) → Prop
  | .ok (c, s), .ok (c', s') =>
    c = c' ∧ bytes s.qSendCache = bytes s'.qSendCache ∧ bytes s.qSending = bytes s'.qSending
  | .error e, .error e' => e = e'
  | _, _ => False

/-- The two calls do the same; the bytes the kernel takes are among the events. -/
structure Same (x y : Eff Ev Fault (Cmnerr × RupSock)) : Prop where
  evs : x.evs = y.evs
  res : SameRes x.res y.res

/-- A call with the data `d` fails with an error and no effect, or sends or queues all of them and
queues no empty block. -/
structure Whole (s : RupSock) (d : List UInt8) (c : Cmnerr) (t : RupSock) (evs : List Ev) :
    Prop where
  code : Says s t d (taken evs) c
  noEffect : c = .ioErr → taken evs = []
  notEmpty : ∀ b ∈ t.qSendCache, b.len = 0 → b ∈ s.qSendCache

/-- What the byte overload is to do: for data that fit a block what the other overload does with any
block that holds them, for longer data no harm. -/
def Agrees (s : RupSock) (fresh : ℕ → UInt8) (pV : List UInt8) (io : SendIo) : Prop :=
  if pV.length ≤ maxMemSize then
    ∀ b : CMemBlock, b.Fits → b.data = pV → Same (sendBytes s fresh pV io) (send s b io)
  else
    ∃ c t, (sendBytes s fresh pV io).res = .ok (c, t) ∧
      Whole s pV c t (sendBytes s fresh pV io).evs

variable {s : RupSock} {p b : CMemBlock} {io : SendIo} {fresh : ℕ → UInt8} {pV : List UInt8}

/-! ### Data that fit a block -/

theorem Same.refl (x : Eff Ev Fault (Cmnerr × RupSock)) : Same x x := by
  refine ⟨rfl, ?_⟩
  rcases x.res with e | ⟨c, s⟩
  · exact rfl
  · exact ⟨rfl, rfl, rfl⟩

theorem direct_congr (hp : p.Fits) (hb : b.Fits) (h : p.data = b.data) (io : SendIo) :
    Same (direct s p io) (direct s b io) := by
  have hlen : p.len = b.len := by rw [← CMemBlock.length_data, h, CMemBlock.length_data]
  rcases io with n | - | - | -
  case took =>
    by_cases hn : min n p.len = 0
    · rw [direct_none hn, direct_none (hlen ▸ hn), h, hlen]
      exact Same.refl _
    · rw [direct_took hn, direct_took (hlen ▸ hn), h, hlen]
      refine ⟨rfl, ?_⟩
      split_ifs with hlt
      · have hrest : (p.decHeadData (min n b.len)).data = (b.decHeadData (min n b.len)).data := by
          rw [CMemBlock.decHeadData_data hp (by omega), CMemBlock.decHeadData_data hb (by omega), h]
        exact ⟨rfl, congrArg (· ++ bytes s.qSendCache) hrest, rfl⟩
      · exact ⟨rfl, rfl, rfl⟩
  all_goals exact Same.refl _

/-- **What `send` does depends on the bytes of its block only.** -/
theorem send_congr (hs : AllFit s.qSendCache) (hp : p.Fits) (hb : b.Fits) (h : p.data = b.data)
    (hpos : 0 < p.len) (io : SendIo) : Same (send s p io) (send s b io) := by
  have hlen : p.len = b.len := by rw [← CMemBlock.length_data, h, CMemBlock.length_data]
  have hcache : bytes (cacheData s.qSendCache p) = bytes (cacheData s.qSendCache b) := by
    rw [(bytes_cacheData hp hs).2, (bytes_cacheData hb hs).2, h]
  rw [send_eq hpos, send_eq (hlen ▸ hpos)]
  split_ifs
  · exact ⟨rfl, rfl, hcache, rfl⟩
  · exact ⟨rfl, rfl, hcache, rfl⟩
  · obtain ⟨hevs, hres⟩ := direct_congr (s := s) hp hb h io
    exact ⟨congrArg (Ev.lock :: ·) hevs, hres⟩

theorem agrees_short (hs : AllFit s.qSendCache) (hpos : 0 < pV.length)
    (h : pV.length ≤ maxMemSize) : Agrees s fresh pV io := by
  unfold Agrees
  rw [if_pos h]
  intro b hb hdata
  obtain ⟨hfit, hnew⟩ := newMem_of_le fresh h
  rw [sendBytes_eq h hpos]
  exact send_congr hs hfit hb (hnew.trans hdata.symm) (by rw [newMem_len fresh h]; exact hpos) io

/-! ### Longer data -/

theorem newMem_of_gt (fresh : ℕ → UInt8) (h : maxMemSize < pV.length) :
    newMem fresh pV = CMemBlock.new fresh := by
  unfold newMem
  rw [CMemBlock.append_of_gt (CMemBlock.fits_new fresh) (by omega)]

theorem cacheBytes_of_gt (fresh : ℕ → UInt8) (h : maxMemSize < pV.length) :
    ∀ {q : List CMemBlock}, AllFit q → cacheBytes fresh pV q = q ++ [CMemBlock.new fresh]
  | [], _ => by
    show [newMem fresh pV] = _
    rw [newMem_of_gt fresh h]
    rfl
  | [b], hq => by
    unfold cacheBytes
    rw [CMemBlock.append_of_gt (hq b List.mem_cons_self) (by omega), newMem_of_gt fresh h]
    rfl
  | b :: c :: q, hq => congrArg (b :: ·) (cacheBytes_of_gt fresh h (allFit_cons.mp hq).2)

/-- A call that says that the data are pending, and has neither sent nor queued a byte. -/
theorem not_whole {q : List CMemBlock} {evs : List Ev} (hpos : 0 < pV.length)
    (hq : bytes q = bytes s.qSendCache) (ht : taken evs = []) :
    ¬ Whole s pV .sendPending { s with qSendCache := q } evs := by
  intro h
  obtain ⟨rest, hrest, hst, -⟩ := h.code
  have hnil : rest = [] := by
    change bytes q = _ ∨ bytes q = _ at hst
    rw [hq] at hst
    rcases hst with hst | hst <;> simpa using hst
  rw [ht, hnil] at hrest
  rw [← hrest] at hpos
  exact absurd hpos (by decide)

/-- The connection fails during the direct `::send`. -/
def Fails (s : RupSock) (io : SendIo) : Prop :=
  s.lkSending = false ∧ s.qSendCache = [] ∧ (io = .intr ∨ io = .err)

theorem agrees_long (hs : AllFit s.qSendCache) (h : maxMemSize < pV.length) :
    Agrees s fresh pV io ↔ Fails s io := by
  have hpos : 0 < pV.length := by omega
  have hq : bytes (cacheBytes fresh pV s.qSendCache) = bytes s.qSendCache := by
    rw [cacheBytes_of_gt fresh h hs]
    unfold bytes
    rw [List.flatMap_append]
    exact List.append_nil _
  unfold Agrees
  rw [if_neg (by omega)]
  by_cases hbusy : s.lkSending = true ∨ s.qSendCache ≠ []
  · refine iff_of_false ?_ fun hf => ?_
    · rintro ⟨c, t, hres, hw⟩
      unfold sendBytes at hres hw
      split_ifs at hres hw with h1 h2
      · cases hres
        exact not_whole hpos hq rfl hw
      · cases hres
        exact not_whole hpos hq rfl hw
      · rcases hbusy with hlk | hne
        · exact h1 hlk
        · exact h2 hne
    · obtain ⟨hlk, hnil, -⟩ := hf
      rcases hbusy with h' | h'
      · rw [hlk] at h'; cases h'
      · exact h' hnil
  · obtain ⟨hlk, hne⟩ := not_or.mp hbusy
    have heq : sendBytes s fresh pV io =
        .emit .lock >>= fun _ => direct s (CMemBlock.new fresh) io := by
      unfold sendBytes
      rw [if_neg hlk, if_neg hne, newMem_of_gt fresh h]
    have hf : Fails s io ↔ (io = .intr ∨ io = .err) :=
      ⟨fun hf => hf.2.2, fun hio => ⟨by simpa using hlk, not_not.mp hne, hio⟩⟩
    rw [heq, hf]
    rcases io with n | - | - | -
    case took =>
      -- an empty block is sent, and the assert on the result fails
      refine iff_of_false ?_ (by rintro (h | h) <;> cases h)
      rintro ⟨c, t, hres, -⟩
      rw [direct_none (Nat.min_eq_right (Nat.zero_le n))] at hres
      cases hres
    case wouldBlock =>
      refine iff_of_false ?_ (by rintro (h | h) <;> cases h)
      rintro ⟨c, t, hres, hw⟩
      cases hres
      exact not_whole hpos rfl rfl hw
    case intr =>
      exact iff_of_true ⟨.ioErr, s, rfl, ⟨rfl, rfl⟩, fun _ => rfl, fun b hb _ => hb⟩ (Or.inl rfl)
    case err =>
      exact iff_of_true ⟨.ioErr, s, rfl, ⟨rfl, rfl⟩, fun _ => rfl, fun b hb _ => hb⟩ (Or.inr rfl)

/-- **The byte overload agrees with the block overload** exactly if the data fit a block or the
connection fails during a direct `::send`. -/
theorem agrees_iff (s : RupSock) (hs : AllFit s.qSendCache) (fresh : ℕ → UInt8) (pV : List UInt8)
    (hpos : 0 < pV.length) (io : SendIo) :
    Agrees s fresh pV io ↔ pV.length ≤ maxMemSize ∨ Fails s io := by
  rcases Nat.lt_or_ge maxMemSize pV.length with h | h
  · rw [agrees_long hs h, or_iff_right (by omega)]
  · exact iff_of_true (agrees_short hs hpos h) (Or.inl h)

theorem agrees_iff_idle :
    Agrees ⟨[], [], false⟩ (fun _ => 0) [1, 2, 3] (.took 2) ↔
      ([1, 2, 3] : List UInt8).length ≤ maxMemSize ∨ Fails ⟨[], [], false⟩ (.took 2) :=
  agrees_iff ⟨[], [], false⟩ (fun _ h => absurd h List.not_mem_nil) (fun _ => 0) [1, 2, 3]
    (by decide) (.took 2)

/-- **A message that is one byte too long**, while another thread sends: the code says that it is
pending, and an empty block is queued. -/
theorem too_long :
    let s : RupSock := ⟨[], [], true⟩
    let pV : List UInt8 := List.replicate (maxMemSize + 1) 0
    (∃ b, (sendBytes s (fun _ => 0) pV .wouldBlock).res =
      .ok (.sendPending, { s with qSendCache := [b] }) ∧ b.len = 0) ∧
      ¬ Agrees s (fun _ => 0) pV .wouldBlock := by
  intro s pV
  have hlen : maxMemSize < pV.length := by
    rw [show pV.length = maxMemSize + 1 from List.length_replicate]
    omega
  clear_value pV
  refine ⟨⟨CMemBlock.new fun _ => 0, ?_, rfl⟩, fun h => ?_⟩
  · show Except.ok (Cmnerr.sendPending, (⟨[newMem _ _], [], true⟩ : RupSock)) = _
    rw [newMem_of_gt _ hlen]
  · have hf := (agrees_long (s := s) (fun _ h => absurd h List.not_mem_nil) hlen).mp h
    cases hf.1

end SmartNet.Network.Rup.SendBytes

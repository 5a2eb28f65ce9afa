import SmartNet.Lib.Frontier
import SmartNet.Lib.Ring
import SmartNet.Network.Rmp.ControlPkgs

/-! # The reorder buffer

What a receiver is for is said by the set `seen` of packet numbers it has handled: it hands out the
packets up to the frontier of `seen`, and keeps those above it. `InOrder pay K seen s` says that the
socket `s` does this, for packets `q` with payload `pay q`, as long as nothing is kept more than `K`
above the frontier.

* `activate_spec`: the two scans of `recvep_handle_odata` find the run behind the gap that was
  closed and the first packet after it;
* `odata_dup`, `odata_wait`, `odata_next`: the three ways of handling a data packet;
* `drain_run`, `drain_ready`: `get_next_recved_data` hands out the run that was found. -/

namespace SmartNet.Network.Rmp.Reorder

open SmartNet.Common SmartNet.Lib SmartNet.Lib.Frontier SmartNet.Lib.Ring SmartNet.Memory.MemBlock
open SmartNet.Network.Udp SmartNet.Network.Rmp.Wire SmartNet.Network.Rmp.Recvep
open SmartNet.Network.Rmp.ControlPkgs

/-- `m_ui64UnvalidPkgBegin` and `m_ui64UnvalidPkgEnd` are the ends of the set that waits, or 0. -/
def Ends (W : Set ℕ) (b e : ℕ) : Prop :=
  b = 0 ∧ e = 0 ∧ W = ∅ ∨ b ∈ W ∧ e ∈ W ∧ ∀ q ∈ W, b ≤ q ∧ q ≤ e

/-- The part of the invariant that holds also while blocks are handed out. -/
structure Buffered (pay : ℕ → List UInt8) (K : ℕ) (seen : Set ℕ) (s : RecvSock) : Prop where
  frontier : IsFrontier seen s.latestRecvedValidSeqNo
  slots : Holds unorderedPkgsCnt s.vecUnvalidPkgs (waiting seen s.latestRecvedValidSeqNo)
    (fun q b => b.data = pay q)
  ends : Ends (waiting seen s.latestRecvedValidSeqNo) s.unvalidPkgBegin s.unvalidPkgEnd
  near : ∀ q ∈ waiting seen s.latestRecvedValidSeqNo, q ≤ s.latestRecvedValidSeqNo + K
  small : ∀ q ∈ seen, 1 ≤ q ∧ q < 2 ^ 64

/-- The same, with any account `val` of what the slot of a packet holds. -/
structure Kept (val : ℕ → CMemBlock → Prop) (K : ℕ) (seen : Set ℕ) (s : RecvSock) : Prop where
  frontier : IsFrontier seen s.latestRecvedValidSeqNo
  slots : Holds unorderedPkgsCnt s.vecUnvalidPkgs (waiting seen s.latestRecvedValidSeqNo) val
  ends : Ends (waiting seen s.latestRecvedValidSeqNo) s.unvalidPkgBegin s.unvalidPkgEnd
  near : ∀ q ∈ waiting seen s.latestRecvedValidSeqNo, q ≤ s.latestRecvedValidSeqNo + K
  small : ∀ q ∈ seen, 1 ≤ q ∧ q < 2 ^ 64

/-- **The invariant** of a receiver that has handled the packets `seen`. -/
structure InOrder (pay : ℕ → List UInt8) (K : ℕ) (seen : Set ℕ) (s : RecvSock) : Prop where
  buf : Buffered pay K seen s
  idle : Idle s.pMem
  validBegin : s.validPkgBegin = 0
  validEnd : s.validPkgEnd = 0

variable {pay : ℕ → List UInt8} {val : ℕ → CMemBlock → Prop} {K : ℕ} {seen : Set ℕ} {s : RecvSock}
  {b : CMemBlock}

theorem Kept.of_eq {t : RecvSock} (h : Kept val K seen s)
    (h1 : t.latestRecvedValidSeqNo = s.latestRecvedValidSeqNo)
    (h2 : t.vecUnvalidPkgs = s.vecUnvalidPkgs) (h3 : t.unvalidPkgBegin = s.unvalidPkgBegin)
    (h4 : t.unvalidPkgEnd = s.unvalidPkgEnd) :
    Kept val K seen t :=
  ⟨h1 ▸ h.frontier, by rw [h1, h2]; exact h.slots, by rw [h1, h3, h4]; exact h.ends,
    by rw [h1]; exact h.near, h.small⟩

theorem buffered_iff : Buffered pay K seen s ↔ Kept (fun q b => b.data = pay q) K seen s :=
  ⟨fun h => ⟨h.frontier, h.slots, h.ends, h.near, h.small⟩,
    fun h => ⟨h.frontier, h.slots, h.ends, h.near, h.small⟩⟩

theorem Buffered.of_eq {t : RecvSock} (h : Buffered pay K seen s)
    (h1 : t.latestRecvedValidSeqNo = s.latestRecvedValidSeqNo)
    (h2 : t.vecUnvalidPkgs = s.vecUnvalidPkgs) (h3 : t.unvalidPkgBegin = s.unvalidPkgBegin)
    (h4 : t.unvalidPkgEnd = s.unvalidPkgEnd) :
    Buffered pay K seen t :=
  buffered_iff.mpr ((buffered_iff.mp h).of_eq h1 h2 h3 h4)

theorem InOrder.of_same {t : RecvSock} (h : InOrder pay K seen s) (hst : Same s t) :
    InOrder pay K seen t :=
  ⟨h.buf.of_eq hst.latest hst.vecUnvalidPkgs hst.unvalidPkgBegin hst.unvalidPkgEnd, by
    rw [hst.pMem]; exact h.idle, hst.validPkgBegin.trans h.validBegin,
      hst.validPkgEnd.trans h.validEnd⟩

theorem kept_open (sid : UInt8) (cnt : ℕ) : Kept val K ∅ (Recvep.open sid cnt) := by
  have hw : waiting ∅ 0 = ∅ := waiting_empty
  refine ⟨IsFrontier.empty, ?_, Or.inl ⟨rfl, rfl, hw⟩, ?_, fun _ h => h.elim⟩
  · show Holds _ _ (waiting ∅ 0) _
    rw [hw]; exact Holds.empty
  · exact fun q h => h.1.elim

theorem inOrder_open (sid : UInt8) (cnt : ℕ) : InOrder pay K ∅ (Recvep.open sid cnt) := by
  refine ⟨buffered_iff.mpr (kept_open sid cnt), ?_, rfl, rfl⟩
  exact fun b h => by cases h

theorem frontier_lt {L : ℕ} (h : IsFrontier seen L) (hsmall : ∀ q ∈ seen, 1 ≤ q ∧ q < 2 ^ 64) :
    L < 2 ^ 64 := by
  rcases Nat.eq_zero_or_pos L with h0 | h0
  · rw [h0]; norm_num
  · exact (hsmall _ (h.below _ h0 (Nat.le_refl _))).2

theorem Kept.latest_lt (h : Kept val K seen s) : s.latestRecvedValidSeqNo < 2 ^ 64 :=
  frontier_lt h.frontier h.small

theorem Buffered.latest_lt (h : Buffered pay K seen s) : s.latestRecvedValidSeqNo < 2 ^ 64 :=
  (buffered_iff.mp h).latest_lt

theorem Kept.begin_zero_iff (h : Kept val K seen s) :
    s.unvalidPkgBegin = 0 ↔ waiting seen s.latestRecvedValidSeqNo = ∅ := by
  rcases h.ends with ⟨h0, -, hW⟩ | ⟨hb, -, -⟩
  · exact ⟨fun _ => hW, fun _ => h0⟩
  · have hpos := (h.small _ hb.1).1
    refine ⟨fun h0 => by omega, fun hW => ?_⟩
    rw [hW] at hb; exact hb.elim

theorem Buffered.begin_zero_iff (h : Buffered pay K seen s) :
    s.unvalidPkgBegin = 0 ↔ waiting seen s.latestRecvedValidSeqNo = ∅ :=
  (buffered_iff.mp h).begin_zero_iff

/-! ### The scans -/

theorem findValidPkgEnd_spec (slots : ℕ → Option CMemBlock) : ∀ k e, e + k < 2 ^ 64 →
    e ≤ findValidPkgEnd slots k e ∧ findValidPkgEnd slots k e ≤ e + k ∧
      (∀ q, e < q → q ≤ findValidPkgEnd slots k e → slots (q % unorderedPkgsCnt) ≠ none) ∧
      (findValidPkgEnd slots k e = e + k ∨
        slots ((findValidPkgEnd slots k e + 1) % unorderedPkgsCnt) = none)
  | 0, e, _ => ⟨Nat.le_refl _, Nat.le_refl _, fun q h1 h2 => by
      simp only [findValidPkgEnd] at h2; omega, Or.inl rfl⟩
  | k + 1, e, h => by
    have hu : u64 (e + 1) = e + 1 := u64_of_lt (by omega)
    unfold findValidPkgEnd
    rw [hu]
    by_cases hs : slots ((e + 1) % unorderedPkgsCnt) = none
    · rw [if_pos hs]
      exact ⟨Nat.le_refl _, by omega, fun q h1 h2 => by omega, Or.inr hs⟩
    · rw [if_neg hs]
      obtain ⟨h1, h2, h3, h4⟩ := findValidPkgEnd_spec slots k (e + 1) (by omega)
      refine ⟨by omega, by omega, fun q hq1 hq2 => ?_, ?_⟩
      · rcases Nat.eq_or_lt_of_le (Nat.succ_le_of_lt hq1) with rfl | hlt
        · exact hs
        · exact h3 q hlt hq2
      · rcases h4 with h4 | h4
        · exact Or.inl (by omega)
        · exact Or.inr h4

theorem findUnvalidPkgBegin_spec (slots : ℕ → Option CMemBlock) : ∀ k b, b + k < 2 ^ 64 →
    b ≤ findUnvalidPkgBegin slots k b ∧ findUnvalidPkgBegin slots k b ≤ b + k ∧
      (∀ q, b ≤ q → q < findUnvalidPkgBegin slots k b → slots (q % unorderedPkgsCnt) = none) ∧
      (findUnvalidPkgBegin slots k b = b + k ∨
        slots (findUnvalidPkgBegin slots k b % unorderedPkgsCnt) ≠ none)
  | 0, b, _ => ⟨Nat.le_refl _, Nat.le_refl _, fun q h1 h2 => by
      simp only [findUnvalidPkgBegin] at h2; omega, Or.inl rfl⟩
  | k + 1, b, h => by
    have hu : u64 (b + 1) = b + 1 := u64_of_lt (by omega)
    unfold findUnvalidPkgBegin
    by_cases hs : slots (b % unorderedPkgsCnt) = none
    · rw [if_pos hs, hu]
      obtain ⟨h1, h2, h3, h4⟩ := findUnvalidPkgBegin_spec slots k (b + 1) (by omega)
      refine ⟨by omega, by omega, fun q hq1 hq2 => ?_, ?_⟩
      · rcases Nat.eq_or_lt_of_le hq1 with rfl | hlt
        · exact hs
        · exact h3 q hlt hq2
      · rcases h4 with h4 | h4
        · exact Or.inl (by omega)
        · exact Or.inr h4
    · rw [if_neg hs]
      exact ⟨Nat.le_refl _, by omega, fun q h1 h2 => by omega, Or.inr hs⟩

/-- A slot between the ends is filled exactly if its number waits: the two ends are at most
`unorderedPkgsCnt` apart, and as they do not share a slot, less. -/
theorem filled_iff {W : Set ℕ} {b e q : ℕ} {slots : ℕ → Option CMemBlock}
    {val : ℕ → CMemBlock → Prop} (h : Holds unorderedPkgsCnt slots W val) (hb : b ∈ W) (he : e ∈ W)
    (hW : ∀ q ∈ W, b ≤ q ∧ q ≤ e) (hspan : e ≤ b + unorderedPkgsCnt) (hbq : b ≤ q) (hqe : q ≤ e) :
    slots (q % unorderedPkgsCnt) ≠ none ↔ q ∈ W := by
  have hlt : e < b + unorderedPkgsCnt := by
    refine Nat.lt_of_le_of_ne hspan fun heq => ?_
    have hmod : e % unorderedPkgsCnt = b % unorderedPkgsCnt := by rw [heq, Nat.add_mod_right]
    have := h.inj e he b hb hmod
    unfold unorderedPkgsCnt at heq
    omega
  have halone : ∀ r ∈ W, r % unorderedPkgsCnt = q % unorderedPkgsCnt → r = q := fun r hr hm => by
    have := hW r hr
    exact mod_inj (by omega) (by omega) hbq (by omega) hm
  rw [← h.isSome_iff halone, Option.isSome_iff_ne_none]

/-- **The activation scans.** With the waiting packets `W` in the buffer, the run from
`unvalidPkgBegin` to `validPkgEnd` is the longest one in `W`, and the new ends are those of the
rest. -/
theorem activate_spec {W : Set ℕ}
    (h : Holds unorderedPkgsCnt s.vecUnvalidPkgs W val) (hb : s.unvalidPkgBegin ∈ W)
    (he : s.unvalidPkgEnd ∈ W) (hW : ∀ q ∈ W, s.unvalidPkgBegin ≤ q ∧ q ≤ s.unvalidPkgEnd)
    (hspan : s.unvalidPkgEnd ≤ s.unvalidPkgBegin + unorderedPkgsCnt)
    (hlt : s.unvalidPkgEnd < 2 ^ 64) :
    ∃ e b' e', activate s = { s with
        validPkgBegin := s.unvalidPkgBegin
        validPkgEnd := e
        unvalidPkgBegin := b'
        unvalidPkgEnd := e'
        latestRecvedValidSeqNo := e } ∧
      s.unvalidPkgBegin ≤ e ∧ e ≤ s.unvalidPkgEnd ∧ (∀ q, s.unvalidPkgBegin ≤ q → q ≤ e → q ∈ W) ∧
      e + 1 ∉ W ∧ Ends {q | q ∈ W ∧ e < q} b' e' := by
  have hbe := (hW _ hb).2
  have hk : s.unvalidPkgBegin + (s.unvalidPkgEnd - s.unvalidPkgBegin) = s.unvalidPkgEnd := by omega
  have hfill : ∀ q, s.unvalidPkgBegin ≤ q → q ≤ s.unvalidPkgEnd →
      (s.vecUnvalidPkgs (q % unorderedPkgsCnt) ≠ none ↔ q ∈ W) :=
    fun q h1 h2 => filled_iff h hb he hW hspan h1 h2
  obtain ⟨h1, h2, h3, h4⟩ := findValidPkgEnd_spec s.vecUnvalidPkgs
    (s.unvalidPkgEnd - s.unvalidPkgBegin) s.unvalidPkgBegin (by omega)
  rw [hk] at h2 h4
  set e :=
    findValidPkgEnd s.vecUnvalidPkgs (s.unvalidPkgEnd - s.unvalidPkgBegin)
      s.unvalidPkgBegin with hedef
  have hrun : ∀ q, s.unvalidPkgBegin ≤ q → q ≤ e → q ∈ W := fun q hq1 hq2 => by
    rcases Nat.eq_or_lt_of_le hq1 with rfl | hq
    · exact hb
    · exact (hfill q hq1 (by omega)).mp (h3 q hq hq2)
  by_cases hend : e < s.unvalidPkgEnd
  · have hu : u64 (e + 1) = e + 1 := u64_of_lt (by omega)
    have hgap : e + 1 ∉ W := fun hmem => by
      have hne := (hfill (e + 1) (by omega) (by omega)).mpr hmem
      rcases h4 with h4 | h4
      · omega
      · exact hne h4
    obtain ⟨g1, g2, g3, g4⟩ := findUnvalidPkgBegin_spec s.vecUnvalidPkgs
      (s.unvalidPkgEnd - (e + 1)) (e + 1) (by omega)
    have hk' : e + 1 + (s.unvalidPkgEnd - (e + 1)) = s.unvalidPkgEnd := by omega
    rw [hk'] at g2 g4
    set b' := findUnvalidPkgBegin s.vecUnvalidPkgs (s.unvalidPkgEnd - (e + 1)) (e + 1) with hbdef
    have hb' : b' ∈ W := by
      rcases g4 with g4 | g4
      · rw [g4]; exact he
      · exact (hfill b' (by omega) (by omega)).mp g4
    refine ⟨e, b', s.unvalidPkgEnd, ?_, h1, h2, hrun, hgap,
      Or.inr ⟨⟨hb', by omega⟩, ⟨he, hend⟩, ?_⟩⟩
    · simp only [activate, ← hedef, if_pos hend, hu, ← hbdef]
    · rintro q ⟨hq, hlt'⟩
      refine ⟨?_, (hW q hq).2⟩
      by_contra hqb
      exact (hfill q (by omega) (hW q hq).2).mpr hq (g3 q (by omega) (by omega))
  · have heq : e = s.unvalidPkgEnd := by omega
    have hempty : {q | q ∈ W ∧ e < q} = ∅ := by
      refine Set.eq_empty_of_forall_notMem fun q hq => ?_
      have h1 := (hW q hq.1).2
      have h2 := hq.2
      omega
    refine ⟨e, 0, 0, ?_, h1, h2, hrun, fun hmem => ?_, Or.inl ⟨rfl, rfl, hempty⟩⟩
    · simp only [activate, ← hedef, if_neg hend]
    · have := (hW _ hmem).2
      omega

/-! ### Handling a data packet -/

theorem odata_dup (hl : s.latestRecvedValidSeqNo < 2 ^ 64) (h1 : 1 ≤ b.get64 0)
    (hle : b.get64 0 ≤ s.latestRecvedValidSeqNo) :
    recvepHandleOdata s b = pure (.suc, { s with pMem := some (b.decHeadData 8).reset }) := by
  have hne : b.get64 0 ≠ u64 (1 + s.latestRecvedValidSeqNo) := by
    unfold u64; omega
  simp only [recvepHandleOdata, if_neg hne, if_pos hle]

theorem ends_insert {W : Set ℕ} {b e q : ℕ} (h : Ends W b e) (hq : b = 0 ↔ W = ∅) :
    Ends (insert q W) (if b = 0 ∨ q < b then q else b)
      (if b = 0 ∨ b ≤ q ∧ e < q then q else e) := by
  rcases h with ⟨rfl, rfl, rfl⟩ | ⟨hb, he, hW⟩
  · refine Or.inr ⟨Or.inl rfl, Or.inl rfl, ?_⟩
    rintro r (rfl | hr)
    · exact ⟨by simp, by simp⟩
    · exact hr.elim
  · have hb0 : b ≠ 0 := fun h0 => by rw [hq.mp h0] at hb; exact hb
    have hbe := (hW b hb).2
    simp only [hb0, false_or]
    refine Or.inr ⟨?_, ?_, ?_⟩
    · split_ifs
      · exact Or.inl rfl
      · exact Or.inr hb
    · split_ifs
      · exact Or.inl rfl
      · exact Or.inr he
    · rintro r (rfl | hr)
      · constructor <;> split_ifs <;> omega
      · have := hW r hr
        constructor <;> split_ifs <;> omega

theorem Kept.store {q : ℕ} {p : CMemBlock} (h : Kept val K seen s)
    (hq : s.latestRecvedValidSeqNo + 1 < q) (hlt : q < 2 ^ 64)
    (hnear : q ≤ s.latestRecvedValidSeqNo + K)
    (hfree : s.vecUnvalidPkgs (q % unorderedPkgsCnt) = none) (hp : val q p)
    (pMem : Option CMemBlock) :
    Kept val K (insert q seen) { s with
      unvalidPkgBegin := if s.unvalidPkgBegin = 0 ∨ q < s.unvalidPkgBegin
        then q else s.unvalidPkgBegin
      unvalidPkgEnd := if s.unvalidPkgBegin = 0 ∨ s.unvalidPkgBegin ≤ q ∧ s.unvalidPkgEnd < q
        then q else s.unvalidPkgEnd
      vecUnvalidPkgs := Function.update s.vecUnvalidPkgs (q % unorderedPkgsCnt) (some p)
      pMem := pMem } := by
  have hw : waiting (Insert.insert q seen) s.latestRecvedValidSeqNo =
      Insert.insert q (waiting seen s.latestRecvedValidSeqNo) := waiting_insert_of_gt (by omega)
  refine ⟨h.frontier.insert_of_ne (by omega), ?_, ?_, ?_, ?_⟩
  · simp only [hw]
    exact h.slots.store hfree hp
  · simp only [hw]
    exact ends_insert h.ends h.begin_zero_iff
  · simp only [hw]
    rintro r (rfl | hr)
    · exact hnear
    · exact h.near r hr
  · rintro r (rfl | hr)
    · exact ⟨by omega, hlt⟩
    · exact h.small r hr

theorem widen_eq {q : ℕ} (hl : s.latestRecvedValidSeqNo ≤ q) (hq : q < 2 ^ 64)
    (hnear : s.unvalidPkgBegin ≠ 0 → s.unvalidPkgBegin ≤ q → s.unvalidPkgEnd < q →
      q ≤ s.latestRecvedValidSeqNo + unorderedPkgsCnt) :
    widen s q = pure { s with
      unvalidPkgBegin := if s.unvalidPkgBegin = 0 ∨ q < s.unvalidPkgBegin
        then q else s.unvalidPkgBegin
      unvalidPkgEnd := if s.unvalidPkgBegin = 0 ∨ s.unvalidPkgBegin ≤ q ∧ s.unvalidPkgEnd < q
        then q else s.unvalidPkgEnd } := by
  unfold widen
  rw [sub64_of_le hq hl]
  by_cases h0 : s.unvalidPkgBegin = 0
  · simp [h0]
  by_cases h1 : q < s.unvalidPkgBegin
  · simp [h0, h1, Nat.not_le.mpr h1]
  by_cases h2 : s.unvalidPkgEnd < q
  · have h3 : ¬ unorderedPkgsCnt < q - s.latestRecvedValidSeqNo := by
      have := hnear h0 (by omega) h2
      omega
    simp [h0, h1, h2, h3, Nat.not_lt.mp h1]
  · simp [h0, h1, h2]

theorem widen_beyond {q : ℕ} (hl : s.latestRecvedValidSeqNo ≤ q) (hq : q < 2 ^ 64)
    (h0 : s.unvalidPkgBegin ≠ 0) (h1 : s.unvalidPkgBegin ≤ q) (h2 : s.unvalidPkgEnd < q)
    (h3 : s.latestRecvedValidSeqNo + unorderedPkgsCnt < q) :
    widen s q = Eff.abort .beyondLimitation := by
  unfold widen
  rw [sub64_of_le hq hl, if_neg h0, if_neg (by omega), if_pos h2, if_pos (by omega)]

/-- **A packet above the next one** is stored, or runs into one of the two asserts. -/
theorem Kept.odata_wait {q : ℕ} (h : Kept val K seen s) (hK : unorderedPkgsCnt ≤ K)
    (hseq : b.get64 0 = q) (hq : s.latestRecvedValidSeqNo + 1 < q) (hlt : q < 2 ^ 64)
    (hopen : waiting seen s.latestRecvedValidSeqNo = ∅ → q ≤ s.latestRecvedValidSeqNo + K)
    (hp : val q (b.decHeadData 8)) :
    recvepHandleOdata s b = Eff.abort .beyondLimitation ∧
        waiting seen s.latestRecvedValidSeqNo ≠ ∅ ∧
          s.latestRecvedValidSeqNo + unorderedPkgsCnt < q ∨
      recvepHandleOdata s b = Eff.abort .slotTaken ∧
        (∃ r ∈ waiting seen s.latestRecvedValidSeqNo, r % unorderedPkgsCnt = q % unorderedPkgsCnt) ∨
      ∃ s', recvepHandleOdata s b = pure (.suc, s') ∧ Kept val K (insert q seen) s' ∧
        s'.pMem = none ∧ s'.latestRecvedValidSeqNo = s.latestRecvedValidSeqNo ∧
        s'.validPkgBegin = s.validPkgBegin ∧ s'.validPkgEnd = s.validPkgEnd := by
  have hll := h.latest_lt
  have hne : ¬ q = u64 (1 + s.latestRecvedValidSeqNo) := by unfold u64; omega
  have hgt : ¬ q ≤ s.latestRecvedValidSeqNo := by omega
  simp only [recvepHandleOdata, hseq, if_neg hne, if_neg hgt]
  by_cases hbeyond : s.unvalidPkgBegin ≠ 0 ∧ s.unvalidPkgBegin ≤ q ∧ s.unvalidPkgEnd < q ∧
      s.latestRecvedValidSeqNo + unorderedPkgsCnt < q
  · obtain ⟨h0, h1, h2, h3⟩ := hbeyond
    left
    rw [widen_beyond (by omega) hlt h0 h1 h2 h3, Eff.abort_bind]
    exact ⟨rfl, fun hW => h0 (h.begin_zero_iff.mpr hW), h3⟩
  right
  have hnear : q ≤ s.latestRecvedValidSeqNo + K := by
    rcases h.ends with ⟨h0, -, hW⟩ | ⟨hb, he, -⟩
    · exact hopen hW
    · have h1 := h.near _ hb
      have h2 := h.near _ he
      have h3 := (h.small _ hb.1).1
      by_contra hfar
      exact hbeyond ⟨by omega, by omega, by omega, by omega⟩
  rw [widen_eq (by omega) hlt (fun h0 h1 h2 => by
    by_contra hfar
    exact hbeyond ⟨h0, h1, h2, by omega⟩), Eff.pure_bind]
  by_cases hfree : s.vecUnvalidPkgs (q % unorderedPkgsCnt) = none
  · right
    simp only [Eff.require_pos hfree, Eff.pure_bind]
    exact ⟨_, rfl, h.store hq hlt hnear hfree hp none, rfl, rfl, rfl, rfl⟩
  · left
    simp only [Eff.require_neg hfree, Eff.abort_bind]
    obtain ⟨c, hc⟩ := Option.ne_none_iff_exists'.mp hfree
    exact ⟨trivial, h.slots.only _ c hc⟩

theorem odata_wait {q : ℕ} (h : Buffered pay K seen s) (hK : unorderedPkgsCnt ≤ K)
    (hseq : b.get64 0 = q) (hq : s.latestRecvedValidSeqNo + 1 < q) (hlt : q < 2 ^ 64)
    (hopen : waiting seen s.latestRecvedValidSeqNo = ∅ → q ≤ s.latestRecvedValidSeqNo + K)
    (hp : (b.decHeadData 8).data = pay q) :
    recvepHandleOdata s b = Eff.abort .beyondLimitation ∧
        waiting seen s.latestRecvedValidSeqNo ≠ ∅ ∧
          s.latestRecvedValidSeqNo + unorderedPkgsCnt < q ∨
      recvepHandleOdata s b = Eff.abort .slotTaken ∧
        (∃ r ∈ waiting seen s.latestRecvedValidSeqNo, r % unorderedPkgsCnt = q % unorderedPkgsCnt) ∨
      ∃ s', recvepHandleOdata s b = pure (.suc, s') ∧ Buffered pay K (insert q seen) s' ∧
        s'.pMem = none ∧ s'.latestRecvedValidSeqNo = s.latestRecvedValidSeqNo ∧
        s'.validPkgBegin = s.validPkgBegin ∧ s'.validPkgEnd = s.validPkgEnd := by
  rcases (buffered_iff.mp h).odata_wait hK hseq hq hlt hopen hp with h1 | h1 | ⟨t, h1, h2, h3⟩
  · exact Or.inl h1
  · exact Or.inr (Or.inl h1)
  · exact Or.inr (Or.inr ⟨t, h1, buffered_iff.mpr h2, h3⟩)

/-- A socket that has handled packet `L + 1` and now has the packets up to `L'` to hand out. -/
structure Upcoming (val : ℕ → CMemBlock → Prop) (seen : Set ℕ) (L L' : ℕ) (p : CMemBlock)
    (s : RecvSock) : Prop where
  mem : s.pMem = some p
  latest : s.latestRecvedValidSeqNo = L'
  le : L + 1 ≤ L'
  run : ∀ q, L + 2 ≤ q → q ≤ L' → q ∈ seen
  gap : L' + 1 ∉ seen
  slots : Holds unorderedPkgsCnt s.vecUnvalidPkgs (waiting seen L) val
  ends : Ends {q | q ∈ waiting seen L ∧ L' < q} s.unvalidPkgBegin s.unvalidPkgEnd
  valid : s.validPkgBegin = 0 ∧ s.validPkgEnd = 0 ∧ L' = L + 1 ∨
    s.validPkgBegin = L + 2 ∧ s.validPkgEnd = L' ∧ L + 2 ≤ L'

/-- The same, for packets with the payloads `pay`. -/
structure Ready (pay : ℕ → List UInt8) (seen : Set ℕ) (L L' : ℕ) (s : RecvSock) : Prop where
  mem : ∃ p, s.pMem = some p ∧ p.data = pay (L + 1)
  latest : s.latestRecvedValidSeqNo = L'
  le : L + 1 ≤ L'
  run : ∀ q, L + 2 ≤ q → q ≤ L' → q ∈ seen
  gap : L' + 1 ∉ seen
  slots : Holds unorderedPkgsCnt s.vecUnvalidPkgs (waiting seen L) (fun q b => b.data = pay q)
  ends : Ends {q | q ∈ waiting seen L ∧ L' < q} s.unvalidPkgBegin s.unvalidPkgEnd
  valid : s.validPkgBegin = 0 ∧ s.validPkgEnd = 0 ∧ L' = L + 1 ∨
    s.validPkgBegin = L + 2 ∧ s.validPkgEnd = L' ∧ L + 2 ≤ L'

/-- **The next packet** makes itself and the run behind it ready. -/
theorem Kept.odata_next (h : Kept val K seen s) (hv : s.validPkgBegin = 0 ∧ s.validPkgEnd = 0)
    (hK : K ≤ unorderedPkgsCnt + 2) (hseq : b.get64 0 = s.latestRecvedValidSeqNo + 1)
    (hlt : s.latestRecvedValidSeqNo + 1 < 2 ^ 64 - 1) :
    ∃ L' s', recvepHandleOdata s b = pure (.odataReady, s') ∧
      Upcoming val seen s.latestRecvedValidSeqNo L' (b.decHeadData 8) s' := by
  set L := s.latestRecvedValidSeqNo with hL
  have hu : u64 (1 + L) = L + 1 := by rw [Nat.add_comm]; exact u64_of_lt (by omega)
  have hu1 : u64 (L + 1) = L + 1 := u64_of_lt (by omega)
  have hu2 : u64 (L + 1 + 1) = L + 2 := u64_of_lt (by omega)
  have hnext : ∀ q ∈ waiting seen L, L + 2 ≤ q := fun q hq => h.frontier.next_le hq
  simp only [recvepHandleOdata, hseq, ← hL, hu, hu1, hu2, if_true]
  by_cases hact : L + 2 = s.unvalidPkgBegin
  · rw [if_pos hact]
    obtain ⟨hb, he, hW⟩ : s.unvalidPkgBegin ∈ waiting seen L ∧ s.unvalidPkgEnd ∈ waiting seen L ∧
        ∀ q ∈ waiting seen L, s.unvalidPkgBegin ≤ q ∧ q ≤ s.unvalidPkgEnd := by
      rcases h.ends with ⟨h0, -, -⟩ | hin
      · omega
      · exact hin
    have hspan := h.near _ he
    have hend := (h.small _ he.1).2
    obtain ⟨e, b', e', heq, h1, h2, h3, h4, h5⟩ := activate_spec
      (s := { s with pMem := some (b.decHeadData 8), latestRecvedValidSeqNo := L + 1 })
      h.slots hb he hW (by show s.unvalidPkgEnd ≤ s.unvalidPkgBegin + _; omega) hend
    have h1' : s.unvalidPkgBegin ≤ e := h1
    rw [heq]
    refine ⟨e, _, rfl, rfl, rfl, by omega, fun q hq1 hq2 => ?_, fun hmem => ?_,
      h.slots, h5, ?_⟩
    · exact (h3 q (by show s.unvalidPkgBegin ≤ q; omega) hq2).1
    · exact h4 ⟨hmem, by omega⟩
    · exact Or.inr ⟨hact.symm, rfl, by omega⟩
  · rw [if_neg hact]
    have hgap : L + 1 + 1 ∉ seen := fun hmem => by
      have hw : L + 2 ∈ waiting seen L := ⟨hmem, by omega⟩
      rcases h.ends with ⟨-, -, hW⟩ | ⟨hb, -, hW⟩
      · rw [hW] at hw; exact hw
      · have h1 := (hW _ hw).1
        have h2 := hnext _ hb
        omega
    have hrest : {q | q ∈ waiting seen L ∧ L + 1 < q} = waiting seen L := by
      ext q
      exact ⟨fun hq => hq.1, fun hq => ⟨hq, by have := hnext q hq; omega⟩⟩
    refine ⟨L + 1, _, rfl, rfl, rfl, Nat.le_refl _, fun q _ _ => by omega, hgap,
      h.slots, ?_,
      Or.inl ⟨hv.1, hv.2, rfl⟩⟩
    rw [hrest]; exact h.ends

theorem odata_next (h : Buffered pay K seen s) (hv : s.validPkgBegin = 0 ∧ s.validPkgEnd = 0)
    (hK : K ≤ unorderedPkgsCnt + 2) (hseq : b.get64 0 = s.latestRecvedValidSeqNo + 1)
    (hlt : s.latestRecvedValidSeqNo + 1 < 2 ^ 64 - 1)
    (hp : (b.decHeadData 8).data = pay (s.latestRecvedValidSeqNo + 1)) :
    ∃ L' s', recvepHandleOdata s b = pure (.odataReady, s') ∧
      Ready pay seen s.latestRecvedValidSeqNo L' s' := by
  obtain ⟨L', t, ht, hup⟩ := (buffered_iff.mp h).odata_next hv hK hseq hlt
  exact ⟨L', t, ht, ⟨_, hup.mem, hp⟩, hup.latest, hup.le, hup.run, hup.gap, hup.slots, hup.ends,
    hup.valid⟩

/-! ### Handing out blocks -/

/-- `k` packets from `m_ui64ValidPkgBegin` on are to be handed out. -/
def Pending (vb ve k : ℕ) : Prop := k = 0 ∧ ¬ (0 < vb ∧ vb ≤ ve) ∨ 0 < k ∧ 0 < vb ∧ vb + k = ve + 1

theorem Pending.next {vb ve k : ℕ} (h : Pending vb ve (k + 1)) (hlt : ve < 2 ^ 64) :
    (0 < vb ∧ vb ≤ ve) ∧ Pending (u64 (vb + 1)) ve k ∧ (0 < k → u64 (vb + 1) = vb + 1) := by
  unfold Pending u64 at *
  omega

theorem getNext_none (hmem : s.pMem.filter (0 < ·.len) = none) (hv : ¬ (0 < s.validPkgBegin ∧
    s.validPkgBegin ≤ s.validPkgEnd)) (stack : ℕ → UInt8) (io : Sendto) :
    getNextRecvedData s stack io =
      (setAck { s with validPkgBegin := 0, validPkgEnd := 0 } false stack io >>= fun s =>
        pure (.noData, none, s)) := by
  unfold getNextRecvedData
  rw [hmem]
  simp only [if_neg hv]

theorem getNext_slot (hmem : s.pMem.filter (0 < ·.len) = none) (hv : 0 < s.validPkgBegin ∧
    s.validPkgBegin ≤ s.validPkgEnd) (stack : ℕ → UInt8) (io : Sendto) :
    getNextRecvedData s stack io =
      pure (.suc, s.vecUnvalidPkgs (s.validPkgBegin % unorderedPkgsCnt),
      { s with
        vecUnvalidPkgs := Function.update s.vecUnvalidPkgs (s.validPkgBegin % unorderedPkgsCnt) none
        validPkgBegin := u64 (s.validPkgBegin + 1) }) := by
  unfold getNextRecvedData
  rw [hmem]
  simp only [if_pos hv]

theorem getNext_mem {p : CMemBlock} (hmem : s.pMem = some p) (hlen : 0 < p.len) (stack : ℕ → UInt8)
    (io : Sendto) :
    getNextRecvedData s stack io = pure (.suc, some p, { s with pMem := none }) := by
  unfold getNextRecvedData
  rw [hmem, Option.filter_some, if_pos (by simpa using hlen)]

theorem drain_none (hmem : s.pMem.filter (0 < ·.len) = none) (hv : ¬ (0 < s.validPkgBegin ∧
    s.validPkgBegin ≤ s.validPkgEnd)) (stack : ℕ → UInt8) (io : Sendto) (fuel : ℕ) :
    drain stack io (fuel + 1) s = setAck { s with validPkgBegin := 0, validPkgEnd := 0 } false
      stack io := by
  unfold drain
  rw [getNext_none hmem hv]
  rcases hx : setAck { s with validPkgBegin := 0, validPkgEnd := 0 } false stack
    io with ⟨evs, _ | s'⟩
  · rfl
  · show (⟨evs ++ [] ++ [], .ok s'⟩ : Eff Ev Fault RecvSock) = ⟨evs, .ok s'⟩
    simp

theorem drain_some {p : Option CMemBlock} {s' : RecvSock} {stack : ℕ → UInt8} {io : Sendto}
    (h : getNextRecvedData s stack io = pure (.suc, p, s')) (fuel : ℕ) :
    drain stack io (fuel + 1) s =
      ⟨.recved p :: (drain stack io fuel s').evs, (drain stack io fuel s').res⟩ := by
  conv_lhs => unfold drain
  rw [h]
  rfl

/-- **Draining the slots.** With the `k` packets from `validPkgBegin` on in the buffer, a drain
hands out exactly these, frees their slots and ends with `set_ack`. -/
theorem drain_run (stack : ℕ → UInt8) (io : Sendto) : ∀ (k fuel : ℕ) {s : RecvSock} {W : Set ℕ},
    s.pMem.filter (0 < ·.len) = none → Pending s.validPkgBegin s.validPkgEnd k →
    s.validPkgEnd < 2 ^ 64 → k < fuel →
    Holds unorderedPkgsCnt s.vecUnvalidPkgs W (fun q b => b.data = pay q) →
    (∀ q, s.validPkgBegin ≤ q → q < s.validPkgBegin + k → q ∈ W) →
    ∃ evs slots, recveds evs = (List.range' s.validPkgBegin k).map (fun q => some (pay q)) ∧
      sends evs = [] ∧
      Holds unorderedPkgsCnt slots {q | q ∈ W ∧ ¬ (s.validPkgBegin ≤ q ∧ q < s.validPkgBegin + k)}
        (fun q b => b.data = pay q) ∧
      drain stack io fuel s =
        ⟨evs ++ (setAck { s with vecUnvalidPkgs := slots, validPkgBegin := 0, validPkgEnd := 0 }
            false stack io).evs,
          (setAck { s with vecUnvalidPkgs := slots, validPkgBegin := 0, validPkgEnd := 0 }
            false stack io).res⟩
  | 0, fuel + 1, s, W, hmem, hpend, _, _, hW, _ => by
    have hv : ¬ (0 < s.validPkgBegin ∧ s.validPkgBegin ≤ s.validPkgEnd) := by
      rcases hpend with h | h
      · exact h.2
      · omega
    have hset : {q | q ∈ W ∧ ¬ (s.validPkgBegin ≤ q ∧ q < s.validPkgBegin + 0)} = W := by
      ext q
      exact ⟨fun hq => hq.1, fun hq => ⟨hq, by omega⟩⟩
    refine ⟨[], s.vecUnvalidPkgs, rfl, rfl, by rw [hset]; exact hW, ?_⟩
    rw [drain_none hmem hv]; rfl
  | k + 1, fuel + 1, s, W, hmem, hpend, hlt, hfuel, hW, hin => by
    obtain ⟨hv, hpend', hu⟩ := hpend.next hlt
    have hb : s.validPkgBegin ∈ W := hin _ (Nat.le_refl _) (by omega)
    obtain ⟨p, hp, hpd⟩ := hW.held _ hb
    have hin' : ∀ q, u64 (s.validPkgBegin + 1) ≤ q → q < u64 (s.validPkgBegin + 1) + k →
        q ∈ W \ {s.validPkgBegin} := fun q h1 h2 => by
      have hk : 0 < k := by omega
      rw [hu hk] at h1 h2
      refine ⟨hin q (by omega) (by omega), fun (e : q = s.validPkgBegin) => by omega⟩
    obtain ⟨evs, slots, h1, h2, h3, h4⟩ := drain_run stack io k fuel
      (s := { s with
        vecUnvalidPkgs := Function.update s.vecUnvalidPkgs (s.validPkgBegin % unorderedPkgsCnt) none
        validPkgBegin := u64 (s.validPkgBegin + 1) })
      hmem hpend' hlt (by omega) (hW.clear hb) hin'
    have hset : {q | q ∈ W \ {s.validPkgBegin} ∧ ¬ (u64 (s.validPkgBegin + 1) ≤ q ∧
        q < u64 (s.validPkgBegin + 1) + k)} =
        {q | q ∈ W ∧ ¬ (s.validPkgBegin ≤ q ∧ q < s.validPkgBegin + (k + 1))} := by
      ext q
      rcases Nat.eq_zero_or_pos k with rfl | hk
      · constructor
        · rintro ⟨⟨hq, hne⟩, -⟩
          have hne' : q ≠ s.validPkgBegin := hne
          exact ⟨hq, by omega⟩
        · rintro ⟨hq, hn⟩
          have hne : q ≠ s.validPkgBegin := by omega
          exact ⟨⟨hq, hne⟩, by omega⟩
      · rw [hu hk]
        constructor
        · rintro ⟨⟨hq, hne⟩, hn⟩
          have hne' : q ≠ s.validPkgBegin := hne
          exact ⟨hq, by omega⟩
        · rintro ⟨hq, hn⟩
          have hne : q ≠ s.validPkgBegin := by omega
          exact ⟨⟨hq, hne⟩, by omega⟩
    refine ⟨.recved (some p) :: evs, slots, ?_, h2, by rw [← hset]; exact h3, ?_⟩
    · have hrange : (List.range' (u64 (s.validPkgBegin + 1)) k) =
        List.range' (s.validPkgBegin + 1) k := by
        rcases Nat.eq_zero_or_pos k with rfl | hk
        · rfl
        · rw [hu hk]
      rw [List.range'_succ, List.map_cons, ← hrange, ← h1, ← hpd]
      rfl
    · rw [drain_some (by rw [getNext_slot hmem hv, hp]), h4]
      rfl

theorem filter_idle {pMem : Option CMemBlock} (h : Idle pMem) : pMem.filter (0 < ·.len) = none := by
  rcases pMem with _ | p
  · rfl
  · have hp := (h p rfl).1
    rw [Option.filter_some, if_neg (by simp [hp])]

theorem drain_idle (h : InOrder pay K seen s) (stack : ℕ → UInt8) (io : Sendto) :
    drain stack io (drainFuel s) s = setAck s false stack io := by
  have hv : ¬ (0 < s.validPkgBegin ∧ s.validPkgBegin ≤ s.validPkgEnd) := by
    rw [h.validBegin]; omega
  have hs : ∀ x y, s.validPkgBegin = x → s.validPkgEnd = y →
      { s with validPkgBegin := x, validPkgEnd := y } = s := by
    rintro _ _ rfl rfl; rfl
  unfold drainFuel
  rw [drain_none (filter_idle h.idle) hv, hs 0 0 h.validBegin h.validEnd]

/-- **Draining a socket with a run to hand out** leads back to the invariant, with the run handed
out. -/
theorem drain_ready {L L' : ℕ} (h : Ready pay seen L L' s) (hf : IsFrontier seen L)
    (hnear : ∀ q ∈ waiting seen L, q ≤ L + K) (hsmall : ∀ q ∈ seen, 1 ≤ q ∧ q < 2 ^ 64)
    (hL : L + 1 < 2 ^ 64) (hne : pay (L + 1) ≠ []) (stack : ℕ → UInt8) (io : Sendto) :
    ∃ evs t, recveds evs = (List.range' (L + 1) (L' - L)).map (fun q => some (pay q)) ∧
      sends evs = [] ∧
      InOrder pay K (insert (L + 1) seen) t ∧ t.latestRecvedValidSeqNo = L' ∧
      drain stack io (drainFuel s) s =
        ⟨evs ++ (setAck t false stack io).evs, (setAck t false stack io).res⟩ := by
  obtain ⟨p, hmem, hp⟩ := h.mem
  have hlen : 0 < p.len := by
    have := CMemBlock.length_data p
    rw [hp] at this
    have := List.length_pos_iff.mpr hne
    omega
  have hle := h.le
  have hL' : L' < 2 ^ 64 := by
    rcases Nat.eq_or_lt_of_le hle with heq | hlt
    · omega
    · exact (hsmall _ (h.run L' (by omega) (Nat.le_refl _))).2
  obtain ⟨k, hk, hpend, hve, hin, hfuel⟩ : ∃ k, L + 2 + k = L' + 1 ∧
    Pending s.validPkgBegin s.validPkgEnd k ∧
      s.validPkgEnd < 2 ^ 64 ∧ (0 < k → s.validPkgBegin = L + 2) ∧ k + 1 < drainFuel s := by
    unfold Pending drainFuel
    rcases h.valid with ⟨h1, h2, h3⟩ | ⟨h1, h2, h3⟩
    · exact ⟨0, by omega, by omega, by omega, by omega, by omega⟩
    · exact ⟨L' - (L + 1), by omega, by omega, by omega, fun _ => h1, by omega⟩
  obtain ⟨fuel, hfuel'⟩ : ∃ fuel, drainFuel s = fuel + 1 := ⟨drainFuel s - 1, by omega⟩
  have hinW : ∀ q, s.validPkgBegin ≤ q → q < s.validPkgBegin + k → q ∈ waiting seen L :=
    fun q h1 h2 => by
    have hb := hin (by omega)
    exact ⟨h.run q (by omega) (by omega), by omega⟩
  obtain ⟨evs, slots, h1, h2, h3, h4⟩ := drain_run stack io k fuel (s := { s with pMem := none })
    rfl hpend hve (by omega) h.slots hinW
  have hset : {q | q ∈ waiting seen L ∧ ¬ (s.validPkgBegin ≤ q ∧ q < s.validPkgBegin + k)} =
      waiting (insert (L + 1) seen) L' := by
    ext q
    constructor
    · rintro ⟨hq, hn⟩
      have h2 := hf.next_le hq
      rcases Nat.eq_zero_or_pos k with h0 | h0
      · exact ⟨Or.inr hq.1, by omega⟩
      · have hb := hin h0
        exact ⟨Or.inr hq.1, by omega⟩
    · rintro ⟨hq, hlt⟩
      have hq' : q ∈ seen := hq.resolve_left (by omega)
      refine ⟨⟨hq', by omega⟩, fun hn => ?_⟩
      have hb := hin (by omega)
      omega
  have hset' : {q | q ∈ waiting seen L ∧ L' < q} = waiting (insert (L + 1) seen) L' := by
    ext q
    constructor
    · rintro ⟨hq, hlt⟩
      exact ⟨Or.inr hq.1, hlt⟩
    · rintro ⟨hq, hlt⟩
      exact ⟨⟨hq.resolve_left (by omega), by omega⟩, hlt⟩
  refine ⟨.recved (some p) :: evs,
    { s with pMem := none, vecUnvalidPkgs := slots, validPkgBegin := 0, validPkgEnd := 0 },
    ?_, h2, ⟨⟨?_, ?_, ?_, ?_, ?_⟩, ?_, rfl, rfl⟩, h.latest, ?_⟩
  · have hrange : List.range' s.validPkgBegin k = List.range' (L + 1 + 1) k := by
      rcases Nat.eq_zero_or_pos k with h0 | h0
      · rw [h0]; rfl
      · rw [hin h0]
    rw [show L' - L = k + 1 by omega, List.range'_succ, List.map_cons, ← hp, ← hrange, ← h1]
    rfl
  · rw [h.latest]; exact hf.insert_next hle h.run h.gap
  · rw [h.latest, ← hset]; exact h3
  · rw [h.latest, ← hset']; exact h.ends
  · rw [h.latest]
    intro q hq
    rw [← hset'] at hq
    have := hnear q hq.1
    show q ≤ L' + K
    omega
  · rintro q (rfl | hq)
    · exact ⟨by omega, hL⟩
    · exact hsmall q hq
  · exact fun b hb => by cases hb
  · rw [hfuel', drain_some (getNext_mem hmem hlen stack io), h4]
    rfl

/-! ### What is left to hand out -/

/-- The reorder buffer while the `k` packets up to the frontier are still to be handed out. -/
structure Holding (val : ℕ → CMemBlock → Prop) (K : ℕ) (seen : Set ℕ) (k : ℕ) (s : RecvSock) :
    Prop where
  frontier : IsFrontier seen s.latestRecvedValidSeqNo
  slots : Holds unorderedPkgsCnt s.vecUnvalidPkgs
    {q | q ∈ seen ∧ s.latestRecvedValidSeqNo < q + k} val
  ends : Ends (waiting seen s.latestRecvedValidSeqNo) s.unvalidPkgBegin s.unvalidPkgEnd
  near : ∀ q ∈ waiting seen s.latestRecvedValidSeqNo, q ≤ s.latestRecvedValidSeqNo + K
  small : ∀ q ∈ seen, 1 ≤ q ∧ q < 2 ^ 64
  pending : Pending s.validPkgBegin s.validPkgEnd k
  last : 0 < k → s.validPkgEnd = s.latestRecvedValidSeqNo

section Holding

variable {k : ℕ} {t : RecvSock}

theorem Holding.of_eq (h : Holding val K seen k s)
    (h1 : t.latestRecvedValidSeqNo = s.latestRecvedValidSeqNo)
    (h2 : t.vecUnvalidPkgs = s.vecUnvalidPkgs) (h3 : t.unvalidPkgBegin = s.unvalidPkgBegin)
    (h4 : t.unvalidPkgEnd = s.unvalidPkgEnd) (h5 : t.validPkgBegin = s.validPkgBegin)
    (h6 : t.validPkgEnd = s.validPkgEnd) : Holding val K seen k t :=
  ⟨h1 ▸ h.frontier, by rw [h1, h2]; exact h.slots, by rw [h1, h3, h4]; exact h.ends,
    by rw [h1]; exact h.near, h.small, by rw [h5, h6]; exact h.pending,
    by rw [h1, h6]; exact h.last⟩

theorem Holding.of_same (h : Holding val K seen k s) (hst : Same s t) : Holding val K seen k t :=
  h.of_eq hst.latest hst.vecUnvalidPkgs hst.unvalidPkgBegin hst.unvalidPkgEnd hst.validPkgBegin
    hst.validPkgEnd

theorem Holding.kept (h : Holding val K seen 0 s) : Kept val K seen s :=
  ⟨h.frontier, h.slots, h.ends, h.near, h.small⟩

theorem Kept.holding (h : Kept val K seen s)
    (hv : ¬ (0 < s.validPkgBegin ∧ s.validPkgBegin ≤ s.validPkgEnd)) : Holding val K seen 0 s :=
  ⟨h.frontier, h.slots, h.ends, h.near, h.small, Or.inl ⟨rfl, hv⟩, fun h0 => by omega⟩

theorem Holding.latest_lt (h : Holding val K seen k s) : s.latestRecvedValidSeqNo < 2 ^ 64 :=
  frontier_lt h.frontier h.small

theorem Holding.zero_iff (h : Holding val K seen k s) :
    k = 0 ↔ ¬ (0 < s.validPkgBegin ∧ s.validPkgBegin ≤ s.validPkgEnd) := by
  rcases h.pending with ⟨hk, hv⟩ | ⟨hk, h1, h2⟩
  · exact iff_of_true hk hv
  · exact iff_of_false (by omega) fun hv => hv ⟨h1, by omega⟩

theorem Holding.next_slot (h : Holding val K seen (k + 1) s) :
    (0 < s.validPkgBegin ∧ s.validPkgBegin ≤ s.validPkgEnd) ∧
      s.validPkgBegin + k = s.latestRecvedValidSeqNo ∧
    ∃ p, s.vecUnvalidPkgs (s.validPkgBegin % unorderedPkgsCnt) = some p ∧
      val s.validPkgBegin p ∧ Holding val K seen k { s with
        vecUnvalidPkgs := Function.update s.vecUnvalidPkgs (s.validPkgBegin % unorderedPkgsCnt) none
        validPkgBegin := u64 (s.validPkgBegin + 1) } := by
  have hlast := h.last (by omega)
  have hlt := h.latest_lt
  obtain ⟨hv, hpend, -⟩ := h.pending.next (by omega)
  have hb : s.validPkgBegin + k = s.latestRecvedValidSeqNo := by
    rcases h.pending with ⟨h0, -⟩ | ⟨-, -, hsum⟩
    · omega
    · omega
  have hW : s.validPkgBegin ∈ {q | q ∈ seen ∧ s.latestRecvedValidSeqNo < q + (k + 1)} :=
    ⟨h.frontier.below _ hv.1 (by omega), by omega⟩
  obtain ⟨p, hp, hval⟩ := h.slots.held _ hW
  have hset : {q | q ∈ seen ∧ s.latestRecvedValidSeqNo < q + (k + 1)} \ {s.validPkgBegin} =
      {q | q ∈ seen ∧ s.latestRecvedValidSeqNo < q + k} := by
    ext q
    constructor
    · rintro ⟨⟨hq, hlt'⟩, hne⟩
      have hne' : q ≠ s.validPkgBegin := hne
      exact ⟨hq, by omega⟩
    · rintro ⟨hq, hlt'⟩
      have hne : q ≠ s.validPkgBegin := by omega
      exact ⟨⟨hq, by omega⟩, hne⟩
  refine ⟨hv, hb, p, hp, hval, h.frontier, ?_, h.ends, h.near, h.small, hpend, fun _ => hlast⟩
  rw [← hset]
  exact h.slots.clear hW

theorem Upcoming.holding {L L' : ℕ} {p : CMemBlock} (h : Upcoming val seen L L' p s)
    (hf : IsFrontier seen L) (hnear : ∀ q ∈ waiting seen L, q ≤ L + K)
    (hsmall : ∀ q ∈ seen, 1 ≤ q ∧ q < 2 ^ 64) (hL : L + 1 < 2 ^ 64) :
    Holding val K (insert (L + 1) seen) (L' - (L + 1)) s := by
  have hle := h.le
  have hlat := h.latest
  have hslots : {q | q ∈ insert (L + 1) seen ∧ L' < q + (L' - (L + 1))} = waiting seen L := by
    ext q
    constructor
    · rintro ⟨rfl | hq, hlt⟩
      · omega
      · exact ⟨hq, by omega⟩
    · intro hq
      have := hf.next_le hq
      exact ⟨Or.inr hq.1, by omega⟩
  have hends : waiting (insert (L + 1) seen) L' = {q | q ∈ waiting seen L ∧ L' < q} := by
    ext q
    constructor
    · rintro ⟨rfl | hq, hlt⟩
      · omega
      · exact ⟨⟨hq, by omega⟩, hlt⟩
    · rintro ⟨hq, hlt⟩
      exact ⟨Or.inr hq.1, hlt⟩
  refine ⟨?_, ?_, ?_, ?_, ?_, ?_, fun hk => ?_⟩
  · rw [hlat]; exact hf.insert_next hle h.run h.gap
  · rw [hlat, hslots]; exact h.slots
  · rw [hlat, hends]; exact h.ends
  · rw [hlat, hends]
    intro q hq
    have := hnear q hq.1
    omega
  · rintro q (rfl | hq)
    · exact ⟨by omega, hL⟩
    · exact hsmall q hq
  · unfold Pending
    rcases h.valid with ⟨h1, h2, h3⟩ | ⟨h1, h2, h3⟩
    · exact Or.inl ⟨by omega, by omega⟩
    · exact Or.inr ⟨by omega, by omega, by omega⟩
  · rcases h.valid with ⟨-, -, h3⟩ | ⟨-, h2, -⟩
    · omega
    · rw [hlat]; exact h2

end Holding

end SmartNet.Network.Rmp.Reorder

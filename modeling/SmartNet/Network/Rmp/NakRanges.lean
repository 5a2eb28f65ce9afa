import SmartNet.Network.Rmp.AppAcks

/-! # What a receiver asks for

A NAK is built in two places: the timer asks for the packets in front of `m_ui64UnvalidPkgBegin`,
`recvep_handle_hb` for all packets up to the latest one of the sender. The calls may come in any
order, `get_next_recved_data` included.

* `AsksMissing`: the NAKs of a call name packets the receiver does not have;
* `Tidy`: the packets above `m_ui64LatestRecvedValidSeqNo` are between the ends of the reorder
  buffer, and those that are to be handed out are below;
* `asks_missing`: the NAKs of a run name missing packets, unless a heartbeat reaches into the
  reorder buffer. -/

namespace SmartNet.Network.Rmp.NakRanges

open SmartNet.Common SmartNet.Lib SmartNet.Lib.Bytes SmartNet.Lib.Mem SmartNet.Lib.Ring
open SmartNet.Memory.MemBlock SmartNet.Network.Udp SmartNet.Network.Rmp.Wire
open SmartNet.Network.Rmp.Recvep SmartNet.Network.Rmp.ControlPkgs SmartNet.Network.Rmp.Reorder
open SmartNet.Network.Rmp.RecvRun
open SmartNet.Network.Rmp.AppAcks (Call seqNoOf returned returned_append odata_evs tick get64_seqNo
  seqNoOf_lt)

/-- What a call does. -/
def exec : Call → RecvSock → Eff Ev Fault RecvSock
  | .recv r fresh stack io, s => do
    let (_, s) ← recvepHandleCanRecv s fresh stack r io
    pure s
  | .next stack io, s => do
    let (ret, pMem, s) ← getNextRecvedData s stack io
    if ret = .suc then do
      Eff.emit (.recved pMem)
      pure s
    else pure s
  | .timer now stack ioAck ioNak, s => recvepHandleCanSend s now stack ioAck ioNak

/-- A receiver that was opened and has joined the group. -/
def init (senderId : UInt8) (ackConfirmCnt : ℕ) (bound : SockAddr) : Proc RecvSock Ev Fault :=
  { obj := joinMulticastGroup (Recvep.open senderId ackConfirmCnt) bound }

/-- Packet `n` has not been handed out, and no slot of the reorder buffer has it. -/
def Missing (p : Proc RecvSock Ev Fault) (n : ℕ) : Prop :=
  n ∉ returned p.log ∧ ∀ i b, p.obj.vecUnvalidPkgs i = some b → seqNoOf b ≠ n

/-- The NAKs of a call begin with the next packet and ask for missing packets only. -/
def AsksMissing (p : Proc RecvSock Ev Fault) (a : Call) : Prop :=
  p.fault = none → ∀ dest d, Ev.sendto dest d ∈ (exec a p.obj).evs → opcode d = epNak →
    word 0 d = p.obj.latestRecvedValidSeqNo + 1 ∧ word 0 d ≤ word 1 d ∧
      ∀ n, word 0 d ≤ n → n ≤ word 1 d → Missing p n

/-- A data packet that arrives is numbered from 1 on and within the reorder window. -/
def InWindow (s : RecvSock) : Call → Prop
  | .recv r fresh _ _ => ∀ b, Arrives s.pMem fresh r b → b.get8 4 = s.senderId →
      b.get8 3 = epData →
        1 ≤ seqNoOf b ∧ seqNoOf b ≤ s.latestRecvedValidSeqNo + unorderedPkgsCnt
  | _ => True

/-- A heartbeat that says something new does not reach into the reorder buffer; and the next packet
is not the last 64-bit number. -/
def Clear (s : RecvSock) : Call → Prop
  | .recv r fresh _ _ => ∀ b, Arrives s.pMem fresh r b → b.get8 4 = s.senderId →
      (b.get8 3 = epHb → s.latestRecvedValidSeqNo < seqNoOf b →
        s.unvalidPkgBegin = 0 ∨ seqNoOf b < s.unvalidPkgBegin) ∧
      (b.get8 3 = epData → seqNoOf b = s.latestRecvedValidSeqNo + 1 → seqNoOf b ≠ 2 ^ 64 - 1)
  | _ => True

/-- **The invariant** of the reorder buffer with the ends `ub` and `ue`, above the latest number
`L`; the packets from `vb` to `ve` are to be handed out. -/
structure Tidy (L ub ue vb ve : ℕ) (slots : ℕ → Option CMemBlock) : Prop where
  latest_lt : L < 2 ^ 64
  home : ∀ i b, slots i = some b → seqNoOf b % unorderedPkgsCnt = i
  ahead : ∀ i b, slots i = some b → L < seqNoOf b → 0 < ub ∧ ub ≤ seqNoOf b ∧ seqNoOf b ≤ ue
  gap : 0 < ub → L + 1 < ub
  ends : 0 < ub → ub ≤ ue ∧ ue ≤ L + unorderedPkgsCnt ∧ ue < 2 ^ 64
  filled : 0 < ub → slots (ub % unorderedPkgsCnt) ≠ none ∧ slots (ue % unorderedPkgsCnt) ≠ none
  span : 0 < vb → ve < vb + unorderedPkgsCnt ∧ ve < 2 ^ 64
  ready : 0 < vb → ∀ i, vb ≤ i → i ≤ ve →
    ∃ b, slots (i % unorderedPkgsCnt) = some b ∧ seqNoOf b ≤ L
  apart : 0 < vb → 0 < ub → ∀ i, vb ≤ i → i ≤ ve →
    i % unorderedPkgsCnt ≠ ub % unorderedPkgsCnt ∧ i % unorderedPkgsCnt ≠ ue % unorderedPkgsCnt

/-- With what is in `m_pMem` and what was handed out: nothing above the latest number. -/
structure Ordered (R : Set ℕ) (s : RecvSock) : Prop where
  tidy : Tidy s.latestRecvedValidSeqNo s.unvalidPkgBegin s.unvalidPkgEnd s.validPkgBegin
    s.validPkgEnd s.vecUnvalidPkgs
  mem : ∀ b ∈ s.pMem, 0 < b.len → seqNoOf b ≤ s.latestRecvedValidSeqNo
  given : ∀ q ∈ R, q ≤ s.latestRecvedValidSeqNo

variable {R : Set ℕ} {s t : RecvSock} {log evs : List Ev} {b : CMemBlock}
  {L ub ue vb ve q i : ℕ} {slots : ℕ → Option CMemBlock}

theorem Ordered.of_same (h : Ordered R s) (hst : Same s t) : Ordered R t := by
  refine ⟨?_, by rw [hst.pMem, hst.latest]; exact h.mem, by rw [hst.latest]; exact h.given⟩
  rw [hst.latest, hst.unvalidPkgBegin, hst.unvalidPkgEnd, hst.validPkgBegin, hst.validPkgEnd,
    hst.vecUnvalidPkgs]
  exact h.tidy

theorem Ordered.missing (h : Ordered R s) (hq : s.latestRecvedValidSeqNo < q)
    (hgap : s.unvalidPkgBegin = 0 ∨ q < s.unvalidPkgBegin) :
    q ∉ R ∧ ∀ i b, s.vecUnvalidPkgs i = some b → seqNoOf b ≠ q := by
  constructor
  · intro hin
    have := h.given q hin
    omega
  · intro i b hb heq
    have := h.tidy.ahead i b hb (by omega)
    omega

/-! ### The reorder buffer -/

theorem slot_inj {r : ℕ} (h1 : q ≤ r) (h2 : r < q + unorderedPkgsCnt)
    (h : q % unorderedPkgsCnt = r % unorderedPkgsCnt) : q = r :=
  mod_inj (Nat.le_refl q) (by unfold unorderedPkgsCnt; omega) h1 h2 h

theorem Tidy.store (h : Tidy L ub ue vb ve slots) (hq : L + 1 < q) (hlt : q < 2 ^ 64)
    (hnear : q ≤ L + unorderedPkgsCnt) (hfree : slots (q % unorderedPkgsCnt) = none)
    (hseq : seqNoOf b = q) :
    Tidy L (if ub = 0 ∨ q < ub then q else ub) (if ub = 0 ∨ ub ≤ q ∧ ue < q then q else ue) vb ve
      (Function.update slots (q % unorderedPkgsCnt) (some b)) := by
  have hub : ∀ P : ℕ → Prop, P q → (0 < ub → P ub) → P (if ub = 0 ∨ q < ub then q else ub) :=
    fun P h1 h2 => by
      split_ifs with hc
      · exact h1
      · exact h2 (by omega)
  have hue : ∀ P : ℕ → Prop, P q → (0 < ub → P ue) →
      P (if ub = 0 ∨ ub ≤ q ∧ ue < q then q else ue) := fun P h1 h2 => by
    split_ifs with hc
    · exact h1
    · exact h2 (by omega)
  have hle : (if ub = 0 ∨ q < ub then q else ub) ≤ q ∧
      q ≤ (if ub = 0 ∨ ub ≤ q ∧ ue < q then q else ue) ∧
      (0 < ub → (if ub = 0 ∨ q < ub then q else ub) ≤ ub ∧
        ue ≤ (if ub = 0 ∨ ub ≤ q ∧ ue < q then q else ue)) := by
    have := h.ends
    split_ifs <;> omega
  have hsome : ∀ i, slots i ≠ none →
      Function.update slots (q % unorderedPkgsCnt) (some b) i ≠ none := fun i hi => by
    rw [Function.update_apply]
    split_ifs
    · exact Option.some_ne_none b
    · exact hi
  have hq' : Function.update slots (q % unorderedPkgsCnt) (some b)
      (q % unorderedPkgsCnt) ≠ none := by
    rw [Function.update_self]
    exact Option.some_ne_none b
  have hready : 0 < vb → ∀ i, vb ≤ i → i ≤ ve → i % unorderedPkgsCnt ≠ q % unorderedPkgsCnt :=
    fun h0 i h1 h2 heq => by
      obtain ⟨c, hc, -⟩ := h.ready h0 i h1 h2
      rw [heq, hfree] at hc
      cases hc
  refine ⟨h.latest_lt, fun i c hc => ?_, fun i c hc hlt' => ?_, fun _ => ?_, fun _ => ?_,
    fun _ => ⟨?_, ?_⟩, h.span, fun h0 i h1 h2 => ?_, fun h0 _ i h1 h2 => ⟨?_, ?_⟩⟩
  · rw [Function.update_apply] at hc
    split_ifs at hc with hi
    · cases hc
      rw [hseq, hi]
    · exact h.home i c hc
  · rw [Function.update_apply] at hc
    split_ifs at hc with hi
    · cases hc
      have := hub (0 < ·) (by omega) id
      omega
    · have := h.ahead i c hc hlt'
      have := hub (0 < ·) (by omega) id
      omega
  · exact hub (L + 1 < ·) hq h.gap
  · have := hue (· ≤ L + unorderedPkgsCnt) hnear fun h0 => (h.ends h0).2.1
    have := hue (· < 2 ^ 64) hlt fun h0 => (h.ends h0).2.2
    omega
  · exact hub (fun n => Function.update slots (q % unorderedPkgsCnt) (some b)
      (n % unorderedPkgsCnt) ≠ none) hq' fun h0 => hsome _ (h.filled h0).1
  · exact hue (fun n => Function.update slots (q % unorderedPkgsCnt) (some b)
      (n % unorderedPkgsCnt) ≠ none) hq' fun h0 => hsome _ (h.filled h0).2
  · obtain ⟨c, hc, hcl⟩ := h.ready h0 i h1 h2
    exact ⟨c, by rw [Function.update_of_ne (hready h0 i h1 h2)]; exact hc, hcl⟩
  · exact hub (fun n => i % unorderedPkgsCnt ≠ n % unorderedPkgsCnt) (hready h0 i h1 h2)
      fun hb => (h.apart h0 hb i h1 h2).1
  · exact hue (fun n => i % unorderedPkgsCnt ≠ n % unorderedPkgsCnt) (hready h0 i h1 h2)
      fun hb => (h.apart h0 hb i h1 h2).2

theorem Tidy.advance (h : Tidy L ub ue vb ve slots) (hL : L + 1 < 2 ^ 64) (hne : L + 2 ≠ ub) :
    Tidy (L + 1) ub ue vb ve slots := by
  refine ⟨hL, h.home, fun i b hb hlt => h.ahead i b hb (by omega), fun h0 => ?_, fun h0 => ?_,
    h.filled, h.span, fun h0 i h1 h2 => ?_, h.apart⟩
  · have := h.gap h0
    omega
  · have := h.ends h0
    omega
  · obtain ⟨b, hb, hle⟩ := h.ready h0 i h1 h2
    exact ⟨b, hb, by omega⟩

theorem Tidy.take (h : Tidy L ub ue vb ve slots) (h0 : 0 < vb) (hle : vb ≤ ve) :
    Tidy L ub ue (u64 (vb + 1)) ve (Function.update slots (vb % unorderedPkgsCnt) none) := by
  obtain ⟨hspan, hve⟩ := h.span h0
  have hold : ∀ i c, Function.update slots (vb % unorderedPkgsCnt) none i = some c →
      slots i = some c := fun i c hc => by
    rw [Function.update_apply] at hc
    split_ifs at hc
    exact hc
  have hu : 0 < u64 (vb + 1) → u64 (vb + 1) = vb + 1 := fun hpos => by
    unfold u64 at *
    omega
  refine ⟨h.latest_lt, fun i c hc => h.home i c (hold i c hc),
    fun i c hc => h.ahead i c (hold i c hc), h.gap, h.ends, fun hb => ?_, fun hpos => ?_,
    fun hpos i h1 h2 => ?_, fun hpos hb i h1 h2 => ?_⟩
  · obtain ⟨hb1, hb2⟩ := h.apart h0 hb vb (Nat.le_refl _) hle
    rw [Function.update_of_ne hb1.symm, Function.update_of_ne hb2.symm]
    exact h.filled hb
  · rw [hu hpos]
    omega
  · rw [hu hpos] at h1
    obtain ⟨c, hc, hcl⟩ := h.ready h0 i (by omega) h2
    refine ⟨c, ?_, hcl⟩
    rw [Function.update_of_ne fun heq => ?_]
    · exact hc
    · have := slot_inj (q := vb) (r := i) (by omega) (by omega) heq.symm
      omega
  · rw [hu hpos] at h1
    exact h.apart h0 hb i (by omega) h2

theorem Tidy.done (h : Tidy L ub ue vb ve slots) : Tidy L ub ue 0 0 slots :=
  ⟨h.latest_lt, h.home, h.ahead, h.gap, h.ends, h.filled, fun h0 => absurd h0 (Nat.lt_irrefl 0),
    fun h0 => absurd h0 (Nat.lt_irrefl 0), fun h0 => absurd h0 (Nat.lt_irrefl 0)⟩

theorem Tidy.slot_eq (h : Tidy L ub ue vb ve slots) (h1 : ub ≤ i) (h2 : i ≤ ue)
    (hb : slots (i % unorderedPkgsCnt) = some b) (hlt : L < seqNoOf b) : seqNoOf b = i := by
  have hmod := h.home _ b hb
  obtain ⟨h0, hle1, hle2⟩ := h.ahead _ b hb hlt
  have hgap := h.gap h0
  have hends := h.ends h0
  rcases Nat.le_total (seqNoOf b) i with hle | hle
  · exact slot_inj hle (by omega) hmod
  · exact (slot_inj hle (by omega) hmod.symm).symm

/-- The run up to `e` becomes ready, and the rest begins at `ub'`, or there is none. -/
theorem Tidy.run {e ub' ue' : ℕ} (h : Tidy L ub ue vb ve slots) (hub : ub = L + 2) (h1 : ub ≤ e)
    (h2 : e ≤ ue) (hrun : ∀ q, ub < q → q ≤ e → slots (q % unorderedPkgsCnt) ≠ none)
    (hrest : e < ue ∧ ue' = ue ∧ e + 1 < ub' ∧ ub' ≤ ue ∧
        slots (ub' % unorderedPkgsCnt) ≠ none ∧
        (∀ q, e < q → q < ub' → slots (q % unorderedPkgsCnt) = none) ∨
      e = ue ∧ ub' = 0) :
    Tidy e ub' ue' ub e slots := by
  have h0 : 0 < ub := by omega
  have hends := h.ends h0
  have hfull : ∀ i, ub ≤ i → i ≤ e →
      ∃ b, slots (i % unorderedPkgsCnt) = some b := fun i hi1 hi2 => by
    refine Option.ne_none_iff_exists'.mp ?_
    rcases Nat.eq_or_lt_of_le hi1 with rfl | hlt
    · exact (h.filled h0).1
    · exact hrun i hlt hi2
  have hrest' : 0 < ub' → e < ue ∧ ue' = ue ∧ e + 1 < ub' ∧ ub' ≤ ue ∧
      slots (ub' % unorderedPkgsCnt) ≠ none ∧
      (∀ q, e < q → q < ub' → slots (q % unorderedPkgsCnt) = none) := fun hpos => by
    rcases hrest with hrest | ⟨-, hz⟩
    · exact hrest
    · omega
  have hapart : ∀ i r, ub ≤ i → i ≤ e → e < r → r ≤ ue →
      i % unorderedPkgsCnt ≠ r % unorderedPkgsCnt := fun i r hi1 hi2 hr1 hr2 heq => by
    have := slot_inj (q := i) (r := r) (by omega) (by omega) heq
    omega
  refine ⟨by omega, h.home, fun i b hb hlt => ?_, fun hpos => (hrest' hpos).2.2.1, fun hpos => ?_,
    fun hpos => ?_, fun _ => by omega, fun _ i hi1 hi2 => ?_, fun _ hpos i hi1 hi2 => ?_⟩
  · -- a block above the run is in the rest
    obtain ⟨-, hb1, hb2⟩ := h.ahead i b hb (by omega)
    have hmod := h.home i b hb
    rcases hrest with ⟨-, rfl, hgap, -, -, hnone⟩ | ⟨heq, -⟩
    · refine ⟨by omega, ?_, hb2⟩
      by_contra hnot
      have := hnone (seqNoOf b) hlt (by omega)
      rw [hmod, hb] at this
      cases this
    · omega
  · have := hrest' hpos
    omega
  · obtain ⟨-, rfl, -, -, hne, -⟩ := hrest' hpos
    exact ⟨hne, (h.filled h0).2⟩
  · obtain ⟨b, hb⟩ := hfull i hi1 hi2
    refine ⟨b, hb, ?_⟩
    by_contra hnot
    have := h.slot_eq hi1 (by omega) hb (by omega)
    omega
  · obtain ⟨hlt, rfl, hgap, hle, -, -⟩ := hrest' hpos
    exact ⟨hapart i ub' hi1 hi2 (by omega) hle, hapart i ue' hi1 hi2 hlt (Nat.le_refl _)⟩

/-- The next packet closes the gap: the run behind it becomes ready, and what is left of the reorder
buffer begins above it. -/
theorem Tidy.activate {u : RecvSock} (h : Tidy L u.unvalidPkgBegin u.unvalidPkgEnd u.validPkgBegin
    u.validPkgEnd u.vecUnvalidPkgs) (hub : u.unvalidPkgBegin = L + 2) :
    ∃ e ub' ue', Recvep.activate u = { u with
        validPkgBegin := u.unvalidPkgBegin
        validPkgEnd := e
        unvalidPkgBegin := ub'
        unvalidPkgEnd := ue'
        latestRecvedValidSeqNo := e } ∧
      L < e ∧ Tidy e ub' ue' u.unvalidPkgBegin e u.vecUnvalidPkgs := by
  have hends := h.ends (by omega)
  obtain ⟨h1, h2, h3, h4⟩ := findValidPkgEnd_spec u.vecUnvalidPkgs
    (u.unvalidPkgEnd - u.unvalidPkgBegin) u.unvalidPkgBegin (by omega)
  set e := findValidPkgEnd u.vecUnvalidPkgs (u.unvalidPkgEnd - u.unvalidPkgBegin)
    u.unvalidPkgBegin with he
  by_cases hend : e < u.unvalidPkgEnd
  · have hu : u64 (e + 1) = e + 1 := u64_of_lt (by omega)
    obtain ⟨g1, g2, g3, g4⟩ := findUnvalidPkgBegin_spec u.vecUnvalidPkgs
      (u.unvalidPkgEnd - (e + 1)) (e + 1) (by omega)
    set b := findUnvalidPkgBegin u.vecUnvalidPkgs (u.unvalidPkgEnd - (e + 1)) (e + 1) with hb
    have hnone : u.vecUnvalidPkgs ((e + 1) % unorderedPkgsCnt) = none := by
      rcases h4 with h4 | h4
      · omega
      · exact h4
    have hsome : u.vecUnvalidPkgs (b % unorderedPkgsCnt) ≠ none := by
      rcases g4 with g4 | g4
      · rw [show b = u.unvalidPkgEnd by omega]
        exact (h.filled (by omega)).2
      · exact g4
    have hne : b ≠ e + 1 := fun heq => hsome (by rw [heq]; exact hnone)
    refine ⟨e, b, u.unvalidPkgEnd, ?_, by omega, h.run hub h1 (by omega) h3 (Or.inl
      ⟨hend, rfl, by omega, by omega, hsome, fun q hq1 hq2 => g3 q (by omega) hq2⟩)⟩
    simp only [Recvep.activate, ← he, if_pos hend, hu, ← hb]
  · refine ⟨e, 0, 0, ?_, by omega, h.run hub h1 (by omega) h3 (Or.inr ⟨by omega, rfl⟩)⟩
    simp only [Recvep.activate, ← he, if_neg hend]

/-! ### One call -/

theorem odata_ordered {c : CMemBlock} (h : Ordered R s) (ho : c.offset = 0) (hseq : seqNoOf c = q)
    (h1 : 1 ≤ q) (hnear : q ≤ s.latestRecvedValidSeqNo + unorderedPkgsCnt)
    (hlast : q = s.latestRecvedValidSeqNo + 1 → q ≠ 2 ^ 64 - 1) (src : SockAddr) :
    ∀ ret t, (recvepHandleOdata { s with pMem := some c, addrSender := src }
      (c.decHeadData 8)).res = .ok (ret, t) → Ordered R t := by
  intro ret t hres
  have hL := h.tidy.latest_lt
  have hget : (c.decHeadData 8).get64 0 = q := (get64_seqNo ho).trans hseq
  have hlt : q < 2 ^ 64 := by
    have := seqNoOf_lt c
    omega
  simp only [recvepHandleOdata, hget] at hres
  by_cases hnext : q = u64 (1 + s.latestRecvedValidSeqNo)
  · have hq : q = s.latestRecvedValidSeqNo + 1 := by unfold u64 at hnext; omega
    have hne := hlast hq
    have hu1 : u64 (s.latestRecvedValidSeqNo + 1) = s.latestRecvedValidSeqNo + 1 :=
      u64_of_lt (by omega)
    have hu2 : u64 (s.latestRecvedValidSeqNo + 1 + 1) = s.latestRecvedValidSeqNo + 2 :=
      u64_of_lt (by omega)
    simp only [if_pos hnext, hu1, hu2] at hres
    split_ifs at hres with hact
    · obtain ⟨e, ub', ue', heq, hlt', htidy⟩ := Tidy.activate (u := { s with
        pMem := some ((c.decHeadData 8).decHeadData 8)
        addrSender := src
        latestRecvedValidSeqNo := s.latestRecvedValidSeqNo + 1 }) h.tidy hact.symm
      rw [heq] at hres
      cases hres
      refine ⟨htidy, fun b hb _ => ?_, fun r hr => ?_⟩
      · cases hb
        show seqNoOf c ≤ e
        omega
      · have := h.given r hr
        show r ≤ e
        omega
    · cases hres
      refine ⟨h.tidy.advance (by omega) hact, fun b hb _ => ?_, fun r hr => ?_⟩
      · cases hb
        show seqNoOf c ≤ s.latestRecvedValidSeqNo + 1
        omega
      · have := h.given r hr
        show r ≤ s.latestRecvedValidSeqNo + 1
        omega
  · rw [if_neg hnext] at hres
    split_ifs at hres with hold
    · cases hres
      refine ⟨h.tidy, fun b hb hlen => ?_, h.given⟩
      cases hb
      exact absurd hlen (Nat.lt_irrefl 0)
    · have hq : s.latestRecvedValidSeqNo + 1 < q := by unfold u64 at hnext; omega
      have hwiden := widen_eq (s := { s with pMem := some c, addrSender := src }) (q := q)
        (by show s.latestRecvedValidSeqNo ≤ q; omega) hlt fun _ _ _ => hnear
      rw [hwiden, Eff.pure_bind] at hres
      by_cases hfree : s.vecUnvalidPkgs (q % unorderedPkgsCnt) = none
      · simp only [Eff.require_pos hfree, Eff.pure_bind] at hres
        cases hres
        exact ⟨h.tidy.store hq hlt hnear hfree hseq, fun b hb => (by cases hb), h.given⟩
      · simp only [Eff.require_neg hfree, Eff.abort_bind] at hres
        cases hres

/-- A NAK for the packets from the next one to `e`, which are missing. -/
def IsAsk (R : Set ℕ) (s : RecvSock) (d : List UInt8) : Prop :=
  ∃ stack e, d = nakBytes stack (u64 (s.latestRecvedValidSeqNo + 1)) e s.epid ∧ e < 2 ^ 64 ∧
    s.latestRecvedValidSeqNo < e ∧ ∀ n, s.latestRecvedValidSeqNo < n → n ≤ e →
      n ∉ R ∧ ∀ i b, s.vecUnvalidPkgs i = some b → seqNoOf b ≠ n

/-- A call that hands out nothing, leaves the socket in order and asks for missing packets only. -/
structure Fair (R : Set ℕ) (s : RecvSock) (y : Eff Ev Fault RecvSock) : Prop where
  asks : ∀ dest d, Ev.sendto dest d ∈ y.evs → opcode d = epNak → IsAsk R s d
  keeps : ∀ t, y.res = .ok t → Ordered (R ∪ returned y.evs) t

theorem returned_of_sends (h : ∀ b, Ev.recved b ∉ evs) : returned evs = ∅ := by
  refine Set.eq_empty_of_forall_notMem ?_
  rintro q ⟨b, hb, -⟩
  exact h _ hb

/-- A call that only sends control packets asks for the gap in front of the reorder buffer. -/
theorem quiet_fair {F : Fault → Prop} {y : Eff Ev Fault RecvSock} (h : Ordered R s)
    (hy : Quiet s F y) : Fair R s y := by
  refine ⟨fun dest d hmem hop => ?_, fun t ht => ?_⟩
  · obtain ⟨d', heq, hpkg⟩ := hy.evs _ hmem
    cases heq
    rcases hpkg with ⟨-, stk, rfl⟩ | ⟨hlt, hle, stk, rfl⟩
    · exact absurd hop (show ¬ epAck = epNak by decide)
    · have hpos : 0 < s.unvalidPkgBegin := by omega
      have hgap := h.tidy.gap hpos
      have hends := h.tidy.ends hpos
      have hsub : sub64 s.unvalidPkgBegin 1 = s.unvalidPkgBegin - 1 :=
        sub64_of_le (by omega) hpos
      refine ⟨stk, sub64 s.unvalidPkgBegin 1, rfl, ?_⟩
      rw [hsub]
      exact ⟨by omega, by omega, fun n h1 h2 => h.missing h1 (Or.inr (by omega))⟩
  · rw [returned_of_sends fun b hb => ?_, Set.union_empty]
    · exact h.of_same (hy.ok t ht)
    · obtain ⟨d, heq, -⟩ := hy.evs _ hb
      cases heq

theorem exec_next_some {p : CMemBlock} {stack : ℕ → UInt8} {io : Sendto}
    (h : getNextRecvedData s stack io = pure (.suc, some p, t)) :
    exec (.next stack io) s = ⟨[.recved (some p)], .ok t⟩ := by
  simp only [exec, h, Eff.pure_bind, if_true]
  rfl

theorem fair_of_recved {p : CMemBlock} (h : Ordered R t)
    (hp : seqNoOf p ≤ t.latestRecvedValidSeqNo) : Fair R s ⟨[.recved (some p)], .ok t⟩ := by
  refine ⟨fun dest d hmem => ?_, fun u hu => ?_⟩
  · rcases List.mem_singleton.mp hmem with ⟨⟩
  · cases hu
    refine ⟨h.tidy, h.mem, ?_⟩
    rintro q (hq | ⟨b, hb, rfl⟩)
    · exact h.given q hq
    · rcases List.mem_singleton.mp hb with ⟨⟩
      exact hp

/-- `get_next_recved_data` hands out a packet up to the latest number, or acknowledges. -/
theorem next_fair (h : Ordered R s) (stack : ℕ → UInt8) (io : Sendto) :
    Fair R s (exec (.next stack io) s) := by
  rcases hmem : s.pMem.filter (0 < ·.len) with _ | p
  · by_cases hv : 0 < s.validPkgBegin ∧ s.validPkgBegin ≤ s.validPkgEnd
    · obtain ⟨p, hp, hle⟩ := h.tidy.ready hv.1 _ (Nat.le_refl _) hv.2
      have hget := getNext_slot hmem hv stack io
      rw [hp] at hget
      rw [exec_next_some hget]
      exact fair_of_recved ⟨h.tidy.take hv.1 hv.2, h.mem, h.given⟩ hle
    · have hq := setAck_quiet { s with validPkgBegin := 0, validPkgEnd := 0 } false stack io
      have hne : ¬ Cmnerr.noData = Cmnerr.suc := by decide
      have hexec : exec (.next stack io) s =
          setAck { s with validPkgBegin := 0, validPkgEnd := 0 } false stack io := by
        simp only [exec, getNext_none hmem hv, Eff.bind_assoc, Eff.pure_bind, if_neg hne,
          Eff.bind_pure]
      have hord : Ordered R { s with validPkgBegin := 0, validPkgEnd := 0 } :=
        ⟨h.tidy.done, h.mem, h.given⟩
      rw [hexec]
      have hfair := quiet_fair hord hq
      exact ⟨hfair.asks, hfair.keeps⟩
  · obtain ⟨hp, hlen⟩ := Option.filter_eq_some_iff.mp hmem
    rw [exec_next_some (getNext_mem hp (by simpa using hlen) stack io)]
    refine fair_of_recved ⟨h.tidy, fun b hb => (by cases hb), h.given⟩ ?_
    exact h.mem p hp (by simpa using hlen)

theorem recv_fair_of {x : Eff Ev Fault (Cmnerr × RecvSock)}
    (hevs : ∀ e ∈ x.evs, ∃ dest d, e = .sendto dest d ∧ IsAsk R s d)
    (hres : ∀ ret t, x.res = .ok (ret, t) → Ordered R t) :
    Fair R s (x >>= fun y => pure y.2) := by
  refine ⟨fun dest d hmem _ => ?_, fun t ht => ?_⟩
  · rw [Eff.bind_pure_evs] at hmem
    obtain ⟨dest', d', heq, hask⟩ := hevs _ hmem
    cases heq
    exact hask
  · rw [Eff.bind_pure_evs, returned_of_sends fun b hb => ?_, Set.union_empty]
    · obtain ⟨⟨ret, u⟩, hu, hpure⟩ := Eff.bind_res_ok ht
      cases hpure
      exact hres ret u hu
    · obtain ⟨dest', d', heq, -⟩ := hevs _ hb
      cases heq

theorem recv_fair {r : Recvfrom} {fresh stack : ℕ → UInt8} {io : Sendto} (h : Ordered R s)
    (hw : InWindow s (.recv r fresh stack io)) (hc : Clear s (.recv r fresh stack io)) :
    Fair R s (exec (.recv r fresh stack io) s) := by
  show Fair R s (recvepHandleCanRecv s fresh stack r io >>= fun y => pure y.2)
  rcases handleCanRecv_cases s fresh stack r with ⟨-, ⟨f, hab⟩ | ⟨ret, b, -, hl, -, hret⟩⟩ |
    ⟨c, src, harr, ho, -, -, hsid, ⟨hop, hp⟩ | ⟨hop, hp⟩⟩
  · rw [hab]
    exact recv_fair_of (fun e he => nomatch he) fun ret t hres => nomatch hres
  · rw [hret]
    refine recv_fair_of (fun e he => nomatch he) fun ret' t hres => ?_
    cases hres
    refine ⟨h.tidy, fun d hd hlen => ?_, h.given⟩
    cases hd
    omega
  · obtain ⟨h1, h2⟩ := hw c harr hsid hop
    rw [hp]
    refine recv_fair_of (fun e he => ?_)
      (odata_ordered h ho rfl h1 h2 ((hc c harr hsid).2 hop) src)
    rw [odata_evs] at he
    cases he
  · have hget := get64_seqNo ho
    have hlt := seqNoOf_lt c
    obtain ⟨ret, -, hres, hevs⟩ := handleHb_eq
      (s := { s with pMem := some c, addrSender := src }) (c.decHeadData 8) stack io
    rw [hp]
    refine recv_fair_of (fun e he => ?_) fun ret' t hok => ?_
    · obtain ⟨hnew, rfl⟩ := hevs e he
      rw [hget] at hnew
      have hnew' : s.latestRecvedValidSeqNo < seqNoOf c := hnew
      have hclear := (hc c harr hsid).1 hop hnew'
      refine ⟨_, _, rfl, stack, seqNoOf c, by rw [hget], hlt, hnew', fun n h1 h2 => ?_⟩
      exact h.missing h1 (by omega)
    · rw [hres] at hok
      cases hok
      refine ⟨h.tidy, fun d hd hlen => ?_, h.given⟩
      cases hd
      exact absurd hlen (Nat.lt_irrefl 0)

/-- **One call.** -/
theorem exec_fair {a : Call} (h : Ordered R s) (hw : InWindow s a) (hc : Clear s a) :
    Fair R s (exec a s) := by
  cases a with
  | recv r fresh stack io => exact recv_fair h hw hc
  | next stack io => exact next_fair h stack io
  | timer now stack ioAck ioNak => exact quiet_fair h (timer_quiet s now stack ioAck ioNak)

/-! ### Runs -/

/-- What is known of a process while it lives. -/
def Live (p : Proc RecvSock Ev Fault) : Prop := p.fault = none → Ordered (returned p.log) p.obj

theorem asksMissing_of_fair {p : Proc RecvSock Ev Fault} {a : Call}
    (h : Fair (returned p.log) p.obj (exec a p.obj)) : AsksMissing p a := by
  intro _ dest d hmem hop
  obtain ⟨stack, e, rfl, he, hlt, hmiss⟩ := h.asks dest d hmem hop
  have hu : u64 (p.obj.latestRecvedValidSeqNo + 1) = p.obj.latestRecvedValidSeqNo + 1 :=
    u64_of_lt (by omega)
  obtain ⟨h0, h1⟩ := word_nakBytes stack (b := u64 (p.obj.latestRecvedValidSeqNo + 1)) (e := e)
    (by omega) he p.obj.epid
  rw [h0, h1, hu]
  exact ⟨rfl, hlt, fun n hn1 hn2 => hmiss n hn1 hn2⟩

theorem call_live {p : Proc RecvSock Ev Fault} {a : Call} (h : Live p)
    (hc : InWindow p.obj a ∧ Clear p.obj a) : Live (p.call (exec a)) ∧ AsksMissing p a := by
  rcases hf : p.fault with _ | f
  · have hfair := exec_fair (h hf) hc.1 hc.2
    refine ⟨fun hnone => ?_, asksMissing_of_fair hfair⟩
    rcases hres : (exec a p.obj).res with f | t
    · rw [Proc.call_error hf hres] at hnone
      cases hnone
    · rw [Proc.call_ok hf hres, returned_append]
      exact hfair.keeps t hres
  · rw [Proc.call_dead hf]
    refine ⟨h, fun hnone => ?_⟩
    rw [hf] at hnone
    cases hnone

theorem live_init (sid : UInt8) (cnt : ℕ) (bound : SockAddr) : Live (init sid cnt bound) := by
  intro _
  have hzero : ∀ {P : Prop}, 0 < 0 → P := fun h0 => absurd h0 (Nat.lt_irrefl 0)
  refine ⟨⟨?_, fun i b hb => (nomatch hb), fun i b hb => (nomatch hb), hzero, hzero, hzero, hzero,
    hzero, hzero⟩, fun b hb => (nomatch hb), ?_⟩
  · show 0 < 2 ^ 64
    omega
  · rintro q ⟨b, hb, -⟩
    cases hb

/-- **NAKs ask only for what is missing**, in every run within the reorder window whose heartbeats
do not reach into the reorder buffer. -/
theorem asks_missing (sid : UInt8) (cnt : ℕ) (bound : SockAddr) (as : List Call)
    (hw : Proc.Meets exec (fun s a => InWindow s a ∧ Clear s a) (init sid cnt bound) as) :
    Run.Meets (fun p a => p.call (exec a)) AsksMissing (init sid cnt bound) as :=
  (Run.run_inv_meets (B := fun _ => True) (fun _ _ _ => trivial)
    (fun _ _ h hc _ => call_live h hc) (live_init sid cnt bound) hw trivial).2

/-- Packet `q` of sender 7, with one byte of payload. -/
def odata (q : ℕ) : Call :=
  .recv (.dgram ⟨9, 9⟩ (odataBytes 7 q [65])) (fun _ => 0) (fun _ => 0) .sent

/-- A heartbeat of sender 7 whose latest packet is `q`. -/
def heartbeat (q : ℕ) : Call :=
  .recv (.dgram ⟨9, 9⟩ (hbBytes (fun _ => 0) 7 q 1)) (fun _ => 0) (fun _ => 0) .sent

/-- Packet 2 has arrived; a heartbeat and the timer ask for packet 1. -/
theorem asks_missing_first : Run.Meets (fun p a => p.call (exec a)) AsksMissing (init 7 1 ⟨1, 1⟩)
    [odata 2, heartbeat 1, tick 1, tick 2000] := by
  refine asks_missing 7 1 ⟨1, 1⟩ [odata 2, heartbeat 1, tick 1, tick 2000]
    ⟨⟨?_, ?_⟩, ⟨?_, ?_⟩, ⟨trivial, trivial⟩, ⟨trivial, trivial⟩, trivial⟩
  · rintro b ⟨src, hb⟩ - -
    have hseq : seqNoOf b = 2 := by cases hb; rfl
    rw [hseq]
    decide
  · rintro b ⟨src, hb⟩ -
    have hseq : seqNoOf b = 2 := by cases hb; rfl
    have hop : b.get8 3 = epData := by cases hb; rfl
    rw [hseq, hop]
    refine ⟨fun h => absurd h (by decide), fun _ h => absurd h (by decide)⟩
  · rintro b ⟨src, hb⟩ - hop
    have hop' : b.get8 3 = epHb := by cases hb; rfl
    rw [hop'] at hop
    exact absurd hop (by decide)
  · rintro b ⟨src, hb⟩ -
    have hseq : seqNoOf b = 1 := by cases hb; rfl
    have hop : b.get8 3 = epHb := by cases hb; rfl
    rw [hseq, hop]
    refine ⟨fun _ _ => Or.inr ?_, fun h => absurd h (by decide)⟩
    show 1 < 2
    omega

/-- **A heartbeat that reaches into the reorder buffer.** Packet 2 has arrived before packet 1, and
the heartbeat of the sender says 2. -/
theorem asks_for_buffered :
    Proc.Meets exec InWindow (init 7 1 ⟨1, 1⟩) [odata 2, heartbeat 2] ∧
      ¬ Run.Meets (fun p a => p.call (exec a)) AsksMissing (init 7 1 ⟨1, 1⟩)
        [odata 2, heartbeat 2] := by
  refine ⟨⟨?_, ?_, trivial⟩, fun h => ?_⟩
  · rintro b ⟨src, hb⟩ - -
    have hseq : seqNoOf b = 2 := by cases hb; rfl
    rw [hseq]
    decide
  · rintro b ⟨src, hb⟩ - hop
    have hop' : b.get8 3 = epHb := by cases hb; rfl
    rw [hop'] at hop
    exact absurd hop (by decide)
  · obtain ⟨-, -, hmiss⟩ := h.2.1 rfl ⟨9, 9⟩
      (nakBytes (fun _ => 0) 1 2 (epidOf ⟨1, 1⟩)) (List.mem_singleton_self _) rfl
    obtain ⟨h0, h1⟩ := word_nakBytes (fun _ => 0) (b := 1) (e := 2) (by omega) (by omega)
      (epidOf ⟨1, 1⟩)
    exact (hmiss 2 (by omega) (by omega)).2 2 _ rfl rfl

end SmartNet.Network.Rmp.NakRanges

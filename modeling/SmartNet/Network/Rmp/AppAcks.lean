import SmartNet.Lib.Process
import SmartNet.Network.Rmp.RecvRun

/-! # Acks and what the application has taken

The input thread makes one `handle_can_recv` after the other and asks for the packets that became
ready until there are none; the output thread calls the timer in between. An ack says that the
application has taken every packet up to its number.

* `Covered`: every ack of a history is preceded by the packets it acknowledges;
* `Serving`: what a socket still has to hand out, and what the application has then taken;
* `ack_covers`: the acks of a run are covered, unless the timer acknowledges while packets are still
  to be handed out, an empty or a far packet arrives. -/

namespace SmartNet.Network.Rmp.AppAcks

open SmartNet.Common SmartNet.Lib SmartNet.Lib.Bytes SmartNet.Lib.Frontier SmartNet.Lib.Mem
open SmartNet.Lib.Ring SmartNet.Memory.MemBlock SmartNet.Network.Udp SmartNet.Network.Rmp.Wire
open SmartNet.Network.Rmp.Recvep SmartNet.Network.Rmp.ControlPkgs SmartNet.Network.Rmp.Reorder
open SmartNet.Network.Rmp.RecvRun

/-- The number of the packet a block was received with: the handlers move the range of the block
behind the header, which stays where it is. -/
def seqNoOf (b : CMemBlock) : ℕ := leNat (rd b.bytes 8 8)

/-- A receiving socket; `draining` from a packet that became ready to `CMNERR_NO_DATA`. -/
structure App where
  sock : RecvSock
  draining : Bool

/-- One pass of the loop of `handle_can_recv`, one `get_next_recved_data`, one `handle_can_send`. -/
inductive Call
  | recv (r : Recvfrom) (fresh stack : ℕ → UInt8) (io : Sendto)
  | next (stack : ℕ → UInt8) (io : Sendto)
  | timer (now : ℕ) (stack : ℕ → UInt8) (ioAck ioNak : Sendto)

/-- What a call does. While packets are to be handed out the input thread receives nothing. -/
def exec : Call → App → Eff Ev Fault App
  | .recv r fresh stack io, x =>
    if x.draining then pure x
    else do
      let (ret, s) ← recvepHandleCanRecv x.sock fresh stack r io
      pure ⟨s, ret = .odataReady⟩
  | .next stack io, x => do
    let (ret, pMem, s) ← getNextRecvedData x.sock stack io
    if ret = .suc then do
      Eff.emit (.recved pMem)
      pure ⟨s, true⟩
    else pure ⟨s, false⟩
  | .timer now stack ioAck ioNak, x => do
    let s ← recvepHandleCanSend x.sock now stack ioAck ioNak
    pure { x with sock := s }

/-- A receiver that was opened and has joined the group. -/
def init (senderId : UInt8) (ackConfirmCnt : ℕ) (bound : SockAddr) : Proc App Ev Fault :=
  { obj := ⟨joinMulticastGroup (Recvep.open senderId ackConfirmCnt) bound, false⟩ }

/-- The numbers of the packets `get_next_recved_data` has returned. -/
def returned (log : List Ev) : Set ℕ := {q | ∃ b, Ev.recved (some b) ∈ log ∧ seqNoOf b = q}

/-- Every ack is preceded by the packets up to its number. -/
def Covered (log : List Ev) : Prop :=
  ∀ pre dest d post, log = pre ++ .sendto dest d :: post → opcode d = epAck →
    ∀ q, 1 ≤ q → q ≤ word 0 d → q ∈ returned pre

/-- The timer is about to repeat the ack. -/
def AckDue (s : RecvSock) (now : ℕ) : Prop :=
  sendAckInterval < sub64 now (if s.lastSendAckTime = 0 then now else s.lastSendAckTime) ∧
    0 < s.latestRecvedValidSeqNo

/-- `get_next_recved_data` has no block to return. -/
def Drained (s : RecvSock) : Prop :=
  (∀ b ∈ s.pMem, b.len = 0) ∧ ¬ (0 < s.validPkgBegin ∧ s.validPkgBegin ≤ s.validPkgEnd)

/-- The timer does not acknowledge while packets are to be handed out; the next packet is not empty,
and no packet that opens the reorder buffer is beyond the limitation. -/
def Served (x : App) : Call → Prop
  | .recv r fresh _ _ => x.draining = false → ∀ b, Arrives x.sock.pMem fresh r b →
    b.get8 3 = epData → b.get8 4 = x.sock.senderId →
      (seqNoOf b = x.sock.latestRecvedValidSeqNo + 1 → b.len ≠ 16) ∧
      (x.sock.unvalidPkgBegin = 0 →
        seqNoOf b ≤ x.sock.latestRecvedValidSeqNo + (unorderedPkgsCnt + 2))
  | .next _ _ => True
  | .timer now _ _ _ => AckDue x.sock now → Drained x.sock

variable {log evs : List Ev} {s t : RecvSock} {x : App} {seen R R' : Set ℕ} {m k now : ℕ}
  {stack : ℕ → UInt8} {io ioAck ioNak : Sendto}

theorem get64_seqNo {c : CMemBlock} (ho : c.offset = 0) :
    (c.decHeadData 8).get64 0 = seqNoOf c := by
  have hoff : (c.decHeadData 8).offset = 8 := by
    show u32 (c.offset + 8) = 8
    rw [ho]; rfl
  unfold CMemBlock.get64 seqNoOf
  rw [hoff]; rfl

theorem seqNoOf_lt (c : CMemBlock) : seqNoOf c < 2 ^ 64 := by
  have h := leNat_lt (rd c.bytes 8 8)
  rw [length_rd] at h
  unfold seqNoOf
  omega

/-! ### Histories -/

theorem returned_append (log evs : List Ev) :
    returned (log ++ evs) = returned log ∪ returned evs := by
  ext q
  constructor
  · rintro ⟨b, hb, hq⟩
    rcases List.mem_append.mp hb with hb | hb
    · exact Or.inl ⟨b, hb, hq⟩
    · exact Or.inr ⟨b, hb, hq⟩
  · rintro (⟨b, hb, hq⟩ | ⟨b, hb, hq⟩)
    · exact ⟨b, List.mem_append_left _ hb, hq⟩
    · exact ⟨b, List.mem_append_right _ hb, hq⟩

theorem returned_mono (log evs : List Ev) : returned log ⊆ returned (log ++ evs) := by
  rw [returned_append]
  exact Set.subset_union_left

theorem covered_nil : Covered [] := by
  intro pre dest d post heq
  have hlen := congrArg List.length heq
  simp at hlen

theorem Covered.append (h : Covered log)
    (hev : ∀ dest d, Ev.sendto dest d ∈ evs → opcode d = epAck →
      ∀ q, 1 ≤ q → q ≤ word 0 d → q ∈ returned log) :
    Covered (log ++ evs) := by
  intro pre dest d post heq hop q h1 h2
  have hlater : ∀ mid, pre = log ++ mid → evs = mid ++ .sendto dest d :: post →
      q ∈ returned pre := by
    intro mid hpre hevs
    have hmem : Ev.sendto dest d ∈ evs := by
      rw [hevs]
      exact List.mem_append_right _ (List.mem_cons_self)
    rw [hpre]
    exact returned_mono _ _ (hev dest d hmem hop q h1 h2)
  rcases List.append_eq_append_iff.mp heq with ⟨mid, hpre, hevs⟩ | ⟨mid, hlog, hpost⟩
  · exact hlater mid hpre hevs
  · rcases mid with _ | ⟨e, mid⟩
    · refine hlater [] ?_ hpost.symm
      rw [hlog, List.append_nil, List.append_nil]
    · have he : e = .sendto dest d := by
        have := congrArg List.head? hpost
        simp at this
        exact this.symm
      rw [he] at hlog
      exact h pre dest d mid hlog hop q h1 h2

/-- No datagram of a call is an ack. -/
def NoAck (evs : List Ev) : Prop := ∀ dest d, Ev.sendto dest d ∈ evs → opcode d ≠ epAck

theorem Covered.append_noAck (h : Covered log) (hev : NoAck evs) : Covered (log ++ evs) :=
  h.append fun dest d hmem hop => absurd hop (hev dest d hmem)

/-- Once every packet a 64-bit number can name was returned, every ack is covered. -/
theorem Covered.append_all (h : Covered log) (hall : ∀ q, 1 ≤ q → q < 2 ^ 64 → q ∈ returned log)
    (evs : List Ev) : Covered (log ++ evs) := by
  refine h.append fun dest d _ _ q h1 h2 => hall q h1 ?_
  have := word_lt 0 d
  omega

/-! ### What is left to hand out -/

/-- **The invariant.** `m` blocks (none or one) in `m_pMem` and then `k` blocks of the reorder
buffer are to be handed out; the application has the packets before them. -/
structure Serving (seen R : Set ℕ) (m k : ℕ) (s : RecvSock) : Prop where
  frontier : IsFrontier seen s.latestRecvedValidSeqNo
  slots : Holds unorderedPkgsCnt s.vecUnvalidPkgs
    {q | q ∈ seen ∧ s.latestRecvedValidSeqNo < q + k} (fun q b => seqNoOf b = q)
  ends : Ends (waiting seen s.latestRecvedValidSeqNo) s.unvalidPkgBegin s.unvalidPkgEnd
  near : ∀ q ∈ waiting seen s.latestRecvedValidSeqNo,
    q ≤ s.latestRecvedValidSeqNo + (unorderedPkgsCnt + 2)
  small : ∀ q ∈ seen, 1 ≤ q ∧ q < 2 ^ 64
  pending : Pending s.validPkgBegin s.validPkgEnd k
  last : 0 < k → s.validPkgEnd = s.latestRecvedValidSeqNo
  mem : m = 0 ∧ Idle s.pMem ∨
    m = 1 ∧ ∃ p, s.pMem = some p ∧ 0 < p.len ∧ seqNoOf p + k = s.latestRecvedValidSeqNo
  given : ∀ q, 1 ≤ q → q + (m + k) ≤ s.latestRecvedValidSeqNo → q ∈ R

/-- Packet 2^64 - 1 is in `m_pMem`, and the counter has wrapped. -/
structure Ending (R : Set ℕ) (s : RecvSock) : Prop where
  latest : s.latestRecvedValidSeqNo = 0
  unvalidPkgBegin : s.unvalidPkgBegin = 0
  mem : ∃ p, s.pMem = some p ∧ 0 < p.len ∧ seqNoOf p = 2 ^ 64 - 1
  given : ∀ q, 1 ≤ q → q < 2 ^ 64 - 1 → q ∈ R

/-- Every packet a 64-bit number can name. -/
def All (R : Set ℕ) : Prop := ∀ q, 1 ≤ q → q < 2 ^ 64 → q ∈ R

/-- The states of a run whose calls are all served. -/
def Fine (R : Set ℕ) (x : App) : Prop :=
  (∃ seen m k, Serving seen R m k x.sock ∧
      (x.draining = false → m = 0 ∧ x.sock.validPkgBegin = 0 ∧ x.sock.validPkgEnd = 0)) ∨
    (Ending R x.sock ∧ x.draining = true) ∨ All R

theorem Serving.mono (h : Serving seen R m k s) (hR : R ⊆ R') : Serving seen R' m k s :=
  ⟨h.frontier, h.slots, h.ends, h.near, h.small, h.pending, h.last, h.mem,
    fun q h1 h2 => hR (h.given q h1 h2)⟩

theorem Ending.mono (h : Ending R s) (hR : R ⊆ R') : Ending R' s :=
  ⟨h.latest, h.unvalidPkgBegin, h.mem, fun q h1 h2 => hR (h.given q h1 h2)⟩

theorem Fine.mono (h : Fine R x) (hR : R ⊆ R') : Fine R' x := by
  rcases h with ⟨seen, m, k, h, hd⟩ | ⟨h, hd⟩ | h
  · exact Or.inl ⟨seen, m, k, h.mono hR, hd⟩
  · exact Or.inr (Or.inl ⟨h.mono hR, hd⟩)
  · exact Or.inr (Or.inr fun q h1 h2 => hR (h q h1 h2))

theorem Serving.holding (h : Serving seen R m k s) :
    Holding (fun q b => seqNoOf b = q) (unorderedPkgsCnt + 2) seen k s :=
  ⟨h.frontier, h.slots, h.ends, h.near, h.small, h.pending, h.last⟩

theorem serving_of_holding (h : Holding (fun q b => seqNoOf b = q) (unorderedPkgsCnt + 2) seen k s)
    (hmem : m = 0 ∧ Idle s.pMem ∨
      m = 1 ∧ ∃ p, s.pMem = some p ∧ 0 < p.len ∧ seqNoOf p + k = s.latestRecvedValidSeqNo)
    (hR : ∀ q, 1 ≤ q → q + (m + k) ≤ s.latestRecvedValidSeqNo → q ∈ R) : Serving seen R m k s :=
  ⟨h.frontier, h.slots, h.ends, h.near, h.small, h.pending, h.last, hmem, hR⟩

theorem Serving.of_same (h : Serving seen R m k s) (hst : Same s t) : Serving seen R m k t := by
  refine serving_of_holding (h.holding.of_same hst) ?_ ?_
  · rw [hst.latest, hst.pMem]; exact h.mem
  · rw [hst.latest]; exact h.given

theorem Ending.of_same (h : Ending R s) (hst : Same s t) : Ending R t :=
  ⟨hst.latest.trans h.latest, hst.unvalidPkgBegin.trans h.unvalidPkgBegin,
    by rw [hst.pMem]; exact h.mem, h.given⟩

theorem Serving.kept (h : Serving seen R 0 0 s) :
    Kept (fun q b => seqNoOf b = q) (unorderedPkgsCnt + 2) seen s := h.holding.kept

theorem Serving.idle (h : Serving seen R 0 k s) : Idle s.pMem := by
  rcases h.mem with ⟨-, hidle⟩ | ⟨h1, -⟩
  · exact hidle
  · cases h1

theorem Serving.no_more (h : Serving seen R m 0 s) :
    ¬ (0 < s.validPkgBegin ∧ s.validPkgBegin ≤ s.validPkgEnd) := h.holding.zero_iff.mp rfl

theorem serving_of_kept (h : Kept (fun q b => seqNoOf b = q) (unorderedPkgsCnt + 2) seen s)
    (hidle : Idle s.pMem) (hv : ¬ (0 < s.validPkgBegin ∧ s.validPkgBegin ≤ s.validPkgEnd))
    (hR : ∀ q, 1 ≤ q → q ≤ s.latestRecvedValidSeqNo → q ∈ R) : Serving seen R 0 0 s :=
  serving_of_holding (h.holding hv) (Or.inl ⟨rfl, hidle⟩) hR

theorem Serving.drained (h : Serving seen R m k s) (hd : Drained s) : m = 0 ∧ k = 0 := by
  constructor
  · rcases h.mem with ⟨hm, -⟩ | ⟨-, p, hp, hlen, -⟩
    · exact hm
    · have := hd.1 p hp
      omega
  · exact h.holding.zero_iff.mpr hd.2

theorem Serving.latest_lt (h : Serving seen R m k s) : s.latestRecvedValidSeqNo < 2 ^ 64 :=
  h.holding.latest_lt

/-! ### Handing out -/

theorem Serving.next_mem (h : Serving seen R 1 k s) : ∃ p, s.pMem = some p ∧ 0 < p.len ∧
    ∀ R', R ⊆ R' → seqNoOf p ∈ R' → Serving seen R' 0 k { s with pMem := none } := by
  rcases h.mem with ⟨h0, -⟩ | ⟨-, p, hp, hlen, hseq⟩
  · cases h0
  · refine ⟨p, hp, hlen, fun R' hR hmem => ?_⟩
    refine ⟨h.frontier, h.slots, h.ends, h.near, h.small, h.pending, h.last, Or.inl ⟨rfl, ?_⟩,
      fun q h1 h2 => ?_⟩
    · exact fun b hb => by cases hb
    · have h2' : q + (0 + k) ≤ s.latestRecvedValidSeqNo := h2
      by_cases hq : q = seqNoOf p
      · rw [hq]; exact hmem
      · exact hR (h.given q h1 (by omega))

theorem Serving.next_slot (h : Serving seen R 0 (k + 1) s) :
    (0 < s.validPkgBegin ∧ s.validPkgBegin ≤ s.validPkgEnd) ∧
    ∃ p, s.vecUnvalidPkgs (s.validPkgBegin % unorderedPkgsCnt) = some p ∧
      ∀ R', R ⊆ R' → seqNoOf p ∈ R' → Serving seen R' 0 k { s with
        vecUnvalidPkgs := Function.update s.vecUnvalidPkgs (s.validPkgBegin % unorderedPkgsCnt) none
        validPkgBegin := u64 (s.validPkgBegin + 1) } := by
  obtain ⟨hv, hb, p, hp, hseq, hnext⟩ := h.holding.next_slot
  refine ⟨hv, p, hp, fun R' hR hmem => ?_⟩
  refine serving_of_holding hnext (Or.inl ⟨rfl, h.idle⟩) fun q h1 h2 => ?_
  have h2' : q + (0 + k) ≤ s.latestRecvedValidSeqNo := h2
  by_cases hq : q = s.validPkgBegin
  · rw [hq, ← hseq]; exact hmem
  · exact hR (h.given q h1 (by omega))

theorem Serving.ack_given {F : Fault → Prop} {y : Eff Ev Fault RecvSock}
    (h : Serving seen R 0 0 s) (hy : Quiet s F y) :
    ∀ dest d, Ev.sendto dest d ∈ y.evs → opcode d = epAck →
      ∀ q, 1 ≤ q → q ≤ word 0 d → q ∈ R := by
  intro dest d hmem hop q h1 h2
  obtain ⟨d', heq, hpkg⟩ := hy.evs _ hmem
  cases heq
  rcases hpkg with ⟨-, stack, hd⟩ | ⟨-, -, stack, hd⟩
  · rw [hd, word_ackBytes stack h.latest_lt] at h2
    exact h.given q h1 h2
  · rw [hd, opcode_nakBytes] at hop
    exact absurd hop (by decide)

/-! ### One call -/

/-- A call from a state whose history is covered. -/
def Keeps (log : List Ev) (y : Eff Ev Fault App) : Prop :=
  Covered (log ++ y.evs) ∧ ∀ x, y.res = .ok x → Fine (returned (log ++ y.evs)) x

theorem mem_send {io : Sendto} {d : List UInt8} {dest : SockAddr} {f : Fault} {e : Ev}
    (h : e ∈ (udpSend io d dest >>= fun ret => Eff.require (ret = .suc) f >>= fun _ =>
      (pure t : Eff Ev Fault RecvSock)).evs) : e = .sendto dest d := by
  obtain ⟨ret, hret, -⟩ := udpSend_res io d dest
  rw [Eff.bind_of_ok hret] at h
  rcases List.mem_append.mp h with h | h
  · exact udpSend_evs io d dest e h
  · by_cases hr : ret = .suc
    · simp [Eff.require_pos hr] at h
    · simp [Eff.require_neg hr] at h

theorem timerNak_noAck (s : RecvSock) (now : ℕ) (stack : ℕ → UInt8) (io : Sendto) :
    NoAck (timerNak s now stack io).evs := by
  intro dest d hmem
  unfold timerNak at hmem
  have hnak : ∃ b e id, d = nakBytes stack b e id := by
    by_cases h0 : s.lastSendNakTime = 0
    · simp only [h0, if_true] at hmem
      split_ifs at hmem
      · cases mem_send hmem
        exact ⟨_, _, _, rfl⟩
      · cases hmem
      · cases hmem
    · simp only [if_neg h0] at hmem
      split_ifs at hmem
      · cases mem_send hmem
        exact ⟨_, _, _, rfl⟩
      · cases hmem
      · cases hmem
  obtain ⟨b, e, id, rfl⟩ := hnak
  rw [opcode_nakBytes]
  decide

theorem timerAck_silent (h : ¬ AckDue s now) (stack : ℕ → UInt8) (io : Sendto) :
    ∃ t, timerAck s now stack io = pure t := by
  have hset : ∀ t : RecvSock, t.latestRecvedValidSeqNo = 0 →
      ∃ u, setAck t true stack io = pure u := fun t ht => by
    refine ⟨_, if_neg ?_⟩
    show ¬ (0 < t.latestRecvedValidSeqNo ∧ _)
    omega
  have hzero : ∀ due : Prop, due → ¬ (due ∧ 0 < s.latestRecvedValidSeqNo) →
      s.latestRecvedValidSeqNo = 0 := fun due hdue hn => by
    by_contra hne
    exact hn ⟨hdue, by omega⟩
  unfold AckDue at h
  unfold timerAck
  by_cases h0 : s.lastSendAckTime = 0
  · simp only [h0, if_true] at h ⊢
    split_ifs with hdue
    · exact hset _ (hzero _ hdue h)
    · exact ⟨_, rfl⟩
  · simp only [if_neg h0] at h ⊢
    split_ifs with hdue
    · exact hset _ (hzero _ hdue h)
    · exact ⟨_, rfl⟩

theorem timer_noAck (h : ¬ AckDue s now) (stack : ℕ → UInt8) (ioAck ioNak : Sendto) :
    NoAck (recvepHandleCanSend s now stack ioAck ioNak).evs := by
  obtain ⟨t, ht⟩ := timerAck_silent h stack ioAck
  unfold recvepHandleCanSend
  rw [ht, Eff.pure_bind]
  exact timerNak_noAck t now stack ioNak

theorem exec_timer (x : App) (now : ℕ) (stack : ℕ → UInt8) (ioAck ioNak : Sendto) :
    (exec (.timer now stack ioAck ioNak) x).evs =
      (recvepHandleCanSend x.sock now stack ioAck ioNak).evs :=
  Eff.bind_pure_evs _ _

theorem timer_keeps (hc : Covered (log ++ (recvepHandleCanSend x.sock now stack ioAck ioNak).evs))
    (hf : ∀ t, Same x.sock t → Fine (returned log) ⟨t, x.draining⟩) :
    Keeps log (exec (.timer now stack ioAck ioNak) x) := by
  refine ⟨by rw [exec_timer]; exact hc, fun y hy => ?_⟩
  rcases hx : recvepHandleCanSend x.sock now stack ioAck ioNak with ⟨evs, f | t⟩
  · simp only [exec, hx] at hy
    cases hy
  · have hq := (timer_quiet x.sock now stack ioAck ioNak).ok t (by rw [hx])
    simp only [exec, hx] at hy
    cases hy
    exact (hf t hq).mono (returned_mono _ _)

theorem serving_timer (hc : Covered log) (h : Serving seen (returned log) m k x.sock)
    (hd : x.draining = false → m = 0 ∧ x.sock.validPkgBegin = 0 ∧ x.sock.validPkgEnd = 0)
    (hs : Served x (.timer now stack ioAck ioNak)) :
    Keeps log (exec (.timer now stack ioAck ioNak) x) := by
  refine timer_keeps ?_ fun t ht => Or.inl ⟨seen, m, k, h.of_same ht, fun h0 => ?_⟩
  swap
  · obtain ⟨h1, h2, h3⟩ := hd h0
    exact ⟨h1, ht.validPkgBegin.trans h2, ht.validPkgEnd.trans h3⟩
  by_cases hdue : AckDue x.sock now
  · obtain ⟨rfl, rfl⟩ := h.drained (hs hdue)
    exact hc.append (h.ack_given (timer_quiet x.sock now stack ioAck ioNak))
  · exact hc.append_noAck (timer_noAck hdue stack ioAck ioNak)

theorem ending_timer (hc : Covered log) (h : Ending (returned log) x.sock)
    (hd : x.draining = true) : Keeps log (exec (.timer now stack ioAck ioNak) x) := by
  have hdue : ¬ AckDue x.sock now := fun h' => by
    have := h'.2
    have := h.latest
    omega
  exact timer_keeps (hc.append_noAck (timer_noAck hdue stack ioAck ioNak))
    fun t ht => Or.inr (Or.inl ⟨h.of_same ht, hd⟩)

theorem exec_next_some {p : CMemBlock}
    (h : getNextRecvedData x.sock stack io = pure (.suc, some p, s)) :
    exec (.next stack io) x = ⟨[.recved (some p)], .ok ⟨s, true⟩⟩ := by
  simp only [exec, h, Eff.pure_bind, if_true]
  rfl

theorem exec_next_none {y : Eff Ev Fault RecvSock} (h : getNextRecvedData x.sock stack io =
    (y >>= fun s => pure (.noData, none, s))) :
    exec (.next stack io) x = y >>= fun s => pure ⟨s, false⟩ := by
  have hne : ¬ Cmnerr.noData = Cmnerr.suc := by decide
  simp only [exec, h, Eff.bind_assoc, Eff.pure_bind, if_neg hne]

theorem recved_keeps {p : CMemBlock} (hc : Covered log)
    (hf : ∀ R, returned log ⊆ R → seqNoOf p ∈ R → Fine R ⟨s, true⟩) :
    Keeps log ⟨[.recved (some p)], .ok ⟨s, true⟩⟩ := by
  refine ⟨hc.append_noAck fun dest d hmem => ?_, fun y hy => ?_⟩
  · rcases List.mem_singleton.mp hmem with ⟨⟩
  · cases hy
    refine hf _ (returned_mono _ _) ?_
    rw [returned_append]
    exact Or.inr ⟨p, List.mem_singleton_self _, rfl⟩

theorem serving_next (hc : Covered log) (h : Serving seen (returned log) m k x.sock) :
    Keeps log (exec (.next stack io) x) := by
  have hm : m = 0 ∨ m = 1 := by
    rcases h.mem with ⟨h0, -⟩ | ⟨h1, -⟩
    · exact Or.inl h0
    · exact Or.inr h1
  rcases hm with rfl | rfl
  · have hmem := filter_idle h.idle
    rcases k with _ | k
    · -- everything was handed out
      have hserv : Serving seen (returned log) 0 0
          { x.sock with validPkgBegin := 0, validPkgEnd := 0 } :=
        ⟨h.frontier, h.slots, h.ends, h.near, h.small,
          Or.inl ⟨rfl, fun h0 => absurd h0.1 (Nat.lt_irrefl 0)⟩, fun h0 => by omega, h.mem, h.given⟩
      have hq := setAck_quiet { x.sock with validPkgBegin := 0, validPkgEnd := 0 } false stack io
      rw [exec_next_none (getNext_none hmem h.no_more stack io)]
      refine ⟨?_, fun y hy => ?_⟩
      · rw [Eff.bind_pure_evs]
        exact hc.append (hserv.ack_given hq)
      · rcases hx : setAck { x.sock with validPkgBegin := 0, validPkgEnd := 0 } false stack io
          with ⟨evs, f | t⟩
        · rw [hx] at hy
          cases hy
        · rw [hx] at hy
          cases hy
          have hsame := hq.ok t (by rw [hx])
          exact Or.inl ⟨seen, 0, 0, (hserv.of_same hsame).mono (returned_mono _ _),
            fun _ => ⟨rfl, hsame.validPkgBegin, hsame.validPkgEnd⟩⟩
    · obtain ⟨hv, p, hp, hnext⟩ := h.next_slot
      have hget := getNext_slot hmem hv stack io
      rw [hp] at hget
      rw [exec_next_some hget]
      refine recved_keeps hc fun R hR hin => Or.inl ⟨seen, 0, k, hnext R hR hin, fun h0 => ?_⟩
      cases h0
  · obtain ⟨p, hp, hlen, hnext⟩ := h.next_mem
    rw [exec_next_some (getNext_mem hp hlen stack io)]
    refine recved_keeps hc fun R hR hin => Or.inl ⟨seen, 0, k, hnext R hR hin, fun h0 => ?_⟩
    cases h0

theorem ending_next (hc : Covered log) (h : Ending (returned log) x.sock) :
    Keeps log (exec (.next stack io) x) := by
  obtain ⟨p, hp, hlen, hseq⟩ := h.mem
  rw [exec_next_some (getNext_mem hp hlen stack io)]
  refine recved_keeps hc fun R hR hin => Or.inr (Or.inr fun q h1 h2 => ?_)
  by_cases hq : q = 2 ^ 64 - 1
  · rw [hq, ← hseq]; exact hin
  · exact hR (h.given q h1 (by omega))

/-! ### Receiving -/

theorem widen_evs (s : RecvSock) (q : ℕ) : (widen s q).evs = [] := by
  unfold widen
  split_ifs <;> rfl

theorem odata_evs (s : RecvSock) (b : CMemBlock) : (recvepHandleOdata s b).evs = [] := by
  unfold recvepHandleOdata
  by_cases h1 : b.get64 0 = u64 (1 + s.latestRecvedValidSeqNo)
  · simp only [if_pos h1]
    split_ifs <;> rfl
  · simp only [if_neg h1]
    split_ifs
    · rfl
    · refine Eff.bind_evs_nil (widen_evs _ _) fun t => ?_
      exact Eff.bind_evs_nil (Eff.require_evs _ _) fun _ => rfl

theorem serving_of_upcoming {L L' : ℕ} {p : CMemBlock}
    (h : Upcoming (fun q b => seqNoOf b = q) seen L L' p s) (hf : IsFrontier seen L)
    (hnear : ∀ q ∈ waiting seen L, q ≤ L + (unorderedPkgsCnt + 2))
    (hsmall : ∀ q ∈ seen, 1 ≤ q ∧ q < 2 ^ 64) (hL : L + 1 < 2 ^ 64) (hp : seqNoOf p = L + 1)
    (hlen : 0 < p.len) (hR : ∀ q, 1 ≤ q → q ≤ L → q ∈ R) :
    Serving (insert (L + 1) seen) R 1 (L' - (L + 1)) s := by
  have hle := h.le
  have hlat := h.latest
  refine serving_of_holding (h.holding hf hnear hsmall hL)
    (Or.inr ⟨rfl, p, h.mem, hlen, by omega⟩) fun q h1 h2 => ?_
  exact hR q h1 (by omega)

theorem odata_last {b : CMemBlock} (hl : s.latestRecvedValidSeqNo = 2 ^ 64 - 2)
    (hb : s.unvalidPkgBegin = 0) (he : s.unvalidPkgEnd = 0) (hseq : b.get64 0 = 2 ^ 64 - 1) :
    ∃ t, recvepHandleOdata s b = pure (.odataReady, t) ∧ t.pMem = some (b.decHeadData 8) ∧
      t.latestRecvedValidSeqNo = 0 ∧ t.unvalidPkgBegin = 0 := by
  have h1 : u64 (1 + s.latestRecvedValidSeqNo) = 2 ^ 64 - 1 := by rw [hl]; rfl
  have h2 : u64 (u64 (s.latestRecvedValidSeqNo + 1) + 1) = s.unvalidPkgBegin := by
    rw [hl, hb]; rfl
  have h3 : ∀ t : RecvSock, t.unvalidPkgBegin = 0 → t.unvalidPkgEnd = 0 →
      (activate t).pMem = t.pMem ∧ (activate t).latestRecvedValidSeqNo = 0 ∧
        (activate t).unvalidPkgBegin = 0 := fun t hb he => by
    simp only [activate, hb, he, Nat.sub_self, findValidPkgEnd, Nat.lt_irrefl, if_false]
    exact ⟨trivial, trivial, trivial⟩
  obtain ⟨h4, h5, h6⟩ := h3 { s with
    pMem := some (b.decHeadData 8)
    latestRecvedValidSeqNo := u64 (s.latestRecvedValidSeqNo + 1) } hb he
  refine ⟨_, ?_, h4, h5, h6⟩
  unfold recvepHandleOdata
  rw [if_pos (by rw [h1]; exact hseq)]
  simp only [if_pos h2]

theorem odata_fine {c : CMemBlock}
    (h : Kept (fun q b => seqNoOf b = q) (unorderedPkgsCnt + 2) seen s)
    (hR : ∀ q, 1 ≤ q → q ≤ s.latestRecvedValidSeqNo → q ∈ R)
    (hv : s.validPkgBegin = 0 ∧ s.validPkgEnd = 0) (ho : c.offset = 0)
    (h1 : 1 ≤ c.len) (h2 : c.len ≤ maxMemSize)
    (hnext : seqNoOf c = s.latestRecvedValidSeqNo + 1 → c.len ≠ 16)
    (hnear : s.unvalidPkgBegin = 0 →
      seqNoOf c ≤ s.latestRecvedValidSeqNo + (unorderedPkgsCnt + 2)) :
    ∀ ret t, (recvepHandleOdata s (c.decHeadData 8)).res = .ok (ret, t) →
      Fine R ⟨t, ret = .odataReady⟩ := by
  intro ret t hres
  have hlt := h.latest_lt
  have hmore : ¬ (0 < s.validPkgBegin ∧ s.validPkgBegin ≤ s.validPkgEnd) := by
    rw [hv.1]; omega
  have hseq := get64_seqNo ho
  have hsmall := seqNoOf_lt c
  by_cases hend : s.latestRecvedValidSeqNo = 2 ^ 64 - 1
  · exact Or.inr (Or.inr fun q h1 h2 => hR q h1 (by omega))
  have hu : u64 (1 + s.latestRecvedValidSeqNo) = s.latestRecvedValidSeqNo + 1 := by
    rw [Nat.add_comm]; exact u64_of_lt (by omega)
  rcases Nat.lt_trichotomy (seqNoOf c) (s.latestRecvedValidSeqNo + 1) with hq | hq | hq
  · -- a packet that was handed out before
    have hle : seqNoOf c ≤ s.latestRecvedValidSeqNo := by omega
    have hne : ¬ seqNoOf c = s.latestRecvedValidSeqNo + 1 := by omega
    simp only [recvepHandleOdata, hseq, hu, if_neg hne, if_pos hle] at hres
    cases hres
    refine Or.inl ⟨seen, 0, 0, ?_, fun _ => ⟨rfl, hv⟩⟩
    refine serving_of_kept (h.of_eq rfl rfl rfl rfl) (fun b hb => ?_) hmore hR
    cases hb; exact ⟨rfl, rfl⟩
  · -- the next packet
    have hlen : 0 < ((c.decHeadData 8).decHeadData 8).len := by
      have hne := hnext hq
      show 0 < sub32 (sub32 c.len 8) 8
      unfold maxMemSize at h2
      unfold sub32 u32
      omega
    by_cases hwrap : s.latestRecvedValidSeqNo + 1 < 2 ^ 64 - 1
    · obtain ⟨L', u, hu', hup⟩ := h.odata_next (b := c.decHeadData 8)
        hv (Nat.le_refl _) (hseq.trans hq) hwrap
      rw [hu'] at hres
      cases hres
      refine Or.inl ⟨_, 1, _, serving_of_upcoming hup h.frontier h.near h.small (by omega) ?_
        hlen hR, fun h0 => ?_⟩
      · exact hq
      · cases h0
    · have hlat : s.latestRecvedValidSeqNo = 2 ^ 64 - 2 := by omega
      have hW : waiting seen s.latestRecvedValidSeqNo = ∅ := by
        refine Set.eq_empty_of_forall_notMem fun q hq => ?_
        have h1 := h.frontier.next_le hq
        have h2 := (h.small q hq.1).2
        omega
      have hb := h.begin_zero_iff.mpr hW
      have he : s.unvalidPkgEnd = 0 := by
        rcases h.ends with ⟨-, he, -⟩ | ⟨hin, -, -⟩
        · exact he
        · rw [hW] at hin; exact hin.elim
      obtain ⟨u, hu', hmem, hl0, hb0⟩ := odata_last hlat hb he (hseq.trans (by omega))
      rw [hu'] at hres
      cases hres
      refine Or.inr (Or.inl ⟨⟨hl0, hb0, ⟨_, hmem, hlen, ?_⟩, fun q h1 h2 => ?_⟩, by simp⟩)
      · show seqNoOf c = 2 ^ 64 - 1
        omega
      · exact hR q h1 (by omega)
  · -- a packet above the next one
    rcases h.odata_wait (b := c.decHeadData 8) (q := seqNoOf c) (by omega) hseq hq hsmall
      (fun hW => hnear (h.begin_zero_iff.mpr hW)) rfl with ⟨hab, -⟩ | ⟨hab, -⟩ |
      ⟨u, hu', hk, hmem, hlat, hvb, hve⟩
    · rw [hab] at hres; cases hres
    · rw [hab] at hres; cases hres
    · rw [hu'] at hres
      cases hres
      refine Or.inl ⟨_, 0, 0, serving_of_kept hk (fun b hb => ?_) ?_ ?_,
        fun _ => ⟨rfl, hvb.trans hv.1, hve.trans hv.2⟩⟩
      · rw [hmem] at hb; cases hb
      · rw [hvb, hve]; exact hmore
      · rw [hlat]; exact hR

theorem recv_outcome (r : Recvfrom) (fresh stack : ℕ → UInt8) (io : Sendto)
    (h : Serving seen R 0 0 s)
    (hv : s.validPkgBegin = 0 ∧ s.validPkgEnd = 0)
    (hs : Served ⟨s, false⟩ (.recv r fresh stack io)) :
    NoAck (recvepHandleCanRecv s fresh stack r io).evs ∧
      ∀ ret t, (recvepHandleCanRecv s fresh stack r io).res = .ok (ret, t) →
        Fine R ⟨t, ret = .odataReady⟩ := by
  have hnil : NoAck [] := fun dest d hmem => by cases hmem
  have hput : ∀ c : CMemBlock, c.len = 0 ∧ c.offset = 0 →
      ∀ a, Serving seen R 0 0 { s with pMem := some c, addrSender := a } := fun c hc a =>
    ⟨h.frontier, h.slots, h.ends, h.near, h.small, h.pending, h.last,
      Or.inl ⟨rfl, fun b hb => by cases hb; exact hc⟩, h.given⟩
  rcases handleCanRecv_cases s fresh stack r with ⟨-, ⟨f, hab⟩ | ⟨ret, b, -, hl, ho, hret⟩⟩ |
    ⟨c, src, harr, hco, hc1, hc2, hsid, ⟨hop, hp⟩ | ⟨-, hp⟩⟩
  · rw [hab]
    exact ⟨hnil, fun ret t hres => by cases hres⟩
  · rw [hret]
    refine ⟨hnil, fun ret' t hres => ?_⟩
    cases hres
    exact Or.inl ⟨seen, 0, 0, hput b ⟨hl, ho⟩ s.addrSender, fun _ => ⟨rfl, hv⟩⟩
  · have hdata := hs rfl c harr hop hsid
    rw [hp]
    refine ⟨by rw [odata_evs]; exact hnil, ?_⟩
    exact odata_fine (h.kept.of_eq rfl rfl rfl rfl) h.given hv hco hc1 hc2 hdata.1 hdata.2
  · -- a heartbeat may be answered with a NAK
    rw [hp]
    obtain ⟨ret, hret, hres, hevs⟩ := handleHb_eq
      (s := { s with pMem := some c, addrSender := src }) (c.decHeadData 8) stack io
    refine ⟨fun dest d hmem => ?_, fun ret' t hok => ?_⟩
    · obtain ⟨-, heq⟩ := hevs _ hmem
      cases heq
      rw [opcode_nakBytes]
      decide
    · rw [hres] at hok
      cases hok
      exact Or.inl ⟨seen, 0, 0, hput _ ⟨rfl, rfl⟩ src, fun _ => ⟨rfl, hv⟩⟩

/-! ### Runs -/

theorem exec_recv {r : Recvfrom} {fresh : ℕ → UInt8} (h : x.draining = false) :
    exec (.recv r fresh stack io) x = recvepHandleCanRecv x.sock fresh stack r io >>= fun y =>
      pure ⟨y.2, y.1 = .odataReady⟩ := by
  simp only [exec, h, Bool.false_eq_true, if_false]

theorem exec_busy {r : Recvfrom} {fresh : ℕ → UInt8} (h : x.draining = true) :
    exec (.recv r fresh stack io) x = pure x := by
  simp only [exec, h, if_true]

theorem pure_keeps (hc : Covered log) (hf : Fine (returned log) x) : Keeps log (pure x) := by
  refine ⟨?_, fun y hy => ?_⟩
  · rw [Eff.pure_evs, List.append_nil]
    exact hc
  · cases hy
    rw [Eff.pure_evs, List.append_nil]
    exact hf

theorem serving_recv {r : Recvfrom} {fresh : ℕ → UInt8} (hc : Covered log)
    (h : Serving seen (returned log) m k x.sock)
    (hd : x.draining = false → m = 0 ∧ x.sock.validPkgBegin = 0 ∧ x.sock.validPkgEnd = 0)
    (hs : Served x (.recv r fresh stack io)) : Keeps log (exec (.recv r fresh stack io) x) := by
  rcases hx : x.draining with _ | _
  · obtain ⟨rfl, hv⟩ := hd hx
    obtain rfl : k = 0 := by
      rcases h.pending with ⟨hk, -⟩ | ⟨-, h0, -⟩
      · exact hk
      · omega
    have hsock : (⟨x.sock, false⟩ : App) = x := by rw [← hx]
    obtain ⟨hack, hfine⟩ := recv_outcome r fresh stack io h hv (by rw [hsock]; exact hs)
    rw [exec_recv hx]
    refine ⟨?_, fun y hy => ?_⟩
    · rw [Eff.bind_pure_evs]
      exact hc.append_noAck hack
    · rcases hres : recvepHandleCanRecv x.sock fresh stack r io with ⟨evs, f | ⟨ret, t⟩⟩
      · rw [hres] at hy
        cases hy
      · rw [hres] at hy
        cases hy
        exact (hfine ret t (by rw [hres])).mono (returned_mono _ _)
  · rw [exec_busy hx]
    refine pure_keeps hc (Or.inl ⟨seen, m, k, h, hd⟩)

/-- **One call** that is served. -/
theorem exec_keeps (a : Call) (hc : Covered log) (hf : Fine (returned log) x) (hs : Served x a) :
    Keeps log (exec a x) := by
  rcases hf with ⟨seen, m, k, h, hd⟩ | ⟨h, hd⟩ | hall
  · cases a with
    | recv => exact serving_recv hc h hd hs
    | next => exact serving_next hc h
    | timer => exact serving_timer hc h hd hs
  · cases a with
    | recv =>
      rw [exec_busy hd]
      exact pure_keeps hc (Or.inr (Or.inl ⟨h, hd⟩))
    | next => exact ending_next hc h
    | timer => exact ending_timer hc h hd
  · refine ⟨hc.append_all hall _, fun y _ => ?_⟩
    have hy : Fine (returned log) y := Or.inr (Or.inr hall)
    exact hy.mono (returned_mono _ _)

theorem exec_triple (a : Call) :
    Eff.Triple (fun log x => (Covered log ∧ Fine (returned log) x) ∧ Served x a) (exec a)
      (fun log x => Covered log ∧ Fine (returned log) x) (fun log _ => Covered log) := by
  intro log x ⟨⟨hc, hf⟩, hs⟩
  obtain ⟨h1, h2⟩ := exec_keeps a hc hf hs
  rcases hres : (exec a x).res with f | y
  · exact h1
  · exact ⟨h1, h2 y hres⟩

theorem fine_init (sid : UInt8) (cnt : ℕ) (bound : SockAddr) :
    Fine (returned []) (init sid cnt bound).obj := by
  refine Or.inl ⟨∅, 0, 0, ?_, fun _ => ⟨rfl, rfl, rfl⟩⟩
  refine serving_of_kept ((kept_open sid cnt).of_eq rfl rfl rfl rfl) (fun b hb => ?_) ?_ ?_
  · cases hb
  · show ¬ (0 < 0 ∧ _)
    omega
  · intro q h1 h2
    have h2' : q ≤ 0 := h2
    omega

/-- **Acks cover what the application has taken**, in every run whose calls are all served. -/
theorem ack_covers (sid : UInt8) (cnt : ℕ) (bound : SockAddr) (as : List Call)
    (hs : Proc.Meets exec Served (init sid cnt bound) as) :
    Covered (Proc.run exec (init sid cnt bound) as).log := by
  have h : Proc.Holds (fun log x => Covered log ∧ Fine (returned log) x) (fun log _ => Covered log)
      (Proc.run exec (init sid cnt bound) as) :=
    Proc.run_inv exec_triple ⟨covered_nil, fine_init sid cnt bound⟩ hs
  rcases hf : (Proc.run exec (init sid cnt bound) as).fault with _ | f
  · exact (h.alive hf).1
  · exact h.dead hf

/-- Packet 1 of sender 7, with one byte of payload. -/
def arrival : Call := .recv (.dgram ⟨9, 9⟩ (odataBytes 7 1 [65])) (fun _ => 0) (fun _ => 0) .sent

/-- The timer at the time `now`. -/
def tick (now : ℕ) : Call := .timer now (fun _ => 0) .sent .sent

/-- `get_next_recved_data`. -/
def take : Call := .next (fun _ => 0) .sent

theorem served_arrival : Served (init 7 1 ⟨1, 1⟩).obj arrival := by
  rintro - b ⟨src, hb⟩ - -
  have hlen : b.len = 17 := by
    cases hb
    rfl
  have hseq : seqNoOf b = 1 := by
    cases hb
    rfl
  refine ⟨fun _ => by omega, fun _ => ?_⟩
  rw [hseq]
  unfold unorderedPkgsCnt
  omega

/-- The application takes packet 1; then it is acknowledged, and once more by the timer. -/
theorem ack_covers_first : Covered (Proc.run exec (init 7 1 ⟨1, 1⟩)
    [arrival, take, take, tick 1, tick 20000]).log := by
  refine ack_covers 7 1 ⟨1, 1⟩ [arrival, take, take, tick 1, tick 20000]
    ⟨served_arrival, trivial, trivial, fun _ => ⟨fun b hb => ?_, ?_⟩,
      fun _ => ⟨fun b hb => ?_, ?_⟩, trivial⟩
  · cases hb
  · exact fun h => absurd h.1 (Nat.lt_irrefl 0)
  · cases hb
  · exact fun h => absurd h.1 (Nat.lt_irrefl 0)

/-- **An ack before the application has the packet.** Packet 1 has arrived, and the timer
acknowledges it before `get_next_recved_data` is called. -/
theorem ack_too_early :
    ¬ Covered (Proc.run exec (init 7 1 ⟨1, 1⟩) [tick 1, arrival, tick 20000]).log := by
  intro h
  have hlog : (Proc.run exec (init 7 1 ⟨1, 1⟩) [tick 1, arrival, tick 20000]).log =
      [.sendto ⟨9, 9⟩ (ackBytes (fun _ => 0) 1 (epidOf ⟨1, 1⟩))] := rfl
  obtain ⟨b, hb, -⟩ := h [] _ _ [] hlog rfl 1 (Nat.le_refl _)
    (by rw [word_ackBytes _ (by omega)])
  cases hb

end SmartNet.Network.Rmp.AppAcks

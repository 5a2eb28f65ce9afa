import SmartNet.Network.Rmp.RecverTable
import SmartNet.Network.Rmp.SendRun

/-! # Feedback with arbitrary numbers

An ack or a NAK is handled whatever its fields say: an ack may be of a packet that was never sent,
and a NAK may begin at 0, a number that no packet has.

* `Sane`: the three counters are in order, and their differences do not wrap;
* `window_kept`: this holds over a run in which no ack moves the head beyond the packets sent, and
  no NAK that is answered begins at 0;
* `head_runs_away`: a run in which one does. -/

namespace SmartNet.Network.Rmp.StrayFeedback

open SmartNet.Common SmartNet.Lib SmartNet.Lib.Run SmartNet.Memory.MemBlock SmartNet.Network.Udp
open SmartNet.Network.Rmp.Wire SmartNet.Network.Rmp.Sendep SmartNet.Network.Rmp.SendWin
open SmartNet.Network.Rmp.SendCalls SmartNet.Network.Rmp.SendRun
open SmartNet.Network.Rmp.RecverTable SmartNet.Lib.Assoc

variable {s t : SendSock} {accepted : List (List UInt8)} {p : Sender} {a : SendAct}
variable {strict : Bool} {d : List UInt8} {now : ℕ}

/-- A new sender. -/
def init (mc : SockAddr) (sid : UInt8) (alive speed hb : ℕ) : Sender :=
  ⟨Sendep.open mc sid alive speed hb, none, []⟩

/-- The datagram that arrives, if one does, is an ack or a NAK, with any fields; the clock is a
64-bit number. -/
def IsFeedback : SendAct → Prop
  | .input (.dgram _ d) now _ _ =>
    now < 2 ^ 64 ∧ ((∃ seq id, IsAck seq id d) ∨ ∃ lo hi id, IsNak lo hi id d)
  | _ => True

/-- The head, what was sent and the tail are in this order, and their differences do not wrap. -/
structure Sane (s : SendSock) : Prop where
  head_le : s.validSendingDataHead ≤ s.sendingSeqNo + 1
  sending_le : s.sendingSeqNo + 1 ≤ s.validSendingDataTail
  sent : sub64 (u64 (s.sendingSeqNo + 1)) s.validSendingDataHead =
    s.sendingSeqNo + 1 - s.validSendingDataHead
  used : sub64 s.validSendingDataTail s.validSendingDataHead =
    s.validSendingDataTail - s.validSendingDataHead

/-- Some receiver that counts for the minimum has at most `M` packets, after an ack of `seq`: the
acking one, or another that is live or the first of the table, once the acking one is in it. -/
def Within (M seq id now : ℕ) (s : SendSock) : Prop :=
  (seq ≤ M ∧ ∀ x ∈ s.mapRecvers.lookup id, x.lastRecvedSeqNo ≤ M) ∨
    ∃ e ∈ s.mapRecvers, e.1 ≠ id ∧ e.2.lastRecvedSeqNo ≤ M ∧
      ((s.table id).head? = some e ∨ Live now s.maxKeepAliveTimeUs e)

instance (M seq id now : ℕ) (s : SendSock) : Decidable (Within M seq id now s) :=
  inferInstanceAs (Decidable (_ ∨ _))

/-- An ack that is not below the window does not move the head beyond what was sent; a NAK that is
not outside the window does not begin at 0. -/
def Harmless (p : Sender) : SendAct → Prop
  | .input (.dgram _ d) now _ _ =>
    if opcode d = epAck then
      word 0 d < p.sock.validSendingDataHead ∨
        Within p.sock.sendingSeqNo (word 0 d) (word 1 d) now p.sock
    else
      1 ≤ word 0 d ∨ word 0 d < p.sock.validSendingDataHead ∨
        p.sock.validSendingDataTail ≤ word 1 d
  | _ => True

instance (p : Sender) : ∀ a, Decidable (Harmless p a)
  | .input (.dgram _ d) now _ _ =>
    inferInstanceAs (Decidable (if opcode d = epAck then
      word 0 d < p.sock.validSendingDataHead ∨
        Within p.sock.sendingSeqNo (word 0 d) (word 1 d) now p.sock
    else
      1 ≤ word 0 d ∨ word 0 d < p.sock.validSendingDataHead ∨
        p.sock.validSendingDataTail ≤ word 1 d))
  | .input .wouldBlock _ _ _ => .isTrue trivial
  | .input .intr _ _ _ => .isTrue trivial
  | .input .err _ _ _ => .isTrue trivial
  | .send _ => .isTrue trivial
  | .canSend _ _ _ => .isTrue trivial
  | .rehash _ _ => .isTrue trivial

/-- The last 64-bit number is not given to a packet. -/
def Fewer (p : Sender) : Prop := p.accepted.length < 2 ^ 64 - 1

/-- The invariant of a run. -/
structure Kept (p : Sender) : Prop where
  slots : Slots p.accepted p.sock
  idle : Idle p.sock.pMem
  fault : p.fault ≠ some .nullDeref

theorem Slots.sane (h : Slots accepted s) (hlt : accepted.length < 2 ^ 64 - 1) : Sane s := by
  have htail := h.tail_eq hlt
  have h1 := h.sending_le
  have h2 := h.head_le
  have h3 := h.sending_lt
  refine ⟨h2, by omega, ?_, ?_⟩
  · rw [u64_of_lt (by omega), sub64_of_le (by omega) h2]
  · rw [sub64_of_le (by omega) (by omega)]

/-- The window of a socket whose packets and counters are the same, but for a head that is moved
within what was sent. -/
theorem Slots.of_after (h : Slots accepted s) (hst : After s t)
    (hle : s.validSendingDataHead ≤ t.validSendingDataHead)
    (hle' : t.validSendingDataHead ≤ s.sendingSeqNo + 1) : Slots accepted t := by
  have hs := hst.sendingSeqNo
  refine ⟨h.lt, hst.win.tail.trans h.tail, hs ▸ h.sending_le, hs ▸ h.sending_lt,
    by rw [hs]; exact hle', fun hlt => ?_, fun hlt => ?_⟩
  · have := h.room hlt
    omega
  · rw [hst.win.vecSendWin, hst.win.senderId]
    exact (h.held hlt).mono fun q hq => ⟨hq.1, Nat.le_trans hle hq.2.1, hq.2.2⟩

/-! ### One step -/

theorem kept_init (mc : SockAddr) (sid : UInt8) (alive speed hb : ℕ) :
    Kept (init mc sid alive speed hb) :=
  ⟨(window_open mc sid alive speed hb).slots, (window_open mc sid alive speed hb).idle,
    fun h => by cases h⟩

theorem Within.le {M seq id mini : ℕ} (h : Within M seq id now s) (hnow : now < 2 ^ 64)
    (hfirst : mini ≤ firstRecved (ackTable seq id now (s.table id)))
    (hall : ∀ e ∈ (ackTable seq id now (s.table id)).filter
      fun e => Live now s.maxKeepAliveTimeUs e, mini ≤ e.2.lastRecvedSeqNo) : mini ≤ M := by
  rcases h with ⟨hseq, hold⟩ | ⟨e, he, hne, hnum, hcount⟩
  · have hself : sub64 now now = 0 := by
      rw [sub64_of_le hnow (Nat.le_refl now), Nat.sub_self]
    obtain ⟨x, hx, hle', hup⟩ : ∃ x, (ackTable seq id now (s.table id)).lookup id = some x ∧
        x.lastRecvedSeqNo ≤ M ∧ x.lastUpdateTimeUs = now := by
      refine ⟨_, by rw [lookup_ackTable, if_pos rfl, lookup_table, if_pos rfl], max_le ?_ hseq, rfl⟩
      rcases hl : s.mapRecvers.lookup id with _ | x
      · exact Nat.zero_le _
      · exact hold x hl
    refine Nat.le_trans (hall (id, x) ?_) hle'
    rw [List.mem_filter]
    exact ⟨mem_of_lookup hx, by simp [Live, hup, hself]⟩
  · rcases hcount with hhead | hlive
    · rw [firstRecved_ackTable hhead hne] at hfirst
      omega
    · refine Nat.le_trans (hall e ?_) hnum
      rw [List.mem_filter]
      exact ⟨mem_ackTable (mem_table he id) hne seq now, by simpa using hlive⟩

/-- **The head after an ack** stays within the packets that were sent. -/
theorem acked_within (strict : Bool) {seq id : ℕ} {d : List UInt8} {b : CMemBlock}
    (h : Slots accepted s)
    (hb : Received b d) (hd : IsAck seq id d) (hnow : now < 2 ^ 64)
    (hw : Within s.sendingSeqNo seq id now s) (pm : Option CMemBlock)
    (hnew : s.validSendingDataHead ≤ seq) :
    ∃ t, sendepHandleAck strict { s with pMem := pm } (b.decHeadData 8) now = pure (.suc, t) ∧
      After s t ∧ Slots accepted t := by
  rcases ack_cases (s := s) strict hb hd now pm with ⟨hlow, -⟩ | ⟨-, t, hrun, hacked⟩
  · omega
  refine ⟨t, hrun, hacked.after, ?_⟩
  have hlt := h.sending_lt
  rcases hacked.head with hsame | ⟨mini, heq, hle, hfirst, hall⟩
  · refine Slots.of_after h hacked.after (Nat.le_of_eq hsame.symm) ?_
    rw [hsame]
    exact h.head_le
  · have hmini : mini ≤ s.sendingSeqNo := hw.le hnow hfirst fun e he => hall e (hacked.table ▸ he)
    rw [u64_of_lt (by omega)] at heq
    exact Slots.of_after h hacked.after (by omega) (by omega)

/-- A call keeps the window, or ends the process at an assert. -/
structure Fine (accepted : List (List UInt8)) (x : Eff Ev Fault (SendSock × List (List UInt8))) :
    Prop where
  ok : ∀ t l, x.res = .ok (t, l) → accepted.length + l.length < 2 ^ 64 - 1 →
    Slots (accepted ++ l) t ∧ Idle t.pMem
  err : ∀ f, x.res = .error f → f ≠ .nullDeref

theorem fine_pure (h : Slots accepted t) (hi : Idle t.pMem) : Fine accepted (pure (t, [])) := by
  refine ⟨fun u l hu _ => ?_, fun f hf => ?_⟩
  · cases hu
    rw [List.append_nil]
    exact ⟨h, hi⟩
  · cases hf

theorem fine_abort {f : Fault} {x : Eff Ev Fault (SendSock × List (List UInt8))}
    (hx : x.res = .error f) (hf : f ≠ .nullDeref) : Fine accepted x := by
  refine ⟨fun t l ht => ?_, fun g hg => ?_⟩
  · rw [hx] at ht
    cases ht
  · rw [hx] at hg
    cases hg
    exact hf

theorem fine_send (h : Slots accepted s) (hi : Idle s.pMem) (b : Payload) :
    Fine accepted (SendAct.exec strict s (.send b)) := by
  by_cases ho : b.mem.offset = 16
  · rcases send_cases (s := s) ho b.fits with ⟨c, heq, -⟩ | ⟨heq, hfull⟩
    · simp only [SendAct.exec, heq, Eff.pure_bind]
      exact fine_pure h hi
    · simp only [SendAct.exec, heq, Eff.pure_bind, if_true]
      refine ⟨fun t l ht hlt => ?_, fun f hf => ?_⟩
      · cases ht
        have hlen : ([b.mem.data] : List (List UInt8)).length = 1 := rfl
        exact ⟨h.send ho b.fits (by omega) hfull, hi⟩
      · cases hf
  · refine fine_abort (f := .sendOffset) ?_ (by decide)
    simp only [SendAct.exec, send_offset ho, Eff.abort_bind]
    rfl

theorem Slots.sent (h : Slots accepted s) (hle : s.sendingSeqNo + 1 ≤ accepted.length)
    (hlt : accepted.length < 2 ^ 64 - 1) :
    Slots accepted { s with sendingSeqNo := s.sendingSeqNo + 1 } :=
  ⟨h.lt, h.tail, hle, by show s.sendingSeqNo + 1 < _; omega, Nat.le_succ_of_le h.head_le,
    h.room, h.held⟩

theorem fine_canSend (h : Slots accepted s) (hi : Idle s.pMem) (now : ℕ) (stack : ℕ → UInt8)
    (io : Sendto) : Fine accepted (SendAct.exec strict s (.canSend now stack io)) := by
  simp only [SendAct.exec]
  rcases canSend_cases h now stack io with
    ⟨-, heq⟩ | ⟨-, ⟨heq, -⟩ | ⟨hacc, hacc', -, d, -, ⟨-, heq⟩ | ⟨-, ret, heq⟩⟩⟩
  · rw [heq]
    rcases hb_cases s now stack io with ⟨-, -, hx⟩ | ⟨-, x, hx, -⟩
    · exact fine_abort (f := .sendHb) (by rw [hx]; rfl) (by decide)
    · rw [Eff.bind_assoc, Eff.bind_of_ok hx]
      refine ⟨fun t l ht _ => ?_, fun f hf => ?_⟩
      · cases ht
        rw [List.append_nil]
        exact ⟨⟨h.lt, h.tail, h.sending_le, h.sending_lt, h.head_le, h.room, h.held⟩, hi⟩
      · cases hf
  · exact fine_abort (f := .sendingSeqNo) (by rw [heq]; rfl) (by decide)
  · rw [heq]
    refine ⟨fun t l ht _ => ?_, fun f hf => ?_⟩
    · cases ht
      rw [List.append_nil]
      exact ⟨Slots.sent h hacc hacc', hi⟩
    · cases hf
  · rw [heq]
    exact fine_pure h hi

theorem fine_noDgram (h : Slots accepted s) (hi : Idle s.pMem) {r : Recvfrom}
    (hr : ∀ src d, r ≠ .dgram src d) (now : ℕ) (fresh : ℕ → UInt8) (sent : ℕ → Bool) :
    Fine accepted (SendAct.exec strict s (.input r now fresh sent)) := by
  obtain ⟨b, hb, ho, hl⟩ := takeMem_of_idle hi fresh
  rcases udpRecv_noDgram b hr with hf | ⟨ret, h1, -, h3⟩
  · refine fine_abort (f := .udpRecv) ?_ (by decide)
    simp only [SendAct.exec, sendepHandleCanRecv, hb, hf, Eff.pure_bind, Eff.abort_bind]
    rfl
  · have hexec : SendAct.exec strict s (.input r now fresh sent) =
        pure ({ s with pMem := some b }, []) := by
      simp only [SendAct.exec, sendepHandleCanRecv, hb, h3, Eff.pure_bind, ne_eq, h1,
        not_false_eq_true, if_true]
    rw [hexec]
    refine fine_pure ⟨h.lt, h.tail, h.sending_le, h.sending_lt, h.head_le, h.room, h.held⟩ ?_
    intro c hc
    cases hc
    exact ⟨hl, ho⟩

theorem fine_ack (h : Slots accepted s) (hi : Idle s.pMem) {d : List UInt8} {seq id : ℕ}
    (hd : IsAck seq id d) {now : ℕ} (hnow : now < 2 ^ 64)
    (hw : seq < s.validSendingDataHead ∨ Within s.sendingSeqNo seq id now s) (src : SockAddr)
    (fresh : ℕ → UInt8) (sent : ℕ → Bool) :
    Fine accepted (SendAct.exec strict s (.input (.dgram src d) now fresh sent)) := by
  obtain ⟨b, hb, heq⟩ := exec_isAck strict hi hd src now fresh sent
  rw [heq]
  rcases Nat.lt_or_ge seq s.validSendingDataHead with hlow | hnew
  · rcases ack_cases (s := s) strict hb hd now (some b) with
      ⟨-, ⟨-, hab⟩ | ⟨-, t, hrun, hst, hh, -⟩⟩ | ⟨hle, -⟩
    · exact fine_abort (f := .sendepHandleAck) (by rw [hab, Eff.abort_bind]; rfl) (by decide)
    · rw [hrun]
      refine fine_pure (Slots.of_after h hst (Nat.le_of_eq hh.symm) ?_) hst.idle
      rw [hh]
      exact h.head_le
    · omega
  · have hw' := hw.resolve_left (Nat.not_lt.mpr hnew)
    obtain ⟨t, hrun, hst, hslots⟩ := acked_within strict h hb hd hnow hw' (some b) hnew
    rw [hrun]
    exact fine_pure hslots hst.idle

theorem fine_nak (h : Slots accepted s) (hi : Idle s.pMem) {d : List UInt8} {lo hi' id : ℕ}
    (hd : IsNak lo hi' id d)
    (h1 : 1 ≤ lo ∨ lo < s.validSendingDataHead ∨ s.validSendingDataTail ≤ hi') (src : SockAddr)
    (now : ℕ) (fresh : ℕ → UInt8) (sent : ℕ → Bool) :
    Fine accepted (SendAct.exec strict s (.input (.dgram src d) now fresh sent)) := by
  obtain ⟨b, hb, heq⟩ := exec_isNak strict hi hd src now fresh sent
  rw [heq]
  rcases nak_cases h strict hb hd h1 now sent (some b) with ⟨-, -, hab⟩ | ⟨ret, t, hres, hst, hh, -⟩
  · exact fine_abort (f := .sendepHandleNak) (by rw [hab, Eff.abort_bind]; rfl) (by decide)
  · rw [Eff.bind_of_ok hres]
    refine ⟨fun u l hu _ => ?_, fun f hf => ?_⟩
    · cases hu
      rw [List.append_nil]
      refine ⟨Slots.of_after h hst (Nat.le_of_eq hh.symm) ?_, hst.idle⟩
      rw [hh]
      exact h.head_le
    · cases hf

/-- **A call** of a sender that gets feedback, when it is harmless. -/
theorem fine_exec (strict : Bool) (h : Kept p) (ha : IsFeedback a) (hs : Harmless p a) :
    Fine p.accepted (a.exec strict p.sock) := by
  rcases a with b | ⟨now, stack, io⟩ | ⟨r, now, fresh, sent⟩ | ⟨m, place⟩
  · exact fine_send h.slots h.idle b
  · exact fine_canSend h.slots h.idle now stack io
  · rcases r with ⟨src, d⟩ | _ | _ | _
    · obtain ⟨hnow, ⟨seq, id, hd⟩ | ⟨lo, hi, id, hd⟩⟩ := ha
      · have hs' : seq < p.sock.validSendingDataHead ∨
            Within p.sock.sendingSeqNo seq id now p.sock := by
          have hs0 := hs
          simp only [Harmless, hd.op, if_true, hd.seq, hd.id] at hs0
          exact hs0
        exact fine_ack h.slots h.idle hd hnow hs' src fresh sent
      · have hs' : 1 ≤ lo ∨ lo < p.sock.validSendingDataHead ∨
            p.sock.validSendingDataTail ≤ hi := by
          have hne : ¬ epNak = epAck := by decide
          have hs0 := hs
          simp only [Harmless, hd.op, if_neg hne, hd.first, hd.last] at hs0
          exact hs0
        exact fine_nak h.slots h.idle hd hs' src now fresh sent
    all_goals exact fine_noDgram h.slots h.idle (fun src d hr => by cases hr) now fresh sent
  · have hperm : Slots p.accepted { p.sock with mapRecvers := m, place := place } :=
      ⟨h.slots.lt, h.slots.tail, h.slots.sending_le, h.slots.sending_lt, h.slots.head_le,
        h.slots.room, h.slots.held⟩
    simp only [SendAct.exec]
    by_cases hp : m.Perm p.sock.mapRecvers
    · rw [if_pos hp]
      exact fine_pure hperm h.idle
    · rw [if_neg hp]
      exact fine_pure h.slots h.idle

theorem fewer_step (p : Sender) (a : SendAct) (h : Fewer (step strict p a)) : Fewer p :=
  Nat.lt_of_le_of_lt (accepted_step p a).length_le h

/-- **One step** keeps the window. -/
theorem kept_step (h : Kept p) (ha : IsFeedback a) (hs : p.fault = none → Harmless p a)
    (hfew : Fewer (step strict p a)) : Kept (step strict p a) := by
  rcases hf : p.fault with _ | f
  · have hfine := fine_exec strict h ha (hs hf)
    rcases hres : (a.exec strict p.sock).res with f | ⟨t, l⟩
    · rw [step_of_error hf hres]
      refine ⟨h.slots, h.idle, fun hn => ?_⟩
      cases hn
      exact hfine.err _ hres rfl
    · rw [step_of_ok hf hres] at hfew ⊢
      have hlen : p.accepted.length + l.length < 2 ^ 64 - 1 := by
        unfold Fewer at hfew
        rwa [List.length_append] at hfew
      obtain ⟨h1, h2⟩ := hfine.ok t l hres hlen
      exact ⟨h1, h2, fun hn => by cases hn⟩
  · rw [step_dead (by rw [hf]; exact Option.some_ne_none f)]
    exact h

/-- A step a live sender takes is harmless. -/
def Steady (p : Sender) (a : SendAct) : Prop := p.fault = none → Harmless p a

instance (p : Sender) (a : SendAct) : Decidable (Steady p a) :=
  inferInstanceAs (Decidable (_ → _))

theorem run_kept : ∀ (as : List SendAct) {p : Sender}, Kept p → (∀ a ∈ as, IsFeedback a) →
    Meets (step strict) Steady p as → Fewer (run (step strict) p as) →
    Kept (run (step strict) p as)
  | [], _, h, _, _, _ => h
  | a :: as, p, h, hfb, ⟨hc, hcs⟩, hfew => by
    have hfew' : Fewer (step strict p a) := run_mono fewer_step as hfew
    have h' : Kept (step strict p a) := kept_step h (hfb a List.mem_cons_self) hc hfew'
    exact run_kept as h' (fun b hb => hfb b (List.mem_cons_of_mem a hb)) hcs hfew

/-- **The window under feedback with arbitrary numbers**, over a run whose steps are all
harmless. -/
theorem window_kept (strict : Bool) (mc : SockAddr) (sid : UInt8) (alive speed hb : ℕ)
    (as : List SendAct) (hfb : ∀ a ∈ as, IsFeedback a)
    (hm : Meets (step strict) Steady (init mc sid alive speed hb) as)
    (hfew : Fewer (run (step strict) (init mc sid alive speed hb) as)) :
    Sane (run (step strict) (init mc sid alive speed hb) as).sock ∧
      (run (step strict) (init mc sid alive speed hb) as).fault ≠ some .nullDeref := by
  have h := run_kept as (kept_init mc sid alive speed hb) hfb hm hfew
  exact ⟨Slots.sane h.slots hfew, h.fault⟩

theorem fits_blank : CMemBlock.Fits ⟨fun _ => 0, 16, 16, 1⟩ := by
  show 16 + 1 ≤ _
  decide

/-- A block of one byte. -/
def blank : Payload := ⟨⟨fun _ => 0, 16, 16, 1⟩, fits_blank, Nat.one_pos⟩

/-- A new sender whose receivers are live for 1 s. -/
def fresh : Sender := init ⟨1, 1⟩ 7 1000000 0 1000000

/-- A packet is given to the sender and sent. -/
def first : List SendAct := [.send blank, .canSend 1 (fun _ => 0) .sent]

/-- A datagram arrives, at time 1. -/
def arrive (d : List UInt8) : SendAct := .input (.dgram ⟨9, 9⟩ d) 1 (fun _ => 0) fun _ => true

theorem isFeedback_ack {seq id : ℕ} (hs : seq < 2 ^ 64) (hid : id < 2 ^ 64) :
    IsFeedback (arrive (ackBytes (fun _ => 0) seq id)) :=
  ⟨by omega, Or.inl ⟨seq, id, isAck_ackBytes _ hs hid⟩⟩

theorem isFeedback_nak {lo hi id : ℕ} (hl : lo < 2 ^ 64) (hh : hi < 2 ^ 64) (hid : id < 2 ^ 64) :
    IsFeedback (arrive (nakBytes (fun _ => 0) lo hi id)) :=
  ⟨by omega, Or.inr ⟨lo, hi, id, isNak_nakBytes _ hl hh hid⟩⟩

theorem isFeedback_first {a b : SendAct} (ha : IsFeedback a) (hb : IsFeedback b) :
    ∀ c ∈ first ++ [a, b], IsFeedback c := by
  intro c hc
  simp only [first, List.cons_append, List.nil_append, List.mem_cons, List.not_mem_nil,
    or_false] at hc
  rcases hc with rfl | rfl | rfl | rfl
  · trivial
  · trivial
  · exact ha
  · exact hb

theorem window_kept_first :
    Sane (run (step true) fresh (first ++ [arrive (nakBytes (fun _ => 0) 1 1 5),
      arrive (ackBytes (fun _ => 0) 1 5)])).sock ∧
      (run (step true) fresh (first ++ [arrive (nakBytes (fun _ => 0) 1 1 5),
        arrive (ackBytes (fun _ => 0) 1 5)])).fault ≠ some .nullDeref :=
  window_kept true ⟨1, 1⟩ 7 1000000 0 1000000 (first ++ [arrive (nakBytes (fun _ => 0) 1 1 5),
      arrive (ackBytes (fun _ => 0) 1 5)])
    (isFeedback_first (isFeedback_nak (by omega) (by omega) (by omega))
      (isFeedback_ack (by omega) (by omega)))
    (by decide) (by unfold Fewer; decide)

/-- An ack of packet 500 by a new receiver, at a time when the only other one has expired; the table
puts the new entry behind `place` others. -/
def late (place : ℕ) : Sender × SendAct :=
  (run (step true) fresh (first ++ [arrive (nakBytes (fun _ => 0) 1 1 5),
      .rehash [(5, ⟨0, 1, 1⟩)] fun _ => place]),
    .input (.dgram ⟨9, 9⟩ (ackBytes (fun _ => 0) 500 2)) 3000000 (fun _ => 0) fun _ => true)

/-- The minimum starts from the first entry. -/
example : ¬ Harmless (late 0).1 (late 0).2 ∧ Harmless (late 1).1 (late 1).2 := by decide

/-- **An ack of packet 500**, when one packet was sent: the head is beyond what was sent, the window
seems to be full from then on, and the next packet is not sent. -/
theorem head_runs_away :
    (∀ a ∈ first ++ [arrive (ackBytes (fun _ => 0) 500 5), .send blank], IsFeedback a) ∧
      (run (step true) fresh
        (first ++ [arrive (ackBytes (fun _ => 0) 500 5), .send blank])).fault = none ∧
      ¬ Sane (run (step true) fresh
        (first ++ [arrive (ackBytes (fun _ => 0) 500 5), .send blank])).sock ∧
      out true (run (step true) fresh
        (first ++ [arrive (ackBytes (fun _ => 0) 500 5), .send blank]))
          (.canSend 2 (fun _ => 0) .sent) = [] := by
  refine ⟨isFeedback_first (isFeedback_ack (by omega) (by omega)) trivial, by decide, ?_,
    by decide⟩
  intro h
  exact absurd h.head_le (by decide)

/-- **A NAK that begins at 0**, before any ack: slot 0 has no packet. -/
example :
    (∀ a ∈ first ++ [.send blank, arrive (nakBytes (fun _ => 0) 0 0 5)], IsFeedback a) ∧
      (run (step true) fresh
        (first ++ [.send blank, arrive (nakBytes (fun _ => 0) 0 0 5)])).fault = some .nullDeref :=
  ⟨isFeedback_first trivial (isFeedback_nak (by omega) (by omega) (by omega)), by decide⟩

end SmartNet.Network.Rmp.StrayFeedback

import Mathlib.Data.List.TakeWhile
import SmartNet.Lib.Frontier
import SmartNet.Network.Rmp.SendRetry
import SmartNet.Network.Rmp.StrayFeedback

/-! # The window and the order of the packets

A sender whose receivers ack only what was sent, and whose NAKs begin at packet 1 or above; what is
outside the window is discarded.

* `sentBy_spec`: `handle_can_send` sends the packets one after the other, each once;
* `in_order`: what the window holds, when `send` refuses a block, and what is sent, in every state
  of a run in which the 64-bit numbers do not come to their end;
* `tail_wraps`: a run in which they do. -/

namespace SmartNet.Network.Rmp.WindowOrder

open SmartNet.Common SmartNet.Lib SmartNet.Lib.Run SmartNet.Lib.Frontier SmartNet.Memory.MemBlock
open SmartNet.Network.Udp SmartNet.Network.Rmp.Wire SmartNet.Network.Rmp.Sendep
open SmartNet.Network.Rmp.SendWin SmartNet.Network.Rmp.SendCalls SmartNet.Network.Rmp.SendRun
open SmartNet.Network.Rmp.StrayFeedback SmartNet.Network.Rmp.SendRetry
open SmartNet.Network.Rmp.RecverTable

variable {s t : SendSock} {accepted : List (List UInt8)} {p : Sender} {a : SendAct}

/-- The datagram that arrives, if one does, is an ack of a packet that was sent, or a NAK that
begins at 1 or above. -/
def Plain (p : Sender) : SendAct → Prop
  | .input (.dgram _ d) _ _ _ =>
    (∃ seq id, IsAck seq id d ∧ seq ≤ p.sock.sendingSeqNo) ∨ ∃ lo hi id, IsNak lo hi id d ∧ 1 ≤ lo
  | _ => True

/-- A data packet is sent. -/
def isData : Ev → Bool
  | .sendto _ d => opcode d = epData
  | .recved _ => false

/-- The data packets that a pass of `handle_can_send` sends. -/
def firstSent (p : Sender) : SendAct → List Ev
  | .canSend now stack io =>
    if p.fault.isSome then []
    else (SendAct.exec false p.sock (.canSend now stack io)).evs.filter isData
  | _ => []

/-- The data packets that `handle_can_send` sends over a run. -/
def sentBy : Sender → List SendAct → List Ev
  | _, [] => []
  | p, a :: as => firstSent p a ++ sentBy (step false p a) as

/-- The last two 64-bit numbers are not given to packets. -/
def Enough (p : Sender) : Prop := p.accepted.length + 2 < 2 ^ 64

theorem enough_step (p : Sender) (a : SendAct) (h : Enough (step false p a)) : Enough p := by
  have hpre : p.accepted <+: (step false p a).accepted := accepted_step p a
  have hle := hpre.length_le
  unfold Enough at *
  omega

/-! ### One step -/

theorem plain_moves (h : Window p.accepted p.sock) (ha : Plain p a) {l : List (List UInt8)}
    (hres : (a.exec false p.sock).res = .ok (t, l)) : Moved p.accepted p.sock a t l := by
  have hfeed : (∀ src d now fresh sent, a ≠ .input (.dgram src d) now fresh sent) →
      Feed p.sock.sendingSeqNo a := by
    intro hno
    rcases a with b | ⟨now, stack, io⟩ | ⟨r, now, fresh, sent⟩ | ⟨m, place⟩
    case input =>
      rcases r with ⟨src, d⟩ | _ | _ | _
      · exact absurd rfl (hno src d now fresh sent)
      all_goals trivial
    all_goals trivial
  by_cases hd : ∀ src d now fresh sent, a ≠ .input (.dgram src d) now fresh sent
  · exact ((exec_report false h (hfeed hd)).ok t l hres).1
  · simp only [not_forall, not_not] at hd
    obtain ⟨src, d, now, fresh, sent, rfl⟩ := hd
    rcases ha with ⟨seq, id, hack, hM⟩ | ⟨lo, hi, id, hnak, h1⟩
    · exact ((report_ack h hack hM src now fresh sent).ok t l hres).1
    · rcases exec_nak false h hnak h1 src now fresh sent with ⟨-, hab⟩ | ⟨u, hu, hmv, -⟩
      · rw [hab] at hres
        cases hres
      · rw [hu] at hres
        cases hres
        exact hmv

theorem hb_noData (s : SendSock) (now : ℕ) (stack : ℕ → UInt8) (io : Sendto) :
    (sendepHb s now stack io).evs.filter isData = [] := by
  refine List.filter_eq_nil_iff.mpr fun ev hev hdata => ?_
  rcases hb_cases s now stack io with ⟨-, -, hx⟩ | ⟨-, x, -, hall⟩
  · rw [hx] at hev
    cases hev
  · rcases ev with ⟨addr, d⟩ | pMem
    · rw [hall addr d (mem_sends.mpr hev)] at hdata
      exact absurd hdata (by simp [isData, hbBytes, Bytes.leBytes, opcode, epHb, epData])
    · cases hdata

/-- **What a step sends** for the first time: nothing, or the next packet. -/
theorem firstSent_spec (h : Window p.accepted p.sock) (hf : p.fault = none) (ha : Plain p a) :
    firstSent p a = [] ∧ (step false p a).sock.sendingSeqNo = p.sock.sendingSeqNo ∨
      ∃ d, firstSent p a = [.sendto p.sock.addrMulticast d] ∧
        IsOdata p.sock.senderId (p.sock.sendingSeqNo + 1)
          (payOf p.accepted (p.sock.sendingSeqNo + 1)) d ∧
        p.sock.sendingSeqNo + 1 ≤ p.accepted.length ∧
        (step false p a).sock.sendingSeqNo = p.sock.sendingSeqNo + 1 := by
  by_cases hcan : ∀ now stack io, a ≠ .canSend now stack io
  · have hnone : firstSent p a = [] := by
      rcases a with b | ⟨now, stack, io⟩ | ⟨r, now, fresh, sent⟩ | ⟨m, place⟩
      · rfl
      · exact absurd rfl (hcan now stack io)
      · rfl
      · rfl
    refine Or.inl ⟨hnone, ?_⟩
    rcases hres : (a.exec false p.sock).res with f | ⟨t, l⟩
    · rw [step_of_error hf hres]
    · rw [step_of_ok hf hres]
      rcases (plain_moves h ha hres).sending with hs | ⟨-, -, -, -, now, stack, he⟩
      · exact hs
      · exact absurd he (hcan now stack .sent)
  · simp only [not_forall, not_not] at hcan
    obtain ⟨now, stack, io, rfl⟩ := hcan
    have hsome : p.fault.isSome = false := by rw [hf]; rfl
    simp only [firstSent, hsome, Bool.false_eq_true, if_false]
    rcases canSend_cases h.slots now stack io with
      ⟨-, heq⟩ | ⟨-, ⟨heq, -⟩ | ⟨hacc, -, -, d, hd, ⟨-, heq⟩ | ⟨-, ret, heq⟩⟩⟩
    · left
      have hnone := hb_noData p.sock now stack io
      rcases hb_cases p.sock now stack io with ⟨-, -, hx⟩ | ⟨-, x, hx, -⟩
      · have hexec : SendAct.exec false p.sock (.canSend now stack io) = Eff.abort .sendHb := by
          simp only [SendAct.exec, heq, hx, Eff.abort_bind]
        rw [step_of_error hf (by rw [hexec]; rfl), hexec]
        exact ⟨rfl, rfl⟩
      · have hexec : SendAct.exec false p.sock (.canSend now stack io) =
            ⟨(sendepHb p.sock now stack io).evs, .ok ({ p.sock with lastHbTime := x }, [])⟩ := by
          simp only [SendAct.exec, heq]
          rw [Eff.bind_assoc, Eff.bind_of_ok hx]
          simp
        rw [step_of_ok hf (by rw [hexec]), hexec]
        exact ⟨hnone, rfl⟩
    · left
      have hexec : SendAct.exec false p.sock (.canSend now stack io) = Eff.abort .sendingSeqNo := by
        simp only [SendAct.exec, heq, Eff.abort_bind]
      rw [step_of_error hf (by rw [hexec]; rfl), hexec]
      exact ⟨rfl, rfl⟩
    · right
      have hexec : SendAct.exec false p.sock (.canSend now stack io) =
          ⟨[.sendto p.sock.addrMulticast d],
            .ok ({ p.sock with sendingSeqNo := p.sock.sendingSeqNo + 1 }, [])⟩ := by
        simp only [SendAct.exec, heq]
        rfl
      have hdata : isData (.sendto p.sock.addrMulticast d) = true := by simp [isData, hd.op]
      rw [step_of_ok hf (by rw [hexec]), hexec]
      exact ⟨d, by rw [List.filter_cons_of_pos hdata]; rfl, hd, hacc, rfl⟩
    · left
      have hexec : SendAct.exec false p.sock (.canSend now stack io) = pure (p.sock, []) := by
        simp only [SendAct.exec, heq, Eff.pure_bind]
      rw [step_of_ok hf (by rw [hexec]; rfl), hexec]
      exact ⟨rfl, rfl⟩

/-- What a run of the sender keeps, and what it only adds to. -/
structure Goes (p q : Sender) : Prop where
  win : Window q.accepted q.sock
  accepted : p.accepted <+: q.accepted
  senderId : q.sock.senderId = p.sock.senderId
  addrMulticast : q.sock.addrMulticast = p.sock.addrMulticast

theorem goes_step (h : Window p.accepted p.sock) (ha : Plain p a)
    (henough : Enough (step false p a)) : Goes p (step false p a) := by
  rcases hf : p.fault with _ | f
  · rcases hres : (a.exec false p.sock).res with f | ⟨t, l⟩
    · rw [step_of_error hf hres]
      exact ⟨h, List.prefix_refl _, rfl, rfl⟩
    · have hmv := plain_moves h ha hres
      rw [step_of_ok hf hres] at henough ⊢
      have hlen : p.accepted.length + l.length < 2 ^ 64 := by
        unfold Enough at henough
        rw [List.length_append] at henough
        omega
      exact ⟨hmv.win hlen, List.prefix_append _ _, hmv.senderId, hmv.addrMulticast⟩
  · rw [step_dead (by rw [hf]; exact Option.some_ne_none f)]
    exact ⟨h, List.prefix_refl _, rfl, rfl⟩

theorem payOf_of_prefix {l : List (List UInt8)} (h : accepted <+: l) {q : ℕ} (h1 : 1 ≤ q)
    (h2 : q ≤ accepted.length) : payOf l q = payOf accepted q := by
  obtain ⟨r, rfl⟩ := h
  exact payOf_append h1 h2

/-- **The order of the packets.** Over a run, `handle_can_send` sends the packets behind the last
one that was sent, one after the other. -/
theorem sentBy_spec : ∀ (as : List SendAct) {p : Sender}, Window p.accepted p.sock →
    Meets (step false) Plain p as → Enough (run (step false) p as) →
    Goes p (run (step false) p as) ∧
      p.sock.sendingSeqNo ≤ (run (step false) p as).sock.sendingSeqNo ∧
      Packets (run (step false) p as).accepted (run (step false) p as).sock
        (List.range' (p.sock.sendingSeqNo + 1)
          ((run (step false) p as).sock.sendingSeqNo - p.sock.sendingSeqNo)) (sentBy p as)
  | [], p, h, _, _ => by
    refine ⟨⟨h, List.prefix_refl _, rfl, rfl⟩, Nat.le_refl _, ?_⟩
    rw [run_nil, Nat.sub_self]
    exact List.Forall₂.nil
  | a :: as, p, h, ⟨hc, hcs⟩, henough => by
    have henough' : Enough (step false p a) := run_mono enough_step as henough
    have hgo := goes_step h hc henough'
    obtain ⟨hgo', hle, hpk⟩ := sentBy_spec as hgo.win hcs henough
    rw [run_cons]
    set q := run (step false) (step false p a) as with hq
    refine ⟨⟨hgo'.win, hgo.accepted.trans hgo'.accepted, hgo'.senderId.trans hgo.senderId,
      hgo'.addrMulticast.trans hgo.addrMulticast⟩, ?_⟩
    have hquiet : firstSent p a = [] → (step false p a).sock.sendingSeqNo = p.sock.sendingSeqNo →
        p.sock.sendingSeqNo ≤ q.sock.sendingSeqNo ∧ Packets q.accepted q.sock
          (List.range' (p.sock.sendingSeqNo + 1) (q.sock.sendingSeqNo - p.sock.sendingSeqNo))
          (sentBy p (a :: as)) := by
      intro hnone hsame
      rw [hsame] at hle hpk
      refine ⟨hle, ?_⟩
      unfold sentBy
      rw [hnone, List.nil_append]
      exact hpk
    rcases hf : p.fault with _ | f
    · rcases firstSent_spec h hf hc with ⟨hnone, hsame⟩ | ⟨d, hone, hd, hacc, hnext⟩
      · exact hquiet hnone hsame
      · rw [hnext] at hle hpk
        refine ⟨by omega, ?_⟩
        have hrange : List.range' (p.sock.sendingSeqNo + 1)
            (q.sock.sendingSeqNo - p.sock.sendingSeqNo) = (p.sock.sendingSeqNo + 1) ::
              List.range' (p.sock.sendingSeqNo + 1 + 1)
                (q.sock.sendingSeqNo - (p.sock.sendingSeqNo + 1)) := by
          rw [← List.range'_succ]
          congr 1
          omega
        have hpay := payOf_of_prefix (hgo.accepted.trans hgo'.accepted)
          (q := p.sock.sendingSeqNo + 1) (by omega) hacc
        unfold sentBy
        rw [hrange, hone]
        refine List.Forall₂.cons ⟨d, ?_, ?_⟩ hpk
        · rw [hgo'.addrMulticast, hgo.addrMulticast]
        · rw [hgo'.senderId, hgo.senderId, hpay]
          exact hd
    · have hsome : p.fault.isSome = true := by rw [hf]; rfl
      have hnone : firstSent p a = [] := by
        unfold firstSent
        split
        · rw [if_pos hsome]
        · rfl
      refine hquiet hnone ?_
      rw [step_dead (by rw [hf]; exact Option.some_ne_none f)]

/-! ### Every state of a run -/

/-- Each number from the head, but at least 1, up to the tail has its packet in its slot. -/
def Stored (p : Sender) : Prop :=
  ∀ q, max p.sock.validSendingDataHead 1 ≤ q → q < p.sock.validSendingDataTail →
    ∃ b, p.sock.vecSendWin (q % sendWinSize) = some b ∧
      IsOdata p.sock.senderId q (payOf p.accepted q) b.data

/-- The window has at most its size less 1 packets, and refuses a block exactly when it has. -/
structure Bounded (s : SendSock) : Prop where
  head_le : s.validSendingDataHead ≤ s.validSendingDataTail
  used : s.validSendingDataTail - s.validSendingDataHead ≤ sendWinSize - 1
  refuses : ∀ b : CMemBlock, b.offset = 16 →
    ((∃ c, (Sendep.send s b).res = .ok (.noSpace, some c, s)) ↔
      s.validSendingDataTail - s.validSendingDataHead = sendWinSize - 1)

/-- A NAK that is not discarded is answered with exactly the packets it asks for, if the kernel
takes each of them in the end. -/
def Answers (p : Sender) : Prop :=
  ∀ src d now fresh sent lo hi id, IsNak lo hi id d → 1 ≤ lo → p.sock.validSendingDataHead ≤ lo →
    hi < p.sock.validSendingDataTail → (∀ q, lo ≤ q → q ≤ hi → sent q = true) →
    Packets p.accepted p.sock (List.range' lo (hi + 1 - lo))
      (SendAct.exec false p.sock (.input (.dgram src d) now fresh sent)).evs

theorem stored_of_window (h : Window p.accepted p.sock) (henough : Enough p) : Stored p := by
  unfold Enough at henough
  intro q h1 h2
  rw [h.tail_eq (by omega)] at h2
  exact h.held (by omega) q ⟨by omega, by omega, by omega⟩

theorem full_iff (h : Window accepted s) (hlt : accepted.length + 2 < 2 ^ 64) :
    Full s ↔ s.validSendingDataTail - s.validSendingDataHead = sendWinSize - 1 := by
  have htail := h.tail_eq (by omega)
  have hroom := h.room (by omega)
  have hhead := h.head_le
  have hle := h.sending_le
  have hpos : 0 < sendWinSize := by decide
  unfold Full
  rw [htail, u64_of_lt (by omega)]
  constructor
  · intro hmod
    by_contra hne
    have hinj := Ring.mod_inj (a := s.validSendingDataHead) (by omega) (by omega) (Nat.le_refl _)
      (by omega) hmod
    omega
  · intro heq
    rw [show accepted.length + 1 + 1 = s.validSendingDataHead + sendWinSize by omega,
      Nat.add_mod_right]

theorem bounded_of_window (h : Window accepted s) (hlt : accepted.length + 2 < 2 ^ 64) :
    Bounded s := by
  have htail := h.tail_eq (by omega)
  have hroom := h.room (by omega)
  have hhead := h.head_le
  have hle := h.sending_le
  refine ⟨by omega, by omega, fun b ho => ?_⟩
  rw [← full_iff h hlt]
  constructor
  · rintro ⟨c, hres⟩
    by_contra hroom'
    rw [send_eq ho, if_neg hroom'] at hres
    cases hres
  · intro hfull
    refine ⟨refused s b, ?_⟩
    rw [send_refused ho hfull]
    rfl

theorem answers_of_window (h : Window p.accepted p.sock) : Answers p := by
  intro src d now fresh sent lo hi id hd h1 hlo hhi hall
  have htake : (List.range' lo (hi + 1 - lo)).takeWhile sent = List.range' lo (hi + 1 - lo) := by
    refine List.takeWhile_eq_self_iff.mpr fun q hq => ?_
    have hmem := List.mem_range'_1.mp hq
    exact hall q hmem.1 (by omega)
  rcases exec_nak false h hd h1 src now fresh sent with
    ⟨hout, -⟩ | ⟨t, -, -, -, ⟨hout, -⟩ | ⟨-, hpk⟩⟩
  · omega
  · omega
  · rwa [htake] at hpk

/-- **Right packet, right order**, in every state of a run. -/
theorem in_order (mc : SockAddr) (sid : UInt8) (alive speed hb : ℕ) (as : List SendAct)
    (hm : Meets (step false) Plain (init mc sid alive speed hb) as)
    (henough : Enough (run (step false) (init mc sid alive speed hb) as)) :
    Stored (run (step false) (init mc sid alive speed hb) as) ∧
      Bounded (run (step false) (init mc sid alive speed hb) as).sock ∧
      Packets (run (step false) (init mc sid alive speed hb) as).accepted
        (run (step false) (init mc sid alive speed hb) as).sock
        (numbers (run (step false) (init mc sid alive speed hb) as).sock.sendingSeqNo)
        (sentBy (init mc sid alive speed hb) as) ∧
      Answers (run (step false) (init mc sid alive speed hb) as) := by
  obtain ⟨hgo, -, hpk⟩ := sentBy_spec as (p := init mc sid alive speed hb)
    (window_open mc sid alive speed hb) hm henough
  exact ⟨stored_of_window hgo.win henough, bounded_of_window hgo.win henough, hpk,
    answers_of_window hgo.win⟩

/-- A packet is given to the sender and sent, asked for again, and acknowledged. -/
def answered : List SendAct :=
  first ++ [arrive (nakBytes (fun _ => 0) 1 1 5), arrive (ackBytes (fun _ => 0) 1 5)]

theorem in_order_first :
    Stored (run (step false) fresh answered) ∧ Bounded (run (step false) fresh answered).sock ∧
      Packets (run (step false) fresh answered).accepted (run (step false) fresh answered).sock
        (numbers (run (step false) fresh answered).sock.sendingSeqNo) (sentBy fresh answered) ∧
      Answers (run (step false) fresh answered) :=
  in_order ⟨1, 1⟩ 7 1000000 0 1000000 answered
    ⟨trivial, trivial,
      Or.inr ⟨1, 1, 5, isNak_nakBytes _ (by omega) (by omega) (by omega), Nat.le_refl 1⟩,
      Or.inl ⟨1, 5, isAck_ackBytes _ (by omega) (by omega), by decide⟩, trivial⟩
    (by unfold Enough; decide)

/-! ### The end of the numbers -/

/-- A packet is given to the sender, sent, and acknowledged by the one receiver. -/
def round (n : ℕ) : List SendAct :=
  first ++ [.input (.dgram ⟨9, 9⟩ (ackBytes (fun _ => 0) n 1)) 0 (fun _ => 0) fun _ => true]

/-- The packets `1, ..., n`, one after the other. -/
def rounds (n : ℕ) : List SendAct := (numbers n).flatMap round

/-- The sender once the packets `1, ..., n` are acknowledged. -/
structure Rested (n : ℕ) (p : Sender) : Prop where
  fault : p.fault = none
  win : Window p.accepted p.sock
  accepted : p.accepted.length = n
  sending : p.sock.sendingSeqNo = n
  head : p.sock.validSendingDataHead = n + 1 ∨ n = 0 ∧ p.sock.validSendingDataHead = 0
  table : p.sock.mapRecvers = [] ∨ p.sock.mapRecvers = [(1, ⟨n, 0, 0⟩)]

theorem ack_last {n : ℕ} (h : Window accepted s) (hhead : s.validSendingDataHead ≤ n + 1)
    (hn : n + 2 < 2 ^ 64) (htab : s.mapRecvers = [] ∨ s.mapRecvers = [(1, ⟨n, 0, 0⟩)]) :
    ∃ t, (SendAct.exec false s (.input (.dgram ⟨9, 9⟩ (ackBytes (fun _ => 0) (n + 1) 1)) 0
        (fun _ => 0) fun _ => true)).res = .ok (t, []) ∧
      t.validSendingDataHead = n + 2 ∧ t.mapRecvers = [(1, ⟨n + 1, 0, 0⟩)] := by
  have hd : IsAck (n + 1) 1 (ackBytes (fun _ => 0) (n + 1) 1) :=
    isAck_ackBytes _ (by omega) (by omega)
  obtain ⟨b, hb, heq⟩ := exec_isAck false h.idle hd ⟨9, 9⟩ 0 (fun _ => 0) fun _ => true
  have htable : ackTable (n + 1) 1 0 (s.table 1) = [(1, ⟨n + 1, 0, 0⟩)] := by
    unfold SendSock.table
    rcases htab with h0 | h0
    · have hnew : RecverMap.reserve (s.place 1) 1 [] = [(1, {})] := by
        simp [RecverMap.reserve]
      rw [h0, hnew]
      rfl
    · rw [h0, show RecverMap.reserve (s.place 1) 1 [(1, ⟨n, 0, 0⟩)] = [(1, ⟨n, 0, 0⟩)] from rfl]
      have hlt : ¬ n + 1 < n := by omega
      simp only [ackTable, RecverMap.at, if_true, if_neg hlt]
  have hself : sub64 0 0 = 0 := by decide
  have hlive : ∀ alive, Live 0 alive (1, ⟨n + 1, 0, 0⟩) := fun alive => by
    show sub64 0 0 ≤ alive
    omega
  have hprune : ∀ alive, (prune 0 alive (n + 1) [(1, ⟨n + 1, 0, 0⟩)]).1 = n + 1 := fun alive => by
    have hdead : ¬ alive < sub64 0 0 := by omega
    simp only [prune, if_neg hdead, ite_self]
  rw [heq]
  obtain ⟨t, hrun, htab', mini, hmini, hnext⟩ :=
    ack_run (s := { s with pMem := some b }) false hb hd 0 hhead
  have hmini' : mini = n + 1 := by
    rw [hmini, table_pMem, htable]
    exact hprune _
  have hhigh : ¬ n + 1 < s.validSendingDataHead := by omega
  refine ⟨t, by rw [hrun]; rfl, ?_, ?_⟩
  · rw [hnext, hmini', if_neg hhigh, u64_of_lt (by omega)]
  · rw [htab', table_pMem, htable, List.filter_cons_of_pos (by simpa using hlive _)]
    rfl

theorem rested_fresh : Rested 0 fresh :=
  ⟨rfl, window_open ⟨1, 1⟩ 7 1000000 0 1000000, rfl, rfl, Or.inr ⟨rfl, rfl⟩, Or.inl rfl⟩

theorem give_step (hf : p.fault = none) (h : Window p.accepted p.sock)
    (hlt : p.accepted.length + 2 < 2 ^ 64)
    (hroom : p.accepted.length + 2 < p.sock.validSendingDataHead + sendWinSize) :
    ∃ q, step false p (.send blank) = q ∧ q.fault = none ∧ Window q.accepted q.sock ∧
      q.accepted.length = p.accepted.length + 1 ∧
      q.sock.validSendingDataHead = p.sock.validSendingDataHead ∧
      q.sock.sendingSeqNo = p.sock.sendingSeqNo ∧ q.sock.mapRecvers.Perm p.sock.mapRecvers := by
  obtain ⟨t, hx, hsend, hhead⟩ := exec_send_room (b := blank) false h rfl (by omega) (by omega)
  have hres : (SendAct.exec false p.sock (.send blank)).res = .ok (t, [blank.mem.data]) := by
    rw [hx]
    rfl
  have hm := plain_moves (a := .send blank) h trivial hres
  have hlen : (p.accepted ++ [blank.mem.data]).length = p.accepted.length + 1 := by
    rw [List.length_append]
    rfl
  exact ⟨⟨t, none, p.accepted ++ [blank.mem.data]⟩, step_of_ok hf hres, rfl,
    hm.win (by show _ + 1 < _; omega), hlen, hhead, hsend, hm.takes.2⟩

theorem send_step (hf : p.fault = none) (h : Window p.accepted p.sock)
    (hle : p.sock.sendingSeqNo + 1 ≤ p.accepted.length) (hlt : p.accepted.length < 2 ^ 64 - 1)
    (hopen : p.sock.sendingSeqNo + 1 ≤ p.sock.validSendingDataHead + sendWinSize / 10) :
    ∃ q, step false p (.canSend 1 (fun _ => 0) .sent) = q ∧ q.fault = none ∧
      Window q.accepted q.sock ∧ q.accepted.length = p.accepted.length ∧
      q.sock.validSendingDataHead = p.sock.validSendingDataHead ∧
      q.sock.sendingSeqNo = p.sock.sendingSeqNo + 1 ∧
      q.sock.mapRecvers = p.sock.mapRecvers := by
  obtain ⟨d, -, hx⟩ := exec_canSend_open false h hle hlt hopen 1 fun _ => 0
  have hres : (SendAct.exec false p.sock (.canSend 1 (fun _ => 0) .sent)).res =
      .ok ({ p.sock with sendingSeqNo := p.sock.sendingSeqNo + 1 }, []) := by rw [hx]
  refine ⟨_, step_of_ok hf hres, rfl, ?_, ?_, rfl, rfl, rfl⟩
  · rw [List.append_nil]
    exact Window.sent h hle hlt
  · rw [List.append_nil]

theorem ack_step {n : ℕ} (hf : p.fault = none) (h : Window p.accepted p.sock)
    (hsend : p.sock.sendingSeqNo = n + 1) (hhead : p.sock.validSendingDataHead ≤ n + 1)
    (hacc : p.accepted.length = n + 1) (hn : n + 2 < 2 ^ 64)
    (htab : p.sock.mapRecvers = [] ∨ p.sock.mapRecvers = [(1, ⟨n, 0, 0⟩)]) :
    Rested (n + 1) (step false p (.input (.dgram ⟨9, 9⟩ (ackBytes (fun _ => 0) (n + 1) 1)) 0
        (fun _ => 0) fun _ => true)) ∧
      Plain p (.input (.dgram ⟨9, 9⟩ (ackBytes (fun _ => 0) (n + 1) 1)) 0 (fun _ => 0)
        fun _ => true) := by
  obtain ⟨t, hres, hhead', htab'⟩ := ack_last (n := n) h hhead hn htab
  have hplain : Plain p (.input (.dgram ⟨9, 9⟩ (ackBytes (fun _ => 0) (n + 1) 1)) 0 (fun _ => 0)
      fun _ => true) :=
    Or.inl ⟨n + 1, 1, isAck_ackBytes _ (by omega) (by omega), by omega⟩
  have hm := plain_moves h hplain hres
  have hwin := hm.win (by show _ + 0 < _; omega)
  have hsend' : t.sendingSeqNo = n + 1 := by
    rcases hm.sending with hs | ⟨-, -, -, -, now, stack, he⟩
    · rw [hs, hsend]
    · cases he
  refine ⟨?_, hplain⟩
  rw [step_of_ok hf hres]
  exact ⟨rfl, hwin, by rw [List.append_nil, hacc], hsend', Or.inl hhead', Or.inr htab'⟩

theorem rested_round {n : ℕ} (h : Rested n p) (hn : n + 3 < 2 ^ 64) :
    Rested (n + 1) (run (step false) p (round (n + 1))) ∧
      Meets (step false) Plain p (round (n + 1)) := by
  have hhead : p.sock.validSendingDataHead ≤ n + 1 ∧ n ≤ p.sock.validSendingDataHead := by
    rcases h.head with h1 | ⟨h1, h2⟩
    · omega
    · omega
  have hacc := h.accepted
  have hsend := h.sending
  have hsize : 2 < sendWinSize / 10 := by decide
  have hsize' : sendWinSize / 10 < sendWinSize := by decide
  obtain ⟨p1, e1, f1, w1, a1, hd1, s1, t1⟩ := give_step h.fault h.win (by omega) (by omega)
  have t1' : p1.sock.mapRecvers = [] ∨ p1.sock.mapRecvers = [(1, ⟨n, 0, 0⟩)] := by
    rcases h.table with h0 | h0
    · rw [h0] at t1
      exact Or.inl t1.eq_nil
    · rw [h0] at t1
      exact Or.inr (List.perm_singleton.mp t1)
  obtain ⟨p2, e2, f2, w2, a2, hd2, s2, t2⟩ := send_step f1 w1 (by omega) (by omega) (by omega)
  obtain ⟨hrest, hplain⟩ := ack_step (n := n) f2 w2 (by omega) (by omega) (by omega) (by omega)
    (by rw [t2]; exact t1')
  have hrun : run (step false) p (round (n + 1)) = step false p2
      (.input (.dgram ⟨9, 9⟩ (ackBytes (fun _ => 0) (n + 1) 1)) 0 (fun _ => 0) fun _ => true) := by
    show step false (step false (step false p (.send blank)) (.canSend 1 (fun _ => 0) .sent)) _ = _
    rw [e1, e2]
  rw [hrun]
  refine ⟨hrest, trivial, trivial, ?_, trivial⟩
  rw [e1, e2]
  exact hplain

theorem rested_rounds : ∀ n, n + 2 < 2 ^ 64 → Rested n (run (step false) fresh (rounds n)) ∧
    Meets (step false) Plain fresh (rounds n)
  | 0, _ => ⟨rested_fresh, trivial⟩
  | n + 1, hn => by
    obtain ⟨h1, h2⟩ := rested_rounds n (by omega)
    obtain ⟨h3, h4⟩ := rested_round h1 (by omega)
    have hsucc : rounds (n + 1) = rounds n ++ round (n + 1) := by
      unfold rounds
      rw [numbers_append, List.flatMap_append]
      simp
    rw [hsucc, run_append]
    exact ⟨h3, (meets_append _).mpr ⟨h2, h4⟩⟩

theorem given (k : ℕ) : ∀ {p : Sender}, p.fault = none → Window p.accepted p.sock →
    p.accepted.length + k + 1 < 2 ^ 64 →
    p.accepted.length + k + 1 < p.sock.validSendingDataHead + sendWinSize →
    ∃ q, run (step false) p (List.replicate k (.send blank)) = q ∧ q.fault = none ∧
      Window q.accepted q.sock ∧ q.accepted.length = p.accepted.length + k ∧
      q.sock.validSendingDataHead = p.sock.validSendingDataHead := by
  induction k with
  | zero => exact fun hf h _ _ => ⟨_, rfl, hf, h, rfl, rfl⟩
  | succ k ih =>
    intro p hf h hlt hroom
    obtain ⟨p1, e1, f1, w1, a1, hd1, -, -⟩ := give_step hf h (by omega) (by omega)
    obtain ⟨q, hq, hf', hw', hlen', hhead'⟩ := ih f1 w1 (by omega) (by omega)
    refine ⟨q, ?_, hf', hw', by omega, hhead'.trans hd1⟩
    rw [List.replicate_succ, run_cons, e1, hq]

theorem meets_given : ∀ (k : ℕ) (p : Sender),
    Meets (step false) Plain p (List.replicate k (.send blank))
  | 0, _ => trivial
  | k + 1, p => by
    rw [List.replicate_succ]
    exact ⟨trivial, meets_given k _⟩

/-- **The end of the numbers.** All packets up to `2 ^ 64 - 551617` are sent and acknowledged, and
551615 more are given to the sender: the tail is then the last 64-bit number, and the next block is
refused although the window is little more than half full. -/
theorem tail_wraps : ∃ as : List SendAct, Meets (step false) Plain fresh as ∧
    (run (step false) fresh as).fault = none ∧
    (run (step false) fresh as).sock.validSendingDataTail -
      (run (step false) fresh as).sock.validSendingDataHead = 551615 ∧
    ∃ c, (Sendep.send (run (step false) fresh as).sock blank.mem).res =
      .ok (.noSpace, some c, (run (step false) fresh as).sock) := by
  obtain ⟨h1, h2⟩ := rested_rounds (2 ^ 64 - 551617) (by omega)
  have hhead : (run (step false) fresh (rounds (2 ^ 64 - 551617))).sock.validSendingDataHead =
      2 ^ 64 - 551616 := by
    rcases h1.head with h0 | ⟨h0, -⟩
    · omega
    · omega
  have hwin : (1000000 : ℕ) = sendWinSize := rfl
  obtain ⟨q, hq, hf, hw, hlen, hsame⟩ := given 551615 h1.fault h1.win
    (by rw [h1.accepted]; omega) (by rw [h1.accepted, hhead, ← hwin]; omega)
  have htail := hw.tail_eq (by rw [hlen, h1.accepted]; omega)
  rw [hlen, h1.accepted] at htail
  refine ⟨rounds (2 ^ 64 - 551617) ++ List.replicate 551615 (.send blank),
    (meets_append _).mpr ⟨h2, meets_given _ _⟩, ?_⟩
  rw [run_append, hq]
  refine ⟨hf, by omega, refused q.sock blank.mem, ?_⟩
  have hfull : Full q.sock := by
    unfold Full
    rw [htail, hsame, hhead, ← hwin]
    unfold u64
    omega
  rw [send_refused rfl hfull]
  rfl

end SmartNet.Network.Rmp.WindowOrder

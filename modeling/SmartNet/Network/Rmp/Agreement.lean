import SmartNet.Network.Rmp.KeepAlive

/-! # What a group agrees on

Any number of receivers, with any ids, and a sender that may give up packets which some of them
still need.

* `Opens i`: receiver `i` opens an empty reorder buffer near, whatever the others do;
* `agreement`: a receiver hands out a prefix of what the sender accepted, and so, of any two
  receivers, one has handed out a prefix of what the other has;
* `exec_above`: the sender sends no packet below the head of its window;
* `lost_for_good`: a packet that was given up is not sent any more, and if it did not reach a
  receiver, it is the end of what that receiver hands out. -/

namespace SmartNet.Network.Rmp.Agreement

open SmartNet.Common SmartNet.Lib SmartNet.Lib.Frontier SmartNet.Lib.Run SmartNet.Memory.MemBlock
open SmartNet.Network.Udp SmartNet.Network.Rmp.Wire SmartNet.Network.Rmp.Recvep
open SmartNet.Network.Rmp.RecvRun SmartNet.Network.Rmp.Feedback SmartNet.Network.Rmp.Delivery
open SmartNet.Network.Rmp.Sendep SmartNet.Network.Rmp.SendWin SmartNet.Network.Rmp.SendCalls
open SmartNet.Network.Rmp.SendRun SmartNet.Network.Rmp.Multicast SmartNet.Network.Rmp.OneRecver
open SmartNet.Network.Rmp.KeepAlive (pair arriveAt feedBack)

variable {ι : Type} {w : World ι} {a : WorldAct ι} {strict : Bool} {i : ι}

/-- A packet that opens the empty reorder buffer of receiver `i` is at most
`__UNORDERED_PKGS_CNT__ + 2` above what it has. -/
def Opens (i : ι) (w : World ι) (a : WorldAct ι) : Prop :=
  ∀ p ∈ (a.call w).getRight?, p.1 = i → ∀ q ∈ p.2.number,
    (w.recver i).sock.unvalidPkgBegin = 0 →
    q ≤ (w.recver i).sock.latestRecvedValidSeqNo + (unorderedPkgsCnt + 2)

instance [DecidableEq ι] (i : ι) (w : World ι) : DecidablePred (Opens i w) := by
  intro a
  unfold Opens
  infer_instance

/-- The invariant of one receiver of the group. -/
structure Apart (i : ι) (w : World ι) : Prop where
  inv : WorldInv w
  sound : Sound (payOf w.sender.accepted) (unorderedPkgsCnt + 2) (w.recver i)

theorem apart_init (mc : SockAddr) (sid : UInt8) (alive speed hb : ℕ) (cnt : ι → ℕ)
    (bound : ι → SockAddr) (i : ι) : Apart i (Multicast.init mc sid alive speed hb cnt bound) :=
  ⟨inv_init mc sid alive speed hb cnt bound, sound_init sid (cnt i) (bound i)⟩

/-! ### Deliveries -/

theorem Apart.handed (h : Apart i w) :
    (w.recver i).delivered <+: w.sender.accepted.map some := by
  obtain ⟨L, -, hseen, hdel⟩ := h.sound.handed
  rw [hdel]
  refine payloads_prefix ?_
  rcases Nat.eq_zero_or_pos L with h0 | h0
  · omega
  · have := (h.inv.seen i L (hseen L h0 (Nat.le_refl L))).2
    have := h.inv.window.sending_le
    omega

theorem Apart.sound_append (h : Apart i w) (l : List (List UInt8)) :
    Sound (payOf (w.sender.accepted ++ l)) (unorderedPkgsCnt + 2) (w.recver i) := by
  have hle := h.inv.window.sending_le
  refine h.sound.congr fun q hq => ?_
  have hseen := h.inv.seen i q hq
  exact payOf_append hseen.1 (by omega)

variable [DecidableEq ι]

/-- **Every step** keeps the invariant of a receiver, if its own calls open its buffer near. -/
theorem apart_step (h : Apart i w) (hopens : Opens i w a) (hfew : Few (Multicast.step strict w a)) :
    Apart i (Multicast.step strict w a) := by
  refine ⟨step_inv w a h.inv hfew, ?_⟩
  rcases hc : a.call w with x | ⟨j, x⟩
  · rw [step_of_sender hc]
    obtain ⟨l, hl⟩ : w.sender.accepted <+: (SendRun.step strict w.sender x).accepted :=
      accepted_step w.sender x
    show Sound (payOf (SendRun.step strict w.sender x).accepted) _ (w.recver i)
    rw [← hl]
    exact h.sound_append l
  · rw [step_of_recver hc]
    show Sound (payOf w.sender.accepted) _ ((onRecver w j x).recver i)
    rcases eq_or_ne i j with rfl | hj
    · obtain ⟨hon, hup⟩ := honest_of_inv h.inv hc
      have hlt := h.inv.window.sending_lt
      have hle := h.inv.window.sending_le
      have hnear : (w.recver i).fault = none → Near (payOf w.sender.accepted)
          (unorderedPkgsCnt + 2) {q | q ∈ (w.recver i).seen} (w.recver i).sock x := by
        intro hf q hq
        obtain ⟨h1, h2⟩ := number_bounds hon hup hq
        refine ⟨fun hW => ?_, fun _ => ⟨by omega, payOf_ne_nil h.inv.filled h1 (by omega)⟩⟩
        refine hopens (i, x) (by rw [hc]; rfl) rfl q hq ?_
        exact ((h.sound.alive hf).1.buf.begin_zero_iff.mpr hW)
      rw [onRecver_self]
      exact (step_sound h.sound (by omega) (h.inv.senderId i) hon hnear).1
    · rw [onRecver_ne w hj]
      exact h.sound

theorem apart_run {as : List (WorldAct ι)} (h : Apart i w)
    (hopens : Meets (Multicast.step strict) (Opens i) w as)
    (hfew : Few (run (Multicast.step strict) w as)) :
    Apart i (run (Multicast.step strict) w as) :=
  (run_inv_meets (D := fun _ _ => True) few_step
    (fun _ _ hI hC hB => ⟨apart_step hI hC hB, trivial⟩) h hopens hfew).1

/-- Packet 2 does not reach one of two receivers with one id, and is given up with the ack of the
other. -/
def halfGiven : List (WorldAct Bool) :=
  [.send byteBlock, .send byteBlock, .canSend 0 (fun _ => 0) .sent, .canSend 0 (fun _ => 0) .sent,
    arriveAt true 0, feedBack 0 0, arriveAt false 0, arriveAt false 1, feedBack 2 0]

/-- The data packets that are sent have numbers from `n` on. -/
def Above (n : ℕ) (evs : List Ev) : Prop :=
  ∀ ad d, .sendto ad d ∈ evs → opcode d = epData → n ≤ word 0 d

variable {s : SendSock} {accepted : List (List UInt8)} {d : List UInt8} {n lo hi id seq : ℕ}

theorem above_of_nil {evs : List Ev} (h : evs = []) : Above n evs := by
  subst h
  intro ad d hmem
  cases hmem

theorem send_above (s : SendSock) (b : Payload) (n : ℕ) :
    Above n (SendAct.exec strict s (.send b)).evs := by
  refine above_of_nil ?_
  by_cases ho : b.mem.offset = 16
  · rcases send_cases (s := s) ho b.fits with ⟨c, heq, -⟩ | ⟨heq, -⟩
    · simp only [SendAct.exec, heq, Eff.pure_bind]
      rfl
    · simp only [SendAct.exec, heq, Eff.pure_bind, if_true]
      rfl
  · simp only [SendAct.exec, send_offset ho, Eff.abort_bind]
    rfl

theorem canSend_above (h : Window accepted s) (now : ℕ) (stack : ℕ → UInt8) (io : Sendto) :
    Above s.validSendingDataHead (SendAct.exec strict s (.canSend now stack io)).evs := by
  simp only [SendAct.exec]
  rcases canSend_cases h.slots now stack io with
    ⟨-, heq⟩ | ⟨-, ⟨heq, -⟩ | ⟨-, -, -, d, hd, ⟨-, heq⟩ | ⟨-, ret, heq⟩⟩⟩
  · rw [heq]
    rcases hb_cases s now stack io with ⟨-, -, hx⟩ | ⟨-, x, hx, hsends⟩
    · exact above_of_nil (by rw [hx]; rfl)
    · rw [Eff.bind_assoc, Eff.bind_of_ok hx]
      intro ad d hmem hop
      have hhb := hsends ad d (mem_sends.mpr (by simpa using hmem))
      rw [hhb] at hop
      exact absurd hop (by simp [hbBytes, Bytes.leBytes, opcode, epHb, epData])
  · exact above_of_nil (by rw [heq]; rfl)
  · rw [heq]
    intro ad e hmem _
    cases List.mem_singleton.mp hmem
    rw [hd.seq]
    exact h.head_le
  · exact above_of_nil (by rw [heq]; rfl)

/-- A NAK that begins below the window is not answered, and any other is answered with packets of
the window. -/
theorem nak_above (h : Window accepted s) (hd : IsNak lo hi id d) (h1 : 1 ≤ lo) (src : SockAddr)
    (now : ℕ) (fresh : ℕ → UInt8) (sent : ℕ → Bool) :
    Above s.validSendingDataHead
      (SendAct.exec strict s (.input (.dgram src d) now fresh sent)).evs := by
  rcases Nat.lt_or_ge lo s.validSendingDataHead with hlt | hge
  · obtain ⟨b, hb, heq⟩ := exec_isNak strict h.idle hd src now fresh sent
    have hlen := hd.len
    have hlo : (b.decHeadData 8).get64 0 = lo := (hb.get64 0 (by omega)).trans hd.first
    have hid : (b.decHeadData 8).get64 16 = id := (hb.get64 2 (by omega)).trans hd.id
    obtain ⟨n, v, hcount⟩ := countNak_eq { s with pMem := some b } id now
    refine above_of_nil ?_
    rw [heq]
    unfold sendepHandleNak
    simp only [hlo, hid, hcount]
    rw [if_pos (Or.inl hlt)]
    cases strict
    · rfl
    · rfl
  · rcases exec_nak strict h hd h1 src now fresh sent with
      ⟨-, hab⟩ | ⟨t, -, -, -, ⟨-, hnil⟩ | ⟨-, hpk⟩⟩
    · exact above_of_nil (by rw [hab]; rfl)
    · exact above_of_nil hnil
    · intro ad e hmem _
      obtain ⟨r, e', hev, hr, -, he⟩ := hpk.resent _ hmem
      cases hev
      rw [he.seq]
      exact Nat.le_trans hge hr

theorem ack_above (h : Window accepted s) (hd : IsAck seq id d) (src : SockAddr) (now : ℕ)
    (fresh : ℕ → UInt8) (sent : ℕ → Bool) (n : ℕ) :
    Above n (SendAct.exec strict s (.input (.dgram src d) now fresh sent)).evs := by
  obtain ⟨b, hb, heq⟩ := exec_isAck strict h.idle hd src now fresh sent
  refine above_of_nil ?_
  rw [heq]
  rcases ack_cases (s := s) strict hb hd now (some b) with
    ⟨-, ⟨-, hab⟩ | ⟨-, t, hres, -⟩⟩ | ⟨-, t, hres, -⟩
  · rw [hab, Eff.abort_bind]
    rfl
  · rw [hres]
    rfl
  · rw [hres]
    rfl

theorem noDgram_above (h : Window accepted s) {r : Recvfrom} (hr : ∀ src d, r ≠ .dgram src d)
    (now : ℕ) (fresh : ℕ → UInt8) (sent : ℕ → Bool) (n : ℕ) :
    Above n (SendAct.exec strict s (.input r now fresh sent)).evs := by
  obtain ⟨b, hb, ho, hl⟩ := takeMem_of_idle h.idle fresh
  refine above_of_nil ?_
  rcases udpRecv_noDgram b hr with hf | ⟨ret, h1, -, h3⟩
  · simp only [SendAct.exec, sendepHandleCanRecv, hb, hf, Eff.pure_bind, Eff.abort_bind]
    rfl
  · simp only [SendAct.exec, sendepHandleCanRecv, hb, h3, Eff.pure_bind, ne_eq, h1,
      not_false_eq_true, if_true]
    rfl

/-- **The sender sends no packet below the head** of its window. -/
theorem exec_above (strict : Bool) {x : SendAct} (h : Window accepted s)
    (hfeed : Feed s.sendingSeqNo x) :
    Above s.validSendingDataHead (x.exec strict s).evs := by
  rcases x with b | ⟨now, stack, io⟩ | ⟨r, now, fresh, sent⟩ | m
  · exact send_above s b _
  · exact canSend_above h now stack io
  · rcases r with ⟨src, d⟩ | _ | _ | _
    · rcases hfeed with ⟨seq, id, hd, -⟩ | ⟨lo, hi, id, hd, h1, -⟩
      · exact ack_above h hd src now fresh sent _
      · exact nak_above h hd h1 src now fresh sent
    all_goals exact noDgram_above h (fun src d hr => by cases hr) now fresh sent _
  · exact above_of_nil rfl

omit [DecidableEq ι] in
theorem head_mono (strict : Bool) (h : WorldInv w) {x : SendAct} (hc : a.call w = .inl x) :
    w.sender.sock.validSendingDataHead ≤
      (SendRun.step strict w.sender x).sock.validSendingDataHead := by
  have hfeed := feed_of_inv h hc
  rcases step_cases strict h.window hfeed with
    ⟨-, hst, -⟩ | ⟨-, f, -, hst, -⟩ | ⟨-, t, l, -, hst, hmv, -⟩
  · rw [hst]
  · rw [hst]
  · rw [hst]
    have htakes := hmv.takes
    rcases x with b | ⟨now, stack, io⟩ | ⟨⟨src, d⟩ | _ | _ | _, now, fresh, sent⟩ | m
    case input.dgram =>
      rcases htakes with ⟨heq, -⟩ | ⟨seq, id, hd, -, hacked⟩
      · exact Nat.le_of_eq heq.symm
      · refine (hacked.head_le h.window.recved ?_ h.window.sending_lt).1
        rcases hfeed with ⟨seq', id', hd', -, hM⟩ | ⟨lo, hi, id', hd', -⟩
        · rw [← hd.seq, hd'.seq]
          exact hM
        · exact absurd (hd.op.symm.trans hd'.op) (by decide)
    all_goals exact Nat.le_of_eq htakes.1.symm

/-- No copy of packet `q` among the first `m` datagrams reaches receiver `i`. -/
def NoCopy (m q : ℕ) (i : ι) (w : World ι) : WorldAct ι → Prop
  | .recv j (.packet k _) _ _ _ _ =>
    j = i → k < m → ∀ d ∈ w.mcast[k]?, opcode d = epData → word 0 d ≠ q
  | _ => True

instance (m q : ℕ) (i : ι) (w : World ι) : DecidablePred (NoCopy m q i w) := by
  intro a
  unfold NoCopy
  split
  · infer_instance
  · infer_instance

/-- Packet `q` was given up, and only the first `m` datagrams can have it. -/
structure GivenUp (m q : ℕ) (w : World ι) : Prop where
  inv : WorldInv w
  below : q < w.sender.sock.validSendingDataHead
  later : ∀ k d, m ≤ k → w.mcast[k]? = some d → opcode d = epData → word 0 d ≠ q

/-- Receiver `i` lacks a packet that was given up. -/
structure Without (m q : ℕ) (i : ι) (w : World ι) : Prop where
  given : GivenUp m q w
  sound : Sound (payOf w.sender.accepted) (unorderedPkgsCnt + 2) (w.recver i)
  lacks : q ∉ (w.recver i).seen

variable {m q : ℕ}

omit [DecidableEq ι] in
theorem call_number {x : RecvAct} (hc : a.call w = .inr (i, x)) (hq : x.number = some q) :
    ∃ k src fresh stack io ioAck d, a = .recv i (.packet k src) fresh stack io ioAck ∧
      w.mcast[k]? = some d ∧ opcode d = epData ∧ word 0 d = q := by
  rcases a with _ | _ | _ | _ | ⟨j, r, fresh, stack, io, ioAck⟩ | ⟨j, stack, io⟩ | ⟨j, now, stack,
    ioAck, ioNak⟩
  iterate 4 cases hc
  · cases hc
    rcases r with ⟨k, src⟩ | _ | _ | _
    · rcases hk : w.mcast[k]? with _ | d
      · simp only [Arrival.recvfrom, hk] at hq
        cases hq
      · simp only [Arrival.recvfrom, hk, RecvAct.number] at hq
        split_ifs at hq with hop
        exact ⟨k, src, fresh, stack, io, ioAck, d, rfl, hk, hop, Option.some.inj hq⟩
    all_goals cases hq
  · cases hc
    cases hq
  · cases hc
    cases hq

theorem givenUp_step (h : GivenUp m q w) (hfew : Few (Multicast.step strict w a)) :
    GivenUp m q (Multicast.step strict w a) := by
  have hinv := step_inv w a h.inv hfew
  rcases hc : a.call w with x | ⟨j, x⟩
  · have hmono := head_mono strict h.inv hc
    refine ⟨hinv, ?_, fun k d hk hd hop => ?_⟩
    · rw [step_of_sender hc]
      exact Nat.lt_of_lt_of_le h.below hmono
    · rw [step_of_sender hc] at hd
      replace hd : (w.mcast ++ SendRun.out strict w.sender x)[k]? = some d := hd
      rcases Nat.lt_or_ge k w.mcast.length with hlt | hge
      · rw [List.getElem?_append_left hlt] at hd
        exact h.later k d hk hd hop
      · rw [List.getElem?_append_right hge] at hd
        have hmem := List.mem_of_getElem? hd
        unfold SendRun.out at hmem
        split_ifs at hmem
        · cases hmem
        · obtain ⟨⟨ad, e⟩, he, rfl⟩ := List.mem_map.mp hmem
          have hge := exec_above strict h.inv.window (feed_of_inv h.inv hc) ad e (mem_sends.mp he)
            hop
          have := h.below
          exact Nat.ne_of_gt (by show q < word 0 e; omega)
  · refine ⟨hinv, ?_, ?_⟩
    · rw [step_of_recver hc]
      exact h.below
    · rw [step_of_recver hc]
      exact h.later

theorem without_step (h : Without m q i w) (hopens : Opens i w a) (hno : NoCopy m q i w a)
    (hfew : Few (Multicast.step strict w a)) : Without m q i (Multicast.step strict w a) := by
  have hapart : Apart i w := ⟨h.given.inv, h.sound⟩
  refine ⟨givenUp_step h.given hfew, (apart_step hapart hopens hfew).sound, ?_⟩
  rcases hc : a.call w with x | ⟨j, x⟩
  · rw [step_of_sender hc]
    exact h.lacks
  · rw [step_of_recver hc]
    show q ∉ ((onRecver w j x).recver i).seen
    rcases eq_or_ne i j with rfl | hj
    · rw [onRecver_self]
      by_cases hf : (w.recver i).fault = none
      · rw [(step_alive hf).2.2.1, List.mem_append, Option.mem_toList]
        rintro (hnum | hmem)
        · obtain ⟨k, src, fresh, stack, io, ioAck, d, rfl, hk, hop, hword⟩ := call_number hc hnum
          rcases Nat.lt_or_ge k m with hlt | hge
          · exact hno rfl hlt d hk hop hword
          · exact h.given.later k d hge hk hop hword
        · exact h.lacks hmem
      · rw [step_dead hf]
        exact h.lacks
    · rw [onRecver_ne w hj]
      exact h.lacks

theorem delivered_step (strict : Bool) (w : World ι) (a : WorldAct ι) (i : ι) :
    (w.recver i).delivered <+: ((Multicast.step strict w a).recver i).delivered := by
  rcases hc : a.call w with x | ⟨j, x⟩
  · rw [step_of_sender hc]
    exact List.prefix_refl _
  · rw [step_of_recver hc]
    show _ <+: ((onRecver w j x).recver i).delivered
    rcases eq_or_ne i j with rfl | hj
    · rw [onRecver_self]
      by_cases hf : (w.recver i).fault = none
      · rw [(step_alive hf).2.1]
        exact List.prefix_append _ _
      · rw [step_dead hf]
    · rw [onRecver_ne w hj]

omit [DecidableEq ι] in
theorem Without.few (h : Without m q i w) (hq : 1 ≤ q) : (w.recver i).delivered.length < q := by
  obtain ⟨L, -, hseen, hdel⟩ := h.sound.handed
  have hlt : L < q := by
    by_contra hge
    exact h.lacks (hseen q hq (by omega))
  rw [hdel]
  unfold payloads
  rw [List.length_map, length_numbers]
  exact hlt

/-- **A packet given up is lost for good**: once the head of the window is above the next packet
that a receiver needs, the sender does not send this packet any more, whatever it is asked for; and
if the receiver is alive and opens its reorder buffer near, and no copy of the packet that is under
way reaches it, it hands out nothing more. -/
theorem lost_for_good (strict : Bool) (mc : SockAddr) (sid : UInt8) (alive speed hb : ℕ)
    (cnt : ι → ℕ) (bound : ι → SockAddr) (as bs : List (WorldAct ι)) (i : ι)
    (hfew : Few (run (Multicast.step strict) (Multicast.init mc sid alive speed hb cnt bound)
      (as ++ bs))) :
    let w := run (Multicast.step strict) (Multicast.init mc sid alive speed hb cnt bound) as
    let v := run (Multicast.step strict) w bs
    let next := (w.recver i).sock.latestRecvedValidSeqNo + 1
    next < w.sender.sock.validSendingDataHead →
    (∀ d ∈ v.mcast.drop w.mcast.length, opcode d = epData → word 0 d ≠ next) ∧
      ((w.recver i).fault = none →
        Meets (Multicast.step strict) (Opens i)
          (Multicast.init mc sid alive speed hb cnt bound) (as ++ bs) →
        Meets (Multicast.step strict) (NoCopy w.mcast.length next i) w bs →
        (v.recver i).delivered = (w.recver i).delivered) := by
  intro w v next hhead
  rw [run_append] at hfew
  have hinv : WorldInv w :=
    run_inv few_step step_inv (inv_init mc sid alive speed hb cnt bound) (run_mono few_step bs hfew)
  have hgiven : GivenUp w.mcast.length next w := by
    refine ⟨hinv, hhead, fun k d hk hd => ?_⟩
    rw [List.getElem?_eq_none hk] at hd
    cases hd
  constructor
  · have hend : GivenUp w.mcast.length next v :=
      run_inv few_step (fun _ _ h => givenUp_step h) hgiven hfew
    intro d hd
    obtain ⟨k, hk⟩ := List.mem_iff_getElem?.mp hd
    rw [List.getElem?_drop] at hk
    exact hend.later _ d (Nat.le_add_right _ _) hk
  · intro hf hopens hno
    obtain ⟨has, hbs⟩ := (meets_append (Multicast.step strict)).mp hopens
    have hw : Apart i w := apart_run (apart_init mc sid alive speed hb cnt bound i) has
      (run_mono few_step bs hfew)
    have hstart : Without w.mcast.length next i w :=
      ⟨hgiven, hw.sound, (hw.sound.alive hf).1.buf.frontier.gap⟩
    obtain ⟨hend, hpre⟩ : Without w.mcast.length next i v ∧
        (w.recver i).delivered <+: (v.recver i).delivered := by
      refine (run_inv_meets (I := fun u => Without w.mcast.length next i u ∧
        (w.recver i).delivered <+: (u.recver i).delivered) (D := fun _ _ => True) few_step
        (fun u a hI hC hB => ⟨⟨without_step hI.1 hC.1 hC.2 hB, ?_⟩, trivial⟩)
        ⟨hstart, List.prefix_refl _⟩
        ((meets_and (Multicast.step strict)).mpr ⟨hbs, hno⟩) hfew).1
      exact hI.2.trans (delivered_step strict u a i)
    -- all packets below the one that was given up had been handed out
    have hlen : (w.recver i).delivered.length + 1 = next := by
      rw [(hw.sound.alive hf).2]
      unfold payloads
      rw [List.length_map, length_numbers]
    have hfewer := hend.few (Nat.le_add_left 1 _)
    exact (hpre.eq_of_length_le (by omega)).symm

/-- The receiver hears of packet 2 and asks for it; the sender discards the NAK. -/
def asksAgain : List (WorldAct Bool) :=
  [.canSend 1 (fun _ => 0) .sent, .canSend 5 (fun _ => 0) .sent, arriveAt true 2, feedBack 3 0]

theorem lost_for_good_half :
    let w := run (Multicast.step false) (pair fun _ => ⟨0, 2⟩) halfGiven
    let v := run (Multicast.step false) w asksAgain
    (∀ d ∈ v.mcast.drop w.mcast.length, opcode d = epData → word 0 d ≠ 2) ∧
      (v.recver true).delivered = (w.recver true).delivered := by
  obtain ⟨h1, h2⟩ := lost_for_good false ⟨1, 1⟩ 7 1000000 0 0 (fun _ => 1) (fun _ => ⟨0, 2⟩)
    halfGiven asksAgain true (by unfold Few; decide) (by decide)
  exact ⟨h1, h2 (by decide) (by decide) (by decide)⟩

end SmartNet.Network.Rmp.Agreement

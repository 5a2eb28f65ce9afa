import Mathlib.Algebra.Order.BigOperators.Group.Finset
import SmartNet.Lib.Reach
import SmartNet.Network.Rmp.Members

/-! # Nothing that was accepted is lost for good

A sender and its receivers that are alive can always get to a state in which every receiver has
handed out everything that was accepted and the sender knows it, even if all datagrams under way are
lost: what a receiver lacks is announced by a heartbeat, asked for and sent again, and the acks of
the timers open the window for the rest. What the sender has given up it does not send again, so
this is for groups in which nothing was given up that a receiver still needs; with one receiver
that never happens.

* `tick`: a step, with the latest clock reading; `Later`: a step that accepts nothing, takes no
  datagram of before and reads a clock that has not gone back;
* `Onward`: such steps, at the end of which the parties are alive;
* `recovers`, `opens`: a receiver gets a packet it lacks, and the acks of all raise the head;
* `advance`: one more packet is sent, taken or acknowledged;
* `all_recoverable`, `recoverable`: all of them are, in a group and with one receiver. -/

namespace SmartNet.Network.Rmp.Recovery

open SmartNet.Common SmartNet.Lib SmartNet.Lib.Assoc SmartNet.Lib.Frontier SmartNet.Lib.Run
open SmartNet.Lib.Reach SmartNet.Memory.MemBlock SmartNet.Network.Udp SmartNet.Network.Rmp.Wire
open SmartNet.Network.Rmp.Recvep SmartNet.Network.Rmp.ControlPkgs SmartNet.Network.Rmp.RecvRun
open SmartNet.Network.Rmp.Feedback SmartNet.Network.Rmp.Delivery SmartNet.Network.Rmp.Sendep
open SmartNet.Network.Rmp.SendWin SmartNet.Network.Rmp.SendCalls SmartNet.Network.Rmp.SendRun
open SmartNet.Network.Rmp.Multicast SmartNet.Network.Rmp.OneRecver SmartNet.Network.Rmp.Answers
open SmartNet.Network.Rmp.Members
open SmartNet.Network.Rmp.KeepAlive (Tells ack_true says_tells)
open SmartNet.Network.Rmp.AppAcks (AckDue)

variable {ι : Type}

/-- The clock reading of a call. -/
def reading : WorldAct ι → Option ℕ
  | .canSend now _ _ => some now
  | .feed _ now _ _ => some now
  | .timer _ now _ _ _ => some now
  | _ => none

/-- The group with the latest clock reading. -/
structure Clocked (ι : Type) where
  world : World ι
  now : ℕ

/-- The call accepts nothing, and the datagram it handles is none of the first `m` to the group or
the first `f` to the sender. -/
def Anew (m f : ℕ) : WorldAct ι → Prop
  | .send _ => False
  | .feed (.packet k _) _ _ _ => f ≤ k
  | .recv _ (.packet k _) _ _ _ _ => m ≤ k
  | _ => True

/-- The same, and the clock does not go back. -/
def Later (m f : ℕ) (c : Clocked ι) (a : WorldAct ι) : Prop :=
  Anew m f a ∧ ∀ t ∈ reading a, c.now ≤ t

/-- `m_ui64LatestRecvedValidSeqNo` of a receiver. -/
def taken (w : World ι) (i : ι) : ℕ := (w.recver i).sock.latestRecvedValidSeqNo

/-- No packet was given up that a receiver lacks. -/
def NoneGivenUp (w : World ι) : Prop := ∀ i, w.sender.sock.validSendingDataHead ≤ taken w i + 1

/-- **The invariant**, with a clock that has read `now` at most. -/
structure Known (hb : ℕ) (c : Clocked ι) : Prop where
  inv : WorldInv c.world
  ids : ∀ i j, (c.world.recver i).sock.epid = (c.world.recver j).sock.epid → i = j
  keyed : Keyed c.world.sender.sock.mapRecvers
  credited : Credited (fun id n => ∃ i, (c.world.recver i).sock.epid = id ∧ n ≤ taken c.world i)
    c.world.sender.sock.mapRecvers
  kept : NoneGivenUp c.world
  ahead : ∀ i, c.world.sender.sock.sendingSeqNo ≤ taken c.world i + (unorderedPkgsCnt + 1)
  sound : ∀ i, Sound (payOf c.world.sender.accepted) (unorderedPkgsCnt + 1) (c.world.recver i)
  hbInterval : c.world.sender.sock.hbInterval = hb
  lastHbTime : c.world.sender.sock.lastHbTime ≤ c.now
  lastSendAckTime : ∀ i, (c.world.recver i).sock.lastSendAckTime ≤ c.now

/-- All parties are alive. -/
structure Ready (hb : ℕ) (c : Clocked ι) : Prop where
  known : Known hb c
  few : c.world.sender.accepted.length < 2 ^ 64 - 1
  clock : 1 ≤ c.now
  sender : c.world.sender.fault = none
  recver : ∀ i, (c.world.recver i).fault = none

/-- Everything accepted was handed out by all receivers, and the sender knows it. -/
def Settled (w : World ι) : Prop :=
  (∀ i, taken w i = w.sender.accepted.length) ∧
    (w.sender.accepted.length = 0 ∨
      w.sender.sock.validSendingDataHead = w.sender.accepted.length + 1)

/-- How many packets are still to be sent, taken and acknowledged. -/
def owed [Fintype ι] (w : World ι) : ℕ :=
  (w.sender.accepted.length - w.sender.sock.sendingSeqNo) +
    ∑ i, (w.sender.accepted.length - taken w i) +
    (w.sender.accepted.length + 1 - w.sender.sock.validSendingDataHead)

variable [DecidableEq ι]

def tick (strict : Bool) (c : Clocked ι) (a : WorldAct ι) : Clocked ι :=
  ⟨Multicast.step strict c.world a, (reading a).getD c.now⟩

@[simp] theorem tick_world (strict : Bool) (c : Clocked ι) (a : WorldAct ι) :
    (tick strict c a).world = Multicast.step strict c.world a := rfl

variable {strict : Bool} {m f hb : ℕ} {c c' c'' : Clocked ι} {w : World ι} {a : WorldAct ι} {i : ι}

/-! ### One call -/

theorem sender_call (strict : Bool) {x : SendAct} {t : SendSock} {evs : List Ev}
    {l : List (List UInt8)}
    (hc : a.call w = .inl x) (hf : w.sender.fault = none)
    (hx : x.exec strict w.sender.sock = ⟨evs, .ok (t, l)⟩) :
    (Multicast.step strict w a).sender = ⟨t, none, w.sender.accepted ++ l⟩ ∧
      (Multicast.step strict w a).recver = w.recver ∧
      (Multicast.step strict w a).mcast = w.mcast ++ (sends evs).map Prod.snd := by
  rw [step_of_sender hc]
  refine ⟨step_of_ok hf (by rw [hx]), rfl, ?_⟩
  show w.mcast ++ SendRun.out strict w.sender x = _
  unfold SendRun.out
  simp [hf, hx]

theorem recver_call (strict : Bool) {x : RecvAct} {t : RecvSock} {evs : List Ev}
    (hc : a.call w = .inr (i, x)) (hf : (w.recver i).fault = none)
    (hx : x.exec (w.recver i).sock = ⟨evs, .ok t⟩) :
    (Multicast.step strict w a).sender = w.sender ∧
      ((Multicast.step strict w a).recver i).sock = t ∧
      ((Multicast.step strict w a).recver i).fault = none ∧
      (∀ j, j ≠ i → (Multicast.step strict w a).recver j = w.recver j) ∧
      (Multicast.step strict w a).feedback = w.feedback ++ (sends evs).map fun p => (i, p.2) := by
  have hstep := Delivery.step_ok hf (a := x) (t := t) (by rw [hx])
  rw [step_of_recver hc]
  refine ⟨rfl, ?_, ?_, fun j hj => onRecver_ne w hj x, ?_⟩
  · show ((onRecver w i x).recver i).sock = t
    rw [onRecver_self, hstep]
  · show ((onRecver w i x).recver i).fault = none
    rw [onRecver_self, hstep]
  · show w.feedback ++ (RecvRun.out (w.recver i) x).map _ = _
    unfold RecvRun.out
    simp [hf, hx]

omit [DecidableEq ι] in
theorem call_feed {k : ℕ} {p : ι × List UInt8} (hk : w.feedback[k]? = some p) (src : SockAddr)
    (now : ℕ) (fresh : ℕ → UInt8) (sent : ℕ → Bool) :
    (WorldAct.feed (.packet k src) now fresh sent : WorldAct ι).call w =
      .inl (.input (.dgram src p.2) now fresh sent) := by
  simp [WorldAct.call, Arrival.recvfrom, hk]

omit [DecidableEq ι] in
theorem call_recv {k : ℕ} {d : List UInt8} (hk : w.mcast[k]? = some d) (i : ι) (src : SockAddr)
    (fresh stack : ℕ → UInt8) (io ioAck : Sendto) :
    (WorldAct.recv i (.packet k src) fresh stack io ioAck).call w =
      .inr (i, .input (.dgram src d) fresh stack io ioAck) := by
  simp [WorldAct.call, Arrival.recvfrom, hk]

theorem recver_stamped (p : Receiver) (x : RecvAct) :
    (RecvRun.step p x).sock.lastSendAckTime = p.sock.lastSendAckTime ∨
      ∃ now stack ioAck ioNak, x = .timer now stack ioAck ioNak ∧
        (RecvRun.step p x).sock.lastSendAckTime = now := by
  by_cases hf : p.fault = none
  · rcases hres : (x.exec p.sock).res with g | t
    · rw [Delivery.step_error hf hres]
      exact Or.inl rfl
    · rw [Delivery.step_ok hf hres]
      have hstamp := recv_stamp x hres
      cases x with
      | timer now stack ioAck ioNak =>
        rcases hstamp with h | ⟨h, -⟩
        · exact Or.inr ⟨now, stack, ioAck, ioNak, rfl, h⟩
        · exact Or.inl h
      | input => exact Or.inl hstamp
      | drain => exact Or.inl hstamp
  · rw [Delivery.step_dead hf]
    exact Or.inl rfl

/-! ### The invariant -/

/-- **A call on the sender** keeps the invariant, if it gives up nothing that a receiver lacks. -/
theorem known_sender (h : Known hb c) {x : SendAct} (hc : a.call c.world = .inl x) {n : ℕ}
    (hn : c.now ≤ n) (hread : ∀ t ∈ reading a, t ≤ n) (hfew : Few (Multicast.step strict c.world a))
    (hkept : NoneGivenUp (Multicast.step strict c.world a)) :
    Known hb ⟨Multicast.step strict c.world a, n⟩ := by
  have hinv := step_inv c.world a h.inv hfew
  have hlt := h.inv.window.sending_lt
  have hle := h.inv.window.sending_le
  have hlastHb : c.world.sender.sock.lastHbTime ≤ n := Nat.le_trans h.lastHbTime hn
  have hlastAck : ∀ i, (c.world.recver i).sock.lastSendAckTime ≤ n := fun i =>
    Nat.le_trans (h.lastSendAckTime i) hn
  rw [step_of_sender hc] at hinv hkept ⊢
  rcases step_cases strict h.inv.window (feed_of_inv h.inv hc) with
    ⟨-, hst, -⟩ | ⟨-, g, -, hst, -⟩ | ⟨-, t, l, hres, hst, hmv, -⟩
  · unfold onSender at hinv hkept ⊢
    rw [hst] at hinv hkept ⊢
    exact ⟨hinv, h.ids, h.keyed, h.credited, hkept, h.ahead, h.sound, h.hbInterval, hlastHb,
      hlastAck⟩
  · unfold onSender at hinv hkept ⊢
    rw [hst] at hinv hkept ⊢
    exact ⟨hinv, h.ids, h.keyed, h.credited, hkept, h.ahead, h.sound, h.hbInterval, hlastHb,
      hlastAck⟩
  · have hstamp := send_stamp x hres
    unfold onSender at hinv hkept ⊢
    rw [hst] at hinv hkept ⊢
    refine ⟨hinv, h.ids, takes_keyed hmv.takes h.keyed, ?_, hkept, fun i => ?_, fun i => ?_,
      hstamp.hbInterval.trans h.hbInterval, ?_, hlastAck⟩
    · refine takes_credited hmv.takes h.credited ?_ ?_
      · rintro src d now fresh sent rfl id hd
        obtain ⟨j, -, -, hsays⟩ := feed_source h.inv hc
        exact ⟨j, (says_tells hsays).unique hd, Nat.zero_le _⟩
      · rintro src d now fresh sent rfl seq id hd
        obtain ⟨j, -, -, hsays⟩ := feed_source h.inv hc
        have hid := (says_tells hsays).unique (Or.inl ⟨seq, hd⟩)
        exact ⟨j, hid, ack_true h.inv h.ids hc hd j hid⟩
    · show t.sendingSeqNo ≤ taken c.world i + (unorderedPkgsCnt + 1)
      have hahead := h.ahead i
      have hkept := h.kept i
      rcases hmv.sending with hs | ⟨hs, -, hopen, -⟩
      · omega
      · have hN : sendWinSize / 10 = unorderedPkgsCnt := rfl
        omega
    · refine (h.sound i).congr fun q hq => ?_
      have hseen := h.inv.seen i q hq
      exact payOf_append hseen.1 (by omega)
    · show t.lastHbTime ≤ n
      rcases hstamp.lastHbTime with heq | ⟨now, stack, io, rfl, heq⟩
      · omega
      · have := hread now (by rw [call_canSend hc]; rfl)
        omega

theorem taken_mono (strict : Bool) (h : WorldInv w) {x : RecvAct} (hc : a.call w = .inr (i, x))
    (j : ι) : taken w j ≤ taken (Multicast.step strict w a) j := by
  obtain ⟨hon, hup⟩ := honest_of_inv h hc
  obtain ⟨-, hmono, -, -⟩ := recver_step hon (h.senderId i) hup (h.tame i) h.window.sending_lt
    (h.epid i)
  rw [step_of_recver hc]
  show _ ≤ ((onRecver w i x).recver j).sock.latestRecvedValidSeqNo
  rcases eq_or_ne j i with rfl | hj
  · rw [onRecver_self]
    exact hmono
  · rw [onRecver_ne w hj]
    exact Nat.le_refl _

/-- **A call on a receiver** keeps the invariant. -/
theorem known_recver (h : Known hb c) {x : RecvAct} (hc : a.call c.world = .inr (i, x)) {n : ℕ}
    (hn : c.now ≤ n) (hread : ∀ t ∈ reading a, t ≤ n)
    (hfew : Few (Multicast.step strict c.world a)) :
    Known hb ⟨Multicast.step strict c.world a, n⟩ := by
  have hinv := step_inv c.world a h.inv hfew
  have hmono := taken_mono strict h.inv hc
  obtain ⟨hon, hup⟩ := honest_of_inv h.inv hc
  have hlt := h.inv.window.sending_lt
  have hle := h.inv.window.sending_le
  have hsender : (Multicast.step strict c.world a).sender = c.world.sender := by
    rw [step_of_recver hc]
    rfl
  have hself : (Multicast.step strict c.world a).recver i = RecvRun.step (c.world.recver i) x := by
    rw [step_of_recver hc]
    exact onRecver_self c.world i x
  have hother : ∀ j, j ≠ i → (Multicast.step strict c.world a).recver j = c.world.recver j := by
    intro j hj
    rw [step_of_recver hc]
    exact onRecver_ne c.world hj x
  have hid : ∀ j, ((Multicast.step strict c.world a).recver j).sock.epid =
      (c.world.recver j).sock.epid := by
    intro j
    rcases eq_or_ne j i with rfl | hj
    · rw [hself]
      exact (step_ids hon (h.inv.senderId j)).2
    · rw [hother j hj]
  refine ⟨hinv, fun j k hjk => ?_, ?_, ?_, fun j => ?_, fun j => ?_, fun j => ?_, ?_, ?_,
    fun j => ?_⟩
  · exact h.ids j k (by rw [← hid j, ← hid k]; exact hjk)
  · rw [hsender]
    exact h.keyed
  · rw [hsender]
    intro e he
    obtain ⟨j, hj, hn⟩ := h.credited e he
    exact ⟨j, (hid j).trans hj, Nat.le_trans hn (hmono j)⟩
  · rw [hsender]
    exact Nat.le_trans (h.kept j) (Nat.succ_le_succ (hmono j))
  · rw [hsender]
    exact Nat.le_trans (h.ahead j) (Nat.add_le_add_right (hmono j) _)
  · rw [hsender]
    rcases eq_or_ne j i with rfl | hj
    · rw [hself]
      have hnear : (c.world.recver j).fault = none → Near (payOf c.world.sender.accepted)
          (unorderedPkgsCnt + 1) {q | q ∈ (c.world.recver j).seen} (c.world.recver j).sock x := by
        intro _ q hq
        obtain ⟨h1, h2⟩ := number_bounds hon hup hq
        have hahead := h.ahead j
        unfold taken at hahead
        exact ⟨fun _ => by omega, fun _ => ⟨by omega, payOf_ne_nil h.inv.filled h1 (by omega)⟩⟩
      exact (step_sound (h.sound j) (by omega) (h.inv.senderId j) hon hnear).1
    · rw [hother j hj]
      exact h.sound j
  · rw [hsender]
    exact h.hbInterval
  · rw [hsender]
    exact Nat.le_trans h.lastHbTime hn
  · show ((Multicast.step strict c.world a).recver j).sock.lastSendAckTime ≤ n
    have hold : (c.world.recver j).sock.lastSendAckTime ≤ n := Nat.le_trans (h.lastSendAckTime j) hn
    rcases eq_or_ne j i with rfl | hj
    · rw [hself]
      rcases recver_stamped (c.world.recver j) x with heq | ⟨now, stack, ioAck, ioNak, rfl, heq⟩
      · omega
      · have htimer : reading a = some now := by
          cases a with
          | timer => cases hc; rfl
          | _ => cases hc
        have := hread now htimer
        omega
    · rw [hother j hj]
      exact hold

/-- **Every step** that gives up nothing a receiver lacks keeps the invariant. -/
theorem Known.step (h : Known hb c) (a : WorldAct ι) {n : ℕ} (hn : c.now ≤ n)
    (hread : ∀ t ∈ reading a, t ≤ n) (hfew : Few (Multicast.step strict c.world a))
    (hkept : NoneGivenUp (Multicast.step strict c.world a)) :
    Known hb ⟨Multicast.step strict c.world a, n⟩ := by
  rcases hc : a.call c.world with x | ⟨i, x⟩
  · exact known_sender h hc hn hread hfew hkept
  · exact known_recver h hc hn hread hfew

theorem anew_accepted (strict : Bool) (h : Anew m f a) (w : World ι) :
    (Multicast.step strict w a).sender.accepted = w.sender.accepted := by
  rcases hc : a.call w with x | ⟨i, x⟩
  · have hno : ∀ b, x ≠ .send b := by
      rintro b rfl
      cases a with
      | send => exact h
      | _ => cases hc
    rw [step_of_sender hc]
    show (SendRun.step strict w.sender x).accepted = _
    by_cases hf : w.sender.fault = none
    · rcases hres : (x.exec strict w.sender.sock).res with g | ⟨t, l⟩
      · rw [step_of_error hf hres]
      · rw [step_of_ok hf hres, (send_stamp x hres).accepted hno, List.append_nil]
    · rw [SendRun.step_dead hf]
  · rw [step_of_recver hc]
    rfl

theorem datagrams_step (strict : Bool) (w : World ι) (a : WorldAct ι) :
    w.mcast <+: (Multicast.step strict w a).mcast ∧
      w.feedback <+: (Multicast.step strict w a).feedback := by
  rcases hc : a.call w with x | ⟨i, x⟩
  · rw [step_of_sender hc]
    exact ⟨List.prefix_append _ _, List.prefix_refl _⟩
  · rw [step_of_recver hc]
    exact ⟨List.prefix_refl _, List.prefix_append _ _⟩

/-! ### Going on -/

/-- From `c` the parties get to `c'`, alive, without accepting anything. -/
structure Onward (strict : Bool) (m f hb : ℕ) (c c' : Clocked ι) : Prop where
  leads : Leads (tick strict) (Later m f) c c'
  ready : Ready hb c'
  accepted : c'.world.sender.accepted = c.world.sender.accepted
  mcast : c.world.mcast <+: c'.world.mcast
  feedback : c.world.feedback <+: c'.world.feedback

theorem Onward.trans (h : Onward strict m f hb c c') (h' : Onward strict m f hb c' c'') :
    Onward strict m f hb c c'' :=
  ⟨h.leads.trans h'.leads, h'.ready, h'.accepted.trans h.accepted, h.mcast.trans h'.mcast,
    h.feedback.trans h'.feedback⟩

theorem onward_one (h : Ready hb c) (hl : Later m f c a)
    (hs : (Multicast.step strict c.world a).sender.fault = none)
    (hr : ∀ i, ((Multicast.step strict c.world a).recver i).fault = none)
    (hkept : NoneGivenUp (Multicast.step strict c.world a)) :
    Onward strict m f hb c (tick strict c a) := by
  have hacc := anew_accepted strict hl.1 c.world
  have hfew : (Multicast.step strict c.world a).sender.accepted.length < 2 ^ 64 - 1 := by
    rw [hacc]
    exact h.few
  have hnow : c.now ≤ (reading a).getD c.now ∧ ∀ t ∈ reading a, t ≤ (reading a).getD c.now := by
    rcases hread : reading a with _ | t
    · exact ⟨Nat.le_refl _, fun t ht => by cases ht⟩
    · exact ⟨hl.2 t hread, fun u hu => by cases hu; exact Nat.le_refl _⟩
  have hstep := datagrams_step strict c.world a
  refine ⟨leads_one hl, ⟨h.known.step a hnow.1 hnow.2 ?_ hkept, hfew, ?_, hs, hr⟩, hacc, hstep.1,
    hstep.2⟩
  · unfold Few
    omega
  · exact Nat.le_trans h.clock hnow.1

/-- A call on the sender that returns, and raises the head above nothing that a receiver lacks. -/
theorem onward_sender (h : Ready hb c) (hl : Later m f c a) {x : SendAct} {t : SendSock}
    {evs : List Ev} (hc : a.call c.world = .inl x)
    (hx : x.exec strict c.world.sender.sock = ⟨evs, .ok (t, [])⟩)
    (hkept : ∀ i, t.validSendingDataHead ≤ taken c.world i + 1) :
    Onward strict m f hb c (tick strict c a) ∧ (tick strict c a).world.sender.sock = t ∧
      (tick strict c a).world.recver = c.world.recver ∧
      (tick strict c a).world.mcast = c.world.mcast ++ (sends evs).map Prod.snd := by
  obtain ⟨hs, hr, hm⟩ := sender_call strict hc h.sender hx
  refine ⟨onward_one h hl (by rw [hs]) (by rw [hr]; exact h.recver) fun i => ?_, ?_, hr, hm⟩
  · unfold taken
    rw [hs, hr]
    exact hkept i
  · rw [tick_world, hs]

theorem onward_recver (strict : Bool) (h : Ready hb c) (hl : Later m f c a) {x : RecvAct}
    {t : RecvSock} {evs : List Ev} (hc : a.call c.world = .inr (i, x))
    (hx : x.exec (c.world.recver i).sock = ⟨evs, .ok t⟩) :
    Onward strict m f hb c (tick strict c a) ∧ (tick strict c a).world.sender = c.world.sender ∧
      ((tick strict c a).world.recver i).sock = t ∧
      (∀ j, j ≠ i → (tick strict c a).world.recver j = c.world.recver j) ∧
      (tick strict c a).world.feedback =
        c.world.feedback ++ (sends evs).map fun p => (i, p.2) := by
  obtain ⟨hs, ht, hf, hother, hfeed⟩ := recver_call strict hc (h.recver i) hx
  refine ⟨onward_one h hl (by rw [hs]; exact h.sender) (fun j => ?_) (fun j => ?_), hs, ht, hother,
    hfeed⟩
  · rcases eq_or_ne j i with rfl | hj
    · exact hf
    · rw [hother j hj]
      exact h.recver j
  · rw [hs]
    exact Nat.le_trans (h.known.kept j)
      (Nat.succ_le_succ (taken_mono strict h.known.inv hc j))

omit [DecidableEq ι] in
theorem Ready.inOrder (h : Ready hb c) (i : ι) :
    Reorder.InOrder (payOf c.world.sender.accepted) (unorderedPkgsCnt + 1)
      {q | q ∈ (c.world.recver i).seen} (c.world.recver i).sock :=
  ((h.known.sound i).alive (h.recver i)).1

omit [DecidableEq ι] in
theorem Ready.idle (h : Ready hb c) (i : ι) : Idle (c.world.recver i).sock.pMem :=
  (h.inOrder i).idle

omit [DecidableEq ι] in
theorem Ready.numbers (h : Ready hb c) (i : ι) :
    c.world.sender.sock.validSendingDataHead ≤ taken c.world i + 1 ∧
      taken c.world i ≤ c.world.sender.sock.sendingSeqNo ∧
      c.world.sender.sock.sendingSeqNo ≤ c.world.sender.accepted.length :=
  ⟨h.known.kept i, (h.known.inv.tame i).latest, h.known.inv.window.sending_le⟩

/-- No memory content matters. -/
def zero : ℕ → UInt8 := fun _ => 0

/-- No address matters. -/
def anywhere : SockAddr := ⟨0, 0⟩

/-- **The next packet is sent**, unless the window is closed. -/
theorem sends_next (strict : Bool) (m f : ℕ) (h : Ready hb c)
    (hbl : ¬ Blocked c.world.sender.sock) :
    ∃ c', Onward strict m f hb c c' ∧ c'.now = c.now ∧ c'.world.recver = c.world.recver ∧
      c'.world.sender.sock.sendingSeqNo = c.world.sender.sock.sendingSeqNo + 1 ∧
      c'.world.sender.sock.validSendingDataHead = c.world.sender.sock.validSendingDataHead := by
  have hfew := h.few
  rcases canSend_cases h.known.inv.window.slots c.now zero .sent with
    ⟨hcl, -⟩ | ⟨-, ⟨-, hmax⟩ | ⟨-, -, -, d, -, ⟨-, heq⟩ | ⟨hio, -⟩⟩⟩
  · exact absurd hcl hbl
  · omega
  · have hexec : SendAct.exec strict c.world.sender.sock (.canSend c.now zero .sent) =
        ⟨[.sendto c.world.sender.sock.addrMulticast d],
          .ok ({ c.world.sender.sock with
            sendingSeqNo := c.world.sender.sock.sendingSeqNo + 1 }, [])⟩ := by
      simp only [SendAct.exec, heq]
      rfl
    have hl : Later m f c (.canSend c.now zero .sent) := by
      refine ⟨trivial, fun t ht => ?_⟩
      cases ht
      exact Nat.le_refl _
    obtain ⟨ho, hs, hr, -⟩ := onward_sender h hl rfl hexec h.known.kept
    exact ⟨_, ho, rfl, hr, by rw [hs], by rw [hs]⟩
  · exact absurd rfl hio

/-! ### A packet that is missing -/

/-- A sender that has nothing to send announces what it has sent: by the second of two passes, since
the first may only store the time. -/
theorem announces (strict : Bool) (m f : ℕ) (h : Ready hb c) (hbl : Blocked c.world.sender.sock)
    (hlt : c.now + (hb + 1) < 2 ^ 64) :
    ∃ c' k d, Onward strict m f hb c c' ∧ c'.now = c.now + (hb + 1) ∧
      c'.world.recver = c.world.recver ∧
      c'.world.sender.sock.sendingSeqNo = c.world.sender.sock.sendingSeqNo ∧
      c'.world.sender.sock.validSendingDataHead = c.world.sender.sock.validSendingDataHead ∧
      c.world.mcast.length ≤ k ∧ c'.world.mcast[k]? = some d ∧
      IsHb c.world.sender.sock.senderId c.world.sender.sock.sendingSeqNo
        c.world.sender.sock.validSendingDataHead d := by
  have hclock := h.clock
  have hsend := h.known.inv.window.sending_lt
  have hhead := h.known.inv.window.head_le
  obtain ⟨evs1, hx1, -⟩ := canSend_hb strict hbl c.now zero
  have hl1 : Later m f c (.canSend c.now zero .sent) := by
    refine ⟨trivial, fun t ht => ?_⟩
    cases ht
    exact Nat.le_refl _
  obtain ⟨ho1, hsock, r1, -⟩ := onward_sender h hl1 rfl hx1 h.known.kept
  set c1 := tick strict c (.canSend c.now zero .sent) with hc1
  have hbl1 : Blocked c1.world.sender.sock := by
    rw [hsock]
    exact hbl
  have hdue : HbTime c1.world.sender.sock (c.now + (hb + 1)) := by
    have hint := ho1.ready.known.hbInterval
    rw [← hint]
    refine hbTime_of_le ?_ ho1.ready.known.lastHbTime (by rw [hint]; exact hlt)
    rw [hsock]
    dsimp only
    split_ifs with h0
    · omega
    · exact h0
  obtain ⟨evs2, hx2, hevs2⟩ := canSend_hb strict hbl1 (c.now + (hb + 1)) zero
  rw [hevs2 hdue] at hx2
  have hl2 : Later m f c1 (.canSend (c.now + (hb + 1)) zero .sent) := by
    refine ⟨trivial, fun t ht => ?_⟩
    cases ht
    exact Nat.le_add_right _ _
  obtain ⟨ho2, s2, r2, m2⟩ := onward_sender ho1.ready hl2 rfl hx2 ho1.ready.known.kept
  refine ⟨_, c1.world.mcast.length, hbBytes zero c1.world.sender.sock.senderId
    c1.world.sender.sock.sendingSeqNo c1.world.sender.sock.validSendingDataHead, ho1.trans ho2, rfl,
    r2.trans r1, ?_, ?_, ho1.mcast.length_le, ?_, ?_⟩
  · rw [s2, hsock]
  · rw [s2, hsock]
  · rw [m2]
    exact List.getElem?_concat_length
  · rw [hsock]
    exact isHb_hbBytes zero _ (by omega) (by omega)

theorem asks (strict : Bool) (f : ℕ) (h : Ready hb c) (i : ι) {k l o : ℕ} {d : List UInt8}
    (hk : m ≤ k) (hd : c.world.mcast[k]? = some d) (hhb : IsHb c.world.sender.sock.senderId l o d)
    (hlt : taken c.world i < l) (hl : l < 2 ^ 64) :
    ∃ c' j d', Onward strict m f hb c c' ∧ c'.now = c.now ∧ c'.world.sender = c.world.sender ∧
      (∀ j, taken c'.world j = taken c.world j) ∧ c.world.feedback.length ≤ j ∧
      c'.world.feedback[j]? = some (i, d') ∧
      IsNak (taken c.world i + 1) l (c.world.recver i).sock.epid d' := by
  obtain ⟨t, ad, hx, hlat⟩ := input_hb (h.idle i) (h.known.inv.senderId i) hhb hlt anywhere zero
    zero
  have hla : Later m f c (.recv i (.packet k anywhere) zero zero .sent .sent) :=
    ⟨hk, fun t ht => by cases ht⟩
  obtain ⟨ho, hs, hr, hother, hfeed⟩ := onward_recver strict h hla
    (call_recv hd i anywhere zero zero .sent .sent) hx
  refine ⟨_, c.world.feedback.length,
    nakBytes zero (u64 ((c.world.recver i).sock.latestRecvedValidSeqNo + 1)) l
      (c.world.recver i).sock.epid, ho, rfl, hs, fun j => ?_, Nat.le_refl _, ?_, ?_⟩
  · unfold taken
    rcases eq_or_ne j i with rfl | hj
    · rw [hr]
      exact hlat
    · rw [hother j hj]
  · rw [hfeed]
    exact List.getElem?_concat_length
  · have hu : u64 ((c.world.recver i).sock.latestRecvedValidSeqNo + 1) = taken c.world i + 1 :=
      u64_of_lt (by unfold taken at hlt; omega)
    rw [hu]
    exact isNak_nakBytes zero (by omega) hl (h.known.inv.epid i)

/-- The sender sends again what is asked for, the first packet that is missing first. -/
theorem resends (strict : Bool) (m : ℕ) (h : Ready hb c) {i : ι} {j id : ℕ} {d : List UInt8}
    (hj : f ≤ j) (hd : c.world.feedback[j]? = some (i, d))
    (hnak : IsNak (taken c.world i + 1) c.world.sender.sock.sendingSeqNo id d)
    (hlt : taken c.world i < c.world.sender.sock.sendingSeqNo) :
    ∃ c' k d', Onward strict m f hb c c' ∧ c'.now = c.now ∧ c'.world.recver = c.world.recver ∧
      c'.world.sender.sock.sendingSeqNo = c.world.sender.sock.sendingSeqNo ∧
      c'.world.sender.sock.validSendingDataHead = c.world.sender.sock.validSendingDataHead ∧
      c.world.mcast.length ≤ k ∧ c'.world.mcast[k]? = some d' ∧
      ∃ pl, IsOdata (c'.world.recver i).sock.senderId (taken c'.world i + 1) pl d' := by
  obtain ⟨hhead, -, hsend⟩ := h.numbers i
  obtain ⟨t, evs, d', hx, hod, hseq, hh, -⟩ := feed_nak strict h.known.inv.window hnak
    (Nat.le_add_left 1 _) hhead hlt hsend h.few anywhere c.now zero
  have hl : Later m f c (.feed (.packet j anywhere) c.now zero fun _ => true) := by
    refine ⟨hj, fun t ht => ?_⟩
    cases ht
    exact Nat.le_refl _
  obtain ⟨ho, hs, hr, hm⟩ := onward_sender h hl
    (call_feed hd anywhere c.now zero fun _ => true) hx fun k => by
      rw [hh]
      exact h.known.kept k
  refine ⟨_, c.world.mcast.length, d', ho, rfl, hr, by rw [hs]; exact hseq, by rw [hs]; exact hh,
    Nat.le_refl _, ?_, payOf c.world.sender.accepted (taken c.world i + 1), ?_⟩
  · rw [hm]
    simp [sends, Ev.sent?]
  · unfold taken at hod ⊢
    rw [hr, h.known.inv.senderId i]
    exact hod

/-- **The next packet is taken**, with those that waited for it. -/
theorem takes_next (strict : Bool) (f : ℕ) (h : Ready hb c) {i : ι} {k : ℕ} {d pl : List UInt8}
    (hk : m ≤ k) (hd : c.world.mcast[k]? = some d)
    (hod : IsOdata (c.world.recver i).sock.senderId (taken c.world i + 1) pl d)
    (hlt : taken c.world i < c.world.sender.sock.sendingSeqNo) :
    ∃ c', Onward strict m f hb c c' ∧ c'.now = c.now ∧ c'.world.sender = c.world.sender ∧
      taken c.world i < taken c'.world i ∧ ∀ j, j ≠ i → taken c'.world j = taken c.world j := by
  have hsend := h.known.inv.window.sending_lt
  have hnext : (c.world.recver i).sock.latestRecvedValidSeqNo + 1 < 2 ^ 64 := by
    unfold taken at hlt
    omega
  obtain ⟨t, evs, hx⟩ := input_next (h.idle i) rfl hnext hod anywhere zero zero .sent
  have hl : Later m f c (.recv i (.packet k anywhere) zero zero .sent .sent) :=
    ⟨hk, fun t ht => by cases ht⟩
  obtain ⟨ho, hs, -, hother, -⟩ := onward_recver strict h hl
    (call_recv hd i anywhere zero zero .sent .sent) hx
  refine ⟨_, ho, rfl, hs, ?_, fun j hj => by unfold taken; rw [hother j hj]⟩
  -- everything up to the packet was handled, and the one above the new frontier was not
  set c' := tick strict c (.recv i (.packet k anywhere) zero zero .sent .sent) with hc'
  have hseen : (c'.world.recver i).seen = (taken c.world i + 1) :: (c.world.recver i).seen := by
    rw [hc', tick_world, step_of_recver (call_recv hd i anywhere zero zero .sent .sent)]
    simp only [onRecver_self, Delivery.step_ok (h.recver i) (congrArg Eff.res hx),
      number_odata hod anywhere zero zero .sent .sent]
    rfl
  have hbelow := (h.inOrder i).buf.frontier.below
  have hgap := (ho.ready.inOrder i).buf.frontier.gap
  by_contra hle
  refine hgap ?_
  show taken c'.world i + 1 ∈ (c'.world.recver i).seen
  rw [hseen, List.mem_cons]
  rcases Nat.lt_or_ge (taken c'.world i) (taken c.world i) with hlt' | hge
  · exact Or.inr (hbelow _ (by omega) hlt')
  · left
    omega

/-- **A missing packet gets through**, with nothing more to be sent. -/
theorem recovers (strict : Bool) (h : Ready hb c) (hbl : Blocked c.world.sender.sock) {i : ι}
    (hlt : taken c.world i < c.world.sender.sock.sendingSeqNo)
    (hclock : c.now + (hb + 1) < 2 ^ 64) (hm : m ≤ c.world.mcast.length)
    (hf : f ≤ c.world.feedback.length) :
    ∃ c', Onward strict m f hb c c' ∧ c'.now = c.now + (hb + 1) ∧
      c'.world.sender.sock.sendingSeqNo = c.world.sender.sock.sendingSeqNo ∧
      c'.world.sender.sock.validSendingDataHead = c.world.sender.sock.validSendingDataHead ∧
      taken c.world i < taken c'.world i ∧ ∀ j, j ≠ i → taken c'.world j = taken c.world j := by
  have hsend := h.known.inv.window.sending_lt
  obtain ⟨c1, k1, d1, o1, n1, r1, s1, e1, hk1, hd1, hhb⟩ := announces strict m f h hbl hclock
  have hlat1 : ∀ j, taken c1.world j = taken c.world j := by
    intro j
    unfold taken
    rw [r1]
  have hid1 : c1.world.sender.sock.senderId = c.world.sender.sock.senderId := by
    rw [← o1.ready.known.inv.senderId i, ← h.known.inv.senderId i, r1]
  obtain ⟨c2, j, d2, o2, n2, r2, l2, hj, hd2, hnak⟩ := asks strict f o1.ready i
    (Nat.le_trans hm hk1) hd1 (by rw [hid1]; exact hhb) (by rw [hlat1]; exact hlt) (by omega)
  have hnak2 : IsNak (taken c2.world i + 1) c2.world.sender.sock.sendingSeqNo
      (c1.world.recver i).sock.epid d2 := by
    rw [l2, r2, s1]
    exact hnak
  obtain ⟨c3, k3, d3, o3, n3, r3, s3, e3, hk3, hd3, pl, hod⟩ := resends strict m o2.ready
    (Nat.le_trans hf (Nat.le_trans o1.feedback.length_le hj)) hd2 hnak2
    (by rw [l2, r2, s1, hlat1]; exact hlt)
  have hlat3 : ∀ j, taken c3.world j = taken c2.world j := by
    intro j
    unfold taken
    rw [r3]
  have hm3 : m ≤ k3 := by
    have h1 := o1.mcast.length_le
    have h2 := o2.mcast.length_le
    omega
  obtain ⟨c4, o4, n4, r4, hlt4, hother⟩ := takes_next strict f o3.ready hm3 hd3 hod
    (by rw [hlat3, s3, l2, r2, s1, hlat1]; exact hlt)
  refine ⟨c4, ((o1.trans o2).trans o3).trans o4, ?_, ?_, ?_, ?_, fun j hj => ?_⟩
  · rw [n4, n3, n2, n1]
  · rw [r4, s3, r2, s1]
  · rw [r4, e3, r2, e1]
  · rw [hlat3, l2, hlat1] at hlt4
    exact hlt4
  · rw [hother j hj, hlat3, l2, hlat1]

/-! ### A window that is closed -/

/-- The timer of a receiver says what it has: in the second of two calls, since the first may only
store the time. -/
theorem acks (strict : Bool) (m f : ℕ) (h : Ready hb c) (i : ι) (hpos : 0 < taken c.world i)
    (hlt : c.now + (sendAckInterval + 1) < 2 ^ 64) :
    ∃ c' j d, Onward strict m f hb c c' ∧ c'.now = c.now + (sendAckInterval + 1) ∧
      c'.world.sender = c.world.sender ∧ (∀ j, taken c'.world j = taken c.world j) ∧
      (c'.world.recver i).sock.epid = (c.world.recver i).sock.epid ∧
      c.world.feedback.length ≤ j ∧ c'.world.feedback[j]? = some (i, d) ∧
      IsAck (taken c.world i) (c.world.recver i).sock.epid d := by
  have hclock := h.clock
  obtain ⟨t1, evs1, hx1, hsame1, -⟩ := timer_sent (c.world.recver i).sock c.now zero
  have hl1 : Later m f c (.timer i c.now zero .sent .sent) := by
    refine ⟨trivial, fun t ht => ?_⟩
    cases ht
    exact Nat.le_refl _
  obtain ⟨ho1, s1, r1, hother1, -⟩ := onward_recver strict h hl1 rfl hx1
  set c1 := tick strict c (.timer i c.now zero .sent .sent) with hc1
  have hlat1 : ∀ j, taken c1.world j = taken c.world j := by
    intro j
    unfold taken
    rcases eq_or_ne j i with rfl | hj
    · rw [r1]
      exact hsame1.latest
    · rw [hother1 j hj]
  have hstored : (c1.world.recver i).sock.lastSendAckTime ≠ 0 := by
    have hstamp := recv_stamp (.timer c.now zero .sent .sent) (by rw [hx1])
    rw [r1]
    rcases hstamp with heq | ⟨heq, hne⟩
    · omega
    · rw [heq]
      exact hne
  have hdue : AckDue (c1.world.recver i).sock (c.now + (sendAckInterval + 1)) :=
    ackDue_of_le hstored (ho1.ready.known.lastSendAckTime i)
      (by have := hlat1 i; unfold taken at this hpos; omega) hlt
  obtain ⟨t2, evs2, hx2, hsame2, hack⟩ := timer_sent (c1.world.recver i).sock
    (c.now + (sendAckInterval + 1)) zero
  obtain ⟨evs3, rfl⟩ := hack hdue
  have hl2 : Later m f c1 (.timer i (c.now + (sendAckInterval + 1)) zero .sent .sent) := by
    refine ⟨trivial, fun t ht => ?_⟩
    cases ht
    exact Nat.le_add_right _ _
  obtain ⟨ho2, s2, r2, hother2, b2⟩ := onward_recver strict ho1.ready hl2 rfl hx2
  refine ⟨_, c1.world.feedback.length,
    ackBytes zero (c1.world.recver i).sock.latestRecvedValidSeqNo
      (c1.world.recver i).sock.epid, ho1.trans ho2, rfl, s2.trans s1, fun j => ?_, ?_,
    ho1.feedback.length_le, ?_, ?_⟩
  · rw [← hlat1 j]
    unfold taken
    rcases eq_or_ne j i with rfl | hj
    · rw [r2]
      exact hsame2.latest
    · rw [hother2 j hj]
  · rw [r2, hsame2.epid, r1, hsame1.epid]
  · rw [b2]
    simp [sends, Ev.sent?]
  · have hlast := h.known.inv.window.sending_lt
    have hle := (h.numbers i).2.1
    have hlat := hlat1 i
    unfold taken at hlat hle ⊢
    rw [hlat, r1, hsame1.epid]
    exact isAck_ackBytes zero (by omega) (h.known.inv.epid i)

theorem raises (strict : Bool) (m : ℕ) (h : Ready hb c) {i : ι} {j S : ℕ} {d : List UInt8}
    (hall : ∀ k, taken c.world k = S) (hj : f ≤ j) (hd : c.world.feedback[j]? = some (i, d))
    (hack : IsAck S (c.world.recver i).sock.epid d)
    (hnew : c.world.sender.sock.validSendingDataHead ≤ S) :
    ∃ c', Onward strict m f hb c c' ∧ c'.now = c.now ∧ c'.world.recver = c.world.recver ∧
      c'.world.sender.sock.sendingSeqNo = c.world.sender.sock.sendingSeqNo ∧
      c'.world.sender.sock.validSendingDataHead ≤ S + 1 ∧
      behind S c'.world.sender.sock.mapRecvers ≤ behind S (ackTable S (c.world.recver i).sock.epid
        c.now (c.world.sender.sock.table (c.world.recver i).sock.epid)) ∧
      (behind S (ackTable S (c.world.recver i).sock.epid c.now
          (c.world.sender.sock.table (c.world.recver i).sock.epid)) = 0 →
        c'.world.sender.sock.validSendingDataHead = S + 1) := by
  have hlast := h.known.inv.window.sending_lt
  have hle := (h.numbers i).2.1
  rw [hall i] at hle
  have hbelow : Below S c.world.sender.sock.mapRecvers := by
    intro e he
    obtain ⟨k, -, hk⟩ := h.known.credited e he
    rwa [hall k] at hk
  obtain ⟨t, hx, hseq, hhead, hbehind, hraise⟩ := feed_ack strict h.known.inv.window hbelow hack
    hnew (by omega) anywhere c.now zero fun _ => true
  have hl : Later m f c (.feed (.packet j anywhere) c.now zero fun _ => true) := by
    refine ⟨hj, fun t ht => ?_⟩
    cases ht
    exact Nat.le_refl _
  obtain ⟨ho, hs, hr, -⟩ := onward_sender h hl
    (call_feed hd anywhere c.now zero fun _ => true) hx fun k => by
      rw [hall k]
      exact hhead
  refine ⟨_, ho, rfl, hr, ?_, ?_, ?_, ?_⟩
  all_goals rw [hs]
  · exact hseq
  · exact hhead
  · exact hbehind
  · exact hraise

/-- One receiver repeats its ack when all have all that was sent: the head is raised, or fewer
entries lag. -/
theorem acknowledges [Nonempty ι] (strict : Bool) (m : ℕ) (h : Ready hb c) {S : ℕ} (hpos : 0 < S)
    (hall : ∀ i, taken c.world i = S) (hnew : c.world.sender.sock.validSendingDataHead ≤ S)
    (hlt : c.now + (sendAckInterval + 1) < 2 ^ 64) (hf : f ≤ c.world.feedback.length) :
    ∃ c', Onward strict m f hb c c' ∧ c'.now = c.now + (sendAckInterval + 1) ∧
      c'.world.sender.sock.sendingSeqNo = c.world.sender.sock.sendingSeqNo ∧
      (∀ i, taken c'.world i = S) ∧
      (c'.world.sender.sock.validSendingDataHead = S + 1 ∨
        c'.world.sender.sock.validSendingDataHead ≤ S ∧
          behind S c'.world.sender.sock.mapRecvers < behind S c.world.sender.sock.mapRecvers ∧
          1 < behind S c.world.sender.sock.mapRecvers) := by
  -- the receiver of an entry that lags, or any if none does
  obtain ⟨i, hi⟩ : ∃ i, ∀ now, behind S (ackTable S (c.world.recver i).sock.epid now
      (c.world.sender.sock.table (c.world.recver i).sock.epid)) = 0 ∨
      behind S (ackTable S (c.world.recver i).sock.epid now
        (c.world.sender.sock.table (c.world.recver i).sock.epid)) <
        behind S c.world.sender.sock.mapRecvers := by
    by_cases h0 : behind S c.world.sender.sock.mapRecvers = 0
    · obtain ⟨i⟩ := ‹Nonempty ι›
      refine ⟨i, fun now => Or.inl ?_⟩
      have hle := (behind_acked h.known.keyed S (c.world.recver i).sock.epid now).1
      omega
    · obtain ⟨⟨id, x⟩, he, hlt⟩ := exists_of_behind h0
      obtain ⟨i, hid, -⟩ := h.known.credited _ he
      refine ⟨i, fun now => Or.inr ?_⟩
      exact (behind_acked h.known.keyed S (c.world.recver i).sock.epid now).2 x
        (by rw [hid]; exact he) hlt
  obtain ⟨c1, j, d, o1, n1, s1, l1, hid, hj, hd, hack⟩ := acks strict m f h i
    (by rw [hall]; exact hpos) hlt
  have hall1 : ∀ k, taken c1.world k = S := fun k => (l1 k).trans (hall k)
  rw [hall, ← hid] at hack
  obtain ⟨c2, o2, n2, r2, q2, h2, b2, hraise⟩ := raises strict m o1.ready hall1
    (Nat.le_trans hf hj) hd hack (by rw [s1]; exact hnew)
  refine ⟨c2, o1.trans o2, n2.trans n1, by rw [q2, s1], fun k => ?_, ?_⟩
  · rw [← hall1 k]
    unfold taken
    rw [r2]
  · rw [s1, hid] at b2 hraise
    rcases hi c1.now with h0 | hless
    · exact Or.inl (hraise h0)
    · by_cases h0 : behind S (ackTable S (c.world.recver i).sock.epid c1.now
          (c.world.sender.sock.table (c.world.recver i).sock.epid)) = 0
      · exact Or.inl (hraise h0)
      · by_cases htop : c2.world.sender.sock.validSendingDataHead = S + 1
        · exact Or.inl htop
        · exact Or.inr ⟨by omega, by omega, by omega⟩

/-- **What all receivers have is acknowledged**, by at most as many acks as entries lag. -/
theorem opens [Nonempty ι] (strict : Bool) (m : ℕ) {S : ℕ} (hpos : 0 < S) (n : ℕ) :
    ∀ {c : Clocked ι}, Ready hb c → (∀ i, taken c.world i = S) →
      c.world.sender.sock.validSendingDataHead ≤ S →
      behind S c.world.sender.sock.mapRecvers ≤ n + 1 →
      c.now + (n + 1) * (sendAckInterval + 1) < 2 ^ 64 → f ≤ c.world.feedback.length →
      ∃ c', Onward strict m f hb c c' ∧ c'.now ≤ c.now + (n + 1) * (sendAckInterval + 1) ∧
        c'.world.sender.sock.sendingSeqNo = c.world.sender.sock.sendingSeqNo ∧
        (∀ i, taken c'.world i = S) ∧ c'.world.sender.sock.validSendingDataHead = S + 1 := by
  induction n with
  | zero =>
    intro c h hall hnew hbehind hclock hf
    obtain ⟨c1, o1, n1, q1, l1, hhead | ⟨-, -, hmore⟩⟩ := acknowledges strict m h hpos hall hnew
      (by omega) hf
    · exact ⟨c1, o1, by omega, q1, l1, hhead⟩
    · omega
  | succ n ih =>
    intro c h hall hnew hbehind hclock hf
    rw [Nat.succ_mul] at hclock ⊢
    obtain ⟨c1, o1, n1, q1, l1, hhead | ⟨hnew1, hless, -⟩⟩ := acknowledges strict m h hpos hall hnew
      (by omega) hf
    · exact ⟨c1, o1, by omega, q1, l1, hhead⟩
    · obtain ⟨c2, o2, n2, q2, l2, h2⟩ := ih o1.ready l1 hnew1 (by omega) (by omega)
        (Nat.le_trans hf o1.feedback.length_le)
      exact ⟨c2, o1.trans o2, by omega, q2.trans q1, l2, h2⟩

/-! ### All of them -/

/-- The clock time that one packet may cost for each receiver. -/
def lapse (hb : ℕ) : ℕ := hb + sendAckInterval + 2

variable [Fintype ι] [Nonempty ι]

/-- **One more packet** is sent, taken or acknowledged. -/
theorem advance (strict : Bool) (h : Ready hb c) (hno : ¬ Settled c.world)
    (hclock : c.now + Fintype.card ι * lapse hb < 2 ^ 64) (hm : m ≤ c.world.mcast.length)
    (hf : f ≤ c.world.feedback.length) :
    ∃ c', Onward strict m f hb c c' ∧ owed c'.world < owed c.world ∧
      c'.now ≤ c.now + Fintype.card ι * lapse hb := by
  obtain ⟨i0⟩ := ‹Nonempty ι›
  have hlast := h.known.inv.window.sending_lt
  have hsend := h.known.inv.window.sending_le
  have htail := h.known.inv.window.tail_eq h.few
  obtain ⟨n, hn⟩ : ∃ n, Fintype.card ι = n + 1 :=
    ⟨Fintype.card ι - 1, by have := Fintype.card_pos (α := ι); omega⟩
  rw [hn] at hclock ⊢
  have hcost : hb + 1 ≤ (n + 1) * lapse hb ∧
      (n + 1) * (sendAckInterval + 1) ≤ (n + 1) * lapse hb := by
    unfold lapse
    refine ⟨?_, Nat.mul_le_mul_left _ (by omega)⟩
    rw [Nat.succ_mul]
    omega
  by_cases hbl : Blocked c.world.sender.sock
  · by_cases hmiss : ∃ i, taken c.world i < c.world.sender.sock.sendingSeqNo
    · obtain ⟨i, hlt⟩ := hmiss
      obtain ⟨c', o, hnow, s, e, hmore, hother⟩ := recovers strict h hbl hlt (by omega) hm hf
      have hsum : ∑ j, (c'.world.sender.accepted.length - taken c'.world j) <
          ∑ j, (c.world.sender.accepted.length - taken c.world j) := by
        rw [o.accepted]
        refine Finset.sum_lt_sum (fun j _ => ?_) ⟨i, Finset.mem_univ i, by omega⟩
        rcases eq_or_ne j i with rfl | hj
        · omega
        · rw [hother j hj]
      refine ⟨c', o, ?_, by omega⟩
      unfold owed
      rw [s, e]
      rw [o.accepted] at hsum ⊢
      omega
    · -- all that was sent has arrived, and so the window is closed or there is nothing more
      have hall : ∀ i, taken c.world i = c.world.sender.sock.sendingSeqNo := fun i =>
        Nat.le_antisymm (h.numbers i).2.1 (Nat.not_lt.mp fun hlt => hmiss ⟨i, hlt⟩)
      have hgap : c.world.sender.sock.validSendingDataHead ≤ c.world.sender.sock.sendingSeqNo ∧
          0 < c.world.sender.sock.sendingSeqNo := by
        have hhead := h.known.kept i0
        rw [hall i0] at hhead
        unfold Blocked at hbl
        rw [u64_of_lt (by omega), htail, sub64_of_le (by omega)
          h.known.inv.window.head_le] at hbl
        unfold Settled at hno
        unfold sendWinSize at hbl
        by_contra hcon
        refine hno ?_
        rcases hbl with hbl | hbl
        · omega
        · refine ⟨fun i => by rw [hall i]; omega, ?_⟩
          rcases Nat.eq_zero_or_pos c.world.sender.sock.sendingSeqNo with h0 | h0
          · left
            omega
          · right
            omega
      have hlen := Members.length_le h.known.keyed fun e he =>
        (h.known.credited e he).imp fun _ hk => hk.1
      have hbehind := behind_le_length c.world.sender.sock.sendingSeqNo
        c.world.sender.sock.mapRecvers
      obtain ⟨c', o, hnow, s, l, e⟩ := opens strict m hgap.2 n h hall hgap.1 (by omega) (by omega)
        hf
      have hsum : ∑ j, (c'.world.sender.accepted.length - taken c'.world j) =
          ∑ j, (c.world.sender.accepted.length - taken c.world j) := by
        rw [o.accepted]
        exact Finset.sum_congr rfl fun j _ => by rw [l j, hall j]
      refine ⟨c', o, ?_, by omega⟩
      unfold owed
      rw [hsum, o.accepted, s, e]
      omega
  · obtain ⟨c', o, hnow, r, s, e⟩ := sends_next strict m f h hbl
    have hsend' := o.ready.known.inv.window.sending_le
    have hacc := o.accepted
    refine ⟨c', o, ?_, by omega⟩
    unfold owed taken
    rw [r, e, s, hacc]
    rw [s, hacc] at hsend'
    omega

omit [DecidableEq ι] [Fintype ι] [Nonempty ι] in
theorem Ready.delivered (h : Ready hb c) (hset : Settled c.world) (i : ι) :
    (c.world.recver i).delivered = c.world.sender.accepted.map some := by
  have hlat := hset.1 i
  unfold taken at hlat
  rw [((h.known.sound i).alive (h.recver i)).2]
  refine List.IsPrefix.eq_of_length ( payloads_prefix (Nat.le_of_eq hlat)) ?_
  unfold payloads
  rw [List.length_map, length_numbers, List.length_map, hlat]

end SmartNet.Network.Rmp.Recovery

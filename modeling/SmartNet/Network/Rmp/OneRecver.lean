import SmartNet.Network.Rmp.Multicast

/-! # A group with one receiver

When the receiver is the only member of the group, the head of the send window is never more than
one above what the receiver has, and so no packet under way is far above it.

* `One K w`: the sender is at most `K` packets ahead of the receiver;
* `delivered_prefix`: the receiver hands out a prefix of what the sender accepted;
* `within_window`: the packets sent fit the reorder buffer, in runs in which the last slot of the
  send window is not used before the head is acknowledged, and `beyond_window` is a run in which it
  is. -/

namespace SmartNet.Network.Rmp.OneRecver

open SmartNet.Common SmartNet.Lib SmartNet.Lib.Frontier SmartNet.Lib.Run SmartNet.Memory.MemBlock
open SmartNet.Network.Udp SmartNet.Network.Rmp.Wire SmartNet.Network.Rmp.Recvep
open SmartNet.Network.Rmp.RecvRun
open SmartNet.Network.Rmp.Feedback SmartNet.Network.Rmp.Delivery SmartNet.Network.Rmp.Sendep
open SmartNet.Network.Rmp.SendWin SmartNet.Network.Rmp.SendCalls SmartNet.Network.Rmp.SendRun
open SmartNet.Network.Rmp.Multicast

/-- `m_ui64LatestRecvedValidSeqNo` of the receiver. -/
def latest (w : World Unit) : ℕ := (w.recver ()).sock.latestRecvedValidSeqNo

structure One (K : ℕ) (w : World Unit) : Prop where
  credited : Below (latest w) w.sender.sock.mapRecvers
  head : w.sender.sock.validSendingDataHead ≤ latest w + 1
  ahead : w.sender.sock.sendingSeqNo ≤ latest w + K
  sound : Sound (payOf w.sender.accepted) K (w.recver ())

/-- The last packet the send window allows is not sent before the packet at its head is known to
have arrived: with the head one above what the receiver has, `handle_can_send` does not go
`__SEND_WIN_SIZE__ / 10` above the head. -/
def WithinReach (w : World Unit) (a : WorldAct Unit) : Prop :=
  ∀ now stack, a = .canSend now stack .sent → w.sender.fault = none → ¬ Blocked w.sender.sock →
    w.sender.sock.validSendingDataHead = latest w + 1 →
    w.sender.sock.sendingSeqNo + 1 ≠ w.sender.sock.validSendingDataHead + sendWinSize / 10

variable {w : World Unit} {K : ℕ} {strict : Bool}

theorem one_init (mc : SockAddr) (sid : UInt8) (alive speed hb : ℕ) (cnt : Unit → ℕ)
    (bound : Unit → SockAddr) :
    One K (Multicast.init mc sid alive speed hb cnt bound) := by
  refine ⟨fun e he => ?_, Nat.zero_le _, Nat.zero_le _, sound_init sid (cnt ()) (bound ())⟩
  cases he

theorem ack_le_latest (h : WorldInv w) {a : WorldAct Unit} {src : SockAddr}
    {d : List UInt8} {now : ℕ} {fresh : ℕ → UInt8} {sent : ℕ → Bool}
    (hc : a.call w = .inl (.input (.dgram src d) now fresh sent))
    {seq id : ℕ} (hd : IsAck seq id d) : seq ≤ latest w := by
  obtain ⟨⟨⟩, -, -, hs⟩ := feed_source h hc
  rcases hs with ⟨q, hq, -, hle⟩ | ⟨b, e, hn, -⟩
  · have heq : seq = q := hd.seq.symm.trans hq.seq
    rw [heq]; exact hle
  · exact absurd (hd.op.symm.trans hn.op) (by decide)

theorem sender_one (h : WorldInv w) (ho : One K w)
    (hK : unorderedPkgsCnt ≤ K ∧ K ≤ unorderedPkgsCnt + 1) {a : WorldAct Unit} {c : SendAct}
    (hc : a.call w = .inl c) (hreach : K = unorderedPkgsCnt → WithinReach w a) :
    One K (onSender strict w c) := by
  have hlt := h.window.sending_lt
  have hle := h.window.sending_le
  have hlat := (h.tame ()).latest
  rcases step_cases strict h.window (feed_of_inv h hc) with
    ⟨-, hst, hout⟩ | ⟨-, f, -, hst, hout⟩ | ⟨halive, t, l, -, hst, hmv, hout⟩
  · have heq : onSender strict w c = w := by
      unfold onSender
      rw [hst, hout, List.append_nil]
    rw [heq]; exact ho
  · unfold onSender
    rw [hst]
    exact ⟨ho.credited, ho.head, ho.ahead, ho.sound⟩
  · have hack : ∀ src d now fresh sent, c = .input (.dgram src d) now fresh sent →
        ∀ seq id, IsAck seq id d → seq ≤ latest w := by
      rintro src d now fresh sent rfl seq id hd
      exact ack_le_latest h hc hd
    unfold onSender
    rw [hst]
    refine ⟨?_, ?_, ?_, ?_⟩
    · exact hmv.takes.credited (P := fun _ n => n ≤ latest w)
        (fun _ => Nat.zero_le _) ho.credited hack
    · exact hmv.takes.head_le (B := latest w) ho.credited (by unfold latest; omega) hack ho.head
    · show t.sendingSeqNo ≤ latest w + K
      have hah := ho.ahead
      have hhd := ho.head
      rcases hmv.sending with hs | ⟨hs, -, hopen, hbl, now, stack, rfl⟩
      · omega
      · have hN : sendWinSize / 10 = unorderedPkgsCnt := rfl
        rw [hN] at hopen
        rcases Nat.lt_or_ge unorderedPkgsCnt K with hlt' | hge
        · omega
        · have hca : a = .canSend now stack .sent := call_canSend hc
          have hne := hreach (by omega) now stack hca halive hbl
          rw [hN] at hne
          omega
    · refine Sound.congr ho.sound fun q hq => ?_
      have hseen := h.seen () q hq
      exact payOf_append hseen.1 (by omega)

theorem recver_one (h : WorldInv w) (ho : One K w)
    (hK : unorderedPkgsCnt ≤ K ∧ K ≤ unorderedPkgsCnt + 1) {a : WorldAct Unit} {c : RecvAct}
    (hc : a.call w = .inr ((), c)) :
    One K (onRecver w () c) ∧ (K = unorderedPkgsCnt → (w.recver ()).fault ≠ some .beyondLimitation →
      ((onRecver w () c).recver ()).fault ≠ some .beyondLimitation) := by
  have hlt := h.window.sending_lt
  have hle := h.window.sending_le
  obtain ⟨hon, hup⟩ := honest_of_inv h hc
  obtain ⟨-, hmono, -, -⟩ := recver_step hon (h.senderId ()) hup (h.tame ()) hlt (h.epid ())
  have hself := onRecver_self w () c
  have hnum : ∀ q, c.number = some q → 1 ≤ q ∧ q ≤ w.sender.sock.sendingSeqNo := fun q hq =>
    number_bounds hon hup hq
  have hnear : (w.recver ()).fault = none →
      Near (payOf w.sender.accepted) K {q | q ∈ (w.recver ()).seen} (w.recver ()).sock c := by
    intro _ q hq
    obtain ⟨h1, h2⟩ := hnum q hq
    have hah := ho.ahead
    unfold latest at hah
    exact ⟨fun _ => by omega, fun _ => ⟨by omega, payOf_ne_nil h.filled h1 (by omega)⟩⟩
  obtain ⟨hsound, hend⟩ := step_sound ho.sound (by omega) (h.senderId ()) hon hnear
  have hlat : latest w ≤ latest (onRecver w () c) := by
    unfold latest
    rw [hself]; exact hmono
  refine ⟨⟨?_, ?_, ?_, ?_⟩, fun hKN hf hf' => ?_⟩
  · exact fun e he => Nat.le_trans (ho.credited e he) hlat
  · exact Nat.le_trans ho.head (Nat.succ_le_succ hlat)
  · exact Nat.le_trans ho.ahead (Nat.add_le_add_right hlat K)
  · rw [hself]; exact hsound
  · rw [hself] at hf'
    rcases hfp : (w.recver ()).fault with _ | f
    · rcases hend _ hfp hf' with (h1 | h1) | h1 | ⟨q, hq, ⟨-, -, hgt⟩ | ⟨h1, -⟩⟩
      · cases h1
      · cases h1
      · cases h1
      · have hah := ho.ahead
        have := hnum q hq
        unfold latest at hah
        omega
      · cases h1
    · rw [step_dead (by rw [hfp]; exact Option.some_ne_none f)] at hf'
      exact hf hf'

theorem one_congr {v : World Unit} (ho : One K w) (h1 : v.sender = w.sender)
    (h2 : v.recver = w.recver) :
    One K v := by
  obtain ⟨g1, g2, g3, g4⟩ := ho
  unfold latest at g1 g2 g3
  rw [← h1, ← h2] at g1 g2 g3 g4
  exact ⟨g1, g2, g3, g4⟩

/-- **Every step** leaves the sender close to the receiver. -/
theorem step_one (strict : Bool) (h : WorldInv w) (ho : One K w)
    (hK : unorderedPkgsCnt ≤ K ∧ K ≤ unorderedPkgsCnt + 1) (a : WorldAct Unit)
    (hreach : K = unorderedPkgsCnt → WithinReach w a) :
    One K (Multicast.step strict w a) := by
  rcases hc : a.call w with c | ⟨⟨⟩, c⟩
  · rw [step_of_sender hc]
    exact one_congr (sender_one h ho hK hc hreach) rfl rfl
  · rw [step_of_recver hc]
    exact one_congr (recver_one h ho hK hc).1 rfl rfl

theorem emits_le (h : WorldInv w) (a : WorldAct Unit) (ho : One K (Multicast.step strict w a)) :
    ∀ d ∈ emits strict w a, opcode d = epData → word 0 d ≤ latest w + K := by
  intro d hd hop
  unfold emits at hd
  rcases hc : a.call w with c | ⟨i, c⟩
  · simp only [hc] at hd
    have hah : (SendRun.step strict w.sender c).sock.sendingSeqNo ≤ latest w + K := by
      have := ho.ahead
      rw [step_of_sender hc] at this
      exact this
    rcases step_cases strict h.window (feed_of_inv h hc) with
      ⟨-, -, hout⟩ | ⟨-, f, -, -, hout⟩ | ⟨-, t, l, -, hst, -, hout⟩
    · rw [hout] at hd; cases hd
    · rw [hout] at hd; cases hd
    · rw [hst] at hah
      rcases hout d hd with ⟨q, -, hq, hod⟩ | ⟨l', o, hhb, -⟩
      · rw [hod.seq]
        exact Nat.le_trans hq hah
      · exact absurd (hop.symm.trans hhb.op) (by decide)
  · simp only [hc] at hd
    cases hd

/-! ### What the receiver hands out -/

theorem payloads_prefix {accepted : List (List UInt8)} {L : ℕ} (hL : L ≤ accepted.length) :
    payloads (payOf accepted) L <+: accepted.map some := by
  have heq : payloads (payOf accepted) L = (accepted.take L).map some := by
    refine List.ext_getElem? fun i => ?_
    unfold payloads numbers payOf
    rcases Nat.lt_or_ge i L with hi | hi
    · have hacc : i < accepted.length := by omega
      simp [hi, hacc]
    · simp [hi]
  rw [heq]
  exact (List.take_prefix L accepted).map some

/-- **Reliable multicast**: at every moment of every run, the receiver has handed out a prefix of
the payloads that the sender accepted. -/
theorem delivered_prefix (strict : Bool) (mc : SockAddr) (sid : UInt8) (alive speed hb : ℕ)
    (cnt : Unit → ℕ) (bound : Unit → SockAddr) (as : List (WorldAct Unit))
    (hfew : Few (run (Multicast.step strict) (Multicast.init mc sid alive speed hb cnt bound) as)) :
    ((run (Multicast.step strict) (Multicast.init mc sid alive speed hb cnt bound) as).recver
      ()).delivered <+:
      (run (Multicast.step strict)
        (Multicast.init mc sid alive speed hb cnt bound) as).sender.accepted.map some := by
  obtain ⟨h, ho⟩ := run_inv (I := fun w => WorldInv w ∧ One (unorderedPkgsCnt + 1) w) few_step
    (fun w a hI hB => ⟨step_inv w a hI.1 hB, step_one strict hI.1 hI.2 (by omega) a (by omega)⟩)
    ⟨inv_init mc sid alive speed hb cnt bound, one_init mc sid alive speed hb cnt bound⟩ hfew
  set w := run (Multicast.step strict) (Multicast.init mc sid alive speed hb cnt bound) as
  obtain ⟨L, -, hseen, hdel⟩ := ho.sound.handed
  rw [hdel]
  refine payloads_prefix ?_
  rcases Nat.eq_zero_or_pos L with h0 | h0
  · omega
  · have := (h.seen () L (hseen L h0 (Nat.le_refl L))).2
    have := h.window.sending_le
    omega

/-- A block with one byte. -/
def byteBlock : Payload := ⟨⟨fun _ => 0, 16, 16, 1⟩, by show 16 + 1 ≤ _; decide, by decide⟩

def sendOne : WorldAct Unit := .send byteBlock

def canSendOne : WorldAct Unit := .canSend 0 (fun _ => 0) .sent

/-- Packet 1 is sent and acknowledged. -/
def firstAcked : List (WorldAct Unit) :=
  [sendOne, canSendOne, .recv () (.packet 0 ⟨1, 1⟩) (fun _ => 0) (fun _ => 0) .sent .sent,
    .feed (.packet 0 ⟨1, 2⟩) 0 (fun _ => 0) fun _ => true]

/-- The group in the concrete runs. -/
def group : World Unit := Multicast.init ⟨1, 1⟩ 7 1000000 0 0 (fun _ => 1) fun _ => ⟨1, 2⟩

theorem delivered_prefix_one :
    ((run (Multicast.step true) group firstAcked).recver ()).delivered <+:
      (run (Multicast.step true) group firstAcked).sender.accepted.map some :=
  delivered_prefix true ⟨1, 1⟩ 7 1000000 0 0 (fun _ => 1)
    (fun _ => ⟨1, 2⟩) firstAcked (by unfold Few; decide)

/-! ### What fits the reorder buffer -/

/-- The packets the sender sends in a step are at most the size of the reorder buffer above what the
receiver has. -/
def FitsWindow (strict : Bool) (w : World Unit) (a : WorldAct Unit) : Prop :=
  ∀ d ∈ emits strict w a, opcode d = epData → word 0 d ≤ latest w + unorderedPkgsCnt

/-- A packet under way that shares its slot with one that waits is that packet. -/
def NoClash (w : World Unit) : Prop :=
  ∀ r ∈ waiting {q | q ∈ (w.recver ()).seen} (latest w), ∀ d ∈ w.mcast, opcode d = epData →
    latest w < word 0 d →
    r % unorderedPkgsCnt = word 0 d % unorderedPkgsCnt → r = word 0 d

theorem noClash (h : WorldInv w) (ho : One unorderedPkgsCnt w) : NoClash w := by
  intro r hr d hd hop hlt hmod
  have hah := ho.ahead
  have h2 : latest w < r := hr.2
  have h3 := h.seen () r hr.1
  rcases h.mcast d hd with ⟨q, -, hq, hod⟩ | ⟨l, o, hhb, -⟩
  · rw [hod.seq] at hlt hmod ⊢
    exact Ring.mod_inj (a := latest w + 1) (by omega) (by omega) (by omega) (by omega) hmod
  · exact absurd (hop.symm.trans hhb.op) (by decide)

/-- **The two windows fit**, in runs in which the sender does not use the last slot before its head
has arrived: every packet it sends is in the reach of the reorder buffer, whose limit is never met,
and no two packets meet in one slot. -/
theorem within_window (strict : Bool) (mc : SockAddr) (sid : UInt8) (alive speed hb : ℕ)
    (cnt : Unit → ℕ) (bound : Unit → SockAddr) (as : List (WorldAct Unit))
    (hfew : Few (run (Multicast.step strict) (Multicast.init mc sid alive speed hb cnt bound) as))
    (hreach : Meets (Multicast.step strict) WithinReach
      (Multicast.init mc sid alive speed hb cnt bound) as) :
    Meets (Multicast.step strict) (FitsWindow strict)
      (Multicast.init mc sid alive speed hb cnt bound) as ∧
      ((run (Multicast.step strict)
        (Multicast.init mc sid alive speed hb cnt bound) as).recver ()).fault ≠
          some .beyondLimitation ∧
      NoClash (run (Multicast.step strict)
        (Multicast.init mc sid alive speed hb cnt bound) as) := by
  have hK : unorderedPkgsCnt ≤ unorderedPkgsCnt ∧ unorderedPkgsCnt ≤ unorderedPkgsCnt + 1 := by
    omega
  obtain ⟨⟨h, ho, hf⟩, hfit⟩ := run_inv_meets
    (I := fun w => WorldInv w ∧ One unorderedPkgsCnt w ∧
      (w.recver ()).fault ≠ some .beyondLimitation)
    (D := FitsWindow strict) few_step
    (fun w a hI hc hB => by
      obtain ⟨h, ho, hf⟩ := hI
      have ho' := step_one strict h ho hK a fun _ => hc
      refine ⟨⟨step_inv w a h hB, ho', ?_⟩, emits_le h a ho'⟩
      rcases hcall : a.call w with c | ⟨⟨⟩, c⟩
      · rw [step_of_sender hcall]
        exact hf
      · rw [step_of_recver hcall]
        exact (recver_one h ho hK hcall).2 rfl hf)
    ⟨inv_init mc sid alive speed hb cnt bound, one_init mc sid alive speed hb cnt bound, by
      intro hf; cases hf⟩ hreach hfew
  exact ⟨hfit, hf, noClash h ho⟩

theorem within_window_one :
    Meets (Multicast.step true) (FitsWindow true) group firstAcked ∧
      ((run (Multicast.step true) group firstAcked).recver ()).fault ≠ some .beyondLimitation ∧
      NoClash (run (Multicast.step true) group firstAcked) := by
  have hreach : Meets (Multicast.step true) WithinReach group firstAcked := by
    refine ⟨fun now stack ha => ?_, fun now stack _ _ _ hh => ?_, fun now stack ha => ?_,
      fun now stack ha => ?_, trivial⟩
    · cases ha
    · exact absurd hh (by decide)
    · cases ha
    · cases ha
  exact within_window true ⟨1, 1⟩ 7 1000000 0 0 (fun _ => 1)
    (fun _ => ⟨1, 2⟩) firstAcked (by unfold Few; decide)
    hreach

/-! ### The last slot of the window -/

/-- `n` packets more, all of them lost. -/
def lose : ℕ → List (WorldAct Unit)
  | 0 => []
  | n + 1 => sendOne :: canSendOne :: lose n

/-- `n` packets were accepted and `m` of them were sent, with the head at packet 2 and the receiver
at packet 1. -/
structure Pumped (n m : ℕ) (w : World Unit) : Prop where
  inv : WorldInv w
  alive : w.sender.fault = none
  accepted : w.sender.accepted.length = n
  sending : w.sender.sock.sendingSeqNo = m
  head : w.sender.sock.validSendingDataHead = 2
  latest : latest w = 1

theorem pumped_send (strict : Bool) {n m : ℕ} (h : Pumped n m w) (hn : n ≤ 100001) :
    Pumped (n + 1) m (Multicast.step strict w sendOne) := by
  have hacc := h.accepted
  have hhead := h.head
  obtain ⟨t, ht, hts, hth⟩ := exec_send_room strict h.inv.window (b := byteBlock) rfl (by omega)
    (by unfold sendWinSize; omega)
  have hst := step_of_ok h.alive (congrArg Eff.res ht)
  rw [step_of_sender (c := .send byteBlock) rfl]
  have hlen : (SendRun.step strict w.sender (.send byteBlock)).accepted.length = n + 1 := by
    rw [hst, List.length_append, hacc]; rfl
  have hinv : WorldInv (onSender strict w (.send byteBlock)) := by
    refine onSender_inv h.inv trivial ?_
    unfold Few onSender
    rw [hlen]
    omega
  refine ⟨inv_congr hinv rfl rfl rfl rfl, ?_, hlen, ?_, ?_, h.latest⟩
  · show (SendRun.step strict w.sender (.send byteBlock)).fault = none
    rw [hst]
  · show (SendRun.step strict w.sender (.send byteBlock)).sock.sendingSeqNo = m
    rw [hst, ← h.sending]; exact hts
  · show (SendRun.step strict w.sender (.send byteBlock)).sock.validSendingDataHead = 2
    rw [hst, ← hhead]; exact hth

theorem pumped_canSend (strict : Bool) {n m : ℕ} (h : Pumped n m w) (hn : n ≤ 100002)
    (hm : m + 1 ≤ n) :
    Pumped n (m + 1) (Multicast.step strict w canSendOne) ∧
      ∃ d, emits strict w canSendOne = [d] ∧ opcode d = epData ∧ word 0 d = m + 1 := by
  have hacc := h.accepted
  have hsend := h.sending
  have hhead := h.head
  obtain ⟨d, hd, hexec⟩ := exec_canSend_open strict h.inv.window (by omega) (by omega)
    (by rw [hsend, hhead]; show m + 1 ≤ 2 + 1000000 / 10; omega) 0 fun _ => 0
  have hst := step_of_ok h.alive (congrArg Eff.res hexec)
  rw [List.append_nil] at hst
  rw [step_of_sender (c := .canSend 0 (fun _ => 0) .sent) rfl]
  have hinv : WorldInv (onSender strict w (.canSend 0 (fun _ => 0) .sent)) := by
    refine onSender_inv h.inv trivial ?_
    unfold Few onSender
    rw [hst]
    exact h.inv.window.lt
  refine ⟨⟨inv_congr hinv rfl rfl rfl rfl, ?_, ?_, ?_, ?_, h.latest⟩, d, ?_, hd.op, ?_⟩
  · show (SendRun.step strict w.sender (.canSend 0 (fun _ => 0) .sent)).fault = none
    rw [hst]
  · show (SendRun.step strict w.sender (.canSend 0 (fun _ => 0) .sent)).accepted.length = n
    rw [hst]; exact hacc
  · show (SendRun.step strict w.sender (.canSend 0 (fun _ => 0) .sent)).sock.sendingSeqNo = m + 1
    rw [hst, ← hsend]
  · show (SendRun.step strict w.sender (.canSend 0 (fun _ => 0) .sent)).sock.validSendingDataHead =
      2
    rw [hst]; exact hhead
  · show SendRun.out strict w.sender (.canSend 0 (fun _ => 0) .sent) = [d]
    unfold SendRun.out
    simp only [h.alive, hexec, Option.isSome_none, Bool.false_eq_true, if_false]
    rfl
  · rw [hd.seq, hsend]

theorem pumped_lose (strict : Bool) : ∀ (k : ℕ) {n : ℕ} {w : World Unit}, Pumped n n w →
    n + k ≤ 100001 →
    Pumped (n + k) (n + k) (run (Multicast.step strict) w (lose k))
  | 0, _, _, h, _ => h
  | k + 1, n, w, h, hk => by
    have h1 := pumped_send strict h (by omega)
    have h2 := (pumped_canSend strict h1 (by omega) (Nat.le_refl _)).1
    have h3 := pumped_lose strict k h2 (by omega)
    rw [Nat.add_right_comm, Nat.add_assoc] at h3
    exact h3

theorem pumped_firstAcked : Pumped 1 1 (run (Multicast.step true) group firstAcked) := by
  refine ⟨run_inv few_step step_inv (inv_init _ _ _ _ _ _ _)
    ?_, by decide, by decide, by decide, by decide, by decide⟩
  show (run (Multicast.step true) group firstAcked).sender.accepted.length < 2 ^ 64
  decide

/-- The packet at the head of the window is lost, and the sender goes on until the window is full:
packet 100002 is then 100001 above packet 1, which is the last one the receiver has. -/
theorem beyond_window :
    Few (run (Multicast.step true) group (firstAcked ++ lose 100000 ++ [sendOne, canSendOne])) ∧
      ¬ Meets (Multicast.step true) (FitsWindow true) group
        (firstAcked ++ lose 100000 ++ [sendOne, canSendOne]) := by
  have h1 := pumped_lose true 100000 pumped_firstAcked (by omega)
  have h2 := pumped_send true h1 (by omega)
  obtain ⟨h3, d, hd, hop, hq⟩ := pumped_canSend true h2 (by omega) (Nat.le_refl _)
  rw [← run_append] at h1 h2 h3 hd
  refine ⟨?_, fun hm => ?_⟩
  · rw [run_append]
    exact h3.inv.window.lt
  · obtain ⟨-, -, hfit, -⟩ := (meets_append _).mp hm
    have hle := hfit d (by rw [hd]; exact List.mem_singleton_self d) hop
    have hlat := h2.latest
    rw [hq, hlat] at hle
    unfold unorderedPkgsCnt at hle
    omega

end SmartNet.Network.Rmp.OneRecver

import Mathlib.Logic.Function.Basic
import SmartNet.Network.Rmp.Delivery
import SmartNet.Network.Rmp.SendRun

/-! # A group: one sender and its receivers

The sender's datagrams go to `mcast`, from where every receiver may take any of them, in any order
and any number of times; the receivers' acks and NAKs go to `feedback`, from where the sender takes
them in the same way. `heard` and `clock` remember whose feedback the sender handled when.

* `WorldAct`, `step`: the calls of the parties;
* `WorldInv`: what the parties and the datagrams under way have to do with each other;
* `step_inv`: every step keeps it. -/

namespace SmartNet.Network.Rmp.Multicast

open SmartNet.Common SmartNet.Lib SmartNet.Lib.Run SmartNet.Memory.MemBlock SmartNet.Network.Udp
open SmartNet.Network.Rmp.Wire SmartNet.Network.Rmp.Recvep SmartNet.Network.Rmp.RecvRun
open SmartNet.Network.Rmp.Feedback
open SmartNet.Network.Rmp.Delivery SmartNet.Network.Rmp.Sendep SmartNet.Network.Rmp.SendWin
open SmartNet.Network.Rmp.SendRun

structure World (ι : Type) where
  sender : Sender
  recver : ι → Receiver
  mcast : List (List UInt8)
  feedback : List (ι × List UInt8)
  clock : ℕ
  heard : List (ι × ℕ)

/-- How a `recvfrom` ends: with datagram `k` of those under way, or without one. -/
inductive Arrival
  | packet (k : ℕ) (src : SockAddr)
  | wouldBlock
  | intr
  | err

def Arrival.recvfrom (net : List (List UInt8)) : Arrival → Recvfrom
  | .packet k src => match net[k]? with
    | some d => .dgram src d
    | none => .wouldBlock
  | .wouldBlock => .wouldBlock
  | .intr => .intr
  | .err => .err

/-- A call on one of the parties. -/
inductive WorldAct (ι : Type)
  | send (b : Payload)
  | canSend (now : ℕ) (stack : ℕ → UInt8) (io : Sendto)
  | feed (r : Arrival) (now : ℕ) (fresh : ℕ → UInt8) (sent : ℕ → Bool)
  | rehash (m : RecverMap) (place : ℕ → ℕ)
  | recv (i : ι) (r : Arrival) (fresh stack : ℕ → UInt8) (io ioAck : Sendto)
  | drain (i : ι) (stack : ℕ → UInt8) (io : Sendto)
  | timer (i : ι) (now : ℕ) (stack : ℕ → UInt8) (ioAck ioNak : Sendto)

variable {ι : Type}

/-- The call, with the datagram it handles. -/
def WorldAct.call (w : World ι) : WorldAct ι → SendAct ⊕ ι × RecvAct
  | .send b => .inl (.send b)
  | .canSend now stack io => .inl (.canSend now stack io)
  | .feed r now fresh sent => .inl (.input (r.recvfrom (w.feedback.map Prod.snd)) now fresh sent)
  | .rehash m place => .inl (.rehash m place)
  | .recv i r fresh stack io ioAck => .inr (i, .input (r.recvfrom w.mcast) fresh stack io ioAck)
  | .drain i stack io => .inr (i, .drain stack io)
  | .timer i now stack ioAck ioNak => .inr (i, .timer now stack ioAck ioNak)

/-- The clock that `sendep_handle_ack` and `sendep_handle_nak` read. -/
def WorldAct.time (w : World ι) : WorldAct ι → ℕ
  | .feed _ now _ _ => now
  | _ => w.clock

/-- The receiver whose datagram the sender handles, and when. -/
def WorldAct.hears (w : World ι) : WorldAct ι → Option (ι × ℕ)
  | .feed (.packet k _) now _ _ => (w.feedback[k]?).map fun p => (p.1, now)
  | _ => none

/-- What the sender sends in a step. -/
def emits (strict : Bool) (w : World ι) (a : WorldAct ι) : List (List UInt8) :=
  match a.call w with
  | .inl c => SendRun.out strict w.sender c
  | .inr _ => []

def onSender (strict : Bool) (w : World ι) (c : SendAct) : World ι :=
  { w with
    sender := SendRun.step strict w.sender c
    mcast := w.mcast ++ SendRun.out strict w.sender c }

def onRecver [DecidableEq ι] (w : World ι) (i : ι) (c : RecvAct) : World ι :=
  { w with
    recver := Function.update w.recver i (RecvRun.step (w.recver i) c)
    feedback := w.feedback ++ (RecvRun.out (w.recver i) c).map fun p => (i, p.2) }

def step [DecidableEq ι] (strict : Bool) (w : World ι) (a : WorldAct ι) : World ι :=
  let w' := match a.call w with
    | .inl c => onSender strict w c
    | .inr (i, c) => onRecver w i c
  { w' with clock := a.time w, heard := (a.hears w).toList ++ w.heard }

/-- The parties once they are opened; receiver `i` is bound to `bound i`. -/
def init (multicast : SockAddr) (senderId : UInt8) (maxKeepAliveTimeUs speed hbInterval : ℕ)
    (cnt : ι → ℕ)
    (bound : ι → SockAddr) : World ι where
  sender := ⟨Sendep.open multicast senderId maxKeepAliveTimeUs speed hbInterval, none, []⟩
  recver i := RecvRun.init senderId (cnt i) (bound i)
  mcast := []
  feedback := []
  clock := 0
  heard := []

structure WorldInv (w : World ι) : Prop where
  window : Window w.sender.accepted w.sender.sock
  filled : ∀ p ∈ w.sender.accepted, p ≠ []
  mcast : ∀ d ∈ w.mcast, Packet w.sender.accepted w.sender.sock.senderId
    w.sender.sock.sendingSeqNo d
  senderId : ∀ i, (w.recver i).sock.senderId = w.sender.sock.senderId
  epid : ∀ i, (w.recver i).sock.epid < 2 ^ 64
  tame : ∀ i, Tame w.sender.sock.sendingSeqNo (w.recver i).sock
  seen : ∀ i, ∀ q ∈ (w.recver i).seen, 1 ≤ q ∧ q ≤ w.sender.sock.sendingSeqNo
  feedback : ∀ p ∈ w.feedback, Says w.sender.sock.sendingSeqNo (w.recver p.1).sock p.2

/-- The number of packets stays below the largest 64-bit number. -/
def Few (w : World ι) : Prop := w.sender.accepted.length < 2 ^ 64

variable {w : World ι} {strict : Bool}

theorem step_of_sender [DecidableEq ι] {a : WorldAct ι} {c : SendAct} (hc : a.call w = .inl c) :
    step strict w a = { onSender strict w c with
      clock := a.time w
      heard := (a.hears w).toList ++ w.heard } := by
  simp only [step, hc]

theorem step_of_recver [DecidableEq ι] {a : WorldAct ι} {i : ι} {c : RecvAct}
    (hc : a.call w = .inr (i, c)) :
    step strict w a = { onRecver w i c with
      clock := a.time w
      heard := (a.hears w).toList ++ w.heard } := by
  simp only [step, hc]

theorem accepted_le [DecidableEq ι] (w : World ι) (a : WorldAct ι) :
    w.sender.accepted.length ≤ (step strict w a).sender.accepted.length := by
  unfold step
  rcases a.call w with c | ⟨i, c⟩
  · exact (accepted_step w.sender c).length_le
  · exact Nat.le_refl _

theorem few_step [DecidableEq ι] (w : World ι) (a : WorldAct ι) (h : Few (step strict w a)) :
    Few w :=
  Nat.lt_of_le_of_lt (accepted_le w a) h

theorem call_canSend {a : WorldAct ι} {now : ℕ} {stack : ℕ → UInt8} {io : Sendto}
    (hc : a.call w = .inl (.canSend now stack io)) : a = .canSend now stack io := by
  rcases a with _ | _ | _ | _ | _ | _ | _
  case canSend => cases hc; rfl
  all_goals cases hc

theorem epidOf_lt (bound : SockAddr) : epidOf bound < 2 ^ 64 := by
  have h := u32_lt bound.addr
  unfold epidOf
  omega

theorem inv_init (mc : SockAddr) (sid : UInt8) (alive speed hb : ℕ) (cnt : ι → ℕ)
    (bound : ι → SockAddr) :
    WorldInv (init mc sid alive speed hb cnt bound) := by
  refine ⟨window_open mc sid alive speed hb, fun p hp => ?_, fun d hd => ?_, fun i => rfl,
    fun i => epidOf_lt (bound i),
    fun i => ⟨Nat.le_refl 0, Nat.le_refl 0, Nat.le_refl 0⟩, fun i q hq => ?_, fun p hp => ?_⟩
  · cases hp
  · cases hd
  · cases hq
  · cases hp

/-! ### Datagrams under way -/

theorem Packet.mono {accepted l : List (List UInt8)} {sid : UInt8} {M M' : ℕ} {d : List UInt8}
    (h : Packet accepted sid M d) (hM : M ≤ M') (hlen : M ≤ accepted.length) :
    Packet (accepted ++ l) sid M' d := by
  rcases h with ⟨q, h1, h2, hd⟩ | ⟨l, o, hd, hl⟩
  · refine Or.inl ⟨q, h1, Nat.le_trans h2 hM, ?_⟩
    rw [payOf_append h1 (Nat.le_trans h2 hlen)]
    exact hd
  · exact Or.inr ⟨l, o, hd, Nat.le_trans hl hM⟩

theorem Says.mono {M M' : ℕ} {s t : RecvSock} {d : List UInt8} (h : Says M s d) (hM : M ≤ M')
    (hid : t.epid = s.epid) (hl : s.latestRecvedValidSeqNo ≤ t.latestRecvedValidSeqNo) :
    Says M' t d := by
  unfold Says
  rw [hid]
  rcases h with ⟨q, hq, h1, h2⟩ | ⟨b, e, hd, h1, h2, h3⟩
  · exact Or.inl ⟨q, hq, h1, Nat.le_trans h2 hl⟩
  · exact Or.inr ⟨b, e, hd, h1, h2, Nat.le_trans h3 hM⟩

theorem Tame.mono {M M' : ℕ} {s : RecvSock} (h : Tame M s) (hM : M ≤ M') : Tame M' s :=
  ⟨Nat.le_trans h.latest hM, Nat.le_trans h.unvalidPkgBegin hM, Nat.le_trans h.unvalidPkgEnd hM⟩

theorem feed_of_inv (h : WorldInv w) {a : WorldAct ι} {c : SendAct} (hc : a.call w = .inl c) :
    Feed w.sender.sock.sendingSeqNo c := by
  rcases a with b | ⟨now, stack, io⟩ | ⟨r, now, fresh, sent⟩ | m | _ | _ | _
  · cases hc; trivial
  · cases hc; trivial
  · cases hc
    rcases r with ⟨k, src⟩ | _ | _ | _
    · rcases hk : (w.feedback.map Prod.snd)[k]? with _ | d
      · simp only [Arrival.recvfrom, hk]
        trivial
      · simp only [Arrival.recvfrom, hk]
        obtain ⟨p, hp, rfl⟩ := List.mem_map.mp (List.mem_of_getElem? hk)
        have hlat := (h.tame p.1).latest
        rcases h.feedback p hp with ⟨q, hq, h1, h2⟩ | ⟨b, e, hd, h1, h2, h3⟩
        · exact Or.inl ⟨q, _, hq, h1, Nat.le_trans h2 hlat⟩
        · exact Or.inr ⟨b, e, _, hd, h1, h2, h3⟩
    all_goals trivial
  · cases hc; trivial
  all_goals cases hc

theorem feed_source (h : WorldInv w) {a : WorldAct ι} {src : SockAddr} {d : List UInt8} {now : ℕ}
    {fresh : ℕ → UInt8} {sent : ℕ → Bool}
    (hc : a.call w = .inl (.input (.dgram src d) now fresh sent)) :
    ∃ i, a.hears w = some (i, now) ∧ a.time w = now ∧
      Says w.sender.sock.sendingSeqNo (w.recver i).sock d := by
  rcases a with b | ⟨now', stack, io⟩ | ⟨r, now', fresh', sent'⟩ | m | _ | _ | _
  case feed =>
    rcases r with ⟨k, src'⟩ | _ | _ | _
    · rcases hk : w.feedback[k]? with _ | p
      · simp only [WorldAct.call, Arrival.recvfrom, List.getElem?_map, hk] at hc
        cases hc
      · simp only [WorldAct.call, Arrival.recvfrom, List.getElem?_map, hk] at hc
        cases hc
        refine ⟨p.1, ?_, rfl, h.feedback p (List.mem_of_getElem? hk)⟩
        simp only [WorldAct.hears, hk, Option.map_some]
    all_goals cases hc
  all_goals cases hc

theorem hears_none {a : WorldAct ι} {c : SendAct} (hc : a.call w = .inl c)
    (hno : ∀ src d now fresh sent, c ≠ .input (.dgram src d) now fresh sent) :
    a.hears w = none := by
  rcases a with b | ⟨now', stack, io⟩ | ⟨r, now', fresh', sent'⟩ | m | _ | _ | _
  case feed =>
    rcases r with ⟨k, src'⟩ | _ | _ | _
    · rcases hk : w.feedback[k]? with _ | p
      · simp only [WorldAct.hears, hk, Option.map_none]
      · simp only [WorldAct.call, Arrival.recvfrom, List.getElem?_map, hk] at hc
        cases hc
        exact absurd rfl (hno _ _ _ _ _)
    all_goals rfl
  all_goals rfl

theorem hears_time {a : WorldAct ι} {p : ι × ℕ} (h : a.hears w = some p) : p.2 ≤ a.time w := by
  rcases a with _ | _ | ⟨⟨k, src⟩ | _ | _ | _, now, fresh, sent⟩ | _ | _ | _ | _
  case feed.packet =>
    obtain ⟨x, -, rfl⟩ := Option.map_eq_some_iff.mp h
    exact Nat.le_refl now
  all_goals cases h

theorem recver_quiet {a : WorldAct ι} {x : ι × RecvAct} (hc : a.call w = .inr x) :
    a.hears w = none ∧ a.time w = w.clock := by
  rcases a with _ | _ | _ | _ | _ | _ | _
  iterate 4 cases hc
  all_goals exact ⟨rfl, rfl⟩

theorem honest_of_inv (h : WorldInv w) {a : WorldAct ι} {i : ι} {c : RecvAct}
    (hc : a.call w = .inr (i, c)) :
    Honest w.sender.sock.senderId (payOf w.sender.accepted) c ∧
      UpTo w.sender.sock.sendingSeqNo c := by
  have hlt := h.window.sending_lt
  rcases a with _ | _ | _ | _ | ⟨j, r, fresh, stack, io, ioAck⟩ | ⟨j, stack, io⟩ | ⟨j, now, stack,
    ioAck, ioNak⟩
  iterate 4 cases hc
  · cases hc
    rcases r with ⟨k, src⟩ | _ | _ | _
    · rcases hk : w.mcast[k]? with _ | d
      · simp only [Arrival.recvfrom, hk]
        exact ⟨trivial, trivial⟩
      · simp only [Arrival.recvfrom, hk]
        rcases h.mcast d (List.mem_of_getElem? hk) with ⟨q, h1, h2, hd⟩ | ⟨l, o, hd, hl⟩
        · exact ⟨Or.inl ⟨q, h1, by omega, hd⟩, by show word 0 d ≤ _; rw [hd.seq]; exact h2⟩
        · exact ⟨Or.inr ⟨l, o, hd⟩, by show word 0 d ≤ _; rw [hd.latest]; exact hl⟩
    all_goals exact ⟨trivial, trivial⟩
  · cases hc; exact ⟨trivial, trivial⟩
  · cases hc; exact ⟨trivial, trivial⟩

/-! ### The steps keep the invariant -/

theorem onSender_inv (h : WorldInv w) {c : SendAct} (hfeed : Feed w.sender.sock.sendingSeqNo c)
    (hfew : Few (onSender strict w c)) : WorldInv (onSender strict w c) := by
  have hle := h.window.sending_le
  rcases step_cases strict h.window hfeed with
    ⟨-, hst, hout⟩ | ⟨-, f, -, hst, hout⟩ | ⟨-, t, l, -, hst, hmv, hout⟩
  · have heq : onSender strict w c = w := by
      unfold onSender
      rw [hst, hout, List.append_nil]
    rw [heq]; exact h
  · unfold onSender
    rw [hst, hout, List.append_nil]
    exact ⟨h.window, h.filled, h.mcast, h.senderId, h.epid, h.tame, h.seen, h.feedback⟩
  · unfold Few onSender at hfew
    rw [hst] at hfew
    have hmono : w.sender.sock.sendingSeqNo ≤ t.sendingSeqNo := by have := hmv.sending; omega
    have hwin : Window (w.sender.accepted ++ l) t :=
      hmv.win (by simpa only [List.length_append] using hfew)
    unfold onSender
    rw [hst]
    refine ⟨hwin, fun p hp => ?_, fun d hd => ?_, fun i => (h.senderId i).trans hmv.senderId.symm,
      h.epid,
      fun i => Tame.mono (h.tame i) hmono, fun i q hq => ?_, fun p hp => ?_⟩
    · rcases List.mem_append.mp hp with hp | hp
      · exact h.filled p hp
      · exact hmv.filled p hp
    · show Packet (w.sender.accepted ++ l) t.senderId t.sendingSeqNo d
      rw [hmv.senderId]
      rcases List.mem_append.mp hd with hd | hd
      · exact Packet.mono (h.mcast d hd) hmono hle
      · exact Packet.mono (hout d hd) (Nat.le_refl _) (by have := hmv.sending; omega)
    · have := h.seen i q hq
      exact ⟨this.1, Nat.le_trans this.2 hmono⟩
    · exact Says.mono (h.feedback p hp) hmono rfl (Nat.le_refl _)

theorem number_bounds {c : RecvAct} {M q : ℕ} {sid : UInt8} {pay : ℕ → List UInt8}
    (hon : Honest sid pay c)
    (hup : UpTo M c) (hq : c.number = some q) : 1 ≤ q ∧ q ≤ M := by
  rcases c with ⟨_ | _ | _ | _, fresh, stack, io, ioAck⟩ | _ | _
  · rename_i src d
    rcases hon with ⟨r, h1, -, hd⟩ | ⟨l, o, hd⟩
    · rw [number_odata hd] at hq
      cases hq
      exact ⟨h1, by rw [← hd.seq]; exact hup⟩
    · rw [number_hb hd] at hq
      cases hq
  all_goals cases hq

theorem recver_step {p : Receiver} {c : RecvAct} {M : ℕ} {sid : UInt8} {pay : ℕ → List UInt8}
    (hon : Honest sid pay c) (hs : p.sock.senderId = sid) (hup : UpTo M c) (ht : Tame M p.sock)
    (hM : M < 2 ^ 64 - 1) (hid : p.sock.epid < 2 ^ 64) :
    Tame M (RecvRun.step p c).sock ∧
      p.sock.latestRecvedValidSeqNo ≤ (RecvRun.step p c).sock.latestRecvedValidSeqNo ∧
      (∀ x ∈ RecvRun.out p c, Says M (RecvRun.step p c).sock x.2) ∧
      ∀ q ∈ (RecvRun.step p c).seen, q ∈ p.seen ∨ 1 ≤ q ∧ q ≤ M := by
  by_cases hf : p.fault = none
  · have hrep := Feedback.exec_report (M := M) hon hs
    obtain ⟨hsock, -, hseen, -, -⟩ := step_alive (a := c) hf
    obtain ⟨h1, h2⟩ := hrep.tame hup ht hM
    rw [hsock]
    refine ⟨h1, h2, fun x hx => ?_, fun q hq => ?_⟩
    · unfold RecvRun.out at hx
      simp only [hf, Option.isSome_none, Bool.false_eq_true, if_false] at hx
      exact hrep.tells hup ht hM hid x.1 x.2 hx
    · rw [hseen] at hq
      rcases List.mem_append.mp hq with hq | hq
      · exact Or.inr (number_bounds hon hup (Option.mem_toList.mp hq))
      · exact Or.inl hq
  · rw [step_dead hf]
    refine ⟨ht, Nat.le_refl _, fun x hx => ?_, fun q hq => Or.inl hq⟩
    unfold RecvRun.out at hx
    rw [if_pos (Option.isSome_iff_ne_none.mpr hf)] at hx
    cases hx

theorem onRecver_self [DecidableEq ι] (w : World ι) (i : ι) (c : RecvAct) :
    (onRecver w i c).recver i = RecvRun.step (w.recver i) c := Function.update_self i _ _

theorem onRecver_ne [DecidableEq ι] (w : World ι) {i j : ι} (hj : j ≠ i) (c : RecvAct) :
    (onRecver w i c).recver j = w.recver j := Function.update_of_ne hj _ _

theorem onRecver_inv [DecidableEq ι] (h : WorldInv w) {i : ι} {c : RecvAct}
    (hon : Honest w.sender.sock.senderId (payOf w.sender.accepted) c)
    (hup : UpTo w.sender.sock.sendingSeqNo c) :
    WorldInv (onRecver w i c) := by
  obtain ⟨h1, h2, h3, h4⟩ := recver_step hon (h.senderId i) hup (h.tame i)
    h.window.sending_lt (h.epid i)
  obtain ⟨hsid, hid⟩ := step_ids hon (h.senderId i)
  have hself := onRecver_self w i c
  have hother : ∀ j, j ≠ i → (onRecver w i c).recver j = w.recver j :=
    fun j hj => onRecver_ne w hj c
  refine ⟨h.window, h.filled, h.mcast, fun j => ?_, fun j => ?_, fun j => ?_, fun j => ?_,
    fun p hp => ?_⟩
  · rcases eq_or_ne j i with rfl | hj
    · rw [hself, hsid]; exact h.senderId j
    · rw [hother j hj]; exact h.senderId j
  · rcases eq_or_ne j i with rfl | hj
    · rw [hself, hid]; exact h.epid j
    · rw [hother j hj]; exact h.epid j
  · rcases eq_or_ne j i with rfl | hj
    · rw [hself]; exact h1
    · rw [hother j hj]; exact h.tame j
  · rcases eq_or_ne j i with rfl | hj
    · rw [hself]
      exact fun q hq => (h4 q hq).elim (h.seen j q) id
    · rw [hother j hj]; exact h.seen j
  · rcases List.mem_append.mp hp with hp | hp
    · rcases eq_or_ne p.1 i with hj | hj
      · rw [hj, hself]
        have hs := h.feedback p hp
        rw [hj] at hs
        exact Says.mono hs (Nat.le_refl _) hid h2
      · rw [hother p.1 hj]; exact h.feedback p hp
    · obtain ⟨x, hx, rfl⟩ := List.mem_map.mp hp
      rw [hself]
      exact h3 x hx

theorem inv_congr {v : World ι} (h : WorldInv w) (h1 : v.sender = w.sender)
    (h2 : v.recver = w.recver)
    (h3 : v.mcast = w.mcast) (h4 : v.feedback = w.feedback) : WorldInv v := by
  obtain ⟨g1, g2, g3, g4, g5, g6, g7, g8⟩ := h
  rw [← h1] at g1 g2
  rw [← h1, ← h3] at g3
  rw [← h1, ← h2] at g4 g6 g7
  rw [← h2] at g5
  rw [← h1, ← h2, ← h4] at g8
  exact ⟨g1, g2, g3, g4, g5, g6, g7, g8⟩

/-- **Every step keeps the invariant.** -/
theorem step_inv [DecidableEq ι] (w : World ι) (a : WorldAct ι) (h : WorldInv w)
    (hfew : Few (step strict w a)) :
    WorldInv (step strict w a) := by
  rcases hc : a.call w with c | ⟨i, c⟩
  · rw [step_of_sender hc] at hfew ⊢
    exact inv_congr (onSender_inv h (feed_of_inv h hc) hfew) rfl rfl rfl rfl
  · obtain ⟨hon, hup⟩ := honest_of_inv h hc
    rw [step_of_recver hc]
    exact inv_congr (onRecver_inv h hon hup) rfl rfl rfl rfl

end SmartNet.Network.Rmp.Multicast

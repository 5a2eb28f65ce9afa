import SmartNet.Network.Rmp.SendCalls
import SmartNet.Network.Rmp.Timers

/-! # A full socket buffer

Every place where a `CRmpSock` sends, with the attempts `sendto` takes there. When the kernel has no
room (`EWOULDBLOCK`), the packet is as good as lost.

* `Tolerant`: a call with attempts that find no room goes on as if the packet had been sent and
  lost, or, for a packet that is sent for the first time, as if it had not been sent;
* `tolerant_iff`: this is so unless an ack, a heartbeat or a NAK finds no room. -/

namespace SmartNet.Network.Rmp.FullBuffer

open SmartNet.Common SmartNet.Lib SmartNet.Lib.Bytes SmartNet.Lib.Mem SmartNet.Memory.MemBlock
open SmartNet.Network.Udp SmartNet.Network.Rmp.Wire SmartNet.Network.Rmp.Recvep
open SmartNet.Network.Rmp.ControlPkgs SmartNet.Network.Rmp.Reorder SmartNet.Network.Rmp.RecvRun
open SmartNet.Network.Rmp.Sendep SmartNet.Network.Rmp.SendCalls SmartNet.Network.Rmp.Timers
open SmartNet.Network.Rmp.AppAcks (AckDue Drained seqNoOf get64_seqNo)

/-- How one `sendto` ends. -/
inductive Attempt
  | sent
  | wouldBlock
  | intr
  | err
  deriving DecidableEq, Repr

/-- The attempts of one `udp_send`, which tries again after a signal; the attempts after the list
succeed. -/
def outcome : List Attempt → Sendto
  | [] => .sent
  | .sent :: _ => .sent
  | .wouldBlock :: _ => .wouldBlock
  | .intr :: as => outcome as
  | .err :: _ => .err

/-- The packet is sent and lost instead of finding no room. -/
def lose : Sendto → Sendto
  | .wouldBlock => .sent
  | io => io

/-- The loops of `sendep_handle_nak` over the packets asked for, each of which is tried until there
is room. -/
def resend (s : SendSock) : List Attempt → ℕ → ℕ → Eff Ev Fault Cmnerr
  | [], k, q => retransmit s (fun _ => true) k q
  | _ :: _, 0, _ => pure .suc
  | a :: as, k + 1, q =>
    match s.vecSendWin (q % sendWinSize) with
    | none => Eff.abort .nullDeref
    | some pMem =>
      match a with
      | .intr => resend s as (k + 1) q
      | .wouldBlock => resend s as (k + 1) q
      | .err => pure .ioErr
      | .sent => do
        Eff.emit (.sendto s.addrMulticast pMem.data)
        resend s as k (u64 (q + 1))

/-- `handle_input_evt` posts `EE_INTERNAL_ERR` for this code of `handle_can_recv`. -/
def PostsInput (ret : Cmnerr) : Prop := ret ≠ .odataReady ∧ ret ≠ .recvPending ∧ ret ≠ .suc

/-- `handle_output_evt` posts `EE_INTERNAL_ERR` for this code of `handle_can_send`. -/
def PostsOutput (ret : Cmnerr) : Prop := ret = .ioErr

/-- A call that sends, with the attempts: a pass of `handle_can_recv` of a receiver (a heartbeat is
answered), `get_next_recved_data` (an ack), `handle_can_send` of a receiver (an ack and a NAK), a
pass of `handle_can_send` of a sender (a heartbeat, or a packet for the first time), and the packets
`b` to `e` that a NAK asks for. -/
inductive Call
  | recvInput (s : RecvSock) (fresh stack : ℕ → UInt8) (r : Recvfrom) (io : List Attempt)
  | next (s : RecvSock) (stack : ℕ → UInt8) (io : List Attempt)
  | recvOutput (s : RecvSock) (now : ℕ) (stack : ℕ → UInt8) (ioAck ioNak : List Attempt)
  | sendOutput (s : SendSock) (now : ℕ) (stack : ℕ → UInt8) (io : List Attempt)
  | resend (s : SendSock) (io : List Attempt) (b e : ℕ)

/-- `x` fails no assert that `y` does not fail, and otherwise returns what `y` returns, up to
`R`. -/
def AsLost {α : Type} (R : α → α → Prop) (x y : Eff Ev Fault α) : Prop :=
  (∀ f, x.res = .error f → y.res = .error f) ∧ ∀ a, x.res = .ok a → ∃ b, y.res = .ok b ∧ R a b

/-- The same socket, and a code that is posted as an error only if it is one anyway. -/
def SameSock {σ ρ : Type} (posts : ρ → Prop) (a b : ρ × σ) : Prop :=
  a.2 = b.2 ∧ (posts a.1 → b.1 = a.1)

/-- The packet stays to be sent: the socket is unchanged. -/
def NotSent (s : SendSock) (x y : Eff Ev Fault (Option Cmnerr × SendSock)) : Prop :=
  (∀ f, x.res = .error f → y.res = .error f) ∧
    ∀ a, x.res = .ok a → a.2 = s ∧ ∀ ret ∈ a.1, ¬ PostsOutput ret

/-- **No room is packet loss.** -/
def Tolerant : Call → Prop
  | .recvInput s fresh stack r io =>
    AsLost (SameSock PostsInput) (recvepHandleCanRecv s fresh stack r (outcome io))
      (recvepHandleCanRecv s fresh stack r (lose (outcome io)))
  | .next s stack io =>
    AsLost Eq (getNextRecvedData s stack (outcome io))
      (getNextRecvedData s stack (lose (outcome io)))
  | .recvOutput s now stack ioAck ioNak =>
    AsLost Eq (recvepHandleCanSend s now stack (outcome ioAck) (outcome ioNak))
      (recvepHandleCanSend s now stack (lose (outcome ioAck)) (lose (outcome ioNak)))
  | .sendOutput s now stack io =>
    (Blocked s → AsLost (SameSock fun ret => ∃ c ∈ ret, PostsOutput c)
      (sendepHandleCanSend s now stack (outcome io))
      (sendepHandleCanSend s now stack (lose (outcome io)))) ∧
    (¬ Blocked s → outcome io = .wouldBlock →
      NotSent s (sendepHandleCanSend s now stack .wouldBlock)
        (sendepHandleCanSend s now stack .sent))
  | .resend s io b e => e < 2 ^ 64 →
    FullBuffer.resend s io (e + 1 - b) b =
        FullBuffer.resend s (io.filter (· ≠ .wouldBlock)) (e + 1 - b) b ∧
      ∃ sent, FullBuffer.resend s io (e + 1 - b) b = retransmit s sent (e + 1 - b) b

/-- No ack, no heartbeat and no NAK finds no room. -/
def Roomy : Call → Prop
  | .recvInput s fresh _ r io => outcome io = .wouldBlock → ∀ b, Arrives s.pMem fresh r b →
      b.get8 4 = s.senderId → b.get8 3 = epHb → seqNoOf b ≤ s.latestRecvedValidSeqNo
  | .next s _ io => outcome io = .wouldBlock → ¬ (Drained s ∧ Acks s false)
  | .recvOutput s now _ ioAck ioNak =>
    (outcome ioAck = .wouldBlock → ¬ AckDue s now) ∧
      (outcome ioNak = .wouldBlock → NakDue s now → AckDue s now ∧ outcome ioAck = .err)
  | .sendOutput s now _ io => outcome io = .wouldBlock → ¬ (Blocked s ∧ HbTime s now)
  | .resend _ _ _ _ => True

variable {α : Type} {R : α → α → Prop} {x y : Eff Ev Fault α}

theorem asLost_refl (hR : ∀ a, R a a) (x : Eff Ev Fault α) : AsLost R x x :=
  ⟨fun _ h => h, fun a h => ⟨a, h, hR a⟩⟩

theorem lose_wouldBlock : lose .wouldBlock = .sent := rfl

theorem lose_eq {io : Sendto} (h : io ≠ .wouldBlock) : lose io = io := by
  cases io
  · rfl
  · exact absurd rfl h
  · rfl

theorem not_asLost {f : Fault} {a : α} (hx : x = Eff.abort f) (hy : y.res = .ok a) :
    ¬ AsLost R x y := by
  intro h
  have := h.1 f (by rw [hx]; rfl)
  rw [hy] at this
  cases this

/-! ### A receiver -/

theorem recvInput_iff (s : RecvSock) (fresh stack : ℕ → UInt8) (r : Recvfrom)
    (io : List Attempt) :
    Tolerant (.recvInput s fresh stack r io) ↔ Roomy (.recvInput s fresh stack r io) := by
  have hrefl : ∀ x, AsLost (SameSock PostsInput) x x :=
    asLost_refl fun a : Cmnerr × RecvSock => ⟨rfl, fun _ => rfl⟩
  show AsLost _ _ _ ↔ (outcome io = .wouldBlock → _)
  by_cases hio : outcome io = .wouldBlock
  · rw [hio, lose_wouldBlock, forall_prop_of_true rfl]
    rcases handleCanRecv_cases s fresh stack r with ⟨hnone, hcase⟩ |
      ⟨c, src, harr, ho, -, -, hsid, ⟨hop, heq⟩ | ⟨hop, heq⟩⟩
    · refine iff_of_true ?_ fun b hb hs hop => absurd ⟨hs, Or.inr hop⟩ (hnone b hb)
      rcases hcase with ⟨f, heq⟩ | ⟨ret, b, -, -, -, heq⟩
      · rw [heq, heq]
        exact hrefl _
      · rw [heq, heq]
        exact hrefl _
    · refine iff_of_true ?_ fun b hb _ hop' => ?_
      · rw [heq, heq]
        exact hrefl _
      · rw [arrives_unique hb harr, hop] at hop'
        exact absurd hop' (by decide)
    · rw [heq, heq]
      unfold recvepHandleHb
      rw [get64_seqNo ho]
      by_cases hnew : s.latestRecvedValidSeqNo < seqNoOf c
      · refine iff_of_false (fun h => ?_) fun h => ?_
        · simp only [if_pos hnew] at h
          obtain ⟨b, hb, -, hret⟩ := h.2 _ rfl
          have hpost : PostsInput .sendPending := ⟨by decide, by decide, by decide⟩
          cases hb
          exact nomatch hret hpost
        · have := h c harr hsid hop
          omega
      · refine iff_of_true ?_ fun b hb _ _ => ?_
        · simp only [if_neg hnew]
          exact hrefl _
        · rw [arrives_unique hb harr]
          omega
  · rw [lose_eq hio]
    exact iff_of_true (hrefl _) fun h => absurd h hio

theorem next_iff (s : RecvSock) (stack : ℕ → UInt8) (io : List Attempt) :
    Tolerant (.next s stack io) ↔ Roomy (.next s stack io) := by
  have hrefl : ∀ x : Eff Ev Fault (Cmnerr × Option CMemBlock × RecvSock), AsLost Eq x x :=
    asLost_refl fun _ => rfl
  show AsLost _ _ _ ↔ (outcome io = .wouldBlock → _)
  by_cases hio : outcome io = .wouldBlock
  · rw [hio, lose_wouldBlock, forall_prop_of_true rfl]
    rcases hmem : s.pMem.filter (0 < ·.len) with _ | p
    · by_cases hv : 0 < s.validPkgBegin ∧ s.validPkgBegin ≤ s.validPkgEnd
      · rw [getNext_slot hmem hv, getNext_slot hmem hv]
        exact iff_of_true (hrefl _) fun h => h.1.2 hv
      · have hdrained : Drained s := by
          refine ⟨fun b hb => ?_, hv⟩
          have := Option.filter_eq_none_iff.mp hmem b hb
          simpa using this
        rw [getNext_none hmem hv, getNext_none hmem hv]
        obtain ⟨t, -, ⟨hno, heq⟩ | ⟨hack, hsent, herr⟩⟩ :=
          setAck_cases { s with validPkgBegin := 0, validPkgEnd := 0 } false stack
        · rw [heq, heq]
          exact iff_of_true (hrefl _) fun h => hno h.2
        · refine iff_of_false ?_ fun h => h ⟨hdrained, hack⟩
          rw [herr .wouldBlock (by decide), hsent]
          exact not_asLost rfl rfl
    · obtain ⟨hp, hlen⟩ := Option.filter_eq_some_iff.mp hmem
      have hlen' : 0 < p.len := by simpa using hlen
      rw [getNext_mem hp hlen', getNext_mem hp hlen']
      refine iff_of_true (hrefl _) fun h => ?_
      have := h.1.1 p hp
      omega
  · rw [lose_eq hio]
    exact iff_of_true (hrefl _) fun h => absurd h hio

theorem recvOutput_iff (s : RecvSock) (now : ℕ) (stack : ℕ → UInt8) (ioAck ioNak : List Attempt) :
    Tolerant (.recvOutput s now stack ioAck ioNak) ↔
      Roomy (.recvOutput s now stack ioAck ioNak) := by
  have hrefl : ∀ x : Eff Ev Fault RecvSock, AsLost Eq x x := asLost_refl fun _ => rfl
  show AsLost _ (timerAck s now stack (outcome ioAck) >>= fun t =>
      timerNak t now stack (outcome ioNak))
    (timerAck s now stack (lose (outcome ioAck)) >>= fun t =>
      timerNak t now stack (lose (outcome ioNak))) ↔
    (outcome ioAck = .wouldBlock → ¬ AckDue s now) ∧
      (outcome ioNak = .wouldBlock → NakDue s now → AckDue s now ∧ outcome ioAck = .err)
  obtain ⟨t, hst, hack⟩ := timerAck_cases s now stack
  obtain ⟨u, -, hnak⟩ := timerNak_cases t now stack
  have hnak' := hnak.of_iff (hst.nakDue now)
  -- what the NAK adds, once the ack is out of the way
  have hrest : ∀ ack : Eff Ev Fault RecvSock, ack.res = .ok t →
      (AsLost Eq (ack >>= fun t => timerNak t now stack (outcome ioNak))
        (ack >>= fun t => timerNak t now stack (lose (outcome ioNak))) ↔
          (outcome ioNak = .wouldBlock → ¬ NakDue s now)) := fun ack hok => by
    rw [Eff.bind_of_ok hok, Eff.bind_of_ok hok]
    by_cases hio : outcome ioNak = .wouldBlock
    · rw [hio, lose_wouldBlock, forall_prop_of_true rfl]
      rcases hnak' with ⟨hno, heq⟩ | ⟨hdue, hsent, hab⟩
      · rw [heq, heq]
        exact iff_of_true (hrefl _) hno
      · refine iff_of_false (fun h => ?_) fun h => h hdue
        have := h.1 .recvepSendNak (by rw [hab .wouldBlock (by decide)]; rfl)
        rw [hsent] at this
        cases this
    · rw [lose_eq hio]
      exact iff_of_true (hrefl _) fun h => absurd h hio
  rcases hack with ⟨hno, heq⟩ | ⟨hdue, hsent, hab⟩
  · rw [heq, heq, hrest _ rfl]
    exact ⟨fun h => ⟨fun _ => hno, fun hio hnd => absurd hnd (h hio)⟩,
      fun h hio hnd => hno (h.2 hio hnd).1⟩
  · rcases hio : outcome ioAck with _ | _ | _
    · rw [lose_eq (by decide), hsent, hrest _ rfl]
      refine ⟨fun h => ⟨fun h' => absurd h' (by decide), fun hio' hnd => absurd hnd (h hio')⟩,
        fun h hio' hnd => ?_⟩
      exact absurd (h.2 hio' hnd).2 (by decide)
    · refine iff_of_false (fun h => ?_) fun h => h.1 rfl hdue
      have hfail := h.1 .setAck (by rw [hab .wouldBlock (by decide)]; rfl)
      rw [lose_wouldBlock, hsent, Eff.bind_of_ok rfl] at hfail
      exact nomatch (timerNak_quiet t now stack _).err _ hfail
    · rw [lose_eq (by decide), hab .err (by decide), Eff.abort_bind, Eff.abort_bind]
      refine iff_of_true (hrefl _) ⟨fun h' => absurd h' (by decide), fun _ _ => ⟨hdue, rfl⟩⟩

/-! ### A sender -/

theorem sendOutput_iff (s : SendSock) (now : ℕ) (stack : ℕ → UInt8) (io : List Attempt) :
    Tolerant (.sendOutput s now stack io) ↔ Roomy (.sendOutput s now stack io) := by
  have hrefl : ∀ x, AsLost (SameSock fun ret : Option Cmnerr => ∃ c ∈ ret, PostsOutput c) x x :=
    asLost_refl fun a : Option Cmnerr × SendSock => ⟨rfl, fun _ => rfl⟩
  show (Blocked s → AsLost _ _ _) ∧ (¬ Blocked s → outcome io = .wouldBlock → _) ↔
    (outcome io = .wouldBlock → _)
  by_cases hio : outcome io = .wouldBlock
  · rw [hio, lose_wouldBlock, forall_prop_of_true rfl, forall_prop_of_true rfl]
    by_cases hbl : Blocked s
    · have hleft : ∀ {P Q : Prop}, ((Blocked s → P) ∧ (¬ Blocked s → Q)) ↔ P :=
        ⟨fun h => h.1 hbl, fun h => ⟨fun _ => h, fun hn => absurd hbl hn⟩⟩
      rw [hleft, canSend_blocked hbl, canSend_blocked hbl]
      obtain ⟨t, ht, hblock⟩ := sendepHb_eq s now stack .wouldBlock
      obtain ⟨u, hu, hsent⟩ := sendepHb_eq s now stack .sent
      obtain rfl := ht.trans hu.symm
      rcases hblock with ⟨hno, heq⟩ | ⟨-, h, -⟩ | ⟨hdue, -, hab⟩
      · rcases hsent with ⟨-, heq'⟩ | ⟨h, -⟩ | ⟨h, -⟩
        · rw [heq, heq']
          exact iff_of_true (hrefl _) fun h => hno h.2
        · exact absurd h hno
        · exact absurd h hno
      · exact nomatch h
      · rcases hsent with ⟨h, -⟩ | ⟨-, -, heq'⟩ | ⟨-, h, -⟩
        · exact absurd hdue h
        · refine iff_of_false ?_ fun h => h ⟨hbl, hdue⟩
          rw [hab, heq']
          exact not_asLost rfl rfl
        · exact absurd rfl h
    · refine iff_of_true ⟨fun h => absurd h hbl, fun _ => ?_⟩ fun h => hbl h.1
      rcases canSend_open hbl now stack with ⟨f, heq⟩ | ⟨i, c, -, -, hblock, -⟩
      · rw [heq, heq]
        exact ⟨fun _ h => h, fun _ h => nomatch h⟩
      · rw [hblock]
        refine ⟨fun _ h => (nomatch h), fun a h => ?_⟩
        cases h
        refine ⟨rfl, fun ret hret => ?_⟩
        cases hret
        exact fun h => nomatch h
  · rw [lose_eq hio]
    exact iff_of_true ⟨fun _ => hrefl _, fun _ h => absurd h hio⟩ fun h => absurd h hio

theorem resend_zero (s : SendSock) (as : List Attempt) (q : ℕ) : resend s as 0 q = pure .suc := by
  cases as
  · rfl
  · rfl

theorem resend_none {s : SendSock} {k q : ℕ} (h : s.vecSendWin (q % sendWinSize) = none)
    (as : List Attempt) : resend s as (k + 1) q = Eff.abort .nullDeref := by
  cases as
  · unfold resend retransmit
    rw [h]
  · unfold resend
    rw [h]

theorem resend_filter (s : SendSock) : ∀ (as : List Attempt) (k q : ℕ),
    resend s as k q = resend s (as.filter (· ≠ .wouldBlock)) k q
  | [], _, _ => rfl
  | a :: as, 0, q => by rw [resend_zero, resend_zero]
  | a :: as, k + 1, q => by
    rcases hc : s.vecSendWin (q % sendWinSize) with _ | c
    · rw [resend_none hc, resend_none hc]
    · have ih1 := resend_filter s as (k + 1) q
      have ih2 := resend_filter s as k (u64 (q + 1))
      cases a with
      | sent =>
        rw [List.filter_cons_of_pos (by decide)]
        simp only [resend, hc, ih2]
      | wouldBlock =>
        rw [List.filter_cons_of_neg (by decide), ← ih1]
        simp only [resend, hc]
      | intr =>
        rw [List.filter_cons_of_pos (by decide)]
        simp only [resend, hc, ih1]
      | err =>
        rw [List.filter_cons_of_pos (by decide)]
        simp only [resend, hc]

theorem retransmit_congr (s : SendSock) {f g : ℕ → Bool} : ∀ k q, q + k ≤ 2 ^ 64 →
    (∀ r, q ≤ r → r < q + k → f r = g r) → retransmit s f k q = retransmit s g k q
  | 0, _, _, _ => rfl
  | k + 1, q, hk, h => by
    have hq := h q (Nat.le_refl q) (by omega)
    have ih : retransmit s f k (u64 (q + 1)) = retransmit s g k (u64 (q + 1)) := by
      rcases Nat.eq_zero_or_pos k with rfl | hpos
      · rfl
      · have hu : u64 (q + 1) = q + 1 := u64_of_lt (by omega)
        rw [hu]
        exact retransmit_congr s k (q + 1) (by omega) fun r h1 h2 => h r (by omega) (by omega)
    simp only [retransmit, hq, ih]

/-- The packets are sent again until one cannot be sent, as if there had always been room. -/
theorem resend_eq (s : SendSock) : ∀ (as : List Attempt) (k q : ℕ), q + k ≤ 2 ^ 64 →
    ∃ sent, resend s as k q = retransmit s sent k q
  | [], k, q, _ => ⟨fun _ => true, rfl⟩
  | a :: as, 0, q, _ => ⟨fun _ => true, by rw [resend_zero]; rfl⟩
  | a :: as, k + 1, q, hk => by
    rcases hc : s.vecSendWin (q % sendWinSize) with _ | c
    · refine ⟨fun _ => true, ?_⟩
      rw [resend_none hc]
      unfold retransmit
      rw [hc]
    · cases a with
      | sent =>
        rcases Nat.eq_zero_or_pos k with rfl | hpos
        · refine ⟨fun _ => true, ?_⟩
          simp only [resend, retransmit, hc, resend_zero]
          rfl
        · have hu : u64 (q + 1) = q + 1 := u64_of_lt (by omega)
          obtain ⟨sent, h⟩ := resend_eq s as k (q + 1) (by omega)
          refine ⟨fun r => if r = q then true else sent r, ?_⟩
          have hcongr := retransmit_congr s (f := sent)
            (g := fun r => if r = q then true else sent r)
            k (q + 1) (by omega) fun r h1 _ => by rw [if_neg (by omega)]
          simp only [resend, retransmit, hc, hu, h, hcongr]
          rfl
      | wouldBlock =>
        obtain ⟨sent, h⟩ := resend_eq s as (k + 1) q hk
        refine ⟨sent, ?_⟩
        rw [← h]
        simp only [resend, hc]
      | intr =>
        obtain ⟨sent, h⟩ := resend_eq s as (k + 1) q hk
        refine ⟨sent, ?_⟩
        rw [← h]
        simp only [resend, hc]
      | err =>
        refine ⟨fun _ => false, ?_⟩
        simp only [resend, retransmit, hc]
        rfl

/-- **Exactly the acks, heartbeats and NAKs that find no room are not treated as lost.** -/
theorem tolerant_iff (c : Call) : Tolerant c ↔ Roomy c := by
  cases c with
  | recvInput s fresh stack r io => exact recvInput_iff s fresh stack r io
  | next s stack io => exact next_iff s stack io
  | recvOutput s now stack ioAck ioNak => exact recvOutput_iff s now stack ioAck ioNak
  | sendOutput s now stack io => exact sendOutput_iff s now stack io
  | resend s io b e =>
    refine iff_of_true (fun he => ⟨resend_filter s io _ _, ?_⟩) trivial
    rcases Nat.lt_or_ge e b with hlt | hle
    · refine ⟨fun _ => true, ?_⟩
      rw [show e + 1 - b = 0 by omega, resend_zero]
      rfl
    · exact resend_eq s io (e + 1 - b) b (by omega)

/-- A receiver that has packet 1, with packet 3 in the reorder buffer. -/
def recver : RecvSock := { Recvep.open 7 1 with
  latestRecvedValidSeqNo := 1
  unvalidPkgBegin := 3
  unvalidPkgEnd := 3
  vecUnvalidPkgs := fun i => if i = 3 then some (CMemBlock.new fun _ => 0) else none }

/-- **A full buffer ends the process**: at an ack of `get_next_recved_data`, at an ack and at a NAK
of the receiver's timer, and at a heartbeat; and a NAK that answers a heartbeat makes
`handle_can_recv` return an error. -/
theorem full_buffer_fails :
    ¬ Tolerant (.next recver (fun _ => 0) [.wouldBlock]) ∧
    ¬ Tolerant (.recvOutput { recver with lastSendAckTime := 1 } 20000 (fun _ => 0)
      [.intr, .wouldBlock] []) ∧
    ¬ Tolerant (.recvOutput { recver with lastSendNakTime := 1 } 2000 (fun _ => 0) []
      [.wouldBlock]) ∧
    ¬ Tolerant (.sendOutput { Sendep.open ⟨1, 1⟩ 7 1000 500 10 with lastHbTime := 1 } 12
      (fun _ => 0) [.wouldBlock]) ∧
    ¬ Tolerant (.recvInput recver (fun _ => 0) (fun _ => 0)
      (.dgram ⟨9, 9⟩ (hbBytes (fun _ => 0) 7 3 1)) [.wouldBlock]) := by
  refine ⟨fun h => ?_, fun h => ?_, fun h => ?_, fun h => ?_, fun h => ?_⟩
  · refine (next_iff recver (fun _ => 0) [.wouldBlock]).mp h rfl
      ⟨⟨fun _ hb => (nomatch hb), fun h0 => absurd h0.1 (Nat.lt_irrefl 0)⟩, ?_, Or.inr ?_⟩
    · show 0 < 1
      omega
    · show 1 ≤ sub64 1 0
      decide
  · refine ((recvOutput_iff _ 20000 (fun _ => 0) [.intr, .wouldBlock] []).mp h).1 rfl ⟨?_, ?_⟩
    · show sendAckInterval < sub64 20000 1
      decide
    · show 0 < 1
      omega
  · have hdue : NakDue { recver with lastSendNakTime := 1 } 2000 := by
      refine ⟨?_, ?_, ?_⟩
      · show sendNakInterval < sub64 2000 1
        decide
      · show 1 < 3
        omega
      · show u64 2 ≤ sub64 3 1
        decide
    exact nomatch (((recvOutput_iff _ 2000 (fun _ => 0) [] [.wouldBlock]).mp h).2 rfl hdue).2
  · refine (sendOutput_iff _ 12 (fun _ => 0) [.wouldBlock]).mp h rfl ⟨Or.inr rfl, ?_⟩
    show 10 < sub64 12 1
    decide
  · have hle := (recvInput_iff recver _ _ _ [.wouldBlock]).mp h rfl _ ⟨⟨9, 9⟩, rfl⟩ rfl rfl
    have hlt : ¬ 3 ≤ 1 := by omega
    exact hlt hle

end SmartNet.Network.Rmp.FullBuffer

import SmartNet.Network.Rmp.OneRecver

/-! # What the sender survives

An ack or a NAK speaks of the past of a receiver, and the head of the send window may have moved on
since.

* `sender_survives`: the asserts of the sender hold over a run exactly if the acks and NAKs it
  handles begin at the head or above, and the heartbeats that are due can be sent;
* `dies_of_old_ack`: a run with one receiver, whose timer repeats an ack that was handled before. -/

namespace SmartNet.Network.Rmp.SenderLife

open SmartNet.Common SmartNet.Lib SmartNet.Lib.Run SmartNet.Network.Udp SmartNet.Network.Rmp.Sendep
open SmartNet.Network.Rmp.SendRun SmartNet.Network.Rmp.Multicast SmartNet.Network.Rmp.OneRecver

variable {ι : Type} {w : World ι} {a : WorldAct ι}

/-- No assert of the sender has failed. -/
def Alive (w : World ι) : Prop := ∀ f, w.sender.fault = some f → ¬ SenderAssert f

/-- If the sender is called, it is in a way that its asserts allow. -/
def Allowed (w : World ι) (a : WorldAct ι) : Prop :=
  ∀ c, a.call w = .inl c → w.sender.fault = none → Handled w.sender.sock c

/-- The last 64-bit number is not given to a packet. -/
def Fewer (w : World ι) : Prop := w.sender.accepted.length < 2 ^ 64 - 1

theorem Fewer.few (h : Fewer w) : Few w := Nat.lt_of_lt_of_le h (Nat.sub_le _ _)

variable [DecidableEq ι]

theorem fewer_step (w : World ι) (a : WorldAct ι) (h : Fewer (Multicast.step true w a)) : Fewer w :=
  Nat.lt_of_le_of_lt (accepted_le w a) h

theorem alive_of_step (w : World ι) (a : WorldAct ι) (h : Alive (Multicast.step true w a)) :
    Alive w := by
  intro f hf
  refine h f ?_
  have hne : w.sender.fault ≠ none := by
    rw [hf]
    exact Option.some_ne_none f
  rcases hc : a.call w with c | ⟨i, c⟩
  · rw [step_of_sender hc]
    show (SendRun.step true w.sender c).fault = some f
    rw [SendRun.step_dead hne]
    exact hf
  · rw [step_of_recver hc]
    exact hf

/-- **One step** keeps the sender alive exactly if it is allowed. -/
theorem alive_step (w : World ι) (a : WorldAct ι) (h : WorldInv w) (hfew : Fewer w)
    (hal : Alive w) :
    Alive (Multicast.step true w a) ↔ Allowed w a := by
  rcases hc : a.call w with c | ⟨i, c⟩
  · have hsender : (Multicast.step true w a).sender = SendRun.step true w.sender c := by
      rw [step_of_sender hc]; rfl
    rcases hf : w.sender.fault with _ | f
    · have hiff := asserts_iff h.window hfew (feed_of_inv h hc)
      have hal' : Alive (Multicast.step true w a) ↔ ¬ Asserts (c.exec true w.sender.sock) := by
        unfold Alive Asserts
        rw [hsender]
        rcases hres : (c.exec true w.sender.sock).res with f | ⟨t, l⟩
        · rw [step_of_error hf hres]
          refine ⟨?_, fun hn g hg hs => ?_⟩
          · rintro hall ⟨g, hg, hs⟩
            cases hg
            exact hall f rfl hs
          · cases hg
            exact hn ⟨f, rfl, hs⟩
        · rw [step_of_ok hf hres]
          refine iff_of_true (fun g hg => ?_) ?_
          · cases hg
          · rintro ⟨g, hg, -⟩
            cases hg
      rw [hal', hiff, not_not]
      constructor
      · intro hh c' hc' _
        rw [hc] at hc'
        cases hc'
        exact hh
      · exact fun hall => hall c hc hf
    · have hne : w.sender.fault ≠ none := by
        rw [hf]
        exact Option.some_ne_none f
      refine iff_of_true ?_ fun c' _ hf' => absurd hf' hne
      unfold Alive
      rw [hsender, SendRun.step_dead hne]
      exact hal
  · refine iff_of_true ?_ fun c' hc' => ?_
    · rw [step_of_recver hc]
      exact hal
    · rw [hc] at hc'
      cases hc'

/-- **The sender survives** exactly the runs whose steps are allowed, for any number of
receivers. -/
theorem sender_survives (mc : SockAddr) (sid : UInt8) (alive speed hb : ℕ) (cnt : ι → ℕ)
    (bound : ι → SockAddr) (as : List (WorldAct ι))
    (hfew : Fewer (run (Multicast.step true) (Multicast.init mc sid alive speed hb cnt bound) as)) :
    Alive (run (Multicast.step true) (Multicast.init mc sid alive speed hb cnt bound) as) ↔
      Meets (Multicast.step true) Allowed (Multicast.init mc sid alive speed hb cnt bound) as := by
  refine alive_iff_meets (I := WorldInv) fewer_step
    (fun w a h hB => step_inv w a h hB.few) alive_of_step alive_step
    (inv_init mc sid alive speed hb cnt bound) ?_ hfew
  intro f hf
  cases hf

theorem sender_survives_first :
    Alive (run (Multicast.step true) group firstAcked) ↔
      Meets (Multicast.step true) Allowed group firstAcked :=
  sender_survives ⟨1, 1⟩ 7 1000000 0 0 (fun _ => 1)
    (fun _ => ⟨1, 2⟩) firstAcked (by unfold Fewer; decide)

/-- The receiver's timer repeats the ack of packet 1, which moved the head to packet 2. -/
theorem dies_of_old_ack :
    ¬ Alive (run (Multicast.step true) group (firstAcked ++
      [.timer () 1 (fun _ => 0) .sent .sent, .timer () 20000 (fun _ => 0) .sent .sent,
        .feed (.packet 1 ⟨1, 2⟩) 0 (fun _ => 0) fun _ => true])) := by
  intro h
  refine h .sendepHandleAck (by decide) ?_
  exact Or.inr (Or.inr (Or.inl rfl))

end SmartNet.Network.Rmp.SenderLife

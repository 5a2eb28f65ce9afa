import SmartNet.Lib.Pace
import SmartNet.Lib.Process
import SmartNet.Network.Rmp.SendCalls

/-! # The rate of heartbeats

A sender that is given blocks and whose `handle_can_send` is called again and again, with the clock
readings of the calls. `m_ui64LastHbTime` is set by the first call that finds nothing to send, and
never again.

* `exec`: a call, whose datagrams are logged with the time;
* `Spread`: the caller leaves `m_ui64HbInterval` between the calls for which a heartbeat is due;
* `hb_paced`: then heartbeats come at least `m_ui64HbInterval` after every other datagram, and are
  no more than the interval allows. -/

namespace SmartNet.Network.Rmp.HbRate

open SmartNet.Common SmartNet.Lib SmartNet.Lib.Pace SmartNet.Memory.MemBlock SmartNet.Network.Udp
open SmartNet.Network.Rmp.Wire SmartNet.Network.Rmp.Sendep SmartNet.Network.Rmp.SendWin
open SmartNet.Network.Rmp.SendCalls

/-- A call of `send` with a block, or a pass of the loop of `handle_can_send`. -/
inductive Call
  | send (b : CMemBlock) (fits : b.Fits)
  | canSend (now : ℕ) (stack : ℕ → UInt8) (io : Sendto)

instance (s : SendSock) (now : ℕ) : Decidable (HbTime s now) :=
  inferInstanceAs (Decidable (_ < _))

instance (s : SendSock) : Decidable (Blocked s) := inferInstanceAs (Decidable (_ ∨ _))

/-- A pass that finds a packet to send, or a heartbeat due. -/
def Busy (s : SendSock) (now : ℕ) : Prop := ¬ Blocked s ∨ HbTime s now

instance (s : SendSock) (now : ℕ) : Decidable (Busy s now) := inferInstanceAs (Decidable (_ ∨ _))

/-- A sending socket with the last clock reading, and that of the last busy pass. -/
structure Timed where
  sock : SendSock
  clock : ℕ
  busy : Option ℕ

/-- What a call does; its datagrams carry the time. -/
def exec : Call → Timed → Eff (ℕ × Ev) Fault Timed
  | .send b _, x => do
    let (_, _, s) ← (send x.sock b).lift (fun e => (x.clock, e)) id
    pure { x with sock := s }
  | .canSend now stack io, x => do
    let (_, s) ← (sendepHandleCanSend x.sock now stack io).lift (fun e => (now, e)) id
    pure ⟨s, now, if Busy x.sock now then some now else x.busy⟩

/-- A sender that was opened. -/
def init (multicast : SockAddr) (senderId : UInt8)
    (maxKeepAliveTimeUs initSendSpeed hbInterval : ℕ) : Proc Timed (ℕ × Ev) Fault :=
  { obj := ⟨Sendep.open multicast senderId maxKeepAliveTimeUs initSendSpeed hbInterval, 0, none⟩ }

/-- The datagram is a heartbeat. -/
def IsHbEv : Ev → Prop
  | .sendto _ d => opcode d = epHb
  | .recved _ => False

instance : DecidablePred IsHbEv := fun e => match e with
  | .sendto _ d => inferInstanceAs (Decidable (opcode d = epHb))
  | .recved _ => .isFalse id

/-- The clock does not go back. -/
def Forward (x : Timed) : Call → Prop
  | .send _ _ => True
  | .canSend now _ _ => x.clock ≤ now

/-- A pass that finds nothing to send but a heartbeat due comes `m_ui64HbInterval` after the last
busy one. -/
def Spread (x : Timed) : Call → Prop
  | .send _ _ => True
  | .canSend now _ _ => Blocked x.sock → HbTime x.sock now →
      ∀ t ∈ x.busy, t + x.sock.hbInterval ≤ now

/-- Every slot of the send window has a data packet. -/
def Odatas (s : SendSock) : Prop := ∀ i c, s.vecSendWin i = some c → opcode c.data = epData

/-- **The invariant**: no datagram is later than the last busy pass. -/
structure Inv (I : ℕ) (log : List (ℕ × Ev)) (x : Timed) : Prop where
  paced : Paced I IsHbEv log
  busy : ∀ e ∈ log, ∃ t ∈ x.busy, e.1 ≤ t
  clock : ∀ t ∈ x.busy, t ≤ x.clock
  odatas : Odatas x.sock
  interval : x.sock.hbInterval = I

variable {s t : SendSock} {x y : Timed} {log evs : List (ℕ × Ev)} {I now : ℕ} {b : CMemBlock}
  {stack : ℕ → UInt8} {io : Sendto}

/-! ### One call -/

theorem send_odatas (h : Odatas s) (hf : b.Fits) {ret : Cmnerr} {pm : Option CMemBlock}
    (hres : (send s b).res = .ok (ret, pm, t)) : Odatas t ∧ t.hbInterval = s.hbInterval := by
  by_cases ho : b.offset = 16
  · rcases send_cases (s := s) ho hf with ⟨c, heq, -⟩ | ⟨heq, -⟩
    · rw [heq] at hres
      cases hres
      exact ⟨h, rfl⟩
    · rw [heq] at hres
      cases hres
      refine ⟨fun i c hc => ?_, rfl⟩
      have hc' : Function.update s.vecSendWin (s.validSendingDataTail % sendWinSize)
        (some (packet s.senderId s.validSendingDataTail b)) i = some c := hc
      rw [Function.update_apply] at hc'
      split_ifs at hc' with hi
      · cases hc'
        exact opcode_packet _ _ _
      · exact h i c hc'
  · rw [send_offset ho] at hres
    cases hres

theorem send_evs (s : SendSock) (hf : b.Fits) : (send s b).evs = [] := by
  by_cases ho : b.offset = 16
  · rcases send_cases (s := s) ho hf with ⟨c, heq, -⟩ | ⟨heq, -⟩
    · rw [heq]; rfl
    · rw [heq]; rfl
  · rw [send_offset ho]; rfl

/-- A pass of the loop sends at most one datagram; a heartbeat only when there is nothing to send
and one is due. -/
theorem canSend_evs (h : Odatas s) (now : ℕ) (stack : ℕ → UInt8) (io : Sendto) :
    ((sendepHandleCanSend s now stack io).evs = [] ∨
      ∃ e, (sendepHandleCanSend s now stack io).evs = [e] ∧ Busy s now ∧
        (IsHbEv e → Blocked s ∧ HbTime s now)) ∧
    ∀ ret t, (sendepHandleCanSend s now stack io).res = .ok (ret, t) →
      t.vecSendWin = s.vecSendWin ∧ t.hbInterval = s.hbInterval := by
  by_cases hbl : Blocked s
  · rw [canSend_blocked hbl]
    obtain ⟨t, rfl, ⟨-, heq⟩ | ⟨hdue, -, heq⟩ | ⟨-, -, heq⟩⟩ := sendepHb_eq s now stack io
    · rw [heq]
      refine ⟨Or.inl rfl, fun ret t ht => ?_⟩
      cases ht
      exact ⟨rfl, rfl⟩
    · rw [heq]
      refine ⟨Or.inr ⟨_, rfl, Or.inr hdue, fun _ => ⟨hbl, hdue⟩⟩, fun ret t ht => ?_⟩
      cases ht
      exact ⟨rfl, rfl⟩
    · rw [heq]
      exact ⟨Or.inl rfl, fun ret t ht => nomatch ht⟩
  · rcases canSend_open hbl now stack with ⟨f, heq⟩ | ⟨i, c, hc, hsent, hblock, herr⟩
    · rw [heq]
      exact ⟨Or.inl rfl, fun ret t ht => nomatch ht⟩
    · rcases io with _ | _ | _
      · rw [hsent]
        refine ⟨Or.inr ⟨_, rfl, Or.inl hbl, fun hhb => ?_⟩, fun ret t ht => ?_⟩
        · have hhb' : opcode c.data = epHb := hhb
          rw [h i c hc] at hhb'
          exact absurd hhb' (by decide)
        · cases ht
          exact ⟨rfl, rfl⟩
      · rw [hblock]
        refine ⟨Or.inl rfl, fun ret t ht => ?_⟩
        cases ht
        exact ⟨rfl, rfl⟩
      · rw [herr]
        refine ⟨Or.inl rfl, fun ret t ht => ?_⟩
        cases ht
        exact ⟨rfl, rfl⟩

theorem lift_ok {α : Type} {y : Eff Ev Fault α} {g : Ev → ℕ × Ev} {a : α}
    (h : (y.lift g id).res = .ok a) : y.res = .ok a := by
  obtain ⟨evs, f | b⟩ := y
  · exact nomatch h
  · exact h

theorem send_keeps {fits : b.Fits} (h : Inv I log x) :
    Paced I IsHbEv (log ++ (exec (.send b fits) x).evs) ∧
      ∀ y, (exec (.send b fits) x).res = .ok y →
        Inv I (log ++ (exec (.send b fits) x).evs) y := by
  have hevs : (exec (.send b fits) x).evs = [] := by
    unfold exec
    rw [Eff.bind_pure_evs]
    show (send x.sock b).evs.map _ = []
    rw [send_evs x.sock fits, List.map_nil]
  rw [hevs, List.append_nil]
  refine ⟨h.paced, fun y hy => ?_⟩
  obtain ⟨⟨ret, pm, t⟩, ht, hpure⟩ := Eff.bind_res_ok hy
  obtain ⟨h1, h2⟩ := send_odatas h.odatas fits (lift_ok ht)
  cases hpure
  exact ⟨h.paced, h.busy, h.clock, h1, h2.trans h.interval⟩

theorem canSend_keeps (h : Inv I log x) (hf : Forward x (.canSend now stack io))
    (hs : Spread x (.canSend now stack io)) :
    Paced I IsHbEv (log ++ (exec (.canSend now stack io) x).evs) ∧
      ∀ y, (exec (.canSend now stack io) x).res = .ok y →
        Inv I (log ++ (exec (.canSend now stack io) x).evs) y := by
  obtain ⟨hsent, hstate⟩ := canSend_evs h.odatas now stack io
  have hevs : (exec (.canSend now stack io) x).evs =
      (sendepHandleCanSend x.sock now stack io).evs.map fun e => (now, e) := by
    unfold exec
    rw [Eff.bind_pure_evs]
    rfl
  have hclock : ∀ t ∈ (if Busy x.sock now then some now else x.busy), t ≤ now := fun t ht => by
    split_ifs at ht
    · cases ht
      exact Nat.le_refl _
    · exact Nat.le_trans (h.clock t ht) hf
  -- an earlier datagram is not later than the last busy pass
  have hbusy : ∀ e ∈ log, ∃ t ∈ (if Busy x.sock now then some now else x.busy), e.1 ≤ t :=
    fun e he => by
      obtain ⟨t, ht, hle⟩ := h.busy e he
      split_ifs
      · exact ⟨now, rfl, Nat.le_trans hle (Nat.le_trans (h.clock t ht) hf)⟩
      · exact ⟨t, ht, hle⟩
  have hnext : ∀ y, (exec (.canSend now stack io) x).res = .ok y → y.clock = now ∧
      y.busy = (if Busy x.sock now then some now else x.busy) ∧
      y.sock.vecSendWin = x.sock.vecSendWin ∧
      y.sock.hbInterval = x.sock.hbInterval := fun y hy => by
    obtain ⟨⟨ret, t⟩, ht, hpure⟩ := Eff.bind_res_ok hy
    have := hstate ret t (lift_ok ht)
    cases hpure
    exact ⟨rfl, rfl, this⟩
  rw [hevs]
  rcases hsent with hnil | ⟨e, hone, hb, hhb⟩
  · rw [hnil, List.map_nil, List.append_nil]
    refine ⟨h.paced, fun y hy => ?_⟩
    obtain ⟨h1, h2, h3, h4⟩ := hnext y hy
    refine ⟨h.paced, by rw [h2]; exact hbusy, by rw [h1, h2]; exact hclock, ?_,
      h4.trans h.interval⟩
    unfold Odatas
    rw [h3]
    exact h.odatas
  · rw [hone, List.map_singleton]
    have hpaced : Paced I IsHbEv (log ++ [(now, e)]) := h.paced.snoc fun hbeat z hz => by
      obtain ⟨hbl, hdue⟩ := hhb hbeat
      obtain ⟨t, ht, hle⟩ := h.busy z hz
      have := hs hbl hdue t ht
      rw [h.interval] at this
      omega
    refine ⟨hpaced, fun y hy => ?_⟩
    obtain ⟨h1, h2, h3, h4⟩ := hnext y hy
    refine ⟨hpaced, fun z hz => ?_, by rw [h1, h2]; exact hclock, ?_, h4.trans h.interval⟩
    · rw [h2]
      rcases List.mem_append.mp hz with hz | hz
      · exact hbusy z hz
      · rw [List.mem_singleton] at hz
        subst hz
        rw [if_pos hb]
        exact ⟨now, rfl, Nat.le_refl _⟩
    · unfold Odatas
      rw [h3]
      exact h.odatas

/-! ### Runs -/

theorem exec_triple (I : ℕ) (a : Call) :
    Eff.Triple (fun log x => Inv I log x ∧ Forward x a ∧ Spread x a) (exec a) (Inv I)
      (fun log _ => Paced I IsHbEv log) := by
  intro log x ⟨h, hf, hs⟩
  have hkeeps : Paced I IsHbEv (log ++ (exec a x).evs) ∧
      ∀ y, (exec a x).res = .ok y → Inv I (log ++ (exec a x).evs) y := by
    cases a with
    | send b fits => exact send_keeps h
    | canSend now stack io => exact canSend_keeps h hf hs
  rcases hres : (exec a x).res with f | y
  · exact hkeeps.1
  · exact hkeeps.2 y hres

theorem inv_init (multicast : SockAddr) (sid : UInt8) (alive speed I : ℕ) :
    Inv I [] (init multicast sid alive speed I).obj :=
  ⟨paced_nil, fun _ he => (nomatch he), fun _ ht => (nomatch ht), fun _ _ hc => (nomatch hc), rfl⟩

/-- **Heartbeats fill silence**, in every run whose calls for a heartbeat are spread: each comes at
least the interval after every datagram before it, and in a stretch of time `T` there are at most
`T / I + 1`. -/
theorem hb_paced (multicast : SockAddr) (sid : UInt8) (alive speed I : ℕ) (as : List Call)
    (hs : Proc.Meets exec (fun x a => Forward x a ∧ Spread x a) (init multicast sid alive speed I)
      as) :
    Paced I IsHbEv (Proc.run exec (init multicast sid alive speed I) as).log ∧
      ∀ a T, 0 < I → ((Proc.run exec (init multicast sid alive speed I) as).log.filter fun e =>
        IsHbEv e.2 ∧ a ≤ e.1 ∧ e.1 ≤ a + T).length ≤ T / I + 1 := by
  have h : Proc.Holds (Inv I) (fun log _ => Paced I IsHbEv log)
      (Proc.run exec (init multicast sid alive speed I) as) :=
    Proc.run_inv (exec_triple I) (inv_init multicast sid alive speed I) hs
  have hpaced : Paced I IsHbEv (Proc.run exec (init multicast sid alive speed I) as).log := by
    rcases hf : (Proc.run exec (init multicast sid alive speed I) as).fault with _ | f
    · exact (h.alive hf).paced
    · exact h.dead hf
  exact ⟨hpaced, fun a T hI => hpaced.count_le hI a T⟩

/-- A pass of the loop at the time `now`. -/
def pass (now : ℕ) : Call := .canSend now (fun _ => 0) .sent

/-- Two heartbeats, 11 microseconds apart. -/
theorem hb_paced_twice :
    Paced 10 IsHbEv (Proc.run exec (init ⟨1, 1⟩ 7 1000 500 10) [pass 1, pass 12, pass 23]).log ∧
      ∀ a T, 0 < 10 → ((Proc.run exec (init ⟨1, 1⟩ 7 1000 500 10)
        [pass 1, pass 12, pass 23]).log.filter fun e =>
          IsHbEv e.2 ∧ a ≤ e.1 ∧ e.1 ≤ a + T).length ≤ T / 10 + 1 := by
  refine hb_paced ⟨1, 1⟩ 7 1000 500 10 [pass 1, pass 12, pass 23]
    ⟨⟨?_, fun _ _ t ht => ?_⟩, ⟨?_, fun _ _ t ht => ?_⟩, ⟨?_, fun _ _ t ht => ?_⟩, trivial⟩
  · show 0 ≤ 1
    omega
  · cases ht
  · show 1 ≤ 12
    omega
  · cases ht
  · show 12 ≤ 23
    omega
  · have ht' : some 12 = some t := ht
    cases ht'
    show 12 + 10 ≤ 23
    omega

/-- **A flood.** Once the interval has passed since the first idle call, every idle call sends a
heartbeat. -/
theorem hb_flood : Proc.Meets exec Forward (init ⟨1, 1⟩ 7 1000 500 10) [pass 1, pass 12, pass 13] ∧
    ¬ Paced 10 IsHbEv (Proc.run exec (init ⟨1, 1⟩ 7 1000 500 10)
      [pass 1, pass 12, pass 13]).log := by
  refine ⟨⟨?_, ?_, ?_, trivial⟩, fun h => ?_⟩
  · show 0 ≤ 1
    omega
  · show 1 ≤ 12
    omega
  · show 12 ≤ 13
    omega
  · have hlog : ∃ d, (Proc.run exec (init ⟨1, 1⟩ 7 1000 500 10) [pass 1, pass 12, pass 13]).log =
        [(12, .sendto ⟨1, 1⟩ d), (13, .sendto ⟨1, 1⟩ d)] ∧ opcode d = epHb := ⟨_, rfl, rfl⟩
    obtain ⟨d, hlog, hop⟩ := hlog
    rw [hlog] at h
    have := (List.pairwise_cons.mp h).1 _ (List.mem_singleton_self _) hop
    omega

end SmartNet.Network.Rmp.HbRate

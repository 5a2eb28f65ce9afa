import SmartNet.Framework.TimerObj
import SmartNet.Network.Rmp.SendCalls
import SmartNet.Network.Rmp.Timers

/-! # Elapsed-time tests

The five places where a clock reading is compared with a stored one. `CRmpSock` subtracts and
`ITimerObj` adds, both modulo 2^64.

* `Timely`: the test acts only when its interval has passed since the stored time;
* `timely_iff`: exactly when the comparison does not wrap. -/

namespace SmartNet.Network.Rmp.Clocks

open SmartNet.Common SmartNet.Lib SmartNet.Network.Udp SmartNet.Network.Rmp.Wire
open SmartNet.Network.Rmp.Recvep SmartNet.Network.Rmp.Sendep SmartNet.Network.Rmp.SendCalls
open SmartNet.Network.Rmp.Timers SmartNet.Framework.TimerObj
open SmartNet.Network.Rmp.AppAcks (AckDue)

/-- A test with its clock reading: the heartbeat of a sender, the ack and the NAK of a receiver's
timer, the expiry of the entry `e` of a receiver table when an ack is handled, and `check`. -/
inductive Test
  | hb (s : SendSock) (now : ℕ) (stack : ℕ → UInt8)
  | ack (s : RecvSock) (now : ℕ) (stack : ℕ → UInt8)
  | nak (s : RecvSock) (now : ℕ) (stack : ℕ → UInt8)
  | expiry (maxKeepAliveTimeUs : ℕ) (m : RecverMap) (e : ℕ × SRecverInfo) (now : ℕ)
  | check (t : ITimerObj) (now : ℕ)

namespace Test

/-- The clock reading. -/
def now : Test → ℕ
  | .hb _ now _ => now
  | .ack _ now _ => now
  | .nak _ now _ => now
  | .expiry _ _ _ now => now
  | .check _ now => now

/-- The time it is compared with; a socket that has none stores the reading first. -/
def stored : Test → ℕ
  | .hb s now _ => if s.lastHbTime = 0 then now else s.lastHbTime
  | .ack s now _ => if s.lastSendAckTime = 0 then now else s.lastSendAckTime
  | .nak s now _ => if s.lastSendNakTime = 0 then now else s.lastSendNakTime
  | .expiry _ _ e _ => e.2.lastUpdateTimeUs
  | .check t _ => t.lastTime

def interval : Test → ℕ
  | .hb s _ _ => s.hbInterval
  | .ack _ _ _ => sendAckInterval
  | .nak _ _ _ => sendNakInterval
  | .expiry alive _ _ _ => alive
  | .check t _ => t.interval

/-- The test has something to do: a timer object its time stored, the others something to send or an
entry to remove. -/
def Armed : Test → Prop
  | .hb _ _ _ => True
  | .ack s _ _ => 0 < s.latestRecvedValidSeqNo
  | .nak s _ _ => s.latestRecvedValidSeqNo < s.unvalidPkgBegin ∧
      u64 (s.latestRecvedValidSeqNo + 1) ≤ sub64 s.unvalidPkgBegin 1
  | .expiry _ m e _ => e ∈ m
  | .check t _ => t.lastTime ≠ 0

/-- The test acts: it sends, removes the entry, or calls `on_timer`. The first call of `on_timer` is
not compared with a time. -/
def Acts : Test → Prop
  | .hb s now stack => (sendepHb s now stack .sent).evs ≠ []
  | .ack s now stack => (timerAck s now stack .sent).evs ≠ []
  | .nak s now stack => (timerNak s now stack .sent).evs ≠ []
  | .expiry alive m e now => e ∈ m ∧ e ∉ (prune now alive (firstRecved m) m).2
  | .check t now => t.lastTime ≠ 0 ∧ (t.check now).1 = true

/-- **What a test is for.** -/
def Timely (c : Test) : Prop := c.Acts → c.stored + c.interval ≤ c.now

/-- The difference, or the sum, leaves the 64 bits, and the test is passed for that reason. -/
def Wraps : Test → Prop
  | .check t now => 2 ^ 64 ≤ t.lastTime + t.interval ∧ t.lastTime + t.interval ≤ now + 2 ^ 64
  | c => c.now < c.stored ∧ c.interval + c.stored < c.now + 2 ^ 64

/-- The numbers are 64-bit numbers. -/
structure InRange (c : Test) : Prop where
  now : c.now < 2 ^ 64
  stored : c.stored < 2 ^ 64
  interval : c.interval < 2 ^ 64

end Test

theorem elapsed_iff {now stored i : ℕ} (hn : now < 2 ^ 64) (hs : stored < 2 ^ 64) :
    (i < sub64 now stored → stored + i ≤ now) ↔
      ¬ (now < stored ∧ i + stored < now + 2 ^ 64) := by
  unfold sub64 u64
  omega

theorem hb_acts (s : SendSock) (now : ℕ) (stack : ℕ → UInt8) :
    (sendepHb s now stack .sent).evs ≠ [] ↔ HbTime s now := by
  obtain ⟨t, -, ⟨hno, heq⟩ | ⟨hdue, -, heq⟩ | ⟨-, h, -⟩⟩ := sendepHb_eq s now stack .sent
  · rw [heq]
    exact iff_of_false (fun h => h rfl) hno
  · rw [heq]
    exact iff_of_true (List.cons_ne_nil _ _) hdue
  · exact absurd rfl h

theorem sends_acts {due : Prop} {dest : SockAddr} {d : List UInt8} {f : Fault} {t : RecvSock}
    {x : Sendto → Eff Ev Fault RecvSock} (h : Sends due dest d f t x) :
    (x .sent).evs ≠ [] ↔ due := by
  rcases h with ⟨hno, heq⟩ | ⟨hdue, heq, -⟩
  · rw [heq]
    exact iff_of_false (fun h => h rfl) hno
  · rw [heq]
    exact iff_of_true (List.cons_ne_nil _ _) hdue

theorem expiry_acts (alive : ℕ) (m : RecverMap) (e : ℕ × SRecverInfo) (now : ℕ) :
    e ∈ m ∧ e ∉ (prune now alive (firstRecved m) m).2 ↔
      e ∈ m ∧ alive < sub64 now e.2.lastUpdateTimeUs := by
  obtain ⟨hfilter, -, -⟩ := prune_spec now alive m (firstRecved m)
  rw [hfilter, List.mem_filter, decide_eq_true_eq]
  unfold Live
  constructor
  · rintro ⟨hm, hno⟩
    exact ⟨hm, Nat.not_le.mp fun h => hno ⟨hm, h⟩⟩
  · rintro ⟨hm, hlt⟩
    exact ⟨hm, fun h => absurd h.2 (Nat.not_le.mpr hlt)⟩

/-- **A test is timely exactly if its comparison does not wrap.** -/
theorem timely_iff (c : Test) (h : c.InRange) : c.Timely ↔ ¬ (c.Armed ∧ c.Wraps) := by
  obtain ⟨hn, hs, hi⟩ := h
  cases c with
  | hb s now stack =>
    show ((sendepHb s now stack .sent).evs ≠ [] → _) ↔ ¬ (True ∧ _)
    rw [hb_acts, true_and]
    exact elapsed_iff hn hs
  | ack s now stack =>
    obtain ⟨t, -, hsend⟩ := timerAck_cases s now stack
    have hel := elapsed_iff (i := sendAckInterval) hn hs
    show ((timerAck s now stack .sent).evs ≠ [] → _) ↔ _
    rw [sends_acts hsend]
    constructor
    · rintro h ⟨ha, hw⟩
      exact hel.mp (fun ht => h ⟨ht, ha⟩) hw
    · rintro h ⟨ht, ha⟩
      exact hel.mpr (fun hw => h ⟨ha, hw⟩) ht
  | nak s now stack =>
    obtain ⟨t, -, hsend⟩ := timerNak_cases s now stack
    have hel := elapsed_iff (i := sendNakInterval) hn hs
    show ((timerNak s now stack .sent).evs ≠ [] → _) ↔ _
    rw [sends_acts hsend]
    constructor
    · rintro h ⟨ha, hw⟩
      exact hel.mp (fun ht => h ⟨ht, ha⟩) hw
    · rintro h ⟨ht, ha⟩
      exact hel.mpr (fun hw => h ⟨ha, hw⟩) ht
  | expiry alive m e now =>
    have hel := elapsed_iff (i := alive) hn hs
    show (e ∈ m ∧ e ∉ (prune now alive (firstRecved m) m).2 → _) ↔ _
    rw [expiry_acts]
    constructor
    · rintro h ⟨hm, hw⟩
      exact hel.mp (fun ht => h ⟨hm, ht⟩) hw
    · rintro h ⟨hm, ht⟩
      exact hel.mpr (fun hw => h ⟨hm, hw⟩) ht
  | check t now =>
    have hn' : now < 2 ^ 64 := hn
    have hs' : t.lastTime < 2 ^ 64 := hs
    have hi' : t.interval < 2 ^ 64 := hi
    show (t.lastTime ≠ 0 ∧ (t.check now).1 = true → t.lastTime + t.interval ≤ now) ↔
      ¬ (t.lastTime ≠ 0 ∧ 2 ^ 64 ≤ t.lastTime + t.interval ∧
        t.lastTime + t.interval ≤ now + 2 ^ 64)
    rw [check_fires]
    unfold u64
    omega

/-- The clock has stepped back by a microsecond since a receiver was heard from. -/
theorem timely_iff_stepped_back :
    (Test.expiry 1000 [(7, { lastUpdateTimeUs := 100 })] (7, { lastUpdateTimeUs := 100 }) 99).Timely
      ↔ ¬ ((7, ({ lastUpdateTimeUs := 100 } : SRecverInfo)) ∈ [(7, { lastUpdateTimeUs := 100 })] ∧
          99 < 100 ∧ 1000 + 100 < 99 + 2 ^ 64) :=
  timely_iff _ ⟨by decide, by decide, by decide⟩

/-- That receiver is expired, and the only one: the smallest acknowledgement is then its own. -/
theorem stepped_back_expires : ¬ ∀ c : Test, c.InRange → c.Timely := by
  intro h
  have hgone : (Test.expiry 1000 [(7, { lastUpdateTimeUs := 100 })] (7, { lastUpdateTimeUs := 100 })
      99).Acts := by
    refine ⟨by decide, ?_⟩
    decide
  have hlate := h _ ⟨by decide, by decide, by decide⟩ hgone
  exact absurd hlate (by decide)

end SmartNet.Network.Rmp.Clocks

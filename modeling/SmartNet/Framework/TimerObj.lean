import SmartNet.Common.Types
import SmartNet.Lib.Pace

/-! # `ITimerObj`

A timer object of the misc task. `CTimeNotifier` calls `check` with every clock reading; a reading
at which the object fires is stored. The first one always fires: no time is stored yet.

* `check_fires`: when a reading fires;
* `firings_paced`: whatever the clock does, firings are at least the interval apart, as long as the
  sum of the stored time and the interval does not wrap. -/

namespace SmartNet.Framework.TimerObj

open SmartNet.Common SmartNet.Lib.Pace

structure ITimerObj where
  lastTime : ℕ
  interval : ℕ

/-- `check`: whether `on_timer` is called, and the object. -/
def ITimerObj.check (t : ITimerObj) (curTimeInUs : ℕ) : Bool × ITimerObj :=
  if t.lastTime = 0 then (true, { t with lastTime := curTimeInUs })
  else if u64 (t.lastTime + t.interval) ≤ curTimeInUs then
    (true, { t with lastTime := curTimeInUs })
  else (false, t)

variable {t : ITimerObj} {now : ℕ}

theorem check_fires (t : ITimerObj) (now : ℕ) :
    (t.check now).1 = true ↔ t.lastTime = 0 ∨ u64 (t.lastTime + t.interval) ≤ now := by
  unfold ITimerObj.check
  by_cases h0 : t.lastTime = 0
  · simp [h0]
  · by_cases h1 : u64 (t.lastTime + t.interval) ≤ now
    · simp [h1]
    · simp [h0, h1]

theorem check_obj (t : ITimerObj) (now : ℕ) : (t.check now).2 =
    if (t.check now).1 then { t with lastTime := now } else t := by
  unfold ITimerObj.check
  by_cases h0 : t.lastTime = 0
  · simp [h0]
  · by_cases h1 : u64 (t.lastTime + t.interval) ≤ now
    · simp [h1]
    · simp [h0, h1]

/-- The readings at which the object fires. -/
def firings (t : ITimerObj) : List ℕ → List (ℕ × Unit)
  | [] => []
  | now :: readings =>
    (if (t.check now).1 then [(now, ())] else []) ++ firings (t.check now).2 readings

/-- **The pace of a timer.** Its firings, after the one that stored the time, come the interval
after each other, in any order of the readings. -/
theorem firings_paced : ∀ {t : ITimerObj} {readings : List ℕ},
    (∀ r ∈ readings, 0 < r ∧ r + t.interval < 2 ^ 64) → t.lastTime + t.interval < 2 ^ 64 →
      Paced t.interval (fun _ => True) (firings t readings) ∧
        (0 < t.lastTime → ∀ x ∈ firings t readings, t.lastTime + t.interval ≤ x.1)
  | t, [], _, _ => ⟨paced_nil, fun _ x hx => nomatch hx⟩
  | t, now :: readings, hr, ht => by
    obtain ⟨hnow, hrest⟩ := List.forall_mem_cons.mp hr
    have hu : u64 (t.lastTime + t.interval) = t.lastTime + t.interval := u64_of_lt ht
    have hobj := check_obj t now
    by_cases hf : (t.check now).1 = true
    · rw [if_pos hf] at hobj
      obtain ⟨hpaced, hlater⟩ := firings_paced (t := { t with lastTime := now }) hrest hnow.2
      have hlater' : ∀ x ∈ firings { t with lastTime := now } readings, now + t.interval ≤ x.1 :=
        hlater hnow.1
      have heq : firings t (now :: readings) =
          (now, ()) :: firings { t with lastTime := now } readings := by
        simp only [firings, hobj, if_pos hf, List.singleton_append]
      rw [heq]
      refine ⟨List.pairwise_cons.mpr ⟨fun x hx _ => hlater' x hx, hpaced⟩, fun h0 x hx => ?_⟩
      have hdue : t.lastTime + t.interval ≤ now := by
        rcases (check_fires t now).mp hf with h | h
        · omega
        · omega
      rcases List.mem_cons.mp hx with rfl | hx
      · exact hdue
      · have := hlater' x hx
        omega
    · rw [if_neg hf] at hobj
      have heq : firings t (now :: readings) = firings t readings := by
        simp only [firings, hobj, if_neg hf, List.nil_append]
      rw [heq]
      exact firings_paced hrest ht

end SmartNet.Framework.TimerObj

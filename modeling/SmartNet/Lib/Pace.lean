import Mathlib.Data.List.Pairwise
import Mathlib.Tactic.Common

/-! # Paced events

A history is a list of events with the times at which they happened. Events of a kind `C` are paced
by an interval `I` if each of them happens at least `I` after every event before it.

* `Paced.snoc`: one more event;
* `Paced.count_le`: in a stretch of time `T` there are at most `T / I + 1` events of the kind. -/

namespace SmartNet.Lib.Pace

variable {ε : Type*} {C : ε → Prop} {I a T t : ℕ} {log : List (ℕ × ε)} {e : ε}

/-- An event of the kind `C` happens at least `I` after every earlier event. -/
def Paced (I : ℕ) (C : ε → Prop) (log : List (ℕ × ε)) : Prop :=
  log.Pairwise fun x y => C y.2 → x.1 + I ≤ y.1

theorem paced_nil : Paced I C [] := List.Pairwise.nil

theorem Paced.snoc (h : Paced I C log) (hnew : C e → ∀ x ∈ log, x.1 + I ≤ t) :
    Paced I C (log ++ [(t, e)]) := by
  refine List.pairwise_append.mpr ⟨h, List.pairwise_singleton _ _, fun x hx y hy hc => ?_⟩
  rw [List.mem_singleton] at hy
  subst hy
  exact hnew hc x hx

theorem length_le_of_apart : ∀ {l : List (ℕ × ε)} {a b : ℕ},
    l.Pairwise (fun x y => x.1 + I ≤ y.1) → (∀ x ∈ l, a ≤ x.1 ∧ x.1 ≤ b) →
      (l.length - 1) * I ≤ b - a
  | [], _, _, _, _ => by simp
  | [_], _, _, _, _ => by simp
  | x :: y :: l, a, b, h, hl => by
    obtain ⟨hx, htail⟩ := List.pairwise_cons.mp h
    have hxa := hl x List.mem_cons_self
    have hya := hl y (List.mem_cons_of_mem _ List.mem_cons_self)
    have hxy := hx y List.mem_cons_self
    have hrest : ∀ z ∈ y :: l, y.1 ≤ z.1 ∧ z.1 ≤ b := fun z hz => by
      refine ⟨?_, (hl z (List.mem_cons_of_mem _ hz)).2⟩
      rcases List.mem_cons.mp hz with rfl | hz
      · exact Nat.le_refl _
      · have := (List.pairwise_cons.mp htail).1 z hz
        omega
    have ih := length_le_of_apart htail hrest
    have hlen : (x :: y :: l).length - 1 = ((y :: l).length - 1) + 1 := by
      simp only [List.length_cons]
      omega
    rw [hlen, Nat.add_mul, Nat.one_mul]
    omega

/-- **The rate** of paced events. -/
theorem Paced.count_le [DecidablePred C] (h : Paced I C log) (hI : 0 < I) (a T : ℕ) :
    (log.filter fun x => C x.2 ∧ a ≤ x.1 ∧ x.1 ≤ a + T).length ≤ T / I + 1 := by
  set l := log.filter fun x => C x.2 ∧ a ≤ x.1 ∧ x.1 ≤ a + T with hl
  have hmem : ∀ x ∈ l, C x.2 ∧ a ≤ x.1 ∧ x.1 ≤ a + T := fun x hx => by
    simpa using (List.mem_filter.mp hx).2
  have hpair : l.Pairwise fun x y => x.1 + I ≤ y.1 := by
    have hsub : l.Pairwise fun x y => C y.2 → x.1 + I ≤ y.1 := h.filter _
    refine hsub.imp_of_mem fun {x y} _ hy hxy => ?_
    exact hxy (hmem y hy).1
  have hle := length_le_of_apart hpair fun x hx => (hmem x hx).2
  rw [Nat.add_sub_cancel_left] at hle
  have := (Nat.le_div_iff_mul_le hI).mpr hle
  omega

end SmartNet.Lib.Pace

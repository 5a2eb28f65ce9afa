import Mathlib.Data.Set.Insert
import Mathlib.Data.Nat.ModEq
import Mathlib.Order.Interval.Finset.Nat
import Mathlib.Data.Int.Interval
import Mathlib.Tactic.Common

/-! # Rings of slots

A ring of `n` slots stores numbered items: item `q` goes to slot `q % n`. `Covers n slots W val`
says that every item of the set `W` is stored, `val q b` relating the number `q` to the content `b`;
`Holds` adds that nothing else is stored and that no two items of `W` share a slot.

* `Covers.store`, `Holds.store`, `Holds.clear`: storing an item and taking one out;
* `Holds.isSome_iff`: a slot is filled exactly if the item looked for is stored, as long as no other
  stored item shares its slot;
* `mod_inj`: within `n` consecutive numbers no two share a slot. -/

namespace SmartNet.Lib.Ring

variable {β : Type*} {n q r a : ℕ} {slots : ℕ → Option β} {W : Set ℕ} {val : ℕ → β → Prop} {b : β}

theorem mod_inj (hq : a ≤ q) (hq' : q < a + n) (hr : a ≤ r) (hr' : r < a + n)
    (h : q % n = r % n) : q = r := by
  have := Nat.mod_injOn_Ico a n
  exact this (by simp; omega) (by simp; omega) h

/-- Every item of `W` is stored. -/
def Covers (n : ℕ) (slots : ℕ → Option β) (W : Set ℕ) (val : ℕ → β → Prop) : Prop :=
  ∀ q ∈ W, ∃ b, slots (q % n) = some b ∧ val q b

/-- Every item of `W` is stored, in a slot of its own, and nothing else is. -/
structure Holds (n : ℕ) (slots : ℕ → Option β) (W : Set ℕ) (val : ℕ → β → Prop) : Prop where
  held : Covers n slots W val
  only : ∀ i b, slots i = some b → ∃ q ∈ W, q % n = i
  inj : ∀ q ∈ W, ∀ r ∈ W, q % n = r % n → q = r

theorem Covers.store (h : Covers n slots W val) (hfar : ∀ r ∈ W, r % n ≠ q % n) (hv : val q b) :
    Covers n (Function.update slots (q % n) (some b)) (insert q W) val := by
  rintro r (rfl | hr)
  · exact ⟨b, by simp, hv⟩
  · obtain ⟨c, hc, hcv⟩ := h r hr
    exact ⟨c, by rw [Function.update_of_ne (hfar r hr)]; exact hc, hcv⟩

theorem Covers.mono {V : Set ℕ} (h : Covers n slots W val) (hV : V ⊆ W) : Covers n slots V val :=
  fun q hq => h q (hV hq)

theorem Covers.imp {val' : ℕ → β → Prop} (h : Covers n slots W val)
    (hval : ∀ q ∈ W, ∀ b, val q b → val' q b) : Covers n slots W val' := fun q hq => by
  obtain ⟨b, hb, hv⟩ := h q hq
  exact ⟨b, hb, hval q hq b hv⟩

theorem Holds.empty : Holds n (fun _ => (none : Option β)) ∅ val :=
  ⟨fun _ h => absurd h (Set.notMem_empty _), fun _ _ h => (Option.some_ne_none _ h.symm).elim,
    fun _ h => absurd h (Set.notMem_empty _)⟩

theorem Holds.imp {val' : ℕ → β → Prop} (h : Holds n slots W val)
    (hval : ∀ q ∈ W, ∀ b, val q b → val' q b) : Holds n slots W val' :=
  ⟨h.held.imp hval, h.only, h.inj⟩

theorem Holds.ne_of_free (h : Holds n slots W val) (hfree : slots (q % n) = none) :
    ∀ r ∈ W, r % n ≠ q % n := by
  intro r hr e
  obtain ⟨b, hb, -⟩ := h.held r hr
  rw [e, hfree] at hb
  cases hb

/-- **Storing** an item in a free slot. -/
theorem Holds.store (h : Holds n slots W val) (hfree : slots (q % n) = none) (hv : val q b) :
    Holds n (Function.update slots (q % n) (some b)) (insert q W) val := by
  have hne := h.ne_of_free hfree
  refine ⟨h.held.store hne hv, fun i c hc => ?_, ?_⟩
  · by_cases hi : i = q % n
    · exact ⟨q, Or.inl rfl, hi.symm⟩
    · rw [Function.update_of_ne hi] at hc
      obtain ⟨r, hr, hri⟩ := h.only i c hc
      exact ⟨r, Or.inr hr, hri⟩
  · rintro r (rfl | hr) t (rfl | ht) e
    · rfl
    · exact absurd e.symm (hne t ht)
    · exact absurd e (hne r hr)
    · exact h.inj r hr t ht e

/-- **Taking out** an item. -/
theorem Holds.clear (h : Holds n slots W val) (hq : q ∈ W) :
    Holds n (Function.update slots (q % n) none) (W \ {q}) val := by
  have hne : ∀ r ∈ W \ {q}, r % n ≠ q % n := fun r hr e => hr.2 (h.inj r hr.1 q hq e)
  refine ⟨fun r hr => ?_, fun i b hb => ?_, fun r hr t ht e => h.inj r hr.1 t ht.1 e⟩
  · rw [Function.update_of_ne (hne r hr)]; exact h.held r hr.1
  · by_cases hi : i = q % n
    · rw [hi, Function.update_self] at hb; cases hb
    · rw [Function.update_of_ne hi] at hb
      obtain ⟨r, hr, hri⟩ := h.only i b hb
      exact ⟨r, ⟨hr, fun e => hi (by rw [← hri, e])⟩, hri⟩

/-- **Looking up** an item that shares its slot with no other stored one. -/
theorem Holds.isSome_iff (h : Holds n slots W val) (halone : ∀ r ∈ W, r % n = q % n → r = q) :
    (slots (q % n)).isSome ↔ q ∈ W := by
  constructor
  · intro hs
    obtain ⟨b, hb⟩ := Option.isSome_iff_exists.mp hs
    obtain ⟨r, hr, e⟩ := h.only _ b hb
    rw [← halone r hr e]; exact hr
  · intro hq
    obtain ⟨b, hb, -⟩ := h.held q hq
    rw [hb]; rfl

end SmartNet.Lib.Ring

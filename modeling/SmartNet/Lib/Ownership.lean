import Mathlib.Logic.Function.Basic
import Mathlib.Tactic.Common

/-! # Resources with one owner

Numbered resources appear one after the other; `own` says which one each party holds, if any, and a
resource that nobody holds is `gone`.

* `Held.acquire`, `Held.transfer`, `Held.release`: a new resource is taken, handed over, given up;
* `Held.exactly_one`: a resource that is not gone has exactly one owner. -/

namespace SmartNet.Lib.Ownership

variable {ο : Type*}

/-- The resources below `next` have appeared, and no two parties hold the same one; those from `lo`
on are held or gone. -/
structure Held (lo next : ℕ) (gone : ℕ → Prop) (own : ο → Option ℕ) : Prop where
  lt : ∀ {o n}, own o = some n → n < next
  unique : ∀ {o p n}, own o = some n → own p = some n → o = p
  kept : ∀ {n}, lo ≤ n → n < next → gone n ∨ ∃ o, own o = some n

variable {lo next n : ℕ} {gone gone' : ℕ → Prop} {own : ο → Option ℕ} {o p : ο}

theorem Held.mono (h : Held lo next gone own) (hg : ∀ n, gone n → gone' n) :
    Held lo next gone' own := by
  constructor
  · exact h.lt
  · exact h.unique
  · intro n hlo hn
    rcases h.kept hlo hn with hgone | hown
    · exact Or.inl (hg n hgone)
    · exact Or.inr hown

/-- **Exactly one owner.** -/
theorem Held.exactly_one (h : Held lo next gone own) (hlo : lo ≤ n) (hn : n < next) :
    gone n ∨ ∃! o, own o = some n := by
  rcases h.kept hlo hn with hgone | ⟨o, ho⟩
  · exact Or.inl hgone
  · exact Or.inr ⟨o, ho, fun p hp => h.unique hp ho⟩

variable [DecidableEq ο]

theorem update_some {r : Option ℕ} (hp : Function.update own o r p = some n) :
    p = o ∧ r = some n ∨ p ≠ o ∧ own p = some n := by
  by_cases hpo : p = o
  · subst hpo
    rw [Function.update_self] at hp
    exact Or.inl ⟨rfl, hp⟩
  · rw [Function.update_of_ne hpo] at hp
    exact Or.inr ⟨hpo, hp⟩

theorem Held.acquire (h : Held lo next gone own) (ho : own o = none) :
    Held lo (next + 1) gone (Function.update own o (some next)) := by
  constructor
  · intro p n hp
    obtain ⟨-, hn⟩ | ⟨-, hp⟩ := update_some hp
    · cases hn
      omega
    · have := h.lt hp
      omega
  · intro p q n hp hq
    obtain ⟨rfl, hn⟩ | ⟨-, hp'⟩ := update_some hp <;> obtain ⟨rfl, hn'⟩ | ⟨-, hq'⟩ := update_some hq
    · rfl
    · cases hn
      have := h.lt hq'
      omega
    · cases hn'
      have := h.lt hp'
      omega
    · exact h.unique hp' hq'
  · intro n hlo hn
    by_cases hnext : n = next
    · subst hnext
      exact Or.inr ⟨o, Function.update_self ..⟩
    · rcases h.kept hlo (by omega) with hgone | ⟨p, hp⟩
      · exact Or.inl hgone
      · have hpo : p ≠ o := by
          rintro rfl
          rw [ho] at hp
          cases hp
        exact Or.inr ⟨p, by rw [Function.update_of_ne hpo]; exact hp⟩

/-- **A resource is given up**; it is gone then, if it has to be accounted for. -/
theorem Held.release (h : Held lo next gone own) (hg : ∀ n, own o = some n → lo ≤ n → gone n) :
    Held lo next gone (Function.update own o none) := by
  constructor
  · intro p n hp
    obtain ⟨-, hn⟩ | ⟨-, hp⟩ := update_some hp
    · cases hn
    · exact h.lt hp
  · intro p q n hp hq
    obtain ⟨-, hn⟩ | ⟨-, hp⟩ := update_some hp
    · cases hn
    obtain ⟨-, hn⟩ | ⟨-, hq⟩ := update_some hq
    · cases hn
    exact h.unique hp hq
  · intro n hlo hn
    rcases h.kept hlo hn with hgone | ⟨p, hp⟩
    · exact Or.inl hgone
    · by_cases hpo : p = o
      · subst hpo
        exact Or.inl (hg n hp hlo)
      · exact Or.inr ⟨p, by rw [Function.update_of_ne hpo]; exact hp⟩

theorem Held.transfer (h : Held lo next gone own) (ho : own o = some n) (hp : own p = none) :
    Held lo next gone (Function.update (Function.update own o none) p (some n)) := by
  have hop : ∀ q m, Function.update (Function.update own o none) p (some n) q = some m →
      q = p ∧ m = n ∨ q ≠ p ∧ q ≠ o ∧ own q = some m := by
    intro q m hq
    obtain ⟨rfl, hm⟩ | ⟨hqp, hq⟩ := update_some hq
    · cases hm
      exact Or.inl ⟨rfl, rfl⟩
    · obtain ⟨-, hm⟩ | ⟨hqo, hq⟩ := update_some hq
      · cases hm
      · exact Or.inr ⟨hqp, hqo, hq⟩
  constructor
  · intro q m hq
    obtain ⟨-, rfl⟩ | ⟨-, -, hq⟩ := hop q m hq
    · exact h.lt ho
    · exact h.lt hq
  · intro q q' m hq hq'
    obtain ⟨rfl, hm⟩ | ⟨-, hqo, ho1⟩ := hop q m hq <;>
      obtain ⟨rfl, hm'⟩ | ⟨-, hqo', ho2⟩ := hop q' m hq'
    · rfl
    · rw [hm] at ho2
      exact absurd (h.unique ho2 ho) hqo'
    · rw [hm'] at ho1
      exact absurd (h.unique ho1 ho) hqo
    · exact h.unique ho1 ho2
  · intro m hlo hm
    rcases h.kept hlo hm with hgone | ⟨q, hq⟩
    · exact Or.inl hgone
    · by_cases hqo : q = o
      · subst hqo
        rw [ho] at hq
        cases hq
        exact Or.inr ⟨p, Function.update_self ..⟩
      · have hqp : q ≠ p := by
          rintro rfl
          rw [hp] at hq
          cases hq
        refine Or.inr ⟨q, ?_⟩
        rw [Function.update_of_ne hqp, Function.update_of_ne hqo]
        exact hq

end SmartNet.Lib.Ownership

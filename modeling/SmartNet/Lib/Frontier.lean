import Mathlib.Data.Set.Insert
import Mathlib.Data.List.Range
import Mathlib.Tactic.Common

/-! # The frontier of a set of packet numbers

Packets are numbered from 1. A receiver that has seen the packets `S` can hand out, in order and
without a gap, exactly the packets `1, ..., L` where `L` is the frontier of `S`: everything up to
`L` is in `S` and `L + 1` is not. The packets of `S` above `L` are waiting.

* `IsFrontier.insert_of_ne`, `IsFrontier.insert_next`: how a new packet moves it;
* `numbers`, `numbers_append`: the list `1, ..., L`. -/

namespace SmartNet.Lib.Frontier

variable {S T : Set ℕ} {L L' q : ℕ}

/-- Everything from 1 to `L` is in `S`, and `L + 1` is not. -/
structure IsFrontier (S : Set ℕ) (L : ℕ) : Prop where
  below : ∀ q, 1 ≤ q → q ≤ L → q ∈ S
  gap : L + 1 ∉ S

/-- The packets above the frontier. -/
def waiting (S : Set ℕ) (L : ℕ) : Set ℕ := {q | q ∈ S ∧ L < q}

/-- The numbers `1, ..., L`. -/
def numbers (L : ℕ) : List ℕ := List.range' 1 L

theorem IsFrontier.empty : IsFrontier ∅ 0 := ⟨fun _ h1 h2 => by omega, Set.notMem_empty _⟩

theorem waiting_empty : waiting ∅ L = ∅ := Set.eq_empty_of_forall_notMem fun _ h => h.1

theorem IsFrontier.next_le (h : IsFrontier S L) (hq : q ∈ waiting S L) : L + 2 ≤ q := by
  have hne : q ≠ L + 1 := fun e => h.gap (e ▸ hq.1)
  have := hq.2
  omega

theorem IsFrontier.insert_of_ne (h : IsFrontier S L) (hq : q ≠ L + 1) :
    IsFrontier (insert q S) L := by
  refine ⟨fun r h1 h2 => Or.inr (h.below r h1 h2), ?_⟩
  rintro (e | hmem)
  · exact hq e.symm
  · exact h.gap hmem

theorem waiting_insert_of_gt (hq : L < q) : waiting (insert q S) L = insert q (waiting S L) := by
  ext r
  constructor
  · rintro ⟨rfl | hr, hlt⟩
    · exact Or.inl rfl
    · exact Or.inr ⟨hr, hlt⟩
  · rintro (rfl | hr)
    · exact ⟨Or.inl rfl, hq⟩
    · exact ⟨Or.inr hr.1, hr.2⟩

/-- **The next packet** moves the frontier over itself and over the waiting packets that follow it
without a gap. -/
theorem IsFrontier.insert_next (h : IsFrontier S L) (hL : L + 1 ≤ L')
    (hrun : ∀ q, L + 2 ≤ q → q ≤ L' → q ∈ S) (hgap : L' + 1 ∉ S) :
    IsFrontier (insert (L + 1) S) L' := by
  refine ⟨fun r h1 h2 => ?_, ?_⟩
  · rcases Nat.lt_or_ge L r with hr | hr
    · rcases Nat.eq_or_lt_of_le hr with e | hlt
      · exact Or.inl e.symm
      · exact Or.inr (hrun r hlt h2)
    · exact Or.inr (h.below r h1 hr)
  · rintro (e | hmem)
    · omega
    · exact hgap hmem

@[simp] theorem length_numbers (L : ℕ) : (numbers L).length = L := by simp [numbers]

theorem numbers_append (L k : ℕ) : numbers (L + k) = numbers L ++ List.range' (L + 1) k := by
  unfold numbers
  rw [Nat.add_comm L 1, ← List.range'_append_1]

theorem mem_numbers : q ∈ numbers L ↔ 1 ≤ q ∧ q ≤ L := by
  unfold numbers
  rw [List.mem_range'_1]
  omega

end SmartNet.Lib.Frontier

import Mathlib.Data.List.Basic
import Mathlib.Tactic.Common

/-! # Queues with headroom

A queue with headroom lies somewhere in a room of fixed size: some room is free in front of its
items and some behind them. Items are appended behind, moving the queue to the front if there is not
enough room there; room in front is taken into the queue and given back.

* `Step.fits`: what lies in the room stays in the room;
* `Step.append_inv`, `Step.pushHead_inv`: when these fail, and what they do;
* `Step.pop_of_push`: giving back what was taken in restores the queue. -/

namespace SmartNet.Lib.HeadQueue

/-- The room in front of the queue, and its items. -/
structure Queue (α : Type*) where
  headroom : ℕ
  items : List α

/-- An operation: `pushHead` and `popHead` move the front, `grow` the end, over what lies there;
`clear` leaves the queue empty behind `k`. -/
inductive Op (α : Type*)
  | append (l : List α)
  | pushHead (n : ℕ)
  | popHead (n : ℕ)
  | grow (n : ℕ)
  | compact
  | clear (k : ℕ)

variable {α : Type*}

/-- An operation on a queue in a room of size `N`, and whether it succeeds. -/
inductive Step (N : ℕ) : Queue α → Op α → Bool → Queue α → Prop
  | appendBehind {q : Queue α} {l : List α} : q.headroom + q.items.length + l.length ≤ N →
    Step N q (.append l) true ⟨q.headroom, q.items ++ l⟩
  | appendMoved {q : Queue α} {l : List α} : N < q.headroom + q.items.length + l.length →
    q.items.length + l.length ≤ N → Step N q (.append l) true ⟨0, q.items ++ l⟩
  | appendFull {q : Queue α} {l : List α} : N < q.items.length + l.length →
    Step N q (.append l) false q
  | pushHead {q : Queue α} {front : List α} {n : ℕ} : front.length = n → n ≤ q.headroom →
    Step N q (.pushHead n) true ⟨q.headroom - n, front ++ q.items⟩
  | pushHeadFull {q : Queue α} {n : ℕ} : q.headroom < n → Step N q (.pushHead n) false q
  | popHead {q : Queue α} {n : ℕ} : n ≤ q.items.length →
    Step N q (.popHead n) true ⟨q.headroom + n, q.items.drop n⟩
  | grow {q : Queue α} {more : List α} {n : ℕ} : more.length = n →
    q.headroom + q.items.length + n ≤ N → Step N q (.grow n) true ⟨q.headroom, q.items ++ more⟩
  | compact {q : Queue α} : Step N q .compact true ⟨0, q.items⟩
  | clear {q : Queue α} {k : ℕ} : k ≤ N → Step N q (.clear k) true ⟨k, []⟩

/-- The queue lies in the room. -/
def Queue.Fits (N : ℕ) (q : Queue α) : Prop := q.headroom + q.items.length ≤ N

variable {N n : ℕ} {q q' q'' : Queue α} {o : Op α} {r : Bool} {l : List α}

theorem fits_mk {k : ℕ} {l : List α} : (⟨k, l⟩ : Queue α).Fits N ↔ k + l.length ≤ N := Iff.rfl

theorem Step.fits (h : Step N q o r q') (hq : q.Fits N) : q'.Fits N := by
  have hle : q.headroom + q.items.length ≤ N := hq
  cases h with
  | appendBehind hroom => rw [fits_mk, List.length_append]; omega
  | appendMoved _ hroom => rw [fits_mk, List.length_append]; omega
  | appendFull _ => exact hq
  | pushHead hlen hroom => rw [fits_mk, List.length_append]; omega
  | pushHeadFull _ => exact hq
  | popHead hlen => rw [fits_mk, List.length_drop]; omega
  | grow hlen hroom => rw [fits_mk, List.length_append]; omega
  | compact => rw [fits_mk]; omega
  | clear hroom => exact hroom

/-- **Appending** fails exactly if the room is too small in all. -/
theorem Step.append_inv (h : Step N q (.append l) r q') :
    (r = false ↔ N < q.items.length + l.length) ∧ (r = true → q'.items = q.items ++ l) := by
  cases h with
  | appendBehind hle => exact ⟨⟨fun h => (by cases h), fun h => by omega⟩, fun _ => rfl⟩
  | appendMoved _ hle => exact ⟨⟨fun h => (by cases h), fun h => by omega⟩, fun _ => rfl⟩
  | appendFull hlt => exact ⟨⟨fun _ => hlt, fun _ => rfl⟩, fun h => by cases h⟩

/-- **Taking in headroom** fails exactly if there is too little. -/
theorem Step.pushHead_inv (h : Step N q (.pushHead n) r q') : r = false ↔ q.headroom < n := by
  cases h with
  | pushHead _ hle => exact ⟨fun h => (by cases h), fun h => by omega⟩
  | pushHeadFull hlt => exact ⟨fun _ => hlt, fun _ => rfl⟩

theorem Step.compact_items (h : Step N q .compact r q') : q'.items = q.items := by
  cases h; rfl

theorem Step.le_of_pushHead (h : Step N q (.pushHead n) true q') : n ≤ q'.items.length := by
  cases h with
  | pushHead hlen _ => rw [List.length_append]; omega

/-- **Giving back** what was taken in restores the queue. -/
theorem Step.pop_of_push (h : Step N q (.pushHead n) true q') (h' : Step N q' (.popHead n) r q'') :
    q'' = q := by
  cases h with
  | pushHead hlen hle =>
    cases h' with
    | popHead _ =>
      rw [List.drop_left' hlen, Nat.sub_add_cancel hle]

end SmartNet.Lib.HeadQueue

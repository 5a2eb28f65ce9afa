import Mathlib.Data.Int.Basic
import SmartNet.Common.Types
import SmartNet.Lib.Eff

/-! # `CStateMachine`

An object of type `σ` holds a state machine; `reg_evt_state` enters for a state and an event an end
state and a handler. `post_evt` runs the handler under the lock of the machine, so a call of it is
one step for the other threads; the handler may change the object, its state included, and may call
`post_evt` again.

* `postEvt_ignored`, `postEvt_failed`, `postEvt_suc`: the three ways `post_evt` returns;
* `postEvt_ok`, `postEvt_fault`: what the handler did, read off the call. -/

namespace SmartNet.Utils.StateMachine

open SmartNet.Common SmartNet.Lib

/-- The end state and the handler. -/
structure SElem (S F : Type) where
  iState : S
  fn : Option F

/-- `post_evt`, for the table `handlers`. -/
def postEvt {σ S E ε φ : Type} (curState : σ → S) (setCurState : σ → S → σ)
    (handlers : S → E → Option (SElem S (σ → Eff ε φ (Cmnerr × σ)))) (s : σ) (iEvt : E) :
    Eff ε φ (ℤ × σ) :=
  match handlers (curState s) iEvt with
  | none => pure (-1, s)
  | some ⟨iEndState, none⟩ => pure (0, setCurState s iEndState)
  | some ⟨iEndState, some fn⟩ => fn s >>= fun (ret, s) =>
    -- every code but `suc` is negative
    if ret ≠ .suc then pure (-2, s) else pure (0, setCurState s iEndState)

/-- A call of `post_evt` whose return code is logged. -/
def returning {σ ε φ : Type} (log : ℤ → ε) (x : Eff ε φ (ℤ × σ)) : Eff ε φ σ :=
  x >>= fun (r, s) => Eff.emit (log r) >>= fun _ => pure s

/-- A call of `post_evt` whose return code is dropped. -/
def posting {σ ε φ : Type} (x : Eff ε φ (ℤ × σ)) : Eff ε φ σ := x >>= fun a => pure a.2

variable {σ S E ε φ : Type} {cur : σ → S} {set : σ → S → σ}
  {handlers : S → E → Option (SElem S (σ → Eff ε φ (Cmnerr × σ)))} {s s' : σ} {e : E} {t : S}
  {fn : σ → Eff ε φ (Cmnerr × σ)} {evs : List ε}

theorem postEvt_ignored (h : handlers (cur s) e = none) :
    postEvt cur set handlers s e = ⟨[], .ok (-1, s)⟩ := by
  unfold postEvt
  rw [h]; rfl

theorem postEvt_failed (h : handlers (cur s) e = some ⟨t, some fn⟩) {ret : Cmnerr}
    (hret : ret ≠ .suc)
    (hfn : fn s = ⟨evs, .ok (ret, s')⟩) : postEvt cur set handlers s e = ⟨evs, .ok (-2, s')⟩ := by
  unfold postEvt
  rw [h]
  show (fn s).bind _ = _
  rw [hfn]
  simp [Eff.bind, hret]

theorem postEvt_suc (h : handlers (cur s) e = some ⟨t, some fn⟩)
    (hfn : fn s = ⟨evs, .ok (.suc, s')⟩) :
    postEvt cur set handlers s e = ⟨evs, .ok (0, set s' t)⟩ := by
  unfold postEvt
  rw [h]
  show (fn s).bind _ = _
  rw [hfn]
  simp [Eff.bind]

theorem postEvt_error (h : handlers (cur s) e = some ⟨t, some fn⟩) {f : φ}
    (hfn : fn s = ⟨evs, .error f⟩) :
    postEvt cur set handlers s e = ⟨evs, .error f⟩ := by
  unfold postEvt
  rw [h]
  show (fn s).bind _ = _
  rw [hfn]; rfl

theorem postEvt_ok (h : handlers (cur s) e = some ⟨t, some fn⟩) {r : ℤ}
    (hok : postEvt cur set handlers s e = ⟨evs, .ok (r, s')⟩) :
    (∃ s1, fn s = ⟨evs, .ok (.suc, s1)⟩ ∧ r = 0 ∧ s' = set s1 t) ∨
      ∃ ret, ret ≠ .suc ∧ fn s = ⟨evs, .ok (ret, s')⟩ ∧ r = -2 := by
  rcases hfn : fn s with ⟨evs1, f | ⟨ret, s1⟩⟩
  · rw [postEvt_error h hfn] at hok; cases hok
  · by_cases hret : ret = .suc
    · subst hret
      rw [postEvt_suc h hfn] at hok
      cases hok; exact Or.inl ⟨s1, rfl, rfl, rfl⟩
    · rw [postEvt_failed h hret hfn] at hok
      cases hok; exact Or.inr ⟨ret, hret, rfl, rfl⟩

theorem postEvt_fault {f : φ} (hok : postEvt cur set handlers s e = ⟨evs, .error f⟩) :
    ∃ t fn, handlers (cur s) e = some ⟨t, some fn⟩ ∧ fn s = ⟨evs, .error f⟩ := by
  rcases h : handlers (cur s) e with _ | ⟨t, _ | fn⟩
  · rw [postEvt_ignored h] at hok; cases hok
  · unfold postEvt at hok; rw [h] at hok; cases hok
  · rcases hfn : fn s with ⟨evs1, f1 | ⟨ret, s1⟩⟩
    · rw [postEvt_error h hfn] at hok
      cases hok; exact ⟨t, fn, rfl, hfn⟩
    · by_cases hret : ret = .suc
      · subst hret; rw [postEvt_suc h hfn] at hok; cases hok
      · rw [postEvt_failed h hret hfn] at hok; cases hok

variable {x : Eff ε φ (ℤ × σ)} {log : ℤ → ε}

theorem returning_ok (h : returning log x = ⟨evs, .ok s'⟩) :
    ∃ r evs1, x = ⟨evs1, .ok (r, s')⟩ ∧ evs = evs1 ++ [log r] := by
  obtain ⟨evs1, f | ⟨r, s⟩⟩ := x <;> cases h
  exact ⟨r, evs1, rfl, rfl⟩

theorem returning_error {f : φ} (h : returning log x = ⟨evs, .error f⟩) : x = ⟨evs, .error f⟩ := by
  obtain ⟨evs1, f | ⟨r, s⟩⟩ := x <;> cases h
  rfl

theorem posting_ok (h : posting x = ⟨evs, .ok s'⟩) : ∃ r, x = ⟨evs, .ok (r, s')⟩ := by
  obtain ⟨⟨r, s⟩, h1, h2⟩ := Eff.bind_pure_ok h
  cases h2; exact ⟨r, h1⟩

theorem posting_error {f : φ} (h : posting x = ⟨evs, .error f⟩) : x = ⟨evs, .error f⟩ :=
  Eff.bind_pure_error h

end SmartNet.Utils.StateMachine

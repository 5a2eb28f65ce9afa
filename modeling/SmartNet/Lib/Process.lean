import SmartNet.Lib.Run
import SmartNet.Lib.Triple

/-! # Processes

A process makes one call after the other into an object; a call that ends the process leaves it with
the fault, and no call is made any more. The log holds the events of all calls.

* `call_ok`, `call_error`: the two ways a call goes;
* `run_inv`: what the calls of a run keep as long as the process lives, and what is known of the
  fault it ends with;
* `run_ok`: runs whose calls all return;
* `run_iff_meets`: what is lost exactly by the calls that do not meet a condition, and never
  regained. -/

namespace SmartNet.Lib

/-- An object, what it did so far, and how the process ended. -/
structure Proc (σ ε φ : Type) where
  obj : σ
  log : List ε := []
  fault : Option φ := none

namespace Proc

variable {σ ε φ α : Type}

/-- A call into the object. -/
def call (f : σ → Eff ε φ σ) (p : Proc σ ε φ) : Proc σ ε φ :=
  match p.fault, (f p.obj).res with
  | some _, _ => p
  | none, .ok s => ⟨s, p.log ++ (f p.obj).evs, none⟩
  | none, .error e => ⟨p.obj, p.log ++ (f p.obj).evs, some e⟩

/-- The process after the calls `step a`. -/
def run (step : α → σ → Eff ε φ σ) (p : Proc σ ε φ) (as : List α) : Proc σ ε φ :=
  Run.run (fun p a => p.call (step a)) p as

/-- Every call of the process meets the condition. -/
def Meets (step : α → σ → Eff ε φ σ) (C : σ → α → Prop) (p : Proc σ ε φ) (as : List α) : Prop :=
  Run.Meets (fun p a => p.call (step a)) (fun p a => C p.obj a) p as

instance {step : α → σ → Eff ε φ σ} {C : σ → α → Prop} [∀ s a, Decidable (C s a)] (p : Proc σ ε φ)
    (as : List α) :
    Decidable (Meets step C p as) :=
  inferInstanceAs (Decidable (Run.Meets (fun p a => p.call (step a)) (fun p a => C p.obj a) p as))

variable {f : σ → Eff ε φ σ} {p : Proc σ ε φ} {s : σ} {e : φ}

theorem call_dead (h : p.fault = some e) : p.call f = p := by
  unfold call
  rw [h]

theorem call_ok (hp : p.fault = none) (h : (f p.obj).res = .ok s) :
    p.call f = ⟨s, p.log ++ (f p.obj).evs, none⟩ := by
  unfold call
  rw [hp, h]

theorem call_error (hp : p.fault = none) (h : (f p.obj).res = .error e) :
    p.call f = ⟨p.obj, p.log ++ (f p.obj).evs, some e⟩ := by
  unfold call
  rw [hp, h]

theorem call_fault_none (h : (p.call f).fault = none) : p.fault = none := by
  rcases hp : p.fault with _ | e
  · rfl
  · rw [call_dead hp, hp] at h; cases h

theorem run_append {step : α → σ → Eff ε φ σ} (p : Proc σ ε φ) (as bs : List α) :
    run step p (as ++ bs) = run step (run step p as) bs := Run.run_append _ p as bs

theorem meets_append {step : α → σ → Eff ε φ σ} {C : σ → α → Prop} {as bs : List α} :
    Meets step C p (as ++ bs) ↔ Meets step C p as ∧ Meets step C (run step p as) bs :=
  Run.meets_append _

theorem meets_true {step : α → σ → Eff ε φ σ} (as : List α) : Meets step (fun _ _ => True) p as :=
  Run.meets_true _ p as

theorem run_dead {step : α → σ → Eff ε φ σ} (h : p.fault = some e) :
    ∀ as : List α, run step p as = p
  | [] => rfl
  | a :: as => by
    show run step (p.call (step a)) as = p
    rw [call_dead h]
    exact run_dead h as

theorem run_fault_none {step : α → σ → Eff ε φ σ} {as : List α} (h : (run step p as).fault = none) :
    p.fault = none := by
  rcases hp : p.fault with _ | e
  · rfl
  · rw [run_dead hp, hp] at h; cases h

/-- What is known of a process: `I` of its log and object while it lives, `F` of the log and the
fault once it has ended. -/
def Holds (I : List ε → σ → Prop) (F : List ε → φ → Prop) (p : Proc σ ε φ) : Prop :=
  match p.fault with
  | none => I p.log p.obj
  | some e => F p.log e

theorem Holds.alive {I : List ε → σ → Prop} {F : List ε → φ → Prop} (h : Holds I F p)
    (hp : p.fault = none) :
    I p.log p.obj := by
  unfold Holds at h
  rwa [hp] at h

theorem Holds.dead {I : List ε → σ → Prop} {F : List ε → φ → Prop} (h : Holds I F p)
    (hp : p.fault = some e) :
    F p.log e := by
  unfold Holds at h
  rwa [hp] at h

theorem Holds.call {P I : List ε → σ → Prop} {F : List ε → φ → Prop} (h : Holds I F p)
    (hf : Eff.Triple P f I F)
    (hP : I p.log p.obj → P p.log p.obj) : Holds I F (p.call f) := by
  rcases hp : p.fault with _ | e
  · have h1 := hf _ _ (hP (h.alive hp))
    rcases hr : (f p.obj).res with e | s
    · rw [hr] at h1; rw [call_error hp hr]; exact h1
    · rw [hr] at h1; rw [call_ok hp hr]; exact h1
  · rwa [call_dead hp]

/-- **Runs of a process.** What every call that meets the condition keeps holds after every run
whose calls all meet it. -/
theorem run_inv {step : α → σ → Eff ε φ σ} {C : σ → α → Prop} {I : List ε → σ → Prop}
    {F : List ε → φ → Prop} (hstep : ∀ a, Eff.Triple (fun log s => I log s ∧ C s a) (step a) I F) :
    ∀ {p : Proc σ ε φ} {as : List α}, Holds I F p → Meets step C p as → Holds I F (run step p as)
  | _, [], hI, _ => hI
  | p, a :: as, hI, ⟨hc, hcs⟩ => by
    have h1 : Holds I F (p.call (step a)) := hI.call (hstep a) fun hi => ⟨hi, hc⟩
    show Holds I F (run step (p.call (step a)) as)
    exact run_inv hstep h1 hcs

/-- **Runs that go on.** If every call that meets the condition within an invariant returns and
keeps the invariant, then so does every run whose calls meet it, and its calls do what they do. -/
theorem run_ok {step : α → σ → Eff ε φ σ} {I : σ → Prop} {C D : σ → α → Prop}
    (hstep : ∀ a s, I s → C s a → ∃ t, (step a s).res = .ok t ∧ I t ∧ D s a) :
    ∀ {p : Proc σ ε φ} {as : List α}, p.fault = none → I p.obj → Meets step C p as →
      (run step p as).fault = none ∧ I (run step p as).obj ∧ Meets step D p as
  | _, [], hp, hI, _ => ⟨hp, hI, trivial⟩
  | p, a :: as, hp, hI, ⟨hc, hcs⟩ => by
    obtain ⟨t, ht, hIt, hd⟩ := hstep a p.obj hI hc
    have hcall := call_ok (f := step a) hp ht
    have hf : (p.call (step a)).fault = none := by rw [hcall]
    have hIc : I (p.call (step a)).obj := by
      rw [hcall]
      exact hIt
    obtain ⟨h1, h2, h3⟩ := run_ok hstep hf hIc hcs
    exact ⟨h1, h2, hd, h3⟩

/-- **What is never regained** holds at the end of a run exactly if it held at its start and all
calls meet the condition, if a call that does not meet it loses it. -/
theorem run_iff_meets {step : α → σ → Eff ε φ σ} {C : σ → α → Prop} {A : σ → Prop}
    (hstep : ∀ a s evs s', step a s = ⟨evs, .ok s'⟩ → (A s' ↔ A s ∧ C s a)) :
    ∀ {p : Proc σ ε φ} {as : List α}, (run step p as).fault = none →
      (A (run step p as).obj ↔ A p.obj ∧ Meets step C p as)
  | p, [], _ => (and_iff_left trivial).symm
  | p, a :: as, hf => by
    have hf' : (run step (p.call (step a)) as).fault = none := hf
    have hf1 : (p.call (step a)).fault = none := run_fault_none hf'
    show A (run step (p.call (step a)) as).obj ↔ A p.obj ∧ C p.obj a ∧
      Meets step C (p.call (step a)) as
    rw [run_iff_meets hstep hf', ← and_assoc]
    rcases hr : step a p.obj with ⟨evs, e | s⟩
    · rw [call_error (call_fault_none hf1) (by rw [hr])] at hf1; cases hf1
    · rw [← hstep a p.obj evs s hr,
        show (p.call (step a)).obj = s by rw [call_ok (call_fault_none hf1) (by rw [hr])]]

end Proc

end SmartNet.Lib

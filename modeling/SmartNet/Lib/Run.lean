import Mathlib.Data.List.Basic

/-! # Runs of a machine with inputs

A machine is a step function `step : σ → α → σ`; nondeterminism (which datagram arrives, what the
clock says, how a system call ends) is in the inputs. `run` applies a list of inputs, `Meets C` says
that every input of a run meets the condition `C` in the state in which it is taken. A bound `B` is
a property that is never regained once it is lost, such as a counter being below its limit.

* `run_mono`: what is never regained holds all along a run at whose end it holds;
* `run_inv`: within a bound, a property every step preserves holds after every run;
* `run_inv_meets`: the same for steps that meet a condition, with what the steps then also do;
* `meets_congr`: conditions that are equivalent within an invariant are met by the same runs;
* `meets_iff`: the same where only steps that meet the condition keep the invariant;
* `alive_iff_meets`: if a step keeps a machine alive exactly when it meets the condition, and the
  dead stay dead, then a run ends alive exactly when all its steps meet the condition. -/

namespace SmartNet.Lib.Run

variable {σ α : Type*} (step : σ → α → σ)

/-- The state after the inputs. -/
def run (s : σ) (as : List α) : σ := as.foldl step s

/-- Every input meets the condition in the state it is taken in. -/
def Meets (C : σ → α → Prop) : σ → List α → Prop
  | _, [] => True
  | s, a :: as => C s a ∧ Meets C (step s a) as

instance decidableMeets {C : σ → α → Prop} [∀ s a, Decidable (C s a)] :
    ∀ s as, Decidable (Meets step C s as)
  | _, [] => .isTrue trivial
  | s, a :: as => @instDecidableAnd _ _ _ (decidableMeets (step s a) as)

@[simp] theorem run_nil (s : σ) : run step s [] = s := rfl

@[simp] theorem run_cons (s : σ) (a : α) (as : List α) :
    run step s (a :: as) = run step (step s a) as := rfl

theorem run_append (s : σ) (as bs : List α) :
    run step s (as ++ bs) = run step (run step s as) bs := List.foldl_append

@[simp] theorem meets_nil (C : σ → α → Prop) (s : σ) : Meets step C s [] := trivial

@[simp] theorem meets_cons {C : σ → α → Prop} {s : σ} {a : α} {as : List α} :
    Meets step C s (a :: as) ↔ C s a ∧ Meets step C (step s a) as := Iff.rfl

theorem meets_append {C : σ → α → Prop} : ∀ {s : σ} {as bs : List α},
    Meets step C s (as ++ bs) ↔ Meets step C s as ∧ Meets step C (run step s as) bs
  | s, [], bs => by simp
  | s, a :: as, bs => by
    rw [List.cons_append, meets_cons, meets_cons, meets_append, and_assoc]; rfl

theorem meets_and {C D : σ → α → Prop} : ∀ {s : σ} {as : List α},
    Meets step (fun s a => C s a ∧ D s a) s as ↔ Meets step C s as ∧ Meets step D s as
  | _, [] => by simp
  | s, a :: as => by
    rw [meets_cons, meets_cons, meets_cons, meets_and, and_and_and_comm]

theorem meets_true : ∀ (s : σ) (as : List α), Meets step (fun _ _ => True) s as
  | _, [] => trivial
  | s, a :: as => ⟨trivial, meets_true (step s a) as⟩

theorem meets_of_mem {C : α → Prop} : ∀ {s : σ} {as : List α}, (∀ a ∈ as, C a) →
    Meets step (fun _ a => C a) s as
  | _, [], _ => trivial
  | s, a :: _, h => ⟨h a List.mem_cons_self,
      meets_of_mem (s := step s a) fun b hb => h b (List.mem_cons_of_mem a hb)⟩

variable {step} {I B Alive : σ → Prop} {C D : σ → α → Prop}

theorem run_mono (hB : ∀ s a, B (step s a) → B s) : ∀ {s : σ} (as : List α), B (run step s as) → B s
  | _, [], h => h
  | _, a :: as, h => hB _ a (run_mono hB as h)

/-- **Invariants.** What every step within the bound preserves holds after every run within it. -/
theorem run_inv (hB : ∀ s a, B (step s a) → B s)
    (hstep : ∀ s a, I s → B (step s a) → I (step s a)) :
    ∀ {s : σ} {as : List α}, I s → B (run step s as) → I (run step s as)
  | _, [], h, _ => h
  | s, a :: as, h, hb => run_inv hB hstep (s := step s a) (hstep s a h (run_mono hB as hb)) hb

/-- **Invariants of runs that meet a condition**, and what the steps of such a run do. -/
theorem run_inv_meets (hB : ∀ s a, B (step s a) → B s)
    (hstep : ∀ s a, I s → C s a → B (step s a) → I (step s a) ∧ D s a) :
    ∀ {s : σ} {as : List α}, I s → Meets step C s as → B (run step s as) →
      I (run step s as) ∧ Meets step D s as
  | _, [], h, _, _ => ⟨h, trivial⟩
  | s, a :: as, h, ⟨hc, hcs⟩, hb => by
    obtain ⟨h1, h2⟩ := hstep s a h hc (run_mono hB as hb)
    obtain ⟨h3, h4⟩ := run_inv_meets hB hstep (s := step s a) h1 hcs hb
    exact ⟨h3, h2, h4⟩

theorem meets_congr (hstep : ∀ s a, I s → I (step s a)) (hiff : ∀ s a, I s → (C s a ↔ D s a)) :
    ∀ {s : σ} {as : List α}, I s → (Meets step C s as ↔ Meets step D s as)
  | _, [], _ => Iff.rfl
  | s, a :: as, h => by
    rw [meets_cons, meets_cons, hiff s a h, meets_congr hstep hiff (hstep s a h)]

/-- **Exactly the runs that meet `C` do `D` all along**, when within an invariant a step does `D`
exactly if it meets `C`, and the steps that do keep the invariant. -/
theorem meets_iff (hgood : ∀ s a, I s → C s a → D s a ∧ I (step s a))
    (hbad : ∀ s a, I s → D s a → C s a) :
    ∀ {s : σ} {as : List α}, I s → (Meets step D s as ↔ Meets step C s as)
  | _, [], _ => Iff.rfl
  | s, a :: as, h => by
    rw [meets_cons, meets_cons]
    by_cases hc : C s a
    · obtain ⟨hd, hI⟩ := hgood s a h hc
      rw [meets_iff hgood hbad hI]
      simp only [hc, hd, true_and]
    · have hd : ¬ D s a := fun hd => hc (hbad s a h hd)
      simp only [hc, hd, false_and]

/-- **Exactly the runs that meet the condition end alive**, when a step of a live machine keeps it
alive exactly if it meets the condition, and nothing revives a dead one. -/
theorem alive_iff_meets (hB : ∀ s a, B (step s a) → B s)
    (hinv : ∀ s a, I s → B (step s a) → I (step s a)) (hdead : ∀ s a, Alive (step s a) → Alive s)
    (hstep : ∀ s a, I s → B s → Alive s → (Alive (step s a) ↔ C s a)) :
    ∀ {s : σ} {as : List α}, I s → Alive s → B (run step s as) →
      (Alive (run step s as) ↔ Meets step C s as)
  | _, [], _, h, _ => by simpa using h
  | s, a :: as, hI, h, hb => by
    have hb' : B (step s a) := run_mono hB as hb
    have hiff := hstep s a hI (hB s a hb') h
    rw [run_cons, meets_cons]
    by_cases hc : C s a
    · simp only [hc, true_and]
      exact alive_iff_meets hB hinv hdead hstep (hinv s a hI hb') (hiff.mpr hc) hb
    · simp only [hc, false_and, iff_false]
      exact fun hal => hc (hiff.mp (run_mono hdead as hal))

end SmartNet.Lib.Run

import SmartNet.Lib.Process

/-! # Simulation of processes

A process with more to it than another one shows: a `View` is what is seen of its object, its events
and its faults.

* `Shows`, `Hides`: a call is seen as a call of the other process, or not at all;
* `run_shows`: if every call within an invariant is seen as a call of the other process that meets a
  condition, or not at all, then every run is seen as a run whose calls all meet the condition;
* `Follows`, `run_simulates`: only the object has more to it. -/

namespace SmartNet.Lib.Proc

variable {σ τ ε ε' φ φ' α β : Type}

/-- What is seen of a process. -/
structure View (σ ε φ τ ε' φ' : Type) where
  obj : σ → τ
  ev : ε → Option ε'
  fault : φ → Option φ'

/-- The part of a process that is seen. -/
def part (v : View σ ε φ τ ε' φ') (p : Proc σ ε φ) : Proc τ ε' φ' :=
  ⟨v.obj p.obj, p.log.filterMap v.ev, p.fault.bind v.fault⟩

/-- What a call comes to, as far as it is seen. -/
def Shows (v : View σ ε φ τ ε' φ') (r : Eff ε φ σ) (r' : Eff ε' φ' τ) : Prop :=
  r'.evs = r.evs.filterMap v.ev ∧
    match r.res, r'.res with
    | .ok s, .ok t => t = v.obj s
    | .error e, .error e' => v.fault e = some e'
    | _, _ => False

/-- Nothing is seen of a call at `s`. -/
def Hides (v : View σ ε φ τ ε' φ') (s : σ) (r : Eff ε φ σ) : Prop :=
  r.evs.filterMap v.ev = [] ∧
    match r.res with
    | .ok t => v.obj t = v.obj s
    | .error e => v.fault e = none

variable {v : View σ ε φ τ ε' φ'} {f : σ → Eff ε φ σ} {g : τ → Eff ε' φ' τ} {p : Proc σ ε φ}

theorem Shows.call (h : Shows v (f p.obj) (g (v.obj p.obj))) (hp : p.fault = none) :
    (p.call f).part v = (p.part v).call g := by
  obtain ⟨hevs, hres⟩ := h
  have hq : (p.part v).fault = none := by simp [part, hp]
  rcases hr : (f p.obj).res with e | s
  · rcases hr' : (g (v.obj p.obj)).res with e' | t
    · simp only [hr, hr'] at hres
      rw [call_error hp hr, call_error hq hr']
      simp only [part, List.filterMap_append, Option.bind_some, hres, hevs]
    · simp only [hr, hr'] at hres
  · rcases hr' : (g (v.obj p.obj)).res with e' | t
    · simp only [hr, hr'] at hres
    · simp only [hr, hr'] at hres
      rw [call_ok hp hr, call_ok hq hr']
      simp only [part, List.filterMap_append, Option.bind_none, hres, hevs]

theorem Hides.call (h : Hides v p.obj (f p.obj)) (hp : p.fault = none) :
    (p.call f).part v = p.part v := by
  obtain ⟨hevs, hres⟩ := h
  rcases hr : (f p.obj).res with e | s
  · simp only [hr] at hres
    rw [call_error hp hr]
    simp only [part, List.filterMap_append, hevs, List.append_nil, hp, Option.bind_some,
      Option.bind_none, hres]
  · simp only [hr] at hres
    rw [call_ok hp hr]
    simp only [part, List.filterMap_append, hevs, List.append_nil, hp, hres]

theorem call_keeps {I : σ → Prop} (hI : I p.obj) (h : ∀ s, (f p.obj).res = .ok s → I s) :
    I (p.call f).obj := by
  rcases hp : p.fault with - | e
  · rcases hr : (f p.obj).res with e | s
    · rw [call_error hp hr]
      exact hI
    · rw [call_ok hp hr]
      exact h s hr
  · rw [call_dead hp]
    exact hI

/-- **What is seen of a run.** -/
theorem run_shows {step : α → σ → Eff ε φ σ} {step' : β → τ → Eff ε' φ' τ} {I : σ → Prop}
    {C : σ → α → Prop} {D : τ → β → Prop}
    (hkeep : ∀ a s t, I s → C s a → (step a s).res = .ok t → I t)
    (hstep : ∀ a s, I s → C s a → Hides v s (step a s) ∨
      ∃ b, D (v.obj s) b ∧ Shows v (step a s) (step' b (v.obj s))) (as : List α) :
    ∀ {p : Proc σ ε φ}, I p.obj → Meets step C p as →
      I (run step p as).obj ∧
        ∃ bs, Meets step' D (p.part v) bs ∧ run step' (p.part v) bs = (run step p as).part v := by
  induction as with
  | nil =>
    intro p hI _
    exact ⟨hI, [], trivial, rfl⟩
  | cons a as ih =>
    intro p hI ⟨hc, hcs⟩
    have hI' : I (p.call (step a)).obj := call_keeps hI fun t ht => hkeep a p.obj t hI hc ht
    obtain ⟨hend, bs, hmeets, hbs⟩ := ih hI' hcs
    refine ⟨hend, ?_⟩
    show ∃ bs, _ ∧ run step' (p.part v) bs = (run step (p.call (step a)) as).part v
    rcases hp : p.fault with - | e
    · rcases hstep a p.obj hI hc with hh | ⟨b, hd, hs⟩
      · rw [hh.call hp] at hmeets hbs
        exact ⟨bs, hmeets, hbs⟩
      · rw [hs.call hp] at hmeets hbs
        exact ⟨b :: bs, ⟨hd, hmeets⟩, hbs⟩
    · rw [call_dead hp] at hmeets hbs ⊢
      exact ⟨bs, hmeets, hbs⟩

/-! ### More to the object -/

/-- The process, as far as its object is seen. -/
def map (abs : σ → τ) (p : Proc σ ε φ) : Proc τ ε φ := ⟨abs p.obj, p.log, p.fault⟩

/-- `f` does to the object what `g` does to what is seen of it. -/
def Follows (abs : σ → τ) (f : σ → Eff ε φ σ) (g : τ → Eff ε φ τ) (s : σ) : Prop :=
  g (abs s) = ⟨(f s).evs, (f s).res.map abs⟩

variable {abs : σ → τ}

theorem part_eq_map (p : Proc σ ε φ) : p.part ⟨abs, some, some⟩ = p.map abs := by
  simp [part, map]

theorem Follows.shows {g : τ → Eff ε φ τ} {s : σ} (h : Follows abs f g s) :
    Shows ⟨abs, some, some⟩ (f s) (g (abs s)) := by
  unfold Follows at h
  unfold Shows
  rw [h, List.filterMap_some]
  refine ⟨rfl, ?_⟩
  rcases (f s).res with e | t
  · rfl
  · rfl

/-- **Simulation.** -/
theorem run_simulates {step : α → σ → Eff ε φ σ} {step' : β → τ → Eff ε φ τ} {I : σ → Prop}
    (hkeep : ∀ a s t, I s → (step a s).res = .ok t → I t)
    (hstep : ∀ a s, I s → step a s = pure s ∨ ∃ b, Follows abs (step a) (step' b) s)
    (as : List α) (hI : I p.obj) :
    I (run step p as).obj ∧ ∃ bs, run step' (p.map abs) bs = (run step p as).map abs := by
  have hall : Meets step (fun _ _ => True) p as :=
    Run.meets_of_mem (C := fun _ => True) _ fun _ _ => trivial
  have hshows : ∀ a s, I s → True → Hides ⟨abs, some, some⟩ s (step a s) ∨
      ∃ b, True ∧ Shows ⟨abs, some, some⟩ (step a s) (step' b (abs s)) := by
    intro a s hs _
    rcases hstep a s hs with hidle | ⟨b, hb⟩
    · left
      rw [hidle]
      exact ⟨rfl, rfl⟩
    · exact Or.inr ⟨b, trivial, hb.shows⟩
  obtain ⟨hend, bs, -, hbs⟩ := run_shows (C := fun _ _ => True) (D := fun _ _ => True)
    (fun a s t hs _ ht => hkeep a s t hs ht) hshows as hI hall
  rw [part_eq_map, part_eq_map] at hbs
  exact ⟨hend, bs, hbs⟩

end SmartNet.Lib.Proc

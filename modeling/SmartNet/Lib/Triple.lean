import SmartNet.Lib.Eff

/-! # Hoare triples over the history

`Triple P f Q F`: from a state and a history (the events so far) of `P`, the call `f` either returns
with a value and a history of `Q`, or ends the process with a fault and a history of `F`.

* `Triple.of`: a triple from what the call does in its two cases;
* `Triple.comp`: one call after the other. -/

namespace SmartNet.Lib.Eff

variable {ε φ σ α β : Type}

def Triple (P : List ε → σ → Prop) (f : σ → Eff ε φ α) (Q : List ε → α → Prop)
    (F : List ε → φ → Prop) : Prop :=
  ∀ log s, P log s →
    match (f s).res with
    | .ok a => Q (log ++ (f s).evs) a
    | .error e => F (log ++ (f s).evs) e

namespace Triple

variable {P : List ε → σ → Prop} {Q : List ε → α → Prop} {R : List ε → β → Prop}
  {F : List ε → φ → Prop}
  {f : σ → Eff ε φ α} {g : α → Eff ε φ β}

theorem of (hok : ∀ log s evs a, P log s → f s = ⟨evs, .ok a⟩ → Q (log ++ evs) a)
    (herr : ∀ log s evs e, P log s → f s = ⟨evs, .error e⟩ → F (log ++ evs) e) :
    Triple P f Q F := by
  intro log s hP
  rcases h : f s with ⟨evs, e | a⟩
  · exact herr log s evs e hP h
  · exact hok log s evs a hP h

theorem ok (h : Triple P f Q F) {log evs : List ε} {s : σ} {a : α} (hP : P log s)
    (hf : f s = ⟨evs, .ok a⟩) :
    Q (log ++ evs) a := by
  have := h log s hP
  rwa [hf] at this

theorem error (h : Triple P f Q F) {log evs : List ε} {s : σ} {e : φ} (hP : P log s)
    (hf : f s = ⟨evs, .error e⟩) :
    F (log ++ evs) e := by
  have := h log s hP
  rwa [hf] at this

theorem imp {G : List ε → φ → Prop} (h : Triple P f Q F) (hF : ∀ log e, F log e → G log e) :
    Triple P f Q G :=
  .of (fun _ _ _ _ hP hf => h.ok hP hf) fun _ _ _ _ hP hf => hF _ _ (h.error hP hf)

/-- **One call after the other.** -/
theorem comp (hf : Triple P f Q F) (hg : Triple Q g R F) : Triple P (fun s => f s >>= g) R F := by
  intro log s hP
  have h1 := hf log s hP
  rcases h : f s with ⟨evs, e | a⟩ <;> rw [h] at h1 <;> simp only [h]
  · exact h1
  · have h2 := hg _ a h1
    rw [List.append_assoc] at h2
    exact h2

end Triple

end SmartNet.Lib.Eff

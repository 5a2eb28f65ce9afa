import Mathlib.Logic.Function.Basic

/-! # Computations that emit events and may abort

A call into a C++ object that is compiled with its asserts does three things: it changes the object,
it emits events to the outside (datagrams sent, user callbacks made), and it may end the process.
`Eff ε φ α` is the result of such a call: the events in order, and either the value or the fault the
call ended with. Events emitted before a fault are kept. -/

namespace SmartNet.Lib

/-- The events of a call and its value, or the fault that ended it. -/
structure Eff (ε φ α : Type) where
  evs : List ε
  res : Except φ α

namespace Eff

variable {ε φ α β : Type}

/-- Sequencing: a fault skips the rest. -/
protected def bind (x : Eff ε φ α) (f : α → Eff ε φ β) : Eff ε φ β :=
  match x.res with
  | .ok a => ⟨x.evs ++ (f a).evs, (f a).res⟩
  | .error e => ⟨x.evs, .error e⟩

instance : Monad (Eff ε φ) where
  pure a := ⟨[], .ok a⟩
  bind := Eff.bind

/-- One event. -/
def emit (e : ε) : Eff ε φ Unit := ⟨[e], .ok ()⟩

/-- The process ends. -/
def abort (f : φ) : Eff ε φ α := ⟨[], .error f⟩

/-- An assert: the process ends with `f` unless `c` holds. -/
def require (c : Prop) [Decidable c] (f : φ) : Eff ε φ Unit := if c then pure () else abort f

/-- A call into a part of the object: the part's events and faults are the object's. -/
def lift {ε' φ' : Type} (g : ε → ε') (h : φ → φ') (x : Eff ε φ α) : Eff ε' φ' α :=
  ⟨x.evs.map g, match x.res with
    | .ok a => .ok a
    | .error f => .error (h f)⟩

/-- A call for each element of a list, in order. -/
def forEach (f : α → Eff ε φ β) : List α → Eff ε φ (List β)
  | [] => pure []
  | a :: as => f a >>= fun b => forEach f as >>= fun bs => pure (b :: bs)

@[simp] theorem pure_evs (a : α) : (pure a : Eff ε φ α).evs = [] := rfl

@[simp] theorem pure_res (a : α) : (pure a : Eff ε φ α).res = .ok a := rfl

@[simp] theorem pure_bind (a : α) (f : α → Eff ε φ β) : (pure a : Eff ε φ α) >>= f = f a := rfl

@[simp] theorem abort_bind (e : φ) (f : α → Eff ε φ β) :
    (abort e : Eff ε φ α) >>= f = abort e := rfl

@[simp] theorem abort_evs (f : φ) : (abort f : Eff ε φ α).evs = [] := rfl

@[simp] theorem abort_res (f : φ) : (abort f : Eff ε φ α).res = .error f := rfl

@[simp] theorem emit_bind_evs (e : ε) (f : Unit → Eff ε φ β) :
    (emit e >>= f).evs = e :: (f ()).evs := rfl

@[simp] theorem emit_bind_res (e : ε) (f : Unit → Eff ε φ β) :
    (emit e >>= f).res = (f ()).res := rfl

theorem require_pos {c : Prop} [Decidable c] (h : c) (f : φ) :
    (require c f : Eff ε φ Unit) = pure () := if_pos h

theorem require_neg {c : Prop} [Decidable c] (h : ¬ c) (f : φ) :
    (require c f : Eff ε φ Unit) = abort f := if_neg h

theorem bind_assoc {γ : Type} (x : Eff ε φ α) (f : α → Eff ε φ β) (g : β → Eff ε φ γ) :
    x >>= f >>= g = x >>= fun a => f a >>= g := by
  obtain ⟨evs, _ | a⟩ := x
  · rfl
  · show Eff.bind (Eff.bind ⟨evs, .ok a⟩ f) g = Eff.bind ⟨evs, .ok a⟩ fun a => Eff.bind (f a) g
    simp only [Eff.bind]
    rcases (f a).res with e | b
    · rfl
    · simp only [List.append_assoc]

@[simp] theorem bind_pure (x : Eff ε φ α) : x >>= pure = x := by
  obtain ⟨evs, _ | a⟩ := x
  · rfl
  · show (⟨evs ++ [], .ok a⟩ : Eff ε φ α) = ⟨evs, .ok a⟩
    rw [List.append_nil]

theorem emit_inv {e : ε} {f : Unit → Eff ε φ β} {evs : List ε} {r : Except φ β}
    (h : (emit e >>= f) = ⟨evs, r⟩) :
    ∃ evs', evs = e :: evs' ∧ f () = ⟨evs', r⟩ := by
  have h' : (⟨e :: (f ()).evs, (f ()).res⟩ : Eff ε φ β) = ⟨evs, r⟩ := h
  cases h'; exact ⟨_, rfl, rfl⟩

theorem bind_evs_nil {x : Eff ε φ α} {f : α → Eff ε φ β} (hx : x.evs = [])
    (hf : ∀ a, (f a).evs = []) : (x >>= f).evs = [] := by
  obtain ⟨evs, _ | a⟩ := x
  · exact hx
  · show evs ++ (f a).evs = []
    rw [hf a, List.append_nil]
    exact hx

theorem require_evs (c : Prop) [Decidable c] (f : φ) : (require c f : Eff ε φ Unit).evs = [] := by
  by_cases h : c
  · rw [require_pos h]; rfl
  · rw [require_neg h]; rfl

theorem bind_pure_evs (x : Eff ε φ α) (g : α → β) : (x >>= fun a => pure (g a)).evs = x.evs := by
  obtain ⟨evs, _ | a⟩ := x
  · rfl
  · show evs ++ [] = evs
    rw [List.append_nil]

theorem bind_pure_ok {x : Eff ε φ α} {g : α → β} {evs : List ε} {b : β}
    (h : (x >>= fun a => pure (g a)) = ⟨evs, .ok b⟩) : ∃ a, x = ⟨evs, .ok a⟩ ∧ b = g a := by
  obtain ⟨evs', _ | a⟩ := x
  · cases h
  · have h' : (⟨evs' ++ [], .ok (g a)⟩ : Eff ε φ β) = ⟨evs, .ok b⟩ := h
    rw [List.append_nil] at h'
    cases h'; exact ⟨a, rfl, rfl⟩

theorem bind_pure_error {x : Eff ε φ α} {g : α → β} {evs : List ε} {e : φ}
    (h : (x >>= fun a => pure (g a)) = ⟨evs, .error e⟩) : x = ⟨evs, .error e⟩ := by
  obtain ⟨evs', _ | a⟩ := x <;> cases h
  rfl

theorem bind_of_ok {x : Eff ε φ α} {f : α → Eff ε φ β} {a : α} (h : x.res = .ok a) :
    x >>= f = ⟨x.evs ++ (f a).evs, (f a).res⟩ := by
  obtain ⟨evs, _ | a'⟩ := x
  · cases h
  · cases h; rfl

theorem bind_of_error {x : Eff ε φ α} {f : α → Eff ε φ β} {e : φ} (h : x.res = .error e) :
    x >>= f = ⟨x.evs, .error e⟩ := by
  obtain ⟨evs, _ | a⟩ := x
  · cases h; rfl
  · cases h

theorem bind_ok {x : Eff ε φ α} {f : α → Eff ε φ β} {evs : List ε} {b : β}
    (h : (x >>= f) = ⟨evs, .ok b⟩) :
    ∃ evs1 a evs2, x = ⟨evs1, .ok a⟩ ∧ f a = ⟨evs2, .ok b⟩ ∧ evs = evs1 ++ evs2 := by
  obtain ⟨evs1, e | a⟩ := x
  · cases h
  · rw [bind_of_ok (a := a) rfl] at h
    rcases hf : f a with ⟨evs2, r⟩
    rw [hf] at h
    cases h
    exact ⟨evs1, a, evs2, rfl, hf, rfl⟩

theorem bind_res_ok {x : Eff ε φ α} {f : α → Eff ε φ β} {b : β} (h : (x >>= f).res = .ok b) :
    ∃ a, x.res = .ok a ∧ (f a).res = .ok b := by
  obtain ⟨evs, e | a⟩ := x
  · exact nomatch h
  · exact ⟨a, rfl, h⟩

theorem forEach_ok {f : α → Eff ε φ β} :
    ∀ {as : List α} {evs : List ε} {bs : List β}, forEach f as = ⟨evs, .ok bs⟩ →
      bs.length = as.length ∧ ∀ b ∈ bs, ∃ a ∈ as, ∃ evs', f a = ⟨evs', .ok b⟩
  | [], _, _, h => by
    cases h
    exact ⟨rfl, fun b hb => by cases hb⟩
  | a :: as, _, _, h => by
    obtain ⟨evs1, b, evs2, h1, h2, rfl⟩ := bind_ok h
    obtain ⟨evs3, bs, evs4, h3, h4, rfl⟩ := bind_ok h2
    cases h4
    obtain ⟨hlen, hall⟩ := forEach_ok h3
    refine ⟨congrArg (· + 1) hlen, fun b' hb' => ?_⟩
    rcases List.mem_cons.mp hb' with rfl | hb'
    · exact ⟨a, List.mem_cons_self, evs1, h1⟩
    · obtain ⟨a', ha', evs', h'⟩ := hall b' hb'
      exact ⟨a', List.mem_cons_of_mem _ ha', evs', h'⟩

theorem forEach_of_ok {f : α → Eff ε φ β} :
    ∀ {as : List α}, (∀ a ∈ as, ∃ evs b, f a = ⟨evs, .ok b⟩) →
      ∃ evs bs, forEach f as = ⟨evs, .ok bs⟩
  | [], _ => ⟨[], [], rfl⟩
  | a :: as, h => by
    obtain ⟨evs1, b, h1⟩ := h a List.mem_cons_self
    obtain ⟨evs2, bs, h2⟩ := forEach_of_ok fun a' ha' => h a' (List.mem_cons_of_mem _ ha')
    refine ⟨evs1 ++ (evs2 ++ []), b :: bs, ?_⟩
    show f a >>= _ = _
    rw [bind_of_ok (by rw [h1]), h1]
    show (⟨evs1 ++ (forEach f as >>= _).evs, (forEach f as >>= _).res⟩ : Eff ε φ (List β)) = _
    rw [bind_of_ok (by rw [h2]), h2]
    rfl

end Eff

end SmartNet.Lib

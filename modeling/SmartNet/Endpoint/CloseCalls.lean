import SmartNet.Endpoint.RmpSessions
import SmartNet.Endpoint.RupCallbacks

/-! # What a call of `close` does

For both endpoints, in whatever state the call is made and from whatever code: `close` starts the
teardown, records a pending event, closes an endpoint that waits in its helper, or is refused. A
`CRupEndpoint` that is closed while it waits answers with an error on purpose, so that the state
machine leaves alone what `on_closed` has made of the state.

* `Rup.close_accounted`, `Rmp.close_accounted`: the calls;
* `Rup.doomed_step`, `Rmp.doomed_step`: what is pending before a step is acted on before
  `ES_OPENED`;
* `Rup.unpending_step`, `Rmp.unpending_step`: an open endpoint has no pending event, unless its
  `on_opened` calls `close`. -/

namespace SmartNet.Endpoint.CloseCalls

open SmartNet.Lib SmartNet.Utils.StateMachine SmartNet.Endpoint.Types

namespace Rup

open SmartNet.Endpoint.RupEndpoint

variable {s s' : CRupEndpoint} {cb : Callback} {e : Evt} {evs : List Ev} {r : ℤ} {u : UserCode}

/-- The teardown has started. -/
def TearsDown (s : CRupEndpoint) (evs : List Ev) (s' : CRupEndpoint) : Prop :=
  s.state = .esOpened ∧ (∃ n, s.pSock = some n ∧ evs = [.sockClose n, .delEndpoint .input]) ∧
    s' = { s with state := .esDelingFromIt }

/-- A pending event has been recorded. -/
def Records (s : CRupEndpoint) (evs : List Ev) (s' : CRupEndpoint) : Prop :=
  (s.state = .esAddingIntoOt ∨ s.state = .esAddingIntoIt) ∧ evs = [] ∧
    s' = { s with smPendingEvt := .eeClose }

/-- A waiting endpoint has left its helper and is closed, and `on_closed` has been called. -/
def ClosesWaiting (cb : Callback) (s : CRupEndpoint) (evs : List Ev) (s' : CRupEndpoint) : Prop :=
  s.state = .esAddedIntoHelper ∧ ∃ evs1 s1, cb { s with state := .esClosed } = ⟨evs1, .ok s1⟩ ∧
    evs = .delFromHelper :: .onClosed :: evs1 ∧ s' = { s1 with pSock := none }

/-- What a call that returns `r` does. -/
structure Accounted (cb : Callback) (s : CRupEndpoint) (r : ℤ) (evs : List Ev)
    (s' : CRupEndpoint) : Prop where
  suc : r = 0 ↔ TearsDown s evs s' ∨ Records s evs s'
  err : r ≠ 0 → ClosesWaiting cb s evs s' ∨ evs = [] ∧ s' = s

theorem close_accounted (h : close cb s = ⟨evs, .ok s'⟩) :
    ∃ r evs1, evs = evs1 ++ [.closeRet r] ∧ Accounted cb s r evs1 s' := by
  obtain ⟨r, evs1, ht, rfl⟩ := close_ok h
  clear h
  refine ⟨r, evs1, rfl, ?_⟩
  cases ht with
  | ignored hrow =>
    refine ⟨⟨nofun, ?_⟩, fun _ => Or.inr ⟨rfl, rfl⟩⟩
    rintro (⟨hst, -⟩ | ⟨hst | hst, -⟩) <;> rw [hst] at hrow <;> cases hrow
  | @closeWaiting hst _ evs2 s1 hcb =>
    refine ⟨⟨nofun, ?_⟩, fun _ => Or.inl ⟨hst, _, _, hcb, rfl, rfl⟩⟩
    rintro (⟨hst', -⟩ | ⟨hst' | hst', -⟩) <;> cases hst.symm.trans hst'
  | closeAddingOt hst =>
    exact ⟨⟨fun _ => Or.inr ⟨Or.inl hst, rfl, rfl⟩, fun _ => rfl⟩, fun hr => absurd rfl hr⟩
  | closeAddingIt hst =>
    exact ⟨⟨fun _ => Or.inr ⟨Or.inr hst, rfl, rfl⟩, fun _ => rfl⟩, fun hr => absurd rfl hr⟩
  | tearsDown hst _ hs =>
    exact ⟨⟨fun _ => Or.inl ⟨hst, ⟨_, hs, rfl⟩, rfl⟩, fun _ => rfl⟩, fun hr => absurd rfl hr⟩

/-- A `close` is recorded, or another event is pending just before `ES_OPENED`. -/
def Doomed (s : CRupEndpoint) : Prop :=
  s.state = .esAddingIntoOt ∧ s.smPendingEvt = .eeClose ∨
    s.state = .esAddingIntoIt ∧ s.smPendingEvt ≠ .eeNone

/-- The session is over, or its teardown has started. -/
def Over (s : CRupEndpoint) : Prop :=
  s.state = .esClosed ∨ s.state = .esDelingFromIt ∨ s.state = .esDelingFromOt

/-- **What is pending is acted on**: no event takes the endpoint on. -/
theorem doomed_step {a : RupCallbacks.Act} (h : RupCallbacks.step a s = ⟨evs, .ok s'⟩)
    (hd : Doomed s) : Doomed s' ∨ Over s' := by
  obtain ⟨hst, -⟩ | ⟨-, rfl⟩ | ⟨r, evs1, evs2, -, ht, -⟩ := RupCallbacks.step_ok h
  · unfold Doomed at hd
    simp [hst] at hd
  · exact Or.inl hd
  · clear h
    generalize a.1 = e at ht
    obtain ⟨hst, hp⟩ | ⟨hst, hp⟩ := hd
    · cases ht with
      | ignored => exact Or.inl (Or.inl ⟨hst, hp⟩)
      | closeAddingOt => exact Or.inl (Or.inl ⟨hst, rfl⟩)
      | errAddingOt => exact Or.inr (Or.inl rfl)
      | addedOtClose => exact Or.inr (Or.inr (Or.inr rfl))
      | addedOt _ hp' => cases hp.symm.trans hp'
      | opens h | closeWaiting h | connected h | errAddingIt h | closeAddingIt h | addedItPending h
      | addedIt h | tearsDown h | deledIt h | deledOt h => cases hst.symm.trans h
    · cases ht with
      | ignored => exact Or.inl (Or.inr ⟨hst, hp⟩)
      | closeAddingIt => exact Or.inl (Or.inr ⟨hst, nofun⟩)
      | errAddingIt => exact Or.inl (Or.inr ⟨hst, nofun⟩)
      | addedItPending => exact Or.inr (Or.inr (Or.inr rfl))
      | addedIt _ hp' => exact absurd hp' hp
      | opens h | closeWaiting h | connected h | closeAddingOt h | errAddingOt h | addedOtClose h
      | addedOt h | tearsDown h | deledIt h | deledOt h => cases hst.symm.trans h

/-- The `on_opened` of the step does not call `close`. -/
def Heedful (s : CRupEndpoint) : RupCallbacks.Act → Prop
  | (.eeAddedIntoIt, u) => s.state = .esAddingIntoIt → s.smPendingEvt = .eeNone → u.closes = false
  | _ => True

/-- An open endpoint has no pending event. -/
def Unpending (s : CRupEndpoint) : Prop := s.state = .esOpened → s.smPendingEvt = .eeNone

theorem unpending_step (a : RupCallbacks.Act) :
    Eff.Triple (fun _ s => Unpending s ∧ Heedful s a) (RupCallbacks.step a) (fun _ s => Unpending s)
      fun _ _ => True := by
  refine .of (fun log s evs s' ⟨hI, hc⟩ h => ?_) fun _ _ _ _ _ _ => trivial
  obtain ⟨-, -, hst, -⟩ | ⟨-, rfl⟩ | ⟨r, evs1, evs2, -, ht, -⟩ := RupCallbacks.step_ok h
  · exact fun hst' => absurd (hst.symm.trans hst') nofun
  · exact hI
  · clear h
    obtain ⟨e, u⟩ := a
    cases ht with
    | ignored => exact hI
    | closeWaiting _ _ hcb | deledOt _ hcb =>
      obtain ⟨hr, -⟩ := u.run_resting (Or.inl rfl) hcb
      intro hst
      obtain hr | hr := hr <;> exact absurd (hr.symm.trans hst) nofun
    | addedIt hst hp hcb =>
      rw [u.run_adding hst, hc hst hp] at hcb
      cases hcb
      exact fun _ => hp
    | closeAddingOt h | errAddingIt h | closeAddingIt h =>
      exact fun hst => absurd (h.symm.trans hst) nofun
    | opens | connected | errAddingOt | addedOtClose | addedOt | addedItPending | tearsDown
    | deledIt => exact nofun

end Rup

namespace Rmp

open SmartNet.Endpoint.RmpEndpoint

variable {s s' : CRmpEndpoint} {evs : List Ev}

/-- The teardown has started. -/
def TearsDown (s : CRmpEndpoint) (evs : List Ev) (s' : CRmpEndpoint) : Prop :=
  s.state = .esOpened ∧ (∃ n, s.pSock = some n ∧ evs = [.sockClose n, .delEndpoint .input]) ∧
    s' = { s with state := .esDelingFromIt }

/-- A pending event has been recorded. -/
def Records (s : CRmpEndpoint) (evs : List Ev) (s' : CRmpEndpoint) : Prop :=
  (s.state = .esAddingIntoOt ∨ s.state = .esAddingIntoIt) ∧ evs = [] ∧
    s' = { s with smPendingEvt := .eeClose }

/-- What a call that returns `r` does. -/
structure Accounted (s : CRmpEndpoint) (r : ℤ) (evs : List Ev) (s' : CRmpEndpoint) : Prop where
  suc : r = 0 ↔ TearsDown s evs s' ∨ Records s evs s'
  err : r ≠ 0 → evs = [] ∧ s' = s

theorem close_accounted (h : close s = ⟨evs, .ok s'⟩) :
    ∃ r evs1, evs = evs1 ++ [.closeRet r] ∧ Accounted s r evs1 s' := by
  obtain ⟨r, evs1, ht, rfl⟩ := close_ok h
  clear h
  refine ⟨r, evs1, rfl, ?_⟩
  cases ht with
  | ignored hrow =>
    refine ⟨⟨nofun, ?_⟩, fun _ => ⟨rfl, rfl⟩⟩
    rintro (⟨hst, -⟩ | ⟨hst | hst, -⟩) <;> rw [hst] at hrow <;> cases hrow
  | closeAddingOt hst =>
    exact ⟨⟨fun _ => Or.inr ⟨Or.inl hst, rfl, rfl⟩, fun _ => rfl⟩, fun hr => absurd rfl hr⟩
  | closeAddingIt hst =>
    exact ⟨⟨fun _ => Or.inr ⟨Or.inr hst, rfl, rfl⟩, fun _ => rfl⟩, fun hr => absurd rfl hr⟩
  | tearsDown hst _ hs =>
    exact ⟨⟨fun _ => Or.inl ⟨hst, ⟨_, hs, rfl⟩, rfl⟩, fun _ => rfl⟩, fun hr => absurd rfl hr⟩

/-- A `close` is recorded, or another event is pending just before `ES_OPENED`. -/
def Doomed (s : CRmpEndpoint) : Prop :=
  s.state = .esAddingIntoOt ∧ s.smPendingEvt = .eeClose ∨
    s.state = .esAddingIntoIt ∧ s.smPendingEvt ≠ .eeNone

/-- The session is over, or its teardown has started. -/
def Over (s : CRmpEndpoint) : Prop :=
  s.state = .esClosed ∨ s.state = .esDelingFromIt ∨ s.state = .esDelingFromOt

/-- **What is pending is acted on**: no event takes the endpoint on. -/
theorem doomed_step {a : RmpSessions.Act} (h : RmpSessions.step a s = ⟨evs, .ok s'⟩)
    (hd : Doomed s) : Doomed s' ∨ Over s' := by
  obtain ⟨u, evs1, r, ht, -⟩ := RmpSessions.step_ok h
  clear h
  generalize a.1 = e at ht
  obtain ⟨hst, hp⟩ | ⟨hst, hp⟩ := hd
  · cases ht with
    | ignored => exact Or.inl (Or.inl ⟨hst, hp⟩)
    | closeAddingOt => exact Or.inl (Or.inl ⟨hst, rfl⟩)
    | errAddingOt => exact Or.inr (Or.inl rfl)
    | addedOtClose => exact Or.inr (Or.inr (Or.inr rfl))
    | addedOt _ hp' => cases hp.symm.trans hp'
    | opens h | openFails h | errAddingIt h | closeAddingIt h | addedItFails h | addedIt h
    | tearsDown h | deledIt h | deledOt h => cases hst.symm.trans h
  · cases ht with
    | ignored => exact Or.inl (Or.inr ⟨hst, hp⟩)
    | closeAddingIt => exact Or.inl (Or.inr ⟨hst, nofun⟩)
    | errAddingIt => exact Or.inl (Or.inr ⟨hst, nofun⟩)
    | addedItFails => exact Or.inr (Or.inr (Or.inl rfl))
    | addedIt _ hp' => exact absurd (Or.inl hp) hp'
    | opens h | openFails h | closeAddingOt h | errAddingOt h | addedOtClose h | addedOt h
    | tearsDown h | deledIt h | deledOt h => cases hst.symm.trans h

/-- The `on_opened` of the step does not call `close`. -/
def Heedful (s : CRmpEndpoint) : RmpSessions.Act → Prop
  | (.eeAddedIntoIt joined, u) => s.state = .esAddingIntoIt →
      ¬ (s.smPendingEvt ≠ .eeNone ∨ (s.i32Type = .recv ∧ joined = false)) → u.closes = false
  | _ => True

/-- An open endpoint has no pending event. -/
def Unpending (s : CRmpEndpoint) : Prop := s.state = .esOpened → s.smPendingEvt = .eeNone

theorem unpending_step (a : RmpSessions.Act) :
    Eff.Triple (fun _ s => Unpending s ∧ Heedful s a) (RmpSessions.step a) (fun _ s => Unpending s)
      fun _ _ => True := by
  refine .of (fun log s evs s' ⟨hI, hc⟩ h => ?_) fun _ _ _ _ _ _ => trivial
  obtain ⟨u, evs1, r, ht, hu⟩ := RmpSessions.step_ok h
  clear h
  obtain ⟨e, u'⟩ := a
  cases ht with
  | ignored => exact hI
  | deledOt _ hcb =>
    obtain ⟨evs2, s2, h1, -, -, hr⟩ := RmpSessions.user_flag u false
      (s := { s with state := .esClosed }) rfl
    cases h1.symm.trans hcb
    intro hst
    obtain hr | hr := hr <;> exact absurd (hr.symm.trans hst) nofun
  | addedIt hst hp hcb =>
    obtain rfl := hu (Or.inr ⟨_, rfl⟩)
    rw [u.run_adding hst, hc hst hp] at hcb
    cases hcb
    exact fun _ => by simpa using (not_or.mp hp).1
  | openFails h | closeAddingOt h | errAddingIt h | closeAddingIt h =>
    exact fun hst => absurd (h.symm.trans hst) nofun
  | opens | errAddingOt | addedOtClose | addedOt | addedItFails | tearsDown | deledIt => exact nofun

end Rmp

/-! ## The runs -/

theorem doomed_run {σ ε φ α : Type} {step : α → σ → Eff ε φ σ} {Doomed Over : σ → Prop}
    (h : ∀ {a s s' evs}, step a s = ⟨evs, .ok s'⟩ → Doomed s → Doomed s' ∨ Over s')
    {p : Proc σ ε φ} (hd : Doomed p.obj) {as : List α}
    (hm : Proc.Meets step (fun s _ => ¬ Over s) p as)
    (hf : (Proc.run step p as).fault = none) :
    Doomed (Proc.run step p as).obj ∨ Over (Proc.run step p as).obj := by
  have hI : ∀ a, Eff.Triple (fun _ s => (Doomed s ∨ Over s) ∧ ¬ Over s) (step a)
    (fun _ s => Doomed s ∨ Over s) fun _ _ => True :=
    fun a => .of (fun _ s evs s' ⟨hd, ho⟩ hs => h hs (hd.resolve_right ho))
      fun _ _ _ _ _ _ => trivial
  have h0 : Proc.Holds (fun _ s => Doomed s ∨ Over s) (fun _ _ => True) p := by
    unfold Proc.Holds
    rw [Proc.run_fault_none hf]
    exact Or.inl hd
  exact (Proc.run_inv hI h0 hm).alive hf

/-- **What `close` answers.** A `close` returns CMNERR_SUC exactly when it starts the teardown or
records a pending event; a `close` of a `CRupEndpoint` that waits in its helper closes it and
returns an error code; any other `close` that returns an error changes nothing and requests nothing.
Whatever comes after a state in which a `close` is pending, the endpoint is not open before it has
been torn down or closed. What an `on_opened` records is excepted: that happens within the step that
leads to `ES_OPENED`, which does not look at it any more. If no `on_opened` calls `close`, an open
endpoint has no pending event. -/
theorem accounted :
    (∀ cb s evs s', RupEndpoint.close cb s = ⟨evs, .ok s'⟩ →
      ∃ r evs1, evs = evs1 ++ [.closeRet r] ∧ Rup.Accounted cb s r evs1 s') ∧
    (∀ p k as1 as2, Rup.Doomed (RupCallbacks.run p k as1).obj →
      Proc.Meets RupCallbacks.step (fun s _ => ¬ Rup.Over s) (RupCallbacks.run p k as1) as2 →
      (RupCallbacks.run p k (as1 ++ as2)).fault = none →
      Rup.Doomed (RupCallbacks.run p k (as1 ++ as2)).obj ∨
        Rup.Over (RupCallbacks.run p k (as1 ++ as2)).obj) ∧
    (∀ p k as, Proc.Meets RupCallbacks.step Rup.Heedful { obj := RupEndpoint.init p k } as →
      (RupCallbacks.run p k as).fault = none → Rup.Unpending (RupCallbacks.run p k as).obj) ∧
    (∀ s evs s', RmpEndpoint.close s = ⟨evs, .ok s'⟩ → ∃ r evs1, evs = evs1 ++ [.closeRet r] ∧
      Rmp.Accounted s r evs1 s') ∧
    (∀ s as1 as2, Rmp.Doomed (RmpSessions.run s as1).obj →
      Proc.Meets RmpSessions.step (fun s _ => ¬ Rmp.Over s) (RmpSessions.run s as1) as2 →
      (RmpSessions.run s (as1 ++ as2)).fault = none →
      Rmp.Doomed (RmpSessions.run s (as1 ++ as2)).obj ∨
        Rmp.Over (RmpSessions.run s (as1 ++ as2)).obj) ∧
    (∀ t p as, Proc.Meets RmpSessions.step Rmp.Heedful { obj := RmpEndpoint.init t p } as →
      (RmpSessions.run (RmpEndpoint.init t p) as).fault = none →
        Rmp.Unpending (RmpSessions.run (RmpEndpoint.init t p) as).obj) := by
  refine ⟨fun cb s evs s' h => Rup.close_accounted h, fun p k as1 as2 hd hm hf => ?_,
    fun p k as hm hf => ?_,
    fun s evs s' h => Rmp.close_accounted h, fun s as1 as2 hd hm hf => ?_, fun t p as hm hf => ?_⟩
  · unfold RupCallbacks.run at hf ⊢
    rw [Proc.run_append] at hf ⊢
    exact doomed_run Rup.doomed_step hd hm hf
  · have h0 : Proc.Holds (fun _ s => Rup.Unpending s) (fun _ _ => True)
        ({ obj := RupEndpoint.init p k } : Proc _ RupEndpoint.Ev RupEndpoint.Fault) := nofun
    exact (Proc.run_inv Rup.unpending_step h0 hm).alive hf
  · unfold RmpSessions.run at hf ⊢
    rw [Proc.run_append] at hf ⊢
    exact doomed_run Rmp.doomed_step hd hm hf
  · have h0 : Proc.Holds (fun _ s => Rmp.Unpending s) (fun _ _ => True)
        ({ obj := RmpEndpoint.init t p } : Proc _ RmpEndpoint.Ev RmpEndpoint.Fault) := nofun
    exact (Proc.run_inv Rmp.unpending_step h0 hm).alive hf

/-- A `close` while the input registration is outstanding, and what then happens. -/
def closedEarly : List RupCallbacks.Act :=
  [(.eeOpen, .done), (.eeConnected 7, .done), (.eeAddedIntoOt, .done), (.eeClose, .done)]

/-- A session whose `on_opened` calls `open` only. -/
def opened : List RmpSessions.Act :=
  [(.eeOpen RmpSessions.opening, .done), (.eeAddedIntoOt, .done),
    (.eeAddedIntoIt true, .callOpen RmpSessions.opening .done)]

theorem accounted_sessions :
    (Rup.Doomed (RupCallbacks.run .eeNone {} (closedEarly ++ [(.eeAddedIntoIt, .done)])).obj ∨
      Rup.Over (RupCallbacks.run .eeNone {} (closedEarly ++ [(.eeAddedIntoIt, .done)])).obj) ∧
    Rmp.Unpending (RmpSessions.run (RmpEndpoint.init .recv .eeNone) opened).obj := by
  refine ⟨accounted.2.1 .eeNone {} closedEarly [(.eeAddedIntoIt, .done)]
    (Or.inr ⟨by decide, by decide⟩) ⟨?_, trivial⟩ (by decide),
    accounted.2.2.2.2.2 .recv .eeNone opened ⟨trivial, trivial, fun _ _ => rfl, trivial⟩
      (by decide)⟩
  rintro (h | h | h) <;> exact absurd h (by decide)

/-- Closing a waiting endpoint: it leaves its helper, `on_closed` is called, it is closed, and
`close` returns an error. -/
theorem waiting_closed :
    (RupCallbacks.run .eeNone {} [(.eeOpen, .done), (.eeClose, .done)]).log =
      [.addToHelper, .openRet 0, .delFromHelper, .onClosed, .closeRet (-2)] ∧
    (RupCallbacks.run .eeNone {} [(.eeOpen, .done)]).obj.state = .esAddedIntoHelper ∧
    (RupCallbacks.run .eeNone {} [(.eeOpen, .done), (.eeClose, .done)]).obj.state = .esClosed := by
  decide

end SmartNet.Endpoint.CloseCalls

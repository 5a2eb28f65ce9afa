import SmartNet.Endpoint.RmpEndpoint
import SmartNet.Lib.Process

/-! # The sessions of a `CRmpEndpoint`

An endpoint that has been closed is opened again. Nothing resets `m_i32SMPendingEvt`, so an event
that was deferred in one session meets the next one.

* `flag_step`: what the flag is after an event;
* `opened_alike`: from the first `open` on only the flag tells an endpoint from a fresh one;
* `independent`: the runs. -/

namespace SmartNet.Endpoint.RmpSessions

open SmartNet.Lib SmartNet.Utils.StateMachine SmartNet.Endpoint.RmpEndpoint SmartNet.Endpoint.Types

/-- An event, and the user code of the callback it leads to. -/
abbrev Act := Evt × UserCode

def step : Act → CRmpEndpoint → Eff Ev Fault CRmpEndpoint
  | (.eeOpen o, _), s => openEp o s
  | (.eeClose, _), s => close s
  | (e, u), s => posting (postEvt u.run s e)

/-- The endpoint `s` after the events. -/
def run (s : CRmpEndpoint) (as : List Act) : Proc CRmpEndpoint Ev Fault :=
  Proc.run step { obj := s } as

/-- Whether user code records a `close`; it starts with the endpoint closed, or in
`ES_ADDING_INTO_OT` after an `open`. -/
def records (t : RmpType) : Bool → UserCode → Bool
  | _, .done => false
  | opened, .callOpen o next => records t (opened || o.ok t) next
  | opened, .callClose next => opened || records t opened next

/-- No event is deferred: neither `close` nor an internal error comes while the endpoint is
registered, `on_opened` does not call `close`, and `on_closed` does not close what it has opened. -/
def Undeferred (s : CRmpEndpoint) : Act → Prop
  | (.eeClose, _) => s.state ≠ .esAddingIntoOt ∧ s.state ≠ .esAddingIntoIt
  | (.eeInternalErr, _) => s.state ≠ .esAddingIntoOt ∧ s.state ≠ .esAddingIntoIt
  | (.eeAddedIntoIt joined, u) =>
    s.state = .esAddingIntoIt → (s.i32Type = .recv → joined = true) → u.closes = false
  | (.eeDeledFromOt, u) => s.state = .esDelingFromOt → records s.i32Type false u = false
  | _ => True

instance (s : CRmpEndpoint) : ∀ a, Decidable (Undeferred s a)
  | (.eeClose, _) => inferInstanceAs (Decidable (_ ∧ _))
  | (.eeInternalErr, _) => inferInstanceAs (Decidable (_ ∧ _))
  | (.eeAddedIntoIt _, _) => inferInstanceAs (Decidable (_ → _ → _))
  | (.eeDeledFromOt, _) => inferInstanceAs (Decidable (_ → _))
  | (.eeOpen _, _) => .isTrue trivial
  | (.eeAddedIntoOt, _) => .isTrue trivial
  | (.eeDeledFromIt, _) => .isTrue trivial

variable {s s' : CRmpEndpoint} {cb : Callback} {e : Evt} {evs : List Ev} {r : ℤ} {o : Opening}
  {u : UserCode} {t : RmpType}

/-- What a step is: `open`, `close` or `post_evt` of another event, as far as the endpoint is
concerned. -/
theorem step_ok {a : Act} (h : step a s = ⟨evs, .ok s'⟩) :
    ∃ u evs1 r, Trans (UserCode.run u) s a.1 evs1 r s' ∧
    (a.1 = .eeDeledFromOt ∨ (∃ joined, a.1 = .eeAddedIntoIt joined) → u = a.2) := by
  obtain ⟨e, u⟩ := a
  cases e with
  | eeOpen o =>
    obtain ⟨r, evs1, ht, -⟩ := openEp_ok h
    exact ⟨.done, evs1, r, ht, by rintro (he | ⟨j, he⟩) <;> cases he⟩
  | eeClose =>
    obtain ⟨r, evs1, ht, -⟩ := close_ok h
    exact ⟨.done, evs1, r, ht, by rintro (he | ⟨j, he⟩) <;> cases he⟩
  | eeInternalErr | eeAddedIntoOt | eeAddedIntoIt | eeDeledFromIt | eeDeledFromOt =>
    obtain ⟨r, h1⟩ := posting_ok h
    exact ⟨u, evs, r, post_trans h1, fun _ => rfl⟩

/-! ## The flag -/

theorem openEp_opens (h : s.state = .esClosed) (ho : o.ok s.i32Type = true) :
    openEp o s = ⟨[.addEndpoint .output, .openRet 0],
      .ok { s with state := .esAddingIntoOt, paras := o.paras, pSock := some o.pSock }⟩ := by
  have hrow : initSm pure s.state (.eeOpen o) =
    some ⟨.esAddingIntoOt, some (handlingClosedToAddingIntoOt o)⟩ := by
    rw [h]; rfl
  have hfn : handlingClosedToAddingIntoOt o s =
      ⟨[.addEndpoint .output], .ok (.suc, { s with paras := o.paras, pSock := some o.pSock })⟩ := by
    unfold handlingClosedToAddingIntoOt
    rw [if_pos ho]; rfl
  have h1 : postEvt pure s (.eeOpen o) = _ := postEvt_suc hrow hfn
  unfold openEp
  rw [h1]; rfl

theorem openEp_addingOt (h : s.state = .esAddingIntoOt) :
    openEp o s = ⟨[.openRet (-1)], .ok s⟩ := by
  obtain ⟨ty, st, p, sock, pa⟩ := s
  cases h; rfl

theorem close_addingOt (h : s.state = .esAddingIntoOt) :
    close s = ⟨[.closeRet 0], .ok { s with smPendingEvt := .eeClose }⟩ := by
  obtain ⟨ty, st, p, sock, pa⟩ := s
  cases h; rfl

/-- What user code in `on_closed` leaves: the type stays, the flag is set when a `close` was
recorded, and the endpoint is closed or open again. -/
def Left (s s' : CRmpEndpoint) (recorded : Bool) : Prop :=
  s'.i32Type = s.i32Type ∧ (s'.smPendingEvt = if recorded then .eeClose else s.smPendingEvt) ∧
    (s'.state = .esClosed ∨ s'.state = .esAddingIntoOt)

/-- **User code in `on_closed`** returns, and records what `records` says. -/
theorem user_flag : ∀ (u : UserCode) (opened : Bool) {s : CRmpEndpoint},
    s.state = (if opened then .esAddingIntoOt else .esClosed) →
    ∃ evs s', u.run s = ⟨evs, .ok s'⟩ ∧ Left s s' (records s.i32Type opened u)
  | .done, true, s, h => ⟨[], s, rfl, rfl, rfl, Or.inr h⟩
  | .done, false, s, h => ⟨[], s, rfl, rfl, rfl, Or.inl h⟩
  | .callOpen o next, true, s, h => by
    obtain ⟨evs, s', h1, h2⟩ := user_flag next true h
    refine ⟨.openRet (-1) :: evs, s', ?_, h2⟩
    show openEp o s >>= next.run = _
    rw [openEp_addingOt h, Eff.bind_of_ok rfl, h1]; rfl
  | .callOpen o next, false, s, h => by
    show ∃ evs s', openEp o s >>= next.run = ⟨evs, .ok s'⟩ ∧
      Left s s' (records s.i32Type (o.ok s.i32Type) next)
    rcases ho : o.ok s.i32Type with _ | _
    · obtain ⟨evs, s', h1, h2⟩ := user_flag next false
        (s := { s with paras := o.paras, pSock := none }) h
      refine ⟨.openRet (-2) :: evs, s', ?_, h2⟩
      rw [openEp_closed h ho, Eff.bind_of_ok rfl, h1]; rfl
    · obtain ⟨evs, s', h1, h2⟩ :=
        user_flag next true
          (s := { s with state := .esAddingIntoOt, paras := o.paras, pSock := some o.pSock }) rfl
      refine ⟨.addEndpoint .output :: .openRet 0 :: evs, s', ?_, h2⟩
      rw [openEp_opens h ho, Eff.bind_of_ok rfl, h1]; rfl
  | .callClose next, true, s, h => by
    obtain ⟨evs, s', h1, h2, h3, h4⟩ := user_flag next true
      (s := { s with smPendingEvt := .eeClose }) h
    refine ⟨.closeRet 0 :: evs, s', ?_, h2, ?_, h4⟩
    · show close s >>= next.run = _
      rw [close_addingOt h, Eff.bind_of_ok rfl, h1]; rfl
    · rw [h3]
      simp [records]
  | .callClose next, false, s, h => by
    obtain ⟨evs, s', h1, h2⟩ := user_flag next false h
    refine ⟨.closeRet (-1) :: evs, s', ?_, h2⟩
    show close s >>= next.run = _
    rw [close_closed h, Eff.bind_of_ok rfl, h1]; rfl

theorem recorded_iff {p : PendingEvt} {b : Bool} : (if b then .eeClose else p) = PendingEvt.eeNone ↔
    p = .eeNone ∧ b = false := by
  cases b <;> simp

/-- **The flag after an event**: it is EE_NONE if it was and the event defers nothing. Nothing else
resets it. -/
theorem flag_step {a : Act} (h : step a s = ⟨evs, .ok s'⟩) :
    s'.i32Type = s.i32Type ∧
      (s'.smPendingEvt = .eeNone ↔ s.smPendingEvt = .eeNone ∧ Undeferred s a) := by
  obtain ⟨u, evs1, r, ht, hu⟩ := step_ok h
  obtain ⟨e, u'⟩ := a
  have hkept : Undeferred s (e, u') →
    (s.smPendingEvt = .eeNone ↔ s.smPendingEvt = .eeNone ∧ Undeferred s (e, u')) :=
    fun h => (and_iff_left h).symm
  cases ht with
  | ignored hrow =>
    refine ⟨rfl, hkept ?_⟩
    cases e with
    | eeClose | eeInternalErr => constructor <;> intro hst <;> rw [hst] at hrow <;> cases hrow
    | eeAddedIntoIt => intro hst; rw [hst] at hrow; cases hrow
    | eeDeledFromOt => intro hst; rw [hst] at hrow; cases hrow
    | eeOpen | eeAddedIntoOt | eeDeledFromIt => trivial
  | opens | openFails | addedOtClose | addedOt | deledIt => exact ⟨rfl, hkept trivial⟩
  | closeAddingOt hst | errAddingOt hst => exact ⟨rfl, nofun, fun ⟨_, hc⟩ => absurd hst hc.1⟩
  | closeAddingIt hst | errAddingIt hst => exact ⟨rfl, nofun, fun ⟨_, hc⟩ => absurd hst hc.2⟩
  | addedItFails hst hp =>
    refine ⟨rfl, fun h0 => ⟨h0, fun _ hj => ?_⟩, And.left⟩
    obtain hp | ⟨ht, hj'⟩ := hp
    · exact absurd h0 hp
    · rw [hj ht] at hj'; cases hj'
  | addedIt hst hp hcb =>
    obtain rfl := hu (Or.inr ⟨_, rfl⟩)
    rw [u.run_adding hst] at hcb
    cases hcb
    have hj : s.i32Type = .recv → _ = true := fun ht => by simpa [ht] using (not_or.mp hp).2
    refine ⟨rfl, ?_⟩
    show (if u.closes then PendingEvt.eeClose else s.smPendingEvt) = .eeNone ↔ _
    rw [recorded_iff]
    exact and_congr_right fun _ => ⟨fun h _ _ => h, fun h => h hst hj⟩
  | tearsDown hst he =>
    refine ⟨rfl, hkept ?_⟩
    rcases he with rfl | rfl <;> constructor <;> rw [hst] <;> nofun
  | @deledOt hst _ s1 hcb =>
    obtain rfl := hu (Or.inl rfl)
    obtain ⟨evs2, s2, h1, h2, h3, -⟩ := user_flag u false (s := { s with state := .esClosed }) rfl
    cases h1.symm.trans hcb
    refine ⟨h2, ?_⟩
    show s1.smPendingEvt = .eeNone ↔ _
    rw [h3, recorded_iff]
    exact and_congr_right fun _ => ⟨fun h _ => h, fun h => h hst⟩

/-! ## Two runs -/

/-- The same states, the same registrations and callbacks, the same end. -/
def Alike (p q : Proc CRmpEndpoint Ev Fault) : Prop :=
  p.obj.state = q.obj.state ∧ p.log = q.log ∧ p.fault = q.fault

theorem run_open (h : openEp o s = ⟨evs, .ok s'⟩) (u : UserCode) (as : List Act) :
    run s ((.eeOpen o, u) :: as) = Proc.run step ⟨s', evs, none⟩ as := by
  have hcall : step (.eeOpen o, u) s = ⟨evs, .ok s'⟩ := h
  show Proc.run step (Proc.call (step (.eeOpen o, u)) { obj := s }) as = _
  rw [Proc.call_ok rfl (show (step (.eeOpen o, u) s).res = .ok s' by rw [hcall]), hcall]; rfl

/-- **From the first `open` on** a closed endpoint whose flag is EE_NONE is a fresh one. -/
theorem opened_alike (hst : s.state = .esClosed) (hp : s.smPendingEvt = .eeNone) (o : Opening)
    (u : UserCode) (as : List Act) :
    run s ((.eeOpen o, u) :: as) = run (init s.i32Type .eeNone) ((.eeOpen o, u) :: as) := by
  obtain ⟨t, st, p, sock, pa⟩ := s
  cases hst; cases hp
  rcases ho : o.ok t with _ | _
  · rw [run_open (openEp_closed rfl ho), run_open (openEp_closed (s := init t .eeNone) rfl ho)]; rfl
  · rw [run_open (openEp_opens rfl ho), run_open (openEp_opens (s := init t .eeNone) rfl ho)]; rfl

/-- An opening that succeeds. -/
def opening : Opening := ⟨⟨"239.0.0.1", "0.0.0.0", 7000, 1, 1⟩, 3, true, true, true⟩

/-- **A deferred event** shows when the output registration is reported. -/
theorem deferred_shows (hst : s.state = .esClosed)
    (h : Alike (run s [(.eeOpen opening, .done), (.eeAddedIntoOt, .done)])
      (run (init t .eeNone) [(.eeOpen opening, .done), (.eeAddedIntoOt, .done)])) :
    s.smPendingEvt = .eeNone := by
  obtain ⟨t', st, p, sock, pa⟩ := s
  cases hst
  obtain ⟨h1, -, h3⟩ := h
  cases p with
  | eeNone => rfl
  | eeClose => cases h1
  | eeInternalErr | other => cases h3

/-! ## The runs -/

/-- The type is the constructed one, and the flag at the end says whether anything was deferred. -/
theorem flag_run {p : PendingEvt} {hist : List Act} (hf : (run (init t p) hist).fault = none) :
    (run (init t p) hist).obj.i32Type = t ∧
      ((run (init t p) hist).obj.smPendingEvt = .eeNone ↔
        p = .eeNone ∧ Proc.Meets step Undeferred { obj := init t p } hist) := by
  refine ⟨?_, Proc.run_iff_meets (A := fun s => s.smPendingEvt = .eeNone)
    (fun _ _ _ _ h => (flag_step h).2) hf⟩
  have h := Proc.run_iff_meets (A := fun s => s.i32Type = t) (C := fun _ _ => True)
    (fun a s evs s' h => by rw [(flag_step h).1, and_true]) hf
  exact h.mpr ⟨rfl, Proc.meets_true hist⟩

/-- **Sessions are independent exactly if nothing was deferred.** After a history that ended in
`ES_CLOSED`, every new session, that is every sequence of events that starts with an `open`, goes
through the same states and has the same effects as on a fresh endpoint with no pending event,
exactly if the memory of the flag held EE_NONE when the endpoint was constructed and no event of the
history deferred anything. -/
theorem independent (t : RmpType) (p : PendingEvt) (hist : List Act)
    (hf : (run (init t p) hist).fault = none) (hst : (run (init t p) hist).obj.state = .esClosed) :
    (∀ o u as, Alike (run (run (init t p) hist).obj ((.eeOpen o, u) :: as))
      (run (init t .eeNone) ((.eeOpen o, u) :: as))) ↔
      p = .eeNone ∧ Proc.Meets step Undeferred
        ({ obj := init t p } : Proc CRmpEndpoint Ev Fault) hist := by
  obtain ⟨htype, hflag⟩ := flag_run hf
  rw [← hflag]
  constructor
  · intro h
    exact deferred_shows hst (h opening .done [(.eeAddedIntoOt, .done)])
  · intro hp o u as
    rw [opened_alike hst hp o u as, htype]
    exact ⟨rfl, rfl, rfl⟩

/-- A session of a receiver that is closed when it is opened. -/
def session : List Act :=
  [(.eeOpen opening, .done), (.eeAddedIntoOt, .done), (.eeAddedIntoIt true, .done),
    (.eeClose, .done), (.eeDeledFromIt, .done), (.eeDeledFromOt, .done)]

theorem independent_session :
    Alike (run (run (init .recv .eeNone) session).obj session) (run (init .recv .eeNone) session) :=
  (independent .recv .eeNone session (by decide) (by decide)).mpr ⟨rfl, by decide⟩ opening .done _

/-- A session that is closed while the output registration is outstanding. -/
def closedEarly : List Act :=
  [(.eeOpen opening, .done), (.eeClose, .done), (.eeAddedIntoOt, .done), (.eeDeledFromOt, .done)]

/-- The next session is torn down by the `close` of the one before. -/
theorem closed_again :
    ((run (init .recv .eeNone) closedEarly).fault = none ∧
      (run (init .recv .eeNone) closedEarly).obj.state = .esClosed) ∧
    (run (run (init .recv .eeNone) closedEarly).obj
      [(.eeOpen opening, .done), (.eeAddedIntoOt, .done)]).obj.state = .esDelingFromOt ∧
    (run (init .recv .eeNone) [(.eeOpen opening, .done), (.eeAddedIntoOt, .done)]).obj.state =
      .esAddingIntoIt := by
  decide

end SmartNet.Endpoint.RmpSessions

import SmartNet.Endpoint.RupConnector
import SmartNet.Lib.Process

/-! # The sessions of a `CRupConnector`

A connector that is closed in whatever state and opened again. A connection attempt that is closed
goes through `ES_DELING_FROM_OT_CLOSE`, which leaves the closed socket in `m_pTcpSock`; the other
ways to `ES_CLOSED` do not.

* `inv_step`: where `m_pTcpSock` is NULL;
* `closed_clean`: the runs. -/

namespace SmartNet.Endpoint.ConnectorSessions

open SmartNet.Lib SmartNet.Utils.StateMachine SmartNet.Endpoint.RupConnector SmartNet.Endpoint.Types

/-- An event, and the user code of the callback it leads to. -/
abbrev Act := Evt × UserCode

def step : Act → CRupConnector → Eff Ev Fault CRupConnector
  | (.eeOpen sp, _), s => openEp sp s
  | (.eeClose, _), s => close s
  | (e, u), s => posting (postEvt u.run s e)

/-- The connector after the events. -/
def run (as : List Act) : Proc CRupConnector Ev Fault := Proc.run step { obj := init } as

/-- No connection attempt is closed: `close` is not called in `ES_CONNECTING`, nor pending when the
output registration is reported. -/
def Unhurried (s : CRupConnector) : Act → Prop
  | (.eeClose, _) => s.state ≠ .esConnecting
  | (.eeAddedIntoOt, _) => s.state = .esAddingIntoOt → s.i32PendingEvt ≠ .eeClose
  | _ => True

instance (s : CRupConnector) : ∀ a, Decidable (Unhurried s a)
  | (.eeClose, _) => inferInstanceAs (Decidable (_ ≠ _))
  | (.eeAddedIntoOt, _) => inferInstanceAs (Decidable (_ → _))
  | (.eeOpen _, _) => .isTrue trivial
  | (.eeConnect _, _) => .isTrue trivial
  | (.eeDeledFromOt _, _) => .isTrue trivial
  | (.eeInternalErr, _) => .isTrue trivial
  | (.eeAddedIntoTt, _) => .isTrue trivial
  | (.eeConnected, _) => .isTrue trivial
  | (.eeDeledFromTt, _) => .isTrue trivial

/-- The states without a connection. -/
def Idle (s : CRupConnector) : Prop :=
  s.state = .esClosed ∨ s.state = .esAddingIntoTt ∨ s.state = .esCheckingTimer ∨
    s.state = .esDelingFromTt

/-- A connection attempt has not been closed, and there is no socket without a connection. -/
structure Inv (s : CRupConnector) : Prop where
  normal : s.state ≠ .esDelingFromOtClose
  sock : Idle s → s.pTcpSock = none

variable {s s' : CRupConnector} {e : Evt} {evs : List Ev} {r : ℤ} {u : UserCode} {f : Fault}

theorem step_ok {a : Act} (h : step a s = ⟨evs, .ok s'⟩) :
    ∃ u evs1 r, Trans (UserCode.run u) s a.1 evs1 r s' := by
  obtain ⟨e, u⟩ := a
  cases e with
  | eeOpen sp =>
    obtain ⟨r, evs1, ht, -⟩ := openEp_ok h
    exact ⟨.done, evs1, r, ht⟩
  | eeClose =>
    obtain ⟨r, evs1, ht, -⟩ := close_ok h
    exact ⟨.done, evs1, r, ht⟩
  | eeConnect | eeAddedIntoOt | eeDeledFromOt | eeInternalErr | eeAddedIntoTt | eeConnected
  | eeDeledFromTt =>
    obtain ⟨r, h1⟩ := posting_ok h
    exact ⟨u, evs, r, post_trans h1⟩

theorem step_error {a : Act} (h : step a s = ⟨evs, .error f⟩) :
    ∃ u, Fails (UserCode.run u) s a.1 evs f := by
  obtain ⟨e, u⟩ := a
  cases e with
  | eeOpen | eeClose => exact ⟨.done, post_fails (returning_error h)⟩
  | eeConnect | eeAddedIntoOt | eeDeledFromOt | eeInternalErr | eeAddedIntoTt | eeConnected
  | eeDeledFromTt =>
    exact ⟨u, post_fails (posting_error h)⟩

/-- **The socket.** -/
theorem inv_trans (hI : Inv s) (ht : Trans u.run s e evs r s') (hc : Unhurried s (e, u)) :
    Inv s' := by
  obtain ⟨hn, hs⟩ := hI
  cases ht with
  | ignored => exact ⟨hn, hs⟩
  | opens h => exact ⟨nofun, fun _ => hs (Or.inl h)⟩
  | closeAddingTt | closeAddingOt | errAddingOt | closeDeling => exact ⟨hn, hs⟩
  | addedTtClose h => exact ⟨nofun, fun _ => hs (Or.inr (Or.inl h))⟩
  | addedTt h _ hcb =>
    rw [u.run_adding h] at hcb
    cases hcb
    exact ⟨nofun, fun _ => hs (Or.inr (Or.inl h))⟩
  | closeChecking _ h => exact ⟨nofun, fun _ => h⟩
  | connect | addedOt | errConnecting | connected =>
    exact ⟨nofun, fun h => absurd h (by simp [Idle])⟩
  | addedOtPending h _ _ =>
    rw [if_neg (hc h)]
    exact ⟨nofun, fun h => absurd h (by simp [Idle])⟩
  | closeConnecting h => exact absurd h hc
  | deledOtClose h => exact absurd h hn
  | errDeling h => exact ⟨hn, fun h' => absurd h' (by simp [Idle, h])⟩
  | deledOtPending | deledOt => exact ⟨nofun, fun _ => rfl⟩
  | deledTt h hcb =>
    rw [u.run_deling h] at hcb
    cases hcb
    exact ⟨nofun, fun _ => hs (Or.inr (Or.inr (Or.inr h)))⟩

/-- **The assert on the socket.** -/
theorem inv_fails (hI : Inv s) (hf : Fails u.run s e evs f) : f ≠ .sockNotNull := by
  cases hf with
  | sockNotNull h hs => exact absurd (hI.sock (Or.inr (Or.inr (Or.inl h)))) hs
  | addedTt h hcb => rw [u.run_adding h] at hcb; cases hcb
  | deledTt h hcb => rw [u.run_deling h] at hcb; cases hcb
  | interval | pendingEvt | sockNull | notOpened | opened => nofun

theorem inv_step (a : Act) :
    Eff.Triple (fun _ s => Inv s ∧ Unhurried s a) (step a) (fun _ s => Inv s) fun _ f =>
      f ≠ .sockNotNull := by
  refine .of (fun log s evs s' ⟨hI, hc⟩ h => ?_) fun log s evs f ⟨hI, hc⟩ h => ?_
  · obtain ⟨u, evs1, r, ht⟩ := step_ok h
    refine inv_trans hI ht ?_
    obtain ⟨e, u'⟩ := a
    cases e <;> exact hc
  · obtain ⟨u, hf⟩ := step_error h
    exact inv_fails hI hf

theorem open_resets (h : s.state = .esClosed) (sp : SParas) (p : PendingEvt) :
    openEp sp { s with i32PendingEvt := p } = openEp sp s := by
  obtain ⟨st, q, sock, ip, port, iv⟩ := s
  cases h; rfl

/-- **A closed connector can be opened again.** In every run in which no connection attempt is
closed: `m_pTcpSock` is NULL in `ES_CLOSED`, `ES_ADDING_INTO_TT` and `ES_CHECKING_TIMER`, the
asserts that it is NULL never fail, and what is pending in `ES_CLOSED` makes no difference to the
next `open`. -/
theorem closed_clean (as : List Act)
    (h : Proc.Meets step Unhurried ({ obj := init } : Proc CRupConnector Ev Fault) as) :
    (run as).fault ≠ some .sockNotNull ∧ ((run as).fault = none →
      ((run as).obj.state = .esClosed ∨ (run as).obj.state = .esAddingIntoTt ∨
        (run as).obj.state = .esCheckingTimer → (run as).obj.pTcpSock = none) ∧
      ((run as).obj.state = .esClosed → ∀ sp p,
        openEp sp { (run as).obj with i32PendingEvt := p } = openEp sp (run as).obj)) := by
  have h0 : Proc.Holds (fun _ => Inv) (fun _ f => f ≠ .sockNotNull)
      ({ obj := init } : Proc CRupConnector Ev Fault) := ⟨nofun, fun _ => rfl⟩
  have h1 : Proc.Holds (fun _ => Inv) (fun _ f => f ≠ .sockNotNull) (run as) :=
    Proc.run_inv inv_step h0 h
  refine ⟨fun hf => h1.dead hf rfl, fun hf => ⟨fun hst => ?_, fun hst sp p => open_resets hst sp p⟩⟩
  have hI : Inv (run as).obj := h1.alive hf
  refine hI.sock ?_
  obtain hst | hst | hst := hst
  · exact Or.inl hst
  · exact Or.inr (Or.inl hst)
  · exact Or.inr (Or.inr (Or.inl hst))

/-- A connection is made and handed over, then the connector is closed. -/
def session : List Act :=
  [(.eeOpen ⟨"10.0.0.1", 8888, 1000000⟩, .done), (.eeAddedIntoTt, .done),
    (.eeConnect ⟨3, true⟩, .done), (.eeAddedIntoOt, .done), (.eeConnected, .done),
    (.eeDeledFromOt [false, true], .done), (.eeClose, .done), (.eeDeledFromTt, .callClose .done)]

theorem closed_clean_session :
    (run session).obj.state = .esClosed ∧ (run session).obj.pTcpSock = none := by
  have hst : (run session).obj.state = .esClosed := by decide
  exact ⟨hst, ((closed_clean session (by decide)).2 (by decide)).1 (Or.inl hst)⟩

/-- A connection attempt that is closed. -/
def attempt : List Act :=
  [(.eeOpen ⟨"10.0.0.1", 8888, 1000000⟩, .done), (.eeAddedIntoTt, .done),
    (.eeConnect ⟨3, true⟩, .done), (.eeAddedIntoOt, .done), (.eeClose, .done),
    (.eeDeledFromOt [], .done), (.eeDeledFromTt, .done)]

/-- The socket is left behind, and the assert notices it in the next session. -/
theorem left_behind :
    ((run attempt).fault = none ∧ (run attempt).obj.state = .esClosed ∧
      (run attempt).obj.pTcpSock = some ⟨3, false⟩) ∧
    (run (attempt ++ [(.eeOpen ⟨"10.0.0.1", 8888, 1000000⟩, .done), (.eeAddedIntoTt, .done),
      (.eeConnect ⟨4, true⟩, .done)])).fault = some .sockNotNull := by
  decide

end SmartNet.Endpoint.ConnectorSessions

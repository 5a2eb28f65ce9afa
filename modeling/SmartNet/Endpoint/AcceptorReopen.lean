import SmartNet.Endpoint.AcceptorEvents

/-! # Opening an acceptor again

No handler of an acceptor sets `m_pTcpSockListener` to NULL, and `open` asserts that it is: the
first `open`, whether it succeeds or not, is the last one.

* `listener_kept`, `listener_set`: what a step does to the listening socket;
* `never_reopened`: the runs. -/

namespace SmartNet.Endpoint.AcceptorReopen

open SmartNet.Lib SmartNet.Framework.Notifier SmartNet.Utils.StateMachine
open SmartNet.Endpoint.RupAcceptor SmartNet.Endpoint.Types
open SmartNet.Endpoint.AcceptorEvents

variable {s s' : CRupAcceptor} {u : UserCode} {e : Evt} {evs : List Ev} {r : ℤ} {o : Opening}
  {p : Post} {i : Input}

/-- There is a listening socket, open or not. -/
def Listener (s : CRupAcceptor) : Prop := s.pTcpSockListener ≠ none

/-- There is one in every state but `ES_CLOSED`. -/
def Inv (s : CRupAcceptor) : Prop := s.state ≠ .esClosed → Listener s

/-- **The listening socket stays.** -/
theorem listener_kept (h : Listener s) (ht : Trans u.run s e evs r s') : Listener s' := by
  cases ht with
  | ignored | closeAdding | errAdding | added => exact h
  | opens | openFails | addedPending | tearsDown => exact Option.some_ne_none _
  | deled hst hcb =>
    rw [u.run_deling hst] at hcb
    cases hcb
    exact h

/-- **`open` makes a listening socket**, or finds the acceptor in use. -/
theorem listener_set (hI : Inv s) (ht : Trans u.run s (.eeOpen o) evs r s') : Listener s' := by
  cases ht with
  | ignored h => exact hI fun hst => by rw [hst] at h; cases h
  | opens | openFails => exact Option.some_ne_none _
  | tearsDown _ he => rcases he with he | he <;> cases he

theorem inv_trans (hI : Inv s) (ht : Trans u.run s e evs r s') : Inv s' := by
  cases ht with
  | ignored => exact hI
  | closeAdding h | errAdding h => exact fun _ => hI (by rw [h]; nofun)
  | opens | openFails | addedPending | tearsDown => exact fun _ => Option.some_ne_none _
  | added _ _ hs _ => exact fun _ => by unfold Listener; rw [hs]; nofun
  | deled hst hcb => exact fun h => absurd rfl h

theorem callback_trans (h : rupAcceptor.callback p i s = ⟨evs, .ok s'⟩) :
    s' = s ∨ ∃ u e evs r, Trans (UserCode.run u) s e evs r s' := by
  cases p with
  | addFailed | added =>
    obtain ⟨r, h1⟩ := posting_ok h
    exact Or.inr ⟨.done, _, _, r, post_trans h1⟩
  | deled => exact Or.inr ⟨i.user, _, _, 0, post_trans (postTaken_ok h)⟩
  | inputEvt => exact Or.inl (handleInputEvt_ok h).1
  | ioError => exact Or.inr ⟨.done, _, _, 0, post_trans (postTaken_ok h)⟩

theorem obj_step {Q : CRupAcceptor → Prop}
    (hQ : ∀ {u s e evs r s'}, Q s → Trans (UserCode.run u) s e evs r s' → Q s') (a : Step) :
    Eff.Triple (fun _ w => Q w.obj ∧ True) (rupAcceptor.step a) (fun _ w => Q w.obj)
      fun _ _ => True := by
  refine rupAcceptor.step_triple (fun log w evs w' ⟨hI, _⟩ hm => ?_) fun _ _ _ _ _ _ => trivial
  cases hm with
  | idle | takeDel | takeAdd | collect => exact hI
  | user c hcall =>
    cases c with
    | openEp o =>
      obtain ⟨r, evs1, ht, -⟩ := openEp_ok hcall
      exact hQ (u := .done) hI ht
    | close =>
      obtain ⟨r, evs1, ht, -⟩ := close_ok hcall
      exact hQ (u := .done) hI ht
  | callback k ht hcall =>
    obtain rfl | ⟨u, e, evs1, r, ht⟩ := callback_trans hcall
    · exact hI
    · exact hQ hI ht

theorem obj_run {Q : CRupAcceptor → Prop}
    (hQ : ∀ {u s e evs r s'}, Q s → Trans (UserCode.run u) s e evs r s' → Q s')
    {q : Proc Acc Ev (Crash Fault)} (h : Q q.obj.obj) {as : List Step}
    (hf : (Proc.run rupAcceptor.step q as).fault = none) :
    Q (Proc.run rupAcceptor.step q as).obj.obj := by
  have h0 : Proc.Holds (fun _ w => Q w.obj) (fun _ _ => True) q := by
    unfold Proc.Holds
    rw [Proc.run_fault_none hf]
    exact h
  exact (Proc.run_inv (obj_step hQ) h0 (Proc.meets_true as)).alive hf

theorem open_aborts (hst : s.state = .esClosed) (hl : Listener s) (o : Opening) :
    openEp o s = ⟨[], .error .listenerNotNull⟩ := by
  obtain ⟨st, p, sock⟩ := s
  rcases sock with _ | k
  · exact absurd rfl hl
  · cases hst; rfl

/-- **An acceptor cannot be reopened.** In every run in which `open` has been called at least once,
with whatever outcome: whenever the acceptor is in `ES_CLOSED` afterwards, `m_pTcpSockListener` is
not NULL, and the next `open` fails its assert. -/
theorem never_reopened (p : PendingEvt) (as1 : List Step) (o : Opening) (as2 : List Step)
    (hf : (run p (as1 ++ .user (.openEp o) :: as2)).fault = none)
    (hst : (run p (as1 ++ .user (.openEp o) :: as2)).obj.obj.state = .esClosed) :
    (run p (as1 ++ .user (.openEp o) :: as2)).obj.obj.pTcpSockListener ≠ none ∧
      ∀ o', openEp o' (run p (as1 ++ .user (.openEp o) :: as2)).obj.obj =
        ⟨[], .error .listenerNotNull⟩ := by
  suffices hl : Listener (run p (as1 ++ .user (.openEp o) :: as2)).obj.obj
    from ⟨hl, open_aborts hst hl⟩
  clear hst
  unfold run at hf ⊢
  rw [Proc.run_append] at hf ⊢
  have hf1 := Proc.run_fault_none hf
  have hI : Inv (Proc.run rupAcceptor.step (start p) as1).obj.obj :=
    obj_run inv_trans (fun h => absurd rfl h) hf1
  set q := Proc.run rupAcceptor.step (start p) as1
  have hf2 : (q.call (rupAcceptor.step (.user (.openEp o)))).fault = none := Proc.run_fault_none hf
  have h1 : Listener (q.call (rupAcceptor.step (.user (.openEp o)))).obj.obj := by
    rcases hr : (rupAcceptor.step (.user (.openEp o)) q.obj).res with x | w
    · rw [Proc.call_error hf1 hr] at hf2; cases hf2
    · rw [Proc.call_ok hf1 hr]
      obtain ⟨s', hs, rfl⟩ := rupAcceptor.after_ok hr
      obtain ⟨r, evs1, ht, -⟩ := openEp_ok hs
      exact listener_set (u := .done) hI ht
  exact obj_run listener_kept h1 hf

/-- Opened, closed, and deleted from the input task. -/
def session : List Step :=
  [.takeAdd () true, .callback () {}, .user .close, .takeDel (), .callback () {}]

/-- An opening that succeeds. -/
def opening : Opening := ⟨⟨"0.0.0.0", 8888, 0⟩, 3, true, true, true⟩

theorem never_reopened_session :
    (run .eeNone (.user (.openEp opening) :: session)).obj.obj.pTcpSockListener ≠ none :=
  (never_reopened .eeNone [] opening session (by decide) (by decide)).1

/-- The acceptor is closed again, and opening it again ends the process; so does a second `open`
after one whose `bind` fails. -/
theorem opened_twice :
    ((run .eeNone (.user (.openEp opening) :: session)).fault = none ∧
      (run .eeNone (.user (.openEp opening) :: session)).obj.obj.state = .esClosed) ∧
    (run .eeNone (.user (.openEp opening) :: session ++ [.user (.openEp opening)])).fault =
      some (.inObj .listenerNotNull) ∧
    (run .eeNone [.user (.openEp { opening with binds := false }), .user (.openEp opening)]).fault =
      some (.inObj .listenerNotNull) := by
  decide

end SmartNet.Endpoint.AcceptorReopen

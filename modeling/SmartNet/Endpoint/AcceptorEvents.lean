import SmartNet.Endpoint.RupAcceptor
import SmartNet.Framework.Notifier

/-! # An acceptor and its notifier

An acceptor with its input notifier, whose thread collects events and makes the callbacks later,
when the user may have closed the acceptor. An io error that is reported then is not taken by the
state machine, and a connection cannot be accepted any more; both are asserted.

* `Good`: what the notifier holds in each state of the acceptor;
* `inv_user`, `inv_callback`, `inv_step`: the steps;
* `late_events`: the runs. -/

namespace SmartNet.Endpoint.AcceptorEvents

open SmartNet.Lib SmartNet.Framework.Notifier SmartNet.Utils.StateMachine
open SmartNet.Endpoint.RupAcceptor SmartNet.Endpoint.Types

/-- The callbacks: the two parts of `handle_added_into_io_task`, `handle_deled_from_io_task`,
`handle_input_evt`, `handle_io_error`. -/
inductive Post
  | addFailed
  | added
  | deled
  | inputEvt
  | ioError
  deriving DecidableEq, Repr

/-- The calls of other threads. -/
inductive Call
  | openEp (o : Opening)
  | close
  deriving DecidableEq

/-- What the environment contributes to a callback: the user code of `on_closed`, what `::accept`
returns, and the answers of the waiting endpoints. -/
structure Input where
  user : UserCode := .done
  newSock : Option ℕ := none
  dqIdleEndpoints : List Bool := []

def request : Ev → Option (Unit × Req)
  | .addEndpoint => some ((), .add)
  | .delEndpoint => some ((), .del)
  | _ => none

/-- The acceptor as an object of its notifier. -/
def rupAcceptor : Class Unit CRupAcceptor Post Call Input Ev Fault where
  user
    | .openEp o, s => openEp o s
    | .close, s => close s
  callback
    | .addFailed, _, s => addFailed s
    | .added, _, s => added s
    | .deled, i, s => handleDeledFromIoTask i.user.run s
    | .inputEvt, i, s => handleInputEvt i.newSock i.dqIdleEndpoints s
    | .ioError, _, s => handleIoError s
  handle _ s := if s.pTcpSockListener = none then some .listenerNull else none
  added _ ok := some (if ok then [.added] else [.addFailed, .added])
  deled _ := [.deled]
  isEvt _ p := p = .inputEvt ∨ p = .ioError
  req := request

abbrev Acc := World Unit CRupAcceptor Post

abbrev Step := Act Unit Post Call Input

/-- A constructed acceptor that its notifier does not know. -/
def start (p : PendingEvt) : Proc Acc Ev (Crash Fault) := { obj := ⟨init p, fun _ => .clean⟩ }

/-- The process after the steps. -/
def run (p : PendingEvt) (as : List Step) : Proc Acc Ev (Crash Fault) :=
  Proc.run rupAcceptor.step (start p) as

/-- Whether the listening socket is open. -/
def listening (s : CRupAcceptor) : Bool :=
  match s.pTcpSockListener with
  | none => false
  | some k => k.isOpened

/-- An io error is reported in `ES_OPENED`, and `::accept` succeeds, on an open listening socket. -/
def OnTime (s : CRupAcceptor) (i : Input) : Post → Prop
  | .ioError => s.state = .esOpened
  | .inputEvt => listening s = true ∧ i.newSock.isSome = true
  | _ => True

instance (s : CRupAcceptor) (i : Input) : DecidablePred (OnTime s i)
  | .ioError => inferInstanceAs (Decidable (_ = _))
  | .inputEvt => inferInstanceAs (Decidable (_ ∧ _))
  | .addFailed => .isTrue trivial
  | .added => .isTrue trivial
  | .deled => .isTrue trivial

/-- Every callback is made on time. -/
def Punctual (w : Acc) : Step → Prop
  | .callback _ i => ∀ p ∈ (w.ntf ()).todo.head?, OnTime w.obj i p
  | _ => True

instance (w : Acc) : ∀ a, Decidable (Punctual w a)
  | .callback _ i => inferInstanceAs (Decidable (∀ p ∈ (w.ntf ()).todo.head?, OnTime w.obj i p))
  | .user _ => .isTrue trivial
  | .takeDel _ => .isTrue trivial
  | .takeAdd _ _ => .isTrue trivial
  | .collect _ _ => .isTrue trivial

/-! ## What the notifier holds -/

/-- What the notifier holds in each state, and whether the listening socket is open. An acceptor
whose registration failed asks to be deleted although it is in no set. -/
def Good (s : CRupAcceptor) (n : Ntf Post) : Prop :=
  match s.state with
  | .esClosed => n = .clean
  | .esAddingIntoIt => listening s = true ∧ (n = ⟨false, 1, 0, []⟩ ∨ n = ⟨true, 0, 0, [.added]⟩ ∨
      n = ⟨false, 0, 0, [.addFailed, .added]⟩ ∨ n = ⟨false, 0, 0, [.added]⟩ ∧
        s.i32PendingEvt ≠ .eeNone)
  | .esOpened => listening s = true ∧ rupAcceptor.Idle () n
  | .esDelingFromIt => (s.pTcpSockListener ≠ none ∧ listening s = false) ∧
      (rupAcceptor.Leaving () n ∨ n = ⟨false, 0, 1, []⟩ ∨ n = ⟨false, 0, 0, [.deled]⟩)

def Inv (w : Acc) : Prop := Good w.obj (w.ntf ())

variable {s s' : CRupAcceptor} {ntf : Unit → Ntf Post} {u : UserCode} {e : Evt} {evs : List Ev}
  {r : ℤ} {p : Post} {ps : List Post}
  {i : Input} {f : Fault}

theorem listening_some {k : CRupSock} (h : s.pTcpSockListener = some k) :
    listening s = k.isOpened := by
  unfold listening
  rw [h]

theorem listening_iff : listening s = true ↔ ∃ k, s.pTcpSockListener = some k ∧
    k.isOpened = true := by
  unfold listening
  rcases s.pTcpSockListener with _ | k <;> simp

theorem filterMap_request (h : Ev.addEndpoint ∉ evs ∧ Ev.delEndpoint ∉ evs) :
    evs.filterMap request = [] := by
  rw [List.filterMap_eq_nil_iff]
  intro e he
  cases e <;> first | rfl | exact absurd he h.1 | exact absurd he h.2

theorem filterMap_rets : ∀ u : UserCode, (Ev.onClosed :: u.rets).filterMap request = []
  | .done => rfl
  | .callOpen _ next => filterMap_rets next
  | .callClose next => filterMap_rets next

/-- **Calls of other threads.** -/
theorem inv_user (hI : Inv ⟨s, ntf⟩) (ht : Trans u.run s e evs r s')
    (he : (∃ o, e = .eeOpen o) ∨ e = .eeClose) :
    Inv ⟨s', rupAcceptor.submit ntf evs⟩ := by
  have h : Good s (ntf ()) := hI
  unfold Good at h
  cases ht with
  | ignored => rw [rupAcceptor.submit_nil rfl]; exact hI
  | opens hst =>
    rw [hst] at h
    rw [rupAcceptor.submit_one rfl]
    refine ⟨rfl, Or.inl ?_⟩
    show (Function.update ntf () ((ntf ()).push .add)) () = _
    rw [Function.update_self, show ntf () = .clean from h]; rfl
  | openFails hst _ o hev =>
    rw [hst] at h
    rw [rupAcceptor.submit_nil (filterMap_request hev)]
    exact h
  | closeAdding hst =>
    rw [hst] at h
    rw [rupAcceptor.submit_nil rfl]
    unfold Inv Good
    simp only [hst]
    obtain ⟨hl, hn | hn | hn | ⟨hn, -⟩⟩ := h
    · exact ⟨hl, Or.inl hn⟩
    · exact ⟨hl, Or.inr (Or.inl hn)⟩
    · exact ⟨hl, Or.inr (Or.inr (Or.inl hn))⟩
    · exact ⟨hl, Or.inr (Or.inr (Or.inr ⟨hn, nofun⟩))⟩
  | tearsDown hst _ hs hk =>
    rw [hst] at h
    rw [rupAcceptor.submit_one rfl]
    refine ⟨⟨nofun, rfl⟩, Or.inl ?_⟩
    show rupAcceptor.Leaving () (Function.update ntf () ((ntf ()).push .del) ())
    rw [Function.update_self]
    exact h.2.push
  | errAdding | addedPending | added | deled => rcases he with ⟨o, he⟩ | he <;> cases he

theorem handleInputEvt_ok {newSock : Option ℕ} {eps : List Bool}
    (h : handleInputEvt newSock eps s = ⟨evs, .ok s'⟩) :
    s' = s ∧ evs.filterMap request = [] := by
  have hoff : ∀ (n : ℕ) (eps : List Bool), (handOff n eps).filterMap request = [] := by
    intro n eps
    induction eps with
    | nil => rfl
    | cons b rest ih =>
      cases b
      · exact ih
      · rfl
  obtain ⟨st, p, sock⟩ := s
  rcases sock with _ | ⟨n, _ | _⟩
  · cases h
  · cases h
  · rcases newSock with _ | m <;> cases h
    exact ⟨rfl, hoff m eps⟩

theorem handleInputEvt_error {newSock : Option ℕ} {eps : List Bool} (hl : listening s = true)
    (hn : newSock.isSome = true) :
    handleInputEvt newSock eps s ≠ ⟨evs, .error f⟩ := by
  obtain ⟨k, hk, ho⟩ := listening_iff.mp hl
  obtain ⟨m, rfl⟩ := Option.isSome_iff_exists.mp hn
  obtain ⟨st, p, sock⟩ := s
  obtain ⟨n, _ | _⟩ := k
  · cases ho
  · cases hk
    nofun

/-- **Registered**: an io error tears the acceptor down. -/
theorem inv_ioError (hst : s.state = .esOpened) (hn : ntf () = ⟨true, 0, 0, []⟩)
    (ht : Trans u.run s .eeInternalErr evs r s') :
    Inv ⟨s', rupAcceptor.submit ntf evs⟩ := by
  cases ht with
  | ignored h => rw [hst] at h; cases h
  | errAdding h => cases hst.symm.trans h
  | tearsDown _ _ hs hk =>
    rw [rupAcceptor.submit_one rfl]
    refine ⟨⟨nofun, rfl⟩, Or.inl ?_⟩
    show rupAcceptor.Leaving () (Function.update ntf () ((ntf ()).push .del) ())
    rw [Function.update_self, hn]
    exact Class.leaving

theorem inv_addFailed (hst : s.state = .esAddingIntoIt) (hl : listening s = true)
    (hn : ntf () = ⟨false, 0, 0, [.added]⟩)
    (ht : Trans u.run s .eeInternalErr evs r s') : Inv ⟨s', rupAcceptor.submit ntf evs⟩ := by
  cases ht with
  | ignored h => rw [hst] at h; cases h
  | tearsDown h => cases hst.symm.trans h
  | errAdding =>
    rw [rupAcceptor.submit_nil rfl]
    unfold Inv Good
    simp only [hst]
    exact ⟨hl, Or.inr (Or.inr (Or.inr ⟨hn, nofun⟩))⟩

/-- **The registration is reported.** -/
theorem inv_added (hst : s.state = .esAddingIntoIt)
    (hn : ntf () = ⟨true, 0, 0, []⟩ ∨ ntf () = ⟨false, 0, 0, []⟩ ∧ s.i32PendingEvt ≠ .eeNone)
    (ht : Trans u.run s .eeAddedIntoIt evs r s') : Inv ⟨s', rupAcceptor.submit ntf evs⟩ := by
  cases ht with
  | ignored h => rw [hst] at h; cases h
  | tearsDown h => cases hst.symm.trans h
  | @addedPending _ _ k hs =>
    rw [rupAcceptor.submit_one (k := ()) (r := .del) (by cases k.isOpened <;> rfl)]
    refine ⟨⟨nofun, rfl⟩, ?_⟩
    show rupAcceptor.Leaving () (Function.update ntf () ((ntf ()).push .del) ()) ∨ _
    rw [Function.update_self]
    obtain hn | ⟨hn, -⟩ := hn <;> rw [hn]
    · exact Or.inl Class.leaving
    · exact Or.inr (Or.inl rfl)
  | added _ hp hs hk =>
    rw [rupAcceptor.submit_nil rfl]
    refine ⟨(listening_some hs).trans hk, ?_⟩
    obtain hn | ⟨-, hp'⟩ := hn
    · show rupAcceptor.Idle () (ntf ())
      rw [hn]
      exact Class.idle
    · exact absurd hp hp'

/-- **Callbacks.** -/
theorem inv_callback (hI : Inv ⟨s, ntf⟩) (htodo : (ntf ()).todo = p :: ps) (hc : OnTime s i p)
    (h : rupAcceptor.callback p i s = ⟨evs, .ok s'⟩) :
    Inv ⟨s', rupAcceptor.submit (Function.update ntf () { ntf () with todo := ps }) evs⟩ := by
  have hg : Good s (ntf ()) := hI
  unfold Good at hg
  rcases hst : s.state <;> rw [hst] at hg
  case esClosed => rw [show ntf () = .clean from hg] at htodo; cases htodo
  case esAddingIntoIt =>
    obtain ⟨hl, hn | hn | hn | ⟨hn, hp⟩⟩ := hg <;> rw [hn] at htodo ⊢ <;> cases htodo
    · obtain ⟨r, h1⟩ := posting_ok h
      exact inv_added (u := .done) hst (Or.inl (Function.update_self ..)) (post_trans h1)
    · obtain ⟨r, h1⟩ := posting_ok h
      exact inv_addFailed (u := .done) hst hl (Function.update_self ..) (post_trans h1)
    · obtain ⟨r, h1⟩ := posting_ok h
      exact inv_added (u := .done) hst (Or.inr ⟨Function.update_self .., hp⟩) (post_trans h1)
  case esOpened =>
    obtain ⟨hl, hn⟩ := hg
    obtain ⟨he, hpop⟩ := hn.pop htodo
    rw [hpop]
    obtain rfl | rfl : p = .inputEvt ∨ p = .ioError := by simpa [rupAcceptor] using he
    · obtain ⟨rfl, hreq⟩ := handleInputEvt_ok h
      rw [rupAcceptor.submit_nil hreq]
      unfold Inv Good
      simp only [hst, Function.update_self]
      exact ⟨hl, Class.idle⟩
    · exact inv_ioError (u := .done) hst (Function.update_self ..) (post_trans (postTaken_ok h))
  case esDelingFromIt =>
    obtain ⟨⟨hs, hl⟩, hn | hn | hn⟩ := hg
    · obtain ⟨he, -⟩ := hn.pop htodo
      obtain rfl | rfl : p = .inputEvt ∨ p = .ioError := by simpa [rupAcceptor] using he
      · exact absurd (hl.symm.trans hc.1) nofun
      · exact absurd (hst.symm.trans hc) nofun
    · rw [hn] at htodo; cases htodo
    · rw [hn] at htodo ⊢
      cases htodo
      have ht := post_trans (postTaken_ok h)
      cases ht with
      | tearsDown h1 => cases hst.symm.trans h1
      | deled _ hcb =>
        rw [i.user.run_deling hst] at hcb
        cases hcb
        rw [rupAcceptor.submit_nil (filterMap_rets i.user)]
        show (Function.update ntf () _) () = _
        rw [Function.update_self]; rfl

/-! ## The asserts -/

/-- **An event** runs into no assert but that of `open`. -/
theorem no_fails (hI : Inv ⟨s, ntf⟩) (hf : Fails u.run s e evs f) :
    f = .listenerNotNull ∧ ∃ o, e = .eeOpen o := by
  have hg : Good s (ntf ()) := hI
  have hl : s.state = .esAddingIntoIt ∨ s.state = .esOpened → listening s = true := by
    unfold Good at hg
    rintro (hst | hst) <;> rw [hst] at hg <;> exact hg.1
  cases hf with
  | listenerNotNull => exact ⟨rfl, _, rfl⟩
  | listenerNull hst hs =>
    obtain ⟨k, hk, -⟩ := listening_iff.mp (hl hst)
    rw [hs] at hk; cases hk
  | notOpened hst hs hk =>
    have := (listening_some hs).symm.trans (hl hst)
    rw [hk] at this; cases this
  | deled hst hcb => rw [u.run_deling hst] at hcb; cases hcb

theorem deled_state (hI : Inv ⟨s, ntf⟩) (htodo : (ntf ()).todo = .deled :: ps) :
    s.state = .esDelingFromIt := by
  have hg : Good s (ntf ()) := hI
  unfold Good at hg
  rcases hst : s.state <;> rw [hst] at hg
  case esClosed => rw [show ntf () = .clean from hg] at htodo; cases htodo
  case esAddingIntoIt =>
    obtain ⟨-, hn | hn | hn | ⟨hn, -⟩⟩ := hg <;> rw [hn] at htodo <;> cases htodo
  case esOpened =>
    have := (hg.2.pop htodo).1
    simp [rupAcceptor] at this

/-- **A callback on time** runs into no assert. -/
theorem callback_ok (hI : Inv ⟨s, ntf⟩) (htodo : (ntf ()).todo = p :: ps) (hc : OnTime s i p) :
    rupAcceptor.callback p i s ≠ ⟨evs, .error f⟩ := by
  intro h
  cases p with
  | addFailed | added =>
    obtain ⟨-, o, he⟩ := no_fails (u := .done) hI (post_fails (posting_error h))
    cases he
  | deled =>
    obtain h1 | ⟨r, s1, h1, hr⟩ := postTaken_error h
    · obtain ⟨-, o, he⟩ := no_fails hI (post_fails h1)
      cases he
    · have ht := post_trans h1
      cases ht with
      | ignored hrow => rw [deled_state hI htodo] at hrow; cases hrow
      | deled => exact hr rfl
      | tearsDown => exact hr rfl
  | inputEvt => exact handleInputEvt_error hc.1 hc.2 h
  | ioError =>
    obtain h1 | ⟨r, s1, h1, hr⟩ := postTaken_error h
    · obtain ⟨-, o, he⟩ := no_fails (u := .done) hI (post_fails h1)
      cases he
    · have ht := post_trans h1
      cases ht with
      | ignored hrow => rw [show s.state = .esOpened from hc] at hrow; cases hrow
      | errAdding => exact hr rfl
      | tearsDown => exact hr rfl

theorem dels_pos {n : Ntf Post} (h : Good s n) (hd : 0 < n.dels) :
    s.state = .esDelingFromIt ∧ s.pTcpSockListener ≠ none ∧ listening s = false ∧
      (rupAcceptor.Leaving () n ∨ n = ⟨false, 0, 1, []⟩) := by
  unfold Good at h
  rcases hst : s.state <;> rw [hst] at h
  case esClosed => rw [show n = .clean from h] at hd; cases hd
  case esAddingIntoIt => obtain ⟨-, rfl | rfl | rfl | ⟨rfl, -⟩⟩ := h <;> cases hd
  case esOpened => obtain ⟨-, ts, -, rfl⟩ := h; cases hd
  case esDelingFromIt =>
    obtain ⟨⟨hs, hl⟩, hn | hn | rfl⟩ := h
    · exact ⟨rfl, hs, hl, Or.inl hn⟩
    · exact ⟨rfl, hs, hl, Or.inr hn⟩
    · cases hd

theorem adds_pos {n : Ntf Post} (h : Good s n) (ha : 0 < n.adds) :
    s.state = .esAddingIntoIt ∧ listening s = true ∧ n = ⟨false, 1, 0, []⟩ := by
  unfold Good at h
  rcases hst : s.state <;> rw [hst] at h
  case esClosed => rw [show n = .clean from h] at ha; cases ha
  case esAddingIntoIt =>
    obtain ⟨hl, rfl | rfl | rfl | ⟨rfl, -⟩⟩ := h
    · exact ⟨rfl, hl, rfl⟩
    all_goals cases ha
  case esOpened => obtain ⟨-, ts, -, rfl⟩ := h; cases ha
  case esDelingFromIt => obtain ⟨-, ⟨ts, -, rfl⟩ | rfl | rfl⟩ := h <;> cases ha

/-- **Requests taken out of the cache** and events collected. -/
theorem inv_takeDel (h : Good s (ntf ())) (hd : 0 < (ntf ()).dels) (hin : (ntf ()).inSet = true) :
    Inv ⟨s, Function.update ntf () ⟨false, (ntf ()).adds, (ntf ()).dels - 1, [.deled]⟩⟩ := by
  obtain ⟨hst, hs, hl, hn | hn⟩ := dels_pos h hd
  · unfold Inv Good
    simp only [hst, Function.update_self]
    obtain ⟨ts, -, hn⟩ := hn
    rw [hn]
    exact ⟨⟨hs, hl⟩, Or.inr (Or.inr rfl)⟩
  · rw [hn] at hin; cases hin

theorem inv_takeAdd (h : Good s (ntf ())) (ha : 0 < (ntf ()).adds) (ok : Bool)
    (hps : rupAcceptor.added () ok = some ps) :
    Inv ⟨s, Function.update ntf ()
      ⟨ok || (ntf ()).inSet, (ntf ()).adds - 1, (ntf ()).dels, ps⟩⟩ := by
  obtain ⟨hst, hl, hn⟩ := adds_pos h ha
  cases hps
  unfold Inv Good
  simp only [hst, Function.update_self]
  rw [hn]
  cases ok
  · exact ⟨hl, Or.inr (Or.inr (Or.inl rfl))⟩
  · exact ⟨hl, Or.inr (Or.inl rfl)⟩

theorem inv_collect (h : Good s (ntf ())) (htodo : (ntf ()).todo = [])
    (hin : (ntf ()).inSet = true) (he : rupAcceptor.isEvt () p = true) :
    Inv ⟨s, Function.update ntf () { ntf () with todo := [p] }⟩ := by
  unfold Good at h
  unfold Inv Good
  rcases hst : s.state <;> rw [hst] at h <;> simp only [Function.update_self]
  case esClosed => rw [show ntf () = .clean from h] at hin; cases hin
  case esAddingIntoIt =>
    obtain ⟨-, hn | hn | hn | ⟨hn, -⟩⟩ := h <;> rw [hn] at htodo hin
    · cases hin
    all_goals cases htodo
  case esOpened => exact ⟨h.1, h.2.collect he⟩
  case esDelingFromIt =>
    obtain ⟨hs, hn | hn | hn⟩ := h
    · exact ⟨hs, Or.inl (hn.collect he)⟩
    all_goals rw [hn] at hin; cases hin

/-- **Every step keeps what the notifier holds**, and the process ends only with the assert of
`open`, or with the one on the del of an acceptor that is in no set. -/
theorem inv_step (a : Step) :
    Eff.Triple (fun _ w => Inv w ∧ Punctual w a) (rupAcceptor.step a) (fun _ w => Inv w)
    fun _ x => x = .inObj .listenerNotNull ∨ x = .erase := by
  refine rupAcceptor.step_triple (fun log w evs w' ⟨hI, hc⟩ hm => ?_)
    fun log w evs x ⟨hI, hc⟩ hf => ?_
  · cases hm with
    | idle => exact hI
    | user c hcall =>
      cases c with
      | openEp o =>
        obtain ⟨r, evs1, ht, rfl⟩ := openEp_ok hcall
        rw [rupAcceptor.submit_append rfl]
        exact inv_user (u := .done) hI ht (Or.inl ⟨o, rfl⟩)
      | close =>
        obtain ⟨r, evs1, ht, rfl⟩ := close_ok hcall
        rw [rupAcceptor.submit_append rfl]
        exact inv_user (u := .done) hI ht (Or.inr rfl)
    | takeDel _ _ hd hin => exact inv_takeDel hI hd hin
    | takeAdd _ _ ha hts => exact inv_takeAdd hI ha _ hts
    | collect _ ht hin he => exact inv_collect hI ht hin he
    | @callback k i p ps _ _ ht hcall =>
      exact inv_callback hI ht (hc p (by rw [show w.ntf () = w.ntf k from rfl, ht]; rfl)) hcall
  · cases hf with
    | user c hcall =>
      cases c with
      | openEp | close =>
        exact Or.inl
          (congrArg Crash.inObj (no_fails (u := .done) hI (post_fails (returning_error hcall))).1)
    | @callback k i p ps _ _ ht hcall =>
      exact absurd hcall
        (callback_ok hI ht (hc p (by rw [show w.ntf () = w.ntf k from rfl, ht]; rfl)))
    | handleDel k hd h =>
      simp only [rupAcceptor] at h
      split_ifs at h with hs
      exact absurd hs (dels_pos hI hd).2.1
    | handleAdd k ha h =>
      simp only [rupAcceptor] at h
      split_ifs at h with hs
      obtain ⟨k, hk, -⟩ := listening_iff.mp (adds_pos hI ha).2.1
      rw [hs] at hk; cases hk
    | erase => exact Or.inr rfl
    | insert k ha hin => rw [show w.ntf k = _ from (adds_pos hI ha).2.2] at hin; cases hin

/-! ## The runs -/

/-- The state, the listening socket and the registration agree. -/
def Consistent (w : Acc) : Prop :=
  match w.obj.state with
  | .esClosed => w.ntf () = .clean
  | .esAddingIntoIt => listening w.obj = true ∧ ((w.ntf ()).adds = 1 ∨ Post.added ∈ (w.ntf ()).todo)
  | .esOpened =>
    listening w.obj = true ∧ (w.ntf ()).inSet = true ∧ (w.ntf ()).adds = 0 ∧ (w.ntf ()).dels = 0
  | .esDelingFromIt =>
    listening w.obj = false ∧ ((w.ntf ()).dels = 1 ∨ Post.deled ∈ (w.ntf ()).todo)

theorem Inv.consistent {w : Acc} (h : Inv w) : Consistent w := by
  unfold Inv Good at h
  unfold Consistent
  rcases hst : w.obj.state <;> simp only [hst] at h ⊢
  case esClosed => exact h
  case esAddingIntoIt =>
    refine ⟨h.1, ?_⟩
    obtain ⟨-, hn | hn | hn | ⟨hn, -⟩⟩ := h <;> rw [hn] <;> simp
  case esOpened =>
    obtain ⟨hl, ts, -, hn⟩ := h
    rw [hn]
    exact ⟨hl, rfl, rfl, rfl⟩
  case esDelingFromIt =>
    refine ⟨h.1.2, ?_⟩
    obtain ⟨-, ⟨ts, -, hn⟩ | hn | hn⟩ := h <;> rw [hn] <;> simp

/-- **Events on time** do not crash an acceptor. In every run in which each io error is reported in
`ES_OPENED` and each `::accept` is made on an open listening socket and succeeds: no assert of a
callback or of `CRupSock::accept` fails (only that of `open` on the listening socket and that of the
notifier on an object it deletes can end the process), and the state machine is consistent. -/
theorem late_events (p : PendingEvt) (as : List Step)
    (h : Proc.Meets rupAcceptor.step Punctual (start p) as) :
    (∀ x, (run p as).fault = some x → x = .inObj .listenerNotNull ∨ x = .erase) ∧
      ((run p as).fault = none → Consistent (run p as).obj) := by
  have h0 : Proc.Holds (fun _ => Inv) (fun _ x => x = .inObj .listenerNotNull ∨ x = .erase)
    (start p) := rfl
  have h1 := Proc.run_inv inv_step h0 h
  refine ⟨fun x hx => h1.dead hx, fun hf => ?_⟩
  have hI : Inv (run p as).obj := h1.alive hf
  exact hI.consistent

/-- The acceptor is opened, accepts a connection, and is closed. -/
def session : List Step :=
  [.user (.openEp ⟨⟨"0.0.0.0", 8888, 0⟩, 3, true, true, true⟩), .takeAdd () true, .callback () {},
    .collect () .inputEvt, .callback () { newSock := some 4, dqIdleEndpoints := [false, true] },
    .user .close, .takeDel (), .callback () {}]

theorem late_events_session :
    (run .eeNone session).fault = none ∧ Consistent (run .eeNone session).obj := by
  have hf : (run .eeNone session).fault = none := by decide
  exact ⟨hf, (late_events .eeNone session (by decide)).2 hf⟩

/-- An io error, or a connection, is reported when the acceptor has been closed. -/
def tooLate (p : Post) : List Step :=
  [.user (.openEp ⟨⟨"0.0.0.0", 8888, 0⟩, 3, true, true, true⟩), .takeAdd () true, .callback () {},
    .collect () p, .user .close, .callback () {}]

theorem crashed_late : (run .eeNone (tooLate .ioError)).fault = some (.inObj .refused) ∧
    (run .eeNone (tooLate .inputEvt)).fault = some (.inObj .accept) := by
  decide

end SmartNet.Endpoint.AcceptorEvents

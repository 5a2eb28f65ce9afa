import SmartNet.Endpoint.RupEndpoint
import SmartNet.Framework.Notifier

/-! # The registrations of a `CRupEndpoint`

An endpoint with its output and its input notifier: `handle_added_into_io_task`,
`handle_deled_from_io_task` and `handle_io_error` post their events, other threads call `open`,
`close` and `handle_connected`. An input registration that is reported as successful while an event
is pending is not undone (`handling_adding_into_it_to_opened` deletes the endpoint from the output
task only); in the other runs every registration is.

* `Good`: what the notifiers hold in each state of the endpoint;
* `inv_user`, `inv_output`, `inv_input`: the events; `inv_takeDel`, `inv_takeAdd`, `inv_collect`:
  the steps of the notifiers;
* `deregistered`: the runs. -/

namespace SmartNet.Endpoint.RupRegistrations

open SmartNet.Lib SmartNet.Framework.Notifier SmartNet.Utils.StateMachine
open SmartNet.Endpoint.RupEndpoint SmartNet.Endpoint.Types

/-- The calls of other threads. -/
inductive Call
  | openEp
  | close (onClosed : UserCode)
  | handleConnected (pTcpSock : ℕ)
  deriving DecidableEq

/-- What `handle_added_into_io_task` posts at the end. -/
def addedEvt : IoType → Evt
  | .output => .eeAddedIntoOt
  | .input => .eeAddedIntoIt

/-- What `handle_deled_from_io_task` posts. -/
def deledEvt : IoType → Evt
  | .output => .eeDeledFromOt
  | .input => .eeDeledFromIt

def request : Ev → Option (IoType × Req)
  | .addEndpoint t => some (t, .add)
  | .delEndpoint t => some (t, .del)
  | _ => none

/-- The endpoint as an object of its notifiers. An event of `epoll_wait` can end in
`EE_INTERNAL_ERR` only, after an error or a hangup (`handle_io_error`), or when receiving or sending
fails. -/
def rupEndpoint : Class IoType CRupEndpoint Evt Call UserCode Ev Fault where
  user
    | .openEp, s => openEp s
    | .close onClosed, s => close onClosed.run s
    | .handleConnected n, s => posting (postEvt pure s (.eeConnected n))
  callback e u s := posting (postEvt u.run s e)
  handle _ s := if s.pSock = none then some .sockNull else none
  added t ok := some (if ok then [addedEvt t] else [.eeInternalErr, addedEvt t])
  deled t := [deledEvt t]
  isEvt _ e := e = .eeInternalErr
  req := request

abbrev Endp := World IoType CRupEndpoint Evt

abbrev Step := Act IoType Evt Call UserCode

/-- A constructed endpoint that no notifier knows. -/
def start (p : PendingEvt) (k : KeepAlive) : Proc Endp Ev (Crash Fault) :=
  { obj := ⟨RupEndpoint.init p k, fun _ => .clean⟩ }

/-- The process after the steps. -/
def run (p : PendingEvt) (k : KeepAlive) (as : List Step) : Proc Endp Ev (Crash Fault) :=
  Proc.run rupEndpoint.step (start p k) as

/-- A successful input registration is not reported while an event is pending. -/
def Settled (w : Endp) : Step → Prop
  | .callback .input _ => w.obj.state = .esAddingIntoIt → (w.ntf .input).inSet = true →
      (w.ntf .input).todo.head? = some .eeAddedIntoIt → w.obj.smPendingEvt = .eeNone
  | _ => True

instance (w : Endp) : ∀ a, Decidable (Settled w a)
  | .callback .input _ => inferInstanceAs (Decidable (_ → _ → _ → _))
  | .callback .output _ => .isTrue trivial
  | .user _ => .isTrue trivial
  | .takeDel _ => .isTrue trivial
  | .takeAdd _ _ => .isTrue trivial
  | .collect _ _ => .isTrue trivial

/-! ## What the notifiers hold -/

/-- What the output notifier `o` and the input notifier `i` hold in each state. -/
def Good (s : CRupEndpoint) (o i : Ntf Evt) : Prop :=
  match s.state with
  | .esClosed | .esAddedIntoHelper =>
    i = .clean ∧ (o = .clean ∨ o = ⟨false, 0, 0, [.eeAddedIntoOt]⟩ ∧ s.pSock ≠ none)
  | .esAddingIntoOt => s.pSock ≠ none ∧ i = .clean ∧
    (o = ⟨false, 1, 0, []⟩ ∨ o = ⟨true, 0, 0, [.eeAddedIntoOt]⟩ ∨
      o = ⟨false, 0, 0, [.eeInternalErr, .eeAddedIntoOt]⟩)
  | .esAddingIntoIt => s.pSock ≠ none ∧ rupEndpoint.Idle .output o ∧
    (i = ⟨false, 1, 0, []⟩ ∨ i = ⟨true, 0, 0, [.eeAddedIntoIt]⟩ ∨
      i = ⟨false, 0, 0, [.eeInternalErr, .eeAddedIntoIt]⟩ ∨
      i = ⟨false, 0, 0, [.eeAddedIntoIt]⟩ ∧ s.smPendingEvt ≠ .eeNone)
  | .esOpened => s.pSock ≠ none ∧ rupEndpoint.Idle .output o ∧ rupEndpoint.Idle .input i
  | .esDelingFromIt =>
    s.pSock ≠ none ∧ rupEndpoint.Idle .output o ∧
      (rupEndpoint.Leaving .input i ∨ i = ⟨false, 0, 0, [.eeDeledFromIt]⟩)
  | .esDelingFromOt =>
    s.pSock ≠ none ∧ i = .clean ∧
      (rupEndpoint.Leaving .output o ∨ o = ⟨false, 0, 0, [.eeDeledFromOt]⟩)

def Inv (w : Endp) : Prop := Good w.obj (w.ntf .output) (w.ntf .input)

variable {s s' : CRupEndpoint} {ntf : IoType → Ntf Evt} {o i : Ntf Evt} {u : UserCode} {e : Evt}
  {evs : List Ev} {r : ℤ} {ts : List Evt}

theorem submit_quiet {evs0 : List Ev} (h0 : evs0.filterMap request = [])
    (h : ∀ e ∈ evs, e.io = false) :
    rupEndpoint.submit ntf (evs0 ++ evs) = ntf := by
  refine rupEndpoint.submit_nil ?_
  show (evs0 ++ evs).filterMap request = []
  rw [List.filterMap_append, h0, List.nil_append, List.filterMap_eq_nil_iff]
  intro e he
  have := h e he
  cases e <;> first | rfl | cases this

theorem filterMap_rets : ∀ u : UserCode, (Ev.onOpened :: u.rets).filterMap request = []
  | .done => rfl
  | .callOpen next => filterMap_rets next
  | .callClose _ next => filterMap_rets next

theorem good_resting (hr : Resting s) (hi : i = .clean) (ho : o = .clean) : Good s o i := by
  unfold Good
  rcases hr with hr | hr <;> rw [hr] <;> exact ⟨hi, Or.inl ho⟩

/-- **Calls of other threads.** -/
theorem inv_user (h : Inv ⟨s, ntf⟩) (ht : Trans u.run s e evs r s')
    (he : e = .eeOpen ∨ e = .eeClose ∨ ∃ n, e = .eeConnected n) :
    Inv ⟨s', rupEndpoint.submit ntf evs⟩ := by
  unfold Inv Good at h
  cases ht with
  | ignored _ => rw [rupEndpoint.submit_nil rfl]; exact h
  | opens hst =>
    rw [hst] at h
    rw [rupEndpoint.submit_nil rfl]
    exact h
  | @closeWaiting hst hs evs1 s1 hcb =>
    rw [hst] at h
    obtain ⟨hr, hp, hev⟩ := u.run_resting (Or.inl rfl) hcb
    rw [show Ev.delFromHelper :: .onClosed :: evs1 = [.delFromHelper, .onClosed] ++ evs1 from rfl,
      submit_quiet rfl hev]
    obtain ⟨hi, ho | ⟨-, hn⟩⟩ := h
    · exact good_resting hr hi ho
    · exact absurd hs hn
  | connected hst hs n =>
    rw [hst] at h
    obtain ⟨hi, ho | ⟨-, hn⟩⟩ := h
    · rw [rupEndpoint.submit_one rfl]
      refine ⟨Option.some_ne_none n, hi, Or.inl ?_⟩
      show (ntf .output).push .add = _
      rw [show ntf .output = .clean from ho]; rfl
    · exact absurd hs hn
  | closeAddingOt hst =>
    rw [hst] at h
    rw [rupEndpoint.submit_nil rfl]
    unfold Inv Good
    simpa only [hst] using h
  | closeAddingIt hst =>
    rw [hst] at h
    rw [rupEndpoint.submit_nil rfl]
    unfold Inv Good
    simp only [hst]
    obtain ⟨hn, ho, hi | hi | hi | ⟨hi, -⟩⟩ := h
    · exact ⟨hn, ho, Or.inl hi⟩
    · exact ⟨hn, ho, Or.inr (Or.inl hi)⟩
    · exact ⟨hn, ho, Or.inr (Or.inr (Or.inl hi))⟩
    · exact ⟨hn, ho, Or.inr (Or.inr (Or.inr ⟨hi, nofun⟩))⟩
  | tearsDown hst _ hs =>
    rw [hst] at h
    obtain ⟨hn, ho, hi⟩ := h
    rw [rupEndpoint.submit_one rfl]
    exact ⟨hn, ho, Or.inl hi.push⟩
  | errAddingOt | addedOtClose | addedOt | errAddingIt | addedItPending | addedIt | deledIt
  | deledOt =>
    rcases he with he | he | ⟨n, he⟩ <;> cases he

theorem isEvt {t : IoType} (h : rupEndpoint.isEvt t e = true) : e = .eeInternalErr := by
  simpa [rupEndpoint] using h

/-- **An io error** of a registered endpoint. -/
theorem inv_err (h : Good s (ntf .output) (ntf .input)) (hst : s.state ≠ .esAddingIntoOt)
    (ht : Trans u.run s .eeInternalErr evs r s') : Inv ⟨s', rupEndpoint.submit ntf evs⟩ := by
  have h1 := ht.internalErr
  unfold Good at h
  rcases hst' : s.state <;> rw [hst'] at h h1
  case esAddingIntoOt => exact absurd hst' hst
  case esAddingIntoIt =>
    obtain ⟨rfl, rfl⟩ := h1
    rw [rupEndpoint.submit_nil rfl]
    obtain ⟨hn, ho, hi | hi | hi | ⟨hi, -⟩⟩ := h
    · exact ⟨hn, ho, Or.inl hi⟩
    · exact ⟨hn, ho, Or.inr (Or.inl hi)⟩
    · exact ⟨hn, ho, Or.inr (Or.inr (Or.inl hi))⟩
    · exact ⟨hn, ho, Or.inr (Or.inr (Or.inr ⟨hi, nofun⟩))⟩
  case esOpened =>
    obtain ⟨n, hs, rfl, rfl⟩ := h1
    obtain ⟨hn, ho, hi⟩ := h
    rw [rupEndpoint.submit_one rfl]
    exact ⟨hn, ho, Or.inl hi.push⟩
  all_goals
    obtain ⟨rfl, rfl⟩ := h1
    rw [rupEndpoint.submit_nil rfl]
    unfold Inv Good
    simpa only [hst'] using h

/-- **Callbacks of the output notifier.** -/
theorem inv_output (h : Good s (ntf .output) (ntf .input)) (htodo : (ntf .output).todo = e :: ts)
    (ht : Trans u.run s e evs r s') :
    Inv
      ⟨s', rupEndpoint.submit
        (Function.update ntf .output { ntf .output with todo := ts }) evs⟩ := by
  unfold Good at h
  rcases hst : s.state <;> rw [hst] at h
  case esAddingIntoOt =>
    obtain ⟨hn, hi, ho | ho | ho⟩ := h <;> rw [ho] at htodo ⊢ <;> cases htodo
    · have h1 := ht.addedIntoOt
      rw [hst] at h1
      obtain ⟨-, n, hs, rfl, rfl⟩ | ⟨-, rfl, rfl⟩ := h1
      · rw [rupEndpoint.submit_one rfl]
        exact ⟨hn, hi, Or.inl Class.leaving⟩
      · rw [rupEndpoint.submit_one rfl]
        refine ⟨hn, Class.idle, Or.inl ?_⟩
        show (ntf .input).push .add = _
        rw [hi]; rfl
    · have h1 := ht.internalErr
      rw [hst] at h1
      obtain ⟨rfl, rfl⟩ := h1
      rw [rupEndpoint.submit_nil rfl]
      exact ⟨hi, Or.inr ⟨rfl, hn⟩⟩
  case esAddingIntoIt | esOpened | esDelingFromIt =>
    obtain ⟨hn, ho, hi⟩ := h
    obtain ⟨he, hpop⟩ := ho.pop htodo
    cases isEvt he
    rw [hpop]
    refine inv_err ?_ (by rw [hst]; nofun) ht
    unfold Good
    rw [hst]
    exact ⟨hn, Class.idle, hi⟩
  case esDelingFromOt =>
    obtain ⟨hn, hi, ho | ho⟩ := h
    · obtain ⟨he, hpop⟩ := ho.pop htodo
      cases isEvt he
      rw [hpop]
      refine inv_err ?_ (by rw [hst]; nofun) ht
      unfold Good
      rw [hst]
      exact ⟨hn, hi, Or.inl Class.leaving⟩
    · rw [ho] at htodo ⊢
      cases htodo
      have h1 := ht.deledFromOt
      rw [hst] at h1
      obtain ⟨evs1, s1, hcb, rfl, rfl⟩ := h1
      obtain ⟨hr, hp, hev⟩ := u.run_resting (Or.inl rfl) hcb
      rw [show Ev.onClosed :: evs1 = [.onClosed] ++ evs1 from rfl, submit_quiet rfl hev]
      exact good_resting hr hi rfl
  all_goals
    obtain ⟨hi, ho | ⟨ho, hn⟩⟩ := h <;> rw [ho] at htodo ⊢ <;> cases htodo
    have h1 := ht.addedIntoOt
    rw [hst] at h1
    obtain ⟨rfl, rfl⟩ := h1
    rw [rupEndpoint.submit_nil rfl]
    unfold Inv Good
    simp only [hst]
    exact ⟨hi, Or.inl rfl⟩

/-- **Callbacks of the input notifier.** -/
theorem inv_input (h : Good s (ntf .output) (ntf .input)) (htodo : (ntf .input).todo = e :: ts)
    (ht : Trans u.run s e evs r s') (hc : Settled ⟨s, ntf⟩ (.callback .input u)) :
    Inv
      ⟨s', rupEndpoint.submit (Function.update ntf .input { ntf .input with todo := ts }) evs⟩ := by
  unfold Good at h
  rcases hst : s.state <;> rw [hst] at h
  case esAddingIntoIt =>
    obtain ⟨hn, ho, hi | hi | hi | ⟨hi, hp⟩⟩ := h
    · rw [hi] at htodo; cases htodo
    · have hp : s.smPendingEvt = .eeNone := by
        refine hc hst ?_ ?_
        · show (ntf .input).inSet = true
          rw [hi]
        · show (ntf .input).todo.head? = _
          rw [hi]; rfl
      rw [hi] at htodo ⊢
      cases htodo
      have h1 := ht.addedIntoIt
      rw [hst] at h1
      obtain ⟨hp', -⟩ | ⟨-, evs1, s1, hcb, rfl, rfl⟩ := h1
      · exact absurd hp hp'
      · rw [u.run_adding hst] at hcb
        cases hcb
        rw [rupEndpoint.submit_nil (filterMap_rets u)]
        exact ⟨hn, ho, Class.idle⟩
    · rw [hi] at htodo ⊢
      cases htodo
      have h1 := ht.internalErr
      rw [hst] at h1
      obtain ⟨rfl, rfl⟩ := h1
      rw [rupEndpoint.submit_nil rfl]
      exact ⟨hn, ho, Or.inr (Or.inr (Or.inr ⟨rfl, nofun⟩))⟩
    · rw [hi] at htodo ⊢
      cases htodo
      have h1 := ht.addedIntoIt
      rw [hst] at h1
      obtain ⟨-, n, hs, rfl, rfl⟩ | ⟨hp', -⟩ := h1
      · rw [rupEndpoint.submit_one rfl]
        exact ⟨hn, rfl, Or.inl ho.push⟩
      · exact absurd hp' hp
  case esOpened =>
    obtain ⟨hn, ho, hi⟩ := h
    obtain ⟨he, hpop⟩ := hi.pop htodo
    cases isEvt he
    rw [hpop]
    refine inv_err ?_ (by rw [hst]; nofun) ht
    unfold Good
    rw [hst]
    exact ⟨hn, ho, Class.idle⟩
  case esDelingFromIt =>
    obtain ⟨hn, ho, hi | hi⟩ := h
    · obtain ⟨he, hpop⟩ := hi.pop htodo
      cases isEvt he
      rw [hpop]
      refine inv_err ?_ (by rw [hst]; nofun) ht
      unfold Good
      rw [hst]
      exact ⟨hn, ho, Or.inl Class.leaving⟩
    · rw [hi] at htodo ⊢
      cases htodo
      have h1 := ht.deledFromIt
      rw [hst] at h1
      obtain ⟨rfl, rfl⟩ := h1
      rw [rupEndpoint.submit_one rfl]
      exact ⟨hn, rfl, Or.inl ho.push⟩
  case esDelingFromOt => rw [h.2.1] at htodo; cases htodo
  case esAddingIntoOt => rw [h.2.1] at htodo; cases htodo
  all_goals rw [h.1] at htodo; cases htodo

/-! ## The steps of the notifiers -/

theorem output_del (h : Good s o i) (hd : 0 < o.dels) :
    s.state = .esDelingFromOt ∧ s.pSock ≠ none ∧ i = .clean ∧ rupEndpoint.Leaving .output o := by
  unfold Good at h
  rcases hst : s.state <;> rw [hst] at h
  case esDelingFromOt =>
    obtain ⟨hn, hi, ho | rfl⟩ := h
    · exact ⟨rfl, hn, hi, ho⟩
    · cases hd
  case esAddingIntoOt => obtain ⟨-, -, rfl | rfl | rfl⟩ := h <;> cases hd
  case esAddingIntoIt | esOpened | esDelingFromIt => obtain ⟨-, ⟨ts, -, rfl⟩, -⟩ := h; cases hd
  all_goals obtain ⟨-, rfl | ⟨rfl, -⟩⟩ := h <;> cases hd

theorem input_del (h : Good s o i) (hd : 0 < i.dels) :
    s.state = .esDelingFromIt ∧ s.pSock ≠ none ∧ rupEndpoint.Idle .output o ∧
      rupEndpoint.Leaving .input i := by
  unfold Good at h
  rcases hst : s.state <;> rw [hst] at h
  case esDelingFromIt =>
    obtain ⟨hn, ho, hi | rfl⟩ := h
    · exact ⟨rfl, hn, ho, hi⟩
    · cases hd
  case esAddingIntoIt => obtain ⟨-, -, rfl | rfl | rfl | ⟨rfl, -⟩⟩ := h <;> cases hd
  case esOpened => obtain ⟨-, -, ts, -, rfl⟩ := h; cases hd
  case esAddingIntoOt | esDelingFromOt => obtain ⟨-, rfl, -⟩ := h; cases hd
  all_goals obtain ⟨rfl, -⟩ := h; cases hd

theorem output_add (h : Good s o i) (hd : 0 < o.adds) :
    s.state = .esAddingIntoOt ∧ s.pSock ≠ none ∧ i = .clean ∧ o = ⟨false, 1, 0, []⟩ := by
  unfold Good at h
  rcases hst : s.state <;> rw [hst] at h
  case esAddingIntoOt =>
    obtain ⟨hn, hi, rfl | rfl | rfl⟩ := h
    · exact ⟨rfl, hn, hi, rfl⟩
    all_goals cases hd
  case esDelingFromOt => obtain ⟨-, -, ⟨ts, -, rfl⟩ | rfl⟩ := h <;> cases hd
  case esAddingIntoIt | esOpened | esDelingFromIt => obtain ⟨-, ⟨ts, -, rfl⟩, -⟩ := h; cases hd
  all_goals obtain ⟨-, rfl | ⟨rfl, -⟩⟩ := h <;> cases hd

theorem input_add (h : Good s o i) (hd : 0 < i.adds) :
    s.state = .esAddingIntoIt ∧ s.pSock ≠ none ∧ rupEndpoint.Idle .output o ∧
      i = ⟨false, 1, 0, []⟩ := by
  unfold Good at h
  rcases hst : s.state <;> rw [hst] at h
  case esAddingIntoIt =>
    obtain ⟨hn, ho, rfl | rfl | rfl | ⟨rfl, -⟩⟩ := h
    · exact ⟨rfl, hn, ho, rfl⟩
    all_goals cases hd
  case esDelingFromIt => obtain ⟨-, -, ⟨ts, -, rfl⟩ | rfl⟩ := h <;> cases hd
  case esOpened => obtain ⟨-, -, ts, -, rfl⟩ := h; cases hd
  case esAddingIntoOt | esDelingFromOt => obtain ⟨-, rfl, -⟩ := h; cases hd
  all_goals obtain ⟨rfl, -⟩ := h; cases hd

/-- **Requests taken out of a cache** and events collected. -/
theorem inv_takeDel (h : Good s (ntf .output) (ntf .input)) (k : IoType) (hd : 0 < (ntf k).dels) :
    Inv ⟨s, Function.update ntf k ⟨false, (ntf k).adds, (ntf k).dels - 1, [deledEvt k]⟩⟩ := by
  cases k with
  | output =>
    obtain ⟨hst, hn, hi, ts, -, ho⟩ := output_del h hd
    rw [ho]
    unfold Inv Good
    simp only [hst]
    exact ⟨hn, hi, Or.inr rfl⟩
  | input =>
    obtain ⟨hst, hn, ho, ts, -, hi⟩ := input_del h hd
    rw [hi]
    unfold Inv Good
    simp only [hst]
    exact ⟨hn, ho, Or.inr rfl⟩

theorem inv_takeAdd (h : Good s (ntf .output) (ntf .input)) (k : IoType) (ok : Bool)
    (hd : 0 < (ntf k).adds) (hts : rupEndpoint.added k ok = some ts) :
    Inv ⟨s, Function.update ntf k ⟨ok || (ntf k).inSet, (ntf k).adds - 1, (ntf k).dels, ts⟩⟩ := by
  cases hts
  cases k with
  | output =>
    obtain ⟨hst, hn, hi, ho⟩ := output_add h hd
    rw [ho]
    unfold Inv Good
    simp only [hst]
    rcases ok with _ | _
    · exact ⟨hn, hi, Or.inr (Or.inr rfl)⟩
    · exact ⟨hn, hi, Or.inr (Or.inl rfl)⟩
  | input =>
    obtain ⟨hst, hn, ho, hi⟩ := input_add h hd
    rw [hi]
    unfold Inv Good
    simp only [hst]
    rcases ok with _ | _
    · exact ⟨hn, ho, Or.inr (Or.inr (Or.inl rfl))⟩
    · exact ⟨hn, ho, Or.inr (Or.inl rfl)⟩

theorem inv_collect (h : Good s (ntf .output) (ntf .input)) (k : IoType) (htodo : (ntf k).todo = [])
    (hin : (ntf k).inSet = true) (he : rupEndpoint.isEvt k e = true) :
    Inv ⟨s, Function.update ntf k { ntf k with todo := [e] }⟩ := by
  unfold Good at h
  unfold Inv Good
  cases k with
  | output =>
    rcases hst : s.state <;> simp only [hst] at h ⊢
    case esAddingIntoOt =>
      obtain ⟨-, -, ho | ho | ho⟩ := h <;> rw [ho] at htodo hin
      · cases hin
      · cases htodo
      · cases htodo
    case esAddingIntoIt | esOpened | esDelingFromIt => exact ⟨h.1, h.2.1.collect he, h.2.2⟩
    case esDelingFromOt =>
      obtain ⟨hn, hi, ho | ho⟩ := h
      · exact ⟨hn, hi, Or.inl (ho.collect he)⟩
      · rw [ho] at hin; cases hin
    all_goals obtain ⟨-, ho | ⟨ho, -⟩⟩ := h <;> rw [ho] at hin <;> cases hin
  | input =>
    rcases hst : s.state <;> simp only [hst] at h ⊢
    case esAddingIntoIt =>
      obtain ⟨-, -, hi | hi | hi | ⟨hi, -⟩⟩ := h <;> rw [hi] at htodo hin
      · cases hin
      all_goals cases htodo
    case esOpened => exact ⟨h.1, h.2.1, h.2.2.collect he⟩
    case esDelingFromIt =>
      obtain ⟨hn, ho, hi | hi⟩ := h
      · exact ⟨hn, ho, Or.inl (hi.collect he)⟩
      · rw [hi] at hin; cases hin
    case esAddingIntoOt | esDelingFromOt => rw [h.2.1] at hin; cases hin
    all_goals rw [h.1] at hin; cases hin

theorem inv_call (h : Inv ⟨s, ntf⟩) (ht : Trans u.run s e evs r s')
    (he : e = .eeOpen ∨ e = .eeClose ∨ ∃ n, e = .eeConnected n) {ev : Ev}
    (hev : request ev = none) :
    Inv ⟨s', rupEndpoint.submit ntf (evs ++ [ev])⟩ := by
  rw [rupEndpoint.submit_append hev]
  exact inv_user h ht he

/-- **Every step keeps what the notifiers hold.** -/
theorem inv_step (a : Step) :
    Eff.Triple (fun _ w => Inv w ∧ Settled w a) (rupEndpoint.step a) (fun _ w => Inv w)
    fun _ x => x ≠ .erase ∧ x ≠ .insert := by
  refine rupEndpoint.step_triple (fun log w evs w' ⟨hI, hc⟩ hm => ?_)
    fun log w evs x ⟨hI, hc⟩ hf => ?_
  · cases hm with
    | idle => exact hI
    | user c hcall =>
      cases c with
      | openEp =>
        obtain ⟨r, evs1, ht, rfl⟩ := openEp_ok hcall
        exact inv_call (u := .done) hI ht (Or.inl rfl) rfl
      | close onClosed =>
        obtain ⟨r, evs1, ht, rfl⟩ := close_ok hcall
        exact inv_call hI ht (Or.inr (Or.inl rfl)) rfl
      | handleConnected n =>
        obtain ⟨r, h1⟩ := posting_ok hcall
        exact inv_user (u := .done) hI (post_trans h1) (Or.inr (Or.inr ⟨n, rfl⟩))
    | takeDel k ht hd hin => exact inv_takeDel hI k hd
    | takeAdd k ht ha hts => exact inv_takeAdd hI k _ ha hts
    | collect k ht hin he => exact inv_collect hI k ht hin he
    | callback k ht hcall =>
      obtain ⟨r, h1⟩ := posting_ok hcall
      cases k with
      | output => exact inv_output hI ht (post_trans h1)
      | input => exact inv_input hI ht (post_trans h1) hc
  · cases hf with
    | erase k hd hin =>
      cases k with
      | output =>
        obtain ⟨-, -, -, ts, -, ho⟩ := output_del hI hd
        rw [ho] at hin; cases hin
      | input =>
        obtain ⟨-, -, -, ts, -, hi⟩ := input_del hI hd
        rw [hi] at hin; cases hin
    | insert k ha hin =>
      cases k with
      | output =>
        obtain ⟨-, -, -, ho⟩ := output_add hI ha
        rw [ho] at hin; cases hin
      | input =>
        obtain ⟨-, -, -, hi⟩ := input_add hI ha
        rw [hi] at hin; cases hin
    | user | callback | handleDel | handleAdd => exact ⟨nofun, nofun⟩

/-! ## The runs -/

/-- Deregistered: in no set, and nothing requested. -/
def Deregistered (w : Endp) : Prop :=
  ∀ t, (w.ntf t).inSet = false ∧ (w.ntf t).adds = 0 ∧ (w.ntf t).dels = 0

/-- The requests make sense: a del is queued, once, for an object in the set, an add for one that is
not. -/
def Sensible (w : Endp) : Prop :=
  ∀ t, (0 < (w.ntf t).dels → (w.ntf t).inSet = true ∧ (w.ntf t).dels = 1) ∧
    (0 < (w.ntf t).adds → (w.ntf t).inSet = false)

theorem Inv.unlisted {w : Endp} (h : Inv w) (hr : Resting w.obj) : Deregistered w := by
  unfold Inv Good at h
  intro t
  rcases hr with hr | hr <;> rw [hr] at h <;> obtain ⟨hi, ho | ⟨ho, -⟩⟩ := h <;> cases t <;>
    first | rw [ho] | rw [hi]
  all_goals exact ⟨rfl, rfl, rfl⟩

theorem Inv.sensible {w : Endp} (h : Inv w) : Sensible w := by
  intro t
  cases t with
  | output =>
    refine ⟨fun hd => ?_, fun ha => ?_⟩
    · obtain ⟨-, -, -, ts, -, ho⟩ := output_del h hd
      rw [ho]; exact ⟨rfl, rfl⟩
    · obtain ⟨-, -, -, ho⟩ := output_add h ha
      rw [ho]
  | input =>
    refine ⟨fun hd => ?_, fun ha => ?_⟩
    · obtain ⟨-, -, -, ts, -, hi⟩ := input_del h hd
      rw [hi]; exact ⟨rfl, rfl⟩
    · obtain ⟨-, -, -, hi⟩ := input_add h ha
      rw [hi]

/-- **An endpoint is deregistered from every notifier it was registered with.** In every run in
which no successful input registration is reported while an event is pending: no assert of a
notifier fails, and while the process lives the requests make sense and a resting endpoint is in
neither notifier. -/
theorem deregistered (p : PendingEvt) (k : KeepAlive) (as : List Step)
    (h : Proc.Meets rupEndpoint.step Settled (start p k) as) :
    (run p k as).fault ≠ some .erase ∧ (run p k as).fault ≠ some .insert ∧
      ((run p k as).fault = none → Sensible (run p k as).obj ∧
        (Resting (run p k as).obj.obj → Deregistered (run p k as).obj)) := by
  have h0 : Proc.Holds (fun _ => Inv) (fun _ x => x ≠ .erase ∧ x ≠ .insert) (start p k) :=
    ⟨rfl, Or.inl rfl⟩
  have h1 := Proc.run_inv inv_step h0 h
  refine ⟨fun hf => (h1.dead hf).1 rfl, fun hf => (h1.dead hf).2 rfl, fun hf => ?_⟩
  have hI : Inv (run p k as).obj := h1.alive hf
  exact ⟨hI.sensible, fun hr => hI.unlisted hr⟩

/-- The shortest session: handed over, both registrations succeed, opened, closed, deleted from both
tasks. -/
def session : List Step :=
  [.user .openEp, .user (.handleConnected 7), .takeAdd .output true, .callback .output .done,
    .takeAdd .input true, .callback .input .done, .user (.close .done), .takeDel .input,
    .callback .input .done, .takeDel .output, .callback .output .done]

theorem deregistered_session :
    Resting (run .eeNone {} session).obj.obj ∧ Deregistered (run .eeNone {} session).obj := by
  have h := deregistered .eeNone {} session (by decide)
  have hf : (run .eeNone {} session).fault = none := by decide
  exact ⟨Or.inl (by decide), (h.2.2 hf).2 (Or.inl (by decide))⟩

/-- The same, but `close` is called before the input registration is reported. -/
def closedEarly : List Step :=
  [.user .openEp, .user (.handleConnected 7), .takeAdd .output true, .callback .output .done,
    .user (.close .done), .takeAdd .input true, .callback .input .done, .takeDel .output,
    .callback .output .done]

/-- The endpoint is closed and still in the set of the input notifier; the next session runs into
its assert. -/
theorem left_registered :
    ((run .eeNone {} closedEarly).obj.obj.state = .esClosed ∧
      ((run .eeNone {} closedEarly).obj.ntf .input).inSet = true) ∧
    (run .eeNone {} (closedEarly ++ [.user .openEp, .user (.handleConnected 8),
      .takeAdd .output true, .callback .output .done, .takeAdd .input true])).fault =
        some .insert := by
  decide

end SmartNet.Endpoint.RupRegistrations

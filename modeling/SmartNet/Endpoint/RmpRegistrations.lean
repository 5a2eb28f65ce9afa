import SmartNet.Endpoint.RmpEndpoint
import SmartNet.Framework.Notifier

/-! # The socket and the registrations of a `CRmpEndpoint`

An endpoint with its output and its input notifier. Three things break the books: `open` from inside
the `on_closed` of a teardown (`m_pSock` is reset only afterwards), an input registration that fails
(the endpoint is deleted from the input task all the same), and the second event of a failed output
registration, which can arrive in the next session. In the other runs an endpoint in use owns its
socket and its registrations.

* `Good`: what the notifiers hold in each state of the endpoint;
* `inv_user`, `inv_output`, `inv_input`, `inv_takeDel`, `inv_takeAdd`, `inv_collect`: the steps;
* `owned`: the runs. -/

namespace SmartNet.Endpoint.RmpRegistrations

open SmartNet.Lib SmartNet.Framework.Notifier SmartNet.Utils.StateMachine
open SmartNet.Endpoint.RmpEndpoint SmartNet.Endpoint.Types

/-- The calls of other threads. -/
inductive Call
  | openEp (o : Opening)
  | close
  deriving DecidableEq

/-- What the callbacks of the notifiers post. -/
inductive Post
  | internalErr
  | addedIntoOt
  | addedIntoIt
  | deledFromIt
  | deledFromOt
  deriving DecidableEq

/-- The event; `joined` is the result of `join_multicast_group`, should it be called. -/
def Post.evt (joined : Bool) : Post → Evt
  | .internalErr => .eeInternalErr
  | .addedIntoOt => .eeAddedIntoOt
  | .addedIntoIt => .eeAddedIntoIt joined
  | .deledFromIt => .eeDeledFromIt
  | .deledFromOt => .eeDeledFromOt

/-- What `handle_added_into_io_task` posts at the end. -/
def addedPost : IoType → Post
  | .output => .addedIntoOt
  | .input => .addedIntoIt

/-- What `handle_deled_from_io_task` posts. -/
def deledPost : IoType → Post
  | .output => .deledFromOt
  | .input => .deledFromIt

def request : Ev → Option (IoType × Req)
  | .addEndpoint t => some (t, .add)
  | .delEndpoint t => some (t, .del)
  | _ => none

/-- The endpoint as an object of its notifiers. An event of `epoll_wait` can end in
`EE_INTERNAL_ERR` only. -/
def rmpEndpoint : Class IoType CRmpEndpoint Post Call (Bool × UserCode) Ev Fault where
  user
    | .openEp o, s => openEp o s
    | .close, s => close s
  callback p x s := posting (postEvt x.2.run s (p.evt x.1))
  handle _ s := if s.pSock = none then some .sockNull else none
  added t ok := some (if ok then [addedPost t] else [.internalErr, addedPost t])
  deled t := [deledPost t]
  isEvt _ p := p = .internalErr
  req := request

abbrev Endp := World IoType CRmpEndpoint Post

abbrev Step := Act IoType Post Call (Bool × UserCode)

/-- A constructed endpoint that no notifier knows. -/
def start (t : RmpType) (p : PendingEvt) : Proc Endp Ev (Crash Fault) :=
  { obj := ⟨RmpEndpoint.init t p, fun _ => .clean⟩ }

/-- The process after the steps. -/
def run (t : RmpType) (p : PendingEvt) (as : List Step) : Proc Endp Ev (Crash Fault) :=
  Proc.run rmpEndpoint.step (start t p) as

/-- The input registration succeeds; the `on_closed` of a teardown does not open the endpoint again;
the second event of a failed output registration does not find a close pending in
`ES_ADDING_INTO_OT`. -/
def Proper (w : Endp) : Step → Prop
  | .takeAdd .input ok => 0 < (w.ntf .input).adds → ok = true
  | .callback .output x =>
    (w.obj.state = .esDelingFromOt → (w.ntf .output).todo.head? = some .deledFromOt →
      x.2.reopens w.obj.i32Type = false) ∧
    (w.obj.state = .esAddingIntoOt → (w.ntf .output).todo.head? = some .addedIntoOt →
      (w.ntf .output).inSet = false →
      w.obj.smPendingEvt ≠ .eeClose)
  | _ => True

instance (w : Endp) : ∀ a, Decidable (Proper w a)
  | .takeAdd .input _ => inferInstanceAs (Decidable (_ → _))
  | .callback .output _ => inferInstanceAs (Decidable ((_ → _ → _) ∧ (_ → _ → _ → _)))
  | .takeAdd .output _ => .isTrue trivial
  | .callback .input _ => .isTrue trivial
  | .user _ => .isTrue trivial
  | .takeDel _ => .isTrue trivial
  | .collect _ _ => .isTrue trivial

/-! ## What the notifiers hold -/

/-- What the output notifier `o` and the input notifier `i` hold in each state. After a failed
output registration the notifier still has an `EE_ADDED_INTO_OT` to post, also when the endpoint has
been opened again in the meantime. -/
def Good (s : CRmpEndpoint) (o i : Ntf Post) : Prop :=
  match s.state with
  | .esClosed =>
    i = .clean ∧ (o = .clean ∨ o = ⟨false, 0, 0, [.addedIntoOt]⟩ ∧ s.smPendingEvt ≠ .eeNone)
  | .esAddingIntoOt => s.pSock ≠ none ∧ i = .clean ∧
    (o = ⟨false, 1, 0, []⟩ ∨ o = ⟨true, 0, 0, [.addedIntoOt]⟩ ∨
      o = ⟨false, 0, 0, [.internalErr, .addedIntoOt]⟩ ∨
      o = ⟨false, 1, 0, [.addedIntoOt]⟩ ∧ s.smPendingEvt ≠ .eeNone)
  | .esAddingIntoIt => s.pSock ≠ none ∧ rmpEndpoint.Idle .output o ∧
    (i = ⟨false, 1, 0, []⟩ ∨ i = ⟨true, 0, 0, [.addedIntoIt]⟩)
  | .esOpened => s.pSock ≠ none ∧ rmpEndpoint.Idle .output o ∧ rmpEndpoint.Idle .input i
  | .esDelingFromIt => s.pSock ≠ none ∧ rmpEndpoint.Idle .output o ∧
    (rmpEndpoint.Leaving .input i ∨ i = ⟨false, 0, 0, [.deledFromIt]⟩)
  | .esDelingFromOt => s.pSock ≠ none ∧ i = .clean ∧
    (rmpEndpoint.Leaving .output o ∨ o = ⟨false, 0, 0, [.deledFromOt]⟩)

def Inv (w : Endp) : Prop := Good w.obj (w.ntf .output) (w.ntf .input)

variable {s s' : CRmpEndpoint} {ntf : IoType → Ntf Post} {o i : Ntf Post} {u : UserCode} {e : Evt}
  {p : Post} {ps : List Post}
  {evs : List Ev} {r : ℤ}

theorem isEvt {t : IoType} (h : rmpEndpoint.isEvt t p = true) : p = .internalErr := by
  simpa [rmpEndpoint] using h

theorem filterMap_isRet (h : ∀ e ∈ evs, e.isRet = true) : evs.filterMap request = [] := by
  rw [List.filterMap_eq_nil_iff]
  intro e he
  have := h e he
  cases e <;> first | rfl | cases this

/-- **Calls of other threads.** -/
theorem inv_user (h : Good s (ntf .output) (ntf .input)) (ht : Trans u.run s e evs r s')
    (he : (∃ o, e = .eeOpen o) ∨ e = .eeClose) : Inv ⟨s', rmpEndpoint.submit ntf evs⟩ := by
  unfold Good at h
  cases ht with
  | ignored _ => rw [rmpEndpoint.submit_nil rfl]; exact h
  | opens hst ho =>
    rw [hst] at h
    obtain ⟨hi, ho | ⟨ho, hp⟩⟩ := h
    · rw [rmpEndpoint.submit_one rfl]
      refine ⟨Option.some_ne_none _, hi, Or.inl ?_⟩
      show (ntf .output).push .add = _
      rw [ho]; rfl
    · rw [rmpEndpoint.submit_one rfl]
      refine ⟨Option.some_ne_none _, hi, Or.inr (Or.inr (Or.inr ⟨?_, hp⟩))⟩
      show (ntf .output).push .add = _
      rw [ho]; rfl
  | openFails hst ho =>
    rw [hst] at h
    rw [rmpEndpoint.submit_nil rfl]
    unfold Inv Good
    simpa only [hst] using h
  | closeAddingOt hst =>
    rw [hst] at h
    rw [rmpEndpoint.submit_nil rfl]
    unfold Inv Good
    simp only [hst]
    obtain ⟨hn, hi, ho | ho | ho | ⟨ho, -⟩⟩ := h
    · exact ⟨hn, hi, Or.inl ho⟩
    · exact ⟨hn, hi, Or.inr (Or.inl ho)⟩
    · exact ⟨hn, hi, Or.inr (Or.inr (Or.inl ho))⟩
    · exact ⟨hn, hi, Or.inr (Or.inr (Or.inr ⟨ho, nofun⟩))⟩
  | closeAddingIt hst =>
    rw [hst] at h
    rw [rmpEndpoint.submit_nil rfl]
    unfold Inv Good
    simpa only [hst] using h
  | tearsDown hst _ hs =>
    rw [hst] at h
    obtain ⟨hn, ho, hi⟩ := h
    rw [rmpEndpoint.submit_one rfl]
    exact ⟨hn, ho, Or.inl hi.push⟩
  | errAddingOt | addedOtClose | addedOt | errAddingIt | addedItFails | addedIt | deledIt
  | deledOt =>
    rcases he with ⟨o, he⟩ | he <;> cases he

/-- **An io error** of a registered endpoint. -/
theorem inv_err (h : Good s (ntf .output) (ntf .input)) (hst : s.state ≠ .esAddingIntoOt)
    (ht : Trans u.run s .eeInternalErr evs r s') : Inv ⟨s', rmpEndpoint.submit ntf evs⟩ := by
  have h1 := ht.internalErr
  unfold Good at h
  rcases hst' : s.state <;> rw [hst'] at h h1
  case esAddingIntoOt => exact absurd hst' hst
  case esAddingIntoIt =>
    obtain ⟨rfl, rfl⟩ := h1
    rw [rmpEndpoint.submit_nil rfl]
    exact h
  case esOpened =>
    obtain ⟨n, hs, rfl, rfl⟩ := h1
    obtain ⟨hn, ho, hi⟩ := h
    rw [rmpEndpoint.submit_one rfl]
    exact ⟨hn, ho, Or.inl hi.push⟩
  all_goals
    obtain ⟨rfl, rfl⟩ := h1
    rw [rmpEndpoint.submit_nil rfl]
    unfold Inv Good
    simpa only [hst'] using h

/-- **Callbacks of the output notifier.** -/
theorem inv_output (h : Good s (ntf .output) (ntf .input)) (htodo : (ntf .output).todo = p :: ps)
    {j : Bool} (ht : Trans u.run s (p.evt j) evs r s')
    (hc : Proper ⟨s, ntf⟩ (.callback .output (j, u))) :
    Inv
      ⟨s', rmpEndpoint.submit
        (Function.update ntf .output { ntf .output with todo := ps }) evs⟩ := by
  obtain ⟨hc1, hc2⟩ := hc
  have hhead : (ntf .output).todo.head? = some p := by rw [htodo]; rfl
  unfold Good at h
  rcases hst : s.state <;> rw [hst] at h
  case esClosed =>
    obtain ⟨hi, ho | ⟨ho, hp⟩⟩ := h <;> rw [ho] at htodo ⊢ <;> cases htodo
    have h1 := ht.addedIntoOt
    rw [hst] at h1
    obtain ⟨rfl, rfl⟩ := h1
    rw [rmpEndpoint.submit_nil rfl]
    unfold Inv Good
    simp only [hst]
    exact ⟨hi, Or.inl rfl⟩
  case esAddingIntoOt =>
    obtain ⟨hn, hi, ho | ho | ho | ⟨ho, hp⟩⟩ := h
    · rw [ho] at htodo; cases htodo
    · rw [ho] at htodo ⊢
      cases htodo
      have h1 := ht.addedIntoOt
      rw [hst] at h1
      obtain ⟨-, n, hs, rfl, rfl⟩ | ⟨-, rfl, rfl⟩ := h1
      · rw [rmpEndpoint.submit_one rfl]
        exact ⟨hn, hi, Or.inl Class.leaving⟩
      · rw [rmpEndpoint.submit_one rfl]
        refine ⟨hn, Class.idle, Or.inl ?_⟩
        show (ntf .input).push .add = _
        rw [hi]; rfl
    · rw [ho] at htodo ⊢
      cases htodo
      have h1 := ht.internalErr
      rw [hst] at h1
      obtain ⟨rfl, rfl⟩ := h1
      rw [rmpEndpoint.submit_nil rfl]
      exact ⟨hi, Or.inr ⟨rfl, nofun⟩⟩
    · -- the late event: it finds an event pending that is no close, and the assert on it ends
      -- the process
      rw [ho] at htodo
      cases htodo
      have hclose := hc2 hst hhead (by show (ntf .output).inSet = false; rw [ho])
      have h1 := ht.addedIntoOt
      rw [hst] at h1
      obtain ⟨h2, -⟩ | ⟨h2, -⟩ := h1
      · exact absurd h2 hclose
      · exact absurd h2 hp
  case esAddingIntoIt | esOpened | esDelingFromIt =>
    obtain ⟨hn, ho, hi⟩ := h
    obtain ⟨he, hpop⟩ := ho.pop htodo
    cases isEvt he
    rw [hpop]
    refine inv_err ?_ (by rw [hst]; nofun) ht
    unfold Good
    rw [hst]
    exact ⟨hn, Class.idle, hi⟩
  case esDelingFromOt =>
    obtain ⟨hn, hi, ho | ho⟩ := h
    · obtain ⟨he, hpop⟩ := ho.pop htodo
      cases isEvt he
      rw [hpop]
      refine inv_err ?_ (by rw [hst]; nofun) ht
      unfold Good
      rw [hst]
      exact ⟨hn, hi, Or.inl Class.leaving⟩
    · rw [ho] at htodo ⊢
      cases htodo
      have h1 := ht.deledFromOt
      rw [hst] at h1
      obtain ⟨evs1, s1, hcb, rfl, rfl⟩ := h1
      obtain ⟨evs2, s2, h2, h3, h4, h5⟩ := u.run_closed (s := { s with state := .esClosed })
        rfl (hc1 hst hhead)
      rw [h2] at hcb
      cases hcb
      have h6 : (Ev.onClosed :: evs1).filterMap rmpEndpoint.req = [] := by
        exact (filterMap_isRet h5 : evs1.filterMap request = [])
      rw [rmpEndpoint.submit_nil h6]
      unfold Inv Good
      simp only [h3]
      exact ⟨hi, Or.inl rfl⟩

/-- **Callbacks of the input notifier.** -/
theorem inv_input (h : Good s (ntf .output) (ntf .input)) (htodo : (ntf .input).todo = p :: ps)
    {j : Bool} (ht : Trans u.run s (p.evt j) evs r s') :
    Inv
      ⟨s', rmpEndpoint.submit (Function.update ntf .input { ntf .input with todo := ps }) evs⟩ := by
  unfold Good at h
  rcases hst : s.state <;> rw [hst] at h
  case esAddingIntoIt =>
    obtain ⟨hn, ho, hi | hi⟩ := h <;> rw [hi] at htodo ⊢ <;> cases htodo
    have h1 := ht.addedIntoIt
    rw [hst] at h1
    obtain ⟨-, n, hs, rfl, rfl⟩ | ⟨-, evs1, s1, hcb, rfl, rfl⟩ := h1
    · rw [rmpEndpoint.submit_one rfl]
      exact ⟨hn, ho, Or.inl Class.leaving⟩
    · rw [u.run_adding hst] at hcb
      cases hcb
      have h6 : (Ev.onOpened :: u.rets).filterMap rmpEndpoint.req = [] := by
        exact (filterMap_isRet u.rets_isRet : u.rets.filterMap request = [])
      rw [rmpEndpoint.submit_nil h6]
      exact ⟨hn, ho, Class.idle⟩
  case esOpened =>
    obtain ⟨hn, ho, hi⟩ := h
    obtain ⟨he, hpop⟩ := hi.pop htodo
    cases isEvt he
    rw [hpop]
    refine inv_err ?_ (by rw [hst]; nofun) ht
    unfold Good
    rw [hst]
    exact ⟨hn, ho, Class.idle⟩
  case esDelingFromIt =>
    obtain ⟨hn, ho, hi | hi⟩ := h
    · obtain ⟨he, hpop⟩ := hi.pop htodo
      cases isEvt he
      rw [hpop]
      refine inv_err ?_ (by rw [hst]; nofun) ht
      unfold Good
      rw [hst]
      exact ⟨hn, ho, Or.inl Class.leaving⟩
    · rw [hi] at htodo ⊢
      cases htodo
      have h1 := ht.deledFromIt
      rw [hst] at h1
      obtain ⟨rfl, rfl⟩ := h1
      rw [rmpEndpoint.submit_one rfl]
      exact ⟨hn, rfl, Or.inl ho.push⟩
  case esDelingFromOt => rw [h.2.1] at htodo; cases htodo
  case esAddingIntoOt => rw [h.2.1] at htodo; cases htodo
  case esClosed => rw [h.1] at htodo; cases htodo

/-! ## The steps of the notifiers -/

theorem output_del (h : Good s o i) (hd : 0 < o.dels) :
    s.state = .esDelingFromOt ∧ s.pSock ≠ none ∧ i = .clean ∧ rmpEndpoint.Leaving .output o := by
  unfold Good at h
  rcases hst : s.state <;> rw [hst] at h
  case esDelingFromOt =>
    obtain ⟨hn, hi, ho | rfl⟩ := h
    · exact ⟨rfl, hn, hi, ho⟩
    · cases hd
  case esAddingIntoOt => obtain ⟨-, -, rfl | rfl | rfl | ⟨rfl, -⟩⟩ := h <;> cases hd
  case esAddingIntoIt | esOpened | esDelingFromIt => obtain ⟨-, ⟨ts, -, rfl⟩, -⟩ := h; cases hd
  all_goals obtain ⟨-, rfl | ⟨rfl, -⟩⟩ := h <;> cases hd

theorem input_del (h : Good s o i) (hd : 0 < i.dels) :
    s.state = .esDelingFromIt ∧ s.pSock ≠ none ∧ rmpEndpoint.Idle .output o ∧
      rmpEndpoint.Leaving .input i := by
  unfold Good at h
  rcases hst : s.state <;> rw [hst] at h
  case esDelingFromIt =>
    obtain ⟨hn, ho, hi | rfl⟩ := h
    · exact ⟨rfl, hn, ho, hi⟩
    · cases hd
  case esAddingIntoIt => obtain ⟨-, -, rfl | rfl⟩ := h <;> cases hd
  case esOpened => obtain ⟨-, -, ts, -, rfl⟩ := h; cases hd
  case esAddingIntoOt | esDelingFromOt => obtain ⟨-, rfl, -⟩ := h; cases hd
  all_goals obtain ⟨rfl, -⟩ := h; cases hd

theorem output_add (h : Good s o i) (hd : 0 < o.adds) :
    s.state = .esAddingIntoOt ∧ s.pSock ≠ none ∧ i = .clean ∧
      (o = ⟨false, 1, 0, []⟩ ∨ o = ⟨false, 1, 0, [.addedIntoOt]⟩) := by
  unfold Good at h
  rcases hst : s.state <;> rw [hst] at h
  case esAddingIntoOt =>
    obtain ⟨hn, hi, rfl | rfl | rfl | ⟨rfl, -⟩⟩ := h
    · exact ⟨rfl, hn, hi, Or.inl rfl⟩
    · cases hd
    · cases hd
    · exact ⟨rfl, hn, hi, Or.inr rfl⟩
  case esDelingFromOt => obtain ⟨-, -, ⟨ts, -, rfl⟩ | rfl⟩ := h <;> cases hd
  case esAddingIntoIt | esOpened | esDelingFromIt => obtain ⟨-, ⟨ts, -, rfl⟩, -⟩ := h; cases hd
  all_goals obtain ⟨-, rfl | ⟨rfl, -⟩⟩ := h <;> cases hd

theorem input_add (h : Good s o i) (hd : 0 < i.adds) :
    s.state = .esAddingIntoIt ∧ s.pSock ≠ none ∧ rmpEndpoint.Idle .output o ∧
      i = ⟨false, 1, 0, []⟩ := by
  unfold Good at h
  rcases hst : s.state <;> rw [hst] at h
  case esAddingIntoIt =>
    obtain ⟨hn, ho, rfl | rfl⟩ := h
    · exact ⟨rfl, hn, ho, rfl⟩
    · cases hd
  case esDelingFromIt => obtain ⟨-, -, ⟨ts, -, rfl⟩ | rfl⟩ := h <;> cases hd
  case esOpened => obtain ⟨-, -, ts, -, rfl⟩ := h; cases hd
  case esAddingIntoOt | esDelingFromOt => obtain ⟨-, rfl, -⟩ := h; cases hd
  all_goals obtain ⟨rfl, -⟩ := h; cases hd

/-- **Requests taken out of a cache** and events collected. -/
theorem inv_takeDel (h : Good s (ntf .output) (ntf .input)) (k : IoType) (hd : 0 < (ntf k).dels) :
    Inv ⟨s, Function.update ntf k ⟨false, (ntf k).adds, (ntf k).dels - 1, [deledPost k]⟩⟩ := by
  cases k with
  | output =>
    obtain ⟨hst, hn, hi, ts, -, ho⟩ := output_del h hd
    rw [ho]
    unfold Inv Good
    simp only [hst]
    exact ⟨hn, hi, Or.inr rfl⟩
  | input =>
    obtain ⟨hst, hn, ho, ts, -, hi⟩ := input_del h hd
    rw [hi]
    unfold Inv Good
    simp only [hst]
    exact ⟨hn, ho, Or.inr rfl⟩

theorem inv_takeAdd (h : Good s (ntf .output) (ntf .input)) (k : IoType) (ok : Bool)
    (htodo : (ntf k).todo = []) (hd : 0 < (ntf k).adds) (hc : Proper ⟨s, ntf⟩ (.takeAdd k ok))
    (hts : rmpEndpoint.added k ok = some ps) :
    Inv ⟨s, Function.update ntf k ⟨ok || (ntf k).inSet, (ntf k).adds - 1, (ntf k).dels, ps⟩⟩ := by
  cases hts
  cases k with
  | output =>
    obtain ⟨hst, hn, hi, ho | ho⟩ := output_add h hd <;> rw [ho] at htodo ⊢
    · unfold Inv Good
      simp only [hst]
      rcases ok with _ | _
      · exact ⟨hn, hi, Or.inr (Or.inr (Or.inl rfl))⟩
      · exact ⟨hn, hi, Or.inr (Or.inl rfl)⟩
    · cases htodo
  | input =>
    obtain ⟨hst, hn, ho, hi⟩ := input_add h hd
    obtain rfl : ok = true := hc hd
    rw [hi]
    unfold Inv Good
    simp only [hst]
    exact ⟨hn, ho, Or.inr rfl⟩

theorem inv_collect (h : Good s (ntf .output) (ntf .input)) (k : IoType) (htodo : (ntf k).todo = [])
    (hin : (ntf k).inSet = true) (he : rmpEndpoint.isEvt k p = true) :
    Inv ⟨s, Function.update ntf k { ntf k with todo := [p] }⟩ := by
  unfold Good at h
  unfold Inv Good
  cases k with
  | output =>
    rcases hst : s.state <;> simp only [hst] at h ⊢
    case esAddingIntoOt =>
      obtain ⟨-, -, ho | ho | ho | ⟨ho, -⟩⟩ := h <;> rw [ho] at htodo hin
      · cases hin
      all_goals cases htodo
    case esAddingIntoIt | esOpened | esDelingFromIt => exact ⟨h.1, h.2.1.collect he, h.2.2⟩
    case esDelingFromOt =>
      obtain ⟨hn, hi, ho | ho⟩ := h
      · exact ⟨hn, hi, Or.inl (ho.collect he)⟩
      · rw [ho] at hin; cases hin
    all_goals obtain ⟨-, ho | ⟨ho, -⟩⟩ := h <;> rw [ho] at hin <;> cases hin
  | input =>
    rcases hst : s.state <;> simp only [hst] at h ⊢
    case esAddingIntoIt =>
      obtain ⟨-, -, hi | hi⟩ := h <;> rw [hi] at htodo hin
      · cases hin
      · cases htodo
    case esOpened => exact ⟨h.1, h.2.1, h.2.2.collect he⟩
    case esDelingFromIt =>
      obtain ⟨hn, ho, hi | hi⟩ := h
      · exact ⟨hn, ho, Or.inl (hi.collect he)⟩
      · rw [hi] at hin; cases hin
    case esAddingIntoOt | esDelingFromOt => rw [h.2.1] at hin; cases hin
    all_goals rw [h.1] at hin; cases hin

theorem inv_call (h : Good s (ntf .output) (ntf .input)) (ht : Trans u.run s e evs r s')
    (he : (∃ o, e = .eeOpen o) ∨ e = .eeClose) {ev : Ev} (hev : request ev = none) :
    Inv ⟨s', rmpEndpoint.submit ntf (evs ++ [ev])⟩ := by
  rw [rmpEndpoint.submit_append hev]
  exact inv_user h ht he

/-- The faults that would break the books: the asserts of a notifier, and a call through a NULL
`m_pSock`. -/
def Broken (x : Crash Fault) : Prop := x = .erase ∨ x = .insert ∨ x = .inObj .sockNull

theorem Inv.owns {w : Endp} (h : Inv w) (hst : w.obj.state ≠ .esClosed) : w.obj.pSock ≠ none := by
  unfold Inv Good at h
  rcases hs : w.obj.state <;> rw [hs] at h
  case esClosed => exact absurd hs hst
  all_goals exact h.1

theorem fails_sock {w : Endp} {f : Fault} (h : Inv w) (hf : Fails u.run w.obj e evs f)
    (hu : w.obj.state = .esDelingFromOt → e = .eeDeledFromOt → u.reopens w.obj.i32Type = false) :
    f ≠ .sockNull := by
  cases hf with
  | pendingEvt => nofun
  | sockNull hst hs =>
    refine absurd hs (h.owns ?_)
    rcases hst with hst | hst | hst <;> rw [hst] <;> nofun
  | addedIt hst _ hcb => rw [u.run_adding hst] at hcb; cases hcb
  | deledOt hst hcb =>
    obtain ⟨evs2, s2, h2, -⟩ := u.run_closed (s := { w.obj with state := .esClosed })
      rfl (hu hst rfl)
    rw [h2] at hcb; cases hcb

theorem del_registered {w : Endp} (h : Inv w) (k : IoType) (hd : 0 < (w.ntf k).dels) :
    (w.ntf k).inSet = true ∧ w.obj.pSock ≠ none := by
  cases k with
  | output =>
    obtain ⟨-, hn, -, ho⟩ := output_del h hd
    exact ⟨ho.inSet.1, hn⟩
  | input =>
    obtain ⟨-, hn, -, hi⟩ := input_del h hd
    exact ⟨hi.inSet.1, hn⟩

theorem add_unregistered {w : Endp} (h : Inv w) (k : IoType) (hd : 0 < (w.ntf k).adds) :
    (w.ntf k).inSet = false ∧ w.obj.pSock ≠ none := by
  cases k with
  | output =>
    obtain ⟨-, hn, -, ho | ho⟩ := output_add h hd <;> rw [ho] <;> exact ⟨rfl, hn⟩
  | input =>
    obtain ⟨-, hn, -, hi⟩ := input_add h hd
    rw [hi]; exact ⟨rfl, hn⟩

theorem step_sock {w : Endp} {a : Step} {x : Crash Fault} (hI : Inv w) (hc : Proper w a)
    (hf : rmpEndpoint.Fails w a evs x) : x ≠ .inObj .sockNull := by
  have hhandle : ∀ {t f}, rmpEndpoint.handle t w.obj = some f → w.obj.pSock = none := by
    intro t f h
    simp only [rmpEndpoint] at h
    split_ifs at h with hs
    exact hs
  rintro rfl
  cases hf with
  | handleDel k hd h => exact (del_registered hI k hd).2 (hhandle h)
  | handleAdd k ha h => exact (add_unregistered hI k ha).2 (hhandle h)
  | user c hcall =>
    cases c with
    | openEp o => exact fails_sock (u := .done) hI (post_fails (returning_error hcall)) nofun rfl
    | close => exact fails_sock (u := .done) hI (post_fails (returning_error hcall)) nofun rfl
  | @callback k x p ps _ _ ht hcall =>
    refine fails_sock (u := x.2) hI (post_fails (posting_error hcall)) (fun hst he => ?_) rfl
    have hp : p = .deledFromOt := by cases p <;> first | rfl | cases he
    cases k with
    | output => exact hc.1 hst (by rw [ht, hp]; rfl)
    | input =>
      have h1 := hI
      unfold Inv Good at h1
      rw [hst] at h1
      rw [h1.2.1] at ht
      cases ht

/-- **Every step keeps the books.** -/
theorem inv_step (a : Step) :
    Eff.Triple (fun _ w => Inv w ∧ Proper w a) (rmpEndpoint.step a) (fun _ w => Inv w)
    fun _ x => ¬ Broken x := by
  refine rmpEndpoint.step_triple (fun log w evs w' ⟨hI, hc⟩ hm => ?_)
    fun log w evs x ⟨hI, hc⟩ hf => ?_
  · cases hm with
    | idle => exact hI
    | user c hcall =>
      cases c with
      | openEp o =>
        obtain ⟨r, evs1, ht, rfl⟩ := openEp_ok hcall
        exact inv_call (u := .done) hI ht (Or.inl ⟨o, rfl⟩) rfl
      | close =>
        obtain ⟨r, evs1, ht, rfl⟩ := close_ok hcall
        exact inv_call (u := .done) hI ht (Or.inr rfl) rfl
    | takeDel k ht hd hin => exact inv_takeDel hI k hd
    | takeAdd k ht ha hts => exact inv_takeAdd hI k _ ht ha hc hts
    | collect k ht hin he => exact inv_collect hI k ht hin he
    | callback k ht hcall =>
      obtain ⟨r, h1⟩ := posting_ok hcall
      cases k with
      | output => exact inv_output hI ht (post_trans h1) hc
      | input => exact inv_input hI ht (post_trans h1)
  · rintro (rfl | rfl | rfl)
    · cases hf with
      | erase k hd hin => exact absurd hin (by rw [(del_registered hI k hd).1]; nofun)
    · cases hf with
      | insert k ha hin => exact absurd hin (by rw [(add_unregistered hI k ha).1]; nofun)
    · exact step_sock hI hc hf rfl

/-! ## The runs -/

/-- The endpoint owns its socket unless it is closed; closed, it is in no notifier's set; a del is
queued only for an object in the set. -/
structure Owns (w : Endp) : Prop where
  sock : w.obj.state ≠ .esClosed → w.obj.pSock ≠ none
  closed : w.obj.state = .esClosed → ∀ t, (w.ntf t).inSet = false
  del : ∀ t, 0 < (w.ntf t).dels → (w.ntf t).inSet = true

theorem Inv.inOrder {w : Endp} (h : Inv w) : Owns w := by
  refine ⟨h.owns, fun hst t => ?_, fun t hd => (del_registered h t hd).1⟩
  unfold Inv Good at h
  rw [hst] at h
  obtain ⟨hi, ho | ⟨ho, -⟩⟩ := h <;> cases t <;> first | rw [ho] | rw [hi]
  all_goals rfl

/-- **An endpoint in use owns its socket and its registrations.** In every run in which each input
registration succeeds, no `on_closed` of a teardown opens the endpoint again, and no late event of a
failed output registration finds a close pending in `ES_ADDING_INTO_OT`: neither an assert of a
notifier fails nor is `m_pSock` used when it is NULL, and while the process lives the endpoint owns
what it should. -/
theorem owned (t : RmpType) (p : PendingEvt) (as : List Step)
    (h : Proc.Meets rmpEndpoint.step Proper (start t p) as) :
    (∀ x, (run t p as).fault = some x → ¬ Broken x) ∧
    ((run t p as).fault = none → Owns (run t p as).obj) := by
  have h0 : Proc.Holds (fun _ => Inv) (fun _ x => ¬ Broken x) (start t p) := ⟨rfl, Or.inl rfl⟩
  have h1 := Proc.run_inv inv_step h0 h
  refine ⟨fun x hx => h1.dead hx, fun hf => ?_⟩
  have hI : Inv (run t p as).obj := h1.alive hf
  exact hI.inOrder

/-- A session of a receiver: opened, both registrations succeed, an io error on the input side, torn
down. -/
def session : List Step :=
  [.user (.openEp ⟨⟨"239.0.0.1", "0.0.0.0", 7000, 1, 1⟩, 3, true, true, true⟩),
    .takeAdd .output true, .callback .output (true, .done), .takeAdd .input true,
    .callback .input (true, .done), .collect .input .internalErr, .callback .input (true, .done),
    .takeDel .input, .callback .input (true, .done), .takeDel .output,
    .callback .output (true, .done)]

theorem owned_session :
    (run .recv .eeNone session).fault = none ∧ Owns (run .recv .eeNone session).obj := by
  have hf : (run .recv .eeNone session).fault = none := by decide
  exact ⟨hf, (owned .recv .eeNone session (by decide)).2 hf⟩

/-- The same, but `on_closed` opens the endpoint again at the end. -/
def reopened : List Step :=
  session.dropLast ++
    [.callback .output
      (true, .callOpen ⟨⟨"239.0.0.1", "0.0.0.0", 7000, 1, 1⟩, 4, true, true, true⟩ .done)]

/-- The endpoint is waiting for its output registration without a socket, and the notifier looks it
up. -/
theorem reopened_without_sock :
    ((run .recv .eeNone reopened).obj.obj.state = .esAddingIntoOt ∧
      (run .recv .eeNone reopened).obj.obj.pSock = none) ∧
    (run .recv .eeNone (reopened ++ [.takeAdd .output true])).fault = some (.inObj .sockNull) := by
  decide

end SmartNet.Endpoint.RmpRegistrations

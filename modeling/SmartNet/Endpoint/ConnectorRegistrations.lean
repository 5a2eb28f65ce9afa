import SmartNet.Endpoint.RupConnector
import SmartNet.Framework.Notifier

/-! # The registrations of a `CRupConnector`

A connector with its output notifier and its timer notifier. In each of its transient states it
waits for the answer to one request. An output registration that fails is answered by
`EE_INTERNAL_ERR` alone, which `ES_ADDING_INTO_OT` only records, so nothing takes the connector out
of that state; in the other runs the answer is always on its way.

* `stage`: the stages of the two registrations in each state of the connector;
* `Trans.stages`: what an event does to the stages;
* `inv_user`, `inv_callback`, `inv_step`: the steps;
* `awaited`: the runs. -/

namespace SmartNet.Endpoint.ConnectorRegistrations

open SmartNet.Lib SmartNet.Framework.Notifier SmartNet.Utils.StateMachine
open SmartNet.Endpoint.RupConnector SmartNet.Endpoint.Types

/-- The output task and the timer task. -/
inductive Task
  | ot
  | tt
  deriving DecidableEq, Repr

/-- The callbacks: `handle_added_into_io_task` with and without success,
`handle_deled_from_io_task`, `handle_output_evt`, `handle_io_error`, `handle_add_into_timer_task`,
`handle_del_from_timer_task`, `on_timer`. -/
inductive Post
  | addedIntoOt
  | addFailed
  | deledFromOt
  | outputEvt
  | ioError
  | addedIntoTt
  | deledFromTt
  | onTimer
  deriving DecidableEq, Repr

/-- The calls of other threads. -/
inductive Call
  | openEp (sp : SParas)
  | close
  deriving DecidableEq

/-- What the environment contributes to a callback: the user code of `on_opened` or `on_closed`, the
answers of the waiting endpoints, and in a tick the new socket, if an endpoint waits. -/
structure Input where
  user : UserCode := .done
  dqIdleEndpoints : List Bool := []
  connect : Option CRupSock := none

/-- A callback, as the events it posts. -/
def callback : Post → Input → CRupConnector → Eff Ev Fault CRupConnector
  | .addedIntoOt, i, s => posting (postEvt i.user.run s .eeAddedIntoOt)
  | .addFailed, i, s =>
    postEvt i.user.run s .eeInternalErr >>= fun (r, s) =>
      Eff.require (r = 0) .refused >>= fun _ => pure s
  | .deledFromOt, i, s => posting (postEvt i.user.run s (.eeDeledFromOt i.dqIdleEndpoints))
  | .outputEvt, i, s => posting (postEvt i.user.run s .eeConnected)
  | .ioError, i, s => posting (postEvt i.user.run s .eeInternalErr)
  | .addedIntoTt, i, s => posting (postEvt i.user.run s .eeAddedIntoTt)
  | .deledFromTt, i, s => posting (postEvt i.user.run s .eeDeledFromTt)
  | .onTimer, i, s =>
    match i.connect with
    | none => pure s
    | some k => posting (postEvt i.user.run s (.eeConnect k))

def request : Ev → Option (Task × Req)
  | .addEndpoint => some (.ot, .add)
  | .delEndpoint => some (.ot, .del)
  | .addTimer => some (.tt, .add)
  | .delTimer => some (.tt, .del)
  | _ => none

/-- The connector as an object of its notifiers. Only the output task asks for the handle, and only
it can fail to register. -/
def rupConnector : Class Task CRupConnector Post Call Input Ev Fault where
  user
    | .openEp sp, s => openEp sp s
    | .close, s => close s
  callback := callback
  handle
    | .ot, s => if s.pTcpSock = none then some .sockNull else none
    | .tt, _ => none
  added
    | .ot, true => some [.addedIntoOt]
    | .ot, false => some [.addFailed]
    | .tt, true => some [.addedIntoTt]
    | .tt, false => none
  deled
    | .ot => [.deledFromOt]
    | .tt => [.deledFromTt]
  isEvt
    | .ot, p => p = .outputEvt ∨ p = .ioError
    | .tt, p => p = .onTimer
  req := request

abbrev Conn := World Task CRupConnector Post

abbrev Step := Act Task Post Call Input

/-- A constructed connector that no notifier knows. -/
def start : Proc Conn Ev (Crash Fault) := { obj := ⟨init, fun _ => .clean⟩ }

/-- The process after the steps. -/
def run (as : List Step) : Proc Conn Ev (Crash Fault) := Proc.run rupConnector.step start as

/-- No output registration fails. -/
def Registers (w : Conn) : Step → Prop
  | .takeAdd .ot ok => 0 < (w.ntf .ot).adds → ok = true
  | _ => True

instance (w : Conn) : ∀ a, Decidable (Registers w a)
  | .takeAdd .ot _ => inferInstanceAs (Decidable (_ → _))
  | .takeAdd .tt _ => .isTrue trivial
  | .user _ => .isTrue trivial
  | .takeDel _ => .isTrue trivial
  | .collect _ _ => .isTrue trivial
  | .callback _ _ => .isTrue trivial

/-! ## The stages -/

/-- The stages of the two registrations in each state. -/
def stage : St → Task → Stage
  | .esAddingIntoOt, .ot => .adding
  | .esConnecting, .ot => .registered
  | .esDelingFromOtClose, .ot => .leaving
  | .esDelingFromOtNormal, .ot => .leaving
  | _, .ot => .out
  | .esClosed, .tt => .out
  | .esAddingIntoTt, .tt => .adding
  | .esDelingFromTt, .tt => .leaving
  | _, .tt => .registered

/-- The stages after an answer has been given. -/
def answered : Evt → (Task → Stage) → Task → Stage
  | .eeAddedIntoOt, st, .ot => if st .ot = .adding then .registered else st .ot
  | .eeDeledFromOt _, st, .ot => if st .ot = .leaving then .out else st .ot
  | .eeAddedIntoTt, st, .tt => if st .tt = .adding then .registered else st .tt
  | .eeDeledFromTt, st, .tt => if st .tt = .leaving then .out else st .tt
  | _, st, k => st k

/-- The notifiers hold what belongs to the stages. -/
def Inv (w : Conn) : Prop := ∀ k, rupConnector.Fits k (stage w.obj.state k) (w.ntf k)

variable {s s' : CRupConnector} {ntf : Task → Ntf Post} {u : UserCode} {e : Evt} {evs : List Ev}
  {r : ℤ} {p : Post} {ps : List Post}
  {k : Task} {i : Input}

theorem filterMap_closing (k : CRupSock) : (closing k).filterMap request = [] := by
  unfold closing
  split_ifs <;> rfl

theorem filterMap_handOff (k : CRupSock) : ∀ eps, (handOff k eps).filterMap request = []
  | [] => filterMap_closing k
  | true :: _ => rfl
  | false :: rest => filterMap_handOff k rest

theorem filterMap_rets (r : ℤ) : ∀ u : UserCode, (u.rets r).filterMap request = []
  | .done => rfl
  | .callOpen _ next => filterMap_rets r next
  | .callClose next => filterMap_rets r next

/-- What the requests `evs` make of the stages. -/
def Leads (evs : List Ev) (st st' : Task → Stage) : Prop :=
  evs.filterMap rupConnector.req = [] ∧ st' = st ∨
    ∃ k r, evs.filterMap rupConnector.req = [(k, r)] ∧ st k = r.before ∧
      st' = Function.update st k r.after

/-- **An event and the stages**: it answers a request or not, and it makes at most one request, at
its stage. -/
theorem Trans.stages (ht : Trans u.run s e evs r s') :
    Leads evs (answered e (stage s.state)) (stage s'.state) := by
  cases ht with
  | ignored h =>
    refine Or.inl ⟨rfl, ?_⟩
    funext k
    rcases hst : s.state <;> rw [hst] at h <;> cases e <;>
      first | (cases h; done) | (cases k <;> rfl)
  | opens h => exact Or.inr ⟨.tt, .add, rfl, by rw [h]; rfl, by rw [h]; funext k; cases k <;> rfl⟩
  | closeAddingTt h | closeAddingOt h | errAddingOt h | addedOt h | closeDeling h =>
    exact Or.inl ⟨rfl, by rw [h]; funext k; cases k <;> rfl⟩
  | addedTtClose h | closeChecking h | deledOtClose h =>
    exact Or.inr ⟨.tt, .del, rfl, by rw [h]; rfl, by rw [h]; funext k; cases k <;> rfl⟩
  | addedTt h _ hcb =>
    rw [u.run_adding h] at hcb
    cases hcb
    exact Or.inl ⟨filterMap_rets 0 u, by rw [h]; funext k; cases k <;> rfl⟩
  | connect h => exact Or.inr ⟨.ot, .add, rfl, by rw [h]; rfl, by rw [h]; funext k; cases k <;> rfl⟩
  | @addedOtPending h _ k =>
    refine Or.inr ⟨.ot, .del, ?_, by rw [h]; rfl, ?_⟩
    · show (closing k ++ [Ev.delEndpoint]).filterMap request = _
      rw [List.filterMap_append, filterMap_closing]; rfl
    · rw [h]
      funext k
      split_ifs <;> cases k <;> rfl
  | @closeConnecting h k | @errConnecting h k =>
    refine Or.inr ⟨.ot, .del, ?_, by rw [h]; rfl, by rw [h]; funext k; cases k <;> rfl⟩
    show (closing k ++ [Ev.delEndpoint]).filterMap request = _
    rw [List.filterMap_append, filterMap_closing]; rfl
  | connected h =>
    exact Or.inr ⟨.ot, .del, rfl, by rw [h]; rfl, by rw [h]; funext k; cases k <;> rfl⟩
  | @errDeling h k => exact Or.inl ⟨filterMap_closing k, by rw [h]; funext k; cases k <;> rfl⟩
  | @deledOtPending h _ k =>
    refine Or.inr ⟨.tt, .del, ?_, by rw [h]; rfl, by rw [h]; funext k; cases k <;> rfl⟩
    show (closing k ++ [Ev.delTimer]).filterMap request = _
    rw [List.filterMap_append, filterMap_closing]; rfl
  | @deledOt h _ k _ eps =>
    refine Or.inl ⟨?_, by rw [h]; funext k; cases k <;> rfl⟩
    split_ifs
    · rfl
    · exact filterMap_handOff k eps
  | deledTt h hcb =>
    rw [u.run_deling h] at hcb
    cases hcb
    exact Or.inl ⟨filterMap_rets (-1) u, by rw [h]; funext k; cases k <;> rfl⟩

/-- **Calls of other threads.** -/
theorem inv_user (hI : Inv ⟨s, ntf⟩) (ht : Trans u.run s e evs r s')
    (he : ∀ st k, answered e st k = st k) {ev : Ev}
    (hev : request ev = none) : Inv ⟨s', rupConnector.submit ntf (evs ++ [ev])⟩ := by
  have h1 := Trans.stages ht
  rw [show answered e (stage s.state) = stage s.state from funext fun k => he _ k] at h1
  rw [rupConnector.submit_append hev]
  exact rupConnector.fits_submit hI h1

theorem inv_post {st : Stage} {n : Ntf Post} (hI : Inv ⟨s, ntf⟩) (hn : rupConnector.Fits k st n)
    (hst : answered e (stage s.state) = Function.update (stage s.state) k st)
    (ht : Trans u.run s e evs r s') :
    Inv ⟨s', rupConnector.submit (Function.update ntf k n) evs⟩ := by
  have h1 := rupConnector.fits_update hI hn
  rw [← hst] at h1
  exact rupConnector.fits_submit h1 (Trans.stages ht)

/-- **Callbacks.** What is left of the notifier after the callback is taken fits the stage after its
answer. -/
theorem inv_callback (hI : Inv ⟨s, ntf⟩) (htodo : (ntf k).todo = p :: ps)
    (h : callback p i s = ⟨evs, .ok s'⟩) :
    Inv ⟨s', rupConnector.submit (Function.update ntf k { ntf k with todo := ps }) evs⟩ := by
  have hk : rupConnector.Fits k (stage s.state k) (ntf k) := hI k
  obtain ⟨hst, hadd, hn⟩ | ⟨hst, hdel, hn⟩ | ⟨he, hn⟩ := hk.pop htodo
  · rw [hn]
    have hidle : rupConnector.Fits k .registered ⟨true, 0, 0, []⟩ := Class.idle
    cases k with
    | ot =>
      cases hadd
      obtain ⟨r, h1⟩ := posting_ok h
      exact inv_post hI hidle (by funext k; cases k <;> simp [answered, hst]) (post_trans h1)
    | tt =>
      cases hadd
      obtain ⟨r, h1⟩ := posting_ok h
      exact inv_post hI hidle (by funext k; cases k <;> simp [answered, hst]) (post_trans h1)
  · rw [hn]
    have hclean : rupConnector.Fits k .out ⟨false, 0, 0, []⟩ := rfl
    cases k with
    | ot =>
      cases hdel
      obtain ⟨r, h1⟩ := posting_ok h
      exact inv_post hI hclean (by funext k; cases k <;> simp [answered, hst]) (post_trans h1)
    | tt =>
      cases hdel
      obtain ⟨r, h1⟩ := posting_ok h
      exact inv_post hI hclean (by funext k; cases k <;> simp [answered, hst]) (post_trans h1)
  · have hsame : Function.update (stage s.state) k (stage s.state k) = stage s.state :=
      Function.update_eq_self k _
    have hevt : p = .outputEvt ∨ p = .ioError ∨ p = .onTimer := by
      cases k <;> simp [rupConnector] at he <;> tauto
    obtain rfl | rfl | rfl := hevt
    · obtain ⟨r, h1⟩ := posting_ok h
      exact inv_post (e := .eeConnected) hI hn hsame.symm (post_trans h1)
    · obtain ⟨r, h1⟩ := posting_ok h
      exact inv_post (e := .eeInternalErr) hI hn hsame.symm (post_trans h1)
    · rcases hc : i.connect with _ | c
      · simp only [callback, hc] at h
        cases h
        rw [rupConnector.submit_nil rfl]
        have h1 := rupConnector.fits_update hI hn
        rwa [hsame] at h1
      · simp only [callback, hc] at h
        obtain ⟨r, h1⟩ := posting_ok h
        exact inv_post (e := .eeConnect c) hI hn hsame.symm (post_trans h1)

theorem inv_update {w : Conn} {n : Ntf Post} (hI : Inv w)
    (hn : rupConnector.Fits k (stage w.obj.state k) n) :
    Inv ⟨w.obj, Function.update w.ntf k n⟩ := by
  have h1 := rupConnector.fits_update hI hn
  rwa [Function.update_eq_self] at h1

/-- **Every step keeps what the notifiers hold.** -/
theorem inv_step (a : Step) :
    Eff.Triple (fun _ w => Inv w ∧ Registers w a) (rupConnector.step a) (fun _ w => Inv w)
    fun _ x => x ≠ .erase ∧ x ≠ .insert := by
  refine rupConnector.step_triple (fun log w evs w' ⟨hI, hc⟩ hm => ?_)
    fun log w evs x ⟨hI, hc⟩ hf => ?_
  · cases hm with
    | idle => exact hI
    | user c hcall =>
      cases c with
      | openEp sp =>
        obtain ⟨r, evs1, ht, rfl⟩ := openEp_ok hcall
        exact inv_user (u := .done) hI ht (fun _ _ => rfl) rfl
      | close =>
        obtain ⟨r, evs1, ht, rfl⟩ := close_ok hcall
        exact inv_user (u := .done) hI ht (fun _ _ => rfl) rfl
    | takeDel k ht hd hin => exact inv_update hI ((hI k).del hd).2
    | @takeAdd k ok ts ht ha hts =>
      have hok : ok = true := by
        cases k with
        | ot => exact hc ha
        | tt => cases ok <;> first | rfl | cases hts
      subst hok
      exact inv_update hI (((hI k).add ha).2 ts hts)
    | collect k ht hin he => exact inv_update hI ((hI k).collect ht hin he (by cases k <;> nofun))
    | callback k ht hcall => exact inv_callback hI ht hcall
  · cases hf with
    | erase k hd hin => rw [((hI k).del hd).1] at hin; cases hin
    | insert k ha hin => rw [((hI k).add ha).1] at hin; cases hin
    | user | callback | handleDel | handleAdd => exact ⟨nofun, nofun⟩

/-! ## The runs -/

/-- Whether a callback answers a request. -/
def Post.isAnswer : Post → Bool
  | .outputEvt => false
  | .ioError => false
  | .onTimer => false
  | _ => true

/-- How many requests are outstanding with a notifier, or their answers. -/
def outstanding (n : Ntf Post) : ℕ := n.adds + n.dels + (n.todo.filter Post.isAnswer).length

/-- The request whose answer the connector waits for. -/
def awaits : St → Option (Task × Req)
  | .esAddingIntoTt => some (.tt, .add)
  | .esDelingFromTt => some (.tt, .del)
  | .esAddingIntoOt => some (.ot, .add)
  | .esDelingFromOtClose => some (.ot, .del)
  | .esDelingFromOtNormal => some (.ot, .del)
  | .esClosed => none
  | .esCheckingTimer => none
  | .esConnecting => none

/-- The callback that answers a request. -/
def answer : Task → Req → Post
  | .ot, .add => .addedIntoOt
  | .ot, .del => .deledFromOt
  | .tt, .add => .addedIntoTt
  | .tt, .del => .deledFromTt

/-- The event the answer posts. -/
def answerEvt (dqIdleEndpoints : List Bool) : Task → Req → Evt
  | .ot, .add => .eeAddedIntoOt
  | .ot, .del => .eeDeledFromOt dqIdleEndpoints
  | .tt, .add => .eeAddedIntoTt
  | .tt, .del => .eeDeledFromTt

/-- The request is in its cache, or its answer is on its way. -/
def Pending (n : Ntf Post) (k : Task) : Req → Prop
  | .add => n.adds = 1 ∨ answer k .add ∈ n.todo
  | .del => n.dels = 1 ∨ answer k .del ∈ n.todo

/-- What the connector waits for is the one thing outstanding, and the answer takes it out of the
state. -/
def Awaited (w : Conn) : Prop :=
  match awaits w.obj.state with
  | none => ∀ k, outstanding (w.ntf k) = 0
  | some (k, r) =>
    (outstanding (w.ntf k) = 1 ∧ Pending (w.ntf k) k r) ∧
      (∀ k', k' ≠ k → outstanding (w.ntf k') = 0) ∧
      ∀ cb eps, ∃ st fn, initSm cb w.obj.state (answerEvt eps k r) = some ⟨st, fn⟩ ∧
        st ≠ w.obj.state

variable {n : Ntf Post}

theorem quiet_answers {ts : List Post} (h : rupConnector.Quiet k ts) :
    ts.filter Post.isAnswer = [] := by
  obtain rfl | ⟨p, he, rfl⟩ := h
  · rfl
  · cases k <;> simp [rupConnector] at he
    · obtain rfl | rfl := he <;> rfl
    · subst he; rfl

theorem fits_none (h : rupConnector.Fits k .out n ∨ rupConnector.Fits k .registered n) :
    outstanding n = 0 := by
  obtain h | ⟨ts, hts, rfl⟩ := h
  · obtain rfl : n = .clean := h
    rfl
  · simp [outstanding, quiet_answers hts]

theorem fits_one {q : Req} (h : rupConnector.Fits k q.after n) :
    outstanding n = 1 ∧ Pending n k q := by
  cases q with
  | add =>
    obtain rfl | ⟨ts, hts, rfl⟩ := h
    · exact ⟨rfl, Or.inl rfl⟩
    · cases k <;> cases hts <;> exact ⟨rfl, Or.inr (by simp [answer])⟩
  | del =>
    obtain ⟨ts, hts, rfl⟩ | rfl := h
    · exact ⟨by simp [outstanding, quiet_answers hts], Or.inl rfl⟩
    · cases k <;> exact ⟨rfl, Or.inr (by simp [answer, rupConnector])⟩

theorem Inv.awaiting {w : Conn} (h : Inv w) : Awaited w := by
  have ho := h .ot
  have ht := h .tt
  unfold Awaited
  rcases hst : w.obj.state <;> rw [hst] at ho ht <;> simp only [awaits]
  case esClosed =>
    rintro (_ | _)
    · exact fits_none (Or.inl ho)
    · exact fits_none (Or.inl ht)
  case esCheckingTimer =>
    rintro (_ | _)
    · exact fits_none (Or.inl ho)
    · exact fits_none (Or.inr ht)
  case esConnecting =>
    rintro (_ | _)
    · exact fits_none (Or.inr ho)
    · exact fits_none (Or.inr ht)
  case esAddingIntoTt =>
    refine ⟨fits_one ht, ?_, fun cb eps => ⟨_, _, rfl, nofun⟩⟩
    rintro (_ | _) hk
    · exact fits_none (Or.inl ho)
    · exact absurd rfl hk
  case esDelingFromTt =>
    refine ⟨fits_one ht, ?_, fun cb eps => ⟨_, _, rfl, nofun⟩⟩
    rintro (_ | _) hk
    · exact fits_none (Or.inl ho)
    · exact absurd rfl hk
  case esAddingIntoOt =>
    refine ⟨fits_one ho, ?_, fun cb eps => ⟨_, _, rfl, nofun⟩⟩
    rintro (_ | _) hk
    · exact absurd rfl hk
    · exact fits_none (Or.inr ht)
  case esDelingFromOtClose | esDelingFromOtNormal =>
    refine ⟨fits_one ho, ?_, fun cb eps => ⟨_, _, rfl, nofun⟩⟩
    rintro (_ | _) hk
    · exact absurd rfl hk
    · exact fits_none (Or.inr ht)

/-- **The connector never gets stuck** in a run in which no output registration fails: in each of
its transient states exactly one request is outstanding with the two notifiers, or its answer, it is
the one the state waits for, and the answer takes the connector out of the state; in the other
states nothing is outstanding. No assert of a notifier fails. -/
theorem awaited (as : List Step) (h : Proc.Meets rupConnector.step Registers start as) :
    (∀ x, (run as).fault = some x → x ≠ .erase ∧ x ≠ .insert) ∧
    ((run as).fault = none → Awaited (run as).obj) := by
  have h0 : Proc.Holds (fun _ => Inv) (fun _ x => x ≠ .erase ∧ x ≠ .insert) start := by
    rintro (_ | _) <;> rfl
  have h1 := Proc.run_inv inv_step h0 h
  refine ⟨fun x hx => h1.dead hx, fun hf => ?_⟩
  have hI : Inv (run as).obj := h1.alive hf
  exact hI.awaiting

/-- The connector is opened and starts a connection at the first tick. -/
def connecting : List Step :=
  [.user (.openEp ⟨"10.0.0.1", 8888, 1000000⟩), .takeAdd .tt true, .callback .tt {},
    .collect .tt .onTimer, .callback .tt { connect := some ⟨3, true⟩ }]

theorem awaited_connecting : (run connecting).obj.obj.state = .esAddingIntoOt ∧
    Awaited (run connecting).obj :=
  ⟨by decide, (awaited connecting (by decide)).2 (by decide)⟩

/-- The registration with the output task fails, and then the connector is closed. -/
def stuck : List Step := connecting ++ [.takeAdd .ot false, .callback .ot {}, .user .close]

/-- The `close` is accepted, and nothing is on its way that could take the connector out of
`ES_ADDING_INTO_OT`. -/
theorem nothing_awaited :
    ((run stuck).fault = none ∧ (run stuck).obj.obj.state = .esAddingIntoOt ∧
      Ev.closeRet 0 ∈ (run stuck).log) ∧
      outstanding ((run stuck).obj.ntf .ot) = 0 ∧ outstanding ((run stuck).obj.ntf .tt) = 0 := by
  decide

end SmartNet.Endpoint.ConnectorRegistrations

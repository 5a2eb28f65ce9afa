import Mathlib.Logic.Function.Basic
import SmartNet.Endpoint.RupRegistrations

/-! # The hand-off of connections

Acceptors and connectors (the helpers) with their endpoints: each helper has a deque of idle
endpoints under a lock of its own, each endpoint a state under the lock of its state machine. The
loop that hands an established connection on, in `CRupAcceptor::handle_input_evt` and in
`CRupConnector::handling_deling_from_ot_normal_to_checking_timer`, takes the two locks one after the
other; other threads call the endpoints in between. What a connector does in front of its loop is
not part of these steps.

* A call of an endpoint decides what it does under the lock of the endpoint, and nothing of it
  depends on the deque: its operations on the deque are noted in `todo` and performed one by one,
  with steps of other threads in between, before the lock is free again.
* `Moves`: everything a step can do (`step_moves`); `step_fails`: the ways a step ends the
  process. -/

namespace SmartNet.Endpoint.Handoff

open SmartNet.Lib SmartNet.Utils.StateMachine SmartNet.Endpoint.RupEndpoint SmartNet.Endpoint.Types
open SmartNet.Endpoint.RupRegistrations

/-! ## The deque of idle endpoints -/

section Deque

variable {ι : Type} [DecidableEq ι]

/-- `add_endpoint` of the helpers. -/
def addEndpoint (pTcpEp : ι) (dqIdleEndpoints : List ι) : List ι := dqIdleEndpoints ++ [pTcpEp]

/-- `del_endpoint` of the helpers: `bFlag`, and the deque. -/
def delEndpoint (pTcpEp : ι) : List ι → Bool × List ι
  | [] => (false, [])
  | i :: rest =>
    if i = pTcpEp then (true, rest)
    else ((delEndpoint pTcpEp rest).1, i :: (delEndpoint pTcpEp rest).2)

theorem delEndpoint_eq (i : ι) : ∀ dq : List ι, delEndpoint i dq = (decide (i ∈ dq), dq.erase i)
  | [] => rfl
  | j :: rest => by
    by_cases h : j = i
    · simp [delEndpoint, h]
    · have hb : (j == i) = false := by simpa using h
      have hi : ¬ i = j := fun h' => h h'.symm
      simp [delEndpoint, h, hi, hb, delEndpoint_eq i rest]

end Deque

/-! ## The calls of an endpoint -/

/-- An operation on the deque, or the end of the process, in a call of an endpoint. -/
inductive DequeOp
  | add
  | del
  | fail (f : Fault)
  deriving DecidableEq

/-- The calls of other threads and of the io tasks. -/
inductive Call
  | openEp
  | close (onClosed : UserCode)
  | internalErr
  | addedInto (t : IoType) (user : UserCode)
  | deledFrom (t : IoType) (user : UserCode)
  deriving DecidableEq

def Call.run : Call → CRupEndpoint → Eff Ev Fault CRupEndpoint
  | .openEp, s => RupEndpoint.openEp s
  | .close u, s => RupEndpoint.close u.run s
  | .internalErr, s => posting (postEvt pure s .eeInternalErr)
  | .addedInto t u, s => posting (postEvt u.run s (addedEvt t))
  | .deledFrom t u, s => posting (postEvt u.run s (deledEvt t))

def dequeOps (evs : List Ev) : List DequeOp :=
  evs.filterMap fun
    | .addToHelper => some .add
    | .delFromHelper => some .del
    | _ => none

def closedSocks (evs : List Ev) : List ℕ :=
  evs.filterMap fun
    | .sockClose n => some n
    | _ => none

/-- The operations on the deque that a call makes. -/
def todoOf (x : Eff Ev Fault CRupEndpoint) : List DequeOp :=
  dequeOps x.evs ++
    match x.res with
    | .ok _ => []
    | .error f => [.fail f]

/-- The endpoint after a call. -/
def after (s : CRupEndpoint) (x : Eff Ev Fault CRupEndpoint) : CRupEndpoint :=
  match x.res with
  | .ok s' => s'
  | .error _ => s

/-! ## The steps -/

/-- A hand-off loop: not running; about to look into the deque for the connection it has; with the
endpoint it has popped. -/
inductive Loop (ι : Type)
  | idle
  | looking (pNewSock : ℕ)
  | popped (pNewSock : ℕ) (pTcpEp : ι)
  deriving DecidableEq

/-- The connection in the hands of a loop. -/
def Loop.sock {ι : Type} : Loop ι → Option ℕ
  | .idle => none
  | .looking n => some n
  | .popped n _ => some n

/-- The endpoint in the hands of a loop. -/
def Loop.ep {ι : Type} : Loop ι → Option ι
  | .popped _ i => some i
  | _ => none

/-- Helpers `κ` and endpoints `ι`; `closed` are the sockets that have been closed, those from
`nextSock` on are not established yet. -/
structure World (κ ι : Type) where
  ep : ι → CRupEndpoint
  todo : ι → List DequeOp
  dqIdleEndpoints : κ → List ι
  loop : κ → Loop ι
  nextSock : ℕ
  closed : List ℕ

inductive Step (κ ι : Type)
  | call (i : ι) (c : Call)
  | deque (i : ι)
  | established (h : κ)
  | pop (h : κ)
  | handleConnected (h : κ)

/-- An assert of an endpoint, or `CMN_ASSERT(bFlag)`. -/
inductive Crash
  | inEndpoint (f : Fault)
  | bFlag
  deriving DecidableEq

variable {κ ι : Type} [DecidableEq κ] [DecidableEq ι]

namespace World

/-- Constructed endpoints, and helpers that know none of them. -/
def init (p : ι → PendingEvt) (k : ι → KeepAlive) : World κ ι where
  ep i := RupEndpoint.init (p i) (k i)
  todo _ := []
  dqIdleEndpoints _ := []
  loop _ := .idle
  nextSock := 0
  closed := []

/-- The endpoint has decided on its call. -/
def called (w : World κ ι) (i : ι) (x : Eff Ev Fault CRupEndpoint) : World κ ι :=
  { w with
    ep := Function.update w.ep i (after (w.ep i) x)
    todo := Function.update w.todo i (todoOf x)
    closed := w.closed ++ closedSocks x.evs }

/-- An operation of the endpoint on the deque of its helper is performed. -/
def performed (w : World κ ι) (h : κ) (i : ι) (ops : List DequeOp) (dq : List ι) : World κ ι :=
  { w with
    todo := Function.update w.todo i ops
    dqIdleEndpoints := Function.update w.dqIdleEndpoints h dq }

/-- A new connection. -/
def accepted (w : World κ ι) (h : κ) : World κ ι :=
  { w with
    loop := Function.update w.loop h (.looking w.nextSock)
    nextSock := w.nextSock + 1 }

/-- The deque is empty: the connection is closed. -/
def exhausted (w : World κ ι) (h : κ) (n : ℕ) : World κ ι :=
  { w with
    loop := Function.update w.loop h .idle
    closed := w.closed ++ [n] }

/-- The first endpoint of the deque is popped. -/
def popped (w : World κ ι) (h : κ) (n : ℕ) (i : ι) (dq : List ι) : World κ ι :=
  { w with
    loop := Function.update w.loop h (.popped n i)
    dqIdleEndpoints := Function.update w.dqIdleEndpoints h dq }

/-- The popped endpoint has answered. -/
def answered (w : World κ ι) (h : κ) (i : ι) (s : CRupEndpoint) (l : Loop ι) : World κ ι :=
  { w with
    ep := Function.update w.ep i s
    loop := Function.update w.loop h l }

variable {w : World κ ι} {h : κ} {i j : ι}

omit [DecidableEq κ] in
@[simp] theorem called_ep_self (x : Eff Ev Fault CRupEndpoint) :
    (w.called i x).ep i = after (w.ep i) x := Function.update_self ..

omit [DecidableEq κ] in
theorem called_ep_ne (hj : j ≠ i) (x : Eff Ev Fault CRupEndpoint) : (w.called i x).ep j = w.ep j :=
  Function.update_of_ne hj ..

@[simp] theorem answered_ep_self (s : CRupEndpoint) (l : Loop ι) : (w.answered h i s l).ep i = s :=
  Function.update_self ..

theorem answered_ep_ne (hj : j ≠ i) (s : CRupEndpoint) (l : Loop ι) :
    (w.answered h i s l).ep j = w.ep j :=
  Function.update_of_ne hj ..

@[simp] theorem answered_ep_same (l : Loop ι) : (w.answered h i (w.ep i) l).ep = w.ep :=
  Function.update_eq_self ..

@[simp] theorem answered_loop_self (s : CRupEndpoint) (l : Loop ι) :
    (w.answered h i s l).loop h = l := Function.update_self ..

end World

variable (helper : ι → κ)

/-- A step. One that has to wait, for a lock or for the loop to come that far, changes nothing. -/
def step : Step κ ι → World κ ι → Eff Empty Crash (World κ ι)
  | .call i c, w => if w.todo i = [] then pure (w.called i (c.run (w.ep i))) else pure w
  | .deque i, w =>
    match w.todo i with
    | [] => pure w
    | .add :: ops =>
      pure (w.performed (helper i) i ops (addEndpoint i (w.dqIdleEndpoints (helper i))))
    | .del :: ops => do
      let (bFlag, dq) := delEndpoint i (w.dqIdleEndpoints (helper i))
      .require (bFlag = true) .bFlag
      pure (w.performed (helper i) i ops dq)
    | .fail f :: _ => .abort (.inEndpoint f)
  | .established h, w =>
    match w.loop h with
    | .idle => pure (w.accepted h)
    | _ => pure w
  | .pop h, w =>
    match w.loop h, w.dqIdleEndpoints h with
    | .looking n, [] => pure (w.exhausted h n)
    | .looking n, i :: dq => pure (w.popped h n i dq)
    | _, _ => pure w
  | .handleConnected h, w =>
    match w.loop h with
    | .popped n i =>
      if w.todo i = [] then
        match (postEvt pure (w.ep i) (.eeConnected n)).res with
        | .ok (r, s) => pure (w.answered h i s (if r = 0 then .idle else .looking n))
        | .error f => .abort (.inEndpoint f)
      else pure w
    | _ => pure w

/-- The process after the steps. -/
def run (w : World κ ι) (as : List (Step κ ι)) : Proc (World κ ι) Empty Crash :=
  Proc.run (step helper) { obj := w } as

/-! ## What a step can do -/

/-- The step has to wait: the lock of the endpoint is taken, there is nothing to perform, or the
loop is elsewhere. -/
def Waits (w : World κ ι) : Step κ ι → Prop
  | .call i _ => w.todo i ≠ []
  | .deque i => w.todo i = []
  | .established h => w.loop h ≠ .idle
  | .pop h => ∀ n, w.loop h ≠ .looking n
  | .handleConnected h => ∀ n i, w.loop h = .popped n i → w.todo i ≠ []

/-- Everything a step that does not end the process can do. -/
inductive Moves (w : World κ ι) : Step κ ι → World κ ι → Prop
  | waits {a : Step κ ι} (ha : Waits w a) : Moves w a w
  | call {i : ι} (c : Call) (hq : w.todo i = []) : Moves w (.call i c) (w.called i (c.run (w.ep i)))
  | add {i : ι} {ops : List DequeOp} (ht : w.todo i = .add :: ops) :
      Moves w (.deque i) (w.performed (helper i) i ops (w.dqIdleEndpoints (helper i) ++ [i]))
  | del {i : ι} {ops : List DequeOp} (ht : w.todo i = .del :: ops)
      (hm : i ∈ w.dqIdleEndpoints (helper i)) :
      Moves w (.deque i) (w.performed (helper i) i ops ((w.dqIdleEndpoints (helper i)).erase i))
  | established {h : κ} (hl : w.loop h = .idle) : Moves w (.established h) (w.accepted h)
  | exhausted {h : κ} {n : ℕ} (hl : w.loop h = .looking n) (hd : w.dqIdleEndpoints h = []) :
      Moves w (.pop h) (w.exhausted h n)
  | popped {h : κ} {n : ℕ} {i : ι} {dq : List ι} (hl : w.loop h = .looking n)
      (hd : w.dqIdleEndpoints h = i :: dq) :
      Moves w (.pop h) (w.popped h n i dq)
  | connected {h : κ} {n : ℕ} {i : ι} (hl : w.loop h = .popped n i) (hq : w.todo i = [])
      (hst : (w.ep i).state = .esAddedIntoHelper) (hs : (w.ep i).pSock = none) :
      Moves w (.handleConnected h)
        (w.answered h i { w.ep i with state := .esAddingIntoOt, pSock := some n } .idle)
  | refused {h : κ} {n : ℕ} {i : ι} (hl : w.loop h = .popped n i) (hq : w.todo i = [])
      (hst : (w.ep i).state ≠ .esAddedIntoHelper) :
      Moves w (.handleConnected h) (w.answered h i (w.ep i) (.looking n))

/-- The ways a step ends the process. -/
inductive Fails (w : World κ ι) : Step κ ι → Crash → Prop
  | inCall {i : ι} {f : Fault} {ops : List DequeOp} (ht : w.todo i = .fail f :: ops) :
      Fails w (.deque i) (.inEndpoint f)
  | bFlag {i : ι} {ops : List DequeOp} (ht : w.todo i = .del :: ops)
      (hm : i ∉ w.dqIdleEndpoints (helper i)) :
      Fails w (.deque i) .bFlag
  | sockNotNull {h : κ} {n : ℕ} {i : ι} (hl : w.loop h = .popped n i) (hq : w.todo i = [])
      (hst : (w.ep i).state = .esAddedIntoHelper) (hs : (w.ep i).pSock ≠ none) :
      Fails w (.handleConnected h) (.inEndpoint .sockNotNull)

variable {helper} {w w' : World κ ι} {a : Step κ ι} {f : Crash} {evs : List Empty}

/-- What `handle_connected` answers: a waiting endpoint takes the connection, any other refuses
it. -/
theorem handleConnected_ok {s s' : CRupEndpoint} {n : ℕ} {r : ℤ}
    (h : (postEvt pure s (.eeConnected n)).res = .ok (r, s')) :
    (r = 0 ∧ s.state = .esAddedIntoHelper ∧ s.pSock = none ∧
      s' = { s with state := .esAddingIntoOt, pSock := some n }) ∨
      (r = -1 ∧ s.state ≠ .esAddedIntoHelper ∧ s' = s) := by
  rcases hx : postEvt pure s (.eeConnected n) with ⟨evs, res⟩
  rw [hx] at h
  have h' : res = .ok (r, s') := h
  rw [h'] at hx
  cases post_trans hx with
  | ignored hig =>
    have hst : s.state ≠ .esAddedIntoHelper := by
      intro hst
      rw [hst] at hig
      cases hig
    exact Or.inr ⟨rfl, hst, rfl⟩
  | connected hst hs => exact Or.inl ⟨rfl, hst, hs, rfl⟩
  | tearsDown _ he => rcases he with he | he <;> cases he

theorem handleConnected_error {s : CRupEndpoint} {n : ℕ} {e : Fault}
    (h : (postEvt pure s (.eeConnected n)).res = .error e) :
    e = .sockNotNull ∧ s.state = .esAddedIntoHelper ∧ s.pSock ≠ none := by
  obtain ⟨st, p, sock, ka⟩ := s
  cases st <;> try cases h
  rcases sock with _ | m <;> cases h
  exact ⟨rfl, rfl, Option.some_ne_none m⟩

/-- **Everything a step can do** when the process goes on. -/
theorem step_moves (h : (step helper a w).res = .ok w') : Moves helper w a w' := by
  cases a with
  | call i c =>
    simp only [step] at h
    split_ifs at h with hq <;> cases h
    · exact .call c hq
    · exact .waits hq
  | deque i =>
    rcases ht : w.todo i with _ | ⟨_ | _ | e, ops⟩ <;> simp only [step, ht] at h
    · cases h; exact .waits ht
    · cases h; exact .add ht
    · rw [delEndpoint_eq] at h
      by_cases hm : i ∈ w.dqIdleEndpoints (helper i)
      · rw [Eff.require_pos (by simpa using hm)] at h
        cases h; exact .del ht hm
      · rw [Eff.require_neg (by simpa using hm)] at h
        cases h
    · cases h
  | established k =>
    by_cases hl : w.loop k = .idle
    · simp only [step, hl] at h
      cases h; exact .established hl
    · have hw : w' = w := by
        rcases hl' : w.loop k with _ | n | ⟨n, i⟩ <;> simp only [step, hl'] at h <;> cases h
        · exact absurd hl' hl
        · rfl
        · rfl
      rw [hw]
      exact .waits hl
  | pop k =>
    rcases hl : w.loop k with _ | n | ⟨n, i⟩
    · simp only [step, hl] at h
      cases h; exact .waits fun m hm => by rw [hl] at hm; cases hm
    · rcases hd : w.dqIdleEndpoints k with _ | ⟨j, dq⟩ <;> simp only [step, hl, hd] at h <;> cases h
      · exact .exhausted hl hd
      · exact .popped hl hd
    · simp only [step, hl] at h
      cases h; exact .waits fun m hm => by rw [hl] at hm; cases hm
  | handleConnected k =>
    rcases hl : w.loop k with _ | n | ⟨n, i⟩ <;> simp only [step, hl] at h
    · cases h; exact .waits fun m j hm => by rw [hl] at hm; cases hm
    · cases h; exact .waits fun m j hm => by rw [hl] at hm; cases hm
    · split_ifs at h with hq
      · rcases hx : (postEvt pure (w.ep i) (.eeConnected n)).res with e | ⟨r, s⟩ <;>
          simp only [hx] at h <;> cases h
        obtain ⟨rfl, hst, hs, rfl⟩ | ⟨rfl, hst, rfl⟩ := handleConnected_ok hx
        · exact .connected hl hq hst hs
        · exact .refused hl hq hst
      · cases h
        refine .waits fun m j hm => ?_
        rw [hl] at hm
        cases hm
        exact hq

/-- **Every way a step ends the process.** -/
theorem step_fails (h : (step helper a w).res = .error f) : Fails helper w a f := by
  cases a with
  | call i c =>
    simp only [step] at h
    split_ifs at h
  | deque i =>
    rcases ht : w.todo i with _ | ⟨_ | _ | e, ops⟩ <;> simp only [step, ht] at h
    · cases h
    · cases h
    · rw [delEndpoint_eq] at h
      by_cases hm : i ∈ w.dqIdleEndpoints (helper i)
      · rw [Eff.require_pos (by simpa using hm)] at h
        cases h
      · rw [Eff.require_neg (by simpa using hm)] at h
        cases h; exact .bFlag ht hm
    · cases h; exact .inCall ht
  | established k =>
    rcases hl : w.loop k with _ | n | ⟨n, i⟩ <;> simp only [step, hl] at h <;> cases h
  | pop k =>
    rcases hl : w.loop k with _ | n | ⟨n, i⟩ <;>
      rcases hd : w.dqIdleEndpoints k with _ | ⟨j, dq⟩ <;>
      simp only [step, hl, hd] at h <;> cases h
  | handleConnected k =>
    rcases hl : w.loop k with _ | n | ⟨n, i⟩ <;> simp only [step, hl] at h
    · cases h
    · cases h
    · split_ifs at h with hq
      rcases hx : (postEvt pure (w.ep i) (.eeConnected n)).res with e | ⟨r, s⟩ <;>
        simp only [hx] at h <;> cases h
      obtain ⟨rfl, hst, hs⟩ := handleConnected_error hx
      exact .sockNotNull hl hq hst hs

end SmartNet.Endpoint.Handoff

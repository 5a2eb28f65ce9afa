import Mathlib.Logic.Function.Basic
import SmartNet.Endpoint.Handoff
import SmartNet.Endpoint.RupConnector
import SmartNet.Lib.Ownership

/-! # The owners of the connections

An established connection is in the hands of the loop that hands it on until an endpoint takes it or
the deque runs out; an endpoint keeps it as `m_pSock` until it has closed it. Whatever is in the
deques, in whatever state the endpoints are: no connection has two owners, none is lost, and an
endpoint that waits is not passed over.

* `own`: what the loops and the endpoints hold; `trans_sock`: what a call does to `m_pSock`;
* `inv_moves`: the steps; `one_owner`: the runs;
* `connector_branches`, `loop_alone`: how a connector comes to its loop, and the loop by itself. -/

namespace SmartNet.Endpoint.SocketOwners

open SmartNet.Lib SmartNet.Lib.Ownership SmartNet.Utils.StateMachine SmartNet.Endpoint.RupEndpoint
open SmartNet.Endpoint.Types
open SmartNet.Endpoint.Handoff

/-! ## The calls of an endpoint -/

/-- The teardown has begun. -/
def Torn (s : CRupEndpoint) : Prop := s.state = .esDelingFromIt ∨ s.state = .esDelingFromOt

/-- What a call does to `m_pSock`: it is reset at the end of a teardown only, which begins with
closing the socket. -/
structure SockKept (s : CRupEndpoint) (evs : List Ev) (s' : CRupEndpoint) : Prop where
  sock : s'.pSock = s.pSock ∨ s'.pSock = none ∧ Torn s
  torn : Torn s' → Torn s ∨ ∀ n, s.pSock = some n → n ∈ closedSocks evs

variable {s s' : CRupEndpoint} {u : UserCode} {e : Evt} {evs evs' : List Ev} {r : ℤ}

theorem SockKept.same (h : s'.pSock = s.pSock) (ht : ¬ Torn s') : SockKept s evs s' :=
  ⟨Or.inl h, fun h' => absurd h' ht⟩

theorem SockKept.append (h : SockKept s evs s') : SockKept s (evs ++ evs') s' := by
  constructor
  · exact h.sock
  · intro ht
    rcases h.torn ht with ht | hc
    · exact Or.inl ht
    · refine Or.inr fun n hn => ?_
      unfold closedSocks
      rw [List.filterMap_append]
      exact List.mem_append_left _ (hc n hn)

theorem not_torn
    (h : s.state = .esClosed ∨ s.state = .esAddedIntoHelper ∨ s.state = .esAddingIntoOt ∨
      s.state = .esAddingIntoIt ∨
    s.state = .esOpened) : ¬ Torn s := by
  rintro (ht | ht) <;> rw [ht] at h <;> simp at h

theorem not_torn_resting (h : Resting s) : ¬ Torn s := by
  rcases h with h | h
  · exact not_torn (Or.inl h)
  · exact not_torn (Or.inr (Or.inl h))

/-- **What an event does to `m_pSock`**, a connection apart. -/
theorem trans_sock (ht : Trans u.run s e evs r s') (he : ∀ n, e ≠ .eeConnected n) :
    SockKept s evs s' := by
  cases ht with
  | ignored => exact ⟨Or.inl rfl, Or.inl⟩
  | opens => exact .same rfl (not_torn (by simp))
  | closeWaiting h hs hc =>
    obtain ⟨hr, -, -⟩ := u.run_resting (Or.inl rfl) hc
    exact .same hs.symm (not_torn_resting hr)
  | connected h hs n => exact absurd rfl (he n)
  | closeAddingOt h | closeAddingIt h | errAddingIt h => exact .same rfl (not_torn (by simp [h]))
  | errAddingOt | addedOt => exact .same rfl (not_torn (by simp))
  | addedOtClose h hp hs | addedItPending h hp hs | tearsDown h he hs =>
    refine ⟨Or.inl rfl, fun _ => Or.inr fun n hn => ?_⟩
    rw [hs] at hn
    cases hn
    exact List.mem_cons_self
  | addedIt h hp hc =>
    rw [u.run_adding h] at hc
    cases hc
    exact .same rfl (not_torn (by simp))
  | deledIt h => exact ⟨Or.inl rfl, fun _ => Or.inl (Or.inl h)⟩
  | deledOt h hc =>
    obtain ⟨hr, -, -⟩ := u.run_resting (Or.inl rfl) hc
    exact ⟨Or.inr ⟨rfl, Or.inr h⟩, fun h' => absurd h' (not_torn_resting hr)⟩

theorem posting_sock (h : posting (postEvt u.run s e) = ⟨evs, .ok s'⟩)
    (he : ∀ n, e ≠ .eeConnected n) : SockKept s evs s' := by
  obtain ⟨r, h1⟩ := posting_ok h
  exact trans_sock (post_trans h1) he

/-- **What a call does to `m_pSock`.** -/
theorem call_sock (c : Call) (s : CRupEndpoint) : SockKept s (c.run s).evs (after s (c.run s)) := by
  rcases h : c.run s with ⟨evs, f | s'⟩
  · exact ⟨Or.inl rfl, Or.inl⟩
  · show SockKept s evs s'
    cases c with
    | openEp =>
      obtain ⟨r, evs1, ht, rfl⟩ := openEp_ok h
      exact (trans_sock (u := .done) ht nofun).append
    | close u =>
      obtain ⟨r, evs1, ht, rfl⟩ := close_ok h
      exact (trans_sock ht nofun).append
    | internalErr => exact posting_sock (u := .done) h nofun
    | addedInto t u => cases t <;> exact posting_sock h nofun
    | deledFrom t u => cases t <;> exact posting_sock h nofun

/-! ## Owners -/

variable {κ ι : Type} [DecidableEq κ] [DecidableEq ι] {helper : ι → κ} {w w' : World κ ι}
  {a : Step κ ι} {lo : ℕ}

/-- The connections that the loops and the endpoints hold. -/
def own (w : World κ ι) : κ ⊕ ι → Option ℕ :=
  Sum.elim (fun h => (w.loop h).sock) fun i => (w.ep i).pSock

theorem own_loop {h : κ} {l : Loop ι} (hep : w'.ep = w.ep)
    (hl : w'.loop = Function.update w.loop h l) :
    own w' = Function.update (own w) (.inl h) l.sock := by
  funext o
  rcases o with k | i
  · show (w'.loop k).sock = _
    rw [hl]
    by_cases hk : k = h
    · subst hk
      rw [Function.update_self, Function.update_self]
    · rw [Function.update_of_ne hk, Function.update_of_ne fun hk' => hk (Sum.inl.inj hk')]
      rfl
  · show (w'.ep i).pSock = _
    rw [hep, Function.update_of_ne (by simp)]
    rfl

theorem own_ep {i : ι} {s : CRupEndpoint} (hl : w'.loop = w.loop)
    (hep : w'.ep = Function.update w.ep i s) :
    own w' = Function.update (own w) (.inr i) s.pSock := by
  funext o
  rcases o with k | j
  · show (w'.loop k).sock = _
    rw [hl, Function.update_of_ne (by simp)]
    rfl
  · show (w'.ep j).pSock = _
    rw [hep]
    by_cases hj : j = i
    · subst hj
      rw [Function.update_self, Function.update_self]
    · rw [Function.update_of_ne hj, Function.update_of_ne fun hj' => hj (Sum.inr.inj hj')]
      rfl

theorem own_answered (w : World κ ι) (h : κ) (i : ι) (s : CRupEndpoint) (l : Loop ι) :
    own (w.answered h i s l) = Function.update (Function.update (own w) (.inl h) l.sock)
      (.inr i) s.pSock := by
  have hloop : own { w with loop := Function.update w.loop h l } = Function.update (own w) (.inl h)
    l.sock := own_loop rfl rfl
  rw [← hloop]
  exact own_ep rfl rfl

omit [DecidableEq κ] [DecidableEq ι] in
theorem own_inl {h : κ} {l : Loop ι} (hl : w.loop h = l) : own w (.inl h) = l.sock := by
  rw [← hl]; rfl

theorem own_same {h : κ} {l : Loop ι} (hl : w.loop h = l) (l' : Loop ι) (hs : l'.sock = l.sock) :
    Function.update (own w) (.inl h) l'.sock = own w := by
  rw [hs, ← own_inl hl, Function.update_eq_self]

/-- The connections from `lo` on are accounted for, and what an endpoint holds in its teardown is
closed. -/
structure Inv (lo : ℕ) (w : World κ ι) : Prop where
  held : Held lo w.nextSock (· ∈ w.closed) (own w)
  torn : ∀ i n, Torn (w.ep i) → (w.ep i).pSock = some n → lo ≤ n → n ∈ w.closed

/-- **A call of an endpoint.** -/
theorem inv_called (hI : Inv lo w) (i : ι) (c : Call) : Inv lo (w.called i (c.run (w.ep i))) := by
  have hsock := call_sock c (w.ep i)
  have hown : own (w.called i (c.run (w.ep i))) = Function.update (own w) (.inr i)
    (after (w.ep i) (c.run (w.ep i))).pSock :=
    own_ep rfl rfl
  have hclosed : ∀ n, n ∈ w.closed → n ∈ (w.called i (c.run (w.ep i))).closed :=
    fun n hn => List.mem_append_left _ hn
  constructor
  · rw [hown]
    refine Held.mono ?_ hclosed
    rcases hsock.sock with hs | ⟨hs, ht⟩
    · rw [hs]
      have hsame : Function.update (own w) (.inr i) (w.ep i).pSock = own w :=
        Function.update_eq_self (Sum.inr i) (own w)
      rw [hsame]
      exact hI.held
    · rw [hs]
      exact hI.held.release fun n hn hlo => hI.torn i n ht hn hlo
  · intro j n ht hn hlo
    by_cases hj : j = i
    · subst hj
      rw [World.called_ep_self] at ht hn
      rcases hsock.sock with hs | ⟨hs, -⟩
      · rw [hs] at hn
        rcases hsock.torn ht with ht | hc
        · exact hclosed n (hI.torn j n ht hn hlo)
        · exact List.mem_append_right _ (hc n hn)
      · rw [hs] at hn
        cases hn
    · rw [World.called_ep_ne hj] at ht hn
      exact hclosed n (hI.torn j n ht hn hlo)

/-- **What a step keeps.** -/
theorem inv_moves (hI : Inv lo w) (hm : Moves helper w a w') : Inv lo w' := by
  cases hm with
  | waits => exact hI
  | call c => exact inv_called hI _ c
  | add | del => exact ⟨hI.held, hI.torn⟩
  | @established h hl =>
    have hown : own (w.accepted h) = Function.update (own w) (.inl h)
      (Loop.sock (.looking w.nextSock : Loop ι)) := own_loop rfl rfl
    constructor
    · rw [hown]
      exact hI.held.acquire (own_inl hl)
    · exact hI.torn
  | @exhausted h n hl hd =>
    have hown : own (w.exhausted h n) = Function.update (own w) (.inl h)
      (Loop.sock (.idle : Loop ι)) := own_loop rfl rfl
    constructor
    · rw [hown]
      refine (hI.held.mono fun m hm => List.mem_append_left _ hm).release fun m hm _ => ?_
      rw [own_inl hl] at hm
      cases hm
      exact List.mem_append_right _ List.mem_cons_self
    · intro i m ht hm hlo
      exact List.mem_append_left _ (hI.torn i m ht hm hlo)
  | @popped h n i dq hl hd =>
    have hown : own (w.popped h n i dq) = Function.update (own w) (.inl h) (Loop.popped n i).sock :=
      own_loop rfl rfl
    constructor
    · rw [hown, own_same hl (.popped n i) rfl]
      exact hI.held
    · exact hI.torn
  | @connected h n i hl hq hst hs =>
    constructor
    · rw [own_answered]
      exact hI.held.transfer (own_inl hl) hs
    · intro j m ht hm hlo
      by_cases hj : j = i
      · subst hj
        rw [World.answered_ep_self] at ht
        exact absurd ht (not_torn (by simp))
      · rw [World.answered_ep_ne hj] at ht hm
        exact hI.torn j m ht hm hlo
  | @refused h n i hl hq hst =>
    constructor
    · rw [own_answered, own_same hl (.looking n) rfl]
      have hi : own w (.inr i) = (w.ep i).pSock := rfl
      rw [← hi, Function.update_eq_self]
      exact hI.held
    · intro j m ht hm hlo
      rw [World.answered_ep_same] at ht hm
      exact hI.torn j m ht hm hlo

/-! ## What becomes of a connection -/

/-- What a step from `w` to `w'` does with the connections. -/
structure Orderly (lo : ℕ) (w : World κ ι) (a : Step κ ι) (w' : World κ ι) : Prop where
  /-- no `m_pSock` is overwritten, and it is reset only when the socket is closed -/
  kept : ∀ i n, (w.ep i).pSock = some n → (w'.ep i).pSock = some n ∨ (w'.ep i).pSock = none ∧
    (lo ≤ n → n ∈ w'.closed)
  /-- a popped endpoint takes the connection if it waits for one, and is discarded if it does not -/
  answered : ∀ h n i, a = .handleConnected h → w.loop h = .popped n i → w.todo i = [] →
    ((w.ep i).state = .esAddedIntoHelper ∧ (w.ep i).pSock = none ∧ w'.loop h = .idle ∧
      (w'.ep i).pSock = some n ∧
      (w'.ep i).state ≠ .esAddedIntoHelper) ∨
    ((w.ep i).state ≠ .esAddedIntoHelper ∧ w'.loop h = .looking n ∧ w'.ep = w.ep)
  /-- a connection for which there is no endpoint is closed -/
  exhausted : ∀ h n, a = .pop h → w.loop h = .looking n → w.dqIdleEndpoints h = [] →
    w'.loop h = .idle ∧ n ∈ w'.closed ∧ ∀ i, (w'.ep i).pSock ≠ some n

/-- **No `m_pSock` is overwritten.** -/
theorem sock_kept (hI : Inv lo w) (hm : Moves helper w a w') {i : ι} {n : ℕ}
    (hn : (w.ep i).pSock = some n) :
    (w'.ep i).pSock = some n ∨ (w'.ep i).pSock = none ∧ (lo ≤ n → n ∈ w'.closed) := by
  cases hm with
  | waits | add | del | established | exhausted | popped => exact Or.inl hn
  | @call j c hq =>
    by_cases hj : i = j
    · subst hj
      rw [World.called_ep_self]
      rcases (call_sock c (w.ep i)).sock with hs | ⟨hs, ht⟩
      · exact Or.inl (hs.trans hn)
      · exact Or.inr ⟨hs, fun hlo => List.mem_append_left _ (hI.torn i n ht hn hlo)⟩
    · rw [World.called_ep_ne hj]
      exact Or.inl hn
  | @connected h m j hl hq hst hs =>
    by_cases hj : i = j
    · subst hj
      rw [hs] at hn
      cases hn
    · rw [World.answered_ep_ne hj]
      exact Or.inl hn
  | @refused h m j hl hq hst =>
    rw [World.answered_ep_same]
    exact Or.inl hn

/-- **The answer of an endpoint.** -/
theorem step_answer {h : κ} {n : ℕ} {i : ι} (hm : Moves helper w (.handleConnected h) w')
    (hl : w.loop h = .popped n i) (hq : w.todo i = []) :
    ((w.ep i).state = .esAddedIntoHelper ∧ (w.ep i).pSock = none ∧ w'.loop h = .idle ∧
      (w'.ep i).pSock = some n ∧
      (w'.ep i).state ≠ .esAddedIntoHelper) ∨
    ((w.ep i).state ≠ .esAddedIntoHelper ∧ w'.loop h = .looking n ∧ w'.ep = w.ep) := by
  cases hm with
  | waits ha => exact absurd hq (ha n i hl)
  | connected hl' hq' hst hs =>
    rw [hl] at hl'
    cases hl'
    left
    simp [hst, hs]
  | refused hl' hq' hst =>
    rw [hl] at hl'
    cases hl'
    right
    simp [hst]

theorem step_exhausted {h : κ} {n : ℕ} (hI : Inv lo w) (hm : Moves helper w (.pop h) w')
    (hl : w.loop h = .looking n) (hd : w.dqIdleEndpoints h = []) :
    w'.loop h = .idle ∧ n ∈ w'.closed ∧ ∀ i, (w'.ep i).pSock ≠ some n := by
  cases hm with
  | waits ha => exact absurd hl (ha n)
  | exhausted hl' hd' =>
    rw [hl] at hl'
    cases hl'
    refine ⟨Function.update_self .., List.mem_append_right _ List.mem_cons_self, fun i hi => ?_⟩
    have ho : own w (.inr i) = some n := hi
    cases hI.held.unique ho (own_inl hl)
  | popped hl' hd' =>
    rw [hd] at hd'
    cases hd'

theorem orderly (hI : Inv lo w) (hm : Moves helper w a w') : Orderly lo w a w' := by
  constructor
  · intro i n hn
    exact sock_kept hI hm hn
  · intro h n i ha hl hq
    subst ha
    exact step_answer hm hl hq
  · intro h n ha hl hd
    subst ha
    exact step_exhausted hI hm hl hd

/-! ## Runs -/

/-- No loop is running, and no two endpoints hold the same socket; the deques and the states are
arbitrary. -/
structure Start (w : World κ ι) : Prop where
  loop : ∀ h, w.loop h = .idle
  lt : ∀ i n, (w.ep i).pSock = some n → n < w.nextSock
  unique : ∀ i j n, (w.ep i).pSock = some n → (w.ep j).pSock = some n → i = j

omit [DecidableEq κ] [DecidableEq ι] in
theorem Start.inv (hw : Start w) : Inv w.nextSock w := by
  have hown : ∀ o n, own w o = some n → ∃ i, o = .inr i ∧ (w.ep i).pSock = some n := by
    intro o n ho
    rcases o with h | i
    · rw [own_inl (hw.loop h)] at ho
      cases ho
    · exact ⟨i, rfl, ho⟩
  constructor
  · constructor
    · intro o n ho
      obtain ⟨i, -, hi⟩ := hown o n ho
      exact hw.lt i n hi
    · intro o p n ho hp
      obtain ⟨i, rfl, hi⟩ := hown o n ho
      obtain ⟨j, rfl, hj⟩ := hown p n hp
      rw [hw.unique i j n hi hj]
    · intro n hlo hn
      omega
  · intro i n ht hn hlo
    have := hw.lt i n hn
    omega

theorem inv_step (a : Step κ ι) :
    Eff.Triple (fun _ w => Inv lo w ∧ True) (step helper a) (fun _ w => Inv lo w)
      fun _ _ => True := by
  refine .of (fun log w evs w' hw h => ?_) fun _ _ _ _ _ _ => trivial
  exact inv_moves hw.1 (step_moves (by rw [h]))

/-- **Every connection has exactly one owner.** A connection that no loop has any more is closed, or
is the `m_pSock` of exactly one endpoint; no two endpoints hold the same one, and every step is
orderly. -/
theorem one_owner (hw : Start w) {as : List (Step κ ι)} (hf : (run helper w as).fault = none) :
    (∀ n, w.nextSock ≤ n → n < (run helper w as).obj.nextSock →
      (∀ h, ((run helper w as).obj.loop h).sock ≠ some n) →
      n ∈ (run helper w as).obj.closed ∨ ∃! i, ((run helper w as).obj.ep i).pSock = some n) ∧
    (∀ i j n, ((run helper w as).obj.ep i).pSock = some n →
      ((run helper w as).obj.ep j).pSock = some n → i = j) ∧
    ∀ a w', (step helper a (run helper w as).obj).res = .ok w' → Orderly w.nextSock
      (run helper w as).obj a w' := by
  have h : Proc.Holds (fun _ v => Inv w.nextSock v) (fun _ _ => True) (run helper w as) :=
    Proc.run_inv inv_step hw.inv (Proc.meets_true as)
  have hI : Inv w.nextSock (run helper w as).obj := h.alive hf
  refine ⟨?_, ?_, ?_⟩
  · intro n hlo hn hloop
    obtain hc | ⟨o, ho, huniq⟩ := hI.held.exactly_one hlo hn
    · exact Or.inl hc
    · rcases o with h | i
      · exact absurd ho (hloop h)
      · exact Or.inr ⟨i, ho, fun j hj => Sum.inr.inj (huniq (.inr j) hj)⟩
  · intro i j n hi hj
    exact Sum.inr.inj (hI.held.unique (o := .inr i) (p := .inr j) hi hj)
  · intro a w' h
    exact orderly hI (step_moves h)

/-- An acceptor with two endpoints in its deque: the first is in use, with the socket 0, the second
waits. -/
def twoQueued : World Unit Bool where
  ep
    | false => ⟨.esOpened, .eeNone, some 0, {}⟩
    | true => ⟨.esAddedIntoHelper, .eeNone, none, {}⟩
  todo _ := []
  dqIdleEndpoints _ := [false, true]
  loop _ := .idle
  nextSock := 1
  closed := []

theorem twoQueued_start : Start twoQueued := by
  constructor
  · exact fun _ => rfl
  · intro i n hn
    cases i <;> cases hn
    exact Nat.zero_lt_one
  · intro i j n hi hj
    cases i <;> cases j <;> cases hi <;> cases hj
    rfl

/-- The first refuses the connection, the second takes it. -/
theorem one_owner_two :
    let p :=
      run (fun _ => ()) twoQueued
        [.established (), .pop (), .handleConnected (), .pop (), .handleConnected ()]
    1 ∈ p.obj.closed ∨ ∃! i, (p.obj.ep i).pSock = some 1 :=
  (one_owner twoQueued_start (by decide)).1 1 le_rfl (by decide) fun () => by decide

/-! ## The loop of a connector -/

/-- A loop over `k` endpoints, with no step of another thread in between. -/
def passes (h : κ) : ℕ → List (Step κ ι)
  | 0 => [.pop h]
  | k + 1 => .pop h :: .handleConnected h :: passes h k

/-- The endpoint waits for a connection. -/
def waits (s : CRupEndpoint) : Bool := s.state = .esAddedIntoHelper

/-- The socket that an event of a connector closes. -/
def closedBy : RupConnector.Ev → Option ℕ
  | .sockClose n => some n
  | _ => none

theorem run_cons_pure {a : Step κ ι} (h : step helper a w = pure w') (as : List (Step κ ι)) :
    run helper w (a :: as) = run helper w' as := by
  show Proc.run (step helper) (Proc.call (step helper a) { obj := w }) as = _
  rw [Proc.call_ok rfl (s := w') (by rw [h]; rfl), h]
  rfl

theorem passes_idle {h : κ} (hl : w.loop h = .idle) :
    ∀ k, run helper w (passes h k) = { obj := w }
  | 0 => run_cons_pure (by simp only [step, hl]) []
  | k + 1 => by
    have hpop : step helper (.pop h) w = pure w := by simp only [step, hl]
    have hconn : step helper (.handleConnected h) w = pure w := by simp only [step, hl]
    unfold passes
    rw [run_cons_pure hpop, run_cons_pure hconn]
    exact passes_idle hl k

theorem connected_res {s : CRupEndpoint} (hw : waits s = true) (hs : s.pSock = none) (n : ℕ) :
    (postEvt pure s (.eeConnected n)).res =
      .ok (0, { s with state := .esAddingIntoOt, pSock := some n }) := by
  obtain ⟨st, p, sock, ka⟩ := s
  obtain rfl : st = .esAddedIntoHelper := by simpa [waits] using hw
  obtain rfl : sock = none := hs
  rfl

theorem refused_res {s : CRupEndpoint} (hw : waits s = false) (n : ℕ) :
    (postEvt pure s (.eeConnected n)).res = .ok (-1, s) := by
  obtain ⟨st, p, sock, ka⟩ := s
  cases st
  case esAddedIntoHelper => simp [waits] at hw
  all_goals rfl

/-- **The loop alone.** If no other thread calls the endpoints in between, the loop of the hand-off
closes what the loop of a connector closes, for the answers that the endpoints give, and otherwise
the first endpoint that waits has the connection. -/
theorem loop_alone {h : κ} {n : ℕ} : ∀ (dq : List ι) {w : World κ ι}, w.loop h = .looking n →
    w.dqIdleEndpoints h = dq → (∀ i ∈ dq, w.todo i = []) →
    (∀ i ∈ dq, waits (w.ep i) = true → (w.ep i).pSock = none) →
    ∃ w', run helper w (passes h dq.length) = { obj := w' } ∧ w'.loop h = .idle ∧
      w'.closed = w.closed ++ (RupConnector.handOff ⟨n, true⟩
        (dq.map fun i => waits (w.ep i))).filterMap closedBy ∧
      ∀ i, (w'.ep i).pSock =
        if dq.find? (fun i => waits (w.ep i)) = some i then some n else (w.ep i).pSock := by
  intro dq
  induction dq with
  | nil =>
    intro w hl hd _ _
    have hpop : step helper (.pop h) w = pure (w.exhausted h n) := by simp only [step, hl, hd]
    refine ⟨w.exhausted h n, run_cons_pure hpop [], Function.update_self .., rfl, fun i => ?_⟩
    rw [if_neg (by simp)]
    rfl
  | cons i dq ih =>
    intro w hl hd hq hs
    have hpop : step helper (.pop h) w = pure (w.popped h n i dq) := by simp only [step, hl, hd]
    have hlp : (w.popped h n i dq).loop h = .popped n i := Function.update_self ..
    have hqp : (w.popped h n i dq).todo i = [] := hq i List.mem_cons_self
    show ∃ w', run helper w (.pop h :: .handleConnected h :: passes h dq.length) = _ ∧ _
    rw [run_cons_pure hpop]
    rcases hw : waits (w.ep i)
    · -- the endpoint refuses, and the loop goes on
      have hans : step helper (.handleConnected h) (w.popped h n i dq) =
          pure ((w.popped h n i dq).answered h i (w.ep i) (.looking n)) := by
        have hres := refused_res (s := (w.popped h n i dq).ep i) hw n
        simp only [step, hlp, if_pos hqp, hres]
        rfl
      have hep : ((w.popped h n i dq).answered h i (w.ep i) (.looking n)).ep = w.ep :=
        World.answered_ep_same (w := w.popped h n i dq) _
      rw [run_cons_pure hans]
      obtain ⟨w', hrun, hloop, hclosed, hsock⟩ := ih
        (w := (w.popped h n i dq).answered h i (w.ep i) (.looking n))
        (Function.update_self ..) (Function.update_self ..)
        (fun j hj => hq j (List.mem_cons_of_mem i hj))
        (fun j hj => by rw [hep]; exact hs j (List.mem_cons_of_mem i hj))
      rw [hep] at hclosed hsock
      refine ⟨w', hrun, hloop, ?_, fun j => ?_⟩
      · rw [hclosed, List.map_cons, hw]
        rfl
      · rw [hsock j, List.find?_cons_of_neg (by simp [hw])]
    · -- the endpoint takes the connection, and the loop is over
      have hans : step helper (.handleConnected h) (w.popped h n i dq) =
          pure ((w.popped h n i dq).answered h i
            { w.ep i with state := .esAddingIntoOt, pSock := some n } .idle) := by
        have hres := connected_res (s := (w.popped h n i dq).ep i) hw (hs i List.mem_cons_self hw) n
        simp only [step, hlp, if_pos hqp, hres]
        rfl
      rw [run_cons_pure hans, passes_idle (World.answered_loop_self _ _)]
      refine ⟨_, rfl, World.answered_loop_self _ _, ?_, fun j => ?_⟩
      · rw [List.map_cons, hw]
        exact (List.append_nil _).symm
      · have hfind : (i :: dq).find? (fun i => waits (w.ep i)) = some i :=
          List.find?_cons_of_pos hw
        rw [hfind]
        by_cases hj : i = j
        · subst hj
          rw [if_pos rfl, World.answered_ep_self]
        · rw [if_neg (by simpa using hj), World.answered_ep_ne fun h => hj h.symm]
          rfl

/-- **The branches in front of the loop.** A connector comes to the loop with an open socket and no
pending event; otherwise it has closed the socket, and no endpoint is called. Either way it has no
socket then. -/
theorem connector_branches {cb : RupConnector.Callback} {s s' : RupConnector.CRupConnector}
    {eps : List Bool} {evs : List RupConnector.Ev} {r : ℤ}
    (h : RupConnector.postEvt cb s (.eeDeledFromOt eps) = ⟨evs, .ok (r, s')⟩)
    (hst : s.state = .esDelingFromOtNormal) : s'.pTcpSock = none ∧ ∃ k, s.pTcpSock = some k ∧
      (s.i32PendingEvt = .eeNone ∧ k.isOpened = true ∧ evs = RupConnector.handOff k eps ∨
        (s.i32PendingEvt = .eeClose ∨ k.isOpened = false) ∧
          (∀ n b, .handleConnected n b ∉ evs) ∧
          (k.isOpened = true → evs.filterMap closedBy = [k.hSock])) := by
  cases RupConnector.post_trans h with
  | ignored hi => rw [hst] at hi; cases hi
  | deledOtClose hi => rw [hst] at hi; cases hi
  | deledOtPending _ hp hs =>
    refine ⟨rfl, _, hs, Or.inr ⟨Or.inl hp, fun n b => ?_, fun hk => ?_⟩⟩
    · unfold RupConnector.closing
      split_ifs
      · simp
      · simp
    · unfold RupConnector.closing
      rw [if_pos hk]
      rfl
  | @deledOt _ hp k hs =>
    refine ⟨rfl, k, hs, ?_⟩
    rcases hk : k.isOpened
    · exact Or.inr ⟨Or.inr rfl, fun n b => by simp, fun h => by cases h⟩
    · exact Or.inl ⟨hp, rfl, by rw [if_neg (by simp)]⟩

end SmartNet.Endpoint.SocketOwners

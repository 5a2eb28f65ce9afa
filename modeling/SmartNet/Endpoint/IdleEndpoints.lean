import SmartNet.Endpoint.Handoff

/-! # The deques of idle endpoints

An endpoint waits for a connection exactly if it is in the deque of its helper, or in the hands of
the hand-off loop that has just popped it. A `close` of an endpoint that waits takes it out of the
deque; one that runs after the loop has popped the endpoint and before `handle_connected` does not
find it there, and `CMN_ASSERT(bFlag)` ends the process. In the runs in which this does not happen,
every endpoint that waits is in the deque once.

* `leads`: what the operations of a call on the deque have to be; `call_leads`: what those of every
  call are;
* `place`: how often an endpoint is in a deque or in the hands of its loop;
* `inv_moves`: the steps; `idle_once`: the runs. -/

namespace SmartNet.Endpoint.IdleEndpoints

open SmartNet.Lib SmartNet.Utils.StateMachine SmartNet.Endpoint.RupEndpoint SmartNet.Endpoint.Types
open SmartNet.Endpoint.Handoff

/-! ## The operations of a call -/

/-- The endpoint is pushed if it is not in the deque and taken out if it is; `b` and `c` are whether
it is there before and after. -/
def leads : Bool → List DequeOp → Bool → Prop
  | b, [], c => b = c
  | b, .add :: ops, c => b = false ∧ leads true ops c
  | b, .del :: ops, c => b = true ∧ leads false ops c
  | _, .fail _ :: _, _ => True

theorem leads_append : ∀ {b c d : Bool} {ops ops' : List DequeOp}, leads b ops c → leads c ops' d →
    leads b (ops ++ ops') d
  | _, _, _, [], _, h, h' => by
    have hbc : _ = _ := h
    rw [hbc]
    exact h'
  | _, _, _, .add :: _, _, ⟨hb, h⟩, h' => ⟨hb, leads_append h h'⟩
  | _, _, _, .del :: _, _, ⟨hb, h⟩, h' => ⟨hb, leads_append h h'⟩
  | _, _, _, .fail _ :: _, _, _, _ => trivial

/-- Waiting for a connection. -/
def waits (s : CRupEndpoint) : Bool := decide (s.state = .esAddedIntoHelper)

variable {s s' : CRupEndpoint} {cb : Callback} {e : Evt} {evs : List Ev} {r : ℤ}
  {f : Fault} {b : Bool}

theorem waits_of (h : s.state = .esAddedIntoHelper) : waits s = true := decide_eq_true h

theorem waits_not (h : s.state ≠ .esAddedIntoHelper) : waits s = false := decide_eq_false h

/-- The events so far lead from `b` to where the endpoint is. -/
def Led (b : Bool) (log : List Ev) (s : CRupEndpoint) : Prop := leads b (dequeOps log) (waits s)

/-- The events up to a fault lead somewhere. -/
def Cut (b : Bool) (log : List Ev) (_ : Fault) : Prop := ∃ c, leads b (dequeOps log) c

variable {log evs' : List Ev}

theorem Led.append (h : Led b log s) (h' : leads (waits s) (dequeOps evs) (waits s')) :
    Led b (log ++ evs) s' := by
  unfold Led dequeOps at *
  rw [List.filterMap_append]
  exact leads_append h h'

theorem Led.quiet (h : Led b log s) (hevs : dequeOps evs = []) (hw : waits s' = waits s) :
    Led b (log ++ evs) s' := by
  refine h.append ?_
  rw [hevs, hw]
  exact rfl

theorem Led.cut (h : Led b log s) (hevs : dequeOps evs = []) : Cut b (log ++ evs) f :=
  ⟨waits s, h.quiet hevs rfl⟩

theorem Led.leaves (h : Led b log s) (hst : s.state = .esAddedIntoHelper) :
    Led b (log ++ [.delFromHelper, .onClosed]) { s with state := .esClosed } := by
  refine h.append ?_
  rw [waits_of hst]
  exact ⟨rfl, rfl⟩

theorem Led.ends (h : Led b log s) (hst : s.state = .esDelingFromOt) :
    Led b (log ++ [.onClosed]) { s with state := .esClosed } := by
  have hw : waits s = false := waits_not (by rw [hst]; nofun)
  exact h.quiet rfl hw.symm

theorem trans_led (hcb : Eff.Triple (Led b) cb (Led b) (Cut b)) (hI : Led b log s)
    (ht : Trans cb s e evs r s')
    (he : ∀ n, e ≠ .eeConnected n) (hi : e ≠ .eeAddedIntoIt) : Led b (log ++ evs) s' := by
  cases ht with
  | ignored => exact hI.quiet rfl rfl
  | opens h =>
    have hw : waits s = false := waits_not (by rw [h]; nofun)
    refine hI.append ?_
    rw [hw]
    exact ⟨rfl, rfl⟩
  | @closeWaiting h hs evs1 s1 hc =>
    have h2 : Led b (log ++ [.delFromHelper, .onClosed] ++ evs1) s1 := hcb.ok (hI.leaves h) hc
    rw [List.append_assoc] at h2
    exact h2
  | connected h hs n => exact absurd rfl (he n)
  | closeAddingOt | closeAddingIt | errAddingIt => exact hI.quiet rfl rfl
  | errAddingOt h | addedOtClose h | addedOt h | deledIt h | tearsDown h =>
    have hw : waits s = false := waits_not (by rw [h]; nofun)
    exact hI.quiet rfl hw.symm
  | addedItPending | addedIt => exact absurd rfl hi
  | @deledOt h evs1 s1 hc =>
    have h2 : Led b (log ++ [.onClosed] ++ evs1) s1 := hcb.ok (hI.ends h) hc
    rw [List.append_assoc] at h2
    exact h2

theorem fails_cut (hcb : Eff.Triple (Led b) cb (Led b) (Cut b)) (hI : Led b log s)
    (hf : RupEndpoint.Fails cb s e evs f)
    (hi : e ≠ .eeAddedIntoIt) : Cut b (log ++ evs) f := by
  cases hf with
  | sockNotNull | pendingEvt | sockNull => exact hI.cut rfl
  | @closeWaiting h hs evs1 f hc =>
    have h2 : Cut b (log ++ [.delFromHelper, .onClosed] ++ evs1) f := hcb.error (hI.leaves h) hc
    rw [List.append_assoc] at h2
    exact h2
  | addedIt => exact absurd rfl hi
  | @deledOt h evs1 f hc =>
    have h2 : Cut b (log ++ [.onClosed] ++ evs1) f := hcb.error (hI.ends h) hc
    rw [List.append_assoc] at h2
    exact h2

/-! ### User code -/

theorem pure_led : Eff.Triple (Led b) (pure : Callback) (Led b) (Cut b) :=
  .of (fun log s evs s' hI h => by cases h; exact hI.quiet rfl rfl)
    fun log s evs e hI h => by cases h

theorem openEp_led : Eff.Triple (Led b) RupEndpoint.openEp (Led b) (Cut b) := by
  refine .of (fun log s evs s' hI h => ?_) fun log s evs e hI h => (openEp_total h).elim
  obtain ⟨r, evs1, ht, rfl⟩ := openEp_ok h
  have h1 : Led b (log ++ evs1) s' := trans_led pure_led hI ht nofun nofun
  rw [← List.append_assoc]
  exact h1.quiet rfl rfl

theorem close_led (cb : Callback) (hcb : Eff.Triple (Led b) cb (Led b) (Cut b)) :
    Eff.Triple (Led b) (RupEndpoint.close cb) (Led b) (Cut b) := by
  refine .of (fun log s evs s' hI h => ?_) fun log s evs e hI h =>
    fails_cut hcb hI (post_fails (returning_error h)) nofun
  obtain ⟨r, evs1, ht, rfl⟩ := close_ok h
  have h1 : Led b (log ++ evs1) s' := trans_led hcb hI ht nofun nofun
  rw [← List.append_assoc]
  exact h1.quiet rfl rfl

/-- **User code** pushes the endpoint when it opens it and takes it out when it closes it. -/
theorem user_led (u : UserCode) : Eff.Triple (Led b) u.run (Led b) (Cut b) :=
  u.triple openEp_led close_led

theorem dequeOps_rets : ∀ u : UserCode, dequeOps (.onOpened :: u.rets) = []
  | .done => rfl
  | .callOpen next => dequeOps_rets next
  | .callClose _ next => dequeOps_rets next

theorem post_led (u : UserCode) (hI : Led b log s) (h : postEvt u.run s e = ⟨evs, .ok (r, s')⟩)
    (he : ∀ n, e ≠ .eeConnected n) :
    Led b (log ++ evs) s' := by
  have ht := post_trans h
  clear h
  by_cases hi : e = .eeAddedIntoIt
  · subst hi
    cases ht with
    | ignored => exact hI.quiet rfl rfl
    | addedItPending h =>
      have hw : waits s = false := waits_not (by rw [h]; nofun)
      exact hI.quiet rfl hw.symm
    | addedIt h hp hc =>
      have hw : waits s = false := waits_not (by rw [h]; nofun)
      rw [u.run_adding h] at hc
      cases hc
      exact hI.quiet (dequeOps_rets u) hw.symm
    | tearsDown _ he' => rcases he' with he' | he' <;> cases he'
  · exact trans_led (user_led u) hI ht he hi

theorem post_cut (u : UserCode) (hI : Led b log s) (h : postEvt u.run s e = ⟨evs, .error f⟩) :
    Cut b (log ++ evs) f := by
  have hf := post_fails h
  clear h
  by_cases hi : e = .eeAddedIntoIt
  · subst hi
    cases hf with
    | sockNotNull | sockNull => exact hI.cut rfl
    | addedIt h hp hc => rw [u.run_adding h] at hc; cases hc
  · exact fails_cut (user_led u) hI hf hi

theorem posting_led (u : UserCode) (he : ∀ n, e ≠ .eeConnected n) :
    Eff.Triple (Led b) (fun s => posting (postEvt u.run s e)) (Led b) (Cut b) := by
  refine .of (fun log s evs s' hI h => ?_) fun log s evs f hI h => post_cut u hI (posting_error h)
  obtain ⟨r, h1⟩ := posting_ok h
  exact post_led u hI h1 he

theorem call_led (c : Call) : Eff.Triple (Led b) c.run (Led b) (Cut b) := by
  cases c with
  | openEp => exact openEp_led
  | close u => exact close_led _ (user_led u)
  | internalErr => exact posting_led .done nofun
  | addedInto t u => cases t <;> exact posting_led u nofun
  | deledFrom t u => cases t <;> exact posting_led u nofun

/-- **The operations of a call** on the deque lead from where the endpoint is to where it has to
be. -/
theorem call_leads (c : Call) (s : CRupEndpoint) :
    leads (waits s) (todoOf (c.run s)) (waits (after s (c.run s))) := by
  have hI : Led (waits s) [] s := rfl
  rcases h : c.run s with ⟨evs, f | s'⟩
  · obtain ⟨d, hd⟩ : Cut (waits s) evs f := (call_led c).error hI h
    exact leads_append hd trivial
  · have h1 : Led (waits s) evs s' := (call_led c).ok hI h
    show leads _ (dequeOps evs ++ []) _
    rw [List.append_nil]
    exact h1

/-! ## Where an endpoint is -/

variable {κ ι : Type} [DecidableEq κ] [DecidableEq ι] {helper : ι → κ} {w w' : World κ ι}
  {a : Step κ ι}

/-- How often an endpoint is in the deque of a helper or in the hands of its loop. -/
def place (w : World κ ι) (h : κ) (i : ι) : ℕ :=
  (w.dqIdleEndpoints h).count i + if (w.loop h).ep = some i then 1 else 0

/-- `place` says whether the endpoint is there: once, with its own helper. -/
def At (helper : ι → κ) (w : World κ ι) (i : ι) (b : Bool) : Prop :=
  ∀ h, place w h i = if b = true ∧ h = helper i then 1 else 0

/-- The operations still to be performed lead from where each endpoint is to where it has to be. -/
def Inv (helper : ι → κ) (w : World κ ι) : Prop :=
  ∀ i, ∃ b, At helper w i b ∧ leads b (w.todo i) (waits (w.ep i))

/-- No endpoint is taken out of the deque after the loop has popped it. -/
def Undisturbed (helper : ι → κ) (w : World κ ι) : Step κ ι → Prop
  | .deque i => (w.todo i).head? = some .del → (w.loop (helper i)).ep ≠ some i
  | _ => True

instance (w : World κ ι) : ∀ a, Decidable (Undisturbed helper w a)
  | .deque _ => inferInstanceAs (Decidable (_ → _))
  | .call _ _ => .isTrue trivial
  | .established _ => .isTrue trivial
  | .pop _ => .isTrue trivial
  | .handleConnected _ => .isTrue trivial

theorem At.le_one {i : ι} (h : At helper w i b) (k : κ) : place w k i ≤ 1 := by
  rw [h k]
  split_ifs <;> omega

theorem At.of_pos {i : ι} {k : κ} (h : At helper w i b) (hp : 0 < place w k i) :
    b = true ∧ k = helper i := by
  rw [h k] at hp
  by_contra hc
  rw [if_neg hc] at hp
  omega

theorem At.of_true {i : ι} (h : At helper w i true) : place w (helper i) i = 1 := by
  rw [h (helper i)]; simp

theorem At.of_false {i : ι} {k : κ} (h : At helper w i false) : place w k i = 0 := by rw [h k]; simp

theorem At.congr {i : ι} (h : At helper w i b) (hp : ∀ k, place w' k i = place w k i) :
    At helper w' i b :=
  fun k => (hp k).trans (h k)

/-! ### The steps -/

theorem place_performed_self (h : κ) (i j : ι) (ops : List DequeOp) (dq : List ι) :
    place (w.performed h i ops dq) h j = dq.count j + if (w.loop h).ep = some j then 1 else 0 := by
  show (Function.update w.dqIdleEndpoints h dq h).count j + _ = _
  rw [Function.update_self]
  rfl

theorem place_performed_ne {h k : κ} (hk : k ≠ h) (i j : ι) (ops : List DequeOp) (dq : List ι) :
    place (w.performed h i ops dq) k j = place w k j := by
  show (Function.update w.dqIdleEndpoints h dq k).count j + _ = _
  rw [Function.update_of_ne hk]
  rfl

theorem inv_performed {i : ι} {ops : List DequeOp} {dq : List ι} (hI : Inv helper w)
    (hi : At helper (w.performed (helper i) i ops dq) i b) (hl : leads b ops (waits (w.ep i)))
    (hdq : ∀ j, j ≠ i → dq.count j = (w.dqIdleEndpoints (helper i)).count j) :
    Inv helper (w.performed (helper i) i ops dq) := by
  intro j
  by_cases hj : j = i
  · subst hj
    refine ⟨b, hi, ?_⟩
    simpa [World.performed] using hl
  · obtain ⟨c, hat, hc⟩ := hI j
    have hplace : ∀ k, place (w.performed (helper i) i ops dq) k j = place w k j := by
      intro k
      by_cases hk : k = helper i
      · rw [hk, place_performed_self, hdq j hj, place]
      · exact place_performed_ne hk i j ops dq
    refine ⟨c, hat.congr hplace, ?_⟩
    simpa [World.performed, Function.update_of_ne hj] using hc

theorem mem_of_undisturbed {i : ι} {ops : List DequeOp} (hI : Inv helper w)
    (hu : Undisturbed helper w (.deque i))
    (ht : w.todo i = .del :: ops) : (w.dqIdleEndpoints (helper i)).count i = 1 := by
  obtain ⟨b, hat, hl⟩ := hI i
  rw [ht] at hl
  obtain ⟨rfl, -⟩ := hl
  have hp : place w (helper i) i = 1 := hat.of_true
  have hloop : (w.loop (helper i)).ep ≠ some i := hu (by rw [ht]; rfl)
  rwa [place, if_neg hloop, Nat.add_zero] at hp

theorem inv_of_place (hI : Inv helper w) (hep : w'.ep = w.ep) (ht : w'.todo = w.todo)
    (hp : ∀ k i, place w' k i = place w k i) :
    Inv helper w' := by
  intro i
  obtain ⟨b, hat, hl⟩ := hI i
  rw [← hep, ← ht] at hl
  exact ⟨b, hat.congr fun k => hp k i, hl⟩

theorem place_loop {h k : κ} {l : Loop ι} {i : ι} (hl : w'.loop = Function.update w.loop h l)
    (hdq : w'.dqIdleEndpoints = w.dqIdleEndpoints)
    (he : l.ep = none) (hi : (w.loop h).ep ≠ some i) : place w' k i = place w k i := by
  unfold place
  rw [hl, hdq]
  by_cases hk : k = h
  · subst hk
    rw [Function.update_self, he, if_neg nofun, if_neg hi]
  · rw [Function.update_of_ne hk]

theorem place_popped {h : κ} {n : ℕ} {i : ι} {dq : List ι} (hl : w.loop h = .looking n)
    (hd : w.dqIdleEndpoints h = i :: dq)
    (k : κ) (j : ι) : place (w.popped h n i dq) k j = place w k j := by
  by_cases hk : k = h
  · subst hk
    have hdq : (w.popped k n i dq).dqIdleEndpoints k = dq := Function.update_self ..
    have hlp : (w.popped k n i dq).loop k = .popped n i := Function.update_self ..
    simp only [place, hdq, hlp, hl, hd, Loop.ep, List.count_cons, Option.some.injEq, beq_iff_eq,
      reduceCtorEq, if_false, Nat.add_zero]
  · have hdq : (w.popped h n i dq).dqIdleEndpoints k = w.dqIdleEndpoints k :=
      Function.update_of_ne hk ..
    have hlp : (w.popped h n i dq).loop k = w.loop k := Function.update_of_ne hk ..
    rw [place, place, hdq, hlp]

theorem place_connected {h : κ} {n : ℕ} {i : ι} (hl : w.loop h = .popped n i)
    (s : CRupEndpoint) (k : κ) :
    place w k i = place (w.answered h i s .idle) k i + if k = h then 1 else 0 := by
  by_cases hk : k = h
  · subst hk
    have hlp : (w.answered k i s .idle).loop k = .idle := Function.update_self ..
    have hdq : (w.answered k i s .idle).dqIdleEndpoints k = w.dqIdleEndpoints k := rfl
    have hep : (Loop.popped n i).ep = some i := rfl
    rw [place, place, hlp, hdq, hl, if_pos hep, if_pos rfl, if_neg (by nofun)]
  · have hlp : (w.answered h i s .idle).loop k = w.loop k := Function.update_of_ne hk ..
    have hdq : (w.answered h i s .idle).dqIdleEndpoints k = w.dqIdleEndpoints k := rfl
    rw [place, place, hlp, hdq, if_neg hk]
    rfl

/-- An endpoint that the loop has popped is with its helper and waits, unless a call of it is in
progress. -/
theorem waits_of_popped {h : κ} {n : ℕ} {i : ι} (hI : Inv helper w) (hl : w.loop h = .popped n i)
    (hq : w.todo i = []) :
    h = helper i ∧ waits (w.ep i) = true ∧ At helper w i true := by
  obtain ⟨b, hat, hb⟩ := hI i
  have hp : 0 < place w h i := by
    rw [place, hl]
    simp [Loop.ep]
  obtain ⟨rfl, hh⟩ := hat.of_pos hp
  rw [hq] at hb
  have hw : true = waits (w.ep i) := hb
  exact ⟨hh, hw.symm, hat⟩

/-- **What a step keeps.** -/
theorem inv_moves (hI : Inv helper w) (hu : Undisturbed helper w a) (hm : Moves helper w a w') :
    Inv helper w' := by
  cases hm with
  | waits => exact hI
  | @call i c hq =>
    intro j
    obtain ⟨b, hat, hl⟩ := hI j
    refine ⟨b, hat.congr fun _ => rfl, ?_⟩
    by_cases hj : j = i
    · subst hj
      rw [hq] at hl
      have hb : b = waits (w.ep j) := hl
      rw [hb]
      simpa [World.called] using call_leads c (w.ep j)
    · simpa [World.called, Function.update_of_ne hj] using hl
  | @add i ops ht =>
    obtain ⟨b, hat, hl⟩ := hI i
    rw [ht] at hl
    obtain ⟨rfl, hl⟩ := hl
    refine inv_performed hI (b := true) ?_ hl fun j hj => by simp [hj.symm]
    intro k
    by_cases hk : k = helper i
    · have h0 : place w (helper i) i = 0 := hat.of_false
      rw [hk, place_performed_self, List.count_append, List.count_singleton_self]
      rw [place] at h0
      simp only [and_self, if_true]
      omega
    · rw [place_performed_ne hk, hat.of_false]
      simp [hk]
  | @del i ops ht hmem =>
    have hone := mem_of_undisturbed hI hu ht
    have hloop : (w.loop (helper i)).ep ≠ some i := hu (by rw [ht]; rfl)
    obtain ⟨b, hat, hl⟩ := hI i
    rw [ht] at hl
    obtain ⟨rfl, hl⟩ := hl
    refine inv_performed hI (b := false) ?_ hl fun j hj => List.count_erase_of_ne hj
    intro k
    by_cases hk : k = helper i
    · rw [hk, place_performed_self, List.count_erase_self, hone, if_neg hloop]
      simp
    · rw [place_performed_ne hk, hat k]
      simp [hk]
  | established hl =>
    exact inv_of_place hI rfl rfl fun k i => place_loop rfl rfl rfl (by rw [hl]; nofun)
  | exhausted hl hd =>
    exact inv_of_place hI rfl rfl fun k i => place_loop rfl rfl rfl (by rw [hl]; nofun)
  | popped hl hd => exact inv_of_place hI rfl rfl (place_popped hl hd)
  | @connected h n i hl hq hst hs =>
    obtain ⟨hh, -, hat⟩ := waits_of_popped hI hl hq
    intro j
    by_cases hj : j = i
    · subst hj
      refine ⟨false, fun k => ?_, ?_⟩
      · have hp : place w k j = if k = h then 1 else 0 := by
          rw [hat k, hh]
          simp
        have hc := place_connected hl { w.ep j with state := .esAddingIntoOt, pSock := some n } k
        rw [if_neg (by nofun)]
        omega
      · simp [World.answered, hq, leads, waits]
    · obtain ⟨b, hat', hb⟩ := hI j
      have hij : (w.loop h).ep ≠ some j := by
        rw [hl]
        intro h'
        cases h'
        exact hj rfl
      refine ⟨b, hat'.congr fun k => place_loop rfl rfl rfl hij, ?_⟩
      simpa [World.answered, Function.update_of_ne hj] using hb
  | refused hl hq hst =>
    obtain ⟨-, hw, -⟩ := waits_of_popped hI hl hq
    rw [waits_not hst] at hw
    cases hw

/-- **An endpoint taken out after it has been popped** is not in the deque. -/
theorem disturbed_fails (hI : Inv helper w) (ha : ¬ Undisturbed helper w a) :
    (step helper a w).res = .error .bFlag := by
  cases a with
  | call | established | pop | handleConnected => exact absurd trivial ha
  | deque i =>
    unfold Undisturbed at ha
    push Not at ha
    obtain ⟨hd, hl⟩ := ha
    obtain ⟨b, hat, -⟩ := hI i
    have hp := hat.le_one (helper i)
    rw [place, if_pos hl] at hp
    have hc : (w.dqIdleEndpoints (helper i)).count i = 0 := by omega
    have hmem : i ∉ w.dqIdleEndpoints (helper i) := List.count_eq_zero.mp hc
    obtain ⟨ops, ht⟩ : ∃ ops, w.todo i = .del :: ops := List.head?_eq_some_iff.mp hd
    simp only [step, ht]
    rw [delEndpoint_eq, Eff.require_neg (by simpa using hmem)]
    rfl

theorem inv_step (a : Step κ ι) :
    Eff.Triple (fun _ w => Inv helper w ∧ Undisturbed helper w a) (step helper a)
    (fun _ w => Inv helper w) fun _ f => f ≠ .bFlag := by
  refine .of (fun log w evs w' hw h => ?_) fun log w evs f hw h => ?_
  · obtain ⟨hI, hu⟩ := hw
    exact inv_moves hI hu (step_moves (by rw [h]))
  · obtain ⟨hI, hu⟩ := hw
    have hf : Fails helper w a f := step_fails (by rw [h])
    clear h
    cases hf with
    | inCall => nofun
    | bFlag ht hm =>
      have h1 := mem_of_undisturbed hI hu ht
      rw [List.count_eq_zero_of_not_mem hm] at h1
      cases h1
    | sockNotNull => nofun

/-! ## Runs -/

/-- No call is in progress, no loop is running, and the endpoints that wait are in the deques of
their helpers, once. -/
structure Start (helper : ι → κ) (w : World κ ι) : Prop where
  todo : ∀ i, w.todo i = []
  loop : ∀ h, w.loop h = .idle
  deque : ∀ h i, (w.dqIdleEndpoints h).count i =
    if h = helper i ∧ (w.ep i).state = .esAddedIntoHelper then 1 else 0

theorem start_init (helper : ι → κ) (p : ι → PendingEvt) (k : ι → KeepAlive) :
    Start helper (World.init p k) := by
  constructor
  · exact fun _ => rfl
  · exact fun _ => rfl
  · intro h i
    rw [if_neg]
    · rfl
    · rintro ⟨-, hst⟩
      cases hst

/-- What holds of the deques: an endpoint that waits, while no call of it is in progress, is in the
deque of its helper once or has just been popped; no endpoint is in a deque twice. -/
structure Sound (helper : ι → κ) (w : World κ ι) : Prop where
  waiting : ∀ i, w.todo i = [] → (w.ep i).state = .esAddedIntoHelper →
    ((w.dqIdleEndpoints (helper i)).count i = 1 ∧ (w.loop (helper i)).ep ≠ some i) ∨
      (i ∉ w.dqIdleEndpoints (helper i) ∧ (w.loop (helper i)).ep = some i)
  nodup : ∀ h, (w.dqIdleEndpoints h).Nodup

theorem Start.inv (hw : Start helper w) : Inv helper w := by
  intro i
  refine ⟨waits (w.ep i), fun h => ?_, ?_⟩
  · have hep : (w.loop h).ep ≠ some i := by rw [hw.loop h]; nofun
    rw [place, if_neg hep, Nat.add_zero, hw.deque h i]
    simp only [waits, decide_eq_true_eq, and_comm]
  · rw [hw.todo i]
    exact rfl

theorem Inv.sound (hI : Inv helper w) : Sound helper w := by
  constructor
  · intro i hq hst
    obtain ⟨b, hat, hb⟩ := hI i
    rw [hq] at hb
    have hb' : b = waits (w.ep i) := hb
    rw [waits_of hst] at hb'
    subst hb'
    have hp := hat.of_true
    unfold place at hp
    by_cases hl : (w.loop (helper i)).ep = some i
    · rw [if_pos hl] at hp
      exact Or.inr ⟨List.count_eq_zero.mp (by omega), hl⟩
    · rw [if_neg hl] at hp
      exact Or.inl ⟨by omega, hl⟩
  · intro h
    refine List.nodup_iff_count.mpr fun i => ?_
    obtain ⟨b, hat, -⟩ := hI i
    have hp := hat.le_one h
    unfold place at hp
    omega

/-- **An endpoint that waits is in the deque once.** In the runs in which no endpoint is taken out
of a deque after the loop has popped it, `CMN_ASSERT(bFlag)` holds, and so does what is expected of
the deques; a step that does so in such a run ends the process. -/
theorem idle_once (hw : Start helper w) {as : List (Step κ ι)}
    (hm : Proc.Meets (step helper) (Undisturbed helper) { obj := w } as) :
    (run helper w as).fault ≠ some .bFlag ∧
    ((run helper w as).fault = none → Sound helper (run helper w as).obj ∧
      ∀ a, ¬ Undisturbed helper (run helper w as).obj a →
        (run helper w (as ++ [a])).fault = some .bFlag) := by
  have h : Proc.Holds (fun _ w => Inv helper w) (fun _ f => f ≠ .bFlag) (run helper w as) :=
    Proc.run_inv inv_step hw.inv hm
  constructor
  · intro hf
    exact h.dead hf rfl
  · intro hf
    have hI : Inv helper (run helper w as).obj := h.alive hf
    refine ⟨hI.sound, fun a ha => ?_⟩
    have hres : (step helper a (run helper w as).obj).res = .error .bFlag := disturbed_fails hI ha
    unfold run at hf hres ⊢
    rw [Proc.run_append]
    show (Proc.call _ _).fault = _
    rw [Proc.call_error hf hres]

/-- An acceptor with two endpoints: the first is closed while it waits, and opened again while the
second takes a connection. -/
theorem idle_once_two :
    let as : List (Step Unit Bool) :=
      [.call false .openEp, .deque false, .call true .openEp, .deque true, .established (),
        .call false (.close .done), .deque false, .pop (), .call false .openEp, .deque false,
        .handleConnected ()]
    let w : World Unit Bool := World.init (fun _ => .eeNone) fun _ => {}
    (run (fun _ => ()) w as).fault = none ∧ Sound (fun _ => ()) (run (fun _ => ()) w as).obj :=
  ⟨by decide, ((idle_once (start_init _ _ _) (by decide)).2 (by decide)).1⟩

/-- An endpoint that is closed after the loop has popped it, before it is given the connection. -/
theorem closed_after_pop :
    let w : World Unit Unit := World.init (fun _ => .eeNone) fun _ => {}
    Start (fun _ => ()) w ∧
      (run (fun _ => ()) w [.call () .openEp, .deque (), .established (), .pop (),
        .call () (.close .done),
      .deque ()]).fault = some .bFlag :=
  ⟨start_init _ _ _, by decide⟩

end SmartNet.Endpoint.IdleEndpoints

import SmartNet.Endpoint.RupEndpoint
import SmartNet.Lib.Process

/-! # The callbacks of a `CRupEndpoint`

An endpoint alone, with the events of all threads in any order.
`handling_internal_err_while_adding_into_ot` leads to `ES_CLOSED` without `on_closed` and keeps the
socket; without it, and if user code in the `on_closed` of a teardown does not close the session it
has just opened there (`m_pSock` is reset only afterwards), the callbacks pair up and the socket is
released.

* `phase`: how far the session is, read off the log; `between`: what lies between two successful
  calls of `open`;
* `inv_step`, `socket_step`: what a call keeps;
* `paired`: the runs. -/

namespace SmartNet.Endpoint.RupCallbacks

open SmartNet.Lib SmartNet.Utils.StateMachine SmartNet.Endpoint.RupEndpoint SmartNet.Endpoint.Types

/-! ## Sessions in a log -/

/-- No session, or `on_closed` called; opened; `on_opened` called. -/
inductive Phase
  | closed
  | waiting
  | opened
  deriving DecidableEq, Repr

/-- One event; `none` if it does not belong there. -/
def Phase.next : Phase → Ev → Option Phase
  | .closed, .openRet 0 => some .waiting
  | .waiting, .openRet 0 => none
  | .opened, .openRet 0 => none
  | .waiting, .onOpened => some .opened
  | .closed, .onOpened => none
  | .opened, .onOpened => none
  | .waiting, .onClosed => some .closed
  | .opened, .onClosed => some .closed
  | .closed, .onClosed => none
  | ph, _ => some ph

/-- The phase after the events, from a phase. -/
def phaseFrom : Option Phase → List Ev → Option Phase
  | ph, [] => ph
  | ph, e :: evs => phaseFrom (ph.bind (·.next e)) evs

/-- The phase after the events. -/
def phase (log : List Ev) : Option Phase := phaseFrom (some .closed) log

/-- The callbacks among the events. -/
def callbacks (evs : List Ev) : List Ev := evs.filter fun e => e = .onOpened ∨ e = .onClosed

theorem phaseFrom_append :
    ∀ (ph : Option Phase) (l l' : List Ev), phaseFrom ph (l ++ l') = phaseFrom (phaseFrom ph l) l'
  | _, [], _ => rfl
  | ph, e :: l, l' => phaseFrom_append (ph.bind (·.next e)) l l'

theorem phaseFrom_none : ∀ l : List Ev, phaseFrom none l = none
  | [] => rfl
  | _ :: l => phaseFrom_none l

/-- What a phase can become without another `open`, and the callbacks on the way. -/
def Reaches : Phase → List Ev → Phase → Prop
  | .closed, cs, ph => cs = [] ∧ ph = .closed
  | .opened, cs, ph => cs = [] ∧ ph = .opened ∨ cs = [.onClosed] ∧ ph = .closed
  | .waiting, cs, ph =>
    cs = [] ∧ ph = .waiting ∨ cs = [.onOpened] ∧ ph = .opened ∨ cs = [.onClosed] ∧ ph = .closed ∨
      cs = [.onOpened, .onClosed] ∧ ph = .closed

theorem next_other {e : Ev} (h0 : e ≠ .openRet 0) (h1 : e ≠ .onOpened) (h2 : e ≠ .onClosed)
    (ph : Phase) :
    ph.next e = some ph := by
  unfold Phase.next
  split <;> first | rfl | contradiction

theorem reaches : ∀ {l : List Ev} {p p' : Phase}, Ev.openRet 0 ∉ l →
    phaseFrom (some p) l = some p' →
    Reaches p (callbacks l) p'
  | [], p, p', _, h => by
    cases h
    cases p <;> simp [Reaches, callbacks]
  | e :: l, p, p', hno, h => by
    have hno' : Ev.openRet 0 ∉ l := fun hm => hno (List.mem_cons_of_mem e hm)
    have h' : phaseFrom (p.next e) l = some p' := h
    by_cases h1 : e = .onOpened
    · subst h1
      cases p with
      | waiting =>
        obtain ⟨hc, rfl⟩ | ⟨hc, rfl⟩ := reaches (p := .opened) hno' h'
        · exact Or.inr (Or.inl ⟨by simpa [callbacks] using hc, rfl⟩)
        · exact Or.inr (Or.inr (Or.inr ⟨by simpa [callbacks] using hc, rfl⟩))
      | closed | opened => exact absurd ((phaseFrom_none l).symm.trans h') nofun
    · by_cases h2 : e = .onClosed
      · subst h2
        cases p with
        | closed => exact absurd ((phaseFrom_none l).symm.trans h') nofun
        | waiting =>
          obtain ⟨hc, rfl⟩ := reaches (p := .closed) hno' h'
          exact Or.inr (Or.inr (Or.inl ⟨by simpa [callbacks] using hc, rfl⟩))
        | opened =>
          obtain ⟨hc, rfl⟩ := reaches (p := .closed) hno' h'
          exact Or.inr ⟨by simpa [callbacks] using hc, rfl⟩
      · rw [next_other (fun h0 => hno (h0 ▸ List.mem_cons_self)) h1 h2] at h'
        have hc : callbacks (e :: l) = callbacks l := by simp [callbacks, h1, h2]
        rw [hc]
        exact reaches hno' h'

/-- **Between two successful calls of `open`** there is one `on_closed`, and at most one
`on_opened`, before it. -/
theorem between {pre mid post : List Ev} {ph : Phase}
    (h : phase (pre ++ .openRet 0 :: mid ++ .openRet 0 :: post) = some ph)
    (hno : Ev.openRet 0 ∉ mid) :
    callbacks mid = [.onClosed] ∨ callbacks mid = [.onOpened, .onClosed] := by
  unfold phase at h
  rw [phaseFrom_append, phaseFrom_append] at h
  rcases h1 : phaseFrom (some .closed) pre with _ | p1
  · rw [h1, phaseFrom_none, phaseFrom_none] at h; cases h
  · rw [h1] at h
    rcases h2 : phaseFrom (some p1) (.openRet 0 :: mid) with _ | p2
    · rw [h2, phaseFrom_none] at h; cases h
    · rw [h2] at h
      have hp1 : p1 = .closed := by
        cases p1 with
        | closed => rfl
        | waiting | opened => exact absurd ((phaseFrom_none mid).symm.trans h2) nofun
      have hp2 : p2 = .closed := by
        cases p2 with
        | closed => rfl
        | waiting | opened => exact absurd ((phaseFrom_none post).symm.trans h) nofun
      subst hp1 hp2
      obtain ⟨-, h3⟩ | ⟨-, h3⟩ | ⟨hc, -⟩ | ⟨hc, -⟩ := reaches (p := .waiting) hno h2
      · cases h3
      · cases h3
      · exact Or.inl hc
      · exact Or.inr hc

/-! ## What a call keeps -/

/-- How far the session is in each state. -/
def Fits : St → Phase → Prop
  | .esClosed, p => p = .closed
  | .esAddedIntoHelper, p => p = .waiting
  | .esAddingIntoOt, p => p = .waiting
  | .esAddingIntoIt, p => p = .waiting
  | .esOpened, p => p = .opened
  | .esDelingFromIt, p => p = .opened
  | .esDelingFromOt, p => p ≠ .closed

/-- The log and the state fit. -/
def Fit (log : List Ev) (s : CRupEndpoint) : Prop := ∃ p, phase log = some p ∧ Fits s.state p

/-- A log whose callbacks pair up. -/
def Paired (log : List Ev) : Prop := ∃ p, phase log = some p

variable {log evs : List Ev} {s s' : CRupEndpoint} {e : Evt} {u : UserCode} {r : ℤ} {f : Fault}

theorem phase_append (l l' : List Ev) : phase (l ++ l') = phaseFrom (phase l) l' :=
  phaseFrom_append _ l l'

/-- What user code in `on_closed` keeps; it runs into an assert only if `m_pSock` was not NULL when
it was called. -/
def Resumed (q : Option ℕ) (log : List Ev) (s : CRupEndpoint) : Prop :=
  Fit log s ∧ Resting s ∧ s.pSock = q

/-- Events that do not count for the phases. -/
def Uncounted (evs : List Ev) : Prop := ∀ e ∈ evs, e ≠ .openRet 0 ∧ e ≠ .onOpened ∧ e ≠ .onClosed

theorem phaseFrom_uncounted {l : List Ev} {p : Phase} (h : Uncounted l) :
    phaseFrom (some p) l = some p := by
  induction l with
  | nil => rfl
  | cons e l ih =>
    obtain ⟨h0, h1, h2⟩ := h e List.mem_cons_self
    show phaseFrom (p.next e) l = some p
    rw [next_other h0 h1 h2]
    exact ih fun e he => h e (List.mem_cons_of_mem _ he)

theorem Fit.move (h : Fit log s) (hst : ∀ p, Fits s.state p → Fits s'.state p)
    (hevs : Uncounted evs) :
    Fit (log ++ evs) s' := by
  obtain ⟨p, hp, hf⟩ := h
  exact ⟨p, by rw [phase_append, hp, phaseFrom_uncounted hevs], hst p hf⟩

theorem Fit.append (h : Fit log s) (hst : s'.state = s.state) (hevs : Uncounted evs) :
    Fit (log ++ evs) s' :=
  h.move (fun _ hf => hst ▸ hf) hevs

theorem Fit.isPaired (h : Fit log s) : Paired log := by
  obtain ⟨p, hp, -⟩ := h
  exact ⟨p, hp⟩

theorem Fit.opens (h : Fit log s) (hst : s.state = .esClosed)
    (hst' : s'.state = .esAddedIntoHelper) :
    Fit (log ++ ([.addToHelper] ++ [.openRet 0])) s' := by
  obtain ⟨p, hp, hf⟩ := h
  rw [hst] at hf
  cases hf
  exact ⟨.waiting, by rw [phase_append, hp]; rfl, by rw [hst']; rfl⟩

theorem Fit.onClosed (h : Fit log s)
    (hst : s.state = .esAddedIntoHelper ∨ s.state = .esDelingFromOt)
    (hst' : s'.state = .esClosed) : Fit (log ++ [.onClosed]) s' := by
  obtain ⟨p, hp, hf⟩ := h
  have hne : p ≠ .closed := by
    rcases hst with hst | hst <;> rw [hst] at hf
    · rw [show p = .waiting from hf]; nofun
    · exact hf
  refine ⟨.closed, ?_, by rw [hst']; rfl⟩
  rw [phase_append, hp]
  cases p with
  | closed => exact absurd rfl hne
  | waiting | opened => rfl

theorem openEp_resumed (q : Option ℕ) : Eff.Triple (Resumed q) openEp (Resumed q) fun l _ =>
    Paired l ∧ q ≠ none := by
  refine .of (fun log s evs s' ⟨hf, hr, hq⟩ h => ?_) fun log s evs f hI h => absurd h fun h =>
    openEp_total h
  obtain ⟨r, evs1, ht, rfl⟩ := openEp_ok h
  clear h
  cases ht with
  | ignored h => exact ⟨hf.append rfl (by simp [Uncounted]), hr, hq⟩
  | opens h => exact ⟨hf.opens h rfl, Or.inr rfl, hq⟩
  | tearsDown _ he => rcases he with he | he <;> cases he

theorem close_resumed (q : Option ℕ) (cb : Callback)
    (hcb : Eff.Triple (Resumed q) cb (Resumed q) fun l _ => Paired l ∧ q ≠ none) :
    Eff.Triple (Resumed q) (close cb) (Resumed q) fun l _ => Paired l ∧ q ≠ none := by
  have hbefore : ∀ {log s}, Resumed q log s → s.state = .esAddedIntoHelper →
      Resumed q (log ++ [.delFromHelper] ++ [.onClosed]) { s with state := .esClosed } := by
    intro log s ⟨hf, hr, hq⟩ hst
    have h1 : Fit (log ++ [.delFromHelper]) s := hf.append rfl (by simp [Uncounted])
    exact ⟨h1.onClosed (Or.inl hst) rfl, Or.inl rfl, hq⟩
  refine .of (fun log s evs s' hI h => ?_) fun log s evs f hI h => ?_
  · obtain ⟨r, evs1, ht, rfl⟩ := close_ok h
    clear h
    cases ht with
    | ignored h => exact ⟨hI.1.append rfl (by simp [Uncounted]), hI.2.1, hI.2.2⟩
    | @closeWaiting hst hs evs2 s1 hc =>
      obtain ⟨h1, h2, h3⟩ := hcb.ok (hbefore hI hst) hc
      have h4 : Fit (log ++ [.delFromHelper] ++ [.onClosed] ++ evs2 ++ [.closeRet (-2)])
        { s1 with pSock := none } :=
        h1.append rfl (by simp [Uncounted])
      exact ⟨by simpa using h4, h2, hs.symm.trans hI.2.2⟩
    | closeAddingOt h => rcases hI.2.1 with h' | h' <;> cases h.symm.trans h'
    | closeAddingIt h => rcases hI.2.1 with h' | h' <;> cases h.symm.trans h'
    | tearsDown h => rcases hI.2.1 with h' | h' <;> cases h.symm.trans h'
  · have hfail := post_fails (returning_error h)
    clear h
    cases hfail with
    | sockNotNull hst hs =>
      exact ⟨by rw [List.append_nil]; exact hI.1.isPaired, fun hq => hs (hI.2.2.trans hq)⟩
    | @closeWaiting hst hs evs2 _ hc =>
      have h1 := hcb.error (hbefore hI hst) hc
      simpa using h1
    | sockNull h => rcases hI.2.1 with h' | h' <;> rw [h'] at h <;> simp at h

theorem resumed (q : Option ℕ) (u : UserCode) : Eff.Triple (Resumed q) u.run (Resumed q) fun l _ =>
    Paired l ∧ q ≠ none :=
  u.triple (openEp_resumed q) (close_resumed q)

/-- Whether user code calls `close` after it has called `open`. -/
def closesReopened : UserCode → Bool
  | .done => false
  | .callOpen next => next.closes
  | .callClose _ next => closesReopened next

theorem run_waiting : ∀ (u : UserCode) {s : CRupEndpoint}, s.state = .esAddedIntoHelper →
    u.closes = false →
    ∃ evs, u.run s = ⟨evs, .ok s⟩
  | .done, _, _, _ => ⟨[], rfl⟩
  | .callOpen next, s, hst, hc => by
    have h1 : openEp s = ⟨[.openRet (-1)], .ok s⟩ := by
      obtain ⟨st, p, sock, ka⟩ := s
      cases hst; rfl
    obtain ⟨evs, h2⟩ := run_waiting next hst hc
    refine ⟨.openRet (-1) :: evs, ?_⟩
    show openEp s >>= next.run = _
    rw [h1, Eff.bind_of_ok rfl, h2]; rfl
  | .callClose _ _, _, _, hc => by cases hc

theorem run_closed : ∀ (u : UserCode) {s : CRupEndpoint}, s.state = .esClosed →
    closesReopened u = false →
    ∃ evs s', u.run s = ⟨evs, .ok s'⟩
  | .done, s, _, _ => ⟨[], s, rfl⟩
  | .callOpen next, s, hst, hc => by
    have h1 : openEp s = ⟨[.addToHelper, .openRet 0],
        .ok { s with state := .esAddedIntoHelper, smPendingEvt := .eeNone, keepAlive := {} }⟩ := by
      obtain ⟨st, p, sock, ka⟩ := s
      cases hst; rfl
    obtain ⟨evs, h2⟩ :=
      run_waiting
        next (s := { s with state := .esAddedIntoHelper, smPendingEvt := .eeNone, keepAlive := {} })
      rfl hc
    refine ⟨[.addToHelper, .openRet 0] ++ evs,
      { s with state := .esAddedIntoHelper, smPendingEvt := .eeNone, keepAlive := {} }, ?_⟩
    show openEp s >>= next.run = _
    rw [h1, Eff.bind_of_ok rfl, h2]
  | .callClose inner next, s, hst, hc => by
    have h1 : close inner.run s = ⟨[.closeRet (-1)], .ok s⟩ := by
      obtain ⟨st, p, sock, ka⟩ := s
      cases hst; rfl
    obtain ⟨evs, s', h2⟩ := run_closed next hst hc
    refine ⟨.closeRet (-1) :: evs, s', ?_⟩
    show close inner.run s >>= next.run = _
    rw [h1, Eff.bind_of_ok rfl, h2]; rfl

theorem uncounted_rets : ∀ u : UserCode, Uncounted u.rets
  | .done => nofun
  | .callOpen next => List.forall_mem_cons.mpr ⟨by decide, uncounted_rets next⟩
  | .callClose _ next => List.forall_mem_cons.mpr ⟨by decide, uncounted_rets next⟩

/-! ## The runs -/

/-- An event, and the user code of the callback it leads to. -/
abbrev Act := Evt × UserCode

def step : Act → CRupEndpoint → Eff Ev Fault CRupEndpoint
  | (.eeOpen, _), s => openEp s
  | (.eeClose, u), s => close u.run s
  | (e, u), s => posting (postEvt u.run s e)

/-- The endpoint after the events. -/
def run (p : PendingEvt) (k : KeepAlive) (as : List Act) : Proc CRupEndpoint Ev Fault :=
  Proc.run step { obj := RupEndpoint.init p k } as

/-- No `EE_INTERNAL_ERR` arrives in `ES_ADDING_INTO_OT`, and the `on_closed` of a teardown does not
close what it has opened. -/
def Orderly (s : CRupEndpoint) : Act → Prop
  | (.eeInternalErr, _) => s.state ≠ .esAddingIntoOt
  | (.eeDeledFromOt, u) => s.state = .esDelingFromOt → closesReopened u = false
  | _ => True

instance (s : CRupEndpoint) : ∀ a, Decidable (Orderly s a)
  | (.eeInternalErr, _) => inferInstanceAs (Decidable (_ ≠ _))
  | (.eeDeledFromOt, _) => inferInstanceAs (Decidable (_ → _))
  | (.eeOpen, _) => .isTrue trivial
  | (.eeClose, _) => .isTrue trivial
  | (.eeConnected _, _) => .isTrue trivial
  | (.eeAddedIntoOt, _) => .isTrue trivial
  | (.eeAddedIntoIt, _) => .isTrue trivial
  | (.eeDeledFromIt, _) => .isTrue trivial

/-- The log fits the state, and a resting endpoint has no socket. -/
def Inv (log : List Ev) (s : CRupEndpoint) : Prop := Fit log s ∧ (Resting s → s.pSock = none)

/-- What a step does: `open` succeeds, or `open` is refused, or `post_evt` of another event, with
the return code of `close` logged. -/
theorem step_ok {a : Act} (h : step a s = ⟨evs, .ok s'⟩) :
    s.state = .esClosed ∧ evs = [.addToHelper] ++ [.openRet 0] ∧ s'.state = .esAddedIntoHelper ∧
      s'.pSock = s.pSock ∨
      Uncounted evs ∧ s' = s ∨
      ∃ r evs1 evs2, a.1 ≠ .eeOpen ∧ Trans a.2.run s a.1 evs1 r s' ∧ evs = evs1 ++ evs2 ∧
        Uncounted evs2 := by
  obtain ⟨e, u⟩ := a
  cases e with
  | eeOpen =>
    obtain ⟨r, evs1, ht, rfl⟩ := openEp_ok h
    clear h
    cases ht with
    | ignored _ => exact Or.inr (Or.inl ⟨by simp [Uncounted], rfl⟩)
    | opens hst => exact Or.inl ⟨hst, rfl, rfl, rfl⟩
    | tearsDown _ he => rcases he with he | he <;> cases he
  | eeClose =>
    obtain ⟨r, evs1, ht, rfl⟩ := close_ok h
    exact Or.inr (Or.inr ⟨r, evs1, _, nofun, ht, rfl, by simp [Uncounted]⟩)
  | eeInternalErr | eeConnected | eeAddedIntoOt | eeAddedIntoIt | eeDeledFromIt | eeDeledFromOt =>
    obtain ⟨r, h1⟩ := posting_ok h
    exact Or.inr (Or.inr ⟨r, evs, [], nofun, post_trans h1, (List.append_nil _).symm, nofun⟩)

theorem step_error {a : Act} (h : step a s = ⟨evs, .error f⟩) :
    a.1 ≠ .eeOpen ∧ Fails a.2.run s a.1 evs f := by
  obtain ⟨e, u⟩ := a
  cases e with
  | eeOpen => exact absurd h fun h => openEp_total h
  | eeClose => exact ⟨nofun, post_fails (returning_error h)⟩
  | eeInternalErr | eeConnected | eeAddedIntoOt | eeAddedIntoIt | eeDeledFromIt | eeDeledFromOt =>
    exact ⟨nofun, post_fails (posting_error h)⟩

/-- **An event that is no `open`.** -/
theorem inv_trans (hI : Inv log s) (ht : Trans u.run s e evs r s') (he : e ≠ .eeOpen)
    (hc : Orderly s (e, u)) :
    Inv (log ++ evs) s' := by
  obtain ⟨hf, hn⟩ := hI
  cases ht with
  | ignored => exact ⟨hf.append rfl nofun, hn⟩
  | opens => exact absurd rfl he
  | @closeWaiting hst hs evs1 s1 hcb =>
    have h1 : Fit (log ++ [.delFromHelper] ++ [.onClosed]) { s with state := .esClosed } :=
      Fit.onClosed (s := s) (hf.append rfl (by simp [Uncounted])) (Or.inl hst) rfl
    obtain ⟨h2, -, -⟩ := (resumed s.pSock u).ok ⟨h1, Or.inl rfl, rfl⟩ hcb
    have h3 : Fit (log ++ [.delFromHelper] ++ [.onClosed] ++ evs1) { s1 with pSock := none } := h2
    exact ⟨by simpa using h3, fun _ => rfl⟩
  | connected hst hs n =>
    exact ⟨hf.move (fun p hp => by rw [hst] at hp; exact hp) (by simp [Uncounted]),
      fun hr => absurd hr (by simp [Resting])⟩
  | closeAddingOt hst => exact ⟨hf.append rfl nofun, hn⟩
  | errAddingOt hst => exact absurd hst hc
  | addedOtClose hst hp hs =>
    exact ⟨hf.move (fun p hp => by rw [hst] at hp; rw [show p = .waiting from hp]; nofun)
      (by simp [Uncounted]),
      fun hr => absurd hr (by simp [Resting])⟩
  | addedOt hst hp =>
    exact ⟨hf.move (fun p hp => by rw [hst] at hp; exact hp) (by simp [Uncounted]),
      fun hr => absurd hr (by simp [Resting])⟩
  | errAddingIt hst => exact ⟨hf.append rfl nofun, hn⟩
  | closeAddingIt hst => exact ⟨hf.append rfl nofun, hn⟩
  | addedItPending hst hp hs =>
    exact ⟨hf.move (fun p hp => by rw [hst] at hp; rw [show p = .waiting from hp]; nofun)
      (by simp [Uncounted]),
      fun hr => absurd hr (by simp [Resting])⟩
  | @addedIt hst hp evs1 s1 hcb =>
    rw [u.run_adding hst] at hcb
    cases hcb
    refine ⟨?_, fun hr => absurd hr (by simp [Resting])⟩
    obtain ⟨p, hp, hfp⟩ := hf
    rw [hst] at hfp
    refine ⟨.opened, ?_, rfl⟩
    rw [phase_append, hp, show p = .waiting from hfp]
    exact phaseFrom_uncounted (uncounted_rets u)
  | tearsDown hst _ hs =>
    exact ⟨hf.move (fun p hp => by rw [hst] at hp; exact hp) (by simp [Uncounted]),
      fun hr => absurd hr (by simp [Resting])⟩
  | deledIt hst =>
    exact ⟨hf.move (fun p hp => by rw [hst] at hp; rw [show p = .opened from hp]; nofun)
      (by simp [Uncounted]),
      fun hr => absurd hr (by simp [Resting])⟩
  | @deledOt hst evs1 s1 hcb =>
    have h1 : Fit (log ++ [.onClosed]) { s with state := .esClosed } :=
      Fit.onClosed (s := s) hf (Or.inr hst) rfl
    obtain ⟨h2, -, -⟩ := (resumed s.pSock u).ok ⟨h1, Or.inl rfl, rfl⟩ hcb
    have h3 : Fit (log ++ [.onClosed] ++ evs1) { s1 with pSock := none } := h2
    exact ⟨by simpa using h3, fun _ => rfl⟩

/-- **How an event can end the process**: not with the assert on `m_pSock`. -/
theorem inv_fails (hI : Inv log s) (hf : Fails u.run s e evs f) (hc : Orderly s (e, u)) :
    Paired (log ++ evs) ∧ f ≠ .sockNotNull := by
  obtain ⟨hfit, hn⟩ := hI
  cases hf with
  | sockNotNull hst hs => exact absurd (hn (Or.inr hst)) hs
  | @closeWaiting hst hs evs1 _ hcb =>
    have h1 : Fit (log ++ [.delFromHelper] ++ [.onClosed]) { s with state := .esClosed } :=
      Fit.onClosed (s := s) (hfit.append rfl (by simp [Uncounted])) (Or.inl hst) rfl
    exact absurd hs ((resumed s.pSock u).error ⟨h1, Or.inl rfl, rfl⟩ hcb).2
  | pendingEvt => exact ⟨by rw [List.append_nil]; exact hfit.isPaired, nofun⟩
  | sockNull => exact ⟨by rw [List.append_nil]; exact hfit.isPaired, nofun⟩
  | addedIt hst _ hcb => rw [u.run_adding hst] at hcb; cases hcb
  | deledOt hst hcb =>
    obtain ⟨evs1, s1, h1⟩ := run_closed u (s := { s with state := .esClosed }) rfl (hc hst)
    rw [h1] at hcb; cases hcb

/-- **Every step keeps the pairing.** -/
theorem inv_step (a : Act) : Eff.Triple (fun log s => Inv log s ∧ Orderly s a) (step a) Inv
    fun log f => Paired log ∧ f ≠ .sockNotNull := by
  refine .of (fun log s evs s' ⟨hI, hc⟩ h => ?_) fun log s evs f ⟨hI, hc⟩ h => ?_
  · obtain ⟨hst, rfl, hst', hs⟩ | ⟨hevs, rfl⟩ | ⟨r, evs1, evs2, he, ht, rfl, hevs⟩ := step_ok h
    · exact ⟨hI.1.opens hst hst', fun _ => hs.trans (hI.2 (Or.inl hst))⟩
    · exact ⟨hI.1.append rfl hevs, hI.2⟩
    · obtain ⟨h1, h2⟩ := inv_trans hI ht he hc
      rw [← List.append_assoc]
      exact ⟨h1.append rfl hevs, h2⟩
  · obtain ⟨-, hf⟩ := step_error h
    exact inv_fails hI hf hc

/-! ## The socket handed over -/

/-- After the first `m` events the socket `n` was taken: it is still in use, or it has been closed
since. -/
def Released (n m : ℕ) (log : List Ev) (s : CRupEndpoint) : Prop :=
  m ≤ log.length ∧
    (s.pSock = some n ∧
      (s.state = .esAddingIntoOt ∨ s.state = .esAddingIntoIt ∨ s.state = .esOpened) ∨
    Ev.sockClose n ∈ log.drop m)

variable {n m : ℕ}

theorem Released.closed (h : m ≤ log.length)
    (hm : Ev.sockClose n ∈ log.drop m ∨ Ev.sockClose n ∈ evs) :
    Released n m (log ++ evs) s' := by
  refine ⟨by rw [List.length_append]; omega, Or.inr ?_⟩
  rw [List.drop_append_of_le_length h]
  exact List.mem_append.mpr hm

theorem Released.kept (h : Released n m log s) (hp : s'.pSock = s.pSock)
    (hst : (s.state = .esAddingIntoOt ∨ s.state = .esAddingIntoIt ∨ s.state = .esOpened) →
      s'.state = .esAddingIntoOt ∨ s'.state = .esAddingIntoIt ∨ s'.state = .esOpened) :
    Released n m (log ++ evs) s' := by
  obtain ⟨h1, ⟨h2, h3⟩ | h2⟩ := h
  · exact ⟨by rw [List.length_append]; omega, Or.inl ⟨hp.trans h2, hst h3⟩⟩
  · exact .closed h1 (Or.inl h2)

/-- **The socket stays in use until it is closed.** -/
theorem socket_trans (h : Released n m log s) (ht : Trans u.run s e evs r s') (he : e ≠ .eeOpen)
    (hc : Orderly s (e, u)) :
    Released n m (log ++ evs) s' := by
  -- once it is closed nothing is left to show; else the endpoint is in one of three states
  obtain ⟨hlen, ⟨hn, hst⟩ | hm⟩ := h
  swap
  · exact .closed hlen (Or.inl hm)
  have hback : Released n m log s := ⟨hlen, Or.inl ⟨hn, hst⟩⟩
  cases ht with
  | ignored => exact hback.kept rfl id
  | opens => exact absurd rfl he
  | closeWaiting h' => rw [h'] at hst; simp at hst
  | connected h' => rw [h'] at hst; simp at hst
  | closeAddingOt h' => exact hback.kept rfl id
  | errAddingOt h' => exact absurd h' hc
  | addedOtClose _ _ hs =>
    cases hn.symm.trans hs
    exact .closed hlen (Or.inr (by simp))
  | addedOt => exact hback.kept rfl fun _ => Or.inr (Or.inl rfl)
  | errAddingIt => exact hback.kept rfl id
  | closeAddingIt => exact hback.kept rfl id
  | addedItPending _ _ hs =>
    cases hn.symm.trans hs
    exact .closed hlen (Or.inr (by simp))
  | addedIt h' _ hcb =>
    rw [u.run_adding h'] at hcb
    cases hcb
    exact hback.kept rfl fun _ => Or.inr (Or.inr rfl)
  | tearsDown _ _ hs =>
    cases hn.symm.trans hs
    exact .closed hlen (Or.inr (by simp))
  | deledIt h' => rw [h'] at hst; simp at hst
  | deledOt h' => rw [h'] at hst; simp at hst

theorem socket_step (a : Act) : Eff.Triple (fun log s => Released n m log s ∧ Orderly s a) (step a)
    (Released n m)
    fun _ _ => True := by
  refine .of (fun log s evs s' ⟨hI, hc⟩ h => ?_) fun _ _ _ _ _ _ => trivial
  obtain ⟨hst, rfl, hst', hs⟩ | ⟨hevs, rfl⟩ | ⟨r, evs1, evs2, he, ht, rfl, hevs⟩ := step_ok h
  · exact hI.kept hs fun h' => by rw [hst] at h'; simp at h'
  · exact hI.kept rfl id
  · rw [← List.append_assoc]
    exact (socket_trans hI ht he hc).kept rfl id

theorem released {p : PendingEvt} {k : KeepAlive} {as1 as2 : List Act}
    (h : Proc.Meets step Orderly ({ obj := RupEndpoint.init p k } : Proc CRupEndpoint Ev Fault)
      (as1 ++ (.eeConnected n, u) :: as2))
    (hf : (run p k (as1 ++ (.eeConnected n, u) :: as2)).fault = none)
    (hst : (run p k (as1 ++ (.eeConnected n, u) :: as2)).obj.state = .esClosed)
    (hwait : (run p k as1).obj.state = .esAddedIntoHelper) :
    Ev.sockClose n ∈ (run p k (as1 ++ (.eeConnected n, u) :: as2)).log.drop
      (run p k as1).log.length := by
  unfold run at hf hst hwait ⊢
  rw [Proc.run_append] at hf hst ⊢
  obtain ⟨hm1, -, hm2⟩ := Proc.meets_append.mp h
  have h0 : Proc.Holds Inv (fun log f => Paired log ∧ f ≠ .sockNotNull)
      ({ obj := RupEndpoint.init p k } : Proc CRupEndpoint Ev Fault) :=
        ⟨⟨.closed, rfl, rfl⟩, fun _ => rfl⟩
  have h1 := Proc.run_inv inv_step h0 hm1
  set q := Proc.run step { obj := RupEndpoint.init p k } as1 with hq
  have hqf : q.fault = none := Proc.run_fault_none hf
  have hs : q.obj.pSock = none := (h1.alive hqf).2 (Or.inr hwait)
  -- from the step that takes the socket on it is in use or closed
  have hcall : step (.eeConnected n, u) q.obj =
      ⟨[.addEndpoint .output], .ok { q.obj with state := .esAddingIntoOt, pSock := some n }⟩ := by
    show posting (postEvt u.run q.obj (.eeConnected n)) = _
    rw [post_connected hwait hs]; rfl
  have h2 : Proc.Holds (Released n q.log.length)
    (fun _ _ => True) (q.call (step (.eeConnected n, u))) := by
    rw [Proc.call_ok hqf (by rw [hcall])]
    exact ⟨by simp, Or.inl ⟨rfl, Or.inl rfl⟩⟩
  have h3 := Proc.run_inv (socket_step (n := n) (m := q.log.length)) h2 hm2
  obtain ⟨-, ⟨-, h4⟩ | h4⟩ := h3.alive hf
  · rw [show (Proc.run step (q.call (step (.eeConnected n, u))) as2).obj.state = .esClosed from hst]
      at h4
    simp at h4
  · exact h4

/-- **The callbacks pair up, and the socket is released.** In every run in which no
`EE_INTERNAL_ERR` arrives in `ES_ADDING_INTO_OT` and the `on_closed` of a teardown does not close
the session it has opened: between two consecutive successful calls of `open`, `on_closed` is called
once and `on_opened` at most once, before it; `CMN_ASSERT(NULL == m_pSock)` never fails; and in
`ES_CLOSED` `m_pSock` is NULL and every socket handed over has been closed since. -/
theorem paired (p : PendingEvt) (k : KeepAlive) (as : List Act)
    (h : Proc.Meets step Orderly
      ({ obj := RupEndpoint.init p k } : Proc CRupEndpoint Ev Fault) as) :
    (∀ pre mid post, (run p k as).log = pre ++ .openRet 0 :: mid ++ .openRet 0 :: post →
      Ev.openRet 0 ∉ mid →
      callbacks mid = [.onClosed] ∨ callbacks mid = [.onOpened, .onClosed]) ∧
    (run p k as).fault ≠ some .sockNotNull ∧
    ((run p k as).fault = none → (run p k as).obj.state = .esClosed →
      (run p k as).obj.pSock = none ∧
      ∀ as1 n u as2, as = as1 ++ (.eeConnected n, u) :: as2 →
        (run p k as1).obj.state = .esAddedIntoHelper →
        Ev.sockClose n ∈ (run p k as).log.drop (run p k as1).log.length) := by
  have h0 : Proc.Holds Inv (fun log f => Paired log ∧ f ≠ .sockNotNull)
      ({ obj := RupEndpoint.init p k } : Proc CRupEndpoint Ev Fault) :=
        ⟨⟨.closed, rfl, rfl⟩, fun _ => rfl⟩
  have h1 : Proc.Holds Inv (fun log f => Paired log ∧ f ≠ .sockNotNull) (run p k as) :=
    Proc.run_inv inv_step h0 h
  refine ⟨fun pre mid post hlog hno => ?_, fun hf => (h1.dead hf).2 rfl,
    fun hf hst => ⟨(h1.alive hf).2 (Or.inl hst), ?_⟩⟩
  · obtain ⟨ph, hph⟩ : Paired (run p k as).log := by
      rcases hf : (run p k as).fault with _ | f
      · exact (h1.alive hf).1.isPaired
      · exact (h1.dead hf).1
    rw [hlog] at hph
    exact between hph hno
  · rintro as1 n u as2 rfl hwait
    exact released h hf hst hwait

/-- A session that ends normally, and the next one opened in its `on_closed`. -/
def reopened : List Act :=
  [(.eeOpen, .done), (.eeConnected 7, .done), (.eeAddedIntoOt, .done), (.eeAddedIntoIt, .done),
    (.eeClose, .done), (.eeDeledFromIt, .done), (.eeDeledFromOt, .callOpen .done),
    (.eeClose, .done)]

theorem paired_reopened : (run .eeNone {} reopened).obj.pSock = none ∧
    Ev.sockClose 7 ∈ (run .eeNone {} reopened).log.drop
      (run .eeNone {} [(.eeOpen, .done)]).log.length := by
  have h := (paired .eeNone {} reopened (by decide)).2.2 (by decide) (by decide)
  exact ⟨h.1, h.2 [(.eeOpen, .done)] 7 .done _ rfl (by decide)⟩

/-- The output registration fails. -/
def failed : List Act :=
  [(.eeOpen, .done), (.eeConnected 7, .done), (.eeInternalErr, .done), (.eeOpen, .done)]

/-- Two sessions with no `on_closed` between them, the socket of the first one neither closed nor
forgotten; closing the second one runs into the assert. -/
theorem unpaired :
    (run .eeNone {} failed).log =
      [.addToHelper] ++ .openRet 0 :: [.addEndpoint .output, .addToHelper] ++ .openRet 0 :: [] ∧
    (run .eeNone {} failed).obj.pSock = some 7 ∧
    (run .eeNone {} (failed ++ [(.eeClose, .done)])).fault = some .sockNotNull := by
  decide

end SmartNet.Endpoint.RupCallbacks

import SmartNet.Framework.Engine

/-! # What an engine is made of

In every state an engine reaches, its threads have their tasks and are not stopped, its io tasks
have notifiers with a descriptor and the ids of their places, and if it is started, then there are
tasks of all three kinds.

* `startThread_ok`, `ioRound_ok`, `ioRounds_ok`, `miscRound_ok`: what the rounds of `starting` add;
* `stopping_fails`: `stopping` never gets past its second loop;
* `good_step`, `good_run`: every step keeps the invariant. -/

namespace SmartNet.Framework.Engine

open SmartNet.Common SmartNet.Lib SmartNet.Endpoint.Types SmartNet.Framework.Notifier
  SmartNet.Framework.Deferred SmartNet.Utils

variable {α β : Type}

namespace CSNEngine

@[simp] theorem vec_setVec_self (e : CSNEngine α β) (ty : IoType) (v : List (IoTask α)) :
    (e.setVec ty v).vec ty = v := by
  cases ty <;> rfl

theorem vec_setVec_ne (e : CSNEngine α β) {ty ty' : IoType} (h : ty' ≠ ty) (v : List (IoTask α)) :
    (e.setVec ty v).vec ty' = e.vec ty' := by
  cases ty <;> cases ty' <;> first | rfl | exact absurd rfl h

@[simp] theorem setVec_curstate (e : CSNEngine α β) (ty : IoType) (v : List (IoTask α)) :
    (e.setVec ty v).i32curstate = e.i32curstate := by
  cases ty <;> rfl

@[simp] theorem setVec_threads (e : CSNEngine α β) (ty : IoType) (v : List (IoTask α)) :
    (e.setVec ty v).vecThreads = e.vecThreads := by
  cases ty <;> rfl

@[simp] theorem setVec_misc (e : CSNEngine α β) (ty : IoType) (v : List (IoTask α)) :
    (e.setVec ty v).pMiscTask = e.pMiscTask := by
  cases ty <;> rfl

/-- A thread that runs its task. -/
def Runs (th : CThread) : Prop := th.bStop = false ∧ ∃ t, th.pTask = some ⟨t, false⟩

/-- The task at a place of a vector. -/
def Placed (i : ℕ) (t : IoTask α) : Prop :=
  t.i32TaskId = i ∧ ∃ n, t.pIoEvtNotifier = some n ∧ 0 ≤ n.i32epfd

/-- Threads and tasks. -/
structure Sound (e : CSNEngine α β) : Prop where
  threads : ∀ th ∈ e.vecThreads, Runs th
  tasks : ∀ ty i t, (e.vec ty)[i]? = some t → Placed i t

/-- There are tasks of all three kinds. -/
structure Full (e : CSNEngine α β) : Prop where
  vec : ∀ ty, e.vec ty ≠ []
  threads : e.vecThreads ≠ []
  misc : ∃ st, e.pMiscTask = some ⟨some st⟩

/-- **The invariant** of an engine. -/
structure Good (e : CSNEngine α β) : Prop where
  sound : Sound e
  full : e.i32curstate = .esStarted → Full e

theorem good_init : Good ({} : CSNEngine α β) where
  sound := {
    threads := fun th h => by cases h
    tasks := fun ty i t h => by cases ty <;> cases h }
  full h := by cases h

/-! ### Starting -/

section Start

variable {e e' : CSNEngine α β} {evs : List (Ev α β)} {ty : IoType} {r : Round} {n : ℤ}

theorem startThread_ok {t : Ref} {o : Option CThread}
    (h : startThread t r = (⟨evs, .ok o⟩ : Eff (Ev α β) Fault (Option CThread))) :
    ∃ th, o = some th ∧ Runs th := by
  unfold startThread at h
  split_ifs at h with hn
  · obtain ⟨evs1, th, evs2, h1, h2, -⟩ := Eff.bind_ok h
    obtain ⟨evs3, u, evs4, -, h4, -⟩ := Eff.bind_ok h1
    cases h4
    obtain ⟨evs5, i32Ret, evs6, h5, h6, -⟩ := Eff.bind_ok h2
    have hret : i32Ret = (r.i32Errno : ℤ) := by
      cases h5
      rfl
    have hpos : ¬ i32Ret < 0 := by omega
    rw [if_neg hpos] at h6
    cases h6
    exact ⟨_, rfl, rfl, t, rfl⟩
  · cases h

/-- A task and its thread are added. -/
structure Added (ty : IoType) (k : ℕ) (e e' : CSNEngine α β) : Prop where
  sound : Sound e → Sound e'
  length : (e'.vec ty).length = (e.vec ty).length + k
  other : ∀ ty', ty' ≠ ty → e'.vec ty' = e.vec ty'
  curstate : e'.i32curstate = e.i32curstate

theorem Added.refl : Added ty 0 e e := ⟨id, rfl, fun _ _ => rfl, rfl⟩

theorem Added.trans {e'' : CSNEngine α β} {k k' : ℕ} (h : Added ty k e e')
    (h' : Added ty k' e' e'') : Added ty (k + k') e e'' where
  sound := h'.sound ∘ h.sound
  length := by rw [h'.length, h.length, Nat.add_assoc]
  other ty' hty := by rw [h'.other ty' hty, h.other ty' hty]
  curstate := by rw [h'.curstate, h.curstate]

theorem vec_pushTask_self {t : IoTask α} {th : CThread} :
    (e.pushTask ty t th).vec ty = e.vec ty ++ [{ t with i32TaskId := (e.vec ty).length }] := by
  cases ty <;> rfl

theorem vec_pushTask_ne {ty' : IoType} {t : IoTask α} {th : CThread} (h : ty' ≠ ty) :
    (e.pushTask ty t th).vec ty' = e.vec ty' := by
  cases ty <;> cases ty' <;> first | rfl | exact absurd rfl h

theorem threads_pushTask {t : IoTask α} {th : CThread} :
    (e.pushTask ty t th).vecThreads = e.vecThreads ++ [th] := by
  cases ty <;> rfl

theorem Sound.pushTask {t : IoTask α} {th : CThread} {nt : CEpoll α} (hs : Sound e)
    (hth : Runs th) (ht : t.pIoEvtNotifier = some nt) (hn : 0 ≤ nt.i32epfd) :
    Sound (e.pushTask ty t th) := by
  constructor
  · intro th' h'
    rw [threads_pushTask] at h'
    rcases List.mem_append.mp h' with h' | h'
    · exact hs.threads th' h'
    · rw [List.mem_singleton.mp h']
      exact hth
  · intro ty' i t' ht'
    by_cases hty : ty' = ty
    · subst hty
      rw [vec_pushTask_self] at ht'
      rcases Nat.lt_trichotomy i (e.vec ty').length with hi | hi | hi
      · rw [List.getElem?_append_left hi] at ht'
        exact hs.tasks ty' i t' ht'
      · subst hi
        rw [List.getElem?_concat_length] at ht'
        cases ht'
        exact ⟨rfl, nt, ht, hn⟩
      · have hle : (e.vec ty' ++ [{ t with i32TaskId := (e.vec ty').length }]).length ≤ i := by
          rw [List.length_append, List.length_singleton]
          omega
        rw [List.getElem?_eq_none hle] at ht'
        cases ht'
    · rw [vec_pushTask_ne hty] at ht'
      exact hs.tasks ty' i t' ht'

theorem added_task {t : IoTask α} {th : CThread} {nt : CEpoll α} (hth : Runs th)
    (ht : t.pIoEvtNotifier = some nt) (hn : 0 ≤ nt.i32epfd) :
    Added ty 1 e (e.pushTask ty t th) where
  sound hs := hs.pushTask hth ht hn
  length := by rw [vec_pushTask_self, List.length_append, List.length_singleton]
  other ty' hty := vec_pushTask_ne hty
  curstate := by cases ty <;> rfl

theorem ioRound_ok {b : Bool} (h : ioRound ty n r e = ⟨evs, .ok (b, e')⟩) :
    (b = false ∧ e' = e) ∨ b = true ∧ Added ty 1 e e' := by
  unfold ioRound at h
  split_ifs at h with hnew
  · rcases hi : (IoTask.init n r : Cmnerr × IoTask α) with ⟨ret, t⟩
    simp only [hi] at h
    split_ifs at h with hret
    · obtain ⟨evs1, u, evs2, h1, h2, -⟩ := Eff.bind_ok h
      cases h2
      exact Or.inl ⟨rfl, rfl⟩
    · obtain ⟨evs1, o, evs2, h1, h2, -⟩ := Eff.bind_ok h
      obtain ⟨th, rfl, hth⟩ := startThread_ok h1
      cases h2
      obtain ⟨nt, rfl, hnt⟩ : ∃ nt : CEpoll α,
          t = { pIoEvtNotifier := some nt } ∧ 0 ≤ nt.i32epfd := by
        unfold IoTask.init at hi
        split_ifs at hi with hc hfd <;> cases hi
        · exact absurd (by simp) hret
        · exact ⟨_, rfl, by simpa using hfd⟩
        · exact absurd (by simp) hret
      exact Or.inr ⟨rfl, added_task hth rfl hnt⟩
  · cases h

/-- **The loops** of `starting`. -/
theorem ioRounds_ok : ∀ {rs : List Round} {e : CSNEngine α β} {evs : List (Ev α β)} {b : Bool},
    ioRounds ty n rs e = ⟨evs, .ok (b, e')⟩ →
      ∃ k, Added ty k e e' ∧ (b = true → k = rs.length)
  | [], _, _, _, h => by
    cases h
    exact ⟨0, Added.refl, fun _ => rfl⟩
  | r :: rs, e, _, _, h => by
    obtain ⟨evs1, ⟨ok, e1⟩, evs2, h1, h2, -⟩ := Eff.bind_ok h
    rcases ioRound_ok h1 with ⟨rfl, rfl⟩ | ⟨rfl, hadd⟩
    · cases h2
      exact ⟨0, Added.refl, fun hb => by cases hb⟩
    · obtain ⟨k, hk, hb⟩ := ioRounds_ok (h2 : ioRounds ty n rs e1 = _)
      refine ⟨1 + k, hadd.trans hk, fun hb' => ?_⟩
      rw [hb hb', List.length_cons, Nat.add_comm]

theorem miscRound_ok {ret : Cmnerr} (h : miscRound r e = ⟨evs, .ok (ret, e')⟩) :
    (Sound e → Sound e') ∧ (∀ ty, e'.vec ty = e.vec ty) ∧ e'.i32curstate = e.i32curstate ∧
      (ret = .suc → e'.vecThreads ≠ [] ∧ ∃ st, e'.pMiscTask = some ⟨some st⟩) := by
  unfold miscRound at h
  split_ifs at h with h1 h2
  · obtain ⟨evs1, o, evs2, ho, h3, -⟩ := Eff.bind_ok h
    obtain ⟨th, rfl, hth⟩ := startThread_ok ho
    cases h3
    refine ⟨fun hs => ⟨fun th' h' => ?_, fun ty i t ht => ?_⟩, fun ty => ?_, rfl, fun _ => ?_⟩
    · rcases List.mem_append.mp h' with h' | h'
      · exact hs.threads th' h'
      · rw [List.mem_singleton.mp h']
        exact hth
    · exact hs.tasks ty i t (by cases ty <;> exact ht)
    · cases ty <;> rfl
    · exact ⟨by simp, _, rfl⟩
  · cases h
    refine ⟨fun hs => ⟨hs.threads, fun ty i t ht => ?_⟩, fun ty => ?_, rfl, fun hr => by cases hr⟩
    · exact hs.tasks ty i t (by cases ty <;> exact ht)
    · cases ty <;> rfl
  · cases h

theorem Added.le {k : ℕ} (h : Added ty k e e') (ty' : IoType) :
    (e.vec ty').length ≤ (e'.vec ty').length := by
  by_cases hty : ty' = ty
  · subst hty
    rw [h.length]
    omega
  · rw [h.other ty' hty]

/-- **`starting`**: what it adds stays when it fails. -/
theorem starting_ok {sp : SParas} {ret : Cmnerr} (h : starting sp e = ⟨evs, .ok (ret, e')⟩) :
    (Sound e → Sound e') ∧ e'.i32curstate = e.i32curstate ∧
      (∀ ty, (e.vec ty).length ≤ (e'.vec ty).length) ∧
      (ret = .suc → Full e' ∧
        ∀ ty, (e'.vec ty).length = (e.vec ty).length + (sp.rounds ty).length) := by
  unfold starting at h
  split_ifs at h with h0
  · cases h
    exact ⟨id, rfl, fun _ => le_rfl, fun hr => by cases hr⟩
  · obtain ⟨evs1, ⟨ok1, e1⟩, evs2, ho, h1, -⟩ := Eff.bind_ok h
    obtain ⟨k, hk, hkt⟩ := ioRounds_ok ho
    cases ok1 with
    | false =>
      cases h1
      exact ⟨hk.sound, hk.curstate, hk.le, fun hr => by cases hr⟩
    | true =>
      obtain ⟨evs3, ⟨ok2, e2⟩, evs4, hi, h2, -⟩ := Eff.bind_ok
        (h1 : (ioRounds .input sp.i32IoEvtNotifier sp.inputs e1 >>= _) = _)
      obtain ⟨k', hk', hkt'⟩ := ioRounds_ok hi
      have hle : ∀ ty, (e.vec ty).length ≤ (e2.vec ty).length := fun ty =>
        (hk.le ty).trans (hk'.le ty)
      cases ok2 with
      | false =>
        cases h2
        exact ⟨hk'.sound ∘ hk.sound, hk'.curstate.trans hk.curstate, hle, fun hr => by cases hr⟩
      | true =>
        obtain ⟨hs, hv, hc, hsuc⟩ := miscRound_ok (h2 : miscRound sp.misc e2 = _)
        have hlen : ∀ ty, (e'.vec ty).length = (e.vec ty).length + (sp.rounds ty).length := by
          intro ty
          rw [hv]
          cases ty with
          | output => rw [hk'.other .output (by decide), hk.length, hkt rfl]; rfl
          | input => rw [hk'.length, hk.other .input (by decide), hkt' rfl]; rfl
        refine ⟨hs ∘ hk'.sound ∘ hk.sound, hc.trans (hk'.curstate.trans hk.curstate), ?_, ?_⟩
        · intro ty
          rw [hv]
          exact hle ty
        · intro hr
          refine ⟨⟨fun ty hnil => ?_, (hsuc hr).1, (hsuc hr).2⟩, hlen⟩
          have h3 := hlen ty
          rw [hnil, List.length_nil] at h3
          have hrounds : (sp.rounds ty).length ≠ 0 := by
            intro h4
            cases ty with
            | output => exact h0 (Or.inr (Or.inl h4))
            | input => exact h0 (Or.inl h4)
          omega

theorem start_cases {sp : SParas} {i32Ret : ℤ} (h : start sp e = ⟨evs, .ok (i32Ret, e')⟩) :
    (e.i32curstate = .esStarted ∧ i32Ret = -1 ∧ e' = e) ∨ e.i32curstate = .esStopped ∧
      ((∃ e1, starting sp e = ⟨evs, .ok (.suc, e1)⟩ ∧ i32Ret = 0 ∧
          e' = e1.setCurState .esStarted) ∨
        ∃ ret, ret ≠ .suc ∧ starting sp e = ⟨evs, .ok (ret, e')⟩ ∧ i32Ret = -2) := by
  rcases hc : e.i32curstate with _ | _
  · refine Or.inr ⟨rfl, ?_⟩
    have hh : (handlers (some sp) e.i32curstate .eeStart :
        Option (StateMachine.SElem State (Handler α β))) =
          some ⟨.esStarted, some (starting sp)⟩ := by
      rw [hc]
      rfl
    rcases StateMachine.postEvt_ok hh h with ⟨e1, h1, h2, h3⟩ | ⟨ret, h1, h2, h3⟩
    · exact Or.inl ⟨e1, h1, h2, h3⟩
    · exact Or.inr ⟨ret, h1, h2, h3⟩
  · left
    have hh : (handlers (some sp) e.i32curstate .eeStart :
        Option (StateMachine.SElem State (Handler α β))) = none := by
      rw [hc]
      rfl
    have h' : start sp e = ⟨[], .ok (-1, e)⟩ := StateMachine.postEvt_ignored hh
    rw [h'] at h
    cases h
    exact ⟨rfl, rfl, rfl⟩

theorem Sound.setCurState (h : Sound e) (i32State : State) : Sound (e.setCurState i32State) where
  threads := h.threads
  tasks ty i t ht := h.tasks ty i t (by cases ty <;> exact ht)

theorem good_start {sp : SParas} {i32Ret : ℤ} (hg : Good e)
    (h : start sp e = ⟨evs, .ok (i32Ret, e')⟩) : Good e' := by
  rcases start_cases h with ⟨-, -, rfl⟩ | ⟨hc, ⟨e1, h1, -, rfl⟩ | ⟨ret, hne, h1, -⟩⟩
  · exact hg
  · obtain ⟨hs, -, -, hsuc⟩ := starting_ok h1
    obtain ⟨hfull, -⟩ := hsuc rfl
    refine ⟨(hs hg.sound).setCurState _, fun _ => ⟨fun ty => ?_, hfull.threads, hfull.misc⟩⟩
    cases ty
    · exact hfull.vec .output
    · exact hfull.vec .input
  · obtain ⟨hs, hcur, -, -⟩ := starting_ok h1
    refine ⟨hs hg.sound, fun h2 => ?_⟩
    rw [hcur, hc] at h2
    cases h2

end Start

/-! ### Stopping -/

section Stop

variable {e : CSNEngine α β}

theorem stopWait_runs {th : CThread} (h : Runs th) :
    ∃ (evs : List (Ev α β)) (th' : CThread), th.stopWait = ⟨evs, .ok th'⟩ := by
  obtain ⟨hb, t, ht⟩ := h
  obtain ⟨pTask, bStop, bRunning⟩ := th
  cases hb
  cases ht
  exact ⟨_, _, rfl⟩

theorem stopWait_ok {th th' : CThread} {evs : List (Ev α β)} (h : th.stopWait = ⟨evs, .ok th'⟩) :
    th'.pTask = none := by
  obtain ⟨evs1, th1, evs2, -, h2, -⟩ := Eff.bind_ok h
  unfold CThread.resetTask at h2
  rcases ht : th1.pTask with _ | t
  · rw [ht] at h2
    cases h2
  · rw [ht] at h2
    cases h2
    rfl

theorem stopping_fails (hs : Sound e) (hne : e.vecThreads ≠ []) :
    (stopping e).res = .error .resetTask := by
  obtain ⟨evs, ths, hths⟩ : ∃ (evs : List (Ev α β)) (ths : List CThread),
      Eff.forEach CThread.stopWait e.vecThreads = ⟨evs, .ok ths⟩ :=
    Eff.forEach_of_ok fun th hth => stopWait_runs (hs.threads th hth)
  obtain ⟨hlen, hall⟩ := Eff.forEach_ok hths
  rcases ths with _ | ⟨th, ths⟩
  · exact absurd (List.eq_nil_of_length_eq_zero hlen.symm) hne
  · have hnull : th.pTask = none := by
      obtain ⟨th0, -, evs', h0⟩ := hall th List.mem_cons_self
      exact stopWait_ok h0
    have hreset : (Eff.forEach CThread.resetTask (th :: ths) :
        Eff (Ev α β) Fault (List CThread)) = ⟨[], .error .resetTask⟩ := by
      have h1 : (th.resetTask : Eff (Ev α β) Fault CThread) = Eff.abort .resetTask := by
        unfold CThread.resetTask
        rw [hnull]
      show th.resetTask >>= _ = _
      rw [h1]
      rfl
    unfold stopping
    rw [Eff.bind_of_ok (by rw [hths])]
    show (Eff.forEach CThread.resetTask (th :: ths) >>= _).res = _
    rw [Eff.bind_of_error (by rw [hreset])]

theorem stop_stopped (h : e.i32curstate = .esStopped) : e.stop = ⟨[], .ok (-1, e)⟩ := by
  refine StateMachine.postEvt_ignored ?_
  rw [h]
  rfl

theorem stop_started (hg : Good e) (h : e.i32curstate = .esStarted) :
    e.stop.res = .error .resetTask := by
  have hh : (handlers none e.i32curstate .eeStop :
      Option (StateMachine.SElem State (Handler α β))) = some ⟨.esStopped, some stopping⟩ := by
    rw [h]
    rfl
  have hf := stopping_fails hg.sound (hg.full h).threads
  rcases hst : stopping e with ⟨evs, r⟩
  rw [hst] at hf
  obtain rfl : r = .error .resetTask := hf
  have hstop : e.stop = ⟨evs, .error .resetTask⟩ := StateMachine.postEvt_error hh hst
  rw [hstop]

end Stop

end CSNEngine

/-! ### Steps -/

section Steps

open CSNEngine

variable {s s' : Sys α β} {evs : List (Ev α β)} {ty : IoType} {i : ℕ} {t : IoTask α}

@[simp] theorem vec_setTask_self : (s.setTask ty i t).eng.vec ty = (s.eng.vec ty).set i t :=
  vec_setVec_self _ _ _

theorem vec_setTask_ne {ty' : IoType} (h : ty' ≠ ty) :
    (s.setTask ty i t).eng.vec ty' = s.eng.vec ty' := vec_setVec_ne _ h _

theorem good_setTask (hg : Good s.eng) (ht : Placed i t) : Good (s.setTask ty i t).eng := by
  have hlen : ∀ ty', ((s.setTask ty i t).eng.vec ty').length = (s.eng.vec ty').length := by
    intro ty'
    by_cases hty : ty' = ty
    · subst hty
      rw [vec_setTask_self, List.length_set]
    · rw [vec_setTask_ne hty]
  refine ⟨⟨?_, fun ty' j t' ht' => ?_⟩, fun hc => ⟨fun ty' hnil => ?_, ?_, ?_⟩⟩
  · rw [show (s.setTask ty i t).eng.vecThreads = s.eng.vecThreads from setVec_threads _ _ _]
    exact hg.sound.threads
  · by_cases hty : ty' = ty
    · subst hty
      rw [vec_setTask_self] at ht'
      by_cases hj : i = j
      · subst hj
        by_cases hi : i < (s.eng.vec ty').length
        · rw [List.getElem?_set_self hi] at ht'
          cases ht'
          exact ht
        · rw [List.getElem?_eq_none (by rw [List.length_set]; omega)] at ht'
          cases ht'
      · rw [List.getElem?_set_ne hj] at ht'
        exact hg.sound.tasks ty' j t' ht'
    · rw [vec_setTask_ne hty] at ht'
      exact hg.sound.tasks ty' j t' ht'
  · have h1 := hlen ty'
    rw [hnil, List.length_nil] at h1
    have hnil' : s.eng.vec ty' = [] := List.eq_nil_of_length_eq_zero h1.symm
    exact (hg.full (by simpa [Sys.setTask] using hc)).vec ty' hnil'
  · rw [show (s.setTask ty i t).eng.vecThreads = s.eng.vecThreads from setVec_threads _ _ _]
    exact (hg.full (by simpa [Sys.setTask] using hc)).threads
  · rw [show (s.setTask ty i t).eng.pMiscTask = s.eng.pMiscTask from setVec_misc _ _ _]
    exact (hg.full (by simpa [Sys.setTask] using hc)).misc

theorem good_setMisc {st : Deferred.St β Unit} (hg : Good s.eng) :
    Good { s.eng with pMiscTask := some ⟨some st⟩ } where
  sound := ⟨hg.sound.threads, fun ty i t ht => hg.sound.tasks ty i t (by cases ty <;> exact ht)⟩
  full hc := by
    obtain ⟨hv, ht, -⟩ := hg.full hc
    refine ⟨fun ty => ?_, ht, st, rfl⟩
    cases ty
    · exact hv .output
    · exact hv .input

theorem good_setRunning {b : Bool} {e : CSNEngine α β} (hg : Good e) : Good (setRunning i b e) := by
  refine ⟨⟨fun th hth => ?_, fun ty j t ht => ?_⟩, fun hc => ?_⟩
  · obtain ⟨j, hj⟩ := List.mem_iff_getElem?.mp hth
    have hj' : (e.vecThreads.modify i fun th => { th with bRunning := b })[j]? = some th := hj
    rw [List.getElem?_modify] at hj'
    rcases hold : e.vecThreads[j]? with _ | th0
    · rw [hold] at hj'
      cases hj'
    · rw [hold] at hj'
      have hruns : Runs th0 := hg.sound.threads th0 (List.mem_iff_getElem?.mpr ⟨j, hold⟩)
      have hsome : some (if i = j then { th0 with bRunning := b } else th0) = some th := hj'
      cases hsome
      split_ifs
      · exact hruns
      · exact hruns
  · exact hg.sound.tasks ty j t (by cases ty <;> exact ht)
  · obtain ⟨hv, ht, hm⟩ := hg.full hc
    refine ⟨fun ty => ?_, fun hnil => ?_, hm⟩
    · cases ty
      · exact hv .output
      · exact hv .input
    · have hlen := congrArg List.length hnil
      rw [show (setRunning i b e).vecThreads = e.vecThreads.modify i _ from rfl,
        List.length_modify, List.length_nil] at hlen
      exact ht (List.eq_nil_of_length_eq_zero hlen)

/-- The steps that keep the invariant if they return. -/
def Keeps (y : Eff (Ev α β) Fault (Sys α β)) : Prop :=
  ∀ evs s', y = ⟨evs, .ok s'⟩ → Good s'.eng

theorem Keeps.pure (hg : Good s.eng) : Keeps (Pure.pure s) := by
  intro evs s' h
  cases h
  exact hg

theorem Keeps.abort {f : Fault} : Keeps (Eff.abort f : Eff (Ev α β) Fault (Sys α β)) := by
  intro evs s' h
  cases h

theorem Keeps.bind {γ : Type} {y : Eff (Ev α β) Fault γ} {f : γ → Eff (Ev α β) Fault (Sys α β)}
    (h : ∀ evs a, y = ⟨evs, .ok a⟩ → Keeps (f a)) : Keeps (y >>= f) := by
  intro evs s' hy
  obtain ⟨evs1, a, evs2, h1, h2, -⟩ := Eff.bind_ok hy
  exact h evs1 a h1 evs2 s' h2

theorem keeps_notifier {nt : CEpoll α}
    {f : Deferred.St α ℤ → Eff (Deferred.Ev α ℤ) Deferred.Fault (Deferred.St α ℤ)} (hg : Good s.eng)
    (ht : (s.eng.vec ty)[i]? = some t) (hn : t.pIoEvtNotifier = some nt) :
    Keeps (Eff.lift (Ev.io (.io ty i)) Fault.inNotifier (f nt.st) >>= fun st =>
      Pure.pure (s.setTask ty i { t with pIoEvtNotifier := some { nt with st := st } })) := by
  refine Keeps.bind fun evs st _ => Keeps.pure (good_setTask hg ?_)
  obtain ⟨hid, nt', hn', hfd⟩ := hg.sound.tasks ty i t ht
  rw [hn] at hn'
  cases hn'
  exact ⟨hid, _, rfl, hfd⟩

theorem keeps_misc {st : Deferred.St β Unit}
    {f : Deferred.St β Unit → Eff (Deferred.Ev β Unit) Deferred.Fault (Deferred.St β Unit)}
    (hg : Good s.eng) :
    Keeps (Eff.lift Ev.timer Fault.inNotifier (f st) >>= fun st =>
      Pure.pure { s with eng := { s.eng with pMiscTask := some ⟨some st⟩ } }) :=
  Keeps.bind fun _ _ _ => Keeps.pure (good_setMisc hg)

variable {r : Req} {x : α}

theorem lockFails_eq (b : Bool) : lockFails b = false := by
  cases b <;> rfl

theorem keeps_miscRequest {y : β} (hg : Good s.eng) : Keeps (miscRequest r y s) := by
  unfold miscRequest
  rcases s.eng.pMiscTask with _ | ⟨_ | st⟩
  · exact Keeps.abort
  · exact Keeps.abort
  · exact keeps_misc (f := Deferred.request _ r y) hg

theorem keeps_ntfRequest (hg : Good s.eng) : Keeps (ntfRequest ty i r x s) := by
  unfold ntfRequest
  rcases ht : (s.eng.vec ty)[i]? with _ | t
  · exact Keeps.abort
  · dsimp only
    rcases hn : t.pIoEvtNotifier with _ | nt
    · exact Keeps.abort
    · exact keeps_notifier (f := Deferred.request _ r x) hg ht hn

theorem keeps_unassign (hg : Good s.eng) : Keeps (unassign ty x s) := by
  unfold unassign
  dsimp only
  split_ifs
  · exact keeps_ntfRequest hg
  · exact Keeps.pure hg

theorem delEndpoint_ok {n : ℤ} {o : Option Cmnerr}
    (h : delEndpoint (some x) n s = ⟨evs, .ok (o, s')⟩) : o = none ∧ ∃ evs1 evs2 s1,
      (if n = eit .input then unassign .input x s else pure s) = ⟨evs1, .ok s1⟩ ∧
      (if n = eit .output then unassign .output x s1 else pure s1) = ⟨evs2, .ok s'⟩ := by
  obtain ⟨evs1, b, evs2, -, h2, -⟩ := Eff.bind_ok h
  rw [lockFails_eq, if_neg Bool.false_ne_true] at h2
  obtain ⟨evs3, s1, evs4, h3, h4, -⟩ := Eff.bind_ok h2
  obtain ⟨evs5, s2, evs6, h5, h6, -⟩ := Eff.bind_ok h4
  cases h6
  exact ⟨rfl, evs3, evs5, s1, h3, h5⟩

theorem good_delEndpoint {pIoObj : Option α} {n : ℤ} {o : Option Cmnerr} (hg : Good s.eng)
    (h : delEndpoint pIoObj n s = ⟨evs, .ok (o, s')⟩) : Good s'.eng := by
  rcases pIoObj with _ | x
  · cases h
    exact hg
  · obtain ⟨-, evs1, evs2, s1, h1, h2⟩ := delEndpoint_ok h
    have hg1 : Good s1.eng := by
      split_ifs at h1
      · exact keeps_unassign hg _ _ h1
      · cases h1
        exact hg
    split_ifs at h2
    · exact keeps_unassign hg1 _ _ h2
    · cases h2
      exact hg1

theorem timerRequest_ok {y : β} {o : Option Cmnerr}
    (h : timerRequest r (some y) s = ⟨evs, .ok (o, s')⟩) :
    o = none ∧ ∃ evs1, miscRequest r y s = ⟨evs1, .ok s'⟩ := by
  obtain ⟨evs1, b, evs2, -, h2, -⟩ := Eff.bind_ok h
  rw [lockFails_eq, if_neg Bool.false_ne_true] at h2
  obtain ⟨evs3, s1, evs4, h3, h4, -⟩ := Eff.bind_ok h2
  cases h4
  exact ⟨rfl, evs3, h3⟩

theorem good_timerRequest {pTimerObj : Option β} {o : Option Cmnerr} (hg : Good s.eng)
    (h : timerRequest r pTimerObj s = ⟨evs, .ok (o, s')⟩) : Good s'.eng := by
  rcases pTimerObj with _ | y
  · cases h
  · obtain ⟨-, evs1, h1⟩ := timerRequest_ok h
    exact keeps_miscRequest hg _ _ h1

variable [DecidableEq α]

theorem keeps_addIoObj (hg : Good s.eng) : Keeps (addIoObj ty i x s) := by
  unfold addIoObj
  rcases (s.eng.vec ty)[i]? with _ | t
  · exact Keeps.abort
  · exact keeps_ntfRequest hg

theorem keeps_assign (hg : Good s.eng) : Keeps (assign ty x s) := by
  unfold assign
  rcases pickTask (s.eng.vec ty) with _ | i
  · exact Keeps.abort
  · exact keeps_addIoObj hg

theorem addEndpoint_ok {n : ℤ} {o : Option Cmnerr}
    (h : addEndpoint (some x) n s = ⟨evs, .ok (o, s')⟩) : o = some .suc ∧ ∃ evs1 evs2 s1,
      (if n = eit .input then
        Eff.require (s.eng.vecInputTasks ≠ []) .noInputTask >>= fun _ => assign .input x s
      else pure s) = ⟨evs1, .ok s1⟩ ∧
      (if n = eit .output then assign .output x s1 else pure s1) = ⟨evs2, .ok s'⟩ := by
  obtain ⟨evs1, b, evs2, -, h2, -⟩ := Eff.bind_ok h
  rw [lockFails_eq, if_neg Bool.false_ne_true] at h2
  obtain ⟨evs3, s1, evs4, h3, h4, -⟩ := Eff.bind_ok h2
  obtain ⟨evs5, s2, evs6, h5, h6, -⟩ := Eff.bind_ok h4
  cases h6
  exact ⟨rfl, evs3, evs5, s1, h3, h5⟩

theorem good_addEndpoint {pIoObj : Option α} {n : ℤ} {o : Option Cmnerr} (hg : Good s.eng)
    (h : addEndpoint pIoObj n s = ⟨evs, .ok (o, s')⟩) : Good s'.eng := by
  rcases pIoObj with _ | x
  · cases h
    exact hg
  · obtain ⟨-, evs1, evs2, s1, h1, h2⟩ := addEndpoint_ok h
    have hg1 : Good s1.eng := by
      split_ifs at h1
      · exact Keeps.bind (fun _ _ _ => keeps_assign hg) _ _ h1
      · cases h1
        exact hg
    split_ifs at h2
    · exact keeps_assign hg1 _ _ h2
    · cases h2
      exact hg1

variable [DecidableEq β]

/-- **Every step** that returns keeps the invariant. -/
theorem good_step {a : Act α β} (hg : Good s.eng) : Keeps (step a s) := by
  cases a with
  | start sp =>
    refine Keeps.bind fun evs a h => ?_
    obtain ⟨i32Ret, e⟩ := a
    exact Keeps.pure (s := { s with eng := e }) (good_start hg h)
  | stop =>
    intro evs s' h
    obtain ⟨evs1, ⟨i32Ret, e⟩, evs2, h1, h2, -⟩ := Eff.bind_ok h
    cases h2
    rcases hc : s.eng.i32curstate with _ | _
    · rw [stop_stopped hc] at h1
      cases h1
      exact hg
    · have hf := stop_started hg hc
      rw [h1] at hf
      cases hf
  | request c =>
    refine Keeps.bind fun evs a h => ?_
    obtain ⟨o, s1⟩ := a
    refine Keeps.pure (s := s1) ?_
    cases c with
    | addEndpoint x n => exact good_addEndpoint hg h
    | delEndpoint x n => exact good_delEndpoint hg h
    | addTimer x => exact good_timerRequest hg h
    | delTimer x => exact good_timerRequest hg h
  | execIo ty i n =>
    show Keeps (execIo ty i n s)
    unfold execIo
    rcases ht : (s.eng.vec ty)[i]? with _ | t
    · exact Keeps.pure hg
    · dsimp only
      rcases hn : t.pIoEvtNotifier with _ | nt
      · exact Keeps.pure hg
      · exact keeps_notifier (f := Deferred.exec _ n) hg ht hn
  | execTimer =>
    show Keeps (execTimer s)
    unfold execTimer
    rcases s.eng.pMiscTask with _ | ⟨_ | st⟩
    · exact Keeps.pure hg
    · exact Keeps.pure hg
    · exact keeps_misc (f := Deferred.exec _ ()) hg
  | running i b =>
    exact Keeps.pure (s := { s with eng := setRunning i b s.eng }) (good_setRunning hg)
  | setIoEvt x ty evt => exact Keeps.pure hg

/-- **Every state an engine reaches.** -/
theorem good_run {objs : α → IIoObj} {as : List (Act α β)} (h : (run objs as).fault = none) :
    Good (run objs as).obj.eng := by
  have hI : Proc.Holds (fun _ s => Good s.eng) (fun _ _ => True) (run objs as) := by
    refine Proc.run_inv (C := fun _ _ => True) (fun a => ?_) good_init (Proc.meets_true as)
    exact Eff.Triple.of (fun _ s evs s' hs h => good_step hs.1 evs s' h) fun _ _ _ _ _ _ => trivial
  exact hI.alive h

end Steps

end SmartNet.Framework.Engine

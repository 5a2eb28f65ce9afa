import Mathlib.Data.List.Basic
import SmartNet.Utils.StateMachine

/-! # Nested calls of `post_evt`

The lock of a `CStateMachine` is recursive: a handler may call `post_evt` and `set_cur_state` on its
own machine, and the handlers that run then may do the same. The outer `post_evt` stores the end
state it has looked up before it called its handler. `Code` is what a handler, or a user of the
machine, does with it; the machine keeps a history of its changes of state.

* `tableOf_eq`: the table that calls of `reg_evt_state` leave;
* `post_ignored`, `post_plain`, `post_handled`: what a call of `post_evt` does;
* `path_of_keepsTarget`: the history is a path through the table;
* `law_iff_keepsTarget`: transitions are stored as they are registered exactly if no handler that
  succeeds leaves a state in which its event leads elsewhere. -/

namespace SmartNet.Utils.Transitions

open SmartNet.Common SmartNet.Lib SmartNet.Utils.StateMachine

/-- `m_evt_handler`. -/
abbrev Table (S E F : Type) := S → E → Option (SElem S F)

/-- A call of `reg_evt_state`. -/
structure Reg (S E F : Type) where
  iStartState : S
  iEvt : E
  iEndState : S
  fn : Option F

section
variable {S E F : Type} [DecidableEq S] [DecidableEq E]

/-- `reg_evt_state`. -/
def regEvtState (t : Table S E F) (r : Reg S E F) : ℤ × Table S E F :=
  -- there is an assert in front of the `-1`
  if (t r.iStartState r.iEvt).isSome then (-1, t)
  else (0, fun s e => if s = r.iStartState ∧ e = r.iEvt then some ⟨r.iEndState, r.fn⟩ else t s e)

/-- The table after calls of `reg_evt_state` on a new machine. -/
def tableOf (regs : List (Reg S E F)) : Table S E F :=
  regs.foldl (fun t r => (regEvtState t r).2) fun _ _ => none

theorem regEvtState_eq (t : Table S E F) (r : Reg S E F) (s : S) (e : E) :
    (regEvtState t r).2 s e =
      (t s e).or (if s = r.iStartState ∧ e = r.iEvt then some ⟨r.iEndState, r.fn⟩ else none) := by
  unfold regEvtState
  split_ifs with hreg hse hse
  · obtain ⟨rfl, rfl⟩ := hse
    rw [Option.or_of_isSome hreg]
  · rw [Option.or_none]
  · obtain ⟨rfl, rfl⟩ := hse
    rw [Option.not_isSome_iff_eq_none.mp hreg, Option.none_or]
    exact if_pos ⟨rfl, rfl⟩
  · rw [Option.or_none]
    exact if_neg hse

/-- **The first registration** for a state and an event stands. -/
theorem tableOf_eq (regs : List (Reg S E F)) (s : S) (e : E) :
    tableOf regs s e = (regs.find? fun r => s = r.iStartState ∧ e = r.iEvt).map fun r =>
      ⟨r.iEndState, r.fn⟩ := by
  have hfold : ∀ (regs : List (Reg S E F)) (t : Table S E F),
      regs.foldl (fun t r => (regEvtState t r).2) t s e =
        (t s e).or ((regs.find? fun r => s = r.iStartState ∧ e = r.iEvt).map fun r =>
          ⟨r.iEndState, r.fn⟩) := by
    intro regs
    induction regs with
    | nil => exact fun t => (Option.or_none).symm
    | cons r regs ih =>
      intro t
      rw [List.foldl_cons, ih, regEvtState_eq, Option.or_assoc, List.find?_cons]
      by_cases hse : s = r.iStartState ∧ e = r.iEvt
      · rw [if_pos hse, decide_eq_true hse]; rfl
      · rw [if_neg hse, decide_eq_false hse, Option.none_or]
  exact (hfold regs fun _ _ => none).trans (Option.none_or)

end

/-- A change of `m_i32curstate`, by `post_evt` of an event or by `set_cur_state`. -/
structure Change (S E : Type) where
  iEvt : Option E
  before : S
  after : S
  deriving DecidableEq

/-- `m_i32curstate`, and its history. -/
structure Machine (S E : Type) where
  curState : S
  changes : List (Change S E)
  deriving DecidableEq

/-- `m_i32curstate = t`. -/
def Machine.change {S E : Type} (o : Option E) (m : Machine S E) (t : S) : Machine S E :=
  ⟨t, m.changes ++ [⟨o, m.curState, t⟩]⟩

/-- What a handler does with its machine, or a user of it: calls, and a return code. The functions
`F` of the table get their arguments `i32CurState` and `i32NextState`, and `handler` is what they do
when this call of `post_evt` calls one of them. -/
inductive Code (S E F : Type)
  | done (ret : Cmnerr)
  | getCurState (next : S → Code S E F)
  | setCurState (iState : S) (next : Code S E F)
  | postEvt (iEvt : E) (handler : F → S → S → Code S E F) (next : ℤ → Code S E F)

variable {S E F : Type}

/-- An entry of the table, with the function as it behaves in this call. -/
def call (h : F → S → S → Machine S E → Cmnerr × Machine S E) (s : S) (el : SElem S F) :
    SElem S (Machine S E → Eff Empty Empty (Cmnerr × Machine S E)) :=
  ⟨el.iState, el.fn.map fun f m => pure (h f s el.iState m)⟩

/-- The value of a call that cannot fail. -/
def value {α : Type} (x : Eff Empty Empty α) : α :=
  match x.res with
  | .ok a => a

/-- `post_evt`, where the functions behave as `h`. -/
def post (table : Table S E F) (h : F → S → S → Machine S E → Cmnerr × Machine S E)
    (m : Machine S E) (iEvt : E) : ℤ × Machine S E :=
  value (StateMachine.postEvt Machine.curState (Machine.change (some iEvt))
    (fun s e => (table s e).map (call h s)) m iEvt)

/-- The return code, and the machine after the calls. -/
def Code.run (table : Table S E F) : Code S E F → Machine S E → Cmnerr × Machine S E
  | .done ret, m => (ret, m)
  | .getCurState next, m => (next m.curState).run table m
  | .setCurState t next, m => next.run table (m.change none t)
  | .postEvt e handler next, m =>
    let r := post table (fun f s t m => (handler f s t).run table m) m e
    (next r.1).run table r.2

/-- A call of `post_evt`: its event, the machine before it, what the handler returned and left, what
the call returned, and the machine after it. -/
structure Post (S E : Type) where
  iEvt : E
  before : Machine S E
  handled : Option (Cmnerr × Machine S E)
  ret : ℤ
  after : Machine S E

/-- What the handler of the event returns and leaves. -/
def handled (table : Table S E F) (h : F → S → S → Machine S E → Cmnerr × Machine S E)
    (m : Machine S E) (iEvt : E) : Option (Cmnerr × Machine S E) :=
  (table m.curState iEvt).bind fun el => el.fn.map fun f => h f m.curState el.iState m

/-- All calls of `post_evt`, the nested ones in front of those that they are nested in. -/
def Code.posts (table : Table S E F) : Code S E F → Machine S E → List (Post S E)
  | .done _, _ => []
  | .getCurState next, m => (next m.curState).posts table m
  | .setCurState t next, m => next.posts table (m.change none t)
  | .postEvt e handler next, m =>
    let h := fun f s t m => (handler f s t).run table m
    let r := post table h m e
    (match table m.curState e with
      | some ⟨t, some f⟩ => (handler f m.curState t).posts table m
      | _ => []) ++
      ⟨e, m, handled table h m e, r.1, r.2⟩ :: (next r.1).posts table r.2

/-! ### The law -/

/-- The change is one of `set_cur_state`, or goes to the end state that is registered for its event
in the state it is made in. -/
def Registered (table : Table S E F) (c : Change S E) : Prop :=
  ∀ e ∈ c.iEvt, (table c.before e).map SElem.iState = some c.after

/-- Registered changes from `s` to `t`. -/
def Path (table : Table S E F) : S → List (Change S E) → S → Prop
  | s, [], t => s = t
  | s, c :: cs, t => s = c.before ∧ Registered table c ∧ Path table c.after cs t

/-- The changes from `m` to `m'` are a path through the table. -/
def Continues (table : Table S E F) (m m' : Machine S E) : Prop :=
  ∃ cs, m'.changes = m.changes ++ cs ∧ Path table m.curState cs m'.curState

/-- A call of `post_evt` as it should be: an event that is not registered changes nothing, a handler
that fails has the last word, and a success stores the end state that is registered for the event in
the state the machine is in then. -/
structure Obeys (table : Table S E F) (p : Post S E) : Prop where
  ignored : table p.before.curState p.iEvt = none → p.ret = -1 ∧ p.after = p.before
  failed : ∀ ret m, p.handled = some (ret, m) → ret ≠ .suc → p.ret = -2 ∧ p.after = m
  stored : p.ret = 0 → ∃ (m : Machine S E) (el : SElem S F), p.after =
    m.change (some p.iEvt) el.iState ∧ table m.curState p.iEvt = some el

/-- All calls of `post_evt` are as they should be, and the changes are a path through the table. -/
structure Law (table : Table S E F) (code : Code S E F) (m : Machine S E) : Prop where
  posts : ∀ p ∈ code.posts table m, Obeys table p
  path : Continues table m (code.run table m).2

/-- A handler that succeeds leaves a state in which its event has the end state it was called
with. -/
def KeepsTarget (table : Table S E F) (p : Post S E) : Prop :=
  ∀ m, p.handled = some (.suc, m) → (table m.curState p.iEvt).map SElem.iState =
    (table p.before.curState p.iEvt).map SElem.iState

/-! ### What a call of `post_evt` does -/

variable {table : Table S E F} {h : F → S → S → Machine S E → Cmnerr × Machine S E}
  {m m' : Machine S E} {e : E} {s t u : S} {f : F} {cs ds : List (Change S E)} {p : Post S E}

theorem Machine.change_inj {o o' : Option E} (heq : m.change o t = m'.change o' u) :
    m.curState = m'.curState ∧ t = u := by
  obtain ⟨-, hlog⟩ := Machine.mk.inj heq
  obtain ⟨-, hcur, htarget⟩ := Change.mk.inj (List.cons.inj (List.append_inj_right' hlog rfl)).1
  exact ⟨hcur, htarget⟩

theorem post_ignored (hel : table m.curState e = none) : post table h m e = (-1, m) := by
  unfold post
  rw [postEvt_ignored (by rw [hel]; rfl)]; rfl

theorem post_plain (hel : table m.curState e = some ⟨t, none⟩) :
    post table h m e = (0, m.change (some e) t) := by
  unfold post StateMachine.postEvt
  dsimp only
  rw [hel]; rfl

theorem post_handled (hel : table m.curState e = some ⟨t, some f⟩) :
    post table h m e = if (h f m.curState t m).1 ≠ .suc then (-2, (h f m.curState t m).2)
      else (0, (h f m.curState t m).2.change (some e) t) := by
  unfold post StateMachine.postEvt
  dsimp only
  rw [hel]
  show value (if (h f m.curState t m).1 ≠ .suc then _ else _) = _
  split_ifs <;> rfl

theorem Code.post_of_mem : ∀ {c : Code S E F} {m : Machine S E}, p ∈ c.posts table m →
    ∃ h, p.handled = handled table h p.before p.iEvt ∧
      (p.ret, p.after) = post table h p.before p.iEvt
  | .done _, _, hp => by cases hp
  | .getCurState next, m, hp => Code.post_of_mem (c := next m.curState) hp
  | .setCurState _ next, _, hp => Code.post_of_mem (c := next) hp
  | .postEvt e handler next, m, hp => by
    rw [Code.posts] at hp
    rcases List.mem_append.mp hp with hp | hp
    · rcases hel : table m.curState e with - | ⟨t, - | f⟩
      · rw [hel] at hp; cases hp
      · rw [hel] at hp; cases hp
      · rw [hel] at hp
        exact Code.post_of_mem (c := handler f m.curState t) hp
    · rcases List.mem_cons.mp hp with rfl | hp
      · exact ⟨_, rfl, rfl⟩
      · exact Code.post_of_mem (c := next _) hp

theorem obeys_iff_unhandled (hnone : p.handled = none)
    (hignored : table p.before.curState p.iEvt = none → p.ret = -1 ∧ p.after = p.before)
    (hstored : p.ret = 0 → ∃ (m : Machine S E) (el : SElem S F), p.after =
      m.change (some p.iEvt) el.iState ∧ table m.curState p.iEvt = some el) :
    Obeys table p ↔ KeepsTarget table p := by
  refine ⟨fun _ m hm => ?_, fun _ => ⟨hignored, fun ret m hm => ?_, hstored⟩⟩
  · rw [hnone] at hm; cases hm
  · rw [hnone] at hm; cases hm

theorem obeys_iff_failed {ret : Cmnerr} (hel : table p.before.curState p.iEvt = some ⟨t, some f⟩)
    (hsome : p.handled = some (ret, m)) (hret : ret ≠ .suc) (hpret : p.ret = -2)
    (hafter : p.after = m) : Obeys table p ↔ KeepsTarget table p := by
  refine ⟨fun _ m1 hm1 => ?_, fun _ => ⟨fun h0 => ?_, fun ret1 m1 hm1 _ => ?_, fun h0 => ?_⟩⟩
  · rw [hsome] at hm1
    cases hm1
    exact absurd rfl hret
  · rw [hel] at h0; cases h0
  · rw [hsome] at hm1
    cases hm1
    exact ⟨hpret, hafter⟩
  · rw [hpret] at h0; cases h0

theorem obeys_iff_stored (hel : table p.before.curState p.iEvt = some ⟨t, some f⟩)
    (hsome : p.handled = some (.suc, m)) (hret : p.ret = 0)
    (hafter : p.after = m.change (some p.iEvt) t) : Obeys table p ↔ KeepsTarget table p := by
  constructor
  · intro hobeys m1 hm1
    obtain rfl := (Prod.mk.inj (Option.some.inj (hsome.symm.trans hm1))).2
    obtain ⟨m2, el, hstored, hel2⟩ := hobeys.stored hret
    -- the change tells that `m2` is in the state the handler has left
    obtain ⟨hcur, rfl⟩ := Machine.change_inj (hafter.symm.trans hstored)
    rw [hcur, hel2, hel]; rfl
  · intro hkeeps
    refine ⟨fun h0 => ?_, fun ret m1 hm1 hne => ?_, fun _ => ?_⟩
    · rw [hel] at h0; cases h0
    · rw [hsome] at hm1
      cases hm1
      exact absurd rfl hne
    · have hsame := hkeeps m hsome
      rw [hel] at hsame
      obtain ⟨el, hel2, heq⟩ := Option.map_eq_some_iff.mp hsame
      exact ⟨m, el, by rw [hafter, heq], hel2⟩

/-- **A call of `post_evt` obeys exactly if its handler keeps the target.** -/
theorem obeys_iff (hhandled : p.handled = handled table h p.before p.iEvt)
    (hpost : (p.ret, p.after) = post table h p.before p.iEvt) :
    Obeys table p ↔ KeepsTarget table p := by
  rcases hel : table p.before.curState p.iEvt with - | ⟨t, - | f⟩
  · rw [post_ignored hel] at hpost
    obtain ⟨hret, hafter⟩ := Prod.mk.inj hpost
    have hnone : p.handled = none := by rw [hhandled, handled, hel]; rfl
    refine obeys_iff_unhandled hnone (fun _ => ⟨hret, hafter⟩) (fun h0 => ?_)
    rw [hret] at h0; cases h0
  · rw [post_plain hel] at hpost
    obtain ⟨-, hafter⟩ := Prod.mk.inj hpost
    have hnone : p.handled = none := by rw [hhandled, handled, hel]; rfl
    refine obeys_iff_unhandled hnone (fun h0 => ?_) fun _ => ⟨p.before, _, hafter, hel⟩
    rw [hel] at h0; cases h0
  · rw [post_handled hel] at hpost
    have hsome : p.handled = some (h f p.before.curState t p.before) := by
      rw [hhandled, handled, hel]; rfl
    rcases hr : h f p.before.curState t p.before with ⟨ret, m⟩
    rw [hr] at hpost hsome
    by_cases hret : ret = .suc
    · subst hret
      obtain ⟨hret, hafter⟩ := Prod.mk.inj hpost
      exact obeys_iff_stored hel hsome hret hafter
    · rw [if_pos hret] at hpost
      obtain ⟨hret', hafter⟩ := Prod.mk.inj hpost
      exact obeys_iff_failed hel hsome hret hret' hafter

/-! ### The history -/

theorem Path.append : ∀ {cs : List (Change S E)} {s : S}, Path table s cs t → Path table t ds u →
    Path table s (cs ++ ds) u
  | [], _, hst, hds => by subst hst; exact hds
  | _ :: _, _, ⟨hs, hc, hcs⟩, hds => ⟨hs, hc, hcs.append hds⟩

theorem Continues.refl (m : Machine S E) : Continues table m m :=
  ⟨[], (List.append_nil _).symm, rfl⟩

theorem Continues.trans {m1 m2 m3 : Machine S E} (h1 : Continues table m1 m2)
    (h2 : Continues table m2 m3) : Continues table m1 m3 := by
  obtain ⟨cs, hcs, hpath1⟩ := h1
  obtain ⟨ds, hds, hpath2⟩ := h2
  exact ⟨cs ++ ds, by rw [hds, hcs, List.append_assoc], hpath1.append hpath2⟩

theorem Continues.change {o : Option E} (hreg : Registered table ⟨o, m.curState, t⟩) :
    Continues table m (m.change o t) :=
  ⟨[⟨o, m.curState, t⟩], rfl, rfl, hreg, rfl⟩

/-- **A call of `post_evt` continues the path** if its handler does and keeps the target. -/
theorem continues_post
    (hhandler : ∀ t f, table m.curState e = some ⟨t, some f⟩ →
      Continues table m (h f m.curState t m).2)
    (hkeeps : ∀ m', handled table h m e = some (.suc, m') →
      (table m'.curState e).map SElem.iState = (table m.curState e).map SElem.iState) :
    Continues table m (post table h m e).2 := by
  rcases hel : table m.curState e with - | ⟨t, - | f⟩
  · rw [post_ignored hel]
    exact .refl m
  · rw [post_plain hel]
    refine .change fun e' he' => ?_
    obtain rfl := Option.some.inj he'
    rw [hel]; rfl
  · rw [post_handled hel]
    have hnested := hhandler t f hel
    split_ifs with hret
    · exact hnested
    · push Not at hret
      refine hnested.trans (.change fun e' he' => ?_)
      obtain rfl := Option.some.inj he'
      rw [hkeeps _ (by rw [handled, hel, ← hret]; rfl), hel]; rfl

/-- **The history is a path** if every handler that succeeds keeps the target. -/
theorem path_of_keepsTarget : ∀ {c : Code S E F} {m : Machine S E},
    (∀ p ∈ c.posts table m, KeepsTarget table p) → Continues table m (c.run table m).2
  | .done _, m, _ => .refl m
  | .getCurState next, m, hall => path_of_keepsTarget (c := next m.curState) hall
  | .setCurState t next, m, hall =>
    (Continues.change fun _ he => by cases he).trans (path_of_keepsTarget (c := next) hall)
  | .postEvt e handler next, m, hall => by
    rw [Code.posts] at hall
    rw [Code.run]
    refine (continues_post (fun t f hel => ?_) fun m' hm' => ?_).trans
      (path_of_keepsTarget (c := next _) fun p hp => ?_)
    · refine path_of_keepsTarget (c := handler f m.curState t) fun p hp => ?_
      exact hall p (List.mem_append_left _ (by rw [hel]; exact hp))
    · exact hall _ (List.mem_append_right _ List.mem_cons_self) m' hm'
    · exact hall p (List.mem_append_right _ (List.mem_cons_of_mem _ hp))

/-- **Transitions are stored as they are registered, and no nested one is overwritten, exactly if no
handler that succeeds leaves a state in which its event leads elsewhere.** -/
theorem law_iff_keepsTarget [DecidableEq S] [DecidableEq E] (regs : List (Reg S E F))
    (code : Code S E F) (m : Machine S E) :
    Law (tableOf regs) code m ↔
      ∀ p ∈ code.posts (tableOf regs) m, KeepsTarget (tableOf regs) p := by
  constructor
  · intro hlaw p hp
    obtain ⟨h, hhandled, hpost⟩ := Code.post_of_mem hp
    exact (obeys_iff hhandled hpost).mp (hlaw.posts p hp)
  · intro hall
    refine ⟨fun p hp => ?_, path_of_keepsTarget hall⟩
    obtain ⟨h, hhandled, hpost⟩ := Code.post_of_mem hp
    exact (obeys_iff hhandled hpost).mpr (hall p hp)

/-! ### A nested transition -/

/-- Event 1 leads from state 0 to 1, with a handler; event 2 leads from 0 to 2. -/
private def twoEvents : List (Reg ℤ ℤ Unit) := [⟨0, 1, 1, some ()⟩, ⟨0, 2, 2, none⟩]

/-- Event 1 is posted, and its handler posts event 2. -/
private def nested : Code ℤ ℤ Unit :=
  .postEvt 1 (fun _ _ _ => .postEvt 2 (fun _ _ _ => .done .suc) fun _ => .done .suc) fun _ =>
    .done .suc

/-- **A nested transition is overwritten**: the machine goes from 0 to 2, and then to 1, where no
event leads from 2. -/
theorem nested_overwritten :
    (nested.run (tableOf twoEvents) ⟨0, []⟩).2 = ⟨1, [⟨some 2, 0, 2⟩, ⟨some 1, 2, 1⟩]⟩ ∧
      ¬ Law (tableOf twoEvents) nested ⟨0, []⟩ := by
  refine ⟨by decide, fun hlaw => ?_⟩
  obtain ⟨cs, hcs, hpath⟩ := hlaw.path
  obtain rfl : [⟨some 2, 0, 2⟩, ⟨some 1, 2, 1⟩] = cs := hcs
  obtain ⟨-, -, -, hreg, -⟩ := hpath
  exact absurd (hreg 1 rfl) (by decide)

end SmartNet.Utils.Transitions

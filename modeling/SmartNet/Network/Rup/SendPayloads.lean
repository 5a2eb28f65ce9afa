import SmartNet.Network.Rup.SendOrder

/-! # What a `CRupSock` is given to send

A thread that calls `send` has its payload in hand until the payload is queued, its direct `::send`
is made, or it is refused.

* `pending`: the payload a thread has in hand;
* `Moves`: everything a step does with payloads, `step_moves`;
* `Kept`: what holds of all payloads that are sent holds of all that are in hand and accepted;
* `kernel_prefix`: the kernel takes the bytes of `accepted` in order. -/

namespace SmartNet.Network.Rup.SendPayloads

open SmartNet.Common SmartNet.Lib.Run SmartNet.Memory.MemBlock SmartNet.Network.Rup.SendQueue
open SmartNet.Network.Rup.SendOrder

variable {τ : Type}

/-- The payload of a call of `send` that has not got the lock. -/
def Outside.payload : Outside → Option Payload
  | .tryLock p | .queue p => some p
  | .idle | .lock => none

/-- The payload of the thread that holds the lock, while it is neither queued nor sent in part. -/
def Inside.payload : Inside → Option Payload
  | .check p | .direct p => some p
  | _ => none

/-- A thread that holds the lock is in no other call. -/
def HolderIdle (w : Socket τ) : Prop := ∀ t i, w.lkSending = some (t, i) → w.pc t = .idle

theorem holderIdle_init : HolderIdle (init : Socket τ) := by
  intro t i h
  simp [init] at h

/-- The thread that holds the lock stays in its call, and gives the lock to nobody else. -/
theorem inside_pc (w : Socket τ) (t : τ) (i : Inside) (io : SendIo) :
    (inside w t i io).pc = w.pc ∧
      ∀ u j, (inside w t i io).lkSending = some (u, j) → u = t ∨ w.lkSending = some (u, j) := by
  have hrec : ∀ d, (w.record d).pc = w.pc := by
    intro d
    unfold Socket.record
    split_ifs <;> rfl
  cases i with
  | check p =>
    unfold inside
    dsimp only
    split_ifs
    · exact ⟨hrec _, fun u j h => by simp at h⟩
    · exact ⟨rfl, fun u j h => by simp at h; exact Or.inl h.1.symm⟩
  | direct p =>
    unfold inside
    dsimp only
    split
    · exact ⟨rfl, fun u j h => by simp at h; exact Or.inl h.1.symm⟩
    · split_ifs
      · exact ⟨rfl, fun u j h => Or.inr h⟩
      all_goals exact ⟨rfl, fun u j h => by simp at h; exact Or.inl h.1.symm⟩
  | pushFront b => exact ⟨rfl, fun u j h => by simp [inside] at h; exact Or.inl h.1.symm⟩
  | unlock => exact ⟨rfl, fun u j h => by simp [inside] at h⟩
  | swap =>
    unfold inside
    dsimp only
    split_ifs
    all_goals exact ⟨rfl, fun u j h => by simp at h; exact Or.inl h.1.symm⟩
  | flush =>
    unfold inside
    dsimp only
    split
    · exact ⟨rfl, fun u j h => by simp at h; exact Or.inl h.1.symm⟩
    · split
      · split_ifs
        · exact ⟨rfl, fun u j h => Or.inr h⟩
        · exact ⟨rfl, fun u j h => by simp at h; exact Or.inl h.1.symm⟩
      · split_ifs
        · exact ⟨rfl, fun u j h => Or.inr h⟩
        all_goals exact ⟨rfl, fun u j h => by simp at h; exact Or.inl h.1.symm⟩

variable [DecidableEq τ]

theorem outside_pc {w : Socket τ} {t : τ} (o : Outside) (a : Act)
    (hno : ∀ i, w.lkSending ≠ some (t, i)) (hI : HolderIdle w) :
    HolderIdle (outside w t o a) := by
  have hgo : ∀ {v : Socket τ} (o' : Outside), v.lkSending = w.lkSending →
      v.pc = Function.update w.pc t o' → HolderIdle v := by
    intro v o' hv hpc u i hu
    rw [hv] at hu
    have hne : u ≠ t := fun h => hno i (h ▸ hu)
    rw [hpc, Function.update_of_ne hne]
    exact hI u i hu
  have htake : ∀ {v : Socket τ} (j : Inside), v.lkSending = some (t, j) →
      v.pc = Function.update w.pc t .idle → HolderIdle v := by
    intro v j hv hpc u i hu
    simp only [hv, Option.some.injEq, Prod.mk.injEq] at hu
    rw [hpc, ← hu.1, Function.update_self]
  unfold outside
  split
  · exact hgo (.tryLock _) rfl rfl
  · exact hgo .lock rfl rfl
  · split_ifs
    · exact htake (.check _) rfl rfl
    · exact hgo (.queue _) rfl rfl
  · refine hgo .idle ?_ ?_
    all_goals
      unfold Socket.record
      split_ifs <;> rfl
  · split_ifs
    · exact htake .swap rfl rfl
    · exact hI
  · exact hI

theorem HolderIdle.step {w : Socket τ} (hI : HolderIdle w) (x : τ × Act) :
    HolderIdle (step w x) := by
  obtain ⟨t, a⟩ := x
  unfold SendOrder.step
  dsimp only
  split_ifs
  · exact hI
  · split
    · rename_i u i hl
      split_ifs with hu
      · subst hu
        cases a with
        | go io =>
          obtain ⟨hpc, hlk⟩ := inside_pc w u i io
          intro s j hs
          rw [hpc]
          rcases hlk s j hs with rfl | hs
          · exact hI s i hl
          · exact hI s j hs
        | send p => exact hI
        | handleCanSend => exact hI
      · refine outside_pc _ a (fun j hj => hu ?_) hI
        rw [hl] at hj
        simp only [Option.some.injEq, Prod.mk.injEq] at hj
        exact hj.1
    · rename_i hl
      exact outside_pc _ a (fun j hj => by simp [hl] at hj) hI

/-- The payload that thread `t` has in hand. -/
def pending (w : Socket τ) (t : τ) : Option Payload :=
  match w.lkSending with
  | some (u, i) => if u = t then Inside.payload i else Outside.payload (w.pc t)
  | none => Outside.payload (w.pc t)

/-- What a step of thread `t` does with payloads: none is moved; a call of `send` begins; the
payload in hand is queued, before or after a direct `::send` was started; its own direct `::send` is
made; or that finds no room. -/
inductive Moves (t : τ) (a : Act) (w v : Socket τ) : Prop
  | quiet (ha : v.accepted = w.accepted) (hs : v.since = w.since) (hp : pending v = pending w)
  | begins (p : Payload) (hact : a = .send p) (ha : v.accepted = w.accepted)
      (hs : v.since = w.since) (hno : pending w t = none)
      (hp : pending v = Function.update (pending w) t (some p))
  | queued (p : Payload) (hw : pending w t = some p) (hst : w.started = false)
      (ha : v.accepted = w.accepted ++ [p.mem.data]) (hs : v.since = w.since)
      (hp : pending v = Function.update (pending w) t none)
  | later (p : Payload) (hw : pending w t = some p) (hst : w.started = true)
      (hno : ∀ i, w.lkSending ≠ some (t, i))
      (ha : v.accepted = w.accepted) (hs : v.since = w.since ++ [p.mem.data])
      (hp : pending v = Function.update (pending w) t none)
  | sent (p : Payload) (hw : w.lkSending = some (t, .direct p))
      (ha : v.accepted = w.accepted ++ (p.mem.data :: w.since)) (hs : v.since = [])
      (hp : pending v = Function.update (pending w) t none)
  | refused (p : Payload) (io : SendIo) (hw : w.lkSending = some (t, .direct p)) (hact : a = .go io)
      (hio : SendIo.takes p.mem io = none)
      (ha : v.accepted = w.accepted ++ w.since) (hs : v.since = [])
      (hp : pending v = Function.update (pending w) t none)

variable {w v : Socket τ} {t u : τ} {p : Payload}

theorem pending_holder {i : Inside} (h : w.lkSending = some (t, i)) :
    pending w t = Inside.payload i := by
  unfold pending
  rw [h]
  simp

theorem pending_other (h : ∀ i, w.lkSending ≠ some (u, i)) :
    pending w u = Outside.payload (w.pc u) := by
  unfold pending
  rcases hl : w.lkSending with - | ⟨s, i⟩
  · rfl
  · have hne : s ≠ u := fun hs => h i (hs ▸ hl)
    simp [hne]

theorem pending_inside {i : Inside} (lk : Option (τ × Inside)) (hI : HolderIdle w)
    (hl : w.lkSending = some (t, i)) (hpc : v.pc = w.pc) (hv : v.lkSending = lk)
    (hlk : lk = none ∨ ∃ j, lk = some (t, j)) :
    pending v = Function.update (pending w) t (lk.bind fun x => Inside.payload x.2) := by
  have hidle := hI t i hl
  funext s
  by_cases hs : s = t
  · subst hs
    rw [Function.update_self]
    rcases hlk with rfl | ⟨j, rfl⟩
    · rw [pending_other (by simp [hv]), hpc, hidle]
      rfl
    · rw [pending_holder hv]
      rfl
  · have hother : pending w s = Outside.payload (w.pc s) := by
      refine pending_other fun j hj => hs ?_
      rw [hl] at hj
      simp only [Option.some.injEq, Prod.mk.injEq] at hj
      exact hj.1.symm
    have hother' : pending v s = Outside.payload (v.pc s) := by
      refine pending_other fun j hj => hs ?_
      rw [hv] at hj
      rcases hlk with rfl | ⟨k, rfl⟩
      · simp at hj
      · simp only [Option.some.injEq, Prod.mk.injEq] at hj
        exact hj.1.symm
    rw [Function.update_of_ne hs, hother, hother', hpc]

theorem pending_outside (o : Outside) (hno : ∀ i, w.lkSending ≠ some (t, i))
    (hv : v.lkSending = w.lkSending) (hpc : v.pc = Function.update w.pc t o) :
    pending v = Function.update (pending w) t (Outside.payload o) := by
  funext s
  by_cases hs : s = t
  · subst hs
    rw [Function.update_self, pending_other (fun i => hv ▸ hno i), hpc, Function.update_self]
  · rw [Function.update_of_ne hs]
    unfold pending
    rw [hv, hpc, Function.update_of_ne hs]

/-- **A step of the thread that holds the lock.** -/
theorem inside_moves {i : Inside} (io : SendIo) (hI : HolderIdle w)
    (hl : w.lkSending = some (t, i)) : Moves t (.go io) w (inside w t i io) := by
  have hmine : pending w t = Inside.payload i := pending_holder hl
  have hkeep : ∀ {v : Socket τ} (lk : Option (τ × Inside)), v.accepted = w.accepted →
      v.since = w.since → v.pc = w.pc → v.lkSending = lk → (lk = none ∨ ∃ j, lk = some (t, j)) →
        (lk.bind fun x => Inside.payload x.2) = Inside.payload i → Moves t (.go io) w v := by
    intro v lk ha hs hpc hv hlk hsame
    refine .quiet ha hs ?_
    rw [pending_inside lk hI hl hpc hv hlk, hsame, ← hmine, Function.update_eq_self]
  cases i with
  | check p =>
    have hno : w.started = false := by simp [Socket.started, hl]
    unfold inside
    dsimp only
    split_ifs with hq
    · refine .queued p hmine hno ?_ ?_ ?_
      · simp [Socket.record, hno]
      · simp [Socket.record, hno]
      · exact pending_inside none hI hl (by simp [Socket.record, hno]) rfl (Or.inl rfl)
    · exact hkeep (some (t, .direct p)) rfl rfl rfl rfl (Or.inr ⟨_, rfl⟩) rfl
  | direct p =>
    unfold inside
    dsimp only
    split
    · rename_i hio
      refine .refused p io hl rfl hio rfl rfl ?_
      exact pending_inside (some (t, .unlock)) hI hl rfl rfl (Or.inr ⟨_, rfl⟩)
    · split_ifs with h0 hk
      · exact hkeep (some (t, .direct p)) rfl rfl rfl hl (Or.inr ⟨_, rfl⟩) rfl
      · refine .sent p hl rfl rfl ?_
        exact pending_inside (some (t, .pushFront _)) hI hl rfl rfl (Or.inr ⟨_, rfl⟩)
      · refine .sent p hl rfl rfl ?_
        exact pending_inside (some (t, .unlock)) hI hl rfl rfl (Or.inr ⟨_, rfl⟩)
  | pushFront b => exact hkeep (some (t, .unlock)) rfl rfl rfl rfl (Or.inr ⟨_, rfl⟩) rfl
  | unlock => exact hkeep none rfl rfl rfl rfl (Or.inl rfl) rfl
  | swap =>
    unfold inside
    dsimp only
    split_ifs
    · exact hkeep (some (t, .flush)) rfl rfl rfl rfl (Or.inr ⟨_, rfl⟩) rfl
    · exact hkeep (some (t, .flush)) rfl rfl rfl rfl (Or.inr ⟨_, rfl⟩) rfl
  | flush =>
    have hgo : ∀ {v : Socket τ} (j : Inside), v.accepted = w.accepted → v.since = w.since →
        v.pc = w.pc → v.lkSending = some (t, j) → Inside.payload j = none → Moves t (.go io) w v :=
      fun j ha hs hpc hv hj => hkeep (some (t, j)) ha hs hpc hv (Or.inr ⟨j, rfl⟩) hj
    unfold inside
    dsimp only
    split
    · exact hgo .unlock rfl rfl rfl rfl rfl
    · split
      · split_ifs
        · exact hgo .flush rfl rfl rfl hl rfl
        · exact hgo .unlock rfl rfl rfl rfl rfl
      · split_ifs with h0 hk hq
        · exact hgo .flush rfl rfl rfl hl rfl
        · exact hgo .unlock rfl rfl rfl rfl rfl
        · exact hgo .swap rfl rfl rfl rfl rfl
        · exact hgo .flush rfl rfl rfl rfl rfl

/-- **A step of another thread.** -/
theorem outside_moves (a : Act) (hno : ∀ i, w.lkSending ≠ some (t, i)) :
    Moves t a w (outside w t (w.pc t) a) := by
  have hmine : pending w t = Outside.payload (w.pc t) := pending_other hno
  have hgo : ∀ {v : Socket τ} (o : Outside), v.accepted = w.accepted → v.since = w.since →
      v.lkSending = w.lkSending → v.pc = Function.update w.pc t o →
        Outside.payload o = Outside.payload (w.pc t) → Moves t a w v := by
    intro v o ha hs hv hpc hsame
    refine .quiet ha hs ?_
    rw [pending_outside o hno hv hpc, hsame, ← hmine, Function.update_eq_self]
  have hstay : Moves t a w w := .quiet rfl rfl rfl
  -- the thread takes the lock with what it has in hand
  have htake : ∀ {v : Socket τ} (i : Inside), v.accepted = w.accepted → v.since = w.since →
      v.lkSending = some (t, i) → v.pc = Function.update w.pc t .idle → w.lkSending = none →
        Inside.payload i = Outside.payload (w.pc t) → Moves t a w v := by
    intro v i ha hs hv hpc hnone hsame
    refine .quiet ha hs ?_
    funext s
    by_cases hs : t = s
    · subst hs
      rw [pending_holder hv, hmine, hsame]
    · unfold pending
      simp [hv, hnone, hs, hpc, Function.update_of_ne (Ne.symm hs)]
  cases ho : w.pc t with
  | idle =>
    cases a with
    | send p =>
      refine .begins p rfl rfl rfl (by rw [hmine, ho]; rfl) ?_
      exact pending_outside (.tryLock p) hno rfl rfl
    | handleCanSend => exact hgo .lock rfl rfl rfl rfl (by rw [ho]; rfl)
    | go io => exact hstay
  | tryLock p =>
    cases a with
    | go io =>
      unfold outside
      dsimp only
      split_ifs with hnone
      · exact htake (.check p) rfl rfl rfl rfl (by simpa using hnone) (by rw [ho]; rfl)
      · exact hgo (.queue p) rfl rfl rfl rfl (by rw [ho]; rfl)
    | send p => exact hstay
    | handleCanSend => exact hstay
  | queue p =>
    cases a with
    | go io =>
      have hw : pending w t = some p := by rw [hmine, ho]; rfl
      have hp : ∀ {v : Socket τ}, v.lkSending = w.lkSending → v.pc = Function.update w.pc t .idle →
          pending v = Function.update (pending w) t none :=
        fun hv hpc => pending_outside .idle hno hv hpc
      by_cases hst : w.started = true
      · refine .later p hw hst hno ?_ ?_ (hp ?_ ?_)
        all_goals simp [outside, Socket.record, hst]
      · have hst' : w.started = false := by simpa using hst
        refine .queued p hw hst' ?_ ?_ (hp ?_ ?_)
        all_goals simp [outside, Socket.record, hst']
    | send p => exact hstay
    | handleCanSend => exact hstay
  | lock =>
    cases a with
    | go io =>
      unfold outside
      dsimp only
      split_ifs with hnone
      · exact htake .swap rfl rfl rfl rfl (by simpa using hnone) (by rw [ho]; rfl)
      · exact hstay
    | send p => exact hstay
    | handleCanSend => exact hstay

/-- **A step** of any thread. -/
theorem step_moves (hI : HolderIdle w) (t : τ) (a : Act) : Moves t a w (step w (t, a)) := by
  unfold step
  dsimp only
  split_ifs
  · exact .quiet rfl rfl rfl
  · split
    · rename_i u i hl
      split_ifs with hu
      · subst hu
        cases a with
        | go io => exact inside_moves io hI hl
        | send p => exact .quiet rfl rfl rfl
        | handleCanSend => exact .quiet rfl rfl rfl
      · refine outside_moves a fun j hj => hu ?_
        rw [hl] at hj
        simp only [Option.some.injEq, Prod.mk.injEq] at hj
        exact hj.1
    · rename_i hl
      exact outside_moves a fun j hj => by simp [hl] at hj

omit [DecidableEq τ] in
theorem inside_direct {i : Inside} {io : SendIo} (hl : w.lkSending = some (t, i))
    (h : (inside w t i io).lkSending = some (u, .direct p)) :
    w.lkSending = some (u, .direct p) ∨ w.started = false := by
  cases i with
  | direct q =>
    unfold inside at h
    dsimp only at h
    split at h
    · simp at h
    · split_ifs at h with h0 hk
      · exact Or.inl h
      · simp at h
      · simp at h
  | check q => exact Or.inr (by simp [Socket.started, hl])
  | pushFront b => exact Or.inr (by simp [Socket.started, hl])
  | unlock => exact Or.inr (by simp [Socket.started, hl])
  | swap => exact Or.inr (by simp [Socket.started, hl])
  | flush => exact Or.inr (by simp [Socket.started, hl])

theorem outside_direct {o : Outside} {a : Act}
    (h : (outside w t o a).lkSending = some (u, .direct p)) :
    w.lkSending = some (u, .direct p) := by
  unfold outside at h
  split at h
  · exact h
  · exact h
  · split_ifs at h
    · simp at h
    · exact h
  · unfold Socket.record at h
    split_ifs at h <;> exact h
  · split_ifs at h
    · simp at h
    · exact h
  · exact h

theorem direct_step {x : τ × Act} (h : (step w x).lkSending = some (u, .direct p)) :
    w.lkSending = some (u, .direct p) ∨ w.started = false := by
  obtain ⟨t, a⟩ := x
  unfold step at h
  dsimp only at h
  split_ifs at h
  · exact Or.inl h
  · split at h
    · rename_i s i hl
      split_ifs at h with hs
      · subst hs
        cases a with
        | go io => exact inside_direct hl h
        | send q => exact Or.inl h
        | handleCanSend => exact Or.inl h
      · exact Or.inl (outside_direct h)
    · exact Or.inl (outside_direct h)

/-- The payload whose direct `::send` thread `t` is about to make. -/
def directOf (w : Socket τ) (t : τ) : Option Payload :=
  match w.lkSending with
  | some (u, .direct p) => if u = t then some p else none
  | _ => none

theorem directOf_eq : directOf w t = some p ↔ w.lkSending = some (t, .direct p) := by
  unfold directOf
  split
  · rename_i u q hl
    rw [hl]
    by_cases hu : u = t <;> simp [hu]
  · rename_i hno
    simp only [reduceCtorEq, false_iff]
    exact hno t p

instance decidableFlushed (w : Socket τ) : ∀ x, Decidable (Flushed w x)
  | (t, .go (.took _)) => decidable_of_iff ((directOf w t).isSome → w.qSending.isEmpty) (by
      simp only [Flushed, Option.isSome_iff_exists, directOf_eq, List.isEmpty_iff]
      exact ⟨fun h p hp => h ⟨p, hp⟩, fun h hp => h hp.choose hp.choose_spec⟩)
  | (_, .go .wouldBlock) => .isTrue trivial
  | (_, .go .intr) => .isTrue trivial
  | (_, .go .err) => .isTrue trivial
  | (_, .send _) => .isTrue trivial
  | (_, .handleCanSend) => .isTrue trivial

/-! ### What is kept -/

/-- The data of all payloads that are in hand, or were accepted, satisfy `P`. -/
structure Kept (P : List UInt8 → Prop) (w : Socket τ) : Prop where
  inHand : ∀ t p, pending w t = some p → P p.mem.data
  accepted : ∀ d ∈ w.accepted, P d
  since : ∀ d ∈ w.since, P d

theorem kept_init (P : List UInt8 → Prop) : Kept P (init : Socket τ) := by
  refine ⟨fun t p h => ?_, fun d hd => ?_, fun d hd => ?_⟩
  · simp [pending, init, Outside.payload] at h
  · simp [init] at hd
  · simp [init] at hd

/-- **One step** adds payloads that satisfy `P` behind those accepted. -/
theorem Kept.step {P : List UInt8 → Prop} {a : Act} (h : Kept P w) (hm : Moves t a w v)
    (hP : ∀ p, a = .send p → P p.mem.data) :
    Kept P v ∧ ∃ l, v.accepted = w.accepted ++ l ∧ ∀ d ∈ l, P d := by
  have hdone : pending v = Function.update (pending w) t none →
      ∀ u p, pending v u = some p → P p.mem.data := by
    intro hp u p hu
    rw [hp] at hu
    by_cases hut : u = t
    · simp [hut] at hu
    · rw [Function.update_of_ne hut] at hu
      exact h.inHand u p hu
  have happ : ∀ {l1 l2 : List (List UInt8)}, (∀ d ∈ l1, P d) → (∀ d ∈ l2, P d) →
      ∀ d ∈ l1 ++ l2, P d := fun h1 h2 => List.forall_mem_append.mpr ⟨h1, h2⟩
  have hone : ∀ p, pending w t = some p → ∀ d ∈ [p.mem.data], P d := by
    intro p hp d hd
    rw [List.mem_singleton.mp hd]
    exact h.inHand t p hp
  have hnil : ∀ d ∈ ([] : List (List UInt8)), P d := fun d hd => absurd hd List.not_mem_nil
  rcases hm with ⟨ha, hs, hp⟩ | ⟨p, hact, ha, hs, -, hp⟩ | ⟨p, hw, -, ha, hs, hp⟩ |
    ⟨p, hw, -, -, ha, hs, hp⟩ | ⟨p, hw, ha, hs, hp⟩ |
    ⟨p, io, -, -, -, ha, hs, hp⟩
  · exact ⟨⟨hp ▸ h.inHand, ha ▸ h.accepted, hs ▸ h.since⟩, [], by simp [ha], hnil⟩
  · refine ⟨⟨fun u q hu => ?_, ha ▸ h.accepted, hs ▸ h.since⟩, [], by simp [ha], hnil⟩
    rw [hp] at hu
    by_cases hut : u = t
    · rw [hut, Function.update_self, Option.some.injEq] at hu
      exact hu ▸ hP p hact
    · rw [Function.update_of_ne hut] at hu
      exact h.inHand u q hu
  · refine ⟨⟨hdone hp, ?_, hs ▸ h.since⟩, _, ha, hone p hw⟩
    rw [ha]
    exact happ h.accepted (hone p hw)
  · refine ⟨⟨hdone hp, ha ▸ h.accepted, ?_⟩, [], by simp [ha], hnil⟩
    rw [hs]
    exact happ h.since (hone p hw)
  · have hl : ∀ d ∈ p.mem.data :: w.since, P d := happ (hone p (pending_holder hw)) h.since
    refine ⟨⟨hdone hp, ?_, hs ▸ hnil⟩, _, ha, hl⟩
    rw [ha]
    exact happ h.accepted hl
  · refine ⟨⟨hdone hp, ?_, hs ▸ hnil⟩, _, ha, h.since⟩
    rw [ha]
    exact happ h.accepted h.since

theorem outside_kernel (w : Socket τ) (t : τ) (o : Outside) (a : Act) :
    (outside w t o a).kernel = w.kernel := by
  unfold outside
  split
  · rfl
  · rfl
  · split_ifs <;> rfl
  · unfold Socket.record
    split_ifs <;> rfl
  · split_ifs <;> rfl
  · rfl

omit [DecidableEq τ] in
theorem inside_kernel (w : Socket τ) (t : τ) (i : Inside) (io : SendIo) :
    w.kernel <+: (inside w t i io).kernel := by
  cases i with
  | check p =>
    unfold inside Socket.record
    split_ifs <;> exact List.prefix_rfl
  | direct p =>
    unfold inside
    dsimp only
    split
    · exact List.prefix_rfl
    · split_ifs
      · exact List.prefix_rfl
      all_goals exact List.prefix_append _ _
  | pushFront b => exact List.prefix_rfl
  | unlock => exact List.prefix_rfl
  | swap =>
    unfold inside
    dsimp only
    split_ifs <;> exact List.prefix_rfl
  | flush =>
    unfold inside
    dsimp only
    split
    · exact List.prefix_rfl
    · split
      · split_ifs <;> exact List.prefix_rfl
      · split_ifs
        · exact List.prefix_rfl
        all_goals exact List.prefix_append _ _

theorem kernel_step (w : Socket τ) (x : τ × Act) : w.kernel <+: (step w x).kernel := by
  obtain ⟨t, a⟩ := x
  unfold step
  dsimp only
  split_ifs
  · exact List.prefix_rfl
  · split
    · split_ifs
      · cases a with
        | go io => exact inside_kernel _ _ _ _
        | send p => exact List.prefix_rfl
        | handleCanSend => exact List.prefix_rfl
      · rw [outside_kernel]
    · rw [outside_kernel]

/-- **What leaves** are the bytes of the accepted payloads, in order. -/
theorem kernel_prefix {τ : Type} {w : Socket τ} (h : OrderInv w) :
    w.kernel <+: w.accepted.flatten := by
  have hin := h.inOrder
  unfold InOrder at hin
  by_cases hst : w.started = true
  · rw [h.started hst, Socket.order, List.flatten_append] at hin
    have hacc := List.append_cancel_right hin
    rw [← hacc, List.append_assoc]
    exact List.prefix_append _ _
  · have hsince := h.notStarted (by simpa using hst)
    rw [Socket.order, hsince, List.append_nil] at hin
    rw [← hin, List.append_assoc, List.append_assoc]
    exact List.prefix_append _ _

end SmartNet.Network.Rup.SendPayloads

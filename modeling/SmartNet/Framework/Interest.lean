import SmartNet.Framework.Notifier
import SmartNet.Lib.Simulate

/-! # The interest list of `epoll`

`CEpoll` gives `epoll_ctl` a plain pointer to an object and calls the object through it when
`epoll_wait` hands it back ("no need add ref, for i have add it outside"): that is safe as long as
the object is in `m_setIoObjs`. The system does not know that set. It keeps a list of sockets:
`EPOLL_CTL_ADD` puts a socket on it that is open and not on it yet, `EPOLL_CTL_DEL` is called with
the object's handle and only if that is a valid one, and a socket that is closed leaves every list.
So the pointer of an object can stay behind if its handle changes while it is registered.

* `step`: a notifier on such a list, which reports the sockets of the list, whatever the set holds;
* `Backed`: whatever it does, a notifier that looks into its set does too, and a socket on a list is
  the open socket of an object in the set;
* `Disciplined`: what a class of objects has to do with its sockets;
* `Disciplined.backed`: then it is backed. -/

namespace SmartNet.Framework.Interest

open SmartNet.Lib SmartNet.Framework.Notifier

variable {κ σ τ υ ω ε φ : Type}

/-- What a class of objects does with its sockets. A socket has a number of its own, also where the
system gives a handle out again. -/
structure Sockets (κ σ ε : Type) where
  /-- the notifiers that are a `CEpoll` -/
  polls : κ → Bool
  /-- the socket `get_ioobj_handle` asks for its handle -/
  sock : σ → Option ℕ
  /-- the effects that close a socket -/
  closes : ε → Option ℕ
  /-- the sockets that are closed by their destructor when the object lets go of them -/
  drops : σ → σ → List ℕ := fun _ _ => []

/-- What the system knows: for each notifier, the sockets that are filed under the pointer of the
object, and the sockets that are closed. -/
structure Kernel (κ : Type) where
  interest : κ → List ℕ := fun _ => []
  closed : List ℕ := []

/-- The object, its notifiers and the system. -/
structure Sys (κ σ τ : Type) where
  world : World κ σ τ
  kern : Kernel κ := {}

namespace Kernel

/-- `::close`. -/
def close (q : Kernel κ) (ns : List ℕ) : Kernel κ where
  interest k := (q.interest k).filter (· ∉ ns)
  closed := q.closed ++ ns

variable [DecidableEq κ]

/-- `EPOLL_CTL_ADD`. -/
def add (q : Kernel κ) (k : κ) (n : ℕ) : Kernel κ :=
  { q with interest := Function.update q.interest k (n :: q.interest k) }

/-- `EPOLL_CTL_DEL`. -/
def del (q : Kernel κ) (k : κ) (n : ℕ) : Kernel κ :=
  { q with interest := Function.update q.interest k ((q.interest k).filter (· ≠ n)) }

end Kernel

section Step

variable [DecidableEq κ] (c : Class κ σ τ υ ω ε φ) (so : Sockets κ σ ε)

/-- The socket of the object, if its handle is valid. -/
def valid (x : Sys κ σ τ) : Option ℕ := (so.sock x.world.obj).filter (· ∉ x.kern.closed)

/-- `EPOLL_CTL_ADD` can succeed. -/
def addable (k : κ) (x : Sys κ σ τ) : Bool := (valid so x).any (· ∉ x.kern.interest k)

/-- What is closed in a step of the object from `s` to `s'`. -/
def shuts (s : σ) (evs : List ε) (s' : σ) : List ℕ := evs.filterMap so.closes ++ so.drops s s'

/-- The `epoll_ctl` of a step. -/
def ctl (x : Sys κ σ τ) : Act κ τ υ ω → Kernel κ
  | .takeDel k =>
    if so.polls k = true ∧ (x.world.ntf k).todo = [] ∧ 0 < (x.world.ntf k).dels then
      (valid so x).elim x.kern (x.kern.del k)
    else x.kern
  | .takeAdd k ok =>
    if so.polls k = true ∧ ok = true ∧ (x.world.ntf k).todo = [] ∧ 0 < (x.world.ntf k).adds then
      (valid so x).elim x.kern (x.kern.add k)
    else x.kern
  | _ => x.kern

/-- A step of the notifier that the system goes along with. -/
def follow (a : Act κ τ υ ω) (x : Sys κ σ τ) : Eff ε (Crash φ) (Sys κ σ τ) :=
  let r := c.step a x.world
  ⟨r.evs, r.res.map fun w => ⟨w, (ctl so x a).close (shuts so x.world.obj r.evs w.obj)⟩⟩

/-- One step; one that is not possible does nothing. -/
def step (a : Act κ τ υ ω) (x : Sys κ σ τ) : Eff ε (Crash φ) (Sys κ σ τ) :=
  match a with
  | .collect k t =>
    if so.polls k = true then
      if (x.world.ntf k).todo = [] ∧ x.kern.interest k ≠ [] ∧ c.isEvt k t = true then
        pure { x with
          world.ntf := Function.update x.world.ntf k { x.world.ntf k with todo := [t] } }
      else pure x
    else follow c so (.collect k t) x
  | .takeAdd k ok =>
    if so.polls k = true ∧ ok = true ∧ addable so k x = false then pure x
    else follow c so (.takeAdd k ok) x
  | a => follow c so a x

/-- A socket on a list is the open socket of an object in the set. -/
def Held (x : Sys κ σ τ) : Prop :=
  ∀ k, ∀ n ∈ x.kern.interest k, so.polls k = true ∧ (x.world.ntf k).inSet = true ∧
    so.sock x.world.obj = some n ∧ n ∉ x.kern.closed

/-- The process, on a system that knows nothing of the object yet. -/
def onSystem (p : Proc (World κ σ τ) ε (Crash φ)) : Proc (Sys κ σ τ) ε (Crash φ) :=
  ⟨⟨p.obj, {}⟩, p.log, p.fault⟩

/-- **No pointer is left behind**: after every run, each socket on a list is the open socket of an
object in the set; and what happened also happens if events are reported for objects of the set. -/
def Backed (p : Proc (World κ σ τ) ε (Crash φ)) : Prop :=
  ∀ as, let q := Proc.run (step c so) (onSystem p) as
    Held so q.obj ∧ ∃ bs, Proc.run c.step p bs = q.map Sys.world

/-- What a class does with its sockets, as long as `J` holds of the closed sockets and the object
with its notifiers: an object in a set keeps its socket or closes it. -/
structure Disciplined (J : List ℕ → World κ σ τ → Prop) : Prop where
  answers : ∀ k, so.polls k = true → c.added k true ≠ none
  drops : ∀ s, so.drops s s = []
  keeps : ∀ {closed : List ℕ} {w w' : World κ σ τ} {a : Act κ τ υ ω} {evs : List ε},
    J closed w → c.Moves w a evs w' → J (closed ++ shuts so w.obj evs w'.obj) w'
  socket : ∀ {closed : List ℕ} {w w' : World κ σ τ} {a : Act κ τ υ ω} {evs : List ε},
    J closed w → c.Moves w a evs w' → ∀ {k : κ} {n : ℕ}, so.polls k = true →
      (w.ntf k).inSet = true → so.sock w.obj = some n → n ∉ closed →
        n ∉ shuts so w.obj evs w'.obj → so.sock w'.obj = some n

end Step

/-! ### The lists -/

section Lists

variable {so : Sockets κ σ ε} {x : Sys κ σ τ} {q : Kernel κ} {ns : List ℕ} {k j : κ} {m n : ℕ}

@[simp] theorem mem_close : n ∈ (q.close ns).interest k ↔ n ∈ q.interest k ∧ n ∉ ns := by
  simp [Kernel.close]

theorem valid_iff : valid so x = some n ↔ so.sock x.world.obj = some n ∧ n ∉ x.kern.closed := by
  unfold valid
  rw [Option.filter_eq_some_iff]
  simp

variable [DecidableEq κ] {c : Class κ σ τ υ ω ε φ} {w w' : World κ σ τ} {a : Act κ τ υ ω}
  {evs : List ε}

theorem mem_del (h : n ∈ (q.del k m).interest j) : n ∈ q.interest j ∧ (j = k → n ≠ m) := by
  unfold Kernel.del at h
  rcases eq_or_ne j k with rfl | hj
  · simp only [Function.update_self, List.mem_filter, decide_eq_true_eq] at h
    exact ⟨h.1, fun _ => h.2⟩
  · simp only [Function.update_of_ne hj] at h
    exact ⟨h, fun he => absurd he hj⟩

theorem mem_add (h : n ∈ (q.add k m).interest j) : n ∈ q.interest j ∨ j = k ∧ n = m := by
  unfold Kernel.add at h
  rcases eq_or_ne j k with rfl | hj
  · simp only [Function.update_self, List.mem_cons] at h
    exact h.symm.imp_right fun he => ⟨rfl, he⟩
  · simp only [Function.update_of_ne hj] at h
    exact Or.inl h

theorem submit_same (ntf : κ → Ntf τ) (evs : List ε) (k : κ) :
    (c.submit ntf evs k).inSet = (ntf k).inSet ∧ (c.submit ntf evs k).todo = (ntf k).todo := by
  unfold Class.submit Class.pushAll
  generalize evs.filterMap c.req = rs
  induction rs generalizing ntf with
  | nil => exact ⟨rfl, rfl⟩
  | cons r rs ih =>
    rw [List.foldl_cons, (ih _).1, (ih _).2]
    rcases eq_or_ne k r.1 with rfl | hk
    · rw [Function.update_self]
      rcases r.2 with - | -
      · exact ⟨rfl, rfl⟩
      · exact ⟨rfl, rfl⟩
    · rw [Function.update_of_ne hk]
      exact ⟨rfl, rfl⟩

theorem moves_inSet (h : c.Moves w a evs w') (hin : (w.ntf j).inSet = true) :
    (w'.ntf j).inSet = true ∨
      a = .takeDel j ∧ (w.ntf j).todo = [] ∧ 0 < (w.ntf j).dels := by
  cases h with
  | idle => exact Or.inl hin
  | user u h => exact Or.inl (by rw [(submit_same _ _ _).1]; exact hin)
  | takeDel k ht hd _ =>
    rcases eq_or_ne j k with rfl | hj
    · exact Or.inr ⟨rfl, ht, hd⟩
    · exact Or.inl (by simpa [Function.update_of_ne hj] using hin)
  | takeAdd k ht ha hts =>
    rcases eq_or_ne j k with rfl | hj
    · exact Or.inl (by simp [hin])
    · exact Or.inl (by simpa [Function.update_of_ne hj] using hin)
  | collect k ht _ he =>
    rcases eq_or_ne j k with rfl | hj
    · exact Or.inl (by simp [hin])
    · exact Or.inl (by simpa [Function.update_of_ne hj] using hin)
  | callback k ht h =>
    rw [(submit_same _ _ _).1]
    rcases eq_or_ne j k with rfl | hj
    · exact Or.inl (by simp [hin])
    · exact Or.inl (by simpa [Function.update_of_ne hj] using hin)

theorem moves_obj (h : c.Moves w a evs w') :
    evs = [] ∧ w'.obj = w.obj ∨ (∃ u, c.user u w.obj = ⟨evs, .ok w'.obj⟩) ∨
      ∃ k t ts o, (w.ntf k).todo = t :: ts ∧ c.callback t o w.obj = ⟨evs, .ok w'.obj⟩ := by
  cases h with
  | idle => exact Or.inl ⟨rfl, rfl⟩
  | user u h => exact Or.inr (Or.inl ⟨u, h⟩)
  | takeDel k _ _ _ => exact Or.inl ⟨rfl, rfl⟩
  | takeAdd k _ _ _ => exact Or.inl ⟨rfl, rfl⟩
  | collect k _ _ _ => exact Or.inl ⟨rfl, rfl⟩
  | callback k ht h => exact Or.inr (Or.inr ⟨k, _, _, _, ht, h⟩)

theorem takeAdd_inSet (hts : c.added k true ≠ none) (ht : (w.ntf k).todo = [])
    (ha : 0 < (w.ntf k).adds) (h : (c.step (.takeAdd k true) w).res = .ok w') :
    w'.obj = w.obj ∧ (w'.ntf k).inSet = true := by
  obtain ⟨ts, hts⟩ := Option.ne_none_iff_exists'.mp hts
  simp only [Class.step, hts, if_pos (And.intro ht ha)] at h
  obtain ⟨-, -, rfl⟩ := c.guarded_ok h
  exact ⟨rfl, by simp⟩

/-- **The `epoll_ctl` of a step**: what was on a list stays only for an object that stays in the
set, and what is put on it is the open socket of an object that is inserted. -/
theorem mem_ctl (hheld : Held so x) (hts : ∀ k, so.polls k = true → c.added k true ≠ none)
    (h : (c.step a x.world).res = .ok w') (hn : n ∈ (ctl so x a).interest j) :
    n ∈ x.kern.interest j ∧ (w'.ntf j).inSet = true ∨
      so.polls j = true ∧ (w'.ntf j).inSet = true ∧ valid so x = some n ∧ w'.obj = x.world.obj := by
  have hm := c.step_moves h
  have hold : n ∈ x.kern.interest j → (a = .takeDel j → (x.world.ntf j).todo = [] →
      0 < (x.world.ntf j).dels → False) → n ∈ x.kern.interest j ∧ (w'.ntf j).inSet = true := by
    intro hmem hno
    obtain ⟨-, hin, -⟩ := hheld j n hmem
    rcases moves_inSet hm hin with hin' | ⟨ha, ht, hd⟩
    · exact ⟨hmem, hin'⟩
    · exact absurd (hno ha ht hd) id
  cases a with
  | takeDel k =>
    left
    simp only [ctl] at hn
    split_ifs at hn with hc
    · rcases hv : valid so x with - | m
      · rw [hv] at hn
        refine hold hn fun _ _ _ => ?_
        obtain ⟨-, -, hs, hcl⟩ := hheld j n hn
        rw [valid_iff.mpr ⟨hs, hcl⟩] at hv
        cases hv
      · rw [hv] at hn
        obtain ⟨hmem, hne⟩ := mem_del hn
        refine hold hmem fun hk _ _ => ?_
        cases hk
        obtain ⟨-, -, hs, hcl⟩ := hheld j n hmem
        rw [valid_iff.mpr ⟨hs, hcl⟩] at hv
        exact hne rfl (Option.some.inj hv)
    · refine hold hn fun hk ht hd => ?_
      cases hk
      exact hc ⟨(hheld j n hn).1, ht, hd⟩
  | takeAdd k ok =>
    simp only [ctl] at hn
    split_ifs at hn with hc
    · obtain ⟨hp, rfl, ht, ha⟩ := hc
      rcases hv : valid so x with - | m
      · rw [hv] at hn
        exact Or.inl (hold hn fun hk => by cases hk)
      · rw [hv] at hn
        rcases mem_add hn with hmem | ⟨rfl, rfl⟩
        · exact Or.inl (hold hmem fun hk => by cases hk)
        · obtain ⟨hobj, hin⟩ := takeAdd_inSet (hts j hp) ht ha h
          exact Or.inr ⟨hp, hin, rfl, hobj⟩
    · exact Or.inl (hold hn fun hk => by cases hk)
  | user u => exact Or.inl (hold hn fun hk => by cases hk)
  | collect k t => exact Or.inl (hold hn fun hk => by cases hk)
  | callback k o => exact Or.inl (hold hn fun hk => by cases hk)

theorem closed_ctl (so : Sockets κ σ ε) (x : Sys κ σ τ) (a : Act κ τ υ ω) :
    (ctl so x a).closed = x.kern.closed := by
  cases a with
  | takeDel k =>
    simp only [ctl]
    split_ifs
    · rcases valid so x with - | m
      · rfl
      · rfl
    · rfl
  | takeAdd k ok =>
    simp only [ctl]
    split_ifs
    · rcases valid so x with - | m
      · rfl
      · rfl
    · rfl
  | user u => rfl
  | collect k t => rfl
  | callback k o => rfl

end Lists

/-! ### Classes whose discipline is one of their calls -/

/-- A call keeps `K`, and the object keeps its socket or closes it. -/
structure Keeps (so : Sockets κ σ ε) (K : List ℕ → σ → Prop) (closed : List ℕ) (s : σ)
    (evs : List ε) (s' : σ) : Prop where
  keeps : K (closed ++ shuts so s evs s') s'
  socket : ∀ {n}, so.sock s = some n → n ∉ closed → n ∉ shuts so s evs s' → so.sock s' = some n

theorem disciplined_of_calls [DecidableEq κ] {c : Class κ σ τ υ ω ε φ} {so : Sockets κ σ ε}
    {K : List ℕ → σ → Prop} (hanswers : ∀ k, so.polls k = true → c.added k true ≠ none)
    (hdrops : ∀ s, so.drops s s = [])
    (huser : ∀ {closed s u evs s'}, K closed s → c.user u s = ⟨evs, .ok s'⟩ →
      Keeps so K closed s evs s')
    (hcallback : ∀ {closed s t o evs s'}, K closed s → c.callback t o s = ⟨evs, .ok s'⟩ →
      Keeps so K closed s evs s') :
    Disciplined c so fun closed w => K closed w.obj := by
  have hall : ∀ {closed : List ℕ} {w w' : World κ σ τ} {a : Act κ τ υ ω} {evs : List ε},
      K closed w.obj → c.Moves w a evs w' → Keeps so K closed w.obj evs w'.obj := by
    intro closed w w' a evs hK hm
    rcases moves_obj hm with ⟨rfl, hobj⟩ | ⟨u, hu⟩ | ⟨k, t, ts, o, -, ht⟩
    · have hnil : shuts so w.obj [] w'.obj = [] := by
        unfold shuts
        rw [hobj, hdrops, List.filterMap_nil, List.append_nil]
      refine ⟨?_, fun hs _ _ => ?_⟩
      · rw [hnil, List.append_nil, hobj]
        exact hK
      · rw [hobj]
        exact hs
    · exact huser hK hu
    · exact hcallback hK ht
  exact ⟨hanswers, hdrops, fun hK hm => (hall hK hm).keeps,
    fun hK hm _ _ _ _ hs hcl hns => (hall hK hm).socket hs hcl hns⟩

/-! ### The runs -/

section Runs

variable [DecidableEq κ] {c : Class κ σ τ υ ω ε φ} {so : Sockets κ σ ε}
  {J : List ℕ → World κ σ τ → Prop} {x y : Sys κ σ τ} {a : Act κ τ υ ω}

/-- What holds of the object and the system. -/
structure Inv (so : Sockets κ σ ε) (J : List ℕ → World κ σ τ → Prop) (x : Sys κ σ τ) : Prop where
  held : Held so x
  disc : J x.kern.closed x.world

theorem Disciplined.follow (hd : Disciplined c so J) (hI : Inv so J x)
    (h : (follow c so a x).res = .ok y) : Inv so J y := by
  rcases hr : c.step a x.world with ⟨evs, e | w⟩
  · simp only [Interest.follow, hr] at h
    cases h
  · simp only [Interest.follow, hr] at h
    cases h
    have hw : (c.step a x.world).res = .ok w := by rw [hr]
    have hm := c.step_moves hw
    rw [hr] at hm
    refine ⟨fun k n hn => ?_, ?_⟩
    · obtain ⟨hn, hns⟩ := mem_close.mp hn
      rcases mem_ctl hI.held hd.answers hw hn with ⟨hmem, hin⟩ | ⟨hp, hin, hv, hobj⟩
      · obtain ⟨hp, hin0, hs, hcl⟩ := hI.held k n hmem
        refine ⟨hp, hin, hd.socket hI.disc hm hp hin0 hs hcl hns, ?_⟩
        show n ∉ (ctl so x a).closed ++ _
        rw [closed_ctl]
        exact fun hc => (List.mem_append.mp hc).elim hcl hns
      · obtain ⟨hs, hcl⟩ := valid_iff.mp hv
        refine ⟨hp, hin, by rw [← hs]; exact congrArg so.sock hobj, ?_⟩
        show n ∉ (ctl so x a).closed ++ _
        rw [closed_ctl]
        exact fun hc => (List.mem_append.mp hc).elim hcl hns
    · show J ((ctl so x a).closed ++ _) w
      rw [closed_ctl]
      exact hd.keeps hI.disc hm

theorem collect_follows {k : κ} {t : τ} (hheld : Held so x) (hp : so.polls k = true) :
    step c so (.collect k t) x = pure x ∨
      Proc.Follows Sys.world (step c so (.collect k t)) (c.step (.collect k t)) x := by
  by_cases hc : (x.world.ntf k).todo = [] ∧ x.kern.interest k ≠ [] ∧ c.isEvt k t = true
  · obtain ⟨ht, hne, he⟩ := hc
    obtain ⟨n, hn⟩ := List.exists_mem_of_ne_nil _ hne
    have hin := (hheld k n hn).2.1
    right
    simp only [Proc.Follows, step, if_pos hp, if_pos (And.intro ht (And.intro hne he)), Class.step,
      if_pos (And.intro ht (And.intro hin he))]
    rfl
  · left
    simp only [step, if_pos hp, if_neg hc]

theorem follow_follows (a : Act κ τ υ ω) (x : Sys κ σ τ) :
    Proc.Follows Sys.world (follow c so a) (c.step a) x := by
  unfold Proc.Follows follow
  rcases hr : c.step a x.world with ⟨evs, e | w⟩
  · rfl
  · rfl

/-- **Every step**: it does nothing, or what the notifier does that looks into its set. -/
theorem step_follows (hheld : Held so x) (a : Act κ τ υ ω) :
    step c so a x = pure x ∨ Proc.Follows Sys.world (step c so a) (c.step a) x := by
  cases a with
  | collect k t =>
    by_cases hp : so.polls k = true
    · exact collect_follows hheld hp
    · right
      have hs : step c so (.collect k t) x = follow c so (.collect k t) x := by
        simp only [step, if_neg hp]
      unfold Proc.Follows
      rw [hs]
      exact follow_follows _ x
  | takeAdd k ok =>
    by_cases hb : so.polls k = true ∧ ok = true ∧ addable so k x = false
    · left
      simp only [step, if_pos hb]
    · right
      have hs : step c so (.takeAdd k ok) x = follow c so (.takeAdd k ok) x := by
        simp only [step, if_neg hb]
      unfold Proc.Follows
      rw [hs]
      exact follow_follows _ x
  | user u => exact Or.inr (follow_follows _ x)
  | takeDel k => exact Or.inr (follow_follows _ x)
  | callback k o => exact Or.inr (follow_follows _ x)

/-- **Every step keeps the lists backed.** -/
theorem Disciplined.step (hd : Disciplined c so J) (hI : Inv so J x)
    (h : (Interest.step c so a x).res = .ok y) : Inv so J y := by
  cases a with
  | collect k t =>
    simp only [Interest.step] at h
    split_ifs at h with hp hc
    · cases h
      obtain ⟨ht, hne, he⟩ := hc
      obtain ⟨n, hn⟩ := List.exists_mem_of_ne_nil _ hne
      have hm : c.Moves x.world (.collect k t) []
          ⟨x.world.obj, Function.update x.world.ntf k { x.world.ntf k with todo := [t] }⟩ :=
        .collect k ht (hI.held k n hn).2.1 he
      refine ⟨fun j m hj => ?_, ?_⟩
      · obtain ⟨h1, h2, h3, h4⟩ := hI.held j m hj
        refine ⟨h1, ?_, h3, h4⟩
        rcases moves_inSet hm h2 with hin | ⟨ha, -⟩
        · exact hin
        · cases ha
      · have hk := hd.keeps hI.disc hm
        unfold shuts at hk
        rw [hd.drops, List.filterMap_nil, List.append_nil, List.append_nil] at hk
        exact hk
    · cases h
      exact hI
    · exact hd.follow hI h
  | takeAdd k ok =>
    simp only [Interest.step] at h
    split_ifs at h
    · cases h
      exact hI
    · exact hd.follow hI h
  | user u => exact hd.follow hI h
  | takeDel k => exact hd.follow hI h
  | callback k o => exact hd.follow hI h

/-- **A disciplined class leaves no pointer behind.** -/
theorem Disciplined.backed (hd : Disciplined c so J) {p : Proc (World κ σ τ) ε (Crash φ)}
    (h0 : J [] p.obj) : Backed c so p := by
  intro as
  have hinit : Inv so J (onSystem p).obj := ⟨fun k n hn => (by cases hn), h0⟩
  obtain ⟨hI, bs, hbs⟩ := Proc.run_simulates (fun a x y hI h => hd.step hI h)
    (fun a x hI => (step_follows hI.held a).imp_right fun h => ⟨a, h⟩) as hinit
  exact ⟨hI.held, bs, hbs⟩

end Runs

end SmartNet.Framework.Interest

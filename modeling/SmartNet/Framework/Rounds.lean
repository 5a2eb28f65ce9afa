import Mathlib.Data.Finset.Card
import SmartNet.Framework.Deferred

/-! # Calls of `exec`

A call of `exec` from its start to its return, when no request is made in between and every
registration succeeds.

* `Tidy`: the caches and the set of a notifier whose requests are in order;
* `round_ok`: the call erases what is in the cache of the dels and inserts what is in the cache of
  the adds;
* `card_held`, `card_after`: how many objects a notifier holds. -/

namespace SmartNet.Framework.Rounds

open SmartNet.Lib SmartNet.Framework.Notifier SmartNet.Framework.Deferred

variable {α ρ : Type} [DecidableEq α]

/-- `exec` has returned. -/
def isOut : Pc α ρ → Bool
  | .out => true
  | _ => false

/-- The steps of `exec` until it returns; `fuel` bounds their number. -/
def toRet (k : Kind α ρ) (o : ρ) : ℕ → St α ρ → Eff (Ev α ρ) Deferred.Fault (St α ρ)
  | 0, s => pure s
  | fuel + 1, s => Deferred.exec k o s >>= fun s => if isOut s.pc then pure s else toRet k o fuel s

/-- A call of `exec`: two steps for each object of the caches, and a few more. -/
def round (k : Kind α ρ) (o : ρ) (s : St α ρ) : Eff (Ev α ρ) Deferred.Fault (St α ρ) :=
  toRet k o (2 * (s.vecDelCache.length + s.vecAddCache.length) + 8) s

/-- **A notifier between two calls of `exec`**: the dels are of objects of the set, the adds of
others, and there is one request for each. -/
structure Tidy (s : St α ρ) : Prop where
  out : s.pc = .out
  delsNodup : s.vecDelCache.Nodup
  dels : ∀ x ∈ s.vecDelCache, x ∈ s.setObjs
  addsNodup : s.vecAddCache.Nodup
  adds : ∀ x ∈ s.vecAddCache, x ∉ s.setObjs

/-- A notifier after a call of `exec`. -/
def after (s : St α ρ) : St α ρ where
  setObjs := (s.setObjs \ s.vecDelCache.toFinset) ∪ s.vecAddCache.toFinset

/-- The objects a notifier holds or is to hold. -/
def held (s : St α ρ) : Finset α := s.setObjs ∪ s.vecAddCache.toFinset

variable {k : Kind α ρ} {o : ρ} {s t u : St α ρ} {fuel : ℕ} {x : α}

omit [DecidableEq α] in
theorem tidy_init : Tidy ({} : St α ρ) :=
  ⟨rfl, List.nodup_nil, fun _ h => (by cases h), List.nodup_nil, fun _ h => (by cases h)⟩

theorem mem_held : x ∈ held s ↔ x ∈ s.setObjs ∨ x ∈ s.vecAddCache := by
  simp [held]

/-! ### The steps of a call -/

/-- The call returns with the notifier in the state `t`. -/
def Ends (k : Kind α ρ) (o : ρ) (fuel : ℕ) (s t : St α ρ) : Prop := (toRet k o fuel s).res = .ok t

theorem Ends.step {evs : List (Ev α ρ)} (h : Deferred.exec k o s = ⟨evs, .ok u⟩)
    (hpc : isOut u.pc = false) (hs : Ends k o fuel u t) : Ends k o (fuel + 1) s t := by
  unfold Ends toRet
  rw [Eff.bind_of_ok (by rw [h])]
  simp only [hpc, Bool.false_eq_true, if_false]
  exact hs

theorem Ends.last {evs : List (Ev α ρ)} (h : Deferred.exec k o s = ⟨evs, .ok u⟩)
    (hpc : isOut u.pc = true) : Ends k o (fuel + 1) s u := by
  unfold Ends toRet
  rw [Eff.bind_of_ok (by rw [h])]
  simp only [hpc, if_true]
  rfl

theorem ends_events {objs : Finset α} {adds dels : List α} :
    Ends k o (fuel + 1) ⟨objs, adds, dels, .events⟩ ⟨objs, adds, dels, .out⟩ :=
  .last rfl rfl

theorem ends_dels {adds dels : List α} : ∀ {rest : List α} {objs : Finset α}, rest.Nodup →
    (∀ x ∈ rest, x ∈ objs) → Ends k o fuel ⟨objs \ rest.toFinset, adds, dels, .testAdd⟩ t →
    Ends k o (fuel + 1 + 2 * rest.length) ⟨objs, adds, dels, .dels rest⟩ t
  | [], objs, _, _, h => by
    refine .step (u := ⟨objs, adds, dels, .testAdd⟩) rfl rfl ?_
    simpa using h
  | x :: rest, objs, hnd, hin, h => by
    obtain ⟨hx, hnd'⟩ := List.nodup_cons.mp hnd
    have hexec : Deferred.exec k o ⟨objs, adds, dels, .dels (x :: rest)⟩ =
        ⟨[], .ok ⟨objs.erase x, adds, dels, .deled x rest⟩⟩ := by
      simp only [Deferred.exec, Eff.require_pos (hin x List.mem_cons_self), Eff.pure_bind]
      rfl
    have hset : objs.erase x \ rest.toFinset = objs \ (x :: rest).toFinset := by
      ext y
      simp only [Finset.mem_sdiff, Finset.mem_erase, List.mem_toFinset, List.mem_cons]
      tauto
    have hrest : ∀ y ∈ rest, y ∈ objs.erase x := fun y hy =>
      Finset.mem_erase.mpr ⟨fun e => hx (e ▸ hy), hin y (List.mem_cons_of_mem _ hy)⟩
    have hloop : Ends k o (fuel + 1 + 2 * rest.length) ⟨objs.erase x, adds, dels, .dels rest⟩ t :=
      ends_dels hnd' hrest (by rw [hset]; exact h)
    have hlen : fuel + 1 + 2 * (x :: rest).length = fuel + 1 + 2 * rest.length + 1 + 1 := by
      rw [List.length_cons]
      omega
    rw [hlen]
    exact .step hexec rfl (.step (u := ⟨objs.erase x, adds, dels, .dels rest⟩) rfl rfl hloop)

theorem ends_adds (ho : k.ok o = true) {adds dels : List α} : ∀ {rest : List α} {objs : Finset α},
    rest.Nodup → (∀ x ∈ rest, x ∉ objs) →
    Ends k o fuel ⟨objs ∪ rest.toFinset, adds, dels, .events⟩ t →
    Ends k o (fuel + 1 + 2 * rest.length) ⟨objs, adds, dels, .adds rest⟩ t
  | [], objs, _, _, h => by
    refine .step (u := ⟨objs, adds, dels, .events⟩) rfl rfl ?_
    simpa using h
  | x :: rest, objs, hnd, hout, h => by
    obtain ⟨hx, hnd'⟩ := List.nodup_cons.mp hnd
    have hexec : Deferred.exec k o ⟨objs, adds, dels, .adds (x :: rest)⟩ =
        ⟨[], .ok ⟨insert x objs, adds, dels, .added x o rest⟩⟩ := by
      simp only [Deferred.exec, ho, if_true, Eff.require_pos (hout x List.mem_cons_self),
        Eff.pure_bind]
      rfl
    have hset : insert x objs ∪ rest.toFinset = objs ∪ (x :: rest).toFinset := by
      ext y
      simp only [Finset.mem_union, Finset.mem_insert, List.mem_toFinset, List.mem_cons]
      tauto
    have hrest : ∀ y ∈ rest, y ∉ insert x objs := fun y hy hmem => by
      rcases Finset.mem_insert.mp hmem with rfl | hmem
      · exact hx hy
      · exact hout y (List.mem_cons_of_mem _ hy) hmem
    have hloop : Ends k o (fuel + 1 + 2 * rest.length) ⟨insert x objs, adds, dels, .adds rest⟩ t :=
      ends_adds ho hnd' hrest (by rw [hset]; exact h)
    have hlen : fuel + 1 + 2 * (x :: rest).length = fuel + 1 + 2 * rest.length + 1 + 1 := by
      rw [List.length_cons]
      omega
    rw [hlen]
    exact .step hexec rfl (.step (u := ⟨insert x objs, adds, dels, .adds rest⟩) rfl rfl hloop)

theorem ends_testAdd (ho : k.ok o = true) {objs : Finset α} {adds dels : List α}
    (hnd : adds.Nodup) (hout : ∀ x ∈ adds, x ∉ objs) :
    Ends k o (fuel + 4 + 2 * adds.length) ⟨objs, adds, dels, .testAdd⟩
      ⟨objs ∪ adds.toFinset, [], dels, .out⟩ := by
  rcases adds with _ | ⟨x, adds⟩
  · have hset : objs ∪ ([] : List α).toFinset = objs := by simp
    rw [hset]
    exact .step (u := ⟨objs, [], dels, .events⟩) rfl rfl ends_events
  · have hlen : fuel + 4 + 2 * (x :: adds).length =
        fuel + 1 + 1 + 2 * (x :: adds).length + 1 + 1 := by omega
    rw [hlen]
    refine .step (u := ⟨objs, x :: adds, dels, .swapAdd⟩) rfl rfl ?_
    refine .step (u := ⟨objs, [], dels, .adds (x :: adds)⟩) rfl rfl ?_
    exact ends_adds ho hnd hout ends_events

/-- **A call of `exec`** does what the requests ask. -/
theorem round_ok (h : Tidy s) (ho : k.ok o = true) : (round k o s).res = .ok (after s) := by
  obtain ⟨objs, adds, dels, pc⟩ := s
  obtain rfl : pc = .out := h.out
  have hout : ∀ x ∈ adds, x ∉ objs \ dels.toFinset := fun x hx hmem =>
    h.adds x hx (Finset.mem_sdiff.mp hmem).1
  have hend : ∀ fuel, Ends k o (fuel + 4 + 2 * adds.length)
      ⟨objs \ dels.toFinset, adds, [], .testAdd⟩ (after ⟨objs, adds, dels, .out⟩) :=
    fun fuel => ends_testAdd ho h.addsNodup hout
  have hlen : 2 * (dels.length + adds.length) + 8 =
      0 + 4 + 2 * adds.length + 1 + 2 * dels.length + 1 + 1 + 1 := by omega
  show Ends k o (2 * (dels.length + adds.length) + 8) _ _
  rw [hlen]
  refine .step (u := ⟨objs, adds, dels, .testDel⟩) rfl rfl ?_
  rcases dels with _ | ⟨x, dels⟩
  · refine .step (u := ⟨objs, adds, [], .testAdd⟩) rfl rfl ?_
    have hset : objs \ ([] : List α).toFinset = objs := by simp
    have hend' := hend 2
    rw [hset] at hend'
    have hlen' : 0 + 4 + 2 * adds.length + 1 + 2 * ([] : List α).length + 1 =
        2 + 4 + 2 * adds.length := by
      rw [List.length_nil]
      omega
    rw [hlen']
    exact hend'
  · refine .step (u := ⟨objs, adds, x :: dels, .swapDel⟩) rfl rfl ?_
    refine .step (u := ⟨objs, adds, [], .dels (x :: dels)⟩) rfl rfl ?_
    exact ends_dels h.delsNodup h.dels (hend 0)

/-! ### How many objects a notifier holds -/

theorem Tidy.dels_le (h : Tidy s) : s.vecDelCache.length ≤ s.setObjs.card := by
  rw [← List.toFinset_card_of_nodup h.delsNodup]
  exact Finset.card_le_card fun x hx => h.dels x (List.mem_toFinset.mp hx)

theorem card_held (h : Tidy s) : (held s).card = s.setObjs.card + s.vecAddCache.length := by
  have hdis : Disjoint s.setObjs s.vecAddCache.toFinset :=
    Finset.disjoint_right.mpr fun x hx => h.adds x (List.mem_toFinset.mp hx)
  unfold held
  rw [Finset.card_union_of_disjoint hdis, List.toFinset_card_of_nodup h.addsNodup]

theorem card_after (h : Tidy s) : (after s).setObjs.card + s.vecDelCache.length =
    s.setObjs.card + s.vecAddCache.length := by
  have hdis : Disjoint (s.setObjs \ s.vecDelCache.toFinset) s.vecAddCache.toFinset :=
    Finset.disjoint_right.mpr fun x hx hmem =>
      h.adds x (List.mem_toFinset.mp hx) (Finset.mem_sdiff.mp hmem).1
  have hsub : s.vecDelCache.toFinset ⊆ s.setObjs := fun x hx => h.dels x (List.mem_toFinset.mp hx)
  have hle := h.dels_le
  show ((s.setObjs \ s.vecDelCache.toFinset) ∪ s.vecAddCache.toFinset).card + _ = _
  rw [Finset.card_union_of_disjoint hdis, Finset.card_sdiff_of_subset hsub,
    List.toFinset_card_of_nodup h.delsNodup, List.toFinset_card_of_nodup h.addsNodup]
  omega

theorem tidy_after : Tidy (after s) :=
  ⟨rfl, List.nodup_nil, fun _ h => (by cases h), List.nodup_nil, fun _ h => (by cases h)⟩

theorem held_after_subset : held (after s) ⊆ held s := by
  intro x hx
  rcases mem_held.mp hx with hx | hx
  · rcases Finset.mem_union.mp hx with hx | hx
    · exact mem_held.mpr (Or.inl (Finset.mem_sdiff.mp hx).1)
    · exact mem_held.mpr (Or.inr (List.mem_toFinset.mp hx))
  · cases hx

/-! ### Requests -/

theorem Tidy.push_add (h : Tidy s) (hx : x ∉ held s) : Tidy (s.push x .add) := by
  have hx' : x ∉ s.setObjs ∧ x ∉ s.vecAddCache := by
    constructor
    · exact fun hmem => hx (mem_held.mpr (Or.inl hmem))
    · exact fun hmem => hx (mem_held.mpr (Or.inr hmem))
  refine ⟨h.out, h.delsNodup, h.dels, ?_, fun y hy => ?_⟩
  · show (s.vecAddCache ++ [x]).Nodup
    exact List.nodup_append_comm.mp (List.nodup_cons.mpr ⟨hx'.2, h.addsNodup⟩)
  · rcases List.mem_append.mp hy with hy | hy
    · exact h.adds y hy
    · rw [List.mem_singleton.mp hy]
      exact hx'.1

omit [DecidableEq α] in
theorem Tidy.push_del (h : Tidy s) (hx : x ∈ s.setObjs) (hne : x ∉ s.vecDelCache) :
    Tidy (s.push x .del) := by
  refine ⟨h.out, ?_, fun y hy => ?_, h.addsNodup, h.adds⟩
  · show (s.vecDelCache ++ [x]).Nodup
    exact List.nodup_append_comm.mp (List.nodup_cons.mpr ⟨hne, h.delsNodup⟩)
  · rcases List.mem_append.mp hy with hy | hy
    · exact h.dels y hy
    · rw [List.mem_singleton.mp hy]
      exact hx

theorem held_push_add : held (s.push x .add) = insert x (held s) := by
  ext y
  simp only [held, St.push, List.toFinset_append, Finset.mem_union, List.mem_toFinset,
    Finset.mem_insert, List.mem_singleton]
  tauto

theorem held_push_del : held (s.push x .del) = held s := rfl

end SmartNet.Framework.Rounds

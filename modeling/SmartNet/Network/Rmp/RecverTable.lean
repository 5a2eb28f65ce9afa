import Mathlib.Order.Bounds.Basic
import SmartNet.Lib.Assoc
import SmartNet.Network.Rmp.SendCalls

/-! # The receiver table

`m_mapRecvers` as a finite map: what the handlers of feedback do to the entry of each receiver.

* `lookup_at`, `prune_isLeast`: `operator[]`, and the loop that erases entries and looks for the
  slowest receiver;
* `head_iff`: an ack leaves the head above the slowest live receiver, unless the entry that the
  minimum starts from spoils it;
* `discard_iff`: when a discarded packet leaves everything as it was. -/

namespace SmartNet.Network.Rmp.RecverTable

open SmartNet.Common SmartNet.Lib SmartNet.Lib.Assoc SmartNet.Memory.MemBlock SmartNet.Network.Udp
open SmartNet.Network.Rmp.Wire SmartNet.Network.Rmp.Sendep SmartNet.Network.Rmp.SendWin
open SmartNet.Network.Rmp.SendCalls

variable {m order : RecverMap} {s t : SendSock} {b : CMemBlock} {d : List UInt8}
variable {seq id now alive : ℕ}

/-! ### `operator[]` -/

theorem lookup_at (f : SRecverInfo → SRecverInfo) (id j : ℕ) (m : RecverMap) :
    (RecverMap.at id f m).lookup j =
      if j = id then some (f ((m.lookup id).getD {})) else m.lookup j := by
  induction m with
  | nil =>
    by_cases hj : j = id
    · simp [RecverMap.at, hj]
    · rw [if_neg hj]
      exact lookup_cons_ne hj
  | cons x m ih =>
    obtain ⟨i, y⟩ := x
    unfold RecverMap.at
    by_cases hi : i = id
    · subst hi
      rw [if_pos rfl]
      by_cases hj : j = i
      · simp [hj]
      · rw [if_neg hj, lookup_cons_ne hj, lookup_cons_ne hj]
    · rw [if_neg hi, lookup_cons_ne (e := (i, y)) (k := id) fun h => hi h.symm]
      by_cases hj : j = i
      · subst hj
        simp [hi]
      · rw [lookup_cons_ne hj, lookup_cons_ne (e := (i, y)) hj]
        exact ih

theorem keys_at (f : SRecverInfo → SRecverInfo) (id : ℕ) (m : RecverMap) :
    (RecverMap.at id f m).map Prod.fst = m.map Prod.fst ∨
      id ∉ m.map Prod.fst ∧ (RecverMap.at id f m).map Prod.fst = m.map Prod.fst ++ [id] := by
  induction m with
  | nil => exact Or.inr ⟨by simp, rfl⟩
  | cons e m ih =>
    obtain ⟨i, y⟩ := e
    unfold RecverMap.at
    by_cases hi : i = id
    · rw [if_pos hi]
      exact Or.inl rfl
    · rw [if_neg hi]
      rcases ih with h | ⟨h1, h2⟩
      · exact Or.inl (by rw [List.map_cons, List.map_cons, h])
      · refine Or.inr ⟨?_, by rw [List.map_cons, List.map_cons, h2]; rfl⟩
        intro hmem
        rcases List.mem_cons.mp hmem with he | he
        · exact hi he.symm
        · exact h1 he

theorem at_cons (f : SRecverInfo → SRecverInfo) (id i : ℕ) (x : SRecverInfo) (m : RecverMap) :
    ∃ y m', RecverMap.at id f ((i, x) :: m) = (i, y) :: m' := by
  unfold RecverMap.at
  by_cases hi : i = id
  · rw [if_pos hi]
    exact ⟨_, _, rfl⟩
  · rw [if_neg hi]
    exact ⟨_, _, rfl⟩

theorem at_cons_ne (f : SRecverInfo → SRecverInfo) {e : ℕ × SRecverInfo} (h : e.1 ≠ id)
    (m : RecverMap) : RecverMap.at id f (e :: m) = e :: RecverMap.at id f m := by
  obtain ⟨i, x⟩ := e
  conv_lhs => unfold RecverMap.at
  rw [if_neg h]

theorem mem_ackTable {e : ℕ × SRecverInfo} (he : e ∈ m) (hne : e.1 ≠ id) (seq now : ℕ) :
    e ∈ ackTable seq id now m := by
  have h1 := (at_keeps (fun i => { i with lastUpdateTimeUs := now }) id he).resolve_right
    fun h => hne h.1
  exact (at_keeps _ id h1).resolve_right fun h => hne h.1

theorem firstRecved_ackTable {e : ℕ × SRecverInfo} (he : m.head? = some e) (hne : e.1 ≠ id)
    (seq now : ℕ) : firstRecved (ackTable seq id now m) = e.2.lastRecvedSeqNo := by
  obtain ⟨rest, rfl⟩ := List.head?_eq_some_iff.mp he
  unfold ackTable
  rw [at_cons_ne _ hne, at_cons_ne _ hne]
  rfl

theorem at_eq_self {f : SRecverInfo → SRecverInfo} {x : SRecverInfo} (h : m.lookup id = some x)
    (hf : f x = x) : RecverMap.at id f m = m := by
  induction m with
  | nil => cases h
  | cons e m ih =>
    obtain ⟨i, y⟩ := e
    by_cases hi : i = id
    · subst hi
      rw [List.lookup_cons_self] at h
      cases h
      unfold RecverMap.at
      rw [if_pos rfl, hf]
    · rw [lookup_cons_ne (e := (i, y)) fun h => hi h.symm] at h
      rw [at_cons_ne f (e := (i, y)) hi, ih h]

theorem at_eq_self_iff {f : SRecverInfo → SRecverInfo} :
    RecverMap.at id f m = m ↔ ∃ x, m.lookup id = some x ∧ f x = x := by
  constructor
  · intro h
    have hl := lookup_at f id id m
    rw [h, if_pos rfl] at hl
    rcases hx : m.lookup id with _ | x
    · rw [hx] at hl
      cases hl
    · rw [hx, Option.getD_some] at hl
      exact ⟨x, rfl, (Option.some.inj hl).symm⟩
  · rintro ⟨x, hx, hf⟩
    exact at_eq_self hx hf

theorem at_at (f g : SRecverInfo → SRecverInfo) (id : ℕ) (m : RecverMap) :
    RecverMap.at id f (RecverMap.at id g m) = RecverMap.at id (fun i => f (g i)) m := by
  induction m with
  | nil => simp [RecverMap.at]
  | cons e m ih =>
    by_cases hi : e.1 = id
    · obtain ⟨i, y⟩ := e
      have hi' : i = id := hi
      simp [RecverMap.at, hi']
    · rw [at_cons_ne g hi, at_cons_ne f hi, at_cons_ne _ hi, ih]

theorem keyed_at (h : Keyed m) (f : SRecverInfo → SRecverInfo) (id : ℕ) :
    Keyed (RecverMap.at id f m) := by
  unfold Keyed at *
  rcases keys_at f id m with he | ⟨hn, he⟩
  · rw [he]
    exact h
  · rw [he]
    refine List.nodup_append.mpr ⟨h, List.nodup_singleton id, fun a ha b hb => ?_⟩
    rw [List.mem_singleton.mp hb]
    rintro rfl
    exact hn ha

theorem keyed_ackTable (h : Keyed m) (seq id now : ℕ) : Keyed (ackTable seq id now m) :=
  keyed_at (keyed_at h _ id) _ id

theorem lookup_reserve (n id j : ℕ) (m : RecverMap) : (m.reserve n id).lookup j =
    if j = id then some ((m.lookup id).getD {}) else m.lookup j := by
  unfold RecverMap.reserve
  rcases hx : m.lookup id with _ | x
  · have hsplit : ((m.take n).lookup id).or ((m.drop n).lookup id) = none := by
      rw [← List.lookup_append, List.take_append_drop, hx]
    rw [if_neg (by simp), List.lookup_append]
    by_cases hj : j = id
    · subst hj
      rw [(Option.or_eq_none_iff.mp hsplit).1, List.lookup_cons_self, if_pos rfl]
      rfl
    · rw [lookup_cons_ne (e := (id, ({} : SRecverInfo))) hj, ← List.lookup_append,
        List.take_append_drop, if_neg hj]
  · rw [if_pos (by simp)]
    by_cases hj : j = id
    · rw [if_pos hj, hj, hx]
      rfl
    · rw [if_neg hj]

theorem lookup_table (s : SendSock) (id j : ℕ) : (s.table id).lookup j =
    if j = id then some ((s.mapRecvers.lookup id).getD {}) else s.mapRecvers.lookup j :=
  lookup_reserve _ _ _ _

theorem keyed_table (h : Keyed s.mapRecvers) (id : ℕ) : Keyed (s.table id) := by
  unfold SendSock.table
  rcases reserve_perm (s.place id) id s.mapRecvers with heq | ⟨hnone, hp⟩
  · rw [heq]
    exact h
  · refine Keyed.perm (m := (id, {}) :: s.mapRecvers) (List.nodup_cons.mpr ⟨fun hmem => ?_, h⟩) hp
    obtain ⟨⟨i, x⟩, he, rfl⟩ := List.mem_map.mp hmem
    rw [(mem_iff_lookup h).mp he] at hnone
    cases hnone

theorem table_of_has {x : SRecverInfo} (h : s.mapRecvers.lookup id = some x) :
    s.table id = s.mapRecvers := by
  unfold SendSock.table RecverMap.reserve
  rw [h, if_pos (by simp)]

theorem at_table_eq_iff {f : SRecverInfo → SRecverInfo} :
    RecverMap.at id f (s.table id) = s.mapRecvers ↔
      ∃ x, s.mapRecvers.lookup id = some x ∧ f x = x := by
  constructor
  · intro h
    have hl := lookup_at f id id (s.table id)
    rw [h, if_pos rfl] at hl
    rw [table_of_has hl] at h
    exact at_eq_self_iff.mp h
  · rintro ⟨x, hx, hf⟩
    rw [table_of_has hx]
    exact at_eq_self hx hf

theorem lookup_ackTable (seq id now j : ℕ) (m : RecverMap) : (ackTable seq id now m).lookup j =
    if j = id then some { (m.lookup id).getD {} with
      lastRecvedSeqNo := max ((m.lookup id).getD {}).lastRecvedSeqNo seq
      lastUpdateTimeUs := now } else m.lookup j := by
  unfold ackTable
  rw [lookup_at, lookup_at, lookup_at]
  by_cases hj : j = id
  · simp only [if_pos hj, if_true, Option.getD_some]
    have hmax : ∀ n : ℕ, (if seq < n then n else seq) = max n seq := fun n => by
      split_ifs
      · omega
      · omega
    rw [hmax]
  · rw [if_neg hj, if_neg hj, if_neg hj]

/-! ### The slowest receiver -/

/-- **The minimum** of the loop: what it starts from, or what some entry that is kept has. -/
theorem prune_attained (now alive : ℕ) : ∀ (m : RecverMap) (mini : ℕ),
    (prune now alive mini m).1 = mini ∨
      ∃ e ∈ m, Live now alive e ∧ e.2.lastRecvedSeqNo = (prune now alive mini m).1
  | [], mini => Or.inl rfl
  | (i, x) :: m, mini => by
    unfold prune
    by_cases hdead : alive < sub64 now x.lastUpdateTimeUs
    · rw [if_pos hdead]
      rcases prune_attained now alive m mini with h | ⟨e, he, hl, heq⟩
      · exact Or.inl h
      · exact Or.inr ⟨e, List.mem_cons_of_mem _ he, hl, heq⟩
    · have hl : Live now alive (i, x) := Nat.not_lt.mp hdead
      rw [if_neg hdead]
      rcases prune_attained now alive m
        (if x.lastRecvedSeqNo < mini then x.lastRecvedSeqNo else mini) with h | ⟨e, he, hl', heq⟩
      · by_cases hlt : x.lastRecvedSeqNo < mini
        · rw [if_pos hlt] at h ⊢
          exact Or.inr ⟨(i, x), List.mem_cons_self, hl, h.symm⟩
        · rw [if_neg hlt] at h ⊢
          exact Or.inl h
      · exact Or.inr ⟨e, List.mem_cons_of_mem _ he, hl', heq⟩

/-- What the entries that are kept have. -/
def kept (now alive : ℕ) (m : RecverMap) : Set ℕ :=
  {n | ∃ e ∈ m, Live now alive e ∧ e.2.lastRecvedSeqNo = n}

/-- The loop finds the least of what it starts from and what the kept entries have. -/
theorem prune_isLeast (now alive mini : ℕ) (m : RecverMap) :
    IsLeast (insert mini (kept now alive m)) (prune now alive mini m).1 := by
  obtain ⟨h1, h2, h3⟩ := prune_spec now alive m mini
  refine ⟨?_, ?_⟩
  · rcases prune_attained now alive m mini with h | ⟨e, he, hl, heq⟩
    · exact Or.inl h
    · exact Or.inr ⟨e, he, hl, heq⟩
  · rintro n (rfl | ⟨e, he, hl, rfl⟩)
    · exact h2
    · refine h3 e ?_
      rw [h1, List.mem_filter]
      exact ⟨he, by simpa using hl⟩

theorem prune_isLeast_of_mem {mini : ℕ} (h : mini ∈ kept now alive m) :
    IsLeast (kept now alive m) (prune now alive mini m).1 := by
  have hleast := prune_isLeast now alive mini m
  rwa [Set.insert_eq_of_mem h] at hleast

/-- The receivers heard from in time, when an ack of `id` is handled, and what each has. -/
def heard (seq id now alive : ℕ) (m : RecverMap) (j : ℕ) : Option SRecverInfo :=
  if j = id then
    some { (m.lookup id).getD {} with
      lastRecvedSeqNo := max ((m.lookup id).getD {}).lastRecvedSeqNo seq
      lastUpdateTimeUs := now }
  else (m.lookup j).filter fun x => now - x.lastUpdateTimeUs ≤ alive

/-- The least number that one of these receivers has. -/
def Slowest (seq id now alive : ℕ) (m : RecverMap) (n : ℕ) : Prop :=
  IsLeast {n | ∃ j x, heard seq id now alive m j = some x ∧ x.lastRecvedSeqNo = n} n

/-- An order in which an iteration may meet the table `m` once `m_mapRecvers[id]` was used: a new
entry comes anywhere. -/
def OrderOf (id : ℕ) (m order : RecverMap) : Prop := order.Perm (RecverMap.at id (fun i => i) m)

/-- The table holds 64-bit numbers, and no time in it is later than `now`. -/
structure Clocked (now : ℕ) (m : RecverMap) : Prop where
  keyed : Keyed m
  number : ∀ j x, m.lookup j = some x → x.lastRecvedSeqNo < 2 ^ 64
  time : ∀ j x, m.lookup j = some x → x.lastUpdateTimeUs ≤ now

/-- The ack leaves exactly the receivers heard from in time, and the head above the slowest. -/
structure Follows (seq id now : ℕ) (s t : SendSock) : Prop where
  keyed : Keyed t.mapRecvers
  table : ∀ j, t.mapRecvers.lookup j = heard seq id now s.maxKeepAliveTimeUs s.mapRecvers j
  head : ∃ n, Slowest seq id now s.maxKeepAliveTimeUs s.mapRecvers n ∧
    t.validSendingDataHead = max s.validSendingDataHead (n + 1)

/-- The number of the slowest receiver is not the last one there is, and either it is below the
head, or the first entry of the table is live or has at least that number. -/
def SeedFits (seq id now : ℕ) (s : SendSock) (order : RecverMap) : Prop :=
  ∃ n, Slowest seq id now s.maxKeepAliveTimeUs s.mapRecvers n ∧ n < 2 ^ 64 - 1 ∧
    (n < s.validSendingDataHead ∨ ∀ e ∈ order.head?, e.1 = id ∨
      Live now s.maxKeepAliveTimeUs e ∨ n ≤ e.2.lastRecvedSeqNo)

theorem lookup_order (h : Keyed m) (ho : OrderOf id m order) (j : ℕ) :
    order.lookup j = if j = id then some ((m.lookup id).getD {}) else m.lookup j := by
  rw [lookup_perm (keyed_at h _ id) ho, lookup_at]

theorem keyed_order (h : Keyed m) (ho : OrderOf id m order) : Keyed order :=
  (keyed_at h _ id).perm ho

theorem lookup_kept (h : Clocked now m) (hnow : now < 2 ^ 64) (ho : OrderOf id m order) (j : ℕ) :
    ((ackTable seq id now order).filter fun e => Live now alive e).lookup j =
      heard seq id now alive m j := by
  have hk := keyed_order h.keyed ho
  rw [lookup_filter (keyed_ackTable hk seq id now), lookup_ackTable, lookup_order h.keyed ho,
    lookup_order h.keyed ho]
  unfold heard
  by_cases hj : j = id
  · have hlive : sub64 now now = 0 := by
      rw [sub64_of_le hnow (Nat.le_refl _), Nat.sub_self]
    rw [if_pos hj, if_pos hj, if_pos rfl, Option.filter_some]
    simp [Live, hlive]
  · rw [if_neg hj, if_neg hj, if_neg hj]
    rcases hx : m.lookup j with _ | x
    · rfl
    · have hsub : sub64 now x.lastUpdateTimeUs = now - x.lastUpdateTimeUs :=
        sub64_of_le hnow (h.time j x hx)
      simp only [Option.filter_some, Live, hsub]

theorem kept_eq (seq alive : ℕ) (h : Clocked now m) (hnow : now < 2 ^ 64)
    (ho : OrderOf id m order) : kept now alive (ackTable seq id now order) =
      {n | ∃ j x, heard seq id now alive m j = some x ∧ x.lastRecvedSeqNo = n} := by
  have hk := keyed_ackTable (keyed_order h.keyed ho) seq id now
  ext n
  constructor
  · rintro ⟨⟨j, x⟩, he, hl, rfl⟩
    refine ⟨j, x, ?_, rfl⟩
    rw [← lookup_kept h hnow ho, ← mem_iff_lookup (hk.filter _), List.mem_filter]
    exact ⟨he, by simpa using hl⟩
  · rintro ⟨j, x, hx, rfl⟩
    rw [← lookup_kept h hnow ho, ← mem_iff_lookup (hk.filter _), List.mem_filter] at hx
    exact ⟨(j, x), hx.1, by simpa using hx.2, rfl⟩

/-! ### An ack -/

/-- **An ack that is not discarded**: the entries that are kept, and the head above the number the
loop found. -/
theorem ack_block (strict : Bool) (b : CMemBlock) (now : ℕ)
    (hnew : s.validSendingDataHead ≤ b.get64 0) :
    ∃ t, sendepHandleAck strict s b now = pure (.suc, t) ∧
      t.mapRecvers = (ackTable (b.get64 0) (b.get64 8) now (s.table (b.get64 8))).filter
        (fun e => Live now s.maxKeepAliveTimeUs e) ∧
      (∃ mini, mini = (prune now s.maxKeepAliveTimeUs
          (firstRecved (ackTable (b.get64 0) (b.get64 8) now (s.table (b.get64 8))))
          (ackTable (b.get64 0) (b.get64 8) now (s.table (b.get64 8)))).1 ∧
        t.validSendingDataHead =
          if mini < s.validSendingDataHead then s.validSendingDataHead else u64 (mini + 1)) ∧
      After s t := by
  obtain ⟨t, rfl, hrun⟩ := handleAck_new strict rfl rfl now s.pMem hnew
  refine ⟨_, hrun, ?_⟩
  by_cases hlow : leastAcked (b.get64 0) (b.get64 8) now s < s.validSendingDataHead
  · rw [if_pos hlow]
    exact ⟨rfl, ⟨_, rfl, (if_pos hlow).symm⟩, ⟨rfl, rfl, rfl, rfl, rfl⟩, rfl, idle_reset _⟩
  · rw [if_neg hlow]
    obtain ⟨v1, v2, v3, v4, hv⟩ := speedControl_eq { s with
      mapRecvers := (ackTable (b.get64 0) (b.get64 8) now (s.table (b.get64 8))).filter
        fun e => Live now s.maxKeepAliveTimeUs e
      pMem := some (b.decHeadData 16).reset
      validSendingDataHead := u64 (leastAcked (b.get64 0) (b.get64 8) now s + 1) }
    rw [hv]
    exact ⟨rfl, ⟨_, rfl, (if_neg hlow).symm⟩, ⟨rfl, rfl, rfl, rfl, rfl⟩, rfl, idle_reset _⟩

theorem ack_run (strict : Bool) (hb : Received b d) (hd : IsAck seq id d) (now : ℕ)
    (hnew : s.validSendingDataHead ≤ seq) :
    ∃ t, sendepHandleAck strict s (b.decHeadData 8) now = pure (.suc, t) ∧
      t.mapRecvers =
        (ackTable seq id now (s.table id)).filter (fun e => Live now s.maxKeepAliveTimeUs e) ∧
      ∃ mini, mini = (prune now s.maxKeepAliveTimeUs
          (firstRecved (ackTable seq id now (s.table id))) (ackTable seq id now (s.table id))).1 ∧
        t.validSendingDataHead =
          if mini < s.validSendingDataHead then s.validSendingDataHead else u64 (mini + 1) := by
  have hlen := hd.len
  have hseq : (b.decHeadData 8).get64 0 = seq := (hb.get64 0 (by omega)).trans hd.seq
  have hid : (b.decHeadData 8).get64 8 = id := (hb.get64 1 (by omega)).trans hd.id
  have h := ack_block strict (b.decHeadData 8) now (by rw [hseq]; exact hnew)
  rw [hseq, hid] at h
  obtain ⟨t, h1, h2, h3, -⟩ := h
  exact ⟨t, h1, h2, h3⟩

theorem self_kept (seq alive : ℕ) (hnow : now < 2 ^ 64) (hm : Clocked now m)
    (ho : OrderOf id m order) : ∃ x, (ackTable seq id now order).lookup id = some x ∧
      x.lastRecvedSeqNo ∈ kept now alive (ackTable seq id now order) := by
  refine ⟨_, by rw [lookup_ackTable, if_pos rfl], ?_⟩
  rw [kept_eq seq alive hm hnow ho]
  refine ⟨id, _, by rw [heard, if_pos rfl], ?_⟩
  rw [lookup_order hm.keyed ho, if_pos rfl]
  rfl

/-- The entry the minimum starts from is at least `n` exactly if it is live or says so. -/
theorem seed_iff {n : ℕ} (hnow : now < 2 ^ 64) (hm : Clocked now m) (ho : OrderOf id m order)
    (hn : IsLeast (kept now alive (ackTable seq id now order)) n) :
    (∀ e ∈ order.head?, e.1 = id ∨ Live now alive e ∨ n ≤ e.2.lastRecvedSeqNo) ↔
      n ≤ firstRecved (ackTable seq id now order) := by
  rcases order with _ | ⟨⟨i, x⟩, rest⟩
  · have hid := lookup_order (j := id) hm.keyed ho
    rw [if_pos rfl] at hid
    cases hid
  have hfirst : ∀ y, (ackTable seq id now ((i, x) :: rest)).lookup i = some y →
      firstRecved (ackTable seq id now ((i, x) :: rest)) = y.lastRecvedSeqNo := by
    intro y
    obtain ⟨x1, rest1, h1⟩ := at_cons (fun i => { i with lastUpdateTimeUs := now }) id i x rest
    obtain ⟨x2, rest2, h2⟩ := at_cons (fun i => { i with
      lastRecvedSeqNo := if seq < i.lastRecvedSeqNo then i.lastRecvedSeqNo else seq }) id i x1 rest1
    unfold ackTable
    rw [h1, h2, List.lookup_cons_self]
    intro hy
    cases hy
    rfl
  by_cases hi : i = id
  · obtain ⟨y, hy, hmem⟩ := self_kept seq alive hnow hm ho
    subst hi
    rw [hfirst y hy]
    refine iff_of_true (fun e he => ?_) (hn.2 hmem)
    cases he
    exact Or.inl rfl
  · have hy : (ackTable seq id now ((i, x) :: rest)).lookup i = some x := by
      rw [lookup_ackTable, if_neg hi, List.lookup_cons_self]
    rw [hfirst x hy]
    constructor
    · intro h
      rcases h (i, x) rfl with he | hl | hle
      · exact absurd he hi
      · refine hn.2 ⟨(i, x), ?_, hl, rfl⟩
        exact (mem_iff_lookup (keyed_ackTable (keyed_order hm.keyed ho) seq id now)).mpr hy
      · exact hle
    · intro hle e he
      cases he
      exact Or.inr (Or.inr hle)

/-- **The head after an ack.** It is above the slowest live receiver exactly if the entry from which
the minimum starts fits. -/
theorem head_iff (strict : Bool) (hb : Received b d) (hd : IsAck seq id d)
    (hm : Clocked now s.mapRecvers) (hnow : now < 2 ^ 64) (hhead : s.validSendingDataHead < 2 ^ 64)
    (hnew : s.validSendingDataHead ≤ seq) (ho : OrderOf id s.mapRecvers order) :
    ∃ t, sendepHandleAck strict { s with mapRecvers := order } (b.decHeadData 8) now =
        pure (.suc, t) ∧
      (Follows seq id now s t ↔ SeedFits seq id now s order) := by
  obtain ⟨t, hrun, htab, mini, hmini, hnext⟩ :=
    ack_run (s := { s with mapRecvers := order }) strict hb hd now hnew
  refine ⟨t, hrun, ?_⟩
  have hin := lookup_order (j := id) hm.keyed ho
  rw [if_pos rfl] at hin
  rw [table_of_has (s := { s with mapRecvers := order }) hin] at htab hmini
  have hset := kept_eq seq s.maxKeepAliveTimeUs hm hnow ho
  obtain ⟨x, -, hx⟩ := self_kept seq s.maxKeepAliveTimeUs hnow hm ho
  obtain ⟨n, hn⟩ : ∃ n, IsLeast (kept now s.maxKeepAliveTimeUs (ackTable seq id now order)) n :=
    ⟨_, prune_isLeast_of_mem hx⟩
  have hslow : ∀ n', Slowest seq id now s.maxKeepAliveTimeUs s.mapRecvers n' ↔ n' = n := by
    intro n'
    unfold Slowest
    rw [← hset]
    exact ⟨fun h => h.unique hn, fun h => h ▸ hn⟩
  have hmin : mini = min (firstRecved (ackTable seq id now order)) n := by
    rw [hmini]
    exact (prune_isLeast now s.maxKeepAliveTimeUs _ _).unique (hn.insert _)
  have hlt : n < 2 ^ 64 := by
    rw [hset] at hn
    obtain ⟨⟨j, y, hy, rfl⟩, -⟩ := hn
    unfold heard at hy
    have hseq : seq < 2 ^ 64 := hd.seq ▸ word_lt 0 d
    by_cases hj : j = id
    · rw [if_pos hj] at hy
      cases hy
      refine max_lt ?_ hseq
      rcases hl : s.mapRecvers.lookup id with _ | y
      · exact Nat.two_pow_pos 64
      · exact hm.number id y hl
    · rw [if_neg hj, Option.filter_eq_some_iff] at hy
      exact hm.number j y hy.1
  have hseed := seed_iff hnow hm ho hn
  constructor
  · rintro ⟨-, -, n', hn', heq⟩
    rw [hslow] at hn'
    subst hn'
    refine ⟨n', (hslow n').mpr rfl, ?_⟩
    rw [hseed]
    simp only [hnext, hmin] at heq
    unfold u64 at heq
    split_ifs at heq with hlow
    · omega
    · omega
  · rintro ⟨n', hn', hbound, hfit⟩
    rw [hslow] at hn'
    subst hn'
    rw [hseed] at hfit
    refine ⟨?_, fun j => ?_, n', (hslow n').mpr rfl, ?_⟩
    · rw [htab]
      exact (keyed_ackTable (keyed_order hm.keyed ho) seq id now).filter _
    · rw [htab]
      exact lookup_kept hm hnow ho j
    · simp only [hnext, hmin]
      unfold u64
      split_ifs with hlow
      · omega
      · omega

/-- Two receivers, the first of which was last heard from at time 0. -/
def expired : RecverMap := [(1, ⟨2, 0, 0⟩), (2, ⟨5, 0, 95⟩)]

/-- A sender with this table, for which a receiver is live for 10 us. -/
def lagging (m : RecverMap) : SendSock := { Sendep.open ⟨1, 2⟩ 7 10 500 1000000 with
  validSendingDataHead := 3
  validSendingDataTail := 20
  sendingSeqNo := 19
  mapRecvers := m
  place := fun _ => m.length }

private theorem nine : Received (.ofBytes (ackBytes (fun _ => 0) 9 2)) (ackBytes (fun _ => 0) 9 2) ∧
    IsAck 9 2 (ackBytes (fun _ => 0) 9 2) :=
  ⟨received_ofBytes _, isAck_ackBytes _ (by omega) (by omega)⟩

private theorem clocked_expired : Clocked 100 expired := by
  have hall : ∀ j x, expired.lookup j = some x → x = ⟨2, 0, 0⟩ ∨ x = ⟨5, 0, 95⟩ := by
    intro j x hx
    have hk : Keyed expired := by unfold Keyed; decide
    have hmem := (mem_iff_lookup hk).mpr hx
    unfold expired at hmem
    simp only [List.mem_cons, Prod.mk.injEq, List.not_mem_nil, or_false] at hmem
    exact hmem.imp And.right And.right
  refine ⟨by unfold Keyed; decide, fun j x hx => ?_, fun j x hx => ?_⟩
  · rcases hall j x hx with rfl | rfl
    · decide
    · decide
  · rcases hall j x hx with rfl | rfl
    · decide
    · decide

/-- With the live receiver first, the head goes to 10. -/
theorem head_iff_reversed : ∃ t, sendepHandleAck true (lagging expired.reverse)
    ((CMemBlock.ofBytes (ackBytes (fun _ => 0) 9 2)).decHeadData 8) 100 = pure (.suc, t) ∧
      (Follows 9 2 100 (lagging expired) t ↔
        SeedFits 9 2 100 (lagging expired) expired.reverse) :=
  head_iff (s := lagging expired) true nine.1 nine.2 clocked_expired (by omega) (by decide)
    (by decide) (by unfold OrderOf; decide)

/-- **The expired receiver first.** It is dropped, but its number keeps the head at 3. -/
theorem stuck : ∃ t, sendepHandleAck true (lagging expired)
    ((CMemBlock.ofBytes (ackBytes (fun _ => 0) 9 2)).decHeadData 8) 100 = pure (.suc, t) ∧
      t.mapRecvers = [(2, ⟨9, 0, 100⟩)] ∧ t.validSendingDataHead = 3 ∧
      ¬ Follows 9 2 100 (lagging expired) t := by
  obtain ⟨t, hrun, htab, mini, hmini, hhead⟩ :=
    ack_run (s := lagging expired) true nine.1 nine.2 100 (by decide)
  have hmini' : mini = 2 := by
    rw [hmini]
    decide
  have hhead' : t.validSendingDataHead = 3 := by
    rw [hhead, hmini']
    decide
  refine ⟨t, hrun, ?_, hhead', ?_⟩
  · rw [htab]
    decide
  · rintro ⟨-, -, n, ⟨⟨j, x, hx, rfl⟩, -⟩, heq⟩
    rw [hhead'] at heq
    by_cases hj : j = 2
    · subst hj
      have hx' : x = ⟨9, 0, 100⟩ := by
        have h9 : heard 9 2 100 10 expired 2 = some ⟨9, 0, 100⟩ := by decide
        exact (Option.some.inj (h9.symm.trans hx)).symm
      subst hx'
      exact absurd heq (by decide)
    · have hnone : heard 9 2 100 10 expired j = none := by
        unfold heard
        rw [if_neg hj]
        by_cases h1 : j = 1
        · subst h1
          decide
        · unfold expired
          rw [lookup_cons_ne h1, lookup_cons_ne hj]
          rfl
      exact absurd (hnone.symm.trans hx) (by simp)

/-! ### Discarded feedback -/

/-- A packet of a receiver. -/
inductive Feedback
  | nak
  | ack
  deriving DecidableEq

/-- The handler of the packet, for the block behind its header; its assert is read as a no-op. -/
def Feedback.handle (s : SendSock) (b : CMemBlock) (now : ℕ) (sent : ℕ → Bool) :
    Feedback → Eff Ev Fault (Cmnerr × SendSock)
  | .nak => sendepHandleNak false s b now sent
  | .ack => sendepHandleAck false s b now

/-- The handler finds the packet outside the window. -/
def Feedback.Discarded (s : SendSock) (b : CMemBlock) : Feedback → Prop
  | .nak => b.get64 0 < s.validSendingDataHead ∨ s.validSendingDataTail ≤ b.get64 8
  | .ack => b.get64 0 < s.validSendingDataHead

/-- The table, the NAK counters, the speed and the window are as before. -/
structure Unaffected (s t : SendSock) : Prop where
  table : ∀ j, t.mapRecvers.lookup j = s.mapRecvers.lookup j
  naks : t.naks = s.naks
  sendSpeed : t.sendSpeed = s.sendSpeed
  head : t.validSendingDataHead = s.validSendingDataHead
  tail : t.validSendingDataTail = s.validSendingDataTail
  sending : t.sendingSeqNo = s.sendingSeqNo

theorem countNak_naks (s : SendSock) (id now : ℕ) : (countNak s id now).naks ≠ s.naks := by
  unfold countNak
  simp only
  split_ifs with hmany
  · intro h0
    rw [← show (0 : ℕ) = s.naks from h0] at hmany
    exact absurd hmany (by decide)
  · show u32 (s.naks + 1) ≠ s.naks
    unfold u32
    omega

theorem nak_discarded (now : ℕ) (sent : ℕ → Bool) (hd : Feedback.nak.Discarded s b) :
    Feedback.nak.handle s b now sent = pure (.suc, { countNak s (b.get64 16) now with
      pMem := some (b.decHeadData 24).reset }) := by
  obtain ⟨n, v, hcount⟩ := countNak_eq s (b.get64 16) now
  have hout : b.get64 0 < (countNak s (b.get64 16) now).validSendingDataHead ∨
      (countNak s (b.get64 16) now).validSendingDataTail ≤ b.get64 8 := by
    rw [hcount]
    exact hd
  unfold Feedback.handle sendepHandleNak
  rw [if_pos hout]
  rfl

theorem ack_discarded (now : ℕ) (sent : ℕ → Bool) (hd : Feedback.ack.Discarded s b) :
    Feedback.ack.handle s b now sent = pure (.suc, { s with
      mapRecvers :=
        RecverMap.at (b.get64 8) (fun i => { i with lastUpdateTimeUs := now }) (s.table (b.get64 8))
      pMem := some (b.decHeadData 16).reset }) := by
  have hold : b.get64 0 < s.validSendingDataHead := hd
  unfold Feedback.handle sendepHandleAck
  simp only [if_pos hold]
  rfl

/-- **What a discarded packet leaves as it was.** A NAK is always counted; an ack changes nothing
exactly if its receiver is in the table and was heard from at this very time. -/
theorem discard_iff (fb : Feedback) (s : SendSock) (b : CMemBlock) (now : ℕ) (sent : ℕ → Bool)
    (hd : fb.Discarded s b) : ∃ t, fb.handle s b now sent = pure (.suc, t) ∧
      (Unaffected s t ↔ fb = .ack ∧
        ∃ x, s.mapRecvers.lookup (b.get64 8) = some x ∧ x.lastUpdateTimeUs = now) := by
  rcases fb with _ | _
  · refine ⟨_, nak_discarded now sent hd, iff_of_false (fun h => ?_) (fun h => ?_)⟩
    · exact countNak_naks s (b.get64 16) now h.naks
    · cases h.1
  · refine ⟨_, ack_discarded now sent hd, ?_⟩
    constructor
    · intro h
      have hid := h.table (b.get64 8)
      simp only [lookup_at, lookup_table, if_true] at hid
      exact ⟨rfl, _, hid.symm, rfl⟩
    · rintro ⟨-, x, hx, hnow⟩
      refine ⟨fun j => ?_, rfl, rfl, rfl, rfl, rfl⟩
      simp only [table_of_has hx, lookup_at]
      by_cases hj : j = b.get64 8
      · rw [if_pos hj, hj, hx, Option.getD_some, ← hnow]
      · rw [if_neg hj]

/-- **Holding back.** As long as an entry below the head is live, no ack raises the head. -/
theorem held_back (strict : Bool) (hb : Received b d) (hd : IsAck seq id d) (now : ℕ)
    (hnew : s.validSendingDataHead ≤ seq) {e : ℕ × SRecverInfo}
    (he : e ∈ ackTable seq id now (s.table id)) (hl : Live now s.maxKeepAliveTimeUs e)
    (hlow : e.2.lastRecvedSeqNo < s.validSendingDataHead) :
    ∃ t, sendepHandleAck strict s (b.decHeadData 8) now = pure (.suc, t) ∧
      t.validSendingDataHead = s.validSendingDataHead := by
  obtain ⟨t, hrun, -, mini, hmini, hhead⟩ := ack_run strict hb hd now hnew
  refine ⟨t, hrun, ?_⟩
  have hle : mini ≤ e.2.lastRecvedSeqNo := by
    rw [hmini]
    exact (prune_isLeast now s.maxKeepAliveTimeUs _ _).2 (Or.inr ⟨e, he, hl, rfl⟩)
  rw [hhead, if_pos (by omega)]

theorem discard_iff_known : ∃ t, Feedback.handle (lagging expired)
      ((CMemBlock.ofBytes (ackBytes (fun _ => 0) 2 2)).decHeadData 8) 95 (fun _ => true) .ack =
        pure (.suc, t) ∧
    (Unaffected (lagging expired) t ↔ Feedback.ack = .ack ∧
      ∃ x, (lagging expired).mapRecvers.lookup (((CMemBlock.ofBytes
        (ackBytes (fun _ => 0) 2 2)).decHeadData 8).get64 8) = some x ∧ x.lastUpdateTimeUs = 95) :=
  discard_iff .ack (lagging expired) _ 95 (fun _ => true)
    (show CMemBlock.get64 _ 0 < 3 by decide)

/-- **A phantom.** Receiver 7 asks for packet 1, which is no longer available, and is discarded; the
table then has it with nothing received, and the next ack of receiver 2 does not raise the head. -/
theorem phantom : ∃ t u, Feedback.handle (lagging [(2, ⟨5, 0, 95⟩)])
      ((CMemBlock.ofBytes (nakBytes (fun _ => 0) 1 1 7)).decHeadData 8) 100 (fun _ => true) .nak =
        pure (.suc, t) ∧
    Feedback.nak.Discarded (lagging [(2, ⟨5, 0, 95⟩)])
      ((CMemBlock.ofBytes (nakBytes (fun _ => 0) 1 1 7)).decHeadData 8) ∧
    t.mapRecvers = [(2, ⟨5, 0, 95⟩), (7, ⟨0, 1, 100⟩)] ∧ t.naks = 1 ∧
    ¬ Unaffected (lagging [(2, ⟨5, 0, 95⟩)]) t ∧
    sendepHandleAck true t
      ((CMemBlock.ofBytes (ackBytes (fun _ => 0) 9 2)).decHeadData 8) 100 = pure (.suc, u) ∧
    u.validSendingDataHead = 3 := by
  have hd : Feedback.nak.Discarded (lagging [(2, ⟨5, 0, 95⟩)])
      ((CMemBlock.ofBytes (nakBytes (fun _ => 0) 1 1 7)).decHeadData 8) :=
    Or.inl (show CMemBlock.get64 _ 0 < 3 by decide)
  set t : SendSock := { countNak (lagging [(2, ⟨5, 0, 95⟩)]) 7 100 with
    pMem := some (((CMemBlock.ofBytes (nakBytes (fun _ => 0) 1 1 7)).decHeadData 8).decHeadData
      24).reset } with ht
  have htab : t.mapRecvers = [(2, ⟨5, 0, 95⟩), (7, ⟨0, 1, 100⟩)] := by
    rw [ht]
    decide
  have hid : ((CMemBlock.ofBytes (nakBytes (fun _ => 0) 1 1 7)).decHeadData 8).get64 16 = 7 := by
    decide
  obtain ⟨u, hu, hhead⟩ := held_back (s := t) (e := (7, ⟨0, 1, 100⟩)) true nine.1 nine.2
    100 (show 3 ≤ 9 by decide) (mem_ackTable (mem_table (by rw [htab]; decide) 2) (by decide) 9 100)
    (show sub64 100 100 ≤ 10 by decide) (show 0 < 3 by decide)
  refine ⟨t, u, ?_, hd, htab, by rw [ht]; decide, fun h => ?_, hu, hhead⟩
  · rw [nak_discarded 100 (fun _ => true) hd, hid]
  · exact countNak_naks (lagging [(2, ⟨5, 0, 95⟩)]) 7 100 h.naks

end SmartNet.Network.Rmp.RecverTable

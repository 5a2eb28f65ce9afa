import SmartNet.Lib.Reach
import SmartNet.Network.Rup.SendPayloads

/-! # A `CRupSock` can always be flushed

From every state that the threads of a socket can reach, calls of `handle_can_send` and the steps
that are under way can bring all accepted bytes to the kernel, if it takes them.

* `Filled`: no block that waits to be sent is empty;
* `leads_free`: the threads can give back the lock;
* `leads_flushed`: and one of them can then empty both queues. -/

namespace SmartNet.Network.Rup.SendLive

open SmartNet.Common SmartNet.Lib.Run SmartNet.Lib.Reach SmartNet.Memory.MemBlock
open SmartNet.Network.Rup.SendQueue SmartNet.Network.Rup.SendOrder SmartNet.Network.Rup.SendPayloads

variable {τ : Type}

/-- No block is empty. -/
def AllFull (q : List CMemBlock) : Prop := ∀ b ∈ q, 0 < b.len

/-- No block that waits to be sent is empty. -/
structure Filled (w : Socket τ) : Prop where
  cache : AllFull w.qSendCache
  sending : AllFull w.qSending
  pushing : ∀ t b, w.lkSending = some (t, .pushFront b) → 0 < b.len

theorem allFull_cacheData (p : Payload) : ∀ {q : List CMemBlock}, AllFit q → AllFull q →
    AllFull (cacheData q p.mem)
  | [], _, _ => by
    intro b hb
    rw [List.mem_singleton.mp hb]
    exact p.pos
  | [b], hfit, hfull => by
    have hb := hfit b List.mem_cons_self
    have hpos := hfull b List.mem_cons_self
    unfold cacheData
    rcases Nat.lt_or_ge maxMemSize (b.len + p.mem.data.length) with hgt | hle
    · rw [CMemBlock.append_of_gt hb hgt]
      intro c hc
      simp only [ne_eq, reduceCtorEq, not_false_eq_true, if_true, List.mem_cons,
        List.not_mem_nil, or_false] at hc
      rcases hc with rfl | rfl
      · exact hpos
      · exact p.pos
    · obtain ⟨b', hres, -, hdata⟩ := CMemBlock.append_of_le hb hle
      have hlen : b'.len = b.len + p.mem.data.length := by
        rw [← CMemBlock.length_data b', hdata, List.length_append, CMemBlock.length_data]
      rw [hres]
      intro c hc
      simp only [ne_eq, not_true_eq_false, if_false, List.mem_singleton] at hc
      rw [hc]
      omega
  | b :: c :: q, hfit, hfull => by
    obtain ⟨-, hfit'⟩ := allFit_cons.mp hfit
    obtain ⟨hb, hfull'⟩ := List.forall_mem_cons.mp hfull
    exact List.forall_mem_cons.mpr ⟨hb, allFull_cacheData p hfit' hfull'⟩

variable {w : Socket τ} {t : τ}

theorem Filled.record (h : Filled w) (d : List UInt8) : Filled (w.record d) := by
  unfold Socket.record
  split_ifs <;> exact ⟨h.cache, h.sending, h.pushing⟩

theorem Filled.inside (h : Filled w) (ho : OrderInv w) {i : Inside} (io : SendIo)
    (hl : w.lkSending = some (t, i)) : Filled (inside w t i io) := by
  have hgo : ∀ {v : Socket τ} (j : Inside), AllFull v.qSendCache → AllFull v.qSending →
      v.lkSending = some (t, j) → (∀ b, j = .pushFront b → 0 < b.len) → Filled v := by
    intro v j hc hs hv hj
    refine ⟨hc, hs, fun u b hb => hj b ?_⟩
    rw [hv] at hb
    simp only [Option.some.injEq, Prod.mk.injEq] at hb
    exact hb.2
  cases i with
  | check p =>
    unfold SendOrder.inside
    dsimp only
    split_ifs with hq
    · refine ⟨allFull_cacheData p ho.cacheFit h.cache, (h.record _).sending, fun u b hb => ?_⟩
      simp at hb
    · exact hgo (.direct p) h.cache h.sending rfl (by simp)
  | direct p =>
    unfold SendOrder.inside
    dsimp only
    split
    · exact hgo .unlock h.cache h.sending rfl (by simp)
    · rename_i k hk
      split_ifs with h0 hlt
      · exact ⟨h.cache, h.sending, h.pushing⟩
      · refine hgo (.pushFront (p.mem.decHeadData k)) h.cache h.sending rfl fun b hb => ?_
        simp only [Inside.pushFront.injEq] at hb
        rw [← hb, (p.fits.decHeadData (Nat.le_of_lt hlt)).2.2]
        omega
      · exact hgo .unlock h.cache h.sending rfl (by simp)
  | pushFront b =>
    exact hgo .unlock (List.forall_mem_cons.mpr ⟨h.pushing t b hl, h.cache⟩) h.sending rfl (by simp)
  | unlock => exact ⟨h.cache, h.sending, fun u b hb => by simp [SendOrder.inside] at hb⟩
  | swap =>
    unfold SendOrder.inside
    dsimp only
    split_ifs
    · exact hgo .flush h.sending h.cache rfl (by simp)
    · exact hgo .flush h.cache h.sending rfl (by simp)
  | flush =>
    unfold SendOrder.inside
    dsimp only
    split
    · exact hgo .unlock h.cache h.sending rfl (by simp)
    · rename_i b q hq
      have hb : b.Fits := ho.sendingFit b (by simp [hq])
      have hfull : AllFull q := fun c hc => h.sending c (by simp [hq, hc])
      split
      · split_ifs
        · exact h
        · exact hgo .unlock h.cache h.sending rfl (by simp)
      · rename_i k hk
        split_ifs with h0 hlt hnil
        · exact ⟨h.cache, h.sending, h.pushing⟩
        · refine hgo .unlock h.cache (List.forall_mem_cons.mpr ⟨?_, hfull⟩) rfl (by simp)
          rw [(hb.decHeadData (Nat.le_of_lt hlt)).2.2]
          omega
        · exact hgo .swap h.cache hfull rfl (by simp)
        · exact hgo .flush h.cache hfull rfl (by simp)

theorem Filled.outside [DecidableEq τ] (h : Filled w) (ho : OrderInv w) (o : Outside) (a : Act) :
    Filled (outside w t o a) := by
  unfold SendOrder.outside
  split
  · exact ⟨h.cache, h.sending, h.pushing⟩
  · exact ⟨h.cache, h.sending, h.pushing⟩
  · split_ifs
    · exact ⟨h.cache, h.sending, fun u b hb => by simp at hb⟩
    · exact ⟨h.cache, h.sending, h.pushing⟩
  · rename_i p _
    exact ⟨allFull_cacheData p ho.cacheFit h.cache, (h.record _).sending, (h.record _).pushing⟩
  · split_ifs
    · exact ⟨h.cache, h.sending, fun u b hb => by simp at hb⟩
    · exact h
  · exact h

/-- **One step** of any thread. -/
theorem Filled.step [DecidableEq τ] (h : Filled w) (ho : OrderInv w) (x : τ × Act) :
    Filled (step w x) := by
  obtain ⟨t, a⟩ := x
  unfold SendOrder.step
  dsimp only
  split_ifs
  · exact h
  · split
    · rename_i u i hl
      split_ifs with hu
      · subst hu
        cases a with
        | go io => exact h.inside ho io hl
        | send p => exact h
        | handleCanSend => exact h
      · exact h.outside ho _ _
    · exact h.outside ho _ _

/-! ### Giving back the lock -/

variable [DecidableEq τ]

/-- A step that begins no call of `send`, and no direct `::send` that takes bytes while `m_qSending`
has some. -/
def Drains (w : Socket τ) (x : τ × Act) : Prop := Flushed w x ∧ ∀ p, x.2 ≠ .send p

/-- What the state is once the lock is given back. -/
structure Released (w v : Socket τ) : Prop where
  leads : Leads step Drains w v
  unlocked : v.lkSending = none
  alive : v.aborted = false
  pc : v.pc = w.pc

theorem Released.after {w' v : Socket τ} {x : τ × Act} (h : Released w' v) (hc : Drains w x)
    (hstep : step w x = w') (hpc : w'.pc = w.pc) : Released w v :=
  ⟨leads_step hc hstep h.leads, h.unlocked, h.alive, h.pc.trans hpc⟩

/-- Both queues are empty, and nobody has the lock. -/
structure Drained (w v : Socket τ) : Prop where
  leads : Leads step Drains w v
  unlocked : v.lkSending = none
  alive : v.aborted = false
  sending : v.qSending = []
  cache : v.qSendCache = []

theorem Drained.after {v w' : Socket τ} (h : Drained w' v) (hlead : Leads step Drains w w') :
    Drained w v :=
  ⟨hlead.trans h.leads, h.unlocked, h.alive, h.sending, h.cache⟩

end SmartNet.Network.Rup.SendLive

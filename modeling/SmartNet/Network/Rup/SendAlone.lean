import SmartNet.Network.Rup.Send
import SmartNet.Network.Rup.SendOrder

/-! # A call of `send` that no other thread interrupts

`SendOrder` takes a call of `send` apart into the steps between which other threads run; `Send` has
the whole call as one function. If the steps of a thread follow each other, they do to the queues
and the kernel what the function does.

* `Left`: what the steps leave;
* `send_alone`: it is what `send` returns. -/

namespace SmartNet.Network.Rup.SendAlone

open SmartNet.Common SmartNet.Lib SmartNet.Lib.Run SmartNet.Memory.MemBlock
open SmartNet.Network.Rup.SendQueue SmartNet.Network.Rup.SendOrder
open SmartNet.Network.Rup.Send (RupSock Ev taken direct direct_took direct_none send_cached
  send_direct)

variable {τ : Type} [DecidableEq τ] {w : Socket τ} {t : τ}

/-- The socket as a call of `send` finds it. -/
def ofSocket (w : Socket τ) : RupSock := ⟨w.qSendCache, w.qSending, w.lkSending.isSome⟩

/-- The thread is in no call. -/
structure Idle (w : Socket τ) (t : τ) : Prop where
  pc : w.pc t = .idle
  lkSending : ∀ u i, w.lkSending = some (u, i) → u ≠ t
  aborted : w.aborted = false

theorem step_outside (hlk : ∀ u i, w.lkSending = some (u, i) → u ≠ t) (hab : w.aborted = false)
    (a : Act) : step w (t, a) = outside w t (w.pc t) a := by
  unfold step
  dsimp only
  rw [if_neg (by rw [hab]; decide)]
  split
  · rename_i u i hl
    rw [if_neg (hlk u i hl)]
  · rfl

theorem step_inside {i : Inside} (hlk : w.lkSending = some (t, i)) (hab : w.aborted = false)
    (io : SendIo) : step w (t, .go io) = inside w t i io := by
  unfold step
  dsimp only
  rw [if_neg (by rw [hab]; decide), hlk]
  simp

theorem Idle.go (h : Idle w t) (io : SendIo) : ∀ n, run step w (List.replicate n (t, .go io)) = w
  | 0 => rfl
  | n + 1 => by
    rw [List.replicate_succ, run_cons, step_outside h.lkSending h.aborted, h.pc]
    exact h.go io n

/-- What a call leaves: the thread is in no call again. -/
structure Left (v : Socket τ) (t : τ) (s : RupSock) (kernel : List UInt8) : Prop where
  qSendCache : v.qSendCache = s.qSendCache
  qSending : v.qSending = s.qSending
  kernel : v.kernel = kernel
  idle : Idle v t

variable {v : Socket τ} {p : Payload} {b : CMemBlock} {c : Cmnerr} {s s' : RupSock} {evs : List Ev}
  {io : SendIo} {n : ℕ}

theorem Left.more {k : List UInt8} (h : Left v t s k) (io : SendIo) (n : ℕ) :
    Left (run step v (List.replicate n (t, .go io))) t s k := by
  rw [h.idle.go io n]
  exact h

theorem queue_alone (hpc : v.pc t = .tryLock p) (hlk : ∀ u i, v.lkSending = some (u, i) → u ≠ t)
    (hab : v.aborted = false) (hbusy : v.lkSending.isSome = true) (io : SendIo) :
    Left (run step v (List.replicate 2 (t, .go io))) t
      { ofSocket v with qSendCache := cacheData v.qSendCache p.mem } v.kernel := by
  have h1 : step v (t, .go io) = { v with pc := Function.update v.pc t (.queue p) } := by
    rw [step_outside hlk hab, hpc]
    exact if_neg (by cases hl : v.lkSending <;> simp_all)
  set u : Socket τ := { v with pc := Function.update v.pc t (.queue p) } with hu
  have h2 : step u (t, .go io) = { u.record p.mem.data with
      qSendCache := cacheData v.qSendCache p.mem, pc := Function.update u.pc t .idle } := by
    rw [step_outside (w := u) hlk hab, show u.pc t = .queue p from Function.update_self _ _ _]
    rfl
  show Left (step (step v (t, .go io)) (t, .go io)) t _ _
  rw [h1, h2]
  unfold Socket.record
  split_ifs <;> exact ⟨rfl, rfl, rfl, Function.update_self _ _ _, hlk, hab⟩

theorem unlock_alone (hpc : v.pc t = .idle) (hlk : v.lkSending = some (t, .unlock))
    (hab : v.aborted = false) (hcache : v.qSendCache = s.qSendCache)
    (hsending : v.qSending = s.qSending) :
    Left (run step v (List.replicate (n + 1) (t, .go io))) t s v.kernel := by
  have hidle : Idle (inside v t .unlock io) t := ⟨hpc, nofun, hab⟩
  rw [List.replicate_succ, run_cons, step_inside hlk hab, hidle.go io n]
  exact ⟨hcache, hsending, rfl, hidle⟩

theorem pushFront_alone (hpc : v.pc t = .idle) (hlk : v.lkSending = some (t, .pushFront b))
    (hab : v.aborted = false) (hcache : v.qSendCache = s.qSendCache)
    (hsending : v.qSending = s.qSending) :
    Left (run step v (List.replicate (n + 2) (t, .go io))) t
      { s with qSendCache := b :: s.qSendCache } v.kernel := by
  rw [List.replicate_succ, run_cons, step_inside hlk hab]
  exact unlock_alone (v := inside v t (.pushFront b) io) hpc rfl hab (congrArg (b :: ·) hcache)
    hsending

omit [DecidableEq τ] in
theorem inside_direct (hn : min n p.mem.len ≠ 0) : inside v t (.direct p) (.took n) =
    { v with
      lkSending := some (t, if min n p.mem.len < p.mem.len
        then .pushFront (p.mem.decHeadData (min n p.mem.len)) else .unlock)
      kernel := v.kernel ++ p.mem.data.take (min n p.mem.len)
      accepted := v.accepted ++ (p.mem.data :: v.since)
      since := [] } := by
  unfold inside
  simp only [SendIo.takes, if_neg hn]

theorem direct_alone (hpc : v.pc t = .idle) (hlk : v.lkSending = some (t, .direct p))
    (hab : v.aborted = false) (hcache : v.qSendCache = s.qSendCache)
    (hsending : v.qSending = s.qSending) (h : direct s p.mem io = ⟨evs, .ok (c, s')⟩) :
    Left (run step v (List.replicate 3 (t, .go io))) t s' (v.kernel ++ taken evs) := by
  rw [List.replicate_succ, run_cons, step_inside hlk hab]
  rcases io with n | - | - | -
  case took =>
    by_cases hn : min n p.mem.len = 0
    · rw [direct_none hn] at h
      cases h
    · rw [direct_took hn] at h
      rw [inside_direct hn]
      have htaken : taken [.taken (p.mem.data.take (min n p.mem.len)), .unlock] =
          p.mem.data.take (min n p.mem.len) := List.append_nil _
      by_cases hlt : min n p.mem.len < p.mem.len
      · rw [if_pos hlt] at h ⊢
        cases h
        rw [htaken]
        exact pushFront_alone
          (v := { v with lkSending := _, kernel := _, accepted := _, since := _ })
          hpc rfl hab hcache hsending
      · rw [if_neg hlt] at h ⊢
        cases h
        rw [htaken]
        exact unlock_alone (v := { v with lkSending := _, kernel := _, accepted := _, since := _ })
          hpc rfl hab hcache hsending
  all_goals
    cases h
    rw [show v.kernel ++ taken _ = v.kernel from List.append_nil _]
    exact unlock_alone (v := { v with lkSending := _, accepted := _, since := _ }) hpc rfl hab
      hcache hsending

/-- **A call that no other thread interrupts**: the steps of its thread do to the queues and to the
kernel what `send` does. -/
theorem send_alone (hidle : Idle w t) (h : Send.send (ofSocket w) p.mem io = ⟨evs, .ok (c, s)⟩) :
    Left (run step w ((t, .send p) :: List.replicate 5 (t, .go io))) t s
      (w.kernel ++ taken evs) := by
  set v : Socket τ := { w with pc := Function.update w.pc t (.tryLock p) } with hv
  have h0 : step w (t, .send p) = v := by
    rw [step_outside hidle.lkSending hidle.aborted, hidle.pc]
    rfl
  have hpc : v.pc t = .tryLock p := Function.update_self _ _ _
  rw [run_cons, h0]
  by_cases hbusy : w.lkSending.isSome = true
  · obtain ⟨evs', ht, -, heq⟩ := send_cached (s := ofSocket w) io p.pos (Or.inl hbusy)
    rw [heq] at h
    cases h
    rw [ht, List.append_nil]
    exact (queue_alone (v := v) hpc hidle.lkSending hidle.aborted hbusy io).more io 3
  · have hnone : w.lkSending = none := by simpa using hbusy
    set u : Socket τ :=
      { v with lkSending := some (t, .check p), pc := Function.update v.pc t .idle } with hu
    have h1 : step v (t, .go io) = u := by
      rw [step_outside (w := v) hidle.lkSending hidle.aborted, hpc]
      exact if_pos (by rw [show v.lkSending = w.lkSending from rfl, hnone]; rfl)
    have hupc : u.pc t = .idle := Function.update_self _ _ _
    rw [List.replicate_succ, run_cons, h1, List.replicate_succ, run_cons,
      step_inside (w := u) rfl hidle.aborted]
    by_cases hq : w.qSendCache = []
    · rw [send_direct p.pos (by show w.lkSending.isSome = false; rw [hnone]; rfl) hq] at h
      obtain ⟨evs', rfl, hdir⟩ := Eff.emit_inv h
      rw [show inside u t (.check p) io = { u with lkSending := some (t, .direct p) } from
        if_neg (not_not.mpr hq)]
      have hleft := direct_alone (v := { u with lkSending := some (t, .direct p) }) hupc rfl
        hidle.aborted rfl rfl hdir
      exact hleft
    · obtain ⟨evs', ht, -, heq⟩ := send_cached (s := ofSocket w) io p.pos (Or.inr hq)
      rw [heq] at h
      cases h
      rw [ht, List.append_nil, show inside u t (.check p) io = _ from if_pos hq]
      have hleft : Left ({ u.record p.mem.data with
          lkSending := none, qSendCache := cacheData u.qSendCache p.mem } : Socket τ) t
          { ofSocket w with qSendCache := cacheData (ofSocket w).qSendCache p.mem } w.kernel := by
        unfold Socket.record
        split_ifs <;> exact ⟨rfl, rfl, rfl, hupc, nofun, hidle.aborted⟩
      exact hleft.more io 3

end SmartNet.Network.Rup.SendAlone

import Mathlib.Logic.Function.Basic
import SmartNet.Lib.Run
import SmartNet.Network.Rup.SendQueue

/-! # The order of what a `CRupSock` sends

Any number of threads call `send` and `handle_can_send` on one socket. A thread that does not hold
`m_lkSending` is at a point `Outside`, the one that holds it at a point `Inside`; a step of a thread
is an attempt on the lock, a critical section under `m_lkSendQ`, one `::send`, or the release of the
lock. `accepted` are the payloads that were queued or whose direct `::send` was started, in this
order; a direct `::send` of which the kernel takes nothing is left out.

* `OrderInv`: what the kernel took and what is unsent are the payloads in this order;
* `sent_in_order`: this holds in runs in which no direct `::send` takes bytes while `m_qSending` has
  some;
* `overtaken`: a run in which one does. -/

namespace SmartNet.Network.Rup.SendOrder

open SmartNet.Common SmartNet.Lib.Run SmartNet.Memory.MemBlock SmartNet.Network.Rup.SendQueue

/-- Where a thread is that does not hold `m_lkSending`: in no call, before the `try_lock` of `send`,
before the critical section after a failed `try_lock`, or before the lock of `handle_can_send`. -/
inductive Outside
  | idle
  | tryLock (pData : Payload)
  | queue (pData : Payload)
  | lock

/-- Where the thread is that holds `m_lkSending`: in `send`, before the critical section that looks
at the cache, before `::send`, or before the critical section that stores the rest; before the
release of the lock; in `handle_can_send`, before the critical section that swaps the queues, or
before `::send`. -/
inductive Inside
  | check (pData : Payload)
  | direct (pData : Payload)
  | pushFront (pData : CMemBlock)
  | unlock
  | swap
  | flush

inductive Act
  | send (pData : Payload)
  | handleCanSend
  | go (io : SendIo)

structure Socket (τ : Type) where
  qSendCache : List CMemBlock
  qSending : List CMemBlock
  lkSending : Option (τ × Inside)
  pc : τ → Outside
  aborted : Bool
  kernel : List UInt8
  accepted : List (List UInt8)
  since : List (List UInt8)

variable {τ : Type}

/-- A fresh socket. -/
def init : Socket τ := ⟨[], [], none, fun _ => .idle, false, [], [], []⟩

/-- A direct `::send` has been started, that is, decided on, and not been made yet. -/
def Socket.started (w : Socket τ) : Bool :=
  match w.lkSending with
  | some (_, .direct _) => true
  | _ => false

/-- The payload `d` was queued: it follows the one whose direct `::send` was started. -/
def Socket.record (w : Socket τ) (d : List UInt8) : Socket τ :=
  if w.started then { w with since := w.since ++ [d] } else { w with accepted := w.accepted ++ [d] }

/-- A `::send` of the thread that holds the lock, on the block `pData`: the number of bytes the
kernel takes. -/
def SendIo.takes (pData : CMemBlock) : SendIo → Option ℕ
  | .took n => some (min n pData.len)
  | _ => none

/-- A step of the thread `t` that holds `m_lkSending`. -/
def inside (w : Socket τ) (t : τ) : Inside → SendIo → Socket τ
  | .check p, _ =>
    if w.qSendCache ≠ [] then
      { w.record p.mem.data with
        lkSending := none
        qSendCache := cacheData w.qSendCache p.mem }
    else { w with lkSending := some (t, .direct p) }
  | .direct p, io =>
    match SendIo.takes p.mem io with
    | none =>
      { w with lkSending := some (t, .unlock), accepted := w.accepted ++ w.since, since := [] }
    | some k =>
      if k = 0 then { w with aborted := true }
      else { w with
        lkSending := some (t, if k < p.mem.len then .pushFront (p.mem.decHeadData k) else .unlock)
        kernel := w.kernel ++ p.mem.data.take k
        accepted := w.accepted ++ (p.mem.data :: w.since)
        since := [] }
  | .pushFront b, _ => { w with qSendCache := b :: w.qSendCache, lkSending := some (t, .unlock) }
  | .unlock, _ => { w with lkSending := none }
  | .swap, _ =>
    if w.qSending = [] then
      { w with qSending := w.qSendCache, qSendCache := w.qSending, lkSending := some (t, .flush) }
    else { w with lkSending := some (t, .flush) }
  | .flush, io =>
    match w.qSending with
    | [] => { w with lkSending := some (t, .unlock) }
    | b :: q =>
      match SendIo.takes b io with
      | none => if io = .intr then w else { w with lkSending := some (t, .unlock) }
      | some k =>
        if k = 0 then { w with aborted := true }
        else if k < b.len then
          { w with
            kernel := w.kernel ++ b.data.take k
            qSending := b.decHeadData k :: q
            lkSending := some (t, .unlock) }
        else
          { w with
            kernel := w.kernel ++ b.data.take k
            qSending := q
            lkSending := some (t, if q = [] then .swap else .flush) }

/-- A step of a thread `t` that does not hold `m_lkSending`. -/
def outside [DecidableEq τ] (w : Socket τ) (t : τ) : Outside → Act → Socket τ
  | .idle, .send p => { w with pc := Function.update w.pc t (.tryLock p) }
  | .idle, .handleCanSend => { w with pc := Function.update w.pc t .lock }
  | .tryLock p, .go _ =>
    if w.lkSending.isNone then
      { w with lkSending := some (t, .check p), pc := Function.update w.pc t .idle }
    else { w with pc := Function.update w.pc t (.queue p) }
  | .queue p, .go _ =>
    { w.record p.mem.data with
      qSendCache := cacheData w.qSendCache p.mem
      pc := Function.update w.pc t .idle }
  | .lock, .go _ =>
    if w.lkSending.isNone then
      { w with lkSending := some (t, .swap), pc := Function.update w.pc t .idle }
    else w
  | _, _ => w

/-- A step of thread `t`; a failed assert ends the process. -/
def step [DecidableEq τ] (w : Socket τ) : τ × Act → Socket τ
  | (t, a) =>
    if w.aborted then w
    else
      match w.lkSending with
      | some (u, i) =>
        if u = t then
          match a with
          | .go io => inside w t i io
          | _ => w
        else outside w t (w.pc t) a
      | none => outside w t (w.pc t) a

/-- The rest of a payload of which the kernel took the first bytes, before it is stored in the
cache. -/
def Socket.rest (w : Socket τ) : List UInt8 :=
  match w.lkSending with
  | some (_, .pushFront b) => b.data
  | _ => []

/-- The payloads that were not refused, in the order in which they were queued or their direct
`::send` was started. -/
def Socket.order (w : Socket τ) : List (List UInt8) := w.accepted ++ w.since

/-- Bytes taken and not taken, in the order in which they leave. -/
def InOrder (w : Socket τ) : Prop :=
  w.kernel ++ w.rest ++ bytes w.qSending ++ bytes w.qSendCache = w.order.flatten

/-- A direct `::send` that takes bytes is made with an empty `m_qSending`. -/
def Flushed (w : Socket τ) : τ × Act → Prop
  | (t, .go (.took _)) => ∀ p, w.lkSending = some (t, .direct p) → w.qSending = []
  | _ => True

/-- The invariant of the two queues. -/
structure OrderInv (w : Socket τ) : Prop where
  inOrder : InOrder w
  cacheFit : AllFit w.qSendCache
  sendingFit : AllFit w.qSending
  pushing : ∀ t b, w.lkSending = some (t, .pushFront b) → b.Fits ∧ w.qSending = []
  notStarted : w.started = false → w.since = []
  started : w.started = true → bytes w.qSendCache = w.since.flatten

theorem orderInv_init : OrderInv (init : Socket τ) :=
  ⟨rfl, fun _ h => absurd h List.not_mem_nil, fun _ h => absurd h List.not_mem_nil, nofun,
    fun _ => rfl, fun _ => rfl⟩

/-! ### One step -/

variable {w : Socket τ} {t : τ}

/-- Queueing a payload: its bytes come last in the cache and it comes last in the order. -/
theorem OrderInv.queue (h : OrderInv w) (p : Payload) (lk : Option (τ × Inside)) (pc : τ → Outside)
    (hlk : lk = w.lkSending ∨ lk = none ∧ w.started = false ∧ w.rest = []) :
    OrderInv { w.record p.mem.data with
      lkSending := lk, qSendCache := cacheData w.qSendCache p.mem, pc := pc } := by
  obtain ⟨hfit, hbytes⟩ := bytes_cacheData p.fits h.cacheFit
  have hin := h.inOrder
  unfold InOrder at hin
  by_cases hst : w.started = true
  · -- a direct `::send` has been started: its thread still holds the lock, and the payload comes
    -- after it
    have hlk' : lk = w.lkSending := by
      rcases hlk with hlk | ⟨-, hno, -⟩
      · exact hlk
      · rw [hst] at hno; cases hno
    subst hlk'
    rw [Socket.record, if_pos hst]
    refine ⟨?_, hfit, h.sendingFit, h.pushing, fun hno => ?_, fun _ => ?_⟩
    · show w.kernel ++ w.rest ++ bytes w.qSending ++ bytes (cacheData w.qSendCache p.mem) =
        (w.accepted ++ (w.since ++ [p.mem.data])).flatten
      rw [hbytes, ← List.append_assoc, hin, ← List.append_assoc, List.flatten_append]
      simp [Socket.order]
    · exact absurd hst (by rw [show w.started = false from hno]; decide)
    · show bytes (cacheData w.qSendCache p.mem) = (w.since ++ [p.mem.data]).flatten
      rw [hbytes, h.started hst]
      simp
  · have hno : w.started = false := by simpa using hst
    have hsince := h.notStarted hno
    rw [Socket.record, if_neg hst]
    have hrest : ∀ v : Socket τ, v.lkSending = lk → v.rest = w.rest := by
      intro v hv
      rcases hlk with hlk | ⟨hlk, -, hr⟩
      · unfold Socket.rest; rw [hv, hlk]
      · rw [hr]; unfold Socket.rest; rw [hv, hlk]
    have hstd : ∀ v : Socket τ, v.lkSending = lk → v.started = false := by
      intro v hv
      rcases hlk with hlk | ⟨hlk, -, -⟩
      · rw [← hno]; unfold Socket.started; rw [hv, hlk]
      · unfold Socket.started; rw [hv, hlk]
    refine ⟨?_, hfit, h.sendingFit, fun u b hb => ?_, fun _ => hsince, fun hs => ?_⟩
    · unfold InOrder
      rw [hrest _ rfl]
      show w.kernel ++ w.rest ++ bytes w.qSending ++ bytes (cacheData w.qSendCache p.mem) =
        (w.accepted ++ [p.mem.data] ++ w.since).flatten
      rw [hbytes, ← List.append_assoc, hin, Socket.order, hsince]
      simp
    · rcases hlk with hlk | ⟨hlk, -, -⟩
      · exact h.pushing u b (hlk ▸ hb)
      · rw [show lk = some (u, .pushFront b) from hb] at hlk; cases hlk
    · rw [hstd _ rfl] at hs; cases hs

/-- The thread that holds the lock, if there is one, has no payload of its own in hand. -/
def Free : Option (τ × Inside) → Prop
  | none | some (_, .unlock) | some (_, .swap) | some (_, .flush) => True
  | _ => False

theorem of_free : ∀ {v : Socket τ}, Free v.lkSending →
    v.rest = [] ∧ v.started = false ∧ ∀ u b, v.lkSending ≠ some (u, .pushFront b)
  | ⟨_, _, none, _, _, _, _, _⟩, _ => ⟨rfl, rfl, nofun⟩
  | ⟨_, _, some (_, .unlock), _, _, _, _, _⟩, _ => ⟨rfl, rfl, nofun⟩
  | ⟨_, _, some (_, .swap), _, _, _, _, _⟩, _ => ⟨rfl, rfl, nofun⟩
  | ⟨_, _, some (_, .flush), _, _, _, _, _⟩, _ => ⟨rfl, rfl, nofun⟩

/-- A flush: the kernel takes `pre` from the front of `m_qSending`, which leaves `q`. -/
theorem OrderInv.flush (h : OrderInv w) (hw : Free w.lkSending) {pre : List UInt8}
    {q : List CMemBlock} (hpre : pre ++ bytes q = bytes w.qSending) (hfit : AllFit q)
    {lk : Option (τ × Inside)} (hlk : Free lk) :
    OrderInv { w with kernel := w.kernel ++ pre, qSending := q, lkSending := lk } := by
  have hin := h.inOrder
  obtain ⟨hrest, hno, -⟩ := of_free hw
  set v : Socket τ := { w with kernel := w.kernel ++ pre, qSending := q, lkSending := lk } with hv
  obtain ⟨hrest', hno', hpush⟩ := of_free (v := v) hlk
  refine ⟨?_, h.cacheFit, hfit, fun u b hb => absurd hb (hpush u b), fun _ => h.notStarted hno,
    fun hs => ?_⟩
  · unfold InOrder at hin ⊢
    rw [hrest, ← hpre] at hin
    rw [hrest']
    show (w.kernel ++ pre) ++ [] ++ bytes q ++ bytes w.qSendCache = w.order.flatten
    rw [← hin]
    simp
  · rw [hno'] at hs; cases hs

theorem OrderInv.move (h : OrderInv w) (hw : Free w.lkSending) {lk : Option (τ × Inside)}
    (hlk : Free lk) :
    OrderInv { w with lkSending := lk } := by
  have hv := h.flush hw (List.nil_append _) h.sendingFit hlk
  rwa [List.append_nil] at hv

theorem OrderInv.direct (h : OrderInv w) {p : Payload} (hl : w.lkSending = some (t, .direct p))
    {io : SendIo}
    (hc : Flushed w (t, .go io)) : OrderInv (inside w t (.direct p) io) := by
  have hst : w.started = true := by unfold Socket.started; rw [hl]
  have hrest : w.rest = [] := by unfold Socket.rest; rw [hl]
  have hcache := h.started hst
  have hin := h.inOrder
  unfold InOrder at hin
  rw [hrest] at hin
  rcases io with n | - | - | -
  case took =>
    have hsend : w.qSending = [] := hc p hl
    have hkernel : w.kernel = w.accepted.flatten := by
      rw [hsend, hcache, Socket.order, List.flatten_append] at hin
      simpa using hin
    unfold inside
    simp only [SendIo.takes]
    split_ifs with h0 hk
    · exact ⟨h.inOrder, h.cacheFit, h.sendingFit, h.pushing, h.notStarted, h.started⟩
    · -- the kernel took a part: the rest is stored in front of what was queued in the meantime
      obtain ⟨hfit, hpart⟩ := decHead_part p.fits (Nat.min_le_right n p.mem.len)
      refine ⟨?_, h.cacheFit, h.sendingFit, fun u b hb => ?_, fun _ => rfl, nofun⟩
      · show (w.kernel ++ p.mem.data.take (min n p.mem.len)) ++
          (p.mem.decHeadData (min n p.mem.len)).data ++
          bytes w.qSending ++ bytes w.qSendCache =
            (w.accepted ++ (p.mem.data :: w.since) ++ []).flatten
        rw [List.append_assoc w.kernel, hpart, hkernel, hsend, hcache]
        simp
      · obtain ⟨-, hb⟩ := Prod.mk.inj (Option.some.inj hb)
        cases hb
        exact ⟨hfit, hsend⟩
    · refine ⟨?_, h.cacheFit, h.sendingFit, nofun, fun _ => rfl, nofun⟩
      have hall : p.mem.data.take (min n p.mem.len) = p.mem.data :=
        List.take_of_length_le (by rw [CMemBlock.length_data]; omega)
      show (w.kernel ++ p.mem.data.take (min n p.mem.len)) ++ [] ++ bytes w.qSending ++
        bytes w.qSendCache =
        (w.accepted ++ (p.mem.data :: w.since) ++ []).flatten
      rw [hall, hkernel, hsend, hcache]
      simp
  all_goals
    refine ⟨?_, h.cacheFit, h.sendingFit, nofun, fun _ => rfl, nofun⟩
    show w.kernel ++ [] ++ bytes w.qSending ++ bytes w.qSendCache =
      (w.accepted ++ w.since ++ []).flatten
    rw [List.append_nil (w.accepted ++ w.since)]
    exact hin

theorem OrderInv.inside (h : OrderInv w) {i : Inside} {io : SendIo} (hl : w.lkSending = some (t, i))
    (hc : Flushed w (t, .go io)) : OrderInv (inside w t i io) := by
  have hin := h.inOrder
  unfold InOrder at hin
  rcases i with p | p | b | - | - | -
  case check =>
    have hno : w.started = false := by unfold Socket.started; rw [hl]
    have hrest : w.rest = [] := by unfold Socket.rest; rw [hl]
    have hsince := h.notStarted hno
    unfold SendOrder.inside
    dsimp only
    split_ifs with hq
    · exact h.queue p none (w.record p.mem.data).pc (Or.inr ⟨rfl, hno, hrest⟩)
    · have hnil := not_not.mp hq
      rw [hrest] at hin
      refine ⟨hin, h.cacheFit, h.sendingFit, nofun, nofun, fun _ => ?_⟩
      show bytes w.qSendCache = w.since.flatten
      rw [hnil, hsince]; rfl
  case direct => exact h.direct hl hc
  case pushFront =>
    obtain ⟨hfit, hsend⟩ := h.pushing t b hl
    have hno : w.started = false := by unfold Socket.started; rw [hl]
    have hrest : w.rest = b.data := by unfold Socket.rest; rw [hl]
    refine ⟨?_, allFit_cons.mpr ⟨hfit, h.cacheFit⟩, h.sendingFit, nofun,
      fun _ => h.notStarted hno, nofun⟩
    show w.kernel ++ [] ++ bytes w.qSending ++ bytes (b :: w.qSendCache) = w.order.flatten
    rw [hrest, hsend] at hin
    rw [← hin, hsend]
    simp
  all_goals
    have hw : Free w.lkSending := by rw [hl]; trivial
  case unlock => exact h.move hw trivial
  case swap =>
    unfold SendOrder.inside
    dsimp only
    split_ifs with hq
    · obtain ⟨hrest, hno, -⟩ := of_free hw
      refine ⟨?_, h.sendingFit, h.cacheFit, nofun, fun _ => h.notStarted hno, nofun⟩
      show w.kernel ++ [] ++ bytes w.qSendCache ++ bytes w.qSending = w.order.flatten
      rw [hrest, hq] at hin
      rw [← hin, hq]
      simp
    · exact h.move hw trivial
  case flush =>
    have hend : OrderInv { w with lkSending := some (t, .unlock) } := h.move hw trivial
    unfold SendOrder.inside
    dsimp only
    split
    · exact hend
    · rename_i b q hq
      obtain ⟨hb, hfit⟩ := allFit_cons.mp (hq ▸ h.sendingFit)
      have hlen : b.data.length = b.len := CMemBlock.length_data b
      rcases io with n | - | - | -
      case took =>
        simp only [SendIo.takes]
        split_ifs with h0 hk
        · exact ⟨h.inOrder, h.cacheFit, h.sendingFit, h.pushing, h.notStarted, h.started⟩
        · obtain ⟨hfit', hpart⟩ := decHead_part hb (Nat.min_le_right n b.len)
          refine h.flush hw ?_ (allFit_cons.mpr ⟨hfit', hfit⟩) trivial
          rw [hq, bytes_cons, bytes_cons, ← List.append_assoc, hpart]
        all_goals
          refine h.flush hw ?_ hfit trivial
          rw [hq, bytes_cons, List.take_of_length_le (by omega)]
      case intr => exact h
      all_goals exact hend

theorem OrderInv.outside [DecidableEq τ] (h : OrderInv w) (o : Outside) (a : Act) :
    OrderInv (outside w t o a) := by
  have hpc : ∀ pc : τ → Outside, OrderInv { w with pc := pc } := fun pc =>
    ⟨h.inOrder, h.cacheFit, h.sendingFit, h.pushing, h.notStarted, h.started⟩
  have hlock : ∀ {lk : Option (τ × Inside)} {pc : τ → Outside}, w.lkSending = none →
      (Free lk ∨ ∃ u p, lk = some (u, .check p)) →
        OrderInv { w with lkSending := lk, pc := pc } := by
    intro lk pc hnone hlk
    have hin := h.inOrder
    unfold InOrder at hin
    have hw : Free w.lkSending := by rw [hnone]; trivial
    obtain ⟨hrest, hno, -⟩ := of_free hw
    rw [hrest] at hin
    set v : Socket τ := { w with lkSending := lk, pc := pc } with hv
    have hfree : v.rest = [] ∧ v.started = false ∧ ∀ u b, v.lkSending ≠ some (u, .pushFront b) := by
      rcases hlk with hlk | ⟨u, p, rfl⟩
      · exact of_free (v := v) hlk
      · exact ⟨rfl, rfl, nofun⟩
    refine ⟨?_, h.cacheFit, h.sendingFit, fun u b hb => absurd hb (hfree.2.2 u b),
      fun _ => h.notStarted hno,
      fun hs => ?_⟩
    · unfold InOrder
      rw [hfree.1]
      exact hin
    · rw [hfree.2.1] at hs; cases hs
  rcases o with - | p | p | -
  case idle =>
    rcases a with p | - | io
    · exact hpc _
    · exact hpc _
    · exact h
  case tryLock =>
    rcases a with _ | _ | io
    case go =>
      unfold SendOrder.outside
      dsimp only
      split_ifs with hnone
      · exact hlock (Option.isNone_iff_eq_none.mp hnone) (Or.inr ⟨t, p, rfl⟩)
      · exact hpc _
    all_goals exact h
  case queue =>
    rcases a with _ | _ | io
    case go =>
      have hlk : (w.record p.mem.data).lkSending = w.lkSending := by
        unfold Socket.record; split_ifs <;> rfl
      exact h.queue p _ _ (Or.inl hlk)
    all_goals exact h
  case lock =>
    rcases a with _ | _ | io
    case go =>
      unfold SendOrder.outside
      dsimp only
      split_ifs with hnone
      · exact hlock (Option.isNone_iff_eq_none.mp hnone) (Or.inl trivial)
      · exact h
    all_goals exact h

/-- **One step** of any thread keeps the invariant. -/
theorem OrderInv.step [DecidableEq τ] (h : OrderInv w) {x : τ × Act} (hc : Flushed w x) :
    OrderInv (step w x) := by
  obtain ⟨t, a⟩ := x
  unfold SendOrder.step
  dsimp only
  split_ifs
  · exact h
  · split
    · rename_i u i hl
      split_ifs with hu
      · subst hu
        rcases a with _ | _ | io
        · exact h
        · exact h
        · exact h.inside hl hc
      · exact h.outside _ _
    · exact h.outside _ _

/-- **The order of what leaves.** In every run in which no direct `::send` takes bytes while
`m_qSending` has some, what the kernel took, what is left of a payload it took in part, and the
unsent bytes of the two queues are the payloads in the order in which they were queued or their
direct `::send` was started; so nothing of a payload leaves before the payloads that come before it
have left whole. -/
theorem sent_in_order [DecidableEq τ] (xs : List (τ × Act)) (hc : Meets step Flushed init xs) :
    InOrder (run step (init : Socket τ) xs) ∧
      (run step (init : Socket τ) xs).kernel <+: (run step (init : Socket τ) xs).order.flatten := by
  have h : OrderInv (run step (init : Socket τ) xs) :=
    (run_inv_meets (I := OrderInv) (C := Flushed) (B := fun _ => True) (D := fun _ _ => True)
      (fun _ _ _ => trivial)
      (fun _ _ h hc _ => ⟨OrderInv.step h hc, trivial⟩) orderInv_init hc trivial).1
  refine ⟨h.inOrder, ?_⟩
  rw [← show _ = _ from h.inOrder, List.append_assoc, List.append_assoc]
  exact List.prefix_append _ _

/-! ### Two payloads -/

private def ab : Payload := ⟨.ofBytes [97, 98], show 0 + 2 ≤ maxMemSize by decide, by decide⟩

private def c : Payload := ⟨.ofBytes [99], show 0 + 1 ≤ maxMemSize by decide, by decide⟩

/-- One thread sends `ab`, of which the kernel takes `a`; another starts to flush the rest, and the
kernel is full. -/
private def flushStarted : List (Bool × Act) :=
  [(false, .send ab), (false, .go .wouldBlock), (false, .go .wouldBlock), (false, .go (.took 1)),
    (false, .go .wouldBlock), (false, .go .wouldBlock), (true, .handleCanSend),
    (true, .go .wouldBlock), (true, .go .wouldBlock), (true, .go .wouldBlock),
    (true, .go .wouldBlock)]

/-- Then the first sends `c`. -/
private def thenDirect : List (Bool × Act) :=
  [(false, .send c), (false, .go .wouldBlock), (false, .go .wouldBlock), (false, .go (.took 1)),
    (false, .go .wouldBlock)]

/-- Then the other flushes the rest first. -/
private def thenFlush : List (Bool × Act) :=
  [(true, .handleCanSend), (true, .go .wouldBlock), (true, .go .wouldBlock), (true, .go (.took 1)),
    (true, .go .wouldBlock), (true, .go .wouldBlock), (true, .go .wouldBlock)]

theorem sent_in_order_flushed :
    let w := run step (init : Socket Bool) (flushStarted ++ thenFlush ++ thenDirect)
    w.kernel = [97, 98, 99] ∧ InOrder w ∧ w.kernel <+: w.order.flatten := by
  refine ⟨by decide, sent_in_order (flushStarted ++ thenFlush ++ thenDirect) ?_⟩
  simp only [flushStarted, thenFlush, thenDirect, List.cons_append, List.nil_append, meets_cons]
  refine ⟨trivial, trivial, trivial, fun _ _ => rfl, trivial, trivial, trivial, trivial, trivial,
    trivial, trivial,
    trivial, trivial, trivial, ?_, trivial, trivial, trivial, trivial, trivial, trivial,
      fun _ _ => rfl, trivial,
    trivial⟩
  intro _ h
  cases h

/-- **A direct `::send` overtakes what a flush left**: the cache is empty, `m_qSending` is not. -/
theorem overtaken :
    let w := run step (init : Socket Bool) (flushStarted ++ thenDirect)
    w.rest = [] ∧ w.order = [[97, 98], [99]] ∧ w.kernel = [97, 99] ∧
      w.kernel ++ bytes w.qSending ++ bytes w.qSendCache ≠ w.order.flatten := by
  decide

end SmartNet.Network.Rup.SendOrder

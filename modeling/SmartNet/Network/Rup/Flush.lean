import SmartNet.Network.Rup.SendQueue

/-! # `CRupSock::handle_can_send`, plain and gathering

`handle_can_send` is compiled in one of two ways: it hands the blocks of `m_qSending` to `::send`
one by one, or up to `__MAX_IO_VEC_CNT__` of them at once to `::sendmsg`. Both go on with the cache
when `m_qSending` is empty, and stop when the kernel takes less than it is offered.

* `chunks`: a kernel that takes the bytes it is offered in the given portions, and then blocks;
* `plain_result`, `gather_result`: what is left of the queues;
* `agree_iff`: the two versions agree unless `::sendmsg` takes a whole batch that is not the whole
  queue, or takes less and the plain version can go on. -/

namespace SmartNet.Network.Rup.Flush

open SmartNet.Common SmartNet.Memory.MemBlock SmartNet.Network.Rup.SendQueue

/-- `__MAX_IO_VEC_CNT__`. -/
def maxIoVecCnt : ℕ := 10

/-- How a `::send` or `::sendmsg` of so many bytes ends, and the kernel after it. -/
abbrev Kernel (κ : Type) := κ → ℕ → SendIo × κ

/-- The returned `i32Ret`: a code, or the number of bytes the last call took. -/
inductive Ret
  | code (c : Cmnerr)
  | count (n : ℕ)
  deriving DecidableEq, Repr

/-- The queues, the kernel, and the bytes it has taken. -/
structure Sock (κ : Type) where
  qSendCache : List CMemBlock
  qSending : List CMemBlock
  kernel : κ
  taken : List UInt8

variable {κ : Type}

/-- `m_qSending.swap(m_qSendCache)`, if `m_qSending` is empty. -/
def swapIfEmpty (s : Sock κ) : Sock κ :=
  if s.qSending = [] then { s with qSending := s.qSendCache, qSendCache := s.qSending } else s

/-- How a pass of the loop ends: with the next one, with `break`, or with a failed assert. -/
inductive Pass (κ : Type)
  | next (ret : Ret) (s : Sock κ)
  | stop (ret : Ret) (s : Sock κ)
  | abort

/-- The part of a pass that both versions share: a system call on the first bytes of the queue,
`offered` in all. -/
def pass (kern : Kernel κ) (s : Sock κ) (offered : List UInt8) (ret : Ret)
    (partly : ℕ → List CMemBlock) (rest : List CMemBlock) : Pass κ :=
  let (io, k) := kern s.kernel offered.length
  match io with
  | .wouldBlock => .stop (.code .sendPending) { s with kernel := k }
  | .intr => .next ret { s with kernel := k }
  | .err => .stop (.code .ioErr) { s with kernel := k }
  | .took n =>
    let n := min n offered.length
    let s := { s with kernel := k, taken := s.taken ++ offered.take n }
    if n = 0 then .abort
    else if n < offered.length then .stop (.code .sendPending) { s with qSending := partly n }
    else .next (.count n) (swapIfEmpty { s with qSending := rest })

/-- A pass over the queue `pData :: q` with `__USING_OLD_IO_METHOD__`. -/
def plainPass (kern : Kernel κ) (s : Sock κ) (pData : CMemBlock) (q : List CMemBlock) (ret : Ret) :
    Pass κ :=
  pass kern s pData.data ret (fun n => pData.decHeadData n :: q) q

/-- The loop over the vector after a `::sendmsg` that took `n` bytes of the first `i` blocks, fewer
than these have. -/
def consume : ℕ → ℕ → List CMemBlock → List CMemBlock
  | i + 1, n, b :: q =>
    if n = 0 then b :: q
    else if n < b.len then b.decHeadData n :: q
    else consume i (n - b.len) q
  | _, _, q => q

/-- A pass over the queue `pData :: q` without `__USING_OLD_IO_METHOD__`. -/
def gatherPass (kern : Kernel κ) (s : Sock κ) (pData : CMemBlock) (q : List CMemBlock) (ret : Ret) :
    Pass κ :=
  let iov := (pData :: q).take maxIoVecCnt
  pass kern s (bytes iov) ret (fun n => consume iov.length n (pData :: q)) []

/-- The loop, for at most so many passes; `none` within the option is a failed assert. -/
def loop (body : Sock κ → CMemBlock → List CMemBlock → Ret → Pass κ) :
    ℕ → Ret → Sock κ → Option (Option (Ret × Sock κ))
  | 0, _, _ => none
  | n + 1, ret, s =>
    match s.qSending with
    | [] => some (some (ret, s))
    | b :: q =>
      match body s b q ret with
      | .next ret s => loop body n ret s
      | .stop ret s => some (some (ret, s))
      | .abort => some none

/-- `handle_can_send`, with the loop body of one of the two versions. -/
def handleCanSend (body : Sock κ → CMemBlock → List CMemBlock → Ret → Pass κ) (n : ℕ) (s : Sock κ) :
    Option (Option (Ret × Sock κ)) :=
  loop body n (.code .suc) (swapIfEmpty s)

/-- A kernel that takes the bytes it is offered in portions of these sizes, and then blocks. -/
def chunks : Kernel (List ℕ)
  | [], _ => (.wouldBlock, [])
  | c :: cs, offered => (.took c, if offered < c then (c - offered) :: cs else cs)

/-- The blocks are well formed, and none is empty. -/
def Full (q : List CMemBlock) : Prop := ∀ b ∈ q, b.Fits ∧ 0 < b.len

/-- The portions left when the kernel has taken `n` bytes of the first one. -/
def left (n : ℕ) : List ℕ → List ℕ
  | [] => []
  | c :: cs => if n < c then (c - n) :: cs else cs

/-- The number of bytes the plain version sends of the blocks of both queues. -/
def plainTakes : List ℕ → List CMemBlock → ℕ
  | [], _ => 0
  | _ :: _, [] => 0
  | c :: cs, b :: q =>
    if c < b.len then c else b.len + plainTakes (left b.len (c :: cs)) q

/-- After `c` bytes a block ends. -/
def Boundary (c : ℕ) (q : List CMemBlock) : Prop := ∃ i, c = (bytes (q.take i)).length

/-- The bytes of the first batch of the queue. -/
def batch (q : List CMemBlock) : List UInt8 := bytes (q.take maxIoVecCnt)

/-- The gathering flush of the queue goes as the plain one: the kernel takes less than a batch at
first, and then nothing or in the middle of a block; or the batch is the whole queue. -/
def Gathers : List ℕ → List CMemBlock → Prop
  | [], _ => True
  | c :: cs, q =>
    if c < (batch q).length then cs = [] ∨ ¬ Boundary c q else q.length ≤ maxIoVecCnt

/-- The two versions have sent the same bytes, and left the same in each queue. -/
structure Agree (s t : Sock κ) : Prop where
  taken : s.taken = t.taken
  qSending : bytes s.qSending = bytes t.qSending
  qSendCache : bytes s.qSendCache = bytes t.qSendCache

/-! ### The queues and the portions -/

variable {s s' : Sock (List ℕ)} {q r : List CMemBlock} {b : CMemBlock} {cs : List ℕ} {c n : ℕ}

theorem full_cons : Full (b :: q) ↔ (b.Fits ∧ 0 < b.len) ∧ Full q := List.forall_mem_cons

theorem bytes_append (q r : List CMemBlock) : bytes (q ++ r) = bytes q ++ bytes r :=
  List.flatMap_append

theorem length_bytes_cons (b : CMemBlock) (q : List CMemBlock) :
    (bytes (b :: q)).length = b.len + (bytes q).length := by
  rw [bytes_cons, List.length_append, CMemBlock.length_data]

theorem Full.length_pos (h : Full q) (hq : q ≠ []) : 0 < (bytes q).length := by
  rcases q with - | ⟨b, q⟩
  · exact absurd rfl hq
  · obtain ⟨⟨-, hb⟩, -⟩ := full_cons.mp h
    rw [length_bytes_cons]
    omega

theorem batch_append_drop (q : List CMemBlock) :
    bytes q = batch q ++ bytes (q.drop maxIoVecCnt) := by
  rw [batch, ← bytes_append, List.take_append_drop]

theorem batch_eq (h : q.length ≤ maxIoVecCnt) : batch q = bytes q := by
  rw [batch, List.take_of_length_le h]

theorem length_batch_le (q : List CMemBlock) : (batch q).length ≤ (bytes q).length := by
  rw [batch_append_drop q, List.length_append]
  omega

theorem length_batch_lt (h : Full q) (hq : maxIoVecCnt < q.length) :
    (batch q).length < (bytes q).length := by
  have hrest : Full (q.drop maxIoVecCnt) := fun b hb => h b (List.mem_of_mem_drop hb)
  have hpos := hrest.length_pos (by
    intro hnil
    have hlen := congrArg List.length hnil
    rw [List.length_drop, List.length_nil] at hlen
    omega)
  rw [batch_append_drop q, List.length_append]
  omega

theorem length_batch_pos (h : Full q) (hq : q ≠ []) : 0 < (batch q).length := by
  rcases q with - | ⟨b, q⟩
  · exact absurd rfl hq
  · obtain ⟨⟨-, hb⟩, -⟩ := full_cons.mp h
    unfold batch maxIoVecCnt
    rw [List.take_succ_cons, length_bytes_cons]
    omega

theorem gathers_of_lt (h : c < (batch q).length) :
    Gathers (c :: cs) q ↔ cs = [] ∨ ¬ Boundary c q := iff_of_eq (if_pos h)

theorem gathers_of_le (h : (batch q).length ≤ c) :
    Gathers (c :: cs) q ↔ q.length ≤ maxIoVecCnt := iff_of_eq (if_neg (by omega))

theorem gathers_nil (cs : List ℕ) : Gathers cs [] := by
  rcases cs with - | ⟨c, cs⟩
  · trivial
  · exact (gathers_of_le (Nat.zero_le c)).mpr (Nat.zero_le _)

theorem left_pos (h : ∀ c ∈ cs, 0 < c) (n : ℕ) : ∀ c ∈ left n cs, 0 < c := by
  rcases cs with - | ⟨c, cs⟩
  · exact h
  · show ∀ d ∈ if n < c then (c - n) :: cs else cs, 0 < d
    split_ifs with hlt
    · intro d hd
      rcases List.mem_cons.mp hd with rfl | hd
      · omega
      · exact h d (List.mem_cons_of_mem _ hd)
    · exact fun d hd => h d (List.mem_cons_of_mem _ hd)

theorem swapIfEmpty_append (s : Sock κ) :
    (swapIfEmpty s).qSending ++ (swapIfEmpty s).qSendCache = s.qSending ++ s.qSendCache := by
  unfold swapIfEmpty
  split_ifs with h
  · rw [h]
    exact List.append_nil _
  · rfl

theorem swapIfEmpty_nil {s : Sock κ} (h : (swapIfEmpty s).qSending = []) :
    (swapIfEmpty s).qSendCache = [] := by
  unfold swapIfEmpty at h ⊢
  split_ifs at h ⊢ with hnil
  · exact hnil
  · exact absurd h hnil

theorem swapIfEmpty_full {s : Sock κ} (hs : Full s.qSending) (hq : Full s.qSendCache) :
    Full (swapIfEmpty s).qSending ∧ Full (swapIfEmpty s).qSendCache := by
  unfold swapIfEmpty
  split_ifs
  · exact ⟨hq, hs⟩
  · exact ⟨hs, hq⟩

theorem swapIfEmpty_kernel (s : Sock κ) : (swapIfEmpty s).kernel = s.kernel := by
  unfold swapIfEmpty
  split_ifs <;> rfl

/-! ### One pass -/

theorem pass_blocked (h : s.kernel = []) (o : List UInt8) (ret : Ret)
    (f : ℕ → List CMemBlock) (r : List CMemBlock) :
    pass chunks s o ret f r = .stop (.code .sendPending) s := by
  obtain ⟨sc, sq, k, t⟩ := s
  cases h
  rfl

theorem pass_part (h : s.kernel = c :: cs) (hc : 0 < c) {o : List UInt8} (hlt : c < o.length)
    (ret : Ret) (f : ℕ → List CMemBlock) (r : List CMemBlock) :
    pass chunks s o ret f r = .stop (.code .sendPending)
      { s with kernel := cs, taken := s.taken ++ o.take c, qSending := f c } := by
  unfold pass chunks
  rw [h]
  dsimp only
  rw [Nat.min_eq_left (by omega), if_neg (by omega), if_pos hlt, if_neg (by omega)]

theorem pass_whole (h : s.kernel = c :: cs) {o : List UInt8} (ho : 0 < o.length)
    (hle : o.length ≤ c) (ret : Ret) (f : ℕ → List CMemBlock) (r : List CMemBlock) :
    pass chunks s o ret f r = .next (.count o.length)
      (swapIfEmpty { s with
        kernel := left o.length s.kernel, taken := s.taken ++ o, qSending := r }) := by
  unfold pass chunks left
  rw [h]
  dsimp only
  rw [Nat.min_eq_right hle, if_neg (by omega), if_neg (by omega), List.take_length]

/-! ### The plain version -/

/-- The first `k` bytes of the two queues have been sent. -/
structure Sent (s : Sock (List ℕ)) (k : ℕ) (s' : Sock (List ℕ)) : Prop where
  taken : s'.taken = s.taken ++ (bytes s.qSending ++ bytes s.qSendCache).take k
  qSending : bytes s'.qSending =
    if k < (bytes s.qSending).length then (bytes s.qSending).drop k
    else (bytes s.qSendCache).drop (k - (bytes s.qSending).length)
  qSendCache : bytes s'.qSendCache =
    if k < (bytes s.qSending).length then bytes s.qSendCache else []

theorem Sent.of_stop {k : ℕ} (hk : k < (bytes s.qSending).length)
    (htaken : s'.taken = s.taken ++ (bytes s.qSending).take k)
    (hsending : bytes s'.qSending = (bytes s.qSending).drop k)
    (hcache : s'.qSendCache = s.qSendCache) : Sent s k s' := by
  refine ⟨?_, ?_, ?_⟩
  · rw [htaken, List.take_append_of_le_length hk.le]
  · rw [hsending, if_pos hk]
  · rw [hcache, if_pos hk]

theorem Sent.of_next {k : ℕ} {t : List ℕ} (hq : s.qSending = b :: q)
    (h : Sent (swapIfEmpty { s with kernel := t, taken := s.taken ++ b.data, qSending := q })
      k s') : Sent s (b.len + k) s' := by
  have hlen : (bytes s.qSending).length = b.len + (bytes q).length := by
    rw [hq, length_bytes_cons]
  have hb : b.data.length = b.len := CMemBlock.length_data b
  unfold swapIfEmpty at h
  dsimp only at h
  split_ifs at h with hnil
  · -- `m_qSending` is empty, and the cache takes its place
    subst hnil
    obtain ⟨h1, h2, h3⟩ := h
    dsimp only at h1 h2 h3
    rw [bytes_nil] at h1 h2 h3 hlen
    rw [List.length_nil] at hlen
    have hno : ¬ b.len + k < (bytes s.qSending).length := by omega
    refine ⟨?_, ?_, ?_⟩
    · rw [h1, hq, bytes_cons, bytes_nil, List.append_nil, List.append_nil, ← hb,
        List.take_length_add_append, List.append_assoc]
    · rw [h2, if_neg hno, hlen, show b.len + k - (b.len + 0) = k by omega]
      split_ifs with hk
      · rfl
      · rw [List.drop_nil, List.drop_eq_nil_of_le (by omega)]
    · rw [h3, if_neg hno, ite_self]
  · obtain ⟨h1, h2, h3⟩ := h
    dsimp only at h1 h2 h3
    have hiff : b.len + k < (bytes s.qSending).length ↔ k < (bytes q).length := by omega
    refine ⟨?_, ?_, ?_⟩
    · rw [h1, hq, bytes_cons, List.append_assoc, List.append_assoc, ← hb,
        List.take_length_add_append]
    · rw [h2, hlen]
      simp only [Nat.add_lt_add_iff_left]
      split_ifs
      · rw [hq, bytes_cons, ← hb, List.drop_length_add_append]
      · rw [Nat.add_sub_add_left]
    · rw [h3]
      simp only [hiff]

theorem plainTakes_lt {k : ℕ} (hk : k < b.len) (q : List CMemBlock) :
    plainTakes (k :: cs) (b :: q) = k := if_pos hk

theorem plainTakes_ge {k : ℕ} (hk : b.len ≤ k) (q : List CMemBlock) :
    plainTakes (k :: cs) (b :: q) = b.len + plainTakes (left b.len (k :: cs)) q :=
  if_neg (by omega)

/-- **The plain version** sends the blocks of both queues until the kernel takes less than a
block. -/
theorem plain_loop : ∀ {n : ℕ} {s : Sock (List ℕ)} (ret : Ret), (∀ c ∈ s.kernel, 0 < c) →
    Full s.qSending → Full s.qSendCache → (s.qSending = [] → s.qSendCache = []) →
    s.qSending.length + s.qSendCache.length < n →
    ∃ ret' s', loop (plainPass chunks) n ret s = some (some (ret', s')) ∧
      Sent s (plainTakes s.kernel (s.qSending ++ s.qSendCache)) s'
  | 0, _, _, _, _, _, _, h => by omega
  | n + 1, s, ret, hc, hs, hq, hnil, hn => by
    unfold loop
    rcases hsend : s.qSending with - | ⟨b, q⟩
    · refine ⟨ret, s, rfl, ?_⟩
      rw [hnil hsend]
      refine ⟨?_, ?_, ?_⟩
      · rw [hsend, hnil hsend]
        exact (List.append_nil _).symm.trans (congrArg _ List.take_nil.symm)
      · rw [hsend, hnil hsend]
        exact (if_neg (Nat.not_lt_zero _)).symm ▸ List.drop_nil.symm
      · rw [hsend, hnil hsend]
        exact (ite_self _).symm
    · rw [hsend] at hs hn
      obtain ⟨⟨hfit, hpos⟩, hs'⟩ := full_cons.mp hs
      have hlen : b.data.length = b.len := CMemBlock.length_data b
      have htotal : (bytes s.qSending).length = b.len + (bytes q).length := by
        rw [hsend, length_bytes_cons]
      dsimp only
      unfold plainPass
      rcases hk : s.kernel with - | ⟨k, cs⟩
      · rw [pass_blocked hk]
        refine ⟨_, s, rfl, Sent.of_stop (k := 0) (by omega) ?_ rfl rfl⟩
        rw [List.take_zero, List.append_nil]
      · have hkpos : 0 < k := hc k (hk ▸ List.mem_cons_self)
        rcases Nat.lt_or_ge k b.len with hlt | hge
        · rw [pass_part hk hkpos (by omega)]
          rw [List.cons_append, plainTakes_lt hlt]
          refine ⟨_, _, rfl, Sent.of_stop (k := k) (by omega) ?_ ?_ rfl⟩
          · rw [hsend, bytes_cons, List.take_append_of_le_length (by omega)]
          · show bytes (b.decHeadData k :: q) = _
            rw [hsend, bytes_cons, bytes_cons, CMemBlock.decHeadData_data hfit hlt.le,
              List.drop_append_of_le_length (by omega)]
        · rw [pass_whole hk (by omega) (by omega), hlen, hk, List.cons_append, plainTakes_ge hge]
          dsimp only
          set t : Sock (List ℕ) := { s with
            kernel := left b.len (k :: cs), taken := s.taken ++ b.data, qSending := q } with ht
          obtain ⟨hf1, hf2⟩ := swapIfEmpty_full (s := t) hs' hq
          have hk' : (swapIfEmpty t).kernel = left b.len (k :: cs) := swapIfEmpty_kernel t
          have hcount := congrArg List.length (swapIfEmpty_append t)
          rw [List.length_append, List.length_append] at hcount
          obtain ⟨ret', s', hloop, hsent⟩ := plain_loop (n := n) (s := swapIfEmpty t)
            (.count b.len) (by rw [hk', ← hk]; exact left_pos hc _) hf1 hf2 swapIfEmpty_nil (by
              rw [hcount]
              rw [List.length_cons] at hn
              show q.length + s.qSendCache.length < n
              omega)
          rw [hk', swapIfEmpty_append] at hsent
          exact ⟨ret', s', hloop, Sent.of_next hsend hsent⟩

/-! ### How many bytes the plain version sends -/

theorem plainTakes_nil (q : List CMemBlock) : plainTakes [] q = 0 := by
  rcases q with - | ⟨b, q⟩ <;> rfl

theorem plainTakes_le : ∀ (cs : List ℕ) (q : List CMemBlock), plainTakes cs q ≤ (bytes q).length
  | [], q => by rw [plainTakes_nil]; exact Nat.zero_le _
  | _ :: _, [] => Nat.zero_le _
  | c :: cs, b :: q => by
    rw [length_bytes_cons]
    rcases Nat.lt_or_ge c b.len with hlt | hge
    · rw [plainTakes_lt hlt]
      omega
    · rw [plainTakes_ge hge]
      have ih := plainTakes_le (left b.len (c :: cs)) q
      omega

theorem plainTakes_pos (hc : ∀ c ∈ cs, 0 < c) (hcs : cs ≠ []) (hq : Full q) (hne : q ≠ [])
    (r : List CMemBlock) : 0 < plainTakes cs (q ++ r) := by
  rcases cs with - | ⟨c, cs⟩
  · exact absurd rfl hcs
  rcases q with - | ⟨b, q⟩
  · exact absurd rfl hne
  obtain ⟨⟨-, hb⟩, -⟩ := full_cons.mp hq
  rw [List.cons_append]
  rcases Nat.lt_or_ge c b.len with hlt | hge
  · rw [plainTakes_lt hlt]
    exact hc c List.mem_cons_self
  · rw [plainTakes_ge hge]
    omega

theorem plainTakes_append : ∀ {q : List CMemBlock} {c : ℕ} (cs : List ℕ) (r : List CMemBlock),
    (∀ d ∈ c :: cs, 0 < d) → Full q → (bytes q).length ≤ c →
      plainTakes (c :: cs) (q ++ r) =
        (bytes q).length + plainTakes (left (bytes q).length (c :: cs)) r
  | [], c, cs, r, hc, _, _ => by
    have hpos := hc c List.mem_cons_self
    show plainTakes (c :: cs) r = 0 + plainTakes (if 0 < c then (c - 0) :: cs else cs) r
    rw [if_pos hpos, Nat.zero_add, Nat.sub_zero]
  | b :: q, c, cs, r, hc, hq, hle => by
    rw [length_bytes_cons] at hle ⊢
    obtain ⟨⟨-, hb⟩, hq'⟩ := full_cons.mp hq
    rw [List.cons_append, plainTakes_ge (by omega)]
    rcases Nat.lt_or_ge b.len c with hlt | hge
    · have hleft : left b.len (c :: cs) = (c - b.len) :: cs := if_pos hlt
      have hleft' : left (b.len + (bytes q).length) (c :: cs) =
          left (bytes q).length ((c - b.len) :: cs) := by
        show (if _ then _ else _) = if _ then _ else _
        simp only [Nat.lt_sub_iff_add_lt', Nat.sub_sub]
      have hc' := left_pos hc b.len
      rw [hleft] at hc' ⊢
      rw [hleft', plainTakes_append cs r hc' hq' (by omega), Nat.add_assoc]
    · have hnil : q = [] := by
        by_contra hne
        have := hq'.length_pos hne
        omega
      subst hnil
      show b.len + plainTakes _ r = b.len + 0 + plainTakes (left (b.len + 0) (c :: cs)) r
      rw [Nat.add_zero]

theorem boundary_cons {c : ℕ} (hc : b.len ≤ c) (hpos : 0 < b.len) :
    Boundary c (b :: q) ↔ Boundary (c - b.len) q := by
  constructor
  · rintro ⟨i, hi⟩
    rcases i with - | i
    · rw [List.take_zero, bytes_nil, List.length_nil] at hi
      omega
    · rw [List.take_succ_cons, length_bytes_cons] at hi
      exact ⟨i, by omega⟩
  · rintro ⟨i, hi⟩
    refine ⟨i + 1, ?_⟩
    rw [List.take_succ_cons, length_bytes_cons]
    omega

theorem not_boundary_cons {c : ℕ} (hc : c < b.len) (hpos : 0 < c) : ¬ Boundary c (b :: q) := by
  rintro ⟨i, hi⟩
  rcases i with - | i
  · rw [List.take_zero, bytes_nil, List.length_nil] at hi
    omega
  · rw [List.take_succ_cons, length_bytes_cons] at hi
    omega

/-- A portion that is smaller than a queue: the plain version stops there, or goes on if it ends
with a block. -/
theorem plainTakes_part : ∀ {q : List CMemBlock} {c : ℕ} (cs : List ℕ) (r : List CMemBlock),
    (∀ d ∈ c :: cs, 0 < d) → Full q → c < (bytes q).length →
      c ≤ plainTakes (c :: cs) (q ++ r) ∧
        (plainTakes (c :: cs) (q ++ r) = c ↔ cs = [] ∨ ¬ Boundary c q)
  | [], c, _, _, _, _, hlt => absurd hlt (Nat.not_lt_zero c)
  | b :: q, c, cs, r, hc, hq, hlt => by
    obtain ⟨⟨-, hb⟩, hq'⟩ := full_cons.mp hq
    have hpos := hc c List.mem_cons_self
    rw [length_bytes_cons] at hlt
    rw [List.cons_append]
    rcases Nat.lt_trichotomy c b.len with hcb | hcb | hcb
    · rw [plainTakes_lt hcb]
      exact ⟨Nat.le_refl _, iff_of_true rfl (Or.inr (not_boundary_cons hcb hpos))⟩
    · -- the portion ends with the first block, and the next one begins
      have hleft : left b.len (c :: cs) = cs := if_neg (by omega)
      have hne : q ≠ [] := by
        rintro rfl
        rw [bytes_nil, List.length_nil] at hlt
        omega
      have hbound : Boundary c (b :: q) := ⟨1, by
        rw [List.take_succ_cons, length_bytes_cons, List.take_zero, bytes_nil, List.length_nil]
        omega⟩
      rw [plainTakes_ge (by omega), hleft]
      refine ⟨by omega, ?_⟩
      rw [or_iff_left (not_not.mpr hbound)]
      constructor
      · intro h
        by_contra hcs
        have hmore := plainTakes_pos (fun d hd => hc d (List.mem_cons_of_mem _ hd)) hcs hq' hne r
        omega
      · rintro rfl
        rw [plainTakes_nil]
        omega
    · have hleft : left b.len (c :: cs) = (c - b.len) :: cs := if_pos hcb
      have hc' := left_pos hc b.len
      rw [hleft] at hc'
      obtain ⟨ih1, ih2⟩ := plainTakes_part (c := c - b.len) cs r hc' hq' (by omega)
      rw [plainTakes_ge (by omega), hleft, boundary_cons hcb.le hb, ← ih2]
      omega

/-! ### The gathering version -/

theorem bytes_consume : ∀ (i n : ℕ) {q : List CMemBlock}, Full q → n < (bytes (q.take i)).length →
    bytes (consume i n q) = (bytes q).drop n
  | 0, n, _, _, hn => absurd hn (Nat.not_lt_zero n)
  | i + 1, n, [], _, hn => absurd hn (Nat.not_lt_zero n)
  | i + 1, n, b :: q, hq, hn => by
    obtain ⟨⟨hfit, -⟩, hq'⟩ := full_cons.mp hq
    have hb : b.data.length = b.len := CMemBlock.length_data b
    rw [List.take_succ_cons, length_bytes_cons] at hn
    unfold consume
    split_ifs with h0 hlt
    · rw [h0, List.drop_zero]
    · rw [bytes_cons, bytes_cons, CMemBlock.decHeadData_data hfit hlt.le,
        List.drop_append_of_le_length (by omega)]
    · rw [bytes_consume i (n - b.len) hq' (by omega), bytes_cons,
        show n = b.data.length + (n - b.len) by omega, List.drop_length_add_append]
      congr 1
      omega

/-- The number of bytes of a batch that are taken. -/
def gatherTakes : List ℕ → List CMemBlock → ℕ
  | [], _ => 0
  | c :: _, q => min c (batch q).length

/-- What is left of the queue, the rest of which is dropped after a whole batch. -/
def gatherLeaves : List ℕ → List CMemBlock → List UInt8
  | [], q => bytes q
  | c :: _, q => if c < (batch q).length then (bytes q).drop c else []

/-- The first `sendmsg` takes a whole batch, and the flush goes on. -/
def GoesOn : List ℕ → List CMemBlock → Prop
  | [], _ => False
  | c :: _, q => (batch q).length ≤ c

theorem GoesOn.all (h : GoesOn cs q) :
    (batch q).take (gatherTakes cs q) = batch q ∧ gatherLeaves cs q = [] := by
  rcases cs with - | ⟨c, cs⟩
  · cases h
  · have hle : (batch q).length ≤ c := h
    refine ⟨?_, if_neg (by omega)⟩
    show (batch q).take (min c (batch q).length) = _
    rw [Nat.min_eq_right hle, List.take_length]

theorem loop_nil {body : Sock κ → CMemBlock → List CMemBlock → Ret → Pass κ} {t : Sock κ}
    (h : t.qSending = []) (n : ℕ) (ret : Ret) : loop body (n + 1) ret t = some (some (ret, t)) := by
  unfold loop
  rw [h]

theorem loop_cons {body : Sock κ → CMemBlock → List CMemBlock → Ret → Pass κ} {t : Sock κ}
    (h : t.qSending = b :: q) (n : ℕ) (ret : Ret) : loop body (n + 1) ret t =
      match body t b q ret with
      | .next ret t => loop body n ret t
      | .stop ret t => some (some (ret, t))
      | .abort => some none := by
  conv_lhs => unfold loop
  rw [h]

theorem gatherPass_eq (b : CMemBlock) (q : List CMemBlock) (ret : Ret) :
    gatherPass chunks s b q ret = pass chunks s (batch (b :: q)) ret
      (fun n => consume ((b :: q).take maxIoVecCnt).length n (b :: q)) [] := rfl

theorem gather_step (ret : Ret) (hc : ∀ c ∈ s.kernel, 0 < c) (hs : Full s.qSending)
    (hne : s.qSending ≠ []) (n : ℕ) :
    (¬ GoesOn s.kernel s.qSending ∧ ∃ ret' s',
      loop (gatherPass chunks) (n + 1) ret s = some (some (ret', s')) ∧
        s'.taken = s.taken ++ (batch s.qSending).take (gatherTakes s.kernel s.qSending) ∧
        bytes s'.qSending = gatherLeaves s.kernel s.qSending ∧ s'.qSendCache = s.qSendCache) ∨
    (GoesOn s.kernel s.qSending ∧ ∃ ret',
      loop (gatherPass chunks) (n + 1) ret s = loop (gatherPass chunks) n ret'
        { kernel := left (batch s.qSending).length s.kernel
          taken := s.taken ++ batch s.qSending
          qSending := s.qSendCache
          qSendCache := [] }) := by
  obtain ⟨b, q, hq⟩ := List.exists_cons_of_ne_nil hne
  have hpos := length_batch_pos hs hne
  rw [loop_cons hq, gatherPass_eq]
  rw [hq] at hs hpos ⊢
  rcases hk : s.kernel with - | ⟨c, cs⟩
  · rw [pass_blocked hk]
    refine Or.inl ⟨fun h => h, _, s, rfl, (List.append_nil _).symm, ?_, rfl⟩
    rw [hq]
    rfl
  · rcases Nat.lt_or_ge c (batch (b :: q)).length with hlt | hge
    · rw [pass_part hk (hc c (hk ▸ List.mem_cons_self)) hlt]
      refine Or.inl ⟨fun h => absurd hlt (Nat.not_lt.mpr h), _, _, rfl, ?_, ?_, rfl⟩
      · show _ ++ _ = _ ++ (batch (b :: q)).take (min c (batch (b :: q)).length)
        rw [Nat.min_eq_left hlt.le]
      · show bytes (consume _ c (b :: q)) = if _ then _ else _
        rw [if_pos hlt]
        refine bytes_consume _ c hs ?_
        rw [List.length_take, ← List.take_eq_take_min]
        exact hlt
    · rw [pass_whole hk hpos hge, hk]
      exact Or.inr ⟨hge, _, rfl⟩

theorem gather_last {n : ℕ} (ret : Ret) (hc : ∀ c ∈ s.kernel, 0 < c) (hs : Full s.qSending)
    (hcache : s.qSendCache = []) (hn : 2 ≤ n) : ∃ ret' s',
      loop (gatherPass chunks) n ret s = some (some (ret', s')) ∧
        s'.taken = s.taken ++ (batch s.qSending).take (gatherTakes s.kernel s.qSending) ∧
        bytes s'.qSending = gatherLeaves s.kernel s.qSending ∧ s'.qSendCache = [] := by
  obtain ⟨n, rfl⟩ : ∃ m, n = m + 2 := ⟨n - 2, by omega⟩
  by_cases hne : s.qSending = []
  · refine ⟨ret, s, loop_nil hne _ ret, ?_, ?_, hcache⟩
    · rw [hne, show batch [] = [] from rfl, List.take_nil, List.append_nil]
    · rw [hne]
      rcases s.kernel with - | ⟨c, cs⟩
      · rfl
      · show [] = if c < 0 then (bytes []).drop c else []
        exact (if_neg (Nat.not_lt_zero c)).symm
  · rcases gather_step ret hc hs hne (n + 1) with ⟨-, ret', s', h1, h2, h3, h4⟩ | ⟨hgo, ret', h⟩
    · exact ⟨ret', s', h1, h2, h3, h4.trans hcache⟩
    · obtain ⟨hall, hnone⟩ := hgo.all
      refine ⟨ret', _, h.trans (loop_nil hcache n ret'), ?_, ?_, rfl⟩
      · rw [hall]
      · rw [hnone, hcache]
        rfl

/-! ### The two versions -/

/-- A flush that stops in the queue: the two versions send as many bytes exactly if the plain one
cannot go on. -/
theorem part_iff (hc : ∀ c ∈ cs, 0 < c) (hq : Full q) (hgo : ¬ GoesOn cs q) (r : List CMemBlock) :
    gatherTakes cs q ≤ plainTakes cs (q ++ r) ∧
      (plainTakes cs (q ++ r) = gatherTakes cs q ↔ Gathers cs q) := by
  rcases cs with - | ⟨c, cs⟩
  · rw [plainTakes_nil]
    exact ⟨Nat.le_refl _, iff_of_true rfl trivial⟩
  · have hlt : c < (batch q).length := Nat.lt_of_not_le hgo
    have htakes : gatherTakes (c :: cs) q = c := Nat.min_eq_left hlt.le
    rw [htakes, gathers_of_lt hlt]
    exact plainTakes_part cs r hc hq (Nat.lt_of_lt_of_le hlt (length_batch_le q))

theorem not_goesOn (hgo : ¬ GoesOn cs q) :
    (batch q).take (gatherTakes cs q) = (bytes q).take (gatherTakes cs q) ∧
      gatherLeaves cs q = (bytes q).drop (gatherTakes cs q) ∧
      gatherTakes cs q ≤ (batch q).length ∧
      (0 < (batch q).length → gatherTakes cs q < (batch q).length) := by
  rcases cs with - | ⟨c, cs⟩
  · exact ⟨rfl, rfl, Nat.zero_le _, fun h => h⟩
  · have hlt : c < (batch q).length := Nat.lt_of_not_le hgo
    have htakes : gatherTakes (c :: cs) q = c := Nat.min_eq_left hlt.le
    rw [htakes]
    refine ⟨?_, if_pos hlt, hlt.le, fun _ => hlt⟩
    rw [batch_append_drop q, List.take_append_of_le_length hlt.le]

theorem gather_le (cs : List ℕ) (q : List CMemBlock) :
    ((batch q).take (gatherTakes cs q)).length + (gatherLeaves cs q).length ≤
      (bytes q).length := by
  by_cases hgo : GoesOn cs q
  · obtain ⟨h1, h2⟩ := hgo.all
    rw [h1, h2, List.length_nil]
    exact length_batch_le q
  · obtain ⟨h1, h2, h3, -⟩ := not_goesOn hgo
    have hle := length_batch_le q
    rw [h1, h2, List.length_take, List.length_drop]
    omega

/-- After a whole batch the flush has gathered the queue exactly if this was all of it. -/
theorem GoesOn.gathers (h : GoesOn cs q) : Gathers cs q ↔ q.length ≤ maxIoVecCnt := by
  rcases cs with - | ⟨c, cs⟩
  · cases h
  · exact gathers_of_le h

theorem GoesOn.plainTakes (h : GoesOn cs q) (hc : ∀ c ∈ cs, 0 < c) (hq : Full q)
    (hlen : q.length ≤ maxIoVecCnt) (r : List CMemBlock) :
    plainTakes cs (q ++ r) =
      (bytes q).length + Flush.plainTakes (left (bytes q).length cs) r := by
  rcases cs with - | ⟨c, cs⟩
  · cases h
  · have hle : (batch q).length ≤ c := h
    rw [batch_eq hlen] at hle
    exact plainTakes_append cs r hc hq hle

/-- The last queue: the two versions send and leave the same exactly if the flush gathers it. -/
theorem last_iff (hc : ∀ c ∈ cs, 0 < c) (hr : Full r) :
    ((bytes r).take (plainTakes cs r) = (batch r).take (gatherTakes cs r) ∧
      (bytes r).drop (plainTakes cs r) = gatherLeaves cs r) ↔ Gathers cs r := by
  have hle := plainTakes_le cs r
  by_cases hgo : GoesOn cs r
  · obtain ⟨h1, h2⟩ := hgo.all
    rw [h1, h2, hgo.gathers]
    constructor
    · rintro ⟨h, hdrop⟩
      by_contra hlong
      have hlt := length_batch_lt hr (Nat.lt_of_not_le hlong)
      have hlen := congrArg List.length h
      have hlen' := congrArg List.length hdrop
      rw [List.length_take] at hlen
      rw [List.length_drop, List.length_nil] at hlen'
      omega
    · intro hlen
      have hall := hgo.plainTakes hc hr hlen []
      rw [List.append_nil] at hall
      rw [batch_eq hlen]
      exact ⟨List.take_of_length_le (by omega), List.drop_eq_nil_of_le (by omega)⟩
  · obtain ⟨h1, h2, h3, -⟩ := not_goesOn hgo
    have hiff := (part_iff hc hr hgo []).2
    rw [List.append_nil] at hiff
    rw [h1, h2, ← hiff]
    constructor
    · rintro ⟨h, -⟩
      have hlen := congrArg List.length h
      have hbatch := length_batch_le r
      rw [List.length_take, List.length_take] at hlen
      omega
    · intro h
      rw [h]
      exact ⟨rfl, rfl⟩

/-- The flush of both queues is gathered. -/
def BothGather (s : Sock (List ℕ)) : Prop :=
  Gathers s.kernel s.qSending ∧
    (GoesOn s.kernel s.qSending → Gathers (left (bytes s.qSending).length s.kernel) s.qSendCache)

/-- What the plain version leaves, compared with a flush that stopped in `m_qSending`. -/
theorem stop_iff {t : Sock (List ℕ)} (hc : ∀ c ∈ s.kernel, 0 < c) (hs : Full s.qSending)
    (hgo : ¬ GoesOn s.kernel s.qSending) (hne : s.qSending ≠ [])
    (hsent : Sent s (plainTakes s.kernel (s.qSending ++ s.qSendCache)) s')
    (htaken : t.taken = s.taken ++ (batch s.qSending).take (gatherTakes s.kernel s.qSending))
    (hsending : bytes t.qSending = gatherLeaves s.kernel s.qSending)
    (hcache : t.qSendCache = s.qSendCache) : Agree s' t ↔ BothGather s := by
  obtain ⟨h1, h2, h3, h4⟩ := not_goesOn hgo
  have hiff := (part_iff hc hs hgo s.qSendCache).2
  have hboth : BothGather s ↔ Gathers s.kernel s.qSending := and_iff_left fun h => absurd h hgo
  have hbatch := length_batch_le s.qSending
  have hlt : gatherTakes s.kernel s.qSending < (bytes s.qSending).length :=
    Nat.lt_of_lt_of_le (h4 (length_batch_pos hs hne)) hbatch
  have htotal := plainTakes_le s.kernel (s.qSending ++ s.qSendCache)
  rw [bytes_append, List.length_append] at htotal
  rw [hboth, ← hiff]
  constructor
  · intro h
    have hlen := congrArg List.length h.taken
    rw [hsent.taken, htaken, h1] at hlen
    simp only [List.length_append, List.length_take] at hlen
    omega
  · intro h
    obtain ⟨e1, e2, e3⟩ := hsent
    rw [h] at e1 e2 e3
    rw [if_pos hlt] at e2 e3
    refine ⟨?_, ?_, ?_⟩
    · rw [e1, htaken, h1, List.take_append_of_le_length hlt.le]
    · rw [e2, hsending, h2]
    · rw [e3, hcache]

/-- What the plain version leaves, compared with a flush that went on with the cache. -/
theorem goesOn_iff {t : Sock (List ℕ)} (hc : ∀ c ∈ s.kernel, 0 < c) (hs : Full s.qSending)
    (hq : Full s.qSendCache) (hgo : GoesOn s.kernel s.qSending)
    (hsent : Sent s (plainTakes s.kernel (s.qSending ++ s.qSendCache)) s')
    (htaken : t.taken = s.taken ++ batch s.qSending ++ (batch s.qSendCache).take
      (gatherTakes (left (batch s.qSending).length s.kernel) s.qSendCache))
    (hsending : bytes t.qSending =
      gatherLeaves (left (batch s.qSending).length s.kernel) s.qSendCache)
    (hcache : t.qSendCache = []) : Agree s' t ↔ BothGather s := by
  have htotal := plainTakes_le s.kernel (s.qSending ++ s.qSendCache)
  rw [bytes_append, List.length_append] at htotal
  obtain ⟨e1, e2, e3⟩ := hsent
  unfold BothGather
  rw [hgo.gathers]
  by_cases hlen : s.qSending.length ≤ maxIoVecCnt
  · have hk := hgo.plainTakes hc hs hlen s.qSendCache
    rw [batch_eq hlen] at htaken hsending
    rw [hk] at e1 e2 e3
    rw [if_neg (by omega)] at e2 e3
    rw [Nat.add_sub_cancel_left] at e2
    rw [List.take_length_add_append] at e1
    rw [and_iff_right hlen, ← last_iff (left_pos hc _) hq]
    constructor
    · intro h _
      refine ⟨?_, ?_⟩
      · have htk := h.taken
        rw [e1, htaken, ← List.append_assoc] at htk
        exact List.append_cancel_left htk
      · rw [← e2, ← hsending]
        exact h.qSending
    · intro h
      obtain ⟨h1, h2⟩ := h hgo
      refine ⟨?_, ?_, ?_⟩
      · rw [e1, htaken, h1, List.append_assoc]
      · rw [e2, hsending, h2]
      · rw [e3, hcache, bytes_nil]
  · refine iff_of_false (fun h => ?_) fun h => hlen h.1
    -- the batch was not the whole queue: the rest of the queue is dropped
    have hlt := length_batch_lt hs (Nat.lt_of_not_le hlen)
    have hle := gather_le (left (batch s.qSending).length s.kernel) s.qSendCache
    have h1 := congrArg List.length h.taken
    have h2 := congrArg List.length h.qSending
    have h3 := congrArg List.length h.qSendCache
    rw [e1, htaken] at h1
    rw [e2, hsending] at h2
    rw [e3, hcache, bytes_nil] at h3
    simp only [List.length_append, List.length_take] at h1 hle
    split_ifs at h2 h3 <;> simp only [List.length_drop, List.length_nil] at h2 h3 <;> omega

theorem bothGather_swap (s : Sock (List ℕ)) (hc : ∀ c ∈ s.kernel, 0 < c) :
    BothGather (swapIfEmpty s) ↔ BothGather s := by
  unfold swapIfEmpty
  split_ifs with hnil
  · unfold BothGather
    dsimp only
    rw [hnil, bytes_nil, List.length_nil, and_iff_left (fun _ => gathers_nil _),
      and_iff_right (gathers_nil _)]
    rcases hk : s.kernel with - | ⟨c, cs⟩
    · exact iff_of_true trivial fun h => absurd h id
    · have hpos := hc c (hk ▸ List.mem_cons_self)
      have hleft : left 0 (c :: cs) = c :: cs := if_pos hpos
      have hgo : GoesOn (c :: cs) [] := Nat.zero_le c
      rw [hleft]
      exact ⟨fun h _ => h, fun h => h hgo⟩
  · rfl

/-- **The gathering flush agrees with the plain one**, for every content of the queues and every
kernel that takes the bytes it is offered in some portions and then blocks, exactly if both queues
are gathered: neither `sendmsg` takes a whole batch of a queue that has more blocks, nor a part of
it that ends with a block while the kernel would take more. -/
theorem agree_iff (s : Sock (List ℕ)) (hc : ∀ c ∈ s.kernel, 0 < c) (hs : Full s.qSending)
    (hq : Full s.qSendCache) (n : ℕ) (hn : s.qSending.length + s.qSendCache.length + 3 ≤ n) :
    ∃ r t r' t', handleCanSend (plainPass chunks) n s = some (some (r, t)) ∧
      handleCanSend (gatherPass chunks) n s = some (some (r', t')) ∧
        (Agree t t' ↔ BothGather s) := by
  rw [← bothGather_swap s hc]
  unfold handleCanSend
  obtain ⟨hs', hq'⟩ := swapIfEmpty_full hs hq
  have hcount := congrArg List.length (swapIfEmpty_append s)
  rw [List.length_append, List.length_append] at hcount
  rw [← swapIfEmpty_kernel s] at hc
  have hnil := swapIfEmpty_nil (s := s)
  generalize swapIfEmpty s = s at *
  obtain ⟨n, rfl⟩ : ∃ m, n = m + 3 := ⟨n - 3, by omega⟩
  by_cases hne : s.qSending = []
  · -- both queues are empty
    refine ⟨_, s, _, s, loop_nil hne _ _, loop_nil hne _ _, iff_of_true ⟨rfl, rfl, rfl⟩ ?_⟩
    unfold BothGather
    rw [hne, hnil hne]
    exact ⟨gathers_nil _, fun _ => gathers_nil _⟩
  · obtain ⟨r, t, hplain, hsent⟩ := plain_loop (n := n + 3) (.code .suc) hc hs' hq' hnil (by omega)
    rcases gather_step (.code .suc) hc hs' hne (n + 2) with
      ⟨hgo, r', t', hgather, h1, h2, h3⟩ | ⟨hgo, ret, hgather⟩
    · exact ⟨r, t, r', t', hplain, hgather, stop_iff hc hs' hgo hne hsent h1 h2 h3⟩
    · obtain ⟨r', t', hlast, h1, h2, h3⟩ := gather_last (n := n + 2) ret
        (s := ⟨[], s.qSendCache, left _ _, _⟩) (left_pos hc _) hq' rfl (by omega)
      exact ⟨r, t, r', t', hplain, hgather.trans hlast, goesOn_iff hc hs' hq' hgo hsent h1 h2 h3⟩

/-- Blocks of one byte. -/
def bytesQueue (n : ℕ) : List CMemBlock := List.replicate n (.ofBytes [7])

theorem bytesQueue_full (n : ℕ) : Full (bytesQueue n) := by
  intro b hb
  rw [List.eq_of_mem_replicate hb]
  exact ⟨show 0 + 1 ≤ maxMemSize by decide, show 0 < 1 by decide⟩

theorem agree_iff_three :
    let s : Sock (List ℕ) := ⟨bytesQueue 1, bytesQueue 2, [3], []⟩
    ∃ r t r' t', handleCanSend (plainPass chunks) 6 s = some (some (r, t)) ∧
      handleCanSend (gatherPass chunks) 6 s = some (some (r', t')) ∧
        (Agree t t' ↔ BothGather s) :=
  agree_iff ⟨bytesQueue 1, bytesQueue 2, [3], []⟩ (by decide) (bytesQueue_full 2)
    (bytesQueue_full 1) 6 (by decide)

/-- **Eleven blocks**: the kernel takes the first ten at once, and the gathering flush drops the
last. -/
theorem eleventh_dropped :
    let s : Sock (List ℕ) := ⟨[], bytesQueue 11, [11], []⟩
    ∃ r t r' t', handleCanSend (plainPass chunks) 14 s = some (some (r, t)) ∧
      handleCanSend (gatherPass chunks) 14 s = some (some (r', t')) ∧
        t.taken = List.replicate 11 7 ∧ t'.taken = List.replicate 10 7 ∧
          bytes t'.qSending ++ bytes t'.qSendCache = [] := by
  refine ⟨_, _, _, _, rfl, rfl, ?_, ?_, ?_⟩ <;> decide

end SmartNet.Network.Rup.Flush

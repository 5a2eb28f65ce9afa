import SmartNet.Network.Rmp.AppAcks

/-! # The reorder buffer of a receiver that is drained

The input thread receives a data packet only when the run that became ready before was handed out.
Packets arrive in any order, at most `unorderedPkgsCnt` above the last one that is ready.

* `findEnd`, `findBegin`: the two loops of `recvep_handle_odata` as they are written;
* `Buffer`: the ends of the reorder buffer and its slots, for the numbers that arrived;
* `Scanned`: what the loops find when the gap before the buffer closes;
* `drained_buffer`: both hold in every run in which the 64-bit numbers do not come to their end;
* `buffer_wraps`: a run in which they do. -/

namespace SmartNet.Network.Rmp.ReorderScan

open SmartNet.Common SmartNet.Lib SmartNet.Lib.Bytes SmartNet.Lib.Frontier SmartNet.Lib.Ring
open SmartNet.Memory.MemBlock SmartNet.Network.Udp SmartNet.Network.Rmp.Wire
open SmartNet.Network.Rmp.Recvep SmartNet.Network.Rmp.ControlPkgs SmartNet.Network.Rmp.Reorder
open SmartNet.Network.Rmp.RecvRun SmartNet.Network.Rmp.AppAcks

/-- A receiver and the numbers of the data packets of its sender that arrived, the last one
first. -/
structure Recver where
  app : App
  got : List ℕ

/-- The block a datagram is received into. -/
def arrived (pMem : Option CMemBlock) (fresh : ℕ → UInt8) (r : Recvfrom) : Option CMemBlock :=
  match (takeMem pMem fresh >>= fun c => udpRecv c r).res with
  | .ok (.suc, b, _) => some b
  | _ => none

/-- The number of the data packet of the sender that a call receives. -/
def number (x : App) : Call → Option ℕ
  | .recv r fresh _ _ =>
    if x.draining then none
    else (arrived x.sock.pMem fresh r).bind fun b =>
      if b.get8 3 = epData ∧ b.get8 4 = x.sock.senderId then some (seqNoOf b) else none
  | _ => none

/-- A call, and the number that arrives with it. -/
def exec (a : Call) (x : Recver) : Eff Ev Fault Recver := do
  let y ← AppAcks.exec a x.app
  pure ⟨y, (number x.app a).toList ++ x.got⟩

/-- A receiver that was opened and has joined the group. -/
def init (senderId : UInt8) (ackConfirmCnt : ℕ) (bound : SockAddr) : Proc Recver Ev Fault :=
  { obj := ⟨(AppAcks.init senderId ackConfirmCnt bound).obj, []⟩ }

/-- A data packet is at most `unorderedPkgsCnt` above the last one that is ready. -/
def Near (x : Recver) (a : Call) : Prop :=
  ∀ q, number x.app a = some q → q ≤ x.app.sock.latestRecvedValidSeqNo + unorderedPkgsCnt

/-- The next packet is neither the last 64-bit number, nor 0 behind it. -/
def Counts (x : Recver) (a : Call) : Prop :=
  ∀ q, number x.app a = some q → q = u64 (1 + x.app.sock.latestRecvedValidSeqNo) →
    x.app.sock.latestRecvedValidSeqNo + 1 < 2 ^ 64 - 1

/-- **The reorder buffer**: it is empty, or its ends are filled, above the next packet and near; and
a slot is filled exactly if a number up to the upper end that goes there has arrived. -/
def Buffer (got : List ℕ) (s : RecvSock) : Prop :=
  (s.unvalidPkgBegin = 0 ∧ s.unvalidPkgEnd = 0 ∧ ∀ i, s.vecUnvalidPkgs i = none) ∨
    (s.latestRecvedValidSeqNo + 1 < s.unvalidPkgBegin ∧ s.unvalidPkgBegin ≤ s.unvalidPkgEnd ∧
      s.unvalidPkgEnd ≤ s.latestRecvedValidSeqNo + unorderedPkgsCnt) ∧
    (s.vecUnvalidPkgs (s.unvalidPkgBegin % unorderedPkgsCnt) ≠ none ∧
      s.vecUnvalidPkgs (s.unvalidPkgEnd % unorderedPkgsCnt) ≠ none) ∧
    ∀ i, s.vecUnvalidPkgs i ≠ none ↔ ∃ q, q ∈ got ∧ s.latestRecvedValidSeqNo < q ∧
      q ≤ s.unvalidPkgEnd ∧ q % unorderedPkgsCnt = i

/-- The slot of a number of the buffer is filled. -/
def Filled (s : RecvSock) (q : ℕ) : Prop :=
  s.latestRecvedValidSeqNo < q ∧ q ≤ s.unvalidPkgEnd ∧
    s.vecUnvalidPkgs (q % unorderedPkgsCnt) ≠ none

/-- The next packet arrives, and it is the only one missing before the buffer. -/
def Closes (x : Recver) (a : Call) : Prop :=
  number x.app a = some (x.app.sock.latestRecvedValidSeqNo + 1) ∧
    x.app.sock.latestRecvedValidSeqNo + 2 = x.app.sock.unvalidPkgBegin

/-- The loop that looks for `m_ui64ValidPkgEnd`, as it is written; `fuel` bounds its passes. -/
def findEnd (slots : ℕ → Option CMemBlock) (stop : ℕ) : ℕ → ℕ → Option ℕ
  | 0, _ => none
  | fuel + 1, e =>
    if e < stop then
      if slots (u64 (e + 1) % unorderedPkgsCnt) = none then some e
      else findEnd slots stop fuel (u64 (e + 1))
    else some e

/-- The loop that looks for `m_ui64UnvalidPkgBegin`, as it is written. -/
def findBegin (slots : ℕ → Option CMemBlock) (stop : ℕ) : ℕ → ℕ → Option ℕ
  | 0, _ => none
  | fuel + 1, b =>
    if b < stop then
      if slots (b % unorderedPkgsCnt) ≠ none then some b
      else findBegin slots stop fuel (u64 (b + 1))
    else some b

/-- The loops come to their end, and the socket `t` has what they find. -/
structure Loops (s t : RecvSock) (fuel : ℕ) : Prop where
  findEnd : findEnd s.vecUnvalidPkgs s.unvalidPkgEnd fuel s.unvalidPkgBegin = some t.validPkgEnd
  findBegin : t.validPkgEnd < s.unvalidPkgEnd →
    findBegin s.vecUnvalidPkgs s.unvalidPkgEnd fuel (u64 (t.validPkgEnd + 1)) =
      some t.unvalidPkgBegin

/-- **The gap before the buffer of `s` has closed**: the run of filled slots behind it is ready in
`t`, and the buffer begins at the next filled one. -/
structure Scanned (s t : RecvSock) : Prop where
  loops : ∃ n, ∀ fuel, n ≤ fuel → Loops s t fuel
  validPkgBegin : t.validPkgBegin = s.unvalidPkgBegin
  le : s.unvalidPkgBegin ≤ t.validPkgEnd
  run : ∀ q, s.unvalidPkgBegin ≤ q → q ≤ t.validPkgEnd → Filled s q
  last : ¬ Filled s (t.validPkgEnd + 1)
  next : (t.unvalidPkgBegin = 0 ∧ ∀ q, Filled s q → q ≤ t.validPkgEnd) ∨
    (t.validPkgEnd < t.unvalidPkgBegin ∧ Filled s t.unvalidPkgBegin ∧
      ∀ q, Filled s q → t.validPkgEnd < q → t.unvalidPkgBegin ≤ q)
  latest : t.latestRecvedValidSeqNo = t.validPkgEnd

variable {s t : RecvSock} {x : App} {seen : Set ℕ} {got : List ℕ} {k : ℕ}
  {stack : ℕ → UInt8} {io ioAck ioNak : Sendto} {slots : ℕ → Option CMemBlock}

/-! ### The loops -/

theorem findEnd_eq (slots : ℕ → Option CMemBlock) {stop : ℕ} (hstop : stop < 2 ^ 64) :
    ∀ k fuel e, e + k = stop → k < fuel →
      findEnd slots stop fuel e = some (findValidPkgEnd slots k e)
  | 0, fuel + 1, e, he, _ => by
    have hge : ¬ e < stop := by omega
    simp only [findEnd, if_neg hge, findValidPkgEnd]
  | k + 1, fuel + 1, e, he, hlt => by
    have hin : e < stop := by omega
    have hu : u64 (e + 1) = e + 1 := u64_of_lt (by omega)
    have ih := findEnd_eq slots hstop k fuel (e + 1) (by omega) (by omega)
    simp only [findEnd, if_pos hin, findValidPkgEnd, hu, ih]
    split_ifs <;> rfl

theorem findBegin_eq (slots : ℕ → Option CMemBlock) {stop : ℕ} (hstop : stop < 2 ^ 64) :
    ∀ k fuel b, b + k = stop → k < fuel →
      findBegin slots stop fuel b = some (findUnvalidPkgBegin slots k b)
  | 0, fuel + 1, b, hb, _ => by
    have hge : ¬ b < stop := by omega
    simp only [findBegin, if_neg hge, findUnvalidPkgBegin]
  | k + 1, fuel + 1, b, hb, hlt => by
    have hin : b < stop := by omega
    have hu : u64 (b + 1) = b + 1 := u64_of_lt (by omega)
    have ih := findBegin_eq slots hstop k fuel (b + 1) (by omega) (by omega)
    simp only [findBegin, if_pos hin, findUnvalidPkgBegin, hu, ih, ne_eq, ite_not]
    split_ifs <;> rfl

/-! ### The numbers that arrived -/

theorem arrived_of {pMem : Option CMemBlock} {fresh : ℕ → UInt8} {r : Recvfrom} {b : CMemBlock}
    (h : Arrives pMem fresh r b) : arrived pMem fresh r = some b := by
  obtain ⟨src, h⟩ := h
  unfold arrived
  rw [h]
  rfl

theorem arrives_of {pMem : Option CMemBlock} {fresh : ℕ → UInt8} {r : Recvfrom} {b : CMemBlock}
    (h : arrived pMem fresh r = some b) : Arrives pMem fresh r b := by
  unfold arrived at h
  by_cases hidle : Idle pMem
  · obtain ⟨c, hc, ho, hl⟩ := takeMem_of_idle hidle fresh
    rw [hc, Eff.pure_bind] at h
    rcases udpRecv_cases ho hl r with hab | ⟨ret, h1, -, hret⟩ | ⟨d, src, hrecv, -, -, -⟩
    · rw [hab] at h
      cases h
    · rw [hret] at h
      cases ret with
      | suc => exact absurd rfl h1
      | _ => cases h
    · rw [hrecv] at h
      cases h
      exact ⟨src, by rw [hc, Eff.pure_bind, hrecv]⟩
  · rw [takeMem_of_busy hidle fresh, Eff.abort_bind] at h
    cases h

theorem number_recv {r : Recvfrom} {fresh : ℕ → UInt8} {q : ℕ} :
    number x (.recv r fresh stack io) = some q ↔ x.draining = false ∧
      ∃ b, Arrives x.sock.pMem fresh r b ∧ b.get8 3 = epData ∧ b.get8 4 = x.sock.senderId ∧
        seqNoOf b = q := by
  rcases hd : x.draining with _ | _
  · simp only [number, hd, Bool.false_eq_true, if_false, true_and]
    constructor
    · intro h
      obtain ⟨b, hb, hq⟩ := Option.bind_eq_some_iff.mp h
      split_ifs at hq with hours
      exact ⟨b, arrives_of hb, hours.1, hours.2, Option.some.inj hq⟩
    · rintro ⟨b, hb, hop, hsid, hq⟩
      rw [arrived_of hb, Option.bind_some, if_pos ⟨hop, hsid⟩, hq]
  · simp [number, hd]

theorem number_none {r : Recvfrom} {fresh : ℕ → UInt8}
    (h : ∀ b, Arrives x.sock.pMem fresh r b → ¬ (b.get8 3 = epData ∧ b.get8 4 = x.sock.senderId)) :
    number x (.recv r fresh stack io) = none := by
  rcases hq : number x (.recv r fresh stack io) with _ | q
  · rfl
  · obtain ⟨-, b, hb, hop, hsid, -⟩ := number_recv.mp hq
    exact absurd ⟨hop, hsid⟩ (h b hb)

/-- The numbers that arrived, as a set. Number 0 is never handed out. -/
def seenOf (got : List ℕ) : Set ℕ := {q | q ∈ got ∧ 1 ≤ q}

theorem seenOf_cons {q : ℕ} (h : 1 ≤ q) : seenOf (q :: got) = insert q (seenOf got) := by
  ext r
  constructor
  · rintro ⟨hr, h1⟩
    rcases List.mem_cons.mp hr with rfl | hr
    · exact Or.inl rfl
    · exact Or.inr ⟨hr, h1⟩
  · rintro (rfl | ⟨hr, h1⟩)
    · exact ⟨List.mem_cons_self, h⟩
    · exact ⟨List.mem_cons_of_mem _ hr, h1⟩

theorem seenOf_dup {q L : ℕ} (hf : IsFrontier (seenOf got) L) (h : q ≤ L) :
    seenOf (q :: got) = seenOf got := by
  rcases Nat.eq_zero_or_pos q with rfl | hpos
  · ext r
    constructor
    · rintro ⟨hr, h1⟩
      rcases List.mem_cons.mp hr with rfl | hr
      · omega
      · exact ⟨hr, h1⟩
    · rintro ⟨hr, h1⟩
      exact ⟨List.mem_cons_of_mem _ hr, h1⟩
  · rw [seenOf_cons hpos, Set.insert_eq_of_mem (hf.below q hpos h)]

/-! ### The buffer -/

theorem buffer_of_kept {val : ℕ → CMemBlock → Prop} (h : Kept val unorderedPkgsCnt (seenOf got) s) :
    Buffer got s := by
  rcases h.ends with ⟨hb, he, hW⟩ | ⟨hb, he, hW⟩
  · refine Or.inl ⟨hb, he, fun i => ?_⟩
    by_contra hne
    obtain ⟨c, hc⟩ := Option.ne_none_iff_exists'.mp hne
    obtain ⟨q, hq, -⟩ := h.slots.only i c hc
    rw [hW] at hq
    exact hq
  · have hheld : ∀ q ∈ waiting (seenOf got) s.latestRecvedValidSeqNo,
        s.vecUnvalidPkgs (q % unorderedPkgsCnt) ≠ none := fun q hq => by
      obtain ⟨c, hc, -⟩ := h.slots.held q hq
      rw [hc]
      exact Option.some_ne_none c
    refine Or.inr ⟨⟨?_, (hW _ hb).2, h.near _ he⟩, ⟨hheld _ hb, hheld _ he⟩, fun i => ⟨?_, ?_⟩⟩
    · have := h.frontier.next_le hb
      omega
    · intro hne
      obtain ⟨c, hc⟩ := Option.ne_none_iff_exists'.mp hne
      obtain ⟨q, hq, hi⟩ := h.slots.only i c hc
      exact ⟨q, hq.1.1, hq.2, (hW q hq).2, hi⟩
    · rintro ⟨q, hq, hlt, -, rfl⟩
      exact hheld q ⟨⟨hq, by omega⟩, hlt⟩

theorem filled_iff_waiting {val : ℕ → CMemBlock → Prop} (h : Kept val unorderedPkgsCnt seen s)
    (hb : s.unvalidPkgBegin ≠ 0) (q : ℕ) :
    Filled s q ↔ q ∈ waiting seen s.latestRecvedValidSeqNo := by
  rcases h.ends with ⟨hb0, -, -⟩ | ⟨-, he, hW⟩
  · exact absurd hb0 hb
  have hend := h.near _ he
  have hone : q ≤ s.unvalidPkgEnd → s.latestRecvedValidSeqNo < q →
      ∀ r ∈ waiting seen s.latestRecvedValidSeqNo,
        r % unorderedPkgsCnt = q % unorderedPkgsCnt → r = q := fun hq hlt r hr hmod => by
    have h1 := (hW r hr).2
    have h2 := hr.2
    exact mod_inj (a := s.latestRecvedValidSeqNo + 1) (by omega) (by omega) (by omega) (by omega)
      hmod
  constructor
  · rintro ⟨h1, h2, hs⟩
    exact (h.slots.isSome_iff (hone h2 h1)).mp (Option.isSome_iff_ne_none.mpr hs)
  · intro hq
    have h2 := (hW q hq).2
    exact ⟨hq.2, h2, Option.isSome_iff_ne_none.mp ((h.slots.isSome_iff (hone h2 hq.2)).mpr hq)⟩

/-! ### The gap closes -/

theorem activate_loops (hbe : s.unvalidPkgBegin ≤ s.unvalidPkgEnd)
    (hlt : s.unvalidPkgEnd < 2 ^ 64) :
    ∀ fuel, s.unvalidPkgEnd - s.unvalidPkgBegin + 1 ≤ fuel → Loops s (activate s) fuel := by
  intro fuel hfuel
  obtain ⟨h1, h2, -, -⟩ := findValidPkgEnd_spec s.vecUnvalidPkgs
    (s.unvalidPkgEnd - s.unvalidPkgBegin) s.unvalidPkgBegin (by omega)
  have hfind := findEnd_eq s.vecUnvalidPkgs hlt (s.unvalidPkgEnd - s.unvalidPkgBegin) fuel
    s.unvalidPkgBegin (by omega) (by omega)
  set e := findValidPkgEnd s.vecUnvalidPkgs (s.unvalidPkgEnd - s.unvalidPkgBegin)
    s.unvalidPkgBegin with hedef
  by_cases hend : e < s.unvalidPkgEnd
  · have hu : u64 (e + 1) = e + 1 := u64_of_lt (by omega)
    have hbegin := findBegin_eq s.vecUnvalidPkgs hlt (s.unvalidPkgEnd - (e + 1)) fuel (e + 1)
      (by omega) (by omega)
    have hact : activate s = { s with
        validPkgBegin := s.unvalidPkgBegin
        validPkgEnd := e
        unvalidPkgBegin := findUnvalidPkgBegin s.vecUnvalidPkgs (s.unvalidPkgEnd - (e + 1)) (e + 1)
        latestRecvedValidSeqNo := e } := by
      simp only [activate, ← hedef, if_pos hend, hu]
    rw [hact]
    refine ⟨hfind, fun _ => ?_⟩
    show findBegin s.vecUnvalidPkgs s.unvalidPkgEnd fuel (u64 (e + 1)) = _
    rw [hu]
    exact hbegin
  · have hact : activate s = { s with
        validPkgBegin := s.unvalidPkgBegin
        validPkgEnd := e
        unvalidPkgBegin := 0
        unvalidPkgEnd := 0
        latestRecvedValidSeqNo := e } := by
      simp only [activate, ← hedef, if_neg hend]
    rw [hact]
    exact ⟨hfind, fun h => absurd h hend⟩

/-- **The packet that closes the gap** before the buffer. -/
theorem odata_closes {val : ℕ → CMemBlock → Prop} {b : CMemBlock}
    (h : Kept val unorderedPkgsCnt seen s) (hseq : b.get64 0 = s.latestRecvedValidSeqNo + 1)
    (hgap : s.latestRecvedValidSeqNo + 2 = s.unvalidPkgBegin) :
    ∃ t, recvepHandleOdata s b = pure (.odataReady, t) ∧ Scanned s t := by
  have hb0 : s.unvalidPkgBegin ≠ 0 := by omega
  obtain ⟨hb, he, hW⟩ : s.unvalidPkgBegin ∈ waiting seen s.latestRecvedValidSeqNo ∧
      s.unvalidPkgEnd ∈ waiting seen s.latestRecvedValidSeqNo ∧
      ∀ q ∈ waiting seen s.latestRecvedValidSeqNo,
        s.unvalidPkgBegin ≤ q ∧ q ≤ s.unvalidPkgEnd := by
    rcases h.ends with ⟨h0, -, -⟩ | hin
    · exact absurd h0 hb0
    · exact hin
  have hfill := filled_iff_waiting h hb0
  have hbe := (hW _ hb).2
  have hnear := h.near _ he
  have hlt := (h.small _ he.1).2
  have hu : u64 (1 + s.latestRecvedValidSeqNo) = s.latestRecvedValidSeqNo + 1 := by
    rw [Nat.add_comm]; exact u64_of_lt (by omega)
  have hu1 : u64 (s.latestRecvedValidSeqNo + 1) = s.latestRecvedValidSeqNo + 1 :=
    u64_of_lt (by omega)
  have hu2 : u64 (s.latestRecvedValidSeqNo + 1 + 1) = s.unvalidPkgBegin := by
    rw [← hgap]; exact u64_of_lt (by omega)
  let u : RecvSock := { s with
    pMem := some (b.decHeadData 8)
    latestRecvedValidSeqNo := s.latestRecvedValidSeqNo + 1 }
  have hloops := activate_loops (s := u) hbe hlt
  obtain ⟨e, b', e', hact, h1, -, h3, h4, h5⟩ := activate_spec (s := u) h.slots hb he hW
    (by show s.unvalidPkgEnd ≤ s.unvalidPkgBegin + _; omega) hlt
  have hl : ∃ n, ∀ fuel, n ≤ fuel → Loops s (activate u) fuel :=
    ⟨_, fun fuel hfuel => ⟨(hloops fuel hfuel).findEnd, (hloops fuel hfuel).findBegin⟩⟩
  refine ⟨activate u, by simp only [recvepHandleOdata, hseq, hu, hu1, hu2, if_true]; rfl, ?_⟩
  rw [hact] at hl ⊢
  refine ⟨hl, rfl, h1, fun q hq1 hq2 => (hfill q).mpr (h3 q hq1 hq2),
    fun hf => h4 ((hfill _).mp hf), ?_, rfl⟩
  rcases h5 with ⟨hb', -, hempty⟩ | ⟨hb', -, hleast⟩
  · refine Or.inl ⟨hb', fun q hq => ?_⟩
    by_contra hlt'
    have hgt : e < q := Nat.lt_of_not_le hlt'
    have hmem : q ∈ {q | q ∈ waiting seen s.latestRecvedValidSeqNo ∧ e < q} :=
      ⟨(hfill q).mp hq, hgt⟩
    rw [hempty] at hmem
    exact hmem
  · exact Or.inr ⟨hb'.2, (hfill _).mpr hb'.1, fun q hq hgt =>
      (hleast q ⟨(hfill q).mp hq, hgt⟩).1⟩

/-! ### One call -/

/-- **The invariant**: `k` blocks of the reorder buffer are still to be handed out, and none when
the application has been told so. -/
def Good (x : Recver) : Prop :=
  ∃ k, Holding (fun q b => seqNoOf b = q) unorderedPkgsCnt (seenOf x.got) k x.app.sock ∧
    (x.app.draining = false →
      k = 0 ∧ x.app.sock.validPkgBegin = 0 ∧ x.app.sock.validPkgEnd = 0)

theorem good_of_eq {b : Bool} {y : Recver} (h : Good y) (hgot : y.got = got)
    (h1 : s.latestRecvedValidSeqNo = y.app.sock.latestRecvedValidSeqNo)
    (h2 : s.vecUnvalidPkgs = y.app.sock.vecUnvalidPkgs)
    (h3 : s.unvalidPkgBegin = y.app.sock.unvalidPkgBegin)
    (h4 : s.unvalidPkgEnd = y.app.sock.unvalidPkgEnd)
    (h5 : s.validPkgBegin = y.app.sock.validPkgBegin)
    (h6 : s.validPkgEnd = y.app.sock.validPkgEnd)
    (hb : b = false → y.app.draining = false) : Good ⟨⟨s, b⟩, got⟩ := by
  obtain ⟨k, hk, hd⟩ := h
  refine ⟨k, (hgot ▸ hk).of_eq h1 h2 h3 h4 h5 h6, fun h0 => ?_⟩
  obtain ⟨hk0, hvb, hve⟩ := hd (hb h0)
  exact ⟨hk0, h5.trans hvb, h6.trans hve⟩

theorem odata_keeps {c : CMemBlock}
    (h : Kept (fun q b => seqNoOf b = q) unorderedPkgsCnt (seenOf got) s)
    (hv : s.validPkgBegin = 0 ∧ s.validPkgEnd = 0) (ho : c.offset = 0)
    (hnear : seqNoOf c ≤ s.latestRecvedValidSeqNo + unorderedPkgsCnt)
    (hcount : seqNoOf c = u64 (1 + s.latestRecvedValidSeqNo) →
      s.latestRecvedValidSeqNo + 1 < 2 ^ 64 - 1) :
    ∀ ret t, (recvepHandleOdata s (c.decHeadData 8)).res = .ok (ret, t) →
      Good ⟨⟨t, ret = .odataReady⟩, seqNoOf c :: got⟩ := by
  intro ret t hres
  have hlt := h.latest_lt
  have hmore : ¬ (0 < s.validPkgBegin ∧ s.validPkgBegin ≤ s.validPkgEnd) := by
    rw [hv.1]; omega
  have hseq := get64_seqNo ho
  have hsmall := seqNoOf_lt c
  by_cases hnext : seqNoOf c = u64 (1 + s.latestRecvedValidSeqNo)
  · -- the next packet
    have hL := hcount hnext
    have hq : seqNoOf c = s.latestRecvedValidSeqNo + 1 := by
      rw [hnext, Nat.add_comm]; exact u64_of_lt (by omega)
    obtain ⟨L', u, hu, hup⟩ := h.odata_next (b := c.decHeadData 8) hv (by omega)
      (hseq.trans hq) hL
    have hhold : Holding (fun q b => seqNoOf b = q) unorderedPkgsCnt (seenOf (seqNoOf c :: got))
        (L' - (s.latestRecvedValidSeqNo + 1)) u := by
      rw [seenOf_cons (by omega), hq]
      exact hup.holding h.frontier h.near h.small (by omega)
    rw [hu] at hres
    cases hres
    exact ⟨_, hhold, fun h0 => by simp at h0⟩
  · by_cases hle : seqNoOf c ≤ s.latestRecvedValidSeqNo
    · -- a packet that was ready before
      simp only [recvepHandleOdata, hseq, if_neg hnext, if_pos hle] at hres
      cases hres
      refine ⟨0, ?_, fun _ => ⟨rfl, hv⟩⟩
      show Holding _ _ (seenOf (seqNoOf c :: got)) 0 _
      rw [seenOf_dup h.frontier hle]
      exact (h.holding hmore).of_eq rfl rfl rfl rfl rfl rfl
    · -- a packet above the next one
      have hgt : s.latestRecvedValidSeqNo + 1 < seqNoOf c := by
        have hne : seqNoOf c ≠ s.latestRecvedValidSeqNo + 1 := fun heq => hnext (by
          rw [heq, Nat.add_comm 1, u64_of_lt (by omega)])
        omega
      rcases h.odata_wait (b := c.decHeadData 8) (q := seqNoOf c) (Nat.le_refl _) hseq hgt hsmall
        (fun _ => hnear) rfl with ⟨hab, -⟩ | ⟨hab, -⟩ | ⟨u, hu, hk, -, -, hvb, hve⟩
      · rw [hab] at hres; cases hres
      · rw [hab] at hres; cases hres
      · have hhold : Holding (fun q b => seqNoOf b = q) unorderedPkgsCnt
            (seenOf (seqNoOf c :: got)) 0 u := by
          rw [seenOf_cons (by omega)]
          exact hk.holding (by rw [hvb, hve]; exact hmore)
        rw [hu] at hres
        cases hres
        exact ⟨0, hhold, fun _ => ⟨rfl, hvb.trans hv.1, hve.trans hv.2⟩⟩

theorem recv_keeps {r : Recvfrom} {fresh : ℕ → UInt8} (h : Good ⟨x, got⟩)
    (hnear : Near ⟨x, got⟩ (.recv r fresh stack io))
    (hcount : Counts ⟨x, got⟩ (.recv r fresh stack io)) :
    ∀ y, (AppAcks.exec (.recv r fresh stack io) x).res = .ok y →
      Good ⟨y, (number x (.recv r fresh stack io)).toList ++ got⟩ := by
  intro y hy
  rcases hd : x.draining with _ | _
  swap
  · rw [exec_busy hd] at hy
    cases hy
    have hnone : number x (.recv r fresh stack io) = none := by simp [number, hd]
    rw [hnone]
    exact h
  have hgood := h
  obtain ⟨k, hk, hvalid⟩ := h
  obtain ⟨rfl, hv⟩ := hvalid hd
  rw [exec_recv hd] at hy
  rcases handleCanRecv_cases x.sock fresh stack r with ⟨hno, hcases⟩ |
    ⟨c, src, harr, hco, -, -, hsid, hcases⟩
  · rw [number_none fun b hb hours => hno b hb ⟨hours.2, Or.inl hours.1⟩]
    rcases hcases with ⟨f, hab⟩ | ⟨ret, b, -, -, -, hret⟩
    · rw [hab, Eff.abort_bind] at hy
      cases hy
    · rw [hret, Eff.pure_bind] at hy
      cases hy
      exact good_of_eq hgood rfl rfl rfl rfl rfl rfl rfl fun _ => hd
  · rcases hcases with ⟨hop, hp⟩ | ⟨hop, hp⟩
    · have hnum : number x (.recv r fresh stack io) = some (seqNoOf c) :=
        number_recv.mpr ⟨hd, c, harr, hop, hsid, rfl⟩
      rw [hnum]
      rw [hp] at hy
      rcases hres : recvepHandleOdata { x.sock with pMem := some c, addrSender := src }
        (c.decHeadData 8) with ⟨evs, f | ⟨ret, t⟩⟩
      · rw [hres] at hy; cases hy
      · rw [hres] at hy
        cases hy
        exact odata_keeps (s := { x.sock with pMem := some c, addrSender := src })
          (hk.kept.of_eq rfl rfl rfl rfl) hv hco (hnear _ hnum) (hcount _ hnum) ret t (by rw [hres])
    · have hnone : number x (.recv r fresh stack io) = none := number_none fun b hb hours => by
        rw [arrives_unique hb harr, hop] at hours
        exact absurd hours.1 (by decide)
      rw [hnone]
      rw [hp] at hy
      obtain ⟨ret, -, hres, -⟩ := handleHb_eq
        (s := { x.sock with pMem := some c, addrSender := src }) (c.decHeadData 8) stack io
      rcases hx : recvepHandleHb { x.sock with pMem := some c, addrSender := src }
        (c.decHeadData 8) stack io with ⟨evs, f | p⟩
      · rw [hx] at hres; cases hres
      · rw [hx] at hres hy
        cases hres
        cases hy
        exact good_of_eq hgood rfl rfl rfl rfl rfl rfl rfl fun _ => hd

theorem next_keeps (h : Good ⟨x, got⟩) :
    ∀ y, (AppAcks.exec (.next stack io) x).res = .ok y → Good ⟨y, got⟩ := by
  intro y hy
  obtain ⟨k, hk, hvalid⟩ := h
  rcases hmem : x.sock.pMem.filter (0 < ·.len) with _ | p
  · rcases k with _ | k
    · -- nothing is left to hand out
      rw [exec_next_none (getNext_none hmem (hk.zero_iff.mp rfl) stack io)] at hy
      have hzero : Holding (fun q b => seqNoOf b = q) unorderedPkgsCnt (seenOf got) 0
          { x.sock with validPkgBegin := 0, validPkgEnd := 0 } :=
        Kept.holding (hk.kept.of_eq rfl rfl rfl rfl) fun h0 => by
          have hpos : 0 < 0 := h0.1
          omega
      have hq := setAck_quiet { x.sock with validPkgBegin := 0, validPkgEnd := 0 } false stack io
      rcases hx : setAck { x.sock with validPkgBegin := 0, validPkgEnd := 0 } false stack io
        with ⟨evs, f | t⟩
      · rw [hx] at hy; cases hy
      · have hsame := hq.ok t (by rw [hx])
        rw [hx] at hy
        cases hy
        exact ⟨0, hzero.of_same hsame, fun _ => ⟨rfl, hsame.validPkgBegin, hsame.validPkgEnd⟩⟩
    · -- the next block of the run
      obtain ⟨hv, -, p, hp, -, hnext⟩ := hk.next_slot
      have hget := getNext_slot hmem hv stack io
      rw [hp] at hget
      rw [exec_next_some hget] at hy
      cases hy
      exact ⟨k, hnext, fun h0 => by cases h0⟩
  · -- the block of the packet itself
    obtain ⟨hp, hlen⟩ := Option.filter_eq_some_iff.mp hmem
    rw [exec_next_some (getNext_mem hp (by simpa using hlen) stack io)] at hy
    cases hy
    exact ⟨k, hk.of_eq rfl rfl rfl rfl rfl rfl, fun h0 => by cases h0⟩

theorem timer_keeps {now : ℕ} (h : Good ⟨x, got⟩) :
    ∀ y, (AppAcks.exec (.timer now stack ioAck ioNak) x).res = .ok y → Good ⟨y, got⟩ := by
  intro y hy
  rcases hx : recvepHandleCanSend x.sock now stack ioAck ioNak with ⟨evs, f | t⟩
  · simp only [AppAcks.exec, hx] at hy
    cases hy
  · have hst := (timer_quiet x.sock now stack ioAck ioNak).ok t (by rw [hx])
    simp only [AppAcks.exec, hx] at hy
    cases hy
    exact good_of_eq h rfl hst.latest hst.vecUnvalidPkgs hst.unvalidPkgBegin hst.unvalidPkgEnd
      hst.validPkgBegin hst.validPkgEnd id

/-! ### Runs -/

theorem exec_triple (a : Call) :
    Eff.Triple (fun _ x => Good x ∧ Near x a ∧ Counts x a) (exec a) (fun _ x => Good x)
      (fun _ _ => True) := by
  rintro log ⟨x, got⟩ ⟨hg, hnear, hcount⟩
  rcases hx : AppAcks.exec a x with ⟨evs, f | y⟩
  · simp only [exec, hx]
    trivial
  · have hy : (AppAcks.exec a x).res = .ok y := by rw [hx]
    have hkeep : Good ⟨y, (number x a).toList ++ got⟩ := by
      cases a with
      | recv r fresh stack io => exact recv_keeps hg hnear hcount y hy
      | next stack io => exact next_keeps hg y hy
      | timer now stack ioAck ioNak => exact timer_keeps hg y hy
    simp only [exec, hx]
    exact hkeep

theorem good_init (sid : UInt8) (cnt : ℕ) (bound : SockAddr) : Good (init sid cnt bound).obj := by
  refine ⟨0, ?_, fun _ => ⟨rfl, rfl, rfl⟩⟩
  have hset : seenOf (init sid cnt bound).obj.got = ∅ :=
    Set.eq_empty_of_forall_notMem fun q hq => by cases hq.1
  rw [hset]
  refine Kept.holding ((kept_open sid cnt).of_eq rfl rfl rfl rfl) fun h0 => ?_
  have hpos : 0 < 0 := h0.1
  omega

theorem good_run (sid : UInt8) (cnt : ℕ) (bound : SockAddr) (as : List Call)
    (hm : Proc.Meets exec (fun x a => Near x a ∧ Counts x a) (init sid cnt bound) as)
    (hf : (Proc.run exec (init sid cnt bound) as).fault = none) :
    Good (Proc.run exec (init sid cnt bound) as).obj := by
  have h : Proc.Holds (fun _ x => Good x) (fun _ _ => True)
      (Proc.run exec (init sid cnt bound) as) :=
    Proc.run_inv exec_triple (good_init sid cnt bound) hm
  exact h.alive hf

theorem closes_scanned {x : Recver} (h : Good x) {a : Call} (ha : Closes x a) :
    ∃ y, AppAcks.exec a x.app = pure y ∧ Scanned x.app.sock y.sock := by
  obtain ⟨k, hk, hvalid⟩ := h
  obtain ⟨hnum, hgap⟩ := ha
  rcases a with ⟨r, fresh, stack, io⟩ | ⟨stack, io⟩ | ⟨now, stack, ioAck, ioNak⟩
  · obtain ⟨hd, b, harr, hop, hsid, hseq⟩ := number_recv.mp hnum
    obtain ⟨rfl, -⟩ := hvalid hd
    rcases handleCanRecv_cases x.app.sock fresh stack r with ⟨hno, -⟩ |
      ⟨c, src, harr', hco, -, -, -, ⟨-, hp⟩ | ⟨hop', -⟩⟩
    · exact absurd ⟨hsid, Or.inl hop⟩ (hno b harr)
    · rw [arrives_unique harr harr'] at hseq
      obtain ⟨t, ht, hscan⟩ := odata_closes (b := c.decHeadData 8)
        (hk.kept.of_eq (t := { x.app.sock with pMem := some c, addrSender := src }) rfl rfl rfl rfl)
        ((get64_seqNo hco).trans hseq) hgap
      refine ⟨⟨t, true⟩, ?_, ⟨?_, hscan.validPkgBegin, hscan.le, hscan.run, hscan.last,
        hscan.next, hscan.latest⟩⟩
      · rw [exec_recv hd, hp, ht, Eff.pure_bind]
        simp
      · obtain ⟨n, hn⟩ := hscan.loops
        exact ⟨n, fun fuel hfuel => ⟨(hn fuel hfuel).findEnd, (hn fuel hfuel).findBegin⟩⟩
    · rw [arrives_unique harr harr', hop'] at hop
      exact absurd hop (by decide)
  · cases hnum
  · cases hnum

/-- **The reorder buffer of a receiver that is drained**, and what the packet does that closes the
gap before it, in every run in which the 64-bit numbers do not come to their end. -/
theorem drained_buffer (sid : UInt8) (cnt : ℕ) (bound : SockAddr) (as : List Call)
    (hm : Proc.Meets exec (fun x a => Near x a ∧ Counts x a) (init sid cnt bound) as)
    (hf : (Proc.run exec (init sid cnt bound) as).fault = none)
    (hd : (Proc.run exec (init sid cnt bound) as).obj.app.draining = false) :
    Buffer (Proc.run exec (init sid cnt bound) as).obj.got
        (Proc.run exec (init sid cnt bound) as).obj.app.sock ∧
      ∀ a, Closes (Proc.run exec (init sid cnt bound) as).obj a →
        ∃ y, AppAcks.exec a (Proc.run exec (init sid cnt bound) as).obj.app = pure y ∧
          Scanned (Proc.run exec (init sid cnt bound) as).obj.app.sock y.sock := by
  have hgood := good_run sid cnt bound as hm hf
  refine ⟨?_, fun a ha => closes_scanned hgood ha⟩
  obtain ⟨k, hk, hvalid⟩ := hgood
  obtain ⟨rfl, -⟩ := hvalid hd
  exact buffer_of_kept hk.kept

/-- Packet `q` of sender 7, with one byte of payload. -/
def odata (q : ℕ) : Call :=
  .recv (.dgram ⟨9, 9⟩ (odataBytes 7 q [65])) (fun _ => 0) (fun _ => 0) .sent

/-- Packets 3 and 2 have arrived; packet 1 closes the gap. -/
theorem drained_buffer_two :
    Buffer (Proc.run exec (init 7 1 ⟨1, 1⟩) [odata 3, odata 2]).obj.got
        (Proc.run exec (init 7 1 ⟨1, 1⟩) [odata 3, odata 2]).obj.app.sock ∧
      ∀ a, Closes (Proc.run exec (init 7 1 ⟨1, 1⟩) [odata 3, odata 2]).obj a →
        ∃ y, AppAcks.exec a (Proc.run exec (init 7 1 ⟨1, 1⟩) [odata 3, odata 2]).obj.app = pure y ∧
          Scanned (Proc.run exec (init 7 1 ⟨1, 1⟩) [odata 3, odata 2]).obj.app.sock y.sock := by
  have hcounts : ∀ (x : Recver) q, number x.app (odata q) = some q →
      x.app.sock.latestRecvedValidSeqNo = 0 → q ≤ 3 →
      Near x (odata q) ∧ Counts x (odata q) := fun x q hq h0 hle => by
    refine ⟨fun r hr => ?_, fun r _ _ => by omega⟩
    have heq : q = r := Option.some.inj (hq.symm.trans hr)
    unfold unorderedPkgsCnt
    omega
  exact drained_buffer 7 1 ⟨1, 1⟩ [odata 3, odata 2]
    ⟨hcounts _ 3 rfl rfl (by omega), hcounts _ 2 rfl rfl (by omega), trivial⟩ rfl rfl

/-! ### The end of the numbers -/

/-- Packet `n` arrives and is handed out. -/
def round (n : ℕ) : List Call := [odata n, take, take]

/-- The packets `1, ..., n`, one after the other. -/
def rounds (n : ℕ) : List Call := (numbers n).flatMap round

/-- The receiver once the packets `1, ..., n` are handed out; the counter stands at `L`. -/
structure Rested (n L : ℕ) (p : Proc Recver Ev Fault) : Prop where
  fault : p.fault = none
  draining : p.obj.app.draining = false
  mem : p.obj.app.sock.pMem = none
  senderId : p.obj.app.sock.senderId = 7
  latest : p.obj.app.sock.latestRecvedValidSeqNo = L
  unvalidBegin : p.obj.app.sock.unvalidPkgBegin = 0
  unvalidEnd : p.obj.app.sock.unvalidPkgEnd = 0
  validBegin : p.obj.app.sock.validPkgBegin = 0
  slots : ∀ i, p.obj.app.sock.vecUnvalidPkgs i = none
  got : ∀ q, 1 ≤ q → q ≤ n → q ∈ p.obj.got

theorem odata_call {x : Recver} {q : ℕ} (hd : x.app.draining = false)
    (hmem : x.app.sock.pMem = none) (hsid : x.app.sock.senderId = 7) (hq : q < 2 ^ 64) :
    number x.app (odata q) = some q ∧ ∃ (b : CMemBlock) (src : SockAddr),
      (b.decHeadData 8).get64 0 = q ∧ 0 < ((b.decHeadData 8).decHeadData 8).len ∧
      ∀ ret t, recvepHandleOdata { x.app.sock with pMem := some b, addrSender := src }
          (b.decHeadData 8) = pure (ret, t) →
        (exec (odata q) x).res = .ok ⟨⟨t, ret = .odataReady⟩, q :: x.got⟩ := by
  have hdata : IsOdata 7 q [65] (odataBytes 7 q [65]) :=
    isOdata_odataBytes 7 hq (by show 16 + 1 ≤ maxMemSize; decide)
  have hne : odataBytes 7 q [65] ≠ [] := fun h0 => by
    have := hdata.len
    rw [h0] at this
    simp at this
  obtain ⟨b, hrecv, hbo, hbl, hbd⟩ := udpRecv_dgram
    (rfl : (CMemBlock.new fun _ => 0).offset = 0) rfl ⟨9, 9⟩ hne hdata.fits
  have hb : Received b (odataBytes 7 q [65]) := ⟨hbo, hbl, hbd⟩
  have harr : Arrives x.app.sock.pMem (fun _ => 0) (.dgram ⟨9, 9⟩ (odataBytes 7 q [65])) b :=
    ⟨⟨9, 9⟩, by rw [hmem]; exact hrecv⟩
  have hlen := hdata.len
  have hop : b.get8 3 = epData := (hb.get8_opcode (by omega)).trans hdata.op
  have hid : b.get8 4 = x.app.sock.senderId :=
    (hb.get8_srcId (by omega)).trans (hdata.sid.trans hsid.symm)
  have hseq : (b.decHeadData 8).get64 0 = q := (hb.get64 0 (by omega)).trans hdata.seq
  have hpay : ((b.decHeadData 8).decHeadData 8).data = [65] :=
    (hb.payload hdata.len hdata.fits).1.trans hdata.pay
  have hnum : number x.app (odata q) = some q :=
    number_recv.mpr ⟨hd, b, harr, hop, hid, (get64_seqNo hbo).symm.trans hseq⟩
  refine ⟨hnum, ?_⟩
  rcases handleCanRecv_cases x.app.sock (fun _ => 0) (fun _ => 0)
    (.dgram ⟨9, 9⟩ (odataBytes 7 q [65])) with ⟨hno, -⟩ | ⟨c, src, harr', -, -, -, -, ⟨-, hp⟩ |
    ⟨hop', -⟩⟩
  · exact absurd ⟨hid, Or.inl hop⟩ (hno b harr)
  · obtain rfl : b = c := arrives_unique harr harr'
    refine ⟨b, src, hseq, ?_, fun ret t ht => ?_⟩
    · have hone := CMemBlock.length_data ((b.decHeadData 8).decHeadData 8)
      rw [hpay] at hone
      rw [← hone]
      exact Nat.one_pos
    · have hexec : AppAcks.exec (odata q) x.app = pure ⟨t, ret = .odataReady⟩ := by
        show AppAcks.exec (.recv (.dgram ⟨9, 9⟩ (odataBytes 7 q [65])) (fun _ => 0) (fun _ => 0)
          .sent) x.app = _
        rw [exec_recv hd, hp, ht, Eff.pure_bind]
      simp only [exec, hexec, hnum]
      rfl
  · rw [arrives_unique harr harr', hop'] at hop
    exact absurd hop (by decide)

theorem take_mem {x : Recver} {p : CMemBlock} (hp : x.app.sock.pMem = some p) (hlen : 0 < p.len) :
    (exec take x).res = .ok ⟨⟨{ x.app.sock with pMem := none }, true⟩, x.got⟩ := by
  have hexec : AppAcks.exec take x.app =
      ⟨[.recved (some p)], .ok ⟨{ x.app.sock with pMem := none }, true⟩⟩ :=
    exec_next_some (getNext_mem hp hlen (fun _ => 0) .sent)
  simp only [exec, hexec]
  rfl

theorem setAck_sent (s : RecvSock) (stack : ℕ → UInt8) :
    ∃ u, (setAck s false stack .sent).res = .ok u := by
  unfold setAck
  by_cases h : 0 < s.latestRecvedValidSeqNo ∧
      (false ∨ s.sendAckCnt ≤ sub64 s.latestRecvedValidSeqNo s.appConfirmAckTmp)
  · rw [if_pos h]
    exact ⟨_, rfl⟩
  · rw [if_neg h]
    exact ⟨_, rfl⟩

theorem take_none {x : Recver} (hp : x.app.sock.pMem = none) (hv : x.app.sock.validPkgBegin = 0) :
    ∃ u, Same { x.app.sock with validPkgBegin := 0, validPkgEnd := 0 } u ∧
      (exec take x).res = .ok ⟨⟨u, false⟩, x.got⟩ := by
  have hmem : x.app.sock.pMem.filter (0 < ·.len) = none := by rw [hp]; rfl
  have hmore : ¬ (0 < x.app.sock.validPkgBegin ∧
      x.app.sock.validPkgBegin ≤ x.app.sock.validPkgEnd) := by
    rw [hv]; omega
  have hnext := exec_next_none (getNext_none hmem hmore (fun _ => 0) .sent)
  have hq := setAck_quiet { x.app.sock with validPkgBegin := 0, validPkgEnd := 0 } false
    (fun _ => 0) .sent
  obtain ⟨u, hu⟩ := setAck_sent { x.app.sock with validPkgBegin := 0, validPkgEnd := 0 }
    (fun _ => 0)
  refine ⟨u, hq.ok u hu, ?_⟩
  have hexec : (AppAcks.exec take x.app).res = .ok ⟨u, false⟩ := by
    show (AppAcks.exec (.next (fun _ => 0) .sent) x.app).res = _
    rw [hnext, Eff.bind_of_ok hu]
    rfl
  rcases hx : AppAcks.exec take x.app with ⟨evs, f | y⟩
  · rw [hx] at hexec; cases hexec
  · rw [hx] at hexec
    cases hexec
    simp only [exec, hx]
    rfl

/-- The next packet, with an empty buffer: the counter counts it, and packet `2 ^ 64 - 1` makes it
start again. -/
theorem odata_ready {n : ℕ} {b : CMemBlock} (hL : s.latestRecvedValidSeqNo = n)
    (hub : s.unvalidPkgBegin = 0) (hue : s.unvalidPkgEnd = 0) (hvb : s.validPkgBegin = 0)
    (hn : n + 1 < 2 ^ 64) (hseq : b.get64 0 = n + 1) :
    ∃ t, recvepHandleOdata s b = pure (.odataReady, t) ∧ t.pMem = some (b.decHeadData 8) ∧
      t.senderId = s.senderId ∧
      t.latestRecvedValidSeqNo = (if n + 1 = 2 ^ 64 - 1 then 0 else n + 1) ∧
      t.unvalidPkgBegin = 0 ∧ t.unvalidPkgEnd = 0 ∧ t.validPkgBegin = 0 ∧
      t.vecUnvalidPkgs = s.vecUnvalidPkgs := by
  have hu : u64 (1 + s.latestRecvedValidSeqNo) = n + 1 := by
    rw [hL, Nat.add_comm]; exact u64_of_lt hn
  have hu1 : u64 (s.latestRecvedValidSeqNo + 1) = n + 1 := by rw [hL]; exact u64_of_lt hn
  by_cases hend : n + 1 = 2 ^ 64 - 1
  · have hu2 : u64 (n + 1 + 1) = 0 := by rw [hend]; rfl
    refine ⟨{ s with
      pMem := some (b.decHeadData 8)
      latestRecvedValidSeqNo := 0
      unvalidPkgBegin := 0
      unvalidPkgEnd := 0
      validPkgBegin := 0
      validPkgEnd := 0 }, ?_, rfl, rfl, (if_pos hend).symm, rfl, rfl, rfl, rfl⟩
    simp only [recvepHandleOdata, hseq, hu, hu1, hu2, hub, if_true, activate, hue, Nat.sub_self,
      findValidPkgEnd, Nat.lt_irrefl, if_false]
  · have hu2 : u64 (n + 1 + 1) = n + 2 := u64_of_lt (by omega)
    have hne : ¬ n + 2 = 0 := by omega
    refine ⟨{ s with pMem := some (b.decHeadData 8), latestRecvedValidSeqNo := n + 1 }, ?_, rfl,
      rfl, (if_neg hend).symm, hub, hue, hvb, rfl⟩
    simp only [recvepHandleOdata, hseq, hu, hu1, hu2, hub, if_true, if_neg hne]

theorem rested_round {n : ℕ} {p : Proc Recver Ev Fault} (h : Rested n n p) (hn : n + 1 < 2 ^ 64) :
    Rested (n + 1) (if n + 1 = 2 ^ 64 - 1 then 0 else n + 1)
        (Proc.run exec p (round (n + 1))) ∧
      Proc.Meets exec Near p (round (n + 1)) := by
  obtain ⟨hnum, b, src, hseq, hlen, hcall⟩ := odata_call h.draining h.mem h.senderId hn
  obtain ⟨t, ht, hmem, hsid, hlat, hub, hue, hvb, hslots⟩ := odata_ready
    (s := { p.obj.app.sock with pMem := some b, addrSender := src }) h.latest h.unvalidBegin
    h.unvalidEnd h.validBegin hn hseq
  have h1 := hcall _ t ht
  have h2 := take_mem (x := ⟨⟨t, Cmnerr.odataReady = .odataReady⟩, (n + 1) :: p.obj.got⟩) hmem hlen
  obtain ⟨u, hsame, h3⟩ := take_none (x := ⟨⟨{ t with pMem := none }, true⟩, (n + 1) :: p.obj.got⟩)
    rfl hvb
  obtain ⟨log, hrun⟩ : ∃ log, Proc.run exec p (round (n + 1)) =
      ⟨⟨⟨u, false⟩, (n + 1) :: p.obj.got⟩, log, none⟩ := by
    show ∃ log, ((p.call (exec (odata (n + 1)))).call (exec take)).call (exec take) = _
    rw [Proc.call_ok h.fault h1, Proc.call_ok (p := ⟨_, _, none⟩) rfl h2,
      Proc.call_ok (p := ⟨_, _, none⟩) rfl h3]
    exact ⟨_, rfl⟩
  rw [hrun]
  refine ⟨⟨rfl, rfl, hsame.pMem, hsame.senderId.trans (hsid.trans h.senderId),
    hsame.latest.trans hlat, hsame.unvalidPkgBegin.trans hub, hsame.unvalidPkgEnd.trans hue,
    hsame.validPkgBegin, fun i => ?_, fun q h1 h2 => ?_⟩, fun q hq => ?_, ?_, ?_, trivial⟩
  · show u.vecUnvalidPkgs i = none
    rw [hsame.vecUnvalidPkgs]
    show t.vecUnvalidPkgs i = none
    rw [hslots]
    exact h.slots i
  · rcases Nat.lt_or_eq_of_le h2 with hlt | rfl
    · exact List.mem_cons_of_mem _ (h.got q h1 (by omega))
    · exact List.mem_cons_self
  · have hlatest := h.latest
    have heq : n + 1 = q := Option.some.inj (hnum.symm.trans hq)
    unfold unorderedPkgsCnt
    omega
  · exact fun q hq => by cases hq
  · exact fun q hq => by cases hq

theorem rested_rounds : ∀ n, n < 2 ^ 64 - 1 →
    Rested n n (Proc.run exec (init 7 1 ⟨1, 1⟩) (rounds n)) ∧
      Proc.Meets exec Near (init 7 1 ⟨1, 1⟩) (rounds n)
  | 0, _ => ⟨⟨rfl, rfl, rfl, rfl, rfl, rfl, rfl, rfl, fun _ => rfl, fun q h1 h2 => by omega⟩,
      trivial⟩
  | n + 1, hn => by
    obtain ⟨h1, h2⟩ := rested_rounds n (by omega)
    obtain ⟨h3, h4⟩ := rested_round h1 (by omega)
    have hne : ¬ n + 1 = 2 ^ 64 - 1 := by omega
    rw [if_neg hne] at h3
    have hsucc : rounds (n + 1) = rounds n ++ round (n + 1) := by
      unfold rounds
      rw [numbers_append, List.flatMap_append]
      simp
    rw [hsucc, Proc.run_append]
    exact ⟨h3, Proc.meets_append.mpr ⟨h2, h4⟩⟩

/-- Every packet a 64-bit number can name was handed out, and the counter stands at 0 again. -/
theorem rested_all : ∃ as : List Call, Proc.Meets exec Near (init 7 1 ⟨1, 1⟩) as ∧
    Rested (2 ^ 64 - 1) 0 (Proc.run exec (init 7 1 ⟨1, 1⟩) as) := by
  obtain ⟨n, hn⟩ : ∃ n, n + 1 = 2 ^ 64 - 1 := ⟨2 ^ 64 - 2, by omega⟩
  obtain ⟨h1, h2⟩ := rested_rounds n (by omega)
  obtain ⟨h3, h4⟩ := rested_round h1 (by omega)
  rw [if_pos hn] at h3
  refine ⟨rounds n ++ round (n + 1), Proc.meets_append.mpr ⟨h2, h4⟩, ?_⟩
  rw [Proc.run_append, ← hn]
  exact h3

theorem odata_again {b : CMemBlock} (hL : s.latestRecvedValidSeqNo = 0)
    (hub : s.unvalidPkgBegin = 0) (hfree : s.vecUnvalidPkgs (2 % unorderedPkgsCnt) = none)
    (hseq : b.get64 0 = 2) :
    recvepHandleOdata s b = pure (.suc, { s with
      unvalidPkgBegin := 2
      unvalidPkgEnd := 2
      vecUnvalidPkgs := Function.update s.vecUnvalidPkgs (2 % unorderedPkgsCnt)
        (some (b.decHeadData 8))
      pMem := none }) := by
  have hne : ¬ 2 = u64 (1 + 0) := by decide
  have hgt : ¬ 2 ≤ 0 := by omega
  simp only [recvepHandleOdata, hseq, hL, if_neg hne, if_neg hgt, widen, hub, if_true,
    Eff.pure_bind, Eff.require_pos hfree]

/-- **The end of the numbers.** All packets from 1 to `2 ^ 64 - 1` are handed out, and then packet 2
arrives once more: the counter stands at 0 again, so the packet is kept, and packet 1 counts as
missing. -/
theorem buffer_wraps : ∃ as : List Call, Proc.Meets exec Near (init 7 1 ⟨1, 1⟩) as ∧
    (Proc.run exec (init 7 1 ⟨1, 1⟩) as).fault = none ∧
    (Proc.run exec (init 7 1 ⟨1, 1⟩) as).obj.app.draining = false ∧
    ¬ Buffer (Proc.run exec (init 7 1 ⟨1, 1⟩) as).obj.got
      (Proc.run exec (init 7 1 ⟨1, 1⟩) as).obj.app.sock := by
  obtain ⟨as, hm, h⟩ := rested_all
  obtain ⟨hnum, b, src, hseq, -, hcall⟩ := odata_call (q := 2) h.draining h.mem h.senderId
    (by omega)
  have hres := hcall _ _ (odata_again h.latest h.unvalidBegin (h.slots _) hseq)
  have hrun : Proc.run exec (init 7 1 ⟨1, 1⟩) (as ++ [odata 2]) =
      (Proc.run exec (init 7 1 ⟨1, 1⟩) as).call (exec (odata 2)) := Proc.run_append _ _ _
  refine ⟨as ++ [odata 2], Proc.meets_append.mpr ⟨hm, fun q hq => ?_, trivial⟩, ?_⟩
  · have heq : 2 = q := Option.some.inj (hnum.symm.trans hq)
    unfold unorderedPkgsCnt
    omega
  rw [hrun, Proc.call_ok h.fault hres]
  refine ⟨rfl, rfl, ?_⟩
  rintro (⟨h0, -⟩ | ⟨-, -, hslots⟩)
  · cases h0
  · have hone := h.got 1 (Nat.le_refl _) (by omega)
    have hlat := h.latest
    have hfree := h.slots 1
    refine (hslots 1).mpr ⟨1, List.mem_cons_of_mem _ hone, ?_, ?_, rfl⟩ ?_
    · show (Proc.run exec (init 7 1 ⟨1, 1⟩) as).obj.app.sock.latestRecvedValidSeqNo < 1
      omega
    · show 1 ≤ 2
      omega
    · have hne : 1 ≠ 2 % unorderedPkgsCnt := by decide
      exact (Function.update_of_ne hne (some ((b.decHeadData 8).decHeadData 8)) _).trans hfree

end SmartNet.Network.Rmp.ReorderScan

import Mathlib.Data.List.GetD
import Mathlib.Logic.Relation
import SmartNet.Lib.Run
import SmartNet.Network.Rup.RecvData
import SmartNet.Pkg.Dispatcher

/-! # Room to receive

`handle_input_evt` receives into what is free behind the data of the block, and the dispatcher works
on the block; this goes on until one of them fails. The dispatcher does not compare the length in a
header with the size of a block, so it waits for the rest of packages that never fit. The block
fills up, `::recv` is called for 0 bytes, and its result 0 is taken for a shutdown of the peer.

* `dispatchFun_after`: when `dispatch_fun` returns, the declared length was taken off the block;
* `dispatch_stops`: where `dispatch` stops, and how it leaves the block there;
* `room_iff_fitting`: there is always room exactly in the runs whose headers declare no more than a
  block. -/

namespace SmartNet.Pkg.RecvRoom

open SmartNet.Common SmartNet.Lib SmartNet.Lib.Mem SmartNet.Lib.Run SmartNet.Memory.MemBlock
open SmartNet.Pkg.Header SmartNet.Pkg.Dispatcher SmartNet.Network.Rup.RecvData

/-- What the kernel does with a call of `::recv`: it hands out at most `k + 1` bytes, or fails. -/
inductive Kernel
  | bytes (k : ℕ)
  | wouldBlock
  | intr
  | err

/-- How `::recv` ends for a buffer of `size` bytes, if the peer still sends `stream` and then shuts
down. -/
def Kernel.recv (stream : List UInt8) (size : ℕ) : Kernel → RecvIo
  | .bytes k => .got (stream.take (min (k + 1) size))
  | .wouldBlock => .wouldBlock
  | .intr => .intr
  | .err => .err

/-- The receiving side of a connection: its block, what the peer still sends, and whether the loop
goes on. -/
structure Loop where
  pRecvedData : Option CMemBlock
  stream : List UInt8
  running : Bool

/-- A new connection. -/
def Loop.new (stream : List UInt8) : Loop := ⟨none, stream, true⟩

/-- An input event: the memory of a new block, the kernel, and a bound on the rounds of the
dispatcher. -/
structure Input where
  fresh : ℕ → UInt8
  kernel : Kernel
  fuel : ℕ

/-- The size `::recv` is called with. -/
def Loop.size (s : Loop) (i : Input) : ℕ := (front s.pRecvedData i.fresh).getTailFreeSize

/-- How `::recv` ends. -/
def Loop.io (s : Loop) (i : Input) : RecvIo := i.kernel.recv s.stream (s.size i)

/-- What the peer still sends after the call. -/
def Loop.rest (s : Loop) (i : Input) : List UInt8 :=
  match s.io i with
  | .got l => s.stream.drop l.length
  | _ => s.stream

/-- The block the dispatcher gets. -/
def Loop.received (s : Loop) (i : Input) : Option CMemBlock :=
  match handleCanRecv s.pRecvedData i.fresh (s.io i) with
  | some (.suc, b) => some b
  | _ => none

/-- `close` was called. -/
def Ev.isClose : Ev → Bool
  | .close => true
  | .dispatched _ => false

/-- `handle_input_evt`, with `on_recved_data` dispatching. -/
def handleInputEvt (dbg : Bool) (funs : ℕ → Option PkgType) (s : Loop) (i : Input) : Loop :=
  if s.running then
    match handleCanRecv s.pRecvedData i.fresh (s.io i) with
    | some (.suc, b) =>
      match dispatch dbg funs pkgVer i.fuel b with
      | some ⟨evs, .ok b'⟩ => ⟨some b', s.rest i, !evs.any Ev.isClose⟩
      | _ => { s with running := false }
    | some (.recvPending, b) => ⟨some b, s.rest i, !dbg⟩
    | _ => { s with running := false }
  else s

/-! ### What there should be -/

/-- There is a header of this version at the front. -/
structure Header (v : UInt8) (b : CMemBlock) : Prop where
  whole : pkgHdrSize ≤ b.len
  ver : CPkgHdr.getVer b.bytes b.offset = v

/-- There is a header at the front, and less than its package. -/
def Incomplete (v : UInt8) (b : CMemBlock) : Prop :=
  Header v b ∧ b.len < CPkgHdr.getLen b.bytes b.offset

/-- The package at the front was refused. -/
def Refused (r : Eff Ev Fault CMemBlock) : Prop := .close ∈ r.evs ∨ ∃ f, r.res = .error f

/-- The dispatcher goes over the package at the front: there are no bodies in it, or their
`dispatch_fun` returns. -/
inductive Passes (funs : ℕ → Option PkgType) (v : UInt8) : CMemBlock → CMemBlock → Prop
  | empty {b : CMemBlock} : Empty v b → Passes funs v b (b.decHeadData pkgHdrSize)
  | complete {b after : CMemBlock} {pkg : PkgType} {fuel : ℕ} {handled : List Handled} :
    Complete funs v b pkg →
      dispatchFun pkg fuel (b.decHeadData pkgHdrSize) (CPkgHdr.getLen b.bytes b.offset - pkgHdrSize)
        = some (handled, after) → Passes funs v b after

/-- The dispatcher comes from `b` to `b'`. -/
def Reaches (funs : ℕ → Option PkgType) (v : UInt8) : CMemBlock → CMemBlock → Prop :=
  Relation.ReflTransGen (Passes funs v)

/-- The input event finds room: `::recv` gets a buffer, its result 0 means that the peer has shut
down, an incomplete package that is left can still fit, and one that cannot is refused. -/
structure RoundOk (dbg : Bool) (funs : ℕ → Option PkgType) (s : Loop) (i : Input) : Prop where
  room : s.running → 0 < s.size i
  shutdown : s.running → s.io i = .got [] → s.stream = []
  fits : s.running → ∀ b ∈ s.received i, ∀ fuel r b', dispatch dbg funs pkgVer fuel b = some r →
    r.res = .ok b' → Incomplete pkgVer b' → CPkgHdr.getLen b'.bytes b'.offset ≤ maxMemSize
  refused : s.running → ∀ b ∈ s.received i, ∀ b', Reaches funs pkgVer b b' → Header pkgVer b' →
    maxMemSize < CPkgHdr.getLen b'.bytes b'.offset →
      ∃ fuel r, dispatch dbg funs pkgVer fuel b = some r ∧ Refused r

/-- Every header the dispatcher comes to declares no more than a block. -/
def Fitting (funs : ℕ → Option PkgType) (s : Loop) (i : Input) : Prop :=
  s.running → ∀ b ∈ s.received i, ∀ b', Reaches funs pkgVer b b' → Header pkgVer b' →
    CPkgHdr.getLen b'.bytes b'.offset ≤ maxMemSize

/-! ### Where `dispatch` stops -/

variable {pkg : PkgType} {dbg : Bool} {funs : ℕ → Option PkgType} {v : UInt8} {b b' : CMemBlock}
  {r : Eff Ev Fault CMemBlock} {s : Loop} {i : Input}

/-- **When `dispatch_fun` returns**, the sizes of the bodies were those of the package up to a
multiple of `2 ^ 32`, so just the package was taken off. -/
theorem dispatchFun_after : ∀ {fuel : ℕ} {b after : CMemBlock} {k : ℕ} {hs : List Handled},
    b.offset < 2 ^ 32 → b.len < 2 ^ 32 → k < 2 ^ 32 → dispatchFun pkg fuel b k = some (hs, after) →
      after = b.decHeadData k
  | fuel + 1, b, after, k, hs, ho, hl, hk, h => by
    unfold dispatchFun at h
    split_ifs at h with hpos
    · obtain ⟨⟨hs', after'⟩, hrec, heq⟩ := Option.map_eq_some_iff.mp h
      obtain ⟨rfl, rfl⟩ := Prod.mk.inj heq
      have hn := pkg.realSize_lt b.get8
      rw [dispatchFun_after (b := b.decHeadData (pkg.realSize b.get8)) (u32_lt _) (u32_lt _)
        (u32_lt _) hrec]
      set n := pkg.realSize b.get8
      have hoff : u32 (u32 (b.offset + n) + sub32 k n) = u32 (b.offset + k) := by
        unfold sub32 u32; omega
      have hlen : sub32 (sub32 b.len n) (sub32 k n) = sub32 b.len k := by
        unfold sub32 u32; omega
      show CMemBlock.mk b.bytes b.initOffset (u32 (u32 (b.offset + n) + sub32 k n))
        (sub32 (sub32 b.len n) (sub32 k n)) = _
      rw [hoff, hlen]; rfl
    · obtain ⟨-, rfl⟩ := Prod.mk.inj (Option.some.inj h)
      obtain rfl : k = 0 := by omega
      have hoff : u32 (b.offset + 0) = b.offset := u32_of_lt ho
      have hlen : sub32 b.len 0 = b.len := sub32_of_le hl (Nat.zero_le _)
      rw [CMemBlock.decHeadData, hoff, hlen]

theorem Passes.fits (h : Passes funs v b b') (hb : b.Fits) : b'.Fits := by
  rcases h with h | ⟨h, hrun⟩
  · exact (hb.decHeadData h.whole).1
  · obtain ⟨hfit, -, -, -, hafter⟩ := h.area hb
    have hlong := h.long
    have hwhole := h.whole
    have hl := hb.len_lt
    rw [dispatchFun_after hfit.offset_lt hfit.len_lt (by omega) hrun, hafter]
    exact (hb.decHeadData hwhole).1

theorem Reaches.fits (h : Reaches funs v b b') (hb : b.Fits) : b'.Fits := by
  induction h with
  | refl => exact hb
  | tail _ hpass ih => exact hpass.fits ih

theorem refused_refuse (dbg : Bool) (f : Fault) (b : CMemBlock) : Refused (refuse dbg f b) := by
  rcases dbg with - | -
  · exact Or.inl List.mem_cons_self
  · exact Or.inr ⟨f, rfl⟩

theorem refuse_ok {f : Fault} (h : (refuse dbg f b).res = .ok b') : b' = b := by
  rcases dbg with - | -
  · exact (Except.ok.inj h).symm
  · cases h

theorem not_refused_pure (b : CMemBlock) : ¬ Refused (pure b : Eff Ev Fault CMemBlock) := by
  rintro (h | ⟨f, h⟩)
  · exact absurd h List.not_mem_nil
  · cases h

theorem getLen_moveDataAhead (h : pkgHdrSize ≤ b.len) :
    CPkgHdr.getLen b.moveDataAhead.bytes b.moveDataAhead.offset =
      CPkgHdr.getLen b.bytes b.offset := by
  have h4 : 4 ≤ b.len := Nat.le_trans (by decide) h
  have hdata : rd b.moveDataAhead.bytes b.moveDataAhead.offset b.len = rd b.bytes b.offset b.len :=
    (congrArg _ b.moveDataAhead_len.symm).trans b.moveDataAhead_data
  unfold CPkgHdr.getLen
  rw [← rd_take h4, hdata, rd_take h4]

theorem refused_dispatched (c : Call) (r : Eff Ev Fault CMemBlock) :
    Refused ⟨.dispatched c :: r.evs, r.res⟩ ↔ Refused r := by
  unfold Refused
  simp

/-- **Where `dispatch` stops**: at less than a header, at a part of a package, or at a package it
refuses. -/
theorem dispatch_stops : ∀ {fuel : ℕ} {b : CMemBlock} {r : Eff Ev Fault CMemBlock}, b.Fits →
    dispatch dbg funs v fuel b = some r →
      (Refused r ∧ ∀ b', r.res = .ok b' → ¬ Incomplete v b') ∨
        ∃ b', Reaches funs v b b' ∧ ¬ Refused r ∧
          (b'.len < pkgHdrSize ∧ r.res = .ok b' ∨ Incomplete v b' ∧ r.res = .ok b'.moveDataAhead)
  | fuel + 1, b, r, hb, h => by
    by_cases hempty : Empty v b
    · rw [dispatch_empty hempty] at h
      have hpass : Passes funs v b _ := .empty hempty
      rcases dispatch_stops (hpass.fits hb) h with href | ⟨b', hreach, hstop⟩
      · exact Or.inl href
      · exact Or.inr ⟨b', .head hpass hreach, hstop⟩
    by_cases hcomplete : ∃ pkg, Complete funs v b pkg
    · obtain ⟨pkg, hpkg⟩ := hcomplete
      rw [dispatch_complete hpkg hb] at h
      rcases hrun : dispatchFun pkg fuel (b.decHeadData pkgHdrSize)
        (CPkgHdr.getLen b.bytes b.offset - pkgHdrSize) with - | ⟨hs, after⟩
      · rw [hrun] at h; cases h
      · rw [hrun] at h
        obtain ⟨r', hr', rfl⟩ := Option.map_eq_some_iff.mp h
        have hpass : Passes funs v b after := .complete hpkg hrun
        rw [refused_dispatched]
        rcases dispatch_stops (hpass.fits hb) hr' with href | ⟨b', hreach, hstop⟩
        · exact Or.inl href
        · exact Or.inr ⟨b', .head hpass hreach, hstop⟩
    · unfold dispatch at h
      dsimp only at h
      split_ifs at h with h1 h2 h3 h4
      · obtain rfl := Option.some.inj h
        exact Or.inr ⟨b, .refl, not_refused_pure b, Or.inl ⟨h1, rfl⟩⟩
      · obtain rfl := Option.some.inj h
        refine Or.inl ⟨refused_refuse dbg _ b, fun b' hb' hinc => ?_⟩
        obtain rfl := refuse_ok hb'
        rcases h2 with hver | hlen
        · exact hver hinc.1.ver
        · have hwhole := hinc.1.whole
          have hmore := hinc.2
          omega
      · push Not at h2
        exact absurd ⟨h2.1, h3, by omega⟩ hempty
      · obtain rfl := Option.some.inj h
        push Not at h2
        exact Or.inr ⟨b, .refl, not_refused_pure _, Or.inr ⟨⟨⟨by omega, h2.1⟩, h4⟩, rfl⟩⟩
      · push Not at h2
        rcases hf : funs (CPkgHdr.getOpcode b.bytes b.offset) with - | pkg
        · rw [hf] at h
          obtain rfl := Option.some.inj h
          refine Or.inl ⟨refused_refuse dbg _ b, fun b' hb' hinc => ?_⟩
          obtain rfl := refuse_ok hb'
          exact h4 hinc.2
        · exact absurd ⟨pkg, h2.1, by omega, by omega, hf⟩ hcomplete

theorem dispatch_reaches (hreach : Reaches funs v b b') (hb : b.Fits) : ∀ {fuel : ℕ}
    {r : Eff Ev Fault CMemBlock}, dispatch dbg funs v fuel b = some r → Refused r →
      ∃ fuel' r', dispatch dbg funs v fuel' b' = some r' ∧ Refused r' := by
  induction hreach using Relation.ReflTransGen.head_induction_on with
  | refl => exact fun h href => ⟨_, _, h, href⟩
  | head hpass _ ih =>
    rintro (- | fuel) r h href
    · cases h
    have hfit := hpass.fits hb
    rcases hpass with hempty | ⟨hpkg, hrun⟩
    · rw [dispatch_empty hempty] at h
      exact ih hfit h href
    · rename_i after pkg fuel' hs
      obtain ⟨hfit1, -, -, -, -⟩ := hpkg.area hb
      have hlong := hpkg.long
      have hwhole := hpkg.whole
      have hl := hb.len_lt
      have hafter := dispatchFun_after hfit1.offset_lt hfit1.len_lt (by omega) hrun
      rw [dispatch_complete hpkg hb] at h
      rcases hrun2 : dispatchFun pkg fuel _ _ with - | ⟨hs2, after2⟩
      · rw [hrun2] at h; cases h
      · rw [hrun2] at h
        obtain ⟨r', hr', rfl⟩ := Option.map_eq_some_iff.mp h
        rw [refused_dispatched] at href
        rw [dispatchFun_after hfit1.offset_lt hfit1.len_lt (by omega) hrun2, ← hafter] at hr'
        exact ih hfit hr' href

/-! ### An input event -/

/-- Nothing lies in the block that does not fit, and there is room behind it. -/
def HasRoom (s : Loop) : Prop := s.running → ∀ b ∈ s.pRecvedData, b.Fits ∧ b.len < maxMemSize

theorem size_eq (h : ∀ b ∈ s.pRecvedData, b.Fits) (i : Input) :
    s.size i = maxMemSize - (held s.pRecvedData).length := by
  have hfit := front_fits h i.fresh
  have hlen : (front s.pRecvedData i.fresh).len = (held s.pRecvedData).length := by
    rw [← front_data s.pRecvedData i.fresh, CMemBlock.length_data]
  have hoff : (front s.pRecvedData i.fresh).offset = 0 := by
    rcases s.pRecvedData with - | b
    · rfl
    · exact b.moveDataAhead_offset
  unfold Loop.size
  rw [CMemBlock.getTailFreeSize_eq hfit, hoff, hlen, Nat.zero_add]

theorem received_data (h : ∀ b ∈ s.pRecvedData, b.Fits) (hb : b ∈ s.received i) :
    b.Fits ∧ ∃ l, s.io i = .got l ∧ b.data = held s.pRecvedData ++ l := by
  unfold Loop.received at hb
  rcases hio : s.io i with l | _ | _ | _
  · have hroom : l.length ≤ s.size i := by
      unfold Loop.io at hio
      rcases hk : i.kernel with k | _ | _ | _
      · rw [hk] at hio
        obtain rfl : s.stream.take (min (k + 1) (s.size i)) = l := RecvIo.got.inj hio
        rw [List.length_take]
        omega
      all_goals rw [hk] at hio; cases hio
    by_cases hl : l = []
    · rw [hio, hl] at hb
      cases hb
    · obtain ⟨b', heq, hfit, hdata⟩ := handleCanRecv_got h hl hroom
      rw [hio, heq] at hb
      obtain rfl := Option.some.inj hb
      exact ⟨hfit, l, rfl, hdata⟩
  all_goals rw [hio] at hb; cases hb

theorem handleCanRecv_pending {p : Option CMemBlock} {fresh : ℕ → UInt8} {io : RecvIo}
    (h : handleCanRecv p fresh io = some (.recvPending, b)) : b = front p fresh := by
  rcases io with l | _ | _ | _
  · unfold handleCanRecv at h
    dsimp only at h
    split_ifs at h <;> cases h
  all_goals cases h
  rfl

/-- **An input event after which the loop goes on**: the dispatcher refused nothing, or there was
nothing to dispatch. -/
theorem handleInputEvt_running (h : (handleInputEvt dbg funs s i).running) :
    s.running ∧ ((∃ b ∈ s.received i, ∃ r b', dispatch dbg funs pkgVer i.fuel b = some r ∧
      r.res = .ok b' ∧ ¬ Refused r ∧ (handleInputEvt dbg funs s i).pRecvedData = some b') ∨
      (handleInputEvt dbg funs s i).pRecvedData = some (front s.pRecvedData i.fresh)) := by
  by_cases hrun : s.running
  · refine ⟨hrun, ?_⟩
    unfold handleInputEvt Loop.received at *
    rw [if_pos hrun] at h ⊢
    rcases hrecv : handleCanRecv s.pRecvedData i.fresh (s.io i) with - | ⟨c, b⟩
    · rw [hrecv] at h; cases h
    rw [hrecv] at h
    cases c with
    | suc =>
      rcases hdis : dispatch dbg funs pkgVer i.fuel b with - | ⟨evs, f | b'⟩
      · simp only [hdis] at h; cases h
      · simp only [hdis] at h; cases h
      · simp only [hdis, Bool.not_eq_true'] at h
        refine Or.inl ⟨b, rfl, _, b', hdis, rfl, ?_, by simp only [hdis]⟩
        rintro (hclose | ⟨f, hf⟩)
        · rw [List.any_eq_true.mpr ⟨_, hclose, rfl⟩] at h
          cases h
        · cases hf
    | recvPending => exact Or.inr (congrArg some (handleCanRecv_pending hrecv))
    | _ => cases h
  · unfold handleInputEvt at h
    rw [if_neg hrun] at h
    exact absurd h hrun

theorem HasRoom.fits (hI : HasRoom s) (hrun : s.running) : ∀ b ∈ s.pRecvedData, b.Fits :=
  fun b hb => (hI hrun b hb).1

theorem HasRoom.held_lt (hI : HasRoom s) (hrun : s.running) :
    (held s.pRecvedData).length < maxMemSize := by
  rcases hp : s.pRecvedData with - | b
  · show 0 < maxMemSize
    decide
  · show b.data.length < maxMemSize
    rw [CMemBlock.length_data]
    exact (hI hrun b hp).2

theorem HasRoom.size_pos (hI : HasRoom s) (hrun : s.running) (i : Input) : 0 < s.size i := by
  have hlt := hI.held_lt hrun
  rw [size_eq (hI.fits hrun) i]
  omega

/-- With room in the block, `::recv` gives nothing at the end of the stream only. -/
theorem stream_nil_of_io (hpos : 0 < s.size i) (hio : s.io i = .got []) : s.stream = [] := by
  unfold Loop.io at hio
  rcases hk : i.kernel with k | _ | _ | _
  · rw [hk] at hio
    rcases List.take_eq_nil_iff.mp (RecvIo.got.inj hio) with hz | hnil
    · omega
    · exact hnil
  all_goals rw [hk] at hio; cases hio

/-- A part of a package that the dispatcher leaves is at the front of a block it has come to. -/
theorem left_of_dispatch {fuel : ℕ} {r : Eff Ev Fault CMemBlock} (hfit : b.Fits)
    (h : ∀ b1, Reaches funs pkgVer b b1 → Header pkgVer b1 →
      CPkgHdr.getLen b1.bytes b1.offset ≤ maxMemSize)
    (hr : dispatch dbg funs pkgVer fuel b = some r) (hres : r.res = .ok b') (href : ¬ Refused r) :
    b'.Fits ∧ (b'.len < pkgHdrSize ∨ b'.len < CPkgHdr.getLen b'.bytes b'.offset ∧
      CPkgHdr.getLen b'.bytes b'.offset ≤ maxMemSize) := by
  rcases dispatch_stops hfit hr with ⟨h1, -⟩ | ⟨b0, hreach, -, ⟨hlen, hres0⟩ | ⟨hinc, hres0⟩⟩
  · exact absurd h1 href
  · obtain rfl := Except.ok.inj (hres.symm.trans hres0)
    exact ⟨hreach.fits hfit, Or.inl hlen⟩
  · obtain rfl := Except.ok.inj (hres.symm.trans hres0)
    rw [getLen_moveDataAhead hinc.1.whole, CMemBlock.moveDataAhead_len]
    exact ⟨(hreach.fits hfit).moveDataAhead, Or.inr ⟨hinc.2, h b0 hreach hinc.1⟩⟩

theorem roundOk_of_fitting (dbg : Bool) (hI : HasRoom s) (h : Fitting funs s i) :
    RoundOk dbg funs s i := by
  refine ⟨fun hrun => hI.size_pos hrun i,
    fun hrun hio => stream_nil_of_io (hI.size_pos hrun i) hio, ?_, ?_⟩
  · intro hrun b hb fuel r b' hr hres hinc
    obtain ⟨hfit, -⟩ := received_data (hI.fits hrun) hb
    by_cases href : Refused r
    · rcases dispatch_stops hfit hr with ⟨-, h1⟩ | ⟨-, -, h1, -⟩
      · exact absurd hinc (h1 b' hres)
      · exact absurd href h1
    · have hwhole := hinc.1.whole
      rcases (left_of_dispatch hfit (h hrun b hb) hr hres href).2 with hlen | ⟨-, hle⟩
      · omega
      · exact hle
  · intro hrun b hb b' hreach hhdr hlarge
    have hle := h hrun b hb b' hreach hhdr
    omega

theorem hasRoom_of_fitting (dbg : Bool) (hI : HasRoom s) (h : Fitting funs s i) :
    HasRoom (handleInputEvt dbg funs s i) := by
  intro hrun' b' hb'
  obtain ⟨hrun, ⟨b, hb, r, b1, hr, hres, href, heq⟩ | heq⟩ := handleInputEvt_running hrun'
  · obtain rfl := Option.some.inj (hb'.symm.trans heq)
    obtain ⟨hfit, -⟩ := received_data (hI.fits hrun) hb
    obtain ⟨hfit', hlen⟩ := left_of_dispatch hfit (h hrun b hb) hr hres href
    have hH : pkgHdrSize < maxMemSize := by decide
    unfold CMemBlock.Fits at hfit'
    exact ⟨hfit', by omega⟩
  · obtain rfl := Option.some.inj (hb'.symm.trans heq)
    refine ⟨front_fits (hI.fits hrun) i.fresh, ?_⟩
    rw [← CMemBlock.length_data, front_data]
    exact hI.held_lt hrun

theorem fitting_of_room (hI : HasRoom s) (h : RoundOk dbg funs s i) : Fitting funs s i := by
  intro hrun b hb b' hreach hhdr
  by_contra hlarge
  obtain ⟨hfit, -⟩ := received_data (hI.fits hrun) hb
  obtain ⟨fuel, r, hr, href⟩ := h.refused hrun b hb b' hreach hhdr (by omega)
  obtain ⟨fuel', r', hr', href'⟩ := dispatch_reaches hreach hfit hr href
  rcases fuel' with - | fuel'
  · cases hr'
  have hb' := hreach.fits hfit
  unfold CMemBlock.Fits at hb'
  rw [dispatch_incomplete hhdr.whole hhdr.ver (by omega)] at hr'
  obtain rfl := Option.some.inj hr'
  exact not_refused_pure _ href'

/-- **There is always room to receive exactly in the runs in which every header the dispatcher comes
to declares no more than a block.** -/
theorem room_iff_fitting (dbg : Bool) (funs : ℕ → Option PkgType) (stream : List UInt8)
    (evts : List Input) :
    Meets (handleInputEvt dbg funs) (RoundOk dbg funs) (Loop.new stream) evts ↔
      Meets (handleInputEvt dbg funs) (Fitting funs) (Loop.new stream) evts :=
  meets_iff (I := HasRoom)
    (fun _ _ hI h => ⟨roundOk_of_fitting dbg hI h, hasRoom_of_fitting dbg hI h⟩)
    (fun _ _ hI h => fitting_of_room hI h) (fun _ b hb => by cases hb)

/-! ### A package that never fits -/

/-- A block full of the first bytes of a package that never fits stays as it is. -/
theorem oversized_fills (stream : List UInt8) (hlen : maxMemSize ≤ stream.length)
    (hver : CPkgHdr.getVer (fun j => stream.getD j 0) 0 = pkgVer)
    (hlarge : maxMemSize < CPkgHdr.getLen (fun j => stream.getD j 0) 0) (dbg : Bool)
    (funs : ℕ → Option PkgType) (fresh : ℕ → UInt8) (fuel : ℕ) :
    ∃ b, handleInputEvt dbg funs (Loop.new stream) ⟨fresh, .bytes (maxMemSize - 1), fuel + 1⟩ =
      ⟨some b, stream.drop maxMemSize, true⟩ ∧ b.Fits ∧ b.len = maxMemSize := by
  have hlen1 : (stream.take maxMemSize).length = maxMemSize := by
    rw [List.length_take, Nat.min_eq_left hlen]
  have hne : stream.take maxMemSize ≠ [] := by
    rw [← List.length_pos_iff, hlen1]; decide
  have hroom : (stream.take maxMemSize).length ≤ (front none fresh).getTailFreeSize := by
    rw [hlen1]
    exact Nat.le_of_eq (CMemBlock.getTailFreeSize_eq (CMemBlock.fits_new fresh)).symm
  have hnone : ∀ b ∈ (none : Option CMemBlock), b.Fits := fun _ hb => by cases hb
  obtain ⟨b, hrecv, hfit, hdata⟩ := handleCanRecv_got hnone hne hroom
  have hblen : b.len = maxMemSize := by
    rw [← CMemBlock.length_data b, hdata]; exact hlen1
  have hoff : b.offset = 0 := by
    have := hfit
    unfold CMemBlock.Fits at this
    omega
  -- the block is the first part of the stream
  have hget : ∀ j < maxMemSize, b.bytes (0 + j) = stream.getD j 0 := by
    intro j hj
    have h1 : b.data[j]? = (stream.take maxMemSize)[j]? := congrArg (·[j]?) hdata
    unfold CMemBlock.data at h1
    rw [getElem?_rd, hblen, if_pos hj, hoff, List.getElem?_take_of_lt hj] at h1
    rw [List.getD_eq_getElem?_getD, ← h1]; rfl
  have hL : CPkgHdr.getLen b.bytes 0 = CPkgHdr.getLen (fun j => stream.getD j 0) 0 := by
    unfold CPkgHdr.getLen
    refine congrArg _ (rd_congr fun j hj => ?_)
    rw [hget j (Nat.lt_trans hj (by decide)), Nat.zero_add]
  have hV : CPkgHdr.getVer b.bytes 0 = pkgVer := (hget 13 (by decide)).trans hver
  have hdis : dispatch dbg funs pkgVer (fuel + 1) b = some (pure b.moveDataAhead) :=
    dispatch_incomplete (by rw [hblen]; decide) (by rw [hoff]; exact hV) (by rw [hoff, hL]; omega)
  have hio : (Loop.new stream).io ⟨fresh, .bytes (maxMemSize - 1), fuel + 1⟩ =
      .got (stream.take maxMemSize) := by
    show RecvIo.got (stream.take (min maxMemSize ((Loop.new stream).size _))) = _
    rw [size_eq hnone _]; rfl
  have hrest : (Loop.new stream).rest ⟨fresh, .bytes (maxMemSize - 1), fuel + 1⟩ =
      stream.drop maxMemSize := by
    unfold Loop.rest
    rw [hio]
    dsimp only
    rw [hlen1]; rfl
  refine ⟨b.moveDataAhead, ?_, hfit.moveDataAhead, by rw [CMemBlock.moveDataAhead_len, hblen]⟩
  have hrun : (Loop.new stream).running = true := rfl
  have hp : (Loop.new stream).pRecvedData = none := rfl
  unfold handleInputEvt
  rw [if_pos hrun, hio, hp, hrecv]
  dsimp only
  rw [hdis, hrest]; rfl

/-- A package of 40000 bytes. -/
private def large : List UInt8 := 0 :: 0 :: 156 :: 64 :: List.replicate 39996 0

/-- The kernel has as many bytes as the block has room for. -/
private def evt : Input := ⟨fun _ => 0, .bytes (maxMemSize - 1), 1⟩

/-- **A package of 40000 bytes**: the second call of `::recv` is for 0 bytes, and its result 0 is
taken for a shutdown, though the peer still sends. -/
theorem no_room :
    let s := run (handleInputEvt true fun _ => none) (Loop.new large) [evt]
    (s.running ∧ s.size evt = 0 ∧ s.io evt = .got [] ∧ s.stream.length = 7232 ∧
      (handleCanRecv s.pRecvedData evt.fresh (s.io evt)).map Prod.fst = some .ioErr) ∧
    ¬ Meets (handleInputEvt true fun _ => none) (RoundOk true fun _ => none) (Loop.new large)
      [evt, evt] := by
  have hlen : large.length = 40000 := by
    unfold large
    rw [List.length_cons, List.length_cons, List.length_cons, List.length_cons,
      List.length_replicate]
  have hver : large.getD 13 0 = 0 := by
    unfold large
    rw [List.getD_cons_succ, List.getD_cons_succ, List.getD_cons_succ, List.getD_cons_succ,
      List.getD_replicate _ (by decide)]
  have hhdr : rd (fun j => large.getD j 0) 0 4 = [0, 0, 156, 64] := rfl
  obtain ⟨b, heq, hfit, hblen⟩ := oversized_fills large (by rw [hlen]; decide) hver
    (by unfold CPkgHdr.getLen; rw [hhdr]; decide) true (fun _ => none) (fun _ => 0) 0
  have hevt : handleInputEvt true (fun _ => none) (Loop.new large) evt =
      ⟨some b, large.drop maxMemSize, true⟩ := heq
  generalize hs : (⟨some b, large.drop maxMemSize, true⟩ : Loop) = s at hevt
  have hp : s.pRecvedData = some b := by rw [← hs]
  have hrest : s.stream = large.drop maxMemSize := by rw [← hs]
  have hrun : s.running = true := by rw [← hs]
  have hsize : s.size evt = 0 := by
    rw [size_eq (by rw [hp]; rintro _ ⟨⟩; exact hfit), hp]
    show maxMemSize - b.data.length = 0
    rw [CMemBlock.length_data, hblen]; rfl
  have hio : s.io evt = .got [] := by
    show RecvIo.got (s.stream.take (min (maxMemSize - 1 + 1) (s.size evt))) = .got []
    rw [hsize, Nat.min_zero, List.take_zero]
  rw [run_cons, run_nil, meets_cons, meets_cons, hevt]
  refine ⟨⟨hrun, hsize, hio, ?_, by rw [hio]; rfl⟩, fun hok => ?_⟩
  · rw [hrest, List.length_drop, hlen]; rfl
  · have hpos := hok.2.1.room hrun
    omega

end SmartNet.Pkg.RecvRoom

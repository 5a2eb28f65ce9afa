import SmartNet.Lib.Eff
import SmartNet.Memory.MemBlock
import SmartNet.Pkg.Header

/-! # `CDispatcher`

`dispatch` reads packages off the front of a block and gives the body area of each to the
`dispatch_fun` of its type, which calls `handle_pkg` on one body after the other. Both loops take a
bound on their rounds and give `none` if it is too small. `dbg` says whether the asserts are
compiled in: if they are, a package that is not accepted ends the process, otherwise the connection
is closed.

* `Exact`: the body area is a sum of body sizes, read from its bytes;
* `dispatchFun_exact`: then `dispatch_fun` handles these bodies;
* `dispatch_complete`, ...: `dispatch` by the package at the front. -/

namespace SmartNet.Pkg.Dispatcher

open SmartNet.Common SmartNet.Lib SmartNet.Lib.Mem SmartNet.Memory.MemBlock SmartNet.Pkg.Header

/-- A round of the loop of `dispatch_fun`: the block and `ui32Size` before it, and the size of the
body. -/
structure Handled where
  pMem : CMemBlock
  ui32Size : ℕ
  realSize : ℕ

/-- The body `handle_pkg` is called on. -/
def Handled.body (h : Handled) : List UInt8 := rd h.pMem.bytes h.pMem.offset h.realSize

/-- A call of a `dispatch_fun`: its arguments, the rounds of its loop, and the block when it
returns. -/
structure Call where
  pkg : PkgType
  pMem : CMemBlock
  ui32Size : ℕ
  ui32Tag : ℕ
  handled : List Handled
  after : CMemBlock

inductive Ev
  | dispatched (c : Call)
  | close

/-- The asserts of `dispatch`. -/
inductive Fault
  | badHdr
  | unknownPkg

/-- `dispatch_fun<PKG>`. -/
def dispatchFun (pkg : PkgType) : ℕ → CMemBlock → ℕ → Option (List Handled × CMemBlock)
  | 0, _, _ => none
  | fuel + 1, pMem, ui32Size =>
    if 0 < ui32Size then
      let n := pkg.realSize pMem.get8
      (dispatchFun pkg fuel (pMem.decHeadData n) (sub32 ui32Size n)).map fun r =>
        (⟨pMem, ui32Size, n⟩ :: r.1, r.2)
    else some ([], pMem)

/-- `CMN_ASSERT(false)`, and `close` behind the loop. -/
def refuse (dbg : Bool) (f : Fault) (pMem : CMemBlock) : Eff Ev Fault CMemBlock := do
  Eff.require (dbg = false) f
  Eff.emit .close
  pure pMem

/-- `dispatch<CPkgHdr>`. -/
def dispatch (dbg : Bool) (funs : ℕ → Option PkgType) (cByte : UInt8) :
    ℕ → CMemBlock → Option (Eff Ev Fault CMemBlock)
  | 0, _ => none
  | fuel + 1, pMem =>
    if pMem.len < pkgHdrSize then some (pure pMem)
    else
      let len := CPkgHdr.getLen pMem.bytes pMem.offset
      if CPkgHdr.getVer pMem.bytes pMem.offset ≠ cByte ∨
        len < pkgHdrSize then some (refuse dbg .badHdr pMem)
      else if len = pkgHdrSize then dispatch dbg funs cByte fuel (pMem.decHeadData pkgHdrSize)
      else if pMem.len < len then some (pure pMem.moveDataAhead)
      else
        match funs (CPkgHdr.getOpcode pMem.bytes pMem.offset) with
        | none => some (refuse dbg .unknownPkg pMem)
        | some pkg =>
          let tag := CPkgHdr.getTag pMem.bytes pMem.offset
          let pMem := pMem.decHeadData pkgHdrSize
          let size := sub32 len pkgHdrSize
          match dispatchFun pkg fuel pMem size with
          | none => none
          | some (handled, after) =>
            (dispatch dbg funs cByte fuel after).map fun r =>
              ⟨.dispatched ⟨pkg, pMem, size, tag, handled, after⟩ :: r.evs, r.res⟩

/-! ### The loop of `dispatch_fun` -/

/-- The body sizes read at `a`, one body after the other, are `ns`, and none is zero. -/
def Exact (pkg : PkgType) (m : ℕ → UInt8) : ℕ → List ℕ → Prop
  | _, [] => True
  | a, n :: ns => pkg.realSize (fun i => m (a + i)) = n ∧ 0 < n ∧ Exact pkg m (a + n) ns

/-- The rounds over bodies of these sizes. -/
def rounds : CMemBlock → List ℕ → List Handled
  | _, [] => []
  | b, n :: ns => ⟨b, (n :: ns).sum, n⟩ :: rounds (b.decHeadData n) ns

variable {pkg : PkgType} {dbg : Bool} {funs : ℕ → Option PkgType} {v : UInt8} {b : CMemBlock}
  {fuel : ℕ} {ns : List ℕ}

theorem Exact.length_le_sum : ∀ {m : ℕ → UInt8} {a : ℕ} {ns : List ℕ}, Exact pkg m a ns →
    ns.length ≤ ns.sum
  | _, _, [], _ => Nat.le_refl 0
  | _, _, _ :: _, ⟨_, hpos, h⟩ => by
    have := h.length_le_sum
    rw [List.length_cons, List.sum_cons]
    omega

/-- **An exact body area**: `dispatch_fun` handles the bodies in it and takes them off. -/
theorem dispatchFun_exact : ∀ {ns : List ℕ} {fuel : ℕ} {b : CMemBlock}, b.Fits →
    Exact pkg b.bytes b.offset ns →
    ns.sum ≤ b.len → ns.length < fuel →
      dispatchFun pkg fuel b ns.sum = some (rounds b ns, b.decHeadData ns.sum)
  | [], fuel + 1, b, hb, _, _, _ => by
    rw [List.sum_nil, CMemBlock.decHeadData_zero hb, dispatchFun, if_neg (Nat.lt_irrefl 0)]
    rfl
  | n :: ns, fuel + 1, b, hb, ⟨hn, hpos, h⟩, hle, hlt => by
    rw [List.sum_cons] at hle
    rw [List.length_cons] at hlt
    obtain ⟨hfit, hoff, hlen⟩ := hb.decHeadData (n := n) (by omega)
    have hl := hb.len_lt
    have hsize : sub32 (n + ns.sum) n = ns.sum := by
      rw [sub32_of_le (by omega) (by omega), Nat.add_sub_cancel_left]
    have ih : dispatchFun pkg fuel (b.decHeadData n) ns.sum = _ :=
      dispatchFun_exact hfit (by rw [hoff]; exact h) (by omega) (by omega)
    have hget : pkg.realSize b.get8 = n := hn
    unfold dispatchFun
    rw [List.sum_cons, if_pos (by omega), hget]
    simp only [hsize, ih, Option.map_some]
    rw [CMemBlock.decHeadData_add hb hle]
    rfl

theorem exact_of_dispatchFun :
    ∀ {fuel : ℕ} {b b' : CMemBlock} {k : ℕ} {hs : List Handled}, b.Fits → k ≤ b.len →
    dispatchFun pkg fuel b k = some (hs, b') → (∀ h ∈ hs, h.realSize ≤ h.ui32Size) →
      b' = b.decHeadData k ∧ ∃ ns, Exact pkg b.bytes b.offset ns ∧ ns.sum = k
  | fuel + 1, b, b', k, hs, hb, hk, h, hin => by
    unfold dispatchFun at h
    split_ifs at h with hpos
    · obtain ⟨⟨hs', b2⟩, hrec, heq⟩ := Option.map_eq_some_iff.mp h
      obtain ⟨rfl, rfl⟩ := Prod.mk.inj heq
      have hn : pkg.realSize b.get8 ≤ k := hin _ List.mem_cons_self
      have hl := hb.len_lt
      obtain ⟨hfit, hoff, hlen⟩ := hb.decHeadData (n := pkg.realSize b.get8) (by omega)
      rw [sub32_of_le (by omega) hn] at hrec
      obtain ⟨rfl, ns, hns, hsum⟩ :=
        exact_of_dispatchFun hfit (by omega) hrec fun h hm => hin h (List.mem_cons_of_mem _ hm)
      refine ⟨?_, ?_⟩
      · rw [CMemBlock.decHeadData_add hb (by omega), Nat.add_sub_cancel' hn]
      · rcases Nat.eq_zero_or_pos (pkg.realSize b.get8) with hz | hz
        · -- nothing was taken off, and the loop is where it was
          rw [hz, CMemBlock.decHeadData_zero hb] at hns
          rw [hz] at hsum
          exact ⟨ns, hns, hsum⟩
        · rw [hoff] at hns
          exact ⟨pkg.realSize b.get8 :: ns, ⟨rfl, hz, hns⟩, by rw [List.sum_cons]; omega⟩
    · obtain ⟨-, rfl⟩ := Prod.mk.inj (Option.some.inj h)
      obtain rfl : k = 0 := by omega
      exact ⟨(CMemBlock.decHeadData_zero hb).symm, [], trivial, rfl⟩

/-! ### The package at the front -/

/-- The package at the front is there as a whole and accepted, and not empty. -/
structure Complete (funs : ℕ → Option PkgType) (v : UInt8) (b : CMemBlock)
    (pkg : PkgType) : Prop where
  ver : CPkgHdr.getVer b.bytes b.offset = v
  long : pkgHdrSize < CPkgHdr.getLen b.bytes b.offset
  whole : CPkgHdr.getLen b.bytes b.offset ≤ b.len
  reg : funs (CPkgHdr.getOpcode b.bytes b.offset) = some pkg

/-- The package at the front is a header only. -/
structure Empty (v : UInt8) (b : CMemBlock) : Prop where
  ver : CPkgHdr.getVer b.bytes b.offset = v
  len : CPkgHdr.getLen b.bytes b.offset = pkgHdrSize
  whole : pkgHdrSize ≤ b.len

/-- The body area of a complete package, as `dispatch` gives it to `dispatch_fun`. -/
theorem Complete.area (h : Complete funs v b pkg) (hb : b.Fits) :
    (b.decHeadData pkgHdrSize).Fits ∧ (b.decHeadData pkgHdrSize).offset = b.offset + pkgHdrSize ∧
      (b.decHeadData pkgHdrSize).len = b.len - pkgHdrSize ∧
      sub32 (CPkgHdr.getLen b.bytes b.offset) pkgHdrSize = CPkgHdr.getLen b.bytes b.offset -
        pkgHdrSize ∧
      (b.decHeadData pkgHdrSize).decHeadData (CPkgHdr.getLen b.bytes b.offset - pkgHdrSize) =
        b.decHeadData (CPkgHdr.getLen b.bytes b.offset) := by
  have hl := hb.len_lt
  have hlong := h.long
  have hwhole := h.whole
  obtain ⟨h1, h2, h3⟩ := hb.decHeadData (n := pkgHdrSize) (by omega)
  refine ⟨h1, h2, h3, sub32_of_le (by omega) (by omega), ?_⟩
  rw [CMemBlock.decHeadData_add hb (by omega), Nat.add_sub_cancel' (Nat.le_of_lt hlong)]

theorem dispatch_short (h : b.len < pkgHdrSize) :
    dispatch dbg funs v (fuel + 1) b = some (pure b) := by
  unfold dispatch
  rw [if_pos h]

theorem dispatch_empty (h : Empty v b) :
    dispatch dbg funs v (fuel + 1) b = dispatch dbg funs v fuel (b.decHeadData pkgHdrSize) := by
  rw [dispatch, if_neg (Nat.not_lt.mpr h.whole), if_neg (by simp [h.ver, h.len]), if_pos h.len]

theorem dispatch_incomplete (hhdr : pkgHdrSize ≤ b.len) (hver : CPkgHdr.getVer b.bytes b.offset = v)
    (hlen : b.len < CPkgHdr.getLen b.bytes b.offset) :
    dispatch dbg funs v (fuel + 1) b = some (pure b.moveDataAhead) := by
  rw [dispatch, if_neg (Nat.not_lt.mpr hhdr), if_neg (by simp [hver]; omega), if_neg (by omega),
    if_pos hlen]

theorem dispatch_complete (h : Complete funs v b pkg) (hb : b.Fits) :
    dispatch dbg funs v (fuel + 1) b =
      match dispatchFun pkg fuel (b.decHeadData pkgHdrSize)
        (CPkgHdr.getLen b.bytes b.offset - pkgHdrSize) with
      | none => none
      | some (handled, after) =>
        (dispatch dbg funs v fuel after).map fun r =>
          ⟨.dispatched ⟨pkg, b.decHeadData pkgHdrSize, CPkgHdr.getLen b.bytes b.offset - pkgHdrSize,
            CPkgHdr.getTag b.bytes b.offset, handled, after⟩ :: r.evs, r.res⟩ := by
  have hlong := h.long
  have hwhole := h.whole
  obtain ⟨-, -, -, hsize, -⟩ := h.area hb
  rw [dispatch, if_neg (by omega), if_neg (by simp [h.ver]; omega), if_neg (by omega),
    if_neg (by omega)]
  simp only [h.reg, hsize]

theorem dispatch_ends (dbg : Bool) (fuel : ℕ) (hempty : ¬ Empty v b)
    (hcomplete : ∀ pkg, ¬ Complete funs v b pkg) :
    ∃ r : Eff Ev Fault CMemBlock, dispatch dbg funs v (fuel + 1) b = some r ∧
      (∀ c, .dispatched c ∉ r.evs) ∧
      ∀ b', r.res = .ok b' → b' = b ∨ b' = b.moveDataAhead := by
  have hrefuse : ∀ f, (∀ c, .dispatched c ∉ (refuse dbg f b).evs) ∧
      ∀ b', (refuse dbg f b).res = .ok b' → b' = b ∨ b' = b.moveDataAhead := by
    intro f
    rcases dbg with - | -
    · exact ⟨fun c hc => by simp [refuse, Eff.require] at hc,
        fun b' hb' => Or.inl (Except.ok.inj hb').symm⟩
    · exact ⟨fun c hc => absurd hc List.not_mem_nil, nofun⟩
  have hpure : ∀ c, .dispatched c ∉ (pure b : Eff Ev Fault CMemBlock).evs :=
    fun _ => List.not_mem_nil
  unfold dispatch
  dsimp only
  split_ifs with h1 h2 h3 h4
  · exact ⟨_, rfl, hpure, fun b' hb' => Or.inl (Except.ok.inj hb').symm⟩
  · exact ⟨_, rfl, hrefuse .badHdr⟩
  · push Not at h2
    exact absurd ⟨h2.1, h3, by omega⟩ hempty
  · exact ⟨_, rfl, fun _ => List.not_mem_nil, fun b' hb' => Or.inr (Except.ok.inj hb').symm⟩
  · push Not at h2
    rcases hf : funs (CPkgHdr.getOpcode b.bytes b.offset) with - | pkg
    · exact ⟨_, rfl, hrefuse .unknownPkg⟩
    · exact absurd ⟨h2.1, by omega, by omega, hf⟩ (hcomplete pkg)

end SmartNet.Pkg.Dispatcher

import Mathlib.Logic.Relation
import SmartNet.Pkg.Dispatcher

/-! # Package lengths the dispatcher can trust

`dispatch_fun` takes the size of each body from its bytes and subtracts it from what is left of the
package, both without a check. `Careful` is what a call of it should do, `DispatchOk` what
`dispatch` should.

* `careful_of_exact`: on an exact body area the call is careful;
* `dispatch_ok_iff`: `dispatch` does what it should exactly on the blocks in which every package it
  comes to is an exact sum of bodies;
* `wraps`: a package of 17 bytes of a type whose bodies have 4. -/

namespace SmartNet.Pkg.Lengths

open SmartNet.Common SmartNet.Lib SmartNet.Memory.MemBlock SmartNet.Pkg.Header
open SmartNet.Pkg.Dispatcher

/-- The call handles bodies inside the package only, nothing wraps below zero, the bodies are the
package, and the package is taken off the block. -/
structure Careful (c : Call) : Prop where
  inside : ∀ h ∈ c.handled, c.pMem.offset ≤ h.pMem.offset ∧
    h.pMem.offset + h.realSize ≤ c.pMem.offset + c.ui32Size
  noWrap : ∀ h ∈ c.handled, h.realSize ≤ h.ui32Size ∧ h.realSize ≤ h.pMem.len ∧ h.pMem.Fits
  exact : (c.handled.map Handled.realSize).sum = c.ui32Size
  consumed : c.after.offset = c.pMem.offset + c.ui32Size ∧ c.after.len + c.ui32Size = c.pMem.len
  fits : c.after.Fits

/-- `dispatch` ended, its calls of `dispatch_fun` were careful, and the block is well formed after
it. -/
def Ended (x : Option (Eff Ev Fault CMemBlock)) : Prop :=
  ∃ r, x = some r ∧ (∀ c, .dispatched c ∈ r.evs → Careful c) ∧ ∀ b, r.res = .ok b → b.Fits

/-- `dispatch` ends, and as it should. -/
def DispatchOk (dbg : Bool) (funs : ℕ → Option PkgType) (v : UInt8) (b : CMemBlock) : Prop :=
  ∃ fuel, Ended (dispatch dbg funs v fuel b)

/-- Passing over the package at the front, by its length. -/
inductive Skip (funs : ℕ → Option PkgType) (v : UInt8) : CMemBlock → CMemBlock → Prop
  | empty {b : CMemBlock} : Empty v b → Skip funs v b (b.decHeadData pkgHdrSize)
  | complete {b : CMemBlock} {pkg : PkgType} :
    Complete funs v b pkg → Skip funs v b (b.decHeadData (CPkgHdr.getLen b.bytes b.offset))

/-- The body area of the package at the front is an exact sum of bodies. -/
def SumOfBodies (pkg : PkgType) (b : CMemBlock) : Prop :=
  ∃ ns, Exact pkg b.bytes (b.offset + pkgHdrSize) ns ∧
    ns.sum = CPkgHdr.getLen b.bytes b.offset - pkgHdrSize

/-- Every complete and accepted package the dispatcher comes to is an exact sum of bodies. -/
def ExactSums (funs : ℕ → Option PkgType) (v : UInt8) (b : CMemBlock) : Prop :=
  ∀ b' pkg, Relation.ReflTransGen (Skip funs v) b b' → Complete funs v b' pkg → SumOfBodies pkg b'

variable {pkg : PkgType} {dbg : Bool} {funs : ℕ → Option PkgType} {v : UInt8}
  {b b' : CMemBlock} {fuel : ℕ}

theorem map_realSize_rounds :
    ∀ (b : CMemBlock) (ns : List ℕ), (rounds b ns).map Handled.realSize = ns
  | _, [] => rfl
  | b, n :: ns => by rw [rounds, List.map_cons, map_realSize_rounds]

theorem mem_rounds : ∀ {ns : List ℕ} {b : CMemBlock} {h : Handled}, b.Fits → ns.sum ≤ b.len →
    h ∈ rounds b ns →
    (b.offset ≤ h.pMem.offset ∧ h.pMem.offset + h.realSize ≤ b.offset + ns.sum) ∧
      h.realSize ≤ h.ui32Size ∧ h.realSize ≤ h.pMem.len ∧ h.pMem.Fits
  | n :: ns, b, h, hb, hle, hm => by
    rw [List.sum_cons] at hle ⊢
    rcases List.mem_cons.mp hm with rfl | hm
    · refine ⟨⟨Nat.le_refl _, ?_⟩, ?_, ?_, hb⟩
      · show b.offset + n ≤ b.offset + (n + ns.sum)
        omega
      · show n ≤ (n :: ns).sum
        rw [List.sum_cons]; omega
      · show n ≤ b.len
        omega
    · obtain ⟨hfit, hoff, hlen⟩ := hb.decHeadData (n := n) (by omega)
      obtain ⟨⟨h1, h2⟩, h3⟩ := mem_rounds hfit (by omega) hm
      exact ⟨⟨by omega, by omega⟩, h3⟩

/-- **A call on an exact body area** is careful. -/
theorem careful_of_exact (hb : b.Fits) {ns : List ℕ} (hle : ns.sum ≤ b.len) (t : ℕ) :
    Careful ⟨pkg, b, ns.sum, t, rounds b ns, b.decHeadData ns.sum⟩ := by
  obtain ⟨hfit, hoff, hlen⟩ := hb.decHeadData hle
  refine ⟨fun h hm => (mem_rounds hb hle hm).1, fun h hm => (mem_rounds hb hle hm).2, ?_,
    ⟨hoff, ?_⟩, hfit⟩
  · show ((rounds b ns).map Handled.realSize).sum = ns.sum
    rw [map_realSize_rounds]
  · show (b.decHeadData ns.sum).len + ns.sum = b.len
    omega

theorem Skip.fits (h : Skip funs v b b') (hb : b.Fits) : b'.Fits ∧ b'.len < b.len := by
  rcases h with h | h
  · obtain ⟨h1, -, h3⟩ := hb.decHeadData h.whole
    have := h.whole
    exact ⟨h1, by unfold pkgHdrSize at *; omega⟩
  · obtain ⟨h1, -, h3⟩ := hb.decHeadData h.whole
    have hlong := h.long
    have hwhole := h.whole
    exact ⟨h1, by unfold pkgHdrSize at *; omega⟩

/-- Enough: with all packages exact, `dispatch` ends within a round for each byte. -/
theorem ok_of_exact : ∀ {fuel : ℕ} {b : CMemBlock}, b.Fits → b.len < fuel → ExactSums funs v b →
    Ended (dispatch dbg funs v fuel b)
  | fuel + 1, b, hb, hlt, h => by
    by_cases hempty : Empty v b
    · have hskip : Skip funs v b _ := Skip.empty hempty
      obtain ⟨hfit, hlen⟩ := hskip.fits hb
      rw [dispatch_empty hempty]
      exact ok_of_exact hfit (by omega) fun b' pkg hr => h b' pkg (.head hskip hr)
    by_cases hcomplete : ∃ pkg, Complete funs v b pkg
    · obtain ⟨pkg, hpkg⟩ := hcomplete
      obtain ⟨ns, hns, hsum⟩ := h b pkg .refl hpkg
      obtain ⟨hfit, hoff, hlen, hsize, hafter⟩ := hpkg.area hb
      have hskip := Skip.complete hpkg
      obtain ⟨hfit', hlen'⟩ := hskip.fits hb
      have hlong := hpkg.long
      have hwhole := hpkg.whole
      have hpos : 0 < pkgHdrSize := by decide
      have hle : ns.sum ≤ (b.decHeadData pkgHdrSize).len := by omega
      have hcnt := hns.length_le_sum
      have hrun : dispatchFun pkg fuel (b.decHeadData pkgHdrSize) ns.sum = _ :=
        dispatchFun_exact hfit (by rw [hoff]; exact hns) hle (by omega)
      have hrest : Ended (dispatch dbg funs v fuel _) :=
        ok_of_exact hfit' (by omega) fun b' pkg' hr => h b' pkg' (.head hskip hr)
      obtain ⟨r, hr, hcalls, hres⟩ := hrest
      rw [dispatch_complete hpkg hb, ← hsum, hrun]
      dsimp only
      rw [hsum, hafter, hr]
      refine ⟨_, rfl, fun c hc => ?_, hres⟩
      rcases List.mem_cons.mp hc with hc | hc
      · cases hc
        have hcare : Careful ⟨pkg, _, _, _, _, _⟩ :=
          careful_of_exact hfit hle (CPkgHdr.getTag b.bytes b.offset)
        rw [hsum, hafter] at hcare
        exact hcare
      · exact hcalls c hc
    · obtain ⟨r, hr, hcalls, hres⟩ := dispatch_ends dbg fuel hempty (not_exists.mp hcomplete)
      refine ⟨r, hr, fun c hc => absurd hc (hcalls c), fun b' hb' => ?_⟩
      rcases hres b' hb' with rfl | rfl
      · exact hb
      · exact hb.moveDataAhead

/-- Necessary: the calls of `dispatch_fun` that were careful read exact body areas. -/
theorem exact_of_ok : ∀ {fuel : ℕ} {b : CMemBlock} {r : Eff Ev Fault CMemBlock}, b.Fits →
    dispatch dbg funs v fuel b = some r → (∀ c, .dispatched c ∈ r.evs → Careful c) →
      ExactSums funs v b
  | fuel + 1, b, r, hb, h, hcare => by
    have hone : ∀ {pkg}, Complete funs v b pkg → SumOfBodies pkg b ∧ ∃ r' : Eff Ev Fault CMemBlock,
        dispatch dbg funs v fuel (b.decHeadData (CPkgHdr.getLen b.bytes b.offset)) = some r' ∧
          ∀ c, .dispatched c ∈ r'.evs → Careful c := by
      intro pkg hpkg
      obtain ⟨hfit, hoff, hlen, -, hafter⟩ := hpkg.area hb
      have hwhole := hpkg.whole
      rw [dispatch_complete hpkg hb] at h
      rcases hrun : dispatchFun pkg fuel (b.decHeadData pkgHdrSize)
        (CPkgHdr.getLen b.bytes b.offset - pkgHdrSize) with - | ⟨hs, after⟩
      · rw [hrun] at h; cases h
      · rw [hrun] at h
        obtain ⟨r', hr', rfl⟩ := Option.map_eq_some_iff.mp h
        have hc := hcare _ List.mem_cons_self
        obtain ⟨rfl, ns, hns, hsum⟩ := exact_of_dispatchFun hfit (by omega) hrun fun x hx =>
          (hc.noWrap x hx).1
        rw [hafter] at hr'
        exact ⟨⟨ns, by rw [← hoff]; exact hns, hsum⟩, r', hr',
          fun c hm => hcare c (List.mem_cons_of_mem _ hm)⟩
    intro b' pkg hreach hpkg
    rcases Relation.ReflTransGen.cases_head hreach with rfl | ⟨b1, hskip, hreach⟩
    · exact (hone hpkg).1
    · obtain ⟨hfit1, -⟩ := hskip.fits hb
      rcases hskip with hempty | hpkg1
      · rw [dispatch_empty hempty] at h
        exact exact_of_ok hfit1 h hcare b' pkg hreach hpkg
      · obtain ⟨-, r', hr', hcare'⟩ := hone hpkg1
        exact exact_of_ok hfit1 hr' hcare' b' pkg hreach hpkg

/-- **The dispatcher can trust the lengths of a block exactly if every package it comes to is an
exact sum of bodies.** -/
theorem dispatch_ok_iff (dbg : Bool) (funs : ℕ → Option PkgType) (v : UInt8) {b : CMemBlock}
    (hb : b.Fits) :
    DispatchOk dbg funs v b ↔ ExactSums funs v b := by
  constructor
  · rintro ⟨fuel, r, hr, hcare, -⟩
    exact exact_of_ok hb hr hcare
  · intro h
    exact ⟨b.len + 1, ok_of_exact hb (Nat.lt_succ_self _) h⟩

theorem dispatchFun_zero (hb : b.Fits) (hz : pkg.realSize b.get8 = 0) {k : ℕ} (hpos : 0 < k)
    (hk : k < 2 ^ 32) :
    ∀ fuel, dispatchFun pkg fuel b k = none
  | 0 => rfl
  | fuel + 1 => by
    rw [dispatchFun, if_pos hpos]
    simp only [hz]
    rw [CMemBlock.decHeadData_zero hb, sub32_of_le hk (Nat.zero_le _), Nat.sub_zero,
      dispatchFun_zero hb hz hpos hk fuel]
    rfl

/-! ### Packages of `CPkgTest` -/

/-- The types a `CRupEndpointTester` handles. -/
private def testFuns (k : ℕ) : Option PkgType := if k = 1 then some cPkgTest else none

/-- A package of one body. -/
private def oneBody : CMemBlock :=
  .ofBytes [0, 0, 0, 20, 0, 1, 0, 0, 0, 0, 0, 0, 0, 0, 0, 0, 7, 0, 0, 0]

/-- A package whose length leaves one byte for the bodies. -/
private def oneByte : CMemBlock := .ofBytes [0, 0, 0, 17, 0, 1, 0, 0, 0, 0, 0, 0, 0, 0, 0, 0, 7]

theorem dispatch_ok_test : DispatchOk true testFuns pkgVer oneBody := by
  have hb : oneBody.Fits := show 0 + 20 ≤ maxMemSize by decide
  refine (dispatch_ok_iff true testFuns pkgVer hb).mpr fun b' pkg hreach hpkg => ?_
  have hend : ∀ b pkg, b.len = 0 → ¬ Complete testFuns pkgVer b pkg := fun b pkg hz h => by
    have h1 := h.long
    have h2 := h.whole
    omega
  rcases Relation.ReflTransGen.cases_head hreach with rfl | ⟨b1, hskip, hreach⟩
  · obtain rfl : cPkgTest = pkg := Option.some.inj hpkg.reg
    exact ⟨[4], ⟨rfl, by decide, trivial⟩, rfl⟩
  · have hz : b1.len = 0 := by
      rcases hskip with h | h
      · exact absurd h.len (by decide)
      · rfl
    rcases Relation.ReflTransGen.cases_head hreach with rfl | ⟨b2, hskip, -⟩
    · exact absurd hpkg (hend b1 pkg hz)
    · rcases hskip with h | h
      · have := h.whole
        rw [hz] at this
        exact absurd this (by decide)
      · exact absurd h (hend b1 _ hz)

/-- **A length that is not a sum of body sizes** is trusted: the second round starts at
`2 ^ 32 - 3`. -/
theorem wraps : ¬ DispatchOk true testFuns pkgVer oneByte := by
  rintro ⟨fuel, r, hr, hcare, -⟩
  have hb : oneByte.Fits := show 0 + 17 ≤ maxMemSize by decide
  have hpkg : Complete testFuns pkgVer oneByte cPkgTest := ⟨rfl, by decide, by decide, rfl⟩
  obtain ⟨ns, hns, hsum⟩ := exact_of_ok hb hr hcare oneByte cPkgTest .refl hpkg
  rcases ns with - | ⟨n, ns⟩
  · exact absurd hsum (by decide)
  · obtain ⟨hn, -, -⟩ := hns
    have h4 : 4 = n := hn
    have h1 : n + ns.sum = 1 := hsum
    omega

end SmartNet.Pkg.Lengths

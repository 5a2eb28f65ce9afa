import SmartNet.Memory.MemBlock
import SmartNet.Pkg.Header

/-! # `CArchive`

An archive writes one package into a block: a header, and one body after the other. A body is
complete, and counted, when the next one is asked for or the archive is serialized. `m_pHdr` points
to byte `m_ui32InitOffset` of the block, and is `NULL` as long as there is no block.

A caller sets the tag and asks for bodies, which it fills (`Use`); `Draft` also remembers what it
set and filled.

* `Ready`: the block of an archive without a pending body;
* `Opened.use`: what each use of the archive does to it;
* `Opened.serialize`: the package. -/

namespace SmartNet.Pkg.Archive

open SmartNet.Common SmartNet.Lib.Mem SmartNet.Memory.MemBlock SmartNet.Pkg.Header

/-- `CArchive<CPkgHdr, B>`; `pkg` is `B`. -/
structure CArchive where
  pkg : PkgType
  initOffset : ℕ
  pMem : Option CMemBlock
  pending : Bool

namespace CArchive

/-- A new archive. -/
def new (pkg : PkgType) (ui32InitOffset : ℕ) : CArchive := ⟨pkg, ui32InitOffset, none, false⟩

/-- `get_hdr`. -/
def getHdr (ar : CArchive) (fresh : ℕ → UInt8) (bVer : UInt8) : CArchive :=
  match ar.pMem with
  | some _ => ar
  | none =>
    let b := ((CMemBlock.new fresh).setOffset ar.initOffset).setInitOffset ar.initOffset
    let b :=
      { b with bytes := CPkgHdr.ctor b.bytes b.getTailFreeBuf ar.pkg.opcode 0 bVer normalPkg 0 }
    { ar with pMem := some (b.incLen pkgHdrSize) }

/-- `get_hdr()->set_tag`, when there is a header. -/
def setTag (ar : CArchive) (uiTag : ℕ) : CArchive :=
  { ar with
    pMem := ar.pMem.map fun b => { b with bytes := CPkgHdr.setTag b.bytes ar.initOffset uiTag } }

/-- `body_ready`. -/
def bodyReady (ar : CArchive) : CArchive :=
  match ar.pMem with
  | some b =>
    if ar.pending then
      { ar with
        pMem := some (b.incLen (ar.pkg.realSize fun i => b.bytes (b.getTailFreeBuf + i)))
        pending := false }
    else ar
  | none => ar

/-- `get_next_body`, and whether it gives a body. -/
def getNextBody (ar : CArchive) (fresh : ℕ → UInt8) : Bool × CArchive :=
  let ar := (ar.getHdr fresh pkgVer).bodyReady
  match ar.pMem with
  | some b =>
    if b.getTailFreeSize < ar.pkg.maxSize then (false, ar) else (true, { ar with pending := true })
  | none => (false, ar)

/-- The caller fills the body it was given. -/
def fill (ar : CArchive) (l : List UInt8) : CArchive :=
  { ar with pMem := ar.pMem.map fun b => { b with bytes := wr b.bytes b.getTailFreeBuf l } }

/-- `serialize`; `none` if its assert fails. -/
def serialize (ar : CArchive) : Option CMemBlock :=
  let ar := ar.bodyReady
  ar.pMem.map fun b =>
    { b with
      bytes :=
        CPkgHdr.setType (CPkgHdr.setLen b.bytes ar.initOffset b.len) ar.initOffset normalPkg }

end CArchive

/-- What a caller does with an archive: it sets the tag, or asks for a body and gives it the bytes
`l`. -/
inductive Use
  | tag (uiTag : ℕ)
  | body (l : List UInt8)

/-- An archive, the tag set in it, and the bodies it was given. -/
structure Draft where
  ar : CArchive
  uiTag : ℕ
  bodies : List (List UInt8)

/-- The bytes of a body that is filled with `l`. -/
def bodyOf (pkg : PkgType) (l : List UInt8) : List UInt8 :=
  l.take (pkg.realSize (wr (fun _ => 0) 0 l))

def Draft.new (pkg : PkgType) : Draft := ⟨.new pkg 0, 0, []⟩

/-- One use of the archive. -/
def Draft.use (fresh : ℕ → UInt8) (d : Draft) : Use → Draft
  | .tag t => { d with ar := (d.ar.getHdr fresh pkgVer).setTag (u32 t), uiTag := u32 t }
  | .body l =>
    match d.ar.getNextBody fresh with
    | (true, ar) => { d with ar := ar.fill l, bodies := d.bodies ++ [bodyOf d.ar.pkg l] }
    | (false, ar) => { d with ar := ar }

/-- The size of a body is determined by its own bytes, and is at most `get_max_size`. -/
structure SelfSized (pkg : PkgType) : Prop where
  determined : ∀ m m', (∀ i < pkg.realSize m, m' i = m i) → pkg.realSize m' = pkg.realSize m
  le : ∀ m, pkg.realSize m ≤ pkg.maxSize

/-- What a caller may do with an archive. -/
def Use.Ok (pkg : PkgType) : Use → Prop
  | .tag _ => True
  | .body l => l.length = pkg.maxSize ∧ SelfSized pkg

/-- The archive holds the block `b`: a header with this tag, without its length, and the bodies. -/
structure Ready (ar : CArchive) (b : CMemBlock) (uiTag : ℕ)
    (bodies : List (List UInt8)) : Prop where
  mem : ar.pMem = some b
  initOffset : ar.initOffset = 0
  pending : ar.pending = false
  offset : b.offset = 0
  fits : b.Fits
  len : b.len = pkgHdrSize + bodies.flatten.length
  hdr : Hdr b.bytes 0 0 ar.pkg.opcode uiTag pkgVer
  area : rd b.bytes pkgHdrSize bodies.flatten.length = bodies.flatten

variable {ar : CArchive} {b : CMemBlock} {t : ℕ} {bodies : List (List UInt8)} {l : List UInt8}
  {pkg : PkgType}

theorem ready_new (fresh : ℕ → UInt8) (pkg : PkgType) :
    ∃ b, Ready ((CArchive.new pkg 0).getHdr fresh pkgVer) b 0 [] := by
  refine ⟨_, rfl, rfl, rfl, rfl, ?_, rfl, hdr_ctor _ _ _ _ _ _ _, rfl⟩
  show 0 + u32 (0 + pkgHdrSize) ≤ maxMemSize
  decide

theorem Ready.getHdr (h : Ready ar b t bodies) (fresh : ℕ → UInt8) (v : UInt8) :
    ar.getHdr fresh v = ar := by
  unfold CArchive.getHdr
  rw [h.mem]

theorem Ready.bodyReady (h : Ready ar b t bodies) : ar.bodyReady = ar := by
  unfold CArchive.bodyReady
  rw [h.mem]
  simp [h.pending]

theorem Ready.setTag (h : Ready ar b t bodies) (t' : ℕ) :
    ∃ b', Ready (ar.setTag t') b' t' bodies := by
  have hdr := h.hdr.setTag t'
  refine ⟨{ b with bytes := CPkgHdr.setTag b.bytes 0 t' }, ?_, h.initOffset, h.pending, h.offset,
    h.fits, h.len, hdr, ?_⟩
  · show ar.pMem.map _ = _
    rw [h.mem, h.initOffset]; rfl
  · show rd (CPkgHdr.setTag b.bytes 0 t') pkgHdrSize _ = _
    unfold CPkgHdr.setTag
    rw [rd_wr_of_disjoint (Or.inr (by simp [pkgHdrSize])), h.area]

theorem SelfSized.size (hs : SelfSized pkg) (hl : l.length = pkg.maxSize) (m : ℕ → UInt8) (p : ℕ) :
    pkg.realSize (fun i => wr m p l (p + i)) = (bodyOf pkg l).length ∧
      rd (wr m p l) p (bodyOf pkg l).length = bodyOf pkg l := by
  have hle := hs.le (wr (fun _ => 0) 0 l)
  have hlen : (bodyOf pkg l).length = pkg.realSize (wr (fun _ => 0) 0 l) := by
    unfold bodyOf
    rw [List.length_take]; omega
  refine ⟨?_, ?_⟩
  · rw [hlen]
    refine hs.determined _ _ fun i hi => ?_
    have hi' : i < l.length := by omega
    have h0 := wr_add (m := fun _ => 0) (p := 0) hi'
    rw [Nat.zero_add] at h0
    show wr m p l (p + i) = _
    rw [wr_add hi', h0]
  · have hrd := rd_wr m p l
    calc rd (wr m p l) p (bodyOf pkg l).length
        = (rd (wr m p l) p l.length).take (bodyOf pkg l).length := (rd_take (by omega)).symm
      _ = bodyOf pkg l := by rw [hrd, hlen]; rfl

/-- **A body**: it is given if there is room, and what it is filled with is in the block when it is
complete. -/
theorem Ready.fill (h : Ready ar b t bodies) (hs : SelfSized ar.pkg)
    (hl : l.length = ar.pkg.maxSize) (hroom : ¬ b.getTailFreeSize < ar.pkg.maxSize) :
    ∃ b', Ready (({ ar with pending := true }).fill l).bodyReady b' t
      (bodies ++ [bodyOf ar.pkg l]) := by
  have hfits := h.fits
  have hoff := h.offset
  have hlen := h.len
  rw [CMemBlock.getTailFreeSize_eq hfits] at hroom
  unfold CMemBlock.Fits at hfits
  have htail : b.getTailFreeBuf = b.len := by unfold CMemBlock.getTailFreeBuf; omega
  obtain ⟨hsize, hbody⟩ := hs.size hl b.bytes b.len
  have hle : (bodyOf ar.pkg l).length ≤ ar.pkg.maxSize := by
    unfold bodyOf
    rw [List.length_take]; omega
  have hflat : (bodies ++ [bodyOf ar.pkg l]).flatten = bodies.flatten ++ bodyOf ar.pkg l := by simp
  set b1 : CMemBlock := { b with bytes := wr b.bytes b.len l } with hb1
  have hfits1 : b1.Fits := h.fits
  obtain ⟨hfit, hlen'⟩ := hfits1.incLen (n := (bodyOf ar.pkg l).length) (by
    show _ ≤ maxMemSize - (b.offset + b.len)
    omega)
  have hmem : (({ ar with pending := true }).fill l).bodyReady.pMem =
      some (b1.incLen (bodyOf ar.pkg l).length) := by
    simp only [CArchive.fill, CArchive.bodyReady, h.mem, Option.map_some, htail]
    show some (b1.incLen (ar.pkg.realSize fun i => wr b.bytes b.len l (b.getTailFreeBuf + i))) = _
    rw [htail, hsize]
  have hrest : (({ ar with pending := true }).fill l).bodyReady =
      { ar with pMem := some (b1.incLen (bodyOf ar.pkg l).length), pending := false } := by
    rw [← hmem]
    simp [CArchive.fill, CArchive.bodyReady, h.mem]
  rw [hrest]
  refine ⟨_, rfl, h.initOffset, rfl, hoff, hfit, ?_, ?_, ?_⟩
  · rw [hlen', hflat, List.length_append]
    show b.len + _ = _
    omega
  · refine h.hdr.congr fun i hi => ?_
    show wr b.bytes b.len l (0 + i) = _
    rw [wr_of_lt (by omega)]
  · rw [hflat, List.length_append]
    refine (rd_append_iff rfl rfl).mpr ⟨?_, ?_⟩
    · show rd (wr b.bytes b.len l) _ _ = _
      rw [rd_wr_of_disjoint (Or.inl (by omega)), h.area]
    · show rd (wr b.bytes b.len l) _ _ = _
      rw [← hlen, hbody]

/-! ### A draft -/

/-- What a body is filled with. -/
def Filled (pkg : PkgType) (body : List UInt8) : Prop :=
  ∃ l, body = bodyOf pkg l ∧ l.length = pkg.maxSize ∧ SelfSized pkg

/-- A draft of the type `pkg` whose archive, once it has a header and no pending body, is ready. -/
structure Opened (fresh : ℕ → UInt8) (pkg : PkgType) (d : Draft) : Prop where
  type : d.ar.pkg = pkg
  filled : ∀ body ∈ d.bodies, Filled pkg body
  tag_lt : d.uiTag < 2 ^ 32
  tail : ∀ b, (d.ar.getHdr fresh pkgVer).pMem = some b → pkgHdrSize ≤ b.getTailFreeBuf
  ready : ∃ b, Ready (d.ar.getHdr fresh pkgVer).bodyReady b d.uiTag d.bodies

variable {fresh : ℕ → UInt8} {d : Draft}

theorem getHdr_of_mem (h : ar.pMem = some b) (v : UInt8) : ar.getHdr fresh v = ar := by
  unfold CArchive.getHdr
  rw [h]

theorem pkg_getHdr (ar : CArchive) (fresh : ℕ → UInt8) (v : UInt8) :
    (ar.getHdr fresh v).pkg = ar.pkg := by
  unfold CArchive.getHdr
  split <;> rfl

theorem pkg_bodyReady (ar : CArchive) : ar.bodyReady.pkg = ar.pkg := by
  unfold CArchive.bodyReady
  split
  · split_ifs <;> rfl
  · rfl

theorem exists_getHdr (ar : CArchive) (fresh : ℕ → UInt8) (v : UInt8) :
    ∃ b, (ar.getHdr fresh v).pMem = some b := by
  unfold CArchive.getHdr
  split
  · rename_i b h; exact ⟨b, h⟩
  · exact ⟨_, rfl⟩

theorem opened_new (fresh : ℕ → UInt8) (pkg : PkgType) : Opened fresh pkg (.new pkg) := by
  obtain ⟨b, h⟩ := ready_new fresh pkg
  refine ⟨rfl, fun _ h => absurd h List.not_mem_nil, show 0 < 2 ^ 32 by decide,
    fun b' hb' => ?_, b, ?_⟩
  · rw [show (Draft.new pkg).ar = .new pkg 0 from rfl, h.mem] at hb'
    cases hb'
    unfold CMemBlock.getTailFreeBuf
    rw [h.len]; omega
  · show Ready ((CArchive.new pkg 0).getHdr fresh pkgVer).bodyReady b 0 []
    rw [h.bodyReady]
    exact h

theorem bodyReady_setTag (hmem : ar.pMem = some b) (h0 : ar.initOffset = 0)
    (htail : pkgHdrSize ≤ b.getTailFreeBuf)
    (t' : ℕ) : (ar.setTag t').bodyReady = ar.bodyReady.setTag t' := by
  have hbody : (fun i => CPkgHdr.setTag b.bytes 0 t' (b.getTailFreeBuf + i)) = fun i =>
    b.bytes (b.getTailFreeBuf + i) := by
    funext i
    unfold CPkgHdr.setTag
    unfold pkgHdrSize at htail
    rw [wr_of_ge (by rw [Lib.Bytes.length_leBytes]; omega)]
  unfold CArchive.bodyReady CArchive.setTag
  simp only [hmem, Option.map_some, h0]
  split_ifs with hp
  · simp only [Option.map_some]
    have hsame : ({ b with bytes := CPkgHdr.setTag b.bytes 0 t' } : CMemBlock).getTailFreeBuf =
      b.getTailFreeBuf := rfl
    rw [hsame, hbody]
    rfl
  · simp only [hmem, Option.map_some, h0]

/-- **One use** of an archive. -/
theorem Opened.use (h : Opened fresh pkg d) {u : Use} (hu : u.Ok pkg) :
    Opened fresh pkg (d.use fresh u) ∧ ∃ b, (d.use fresh u).ar.pMem = some b := by
  obtain ⟨b, hready⟩ := h.ready
  obtain ⟨b0, hb0⟩ := exists_getHdr d.ar fresh pkgVer
  have htail := h.tail b0 hb0
  rcases u with t' | l
  · have hinit : (d.ar.getHdr fresh pkgVer).initOffset = 0 := by
      have := hready.initOffset
      unfold CArchive.bodyReady at this
      rw [hb0] at this
      dsimp only at this
      split_ifs at this <;> exact this
    have hmem : ((d.ar.getHdr fresh pkgVer).setTag (u32 t')).pMem =
        some { b0 with bytes := CPkgHdr.setTag b0.bytes 0 (u32 t') } := by
      unfold CArchive.setTag
      simp only [hb0, hinit, Option.map_some]
    refine ⟨⟨?_, h.filled, u32_lt t', fun b' hb' => ?_, ?_⟩, _, hmem⟩
    · show ((d.ar.getHdr fresh pkgVer).setTag (u32 t')).pkg = pkg
      rw [← h.type]
      exact pkg_getHdr d.ar fresh pkgVer
    · rw [show (d.use fresh (.tag t')).ar = (d.ar.getHdr fresh pkgVer).setTag (u32 t') from rfl,
        getHdr_of_mem hmem, hmem] at hb'
      cases hb'
      exact htail
    · obtain ⟨b', hb'⟩ := hready.setTag (u32 t')
      refine ⟨b', ?_⟩
      show Ready (((d.ar.getHdr fresh pkgVer).setTag (u32 t')).getHdr fresh pkgVer).bodyReady b'
        (u32 t') d.bodies
      rw [getHdr_of_mem hmem, bodyReady_setTag hb0 hinit htail]
      exact hb'
  · obtain ⟨hl, hs⟩ := hu
    have hpkg : (d.ar.getHdr fresh pkgVer).bodyReady.pkg = pkg := by
      rw [pkg_bodyReady, pkg_getHdr, h.type]
    have hlen := hready.len
    have hoff := hready.offset
    have htail' : pkgHdrSize ≤ b.getTailFreeBuf := by unfold CMemBlock.getTailFreeBuf; omega
    by_cases hroom : b.getTailFreeSize < pkg.maxSize
    · have hd : d.use fresh (.body l) = { d with ar := (d.ar.getHdr fresh pkgVer).bodyReady } := by
        simp only [Draft.use, CArchive.getNextBody, hready.mem, hpkg, if_pos hroom]
      rw [hd]
      refine ⟨⟨hpkg, h.filled, h.tag_lt, fun b' hb' => ?_, b, ?_⟩, b, hready.mem⟩
      · rw [hready.getHdr, hready.mem] at hb'
        cases hb'
        exact htail'
      · show Ready ((d.ar.getHdr fresh pkgVer).bodyReady.getHdr fresh pkgVer).bodyReady b
          d.uiTag d.bodies
        rw [hready.getHdr, hready.bodyReady]
        exact hready
    · have hd : d.use fresh (.body l) =
          { d with
            ar := ({ (d.ar.getHdr fresh pkgVer).bodyReady with pending := true }).fill l
            bodies := d.bodies ++ [bodyOf pkg l] } := by
        simp only [Draft.use, CArchive.getNextBody, hready.mem, hpkg, if_neg hroom, h.type]
      have hmem : (({ (d.ar.getHdr fresh pkgVer).bodyReady with pending := true } : CArchive).fill
        l).pMem =
          some { b with bytes := wr b.bytes b.getTailFreeBuf l } := by
        simp only [CArchive.fill, hready.mem, Option.map_some]
      obtain ⟨b', hb'⟩ := hready.fill (hpkg ▸ hs) (by rw [hpkg]; exact hl)
        (by rw [hpkg]; exact hroom)
      rw [hd]
      refine ⟨⟨hpkg, fun body hbody => ?_, h.tag_lt, fun b2 hb2 => ?_, b', ?_⟩, _, hmem⟩
      · rcases List.mem_append.mp hbody with hbody | hbody
        · exact h.filled body hbody
        · exact ⟨l, List.mem_singleton.mp hbody, hl, hs⟩
      · rw [getHdr_of_mem hmem, hmem] at hb2
        cases hb2
        exact htail'
      · rw [getHdr_of_mem hmem, ← hpkg]
        exact hb'

/-- **Using an archive**, at least once. -/
theorem opened_uses : ∀ {us : List Use} {d : Draft}, Opened fresh pkg d →
    (∀ u ∈ us, u.Ok pkg) → us ≠ [] →
    Opened fresh pkg (us.foldl (Draft.use fresh) d) ∧
      ∃ b, (us.foldl (Draft.use fresh) d).ar.pMem = some b
  | [], _, _, _, hne => absurd rfl hne
  | [u], _, h, hu, _ => h.use (hu u List.mem_cons_self)
  | u :: _ :: _, _, h, hu, _ => by
    rw [List.foldl_cons]
    exact opened_uses (h.use (hu u List.mem_cons_self)).1
      (fun x hx => hu x (List.mem_cons_of_mem _ hx))
      (List.cons_ne_nil _ _)

/-- **The package** of an archive that was used. -/
theorem Opened.serialize (h : Opened fresh pkg d) (hmem : ∃ b, d.ar.pMem = some b) :
    ∃ b, d.ar.serialize = some b ∧ b.offset = 0 ∧ b.Fits ∧
      b.len = pkgHdrSize + d.bodies.flatten.length ∧
      Hdr b.bytes 0 b.len pkg.opcode d.uiTag pkgVer ∧
      rd b.bytes pkgHdrSize d.bodies.flatten.length = d.bodies.flatten := by
  obtain ⟨b0, hb0⟩ := hmem
  obtain ⟨b, hready⟩ := h.ready
  rw [getHdr_of_mem hb0] at hready
  have hdr := (hready.hdr.setLen b.len).setType normalPkg
  rw [pkg_bodyReady, h.type] at hdr
  refine ⟨{ b with bytes := CPkgHdr.setType (CPkgHdr.setLen b.bytes 0 b.len) 0 normalPkg }, ?_,
    hready.offset,
    hready.fits, hready.len, hdr, ?_⟩
  · unfold CArchive.serialize
    simp only [hready.mem, hready.initOffset, Option.map_some]
  · show rd (CPkgHdr.setType (CPkgHdr.setLen b.bytes 0 b.len) 0 normalPkg) _ _ = _
    unfold CPkgHdr.setType CPkgHdr.setLen
    rw [rd_wr_of_disjoint (Or.inr (by simp [pkgHdrSize])),
      rd_wr_of_disjoint (Or.inr (by simp [pkgHdrSize])),
      hready.area]

end SmartNet.Pkg.Archive

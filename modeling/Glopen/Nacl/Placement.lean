import Glopen.Nacl.Loader

/-! Where the bytes of an accepted ELF image go. -/
namespace Glopen.Nacl

open Memory

section Placement

variable {arch : Arch} {gp : Gio} {addrBits : Nat} {init out : SegmentBounds}
  {image image' : NaClElfImage}

section

variable (created : naClElfImageNew arch gp = .ok image)
  (accepted : naClElfImageValidateProgramHeaders arch image addrBits init = .ok (image', out))
include created accepted

theorem write_placed {w : SegmentWrite} (stored : w ∈ (naClElfImageLoad arch image' gp addrBits).1) :
    w.php ∈ image.phdrs ∧ w.count ≤ w.php.pFilesz ∧ image'.phdrs[w.segnum]? = some w.php ∧
      ∃ check, Placed arch addrBits check w.php := by
  obtain ⟨same, seen, -, inv⟩ := validated_scan (image_bounded created) accepted
  obtain ⟨-, index, count⟩ := loadSegments_writes _ 0 stored
  rw [Nat.sub_zero] at index
  have member := List.mem_of_getElem? index
  rw [same] at member
  obtain ⟨j, check, -, -, placed, -⟩ := inv.placed _ member rfl
  refine ⟨(List.of_mem_zip member).1, count, ?_, check, placed⟩
  obtain ⟨first, -⟩ := List.getElem?_zip_eq_some.mp index
  exact first

theorem write_contained {w : SegmentWrite} (stored : w ∈ (naClElfImageLoad arch image' gp addrBits).1) :
    naclTrampolineEnd ≤ w.start ∧ w.stop < 2 ^ addrBits := by
  obtain ⟨-, count, -, check, placed⟩ := write_placed created accepted stored
  have := placed.high
  have := placed.file
  exact ⟨placed.low, by simp only [SegmentWrite.stop]; omega⟩

theorem writes_rows_differ {v w : SegmentWrite} (hv : v ∈ (naClElfImageLoad arch image' gp addrBits).1)
    (hw : w ∈ (naClElfImageLoad arch image' gp addrBits).1) (apart : v.segnum < w.segnum) :
    (matchingCheck arch v.php).map Prod.fst ≠ (matchingCheck arch w.php).map Prod.fst := by
  obtain ⟨same, seen, -, inv⟩ := validated_scan (image_bounded created) accepted
  obtain ⟨-, first, -⟩ := loadSegments_writes _ 0 hv
  obtain ⟨-, second, -⟩ := loadSegments_writes _ 0 hw
  rw [Nat.sub_zero, same] at first second
  obtain ⟨hi, ei⟩ := List.getElem?_eq_some_iff.mp first
  obtain ⟨hj, ej⟩ := List.getElem?_eq_some_iff.mp second
  have pair := List.pairwise_iff_getElem.mp inv.distinct _ _ hi hj apart
  rw [ei, ej] at pair
  exact pair rfl rfl

end

structure LayoutOk (arch : Arch) (bounds : SegmentBounds) : Prop where
  data_last : bounds.dataStart ≠ 0 → bounds.dataEnd = bounds.maxVaddr
  rodata_last : bounds.dataStart = 0 → bounds.rodataStart ≠ 0 → bounds.rodataEnd = bounds.maxVaddr
  rodata_data : bounds.rodataStart ≠ 0 → bounds.dataStart ≠ 0 → bounds.rodataEnd ≤ bounds.dataStart
  text_rodata : bounds.rodataStart ≠ 0 → naClRoundAllocPage arch bounds.staticTextEnd ≤ bounds.rodataStart
  text_data : bounds.rodataStart = 0 → bounds.dataStart ≠ 0 →
    naClRoundAllocPage arch bounds.staticTextEnd ≤ bounds.dataStart

theorem layoutOk_of_check {bounds : SegmentBounds} (passed : layoutCheck arch bounds = .ok ()) :
    LayoutOk arch bounds := by
  simp only [layoutCheck] at passed
  repeat' split at passed
  all_goals try contradiction
  constructor <;> omega

theorem roundAlloc_bounds (arch : Arch) (n : Nat) (small : n + naclMapPagesize ≤ 2 ^ arch.ptrBits) :
    n ≤ naClRoundAllocPage arch n ∧ naClRoundAllocPage arch n < n + naclMapPagesize ∧
      naClRoundAllocPage arch n % naclMapPagesize = 0 := by
  simp only [naClRoundAllocPage, roundUp]
  rw [Nat.mod_eq_of_lt (by simp only [naclMapPagesize] at *; omega)]
  simp only [naclMapPagesize] at *
  omega

theorem space_le (bits : addrBits ≤ arch.naclMaxAddrBits) :
    2 ^ addrBits + 2 * naclMapPagesize ≤ 2 ^ arch.ptrBits := by
  have := Nat.pow_le_pow_right (show 0 < 2 by decide) bits
  cases arch <;> simp only [Arch.naclMaxAddrBits, Arch.ptrBits, naclMapPagesize] at * <;> omega

theorem kinds_disjoint (facts : SegmentFacts arch addrBits init image.phdrs out)
    (cleared : init.rodataStart = 0 ∧ init.dataStart = 0)
    (bits : addrBits ≤ arch.naclMaxAddrBits) (layout : LayoutOk arch out) {p q : ElfPhdr}
    (hp : p ∈ image.phdrs) (hq : q ∈ image.phdrs) : (p.IsText → q.IsRodata → p.pVaddr + p.pFilesz ≤ q.pVaddr) ∧
    (p.IsText → q.IsData → p.pVaddr + p.pFilesz ≤ q.pVaddr) ∧
    (p.IsRodata → q.IsData → p.pVaddr + p.pFilesz ≤ q.pVaddr) := by
  have room := space_le bits
  have high := facts.high
  have rounded : ∀ php ∈ image.phdrs, php.IsText →
      php.pVaddr + php.pFilesz ≤ naClRoundAllocPage arch out.staticTextEnd := by
    intro php member text
    obtain ⟨start, ends, file, below⟩ := facts.text_at php member text
    have := (roundAlloc_bounds arch out.staticTextEnd (by omega)).1
    omega
  have nonzero : ∀ n, naclTrampolineEnd ≤ n → n ≠ 0 := by
    intro n low
    have : 0 < naclTrampolineEnd := by decide
    omega
  refine ⟨?_, ?_, ?_⟩
  · intro text rodata
    have r := facts.rodata_at q hq rodata
    have := layout.text_rodata (by rw [r.2.1]; exact nonzero _ r.1)
    have := rounded p hp text
    omega
  · intro text data
    have d := facts.data_at q hq data
    have dataStart : out.dataStart ≠ 0 := by rw [d.2.1]; exact nonzero _ d.1
    have ends := rounded p hp text
    rcases facts.rodata_from with none | ⟨r, hr, rodata⟩
    · have := layout.text_data (none.trans cleared.1) dataStart
      omega
    · have r := facts.rodata_at r hr rodata
      have rodataStart : out.rodataStart ≠ 0 := by rw [r.2.1]; exact nonzero _ r.1
      have := layout.text_rodata rodataStart
      have := layout.rodata_data rodataStart dataStart
      omega
  · intro rodata data
    have r := facts.rodata_at p hp rodata
    have d := facts.data_at q hq data
    have := layout.rodata_data (by rw [r.2.1]; exact nonzero _ r.1) (by rw [d.2.1]; exact nonzero _ d.1)
    omega

def SegmentWrite.range (w : SegmentWrite) : AddrRange := ⟨w.start, w.stop⟩

def ElfPhdr.LaidOut (php : ElfPhdr) : Prop := php.IsText ∨ php.IsRodata ∨ php.IsData

theorem disjoint_of_le {r s : AddrRange} (order : r.stop ≤ s.start ∨ s.stop ≤ r.start) : r.Disjoint s := by
  rintro x ⟨h1, h2, h3, h4⟩
  omega

/-- Every store of the loader lies between the trampolines and the end of the address space.
Stores for different text, rodata and data headers are disjoint once the layout checks of
`NaClAppLoadFile` have passed as well. -/
theorem elf_image_load_placement (created : naClElfImageNew arch gp = .ok image)
    (accepted : naClElfImageValidateProgramHeaders arch image addrBits init = .ok (image', out)) :
    (∀ w ∈ (naClElfImageLoad arch image' gp addrBits).1, naclTrampolineEnd ≤ w.start ∧ w.stop < 2 ^ addrBits) ∧
    (init.rodataStart = 0 ∧ init.dataStart = 0 → addrBits ≤ arch.naclMaxAddrBits →
      layoutCheck arch out = .ok () →
      ∀ v ∈ (naClElfImageLoad arch image' gp addrBits).1,
      ∀ w ∈ (naClElfImageLoad arch image' gp addrBits).1, v.segnum ≠ w.segnum →
        v.php.LaidOut → w.php.LaidOut → v.range.Disjoint w.range) := by
  refine ⟨fun w stored => write_contained created accepted stored, ?_⟩
  intro cleared bits passed v hv w hw apart
  obtain ⟨same, seen, text_seen, inv⟩ := validated_scan (image_bounded created) accepted
  have facts := inv.facts text_seen
  have layout := layoutOk_of_check passed
  obtain ⟨memv, countv, -⟩ := write_placed created accepted hv
  obtain ⟨memw, countw, -⟩ := write_placed created accepted hw
  have vw := kinds_disjoint facts cleared bits layout memv memw
  have wv := kinds_disjoint facts cleared bits layout memw memv
  have rows : (matchingCheck arch v.php).map Prod.fst ≠ (matchingCheck arch w.php).map Prod.fst := by
    rcases Nat.lt_or_gt_of_ne apart with order | order
    · exact writes_rows_differ created accepted hv hw order
    · exact (writes_rows_differ created accepted hw hv order).symm
  have one_row : ∀ flags, v.php.Loads flags → w.php.Loads flags →
      flags = pfR ||| pfX ∨ flags = pfR ∨ flags = pfR ||| pfW → False := by
    intro flags fv fw known
    obtain ⟨v1, v2, v3⟩ := matching_load arch fv
    obtain ⟨w1, w2, w3⟩ := matching_load arch fw
    rcases known with h | h | h
    · obtain ⟨c, hc⟩ := v1 h
      obtain ⟨d, hd⟩ := w1 h
      exact rows (by rw [hc, hd]; rfl)
    · obtain ⟨c, hc⟩ := v2 h
      obtain ⟨d, hd⟩ := w2 h
      exact rows (by rw [hc, hd]; rfl)
    · obtain ⟨c, hc⟩ := v3 h
      obtain ⟨d, hd⟩ := w3 h
      exact rows (by rw [hc, hd]; rfl)
  intro kv kw
  apply disjoint_of_le
  simp only [SegmentWrite.range, SegmentWrite.start, SegmentWrite.stop]
  rcases kv with tv | rv | dv <;> rcases kw with tw | rw' | dw
  · exact (one_row _ tv tw (Or.inl rfl)).elim
  · have := vw.1 tv rw'
    omega
  · have := vw.2.1 tv dw
    omega
  · have := wv.1 tw rv
    omega
  · exact (one_row _ rv rw' (Or.inr (Or.inl rfl))).elim
  · have := vw.2.2 rv dw
    omega
  · have := wv.2.1 tw dv
    omega
  · have := wv.2.2 rw' dv
    omega
  · exact (one_row _ dv dw (Or.inr (Or.inr rfl))).elim

end Placement

def elfWord (n : Nat) : List Byte :=
  [.ofNat 8 n, .ofNat 8 (n / 2 ^ 8), .ofNat 8 (n / 2 ^ 16), .ofNat 8 (n / 2 ^ 24)]

def nexeHeader (entry : Nat) (segs : List ElfPhdr) : List Byte :=
  [0x7f, 0x45, 0x4c, 0x46, 1, 1, 1, 123, 7, 0, 0, 0, 0, 0, 0, 0, 2, 0, 3, 0] ++
  elfWord 1 ++ elfWord entry ++ elfWord 52 ++ elfWord 0 ++ elfWord 0x200000 ++
  [52, 0, 32, 0, .ofNat 8 segs.length, 0, 0, 0, 0, 0, 0, 0] ++
  segs.flatMap fun seg =>
    elfWord seg.pType ++ elfWord seg.pOffset ++ elfWord seg.pVaddr ++ elfWord 0 ++
    elfWord seg.pFilesz ++ elfWord seg.pMemsz ++ elfWord seg.pFlags ++ elfWord 0

def nexeFile (entry : Nat) (segs : List ElfPhdr) : Gio where
  content := fun pos => ((nexeHeader entry segs)[pos]?).getD 0x90
  seek := fun _ => true
  read := fun _ count => count
  read_le := fun _ count => Nat.le_refl count

def loadSegment (flags vaddr size : Nat) : ElfPhdr where
  pType := ptLoad
  pFlags := flags
  pOffset := 0x1000
  pVaddr := vaddr
  pFilesz := size
  pMemsz := size

def nexeImage (entry : Nat) (segs : List ElfPhdr) (loadable : List Bool) : NaClElfImage where
  ehdr :=
    { eIdent := [0x7f, 0x45, 0x4c, 0x46, 1, 1, 1, 123, 7, 0, 0, 0, 0, 0, 0, 0]
      eType := 2, eMachine := 3, eVersion := 1, eEntry := entry, ePhoff := 52
      eFlags := 0x200000, ePhentsize := 32, ePhnum := segs.length }
  phdrs := segs
  loadable := loadable

def noBounds : SegmentBounds := ⟨0, 0, 0, 0, 0, 0⟩

def overlappingSegments : List ElfPhdr :=
  [loadSegment (pfR ||| pfX) 0x20000 16, loadSegment pfR 0x20000 16]

/-- Overlapping headers pass the program header checks and are both stored. -/
theorem overlapping_headers_accepted : ∃ image image' out v w,
      naClElfImageNew .x86_32 (nexeFile 0x20000 overlappingSegments) = .ok image ∧
      naClElfImageValidateProgramHeaders .x86_32 image 30 noBounds = .ok (image', out) ∧
      v ∈ (naClElfImageLoad .x86_32 image' (nexeFile 0x20000 overlappingSegments) 30).1 ∧
      w ∈ (naClElfImageLoad .x86_32 image' (nexeFile 0x20000 overlappingSegments) 30).1 ∧
      v.segnum ≠ w.segnum ∧ ¬ v.range.Disjoint w.range := by
  refine ⟨nexeImage 0x20000 overlappingSegments [false, false],
    nexeImage 0x20000 overlappingSegments [true, true],
    ⟨0x20010, 0x20000, 0x20010, 0, 0, 0x20010⟩,
    ⟨0, loadSegment (pfR ||| pfX) 0x20000 16, 16⟩,
    ⟨1, loadSegment pfR 0x20000 16, 16⟩, by decide +kernel,
    by decide +kernel, ?_, ?_, by decide, ?_⟩
  · decide +kernel
  · decide +kernel
  · intro disjoint
    exact disjoint 0x20000 (by decide)

def separateSegments : List ElfPhdr :=
  [loadSegment (pfR ||| pfX) 0x20000 16, loadSegment pfR 0x30000 16]

theorem separate_headers_placement :
    (∀ w ∈ (naClElfImageLoad .x86_32 (nexeImage 0x20000 separateSegments [true, true])
        (nexeFile 0x20000 separateSegments) 30).1,
      naclTrampolineEnd ≤ w.start ∧ w.stop < 2 ^ 30) ∧
    ∀ v ∈ (naClElfImageLoad .x86_32 (nexeImage 0x20000 separateSegments [true, true])
        (nexeFile 0x20000 separateSegments) 30).1,
    ∀ w ∈ (naClElfImageLoad .x86_32 (nexeImage 0x20000 separateSegments [true, true])
        (nexeFile 0x20000 separateSegments) 30).1,
      v.segnum ≠ w.segnum → v.php.LaidOut → w.php.LaidOut → v.range.Disjoint w.range := by
  have created : naClElfImageNew .x86_32 (nexeFile 0x20000 separateSegments) =
      .ok (nexeImage 0x20000 separateSegments [false, false]) := by decide +kernel
  have accepted : naClElfImageValidateProgramHeaders .x86_32
      (nexeImage 0x20000 separateSegments [false, false]) 30 noBounds =
      .ok (nexeImage 0x20000 separateSegments [true, true],
        ⟨0x20010, 0x30000, 0x30010, 0, 0, 0x30010⟩) := by decide +kernel
  have placement := elf_image_load_placement created accepted
  exact ⟨placement.1, placement.2 ⟨rfl, rfl⟩ (by decide) (by decide +kernel)⟩

/-! The layout that a successful load leaves behind: inversion of each stage of
`NaClAppLoadFile`, then the separation of the static text from its neighbours. -/

open Run

/-- An application as `NaClAppCtor` leaves it; the options may have been changed since. -/
structure Constructed (nap : NaClApp) : Prop where
  rodataStart : nap.rodataStart = 0
  dataStart : nap.dataStart = 0
  memMap : nap.memMap = []

section Stages

variable {arch : Arch} {host : LoaderHost arch} {gp : Gio} {nap nap' : NaClApp}
  {image : NaClElfImage}

theorem liftCode_ok {A : Type} {result : Except NaClErrorCode A} {a : A}
    (ran : liftCode result = .ok a) : result = .ok a := by
  cases result with
  | error code => cases ran
  | ok b =>
    cases ran
    rfl

structure Checked (arch : Arch) (host : LoaderHost arch) (gp : Gio) (nap : NaClApp)
    (image : NaClElfImage) (out : SegmentBounds) (nap' : NaClApp) : Prop where
  bits : nap.addrBits ≤ arch.naclMaxAddrBits
  created : ∃ fresh, naClElfImageNew arch gp = .ok fresh ∧
    naClElfImageValidateProgramHeaders arch fresh nap.addrBits
      (initialBounds host { nap with stackSize := naClRoundAllocPage arch nap.stackSize }) =
      .ok (image, out)
  layout : layoutCheck arch out = .ok ()
  app : ∃ bundleSize, nap' = { nap with
    stackSize := naClRoundAllocPage arch nap.stackSize
    staticTextEnd := out.staticTextEnd
    rodataStart := out.rodataStart
    dataStart := out.dataStart
    breakAddr := out.maxVaddr
    dataEnd := out.maxVaddr
    bundleSize := bundleSize
    entryPt := image.ehdr.eEntry }

theorem checkImage_ok (ran : checkImage arch host gp nap = .ok (image, nap')) :
    ∃ out, Checked arch host gp nap image out nap' := by
  rw [checkImage] at ran
  split at ran
  · contradiction
  rename_i bits
  obtain ⟨fresh, created, ran⟩ := except_bind_ok ran
  obtain ⟨-, -, ran⟩ := except_bind_ok ran
  obtain ⟨-, -, ran⟩ := except_bind_ok ran
  obtain ⟨⟨checked, out⟩, validated, ran⟩ := except_bind_ok ran
  obtain ⟨bundleSize, -, ran⟩ := except_bind_ok ran
  simp only at ran
  split at ran
  · contradiction
  obtain ⟨⟨⟩, layout, ran⟩ := except_bind_ok ran
  cases ran
  exact ⟨out, by omega, ⟨fresh, created, liftCode_ok validated⟩, layout, bundleSize, rfl⟩

theorem naClAllocateSpace_ok {size mem : Nat} (small : size ≤ 2 ^ arch.ptrBits)
    (ran : naClAllocateSpace arch host size = .ok mem) :
    (mem % naclPagesize = 0 ∧ mem + size ≤ 2 ^ arch.ptrBits) ∧ (arch = .arm → mem = 0) := by
  cases arch with
  | x86_64 =>
    simp only [naClAllocateSpace] at ran
    split at ran
    · contradiction
    split at ran
    · rename_i found
      cases ran
      exact ⟨host.allocate_fits _ _ found, nofun⟩
    · contradiction
  | x86_32 =>
    cases found : host.allocate size with
    | none =>
      simp only [naClAllocateSpace, found] at ran
      contradiction
    | some addr =>
      simp only [naClAllocateSpace, found] at ran
      cases ran
      exact ⟨host.allocate_fits _ _ found, nofun⟩
  | arm =>
    cases found : host.allocate size with
    | none =>
      simp only [naClAllocateSpace, found] at ran
      contradiction
    | some addr =>
      simp only [naClAllocateSpace, found] at ran
      cases ran
      exact ⟨⟨by decide, by omega⟩, fun _ => rfl⟩

structure SpaceOk (arch : Arch) (nap : NaClApp) : Prop where
  aligned : nap.memStart % naclPagesize = 0
  fits : nap.memStart + 2 ^ nap.addrBits ≤ 2 ^ arch.ptrBits
  arm : arch = .arm → nap.memStart = 0
  stack : nap.stackSize < 2 ^ nap.addrBits
  below : naClRoundAllocPage arch nap.dataEnd ≤ naClTruncAllocPage (2 ^ nap.addrBits - nap.stackSize)

theorem naClAllocAddrSpace_ok {hole : List AddrRange} (bits : nap.addrBits ≤ arch.naclMaxAddrBits)
    (ran : naClAllocAddrSpace arch host nap = .ok (nap', hole)) :
    (∃ mem, nap' = { nap with memStart := mem }) ∧ SpaceOk arch nap' := by
  have small := Nat.lt_of_le_of_lt bits arch.naclMaxAddrBits_lt
  have space : 2 ^ nap.addrBits ≤ 2 ^ arch.ptrBits :=
    Nat.pow_le_pow_right (by decide) (Nat.le_of_lt small)
  simp only [naClAllocAddrSpace, oneShl_of_lt small] at ran
  obtain ⟨mem, allocated, ran⟩ := except_bind_ok ran
  obtain ⟨⟨aligned, fits⟩, arm⟩ := naClAllocateSpace_ok space allocated
  split at ran
  · contradiction
  rename_i stack
  split at ran
  · contradiction
  rename_i below
  have ok : SpaceOk arch { nap with memStart := mem } :=
    ⟨aligned, fits, arm, Nat.lt_of_not_le stack, Nat.le_of_not_lt below⟩
  split at ran
  · cases Except.ok.inj ran
    exact ⟨⟨mem, rfl⟩, ok⟩
  split at ran
  · contradiction
  split at ran
  · contradiction
  cases Except.ok.inj ran
  exact ⟨⟨mem, rfl⟩, ok⟩

structure DynamicText (arch : Arch) (nap nap' : NaClApp) (shared : List AddrRange) : Prop where
  app : ∃ text, nap' = { nap with
    dynamicTextStart := naClRoundAllocPage arch nap.staticTextEnd
    dynamicTextEnd := nap'.dynamicTextEnd
    textShm := text }
  ends : nap'.dynamicTextEnd = naClRoundAllocPage arch nap.staticTextEnd ∨
    (nap.useShmForDynamicText = true ∧ nap'.dynamicTextEnd =
      shmUpperBound nap (naClRoundAllocPage arch nap.staticTextEnd) ∧
      ∃ n, 0 < n ∧ shared = [⟨naClRoundAllocPage arch nap.staticTextEnd,
        naClRoundAllocPage arch nap.staticTextEnd + naclMapPagesize * n⟩])

theorem subWord_eq_zero {width a b : Nat} (ha : a < 2 ^ width) (hb : b < 2 ^ width)
    (zero : subWord width a b = 0) : a = b := by
  rw [subWord, Nat.mod_eq_of_lt hb] at zero
  rcases Nat.lt_or_ge a b with order | order
  · rw [Nat.mod_eq_of_lt (by omega)] at zero
    omega
  · rw [show a + (2 ^ width - b) = a - b + 2 ^ width by omega, Nat.add_mod_right,
      Nat.mod_eq_of_lt (by omega)] at zero
    omega

theorem roundUp_lt (width page n : Nat) : roundUp width page n < 2 ^ width :=
  Nat.lt_of_le_of_lt (Nat.div_mul_le_self _ _) (Nat.mod_lt _ (Nat.two_pow_pos width))

theorem naClMakeDynamicTextShared_ok {shared : List AddrRange}
    (words : nap.rodataStart < 2 ^ arch.ptrBits ∧ nap.dataStart < 2 ^ arch.ptrBits)
    (ran : naClMakeDynamicTextShared arch host nap = .ok (nap', shared)) : DynamicText arch nap nap' shared := by
  simp only [naClMakeDynamicTextShared] at ran
  have base_lt : naClRoundAllocPage arch nap.staticTextEnd < 2 ^ arch.ptrBits := roundUp_lt _ _ _
  have upper_lt : shmUpperBound nap (naClRoundAllocPage arch nap.staticTextEnd) < 2 ^ arch.ptrBits := by
    rw [shmUpperBound]
    split
    · exact words.1
    split
    · exact words.2
    · exact base_lt
  split at ran
  · cases ran
    exact ⟨⟨nap.textShm, rfl⟩, .inl rfl⟩
  rename_i enabled
  split at ran
  · rename_i empty
    cases ran
    exact ⟨⟨nap.textShm, rfl⟩, .inl (subWord_eq_zero upper_lt base_lt empty)⟩
  rename_i nonempty
  split at ran
  · contradiction
  obtain ⟨-, -, ran⟩ := except_bind_ok ran
  cases ran
  refine ⟨⟨_, rfl⟩, .inr ⟨by simpa using enabled, rfl, _, ?_, rfl⟩⟩
  exact List.length_pos_of_mem ((mem_addresses (by decide)).mpr ⟨0, rfl, Nat.pos_of_ne_zero nonempty⟩)

theorem naClFillEndOfTextRegion_ok {unwritable : List AddrRange}
    (small : nap.staticTextEnd + 2 * naclMapPagesize ≤ 2 ^ arch.ptrBits)
    (ran : naClFillEndOfTextRegion arch unwritable nap = .ok nap') : nap' = { nap with
      staticTextEnd := naClRoundAllocPage arch (nap.staticTextEnd + naclHaltSledSize) } ∧
    storeTo unwritable nap.staticTextEnd
      (naClRoundAllocPage arch (nap.staticTextEnd + naclHaltSledSize) - nap.staticTextEnd) =
      .ok () := by
  have rounded := roundAlloc_bounds arch (nap.staticTextEnd + naclHaltSledSize)
    (by simp only [naclMapPagesize, naclHaltSledSize] at *; omega)
  have top : naClRoundAllocPage arch (nap.staticTextEnd + naclHaltSledSize) < 2 ^ arch.ptrBits :=
    roundUp_lt _ _ _
  have pad : subWord arch.ptrBits
      (naClRoundAllocPage arch (nap.staticTextEnd + naclHaltSledSize)) nap.staticTextEnd =
      naClRoundAllocPage arch (nap.staticTextEnd + naclHaltSledSize) - nap.staticTextEnd :=
    subWord_of_le (by omega) top
  simp only [naClFillEndOfTextRegion, pad] at ran
  split at ran
  · contradiction
  obtain ⟨⟨⟩, stored, ran⟩ := except_bind_ok ran
  cases ran
  refine ⟨?_, stored⟩
  have sum : nap.staticTextEnd +
      (naClRoundAllocPage arch (nap.staticTextEnd + naclHaltSledSize) - nap.staticTextEnd) =
      naClRoundAllocPage arch (nap.staticTextEnd + naclHaltSledSize) := by omega
  rw [sum, Nat.mod_eq_of_lt top]

end Stages

end Glopen.Nacl

import Glopen.Nacl.Protection

/-! The address space of an application that `NaClAppLoadFile` has loaded. -/
namespace Glopen.Nacl

open Memory Run

/-- The loaded application `loaded` is `laid` with its memory map filled in; the layout of
`laid` comes from the extents `out` of the segments of the image. -/
structure LoadSummary (arch : Arch) (nap : NaClApp) (image : NaClElfImage) (out : SegmentBounds)
    (laid loaded : NaClApp) : Prop where
  bits : nap.addrBits ≤ arch.naclMaxAddrBits
  facts : ∃ init, init.rodataStart = 0 ∧ init.dataStart = 0 ∧
    SegmentFacts arch nap.addrBits init image.phdrs out
  layout : LayoutOk arch out
  addrBits : laid.addrBits = nap.addrBits
  stackSize : laid.stackSize = naClRoundAllocPage arch nap.stackSize
  staticTextEnd : laid.staticTextEnd = naClRoundAllocPage arch (out.staticTextEnd + naclHaltSledSize)
  dynamicTextStart : laid.dynamicTextStart = naClRoundAllocPage arch out.staticTextEnd
  dynamicTextEnd : laid.dynamicTextEnd = naClRoundAllocPage arch out.staticTextEnd ∨
    (laid.dynamicTextEnd = shmUpperBound laid (naClRoundAllocPage arch out.staticTextEnd) ∧
      naClRoundAllocPage arch (out.staticTextEnd + naclHaltSledSize) ≤
        naClRoundAllocPage arch out.staticTextEnd)
  rodataStart : laid.rodataStart = out.rodataStart
  dataStart : laid.dataStart = out.dataStart
  breakAddr : laid.breakAddr = out.maxVaddr
  dataEnd : laid.dataEnd = out.maxVaddr
  memMap : laid.memMap = []
  space : SpaceOk arch laid
  protection : Protected arch laid loaded

section Summary

variable {arch : Arch} {host : LoaderHost arch} {gp : Gio} {nap loaded : NaClApp}
  {image : NaClElfImage}
variable {unwritable : List AddrRange} {textEnd : Nat} {out : SegmentBounds} {php : ElfPhdr}

theorem storeTo_ok {start count : Nat}
    (stored : storeTo unwritable start count = .ok ()) {r : AddrRange} (member : r ∈ unwritable) :
    min r.stop (start + count) ≤ max r.start start := by
  rw [storeTo] at stored
  split at stored
  · contradiction
  rename_i clear
  simp only [List.any_eq_true, not_exists, not_and, Bool.not_eq_true] at clear
  have := clear r member
  simp only [AddrRange.meets, decide_eq_false_iff_not, Nat.not_lt] at this
  exact this

theorem sled_stays_below {base n : Nat} (positive : 0 < n)
    (start : textEnd ≤ base) {rounded : Nat} (order : textEnd ≤ rounded)
    (member : (⟨base, base + naclMapPagesize * n⟩ : AddrRange) ∈ unwritable)
    (stored : storeTo unwritable textEnd (rounded - textEnd) = .ok ()) : rounded ≤ base := by
  have apart := storeTo_ok stored member
  simp only [naclMapPagesize] at apart
  omega

theorem words_of_facts {addrBits : Nat} {init : SegmentBounds} {phdrs : List ElfPhdr}
    (facts : SegmentFacts arch addrBits init phdrs out) (cleared : init.rodataStart = 0 ∧ init.dataStart = 0) :
    out.rodataStart < 2 ^ arch.ptrBits ∧ out.dataStart < 2 ^ arch.ptrBits := by
  have high := facts.high.2
  constructor
  · rcases facts.rodata_from with none | ⟨php, member, kind⟩
    · omega
    · have := facts.rodata_at php member kind
      omega
  · rcases facts.data_from with none | ⟨php, member, kind⟩
    · omega
    · have := facts.data_at php member kind
      omega

theorem load_summary (constructed : Constructed nap) (created : naClElfImageNew arch gp = .ok image)
    (ran : naClAppLoadFile arch host gp nap = .ok loaded) :
    ∃ out laid, LoadSummary arch nap image out laid loaded := by
  rw [naClAppLoadFile] at ran
  obtain ⟨⟨checked, nap1⟩, check, ran⟩ := except_bind_ok ran
  obtain ⟨out, bits, ⟨fresh, again, validated⟩, layout, bundleSize, app1⟩ := checkImage_ok check
  cases Except.ok.inj (created.symm.trans again)
  obtain ⟨same, seen, text_seen, inv⟩ := validated_scan (image_bounded created) validated
  have facts := inv.facts text_seen
  simp only at facts
  obtain ⟨⟨nap2, hole⟩, alloc, ran⟩ := except_bind_ok ran
  obtain ⟨⟨mem, app2⟩, space⟩ := naClAllocAddrSpace_ok (by rw [app1]; exact bits) alloc
  obtain ⟨⟨nap3, shared⟩, dynamic, ran⟩ := except_bind_ok ran
  have words := words_of_facts facts ⟨constructed.rodataStart, constructed.dataStart⟩
  obtain ⟨⟨text, app3⟩, ends⟩ :=
    naClMakeDynamicTextShared_ok (by rw [app2, app1]; exact words) dynamic
  obtain ⟨⟨⟩, -, ran⟩ := except_bind_ok ran
  obtain ⟨nap4, fill, ran⟩ := except_bind_ok ran
  obtain ⟨⟨⟩, -, ran⟩ := except_bind_ok ran
  obtain ⟨php, member, is_text⟩ := facts.text_present
  obtain ⟨-, text_end, file, below⟩ := facts.text_at php member is_text
  have room := space_le bits
  have high := facts.high.1
  have textEnd3 : nap3.staticTextEnd = out.staticTextEnd := by rw [app3, app2, app1]
  have textEnd2 : nap2.staticTextEnd = out.staticTextEnd := by rw [app2, app1]
  have small : out.staticTextEnd + 2 * naclMapPagesize ≤ 2 ^ arch.ptrBits := by omega
  obtain ⟨app4, stored⟩ := naClFillEndOfTextRegion_ok (by rw [textEnd3]; exact small) fill
  rw [textEnd3] at stored app4
  rw [textEnd2] at ends
  have upper3 : shmUpperBound nap2 (naClRoundAllocPage arch out.staticTextEnd) =
      shmUpperBound nap4 (naClRoundAllocPage arch out.staticTextEnd) := by
    rw [app4, app3]
    rfl
  have end4 : nap4.dynamicTextEnd = nap3.dynamicTextEnd := by rw [app4]
  have bits4 : nap4.addrBits = nap.addrBits := by rw [app4, app3, app2, app1]
  have space4 : SpaceOk arch nap4 := by
    rw [app4, app3]
    exact ⟨space.aligned, space.fits, space.arm, space.stack, space.below⟩
  refine ⟨out, nap4, bits, ⟨_, constructed.rodataStart, constructed.dataStart, facts⟩,
    layoutOk_of_check layout, bits4, by rw [app4, app3, app2, app1], by rw [app4],
    by rw [app4, app3, textEnd2], ?_, by rw [app4, app3, app2, app1],
    by rw [app4, app3, app2, app1], by rw [app4, app3, app2, app1],
    by rw [app4, app3, app2, app1], by rw [app4, app3, app2, app1]; exact constructed.memMap,
    space4, ?_⟩
  · rw [end4, ← upper3]
    rcases ends with empty | ⟨-, upper, n, positive, rfl⟩
    · exact Or.inl empty
    · have base := roundAlloc_bounds arch out.staticTextEnd (by simp only [naclMapPagesize] at *; omega)
      have sled := roundAlloc_bounds arch (out.staticTextEnd + naclHaltSledSize)
        (by simp only [naclMapPagesize, naclHaltSledSize] at *; omega)
      exact Or.inr ⟨upper, sled_stays_below positive base.1 (by omega) (by simp) stored⟩
  · refine naClMemoryProtection_ok space4 (by rw [bits4]; exact bits) ?_ ran
    rw [bits4]
    simp only [naclTrampolineEnd, naclSyscallStartAddr] at *
    omega

/-- The static text, with its sled and padding, is apart from the dynamic text and from every
data segment, and the dynamic text does not end below it. -/
structure LayoutSeparated (image : NaClElfImage) (nap : NaClApp) : Prop where
  dynamic : AddrRange.Disjoint ⟨naclTrampolineEnd, nap.staticTextEnd⟩
    ⟨nap.dynamicTextStart, nap.dynamicTextEnd⟩
  segments : ∀ php ∈ image.phdrs, php.IsRodata ∨ php.IsData →
    AddrRange.Disjoint ⟨naclTrampolineEnd, nap.staticTextEnd⟩
      ⟨php.pVaddr, php.pVaddr + php.pMemsz⟩
  order : nap.staticTextEnd ≤ nap.dynamicTextEnd

def SledFits (php : ElfPhdr) : Prop :=
  0 < php.pFilesz % naclMapPagesize ∧ php.pFilesz % naclMapPagesize + naclHaltSledSize ≤ naclMapPagesize

theorem roundAlloc_eq {n : Nat} (small : n + naclMapPagesize ≤ 2 ^ arch.ptrBits) :
    naClRoundAllocPage arch n = (n + 65535) / 65536 * 65536 := by
  simp only [naclMapPagesize] at small
  rw [naClRoundAllocPage, roundUp, naclMapPagesize, Nat.mod_eq_of_lt (by omega), Nat.add_sub_assoc (by decide)]

theorem sledFits_iff (ends : textEnd = naclTrampolineEnd + php.pFilesz)
    (small : textEnd + 2 * naclMapPagesize ≤ 2 ^ arch.ptrBits) :
    SledFits php ↔ naClRoundAllocPage arch (textEnd + naclHaltSledSize) ≤ naClRoundAllocPage arch textEnd := by
  rw [roundAlloc_eq (by simp only [naclMapPagesize, naclHaltSledSize] at *; omega),
    roundAlloc_eq (by simp only [naclMapPagesize] at *; omega)]
  simp only [SledFits, naclMapPagesize, naclHaltSledSize, naclTrampolineEnd] at *
  omega

section Separation

variable {laid : NaClApp}

section

variable (summary : LoadSummary arch nap image out laid loaded)
include summary

theorem LoadSummary.text :
    ∃ php ∈ image.phdrs, php.IsText ∧ out.staticTextEnd = naclTrampolineEnd + php.pFilesz ∧
      out.staticTextEnd + 2 * naclMapPagesize ≤ 2 ^ arch.ptrBits := by
  obtain ⟨init, -, -, facts⟩ := summary.facts
  obtain ⟨php, member, text⟩ := facts.text_present
  obtain ⟨-, ends, file, below⟩ := facts.text_at php member text
  have room := space_le summary.bits
  have high := facts.high.1
  exact ⟨php, member, text, ends, by omega⟩

theorem LoadSummary.sled_iff : (∀ php ∈ image.phdrs, php.IsText → SledFits php) ↔
      laid.staticTextEnd ≤ naClRoundAllocPage arch out.staticTextEnd := by
  obtain ⟨init, -, -, facts⟩ := summary.facts
  obtain ⟨php, member, text, ends, small⟩ := summary.text
  rw [summary.staticTextEnd]
  constructor
  · intro fits
    exact (sledFits_iff ends small).mp (fits php member text)
  · intro order other member' text'
    exact (sledFits_iff (facts.text_at other member' text').2.1 small).mpr order

theorem LoadSummary.rounded : naclTrampolineEnd ≤ naClRoundAllocPage arch out.staticTextEnd ∧
      naClRoundAllocPage arch out.staticTextEnd ≤ laid.staticTextEnd := by
  obtain ⟨php, member, text, ends, small⟩ := summary.text
  rw [summary.staticTextEnd, roundAlloc_eq (by simp only [naclMapPagesize] at *; omega),
    roundAlloc_eq (by simp only [naclMapPagesize, naclHaltSledSize] at *; omega)]
  simp only [naclTrampolineEnd, naclHaltSledSize] at *
  omega

theorem LoadSummary.segment_above (member : php ∈ image.phdrs) (kind : php.IsRodata ∨ php.IsData) :
    naClRoundAllocPage arch out.staticTextEnd ≤ php.pVaddr := by
  obtain ⟨init, noRodata, -, facts⟩ := summary.facts
  have layout := summary.layout
  have positive : 0 < naclTrampolineEnd := by decide
  rcases kind with rodata | data
  · have r := facts.rodata_at php member rodata
    have := layout.text_rodata (by omega)
    omega
  · have d := facts.data_at php member data
    rcases facts.rodata_from with none | ⟨other, member', rodata⟩
    · have := layout.text_data (by omega) (by omega)
      omega
    · have r := facts.rodata_at other member' rodata
      have := layout.text_rodata (by omega)
      have := layout.rodata_data (by omega) (by omega)
      omega

theorem shmUpperBound_above : naClRoundAllocPage arch out.staticTextEnd ≤
      shmUpperBound laid (naClRoundAllocPage arch out.staticTextEnd) := by
  rw [shmUpperBound, summary.rodataStart, summary.dataStart]
  have layout := summary.layout
  split
  · exact layout.text_rodata (by assumption)
  split
  · exact layout.text_data (by omega) (by assumption)
  · exact Nat.le_refl _

end

/-- A load separates the regions exactly when the halt sled fits into the text's last page. -/
theorem layout_separated_iff (constructed : Constructed nap) (created : naClElfImageNew arch gp = .ok image)
    (ran : naClAppLoadFile arch host gp nap = .ok loaded) :
    LayoutSeparated image loaded ↔ ∀ php ∈ image.phdrs, php.IsText → SledFits php := by
  obtain ⟨out, laid, summary⟩ := load_summary constructed created ran
  have app := summary.protection.app
  have static_ : loaded.staticTextEnd = laid.staticTextEnd := by rw [app]; rfl
  have start_ : loaded.dynamicTextStart = laid.dynamicTextStart := by rw [app]; rfl
  have end_ : loaded.dynamicTextEnd = laid.dynamicTextEnd := by rw [app]; rfl
  have dynStart := summary.dynamicTextStart
  have rounded := summary.rounded
  rw [summary.sled_iff]
  constructor
  · rintro ⟨dynamic, -, order⟩
    rw [static_, end_] at order
    rw [static_, start_, end_, dynStart] at dynamic
    refine Nat.le_of_not_lt fun crosses => ?_
    -- the first address of the dynamic text would belong to both regions
    exact dynamic (naClRoundAllocPage arch out.staticTextEnd)
      ⟨rounded.1, crosses, Nat.le_refl _, by simp only; omega⟩
  · intro fits
    refine ⟨?_, ?_, ?_⟩
    · apply disjoint_of_le
      simp only [static_, start_, dynStart]
      omega
    · intro php member kind
      have above := summary.segment_above member kind
      apply disjoint_of_le
      simp only [static_]
      omega
    · rw [static_, end_]
      have above := shmUpperBound_above summary
      rcases summary.dynamicTextEnd with same | ⟨upper, -⟩
      · omega
      · omega

end Separation

end Summary

def willingHost : LoaderHost .x86_32 where
  allocate := fun size => if size ≤ 2 ^ 30 then some 0x40000000 else none
  allocate_fits := by
    intro size mem granted
    split at granted
    · cases Option.some.inj granted
      have space : 2 ^ Arch.x86_32.ptrBits = 4294967296 := by decide
      exact ⟨by decide, by omega⟩
    · contradiction
  madvise := fun _ _ => true
  mprotect := fun addr _ => addr % naclPagesize == 0
  mprotect_aligned := by
    intro addr len positive granted
    simpa using granted
  shmCreate := fun _ => true
  shmMapAt := fun _ _ => true
  vmmapGrow := fun _ => true
  validateCode := fun _ => true
  garbageRodataEnd := 0
  garbageDataEnd := 0

def freshApp : NaClApp where
  addrBits := 30
  stackSize := 0x10000
  memStart := 0
  staticTextEnd := 0
  dynamicTextStart := 0
  dynamicTextEnd := 0
  rodataStart := 0
  dataStart := 0
  dataEnd := 0
  breakAddr := 0
  entryPt := 0
  bundleSize := bundle32
  useShmForDynamicText := false
  ignoreValidatorResult := false
  textShm := none
  memMap := []

theorem freshApp_constructed : Constructed freshApp := ⟨rfl, rfl, rfl⟩

def textAndRodata (size : Nat) : List ElfPhdr :=
  [loadSegment (pfR ||| pfX) 0x20000 size, loadSegment pfR 0x30000 16]

def NaClApp.regions (nap : NaClApp) : Nat × Nat × Nat × List VmmapEntry :=
  (nap.staticTextEnd, nap.dynamicTextStart, nap.dynamicTextEnd, nap.memMap)

theorem except_map_ok {ε A B : Type} {x : Except ε A} {f : A → B} {b : B}
    (mapped : x.map f = .ok b) : ∃ a, x = .ok a ∧ f a = b := by
  cases x with
  | error e => cases mapped
  | ok a => exact ⟨a, rfl, Except.ok.inj mapped⟩

theorem full_page_loads : ∃ loaded,
    naClAppLoadFile .x86_32 willingHost (nexeFile 0x20000 (textAndRodata 0xfff0)) freshApp = .ok loaded ∧
    loaded.regions = (0x40000, 0x30000, 0x30000, [⟨0, 16, 0⟩, ⟨16, 48, 5⟩, ⟨48, 16, 1⟩, ⟨0x3fff0, 16, 3⟩]) :=
  except_map_ok (by decide +kernel)

/-- With text up to 16 bytes before the end of its page, the sled runs into the rodata and past
the end of the dynamic text. -/
theorem sled_overlaps_rodata : ∃ image loaded,
    naClElfImageNew .x86_32 (nexeFile 0x20000 (textAndRodata 0xfff0)) = .ok image ∧
    naClAppLoadFile .x86_32 willingHost (nexeFile 0x20000 (textAndRodata 0xfff0)) freshApp = .ok loaded ∧
    ¬ LayoutSeparated image loaded ∧ loaded.dynamicTextEnd < loaded.staticTextEnd := by
  obtain ⟨loaded, ran, regions⟩ := full_page_loads
  simp only [NaClApp.regions, Prod.mk.injEq] at regions
  obtain ⟨static_, -, end_, -⟩ := regions
  refine ⟨nexeImage 0x20000 (textAndRodata 0xfff0) [false, false], loaded, by decide +kernel, ran, ?_, by omega⟩
  rintro ⟨-, -, order⟩
  omega

theorem short_text_image : naClElfImageNew .x86_32 (nexeFile 0x20000 (textAndRodata 0x100)) =
      .ok (nexeImage 0x20000 (textAndRodata 0x100) [false, false]) := by
  decide +kernel

theorem short_text_loads : ∃ loaded,
    naClAppLoadFile .x86_32 willingHost (nexeFile 0x20000 (textAndRodata 0x100)) freshApp = .ok loaded ∧
    loaded.regions = (0x30000, 0x30000, 0x30000, [⟨0, 16, 0⟩, ⟨16, 32, 5⟩, ⟨48, 16, 1⟩, ⟨0x3fff0, 16, 3⟩]) :=
  except_map_ok (by decide +kernel)

theorem short_text_sled : ∀ php ∈ (nexeImage 0x20000 (textAndRodata 0x100) [false, false]).phdrs,
    php.IsText → SledFits php := by
  intro php member text
  rcases List.mem_cons.mp member with rfl | member
  · exact ⟨by decide, by decide⟩
  · rcases List.mem_singleton.mp member with rfl
    exact absurd text.flags (by decide)

theorem short_text_separated : ∃ loaded,
    naClAppLoadFile .x86_32 willingHost (nexeFile 0x20000 (textAndRodata 0x100)) freshApp = .ok loaded ∧
    LayoutSeparated (nexeImage 0x20000 (textAndRodata 0x100) [false, false]) loaded := by
  obtain ⟨loaded, ran, -⟩ := short_text_loads
  exact ⟨loaded, ran, (layout_separated_iff freshApp_constructed short_text_image ran).mpr short_text_sled⟩

end Glopen.Nacl

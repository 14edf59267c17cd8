import Glopen.Nacl.LoadedLayout

/-! Well-formedness of the initial memory map. `NaClVmmapAdd` does not look at the entries
already present, so disjointness rests on the layout alone. -/
namespace Glopen.Nacl

open Memory Run List

def VmmapEntry.pages (e : VmmapEntry) : AddrRange := ⟨e.pageNum, e.pageNum + e.npages⟩

structure MapWellFormed (nap : NaClApp) : Prop where
  nonempty : ∀ e ∈ nap.memMap, 0 < e.npages
  disjoint : nap.memMap.Pairwise fun a b => a.pages.Disjoint b.pages
  inside : ∀ e ∈ nap.memMap, (e.pageNum + e.npages) * naclPagesize ≤ 2 ^ nap.addrBits

/-- The padded text stays below the next region, and data after rodata starts on an
allocation page. -/
structure MapClear (arch : Arch) (nap : NaClApp) (image : NaClElfImage) : Prop where
  segments : ∀ text ∈ image.phdrs, text.IsText → ∀ seg ∈ image.phdrs, seg.IsRodata ∨ seg.IsData →
    naClRoundAllocPage arch (naclTrampolineEnd + text.pFilesz + naclHaltSledSize) ≤ seg.pVaddr
  stack : (∀ seg ∈ image.phdrs, ¬ (seg.IsRodata ∨ seg.IsData)) → ∀ text ∈ image.phdrs, text.IsText →
    naClRoundAllocPage arch (naclTrampolineEnd + text.pFilesz + naclHaltSledSize) +
      naClRoundAllocPage arch nap.stackSize ≤ 2 ^ nap.addrBits
  data : (∃ seg ∈ image.phdrs, seg.IsRodata) → ∀ seg ∈ image.phdrs, seg.IsData →
    seg.pVaddr % naclMapPagesize = 0

/-- The page numbers that decide the initial map. An absent segment starts at page 0; `last` is
the end of the last allocation page of the segments. -/
structure MapNumbers where
  textEnd : Nat
  dynStart : Nat
  dynEnd : Nat
  rodata : Nat
  rodataEnd : Nat
  data : Nat
  last : Nat
  stack : Nat
  space : Nat

structure MapNumbers.Valid (n : MapNumbers) : Prop where
  text : 32 ≤ n.dynStart ∧ n.dynStart ≤ n.textEnd ∧ n.textEnd ≤ n.space
  dynamic : n.dynEnd = n.dynStart ∨ (n.textEnd = n.dynStart ∧ n.dynStart < n.dynEnd ∧ n.dynEnd ≤ n.last ∧
      (n.rodata ≠ 0 → n.dynEnd ≤ n.rodata) ∧ (n.data ≠ 0 → n.dynEnd ≤ n.data))
  rodata : n.rodata ≠ 0 → n.dynStart ≤ n.rodata ∧ n.rodata < n.rodataEnd ∧ n.rodataEnd ≤ n.last
  data : n.data ≠ 0 → n.dynStart ≤ n.data ∧ n.data < n.last
  both : n.rodata ≠ 0 → n.data ≠ 0 → n.rodata < n.data ∧ n.data ≤ n.rodataEnd
  below : n.dynStart ≤ n.last ∧ n.last ≤ n.stack ∧ n.stack < n.space

def MapNumbers.entries (n : MapNumbers) : List VmmapEntry :=
  [guardEntry, ⟨16, n.textEnd - 16, protRead ||| protExec⟩] ++
  (if n.dynEnd = n.dynStart then []
    else [⟨n.dynStart, n.dynEnd - n.dynStart, protRead ||| protExec⟩]) ++
  (if n.rodata = 0 then [] else [⟨n.rodata, n.rodataEnd - n.rodata, protRead⟩]) ++
  (if n.data = 0 then [] else [⟨n.data, n.last - n.data, protRead ||| protWrite⟩]) ++
  [⟨n.stack, n.space - n.stack, protRead ||| protWrite⟩]

structure MapNumbers.Clear (n : MapNumbers) : Prop where
  rodata : n.rodata ≠ 0 → n.textEnd ≤ n.rodata
  data : n.data ≠ 0 → n.textEnd ≤ n.data
  stack : n.rodata = 0 → n.data = 0 → n.textEnd ≤ n.stack
  both : n.rodata ≠ 0 → n.data ≠ 0 → n.rodataEnd ≤ n.data

theorem pages_disjoint_iff {a b : VmmapEntry} (ha : 0 < a.npages) (hb : 0 < b.npages) :
    a.pages.Disjoint b.pages ↔ a.pageNum + a.npages ≤ b.pageNum ∨ b.pageNum + b.npages ≤ a.pageNum := by
  constructor
  · intro apart
    refine Classical.byContradiction fun meets => ?_
    refine apart (max a.pageNum b.pageNum) ?_
    simp only [VmmapEntry.pages]
    omega
  · intro order
    exact disjoint_of_le order

def Ascending (entries : List VmmapEntry) : Prop :=
  entries.Pairwise fun a b => a.pageNum + a.npages ≤ b.pageNum

theorem Ascending.disjoint {entries : List VmmapEntry} (sorted : Ascending entries) :
    entries.Pairwise fun a b => a.pages.Disjoint b.pages :=
  List.Pairwise.imp (fun {a b} order => disjoint_of_le (r := a.pages) (s := b.pages) (.inl order)) sorted

section Numbers

variable {n : MapNumbers}

theorem entries_forall {P : VmmapEntry → Prop} (guard : P guardEntry)
    (text : P ⟨16, n.textEnd - 16, protRead ||| protExec⟩)
    (dynamic : n.dynEnd ≠ n.dynStart → P ⟨n.dynStart, n.dynEnd - n.dynStart, protRead ||| protExec⟩)
    (rodata : n.rodata ≠ 0 → P ⟨n.rodata, n.rodataEnd - n.rodata, protRead⟩)
    (data : n.data ≠ 0 → P ⟨n.data, n.last - n.data, protRead ||| protWrite⟩)
    (stack : P ⟨n.stack, n.space - n.stack, protRead ||| protWrite⟩) : ∀ e ∈ n.entries, P e := by
  intro e member
  simp only [MapNumbers.entries, mem_append, mem_cons, not_mem_nil, or_false, mem_ite_nil_left] at member
  rcases member with ((((rfl | rfl) | ⟨present, rfl⟩) | ⟨present, rfl⟩) | ⟨present, rfl⟩) | rfl
  · exact guard
  · exact text
  · exact dynamic present
  · exact rodata present
  · exact data present
  · exact stack

theorem entries_nonempty (valid : n.Valid) : ∀ e ∈ n.entries, 0 < e.npages := by
  obtain ⟨text, dynamic, rodata, data, both, below⟩ := valid
  apply entries_forall
  · decide
  · simp only
    omega
  · intro present
    simp only
    omega
  · intro present
    have := rodata present
    simp only
    omega
  · intro present
    have := data present
    simp only
    omega
  · simp only
    omega

theorem entries_inside (valid : n.Valid) : ∀ e ∈ n.entries, e.pageNum + e.npages ≤ n.space := by
  obtain ⟨text, dynamic, rodata, data, both, below⟩ := valid
  apply entries_forall
  · simp only [guardEntry]
    omega
  · simp only
    omega
  · intro present
    simp only
    omega
  · intro present
    have := rodata present
    simp only
    omega
  · intro present
    have := data present
    simp only
    omega
  · simp only
    omega

theorem ascending_of_clear (valid : n.Valid) (clear : n.Clear) : Ascending n.entries := by
  obtain ⟨text, dynamic, rodata, data, both, below⟩ := valid
  obtain ⟨text_rodata, text_data, text_stack, rodata_data⟩ := clear
  rw [Ascending, MapNumbers.entries]
  by_cases dyn : n.dynEnd = n.dynStart <;> by_cases ro : n.rodata = 0 <;>
    by_cases rw' : n.data = 0 <;>
    simp only [dyn, ro, rw', if_true, if_false, append_nil, cons_append,
      nil_append, pairwise_cons, mem_cons, not_mem_nil, or_false,
      forall_eq_or_imp, forall_eq, guardEntry, List.Pairwise.nil, false_implies, implies_true,
      and_true] <;>
    omega

/-- Two entries of regions listed one after the other are in order, if they are disjoint and
the second does not start below the first. -/
theorem ordered_of_disjoint {a b : VmmapEntry} (apart : a.pages.Disjoint b.pages)
    (ha : 0 < a.npages) (hb : 0 < b.npages) (start : a.pageNum ≤ b.pageNum) :
    a.pageNum + a.npages ≤ b.pageNum := by
  have := (pages_disjoint_iff ha hb).mp apart
  omega

theorem clear_of_disjoint (valid : n.Valid)
    (disjoint : n.entries.Pairwise fun a b => a.pages.Disjoint b.pages) : n.Clear := by
  have positive := entries_nonempty valid
  obtain ⟨text, dynamic, rodata, data, both, below⟩ := valid
  -- the groups of the map, split off from the end
  rw [MapNumbers.entries] at disjoint positive
  obtain ⟨below_stack, -, stack_apart⟩ := pairwise_append.mp disjoint
  obtain ⟨below_data, -, data_apart⟩ := pairwise_append.mp below_stack
  obtain ⟨-, -, rodata_apart⟩ := pairwise_append.mp below_data
  have text_member : (⟨16, n.textEnd - 16, protRead ||| protExec⟩ : VmmapEntry) ∈
      [guardEntry, ⟨16, n.textEnd - 16, protRead ||| protExec⟩] := by simp
  refine ⟨?_, ?_, ?_, ?_⟩
  · intro ro
    have order := ordered_of_disjoint (rodata_apart _ (mem_append_left _ text_member) _ (by
      rw [if_neg ro]; exact mem_singleton.mpr rfl)) (positive _ (by simp))
      (positive _ (by simp [ro])) (by have := rodata ro; simp only; omega)
    simp only at order
    omega
  · intro rw'
    have order := ordered_of_disjoint (data_apart _ (mem_append_left _ (mem_append_left _ text_member)) _ (by
      rw [if_neg rw']; exact mem_singleton.mpr rfl)) (positive _ (by simp))
      (positive _ (by simp [rw'])) (by have := data rw'; simp only; omega)
    simp only at order
    omega
  · intro ro rw'
    have order := ordered_of_disjoint (stack_apart _ (mem_append_left _
      (mem_append_left _ (mem_append_left _ text_member))) _
      (mem_singleton.mpr rfl)) (positive _ (by simp)) (positive _ (by simp))
      (by simp only; omega)
    simp only at order
    omega
  · intro ro rw'
    have order := ordered_of_disjoint (data_apart _ (mem_append_right _ (by
      rw [if_neg ro]; exact mem_singleton.mpr rfl)) _ (by
      rw [if_neg rw']; exact mem_singleton.mpr rfl)) (positive _ (by simp [ro]))
      (positive _ (by simp [rw'])) (by have := both ro rw'; simp only; omega)
    have := rodata ro
    simp only at order
    omega

end Numbers

section Loaded

variable {arch : Arch} {host : LoaderHost arch} {gp : Gio} {nap laid loaded : NaClApp}
  {image : NaClElfImage} {out : SegmentBounds}

def NaClApp.numbers (nap : NaClApp) : MapNumbers where
  textEnd := nap.staticTextEnd / 4096
  dynStart := nap.dynamicTextStart / 4096
  dynEnd := nap.dynamicTextEnd / 4096
  rodata := nap.rodataStart / 4096
  rodataEnd := ((if nap.dataStart ≠ 0 then nap.dataStart else nap.dataEnd) + 65535) / 65536 * 16
  data := nap.dataStart / 4096
  last := (nap.dataEnd + 65535) / 65536 * 16
  stack := (2 ^ nap.addrBits - nap.stackSize) / 4096
  space := 2 ^ nap.addrBits / 4096

theorem pow_aligned {bits : Nat} (large : 65536 < 2 ^ bits) : 2 ^ bits % 65536 = 0 := by
  have : 16 ≤ bits := Nat.le_of_lt ((Nat.pow_lt_pow_iff_right (a := 2) (by decide)).mp large)
  exact Nat.mod_eq_zero_of_dvd (Nat.pow_dvd_pow 2 this)

theorem segment_size_pos {start stop : Nat} (order : start < stop)
    (small : stop + naclMapPagesize + naclPagesize ≤ 2 ^ arch.ptrBits) :
    naClRoundPage arch (subWord arch.ptrBits (naClRoundAllocPage arch stop) start) =
      ((stop + 65535) / 65536 * 65536 - start + 4095) / 4096 * 4096 := by
  rw [roundAlloc_eq (by simp only [naclPagesize] at small; omega)]
  simp only [naclMapPagesize, naclPagesize] at small
  rw [subWord_of_le (by omega) (by omega), naClRoundPage, roundUp, naclPagesize,
    Nat.mod_eq_of_lt (by omega), Nat.add_sub_assoc (by decide)]

structure Extents (arch : Arch) (laid : NaClApp) : Prop where
  rodata : laid.rodataStart ≠ 0 → naclTrampolineEnd ≤ laid.rodataStart ∧
    laid.dynamicTextStart ≤ laid.rodataStart ∧ laid.rodataStart < laid.dataEnd
  data : laid.dataStart ≠ 0 → naclTrampolineEnd ≤ laid.dataStart ∧
    laid.dynamicTextStart ≤ laid.dataStart ∧ laid.dataStart < laid.dataEnd
  both : laid.rodataStart ≠ 0 → laid.dataStart ≠ 0 → laid.rodataStart < laid.dataStart
  small : laid.dataEnd < 2 ^ laid.addrBits

theorem LoadSummary.extents (summary : LoadSummary arch nap image out laid loaded) : Extents arch laid := by
  obtain ⟨init, noRodata, noData, facts⟩ := summary.facts
  have layout := summary.layout
  have rodata : out.rodataStart ≠ 0 → ∃ php ∈ image.phdrs, php.IsRodata := by
    intro present
    exact facts.rodata_from.resolve_left fun none => present (none.trans noRodata)
  have data : out.dataStart ≠ 0 → ∃ php ∈ image.phdrs, php.IsData := by
    intro present
    exact facts.data_from.resolve_left fun none => present (none.trans noData)
  refine ⟨?_, ?_, ?_, ?_⟩ <;>
    simp only [summary.rodataStart, summary.dataStart, summary.dynamicTextStart, summary.dataEnd,
      summary.addrBits]
  · intro present
    obtain ⟨php, member, kind⟩ := rodata present
    obtain ⟨low, start, stop, below, -⟩ := facts.rodata_at php member kind
    have above := summary.segment_above member (.inl kind)
    have := kind.nonempty
    omega
  · intro present
    obtain ⟨php, member, kind⟩ := data present
    obtain ⟨low, start, stop, below, -⟩ := facts.data_at php member kind
    have above := summary.segment_above member (.inr kind)
    have := kind.nonempty
    omega
  · intro ro rw'
    obtain ⟨php, member, kind⟩ := rodata ro
    obtain ⟨low, start, stop, below, -⟩ := facts.rodata_at php member kind
    have := layout.rodata_data ro rw'
    have := kind.nonempty
    omega
  · exact facts.high.1

theorem truncAlloc_of_aligned {n : Nat} (aligned : n % 65536 = 0) : naClTruncAllocPage n = n := by
  simp only [naClTruncAllocPage, truncTo, naclMapPagesize]
  omega

theorem roundAlloc_aligned (arch : Arch) (n : Nat) : naClRoundAllocPage arch n % 65536 = 0 :=
  Nat.mul_mod_left _ _

theorem LoadSummary.spaces (summary : LoadSummary arch nap image out laid loaded) :
    2 ^ laid.addrBits % 65536 = 0 ∧ laid.stackSize % 65536 = 0 ∧
      naClTruncAllocPage (2 ^ laid.addrBits - laid.stackSize) = 2 ^ laid.addrBits - laid.stackSize ∧
      laid.dataEnd + naclMapPagesize + naclPagesize ≤ 2 ^ arch.ptrBits := by
  obtain ⟨init, -, -, facts⟩ := summary.facts
  obtain ⟨php, member, text⟩ := facts.text_present
  obtain ⟨-, -, -, below⟩ := facts.text_at php member text
  have high := facts.high.1
  have room := space_le summary.bits
  have space : 2 ^ laid.addrBits % 65536 = 0 := by
    apply pow_aligned
    rw [summary.addrBits]
    simp only [naclTrampolineEnd] at below
    omega
  have stack : laid.stackSize % 65536 = 0 := by
    rw [summary.stackSize]
    exact roundAlloc_aligned arch _
  have fits := summary.space.stack
  refine ⟨space, stack, truncAlloc_of_aligned (by omega), ?_⟩
  rw [summary.dataEnd]
  simp only [naclMapPagesize, naclPagesize] at *
  omega

structure Boundaries (laid : NaClApp) : Prop where
  text_aligned : laid.staticTextEnd % 65536 = 0
  dyn_aligned : laid.dynamicTextStart % 65536 = 0
  text : 131072 ≤ laid.dynamicTextStart ∧ laid.dynamicTextStart ≤ laid.staticTextEnd ∧
    laid.staticTextEnd ≤ laid.dynamicTextStart + 65536
  last : laid.dynamicTextStart ≤ (laid.dataEnd + 65535) / 65536 * 65536
  stack_aligned : laid.stackSize % 65536 = 0
  stack_pos : 0 < laid.stackSize
  space_aligned : 2 ^ laid.addrBits % 65536 = 0
  below : (laid.dataEnd + 65535) / 65536 * 65536 + laid.stackSize ≤ 2 ^ laid.addrBits
  rodata_page : laid.rodataStart ≠ 0 → laid.rodataStart % 4096 = 0
  data_page : laid.dataStart ≠ 0 → laid.dataStart % 4096 = 0

section

variable (summary : LoadSummary arch nap image out laid loaded)
include summary

theorem LoadSummary.text_boundaries :
    131072 ≤ laid.dynamicTextStart ∧ laid.dynamicTextStart ≤ laid.staticTextEnd ∧
      laid.staticTextEnd ≤ laid.dynamicTextStart + 65536 ∧
      laid.dynamicTextStart ≤ (laid.dataEnd + 65535) / 65536 * 65536 := by
  obtain ⟨php, member, text, ends, room⟩ := summary.text
  obtain ⟨init, -, -, facts⟩ := summary.facts
  obtain ⟨-, -, file, below⟩ := facts.text_at php member text
  have static_ := summary.staticTextEnd
  have start := summary.dynamicTextStart
  have last := summary.dataEnd
  simp only [naclMapPagesize] at room
  rw [roundAlloc_eq (by simp only [naclMapPagesize]; omega)] at start
  rw [roundAlloc_eq (by simp only [naclMapPagesize, naclHaltSledSize]; omega)] at static_
  simp only [naclTrampolineEnd, naclHaltSledSize] at *
  omega

theorem LoadSummary.rodata_stop (present : laid.rodataStart ≠ 0) :
    laid.rodataStart < (if laid.dataStart ≠ 0 then laid.dataStart else laid.dataEnd) ∧
      (if laid.dataStart ≠ 0 then laid.dataStart else laid.dataEnd) ≤ laid.dataEnd := by
  have extents := summary.extents
  split
  · rename_i data
    exact ⟨extents.both present data, Nat.le_of_lt (extents.data data).2.2⟩
  · exact ⟨(extents.rodata present).2.2, Nat.le_refl _⟩

theorem LoadSummary.breakAddr_eq : laid.breakAddr = laid.dataEnd := summary.breakAddr.trans summary.dataEnd.symm

theorem LoadSummary.boundaries : Boundaries laid := by
  obtain ⟨space, stack, trunc, small⟩ := summary.spaces
  obtain ⟨low, order, step, last⟩ := summary.text_boundaries
  have extents := summary.extents
  have protection := summary.protection
  have stack_below := protection.stack
  have below := summary.space.below
  have fits := summary.space.stack
  rw [trunc] at stack_below below
  rw [roundAlloc_eq (by simp only [naclPagesize] at small; omega)] at below
  refine ⟨?_, ?_, ⟨low, order, step⟩, last, stack, by omega, space,
    (Nat.le_sub_iff_add_le (Nat.le_of_lt fits)).mp below, ?_, ?_⟩
  · rw [summary.staticTextEnd]
    exact roundAlloc_aligned arch _
  · rw [summary.dynamicTextStart]
    exact roundAlloc_aligned arch _
  · intro present
    apply protection.rodata present
    have stop := summary.rodata_stop present
    rw [summary.breakAddr_eq, segment_size_pos stop.1 (by omega)]
    clear small
    omega
  · intro present
    apply protection.data present
    have e := extents.data present
    rw [segment_size_pos e.2.2 small]
    clear small
    omega

theorem LoadSummary.dynamic_end : laid.dynamicTextEnd = laid.dynamicTextStart ∨
      (laid.staticTextEnd = laid.dynamicTextStart ∧ laid.dynamicTextStart ≤ laid.dynamicTextEnd ∧
        (laid.rodataStart ≠ 0 ∧ laid.dynamicTextEnd = laid.rodataStart ∨
          laid.rodataStart = 0 ∧ laid.dataStart ≠ 0 ∧ laid.dynamicTextEnd = laid.dataStart)) := by
  have upper := shmUpperBound_above summary
  have ends := summary.dynamicTextEnd
  have order := summary.rounded.2
  rw [← summary.dynamicTextStart] at upper ends order
  rw [← summary.staticTextEnd] at ends
  rcases ends with same | ⟨same, sled⟩
  · exact .inl same
  · rw [shmUpperBound] at same upper
    by_cases ro : laid.rodataStart ≠ 0
    · rw [if_pos ro] at same upper
      exact .inr ⟨by omega, by omega, .inl ⟨ro, same⟩⟩
    · rw [if_neg ro] at same upper
      by_cases rw' : laid.dataStart ≠ 0
      · rw [if_pos rw'] at same upper
        exact .inr ⟨by omega, by omega, .inr ⟨by omega, rw', same⟩⟩
      · rw [if_neg rw'] at same
        exact .inl same

theorem LoadSummary.valid : laid.numbers.Valid := by
  obtain ⟨b1, b2, b3, b4, b5, b6, b7, b8, b9, b10⟩ := summary.boundaries
  have extents := summary.extents
  have ro_start : laid.rodataStart / 4096 ≠ 0 → laid.rodataStart ≠ 0 := by omega
  have rw_start : laid.dataStart / 4096 ≠ 0 → laid.dataStart ≠ 0 := by omega
  refine ⟨?_, ?_, ?_, ?_, ?_, ?_⟩
  · simp only [NaClApp.numbers]
    omega
  · simp only [NaClApp.numbers]
    rcases summary.dynamic_end with same | ⟨sled, order, next⟩
    · exact .inl (by rw [same])
    · have both := extents.both
      rcases next with ⟨ro, same⟩ | ⟨ro, rw', same⟩
      · have e := extents.rodata ro
        have page := b9 ro
        by_cases empty : laid.dynamicTextEnd = laid.dynamicTextStart
        · exact .inl (by rw [empty])
        · refine .inr ⟨by omega, by omega, by omega, by omega, fun present => ?_⟩
          have := both ro (rw_start present)
          omega
      · have e := extents.data rw'
        have page := b10 rw'
        by_cases empty : laid.dynamicTextEnd = laid.dynamicTextStart
        · exact .inl (by rw [empty])
        · exact .inr ⟨by omega, by omega, by omega, by omega, by omega⟩
  · simp only [NaClApp.numbers]
    intro present
    have e := extents.rodata (ro_start present)
    have stop := summary.rodata_stop (ro_start present)
    have page := b9 (ro_start present)
    omega
  · simp only [NaClApp.numbers]
    intro present
    have e := extents.data (rw_start present)
    omega
  · simp only [NaClApp.numbers]
    intro ro rw'
    have both := extents.both (ro_start ro) (rw_start rw')
    have page := b9 (ro_start ro)
    have page' := b10 (rw_start rw')
    rw [if_pos (rw_start rw')]
    omega
  · simp only [NaClApp.numbers]
    omega

end

theorem segmentEntry_eq {start stop prot : Nat} (order : start < stop)
    (small : stop + naclMapPagesize + naclPagesize ≤ 2 ^ arch.ptrBits) (page : start % 4096 = 0) :
    segmentEntry arch start stop prot = ⟨start / 4096, (stop + 65535) / 65536 * 16 - start / 4096, prot⟩ := by
  rw [segmentEntry, segment_size_pos order small, naclPagesize]
  clear small
  congr 1
  omega

section

variable (summary : LoadSummary arch nap image out laid loaded)
include summary

theorem LoadSummary.textEntry_eq :
    textEntry arch laid = ⟨16, laid.numbers.textEnd - 16, protRead ||| protExec⟩ := by
  obtain ⟨b1, b2, b3, b4, b5, b6, b7, b8, b9, b10⟩ := summary.boundaries
  have fits := space_le summary.bits
  rw [← summary.addrBits] at fits
  simp only [naclMapPagesize] at fits
  have size : subWord arch.ptrBits laid.staticTextEnd naclSyscallStartAddr =
      laid.staticTextEnd - 65536 := subWord_of_le (by simp only [naclSyscallStartAddr]; omega)
    (by omega)
  rw [textEntry, size, naClRoundPage, roundUp, naclPagesize, Nat.mod_eq_of_lt (by omega),
    Nat.add_sub_assoc (by decide)]
  clear fits size
  congr 1
  simp only [NaClApp.numbers]
  omega

theorem LoadSummary.dynamicEntries_eq :
    dynamicEntries arch laid = if laid.numbers.dynEnd = laid.numbers.dynStart then []
      else [⟨laid.numbers.dynStart, laid.numbers.dynEnd - laid.numbers.dynStart, protRead ||| protExec⟩] := by
  obtain ⟨b1, b2, b3, b4, b5, b6, b7, b8, b9, b10⟩ := summary.boundaries
  have extents := summary.extents
  have fits := space_le summary.bits
  rw [← summary.addrBits] at fits
  have bounds : laid.dynamicTextStart ≤ laid.dynamicTextEnd ∧
      laid.dynamicTextEnd % 4096 = 0 ∧ laid.dynamicTextEnd < 2 ^ laid.addrBits := by
    have small := extents.small
    rcases summary.dynamic_end with same | ⟨-, order, ⟨ro, same⟩ | ⟨-, rw', same⟩⟩
    · omega
    · have := b9 ro
      have := extents.rodata ro
      omega
    · have := b10 rw'
      have := extents.data rw'
      omega
  have size : subWord arch.ptrBits laid.dynamicTextEnd laid.dynamicTextStart =
      laid.dynamicTextEnd - laid.dynamicTextStart := subWord_of_le bounds.1 (by omega)
  clear fits
  by_cases empty : laid.dynamicTextEnd = laid.dynamicTextStart
  · have same : laid.numbers.dynEnd = laid.numbers.dynStart := by
      simp only [NaClApp.numbers, empty]
    rw [if_pos same, dynamicEntries, size]
    simp [empty]
  · have apart : laid.numbers.dynEnd ≠ laid.numbers.dynStart := by
      simp only [NaClApp.numbers]
      omega
    have nonzero : laid.dynamicTextEnd - laid.dynamicTextStart ≠ 0 := by omega
    rw [if_neg apart]
    simp only [dynamicEntries, size, if_neg nonzero, NaClApp.numbers, naclPagesize]
    congr 2
    omega

theorem LoadSummary.memMap_eq : loaded.memMap = laid.numbers.entries := by
  obtain ⟨space, stack, trunc, small⟩ := summary.spaces
  have boundaries := summary.boundaries
  have extents := summary.extents
  have rodata : rodataEntries arch laid = if laid.numbers.rodata = 0 then []
      else [⟨laid.numbers.rodata, laid.numbers.rodataEnd - laid.numbers.rodata, protRead⟩] := by
    rw [rodataEntries, summary.breakAddr_eq]
    by_cases absent : laid.rodataStart = 0
    · have zero : laid.numbers.rodata = 0 := by simp only [NaClApp.numbers, absent]
      rw [if_pos absent, if_pos zero]
    · have page := boundaries.rodata_page absent
      have stop := summary.rodata_stop absent
      have nonzero : laid.numbers.rodata ≠ 0 := by
        simp only [NaClApp.numbers]
        omega
      rw [if_neg absent, if_neg nonzero, NaClApp.numbers, segmentEntry_eq stop.1 (Nat.le_trans (Nat.add_le_add_right (Nat.add_le_add_right stop.2 _) _)
          small) page]
  have data : dataEntries arch laid = if laid.numbers.data = 0 then []
      else [⟨laid.numbers.data, laid.numbers.last - laid.numbers.data, protRead ||| protWrite⟩] := by
    rw [dataEntries]
    by_cases absent : laid.dataStart = 0
    · have zero : laid.numbers.data = 0 := by simp only [NaClApp.numbers, absent]
      rw [if_pos absent, if_pos zero]
    · have page := boundaries.data_page absent
      have nonzero : laid.numbers.data ≠ 0 := by
        simp only [NaClApp.numbers]
        omega
      rw [if_neg absent, if_neg nonzero, NaClApp.numbers, segmentEntry_eq (extents.data absent).2.2 small page]
  have stackE : stackEntry laid = ⟨laid.numbers.stack, laid.numbers.space - laid.numbers.stack,
      protRead ||| protWrite⟩ := by
    have fits := summary.space.stack
    rw [stackEntry, trunc, naclPagesize]
    clear small trunc
    simp only [NaClApp.numbers]
    congr 1
    omega
  rw [summary.protection.app, NaClApp.record, summary.memMap, nil_append,
    summary.textEntry_eq, summary.dynamicEntries_eq, rodata, data, stackE]
  rfl

theorem LoadSummary.clear_iff : laid.numbers.Clear ↔ MapClear arch nap image := by
  obtain ⟨b1, b2, b3, b4, b5, b6, b7, b8, b9, b10⟩ := summary.boundaries
  obtain ⟨init, noRodata, noData, facts⟩ := summary.facts
  have textEnd : ∀ text ∈ image.phdrs, text.IsText →
      naClRoundAllocPage arch (naclTrampolineEnd + text.pFilesz + naclHaltSledSize) = laid.staticTextEnd := by
    intro text member kind
    rw [summary.staticTextEnd, (facts.text_at text member kind).2.1]
  have ro_start : ∀ seg ∈ image.phdrs, seg.IsRodata → laid.rodataStart = seg.pVaddr ∧ 131072 ≤ seg.pVaddr := by
    intro seg member kind
    have r := facts.rodata_at seg member kind
    exact ⟨summary.rodataStart.trans r.2.1, r.1⟩
  have rw_start : ∀ seg ∈ image.phdrs, seg.IsData → laid.dataStart = seg.pVaddr ∧ 131072 ≤ seg.pVaddr := by
    intro seg member kind
    have d := facts.data_at seg member kind
    exact ⟨summary.dataStart.trans d.2.1, d.1⟩
  have ro_seg : laid.rodataStart ≠ 0 → ∃ seg ∈ image.phdrs, seg.IsRodata := by
    rw [summary.rodataStart]
    intro present
    exact facts.rodata_from.resolve_left fun none => present (none.trans noRodata)
  have rw_seg : laid.dataStart ≠ 0 → ∃ seg ∈ image.phdrs, seg.IsData := by
    rw [summary.dataStart]
    intro present
    exact facts.data_from.resolve_left fun none => present (none.trans noData)
  obtain ⟨text, text_member, text_kind⟩ := facts.text_present
  have stack_eq := summary.stackSize
  have bits_eq := summary.addrBits
  constructor
  · rintro ⟨c1, c2, c3, c4⟩
    simp only [NaClApp.numbers] at c1 c2 c3 c4
    refine ⟨?_, ?_, ?_⟩
    · intro t ht kt seg hs kind
      rw [textEnd t ht kt]
      rcases kind with ro | rw'
      · obtain ⟨same, low⟩ := ro_start seg hs ro
        have := c1 (by omega)
        omega
      · obtain ⟨same, low⟩ := rw_start seg hs rw'
        have := c2 (by omega)
        omega
    · intro none t ht kt
      rw [textEnd t ht kt, ← stack_eq, ← bits_eq]
      have noRo : laid.rodataStart = 0 := Classical.byContradiction fun present =>
        let ⟨seg, member, kind⟩ := ro_seg present
        none seg member (.inl kind)
      have noRw : laid.dataStart = 0 := Classical.byContradiction fun present =>
        let ⟨seg, member, kind⟩ := rw_seg present
        none seg member (.inr kind)
      have := c3 (by omega) (by omega)
      omega
    · rintro ⟨ro, hro, kro⟩ seg hs kind
      obtain ⟨same, low⟩ := ro_start ro hro kro
      obtain ⟨same', low'⟩ := rw_start seg hs kind
      have := c4 (by omega) (by omega)
      rw [if_pos (by omega)] at this
      simp only [naclMapPagesize]
      omega
  · rintro ⟨c1, c2, c3⟩
    refine ⟨?_, ?_, ?_, ?_⟩
    · simp only [NaClApp.numbers]
      intro present
      obtain ⟨seg, member, kind⟩ := ro_seg (by omega)
      have := c1 text text_member text_kind seg member (.inl kind)
      rw [textEnd text text_member text_kind, ← (ro_start seg member kind).1] at this
      omega
    · simp only [NaClApp.numbers]
      intro present
      obtain ⟨seg, member, kind⟩ := rw_seg (by omega)
      have := c1 text text_member text_kind seg member (.inr kind)
      rw [textEnd text text_member text_kind, ← (rw_start seg member kind).1] at this
      omega
    · simp only [NaClApp.numbers]
      intro noRo noRw
      have none : ∀ seg ∈ image.phdrs, ¬ (seg.IsRodata ∨ seg.IsData) := by
        rintro seg member (ro | rw')
        · have := ro_start seg member ro
          omega
        · have := rw_start seg member rw'
          omega
      have := c2 none text text_member text_kind
      rw [textEnd text text_member text_kind, ← stack_eq, ← bits_eq] at this
      omega
    · simp only [NaClApp.numbers]
      intro ro rw'
      obtain ⟨r, hr, kr⟩ := ro_seg (by omega)
      obtain ⟨seg, member, kind⟩ := rw_seg (by omega)
      have := c3 ⟨r, hr, kr⟩ seg member kind
      rw [← (rw_start seg member kind).1] at this
      simp only [naclMapPagesize] at this
      rw [if_pos (by omega)]
      omega

end

/-- The initial memory map of a loaded application is well formed exactly when the padded text
ends below the next region and data after rodata starts on an allocation page. -/
theorem initial_map_wellFormed_iff (constructed : Constructed nap)
    (created : naClElfImageNew arch gp = .ok image) (ran : naClAppLoadFile arch host gp nap = .ok loaded) :
    MapWellFormed loaded ↔ MapClear arch nap image := by
  obtain ⟨out, laid, summary⟩ := load_summary constructed created ran
  have valid := summary.valid
  have bits : loaded.addrBits = laid.addrBits := by rw [summary.protection.app]; rfl
  rw [← summary.clear_iff]
  constructor
  · rintro ⟨-, disjoint, -⟩
    rw [summary.memMap_eq] at disjoint
    exact clear_of_disjoint valid disjoint
  · intro clear
    refine ⟨?_, ?_, ?_⟩
    · rw [summary.memMap_eq]
      exact entries_nonempty valid
    · rw [summary.memMap_eq]
      exact (ascending_of_clear valid clear).disjoint
    · rw [summary.memMap_eq, bits]
      intro e member
      exact (Nat.le_div_iff_mul_le (by decide)).mp (entries_inside valid e member)

end Loaded

/-- The same file that breaks the separation gives overlapping entries. -/
theorem text_entry_overlaps_rodata : ∃ loaded,
    naClAppLoadFile .x86_32 willingHost (nexeFile 0x20000 (textAndRodata 0xfff0)) freshApp =
      .ok loaded ∧ ¬ MapWellFormed loaded := by
  obtain ⟨loaded, ran, regions⟩ := full_page_loads
  simp only [NaClApp.regions, Prod.mk.injEq] at regions
  refine ⟨loaded, ran, ?_⟩
  rintro ⟨-, disjoint, -⟩
  rw [regions.2.2.2] at disjoint
  simp only [List.pairwise_cons, List.mem_cons] at disjoint
  exact disjoint.2.1 _ (Or.inl rfl) 48 (by decide)

theorem short_text_map_wellFormed : ∃ loaded,
    naClAppLoadFile .x86_32 willingHost (nexeFile 0x20000 (textAndRodata 0x100)) freshApp =
      .ok loaded ∧ MapWellFormed loaded := by
  obtain ⟨loaded, ran, -⟩ := short_text_loads
  refine ⟨loaded, ran, (initial_map_wellFormed_iff freshApp_constructed short_text_image ran).mpr ⟨?_, ?_, ?_⟩⟩
  · intro text member kind seg member' kind'
    rcases List.mem_cons.mp member with rfl | member
    · rcases List.mem_cons.mp member' with rfl | member'
      · rcases kind' with rodata | data
        · exact absurd rodata.flags (by decide)
        · exact absurd data.flags (by decide)
      · rcases List.mem_singleton.mp member' with rfl
        decide
    · rcases List.mem_singleton.mp member with rfl
      exact absurd kind.flags (by decide)
  · intro none
    exact absurd (Or.inl ⟨by decide, rfl, rfl⟩) (none (loadSegment pfR 0x30000 16) (by decide))
  · intro _ seg member data
    rcases List.mem_cons.mp member with rfl | member
    · exact absurd data.flags (by decide)
    · rcases List.mem_singleton.mp member with rfl
      exact absurd data.flags (by decide)

end Glopen.Nacl

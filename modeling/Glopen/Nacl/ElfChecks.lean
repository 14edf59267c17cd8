import Glopen.Nacl.Elf

/-! What the scan over the program headers establishes, and where the load loop stores. -/
namespace Glopen.Nacl

open Memory List

structure ElfPhdr.Bounded (arch : Arch) (php : ElfPhdr) : Prop where
  vaddr : php.pVaddr < 2 ^ arch.ptrBits
  filesz : php.pFilesz < 2 ^ arch.ptrBits
  memsz : php.pMemsz < 2 ^ arch.ptrBits

theorem fieldAt_lt (bytes : List Byte) (off len : Nat) : fieldAt bytes off len < 256 ^ len := by
  have digits : ∀ bs : List Byte, bs.foldr (fun byte rest => byte.toNat + 256 * rest) 0 < 256 ^ bs.length := by
    intro bs
    induction bs with
    | nil => decide
    | cons b rest ih =>
      have := b.isLt
      rw [foldr_cons, length_cons, Nat.pow_succ]
      omega
  exact Nat.lt_of_lt_of_le (digits _) (Nat.pow_le_pow_right (by decide) (length_take_le len (bytes.drop off)))

theorem decodePhdr_bounded (arch : Arch) (bytes : List Byte) : (decodePhdr arch bytes).Bounded arch := by
  have word := fun off => fieldAt_lt bytes off 4
  have xword := fun off => fieldAt_lt bytes off 8
  cases arch with
  | x86_32 => exact ⟨word 8, word 16, word 20⟩
  | arm => exact ⟨word 8, word 16, word 20⟩
  | x86_64 => exact ⟨xword 16, xword 32, xword 40⟩

variable {arch : Arch} {gp : Gio} {image : NaClElfImage} {php : ElfPhdr} {j : Nat} {check : NaClPhdrChecks}
  {addrBits : Nat} {st st' : ScanState}

theorem image_bounded
    (created : naClElfImageNew arch gp = .ok image) : ∀ php ∈ image.phdrs, php.Bounded arch := by
  simp only [naClElfImageNew] at created
  repeat' split at created
  all_goals try contradiction
  cases created
  intro php member
  obtain ⟨n, -, rfl⟩ := List.mem_map.mp member
  exact decodePhdr_bounded arch _

structure ElfPhdr.Loads (flags : Nat) (php : ElfPhdr) : Prop where
  nonempty : 0 < php.pMemsz
  type : php.pType = ptLoad
  flags : php.pFlags = flags

abbrev ElfPhdr.IsText (php : ElfPhdr) : Prop := php.Loads (pfR ||| pfX)
abbrev ElfPhdr.IsRodata (php : ElfPhdr) : Prop := php.Loads pfR
abbrev ElfPhdr.IsData (php : ElfPhdr) : Prop := php.Loads (pfR ||| pfW)

structure RowFacts (j : Nat) (check : NaClPhdrChecks) : Prop where
  text : check.action = .textCheck ↔ j = 1
  rodata : check.action = .rodata ↔ j = 2
  data : check.action = .data ↔ j = 3
  text_row : j = 1 → check.pType = ptLoad ∧ check.pFlags = pfR ||| pfX ∧ check.pVaddr = naclTrampolineEnd
  rodata_row : j = 2 → check.pType = ptLoad ∧ check.pFlags = pfR
  data_row : j = 3 → check.pType = ptLoad ∧ check.pFlags = pfR ||| pfW

theorem check_rows (found : matchingCheck arch php = some (j, check)) :
    RowFacts j check ∧ php.pType = check.pType ∧ php.pFlags = check.pFlags := by
  obtain ⟨⟨row, i⟩, hit, same⟩ := Option.map_eq_some_iff.mp found
  cases same
  have member := List.mem_of_find?_eq_some hit
  have table : ∀ e ∈ (naclPhdrCheckData arch).zipIdx,
      ((e.1.action = .textCheck ↔ e.2 = 1) ∧ (e.1.action = .rodata ↔ e.2 = 2) ∧ (e.1.action = .data ↔ e.2 = 3)) ∧
      (e.2 = 1 → e.1.pType = ptLoad ∧ e.1.pFlags = pfR ||| pfX ∧ e.1.pVaddr = naclTrampolineEnd) ∧
      (e.2 = 2 → e.1.pType = ptLoad ∧ e.1.pFlags = pfR) ∧
      (e.2 = 3 → e.1.pType = ptLoad ∧ e.1.pFlags = pfR ||| pfW) := by
    cases arch <;> decide
  obtain ⟨⟨text, rodata, data⟩, text_row, rodata_row, data_row⟩ := table _ member
  refine ⟨⟨text, rodata, data, text_row, rodata_row, data_row⟩, ?_⟩
  simpa using List.find?_some hit

theorem matching_load (arch : Arch) {flags : Nat} (loads : php.Loads flags) :
    (flags = pfR ||| pfX → ∃ check, matchingCheck arch php = some (1, check)) ∧
    (flags = pfR → ∃ check, matchingCheck arch php = some (2, check)) ∧
    (flags = pfR ||| pfW → ∃ check, matchingCheck arch php = some (3, check)) := by
  have type := loads.type
  have perms := loads.flags
  refine ⟨?_, ?_, ?_⟩ <;>
  · intro same
    rw [same] at perms
    simp only [matchingCheck, type, perms]
    cases arch <;> exact ⟨_, rfl⟩

structure Placed (arch : Arch) (addrBits : Nat) (check : NaClPhdrChecks) (php : ElfPhdr) : Prop where
  nonempty : 0 < php.pMemsz
  fixed : check.pVaddr = 0 ∨ check.pVaddr = php.pVaddr
  low : naclTrampolineEnd ≤ php.pVaddr
  no_wrap : php.pVaddr + php.pMemsz < 2 ^ arch.ptrBits
  high : php.pVaddr + php.pMemsz < 2 ^ addrBits
  file : php.pFilesz ≤ php.pMemsz

theorem oneShl_le (width bits : Nat) : oneShl width bits ≤ 2 ^ bits := Nat.mod_le _ _

theorem scanPhdr_cases (bounded : php.Bounded arch) (ran : scanPhdr arch addrBits st php = .ok st') :
    (∃ seen, st' = { st with seenSeg := seen }.skip ∧ st.seenSeg ⊆ seen ∧
      (php.pMemsz = 0 ∨ ∃ j check, matchingCheck arch php = some (j, check) ∧ check.action = .ignore) ∧
      ∀ j ∈ seen, j ∈ st.seenSeg ∨ ∃ check, matchingCheck arch php = some (j, check) ∧ check.action = .ignore) ∨
    ∃ j check, matchingCheck arch php = some (j, check) ∧ j ∉ st.seenSeg ∧
      check.action ≠ .ignore ∧ Placed arch addrBits check php ∧
      st' = { seenSeg := j :: st.seenSeg
              loadable := st.loadable ++ [true]
              bounds := recordSegment arch check.action php st.bounds } := by
  rw [scanPhdr] at ran
  split at ran
  · rename_i empty
    cases ran
    exact .inl ⟨st.seenSeg, rfl, List.Subset.refl _, .inl empty, fun j hj => .inl hj⟩
  rename_i nonempty
  split at ran
  · contradiction
  rename_i j check found
  simp only at ran
  split at ran
  · contradiction
  rename_i fresh
  split at ran
  · rename_i ignored
    cases ran
    refine .inl ⟨j :: st.seenSeg, rfl, subset_cons_self _ _, .inr ⟨j, check, found, ignored⟩, ?_⟩
    intro i member
    rcases mem_cons.mp member with rfl | old
    · exact .inr ⟨check, found, ignored⟩
    · exact .inl old
  rename_i kept
  split at ran
  · contradiction
  rename_i fixed
  split at ran
  · contradiction
  rename_i low
  split at ran
  · contradiction
  rename_i order
  split at ran
  · contradiction
  rename_i high
  split at ran
  · contradiction
  rename_i file
  split at ran
  · contradiction
  cases ran
  refine .inr ⟨j, check, found, fresh, kept, ?_, rfl⟩
  have hv := bounded.vaddr
  have hm := bounded.memsz
  have no_wrap : php.pVaddr + php.pMemsz < 2 ^ arch.ptrBits := by
    refine Nat.lt_of_not_le fun wraps => order ?_
    rw [Nat.mod_eq_sub_mod wraps, Nat.mod_eq_of_lt (by omega)]
    omega
  rw [Nat.mod_eq_of_lt no_wrap] at high
  have space := oneShl_le arch.ptrBits addrBits
  refine ⟨by omega, ?_, by omega, no_wrap, by omega, by omega⟩
  rcases Classical.em (check.pVaddr = 0) with zero | nonzero
  · exact .inl zero
  · exact .inr (Classical.not_not.mp fun other => fixed ⟨nonzero, other⟩)

def Recorded (action : NaClPhdrCheckAction) (php : ElfPhdr) (bounds : SegmentBounds) : Prop :=
  match action with
  | .textCheck => bounds.staticTextEnd = naclTrampolineEnd + php.pFilesz
  | .rodata => bounds.rodataStart = php.pVaddr ∧ bounds.rodataEnd = php.pVaddr + php.pMemsz
  | .data => bounds.dataStart = php.pVaddr ∧ bounds.dataEnd = php.pVaddr + php.pMemsz
  | .none | .ignore => True

theorem recordSegment_max (action : NaClPhdrCheckAction) (placed : Placed arch addrBits check php)
    (bounds : SegmentBounds) :
    (recordSegment arch action php bounds).maxVaddr = max bounds.maxVaddr (php.pVaddr + php.pMemsz) := by
  by_cases later : bounds.maxVaddr < php.pVaddr + php.pMemsz
  · rw [Nat.max_eq_right (Nat.le_of_lt later)]
    cases action <;> simp [recordSegment, Nat.mod_eq_of_lt placed.no_wrap, later]
  · rw [Nat.max_eq_left (Nat.le_of_not_lt later)]
    cases action <;> simp [recordSegment, Nat.mod_eq_of_lt placed.no_wrap, later]

theorem recordSegment_recorded (placed : Placed arch addrBits check php) (bounds : SegmentBounds) :
    Recorded check.action php (recordSegment arch check.action php bounds) := by
  have file := placed.file
  have fits := placed.no_wrap
  have low := placed.low
  cases action : check.action with
  | textCheck =>
    have small : naclTrampolineEnd + php.pFilesz < 2 ^ arch.ptrBits := by omega
    simp only [Recorded, recordSegment, Nat.mod_eq_of_lt small]
  | rodata => simp only [Recorded, recordSegment, Nat.mod_eq_of_lt fits, and_self]
  | data => simp only [Recorded, recordSegment, Nat.mod_eq_of_lt fits, and_self]
  | none => trivial
  | ignore => trivial

theorem recorded_kept {action action' : NaClPhdrCheckAction} {old : ElfPhdr}
    {bounds : SegmentBounds} (recorded : Recorded action old bounds)
    (other : action = action' → action = .none ∨ action = .ignore) :
    Recorded action old (recordSegment arch action' php bounds) := by
  cases action <;> cases action' <;> simp only [Recorded, recordSegment] at * <;>
    first | trivial | (split <;> simpa using recorded)

/-- Invariant of the scan after the headers `done`, started with out-parameters `init`. -/
structure ScanInv (arch : Arch) (addrBits : Nat) (init : SegmentBounds) (done : List ElfPhdr)
    (st : ScanState) : Prop where
  marks : st.loadable.length = done.length
  placed : ∀ e ∈ done.zip st.loadable, e.2 = true → ∃ j check,
    matchingCheck arch e.1 = some (j, check) ∧ j ∈ st.seenSeg ∧ Placed arch addrBits check e.1 ∧
      e.1.pVaddr + e.1.pMemsz ≤ st.bounds.maxVaddr ∧ Recorded check.action e.1 st.bounds
  skipped : ∀ e ∈ done.zip st.loadable, e.2 = false → e.1.pMemsz = 0 ∨ ∃ j check,
    matchingCheck arch e.1 = some (j, check) ∧ check.action = .ignore
  distinct : (done.zip st.loadable).Pairwise fun a b => a.2 = true → b.2 = true →
    (matchingCheck arch a.1).map Prod.fst ≠ (matchingCheck arch b.1).map Prod.fst
  text : 1 ∈ st.seenSeg → ∃ php ∈ done, php.IsText
  rodata : st.bounds.rodataStart = init.rodataStart ∨ ∃ php ∈ done, php.IsRodata
  data : st.bounds.dataStart = init.dataStart ∨ ∃ php ∈ done, php.IsData
  low : naclTrampolineEnd ≤ st.bounds.maxVaddr
  high : st.bounds.maxVaddr = naclTrampolineEnd ∨
    (st.bounds.maxVaddr < 2 ^ addrBits ∧ st.bounds.maxVaddr < 2 ^ arch.ptrBits)

section Scan

variable {init : SegmentBounds} {done : List ElfPhdr}

theorem zip_snoc (php : ElfPhdr) (same : st.loadable.length = done.length) (flag : Bool) :
    (done ++ [php]).zip (st.loadable ++ [flag]) = done.zip st.loadable ++ [(php, flag)] := by
  rw [zip_append same.symm]
  rfl

theorem exists_mem_snoc {P : ElfPhdr → Prop} (found : ∃ p ∈ done, P p) : ∃ p ∈ done ++ [php], P p := by
  obtain ⟨p, member, holds⟩ := found
  exact ⟨p, mem_append_left _ member, holds⟩

theorem ScanInv.skip (inv : ScanInv arch addrBits init done st) {seen : List Nat} (grows : st.seenSeg ⊆ seen)
    (idle : php.pMemsz = 0 ∨ ∃ j check, matchingCheck arch php = some (j, check) ∧ check.action = .ignore)
    (ignored : ∀ j ∈ seen, j ∈ st.seenSeg ∨ ∃ check, matchingCheck arch php = some (j, check) ∧
      check.action = .ignore) :
    ScanInv arch addrBits init (done ++ [php]) { st with seenSeg := seen }.skip := by
  have zipped := zip_snoc php inv.marks false
  refine ⟨by simp [ScanState.skip, inv.marks], ?_, ?_, ?_, ?_, inv.rodata.imp_right exists_mem_snoc,
    inv.data.imp_right exists_mem_snoc, inv.low, inv.high⟩
  · intro e member loaded
    rw [ScanState.skip, zipped] at member
    rcases mem_append.mp member with old | new
    · obtain ⟨j, check, found, seen_before, rest⟩ := inv.placed e old loaded
      exact ⟨j, check, found, grows seen_before, rest⟩
    · cases mem_singleton.mp new
      contradiction
  · intro e member unmarked
    rw [ScanState.skip, zipped] at member
    rcases mem_append.mp member with old | new
    · exact inv.skipped e old unmarked
    · cases mem_singleton.mp new
      exact idle
  · rw [ScanState.skip, zipped, pairwise_append]
    refine ⟨inv.distinct, pairwise_singleton _ _, ?_⟩
    intro a _ b hb _ loaded
    cases mem_singleton.mp hb
    contradiction
  · intro member
    rcases ignored 1 member with old | ⟨check, found, ignores⟩
    · exact exists_mem_snoc (inv.text old)
    · have := (check_rows found).1.text.mpr rfl
      rw [ignores] at this
      contradiction

theorem recordSegment_starts (arch : Arch) (php : ElfPhdr) (action : NaClPhdrCheckAction)
    (bounds : SegmentBounds) :
    (action ≠ .rodata → (recordSegment arch action php bounds).rodataStart = bounds.rodataStart) ∧
    (action ≠ .data → (recordSegment arch action php bounds).dataStart = bounds.dataStart) := by
  cases action <;> simp only [recordSegment] <;> split <;> simp

theorem ScanInv.load (inv : ScanInv arch addrBits init done st)
    (found : matchingCheck arch php = some (j, check)) (fresh : j ∉ st.seenSeg)
    (placed : Placed arch addrBits check php) : ScanInv arch addrBits init (done ++ [php])
      { seenSeg := j :: st.seenSeg
        loadable := st.loadable ++ [true]
        bounds := recordSegment arch check.action php st.bounds } := by
  have zipped := zip_snoc php inv.marks true
  obtain ⟨rows, type, flags⟩ := check_rows found
  have top := recordSegment_max check.action placed st.bounds
  have starts := recordSegment_starts arch php check.action st.bounds
  have here : php ∈ done ++ [php] := by simp
  refine ⟨by simp [inv.marks], ?_, ?_, ?_, ?_, ?_, ?_, ?_, ?_⟩
  · intro e member loaded
    rw [zipped] at member
    rcases mem_append.mp member with old | new
    · obtain ⟨i, row, found_before, seen_before, placed_before, below, recorded⟩ :=
        inv.placed e old loaded
      refine ⟨i, row, found_before, mem_cons_of_mem _ seen_before, placed_before, ?_, recorded_kept recorded ?_⟩
      · simp only [top]
        exact Nat.le_trans below (Nat.le_max_left _ _)
      -- a row with an extent is matched once, so its action differs from the new one
      have apart : i ≠ j := fun same => fresh (same ▸ seen_before)
      have rows_before := (check_rows found_before).1
      intro same
      cases kind : row.action with
      | none => exact .inl rfl
      | ignore => exact .inr rfl
      | textCheck =>
        exact absurd ((rows_before.text.mp kind).trans (rows.text.mp (same ▸ kind)).symm) apart
      | rodata =>
        exact absurd ((rows_before.rodata.mp kind).trans (rows.rodata.mp (same ▸ kind)).symm) apart
      | data =>
        exact absurd ((rows_before.data.mp kind).trans (rows.data.mp (same ▸ kind)).symm) apart
    · cases mem_singleton.mp new
      refine ⟨j, check, found, mem_cons_self, placed, ?_, recordSegment_recorded placed _⟩
      simp only [top]
      exact Nat.le_max_right _ _
  · intro e member unmarked
    rw [zipped] at member
    rcases mem_append.mp member with old | new
    · exact inv.skipped e old unmarked
    · cases mem_singleton.mp new
      contradiction
  · rw [zipped, pairwise_append]
    refine ⟨inv.distinct, pairwise_singleton _ _, ?_⟩
    intro a ha b hb loaded _ same
    cases mem_singleton.mp hb
    obtain ⟨i, row, found_before, seen_before, -⟩ := inv.placed a ha loaded
    simp only [found_before, found, Option.map_some, Option.some.injEq] at same
    exact fresh (same ▸ seen_before)
  · intro member
    rcases mem_cons.mp member with same | old
    · have row := rows.text_row same.symm
      exact ⟨php, here, placed.nonempty, type.trans row.1, flags.trans row.2.1⟩
    · exact exists_mem_snoc (inv.text old)
  · by_cases kind : check.action = .rodata
    · have row := rows.rodata_row (rows.rodata.mp kind)
      exact .inr ⟨php, here, placed.nonempty, type.trans row.1, flags.trans row.2⟩
    · simp only [starts.1 kind]
      exact inv.rodata.imp_right exists_mem_snoc
  · by_cases kind : check.action = .data
    · have row := rows.data_row (rows.data.mp kind)
      exact .inr ⟨php, here, placed.nonempty, type.trans row.1, flags.trans row.2⟩
    · simp only [starts.2 kind]
      exact inv.data.imp_right exists_mem_snoc
  · rw [top]
    exact Nat.le_trans inv.low (Nat.le_max_left _ _)
  · have low := inv.low
    have high := inv.high
    have := placed.high
    have := placed.no_wrap
    have := placed.low
    right
    simp only [top]
    omega

theorem scan_start (arch : Arch) (addrBits : Nat) (init : SegmentBounds) : ScanInv arch addrBits init []
      { seenSeg := [], loadable := [], bounds := { init with maxVaddr := naclTrampolineEnd } } :=
  ⟨rfl, nofun, nofun, .nil, nofun, .inl rfl, .inl rfl, Nat.le_refl _, .inl rfl⟩

theorem scan_step (bounded : php.Bounded arch) (inv : ScanInv arch addrBits init done st)
    (ran : scanPhdr arch addrBits st php = .ok st') : ScanInv arch addrBits init (done ++ [php]) st' := by
  rcases scanPhdr_cases bounded ran with
    ⟨seen, rfl, grows, idle, ignored⟩ | ⟨j, check, found, fresh, -, placed, rfl⟩
  · exact inv.skip grows idle ignored
  · exact inv.load found fresh placed

theorem validated_scan {image' : NaClElfImage} {out : SegmentBounds}
    (bounded : ∀ php ∈ image.phdrs, php.Bounded arch)
    (accepted : naClElfImageValidateProgramHeaders arch image addrBits init = .ok (image', out)) :
    image'.phdrs = image.phdrs ∧ ∃ seen, 1 ∈ seen ∧ ScanInv arch addrBits init image.phdrs
      { seenSeg := seen, loadable := image'.loadable, bounds := out } := by
  rw [naClElfImageValidateProgramHeaders] at accepted
  obtain ⟨st, scanned, rest⟩ := Run.except_bind_ok accepted
  split at rest
  · contradiction
  rename_i required
  cases rest
  refine ⟨rfl, st.seenSeg, ?_, ?_⟩
  · simp only [List.any_eq_true, not_exists, not_and, Bool.and_eq_true, decide_eq_true_eq] at required
    have row : ((⟨ptLoad, pfR ||| pfX, .textCheck, true, naclTrampolineEnd⟩ : NaClPhdrChecks), 1) ∈
        (naclPhdrCheckData arch).zipIdx := by
      cases arch <;> decide
    exact Classical.not_not.mp (required _ row rfl)
  · -- the bound on the fields is part of the invariant: every header processed has it
    have inv := Run.foldlM_except_invariant
      (fun done st => (∀ php ∈ done, php.Bounded arch) → ScanInv arch addrBits init done st)
      (fun done s php s' holds step all => scan_step (all php (by simp))
        (holds fun p hp => all p (by simp [hp])) step)
      image.phdrs [] (fun _ => scan_start arch addrBits init) scanned
    exact inv bounded

theorem exists_mark {loadable : List Bool} (same : loadable.length = done.length)
    (member : php ∈ done) : ∃ flag, (php, flag) ∈ done.zip loadable := by
  obtain ⟨i, bound, rfl⟩ := mem_iff_getElem.mp member
  refine ⟨loadable[i], mem_iff_getElem.mpr ⟨i, ?_, getElem_zip⟩⟩
  rw [length_zip]
  omega

theorem ScanInv.loaded (inv : ScanInv arch addrBits init done st) (member : php ∈ done)
    (nonempty : 0 < php.pMemsz)
    (found : matchingCheck arch php = some (j, check)) (kept : check.action ≠ .ignore) :
    Placed arch addrBits check php ∧ php.pVaddr + php.pMemsz ≤ st.bounds.maxVaddr ∧
      Recorded check.action php st.bounds := by
  obtain ⟨flag, marked⟩ := exists_mark inv.marks member
  cases flag with
  | true =>
    obtain ⟨i, row, again, -, rest⟩ := inv.placed _ marked rfl
    cases (again.symm.trans found)
    exact rest
  | false =>
    rcases inv.skipped _ marked rfl with empty | ⟨i, row, again, ignored⟩
    · simp only at empty
      omega
    · cases (again.symm.trans found)
      exact absurd ignored kept

structure SegmentFacts (arch : Arch) (addrBits : Nat) (init : SegmentBounds)
    (phdrs : List ElfPhdr) (out : SegmentBounds) : Prop where
  text_present : ∃ php ∈ phdrs, php.IsText
  text_at : ∀ php ∈ phdrs, php.IsText → php.pVaddr = naclTrampolineEnd ∧
    out.staticTextEnd = naclTrampolineEnd + php.pFilesz ∧ php.pFilesz ≤ php.pMemsz ∧
    naclTrampolineEnd + php.pMemsz ≤ out.maxVaddr
  rodata_at : ∀ php ∈ phdrs, php.IsRodata → naclTrampolineEnd ≤ php.pVaddr ∧
    out.rodataStart = php.pVaddr ∧ out.rodataEnd = php.pVaddr + php.pMemsz ∧
    out.rodataEnd ≤ out.maxVaddr ∧ php.pFilesz ≤ php.pMemsz
  data_at : ∀ php ∈ phdrs, php.IsData → naclTrampolineEnd ≤ php.pVaddr ∧
    out.dataStart = php.pVaddr ∧ out.dataEnd = php.pVaddr + php.pMemsz ∧
    out.dataEnd ≤ out.maxVaddr ∧ php.pFilesz ≤ php.pMemsz
  rodata_from : out.rodataStart = init.rodataStart ∨ ∃ php ∈ phdrs, php.IsRodata
  data_from : out.dataStart = init.dataStart ∨ ∃ php ∈ phdrs, php.IsData
  high : out.maxVaddr < 2 ^ addrBits ∧ out.maxVaddr < 2 ^ arch.ptrBits

theorem ScanInv.facts {phdrs : List ElfPhdr} (inv : ScanInv arch addrBits init phdrs st)
    (seen : 1 ∈ st.seenSeg) : SegmentFacts arch addrBits init phdrs st.bounds := by
  have text_at : ∀ php ∈ phdrs, php.IsText → php.pVaddr = naclTrampolineEnd ∧
      st.bounds.staticTextEnd = naclTrampolineEnd + php.pFilesz ∧ php.pFilesz ≤ php.pMemsz ∧
      naclTrampolineEnd + php.pMemsz ≤ st.bounds.maxVaddr := by
    intro php member text
    obtain ⟨check, found⟩ := (matching_load arch text).1 rfl
    have rows := (check_rows found).1
    have action := rows.text.mpr rfl
    obtain ⟨placed, below, recorded⟩ :=
      inv.loaded member text.nonempty found (by rw [action]; decide)
    rw [action] at recorded
    have start : php.pVaddr = naclTrampolineEnd := by
      have row := (rows.text_row rfl).2.2
      rcases placed.fixed with zero | same
      · rw [row] at zero
        exact absurd zero (by decide)
      · exact same.symm.trans row
    exact ⟨start, recorded, placed.file, start ▸ below⟩
  refine ⟨inv.text seen, text_at, ?_, ?_, inv.rodata, inv.data, ?_⟩
  · intro php member rodata
    obtain ⟨check, found⟩ := (matching_load arch rodata).2.1 rfl
    have action := (check_rows found).1.rodata.mpr rfl
    obtain ⟨placed, below, recorded⟩ :=
      inv.loaded member rodata.nonempty found (by rw [action]; decide)
    rw [action] at recorded
    exact ⟨placed.low, recorded.1, recorded.2, recorded.2 ▸ below, placed.file⟩
  · intro php member data
    obtain ⟨check, found⟩ := (matching_load arch data).2.2 rfl
    have action := (check_rows found).1.data.mpr rfl
    obtain ⟨placed, below, recorded⟩ :=
      inv.loaded member data.nonempty found (by rw [action]; decide)
    rw [action] at recorded
    exact ⟨placed.low, recorded.1, recorded.2, recorded.2 ▸ below, placed.file⟩
  · obtain ⟨php, member, text⟩ := inv.text seen
    have := (text_at php member text).2.2.2
    have := text.nonempty
    rcases inv.high with least | bound
    · omega
    · exact bound

end Scan

/-- Each store of the load loop comes from a header marked loadable and stays within its
file size; stores are reported in the order of the headers. -/
theorem loadSegments_writes (segs : List (ElfPhdr × Bool)) (segnum : Nat) {w : SegmentWrite}
    (member : w ∈ (loadSegments arch gp addrBits segnum segs).1) :
    segnum ≤ w.segnum ∧ segs[w.segnum - segnum]? = some (w.php, true) ∧ w.count ≤ w.php.pFilesz := by
  induction segs generalizing segnum with
  | nil => cases member
  | cons seg rest ih =>
    obtain ⟨php, loadable⟩ := seg
    have later : w ∈ (loadSegments arch gp addrBits (segnum + 1) rest).1 →
        segnum ≤ w.segnum ∧ ((php, loadable) :: rest)[w.segnum - segnum]? = some (w.php, true) ∧
          w.count ≤ w.php.pFilesz := by
      intro tail
      obtain ⟨order, index, count⟩ := ih (segnum + 1) tail
      refine ⟨by omega, ?_, count⟩
      rw [show w.segnum - segnum = (w.segnum - (segnum + 1)) + 1 by omega]
      exact index
    have here : loadable = true → w = ⟨segnum, php, gp.read php.pOffset php.pFilesz⟩ →
        segnum ≤ w.segnum ∧ ((php, loadable) :: rest)[w.segnum - segnum]? = some (w.php, true) ∧
          w.count ≤ w.php.pFilesz := by
      rintro rfl rfl
      exact ⟨Nat.le_refl _, by simp, gp.read_le _ _⟩
    rw [loadSegments] at member
    split at member
    · exact later member
    rename_i marked
    have marked : loadable = true := by simpa using marked
    simp only at member
    split at member
    · cases member
    split at member
    · cases member
    split at member
    · cases member
    split at member
    · exact here marked (mem_singleton.mp member)
    · rcases mem_cons.mp member with same | tail
      · exact here marked same
      · exact later tail

end Glopen.Nacl

import Glopen.Cache.SparseControl

/-! The range query of a sparse entry against the read: both have the same bytes of a child. -/
namespace Glopen.Cache

open Option
variable {index : Nat} {data : SparseData} {size : Nat} {control : SparseControl}

section Bitmap

variable {n : Nat}

theorem findNextBit_some {map : BitVec n} {limit bit : Nat} {value : Bool}
    (next : findNextBit map index limit value = some bit) : index ≤ bit ∧ bit < limit ∧ map.getLsbD bit = value ∧
      ∀ b, index ≤ b → b < bit → map.getLsbD b = !value := by
  rw [findNextBit, List.find?_range'_eq_some, List.mem_range'_1] at next
  obtain ⟨is_value, inside, before⟩ := next
  refine ⟨inside.1, by omega, beq_iff_eq.mp is_value, fun b from_index earlier => ?_⟩
  have other := before b from_index earlier
  simp only [Bool.not_eq_true', beq_eq_false_iff_ne] at other
  exact Bool.eq_not.mpr other

theorem findNextBit_none {map : BitVec n} {limit : Nat} {value : Bool}
    (next : findNextBit map index limit value = none) {b : Nat} (above : index ≤ b)
    (below : b < limit) : map.getLsbD b = !value := by
  rw [findNextBit, List.find?_range'_eq_none] at next
  have other := next b above (by omega)
  simp only [Bool.not_eq_true', beq_eq_false_iff_ne] at other
  exact Bool.eq_not.mpr other

/-- A run of set bits that cannot be extended below `limit`. -/
structure BitRun (map : BitVec n) (index limit found bits : Nat) : Prop where
  above : index ≤ found
  below : found + bits ≤ limit
  clear : ∀ b, index ≤ b → b < found → map.getLsbD b = false
  set : ∀ b, found ≤ b → b < found + bits → map.getLsbD b = true
  ends : found + bits < limit → map.getLsbD (found + bits) = false

theorem findBits_cases (map : BitVec n) (index limit : Nat) : (findBits map index limit true = (index, 0) ∧
        ∀ b, index ≤ b → b < limit → map.getLsbD b = false) ∨
      ∃ found bits, findBits map index limit true = (found, bits) ∧ 0 < bits ∧
        BitRun map index limit found bits := by
  rw [findBits]
  cases first : findNextBit map index limit true with
  | none => exact .inl ⟨rfl, fun b above below => findNextBit_none first above below⟩
  | some found =>
    obtain ⟨above, below, found_set, clear⟩ := findNextBit_some first
    refine .inr ?_
    cases last : findNextBit map found limit !true with
    | none =>
      exact ⟨found, limit - found, by simp only [last], by omega, above, by omega, clear,
        fun b from_found to_end => findNextBit_none last from_found (by omega), fun more => by omega⟩
    | some last_bit =>
      obtain ⟨later, inside, last_clear, set⟩ := findNextBit_some last
      have longer : found ≠ last_bit := by
        rintro rfl
        rw [found_set] at last_clear
        cases last_clear
      refine ⟨found, last_bit - found, by simp only [last], by omega, above, by omega, clear,
        fun b from_found to_end => set b from_found (by omega), fun _ => ?_⟩
      have ends : found + (last_bit - found) = last_bit := by omega
      rw [ends]
      exact last_clear

theorem setRange_bit (map : BitVec n) (first last b : Nat) (fits : last ≤ n) :
    (setRange map first last).getLsbD b = (map.getLsbD b || decide (first ≤ b ∧ b < last)) := by
  rw [setRange, BitVec.getLsbD_or, BitVec.getLsbD_shiftLeft, BitVec.getLsbD_ofNat, Nat.testBit_two_pow_sub_one]
  congr 1
  by_cases inside : first ≤ b ∧ b < last
  · rw [decide_eq_true inside]
    simp only [Bool.and_eq_true, decide_eq_true_eq, Bool.not_eq_true', decide_eq_false_iff_not]
    omega
  · rw [decide_eq_false inside]
    simp only [Bool.and_eq_false_iff, decide_eq_false_iff_not, Bool.not_eq_false', decide_eq_true_eq]
    omega

end Bitmap

structure SparseData.Recorded (data : SparseData) (size : Nat) : Prop where
  bits : ∀ b, data.bitmap.getLsbD b = true → (b + 1) * 1024 ≤ size
  lenRange : 0 ≤ data.header.lastBlockLen ∧ data.header.lastBlockLen ≤ 1024
  last : ∀ b : Nat, (b : Int) = data.header.lastBlock → b * 1024 + data.header.lastBlockLen ≤ size

theorem partialBlockLength_bounds (recorded : data.Recorded size) (b : Nat) :
    0 ≤ partialBlockLength data size b ∧
      (0 < partialBlockLength data size b → b * 1024 + partialBlockLength data size b ≤ size) := by
  have range := recorded.lenRange
  have last := recorded.last b
  rw [partialBlockLength]
  split
  · exact ⟨range.1, fun _ => last (by assumption)⟩
  · split <;> omega

structure Readable (data : SparseData) (size : Nat) (offset len : Int) (run : Nat) : Prop where
  set : ∀ b, (offset / 1024).toNat ≤ b → b < (offset / 1024).toNat + run → data.bitmap.getLsbD b = true
  rest : offset + len ≤ ((offset / 1024).toNat + run) * 1024 ∨
    data.bitmap.getLsbD ((offset / 1024).toNat + run) = false ∧
      offset + len ≤ ((offset / 1024).toNat + run : Nat) * 1024 +
        partialBlockLength data size ((offset / 1024).toNat + run)

section

variable (recorded : data.Recorded size) {offset len : Int} {run : Nat}
  (readable : Readable data size offset len run) (from_zero : 0 ≤ offset) (some_bytes : 0 < len)
include recorded readable from_zero some_bytes

theorem Readable.stored : offset + len ≤ size := by
  rcases readable.rest with whole | ⟨-, rest⟩
  · have first := readable.set ((offset + len - 1) / 1024).toNat (by omega) (by omega)
    have there := recorded.bits _ first
    omega
  · have bounds := partialBlockLength_bounds recorded ((offset / 1024).toNat + run)
    by_cases more : 0 < partialBlockLength data size ((offset / 1024).toNat + run)
    · have there := bounds.2 more
      omega
    · have first := readable.set ((offset + len - 1) / 1024).toNat (by omega) (by omega)
      have there := recorded.bits _ first
      omega

theorem Readable.reads (inside : offset + len ≤ kMaxEntrySize) :
    verifyRange data size .readOperation offset len = some (len, len) ∧ readChild size offset len = len := by
  have stored := readable.stored recorded from_zero some_bytes
  constructor
  · have child_len : min len (kMaxEntrySize - offset) = len := by omega
    rw [verifyRange, child_len]
    simp only [ne_eq, not_true, if_false]
    cases hole : findNextBit data.bitmap (offset / 1024).toNat
        ((offset + len + 1023) / 1024).toNat false with
    | none => rfl
    | some start =>
      obtain ⟨above, below, clear, set⟩ := findNextBit_some hole
      have later : (offset / 1024).toNat + run ≤ start := by
        by_contra early
        rw [readable.set start above (by omega)] at clear
        cases clear
      rcases readable.rest with whole | ⟨run_clear, rest⟩
      · omega
      · have same : start = (offset / 1024).toNat + run := by
          by_contra other
          have run_set := set ((offset / 1024).toNat + run) (by omega) (by omega)
          rw [run_clear] at run_set
          cases run_set
        rw [← same] at rest
        have block : kBlockSize = 1024 := rfl
        simp only [block]
        rw [if_neg (by omega), if_pos (by omega)]
        have all : min ((start : Int) * 1024 - offset + partialBlockLength data size start) len =
            len := by omega
        rw [all]
  · rw [readChild, if_neg (by omega), if_neg (by omega)]
    omega

end

theorem availableInChild_spec (recorded : data.Recorded size) {childOffset childLen : Int}
    (from_zero : 0 ≤ childOffset) (some_bytes : 0 < childLen) :
    (availableInChild data size childOffset childLen = none ∧
        ∀ b, data.bitmap.getLsbD b = true → (b : Int) * 1024 < childOffset + childLen →
          (b + 1 : Int) * 1024 ≤ childOffset) ∨
      ∃ emptyStart result run, availableInChild data size childOffset childLen = some (emptyStart, result) ∧
          0 ≤ emptyStart ∧ 0 < result ∧ emptyStart + result ≤ childLen ∧
          Readable data size (childOffset + emptyStart) result run := by
  have block : kBlockSize = 1024 := rfl
  have bounds := fun b => partialBlockLength_bounds recorded b
  rw [availableInChild]
  simp only [block]
  rcases findBits_cases data.bitmap (childOffset / 1024).toNat
      ((childOffset + childLen + 1023) / 1024).toNat with
    ⟨nothing, clear⟩ | ⟨found, bits, something, positive, bit_run⟩
  · rw [nothing]
    simp only [true_and]
    have first_clear := clear (childOffset / 1024).toNat le_rfl (by omega)
    by_cases empty : partialBlockLength data size (childOffset / 1024).toNat ≤ childOffset % 1024
    · rw [if_pos empty]
      refine .inl ⟨rfl, fun b set below => ?_⟩
      by_contra late
      rw [clear b (by omega) (by omega)] at set
      cases set
    · rw [if_neg empty, if_pos trivial]
      refine .inr ⟨0, _, 0, rfl, Int.le_refl 0, by omega, by omega, fun b above below => by omega, .inr ?_⟩
      rw [Int.add_zero, Nat.add_zero]
      exact ⟨first_clear, by omega⟩
  · rw [something]
    have not_none : bits ≠ 0 := Nat.pos_iff_ne_zero.mp positive
    simp only [not_none, false_and, if_false]
    have above := bit_run.above
    have below := bit_run.below
    have last := bounds (found + bits)
    refine .inr ⟨_, _, bits, rfl, by omega, ?_, by omega, ?_, ?_⟩
    · split <;> omega
    · intro b from_found to_end
      exact bit_run.set b (by omega) (by omega)
    · have here : ((childOffset + max ((found : Int) * 1024 - childOffset) 0) / 1024).toNat = found :=
        by omega
      rw [here]
      by_cases more : found + bits < ((childOffset + childLen + 1023) / 1024).toNat
      · refine .inr ⟨bit_run.ends more, ?_⟩
        split <;> omega
      · refine .inl ?_
        omega

section Stored

/-- An entry that `OpenChild` keeps. -/
def ChildEntry.usable (entry : ChildEntry) (signature : Int) : Bool :=
  entry.childFlag && entry.readable && entry.sparseIndex.any fun data =>
    data.header.signature = signature ∧ data.header.magic = kIndexMagic

def SparseControl.stored (control : SparseControl) (index : Nat) : Option (SparseData × Nat) :=
  match control.entries index with
  | none => none
  | some entry =>
    if control.child = some index then some (control.childData, entry.dataSize)
    else if control.childPresent index && entry.usable control.sparseHeader.signature then
      entry.sparseIndex.map fun data => (data.checked, entry.dataSize)
    else none

structure SparseControl.Sound (control : SparseControl) : Prop where
  header : control.sparseHeader.magic = kIndexMagic ∧ control.sparseHeader.lastBlock = 0 ∧
    control.sparseHeader.lastBlockLen = 0
  recorded : ∀ {index data size}, control.stored index = some (data, size) → data.Recorded size
  opened : ∀ {index}, control.child = some index → control.childPresent index = true ∧
    control.childData.header.signature = control.sparseHeader.signature ∧
    control.childData.header.magic = kIndexMagic ∧
    ∃ entry, control.entries index = some entry ∧ entry.childFlag = true ∧ entry.readable = true

theorem setChildBit_present (control : SparseControl) (index other : Nat) (value : Bool) :
    (control.setChildBit index value).childPresent other =
      if other = index then value else control.childPresent other := by
  have room : index < requiredArraySize (index + 1) * 32 := by
    rw [requiredArraySize]
    split <;> omega
  rw [SparseControl.setChildBit, SparseControl.childPresent, SparseControl.childPresent]
  simp only [List.getD_eq_getElem?_getD]
  split
  · rw [List.getElem?_set]
    by_cases here : other = index
    · rw [if_pos here, if_pos here.symm, if_pos (by simp; omega)]
      rfl
    · rw [if_neg here, if_neg fun same => here same.symm, List.getElem?_append]
      split
      · rfl
      · rw [List.getElem?_replicate, List.getElem?_eq_none (by omega)]
        split <;> rfl
  · rw [List.getElem?_set]
    by_cases here : other = index
    · rw [if_pos here, if_pos here.symm, if_pos (by omega)]
      rfl
    · rw [if_neg here, if_neg fun same => here same.symm]

theorem Recorded.checked (recorded : data.Recorded size) : data.checked = data := by
  have block : kBlockSize = 1024 := rfl
  have range := recorded.lenRange
  rw [SparseData.checked, if_neg (by omega)]

variable {closed : SparseControl}

theorem stored_open {entry : ChildEntry} (there : control.entries index = some entry)
    (child : control.child = some index) : control.stored index = some (control.childData, entry.dataSize) := by
  rw [SparseControl.stored, there]
  exact if_pos child

theorem stored_congr {after : SparseControl} (entries : after.entries index = control.entries index)
    (present : after.childPresent index = control.childPresent index)
    (header : after.sparseHeader = control.sparseHeader)
    (closed : control.child ≠ some index) (still : after.child ≠ some index) :
    after.stored index = control.stored index := by
  rw [SparseControl.stored, SparseControl.stored, entries, present, header]
  cases control.entries index with
  | none => rfl
  | some entry =>
    simp only
    rw [if_neg closed, if_neg still]

theorem closeChild_child (control : SparseControl) : control.closeChild.child = none := by
  rw [SparseControl.closeChild]
  cases child : control.child with
  | none => exact child
  | some index => rfl

theorem closeChild_header (control : SparseControl) :
    control.closeChild.sparseHeader = control.sparseHeader := by
  rw [SparseControl.closeChild]
  split <;> rfl

theorem closeChild_stored (sound : control.Sound) (index : Nat) :
    control.closeChild.stored index = control.stored index := by
  rw [SparseControl.closeChild]
  cases child : control.child with
  | none => rfl
  | some i =>
    obtain ⟨present, signature, magic, entry, there, flag, readable⟩ := sound.opened child
    have was := stored_open there child
    by_cases here : index = i
    · subst here
      rw [was, SparseControl.stored]
      simp only [SparseControl.setEntry, if_true, there, map_some]
      rw [if_neg (by simp)]
      have usable : ({ entry with sparseIndex := some control.childData } : ChildEntry).usable
          control.sparseHeader.signature = true := by
        rw [ChildEntry.usable]
        simp [flag, readable, signature, magic]
      have kept : SparseControl.childPresent { control with
            entries := fun i => if i = index then
              some { entry with sparseIndex := some control.childData } else control.entries i
            child := none } index = true := present
      rw [usable, kept]
      simp only [Bool.and_self, if_true]
      rw [Recorded.checked (sound.recorded was)]
    · exact stored_congr (if_neg here) rfl rfl (by rw [child]; simp; omega) (by simp)

theorem SparseControl.Sound.of_closed {after : SparseControl} (sound : control.Sound)
    (header : after.sparseHeader = control.sparseHeader) (child : after.child = none)
    (stored : ∀ index data size, after.stored index = some (data, size) →
      control.stored index = some (data, size) ∨ data.Recorded size) : after.Sound := by
  refine ⟨by rw [header]; exact sound.header, fun {index data size} there => ?_, fun open_child => ?_⟩
  · exact (stored index data size there).elim sound.recorded id
  · rw [child] at open_child
    cases open_child

theorem SparseControl.Sound.close (sound : control.Sound) : control.closeChild.Sound :=
  sound.of_closed (closeChild_header control) (closeChild_child control) fun index data size there =>
    .inl (by rw [← closeChild_stored sound]; exact there)

/-- How `OpenChild` can end, from a state without an open child or with another one. -/
inductive Opening (control : SparseControl) (index : Nat) (operation : SparseOperation) :
    SparseControl × ChildOpened → Prop
  | found {after : SparseControl} : after.Sound → after.child = some index →
      (∀ i, after.stored i = control.stored i) → Opening control index operation (after, .opened)
  | made {after : SparseControl} : after.Sound → after.child = some index →
      operation = .writeOperation → Opening control index operation (after, .opened)
  | skipped {after : SparseControl} : after.Sound → after.child = none →
      (∀ i, after.stored i = control.stored i) → control.stored index = none →
      operation = .getRangeOperation → Opening control index operation (after, .opened)
  | stopped {after : SparseControl} : after.Sound → (∀ i, after.stored i = control.stored i) →
      control.stored index = none → operation = .readOperation →
      Opening control index operation (after, .stopped)
  | failed {after : SparseControl} : after.Sound → (∀ i, after.stored i = control.stored i) →
      control.stored index = none → Opening control index operation (after, .failed)

theorem initChildData_sound (sound : control.Sound) (index : Nat) (closed : control.child = none) :
    (control.initChildData index).Sound := by
  have stored : ∀ i data size, (control.initChildData index).stored i = some (data, size) →
      control.stored i = some (data, size) ∨ data.Recorded size := by
    intro i data size there
    by_cases here : i = index
    · subst here
      rw [stored_open (if_pos rfl) rfl] at there
      cases there
      refine .inr ⟨fun b set => ?_, ?_, fun b last => ?_⟩
      · simp [SparseControl.initChildData] at set
      · rw [SparseControl.initChildData, sound.header.2.2]
        omega
      · rw [SparseControl.initChildData] at last ⊢
        rw [sound.header.2.1] at last
        rw [sound.header.2.2]
        omega
    · refine .inl ?_
      have still : (control.initChildData index).child ≠ some i :=
        fun same => here (some.inj same).symm
      have present : (control.initChildData index).childPresent i = control.childPresent i :=
        (setChildBit_present _ index i true).trans (if_neg here)
      have same : (control.initChildData index).stored i = control.stored i :=
        stored_congr (if_neg here) present rfl (by rw [closed]; simp) still
      exact same.symm.trans there
  refine ⟨sound.header, fun {i data size} there => (stored i data size there).elim sound.recorded id,
    fun {i} child => ?_⟩
  cases child
  exact ⟨(setChildBit_present _ index index true).trans (if_pos rfl), rfl, sound.header.1, _,
    if_pos rfl, rfl, rfl⟩

section

variable (sound : closed.Sound) (child : closed.child = none)
  (stored : ∀ i, closed.stored i = control.stored i) (nothing : control.stored index = none)
  (operation : SparseOperation)
include sound child stored nothing operation

theorem continueWithoutChild_opening (created : Bool) :
    Opening control index operation (closed.continueWithoutChild index operation created) := by
  cases operation with
  | readOperation => exact .stopped sound stored nothing rfl
  | getRangeOperation => exact .skipped sound child stored nothing rfl
  | writeOperation =>
    rw [SparseControl.continueWithoutChild]
    split
    · exact .made (initChildData_sound sound index child) rfl rfl
    · exact .failed sound stored nothing

theorem killChildAndContinue_opening (created fatal : Bool) : Opening control index operation
      (closed.killChildAndContinue index operation created fatal) := by
  rw [SparseControl.killChildAndContinue]
  generalize killed_eq : ({ (closed.setEntry index none).setChildBit index false with
    child := none } : SparseControl) = killed
  have header : killed.sparseHeader = closed.sparseHeader := by
    rw [← killed_eq]
    rfl
  have killed_child : killed.child = none := by
    rw [← killed_eq]
  have killed_stored : ∀ i, killed.stored i = control.stored i := by
    intro i
    by_cases here : i = index
    · subst here
      rw [nothing, ← killed_eq, SparseControl.stored]
      simp only [SparseControl.setChildBit, SparseControl.setEntry, if_true]
    · rw [← stored i]
      refine stored_congr ?_ ?_ header (by rw [child]; simp) (by rw [killed_child]; simp)
      · rw [← killed_eq]
        exact if_neg here
      · rw [← killed_eq]
        exact (setChildBit_present _ index i false).trans (if_neg here)
  have killed_sound : killed.Sound := sound.of_closed header killed_child
    fun i data size there => .inl (by rw [stored i, ← killed_stored i]; exact there)
  split
  · exact .failed killed_sound killed_stored nothing
  · exact continueWithoutChild_opening killed_sound killed_child killed_stored nothing operation created

end

theorem checked_header (data : SparseData) : data.checked.header.signature = data.header.signature ∧
      data.checked.header.magic = data.header.magic := by
  rw [SparseData.checked]
  split <;> exact ⟨rfl, rfl⟩

theorem openChild_found (sound : control.Sound) (closed_sound : closed.Sound) (child : closed.child = none)
    (stored : ∀ i, closed.stored i = control.stored i) {operation : SparseOperation}
    {entry : ChildEntry} (present : closed.childPresent index = true)
    (there : closed.entries index = some entry) (flag : entry.childFlag = true)
    (readable : entry.readable = true) (signature : data.header.signature = closed.sparseHeader.signature)
    (magic : data.header.magic = kIndexMagic)
    (recorded : control.stored index = some (data.checked, entry.dataSize)) : Opening control index operation
      ({ closed with child := some index, childData := data.checked }, .opened) := by
  generalize after_eq : ({ closed with child := some index, childData := data.checked } : SparseControl) = after
  have after_stored : ∀ i, after.stored i = control.stored i := by
    intro i
    by_cases here : i = index
    · subst here
      rw [recorded, ← after_eq]
      exact stored_open there rfl
    · rw [← stored i, ← after_eq]
      have still : some index ≠ some i := fun same => here (some.inj same).symm
      exact stored_congr rfl rfl rfl (by rw [child]; simp) still
  refine .found ⟨?_, fun {i data size} same => ?_, fun {i} same => ?_⟩ (by rw [← after_eq]) after_stored
  · rw [← after_eq]
    exact closed_sound.header
  · rw [after_stored] at same
    exact sound.recorded same
  · rw [← after_eq] at same ⊢
    cases same
    exact ⟨present, (checked_header data).1.trans signature, (checked_header data).2.trans magic,
      entry, there, flag, readable⟩

theorem openChild_opening (sound : control.Sound) (index : Nat) (operation : SparseOperation)
    (created : Bool) : Opening control index operation (control.openChild index operation created) := by
  rw [SparseControl.openChild]
  by_cases same : control.child = some index
  · rw [if_pos same]
    exact .found sound same fun _ => rfl
  rw [if_neg same]
  have closed_sound := sound.close
  have closed_child := closeChild_child control
  have closed_stored := closeChild_stored sound
  generalize control.closeChild = closed at closed_sound closed_child closed_stored
  have without := fun nothing : control.stored index = none =>
    continueWithoutChild_opening closed_sound closed_child closed_stored nothing operation created
  have kill := fun nothing : control.stored index = none =>
    killChildAndContinue_opening closed_sound closed_child closed_stored nothing operation created
  simp only
  by_cases present : closed.childPresent index = true
  · rw [present]
    simp only [Bool.not_true, Bool.false_eq_true, if_false]
    have stored := closed_stored index
    rw [SparseControl.stored, closed_child, present] at stored
    cases there : closed.entries index with
    | none =>
      rw [there] at stored
      exact without stored.symm
    | some entry =>
      rw [there] at stored
      simp only [reduceCtorEq, if_false, Bool.true_and] at stored ⊢
      cases read : entry.sparseIndex with
      | none =>
        rw [read] at stored
        exact kill (by rw [← stored]; simp) false
      | some data =>
        rw [ChildEntry.usable, read] at stored
        simp only
        cases flag : entry.childFlag with
        | false =>
          rw [flag] at stored
          exact kill stored.symm false
        | true =>
          cases readable : entry.readable with
          | false =>
            rw [flag, readable] at stored
            exact kill stored.symm true
          | true =>
            rw [flag, readable] at stored
            simp only [Bool.not_true, Bool.false_eq_true, if_false, Bool.and_self, Bool.true_and,
              any_some, decide_eq_true_eq, map_some] at stored ⊢
            by_cases signed : data.header.signature = closed.sparseHeader.signature ∧
                data.header.magic = kIndexMagic
            · rw [if_pos signed] at stored
              rw [if_neg (by simpa using signed)]
              exact openChild_found sound closed_sound closed_child closed_stored present there flag
                readable signed.1 signed.2 stored.symm
            · rw [if_neg signed] at stored
              rw [if_pos (by by_contra both; exact signed (by simpa using both))]
              exact kill stored.symm false
  · rw [Bool.not_eq_true] at present
    rw [present]
    simp only [Bool.not_false, if_true]
    refine without ?_
    rw [← closed_stored index, SparseControl.stored, closed_child, present]
    cases closed.entries index with
    | none => rfl
    | some entry => rfl

end Stored

section Query

def SparseControl.blockPresent (control : SparseControl) (byte : Int) : Bool :=
  (control.stored (byte / kMaxEntrySize).toNat).any fun stored =>
    stored.1.bitmap.getLsbD (byte % kMaxEntrySize / kBlockSize).toNat

structure ReadableAt (control : SparseControl) (offset len : Int) : Prop where
  some_bytes : 0 < len
  inside : offset % kMaxEntrySize + len ≤ kMaxEntrySize
  stored : ∃ data size run, control.stored (offset / kMaxEntrySize).toNat = some (data, size) ∧
    Readable data size (offset % kMaxEntrySize) len run

variable {after : SparseControl} {io : SparseIo}

theorem ReadableAt.congr {offset len : Int}
    (readable : ReadableAt control offset len) (stored : ∀ i, after.stored i = control.stored i) :
    ReadableAt after offset len :=
  ⟨readable.some_bytes, readable.inside, by rw [stored]; exact readable.stored⟩

variable {backend : ChildBackend}

theorem entryLen_open (sound : control.Sound) (child : control.child = some index) :
    control.stored index = some (control.childData, control.entryLen) := by
  obtain ⟨-, -, -, entry, there, -, -⟩ := sound.opened child
  rw [stored_open there child, SparseControl.entryLen, child]
  simp only [there, map_some, getD_some]

structure Querying (control : SparseControl) (io : SparseIo) : Prop where
  sound : io.control.Sound
  stored : ∀ i, io.control.stored i = control.stored i
  operation : io.operation = .getRangeOperation
  not_found : io.rangeFound = false
  offset : 0 ≤ io.offset
  bufLen : 0 ≤ io.bufLen
  result : 0 ≤ io.result

inductive QueryPass (control : SparseControl) (io : SparseIo) : SparseIo × Bool → Prop
  | ended : io.bufLen = 0 → QueryPass control io (io, false)
  | failed {after : SparseIo} : after.control.Sound → after.rangeFound = false → after.result < 0 →
      QueryPass control io (after, false)
  | moved {after : SparseIo} (len : Int) : Querying control after → 0 < len →
      after.offset = io.offset + len → after.bufLen = io.bufLen - len →
      (∀ byte, io.offset ≤ byte → byte < io.offset + len → control.blockPresent byte = false) →
      QueryPass control io (after, true)
  | found {after : SparseIo} : after.control.Sound →
      (∀ i, after.control.stored i = control.stored i) → after.rangeFound = true →
      io.offset ≤ after.offset → after.offset + after.result ≤ io.offset + io.bufLen →
      ReadableAt control after.offset after.result → QueryPass control io (after, false)

theorem QueryPass.move (querying : Querying control io)
    (after : SparseControl) (sound : after.Sound) (stored : ∀ i, after.stored i = control.stored i)
    (some_left : io.bufLen ≠ 0)
    (clear : ∀ byte, io.offset ≤ byte → byte < io.offset + min io.bufLen (kMaxEntrySize - io.childOffset) →
        control.blockPresent byte = false) :
    QueryPass control io (({ io with control := after } : SparseIo).doChildIoCompleted
      (min io.bufLen (kMaxEntrySize - io.childOffset)), true) := by
  have size : kMaxEntrySize = 1048576 := rfl
  have from_zero := querying.offset
  have left := querying.bufLen
  have result := querying.result
  have positive : 0 < min io.bufLen (kMaxEntrySize - io.childOffset) := by
    rw [SparseIo.childOffset, size]
    omega
  have most : min io.bufLen (kMaxEntrySize - io.childOffset) ≤ io.bufLen := by omega
  generalize min io.bufLen (kMaxEntrySize - io.childOffset) = childLen at positive clear most
  rw [SparseIo.doChildIoCompleted, if_neg (by omega), querying.operation]
  refine .moved childLen ⟨?_, ?_, rfl, querying.not_found, ?_, ?_, ?_⟩ positive rfl rfl clear
  · simpa using sound
  · simpa using stored
  · simp only
    omega
  · simp only
    omega
  · simp only
    omega

theorem child_bytes {offset byte len : Int} (above : offset ≤ byte)
    (below : byte < offset + min len (kMaxEntrySize - offset % kMaxEntrySize)) :
    byte / kMaxEntrySize = offset / kMaxEntrySize ∧
      byte % kMaxEntrySize = offset % kMaxEntrySize + (byte - offset) := by
  have size : kMaxEntrySize = 1048576 := rfl
  simp only [size] at below ⊢
  omega

theorem doChildIo_range (going : ¬ (io.bufLen = 0 ∨ io.result < 0))
    (operation : io.operation = .getRangeOperation)
    (opened : io.control.openChild io.childBit .getRangeOperation (backend.created io.childBit) =
      (after, .opened)) :
    io.doChildIo backend =
      if (SparseIo.doGetAvailableRange { io with control := after }
          (min io.bufLen (kMaxEntrySize - io.childOffset))).2 = 0 then
        ((SparseIo.doGetAvailableRange { io with control := after }
          (min io.bufLen (kMaxEntrySize - io.childOffset))).1, false)
      else
        ((SparseIo.doGetAvailableRange { io with control := after }
            (min io.bufLen (kMaxEntrySize - io.childOffset))).1.doChildIoCompleted
          (SparseIo.doGetAvailableRange { io with control := after }
            (min io.bufLen (kMaxEntrySize - io.childOffset))).2, true) := by
  obtain ⟨held, _, offset, bufLen, result, rangeFound⟩ := io
  subst operation
  rw [SparseIo.doChildIo, if_neg going]
  simp only [opened]
  rfl

theorem doGetAvailableRange_eq (child : after.child ≠ none)
    (childLen : Int) : SparseIo.doGetAvailableRange { io with control := after } childLen =
      match availableInChild after.childData after.entryLen io.childOffset childLen with
      | none => ({ io with control := after }, childLen)
      | some (emptyStart, result) =>
        (⟨after, io.operation, io.offset + emptyStart, 0, result, true⟩, 0) := by
  rw [SparseIo.doGetAvailableRange, if_neg child]
  rfl

variable (backend) in
theorem doChildIo_query (querying : Querying control io) : QueryPass control io (io.doChildIo backend) := by
  have size : kMaxEntrySize = 1048576 := rfl
  have block : kBlockSize = 1024 := rfl
  have from_zero := querying.offset
  have left := querying.bufLen
  by_cases ended : io.bufLen = 0
  · rw [SparseIo.doChildIo, if_pos (.inl ended)]
    exact .ended ended
  have going : ¬ (io.bufLen = 0 ∨ io.result < 0) := by
    have result := querying.result
    omega
  have positive : 0 < min io.bufLen (kMaxEntrySize - io.childOffset) := by
    rw [SparseIo.childOffset, size]
    omega
  have move := QueryPass.move querying
  have opening := openChild_opening querying.sound io.childBit .getRangeOperation (backend.created io.childBit)
  generalize opened : io.control.openChild io.childBit .getRangeOperation
    (backend.created io.childBit) = outcome at opening
  cases opening with
  | made _ _ write => cases write
  | stopped _ _ _ read => cases read
  | @failed after sound stored nothing =>
    rw [SparseIo.doChildIo, if_neg going, querying.operation, opened]
    exact .failed sound querying.not_found (Int.negSucc_lt_zero _)
  | @skipped after sound child stored nothing _ =>
    have ranged : SparseIo.doGetAvailableRange { io with control := after }
        (min io.bufLen (kMaxEntrySize - io.childOffset)) =
          ({ io with control := after }, min io.bufLen (kMaxEntrySize - io.childOffset)) := by
      rw [SparseIo.doGetAvailableRange, if_pos child]
    rw [doChildIo_range going querying.operation opened, ranged, if_neg (by simp only; omega)]
    refine move after sound (fun i => (stored i).trans (querying.stored i)) ended fun byte above below => ?_
    have none : io.control.stored (io.offset / kMaxEntrySize).toNat = none := nothing
    rw [SparseControl.blockPresent, (child_bytes above below).1, ← querying.stored, none]
    rfl
  | @found after sound child stored =>
    have same : ∀ i, after.stored i = control.stored i := fun i =>
      (stored i).trans (querying.stored i)
    have here := entryLen_open sound child
    have recorded := sound.recorded here
    rw [same, SparseIo.childBit] at here
    rw [doChildIo_range going querying.operation opened, doGetAvailableRange_eq (by rw [child]; simp)]
    have offset_zero : 0 ≤ io.childOffset := by
      rw [SparseIo.childOffset, size]
      omega
    rcases availableInChild_spec recorded offset_zero positive with
      ⟨nothing, clear⟩ | ⟨emptyStart, result, run, something, start, some_bytes, inside, readable⟩
    · rw [nothing, if_neg (by simp only; omega)]
      refine move after sound same ended fun byte above below => ?_
      obtain ⟨same_child, in_child⟩ := child_bytes above below
      rw [SparseControl.blockPresent, same_child, here, any_some]
      by_contra set
      rw [Bool.not_eq_false] at set
      have before := clear _ set
      rw [in_child, block] at before
      simp only [SparseIo.childOffset, size] at before below
      omega
    · rw [something, if_pos rfl]
      simp only [SparseIo.childOffset, size] at inside readable
      have whole : io.offset % 1048576 + emptyStart < 1048576 := by omega
      refine .found sound same rfl (by simp only; omega) (by simp only; omega)
        ⟨some_bytes, ?_, after.childData, after.entryLen, run, ?_, ?_⟩
      · simp only [size]
        omega
      · simp only [size] at here ⊢
        have child_same : (io.offset + emptyStart) / 1048576 = io.offset / 1048576 := by omega
        rw [child_same]
        exact here
      · simp only [size]
        have offset_same : (io.offset + emptyStart) % 1048576 = io.offset % 1048576 + emptyStart := by
          omega
        rw [offset_same]
        exact readable

structure Queried (control : SparseControl) (offset bufLen : Int) (after : SparseIo) : Prop where
  sound : after.control.Sound
  found : after.rangeFound = true → offset ≤ after.offset ∧
    after.offset + after.result ≤ offset + bufLen ∧ ReadableAt control after.offset after.result ∧
      ReadableAt after.control after.offset after.result
  nothing : after.rangeFound = false → after.result < 0 ∨
    ∀ byte, offset ≤ byte → byte < offset + bufLen → control.blockPresent byte = false

variable (backend) in
theorem doChildrenIo_query (passes : Nat) (querying : Querying control io) (enough : io.bufLen < passes) :
    Queried control io.offset io.bufLen (io.doChildrenIo backend passes) := by
  induction passes generalizing io with
  | zero =>
    have left := querying.bufLen
    omega
  | succ passes ih =>
    have pass := doChildIo_query backend querying
    rw [SparseIo.doChildrenIo]
    generalize io.doChildIo backend = outcome at pass
    cases pass with
    | ended empty =>
      refine ⟨querying.sound, fun found => ?_, fun _ => .inr fun byte above below => by omega⟩
      rw [querying.not_found] at found
      cases found
    | failed sound not_found error =>
      exact ⟨sound, fun found => absurd found (by rw [not_found]; simp), fun _ => .inl error⟩
    | @moved after len next positive offset bufLen clear =>
      have rest := ih next (by omega)
      rw [offset, bufLen] at rest
      change Queried control io.offset io.bufLen (SparseIo.doChildrenIo backend passes after)
      refine ⟨rest.sound, fun found => ?_, fun not_found => ?_⟩
      · obtain ⟨later, inside, readable⟩ := rest.found found
        exact ⟨by omega, by omega, readable⟩
      · refine (rest.nothing not_found).imp id fun others byte above below => ?_
        by_cases early : byte < io.offset + len
        · exact clear byte above early
        · exact others byte (by omega) (by omega)
    | found sound stored found later inside readable =>
      exact ⟨sound, fun _ => ⟨later, inside, readable, readable.congr stored⟩, fun not_found =>
        absurd found (by rw [not_found]; simp)⟩

theorem doChildIo_read (going : ¬ (io.bufLen = 0 ∨ io.result < 0)) (operation : io.operation = .readOperation)
    (opened : io.control.openChild io.childBit .readOperation (backend.created io.childBit) =
      (after, .opened)) {childLen bufLen : Int}
    (verified : verifyRange after.childData after.entryLen .readOperation io.childOffset io.bufLen =
      some (childLen, bufLen)) :
    io.doChildIo backend = if readChild after.entryLen io.childOffset childLen = 0 then
        ({ io with control := after, bufLen := bufLen }, false)
      else
        (SparseIo.doChildIoCompleted { io with control := after, bufLen := bufLen }
          (readChild after.entryLen io.childOffset childLen), true) := by
  obtain ⟨held, _, offset, wanted, result, rangeFound⟩ := io
  subst operation
  rw [SparseIo.doChildIo, if_neg going]
  simp only [opened]
  have same : verifyRange after.childData after.entryLen .readOperation
      (SparseIo.childOffset ⟨after, .readOperation, offset, wanted, result, rangeFound⟩) wanted =
        some (childLen, bufLen) := verified
  rw [same]
  rfl

theorem transfer_readable (sound : control.Sound) {offset len : Int}
    (readable : ReadableAt control offset len) (from_zero : 0 ≤ offset)
    (small : offset + len < 0x1000000000) : (control.transfer backend .readOperation offset len).2 = len := by
  obtain ⟨some_bytes, inside, data, size, run, stored, readable⟩ := readable
  have size_eq : kMaxEntrySize = 1048576 := rfl
  generalize io_eq : (⟨control, .readOperation, offset, len, 0, false⟩ : SparseIo) = io
  have opening := openChild_opening sound io.childBit .readOperation (backend.created io.childBit)
  generalize opened : control.openChild io.childBit .readOperation (backend.created io.childBit) =
    outcome at opening
  have stored_here : control.stored io.childBit = some (data, size) := by
    rw [← io_eq]
    exact stored
  have pass : ∃ after : SparseControl, io.doChildIo backend =
      (⟨after, .readOperation, offset + len, 0, len, false⟩, true) := by
    cases opening with
    | made _ _ write => cases write
    | skipped _ _ _ _ range => cases range
    | stopped _ _ nothing _ =>
      rw [stored_here] at nothing
      cases nothing
    | failed _ _ nothing =>
      rw [stored_here] at nothing
      cases nothing
    | @found after after_sound child same =>
      have here := entryLen_open after_sound child
      rw [same, stored_here] at here
      obtain ⟨rfl, rfl⟩ := Prod.mk.inj (some.inj here)
      have recorded := sound.recorded stored
      have offset_zero : 0 ≤ offset % kMaxEntrySize := by
        rw [size_eq]
        omega
      obtain ⟨verified, read⟩ := readable.reads recorded offset_zero some_bytes inside
      refine ⟨after, ?_⟩
      rw [← io_eq] at opened ⊢
      rw [doChildIo_read (by simp only; omega) rfl opened verified]
      simp only [SparseIo.childOffset, read]
      rw [if_neg (by omega), SparseIo.doChildIoCompleted, if_neg (by omega)]
      simp
  obtain ⟨after, pass⟩ := pass
  obtain ⟨passes, passes_eq⟩ : ∃ passes, len.toNat = passes + 1 := ⟨len.toNat - 1, by omega⟩
  rw [SparseControl.transfer, SparseControl.startIo, if_neg (by omega), if_neg (by omega), io_eq,
    passes_eq, SparseIo.doChildrenIo, pass]
  simp only [SparseIo.doChildrenIo, SparseIo.doChildIo, true_or, if_true]

end Query

section Runs

theorem SparseData.Recorded.grow {larger : Nat}
    (recorded : data.Recorded size) (grown : size ≤ larger) : data.Recorded larger :=
  ⟨fun b set => (recorded.bits b set).trans grown, recorded.lenRange, fun b last =>
    (recorded.last b last).trans (Int.ofNat_le.mpr grown)⟩

theorem updateRange_recorded (recorded : data.Recorded size)
    {childOffset result : Int} (inside : childOffset + result ≤ kMaxEntrySize)
    (written : childOffset + result ≤ size) : (updateRange data childOffset result).Recorded size := by
  have size_eq : kMaxEntrySize = 1048576 := rfl
  have block : kBlockSize = 1024 := rfl
  have bits : kNumSparseBits = 1024 := rfl
  rw [updateRange]
  simp only [block]
  generalize (if childOffset % 1024 ≠ 0 ∧ (data.header.lastBlock ≠ childOffset / 1024 ∨
    data.header.lastBlockLen < childOffset % 1024) then childOffset / 1024 + 1
      else childOffset / 1024) = firstBit
  split
  · exact recorded
  · refine ⟨fun b set => ?_, ?_, fun b last => ?_⟩
    · rw [setRange_bit _ _ _ _ (by omega)] at set
      rcases Bool.or_eq_true_iff.mp set with old | new
      · exact recorded.bits b old
      · have range := of_decide_eq_true new
        omega
    · have range := recorded.lenRange
      simp only
      split
      · simp only
        omega
      · exact range
    · simp only at last ⊢
      split at last
      · rename_i cut
        rw [if_pos cut]
        simp only at last ⊢
        omega
      · simp only at last
        omega

theorem updateRange_header (data : SparseData) (childOffset result : Int) :
    (updateRange data childOffset result).header.signature = data.header.signature ∧
      (updateRange data childOffset result).header.magic = data.header.magic := by
  rw [updateRange]
  generalize (if childOffset % kBlockSize ≠ 0 ∧ (data.header.lastBlock ≠ childOffset / 1024 ∨
    data.header.lastBlockLen < childOffset % kBlockSize) then childOffset / 1024 + 1
      else childOffset / 1024) = firstBit
  simp only
  split
  · exact ⟨rfl, rfl⟩
  · simp only
    split <;> exact ⟨rfl, rfl⟩

theorem SparseControl.Sound.setData (sound : control.Sound)
    (signature : data.header.signature = control.childData.header.signature)
    (magic : data.header.magic = control.childData.header.magic)
    (recorded : control.child ≠ none → data.Recorded control.entryLen) :
    ({ control with childData := data } : SparseControl).Sound := by
  refine ⟨sound.header, fun {index held size} there => ?_, fun {index} child => ?_⟩
  · by_cases child : control.child = some index
    · have here := entryLen_open sound child
      obtain ⟨-, -, -, entry, entries, -, -⟩ := sound.opened child
      rw [stored_open entries child] at here
      have same : SparseControl.stored { control with childData := data } index =
          some (data, entry.dataSize) := stored_open entries child
      rw [same] at there
      obtain ⟨rfl, rfl⟩ := Prod.mk.inj (some.inj there)
      rw [(Prod.mk.inj (some.inj here)).2]
      exact recorded (by rw [child]; simp)
    · have same : SparseControl.stored { control with childData := data } index =
          control.stored index := stored_congr rfl rfl rfl child child
      rw [same] at there
      exact sound.recorded there
  · obtain ⟨present, old_signature, old_magic, there⟩ := sound.opened child
    exact ⟨present, signature.trans old_signature, magic.trans old_magic, there⟩

variable {io : SparseIo}

theorem writeChild_sound (sound : control.Sound) (child : control.child = some index)
    (write : ChildWrite) (offset len : Int) : (control.writeChild write offset len).1.Sound ∧
      (control.writeChild write offset len).1.child = some index ∧
      ((control.writeChild write offset len).2 < 0 ∨ (control.writeChild write offset len).2 = len ∧
        offset + len ≤ (control.writeChild write offset len).1.entryLen) := by
  obtain ⟨present, signature, magic, entry, there, flag, readable⟩ := sound.opened child
  have recorded := sound.recorded (stored_open there child)
  unfold SparseControl.writeChild
  simp only [child, there, map_some]
  generalize grown_eq : control.setEntry index (some { entry with
    dataSize := max entry.dataSize (offset + len).toNat }) = grown
  have grown_there : grown.entries index =
      some { entry with dataSize := max entry.dataSize (offset + len).toNat } := by
    rw [← grown_eq]
    exact if_pos rfl
  have grown_child : grown.child = some index := by
    rw [← grown_eq]
    exact child
  have data : grown.childData = control.childData := by
    rw [← grown_eq]
    rfl
  have header : grown.sparseHeader = control.sparseHeader := by
    rw [← grown_eq]
    rfl
  have grown_present : ∀ i, grown.childPresent i = control.childPresent i := by
    rw [← grown_eq]
    exact fun i => rfl
  have grown_sound : grown.Sound := by
    refine ⟨by rw [header]; exact sound.header, fun {i held size} stored => ?_, fun {i} same => ?_⟩
    · by_cases here : i = index
      · subst here
        rw [stored_open grown_there grown_child, data] at stored
        obtain ⟨rfl, rfl⟩ := Prod.mk.inj (some.inj stored)
        exact recorded.grow (Nat.le_max_left _ _)
      · have still : some index ≠ some i := fun same => here (some.inj same).symm
        have same : grown.stored i = control.stored i :=
          stored_congr (by rw [← grown_eq]; exact if_neg here) (grown_present i) header
            (by rw [child]; exact still) (by rw [grown_child]; exact still)
        rw [same] at stored
        exact sound.recorded stored
    · rw [grown_child] at same
      cases same
      rw [grown_present, data, header]
      exact ⟨present, signature, magic, _, grown_there, flag, readable⟩
  have grown_len : grown.entryLen = max entry.dataSize (offset + len).toNat := by
    rw [SparseControl.entryLen, grown_child]
    simp only [grown_there, map_some, getD_some]
  cases write with
  | done =>
    refine ⟨grown_sound, grown_child, .inr ⟨rfl, ?_⟩⟩
    simp only
    rw [grown_len]
    omega
  | refused => exact ⟨sound, child, .inl (Int.negSucc_lt_zero _)⟩
  | failed => exact ⟨grown_sound, grown_child, .inl (Int.negSucc_lt_zero _)⟩

theorem Opening.sound {operation : SparseOperation}
    {outcome : SparseControl × ChildOpened} (opening : Opening control index operation outcome) :
    outcome.1.Sound ∧ (operation = .writeOperation → outcome.2 = .opened → outcome.1.child = some index) := by
  cases opening with
  | found sound child => exact ⟨sound, fun _ _ => child⟩
  | made sound child => exact ⟨sound, fun _ _ => child⟩
  | skipped sound _ _ _ range => exact ⟨sound, fun write => by rw [range] at write; cases write⟩
  | stopped sound _ _ read => exact ⟨sound, fun write => by rw [read] at write; cases write⟩
  | failed sound => exact ⟨sound, fun _ opened => by cases opened⟩

theorem doChildIoCompleted_sound (sound : io.control.Sound) {result : Int}
    (written : 0 < result → io.operation = .writeOperation → io.control.child ≠ none →
      io.childOffset + result ≤ io.control.entryLen ∧ io.childOffset + result ≤ kMaxEntrySize) :
    (io.doChildIoCompleted result).control.Sound := by
  rw [SparseIo.doChildIoCompleted]
  split
  · exact sound
  · simp only
    split
    · exact sound
    · rename_i write
      rw [not_or, not_not] at write
      obtain ⟨signature, magic⟩ := updateRange_header io.control.childData io.childOffset result
      refine sound.setData signature magic fun child => ?_
      obtain ⟨index, some_child⟩ := ne_none_iff_exists'.mp child
      obtain ⟨stored, inside⟩ := written (by omega) write.2 child
      exact updateRange_recorded (sound.recorded (entryLen_open sound some_child)) inside stored

theorem doGetAvailableRange_control (io : SparseIo) (childLen : Int) :
    (io.doGetAvailableRange childLen).1.control = io.control ∧
      (io.doGetAvailableRange childLen).1.operation = io.operation := by
  rw [SparseIo.doGetAvailableRange]
  split
  · exact ⟨rfl, rfl⟩
  · split <;> exact ⟨rfl, rfl⟩

variable {backend : ChildBackend}
variable (backend) in
theorem doChildIo_sound (sound : io.control.Sound) : (io.doChildIo backend).1.control.Sound := by
  obtain ⟨held, operation, offset, bufLen, result, rangeFound⟩ := io
  simp only at sound
  rw [SparseIo.doChildIo]
  split
  · exact sound
  · simp only
    have opening := (openChild_opening sound
      (SparseIo.childBit ⟨held, operation, offset, bufLen, result, rangeFound⟩) operation
      (backend.created (SparseIo.childBit ⟨held, operation, offset, bufLen, result, rangeFound⟩))).sound
    generalize SparseControl.openChild held
      (SparseIo.childBit ⟨held, operation, offset, bufLen, result, rangeFound⟩) operation
      (backend.created (SparseIo.childBit ⟨held, operation, offset, bufLen, result, rangeFound⟩)) =
        outcome at opening
    obtain ⟨after, ending⟩ := outcome
    obtain ⟨after_sound, after_child⟩ := opening
    cases ending with
    | stopped => exact after_sound
    | failed => exact after_sound
    | opened =>
      simp only
      split
      · exact after_sound
      · rename_i childLen left verified
        cases operation with
        | readOperation =>
          simp only
          split
          · exact after_sound
          · exact doChildIoCompleted_sound after_sound fun _ write => by cases write
        | getRangeOperation =>
          simp only
          split
          · rw [(doGetAvailableRange_control _ _).1]
            exact after_sound
          · refine doChildIoCompleted_sound ?_ fun _ write => ?_
            · rw [(doGetAvailableRange_control _ _).1]
              exact after_sound
            · rw [(doGetAvailableRange_control _ _).2] at write
              cases write
        | writeOperation =>
          have child := after_child rfl rfl
          have written := writeChild_sound after_sound child
            (backend.written (SparseIo.childBit ⟨after, .writeOperation, offset, left, result, rangeFound⟩))
            (SparseIo.childOffset ⟨after, .writeOperation, offset, left, result, rangeFound⟩) childLen
          have inside : offset % kMaxEntrySize + childLen ≤ kMaxEntrySize := by
            have chosen : childLen = min bufLen (kMaxEntrySize - offset % kMaxEntrySize) :=
              (congrArg Prod.fst (some.inj verified)).symm
            omega
          simp only
          generalize after.writeChild
            (backend.written (SparseIo.childBit ⟨after, .writeOperation, offset, left, result, rangeFound⟩))
            (SparseIo.childOffset ⟨after, .writeOperation, offset, left, result, rangeFound⟩) childLen =
              outcome at written
          obtain ⟨grown, count⟩ := outcome
          obtain ⟨grown_sound, -, bytes⟩ := written
          simp only at bytes ⊢
          split
          · exact grown_sound
          · refine doChildIoCompleted_sound grown_sound fun positive _ _ => ?_
            rcases bytes with error | ⟨rfl, stored⟩
            · omega
            · exact ⟨stored, inside⟩

theorem doChildrenIo_sound {passes : Nat} (sound : io.control.Sound) :
    (io.doChildrenIo backend passes).control.Sound := by
  induction passes generalizing io with
  | zero => exact sound
  | succ passes ih =>
    have pass := doChildIo_sound backend sound
    rw [SparseIo.doChildrenIo]
    generalize io.doChildIo backend = outcome at pass
    obtain ⟨after, more⟩ := outcome
    cases more with
    | false => exact pass
    | true => exact ih pass

variable (backend) in
theorem transfer_sound (sound : control.Sound) (operation : SparseOperation) (offset bufLen : Int) :
    (control.transfer backend operation offset bufLen).1.Sound := by
  rw [SparseControl.transfer, SparseControl.startIo]
  split
  · rename_i failed
    exact sound
  · rename_i io started
    split at started
    · cases started
    · split at started
      · cases started
      · cases started
        exact doChildrenIo_sound sound

theorem getAvailableRange_sound (sound : control.Sound) (offset len : Int) :
    (control.getAvailableRange backend offset len).1.Sound := by
  have transferred := transfer_sound backend sound .getRangeOperation offset len
  rw [SparseControl.transfer] at transferred
  rw [SparseControl.getAvailableRange]
  cases started : control.startIo backend .getRangeOperation offset len with
  | error error => exact sound
  | ok io =>
    rw [started] at transferred
    simp only
    split <;> exact transferred

theorem createSparseEntry_sound (signature : Int) (entries : Nat → Option ChildEntry) :
    (SparseControl.createSparseEntry signature entries).Sound := by
  have nothing : ∀ index, (SparseControl.createSparseEntry signature entries).stored index = none := by
    intro index
    have absent : (SparseControl.createSparseEntry signature entries).childPresent index = false := by
      rw [SparseControl.childPresent, SparseControl.createSparseEntry, List.getD_eq_getElem?_getD,
        List.getElem?_replicate]
      split <;> rfl
    rw [SparseControl.stored, absent]
    cases (SparseControl.createSparseEntry signature entries).entries index <;> rfl
  refine ⟨⟨rfl, rfl, rfl⟩, fun {index data size} there => ?_, fun child => by cases child⟩
  rw [nothing] at there
  cases there

theorem setEntry_sound (sound : control.Sound) {entry : Option ChildEntry} (closed : control.child ≠ some index)
    (other : ∀ held ∈ entry, held.usable control.sparseHeader.signature = false) :
    (control.setEntry index entry).Sound := by
  refine ⟨sound.header, fun {i data size} there => ?_, fun {i} child => ?_⟩
  · by_cases here : i = index
    · subst here
      have same : (control.setEntry i entry).entries i = entry := if_pos rfl
      rw [SparseControl.stored, same] at there
      cases entry with
      | none => cases there
      | some held =>
        have still : (control.setEntry i (some held)).child ≠ some i := closed
        have unusable : held.usable (control.setEntry i (some held)).sparseHeader.signature = false :=
          other held rfl
        simp only at there
        rw [if_neg still, unusable, Bool.and_false] at there
        cases there
    · by_cases child : control.child = some i
      · obtain ⟨-, -, -, held, entries, -, -⟩ := sound.opened child
        have kept : (control.setEntry index entry).entries i = some held :=
          (if_neg here).trans entries
        exact sound.recorded ((stored_open entries child).trans ((stored_open kept child).symm.trans there))
      · have kept : (control.setEntry index entry).entries i = control.entries i := if_neg here
        have same : (control.setEntry index entry).stored i = control.stored i :=
          stored_congr kept rfl rfl child child
        exact sound.recorded (same.symm.trans there)
  · obtain ⟨present, signature, magic, held, entries, kept⟩ := sound.opened child
    refine ⟨present, signature, magic, held, ?_, kept⟩
    have away : i ≠ index := by
      rintro rfl
      exact closed child
    exact (if_neg away).trans entries

/-- The states of a sparse entry, from its creation on. Where the entry is closed and opened again,
its bitmap is read back, and a child that is not open can be lost to the cache. -/
inductive SparseControl.Reachable : SparseControl → Prop
  | created (signature : Int) (entries : Nat → Option ChildEntry) :
      Reachable (.createSparseEntry signature entries)
  | transferred {control : SparseControl} (backend : ChildBackend) (operation : SparseOperation)
      (offset bufLen : Int) : Reachable control →
      Reachable (control.transfer backend operation offset bufLen).1
  | queried {control : SparseControl} (backend : ChildBackend) (offset len : Int) :
      Reachable control → Reachable (control.getAvailableRange backend offset len).1
  | reopened {control : SparseControl} : Reachable control → Reachable control.closeChild
  | replaced {control : SparseControl} (index : Nat) (entry : Option ChildEntry) :
      Reachable control → control.child ≠ some index →
      (∀ held ∈ entry, held.usable control.sparseHeader.signature = false) →
      Reachable (control.setEntry index entry)

theorem SparseControl.Reachable.sound (reachable : control.Reachable) : control.Sound := by
  induction reachable with
  | created signature entries => exact createSparseEntry_sound signature entries
  | transferred backend operation offset bufLen _ sound =>
    exact transfer_sound _ sound operation offset bufLen
  | queried backend offset len _ sound => exact getAvailableRange_sound sound offset len
  | reopened _ sound => exact sound.close
  | replaced index entry _ closed other sound => exact setEntry_sound sound closed other

/-- A range that is reported can be read, before and behind the query; where none is reported, no
block of the queried range is recorded as present. -/
theorem available_range_reads (reachable : control.Reachable) (backend reads : ChildBackend)
    (offset len : Int) : (0 < (control.getAvailableRange backend offset len).2.1 →
        offset ≤ (control.getAvailableRange backend offset len).2.2 ∧
        (control.getAvailableRange backend offset len).2.2 +
          (control.getAvailableRange backend offset len).2.1 ≤ offset + len ∧
        (control.transfer reads .readOperation (control.getAvailableRange backend offset len).2.2
          (control.getAvailableRange backend offset len).2.1).2 =
            (control.getAvailableRange backend offset len).2.1 ∧
        ((control.getAvailableRange backend offset len).1.transfer reads .readOperation
          (control.getAvailableRange backend offset len).2.2
          (control.getAvailableRange backend offset len).2.1).2 =
            (control.getAvailableRange backend offset len).2.1) ∧
      ((control.getAvailableRange backend offset len).2.1 = 0 →
        ∀ byte, offset ≤ byte → byte < offset + len → control.blockPresent byte = false) := by
  have sound := reachable.sound
  rw [SparseControl.getAvailableRange, SparseControl.startIo]
  by_cases negative : offset < 0 ∨ len < 0
  · rw [if_pos negative]
    have error : errInvalidArgument < 0 := by decide
    exact ⟨fun positive => absurd positive (Int.lt_asymm error), fun zero => absurd zero error.ne⟩
  rw [if_neg negative]
  by_cases large : 0x1000000000 ≤ offset + len
  · rw [if_pos large]
    have error : errCacheOperationNotSupported < 0 := by decide
    exact ⟨fun positive => absurd positive (Int.lt_asymm error), fun zero => absurd zero error.ne⟩
  rw [if_neg large]
  have querying : Querying control ⟨control, .getRangeOperation, offset, len, 0, false⟩ :=
    ⟨sound, fun _ => rfl, rfl, rfl, by simp only; omega, by simp only; omega, Int.le_refl 0⟩
  have queried := doChildrenIo_query backend (len.toNat + 1) querying (by simp only; omega)
  simp only at queried ⊢
  generalize SparseIo.doChildrenIo backend (len.toNat + 1)
    ⟨control, .getRangeOperation, offset, len, 0, false⟩ = after at queried
  cases found : after.rangeFound with
  | true =>
    obtain ⟨above, below, readable, still_readable⟩ := queried.found found
    have some_bytes := readable.some_bytes
    simp only [if_true]
    refine ⟨fun _ => ⟨above, below, ?_, ?_⟩, fun zero => by omega⟩
    · exact transfer_readable sound readable (by omega) (by omega)
    · exact transfer_readable queried.sound still_readable (by omega) (by omega)
  | false =>
    simp only [Bool.false_eq_true, if_false]
    rcases queried.nothing found with error | clear
    · rw [if_pos error]
      exact ⟨fun positive => by omega, fun zero => by omega⟩
    · split
      · exact ⟨fun positive => by omega, fun zero => by omega⟩
      · exact ⟨fun positive => absurd positive (Int.lt_irrefl 0), fun _ => clear⟩

/-- Bytes 500 to 3499, of which the query reports those from the second block on. -/
theorem written_range_reads : (((SparseControl.createSparseEntry 1 fun _ => none).transfer
      ⟨fun _ => true, fun _ => .done⟩ .writeOperation 500 3000).1.transfer
        ⟨fun _ => true, fun _ => .done⟩ .readOperation 1024 2476).2 = 2476 := by
  have range : (((SparseControl.createSparseEntry 1 fun _ => none).transfer
      ⟨fun _ => true, fun _ => .done⟩ .writeOperation 500 3000).1.getAvailableRange
        ⟨fun _ => true, fun _ => .done⟩ 0 10000).2 = (2476, 1024) := by decide +kernel
  have reads := ((available_range_reads (.transferred ⟨fun _ => true, fun _ => .done⟩ .writeOperation 500 3000
      (.created 1 fun _ => none)) ⟨fun _ => true, fun _ => .done⟩ ⟨fun _ => true, fun _ => .done⟩
    0 10000).1 (by rw [range]; decide)).2.2.1
  rw [range] at reads
  exact reads

end Runs

end Glopen.Cache

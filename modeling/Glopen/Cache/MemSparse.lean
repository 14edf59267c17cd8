import Glopen.Cache.MemEntry

/-! Sparse reads after sparse writes. The index of a child has 32 bits, so blocks that are a
multiple of 2^44 bytes apart share one. -/
namespace Glopen.Cache

open List Int MemEntryImpl

abbrev Shadow := Nat → Option UInt8

def Shadow.write (shadow : Shadow) (offset : Nat) (buf : List UInt8) : Shadow :=
  fun pos => if offset ≤ pos ∧ pos < offset + buf.length then buf[pos - offset]? else shadow pos

def writeAll : MemEntryImpl → Shadow → List (Nat × List UInt8) → MemEntryImpl × Shadow
  | entry, shadow, [] => (entry, shadow)
  | entry, shadow, (offset, buf) :: calls =>
    let (entry, bytes, _) := entry.writeSparseData offset buf
    writeAll entry (shadow.write offset bytes) calls

def blockOf (pos : Nat) : Nat := pos / maxSparseEntrySize

def Touches (offset len block : Nat) : Prop := ∃ k, k < len ∧ blockOf (offset + k) = block

def AnyTouches (calls : List (Nat × List UInt8)) (block : Nat) : Prop :=
  ∃ call ∈ calls, Touches call.1 call.2.length block

def Apart (touched : Nat → Prop) : Prop :=
  ∀ block block', touched block → touched block' → block % 2 ^ 32 = block' % 2 ^ 32 → block = block'

theorem Shadow.write_nil (shadow : Shadow) (offset : Nat) : shadow.write offset [] = shadow := by
  funext pos
  rw [write, if_neg]
  rintro ⟨above, below⟩
  rw [length_nil] at below
  omega

theorem Shadow.write_append (shadow : Shadow) (offset : Nat) (first second : List UInt8) :
    (shadow.write offset first).write (offset + first.length) second =
      shadow.write offset (first ++ second) := by
  funext pos
  simp only [write, length_append]
  by_cases later : offset + first.length ≤ pos
  · by_cases inside : pos < offset + first.length + second.length
    · rw [if_pos ⟨later, inside⟩, if_pos (by omega), List.getElem?_append_right (by omega)]
      congr 1
      omega
    · rw [if_neg (by omega), if_neg (by omega), if_neg (by omega)]
  · by_cases inside : offset ≤ pos
    · rw [if_neg (by omega), if_pos (by omega), if_pos (by omega), List.getElem?_append_left (by omega)]
    · rw [if_neg (by omega), if_neg (by omega), if_neg (by omega)]

theorem toChildIndex_eq (pos : Nat) : toChildIndex pos = Int.bmod (blockOf pos : Nat) (2 ^ 32) := by
  rw [toChildIndex, blockOf, natCast_ediv]

theorem toChildOffset_eq (pos : Nat) : toChildOffset pos = pos % maxSparseEntrySize := by
  rw [toChildOffset, ← natCast_emod, toNat_natCast]

theorem same_index {block block' : Nat} (same : Int.bmod block (2 ^ 32) = Int.bmod block' (2 ^ 32)) :
    block % 2 ^ 32 = block' % 2 ^ 32 := by
  have congruent := congrArg (· % ((2 ^ 32 : Nat) : Int)) same
  simp only [bmod_emod] at congruent
  omega

section PrepareTarget

variable (entry : MemEntry) (whole : entry.dataSize ≤ entry.data.length) (offset bufLen : Nat)
include whole

theorem MemEntry.prepareTarget_length : offset + bufLen ≤ (entry.prepareTarget offset bufLen).data.length := by
  rw [prepareTarget]
  split
  · omega
  · have grown : offset + bufLen ≤ (if entry.data.length < offset + bufLen then
        entry.data ++ List.replicate (offset + bufLen - entry.data.length) 0
        else entry.data).length := by
      split
      · simp only [length_append, length_replicate]
        omega
      · omega
    simp only
    split
    · exact grown
    · simp only [length_append, length_take, length_replicate, length_drop]
      omega

theorem MemEntry.prepareTarget_kept {i : Nat} (inside : i < entry.dataSize) :
    (entry.prepareTarget offset bufLen).data[i]? = entry.data[i]? := by
  rw [prepareTarget]
  split
  · rfl
  · have grown : (if entry.data.length < offset + bufLen then
        entry.data ++ List.replicate (offset + bufLen - entry.data.length) 0
        else entry.data)[i]? = entry.data[i]? := by
      split
      · exact List.getElem?_append_left (by omega)
      · rfl
    simp only
    split
    · exact grown
    · rw [append_assoc, List.getElem?_append_left, List.getElem?_take_of_lt inside, grown]
      rw [length_take]
      split
      · rw [length_append]
        omega
      · omega

end PrepareTarget

section WriteData

variable {maxFileSize : Nat} {entry written : MemEntry} {offset : Nat} {buf : List UInt8}
  (wrote : entry.writeData maxFileSize offset buf = .ok written)
include wrote

theorem MemEntry.writeData_size : written.dataSize = offset + buf.length := by
  rw [writeData] at wrote
  split at wrote
  · cases wrote
  · cases wrote
    rfl

theorem MemEntry.writeData_first : written.childFirstPos = entry.childFirstPos := by
  rw [writeData] at wrote
  split at wrote
  · cases wrote
  · cases wrote
    simp only [prepareTarget]
    split
    · rfl
    · split <;> rfl

theorem MemEntry.writeData_data (whole : entry.dataSize ≤ entry.data.length) :
    offset + buf.length ≤ written.data.length ∧
      (∀ i, offset ≤ i → i < offset + buf.length → written.data[i]? = buf[i - offset]?) ∧
      ∀ i, i < offset → i < entry.dataSize → written.data[i]? = entry.data[i]? := by
  have long := entry.prepareTarget_length whole offset buf.length
  rw [writeData] at wrote
  split at wrote
  · cases wrote
  cases wrote
  have front : ((entry.prepareTarget offset buf.length).data.take offset).length = offset := by
    rw [length_take]
    omega
  refine ⟨?_, fun i above below => ?_, fun i below inside => ?_⟩
  · simp only [length_append, length_take, length_drop]
    omega
  · rw [append_assoc, List.getElem?_append_right (by omega), front, List.getElem?_append_left (by omega)]
  · rw [append_assoc, List.getElem?_append_left (by omega), List.getElem?_take_of_lt below,
      entry.prepareTarget_kept whole offset buf.length inside]

end WriteData

def Holds (shadow : Shadow) (block : Nat) (child : MemEntry) : Prop :=
  ∀ i, child.childFirstPos ≤ i → i < child.dataSize →
    child.data[i]? = shadow (block * maxSparseEntrySize + i)

structure Fits (shadow : Shadow) (touched : Nat → Prop) (index : Int) (child : MemEntry) : Prop where
  whole : child.dataSize ≤ child.data.length
  short : child.dataSize ≤ maxSparseEntrySize
  owned : child.dataSize ≤ child.childFirstPos ∨ ∃ block, touched block ∧
    index = Int.bmod block (2 ^ 32) ∧ Holds shadow block child

def Consistent (entry : MemEntryImpl) (shadow : Shadow) (touched : Nat → Prop) : Prop :=
  ∀ index child, entry.findChild index = some child → Fits shadow touched index child

theorem findChild_setChild (entry : MemEntryImpl) (index index' : Int) (child : MemEntry) :
    (entry.setChild index child).findChild index' =
      if index' = index then some child else entry.findChild index' := by
  rw [setChild]
  by_cases zero : index = 0
  · subst zero
    rw [if_pos rfl]
    simp only [findChild]
    split
    · rfl
    · rfl
  · rw [if_neg zero]
    simp only [findChild]
    by_cases same : index' = index
    · subst same
      rw [if_neg zero, if_pos rfl, if_pos rfl]
    · rw [if_neg same, if_neg same]

theorem Fits.new (shadow : Shadow) (touched : Nat → Prop) (index : Int) :
    Fits shadow touched index MemEntry.new :=
  ⟨Nat.le_refl 0, Nat.zero_le _, Or.inl (Nat.le_refl 0)⟩

section Piece

variable {entry : MemEntryImpl} {shadow : Shadow} {touched : Nat → Prop} (apart : Apart touched)
  (consistent : Consistent entry shadow touched) {offset : Nat} {buf : List UInt8}
  (touches : touched (blockOf offset)) (inside : offset % maxSparseEntrySize + buf.length ≤ maxSparseEntrySize)
include apart consistent touches inside

theorem Consistent.piece {child written : MemEntry}
    (found : (entry.findChild (toChildIndex offset)).getD MemEntry.new = child)
    (wrote : child.writeData entry.maxFileSize (toChildOffset offset) buf = .ok written) :
    Consistent (entry.setChild (toChildIndex offset) (if child.dataSize ≠ toChildOffset offset then
          { written with childFirstPos := toChildOffset offset }
        else written))
      (shadow.write offset buf) touched := by
  have fits : Fits shadow touched (toChildIndex offset) child := by
    subst found
    cases here : entry.findChild (toChildIndex offset) with
    | none => exact .new shadow touched _
    | some child => exact consistent _ child here
  have size := MemEntry.writeData_size wrote
  have first := MemEntry.writeData_first wrote
  obtain ⟨long, fresh, kept⟩ := MemEntry.writeData_data wrote fits.whole
  rw [toChildOffset_eq] at size long fresh kept ⊢
  have place : blockOf offset * maxSparseEntrySize + offset % maxSparseEntrySize = offset :=
    Nat.div_add_mod' offset maxSparseEntrySize
  intro index other there
  rw [findChild_setChild] at there
  split at there
  · rename_i same
    rw [same]
    rw [Option.some.injEq] at there
    subst there
    have written_now : ∀ i, offset % maxSparseEntrySize ≤ i → i < offset % maxSparseEntrySize + buf.length →
        written.data[i]? = shadow.write offset buf (blockOf offset * maxSparseEntrySize + i) := by
      intro i above below
      have position : blockOf offset * maxSparseEntrySize + i - offset =
          i - offset % maxSparseEntrySize := by omega
      rw [fresh i above below, Shadow.write, if_pos (by omega), position]
    by_cases continuous : child.dataSize = offset % maxSparseEntrySize
    · rw [if_neg (not_not.mpr continuous)]
      refine ⟨by omega, by omega, Or.inr ⟨_, touches, toChildIndex_eq offset, fun i above below => ?_⟩⟩
      by_cases earlier : i < offset % maxSparseEntrySize
      · rcases fits.owned with empty | ⟨block, owner, at_index, holds⟩
        · omega
        · rw [toChildIndex_eq] at at_index
          have same := apart _ _ touches owner (same_index at_index)
          rw [kept i earlier (by omega), holds i (by omega) (by omega), ← same, Shadow.write,
            if_neg (by omega)]
      · exact written_now i (by omega) (by omega)
    · rw [if_pos continuous]
      refine ⟨by simp only; omega, by simp only; omega,
        Or.inr ⟨_, touches, toChildIndex_eq offset, fun i above below => ?_⟩⟩
      exact written_now i above (by simp only at below; omega)
  · rename_i away
    have fits' := consistent index other there
    refine ⟨fits'.whole, fits'.short, ?_⟩
    rcases fits'.owned with empty | ⟨block, owner, at_index, holds⟩
    · exact Or.inl empty
    · refine Or.inr ⟨block, owner, at_index, fun i above below => ?_⟩
      have elsewhere : block ≠ blockOf offset := fun same => by
        rw [same, ← toChildIndex_eq] at at_index
        exact away at_index
      have short := fits'.short
      rw [holds i above below, Shadow.write, if_neg]
      rintro ⟨from_offset, to_offset⟩
      rcases Nat.lt_or_gt_of_ne elsewhere with lower | higher
      · have : (block + 1) * maxSparseEntrySize ≤ blockOf offset * maxSparseEntrySize :=
          Nat.mul_le_mul_right _ lower
        rw [Nat.succ_mul] at this
        omega
      · have : (blockOf offset + 1) * maxSparseEntrySize ≤ block * maxSparseEntrySize :=
          Nat.mul_le_mul_right _ higher
        rw [Nat.succ_mul] at this
        omega

end Piece

theorem Consistent.child {entry : MemEntryImpl} {shadow : Shadow} {touched : Nat → Prop}
    (consistent : Consistent entry shadow touched) (index : Int) :
    Consistent (entry.setChild index ((entry.findChild index).getD MemEntry.new)) shadow touched := by
  intro other child there
  rw [findChild_setChild] at there
  split at there
  · rename_i same
    rw [Option.some.injEq] at there
    rw [same, ← there]
    cases here : entry.findChild index with
    | none => exact .new shadow touched index
    | some child => exact consistent index child here
  · exact consistent other child there

theorem writeSparseLoop_consistent {touched : Nat → Prop} (apart : Apart touched) (fuel : Nat)
    {entry : MemEntryImpl} {shadow : Shadow} (consistent : Consistent entry shadow touched)
    {offset : Nat} {buf : List UInt8} (touches : ∀ k, k < buf.length → touched (blockOf (offset + k))) :
    Consistent (writeSparseLoop fuel entry offset buf).1
      (shadow.write offset (writeSparseLoop fuel entry offset buf).2.1) touched := by
  induction fuel generalizing entry shadow offset buf with
  | zero =>
    rw [writeSparseLoop, Shadow.write_nil]
    exact consistent
  | succ fuel ih =>
    rw [writeSparseLoop]
    by_cases empty : buf = []
    · rw [if_pos empty, Shadow.write_nil]
      exact consistent
    rw [if_neg empty]
    have positive : 0 < buf.length := length_pos_iff.mpr empty
    have below : offset % maxSparseEntrySize < maxSparseEntrySize := Nat.mod_lt _ (by decide)
    have here : touched (blockOf offset) := touches 0 positive
    simp only
    rw [toChildOffset_eq]
    generalize amount : min buf.length (maxSparseEntrySize - offset % maxSparseEntrySize) = writeLen
    have length : (buf.take writeLen).length = writeLen := by
      rw [length_take]
      omega
    split
    · simp only [Shadow.write_nil]
      exact consistent.child _
    · rename_i written wrote
      have piece := consistent.piece apart here
        (by rw [length]; omega) rfl (by rw [toChildOffset_eq]; exact wrote)
      rw [toChildOffset_eq] at piece
      have later := @ih _ _ piece (offset + writeLen) (buf.drop writeLen) (by
        intro k inside
        rw [length_drop] at inside
        rw [Nat.add_assoc]
        exact touches (writeLen + k) (by omega))
      have appended := fun bytes => Shadow.write_append shadow offset (buf.take writeLen) bytes
      rw [length] at appended
      rw [appended, natCast_add] at later
      simp only
      exact later

theorem initSparseInfo_fresh {entry : MemEntryImpl} (ready : entry.sparse = true ∨ entry.own.dataSize = 0) :
    entry.initSparseInfo = .ok { entry with sparse := true } := by
  rw [initSparseInfo]
  by_cases sparse : entry.sparse = true
  · rw [if_pos sparse, ← sparse]
  · rw [if_neg sparse, if_neg (not_not.mpr (ready.resolve_left sparse))]

structure Written (entry : MemEntryImpl) (shadow : Shadow) (touched : Nat → Prop) : Prop where
  ready : entry.sparse = true ∨ entry.own.dataSize = 0
  consistent : Consistent entry shadow touched

theorem setChild_sparse (entry : MemEntryImpl) (index : Int) (child : MemEntry) :
    (entry.setChild index child).sparse = entry.sparse := by
  rw [setChild]
  split
  · rfl
  · rfl

theorem writeSparseLoop_sparse (fuel : Nat) (entry : MemEntryImpl) (offset : Int) (buf : List UInt8) :
    (writeSparseLoop fuel entry offset buf).1.sparse = entry.sparse := by
  induction fuel generalizing entry offset buf with
  | zero => rfl
  | succ fuel ih =>
    rw [writeSparseLoop]
    split
    · rfl
    simp only
    split
    · exact setChild_sparse entry _ _
    · exact (ih _ _ _).trans (setChild_sparse entry _ _)

section

variable {touched : Nat → Prop} (apart : Apart touched) {entry : MemEntryImpl} {shadow : Shadow}
  (written : Written entry shadow touched)
include apart written

theorem Written.write {offset : Nat} {buf : List UInt8}
    (touches : ∀ k, k < buf.length → touched (blockOf (offset + k))) :
    Written (entry.writeSparseData offset buf).1
      (shadow.write offset (entry.writeSparseData offset buf).2.1) touched := by
  rw [writeSparseData, initSparseInfo_fresh written.ready]
  simp only
  rw [if_neg (by omega)]
  refine ⟨Or.inl (writeSparseLoop_sparse _ _ _ _), ?_⟩
  have begun : Consistent { entry with sparse := true } shadow touched := written.consistent
  exact writeSparseLoop_consistent apart _ begun touches

theorem Written.writeAll {calls : List (Nat × List UInt8)}
    (touches : ∀ block, AnyTouches calls block → touched block) :
    Written (writeAll entry shadow calls).1 (writeAll entry shadow calls).2 touched := by
  induction calls generalizing entry shadow with
  | nil => exact written
  | cons call calls ih =>
    rw [Cache.writeAll]
    refine ih (written.write apart fun k inside => ?_) fun block later => ?_
    · exact touches _ ⟨call, mem_cons_self .., k, inside, rfl⟩
    · obtain ⟨other, member, touching⟩ := later
      exact touches block ⟨other, mem_cons_of_mem call member, touching⟩

end

theorem Written.new (maxFileSize : Nat) (touched : Nat → Prop) :
    Written (MemEntryImpl.new maxFileSize) (fun _ => none) touched where
  ready := Or.inr rfl
  consistent index child found := by
    rw [findChild] at found
    split at found
    · cases found
      exact .new _ touched index
    · cases found

def Stored (entry : MemEntryImpl) (offset : Nat) : Prop :=
  ∃ child, entry.findChild (toChildIndex offset) = some child ∧
    child.childFirstPos ≤ toChildOffset offset ∧ toChildOffset offset < child.dataSize

theorem Consistent.next_room {entry : MemEntryImpl} {shadow : Shadow} {touched : Nat → Prop}
    (consistent : Consistent entry shadow touched) {offset : Nat} {child : MemEntry}
    (found : entry.findChild (toChildIndex offset) = some child) {len remaining : Nat}
    (int_len : remaining < 2 ^ 31) (ends : remaining = 0 ∨ offset % maxSparseEntrySize + len = child.dataSize) :
    (offset + len) % maxSparseEntrySize + remaining < 2 ^ 31 ∨ ¬ Stored entry (offset + len) := by
  have short := (consistent _ child found).short
  have size : maxSparseEntrySize = 4096 := rfl
  rw [size] at ends short ⊢
  by_cases full : remaining = 0 ∨ offset % 4096 + len = 4096
  · refine Or.inl ?_
    omega
  · refine Or.inr ?_
    rintro ⟨other, found', -, inside⟩
    have same : toChildIndex (offset + len : Nat) = toChildIndex offset := by
      rw [toChildIndex_eq, toChildIndex_eq, blockOf, blockOf, size,
        show (offset + len) / 4096 = offset / 4096 by omega]
    rw [same, found, Option.some.injEq] at found'
    rw [toChildOffset_eq, size, ← found'] at inside
    omega

section Read

theorem MemEntry.readData_small {child : MemEntry} {offset bufLen : Nat} (inside : offset < child.dataSize) (some_len : bufLen ≠ 0)
    (small : offset + bufLen < 2 ^ 31) : child.readData offset bufLen =
      some ((child.data.drop offset).take (min bufLen (child.dataSize - offset))) := by
  have as_int : Int.bmod (offset + bufLen : Nat) (2 ^ 32) = (offset + bufLen : Nat) := by
    rw [bmod_eq_of_le] <;> omega
  rw [readData, if_neg (by omega), as_int]
  split
  · rw [if_pos (by omega), Nat.min_eq_right (by omega)]
  · rw [if_pos (by omega), Nat.min_eq_left (by omega)]

theorem MemEntry.readData_overflow {child : MemEntry} (short : child.dataSize ≤ maxSparseEntrySize)
    {offset bufLen : Nat} (inside : offset < child.dataSize) (int_len : bufLen < 2 ^ 31)
    (large : 2 ^ 31 ≤ offset + bufLen) : child.readData offset bufLen = none := by
  have size : maxSparseEntrySize = 4096 := rfl
  have negative : Int.bmod (offset + bufLen : Nat) (2 ^ 32) < 0 := by
    rw [bmod_def]
    split <;> omega
  have unclamped : ¬ (child.dataSize : Int) < Int.bmod (offset + bufLen : Nat) (2 ^ 32) := by omega
  rw [readData, if_neg (by omega)]
  simp only [if_neg unclamped]
  exact if_neg (by omega)

variable {entry : MemEntryImpl} {shadow : Shadow} {touched : Nat → Prop} (apart : Apart touched)
  (consistent : Consistent entry shadow touched)
include apart consistent

theorem Consistent.child_bytes {offset : Nat} {child : MemEntry}
    (found : entry.findChild (toChildIndex offset) = some child)
    (here : touched (blockOf offset)) (above : child.childFirstPos ≤ toChildOffset offset)
    {len : Nat} (below : toChildOffset offset + len ≤ child.dataSize) {j : Nat} (inside : j < len) :
    ((child.data.drop (toChildOffset offset)).take len)[j]? = shadow (offset + j) := by
  have fits := consistent _ child found
  rcases fits.owned with empty | ⟨block, owner, at_index, holds⟩
  · omega
  · rw [toChildIndex_eq] at at_index
    have same := apart _ _ here owner (same_index at_index)
    rw [List.getElem?_take_of_lt inside, List.getElem?_drop, holds _ (by omega) (by omega), ← same,
      toChildOffset_eq, ← Nat.add_assoc, blockOf, Nat.div_add_mod']

theorem readSparseLoop_reads (fuel : Nat) {offset remaining : Nat}
    (touches : ∀ k, k < remaining → touched (blockOf (offset + k))) (int_len : remaining < 2 ^ 31)
    (room : offset % maxSparseEntrySize + remaining < 2 ^ 31 ∨ ¬ Stored entry offset) :
    ∃ bytes, readSparseLoop entry fuel offset remaining = some bytes ∧
      ∀ j, j < bytes.length → bytes[j]? = shadow (offset + j) := by
  induction fuel generalizing offset remaining with
  | zero => exact ⟨[], rfl, fun j inside => absurd inside (Nat.not_lt_zero j)⟩
  | succ fuel ih =>
    have nothing : ∃ bytes, some [] = some bytes ∧ ∀ j, j < bytes.length → bytes[j]? = shadow (offset + j) :=
      ⟨[], rfl, fun j inside => absurd inside (Nat.not_lt_zero j)⟩
    rw [readSparseLoop]
    by_cases finished : remaining = 0
    · rw [if_pos finished]
      exact nothing
    rw [if_neg finished]
    cases found : entry.findChild (toChildIndex offset) with
    | none => exact nothing
    | some child =>
      simp only
      by_cases before : toChildOffset offset < child.childFirstPos
      · rw [if_pos before]
        exact nothing
      rw [if_neg before]
      by_cases behind : child.dataSize ≤ toChildOffset offset
      · rw [MemEntry.readData, if_pos (Or.inl behind)]
        exact nothing
      have stored : Stored entry offset := ⟨child, found, by omega, by omega⟩
      have small := room.resolve_right (not_not.mpr stored)
      have here : touched (blockOf offset) := touches 0 (by omega)
      have fits := consistent _ child found
      rw [toChildOffset_eq] at behind before
      generalize amount : min remaining (child.dataSize - offset % maxSparseEntrySize) = len
      have got : child.readData (toChildOffset offset) remaining =
          some ((child.data.drop (toChildOffset offset)).take len) := by
        rw [MemEntry.readData_small (by rw [toChildOffset_eq]; omega) finished
          (by rw [toChildOffset_eq]; exact small), toChildOffset_eq, amount]
      have right := fun j => @Consistent.child_bytes entry shadow touched apart consistent offset
        child found here (by rw [toChildOffset_eq]; omega) len (by rw [toChildOffset_eq]; omega) j
      have length : ((child.data.drop (toChildOffset offset)).take len).length = len := by
        have whole := fits.whole
        rw [length_take, length_drop, toChildOffset_eq]
        omega
      rw [got]
      generalize (child.data.drop (toChildOffset offset)).take len = first at right length
      cases first with
      | nil =>
        rw [length_nil] at length
        omega
      | cons b first =>
        simp only [length]
        have left : remaining - len < 2 ^ 31 := by omega
        have later : (offset + len) % maxSparseEntrySize + (remaining - len) < 2 ^ 31 ∨
            ¬ Stored entry (offset + len) := consistent.next_room found left (by omega)
        have touches_later : ∀ k, k < remaining - len → touched (blockOf (offset + len + k)) := by
          intro k inside
          rw [Nat.add_assoc]
          exact touches (len + k) (by omega)
        obtain ⟨rest, read, rest_right⟩ := ih touches_later left later
        rw [natCast_add] at read
        rw [read]
        refine ⟨_, rfl, fun j inside => ?_⟩
        by_cases in_first : j < len
        · rw [List.getElem?_append_left (by omega), right j in_first]
        · rw [length_append, length] at inside
          rw [List.getElem?_append_right (by omega), length, rest_right _ (by omega),
            show offset + len + (j - len) = offset + j by omega]

end Read

def Visits (calls : List (Nat × List UInt8)) (offset len block : Nat) : Prop :=
  AnyTouches calls block ∨ Touches offset len block

def SparseRight (maxFileSize : Nat) (calls : List (Nat × List UInt8)) (offset len : Nat) : Prop :=
  (∀ block block', Visits calls offset len block → Visits calls offset len block' →
    block ≠ block' → toChildIndex (block * maxSparseEntrySize : Nat) ≠
      toChildIndex (block' * maxSparseEntrySize : Nat)) ∧
  ∃ bytes, ((writeAll (MemEntryImpl.new maxFileSize) (fun _ => none) calls).1.readSparseData
      offset len).2 = .ok (some bytes) ∧
    ∀ j, j < bytes.length → bytes[j]? =
      (writeAll (MemEntryImpl.new maxFileSize) (fun _ => none) calls).2 (offset + j)

def NoOverflow (entry : MemEntryImpl) (offset len : Nat) : Prop :=
  offset % maxSparseEntrySize + len < 2 ^ 31 ∨ ¬ Stored entry offset

theorem children_differ {touched : Nat → Prop} :
    (∀ block block', touched block → touched block' → block ≠ block' →
      toChildIndex (block * maxSparseEntrySize : Nat) ≠
        toChildIndex (block' * maxSparseEntrySize : Nat)) ↔ Apart touched := by
  have index : ∀ block : Nat, toChildIndex (block * maxSparseEntrySize : Nat) =
      Int.bmod block (2 ^ 32) := fun block => by
    rw [toChildIndex_eq, blockOf, Nat.mul_div_cancel _ (by decide)]
  simp only [index]
  constructor
  · intro differ block block' visited visited' congruent
    refine Classical.not_not.mp fun other => differ block block' visited visited' other ?_
    have same : (block : Int) % ((2 ^ 32 : Nat) : Int) = (block' : Int) % ((2 ^ 32 : Nat) : Int) := by
      omega
    rw [bmod_def, bmod_def, same]
  · intro apart block block' visited visited' other same
    exact other (apart block block' visited visited' (same_index same))

/-- The condition is exact. -/
theorem sparse_read_after_write (maxFileSize : Nat) (calls : List (Nat × List UInt8))
    (offset : Nat) {len : Nat} (int_len : len < 2 ^ 31) :
    SparseRight maxFileSize calls offset len ↔ Apart (Visits calls offset len) ∧
        NoOverflow (writeAll (MemEntryImpl.new maxFileSize) (fun _ => none) calls).1 offset len := by
  rw [SparseRight, children_differ]
  refine and_congr_right fun apart => ?_
  have written := (Written.new maxFileSize (Visits calls offset len)).writeAll apart
    (fun block touching => Or.inl touching : ∀ block, AnyTouches calls block → _)
  generalize writeAll (MemEntryImpl.new maxFileSize) (fun _ => none) calls = result at written ⊢
  obtain ⟨entry, shadow⟩ := result
  simp only at written ⊢
  have started : Consistent { entry with sparse := true } shadow (Visits calls offset len) :=
    written.consistent
  rw [readSparseData, initSparseInfo_fresh written.ready]
  simp only
  rw [if_neg (by omega), Int.toNat_natCast]
  constructor
  · rintro ⟨bytes, read, -⟩
    refine Classical.or_iff_not_imp_right.mpr fun stored => Classical.byContradiction fun large => ?_
    obtain ⟨child, found, above, inside⟩ := Classical.not_not.mp stored
    have found' : findChild { entry with sparse := true } (toChildIndex offset) = some child := found
    have below : offset % maxSparseEntrySize < 4096 := Nat.mod_lt _ (by decide)
    have overflow := MemEntry.readData_overflow (written.consistent _ child found).short inside int_len
      (by rw [toChildOffset_eq]; omega)
    rw [readSparseLoop, if_neg (by omega), found'] at read
    simp only [if_neg (Nat.not_lt.mpr above), overflow] at read
    cases read
  · intro room
    obtain ⟨bytes, read, right⟩ := readSparseLoop_reads apart started (len + 1)
      (fun k inside => Or.inr ⟨k, inside, rfl⟩) int_len room
    exact ⟨bytes, congrArg Except.ok read, right⟩

/-- `"ab"` at 10, and `"c"` behind it. -/
theorem two_writes : SparseRight 100000 [(10, [97, 98]), (12, [99])] 11 5 := by
  refine (sparse_read_after_write 100000 _ 11 (by decide)).mpr ⟨?_, Or.inl (by decide)⟩
  have first : ∀ block, Visits [(10, [97, 98]), (12, [99])] 11 5 block → block = 0 := by
    rintro block (⟨call, member, k, inside, rfl⟩ | ⟨k, inside, rfl⟩)
    · simp only [List.mem_cons, List.not_mem_nil, or_false] at member
      rcases member with rfl | rfl
      · exact Nat.div_eq_of_lt (by simp only [List.length_cons, List.length_nil, maxSparseEntrySize] at inside ⊢; omega)
      · exact Nat.div_eq_of_lt (by simp only [List.length_cons, List.length_nil, maxSparseEntrySize] at inside ⊢; omega)
    · exact Nat.div_eq_of_lt (by simp only [maxSparseEntrySize]; omega)
  intro block block' visited visited' _
  rw [first block visited, first block' visited']

/-- A byte that was written at 2^44 is read at 0. -/
theorem shared_child :
    ((writeAll (MemEntryImpl.new 100000) (fun _ => none) [(2 ^ 44, [7])]).1.readSparseData 0 1).2 =
        .ok (some [7]) ∧
      ¬ SparseRight 100000 [(2 ^ 44, [7])] 0 1 := by
  constructor
  · decide +kernel
  · intro right
    exact right.1 (2 ^ 32) 0 (Or.inl ⟨_, List.mem_singleton.mpr rfl, 0, by decide, by decide⟩)
      (Or.inr ⟨0, by decide, by decide⟩) (by decide) (by decide)

end Glopen.Cache

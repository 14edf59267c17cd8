import Mathlib.Data.List.FinRange
import Glopen.Cache.MemEntry
import Glopen.Cache.Rankings

/-! The streams of entry_impl.cc: where their data is kept, the storage that is reported for them to
the backend, and what the destructor leaves. -/
namespace Glopen.Cache

open List

inductive FileType
  | external | rankings | block256 | block1K | block4K | unnamed
deriving DecidableEq

def FileType.ofBits (bits : Nat) : FileType :=
  match bits with
  | 0 => external
  | 1 => rankings
  | 2 => block256
  | 3 => block1K
  | 4 => block4K
  | _ => unnamed

def FileType.bits : FileType → UInt32
  | external => 0
  | rankings => 1
  | block256 => 2
  | block1K => 3
  | block4K => 4
  | unnamed => 5

def blockSizeForFileType : FileType → Int
  | .rankings => 36
  | .block256 => 256
  | .block1K => 1024
  | .block4K => 4096
  | _ => 0

def requiredFileType (size : Int) : FileType :=
  if size < 1024 then .block256
  else if size < 4096 then .block1K
  else if size ≤ 4096 * 4 then .block4K
  else .external

def CacheAddr.fileType (addr : CacheAddr) : FileType :=
  .ofBits ((addr &&& 0x70000000) >>> 28).toNat

def CacheAddr.blockSize (addr : CacheAddr) : Int := blockSizeForFileType addr.fileType

def CacheAddr.numBlocks (addr : CacheAddr) : Int := ((addr &&& 0x03000000) >>> 24).toNat + 1

/-- The address of blocks of a file, where `place` has the selector and the first block. -/
def CacheAddr.ofBlocks (fileType : FileType) (numBlocks : Int) (place : UInt32) : CacheAddr :=
  let typeBits : CacheAddr := fileType.bits <<< 28
  let blockBits : CacheAddr := UInt32.ofNat (numBlocks - 1).toNat <<< 24
  (typeBits &&& 0x70000000) ||| (blockBits &&& 0x03000000) ||| (place &&& 0x00FFFFFF) ||| 0x80000000

def CacheAddr.ofFile (fileNumber : UInt32) : CacheAddr := (fileNumber &&& 0x0FFFFFFF) ||| 0x80000000

def kMaxBlockSize : Int := 4096 * 4

/-- What the backend and the files answer during one call. `moved` and `flushed` are whether the
files of `MoveToLocalBuffer` and `Flush` open and take part, `allocated` the place of a new block or
the number of a new file. -/
structure Outcomes where
  allocated : Option UInt32
  moved : Bool
  flushed : Bool
  opened : Bool
  lengthSet : Bool
  written : Bool

def Outcomes.fine : Outcomes := ⟨some 0, true, true, true, true, true⟩

/-- `reports` has the arguments of the calls of `ModifyStorageSize` for the stream, and `checks`
every assertion that was come to. -/
structure EntryStream where
  dataSize : Int
  dataAddr : CacheAddr
  unreportedSize : Int
  buffered : Bool
  reports : List (Int × Int)
  checks : List Bool

def EntryStream.new : EntryStream := ⟨0, 0, 0, false, [], []⟩

section Streams

variable (stream : EntryStream)

def EntryStream.modifyStorageSize (oldSize newSize : Int) : EntryStream :=
  { stream with reports := stream.reports ++ [(oldSize, newSize)] }

def EntryStream.check (holds : Bool) : EntryStream :=
  { stream with checks := stream.checks ++ [holds] }

def createBlock (maxFileSize size : Int) (allocated : Option UInt32) : Option CacheAddr :=
  let fileType := requiredFileType size
  if fileType = .external then
    if maxFileSize < size then none else allocated.map CacheAddr.ofFile
  else
    let blockSize := blockSizeForFileType fileType
    allocated.map (CacheAddr.ofBlocks fileType ((size + blockSize - 1) / blockSize))

def EntryStream.createDataBlock (maxFileSize size : Int) (allocated : Option UInt32) :
    EntryStream × Bool :=
  match createBlock maxFileSize size allocated with
  | none => (stream, false)
  | some address => ({ stream with dataAddr := address }, true)

def EntryStream.moveToLocalBuffer (moved : Bool) : EntryStream × Bool :=
  let stream := (stream.check !stream.buffered).check stream.dataAddr.isInitialized
  if !moved then (stream, false)
  else
    let stream := { stream with dataAddr := 0 }
    let stream := stream.modifyStorageSize (stream.dataSize - stream.unreportedSize) 0
    ({ stream with unreportedSize := stream.dataSize, buffered := true }, true)

def EntryStream.importSeparateFile (offset bufLen : Int) (moved : Bool) : EntryStream × Bool :=
  let stream :=
    if offset + bufLen < stream.dataSize then
      { stream with
        unreportedSize := stream.unreportedSize + (offset + bufLen - stream.dataSize)
        dataSize := offset + bufLen }
    else stream
  stream.moveToLocalBuffer moved

def EntryStream.flush (maxFileSize size : Int) (outcomes : Outcomes) : EntryStream × Bool :=
  let stream := (stream.check stream.buffered).check !stream.dataAddr.isInitialized
  if size = 0 then (stream, true)
  else
    match stream.createDataBlock maxFileSize size outcomes.allocated with
    | (stream, false) => (stream, false)
    | (stream, true) =>
      let len := stream.dataSize
      let stream := (stream.check (len = stream.unreportedSize)).modifyStorageSize 0 len
      let stream := { stream with unreportedSize := 0 }
      if !outcomes.flushed then (stream, false) else ({ stream with buffered := false }, true)

def EntryStream.growUserBuffer (maxFileSize offset bufLen : Int) (truncate : Bool)
    (outcomes : Outcomes) : EntryStream × Bool :=
  let address := stream.dataAddr
  if kMaxBlockSize < offset + bufLen then
    if address.isInitialized then
      if address.isSeparateFile then (stream, true)
      else
        match stream.moveToLocalBuffer outcomes.moved with
        | (stream, false) => (stream, false)
        | (stream, true) => stream.flush maxFileSize (offset + bufLen) outcomes
    else stream.flush maxFileSize (offset + bufLen) outcomes
  else if !address.isInitialized then (stream.check stream.buffered, true)
  else if address.isSeparateFile then
    if !truncate then (stream, true) else stream.importSeparateFile offset bufLen outcomes.moved
  else if offset + bufLen ≤ address.blockSize * address.numBlocks then (stream, true)
  else stream.moveToLocalBuffer outcomes.moved

def EntryStream.prepareTarget (maxFileSize offset bufLen : Int) (truncate : Bool)
    (outcomes : Outcomes) : EntryStream × Bool :=
  if stream.dataAddr.isInitialized ∨ stream.buffered then
    stream.growUserBuffer maxFileSize offset bufLen truncate outcomes
  else if kMaxBlockSize < offset + bufLen then
    stream.createDataBlock maxFileSize (offset + bufLen) outcomes.allocated
  else ({ stream with buffered := true }, true)

/-- The sizes of `WriteDataImpl` once the target is ready, and whether the file is truncated. -/
def EntryStream.resize (entrySize offset bufLen : Int) (truncate : Bool) : EntryStream × Bool :=
  if entrySize < offset + bufLen then
    ({ stream with
      unreportedSize := stream.unreportedSize + (offset + bufLen - entrySize)
      dataSize := offset + bufLen }, truncate || bufLen = 0)
  else if truncate then
    if offset + bufLen < entrySize ∧ entrySize = stream.dataSize then
      ({ stream with
        unreportedSize := stream.unreportedSize + (offset + bufLen - entrySize)
        dataSize := offset + bufLen }, true)
    else (stream, false)
  else (stream, false)

/-- `WriteDataImpl` for a stream of the entry, with what is returned. -/
def EntryStream.writeData (maxFileSize offset bufLen : Int) (truncate : Bool)
    (outcomes : Outcomes) : EntryStream × Except NetError Int :=
  if offset < 0 ∨ bufLen < 0 then (stream, .error .invalidArgument)
  else if maxFileSize < offset ∨ maxFileSize < bufLen ∨ maxFileSize < offset + bufLen then
    (stream, .error .failed)
  else
    match stream.prepareTarget maxFileSize offset bufLen truncate outcomes with
    | (prepared, false) => (prepared, .error .failed)
    | (prepared, true) =>
      let (resized, truncate) := prepared.resize stream.dataSize offset bufLen truncate
      if resized.buffered then (resized, .ok bufLen)
      else if !outcomes.opened then (resized, .error .failed)
      else if resized.dataAddr.isSeparateFile && truncate && !outcomes.lengthSet then
        (resized, .error .failed)
      else if bufLen = 0 then (resized, .ok 0)
      else if !outcomes.written then (resized, .error .failed)
      else (resized, .ok bufLen)

/-- The part of the destructor for a stream, with the result of `Flush` where that is called. -/
def EntryStream.close (maxFileSize : Int) (outcomes : Outcomes) : EntryStream × Option Bool :=
  if stream.buffered then
    let (stream, flushed) := stream.flush maxFileSize stream.dataSize outcomes
    (stream, some flushed)
  else if stream.unreportedSize ≠ 0 then
    (stream.modifyStorageSize (stream.dataSize - stream.unreportedSize) stream.dataSize, none)
  else (stream, none)

/-- The part of `DeleteEntryData` for a stream. -/
def EntryStream.deleteData : EntryStream :=
  if stream.dataAddr.isInitialized then
    { stream.modifyStorageSize (stream.dataSize - stream.unreportedSize) 0 with
      dataAddr := 0
      dataSize := 0 }
  else stream

/-- `GetData`, which takes the blocks away from a stream without a buffer. -/
def EntryStream.getData : EntryStream :=
  if stream.buffered then stream else stream.deleteData

def EntryStream.reopen : EntryStream := { stream with unreportedSize := 0, buffered := false }

end Streams

/-- What reaches the record of the rankings node: the node with a value of its dirty flag, or zeros
when the entry is deleted. -/
inductive NodeStore
  | dirty (value : Int)
  | erased
deriving DecidableEq

/-- `node` is the dirty flag in memory, where the node has data. -/
structure EntryImpl where
  streams : Fin 3 → EntryStream
  doomed : Bool
  parent : Bool
  node : Option Int
  currentEntryId : Int
  maxFileSize : Int

def EntryImpl.new (currentEntryId maxFileSize : Int) : EntryImpl :=
  ⟨fun _ => .new, false, false, some currentEntryId, currentEntryId, maxFileSize⟩

def kSparseIndex : Fin 3 := 2

def kSparseData : Fin 3 := 1

def sparseHeaderSize : Int := 64

def sparseDataSize : Int := sparseHeaderSize + 1024 / 8

def EntryImpl.writeData (entry : EntryImpl) (index : Int) (offset bufLen : Int32) (truncate : Bool)
    (outcomes : Outcomes) : EntryImpl × Except NetError Int :=
  if valid : 0 ≤ index ∧ index < 3 then
    let index : Fin 3 := ⟨index.toNat, by omega⟩
    let (stream, result) := (entry.streams index).writeData entry.maxFileSize offset.toInt
      bufLen.toInt truncate outcomes
    ({ entry with streams := fun i => if i = index then stream else entry.streams i }, result)
  else (entry, .error .invalidArgument)

def EntryImpl.internalDoom (entry : EntryImpl) : EntryImpl :=
  { entry with
    node := entry.node.map fun dirty => if dirty = 0 then entry.currentEntryId else dirty
    doomed := true }

def EntryImpl.deleteChildren (entry : EntryImpl) : EntryImpl :=
  let dataLen := (entry.streams kSparseIndex).dataSize
  if dataLen < sparseDataSize ∨ (entry.streams kSparseData).dataSize ≠ 0 then entry
  else if 8 * 1024 < dataLen - sparseHeaderSize ∨ (dataLen - sparseHeaderSize) % 4 ≠ 0 then entry
  else
    { entry with
      streams := fun i =>
        if i = kSparseIndex then (entry.streams i).getData else entry.streams i }

def EntryImpl.deleteEntryData (entry : EntryImpl) : EntryImpl :=
  let entry := if entry.parent then entry.deleteChildren else entry
  { entry with streams := fun i => (entry.streams i).deleteData }

/-- The value of `ret` behind the loop of the destructor. -/
def flushesResult : List (Option Bool) → Bool → Bool
  | [], ret => ret
  | none :: flushes, ret => flushesResult flushes ret
  | some flushed :: flushes, _ => flushesResult flushes flushed

/-- The map of children is written first, where `sparse` has its length. -/
def EntryImpl.resetSparse (entry : EntryImpl) (sparse : Option (Int32 × Outcomes)) : EntryImpl :=
  match sparse with
  | none => entry
  | some (len, outcomes) => (entry.writeData 2 64 len false outcomes).1

def EntryImpl.closeStreams (entry : EntryImpl) (outcomes : Fin 3 → Outcomes) :
    EntryImpl × Option NodeStore :=
  if entry.doomed then (entry.deleteEntryData, some .erased)
  else
    let closed := fun i => (entry.streams i).close entry.maxFileSize (outcomes i)
    let ret := flushesResult [(closed 0).2, (closed 1).2, (closed 2).2] true
    let entry := { entry with streams := fun i => (closed i).1 }
    if !ret then
      let dirty := if entry.currentEntryId = 1 then -1 else entry.currentEntryId - 1
      ({ entry with node := some dirty }, some (.dirty dirty))
    else
      match entry.node with
      | none => (entry, none)
      | some dirty =>
        if dirty ≠ 0 then ({ entry with node := some 0 }, some (.dirty 0)) else (entry, none)

def EntryImpl.destroy (entry : EntryImpl) (sparse : Option (Int32 × Outcomes))
    (outcomes : Fin 3 → Outcomes) : EntryImpl × Option NodeStore :=
  (entry.resetSparse sparse).closeStreams outcomes

def EntryImpl.reopen (entry : EntryImpl) (currentEntryId : Int) : EntryImpl :=
  { entry with
    streams := fun i => (entry.streams i).reopen
    node := some currentEntryId
    currentEntryId := currentEntryId }

/-- What `Flush` needs to succeed in the destructor. -/
def EntryStream.Flushes (stream : EntryStream) (maxFileSize : Int) (outcomes : Outcomes) : Prop :=
  stream.dataSize = 0 ∨ (createBlock maxFileSize stream.dataSize outcomes.allocated).isSome = true ∧
      outcomes.flushed = true

theorem flush_iff (stream : EntryStream) (maxFileSize : Int) (outcomes : Outcomes) :
    (stream.flush maxFileSize stream.dataSize outcomes).2 = true ↔ stream.Flushes maxFileSize outcomes := by
  rw [EntryStream.flush, EntryStream.Flushes]
  by_cases empty : stream.dataSize = 0
  · rw [if_pos empty]
    exact ⟨fun _ => Or.inl empty, fun _ => rfl⟩
  rw [if_neg empty, EntryStream.createDataBlock]
  cases createBlock maxFileSize stream.dataSize outcomes.allocated with
  | none =>
    constructor
    · intro ok
      cases ok
    · rintro (zero | ⟨none, -⟩)
      · exact absurd zero empty
      · cases none
  | some address =>
    simp only
    cases outcomes.flushed with
    | false =>
      constructor
      · intro ok
        cases ok
      · rintro (zero | ⟨-, failed⟩)
        · exact absurd zero empty
        · cases failed
    | true => exact ⟨fun _ => Or.inr ⟨rfl, rfl⟩, fun _ => rfl⟩

instance (stream : EntryStream) (maxFileSize : Int) (outcomes : Outcomes) :
    Decidable (stream.Flushes maxFileSize outcomes) :=
  inferInstanceAs (Decidable (_ ∨ _))

def EntryImpl.flushes (entry : EntryImpl) (outcomes : Fin 3 → Outcomes) : List (Option Bool) :=
  (List.finRange 3).map fun i =>
    if (entry.streams i).buffered then
      some (decide ((entry.streams i).Flushes entry.maxFileSize (outcomes i)))
    else none

def MasksFailure (flushes : List (Option Bool)) : Prop :=
  ∃ before behind, flushes = before ++ some true :: behind ∧ some false ∈ before ∧
    ∀ flush ∈ behind, flush = none

theorem flushesResult_quiet {flushes : List (Option Bool)} (quiet : ∀ flush ∈ flushes, flush = none)
    (ret : Bool) : flushesResult flushes ret = ret := by
  induction flushes with
  | nil => rfl
  | cons flush flushes ih =>
    rw [quiet flush mem_cons_self, flushesResult]
    exact ih fun later known => quiet later (mem_cons_of_mem _ known)

theorem flushesResult_last {before behind : List (Option Bool)} {flushed : Bool}
    (quiet : ∀ flush ∈ behind, flush = none) (ret : Bool) :
    flushesResult (before ++ some flushed :: behind) ret = flushed := by
  induction before generalizing ret with
  | nil => exact flushesResult_quiet quiet flushed
  | cons flush before ih =>
    cases flush with
    | none => exact ih ret
    | some other => exact ih other

theorem flushes_last (flushes : List (Option Bool)) : (∀ flush ∈ flushes, flush = none) ∨
      ∃ before flushed behind, flushes = before ++ some flushed :: behind ∧ ∀ flush ∈ behind, flush = none := by
  induction flushes with
  | nil => exact Or.inl fun _ known => absurd known not_mem_nil
  | cons flush flushes ih =>
    rcases ih with quiet | ⟨before, flushed, behind, rfl, quiet⟩
    · cases flush with
      | none => exact Or.inl (forall_mem_cons.mpr ⟨rfl, quiet⟩)
      | some flushed => exact Or.inr ⟨[], flushed, flushes, rfl, quiet⟩
    · exact Or.inr ⟨flush :: before, flushed, behind, rfl, quiet⟩

theorem flushesResult_masks (flushes : List (Option Bool)) :
    (flushesResult flushes true = true ∧ some false ∈ flushes) ↔ MasksFailure flushes := by
  constructor
  · rintro ⟨result, failed⟩
    rcases flushes_last flushes with quiet | ⟨before, flushed, behind, rfl, quiet⟩
    · cases quiet _ failed
    · rw [flushesResult_last quiet] at result
      rw [result] at failed ⊢
      refine ⟨before, behind, rfl, ?_, quiet⟩
      rcases mem_append.mp failed with earlier | later
      · exact earlier
      · rcases mem_cons.mp later with same | behind
        · cases same
        · cases quiet _ behind
  · rintro ⟨before, behind, rfl, failed, quiet⟩
    exact ⟨flushesResult_last quiet true, mem_append_left _ failed⟩

theorem close_flushes (entry : EntryImpl) (outcomes : Fin 3 → Outcomes) :
    [((entry.streams 0).close entry.maxFileSize (outcomes 0)).2,
      ((entry.streams 1).close entry.maxFileSize (outcomes 1)).2,
      ((entry.streams 2).close entry.maxFileSize (outcomes 2)).2] = entry.flushes outcomes := by
  have one : ∀ i, ((entry.streams i).close entry.maxFileSize (outcomes i)).2 =
      if (entry.streams i).buffered then
        some (decide ((entry.streams i).Flushes entry.maxFileSize (outcomes i)))
      else none := by
    intro i
    rw [EntryStream.close]
    split
    · exact congrArg some (Bool.eq_iff_iff.mpr ((flush_iff _ _ _).trans decide_eq_true_iff.symm))
    · split <;> rfl
  rw [one, one, one]
  rfl

theorem failed_flush_iff (entry : EntryImpl) (outcomes : Fin 3 → Outcomes) :
    some false ∈ entry.flushes outcomes ↔ ¬ ∀ i, (entry.streams i).buffered = true →
        (entry.streams i).Flushes entry.maxFileSize (outcomes i) := by
  rw [EntryImpl.flushes, List.mem_map, Classical.not_forall]
  constructor
  · rintro ⟨i, -, failed⟩
    refine ⟨i, fun saved => ?_⟩
    split at failed
    · rename_i buffered
      rw [decide_eq_true (saved buffered)] at failed
      cases failed
    · cases failed
  · rintro ⟨i, unsaved⟩
    obtain ⟨buffered, failed⟩ := Classical.not_imp.mp unsaved
    exact ⟨i, mem_finRange i, by rw [if_pos buffered, decide_eq_false failed]⟩

/-- A node that is stored as clean has all of its streams saved, unless the last flush hides the
failure of another one. -/
theorem clean_flag_saved_iff (entry : EntryImpl) (sparse : Option (Int32 × Outcomes))
    (outcomes : Fin 3 → Outcomes) : ((entry.destroy sparse outcomes).2 = some (.dirty 0) →
      ∀ i, ((entry.resetSparse sparse).streams i).buffered = true →
        ((entry.resetSparse sparse).streams i).Flushes (entry.resetSparse sparse).maxFileSize (outcomes i)) ↔
    ¬ ((entry.resetSparse sparse).doomed = false ∧
      (∃ dirty, (entry.resetSparse sparse).node = some dirty ∧ dirty ≠ 0) ∧
      MasksFailure ((entry.resetSparse sparse).flushes outcomes)) := by
  rw [EntryImpl.destroy]
  generalize entry.resetSparse sparse = entry
  rw [← flushesResult_masks, failed_flush_iff, ← not_iff_not, Classical.not_not, Classical.not_imp]
  have stored : (entry.closeStreams outcomes).2 = some (.dirty 0) ↔ entry.doomed = false ∧
      (∃ dirty, entry.node = some dirty ∧ dirty ≠ 0) ∧
      flushesResult (entry.flushes outcomes) true = true := by
    rw [EntryImpl.closeStreams, ← close_flushes]
    cases entry.doomed with
    | true =>
      constructor
      · intro erased
        cases erased
      · rintro ⟨alive, -⟩
        cases alive
    | false =>
      simp only [Bool.false_eq_true, if_false]
      cases flushesResult _ true with
      | false =>
        constructor
        · intro failed
          exfalso
          simp only [Bool.not_false, if_true, Option.some.injEq, NodeStore.dirty.injEq] at failed
          split at failed <;> omega
        · rintro ⟨-, -, failed⟩
          cases failed
      | true =>
        cases entry.node with
        | none =>
          constructor
          · intro nothing
            cases nothing
          · rintro ⟨-, ⟨dirty, missing, -⟩, -⟩
            cases missing
        | some dirty =>
          by_cases clean : dirty = 0
          · simp [clean]
          · simp [clean]
  rw [stored]
  constructor
  · rintro ⟨⟨alive, marked, result⟩, unsaved⟩
    exact ⟨alive, marked, result, unsaved⟩
  · rintro ⟨alive, marked, result, unsaved⟩
    exact ⟨⟨alive, marked, result⟩, unsaved⟩

/-- The block for the headers cannot be made, and the one for the body can. -/
theorem later_flush_hides_failure : ¬ ∀ (entry : EntryImpl) (sparse : Option (Int32 × Outcomes))
    (outcomes : Fin 3 → Outcomes), (entry.destroy sparse outcomes).2 = some (.dirty 0) →
      ∀ i, ((entry.resetSparse sparse).streams i).buffered = true →
        ((entry.resetSparse sparse).streams i).Flushes (entry.resetSparse sparse).maxFileSize (outcomes i) := by
  intro claim
  let written := ((EntryImpl.new 7 1000).writeData 0 0 5 false .fine).1
  exact absurd (claim (written.writeData 1 0 9 false .fine).1 none
    (fun i => if i = 0 then { Outcomes.fine with allocated := none } else .fine) (by decide) 0
    (by decide)) (by decide)

end Glopen.Cache

import Mathlib.Algebra.Order.Group.Int
import Mathlib.Algebra.BigOperators.Group.List.Basic
import Mathlib.Algebra.Ring.Int.Defs
import Glopen.Cache.EntryImpl

/-! What is reported for the streams of an entry over its lifetimes. -/
namespace Glopen.Cache

open List Option
variable {maxFileSize : Int} {stream : EntryStream} {bound : Int} {outcomes : Outcomes}

section Accounting

def EntryStream.reported (stream : EntryStream) : Int :=
  (stream.reports.map fun report => report.2 - report.1).sum

structure EntryStream.Sound (stream : EntryStream) (bound : Int) : Prop where
  accounted : stream.reported = stream.dataSize - stream.unreportedSize
  buffer : stream.buffered = true →
    stream.dataAddr.isInitialized = false ∧ stream.unreportedSize = stream.dataSize
  empty : stream.dataAddr.isInitialized = false → stream.buffered = false →
    stream.dataSize = 0 ∧ stream.unreportedSize = 0
  checked : ∀ held ∈ stream.checks, held = true
  sized : 0 ≤ stream.dataSize ∧ stream.dataSize ≤ bound
  fits : 0 ≤ stream.reported ∧ stream.reported ≤ bound

theorem initialized_or (addr : CacheAddr) : (addr ||| 0x80000000).isInitialized = true := by
  rw [CacheAddr.isInitialized, decide_eq_true_iff]
  intro clear
  have bit := congrArg (fun word : UInt32 => word.toNat.testBit 31) clear
  have top : Nat.testBit 2147483648 31 = true := by decide
  simp [UInt32.toNat_and, UInt32.toNat_or, Nat.testBit_and, Nat.testBit_or, top] at bit

variable {size offset bufLen : Int}

theorem createBlock_initialized {allocated : Option UInt32}
    {address : CacheAddr} (created : createBlock maxFileSize size allocated = some address) :
    address.isInitialized = true := by
  rw [createBlock] at created
  simp only at created
  split at created
  · split at created
    · cases created
    · obtain ⟨fileNumber, -, rfl⟩ := map_eq_some_iff.mp created
      exact initialized_or _
  · obtain ⟨place, -, rfl⟩ := map_eq_some_iff.mp created
    exact initialized_or _

theorem reported_modify (stream : EntryStream) (oldSize newSize : Int) :
    (stream.modifyStorageSize oldSize newSize).reported = stream.reported + (newSize - oldSize) := by
  rw [EntryStream.reported, EntryStream.reported, EntryStream.modifyStorageSize, map_append,
    sum_append, map_singleton, sum_singleton]

theorem EntryStream.Sound.new (positive : 0 ≤ bound) : EntryStream.new.Sound bound := by
  constructor
  · rfl
  · intro buffered
    cases buffered
  · exact fun _ _ => ⟨rfl, rfl⟩
  · intro held known
    cases known
  · exact ⟨Int.le_refl 0, positive⟩
  · exact ⟨Int.le_refl 0, positive⟩

theorem EntryStream.Sound.check (sound : stream.Sound bound) (holds : Bool)
    (held : holds = true) : (stream.check holds).Sound bound := by
  refine { sound with checked := fun one known => ?_ }
  rcases mem_append.mp known with old | last
  · exact sound.checked one old
  · rw [mem_singleton.mp last, held]

/-- What a helper leaves of a stream, and that it is ready for the write unless the helper fails. -/
structure EntryStream.Prepared (before stream : EntryStream) (bound size : Int) (ok : Bool) : Prop where
  sound : stream.Sound bound
  ready : ok = true → stream.dataAddr.isInitialized = true ∨ stream.buffered = true
  same : stream.dataSize = before.dataSize ∨ stream.dataSize = size ∧ size < before.dataSize

theorem moveToLocalBuffer_prepared (sound : stream.Sound bound)
    (initialized : stream.dataAddr.isInitialized = true) (moved : Bool) (size : Int) :
    stream.Prepared (stream.moveToLocalBuffer moved).1 bound size (stream.moveToLocalBuffer moved).2 ∧
      ((stream.moveToLocalBuffer moved).2 = true → (stream.moveToLocalBuffer moved).1.buffered = true) := by
  have unbuffered : stream.buffered = false := by
    by_contra buffered
    rw [Bool.not_eq_false] at buffered
    exact absurd (sound.buffer buffered).1 (by rw [initialized]; exact Bool.noConfusion)
  have checked := (sound.check (!stream.buffered) (by rw [unbuffered]; rfl)).check
    stream.dataAddr.isInitialized initialized
  have accounted := sound.accounted
  have sized := sound.sized
  rw [EntryStream.moveToLocalBuffer]
  cases moved with
  | false => exact ⟨⟨checked, fun ok => Bool.noConfusion ok, .inl rfl⟩, fun ok => Bool.noConfusion ok⟩
  | true =>
    have cleared : (0 : CacheAddr).isInitialized = false := by decide
    have reported : stream.reported + (0 - (stream.dataSize - stream.unreportedSize)) = 0 := by
      omega
    refine ⟨⟨?_, fun _ => .inr rfl, .inl rfl⟩, fun _ => rfl⟩
    constructor
    · exact (reported_modify stream _ _).trans (reported.trans (Int.sub_self _).symm)
    · exact fun _ => ⟨cleared, rfl⟩
    · exact fun _ buffered => Bool.noConfusion buffered
    · exact checked.checked
    · exact sized
    · have none := (reported_modify stream (stream.dataSize - stream.unreportedSize) 0).trans reported
      exact ⟨none.ge, none.le.trans (sized.1.trans sized.2)⟩

theorem importSeparateFile_prepared (sound : stream.Sound bound)
    (initialized : stream.dataAddr.isInitialized = true) (positive : 0 ≤ offset + bufLen) (moved : Bool) :
    stream.Prepared (stream.importSeparateFile offset bufLen moved).1 bound (offset + bufLen)
      (stream.importSeparateFile offset bufLen moved).2 := by
  rw [EntryStream.importSeparateFile]
  by_cases shorter : offset + bufLen < stream.dataSize
  · rw [if_pos shorter]
    have accounted := sound.accounted
    have cut : EntryStream.Sound { stream with
        unreportedSize := stream.unreportedSize + (offset + bufLen - stream.dataSize)
        dataSize := offset + bufLen } bound := by
      constructor
      · change stream.reported = offset + bufLen - (_ + (offset + bufLen - stream.dataSize))
        omega
      · intro buffered
        rw [(sound.buffer buffered).1] at initialized
        cases initialized
      · intro missing
        rw [initialized] at missing
        cases missing
      · exact sound.checked
      · exact ⟨positive, shorter.le.trans sound.sized.2⟩
      · exact sound.fits
    have prepared := (moveToLocalBuffer_prepared cut initialized moved (offset + bufLen)).1
    refine ⟨prepared.sound, prepared.ready, .inr ⟨?_, shorter⟩⟩
    rcases prepared.same with same | ⟨same, -⟩
    · exact same
    · exact same
  · rw [if_neg shorter]
    exact (moveToLocalBuffer_prepared sound initialized moved (offset + bufLen)).1

theorem flush_prepared (maxFileSize size : Int) (sound : stream.Sound bound)
    (buffered : stream.buffered = true) (flushed : outcomes.flushed = true) :
    (stream.flush maxFileSize size outcomes).1.Sound bound ∧
      ((stream.flush maxFileSize size outcomes).1.dataAddr.isInitialized = true ∨
        (stream.flush maxFileSize size outcomes).1.buffered = true) ∧
      (stream.flush maxFileSize size outcomes).1.dataSize = stream.dataSize ∧
      ((stream.flush maxFileSize size outcomes).2 = true →
        (stream.flush maxFileSize size outcomes).1.unreportedSize =
          if size = 0 then stream.unreportedSize else 0) := by
  obtain ⟨uninitialized, unreported⟩ := sound.buffer buffered
  have checked := (sound.check stream.buffered buffered).check
    (!stream.dataAddr.isInitialized) (by rw [uninitialized]; rfl)
  rw [EntryStream.flush]
  by_cases empty : size = 0
  · rw [if_pos empty]
    exact ⟨checked, .inr buffered, rfl, fun _ => (if_pos empty).symm⟩
  rw [if_neg empty, EntryStream.createDataBlock]
  cases created : createBlock maxFileSize size outcomes.allocated with
  | none => exact ⟨checked, .inr buffered, rfl, fun ok => Bool.noConfusion ok⟩
  | some address =>
    have initialized := createBlock_initialized created
    have accounted := sound.accounted
    have reported : stream.reported + (stream.dataSize - 0) = stream.dataSize := by omega
    have same := (reported_modify stream 0 stream.dataSize).trans reported
    simp only [flushed]
    refine ⟨?_, .inl initialized, rfl, fun _ => (if_neg empty).symm⟩
    constructor
    · exact same.trans (Int.sub_zero _).symm
    · exact fun buffered => Bool.noConfusion buffered
    · intro missing
      exact absurd (missing.symm.trans initialized) Bool.noConfusion
    · exact (checked.check (stream.dataSize = stream.unreportedSize) (decide_eq_true unreported.symm)).checked
    · exact sound.sized
    · exact ⟨sound.sized.1.trans same.ge, same.le.trans sound.sized.2⟩

theorem EntryStream.Prepared.refl (sound : stream.Sound bound) {ok : Bool}
    (ready : stream.dataAddr.isInitialized = true ∨ stream.buffered = true) :
    stream.Prepared stream bound size ok := ⟨sound, fun _ => ready, .inl rfl⟩

variable {truncate : Bool}

theorem growUserBuffer_prepared (sound : stream.Sound bound)
    (ready : stream.dataAddr.isInitialized = true ∨ stream.buffered = true)
    (positive : 0 ≤ offset + bufLen) (flushed : outcomes.flushed = true) :
    stream.Prepared (stream.growUserBuffer maxFileSize offset bufLen truncate outcomes).1 bound
      (offset + bufLen) (stream.growUserBuffer maxFileSize offset bufLen truncate outcomes).2 := by
  rw [EntryStream.growUserBuffer]
  by_cases large : kMaxBlockSize < offset + bufLen
  · rw [if_pos large]
    by_cases initialized : stream.dataAddr.isInitialized = true
    · rw [if_pos initialized]
      by_cases separate : stream.dataAddr.isSeparateFile = true
      · rw [if_pos separate]
        exact .refl sound ready
      rw [if_neg separate]
      obtain ⟨prepared, buffered⟩ := moveToLocalBuffer_prepared sound initialized outcomes.moved
        (offset + bufLen)
      generalize stream.moveToLocalBuffer outcomes.moved = moved at prepared buffered ⊢
      obtain ⟨moved, ok⟩ := moved
      cases ok with
      | false => exact prepared
      | true =>
        obtain ⟨kept, usable, same, -⟩ := flush_prepared maxFileSize (offset + bufLen)
          prepared.sound (buffered rfl) flushed
        exact ⟨kept, fun _ => usable, by rw [same]; exact prepared.same⟩
    · rw [if_neg initialized]
      have buffered := ready.resolve_left initialized
      obtain ⟨kept, usable, same, -⟩ := flush_prepared maxFileSize (offset + bufLen) sound buffered flushed
      exact ⟨kept, fun _ => usable, .inl same⟩
  rw [if_neg large]
  by_cases initialized : stream.dataAddr.isInitialized = true
  · rw [if_neg (by rw [initialized]; decide)]
    by_cases separate : stream.dataAddr.isSeparateFile = true
    · rw [if_pos separate]
      cases truncate with
      | false => exact .refl sound ready
      | true => exact importSeparateFile_prepared sound initialized positive outcomes.moved
    rw [if_neg separate]
    split
    · exact .refl sound ready
    · exact (moveToLocalBuffer_prepared sound initialized outcomes.moved (offset + bufLen)).1
  · have buffered := ready.resolve_left initialized
    rw [Bool.not_eq_true] at initialized
    rw [if_pos (by rw [initialized]; rfl)]
    exact ⟨sound.check _ buffered, fun _ => ready, .inl rfl⟩

variable (maxFileSize truncate) in
theorem prepareTarget_prepared (sound : stream.Sound bound) (positive : 0 ≤ offset + bufLen)
    (flushed : outcomes.flushed = true) :
    stream.Prepared (stream.prepareTarget maxFileSize offset bufLen truncate outcomes).1 bound
      (offset + bufLen) (stream.prepareTarget maxFileSize offset bufLen truncate outcomes).2 := by
  rw [EntryStream.prepareTarget]
  by_cases ready : stream.dataAddr.isInitialized = true ∨ stream.buffered = true
  · rw [if_pos ready]
    exact growUserBuffer_prepared sound ready positive flushed
  rw [if_neg ready]
  rw [not_or, Bool.not_eq_true, Bool.not_eq_true] at ready
  obtain ⟨size, unreported⟩ := sound.empty ready.1 ready.2
  split
  · rw [EntryStream.createDataBlock]
    cases created : createBlock maxFileSize (offset + bufLen) outcomes.allocated with
    | none => exact ⟨sound, fun ok => Bool.noConfusion ok, .inl rfl⟩
    | some address =>
      have initialized := createBlock_initialized created
      refine ⟨{ sound with buffer := ?_, empty := ?_ }, fun _ => .inl initialized, .inl rfl⟩
      · intro buffered
        exact absurd (ready.2.symm.trans buffered) Bool.noConfusion
      · intro missing
        exact absurd (missing.symm.trans initialized) Bool.noConfusion
  · refine ⟨{ sound with buffer := ?_, empty := ?_ }, fun _ => .inr rfl, .inl rfl⟩
    · exact fun _ => ⟨ready.1, unreported.trans size.symm⟩
    · exact fun _ buffered => Bool.noConfusion buffered

variable (truncate) in
theorem resize_sound {prepared : EntryStream} (holds : stream.Prepared prepared bound (offset + bufLen) true)
    (positive : 0 ≤ offset + bufLen) (below : offset + bufLen ≤ bound) :
    (prepared.resize stream.dataSize offset bufLen truncate).1.Sound bound := by
  have changed : prepared.dataSize = stream.dataSize → EntryStream.Sound { prepared with
      unreportedSize := prepared.unreportedSize + (offset + bufLen - stream.dataSize)
      dataSize := offset + bufLen } bound := by
    intro same
    have accounted := holds.sound.accounted
    constructor
    · change prepared.reported = offset + bufLen - (_ + (offset + bufLen - stream.dataSize))
      omega
    · intro buffered
      obtain ⟨uninitialized, unreported⟩ := holds.sound.buffer buffered
      refine ⟨uninitialized, ?_⟩
      change _ + (offset + bufLen - stream.dataSize) = offset + bufLen
      omega
    · intro missing unbuffered
      rcases holds.ready rfl with initialized | buffered
      · exact absurd (missing.symm.trans initialized) Bool.noConfusion
      · exact absurd (unbuffered.symm.trans buffered) Bool.noConfusion
    · exact holds.sound.checked
    · exact ⟨positive, below⟩
    · exact holds.sound.fits
  rw [EntryStream.resize]
  by_cases longer : stream.dataSize < offset + bufLen
  · rw [if_pos longer]
    rcases holds.same with same | ⟨-, shorter⟩
    · exact changed same
    · omega
  rw [if_neg longer]
  cases truncate with
  | false => exact holds.sound
  | true =>
    rw [if_pos rfl]
    by_cases shorter : offset + bufLen < stream.dataSize ∧ stream.dataSize = prepared.dataSize
    · rw [if_pos shorter]
      exact changed shorter.2.symm
    · rw [if_neg shorter]
      exact holds.sound

theorem EntryStream.Sound.writeData (sound : stream.Sound (max 0 maxFileSize))
    (flushed : outcomes.flushed = true) :
    (stream.writeData maxFileSize offset bufLen truncate outcomes).1.Sound (max 0 maxFileSize) := by
  rw [EntryStream.writeData]
  by_cases invalid : offset < 0 ∨ bufLen < 0
  · rw [if_pos invalid]
    exact sound
  rw [if_neg invalid]
  by_cases large : maxFileSize < offset ∨ maxFileSize < bufLen ∨ maxFileSize < offset + bufLen
  · rw [if_pos large]
    exact sound
  rw [if_neg large]
  have prepared := prepareTarget_prepared maxFileSize truncate sound (by omega : 0 ≤ offset + bufLen) flushed
  generalize stream.prepareTarget maxFileSize offset bufLen truncate outcomes = target at prepared ⊢
  obtain ⟨target, ok⟩ := target
  cases ok with
  | false => exact prepared.sound
  | true =>
    have resized := resize_sound truncate prepared (by omega) (by omega)
    simp only
    split
    · exact resized
    split
    · exact resized
    split
    · exact resized
    split
    · exact resized
    split <;> exact resized

end Accounting

section Lifetimes

/-- Nothing fails that `Flush` does in the destructor. -/
structure Outcomes.NoFailure (outcomes : Outcomes) : Prop where
  allocated : outcomes.allocated.isSome = true
  flushed : outcomes.flushed = true

theorem EntryStream.Sound.flushes (sound : stream.Sound (max 0 maxFileSize))
    (noFailure : outcomes.NoFailure) : stream.Flushes maxFileSize outcomes := by
  by_cases empty : stream.dataSize = 0
  · exact .inl empty
  · refine .inr ⟨?_, noFailure.flushed⟩
    have sized := sound.sized
    rw [createBlock]
    simp only
    split
    · rw [if_neg (by omega), isSome_map, noFailure.allocated]
    · rw [isSome_map, noFailure.allocated]

structure EntryStream.Closed (stream closed : EntryStream) : Prop where
  same : closed.dataSize = stream.dataSize
  reported : closed.reported = closed.dataSize
  stored : closed.dataAddr.isInitialized = false → closed.dataSize = 0
  checked : ∀ held ∈ closed.checks, held = true

theorem EntryStream.Sound.close (sound : stream.Sound (max 0 maxFileSize)) (noFailure : outcomes.NoFailure) :
    stream.Closed (stream.close maxFileSize outcomes).1 := by
  rw [EntryStream.close]
  by_cases buffered : stream.buffered = true
  · rw [if_pos buffered]
    obtain ⟨kept, -, same, unreported⟩ := flush_prepared maxFileSize stream.dataSize
      sound buffered noFailure.flushed
    rw [(flush_iff stream maxFileSize outcomes).mpr (sound.flushes noFailure)] at unreported
    generalize stream.flush maxFileSize stream.dataSize outcomes = flushed at kept same unreported ⊢
    have accounted := kept.accounted
    have none_left : flushed.1.unreportedSize = 0 := by
      rw [unreported rfl]
      split
      · rename_i empty
        rw [(sound.buffer buffered).2, empty]
      · rfl
    have reported : flushed.1.reported = flushed.1.dataSize := by omega
    refine ⟨same, reported, fun missing => ?_, kept.checked⟩
    by_cases still : flushed.1.buffered = true
    · exact (kept.buffer still).2.symm.trans none_left
    · exact (kept.empty missing (Bool.not_eq_true _ ▸ still)).1
  rw [if_neg buffered]
  rw [Bool.not_eq_true] at buffered
  have accounted := sound.accounted
  by_cases unreported : stream.unreportedSize = 0
  · rw [if_neg (not_not.mpr unreported)]
    have reported : stream.reported = stream.dataSize := by omega
    exact ⟨rfl, reported, fun missing => (sound.empty missing buffered).1, sound.checked⟩
  · rw [if_pos unreported]
    have reported : stream.reported + (stream.dataSize - (stream.dataSize - stream.unreportedSize)) =
        stream.dataSize := by
      omega
    exact ⟨rfl, (reported_modify stream _ _).trans reported,
      fun missing => (sound.empty missing buffered).1, sound.checked⟩

theorem EntryStream.Closed.reopen {closed : EntryStream} (left : stream.Closed closed)
    (sized : 0 ≤ stream.dataSize ∧ stream.dataSize ≤ bound) : closed.reopen.Sound bound := by
  rw [← left.same] at sized
  constructor
  · exact left.reported.trans (Int.sub_zero _).symm
  · exact fun buffered => Bool.noConfusion buffered
  · exact fun missing _ => ⟨left.stored missing, rfl⟩
  · exact left.checked
  · exact sized
  · exact ⟨left.reported ▸ sized.1, left.reported ▸ sized.2⟩

theorem EntryStream.Sound.deleteData (sound : stream.Sound bound) :
    stream.deleteData.reported = 0 ∧ stream.deleteData.dataAddr.isInitialized = false ∧
      stream.deleteData.checks = stream.checks := by
  have accounted := sound.accounted
  rw [EntryStream.deleteData]
  by_cases initialized : stream.dataAddr.isInitialized = true
  · rw [if_pos initialized]
    have reported : stream.reported + (0 - (stream.dataSize - stream.unreportedSize)) = 0 := by
      omega
    have cleared : (0 : CacheAddr).isInitialized = false := by decide
    exact ⟨(reported_modify stream _ _).trans reported, cleared, rfl⟩
  · rw [if_neg initialized]
    rw [Bool.not_eq_true] at initialized
    refine ⟨?_, initialized, rfl⟩
    by_cases buffered : stream.buffered = true
    · have unreported := (sound.buffer buffered).2
      omega
    · have nothing := sound.empty initialized (Bool.not_eq_true _ ▸ buffered)
      omega

variable {entry : EntryImpl}

theorem deleteEntryData_reported (sound : ∀ i, (entry.streams i).Sound bound) (i : Fin 3) :
    (entry.deleteEntryData.streams i).reported = 0 ∧
      (entry.deleteEntryData.streams i).checks = (entry.streams i).checks := by
  have once : (entry.streams i).deleteData.reported = 0 ∧
      (entry.streams i).deleteData.checks = (entry.streams i).checks :=
    ⟨(sound i).deleteData.1, (sound i).deleteData.2.2⟩
  have twice : (entry.streams i).getData.deleteData = (entry.streams i).deleteData := by
    rw [EntryStream.getData]
    split
    · rfl
    · rw [EntryStream.deleteData, (sound i).deleteData.2.1, if_neg Bool.false_ne_true]
  rw [EntryImpl.deleteEntryData]
  simp only
  split
  · rw [EntryImpl.deleteChildren]
    split
    · exact once
    split
    · exact once
    simp only
    split
    · rw [twice]
      exact once
    · exact once
  · exact once

/-- The states of an open entry from its creation on. A write can fail everywhere but in the file of
a flush. A new lifetime starts with what a destructor without failures has left. -/
inductive EntryImpl.Reachable (maxFileSize : Int) : EntryImpl → Prop where
  | created (currentEntryId : Int) : Reachable maxFileSize (.new currentEntryId maxFileSize)
  | written {entry : EntryImpl} (index : Int) (offset bufLen : Int32) (truncate : Bool)
      {outcomes : Outcomes} : Reachable maxFileSize entry → outcomes.flushed = true →
      Reachable maxFileSize (entry.writeData index offset bufLen truncate outcomes).1
  | sparse {entry : EntryImpl} : Reachable maxFileSize entry →
      Reachable maxFileSize { entry with parent := true }
  | doomed {entry : EntryImpl} : Reachable maxFileSize entry → Reachable maxFileSize entry.internalDoom
  | reopened {entry : EntryImpl} {outcomes : Fin 3 → Outcomes} (currentEntryId : Int) :
      Reachable maxFileSize entry → entry.doomed = false → (∀ i, (outcomes i).NoFailure) →
      Reachable maxFileSize ((entry.closeStreams outcomes).1.reopen currentEntryId)

theorem closeStreams_streams (alive : entry.doomed = false) (outcomes : Fin 3 → Outcomes) :
    (entry.closeStreams outcomes).1.maxFileSize = entry.maxFileSize ∧
      ∀ i, (entry.closeStreams outcomes).1.streams i =
        ((entry.streams i).close entry.maxFileSize (outcomes i)).1 := by
  rw [EntryImpl.closeStreams, alive, if_neg Bool.false_ne_true]
  simp only
  split
  · exact ⟨rfl, fun _ => rfl⟩
  split
  · exact ⟨rfl, fun _ => rfl⟩
  split <;> exact ⟨rfl, fun _ => rfl⟩

theorem writeData_sound (limit : entry.maxFileSize = maxFileSize)
    (sound : ∀ i, (entry.streams i).Sound (max 0 maxFileSize)) (index : Int) (offset bufLen : Int32)
    (truncate : Bool) (flushed : outcomes.flushed = true) :
    (entry.writeData index offset bufLen truncate outcomes).1.maxFileSize = maxFileSize ∧
      ∀ i, ((entry.writeData index offset bufLen truncate outcomes).1.streams i).Sound (max 0 maxFileSize) := by
  rw [EntryImpl.writeData]
  split
  · refine ⟨limit, fun i => ?_⟩
    simp only
    split
    · rw [limit]
      exact (sound _).writeData flushed
    · exact sound i
  · exact ⟨limit, sound⟩

theorem reachable_sound (reachable : entry.Reachable maxFileSize) :
    entry.maxFileSize = maxFileSize ∧ ∀ i, (entry.streams i).Sound (max 0 maxFileSize) := by
  induction reachable with
  | created => exact ⟨rfl, fun _ => .new (le_max_left 0 maxFileSize)⟩
  | written index offset bufLen truncate _ flushed ih =>
    exact writeData_sound ih.1 ih.2 index offset bufLen truncate flushed
  | sparse _ ih => exact ih
  | doomed _ ih => exact ih
  | @reopened entry outcomes _ _ alive noFailure ih =>
    obtain ⟨limit, streams⟩ := closeStreams_streams alive outcomes
    refine ⟨limit.trans ih.1, fun i => ?_⟩
    have closed := (ih.2 i).close (noFailure i)
    rw [← ih.1, ← streams i] at closed
    exact ih.1 ▸ closed.reopen ((ih.1 ▸ ih.2 i : (entry.streams i).Sound _).sized)

theorem storage_accounted {entry : EntryImpl} (reachable : entry.Reachable maxFileSize)
    {sparse : Option (Int32 × Outcomes)} {outcomes : Fin 3 → Outcomes}
    (saved : ∀ save ∈ sparse, save.2.flushed = true) (noFailure : ∀ i, (outcomes i).NoFailure) (i : Fin 3) :
    (entry.streams i).reported = (entry.streams i).dataSize - (entry.streams i).unreportedSize ∧
      (∀ held ∈ (entry.streams i).checks, held = true) ∧
      (∀ held ∈ ((entry.destroy sparse outcomes).1.streams i).checks, held = true) ∧
      (entry.doomed = false → ((entry.destroy sparse outcomes).1.streams i).dataSize =
          ((entry.resetSparse sparse).streams i).dataSize ∧
        ((entry.destroy sparse outcomes).1.streams i).reported =
          ((entry.destroy sparse outcomes).1.streams i).dataSize) ∧
      (entry.doomed = true → ((entry.destroy sparse outcomes).1.streams i).reported = 0) := by
  obtain ⟨limit, sound⟩ := reachable_sound reachable
  have reset : (entry.resetSparse sparse).maxFileSize = maxFileSize ∧
      (∀ i, ((entry.resetSparse sparse).streams i).Sound (max 0 maxFileSize)) ∧
      (entry.resetSparse sparse).doomed = entry.doomed := by
    cases sparse with
    | none => exact ⟨limit, sound, rfl⟩
    | some save =>
      obtain ⟨kept, written⟩ := writeData_sound limit sound 2 64 save.1 false (saved save rfl)
      exact ⟨kept, written, rfl⟩
  refine ⟨(sound i).accounted, (sound i).checked, ?_⟩
  rw [EntryImpl.destroy, ← reset.2.2]
  generalize entry.resetSparse sparse = entry at reset ⊢
  obtain ⟨limit, sound, -⟩ := reset
  cases alive : entry.doomed with
  | false =>
    have closed := (sound i).close (noFailure i)
    rw [← limit, ← (closeStreams_streams alive outcomes).2 i] at closed
    exact ⟨closed.checked, fun _ => ⟨closed.same, closed.reported⟩, fun dead => Bool.noConfusion dead⟩
  | true =>
    obtain ⟨nothing, checks⟩ := deleteEntryData_reported sound i
    rw [EntryImpl.closeStreams, if_pos alive]
    exact ⟨checks ▸ (sound i).checked, fun alive => Bool.noConfusion alive, fun _ => nothing⟩

theorem written_entry_accounted : ((((EntryImpl.new 7 1000).writeData 0 0 5 false .fine).1.destroy none
      fun _ => .fine).1.streams 0).reported = 5 :=
  ((storage_accounted (.written 0 0 5 false (.created 7) rfl)
    (fun _ saved => absurd saved (Option.not_mem_none _)) (fun _ => ⟨rfl, rfl⟩) 0).2.2.2.1 rfl).2

end Lifetimes

end Glopen.Cache

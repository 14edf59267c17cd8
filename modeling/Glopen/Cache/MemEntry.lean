import Mathlib.Algebra.Group.Int.Defs
import Mathlib.Algebra.Group.Nat.Defs
import Mathlib.Data.List.Basic

/-! The sparse data of mem_entry_impl.cc. Blocks of 4 KB are kept in child entries, of which the
first is the entry itself. -/
namespace Glopen.Cache

def maxSparseEntrySize : Nat := 2 ^ 12

inductive NetError
  | failed | invalidArgument | cacheOperationNotSupported
deriving DecidableEq

/-- Only the stream of the sparse data: `data` is the vector, of which `dataSize` bytes are in use. -/
structure MemEntry where
  data : List UInt8
  dataSize : Nat
  childFirstPos : Nat
deriving DecidableEq

def MemEntry.new : MemEntry := ⟨[], 0, 0⟩

/-- `children` has no entry for what is not in the map. There is no map before the first call. -/
structure MemEntryImpl where
  own : MemEntry
  sparse : Bool
  children : Int → Option MemEntry
  maxFileSize : Nat

def MemEntryImpl.new (maxFileSize : Nat) : MemEntryImpl :=
  ⟨MemEntry.new, false, fun _ => none, maxFileSize⟩

/-- A cast to `int`. -/
def toChildIndex (offset : Int) : Int := Int.bmod (offset / maxSparseEntrySize) (2 ^ 32)

def toChildOffset (offset : Int) : Nat := (offset % maxSparseEntrySize).toNat

/-- `data[index].resize` and the `memset` of what was not written. -/
def MemEntry.prepareTarget (entry : MemEntry) (offset bufLen : Nat) : MemEntry :=
  if offset + bufLen ≤ entry.dataSize then entry
  else
    let data :=
      if entry.data.length < offset + bufLen then
        entry.data ++ List.replicate (offset + bufLen - entry.data.length) 0
      else entry.data
    if offset ≤ entry.dataSize then { entry with data := data }
    else
      { entry with
        data := data.take entry.dataSize ++ List.replicate (offset - entry.dataSize) 0 ++
          data.drop offset }

/-- `WriteData` with `truncate`, for an index and an offset that are not negative. -/
def MemEntry.writeData (maxFileSize : Nat) (entry : MemEntry) (offset : Nat) (buf : List UInt8) :
    Except NetError MemEntry :=
  if maxFileSize < offset ∨ maxFileSize < buf.length ∨ maxFileSize < offset + buf.length then
    .error .failed
  else
    let prepared := entry.prepareTarget offset buf.length
    .ok { prepared with
      dataSize := offset + buf.length
      data := prepared.data.take offset ++ buf ++ prepared.data.drop (offset + buf.length) }

/-- `offset + buf_len` is an `int`. Nothing is returned where bytes behind the data are read. -/
def MemEntry.readData (entry : MemEntry) (offset bufLen : Nat) : Option (List UInt8) :=
  if entry.dataSize ≤ offset ∨ bufLen = 0 then some []
  else
    let bufLen :=
      if (entry.dataSize : Int) < Int.bmod (offset + bufLen : Nat) (2 ^ 32) then
        entry.dataSize - offset
      else bufLen
    if offset + bufLen ≤ entry.dataSize then some ((entry.data.drop offset).take bufLen) else none

def MemEntryImpl.findChild (entry : MemEntryImpl) (index : Int) : Option MemEntry :=
  if index = 0 then some entry.own else entry.children index

def MemEntryImpl.setChild (entry : MemEntryImpl) (index : Int) (child : MemEntry) : MemEntryImpl :=
  if index = 0 then { entry with own := child }
  else { entry with children := fun i => if i = index then some child else entry.children i }

def MemEntryImpl.initSparseInfo (entry : MemEntryImpl) : Except NetError MemEntryImpl :=
  if entry.sparse then .ok entry
  else if entry.own.dataSize ≠ 0 then .error .cacheOperationNotSupported
  else .ok { entry with sparse := true }

def readSparseLoop (entry : MemEntryImpl) : Nat → Int → Nat → Option (List UInt8)
  | 0, _, _ => some []
  | fuel + 1, offset, remaining =>
    if remaining = 0 then some []
    else
      match entry.findChild (toChildIndex offset) with
      | none => some []
      | some child =>
        if toChildOffset offset < child.childFirstPos then some []
        else
          match child.readData (toChildOffset offset) remaining with
          | none => none
          | some [] => some []
          | some (b :: bytes) =>
            (readSparseLoop entry fuel (offset + (b :: bytes).length)
              (remaining - (b :: bytes).length)).map ((b :: bytes) ++ ·)

def MemEntryImpl.readSparseData (entry : MemEntryImpl) (offset bufLen : Int) :
    MemEntryImpl × Except NetError (Option (List UInt8)) :=
  match entry.initSparseInfo with
  | .error error => (entry, .error error)
  | .ok entry =>
    if offset < 0 ∨ bufLen < 0 then (entry, .error .invalidArgument)
    else (entry, .ok (readSparseLoop entry (bufLen.toNat + 1) offset bufLen.toNat))

def writeSparseLoop : Nat → MemEntryImpl → Int → List UInt8 →
    MemEntryImpl × List UInt8 × Except NetError Unit
  | 0, entry, _, _ => (entry, [], .ok ())
  | fuel + 1, entry, offset, buf =>
    if buf = [] then (entry, [], .ok ())
    else
      let index := toChildIndex offset
      let child := (entry.findChild index).getD MemEntry.new
      let childOffset := toChildOffset offset
      let writeLen := min buf.length (maxSparseEntrySize - childOffset)
      match child.writeData entry.maxFileSize childOffset (buf.take writeLen) with
      | .error error => (entry.setChild index child, [], .error error)
      | .ok written =>
        let written :=
          if child.dataSize ≠ childOffset then { written with childFirstPos := childOffset }
          else written
        let (entry, bytes, result) :=
          writeSparseLoop fuel (entry.setChild index written) (offset + writeLen)
            (buf.drop writeLen)
        (entry, buf.take writeLen ++ bytes, result)

def MemEntryImpl.writeSparseData (entry : MemEntryImpl) (offset : Int) (buf : List UInt8) :
    MemEntryImpl × List UInt8 × Except NetError Unit :=
  match entry.initSparseInfo with
  | .error error => (entry, [], .error error)
  | .ok entry =>
    if offset < 0 then (entry, [], .error .invalidArgument)
    else writeSparseLoop buf.length entry offset buf

end Glopen.Cache

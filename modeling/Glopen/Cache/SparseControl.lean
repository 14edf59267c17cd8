import Mathlib.Data.BitVec
import Glopen.Cache.IndexFile

/-! The sparse entries of sparse_control.cc, for operations without a callback. The data is known by
its size alone. -/
namespace Glopen.Cache

def errFailed : Int := -2
def errInvalidArgument : Int := -4
def errCacheReadFailure : Int := -401
def errCacheOperationNotSupported : Int := -403

def kMaxEntrySize : Int := 0x100000

def kBlockSize : Int := 1024

def kNumSparseBits : Nat := 1024

section Bitmap

variable {n : Nat}

/-- `FindNextBit`, bit by bit. -/
def findNextBit (map : BitVec n) (index limit : Nat) (value : Bool) : Option Nat :=
  (List.range' index (limit - index)).find? fun bit => map.getLsbD bit == value

def findBits (map : BitVec n) (index limit : Nat) (value : Bool) : Nat × Nat :=
  match findNextBit map index limit value with
  | none => (index, 0)
  | some index =>
    match findNextBit map index limit !value with
    | none => (index, limit - index)
    | some last => (index, last - index)

/-- `SetRange` with the value `true`. -/
def setRange (map : BitVec n) (first last : Nat) : BitVec n :=
  map ||| (BitVec.ofNat n (2 ^ (last - first) - 1) <<< first)

/-- The number of words of a `Bitmap`, which has one at least. -/
def requiredArraySize (numBits : Nat) : Nat := if numBits ≤ 32 then 1 else (numBits + 31) / 32

end Bitmap

structure SparseHeader where
  signature : Int
  magic : UInt32
  lastBlock : Int
  lastBlockLen : Int
deriving DecidableEq

structure SparseData where
  header : SparseHeader
  bitmap : BitVec kNumSparseBits
deriving DecidableEq

def SparseData.checked (data : SparseData) : SparseData :=
  if data.header.lastBlockLen < 0 ∨ kBlockSize < data.header.lastBlockLen then
    { data with header := { data.header with lastBlockLen := 0, lastBlock := -1 } }
  else data

/-- An entry under the name of a child. There is no `sparseIndex` in a stream that is too short, and
`readable` is whether the stream can be read. -/
structure ChildEntry where
  childFlag : Bool
  sparseIndex : Option SparseData
  readable : Bool
  dataSize : Nat
deriving DecidableEq

/-- `entries` are those that the backend has under the names of the children, and `child` is the
number of the open one. -/
structure SparseControl where
  sparseHeader : SparseHeader
  childrenMap : List Bool
  entries : Nat → Option ChildEntry
  child : Option Nat
  childData : SparseData

inductive SparseOperation
  | readOperation
  | writeOperation
  | getRangeOperation
deriving DecidableEq

/-- How `WriteDataImpl` ends: a write that `failed` has changed the size before. -/
inductive ChildWrite
  | done
  | refused
  | failed
deriving DecidableEq

structure ChildBackend where
  created : Nat → Bool
  written : Nat → ChildWrite

/-- How `OpenChild` ends: with `failed`, `result_` is set. -/
inductive ChildOpened
  | opened
  | stopped
  | failed
deriving DecidableEq

namespace SparseControl

section Children

variable (control : SparseControl) (index : Nat)

def setEntry (entry : Option ChildEntry) : SparseControl :=
  { control with entries := fun i => if i = index then entry else control.entries i }

def childPresent : Bool := control.childrenMap.getD index false

def setChildBit (value : Bool) : SparseControl :=
  let map :=
    if control.childrenMap.length ≤ index then
      control.childrenMap ++
        List.replicate (requiredArraySize (index + 1) * 32 - control.childrenMap.length) false
    else control.childrenMap
  { control with childrenMap := map.set index value }

def closeChild : SparseControl :=
  match control.child with
  | none => control
  | some i =>
    { control.setEntry i ((control.entries i).map fun entry =>
        { entry with sparseIndex := some control.childData }) with
      child := none }

def initChildData : SparseControl :=
  let data : SparseData := ⟨control.sparseHeader, 0⟩
  { (control.setEntry index (some ⟨true, some data, true, 0⟩)).setChildBit index true with
    child := some index
    childData := data }

def continueWithoutChild (operation : SparseOperation) (created : Bool) : SparseControl × ChildOpened :=
  match operation with
  | .readOperation => (control, .stopped)
  | .getRangeOperation => (control, .opened)
  | .writeOperation =>
    if created && (control.entries index).isNone then (control.initChildData index, .opened)
    else (control, .failed)

def killChildAndContinue (operation : SparseOperation) (created fatal : Bool) :
    SparseControl × ChildOpened :=
  let control := { (control.setEntry index none).setChildBit index false with child := none }
  if fatal then (control, .failed) else control.continueWithoutChild index operation created

def openChild (operation : SparseOperation) (created : Bool) : SparseControl × ChildOpened :=
  if control.child = some index then (control, .opened)
  else
    let control := control.closeChild
    if !control.childPresent index then control.continueWithoutChild index operation created
    else
      match control.entries index with
      | none => control.continueWithoutChild index operation created
      | some entry =>
        match entry.sparseIndex with
        | none => control.killChildAndContinue index operation created false
        | some data =>
          if !entry.childFlag then control.killChildAndContinue index operation created false
          else if !entry.readable then control.killChildAndContinue index operation created true
          else if data.header.signature ≠ control.sparseHeader.signature ∨
              data.header.magic ≠ kIndexMagic then
            control.killChildAndContinue index operation created false
          else ({ control with child := some index, childData := data.checked }, .opened)

/-- `GetDataSize(kSparseData)` of the open child. -/
def entryLen : Nat :=
  match control.child with
  | none => 0
  | some i => ((control.entries i).map ChildEntry.dataSize).getD 0

/-- `WriteDataImpl` of the open child, with what is returned. -/
def writeChild (write : ChildWrite) (offset len : Int) : SparseControl × Int :=
  let grown :=
    match control.child with
    | none => control
    | some i =>
      control.setEntry i ((control.entries i).map fun entry =>
        { entry with dataSize := max entry.dataSize (offset + len).toNat })
  match write with
  | .done => (grown, len)
  | .refused => (control, errFailed)
  | .failed => (grown, errFailed)

end Children

end SparseControl

section Ranges

variable (data : SparseData) (entryLen : Nat)

/-- `ReadDataImpl` of a child. -/
def readChild (offset len : Int) : Int :=
  if entryLen ≤ offset ∨ offset < 0 ∨ len = 0 then 0
  else if len < 0 then errInvalidArgument
  else min len (entryLen - offset)

def partialBlockLength (blockIndex : Nat) : Int :=
  if blockIndex = data.header.lastBlock then data.header.lastBlockLen
  else if blockIndex = entryLen / 1024 then entryLen % 1024
  else 0

/-- `child_len_` and `buf_len_` behind `VerifyRange`. -/
def verifyRange (operation : SparseOperation) (childOffset bufLen : Int) : Option (Int × Int) :=
  let childLen := min bufLen (kMaxEntrySize - childOffset)
  if operation ≠ .readOperation then some (childLen, bufLen)
  else
    let lastBit := ((childOffset + childLen + 1023) / 1024).toNat
    match findNextBit data.bitmap (childOffset / 1024).toNat lastBit false with
    | none => some (childLen, bufLen)
    | some start =>
      let partialBlockLen := partialBlockLength data entryLen start
      if start = childOffset / 1024 ∧ partialBlockLen ≤ childOffset % kBlockSize then none
      else
        let childLen := start * 1024 - childOffset
        let childLen :=
          if partialBlockLen ≠ 0 then min (childLen + partialBlockLen) bufLen else childLen
        some (childLen, childLen)

def updateRange (childOffset result : Int) : SparseData :=
  let firstBit := childOffset / 1024
  let blockOffset := childOffset % kBlockSize
  let firstBit :=
    if blockOffset ≠ 0 ∧ (data.header.lastBlock ≠ firstBit ∨ data.header.lastBlockLen < blockOffset) then
      firstBit + 1
    else firstBit
  let lastBit := (childOffset + result) / 1024
  let blockOffset := (childOffset + result) % kBlockSize
  if lastBit < firstBit then data
  else
    let header :=
      if blockOffset ≠ 0 ∧ data.bitmap.getLsbD lastBit.toNat = false then
        { data.header with lastBlock := lastBit, lastBlockLen := blockOffset }
      else { data.header with lastBlock := -1 }
    ⟨header, setRange data.bitmap firstBit.toNat lastBit.toNat⟩

/-- What `DoGetAvailableRange` finds in an open child: the empty bytes in front of the range, and
its length. -/
def availableInChild (childOffset childLen : Int) : Option (Int × Int) :=
  let lastBit := ((childOffset + childLen + 1023) / 1024).toNat
  let start := (childOffset / 1024).toNat
  let partialStartBytes := partialBlockLength data entryLen start
  let (found, bitsFound) := findBits data.bitmap start lastBit true
  let blockOffset := childOffset % kBlockSize
  if bitsFound = 0 ∧ partialStartBytes ≤ blockOffset then none
  else if bitsFound = 0 then some (0, min (partialStartBytes - blockOffset) childLen)
  else
    let emptyStart := max (found * 1024 - childOffset) 0
    let bytesFound := bitsFound * 1024 + partialBlockLength data entryLen (found + bitsFound)
    let bytesFound := if start = found then bytesFound - blockOffset else bytesFound
    some (emptyStart, min bytesFound (childLen - emptyStart))

end Ranges

/-- The members that `StartIO` sets. -/
structure SparseIo where
  control : SparseControl
  operation : SparseOperation
  offset : Int
  bufLen : Int
  result : Int
  rangeFound : Bool

namespace SparseIo

variable (backend : ChildBackend) (io : SparseIo)

def childBit : Nat := (io.offset / kMaxEntrySize).toNat

def childOffset : Int := io.offset % kMaxEntrySize

def doGetAvailableRange (childLen : Int) : SparseIo × Int :=
  if io.control.child = none then (io, childLen)
  else
    match availableInChild io.control.childData io.control.entryLen io.childOffset childLen with
    | none => (io, childLen)
    | some (emptyStart, result) =>
      ({ io with
        rangeFound := true
        result := result
        offset := io.offset + emptyStart
        bufLen := 0 }, 0)

def doChildIoCompleted (result : Int) : SparseIo :=
  if result < 0 then { io with result := result }
  else
    let childData :=
      if result ≤ 0 ∨ io.operation ≠ .writeOperation then io.control.childData
      else updateRange io.control.childData io.childOffset result
    { io with
      control := { io.control with childData := childData }
      result := io.result + result
      offset := io.offset + result
      bufLen := io.bufLen - result }

def doChildIo : SparseIo × Bool :=
  if io.bufLen = 0 ∨ io.result < 0 then (io, false)
  else
    match io.control.openChild io.childBit io.operation (backend.created io.childBit) with
    | (control, .stopped) => ({ io with control := control }, false)
    | (control, .failed) =>
      ({ io with control := control, result := errCacheReadFailure }, false)
    | (control, .opened) =>
      let io := { io with control := control }
      match verifyRange control.childData control.entryLen io.operation io.childOffset io.bufLen with
      | none => (io, false)
      | some (childLen, bufLen) =>
        let io := { io with bufLen := bufLen }
        let (io, result) :=
          match io.operation with
          | .readOperation => (io, readChild control.entryLen io.childOffset childLen)
          | .writeOperation =>
            let (control, result) :=
              control.writeChild (backend.written io.childBit) io.childOffset childLen
            ({ io with control := control }, result)
          | .getRangeOperation => io.doGetAvailableRange childLen
        if result = 0 then (io, false) else (io.doChildIoCompleted result, true)

def doChildrenIo : Nat → SparseIo → SparseIo
  | 0, io => io
  | passes + 1, io =>
    match io.doChildIo backend with
    | (io, false) => io
    | (io, true) => doChildrenIo passes io

end SparseIo

namespace SparseControl

variable (control : SparseControl) (backend : ChildBackend)

/-- Each pass but the last takes a byte away. A sum that leaves `int64` is too large as well. -/
def startIo (operation : SparseOperation) (offset bufLen : Int) : Except Int SparseIo :=
  if offset < 0 ∨ bufLen < 0 then .error errInvalidArgument
  else if 0x1000000000 ≤ offset + bufLen then .error errCacheOperationNotSupported
  else .ok (.doChildrenIo backend (bufLen.toNat + 1) ⟨control, operation, offset, bufLen, 0, false⟩)

/-- `ReadSparseData` and `WriteSparseData`. -/
def transfer (operation : SparseOperation) (offset bufLen : Int) : SparseControl × Int :=
  match control.startIo backend operation offset bufLen with
  | .error error => (control, error)
  | .ok io => (io.control, io.result)

/-- What is returned, and `*start`. -/
def getAvailableRange (offset len : Int) : SparseControl × Int × Int :=
  match control.startIo backend .getRangeOperation offset len with
  | .error error => (control, error, offset)
  | .ok io =>
    if io.rangeFound then (io.control, io.result, io.offset)
    else (io.control, if io.result < 0 then io.result else 0, offset)

/-- `CreateSparseEntry`. The bitmap has `kNumSparseBits` bits. -/
def createSparseEntry (signature : Int) (entries : Nat → Option ChildEntry) : SparseControl :=
  let header : SparseHeader := ⟨signature, kIndexMagic, 0, 0⟩
  ⟨header, List.replicate kNumSparseBits false, entries, none, ⟨header, 0⟩⟩

end SparseControl

end Glopen.Cache

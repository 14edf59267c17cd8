import Glopen.Lib.ByteMemory
import Glopen.Lib.WireBytes

/-! `base/pickle.{h,cc}`: the buffer, its constructors and the `Read*` methods. -/
namespace Glopen.Base

open Bytes Wire

/-- The sizes that the target fixes; `size_t` is as wide as a pointer. -/
structure Abi where
  pointer : Nat
  long : Nat
  wchar : Nat
  pointer_size : pointer = 4 ∨ pointer = 8
  long_size : long = 4 ∨ long = 8
  wchar_size : wchar = 2 ∨ wchar = 4

def Abi.limit (abi : Abi) : Nat := 2 ^ (8 * abi.pointer)

/-- Arithmetic on `size_t` and on pointers wraps. -/
def Abi.wrap (abi : Abi) (n : Nat) : Nat := n % abi.limit

def Abi.toSize (abi : Abi) (n : Int) : Nat := (n % abi.limit).toNat

/-- A conversion to `int`. -/
def toInt (n : Nat) : Int := (BitVec.ofNat 32 n).toInt

def intMax : Nat := 2147483647

def wordOf (size : Nat) (bytes : List UInt8) : BitVec (8 * size) :=
  BitVec.ofNat (8 * size) (leValue bytes)

def wordBytes {size : Nat} (value : BitVec (8 * size)) : List UInt8 := leBytes size value.toNat

/-- `AlignInt` where the sum does not wrap. -/
def aligned (i alignment : Nat) : Nat := i + (alignment - i % alignment) % alignment

def Abi.alignInt (abi : Abi) (i alignment : Nat) : Nat := abi.wrap (aligned i alignment)

structure Pickle where
  memory : Memory
  header : Nat
  headerSize : Nat
  capacity : Nat
  variableBufferOffset : Nat
  requests : Nat

def sizeofHeader : Nat := 4

def kPayloadUnit : Nat := 64

def Pickle.payloadSize (p : Pickle) : Nat := leValue (bytesAt p.memory p.header sizeofHeader)

/-- `Pickle(const char* data, int data_len)`: the difference is one of `uint32`. -/
def ofData (abi : Abi) (memory : Memory) (data : Nat) (dataLen : BitVec 32) : Pickle where
  memory := memory
  header := data
  headerSize :=
    (dataLen - BitVec.ofNat 32 (leValue (bytesAt memory data sizeofHeader))).toNat
  capacity := abi.limit - 1
  variableBufferOffset := 0
  requests := 0

structure Access where
  address : Nat
  length : Nat
deriving DecidableEq

structure Step (α : Type) where
  value : Option α
  iter : Nat
  accesses : List Access

/-- A method with an `iter` argument; the address 0 is `NULL`. -/
def Read (α : Type) : Type := Nat → Step α

def Read.done {α : Type} (a : α) : Read α := fun iter => ⟨some a, iter, []⟩

def Read.fail {α : Type} : Read α := fun iter => ⟨none, iter, []⟩

def Read.startedAt {α : Type} (read : Read α) (start : Nat → Nat) : Read α :=
  fun iter => read (start iter)

def Read.andThen {α β : Type} (first : Read α) (next : α → Read β) : Read β := fun iter =>
  let step := first iter
  match step.value with
  | none => ⟨none, step.iter, step.accesses⟩
  | some a =>
    let step' := next a step.iter
    ⟨step'.value, step'.iter, step.accesses ++ step'.accesses⟩

def Read.map {α β : Type} (f : α → β) (read : Read α) : Read β := fun iter =>
  let step := read iter
  ⟨step.value.map f, step.iter, step.accesses⟩

section Reads

variable (abi : Abi) (p : Pickle)

def Pickle.payload : Nat := abi.wrap (p.header + p.headerSize)

def Pickle.endOfPayload : Nat := abi.wrap (p.payload abi + p.payloadSize)

def Pickle.iteratorHasRoomFor (iter : Nat) (len : Int) : Bool :=
  if len < 0 ∨ iter < p.header ∨ iter > p.endOfPayload abi then false
  else
    let endOfRegion := abi.wrap (iter + len.toNat)
    decide (iter ≤ endOfRegion ∧ endOfRegion ≤ p.endOfPayload abi)

def updateIter (iter : Nat) (bytes : Int) : Nat :=
  abi.wrap (iter + abi.alignInt (abi.toSize bytes) 4)

/-- `if (!*iter) *iter = payload();` -/
def Pickle.start (iter : Nat) : Nat := if iter = 0 then p.payload abi else iter

/-- The room check for `len`, an access to `length` bytes and the move of the iterator. The check
reads the header. -/
def Pickle.take (len : Int) (length : Nat) : Read Nat := fun iter =>
  if p.iteratorHasRoomFor abi iter len then
    ⟨some iter, updateIter abi iter len, [⟨p.header, sizeofHeader⟩, ⟨iter, length⟩]⟩
  else ⟨none, iter, [⟨p.header, sizeofHeader⟩]⟩

def Pickle.readFixed (size : Nat) : Read (BitVec (8 * size)) :=
  ((p.take abi size size).startedAt (p.start abi)).map fun a =>
    wordOf size (bytesAt p.memory a size)

def Pickle.readInt : Read (BitVec 32) := p.readFixed abi 4

def Pickle.readBool : Read Bool := (p.readInt abi).map fun tmp => tmp != 0

def Pickle.readLong : Read (BitVec (8 * abi.long)) := p.readFixed abi abi.long

def Pickle.readLength : Read Int :=
  (p.readInt abi).andThen fun result => if 0 ≤ result.toInt then .done result.toInt else .fail

def Pickle.readSize : Read (BitVec (8 * abi.pointer)) := p.readFixed abi abi.pointer

def Pickle.readUInt32 : Read (BitVec 32) := p.readFixed abi 4

def Pickle.readInt64 : Read (BitVec 64) := p.readFixed abi 8

def Pickle.readUInt64 : Read (BitVec 64) := p.readFixed abi 8

/-- The characters of a string, of `size` bytes each. -/
def charsOf (size : Nat) : Nat → List UInt8 → List (BitVec (8 * size))
  | 0, _ => []
  | count + 1, bytes => wordOf size (bytes.take size) :: charsOf size count (bytes.drop size)

def Pickle.readString : Read (List UInt8) :=
  (p.readLength abi).andThen fun len =>
    (p.take abi len len.toNat).map fun a => bytesAt p.memory a len.toNat

def Pickle.readWString : Read (List (BitVec (8 * abi.wchar))) :=
  (p.readLength abi).andThen fun len =>
    -- Avoid integer overflow.
    if len > (intMax / abi.wchar : Nat) then .fail
    else (p.take abi (len * abi.wchar) (len.toNat * abi.wchar)).map fun a =>
      charsOf abi.wchar len.toNat (bytesAt p.memory a (len.toNat * abi.wchar))

/-- The product is one of `size_t`, and it is converted to `int` for the check. -/
def Pickle.readString16 : Read (List (BitVec 16)) :=
  (p.readLength abi).andThen fun len =>
    (p.take abi (toInt (abi.wrap (len.toNat * 2))) (len.toNat * 2)).map fun a =>
      charsOf 2 len.toNat (bytesAt p.memory a (len.toNat * 2))

def Pickle.readBytes (length : Int) : Read Nat :=
  (p.take abi length length.toNat).startedAt (p.start abi)

def Pickle.readData : Read (Nat × Int) :=
  (p.readLength abi).andThen fun length =>
    (p.readBytes abi length).map fun data => (data, length)

end Reads

end Glopen.Base

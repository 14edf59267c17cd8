import Mathlib.Data.List.TakeWhile
import Glopen.Lib.WireBytes

/-! Arguments of SRPC calls, the IMC buffers, and the element interfaces of rpc_serialize.c:
how one argument is put into a send buffer and got from a received message. -/
namespace Glopen.Srpc

open Wire

def naclAbiSizeTMax : Nat := 2 ^ 32 - 1
def naclAbiImcUserBytesMax : Nat := 128 <<< 10
def srpcDescMax : Nat := 8
def naclSrpcMaxArgs : Nat := 128

/-- Width of the host's `size_t`: the code is compiled for modules and for trusted hosts. -/
inductive SizeT where
  | bits32
  | bits64
deriving DecidableEq

def SizeT.max : SizeT → Nat
  | bits32 => 2 ^ 32 - 1
  | bits64 => 2 ^ 64 - 1

/-- `sizeof(NaClSrpcArg)`. -/
def SizeT.argSize : SizeT → Nat
  | bits32 => 16
  | bits64 => 24

structure Host where
  size : SizeT
  malloc : Nat → Bool

/-- An array of `count` elements; the count is a `nacl_abi_size_t`. -/
structure CArray (α : Type) where
  elems : List α
  small : elems.length < 2 ^ 32

structure CString where
  bytes : List UInt8
  noNul : 0 ∉ bytes

theorem takeWhile_noNul (bytes : List UInt8) : 0 ∉ bytes.takeWhile (· ≠ 0) := by
  intro member
  exact absurd (List.mem_takeWhile_imp member) (by decide)

def CString.ofBytes (bytes : List UInt8) : CString :=
  ⟨bytes.takeWhile (· ≠ 0), takeWhile_noNul bytes⟩

theorem ofBytes_bytes (sval : CString) : CString.ofBytes sval.bytes = sval := by
  obtain ⟨bytes, noNul⟩ := sval
  simp only [CString.ofBytes, CString.mk.injEq]
  apply List.takeWhile_eq_self_iff.mpr
  intro byte member
  exact decide_eq_true fun zero => noNul (zero ▸ member)

/-- `NaClSrpcArg`: numbers by their bit patterns, descriptors as they are. -/
inductive Arg (δ : Type) where
  | invalid
  | bool (bval : UInt32)
  | charArray (caval : CArray UInt8)
  | double (dval : UInt64)
  | doubleArray (daval : CArray UInt64)
  | handle (hval : δ)
  | int (ival : UInt32)
  | intArray (iaval : CArray UInt32)
  | string (sval : CString)
  | object
  | variantArray

def Arg.tag {δ : Type} : Arg δ → UInt8
  | .invalid => 88
  | .bool _ => 98
  | .charArray _ => 67
  | .double _ => 100
  | .doubleArray _ => 68
  | .handle _ => 104
  | .int _ => 105
  | .intArray _ => 73
  | .string _ => 115
  | .object => 111
  | .variantArray => 65

/-- The part of a send buffer in use: `next_byte` bytes and `desc_length` descriptors. -/
structure SendBuffer (δ : Type) where
  bytes : List UInt8
  descs : List δ
deriving DecidableEq

structure ReceiveBuffer (δ : Type) where
  bytes : List UInt8
  descs : List δ
deriving DecidableEq

abbrev Put (δ : Type) := SendBuffer δ → SendBuffer δ × Bool

abbrev Get (δ : Type) := StateT (ReceiveBuffer δ) Option

section Puts

variable {δ : Type}

def Put.andThen (first second : Put δ) : Put δ := fun buffer =>
  match first buffer with
  | (buffer, true) => second buffer
  | (buffer, false) => (buffer, false)

def Put.done : Put δ := fun buffer => (buffer, true)

def Put.fail : Put δ := fun buffer => (buffer, false)

/-- The count `(nacl_abi_size_t) -1` reports a failure. A caller compares the count that is
returned with the one it asked for, so it takes this failure for a success. -/
def imcFailure : Nat := naclAbiSizeTMax

/-- The number of bytes is a product of 32-bit words, while its overflow check is made for the
host's `size_t`. -/
def naClSrpcImcWrite {α : Type} [WireType α] (size : SizeT) (source : List α) : Put δ :=
  fun buffer =>
    let availBytes := naclAbiImcUserBytesMax - buffer.bytes.length
    let nElt := source.length % 2 ^ 32
    if size.max / WireType.size α ≤ nElt then (buffer, nElt = imcFailure)
    else
      let requestBytes := nElt * WireType.size α % 2 ^ 32
      if availBytes < requestBytes then (buffer, nElt = imcFailure)
      else ({ buffer with bytes := buffer.bytes ++ (flat source).take requestBytes }, true)

def naClSrpcImcWriteDesc (desc : δ) : Put δ := fun buffer =>
  if srpcDescMax ≤ buffer.descs.length then (buffer, false)
  else ({ buffer with descs := buffer.descs ++ [desc] }, true)

variable (size : SizeT) (writeValue : Bool)

/-- `BASIC_TYPE_IO_DECLARE`. -/
def basicPut {α : Type} [WireType α] (value : α) : Put δ :=
  if writeValue then naClSrpcImcWrite size [value] else Put.done

/-- One byte of the `int` is sent. -/
def boolPut (bval : UInt32) : Put δ := basicPut size writeValue bval.toUInt8
def doublePut (dval : UInt64) : Put δ := basicPut size writeValue dval
def intPut (ival : UInt32) : Put δ := basicPut size writeValue ival

/-- `ARRAY_TYPE_IO_DECLARE`. -/
def arrPut {α : Type} [WireType α] (array : CArray α) : Put δ :=
  (naClSrpcImcWrite size [UInt32.ofNat array.elems.length]).andThen
    (if writeValue then naClSrpcImcWrite size array.elems else Put.done)

def charArrPut (caval : CArray UInt8) : Put δ := arrPut size writeValue caval
def doubleArrPut (daval : CArray UInt64) : Put δ := arrPut size writeValue daval
def intArrPut (iaval : CArray UInt32) : Put δ := arrPut size writeValue iaval

def handlePut (hval : δ) : Put δ := if writeValue then naClSrpcImcWriteDesc hval else Put.done

def stringPut (sval : CString) : Put δ :=
  if writeValue then
    (naClSrpcImcWrite size [UInt32.ofNat sval.bytes.length]).andThen
      (naClSrpcImcWrite size sval.bytes)
  else Put.done

def invalidPut : Put δ := Put.fail

/-- `put` of the interface that `ArgsGetEltInterface` selects. -/
def eltPut : Arg δ → Put δ
  | .bool bval => boolPut size writeValue bval
  | .charArray caval => charArrPut size writeValue caval
  | .double dval => doublePut size writeValue dval
  | .doubleArray daval => doubleArrPut size writeValue daval
  | .handle hval => handlePut writeValue hval
  | .int ival => intPut size writeValue ival
  | .intArray iaval => intArrPut size writeValue iaval
  | .string sval => stringPut size writeValue sval
  | .invalid | .object | .variantArray => invalidPut

end Puts

section Gets

variable {δ : Type}

def naClSrpcImcRead (eltSize nElt : Nat) : Get δ (List UInt8) := fun buffer =>
  if naclAbiSizeTMax / eltSize ≤ nElt then
    if nElt = imcFailure then some ([], buffer) else none
  else
    let requestBytes := nElt * eltSize
    if requestBytes ≤ buffer.bytes.length then
      some (buffer.bytes.take requestBytes, { buffer with bytes := buffer.bytes.drop requestBytes })
    else none

def naClSrpcImcReadDesc [Inhabited δ] : Get δ δ := fun buffer =>
  match buffer.descs with
  | [] => some (default, buffer)
  | desc :: rest => some (desc, { buffer with descs := rest })

def readOne (α : Type) [WireType α] : Get δ α :=
  WireType.ofBytes <$> naClSrpcImcRead (WireType.size α) 1

variable (host : Host) (allocateMemory readValue : Bool)

/-- `BASIC_TYPE_IO_DECLARE`, for a field that is overwritten as a whole. -/
def basicGet {α : Type} [WireType α] (value : α) : Get δ α :=
  if readValue then readOne α else pure value

/-- One byte is received, into the lowest byte of the `int`. -/
def boolGet (bval : UInt32) : Get δ UInt32 :=
  if readValue then (fun low => bval / 256 * 256 + UInt8.toUInt32 low) <$> readOne UInt8
  else pure bval

def doubleGet (dval : UInt64) : Get δ UInt64 := basicGet readValue dval
def intGet (ival : UInt32) : Get δ UInt32 := basicGet readValue ival

theorem overwrite_small {α : Type} (array : CArray α) (elems : List α) :
    ((elems ++ array.elems.drop elems.length).take array.elems.length).length < 2 ^ 32 :=
  Nat.lt_of_le_of_lt (List.length_take_le _ _) array.small

def CArray.overwrite {α : Type} (array : CArray α) (elems : List α) : CArray α :=
  ⟨(elems ++ array.elems.drop elems.length).take array.elems.length, overwrite_small array elems⟩

theorem fresh_small {α : Type} [Inhabited α] (dim : UInt32) :
    (List.replicate dim.toNat (default : α)).length < 2 ^ 32 := by
  rw [List.length_replicate]
  exact dim.toNat_lt

def CArray.fresh {α : Type} [Inhabited α] (dim : UInt32) : CArray α :=
  ⟨List.replicate dim.toNat default, fresh_small dim⟩

/-- The array to be filled, allocated with `dim` elements or of the caller's own count. -/
def arrTarget {α : Type} [WireType α] [Inhabited α] (array : CArray α) (dim : UInt32) :
    Option (CArray α) :=
  if allocateMemory then
    if naclAbiSizeTMax / WireType.size α ≤ dim.toNat then none
    else if host.malloc (dim.toNat * WireType.size α) then some (CArray.fresh dim) else none
  else if array.elems.length < dim.toNat then none
  else some array

/-- `ARRAY_TYPE_IO_DECLARE`. -/
def arrGet {α : Type} [WireType α] [Inhabited α] (array : CArray α) : Get δ (CArray α) := do
  let dim ← readOne UInt32
  let target ← StateT.lift (arrTarget host allocateMemory array dim)
  if readValue then
    (fun bytes => target.overwrite (unflat (bytes.length / WireType.size α) bytes)) <$>
      naClSrpcImcRead (WireType.size α) dim.toNat
  else pure target

def charArrGet (caval : CArray UInt8) : Get δ (CArray UInt8) :=
  arrGet host allocateMemory readValue caval
def doubleArrGet (daval : CArray UInt64) : Get δ (CArray UInt64) :=
  arrGet host allocateMemory readValue daval
def intArrGet (iaval : CArray UInt32) : Get δ (CArray UInt32) :=
  arrGet host allocateMemory readValue iaval

def handleGet [Inhabited δ] (hval : δ) : Get δ δ :=
  if readValue then naClSrpcImcReadDesc else pure hval

def stringGet (sval : CString) : Get δ CString :=
  if readValue then do
    let dim ← readOne UInt32
    if naclAbiSizeTMax ≤ dim.toNat then failure
    else if !host.malloc (dim.toNat + 1) then failure
    else CString.ofBytes <$> naClSrpcImcRead 1 dim.toNat
  else pure sval

def invalidGet {α : Type} : Get δ α := failure

/-- `get` of the interface that `ArgsGetEltInterface` selects. -/
def eltGet [Inhabited δ] : Arg δ → Get δ (Arg δ)
  | .bool bval => .bool <$> boolGet readValue bval
  | .charArray caval => .charArray <$> charArrGet host allocateMemory readValue caval
  | .double dval => .double <$> doubleGet readValue dval
  | .doubleArray daval => .doubleArray <$> doubleArrGet host allocateMemory readValue daval
  | .handle hval => .handle <$> handleGet readValue hval
  | .int ival => .int <$> intGet readValue ival
  | .intArray iaval => .intArray <$> intArrGet host allocateMemory readValue iaval
  | .string sval => .string <$> stringGet host readValue sval
  | .invalid | .object | .variantArray => invalidGet

end Gets

end Glopen.Srpc

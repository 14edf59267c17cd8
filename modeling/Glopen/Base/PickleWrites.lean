import Glopen.Base.PickleReads

/-! The `Write*` methods of `base/pickle.cc` and what one write leaves in the buffer. -/
namespace Glopen.Base

open Bytes Wire

structure Grant where
  address : Nat
  fresh : Memory

/-- The answers of `realloc`, one for each request and size. -/
def Heap : Type := Nat → Nat → Option Grant

def Heap.Valid (heap : Heap) (abi : Abi) : Prop :=
  ∀ request size grant, heap request size = some grant →
    0 < grant.address ∧ grant.address + size < abi.limit

section Buffer

variable (abi : Abi) (heap : Heap) (p : Pickle)

def Pickle.resize (newCapacity : Nat) : Option Pickle :=
  let newCapacity := abi.alignInt newCapacity kPayloadUnit
  (heap p.requests newCapacity).map fun grant =>
    let moved : Memory := fun x =>
      if grant.address ≤ x ∧ x < grant.address + min p.capacity newCapacity then
        p.memory (p.header + (x - grant.address))
      else grant.fresh x
    { p with memory := moved, header := grant.address, capacity := newCapacity,
             requests := p.requests + 1 }

def Pickle.setPayloadSize (size : Nat) : Pickle :=
  { p with memory := copyTo p.memory p.header (leBytes sizeofHeader size) }

/-- `Pickle(int header_size)`, where the allocation succeeds. -/
def newPickle (headerSize : Nat) : Option Pickle :=
  let empty : Pickle := ⟨fun _ => 0, 0, abi.alignInt headerSize 4, 0, 0, 0⟩
  (empty.resize abi heap kPayloadUnit).map fun p => p.setPayloadSize 0

def Pickle.beginWrite (length : Nat) : Option (Pickle × Nat) :=
  -- write at a uint32-aligned offset from the beginning of the header
  let offset := abi.alignInt p.payloadSize 4
  let newSize := abi.wrap (offset + length)
  let neededSize := abi.wrap (p.headerSize + newSize)
  let grown :=
    if neededSize > p.capacity then p.resize abi heap (max (abi.wrap (p.capacity * 2)) neededSize)
    else some p
  grown.map fun p => (p.setPayloadSize newSize, abi.wrap (p.payload abi + offset))

def Pickle.endWrite (dest : Nat) (length : Int) : Pickle :=
  let rest := abi.toSize length % 4
  if rest = 0 then p
  else { p with memory := copyTo p.memory (abi.wrap (dest + abi.toSize length))
                            (List.replicate (4 - rest) 0) }

/-- `data_len` is the length of `data`, as an `int`. -/
def Pickle.writeBytes (data : List UInt8) : Option Pickle :=
  let dataLen := toInt data.length
  (p.beginWrite abi heap (abi.toSize dataLen)).map fun (p, dest) =>
    Pickle.endWrite abi { p with memory := copyTo p.memory dest data } dest dataLen

def Pickle.writeFixed {size : Nat} (value : BitVec (8 * size)) : Option Pickle :=
  p.writeBytes abi heap (wordBytes value)

def Pickle.writeInt (value : BitVec 32) : Option Pickle :=
  @Pickle.writeFixed abi heap p 4 value

def Pickle.writeBool (value : Bool) : Option Pickle := p.writeInt abi heap (if value then 1 else 0)

def Pickle.writeLong (value : BitVec (8 * abi.long)) : Option Pickle := p.writeFixed abi heap value

def Pickle.writeSize (value : BitVec (8 * abi.pointer)) : Option Pickle :=
  p.writeFixed abi heap value

def Pickle.writeUInt32 (value : BitVec 32) : Option Pickle := @Pickle.writeFixed abi heap p 4 value

def Pickle.writeInt64 (value : BitVec 64) : Option Pickle := @Pickle.writeFixed abi heap p 8 value

def Pickle.writeUInt64 (value : BitVec 64) : Option Pickle := @Pickle.writeFixed abi heap p 8 value

/-- The number of the characters as an `int`, and the bytes of the characters. -/
def Pickle.writeCounted (count : Nat) (bytes : List UInt8) : Option Pickle :=
  (p.writeInt abi heap (BitVec.ofNat 32 count)).bind fun p => p.writeBytes abi heap bytes

def Pickle.writeString (value : List UInt8) : Option Pickle :=
  p.writeCounted abi heap value.length value

def Pickle.writeWString (value : List (BitVec (8 * abi.wchar))) : Option Pickle :=
  p.writeCounted abi heap value.length (value.flatMap wordBytes)

def Pickle.writeString16 (value : List (BitVec 16)) : Option Pickle :=
  p.writeCounted abi heap value.length (value.flatMap fun c => @wordBytes 2 c)

def Pickle.writeData (data : List UInt8) : Option Pickle :=
  let length := toInt data.length
  if 0 ≤ length then p.writeCounted abi heap data.length data else none

def Pickle.beginWriteData (length : BitVec 32) : Option (Pickle × Nat) :=
  if length.toInt < 0 then none
  else
    (p.writeInt abi heap length).bind fun p =>
      (p.beginWrite abi heap (abi.toSize length.toInt)).map fun (p, dataPtr) =>
        let offset := abi.toSize (dataPtr - p.header - 4)
        (Pickle.endWrite abi { p with variableBufferOffset := offset } dataPtr length.toInt, dataPtr)

/-- The caller of `BeginWriteData` writes to the address that it got. -/
def Pickle.fill (dest : Nat) (content : List UInt8) : Pickle :=
  { p with memory := copyTo p.memory dest content }

def Pickle.trimWriteData (newLength : BitVec 32) : Pickle :=
  let curLength := abi.wrap (p.header + p.variableBufferOffset)
  let cur : BitVec 32 := wordOf 4 (bytesAt p.memory curLength 4)
  if newLength.toInt < 0 ∨ newLength.toInt > cur.toInt then p
  else
    let p := p.setPayloadSize (BitVec.ofNat 32 p.payloadSize - (cur - newLength)).toNat
    { p with memory := copyTo p.memory curLength (@wordBytes 4 newLength) }

end Buffer

def Pickle.byte (p : Pickle) : Memory := fun i => p.memory (p.header + p.headerSize + i)

structure Pickle.Ready (abi : Abi) (p : Pickle) : Prop where
  placed : 0 < p.header
  inside : p.header + p.capacity < abi.limit
  header_large : sizeofHeader ≤ p.headerSize
  header_aligned : p.headerSize % 4 = 0
  capacity_aligned : p.capacity % kPayloadUnit = 0
  room : p.headerSize + aligned p.payloadSize 4 ≤ p.capacity
  small : p.headerSize + p.payloadSize < 2 ^ 31

structure Wrote (abi : Abi) (p p' : Pickle) (bytes : List UInt8) : Prop where
  ready : p'.Ready abi
  headerSize : p'.headerSize = p.headerSize
  payload : p'.payloadSize = aligned p.payloadSize 4 + bytes.length
  kept : ∀ i < p.payloadSize, p'.byte i = p.byte i
  stored : bytesAt p'.byte (aligned p.payloadSize 4) bytes.length = bytes

def Heap.Refuses (heap : Heap) (most : Nat) : Prop :=
  ∃ request size, size ≤ 2 * most + kPayloadUnit ∧ heap request size = none

def Writes (abi : Abi) (heap : Heap) (most : Nat) (p : Pickle) (result : Option Pickle)
    (bytes : List UInt8) : Prop :=
  result = none ∧ heap.Refuses most ∨ ∃ p', result = some p' ∧ Wrote abi p p' bytes

theorem aligned_four (i : Nat) : aligned i 4 = i + (4 - i % 4) % 4 := rfl

theorem toInt_of_small {n : Nat} (small : n < 2 ^ 31) : toInt n = n := by
  rw [toInt, BitVec.toInt_eq_toNat_cond, BitVec.toNat_ofNat, Nat.mod_eq_of_lt (by omega), if_pos (by omega)]

theorem Abi.toSize_natCast {abi : Abi} {n : Nat} (small : n < abi.limit) : abi.toSize n = n := by
  rw [Abi.toSize, Int.emod_eq_of_lt (by omega) (by omega), Int.toNat_natCast]

theorem alignInt_four {abi : Abi} {i : Nat} (small : i < 2 ^ 31) : abi.alignInt i 4 = aligned i 4 := by
  have limit := abi.limit_large
  rw [Abi.alignInt, aligned_four]
  exact Abi.wrap_of_lt (by omega)

theorem bytesAt_byte (p : Pickle) (o n : Nat) :
    bytesAt p.byte o n = bytesAt p.memory (p.header + p.headerSize + o) n := by
  apply bytesAt_congr
  intro i small
  rw [Pickle.byte, ← Nat.add_assoc]

theorem setPayloadSize_payloadSize {p : Pickle} {n : Nat} (small : n < 2 ^ 32) :
    (p.setPayloadSize n).payloadSize = n := by
  have stored := bytesAt_copyTo p.memory p.header (leBytes sizeofHeader n)
  rw [leBytes_length] at stored
  rw [Pickle.payloadSize, Pickle.setPayloadSize]
  dsimp only
  rw [stored, leValue_leBytes]
  exact Nat.mod_eq_of_lt small

theorem setPayloadSize_memory (p : Pickle) (n : Nat) {x : Nat} (above : p.header + sizeofHeader ≤ x) :
    (p.setPayloadSize n).memory x = p.memory x :=
  copyTo_above p.memory _ (by rwa [leBytes_length])

def Pickle.store (p : Pickle) (o : Nat) (bytes : List UInt8) : Pickle :=
  { p with memory := copyTo p.memory (p.header + p.headerSize + o) bytes }

@[simp] theorem store_byte (p : Pickle) (o : Nat) (bytes : List UInt8) :
    (p.store o bytes).byte = copyTo p.byte o bytes := by
  funext i
  have back : p.header + p.headerSize + i - (p.header + p.headerSize + o) = i - o := by omega
  have there : p.header + p.headerSize + o ≤ p.header + p.headerSize + i ↔ o ≤ i := by omega
  simp only [Pickle.byte, Pickle.store, copyTo, back, there]

@[simp] theorem store_header (p : Pickle) (o : Nat) (bytes : List UInt8) :
    (p.store o bytes).header = p.header := rfl

@[simp] theorem store_headerSize (p : Pickle) (o : Nat) (bytes : List UInt8) :
    (p.store o bytes).headerSize = p.headerSize := rfl

theorem store_payloadSize {p : Pickle} (large : sizeofHeader ≤ p.headerSize) (o : Nat)
    (bytes : List UInt8) : (p.store o bytes).payloadSize = p.payloadSize := by
  rw [Pickle.payloadSize, Pickle.payloadSize]
  congr 1
  apply bytesAt_congr
  intro i small
  have below : p.header + i < p.header + p.headerSize + o := by omega
  exact copyTo_below p.memory bytes below

section Specs

variable {abi : Abi} {heap : Heap} {p : Pickle} {most : Nat}

theorem Pickle.Ready.store (ready : p.Ready abi) (o : Nat) (bytes : List UInt8) :
    (p.store o bytes).Ready abi := by
  have payload := store_payloadSize ready.header_large o bytes
  refine ⟨ready.placed, ready.inside, ready.header_large, ready.header_aligned, ready.capacity_aligned, ?_, ?_⟩
  · rw [payload]
    exact ready.room
  · rw [payload]
    exact ready.small

theorem resize_spec {newCapacity : Nat} (valid : heap.Valid abi)
    (large : p.capacity ≤ newCapacity) (small : newCapacity ≤ 2 ^ 32 - kPayloadUnit)
    (most_is : aligned newCapacity kPayloadUnit ≤ 2 * most + kPayloadUnit) :
    p.resize abi heap newCapacity = none ∧ heap.Refuses most ∨
      ∃ p', p.resize abi heap newCapacity = some p' ∧ 0 < p'.header ∧
        p'.header + p'.capacity < abi.limit ∧ p'.capacity % kPayloadUnit = 0 ∧
        newCapacity ≤ p'.capacity ∧ p'.headerSize = p.headerSize ∧
        ∀ i < p.capacity, p'.memory (p'.header + i) = p.memory (p.header + i) := by
  have limit := abi.limit_large
  have rounded : abi.alignInt newCapacity kPayloadUnit = aligned newCapacity kPayloadUnit := by
    refine Abi.wrap_of_lt ?_
    rw [aligned, kPayloadUnit] at *
    omega
  rw [Pickle.resize, rounded]
  dsimp only
  cases answer : heap p.requests (aligned newCapacity kPayloadUnit) with
  | none => exact .inl ⟨rfl, _, _, most_is, answer⟩
  | some grant =>
    obtain ⟨placed, inside⟩ := valid _ _ grant answer
    refine .inr ⟨_, rfl, placed, inside, ?_, ?_, rfl, fun i below => ?_⟩
    · dsimp only
      rw [aligned, kPayloadUnit]
      omega
    · exact Nat.le_add_right _ _
    · have kept : min p.capacity (aligned newCapacity kPayloadUnit) = p.capacity :=
        Nat.min_eq_left (Nat.le_trans large (Nat.le_add_right _ _))
      dsimp only
      rw [kept, if_pos ⟨Nat.le_add_right _ _, by omega⟩, Nat.add_sub_cancel_left]

theorem beginWrite_spec (valid : heap.Valid abi) (int : most ≤ 2 ^ 31) (ready : p.Ready abi) {length : Nat}
    (fits : p.headerSize + (aligned p.payloadSize 4 + length) < most) :
    p.beginWrite abi heap length = none ∧ heap.Refuses most ∨
      ∃ p' dest, p.beginWrite abi heap length = some (p', dest) ∧ p'.Ready abi ∧
        p'.headerSize = p.headerSize ∧ p'.payloadSize = aligned p.payloadSize 4 + length ∧
        dest = p'.header + p'.headerSize + aligned p.payloadSize 4 ∧
        ∀ i < p.payloadSize, p'.byte i = p.byte i := by
  have limit := abi.limit_large
  have small := ready.small
  have offset : abi.alignInt p.payloadSize 4 = aligned p.payloadSize 4 := alignInt_four (by omega)
  have new_size : abi.wrap (aligned p.payloadSize 4 + length) = aligned p.payloadSize 4 + length :=
    Abi.wrap_of_lt (by omega)
  have needed : abi.wrap (p.headerSize + (aligned p.payloadSize 4 + length)) =
      p.headerSize + (aligned p.payloadSize 4 + length) := Abi.wrap_of_lt (by omega)
  obtain ⟨grown, chosen, either⟩ : ∃ grown, (if p.headerSize + (aligned p.payloadSize 4 + length) >
        p.capacity then p.resize abi heap (max (abi.wrap (p.capacity * 2))
          (p.headerSize + (aligned p.payloadSize 4 + length))) else some p) = grown ∧
      (grown = none ∧ heap.Refuses most ∨ ∃ p', grown = some p' ∧ 0 < p'.header ∧
        p'.header + p'.capacity < abi.limit ∧ p'.capacity % kPayloadUnit = 0 ∧
        p.headerSize + (aligned p.payloadSize 4 + length) ≤ p'.capacity ∧
        p'.headerSize = p.headerSize ∧
        ∀ i < p.capacity, p'.memory (p'.header + i) = p.memory (p.header + i)) := by
    refine ⟨_, rfl, ?_⟩
    split
    · rename_i short
      have unit := ready.capacity_aligned
      rw [kPayloadUnit] at unit
      have doubled : abi.wrap (p.capacity * 2) = p.capacity * 2 := Abi.wrap_of_lt (by omega)
      rw [doubled]
      have bound : max (p.capacity * 2) (p.headerSize + (aligned p.payloadSize 4 + length)) ≤
          2 ^ 32 - kPayloadUnit := by
        rw [kPayloadUnit]
        omega
      have larger : p.capacity ≤
          max (p.capacity * 2) (p.headerSize + (aligned p.payloadSize 4 + length)) := by omega
      have most_is : aligned (max (p.capacity * 2) (p.headerSize + (aligned p.payloadSize 4 + length)))
          kPayloadUnit ≤ 2 * most + kPayloadUnit := by
        rw [aligned, kPayloadUnit]
        omega
      rcases resize_spec valid larger bound most_is with
        refused | ⟨p', resized, placed, inside, units, large, rest⟩
      · exact .inl refused
      · exact .inr ⟨p', resized, placed, inside, units, Nat.le_trans (Nat.le_max_right _ _) large, rest⟩
    · rename_i enough
      exact .inr ⟨p, rfl, ready.placed, ready.inside, ready.capacity_aligned, by omega, rfl, fun _ _ => rfl⟩
  rw [Pickle.beginWrite, offset, new_size, needed, chosen]
  rcases either with ⟨rfl, refused⟩ | ⟨p', rfl, placed, inside, units, large, header, same⟩
  · exact .inl ⟨rfl, refused⟩
  · have size : (p'.setPayloadSize (aligned p.payloadSize 4 + length)).payloadSize =
        aligned p.payloadSize 4 + length := setPayloadSize_payloadSize (by omega)
    have header_large := ready.header_large
    have header_aligned := ready.header_aligned
    have room := ready.room
    rw [aligned_four] at *
    refine .inr ⟨_, _, rfl, ⟨placed, inside, ?_, ?_, units, ?_, ?_⟩, header, size, ?_, ?_⟩
    · change sizeofHeader ≤ p'.headerSize
      omega
    · change p'.headerSize % 4 = 0
      omega
    · rw [size, aligned_four]
      change p'.headerSize + _ ≤ p'.capacity
      rw [kPayloadUnit] at units
      omega
    · rw [size]
      change p'.headerSize + _ < _
      omega
    · have payload : p'.payload abi = p'.header + p'.headerSize := Abi.wrap_of_lt (by omega)
      rw [payload]
      exact Abi.wrap_of_lt (by omega)
    · intro i below
      have moved := same (p.headerSize + i) (by omega)
      rw [Pickle.byte, Pickle.byte, setPayloadSize_memory]
      · change p'.memory (p'.header + p'.headerSize + i) = _
        rw [header, Nat.add_assoc, moved, ← Nat.add_assoc]
      · change p'.header + sizeofHeader ≤ p'.header + p'.headerSize + i
        omega

end Specs

end Glopen.Base

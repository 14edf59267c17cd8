import Glopen.Base.PickleStored

/-! Typed values, and runs of typed writes to a new pickle. -/
namespace Glopen.Base

open Bytes Wire List

inductive Value (abi : Abi) where
  | bool (value : Bool)
  | int (value : BitVec 32)
  | long (value : BitVec (8 * abi.long))
  | size (value : BitVec (8 * abi.pointer))
  | uint32 (value : BitVec 32)
  | int64 (value : BitVec 64)
  | uint64 (value : BitVec 64)
  | string (value : List UInt8)
  | wstring (value : List (BitVec (8 * abi.wchar)))
  | string16 (value : List (BitVec 16))
  | data (value : List UInt8)

/-- A call of a `Write*` method, or `BeginWriteData` for `length` bytes, of which the caller writes
the `content`, and then `TrimWriteData`. -/
inductive WriteCall (abi : Abi) where
  | typed (value : Value abi)
  | trimmed (length : Nat) (content : List UInt8) (newLength : Nat)

def WriteCall.Proper {abi : Abi} : WriteCall abi → Prop
  | .typed _ => True
  | .trimmed length content newLength => newLength ≤ content.length ∧ content.length ≤ length

def WriteCall.value {abi : Abi} : WriteCall abi → Value abi
  | .typed value => value
  | .trimmed _ content newLength => .data (content.take newLength)

section Writing

variable (abi : Abi) (heap : Heap)

def Value.write (p : Pickle) : Value abi → Option Pickle
  | .bool value => p.writeBool abi heap value
  | .int value => p.writeInt abi heap value
  | .long value => p.writeLong abi heap value
  | .size value => p.writeSize abi heap value
  | .uint32 value => p.writeUInt32 abi heap value
  | .int64 value => p.writeInt64 abi heap value
  | .uint64 value => p.writeUInt64 abi heap value
  | .string value => p.writeString abi heap value
  | .wstring value => p.writeWString abi heap value
  | .string16 value => p.writeString16 abi heap value
  | .data value => p.writeData abi heap value

def WriteCall.run (p : Pickle) : WriteCall abi → Option Pickle
  | .typed value => value.write abi heap p
  | .trimmed length content newLength =>
    (p.beginWriteData abi heap (BitVec.ofNat 32 length)).map fun (p, dest) =>
      (p.fill dest content).trimWriteData abi (BitVec.ofNat 32 newLength)

def writeAll : List (WriteCall abi) → Pickle → Option Pickle
  | [], p => some p
  | call :: rest, p => (call.run abi heap p).bind (writeAll rest)

end Writing

section Sizes

variable {abi : Abi}

def Value.encoding : Value abi → List UInt8
  | .bool value => leBytes 4 (if value then 1 else 0)
  | .int value => leBytes 4 value.toNat
  | .long value => wordBytes value
  | .size value => wordBytes value
  | .uint32 value => leBytes 4 value.toNat
  | .int64 value => leBytes 8 value.toNat
  | .uint64 value => leBytes 8 value.toNat
  | .string value => leBytes 4 value.length ++ value
  | .wstring value => leBytes 4 value.length ++ value.flatMap wordBytes
  | .string16 value => leBytes 4 value.length ++ value.flatMap fun c => @wordBytes 2 c
  | .data value => leBytes 4 value.length ++ value

def Value.stop (payload : Nat) (value : Value abi) : Nat :=
  aligned payload 4 + value.encoding.length

def WriteCall.peak (payload : Nat) : WriteCall abi → Nat
  | .typed value => value.stop payload
  | .trimmed length _ _ => aligned payload 4 + (4 + length)

def StaysBelow (most headerSize : Nat) : Nat → List (WriteCall abi) → Prop
  | _, [] => True
  | payload, call :: rest =>
    headerSize + call.peak payload < most ∧ StaysBelow most headerSize (call.value.stop payload) rest

def stopOf : Nat → List (Value abi) → Nat
  | payload, [] => payload
  | payload, value :: rest => stopOf (value.stop payload) rest

def Stored (payloadBytes : Memory) : Nat → List (Value abi) → Prop
  | _, [] => True
  | payload, value :: rest =>
    bytesAt payloadBytes (aligned payload 4) value.encoding.length = value.encoding ∧
      Stored payloadBytes (value.stop payload) rest

theorem Value.le_stop (payload : Nat) (value : Value abi) : payload ≤ value.stop payload := by
  rw [Value.stop, aligned]
  omega

theorem le_stopOf (payload : Nat) (values : List (Value abi)) : payload ≤ stopOf payload values := by
  induction values generalizing payload with
  | nil => exact Nat.le_refl payload
  | cons value rest ih => exact Nat.le_trans (value.le_stop payload) (ih _)

end Sizes

section Runs

variable {abi : Abi} {heap : Heap} {p : Pickle} {most : Nat}

theorem writeFixed_spec (valid : heap.Valid abi) (int : most ≤ 2 ^ 31) (ready : p.Ready abi) {size : Nat}
    {value : BitVec (8 * size)}
    (fits : p.headerSize + (aligned p.payloadSize 4 + (wordBytes value).length) < most) :
    Writes abi heap most p (p.writeFixed abi heap value) (wordBytes value) :=
  writeBytes_spec valid int ready fits

theorem flatMap_wordBytes_length {size : Nat} (chars : List (BitVec (8 * size))) :
    (chars.flatMap wordBytes).length = chars.length * size := by
  induction chars with
  | nil => rw [length_nil, Nat.zero_mul]; rfl
  | cons c rest ih =>
    rw [flatMap_cons, length_append, ih, wordBytes, leBytes_length, length_cons]
    exact (Nat.add_comm _ _).trans (Nat.succ_mul _ _).symm

theorem few_chars {size : Nat} (positive : 0 < size) (chars : List (BitVec (8 * size))) :
    chars.length ≤ (chars.flatMap wordBytes).length := by
  rw [flatMap_wordBytes_length]
  exact Nat.le_mul_of_pos_right _ positive

theorem Abi.wchar_pos (abi : Abi) : 0 < abi.wchar := by
  rcases abi.wchar_size with size | size <;> omega

theorem Value.write_spec (valid : heap.Valid abi) (int : most ≤ 2 ^ 31) (ready : p.Ready abi) (value : Value abi)
    (fits : p.headerSize + value.stop p.payloadSize < most) :
    Writes abi heap most p (value.write abi heap p) value.encoding := by
  rw [Value.stop] at fits
  cases value with
  | bool value =>
    have number : (if value then (1 : BitVec 32) else 0).toNat = if value then 1 else 0 := by
      cases value <;> rfl
    have written := @writeInt_spec abi heap p most valid int ready (if value then 1 else 0) fits
    rwa [number] at written
  | int value => exact writeInt_spec valid int ready fits
  | long value => exact writeFixed_spec valid int ready fits
  | size value => exact writeFixed_spec valid int ready fits
  | uint32 value => exact writeInt_spec valid int ready fits
  | int64 value => exact @writeFixed_spec abi heap p most valid int ready 8 value fits
  | uint64 value => exact @writeFixed_spec abi heap p most valid int ready 8 value fits
  | string value =>
    rw [Value.encoding, length_append, leBytes_length] at fits
    exact writeCounted_spec valid int ready (Nat.le_refl _) fits
  | wstring value =>
    rw [Value.encoding, length_append, leBytes_length] at fits
    exact writeCounted_spec valid int ready (few_chars abi.wchar_pos value) fits
  | string16 value =>
    rw [Value.encoding, length_append, leBytes_length] at fits
    exact writeCounted_spec valid int ready (@few_chars 2 (by decide) value) fits
  | data value =>
    rw [Value.encoding, length_append, leBytes_length] at fits
    have accepted : 0 ≤ toInt value.length := by
      rw [toInt_of_small (by omega)]
      exact Int.natCast_nonneg _
    rw [Value.write, Pickle.writeData, if_pos accepted]
    exact writeCounted_spec valid int ready (Nat.le_refl _) fits

theorem WriteCall.run_spec (valid : heap.Valid abi) (int : most ≤ 2 ^ 31) (ready : p.Ready abi) {call : WriteCall abi}
    (proper : call.Proper) (fits : p.headerSize + call.peak p.payloadSize < most) :
    Writes abi heap most p (call.run abi heap p) call.value.encoding := by
  cases call with
  | typed value => exact value.write_spec valid int ready fits
  | trimmed length content newLength =>
    have written := trimmed_spec valid int ready proper.1 proper.2 fits
    have number : (content.take newLength).length = newLength := length_take_of_le proper.1
    rw [WriteCall.value, Value.encoding, number]
    exact written

structure WroteAll (abi : Abi) (p p' : Pickle) (values : List (Value abi)) : Prop where
  ready : p'.Ready abi
  headerSize : p'.headerSize = p.headerSize
  payload : p'.payloadSize = stopOf p.payloadSize values
  kept : ∀ i < p.payloadSize, p'.byte i = p.byte i
  stored : Stored p'.byte p.payloadSize values

theorem writeAll_spec (valid : heap.Valid abi) (int : most ≤ 2 ^ 31) (calls : List (WriteCall abi)) (p : Pickle)
    (ready : p.Ready abi) (proper : ∀ call ∈ calls, call.Proper)
    (fits : StaysBelow most p.headerSize p.payloadSize calls) :
    writeAll abi heap calls p = none ∧ heap.Refuses most ∨
      ∃ p', writeAll abi heap calls p = some p' ∧ WroteAll abi p p' (calls.map WriteCall.value) := by
  induction calls generalizing p with
  | nil => exact .inr ⟨p, rfl, ready, rfl, rfl, fun _ _ => rfl, trivial⟩
  | cons call rest ih =>
    rw [writeAll]
    rcases call.run_spec valid int ready (proper call mem_cons_self) fits.1 with
      ⟨failed, refused⟩ | ⟨p₁, ran, wrote⟩
    · rw [failed]
      exact .inl ⟨rfl, refused⟩
    · have payload : p₁.payloadSize = call.value.stop p.payloadSize := wrote.payload
      have small := fits.2
      rw [← wrote.headerSize, ← payload] at small
      rw [ran, Option.bind_some]
      rcases ih p₁ wrote.ready (fun call' later => proper call' (mem_cons_of_mem _ later)) small with
        failed | ⟨p₂, ran', rest_wrote⟩
      · exact .inl failed
      · have grown : p.payloadSize ≤ p₁.payloadSize := payload ▸ call.value.le_stop p.payloadSize
        refine .inr ⟨p₂, ran', rest_wrote.ready, rest_wrote.headerSize.trans wrote.headerSize, ?_,
          fun i below => ?_, ?_, ?_⟩
        · rw [rest_wrote.payload, payload]
          rfl
        · rw [rest_wrote.kept i (Nat.lt_of_lt_of_le below grown), wrote.kept i below]
        · have same : bytesAt p₂.byte (aligned p.payloadSize 4) call.value.encoding.length =
              bytesAt p₁.byte (aligned p.payloadSize 4) call.value.encoding.length :=
            bytesAt_congr fun i small => rest_wrote.kept _ (by rw [wrote.payload]; omega)
          rw [same, wrote.stored]
        · rw [← payload]
          exact rest_wrote.stored

theorem newPickle_spec (valid : heap.Valid abi) {headerSize : Nat} (large : sizeofHeader ≤ headerSize)
    (small : headerSize ≤ kPayloadUnit) : newPickle abi heap headerSize = none ∧ heap.Refuses most ∨
      ∃ p, newPickle abi heap headerSize = some p ∧ p.Ready abi ∧
        p.headerSize = aligned headerSize 4 ∧ p.payloadSize = 0 := by
  have header : abi.alignInt headerSize 4 = aligned headerSize 4 := by
    rw [kPayloadUnit] at small
    exact alignInt_four (by omega)
  rw [newPickle, header]
  rcases @resize_spec abi heap ⟨fun _ => 0, 0, aligned headerSize 4, 0, 0, 0⟩ most kPayloadUnit valid
      (Nat.zero_le _) (by decide) (Nat.le_add_left _ _) with ⟨failed, refused⟩ | ⟨p, resized, placed, inside, units, enough, kept, -⟩
  · rw [failed]
    exact .inl ⟨rfl, refused⟩
  · rw [resized]
    have empty : (p.setPayloadSize 0).payloadSize = 0 := setPayloadSize_payloadSize (by decide)
    dsimp only at kept
    rw [aligned_four] at kept
    rw [sizeofHeader] at large
    rw [kPayloadUnit] at small enough
    refine .inr ⟨_, rfl, ⟨placed, inside, ?_, ?_, units, ?_, ?_⟩, kept, empty⟩
    · change 4 ≤ p.headerSize
      omega
    · change p.headerSize % 4 = 0
      omega
    · rw [empty]
      change p.headerSize + 0 ≤ p.capacity
      omega
    · rw [empty]
      change p.headerSize + 0 < _
      omega

end Runs

/-! Values that were written are read back, from the pickle and from a copy of its bytes. -/

inductive Kind where
  | bool | int | long | size | uint32 | int64 | uint64 | string | wstring | string16 | data
deriving DecidableEq

section Reading

variable {abi : Abi}

def Value.kind : Value abi → Kind
  | .bool _ => .bool
  | .int _ => .int
  | .long _ => .long
  | .size _ => .size
  | .uint32 _ => .uint32
  | .int64 _ => .int64
  | .uint64 _ => .uint64
  | .string _ => .string
  | .wstring _ => .wstring
  | .string16 _ => .string16
  | .data _ => .data

/-- The method for a type; `ReadData` gives a pointer and a length. -/
def Kind.read (abi : Abi) (p : Pickle) : Kind → Read (Value abi)
  | .bool => (p.readBool abi).map .bool
  | .int => (p.readInt abi).map .int
  | .long => (p.readLong abi).map .long
  | .size => (p.readSize abi).map .size
  | .uint32 => (p.readUInt32 abi).map .uint32
  | .int64 => (p.readInt64 abi).map .int64
  | .uint64 => (p.readUInt64 abi).map .uint64
  | .string => (p.readString abi).map .string
  | .wstring => (p.readWString abi).map .wstring
  | .string16 => (p.readString16 abi).map .string16
  | .data => (p.readData abi).map fun (ptr, length) => .data (bytesAt p.memory ptr length.toNat)

def readValues (abi : Abi) (p : Pickle) : List Kind → Read (List (Value abi))
  | [] => .done []
  | kind :: rest => (kind.read abi p).andThen fun value =>
      (readValues abi p rest).map fun values => value :: values

def Gives {α : Type} (read : Read α) (iter : Nat) (a : α) (iter' : Nat) : Prop :=
  (read iter).value = some a ∧ (read iter).iter = iter'

variable {α β : Type} {iter iter' : Nat} {a : α} {first : Read α} {next : α → Read β}

theorem Gives.map {read : Read α} (gives : Gives read iter a iter')
    (f : α → β) : Gives (read.map f) iter (f a) iter' :=
  ⟨congrArg (Option.map f) gives.1, gives.2⟩

theorem Gives.andThen {iter'' : Nat}
    {b : β} (one : Gives first iter a iter') (two : Gives (next a) iter' b iter'') :
    Gives (first.andThen next) iter b iter'' := by
  simp only [Gives, Read.andThen, one.1, one.2]
  exact two

structure Pickle.Readable (abi : Abi) (p : Pickle) : Prop where
  placed : 0 < p.header
  inside : p.header + p.headerSize + aligned p.payloadSize 4 < abi.limit
  small : p.payloadSize < 2 ^ 31

variable {p : Pickle}

def Pickle.At (p : Pickle) (o iter : Nat) : Prop :=
  iter = p.header + p.headerSize + o ∨ iter = 0 ∧ o = 0

section Moves

variable (readable : p.Readable abi)
include readable

theorem Pickle.Readable.payload : p.payload abi = p.header + p.headerSize :=
  Abi.wrap_of_lt (by have inside := readable.inside; omega)

theorem Pickle.Readable.stop : p.endOfPayload abi = p.header + p.headerSize + p.payloadSize := by
  have inside := readable.inside
  rw [aligned_four] at inside
  rw [Pickle.endOfPayload, readable.payload]
  exact Abi.wrap_of_lt (by omega)

theorem Pickle.Readable.start {o : Nat} (at_o : p.At o iter) :
    p.start abi iter = p.header + p.headerSize + o := by
  have placed := readable.placed
  rcases at_o with rfl | ⟨rfl, rfl⟩
  · exact if_neg (by omega)
  · exact (if_pos rfl).trans readable.payload

theorem take_gives {o length size : Nat} (words : o % 4 = 0) (room : o + length ≤ p.payloadSize) :
    Gives (p.take abi length size) (p.header + p.headerSize + o) (p.header + p.headerSize + o)
      (p.header + p.headerSize + aligned (o + length) 4) := by
  have limit := abi.limit_large
  have inside := readable.inside
  have small := readable.small
  rw [aligned_four] at inside
  have region : abi.wrap (p.header + p.headerSize + o + (length : Int).toNat) =
      p.header + p.headerSize + o + length := by
    rw [Int.toNat_natCast]
    exact Abi.wrap_of_lt (by omega)
  have fits : p.iteratorHasRoomFor abi (p.header + p.headerSize + o) length = true := by
    rw [Pickle.iteratorHasRoomFor, readable.stop, if_neg (by omega), region]
    exact decide_eq_true ⟨by omega, by omega⟩
  have moved : updateIter abi (p.header + p.headerSize + o) length =
      p.header + p.headerSize + aligned (o + length) 4 := by
    rw [updateIter, Abi.toSize_natCast (by omega), alignInt_four (by omega), aligned_four, aligned_four,
      Abi.wrap_of_lt (by omega)]
    omega
  rw [Gives, Pickle.take, if_pos fits, moved]
  exact ⟨rfl, rfl⟩

theorem take_fails {o length size : Nat} (behind : p.payloadSize ≤ o)
    (before : o ≤ aligned p.payloadSize 4) (some_bytes : 0 < length) (small : length < 2 ^ 31) :
    (p.take abi length size (p.header + p.headerSize + o)).value = none := by
  have limit := abi.limit_large
  have inside := readable.inside
  have refused : ¬ p.iteratorHasRoomFor abi (p.header + p.headerSize + o) length = true := by
    rw [Pickle.iteratorHasRoomFor, readable.stop]
    split
    · exact Bool.false_ne_true
    · intro room
      have fits := of_decide_eq_true room
      rw [Int.toNat_natCast] at fits
      have cases_wrap := Nat.lt_or_ge (p.header + p.headerSize + o + length) abi.limit
      rcases cases_wrap with below | above
      · rw [Abi.wrap_of_lt below] at fits
        omega
      · -- a sum that wraps is below the iterator
        have once : abi.wrap (p.header + p.headerSize + o + length) =
            p.header + p.headerSize + o + length - abi.limit := by
          rw [Abi.wrap, Nat.mod_eq_sub_mod above, Nat.mod_eq_of_lt (by omega)]
        omega
  rw [Pickle.take, if_neg refused]

variable {o : Nat}
variable {n : Nat}

theorem readFixed_gives {size : Nat} (at_o : p.At o iter) (words : o % 4 = 0)
    (room : o + size ≤ p.payloadSize) (there : bytesAt p.byte o size = leBytes size n)
    (value : BitVec (8 * size)) (is_n : value.toNat = n) :
    Gives (p.readFixed abi size) iter value (p.header + p.headerSize + aligned (o + size) 4) := by
  have taken := @take_gives abi p readable o size size words room
  rw [← readable.start at_o] at taken
  have word : wordOf size (bytesAt p.memory (p.header + p.headerSize + o) size) = value := by
    have bound := value.isLt
    have width : (256 : Nat) ^ size = 2 ^ (8 * size) := by rw [Nat.pow_mul]
    rw [← bytesAt_byte, there, wordOf, leValue_leBytes, ← is_n, width, Nat.mod_eq_of_lt bound,
      BitVec.ofNat_toNat, BitVec.setWidth_eq]
  have started : Gives ((p.take abi size size).startedAt (p.start abi)) iter
      (p.header + p.headerSize + o) (p.header + p.headerSize + aligned (o + size) 4) := by
    rw [readable.start at_o] at taken
    rw [Gives, Read.startedAt, readable.start at_o]
    exact taken
  exact word ▸ started.map fun a => wordOf size (bytesAt p.memory a size)

theorem readLength_gives (at_o : p.At o iter) (words : o % 4 = 0)
    (room : o + 4 ≤ p.payloadSize) (there : bytesAt p.byte o 4 = leBytes 4 n) (few : n < 2 ^ 31) :
    Gives (p.readLength abi) iter (n : Int) (p.header + p.headerSize + (o + 4)) := by
  have number : (BitVec.ofNat 32 n).toNat = n := by
    rw [BitVec.toNat_ofNat]
    exact Nat.mod_eq_of_lt (by omega)
  have read := readFixed_gives readable at_o words room there (BitVec.ofNat 32 n) number
  have multiple : aligned (o + 4) 4 = o + 4 := by
    rw [aligned_four]
    omega
  rw [multiple] at read
  refine read.andThen ?_
  have int : (BitVec.ofNat 32 n).toInt = n := bitVec_small few
  rw [int, if_pos (Int.natCast_nonneg n)]
  exact ⟨rfl, rfl⟩

theorem readFixed_fails {size : Nat} (at_o : p.At o iter) (behind : p.payloadSize ≤ o)
    (before : o ≤ aligned p.payloadSize 4) (some_bytes : 0 < size) (small : size < 2 ^ 31) :
    (p.readFixed abi size iter).value = none := by
  have refused := @take_fails abi p readable o size size behind before some_bytes small
  rw [Pickle.readFixed, Read.map, Read.startedAt]
  dsimp only
  rw [readable.start at_o, refused]
  rfl

theorem readLength_fails (at_o : p.At o iter) (behind : p.payloadSize ≤ o)
    (before : o ≤ aligned p.payloadSize 4) : (p.readLength abi iter).value = none := by
  have refused : (p.readInt abi iter).value = none :=
    readFixed_fails readable at_o behind before (by decide) (by decide)
  rw [Pickle.readLength, Read.andThen]
  dsimp only
  rw [refused]

omit readable in
theorem andThen_fails (failed : (first iter).value = none) : ((first.andThen next) iter).value = none := by
  rw [Read.andThen]
  dsimp only
  rw [failed]

omit readable in
theorem map_fails {read : Read α} (failed : (read iter).value = none) (f : α → β) :
    ((read.map f) iter).value = none :=
  congrArg (Option.map f) failed

theorem Kind.read_fails (kind : Kind) (at_o : p.At o iter) (behind : p.payloadSize ≤ o)
    (before : o ≤ aligned p.payloadSize 4) : (kind.read abi p iter).value = none := by
  have long : 0 < abi.long ∧ abi.long < 2 ^ 31 := by
    rcases abi.long_size with size | size <;> rw [size] <;> decide
  have pointer : 0 < abi.pointer ∧ abi.pointer < 2 ^ 31 := by
    rcases abi.pointer_size with size | size <;> rw [size] <;> decide
  have fixed : ∀ {size : Nat}, 0 < size ∧ size < 2 ^ 31 → (p.readFixed abi size iter).value = none :=
    fun size => readFixed_fails readable at_o behind before size.1 size.2
  have four : (p.readFixed abi 4 iter).value = none := fixed (by decide)
  have eight : (p.readFixed abi 8 iter).value = none := fixed (by decide)
  have length := readLength_fails readable at_o behind before
  cases kind with
  | bool => exact map_fails (map_fails four _) _
  | int => exact map_fails four _
  | long => exact map_fails (fixed long) _
  | size => exact map_fails (fixed pointer) _
  | uint32 => exact map_fails four _
  | int64 => exact map_fails eight _
  | uint64 => exact map_fails eight _
  | string => exact map_fails (andThen_fails length) _
  | wstring => exact map_fails (andThen_fails length) _
  | string16 => exact map_fails (andThen_fails length) _
  | data => exact map_fails (andThen_fails length) _

end Moves

end Reading

end Glopen.Base

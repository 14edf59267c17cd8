import Glopen.Base.PickleTrip

/-! The round trip of every run of typed writes. -/
namespace Glopen.Base

open Bytes Wire List

theorem charsOf_flatMap {size : Nat} (chars : List (BitVec (8 * size))) :
    charsOf size chars.length (chars.flatMap wordBytes) = chars := by
  induction chars with
  | nil => rfl
  | cons c rest ih =>
    have width : (256 : Nat) ^ size = 2 ^ (8 * size) := by rw [Nat.pow_mul]
    have length : (wordBytes c).length = size := leBytes_length _ _
    have word : wordOf size (wordBytes c) = c := by
      rw [wordOf, wordBytes, leValue_leBytes, width, Nat.mod_eq_of_lt c.isLt, BitVec.ofNat_toNat,
        BitVec.setWidth_eq]
    rw [length_cons, charsOf, flatMap_cons, take_left' length, drop_left' length, word, ih]

variable {abi : Abi} {n : Nat} {values : List (Value abi)} {payload : Nat} {p : Pickle}

theorem Stored.congr {f g : Memory} (same : ∀ i < n, f i = g i) (stored : Stored f payload values)
    (inside : stopOf payload values ≤ n) : Stored g payload values := by
  induction values generalizing payload with
  | nil => trivial
  | cons value rest ih =>
    have first := Nat.le_trans (le_stopOf (value.stop payload) rest) inside
    rw [Value.stop] at first
    refine ⟨?_, ih stored.2 inside⟩
    have bytes : bytesAt f (aligned payload 4) value.encoding.length =
        bytesAt g (aligned payload 4) value.encoding.length :=
      bytesAt_congr fun i small => same _ (by omega)
    rw [← bytes, stored.1]

section Trip

variable (readable : p.Readable abi)
include readable

variable {iter : Nat}

section Counted

variable {o : Nat} {bytes : List UInt8}

theorem counted_gives (at_o : p.At o iter) (words : o % 4 = 0)
    (room : o + (leBytes 4 n ++ bytes).length ≤ p.payloadSize)
    (there : bytesAt p.byte o (leBytes 4 n ++ bytes).length = leBytes 4 n ++ bytes) (few : n < 2 ^ 31) :
    Gives (p.readLength abi) iter (n : Int) (p.header + p.headerSize + (o + 4)) ∧
      (∀ size, Gives (p.take abi bytes.length size) (p.header + p.headerSize + (o + 4))
        (p.header + p.headerSize + (o + 4))
        (p.header + p.headerSize + aligned (o + (leBytes 4 n ++ bytes).length) 4)) ∧
      bytesAt p.memory (p.header + p.headerSize + (o + 4)) bytes.length = bytes := by
  rw [length_append, leBytes_length] at there room ⊢
  rw [bytesAt_add] at there
  obtain ⟨number, rest⟩ := append_inj there (by rw [bytesAt_length, leBytes_length])
  rw [bytesAt_byte] at rest
  refine ⟨readLength_gives readable at_o words (by omega) number few, fun size => ?_, rest⟩
  rw [← Nat.add_assoc o 4]
  exact take_gives readable (by omega) (by omega)

section

variable {value : List UInt8} (at_o : p.At o iter) (words : o % 4 = 0)
  (room : o + (leBytes 4 value.length ++ value).length ≤ p.payloadSize)
  (there : bytesAt p.byte o (leBytes 4 value.length ++ value).length = leBytes 4 value.length ++ value)
  (few : value.length < 2 ^ 31)
include at_o words room there few

theorem string_gives : Gives (p.readString abi) iter value
      (p.header + p.headerSize + aligned (o + (leBytes 4 value.length ++ value).length) 4) := by
  obtain ⟨length, taken, bytes⟩ := counted_gives readable at_o words room there few
  have read := (taken value.length).map fun a => bytesAt p.memory a value.length
  rw [bytes] at read
  exact length.andThen read

theorem data_gives : Gives ((Kind.data).read abi p) iter (.data value)
      (p.header + p.headerSize + aligned (o + (leBytes 4 value.length ++ value).length) 4) := by
  obtain ⟨length, taken, bytes⟩ := counted_gives readable at_o words room there few
  have start : p.start abi (p.header + p.headerSize + (o + 4)) = p.header + p.headerSize + (o + 4) :=
    readable.start (.inl rfl)
  have started : Gives (p.readBytes abi value.length) (p.header + p.headerSize + (o + 4))
      (p.header + p.headerSize + (o + 4))
      (p.header + p.headerSize + aligned (o + (leBytes 4 value.length ++ value).length) 4) := by
    rw [Gives, Pickle.readBytes, Read.startedAt, start]
    exact taken value.length
  have pointer : Gives (p.readData abi) iter (p.header + p.headerSize + (o + 4), (value.length : Int))
      (p.header + p.headerSize + aligned (o + (leBytes 4 value.length ++ value).length) 4) :=
    length.andThen (started.map _)
  have read := pointer.map fun data =>
    (Value.data (bytesAt p.memory data.1 data.2.toNat) : Value abi)
  dsimp only at read
  rw [Int.toNat_natCast, bytes] at read
  exact read

end

theorem wstring_gives {value : List (BitVec (8 * abi.wchar))} (at_o : p.At o iter) (words : o % 4 = 0)
    (room : o + (leBytes 4 value.length ++ value.flatMap wordBytes).length ≤ p.payloadSize)
    (there : bytesAt p.byte o (leBytes 4 value.length ++ value.flatMap wordBytes).length =
      leBytes 4 value.length ++ value.flatMap wordBytes) :
    Gives (p.readWString abi) iter value (p.header + p.headerSize +
      aligned (o + (leBytes 4 value.length ++ value.flatMap wordBytes).length) 4) := by
  have small := readable.small
  have few := few_chars abi.wchar_pos value
  have size := flatMap_wordBytes_length value
  have total := room
  rw [length_append, leBytes_length] at total
  obtain ⟨length, taken, bytes⟩ := counted_gives readable at_o words room there (by omega)
  have guarded : ¬ (value.length : Int) > (intMax / abi.wchar : Nat) := by
    have fits : value.length ≤ intMax / abi.wchar := by
      rw [Nat.le_div_iff_mul_le abi.wchar_pos, ← size, intMax]
      omega
    omega
  have read := (taken (value.length * abi.wchar)).map fun a =>
    charsOf abi.wchar value.length (bytesAt p.memory a (value.length * abi.wchar))
  rw [← size, bytes, charsOf_flatMap] at read
  refine length.andThen ?_
  rw [if_neg guarded, Int.toNat_natCast, ← Int.natCast_mul, ← size]
  exact read

theorem string16_gives {value : List (BitVec 16)} (at_o : p.At o iter) (words : o % 4 = 0)
    (room : o + (leBytes 4 value.length ++ value.flatMap fun c => @wordBytes 2 c).length ≤ p.payloadSize)
    (there : bytesAt p.byte o (leBytes 4 value.length ++ value.flatMap fun c => @wordBytes 2 c).length =
      leBytes 4 value.length ++ value.flatMap fun c => @wordBytes 2 c) :
    Gives (p.readString16 abi) iter value (p.header + p.headerSize +
      aligned (o + (leBytes 4 value.length ++ value.flatMap fun c => @wordBytes 2 c).length) 4) := by
  have small := readable.small
  have limit := abi.limit_large
  have size : (value.flatMap fun c => @wordBytes 2 c).length = value.length * 2 :=
    @flatMap_wordBytes_length 2 value
  have total := room
  rw [length_append, leBytes_length] at total
  obtain ⟨length, taken, bytes⟩ := counted_gives readable at_o words room there (by omega)
  have product : toInt (abi.wrap (value.length * 2)) = ((value.length * 2 : Nat) : Int) := by
    rw [Abi.wrap_of_lt (by omega)]
    exact toInt_of_small (by omega)
  have read := (taken (value.length * 2)).map fun a =>
    charsOf 2 value.length (bytesAt p.memory a (value.length * 2))
  rw [← size, bytes, @charsOf_flatMap 2 value] at read
  refine length.andThen ?_
  rw [Int.toNat_natCast, product, ← size]
  exact read

theorem Value.gives (value : Value abi) (at_o : p.At o iter) (words : o % 4 = 0)
    (room : o + value.encoding.length ≤ p.payloadSize)
    (there : bytesAt p.byte o value.encoding.length = value.encoding) : Gives (value.kind.read abi p) iter value
      (p.header + p.headerSize + aligned (o + value.encoding.length) 4) := by
  have small := readable.small
  have fixed : ∀ {size : Nat} (word : BitVec (8 * size)), o + (wordBytes word).length ≤ p.payloadSize →
      bytesAt p.byte o (wordBytes word).length = wordBytes word →
      Gives (p.readFixed abi size) iter word
        (p.header + p.headerSize + aligned (o + (wordBytes word).length) 4) := by
    intro size word room there
    have length : (wordBytes word).length = size := leBytes_length _ _
    rw [length] at room there ⊢
    exact readFixed_gives readable at_o words room there word rfl
  cases value with
  | bool value =>
    have number : (if value then (1 : BitVec 32) else 0).toNat = if value then 1 else 0 := by
      cases value <;> rfl
    have word : @wordBytes 4 (if value then 1 else 0) = (Value.bool value : Value abi).encoding := by
      rw [wordBytes, number]
      rfl
    rw [← word] at room there ⊢
    have tmp : ((if value then (1 : BitVec 32) else 0) != 0) = value := by cases value <;> rfl
    have read := ((@fixed 4 (if value then 1 else 0) room there).map (fun tmp => tmp != 0)).map
      (Value.bool : Bool → Value abi)
    rw [tmp] at read
    exact read
  | int value => exact (@fixed 4 value room there).map _
  | long value => exact (fixed value room there).map _
  | size value => exact (fixed value room there).map _
  | uint32 value => exact (@fixed 4 value room there).map _
  | int64 value => exact (@fixed 8 value room there).map _
  | uint64 value => exact (@fixed 8 value room there).map _
  | string value =>
    have total := room
    rw [Value.encoding, length_append] at total
    exact (string_gives readable at_o words room there (by omega)).map _
  | wstring value => exact (wstring_gives readable at_o words room there).map _
  | string16 value => exact (string16_gives readable at_o words room there).map _
  | data value =>
    have total := room
    rw [Value.encoding, length_append] at total
    exact data_gives readable at_o words room there (by omega)

end Counted

theorem readValues_gives (values : List (Value abi))
    (at_start : p.At (aligned payload 4) iter) (stored : Stored p.byte payload values)
    (inside : stopOf payload values ≤ p.payloadSize) :
    ∃ iter', Gives (readValues abi p (values.map Value.kind)) iter values iter' ∧
      p.At (aligned (stopOf payload values) 4) iter' := by
  induction values generalizing payload iter with
  | nil => exact ⟨iter, ⟨rfl, rfl⟩, at_start⟩
  | cons value rest ih =>
    have words : aligned payload 4 % 4 = 0 := by
      rw [aligned_four]
      omega
    have room := Nat.le_trans (le_stopOf (value.stop payload) rest) inside
    have first := value.gives readable at_start words room stored.1
    obtain ⟨iter', read, at_end⟩ := ih (.inl rfl) stored.2 inside
    exact ⟨iter', first.andThen (read.map _), at_end⟩

theorem reads_back (stored : Stored p.byte 0 values) (payload : p.payloadSize = stopOf 0 values) (kind : Kind) :
    (readValues abi p (values.map Value.kind) 0).value = some values ∧
      (kind.read abi p (readValues abi p (values.map Value.kind) 0).iter).value = none := by
  have at_start : p.At (aligned 0 4) 0 := .inr ⟨rfl, rfl⟩
  obtain ⟨iter', gives, at_end⟩ := readValues_gives readable values at_start stored (Nat.le_of_eq payload.symm)
  rw [← payload] at at_end
  refine ⟨gives.1, ?_⟩
  rw [gives.2]
  exact kind.read_fails readable at_end (Nat.le_add_right _ _) (Nat.le_refl _)

end Trip

/-- `size()`. -/
def Pickle.size (p : Pickle) : Nat := p.headerSize + p.payloadSize

inductive Pickle.ReadAs (abi : Abi) (p : Pickle) : Pickle → Prop where
  | self : p.ReadAs abi p
  | constructed {memory : Memory} {data : Nat}
      (same : bytesAt memory data p.size = bytesAt p.memory p.header p.size) (placed : 0 < data)
      (inside : data + aligned p.size 4 < abi.limit) :
      p.ReadAs abi (ofData abi memory data (BitVec.ofNat 32 p.size))

theorem Pickle.Ready.readable (ready : p.Ready abi) : p.Readable abi := by
  have inside := ready.inside
  have room := ready.room
  have small := ready.small
  exact ⟨ready.placed, by omega, by omega⟩

theorem constructed_reads (ready : p.Ready abi) {memory : Memory} {data : Nat}
    (same : bytesAt memory data p.size = bytesAt p.memory p.header p.size) (placed : 0 < data)
    (inside : data + aligned p.size 4 < abi.limit) :
    (ofData abi memory data (BitVec.ofNat 32 p.size)).Readable abi ∧
      (ofData abi memory data (BitVec.ofNat 32 p.size)).payloadSize = p.payloadSize ∧
      ∀ i < p.payloadSize, p.byte i = (ofData abi memory data (BitVec.ofNat 32 p.size)).byte i := by
  have large := ready.header_large
  have words := ready.header_aligned
  have small := ready.small
  rw [Pickle.size] at *
  rw [sizeofHeader] at large
  have bytes := bytesAt_inj same
  have payload : (ofData abi memory data (BitVec.ofNat 32 (p.headerSize + p.payloadSize))).payloadSize =
      p.payloadSize := by
    refine congrArg leValue (bytesAt_congr fun i below => ?_)
    rw [sizeofHeader] at below
    exact bytes i (by omega)
  have header := @ofData_headerSize abi memory data _ small
  rw [← @ofData_payloadSize abi memory data (BitVec.ofNat 32 (p.headerSize + p.payloadSize)), payload] at header
  have header_is : (ofData abi memory data (BitVec.ofNat 32 (p.headerSize + p.payloadSize))).headerSize =
      p.headerSize := by omega
  refine ⟨⟨placed, ?_, ?_⟩, payload, fun i below => ?_⟩
  · rw [header_is, payload, aligned_four]
    rw [aligned_four] at inside
    change data + p.headerSize + _ < _
    omega
  · rw [payload]
    omega
  · rw [Pickle.byte, Pickle.byte, header_is, Nat.add_assoc, ← bytes _ (by omega), ← Nat.add_assoc]
    rfl

section Pickles

variable {heap : Heap} {headerSize most : Nat} {calls : List (WriteCall abi)}

def pickleOf (abi : Abi) (heap : Heap) (headerSize : Nat) (calls : List (WriteCall abi)) :
    Option Pickle :=
  (newPickle abi heap headerSize).bind (writeAll abi heap calls)

/-- Only a refused allocation stops a run of writes, and all that it wrote is read back. -/
theorem pickle_round_trip (valid : heap.Valid abi) (large : sizeofHeader ≤ headerSize)
    (small : headerSize ≤ kPayloadUnit) (int : most ≤ 2 ^ 31) (proper : ∀ call ∈ calls, call.Proper)
    (fits : StaysBelow most (aligned headerSize 4) 0 calls) :
    pickleOf abi heap headerSize calls = none ∧ heap.Refuses most ∨
      ∃ p, pickleOf abi heap headerSize calls = some p ∧ ∀ q, p.ReadAs abi q → ∀ kind : Kind,
        let step := readValues abi q (calls.map fun call => call.value.kind) 0
        step.value = some (calls.map WriteCall.value) ∧ (kind.read abi q step.iter).value = none := by
  rw [pickleOf]
  rcases @newPickle_spec abi heap most valid headerSize large small with
    ⟨failed, refused⟩ | ⟨p₀, made, ready₀, header₀, payload₀⟩
  · rw [failed]
    exact Or.inl ⟨rfl, refused⟩
  rw [made, Option.bind_some]
  rw [← header₀, ← payload₀] at fits
  rcases writeAll_spec valid int calls p₀ ready₀ proper fits with failed | ⟨p, ran, wrote⟩
  · exact Or.inl failed
  refine Or.inr ⟨p, ran, fun q reader kind => ?_⟩
  have kinds : (calls.map fun call => call.value.kind) = (calls.map WriteCall.value).map Value.kind := by
    rw [List.map_map]
    rfl
  have stored := wrote.stored
  have payload := wrote.payload
  rw [payload₀] at stored payload
  rw [kinds]
  cases reader with
  | self => exact reads_back wrote.ready.readable stored payload kind
  | constructed same placed inside =>
    obtain ⟨readable, size, bytes⟩ := constructed_reads wrote.ready same placed inside
    exact reads_back readable (stored.congr bytes (Nat.le_of_eq payload.symm)) (size.trans payload) kind

end Pickles

def pageHeap : Heap := fun _ size => if size ≤ 4096 then some ⟨65536, fun _ => 170⟩ else none

theorem pageHeap_valid : pageHeap.Valid abi64 := by
  intro request size grant answer
  rw [pageHeap] at answer
  split at answer
  · cases answer
    have limit := abi64.limit_large
    have inside : 65536 + size < abi64.limit := by omega
    exact ⟨by decide, inside⟩
  · cases answer

def sampleCalls : List (WriteCall abi64) :=
  [.typed (.bool true), .typed (.string [0x68, 0x69, 0x21]), .trimmed 10 [1, 2, 3, 4, 5] 3, .typed (.int 7)]

theorem sample_round_trip_pickle : (pickleOf abi64 pageHeap 4 sampleCalls).isSome = true ∧
    (pickleOf abi64 pageHeap 4 sampleCalls = none ∧ pageHeap.Refuses 100 ∨
      ∃ p, pickleOf abi64 pageHeap 4 sampleCalls = some p ∧ ∀ q, p.ReadAs abi64 q → ∀ kind : Kind,
        let step := readValues abi64 q (sampleCalls.map fun call => call.value.kind) 0
        step.value = some (sampleCalls.map WriteCall.value) ∧ (kind.read abi64 q step.iter).value = none) :=
  ⟨by decide +kernel, pickle_round_trip pageHeap_valid (by decide) (by decide) (by decide)
    (by simp [sampleCalls, WriteCall.Proper]) (by
      simp [sampleCalls, StaysBelow, WriteCall.peak, WriteCall.value, Value.stop, Value.encoding,
        aligned, leBytes_length])⟩

end Glopen.Base

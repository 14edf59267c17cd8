import Glopen.Base.Pickle

/-! Which bytes the readers of a buffer from outside touch. -/
namespace Glopen.Base

open Bytes Wire List

inductive ReadCall where
  | bool | int | long | size | uint32 | int64 | uint64 | string | wstring | string16 | data | length
  | bytes (length : BitVec 32)

def Read.trace {α : Type} (read : Read α) (iter : Nat) : Nat × List Access :=
  ((read iter).iter, (read iter).accesses)

def ReadCall.run (abi : Abi) (p : Pickle) : ReadCall → Nat → Nat × List Access
  | .bool => (p.readBool abi).trace
  | .int => (p.readInt abi).trace
  | .long => (p.readLong abi).trace
  | .size => (p.readSize abi).trace
  | .uint32 => (p.readUInt32 abi).trace
  | .int64 => (p.readInt64 abi).trace
  | .uint64 => (p.readUInt64 abi).trace
  | .string => (p.readString abi).trace
  | .wstring => (p.readWString abi).trace
  | .string16 => (p.readString16 abi).trace
  | .data => (p.readData abi).trace
  | .length => (p.readLength abi).trace
  | .bytes count => (p.readBytes abi count.toInt).trace

def readAll (abi : Abi) (p : Pickle) : List ReadCall → Nat → List Access
  | [], _ => []
  | call :: rest, iter =>
    let (iter, accesses) := call.run abi p iter
    accesses ++ readAll abi p rest iter

/-- The constructor reads the payload size; the iterator starts as `NULL`. -/
def readFrom (abi : Abi) (memory : Memory) (data n : Nat) (calls : List ReadCall) : List Access :=
  ⟨data, sizeofHeader⟩ :: readAll abi (ofData abi memory data (BitVec.ofNat 32 n)) calls 0

def Access.Within (data n : Nat) (a : Access) : Prop :=
  data ≤ a.address ∧ a.address + a.length ≤ data + n

instance (data n : Nat) (a : Access) : Decidable (a.Within data n) :=
  inferInstanceAs (Decidable (_ ∧ _))

theorem Abi.limit_pos (abi : Abi) : 0 < abi.limit := Nat.two_pow_pos _

theorem Abi.limit_large (abi : Abi) : 2 ^ 32 ≤ abi.limit := by
  refine Nat.pow_le_pow_right (by decide) ?_
  rcases abi.pointer_size with size | size <;> omega

theorem Abi.wrap_lt (abi : Abi) (n : Nat) : abi.wrap n < abi.limit := Nat.mod_lt _ abi.limit_pos

theorem Abi.wrap_of_lt {abi : Abi} {n : Nat} (small : n < abi.limit) : abi.wrap n = n :=
  Nat.mod_eq_of_lt small

theorem Abi.wrap_add (abi : Abi) (m n : Nat) : abi.wrap (abi.wrap m + n) = abi.wrap (m + n) :=
  Nat.mod_add_mod m abi.limit n

theorem leValue_lt (bytes : List UInt8) : leValue bytes < 256 ^ bytes.length := by
  induction bytes with
  | nil => exact Nat.one_pos
  | cons byte rest ih =>
    have small := byte.toNat_lt
    rw [leValue, length_cons, Nat.pow_succ]
    omega

theorem Pickle.payloadSize_lt (p : Pickle) : p.payloadSize < 2 ^ 32 := by
  have small := leValue_lt (bytesAt p.memory p.header sizeofHeader)
  rwa [bytesAt_length] at small

section Confined

variable {abi : Abi} {p : Pickle} {data n : Nat}

def Read.Confined {α : Type} (data n : Nat) (read : Read α) : Prop :=
  ∀ iter, ∀ a ∈ (read iter).accesses, a.Within data n

variable {α β : Type} {read : Read α} {iter : Nat} {len : Int}

theorem Read.Confined.map (confined : read.Confined data n) (f : α → β) :
    (read.map f).Confined data n := confined

theorem Read.Confined.andThen {first : Read α} {next : α → Read β} (confined : first.Confined data n)
    (rest : ∀ iter a, (first iter).value = some a → (next a).Confined data n) :
    (first.andThen next).Confined data n := by
  intro iter access there
  rw [Read.andThen] at there
  dsimp only at there
  split at there
  · exact confined iter access there
  · rename_i a got
    rcases mem_append.mp there with before | behind
    · exact confined iter access before
    · exact rest iter a got _ access behind

theorem Read.Confined.startedAt (confined : read.Confined data n)
    (start : Nat → Nat) : (read.startedAt start).Confined data n :=
  fun iter => confined (start iter)

theorem Read.confined_done (a : α) : (Read.done a).Confined data n :=
  fun _ _ there => absurd there not_mem_nil

theorem Read.confined_fail : (Read.fail : Read α).Confined data n :=
  fun _ _ there => absurd there not_mem_nil

structure Pickle.Bounded (abi : Abi) (p : Pickle) (data n : Nat) : Prop where
  header : p.header = data
  four : sizeofHeader ≤ n
  stop : p.endOfPayload abi ≤ data + n

variable (bounded : p.Bounded abi data n)
include bounded

theorem Pickle.Bounded.room (int : len ≤ intMax) (room : p.iteratorHasRoomFor abi iter len = true) :
    0 ≤ len ∧ data ≤ iter ∧ iter + len.toNat ≤ data + n := by
  rw [Pickle.iteratorHasRoomFor] at room
  split at room
  · cases room
  · rename_i passed
    rw [not_or, not_or, bounded.header] at passed
    obtain ⟨nonneg, above, before⟩ := passed
    have inside := of_decide_eq_true room
    have in_space := abi.wrap_lt (p.payload abi + p.payloadSize)
    rw [← Pickle.endOfPayload] at in_space
    have stop := bounded.stop
    have limit_large := abi.limit_large
    have small : len.toNat < abi.limit := by
      rw [intMax] at int
      omega
    -- a sum that wraps would be below the iterator
    have no_wrap : iter + len.toNat < abi.limit := by
      by_contra wraps
      have once : abi.wrap (iter + len.toNat) = iter + len.toNat - abi.limit := by
        rw [Abi.wrap, Nat.mod_eq_sub_mod (by omega), Nat.mod_eq_of_lt (by omega)]
      omega
    rw [Abi.wrap_of_lt no_wrap] at inside
    omega

theorem Pickle.Bounded.header_within : Access.Within data n ⟨p.header, sizeofHeader⟩ := by
  have four := bounded.four
  rw [bounded.header]
  exact ⟨Nat.le_refl data, Nat.add_le_add_left four data⟩

theorem Pickle.Bounded.take {length : Nat} (int : len ≤ intMax)
    (checked : 0 ≤ len → length ≤ len.toNat) : (p.take abi len length).Confined data n := by
  intro iter access there
  rw [Pickle.take] at there
  split at there
  · rename_i room
    obtain ⟨nonneg, above, below⟩ := bounded.room int room
    have small := checked nonneg
    rcases mem_cons.mp there with rfl | there
    · exact bounded.header_within
    · rw [mem_singleton.mp there]
      exact ⟨above, by dsimp only; omega⟩
  · rw [mem_singleton.mp there]
    exact bounded.header_within

theorem Pickle.Bounded.readFixed {size : Nat} (int : size ≤ intMax) :
    (p.readFixed abi size).Confined data n := by
  have take : (p.take abi size size).Confined data n :=
    bounded.take (Int.ofNat_le.mpr int) fun _ => Nat.le_refl size
  exact (take.startedAt _).map _

theorem Pickle.Bounded.readLength : (p.readLength abi).Confined data n := by
  refine (bounded.readFixed (by decide)).andThen ?_
  intro iter result got
  split
  · exact Read.confined_done _
  · exact Read.confined_fail

omit bounded in
theorem readLength_int (got : (p.readLength abi iter).value = some len) : 0 ≤ len ∧ len ≤ intMax := by
  simp only [Pickle.readLength, Read.andThen] at got
  split at got
  · cases got
  · rename_i result read
    dsimp only at got
    split at got
    · rename_i nonneg
      cases got
      have small := @BitVec.toInt_lt 32 result
      exact ⟨nonneg, by rw [intMax]; omega⟩
    · cases got

theorem Pickle.Bounded.readString : (p.readString abi).Confined data n := by
  refine bounded.readLength.andThen ?_
  intro iter len got
  have take : (p.take abi len len.toNat).Confined data n :=
    bounded.take (readLength_int got).2 fun _ => Nat.le_refl _
  exact take.map _

theorem Pickle.Bounded.readWString : (p.readWString abi).Confined data n := by
  refine bounded.readLength.andThen ?_
  intro iter len got
  obtain ⟨nonneg, int⟩ := readLength_int got
  by_cases guarded : len > (intMax / abi.wchar : Nat)
  · rw [if_pos guarded]
    exact Read.confined_fail
  · rw [if_neg guarded]
    have product : len.toNat * abi.wchar ≤ intMax := by
      have few : len.toNat ≤ intMax / abi.wchar := by omega
      exact Nat.le_trans (Nat.mul_le_mul_right _ few) (Nat.div_mul_le_self _ _)
    have exact_product : len * abi.wchar = ((len.toNat * abi.wchar : Nat) : Int) := by
      rw [Int.natCast_mul, Int.toNat_of_nonneg nonneg]
    have take : (p.take abi (len * abi.wchar) (len.toNat * abi.wchar)).Confined data n := by
      rw [exact_product]
      exact bounded.take (Int.ofNat_le.mpr product) fun _ => Nat.le_refl _
    exact take.map _

theorem Pickle.Bounded.readString16 : (p.readString16 abi).Confined data n := by
  refine bounded.readLength.andThen ?_
  intro iter len got
  obtain ⟨nonneg, int⟩ := readLength_int got
  have limit_large := abi.limit_large
  rw [intMax] at int
  have exact_product : abi.wrap (len.toNat * 2) = len.toNat * 2 := Abi.wrap_of_lt (by omega)
  have small : toInt (len.toNat * 2) ≤ intMax := by
    have below := @BitVec.toInt_lt 32 (BitVec.ofNat 32 (len.toNat * 2))
    rw [toInt, intMax]
    omega
  have take : (p.take abi (toInt (abi.wrap (len.toNat * 2))) (len.toNat * 2)).Confined data n := by
    rw [exact_product]
    refine bounded.take small fun kept => ?_
    rw [toInt, BitVec.toInt_eq_toNat_cond, BitVec.toNat_ofNat] at *
    split at kept <;> omega
  exact take.map _

theorem Pickle.Bounded.readBytes {length : Int} (int : length ≤ intMax) :
    (p.readBytes abi length).Confined data n := by
  have take : (p.take abi length length.toNat).Confined data n :=
    bounded.take int fun _ => Nat.le_refl _
  exact take.startedAt _

theorem Pickle.Bounded.readData : (p.readData abi).Confined data n := by
  refine bounded.readLength.andThen ?_
  intro iter len got
  exact (bounded.readBytes (readLength_int got).2).map _

theorem Pickle.Bounded.run (call : ReadCall) (iter : Nat) : ∀ a ∈ (call.run abi p iter).2, a.Within data n := by
  have long : abi.long ≤ intMax := by rcases abi.long_size with size | size <;> rw [size] <;> decide
  have size : abi.pointer ≤ intMax := by
    rcases abi.pointer_size with size | size <;> rw [size] <;> decide
  have four : 4 ≤ intMax := by decide
  have eight : 8 ≤ intMax := by decide
  cases call with
  | bool => exact (bounded.readFixed four).map (· != 0) iter
  | int => exact bounded.readFixed four iter
  | long => exact bounded.readFixed long iter
  | size => exact bounded.readFixed size iter
  | uint32 => exact bounded.readFixed four iter
  | int64 => exact bounded.readFixed eight iter
  | uint64 => exact bounded.readFixed eight iter
  | string => exact bounded.readString iter
  | wstring => exact bounded.readWString iter
  | string16 => exact bounded.readString16 iter
  | data => exact bounded.readData iter
  | length => exact bounded.readLength iter
  | bytes length =>
    have small := @BitVec.toInt_lt 32 length
    exact bounded.readBytes (by rw [intMax]; omega) iter

theorem Pickle.Bounded.readAll (calls : List ReadCall) (iter : Nat) :
    ∀ a ∈ readAll abi p calls iter, a.Within data n := by
  induction calls generalizing iter with
  | nil => exact fun a there => absurd there not_mem_nil
  | cons call rest ih =>
    intro a there
    rcases mem_append.mp there with now | later
    · exact bounded.run call iter a now
    · exact ih _ a later

end Confined

def Abi.userLimit (abi : Abi) : Nat := if abi.pointer = 4 then 2 ^ 32 else 2 ^ 63

def declaredPayload (memory : Memory) (data : Nat) : Nat := leValue (bytesAt memory data sizeofHeader)

section OfData

variable {abi : Abi} {memory : Memory} {data n : Nat}

theorem ofData_payloadSize (dataLen : BitVec 32) :
    (ofData abi memory data dataLen).payloadSize = declaredPayload memory data := rfl

theorem ofData_headerSize (int : n < 2 ^ 31) : (ofData abi memory data (BitVec.ofNat 32 n)).headerSize =
      (2 ^ 32 + n - declaredPayload memory data) % 2 ^ 32 := by
  have word := Pickle.payloadSize_lt (ofData abi memory data (BitVec.ofNat 32 n))
  rw [ofData_payloadSize] at word
  rw [ofData, BitVec.toNat_sub, BitVec.toNat_ofNat, BitVec.toNat_ofNat, ← declaredPayload]
  dsimp only
  omega

theorem ofData_bounded (four : 4 ≤ n) (int : n < 2 ^ 31)
    (fits : abi.pointer = 4 ∨ declaredPayload memory data ≤ n) :
    (ofData abi memory data (BitVec.ofNat 32 n)).Bounded abi data n := by
  refine ⟨rfl, four, ?_⟩
  have word := Pickle.payloadSize_lt (ofData abi memory data (BitVec.ofNat 32 n))
  have end_is : (ofData abi memory data (BitVec.ofNat 32 n)).endOfPayload abi = abi.wrap (data + n) := by
    rw [Pickle.endOfPayload, Pickle.payload, Abi.wrap_add, ofData_headerSize int]
    rw [ofData_payloadSize] at word ⊢
    rcases fits with four | small
    · have limit : abi.limit = 2 ^ 32 := by rw [Abi.limit, four]
      rw [Abi.wrap, Abi.wrap, limit, ofData]
      dsimp only
      omega
    · rw [ofData]
      dsimp only
      congr 1
      omega
  rw [end_is]
  exact Nat.mod_le _ _

theorem ofData_escapes (four : 4 ≤ n) (int : n < 2 ^ 31) (placed : data + n ≤ abi.userLimit)
    (wide : abi.pointer ≠ 4) (large : n < declaredPayload memory data) :
    ∃ a ∈ readFrom abi memory data n [.uint32], ¬ a.Within data n := by
  have eight : abi.pointer = 8 := abi.pointer_size.resolve_left wide
  have limit : abi.limit = 2 ^ 64 := by rw [Abi.limit, eight]
  have below : data + n ≤ 2 ^ 63 := by rwa [Abi.userLimit, if_neg wide] at placed
  let p := ofData abi memory data (BitVec.ofNat 32 n)
  have word : declaredPayload memory data < 2 ^ 32 := Pickle.payloadSize_lt p
  have header : p.headerSize = 2 ^ 32 + n - declaredPayload memory data := by
    rw [ofData_headerSize int]
    exact Nat.mod_eq_of_lt (by omega)
  have payload : p.payload abi = data + (2 ^ 32 + n - declaredPayload memory data) := by
    rw [Pickle.payload, header]
    exact Abi.wrap_of_lt (by change data + _ < _; omega)
  have stop : p.endOfPayload abi = data + 2 ^ 32 + n := by
    rw [Pickle.endOfPayload, payload, ofData_payloadSize, Abi.wrap_of_lt (by omega)]
    omega
  have started : p.start abi 0 = p.payload abi := if_pos rfl
  have room : p.iteratorHasRoomFor abi (p.payload abi) (4 : Nat) = true := by
    have region : abi.wrap (p.payload abi + ((4 : Nat) : Int).toNat) = p.payload abi + 4 := by
      rw [Int.toNat_natCast]
      exact Abi.wrap_of_lt (by omega)
    rw [Pickle.iteratorHasRoomFor, if_neg, region]
    · exact decide_eq_true ⟨by omega, by omega⟩
    · have above : p.header ≤ p.payload abi := by
        rw [payload]
        exact Nat.le_add_right _ _
      rintro (negative | low | high) <;> omega
  have touched : (⟨p.payload abi, 4⟩ : Access) ∈ readFrom abi memory data n [.uint32] := by
    have taken : (⟨p.payload abi, 4⟩ : Access) ∈ (p.take abi (4 : Nat) 4 (p.payload abi)).accesses := by
      rw [Pickle.take, if_pos room]
      exact mem_cons_of_mem _ mem_cons_self
    rw [← started] at taken ⊢
    exact mem_cons_of_mem _ (mem_append_left _ taken)
  refine ⟨_, touched, fun within => ?_⟩
  have inside := within.2
  dsimp only at inside
  omega

/-- The readers stay inside the data just where the pointers are as wide as the size field or the
payload size is not above the length. -/
theorem reads_confined_iff (four : 4 ≤ n) (int : n < 2 ^ 31) (placed : data + n ≤ abi.userLimit) :
    (∀ calls, ∀ a ∈ readFrom abi memory data n calls, a.Within data n) ↔
      abi.pointer = 4 ∨ declaredPayload memory data ≤ n := by
  constructor
  · intro confined
    by_contra neither
    rw [not_or, Nat.not_le] at neither
    obtain ⟨a, there, outside⟩ := ofData_escapes four int placed neither.1 neither.2
    exact outside (confined _ a there)
  · intro fits calls a there
    have bounded := @ofData_bounded abi memory data n four int fits
    rcases List.mem_cons.mp there with rfl | there
    · exact bounded.header_within
    · exact bounded.readAll calls 0 a there

end OfData

def abi64 : Abi := ⟨8, 8, 4, Or.inr rfl, Or.inr rfl, Or.inr rfl⟩

def onesAt (data : Nat) : Memory := fun a => if data ≤ a ∧ a < data + 4 then 255 else 0

theorem reads_confined_ones :
    4 ≤ 4 ∧ ((∀ calls, ∀ a ∈ readFrom abi64 (onesAt 4096) 4096 4 calls, a.Within 4096 4) ↔
      abi64.pointer = 4 ∨ declaredPayload (onesAt 4096) 4096 ≤ 4) :=
  ⟨Nat.le_refl 4, reads_confined_iff (by decide) (by decide) (by decide)⟩

/-- The first integer is read four gigabytes behind the data. -/
theorem read_escapes : ¬ ∀ a ∈ readFrom abi64 (onesAt 4096) 4096 4 [.int], a.Within 4096 4 := by
  decide +kernel

end Glopen.Base

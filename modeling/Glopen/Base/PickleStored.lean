import Glopen.Base.PickleWrites

/-! What runs of typed writes leave in the payload. -/
namespace Glopen.Base

open Bytes Wire BitVec

section Specs

variable {abi : Abi} {heap : Heap} {p : Pickle} {most : Nat}
variable {o length : Nat} {xs ys : List UInt8} {newLength : Nat}

theorem endWrite_pads (p : Pickle) (inside : p.header + p.headerSize + o + length < abi.limit) :
    ∃ zeros, Pickle.endWrite abi p (p.header + p.headerSize + o) length = p.store (o + length) zeros := by
  have size : abi.toSize length = length := Abi.toSize_natCast (by omega)
  rw [Pickle.endWrite, size]
  split
  · refine ⟨[], ?_⟩
    have kept : copyTo p.memory (p.header + p.headerSize + (o + length)) [] = p.memory := by
      funext x
      exact ite_self _
    rw [Pickle.store, kept]
  · refine ⟨List.replicate (4 - length % 4) 0, ?_⟩
    have at_end : abi.wrap (p.header + p.headerSize + o + length) = p.header + p.headerSize + (o + length) := by
      rw [Abi.wrap_of_lt inside]
      omega
    rw [Pickle.store, at_end]

theorem writeBytes_spec (valid : heap.Valid abi) (int : most ≤ 2 ^ 31) (ready : p.Ready abi) {data : List UInt8}
    (fits : p.headerSize + (aligned p.payloadSize 4 + data.length) < most) :
    Writes abi heap most p (p.writeBytes abi heap data) data := by
  have limit := abi.limit_large
  have len : toInt data.length = data.length := toInt_of_small (by omega)
  have size : abi.toSize data.length = data.length := Abi.toSize_natCast (by omega)
  rw [Pickle.writeBytes]
  dsimp only
  rw [len, size]
  rcases beginWrite_spec valid int ready fits with
    ⟨failed, refused⟩ | ⟨p', dest, begun, ready', header, payload, rfl, kept⟩
  · rw [failed]
    exact .inl ⟨rfl, refused⟩
  · rw [begun]
    refine .inr ⟨_, rfl, ?_⟩
    change Wrote abi p (Pickle.endWrite abi (p'.store (aligned p.payloadSize 4) data) _ _) data
    have room := ready'.room
    have in_space := ready'.inside
    rw [payload, aligned_four] at room
    have space : p'.header + p'.headerSize + aligned p.payloadSize 4 + data.length < abi.limit := by
      omega
    obtain ⟨zeros, ended⟩ := endWrite_pads (p'.store (aligned p.payloadSize 4) data) space
    have stored := ready'.store (aligned p.payloadSize 4) data
    rw [store_header, store_headerSize] at ended
    rw [ended]
    refine ⟨stored.store _ _, header, ?_, fun i below => ?_, ?_⟩
    · rw [store_payloadSize stored.header_large, store_payloadSize ready'.header_large, payload]
    · have before : i < aligned p.payloadSize 4 := Nat.lt_of_lt_of_le below (Nat.le_add_right _ _)
      rw [store_byte, store_byte, copyTo_below _ _ (by omega), copyTo_below _ _ before, kept i below]
    · rw [store_byte, store_byte]
      have untouched : bytesAt (copyTo (copyTo p'.byte (aligned p.payloadSize 4) data)
          (aligned p.payloadSize 4 + data.length) zeros) (aligned p.payloadSize 4) data.length =
            bytesAt (copyTo p'.byte (aligned p.payloadSize 4) data) (aligned p.payloadSize 4) data.length :=
        bytesAt_congr fun i small => copyTo_below _ _ (by omega)
      rw [untouched, bytesAt_copyTo]

theorem Wrote.append {p' p'' : Pickle} (first : Wrote abi p p' xs)
    (second : Wrote abi p' p'' ys) (words : xs.length % 4 = 0) : Wrote abi p p'' (xs ++ ys) := by
  have behind : aligned p'.payloadSize 4 = aligned p.payloadSize 4 + xs.length := by
    rw [first.payload, aligned_four, aligned_four]
    omega
  refine ⟨second.ready, second.headerSize.trans first.headerSize, ?_, fun i below => ?_, ?_⟩
  · rw [second.payload, behind, List.length_append, Nat.add_assoc]
  · have grown : p.payloadSize ≤ p'.payloadSize := by
      rw [first.payload, aligned_four]
      omega
    rw [second.kept i (Nat.lt_of_lt_of_le below grown), first.kept i below]
  · apply bytesAt_append
    · have same : bytesAt p''.byte (aligned p.payloadSize 4) xs.length =
          bytesAt p'.byte (aligned p.payloadSize 4) xs.length :=
        bytesAt_congr fun i small => second.kept _ (by rw [first.payload]; omega)
      rw [same, first.stored]
    · rw [← behind]
      exact second.stored

theorem Writes.andThen {result : Option Pickle} {next : Pickle → Option Pickle}
    (first : Writes abi heap most p result xs) (words : xs.length % 4 = 0)
    (second : ∀ p', Wrote abi p p' xs → Writes abi heap most p' (next p') ys) :
    Writes abi heap most p (result.bind next) (xs ++ ys) := by
  rcases first with ⟨rfl, refused⟩ | ⟨p', rfl, wrote⟩
  · exact .inl ⟨rfl, refused⟩
  · rw [Option.bind_some]
    rcases second p' wrote with ⟨failed, refused⟩ | ⟨p'', done, wrote'⟩
    · exact .inl ⟨failed, refused⟩
    · exact .inr ⟨p'', done, wrote.append wrote' words⟩

theorem writeInt_spec (valid : heap.Valid abi) (int : most ≤ 2 ^ 31) (ready : p.Ready abi) {value : BitVec 32}
    (fits : p.headerSize + (aligned p.payloadSize 4 + 4) < most) :
    Writes abi heap most p (p.writeInt abi heap value) (leBytes 4 value.toNat) :=
  writeBytes_spec valid int ready (by rwa [wordBytes, leBytes_length])

theorem writeCounted_spec (valid : heap.Valid abi) (int : most ≤ 2 ^ 31) (ready : p.Ready abi) {count : Nat}
    {bytes : List UInt8} (few : count ≤ bytes.length)
    (fits : p.headerSize + (aligned p.payloadSize 4 + (4 + bytes.length)) < most) :
    Writes abi heap most p (p.writeCounted abi heap count bytes) (leBytes 4 count ++ bytes) := by
  have number : (BitVec.ofNat 32 count).toNat = count := by
    rw [toNat_ofNat]
    exact Nat.mod_eq_of_lt (by omega)
  have first := @writeInt_spec abi heap p most valid int ready (BitVec.ofNat 32 count) (by omega)
  rw [number] at first
  refine first.andThen (by rw [leBytes_length]) fun p' wrote => ?_
  have header := wrote.headerSize
  have payload := wrote.payload
  rw [leBytes_length, aligned_four] at payload
  rw [aligned_four] at fits
  exact writeBytes_spec valid int wrote.ready (by rw [aligned_four]; omega)

theorem setPayloadSize_byte (large : sizeofHeader ≤ p.headerSize) (n : Nat) :
    (p.setPayloadSize n).byte = p.byte := by
  funext i
  have above : p.header + sizeofHeader ≤ p.header + p.headerSize + i := by omega
  exact setPayloadSize_memory p n above

theorem Pickle.Ready.setPayloadSize (ready : p.Ready abi) {n : Nat} (less : n ≤ p.payloadSize) :
    (p.setPayloadSize n).Ready abi := by
  have room := ready.room
  have small := ready.small
  have size : (p.setPayloadSize n).payloadSize = n := setPayloadSize_payloadSize (by omega)
  refine ⟨ready.placed, ready.inside, ready.header_large, ready.header_aligned, ready.capacity_aligned, ?_, ?_⟩
  · rw [size]
    rw [aligned_four] at room ⊢
    change p.headerSize + _ ≤ p.capacity
    omega
  · rw [size]
    change p.headerSize + n < _
    omega

theorem bitVec_small {n : Nat} (small : n < 2 ^ 31) : (BitVec.ofNat 32 n).toInt = n :=
  toInt_of_small small

theorem trimWriteData_spec (ready : p.Ready abi)
    (offset : p.variableBufferOffset = p.headerSize + o) (inside : o + 4 ≤ p.payloadSize)
    (number : bytesAt p.byte o 4 = leBytes 4 length) (payload : p.payloadSize = o + 4 + length)
    (less : newLength ≤ length) : p.trimWriteData abi (BitVec.ofNat 32 newLength) =
      (p.setPayloadSize (o + 4 + newLength)).store o (leBytes 4 newLength) := by
  have small := ready.small
  have room := ready.room
  have in_space := ready.inside
  have there : abi.wrap (p.header + p.variableBufferOffset) = p.header + p.headerSize + o := by
    rw [aligned_four] at room
    rw [offset, ← Nat.add_assoc]
    exact Abi.wrap_of_lt (by omega)
  have cur : (wordOf 4 (bytesAt p.memory (p.header + p.headerSize + o) 4) : BitVec 32) =
      BitVec.ofNat 32 length := by
    rw [← bytesAt_byte, number, wordOf, leValue_leBytes]
    exact congrArg (BitVec.ofNat 32) (Nat.mod_eq_of_lt (by omega))
  have new_size : (BitVec.ofNat 32 p.payloadSize -
      (BitVec.ofNat 32 length - BitVec.ofNat 32 newLength)).toNat = o + 4 + newLength := by
    rw [toNat_sub, toNat_sub, toNat_ofNat, toNat_ofNat, toNat_ofNat]
    omega
  have bytes : @wordBytes 4 (BitVec.ofNat 32 newLength) = leBytes 4 newLength := by
    rw [wordBytes, toNat_ofNat, Nat.mod_eq_of_lt (by omega)]
  have accepted : ¬ ((BitVec.ofNat 32 newLength).toInt < 0 ∨
      (BitVec.ofNat 32 newLength).toInt > (BitVec.ofNat 32 length).toInt) := by
    rw [bitVec_small (by omega), bitVec_small (by omega)]
    omega
  rw [Pickle.trimWriteData, there]
  dsimp only
  rw [cur, if_neg accepted, new_size, bytes]
  rfl

theorem beginWriteData_spec (valid : heap.Valid abi) (int : most ≤ 2 ^ 31) (ready : p.Ready abi)
    (fits : p.headerSize + (aligned p.payloadSize 4 + (4 + length)) < most) :
    p.beginWriteData abi heap (BitVec.ofNat 32 length) = none ∧ heap.Refuses most ∨
      ∃ p' dest, p.beginWriteData abi heap (BitVec.ofNat 32 length) = some (p', dest) ∧
        p'.Ready abi ∧ p'.headerSize = p.headerSize ∧
        p'.variableBufferOffset = p'.headerSize + aligned p.payloadSize 4 ∧
        p'.payloadSize = aligned p.payloadSize 4 + 4 + length ∧
        dest = p'.header + p'.headerSize + (aligned p.payloadSize 4 + 4) ∧
        bytesAt p'.byte (aligned p.payloadSize 4) 4 = leBytes 4 length ∧
        ∀ i < p.payloadSize, p'.byte i = p.byte i := by
  have limit := abi.limit_large
  have number : (BitVec.ofNat 32 length).toNat = length := by
    rw [toNat_ofNat]
    exact Nat.mod_eq_of_lt (by omega)
  have as_int : (BitVec.ofNat 32 length).toInt = length := bitVec_small (by omega)
  have size : abi.toSize length = length := Abi.toSize_natCast (by omega)
  have counted := @writeInt_spec abi heap p most valid int ready (BitVec.ofNat 32 length) (by omega)
  rw [number] at counted
  rw [Pickle.beginWriteData, as_int, if_neg (by omega), size]
  rcases counted with ⟨failed, refused⟩ | ⟨p₁, counted, wrote⟩
  · rw [failed]
    exact .inl ⟨rfl, refused⟩
  rw [counted, Option.bind_some]
  have header₁ := wrote.headerSize
  have payload₁ := wrote.payload
  rw [leBytes_length] at payload₁
  have behind : aligned p₁.payloadSize 4 = aligned p.payloadSize 4 + 4 := by
    rw [payload₁, aligned_four, aligned_four]
    omega
  rcases @beginWrite_spec abi heap p₁ most valid int wrote.ready length (by omega) with
    ⟨failed, refused⟩ | ⟨p₂, dest, begun, ready₂, header₂, payload₂, rfl, kept₂⟩
  · rw [failed]
    exact .inl ⟨rfl, refused⟩
  rw [begun]
  rw [behind] at payload₂ ⊢
  have room₂ := ready₂.room
  have inside₂ := ready₂.inside
  have large₂ := ready₂.header_large
  rw [payload₂, aligned_four (_ + length)] at room₂
  have offset : abi.toSize (((p₂.header + p₂.headerSize + (aligned p.payloadSize 4 + 4) : Nat) : Int) -
      p₂.header - 4) = p₂.headerSize + aligned p.payloadSize 4 := by
    have difference : ((p₂.header + p₂.headerSize + (aligned p.payloadSize 4 + 4) : Nat) : Int) -
        p₂.header - 4 = (p₂.headerSize + aligned p.payloadSize 4 : Nat) := by omega
    rw [difference]
    exact Abi.toSize_natCast (by omega)
  have noted : Pickle.Ready abi { p₂ with variableBufferOffset := p₂.headerSize + aligned p.payloadSize 4 } :=
    ⟨ready₂.placed, ready₂.inside, ready₂.header_large, ready₂.header_aligned,
      ready₂.capacity_aligned, ready₂.room, ready₂.small⟩
  have space : p₂.header + p₂.headerSize + (aligned p.payloadSize 4 + 4) + length < abi.limit := by
    omega
  obtain ⟨zeros, ended⟩ := endWrite_pads
    { p₂ with variableBufferOffset := p₂.headerSize + aligned p.payloadSize 4 } space
  refine .inr ⟨_, _, rfl, ?_⟩
  dsimp only at ended ⊢
  rw [offset, ended]
  have bytes : ∀ i < aligned p.payloadSize 4 + 4 + length,
      (Pickle.store { p₂ with variableBufferOffset := p₂.headerSize + aligned p.payloadSize 4 }
        (aligned p.payloadSize 4 + 4 + length) zeros).byte i = p₂.byte i := by
    intro i below
    rw [store_byte]
    exact copyTo_below _ _ below
  refine ⟨noted.store _ _, header₂.trans header₁, rfl, ?_, rfl, ?_, fun i below => ?_⟩
  · rw [store_payloadSize noted.header_large]
    exact payload₂
  · have stored := wrote.stored
    rw [leBytes_length] at stored
    rw [← stored]
    exact bytesAt_congr fun i small =>
      (bytes _ (by omega)).trans (kept₂ _ (by rw [payload₁]; omega))
  · have before : i < aligned p.payloadSize 4 := Nat.lt_of_lt_of_le below (Nat.le_add_right _ _)
    rw [bytes i (by omega), kept₂ i (by omega), wrote.kept i below]

theorem trimmed_spec (valid : heap.Valid abi) (int : most ≤ 2 ^ 31) (ready : p.Ready abi)
    {content : List UInt8} (written : newLength ≤ content.length) (less : content.length ≤ length)
    (fits : p.headerSize + (aligned p.payloadSize 4 + (4 + length)) < most) : Writes abi heap most p
      ((p.beginWriteData abi heap (BitVec.ofNat 32 length)).map fun (p, dest) =>
        (p.fill dest content).trimWriteData abi (BitVec.ofNat 32 newLength))
      (leBytes 4 newLength ++ content.take newLength) := by
  rcases beginWriteData_spec valid int ready fits with
    ⟨failed, refused⟩ | ⟨p', dest, begun, ready', header, offset, payload, rfl, number, kept⟩
  · rw [failed]
    exact .inl ⟨rfl, refused⟩
  rw [begun]
  refine .inr ⟨_, rfl, ?_⟩
  change Wrote abi p ((p'.store (aligned p.payloadSize 4 + 4) content).trimWriteData abi _) _
  have filled := ready'.store (aligned p.payloadSize 4 + 4) content
  have filled_size := store_payloadSize ready'.header_large (aligned p.payloadSize 4 + 4) content
  have filled_number : bytesAt (p'.store (aligned p.payloadSize 4 + 4) content).byte
      (aligned p.payloadSize 4) 4 = leBytes 4 length := by
    rw [store_byte, ← number]
    exact bytesAt_congr fun i small => copyTo_below _ _ (by omega)
  rw [trimWriteData_spec filled offset (by omega) filled_number (filled_size.trans payload) (by omega)]
  have shrunk := @Pickle.Ready.setPayloadSize abi _ filled (aligned p.payloadSize 4 + 4 + newLength) (by omega)
  have small := filled.small
  have size := @setPayloadSize_payloadSize (p'.store (aligned p.payloadSize 4 + 4) content)
    (aligned p.payloadSize 4 + 4 + newLength) (by omega)
  have taken : (content.take newLength).length = newLength := List.length_take_of_le written
  have bytes : ((Pickle.setPayloadSize (p'.store (aligned p.payloadSize 4 + 4) content)
      (aligned p.payloadSize 4 + 4 + newLength)).store (aligned p.payloadSize 4) (leBytes 4 newLength)).byte =
      copyTo (copyTo p'.byte (aligned p.payloadSize 4 + 4) content) (aligned p.payloadSize 4)
        (leBytes 4 newLength) := by
    rw [store_byte, setPayloadSize_byte filled.header_large, store_byte]
  refine ⟨shrunk.store _ _, header, ?_, fun i below => ?_, ?_⟩
  · rw [store_payloadSize shrunk.header_large, size, List.length_append, leBytes_length, taken, Nat.add_assoc]
  · have before : i < aligned p.payloadSize 4 := Nat.lt_of_lt_of_le below (Nat.le_add_right _ _)
    rw [bytes, copyTo_below _ _ before, copyTo_below _ _ (by omega), kept i below]
  · rw [bytes]
    apply bytesAt_append
    · exact bytesAt_copyTo _ _ _
    · rw [leBytes_length, taken, ← bytesAt_copyTo_take p'.byte (aligned p.payloadSize 4 + 4) written]
      exact bytesAt_congr fun i small => copyTo_above _ _ (by rw [leBytes_length]; omega)

end Specs

end Glopen.Base

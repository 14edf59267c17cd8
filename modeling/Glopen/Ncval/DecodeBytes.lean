import Glopen.Ncval.Sweep

/-! The decoder reads the bytes of the instruction and no others, and decodes whatever they
are. -/
namespace Glopen.Ncval

open Memory Nacl Option

section Locality

variable (tables : DecodeTables) {bytes bytes' : Nat → Byte} {m d : NCDecoderState} {limit : Nat}

theorem consumePrefix_local (agree : ∀ i < limit, bytes' i = bytes i) (left : Nat)
    (m : NCDecoderState) (inside : (consumePrefix tables bytes left m).nextbyte < limit) :
    consumePrefix tables bytes' left m = consumePrefix tables bytes left m := by
  induction left generalizing m with
  | zero => rfl
  | succ left ih =>
    obtain ⟨count, -, moved⟩ := consumePrefix_spec tables bytes (left + 1) m
    have here : m.nextbyte < limit := by
      rw [moved] at inside
      simp only at inside
      omega
    unfold consumePrefix at inside ⊢
    simp only at inside ⊢
    rw [agree _ here]
    split
    · rfl
    · rename_i more
      rw [if_neg more] at inside
      exact ih _ inside

theorem consumeThirdByte_local (agree : ∀ i < limit, bytes' i = bytes i) (opcode2 : Byte)
    (inside : (consumeThirdByte tables bytes opcode2 m).nextbyte ≤ limit) :
    consumeThirdByte tables bytes' opcode2 m = consumeThirdByte tables bytes opcode2 m := by
  unfold consumeThirdByte at inside ⊢
  split
  · rename_i third
    have here : m.nextbyte < limit := by
      rw [if_pos third] at inside
      simp only at inside
      split at inside <;> exact inside
    rw [agree _ here]
  · rfl

theorem consumeOpcodeBytes_local (agree : ∀ i < limit, bytes' i = bytes i)
    (inside : (consumeOpcodeBytes tables bytes m).nextbyte ≤ limit) :
    consumeOpcodeBytes tables bytes' m = consumeOpcodeBytes tables bytes m := by
  have moved := (consumeOpcodeBytes_progress tables bytes m).moved
  have here : m.nextbyte < limit := by omega
  unfold consumeOpcodeBytes at inside ⊢
  simp only at inside ⊢
  rw [agree m.nextbyte here]
  split
  · rename_i two
    rw [if_pos two] at inside
    have third := (consumeThirdByte_progress tables bytes (bytes (m.nextbyte + 1)) { m with
      opinfo := getExtendedOpInfo tables m.inst.prefixmask (bytes (m.nextbyte + 1))
      nextbyte := m.nextbyte + 1 + 1
      inst := { m.inst with hasopbyte2 := true } }).moved
    rw [agree (m.nextbyte + 1) (by simp only at third; omega), consumeThirdByte_local tables agree _ inside]
  · rfl

theorem consumeOpcodeBytes_two (two : bytes m.nextbyte = 0x0f) :
    m.nextbyte + 2 ≤ (consumeOpcodeBytes tables bytes m).nextbyte := by
  unfold consumeOpcodeBytes
  simp only
  rw [if_pos two]
  refine Nat.le_trans ?_ (consumeThirdByte_progress tables bytes _ _).moved.1
  exact Nat.le_refl _

theorem getX87OpInfo_local {opcode : Nat} (same : bytes' opcode = bytes opcode)
    (m : NCDecoderState) (place : m.inst.prefixbytes = opcode) :
    getX87OpInfo tables bytes' m = getX87OpInfo tables bytes m := by
  unfold getX87OpInfo
  simp only
  rw [place, same]

theorem consumeModRM_modrm (ran : consumeModRM tables bytes m = some d)
    (modrm : m.opinfo.hasmrmbyte = true) : m.nextbyte + 1 ≤ d.nextbyte := by
  unfold consumeModRM at ran
  rw [if_neg (by simp [modrm])] at ran
  simp only [bind_eq_bind, bind_eq_some_iff] at ran
  obtain ⟨found, extension, rest⟩ := ran
  cases some.inj rest
  have extended := (getOpInMrm_progress tables extension).moved.1
  simp only
  split at extended
  · refine Nat.le_trans (Nat.le_trans ?_ (getX87OpInfo_progress tables bytes _).moved.1) extended
    exact Nat.le_refl _
  · exact extended

theorem consumeModRM_local (agree : ∀ i < limit, bytes' i = bytes i)
    (ran : consumeModRM tables bytes m = some d) (inside : d.nextbyte ≤ limit)
    (opcode : m.inst.prefixbytes < limit) : consumeModRM tables bytes' m = some d := by
  rw [← ran]
  by_cases modrm : m.opinfo.hasmrmbyte = true
  · have here : m.nextbyte < limit := by
      have := consumeModRM_modrm tables ran modrm
      omega
    unfold consumeModRM
    simp only
    rw [agree _ here, getX87OpInfo_local tables (agree _ opcode)]
    rfl
  · unfold consumeModRM
    rw [if_pos (by simp [modrm]), if_pos (by simp [modrm])]

theorem consumeSIB_local (agree : ∀ i < limit, bytes' i = bytes i)
    (inside : (consumeSIB bytes m).nextbyte ≤ limit) : consumeSIB bytes' m = consumeSIB bytes m := by
  unfold consumeSIB at inside ⊢
  split
  · rfl
  · rename_i sib
    have here : m.nextbyte < limit := by
      rw [if_neg sib] at inside
      simp only at inside
      repeat' split at inside
      all_goals exact inside
    simp only
    rw [agree _ here]

theorem maybeGet3ByteOpInfo_local (agree : ∀ i < limit, bytes' i = bytes i) (opcode : m.inst.prefixbytes < limit)
    (two : bytes m.inst.prefixbytes = 0x0f → m.inst.prefixbytes + 1 < limit) (last : m.inst.length - 1 < limit) :
    maybeGet3ByteOpInfo tables bytes' m = maybeGet3ByteOpInfo tables bytes m := by
  unfold maybeGet3ByteOpInfo
  rw [agree _ opcode, agree _ last]
  by_cases second : bytes m.inst.prefixbytes = 0x0f
  · rw [agree _ (two second)]
  · rw [if_neg (fun all => second all.2.1), if_neg (fun all => second all.2.1)]

/-- The stages of a decoded instruction: after the prefixes it is in state `p`, after the
Mod/RM byte in state `found`. -/
structure Stages (bytes : Nat → Byte) (m p found d : NCDecoderState) : Prop where
  prefixed : consumePrefixBytes tables bytes (initDecoder m) = p
  modrm : consumeModRM tables bytes (consumeOpcodeBytes tables bytes p) = some found
  result : maybeGet3ByteOpInfo tables bytes (consumeID (consumeSIB bytes found)) = d
  opcode : p.nextbyte = d.inst.prefixbytes ∧ p.inst.prefixbytes = d.inst.prefixbytes
  inst : (consumeID (consumeSIB bytes found)).inst = d.inst
  reached : (consumeSIB bytes found).nextbyte ≤ d.inst.length

theorem decodeInst_stages (start : m.nextbyte = 0) (ran : decodeInst tables bytes m = some d) :
    ∃ p found, Stages tables bytes m p found d := by
  have length := (decodeInst_spec tables bytes start ran).length
  simp only [decodeInst, bind_eq_bind, bind_eq_some_iff] at ran
  obtain ⟨found, modrm, rest⟩ := ran
  have result := some.inj rest
  obtain ⟨count, few, moved⟩ := consumePrefix_spec tables bytes kMaxPrefixBytes (initDecoder m)
  rw [consumePrefixBytes] at modrm
  generalize prefixed : consumePrefix tables bytes kMaxPrefixBytes (initDecoder m) = p at *
  have place : p.nextbyte = count ∧ p.inst.prefixbytes = count ∧ p.inst.dispbytes = 0 := by
    rw [moved]
    simp [initDecoder, start]
  simp only [kMaxPrefixBytes] at few
  have sib := ((consumeOpcodeBytes_progress tables bytes p).trans
    (consumeModRM_progress tables bytes modrm)).trans (consumeSIB_progress bytes found)
  have disp := sib.displacement (by omega)
  have small := sib.moved
  have id := (consumeID_spec (by omega) disp).1
  obtain ⟨-, inst, next⟩ :=
    maybeGet3ByteOpInfo_progress tables bytes (consumeID (consumeSIB bytes found))
  have prefixes := (sib.trans id).prefixbytes
  have further := id.moved
  rw [← inst, result] at prefixes
  rw [result] at inst next
  exact ⟨p, found, prefixed, modrm, result, ⟨by omega, prefixes.symm⟩, inst.symm, by omega⟩

theorem decodeInst_local (start : m.nextbyte = 0) (ran : decodeInst tables bytes m = some d)
    (agree : ∀ i < d.inst.length, bytes' i = bytes i) : decodeInst tables bytes' m = some d := by
  have bounds := (decodeInst_spec tables bytes start ran).bounds
  obtain ⟨p, found, stages⟩ := decodeInst_stages tables start ran
  have reached := stages.reached
  have opcode := stages.opcode
  have prefixed := stages.prefixed
  have opcodes := consumeOpcodeBytes_progress tables bytes p
  have moved := opcodes.moved
  have modrms := (consumeModRM_progress tables bytes stages.modrm).moved
  have sib := (consumeSIB_progress bytes found).moved
  rw [consumePrefixBytes] at prefixed
  have prefixed' : consumePrefixBytes tables bytes' (initDecoder m) = p := by
    rw [← prefixed]
    exact consumePrefix_local tables agree kMaxPrefixBytes (initDecoder m) (by rw [prefixed]; omega)
  have modrm' : consumeModRM tables bytes' (consumeOpcodeBytes tables bytes' p) = some found := by
    rw [consumeOpcodeBytes_local tables agree (by omega)]
    exact consumeModRM_local tables agree stages.modrm (by omega) (by rw [opcodes.prefixbytes]; omega)
  simp only [decodeInst, bind_eq_bind, bind_eq_some_iff]
  refine ⟨found, by rw [prefixed', modrm'], ?_⟩
  rw [consumeSIB_local agree (by omega), ← stages.result]
  refine congrArg some (maybeGet3ByteOpInfo_local tables agree ?_ ?_ ?_)
  · rw [stages.inst]
    omega
  · rw [stages.inst]
    intro two
    have := @consumeOpcodeBytes_two tables bytes p (by rw [opcode.1]; exact two)
    omega
  · rw [stages.inst]
    omega

end Locality

def DecodeTables.opcodeTables (tables : DecodeTables) : List (Byte → OpInfo) :=
  [tables.kDecode1ByteOp, tables.kDecode0FXXOp, tables.kDecode660FXXOp, tables.kDecodeF20FXXOp,
    tables.kDecodeF30FXXOp, tables.kDecode0F38Op, tables.kDecode660F38Op, tables.kDecodeF20F38Op,
    tables.kDecode0F3AOp, tables.kDecode660F3AOp]

/-- What the generated tables say of the opcodes f4 and ff; and no opcode has an unknown
immediate, so that the decoder's assertion holds. -/
structure LegalTables (tables : DecodeTables) : Prop where
  halt_prefix : tables.kPrefixTable kNaClFullStop = 0
  halt : tables.kDecode1ByteOp kNaClFullStop = ⟨.i386, false, .none, 0⟩
  group5 : (tables.kDecode1ByteOp 0xff).hasmrmbyte = true
  known : ∀ table ∈ tables.opcodeTables, ∀ b, (table b).immtype ≠ .unknown

section Total

variable {tables : DecodeTables} {bytes : Nat → Byte} {m : NCDecoderState}

def DecodeTables.Entry (tables : DecodeTables) (info : OpInfo) : Prop :=
  ∃ table ∈ tables.opcodeTables, ∃ b, table b = info

theorem getExtendedOpInfo_entry (pm : PrefixMask) (opbyte2 : Byte) :
    tables.Entry (getExtendedOpInfo tables pm opbyte2) := by
  unfold getExtendedOpInfo
  repeat' split
  all_goals exact ⟨_, by simp [DecodeTables.opcodeTables], _, rfl⟩

theorem get3ByteOpInfo_entry {pm : PrefixMask} {opcode2 opcode3 : Byte} {info : OpInfo}
    (found : get3ByteOpInfo tables pm opcode2 opcode3 = some info) : tables.Entry info := by
  unfold get3ByteOpInfo at found
  repeat' split at found
  all_goals
    first
    | contradiction
    | exact ⟨_, by simp [DecodeTables.opcodeTables], _, some.inj found⟩

theorem consumeThirdByte_entry {opcode2 : Byte} (entry : tables.Entry m.opinfo) :
    tables.Entry (consumeThirdByte tables bytes opcode2 m).opinfo := by
  unfold consumeThirdByte
  split
  · simp only
    split
    · rename_i found
      exact get3ByteOpInfo_entry found
    · exact entry
  · exact entry

theorem consumeOpcodeBytes_known (legal : LegalTables tables) :
    (consumeOpcodeBytes tables bytes m).inst.immtype ≠ .unknown := by
  have entry : tables.Entry (consumeOpcodeBytes tables bytes m).opinfo := by
    unfold consumeOpcodeBytes
    simp only
    split
    · exact consumeThirdByte_entry (getExtendedOpInfo_entry _ _)
    · exact ⟨_, by simp [DecodeTables.opcodeTables], _, rfl⟩
  obtain ⟨table, member, b, same⟩ := entry
  have immtype : (consumeOpcodeBytes tables bytes m).inst.immtype =
      (consumeOpcodeBytes tables bytes m).opinfo.immtype := rfl
  rw [immtype, ← same]
  exact legal.known table member b

theorem getOpInMrm_total {mrm : Byte} (known : m.inst.immtype ≠ .unknown) :
    ∃ d, getOpInMrm tables mrm m = some d := by
  unfold getOpInMrm
  split
  · exact ⟨m, rfl⟩
  · simp only
    rw [if_neg (fun both => known both.1)]
    exact ⟨_, rfl⟩

theorem consumeModRM_total (known : m.inst.immtype ≠ .unknown) : ∃ d, consumeModRM tables bytes m = some d := by
  unfold consumeModRM
  split
  · exact ⟨m, rfl⟩
  · simp only [bind_eq_bind, bind_eq_some_iff]
    split
    · obtain ⟨d, ran⟩ := @getOpInMrm_total tables (getX87OpInfo tables bytes { m with
        inst := { m.inst with mrm := bytes m.nextbyte }, nextbyte := m.nextbyte + 1 })
        (bytes m.nextbyte) (by
          unfold getX87OpInfo
          simp only
          repeat' split
          all_goals exact known)
      exact ⟨_, d, ran, rfl⟩
    · obtain ⟨d, ran⟩ := @getOpInMrm_total tables { m with
        inst := { m.inst with mrm := bytes m.nextbyte }, nextbyte := m.nextbyte + 1 }
        (bytes m.nextbyte) known
      exact ⟨_, d, ran, rfl⟩

theorem decodeInst_total (legal : LegalTables tables) : ∃ d, decodeInst tables bytes m = some d := by
  simp only [decodeInst, bind_eq_bind, bind_eq_some_iff]
  obtain ⟨found, ran⟩ : ∃ found, consumeModRM tables bytes (consumeOpcodeBytes tables bytes
      (consumePrefixBytes tables bytes (initDecoder m))) = some found :=
    consumeModRM_total (consumeOpcodeBytes_known legal)
  exact ⟨_, found, ran, rfl⟩

theorem decodeInst_halt (legal : LegalTables tables) (start : m.nextbyte = 0) (halt : bytes 0 = kNaClFullStop) :
    ∃ d, decodeInst tables bytes m = some d ∧ d.inst.length = 1 ∧ d.inst.prefixbytes = 0 ∧
      d.opinfo.insttype = .i386 := by
  have prefixed : consumePrefixBytes tables bytes (initDecoder m) = initDecoder m := by
    simp only [consumePrefixBytes, kMaxPrefixBytes, consumePrefix, initDecoder, start, halt,
      legal.halt_prefix, if_true]
  have opcode : consumeOpcodeBytes tables bytes (initDecoder m) = { initDecoder m with
        opinfo := ⟨.i386, false, .none, 0⟩
        nextbyte := 1
        inst := { (initDecoder m).inst with immtype := .none } } := by
    simp only [consumeOpcodeBytes, initDecoder, start, halt, legal.halt]
    rw [if_neg (by decide)]
  simp only [decodeInst, prefixed, opcode]
  refine ⟨_, rfl, ?_, ?_, ?_⟩ <;>
    simp [consumeSIB, initDecoder, consumeID, maybeGet3ByteOpInfo, immediateSize, PrefixMask.has, kImmTypeToSize]

theorem instAt_group5 {code : Mem} {vbase off : Nat} (legal : LegalTables tables)
    (here : instAt tables code vbase off = some m) (plain : m.inst.prefixbytes = 0)
    (group5 : code off = 0xff) : 2 ≤ m.inst.length := by
  obtain ⟨p, found, stages⟩ := decodeInst_stages tables rfl here
  have reached := stages.reached
  have sib := (consumeSIB_progress (fun i => code (off + i)) found).moved
  have opcode := (consumeOpcodeBytes_progress tables (fun i => code (off + i)) p).moved
  have start : p.nextbyte = 0 := stages.opcode.1.trans plain
  have info : (consumeOpcodeBytes tables (fun i => code (off + i)) p).opinfo = tables.kDecode1ByteOp 0xff := by
    simp only [consumeOpcodeBytes, start, Nat.add_zero, group5]
    rw [if_neg (by decide)]
  have modrm := consumeModRM_modrm tables stages.modrm (by rw [info]; exact legal.group5)
  omega

end Total

end Glopen.Ncval

import Glopen.Lib.Memory

/-! ncdecode.c: the table driven decoder of the 32-bit x86 validator. The generated tables are
parameters. Pointers into an instruction are offsets from its first byte. -/
namespace Glopen.Ncval

open Memory

inductive NaClInstType where
  | undefined | illegal | invalid | system | i386 | i386L | i386R | i386RE | jmp8 | jmpz
  | indirect | opinmrm | ret | sfenceClflush | cmpxchg8b | cmpxchg16b | cmov | rdmsr | rdtsc
  | rdtscp | syscall | sysenter | x87 | mmx | mmxsse2 | threeDNow | emmx | e3dnow | sse | sse2
  | sse2x | sse3 | sse4a | sse41 | sse42 | movbe | popcnt | lzcnt | longmode | svm | ssse3
  | threeByte | fcmov
deriving DecidableEq, Repr

inductive NCDecodeImmediateType where
  | unknown | none | fixed1 | fixed2 | fixed3 | fixed4 | datav | addrv | group3F6 | group3F7
  | farptr | movDatav
deriving DecidableEq, Repr

def kImmTypeToSize66 : NCDecodeImmediateType → Nat
  | .unknown => 0 | .none => 0 | .fixed1 => 1 | .fixed2 => 2 | .fixed3 => 3 | .fixed4 => 4
  | .datav => 2 | .addrv => 4 | .group3F6 => 0 | .group3F7 => 0 | .farptr => 6 | .movDatav => 2

def kImmTypeToSize67 : NCDecodeImmediateType → Nat
  | .unknown => 0 | .none => 0 | .fixed1 => 1 | .fixed2 => 2 | .fixed3 => 3 | .fixed4 => 4
  | .datav => 4 | .addrv => 2 | .group3F6 => 0 | .group3F7 => 0 | .farptr => 4 | .movDatav => 4

def kImmTypeToSize : NCDecodeImmediateType → Nat
  | .unknown => 0 | .none => 0 | .fixed1 => 1 | .fixed2 => 2 | .fixed3 => 3 | .fixed4 => 4
  | .datav => 4 | .addrv => 4 | .group3F6 => 0 | .group3F7 => 0 | .farptr => 6 | .movDatav => 4

abbrev PrefixMask := BitVec 32

def kPrefixSEGCS : PrefixMask := 0x0001
def kPrefixSEGGS : PrefixMask := 0x0008
def kPrefixDATA16 : PrefixMask := 0x0010
def kPrefixADDR16 : PrefixMask := 0x0020
def kPrefixREPNE : PrefixMask := 0x0040
def kPrefixREP : PrefixMask := 0x0080
def kPrefixLOCK : PrefixMask := 0x0100
def kPrefixSEGDS : PrefixMask := 0x0400

/-- `mask & flags` as a condition. -/
def PrefixMask.has (mask flags : PrefixMask) : Bool := mask &&& flags != 0

structure OpInfo where
  insttype : NaClInstType
  hasmrmbyte : Bool
  immtype : NCDecodeImmediateType
  opinmrm : Nat
deriving DecidableEq, Repr

/-- The generated tables of ncdecodetab.h; `asserts` tells whether assertions are compiled in. -/
structure DecodeTables where
  kPrefixTable : Byte → PrefixMask
  kDecode1ByteOp : Byte → OpInfo
  kDecode0FXXOp : Byte → OpInfo
  kDecode660FXXOp : Byte → OpInfo
  kDecodeF20FXXOp : Byte → OpInfo
  kDecodeF30FXXOp : Byte → OpInfo
  kDecode0F0FOp : Byte → OpInfo
  kDecode0F38Op : Byte → OpInfo
  kDecode660F38Op : Byte → OpInfo
  kDecodeF20F38Op : Byte → OpInfo
  kDecode0F3AOp : Byte → OpInfo
  kDecode660F3AOp : Byte → OpInfo
  kDecodeModRMOp : Nat → Nat → OpInfo
  kDecodeX87Op : Nat → Byte → OpInfo
  asserts : Bool

def modrmMod (modrm : Byte) : Nat := modrm.toNat / 64 % 4
def modrmReg (modrm : Byte) : Nat := modrm.toNat / 8 % 8
def modrmRm (modrm : Byte) : Nat := modrm.toNat % 8
def sibBase (sib : Byte) : Nat := sib.toNat % 8

structure InstInfo where
  vaddr : Nat
  maddr : Nat
  prefixbytes : Nat
  prefixmask : PrefixMask
  hasopbyte2 : Bool
  hasopbyte3 : Bool
  hassibbyte : Bool
  mrm : Byte
  immtype : NCDecodeImmediateType
  dispbytes : Nat
  length : Nat
deriving DecidableEq, Repr

/-- `mpc` is an offset into the code, `nextbyte` one into the instruction. `internalError`
records a call of `ErrorInternal` while the instruction was decoded. -/
structure NCDecoderState where
  mpc : Nat
  nextbyte : Nat
  vpc : Nat
  opinfo : OpInfo
  inst : InstInfo
  internalError : Bool
deriving DecidableEq, Repr

def noOpInfo : OpInfo := ⟨.undefined, false, .unknown, 0⟩

def initDecoder (m : NCDecoderState) : NCDecoderState :=
  { m with
    inst := ⟨m.vpc, m.mpc, 0, 0, false, false, false, 0, .unknown, 0, 0⟩
    opinfo := noOpInfo
    internalError := false }

def errorInternal (m : NCDecoderState) : NCDecoderState := { m with internalError := true }

def extractOperandSize (m : NCDecoderState) : Nat :=
  if m.inst.prefixmask.has kPrefixDATA16 then 2 else 4

def kMaxPrefixBytes : Nat := 4

section Consume

variable (tables : DecodeTables) (bytes : Nat → Byte)

def consumePrefix : Nat → NCDecoderState → NCDecoderState
  | 0, m => m
  | left + 1, m =>
    let prefixForm := tables.kPrefixTable (bytes m.nextbyte)
    if prefixForm = 0 then m
    else consumePrefix left { m with
      inst := { m.inst with
        prefixmask := m.inst.prefixmask ||| prefixForm
        prefixbytes := m.inst.prefixbytes + 1 }
      nextbyte := m.nextbyte + 1 }

def consumePrefixBytes (m : NCDecoderState) : NCDecoderState :=
  consumePrefix tables bytes kMaxPrefixBytes m

def getExtendedOpInfo (pm : PrefixMask) (opbyte2 : Byte) : OpInfo :=
  if !pm.has (kPrefixDATA16 ||| kPrefixREPNE ||| kPrefixREP) then tables.kDecode0FXXOp opbyte2
  else if pm.has kPrefixDATA16 then tables.kDecode660FXXOp opbyte2
  else if pm.has kPrefixREPNE then tables.kDecodeF20FXXOp opbyte2
  else tables.kDecodeF30FXXOp opbyte2

def getX87OpInfo (m : NCDecoderState) : NCDecoderState :=
  let op1 := bytes m.inst.prefixbytes
  if op1.toNat < 0xd8 ∨ 0xdf < op1.toNat then
    if op1 = 0x9b then m else errorInternal m
  else { m with opinfo := tables.kDecodeX87Op (op1.toNat - 0xd8) m.inst.mrm }

/-- The table for the third opcode byte; `none` is the internal error. -/
def get3ByteOpInfo (pm : PrefixMask) (opcode2 opcode3 : Byte) : Option OpInfo :=
  if opcode2 = 0x38 then
    if pm.has kPrefixDATA16 then some (tables.kDecode660F38Op opcode3)
    else if pm.has kPrefixREPNE then some (tables.kDecodeF20F38Op opcode3)
    else if pm = 0 then some (tables.kDecode0F38Op opcode3)
    else none
  else if opcode2 = 0x3a then
    if pm.has kPrefixDATA16 then some (tables.kDecode660F3AOp opcode3)
    else if pm = 0 then some (tables.kDecode0F3AOp opcode3)
    else none
  else none

def consumeThirdByte (opcode2 : Byte) (m : NCDecoderState) : NCDecoderState :=
  if m.opinfo.insttype = .threeByte then
    let found := get3ByteOpInfo tables m.inst.prefixmask opcode2 (bytes m.nextbyte)
    let m := { m with
      nextbyte := m.nextbyte + 1
      inst := { m.inst with hasopbyte3 := true } }
    match found with
    | some info => { m with opinfo := info }
    | none => errorInternal m
  else m

def consumeOpcodeBytes (m : NCDecoderState) : NCDecoderState :=
  let opcode := bytes m.nextbyte
  let m := { m with opinfo := tables.kDecode1ByteOp opcode, nextbyte := m.nextbyte + 1 }
  let m :=
    if opcode = 0x0f then
      let opcode2 := bytes m.nextbyte
      consumeThirdByte tables bytes opcode2 { m with
        opinfo := getExtendedOpInfo tables m.inst.prefixmask opcode2
        nextbyte := m.nextbyte + 1
        inst := { m.inst with hasopbyte2 := true } }
    else m
  { m with inst := { m.inst with immtype := m.opinfo.immtype } }

/-- The opcode extension in the Mod/RM byte; `none` is a failed assertion. -/
def getOpInMrm (mrm : Byte) (m : NCDecoderState) : Option NCDecoderState :=
  if m.opinfo.opinmrm = 0 then some m
  else
    let mopinfo := tables.kDecodeModRMOp m.opinfo.opinmrm (modrmReg mrm)
    if m.inst.immtype = .unknown ∧ tables.asserts then none
    else
      let immtype := if m.inst.immtype = .unknown then mopinfo.immtype else m.inst.immtype
      let immtype :=
        if modrmReg mrm ≠ 0 then immtype
        else if immtype = .group3F6 then .fixed1
        else if immtype = .group3F7 then .datav
        else immtype
      some { m with opinfo := mopinfo, inst := { m.inst with immtype := immtype } }

def modrmDispbytes (addr16 : Bool) (mrm : Byte) : Nat :=
  if modrmMod mrm = 0 then
    if addr16 then (if modrmRm mrm = 6 then 2 else 0) else (if modrmRm mrm = 5 then 4 else 0)
  else if modrmMod mrm = 1 then 1
  else if modrmMod mrm = 2 then (if addr16 then 2 else 4)
  else 0

def consumeModRM (m : NCDecoderState) : Option NCDecoderState :=
  if !m.opinfo.hasmrmbyte then some m
  else do
    let mrm := bytes m.nextbyte
    let m := { m with inst := { m.inst with mrm := mrm }, nextbyte := m.nextbyte + 1 }
    let m := if m.opinfo.insttype = .x87 then getX87OpInfo tables bytes m else m
    let m ← getOpInMrm tables mrm m
    let addr16 := m.inst.prefixmask.has kPrefixADDR16
    return { m with
      inst := { m.inst with
        dispbytes := modrmDispbytes addr16 mrm
        hassibbyte := !addr16 && modrmRm mrm == 4 && modrmMod mrm != 3 } }

def consumeSIB (m : NCDecoderState) : NCDecoderState :=
  if !m.inst.hassibbyte then m
  else
    let sib := bytes m.nextbyte
    let m := { m with nextbyte := m.nextbyte + 1 }
    if sibBase sib ≠ 5 then m
    else if modrmMod m.inst.mrm = 0 then { m with inst := { m.inst with dispbytes := 4 } }
    else if modrmMod m.inst.mrm = 1 then { m with inst := { m.inst with dispbytes := 1 } }
    else if modrmMod m.inst.mrm = 2 then { m with inst := { m.inst with dispbytes := 4 } }
    else errorInternal m

def immediateSize (m : NCDecoderState) : Nat :=
  if m.inst.immtype = .movDatav then extractOperandSize m
  else if m.inst.prefixmask.has kPrefixDATA16 then kImmTypeToSize66 m.inst.immtype
  else if m.inst.prefixmask.has kPrefixADDR16 then kImmTypeToSize67 m.inst.immtype
  else kImmTypeToSize m.inst.immtype

def consumeID (m : NCDecoderState) : NCDecoderState :=
  let m := if m.inst.immtype = .unknown then errorInternal m else m
  let instLength := m.nextbyte + immediateSize m + m.inst.dispbytes
  let m := { m with
    nextbyte := instLength
    inst := { m.inst with length := instLength % 256 } }
  if m.inst.length ≠ instLength then errorInternal m else m

def maybeGet3ByteOpInfo (m : NCDecoderState) : NCDecoderState :=
  if m.opinfo.insttype = .threeDNow ∧ bytes m.inst.prefixbytes = 0x0f ∧
      bytes (m.inst.prefixbytes + 1) = 0x0f then
    { m with opinfo := tables.kDecode0F0FOp (bytes (m.inst.length - 1)) }
  else m

/-- One instruction: the body of the loop of `NCDecodeSegment` up to the check of its end. -/
def decodeInst (m : NCDecoderState) : Option NCDecoderState := do
  let m := consumeOpcodeBytes tables bytes (consumePrefixBytes tables bytes (initDecoder m))
  let m ← consumeModRM tables bytes m
  return maybeGet3ByteOpInfo tables bytes (consumeID (consumeSIB bytes m))

end Consume

end Glopen.Ncval

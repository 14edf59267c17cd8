import Glopen.Lib.BitTable
import Glopen.Nacl.CopyCode
import Glopen.Ncval.Decode

/-! ncvalidate.c and the segment loop of ncdecode.c. Counters that are only printed are left
out; every `Stats_` function that reports a defect sets `sawfailure`. -/
namespace Glopen.Ncval

open Memory Nacl

def kNaClFullStop : Byte := 0xf4

structure CPUFeatures where
  f386 : Bool
  fX87 : Bool
  fFXSR : Bool
  fCLFLUSH : Bool
  fCX8 : Bool
  fCMOV : Bool
  fTSC : Bool
  fMMX : Bool
  fSSE : Bool
  fSSE2 : Bool
  fSSE3 : Bool
  fSSE4A : Bool
  fSSE41 : Bool
  fSSE42 : Bool
  fMOVBE : Bool
  fPOPCNT : Bool
  fLZCNT : Bool
  fSSSE3 : Bool
  f3DNOW : Bool
  fE3DNOW : Bool
deriving DecidableEq, Repr

structure NCValidatorState where
  iadrbase : Nat
  iadrlimit : Nat
  alignment : BundleSize
  vttable : BitTable.Table 8
  kttable : BitTable.Table 8
  segments : Nat
  sawfailure : Bool

def NCValidatorState.alignmask (v : NCValidatorState) : Nat := v.alignment.toNat - 1

def statsSawFailure (v : NCValidatorState) : NCValidatorState := { v with sawfailure := true }

/-- Memory allocation next to `size` bytes of code in a 32-bit address space. The first argument
counts the bytes that were allocated before. -/
structure Heap (size : Nat) where
  calloc : Nat → Nat → Bool
  calloc_fits : ∀ used bytes, calloc used bytes = true → size + used + bytes ≤ 2 ^ 32

def iatOffset (ia : Nat) : Nat := ia / 8

/-- `none` is the null pointer. -/
def ncValidateInit {size : Nat} (heap : Heap size) (vbase vlimit alignment : Nat) :
    Option NCValidatorState :=
  if vlimit ≤ vbase then none
  else if known : alignment = 16 ∨ alignment = 32 then
    if vbase &&& (alignment - 1) ≠ 0 then none
    else
      let table := iatOffset (vlimit - vbase) + 1
      if heap.calloc 0 table && heap.calloc table table then
        some ⟨vbase, vlimit, ⟨alignment, known⟩, BitTable.empty, BitTable.empty, 0, false⟩
      else none
  else none

def statsNewSegment (v : NCValidatorState) : NCValidatorState :=
  let v := { v with segments := v.segments + 1 }
  if 1 < v.segments then statsSawFailure v else v

def rememberIP (ip : Nat) (v : NCValidatorState) : NCValidatorState :=
  if ip < v.iadrbase ∨ v.iadrlimit ≤ ip then statsSawFailure v
  else if BitTable.get v.vttable (ip - v.iadrbase) then statsSawFailure v
  else { v with vttable := BitTable.set v.vttable (ip - v.iadrbase) }

def rememberTP (target : Nat) (v : NCValidatorState) : NCValidatorState :=
  if v.iadrbase ≤ target ∧ target < v.iadrlimit then
    { v with kttable := BitTable.set v.kttable (target - v.iadrbase) }
  else if target &&& v.alignmask = 0 then v
  else statsSawFailure v

def forgetIP (ip : Nat) (v : NCValidatorState) : NCValidatorState :=
  if ip < v.iadrbase ∨ v.iadrlimit ≤ ip then statsSawFailure v
  else { v with vttable := BitTable.clear v.vttable (ip - v.iadrbase) }

/-- The two loops over the tables cannot wrap: the tables exist, so the range is smaller than
the address space by more than a bundle. -/
def ncValidateFinish (v : NCValidatorState) : NCValidatorState :=
  let size := v.iadrlimit - v.iadrbase
  let v := (List.range size).foldl (fun v offset =>
    if BitTable.get v.kttable offset && !BitTable.get v.vttable offset then statsSawFailure v
    else v) v
  let v := if v.iadrbase &&& v.alignmask ≠ 0 then statsSawFailure v else v
  (addresses 0 size v.alignment.toNat).foldl (fun v offset =>
    if !BitTable.get v.vttable offset then statsSawFailure v else v) v

section Instruction

variable (mem : Mem) (m : NCDecoderState)

def instByte (i : Nat) : Byte := mem (m.inst.maddr + i)

def validateSFenceClFlush (cpu : CPUFeatures) : Bool :=
  if modrmMod (instByte mem m 2) = 3 then !cpu.fFXSR else !cpu.fCLFLUSH

def validateCallAlignment (v : NCValidatorState) : NCValidatorState :=
  let fallthru := (m.inst.vaddr + m.inst.length) % 2 ^ 32
  if fallthru &&& v.alignmask ≠ 0 then statsSawFailure v else v

/-- The address that lies `offset` bytes after the end of the instruction. -/
def relativeTarget (offset : BitVec 32) : Nat :=
  (m.inst.vaddr + m.inst.length + offset.toNat) % 2 ^ 32

def isJmp8Opcode (opcode : Byte) : Bool :=
  opcode &&& 0xf0 == 0x70 || opcode == 0xeb || opcode == 0xe0 || opcode == 0xe1 ||
    opcode == 0xe2 || opcode == 0xe3

def validateJmp8 (v : NCValidatorState) : NCValidatorState :=
  let opcode := instByte mem m m.inst.prefixbytes
  let offset := (instByte mem m (m.inst.prefixbytes + 1)).signExtend 32
  if isJmp8Opcode opcode then rememberTP (relativeTarget m offset) v else statsSawFailure v

def validateJmpz (v : NCValidatorState) : NCValidatorState :=
  let opcode := instByte mem m m.inst.prefixbytes
  let start := m.inst.maddr + m.inst.prefixbytes
  if opcode = 0xe8 ∨ opcode = 0xe9 then
    let v := rememberTP (relativeTarget m (loadWord mem (start + 1))) v
    if opcode = 0xe8 then validateCallAlignment m v else v
  else if opcode = 0x0f then
    if instByte mem m (m.inst.prefixbytes + 1) &&& 0xf0 = 0x80 then
      rememberTP (relativeTarget m (loadWord mem (start + 2))) v
    else v
  else statsSawFailure v

def kRegESP : Nat := 4

/-- The byte `0x0ff & ~alignmask`. -/
def maskByte (alignment : BundleSize) : Byte := 0xff &&& ~~~ BitVec.ofNat 8 (alignment.toNat - 1)

def validateIndirect5 (andinst : NCDecoderState) (v : NCValidatorState) : NCValidatorState :=
  if andinst.inst.length = 0 then statsSawFailure v
  else
    let mrm := instByte mem m 1
    let targetreg := modrmRm mrm
    if m.inst.prefixbytes ≠ 0 ∨ andinst.inst.prefixbytes ≠ 0 then statsSawFailure v
    else if instByte mem m 0 ≠ 0xff then statsSawFailure v
    else if modrmReg mrm ≠ 2 ∧ modrmReg mrm ≠ 4 then statsSawFailure v
    else if modrmMod mrm ≠ 3 then statsSawFailure v
    else if targetreg = kRegESP then statsSawFailure v
    else if instByte mem andinst 0 ≠ 0x83 then statsSawFailure v
    else if (instByte mem andinst 1).toNat ≠ 0xe0 ||| targetreg then statsSawFailure v
    else if instByte mem andinst 2 ≠ maskByte v.alignment then statsSawFailure v
    else
      let v := forgetIP m.inst.vaddr v
      if modrmReg mrm = 2 then validateCallAlignment m v else v

def badPrefixMask : NaClInstType → PrefixMask
  | .i386 => ~~~ (kPrefixDATA16 ||| kPrefixSEGGS)
  | .i386L => ~~~ (kPrefixDATA16 ||| kPrefixLOCK)
  | .i386R => ~~~ (kPrefixDATA16 ||| kPrefixREP)
  | .i386RE => ~~~ (kPrefixDATA16 ||| kPrefixREP ||| kPrefixREPNE)
  | .jmp8 => ~~~ (kPrefixSEGCS ||| kPrefixSEGDS)
  | .jmpz => ~~~ (kPrefixSEGCS ||| kPrefixSEGDS)
  | .cmpxchg8b => ~~~ kPrefixLOCK
  | _ => 0xffffffff

def kMaxValidPrefixBytes : Nat := 1
def kMaxValidInstLength : Nat := 11

def prefixAllowed : Bool :=
  if m.inst.prefixbytes = 0 then true
  else if kMaxValidPrefixBytes < m.inst.prefixbytes then false
  else if m.inst.hasopbyte2 then
    !m.inst.prefixmask.has kPrefixLOCK || m.opinfo.insttype == .i386L || m.opinfo.insttype == .cmpxchg8b
  else !m.inst.prefixmask.has (badPrefixMask m.opinfo.insttype)

/-- The switch over the instruction type, with `squashme`. -/
def validateInstType (cpu : CPUFeatures) (prev : NCDecoderState) (v : NCValidatorState) :
    NCValidatorState × Bool :=
  match m.opinfo.insttype with
  | .i386 | .i386L | .i386R | .i386RE => (v, false)
  | .jmp8 => (validateJmp8 mem m v, false)
  | .jmpz => (validateJmpz mem m v, false)
  | .indirect => (validateIndirect5 mem m prev v, false)
  | .x87 => (v, !cpu.fX87)
  | .sfenceClflush => (v, validateSFenceClFlush mem m cpu)
  | .cmpxchg8b => (v, !cpu.fCX8)
  | .cmov => (v, !cpu.fCMOV)
  | .fcmov => (v, !(cpu.fCMOV && cpu.fX87))
  | .rdtsc => (v, !cpu.fTSC)
  | .mmx => (v, !cpu.fMMX)
  | .mmxsse2 => (v, !(cpu.fMMX || cpu.fSSE2))
  | .sse => (v, !cpu.fSSE)
  | .sse2 => (v, !cpu.fSSE2)
  | .sse3 => (v, !cpu.fSSE3)
  | .sse4a => (v, !cpu.fSSE4A)
  | .sse41 => (v, !cpu.fSSE41)
  | .sse42 => (v, !cpu.fSSE42)
  | .movbe => (v, !cpu.fMOVBE)
  | .popcnt => (v, !cpu.fPOPCNT)
  | .lzcnt => (v, !cpu.fLZCNT)
  | .ssse3 => (v, !cpu.fSSSE3)
  | .threeDNow => (v, !cpu.f3DNOW)
  | .e3dnow => (v, !cpu.fE3DNOW)
  | .sse2x =>
    (if m.inst.prefixmask.has kPrefixDATA16 then v else statsSawFailure v, !cpu.fSSE2)
  | .ret | .emmx | .invalid | .illegal | .system | .rdmsr | .rdtscp | .syscall | .sysenter
  | .longmode | .svm | .opinmrm | .threeByte | .cmpxchg16b | .undefined =>
    (statsSawFailure v, false)

/-- `memset(maddr, kNaClFullStop, length)`. -/
def squash : Mem := fun x =>
  if m.inst.maddr ≤ x ∧ x < m.inst.maddr + m.inst.length then kNaClFullStop else mem x

def validateInst (cpu : CPUFeatures) (prev : NCDecoderState) (v : NCValidatorState) :
    NCValidatorState × Mem :=
  let v := rememberIP m.inst.vaddr v
  let v := if prefixAllowed m then v else statsSawFailure v
  let v := if kMaxValidInstLength < m.inst.length - m.inst.prefixbytes then statsSawFailure v else v
  let (v, squashme) := validateInstType mem m cpu prev v
  (v, if squashme then squash mem m else mem)

end Instruction

def kDecodeBufferSize : Nat := 4

/-- The locals of `NCDecodeSegment` and the memory that it works on; `slot` is `mstate`. -/
structure DecodeLoop where
  mem : Mem
  decodebuffer : Nat → NCDecoderState
  slot : Nat
  dbindex : Nat
  vstate : NCValidatorState

def previousInst (st : DecodeLoop) : NCDecoderState :=
  st.decodebuffer ((st.slot + kDecodeBufferSize - 1) % kDecodeBufferSize)

def putSlot (buffer : Nat → NCDecoderState) (slot : Nat) (m : NCDecoderState) : Nat → NCDecoderState :=
  fun k => if k = slot then m else buffer k

def reportInternal (m : NCDecoderState) (v : NCValidatorState) : NCValidatorState :=
  if m.internalError then statsSawFailure v else v

def advance (cpu : CPUFeatures) (m : NCDecoderState) (newpc : Nat) (st : DecodeLoop) : DecodeLoop :=
  let (v, mem) := validateInst st.mem m cpu (previousInst st) st.vstate
  let dbindex := (st.dbindex + 1) % kDecodeBufferSize
  let next := { st.decodebuffer dbindex with
    vpc := newpc
    mpc := m.mpc + m.inst.length
    nextbyte := m.nextbyte - m.inst.length }
  { mem := mem
    decodebuffer := putSlot st.decodebuffer dbindex next
    slot := dbindex
    dbindex := dbindex
    vstate := v }

/-- `none`: a failed assertion, or no fuel left. -/
def decodeLoop (tables : DecodeTables) (cpu : CPUFeatures) (vlimit : Nat) :
    Nat → DecodeLoop → Option DecodeLoop
  | 0, _ => none
  | fuel + 1, st =>
    let cur := st.decodebuffer st.slot
    if vlimit ≤ cur.vpc then some st
    else do
      let m ← decodeInst tables (fun i => st.mem (cur.mpc + i)) cur
      let st := { st with
        decodebuffer := putSlot st.decodebuffer st.slot m
        vstate := reportInternal m st.vstate }
      let newpc := (m.vpc + m.inst.length) % 2 ^ 32
      if vlimit < newpc then some { st with vstate := statsSawFailure st.vstate }
      else decodeLoop tables cpu vlimit fuel (advance cpu m newpc st)

def freshSlot : NCDecoderState :=
  ⟨0, 0, 0, noOpInfo, ⟨0, 0, 0, 0, false, false, false, 0, .unknown, 0, 0⟩, false⟩

def ncDecodeSegment (tables : DecodeTables) (cpu : CPUFeatures) (fuel : Nat) (code : Mem)
    (vbase size : Nat) (v : NCValidatorState) : Option (NCValidatorState × Mem) := do
  let buffer := putSlot (fun _ => freshSlot) 0 { freshSlot with vpc := vbase }
  let st ← decodeLoop tables cpu ((vbase + size) % 2 ^ 32) fuel
    ⟨code, buffer, 0, kDecodeBufferSize, statsNewSegment v⟩
  return (st.vstate, st.mem)

def ncValidateSegment (tables : DecodeTables) (cpu : CPUFeatures) (fuel : Nat) (code : Mem)
    (vbase size : Nat) (v : NCValidatorState) : Option (NCValidatorState × Mem) :=
  if size = 0 then some (statsSawFailure v, code)
  else if !cpu.f386 then some (statsSawFailure v, code)
  else ncDecodeSegment tables cpu fuel code vbase size v

def ncValidate {size : Nat} (tables : DecodeTables) (cpu : CPUFeatures) (heap : Heap size)
    (fuel : Nat) (code : Mem) (vbase : BitVec 32) (alignment : Nat) : Option Nat :=
  match ncValidateInit heap vbase.toNat ((vbase.toNat + size) % 2 ^ 32) alignment with
  | none => some 1
  | some v => do
    let (v, _) ← ncValidateSegment tables cpu fuel code vbase.toNat size v
    return if (ncValidateFinish v).sawfailure then 1 else 0

end Glopen.Ncval

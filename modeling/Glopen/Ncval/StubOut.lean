import Glopen.Ncval.Sweep

/-! ncvalidate.c and sel_validate_image.c with `do_stub_out`: the bytes of a rejected instruction
are overwritten with halts while the decoder goes on behind it. -/
namespace Glopen.Ncval

open Memory Nacl

/-- What one call of `BadInstructionError` reports. -/
structure BadInstruction where
  vaddr : Nat
  msg : String
deriving DecidableEq, Repr

/-- What `ValidateInst` works on, and the errors that it has reported. -/
structure Scrutiny where
  vstate : NCValidatorState
  mem : Mem
  errors : List BadInstruction

section Instruction

variable (stub : Bool) (m : NCDecoderState)

def badInstructionError (msg : String) (s : Scrutiny) : Scrutiny :=
  { s with
    mem := if stub then squash s.mem m else s.mem
    errors := s.errors ++ [⟨m.inst.vaddr, msg⟩] }

/-- `BadInstructionError` and the `Stats_` function of the defect. -/
def reject (msg : String) (s : Scrutiny) : Scrutiny :=
  let s := badInstructionError stub m msg s
  { s with vstate := statsSawFailure s.vstate }

def validateIndirect5Stub (andinst : NCDecoderState) (s : Scrutiny) : Scrutiny :=
  let refused := reject stub m "Unsafe indirect jump" s
  if andinst.inst.length = 0 then refused
  else
    let mrm := instByte s.mem m 1
    let targetreg := modrmRm mrm
    if m.inst.prefixbytes ≠ 0 ∨ andinst.inst.prefixbytes ≠ 0 then refused
    else if instByte s.mem m 0 ≠ 0xff then refused
    else if modrmReg mrm ≠ 2 ∧ modrmReg mrm ≠ 4 then refused
    else if modrmMod mrm ≠ 3 then refused
    else if targetreg = kRegESP then refused
    else if instByte s.mem andinst 0 ≠ 0x83 then refused
    else if (instByte s.mem andinst 1).toNat ≠ 0xe0 ||| targetreg then refused
    else if instByte s.mem andinst 2 ≠ maskByte s.vstate.alignment then refused
    else
      let v := forgetIP m.inst.vaddr s.vstate
      { s with vstate := if modrmReg mrm = 2 then validateCallAlignment m v else v }

/-- The switch over the instruction type, with `squashme`. The types that report no bad
instruction are those of `validateInstType`. -/
def validateInstTypeStub (cpu : CPUFeatures) (prev : NCDecoderState) (s : Scrutiny) : Scrutiny × Bool :=
  match m.opinfo.insttype with
  | .indirect => (validateIndirect5Stub stub m prev s, false)
  | .sse2x =>
    (if m.inst.prefixmask.has kPrefixDATA16 then s else reject stub m "Bad prefix usage" s, !cpu.fSSE2)
  | .ret =>
    (reject stub m "Illegal instruction" (reject stub m "ret instruction (not allowed)" s), false)
  | .emmx | .invalid | .illegal | .system | .rdmsr | .rdtscp | .syscall | .sysenter | .longmode
  | .svm | .opinmrm | .threeByte | .cmpxchg16b => (reject stub m "Illegal instruction" s, false)
  | .undefined => (reject stub m "Undefined instruction" s, false)
  | _ =>
    let (v, squashme) := validateInstType s.mem m cpu prev s.vstate
    ({ s with vstate := v }, squashme)

def validateInstStub (cpu : CPUFeatures) (prev : NCDecoderState) (s : Scrutiny) : Scrutiny :=
  let s := { s with vstate := rememberIP m.inst.vaddr s.vstate }
  let s := if prefixAllowed m then s else reject stub m "Bad prefix usage" s
  let s :=
    if kMaxValidInstLength < m.inst.length - m.inst.prefixbytes then
      reject stub m "Instruction too long" s
    else s
  let (s, squashme) := validateInstTypeStub stub m cpu prev s
  if squashme then { s with mem := squash s.mem m } else s

end Instruction

/-- The loop of `NCDecodeSegment` with the errors so far and the instructions that were handed
to `ValidateInst`. -/
structure StubLoop extends DecodeLoop where
  errors : List BadInstruction
  seen : List NCDecoderState

section Segment

variable (tables : DecodeTables) (cpu : CPUFeatures) (stub : Bool)

def advanceStub (m : NCDecoderState) (newpc : Nat) (st : StubLoop) : StubLoop :=
  let s := validateInstStub stub m cpu (previousInst st.toDecodeLoop) ⟨st.vstate, st.mem, st.errors⟩
  let dbindex := (st.dbindex + 1) % kDecodeBufferSize
  let next := { st.decodebuffer dbindex with
    vpc := newpc
    mpc := m.mpc + m.inst.length
    nextbyte := m.nextbyte - m.inst.length }
  { mem := s.mem
    decodebuffer := putSlot st.decodebuffer dbindex next
    slot := dbindex
    dbindex := dbindex
    vstate := s.vstate
    errors := s.errors
    seen := st.seen ++ [m] }

/-- `none`: a failed assertion, or no fuel left. -/
def decodeLoopStub (vlimit : Nat) : Nat → StubLoop → Option StubLoop
  | 0, _ => none
  | fuel + 1, st =>
    let cur := st.decodebuffer st.slot
    if vlimit ≤ cur.vpc then some st
    else do
      let m ← decodeInst tables (fun i => st.mem (cur.mpc + i)) cur
      let st := { st with
        decodebuffer := putSlot st.decodebuffer st.slot m
        vstate := reportInternal m st.vstate }
      let newpc := (m.vpc + m.inst.length) % 2 ^ 32
      if vlimit < newpc then some { st with vstate := statsSawFailure st.vstate }
      else decodeLoopStub vlimit fuel (advanceStub cpu stub m newpc st)

/-- What a call of `NCValidateSegment` leaves behind; `stop` is the offset at which the decoder
stood last. -/
structure Pass where
  vstate : NCValidatorState
  mem : Mem
  errors : List BadInstruction
  seen : List NCDecoderState
  stop : Nat

def startLoop (code : Mem) (vbase : Nat) (v : NCValidatorState) : StubLoop where
  mem := code
  decodebuffer := putSlot (fun _ => freshSlot) 0 { freshSlot with vpc := vbase }
  slot := 0
  dbindex := kDecodeBufferSize
  vstate := statsNewSegment v
  errors := []
  seen := []

def ncDecodeSegmentStub (fuel : Nat) (code : Mem) (vbase size : Nat) (v : NCValidatorState) :
    Option Pass := do
  let st ← decodeLoopStub tables cpu stub ((vbase + size) % 2 ^ 32) fuel (startLoop code vbase v)
  return ⟨st.vstate, st.mem, st.errors, st.seen, (st.decodebuffer st.slot).mpc⟩

def ncValidateSegmentStub (fuel : Nat) (code : Mem) (vbase size : Nat) (v : NCValidatorState) :
    Option Pass :=
  if size = 0 then some ⟨statsSawFailure v, code, [], [], 0⟩
  else if !cpu.f386 then some ⟨statsSawFailure v, code, [], [], 0⟩
  else ncDecodeSegmentStub tables cpu stub fuel code vbase size v

end Segment

inductive LoadStatus where
  | ok | badFile | validationFailed
deriving DecidableEq, Repr

def stubOutPass (tables : DecodeTables) (cpu : CPUFeatures) (validatorStubOutMode : Bool)
    (fuel : Nat) (data : Mem) (guestAddr size : Nat) (v : NCValidatorState) : Option Mem :=
  if validatorStubOutMode then
    (ncValidateSegmentStub tables cpu true fuel data guestAddr size v).map (·.mem)
  else some data

/-- The result and the memory; `none`: a failed assertion, or no fuel left. -/
def naClValidateCode {size : Nat} (tables : DecodeTables) (cpu : CPUFeatures) (heap : Heap size)
    (validatorStubOutMode : Bool) (fuel : Nat) (guestAddr : BitVec 32) (data : Mem)
    (bundleSize : Nat) : Option (LoadStatus × Mem) :=
  match ncValidateInit heap guestAddr.toNat ((guestAddr.toNat + size) % 2 ^ 32) bundleSize with
  | none => some (.badFile, data)
  | some v => do
    let data ← stubOutPass tables cpu validatorStubOutMode fuel data guestAddr.toNat size v
    let pass ← ncValidateSegmentStub tables cpu false fuel data guestAddr.toNat size v
    return (if (ncValidateFinish pass.vstate).sawfailure then .validationFailed else .ok, pass.mem)

end Glopen.Ncval

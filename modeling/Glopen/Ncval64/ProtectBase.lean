import Glopen.Ncval64.Jumps

/-! The base register validator: no instruction may change the base register, and a change of
ESP or EBP must be repaired by the next instruction. -/
namespace Glopen.Ncval64

/-- One of the tables that `NaClBuildSubreg64Regs` fills. -/
def naClAddSubRegsFold (subregTable : NaClOpKind → NaClOpKind) (subtable table : List NaClOpKind)
    (indexFold : List Nat) : NaClOpKind → NaClOpKind :=
  (subtable.zip indexFold).foldl (fun filled pair reg => if pair.1 ≠ regUnknown ∧ reg = pair.1 then
      table.getD pair.2 regUnknown else filled reg) subregTable

def naClAddSubRegs (subregTable : NaClOpKind → NaClOpKind) (subtable table : List NaClOpKind) :
    NaClOpKind → NaClOpKind :=
  naClAddSubRegsFold subregTable subtable table (List.range 16)

def addWideRegs (bytes : NaClOpKind → NaClOpKind) : NaClOpKind → NaClOpKind :=
  naClAddSubRegs (naClAddSubRegs (naClAddSubRegs bytes naClRegTable16 naClRegTable64)
    naClRegTable32 naClRegTable64) naClRegTable64 naClRegTable64

def naClSubreg64RegRex : NaClOpKind → NaClOpKind :=
  addWideRegs (naClAddSubRegs (fun _ => regUnknown) naClRegTable8Rex naClRegTable64)

def naClSubreg64RegNoRex : NaClOpKind → NaClOpKind :=
  addWideRegs (naClAddSubRegsFold (fun _ => regUnknown) naClRegTable8NoRex naClRegTable64
    naClRegTable8NoRexTo64)

def subreg64 (inst : NaClInstState) (subreg : NaClOpKind) : NaClOpKind :=
  if inst.rexByte ≠ 0 then naClSubreg64RegRex subreg else naClSubreg64RegNoRex subreg

/-- `NaClRegTable64[reg64]`. The table has 16 entries and the index is the number of the
register, so that the read goes past the end: `stray` is what lies there. -/
def regTable64At (stray : NaClOpKind → NaClOpKind) (reg64 : NaClOpKind) : NaClOpKind :=
  naClRegTable64.getD reg64.toNat (stray reg64)

def naClIs64Subreg (stray : NaClOpKind → NaClOpKind) (inst : NaClInstState)
    (subreg reg64 : NaClOpKind) : Bool :=
  subreg64 inst subreg == regTable64At stray reg64

def setOrUse (inst : NaClInst) (index : Nat) : Bool × Bool :=
  let flags := (naClGetInstOperand inst index).getD 0
  (flags.getLsbD opSet, flags.getLsbD opUse)

def isRegister (node : NaClExp) (reg : NaClOpKind) : Bool :=
  node.kind == .exprRegister && node.value == reg

def naClIsBinaryUsingRegisters (inst : NaClInst) (name : NaClMnemonic) (vector : NaClExpVector)
    (reg1 reg2 : NaClOpKind) : Bool :=
  name == inst.name && naClGetInstNumberOperands inst == 2 &&
    isRegister (vector.node 1) reg1 && isRegister (vector.node 3) reg2

def naClIsMovUsingRegisters (inst : NaClInst) (vector : NaClExpVector)
    (regSet regUse : NaClOpKind) : Bool :=
  naClIsBinaryUsingRegisters inst .instMov vector regSet regUse &&
    setOrUse inst 0 == (true, false) && setOrUse inst 1 == (false, true)

def naClIsBinarySetUsingRegisters (inst : NaClInst) (name : NaClMnemonic)
    (vector : NaClExpVector) (reg1 reg2 : NaClOpKind) : Bool :=
  naClIsBinaryUsingRegisters inst name vector reg1 reg2 &&
    setOrUse inst 0 == (true, true) && setOrUse inst 1 == (false, true)

def naClOperandOneIsRegisterSet (inst : NaClInstState) (reg : NaClOpKind) : Bool :=
  2 ≤ inst.nodes.numberExprNodes && isRegister (inst.nodes.node 1) reg &&
    (inst.nodes.node 1).flags.getLsbD exprSet

def naClOperandOneZeroExtends (inst : NaClInstState) : Bool :=
  1 ≤ naClGetInstNumberOperands inst.inst &&
    ((naClGetInstOperand inst.inst 0).getD 0).getLsbD operandZeroExtendsV &&
    inst.operandSize == 4

def naClAssignsRegisterWithZeroExtends (inst : NaClInstState) (reg : NaClOpKind) : Bool :=
  naClOperandOneIsRegisterSet inst reg && naClOperandOneZeroExtends inst

def naClIsAddOrSubBoundedConstFromEsp (inst : NaClInstState) : Bool :=
  (inst.inst.name == .instAdd || inst.inst.name == .instSub) &&
    naClGetInstNumberOperands inst.inst == 2 && isRegister (inst.nodes.node 1) regESP &&
    (inst.nodes.node 3).kind == .exprConstant

structure NaClBaseRegisterLocals where
  espSetInst : Option NaClInstState
  ebpSetInst : Option NaClInstState

structure BaseState where
  validator : ValidatorState
  locals : NaClBaseRegisterLocals

def BaseState.report (state : BaseState) : BaseState :=
  { state with validator := reportError state.validator }

def naClMaybeReportPreviousBad (state : BaseState) : BaseState :=
  if state.locals.espSetInst.isSome || state.locals.ebpSetInst.isSome then
    { state.report with locals := ⟨none, none⟩ }
  else state

inductive RspChange
  | stackOperation | implicitPop | repaired | realigned | fromRbp | illegal
deriving DecidableEq, Repr

/-- The instruction adds the base register to a register that the one before it has zero
extended. -/
def rspRepaired (r : Region) (iter : NaClInstIter) : Bool :=
  let inst := iter.current
  naClIsBinarySetUsingRegisters inst.inst inst.inst.name inst.nodes regRSP r.baseRegister &&
    match iter.getLookbackState 1 with
    | none => false
    | some prev => naClAssignsRegisterWithZeroExtends prev regESP ||
        (inst.inst.name == .instAdd && naClIsAddOrSubBoundedConstFromEsp prev)

def rbpRepaired (r : Region) (iter : NaClInstIter) : Bool :=
  let inst := iter.current
  match iter.getLookbackState 1 with
  | none => false
  | some prev =>
    naClIsBinarySetUsingRegisters inst.inst .instAdd inst.nodes regRBP r.baseRegister &&
      naClAssignsRegisterWithZeroExtends prev regEBP

/-- `and $rsp, 0xXX` with a negative byte. -/
def realignsRsp (inst : NaClInstState) : Bool :=
  inst.length == 4 && inst.byte 0 == 0x48 && inst.byte 1 == 0x83 && inst.byte 2 == 0xe4 &&
    (inst.byte 3).getLsbD 7

def rspChange (r : Region) (iter : NaClInstIter) (i : Nat) : RspChange :=
  let inst := iter.current
  match inst.inst.name with
  | .instPush | .instCall => .stackOperation
  | .instPop =>
    let parent := inst.nodes.node (naClGetExpParentIndex inst.nodes i)
    if parent.kind = .operandReference ∧
        (inst.inst.operands.getD parent.value.toNat 0).getLsbD opImplicit then .implicitPop
    else .illegal
  | .instOr | .instAdd => if rspRepaired r iter then .repaired else .illegal
  | .instAnd =>
    if realignsRsp inst then .realigned
    else if naClIsMovUsingRegisters inst.inst inst.nodes regRSP regRBP then .fromRbp
    else .illegal
  | _ => if naClIsMovUsingRegisters inst.inst inst.nodes regRSP regRBP then .fromRbp else .illegal

inductive Outcome
  | next (state : BaseState)
  | done (state : BaseState)

def mark (r : Region) (iter : NaClInstIter) (state : BaseState) : BaseState :=
  { state with validator := naClMarkInstructionJumpIllegal r iter.current state.validator }

def setRsp (r : Region) (iter : NaClInstIter) (i : Nat) (state : BaseState) : Outcome :=
  match rspChange r iter i with
  | .stackOperation | .realigned | .fromRbp => .done (naClMaybeReportPreviousBad state)
  | .implicitPop => .next (naClMaybeReportPreviousBad state)
  | .repaired =>
    .done (naClMaybeReportPreviousBad { mark r iter state with locals := ⟨none, state.locals.ebpSetInst⟩ })
  | .illegal => .next (naClMaybeReportPreviousBad state.report)

def setRbp (r : Region) (iter : NaClInstIter) (state : BaseState) : Outcome :=
  if naClIsMovUsingRegisters iter.current.inst iter.current.nodes regRBP regRSP then .next state
  else if rbpRepaired r iter then
    .done (naClMaybeReportPreviousBad { mark r iter state with locals := ⟨state.locals.espSetInst, none⟩ })
  else .next state.report

def setEsp (iter : NaClInstIter) (state : BaseState) : BaseState :=
  let state := naClMaybeReportPreviousBad state
  { state with locals := ⟨some iter.current, state.locals.ebpSetInst⟩ }

def setEbp (iter : NaClInstIter) (state : BaseState) : BaseState :=
  let state := naClMaybeReportPreviousBad state
  { state with locals := ⟨state.locals.espSetInst, some iter.current⟩ }

def setsRegister (node : NaClExp) : Bool :=
  node.kind == .exprRegister && node.flags.getLsbD exprSet

def checkNode (r : Region) (stray : NaClOpKind → NaClOpKind) (iter : NaClInstIter)
    (state : BaseState) (i : Nat) : Outcome :=
  let node := iter.current.nodes.node i
  let reg := node.value
  if setsRegister node then
    if reg = r.baseRegister then .next state.report
    else if reg = regRSP then setRsp r iter i state
    else if reg = regRBP then setRbp r iter state
    else if reg = regESP then .done (setEsp iter state)
    else if reg = regEBP then .done (setEbp iter state)
    else if naClIs64Subreg stray iter.current reg r.baseRegister ||
        naClIs64Subreg stray iter.current reg regRSP ||
        naClIs64Subreg stray iter.current reg regRBP then .next state.report
    else .next state
  else .next state

def checkNodes (r : Region) (stray : NaClOpKind → NaClOpKind) (iter : NaClInstIter) :
    List Nat → BaseState → BaseState × Option Nat
  | [], state => (state, none)
  | i :: rest, state =>
    match checkNode r stray iter state i with
    | .next state => checkNodes r stray iter rest state
    | .done state => (state, some i)

def naClBaseRegisterValidator (r : Region) (stray : NaClOpKind → NaClOpKind)
    (iter : NaClInstIter) (state : BaseState) : BaseState :=
  match checkNodes r stray iter (List.range iter.current.nodes.numberExprNodes) state with
  | (state, none) => naClMaybeReportPreviousBad state
  | (state, some _) => state

def naClBaseRegisterSummarize (state : BaseState) : BaseState := naClMaybeReportPreviousBad state

def validateBase (r : Region) (stray : NaClOpKind → NaClOpKind) :
    List NaClInstState → List NaClInstState → BaseState → BaseState
  | _, [], state =>
    if naClValidatorQuit r state.validator then state else naClBaseRegisterSummarize state
  | past, inst :: rest, state =>
    let state := naClBaseRegisterValidator r stray ⟨inst, past⟩ state
    if naClValidatorQuit r state.validator then state
    else validateBase r stray (inst :: past) rest state

def naClBaseRegisterMemoryCreate (validator : ValidatorState) : BaseState :=
  ⟨validator, ⟨none, none⟩⟩

end Glopen.Ncval64

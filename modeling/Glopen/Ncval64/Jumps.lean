import Glopen.Ncval64.Exps

/-! The jump validator of the x86-64 validator: it records where instructions start and where
jumps go, and compares the two sets when the whole region has been seen. -/
namespace Glopen.Ncval64

/-- The fields of `NaClValidatorState` that do not change, as `NaClValidatorStateCreate` checks
them. -/
structure Region where
  vbase : Nat
  vlimit : Nat
  alignment : Nat
  baseRegister : NaClOpKind
  quitAfterFirstError : Bool
  /-- The flag `NACL_FLAGS_identity_mask`. -/
  identityMask : Bool
  nonempty : vbase < vlimit
  bounded : vlimit < 2 ^ 64
  bundles : alignment = 16 ∨ alignment = 32

/-- The address sets hold offsets from `vbase`. -/
abbrev NaClAddressSet := BitTable.Table 8

structure NaClJumpSets where
  actualTargets : NaClAddressSet
  possibleTargets : NaClAddressSet

structure ValidatorState where
  validatesOk : Bool
  jumpSets : NaClJumpSets

/-- The state after `NaClValidatorStateCreate`. -/
def naClValidatorStateCreate : ValidatorState := ⟨true, BitTable.empty, BitTable.empty⟩

def reportError (state : ValidatorState) : ValidatorState := { state with validatesOk := false }

def naClValidatorQuit (r : Region) (state : ValidatorState) : Bool :=
  r.quitAfterFirstError && !state.validatesOk

section Sets

variable (r : Region)

def alignmentMask : Nat := r.alignment - 1

def inRegion (address : Nat) : Bool := r.vbase ≤ address && address < r.vlimit

def naClGetJumpMask : BitVec 8 :=
  if r.identityMask then 0xff else ~~~ BitVec.ofNat 8 (alignmentMask r)

def naClAddressSetContains (set : NaClAddressSet) (address : Nat) (state : ValidatorState) :
    Bool × ValidatorState :=
  if inRegion r address then (BitTable.get set (address - r.vbase), state) else (false, reportError state)

def addActual (address : Nat) (state : ValidatorState) : ValidatorState :=
  if inRegion r address then
    { state with jumpSets.actualTargets :=
        BitTable.set state.jumpSets.actualTargets (address - r.vbase) }
  else reportError state

def addPossible (address : Nat) (state : ValidatorState) : ValidatorState :=
  if inRegion r address then
    { state with jumpSets.possibleTargets :=
        BitTable.set state.jumpSets.possibleTargets (address - r.vbase) }
  else reportError state

def naClMarkInstructionJumpIllegal (inst : NaClInstState) (state : ValidatorState) : ValidatorState :=
  if inRegion r inst.vpc then
    { state with jumpSets.possibleTargets :=
        BitTable.clear state.jumpSets.possibleTargets (inst.vpc - r.vbase) }
  else state

end Sets

/-- Why a look at a jump sequence ended: the code broke out of the block or an `assert` failed. -/
inductive Stop
  | broke | aborted

def proceedIf (condition : Bool) : Except Stop Unit :=
  if condition then .ok () else .error .broke

def asserted {α : Type} : Option α → Except Stop α
  | some a => .ok a
  | none => .error .aborted

def naClExtractBinaryOperandIndices (inst : NaClInstState) : Option (Nat × Nat) :=
  let references := (List.range inst.nodes.numberExprNodes).filter fun index =>
    (inst.nodes.node index).kind = .operandReference
  match references with
  | first :: second :: _ => some (first + 1, second + 1)
  | _ => none

def foundOr {α : Type} : Option α → Except Stop α
  | some a => .ok a
  | none => .error .broke

def naClMemOffsetMatchesBaseIndex (vector : NaClExpVector) (memoffset : Nat)
    (baseRegister indexRegister : NaClOpKind) : Option Bool := do
  let r1Index := memoffset + 1
  let r2Index := r1Index + naClExpWidth vector r1Index
  let scaleIndex := r2Index + naClExpWidth vector r2Index
  let dispIndex := scaleIndex + naClExpWidth vector scaleIndex
  let r1 ← naClGetExpVectorRegister vector r1Index
  let r2 ← naClGetExpVectorRegister vector r2Index
  let scale ← naClGetExpConstant vector scaleIndex
  let disp ← naClGetExpConstant vector dispIndex
  if (vector.node memoffset).kind = .exprMemOffset then
    some (r1 == baseRegister && r2 == indexRegister && scale == 1 && disp == 0)
  else none

def middleOk (r : Region) (middle : NaClInstState) (op2 : Nat) (jumpReg and64Reg : NaClOpKind) :
    Except Stop Unit :=
  if middle.inst.name = .instLea then do
    proceedIf ((middle.nodes.node op2).kind = .exprMemOffset)
    let found ← asserted (naClMemOffsetMatchesBaseIndex middle.nodes op2 r.baseRegister and64Reg)
    proceedIf found
  else if middle.inst.name = .instAdd then do
    proceedIf (jumpReg = and64Reg)
    let added ← asserted (naClGetExpVectorRegister middle.nodes op2)
    proceedIf (added = r.baseRegister)
  else .error .broke

/-- The block of `NaClAddRegisterJumpIndirect64`: the middle instruction of a sequence that
masks the jump. -/
def maskedSequence (r : Region) (iter : NaClInstIter) (reg : NaClExp) : Except Stop NaClInstState := do
  let jumpReg ← asserted (naClGetExpRegister reg)
  let andState ← foundOr (iter.getLookbackState 2)
  proceedIf (andState.inst.opcode = 0x83 ∧ andState.inst.name = .instAnd)
  let (op1, op2) ← foundOr (naClExtractBinaryOperandIndices andState)
  let andReg ← foundOr (naClGetExpRegister (andState.nodes.node op1))
  let and64Reg := naClGet64For32BitReg andReg
  proceedIf (and64Reg ≠ regUnknown)
  let mask := naClGetJumpMask r
  asserted (if mask = 0 then none else some ())
  let constant := andState.nodes.node op2
  proceedIf (constant.kind = .exprConstant ∧ constant.value = mask.zeroExtend 32)
  let middle ← asserted (iter.getLookbackState 1)
  let (op1, op2) ← foundOr (naClExtractBinaryOperandIndices middle)
  let middleReg ← foundOr (naClGetExpRegister (middle.nodes.node op1))
  proceedIf (middleReg = jumpReg)
  middleOk r middle op2 jumpReg and64Reg
  return middle

/-- A failed `assert` ends the program, which is `none`. -/
def naClAddRegisterJumpIndirect64 (r : Region) (iter : NaClInstIter) (reg : NaClExp)
    (state : ValidatorState) : Option ValidatorState :=
  match maskedSequence r iter reg with
  | .ok middle =>
    some (naClMarkInstructionJumpIllegal r iter.current (naClMarkInstructionJumpIllegal r middle state))
  | .error .broke => some (reportError state)
  | .error .aborted => none

def naClAddJumpToJumpSets (r : Region) (toAddress : Nat) (state : ValidatorState) : ValidatorState :=
  if inRegion r toAddress then addActual r toAddress state
  else if toAddress &&& alignmentMask r = 0 ∧ toAddress >>> 32 = 0 then state
  else reportError state

def exemptCall (inst : NaClInstState) (target : Nat) : Bool :=
  target == 0 && inst.inst.name == .instCall

def addConstantTarget (r : Region) (iter : NaClInstIter) (i : Nat) (state : ValidatorState) :
    Option ValidatorState :=
  match naClGetExpConstant iter.current.nodes i with
  | none => none
  | some target =>
    if exemptCall iter.current target.toNat then some state
    else some (naClAddJumpToJumpSets r target.toNat state)

/-- The case analysis of `NaClAddExprJumpTarget` on one node. -/
def jumpTargetNode (r : Region) (iter : NaClInstIter) (state : ValidatorState) (i : Nat) :
    Option ValidatorState :=
  let node := iter.current.nodes.node i
  if node.flags.getLsbD exprJumpTarget then
    match node.kind with
    | .exprRegister => naClAddRegisterJumpIndirect64 r iter node state
    | .exprConstant | .exprConstant64 => addConstantTarget r iter i state
    | _ => some (reportError state)
  else some state

def naClAddExprJumpTarget (r : Region) (iter : NaClInstIter) (state : ValidatorState) :
    Option ValidatorState :=
  (List.range iter.current.nodes.numberExprNodes).foldlM (jumpTargetNode r iter) state

def naClValidateCallAlignment (r : Region) (inst : NaClInstState) (state : ValidatorState) :
    ValidatorState :=
  if inst.limit % 2 ^ 64 &&& alignmentMask r = 0 then state else reportError state

def naClRememberIp (r : Region) (pc : Nat) (state : ValidatorState) : ValidatorState :=
  if inRegion r pc then addPossible r pc state else reportError state

/-- The names that `NaClJumpValidator` handles, apart from the call. -/
def isJumpName : NaClMnemonic → Bool
  | .instJb | .instJbe | .instJcxz | .instJecxz | .instJrcxz | .instJnl | .instJnle | .instJl
  | .instJle | .instJmp | .instJnb | .instJnbe | .instJno | .instJnp | .instJns | .instJnz
  | .instJo | .instJp | .instJs | .instJz | .instLoop | .instLoope | .instLoopne => true
  | _ => false

def naClJumpValidator (r : Region) (iter : NaClInstIter) (state : ValidatorState) :
    Option ValidatorState :=
  let inst := iter.current
  let state := naClRememberIp r inst.vpc state
  if isJumpName inst.inst.name then naClAddExprJumpTarget r iter state
  else if inst.inst.name = .instCall then
    (naClAddExprJumpTarget r iter state).map (naClValidateCallAlignment r inst)
  else some state

/-- One check of an explicit jump in `NaClJumpValidatorSummarize`. -/
def checkTarget (r : Region) (state : ValidatorState) (addr : Nat) : ValidatorState :=
  let (actual, state) := naClAddressSetContains r state.jumpSets.actualTargets addr state
  if actual then
    let (possible, state) := naClAddressSetContains r state.jumpSets.possibleTargets addr state
    if possible then state else reportError state
  else state

def checkBlock (r : Region) (state : ValidatorState) (addr : Nat) : ValidatorState :=
  let (possible, state) := naClAddressSetContains r state.jumpSets.possibleTargets addr state
  if possible then state else reportError state

/-- The loop over the block boundaries. Its counter wraps around when the region reaches the
last bundle of the address space; running out of fuel is `none`. -/
def checkBlocks (r : Region) : Nat → Nat → ValidatorState → Option ValidatorState
  | 0, _, _ => none
  | fuel + 1, addr, state =>
    if addr < r.vlimit then
      checkBlocks r fuel ((addr + r.alignment) % 2 ^ 64) (checkBlock r state addr)
    else some state

def naClJumpValidatorSummarize (r : Region) (fuel : Nat) (state : ValidatorState) :
    Option ValidatorState :=
  let state := (List.range (r.vlimit - r.vbase)).foldl
    (fun state k => checkTarget r state (r.vbase + k)) state
  if r.vbase &&& alignmentMask r = 0 then checkBlocks r fuel r.vbase state
  else some (reportError state)

/-- A visit of an instruction. The validators that run after the jump validator may mark the
instruction or an earlier one: `marks` lists the distances they look back. -/
structure Visit where
  inst : NaClInstState
  marks : List Nat

def markBack (r : Region) (iter : NaClInstIter) (state : ValidatorState) (distance : Nat) :
    Option ValidatorState :=
  (iter.getLookbackState distance).map fun inst => naClMarkInstructionJumpIllegal r inst state

def naClApplyValidators (r : Region) (iter : NaClInstIter) (marks : List Nat)
    (state : ValidatorState) : Option ValidatorState :=
  if naClValidatorQuit r state then some state
  else do
    let state ← naClJumpValidator r iter state
    if naClValidatorQuit r state then some state else marks.foldlM (markBack r iter) state

/-- The loop of `NaClValidateSegment`, with the instructions that the iterator has passed. -/
def naClValidateSegment (r : Region) : List NaClInstState → List Visit → ValidatorState →
    Option ValidatorState
  | _, [], state => some state
  | past, visit :: rest, state => do
    let state ← naClApplyValidators r ⟨visit.inst, past⟩ visit.marks state
    if naClValidatorQuit r state then some state
    else naClValidateSegment r (visit.inst :: past) rest state

def validateJumps (r : Region) (fuel : Nat) (segments : List (List Visit)) : Option ValidatorState := do
  let state ← segments.foldlM (fun state visits => naClValidateSegment r [] visits state)
    naClValidatorStateCreate
  naClJumpValidatorSummarize r fuel state

end Glopen.Ncval64

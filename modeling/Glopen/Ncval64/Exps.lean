import Glopen.Lib.BitTable

/-! Decoded x86-64 instructions as the validators see them: an opcode description and the
operand trees, flattened into a vector by a pre-order walk. -/
namespace Glopen.Ncval64

abbrev NaClOpKind := BitVec 32

def regUnknown : NaClOpKind := 53
def regEBP : NaClOpKind := 96
def regESP : NaClOpKind := 97
def regRBP : NaClOpKind := 122
def regRSP : NaClOpKind := 123
def regR15 : NaClOpKind := 131

def naClRegTable8NoRex : List NaClOpKind :=
  [54, 56, 57, 55, 58, 60, 61, 59] ++ List.replicate 8 regUnknown

def naClRegTable8NoRexTo64 : List Nat := [0, 1, 2, 3, 0, 1, 2, 3, 0, 0, 0, 0, 0, 0, 0, 0]

def naClRegTable8Rex : List NaClOpKind :=
  [54, 56, 57, 55, 65, 64, 63, 62, 66, 67, 68, 69, 70, 71, 72, 73]

def naClRegTable16 : List NaClOpKind :=
  [74, 76, 77, 75, 81, 80, 78, 79, 82, 83, 84, 85, 86, 87, 88, 89]

def naClRegTable32 : List NaClOpKind :=
  [90, 92, 93, 91, regESP, regEBP, 94, 95, 98, 99, 100, 101, 102, 103, 104, 105]

def naClRegTable64 : List NaClOpKind :=
  [116, 118, 119, 117, regRSP, regRBP, 120, 121, 124, 125, 126, 127, 128, 129, 130, regR15]

def naClGet64For32BitReg (reg32 : NaClOpKind) : NaClOpKind :=
  match (naClRegTable32.zip naClRegTable64).find? fun pair => pair.1 = reg32 with
  | some pair => pair.2
  | none => regUnknown

inductive NaClMnemonic
  | instJb | instJbe | instJcxz | instJecxz | instJrcxz | instJnl | instJnle | instJl | instJle
  | instJmp | instJnb | instJnbe | instJno | instJnp | instJns | instJnz | instJo | instJp
  | instJs | instJz | instLoop | instLoope | instLoopne | instCall
  | instAnd | instLea | instAdd | instSub | instOr | instMov | instPush | instPop
  | other (code : Nat)
deriving DecidableEq, Repr

inductive NaClExpKind
  | undefinedExp | exprRegister | operandReference | exprConstant | exprConstant64
  | exprSegmentAddress | exprMemOffset
deriving DecidableEq, Repr

def naClExpKindRank : NaClExpKind → Nat
  | .undefinedExp => 0
  | .exprRegister => 0
  | .operandReference => 1
  | .exprConstant => 0
  | .exprConstant64 => 2
  | .exprSegmentAddress => 2
  | .exprMemOffset => 4

abbrev Flags := BitVec 32

/-- The bits of `NaClExpFlags` that the validators read. -/
def exprSet : Nat := 0
def exprJumpTarget : Nat := 13

structure NaClExp where
  kind : NaClExpKind
  value : BitVec 32
  flags : Flags
deriving DecidableEq

def naclMaxExps : Nat := 30

/-- The nodes from `numberExprNodes` on hold whatever an earlier instruction left there. -/
structure NaClExpVector where
  numberExprNodes : Nat
  node : Nat → NaClExp

/-- The number of nodes of a subtree. A tree inside the vector has no branch longer than the
fuel. -/
def naClExpWidthFrom (vector : NaClExpVector) : Nat → Nat → Nat
  | 0, _ => 1
  | fuel + 1, node =>
    (List.range (naClExpKindRank (vector.node node).kind)).foldl
      (fun count _ => count + naClExpWidthFrom vector fuel (node + count)) 1

def naClExpWidth (vector : NaClExpVector) (node : Nat) : Nat :=
  naClExpWidthFrom vector (naclMaxExps - node) node

/-- A failed `assert` is `none`. -/
def naClGetExpRegister (node : NaClExp) : Option NaClOpKind :=
  if node.kind = .exprRegister then some node.value else none

def naClGetExpVectorRegister (vector : NaClExpVector) (node : Nat) : Option NaClOpKind :=
  naClGetExpRegister (vector.node node)

def naClGetExpConstant (vector : NaClExpVector) (index : Nat) : Option (BitVec 64) :=
  match (vector.node index).kind with
  | .exprConstant => some ((vector.node index).value.signExtend 64)
  | .exprConstant64 =>
    some ((vector.node (index + 1)).value.zeroExtend 64 |||
      (vector.node (index + 2)).value.signExtend 64 <<< 32)
  | _ => none

/-- The walk up from a node: `kids` nodes are still to be claimed by a parent. -/
def naClGetExpParentFrom (vector : NaClExpVector) : Nat → Nat → Nat
  | 0, _ => 0
  | index + 1, kids =>
    let rank := naClExpKindRank (vector.node index).kind
    if kids ≤ rank then index else naClGetExpParentFrom vector index (kids + 1 - rank)

def naClGetExpParentIndex (vector : NaClExpVector) (index : Nat) : Nat :=
  naClGetExpParentFrom vector index 1

/-- The bits of `NaClOpFlags` that the validators read. -/
def opUse : Nat := 0
def opSet : Nat := 1
def opImplicit : Nat := 4
def operandExtendsOpcode : Nat := 5
def operandZeroExtendsV : Nat := 9

structure NaClInst where
  name : NaClMnemonic
  opcode : BitVec 8
  operands : List Flags
deriving DecidableEq

def NaClInst.extends (inst : NaClInst) : Bool :=
  match inst.operands with
  | [] => false
  | first :: _ => first.getLsbD operandExtendsOpcode

def naClGetInstNumberOperands (inst : NaClInst) : Nat :=
  if inst.extends then inst.operands.length - 1 else inst.operands.length

def naClGetInstOperand (inst : NaClInst) (index : Nat) : Option Flags :=
  inst.operands[if inst.extends then index + 1 else index]?

structure NaClInstState where
  vpc : Nat
  length : Nat
  byte : Nat → BitVec 8
  rexByte : BitVec 8
  operandSize : Nat
  inst : NaClInst
  nodes : NaClExpVector

def NaClInstState.limit (inst : NaClInstState) : Nat := inst.vpc + inst.length

structure NaClInstIter where
  current : NaClInstState
  past : List NaClInstState

namespace NaClInstIter

/-- `kLookbackSize + 1`. -/
def bufferSize : Nat := 5

def hasLookbackState (iter : NaClInstIter) (distance : Nat) : Bool :=
  distance < bufferSize && distance ≤ iter.past.length

def getLookbackState (iter : NaClInstIter) (distance : Nat) : Option NaClInstState :=
  if iter.hasLookbackState distance then (iter.current :: iter.past)[distance]? else none

end NaClInstIter

end Glopen.Ncval64

import Glopen.Lib.Memory
import Glopen.Arm.AddressSet

/-! validator.cc: the two passes of the ARM validator. The instruction classes are a
parameter; so is the sink that problems are reported to. -/
namespace Glopen.Arm

open Memory

abbrev Register := Fin 32

def kRegisterNone : Register := 31
def kRegisterFlags : Register := 16
def kRegisterPc : Register := 15
def kRegisterLink : Register := 14
def kRegisterStack : Register := 13
def kRegisterThread : Register := 9

abbrev RegisterList := BitVec 32

def Register.bitmask (r : Register) : RegisterList :=
  if r = kRegisterNone then 0 else 1#32 <<< r.val

def RegisterList.has (l : RegisterList) (r : Register) : Bool := l &&& r.bitmask != 0
def RegisterList.containsAll (l other : RegisterList) : Bool := l &&& other == other
def RegisterList.containsAny (l other : RegisterList) : Bool := l &&& other != 0

inductive SafetyLevel where
  | unknown | undefined | unpredictable | deprecated | forbidden | forbiddenOperands | mayBeSafe
deriving DecidableEq, Repr

inductive Condition where
  | eq | ne | cs | cc | mi | pl | vs | vc | hi | ls | ge | lt | gt | le | al
deriving DecidableEq, Repr

/-- The condition field; the unconditional encoding counts as `al`. -/
def condition (inst : Word) : Condition :=
  match (inst >>> 28).toNat with
  | 0 => .eq | 1 => .ne | 2 => .cs | 3 => .cc | 4 => .mi | 5 => .pl | 6 => .vs | 7 => .vc
  | 8 => .hi | 9 => .ls | 10 => .ge | 11 => .lt | 12 => .gt | 13 => .le | _ => .al

structure ClassDecoder where
  safety : Word → SafetyLevel
  defs : Word → RegisterList
  immediateAddressingDefs : Word → RegisterList
  baseAddressRegister : Word → Register
  branchTargetRegister : Word → Register
  isRelativeBranch : Word → Bool
  branchTargetOffset : Word → BitVec 32
  isLiteralPoolHead : Word → Bool
  clearsBits : Word → BitVec 32 → Bool
  setsZIfBitsClear : Word → Register → BitVec 32 → Bool

def forbidden : ClassDecoder where
  safety := fun _ => .forbidden
  defs := fun _ => kRegisterNone.bitmask
  immediateAddressingDefs := fun _ => kRegisterNone.bitmask
  baseAddressRegister := fun _ => kRegisterNone
  branchTargetRegister := fun _ => kRegisterNone
  isRelativeBranch := fun _ => false
  branchTargetOffset := fun _ => 0
  isLiteralPoolHead := fun _ => false
  clearsBits := fun _ _ => false
  setsZIfBitsClear := fun _ _ _ => false

structure DecodedInstruction where
  addr : Nat
  inst : Word
  decoder : ClassDecoder

namespace DecodedInstruction

variable (i other : DecodedInstruction)

def safety : SafetyLevel := i.decoder.safety i.inst
def defs : RegisterList := i.decoder.defs i.inst
def definesAll (l : RegisterList) : Bool := i.defs.containsAll l
def definesAny (l : RegisterList) : Bool := i.defs.containsAny l
def defines (r : Register) : Bool := i.definesAll r.bitmask
def isRelativeBranch : Bool := i.decoder.isRelativeBranch i.inst
def branchTargetRegister : Register := i.decoder.branchTargetRegister i.inst
def isLiteralPoolHead : Bool := i.decoder.isLiteralPoolHead i.inst
def branchTarget : Nat := (i.addr + (i.decoder.branchTargetOffset i.inst).toNat) % 2 ^ 32
def baseAddressRegister : Register := i.decoder.baseAddressRegister i.inst
def clearsBits (mask : BitVec 32) : Bool := i.decoder.clearsBits i.inst mask
def setsZIfBitsClear (r : Register) (mask : BitVec 32) : Bool :=
  i.decoder.setsZIfBitsClear i.inst r mask
def immediateAddressingDefs : RegisterList := i.decoder.immediateAddressingDefs i.inst

/-- If `other` executes, `i` has executed. -/
def alwaysPrecedes : Bool := condition i.inst == condition other.inst

/-- If `other` executes, `i` follows. -/
def alwaysFollows : Bool :=
  condition i.inst == condition other.inst && !other.defines kRegisterFlags

/-- `i` executes only when the test in `other` has set Z. -/
def isConditionalOn : Bool :=
  condition i.inst == .eq && condition other.inst == .al && other.defines kRegisterFlags

end DecodedInstruction

structure CodeSegment where
  base : Mem
  startAddr : Nat
  size : Nat
  fits : startAddr + size < 2 ^ 32

def CodeSegment.endAddr (s : CodeSegment) : Nat := s.startAddr + s.size

def CodeSegment.containsAddress (s : CodeSegment) (a : Nat) : Bool :=
  decide (s.startAddr ≤ a ∧ a < s.endAddr)

structure SfiValidator where
  bytesPerBundle : Nat
  codeRegionBytes : BitVec 32
  dataRegionBytes : BitVec 32
  readOnlyRegisters : RegisterList
  dataAddressRegisters : RegisterList
  decode : Word → ClassDecoder
  whole : 0 < bytesPerBundle ∧ bytesPerBundle % 4 = 0

namespace SfiValidator

variable (sfi : SfiValidator)

def dataAddressMask : BitVec 32 := ~~~ (sfi.dataRegionBytes - 1)

def codeAddressMask : BitVec 32 :=
  ~~~ (sfi.codeRegionBytes - 1) ||| (BitVec.ofNat 32 sfi.bytesPerBundle - 1)

def isDataAddressRegister (r : Register) : Bool := sfi.dataAddressRegisters.has r

def bundleForAddress (address : Nat) : Nat := address - address % sfi.bytesPerBundle

def bundleEnd (address : Nat) : Nat := (sfi.bundleForAddress address + sfi.bytesPerBundle) % 2 ^ 32

def isBundleHead (address : Nat) : Bool := address % sfi.bytesPerBundle == 0

def decodeAt (segment : CodeSegment) (va : Nat) : DecodedInstruction :=
  let inst := loadWord segment.base (va - segment.startAddr)
  ⟨va, inst, sfi.decode inst⟩

end SfiValidator

inductive ProblemCode where
  | kProblemUnsafe | kProblemBranchSplitsPattern | kProblemBranchInvalidDest
  | kProblemUnsafeStore | kProblemUnsafeBranch | kProblemUnsafeDataWrite
  | kProblemReadOnlyRegister | kProblemPatternCrossesBundle | kProblemMisalignedCall
deriving DecidableEq, Repr

structure Problem where
  vaddr : Nat
  safety : SafetyLevel
  code : ProblemCode
  refVaddr : Nat
deriving DecidableEq, Repr

structure ProblemSink (σ : Type) where
  reportProblem : Problem → σ → σ
  shouldContinue : σ → Bool

inductive PatternMatch where
  | noMatch | patternSafe | patternUnsafe
deriving DecidableEq, Repr

structure OneInstPattern where
  judge : SfiValidator → DecodedInstruction → PatternMatch
  problem : DecodedInstruction → Problem

structure TwoInstPattern where
  judge : SfiValidator → DecodedInstruction → DecodedInstruction → PatternMatch
  problem : DecodedInstruction → DecodedInstruction → Problem

def problemAt (inst : DecodedInstruction) (code : ProblemCode) (refVaddr : Nat) : Problem :=
  ⟨inst.addr, inst.safety, code, refVaddr⟩

def checkStoreMask : TwoInstPattern where
  judge := fun sfi first second =>
    let base := second.baseAddressRegister
    if base = kRegisterNone ∨ sfi.isDataAddressRegister base then .noMatch
    else if first.defines base && first.clearsBits sfi.dataAddressMask &&
        first.alwaysPrecedes second then .patternSafe
    else if first.setsZIfBitsClear base sfi.dataAddressMask && second.isConditionalOn first then
      .patternSafe
    else .patternUnsafe
  problem := fun _ second => problemAt second .kProblemUnsafeStore 0

def checkBranchMask : TwoInstPattern where
  judge := fun sfi first second =>
    let target := second.branchTargetRegister
    if target = kRegisterNone then .noMatch
    else if first.defines target && first.clearsBits sfi.codeAddressMask &&
        first.alwaysPrecedes second then .patternSafe
    else .patternUnsafe
  problem := fun _ second => problemAt second .kProblemUnsafeBranch 0

def checkDataRegisterUpdate : TwoInstPattern where
  judge := fun sfi first second =>
    let dataAddrDefs := first.defs &&& sfi.dataAddressRegisters
    if !first.definesAny sfi.dataAddressRegisters then .noMatch
    else if first.clearsBits sfi.dataAddressMask then .noMatch
    else if first.immediateAddressingDefs &&& sfi.dataAddressRegisters = dataAddrDefs then .noMatch
    else if second.definesAll dataAddrDefs && second.clearsBits sfi.dataAddressMask &&
        second.alwaysFollows first then .patternSafe
    else .patternUnsafe
  problem := fun first _ => problemAt first .kProblemUnsafeDataWrite 0

def checkCallPosition : OneInstPattern where
  judge := fun sfi inst =>
    if inst.definesAll (kRegisterPc.bitmask ||| kRegisterLink.bitmask) ∧
        (inst.addr + 4) % 2 ^ 32 ≠ sfi.bundleEnd inst.addr then .patternUnsafe
    else .noMatch
  problem := fun inst => problemAt inst .kProblemMisalignedCall 0

def checkReadOnly : OneInstPattern where
  judge := fun sfi inst =>
    if inst.definesAny sfi.readOnlyRegisters then .patternUnsafe else .noMatch
  problem := fun inst => problemAt inst .kProblemReadOnlyRegister 0

def checkPcWrites : OneInstPattern where
  judge := fun sfi inst =>
    if inst.isRelativeBranch ∨ inst.branchTargetRegister ≠ kRegisterNone then .noMatch
    else if !inst.defines kRegisterPc then .noMatch
    else if inst.clearsBits sfi.codeAddressMask then .patternSafe
    else .patternUnsafe
  problem := fun inst => problemAt inst .kProblemUnsafeBranch 0

def oneInstPatterns : List OneInstPattern := [checkReadOnly, checkPcWrites, checkCallPosition]

def twoInstPatterns : List TwoInstPattern :=
  [checkStoreMask, checkBranchMask, checkDataRegisterUpdate]

section Passes

variable {σ : Type} (sink : ProblemSink σ) (sfi : SfiValidator)

/-- The first `apply_patterns`. -/
def applyOneInstPatterns (inst : DecodedInstruction) (out : σ) : Bool × σ :=
  oneInstPatterns.foldl (fun (ok, out) pattern =>
    match pattern.judge sfi inst with
    | .patternUnsafe => (false, sink.reportProblem (pattern.problem inst) out)
    | _ => (ok, out)) (true, out)

structure FallState (σ : Type) where
  branches : AddressSet
  critical : AddressSet
  out : σ

def applyTwoInstPattern (first second : DecodedInstruction) (ok : Bool) (st : FallState σ)
    (pattern : TwoInstPattern) : Bool × FallState σ :=
  match pattern.judge sfi first second with
  | .noMatch => (ok, st)
  | .patternUnsafe =>
    (false, { st with out := sink.reportProblem (pattern.problem first second) st.out })
  | .patternSafe =>
    if sfi.bundleForAddress first.addr ≠ sfi.bundleForAddress second.addr then
      (false, { st with
        out := sink.reportProblem (problemAt first .kProblemPatternCrossesBundle 0) st.out })
    else (ok, { st with critical := st.critical.add second.addr })

/-- The second `apply_patterns`. -/
def applyTwoInstPatterns (first second : DecodedInstruction) (st : FallState σ) : Bool × FallState σ :=
  twoInstPatterns.foldl (fun (ok, st) => applyTwoInstPattern sink sfi first second ok st) (true, st)

/-- Stops with `return false` when the sink does not want to continue. -/
def continueOr (ok : Bool) (st : FallState σ) : Except (FallState σ) (Bool × FallState σ) :=
  if sink.shouldContinue st.out then .ok (ok, st) else .error st

def checkSafety (inst : DecodedInstruction) (ok : Bool) (st : FallState σ) :
    Except (FallState σ) (Bool × FallState σ) :=
  if inst.safety ≠ .mayBeSafe then
    continueOr sink false { st with
      out := sink.reportProblem (problemAt inst .kProblemUnsafe 0) st.out }
  else .ok (ok, st)

def inspect (pred inst : DecodedInstruction) (ok : Bool) (st : FallState σ) :
    Except (FallState σ) (Bool × FallState σ) := do
  let (ok, st) ← checkSafety sink inst ok st
  let (single, out) := applyOneInstPatterns sink sfi inst st.out
  let (ok, st) ← continueOr sink (ok && single) { st with out := out }
  let (pair, st) := applyTwoInstPatterns sink sfi pred inst st
  continueOr sink (ok && pair) st

def isPoolHead (inst : DecodedInstruction) : Bool :=
  inst.isLiteralPoolHead && sfi.isBundleHead inst.addr

def recordInst (inst : DecodedInstruction) (st : FallState σ) : FallState σ :=
  let st := if inst.isRelativeBranch then { st with branches := st.branches.add inst.addr } else st
  if isPoolHead sfi inst then
    { st with
      critical := (addresses inst.addr (sfi.bundleEnd inst.addr) 4).foldl AddressSet.add st.critical }
  else st

def nextVa (inst : DecodedInstruction) : Nat :=
  if isPoolHead sfi inst then sfi.bundleEnd inst.addr else (inst.addr + 4) % 2 ^ 32

/-- The loop of `validate_fallthrough`; `none` when the fuel runs out. -/
def fallthroughLoop (segment : CodeSegment) :
    Nat → Nat → DecodedInstruction → Bool → FallState σ → Option (Bool × FallState σ)
  | 0, _, _, _, _ => none
  | fuel + 1, va, pred, ok, st =>
    if va = segment.endAddr then some (ok, st)
    else
      let inst := sfi.decodeAt segment va
      match inspect sink sfi pred inst ok st with
      | .error st => some (false, st)
      | .ok (ok, st) =>
        fallthroughLoop segment fuel (nextVa sfi inst) inst ok (recordInst sfi inst st)

def initialPred : DecodedInstruction := ⟨0, 0xE1277777, forbidden⟩

def validateFallthrough (fuel : Nat) (segment : CodeSegment) (st : FallState σ) :
    Option (Bool × FallState σ) :=
  fallthroughLoop sink sfi segment fuel segment.startAddr initialPred true st

def addressContained (va : Nat) (segments : List CodeSegment) : Bool :=
  segments.any fun segment => segment.containsAddress va

/-- The check of one direct branch: `none` when it is fine. -/
def branchProblem (segments : List CodeSegment) (critical : AddressSet)
    (inst : DecodedInstruction) : Option ProblemCode :=
  let target := inst.branchTarget
  if addressContained target segments then
    if critical.contains target then some .kProblemBranchSplitsPattern else none
  else if BitVec.ofNat 32 target &&& sfi.codeAddressMask = 0 then none
  else some .kProblemBranchInvalidDest

/-- The loop of `validate_branches`. `rest` is what `seg_it` has not passed yet; `none` when it
runs past the last segment, or the fuel runs out. -/
def branchLoop (segments : List CodeSegment) (branches critical : AddressSet) :
    Nat → Iterator → List CodeSegment → Bool → σ → Option (Bool × σ)
  | 0, _, _, _, _ => none
  | fuel + 1, it, rest, ok, out =>
    if it = branches.finish then some (ok, out)
    else
      let va := branches.deref it
      match rest.dropWhile fun segment => !segment.containsAddress va with
      | [] => none
      | segment :: later =>
        let inst := sfi.decodeAt segment va
        match branchProblem sfi segments critical inst with
        | none => branchLoop segments branches critical fuel (branches.next it) (segment :: later) ok out
        | some code =>
          let out := sink.reportProblem (problemAt inst code inst.branchTarget) out
          if sink.shouldContinue out then
            branchLoop segments branches critical fuel (branches.next it) (segment :: later) false out
          else some (false, out)

def validateBranches (fuel : Nat) (segments : List CodeSegment) (branches critical : AddressSet)
    (out : σ) : Option (Bool × σ) :=
  branchLoop sink sfi segments branches critical fuel branches.begin segments true out

/-- The first pass over all segments; `Sum.inl` is the early `return false`. -/
def fallthroughAll (fuel : Nat) : List CodeSegment → Bool → FallState σ →
    Option (Sum (FallState σ) (Bool × FallState σ))
  | [], ok, st => some (.inr (ok, st))
  | segment :: later, ok, st => do
    let (success, st) ← validateFallthrough sink sfi fuel segment st
    if sink.shouldContinue st.out then fallthroughAll fuel later (ok && success) st
    else return .inl st

/-- `segments[0]` and `segments.back()` of an empty vector are undefined: `none`. -/
def validate (fuel : Nat) (segments : List CodeSegment) (out : σ) : Option (Bool × σ) := do
  let first ← segments.head?
  let last ← segments.getLast?
  let base := first.startAddr
  let size := (last.endAddr + (2 ^ 32 - base)) % 2 ^ 32
  match ← fallthroughAll sink sfi fuel segments true
      ⟨AddressSet.empty base size, AddressSet.empty base size, out⟩ with
  | .inl st => return (false, st.out)
  | .inr (ok, st) =>
    let (success, out) ← validateBranches sink sfi fuel segments st.branches st.critical st.out
    return (ok && success, out)

end Passes

end Glopen.Arm

import Glopen.Ncval64.Jumps
import Glopen.Lib.Run

/-! What the jump validator does to the two address sets, and what it has checked of an
instruction when it reports no error. -/
namespace Glopen.Ncval64

open List
variable {r : Region} {iter : NaClInstIter} {state state' : ValidatorState}

def Actual (r : Region) (state : ValidatorState) (a : Nat) : Prop :=
  inRegion r a = true ∧ BitTable.get state.jumpSets.actualTargets (a - r.vbase) = true

def Possible (r : Region) (state : ValidatorState) (a : Nat) : Prop :=
  inRegion r a = true ∧ BitTable.get state.jumpSets.possibleTargets (a - r.vbase) = true

variable {a pc : Nat}

theorem inRegion_iff : inRegion r a = true ↔ r.vbase ≤ a ∧ a < r.vlimit := by
  simp [inRegion]

theorem offset_inj {b : Nat} (ha : inRegion r a = true) (hb : inRegion r b = true) :
    a - r.vbase = b - r.vbase ↔ a = b := by
  rw [inRegion_iff] at ha hb
  omega

theorem land_alignmentMask (a : Nat) : a &&& alignmentMask r = a % r.alignment := by
  rcases r.bundles with sixteen | thirtytwo
  · rw [alignmentMask, sixteen]
    exact Nat.and_two_pow_sub_one_eq_mod a 4
  · rw [alignmentMask, thirtytwo]
    exact Nat.and_two_pow_sub_one_eq_mod a 5

variable {inst : NaClInstState} {state'' : ValidatorState} {node : NaClExp}

theorem possible_mark : Possible r (naClMarkInstructionJumpIllegal r inst state) a ↔
      Possible r state a ∧ a ≠ inst.vpc := by
  unfold naClMarkInstructionJumpIllegal
  split
  · rename_i inside
    simp only [Possible, BitTable.get_clear (by decide : 0 < 8), Bool.and_eq_true, decide_eq_true_eq]
    constructor
    · rintro ⟨member, set, apart⟩
      exact ⟨⟨member, set⟩, fun same => apart (by rw [same])⟩
    · rintro ⟨⟨member, set⟩, apart⟩
      exact ⟨member, set, fun same => apart ((offset_inj inside member).mp same).symm⟩
  · rename_i outside
    constructor
    · intro possible
      exact ⟨possible, fun same => outside (same ▸ possible.1)⟩
    · exact And.left

theorem marked_add (table : NaClAddressSet) (inside : inRegion r pc = true) :
    inRegion r a = true ∧ BitTable.get (BitTable.set table (pc - r.vbase)) (a - r.vbase) = true ↔
      (inRegion r a = true ∧ BitTable.get table (a - r.vbase) = true) ∨ a = pc := by
  simp only [BitTable.get_set (by decide : 0 < 8), Bool.or_eq_true, decide_eq_true_eq]
  constructor
  · rintro ⟨member, set | same⟩
    · exact .inl ⟨member, set⟩
    · exact .inr ((offset_inj inside member).mp same).symm
  · rintro (⟨member, set⟩ | rfl)
    · exact ⟨member, .inl set⟩
    · exact ⟨inside, .inr rfl⟩

theorem actual_add (inside : inRegion r pc = true) :
    Actual r (addActual r pc state) a ↔ Actual r state a ∨ a = pc := by
  rw [addActual, if_pos inside]
  exact marked_add _ inside

theorem possible_add (inside : inRegion r pc = true) :
    Possible r (addPossible r pc state) a ↔ Possible r state a ∨ a = pc := by
  rw [addPossible, if_pos inside]
  exact marked_add _ inside

structure Later (r : Region) (state state' : ValidatorState) : Prop where
  kept : state'.validatesOk = true → state.validatesOk = true
  actual : ∀ a, Actual r state a → Actual r state' a
  possible : ∀ a, Possible r state' a → Possible r state a

theorem Later.refl : Later r state state := ⟨id, fun _ => id, fun _ => id⟩

theorem Later.trans (first : Later r state state')
    (second : Later r state' state'') : Later r state state'' where
  kept := fun ok => first.kept (second.kept ok)
  actual := fun a member => second.actual a (first.actual a member)
  possible := fun a member => first.possible a (second.possible a member)

theorem later_reportError : Later r state (reportError state) :=
  ⟨fun ok => by contradiction, fun _ => id, fun _ => id⟩

theorem later_mark (inst : NaClInstState) : Later r state (naClMarkInstructionJumpIllegal r inst state) where
  kept := by
    unfold naClMarkInstructionJumpIllegal
    split <;> exact id
  actual := by
    unfold naClMarkInstructionJumpIllegal
    split <;> exact fun _ => id
  possible := fun _ member => (possible_mark.mp member).1

theorem later_addActual (inside : inRegion r pc = true) : Later r state (addActual r pc state) where
  kept := by
    rw [addActual, if_pos inside]
    exact id
  actual := fun _ member => (actual_add inside).mpr (.inl member)
  possible := by
    rw [addActual, if_pos inside]
    exact fun _ => id

section Sequences

/-- `and %and32, mask` with the one-byte immediate form. -/
structure MaskingAnd (r : Region) (inst : NaClInstState) (and64 : NaClOpKind) : Prop where
  opcode : inst.inst.opcode = 0x83
  name : inst.inst.name = .instAnd
  operands : ∃ op1 op2, naClExtractBinaryOperandIndices inst = some (op1, op2) ∧
    (inst.nodes.node op1).kind = .exprRegister ∧
    naClGet64For32BitReg (inst.nodes.node op1).value = and64 ∧ and64 ≠ regUnknown ∧
    (inst.nodes.node op2).kind = .exprConstant ∧
    (inst.nodes.node op2).value = (naClGetJumpMask r).zeroExtend 32

/-- `lea %jump, [%base + %and64]` or `add %jump, %base`. -/
structure RebasingMiddle (r : Region) (inst : NaClInstState) (jump and64 : NaClOpKind) : Prop where
  operands : ∃ op1 op2, naClExtractBinaryOperandIndices inst = some (op1, op2) ∧
    (inst.nodes.node op1).kind = .exprRegister ∧ (inst.nodes.node op1).value = jump ∧
    ((inst.inst.name = .instLea ∧ (inst.nodes.node op2).kind = .exprMemOffset ∧
        naClMemOffsetMatchesBaseIndex inst.nodes op2 r.baseRegister and64 = some true) ∨
      (inst.inst.name = .instAdd ∧ jump = and64 ∧ (inst.nodes.node op2).kind = .exprRegister ∧
        (inst.nodes.node op2).value = r.baseRegister))

def MaskedBy (r : Region) (andInst middle : NaClInstState) (jump : NaClOpKind) : Prop :=
  ∃ and64, MaskingAnd r andInst and64 ∧ RebasingMiddle r middle jump and64

variable {u : Unit} {α : Type} {found : Option α} {middle : NaClInstState}

theorem proceedIf_ok {condition : Bool} (ran : proceedIf condition = .ok u) : condition = true := by
  unfold proceedIf at ran
  split at ran
  · assumption
  · contradiction

theorem asserted_ok {a : α} (ran : asserted found = .ok a) : found = some a := by
  cases found with
  | none => contradiction
  | some b => exact congrArg some (Except.ok.inj ran)

theorem foundOr_ok {a : α} (ran : foundOr found = .ok a) : found = some a := by
  cases found with
  | none => contradiction
  | some b => exact congrArg some (Except.ok.inj ran)

theorem expRegister_some {reg : NaClOpKind} (found : naClGetExpRegister node = some reg) :
    node.kind = .exprRegister ∧ node.value = reg := by
  unfold naClGetExpRegister at found
  split at found
  · rename_i kind
    exact ⟨kind, Option.some.inj found⟩
  · contradiction

open Run in
theorem middleOk_ok {op1 op2 : Nat} {jump and64 : NaClOpKind}
    (split : naClExtractBinaryOperandIndices middle = some (op1, op2))
    (dest : naClGetExpRegister (middle.nodes.node op1) = some jump)
    (ran : middleOk r middle op2 jump and64 = .ok u) : RebasingMiddle r middle jump and64 := by
  obtain ⟨kind, value⟩ := expRegister_some dest
  refine ⟨op1, op2, split, kind, value, ?_⟩
  unfold middleOk at ran
  split at ran
  · rename_i lea
    obtain ⟨_, memory, ran⟩ := except_bind_ok ran
    obtain ⟨found, offset, ran⟩ := except_bind_ok ran
    have yes := proceedIf_ok ran
    rw [yes] at offset
    exact .inl ⟨lea, of_decide_eq_true (proceedIf_ok memory), asserted_ok offset⟩
  · split at ran
    · rename_i add
      obtain ⟨_, same, ran⟩ := except_bind_ok ran
      obtain ⟨added, register, ran⟩ := except_bind_ok ran
      obtain ⟨second, base⟩ := expRegister_some (asserted_ok register)
      have is_base := of_decide_eq_true (proceedIf_ok ran)
      exact .inr ⟨add, of_decide_eq_true (proceedIf_ok same), second, base.trans is_base⟩
    · contradiction

open Run in
theorem maskedSequence_ok {reg : NaClExp} (ran : maskedSequence r iter reg = .ok middle) :
    ∃ andInst, iter.getLookbackState 2 = some andInst ∧
      iter.getLookbackState 1 = some middle ∧ MaskedBy r andInst middle reg.value := by
  unfold maskedSequence at ran
  obtain ⟨jump, is_reg, ran⟩ := except_bind_ok ran
  obtain ⟨andInst, back, ran⟩ := except_bind_ok ran
  obtain ⟨_, is_and, ran⟩ := except_bind_ok ran
  obtain ⟨⟨op1, op2⟩, binary, ran⟩ := except_bind_ok ran
  obtain ⟨andReg, dest, ran⟩ := except_bind_ok ran
  obtain ⟨_, known, ran⟩ := except_bind_ok ran
  obtain ⟨_, -, ran⟩ := except_bind_ok ran
  obtain ⟨_, masks, ran⟩ := except_bind_ok ran
  obtain ⟨mid, before, ran⟩ := except_bind_ok ran
  obtain ⟨⟨op1', op2'⟩, binary', ran⟩ := except_bind_ok ran
  obtain ⟨midReg, dest', ran⟩ := except_bind_ok ran
  obtain ⟨_, same, ran⟩ := except_bind_ok ran
  obtain ⟨_, rebased, ran⟩ := except_bind_ok ran
  cases ran
  have is_jump := (expRegister_some (asserted_ok is_reg)).2
  obtain ⟨opcode, name⟩ := of_decide_eq_true (proceedIf_ok is_and)
  obtain ⟨kind, value⟩ := expRegister_some (foundOr_ok dest)
  obtain ⟨constant, mask⟩ := of_decide_eq_true (proceedIf_ok masks)
  have known := of_decide_eq_true (proceedIf_ok known)
  have same := of_decide_eq_true (proceedIf_ok same)
  have dest' := foundOr_ok dest'
  rw [same] at dest'
  refine ⟨andInst, foundOr_ok back, asserted_ok before, naClGet64For32BitReg andReg, ?_, ?_⟩
  · exact ⟨opcode, name, op1, op2, foundOr_ok binary, kind, by rw [value], known, constant, mask⟩
  · rw [is_jump]
    exact middleOk_ok (foundOr_ok binary') dest' rebased

end Sequences

section Instructions

/-- Operand node `i` says where a jump or call goes. -/
def JumpOperand (inst : NaClInstState) (i : Nat) : Prop :=
  (isJumpName inst.inst.name = true ∨ inst.inst.name = .instCall) ∧
    i < inst.nodes.numberExprNodes ∧ (inst.nodes.node i).flags.getLsbD exprJumpTarget = true

def ExplicitTarget (inst : NaClInstState) (t : Nat) : Prop :=
  ∃ i target, JumpOperand inst i ∧ naClGetExpConstant inst.nodes i = some target ∧
    target.toNat = t ∧ exemptCall inst t = false

def RegisterJump (inst : NaClInstState) (reg : NaClOpKind) : Prop :=
  ∃ i, JumpOperand inst i ∧ (inst.nodes.node i).kind = .exprRegister ∧ (inst.nodes.node i).value = reg

def TargetNoted (r : Region) (state : ValidatorState) (t : Nat) : Prop :=
  Actual r state t ∨ (inRegion r t = false ∧ t % r.alignment = 0 ∧ t < 2 ^ 32)

def Sealed (r : Region) (iter : NaClInstIter) (state : ValidatorState) (reg : NaClOpKind) : Prop :=
  ∃ andInst middle, iter.getLookbackState 2 = some andInst ∧
    iter.getLookbackState 1 = some middle ∧ MaskedBy r andInst middle reg ∧
    ¬ Possible r state middle.vpc ∧ ¬ Possible r state iter.current.vpc

structure NodeChecked (r : Region) (iter : NaClInstIter) (state : ValidatorState) (i : Nat) : Prop where
  compliant : (iter.current.nodes.node i).kind = .exprRegister ∨
    ∃ target, naClGetExpConstant iter.current.nodes i = some target
  indirect : (iter.current.nodes.node i).kind = .exprRegister →
    Sealed r iter state (iter.current.nodes.node i).value
  explicit : ∀ target, naClGetExpConstant iter.current.nodes i = some target →
    exemptCall iter.current target.toNat = false → TargetNoted r state target.toNat

theorem lookback_mem {distance : Nat}
    (found : iter.getLookbackState distance = some inst) : inst ∈ iter.current :: iter.past := by
  unfold NaClInstIter.getLookbackState at found
  split at found
  · exact mem_of_getElem? found
  · contradiction

variable {i : Nat}

/-- A check stays good as long as none of the iterator's instructions becomes a possible target
again. -/
theorem NodeChecked.stable (checked : NodeChecked r iter state i)
    (actual : ∀ a, Actual r state a → Actual r state' a)
    (fresh : ∀ inst ∈ iter.current :: iter.past, Possible r state' inst.vpc →
      Possible r state inst.vpc) : NodeChecked r iter state' i where
  compliant := checked.compliant
  indirect := by
    intro register
    obtain ⟨andInst, middle, two, one, masked, no_middle, no_jump⟩ := checked.indirect register
    exact ⟨andInst, middle, two, one, masked, fun again => no_middle (fresh _ (lookback_mem one) again),
      fun again => no_jump (fresh _ mem_cons_self again)⟩
  explicit := by
    intro target constant counted
    rcases checked.explicit target constant counted with noted | outside
    · exact .inl (actual _ noted)
    · exact .inr outside

theorem Later.nodeChecked (later : Later r state state')
    (checked : NodeChecked r iter state i) : NodeChecked r iter state' i :=
  checked.stable later.actual fun _ _ => later.possible _

theorem registerJump_later (ran : naClAddRegisterJumpIndirect64 r iter node state = some state') :
    Later r state state' ∧ (state'.validatesOk = true → Sealed r iter state' node.value) := by
  unfold naClAddRegisterJumpIndirect64 at ran
  split at ran
  · rename_i middle sequence
    cases ran
    obtain ⟨andInst, two, one, masked⟩ := maskedSequence_ok sequence
    refine ⟨(later_mark middle).trans (later_mark iter.current), fun _ => ?_⟩
    refine ⟨andInst, middle, two, one, masked, ?_, ?_⟩
    · intro possible
      exact (possible_mark.mp (possible_mark.mp possible).1).2 rfl
    · intro possible
      exact (possible_mark.mp possible).2 rfl
  · cases ran
    exact ⟨later_reportError, fun ok => by contradiction⟩
  · contradiction

theorem addJump_later (r : Region) (state : ValidatorState) (t : Nat) :
    Later r state (naClAddJumpToJumpSets r t state) ∧ ((naClAddJumpToJumpSets r t state).validatesOk = true →
        TargetNoted r (naClAddJumpToJumpSets r t state) t) := by
  unfold naClAddJumpToJumpSets
  split
  · rename_i inside
    exact ⟨later_addActual inside, fun _ => .inl ((actual_add inside).mpr (.inr rfl))⟩
  · rename_i outside
    split
    · rename_i aligned
      rw [land_alignmentMask, Nat.shiftRight_eq_div_pow] at aligned
      refine ⟨Later.refl, fun _ => .inr ⟨by simpa using outside, aligned.1, ?_⟩⟩
      exact Nat.lt_of_div_eq_zero (by decide) aligned.2
    · exact ⟨later_reportError, fun ok => by contradiction⟩

theorem constant_not_register {vector : NaClExpVector}
    (register : (vector.node i).kind = .exprRegister) : naClGetExpConstant vector i = none := by
  unfold naClGetExpConstant
  rw [register]

theorem addConstantTarget_later (no_register : (iter.current.nodes.node i).kind ≠ .exprRegister)
    (ran : addConstantTarget r iter i state = some state') :
    Later r state state' ∧ (state'.validatesOk = true → NodeChecked r iter state' i) := by
  unfold addConstantTarget at ran
  split at ran
  · contradiction
  · rename_i target constant
    have only : ∀ other, naClGetExpConstant iter.current.nodes i = some other → other = target :=
      fun other found => Option.some.inj (found.symm.trans constant)
    split at ran
    · rename_i exempt
      cases ran
      refine ⟨Later.refl, fun _ => ⟨.inr ⟨target, constant⟩, fun register =>
        absurd register no_register, fun other found counted => ?_⟩⟩
      rw [only other found, exempt] at counted
      contradiction
    · cases ran
      obtain ⟨later, noted⟩ := addJump_later r state target.toNat
      refine ⟨later, fun ok => ⟨.inr ⟨target, constant⟩, fun register =>
        absurd register no_register, fun other found _ => ?_⟩⟩
      rw [only other found]
      exact noted ok

theorem jumpTargetNode_later (flagged : (iter.current.nodes.node i).flags.getLsbD exprJumpTarget = true)
    (ran : jumpTargetNode r iter state i = some state') :
    Later r state state' ∧ (state'.validatesOk = true → NodeChecked r iter state' i) := by
  unfold jumpTargetNode at ran
  simp only [flagged, if_true] at ran
  split at ran
  · rename_i register
    obtain ⟨later, closed⟩ := registerJump_later ran
    refine ⟨later, fun ok => ⟨.inl register, fun _ => closed ok, fun target constant => ?_⟩⟩
    rw [constant_not_register register] at constant
    contradiction
  · rename_i kind
    exact addConstantTarget_later (by rw [kind]; decide) ran
  · rename_i kind
    exact addConstantTarget_later (by rw [kind]; decide) ran
  · cases ran
    exact ⟨later_reportError, fun ok => by contradiction⟩

theorem jumpTargetNode_unflagged (unflagged : (iter.current.nodes.node i).flags.getLsbD exprJumpTarget = false)
    (ran : jumpTargetNode r iter state i = some state') : state' = state := by
  unfold jumpTargetNode at ran
  simp only [unflagged, Bool.false_eq_true, if_false] at ran
  exact (Option.some.inj ran).symm

theorem addExprJumpTarget_later (ran : naClAddExprJumpTarget r iter state = some state') :
    Later r state state' ∧ (state'.validatesOk = true → ∀ i < iter.current.nodes.numberExprNodes,
        (iter.current.nodes.node i).flags.getLsbD exprJumpTarget = true → NodeChecked r iter state' i) := by
  have whole := Run.foldlM_option_invariant (fun done s => Later r state s ∧ (s.validatesOk = true → ∀ i ∈ done,
      (iter.current.nodes.node i).flags.getLsbD exprJumpTarget = true → NodeChecked r iter s i))
    ?_ _ [] ⟨Later.refl, fun _ i member => absurd member not_mem_nil⟩ ran
  · simpa using whole
  · rintro done s i s' ⟨later, checked⟩ step
    cases flag : (iter.current.nodes.node i).flags.getLsbD exprJumpTarget with
    | false =>
      rw [jumpTargetNode_unflagged flag step]
      refine ⟨later, fun ok j member flagged => ?_⟩
      rcases mem_append.mp member with old | new
      · exact checked ok j old flagged
      · rw [mem_singleton.mp new, flag] at flagged
        contradiction
    | true =>
      obtain ⟨next, now⟩ := jumpTargetNode_later flag step
      refine ⟨later.trans next, fun ok j member flagged => ?_⟩
      rcases mem_append.mp member with old | new
      · exact next.nodeChecked (checked (next.kept ok) j old flagged)
      · rw [mem_singleton.mp new]
        exact now ok

structure InstChecked (r : Region) (iter : NaClInstIter) (state : ValidatorState) : Prop where
  inside : inRegion r iter.current.vpc = true
  operands : ∀ i, JumpOperand iter.current i → NodeChecked r iter state i
  returns : iter.current.inst.name = .instCall → iter.current.limit % 2 ^ 64 % r.alignment = 0

theorem InstChecked.stable (checked : InstChecked r iter state)
    (actual : ∀ a, Actual r state a → Actual r state' a)
    (fresh : ∀ inst ∈ iter.current :: iter.past, Possible r state' inst.vpc →
      Possible r state inst.vpc) : InstChecked r iter state' where
  inside := checked.inside
  operands := fun i operand => (checked.operands i operand).stable actual fresh
  returns := checked.returns

structure Visited (r : Region) (iter : NaClInstIter) (state state' : ValidatorState) : Prop where
  kept : state'.validatesOk = true → state.validatesOk = true
  actual : ∀ a, Actual r state a → Actual r state' a
  possible : ∀ a, Possible r state' a → Possible r state a ∨ a = iter.current.vpc
  checked : state'.validatesOk = true → InstChecked r iter state'

theorem Visited.later (visited : Visited r iter state state')
    (later : Later r state' state'') : Visited r iter state state'' where
  kept := fun ok => visited.kept (later.kept ok)
  actual := fun a member => later.actual a (visited.actual a member)
  possible := fun a member => visited.possible a (later.possible a member)
  checked := fun ok => (visited.checked (later.kept ok)).stable later.actual fun _ _ => later.possible _

theorem rememberIp_later (r : Region) (state : ValidatorState) (pc : Nat) :
    ((naClRememberIp r pc state).validatesOk = true → state.validatesOk = true ∧ inRegion r pc = true) ∧
    (∀ a, Actual r state a → Actual r (naClRememberIp r pc state) a) ∧
    (∀ a, Possible r (naClRememberIp r pc state) a → Possible r state a ∨ a = pc) := by
  unfold naClRememberIp
  split
  · rename_i inside
    refine ⟨fun ok => ⟨?_, inside⟩, fun a => ?_, fun a member => (possible_add inside).mp member⟩
    · rwa [addPossible, if_pos inside] at ok
    · rw [addPossible, if_pos inside]
      exact id
  · exact ⟨fun ok => by contradiction, fun _ => id, fun _ => .inl⟩

theorem callAlignment_later (r : Region) (state : ValidatorState) (inst : NaClInstState) :
    Later r state (naClValidateCallAlignment r inst state) ∧
      ((naClValidateCallAlignment r inst state).validatesOk = true → inst.limit % 2 ^ 64 % r.alignment = 0) := by
  unfold naClValidateCallAlignment
  rw [land_alignmentMask]
  split
  · rename_i aligned
    exact ⟨Later.refl, fun _ => aligned⟩
  · exact ⟨later_reportError, fun ok => by contradiction⟩

theorem jumpValidator_visited (ran : naClJumpValidator r iter state = some state') :
    Visited r iter state state' := by
  obtain ⟨remembered, actual, possible⟩ :=
    rememberIp_later r state iter.current.vpc
  -- What follows the remembering only removes possible targets.
  have assemble (later : Later r (naClRememberIp r iter.current.vpc state) state')
      (operands : state'.validatesOk = true → ∀ i, JumpOperand iter.current i → NodeChecked r iter state' i)
      (returns : state'.validatesOk = true → iter.current.inst.name = .instCall →
        iter.current.limit % 2 ^ 64 % r.alignment = 0) : Visited r iter state state' :=
    { kept := fun ok => (remembered (later.kept ok)).1
      actual := fun a member => later.actual a (actual a member)
      possible := fun a member => possible a (later.possible a member)
      checked := fun ok => ⟨(remembered (later.kept ok)).2, operands ok, returns ok⟩ }
  unfold naClJumpValidator at ran
  simp only at ran
  split at ran
  · rename_i jump
    obtain ⟨later, nodes⟩ := addExprJumpTarget_later ran
    refine assemble later (fun ok i operand => nodes ok i operand.2.1 operand.2.2) ?_
    intro _ call
    rw [call] at jump
    contradiction
  · rename_i no_jump
    split at ran
    · rename_i call
      obtain ⟨between, targets, aligned⟩ := Option.map_eq_some_iff.mp ran
      obtain ⟨later, nodes⟩ := addExprJumpTarget_later targets
      obtain ⟨next, returns⟩ := callAlignment_later r between iter.current
      rw [aligned] at next returns
      refine assemble (later.trans next) (fun ok i operand => ?_) fun ok _ => returns ok
      exact next.nodeChecked (nodes (next.kept ok) i operand.2.1 operand.2.2)
    · rename_i no_call
      cases ran
      refine assemble Later.refl (fun _ i operand => ?_) fun _ call => absurd call no_call
      rcases operand.1 with jump | call
      · contradiction
      · contradiction

end Instructions

end Glopen.Ncval64

import Glopen.Ncval64.JumpSafety
import Glopen.Ncval64.ProtectBase

/-! What an accepted stream of instructions guarantees about the base register. The validator
returns at some operands before it has seen the others, and its test for sub-registers reads
past a table. -/
namespace Glopen.Ncval64

open List

/-- The instruction sets a register through operand node `i`. -/
def SetOperand (inst : NaClInstState) (i : Nat) (reg : NaClOpKind) : Prop :=
  i < inst.nodes.numberExprNodes ∧ setsRegister (inst.nodes.node i) = true ∧
    (inst.nodes.node i).value = reg

def NamesBase (r : Region) (inst : NaClInstState) (reg : NaClOpKind) : Prop :=
  reg = r.baseRegister ∨ subreg64 inst reg = r.baseRegister

def ReAddsRsp (r : Region) (inst : NaClInstState) : Prop :=
  (inst.inst.name = .instOr ∨ inst.inst.name = .instAdd) ∧
    naClIsBinarySetUsingRegisters inst.inst inst.inst.name inst.nodes regRSP r.baseRegister = true

def ReAddsRbp (r : Region) (inst : NaClInstState) : Prop :=
  naClIsBinarySetUsingRegisters inst.inst .instAdd inst.nodes regRBP r.baseRegister = true

/-- The base register is protected, changes of ESP and EBP are repaired at once, and no operand
of the instructions that make them is left out. -/
structure BaseProtected (r : Region) (stray : NaClOpKind → NaClOpKind)
    (insts : List NaClInstState) : Prop where
  base : ∀ inst ∈ insts, ∀ i reg, SetOperand inst i reg → ¬ NamesBase r inst reg
  esp : ∀ before inst after, insts = before ++ inst :: after → ∀ i, SetOperand inst i regESP →
    ∃ next, after.head? = some next ∧ ReAddsRsp r next
  ebp : ∀ before inst after, insts = before ++ inst :: after → ∀ i, SetOperand inst i regEBP →
    ∃ next, after.head? = some next ∧ ReAddsRbp r next
  checked : ∀ before inst after, insts = before ++ inst :: after →
    (∃ i, SetOperand inst i regESP ∨ SetOperand inst i regEBP) →
    ∀ j reg, SetOperand inst j reg → ∀ state stop,
      (checkNodes r stray ⟨inst, before.reverse⟩
        (List.range inst.nodes.numberExprNodes) state).2 = some stop → j ≤ stop

def exitsAt (r : Region) (iter : NaClInstIter) (i : Nat) : Bool :=
  let node := iter.current.nodes.node i
  setsRegister node && node.value != r.baseRegister && (node.value == regESP || node.value == regEBP ||
      (node.value == regRSP && rspChange r iter i != .implicitPop && rspChange r iter i != .illegal) ||
      (node.value == regRBP && rbpRepaired r iter &&
        !naClIsMovUsingRegisters iter.current.inst iter.current.nodes regRBP regRSP))

def Skipped (r : Region) (iter : NaClInstIter) (j : Nat) : Prop :=
  ∃ i < j, exitsAt r iter i = true

structure BaseGuarded (r : Region) (stray : NaClOpKind → NaClOpKind)
    (insts : List NaClInstState) : Prop where
  /-- The word past the table is the base register, or no part of that register is set. -/
  table : regTable64At stray r.baseRegister = r.baseRegister ∨
    ∀ inst ∈ insts, ∀ i reg, SetOperand inst i reg → subreg64 inst reg = r.baseRegister →
      reg = r.baseRegister
  visible : ∀ before inst after, insts = before ++ inst :: after → ∀ i reg,
    SetOperand inst i reg → NamesBase r inst reg → ¬ Skipped r ⟨inst, before.reverse⟩ i
  alone : ∀ before inst after, insts = before ++ inst :: after →
    (∃ i, SetOperand inst i regESP ∨ SetOperand inst i regEBP) →
    ∀ j reg, SetOperand inst j reg → ¬ Skipped r ⟨inst, before.reverse⟩ j

variable {r : Region} {stray : NaClOpKind → NaClOpKind} {state : BaseState} {i : Nat} {reg : NaClOpKind}

section Nodes

variable {iter : NaClInstIter} {state' : BaseState}

def BaseState.Ok (state : BaseState) : Prop := state.validator.validatesOk = true

theorem maybeReport_ok (ok : (naClMaybeReportPreviousBad state).Ok) :
    naClMaybeReportPreviousBad state = state ∧ state.locals.espSetInst = none ∧
      state.locals.ebpSetInst = none := by
  unfold naClMaybeReportPreviousBad at ok ⊢
  split
  · rename_i pending
    rw [if_pos pending] at ok
    contradiction
  · rename_i quiet
    simp only [Bool.or_eq_true, Option.isSome_iff_ne_none, not_or, not_not] at quiet
    exact ⟨rfl, quiet⟩

def NodeFine (r : Region) (stray : NaClOpKind → NaClOpKind) (iter : NaClInstIter) (i : Nat) : Prop :=
  setsRegister (iter.current.nodes.node i) = true → (iter.current.nodes.node i).value ≠ r.baseRegister ∧
    ((iter.current.nodes.node i).value ∈ [regRSP, regRBP, regESP, regEBP] ∨
      naClIs64Subreg stray iter.current (iter.current.nodes.node i).value r.baseRegister = false)

structure Returned (r : Region) (iter : NaClInstIter) (i : Nat) (state state' : BaseState) : Prop where
  kept : state.Ok
  esp : state.locals.espSetInst ≠ none → ReAddsRsp r iter.current
  ebp : state.locals.ebpSetInst ≠ none → ReAddsRbp r iter.current
  setsEsp : (iter.current.nodes.node i).value = regESP → state'.locals.espSetInst ≠ none
  setsEbp : (iter.current.nodes.node i).value = regEBP → state'.locals.ebpSetInst ≠ none

theorem rspChange_repaired (repaired : rspChange r iter i = .repaired) : ReAddsRsp r iter.current := by
  have binary : rspRepaired r iter = true → naClIsBinarySetUsingRegisters iter.current.inst
      iter.current.inst.name iter.current.nodes regRSP r.baseRegister = true := by
    intro pattern
    exact (Bool.and_eq_true_iff.mp pattern).1
  unfold rspChange at repaired
  simp only at repaired
  split at repaired
  · contradiction
  · contradiction
  · split at repaired <;> contradiction
  · rename_i name
    split at repaired
    · rename_i pattern
      exact ⟨.inl name, binary pattern⟩
    · contradiction
  · rename_i name
    split at repaired
    · rename_i pattern
      exact ⟨.inr name, binary pattern⟩
    · contradiction
  · split at repaired
    · contradiction
    · split at repaired <;> contradiction
  · split at repaired <;> contradiction

theorem rbpRepaired_readds (repaired : rbpRepaired r iter = true) : ReAddsRbp r iter.current := by
  unfold rbpRepaired at repaired
  simp only at repaired
  split at repaired
  · contradiction
  · exact (Bool.and_eq_true_iff.mp repaired).1

theorem mark_validatesOk (r : Region) (inst : NaClInstState) (validator : ValidatorState) :
    (naClMarkInstructionJumpIllegal r inst validator).validatesOk = validator.validatesOk := by
  unfold naClMarkInstructionJumpIllegal
  split <;> rfl

theorem quiet_return (value : (iter.current.nodes.node i).value ≠ regESP ∧
    (iter.current.nodes.node i).value ≠ regEBP) (ok : (naClMaybeReportPreviousBad state).Ok) :
    Returned r iter i state (naClMaybeReportPreviousBad state) := by
  obtain ⟨same, esp, ebp⟩ := maybeReport_ok ok
  rw [same] at ok ⊢
  exact ⟨ok, fun pending => absurd esp pending, fun pending => absurd ebp pending,
    fun set => absurd set value.1, fun set => absurd set value.2⟩

theorem setRsp_next (ran : setRsp r iter i state = .next state') :
    (rspChange r iter i = .implicitPop ∨ rspChange r iter i = .illegal) ∧ (state'.Ok → state' = state) := by
  unfold setRsp at ran
  split at ran
  · contradiction
  · contradiction
  · contradiction
  · rename_i pop
    cases Outcome.next.inj ran
    exact ⟨.inl pop, fun ok => (maybeReport_ok ok).1⟩
  · contradiction
  · rename_i illegal
    cases Outcome.next.inj ran
    refine ⟨.inr illegal, fun ok => ?_⟩
    rw [(maybeReport_ok ok).1] at ok
    contradiction

theorem setRsp_done (value : (iter.current.nodes.node i).value = regRSP)
    (ran : setRsp r iter i state = .done state') :
    (rspChange r iter i ≠ .implicitPop ∧ rspChange r iter i ≠ .illegal) ∧
      (state'.Ok → Returned r iter i state state') := by
  have other : (iter.current.nodes.node i).value ≠ regESP ∧ (iter.current.nodes.node i).value ≠ regEBP := by
    rw [value]
    decide
  unfold setRsp at ran
  split at ran
  · rename_i change
    cases Outcome.done.inj ran
    exact ⟨by rw [change]; decide, quiet_return other⟩
  · rename_i change
    cases Outcome.done.inj ran
    exact ⟨by rw [change]; decide, quiet_return other⟩
  · rename_i change
    cases Outcome.done.inj ran
    exact ⟨by rw [change]; decide, quiet_return other⟩
  · contradiction
  · rename_i change
    cases Outcome.done.inj ran
    refine ⟨by rw [change]; decide, fun ok => ?_⟩
    obtain ⟨same, -, ebp⟩ := maybeReport_ok ok
    rw [same] at ok ⊢
    have kept : state.Ok := (mark_validatesOk r iter.current state.validator).symm.trans ok
    exact ⟨kept, fun _ => rspChange_repaired change, fun pending => absurd ebp pending,
      fun set => absurd set other.1, fun set => absurd set other.2⟩
  · contradiction

theorem setRbp_next (ran : setRbp r iter state = .next state') : (rbpRepaired r iter = false ∨
      naClIsMovUsingRegisters iter.current.inst iter.current.nodes regRBP regRSP = true) ∧
      (state'.Ok → state' = state) := by
  unfold setRbp at ran
  split at ran
  · rename_i mov
    cases Outcome.next.inj ran
    exact ⟨.inr mov, fun _ => rfl⟩
  · split at ran
    · contradiction
    · rename_i no_repair
      cases Outcome.next.inj ran
      exact ⟨.inl (by simpa using no_repair), fun ok => by contradiction⟩

theorem setRbp_done (value : (iter.current.nodes.node i).value = regRBP)
    (ran : setRbp r iter state = .done state') : (rbpRepaired r iter = true ∧
      naClIsMovUsingRegisters iter.current.inst iter.current.nodes regRBP regRSP = false) ∧
      (state'.Ok → Returned r iter i state state') := by
  unfold setRbp at ran
  split at ran
  · contradiction
  · rename_i no_mov
    split at ran
    · rename_i repaired
      cases Outcome.done.inj ran
      refine ⟨⟨repaired, by simpa using no_mov⟩, fun ok => ?_⟩
      obtain ⟨same, esp, -⟩ := maybeReport_ok ok
      rw [same] at ok ⊢
      have kept : state.Ok := (mark_validatesOk r iter.current state.validator).symm.trans ok
      refine ⟨kept, fun pending => absurd esp pending, fun _ => rbpRepaired_readds repaired, ?_, ?_⟩
      · intro set
        rw [value] at set
        exact absurd set (by decide)
      · intro set
        rw [value] at set
        exact absurd set (by decide)
    · contradiction

theorem checkNode_next (ran : checkNode r stray iter state i = .next state') :
    exitsAt r iter i = false ∧ (state'.Ok → state' = state ∧ NodeFine r stray iter i) := by
  unfold checkNode at ran
  simp only at ran
  split at ran
  · rename_i sets
    split at ran
    · rename_i base
      cases Outcome.next.inj ran
      exact ⟨by simp [exitsAt, base], fun ok => by contradiction⟩
    · rename_i no_base
      split at ran
      · rename_i rsp
        obtain ⟨change, unchanged⟩ := setRsp_next ran
        refine ⟨?_, fun ok => ⟨unchanged ok, fun _ => ⟨no_base, .inl (by simp [rsp])⟩⟩⟩
        have others : regRSP ≠ regESP ∧ regRSP ≠ regEBP ∧ regRSP ≠ regRBP := by decide
        rcases change with pop | illegal
        · simp [exitsAt, rsp, pop, others]
        · simp [exitsAt, rsp, illegal, others]
      · rename_i no_rsp
        split at ran
        · rename_i rbp
          obtain ⟨change, unchanged⟩ := setRbp_next ran
          refine ⟨?_, fun ok => ⟨unchanged ok, fun _ => ⟨no_base, .inl (by simp [rbp])⟩⟩⟩
          have others : regRBP ≠ regESP ∧ regRBP ≠ regEBP ∧ regRBP ≠ regRSP := by decide
          rcases change with no_repair | mov
          · simp [exitsAt, rbp, no_repair, others]
          · simp [exitsAt, rbp, mov, others]
        · rename_i no_rbp
          split at ran
          · contradiction
          · rename_i no_esp
            split at ran
            · contradiction
            · rename_i no_ebp
              have no_exit : exitsAt r iter i = false := by
                simp [exitsAt, no_rsp, no_rbp, no_esp, no_ebp]
              split at ran
              · cases Outcome.next.inj ran
                exact ⟨no_exit, fun ok => by contradiction⟩
              · rename_i no_subreg
                cases Outcome.next.inj ran
                simp only [Bool.or_eq_true, not_or, Bool.not_eq_true] at no_subreg
                exact ⟨no_exit, fun _ => ⟨rfl, fun _ => ⟨no_base, .inr no_subreg.1.1⟩⟩⟩
  · rename_i no_set
    cases Outcome.next.inj ran
    refine ⟨by simp [exitsAt, no_set], fun _ => ⟨rfl, fun sets => absurd sets no_set⟩⟩

theorem checkNode_done (ran : checkNode r stray iter state i = .done state') : exitsAt r iter i = true ∧
      (state'.Ok → Returned r iter i state state' ∧ NodeFine r stray iter i) := by
  unfold checkNode at ran
  simp only at ran
  split at ran
  · rename_i sets
    split at ran
    · contradiction
    · rename_i no_base
      split at ran
      · rename_i rsp
        obtain ⟨change, returned⟩ := setRsp_done rsp ran
        refine ⟨?_, fun ok => ⟨returned ok, fun _ => ⟨no_base, .inl (by simp [rsp])⟩⟩⟩
        rw [rsp] at no_base
        simp [exitsAt, sets, rsp, no_base, change]
      · split at ran
        · rename_i rbp
          obtain ⟨change, returned⟩ := setRbp_done rbp ran
          refine ⟨?_, fun ok => ⟨returned ok, fun _ => ⟨no_base, .inl (by simp [rbp])⟩⟩⟩
          rw [rbp] at no_base
          simp [exitsAt, sets, rbp, no_base, change]
        · split at ran
          · rename_i esp
            cases Outcome.done.inj ran
            refine ⟨by simpa [exitsAt, sets, esp] using esp ▸ no_base, fun ok => ?_⟩
            obtain ⟨same, no_esp, no_ebp⟩ := @maybeReport_ok state ok
            refine ⟨⟨?_, fun pending => absurd no_esp pending, fun pending => absurd no_ebp pending,
              fun _ => by simp [setEsp], fun ebp => ?_⟩, fun _ => ⟨no_base, .inl (by simp [esp])⟩⟩
            · rw [← same]
              exact ok
            · rw [esp] at ebp
              exact absurd ebp (by decide)
          · split at ran
            · rename_i ebp
              cases Outcome.done.inj ran
              refine ⟨by simpa [exitsAt, sets, ebp] using ebp ▸ no_base, fun ok => ?_⟩
              obtain ⟨same, no_esp, no_ebp⟩ := @maybeReport_ok state ok
              refine ⟨⟨?_, fun pending => absurd no_esp pending,
                fun pending => absurd no_ebp pending, fun esp => ?_, fun _ => by simp [setEbp]⟩,
                fun _ => ⟨no_base, .inl (by simp [ebp])⟩⟩
              · rw [← same]
                exact ok
              · rw [ebp] at esp
                exact absurd esp (by decide)
            · split at ran <;> contradiction
  · contradiction

theorem checkNodes_stop (r : Region) (stray : NaClOpKind → NaClOpKind) (iter : NaClInstIter)
    (indices : List Nat) : ∀ state : BaseState,
    (checkNodes r stray iter indices state).2 = indices.find? (exitsAt r iter) := by
  induction indices with
  | nil =>
    intro state
    rfl
  | cons i rest ih =>
    intro state
    unfold checkNodes
    split
    · rename_i state' ran
      rw [List.find?_cons, (checkNode_next ran).1]
      exact ih state'
    · rename_i state' ran
      rw [List.find?_cons, (checkNode_done ran).1]

theorem checkNodes_ok (r : Region) (stray : NaClOpKind → NaClOpKind) (iter : NaClInstIter)
    (indices : List Nat) : ∀ state : BaseState, (checkNodes r stray iter indices state).1.Ok →
      (indices.find? (exitsAt r iter) = none ∧ (checkNodes r stray iter indices state).1 = state ∧
        ∀ i ∈ indices, NodeFine r stray iter i) ∨
      ∃ before i after, indices = before ++ i :: after ∧
        (∀ j ∈ before, exitsAt r iter j = false) ∧ exitsAt r iter i = true ∧
        Returned r iter i state (checkNodes r stray iter indices state).1 ∧
        ∀ j ∈ before ++ [i], NodeFine r stray iter j := by
  induction indices with
  | nil =>
    intro state ok
    exact .inl ⟨rfl, rfl, fun i member => absurd member not_mem_nil⟩
  | cons i rest ih =>
    intro state ok
    unfold checkNodes at ok ⊢
    cases ran : checkNode r stray iter state i with
    | next state' =>
      obtain ⟨no_exit, unchanged⟩ := checkNode_next ran
      simp only [ran] at ok ⊢
      rcases ih state' ok with ⟨no_stop, same, fine⟩ | ⟨before, k, after, split, first, exits, returned, fine⟩
      · rw [same] at ok ⊢
        obtain ⟨same', here⟩ := unchanged ok
        refine .inl ⟨by rw [List.find?_cons, no_exit]; exact no_stop, same', ?_⟩
        intro j member
        rcases mem_cons.mp member with rfl | later
        · exact here
        · exact fine j later
      · obtain ⟨same', here⟩ := unchanged returned.kept
        rw [same'] at returned ⊢
        refine .inr ⟨i :: before, k, after, by rw [split]; rfl, ?_, exits, returned, ?_⟩
        · intro j member
          rcases mem_cons.mp member with rfl | later
          · exact no_exit
          · exact first j later
        · intro j member
          rcases mem_cons.mp member with rfl | later
          · exact here
          · exact fine j later
    | done state' =>
      simp only [ran] at ok ⊢
      obtain ⟨exits, effect⟩ := checkNode_done ran
      obtain ⟨returned, fine⟩ := effect ok
      refine .inr ⟨[], i, rest, rfl, fun j member => absurd member not_mem_nil, exits,
        returned, fun j member => ?_⟩
      rw [mem_singleton.mp member]
      exact fine

structure Passed (r : Region) (stray : NaClOpKind → NaClOpKind) (iter : NaClInstIter)
    (state state' : BaseState) : Prop where
  kept : state.Ok
  esp : state.locals.espSetInst ≠ none → ReAddsRsp r iter.current
  ebp : state.locals.ebpSetInst ≠ none → ReAddsRbp r iter.current
  fine : ∀ i < iter.current.nodes.numberExprNodes, ¬ Skipped r iter i → NodeFine r stray iter i
  setsEsp : ∀ i, SetOperand iter.current i regESP → ¬ Skipped r iter i → state'.locals.espSetInst ≠ none
  setsEbp : ∀ i, SetOperand iter.current i regEBP → ¬ Skipped r iter i → state'.locals.ebpSetInst ≠ none

theorem exits_of_set (stack : reg = regESP ∨ reg = regEBP)
    (operand : SetOperand iter.current i reg) (fine : NodeFine r stray iter i) : exitsAt r iter i = true := by
  obtain ⟨-, sets, value⟩ := operand
  have no_base := (fine sets).1
  rw [value] at no_base
  rcases stack with rfl | rfl
  · simp [exitsAt, sets, value, no_base]
  · simp [exitsAt, sets, value, no_base]

theorem baseRegisterValidator_passed (ok : (naClBaseRegisterValidator r stray iter state).Ok) :
    Passed r stray iter state (naClBaseRegisterValidator r stray iter state) := by
  have stop := checkNodes_stop r stray iter (List.range iter.current.nodes.numberExprNodes) state
  unfold naClBaseRegisterValidator at ok ⊢
  generalize ran : checkNodes r stray iter (List.range iter.current.nodes.numberExprNodes) state = result at *
  obtain ⟨final, stopped⟩ := result
  have outcome := checkNodes_ok r stray iter (List.range iter.current.nodes.numberExprNodes) state
  rw [ran] at outcome
  cases stopped with
  | none =>
    obtain ⟨same, esp, ebp⟩ := maybeReport_ok ok
    simp only at ok ⊢
    rw [same] at ok ⊢
    rcases outcome ok with ⟨-, unchanged, fine⟩ | ⟨before, k, after, split, -, exits, -⟩
    · simp only at unchanged
      rw [unchanged] at esp ebp ok
      have all : ∀ i < iter.current.nodes.numberExprNodes, NodeFine r stray iter i :=
        fun i small => fine i (mem_range.mpr small)
      have never : ∀ {i reg}, reg = regESP ∨ reg = regEBP → ¬ SetOperand iter.current i reg := by
        intro i reg stack operand
        have exits := exits_of_set stack operand (all i operand.1)
        have := List.find?_eq_none.mp stop.symm i (mem_range.mpr operand.1)
        contradiction
      exact ⟨ok, fun pending => absurd esp pending, fun pending => absurd ebp pending,
        fun i small _ => all i small, fun i operand => absurd operand (never (.inl rfl)),
        fun i operand => absurd operand (never (.inr rfl))⟩
    · have := List.find?_eq_none.mp stop.symm k (by rw [split]; simp)
      contradiction
  | some k =>
    rcases outcome ok with ⟨no_stop, -⟩ | ⟨before, i, after, split, first, exits, returned, fine⟩
    · rw [no_stop] at stop
      contradiction
    · have sorted := pairwise_lt_range (n := iter.current.nodes.numberExprNodes)
      rw [split] at sorted
      obtain ⟨-, sorted, -⟩ := pairwise_append.mp sorted
      -- What comes after the return is skipped.
      have reached : ∀ j < iter.current.nodes.numberExprNodes, ¬ Skipped r iter j → j ∈ before ++ [i] := by
        intro j small seen
        have member := mem_range.mpr small
        rw [split] at member
        rcases mem_append.mp member with early | late
        · exact mem_append_left _ early
        · rcases mem_cons.mp late with rfl | later
          · simp
          · exact absurd ⟨i, (pairwise_cons.mp sorted).1 j later, exits⟩ seen
      have here : ∀ {j reg}, reg = regESP ∨ reg = regEBP → SetOperand iter.current j reg →
          ¬ Skipped r iter j → j = i := by
        intro j reg stack operand seen
        have found := reached j operand.1 seen
        have exit_here := exits_of_set stack operand (fine j found)
        rcases mem_append.mp found with early | same
        · rw [first j early] at exit_here
          contradiction
        · exact mem_singleton.mp same
      refine ⟨returned.kept, returned.esp, returned.ebp,
        fun j small seen => fine j (reached j small seen), ?_, ?_⟩
      · intro j operand seen
        obtain rfl := here (.inl rfl) operand seen
        exact returned.setsEsp operand.2.2
      · intro j operand seen
        obtain rfl := here (.inr rfl) operand seen
        exact returned.setsEbp operand.2.2

end Nodes

structure StreamPassed (r : Region) (stray : NaClOpKind → NaClOpKind)
    (past insts : List NaClInstState) (state : BaseState) : Prop where
  kept : state.Ok
  esp : state.locals.espSetInst ≠ none → ∃ next, insts.head? = some next ∧ ReAddsRsp r next
  ebp : state.locals.ebpSetInst ≠ none → ∃ next, insts.head? = some next ∧ ReAddsRbp r next
  fine : ∀ before inst after, insts = before ++ inst :: after →
    ∀ i < inst.nodes.numberExprNodes, ¬ Skipped r ⟨inst, before.reverse ++ past⟩ i →
      NodeFine r stray ⟨inst, before.reverse ++ past⟩ i
  setsEsp : ∀ before inst after, insts = before ++ inst :: after → ∀ i,
    SetOperand inst i regESP → ¬ Skipped r ⟨inst, before.reverse ++ past⟩ i →
      ∃ next, after.head? = some next ∧ ReAddsRsp r next
  setsEbp : ∀ before inst after, insts = before ++ inst :: after → ∀ i,
    SetOperand inst i regEBP → ¬ Skipped r ⟨inst, before.reverse ++ past⟩ i →
      ∃ next, after.head? = some next ∧ ReAddsRbp r next

theorem quit_false_of_ok (ok : state.Ok) : naClValidatorQuit r state.validator = false := by
  rw [naClValidatorQuit, show state.validator.validatesOk = true from ok, Bool.not_true, Bool.and_false]

theorem validateBase_passed {insts : List NaClInstState} : ∀ {past state},
    (validateBase r stray past insts state).Ok → StreamPassed r stray past insts state := by
  induction insts with
  | nil =>
    intro past state ok
    unfold validateBase at ok
    have quiet : state.Ok ∧ state.locals.espSetInst = none ∧ state.locals.ebpSetInst = none := by
      split at ok
      · rename_i quit
        rw [quit_false_of_ok ok] at quit
        contradiction
      · obtain ⟨same, esp, ebp⟩ := @maybeReport_ok state ok
        exact ⟨same ▸ ok, esp, ebp⟩
    have nothing : ∀ {before after : List NaClInstState} {inst}, [] ≠ before ++ inst :: after := by
      intro before after inst
      simp
    exact ⟨quiet.1, fun pending => absurd quiet.2.1 pending,
      fun pending => absurd quiet.2.2 pending, fun _ _ _ split => absurd split nothing,
      fun _ _ _ split => absurd split nothing, fun _ _ _ split => absurd split nothing⟩
  | cons inst rest ih =>
    intro past state ok
    unfold validateBase at ok
    simp only at ok
    have rest_ok : naClValidatorQuit r
        (naClBaseRegisterValidator r stray ⟨inst, past⟩ state).validator = false := by
      by_contra quit
      rw [if_pos (by simpa using quit)] at ok
      exact quit (quit_false_of_ok ok)
    rw [if_neg (by simp [rest_ok])] at ok
    have later := ih ok
    have now := baseRegisterValidator_passed later.kept
    -- The instruction is the first of the stream or one of the rest.
    have shift : ∀ before : List NaClInstState,
        before.reverse ++ inst :: past = (inst :: before).reverse ++ past := by
      intro before
      simp
    constructor
    · exact now.kept
    · exact fun pending => ⟨inst, rfl, now.esp pending⟩
    · exact fun pending => ⟨inst, rfl, now.ebp pending⟩
    · intro before other after split
      cases before with
      | nil =>
        cases split
        exact now.fine
      | cons first before =>
        cases split
        rw [← shift]
        exact later.fine before other after rfl
    · intro before other after split
      cases before with
      | nil =>
        cases split
        exact fun i operand seen => later.esp (now.setsEsp i operand seen)
      | cons first before =>
        cases split
        rw [← shift]
        exact later.setsEsp before other after rfl
    · intro before other after split
      cases before with
      | nil =>
        cases split
        exact fun i operand seen => later.ebp (now.setsEbp i operand seen)
      | cons first before =>
        cases split
        rw [← shift]
        exact later.setsEbp before other after rfl

theorem find_range_le {n k : Nat} {p : Nat → Bool} (found : (List.range n).find? p = some k)
    (holds : p i = true) : k ≤ i := by
  by_contra below
  have := (List.find?_range_eq_some.mp found).2.2 i (by omega)
  rw [holds] at this
  contradiction

theorem subreg64_stack (inst : NaClInstState) (stack : reg ∈ [regRSP, regRBP, regESP, regEBP]) :
    subreg64 inst reg = regRSP ∨ subreg64 inst reg = regRBP := by
  have stack_entries (table : NaClOpKind → NaClOpKind) (rsp : table regRSP = regRSP)
      (rbp : table regRBP = regRBP) (esp : table regESP = regRSP) (ebp : table regEBP = regRBP) :
      table reg = regRSP ∨ table reg = regRBP := by
    simp only [mem_cons, not_mem_nil, or_false] at stack
    rcases stack with rfl | rfl | rfl | rfl
    · exact .inl rsp
    · exact .inr rbp
    · exact .inl esp
    · exact .inr ebp
  unfold subreg64
  split
  · exact stack_entries naClSubreg64RegRex (by decide +kernel) (by decide +kernel)
      (by decide +kernel) (by decide +kernel)
  · exact stack_entries naClSubreg64RegNoRex (by decide +kernel) (by decide +kernel)
      (by decide +kernel) (by decide +kernel)

theorem skipped_stops (stray : NaClOpKind → NaClOpKind) {inst : NaClInstState}
    {past : List NaClInstState} {j : Nat} (before : i < j) (exits : exitsAt r ⟨inst, past⟩ i = true)
    (small : j < inst.nodes.numberExprNodes) (state : BaseState) : ∃ stop < j, (checkNodes r stray ⟨inst, past⟩
      (List.range inst.nodes.numberExprNodes) state).2 = some stop := by
  rw [checkNodes_stop]
  cases found : (List.range inst.nodes.numberExprNodes).find? (exitsAt r ⟨inst, past⟩) with
  | none =>
    have := List.find?_eq_none.mp found i (mem_range.mpr (by omega))
    contradiction
  | some stop =>
    exact ⟨stop, Nat.lt_of_le_of_lt (find_range_le found exits) before, rfl⟩

/-- On a stream without a report the base register is protected exactly when the two gaps of
the validator are not met. -/
theorem base_protected_iff {insts : List NaClInstState}
    (other : r.baseRegister ≠ regRSP ∧ r.baseRegister ≠ regRBP) (accepted : (validateBase r stray [] insts
      (naClBaseRegisterMemoryCreate naClValidatorStateCreate)).Ok) :
    BaseProtected r stray insts ↔ BaseGuarded r stray insts := by
  have passed := validateBase_passed accepted
  constructor
  · intro safe
    constructor
    · refine Or.inr fun inst member i reg operand part => ?_
      exact absurd (Or.inr part) (safe.base inst member i reg operand)
    · intro before inst after split i reg operand names
      have member : inst ∈ insts := by rw [split]; simp
      exact absurd names (safe.base inst member i reg operand)
    · rintro before inst after split stack j reg operand ⟨i, earlier, exits⟩
      obtain ⟨stop, below, stopped⟩ := skipped_stops (r := r) stray earlier exits operand.1
        (naClBaseRegisterMemoryCreate naClValidatorStateCreate)
      have := safe.checked before inst after split stack j reg operand _ stop stopped
      omega
  · intro guarded
    constructor
    · intro inst member i reg operand names
      obtain ⟨before, after, split⟩ := List.append_of_mem member
      have seen := guarded.visible before inst after split i reg operand names
      have fine := passed.fine before inst after split i operand.1
      rw [List.append_nil] at fine
      obtain ⟨no_base, rest⟩ := fine seen operand.2.1
      simp only [operand.2.2] at no_base rest
      rcases names with base | part
      · exact no_base base
      · rcases rest with stack | no_subreg
        · rcases subreg64_stack inst stack with rsp | rbp
          · exact other.1 (part.symm.trans rsp)
          · exact other.2 (part.symm.trans rbp)
        · rcases guarded.table with entry | none
          · rw [naClIs64Subreg, entry, part, beq_self_eq_true] at no_subreg
            contradiction
          · exact no_base (none inst member i reg operand part)
    · intro before inst after split i operand
      have seen := guarded.alone before inst after split ⟨i, Or.inl operand⟩ i _ operand
      have next := passed.setsEsp before inst after split i operand
      rw [List.append_nil] at next
      exact next seen
    · intro before inst after split i operand
      have seen := guarded.alone before inst after split ⟨i, Or.inr operand⟩ i _ operand
      have next := passed.setsEbp before inst after split i operand
      rw [List.append_nil] at next
      exact next seen
    · intro before inst after split stack j reg operand state stop stopped
      rw [checkNodes_stop] at stopped
      by_contra below
      exact guarded.alone before inst after split stack j reg operand
        ⟨stop, by omega, (List.find?_range_eq_some.mp stopped).1⟩

def registerInst (vpc : Nat) (rexByte : BitVec 8) (name : NaClMnemonic) (flags : Flags)
    (first second : NaClOpKind) : NaClInstState :=
  ⟨vpc, 3, fun _ => 0, rexByte, 4, ⟨name, 0, [flags, 1]⟩,
    nodesOf [⟨.operandReference, 0, 0⟩, ⟨.exprRegister, first, 1⟩,
      ⟨.operandReference, 1, 0⟩, ⟨.exprRegister, second, 2⟩]⟩

/-- `mov %eax, %r15d`. -/
def movesR15d : NaClInstState := registerInst 0x20000 0x41 .instMov 0x202 105 90

/-- The lower half of the base register is set and nothing is reported. -/
theorem part_of_base_changed : (validateBase sampleRegion (fun _ => 0) [] [movesR15d]
      (naClBaseRegisterMemoryCreate naClValidatorStateCreate)).Ok ∧
    ¬ BaseProtected sampleRegion (fun _ => 0) [movesR15d] := by
  refine ⟨show _ = true by decide +kernel, fun safe => ?_⟩
  have part : subreg64 movesR15d 105 = regR15 := by decide +kernel
  exact safe.base movesR15d (by simp) 1 105 ⟨by decide, by decide +kernel, rfl⟩ (Or.inr part)

/-- `mov %eax, %esp; add %r15, %rsp`. -/
def repairedStack : List NaClInstState :=
  [registerInst 0x20000 0 .instMov 0x202 regESP 90, registerInst 0x20002 0x4c .instAdd 3 regRSP regR15]

theorem registerInst_sets {vpc : Nat} {rexByte : BitVec 8} {name : NaClMnemonic}
    {flags : Flags} {first second : NaClOpKind}
    (operand : SetOperand (registerInst vpc rexByte name flags first second) i reg) : i = 1 ∧ reg = first := by
  obtain ⟨small, sets, value⟩ := operand
  have small : i < 4 := small
  have cases : i = 0 ∨ i = 1 ∨ i = 2 ∨ i = 3 := by omega
  rcases cases with rfl | rfl | rfl | rfl
  · contradiction
  · exact ⟨rfl, value.symm⟩
  · contradiction
  · revert sets
    simp [setsRegister, registerInst, nodesOf, exprSet]

theorem repairedStack_guarded : BaseGuarded sampleRegion (fun _ => 0) repairedStack := by
  have known : ∀ inst ∈ repairedStack, ∀ i reg, SetOperand inst i reg →
      i = 1 ∧ (reg = regESP ∨ reg = regRSP) := by
    intro inst member i reg operand
    simp only [repairedStack, mem_cons, not_mem_nil, or_false] at member
    rcases member with rfl | rfl
    · obtain ⟨first, rfl⟩ := registerInst_sets operand
      exact ⟨first, .inl rfl⟩
    · obtain ⟨first, rfl⟩ := registerInst_sets operand
      exact ⟨first, .inr rfl⟩
  have no_base : ∀ inst ∈ repairedStack, ∀ i reg, SetOperand inst i reg → ¬ NamesBase sampleRegion inst reg := by
    intro inst member i reg operand names
    have stack : reg ∈ [regRSP, regRBP, regESP, regEBP] := by
      rcases (known inst member i reg operand).2 with rfl | rfl <;> simp
    rcases names with rfl | part
    · revert stack
      decide
    · rcases subreg64_stack inst stack with rsp | rbp
      · exact absurd (part.symm.trans rsp) (by decide)
      · exact absurd (part.symm.trans rbp) (by decide)
  have member : ∀ {before inst after}, repairedStack = before ++ inst :: after → inst ∈ repairedStack := by
    intro before inst after split
    rw [split]
    simp
  constructor
  · exact .inr fun inst inner i reg operand part =>
      absurd (.inr part) (no_base inst inner i reg operand)
  · exact fun before inst after split i reg operand names =>
      absurd names (no_base inst (member split) i reg operand)
  · rintro before inst after split - j reg operand ⟨i, earlier, exits⟩
    obtain ⟨rfl, -⟩ := known inst (member split) j reg operand
    obtain rfl : i = 0 := by omega
    have inner := member split
    simp only [repairedStack, mem_cons, not_mem_nil, or_false] at inner
    rcases inner with rfl | rfl <;> contradiction

theorem repairedStack_protected : BaseProtected sampleRegion (fun _ => 0) repairedStack :=
  (base_protected_iff (r := sampleRegion) (by decide) (show _ = true by decide +kernel)).mpr
    repairedStack_guarded

end Glopen.Ncval64

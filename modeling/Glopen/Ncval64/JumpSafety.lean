import Mathlib.Data.List.Chain
import Glopen.Ncval64.JumpRuns

/-! Jump safety of the x86-64 validator: a jump in an accepted region goes to an instruction
that may be entered, and a jump through a register is masked inside its bundle. -/
namespace Glopen.Ncval64

open List

structure CodeRegion (r : Region) (segments : List (List Visit)) : Prop where
  proper : ∀ visit ∈ segments.flatten, 0 < visit.inst.length ∧ visit.inst.limit ≤ r.vlimit
  contiguous : ∀ segment ∈ segments,
    segment.IsChain fun a b => a.inst.limit = b.inst.vpc
  apart : segments.flatten.Pairwise fun a b =>
    a.inst.limit ≤ b.inst.vpc ∨ b.inst.limit ≤ a.inst.vpc

structure JumpSafe (r : Region) (segments : List (List Visit)) (state : ValidatorState) : Prop where
  /-- A jump operand is a register or an address. -/
  compliant : ∀ visit ∈ segments.flatten, ∀ i, JumpOperand visit.inst i →
    (visit.inst.nodes.node i).kind = .exprRegister ∨
      ∃ target, naClGetExpConstant visit.inst.nodes i = some target
  targets : ∀ visit ∈ segments.flatten, ∀ t, ExplicitTarget visit.inst t →
    if inRegion r t then Possible r state t else t % r.alignment = 0 ∧ t < 2 ^ 32
  blocks : ∀ a, inRegion r a = true → a % r.alignment = 0 → Possible r state a
  indirect : ∀ segment ∈ segments, ∀ before visit after, segment = before ++ visit :: after →
    ∀ reg, RegisterJump visit.inst reg → ∃ start andInst middle,
      before.map Visit.inst = start ++ [andInst, middle] ∧ MaskedBy r andInst middle reg ∧
      andInst.vpc / r.alignment = (visit.inst.limit - 1) / r.alignment ∧
      ¬ Possible r state middle.vpc ∧ ¬ Possible r state visit.inst.vpc
  marked : ∀ segment ∈ segments, ∀ before visit after, segment = before ++ visit :: after →
    ∀ distance ∈ visit.marks, ∃ inst,
      NaClInstIter.getLookbackState ⟨visit.inst, (before.map Visit.inst).reverse⟩ distance =
        some inst ∧ ¬ Possible r state inst.vpc
  returns : ∀ visit ∈ segments.flatten, visit.inst.inst.name = .instCall →
    visit.inst.limit % r.alignment = 0

section Safety

variable {r : Region} {segments : List (List Visit)} {state : ValidatorState}

theorem visitsFrom_split (before after : List Visit) (visit : Visit) : ∀ past,
    (⟨visit.inst, (before.map Visit.inst).reverse ++ past⟩, visit.marks) ∈
      visitsFrom past (before ++ visit :: after) := by
  induction before with
  | nil =>
    intro past
    exact mem_cons_self
  | cons first before ih =>
    intro past
    have := ih (first.inst :: past)
    simp only [map_cons, reverse_cons, append_assoc, cons_append, visitsFrom]
    exact mem_cons_of_mem _ this

variable {segment before after : List Visit} {visit a b andVisit midVisit jump : Visit}

theorem visit_mem (member : segment ∈ segments) (split : segment = before ++ visit :: after) :
    (⟨visit.inst, (before.map Visit.inst).reverse⟩, visit.marks) ∈ segments.flatMap (visitsFrom []) := by
  have here := visitsFrom_split before after visit []
  rw [append_nil, ← split] at here
  exact mem_flatMap.mpr ⟨segment, member, here⟩

theorem lookback_two {iter : NaClInstIter} {andInst middle : NaClInstState}
    (two : iter.getLookbackState 2 = some andInst) (one : iter.getLookbackState 1 = some middle) :
    ∃ rest, iter.past = middle :: andInst :: rest := by
  unfold NaClInstIter.getLookbackState at one two
  split at one
  · split at two
    · cases past : iter.past with
      | nil =>
        rw [past] at one
        contradiction
      | cons first rest =>
        cases rest with
        | nil =>
          rw [past] at two
          contradiction
        | cons second rest =>
          rw [past] at one two
          cases one
          cases two
          exact ⟨rest, rfl⟩
    · contradiction
  · contradiction

theorem same_or_apart (code : CodeRegion r segments)
    (first : a ∈ segments.flatten) (second : b ∈ segments.flatten) :
    a = b ∨ a.inst.limit ≤ b.inst.vpc ∨ b.inst.limit ≤ a.inst.vpc := by
  have symmetric : Std.Symm fun a b : Visit =>
      a.inst.limit ≤ b.inst.vpc ∨ b.inst.limit ≤ a.inst.vpc := ⟨fun _ _ => Or.symm⟩
  by_cases same : a = b
  · exact .inl same
  · exact .inr (code.apart.forall first second same)

theorem not_inside (code : CodeRegion r segments) (first : a ∈ segments.flatten) (second : b ∈ segments.flatten)
    (above : a.inst.vpc < b.inst.vpc) : a.inst.limit ≤ b.inst.vpc := by
  have proper := (code.proper b second).1
  rcases same_or_apart code first second with same | below | after
  · rw [same] at above
    omega
  · exact below
  · unfold NaClInstState.limit at after
    omega

theorem seen_visit {past : List NaClInstState} {visits : List Visit} {a : Nat}
    (found : ∃ visit ∈ visitsFrom past visits, visit.1.current.vpc = a) :
    ∃ visit ∈ visits, visit.inst.vpc = a := by
  induction visits generalizing past with
  | nil =>
    obtain ⟨visit, member, -⟩ := found
    exact absurd member not_mem_nil
  | cons first rest ih =>
    obtain ⟨visit, member, start⟩ := found
    rcases mem_cons.mp member with rfl | later
    · exact ⟨first, mem_cons_self, start⟩
    · obtain ⟨other, among, same⟩ := ih ⟨visit, later, start⟩
      exact ⟨other, mem_cons_of_mem _ among, same⟩

theorem possible_start (inv : RunInv r (segments.flatMap (visitsFrom [])) state) {a : Nat}
    (possible : Possible r state a) : ∃ visit ∈ segments.flatten, visit.inst.vpc = a := by
  obtain ⟨visit, member, start⟩ := inv.starts a possible
  obtain ⟨segment, among, here⟩ := mem_flatMap.mp member
  obtain ⟨other, inner, same⟩ := seen_visit ⟨visit, here, start⟩
  exact ⟨other, mem_flatten.mpr ⟨segment, among, inner⟩, same⟩

/-- A sequence whose inner starts cannot be entered does not cross a bundle boundary: the
boundary would have to be the start of an instruction. -/
theorem one_bundle (code : CodeRegion r segments) (inv : RunInv r (segments.flatMap (visitsFrom [])) state)
    (blocks : ∀ a, inRegion r a = true → a % r.alignment = 0 → Possible r state a)
    (first : andVisit ∈ segments.flatten)
    (second : midVisit ∈ segments.flatten) (third : jump ∈ segments.flatten)
    (inside : inRegion r andVisit.inst.vpc = true) (adjacent : andVisit.inst.limit = midVisit.inst.vpc)
    (adjacent' : midVisit.inst.limit = jump.inst.vpc) (no_middle : ¬ Possible r state midVisit.inst.vpc)
    (no_jump : ¬ Possible r state jump.inst.vpc) :
    andVisit.inst.vpc / r.alignment = (jump.inst.limit - 1) / r.alignment := by
  have positive : 0 < r.alignment := by rcases r.bundles with h | h <;> omega
  obtain ⟨and_proper, -⟩ := code.proper _ first
  obtain ⟨mid_proper, -⟩ := code.proper _ second
  obtain ⟨jump_proper, jump_within⟩ := code.proper _ third
  have inside := inRegion_iff.mp inside
  have order : andVisit.inst.vpc ≤ jump.inst.limit - 1 := by
    unfold NaClInstState.limit at *
    omega
  by_contra crossed
  have below := Nat.lt_of_le_of_ne (Nat.div_le_div_right order) crossed
  -- The first boundary above the start of the mask.
  obtain ⟨boundary, whole, above, upto⟩ : ∃ b, b % r.alignment = 0 ∧ andVisit.inst.vpc < b ∧
      b ≤ jump.inst.limit - 1 := by
    refine ⟨(andVisit.inst.vpc / r.alignment + 1) * r.alignment, Nat.mul_mod_left _ _, ?_, ?_⟩
    · rw [Nat.mul_comm]
      exact Nat.lt_mul_div_succ _ positive
    · exact (Nat.le_div_iff_mul_le positive).mp below
  have possible := blocks boundary (inRegion_iff.mpr (by omega)) whole
  obtain ⟨visit, member, start⟩ := possible_start inv possible
  have past_and := not_inside code first member (by omega)
  have at_mid : midVisit.inst.vpc ≠ visit.inst.vpc := by
    intro same
    rw [same, start] at no_middle
    contradiction
  have past_mid := not_inside code second member (by omega)
  have at_jump : jump.inst.vpc ≠ visit.inst.vpc := by
    intro same
    rw [same, start] at no_jump
    contradiction
  have past_jump := not_inside code third member (by omega)
  unfold NaClInstState.limit at *
  omega

theorem chain_adjacent (chain : (before ++ andVisit :: midVisit :: jump :: after).IsChain
      fun a b => a.inst.limit = b.inst.vpc) :
    andVisit.inst.limit = midVisit.inst.vpc ∧ midVisit.inst.limit = jump.inst.vpc := by
  have tail := chain.right_of_append
  rw [isChain_cons_cons, isChain_cons_cons] at tail
  exact ⟨tail.1, tail.2.1⟩

theorem sealed_sequence (code : CodeRegion r segments) (inv : RunInv r (segments.flatMap (visitsFrom [])) state)
    (blocks : ∀ a, inRegion r a = true → a % r.alignment = 0 → Possible r state a) {reg : NaClOpKind}
    (member : segment ∈ segments) (split : segment = before ++ visit :: after)
    (closed : Sealed r ⟨visit.inst, (before.map Visit.inst).reverse⟩ state reg) :
    ∃ start andInst middle, before.map Visit.inst = start ++ [andInst, middle] ∧ MaskedBy r andInst middle reg ∧
      andInst.vpc / r.alignment = (visit.inst.limit - 1) / r.alignment ∧
      ¬ Possible r state middle.vpc ∧ ¬ Possible r state visit.inst.vpc := by
  obtain ⟨andInst, middle, two, one, masked, no_middle, no_jump⟩ := closed
  obtain ⟨rest, past⟩ := lookback_two two one
  have insts : before.map Visit.inst = rest.reverse ++ [andInst, middle] := by
    have := congrArg List.reverse past
    simpa using this
  obtain ⟨start, pair, rfl, -, both⟩ := map_eq_append_iff.mp insts
  obtain ⟨andVisit, single, rfl, rfl, last⟩ := map_eq_cons_iff.mp both
  obtain ⟨midVisit, nothing, rfl, rfl, none⟩ := map_eq_cons_iff.mp last
  obtain rfl := map_eq_nil_iff.mp none
  refine ⟨rest.reverse, andVisit.inst, midVisit.inst, insts, masked, ?_, no_middle, no_jump⟩
  have again : segment = start ++ andVisit :: midVisit :: visit :: after := by
    rw [split]
    simp
  have known : ∀ v ∈ segment, v ∈ segments.flatten := fun v among =>
    mem_flatten.mpr ⟨segment, member, among⟩
  obtain ⟨adjacent, adjacent'⟩ := chain_adjacent (again ▸ code.contiguous segment member)
  have inside := (inv.checked _ (visit_mem member again)).inside
  exact one_bundle code inv blocks (known _ (by simp [again])) (known _ (by simp [again]))
    (known _ (by simp [again])) inside adjacent adjacent' no_middle no_jump

end Safety

/-- When the jump validator and its final comparison report no error, the jumps are safe. -/
theorem validated_jumps_are_safe {r : Region} {segments : List (List Visit)}
    (code : CodeRegion r segments) {fuel : Nat} {state : ValidatorState}
    (ran : validateJumps r fuel segments = some state) (ok : state.validatesOk = true) :
    JumpSafe r segments state := by
  simp only [validateJumps, Option.bind_eq_bind, Option.bind_eq_some_iff] at ran
  obtain ⟨swept, sweep, summary⟩ := ran
  obtain ⟨rfl, targets, -, blocks⟩ := summarize_ok summary ok
  have distinct : segments.flatten.Pairwise fun a b => a.inst.vpc ≠ b.inst.vpc := by
    refine code.apart.imp_of_mem ?_
    intro a b first second apart same
    have := (code.proper a first).1
    have := (code.proper b second).1
    unfold NaClInstState.limit at apart
    omega
  have inv := runInv_create.segments (fun _ member => absurd member List.not_mem_nil) distinct sweep ok
  rw [List.nil_append] at inv
  have checked : ∀ visit ∈ segments.flatten, ∃ past, InstChecked r ⟨visit.inst, past⟩ state := by
    intro visit member
    obtain ⟨segment, among, here⟩ := List.mem_flatten.mp member
    obtain ⟨before, after, split⟩ := List.append_of_mem here
    exact ⟨_, inv.checked _ (visit_mem among split)⟩
  constructor
  case compliant =>
    intro visit member i operand
    obtain ⟨past, inst⟩ := checked visit member
    exact (inst.operands i operand).compliant
  case targets =>
    rintro visit member t ⟨i, target, operand, constant, rfl, counted⟩
    obtain ⟨past, inst⟩ := checked visit member
    rcases (inst.operands i operand).explicit target constant counted with actual | outside
    · rw [if_pos actual.1]
      exact targets _ actual
    · rw [if_neg (by simp [outside.1])]
      exact outside.2
  case blocks => exact blocks
  case indirect =>
    rintro segment member before visit after split reg ⟨i, operand, register, rfl⟩
    have inst := inv.checked _ (visit_mem member split)
    exact sealed_sequence code inv blocks member split ((inst.operands i operand).indirect register)
  case marked =>
    intro segment member before visit after split
    exact inv.marks _ (visit_mem member split)
  case returns =>
    intro visit member call
    obtain ⟨past, inst⟩ := checked visit member
    have aligned : visit.inst.limit % 2 ^ 64 % r.alignment = 0 := inst.returns call
    have within := (code.proper visit member).2
    have small : visit.inst.limit < 2 ^ 64 := Nat.lt_of_le_of_lt within r.bounded
    rwa [Nat.mod_eq_of_lt small] at aligned

theorem sample_nonempty : 0x20000 < 0x2000a := by decide

theorem sample_bounded : 0x2000a < 2 ^ 64 := by decide

theorem sample_bundles : 32 = 16 ∨ 32 = 32 := by decide

def sampleRegion : Region where
  vbase := 0x20000
  vlimit := 0x2000a
  alignment := 32
  baseRegister := regR15
  quitAfterFirstError := false
  identityMask := false
  nonempty := sample_nonempty
  bounded := sample_bounded
  bundles := sample_bundles

def nodesOf (nodes : List NaClExp) : NaClExpVector :=
  ⟨nodes.length, fun i => nodes.getD i ⟨.undefinedExp, 0, 0⟩⟩

def sampleInst (vpc length : Nat) (name : NaClMnemonic) (opcode : BitVec 8)
    (nodes : List NaClExp) : Visit :=
  ⟨⟨vpc, length, fun _ => 0, 0, 4, ⟨name, opcode, []⟩, nodesOf nodes⟩, []⟩

/-- `and $0xe0, %eax; add %r15, %rax; jmp *%rax` and a jump back to the mask. -/
def maskedJump : List Visit :=
  [sampleInst 0x20000 3 .instAnd 0x83 [⟨.operandReference, 0, 0⟩, ⟨.exprRegister, 90, 3⟩,
      ⟨.operandReference, 1, 0⟩, ⟨.exprConstant, 0xe0, 2⟩],
    sampleInst 0x20003 3 .instAdd 0x01 [⟨.operandReference, 0, 0⟩, ⟨.exprRegister, 116, 3⟩,
      ⟨.operandReference, 1, 0⟩, ⟨.exprRegister, regR15, 2⟩],
    sampleInst 0x20006 2 .instJmp 0xff [⟨.operandReference, 0, 0⟩, ⟨.exprRegister, 116, 0x2002⟩],
    sampleInst 0x20008 2 .instJmp 0xeb [⟨.operandReference, 0, 0⟩, ⟨.exprConstant, 0x20000, 0x2002⟩]]

theorem maskedJump_region : CodeRegion sampleRegion [maskedJump] where
  proper := by decide
  contiguous := by
    intro segment member
    rw [mem_singleton.mp member]
    simp [maskedJump, sampleInst, NaClInstState.limit]
  apart := by simp [maskedJump, sampleInst, NaClInstState.limit]

theorem maskedJump_is_safe : ∃ state, validateJumps sampleRegion 3 [maskedJump] = some state ∧
    JumpSafe sampleRegion [maskedJump] state := by
  have accepted : (validateJumps sampleRegion 3 [maskedJump]).map ValidatorState.validatesOk =
      some true := by decide +kernel
  obtain ⟨state, ran, ok⟩ := Option.map_eq_some_iff.mp accepted
  exact ⟨state, ran, validated_jumps_are_safe maskedJump_region ran ok⟩

end Glopen.Ncval64

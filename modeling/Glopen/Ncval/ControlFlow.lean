import Glopen.Ncval.Soundness

/-! The final cross-check of the two tables, and what an accepted code segment guarantees. -/
namespace Glopen.Ncval

open Memory Nacl

theorem foldl_report_ok {test : NCValidatorState → Nat → Bool} (offsets : List Nat) {v : NCValidatorState}
    (ok : (offsets.foldl (fun v o => if test v o then statsSawFailure v else v) v).sawfailure = false) :
    offsets.foldl (fun v o => if test v o then statsSawFailure v else v) v = v ∧
      ∀ o ∈ offsets, test v o = false := by
  induction offsets generalizing v with
  | nil => exact ⟨rfl, nofun⟩
  | cons first rest ih =>
    rw [List.foldl_cons] at ok ⊢
    obtain ⟨same, clean⟩ := ih ok
    rw [same] at ok ⊢
    cases bad : test v first with
    | true =>
      rw [if_pos bad] at ok
      contradiction
    | false =>
      rw [if_neg (by simp [bad])] at clean ⊢
      refine ⟨rfl, ?_⟩
      intro o member
      rcases List.mem_cons.mp member with rfl | member
      · exact bad
      · exact clean o member

theorem ncValidateFinish_ok {v : NCValidatorState} (ok : (ncValidateFinish v).sawfailure = false) :
    v.sawfailure = false ∧
      (∀ o < v.iadrlimit - v.iadrbase, BitTable.get v.kttable o = true → BitTable.get v.vttable o = true) ∧
      (∀ o < v.iadrlimit - v.iadrbase, o % v.alignment.toNat = 0 → BitTable.get v.vttable o = true) := by
  unfold ncValidateFinish at ok
  simp only at ok
  obtain ⟨same, bundles⟩ := foldl_report_ok _ ok
  rw [same] at ok
  split at ok
  · contradiction
  rename_i aligned
  rw [if_neg aligned] at bundles
  obtain ⟨same, targets⟩ := foldl_report_ok _ ok
  rw [same] at ok bundles
  refine ⟨ok, ?_, ?_⟩
  · intro o inside noted
    have := targets o (List.mem_range.mpr inside)
    rw [noted] at this
    simpa using this
  · intro o inside multiple
    have listed : o ∈ addresses 0 (v.iadrlimit - v.iadrbase) v.alignment.toNat := by
      rw [mem_addresses v.alignment.pos]
      exact ⟨o / v.alignment.toNat, by
        have := Nat.div_add_mod o v.alignment.toNat
        omega, inside⟩
    simpa using bundles o listed

def TargetSafe (vbase size : Nat) (alignment : BundleSize) (insts : List NCDecoderState) (t : Nat) : Prop :=
  (vbase ≤ t ∧ t < vbase + size ∧ ∃ m ∈ insts, m.inst.vaddr = t ∧ m.opinfo.insttype ≠ .indirect) ∨
  (¬ (vbase ≤ t ∧ t < vbase + size) ∧ t % alignment.toNat = 0)

/-- The guarantees of the validator for the code in `[vbase, vbase + size)`. -/
structure ControlFlowSafe (tables : DecodeTables) (code : Mem) (vbase size : Nat)
    (alignment : BundleSize) (insts : List NCDecoderState) : Prop where
  sweep : Sweep tables code vbase 0 insts size
  inside : ∀ m ∈ insts, m.inst.vaddr = vbase + m.inst.maddr ∧ 0 < m.inst.length ∧
    m.inst.maddr + m.inst.length ≤ size
  disjoint : insts.Pairwise fun m n => m.inst.maddr + m.inst.length ≤ n.inst.maddr
  covers : ∀ x < size, ∃ m ∈ insts, m.inst.maddr ≤ x ∧ x < m.inst.maddr + m.inst.length
  bundles : ∀ a, vbase ≤ a → a < vbase + size → a % alignment.toNat = 0 →
    ∃ m ∈ insts, m.inst.vaddr = a ∧ m.opinfo.insttype ≠ .indirect
  direct : ∀ m ∈ insts, m.IsDirect → ∀ t, directTarget code m = some t →
    TargetSafe vbase size alignment insts t
  checked : ∀ before m after, insts = before ++ m :: after → InstOk code alignment before.getLast? m
  within : ∀ m ∈ insts, m.inst.vaddr / alignment.toNat =
    (m.inst.vaddr + m.inst.length - 1) / alignment.toNat

section Final

variable {tables : DecodeTables} {cpu : CPUFeatures} {code : Mem} {vbase size : Nat}
  {alignment : BundleSize} {insts : List NCDecoderState} {st : DecodeLoop}

theorem within_bundle (sweep : Sweep tables code vbase 0 insts size)
    (bundles : ∀ a, vbase ≤ a → a < vbase + size → a % alignment.toNat = 0 →
      ∃ m ∈ insts, m.inst.vaddr = a ∧ m.opinfo.insttype ≠ .indirect)
    {m : NCDecoderState} (member : m ∈ insts) :
    m.inst.vaddr / alignment.toNat = (m.inst.vaddr + m.inst.length - 1) / alignment.toNat := by
  obtain ⟨placed, -, upper⟩ := sweep.inside member
  have vaddr := placed.vaddr
  have bounds := placed.bounds
  have positive := alignment.pos
  refine Nat.le_antisymm (Nat.div_le_div_right (by omega)) (Nat.le_of_not_lt fun crosses => ?_)
  -- the first boundary after the start lies in the instruction
  have low := Nat.div_add_mod m.inst.vaddr alignment.toNat
  have high := Nat.div_mul_le_self (m.inst.vaddr + m.inst.length - 1) alignment.toNat
  have small := Nat.mod_lt m.inst.vaddr positive
  generalize start : (m.inst.vaddr / alignment.toNat + 1) * alignment.toNat = boundary
  have after : m.inst.vaddr < boundary := by
    rw [Nat.add_mul, Nat.one_mul, Nat.mul_comm] at start
    omega
  have before : boundary ≤ m.inst.vaddr + m.inst.length - 1 := by
    rw [← start]
    exact Nat.le_trans (Nat.mul_le_mul_right _ crosses) high
  obtain ⟨n, there, here, -⟩ := bundles boundary (by omega) (by omega)
    (by rw [← start]; exact Nat.mul_mod_left _ _)
  obtain ⟨placed', -, -⟩ := sweep.inside there
  have vaddr' := placed'.vaddr
  have bounds' := placed'.bounds
  have same : m = n := sweep.unique member there (x := n.inst.maddr) ⟨by omega, by omega⟩ ⟨by omega, by omega⟩
  rw [same] at after
  omega

theorem SweepInv.safe (inv : SweepInv tables code vbase size alignment insts size st)
    (base : vbase % alignment.toNat = 0) (targets : ∀ o < size, BitTable.get st.vstate.kttable o = true →
      BitTable.get st.vstate.vttable o = true)
    (bundles : ∀ o < size, o % alignment.toNat = 0 → BitTable.get st.vstate.vttable o = true) :
    ControlFlowSafe tables code vbase size alignment insts := by
  have recorded : ∀ o, BitTable.get st.vstate.vttable o = true →
      ∃ m ∈ insts, m.inst.vaddr = vbase + o ∧ m.opinfo.insttype ≠ .indirect := by
    intro o set
    obtain ⟨m, member, rfl, other⟩ := (inv.starts o).mp set
    exact ⟨m, member, (inv.sweep.inside member).1.vaddr, other⟩
  have heads : ∀ a, vbase ≤ a → a < vbase + size → a % alignment.toNat = 0 →
      ∃ m ∈ insts, m.inst.vaddr = a ∧ m.opinfo.insttype ≠ .indirect := by
    intro a lower upper aligned
    have offset : (a - vbase) % alignment.toNat = 0 :=
      Nat.sub_mod_eq_zero_of_mod_eq (by rw [aligned, base])
    obtain ⟨m, member, start, other⟩ := recorded _ (bundles (a - vbase) (by omega) offset)
    exact ⟨m, member, by omega, other⟩
  refine ⟨inv.sweep, ?_, inv.sweep.disjoint, ?_, heads, ?_, inv.checked, ?_⟩
  · intro m member
    obtain ⟨placed, -, upper⟩ := inv.sweep.inside member
    exact ⟨placed.vaddr, by have := placed.bounds; omega, upper⟩
  · intro x inside
    exact inv.sweep.covers (Nat.zero_le _) inside
  · intro m member direct t found
    rcases inv.targets m member direct t found with ⟨lower, upper, noted⟩ | outside
    · obtain ⟨n, there, start, other⟩ := recorded _ (targets _ (by omega) noted)
      exact Or.inl ⟨lower, upper, n, there, by omega, other⟩
    · exact Or.inr outside
  · exact fun m member => within_bundle inv.sweep heads member

theorem sweepInv_start (tables : DecodeTables) (code : Mem) (vbase size : Nat)
    (alignment : BundleSize) (v : NCValidatorState)
    (range : v.iadrbase = vbase ∧ v.iadrlimit = vbase + size ∧ v.alignment = alignment)
    (empty : v.vttable = BitTable.empty) : SweepInv tables code vbase size alignment [] 0
      ⟨code, putSlot (fun _ => freshSlot) 0 { freshSlot with vpc := vbase }, 0, kDecodeBufferSize, v⟩ where
  sweep := .nil 0
  inside := Nat.zero_le _
  ahead := fun _ _ => rfl
  behind := fun _ => Or.inl rfl
  slot := ⟨Nat.succ_pos _, by simp [kDecodeBufferSize]⟩
  vpc := by simp [putSlot]
  mpc := by simp [putSlot, freshSlot]
  nextbyte := by simp [putSlot, freshSlot]
  prev := by simp [previousInst, putSlot, freshSlot, kDecodeBufferSize]
  range := range
  starts := fun o => by simp [empty, BitTable.get_empty]
  targets := fun _ member => absurd member List.not_mem_nil
  checked := fun before m after split => by simp at split

/-- Code that the validator accepts is swept completely by instructions that keep to the
sandbox's rules of control flow. -/
theorem validated_code_is_safe (heap : Heap size) {fuel : Nat} {vbase : BitVec 32} {requested : Nat}
    (accepted : ncValidate tables cpu heap fuel code vbase requested = some 0) :
    ∃ alignment : BundleSize, alignment.toNat = requested ∧
      ∃ insts, ControlFlowSafe tables code vbase.toNat size alignment insts := by
  unfold ncValidate at accepted
  split at accepted
  · contradiction
  rename_i v init
  simp only [Option.bind_eq_bind, Option.bind_eq_some_iff] at accepted
  obtain ⟨⟨v', mem⟩, ran, finish⟩ := accepted
  have ok : (ncValidateFinish v').sawfailure = false := by
    cases failed : (ncValidateFinish v').sawfailure with
    | false => rfl
    | true => simp [failed] at finish
  obtain ⟨entry, targets, bundles⟩ := ncValidateFinish_ok ok
  unfold ncValidateInit at init
  split at init
  · contradiction
  rename_i order
  split at init
  · rename_i known
    split at init
    · contradiction
    rename_i base
    simp only at init
    split at init
    · rename_i allocated
      cases Option.some.inj init
      refine ⟨⟨requested, known⟩, rfl, ?_⟩
      rw [Bool.and_eq_true] at allocated
      have first := heap.calloc_fits _ _ allocated.1
      have fits := heap.calloc_fits _ _ allocated.2
      have small := vbase.isLt
      -- the end of the code does not wrap, or the range would be empty
      have limit : vbase.toNat + size < 2 ^ 32 := by
        refine Nat.lt_of_not_le fun wraps => order ?_
        rw [Nat.mod_eq_sub_mod wraps, Nat.mod_eq_of_lt (by omega)]
        omega
      rw [Nat.mod_eq_of_lt limit] at ran order fits
      unfold ncValidateSegment at ran
      split at ran
      · cases Option.some.inj ran
        contradiction
      split at ran
      · cases Option.some.inj ran
        contradiction
      simp only [ncDecodeSegment, Option.bind_eq_bind, Option.bind_eq_some_iff] at ran
      obtain ⟨final, loop, result⟩ := ran
      cases Option.some.inj result
      rw [Nat.mod_eq_of_lt limit] at loop
      have start := sweepInv_start tables code vbase.toNat size ⟨requested, known⟩
        (statsNewSegment ⟨vbase.toNat, vbase.toNat + size, ⟨requested, known⟩, BitTable.empty,
          BitTable.empty, 0, false⟩) ⟨rfl, rfl, rfl⟩ rfl
      obtain ⟨insts, inv⟩ := decodeLoop_sound
        (by simp only [Roomy, iatOffset] at fits ⊢; omega) limit start loop entry
      rw [inv.range.1, inv.range.2.1] at targets bundles
      rw [inv.range.2.2] at bundles
      refine ⟨insts, inv.safe ?_ (fun o inside => targets o (by omega)) (fun o inside => bundles o (by omega))⟩
      rw [← BundleSize.and_mask]
      exact Decidable.not_not.mp base
    · contradiction
  · contradiction

end Final

/-- Entries of the generated tables for `and $imm8`, `nop`, `jmp rel8` and group 5; the
remaining opcodes are marked illegal. -/
def sampleTables : DecodeTables :=
  let illegal : OpInfo := ⟨.illegal, false, .none, 0⟩
  { kPrefixTable := fun b =>
      if b = 0x2e then kPrefixSEGCS else if b = 0x3e then kPrefixSEGDS
      else if b = 0x65 then kPrefixSEGGS else if b = 0x66 then kPrefixDATA16
      else if b = 0x67 then kPrefixADDR16 else if b = 0xf0 then kPrefixLOCK
      else if b = 0xf2 then kPrefixREPNE else if b = 0xf3 then kPrefixREP else 0
    kDecode1ByteOp := fun b =>
      if b = 0x83 then ⟨.opinmrm, true, .fixed1, 1⟩
      else if b = 0x90 then ⟨.i386R, false, .none, 0⟩
      else if b = 0xeb then ⟨.jmp8, false, .fixed1, 0⟩
      else if b = 0xff then ⟨.opinmrm, true, .none, 5⟩
      else illegal
    kDecode0FXXOp := fun _ => illegal
    kDecode660FXXOp := fun _ => illegal
    kDecodeF20FXXOp := fun _ => illegal
    kDecodeF30FXXOp := fun _ => illegal
    kDecode0F0FOp := fun _ => illegal
    kDecode0F38Op := fun _ => illegal
    kDecode660F38Op := fun _ => illegal
    kDecodeF20F38Op := fun _ => illegal
    kDecode0F3AOp := fun _ => illegal
    kDecode660F3AOp := fun _ => illegal
    kDecodeModRMOp := fun group reg =>
      if group = 1 ∧ reg = 4 then ⟨.i386L, false, .none, 0⟩
      else if group = 5 ∧ (reg = 2 ∨ reg = 4) then ⟨.indirect, false, .none, 0⟩
      else illegal
    kDecodeX87Op := fun _ _ => illegal
    asserts := true }

def samplePentium : CPUFeatures :=
  ⟨true, true, true, true, true, true, true, true, true, true, true, true, true, true, true,
    true, true, true, true, true⟩

def sampleHeap : Heap 32 where
  calloc := fun used bytes => decide (32 + used + bytes ≤ 2 ^ 32)
  calloc_fits := fun _ _ granted => of_decide_eq_true granted

/-- `and $0xe0, %eax; jmp *%eax; jmp` to the start, then no-ops up to the end of the bundle. -/
def sampleCode : Mem := fun x =>
  ([0x83, 0xe0, 0xe0, 0xff, 0xe0, 0xeb, 0xf9][x]?).getD 0x90

theorem sampleCode_is_safe : ncValidate sampleTables samplePentium sampleHeap 33 sampleCode 0x20000 32 = some 0 ∧
    ∃ alignment : BundleSize, alignment.toNat = 32 ∧
      ∃ insts, ControlFlowSafe sampleTables sampleCode 0x20000 32 alignment insts := by
  have accepted : ncValidate sampleTables samplePentium sampleHeap 33 sampleCode 0x20000 32 =
      some 0 := by decide +kernel
  exact ⟨accepted, validated_code_is_safe sampleHeap accepted⟩

end Glopen.Ncval

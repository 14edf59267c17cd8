import Glopen.Arm.Soundness

/-! The guarantees for accepted ARM code, over all instructions of the sweep. -/
namespace Glopen.Arm

open Memory List
variable {σ : Type} {sink : ProblemSink σ} {sfi : SfiValidator} {segments : List CodeSegment}
  {segment : CodeSegment} {i : DecodedInstruction} {r : Register}

section Guarantees

variable {insts : List DecodedInstruction} {branches critical : AddressSet}

section

variable (code : CodeSegments sfi segments) (valid : Validated sfi segments branches critical)
  (member : segment ∈ segments) (sweep : Sweep sfi segment segment.startAddr insts)
include code valid member sweep

/-- A direct branch goes to a place in a segment that is not critical, or to an address out of
the segments that the code mask allows. -/
theorem Validated.relative_branch (hi : i ∈ insts) (relative : i.isRelativeBranch = true) :
    (addressContained i.branchTarget segments = true ∧ ¬ Critical sfi segments i.branchTarget) ∨
    (addressContained i.branchTarget segments = false ∧
      BitVec.ofNat 32 i.branchTarget &&& sfi.codeAddressMask = 0) := by
  have whole := code.whole segment member
  obtain ⟨lower, upper, word, decoded⟩ :=
    sweep.inside whole (Nat.le_add_right _ _) whole.word i hi
  have covers := valid.branches_cover
  have low := covers.low segment member
  have small := covers.small
  obtain ⟨base4, size4⟩ := covers.word
  obtain ⟨offset, inside⟩ := covers.offset member lower upper
  have noted := (valid.sweep member sweep).branch i hi relative (by rw [offset]; exact inside)
  rw [offset] at noted
  obtain ⟨found, listed, contained, fine⟩ := valid.checked ((i.addr - branches.base) / 4)
    (by rw [AddressSet.words, Nat.mod_eq_of_lt (by omega)]; omega) noted
  have same : (branches.base + 4 * ((i.addr - branches.base) / 4)) % 2 ^ 32 = i.addr := by
    rw [Nat.mod_eq_of_lt (by omega)]
    omega
  rw [same] at contained fine
  have here : segment.containsAddress i.addr = true := by
    simp only [CodeSegment.containsAddress, decide_eq_true_eq]
    exact ⟨lower, upper⟩
  rw [segment_unique code listed member contained here, ← decoded] at fine
  simp only [branchProblem] at fine
  split at fine
  · rename_i target_inside
    split at fine
    · contradiction
    · rename_i free
      exact Or.inl ⟨target_inside, fun crit => free (valid.critical_contains code target_inside crit)⟩
  · rename_i target_outside
    split at fine
    · rename_i masked
      exact Or.inr ⟨by simpa using target_outside, masked⟩
    · contradiction

theorem Validated.predecessor {before after : List DecodedInstruction} {second : DecodedInstruction}
    (split : insts = before ++ second :: after) {guarded : DecodedInstruction → Prop}
    (checked : ∀ first, PairChecked sfi first second critical →
      guarded first ∧ KeptTogether sfi first second critical)
    (not_initial : ¬ guarded initialPred) :
    ∃ first, before.getLast? = some first ∧ first.addr + 4 = second.addr ∧
      sfi.bundleForAddress first.addr = sfi.bundleForAddress second.addr ∧ guarded first := by
  have passed := valid.sweep member sweep
  have whole := code.whole segment member
  rcases eq_nil_or_concat before with rfl | ⟨front, first, rfl⟩
  · have judged := passed.pairs [] initialPred second after (by rw [split]; rfl)
    exact absurd (checked initialPred (pairChecked_of_judged judged)).1 not_initial
  · rw [concat_eq_append, append_assoc, singleton_append] at split
    obtain ⟨holds, together, -⟩ := checked first (passed.pair split)
    exact ⟨first, by simp, sweep.adjacent whole (Nat.le_add_right _ _) whole.word split together,
      together, holds⟩

end

structure SfiSafe (sfi : SfiValidator) (segments : List CodeSegment) : Prop where
  swept : ∀ segment ∈ segments, ∃ insts, Sweep sfi segment segment.startAddr insts
  relative : ∀ segment ∈ segments, ∀ insts, Sweep sfi segment segment.startAddr insts →
    ∀ i ∈ insts, i.isRelativeBranch = true →
      (addressContained i.branchTarget segments = true ∧ ¬ Critical sfi segments i.branchTarget) ∨
      (addressContained i.branchTarget segments = false ∧
        BitVec.ofNat 32 i.branchTarget &&& sfi.codeAddressMask = 0)
  store : ∀ segment ∈ segments, ∀ insts, Sweep sfi segment segment.startAddr insts →
    ∀ before i after, insts = before ++ i :: after → IsStore sfi i →
      ∃ first, before.getLast? = some first ∧ first.addr + 4 = i.addr ∧
        sfi.bundleForAddress first.addr = sfi.bundleForAddress i.addr ∧ StoreGuarded sfi first i
  indirect : ∀ segment ∈ segments, ∀ insts, Sweep sfi segment segment.startAddr insts →
    ∀ before i after, insts = before ++ i :: after → IsIndirectBranch i →
      ∃ first, before.getLast? = some first ∧ first.addr + 4 = i.addr ∧
        sfi.bundleForAddress first.addr = sfi.bundleForAddress i.addr ∧ BranchGuarded sfi first i
  single : ∀ segment ∈ segments, ∀ insts, Sweep sfi segment segment.startAddr insts →
    ∀ i ∈ insts, i.safety = .mayBeSafe ∧ ∀ pattern ∈ oneInstPatterns, pattern.judge sfi i ≠ .patternUnsafe

/-- Accepted segments of whole bundles keep to the rules for stores and branches. -/
theorem validated_segments_are_safe (code : CodeSegments sfi segments) {fuel : Nat} {out out' : σ}
    (accepted : validate sink sfi fuel segments out = some (true, out')) : SfiSafe sfi segments := by
  obtain ⟨branches, critical, valid⟩ := validate_ok code accepted
  refine ⟨?_, ?_, ?_, ?_, ?_⟩
  · intro segment member
    obtain ⟨insts, sweep, -⟩ := valid.passed segment member
    exact ⟨insts, sweep⟩
  · intro segment member insts sweep i hi relative
    exact valid.relative_branch code member sweep hi relative
  · intro segment member insts sweep before i after split store
    exact valid.predecessor code member sweep split (fun first checked => checked.store store)
      initialPred_guards_nothing.1
  · intro segment member insts sweep before i after split branch
    exact valid.predecessor code member sweep split (fun first checked => checked.branch branch)
      initialPred_guards_nothing.2
  · intro segment member insts sweep i hi
    exact (valid.sweep member sweep).safe i hi

end Guarantees

theorem four_bits (n : Nat) : n % 16 < 32 := by omega

/-- The register in the four bits from `low` on. -/
def regField (inst : Word) (low : Nat) : Register := ⟨(inst >>> low).toNat % 16, four_bits _⟩

/-- `get_modified_immediate`. -/
def modifiedImmediate (inst : Word) : BitVec 32 :=
  (inst &&& 0xff).rotateRight ((inst >>> 8).toNat % 16 * 2)

/-- The class `DataProc` of inst_classes.cc. -/
def dataProc : ClassDecoder where
  safety := fun i => if (regField i 12) = kRegisterPc then .forbiddenOperands else .mayBeSafe
  defs := fun i => (regField i 12).bitmask |||
    (if i.getLsbD 20 then kRegisterFlags else kRegisterNone).bitmask
  immediateAddressingDefs := fun _ => kRegisterNone.bitmask
  baseAddressRegister := fun _ => kRegisterNone
  branchTargetRegister := fun _ => kRegisterNone
  isRelativeBranch := fun _ => false
  branchTargetOffset := fun _ => 0
  isLiteralPoolHead := fun _ => false
  clearsBits := fun _ _ => false
  setsZIfBitsClear := fun _ _ _ => false

/-- The class `ImmediateBic`, which may write r15. -/
def immediateBic : ClassDecoder :=
  { dataProc with
    safety := fun _ => .mayBeSafe
    clearsBits := fun i mask => modifiedImmediate i &&& mask == mask }

def storeImmediate : ClassDecoder :=
  let writeback := fun i : Word =>
    (if !i.getLsbD 24 || i.getLsbD 21 then regField i 16 else kRegisterNone).bitmask
  { dataProc with
    safety := fun i =>
      if RegisterList.has (writeback i) kRegisterPc then .forbiddenOperands else .mayBeSafe
    defs := writeback
    immediateAddressingDefs := writeback
    baseAddressRegister := fun i => regField i 16 }

/-- The class `Branch`. -/
def relativeBranch : ClassDecoder :=
  { dataProc with
    safety := fun _ => .mayBeSafe
    defs := fun i => kRegisterPc.bitmask |||
      (if i.getLsbD 24 then kRegisterLink else kRegisterNone).bitmask
    isRelativeBranch := fun _ => true
    branchTargetOffset := fun i => (i <<< 8).sshiftRight 6 + 8 }

/-- The decoder on register moves, `bic` and `str` with an immediate, and branches. -/
def sampleDecode (inst : Word) : ClassDecoder :=
  if inst >>> 20 = 0xe1a then dataProc
  else if inst >>> 20 = 0xe3c then immediateBic
  else if inst >>> 20 = 0xe58 then storeImmediate
  else if inst >>> 24 = 0xea then relativeBranch
  else forbidden

theorem sample_words : 0 < 16 ∧ 16 % 4 = 0 := by decide

/-- The configuration of `NCValidateSegment`. -/
def sampleSfi : SfiValidator where
  bytesPerBundle := 16
  codeRegionBytes := 0x40000000
  dataRegionBytes := 0x40000000
  readOnlyRegisters := kRegisterThread.bitmask
  dataAddressRegisters := kRegisterStack.bitmask
  decode := sampleDecode
  whole := sample_words

/-- `EarlyExitProblemSink`. -/
def earlyExit : ProblemSink Bool where
  reportProblem := fun _ _ => true
  shouldContinue := fun problems => !problems

def bundleOf (words : List Word) : Mem := fun x => wordByte ((words[x / 4]?).getD 0) (x % 4)

theorem sample_fits : 0x20000 + 16 < 2 ^ 32 := by decide

/-- `nop; bic r1, r1, #0xc0000000; str r2, [r1]; b` to the first instruction. -/
def guardedStore : CodeSegment where
  base := bundleOf [0xe1a00000, 0xe3c11103, 0xe5812000, 0xeafffffb]
  startAddr := 0x20000
  size := 16
  fits := sample_fits

theorem guardedStore_is_safe : validate earlyExit sampleSfi 10 [guardedStore] false = some (true, false) ∧
      SfiSafe sampleSfi [guardedStore] := by
  have accepted : validate earlyExit sampleSfi 10 [guardedStore] false = some (true, false) := by
    decide +kernel
  refine ⟨accepted, validated_segments_are_safe ⟨?_, List.pairwise_singleton _ _⟩ accepted⟩
  intro segment member
  rw [List.mem_singleton.mp member]
  exact ⟨by decide, by decide⟩

/-! Updates of the data-address registers. The pattern for them looks at an instruction and its
successor, so it never sees the last instruction of a segment. -/

section Registers

theorem has_iff (l : RegisterList) (r : Register) :
    l.has r = true ↔ r ≠ kRegisterNone ∧ l.getLsbD r.val = true := by
  unfold RegisterList.has Register.bitmask
  split
  · rename_i none
    simp [none]
  · rename_i present
    have bit := BitTable.get_eq_getLsbD (w := 32) (by decide) (fun _ => l) r.val
    rw [Nat.mod_eq_of_lt r.isLt] at bit
    rw [← bit, BitTable.get, BitTable.mask, Nat.mod_eq_of_lt r.isLt]
    exact ⟨fun set => ⟨present, set⟩, fun set => set.2⟩

theorem has_and (l other : RegisterList) (r : Register) :
    RegisterList.has (l &&& other) r = true ↔ l.has r = true ∧ other.has r = true := by
  rw [has_iff, has_iff, has_iff, BitVec.getLsbD_and, Bool.and_eq_true]
  constructor
  · rintro ⟨present, left, right⟩
    exact ⟨⟨present, left⟩, present, right⟩
  · rintro ⟨⟨present, left⟩, -, right⟩
    exact ⟨present, left, right⟩

variable {l other : RegisterList}

theorem containsAny_of_has (left : l.has r = true)
    (right : other.has r = true) : l.containsAny other = true := by
  have both := (has_and l other r).mpr ⟨left, right⟩
  rw [RegisterList.containsAny, bne_iff_ne]
  intro zero
  rw [zero, has_iff] at both
  simp at both

theorem has_of_containsAll
    (all : l.containsAll other = true) (member : other.has r = true) : l.has r = true := by
  rw [RegisterList.containsAll, beq_iff_eq] at all
  rw [← all] at member
  exact ((has_and l other r).mp member).1

end Registers

def Changes (sfi : SfiValidator) (i : DecodedInstruction) (r : Register) : Prop :=
  sfi.isDataAddressRegister r = true ∧ i.defs.has r = true ∧ i.immediateAddressingDefs.has r = false

/-- `next` masks the register right after `i`, in the same bundle and whenever `i` executes. -/
structure MaskedBy (sfi : SfiValidator) (i next : DecodedInstruction) (r : Register) : Prop where
  adjacent : i.addr + 4 = next.addr
  together : sfi.bundleForAddress i.addr = sfi.bundleForAddress next.addr
  defines : next.defs.has r = true
  masks : next.clearsBits sfi.dataAddressMask = true
  follows : next.alwaysFollows i = true

def UpdatesMasked (sfi : SfiValidator) (segments : List CodeSegment) : Prop :=
  ∀ segment ∈ segments, ∀ insts, Sweep sfi segment segment.startAddr insts →
    ∀ before i after, insts = before ++ i :: after → ∀ r, Changes sfi i r →
      i.clearsBits sfi.dataAddressMask = true ∨ ∃ next, after.head? = some next ∧ MaskedBy sfi i next r

def LastMasked (sfi : SfiValidator) (segments : List CodeSegment) : Prop :=
  ∀ segment ∈ segments, ∀ insts, Sweep sfi segment segment.startAddr insts →
    ∀ last, insts.getLast? = some last → ∀ r, Changes sfi last r →
      last.clearsBits sfi.dataAddressMask = true

theorem Changes.isUpdate (changes : Changes sfi i r)
    (unmasked : i.clearsBits sfi.dataAddressMask = false) : IsUpdate sfi i := by
  obtain ⟨data, defined, no_writeback⟩ := changes
  refine ⟨containsAny_of_has defined data, unmasked, fun same => ?_⟩
  have both := (has_and i.defs sfi.dataAddressRegisters r).mpr ⟨defined, data⟩
  rw [← same, has_and, no_writeback] at both
  exact absurd both.1 (by decide)

/-- Three no-ops, then `mov sp, r0` in the last slot. -/
def movesStackLast : CodeSegment where
  base := bundleOf [0xe1a00000, 0xe1a00000, 0xe1a00000, 0xe1a0d000]
  startAddr := 0x20000
  size := 16
  fits := sample_fits

theorem single_code (whole : WholeBundles sfi segment) : CodeSegments sfi [segment] :=
  ⟨fun other member => by rw [mem_singleton.mp member]; exact whole, pairwise_singleton _ _⟩

theorem sweep_words (sfi : SfiValidator) (segment : CodeSegment) {n : Nat}
    (size : segment.size = 4 * n) (none : ∀ k < n, isPoolHead sfi
      (sfi.decodeAt segment (segment.startAddr + 4 * k)) = false) :
    ∀ m k, k + m = n → Sweep sfi segment (segment.startAddr + 4 * k)
      ((List.range' k m).map fun k => sfi.decodeAt segment (segment.startAddr + 4 * k)) := by
  have fits := segment.fits
  intro m
  induction m with
  | zero =>
    intro k last
    have stop : segment.startAddr + 4 * k = segment.endAddr := by
      simp only [CodeSegment.endAddr]
      omega
    rw [stop]
    exact .nil
  | succ m ih =>
    intro k some
    have more : segment.startAddr + 4 * k ≠ segment.endAddr := by
      simp only [CodeSegment.endAddr]
      omega
    have next : nextVa sfi (sfi.decodeAt segment (segment.startAddr + 4 * k)) =
        segment.startAddr + 4 * (k + 1) := by
      rw [nextVa, none k (by omega), if_neg (by decide)]
      exact Nat.mod_eq_of_lt (by simp only [SfiValidator.decodeAt]; omega)
    exact .cons more (next ▸ ih (k + 1) (by omega))

end Glopen.Arm

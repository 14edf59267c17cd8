import Glopen.Arm.Branches

/-! What an accepted list of ARM code segments guarantees: guarded stores and branches, and
updates of the data-address registers. -/
namespace Glopen.Arm

open Memory List
variable {critical : AddressSet}

section Rules

variable (sfi : SfiValidator) (first second i : DecodedInstruction)

def IsStore : Prop :=
  i.baseAddressRegister ≠ kRegisterNone ∧ sfi.isDataAddressRegister i.baseAddressRegister = false

def IsIndirectBranch : Prop := i.branchTargetRegister ≠ kRegisterNone

/-- The base of the store is masked by `first`, or the store depends on a test in `first`. -/
def StoreGuarded : Prop :=
  (first.defines second.baseAddressRegister = true ∧
    first.clearsBits sfi.dataAddressMask = true ∧ first.alwaysPrecedes second = true) ∨
  (first.setsZIfBitsClear second.baseAddressRegister sfi.dataAddressMask = true ∧
    second.isConditionalOn first = true)

/-- The target of the branch is masked by `first`. -/
def BranchGuarded : Prop :=
  first.defines second.branchTargetRegister = true ∧
    first.clearsBits sfi.codeAddressMask = true ∧ first.alwaysPrecedes second = true

/-- `second` masks the data-address registers that `first` has changed. -/
def UpdateGuarded : Prop :=
  second.definesAll (first.defs &&& sfi.dataAddressRegisters) = true ∧
    second.clearsBits sfi.dataAddressMask = true ∧ second.alwaysFollows first = true

def IsUpdate : Prop :=
  i.definesAny sfi.dataAddressRegisters = true ∧ i.clearsBits sfi.dataAddressMask = false ∧
    i.immediateAddressingDefs &&& sfi.dataAddressRegisters ≠ i.defs &&& sfi.dataAddressRegisters

def GuardedPair : Prop :=
  (IsStore sfi second ∧ StoreGuarded sfi first second) ∨
    (IsIndirectBranch second ∧ BranchGuarded sfi first second) ∨
    (IsUpdate sfi first ∧ UpdateGuarded sfi first second)

variable {sfi first second}

def Verdict (verdict : PatternMatch) (concerned guarded : Prop) : Prop :=
  verdict = .noMatch ∧ ¬ concerned ∨ verdict = .patternSafe ∧ concerned ∧ guarded ∨
    verdict = .patternUnsafe

variable (sfi first second)

theorem storeMask_verdict : Verdict (checkStoreMask.judge sfi first second)
    (IsStore sfi second) (StoreGuarded sfi first second) := by
  simp only [checkStoreMask]
  split
  · rename_i none
    refine .inl ⟨rfl, ?_⟩
    rintro ⟨present, other⟩
    rcases none with h | h
    · exact present h
    · rw [other] at h
      contradiction
  rename_i store
  have isStore : IsStore sfi second := by
    simp only [not_or, Bool.not_eq_true] at store
    exact store
  split
  · rename_i masked
    simp only [Bool.and_eq_true] at masked
    exact .inr (.inl ⟨rfl, isStore, .inl ⟨masked.1.1, masked.1.2, masked.2⟩⟩)
  split
  · rename_i tested
    simp only [Bool.and_eq_true] at tested
    exact .inr (.inl ⟨rfl, isStore, .inr tested⟩)
  · exact .inr (.inr rfl)

theorem branchMask_verdict : Verdict (checkBranchMask.judge sfi first second)
    (IsIndirectBranch second) (BranchGuarded sfi first second) := by
  simp only [checkBranchMask]
  split
  · rename_i none
    exact .inl ⟨rfl, fun branch => branch none⟩
  rename_i branch
  split
  · rename_i masked
    simp only [Bool.and_eq_true] at masked
    exact .inr (.inl ⟨rfl, branch, masked.1.1, masked.1.2, masked.2⟩)
  · exact .inr (.inr rfl)

theorem registerUpdate_verdict : Verdict (checkDataRegisterUpdate.judge sfi first second)
    (IsUpdate sfi first) (UpdateGuarded sfi first second) := by
  simp only [checkDataRegisterUpdate]
  split
  · rename_i none
    refine .inl ⟨rfl, fun update => ?_⟩
    rw [update.1] at none
    contradiction
  rename_i any
  split
  · rename_i masks
    refine .inl ⟨rfl, fun update => ?_⟩
    rw [update.2.1] at masks
    contradiction
  rename_i unmasked
  split
  · rename_i writeback
    exact .inl ⟨rfl, fun update => update.2.2 writeback⟩
  rename_i other
  have update : IsUpdate sfi first := ⟨by simpa using any, by simpa using unmasked, other⟩
  split
  · rename_i masked
    simp only [Bool.and_eq_true] at masked
    exact .inr (.inl ⟨rfl, update, masked.1.1, masked.1.2, masked.2⟩)
  · exact .inr (.inr rfl)

variable {sfi first second}

def KeptTogether (sfi : SfiValidator) (first second : DecodedInstruction) (critical : AddressSet) :
    Prop :=
  sfi.bundleForAddress first.addr = sfi.bundleForAddress second.addr ∧ Noted critical second.addr

theorem Judged.guarded {pattern : TwoInstPattern}
    {concerned guarded : Prop} (judged : Judged sfi first second critical pattern)
    (verdict : Verdict (pattern.judge sfi first second) concerned guarded) (is : concerned) :
    guarded ∧ KeptTogether sfi first second critical := by
  rcases verdict with ⟨-, not⟩ | ⟨safe, -, holds⟩ | unsafe_
  · exact absurd is not
  · exact ⟨holds, judged.together safe, judged.noted safe⟩
  · exact absurd unsafe_ judged.accepted

structure PairChecked (sfi : SfiValidator) (first second : DecodedInstruction)
    (critical : AddressSet) : Prop where
  store : IsStore sfi second → StoreGuarded sfi first second ∧ KeptTogether sfi first second critical
  branch : IsIndirectBranch second →
    BranchGuarded sfi first second ∧ KeptTogether sfi first second critical
  update : IsUpdate sfi first → UpdateGuarded sfi first second ∧ KeptTogether sfi first second critical

theorem pairChecked_of_judged (judged : ∀ pattern ∈ twoInstPatterns, Judged sfi first second critical pattern) :
    PairChecked sfi first second critical where
  store := (judged checkStoreMask (by simp [twoInstPatterns])).guarded (storeMask_verdict sfi first second)
  branch := (judged checkBranchMask (by simp [twoInstPatterns])).guarded (branchMask_verdict sfi first second)
  update := (judged checkDataRegisterUpdate (by simp [twoInstPatterns])).guarded
    (registerUpdate_verdict sfi first second)

theorem PairChecked.guarded (checked : PairChecked sfi first second critical)
    (pair : GuardedPair sfi first second) : KeptTogether sfi first second critical := by
  rcases pair with ⟨store, -⟩ | ⟨branch, -⟩ | ⟨update, -⟩
  · exact (checked.store store).2
  · exact (checked.branch branch).2
  · exact (checked.update update).2

theorem initialPred_guards_nothing :
    ¬ StoreGuarded sfi initialPred second ∧ ¬ BranchGuarded sfi initialPred second := by
  refine ⟨?_, ?_⟩
  · rintro (⟨-, clears, -⟩ | ⟨tests, -⟩)
    · cases clears
    · cases tests
  · rintro ⟨-, clears, -⟩
    cases clears

end Rules

structure CodeSegments (sfi : SfiValidator) (segments : List CodeSegment) : Prop where
  whole : ∀ segment ∈ segments, WholeBundles sfi segment
  sorted : segments.Pairwise fun s t => s.endAddr ≤ t.startAddr

/-- An address that is not safe to jump to: in the second half of a guarded pair or in a literal
pool. -/
def Critical (sfi : SfiValidator) (segments : List CodeSegment) (a : Nat) : Prop :=
  ∃ segment ∈ segments, ∃ insts, Sweep sfi segment segment.startAddr insts ∧
    ((∃ before first second after, insts = before ++ first :: second :: after ∧
        GuardedPair sfi first second ∧ second.addr ≤ a ∧ a < second.addr + 4) ∨
      ∃ head ∈ insts, isPoolHead sfi head = true ∧ head.addr ≤ a ∧ a < head.addr + sfi.bytesPerBundle)

section Accepted

variable {σ : Type} {sink : ProblemSink σ} {sfi : SfiValidator} {segments : List CodeSegment}
  {segment : CodeSegment} {insts : List DecodedInstruction}

/-- The sets cover the segments from `base` on. -/
structure Covers (segments : List CodeSegment) (s : AddressSet) : Prop where
  low : ∀ segment ∈ segments, s.base ≤ segment.startAddr
  high : ∀ segment ∈ segments, segment.endAddr ≤ s.base + s.size
  small : s.base + s.size < 2 ^ 32
  word : s.base % 4 = 0 ∧ s.size % 4 = 0

variable {a : Nat} {first last : CodeSegment}

theorem Covers.offset {s : AddressSet} (covers : Covers segments s) (member : segment ∈ segments)
    (lower : segment.startAddr ≤ a) (upper : a < segment.endAddr) :
    s.offset a = a - s.base ∧ a - s.base < s.size := by
  have low := covers.low segment member
  have high := covers.high segment member
  have small := covers.small
  refine ⟨?_, by omega⟩
  rw [AddressSet.offset, show a + (2 ^ 32 - s.base) = a - s.base + 2 ^ 32 by omega,
    Nat.add_mod_right, Nat.mod_eq_of_lt (by omega)]

theorem segment_unique (code : CodeSegments sfi segments) {s t : CodeSegment} (hs : s ∈ segments)
    (ht : t ∈ segments) (ins : s.containsAddress a = true) (int : t.containsAddress a = true) : s = t := by
  have sorted := code.sorted
  simp only [CodeSegment.containsAddress, decide_eq_true_eq] at ins int
  clear code
  induction segments with
  | nil => cases hs
  | cons first rest ih =>
    obtain ⟨ahead, sorted⟩ := pairwise_cons.mp sorted
    rcases mem_cons.mp hs with rfl | srest <;> rcases mem_cons.mp ht with rfl | trest
    · rfl
    · have := ahead t trest
      omega
    · have := ahead s srest
      omega
    · exact ih srest trest sorted

structure Validated (sfi : SfiValidator) (segments : List CodeSegment)
    (branches critical : AddressSet) : Prop where
  branches_cover : Covers segments branches
  critical_cover : Covers segments critical
  passed : ∀ segment ∈ segments, ∃ insts, Sweep sfi segment segment.startAddr insts ∧
    Passed sfi initialPred insts branches critical
  checked : ∀ p < 32 * branches.words, BitTable.get branches.bits p = true →
    BranchChecked sfi segments branches critical p

theorem range_bounds (sorted : segments.Pairwise fun s t => s.endAddr ≤ t.startAddr)
    (head : segments.head? = some first) (tail : segments.getLast? = some last)
    (s : AddressSet) (base : s.base = first.startAddr)
    (size : s.size = (last.endAddr + (2 ^ 32 - first.startAddr)) % 2 ^ 32) :
    (∀ t ∈ segments, s.base ≤ t.startAddr ∧ t.endAddr ≤ s.base + s.size) ∧ s.base + s.size = last.endAddr := by
  have bounds : ∀ t ∈ segments, first.startAddr ≤ t.startAddr := by
    intro t member
    cases segments with
    | nil => cases member
    | cons one rest =>
      cases head
      rcases mem_cons.mp member with rfl | member
      · exact Nat.le_refl _
      · have := (pairwise_cons.mp sorted).1 t member
        simp only [CodeSegment.endAddr] at this
        omega
  have ends : ∀ t ∈ segments, t.endAddr ≤ last.endAddr := by
    intro t member
    obtain ⟨front, same⟩ := List.getLast?_eq_some_iff.mp tail
    rw [same, pairwise_append] at sorted
    rw [same] at member
    rcases mem_append.mp member with before | at_end
    · have := sorted.2.2 t before last (by simp)
      simp only [CodeSegment.endAddr] at this ⊢
      omega
    · exact Nat.le_of_eq (congrArg CodeSegment.endAddr (mem_singleton.mp at_end))
  have fits : last.endAddr < 2 ^ 32 := last.fits
  have order := ends first (List.mem_of_head? head)
  have total : s.size = last.endAddr - first.startAddr := by
    simp only [CodeSegment.endAddr] at order
    rw [size, show last.endAddr + (2 ^ 32 - first.startAddr) =
      last.endAddr - first.startAddr + 2 ^ 32 by simp only [CodeSegment.endAddr] at *; omega,
      Nat.add_mod_right, Nat.mod_eq_of_lt (by omega)]
  have whole : s.base + s.size = last.endAddr := by
    simp only [CodeSegment.endAddr] at order total ⊢
    omega
  refine ⟨fun t member => ⟨base ▸ bounds t member, ?_⟩, whole⟩
  rw [whole]
  exact ends t member

theorem covers_range (code : CodeSegments sfi segments)
    (head : segments.head? = some first) (tail : segments.getLast? = some last) (s : AddressSet)
    (base : s.base = first.startAddr) (size : s.size = (last.endAddr + (2 ^ 32 - first.startAddr)) % 2 ^ 32) :
    Covers segments s := by
  obtain ⟨bounds, whole⟩ := range_bounds code.sorted head tail s base size
  have fits : last.endAddr < 2 ^ 32 := last.fits
  have start4 := (code.whole first (List.mem_of_head? head)).word
  have stop4 := (code.whole last (List.mem_of_getLast? tail)).word_stop
  exact ⟨fun t member => (bounds t member).1, fun t member => (bounds t member).2, by omega, by omega, by omega⟩

theorem validate_ok (code : CodeSegments sfi segments) {fuel : Nat} {out out' : σ}
    (accepted : validate sink sfi fuel segments out = some (true, out')) :
    ∃ branches critical, Validated sfi segments branches critical := by
  simp only [validate, Option.bind_eq_bind, Option.bind_eq_some_iff] at accepted
  obtain ⟨first, head, last, tail, pass, ran, rest⟩ := accepted
  cases pass with
  | inl st => cases (Prod.mk.inj (Option.some.inj rest)).1
  | inr result =>
    obtain ⟨ok, st⟩ := result
    simp only [Option.bind_eq_some_iff] at rest
    obtain ⟨⟨success, out1⟩, second, final⟩ := rest
    have both := (Prod.mk.inj (Option.some.inj final)).1
    simp only [Bool.and_eq_true] at both
    rw [both.1] at ran
    rw [both.2] at second
    obtain ⟨-, branches, critical, passed⟩ := fallthroughAll_ok ran
    exact ⟨st.branches, st.critical, covers_range code head tail _ branches.base branches.size,
      covers_range code head tail _ critical.base critical.size,
      passed, validateBranches_ok second⟩

variable {branches : AddressSet}

theorem Validated.sweep (valid : Validated sfi segments branches critical)
    (member : segment ∈ segments) (sweep : Sweep sfi segment segment.startAddr insts) :
    Passed sfi initialPred insts branches critical := by
  obtain ⟨others, again, passed⟩ := valid.passed segment member
  rwa [sweep.deterministic again]

theorem Passed.pair {pred : DecodedInstruction} (passed : Passed sfi pred insts branches critical)
    {before after : List DecodedInstruction} {first second : DecodedInstruction}
    (split : insts = before ++ first :: second :: after) : PairChecked sfi first second critical := by
  refine pairChecked_of_judged (passed.pairs (pred :: before) first second after ?_)
  rw [split]
  rfl

theorem Validated.critical_contains (code : CodeSegments sfi segments)
    (valid : Validated sfi segments branches critical) {t : Nat}
    (inside : addressContained t segments = true) (crit : Critical sfi segments t) :
    critical.contains t = true := by
  simp only [addressContained, List.any_eq_true, CodeSegment.containsAddress, decide_eq_true_eq] at inside
  obtain ⟨there, listed, range⟩ := inside
  have covers := valid.critical_cover
  obtain ⟨offset, small⟩ := covers.offset listed range.1 range.2
  have low := covers.low there listed
  have base4 := covers.word.1
  -- the word of the address is noted, and its offset differs by less than a word
  have of_noted : ∀ a, a % 4 = 0 → critical.base ≤ a → a ≤ t → t < a + 4 → Noted critical a →
      critical.contains t = true := by
    intro a word lower below near noted
    have start : critical.offset a = a - critical.base := by
      have := covers.small
      rw [AddressSet.offset, show a + (2 ^ 32 - critical.base) = a - critical.base + 2 ^ 32 by omega,
        Nat.add_mod_right, Nat.mod_eq_of_lt (by omega)]
    have set := noted (by rw [start]; omega)
    rw [AddressSet.contains, offset, decide_eq_true small, Bool.true_and]
    rw [start] at set
    rwa [show (t - critical.base) / 4 = (a - critical.base) / 4 by omega]
  obtain ⟨segment, member, insts, sweep, kind⟩ := crit
  have passed := valid.sweep member sweep
  have whole := code.whole segment member
  have start := covers.low segment member
  have placed := sweep.inside whole (Nat.le_add_right _ _) whole.word
  rcases kind with ⟨before, first, second, after, split, pair, lower, upper⟩ | ⟨head, hm, pool, lower, upper⟩
  · have at_second := placed second (by rw [split]; simp)
    exact of_noted second.addr at_second.2.2.1 (by omega) lower upper ((passed.pair split).guarded pair).2
  · have at_head := placed head hm
    obtain ⟨-, -, stop⟩ := poolHead_spec whole at_head.2.1 (by rw [← at_head.2.2.2]; exact pool)
    refine of_noted (t - t % 4) (by omega) (by omega) (by omega) (by omega) (passed.pool head hm pool _ ?_)
    rw [mem_addresses (by decide), stop]
    exact ⟨(t - t % 4 - head.addr) / 4, by omega, by omega⟩

end Accepted

end Glopen.Arm

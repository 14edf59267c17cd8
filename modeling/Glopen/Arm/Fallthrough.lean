import Glopen.Arm.Validator
import Glopen.Lib.Run

/-! The first pass: what it checks on every instruction of the linear sweep of a segment, and
what it leaves in the two address sets. -/
namespace Glopen.Arm

open Memory List

/-- The instructions that the first pass visits, from an address to the end of the segment.
After the head of a literal pool it goes on behind the bundle. -/
inductive Sweep (sfi : SfiValidator) (segment : CodeSegment) : Nat → List DecodedInstruction → Prop
  | nil : Sweep sfi segment segment.endAddr []
  | cons {va : Nat} {rest : List DecodedInstruction} (more : va ≠ segment.endAddr)
      (after : Sweep sfi segment (nextVa sfi (sfi.decodeAt segment va)) rest) :
      Sweep sfi segment va (sfi.decodeAt segment va :: rest)

def WholeBundles (sfi : SfiValidator) (segment : CodeSegment) : Prop :=
  segment.startAddr % sfi.bytesPerBundle = 0 ∧ segment.size % sfi.bytesPerBundle = 0

variable {sfi : SfiValidator} {segment : CodeSegment} {va : Nat} {insts : List DecodedInstruction}
  {first second : DecodedInstruction} {σ : Type} {sink : ProblemSink σ} {inst pred : DecodedInstruction}
  {ok : Bool} {st st' : FallState σ} {critical critical' : AddressSet}

theorem Sweep.deterministic (sweep : Sweep sfi segment va insts) {other : List DecodedInstruction}
    (again : Sweep sfi segment va other) : insts = other := by
  induction sweep generalizing other with
  | nil =>
    cases again with
    | nil => rfl
    | cons more after => contradiction
  | cons more after ih =>
    cases again with
    | nil => contradiction
    | cons more' after' => rw [ih after']

theorem Sweep.head {rest : List DecodedInstruction}
    (sweep : Sweep sfi segment va (first :: rest)) : first.addr = va := by
  cases sweep
  rfl

section

variable (bundles : WholeBundles sfi segment)
include bundles

theorem WholeBundles.stop : segment.endAddr % sfi.bytesPerBundle = 0 := by
  rw [CodeSegment.endAddr, Nat.add_mod, bundles.1, bundles.2, Nat.zero_add, Nat.zero_mod]

theorem WholeBundles.word : segment.startAddr % 4 = 0 :=
  Nat.mod_eq_zero_of_dvd (Nat.dvd_trans (Nat.dvd_of_mod_eq_zero sfi.whole.2) (Nat.dvd_of_mod_eq_zero bundles.1))

theorem WholeBundles.word_stop : segment.endAddr % 4 = 0 :=
  Nat.mod_eq_zero_of_dvd (Nat.dvd_trans (Nat.dvd_of_mod_eq_zero sfi.whole.2)
    (Nat.dvd_of_mod_eq_zero bundles.stop))

theorem poolHead_spec (upper : va < segment.endAddr) (head : isPoolHead sfi (sfi.decodeAt segment va) = true) :
    va % sfi.bytesPerBundle = 0 ∧ va + sfi.bytesPerBundle ≤ segment.endAddr ∧
      sfi.bundleEnd va = va + sfi.bytesPerBundle := by
  have small : segment.endAddr < 2 ^ 32 := segment.fits
  have at_head : va % sfi.bytesPerBundle = 0 := by
    simp only [isPoolHead, SfiValidator.isBundleHead, Bool.and_eq_true, beq_iff_eq] at head
    exact head.2
  have gap : va + sfi.bytesPerBundle ≤ segment.endAddr := by
    obtain ⟨j, hj⟩ := Nat.dvd_of_mod_eq_zero at_head
    obtain ⟨k, hk⟩ := Nat.dvd_of_mod_eq_zero bundles.stop
    rw [hj, hk] at upper ⊢
    rw [← Nat.mul_succ]
    exact Nat.mul_le_mul_left _ (Nat.lt_of_mul_lt_mul_left upper)
  refine ⟨at_head, gap, ?_⟩
  rw [SfiValidator.bundleEnd, SfiValidator.bundleForAddress, at_head, Nat.sub_zero]
  exact Nat.mod_eq_of_lt (by omega)

/-- Before the end of a segment of whole bundles, the loop goes to the next word or, after the
head of a literal pool, to the next bundle, and stays in the segment. -/
theorem nextVa_spec (upper : va < segment.endAddr) (word : va % 4 = 0) :
    nextVa sfi (sfi.decodeAt segment va) ≤ segment.endAddr ∧ nextVa sfi (sfi.decodeAt segment va) % 4 = 0 ∧
    ((va % sfi.bytesPerBundle = 0 ∧ nextVa sfi (sfi.decodeAt segment va) = va + sfi.bytesPerBundle) ∨
      nextVa sfi (sfi.decodeAt segment va) = va + 4) := by
  have words := sfi.whole.2
  have small : segment.endAddr < 2 ^ 32 := segment.fits
  have end4 := bundles.word_stop
  cases head : isPoolHead sfi (sfi.decodeAt segment va) with
  | false =>
    have next : nextVa sfi (sfi.decodeAt segment va) = va + 4 := by
      rw [nextVa, head, if_neg (by decide)]
      exact Nat.mod_eq_of_lt (by simp only [SfiValidator.decodeAt]; omega)
    rw [next]
    exact ⟨by omega, by omega, .inr rfl⟩
  | true =>
    obtain ⟨at_head, gap, stop⟩ := poolHead_spec bundles upper head
    have next : nextVa sfi (sfi.decodeAt segment va) = va + sfi.bytesPerBundle := by
      rw [nextVa, head, if_pos rfl]
      exact stop
    rw [next]
    exact ⟨gap, by omega, .inl ⟨at_head, rfl⟩⟩

theorem Sweep.inside (sweep : Sweep sfi segment va insts) (upper : va ≤ segment.endAddr) (word : va % 4 = 0) :
    ∀ i ∈ insts, va ≤ i.addr ∧ i.addr < segment.endAddr ∧ i.addr % 4 = 0 ∧ i = sfi.decodeAt segment i.addr := by
  induction sweep with
  | nil => nofun
  | @cons va rest more after ih =>
    obtain ⟨next_le, next_word, step⟩ := nextVa_spec bundles (by omega) word
    have forward : va ≤ nextVa sfi (sfi.decodeAt segment va) := by
      rcases step with ⟨-, next⟩ | next <;> omega
    intro i member
    rcases mem_cons.mp member with rfl | member
    · exact ⟨Nat.le_refl _, by simp only [SfiValidator.decodeAt]; omega, word, rfl⟩
    · obtain ⟨above, rest⟩ := ih next_le next_word i member
      exact ⟨by omega, rest⟩

theorem Sweep.adjacent (sweep : Sweep sfi segment va insts) (upper : va ≤ segment.endAddr) (word : va % 4 = 0)
    {before after : List DecodedInstruction} (split : insts = before ++ first :: second :: after)
    (together : sfi.bundleForAddress first.addr = sfi.bundleForAddress second.addr) :
    first.addr + 4 = second.addr := by
  induction sweep generalizing before with
  | nil =>
    have := congrArg List.length split
    simp only [length_append, length_cons, length_nil] at this
    omega
  | @cons va rest more next ih =>
    obtain ⟨next_le, next_word, step⟩ := nextVa_spec bundles (by omega) word
    have forward : va ≤ nextVa sfi (sfi.decodeAt segment va) := by
      rcases step with ⟨-, next⟩ | next <;> omega
    cases before with
    | nil =>
      simp only [nil_append, List.cons.injEq] at split
      obtain ⟨rfl, rfl⟩ := split
      have second_at := next.head
      rcases step with ⟨at_head, pool⟩ | word
      · have positive := sfi.whole.1
        rw [second_at, pool] at together
        simp only [SfiValidator.decodeAt, SfiValidator.bundleForAddress, at_head, Nat.add_mod_right] at together
        omega
      · rw [second_at, word]
        rfl
    | cons skip before =>
      exact ih next_le next_word (List.cons.inj split).2

end

section Sets

variable {s s' s'' : AddressSet} {a : Nat}

structure Grows (s s' : AddressSet) : Prop where
  base : s'.base = s.base
  size : s'.size = s.size
  kept : ∀ p, BitTable.get s.bits p = true → BitTable.get s'.bits p = true

theorem Grows.refl (s : AddressSet) : Grows s s := ⟨rfl, rfl, fun _ set => set⟩

theorem Grows.trans (first : Grows s s') (second : Grows s' s'') : Grows s s'' :=
  ⟨second.base.trans first.base, second.size.trans first.size, fun p set => second.kept p (first.kept p set)⟩

def Noted (s : AddressSet) (a : Nat) : Prop :=
  s.offset a < s.size → BitTable.get s.bits (s.offset a / 4) = true

theorem Noted.grows (noted : Noted s a) (grows : Grows s s') : Noted s' a := by
  intro inside
  rw [AddressSet.offset, grows.base, grows.size] at inside
  rw [AddressSet.offset, grows.base]
  exact grows.kept _ (noted inside)

theorem grows_add (s : AddressSet) (a : Nat) : Grows s (s.add a) := by
  unfold AddressSet.add
  split
  · exact ⟨rfl, rfl, fun p set => by simp [BitTable.get_set, set]⟩
  · exact Grows.refl s

theorem noted_add (s : AddressSet) (a : Nat) : Noted (s.add a) a := by
  unfold AddressSet.add
  split
  · intro _
    simp [AddressSet.offset, BitTable.get_set]
  · rename_i outside
    exact fun inside => absurd inside outside

theorem grows_addAll (as : List Nat) (s : AddressSet) :
    Grows s (as.foldl AddressSet.add s) ∧ ∀ a ∈ as, Noted (as.foldl AddressSet.add s) a := by
  induction as generalizing s with
  | nil => exact ⟨Grows.refl s, nofun⟩
  | cons first rest ih =>
    obtain ⟨grows, noted⟩ := ih (s.add first)
    refine ⟨(grows_add s first).trans grows, ?_⟩
    intro a member
    rcases mem_cons.mp member with rfl | member
    · exact (noted_add s a).grows grows
    · exact noted a member

end Sets

section Patterns

structure Judged (sfi : SfiValidator) (first second : DecodedInstruction) (critical : AddressSet)
    (pattern : TwoInstPattern) : Prop where
  accepted : pattern.judge sfi first second ≠ .patternUnsafe
  together : pattern.judge sfi first second = .patternSafe →
    sfi.bundleForAddress first.addr = sfi.bundleForAddress second.addr
  noted : pattern.judge sfi first second = .patternSafe → Noted critical second.addr

variable {pattern : TwoInstPattern} {result : Bool × FallState σ}

theorem Judged.grows (judged : Judged sfi first second critical pattern) (grows : Grows critical critical') :
    Judged sfi first second critical' pattern :=
  ⟨judged.accepted, judged.together, fun matched => (judged.noted matched).grows grows⟩

theorem applyTwoInstPattern_ok (passed : (applyTwoInstPattern sink sfi first second ok st pattern).1 = true) :
    ok = true ∧ Grows st.critical (applyTwoInstPattern sink sfi first second ok st pattern).2.critical ∧
      (applyTwoInstPattern sink sfi first second ok st pattern).2.branches = st.branches ∧
      Judged sfi first second (applyTwoInstPattern sink sfi first second ok st pattern).2.critical pattern := by
  unfold applyTwoInstPattern at passed ⊢
  split at passed
  · rename_i verdict
    refine ⟨passed, Grows.refl _, rfl, ?_⟩
    constructor <;> rw [verdict] <;> nofun
  · contradiction
  · rename_i verdict
    split at passed
    · contradiction
    · rename_i together
      rw [if_neg together]
      exact ⟨passed, grows_add _ _, rfl, by rw [verdict]; nofun,
        fun _ => Decidable.not_not.mp together, fun _ => noted_add _ _⟩

theorem applyTwoInstPatterns_fold (patterns : List TwoInstPattern)
    (folded : patterns.foldl (fun (ok, st) => applyTwoInstPattern sink sfi first second ok st)
      (ok, st) = result) (passed : result.1 = true) :
    ok = true ∧ Grows st.critical result.2.critical ∧ result.2.branches = st.branches ∧
      ∀ pattern ∈ patterns, Judged sfi first second result.2.critical pattern := by
  induction patterns generalizing ok st with
  | nil =>
    subst folded
    exact ⟨passed, Grows.refl _, rfl, nofun⟩
  | cons pattern rest ih =>
    rw [foldl_cons] at folded
    obtain ⟨kept, grows, branches, judged⟩ := ih folded
    obtain ⟨entry, grows', branches', here⟩ := applyTwoInstPattern_ok kept
    refine ⟨entry, grows'.trans grows, branches.trans branches', ?_⟩
    intro other member
    rcases mem_cons.mp member with rfl | member
    · exact here.grows grows
    · exact judged other member

theorem continueOr_ok (ran : continueOr sink ok st = .ok result) : result = (ok, st) := by
  unfold continueOr at ran
  split at ran
  · exact (Except.ok.inj ran).symm
  · contradiction

theorem applyOneInstPatterns_fold (patterns : List OneInstPattern) {out : σ} {result : Bool × σ}
    (folded : patterns.foldl (fun (ok, out) pattern =>
      match pattern.judge sfi inst with
      | .patternUnsafe => (false, sink.reportProblem (pattern.problem inst) out)
      | _ => (ok, out)) (ok, out) = result) (passed : result.1 = true) :
    ok = true ∧ ∀ pattern ∈ patterns, pattern.judge sfi inst ≠ .patternUnsafe := by
  induction patterns generalizing ok out with
  | nil =>
    subst folded
    exact ⟨passed, nofun⟩
  | cons pattern rest ih =>
    rw [foldl_cons] at folded
    cases verdict : pattern.judge sfi inst with
    | patternUnsafe =>
      simp only [verdict] at folded
      exact absurd (ih folded).1 (by decide)
    | noMatch | patternSafe =>
      simp only [verdict] at folded
      obtain ⟨entry, others⟩ := ih folded
      refine ⟨entry, ?_⟩
      intro other member
      rcases mem_cons.mp member with rfl | member
      · rw [verdict]
        decide
      · exact others other member

structure Inspected (sfi : SfiValidator) (pred inst : DecodedInstruction) (st st' : FallState σ) :
    Prop where
  branches : st'.branches = st.branches
  critical : Grows st.critical st'.critical
  safe : inst.safety = .mayBeSafe
  single : ∀ pattern ∈ oneInstPatterns, pattern.judge sfi inst ≠ .patternUnsafe
  judged : ∀ pattern ∈ twoInstPatterns, Judged sfi pred inst st'.critical pattern

theorem inspect_ok (ran : inspect sink sfi pred inst ok st = .ok (true, st')) :
    ok = true ∧ Inspected sfi pred inst st st' := by
  unfold inspect at ran
  obtain ⟨⟨ok1, st1⟩, safety, ran⟩ := Run.except_bind_ok ran
  simp only at ran
  obtain ⟨⟨ok2, st2⟩, single, ran⟩ := Run.except_bind_ok ran
  simp only at ran
  obtain ⟨passed, last⟩ := Prod.mk.inj (continueOr_ok ran)
  obtain ⟨rfl, rfl⟩ := Prod.mk.inj (continueOr_ok single)
  simp only [Bool.true_eq, Bool.and_eq_true] at passed
  obtain ⟨⟨early, one⟩, two⟩ := passed
  obtain ⟨-, grows, branches, judged⟩ := applyTwoInstPatterns_fold twoInstPatterns rfl two
  obtain ⟨-, singles⟩ := applyOneInstPatterns_fold oneInstPatterns rfl one
  unfold checkSafety at safety
  split at safety
  · obtain ⟨failed, -⟩ := Prod.mk.inj (continueOr_ok safety)
    rw [early] at failed
    contradiction
  · rename_i safe
    obtain ⟨rfl, rfl⟩ := Prod.mk.inj (Except.ok.inj safety)
    rw [last]
    exact ⟨early, branches, grows, Decidable.not_not.mp safe, singles, judged⟩

end Patterns

/-- What a first pass without a problem has established about some instructions after `pred`,
in terms of the sets it leaves. -/
structure Passed (sfi : SfiValidator) (pred : DecodedInstruction)
    (insts : List DecodedInstruction) (branches critical : AddressSet) : Prop where
  safe : ∀ i ∈ insts, i.safety = .mayBeSafe ∧
    ∀ pattern ∈ oneInstPatterns, pattern.judge sfi i ≠ .patternUnsafe
  branch : ∀ i ∈ insts, i.isRelativeBranch = true → Noted branches i.addr
  pool : ∀ i ∈ insts, isPoolHead sfi i = true →
    ∀ a ∈ addresses i.addr (sfi.bundleEnd i.addr) 4, Noted critical a
  pairs : ∀ before first second after, pred :: insts = before ++ first :: second :: after →
    ∀ pattern ∈ twoInstPatterns, Judged sfi first second critical pattern

section Loop

variable {branches branches' : AddressSet}

theorem Passed.grows (passed : Passed sfi pred insts branches critical)
    (more_branches : Grows branches branches') (more_critical : Grows critical critical') :
    Passed sfi pred insts branches' critical' where
  safe := passed.safe
  branch := fun i member relative => (passed.branch i member relative).grows more_branches
  pool := fun i member head a inside => (passed.pool i member head a inside).grows more_critical
  pairs := fun before first second after split pattern member =>
    (passed.pairs before first second after split pattern member).grows more_critical

theorem recordInst_spec (sfi : SfiValidator) (inst : DecodedInstruction) (st : FallState σ) :
    Grows st.branches (recordInst sfi inst st).branches ∧ Grows st.critical (recordInst sfi inst st).critical ∧
    (inst.isRelativeBranch = true → Noted (recordInst sfi inst st).branches inst.addr) ∧
    (isPoolHead sfi inst = true → ∀ a ∈ addresses inst.addr (sfi.bundleEnd inst.addr) 4,
      Noted (recordInst sfi inst st).critical a) := by
  have pool := grows_addAll (addresses inst.addr (sfi.bundleEnd inst.addr) 4) st.critical
  unfold recordInst
  cases branch : inst.isRelativeBranch <;> cases head : isPoolHead sfi inst
  · exact ⟨Grows.refl _, Grows.refl _, nofun, nofun⟩
  · exact ⟨Grows.refl _, pool.1, nofun, fun _ => pool.2⟩
  · exact ⟨grows_add _ _, Grows.refl _, fun _ => noted_add _ _, nofun⟩
  · exact ⟨grows_add _ _, pool.1, fun _ => noted_add _ _, fun _ => pool.2⟩

theorem Passed.cons (here : Inspected sfi pred inst st st')
    (more_branches : Grows (recordInst sfi inst st').branches branches)
    (more_critical : Grows (recordInst sfi inst st').critical critical)
    (rest : Passed sfi inst insts branches critical) : Passed sfi pred (inst :: insts) branches critical := by
  obtain ⟨-, grows, branch, pool⟩ := recordInst_spec sfi inst st'
  refine ⟨?_, ?_, ?_, ?_⟩
  · intro i member
    rcases mem_cons.mp member with rfl | member
    · exact ⟨here.safe, here.single⟩
    · exact rest.safe i member
  · intro i member relative
    rcases mem_cons.mp member with rfl | member
    · exact (branch relative).grows more_branches
    · exact rest.branch i member relative
  · intro i member head a inside
    rcases mem_cons.mp member with rfl | member
    · exact (pool head a inside).grows more_critical
    · exact rest.pool i member head a inside
  · intro before first second after split pattern member
    cases before with
    | nil =>
      simp only [nil_append, List.cons.injEq] at split
      obtain ⟨rfl, rfl, rfl⟩ := split
      exact (here.judged pattern member).grows (grows.trans more_critical)
    | cons skip before =>
      exact rest.pairs before first second after (List.cons.inj split).2 pattern member

variable {fuel : Nat}

theorem fallthroughLoop_ok (ran : fallthroughLoop sink sfi segment fuel va pred ok st = some (true, st')) :
    ok = true ∧ Grows st.branches st'.branches ∧ Grows st.critical st'.critical ∧
      ∃ insts, Sweep sfi segment va insts ∧ Passed sfi pred insts st'.branches st'.critical := by
  induction fuel generalizing va pred ok st with
  | zero => contradiction
  | succ fuel ih =>
    unfold fallthroughLoop at ran
    split at ran
    · rename_i done
      obtain ⟨rfl, rfl⟩ := Prod.mk.inj (Option.some.inj ran)
      refine ⟨rfl, Grows.refl _, Grows.refl _, [], done ▸ .nil, nofun, nofun, nofun, ?_⟩
      intro before first second after split
      have := congrArg List.length split
      simp only [length_cons, length_append, length_nil] at this
      omega
    · rename_i more
      simp only at ran
      split at ran
      · cases (Prod.mk.inj (Option.some.inj ran)).1
      · rename_i ok' st1 inspected
        obtain ⟨passed, branches, critical, insts, sweep, rest⟩ := ih ran
        rw [passed] at inspected
        obtain ⟨entry, here⟩ := inspect_ok inspected
        obtain ⟨recorded, marked, -⟩ := recordInst_spec sfi (sfi.decodeAt segment va) st1
        rw [here.branches] at recorded
        exact ⟨entry, recorded.trans branches, here.critical.trans (marked.trans critical), _,
          .cons more sweep, Passed.cons here branches critical rest⟩

theorem fallthroughAll_ok {segments : List CodeSegment}
    (ran : fallthroughAll sink sfi fuel segments ok st = some (.inr (true, st'))) :
    ok = true ∧ Grows st.branches st'.branches ∧ Grows st.critical st'.critical ∧
      ∀ segment ∈ segments, ∃ insts, Sweep sfi segment segment.startAddr insts ∧
        Passed sfi initialPred insts st'.branches st'.critical := by
  induction segments generalizing ok st with
  | nil =>
    obtain ⟨rfl, rfl⟩ := Prod.mk.inj (Sum.inr.inj (Option.some.inj ran))
    exact ⟨rfl, Grows.refl _, Grows.refl _, nofun⟩
  | cons segment later ih =>
    simp only [fallthroughAll, Option.bind_eq_bind, Option.bind_eq_some_iff] at ran
    obtain ⟨⟨success, st1⟩, first, rest⟩ := ran
    simp only at rest
    split at rest
    · obtain ⟨passed, branches, critical, others⟩ := ih rest
      rw [Bool.and_eq_true] at passed
      rw [passed.2] at first
      obtain ⟨-, branches', critical', insts, sweep, here⟩ := fallthroughLoop_ok first
      refine ⟨passed.1, branches'.trans branches, critical'.trans critical, ?_⟩
      intro other member
      rcases mem_cons.mp member with rfl | member
      · exact ⟨insts, sweep, here.grows branches critical⟩
      · exact others other member
    · cases rest

end Loop

end Glopen.Arm

import Glopen.Arm.Guarantees

/-! Where the loop of `validate_fallthrough` goes, and where it ends. -/
namespace Glopen.Arm

open Memory List

section Runs

variable {σ : Type} (sink : ProblemSink σ) (sfi : SfiValidator) (segment : CodeSegment)

/-- The rounds of the loop: the instructions that it decodes, the address that it ends at and what the
function returns. -/
inductive FallRun : Nat → DecodedInstruction → Bool → FallState σ → List DecodedInstruction → Nat →
    Bool × FallState σ → Prop where
  | finished {pred : DecodedInstruction} {ok : Bool} {st : FallState σ} :
    FallRun segment.endAddr pred ok st [] segment.endAddr (ok, st)
  | stopped {va : Nat} {pred : DecodedInstruction} {ok : Bool} {st st' : FallState σ}
    (more : va ≠ segment.endAddr)
    (refused : inspect sink sfi pred (sfi.decodeAt segment va) ok st = .error st') :
    FallRun va pred ok st [sfi.decodeAt segment va] va (false, st')
  | next {va stop : Nat} {pred : DecodedInstruction} {ok ok' : Bool} {st st' : FallState σ}
    {insts : List DecodedInstruction} {result : Bool × FallState σ} (more : va ≠ segment.endAddr)
    (passed : inspect sink sfi pred (sfi.decodeAt segment va) ok st = .ok (ok', st'))
    (rest : FallRun (nextVa sfi (sfi.decodeAt segment va)) (sfi.decodeAt segment va) ok'
      (recordInst sfi (sfi.decodeAt segment va) st') insts stop result) :
    FallRun va pred ok st (sfi.decodeAt segment va :: insts) stop result

variable {sink sfi segment} {va stop : Nat} {pred inst : DecodedInstruction} {ok ok' : Bool}
  {st st' : FallState σ} {insts : List DecodedInstruction} {result : Bool × FallState σ}

theorem fallRun_exists (bundles : WholeBundles sfi segment) (left : Nat) (upper : va ≤ segment.endAddr)
    (near : segment.endAddr ≤ va + 4 * left) (word : va % 4 = 0) :
    ∃ insts stop result, FallRun sink sfi segment va pred ok st insts stop result ∧
      ∀ fuel, left < fuel → fallthroughLoop sink sfi segment fuel va pred ok st = some result := by
  induction left generalizing va pred ok st with
  | zero =>
    obtain rfl : va = segment.endAddr := by omega
    refine ⟨[], _, (ok, st), .finished, fun fuel enough => ?_⟩
    obtain ⟨fuel, rfl⟩ := Nat.exists_eq_add_of_lt enough
    rw [fallthroughLoop, if_pos rfl]
  | succ left ih =>
    by_cases at_end : va = segment.endAddr
    · subst at_end
      refine ⟨[], _, (ok, st), .finished, fun fuel enough => ?_⟩
      obtain ⟨fuel, rfl⟩ := Nat.exists_eq_add_of_lt enough
      rw [fallthroughLoop, if_pos rfl]
    · have stride : va + 4 ≤ va + sfi.bytesPerBundle := by
        have words := sfi.whole
        omega
      obtain ⟨next_le, next_word, step⟩ := nextVa_spec bundles (by omega) word
      have farther : segment.endAddr ≤ nextVa sfi (sfi.decodeAt segment va) + 4 * left := by
        rcases step with ⟨-, next⟩ | next <;> omega
      cases round : inspect sink sfi pred (sfi.decodeAt segment va) ok st with
      | error st' =>
        refine ⟨_, _, _, .stopped at_end round, fun fuel enough => ?_⟩
        obtain ⟨fuel, rfl⟩ := Nat.exists_eq_add_of_lt enough
        rw [fallthroughLoop, if_neg at_end]
        simp only [round]
      | ok passed =>
        obtain ⟨ok', st'⟩ := passed
        obtain ⟨insts, stop, result, run, loop⟩ := @ih _ _ ok' _ next_le farther next_word
        refine ⟨_, stop, result, .next at_end round run, fun fuel enough => ?_⟩
        obtain ⟨fuel, rfl⟩ := Nat.exists_eq_add_of_lt enough
        rw [fallthroughLoop, if_neg at_end]
        simp only [round]
        exact loop _ (by omega)

theorem FallRun.inside (bundles : WholeBundles sfi segment)
    (run : FallRun sink sfi segment va pred ok st insts stop result) (upper : va ≤ segment.endAddr)
    (word : va % 4 = 0) : ∀ i ∈ insts, va ≤ i.addr ∧ i.addr + 4 ≤ segment.endAddr ∧
      i = sfi.decodeAt segment i.addr := by
  have end4 := bundles.word_stop
  induction run with
  | finished => nofun
  | stopped more _ =>
    intro i member
    cases mem_singleton.mp member
    exact ⟨Nat.le_refl _, by simp only [SfiValidator.decodeAt]; omega, rfl⟩
  | @next va _ _ _ _ _ _ _ _ more _ _ ih =>
    obtain ⟨next_le, next_word, step⟩ := nextVa_spec bundles (by omega) word
    have forward : va ≤ nextVa sfi (sfi.decodeAt segment va) := by
      rcases step with ⟨-, next⟩ | next <;> omega
    intro i member
    rcases mem_cons.mp member with rfl | member
    · exact ⟨Nat.le_refl _, by simp only [SfiValidator.decodeAt]; omega, rfl⟩
    · obtain ⟨above, rest⟩ := ih next_le next_word i member
      exact ⟨by omega, rest⟩

theorem continueOr_error (refused : continueOr sink ok st = .error st') :
    st' = st ∧ sink.shouldContinue st.out = false := by
  rw [continueOr] at refused
  split at refused
  · cases refused
  · rename_i halt
    cases refused
    exact ⟨rfl, by simpa using halt⟩

theorem inspect_refused (refused : inspect sink sfi pred inst ok st = .error st') :
    sink.shouldContinue st'.out = false := by
  have halts : ∀ {ok : Bool} {st : FallState σ}, continueOr sink ok st = .error st' →
      sink.shouldContinue st'.out = false := by
    intro ok st halted
    obtain ⟨rfl, halt⟩ := continueOr_error halted
    exact halt
  unfold inspect at refused
  rcases Run.except_bind_error refused with unsafe_ | ⟨⟨ok₁, st₁⟩, -, refused⟩
  · rw [checkSafety] at unsafe_
    split at unsafe_
    · exact halts unsafe_
    · cases unsafe_
  rcases Run.except_bind_error refused with single | ⟨⟨ok₂, st₂⟩, -, pair⟩
  · exact halts single
  · exact halts pair

theorem applyTwoInstPattern_grows (pattern : TwoInstPattern) :
    Grows st.critical (applyTwoInstPattern sink sfi pred inst ok st pattern).2.critical := by
  rw [applyTwoInstPattern]
  split
  · exact Grows.refl _
  · exact Grows.refl _
  · split
    · exact Grows.refl _
    · exact grows_add _ _

theorem applyTwoInstPatterns_grows (patterns : List TwoInstPattern) : Grows st.critical (patterns.foldl
      (fun (ok, st) => applyTwoInstPattern sink sfi pred inst ok st) (ok, st)).2.critical := by
  induction patterns generalizing ok st with
  | nil => exact Grows.refl _
  | cons pattern rest ih => exact (applyTwoInstPattern_grows pattern).trans ih

theorem checkSafety_critical {round : Bool × FallState σ}
    (passed : checkSafety sink inst ok st = .ok round) : round.2.critical = st.critical := by
  rw [checkSafety] at passed
  split at passed
  · rw [continueOr_ok passed]
  · cases passed
    rfl

theorem inspect_grows (passed : inspect sink sfi pred inst ok st = .ok (ok', st')) :
    Grows st.critical st'.critical := by
  unfold inspect at passed
  obtain ⟨⟨ok₁, st₁⟩, safety, passed⟩ := Run.except_bind_ok passed
  obtain ⟨⟨ok₂, st₂⟩, single, passed⟩ := Run.except_bind_ok passed
  have first := checkSafety_critical safety
  have second := congrArg (fun both => both.2.critical) (continueOr_ok single)
  obtain ⟨-, rfl⟩ := Prod.mk.inj (continueOr_ok passed)
  rw [← first]
  change st₂.critical = st₁.critical at second
  rw [← second]
  exact applyTwoInstPatterns_grows twoInstPatterns

theorem FallRun.grows (run : FallRun sink sfi segment va pred ok st insts stop result)
    (at_end : stop = segment.endAddr) : Grows st.critical result.2.critical := by
  induction run with
  | finished => exact Grows.refl _
  | stopped more _ => exact absurd at_end more
  | next _ passed _ ih =>
    exact ((inspect_grows passed).trans (recordInst_spec sfi _ _).2.1).trans (ih at_end)

theorem FallRun.ends (run : FallRun sink sfi segment va pred ok st insts stop result) :
    stop = segment.endAddr ∨ result.1 = false ∧ sink.shouldContinue result.2.out = false := by
  induction run with
  | finished => exact .inl rfl
  | stopped _ refused => exact .inr ⟨rfl, inspect_refused refused⟩
  | next _ _ _ ih => exact ih

/-- The address is in the literal pool behind a head that has been decoded. Each word of the pool has the
property. -/
def InPool (sfi : SfiValidator) (insts : List DecodedInstruction) (marked : Nat → Prop) (a : Nat) : Prop :=
  ∃ head ∈ insts, isPoolHead sfi head = true ∧ head.addr ≤ a ∧ a < head.addr + sfi.bytesPerBundle ∧
    ∀ b, head.addr ≤ b → b < head.addr + sfi.bytesPerBundle → b % 4 = 0 → marked b

theorem FallRun.covers (bundles : WholeBundles sfi segment)
    (run : FallRun sink sfi segment va pred ok st insts stop result) (upper : va ≤ segment.endAddr)
    (word : va % 4 = 0) (at_end : stop = segment.endAddr) : ∀ a, va ≤ a → a < segment.endAddr → a % 4 = 0 →
      (∃ i ∈ insts, i.addr = a) ∨ InPool sfi insts (Noted result.2.critical) a := by
  induction run with
  | finished => exact fun a low high _ => absurd high (by omega)
  | stopped more _ => exact absurd at_end more
  | @next va _ _ _ _ _ st' _ _ more _ rest ih =>
    intro a low high word_a
    obtain ⟨next_le, next_word, step⟩ := nextVa_spec bundles (by omega) word
    by_cases passed : nextVa sfi (sfi.decodeAt segment va) ≤ a
    · rcases ih next_le next_word at_end a passed high word_a with ⟨i, member, its⟩ | ⟨head, member, its⟩
      · exact .inl ⟨i, mem_cons_of_mem _ member, its⟩
      · exact .inr ⟨head, mem_cons_of_mem _ member, its⟩
    · cases pool : isPoolHead sfi (sfi.decodeAt segment va) with
      | false =>
        have next : nextVa sfi (sfi.decodeAt segment va) = (va + 4) % 2 ^ 32 := by
          rw [nextVa, pool, if_neg (by decide)]
          rfl
        have fits : segment.endAddr < 2 ^ 32 := segment.fits
        exact .inl ⟨_, mem_cons_self, by simp only [SfiValidator.decodeAt]; omega⟩
      | true =>
        obtain ⟨-, -, bundle⟩ := poolHead_spec bundles (by omega) pool
        have next : nextVa sfi (sfi.decodeAt segment va) = va + sfi.bytesPerBundle := by
          rw [nextVa, pool, if_pos rfl]
          exact bundle
        refine .inr ⟨_, mem_cons_self, pool, low, by rw [next] at passed; exact Nat.lt_of_not_le passed,
          fun b from_head before word_b => ?_⟩
        have member : b ∈ addresses va (sfi.bundleEnd va) 4 := by
          refine (mem_addresses (by decide)).mpr ⟨(b - va) / 4, ?_, by rw [bundle]; exact before⟩
          change va ≤ b at from_head
          omega
        exact ((recordInst_spec sfi (sfi.decodeAt segment va) st').2.2.2 pool b member).grows (rest.grows at_end)

end Runs

section Segments

variable {σ : Type} (sink : ProblemSink σ) {sfi : SfiValidator} {segments : List CodeSegment}
  {segment first last : CodeSegment}

/-- The pass over a segment of whole bundles ends, at the end of the segment unless the sink stops it. -/
theorem validateFallthrough_ends (sorted : segments.Pairwise fun s t => s.endAddr ≤ t.startAddr)
    (head : segments.head? = some first) (tail : segments.getLast? = some last)
    (member : segment ∈ segments) (bundles : WholeBundles sfi segment) (st : FallState σ)
    (base : st.critical.base = first.startAddr)
    (size : st.critical.size = (last.endAddr + (2 ^ 32 - first.startAddr)) % 2 ^ 32) :
    ∃ insts stop result, FallRun sink sfi segment segment.startAddr initialPred true st insts stop result ∧
      (∀ fuel, segment.size / 4 < fuel → validateFallthrough sink sfi fuel segment st = some result) ∧
      (∀ i ∈ insts, segment.startAddr ≤ i.addr ∧ i.addr + 4 ≤ segment.endAddr) ∧
      (stop = segment.endAddr ∨ result.1 = false ∧ sink.shouldContinue result.2.out = false) ∧
      (stop = segment.endAddr → ∀ a, segment.startAddr ≤ a → a < segment.endAddr → a % 4 = 0 →
        (∃ i ∈ insts, i.addr = a) ∨ InPool sfi insts (fun b => result.2.critical.contains b = true) a) := by
  have word := bundles.word
  have upper : segment.startAddr ≤ segment.endAddr := Nat.le_add_right _ _
  have near : segment.endAddr ≤ segment.startAddr + 4 * (segment.size / 4) := by
    have end4 := bundles.word_stop
    rw [CodeSegment.endAddr] at end4 ⊢
    omega
  obtain ⟨insts, stop, result, run, loop⟩ : ∃ insts stop result,
      FallRun sink sfi segment segment.startAddr initialPred true st insts stop result ∧
      ∀ fuel, segment.size / 4 < fuel →
        fallthroughLoop sink sfi segment fuel segment.startAddr initialPred true st = some result :=
    fallRun_exists bundles (segment.size / 4) upper near word
  have inside := run.inside bundles upper word
  refine ⟨insts, stop, result, run, loop, fun i there => ⟨(inside i there).1, (inside i there).2.1⟩, run.ends,
    fun at_end a low high word_a => ?_⟩
  refine (run.covers bundles upper word at_end a low high word_a).imp_right ?_
  rintro ⟨head', there, pool, from_head, before, noted⟩
  refine ⟨head', there, pool, from_head, before, fun b low_b high_b word_b => ?_⟩
  have grown := run.grows at_end
  obtain ⟨bounds, whole⟩ := range_bounds sorted head tail st.critical base size
  have decoded := inside head' there
  obtain ⟨-, in_segment, -⟩ := poolHead_spec bundles (by omega) (decoded.2.2 ▸ pool)
  have fits : last.endAddr < 2 ^ 32 := last.fits
  have bound := bounds segment member
  have offset : result.2.critical.offset b < result.2.critical.size := by
    rw [AddressSet.offset, grown.base, grown.size,
      show b + (2 ^ 32 - st.critical.base) = b - st.critical.base + 2 ^ 32 by omega, Nat.add_mod_right,
      Nat.mod_eq_of_lt (by omega)]
    omega
  change result.2.critical.contains b = true
  rw [AddressSet.contains, decide_eq_true offset, Bool.true_and]
  exact noted b low_b high_b word_b offset

def literalPool : CodeSegment where
  base := bundleOf [0xe1277777, 1, 2, 3]
  startAddr := 0x20000
  size := 16
  fits := sample_fits

def poolSfi : SfiValidator :=
  { sampleSfi with
    decode := fun inst => { forbidden with
      safety := fun _ => .mayBeSafe
      isLiteralPoolHead := fun _ => inst == 0xe1277777 } }

def poolState : FallState Bool := ⟨.empty 0x20000 16, .empty 0x20000 16, false⟩

theorem literalPool_ends : ∃ insts stop result,
    FallRun earlyExit poolSfi literalPool 0x20000 initialPred true poolState insts stop result ∧
      (∀ fuel, 4 < fuel → validateFallthrough earlyExit poolSfi fuel literalPool poolState = some result) ∧
      (∀ i ∈ insts, 0x20000 ≤ i.addr ∧ i.addr + 4 ≤ 0x20010) ∧
      (stop = 0x20010 ∨ result.1 = false ∧ earlyExit.shouldContinue result.2.out = false) ∧
      (stop = 0x20010 → ∀ a, 0x20000 ≤ a → a < 0x20010 → a % 4 = 0 → (∃ i ∈ insts, i.addr = a) ∨
        InPool poolSfi insts (fun b => result.2.critical.contains b = true) a) :=
  validateFallthrough_ends earlyExit
    (List.pairwise_singleton _ _) rfl rfl List.mem_cons_self ⟨by decide, by decide⟩ poolState rfl (by decide)

/-- The sink that exits early stops the pass in front of the end. -/
theorem earlyExit_stops : ∃ st, WholeBundles sampleSfi literalPool ∧
    FallRun earlyExit sampleSfi literalPool 0x20000 initialPred true poolState
      [sampleSfi.decodeAt literalPool 0x20000] 0x20000 (false, st) ∧ 0x20000 ≠ literalPool.endAddr :=
  ⟨_, ⟨by decide, by decide⟩, .stopped (by decide) rfl, by decide⟩

end Segments

end Glopen.Arm

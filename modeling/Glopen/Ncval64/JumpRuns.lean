import Glopen.Ncval64.JumpSets

/-! Whole runs of the jump validator: every start that was removed from the possible targets
stays removed, because no instruction is visited twice. -/
namespace Glopen.Ncval64

open List Option
variable {r : Region} {state state' : ValidatorState}

def visitsFrom : List NaClInstState → List Visit → List (NaClInstIter × List Nat)
  | _, [] => []
  | past, visit :: rest =>
    (⟨visit.inst, past⟩, visit.marks) :: visitsFrom (visit.inst :: past) rest

def MarksHold (r : Region) (visit : NaClInstIter × List Nat) (state : ValidatorState) : Prop :=
  ∀ distance ∈ visit.2, ∃ inst, visit.1.getLookbackState distance = some inst ∧
    ¬ Possible r state inst.vpc

structure RunInv (r : Region) (seen : List (NaClInstIter × List Nat)) (state : ValidatorState) :
    Prop where
  starts : ∀ a, Possible r state a → ∃ visit ∈ seen, visit.1.current.vpc = a
  checked : ∀ visit ∈ seen, InstChecked r visit.1 state
  marks : ∀ visit ∈ seen, MarksHold r visit state

variable {iter : NaClInstIter} {marks : List Nat} {visits : List Visit}

theorem markBack_later {distance : Nat} (ran : markBack r iter state distance = some state') :
    Later r state state' ∧ ∃ inst, iter.getLookbackState distance = some inst ∧
      ¬ Possible r state' inst.vpc := by
  obtain ⟨inst, found, rfl⟩ := map_eq_some_iff.mp ran
  exact ⟨later_mark inst, inst, found, fun possible => (possible_mark.mp possible).2 rfl⟩

theorem marks_later (ran : marks.foldlM (markBack r iter) state = some state') :
    Later r state state' ∧ MarksHold r (iter, marks) state' := by
  refine Run.foldlM_option_invariant (fun done s => Later r state s ∧ MarksHold r (iter, done) s) ?_ marks []
    ⟨Later.refl, fun distance member => absurd member not_mem_nil⟩ ran
  rintro done s distance s' ⟨later, hold⟩ step
  obtain ⟨next, marked⟩ := markBack_later step
  refine ⟨later.trans next, fun other member => ?_⟩
  rcases mem_append.mp member with old | new
  · obtain ⟨inst, found, gone⟩ := hold other old
    exact ⟨inst, found, fun possible => gone (next.possible _ possible)⟩
  · rw [mem_singleton.mp new]
    exact marked

theorem quit_false (ok : state.validatesOk = true) : naClValidatorQuit r state = false := by
  rw [naClValidatorQuit, ok, Bool.not_true, Bool.and_false]

theorem applyValidators_visited (ran : naClApplyValidators r iter marks state = some state')
    (ok : state'.validatesOk = true) : Visited r iter state state' ∧ MarksHold r (iter, marks) state' := by
  unfold naClApplyValidators at ran
  split at ran
  · rename_i quit
    cases ran
    rw [quit_false ok] at quit
    contradiction
  · simp only [bind_eq_bind, bind_eq_some_iff] at ran
    obtain ⟨between, jumps, ran⟩ := ran
    have visited := jumpValidator_visited jumps
    split at ran
    · rename_i quit
      cases ran
      rw [quit_false ok] at quit
      contradiction
    · obtain ⟨later, hold⟩ := marks_later ran
      exact ⟨visited.later later, hold⟩

theorem RunInv.visit {seen : List (NaClInstIter × List Nat)} (inv : RunInv r seen state)
    (fresh : ∀ visit ∈ seen, ∀ inst ∈ visit.1.current :: visit.1.past, inst.vpc ≠ iter.current.vpc)
    (ran : naClApplyValidators r iter marks state = some state')
    (ok : state'.validatesOk = true) : RunInv r (seen ++ [(iter, marks)]) state' := by
  obtain ⟨visited, hold⟩ := applyValidators_visited ran ok
  have gone : ∀ visit ∈ seen, ∀ inst ∈ visit.1.current :: visit.1.past,
      Possible r state' inst.vpc → Possible r state inst.vpc := by
    intro visit member inst known possible
    rcases visited.possible _ possible with old | same
    · exact old
    · exact absurd same (fresh visit member inst known)
  constructor
  · intro a possible
    rcases visited.possible a possible with old | rfl
    · obtain ⟨visit, member, start⟩ := inv.starts a old
      exact ⟨visit, mem_append_left _ member, start⟩
    · exact ⟨(iter, marks), by simp, rfl⟩
  · intro visit member
    rcases mem_append.mp member with old | new
    · exact (inv.checked visit old).stable visited.actual (gone visit old)
    · rw [mem_singleton.mp new]
      exact visited.checked ok
  · intro visit member
    rcases mem_append.mp member with old | new
    · intro distance among
      obtain ⟨inst, found, removed⟩ := inv.marks visit old distance among
      exact ⟨inst, found, fun again => removed (gone visit old inst (lookback_mem found) again)⟩
    · rw [mem_singleton.mp new]
      exact hold

theorem applyValidators_kept (ran : naClApplyValidators r iter marks state = some state')
    (ok : state'.validatesOk = true) : state.validatesOk = true :=
  (applyValidators_visited ran ok).1.kept ok

theorem validateSegment_kept : ∀ {past state},
    naClValidateSegment r past visits state = some state' → state'.validatesOk = true →
      state.validatesOk = true := by
  induction visits with
  | nil =>
    intro past state ran ok
    cases ran
    exact ok
  | cons visit rest ih =>
    intro past state ran ok
    simp only [naClValidateSegment, bind_eq_bind, bind_eq_some_iff] at ran
    obtain ⟨between, first, ran⟩ := ran
    split at ran
    · cases ran
      exact applyValidators_kept first ok
    · exact applyValidators_kept first (ih ran ok)

theorem RunInv.segment : ∀ {past state seen}, RunInv r seen state →
    (∀ visit ∈ seen, ∀ inst ∈ visit.1.current :: visit.1.past, ∀ next ∈ visits, inst.vpc ≠ next.inst.vpc) →
    (∀ inst ∈ past, ∀ next ∈ visits, inst.vpc ≠ next.inst.vpc) →
    visits.Pairwise (fun a b => a.inst.vpc ≠ b.inst.vpc) →
    naClValidateSegment r past visits state = some state' → state'.validatesOk = true →
      RunInv r (seen ++ visitsFrom past visits) state' := by
  induction visits with
  | nil =>
    intro past state seen inv _ _ _ ran _
    cases ran
    rwa [visitsFrom, append_nil]
  | cons visit rest ih =>
    intro past state seen inv fresh behind apart ran ok
    obtain ⟨first_apart, rest_apart⟩ := pairwise_cons.mp apart
    simp only [naClValidateSegment, bind_eq_bind, bind_eq_some_iff] at ran
    obtain ⟨between, first, ran⟩ := ran
    have between_ok : between.validatesOk = true := by
      split at ran
      · cases ran
        exact ok
      · exact validateSegment_kept ran ok
    rw [quit_false between_ok, if_neg (by decide)] at ran
    have now := inv.visit (fun other member inst known =>
      fresh other member inst known visit mem_cons_self) first between_ok
    have later := ih now ?_ ?_ rest_apart ran ok
    · rwa [append_assoc] at later
    · intro other member inst known next among
      rcases mem_append.mp member with old | new
      · exact fresh other old inst known next (mem_cons_of_mem _ among)
      · rw [mem_singleton.mp new] at known
        rcases mem_cons.mp known with rfl | passed
        · exact first_apart next among
        · exact behind inst passed next (mem_cons_of_mem _ among)
    · intro inst known next among
      rcases mem_cons.mp known with rfl | passed
      · exact first_apart next among
      · exact behind inst passed next (mem_cons_of_mem _ among)

theorem visitsFrom_known : ∀ {past}, ∀ visit ∈ visitsFrom past visits,
    ∀ inst ∈ visit.1.current :: visit.1.past, inst ∈ past ∨ ∃ v ∈ visits, v.inst = inst := by
  induction visits with
  | nil =>
    intro past visit member
    exact absurd member not_mem_nil
  | cons first rest ih =>
    intro past visit member inst known
    rcases mem_cons.mp member with rfl | later
    · rcases mem_cons.mp known with rfl | passed
      · exact .inr ⟨first, mem_cons_self, rfl⟩
      · exact .inl passed
    · rcases ih visit later inst known with passed | ⟨v, among, same⟩
      · rcases mem_cons.mp passed with rfl | earlier
        · exact .inr ⟨first, mem_cons_self, rfl⟩
        · exact .inl earlier
      · exact .inr ⟨v, mem_cons_of_mem _ among, same⟩

theorem segments_kept {segments : List (List Visit)} : ∀ {state},
    segments.foldlM (fun state visits => naClValidateSegment r [] visits state) state =
      some state' → state'.validatesOk = true → state.validatesOk = true := by
  induction segments with
  | nil =>
    intro state ran ok
    cases ran
    exact ok
  | cons visits rest ih =>
    intro state ran ok
    simp only [foldlM_cons, bind_eq_bind, bind_eq_some_iff] at ran
    obtain ⟨between, first, ran⟩ := ran
    exact validateSegment_kept first (ih ran ok)

theorem RunInv.segments {segments : List (List Visit)} : ∀ {state seen}, RunInv r seen state →
    (∀ visit ∈ seen, ∀ inst ∈ visit.1.current :: visit.1.past, ∀ next ∈ segments.flatten,
      inst.vpc ≠ next.inst.vpc) →
    segments.flatten.Pairwise (fun a b => a.inst.vpc ≠ b.inst.vpc) →
    segments.foldlM (fun state visits => naClValidateSegment r [] visits state) state =
      some state' → state'.validatesOk = true →
      RunInv r (seen ++ segments.flatMap (visitsFrom [])) state' := by
  induction segments with
  | nil =>
    intro state seen inv _ _ ran _
    cases ran
    simpa using inv
  | cons visits rest ih =>
    intro state seen inv fresh apart ran ok
    simp only [foldlM_cons, bind_eq_bind, bind_eq_some_iff] at ran
    obtain ⟨between, first, ran⟩ := ran
    rw [flatten_cons] at apart fresh
    obtain ⟨apart_here, apart_rest, apart_cross⟩ := pairwise_append.mp apart
    have now := inv.segment (fun visit member inst known next among =>
        fresh visit member inst known next (mem_append_left _ among))
      (fun inst member => absurd member not_mem_nil) apart_here first
      (segments_kept ran ok)
    have later := ih now ?_ apart_rest ran ok
    · rwa [append_assoc] at later
    · intro visit member inst known next among
      rcases mem_append.mp member with old | new
      · exact fresh visit old inst known next (mem_append_right _ among)
      · rcases visitsFrom_known visit new inst known with nothing | ⟨v, here, rfl⟩
        · exact absurd nothing not_mem_nil
        · exact apart_cross v here next among

theorem runInv_create : RunInv r [] naClValidatorStateCreate where
  starts := fun a possible => by
    have := possible.2
    rw [naClValidatorStateCreate, BitTable.get_empty] at this
    contradiction
  checked := fun _ member => absurd member not_mem_nil
  marks := fun _ member => absurd member not_mem_nil

section Summary

variable {addr : Nat}

theorem contains_ok {set : NaClAddressSet} (inside : inRegion r addr = true) :
    naClAddressSetContains r set addr state = (BitTable.get set (addr - r.vbase), state) := by
  rw [naClAddressSetContains, if_pos inside]

theorem checkTarget_ok (inside : inRegion r addr = true) (ok : (checkTarget r state addr).validatesOk = true) :
    checkTarget r state addr = state ∧ (Actual r state addr → Possible r state addr) := by
  unfold checkTarget at ok ⊢
  simp only [contains_ok inside] at ok ⊢
  split
  · rename_i actual
    rw [if_pos actual] at ok
    split
    · rename_i possible
      exact ⟨rfl, fun _ => ⟨inside, possible⟩⟩
    · rename_i impossible
      rw [if_neg impossible] at ok
      contradiction
  · rename_i no_actual
    exact ⟨rfl, fun actual => absurd actual.2 no_actual⟩

theorem checkTargets_ok : ∀ {n : Nat}, n ≤ r.vlimit - r.vbase →
    ((List.range n).foldl (fun state k => checkTarget r state (r.vbase + k)) state).validatesOk = true →
    (List.range n).foldl (fun state k => checkTarget r state (r.vbase + k)) state = state ∧
      ∀ k < n, Actual r state (r.vbase + k) → Possible r state (r.vbase + k)
  | 0, _, _ => ⟨rfl, fun k none => absurd none (Nat.not_lt_zero k)⟩
  | n + 1, within, ok => by
    have inside : inRegion r (r.vbase + n) = true := inRegion_iff.mpr (by omega)
    simp only [range_succ, foldl_append, foldl_cons, foldl_nil] at ok ⊢
    obtain ⟨same, last⟩ := checkTarget_ok inside ok
    rw [same] at ok ⊢
    obtain ⟨before, targets⟩ := checkTargets_ok (by omega) ok
    rw [before] at last
    refine ⟨before, fun k small => ?_⟩
    rcases Nat.lt_succ_iff_lt_or_eq.mp small with less | rfl
    · exact targets k less
    · exact last

theorem checkBlock_ok (ok : (checkBlock r state addr).validatesOk = true) :
    checkBlock r state addr = state ∧ Possible r state addr := by
  unfold checkBlock at ok ⊢
  cases inside : inRegion r addr with
  | false =>
    simp only [naClAddressSetContains, inside] at ok
    contradiction
  | true =>
    simp only [contains_ok inside] at ok ⊢
    split
    · rename_i possible
      exact ⟨rfl, inside, possible⟩
    · rename_i impossible
      rw [if_neg impossible] at ok
      contradiction

theorem checkBlocks_ok {fuel : Nat} : ∀ {addr state},
    checkBlocks r fuel addr state = some state' → state'.validatesOk = true →
      state' = state ∧ ∀ k, addr + k * r.alignment < r.vlimit → Possible r state (addr + k * r.alignment) := by
  have bounded := r.bounded
  induction fuel with
  | zero =>
    intro addr state ran
    contradiction
  | succ fuel ih =>
    intro addr state ran ok
    unfold checkBlocks at ran
    split at ran
    · obtain ⟨same, blocks⟩ := ih ran ok
      rw [same] at ok
      obtain ⟨unchanged, first⟩ := checkBlock_ok ok
      rw [unchanged] at same blocks
      refine ⟨same, fun k small => ?_⟩
      cases k with
      | zero => simpa using first
      | succ k =>
        rw [Nat.succ_mul] at small ⊢
        have no_wrap : (addr + r.alignment) % 2 ^ 64 = addr + r.alignment :=
          Nat.mod_eq_of_lt (by omega)
        rw [no_wrap] at blocks
        have := blocks k (by omega)
        rwa [show addr + (k * r.alignment + r.alignment) = addr + r.alignment + k * r.alignment by
          omega]
    · rename_i done
      cases ran
      exact ⟨rfl, fun k small => absurd (Nat.lt_of_le_of_lt (Nat.le_add_right _ _) small) done⟩

theorem summarize_ok {fuel : Nat} (ran : naClJumpValidatorSummarize r fuel state = some state')
    (ok : state'.validatesOk = true) :
    state' = state ∧ (∀ a, Actual r state a → Possible r state a) ∧ r.vbase % r.alignment = 0 ∧
      ∀ a, inRegion r a = true → a % r.alignment = 0 → Possible r state a := by
  unfold naClJumpValidatorSummarize at ran
  simp only [land_alignmentMask] at ran
  split at ran
  · rename_i aligned
    obtain ⟨same, blocks⟩ := checkBlocks_ok ran ok
    rw [same] at ok
    obtain ⟨unchanged, targets⟩ := checkTargets_ok (Nat.le_refl _) ok
    rw [unchanged] at same blocks
    refine ⟨same, fun a actual => ?_, aligned, fun a inside whole => ?_⟩
    · have inside := inRegion_iff.mp actual.1
      have := targets (a - r.vbase) (by omega)
      rw [Nat.add_sub_cancel' inside.1] at this
      exact this actual
    · have inside := inRegion_iff.mp inside
      obtain ⟨k, block⟩ := (Nat.dvd_of_mod_eq_zero whole)
      obtain ⟨j, base⟩ := (Nat.dvd_of_mod_eq_zero aligned)
      have position : r.vbase + (k - j) * r.alignment = a := by
        rw [Nat.sub_mul, block, base, Nat.mul_comm r.alignment j, Nat.mul_comm r.alignment k]
        rw [block, base, Nat.mul_comm r.alignment j, Nat.mul_comm r.alignment k] at inside
        omega
      have := blocks (k - j) (by omega)
      rwa [position] at this
  · cases ran
    contradiction

end Summary

end Glopen.Ncval64

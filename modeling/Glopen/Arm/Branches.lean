import Glopen.Arm.Fallthrough

/-! The second pass visits every recorded branch, and the two passes together. -/
namespace Glopen.Arm

open Memory

section Iteration

variable {rest : List CodeSegment} {it : Iterator} {fuel : Nat}
variable {σ : Type} {sink : ProblemSink σ} {sfi : SfiValidator} {segments : List CodeSegment}
  {branches critical : AddressSet} {ok : Bool} {out out' : σ}

theorem finish_eq (s : AddressSet) : s.finish = ⟨s.words, 0⟩ := by
  unfold AddressSet.finish AddressSet.advance
  rw [Nat.sub_self]
  rfl

theorem advance_moved (s : AddressSet) (it : Iterator) (inside : it.index ≤ s.words)
    (small : it.shift ≤ 32) (fresh : it.index = s.words → it.shift = 0) :
    Moved s.bits s.words it.pos (s.advance it) := by
  have moved := advanceFrom_spec s.bits (s.words - it.index) it small (fun none => fresh (by omega))
  rwa [Nat.add_sub_cancel' inside] at moved

def BranchChecked (sfi : SfiValidator) (segments : List CodeSegment) (branches critical : AddressSet)
    (p : Nat) : Prop :=
  ∃ segment ∈ segments, segment.containsAddress ((branches.base + 4 * p) % 2 ^ 32) = true ∧
    branchProblem sfi segments critical
      (sfi.decodeAt segment ((branches.base + 4 * p) % 2 ^ 32)) = none

theorem branchLoop_step (sub : rest ⊆ segments) (more : it ≠ branches.finish)
    (ran : branchLoop sink sfi segments branches critical (fuel + 1) it rest ok out = some (true, out'))
    (sticky : ∀ it rest out,
      branchLoop sink sfi segments branches critical fuel it rest false out ≠ some (true, out')) :
    BranchChecked sfi segments branches critical it.pos ∧ ∃ later, later ⊆ segments ∧
      branchLoop sink sfi segments branches critical fuel (branches.next it) later ok out =
        some (true, out') := by
  unfold branchLoop at ran
  rw [if_neg more] at ran
  simp only at ran
  split at ran
  · contradiction
  rename_i segment later found
  have listed : segment :: later ⊆ segments := by
    rw [← found]
    exact fun x member => sub (List.dropWhile_sublist _ |>.subset member)
  have contained : segment.containsAddress (branches.deref it) = true := by
    have head := List.head?_dropWhile_not (fun s : CodeSegment => !s.containsAddress (branches.deref it)) rest
    rw [found] at head
    simpa using head
  split at ran
  · rename_i fine
    refine ⟨⟨segment, listed (by simp), ?_, ?_⟩, segment :: later, listed, ran⟩
    · rw [show branches.base + 4 * it.pos = branches.base + 4 * (it.index * 32 + it.shift) by
        simp only [Iterator.pos]; omega]
      exact contained
    · rw [show branches.base + 4 * it.pos = branches.base + 4 * (it.index * 32 + it.shift) by
        simp only [Iterator.pos]; omega]
      exact fine
  · split at ran
    · exact absurd ran (sticky _ _ _)
    · cases (Prod.mk.inj (Option.some.inj ran)).1

theorem branchLoop_false {out : σ} :
    branchLoop sink sfi segments branches critical fuel it rest false out ≠ some (true, out') := by
  induction fuel generalizing it rest out with
  | zero => nofun
  | succ fuel ih =>
    intro ran
    unfold branchLoop at ran
    split at ran
    · cases (Prod.mk.inj (Option.some.inj ran)).1
    · simp only at ran
      split at ran
      · contradiction
      split at ran
      · exact ih ran
      · split at ran
        · exact ih ran
        · cases (Prod.mk.inj (Option.some.inj ran)).1

theorem branchLoop_ok {start : Nat} (sub : rest ⊆ segments) (moved : Moved branches.bits branches.words start it)
    (ran : branchLoop sink sfi segments branches critical fuel it rest ok out = some (true, out')) :
    ok = true ∧ ∀ p, start ≤ p → p < 32 * branches.words → BitTable.get branches.bits p = true →
      BranchChecked sfi segments branches critical p := by
  induction fuel generalizing it rest ok out start with
  | zero => contradiction
  | succ fuel ih =>
    by_cases done : it = branches.finish
    · unfold branchLoop at ran
      rw [if_pos done] at ran
      obtain ⟨rfl, -⟩ := Prod.mk.inj (Option.some.inj ran)
      refine ⟨rfl, ?_⟩
      intro p lower upper set
      rw [finish_eq] at done
      have none := moved.skipped p lower (by rw [done]; simp only [Iterator.pos]; omega)
      rw [none] at set
      contradiction
    · obtain ⟨checked, later, listed, next⟩ := branchLoop_step sub done ran (fun _ _ _ => branchLoop_false)
      rw [finish_eq] at done
      obtain ⟨inside, inner, after, -⟩ := moved.stopped.resolve_left done
      have onward : Moved branches.bits branches.words (it.pos + 1) (branches.next it) :=
        advance_moved branches { it with shift := it.shift + 1 } (by simp only; omega)
          (by simp only; omega) (by simp only; omega)
      obtain ⟨entry, others⟩ := ih listed onward next
      refine ⟨entry, ?_⟩
      intro p lower upper set
      rcases Nat.lt_trichotomy p it.pos with before | rfl | past
      · rw [moved.skipped p lower before] at set
        contradiction
      · exact checked
      · exact others p (by omega) upper set

theorem validateBranches_ok
    (ran : validateBranches sink sfi fuel segments branches critical out = some (true, out')) :
    ∀ p < 32 * branches.words, BitTable.get branches.bits p = true →
      BranchChecked sfi segments branches critical p := by
  have start := advance_moved branches ⟨0, 0⟩ (Nat.zero_le _) (Nat.zero_le _) (fun _ => rfl)
  intro p upper set
  exact (branchLoop_ok (fun _ member => member) start ran).2 p (Nat.zero_le _) upper set

end Iteration

end Glopen.Arm

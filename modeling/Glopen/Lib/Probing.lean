import Mathlib.Data.Nat.ModEq

/-! Searching a ring of places: follow `next` until a place satisfies `stop`. The search may go
on forever; `fuel` bounds the number of places looked at. -/
namespace Glopen.Probing

open Function

def firstStop (stop : Nat → Bool) (next : Nat → Nat) : Nat → Nat → Option Nat
  | 0, _ => none
  | fuel + 1, idx => if stop idx then some idx else firstStop stop next fuel (next idx)

variable {stop : Nat → Bool} {next : Nat → Nat}
variable {fuel k idx size step : Nat}

theorem firstStop_eq_some (enough : k < fuel)
    (reached : stop (next^[k] idx) = true) (before : ∀ j < k, stop (next^[j] idx) = false) :
    firstStop stop next fuel idx = some (next^[k] idx) := by
  induction fuel generalizing k idx with
  | zero => omega
  | succ fuel ih =>
    rw [firstStop]
    cases k with
    | zero =>
      rw [iterate_zero_apply] at reached ⊢
      rw [if_pos reached]
    | succ k =>
      have first : stop idx = false := before 0 (by omega)
      rw [first, if_neg Bool.false_ne_true, iterate_succ_apply]
      rw [iterate_succ_apply] at reached
      refine ih (by omega) reached fun j less => ?_
      rw [← iterate_succ_apply]
      exact before (j + 1) (by omega)

theorem firstStop_eq_none (never : ∀ k, stop (next^[k] idx) = false) : firstStop stop next fuel idx = none := by
  induction fuel generalizing idx with
  | zero => rfl
  | succ fuel ih =>
    have first : stop idx = false := never 0
    rw [firstStop, first, if_neg Bool.false_ne_true]
    refine ih fun k => ?_
    rw [← iterate_succ_apply]
    exact never (k + 1)

/-- A search that meets a stopping place meets a first one. -/
theorem exists_first (reached : stop (next^[k] idx) = true) :
    ∃ m ≤ k, stop (next^[m] idx) = true ∧ ∀ j < m, stop (next^[j] idx) = false := by
  induction k using Nat.strong_induction_on with
  | _ k ih =>
    by_cases early : ∃ j < k, stop (next^[j] idx) = true
    · obtain ⟨j, less, here⟩ := early
      obtain ⟨m, le, found⟩ := ih j less here
      exact ⟨m, by omega, found⟩
    · refine ⟨k, Nat.le_refl k, reached, fun j less => ?_⟩
      exact Bool.eq_false_iff.mpr fun here => early ⟨j, less, here⟩

/-- The next place on a ring of `size` places. -/
def stride (size step idx : Nat) : Nat := (idx + step) % size

theorem stride_iterate (k : Nat) (inside : idx < size) :
    (stride size step)^[k] idx = (idx + k * step) % size := by
  induction k with
  | zero => rw [iterate_zero_apply, Nat.zero_mul, Nat.add_zero, Nat.mod_eq_of_lt inside]
  | succ k ih =>
    rw [iterate_succ_apply', ih, stride, Nat.mod_add_mod, Nat.add_assoc, Nat.succ_mul]

/-- A step that is coprime to the size visits every place. -/
theorem stride_visits {target : Nat} (coprime : Nat.Coprime step size)
    (inside : idx < size) (valid : target < size) : ∃ k < size, (stride size step)^[k] idx = target := by
  by_cases single : size = 1
  · refine ⟨0, by omega, ?_⟩
    rw [iterate_zero_apply]
    omega
  obtain ⟨inverse, -, unit⟩ :=
    Nat.exists_mul_mod_eq_one_of_coprime coprime (by omega : 1 < size)
  have offset : idx + (size - idx + target) = target + size := by omega
  refine ⟨(size - idx + target) * inverse % size, Nat.mod_lt _ (by omega), ?_⟩
  rw [stride_iterate _ inside]
  have walked : idx + (size - idx + target) * inverse % size * step ≡ target [MOD size] := by
    calc idx + (size - idx + target) * inverse % size * step
        ≡ idx + (size - idx + target) * inverse * step [MOD size] :=
          ((Nat.mod_modEq _ _).mul_right _).add_left _
      _ = idx + (size - idx + target) * (step * inverse) := by
          rw [Nat.mul_assoc, Nat.mul_comm inverse]
      _ ≡ idx + (size - idx + target) * 1 [MOD size] := by
          refine (Nat.ModEq.mul_left _ ?_).add_left _
          exact unit.trans (Nat.mod_eq_of_lt (by omega)).symm
      _ = target + size := by rw [Nat.mul_one, offset]
      _ ≡ target [MOD size] := Nat.add_mod_right target size
  exact Eq.trans walked (Nat.mod_eq_of_lt valid)

end Glopen.Probing

import Mathlib.Algebra.Group.Nat.Defs
import Mathlib.Data.List.Basic

/-! Sets of numbers as arrays of machine words, one bit for each number. -/
namespace Glopen.BitTable

open BitVec

variable {w : Nat}

abbrev Table (w : Nat) := Nat → BitVec w

def mask (w i : Nat) : BitVec w := 1#w <<< (i % w)

def empty : Table w := fun _ => 0#w

def get (t : Table w) (i : Nat) : Bool := t (i / w) &&& mask w i != 0#w

def set (t : Table w) (i : Nat) : Table w :=
  fun k => if k = i / w then t k ||| mask w i else t k

def clear (t : Table w) (i : Nat) : Table w :=
  fun k => if k = i / w then t k &&& ~~~ mask w i else t k

theorem getLsbD_mask {i k : Nat} (inner : k < w) : (mask w i).getLsbD k = decide (k = i % w) := by
  have positive : 0 < w := by omega
  have small : i % w < w := Nat.mod_lt i positive
  simp only [mask, getLsbD_shiftLeft, getLsbD_one]
  by_cases same : k = i % w
  · subst same
    simp [small, positive]
  · by_cases below : k < i % w
    · simp [below, same]
    · have above : k - i % w ≠ 0 := by omega
      simp [above, same]

/-- Reading a number is reading its bit. -/
theorem get_eq_getLsbD (positive : 0 < w) (t : Table w) (i : Nat) : get t i = (t (i / w)).getLsbD (i % w) := by
  have small : i % w < w := Nat.mod_lt i positive
  cases bit : (t (i / w)).getLsbD (i % w) with
  | true =>
    rw [get, bne_iff_ne]
    intro zero
    have := congrArg (fun v => BitVec.getLsbD v (i % w)) zero
    simp [getLsbD_and, bit, getLsbD_mask small] at this
  | false =>
    have zero : t (i / w) &&& mask w i = 0#w := by
      apply eq_of_getLsbD_eq
      intro k inner
      rw [getLsbD_and, getLsbD_mask inner, getLsbD_zero]
      by_cases same : k = i % w
      · rw [same, bit, Bool.false_and]
      · simp [same]
    simp [get, zero]

theorem same_iff {i j : Nat} : (j / w = i / w ∧ j % w = i % w) ↔ i = j := by
  constructor
  · rintro ⟨words, bits⟩
    rw [← Nat.div_add_mod i w, ← Nat.div_add_mod j w, words, bits]
  · rintro rfl
    exact ⟨rfl, rfl⟩

theorem get_empty (i : Nat) : get (empty : Table w) i = false := by
  simp [get, empty]

theorem get_set (positive : 0 < w) (t : Table w) (i j : Nat) :
    get (set t i) j = (get t j || decide (i = j)) := by
  have inner : j % w < w := Nat.mod_lt j positive
  rw [get_eq_getLsbD positive, get_eq_getLsbD positive, set]
  split
  · rename_i words
    have only_bits := same_iff (w := w) (i := i) (j := j)
    rw [getLsbD_or, getLsbD_mask inner]
    congr 1
    exact decide_eq_decide.mpr ⟨fun bits => only_bits.mp ⟨words, bits⟩, fun same => same ▸ rfl⟩
  · rename_i words
    have apart : i ≠ j := fun same => words (same ▸ rfl)
    simp [apart]

theorem get_word (t : Table w) (word k : Nat) (inner : k < w) : get t (w * word + k) = (t word).getLsbD k := by
  rw [get_eq_getLsbD (by omega), Nat.mul_add_div (by omega), Nat.div_eq_of_lt inner,
    Nat.add_zero, Nat.mul_add_mod, Nat.mod_eq_of_lt inner]

theorem get_clear (positive : 0 < w) (t : Table w) (i j : Nat) :
    get (clear t i) j = (get t j && decide (i ≠ j)) := by
  have inner : j % w < w := Nat.mod_lt j positive
  rw [get_eq_getLsbD positive, get_eq_getLsbD positive, clear]
  split
  · rename_i words
    have only_bits := same_iff (w := w) (i := i) (j := j)
    rw [getLsbD_and, getLsbD_not, getLsbD_mask inner]
    by_cases same : i = j
    · simp [same]
    · have bits : j % w ≠ i % w := fun bits => same (only_bits.mp ⟨words, bits⟩)
      simp [same, bits, inner]
  · rename_i words
    have apart : i ≠ j := fun same => words (same ▸ rfl)
    simp [apart]

end Glopen.BitTable

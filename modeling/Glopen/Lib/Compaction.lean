import Mathlib.Data.List.DropRight
import Mathlib.Data.List.Perm.Basic

/-! Removal of marked elements by moving the last unmarked element to their places. -/
namespace Glopen.Compaction

open List
variable {α : Type} (gone : α → Bool)

/-- The elements from the current one on, of which the last is unmarked. A marked element is
replaced by the last one, and marks that then stand at the end are dropped. -/
def compact : List α → List α
  | [] => []
  | a :: rest =>
    if gone a then
      match rest.getLast? with
      | none => [a]
      | some back => back :: compact (rest.dropLast.rdropWhile gone)
    else a :: compact rest
termination_by l => l.length
decreasing_by
  · have shorter := (List.rdropWhile_prefix gone rest.dropLast).length_le
    rw [List.length_dropLast] at shorter
    rw [List.length_cons]
    omega
  · exact Nat.lt_succ_self _

/-- The last element, if there is one, is unmarked. -/
def EndsKept (l : List α) : Prop := ∀ a ∈ l.getLast?, gone a = false

variable {gone} {l : List α}

theorem rdropWhile_endsKept : EndsKept gone (l.rdropWhile gone) := by
  intro a last
  obtain ⟨nonempty, rfl⟩ := List.mem_getLast?_eq_getLast last
  exact Bool.eq_false_iff.mpr (rdropWhile_last_not gone l nonempty)

theorem rdropWhile_filter : (l.rdropWhile gone).filter (!gone ·) = l.filter (!gone ·) := by
  have dropped : (l.rtakeWhile gone).filter (!gone ·) = [] :=
    filter_eq_nil_iff.mpr fun a member => by simp [mem_rtakeWhile_imp member]
  conv_rhs => rw [← @rdropWhile_append_rtakeWhile α gone l]
  rw [filter_append, dropped, append_nil]

theorem EndsKept.tail {a b : α} {rest : List α} (ends : EndsKept gone (a :: b :: rest)) :
    EndsKept gone (b :: rest) := fun c last => ends c (by rwa [List.getLast?_cons_cons])

/-- Compaction leaves the unmarked elements, in another order. -/
theorem compact_perm (ends : EndsKept gone l) : (compact gone l).Perm (l.filter (!gone ·)) := by
  induction l using compact.induct gone with
  | case1 =>
    rw [compact]
    exact List.Perm.refl _
  | case2 a rest marked none =>
    rw [List.getLast?_eq_none_iff.mp none] at ends
    exact absurd (ends a rfl) (by simp [marked])
  | case3 a rest marked back last ih =>
    obtain ⟨front, rfl⟩ := List.getLast?_eq_some_iff.mp last
    have kept : gone back = false :=
      ends back (by rw [← cons_append, List.getLast?_concat]; rfl)
    rw [compact, if_pos marked]
    simp only [last]
    refine ((ih rdropWhile_endsKept).cons back).trans ?_
    rw [dropLast_concat, rdropWhile_filter, filter_cons_of_neg (by simp [marked]),
      filter_append, filter_singleton, kept]
    exact (perm_append_singleton back _).symm
  | case4 a rest unmarked ih =>
    rw [compact, if_neg unmarked, filter_cons_of_pos (by simpa using unmarked)]
    refine (ih ?_).cons a
    cases rest with
    | nil => exact fun _ none => nomatch none
    | cons b rest => exact ends.tail

end Glopen.Compaction

import Mathlib.Data.List.Basic
import Mathlib.Data.List.Induction

/-! Lines that end with two terminators in a row, cut off a stream item by item. -/
namespace Glopen.Lines

open List
variable {α : Type} {line : List α}

section Plain

/-- The terminators do not stand in the line. -/
def Plain (cr lf : α) (line : List α) : Prop := ¬ [cr, lf] <:+: line

variable {cr lf : α}

theorem plain_nil : Plain cr lf [] := by
  intro isInfix
  cases eq_nil_of_infix_nil isInfix

variable {c : α}

theorem plain_append_singleton (plain : Plain cr lf line)
    (goes_on : ¬ (c = lf ∧ line.getLast? = some cr)) : Plain cr lf (line ++ [c]) := by
  rintro ⟨front, back, eq⟩
  cases back using List.reverseRecOn with
  | nil =>
    rw [append_nil, ← singleton_append, ← append_assoc] at eq
    obtain ⟨eq, last⟩ := append_inj' eq rfl
    refine goes_on ⟨(List.cons.inj last).1.symm, ?_⟩
    rw [← eq, List.getLast?_concat]
  | append_singleton back d =>
    rw [← append_assoc] at eq
    obtain ⟨eq, -⟩ := append_inj' eq rfl
    exact plain ⟨front, back, eq⟩

theorem goes_on (plain : Plain cr lf (line ++ [c])) : ¬ (c = lf ∧ line.getLast? = some cr) := by
  rintro ⟨rfl, last⟩
  obtain ⟨front, rfl⟩ := List.getLast?_eq_some_iff.mp last
  exact plain ⟨front, [], by simp⟩

end Plain

section Cut

variable [DecidableEq α] (cr lf : α)

/-- The lines so far and the start of the next one. -/
def step (state : List (List α) × List α) (c : α) : List (List α) × List α :=
  if c = lf ∧ state.2.getLast? = some cr then (state.1 ++ [state.2.dropLast], [])
  else (state.1, state.2 ++ [c])

def cutFrom (state : List (List α) × List α) (stream : List α) : List (List α) × List α :=
  stream.foldl (step cr lf) state

def cut (stream : List α) : List (List α) × List α := cutFrom cr lf ([], []) stream

variable {cr lf}

theorem cutFrom_append (state : List (List α) × List α) (front back : List α) :
    cutFrom cr lf state (front ++ back) = cutFrom cr lf (cutFrom cr lf state front) back :=
  foldl_append ..

theorem cutFrom_lines (lines : List (List α)) (start stream : List α) : cutFrom cr lf (lines, start) stream =
      (lines ++ (cutFrom cr lf ([], start) stream).1, (cutFrom cr lf ([], start) stream).2) := by
  induction stream using List.reverseRecOn with
  | nil => simp [cutFrom]
  | append_singleton stream c ih =>
    rw [cutFrom_append, cutFrom_append, ih]
    generalize cutFrom cr lf ([], start) stream = state
    simp only [cutFrom, foldl_cons, foldl_nil, step]
    split
    · simp
    · rfl

/-- What is left never holds a whole line. -/
theorem cut_rest_plain (stream : List α) : Plain cr lf (cut cr lf stream).2 := by
  unfold cut
  induction stream using List.reverseRecOn with
  | nil => exact plain_nil
  | append_singleton stream c ih =>
    rw [cutFrom_append]
    generalize cutFrom cr lf ([], []) stream = state at ih
    simp only [cutFrom, foldl_cons, foldl_nil, step]
    split
    · exact plain_nil
    · rename_i on
      exact plain_append_singleton ih on

theorem cut_plain (plain : Plain cr lf line) : cut cr lf line = ([], line) := by
  induction line using List.reverseRecOn with
  | nil => rfl
  | append_singleton line c ih =>
    have front : Plain cr lf line := fun isInfix =>
      plain (isInfix.trans (prefix_append line [c]).isInfix)
    have before := ih front
    unfold cut at before ⊢
    rw [cutFrom_append, before]
    simp only [cutFrom, foldl_cons, foldl_nil, step, if_neg (goes_on plain)]

/-- A stream may be cut at any point, if what is left is put in front of the rest. -/
theorem cut_append (front back : List α) :
    cut cr lf (front ++ back) = ((cut cr lf front).1 ++ (cut cr lf ((cut cr lf front).2 ++ back)).1,
      (cut cr lf ((cut cr lf front).2 ++ back)).2) := by
  have again := cut_plain (@cut_rest_plain _ _ cr lf front)
  generalize cut_eq : cut cr lf front = state at again ⊢
  unfold cut at cut_eq again ⊢
  rw [cutFrom_append, cutFrom_append, cut_eq, again]
  exact cutFrom_lines state.1 state.2 back

theorem cut_line (different : cr ≠ lf) (plain : Plain cr lf line) (back : List α) :
    cut cr lf (line ++ cr :: lf :: back) = (line :: (cut cr lf back).1, (cut cr lf back).2) := by
  have first : cut cr lf (line ++ [cr, lf]) = ([line], []) := by
    have before := cut_plain plain
    unfold cut at before ⊢
    rw [cutFrom_append, before]
    simp [cutFrom, step, different]
  have split : line ++ cr :: lf :: back = (line ++ [cr, lf]) ++ back := by simp
  rw [split, cut_append, first, nil_append, singleton_append]

/-- Whole lines are what is cut. -/
theorem cut_lines (different : cr ≠ lf) {lines : List (List α)} (plain : ∀ line ∈ lines, Plain cr lf line) :
    cut cr lf (lines.flatMap fun line => line ++ [cr, lf]) = (lines, []) := by
  induction lines with
  | nil => rfl
  | cons line lines ih =>
    obtain ⟨first, rest⟩ := forall_mem_cons.mp plain
    rw [flatMap_cons, append_assoc, cons_append, cons_append, nil_append, cut_line different first, ih rest]

end Cut

end Glopen.Lines

import Mathlib.Data.List.Basic

/-! Gaps between intervals that are listed in ascending order. -/
namespace Glopen.Gaps

open List
variable {α : Type} (start stop : α → Nat)

/-- Each interval ends before the later ones start. -/
def InOrder (l : List α) : Prop := l.Pairwise fun a b => stop a ≤ start b

/-- No interval meets the numbers from `low` to `high`. -/
def Free (l : List α) (low high : Nat) : Prop := ∀ e ∈ l, stop e ≤ low ∨ high ≤ start e

variable {start stop} {l : List α} {low high : Nat}

theorem Free.part (free : Free start stop l low high) {low' high' : Nat} (left : low ≤ low')
    (right : high' ≤ high) : Free start stop l low' high' := by
  intro e member
  rcases free e member with before | behind
  · exact .inl (Nat.le_trans before left)
  · exact .inr (Nat.le_trans right behind)

/-- Between neighbours there is nothing. -/
theorem InOrder.gap_free (order : InOrder start stop l) (proper : ∀ e ∈ l, start e ≤ stop e)
    {a b : α} (pair : (a, b) ∈ l.zip l.tail) : a ∈ l ∧ b ∈ l ∧ Free start stop l (stop a) (start b) := by
  induction l with
  | nil => exact absurd pair not_mem_nil
  | cons x rest ih =>
    obtain ⟨behind, order_rest⟩ := pairwise_cons.mp order
    cases rest with
    | nil => exact absurd pair not_mem_nil
    | cons y rest =>
      rcases mem_cons.mp pair with same | later
      · cases same
        refine ⟨mem_cons_self, mem_cons_of_mem _ mem_cons_self, fun e member => ?_⟩
        rcases mem_cons.mp member with rfl | member
        · exact .inl (Nat.le_refl _)
        rcases mem_cons.mp member with rfl | member
        · exact .inr (Nat.le_refl _)
        · right
          have := proper b (mem_cons_of_mem _ mem_cons_self)
          exact Nat.le_trans this ((pairwise_cons.mp order_rest).1 e member)
      · obtain ⟨first, second, free⟩ :=
          ih order_rest (fun e member => proper e (mem_cons_of_mem _ member)) later
        refine ⟨mem_cons_of_mem _ first, mem_cons_of_mem _ second, fun e member => ?_⟩
        rcases mem_cons.mp member with rfl | member
        · left
          exact Nat.le_trans (behind a first) (proper a (mem_cons_of_mem _ first))
        · exact free e member

/-- What is free between two intervals lies between two neighbours. -/
theorem InOrder.free_gap (order : InOrder start stop l) (nonempty : ∀ e ∈ l, start e < stop e)
    (range : low ≤ high) (free : Free start stop l low high) (below : ∃ a ∈ l, stop a ≤ low)
    (above : ∃ b ∈ l, high ≤ start b) : ∃ pair ∈ l.zip l.tail, stop pair.1 ≤ low ∧ high ≤ start pair.2 := by
  induction l with
  | nil =>
    obtain ⟨a, member, -⟩ := below
    exact absurd member not_mem_nil
  | cons x rest ih =>
    obtain ⟨behind, order_rest⟩ := pairwise_cons.mp order
    have first := nonempty x mem_cons_self
    by_cases later : ∃ a ∈ rest, stop a ≤ low
    · have above_rest : ∃ b ∈ rest, high ≤ start b := by
        obtain ⟨a, member, ends⟩ := later
        obtain ⟨b, among, starts⟩ := above
        rcases mem_cons.mp among with rfl | among
        · have := behind a member
          have := nonempty a (mem_cons_of_mem _ member)
          omega
        · exact ⟨b, among, starts⟩
      obtain ⟨pair, member, ends, starts⟩ := ih order_rest
        (fun e member => nonempty e (mem_cons_of_mem _ member))
        (fun e member => free e (mem_cons_of_mem _ member)) later above_rest
      cases rest with
      | nil => exact absurd member not_mem_nil
      | cons y rest => exact ⟨pair, mem_cons_of_mem _ member, ends, starts⟩
    · obtain ⟨a, member, ends⟩ := below
      obtain rfl : a = x := (mem_cons.mp member).resolve_right fun among =>
        later ⟨a, among, ends⟩
      obtain ⟨b, among, starts⟩ := above
      cases rest with
      | nil =>
        obtain rfl := mem_singleton.mp among
        omega
      | cons y rest =>
        refine ⟨(a, y), mem_cons_self, ends, ?_⟩
        refine (free y (mem_cons_of_mem _ mem_cons_self)).resolve_left fun before => ?_
        exact later ⟨y, mem_cons_self, before⟩

end Glopen.Gaps

import Glopen.Lib.Gaps
import Glopen.Nacl.Vmmap

/-! The searches of sel_mem.c for free space: what they find is free, and they find what is. -/
namespace Glopen.Nacl

open Gaps
variable {arch : Arch} {map : List VmmapEntry}

def wholeMapPages (npages : Nat) : Nat := (npages + 15) / 16 * 16

structure MapGap (map : List VmmapEntry) (page size : Nat) : Prop where
  free : ∀ e ∈ map, e.stop ≤ page ∨ page + size ≤ e.pageNum
  below : ∃ a ∈ map, a.stop ≤ page
  above : ∃ b ∈ map, page + size ≤ b.pageNum

/-- Page numbers that fit into an `int`, so that the comparison of the sort orders them. -/
def SmallPages (map : List VmmapEntry) : Prop := ∀ e ∈ map, e.stop < 2 ^ 31

theorem roundPages_eq {n : Nat} (small : n + 16 ≤ 2 ^ arch.ptrBits) :
    naClRoundPageNumUpToMapMultiple arch n = wholeMapPages n := by
  rw [naClRoundPageNumUpToMapMultiple, roundUp, naclPagesPerMap, wholeMapPages,
    Nat.mod_eq_of_lt (by omega), Nat.add_sub_assoc (by decide)]

theorem truncPages_eq (n : Nat) : truncTo naclPagesPerMap n = n / 16 * 16 := rfl

section Neighbours

variable (tidy : Tidy map)
include tidy

theorem sorted_nonempty : ∀ e ∈ naClVmmapMakeSorted map, e.pageNum < e.stop := by
  intro e member
  have := tidy.nonempty e (makeSorted_mem.mp member)
  unfold VmmapEntry.stop
  omega

variable {pair : VmmapEntry × VmmapEntry} {page size : Nat}

theorem neighbours_gap (member : pair ∈ neighbours map) (left : pair.1.stop ≤ page)
    (right : page + size ≤ pair.2.pageNum) : MapGap map page size := by
  have order : InOrder VmmapEntry.pageNum VmmapEntry.stop (naClVmmapMakeSorted map) :=
    makeSorted_ascending tidy
  obtain ⟨first, second, free⟩ := order.gap_free (fun e member => (sorted_nonempty tidy e member).le) member
  exact ⟨fun e among => free.part left right e (makeSorted_mem.mpr among),
    ⟨pair.1, makeSorted_mem.mp first, left⟩, ⟨pair.2, makeSorted_mem.mp second, right⟩⟩

theorem gap_neighbours (gap : MapGap map page size) :
    ∃ pair ∈ neighbours map, pair.1.stop ≤ page ∧ page + size ≤ pair.2.pageNum := by
  have order : InOrder VmmapEntry.pageNum VmmapEntry.stop (naClVmmapMakeSorted map) :=
    makeSorted_ascending tidy
  obtain ⟨a, below, left⟩ := gap.below
  obtain ⟨b, above, right⟩ := gap.above
  exact order.free_gap (sorted_nonempty tidy) (Nat.le_add_right _ _)
    (fun e member => gap.free e (makeSorted_mem.mp member)) ⟨a, makeSorted_mem.mpr below, left⟩
    ⟨b, makeSorted_mem.mpr above, right⟩

theorem neighbours_mem (member : pair ∈ neighbours map) : pair.1 ∈ map ∧ pair.2 ∈ map := by
  have order : InOrder VmmapEntry.pageNum VmmapEntry.stop (naClVmmapMakeSorted map) :=
    makeSorted_ascending tidy
  obtain ⟨first, second, -⟩ := order.gap_free (fun e member => (sorted_nonempty tidy e member).le) member
  exact ⟨makeSorted_mem.mp first, makeSorted_mem.mp second⟩

end Neighbours

section Searches

variable {npages : Nat} (tidy : Tidy map) (small : SmallPages map) (some_pages : 0 < npages)
  (fits : npages + 16 ≤ 2 ^ arch.ptrBits)
include tidy small

theorem neighbours_rounded {pair : VmmapEntry × VmmapEntry} (member : pair ∈ neighbours map) :
    naClRoundPageNumUpToMapMultiple arch pair.1.stop = wholeMapPages pair.1.stop ∧ 0 < pair.1.stop := by
  have width : 2 ^ 32 ≤ 2 ^ arch.ptrBits :=
    Nat.pow_le_pow_right (by decide) (by cases arch <;> decide)
  have among := (neighbours_mem tidy member).1
  have below := small pair.1 among
  have nonempty := tidy.nonempty pair.1 among
  refine ⟨roundPages_eq (by omega), ?_⟩
  unfold VmmapEntry.stop
  omega
include some_pages fits

theorem findMapSpace_cases : (∃ pair ∈ neighbours map, 0 < pair.1.stop ∧
        wholeMapPages pair.1.stop + wholeMapPages npages ≤ pair.2.pageNum / 16 * 16 ∧
        naClVmmapFindMapSpace arch map npages = pair.2.pageNum / 16 * 16 - wholeMapPages npages) ∨
      naClVmmapFindMapSpace arch map npages = 0 ∧ ∀ pair ∈ neighbours map,
        pair.2.pageNum / 16 * 16 < wholeMapPages pair.1.stop + wholeMapPages npages := by
  have size : 0 < wholeMapPages npages := by
    unfold wholeMapPages
    omega
  unfold naClVmmapFindMapSpace
  rw [roundPages_eq fits]
  simp only [truncPages_eq]
  split
  · rename_i pair first
    have member := List.mem_reverse.mp (List.mem_of_find?_eq_some first)
    obtain ⟨rounded, positive⟩ := @neighbours_rounded arch map tidy small pair member
    have room := List.find?_some first
    have room := of_decide_eq_true room
    rw [rounded] at room
    exact .inl ⟨pair, member, positive, by omega, rfl⟩
  · rename_i none
    refine .inr ⟨rfl, fun pair member => ?_⟩
    obtain ⟨rounded, -⟩ := @neighbours_rounded arch map tidy small pair member
    have tight := List.find?_eq_none.mp none pair (List.mem_reverse.mpr member)
    have tight := mt decide_eq_true tight
    rw [rounded] at tight
    omega

def hintedStart (usrPage endPage startPage : Nat) : Nat :=
  if endPage ≤ usrPage ∧ usrPage < startPage then usrPage else endPage

omit tidy small some_pages fits in
theorem hintedStart_cases (usrPage endPage startPage : Nat) :
    hintedStart usrPage endPage startPage = usrPage ∧ endPage ≤ usrPage ∧ usrPage < startPage ∨
      hintedStart usrPage endPage startPage = endPage ∧ (usrPage < endPage ∨ startPage ≤ usrPage) := by
  unfold hintedStart
  split
  · rename_i inside
    exact .inl ⟨rfl, inside⟩
  · omega

theorem findAboveHint_cases (uaddr : Nat) : (∃ pair ∈ neighbours map, 0 < pair.1.stop ∧
        uaddr / naclPagesize ≤ hintedStart (uaddr / naclPagesize) (wholeMapPages pair.1.stop)
          (pair.2.pageNum / 16 * 16) ∧
        hintedStart (uaddr / naclPagesize) (wholeMapPages pair.1.stop) (pair.2.pageNum / 16 * 16) +
          wholeMapPages npages ≤ pair.2.pageNum / 16 * 16 ∧
        naClVmmapFindMapSpaceAboveHint arch map uaddr npages =
          hintedStart (uaddr / naclPagesize) (wholeMapPages pair.1.stop) (pair.2.pageNum / 16 * 16)) ∨
      naClVmmapFindMapSpaceAboveHint arch map uaddr npages = 0 ∧ ∀ pair ∈ neighbours map,
        pair.2.pageNum / 16 * 16 ≤ wholeMapPages pair.1.stop ∨
        ¬ (uaddr / naclPagesize ≤ hintedStart (uaddr / naclPagesize) (wholeMapPages pair.1.stop)
            (pair.2.pageNum / 16 * 16) ∧
          hintedStart (uaddr / naclPagesize) (wholeMapPages pair.1.stop)
            (pair.2.pageNum / 16 * 16) + wholeMapPages npages ≤ pair.2.pageNum / 16 * 16) := by
  have size : 0 < wholeMapPages npages := by
    unfold wholeMapPages
    omega
  unfold naClVmmapFindMapSpaceAboveHint
  simp only [roundPages_eq fits, truncPages_eq]
  cases search : (neighbours map).findSome? _ with
  | some page =>
    obtain ⟨pair, member, given⟩ := List.exists_of_findSome?_eq_some search
    obtain ⟨rounded, positive⟩ := @neighbours_rounded arch map tidy small pair member
    rw [rounded] at given
    obtain ⟨apart, given⟩ := Option.ite_none_left_eq_some.mp given
    obtain ⟨room, same⟩ := Option.ite_none_right_eq_some.mp given
    have start := hintedStart_cases (uaddr / naclPagesize) (wholeMapPages pair.1.stop) (pair.2.pageNum / 16 * 16)
    change uaddr / naclPagesize ≤ hintedStart _ _ _ ∧ _ ≤ _ - hintedStart _ _ _ at room
    exact .inl ⟨pair, member, positive, room.1, by omega, (Option.some.inj same).symm⟩
  | none =>
    refine .inr ⟨rfl, fun pair member => ?_⟩
    obtain ⟨rounded, -⟩ := @neighbours_rounded arch map tidy small pair member
    have tight := List.findSome?_eq_none_iff.mp search pair member
    rw [rounded] at tight
    by_cases apart : pair.2.pageNum / 16 * 16 ≤ wholeMapPages pair.1.stop
    · exact .inl apart
    rw [if_neg apart] at tight
    refine .inr fun room => ?_
    change (if uaddr / naclPagesize ≤ hintedStart _ _ _ ∧ _ ≤ _ - hintedStart _ _ _ then
      some (hintedStart _ _ _) else none) = none at tight
    rw [if_pos ⟨room.1, by omega⟩] at tight
    cases tight

/-- Both searches find whole map pages in a gap of the map, the second one at or above the hint,
and they fail only when there is no such gap. -/
theorem free_space_found {uaddr : Nat} (aligned : uaddr % naclMapPagesize = 0) :
    (naClVmmapFindMapSpace arch map npages ≠ 0 → naClVmmapFindMapSpace arch map npages % 16 = 0 ∧
        MapGap map (naClVmmapFindMapSpace arch map npages) (wholeMapPages npages)) ∧
    (naClVmmapFindMapSpace arch map npages = 0 → ∀ page, page % 16 = 0 →
      ¬ MapGap map page (wholeMapPages npages)) ∧
    (naClVmmapFindMapSpaceAboveHint arch map uaddr npages ≠ 0 →
      naClVmmapFindMapSpaceAboveHint arch map uaddr npages % 16 = 0 ∧
        uaddr ≤ naClVmmapFindMapSpaceAboveHint arch map uaddr npages * naclPagesize ∧
        MapGap map (naClVmmapFindMapSpaceAboveHint arch map uaddr npages) (wholeMapPages npages)) ∧
    (naClVmmapFindMapSpaceAboveHint arch map uaddr npages = 0 → ∀ page, page % 16 = 0 →
      uaddr ≤ page * naclPagesize → ¬ MapGap map page (wholeMapPages npages)) := by
  refine ⟨fun found => ?_, fun refused page whole gap => ?_, fun found => ?_,
    fun refused page whole above gap => ?_⟩
  · rcases findMapSpace_cases tidy small some_pages fits with
      ⟨pair, member, positive, room, result⟩ | ⟨none, -⟩
    · rw [result]
      unfold wholeMapPages at room ⊢
      refine ⟨by omega, neighbours_gap tidy member (by omega) (by omega)⟩
    · exact absurd none found
  · obtain ⟨pair, member, left, right⟩ := gap_neighbours tidy gap
    rcases findMapSpace_cases tidy small some_pages fits with
      ⟨other, -, positive, room, result⟩ | ⟨-, tight⟩
    · unfold wholeMapPages at room result
      omega
    · have := tight pair member
      unfold wholeMapPages at this right
      omega
  · rcases findAboveHint_cases tidy small some_pages fits uaddr with
      ⟨pair, member, positive, hint, room, result⟩ | ⟨none, -⟩
    · have start := hintedStart_cases (uaddr / naclPagesize) (wholeMapPages pair.1.stop)
        (pair.2.pageNum / 16 * 16)
      rw [← result] at hint room start
      simp only [naclPagesize, naclMapPagesize, wholeMapPages] at aligned hint room start ⊢
      exact ⟨by omega, by omega, neighbours_gap tidy member (by omega) (by omega)⟩
    · exact absurd none found
  · obtain ⟨pair, member, left, right⟩ := gap_neighbours tidy gap
    rcases findAboveHint_cases tidy small some_pages fits uaddr with
      ⟨other, -, positive, hint, room, result⟩ | ⟨-, tight⟩
    · have start := hintedStart_cases (uaddr / naclPagesize) (wholeMapPages other.1.stop)
        (other.2.pageNum / 16 * 16)
      rw [← result, refused] at start
      unfold wholeMapPages at start
      omega
    · have tight := tight pair member
      have start := hintedStart_cases (uaddr / naclPagesize) (wholeMapPages pair.1.stop)
        (pair.2.pageNum / 16 * 16)
      simp only [naclPagesize, naclMapPagesize, wholeMapPages] at aligned above right tight start
      omega

end Searches

def gapMap : List VmmapEntry := [⟨0, 16, 5⟩, ⟨0x200, 16, 3⟩]

theorem gapMap_tidy : Tidy gapMap :=
  ⟨by decide, by unfold gapMap Apart; decide⟩

theorem free_space_in_gap : MapGap gapMap 0x110 (wholeMapPages 20) := by
  have found := (@free_space_found .x86_32 gapMap 20 gapMap_tidy (by unfold SmallPages; decide)
    (by decide) (by decide) 0x110000 (by decide)).2.2.1 (by decide)
  exact found.2.2

/-- A hint inside a map page is returned as it is, a request of no pages is refused next to an
empty gap, and the size of a request of 2^32 - 1 pages wraps around to 0. -/
theorem search_limits : naClVmmapFindMapSpaceAboveHint .x86_32 gapMap 0x101000 16 = 0x101 ∧
      (naClVmmapFindMapSpace .x86_32 [⟨0, 16, 5⟩, ⟨16, 16, 3⟩] 0 = 0 ∧
        MapGap [⟨0, 16, 5⟩, ⟨16, 16, 3⟩] 16 (wholeMapPages 0)) ∧
      naClVmmapFindMapSpace .x86_32 gapMap (2 ^ 32 - 1) = 0x200 ∧
        ¬ MapGap gapMap 0x200 (wholeMapPages (2 ^ 32 - 1)) := by
  refine ⟨by decide, ⟨by decide, by decide, by decide, by decide⟩, by decide, fun gap => ?_⟩
  have := gap.free ⟨0x200, 16, 3⟩ (by decide)
  revert this
  decide

end Glopen.Nacl

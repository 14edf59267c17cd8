import Glopen.Nacl.Vmmap

/-! An update of the memory map overwrites a range of pages and keeps what the others show. -/
namespace Glopen.Nacl

open Compaction List
variable {arch : Arch} {δ : Type}

def NaClVmmapEntry.forget (e : NaClVmmapEntry δ) : VmmapEntry := ⟨e.pageNum, e.npages, e.prot⟩

def NaClVmmapEntry.Covers (e : NaClVmmapEntry δ) (page : Nat) : Prop :=
  e.pageNum ≤ page ∧ page < e.pageNum + e.npages

def NaClVmmapEntry.shown (e : NaClVmmapEntry δ) (page : Nat) : Nat × Option (NaClMemObj δ) :=
  (e.prot, e.nmop.map (·.incOffset (BitVec.ofNat 64 ((page - e.pageNum) * naclPagesize))))

def Shows (entries : List (NaClVmmapEntry δ)) (page : Nat) (x : Nat × Option (NaClMemObj δ)) :
    Prop := ∃ e ∈ entries, e.Covers page ∧ e.shown page = x

/-- Page numbers whose difference is an `int` either way. -/
def Near (a b : Nat) : Prop := a < b + 2 ^ 31 ∧ b < a + 2 ^ 31

def InSpace (arch : Arch) (stop : Nat) : Prop :=
  stop < 2 ^ arch.ptrBits ∧ (arch.ptrBits = 32 → stop ≤ 2 ^ 20)

namespace NaClVmmap

structure Valid (arch : Arch) (map : NaClVmmap δ) : Prop where
  unmarked : ∀ e ∈ map.vmentry, e.removed = false
  tidy : Tidy (map.vmentry.map (·.forget))
  inSpace : ∀ e ∈ map.vmentry, InSpace arch (e.pageNum + e.npages)
  near : ∀ a ∈ map.vmentry, ∀ b ∈ map.vmentry, Near a.pageNum b.pageNum
  sorted : map.isSorted = true → Ascending (map.vmentry.map (·.forget))

end NaClVmmap

section Sorting

variable {self sorted : NaClVmmap δ}

theorem cmpEntries_le {left right : NaClVmmapEntry δ} (near : Near left.pageNum right.pageNum)
    (small : left.pageNum < 2 ^ arch.ptrBits ∧ right.pageNum < 2 ^ arch.ptrBits) :
    cmpEntries arch left right ≤ 0 ↔ left.pageNum ≤ right.pageNum := by
  obtain ⟨near_left, near_right⟩ := near
  obtain ⟨small_left, small_right⟩ := small
  unfold cmpEntries
  rw [BitVec.toInt_eq_toNat_cond, BitVec.toNat_ofNat]
  cases arch <;> simp only [Arch.ptrBits] at * <;> omega

theorem filter_unmarked {entries : List (NaClVmmapEntry δ)}
    (unmarked : ∀ e ∈ entries, e.removed = false) : entries.filter (!·.removed) = entries :=
  filter_eq_self.mpr fun e member => by rw [unmarked e member]; rfl

theorem removeMarked_perm {left : NaClVmmap δ} (ran : self.removeMarked = some left) :
    left.vmentry.Perm (self.vmentry.filter (!·.removed)) ∧ (left.isSorted = true → left.vmentry = []) := by
  unfold NaClVmmap.removeMarked at ran
  split at ran
  · rename_i empty
    cases ran
    rw [empty]
    exact ⟨List.Perm.refl _, fun _ => rfl⟩
  · split at ran
    · cases ran
    · cases ran
      refine ⟨?_, nofun⟩
      rw [← rdropWhile_filter]
      exact compact_perm rdropWhile_endsKept

theorem removeMarked_fatal (fatal : self.removeMarked = none) :
    self.vmentry ≠ [] ∧ ∀ e ∈ self.vmentry, e.removed = true := by
  unfold NaClVmmap.removeMarked at fatal
  split at fatal
  · cases fatal
  · rename_i some
    split at fatal
    · rename_i all
      exact ⟨some, rdropWhile_eq_nil_iff.mp all⟩
    · cases fatal

theorem makeSorted_of_ascending {entries : List VmmapEntry} (ascending : Ascending entries) :
    naClVmmapMakeSorted entries = entries :=
  List.Pairwise.insertionSort_eq (ascending.imp fun order => (Nat.le_add_right _ _).trans order)

theorem makeSorted_perm_eq {entries others : List VmmapEntry} (tidy : Tidy entries)
    (same : others.Perm entries) : naClVmmapMakeSorted others = naClVmmapMakeSorted entries := by
  refine List.Perm.eq_of_pairwise ?_ (makeSorted_ascending (tidy.perm same)) (makeSorted_ascending tidy)
    ((makeSorted_perm others).trans (same.trans (makeSorted_perm entries).symm))
  intro a b _ member before behind
  have := tidy.nonempty b (makeSorted_mem.mp member)
  omega

theorem makeSorted_sorts (valid : self.Valid arch) :
    ∃ sorted, self.makeSorted arch = some sorted ∧ sorted.vmentry.Perm self.vmentry ∧
      sorted.vmentry.map (·.forget) = naClVmmapMakeSorted (self.vmentry.map (·.forget)) := by
  obtain ⟨unmarked, tidy, inSpace, near, ordered⟩ := valid
  unfold NaClVmmap.makeSorted
  cases flag : self.isSorted with
  | true => exact ⟨self, rfl, List.Perm.refl _, (makeSorted_of_ascending (ordered flag)).symm⟩
  | false =>
    cases ran : self.removeMarked with
    | none =>
      obtain ⟨some, all⟩ := removeMarked_fatal ran
      obtain ⟨e, member⟩ := exists_mem_of_ne_nil _ some
      exact absurd ((all e member).symm.trans (unmarked e member)) (by decide)
    | some left =>
      have same := (removeMarked_perm ran).1
      rw [filter_unmarked unmarked] at same
      refine ⟨_, rfl, (perm_insertionSort _ _).trans same, ?_⟩
      rw [← makeSorted_perm_eq tidy (same.map _)]
      refine map_insertionSort _ (fun a b : VmmapEntry => a.pageNum ≤ b.pageNum) _ _ ?_
      intro a first b second
      have first := same.mem_iff.mp first
      have second := same.mem_iff.mp second
      exact cmpEntries_le (near a first b second) ⟨(Nat.le_add_right _ _).trans_lt (inSpace a first).1,
          (Nat.le_add_right _ _).trans_lt (inSpace b second).1⟩

end Sorting

section Loop

variable {first stop : Nat} {entries : List (NaClVmmapEntry δ)}

theorem additionalOffset_eq {pageNum entEnd : Nat} (order : pageNum ≤ stop) (below : stop < entEnd)
    (inSpace : InSpace arch entEnd) :
    NaClVmmap.additionalOffset arch stop pageNum = BitVec.ofNat 64 ((stop - pageNum) * naclPagesize) := by
  obtain ⟨small, pages⟩ := inSpace
  have size : naclPagesize = 4096 := rfl
  have difference : (stop + 2 ^ arch.ptrBits - pageNum) % 2 ^ arch.ptrBits = stop - pageNum := by
    rw [show stop + 2 ^ arch.ptrBits - pageNum = (stop - pageNum) + 2 ^ arch.ptrBits by omega,
      Nat.add_mod_right, Nat.mod_eq_of_lt (by omega)]
  rw [NaClVmmap.additionalOffset, difference, size]
  apply BitVec.eq_of_toNat_eq
  rw [BitVec.toNat_ofNat, BitVec.toNat_ofNat]
  cases arch with
  | x86_64 => exact Nat.mod_mod _ _
  | x86_32 =>
    have := pages rfl
    exact congrArg (· % 2 ^ 64) (@Nat.mod_eq_of_lt ((stop - pageNum) * 4096) (2 ^ 32) (by omega))
  | arm =>
    have := pages rfl
    exact congrArg (· % 2 ^ 64) (@Nat.mod_eq_of_lt ((stop - pageNum) * 4096) (2 ^ 32) (by omega))

theorem Shows.cons_iff {e : NaClVmmapEntry δ} {rest : List (NaClVmmapEntry δ)} {page : Nat}
    {x : Nat × Option (NaClMemObj δ)} :
    Shows (e :: rest) page x ↔ (e.Covers page ∧ e.shown page = x) ∨ Shows rest page x := by
  simp only [Shows, mem_cons, exists_eq_or_imp]

section

variable {others : List (NaClVmmapEntry δ)} {page : Nat} {x : Nat × Option (NaClMemObj δ)}

theorem Shows.append_iff : Shows (entries ++ others) page x ↔ Shows entries page x ∨ Shows others page x := by
  simp only [Shows, mem_append, or_and_right, exists_or]

theorem Shows.perm_iff (same : others.Perm entries) : Shows others page x ↔ Shows entries page x :=
  exists_congr fun _ => and_congr_left fun _ => same.mem_iff

end

def keptEntries (arch : Arch) (first stop : Nat) (entries : List (NaClVmmapEntry δ)) :
    List (NaClVmmapEntry δ) :=
  (NaClVmmap.overwrite arch first stop entries).1.filter (!·.removed) ++
    (NaClVmmap.overwrite arch first stop entries).2

theorem overwrite_forget (unmarked : ∀ e ∈ entries, e.removed = false)
    (inSpace : ∀ e ∈ entries, InSpace arch (e.pageNum + e.npages)) :
    (((NaClVmmap.overwrite arch first stop entries).1.filter (!·.removed)).map (·.forget),
      (NaClVmmap.overwrite arch first stop entries).2.map (·.forget)) =
    carve first stop (entries.map (·.forget)) := by
  induction entries with
  | nil => rfl
  | cons ent rest ih =>
    have kept := unmarked ent mem_cons_self
    have small := Nat.mod_eq_of_lt (inSpace ent mem_cons_self).1
    have later := ih (fun e member => unmarked e (mem_cons_of_mem _ member))
      fun e member => inSpace e (mem_cons_of_mem _ member)
    have rest_kept := filter_unmarked fun e member => unmarked e (mem_cons_of_mem _ member)
    rw [map_cons, NaClVmmap.overwrite]
    simp only [NaClVmmap.endPage, small]
    by_cases around : ent.pageNum < first ∧ stop < ent.pageNum + ent.npages
    · refine .trans ?_ (if_pos around).symm
      simp [if_pos around, kept, rest_kept, NaClVmmapEntry.forget, VmmapEntry.stop]
    refine .trans ?_ (if_neg around).symm
    by_cases tail : ent.pageNum < first ∧ first < ent.pageNum + ent.npages
    · refine .trans ?_ (if_pos tail).symm
      simp only [if_neg around, if_pos tail, filter_cons, kept, ← later]
      rfl
    refine .trans ?_ (if_neg tail).symm
    by_cases head : ent.pageNum < stop ∧ stop < ent.pageNum + ent.npages
    · refine .trans ?_ (if_pos head).symm
      simp [if_neg around, if_neg tail, if_pos head, kept, rest_kept, NaClVmmapEntry.forget, VmmapEntry.stop]
    refine .trans ?_ (if_neg head).symm
    by_cases inside : first ≤ ent.pageNum ∧ ent.pageNum + ent.npages ≤ stop
    · refine .trans ?_ (if_pos inside).symm
      simpa [if_neg around, if_neg tail, if_neg head, if_pos inside] using later
    · refine .trans ?_ (if_neg inside).symm
      simp only [if_neg around, if_neg tail, if_neg head, if_neg inside, filter_cons, kept, ← later]
      rfl

variable {page : Nat} {x : Nat × Option (NaClMemObj δ)}
variable {ent : NaClVmmapEntry δ} {removed : Bool}

theorem trimmed_shows (order : ent.pageNum < first) (inner : first ≤ ent.pageNum + ent.npages) :
    (NaClVmmapEntry.Covers ⟨ent.pageNum, first - ent.pageNum, ent.prot, ent.nmop, removed⟩ page ∧
        NaClVmmapEntry.shown ⟨ent.pageNum, first - ent.pageNum, ent.prot, ent.nmop, removed⟩ page = x) ↔
      page < first ∧ ent.Covers page ∧ ent.shown page = x := by
  have covers : NaClVmmapEntry.Covers ⟨ent.pageNum, first - ent.pageNum, ent.prot, ent.nmop, removed⟩ page ↔
      page < first ∧ ent.Covers page := by
    simp only [NaClVmmapEntry.Covers]
    omega
  rw [covers, and_assoc]
  rfl

theorem moved_shown {npages : Nat} (order : ent.pageNum ≤ stop) (later : stop ≤ page) :
    NaClVmmapEntry.shown ⟨stop, npages, ent.prot, ent.nmop.map
        (·.incOffset (BitVec.ofNat 64 ((stop - ent.pageNum) * naclPagesize))), removed⟩ page =
      ent.shown page := by
  have pages : (stop - ent.pageNum) * naclPagesize + (page - stop) * naclPagesize =
      (page - ent.pageNum) * naclPagesize := by
    rw [← Nat.add_mul]
    congr 1
    omega
  simp only [NaClVmmapEntry.shown, Option.map_map, Prod.mk.injEq, true_and]
  congr 1
  funext nmop
  simp only [Function.comp, NaClMemObj.incOffset, NaClMemObj.mk.injEq, true_and]
  rw [BitVec.add_assoc, ← pages, BitVec.ofNat_add]

theorem moved_shows (order : ent.pageNum ≤ stop)
    (below : stop < ent.pageNum + ent.npages) (inSpace : InSpace arch (ent.pageNum + ent.npages)) :
    (NaClVmmapEntry.Covers ⟨stop, ent.pageNum + ent.npages - stop, ent.prot, ent.nmop.map
          (·.incOffset (NaClVmmap.additionalOffset arch stop ent.pageNum)), removed⟩ page ∧
        NaClVmmapEntry.shown ⟨stop, ent.pageNum + ent.npages - stop, ent.prot, ent.nmop.map
          (·.incOffset (NaClVmmap.additionalOffset arch stop ent.pageNum)), removed⟩ page = x) ↔
      stop ≤ page ∧ ent.Covers page ∧ ent.shown page = x := by
  rw [additionalOffset_eq order below inSpace]
  constructor
  · rintro ⟨⟨from_stop, to_end⟩, shown⟩
    simp only at from_stop to_end
    rw [moved_shown order from_stop] at shown
    exact ⟨from_stop, ⟨by omega, by omega⟩, shown⟩
  · rintro ⟨from_stop, ⟨from_start, to_end⟩, shown⟩
    refine ⟨⟨from_stop, ?_⟩, (moved_shown order from_stop).trans shown⟩
    simp only
    omega

theorem shows_nil : ¬ Shows ([] : List (NaClVmmapEntry δ)) page x := by
  rintro ⟨e, none, -⟩
  cases none

theorem overwrite_shows (order : first < stop) (ascending : Ascending (entries.map (·.forget)))
    (unmarked : ∀ e ∈ entries, e.removed = false)
    (inSpace : ∀ e ∈ entries, InSpace arch (e.pageNum + e.npages)) :
    Shows (keptEntries arch first stop entries) page x ↔
      (page < first ∨ stop ≤ page) ∧ Shows entries page x := by
  induction entries with
  | nil => exact ⟨fun shows => absurd shows shows_nil, fun shows => absurd shows.2 shows_nil⟩
  | cons ent rest ih =>
    have kept := unmarked ent mem_cons_self
    have room := inSpace ent mem_cons_self
    have small := Nat.mod_eq_of_lt room.1
    obtain ⟨behind, ascending_rest⟩ := pairwise_cons.mp ascending
    have later := ih ascending_rest (fun e member => unmarked e (mem_cons_of_mem _ member))
      fun e member => inSpace e (mem_cons_of_mem _ member)
    have rest_kept := filter_unmarked fun e member => unmarked e (mem_cons_of_mem _ member)
    have beyond : Shows rest page x → ent.pageNum + ent.npages ≤ page := by
      rintro ⟨e, member, covers, -⟩
      exact (behind e.forget (List.mem_map_of_mem member)).trans covers.1
    unfold keptEntries at later ⊢
    rw [NaClVmmap.overwrite, Shows.cons_iff]
    simp only [NaClVmmap.endPage, small]
    by_cases around : ent.pageNum < first ∧ stop < ent.pageNum + ent.npages
    · simp only [if_pos around, filter_cons, kept, Bool.not_false, if_true, rest_kept, cons_append]
      have outside : Shows rest page x → page < first ∨ stop ≤ page := fun shows => by
        have := beyond shows
        omega
      rw [Shows.cons_iff, Shows.append_iff, Shows.cons_iff, or_iff_left shows_nil,
        trimmed_shows around.1 (by omega), moved_shows (by omega) around.2 room, and_or_left,
        and_iff_right_of_imp outside, or_and_right, or_assoc]
      exact or_congr_right or_comm
    by_cases tail : ent.pageNum < first ∧ first < ent.pageNum + ent.npages
    · simp only [if_neg around, if_pos tail, filter_cons, kept, Bool.not_false, if_true, cons_append]
      have outside : ent.Covers page → ¬ stop ≤ page := fun covers => by
        have := covers.2
        omega
      rw [Shows.cons_iff, later, trimmed_shows tail.1 (tail.2.le), and_or_left]
      exact or_congr_left (and_congr_left fun shows =>
        ⟨.inl, fun side => side.resolve_right (outside shows.1)⟩)
    by_cases head : ent.pageNum < stop ∧ stop < ent.pageNum + ent.npages
    · simp only [if_neg around, if_neg tail, if_pos head, filter_cons, kept, Bool.not_false,
        if_true, rest_kept, append_nil]
      have outside : Shows rest page x → page < first ∨ stop ≤ page := fun shows => by
        have := beyond shows
        omega
      have inner : ent.Covers page → ¬ page < first := fun covers => by
        have := covers.1
        omega
      rw [Shows.cons_iff, moved_shows (head.1.le) head.2 room, and_or_left, and_iff_right_of_imp outside]
      exact or_congr_left (and_congr_left fun shows =>
        ⟨.inr, fun side => side.resolve_left (inner shows.1)⟩)
    by_cases inside : first ≤ ent.pageNum ∧ ent.pageNum + ent.npages ≤ stop
    · simp only [if_neg around, if_neg tail, if_neg head, if_pos inside, filter_cons,
        Bool.not_true, Bool.false_eq_true, if_false]
      have inner : ent.Covers page → ¬ (page < first ∨ stop ≤ page) := fun covers => by
        have := covers.1
        have := covers.2
        omega
      rw [later]
      exact and_congr_right fun side =>
        ⟨.inr, fun shows => shows.resolve_left fun shows => inner shows.1 side⟩
    · simp only [if_neg around, if_neg tail, if_neg head, if_neg inside, filter_cons, kept,
        Bool.not_false, if_true, cons_append]
      have outside : ent.Covers page ∧ ent.shown page = x → page < first ∨ stop ≤ page :=
        fun shows => by
          have := shows.1.1
          have := shows.1.2
          omega
      rw [Shows.cons_iff, later, and_or_left]
      exact or_congr_left (and_iff_right_of_imp outside).symm

end Loop

end Glopen.Nacl

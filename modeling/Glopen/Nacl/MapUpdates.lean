import Glopen.Nacl.MapOverwrite

/-! What `NaClVmmapUpdate` leaves of a memory map. -/
namespace Glopen.Nacl

open List
variable {arch : Arch} {δ : Type}

structure InReach (arch : Arch) (map : NaClVmmap δ) (pageNum npages : Nat) : Prop where
  positive : 0 < npages
  inSpace : InSpace arch (pageNum + npages)
  width : Near pageNum (pageNum + npages)
  near : ∀ e ∈ map.vmentry, Near e.pageNum pageNum ∧ Near e.pageNum (pageNum + npages)

structure Overwritten (arch : Arch) (map left : NaClVmmap δ) (pageNum npages prot : Nat)
    (nmop : Option (NaClMemObj δ)) (remove : Bool) : Prop where
  valid : left.Valid arch
  inside : ∀ page, pageNum ≤ page → page < pageNum + npages → ∀ e ∈ left.vmentry, e.Covers page →
    remove = false ∧ e = ⟨pageNum, npages, prot, nmop, false⟩
  region : remove = false → ⟨pageNum, npages, prot, nmop, false⟩ ∈ left.vmentry
  outside : ∀ page, page < pageNum ∨ pageNum + npages ≤ page → ∀ x,
    Shows left.vmentry page x ↔ Shows map.vmentry page x

section Parts

variable {first stop : Nat} {entries : List (NaClVmmapEntry δ)}

theorem overwrite_starts : ∀ e ∈ (NaClVmmap.overwrite arch first stop entries).1 ++
    (NaClVmmap.overwrite arch first stop entries).2,
    e.pageNum = stop ∨ ∃ old ∈ entries, e.pageNum = old.pageNum := by
  induction entries with
  | nil => exact fun e none => absurd none not_mem_nil
  | cons ent rest ih =>
    have first_start : ∀ e : NaClVmmapEntry δ, e.pageNum = ent.pageNum →
        e.pageNum = stop ∨ ∃ old ∈ ent :: rest, e.pageNum = old.pageNum :=
      fun e same => .inr ⟨ent, mem_cons_self, same⟩
    have rest_start : ∀ e ∈ rest, e.pageNum = stop ∨ ∃ old ∈ ent :: rest, e.pageNum = old.pageNum :=
      fun e member => .inr ⟨e, mem_cons_of_mem _ member, rfl⟩
    have later : ∀ e ∈ (NaClVmmap.overwrite arch first stop rest).1 ++
        (NaClVmmap.overwrite arch first stop rest).2,
        e.pageNum = stop ∨ ∃ old ∈ ent :: rest, e.pageNum = old.pageNum := by
      intro e member
      rcases ih e member with same | ⟨old, among, same⟩
      · exact .inl same
      · exact .inr ⟨old, mem_cons_of_mem _ among, same⟩
    unfold NaClVmmap.overwrite
    simp only
    split
    · exact forall_mem_append.mpr ⟨forall_mem_cons.mpr ⟨first_start _ rfl, rest_start⟩,
        forall_mem_singleton.mpr (.inl rfl)⟩
    split
    · exact forall_mem_cons.mpr ⟨first_start _ rfl, later⟩
    split
    · exact forall_mem_append.mpr ⟨forall_mem_cons.mpr ⟨.inl rfl, rest_start⟩,
        fun e none => absurd none not_mem_nil⟩
    split
    · exact forall_mem_cons.mpr ⟨first_start _ rfl, later⟩
    · exact forall_mem_cons.mpr ⟨first_start _ rfl, later⟩

theorem overwrite_unmarked : ∀ e ∈ (NaClVmmap.overwrite arch first stop entries).2, e.removed = false := by
  induction entries with
  | nil => exact fun e none => absurd none not_mem_nil
  | cons ent rest ih =>
    unfold NaClVmmap.overwrite
    simp only
    split
    · intro e member
      rw [mem_singleton.mp member]
    split
    · exact ih
    split
    · exact fun e none => absurd none not_mem_nil
    split
    · exact ih
    · exact ih

theorem kept_mem {e : NaClVmmapEntry δ} (member : e ∈ keptEntries arch first stop entries) :
    e.removed = false ∧ (e.pageNum = stop ∨ ∃ old ∈ entries, e.pageNum = old.pageNum) := by
  rcases mem_append.mp member with kept | added
  · obtain ⟨among, unmarked⟩ := mem_filter.mp kept
    exact ⟨by simpa using unmarked, overwrite_starts e (mem_append_left _ among)⟩
  · exact ⟨overwrite_unmarked e added, overwrite_starts e (mem_append_right _ added)⟩

theorem kept_carved (order : first < stop) (tidy : Tidy (entries.map (·.forget)))
    (ascending : Ascending (entries.map (·.forget)))
    (unmarked : ∀ e ∈ entries, e.removed = false)
    (inSpace : ∀ e ∈ entries, InSpace arch (e.pageNum + e.npages)) :
    Carved first stop (entries.map (·.forget)) ((keptEntries arch first stop entries).map (·.forget)) := by
  obtain ⟨kept, added⟩ := Prod.ext_iff.mp (@overwrite_forget arch δ first stop entries unmarked inSpace)
  rw [keptEntries, map_append]
  have carved := carve_carved order tidy ascending
  rwa [← kept, ← added] at carved

end Parts

section Updates

variable {self : NaClVmmap δ} {pageNum npages prot : Nat} {nmop : Option (NaClMemObj δ)}
  {remove : Bool}

theorem NaClVmmap.Valid.reordered (valid : self.Valid arch) {sorted : NaClVmmap δ}
    (same : sorted.vmentry.Perm self.vmentry) : (∀ e ∈ sorted.vmentry, e.removed = false) ∧
      ∀ e ∈ sorted.vmentry, InSpace arch (e.pageNum + e.npages) :=
  ⟨fun e member => valid.unmarked e (same.mem_iff.mp member),
    fun e member => valid.inSpace e (same.mem_iff.mp member)⟩

theorem update_parts (valid : self.Valid arch) (reach : InReach arch self pageNum npages) :
    ∃ sorted touched : NaClVmmap δ, sorted.vmentry.Perm self.vmentry ∧
      sorted.vmentry.map (·.forget) = naClVmmapMakeSorted (self.vmentry.map (·.forget)) ∧
      touched.vmentry.filter (!·.removed) = keptEntries arch pageNum (pageNum + npages) sorted.vmentry ++
          (if remove then [] else [⟨pageNum, npages, prot, nmop, false⟩]) ∧
      (self.vmentry = [] → remove = true → touched.vmentry = []) ∧
      self.update arch pageNum npages prot nmop remove = touched.removeMarked := by
  obtain ⟨sorted, ran, same, order⟩ := makeSorted_sorts valid
  refine ⟨sorted, ?touched, same, order, ?kept, ?empty, ?ran⟩
  case ran =>
    unfold NaClVmmap.update
    rw [ran, Nat.mod_eq_of_lt reach.inSpace.1]
    exact if_neg (Nat.pos_iff_ne_zero.mp reach.positive)
  · cases remove with
    | true =>
      simp only [if_true, filter_append, append_nil]
      rw [filter_unmarked overwrite_unmarked]
      rfl
    | false =>
      simp only [Bool.false_eq_true, if_false, NaClVmmap.add, filter_append]
      rw [filter_unmarked overwrite_unmarked]
      rfl

  · rintro empty rfl
    have none := List.Perm.eq_nil (empty ▸ same)
    simp [none, NaClVmmap.overwrite]

theorem Near.symm {a b : Nat} (near : Near a b) : Near b a := And.symm near

theorem near_self (a : Nat) : Near a a := ⟨by omega, by omega⟩

theorem InSpace.lower {a b : Nat} (inSpace : InSpace arch b) (order : a ≤ b) : InSpace arch a :=
  ⟨order.trans_lt inSpace.1, fun narrow => order.trans (inSpace.2 narrow)⟩

theorem InReach.near_all (reach : InReach arch self pageNum npages) (valid : self.Valid arch)
    {a b : Nat} (left : a = pageNum ∨ a = pageNum + npages ∨ ∃ old ∈ self.vmentry, a = old.pageNum)
    (right : b = pageNum ∨ b = pageNum + npages ∨ ∃ old ∈ self.vmentry, b = old.pageNum) : Near a b := by
  rcases left with rfl | rfl | ⟨old, among, rfl⟩ <;> rcases right with rfl | rfl | ⟨old', among', rfl⟩
  · exact near_self _
  · exact reach.width
  · exact (reach.near old' among').1.symm
  · exact reach.width.symm
  · exact near_self _
  · exact (reach.near old' among').2.symm
  · exact (reach.near old among).1
  · exact (reach.near old among).2
  · exact valid.near old among old' among'

theorem update_overwritten {left : NaClVmmap δ} (valid : self.Valid arch)
    (reach : InReach arch self pageNum npages)
    (ran : self.update arch pageNum npages prot nmop remove = some left) :
    Overwritten arch self left pageNum npages prot nmop remove := by
  obtain ⟨sorted, touched, same, sorts, kept, -, steps⟩ := @update_parts arch δ self pageNum npages
    prot nmop remove valid reach
  have positive := reach.positive
  have order : pageNum < pageNum + npages := by omega
  have ascending := sorts ▸ makeSorted_ascending valid.tidy
  obtain ⟨unmarked, inSpace⟩ := valid.reordered same
  have carved := kept_carved order (valid.tidy.perm (same.map _)) ascending unmarked inSpace
  have shows := fun page x => @overwrite_shows arch δ _ _ _ page x order ascending unmarked inSpace
  obtain ⟨all, flag⟩ := removeMarked_perm (steps.symm.trans ran)
  rw [kept] at all
  have mem : ∀ {e}, e ∈ left.vmentry → e ∈ keptEntries arch pageNum (pageNum + npages) sorted.vmentry ∨
        remove = false ∧ e = ⟨pageNum, npages, prot, nmop, false⟩ := by
    intro e member
    rcases mem_append.mp (all.mem_iff.mp member) with old | new
    · exact .inl old
    · cases remove with
      | true => cases new
      | false => exact .inr ⟨rfl, mem_singleton.mp new⟩
  have starts : ∀ e ∈ left.vmentry, e.pageNum = pageNum ∨ e.pageNum = pageNum + npages ∨
      ∃ old ∈ self.vmentry, e.pageNum = old.pageNum := by
    intro e member
    rcases mem member with old | ⟨-, rfl⟩
    · rcases (kept_mem old).2 with at_stop | ⟨before, among, start⟩
      · exact .inr (.inl at_stop)
      · exact .inr (.inr ⟨before, same.mem_iff.mp among, start⟩)
    · exact .inl rfl
  refine ⟨⟨?_, ?_, ?_, ?_, ?_⟩, ?_, ?_, ?_⟩
  · intro e member
    rcases mem member with old | ⟨-, rfl⟩
    · exact (kept_mem old).1
    · rfl
  · refine Tidy.perm ?_ (all.map _)
    rw [map_append]
    cases remove with
    | true =>
      rw [if_pos rfl, map_nil, append_nil]
      exact carved.tidy
    | false => exact carved.with_region positive
  · intro e member
    rcases mem member with old | ⟨-, rfl⟩
    · obtain ⟨outer, among, inner⟩ := carved.within _ (List.mem_map_of_mem old)
      obtain ⟨before, listed, rfl⟩ := List.mem_map.mp among
      exact (inSpace before listed).lower inner.2
    · exact reach.inSpace
  · intro a first b second
    exact reach.near_all valid (starts a first) (starts b second)
  · intro sorted
    rw [flag sorted]
    exact List.Pairwise.nil
  · intro page from_start to_end e member covers
    rcases mem member with old | new
    · obtain ⟨outside, -⟩ := (shows page _).mp ⟨e, old, covers, rfl⟩
      omega
    · exact new
  · rintro rfl
    exact all.mem_iff.mpr (mem_append_right _ mem_cons_self)
  · intro page outside x
    rw [Shows.perm_iff all, Shows.append_iff, shows, and_iff_right outside, Shows.perm_iff same]
    refine or_iff_left ?_
    rintro ⟨e, new, covers, -⟩
    cases remove with
    | true => cases new
    | false =>
      rw [mem_singleton.mp new] at covers
      obtain ⟨from_start, to_end⟩ := covers
      simp only at from_start to_end
      omega

theorem update_fatal (valid : self.Valid arch) (reach : InReach arch self pageNum npages)
    (fatal : self.update arch pageNum npages prot nmop remove = none) : remove = true ∧ self.vmentry ≠ [] ∧
      ∀ e ∈ self.vmentry, pageNum ≤ e.pageNum ∧ e.pageNum + e.npages ≤ pageNum + npages := by
  obtain ⟨sorted, touched, same, sorts, kept, empty, steps⟩ := @update_parts arch δ self pageNum
    npages prot nmop remove valid reach
  have positive := reach.positive
  have order : pageNum < pageNum + npages := by omega
  have ascending := sorts ▸ makeSorted_ascending valid.tidy
  obtain ⟨unmarked, inSpace⟩ := valid.reordered same
  have shows := fun page x => @overwrite_shows arch δ _ _ _ page x order ascending unmarked inSpace
  obtain ⟨some, all⟩ := removeMarked_fatal (steps.symm.trans fatal)
  have nothing : touched.vmentry.filter (!·.removed) = [] :=
    filter_eq_nil_iff.mpr fun e member => by simp [all e member]
  obtain ⟨no_old, no_new⟩ := append_eq_nil_iff.mp (kept.symm.trans nothing)
  have removal : remove = true := by
    cases remove with
    | true => rfl
    | false => cases no_new
  refine ⟨removal, fun nil => some (empty nil removal), fun e member => ?_⟩
  have nonempty := valid.tidy.nonempty _ (List.mem_map_of_mem member)
  have hidden : ∀ page, e.Covers page → ¬ (page < pageNum ∨ pageNum + npages ≤ page) := by
    intro page covers outside
    have seen := (shows page _).mpr ⟨outside, e, same.mem_iff.mpr member, covers, rfl⟩
    rw [no_old] at seen
    exact shows_nil seen
  simp only [NaClVmmapEntry.forget] at nonempty
  have first := hidden e.pageNum ⟨Nat.le_refl _, by omega⟩
  have last := hidden (e.pageNum + e.npages - 1) ⟨by omega, by omega⟩
  omega

end Updates

def oneRegion : NaClVmmap Unit :=
  ⟨[⟨10, 10, 1, some ⟨(), 0xa000, 0x8000⟩, false⟩], true⟩

theorem oneRegion_valid : oneRegion.Valid .x86_32 where
  unmarked := by decide
  tidy := ⟨by decide, pairwise_singleton _ _⟩
  inSpace := by simp [oneRegion, InSpace, Arch.ptrBits]
  near := by simp [oneRegion, Near]
  sorted := fun _ => pairwise_singleton _ _

theorem oneRegion_reach {pageNum npages : Nat} (positive : 0 < npages)
    (small : pageNum + npages < 100) : InReach .x86_32 oneRegion pageNum npages where
  positive := positive
  inSpace := ⟨by simp only [Arch.ptrBits]; omega, fun _ => by omega⟩
  width := ⟨by omega, by omega⟩
  near := by
    intro e member
    rw [mem_singleton.mp member]
    exact ⟨⟨by simp only; omega, by simp only; omega⟩, by simp only; omega, by simp only; omega⟩

end Glopen.Nacl

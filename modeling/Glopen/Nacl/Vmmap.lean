import Mathlib.Data.List.Sort
import Glopen.Nacl.MemoryMap
import Glopen.Lib.Compaction

/-! The memory map of sel_mem.c: updates of a page range and the searches for free space.
The readers of the map sort it first, so that the order in which an update leaves the entries
does not matter. -/
namespace Glopen.Nacl

open Memory Run List

def VmmapEntry.stop (e : VmmapEntry) : Nat := e.pageNum + e.npages

def naClVmmapMakeSorted (map : List VmmapEntry) : List VmmapEntry :=
  map.insertionSort fun a b => a.pageNum ≤ b.pageNum

/-- The loop of `NaClVmmapUpdate` over the sorted entries, for the new region from `first` to
`stop`: the entries that remain, and the upper part of an entry that is split. -/
def carve (first stop : Nat) : List VmmapEntry → List VmmapEntry × List VmmapEntry
  | [] => ([], [])
  | ent :: rest =>
    if ent.pageNum < first ∧ stop < ent.stop then
      ({ ent with npages := first - ent.pageNum } :: rest, [⟨stop, ent.stop - stop, ent.prot⟩])
    else if ent.pageNum < first ∧ first < ent.stop then
      let (kept, added) := carve first stop rest
      ({ ent with npages := first - ent.pageNum } :: kept, added)
    else if ent.pageNum < stop ∧ stop < ent.stop then
      ({ ent with pageNum := stop, npages := ent.stop - stop } :: rest, [])
    else if first ≤ ent.pageNum ∧ ent.stop ≤ stop then carve first stop rest
    else
      let (kept, added) := carve first stop rest
      (ent :: kept, added)

def naClVmmapUpdate (map : List VmmapEntry) (pageNum npages prot : Nat) (remove : Bool) :
    Option (List VmmapEntry) :=
  let sorted := naClVmmapMakeSorted map
  if npages = 0 then none
  else
    let (kept, added) := carve pageNum (pageNum + npages) sorted
    let updated := kept ++ added ++ if remove then [] else [⟨pageNum, npages, prot⟩]
    if updated = [] ∧ map ≠ [] then none else some updated

def neighbours (map : List VmmapEntry) : List (VmmapEntry × VmmapEntry) :=
  let sorted := naClVmmapMakeSorted map
  sorted.zip sorted.tail

def naclPagesPerMap : Nat := 16

def naClRoundPageNumUpToMapMultiple (arch : Arch) (npages : Nat) : Nat :=
  roundUp arch.ptrBits naclPagesPerMap npages

def naClVmmapFindMapSpace (arch : Arch) (map : List VmmapEntry) (numPages : Nat) : Nat :=
  let numPages := naClRoundPageNumUpToMapMultiple arch numPages
  let fits := fun pair : VmmapEntry × VmmapEntry =>
    let endPage := naClRoundPageNumUpToMapMultiple arch pair.1.stop
    let startPage := truncTo naclPagesPerMap pair.2.pageNum
    endPage < startPage ∧ numPages ≤ startPage - endPage
  match (neighbours map).reverse.find? fits with
  | some pair => truncTo naclPagesPerMap pair.2.pageNum - numPages
  | none => 0

def naClVmmapFindMapSpaceAboveHint (arch : Arch) (map : List VmmapEntry) (uaddr numPages : Nat) : Nat :=
  let usrPage := uaddr / naclPagesize
  let numPages := naClRoundPageNumUpToMapMultiple arch numPages
  let found := (neighbours map).findSome? fun pair =>
    let endPage := naClRoundPageNumUpToMapMultiple arch pair.1.stop
    let startPage := truncTo naclPagesPerMap pair.2.pageNum
    if startPage ≤ endPage then none
    else
      let endPage := if endPage ≤ usrPage ∧ usrPage < startPage then usrPage else endPage
      if usrPage ≤ endPage ∧ numPages ≤ startPage - endPage then some endPage else none
  found.getD 0

section Entries

variable {entries : List VmmapEntry} {first stop : Nat}

def Apart (a b : VmmapEntry) : Prop := a.stop ≤ b.pageNum ∨ b.stop ≤ a.pageNum

structure Tidy (entries : List VmmapEntry) : Prop where
  nonempty : ∀ e ∈ entries, 0 < e.npages
  apart : entries.Pairwise Apart

/-- `inner` is a part of `outer`. -/
def Within (inner outer : VmmapEntry) : Prop :=
  outer.pageNum ≤ inner.pageNum ∧ inner.stop ≤ outer.stop

variable {a b ent : VmmapEntry} {rest left : List VmmapEntry} {npages prot : Nat}

theorem Apart.symm (apart : Apart a b) : Apart b a := Or.symm apart

theorem Apart.within {c d : VmmapEntry} (apart : Apart a b) (left : Within c a)
    (right : Within d b) : Apart c d := by
  unfold Apart Within at *
  omega

theorem Tidy.perm {others : List VmmapEntry} (tidy : Tidy entries) (same : others.Perm entries) :
    Tidy others where
  nonempty := fun e member => tidy.nonempty e (same.mem_iff.mp member)
  apart := (same.pairwise_iff fun h => Apart.symm h).mpr tidy.apart

theorem makeSorted_perm (entries : List VmmapEntry) :
    (naClVmmapMakeSorted entries).Perm entries := perm_insertionSort _ _

theorem makeSorted_mem {e : VmmapEntry} : e ∈ naClVmmapMakeSorted entries ↔ e ∈ entries :=
  (makeSorted_perm entries).mem_iff

theorem makeSorted_ascending (tidy : Tidy entries) : Ascending (naClVmmapMakeSorted entries) := by
  have sorted : (naClVmmapMakeSorted entries).Pairwise fun a b => a.pageNum ≤ b.pageNum := by
    have : IsTrans VmmapEntry fun a b => a.pageNum ≤ b.pageNum := ⟨fun _ _ _ => Nat.le_trans⟩
    have : Std.Total fun a b : VmmapEntry => a.pageNum ≤ b.pageNum :=
      ⟨fun a b => Nat.le_total a.pageNum b.pageNum⟩
    exact pairwise_insertionSort _ _
  have again := tidy.perm (makeSorted_perm entries)
  refine (sorted.and again.apart).imp_of_mem ?_
  rintro a b first second ⟨order, apart⟩
  have := again.nonempty a first
  have := again.nonempty b second
  unfold Apart VmmapEntry.stop at apart
  omega

structure Carved (first stop : Nat) (entries left : List VmmapEntry) : Prop where
  tidy : Tidy left
  clear : ∀ e ∈ left, e.stop ≤ first ∨ stop ≤ e.pageNum
  within : ∀ e ∈ left, ∃ old ∈ entries, Within e old
  covers : ∀ old ∈ entries, ∀ low high, old.pageNum ≤ low → low ≤ high → high < old.stop →
    high < first ∨ stop ≤ low → ∃ e ∈ left, e.pageNum ≤ low ∧ high < e.stop

theorem Carved.cons {ent piece : VmmapEntry} {rest left : List VmmapEntry}
    (carved : Carved first stop rest left) (behind : ∀ e ∈ rest, ent.stop ≤ e.pageNum)
    (part : Within piece ent) (nonempty : 0 < piece.npages) (clear : piece.stop ≤ first ∨ stop ≤ piece.pageNum)
    (covers : ∀ low high, ent.pageNum ≤ low → low ≤ high → high < ent.stop →
      high < first ∨ stop ≤ low → piece.pageNum ≤ low ∧ high < piece.stop) :
    Carved first stop (ent :: rest) (piece :: left) where
  tidy := by
    constructor
    · intro e member
      rcases mem_cons.mp member with rfl | later
      · exact nonempty
      · exact carved.tidy.nonempty e later
    · refine pairwise_cons.mpr ⟨fun e member => ?_, carved.tidy.apart⟩
      obtain ⟨old, among, inner⟩ := carved.within e member
      exact Apart.within (.inl (behind old among)) part inner
  clear := by
    intro e member
    rcases mem_cons.mp member with rfl | later
    · exact clear
    · exact carved.clear e later
  within := by
    intro e member
    rcases mem_cons.mp member with rfl | later
    · exact ⟨ent, mem_cons_self, part⟩
    · obtain ⟨old, among, inner⟩ := carved.within e later
      exact ⟨old, mem_cons_of_mem _ among, inner⟩
  covers := by
    intro old member low high h1 h2 h3 h4
    rcases mem_cons.mp member with rfl | later
    · exact ⟨piece, mem_cons_self, covers low high h1 h2 h3 h4⟩
    · obtain ⟨e, among, inner⟩ := carved.covers old later low high h1 h2 h3 h4
      exact ⟨e, mem_cons_of_mem _ among, inner⟩

theorem carved_behind (tidy : Tidy entries) (behind : ∀ e ∈ entries, stop ≤ e.pageNum) :
    Carved first stop entries entries where
  tidy := tidy
  clear := fun e member => .inr (behind e member)
  within := fun e member => ⟨e, member, le_rfl, le_rfl⟩
  covers := fun old member _ _ h1 _ h3 _ => ⟨old, member, h1, h3⟩

theorem Carved.skip (carved : Carved first stop rest left) (covered : first ≤ ent.pageNum ∧ ent.stop ≤ stop) :
    Carved first stop (ent :: rest) left where
  tidy := carved.tidy
  clear := carved.clear
  within := by
    intro e member
    obtain ⟨old, among, inner⟩ := carved.within e member
    exact ⟨old, mem_cons_of_mem _ among, inner⟩
  covers := by
    intro old member low high h1 h2 h3 h4
    rcases mem_cons.mp member with rfl | later
    · omega
    · exact carved.covers old later low high h1 h2 h3 h4

theorem Carved.with_region (carved : Carved first (first + npages) entries left) (positive : 0 < npages) :
    Tidy (left ++ [⟨first, npages, prot⟩]) where
  nonempty := by
    intro e member
    rcases mem_append.mp member with old | new
    · exact carved.tidy.nonempty e old
    · rw [mem_singleton.mp new]
      exact positive
  apart := by
    refine pairwise_append.mpr ⟨carved.tidy.apart, pairwise_singleton _ _, ?_⟩
    intro e member new last
    rw [mem_singleton.mp last]
    exact carved.clear e member

theorem carved_split (order : first < stop)
    (tidy : Tidy (ent :: rest)) (behind : ∀ e ∈ rest, ent.stop ≤ e.pageNum)
    (around : ent.pageNum < first ∧ stop < ent.stop) : Carved first stop (ent :: rest)
      ({ ent with npages := first - ent.pageNum } :: (rest ++ [⟨stop, ent.stop - stop, ent.prot⟩])) := by
  have upper : Within ⟨stop, ent.stop - stop, ent.prot⟩ ent := by
    unfold Within VmmapEntry.stop at *
    simp only
    omega
  have lower : Within { ent with npages := first - ent.pageNum } ent := by
    unfold Within VmmapEntry.stop at *
    simp only
    omega
  obtain ⟨-, rest_apart⟩ := pairwise_cons.mp tidy.apart
  constructor
  · constructor
    · intro e member
      simp only [mem_cons, mem_append, not_mem_nil, or_false] at member
      rcases member with rfl | old | rfl
      · exact Nat.sub_pos_of_lt around.1
      · exact tidy.nonempty e (mem_cons_of_mem _ old)
      · exact Nat.sub_pos_of_lt around.2
    · refine pairwise_cons.mpr ⟨fun e member => ?_, pairwise_append.mpr
        ⟨rest_apart, pairwise_singleton _ _, fun e member other last => ?_⟩⟩
      · rcases mem_append.mp member with old | last
        · exact Apart.within (.inl (behind e old)) lower ⟨le_rfl, le_rfl⟩
        · rw [mem_singleton.mp last]
          unfold Apart VmmapEntry.stop
          simp only
          omega
      · rw [mem_singleton.mp last]
        exact (Apart.within (.inl (behind e member)) upper ⟨le_rfl, le_rfl⟩).symm
  · intro e member
    simp only [mem_cons, mem_append, not_mem_nil, or_false] at member
    rcases member with rfl | old | rfl
    · left
      simp only [VmmapEntry.stop]
      omega
    · have := behind e old
      omega
    · right
      exact le_rfl
  · intro e member
    simp only [mem_cons, mem_append, not_mem_nil, or_false] at member
    rcases member with rfl | old | rfl
    · exact ⟨ent, mem_cons_self, lower⟩
    · exact ⟨e, mem_cons_of_mem _ old, le_rfl, le_rfl⟩
    · exact ⟨ent, mem_cons_self, upper⟩
  · intro old member low high h1 h2 h3 h4
    rcases mem_cons.mp member with rfl | later
    · rcases h4 with below | above
      · refine ⟨_, mem_cons_self, h1, ?_⟩
        simp only [VmmapEntry.stop]
        omega
      · refine ⟨_, mem_cons_of_mem _ (mem_append_right _ mem_cons_self), above, ?_⟩
        simp only [VmmapEntry.stop] at *
        omega
    · exact ⟨old, mem_cons_of_mem _ (mem_append_left _ later), h1, h3⟩

theorem carve_carved (order : first < stop) (tidy : Tidy entries) (sorted : Ascending entries) :
    Carved first stop entries ((carve first stop entries).1 ++ (carve first stop entries).2) := by
  induction entries with
  | nil => exact carved_behind tidy fun e member => absurd member not_mem_nil
  | cons ent rest ih =>
    obtain ⟨behind, sorted_rest⟩ := pairwise_cons.mp sorted
    have tidy_rest : Tidy rest :=
      ⟨fun e member => tidy.nonempty e (mem_cons_of_mem _ member), (pairwise_cons.mp tidy.apart).2⟩
    have nonempty := tidy.nonempty ent mem_cons_self
    have carved := ih tidy_rest sorted_rest
    unfold carve
    split
    · rename_i around
      exact carved_split order tidy behind around
    · split
      · rename_i overlap
        refine carved.cons behind ?_ (Nat.sub_pos_of_lt overlap.1) (.inl ?_) ?_
        all_goals simp only [Within, VmmapEntry.stop] at *
        all_goals omega
      · split
        · rename_i overlap
          have after : ∀ e ∈ rest, stop ≤ e.pageNum := by
            intro e member
            have := behind e member
            unfold VmmapEntry.stop at overlap
            omega
          rw [append_nil]
          refine (carved_behind tidy_rest after).cons behind ?_ (Nat.sub_pos_of_lt overlap.2) (.inr le_rfl) ?_
          all_goals simp only [Within, VmmapEntry.stop] at *
          all_goals omega
        · split
          · rename_i covered
            exact carved.skip covered
          · refine carved.cons behind ⟨le_rfl, le_rfl⟩ nonempty ?_ (fun low high h1 _ h3 _ => ⟨h1, h3⟩)
            unfold VmmapEntry.stop at *
            omega

/-- An update keeps the map tidy. What is new lies in the updated region, the rest in old
entries, and pages outside the region stay together. -/
structure Updated (pageNum npages : Nat) (map map' : List VmmapEntry) : Prop where
  tidy : Tidy map'
  within : ∀ e ∈ map', (∃ old ∈ map, Within e old) ∨ (pageNum ≤ e.pageNum ∧ e.stop ≤ pageNum + npages)
  covers : ∀ old ∈ map, ∀ low high, old.pageNum ≤ low → low ≤ high → high < old.stop →
    high < pageNum ∨ pageNum + npages ≤ low → ∃ e ∈ map', e.pageNum ≤ low ∧ high < e.stop

theorem vmmapUpdate_updated {map map' : List VmmapEntry} {pageNum : Nat} {remove : Bool} (tidy : Tidy map)
    (ran : naClVmmapUpdate map pageNum npages prot remove = some map') : Updated pageNum npages map map' := by
  unfold naClVmmapUpdate at ran
  simp only at ran
  split at ran
  · contradiction
  rename_i positive
  have carved := carve_carved (by omega : pageNum < pageNum + npages)
    (tidy.perm (makeSorted_perm map)) (makeSorted_ascending tidy)
  have old_within : ∀ e ∈ (carve pageNum (pageNum + npages) (naClVmmapMakeSorted map)).1 ++
      (carve pageNum (pageNum + npages) (naClVmmapMakeSorted map)).2,
      ∃ old ∈ map, Within e old := by
    intro e member
    obtain ⟨old, among, inner⟩ := carved.within e member
    exact ⟨old, makeSorted_mem.mp among, inner⟩
  have old_covers : ∀ old ∈ map, ∀ low high, old.pageNum ≤ low → low ≤ high → high < old.stop →
      high < pageNum ∨ pageNum + npages ≤ low →
      ∃ e ∈ (carve pageNum (pageNum + npages) (naClVmmapMakeSorted map)).1 ++
        (carve pageNum (pageNum + npages) (naClVmmapMakeSorted map)).2,
        e.pageNum ≤ low ∧ high < e.stop :=
    fun old member => carved.covers old (makeSorted_mem.mpr member)
  cases remove with
  | true =>
    simp only [if_true, append_nil] at ran
    split at ran
    · contradiction
    cases ran
    exact ⟨carved.tidy, fun e member => .inl (old_within e member), old_covers⟩
  | false =>
    simp only [Bool.false_eq_true, if_false] at ran
    split at ran
    · contradiction
    cases ran
    refine ⟨carved.with_region (Nat.pos_of_ne_zero positive), ?_, ?_⟩
    · intro e member
      rcases mem_append.mp member with old | new
      · exact .inl (old_within e old)
      · rw [mem_singleton.mp new]
        exact .inr ⟨le_rfl, le_rfl⟩
    · intro old member low high h1 h2 h3 h4
      obtain ⟨e, among, inner⟩ := old_covers old member low high h1 h2 h3 h4
      exact ⟨e, mem_append_left _ among, inner⟩

end Entries

/-! The memory map with the memory objects behind its entries, the marks of removed entries and
the order in which updates leave the entries. -/

open Compaction

/-- `NaClMemObj`: a descriptor, the bytes mapped and an offset into the descriptor's file. -/
structure NaClMemObj (δ : Type) where
  ndp : δ
  nbytes : BitVec 64
  offset : BitVec 64
deriving DecidableEq

def NaClMemObj.incOffset {δ : Type} (nmop : NaClMemObj δ) (additional : BitVec 64) : NaClMemObj δ :=
  { nmop with offset := nmop.offset + additional }

structure NaClVmmapEntry (δ : Type) where
  pageNum : Nat
  npages : Nat
  prot : Nat
  nmop : Option (NaClMemObj δ)
  removed : Bool
deriving DecidableEq

structure NaClVmmap (δ : Type) where
  vmentry : List (NaClVmmapEntry δ)
  isSorted : Bool
deriving DecidableEq

section Operations

variable (arch : Arch) {δ : Type}

/-- The difference of the page numbers, as an `int`. -/
def cmpEntries (left right : NaClVmmapEntry δ) : Int :=
  (BitVec.ofNat 32 ((left.pageNum + 2 ^ arch.ptrBits - right.pageNum) % 2 ^ arch.ptrBits)).toInt

namespace NaClVmmap

/-- `NaClVmmapRemoveMarked`; a map of which every entry is marked is fatal. -/
def removeMarked (self : NaClVmmap δ) : Option (NaClVmmap δ) :=
  if self.vmentry = [] then some self
  else match self.vmentry.rdropWhile (·.removed) with
    | [] => none
    | entries => some ⟨compact (·.removed) entries, false⟩

def makeSorted (self : NaClVmmap δ) : Option (NaClVmmap δ) :=
  if self.isSorted then some self
  else (removeMarked self).map fun self =>
    ⟨self.vmentry.insertionSort fun left right => cmpEntries arch left right ≤ 0, true⟩

def add (self : NaClVmmap δ) (pageNum npages prot : Nat) (nmop : Option (NaClMemObj δ)) : NaClVmmap δ :=
  ⟨self.vmentry ++ [⟨pageNum, npages, prot, nmop, false⟩], false⟩

/-- `(stop - pageNum) << NACL_PAGESHIFT` as a word of the host, then as an offset. -/
def additionalOffset (stop pageNum : Nat) : BitVec 64 :=
  BitVec.ofNat 64
    ((stop + 2 ^ arch.ptrBits - pageNum) % 2 ^ arch.ptrBits * naclPagesize % 2 ^ arch.ptrBits)

def endPage (ent : NaClVmmapEntry δ) : Nat := (ent.pageNum + ent.npages) % 2 ^ arch.ptrBits

/-- The loop of `NaClVmmapUpdate`: the entries, trimmed and marked, and the upper part of an entry
that is split. -/
def overwrite (first stop : Nat) :
    List (NaClVmmapEntry δ) → List (NaClVmmapEntry δ) × List (NaClVmmapEntry δ)
  | [] => ([], [])
  | ent :: rest =>
    let entEnd := endPage arch ent
    let additional := additionalOffset arch stop ent.pageNum
    if ent.pageNum < first ∧ stop < entEnd then
      ({ ent with npages := first - ent.pageNum } :: rest,
        [⟨stop, entEnd - stop, ent.prot, ent.nmop.map (·.incOffset additional), false⟩])
    else if ent.pageNum < first ∧ first < entEnd then
      let (kept, added) := overwrite first stop rest
      ({ ent with npages := first - ent.pageNum } :: kept, added)
    else if ent.pageNum < stop ∧ stop < entEnd then
      ({ ent with
          pageNum := stop
          npages := entEnd - stop
          nmop := ent.nmop.map (·.incOffset additional) } :: rest, [])
    else if first ≤ ent.pageNum ∧ entEnd ≤ stop then
      let (kept, added) := overwrite first stop rest
      ({ ent with removed := true } :: kept, added)
    else
      let (kept, added) := overwrite first stop rest
      (ent :: kept, added)

/-- `none` where a check ends the process. -/
def update (self : NaClVmmap δ) (pageNum npages prot : Nat) (nmop : Option (NaClMemObj δ))
    (remove : Bool) : Option (NaClVmmap δ) := do
  let stop := (pageNum + npages) % 2 ^ arch.ptrBits
  let self ← makeSorted arch self
  if npages = 0 then none
  else
    let (kept, added) := overwrite arch pageNum stop self.vmentry
    let self : NaClVmmap δ := ⟨kept ++ added, self.isSorted && added.isEmpty⟩
    removeMarked (if remove then self else self.add pageNum npages prot nmop)

end NaClVmmap

end Operations

end Glopen.Nacl

import Glopen.Cache.Eviction

/-! The list of every entry along runs of eviction.cc. -/
namespace Glopen.Cache

open Linked
variable {info : EntryStore} {lists : Lists} {a : CacheAddr} {eviction : Eviction} {now : UInt64}

def EntryStore.list (info : EntryStore) : RankList :=
  match info.state with
  | .normal => info.getListForEntryV2
  | _ => .deleted

/-- The calls of `Remove` named the list that had the node. -/
def Eviction.Held (eviction : Eviction) : Prop :=
  ∀ call ∈ eviction.removes, ∃ lists, WellFormed call.1.disk lists ∧ call.2.1 ∈ lists call.2.2

structure Eviction.Placed (eviction : Eviction) (lists : Lists) : Prop where
  ordered : eviction.rankings.Ordered lists
  member : ∀ a l, a ∈ lists l ↔ ∃ info, eviction.entries a = some info ∧ info.list = l
  reuse : ∀ a info, eviction.entries a = some info → 0 ≤ info.reuseCount
  held : eviction.Held

variable {source target : RankList}

theorem list_normal (normal : info.state = .normal) : info.list = info.getListForEntryV2 := by
  rw [EntryStore.list, normal]

theorem list_deleted {info : EntryStore} (gone : info.state ≠ .normal) : info.list = .deleted := by
  rw [EntryStore.list]
  split
  · rename_i normal
    exact absurd normal gone
  · rfl

theorem getListForEntryV2_kept (info : EntryStore) : info.getListForEntryV2 ≠ .deleted := by
  rw [EntryStore.getListForEntryV2]
  split
  · decide
  · split <;> decide

theorem list_eq_deleted : info.list = .deleted ↔ info.state ≠ .normal := by
  constructor
  · intro its normal
    rw [list_normal normal] at its
    exact getListForEntryV2_kept info its
  · exact list_deleted

theorem getListForEntryV2_noUse {info : EntryStore} (unused : info.reuseCount = 0) :
    info.getListForEntryV2 = .noUse := if_pos unused

theorem getListForEntryV2_lowUse {info : EntryStore} (used : 0 < info.reuseCount)
    (low : info.reuseCount < kHighUse) : info.getListForEntryV2 = .lowUse := by
  rw [EntryStore.getListForEntryV2, if_neg (Int.ne_of_gt used), if_pos low]

theorem getListForEntryV2_highUse {info : EntryStore} (high : kHighUse ≤ info.reuseCount) :
    info.getListForEntryV2 = .highUse := by
  rw [kHighUse] at high
  rw [EntryStore.getListForEntryV2, kHighUse, if_neg (by omega), if_neg (by omega)]

theorem refetched_reuse (reuse : 0 ≤ info.reuseCount)
    (below : info.reuseCount < kint32max) : 0 ≤ info.refetched.reuseCount := by
  have wrapped : wrapInt32 (info.reuseCount + 1) = info.reuseCount + 1 := by
    rw [kint32max] at below
    exact Int.bmod_eq_of_le (by omega) (by omega)
  have high : (0 : Int) ≤ kHighUse := by decide
  simp only [EntryStore.refetched, wrapped]
  by_cases jump : kHighUse < (if info.refetchCount < kint32max then info.refetchCount + 1
      else info.refetchCount) ∧ info.reuseCount < kHighUse
  · rw [if_pos jump]
    exact high
  · rw [if_neg jump]
    omega

theorem mem_erased (nodup : ∀ l, (lists l).Nodup)
    (apart : ∀ l l' b, b ∈ lists l → b ∈ lists l' → l = l') (inside : a ∈ lists source)
    (b : CacheAddr) (l : RankList) : b ∈ lists.put source ((lists source).erase a) l ↔ b ≠ a ∧ b ∈ lists l := by
  rw [Lists.put]
  split
  · rename_i same
    subst same
    exact (nodup l).mem_erase_iff
  · rename_i other
    exact ⟨fun there => ⟨fun same => other (apart l source a (same ▸ there) inside), there⟩, And.right⟩

theorem mem_added (out : ∀ l, a ∉ lists l) (b : CacheAddr) (l : RankList) :
    b ∈ lists.put target (a :: lists target) l ↔ if b = a then l = target else b ∈ lists l := by
  rw [Lists.put]
  split
  · rename_i here
    subst here
    rw [List.mem_cons]
    split
    · rename_i same
      exact ⟨fun _ => rfl, fun _ => Or.inl same⟩
    · rename_i other
      exact ⟨fun either => either.resolve_left other, Or.inr⟩
  · rename_i elsewhere
    split
    · rename_i same
      exact ⟨fun there => absurd (same ▸ there) (out l), fun here => absurd here elsewhere⟩
    · exact Iff.rfl

theorem mem_moved (nodup : ∀ l, (lists l).Nodup)
    (apart : ∀ l l' b, b ∈ lists l → b ∈ lists l' → l = l') (inside : a ∈ lists source)
    (b : CacheAddr) (l : RankList) : b ∈ (lists.put source ((lists source).erase a)).put target
        (a :: (lists.put source ((lists source).erase a)) target) l ↔
      if b = a then l = target else b ∈ lists l := by
  have without := mem_erased nodup apart inside
  rw [mem_added fun l there => ((without a l).mp there).1 rfl]
  split
  · exact Iff.rfl
  · rename_i other
    rw [without]
    exact ⟨And.right, fun there => ⟨other, there⟩⟩

section Moves

/-- `Remove` and `Insert` of one block. -/
def Eviction.move (a : CacheAddr) (source : RankList) (modified : Bool) (target : RankList)
    (now : UInt64) (eviction : Eviction) : Eviction :=
  let (eviction, node) := eviction.remove (eviction.rankings.block a) source
  eviction.insert node modified target now

variable (placed : eviction.Placed lists)
include placed

theorem Eviction.Placed.inside (its : eviction.entries a = some info) : a ∈ lists info.list :=
  (placed.member a _).mpr ⟨info, its, rfl⟩

theorem Eviction.Placed.held_remove (inside : a ∈ lists source) :
    (eviction.remove (eviction.rankings.block a) source).1.Held := by
  intro call called
  rcases List.mem_append.mp called with old | new
  · exact placed.held call old
  · rw [List.mem_singleton] at new
    subst new
    refine ⟨lists, placed.ordered.wf, ?_⟩
    rw [block_address]
    exact inside

theorem Eviction.Placed.moved {source : RankList} (inside : a ∈ lists source) (clock : now ≠ 0)
    (modified : Bool) (target : RankList) :
    ∃ lists', (eviction.move a source modified target now).rankings.Ordered lists' ∧
      ∀ b l, b ∈ lists' l ↔ if b = a then l = target else b ∈ lists l := by
  have wf := placed.ordered.wf
  obtain ⟨block, -⟩ := remove_block placed.ordered.mirrored placed.ordered.id (wf.sane source a inside) source
  obtain ⟨fresh, -⟩ := placed.ordered.updateRank inside clock modified
  have inserted := ((placed.ordered.remove inside).1.insert fresh target).1
  refine ⟨_, ?_, mem_moved wf.nodup wf.apart inside⟩
  rw [Eviction.move]
  simp only [Eviction.remove, Eviction.insert]
  rw [block]
  exact inserted

variable {info' : EntryStore}

theorem Eviction.Placed.placed_move (its : eviction.entries a = some info)
    (from_there : info.list = source) (clock : now ≠ 0) (modified : Bool)
    (there : info'.list = target) (reuse : 0 ≤ info'.reuseCount) :
    ∃ lists', ((eviction.move a source modified target now).write a info').Placed lists' := by
  have inside : a ∈ lists source := from_there ▸ placed.inside its
  obtain ⟨lists', ordered, members⟩ := placed.moved inside clock modified target
  refine ⟨lists', ordered, fun b l => ?_, fun b info'' its'' => ?_, placed.held_remove inside⟩
  · rw [members]
    change _ ↔ ∃ info, (if b = a then some info' else eviction.entries b) = some info ∧ info.list = l
    split
    · exact ⟨fun here => ⟨info', rfl, there.trans here.symm⟩, fun ⟨_, same, here⟩ => by
        cases same
        exact here.symm.trans there⟩
    · exact placed.member b l
  · change (if b = a then some info' else eviction.entries b) = some info'' at its''
    split at its''
    · cases its''
      exact reuse
    · exact placed.reuse b info'' its''

theorem Eviction.Placed.placed_write (its : eviction.entries a = some info)
    (same_list : info'.list = info.list) (reuse : 0 ≤ info'.reuseCount) :
    (eviction.write a info').Placed lists := by
  refine ⟨placed.ordered, fun b l => ?_, fun b info'' its'' => ?_, placed.held⟩
  · rw [placed.member]
    change _ ↔ ∃ info, (if b = a then some info' else eviction.entries b) = some info ∧ info.list = l
    split
    · rename_i here
      subst here
      exact ⟨fun ⟨_, its', here⟩ => ⟨info', rfl, by
          rw [its] at its'
          cases its'
          exact same_list.trans here⟩, fun ⟨_, same, here⟩ => ⟨info, its, by
          cases same
          exact same_list.symm.trans here⟩⟩
    · exact Iff.rfl
  · change (if b = a then some info' else eviction.entries b) = some info'' at its''
    split at its''
    · cases its''
      exact reuse
    · exact placed.reuse b info'' its''

end Moves

end Glopen.Cache

/-! What the handlers of eviction.cc keep, and their runs from a new cache. -/
namespace Glopen.Cache

open Linked
variable {info : EntryStore} {lists : Lists} {a : CacheAddr} {eviction : Eviction} {now : UInt64}

variable {rankings : Rankings}

section Handlers

variable (placed : eviction.Placed lists)
include placed

section

variable (its : eviction.entries a = some info)
include its

theorem Eviction.Placed.updateRankV2 (normal : info.state = .normal) (clock : now ≠ 0) (modified : Bool) :
    ∃ lists', (eviction.updateRankV2 a info modified now).Placed lists' := by
  have same_list := list_normal normal
  obtain ⟨lists', moved⟩ :=
    placed.placed_move its same_list clock modified same_list (placed.reuse a info its)
  refine ⟨lists', moved.ordered, fun b l => ?_, fun b info' its' => placed.reuse b info' its', moved.held⟩
  rw [moved.member]
  change (∃ info', (if b = a then some info else eviction.entries b) = some info' ∧ _) ↔ _
  split
  · rename_i here
    rw [here, ← its]
    rfl
  · exact Iff.rfl

theorem Eviction.Placed.onOpenEntryV2 (normal : info.state = .normal) (clock : now ≠ 0) :
    ∃ lists', (eviction.onOpenEntryV2 a info now).Placed lists' := by
  have positive := placed.reuse a info its
  let used : EntryStore := { info with reuseCount := info.reuseCount + 1 }
  have count : used.reuseCount = info.reuseCount + 1 := rfl
  have high : kHighUse = 10 := rfl
  have reuse : 0 ≤ used.reuseCount := by omega
  have old_list := list_normal normal
  have new_list : used.list = used.getListForEntryV2 := list_normal normal
  rw [Eviction.onOpenEntryV2]
  split
  · simp only
    split
    · have old := @getListForEntryV2_noUse info (by omega)
      have new := @getListForEntryV2_lowUse used (by omega) (by omega)
      exact placed.placed_move its (old_list.trans old) clock false (new_list.trans new) reuse
    · split
      · have old := @getListForEntryV2_lowUse info (by omega) (by omega)
        have new := @getListForEntryV2_highUse used (by omega)
        exact placed.placed_move its (old_list.trans old) clock false (new_list.trans new) reuse
      · have same : used.getListForEntryV2 = info.getListForEntryV2 := by
          by_cases low : info.reuseCount < kHighUse
          · rw [@getListForEntryV2_lowUse used (by omega) (by omega),
              @getListForEntryV2_lowUse info (by omega) low]
          · rw [@getListForEntryV2_highUse used (by omega), @getListForEntryV2_highUse info (by omega)]
        exact ⟨lists, placed.placed_write its ((new_list.trans same).trans old_list.symm) reuse⟩
  · exact ⟨lists, placed⟩

theorem Eviction.Placed.recreated
    (evicted : info.state = .evicted) (below : info.reuseCount < kint32max) (clock : now ≠ 0) :
    ∃ lists', (eviction.onCreateEntryV2 a info now).Placed lists' := by
  have old := @list_deleted info (by rw [evicted]; decide)
  have new : info.refetched.list = info.refetched.getListForEntryV2 := list_normal rfl
  rw [Eviction.onCreateEntryV2, evicted]
  exact placed.placed_move its old clock true new (refetched_reuse (placed.reuse a info its) below)

theorem Eviction.Placed.gone (normal : info.state = .normal)
    {state : EntryState} (other : state ≠ .normal) (clock : now ≠ 0) :
    ∃ lists', ((eviction.move a info.getListForEntryV2 true .deleted now).write a
      { info with state := state }).Placed lists' :=
  placed.placed_move its (list_normal normal) clock true (list_deleted other) (placed.reuse a info its)

theorem Eviction.Placed.onDoomEntryV2 (clock : now ≠ 0) :
    ∃ lists', (eviction.onDoomEntryV2 a info now).Placed lists' := by
  rw [Eviction.onDoomEntryV2]
  split
  · exact ⟨lists, placed⟩
  · rename_i not_other
    exact placed.gone its (not_not.mp not_other).symm (fun same => by cases same) clock

theorem Eviction.Placed.evictEntry (normal : info.state = .normal) (empty : Bool) (clock : now ≠ 0) :
    ∃ lists', (eviction.evictEntry a info empty now).Placed lists' := by
  rw [Eviction.evictEntry]
  split
  · exact placed.onDoomEntryV2 its clock
  · exact placed.gone its normal (fun same => by cases same) clock

theorem Eviction.Placed.removeDeletedNode (gone : info.state ≠ .normal) :
    (eviction.removeDeletedNode a info now).Placed lists := by
  have doomed : ({ info with state := .doomed } : EntryStore).list = .deleted :=
    list_deleted fun same => by cases same
  rw [Eviction.removeDeletedNode, Eviction.onDoomEntryV2, if_pos (fun same => by cases same)]
  exact placed.placed_write its (doomed.trans (list_deleted gone).symm) (placed.reuse a info its)

end

omit placed in
theorem Rankings.Ordered.clear (ordered : rankings.Ordered lists)
    (out : ∀ l, a ∉ lists l) (data : RankingsNode) : ({ rankings with
      openEntries := fun b => if b = a then none else rankings.openEntries b }.persist
        (.node a data)).Ordered lists := by
  refine ordered.touched rfl rfl rfl (fun l b inside => ?_) (fun b d opened => ?_) rfl
  · have other : b ≠ a := fun here => out l (here ▸ inside)
    simp only [Rankings.persist, Store.apply, if_neg other]
    exact ⟨trivial, trivial, fun sane => sane⟩
  · simp only [Rankings.persist, Store.apply] at opened ⊢
    split at opened
    · cases opened
    · rename_i other
      rw [if_neg other]
      exact ordered.mirrored b d opened

theorem Eviction.Placed.destroyEntry (its : eviction.entries a = some info)
    (gone : info.state ≠ .normal) : ∃ lists', (eviction.destroyEntry a).Placed lists' := by
  have inside : a ∈ lists .deleted := list_deleted gone ▸ placed.inside its
  have wf := placed.ordered.wf
  have removed := (placed.ordered.remove inside).1
  have without : ∀ b l, b ∈ lists.put .deleted ((lists .deleted).erase a) l ↔ b ≠ a ∧ b ∈ lists l := by
    intro b l
    exact mem_erased wf.nodup wf.apart inside b l
  refine ⟨_, removed.clear (fun l there => ((without a l).mp there).1 rfl) ⟨0, 0, 0, 0, 0, 0, 0⟩,
    fun b l => ?_, fun b info' its' => ?_, placed.held_remove inside⟩
  · rw [without, placed.member]
    change _ ↔ ∃ info, (if b = a then none else eviction.entries b) = some info ∧ info.list = l
    split
    · rename_i here
      exact ⟨fun both => absurd here both.1, fun ⟨_, no_entry, _⟩ => by cases no_entry⟩
    · rename_i other
      exact ⟨And.right, fun there => ⟨other, there⟩⟩
  · change (if b = a then none else eviction.entries b) = some info' at its'
    split at its'
    · cases its'
    · exact placed.reuse b info' its'

theorem Eviction.Placed.createEntry {contents : CacheAddr} (free : eviction.entries a = none)
    (block : a.IsBlock) (has_contents : contents ≠ 0) (clock : now ≠ 0) :
    ∃ lists', (eviction.createEntry a contents now).Placed lists' := by
  have out : ∀ l, a ∉ lists l := by
    intro l there
    obtain ⟨info, its, -⟩ := (placed.member a l).mp there
    rw [free] at its
    cases its
  let created := eviction.rankings.createEntry a contents
  have ordered : created.Ordered lists := placed.ordered.createEntry out contents
  have stored : (created.disk.node a).contents = contents := by
    change (if a = a then _ else eviction.rankings.disk.node a : RankingsNode).contents = contents
    rw [if_pos rfl]
  have fresh : created.Fresh lists a true now :=
    ⟨block, out, stored.symm ▸ has_contents, clock, Or.inl rfl⟩
  refine ⟨_, (ordered.insert fresh .noUse).1, fun b l => ?_, fun b info' its' => ?_, placed.held⟩
  · rw [mem_added out]
    change _ ↔ ∃ info, (if b = a then some ⟨0, 0, .normal⟩ else eviction.entries b) = some info ∧ info.list = l
    split
    · exact ⟨fun here => ⟨_, rfl, here.symm⟩, fun ⟨_, same, here⟩ => by
        cases same
        exact here.symm⟩
    · exact placed.member b l
  · change (if b = a then some _ else eviction.entries b) = some info' at its'
    split at its'
    · cases its'
      exact Int.le_refl _
    · exact placed.reuse b info' its'

end Handlers

section Step

variable (placed : eviction.Placed lists)
include placed

theorem Eviction.Placed.restart {currentEntryId : Int} (id : currentEntryId ≠ 0) :
    (EvictionEvent.run eviction (.restart currentEntryId)).Placed lists :=
  ⟨⟨placed.ordered.wf, ⟨placed.ordered.settled.idle, rfl, rfl⟩, closed_mirrored fun _ => rfl, id⟩,
    placed.member, placed.reuse, placed.held⟩

theorem Eviction.Placed.quiet {event : Event} (quiet : event.Quiet eviction.rankings) :
    (EvictionEvent.run eviction (.rankings event)).Placed lists := by
  have ordered : (event.run eviction.rankings).Ordered lists := by
    cases event with
    | openEntry a => exact placed.ordered.openEntry a
    | closeEntry a => exact placed.ordered.closeEntry a
    | free it =>
      have allowed : (Event.free it).Allowed lists eviction.rankings := trivial
      exact placed.ordered.event allowed
    | getNext it list =>
      have allowed : (Event.getNext it list).Allowed lists eviction.rankings := quiet
      exact placed.ordered.event allowed
    | getPrev it list =>
      have allowed : (Event.getPrev it list).Allowed lists eviction.rankings := quiet
      exact placed.ordered.event allowed
    | createEntry | insert | remove | updateRank => exact quiet.elim
  exact ⟨ordered, placed.member, placed.reuse, placed.held⟩

theorem Eviction.Placed.entry {l : RankList} (there : a ∈ lists l) :
    ∃ info, eviction.entries a = some info ∧ info.list = l := (placed.member a l).mp there

omit placed in
theorem Eviction.withEntry_some (its : eviction.entries a = some info) (handler : EntryStore → Eviction) :
    eviction.withEntry a handler = handler info := by
  rw [Eviction.withEntry, its]

theorem Eviction.Placed.event {event : EvictionEvent} (allowed : event.Allowed eviction lists)
    (below : eviction.BelowMax) : ∃ lists', (event.run eviction).Placed lists' := by
  cases event with
  | create a contents now =>
    obtain ⟨free, block, has_contents, clock⟩ := allowed
    exact placed.createEntry free block has_contents clock
  | recreate a now =>
    obtain ⟨⟨info, its, evicted⟩, clock⟩ := allowed
    rw [EvictionEvent.run, withEntry_some its]
    exact placed.recreated its evicted (below a info its) clock
  | opened a now =>
    obtain ⟨⟨info, its, normal⟩, clock⟩ := allowed
    rw [EvictionEvent.run, withEntry_some its]
    exact placed.onOpenEntryV2 its normal clock
  | updateRank a modified now =>
    obtain ⟨⟨info, its, normal⟩, clock⟩ := allowed
    rw [EvictionEvent.run, withEntry_some its]
    exact placed.updateRankV2 its normal clock modified
  | doom a now =>
    obtain ⟨⟨info, its, -⟩, clock⟩ := allowed
    rw [EvictionEvent.run, withEntry_some its]
    exact placed.onDoomEntryV2 its clock
  | evict a empty now =>
    obtain ⟨⟨list, first_three, there⟩, clock⟩ := allowed
    obtain ⟨info, its, its_list⟩ := placed.entry there
    have normal : info.state = .normal := by
      by_contra gone
      rw [list_deleted gone] at its_list
      subst its_list
      revert first_three
      decide
    rw [EvictionEvent.run, withEntry_some its]
    exact placed.evictEntry its normal empty clock
  | removeDeleted a now =>
    obtain ⟨there, -⟩ := allowed
    obtain ⟨info, its, its_list⟩ := placed.entry there
    rw [EvictionEvent.run, withEntry_some its]
    exact ⟨lists, placed.removeDeletedNode its (list_eq_deleted.mp its_list)⟩
  | destroy a =>
    obtain ⟨info, its, gone⟩ := allowed
    exact placed.destroyEntry its gone
  | rankings event => exact ⟨lists, placed.quiet allowed⟩
  | restart currentEntryId => exact ⟨lists, placed.restart allowed⟩

end Step

section Runs

variable (ordered : rankings.Ordered fun _ => [])

def Eviction.new (rankings : Rankings) : Eviction := ⟨rankings, fun _ => none, []⟩
include ordered

theorem placed_new : (Eviction.new rankings).Placed fun _ => [] where
  ordered := ordered
  member _ _ := ⟨fun there => (by cases there), fun ⟨_, no_entry, _⟩ => by cases no_entry⟩
  reuse _ _ no_entry := by cases no_entry
  held _ no_call := by cases no_call

theorem EvictionRun.placed (run : EvictionRun (.new rankings) eviction) : ∃ lists, eviction.Placed lists := by
  induction run with
  | start => exact ⟨_, placed_new ordered⟩
  | event run wf allowed below ih =>
    obtain ⟨lists', placed⟩ := ih
    have same := wf.unique placed.ordered.wf
    subst same
    exact placed.event allowed below

/-- Every node is in the list that its entry has by its state and its reuse count, and in no other, and
every `Remove` named the list that had the node. -/
theorem node_in_its_list {eviction : Eviction} (run : EvictionRun (.new rankings) eviction) :
    (∃ lists, WellFormed eviction.rankings.disk lists ∧
      (∀ a info, eviction.entries a = some info → ∀ l, a ∈ lists l ↔ l =
        if info.state = .normal then info.getListForEntryV2 else .deleted) ∧
      ∀ a l l', a ∈ lists l → a ∈ lists l' → l = l') ∧
    ∀ call ∈ eviction.removes, ∃ lists, WellFormed call.1.disk lists ∧ call.2.1 ∈ lists call.2.2 := by
  obtain ⟨lists, placed⟩ := run.placed ordered
  refine ⟨⟨lists, placed.ordered.wf, fun a info its l => ?_, fun a l l' =>
    placed.ordered.wf.apart l l' a⟩, placed.held⟩
  have its_list : info.list = if info.state = .normal then info.getListForEntryV2 else .deleted := by
    split
    · rename_i normal
      exact list_normal normal
    · rename_i gone
      exact list_deleted gone
  rw [placed.member, ← its_list]
  constructor
  · rintro ⟨info', its', here⟩
    rw [its] at its'
    cases its'
    exact here.symm
  · intro here
    exact ⟨info, its, here.symm⟩

def Rankings.empty : Rankings :=
  .new ⟨⟨fun _ => 0, fun _ => 0, fun _ => 0, 0, .none, .noUse⟩, fun _ => ⟨0, 0, 0, 0, 0, 0, 0⟩⟩ true 1

omit ordered in
theorem empty_ordered : Rankings.empty.Ordered fun _ => [] where
  wf := {
    head := fun _ => rfl
    tail := fun _ => rfl
    chain := fun _ => Chain.nil _
    nodup := fun _ => List.nodup_nil
    apart := fun _ _ _ there => by cases there
    blocks := fun _ _ there => by cases there
    sane := fun _ _ there => by cases there }
  settled := ⟨rfl, rfl, rfl⟩
  mirrored := closed_mirrored fun _ => rfl
  id := by decide

omit ordered in
theorem Eviction.BelowMax.write {eviction eviction' : Eviction} (before : eviction.BelowMax)
    {a : CacheAddr} {info : EntryStore} (its : eviction'.entries = (eviction.write a info).entries)
    (below : info.reuseCount < kint32max) : eviction'.BelowMax := by
  intro b info' its'
  rw [its] at its'
  change (if b = a then some info else eviction.entries b) = some info' at its'
  split at its'
  · cases its'
    exact below
  · exact before b info' its'

omit ordered in
/-- An entry is made, opened and doomed: its node goes through three lists. -/
theorem node_in_its_list_doomed :
    let opened := (EvictionEvent.opened singleAddr 6).run
      ((EvictionEvent.create singleAddr 0xa0000001 5).run (.new .empty))
    let doomed := (EvictionEvent.doom singleAddr 7).run opened
    ∃ lists, WellFormed doomed.rankings.disk lists ∧ ∀ l, singleAddr ∈ lists l ↔ l = .deleted := by
  intro opened doomed
  have none_below : (Eviction.new .empty).BelowMax := fun _ _ no_entry => by cases no_entry
  let created := (EvictionEvent.create singleAddr 0xa0000001 5).run (.new .empty)
  have one : EvictionRun (.new .empty) created :=
    .event .start empty_ordered.wf ⟨rfl, ⟨by decide, by decide⟩, by decide, by decide⟩ none_below
  obtain ⟨lists₁, placed₁⟩ := one.placed empty_ordered
  have below : created.BelowMax :=
    @Eviction.BelowMax.write _ _ none_below singleAddr ⟨0, 0, .normal⟩ rfl (by decide)
  have two : EvictionRun (.new .empty) opened :=
    .event one placed₁.ordered.wf ⟨⟨⟨0, 0, .normal⟩, rfl, rfl⟩, by decide⟩ below
  obtain ⟨lists₂, placed₂⟩ := two.placed empty_ordered
  have below : opened.BelowMax :=
    @Eviction.BelowMax.write _ _ below singleAddr ⟨1, 0, .normal⟩ rfl (by decide)
  have three : EvictionRun (.new .empty) doomed :=
    .event two placed₂.ordered.wf ⟨⟨⟨1, 0, .normal⟩, rfl, trivial⟩, by decide⟩ below
  obtain ⟨⟨lists, wf, member, -⟩, -⟩ := node_in_its_list empty_ordered three
  exact ⟨lists, wf, fun l => member singleAddr ⟨1, 0, .doomed⟩ rfl l⟩

end Runs

end Glopen.Cache

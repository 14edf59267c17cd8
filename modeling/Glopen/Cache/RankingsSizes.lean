import Mathlib.Data.Nat.Bitwise
import Mathlib.Order.Interval.Finset.Nat
import Glopen.Cache.RankingsRuns

/-! The counters of the lists along runs with at most one crash. -/
namespace Glopen.Cache

open Linked List Rankings

theorem CacheAddr.IsBlock.above {a : CacheAddr} (block : a.IsBlock) : 2 ^ 31 < a.toNat := by
  by_contra low
  rcases Nat.lt_or_eq_of_le (not_lt.mp low) with below | at_bit
  · have initialized := block.initialized
    have bit : a.toNat.testBit 31 = false := Nat.testBit_lt_two_pow below
    have zero : a &&& 0x80000000 = 0 := by
      apply UInt32.toNat.inj
      have word : (0x80000000 : UInt32).toNat = 2 ^ 31 := rfl
      rw [UInt32.toNat_and, word, Nat.and_two_pow, bit]
      rfl
    simp [CacheAddr.isInitialized, zero] at initialized
  · have same : a = 0x80000000 := UInt32.toNat.inj at_bit
    have inFile := block.inFile
    rw [same] at inFile
    revert inFile
    decide

theorem blocks_length {a : CacheAddr} {as : List CacheAddr} (nodup : (a :: as).Nodup)
    (blocks : ∀ b ∈ a :: as, b.IsBlock) : (as.length : Int) < maxSize := by
  have numbers : ((a :: as).map UInt32.toNat).Nodup :=
    nodup.map fun x y same => UInt32.toNat.inj same
  have inside : ((a :: as).map UInt32.toNat).toFinset ⊆ Finset.Ioo (2 ^ 31) (2 ^ 32) := by
    intro n member
    rw [List.mem_toFinset, List.mem_map] at member
    obtain ⟨b, there, rfl⟩ := member
    exact Finset.mem_Ioo.mpr ⟨(blocks b there).above, b.toNat_lt⟩
  have card := Finset.card_le_card inside
  rw [toFinset_card_of_nodup numbers, Nat.card_Ioo, length_map, length_cons] at card
  rw [maxSize]
  omega

structure Rankings.Counted (rankings : Rankings) (lists : Lists) : Prop where
  counting : rankings.countLists = true
  sizes : ∀ list, rankings.disk.control.sizes list = (lists list).length

variable {now : UInt64} {currentEntryId : Int} {disk : Disk}

section Counted

variable {rankings : Rankings} {lists : Lists} (ordered : rankings.Ordered lists)

theorem sizesAfter_true (disk : Disk) (list : RankList) (change : Int) (l : RankList) :
    disk.sizesAfter list change true l =
      if l = list then disk.control.sizes l + change else disk.control.sizes l := by
  simp only [Disk.sizesAfter, and_true]

section

variable {sizes : RankList → Int} (counts : ∀ l, sizes l = (lists l).length) {sizes' : RankList → Int}
  {list : RankList}
include counts

theorem counted_cons (added : ∀ l, sizes' l = if l = list then sizes l + 1 else sizes l) (a : CacheAddr) :
    ∀ l, sizes' l = (lists.put list (a :: lists list) l).length := by
  intro l
  rw [added, Lists.put, counts]
  split
  · rename_i here
    rw [here, length_cons]
    omega
  · rfl

theorem counted_erase (removed : ∀ l, sizes' l = if l = list then sizes l + -1 else sizes l) {a : CacheAddr}
    (inside : a ∈ lists list) : ∀ l, sizes' l = (lists.put list ((lists list).erase a) l).length := by
  intro l
  rw [removed, Lists.put, counts]
  split
  · rename_i here
    have positive := length_pos_of_mem inside
    rw [here, length_erase_of_mem inside]
    omega
  · rfl

end
include ordered

theorem Rankings.Counted.room (counted : rankings.Counted lists) {a : CacheAddr} (block : a.IsBlock)
    (list : RankList) (new : a ∉ lists list) : rankings.disk.control.sizes list < maxSize := by
  rw [counted.sizes]
  refine blocks_length (nodup_cons.mpr ⟨new, ordered.wf.nodup list⟩) fun b there => ?_
  rcases mem_cons.mp there with rfl | old
  · exact block
  · exact ordered.wf.blocks list b old

omit ordered in
theorem Rankings.Counted.positive (counted : rankings.Counted lists) {a : CacheAddr} {list : RankList}
    (inside : a ∈ lists list) : 0 < rankings.disk.control.sizes list := by
  rw [counted.sizes]
  have positive := length_pos_of_mem inside
  omega

theorem Rankings.Counted.insert (counted : rankings.Counted lists) {a : CacheAddr} {modified : Bool}
    (fresh : rankings.Fresh lists a modified now) (list : RankList) :
    (rankings.insert (rankings.block a) modified list now).1.Counted (lists.put list (a :: lists list)) := by
  obtain ⟨-, sizes, same⟩ := ordered.insert fresh list
  refine ⟨same.counting.trans counted.counting, counted_cons counted.sizes (fun l => ?_) a⟩
  rw [sizes, counted.counting, decide_eq_true (counted.room ordered fresh.block list (fresh.new list))]
  exact sizesAfter_true ..

theorem Rankings.Counted.remove (counted : rankings.Counted lists) {a : CacheAddr} {list : RankList}
    (inside : a ∈ lists list) : (rankings.remove (rankings.block a) list).1.Counted
      (lists.put list ((lists list).erase a)) := by
  obtain ⟨-, -, -, sizes, same⟩ := ordered.remove inside
  refine ⟨same.counting.trans counted.counting, counted_erase counted.sizes (fun l => ?_) inside⟩
  rw [sizes, counted.counting, decide_eq_true (counted.positive inside)]
  exact sizesAfter_true ..

end Counted

theorem revertEnds_same (address prevAddr nextAddr : CacheAddr) (p n : RankingsNode) (list : RankList)
    (rankings : Rankings) : SameOpen rankings
      (rankings.revertEnds address ⟨prevAddr, .own p⟩ ⟨nextAddr, .own n⟩ list).1 := by
  rw [revertEnds]
  repeat' split
  all_goals exact .of_eq rfl rfl rfl

theorem own_written (c : Prop) [Decidable c] (a : CacheAddr) (d d' : RankingsNode)
    (rankings : Rankings) : (if c then (Block.mk a (.own d)).write d' rankings
      else (rankings, Block.mk a (.own d))) = (rankings, ⟨a, .own (if c then d' else d)⟩) := by
  split <;> rfl

theorem revertRemove_same (address : CacheAddr) (data : RankingsNode) (rankings : Rankings) :
    SameOpen rankings (rankings.revertRemove ⟨address, .own data⟩) := by
  rw [revertRemove]
  simp only
  split
  · exact .of_eq rfl rfl rfl
  · split
    · exact .of_eq rfl rfl rfl
    · simp only [Block.load, own_written]
      exact (revertEnds_same ..).trans (.of_eq rfl rfl rfl)

theorem closed_mirrored {rankings : Rankings} (closed : ∀ a, rankings.openEntries a = none) :
    rankings.Mirrored := by
  intro a d opened
  rw [closed a] at opened
  cases opened

theorem finishInsert_same (address : CacheAddr) (data : RankingsNode) (now : UInt64)
    {rankings : Rankings} (closed : ∀ a, rankings.openEntries a = none) (id : rankings.currentEntryId ≠ 0) :
    SameOpen rankings (rankings.finishInsert ⟨address, .own data⟩ now) := by
  rw [finishInsert]
  simp only
  split
  · let cleared := (rankings.persist (.transaction 0)).persist (.operation .none)
    have fits : ∀ d : RankingsNode, (Block.mk address (.own d)).Fits cleared := by
      intro d
      refine ⟨fun shared => (by cases shared), fun opened => ?_⟩
      change (rankings.openEntries address).isSome = true at opened
      rw [closed] at opened
      cases opened
    have started : SameOpen rankings cleared := .of_eq rfl rfl rfl
    have mirrored : cleared.Mirrored := closed_mirrored closed
    split
    · exact started.trans (mirrored.insert id (fits _) true _ now).2
    · exact started.trans (mirrored.insert id (fits _) true _ now).2
  · exact .of_eq rfl rfl rfl

theorem init_same (disk : Disk) (countLists : Bool) (id : currentEntryId ≠ 0)
    (now : UInt64) : SameOpen (Rankings.new disk countLists currentEntryId)
      (init disk countLists currentEntryId now) := by
  rw [init]
  split
  · rw [completeTransaction]
    simp only
    split
    · exact .of_eq rfl rfl rfl
    · simp only [Block.load, Block.write, Block.store, Block.data]
      have stored : ∀ store, SameOpen (Rankings.new disk countLists currentEntryId)
          ((Rankings.new disk countLists currentEntryId).persist store) := fun _ => .of_eq rfl rfl rfl
      split
      · exact (stored _).trans (finishInsert_same _ _ _ (fun _ => rfl) id)
      · exact (stored _).trans (revertRemove_same ..)
      · exact .of_eq rfl rfl rfl
  · exact .of_eq rfl rfl rfl

theorem Recovered.ordered {countLists : Bool} {lists : Lists} {sizes : RankList → Int}
    (recovered : Recovered lists sizes (init disk countLists currentEntryId now))
    (id : currentEntryId ≠ 0) : (init disk countLists currentEntryId now).Ordered lists := by
  have same := init_same disk countLists id now
  have closed : ∀ a, (init disk countLists currentEntryId now).openEntries a = none :=
    fun a => Option.isSome_eq_false_iff.mp (same.entries a) |> Option.isNone_iff_eq_none.mp
  exact ⟨recovered.wf, recovered.settled, closed_mirrored closed, same.id.symm ▸ id⟩

inductive Event
  | openEntry (a : CacheAddr)
  | createEntry (a contents : CacheAddr)
  | closeEntry (a : CacheAddr)
  | insert (a : CacheAddr) (modified : Bool) (list : RankList) (now : UInt64)
  | remove (a : CacheAddr) (list : RankList)
  | updateRank (a : CacheAddr) (modified : Bool) (list : RankList) (now : UInt64)
  | getNext (it : Option Iterator) (list : RankList)
  | getPrev (it : Option Iterator) (list : RankList)
  | free (it : Iterator)

def Event.run (rankings : Rankings) : Event → Rankings
  | .openEntry a => rankings.openEntry a
  | .createEntry a contents => rankings.createEntry a contents
  | .closeEntry a => rankings.closeEntry a
  | .insert a modified list now => (rankings.insert (rankings.block a) modified list now).1
  | .remove a list => (rankings.remove (rankings.block a) list).1
  | .updateRank a modified list now => (rankings.updateRank (rankings.block a) modified list now).1
  | .getNext it list => (rankings.getNext it list).1
  | .getPrev it list => (rankings.getPrev it list).1
  | .free it => rankings.freeRankingsBlock it

def Event.after (lists : Lists) : Event → Lists
  | .insert a _ list _ => lists.put list (a :: lists list)
  | .remove a list => lists.put list ((lists list).erase a)
  | .updateRank a _ list _ => lists.put list (a :: (lists list).erase a)
  | _ => lists

/-- An entry is created at a node that was free, a node comes from no list, and goes from the list that
has it. -/
def Event.Allowed (lists : Lists) (rankings : Rankings) : Event → Prop
  | .createEntry a contents => (∀ l, a ∉ lists l) ∧ contents ≠ 0
  | .insert a modified _ now => rankings.Fresh lists a modified now
  | .remove a list => a ∈ lists list
  | .updateRank a _ list now => a ∈ lists list ∧ now ≠ 0
  | .getNext it _ => ∀ node, it = some node → node ∈ rankings.iterators
  | .getPrev it _ => ∀ node, it = some node → node ∈ rankings.iterators
  | _ => True

section Step

variable {rankings : Rankings} {lists : Lists} (ordered : rankings.Ordered lists)
include ordered

theorem Rankings.Ordered.updateRank {a : CacheAddr} {list : RankList} (inside : a ∈ lists list)
    (clock : now ≠ 0) (modified : Bool) :
    let removed := (rankings.remove (rankings.block a) list).1
    removed.Fresh (lists.put list ((lists list).erase a)) a modified now ∧
      (rankings.updateRank (rankings.block a) modified list now).1 =
        (removed.insert (removed.block a) modified list now).1 := by
  intro removed
  obtain ⟨block, sane⟩ :=
    remove_block ordered.mirrored ordered.id (ordered.wf.sane list a inside) list
  refine ⟨⟨ordered.wf.blocks list a inside, fun l there => ?_, sane.contents, clock,
    Or.inr sane.lastModified⟩, ?_⟩
  · rw [Lists.put] at there
    split at there
    · exact (ordered.wf.nodup list).not_mem_erase there
    · rename_i other
      exact other (ordered.wf.apart l list a there inside)
  · rw [Rankings.updateRank]
    simp only
    rw [block]

omit ordered in
theorem after_updateRank (lists : Lists) (a : CacheAddr) (list : RankList) :
    (lists.put list ((lists list).erase a)).put list (a :: (lists.put list ((lists list).erase a)) list) =
      lists.put list (a :: (lists list).erase a) := by
  funext l
  simp only [Lists.put, if_true]
  split <;> rfl

theorem Rankings.Ordered.event {event : Event} (allowed : event.Allowed lists rankings) :
    (event.run rankings).Ordered (event.after lists) := by
  cases event with
  | openEntry a => exact ordered.openEntry a
  | createEntry a contents => exact ordered.createEntry allowed.1 contents
  | closeEntry a => exact ordered.closeEntry a
  | insert a modified list now => exact (ordered.insert allowed list).1
  | remove a list => exact (ordered.remove allowed).1
  | updateRank a modified list now =>
    obtain ⟨fresh, same⟩ := ordered.updateRank allowed.1 allowed.2 modified
    have inserted := ((ordered.remove allowed.1).1.insert fresh list).1
    rw [after_updateRank] at inserted
    rw [Event.run, same]
    exact inserted
  | getNext it list => exact ordered.untouched (next_prev_untouched ..).1
  | getPrev it list => exact ordered.untouched (next_prev_untouched ..).2
  | free it => exact ordered.untouched ⟨rfl, rfl, rfl, rfl, rfl, rfl⟩

omit ordered in
theorem Rankings.Counted.untouched {rankings' : Rankings} (counted : rankings.Counted lists)
    (sizes : rankings'.disk.control = rankings.disk.control)
    (counting : rankings'.countLists = rankings.countLists) : rankings'.Counted lists :=
  ⟨counting.trans counted.counting, fun list => sizes ▸ counted.sizes list⟩

theorem Rankings.Counted.event (counted : rankings.Counted lists) {event : Event}
    (allowed : event.Allowed lists rankings) : (event.run rankings).Counted (event.after lists) := by
  cases event with
  | openEntry a =>
    rw [Event.run, Rankings.openEntry]
    simp only
    split
    · exact counted
    · exact counted.untouched rfl rfl
  | createEntry a contents => exact counted.untouched rfl rfl
  | closeEntry a =>
    rw [Event.run, Rankings.closeEntry]
    split
    · exact counted
    · exact counted.untouched rfl rfl
  | insert a modified list now => exact counted.insert ordered allowed list
  | remove a list => exact counted.remove ordered allowed
  | updateRank a modified list now =>
    obtain ⟨fresh, same⟩ := ordered.updateRank allowed.1 allowed.2 modified
    have inserted := (counted.remove ordered allowed.1).insert (ordered.remove allowed.1).1 fresh list
    rw [after_updateRank] at inserted
    rw [Event.run, same]
    exact inserted
  | getNext it list =>
    have same := (next_prev_untouched rankings it list).1
    exact counted.untouched (congrArg Disk.control same.disk) same.counting
  | getPrev it list =>
    have same := (next_prev_untouched rankings it list).2
    exact counted.untouched (congrArg Disk.control same.disk) same.counting
  | free it => exact counted.untouched rfl rfl

end Step

def CountedInTime (n : CacheAddr) (stores : List Store) : Prop :=
  stores.any (Store.completes n) = true → stores.any Store.counts = true

inductive CrashRun (point : CacheAddr → List Store → Prop) (start : Rankings) : Bool → Rankings → Prop
  | start : CrashRun point start false start
  | event {crashed : Bool} {rankings : Rankings} {lists : Lists} {event : Event}
      (run : CrashRun point start crashed rankings) (wf : WellFormed rankings.disk lists)
      (allowed : event.Allowed lists rankings) : CrashRun point start crashed (event.run rankings)
  | crash {rankings : Rankings} {lists : Lists} {change : Change} {k : Nat} {currentEntryId : Int}
      {now : UInt64} (run : CrashRun point start false rankings) (wf : WellFormed rankings.disk lists)
      (allowed : change.Allowed lists rankings) (id : currentEntryId ≠ 0) (clock : now ≠ 0)
      (stopped : point change.node.address ((change.stores rankings).take k)) :
      CrashRun point start true (init (change.crashed rankings k) true currentEntryId now)

theorem restarted_counted (id : currentEntryId ≠ 0) {lists : Lists} {sizes : RankList → Int}
    (recovered : Recovered lists sizes (init disk true currentEntryId now))
    (counts : ∀ l, sizes l = (lists l).length) : (init disk true currentEntryId now).Ordered lists ∧
      (init disk true currentEntryId now).Counted lists :=
  ⟨recovered.ordered id, (init_same disk true id now).counting, fun l => by
    rw [recovered.sizes, counts]⟩

theorem Rankings.Counted.crash {rankings : Rankings} {lists : Lists} (ordered : rankings.Ordered lists)
    (counted : rankings.Counted lists) {change : Change} (allowed : change.Allowed lists rankings)
    {k : Nat} (id : currentEntryId ≠ 0) (clock : now ≠ 0)
    (stopped : CountedInTime change.node.address ((change.stores rankings).take k)) :
    ∃ lists', (init (change.crashed rankings k) true currentEntryId now).Ordered lists' ∧
      (init (change.crashed rankings k) true currentEntryId now).Counted lists' := by
  have backed := ordered.mirrored.backed
  cases change with
  | insert node modified list now' =>
    have added := @counted_cons lists _ counted.sizes
      (rankings.disk.sizesAfter list 1 true) list (sizesAfter_true _ _ _) node.address
    have point := Change.insert_crashed ordered.wf ordered.settled backed allowed k
    rcases point.recovered ordered.wf allowed.1 allowed.2.1 true currentEntryId clock with
      ⟨recovered, -⟩ | ⟨recovered, -⟩ | ⟨recovered, complete⟩
    · exact ⟨lists, restarted_counted id recovered counted.sizes⟩
    · rw [decide_eq_true (counted.room ordered allowed.1 list (allowed.2.1 list))] at recovered
      exact ⟨_, restarted_counted id recovered added⟩
    · have counts : (List.take k _).any Store.counts = true := stopped complete
      rw [counts] at recovered
      exact ⟨_, restarted_counted id recovered added⟩
  | remove node list =>
    have removed := @counted_erase lists _ counted.sizes
      (rankings.disk.sizesAfter list (-1) true) list (sizesAfter_true _ _ _) _ allowed.1
    have point := Change.remove_crashed ordered.wf ordered.settled backed allowed k
    rcases point.recovered ordered.wf allowed.1 true currentEntryId now with
      ⟨recovered, -⟩ | ⟨recovered, -, -, complete⟩
    · exact ⟨lists, restarted_counted id recovered counted.sizes⟩
    · have counts : (List.take k _).any Store.counts = true := stopped complete
      rw [counts] at recovered
      exact ⟨_, restarted_counted id recovered removed⟩

/-- The counters stay those of the lists in every run whose crash, if there is one, does not come
between the store that links or unlinks the node and the one of the counter. -/
theorem sizes_survive {start : Rankings} {lists : Lists} (ordered : start.Ordered lists)
    (counted : start.Counted lists) {crashed : Bool} {rankings : Rankings}
    (run : CrashRun CountedInTime start crashed rankings) : ∃ lists', WellFormed rankings.disk lists' ∧
      ∀ list, rankings.disk.control.sizes list = (lists' list).length := by
  have kept : ∃ lists', rankings.Ordered lists' ∧ rankings.Counted lists' := by
    induction run with
    | start => exact ⟨lists, ordered, counted⟩
    | event run wf allowed ih =>
      obtain ⟨lists', ordered', counted'⟩ := ih
      have same := wf.unique ordered'.wf
      subst same
      exact ⟨_, ordered'.event allowed, counted'.event ordered' allowed⟩
    | crash run wf allowed id clock stopped ih =>
      obtain ⟨lists', ordered', counted'⟩ := ih
      have same := wf.unique ordered'.wf
      subst same
      exact counted'.crash ordered' allowed id clock stopped
  obtain ⟨lists', ordered', counted'⟩ := kept
  exact ⟨lists', ordered'.wf, counted'.sizes⟩

theorem single_ordered : (Rankings.new single true 1).Ordered singleLists :=
  ⟨single_wellFormed, ⟨rfl, rfl, rfl⟩, closed_mirrored fun _ => rfl, by decide⟩

theorem single_counted : (Rankings.new single true 1).Counted singleLists :=
  ⟨rfl, fun list => by cases list <;> rfl⟩

theorem sizes_survive_single :
    let restarted := init ((Change.remove (.load singleAddr (.new single true 1))
      .noUse).crashed (.new single true 1) 5) true 2 7
    ∃ lists', WellFormed restarted.disk lists' ∧
      ∀ list, restarted.disk.control.sizes list = (lists' list).length := by
  intro restarted
  have in_time : CountedInTime singleAddr (((Change.remove (.load singleAddr (.new single true 1))
      .noUse).stores (.new single true 1)).take 5) := by
    unfold CountedInTime
    decide +kernel
  exact sizes_survive single_ordered single_counted
    (.crash .start single_wellFormed single_allowed (by decide) (by decide) in_time)

/-- The node is out of the list and stored, and the process stops before the counter is. -/
theorem counter_lost : ¬ ∀ (start : Rankings) (lists : Lists), start.Ordered lists →
    start.Counted lists → ∀ (crashed : Bool) (rankings : Rankings),
      CrashRun (fun _ _ => True) start crashed rankings → ∃ lists', WellFormed rankings.disk lists' ∧
        ∀ list, rankings.disk.control.sizes list = (lists' list).length := by
  intro all
  have run : CrashRun (fun _ _ => True) (.new single true 1) true (init ((Change.remove
      (.load singleAddr (.new single true 1)) .noUse).crashed (.new single true 1) 8) true 2 7) :=
    .crash .start single_wellFormed single_allowed (by decide) (by decide) trivial
  obtain ⟨lists', wf, counts⟩ := all _ _ single_ordered single_counted _ _ run
  have head : _ ↔ lists' .noUse = [] := wf.head_none
  have no_head : (init ((Change.remove (.load singleAddr (.new single true 1))
      .noUse).crashed (.new single true 1) 8) true 2 7).disk.control.heads .noUse = 0 := by
    decide +kernel
  have one : (init ((Change.remove (.load singleAddr (.new single true 1))
      .noUse).crashed (.new single true 1) 8) true 2 7).disk.control.sizes .noUse = 1 := by
    decide +kernel
  have count := counts .noUse
  rw [one, head.mp no_head] at count
  cases count

end Glopen.Cache

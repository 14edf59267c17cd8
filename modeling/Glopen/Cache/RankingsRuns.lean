import Glopen.Cache.RankingsEntries

/-! Runs of operations on the lists, and of the events between them. -/
namespace Glopen.Cache

open Linked

structure Rankings.Ordered (rankings : Rankings) (lists : Lists) : Prop where
  wf : WellFormed rankings.disk lists
  settled : rankings.Settled
  mirrored : rankings.Mirrored
  id : rankings.currentEntryId ≠ 0

section Block

variable {rankings : Rankings}

@[simp] theorem block_address (rankings : Rankings) (a : CacheAddr) : (rankings.block a).address = a := by
  rw [Rankings.block]
  split <;> rfl

theorem block_fits (rankings : Rankings) (a : CacheAddr) : (rankings.block a).Fits rankings := by
  rw [Block.Fits, block_address, Rankings.block]
  split
  · rename_i opened
    exact ⟨fun _ => opened, fun _ => rfl⟩
  · rename_i closed
    exact ⟨fun shared => (by cases shared), fun opened => absurd opened closed⟩

theorem block_data (mirrored : rankings.Mirrored) (a : CacheAddr) :
    (rankings.block a).data rankings = rankings.disk.node a := by
  rw [Rankings.block]
  split
  · rename_i opened
    obtain ⟨d, its⟩ := Option.isSome_iff_exists.mp opened
    simp only [Block.data, its, Option.getD_some]
    exact ((mirrored a d its).2.2 fun none => none).symm
  · rfl

theorem block_linkable (mirrored : rankings.Mirrored) (a : CacheAddr) :
    Linkable (rankings.block a) rankings := by
  refine ⟨?_, ?_⟩
  · rw [block_data mirrored, block_address]
  · rw [block_data mirrored, block_address]

end Block

variable {rankings' : Rankings} {list : RankList} {a : CacheAddr} {lists : Lists}

section Returned

def Block.Current (block : Block) (rankings : Rankings) : Prop :=
  ∀ data, block.buffer = .own data → rankings.disk.node block.address = data

theorem store_current (block : Block) (rankings : Rankings) : block.Current (block.store rankings) := by
  intro data own
  have node : (block.store rankings).disk.node block.address = block.data rankings := if_pos rfl
  rw [node, Block.data, own]

theorem Block.Current.same {block : Block} {rankings : Rankings}
    (current : block.Current rankings) (nodes : rankings'.disk.node = rankings.disk.node) :
    block.Current rankings' := by
  intro data own
  rw [nodes]
  exact current data own

variable {node : Block}

section Sane

variable {block other : Block} {data : RankingsNode} {rankings : Rankings}

theorem alias_data (same : other.Alias block) : other.data rankings = block.data rankings := by
  rw [Block.data, Block.data, same.1, same.2.1, same.2.2]

theorem sane_write (sane : (other.data rankings).Sane) (keeps : (block.data rankings).Sane → data.Sane) :
    (other.data (block.write data rankings).1).Sane := by
  rw [data_write]
  split
  · rename_i same
    exact keeps (alias_data same ▸ sane)
  · exact sane

theorem sane_links {data : RankingsNode} (sane : data.Sane) (prev next : CacheAddr) :
    ({ data with prev := prev, next := next } : RankingsNode).Sane :=
  ⟨sane.contents, sane.lastUsed, sane.lastModified⟩

variable {prev next : Block}

theorem sane_removeEnd (opened : node.buffer = .shared → (rankings.openEntries node.address).isSome = true)
    (sane : (node.data rankings).Sane) (address : CacheAddr) (list : RankList) :
    (node.data (rankings.removeEnd address prev next list).1).Sane := by
  rw [Rankings.removeEnd]
  split
  · split
    · exact sane
    · split
      · exact @sane_write next node _ (rankings.setHead list next.address) sane fun its =>
          sane_links its next.address _
      · have written : (node.data (prev.write { prev.data (rankings.setTail list prev.address) with
            next := prev.address } (rankings.setTail list prev.address)).1).Sane :=
          @sane_write prev node _ (rankings.setTail list prev.address) sane fun its =>
            sane_links its _ prev.address
        have kept := @data_persist node ((prev.write
          { prev.data (rankings.setTail list prev.address) with next := prev.address }
          (rankings.setTail list prev.address)).1.writeTail list)
          (fun shared => write_opened _ _ _ (opened shared))
        exact (kept _).symm ▸ written
  · exact sane

theorem removeEnd_opened {address : CacheAddr} (opened : (rankings.openEntries a).isSome = true) :
    ((rankings.removeEnd address prev next list).1.openEntries a).isSome = true := by
  rw [Rankings.removeEnd]
  repeat' split
  · exact opened
  · exact write_opened _ _ _ opened
  · exact write_opened _ _ _ opened
  · exact opened

end Sane

/-- The block of the caller, behind `Remove`. -/
structure Returned (node : Block) (removed : Rankings × Block) : Prop where
  address : removed.2.address = node.address
  shared : removed.2.buffer = .shared ↔ node.buffer = .shared
  current : removed.2.Current removed.1
  sane : (removed.1.disk.node node.address).Sane

theorem returned_write {data : RankingsNode} {before later after : Rankings}
    (its : (node.write data before).2.data later = data) (sane : data.Sane)
    (nodes : after.disk.node = ((node.write data before).2.store later).disk.node) :
    Returned node (after, (node.write data before).2) := by
  refine ⟨write_address .., write_shared .., (store_current _ later).same nodes, ?_⟩
  have stored : ((node.write data before).2.store later).disk.node node.address = data := by
    rw [Block.store, its]
    exact if_pos (write_address ..).symm
  rw [nodes, stored]
  exact sane

theorem returned_behind (list : RankList) (ended : Rankings × Block × Block)
    (opened : node.buffer = .shared → (ended.1.openEntries node.address).isSome = true)
    (sane : (node.data ended.1).Sane) : Returned node (removeBehind node list ended) := by
  let bare : RankingsNode := { node.data ended.1 with next := 0, prev := 0 }
  let gone := node.write bare ended.1
  have still : gone.2.buffer = .shared → (gone.1.openEntries gone.2.address).isSome = true := by
    intro shared
    rw [write_address]
    exact write_opened node bare ended.1 (opened ((write_shared ..).mp shared))
  have its : gone.2.data (ended.2.1.store (ended.2.2.store gone.1)) = bare := by
    rw [Block.store, Block.store, data_persist, data_persist still]
    · exact data_write_self ..
    · exact still
  exact returned_write its (sane_links sane 0 0) (counter_same _ list (.inr rfl)).2.1

theorem returned_remove {rankings : Rankings} (fits : node.Fits rankings)
    (current : node.Current rankings) (sane : (node.data rankings).Sane)
    (stored : (rankings.disk.node node.address).Sane) (list : RankList) :
    Returned node (rankings.remove node list) := by
  have kept : ∀ found : Rankings, found.disk = rankings.disk → Returned node (found, node) := by
    intro found disk
    refine ⟨rfl, Iff.rfl, current.same (congrArg Disk.node disk), ?_⟩
    rw [disk]
    exact stored
  rw [Rankings.remove]
  simp only
  split
  · exact kept _ rfl
  · have looked := getRanking_same (rankings.invalidateIterators node.address)
      (node.data (rankings.invalidateIterators node.address)).next
    split
    · rename_i found missing
      rw [missing] at looked
      exact kept _ looked.2.1
    · rename_i found next next_ran
      rw [next_ran] at looked
      have again := getRanking_same found (node.data (rankings.invalidateIterators node.address)).prev
      split
      · rename_i found' missing
        rw [missing] at again
        exact kept _ (again.2.1.trans looked.2.1)
      · rename_i found' prev prev_ran
        rw [prev_ran] at again
        have entries : found'.openEntries = rankings.openEntries := again.1.trans looked.1
        have disk : found'.disk = rankings.disk := again.2.1.trans looked.2.1
        have opened : node.buffer = .shared → (found'.openEntries node.address).isSome = true := by
          rw [entries]
          exact fits.mp
        have sane' : (node.data found').Sane := by
          rw [data_congr node rankings entries (congrArg Disk.node disk)]
          exact sane
        split
        · rw [Rankings.notLinked]
          split
          · exact returned_write (data_write_self ..) (sane_links sane' 0 0) rfl
          · exact kept _ disk
        · let begun := found'.beginTransaction node.address .remove list
          have begun_sane : (node.data begun).Sane := by
            have same : node.data begun = node.data found' := data_congr node found' rfl rfl
            rw [same]
            exact sane'
          let one := prev.write { prev.data begun with next := next.address } begun
          have one_sane : (node.data one.1).Sane := sane_write begun_sane fun its =>
            sane_links its _ next.address
          let two := next.write { next.data one.1 with prev := one.2.address } one.1
          have two_sane : (node.data two.1).Sane := sane_write one_sane fun its =>
            sane_links its one.2.address _
          have two_opened : node.buffer = .shared → (two.1.openEntries node.address).isSome = true :=
            fun shared => write_opened _ _ _ (write_opened _ _ _ (opened shared))
          have returned : Returned node (begun.removeNode node prev next list) :=
            returned_behind list (two.1.removeEnd node.address one.2 two.2 list)
              (fun shared => removeEnd_opened (two_opened shared)) (sane_removeEnd two_opened two_sane ..)
          exact ⟨returned.address, returned.shared, returned.current.same rfl, returned.sane⟩

theorem remove_block {rankings : Rankings} (mirrored : rankings.Mirrored)
    (id : rankings.currentEntryId ≠ 0) (sane : (rankings.disk.node a).Sane) (list : RankList) :
    (rankings.remove (rankings.block a) list).2 = (rankings.remove (rankings.block a) list).1.block a ∧
      ((rankings.remove (rankings.block a) list).1.disk.node a).Sane := by
  have current : (rankings.block a).Current rankings := by
    intro data own
    have its := block_data mirrored a
    rw [Block.data, own] at its
    rw [block_address]
    exact its.symm
  have its_data := block_data mirrored a
  have at_a := block_address rankings a
  have returned := returned_remove (block_fits rankings a) current (its_data.symm ▸ sane) (at_a.symm ▸ sane) list
  have same := (mirrored.remove id (block_fits rankings a) list).2
  have fits := block_fits rankings a
  have address := returned.address
  rw [block_address] at address
  rw [Block.Fits, block_address, ← returned.shared, ← same.entries] at fits
  have stored := returned.current
  have sane' := returned.sane
  rw [at_a] at sane'
  refine ⟨?_, sane'⟩
  clear sane' current returned same
  generalize rankings.remove (rankings.block a) list = removed at address fits stored ⊢
  obtain ⟨after, addr, buffer⟩ := removed
  simp only at address fits stored ⊢
  subst address
  rw [Rankings.block]
  cases buffer with
  | shared => rw [if_pos (fits.mp rfl)]
  | own data =>
    rw [if_neg (fun opened => by cases fits.mpr opened), Block.load, stored data rfl]

end Returned

section Insert

variable {rankings : Rankings} (ordered : rankings.Ordered lists)

structure Rankings.Fresh (rankings : Rankings) (lists : Lists) (a : CacheAddr) (modified : Bool)
    (now : UInt64) : Prop where
  block : a.IsBlock
  new : ∀ l, a ∉ lists l
  contents : (rankings.disk.node a).contents ≠ 0
  clock : now ≠ 0
  last_modified : modified = true ∨ (rankings.disk.node a).lastModified ≠ 0
include ordered

variable {modified : Bool} {now : UInt64}

theorem Rankings.Fresh.insertable (fresh : rankings.Fresh lists a modified now) :
    Insertable (rankings.block a) modified now rankings := by
  have same := block_data ordered.mirrored a
  exact ⟨fresh.clock, same.symm ▸ fresh.contents, same.symm ▸ fresh.last_modified⟩

theorem Rankings.Ordered.insert (fresh : rankings.Fresh lists a modified now) (list : RankList) :
    (rankings.insert (rankings.block a) modified list now).1.Ordered (lists.put list (a :: lists list)) ∧
      (rankings.insert (rankings.block a) modified list now).1.disk.control.sizes =
        rankings.disk.sizesAfter list 1
          (rankings.countLists && decide (rankings.disk.control.sizes list < maxSize)) ∧
      SameOpen rankings (rankings.insert (rankings.block a) modified list now).1 := by
  have at_a := block_address rankings a
  obtain ⟨since, inserted, counted, idle⟩ := @insert_points rankings lists ordered.wf list
    (rankings.block a) (at_a.symm ▸ fresh.block) (at_a.symm ▸ fresh.new) ordered.settled
    ordered.mirrored.backed (at_a.symm ▸ fresh.contents) modified now (fresh.insertable ordered)
  obtain ⟨mirrored, same⟩ := ordered.mirrored.insert ordered.id (block_fits rankings a) modified list now
  have wf := inserted.wf
  have sizes := inserted.sizes
  rw [at_a] at wf
  rw [counted] at sizes
  exact ⟨⟨wf, ⟨idle, inserted.heads, inserted.tails⟩, mirrored, same.id.symm ▸ ordered.id⟩, sizes, same⟩

theorem Rankings.Ordered.remove (inside : a ∈ lists list) :
    (rankings.remove (rankings.block a) list).1.Ordered (lists.put list ((lists list).erase a)) ∧
      ((rankings.remove (rankings.block a) list).1.disk.node a).prev = 0 ∧
      ((rankings.remove (rankings.block a) list).1.disk.node a).next = 0 ∧
      (rankings.remove (rankings.block a) list).1.disk.control.sizes = rankings.disk.sizesAfter list (-1)
          (rankings.countLists && decide (0 < rankings.disk.control.sizes list)) ∧
      SameOpen rankings (rankings.remove (rankings.block a) list).1 := by
  have at_a := block_address rankings a
  obtain ⟨since, removed, settled⟩ := @remove_points rankings lists ordered.wf list (rankings.block a)
    (at_a.symm ▸ inside) ordered.settled ordered.mirrored.backed (block_linkable ordered.mirrored a)
  obtain ⟨mirrored, same⟩ := ordered.mirrored.remove ordered.id (block_fits rankings a) list
  have wf := removed.wf
  have out := removed.out
  rw [at_a] at wf out
  exact ⟨⟨wf, settled, mirrored, same.id.symm ▸ ordered.id⟩, out.1, out.2, removed.sizes, same⟩

end Insert

section Entries

variable {rankings : Rankings} (ordered : rankings.Ordered lists)
include ordered

theorem Rankings.Ordered.touched
    (control : rankings'.disk.control = rankings.disk.control) (heads : rankings'.heads = rankings.heads)
    (tails : rankings'.tails = rankings.tails)
    (nodes : ∀ l, ∀ b ∈ lists l, (rankings'.disk.node b).prev = (rankings.disk.node b).prev ∧
      (rankings'.disk.node b).next = (rankings.disk.node b).next ∧
      ((rankings.disk.node b).Sane → (rankings'.disk.node b).Sane))
    (mirrored : rankings'.Mirrored) (id : rankings'.currentEntryId = rankings.currentEntryId) :
    rankings'.Ordered lists := by
  refine ⟨ordered.wf.congr ?_ ?_ (fun l b inside => ?_) fun l b inside => ?_, ⟨?_, ?_, ?_⟩, mirrored,
    id.symm ▸ ordered.id⟩
  · rw [control]
  · rw [control]
  · exact ⟨(nodes l b inside).1, (nodes l b inside).2.1⟩
  · exact (nodes l b inside).2.2 (ordered.wf.sane l b inside)
  · rw [control]
    exact ordered.settled.idle
  · rw [control, heads]
    exact ordered.settled.heads
  · rw [control, tails]
    exact ordered.settled.tails

theorem Rankings.Ordered.mark (addr : CacheAddr) {data : RankingsNode}
    (dirty : data.dirty = rankings.currentEntryId)
    (kept : ∀ l, addr ∈ lists l → data.prev = (rankings.disk.node addr).prev ∧
      data.next = (rankings.disk.node addr).next ∧ ((rankings.disk.node addr).Sane → data.Sane)) :
    ({ rankings with openEntries := fun a =>
        if a = addr then some data else rankings.openEntries a }.persist (.node addr data)).Ordered
      lists := by
  refine ordered.touched rfl rfl rfl (fun l b inside => ?_) (fun a d opened => ?_) rfl
  · change ((if b = addr then data else rankings.disk.node b)).prev = _ ∧ _
    split
    · rename_i here
      subst here
      simp only [Rankings.persist, Store.apply, if_true]
      exact kept l inside
    · rename_i other
      simp only [Rankings.persist, Store.apply, if_neg other]
      exact ⟨trivial, trivial, fun sane => sane⟩
  · simp only [Rankings.persist, Store.apply] at opened ⊢
    split at opened
    · rename_i here
      cases opened
      rw [if_pos here]
      exact ⟨dirty, dirty, fun _ => rfl⟩
    · rename_i other
      rw [if_neg other]
      exact ordered.mirrored a d opened

theorem Rankings.Ordered.openEntry (addr : CacheAddr) : (rankings.openEntry addr).Ordered lists := by
  rw [Rankings.openEntry]
  simp only
  split
  · exact ordered
  · exact ordered.mark addr rfl fun _ _ =>
      ⟨rfl, rfl, fun sane => ⟨sane.contents, sane.lastUsed, sane.lastModified⟩⟩

theorem Rankings.Ordered.createEntry {addr : CacheAddr} (new : ∀ l, addr ∉ lists l)
    (contents : CacheAddr) : (rankings.createEntry addr contents).Ordered lists :=
  ordered.mark addr rfl fun l inside => absurd inside (new l)

theorem Rankings.Ordered.closeEntry (addr : CacheAddr) : (rankings.closeEntry addr).Ordered lists := by
  rw [Rankings.closeEntry]
  split
  · exact ordered
  · rename_i data its
    have stored : rankings.disk.node addr = data := (ordered.mirrored addr data its).2.2 fun none => none
    refine ordered.touched rfl rfl rfl (fun l b inside => ?_) (fun a d opened => ?_) rfl
    · simp only [Rankings.persist, Store.apply]
      split
      · rename_i here
        rw [here, stored]
        exact ⟨rfl, rfl, fun sane => ⟨sane.contents, sane.lastUsed, sane.lastModified⟩⟩
      · exact ⟨rfl, rfl, fun sane => sane⟩
    · simp only [Rankings.persist, Store.apply] at opened ⊢
      split at opened
      · cases opened
      · rename_i other
        rw [if_neg other]
        exact ordered.mirrored a d opened

structure Untouched (rankings rankings' : Rankings) : Prop where
  disk : rankings'.disk = rankings.disk
  heads : rankings'.heads = rankings.heads
  tails : rankings'.tails = rankings.tails
  entries : rankings'.openEntries = rankings.openEntries
  id : rankings'.currentEntryId = rankings.currentEntryId
  counting : rankings'.countLists = rankings.countLists

theorem Rankings.Ordered.untouched (untouched : Untouched rankings rankings') : rankings'.Ordered lists := by
  refine ordered.touched (congrArg Disk.control untouched.disk) untouched.heads untouched.tails
    (fun l b _ => ?_) (ordered.mirrored.same untouched.entries (congrArg Disk.node untouched.disk)
      untouched.id) untouched.id
  rw [untouched.disk]
  exact ⟨rfl, rfl, fun sane => sane⟩

end Entries

theorem untouched_self (rankings : Rankings) : Untouched rankings rankings :=
  ⟨rfl, rfl, rfl, rfl, rfl, rfl⟩

theorem Untouched.trans {rankings rankings'' : Rankings} (one : Untouched rankings rankings')
    (two : Untouched rankings' rankings'') : Untouched rankings rankings'' :=
  ⟨two.disk.trans one.disk, two.heads.trans one.heads, two.tails.trans one.tails,
    two.entries.trans one.entries, two.id.trans one.id, two.counting.trans one.counting⟩

theorem getRanking_untouched (rankings : Rankings) (a : CacheAddr) :
    Untouched rankings (rankings.getRanking a).1 := by
  rw [Rankings.getRanking]
  split
  · exact untouched_self rankings
  · simp only
    repeat' split
    all_goals exact ⟨rfl, rfl, rfl, rfl, rfl, rfl⟩

theorem loaded_untouched (rankings : Rankings) (it : Iterator) : Untouched rankings (rankings.loaded it).1 := by
  rw [Rankings.loaded]
  split <;> exact ⟨rfl, rfl, rfl, rfl, rfl, rfl⟩

theorem follow_untouched (rankings : Rankings) (a : CacheAddr) (linked : RankingsNode → Bool) :
    Untouched rankings (rankings.follow a linked).1 := by
  have found := getRanking_untouched rankings a
  rw [Rankings.follow]
  split
  · rename_i looked
    rw [looked] at found
    exact found
  · rename_i looked
    rw [looked] at found
    simp only
    split <;> exact ⟨found.disk, found.heads, found.tails, found.entries, found.id, found.counting⟩

/-- `GetNext` and `GetPrev` load the node that they are given, and follow its link. -/
theorem next_prev_keep {P : Rankings → Prop} {rankings : Rankings} {it : Option Iterator} (same : P rankings)
    (loaded : ∀ node, it = some node → P (rankings.loaded node).1)
    (follow : ∀ (later : Rankings) a linked, P later → P (later.follow a linked).1) (list : RankList) :
    P (rankings.getNext it list).1 ∧ P (rankings.getPrev it list).1 := by
  cases it with
  | none =>
    rw [Rankings.getNext, Rankings.getPrev]
    constructor
    all_goals
      split
      · exact same
      · exact follow _ _ _ same
  | some node =>
    have loaded := loaded node rfl
    rw [Rankings.getNext, Rankings.getPrev]
    constructor
    all_goals
      simp only
      repeat' split
      · exact loaded
      · exact loaded
      · exact loaded
      · exact follow _ _ _ loaded

theorem next_prev_untouched (rankings : Rankings) (it : Option Iterator) (list : RankList) :
    Untouched rankings (rankings.getNext it list).1 ∧ Untouched rankings (rankings.getPrev it list).1 :=
  next_prev_keep (untouched_self rankings) (fun node _ => loaded_untouched rankings node)
    (fun _ a linked same => same.trans (follow_untouched _ a linked)) list

end Glopen.Cache

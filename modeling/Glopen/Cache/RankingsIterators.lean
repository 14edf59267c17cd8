import Glopen.Cache.RankingsSizes

/-! What the operations make of the iterators that are tracked. -/
namespace Glopen.Cache

open Linked

def Iterator.Agrees (it : Iterator) (disk : Disk) : Prop :=
  ∀ d, it.data = some d → d.prev = (disk.node it.address).prev ∧ d.next = (disk.node it.address).next

def Rankings.Unread (rankings : Rankings) (a : CacheAddr) : Prop :=
  ∀ it ∈ rankings.iterators, it.address = a → it.data = none

/-- What steps of an operation make of the iterators: those that agree still do, except with nodes
that are `stale`. -/
structure Follows (touched stale : CacheAddr → Prop) (start rankings : Rankings) : Prop where
  blocks : rankings.iterators.map Iterator.block = start.iterators.map Iterator.block
  nextBlock : rankings.nextBlock = start.nextBlock
  nodes : ∀ b, ¬ touched b → rankings.disk.node b = start.disk.node b
  each : ∀ it' ∈ rankings.iterators, ∃ it ∈ start.iterators, it'.block = it.block ∧
    it'.address = it.address ∧ (it.data = none → it'.data = none) ∧
    (it.Agrees start.disk → ¬ stale it.address → it'.Agrees rankings.disk)

variable {touched stale : CacheAddr → Prop} {start rankings rankings' : Rankings} {block : Block}
  {a : CacheAddr}

section Follows

theorem Iterator.Agrees.same {it : Iterator} {disk disk' : Disk} (agrees : it.Agrees disk)
    (node : disk'.node it.address = disk.node it.address) : it.Agrees disk' := by
  intro d its
  rw [node]
  exact agrees d its

theorem Follows.refl (rankings : Rankings) : Follows (fun _ => False) (fun _ => False) rankings rankings :=
  ⟨rfl, rfl, fun _ _ => rfl, fun it there => ⟨it, there, rfl, rfl, id, fun agrees _ => agrees⟩⟩

variable {touched' : CacheAddr → Prop} {it' : Iterator}

section

variable (follows : Follows touched stale start rankings)
include follows

theorem Follows.weaken {stale' : CacheAddr → Prop} (more : ∀ b, touched b → touched' b)
    (left : ∀ b, stale b → stale' b) : Follows touched' stale' start rankings := by
  refine ⟨follows.blocks, follows.nextBlock, fun b away => ?_, fun it' there => ?_⟩
  · exact follows.nodes b fun here => away (more b here)
  · obtain ⟨it, was, number, address, none, agrees⟩ := follows.each it' there
    exact ⟨it, was, number, address, none, fun before fresh =>
      agrees before fun old => fresh (left it.address old)⟩

theorem Follows.quiet (iterators : rankings'.iterators = rankings.iterators)
    (nextBlock : rankings'.nextBlock = rankings.nextBlock)
    (node : rankings'.disk.node = rankings.disk.node) : Follows touched stale start rankings' := by
  refine ⟨?_, nextBlock.trans follows.nextBlock, fun b away => ?_, fun it' there => ?_⟩
  · rw [iterators]
    exact follows.blocks
  · rw [node]
    exact follows.nodes b away
  · rw [iterators] at there
    obtain ⟨it, was, number, address, none, agrees⟩ := follows.each it' there
    exact ⟨it, was, number, address, none, fun before fresh => (agrees before fresh).same (congrFun node _)⟩

theorem Follows.write (block : Block)
    (data : RankingsNode) : Follows touched stale start (block.write data rankings).1 := by
  apply follows.quiet
  · exact write_iterators ..
  · rw [Block.write]
    split <;> rfl
  · exact congrArg Disk.node (write_disk ..)

theorem Follows.store (block : Block) :
    Follows (fun b => touched b ∨ b = block.address) (fun b => stale b ∨ b = block.address) start
      (block.store rankings) := by
  have other : ∀ b, b ≠ block.address → (block.store rankings).disk.node b = rankings.disk.node b :=
    fun b away => if_neg away
  refine ⟨follows.blocks, follows.nextBlock, fun b away => ?_, fun it' there => ?_⟩
  · exact (other b fun here => away (.inr here)).trans (follows.nodes b fun old => away (.inl old))
  · obtain ⟨it, was, number, address, none, agrees⟩ := follows.each it' there
    refine ⟨it, was, number, address, none, fun before fresh => ?_⟩
    apply (agrees before fun old => fresh (.inl old)).same
    exact other _ fun here => fresh (.inr (address.symm.trans here))

end

theorem updateIterators_blocks (rankings : Rankings) (block : Block) :
    (rankings.updateIterators block).iterators.map Iterator.block = rankings.iterators.map Iterator.block := by
  rw [Rankings.updateIterators, List.map_map]
  refine List.map_congr_left fun it _ => ?_
  simp only [Function.comp_apply]
  split <;> rfl

theorem mem_updateIterators (there : it' ∈ (rankings.updateIterators block).iterators) :
    ∃ it ∈ rankings.iterators, it'.block = it.block ∧ it'.address = it.address ∧
      (it.data = none → it'.data = none) ∧ (it.address ≠ block.address → it' = it) ∧
      (it.address = block.address → ∀ d, it'.data = some d → d = block.data rankings) := by
  obtain ⟨it, was, same⟩ := List.mem_map.mp there
  refine ⟨it, was, ?_⟩
  split at same
  · rename_i here
    subst same
    refine ⟨rfl, rfl, fun none => ?_, fun away => absurd here.1 away, fun _ d its => ?_⟩
    · rw [none] at here
      cases here.2
    · exact (Option.some.inj its).symm
  · rename_i away
    subst same
    refine ⟨rfl, rfl, id, fun _ => rfl, fun here d its => ?_⟩
    exact absurd ⟨here, by rw [its]; rfl⟩ away

theorem Follows.update (follows : Follows touched stale start rankings)
    (current : block.data rankings = rankings.disk.node block.address) :
    Follows touched (fun b => stale b ∧ b ≠ block.address) start (rankings.updateIterators block) := by
  refine ⟨(updateIterators_blocks ..).trans follows.blocks, follows.nextBlock, follows.nodes,
    fun it' there => ?_⟩
  obtain ⟨mid, between, kept, same, gone, others, updated⟩ := mem_updateIterators there
  obtain ⟨it, was, number, address, none, agrees⟩ := follows.each mid between
  refine ⟨it, was, kept.trans number, same.trans address, fun empty => gone (none empty), fun before fresh => ?_⟩
  by_cases here : mid.address = block.address
  · intro d its
    rw [updated here d its, current, same, here]
    exact ⟨rfl, rfl⟩
  · rw [others here]
    exact agrees before fun old => fresh ⟨old, fun there => here (address.trans there)⟩

theorem Follows.mislead (follows : Follows touched stale start rankings) (block : Block) :
    Follows touched (fun b => stale b ∨ b = block.address) start (rankings.updateIterators block) := by
  refine ⟨(updateIterators_blocks ..).trans follows.blocks, follows.nextBlock, follows.nodes,
    fun it' there => ?_⟩
  obtain ⟨mid, between, kept, same, gone, others, -⟩ := mem_updateIterators there
  obtain ⟨it, was, number, address, none, agrees⟩ := follows.each mid between
  refine ⟨it, was, kept.trans number, same.trans address, fun empty => gone (none empty), fun before fresh => ?_⟩
  rw [others fun here => fresh (.inr (address.symm.trans here))]
  exact agrees before fun old => fresh (.inl old)

theorem mem_invalidateIterators (there : it' ∈ (rankings.invalidateIterators a).iterators) :
    ∃ it ∈ rankings.iterators, it'.address = it.address ∧ it'.block = it.block ∧
      (it.data = none → it'.data = none) ∧ (it.address = a → it'.data = none) ∧
      (it.address ≠ a → it' = it) := by
  obtain ⟨it, was, same⟩ := List.mem_map.mp there
  refine ⟨it, was, ?_⟩
  split at same
  · rename_i here
    subst same
    exact ⟨rfl, rfl, fun _ => rfl, fun _ => rfl, fun away => absurd here away⟩
  · rename_i away
    subst same
    exact ⟨rfl, rfl, id, fun here => absurd here away, fun _ => rfl⟩

theorem invalidateIterators_unread (rankings : Rankings) (a : CacheAddr) :
    (rankings.invalidateIterators a).Unread a := by
  intro it' there here
  obtain ⟨it, -, address, -, -, gone, -⟩ := mem_invalidateIterators there
  exact gone (address.symm.trans here)

theorem Follows.silent (follows : Follows touched (fun b => b = a) start rankings)
    (unread : start.Unread a) : Follows touched (fun _ => False) start rankings := by
  refine ⟨follows.blocks, follows.nextBlock, follows.nodes, fun it' there => ?_⟩
  obtain ⟨it, was, number, address, none, agrees⟩ := follows.each it' there
  refine ⟨it, was, number, address, none, fun before _ => ?_⟩
  by_cases here : it.address = a
  · intro d its
    rw [none (unread it was here)] at its
    cases its
  · exact agrees before here

theorem Follows.trans {later : Rankings} (one : Follows touched (fun _ => False) start rankings)
    (two : Follows touched' (fun _ => False) rankings later) :
    Follows (fun b => touched b ∨ touched' b) (fun _ => False) start later := by
  refine ⟨two.blocks.trans one.blocks, two.nextBlock.trans one.nextBlock, fun b away => ?_, fun it' there => ?_⟩
  · exact (two.nodes b fun here => away (.inr here)).trans (one.nodes b fun here => away (.inl here))
  · obtain ⟨mid, between, number, address, none, agrees⟩ := two.each it' there
    obtain ⟨it, was, number', address', none', agrees'⟩ := one.each mid between
    exact ⟨it, was, number.trans number', address.trans address', fun empty => none (none' empty),
      fun before fresh => agrees (agrees' before fresh) id⟩

theorem Follows.unread (follows : Follows touched stale start rankings)
    (unread : start.Unread a) : rankings.Unread a := by
  intro it' there here
  obtain ⟨it, was, -, address, none, -⟩ := follows.each it' there
  exact none (unread it was (address.symm.trans here))

theorem follows_invalidate (rankings : Rankings) (a : CacheAddr) :
    Follows (fun _ => False) (fun _ => False) rankings (rankings.invalidateIterators a) := by
  refine ⟨?_, rfl, fun _ _ => rfl, fun it' there => ?_⟩
  · rw [Rankings.invalidateIterators, List.map_map]
    refine List.map_congr_left fun it _ => ?_
    simp only [Function.comp_apply]
    split <;> rfl
  · obtain ⟨it, was, address, number, none, gone, others⟩ := mem_invalidateIterators there
    refine ⟨it, was, number, address, none, fun agrees _ => ?_⟩
    by_cases here : it.address = a
    · intro d its
      rw [gone here] at its
      cases its
    · exact others here ▸ agrees

end Follows

section Insert

variable {found : Rankings}

theorem getRanking_found
    (ran : rankings.getRanking a = (found, some block)) : found = rankings ∧ block.address = a := by
  rw [Rankings.getRanking] at ran
  split at ran
  · cases ran
  simp only at ran
  split at ran
  · cases ran
  split at ran
  · cases ran
    exact ⟨rfl, rfl⟩
  split at ran
  · cases ran
    exact ⟨rfl, rfl⟩
  · cases ran
    exact ⟨rfl, rfl⟩

theorem getRanking_missing (ran : rankings.getRanking a = (found, none)) : found.iterators = rankings.iterators ∧
      found.nextBlock = rankings.nextBlock ∧ found.disk.node = rankings.disk.node := by
  rw [Rankings.getRanking] at ran
  split at ran
  · cases ran
    exact ⟨rfl, rfl, rfl⟩
  simp only at ran
  split at ran
  · cases ran
    exact ⟨rfl, rfl, rfl⟩
  split at ran
  · cases ran
  split at ran
  · cases ran
  · cases ran

theorem store_data (block : Block) (rankings : Rankings) :
    block.data (block.store rankings) = (block.store rankings).disk.node block.address := by
  have node : (block.store rankings).disk.node block.address = block.data rankings := if_pos rfl
  rw [node]
  exact data_stored rfl

section

variable (follows : Follows touched stale start rankings)
include follows

theorem Follows.linkHead {address : CacheAddr}
    {list : RankList} (ran : rankings.linkHead address list = some rankings') :
    Follows (fun b => touched b ∨ b = rankings.heads list) stale start rankings' := by
  rw [Rankings.linkHead] at ran
  split at ran
  · cases ran
  · rename_i found head looked
    obtain ⟨rfl, at_head⟩ := getRanking_found looked
    split at ran
    · cases ran
    · cases ran
      have written := (follows.write head { head.data found with prev := address }).store
        (head.write { head.data found with prev := address } found).2
      refine (written.update (store_data ..)).weaken (fun b here => ?_) fun b left => ?_
      · rw [write_address, at_head] at here
        exact here
      · exact left.1.elim id fun here => absurd here left.2

theorem Follows.incrementCounter
    (list : RankList) : Follows touched stale start (rankings.incrementCounter list) := by
  rw [Rankings.incrementCounter]
  repeat' split
  all_goals exact follows.quiet rfl rfl rfl

theorem Follows.insertNode (node : Block) (modified : Bool) (list : RankList) (now : UInt64) :
    Follows (fun b => touched b ∨ b = node.address) (fun b => stale b ∨ b = node.address) start
      (rankings.insertNode node modified list now).1 := by
  rw [Rankings.insertNode]
  obtain ⟨mid, next, chosen, kept⟩ : ∃ mid next,
      (if !((rankings.setHead list node.address).tails list).isInitialized ||
          (rankings.setHead list node.address).tails list = node.address then
        (((rankings.setHead list node.address).setTail list node.address).writeTail list, node.address)
      else (rankings.setHead list node.address, rankings.heads list)) = (mid, next) ∧
      Follows touched stale start mid := by
    split
    · exact ⟨_, _, rfl, follows.quiet rfl rfl rfl⟩
    · exact ⟨_, _, rfl, follows.quiet rfl rfl rfl⟩
  simp only [chosen]
  let data : RankingsNode := { node.data mid with
    next := next
    prev := node.address
    lastUsed := now
    lastModified := if modified then now else (node.data mid).lastModified }
  have stored := (kept.write node data).store (node.write data mid).2
  rw [write_address] at stored
  have headed : Follows (fun b => touched b ∨ b = node.address) (fun b => stale b ∨ b = node.address)
      start (((node.write data mid).2.store (node.write data mid).1).writeHead list) :=
    stored.quiet rfl rfl rfl
  exact headed.incrementCounter list

end

theorem insert_follows_others (a : CacheAddr) (modified : Bool) (list : RankList) (now : UInt64) :
    Follows (fun b => (rankings.heads list).isInitialized = true ∧ b = rankings.heads list ∨ b = a)
      (fun b => b = a) rankings (rankings.insert (rankings.block a) modified list now).1 := by
  have begun : Follows (fun _ => False) (fun _ => False) rankings
      (rankings.beginTransaction a .insert list) := (Follows.refl rankings).quiet rfl rfl rfl
  rw [Rankings.insert]
  simp only [block_address]
  split
  · rename_i headed
    split
    · refine Follows.weaken ?_ (fun b none => False.elim none) fun b none => False.elim none
      exact (Follows.refl rankings).quiet rfl rfl rfl
    · rename_i linked ran
      have inserted := (begun.linkHead ran).insertNode (rankings.block a) modified list now
      refine (inserted.weaken (fun b here => ?_) fun b left => ?_).quiet rfl rfl rfl
      · rw [block_address] at here
        exact here.imp_left fun at_head => ⟨headed, at_head.resolve_left id⟩
      · rw [block_address] at left
        exact left.resolve_left id
  · have inserted := begun.insertNode (rankings.block a) modified list now
    refine (inserted.weaken (fun b here => ?_) fun b left => ?_).quiet rfl rfl rfl
    · rw [block_address] at here
      exact .inr (here.resolve_left id)
    · rw [block_address] at left
      exact left.resolve_left id

theorem insert_follows (unread : rankings.Unread a) (modified : Bool) (list : RankList) (now : UInt64) :
    Follows (fun b => (rankings.heads list).isInitialized = true ∧ b = rankings.heads list ∨ b = a)
      (fun _ => False) rankings (rankings.insert (rankings.block a) modified list now).1 :=
  (insert_follows_others a modified list now).silent unread

end Insert

section

variable (follows : Follows touched stale start rankings)
include follows

theorem Follows.decrementCounter
    (list : RankList) : Follows touched stale start (rankings.decrementCounter list) := by
  rw [Rankings.decrementCounter]
  repeat' split
  all_goals exact follows.quiet rfl rfl rfl

theorem Follows.removeEnd (prev next : Block) (address : CacheAddr) (list : RankList) :
    Follows (fun b => touched b ∨ b = prev.address) (fun b => stale b ∨ b = prev.address) start
        (rankings.removeEnd address prev next list).1 ∧
      (rankings.removeEnd address prev next list).2.1.address = prev.address ∧
      (rankings.removeEnd address prev next list).2.2.address = next.address := by
  rw [Rankings.removeEnd]
  split
  · split
    · refine ⟨Follows.weaken ?_ (fun _ => .inl) fun _ => .inl, rfl, rfl⟩
      exact follows.quiet rfl rfl rfl
    split
    · have headed : Follows touched stale start (rankings.setHead list next.address) :=
        follows.quiet rfl rfl rfl
      refine ⟨Follows.weaken ?_ (fun _ => .inl) fun _ => .inl, rfl, write_address ..⟩
      exact (headed.write next _).quiet rfl rfl rfl
    · have tailed : Follows touched stale start (rankings.setTail list prev.address) :=
        follows.quiet rfl rfl rfl
      let data : RankingsNode :=
        { prev.data (rankings.setTail list prev.address) with next := prev.address }
      let written := prev.write data (rankings.setTail list prev.address)
      have worded : Follows touched stale start (written.1.writeTail list) :=
        (tailed.write prev data).quiet rfl rfl rfl
      have stored := worded.store written.2
      rw [write_address] at stored
      exact ⟨stored, write_address .., rfl⟩
  · exact ⟨follows.weaken (fun _ => .inl) fun _ => .inl, rfl, rfl⟩

theorem Follows.refresh (current : block.address ≠ a → block.data rankings = rankings.disk.node block.address) :
    Follows touched (fun b => stale b ∧ b ≠ block.address ∨ b = a) start (rankings.updateIterators block) := by
  by_cases here : block.address = a
  · refine (follows.mislead block).weaken (fun _ => id) fun b left => ?_
    by_cases there : b = a
    · exact .inr there
    · exact .inl ⟨left.resolve_right fun same => there (same.trans here), here ▸ there⟩
  · exact (follows.update (current here)).weaken (fun _ => id) fun _ => .inl

end

theorem stored_other {other : Block} (current : block.data rankings = rankings.disk.node block.address)
    (away : block.address ≠ other.address) :
    block.data (other.store rankings) = (other.store rankings).disk.node block.address := by
  have kept : (other.store rankings).disk.node block.address = rankings.disk.node block.address :=
    if_neg away
  rw [kept, ← current]
  exact data_stored_other away ..

theorem stored_decrementCounter
    (current : block.data rankings = rankings.disk.node block.address) (list : RankList) :
    block.data (rankings.decrementCounter list) = (rankings.decrementCounter list).disk.node block.address := by
  obtain ⟨entries, node, -, -⟩ := counter_same rankings list (.inr rfl)
  rw [node, ← current]
  exact data_congr block rankings entries node

theorem Follows.removeBehind {node prev next : Block} {ended : Rankings}
    (follows : Follows touched (fun b => b = prev.address) start ended)
    (apart : prev.address = next.address → prev.address = node.address) (list : RankList) :
    Follows (fun b => touched b ∨ b = prev.address ∨ b = next.address ∨ b = node.address)
      (fun b => b = node.address) start (removeBehind node list (ended, prev, next)).1 := by
  let bare : RankingsNode := { node.data ended with next := 0, prev := 0 }
  let gone := node.write bare ended
  have at_node : gone.2.address = node.address := write_address ..
  have stored := (((follows.write node bare).store next).store prev).store gone.2
  have next_current : next.address ≠ node.address →
      next.data (gone.2.store (prev.store (next.store gone.1))) =
        (gone.2.store (prev.store (next.store gone.1))).disk.node next.address := by
    intro away
    refine stored_other (stored_other (store_data ..) fun same => ?_) (at_node ▸ away)
    exact away (same.trans (apart same.symm))
  have prev_current : prev.address ≠ node.address → prev.data (gone.2.store (prev.store (next.store gone.1))) =
        (gone.2.store (prev.store (next.store gone.1))).disk.node prev.address :=
    fun away => stored_other (store_data ..) (at_node ▸ away)
  have updated := ((stored.decrementCounter list).refresh fun away =>
    stored_decrementCounter (next_current away) list).refresh fun away =>
      stored_decrementCounter (prev_current away) list
  refine updated.weaken (fun b here => ?_) fun b left => ?_
  · rw [at_node] at here
    rcases here with ((here | here) | here) | here
    · exact .inl here
    · exact .inr (.inr (.inl here))
    · exact .inr (.inl here)
    · exact .inr (.inr (.inr here))
  · rw [at_node] at left
    rcases left with ⟨⟨(((here | here) | here) | here), not_next⟩ | here, not_prev⟩ | here
    · exact absurd here not_prev
    · exact absurd here not_next
    · exact absurd here not_prev
    · exact here
    · exact here
    · exact here

theorem removeNode_follows (rankings : Rankings) {node prev next : Block}
    (apart : prev.address = next.address → prev.address = node.address) (list : RankList) :
    Follows (fun b => b = prev.address ∨ b = next.address ∨ b = node.address)
      (fun b => b = node.address) rankings (rankings.removeNode node prev next list).1 := by
  let one := prev.write { prev.data rankings with next := next.address } rankings
  let two := next.write { next.data one.1 with prev := one.2.address } one.1
  have prev_one : one.2.address = prev.address := write_address ..
  have next_two : two.2.address = next.address := write_address ..
  have written : Follows (fun _ => False) (fun _ => False) rankings two.1 :=
    ((Follows.refl rankings).write prev _).write next _
  obtain ⟨ended, prev_address, next_address⟩ := written.removeEnd one.2 two.2 node.address list
  rw [prev_one] at ended prev_address
  rw [next_two] at next_address
  have behind : (rankings.removeNode node prev next list).1 =
    (removeBehind node list (two.1.removeEnd node.address one.2 two.2 list)).1 := rfl
  rw [behind]
  generalize two.1.removeEnd node.address one.2 two.2 list = result at *
  obtain ⟨last, prev', next'⟩ := result
  simp only at prev_address next_address ended
  have removed := @Follows.removeBehind _ _ node prev' next' last
    (ended.weaken (fun b here => here.resolve_left id) fun b left =>
      (left.resolve_left id).trans prev_address.symm)
    (by rw [prev_address, next_address]; exact apart) list
  refine removed.weaken (fun b here => ?_) fun b left => left
  rw [prev_address, next_address] at here
  exact here.elim .inl id

theorem remove_follows (mirrored : rankings.Mirrored)
    (apart : (rankings.disk.node a).prev = (rankings.disk.node a).next →
      (rankings.disk.node a).prev = a) (list : RankList) :
    Follows (fun b => b = (rankings.disk.node a).prev ∨ b = (rankings.disk.node a).next ∨ b = a)
        (fun _ => False) rankings (rankings.remove (rankings.block a) list).1 ∧
      (rankings.remove (rankings.block a) list).1.Unread a := by
  let quiet := rankings.invalidateIterators a
  have unread : quiet.Unread a := invalidateIterators_unread rankings a
  have hushed := follows_invalidate rankings a
  suffices after : Follows (fun b => b = (rankings.disk.node a).prev ∨ b = (rankings.disk.node a).next ∨ b = a)
      (fun b => b = a) quiet (rankings.remove (rankings.block a) list).1 by
    refine ⟨(hushed.trans (after.silent unread)).weaken (fun b here => here.resolve_left id)
      fun _ => id, after.unread unread⟩
  have same : ∀ {found : Rankings}, found.iterators = quiet.iterators →
      found.nextBlock = quiet.nextBlock → found.disk.node = quiet.disk.node →
      Follows (fun b => b = (rankings.disk.node a).prev ∨ b = (rankings.disk.node a).next ∨ b = a)
        (fun b => b = a) quiet found := fun iterators nextBlock node =>
    ((Follows.refl quiet).quiet iterators nextBlock node).weaken (fun _ => False.elim) fun _ => False.elim
  have data : (rankings.block a).data quiet = rankings.disk.node a := block_data mirrored a
  rw [Rankings.remove]
  simp only [block_address]
  split
  · exact same rfl rfl rfl
  split
  · rename_i found missing
    obtain ⟨iterators, nextBlock, node⟩ := getRanking_missing missing
    exact same iterators nextBlock node
  rename_i found next next_ran
  obtain ⟨rfl, at_next⟩ := getRanking_found next_ran
  split
  · rename_i found missing
    obtain ⟨iterators, nextBlock, node⟩ := getRanking_missing missing
    exact same iterators nextBlock node
  rename_i found prev prev_ran
  obtain ⟨rfl, at_prev⟩ := getRanking_found prev_ran
  have next_is := at_next.trans (congrArg RankingsNode.next data)
  have prev_is := at_prev.trans (congrArg RankingsNode.prev data)
  split
  · rw [Rankings.notLinked]
    split
    · let bare : RankingsNode := { (rankings.block a).data quiet with next := 0, prev := 0 }
      have stored := ((Follows.refl quiet).write (rankings.block a) bare).store
        ((rankings.block a).write bare quiet).2
      rw [write_address, block_address] at stored
      exact stored.weaken (fun b here => .inr (.inr (here.resolve_left id))) fun b left => left.resolve_left id
    · exact same rfl rfl rfl
  · let begun := quiet.beginTransaction a .remove list
    have removed := @removeNode_follows begun (rankings.block a) prev next
      (by rw [next_is, prev_is, block_address]; exact apart) list
    rw [next_is, prev_is, block_address] at removed
    exact ⟨removed.blocks, removed.nextBlock, removed.nodes, removed.each⟩

end Glopen.Cache

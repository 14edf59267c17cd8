import Glopen.Cache.RankingsIterators

/-! Blocks that a list is read with while its nodes are moved. -/
namespace Glopen.Cache

open Linked List Option
variable {rankings : Rankings} {lists : Lists} {a : CacheAddr} {block : Block} {rankings' : Rankings}
  {stale : CacheAddr → Prop} {list : RankList}

theorem Rankings.Ordered.getRanking_links (ordered : rankings.Ordered lists) {found : Rankings}
    (ran : rankings.getRanking a = (found, some block)) :
    (block.data rankings).prev = (rankings.disk.node a).prev ∧
      (block.data rankings).next = (rankings.disk.node a).next := by
  have backed := ordered.mirrored.backed
  rw [Rankings.getRanking] at ran
  split at ran
  · cases ran
  simp only at ran
  split at ran
  · cases ran
  split at ran
  · cases ran
    exact ⟨rfl, rfl⟩
  split at ran
  · cases ran
    exact ⟨rfl, rfl⟩
  · rename_i used
    cases ran
    simp only [Bool.or_eq_true, not_or, isNone_iff_eq_none] at used
    obtain ⟨d, opened⟩ := ne_none_iff_exists'.mp used.2
    simp only [Block.data, opened, getD_some]
    exact ⟨(backed a d opened).1, (backed a d opened).2.1⟩

structure Refreshed (start rankings : Rankings) : Prop where
  id : rankings.currentEntryId = start.currentEntryId
  opened : ∀ a, (rankings.openEntries a).isSome = true → (start.openEntries a).isSome = true
  each : ∀ it' ∈ rankings.iterators, ∃ it ∈ start.iterators, it'.block = it.block ∧
    it'.address = it.address ∧ ∀ d', it'.data = some d' → ∃ d, it.data = some d ∧
      (d'.dirty = d.dirty ∨ ((start.openEntries it.address).isSome = true →
        d'.dirty = start.currentEntryId))

section Refreshed

variable {start : Rankings}

theorem Refreshed.refl (rankings : Rankings) : Refreshed rankings rankings :=
  ⟨rfl, fun _ opened => opened, fun it there => ⟨it, there, rfl, rfl, fun d its => ⟨d, its, Or.inl rfl⟩⟩⟩

theorem Refreshed.trans (one : Refreshed start rankings) (same : SameOpen start rankings)
    (two : Refreshed rankings rankings') : Refreshed start rankings' := by
  refine ⟨two.id.trans one.id, fun a opened => one.opened a (two.opened a opened), fun it' there => ?_⟩
  obtain ⟨mid, between, block, address, marked⟩ := two.each it' there
  obtain ⟨it, was, block', address', marked'⟩ := one.each mid between
  refine ⟨it, was, block.trans block', address.trans address', fun d' its' => ?_⟩
  obtain ⟨d, its, kept⟩ := marked d' its'
  obtain ⟨d₀, its₀, kept₀⟩ := marked' d its
  refine ⟨d₀, its₀, ?_⟩
  rcases kept with dirty | mark
  · rw [dirty]
    exact kept₀
  · refine Or.inr fun opened => ?_
    rw [← same.entries, ← address'] at opened
    exact (mark opened).trans one.id

theorem Refreshed.fewer (refreshed : Refreshed start rankings)
    (iterators : rankings'.iterators = rankings.iterators)
    (id : rankings'.currentEntryId = rankings.currentEntryId)
    (opened : ∀ a, (rankings'.openEntries a).isSome = true →
      (rankings.openEntries a).isSome = true) : Refreshed start rankings' := by
  refine ⟨id.trans refreshed.id, fun a there => ?_, fun it' there => ?_⟩
  · exact refreshed.opened a (opened a there)
  · exact refreshed.each it' (iterators ▸ there)

theorem Refreshed.quiet (refreshed : Refreshed start rankings)
    (iterators : rankings'.iterators = rankings.iterators)
    (same : SameOpen rankings rankings') : Refreshed start rankings' :=
  refreshed.fewer iterators same.id fun a opened => (same.entries a) ▸ opened

theorem Refreshed.invalidate (rankings : Rankings) (a : CacheAddr) :
    Refreshed rankings (rankings.invalidateIterators a) := by
  refine ⟨rfl, fun _ opened => opened, fun it' there => ?_⟩
  obtain ⟨it, was, address, block, -, gone, others⟩ := mem_invalidateIterators there
  refine ⟨it, was, block, address, fun d' its' => ?_⟩
  by_cases here : it.address = a
  · rw [gone here] at its'
    cases its'
  · rw [others here] at its'
    exact ⟨d', its', Or.inl rfl⟩

theorem Refreshed.update (refreshed : Refreshed start rankings)
    (same : SameOpen start rankings) (waiting : rankings.MirroredBut stale)
    (fits : block.Fits rankings) : Refreshed start (rankings.updateIterators block) := by
  refine ⟨refreshed.id, refreshed.opened, fun it' there => ?_⟩
  obtain ⟨mid, between, same_it⟩ := List.mem_map.mp there
  obtain ⟨it, was, block', address, marked⟩ := refreshed.each mid between
  split at same_it
  · rename_i here
    subst same_it
    refine ⟨it, was, block', address, fun d' its' => ?_⟩
    obtain ⟨held, its⟩ := isSome_iff_exists.mp here.2
    obtain ⟨d, had, -⟩ := marked held its
    refine ⟨d, had, Or.inr fun opened => ?_⟩
    rw [← same.entries, ← address, here.1] at opened
    rw [← some.inj its', ← refreshed.id]
    exact waiting.data_dirty fits (fits.mpr opened)
  · subst same_it
    exact ⟨it, was, block', address, marked⟩

theorem linkHead_refreshed (mirrored : rankings.Mirrored) (id : rankings.currentEntryId ≠ 0)
    {address : CacheAddr} (ran : rankings.linkHead address list = some rankings') :
    Refreshed rankings rankings' := by
  rw [Rankings.linkHead] at ran
  split at ran
  · cases ran
  · rename_i found head looked
    obtain ⟨rfl, -, fits⟩ := mirrored.getRanking id looked
    split at ran
    · cases ran
    · cases ran
      obtain ⟨stored, same, fits'⟩ := mirrored.writeStore fits
        (rfl : ({ head.data found with prev := address } : RankingsNode).dirty = _)
      refine Refreshed.update ((Refreshed.refl found).quiet ?_ same) same stored fits'
      exact write_iterators ..

variable {node : Block}

theorem insertNode_refreshed (mirrored : rankings.Mirrored)
    (fits : node.Fits rankings) (modified : Bool) (list : RankList) (now : UInt64) :
    Refreshed rankings (rankings.insertNode node modified list now).1 := by
  have same := (mirrored.insertNode fits modified list now).2
  refine (Refreshed.refl rankings).quiet ?_ same
  rw [Rankings.insertNode]
  simp only
  rw [Rankings.incrementCounter]
  repeat' split
  all_goals simp only [Rankings.persist, Rankings.writeHead, Rankings.writeTail, Rankings.setTail,
    Rankings.setHead, Block.store, write_iterators]

theorem insert_refreshed (mirrored : rankings.Mirrored) (id : rankings.currentEntryId ≠ 0)
    (fits : node.Fits rankings) (modified : Bool) (list : RankList) (now : UInt64) :
    Refreshed rankings (rankings.insert node modified list now).1 := by
  have begun : (rankings.beginTransaction node.address .insert list).Mirrored :=
    mirrored.same rfl rfl rfl
  have started : SameOpen rankings (rankings.beginTransaction node.address .insert list) :=
    .of_eq rfl rfl rfl
  have first : Refreshed rankings (rankings.beginTransaction node.address .insert list) :=
    (Refreshed.refl rankings).quiet rfl started
  rw [Rankings.insert]
  simp only
  split
  · split
    · exact (Refreshed.refl rankings).quiet rfl (.of_eq rfl rfl rfl)
    · rename_i linked ran
      obtain ⟨linked_mirrored, same⟩ := begun.linkHead id ran
      have whole := started.trans same
      have two := first.trans started (linkHead_refreshed begun id ran)
      have three := insertNode_refreshed linked_mirrored (fits.same whole) modified list now
      exact (two.trans whole three).quiet rfl (.endTransaction _)
  · have two := insertNode_refreshed begun (fits.same started) modified list now
    exact (first.trans started two).quiet rfl (.endTransaction _)

theorem decrementCounter_iterators (rankings : Rankings) (list : RankList) :
    (rankings.decrementCounter list).iterators = rankings.iterators := by
  rw [Rankings.decrementCounter]
  repeat' split
  all_goals rfl

theorem removeNode_refreshed (mirrored : rankings.Mirrored) {prev next : Block}
    (node_fits : node.Fits rankings) (prev_fits : prev.Fits rankings) (next_fits : next.Fits rankings)
    (list : RankList) : Refreshed rankings (rankings.removeNode node prev next list).1 := by
  obtain ⟨ended, prev', next', final, waits, same, prev_fits', next_fits', -, -, kept⟩ :=
    @Rankings.Mirrored.ended _ mirrored node prev next prev_fits next_fits list
  obtain ⟨gone, gone_same, gone_fits⟩ := waits.write (node_fits.same same)
    (rfl : ({ node.data ended with next := 0, prev := 0 } : RankingsNode).dirty = _)
  have next_gone := next_fits'.same gone_same
  have prev_gone := prev_fits'.same gone_same
  obtain ⟨one, one_same⟩ := gone.store next_gone
  obtain ⟨two, two_same⟩ := one.store (prev_gone.same one_same)
  obtain ⟨three, three_same⟩ := two.store ((gone_fits.same one_same).same two_same)
  have stored_same := (one_same.trans two_same).trans three_same
  obtain ⟨entries, nodes, id, count⟩ := counter_same _ list (.inr rfl)
  have counted_same := stored_same.trans (.of_eq entries id count)
  have whole := (same.trans gone_same).trans counted_same
  have counted := Rankings.MirroredBut.same three entries nodes id
  rw [final, removeBehind]
  refine Refreshed.update (Refreshed.update ((Refreshed.refl rankings).quiet ?_ whole) whole counted
    (next_gone.same counted_same)) (whole.trans (.of_eq rfl rfl rfl)) (counted.same rfl rfl rfl)
      (prev_gone.same (counted_same.trans (.of_eq rfl rfl rfl)))
  rw [decrementCounter_iterators]
  exact (write_iterators ..).trans kept

theorem remove_refreshed (mirrored : rankings.Mirrored) (id : rankings.currentEntryId ≠ 0)
    (fits : node.Fits rankings) (list : RankList) : Refreshed rankings (rankings.remove node list).1 := by
  have quiet : (rankings.invalidateIterators node.address).Mirrored := mirrored.same rfl rfl rfl
  have hushed : SameOpen rankings (rankings.invalidateIterators node.address) := .of_eq rfl rfl rfl
  have first := Refreshed.invalidate rankings node.address
  rw [Rankings.remove]
  simp only
  split
  · exact first
  split
  · rename_i found missing
    obtain ⟨iterators, -, -⟩ := getRanking_missing missing
    have same := getRanking_same (rankings.invalidateIterators node.address)
      (node.data (rankings.invalidateIterators node.address)).next
    rw [missing] at same
    exact first.quiet iterators (.of_eq same.1 same.2.2.1 same.2.2.2)
  rename_i found next next_ran
  obtain ⟨rfl, -, next_fits⟩ := quiet.getRanking id next_ran
  split
  · rename_i found missing
    obtain ⟨iterators, -, -⟩ := getRanking_missing missing
    have same := getRanking_same (rankings.invalidateIterators node.address)
      (node.data (rankings.invalidateIterators node.address)).prev
    rw [missing] at same
    exact first.quiet iterators (.of_eq same.1 same.2.2.1 same.2.2.2)
  rename_i found prev prev_ran
  obtain ⟨rfl, -, prev_fits⟩ := quiet.getRanking id prev_ran
  split
  · have same := (quiet.notLinked (fits.same hushed) prev next).2
    refine first.quiet ?_ same
    rw [Rankings.notLinked]
    split
    · exact write_iterators ..
    · rfl
  · let begun := (rankings.invalidateIterators node.address).beginTransaction node.address .remove list
    have started : SameOpen (rankings.invalidateIterators node.address) begun := .of_eq rfl rfl rfl
    have begun_mirrored : begun.Mirrored := quiet.same rfl rfl rfl
    have begun_first : Refreshed rankings begun := first.quiet rfl started
    have removed := removeNode_refreshed begun_mirrored ((fits.same hushed).same started)
      (prev_fits.same started) (next_fits.same started) list
    exact (begun_first.trans (hushed.trans started) removed).quiet rfl (.endTransaction _)

end Refreshed

def Rankings.Numbered (rankings : Rankings) : Prop :=
  ∀ it ∈ rankings.iterators, it.block < rankings.nextBlock

/-- Where the tracked block has data they are linked like one of the nodes, and marked if that is in
use. -/
def Rankings.Candidate (rankings : Rankings) (nodes : List CacheAddr) (block : Nat) : Prop :=
  ∀ it ∈ rankings.iterators, it.block = block → it.Agrees rankings.disk ∧
    ∀ d, it.data = some d → it.address ∈ nodes ∧
      ((rankings.openEntries it.address).isSome = true → d.dirty = rankings.currentEntryId)

section Candidates

variable {nodes nodes' : List CacheAddr} {block : Nat} {touched : CacheAddr → Prop}

theorem Rankings.Numbered.follows (numbered : rankings.Numbered)
    (follows : Follows touched stale rankings rankings') : rankings'.Numbered := by
  intro it' there
  obtain ⟨it, was, number, -⟩ := follows.each it' there
  rw [number, follows.nextBlock]
  exact numbered it was

section

variable (candidate : rankings.Candidate nodes block)
include candidate

theorem Rankings.Candidate.refreshed (refreshed : Refreshed rankings rankings')
    (follows : Follows touched (fun _ => False) rankings rankings')
    (unread : rankings'.Unread a) (stays : ∀ b ∈ nodes, b ≠ a → b ∈ nodes') :
    rankings'.Candidate nodes' block := by
  intro it' there same
  refine ⟨?_, fun d' its' => ?_⟩
  · obtain ⟨it, was, number, -, -, agrees⟩ := follows.each it' there
    exact agrees (candidate it was (number.symm.trans same)).1 id
  obtain ⟨it, was, number, address, marked⟩ := refreshed.each it' there
  obtain ⟨d, its, kept⟩ := marked d' its'
  obtain ⟨inside, mark⟩ := (candidate it was (number.symm.trans same)).2 d its
  constructor
  · rw [address]
    refine stays it.address inside fun here => ?_
    rw [unread it' there (address.trans here)] at its'
    cases its'
  · intro opened
    rw [address] at opened
    have before := refreshed.opened it.address opened
    rw [refreshed.id]
    rcases kept with dirty | marks
    · exact dirty.trans (mark before)
    · exact marks before

theorem Rankings.Candidate.relinked (iterators : ∀ it ∈ rankings'.iterators, it ∈ rankings.iterators)
    (links : ∀ a, (rankings'.disk.node a).prev = (rankings.disk.node a).prev ∧
      (rankings'.disk.node a).next = (rankings.disk.node a).next)
    (opened : ∀ a, (rankings'.openEntries a).isSome = true → (rankings.openEntries a).isSome = true)
    (id : rankings'.currentEntryId = rankings.currentEntryId) : rankings'.Candidate nodes block := by
  intro it there same
  obtain ⟨agrees, inside⟩ := candidate it (iterators it there) same
  refine ⟨fun d its => ?_, fun d its => ⟨(inside d its).1, fun now => ?_⟩⟩
  · rw [(links it.address).1, (links it.address).2]
    exact agrees d its
  · rw [id]
    exact (inside d its).2 (opened it.address now)

theorem Rankings.Candidate.free (node : Iterator) : (rankings.freeRankingsBlock node).Candidate nodes block :=
  fun it there => candidate it (mem_filter.mp there).1

theorem Rankings.Candidate.close (mirrored : rankings.Mirrored) (a : CacheAddr) :
    (rankings.closeEntry a).Candidate nodes block := by
  rw [Rankings.closeEntry]
  split
  · exact candidate
  · rename_i data opened
    refine candidate.relinked (fun it there => there) (fun b => ?_) (fun b now => ?_) rfl
    · simp only [Rankings.persist, Store.apply]
      split
      · rename_i here
        rw [here, (mirrored a data opened).2.2 id]
        exact ⟨rfl, rfl⟩
      · exact ⟨rfl, rfl⟩
    · simp only [Rankings.persist] at now
      split at now
      · cases now
      · exact now

end

theorem Rankings.Ordered.found (ordered : rankings.Ordered lists) {a : CacheAddr} {found : Rankings}
    {block : Block} (ran : rankings.getRanking a = (found, some block)) :
    (block.data rankings).lastUsed = (rankings.disk.node a).lastUsed ∧
      ((rankings.openEntries a).isSome = true → (block.data rankings).dirty = rankings.currentEntryId) := by
  obtain ⟨-, at_a, fits⟩ := ordered.mirrored.getRanking ordered.id ran
  refine ⟨?_, fun opened => ordered.mirrored.data_dirty fits (fits.mpr (at_a ▸ opened))⟩
  rw [Rankings.getRanking] at ran
  split at ran
  · cases ran
  simp only at ran
  split at ran
  · cases ran
  split at ran
  · cases ran
    rfl
  split at ran
  · cases ran
    rfl
  · rename_i used
    cases ran
    simp only [Bool.or_eq_true, not_or, isNone_iff_eq_none] at used
    obtain ⟨d, opened⟩ := ne_none_iff_exists'.mp used.2
    simp only [Block.data, opened, getD_some]
    rw [(ordered.mirrored a d opened).2.2 fun none => none]

/-- What a call of `GetPrev` returns is tracked behind the others. -/
structure Adds (start rankings : Rankings) (added : Option Iterator) : Prop where
  untouched : Untouched start rankings
  iterators : rankings.iterators = start.iterators ++ added.toList
  below : start.nextBlock ≤ rankings.nextBlock
  block : ∀ it, added = some it → it.block = start.nextBlock ∧ start.nextBlock < rankings.nextBlock

structure Iterator.Reads (it : Iterator) (a : CacheAddr) (rankings : Rankings) : Prop where
  address : it.address = a
  data : ∃ d, it.data = some d ∧ d.lastUsed = (rankings.disk.node a).lastUsed ∧
    (d.prev = (rankings.disk.node a).prev ∧ d.next = (rankings.disk.node a).next) ∧
    ((rankings.openEntries a).isSome = true → d.dirty = rankings.currentEntryId)

theorem adds_none (rankings : Rankings) : Adds rankings rankings none :=
  ⟨untouched_self rankings, (append_nil _).symm, le_rfl, fun _ no => by cases no⟩

theorem Rankings.Ordered.follow (ordered : rankings.Ordered lists) (a : CacheAddr)
    (linked : RankingsNode → Bool) : Adds rankings (rankings.follow a linked).1 (rankings.follow a linked).2 ∧
      ∀ it, (rankings.follow a linked).2 = some it → it.Reads a rankings := by
  have untouched := follow_untouched rankings a linked
  cases looked : rankings.getRanking a with
  | mk found block =>
    rw [Rankings.follow, looked] at untouched ⊢
    cases block with
    | none =>
      obtain ⟨iterators, nextBlock, -⟩ := getRanking_missing looked
      refine ⟨⟨untouched, ?_, Nat.le_of_eq nextBlock.symm, fun _ no => by cases no⟩, fun _ no => by cases no⟩
      exact iterators.trans (append_nil _).symm
    | some block =>
      obtain ⟨rfl, -⟩ := getRanking_found looked
      obtain ⟨lastUsed, mark⟩ := ordered.found looked
      have links := ordered.getRanking_links looked
      simp only at untouched ⊢
      split
      · rename_i other
        rw [if_pos other] at untouched
        exact ⟨⟨untouched, (append_nil _).symm, le_rfl, fun _ no => by cases no⟩, fun _ no => by cases no⟩
      · rename_i same
        rw [if_neg same] at untouched
        refine ⟨⟨untouched, rfl, Nat.le_succ _, fun it its => ?_⟩, fun it its => ?_⟩
        · cases its
          exact ⟨rfl, Nat.lt_succ_self _⟩
        · cases its
          exact ⟨rfl, _, rfl, lastUsed, links, mark⟩

variable {added : Option Iterator}

theorem Rankings.Numbered.adds (numbered : rankings.Numbered)
    (adds : Adds rankings rankings' added) : rankings'.Numbered := by
  intro it there
  rw [adds.iterators] at there
  rcases mem_append.mp there with before | new
  · exact (numbered it before).trans_le adds.below
  · have fresh := adds.block it (mem_toList.mp new)
    rw [fresh.1]
    exact fresh.2

theorem Rankings.Candidate.adds (candidate : rankings.Candidate nodes block)
    (adds : Adds rankings rankings' added)
    (old : block < rankings.nextBlock) : rankings'.Candidate nodes block := by
  intro it there same
  rw [adds.untouched.entries, adds.untouched.id, adds.untouched.disk]
  rw [adds.iterators] at there
  rcases mem_append.mp there with before | new
  · exact candidate it before same
  · have fresh := (adds.block it (mem_toList.mp new)).1
    rw [← same, fresh] at old
    exact absurd old (lt_irrefl _)

theorem Iterator.Reads.candidate {it : Iterator} (reads : it.Reads a rankings)
    (numbered : rankings.Numbered) (adds : Adds rankings rankings' (some it))
    (inside : a ∈ nodes) : rankings'.Candidate nodes it.block := by
  have fresh := (adds.block it rfl).1
  intro other there same
  rw [adds.untouched.entries, adds.untouched.id, adds.untouched.disk]
  rw [adds.iterators] at there
  rcases mem_append.mp there with before | new
  · have below := numbered other before
    rw [same, fresh] at below
    exact absurd below (lt_irrefl _)
  · obtain rfl : it = other := some.inj (mem_toList.mp new)
    obtain ⟨d', its', -, links, mark⟩ := reads.data
    rw [Iterator.Agrees, reads.address]
    refine ⟨fun d its => ?_, fun d its => ?_⟩
    · obtain rfl : d' = d := some.inj (its'.symm.trans its)
      exact links
    · obtain rfl : d' = d := some.inj (its'.symm.trans its)
      exact ⟨inside, mark⟩

theorem Rankings.Ordered.prev (ordered : rankings.Ordered lists) (numbered : rankings.Numbered)
    {node : Iterator} (agrees : node.Agrees rankings.disk) {d : RankingsNode}
    (its : node.data = some d) (inside : node.address ∈ lists list) :
    Adds rankings (rankings.getPrev (some node) list).1 (rankings.getPrev (some node) list).2 ∧
      ∀ it, (rankings.getPrev (some node) list).2 = some it →
        (rankings.getPrev (some node) list).1.Candidate (lists list) it.block := by
  have none_added := adds_none rankings
  have loaded : rankings.loaded node = (rankings, d) := by
    rw [Rankings.loaded, its]
  have prev : d.prev = (rankings.disk.node node.address).prev := (agrees d its).1
  have before : d.prev ∈ lists list := prev ▸ (ordered.wf.linked inside).1
  rw [Rankings.getPrev, loaded]
  simp only
  repeat' split
  · exact ⟨none_added, fun _ no => by cases no⟩
  · exact ⟨none_added, fun _ no => by cases no⟩
  · exact ⟨none_added, fun _ no => by cases no⟩
  · obtain ⟨adds, reads⟩ := ordered.follow d.prev fun prev => prev.next = node.address
    refine ⟨adds, fun it returned => ?_⟩
    rw [returned] at adds
    exact (reads it returned).candidate numbered adds before

theorem Rankings.Ordered.last (ordered : rankings.Ordered lists) (numbered : rankings.Numbered)
    (list : RankList) : Adds rankings (rankings.getPrev none list).1 (rankings.getPrev none list).2 ∧
      (∀ it, (rankings.getPrev none list).2 = some it →
        (rankings.getPrev none list).1.Candidate (lists list) it.block) ∧
      ((rankings.getPrev none list).2.bind Iterator.data).map RankingsNode.lastUsed =
        ((lists list).getLast?.map rankings.disk.node).map RankingsNode.lastUsed := by
  have tail : rankings.tails list = (lists list).getLastD 0 := by
    rw [ordered.settled.tails, ordered.wf.tail]
  rw [Rankings.getPrev]
  cases last : (lists list).getLast? with
  | none =>
    rw [List.getLastD_eq_getLast?, last, getD_none] at tail
    have uninitialized : (!CacheAddr.isInitialized 0) = true := by decide
    rw [tail, if_pos uninitialized]
    exact ⟨adds_none rankings, (fun _ no => by cases no), rfl⟩
  | some a =>
    have inside : a ∈ lists list := List.mem_of_getLast? last
    rw [List.getLastD_eq_getLast?, last, getD_some] at tail
    obtain ⟨block, found, -⟩ := getRanking_linked ordered.wf ordered.settled ordered.mirrored.backed inside
    have returned : (rankings.follow a fun _ => true).2 =
        some ⟨rankings.nextBlock, a, some (block.data rankings)⟩ := by
      rw [Rankings.follow, found]
      rfl
    have initialized := (ordered.wf.blocks list a inside).initialized
    obtain ⟨adds, reads⟩ := ordered.follow a fun _ => true
    rw [tail, initialized, Bool.not_true, if_neg Bool.false_ne_true]
    refine ⟨adds, fun it its => ?_, ?_⟩
    · rw [its] at adds
      exact (reads it its).candidate numbered adds inside
    · rw [returned, map_some, map_some]
      exact congrArg some (ordered.found found).1

theorem Rankings.Numbered.free (numbered : rankings.Numbered) (node : Iterator) :
    (rankings.freeRankingsBlock node).Numbered :=
  fun it there => numbered it (mem_filter.mp there).1

theorem Rankings.Numbered.close (numbered : rankings.Numbered) (a : CacheAddr) :
    (rankings.closeEntry a).Numbered := by
  rw [Rankings.closeEntry]
  split <;> exact numbered

end Candidates

end Glopen.Cache

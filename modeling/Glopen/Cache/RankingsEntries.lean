import Glopen.Cache.RankingsRecovery

/-! The buffers of open entries, which the lists share, hold what the files hold. -/
namespace Glopen.Cache

open Linked Option

/-- `NewEntry` and `Update`. A node that is marked by another process is not used. -/
def Rankings.openEntry (addr : CacheAddr) (rankings : Rankings) : Rankings :=
  let data := rankings.disk.node addr
  if (rankings.openEntries addr).isSome ∨ data.dummy ≠ 0 ∨
      (data.dirty ≠ 0 ∧ rankings.currentEntryId ≠ data.dirty) then rankings
  else
    let data := { data with dirty := rankings.currentEntryId }
    { rankings with
      openEntries := fun a => if a = addr then some data else rankings.openEntries a }.persist
      (.node addr data)

/-- `CreateEntry`, with the store of its node. -/
def Rankings.createEntry (addr contents : CacheAddr) (rankings : Rankings) : Rankings :=
  let data : RankingsNode := ⟨0, 0, 0, 0, contents, rankings.currentEntryId, 0⟩
  { rankings with
    openEntries := fun a => if a = addr then some data else rankings.openEntries a }.persist
    (.node addr data)

def Rankings.closeEntry (addr : CacheAddr) (rankings : Rankings) : Rankings :=
  match rankings.openEntries addr with
  | none => rankings
  | some data =>
    { rankings with
      openEntries := fun a => if a = addr then none else rankings.openEntries a }.persist
      (.node addr { data with dirty := 0 })

def Rankings.block (rankings : Rankings) (addr : CacheAddr) : Block :=
  if (rankings.openEntries addr).isSome then ⟨addr, .shared⟩ else .load addr rankings

def Rankings.MirroredBut (stale : CacheAddr → Prop) (rankings : Rankings) : Prop :=
  ∀ a d, rankings.openEntries a = some d → d.dirty = rankings.currentEntryId ∧
    (rankings.disk.node a).dirty = rankings.currentEntryId ∧ (¬ stale a → rankings.disk.node a = d)

def Rankings.Mirrored (rankings : Rankings) : Prop := rankings.MirroredBut fun _ => False

def Block.Fits (block : Block) (rankings : Rankings) : Prop :=
  block.buffer = .shared ↔ (rankings.openEntries block.address).isSome = true

structure SameOpen (rankings rankings' : Rankings) : Prop where
  entries : ∀ a, (rankings'.openEntries a).isSome = (rankings.openEntries a).isSome
  id : rankings'.currentEntryId = rankings.currentEntryId
  counting : rankings'.countLists = rankings.countLists

variable {stale : CacheAddr → Prop} {rankings rankings' : Rankings} {data : RankingsNode}

section Mirrored

variable {stale' : CacheAddr → Prop} {block : Block}

theorem Rankings.Mirrored.backed (mirrored : rankings.Mirrored) : rankings.Backed := by
  intro a d opened
  obtain ⟨-, -, same⟩ := mirrored a d opened
  rw [same (fun none => none)]
  exact ⟨rfl, rfl, fun sane => sane⟩

theorem Rankings.MirroredBut.weaken (mirrored : rankings.MirroredBut stale)
    (fewer : ∀ a, stale a → stale' a) : rankings.MirroredBut stale' := by
  intro a d opened
  obtain ⟨mine, its, same⟩ := mirrored a d opened
  exact ⟨mine, its, fun fresh => same fun old => fresh (fewer a old)⟩

theorem Rankings.MirroredBut.same (mirrored : rankings.MirroredBut stale)
    (entries : rankings'.openEntries = rankings.openEntries) (nodes : rankings'.disk.node = rankings.disk.node)
    (id : rankings'.currentEntryId = rankings.currentEntryId) : rankings'.MirroredBut stale := by
  intro a d opened
  rw [nodes, id]
  exact mirrored a d (entries ▸ opened)

theorem SameOpen.of_eq (entries : rankings'.openEntries = rankings.openEntries)
    (id : rankings'.currentEntryId = rankings.currentEntryId)
    (counting : rankings'.countLists = rankings.countLists) : SameOpen rankings rankings' :=
  ⟨fun a => by rw [entries], id, counting⟩

theorem SameOpen.writeTail (rankings : Rankings) (list : RankList) :
    SameOpen rankings (rankings.writeTail list) := .of_eq rfl rfl rfl

theorem SameOpen.endTransaction (rankings : Rankings) :
    SameOpen rankings rankings.endTransaction := .of_eq rfl rfl rfl

theorem SameOpen.trans {rankings'' : Rankings} (one : SameOpen rankings rankings')
    (two : SameOpen rankings' rankings'') : SameOpen rankings rankings'' :=
  ⟨fun a => (two.entries a).trans (one.entries a), two.id.trans one.id, two.counting.trans one.counting⟩

theorem Block.Fits.same (fits : block.Fits rankings) (same : SameOpen rankings rankings') :
    block.Fits rankings' := by
  rw [Block.Fits, same.entries]
  exact fits

section

variable (mirrored : rankings.MirroredBut stale) (fits : block.Fits rankings)
include mirrored fits

theorem Rankings.MirroredBut.data_dirty (shared : block.buffer = .shared) :
    (block.data rankings).dirty = rankings.currentEntryId := by
  obtain ⟨d, opened⟩ := isSome_iff_exists.mp (fits.mp shared)
  simp only [Block.data, shared, opened, getD_some]
  exact (mirrored _ _ opened).1

theorem Rankings.MirroredBut.write {data : RankingsNode} (dirty : data.dirty = (block.data rankings).dirty) :
    (block.write data rankings).1.MirroredBut (fun a => stale a ∨ a = block.address) ∧
      SameOpen rankings (block.write data rankings).1 ∧
      (block.write data rankings).2.Fits (block.write data rankings).1 := by
  cases kind : block.buffer with
  | own own =>
    have written : block.write data rankings = (rankings, { block with buffer := .own data }) := by
      simp only [Block.write, kind]
    rw [written]
    refine ⟨mirrored.weaken fun a old => Or.inl old, .of_eq rfl rfl rfl, ?_⟩
    rw [Block.Fits, kind] at fits
    exact ⟨fun shared => (by cases shared), fun opened => absurd (fits.mpr opened) (by simp)⟩
  | shared =>
    have mark := mirrored.data_dirty fits kind
    have opened := fits.mp kind
    obtain ⟨old, is_old⟩ := isSome_iff_exists.mp opened
    have written : block.write data rankings = ({ rankings with
        openEntries := fun a => if a = block.address then some data else rankings.openEntries a },
        block) := by
      simp only [Block.write, kind]
    rw [written]
    refine ⟨fun a d its => ?_, ⟨fun a => ?_, rfl, rfl⟩, ?_⟩
    · simp only at its ⊢
      split at its
      · rename_i here
        rw [Option.some.injEq] at its
        subst its here
        exact ⟨dirty.trans mark, (mirrored _ _ is_old).2.1, fun fresh => absurd (Or.inr rfl) fresh⟩
      · obtain ⟨mine, stored, same⟩ := mirrored a d its
        exact ⟨mine, stored, fun fresh => same fun was => fresh (Or.inl was)⟩
    · simp only
      split
      · rename_i here
        rw [here, opened]
        rfl
      · rfl
    · simp only [Block.Fits, kind, if_true, isSome_some]

theorem Rankings.MirroredBut.store : (block.store rankings).MirroredBut (fun a => stale a ∧ a ≠ block.address) ∧
      SameOpen rankings (block.store rankings) := by
  refine ⟨fun a d opened => ?_, .of_eq rfl rfl rfl⟩
  have was : rankings.openEntries a = some d := opened
  obtain ⟨mine, stored, same⟩ := mirrored a d was
  have node : (block.store rankings).disk.node a =
      if a = block.address then block.data rankings else rankings.disk.node a := rfl
  rw [node]
  by_cases here : a = block.address
  · have shared := fits.mpr (by rw [← here, was]; rfl)
    have its : block.data rankings = d := by
      simp only [Block.data, shared, ← here, was, getD_some]
    rw [if_pos here, its]
    exact ⟨mine, mine, fun _ => rfl⟩
  · rw [if_neg here]
    exact ⟨mine, stored, fun fresh => same fun old => fresh ⟨old, here⟩⟩

end

theorem Rankings.Mirrored.getRanking (mirrored : rankings.Mirrored) (id : rankings.currentEntryId ≠ 0)
    {a : CacheAddr} {block : Block} (ran : rankings.getRanking a = (rankings', some block)) :
    rankings' = rankings ∧ block.address = a ∧ block.Fits rankings := by
  rw [Rankings.getRanking] at ran
  split at ran
  · cases ran
  · simp only at ran
    split at ran
    · cases ran
    · split at ran
      · rename_i clean
        cases ran
        refine ⟨rfl, rfl, ⟨fun shared => (by cases shared), fun opened => ?_⟩⟩
        obtain ⟨d, its⟩ := isSome_iff_exists.mp opened
        simp only [Bool.and_eq_true, decide_eq_true_eq] at clean
        exact absurd ((mirrored a d its).2.1.symm.trans clean.1) id
      · split at ran
        · rename_i not_used
          cases ran
          refine ⟨rfl, rfl, ⟨fun shared => (by cases shared), fun opened => ?_⟩⟩
          obtain ⟨d, its⟩ := isSome_iff_exists.mp opened
          simp only at its
          rw [(mirrored a d its).2.1, its] at not_used
          simp at not_used
        · rename_i used
          cases ran
          simp only [Bool.or_eq_true, not_or, isNone_iff_eq_none] at used
          exact ⟨rfl, rfl, ⟨fun _ => isSome_iff_ne_none.mpr used.2, fun _ => rfl⟩⟩

theorem Rankings.Mirrored.writeStore (mirrored : rankings.Mirrored) (fits : block.Fits rankings)
    (dirty : data.dirty = (block.data rankings).dirty) :
    let written := block.write data rankings
    (written.2.store written.1).Mirrored ∧ SameOpen rankings (written.2.store written.1) ∧
      written.2.Fits (written.2.store written.1) := by
  intro written
  obtain ⟨waiting, same, fits'⟩ := mirrored.write fits dirty
  obtain ⟨stored, same'⟩ := waiting.store fits'
  refine ⟨stored.weaken fun a left => ?_, same.trans same', fits'.same same'⟩
  rw [write_address] at left
  exact left.1.elim (fun none => none) left.2

end Mirrored

section Operations

variable (mirrored : rankings.Mirrored)
include mirrored

theorem Rankings.Mirrored.linkHead (id : rankings.currentEntryId ≠ 0) {address : CacheAddr}
    {list : RankList} (ran : rankings.linkHead address list = some rankings') :
    rankings'.Mirrored ∧ SameOpen rankings rankings' := by
  rw [Rankings.linkHead] at ran
  split at ran
  · cases ran
  · rename_i found head looked
    obtain ⟨rfl, -, fits⟩ := mirrored.getRanking id looked
    split at ran
    · cases ran
    · cases ran
      obtain ⟨stored, same, -⟩ := mirrored.writeStore fits
        (rfl : ({ head.data found with prev := address } : RankingsNode).dirty = _)
      exact ⟨stored.same rfl rfl rfl, same.trans (.of_eq rfl rfl rfl)⟩

omit mirrored in
theorem counter_same (rankings : Rankings) (list : RankList) {counted : Rankings}
    (counter : counted = rankings.incrementCounter list ∨ counted = rankings.decrementCounter list) :
    counted.openEntries = rankings.openEntries ∧ counted.disk.node = rankings.disk.node ∧
      counted.currentEntryId = rankings.currentEntryId ∧ counted.countLists = rankings.countLists := by
  rcases counter with rfl | rfl
  · rw [Rankings.incrementCounter]
    repeat' split
    all_goals exact ⟨rfl, rfl, rfl, rfl⟩
  · rw [Rankings.decrementCounter]
    repeat' split
    all_goals exact ⟨rfl, rfl, rfl, rfl⟩

variable {node prev next : Block}

omit mirrored in
theorem Rankings.Mirrored.storeHead {mid : Rankings} (mirrored : mid.Mirrored)
    (fits : node.Fits mid) (dirty : data.dirty = (node.data mid).dirty) (list : RankList) :
    let written := node.write data mid
    let counted := ((written.2.store written.1).writeHead list).incrementCounter list
    counted.Mirrored ∧ SameOpen mid counted := by
  intro written counted
  obtain ⟨stored, same, -⟩ := mirrored.writeStore fits dirty
  obtain ⟨entries, nodes, id, count⟩ :=
    counter_same ((written.2.store written.1).writeHead list) list (.inl rfl)
  have headed : ((written.2.store written.1).writeHead list).Mirrored := stored.same rfl rfl rfl
  exact ⟨headed.same entries nodes id, same.trans (.of_eq entries id count)⟩

theorem Rankings.Mirrored.insertNode (fits : node.Fits rankings) (modified : Bool)
    (list : RankList) (now : UInt64) : (rankings.insertNode node modified list now).1.Mirrored ∧
      SameOpen rankings (rankings.insertNode node modified list now).1 := by
  rw [Rankings.insertNode]
  obtain ⟨mid, next, chosen, set, same⟩ : ∃ mid next,
      (if !((rankings.setHead list node.address).tails list).isInitialized ||
          (rankings.setHead list node.address).tails list = node.address then
        (((rankings.setHead list node.address).setTail list node.address).writeTail list, node.address)
      else (rankings.setHead list node.address, rankings.heads list)) = (mid, next) ∧
      mid.Mirrored ∧ SameOpen rankings mid := by
    split
    · exact ⟨_, _, rfl, mirrored.same rfl rfl rfl, .of_eq rfl rfl rfl⟩
    · exact ⟨_, _, rfl, mirrored.same rfl rfl rfl, .of_eq rfl rfl rfl⟩
  simp only [chosen]
  obtain ⟨stored, same'⟩ := set.storeHead (fits.same same) (rfl : ({ node.data mid with
      next := next
      prev := node.address
      lastUsed := now
      lastModified := if modified then now else (node.data mid).lastModified } : RankingsNode).dirty = _)
    list
  exact ⟨stored, same.trans same'⟩

theorem Rankings.Mirrored.endTransaction : rankings.endTransaction.Mirrored :=
  mirrored.same rfl rfl rfl

theorem Rankings.Mirrored.insert (id : rankings.currentEntryId ≠ 0)
    (fits : node.Fits rankings) (modified : Bool) (list : RankList) (now : UInt64) :
    (rankings.insert node modified list now).1.Mirrored ∧
      SameOpen rankings (rankings.insert node modified list now).1 := by
  have begun : (rankings.beginTransaction node.address .insert list).Mirrored :=
    mirrored.same rfl rfl rfl
  have started : SameOpen rankings (rankings.beginTransaction node.address .insert list) :=
    .of_eq rfl rfl rfl
  rw [Rankings.insert]
  simp only
  split
  · split
    · exact ⟨begun.same rfl rfl rfl, .of_eq rfl rfl rfl⟩
    · rename_i linked ran
      obtain ⟨linked_mirrored, same⟩ := begun.linkHead id ran
      have whole := started.trans same
      obtain ⟨stored, same'⟩ := linked_mirrored.insertNode (fits.same whole) modified list now
      exact ⟨stored.endTransaction, whole.trans (same'.trans (.endTransaction _))⟩
  · obtain ⟨stored, same⟩ := begun.insertNode (fits.same started) modified list now
    exact ⟨stored.endTransaction, started.trans (same.trans (.endTransaction _))⟩

omit mirrored in
theorem Rankings.MirroredBut.removeEnd (waiting : rankings.MirroredBut stale) (prev_waits : stale prev.address)
    (next_waits : stale next.address) (prev_fits : prev.Fits rankings) (next_fits : next.Fits rankings)
    (address : CacheAddr) (list : RankList) :
    ∃ rankings' prev' next', rankings.removeEnd address prev next list = (rankings', prev', next') ∧
      rankings'.MirroredBut stale ∧ SameOpen rankings rankings' ∧ prev'.Fits rankings' ∧
      next'.Fits rankings' ∧ prev'.address = prev.address ∧ next'.address = next.address := by
  have again : ∀ {a : CacheAddr}, stale a → ∀ b, stale b ∨ b = a → stale b := by
    intro a waits b either
    rcases either with old | here
    · exact old
    · exact here.symm ▸ waits
  rw [Rankings.removeEnd]
  split
  · split
    · exact ⟨_, prev, next, rfl, waiting.same rfl rfl rfl, .of_eq rfl rfl rfl, prev_fits.same (.of_eq rfl rfl rfl),
        next_fits.same (.of_eq rfl rfl rfl), rfl, rfl⟩
    · split
      · have set : (rankings.setHead list next.address).MirroredBut stale := waiting.same rfl rfl rfl
        obtain ⟨written, same, fits⟩ := set.write (next_fits.same (.of_eq rfl rfl rfl))
          (rfl : ({ next.data (rankings.setHead list next.address) with
            prev := next.address } : RankingsNode).dirty = _)
        have started : SameOpen rankings (rankings.setHead list next.address) := .of_eq rfl rfl rfl
        have whole := started.trans same
        exact ⟨_, prev, _, rfl, (written.weaken (again next_waits)).same rfl rfl rfl,
          whole.trans (.of_eq rfl rfl rfl), (prev_fits.same whole).same (.of_eq rfl rfl rfl),
          fits.same (.of_eq rfl rfl rfl), rfl, write_address ..⟩
      · have set : (rankings.setTail list prev.address).MirroredBut stale := waiting.same rfl rfl rfl
        obtain ⟨written, same, fits⟩ := set.write (prev_fits.same (.of_eq rfl rfl rfl))
          (rfl : ({ prev.data (rankings.setTail list prev.address) with
            next := prev.address } : RankingsNode).dirty = _)
        have started : SameOpen rankings (rankings.setTail list prev.address) := .of_eq rfl rfl rfl
        have whole := started.trans same
        have tailed : (Rankings.writeTail _ list).MirroredBut stale :=
          (written.weaken (again prev_waits)).same rfl rfl rfl
        obtain ⟨stored, same'⟩ := tailed.store (fits.same (.of_eq rfl rfl rfl))
        have all := (whole.trans (.writeTail _ list)).trans same'
        exact ⟨_, _, next, rfl, stored.weaken fun a left => left.1, all,
          (fits.same (.writeTail _ list)).same same', next_fits.same all, write_address .., rfl⟩
  · exact ⟨_, prev, next, rfl, waiting, .of_eq rfl rfl rfl, prev_fits, next_fits, rfl, rfl⟩

omit mirrored in
theorem removeEnd_iterators (rankings : Rankings) (address : CacheAddr) (prev next : Block)
    (list : RankList) : (rankings.removeEnd address prev next list).1.iterators = rankings.iterators := by
  rw [Rankings.removeEnd]
  repeat' split
  all_goals simp only [Rankings.persist, Rankings.writeHead, Rankings.writeTail, Rankings.setTail,
    Rankings.setHead, Block.store, write_iterators]

theorem Rankings.Mirrored.ended {node prev next : Block} (prev_fits : prev.Fits rankings)
    (next_fits : next.Fits rankings) (list : RankList) :
    ∃ ended prev' next', rankings.removeNode node prev next list = removeBehind node list (ended, prev', next') ∧
      ended.MirroredBut (fun a => a = prev.address ∨ a = next.address ∨ a = node.address) ∧
      SameOpen rankings ended ∧ prev'.Fits ended ∧ next'.Fits ended ∧
      prev'.address = prev.address ∧ next'.address = next.address ∧
      ended.iterators = rankings.iterators := by
  obtain ⟨one, one_same, prev_one⟩ := Rankings.MirroredBut.write mirrored prev_fits
    (rfl : ({ prev.data rankings with next := next.address } : RankingsNode).dirty = _)
  obtain ⟨two, two_same, next_two⟩ := one.write (next_fits.same one_same) (rfl : ({ next.data (prev.write
    { prev.data rankings with next := next.address } rankings).1 with prev := (prev.write
    { prev.data rankings with next := next.address } rankings).2.address } : RankingsNode).dirty = _)
  have waits : ∀ a, (False ∨ a = prev.address) ∨ a = next.address →
      a = prev.address ∨ a = next.address ∨ a = node.address := by
    rintro a ((none | here) | here)
    · exact none.elim
    · exact Or.inl here
    · exact Or.inr (Or.inl here)
  have waiting := two.weaken waits
  obtain ⟨ended, prev', next', ran, ended_waits, same, prev_fits', next_fits', prev_is, next_is⟩ :=
    waiting.removeEnd (Or.inl (write_address ..)) (Or.inr (Or.inl (write_address ..)))
      (prev_one.same two_same) next_two node.address list
  have result := congrArg (removeBehind node list) ran
  have kept := congrArg (fun ended => ended.1.iterators) ran
  rw [removeEnd_iterators, write_iterators, write_iterators] at kept
  exact ⟨ended, prev', next', result, ended_waits, (one_same.trans two_same).trans same, prev_fits',
    next_fits', prev_is.trans (write_address ..), next_is.trans (write_address ..), kept.symm⟩

theorem Rankings.Mirrored.removeNode (node_fits : node.Fits rankings)
    (prev_fits : prev.Fits rankings) (next_fits : next.Fits rankings) (list : RankList) :
    (rankings.removeNode node prev next list).1.Mirrored ∧
      SameOpen rankings (rankings.removeNode node prev next list).1 := by
  obtain ⟨ended, prev', next', final, ended_waits, same, prev_fits', next_fits', prev_is, next_is, -⟩ :=
    @Rankings.Mirrored.ended _ mirrored node prev next prev_fits next_fits list
  have node_ended := node_fits.same same
  obtain ⟨gone, gone_same, gone_fits⟩ := ended_waits.write node_ended
    (rfl : ({ node.data ended with next := 0, prev := 0 } : RankingsNode).dirty = _)
  obtain ⟨stored, stored_same⟩ := gone.store (next_fits'.same gone_same)
  obtain ⟨stored', stored_same'⟩ := stored.store ((prev_fits'.same gone_same).same stored_same)
  obtain ⟨stored'', stored_same''⟩ := stored'.store ((gone_fits.same stored_same).same stored_same')
  obtain ⟨entries, nodes, id, count⟩ := counter_same _ list (.inr rfl)
  rw [final, removeBehind]
  refine ⟨?_, ((same.trans gone_same).trans
    ((stored_same.trans stored_same').trans stored_same'')).trans (.of_eq entries id count)⟩
  refine Rankings.MirroredBut.same (stored''.weaken ?_) entries nodes id
  intro a left
  rw [prev_is, next_is, write_address] at left
  rcases left with ⟨⟨⟨(here | here | here) | here, not_next⟩, not_prev⟩, not_node⟩
  · exact not_prev here
  · exact not_next here
  · exact not_node here
  · exact not_node here

omit mirrored in
theorem getRanking_same (rankings : Rankings) (a : CacheAddr) :
    (rankings.getRanking a).1.openEntries = rankings.openEntries ∧
      (rankings.getRanking a).1.disk = rankings.disk ∧
      (rankings.getRanking a).1.currentEntryId = rankings.currentEntryId ∧
      (rankings.getRanking a).1.countLists = rankings.countLists := by
  rw [Rankings.getRanking]
  split
  · exact ⟨rfl, rfl, rfl, rfl⟩
  · simp only
    repeat' split
    all_goals exact ⟨rfl, rfl, rfl, rfl⟩

theorem Rankings.Mirrored.notLinked (fits : node.Fits rankings) (prev next : Block) :
    (rankings.notLinked node prev next).1.Mirrored ∧
      SameOpen rankings (rankings.notLinked node prev next).1 := by
  rw [Rankings.notLinked]
  split
  · obtain ⟨stored, same, -⟩ := mirrored.writeStore fits
      (rfl : ({ node.data rankings with next := 0, prev := 0 } : RankingsNode).dirty = _)
    exact ⟨stored, same⟩
  · exact ⟨mirrored.same rfl rfl rfl, .of_eq rfl rfl rfl⟩

theorem Rankings.Mirrored.remove (id : rankings.currentEntryId ≠ 0)
    (fits : node.Fits rankings) (list : RankList) :
    (rankings.remove node list).1.Mirrored ∧ SameOpen rankings (rankings.remove node list).1 := by
  have quiet : (rankings.invalidateIterators node.address).Mirrored := mirrored.same rfl rfl rfl
  have hushed : SameOpen rankings (rankings.invalidateIterators node.address) := .of_eq rfl rfl rfl
  rw [Rankings.remove]
  simp only
  split
  · exact ⟨quiet, .of_eq rfl rfl rfl⟩
  · split
    · rename_i found missing
      have same := getRanking_same (rankings.invalidateIterators node.address)
        (node.data (rankings.invalidateIterators node.address)).next
      rw [missing] at same
      exact ⟨quiet.same same.1 (congrArg Disk.node same.2.1) same.2.2.1, .of_eq same.1 same.2.2.1 same.2.2.2⟩
    · rename_i found next next_ran
      obtain ⟨rfl, -, next_fits⟩ := quiet.getRanking id next_ran
      split
      · rename_i found missing
        have same := getRanking_same (rankings.invalidateIterators node.address)
          (node.data (rankings.invalidateIterators node.address)).prev
        rw [missing] at same
        exact ⟨quiet.same same.1 (congrArg Disk.node same.2.1) same.2.2.1, .of_eq same.1 same.2.2.1 same.2.2.2⟩
      · rename_i found prev prev_ran
        obtain ⟨rfl, -, prev_fits⟩ := quiet.getRanking id prev_ran
        split
        · obtain ⟨stored, same⟩ := quiet.notLinked (fits.same hushed) prev next
          exact ⟨stored, hushed.trans same⟩
        · have begun : ((rankings.invalidateIterators node.address).beginTransaction node.address
              .remove list).Mirrored := quiet.same rfl rfl rfl
          have started : SameOpen (rankings.invalidateIterators node.address)
              ((rankings.invalidateIterators node.address).beginTransaction node.address .remove
                list) := .of_eq rfl rfl rfl
          obtain ⟨gone, same⟩ := begun.removeNode ((fits.same hushed).same started)
            (prev_fits.same started) (next_fits.same started) list
          exact ⟨gone.same rfl rfl rfl, (hushed.trans started).trans (same.trans (.of_eq rfl rfl rfl))⟩

end Operations

end Glopen.Cache

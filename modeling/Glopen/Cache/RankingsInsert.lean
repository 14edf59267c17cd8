import Glopen.Cache.RankingsStores

/-! `Insert`, from what it finds up to the head word that ends it. -/
namespace Glopen.Cache

open Linked List

/-- An insertion that has not reached the head word. The old head may be linked to the node, and the
tail of an empty list may be the node. -/
structure InsertLinks (base : Disk) (list : RankList) (n : CacheAddr) (disk : Disk) : Prop where
  heads : disk.control.heads = base.control.heads
  tails : ∀ l, disk.control.tails l = base.control.tails l ∨
    (l = list ∧ base.control.heads list = 0 ∧ disk.control.tails l = n)
  sizes : disk.control.sizes = base.control.sizes
  contents : (disk.node n).contents ≠ 0
  next : ∀ a, a ≠ n → (disk.node a).next = (base.node a).next
  prev : ∀ a, a ≠ n → (disk.node a).prev = (base.node a).prev ∨
    (a = base.control.heads list ∧ a ≠ 0 ∧ (disk.node a).prev = n)
  sane : ∀ a, a ≠ n → (base.node a).Sane → (disk.node a).Sane

def Disk.InFlight (disk : Disk) (op : Operation) (list : RankList) (n : CacheAddr) : Prop :=
  disk.control.transaction = n ∧ disk.control.operation = op ∧ disk.control.operationList = list

def Disk.sizesAfter (base : Disk) (list : RankList) (change : Int) (counted : Bool) : RankList → Int :=
  fun l => if l = list ∧ counted = true then base.control.sizes l + change else base.control.sizes l

inductive InsertPoint (base : Disk) (lists : Lists) (list : RankList) (n : CacheAddr)
    (stores : List Store) (disk : Disk) : Prop
  | before (incomplete : stores.any (Store.completes n) = false)
      (uncounted : stores.any Store.counts = false) (wf : WellFormed disk lists)
      (idle : disk.control.transaction = 0) (sizes : disk.control.sizes = base.control.sizes)
      (contents : (disk.node n).contents ≠ 0)
  | during (incomplete : stores.any (Store.completes n) = false)
      (uncounted : stores.any Store.counts = false) (links : InsertLinks base list n disk)
      (transaction : disk.InFlight .insert list n)
  | after (complete : stores.any (Store.completes n) = true)
      (wf : WellFormed disk (lists.put list (n :: lists list)))
      (transaction : disk.control.transaction = 0 ∨ disk.InFlight .insert list n)
      (sizes : disk.control.sizes = base.sizesAfter list 1 (stores.any Store.counts))

variable {base : Disk} {n : CacheAddr} {start : Disk} {earlier : List Store}

section

variable {since : List Store} {rankings : Rankings}
  {lists : Lists} (wf : WellFormed base lists) {list : RankList} (block : n.IsBlock)
  (new : ∀ l, n ∉ lists l)

section Links

include wf block new

theorem InsertLinks.complete {disk : Disk} (links : InsertLinks base list n disk)
    (itself : (disk.node n).prev = n ∧ (disk.node n).next = (lists list).headD n)
    (first : ∀ h, (lists list).head? = some h → (disk.node h).prev = n)
    (tail : lists list = [] → disk.control.tails list = n) (sane : (disk.node n).Sane) :
    WellFormed ((Store.head list n).apply disk) (lists.put list (n :: lists list)) := by
  refine wf.cons block new (fun l => ?_) (fun l => ?_) itself (fun a other => ?_) links.next sane
    fun l a inside => links.sane a (fun same => new l (same ▸ inside)) (wf.sane l a inside)
  · simp only [Store.apply, links.heads]
  · simp only [Store.apply]
    split
    · rename_i both
      rw [both.1]
      exact tail both.2
    · rename_i not_both
      rcases links.tails l with same | ⟨same, none_before, -⟩
      · exact same
      · exact absurd ⟨same, wf.head_none.mp none_before⟩ not_both
  · simp only [Store.apply]
    split
    · rename_i is_head
      exact first a is_head
    · rename_i not_head
      rcases links.prev a other with same | ⟨is_head, nonzero, -⟩
      · exact same
      · rw [wf.head] at is_head
        cases nodes : lists list with
        | nil =>
          rw [nodes] at is_head
          exact absurd is_head nonzero
        | cons h as =>
          rw [nodes, headD_cons] at is_head
          rw [nodes, List.head?_cons, is_head] at not_head
          exact absurd rfl not_head

end Links

structure Inserting (base : Disk) (lists : Lists) (list : RankList) (n : CacheAddr) (start : Disk)
    (earlier since : List Store) (rankings : Rankings) : Prop where
  traced : Traced start (InsertPoint base lists list n) earlier since rankings
  incomplete : since.any (Store.completes n) = false
  uncounted : since.any Store.counts = false
  links : InsertLinks base list n rankings.disk
  transaction : rankings.disk.InFlight .insert list n

section Steps

variable (inserting : Inserting base lists list n start earlier since rankings)
include inserting

theorem Inserting.persist (store : Store) (incomplete : store.completes n = false)
    (uncounted : store.counts = false) (links : InsertLinks base list n (store.apply rankings.disk))
    (transaction : (store.apply rankings.disk).InFlight .insert list n) :
    Inserting base lists list n start earlier (since ++ [store]) (rankings.persist store) := by
  have incomplete' : (since ++ [store]).any (Store.completes n) = false := by
    rw [any_append, inserting.incomplete]
    simp [incomplete]
  have uncounted' : (since ++ [store]).any Store.counts = false := by
    rw [any_append, inserting.uncounted]
    simp [uncounted]
  exact ⟨inserting.traced.persist store (.during incomplete' uncounted' links transaction),
    incomplete', uncounted', links, transaction⟩

theorem Inserting.same {rankings' : Rankings} (disk : rankings'.disk = rankings.disk)
    (written : rankings'.written = rankings.written) :
    Inserting base lists list n start earlier since rankings' :=
  ⟨inserting.traced.same disk written, inserting.incomplete, inserting.uncounted,
    disk ▸ inserting.links, disk ▸ inserting.transaction⟩
include wf block new

theorem Inserting.linkHead (heads : rankings.heads = base.control.heads)
    (tails : rankings.tails = rankings.disk.control.tails) (backed : rankings.Backed) {h : CacheAddr} {as : List CacheAddr}
    (nodes : lists list = h :: as) : ∃ rankings' data, rankings.linkHead n list = some rankings' ∧
      Inserting base lists list n start earlier (since ++ [.node h data]) rankings' ∧
      data.prev = n ∧ rankings'.disk = (Store.node h data).apply rankings.disk ∧
      rankings'.heads = rankings.heads ∧ rankings'.tails = rankings.tails ∧
      rankings'.countLists = rankings.countLists ∧
      ∀ other : Block, other.address ≠ h → other.data rankings' = other.data rankings := by
  have inside : h ∈ lists list := by simp [nodes]
  have links := inserting.links
  have other : h ≠ n := fun same => new list (same ▸ inside)
  have head_is : base.control.heads list = h := by rw [wf.head, nodes, headD_cons]
  have head : rankings.heads list = h := by rw [heads, head_is]
  have linked := wf.linked inside
  have prev_nonzero : (rankings.disk.node h).prev ≠ 0 := by
    rcases links.prev h other with same | ⟨-, -, same⟩
    · rw [same]
      exact isBlock_ne_zero (wf.blocks list _ linked.1)
    · rw [same]
      exact isBlock_ne_zero block
  have next_nonzero : (rankings.disk.node h).next ≠ 0 := by
    rw [links.next h other]
    exact isBlock_ne_zero (wf.blocks list _ linked.2)
  obtain ⟨found, ran, address, prev, next, sane, -⟩ := getRanking_of (a := h) backed
    (wf.blocks list h inside).initialized (links.sane h other (wf.sane list h inside)) next_nonzero
    prev_nonzero (fun _ => isHead_of list head) (fun self => by
      rw [links.next h other] at self
      refine isTail_of list ?_
      rw [tails]
      rcases links.tails list with same | ⟨-, none_before, -⟩
      · rw [same]
        exact wf.next_self inside self
      · rw [wf.head_none, nodes] at none_before
        cases none_before)
  have expected : ¬ ((found.data rankings).prev ≠ rankings.heads list ∧ (found.data rankings).prev ≠ n) := by
    rw [prev, head]
    rcases links.prev h other with same | ⟨-, -, same⟩
    · have self : (base.node h).prev = h := (wf.chain list [] h as nodes).1
      rw [same, self]
      exact fun both => both.1 rfl
    · exact fun both => both.2 same
  let data : RankingsNode := { found.data rankings with prev := n }
  let written := found.write data rankings
  have stored : written.2.store written.1 = written.1.persist (.node h data) := by
    rw [Block.store, data_write_self, write_address, address]
  have same_disk : written.1.disk = rankings.disk := write_disk ..
  have writing : Inserting base lists list n start earlier since written.1 :=
    inserting.same same_disk (write_written ..)
  have linked' : InsertLinks base list n ((Store.node h data).apply written.1.disk) := by
    rw [same_disk]
    refine ⟨links.heads, links.tails, links.sizes, ?_, fun a not_n => ?_, fun a not_n => ?_,
      fun a not_n was_sane => ?_⟩
    · simp only [Store.apply, if_neg (Ne.symm other)]
      exact links.contents
    · simp only [Store.apply]
      split
      · rename_i is_head
        rw [is_head, ← links.next h other]
        exact next
      · exact links.next a not_n
    · simp only [Store.apply]
      split
      · rename_i is_head
        exact .inr ⟨by rw [is_head, head_is], is_head ▸ isBlock_ne_zero (wf.blocks list h inside), rfl⟩
      · exact links.prev a not_n
    · simp only [Store.apply]
      split
      · exact ⟨sane.contents, sane.lastUsed, sane.lastModified⟩
      · exact links.sane a not_n was_sane
  have later := writing.persist (.node h data) (by simp [Store.completes, other]) rfl linked' writing.transaction
  refine ⟨(written.2.store written.1).updateIterators written.2, data, ?_, ?_, rfl, ?_, ?_, ?_, ?_,
    fun block' away => ?_⟩
  · rw [Rankings.linkHead, head, ran]
    simp only
    rw [head] at expected
    rw [head, if_neg expected]
  · rw [stored]
    exact later.same rfl rfl
  · rw [stored]
    simp only [Rankings.updateIterators, Rankings.persist, same_disk]
  · rw [stored]
    exact write_heads ..
  · rw [stored]
    exact write_tails ..
  · rw [stored]
    exact write_countLists ..
  · rw [stored]
    have apart : ¬ block'.Alias found := fun both => away (both.2.2.trans address)
    have kept := data_write found data rankings block'
    rw [if_neg apart] at kept
    rw [← kept]
    cases its : block'.buffer with
    | own own => simp only [Block.data, its]
    | shared => simp [Block.data, its, Rankings.updateIterators, Rankings.persist, Store.apply, away,
        written]

end Steps

structure Inserted (base : Disk) (lists : Lists) (list : RankList) (n : CacheAddr) (start : Disk)
    (earlier since : List Store) (rankings : Rankings) : Prop where
  traced : Traced start (InsertPoint base lists list n) earlier since rankings
  complete : since.any (Store.completes n) = true
  wf : WellFormed rankings.disk (lists.put list (n :: lists list))
  sizes : rankings.disk.control.sizes = base.sizesAfter list 1 (since.any Store.counts)
  heads : rankings.heads = rankings.disk.control.heads
  tails : rankings.tails = rankings.disk.control.tails

section Ends

variable (inserted : Inserted base lists list n start earlier since rankings)
include inserted

theorem Inserted.persist (store : Store)
    (control : (store.apply rankings.disk).control.heads = rankings.disk.control.heads ∧
      (store.apply rankings.disk).control.tails = rankings.disk.control.tails)
    (node : (store.apply rankings.disk).node = rankings.disk.node)
    (transaction : (store.apply rankings.disk).control.transaction = 0 ∨
      (store.apply rankings.disk).InFlight .insert list n)
    (sizes : (store.apply rankings.disk).control.sizes =
      base.sizesAfter list 1 ((since ++ [store]).any Store.counts)) :
    Inserted base lists list n start earlier (since ++ [store]) (rankings.persist store) := by
  have complete : (since ++ [store]).any (Store.completes n) = true := by
    rw [any_append, inserted.complete, Bool.true_or]
  have wf : WellFormed (store.apply rankings.disk) (lists.put list (n :: lists list)) := by
    refine inserted.wf.congr control.1 control.2 (fun l a inside => ?_) fun l a inside => ?_
    · rw [node]
      exact ⟨rfl, rfl⟩
    · rw [node]
      exact inserted.wf.sane l a inside
  exact ⟨inserted.traced.persist store (.after complete wf transaction sizes), complete, wf, sizes,
    inserted.heads.trans control.1.symm, inserted.tails.trans control.2.symm⟩

theorem Inserted.endTransaction :
    ∃ since', Inserted base lists list n start earlier since' rankings.endTransaction ∧
      since'.any Store.counts = since.any Store.counts ∧
      rankings.endTransaction.disk.control.transaction = 0 := by
  have counts : ∀ (stores : List Store) (store : Store), store.counts = false →
      (stores ++ [store]).any Store.counts = stores.any Store.counts := by
    intro stores store uncounted
    simp [uncounted]
  have one := inserted.persist (.transaction 0) ⟨rfl, rfl⟩ rfl (.inl rfl) (by
    rw [counts _ _ rfl]
    exact inserted.sizes)
  have two := one.persist (.operation .none) ⟨rfl, rfl⟩ rfl (.inl rfl) (by
    rw [counts _ _ rfl]
    exact one.sizes)
  have three := two.persist (.operationList .noUse) ⟨rfl, rfl⟩ rfl (.inl rfl) (by
    rw [counts _ _ rfl]
    exact two.sizes)
  exact ⟨_, three, by rw [counts _ _ rfl, counts _ _ rfl, counts _ _ rfl], rfl⟩

theorem Inserted.incrementCounter (uncounted : since.any Store.counts = false)
    (transaction : rankings.disk.InFlight .insert list n) :
    ∃ since', Inserted base lists list n start earlier since' (rankings.incrementCounter list) ∧
      since'.any Store.counts = (rankings.countLists && decide (base.control.sizes list < maxSize)) := by
  have same : rankings.disk.control.sizes = base.control.sizes := by
    have sizes := inserted.sizes
    rw [uncounted] at sizes
    rw [sizes]
    funext l
    simp [Disk.sizesAfter]
  rw [Rankings.incrementCounter, same]
  cases counting : rankings.countLists with
  | false => exact ⟨since, inserted, uncounted⟩
  | true =>
    simp only [Bool.not_true, Bool.false_eq_true, if_false, Bool.true_and]
    split
    · rename_i below
      have counted : (since ++ [Store.size list (base.control.sizes list + 1)]).any Store.counts =
          true := by simp [Store.counts]
      refine ⟨_, inserted.persist (.size list (base.control.sizes list + 1)) ⟨rfl, rfl⟩ rfl
        (.inr transaction) ?_, by rw [counted, decide_eq_true below]⟩
      rw [counted]
      funext l
      simp only [Store.apply, Disk.sizesAfter, same, and_true]
      split
      · rename_i here
        rw [here]
      · rfl
    · rename_i full
      exact ⟨since, inserted, by rw [uncounted, decide_eq_false full]⟩

end Ends

section Node

variable (inserting : Inserting base lists list n start earlier since rankings)
include wf block new inserting

theorem Inserting.insertNode (heads : rankings.heads = base.control.heads)
    (tails : rankings.tails = rankings.disk.control.tails) {node : Block} (address : node.address = n) {modified : Bool}
    {now : UInt64} (clock : now ≠ 0) (contents : (node.data rankings).contents ≠ 0)
    (last_modified : modified = true ∨ (node.data rankings).lastModified ≠ 0)
    (first : ∀ h, (lists list).head? = some h → (rankings.disk.node h).prev = n) :
    ∃ since', Inserted base lists list n start earlier since' (rankings.insertNode node modified list now).1 ∧
      (rankings.insertNode node modified list now).1.disk.InFlight .insert list n ∧
      since'.any Store.counts = (rankings.countLists && decide (base.control.sizes list < maxSize)) := by
  have next_is : rankings.heads list = (lists list).headD 0 := by rw [heads, wf.head]
  -- the tail of an empty list is the node
  have tailed : ∃ mid next since', ( if !((rankings.setHead list n).tails list).isInitialized ||
          (rankings.setHead list n).tails list = n then
        (((rankings.setHead list n).setTail list n).writeTail list, n)
      else (rankings.setHead list n, rankings.heads list)) = (mid, next) ∧
      Inserting base lists list n start earlier since' mid ∧ next = (lists list).headD n ∧
      (lists list = [] → mid.disk.control.tails list = n) ∧ mid.disk.node = rankings.disk.node ∧
      mid.openEntries = rankings.openEntries ∧ mid.countLists = rankings.countLists ∧
      mid.heads = (fun l => if l = list then n else base.control.heads l) ∧
      mid.tails = mid.disk.control.tails := by
    have linked := inserting.links
    have set : Inserting base lists list n start earlier since (rankings.setHead list n) :=
      inserting.same rfl rfl
    have set_heads : (rankings.setHead list n).heads =
        fun l => if l = list then n else base.control.heads l := by
      simp only [Rankings.setHead, heads]
    have set_tails : (rankings.setHead list n).tails list = rankings.disk.control.tails list := by
      simp only [Rankings.setHead, tails]
    rw [set_tails]
    cases nodes : lists list with
    | nil =>
      have none_before : base.control.heads list = 0 := wf.head_none.mpr nodes
      have free : (!(rankings.disk.control.tails list).isInitialized ||
          rankings.disk.control.tails list = n) = true := by
        rcases linked.tails list with same | ⟨-, -, same⟩
        · rw [same, wf.tail, nodes]
          rfl
        · rw [same]
          simp
      rw [if_pos free]
      have word : ((rankings.setHead list n).setTail list n).tails list = n := by
        simp [Rankings.setTail]
      have stored : Inserting base lists list n start earlier (since ++ [.tail list n])
          (((rankings.setHead list n).setTail list n).writeTail list) := by
        rw [Rankings.writeTail, word]
        have set' : Inserting base lists list n start earlier since
            ((rankings.setHead list n).setTail list n) := set.same rfl rfl
        refine set'.persist (.tail list n) rfl rfl
          ⟨linked.heads, fun l => ?_, linked.sizes, linked.contents, linked.next, linked.prev,
            linked.sane⟩ inserting.transaction
        simp only [Store.apply]
        split
        · rename_i here
          exact .inr ⟨here, none_before, rfl⟩
        · exact linked.tails l
      refine ⟨_, n, _, rfl, stored, rfl, fun _ => ?_, rfl, rfl, rfl, set_heads, ?_⟩
      · simp [Rankings.writeTail, Rankings.persist, Store.apply, word]
      · funext l
        simp only [Rankings.writeTail, Rankings.persist, Store.apply, word]
        simp only [Rankings.setTail, Rankings.setHead, tails]
    | cons h as =>
      have there : rankings.disk.control.tails list = base.control.tails list := by
        rcases linked.tails list with same | ⟨-, none_before, -⟩
        · exact same
        · rw [wf.head_none, nodes] at none_before
          cases none_before
      have inside : base.control.tails list ∈ lists list := by
        rw [wf.tail, nodes]
        exact getLastD_mem (cons_ne_nil h as) 0
      have taken : ¬ (!(rankings.disk.control.tails list).isInitialized ||
          rankings.disk.control.tails list = n) = true := by
        rw [there, (wf.blocks list _ inside).initialized]
        simp only [Bool.not_true, Bool.false_or, decide_eq_true_eq]
        exact fun same => new list (same ▸ inside)
      rw [if_neg taken]
      refine ⟨_, _, since, rfl, set, ?_, (fun empty => by cases empty), rfl, rfl, rfl, set_heads, tails⟩
      rw [next_is, nodes]
      rfl
  obtain ⟨mid, next, since', ran, inserting', next_is', tail, nodes, entries, count, heads', tails'⟩ :=
    tailed
  have same_data : node.data mid = node.data rankings := data_congr node rankings entries nodes
  have next_nonzero : next ≠ 0 := by
    rw [next_is']
    cases nodes : lists list with
    | nil => exact isBlock_ne_zero block
    | cons h as => exact isBlock_ne_zero (wf.blocks list h (by simp [nodes]))
  let data : RankingsNode := { node.data rankings with
    next := next
    prev := n
    lastUsed := now
    lastModified := if modified then now else (node.data rankings).lastModified }
  have sane : data.Sane := by
    refine ⟨contents, clock, ?_⟩
    simp only [data]
    split
    · exact clock
    · rename_i not_modified
      exact last_modified.resolve_left not_modified
  let written := node.write data mid
  have same_disk : written.1.disk = mid.disk := write_disk ..
  have writing : Inserting base lists list n start earlier since' written.1 :=
    inserting'.same same_disk (write_written ..)
  have linked := writing.links
  have links_stored : InsertLinks base list n ((Store.node n data).apply written.1.disk) := by
    refine ⟨linked.heads, linked.tails, linked.sizes, ?_, fun a not_n => ?_, fun a not_n => ?_,
      fun a not_n => ?_⟩
    · simp only [Store.apply, if_true]
      exact contents
    · simp only [Store.apply, if_neg not_n]
      exact linked.next a not_n
    · simp only [Store.apply, if_neg not_n]
      exact linked.prev a not_n
    · simp only [Store.apply, if_neg not_n]
      exact linked.sane a not_n
  have stored := writing.persist (.node n data)
    (by simp [Store.completes, data, next_nonzero]) rfl links_stored writing.transaction
  have completed := links_stored.complete wf block new ⟨by simp [Store.apply, data],
      by simp [Store.apply, data, next_is']⟩
    (fun h is_head => by
      have not_n : h ≠ n := fun same => new list (same ▸ List.mem_of_head? is_head)
      simp only [Store.apply, if_neg not_n, same_disk, nodes]
      exact first h is_head)
    (fun none => by
      simp only [Store.apply, same_disk]
      exact tail none) (by simpa [Store.apply] using sane)
  let headed := (written.1.persist (.node n data)).persist (.head list n)
  have complete : ((since' ++ [Store.node n data]) ++ [Store.head list n]).any (Store.completes n) = true := by
    simp [Store.completes]
  have uncounted : ((since' ++ [Store.node n data]) ++ [Store.head list n]).any Store.counts = false := by
    rw [any_append, stored.uncounted]
    simp [Store.counts]
  have sizes : ((Store.head list n).apply (written.1.persist (.node n data)).disk).control.sizes =
      base.sizesAfter list 1 (((since' ++ [Store.node n data]) ++ [Store.head list n]).any Store.counts) := by
    rw [uncounted]
    funext l
    simp only [Store.apply, Rankings.persist, Disk.sizesAfter, Bool.false_eq_true, and_false, if_false,
      linked.sizes]
  have inserted : Inserted base lists list n start earlier
      ((since' ++ [Store.node n data]) ++ [Store.head list n]) headed := by
    refine ⟨stored.traced.persist _ (.after complete completed (.inr stored.transaction) sizes),
      complete, completed, sizes, ?_, ?_⟩
    · simp only [headed, Rankings.persist, Store.apply, written, write_heads, heads', linked.heads]
    · simp only [headed, Rankings.persist, Store.apply, written, write_tails, tails', write_disk]
  obtain ⟨since'', counted, how⟩ := inserted.incrementCounter uncounted stored.transaction
  have result : (rankings.insertNode node modified list now).1 = headed.incrementCounter list := by
    rw [Rankings.insertNode, address]
    simp only [ran]
    rw [same_data, Block.store, data_write_self, write_address, address, Rankings.writeHead]
    have word : ((node.write data mid).1.persist (.node n data)).heads list = n := by
      simp [Rankings.persist, heads']
    rw [word]
  rw [result]
  refine ⟨since'', counted, ?_, ?_⟩
  · rw [Rankings.incrementCounter]
    split
    · exact stored.transaction
    · split
      · exact stored.transaction
      · exact stored.transaction
  · have same_count : headed.countLists = rankings.countLists := by
      simp only [headed, Rankings.persist, written, write_countLists, count]
    rw [how, same_count]

end Node

section Whole

structure Insertable (node : Block) (modified : Bool) (now : UInt64) (rankings : Rankings) : Prop where
  clock : now ≠ 0
  contents : (node.data rankings).contents ≠ 0
  last_modified : modified = true ∨ (node.data rankings).lastModified ≠ 0
include wf block new

theorem insert_from {since : List Store} {rankings : Rankings}
    (inserting : Inserting base lists list n start earlier since (rankings.beginTransaction n .insert list))
    (heads : rankings.heads = base.control.heads)
    (tails : rankings.tails = rankings.disk.control.tails) (backed : rankings.Backed) {node : Block}
    (address : node.address = n) {modified : Bool} {now : UInt64}
    (insertable : Insertable node modified now rankings) :
    ∃ since', Inserted base lists list n start earlier since' (rankings.insert node modified list now).1 ∧
      since'.any Store.counts = (rankings.countLists && decide (base.control.sizes list < maxSize)) ∧
      (rankings.insert node modified list now).1.disk.control.transaction = 0 := by
  have same_heads : (rankings.beginTransaction n .insert list).heads list =
      base.control.heads list := congrFun heads list
  cases nodes : lists list with
  | nil =>
    have none_before : base.control.heads list = 0 := wf.head_none.mpr nodes
    obtain ⟨since', inserted, -, counted⟩ := inserting.insertNode wf block new heads tails address
      insertable.clock insertable.contents insertable.last_modified
      (fun h is_head => by rw [nodes] at is_head; cases is_head)
    obtain ⟨since'', ended, counts, idle⟩ := inserted.endTransaction
    have result : (rankings.insert node modified list now).1 =
        ((rankings.beginTransaction n .insert list).insertNode node modified list now).1.endTransaction := by
      rw [Rankings.insert]
      simp only [address]
      rw [same_heads, none_before, if_neg (by decide)]
    rw [result]
    exact ⟨since'', ended, counts.trans counted, idle⟩
  | cons h as =>
    have inside : h ∈ lists list := by simp [nodes]
    have head_is : base.control.heads list = h := by rw [wf.head, nodes, headD_cons]
    obtain ⟨mid, data, ran, linked, prev, disk, heads', tails', count, others⟩ :=
      inserting.linkHead wf block new heads tails backed nodes
    have not_n : h ≠ n := fun same => new list (same ▸ inside)
    have same_data : node.data mid = node.data rankings :=
      others node (fun same => not_n (same.symm.trans address))
    have mid_tails : mid.tails = mid.disk.control.tails := by
      rw [tails', disk]
      exact tails
    obtain ⟨since', inserted, -, counted⟩ := linked.insertNode wf block new (heads'.trans heads)
      mid_tails address insertable.clock (same_data ▸ insertable.contents)
      (same_data ▸ insertable.last_modified) (fun first is_head => by
        rw [nodes, List.head?_cons, Option.some.injEq] at is_head
        subst is_head
        rw [disk]
        simp only [Store.apply, if_true]
        exact prev)
    obtain ⟨since'', ended, counts, idle⟩ := inserted.endTransaction
    have result : (rankings.insert node modified list now).1 =
        (mid.insertNode node modified list now).1.endTransaction := by
      rw [Rankings.insert]
      simp only [address]
      rw [same_heads, head_is, if_pos (wf.blocks list h inside).initialized, ran]
    rw [result]
    refine ⟨since'', ended, counts.trans ?_, idle⟩
    rw [counted, count]
    rfl

end Whole

end

structure Rankings.Settled (rankings : Rankings) : Prop where
  idle : rankings.disk.control.transaction = 0
  heads : rankings.heads = rankings.disk.control.heads
  tails : rankings.tails = rankings.disk.control.tails

section Insert

variable {rankings : Rankings} {lists : Lists} (wf : WellFormed rankings.disk lists)
  {list : RankList} {node : Block} (block : node.address.IsBlock)
  (new : ∀ l, node.address ∉ lists l)
include wf block new

theorem insert_points (settled : rankings.Settled) (backed : rankings.Backed)
    (contents : (rankings.disk.node node.address).contents ≠ 0) {modified : Bool} {now : UInt64}
    (insertable : Insertable node modified now rankings) :
    ∃ since, Inserted rankings.disk lists list node.address rankings.disk rankings.written since
        (rankings.insert node modified list now).1 ∧
      since.any Store.counts = (rankings.countLists && decide (rankings.disk.control.sizes list < maxSize)) ∧
      (rankings.insert node modified list now).1.disk.control.transaction = 0 := by
  have control : ∀ store : Store, (store.apply rankings.disk).control.heads = rankings.disk.control.heads →
      (store.apply rankings.disk).control.tails = rankings.disk.control.tails →
      (store.apply rankings.disk).node = rankings.disk.node →
      WellFormed (store.apply rankings.disk) lists := by
    intro store heads tails nodes
    refine wf.congr heads tails (fun l a inside => ?_) fun l a inside => ?_
    · rw [nodes]
      exact ⟨rfl, rfl⟩
    · rw [nodes]
      exact wf.sane l a inside
  have none : Traced rankings.disk (InsertPoint rankings.disk lists list node.address)
      rankings.written [] rankings :=
    .nothing (.before rfl rfl wf settled.idle rfl contents)
  have one := none.persist (.operation .insert)
    (.before rfl rfl (control (.operation .insert) rfl rfl rfl) settled.idle rfl contents)
  have wf_one : WellFormed (rankings.persist (.operation .insert)).disk lists :=
    control (.operation .insert) rfl rfl rfl
  have wf_two : WellFormed ((Store.operationList list).apply
      (rankings.persist (.operation .insert)).disk) lists := by
    refine wf_one.congr rfl rfl (fun l a inside => ⟨rfl, rfl⟩) fun l a inside => ?_
    exact wf_one.sane l a inside
  have two := one.persist (.operationList list) (.before rfl rfl wf_two settled.idle rfl contents)
  have links : InsertLinks rankings.disk list node.address
      (rankings.beginTransaction node.address .insert list).disk :=
    ⟨rfl, fun _ => .inl rfl, rfl, contents, fun _ _ => rfl, fun _ _ => .inl rfl, fun _ _ sane => sane⟩
  have three := two.persist (.transaction node.address)
    (.during (by simp [Store.completes]) (by simp [Store.counts]) links ⟨rfl, rfl, rfl⟩)
  have inserting : Inserting rankings.disk lists list node.address rankings.disk rankings.written _
      (rankings.beginTransaction node.address .insert list) :=
    ⟨three, by simp [Store.completes], by simp [Store.counts], links, ⟨rfl, rfl, rfl⟩⟩
  exact insert_from wf block new inserting settled.heads settled.tails backed rfl insertable

end Insert

section Recovery

theorem init_of {disk : Disk} (block : n.IsBlock)
    (transaction : disk.control.transaction = n) (countLists : Bool) (currentEntryId : Int)
    (now : UInt64) : Rankings.init disk countLists currentEntryId now = (match disk.control.operation with
        | .insert => Rankings.finishInsert ⟨n, .own { disk.node n with dummy := 0 }⟩ now
          ((Rankings.new disk countLists currentEntryId).persist (.node n { disk.node n with dummy := 0 }))
        | .remove => Rankings.revertRemove ⟨n, .own { disk.node n with dummy := 0 }⟩
          ((Rankings.new disk countLists currentEntryId).persist (.node n { disk.node n with dummy := 0 }))
        | .none => (Rankings.new disk countLists currentEntryId).persist
            (.node n { disk.node n with dummy := 0 })) := by
  have at_node : (Rankings.new disk countLists currentEntryId).disk.control.transaction = n :=
    transaction
  have started : disk.control.transaction ≠ 0 := by
    rw [transaction]
    exact isBlock_ne_zero block
  rw [Rankings.init, if_pos started, Rankings.completeTransaction]
  simp only [at_node, block.initialized, block.inFile, Bool.not_true, Bool.or_self,
    Bool.false_eq_true, if_false, Block.load, Block.write, Block.store, Block.data]
  rfl

theorem backed_new (disk : Disk) (countLists : Bool) (currentEntryId : Int) :
    (Rankings.new disk countLists currentEntryId).Backed :=
  fun _ _ opened => by cases opened

variable {lists : Lists} (wf : WellFormed base lists) {list : RankList} (block : n.IsBlock)
  (new : ∀ l, n ∉ lists l)
include wf block new

theorem finish_insert {disk : Disk} (links : InsertLinks base list n disk)
    (transaction : disk.InFlight .insert list n) (countLists : Bool) (currentEntryId : Int)
    {now : UInt64} (clock : now ≠ 0) : WellFormed (Rankings.init disk countLists currentEntryId now).disk
        (lists.put list (n :: lists list)) ∧
      (Rankings.init disk countLists currentEntryId now).Settled ∧
      (Rankings.init disk countLists currentEntryId now).disk.control.sizes = base.sizesAfter list 1
        (countLists && decide (base.control.sizes list < maxSize)) := by
  obtain ⟨in_flight, op, op_list⟩ := transaction
  have not_head : disk.control.heads list ≠ n := by
    rw [links.heads, wf.head]
    cases nodes : lists list with
    | nil => exact fun zero => isBlock_ne_zero block zero.symm
    | cons h as => exact fun same => new list (by rw [nodes, ← same]; exact mem_cons_self ..)
  let loaded : RankingsNode := { disk.node n with dummy := 0 }
  let cleared := (((Rankings.new disk countLists currentEntryId).persist (.node n loaded)).persist
    (.transaction 0)).persist (.operation .none)
  have unchanged : ∀ a, a ≠ n → cleared.disk.node a = disk.node a := fun a not_n => by
    simp only [cleared, Rankings.persist, Store.apply, Rankings.new, if_neg not_n]
  have links' : InsertLinks base list n (cleared.beginTransaction n .insert list).disk := by
    refine ⟨links.heads, links.tails, links.sizes, ?_, fun a not_n => ?_, fun a not_n => ?_, fun a not_n => ?_⟩
    · simp only [cleared, Rankings.beginTransaction, Rankings.persist, Store.apply, if_true]
      exact links.contents
    · have same : (cleared.beginTransaction n .insert list).disk.node a = disk.node a :=
        unchanged a not_n
      rw [same]
      exact links.next a not_n
    · have same : (cleared.beginTransaction n .insert list).disk.node a = disk.node a :=
        unchanged a not_n
      rw [same]
      exact links.prev a not_n
    · have same : (cleared.beginTransaction n .insert list).disk.node a = disk.node a :=
        unchanged a not_n
      rw [same]
      exact links.sane a not_n
  have inserting : Inserting base lists list n (cleared.beginTransaction n .insert list).disk
      (cleared.beginTransaction n .insert list).written []
      (cleared.beginTransaction n .insert list) :=
    ⟨.nothing (.during rfl rfl links' ⟨rfl, rfl, rfl⟩), rfl, rfl, links', ⟨rfl, rfl, rfl⟩⟩
  let node : Block := ⟨n, .own (if disk.control.tails list = n then
    { loaded with next := disk.control.tails list } else loaded)⟩
  have insertable : Insertable node true now cleared := by
    refine ⟨clock, ?_, .inl rfl⟩
    simp only [node, Block.data]
    split
    · exact links.contents
    · exact links.contents
  obtain ⟨since, inserted, counted, idle⟩ := insert_from wf block new inserting links.heads rfl
    (fun _ _ opened => by cases opened) (rfl : node.address = n) insertable
  have result : Rankings.init disk countLists currentEntryId now = (cleared.insert node true list now).1 := by
    have at_list : cleared.disk.control.operationList = list := op_list
    have head_word : cleared.heads list ≠ n := not_head
    rw [init_of block in_flight, op]
    simp only
    rw [Rankings.finishInsert]
    change (if cleared.heads cleared.disk.control.operationList ≠ n then _ else _) = _
    rw [at_list, if_pos head_word]
    change Prod.fst (Rankings.insert (Prod.snd (if cleared.tails list = n then _ else _)) _ _ _
      (Prod.fst (if cleared.tails list = n then _ else _))) = _
    simp only [node]
    by_cases is_tail : disk.control.tails list = n
    · have word : cleared.tails list = n := is_tail
      rw [if_pos word, if_pos is_tail]
      rfl
    · have word : ¬ cleared.tails list = n := is_tail
      rw [if_neg word, if_neg is_tail]
  rw [result]
  refine ⟨inserted.wf, ⟨idle, inserted.heads, inserted.tails⟩, ?_⟩
  rw [inserted.sizes, counted]
  rfl

end Recovery

end Glopen.Cache

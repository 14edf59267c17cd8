import Glopen.Cache.RankingsInsert

/-! `Remove`, from what it finds up to the node itself, which is the last to be stored. -/
namespace Glopen.Cache

open Linked List

structure Unlinked (base : Disk) (list : RankList) (r : CacheAddr)
    (head tail prev next gone : Bool) (disk : Disk) : Prop where
  heads : ∀ l, disk.control.heads l =
    if head = true ∧ l = list ∧ base.control.heads l = r then
      if (base.node r).next = r then 0 else (base.node r).next
    else base.control.heads l
  tails : ∀ l, disk.control.tails l =
    if tail = true ∧ l = list ∧ base.control.tails l = r then
      if (base.node r).prev = r then 0 else (base.node r).prev
    else base.control.tails l
  sizes : disk.control.sizes = base.control.sizes
  before : ∀ a, a ≠ r → (disk.node a).next =
    if prev = true ∧ a = (base.node r).prev then
      if (base.node r).next = r then a else (base.node r).next
    else (base.node a).next
  behind : ∀ a, a ≠ r → (disk.node a).prev =
    if next = true ∧ a = (base.node r).next then
      if (base.node r).prev = r then a else (base.node r).prev
    else (base.node a).prev
  node : if gone then (disk.node r).prev = 0 ∧ (disk.node r).next = 0
    else (disk.node r).prev = (base.node r).prev ∧ (disk.node r).next = (base.node r).next ∧
      ((base.node r).Sane → (disk.node r).Sane)
  sane : ∀ a, a ≠ r → (base.node a).Sane → (disk.node a).Sane

inductive RemovePoint (base : Disk) (lists : Lists) (list : RankList) (r : CacheAddr)
    (stores : List Store) (disk : Disk) : Prop
  | before (incomplete : stores.any (Store.completes r) = false)
      (uncounted : stores.any Store.counts = false) (wf : WellFormed disk lists)
      (idle : disk.control.transaction = 0) (sizes : disk.control.sizes = base.control.sizes)
  | during (incomplete : stores.any (Store.completes r) = false)
      (uncounted : stores.any Store.counts = false) (head tail prev next : Bool)
      (links : Unlinked base list r head tail prev next false disk)
      (transaction : disk.InFlight .remove list r)
  | after (complete : stores.any (Store.completes r) = true)
      (wf : WellFormed disk (lists.put list ((lists list).erase r)))
      (out : (disk.node r).prev = 0 ∧ (disk.node r).next = 0)
      (transaction : disk.control.transaction = 0 ∨ disk.InFlight .remove list r)
      (sizes : disk.control.sizes = base.sizesAfter list (-1) (stores.any Store.counts))

variable {base : Disk} {lists : Lists} {list : RankList} {r : CacheAddr}

section Links

variable (wf : WellFormed base lists) (inside : r ∈ lists list)
include wf inside

theorem Unlinked.complete {disk : Disk} (links : Unlinked base list r true true true true true disk) :
    WellFormed disk (lists.put list ((lists list).erase r)) := by
  refine wf.erase inside (fun l => ?_) (fun l => ?_) ⟨fun a other => ?_, fun a other => ?_⟩
    fun l a there other => links.sane a other (wf.sane l a there)
  · rw [links.heads]
    simp only [true_and]
  · rw [links.tails]
    simp only [true_and]
  · have its := links.behind a other
    simp only [true_and] at its
    exact its
  · have its := links.before a other
    simp only [true_and] at its
    exact its

theorem WellFormed.is_head : base.control.heads list = r ↔ (base.node r).prev = r := by
  refine ⟨fun head => ?_, wf.prev_self inside⟩
  rw [wf.head] at head
  cases nodes : lists list with
  | nil =>
    rw [nodes] at inside
    cases inside
  | cons h as =>
    rw [nodes, headD_cons] at head
    subst head
    exact (wf.chain list [] h as nodes).1

theorem WellFormed.is_tail : base.control.tails list = r ↔ (base.node r).next = r := by
  refine ⟨fun tail => ?_, wf.next_self inside⟩
  obtain ⟨xs, ys, split⟩ := append_of_mem inside
  have next : (base.node r).next = ys.headD r := (wf.chain list xs r ys split).2
  rw [next]
  cases ys with
  | nil => rfl
  | cons y ys =>
    have nodup := wf.nodup list
    rw [split, nodup_append] at nodup
    rw [wf.tail, split, getLastD_append_cons] at tail
    exact absurd (tail ▸ getLastD_mem (cons_ne_nil y ys) r) (nodup_cons.mp nodup.2.1).1

theorem WellFormed.prev_next (other : (base.node r).prev ≠ r) : (base.node (base.node r).prev).next = r := by
  obtain ⟨xs, ys, split⟩ := append_of_mem inside
  have prev : (base.node r).prev = xs.getLastD r := (wf.chain list xs r ys split).1
  rcases eq_nil_or_concat xs with none_before | ⟨xs', p, rfl⟩
  · rw [prev, none_before] at other
    exact absurd rfl other
  · rw [concat_eq_append, getLastD_concat] at prev
    rw [prev]
    exact (wf.chain list xs' p (r :: ys) (by simpa using split)).2

theorem WellFormed.next_prev (other : (base.node r).next ≠ r) : (base.node (base.node r).next).prev = r := by
  obtain ⟨xs, ys, split⟩ := append_of_mem inside
  have next : (base.node r).next = ys.headD r := (wf.chain list xs r ys split).2
  cases ys with
  | nil => exact absurd next other
  | cons y ys =>
    rw [headD_cons] at next
    rw [next]
    have its := (wf.chain list (xs ++ [r]) y ys (by simpa using split)).1
    rw [getLastD_concat] at its
    exact its

theorem WellFormed.neighbours (same : (base.node r).prev = (base.node r).next) : (base.node r).prev = r := by
  by_contra other
  have back := wf.prev_next inside other
  rw [same] at back other
  have linked := wf.linked inside
  have again : (base.node (base.node r).next).prev = r := wf.next_prev inside other
  obtain ⟨xs, ys, split⟩ := append_of_mem inside
  have prev : (base.node r).prev = xs.getLastD r := (wf.chain list xs r ys split).1
  have next : (base.node r).next = ys.headD r := (wf.chain list xs r ys split).2
  have nodup := wf.nodup list
  rw [split, nodup_append] at nodup
  cases xs with
  | nil =>
    rw [prev] at same
    exact other same.symm
  | cons x xs =>
    cases ys with
    | nil => exact other next
    | cons y ys =>
      rw [prev, next, headD_cons] at same
      have in_xs := getLastD_mem (cons_ne_nil x xs) r
      rw [same] at in_xs
      exact nodup.2.2 y in_xs y (by simp) rfl

end Links

variable {head tail head' tail' prev' next' : Bool}

section Flags

variable {prev next gone : Bool} {disk : Disk}

theorem Unlinked.more (links : Unlinked base list r head tail prev next gone disk)
    (heads : head' = head ∨ base.control.heads list ≠ r) (tails : tail' = tail ∨ base.control.tails list ≠ r)
    (before : prev' = prev ∨ (base.node r).prev = r) (behind : next' = next ∨ (base.node r).next = r) :
    Unlinked base list r head' tail' prev' next' gone disk := by
  refine ⟨fun l => ?_, fun l => ?_, links.sizes, fun a other => ?_, fun a other => ?_, links.node, links.sane⟩
  · rcases heads with rfl | none
    · exact links.heads l
    · have out : ∀ flag : Bool, ¬ (flag = true ∧ l = list ∧ base.control.heads l = r) :=
        fun flag all => none (all.2.1 ▸ all.2.2)
      rw [links.heads, if_neg (out head), if_neg (out head')]
  · rcases tails with rfl | none
    · exact links.tails l
    · have out : ∀ flag : Bool, ¬ (flag = true ∧ l = list ∧ base.control.tails l = r) :=
        fun flag all => none (all.2.1 ▸ all.2.2)
      rw [links.tails, if_neg (out tail), if_neg (out tail')]
  · rcases before with rfl | self
    · exact links.before a other
    · have out : ∀ flag : Bool, ¬ (flag = true ∧ a = (base.node r).prev) :=
        fun flag both => other (both.2.trans self)
      rw [links.before a other, if_neg (out prev), if_neg (out prev')]
  · rcases behind with rfl | self
    · exact links.behind a other
    · have out : ∀ flag : Bool, ¬ (flag = true ∧ a = (base.node r).next) :=
        fun flag both => other (both.2.trans self)
      rw [links.behind a other, if_neg (out next), if_neg (out next')]

structure RankingsNode.Linked (data : RankingsNode) (prev next : CacheAddr) : Prop where
  prev : data.prev = prev
  next : data.next = next
  sane : data.Sane

theorem node_stored (disk : Disk) (addr : CacheAddr) (data : RankingsNode) (a : CacheAddr) :
    ((Store.node addr data).apply disk).node a = if a = addr then data else disk.node a := rfl

section

variable (links : Unlinked base list r head tail prev next gone disk) {data : RankingsNode}
include links

theorem Unlinked.storeNext (other : (base.node r).next ≠ r)
    (linked : data.Linked (if (base.node r).prev = r then (base.node r).next else (base.node r).prev)
      (base.node (base.node r).next).next)
    (apart : (base.node r).next ≠ (base.node r).prev) : Unlinked base list r head tail prev true gone
      ((Store.node (base.node r).next data).apply disk) := by
  refine ⟨links.heads, links.tails, links.sizes, fun a not_r => ?_, fun a not_r => ?_, ?_,
    fun a not_r was_sane => ?_⟩
  · rw [node_stored]
    by_cases here : a = (base.node r).next
    · rw [if_pos here, here, linked.next, if_neg (fun both => apart both.2)]
    · rw [if_neg here]
      exact links.before a not_r
  · rw [node_stored]
    by_cases here : a = (base.node r).next
    · have both : true = true ∧ (base.node r).next = (base.node r).next := ⟨rfl, rfl⟩
      rw [if_pos here, here, linked.prev, if_pos both]
    · rw [if_neg here, links.behind a not_r, if_neg (fun both => here both.2),
        if_neg (fun both => here both.2)]
  · simp only [Store.apply, if_neg (Ne.symm other)]
    exact links.node
  · rw [node_stored]
    split
    · exact linked.sane
    · exact links.sane a not_r was_sane

theorem Unlinked.storePrev (other : (base.node r).prev ≠ r)
    (linked : data.Linked (base.node (base.node r).prev).prev
      (if (base.node r).next = r then (base.node r).prev else (base.node r).next))
    (apart : (base.node r).next ≠ (base.node r).prev) : Unlinked base list r head tail true next gone
      ((Store.node (base.node r).prev data).apply disk) := by
  refine ⟨links.heads, links.tails, links.sizes, fun a not_r => ?_, fun a not_r => ?_, ?_,
    fun a not_r was_sane => ?_⟩
  · rw [node_stored]
    by_cases here : a = (base.node r).prev
    · have both : true = true ∧ (base.node r).prev = (base.node r).prev := ⟨rfl, rfl⟩
      rw [if_pos here, here, linked.next, if_pos both]
    · rw [if_neg here, links.before a not_r, if_neg (fun both => here both.2),
        if_neg (fun both => here both.2)]
  · rw [node_stored]
    by_cases here : a = (base.node r).prev
    · rw [if_pos here, here, linked.prev, if_neg (fun both => apart both.2.symm)]
    · rw [if_neg here]
      exact links.behind a not_r
  · simp only [Store.apply, if_neg (Ne.symm other)]
    exact links.node
  · rw [node_stored]
    split
    · exact linked.sane
    · exact links.sane a not_r was_sane

theorem Unlinked.storeNode (gone' : Bool) (its : if gone' then data.prev = 0 ∧ data.next = 0
      else data.Linked (base.node r).prev (base.node r).next) :
    Unlinked base list r head tail prev next gone' ((Store.node r data).apply disk) := by
  refine ⟨links.heads, links.tails, links.sizes, fun a not_r => ?_, fun a not_r => ?_, ?_,
    fun a not_r was_sane => ?_⟩
  · simp only [Store.apply, if_neg not_r]
    exact links.before a not_r
  · simp only [Store.apply, if_neg not_r]
    exact links.behind a not_r
  · simp only [Store.apply, if_true]
    cases gone' with
    | true => exact its
    | false => exact ⟨its.prev, its.next, fun _ => its.sane⟩
  · simp only [Store.apply, if_neg not_r]
    exact links.sane a not_r was_sane

end

end Flags

structure Removing (base : Disk) (lists : Lists) (list : RankList) (r : CacheAddr) (start : Disk)
    (earlier since : List Store) (head tail prev next : Bool) (rankings : Rankings) : Prop where
  traced : Traced start (RemovePoint base lists list r) earlier since rankings
  incomplete : since.any (Store.completes r) = false
  uncounted : since.any Store.counts = false
  links : Unlinked base list r head tail prev next false rankings.disk
  transaction : rankings.disk.InFlight .remove list r

structure Removed (base : Disk) (lists : Lists) (list : RankList) (r : CacheAddr) (start : Disk)
    (earlier since : List Store) (counted : Bool) (rankings : Rankings) : Prop where
  traced : Traced start (RemovePoint base lists list r) earlier since rankings
  complete : since.any (Store.completes r) = true
  counts : since.any Store.counts = counted
  wf : WellFormed rankings.disk (lists.put list ((lists list).erase r))
  out : (rankings.disk.node r).prev = 0 ∧ (rankings.disk.node r).next = 0
  sizes : rankings.disk.control.sizes = base.sizesAfter list (-1) counted

section Steps

variable {start : Disk}
  {earlier since : List Store} {prev next : Bool} {rankings : Rankings}
variable {rankings' : Rankings} {counted : Bool}

section

variable (removing : Removing base lists list r start earlier since head tail prev next rankings)
include removing

theorem Removing.same (disk : rankings'.disk = rankings.disk) (written : rankings'.written = rankings.written) :
    Removing base lists list r start earlier since head tail prev next rankings' :=
  ⟨removing.traced.same disk written, removing.incomplete, removing.uncounted,
    disk ▸ removing.links, disk ▸ removing.transaction⟩

theorem Removing.more (heads : head' = head ∨ base.control.heads list ≠ r)
    (tails : tail' = tail ∨ base.control.tails list ≠ r)
    (before : prev' = prev ∨ (base.node r).prev = r) (behind : next' = next ∨ (base.node r).next = r) :
    Removing base lists list r start earlier since head' tail' prev' next' rankings :=
  ⟨removing.traced, removing.incomplete, removing.uncounted,
    removing.links.more heads tails before behind, removing.transaction⟩

theorem Removing.persist (store : Store) (incomplete : store.completes r = false)
    (uncounted : store.counts = false)
    (links : Unlinked base list r head' tail' prev' next' false (store.apply rankings.disk))
    (transaction : (store.apply rankings.disk).InFlight .remove list r) :
    Removing base lists list r start earlier (since ++ [store]) head' tail' prev' next'
      (rankings.persist store) := by
  have incomplete' : (since ++ [store]).any (Store.completes r) = false := by
    rw [any_append, removing.incomplete]
    simp [incomplete]
  have uncounted' : (since ++ [store]).any Store.counts = false := by
    rw [any_append, removing.uncounted]
    simp [uncounted]
  exact ⟨removing.traced.persist store (.during incomplete' uncounted' _ _ _ _ links transaction),
    incomplete', uncounted', links, transaction⟩

end

theorem Removed.same (removed : Removed base lists list r start earlier since counted rankings)
    (disk : rankings'.disk = rankings.disk) (written : rankings'.written = rankings.written) :
    Removed base lists list r start earlier since counted rankings' :=
  ⟨removed.traced.same disk written, removed.complete, removed.counts, disk ▸ removed.wf,
    disk ▸ removed.out, disk ▸ removed.sizes⟩

theorem Removed.persist {counted' : Bool}
    (removed : Removed base lists list r start earlier since counted rankings) (store : Store)
    (counts : (since ++ [store]).any Store.counts = counted')
    (wf : WellFormed (store.apply rankings.disk) (lists.put list ((lists list).erase r)))
    (out : ((store.apply rankings.disk).node r).prev = 0 ∧ ((store.apply rankings.disk).node r).next = 0)
    (transaction : (store.apply rankings.disk).control.transaction = 0 ∨
      (store.apply rankings.disk).InFlight .remove list r)
    (sizes : (store.apply rankings.disk).control.sizes = base.sizesAfter list (-1) counted') :
    Removed base lists list r start earlier (since ++ [store]) counted' (rankings.persist store) := by
  have complete : (since ++ [store]).any (Store.completes r) = true := by
    rw [any_append, removed.complete, Bool.true_or]
  exact ⟨removed.traced.persist store (.after complete wf out transaction (counts.symm ▸ sizes)),
    complete, counts, wf, out, sizes⟩

theorem Removing.complete (wf : WellFormed base lists) (inside : r ∈ lists list)
    (removing : Removing base lists list r start earlier since true true true true rankings)
    {data : RankingsNode} (zero : data.prev = 0 ∧ data.next = 0) :
    Removed base lists list r start earlier (since ++ [.node r data]) false
      (rankings.persist (.node r data)) := by
  have complete : (since ++ [Store.node r data]).any (Store.completes r) = true := by
    simp [Store.completes, zero]
  have uncounted : (since ++ [Store.node r data]).any Store.counts = false := by
    rw [any_append, removing.uncounted]
    simp [Store.counts]
  have links : Unlinked base list r true true true true true
      ((Store.node r data).apply rankings.disk) := removing.links.storeNode true zero
  have wf' := links.complete wf inside
  have out := links.node
  have sizes : ((Store.node r data).apply rankings.disk).control.sizes = base.sizesAfter list (-1) false := by
    rw [links.sizes]
    funext l
    simp [Disk.sizesAfter]
  exact ⟨removing.traced.persist _ (.after complete wf' out (.inr removing.transaction)
    (uncounted.symm ▸ sizes)), complete, uncounted, wf', out, sizes⟩

theorem Removed.again (removed : Removed base lists list r start earlier since false rankings)
    (transaction : rankings.disk.InFlight .remove list r) {a : CacheAddr} {data : RankingsNode}
    (prev : data.prev = (rankings.disk.node a).prev) (next : data.next = (rankings.disk.node a).next)
    (sane : a ≠ r → data.Sane) : Removed base lists list r start earlier (since ++ [.node a data]) false
      (rankings.persist (.node a data)) := by
  have not_linked : ∀ l b, b = r → b ∉ lists.put list ((lists list).erase r) l := by
    intro l b same inside
    have linked := removed.wf.linked inside
    rw [same, removed.out.1] at linked
    exact isBlock_ne_zero (removed.wf.blocks l _ linked.1) rfl
  have links : ∀ b, (((Store.node a data).apply rankings.disk).node b).prev = (rankings.disk.node b).prev ∧
      (((Store.node a data).apply rankings.disk).node b).next = (rankings.disk.node b).next := by
    intro b
    rw [node_stored]
    split
    · rename_i here
      rw [here]
      exact ⟨prev, next⟩
    · exact ⟨rfl, rfl⟩
  have uncounted : (since ++ [Store.node a data]).any Store.counts = false := by
    rw [any_append, removed.counts]
    simp [Store.counts]
  refine removed.persist _ uncounted ?_ ?_ (.inr transaction) removed.sizes
  · refine removed.wf.congr rfl rfl (fun l b _ => links b) fun l b inside => ?_
    rw [node_stored]
    split
    · rename_i here
      exact sane fun same => not_linked l b (here.trans same) inside
    · exact removed.wf.sane l b inside
  · rw [(links r).1, (links r).2]
    exact removed.out

theorem Removed.endTransaction (removed : Removed base lists list r start earlier since counted rankings) :
    ∃ since', Removed base lists list r start earlier since' counted rankings.endTransaction ∧
      rankings.endTransaction.disk.control.transaction = 0 := by
  have counts : ∀ (stores : List Store) (store : Store), store.counts = false →
      (stores ++ [store]).any Store.counts = stores.any Store.counts := by
    intro stores store uncounted
    simp [uncounted]
  have words : ∀ {disk : Disk} {store : Store}, WellFormed disk (lists.put list ((lists list).erase r)) →
      (store.apply disk).control.heads = disk.control.heads →
      (store.apply disk).control.tails = disk.control.tails →
      (store.apply disk).node = disk.node →
      WellFormed (store.apply disk) (lists.put list ((lists list).erase r)) := by
    intro disk store wf heads tails nodes
    refine wf.congr heads tails (fun l b _ => by rw [nodes]; exact ⟨rfl, rfl⟩) fun l b inside => ?_
    rw [nodes]
    exact wf.sane l b inside
  have one := removed.persist (.transaction 0) (by rw [counts _ _ rfl, removed.counts])
    (words removed.wf rfl rfl rfl) removed.out (.inl rfl) removed.sizes
  have two := one.persist (.operation .none) (by rw [counts _ _ rfl, one.counts])
    (words one.wf rfl rfl rfl) one.out (.inl rfl) one.sizes
  have three := two.persist (.operationList .noUse) (by rw [counts _ _ rfl, two.counts])
    (words two.wf rfl rfl rfl) two.out (.inl rfl) two.sizes
  exact ⟨_, three, rfl⟩

theorem Removed.decrementCounter (removed : Removed base lists list r start earlier since false rankings)
    (transaction : rankings.disk.InFlight .remove list r) :
    ∃ since', Removed base lists list r start earlier since'
      (rankings.countLists && decide (0 < base.control.sizes list)) (rankings.decrementCounter list) := by
  have same : rankings.disk.control.sizes = base.control.sizes := by
    rw [removed.sizes]
    funext l
    simp [Disk.sizesAfter]
  rw [Rankings.decrementCounter, same]
  cases counting : rankings.countLists with
  | false => exact ⟨since, removed⟩
  | true =>
    simp only [Bool.not_true, Bool.false_eq_true, if_false, Bool.true_and]
    split
    · rename_i positive
      rw [decide_eq_true positive]
      have wf : WellFormed ((Store.size list (base.control.sizes list - 1)).apply rankings.disk)
          (lists.put list ((lists list).erase r)) :=
        removed.wf.congr rfl rfl (fun l b _ => ⟨rfl, rfl⟩) removed.wf.sane
      refine ⟨_, removed.persist (.size list (base.control.sizes list - 1)) (by simp [Store.counts]) wf
        removed.out (.inr transaction) ?_⟩
      funext l
      simp only [Store.apply, Disk.sizesAfter, same, and_true]
      split
      · rename_i here
        rw [here]
        rfl
      · rfl
    · rename_i none_counted
      rw [decide_eq_false none_counted]
      exact ⟨since, removed⟩

end Steps

section Ends

variable (wf : WellFormed base lists) (inside : r ∈ lists list) {start : Disk}
  {earlier since : List Store} {rankings : Rankings}

structure Neighbours (base : Disk) (r : CacheAddr) (prev next : Block) (rankings : Rankings) : Prop where
  prev_address : prev.address = (base.node r).prev
  next_address : next.address = (base.node r).next
  prev_linked : (prev.data rankings).Linked (base.node (base.node r).prev).prev
    (if (base.node r).prev = r then (base.node r).next
      else if (base.node r).next = r then (base.node r).prev else (base.node r).next)
  next_linked : (next.data rankings).Linked
    (if (base.node r).next = r then (base.node r).prev
      else if (base.node r).prev = r then (base.node r).next else (base.node r).prev)
    (base.node (base.node r).next).next

structure Bridging (base : Disk) (r : CacheAddr) (prev next : Block) (rankings : Rankings) : Prop where
  prev_address : prev.address = (base.node r).prev
  next_address : next.address = (base.node r).next
  prev_linked : (prev.data rankings).Linked (base.node (base.node r).prev).prev (base.node r).next
  next_linked : (next.data rankings).Linked (base.node r).prev (base.node (base.node r).next).next
include wf inside

theorem bridging_of {prev next : Block} (prev_address : prev.address = (base.node r).prev)
    (next_address : next.address = (base.node r).next)
    (prev_links : (prev.data rankings).prev = (base.node (base.node r).prev).prev)
    (prev_sane : (prev.data rankings).Sane)
    (next_links : (next.data rankings).next = (base.node (base.node r).next).next)
    (next_sane : (next.data rankings).Sane) :
    let one := prev.write { prev.data rankings with next := next.address } rankings
    let two := next.write { next.data one.1 with prev := one.2.address } one.1
    Bridging base r one.2 two.2 two.1 := by
  intro one two
  -- both are the node itself where they have one buffer
  have alone : next.address = prev.address → (base.node r).prev = r ∧ (base.node r).next = r := by
    intro same
    rw [next_address, prev_address] at same
    have prev_r := wf.neighbours inside same.symm
    exact ⟨prev_r, same.trans prev_r⟩
  have next_one : (next.data one.1).next = (base.node (base.node r).next).next ∧ (next.data one.1).Sane := by
    have its := data_write prev { prev.data rankings with next := next.address } rankings next
    split at its
    · rename_i same
      obtain ⟨-, next_r⟩ := alone same.2.2
      refine ⟨?_, ?_⟩
      · rw [its]
        simp only [next_address, next_r]
      · rw [its]
        exact ⟨prev_sane.contents, prev_sane.lastUsed, prev_sane.lastModified⟩
    · exact ⟨by rw [its, next_links], by rw [its]; exact next_sane⟩
  have one_address : one.2.address = (base.node r).prev := by rw [write_address, prev_address]
  have one_data : one.2.data one.1 = { prev.data rankings with next := next.address } :=
    data_write_self ..
  refine ⟨one_address, ?_, ?_, ?_⟩
  · rw [write_address, next_address]
  · have its := data_write next { next.data one.1 with prev := one.2.address } one.1 one.2
    split at its
    · rename_i same
      obtain ⟨prev_r, next_r⟩ := alone (by rw [← same.2.2, write_address])
      have result : one.2.data two.1 = { next.data one.1 with prev := one.2.address } := its
      rw [result]
      refine ⟨?_, ?_, next_one.2.contents, next_one.2.lastUsed, next_one.2.lastModified⟩
      · simp only [one_address, prev_r]
      · simp only [next_one.1, next_r]
    · have result : one.2.data two.1 = one.2.data one.1 := its
      rw [result, one_data]
      exact ⟨prev_links, next_address, prev_sane.contents, prev_sane.lastUsed, prev_sane.lastModified⟩
  · have result : two.2.data two.1 = { next.data one.1 with prev := one.2.address } :=
      data_write_self ..
    rw [result]
    exact ⟨one_address, next_one.1, next_one.2.contents, next_one.2.lastUsed, next_one.2.lastModified⟩

theorem Removing.removeEnd
    (removing : Removing base lists list r start earlier since false false false false rankings)
    (heads : rankings.heads = base.control.heads) (tails : rankings.tails = base.control.tails)
    {prev next : Block} (bridging : Bridging base r prev next rankings) :
    ∃ rankings' prev' next' since', rankings.removeEnd r prev next list = (rankings', prev', next') ∧
      Removing base lists list r start earlier since' true true (decide ((base.node r).next = r))
        false rankings' ∧
      Neighbours base r prev' next' rankings' ∧
      (prev'.buffer = .shared ↔ prev.buffer = .shared) ∧
      (next'.buffer = .shared ↔ next.buffer = .shared) ∧
      rankings'.heads = rankings'.disk.control.heads ∧ rankings'.tails = rankings'.disk.control.tails ∧
      rankings'.countLists = rankings.countLists ∧
      ∀ a, (rankings.openEntries a).isSome = true → (rankings'.openEntries a).isSome = true := by
  have head_word : rankings.heads list = r ↔ (base.node r).prev = r := by
    rw [heads]
    exact wf.is_head inside
  have tail_word : rankings.tails list = r ↔ (base.node r).next = r := by
    rw [tails]
    exact wf.is_tail inside
  have nonzero : r ≠ 0 := isBlock_ne_zero (wf.blocks list r inside)
  have disk_heads := removing.links.heads
  have disk_tails := removing.links.tails
  simp only [Bool.false_eq_true, false_and, if_false] at disk_heads disk_tails
  have same_heads : rankings.heads = rankings.disk.control.heads := by
    rw [heads]
    exact funext fun l => (disk_heads l).symm
  have same_tails : rankings.tails = rankings.disk.control.tails := by
    rw [tails]
    exact funext fun l => (disk_tails l).symm
  by_cases first : (base.node r).prev = r
  · by_cases last : (base.node r).next = r
    · -- the only node
      have at_head : r = rankings.heads list := (head_word.mpr first).symm
      have at_both : rankings.heads list = rankings.tails list := by
        rw [← at_head, tail_word.mpr last]
      rw [Rankings.removeEnd, if_pos (.inl at_head), if_pos at_both]
      let bare := (rankings.setHead list 0).setTail list 0
      have zero : ¬ (0 = r) := fun same => nonzero same.symm
      have headed : Removing base lists list r start earlier (since ++ [.head list 0]) true false false
          false (bare.persist (.head list 0)) := by
        refine (removing.same rfl rfl : Removing base lists list r start earlier since false false false
          false bare).persist _ (by simp [Store.completes, zero]) rfl
          ⟨fun l => ?_, removing.links.tails, removing.links.sizes, removing.links.before,
            removing.links.behind, removing.links.node, removing.links.sane⟩ removing.transaction
        simp only [Store.apply, true_and]
        by_cases here : l = list
        · subst here
          rw [if_pos rfl, if_pos ⟨rfl, by rw [← heads]; exact at_head.symm⟩, if_pos last]
        · rw [if_neg here, if_neg (fun both => here both.1)]
          exact disk_heads l
      have tailed : Removing base lists list r start earlier
          ((since ++ [.head list 0]) ++ [.tail list 0]) true true false false
          ((bare.persist (.head list 0)).persist (.tail list 0)) := by
        refine headed.persist _ rfl rfl
          ⟨headed.links.heads, fun l => ?_, headed.links.sizes, headed.links.before,
            headed.links.behind, headed.links.node, headed.links.sane⟩ headed.transaction
        simp only [Store.apply, true_and]
        by_cases here : l = list
        · subst here
          rw [if_pos rfl, if_pos ⟨rfl, by rw [← tails]; exact tail_word.mpr last⟩, if_pos first]
        · rw [if_neg here, if_neg (fun both => here both.1)]
          exact disk_tails l
      have word_head : bare.heads list = 0 := by simp [bare, Rankings.setHead, Rankings.setTail]
      have word_tail : (bare.persist (.head list 0)).tails list = 0 := by
        simp [bare, Rankings.setTail, Rankings.persist]
      have written : (bare.writeHead list).writeTail list =
          (bare.persist (.head list 0)).persist (.tail list 0) := by
        rw [Rankings.writeHead, word_head, Rankings.writeTail, word_tail]
      refine ⟨(bare.persist (.head list 0)).persist (.tail list 0), prev, next, _, ?_,
        tailed.more (.inl rfl) (.inl rfl) (.inr first) (.inl rfl),
        ⟨bridging.prev_address, bridging.next_address, ?_, ?_⟩, Iff.rfl, Iff.rfl, ?_, ?_, rfl,
        fun _ opened => opened⟩
      · exact Prod.ext written rfl
      · rw [if_pos first]
        exact bridging.prev_linked
      · rw [if_pos last]
        exact bridging.next_linked
      · simp only [bare, Rankings.persist, Store.apply, Rankings.setHead, Rankings.setTail, same_heads]
      · simp only [bare, Rankings.persist, Store.apply, Rankings.setHead, Rankings.setTail, same_tails]
    · -- the head
      have at_head : r = rankings.heads list := (head_word.mpr first).symm
      have not_tail : rankings.tails list ≠ r := fun same => last (tail_word.mp same)
      have not_both : ¬ rankings.heads list = rankings.tails list := by
        rw [← at_head]
        exact Ne.symm not_tail
      rw [Rankings.removeEnd, if_pos (.inl at_head), if_neg not_both, if_pos at_head]
      let set := rankings.setHead list next.address
      let data : RankingsNode := { next.data set with prev := next.address }
      have same_data : next.data set = next.data rankings := data_congr next rankings rfl rfl
      have not_r : ¬ next.address = r := by
        rw [bridging.next_address]
        exact last
      have mid : Removing base lists list r start earlier since false false false false
          (next.write data set).1 := removing.same (write_disk ..) (write_written ..)
      have word : (next.write data set).1.heads list = next.address := by
        simp [set, Rankings.setHead]
      have mid_heads := mid.links.heads
      simp only [Bool.false_eq_true, false_and, if_false] at mid_heads
      have headed : Removing base lists list r start earlier (since ++ [.head list next.address]) true
          false false false ((next.write data set).1.persist (.head list next.address)) := by
        refine mid.persist _ (by simp [Store.completes, not_r]) rfl
          ⟨fun l => ?_, mid.links.tails, mid.links.sizes, mid.links.before, mid.links.behind,
            mid.links.node, mid.links.sane⟩ mid.transaction
        simp only [Store.apply, true_and]
        by_cases here : l = list
        · subst here
          rw [if_pos rfl, if_pos ⟨rfl, by rw [← heads]; exact at_head.symm⟩, if_neg last, bridging.next_address]
        · rw [if_neg here, if_neg (fun both => here both.1)]
          exact mid_heads l
      have prev_apart : ¬ prev.Alias next := fun both => last (by
        rw [← bridging.next_address, ← both.2.2, bridging.prev_address, first])
      have prev_data : prev.data (next.write data set).1 = prev.data rankings := by
        rw [data_write next data set prev, if_neg prev_apart]
        exact data_congr prev rankings rfl rfl
      refine ⟨(next.write data set).1.persist (.head list next.address), prev, (next.write data set).2, _, ?_,
        headed.more (.inl rfl) (.inr ?_) (.inr first) (.inl rfl),
        ⟨bridging.prev_address, ?_, ?_, ?_⟩, Iff.rfl, write_shared .., ?_, ?_,
        write_countLists .., fun _ opened => write_opened next data set opened⟩
      · have written : (next.write data set).1.writeHead list =
            (next.write data set).1.persist (.head list next.address) := by
          rw [Rankings.writeHead, word]
        exact Prod.ext written rfl
      · rw [← tails]
        exact not_tail
      · rw [write_address, bridging.next_address]
      · rw [if_pos first]
        have its : prev.data ((next.write data set).1.persist (.head list next.address)) =
            prev.data rankings := prev_data
        rw [its]
        exact bridging.prev_linked
      · rw [if_neg last, if_pos first]
        have its : (next.write data set).2.data
            ((next.write data set).1.persist (.head list next.address)) = data := data_write_self ..
        have linked := bridging.next_linked
        rw [its]
        refine ⟨?_, ?_, ?_⟩
        · simp only [data, bridging.next_address]
        · simp only [data, same_data]
          exact linked.next
        · simp only [data, same_data]
          exact ⟨linked.sane.contents, linked.sane.lastUsed, linked.sane.lastModified⟩
      · simp only [Rankings.persist, Store.apply, write_heads, write_disk, set, Rankings.setHead, same_heads]
      · simp only [Rankings.persist, Store.apply, write_tails, write_disk, set, Rankings.setHead, same_tails]
  · by_cases last : (base.node r).next = r
    · -- the tail
      have not_head : rankings.heads list ≠ r := fun same => first (head_word.mp same)
      have at_tail : r = rankings.tails list := (tail_word.mpr last).symm
      have not_both : ¬ rankings.heads list = rankings.tails list := by
        rw [← at_tail]
        exact not_head
      rw [Rankings.removeEnd, if_pos (.inr at_tail), if_neg not_both, if_neg (Ne.symm not_head)]
      let set := rankings.setTail list prev.address
      let data : RankingsNode := { prev.data set with next := prev.address }
      have same_data : prev.data set = prev.data rankings := data_congr prev rankings rfl rfl
      have mid : Removing base lists list r start earlier since false false false false
          (prev.write data set).1 := removing.same (write_disk ..) (write_written ..)
      have word : (prev.write data set).1.tails list = prev.address := by
        simp [set, Rankings.setTail]
      have mid_tails := mid.links.tails
      simp only [Bool.false_eq_true, false_and, if_false] at mid_tails
      have tailed : Removing base lists list r start earlier (since ++ [.tail list prev.address]) false
          true false false ((prev.write data set).1.persist (.tail list prev.address)) := by
        refine mid.persist _ rfl rfl
          ⟨mid.links.heads, fun l => ?_, mid.links.sizes, mid.links.before, mid.links.behind,
            mid.links.node, mid.links.sane⟩ mid.transaction
        simp only [Store.apply, true_and]
        by_cases here : l = list
        · subst here
          rw [if_pos rfl, if_pos ⟨rfl, by rw [← tails]; exact at_tail.symm⟩, if_neg first, bridging.prev_address]
        · rw [if_neg here, if_neg (fun both => here both.1)]
          exact mid_tails l
      have linked : data.Linked (base.node (base.node r).prev).prev (base.node r).prev := by
        have before := bridging.prev_linked
        refine ⟨?_, ?_, ?_⟩
        · simp only [data, same_data]
          exact before.prev
        · simp only [data, bridging.prev_address]
        · simp only [data, same_data]
          exact ⟨before.sane.contents, before.sane.lastUsed, before.sane.lastModified⟩
      have stored : Removing base lists list r start earlier
          ((since ++ [.tail list prev.address]) ++ [.node (base.node r).prev data]) false true true
          false (((prev.write data set).1.persist (.tail list prev.address)).persist
            (.node (base.node r).prev data)) := by
        refine tailed.persist _ (by simp [Store.completes, first]) rfl
          (tailed.links.storePrev first ?_ (fun same => first ?_)) tailed.transaction
        · rw [if_pos last]
          exact linked
        · rw [← same, last]
      have next_apart : ¬ next.Alias prev := fun both => first (by
        rw [← bridging.prev_address, ← both.2.2, bridging.next_address, last])
      have next_data : next.data (prev.write data set).1 = next.data rankings := by
        rw [data_write prev data set next, if_neg next_apart]
        exact data_congr next rankings rfl rfl
      let done := ((prev.write data set).1.persist (.tail list prev.address)).persist
        (.node (base.node r).prev data)
      have prev_done : (prev.write data set).2.data done = data := by
        have its : (prev.write data set).2.data
            ((prev.write data set).1.persist (.tail list prev.address)) = data := data_write_self ..
        have again := data_stored its
        rw [write_address] at again
        simp only [done]
        rw [← bridging.prev_address]
        exact again
      have next_done : next.data done = next.data rankings := by
        refine Eq.trans (data_stored_other ?_ data _) next_data
        rw [bridging.next_address, last]
        exact Ne.symm first
      have written : (prev.write data set).2.store ((prev.write data set).1.writeTail list) = done := by
        rw [Rankings.writeTail, word, Block.store, write_address, bridging.prev_address]
        have its : (prev.write data set).2.data
            ((prev.write data set).1.persist (.tail list (base.node r).prev)) = data :=
          data_write_self ..
        rw [its]
        simp only [done, bridging.prev_address]
      refine ⟨done, (prev.write data set).2, next, _, ?_, stored.more (.inr ?_) (.inl rfl)
        (.inl (decide_eq_true last)) (.inl rfl), ⟨?_, bridging.next_address, ?_, ?_⟩,
        write_shared .., Iff.rfl, ?_, ?_, write_countLists ..,
        fun _ opened => write_opened prev data set opened⟩
      · exact Prod.ext written rfl
      · rw [← heads]
        exact not_head
      · rw [write_address, bridging.prev_address]
      · rw [if_neg first, if_pos last, prev_done]
        exact linked
      · rw [if_pos last, next_done]
        exact bridging.next_linked
      · simp only [done, Rankings.persist, Store.apply, write_heads, write_disk, set, Rankings.setTail,
          same_heads]
      · simp only [done, Rankings.persist, Store.apply, write_tails, write_disk, set, Rankings.setTail,
          same_tails]
    · -- neither end
      have not_end : ¬ (r = rankings.heads list ∨ r = rankings.tails list) := by
        rintro (is_head | is_tail)
        · exact first (head_word.mp is_head.symm)
        · exact last (tail_word.mp is_tail.symm)
      rw [Rankings.removeEnd, if_neg not_end]
      refine ⟨_, _, _, since, rfl, ?_, ⟨bridging.prev_address, bridging.next_address, ?_, ?_⟩, Iff.rfl,
        Iff.rfl, same_heads, same_tails, rfl, fun _ opened => opened⟩
      · rw [decide_eq_false last]
        refine removing.more (.inr ?_) (.inr ?_) (.inl rfl) (.inl rfl)
        · rw [← heads]
          exact fun same => first (head_word.mp same)
        · rw [← tails]
          exact fun same => last (tail_word.mp same)
      · rw [if_neg first, if_neg last]
        exact bridging.prev_linked
      · rw [if_neg first, if_neg last]
        exact bridging.next_linked

theorem Removing.storeAll {node prev next : Block} (address : node.address = r)
    (removing : Removing base lists list r start earlier since true true
      (decide ((base.node r).next = r)) false rankings)
    (neighbours : Neighbours base r prev next rankings)
    (prev_opened : prev.buffer = .shared → (rankings.openEntries prev.address).isSome = true)
    (alike : prev.address = next.address → (prev.buffer = .shared ↔ next.buffer = .shared)) :
    let gone := node.write { node.data rankings with next := 0, prev := 0 } rankings
    ∃ since', Removed base lists list r start earlier since' false
        (gone.2.store (prev.store (next.store gone.1))) ∧
      (gone.2.store (prev.store (next.store gone.1))).disk.InFlight .remove list r := by
  intro gone
  have apart : ¬ (base.node r).next = r ∨ ¬ (base.node r).prev = r →
      (base.node r).next ≠ (base.node r).prev := by
    intro other same
    have prev_r := wf.neighbours inside same.symm
    rcases other with other | other
    · exact other (same.trans prev_r)
    · exact other prev_r
  let bare : RankingsNode := { node.data rankings with next := 0, prev := 0 }
  have removing' : Removing base lists list r start earlier since true true
      (decide ((base.node r).next = r)) false gone.1 := removing.same (write_disk ..) (write_written ..)
  have next_read : next.data gone.1 = if next.Alias node then bare else next.data rankings :=
    data_write node bare rankings next
  have prev_read : prev.data gone.1 = if prev.Alias node then bare else prev.data rankings :=
    data_write node bare rankings prev
  have next_store : next.store gone.1 = gone.1.persist (.node (base.node r).next (next.data gone.1)) := by
    rw [Block.store, neighbours.next_address]
  have prev_store : prev.store (next.store gone.1) =
      (next.store gone.1).persist (.node (base.node r).prev (prev.data gone.1)) := by
    rw [Block.store, neighbours.prev_address, next_store,
      data_persist (fun shared => write_opened node bare rankings (prev_opened shared))]
  have node_read : gone.2.data gone.1 = bare := data_write_self ..
  have node_store : gone.2.store (prev.store (next.store gone.1)) =
      (prev.store (next.store gone.1)).persist (.node r bare) := by
    have opened : gone.2.buffer = .shared → (gone.1.openEntries gone.2.address).isSome = true := by
      intro shared
      have kind : node.buffer = .shared := (write_shared node bare rankings).mp shared
      rw [write_address]
      simp only [gone, Block.write, kind, if_true, Option.isSome_some]
    have later : gone.2.data (prev.store (next.store gone.1)) = bare := by
      rw [prev_store, next_store, data_persist, data_persist opened]
      · exact node_read
      · exact opened
    rw [Block.store, later, write_address, address]
  -- behind the store of the next node
  have after_next : (∃ since', Removing base lists list r start earlier since' true true
        (decide ((base.node r).next = r)) true (next.store gone.1)) ∨
      (base.node r).next = r ∧ next.Alias node ∧
        ∃ since', Removed base lists list r start earlier since' false (next.store gone.1) := by
    rw [next_store]
    by_cases last : (base.node r).next = r
    · rw [last]
      by_cases same : next.Alias node
      · have all : Removing base lists list r start earlier since true true true true gone.1 :=
          removing'.more (.inl rfl) (.inl rfl) (.inl (decide_eq_true last).symm) (.inr last)
        have zero : (next.data gone.1).prev = 0 ∧ (next.data gone.1).next = 0 := by
          rw [next_read, if_pos same]
          exact ⟨rfl, rfl⟩
        have removed := all.complete wf inside zero
        exact .inr ⟨rfl, same, _, removed⟩
      · have linked : (next.data gone.1).Linked (base.node r).prev (base.node r).next := by
          rw [next_read, if_neg same]
          have its := neighbours.next_linked
          rw [if_pos last, last] at its
          exact its
        have incomplete : (Store.node r (next.data gone.1)).completes r = false := by
          have nonzero := isBlock_ne_zero (wf.blocks list _ (wf.linked inside).1)
          simp [Store.completes, linked.prev, nonzero]
        have stored := removing'.persist _ incomplete rfl (removing'.links.storeNode false linked)
          removing'.transaction
        have counted : Removing base lists list r start earlier _ true true (decide (r = r)) true _ :=
          stored.more (.inl rfl) (.inl rfl) (.inl (by rw [last])) (.inr last)
        exact .inl ⟨_, counted⟩
    · have not_alias : ¬ next.Alias node := fun both => last (by
        rw [← neighbours.next_address, both.2.2, address])
      have linked : (next.data gone.1).Linked
          (if (base.node r).prev = r then (base.node r).next else (base.node r).prev)
          (base.node (base.node r).next).next := by
        rw [next_read, if_neg not_alias]
        have its := neighbours.next_linked
        rw [if_neg last] at its
        exact its
      have stored := removing'.persist (.node (base.node r).next (next.data gone.1))
        (by simp [Store.completes, last]) rfl
        (removing'.links.storeNext last linked (apart (.inl last))) removing'.transaction
      exact .inl ⟨_, stored⟩
  -- behind the store of the previous node
  have after_prev : (∃ since', Removing base lists list r start earlier since' true true true true
        (prev.store (next.store gone.1))) ∨
      ∃ since', Removed base lists list r start earlier since' false (prev.store (next.store gone.1)) := by
    rw [prev_store]
    rcases after_next with ⟨since', removing''⟩ | ⟨last, same, since', removed⟩
    · by_cases first : (base.node r).prev = r
      · rw [first]
        have all : Removing base lists list r start earlier since' true true true true (next.store gone.1) :=
          removing''.more (.inl rfl) (.inl rfl) (.inr first) (.inl rfl)
        by_cases same : prev.Alias node
        · have zero : (prev.data gone.1).prev = 0 ∧ (prev.data gone.1).next = 0 := by
            rw [prev_read, if_pos same]
            exact ⟨rfl, rfl⟩
          exact .inr ⟨_, all.complete wf inside zero⟩
        · have linked : (prev.data gone.1).Linked (base.node r).prev (base.node r).next := by
            rw [prev_read, if_neg same]
            have its := neighbours.prev_linked
            rw [if_pos first, first] at its
            exact its
          have incomplete : (Store.node r (prev.data gone.1)).completes r = false := by
            have nonzero := isBlock_ne_zero (wf.blocks list _ (wf.linked inside).1)
            simp [Store.completes, linked.prev, nonzero]
          exact .inl ⟨_, all.persist _ incomplete rfl (all.links.storeNode false linked) all.transaction⟩
      · have not_alias : ¬ prev.Alias node := fun both => first (by
          rw [← neighbours.prev_address, both.2.2, address])
        have linked : (prev.data gone.1).Linked (base.node (base.node r).prev).prev
            (if (base.node r).next = r then (base.node r).prev else (base.node r).next) := by
          rw [prev_read, if_neg not_alias]
          have its := neighbours.prev_linked
          rw [if_neg first] at its
          exact its
        exact .inl ⟨_, removing''.persist (.node (base.node r).prev (prev.data gone.1))
          (by simp [Store.completes, first]) rfl
          (removing''.links.storePrev first linked (apart (.inr first))) removing''.transaction⟩
    · have flight : (next.store gone.1).disk.InFlight .remove list r := by
        rw [next_store]
        exact removing'.transaction
      by_cases first : (base.node r).prev = r
      · have same_buffer : prev.Alias node := by
          have together : prev.address = next.address := by
            rw [neighbours.prev_address, neighbours.next_address, first, last]
          exact ⟨(alike together).mpr same.1, same.2.1, together.trans same.2.2⟩
        have zero : prev.data gone.1 = bare := by rw [prev_read, if_pos same_buffer]
        rw [first, zero]
        exact .inr ⟨_, removed.again flight removed.out.1.symm removed.out.2.symm fun other => absurd rfl other⟩
      · have not_alias : ¬ prev.Alias node := fun both => first (by
          rw [← neighbours.prev_address, both.2.2, address])
        have linked := neighbours.prev_linked
        rw [if_neg first, if_pos last] at linked
        have unchanged : (next.store gone.1).disk.node (base.node r).prev =
            gone.1.disk.node (base.node r).prev := by
          rw [next_store, last]
          exact if_neg first
        have before := removing'.links.before _ first
        have behind := removing'.links.behind _ first
        have both : decide ((base.node r).next = r) = true ∧ (base.node r).prev = (base.node r).prev :=
          ⟨decide_eq_true last, rfl⟩
        rw [if_pos both, if_pos last] at before
        rw [if_neg (by simp)] at behind
        rw [prev_read, if_neg not_alias]
        refine .inr ⟨_, removed.again flight ?_ ?_ fun _ => linked.sane⟩
        · rw [unchanged, behind, linked.prev]
        · rw [unchanged, before, linked.next]
  have flight : (prev.store (next.store gone.1)).disk.InFlight .remove list r := by
    rw [prev_store, next_store]
    exact removing'.transaction
  rw [node_store]
  rcases after_prev with ⟨since', removing''⟩ | ⟨since', removed⟩
  · exact ⟨_, removing''.complete wf inside ⟨rfl, rfl⟩, flight⟩
  · exact ⟨_, removed.again flight removed.out.1.symm removed.out.2.symm fun other => absurd rfl other, flight⟩

end Ends

section Remove

variable {rankings : Rankings} {lists : Lists} (wf : WellFormed rankings.disk lists)
  {list : RankList} {node : Block} (inside : node.address ∈ lists list)

structure Linkable (node : Block) (rankings : Rankings) : Prop where
  prev : (node.data rankings).prev = (rankings.disk.node node.address).prev
  next : (node.data rankings).next = (rankings.disk.node node.address).next
include wf

theorem getRanking_linked (settled : rankings.Settled) (backed : rankings.Backed) {a : CacheAddr}
    (there : a ∈ lists list) : ∃ block, rankings.getRanking a = (rankings, some block) ∧ block.address = a ∧
      (block.data rankings).prev = (rankings.disk.node a).prev ∧
      (block.data rankings).next = (rankings.disk.node a).next ∧ (block.data rankings).Sane ∧
      (block.buffer = .shared ↔ rankings.InUse a) := by
  have linked := wf.linked there
  refine getRanking_of backed (wf.blocks list a there).initialized (wf.sane list a there)
    (isBlock_ne_zero (wf.blocks list _ linked.2)) (isBlock_ne_zero (wf.blocks list _ linked.1))
    (fun self => isHead_of list ?_) fun self => isTail_of list ?_
  · rw [settled.heads]
    exact wf.prev_self there self
  · rw [settled.tails]
    exact wf.next_self there self

omit wf in
theorem remove_found {next prev : Block}
    (next_block : (node.data (rankings.invalidateIterators node.address)).next.IsBlock)
    (prev_block : (node.data (rankings.invalidateIterators node.address)).prev.IsBlock)
    (next_ran : (rankings.invalidateIterators node.address).getRanking
      (node.data (rankings.invalidateIterators node.address)).next =
      (rankings.invalidateIterators node.address, some next))
    (prev_ran : (rankings.invalidateIterators node.address).getRanking
      (node.data (rankings.invalidateIterators node.address)).prev =
      (rankings.invalidateIterators node.address, some prev))
    (checked : (rankings.invalidateIterators node.address).checkLinks node.address prev next list = true) :
    rankings.remove node list =
      let removed := ((rankings.invalidateIterators node.address).beginTransaction node.address
        .remove list).removeNode node prev next list
      (removed.1.endTransaction, removed.2) := by
  rw [Rankings.remove]
  simp only [next_ran, prev_ran, next_block.initialized, next_block.inFile, prev_block.initialized,
    prev_block.inFile, Bool.not_true, Bool.or_self, Bool.false_eq_true, if_false, checked]

omit wf in
theorem decrementCounter_ends (ends : rankings.heads = rankings.disk.control.heads ∧
      rankings.tails = rankings.disk.control.tails) (list : RankList) :
    (rankings.decrementCounter list).heads = (rankings.decrementCounter list).disk.control.heads ∧
      (rankings.decrementCounter list).tails = (rankings.decrementCounter list).disk.control.tails := by
  rw [Rankings.decrementCounter]
  repeat' split
  all_goals exact ends

/-- `removeNode` behind the ends of the list. -/
def removeBehind (node : Block) (list : RankList) (ended : Rankings × Block × Block) : Rankings × Block :=
  let gone := node.write { node.data ended.1 with next := 0, prev := 0 } ended.1
  let stored := gone.2.store (ended.2.1.store (ended.2.2.store gone.1))
  (((stored.decrementCounter list).updateIterators ended.2.2).updateIterators ended.2.1, gone.2)
include inside

theorem remove_points (settled : rankings.Settled) (backed : rankings.Backed)
    (linkable : Linkable node rankings) :
    ∃ since, Removed rankings.disk lists list node.address rankings.disk rankings.written since
        (rankings.countLists && decide (0 < rankings.disk.control.sizes list))
        (rankings.remove node list).1 ∧ (rankings.remove node list).1.Settled := by
  generalize at_r : node.address = r at inside
  let quiet := rankings.invalidateIterators node.address
  have settled' : quiet.Settled := ⟨settled.idle, settled.heads, settled.tails⟩
  have backed' : quiet.Backed := backed
  have linked := wf.linked inside
  have next_is : (node.data quiet).next = (rankings.disk.node r).next := at_r ▸ linkable.next
  have prev_is : (node.data quiet).prev = (rankings.disk.node r).prev := at_r ▸ linkable.prev
  obtain ⟨next, next_ran, next_address, next_prev, next_next, next_sane, next_kind⟩ :=
    @getRanking_linked quiet lists wf list settled' backed' _ linked.2
  obtain ⟨prev, prev_ran, prev_address, prev_prev, prev_next, prev_sane, prev_kind⟩ :=
    @getRanking_linked quiet lists wf list settled' backed' _ linked.1
  have next_block := wf.blocks list _ linked.2
  have prev_block := wf.blocks list _ linked.1
  have checked : quiet.checkLinks r prev next list = true := by
    rw [Rankings.checkLinks, prev_next, next_prev]
    have in_front : (rankings.disk.node (rankings.disk.node r).prev).next = r ∨ quiet.heads list = r := by
      by_cases first : (rankings.disk.node r).prev = r
      · exact .inr ((congrFun settled.heads list).trans ((wf.is_head inside).mpr first))
      · exact .inl (wf.prev_next inside first)
    have at_back : (rankings.disk.node (rankings.disk.node r).next).prev = r ∨ quiet.tails list = r := by
      by_cases last : (rankings.disk.node r).next = r
      · exact .inr ((congrFun settled.tails list).trans ((wf.is_tail inside).mpr last))
      · exact .inl (wf.next_prev inside last)
    simp only [Bool.not_eq_true', Bool.or_eq_false_iff, Bool.and_eq_false_iff, decide_eq_false_iff_not,
      Decidable.not_not, ne_eq]
    exact ⟨in_front, at_back⟩
  let begun := quiet.beginTransaction r .remove list
  have removing : ∃ since, Removing rankings.disk lists list r rankings.disk rankings.written since
      false false false false begun := by
    have none : Traced quiet.disk (RemovePoint rankings.disk lists list r) quiet.written [] quiet :=
      .nothing (.before rfl rfl wf settled.idle rfl)
    have wf_one : WellFormed (quiet.persist (.operation .remove)).disk lists :=
      wf.congr rfl rfl (fun _ _ _ => ⟨rfl, rfl⟩) wf.sane
    have one := none.persist (.operation .remove) (.before rfl rfl wf_one settled.idle rfl)
    have wf_two : WellFormed ((Store.operationList list).apply
        (quiet.persist (.operation .remove)).disk) lists :=
      wf.congr rfl rfl (fun _ _ _ => ⟨rfl, rfl⟩) wf.sane
    have two := one.persist (.operationList list) (.before rfl rfl wf_two settled.idle rfl)
    have links : Unlinked rankings.disk list r false false false false false begun.disk :=
      ⟨fun l => by rw [if_neg (by simp)]; rfl, fun l => by rw [if_neg (by simp)]; rfl, rfl,
        fun a _ => by rw [if_neg (by simp)]; rfl, fun a _ => by rw [if_neg (by simp)]; rfl,
        ⟨rfl, rfl, fun sane => sane⟩, fun _ _ sane => sane⟩
    have three := two.persist (.transaction r) (.during (by simp [Store.completes])
      (by simp [Store.counts]) false false false false links ⟨rfl, rfl, rfl⟩)
    exact ⟨_, three, by simp [Store.completes], by simp [Store.counts], links, ⟨rfl, rfl, rfl⟩⟩
  obtain ⟨since, removing⟩ := removing
  have bridging := @bridging_of rankings.disk lists list r wf inside begun prev next prev_address
    next_address prev_prev prev_sane next_next next_sane
  let one := prev.write { prev.data begun with next := next.address } begun
  let two := next.write { next.data one.1 with prev := one.2.address } one.1
  have written : Removing rankings.disk lists list r rankings.disk rankings.written since false false
      false false two.1 :=
    removing.same ((write_disk ..).trans (write_disk ..)) ((write_written ..).trans (write_written ..))
  have heads : two.1.heads = rankings.disk.control.heads :=
    ((write_heads ..).trans (write_heads ..)).trans settled.heads
  have tails : two.1.tails = rankings.disk.control.tails :=
    ((write_tails ..).trans (write_tails ..)).trans settled.tails
  obtain ⟨ended, prev', next', since', ran, removing', neighbours, prev_kind', next_kind', heads',
    tails', count, opened⟩ := written.removeEnd wf inside heads tails bridging
  have prev_opened : prev'.buffer = .shared → (ended.openEntries prev'.address).isSome = true := by
    intro shared
    have in_use := prev_kind.mp ((write_shared ..).mp (prev_kind'.mp shared))
    rw [neighbours.prev_address]
    exact opened _ (write_opened _ _ _ (write_opened _ _ _ in_use.1))
  have alike : prev'.address = next'.address → (prev'.buffer = .shared ↔ next'.buffer = .shared) := by
    intro together
    rw [neighbours.prev_address, neighbours.next_address] at together
    rw [prev_kind', next_kind', write_shared, write_shared, prev_kind, next_kind, together]
  obtain ⟨since'', removed, flight⟩ := removing'.storeAll wf inside at_r neighbours prev_opened alike
  obtain ⟨since3, counted⟩ := removed.decrementCounter flight
  let gone := node.write { node.data ended with next := 0, prev := 0 } ended
  let stored := gone.2.store (prev'.store (next'.store gone.1))
  let last := ((stored.decrementCounter list).updateIterators next').updateIterators prev'
  have result : (rankings.remove node list).1 = last.endTransaction := by
    have nodes : begun.removeNode node prev next list = (last, gone.2) := by
      have behind := congrArg (removeBehind node list) ran
      rw [← at_r] at behind
      exact behind
    have checked' : quiet.checkLinks node.address prev next list = true := at_r.symm ▸ checked
    have started : quiet.beginTransaction node.address .remove list = begun := by rw [at_r]
    have found := @remove_found rankings list node next prev (next_is ▸ next_block)
      (prev_is ▸ prev_block) (next_is ▸ next_ran) (prev_is ▸ prev_ran) checked'
    rw [started, nodes] at found
    exact congrArg Prod.fst found
  obtain ⟨since4, final, idle⟩ := (counted.same rfl rfl : Removed rankings.disk lists list r
    rankings.disk rankings.written since3 _ last).endTransaction
  have final_count : stored.countLists = rankings.countLists := by
    have kept : stored.countLists = ended.countLists := write_countLists ..
    rw [kept, count, write_countLists, write_countLists]
    rfl
  have same_disk : gone.1.disk = ended.disk := write_disk ..
  have ends : gone.1.heads = gone.1.disk.control.heads ∧ gone.1.tails = gone.1.disk.control.tails := by
    rw [same_disk]
    exact ⟨(write_heads ..).trans heads', (write_tails ..).trans tails'⟩
  obtain ⟨heads, tails⟩ := @decrementCounter_ends stored ends list
  rw [result]
  refine ⟨since4, ?_, idle, heads, tails⟩
  rw [← final_count]
  exact final

end Remove

end Glopen.Cache

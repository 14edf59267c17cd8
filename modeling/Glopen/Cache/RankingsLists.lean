import Glopen.Cache.Rankings

/-! The lists that the links of the nodes make, and the states of the files in which a crash can
leave an operation. -/
namespace Glopen.Cache

open Linked List

structure CacheAddr.IsBlock (addr : CacheAddr) : Prop where
  initialized : addr.isInitialized = true
  inFile : addr.isSeparateFile = false

structure RankingsNode.Sane (data : RankingsNode) : Prop where
  contents : data.contents ≠ 0
  lastUsed : data.lastUsed ≠ 0
  lastModified : data.lastModified ≠ 0

def Disk.links (disk : Disk) : Links CacheAddr :=
  ⟨fun a => (disk.node a).prev, fun a => (disk.node a).next⟩

abbrev Lists := RankList → List CacheAddr

structure WellFormed (disk : Disk) (lists : Lists) : Prop where
  head : ∀ list, disk.control.heads list = (lists list).headD 0
  tail : ∀ list, disk.control.tails list = (lists list).getLastD 0
  chain : ∀ list, Chain disk.links (lists list)
  nodup : ∀ list, (lists list).Nodup
  apart : ∀ list list' a, a ∈ lists list → a ∈ lists list' → list = list'
  blocks : ∀ list, ∀ a ∈ lists list, a.IsBlock
  sane : ∀ list, ∀ a ∈ lists list, (disk.node a).Sane

def Lists.put (lists : Lists) (list : RankList) (nodes : List CacheAddr) : Lists :=
  fun l => if l = list then nodes else lists l

theorem isBlock_ne_zero {addr : CacheAddr} (block : addr.IsBlock) : addr ≠ 0 := by
  rintro rfl
  have initialized := block.initialized
  revert initialized
  decide

section WellFormed

variable {disk : Disk} {lists : Lists} (wf : WellFormed disk lists)
include wf

theorem WellFormed.congr {disk' : Disk} (heads : disk'.control.heads = disk.control.heads)
    (tails : disk'.control.tails = disk.control.tails)
    (links : ∀ list, ∀ a ∈ lists list, (disk'.node a).prev = (disk.node a).prev ∧
      (disk'.node a).next = (disk.node a).next)
    (sane : ∀ list, ∀ a ∈ lists list, (disk'.node a).Sane) : WellFormed disk' lists where
  head := heads ▸ wf.head
  tail := tails ▸ wf.tail
  chain list := (wf.chain list).congr (links list)
  nodup := wf.nodup
  apart := wf.apart
  blocks := wf.blocks
  sane := sane

variable {list : RankList} {a : CacheAddr}

theorem WellFormed.head_none : disk.control.heads list = 0 ↔ lists list = [] := by
  rw [wf.head]
  cases nodes : lists list with
  | nil => exact ⟨fun _ => rfl, fun _ => rfl⟩
  | cons a as =>
    have block := wf.blocks list a (by simp [nodes])
    exact ⟨fun zero => absurd zero (isBlock_ne_zero block), fun none => by cases none⟩

theorem WellFormed.linked (inside : a ∈ lists list) :
    (disk.node a).prev ∈ lists list ∧ (disk.node a).next ∈ lists list := by
  obtain ⟨xs, ys, split⟩ := append_of_mem inside
  obtain ⟨prev, next⟩ := wf.chain list xs a ys split
  have prev_is : (disk.node a).prev = xs.getLastD a := prev
  have next_is : (disk.node a).next = ys.headD a := next
  rw [prev_is, next_is, split]
  constructor
  · cases xs with
    | nil => simp
    | cons x xs => exact mem_append_left _ (getLastD_mem (cons_ne_nil x xs) a)
  · cases ys with
    | nil => simp
    | cons y ys => simp

theorem WellFormed.prev_self (inside : a ∈ lists list)
    (self : (disk.node a).prev = a) : disk.control.heads list = a := by
  rw [wf.head]
  exact (wf.chain list).prev_self (wf.nodup list) inside self 0

theorem WellFormed.next_self (inside : a ∈ lists list)
    (self : (disk.node a).next = a) : disk.control.tails list = a := by
  rw [wf.tail]
  exact (wf.chain list).next_self (wf.nodup list) inside self 0

theorem WellFormed.unique {lists' : Lists} (wf' : WellFormed disk lists') : lists = lists' := by
  funext list
  have same : (lists list).headD 0 = (lists' list).headD 0 := by rw [← wf.head, wf'.head]
  cases nodes : lists list with
  | nil =>
    have none := wf'.head_none.mp (wf.head_none.mpr nodes)
    exact none.symm
  | cons a as =>
    cases nodes' : lists' list with
    | nil =>
      have none := wf.head_none.mp (wf'.head_none.mpr nodes')
      rw [none] at nodes
      cases nodes
    | cons a' as' =>
      rw [nodes, nodes', headD_cons, headD_cons] at same
      subst same
      have chain := wf.chain list
      have chain' := wf'.chain list
      have nodup := wf.nodup list
      have nodup' := wf'.nodup list
      rw [nodes] at chain nodup
      rw [nodes'] at chain' nodup'
      rw [chain.unique chain' nodup nodup']

theorem WellFormed.cons {disk' : Disk} {n : CacheAddr} {list : RankList} (block : n.IsBlock)
    (new : ∀ l, n ∉ lists l) (heads : ∀ l, disk'.control.heads l =
      if l = list then n else disk.control.heads l)
    (tails : ∀ l, disk'.control.tails l = if l = list ∧ lists list = [] then n else disk.control.tails l)
    (itself : (disk'.node n).prev = n ∧ (disk'.node n).next = (lists list).headD n)
    (prev : ∀ a, a ≠ n → (disk'.node a).prev = if (lists list).head? = some a then n else (disk.node a).prev)
    (next : ∀ a, a ≠ n → (disk'.node a).next = (disk.node a).next)
    (sane : (disk'.node n).Sane) (others : ∀ l, ∀ a ∈ lists l, (disk'.node a).Sane) :
    WellFormed disk' (lists.put list (n :: lists list)) := by
  have outside : ∀ l, l ≠ list → ∀ a ∈ lists l, (lists list).head? ≠ some a := by
    intro l other a inside first
    exact other (wf.apart l list a inside (List.mem_of_head? first))
  have not_new : ∀ l, ∀ a ∈ lists l, a ≠ n := fun l a inside same => new l (same ▸ inside)
  have members : ∀ l a, a ∈ lists.put list (n :: lists list) l → a = n ∧ l = list ∨ a ∈ lists l := by
    intro l a inside
    rw [Lists.put] at inside
    split at inside
    · rename_i same
      rcases mem_cons.mp inside with here | there
      · exact Or.inl ⟨here, same⟩
      · exact Or.inr (same ▸ there)
    · exact Or.inr inside
  refine ⟨fun l => ?_, fun l => ?_, fun l => ?_, fun l => ?_, fun l l' a inside inside' => ?_,
    fun l a inside => ?_, fun l a inside => ?_⟩
  · rw [heads, Lists.put]
    split
    · rfl
    · exact wf.head l
  · rw [tails, Lists.put]
    by_cases same : l = list
    · subst same
      rw [if_pos rfl, getLastD_cons]
      cases nodes : lists l with
      | nil => rw [if_pos ⟨rfl, rfl⟩, getLastD_nil]
      | cons a as => rw [if_neg (by simp), wf.tail, nodes, getLastD_cons, getLastD_cons]
    · rw [if_neg (fun both => same both.1), if_neg same]
      exact wf.tail l
  · rw [Lists.put]
    split
    · refine (wf.chain list).cons itself (fun a inside => ?_) (fun a inside => ?_) (wf.nodup list)
      · exact prev a (not_new list a inside)
      · exact next a (not_new list a inside)
    · rename_i other
      refine (wf.chain l).congr fun a inside => ?_
      have kept := prev a (not_new l a inside)
      rw [if_neg (outside l other a inside)] at kept
      exact ⟨kept, next a (not_new l a inside)⟩
  · rw [Lists.put]
    split
    · exact nodup_cons.mpr ⟨new list, wf.nodup list⟩
    · exact wf.nodup l
  · rcases members l a inside with ⟨rfl, rfl⟩ | there
    · rcases members l' a inside' with ⟨-, rfl⟩ | there'
      · rfl
      · exact absurd there' (new l')
    · rcases members l' a inside' with ⟨rfl, rfl⟩ | there'
      · exact absurd there (new l)
      · exact wf.apart l l' a there there'
  · rcases members l a inside with ⟨rfl, -⟩ | there
    · exact block
    · exact wf.blocks l a there
  · rcases members l a inside with ⟨rfl, -⟩ | there
    · exact sane
    · exact others l a there

theorem WellFormed.erase {disk' : Disk} {r : CacheAddr} (inside : r ∈ lists list)
    (heads : ∀ l, disk'.control.heads l = if l = list ∧ disk.control.heads l = r then
      if (disk.node r).next = r then 0 else (disk.node r).next else disk.control.heads l)
    (tails : ∀ l, disk'.control.tails l = if l = list ∧ disk.control.tails l = r then
      if (disk.node r).prev = r then 0 else (disk.node r).prev else disk.control.tails l)
    (bridged : Bridged disk.links disk'.links r) (others : ∀ l, ∀ a ∈ lists l, a ≠ r → (disk'.node a).Sane) :
    WellFormed disk' (lists.put list ((lists list).erase r)) := by
  have members : ∀ l a, a ∈ lists.put list ((lists list).erase r) l → a ∈ lists l ∧ a ≠ r := by
    intro l a gone
    rw [Lists.put] at gone
    split at gone
    · rename_i same
      rw [(wf.nodup list).mem_erase_iff] at gone
      exact ⟨same ▸ gone.2, gone.1⟩
    · rename_i other
      exact ⟨gone, fun same => other (wf.apart l list r (same ▸ gone) inside)⟩
  obtain ⟨xs, ys, split⟩ := append_of_mem inside
  have nodup := wf.nodup list
  have erased : (lists list).erase r = xs ++ ys := by
    rw [split, nodup_append] at nodup
    have outside : r ∉ xs := fun before => nodup.2.2 r before r (mem_cons_self ..) rfl
    rw [split, erase_append_right _ outside, erase_cons_head]
  obtain ⟨prev_r, next_r⟩ := wf.chain list xs r ys split
  have prev_is : (disk.node r).prev = xs.getLastD r := prev_r
  have next_is : (disk.node r).next = ys.headD r := next_r
  have nodup' := nodup
  rw [split] at nodup'
  have apart_from := nodup_append.mp nodup'
  have r_xs : r ∉ xs := fun before => apart_from.2.2 r before r (mem_cons_self ..) rfl
  have r_ys : r ∉ ys := (nodup_cons.mp apart_from.2.1).1
  refine ⟨fun l => ?_, fun l => ?_, fun l => ?_, fun l => ?_, fun l l' a gone gone' => ?_,
    fun l a gone => ?_, fun l a gone => ?_⟩
  · rw [heads, Lists.put]
    by_cases same : l = list
    · subst same
      rw [if_pos rfl, wf.head, erased, split, next_is]
      cases xs with
      | nil =>
        rw [nil_append, headD_cons, if_pos ⟨rfl, rfl⟩]
        cases ys with
        | nil => rw [headD_nil, if_pos rfl]; rfl
        | cons y ys =>
          have other : y ≠ r := fun same => r_ys (same ▸ mem_cons_self ..)
          rw [headD_cons, if_neg other]
          rfl
      | cons x xs =>
        have other : ¬ (l = l ∧ x = r) := fun both => r_xs (both.2 ▸ mem_cons_self ..)
        rw [cons_append, headD_cons, if_neg other]
        rfl
    · rw [if_neg (fun both => same both.1), if_neg same]
      exact wf.head l
  · rw [tails, Lists.put]
    by_cases same : l = list
    · subst same
      rw [if_pos rfl, wf.tail, erased, split, prev_is]
      cases ys with
      | nil =>
        rw [getLastD_concat, if_pos ⟨rfl, rfl⟩, append_nil]
        cases xs with
        | nil => rw [getLastD_nil, if_pos rfl, getLastD_nil]
        | cons x xs =>
          have other : (x :: xs).getLastD r ≠ r := fun same =>
            r_xs (same ▸ getLastD_mem (cons_ne_nil x xs) r)
          rw [if_neg other, getLastD_cons, getLastD_cons]
      | cons y ys =>
        have behind := getLastD_mem (cons_ne_nil y ys) r
        rw [getLastD_cons] at behind
        have other : ¬ (l = l ∧ ys.getLastD y = r) := fun both =>
          r_ys (both.2 ▸ behind)
        rw [getLastD_append_cons, getLastD_cons, if_neg other,
          getLastD_append_of xs (cons_ne_nil y ys) 0 r, getLastD_cons]
    · rw [if_neg (fun both => same both.1), if_neg same]
      exact wf.tail l
  · rw [Lists.put]
    split
    · rw [erased]
      have chain := wf.chain list
      rw [split] at chain
      exact chain.without nodup' bridged
    · rename_i other
      refine (wf.chain l).congr fun a there => ?_
      have linked := wf.linked inside
      have not_r : a ≠ r := fun same => other (wf.apart l list r (same ▸ there) inside)
      have not_next : a ≠ disk.links.next r := fun same =>
        other (wf.apart l list a there (same ▸ linked.2))
      have not_prev : a ≠ disk.links.prev r := fun same =>
        other (wf.apart l list a there (same ▸ linked.1))
      rw [bridged.prev a not_r, bridged.next a not_r, if_neg not_next, if_neg not_prev]
      exact ⟨rfl, rfl⟩
  · rw [Lists.put]
    split
    · exact nodup.erase r
    · exact wf.nodup l
  · exact wf.apart l l' a (members l a gone).1 (members l' a gone').1
  · exact wf.blocks l a (members l a gone).1
  · obtain ⟨there, not_r⟩ := members l a gone
    exact others l a there not_r

end WellFormed

end Glopen.Cache

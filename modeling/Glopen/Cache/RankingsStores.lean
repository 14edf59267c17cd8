import Glopen.Cache.RankingsLists

/-! The blocks of an operation, and the points between its stores at which it can be cut off. -/
namespace Glopen.Cache

open Linked List Option
variable {rankings' : Rankings} {a addr : CacheAddr} {rankings : Rankings}

section Blocks

variable (block : Block) (data : RankingsNode) (rankings : Rankings)

@[simp] theorem write_disk : (block.write data rankings).1.disk = rankings.disk := by
  rw [Block.write]
  split <;> rfl

@[simp] theorem write_written : (block.write data rankings).1.written = rankings.written := by
  rw [Block.write]
  split <;> rfl

@[simp] theorem write_heads : (block.write data rankings).1.heads = rankings.heads := by
  rw [Block.write]
  split <;> rfl

@[simp] theorem write_tails : (block.write data rankings).1.tails = rankings.tails := by
  rw [Block.write]
  split <;> rfl

@[simp] theorem write_countLists : (block.write data rankings).1.countLists = rankings.countLists := by
  rw [Block.write]
  split <;> rfl

@[simp] theorem write_iterators : (block.write data rankings).1.iterators = rankings.iterators := by
  rw [Block.write]
  split <;> rfl

@[simp] theorem write_currentEntryId :
    (block.write data rankings).1.currentEntryId = rankings.currentEntryId := by
  rw [Block.write]
  split <;> rfl

@[simp] theorem write_address : (block.write data rankings).2.address = block.address := by
  rw [Block.write]
  split <;> rfl

@[simp] theorem write_shared : (block.write data rankings).2.buffer = .shared ↔ block.buffer = .shared := by
  rw [Block.write]
  split
  · rename_i own
    simp [own]
  · rfl

@[simp] theorem data_write_self : (block.write data rankings).2.data (block.write data rankings).1 = data := by
  rw [Block.write]
  split
  · rfl
  · rename_i shared
    simp [Block.data, shared]

theorem data_congr (entries : rankings'.openEntries = rankings.openEntries)
    (node : rankings'.disk.node = rankings.disk.node) : block.data rankings' = block.data rankings := by
  rw [Block.data, Block.data, entries, node]

theorem write_opened (opened : (rankings.openEntries a).isSome = true) :
    ((block.write data rankings).1.openEntries a).isSome = true := by
  rw [Block.write]
  split
  · exact opened
  · simp only
    split
    · rfl
    · exact opened

theorem data_persist {block : Block} {rankings : Rankings}
    (opened : block.buffer = .shared → (rankings.openEntries block.address).isSome = true)
    (store : Store) : block.data (rankings.persist store) = block.data rankings := by
  rw [Block.data, Block.data]
  cases kind : block.buffer with
  | own own => rfl
  | shared =>
    obtain ⟨d, its⟩ := isSome_iff_exists.mp (opened kind)
    simp only [Rankings.persist, its, getD_some]

theorem data_stored {block : Block} {data : RankingsNode} {rankings : Rankings}
    (its : block.data rankings = data) : block.data (rankings.persist (.node block.address data)) = data := by
  rw [Block.data] at its ⊢
  cases kind : block.buffer with
  | own own =>
    rw [kind] at its
    exact its
  | shared =>
    rw [kind] at its
    simp only [Rankings.persist, Store.apply, if_true] at its ⊢
    cases opened : rankings.openEntries block.address with
    | none => rfl
    | some d =>
      rw [opened] at its
      exact its

theorem data_stored_other {block : Block} (away : block.address ≠ addr)
    (data : RankingsNode) (rankings : Rankings) :
    block.data (rankings.persist (.node addr data)) = block.data rankings := by
  rw [Block.data, Block.data]
  simp only [Rankings.persist, Store.apply, if_neg away]

def Block.Alias (block other : Block) : Prop :=
  block.buffer = .shared ∧ other.buffer = .shared ∧ block.address = other.address

instance (block other : Block) : Decidable (block.Alias other) := by
  unfold Block.Alias
  infer_instance

theorem data_write (other : Block) : other.data (block.write data rankings).1 =
    if other.Alias block then data else other.data rankings := by
  rw [Block.write]
  cases mine : block.buffer with
  | own own => rw [if_neg (fun both => by simp [Block.Alias, mine] at both)]
  | shared =>
    cases its : other.buffer with
    | own own =>
      rw [if_neg (fun both => by simp [Block.Alias, its] at both)]
      simp [Block.data, its]
    | shared =>
      by_cases same : other.address = block.address
      · simp [Block.data, Block.Alias, mine, its, same]
      · simp [Block.data, Block.Alias, its, same]

end Blocks

section Points

structure Traced (start : Disk) (point : List Store → Disk → Prop) (earlier since : List Store)
    (rankings : Rankings) : Prop where
  written : rankings.written = earlier ++ since
  disk : rankings.disk = since.foldl Store.apply start
  points : ∀ k, point (since.take k) ((since.take k).foldl Store.apply start)

variable {start : Disk} {point : List Store → Disk → Prop} {earlier since : List Store}

theorem Traced.persist (traced : Traced start point earlier since rankings) (store : Store)
    (next : point (since ++ [store]) (store.apply rankings.disk)) :
    Traced start point earlier (since ++ [store]) (rankings.persist store) where
  written := by
    simp only [Rankings.persist]
    rw [traced.written, append_assoc]
  disk := by
    simp only [Rankings.persist]
    rw [traced.disk, foldl_append]
    rfl
  points k := by
    by_cases within : k ≤ since.length
    · rw [take_append_of_le_length within]
      exact traced.points k
    · have all : (since ++ [store]).take k = since ++ [store] := by
        refine take_of_length_le ?_
        rw [length_append, length_singleton]
        omega
      rw [traced.disk] at next
      rw [all, foldl_append]
      exact next

theorem Traced.same (traced : Traced start point earlier since rankings)
    (disk : rankings'.disk = rankings.disk) (written : rankings'.written = rankings.written) :
    Traced start point earlier since rankings' where
  written := by rw [written, traced.written]
  disk := by rw [disk, traced.disk]
  points := traced.points

theorem Traced.nothing (first : point [] rankings.disk) :
    Traced rankings.disk point rankings.written [] rankings where
  written := (append_nil _).symm
  disk := rfl
  points k := by
    rw [take_nil]
    exact first

def Store.completes (n : CacheAddr) : Store → Bool
  | .head _ addr => addr = n
  | .node addr data => addr = n && data.next = 0 && data.prev = 0
  | _ => false

def Store.counts : Store → Bool
  | .size _ _ => true
  | _ => false

end Points

def Rankings.Backed (rankings : Rankings) : Prop :=
  ∀ a d, rankings.openEntries a = some d → d.prev = (rankings.disk.node a).prev ∧
    d.next = (rankings.disk.node a).next ∧ ((rankings.disk.node a).Sane → d.Sane)

theorem isHead_of (list : RankList) (head : rankings.heads list = addr) : rankings.isHead addr = true := by
  rw [Rankings.isHead, List.any_eq_true]
  refine ⟨list, ?_, decide_eq_true head.symm⟩
  cases list <;> decide

theorem isTail_of (list : RankList) (tail : rankings.tails list = addr) : rankings.isTail addr = true := by
  rw [Rankings.isTail, List.any_eq_true]
  refine ⟨list, ?_, decide_eq_true tail.symm⟩
  cases list <;> decide

def Rankings.InUse (rankings : Rankings) (a : CacheAddr) : Prop :=
  (rankings.openEntries a).isSome = true ∧ (rankings.disk.node a).dirty = rankings.currentEntryId ∧
    ¬ ((rankings.disk.node a).dirty = 0 ∧ (rankings.disk.node a).dummy = 0)

theorem getRanking_of (backed : rankings.Backed)
    (initialized : a.isInitialized = true) (sane : (rankings.disk.node a).Sane)
    (next : (rankings.disk.node a).next ≠ 0) (prev : (rankings.disk.node a).prev ≠ 0)
    (head : (rankings.disk.node a).prev = a → rankings.isHead a = true)
    (tail : (rankings.disk.node a).next = a → rankings.isTail a = true) :
    ∃ block, rankings.getRanking a = (rankings, some block) ∧ block.address = a ∧
      (block.data rankings).prev = (rankings.disk.node a).prev ∧
      (block.data rankings).next = (rankings.disk.node a).next ∧ (block.data rankings).Sane ∧
      (block.buffer = .shared ↔ rankings.InUse a) := by
  have check : rankings.sanityCheck a (rankings.disk.node a) true = true := by
    rw [Rankings.sanityCheck, if_neg sane.contents]
    rw [if_neg (by simp [sane.lastUsed, sane.lastModified]), if_neg (by simp [next, prev]),
      if_neg (by simp [next]), if_neg, if_neg]
    · simp only [Bool.and_eq_true, decide_eq_true_eq, Bool.not_eq_true', not_and, Bool.not_eq_false]
      intro self
      rw [← self]
      exact tail self.symm
    · simp only [Bool.and_eq_true, decide_eq_true_eq, Bool.not_eq_true', not_and, Bool.not_eq_false]
      intro self
      rw [← self]
      exact head self.symm
  rw [Rankings.getRanking, initialized]
  simp only [Bool.not_true, Bool.false_eq_true, if_false, check]
  split
  · rename_i clean
    simp only [Bool.and_eq_true, decide_eq_true_eq] at clean
    exact ⟨_, rfl, rfl, rfl, rfl, sane, by simp, fun in_use => absurd clean in_use.2.2⟩
  · rename_i not_clean
    simp only [Bool.and_eq_true, decide_eq_true_eq] at not_clean
    split
    · rename_i not_used
      refine ⟨_, rfl, rfl, rfl, rfl, ⟨sane.contents, sane.lastUsed, sane.lastModified⟩, by simp,
        fun in_use => ?_⟩
      simp only [Bool.or_eq_true, decide_eq_true_eq, isNone_iff_eq_none] at not_used
      rcases not_used with other | closed
      · exact absurd in_use.2.1.symm other
      · rw [Rankings.InUse, closed] at in_use
        cases in_use.1
    · rename_i in_use
      simp only [Bool.or_eq_true, decide_eq_true_eq, not_or, isNone_iff_eq_none, Decidable.not_not] at in_use
      obtain ⟨d, opened⟩ := ne_none_iff_exists'.mp in_use.2
      have its := backed a d opened
      refine ⟨_, rfl, rfl, ?_, ?_, ?_, fun _ => ⟨by rw [opened]; rfl, in_use.1.symm, not_clean⟩, fun _ => rfl⟩
      · simp only [Block.data, opened, getD_some]
        exact its.1
      · simp only [Block.data, opened, getD_some]
        exact its.2.1
      · simp only [Block.data, opened, getD_some]
        exact its.2.2 sane

end Glopen.Cache

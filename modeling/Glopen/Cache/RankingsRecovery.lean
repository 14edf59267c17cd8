import Glopen.Cache.RankingsRemove

/-! What `Init` makes of every point at which an operation can be cut off. -/
namespace Glopen.Cache

open Linked List

structure Recovered (lists : Lists) (sizes : RankList → Int) (rankings : Rankings) : Prop where
  wf : WellFormed rankings.disk lists
  settled : rankings.Settled
  sizes : rankings.disk.control.sizes = sizes

section Idle

variable {disk : Disk} {lists : Lists} (countLists : Bool) (currentEntryId : Int) (now : UInt64)

theorem init_idle (idle : disk.control.transaction = 0) :
    Rankings.init disk countLists currentEntryId now = Rankings.new disk countLists currentEntryId := by
  rw [Rankings.init, if_neg (fun open_ => open_ idle)]

theorem recovered_idle (wf : WellFormed disk lists) (idle : disk.control.transaction = 0) :
    Recovered lists disk.control.sizes (Rankings.init disk countLists currentEntryId now) := by
  rw [init_idle countLists currentEntryId now idle]
  exact ⟨wf, ⟨idle, rfl, rfl⟩, rfl⟩

theorem WellFormed.cleared (wf : WellFormed disk lists) {disk' : Disk} {n : CacheAddr}
    (heads : disk'.control.heads = disk.control.heads) (tails : disk'.control.tails = disk.control.tails)
    (nodes : disk'.node = ((Store.node n { disk.node n with dummy := 0 }).apply disk).node) :
    WellFormed disk' lists := by
  refine wf.congr heads tails (fun l a _ => ?_) fun l a inside => ?_
  · rw [nodes, node_stored]
    split
    · rename_i here
      rw [here]
      exact ⟨rfl, rfl⟩
    · exact ⟨rfl, rfl⟩
  · have sane := wf.sane l a inside
    rw [nodes, node_stored]
    split
    · rename_i here
      rw [here] at sane
      exact ⟨sane.contents, sane.lastUsed, sane.lastModified⟩
    · exact sane

end Idle

section

variable {base : Disk} {lists : Lists} (wf : WellFormed base lists) {list : RankList}

section Insert

variable {n : CacheAddr} (block : n.IsBlock) (new : ∀ l, n ∉ lists l)

theorem finish_inserted {disk : Disk} (wf' : WellFormed disk (lists.put list (n :: lists list)))
    (block : n.IsBlock) (transaction : disk.InFlight .insert list n) (countLists : Bool)
    (currentEntryId : Int) (now : UInt64) : Recovered (lists.put list (n :: lists list)) disk.control.sizes
      (Rankings.init disk countLists currentEntryId now) := by
  obtain ⟨in_flight, op, op_list⟩ := transaction
  have at_head : disk.control.heads list = n := by
    rw [wf'.head, Lists.put, if_pos rfl]
    rfl
  let cleared := (((Rankings.new disk countLists currentEntryId).persist
    (.node n { disk.node n with dummy := 0 })).persist (.transaction 0)).persist (.operation .none)
  have result : Rankings.init disk countLists currentEntryId now = cleared := by
    have at_list : cleared.disk.control.operationList = list := op_list
    have head_word : cleared.heads list = n := at_head
    rw [init_of block in_flight, op]
    simp only
    rw [Rankings.finishInsert]
    change (if cleared.heads cleared.disk.control.operationList ≠ n then _ else cleared) = _
    rw [at_list, if_neg (fun other => other head_word)]
  rw [result]
  exact ⟨wf'.cleared rfl rfl rfl, ⟨rfl, rfl, rfl⟩, rfl⟩
include wf block new

theorem InsertPoint.recovered {stores : List Store} {disk : Disk}
    (point : InsertPoint base lists list n stores disk) (countLists : Bool) (currentEntryId : Int)
    {now : UInt64} (clock : now ≠ 0) :
    let restarted := Rankings.init disk countLists currentEntryId now
    Recovered lists base.control.sizes restarted ∧ stores.any (Store.completes n) = false ∧
        stores.any Store.counts = false ∨
      Recovered (lists.put list (n :: lists list)) (base.sizesAfter list 1
          (countLists && decide (base.control.sizes list < maxSize))) restarted ∧
        stores.any (Store.completes n) = false ∧ stores.any Store.counts = false ∨
      Recovered (lists.put list (n :: lists list)) (base.sizesAfter list 1
          (stores.any Store.counts)) restarted ∧ stores.any (Store.completes n) = true := by
  intro restarted
  cases point with
  | before incomplete uncounted wf' idle sizes contents =>
    exact .inl ⟨sizes ▸ recovered_idle countLists currentEntryId now wf' idle, incomplete, uncounted⟩
  | during incomplete uncounted links transaction =>
    obtain ⟨wf', settled, sizes⟩ :=
      finish_insert wf block new links transaction countLists currentEntryId clock
    exact .inr (.inl ⟨⟨wf', settled, sizes⟩, incomplete, uncounted⟩)
  | after complete wf' transaction sizes =>
    refine .inr (.inr ⟨sizes ▸ ?_, complete⟩)
    rcases transaction with idle | flight
    · exact recovered_idle countLists currentEntryId now wf' idle
    · exact finish_inserted wf' block flight countLists currentEntryId now

end Insert

section Revert

variable {r : CacheAddr} (inside : r ∈ lists list) {head tail prev next : Bool}
include wf inside

theorem revert_ends {rankings : Rankings} (links : Unlinked base list r head tail prev next false rankings.disk)
    (heads : rankings.heads = rankings.disk.control.heads)
    (tails : rankings.tails = rankings.disk.control.tails) {p n : RankingsNode}
    (prev_linked : p.Linked (base.node (base.node r).prev).prev (base.node (base.node r).prev).next)
    (next_linked : n.Linked (base.node (base.node r).next).prev (base.node (base.node r).next).next) :
    ∃ rankings' p' n', rankings.revertEnds r ⟨(base.node r).prev, .own p⟩ ⟨(base.node r).next, .own n⟩
        list = (rankings', ⟨(base.node r).prev, .own p'⟩, ⟨(base.node r).next, .own n'⟩) ∧
      p'.Linked (base.node (base.node r).prev).prev (base.node (base.node r).prev).next ∧
      n'.Linked (base.node (base.node r).next).prev (base.node (base.node r).next).next ∧
      rankings'.disk.node = rankings.disk.node ∧
      rankings'.disk.control.sizes = rankings.disk.control.sizes ∧
      rankings'.disk.control.heads = base.control.heads ∧ rankings'.heads = base.control.heads ∧
      rankings'.disk.control.tails = base.control.tails ∧ rankings'.tails = base.control.tails := by
  have linked := wf.linked inside
  have next_block := wf.blocks list _ linked.2
  have prev_block := wf.blocks list _ linked.1
  have in_list : lists list ≠ [] := ne_nil_of_mem inside
  have head_block : (base.control.heads list).isInitialized = true := by
    rw [wf.head]
    exact (wf.blocks list _ (headD_mem in_list 0)).initialized
  have tail_block : (base.control.tails list).isInitialized = true := by
    rw [wf.tail]
    exact (wf.blocks list _ (getLastD_mem in_list 0)).initialized
  have zero : ¬ (0 : CacheAddr).isInitialized = true := by decide
  have head_word : rankings.disk.control.heads list = base.control.heads list ∨
      (base.node r).prev = r ∧ rankings.disk.control.heads list =
        if (base.node r).next = r then 0 else (base.node r).next := by
    have word := links.heads list
    split at word
    · rename_i stored
      exact .inr ⟨(wf.is_head inside).mp stored.2.2, word⟩
    · exact .inl word
  have tail_word : rankings.disk.control.tails list = base.control.tails list ∨
      (base.node r).next = r ∧ rankings.disk.control.tails list =
        if (base.node r).prev = r then 0 else (base.node r).prev := by
    have word := links.tails list
    split at word
    · rename_i stored
      exact .inr ⟨(wf.is_tail inside).mp stored.2.2, word⟩
    · exact .inl word
  have other_heads : ∀ l, l ≠ list → rankings.disk.control.heads l = base.control.heads l := by
    intro l other
    rw [links.heads, if_neg (fun all => other all.2.1)]
  have other_tails : ∀ l, l ≠ list → rankings.disk.control.tails l = base.control.tails l := by
    intro l other
    rw [links.tails, if_neg (fun all => other all.2.1)]
  have set_head : (base.node r).prev = r →
      (fun l => if l = list then r else rankings.disk.control.heads l) = base.control.heads := by
    intro first
    funext l
    split
    · rename_i here
      rw [here, (wf.is_head inside).mpr first]
    · rename_i other
      exact other_heads l other
  have set_tail : (base.node r).next = r →
      (fun l => if l = list then r else rankings.disk.control.tails l) = base.control.tails := by
    intro last
    funext l
    split
    · rename_i here
      rw [here, (wf.is_tail inside).mpr last]
    · rename_i other
      exact other_tails l other
  have keep_head : rankings.disk.control.heads list = base.control.heads list →
      rankings.disk.control.heads = base.control.heads := by
    intro word
    funext l
    by_cases here : l = list
    · rw [here, word]
    · exact other_heads l here
  have keep_tail : rankings.disk.control.tails list = base.control.tails list →
      rankings.disk.control.tails = base.control.tails := by
    intro word
    funext l
    by_cases here : l = list
    · rw [here, word]
    · exact other_tails l here
  rw [Rankings.revertEnds, heads, tails]
  split
  · -- a word is cleared, which only the single node does
    rename_i cleared
    have alone : (base.node r).prev = r ∧ (base.node r).next = r := by
      simp only [Bool.or_eq_true, Bool.not_eq_true', ← Bool.not_eq_true] at cleared
      rcases cleared with no_head | no_tail
      · rcases head_word with same | ⟨first, word⟩
        · exact absurd head_block (same ▸ no_head)
        · refine ⟨first, ?_⟩
          by_contra other
          rw [word, if_neg other] at no_head
          exact no_head next_block.initialized
      · rcases tail_word with same | ⟨last, word⟩
        · exact absurd tail_block (same ▸ no_tail)
        · refine ⟨?_, last⟩
          by_contra other
          rw [word, if_neg other] at no_tail
          exact no_tail prev_block.initialized
    refine ⟨_, p, n, rfl, prev_linked, next_linked, rfl, rfl, ?_⟩
    have both := set_head alone.1
    have both' := set_tail alone.2
    simp only [Rankings.writeHead, Rankings.writeTail, Rankings.setHead, Rankings.setTail,
      Rankings.persist, Store.apply, if_true, heads, tails]
    exact ⟨both, both, both', both'⟩
  · rename_i not_cleared
    simp only [Bool.or_eq_true, Bool.not_eq_true', ← Bool.not_eq_true, not_or, Decidable.not_not]
      at not_cleared
    split
    · -- the head word is the next node
      rename_i at_next
      have first : (base.node r).prev = r := by
        rcases head_word with same | ⟨first, -⟩
        · have is_head : (base.node (base.node r).next).prev = (base.node r).next :=
            (wf.is_head linked.2).mp (same.symm.trans at_next)
          by_cases last : (base.node r).next = r
          · rw [last] at is_head
            exact is_head
          · exact absurd ((wf.next_prev inside last).symm.trans is_head) (Ne.symm last)
        · exact first
      have tail_same : rankings.disk.control.tails list = base.control.tails list := by
        rcases tail_word with same | ⟨-, word⟩
        · exact same
        · rw [word, if_pos first] at not_cleared
          exact absurd not_cleared.2 zero
      refine ⟨_, _, n, rfl, ⟨prev_linked.prev, ?_, prev_linked.sane.contents,
        prev_linked.sane.lastUsed, prev_linked.sane.lastModified⟩, next_linked, rfl, rfl, ?_⟩
      · simp only [first]
      · have word := set_head first
        simp only [Rankings.writeHead, Rankings.setHead, Rankings.persist, Store.apply, if_true, heads, tails]
        exact ⟨word, word, keep_tail tail_same, keep_tail tail_same⟩
    · rename_i not_next
      have head_same : rankings.disk.control.heads list = base.control.heads list := by
        rcases head_word with same | ⟨-, word⟩
        · exact same
        · split at word
          · rw [word] at not_cleared
            exact absurd not_cleared.1 zero
          · exact absurd word not_next
      split
      · -- the tail word is the previous node
        rename_i at_prev
        have last : (base.node r).next = r := by
          rcases tail_word with same | ⟨last, -⟩
          · have is_tail : (base.node (base.node r).prev).next = (base.node r).prev :=
              (wf.is_tail linked.1).mp (same.symm.trans at_prev)
            by_cases first : (base.node r).prev = r
            · rw [first] at is_tail
              exact is_tail
            · exact absurd ((wf.prev_next inside first).symm.trans is_tail) (Ne.symm first)
          · exact last
        refine ⟨_, p, _, rfl, prev_linked, ⟨?_, next_linked.next, next_linked.sane.contents,
          next_linked.sane.lastUsed, next_linked.sane.lastModified⟩, rfl, rfl, ?_⟩
        · simp only [last]
        · have word := set_tail last
          simp only [Rankings.writeTail, Rankings.setTail, Rankings.persist, Store.apply, if_true, heads, tails]
          exact ⟨keep_head head_same, keep_head head_same, word, word⟩
      · rename_i not_prev
        have tail_same : rankings.disk.control.tails list = base.control.tails list := by
          rcases tail_word with same | ⟨-, word⟩
          · exact same
          · split at word
            · rw [word] at not_cleared
              exact absurd not_cleared.2 zero
            · exact absurd word not_prev
        refine ⟨_, p, n, rfl, prev_linked, next_linked, rfl, rfl, ?_⟩
        rw [heads, tails]
        exact ⟨keep_head head_same, keep_head head_same, keep_tail tail_same, keep_tail tail_same⟩

theorem revert_loaded {rankings : Rankings} {loaded : RankingsNode}
    (prev_is : loaded.prev = (base.node r).prev) (next_is : loaded.next = (base.node r).next)
    (op_list : rankings.disk.control.operationList = list) :
    let p := if r ≠ (base.node r).prev then
      { rankings.disk.node (base.node r).prev with next := r } else rankings.disk.node (base.node r).prev
    let n := if r ≠ (base.node r).next then
      { rankings.disk.node (base.node r).next with prev := r } else rankings.disk.node (base.node r).next
    rankings.revertRemove ⟨r, .own loaded⟩ =
      let ended := rankings.revertEnds r ⟨(base.node r).prev, .own p⟩ ⟨(base.node r).next, .own n⟩ list
      ((ended.2.1.store (ended.2.2.store ended.1)).persist (.transaction 0)).persist (.operation .none) := by
  intro p n
  have linked := wf.linked inside
  have next_block := wf.blocks list _ linked.2
  have prev_block := wf.blocks list _ linked.1
  rw [Rankings.revertRemove]
  simp only [Block.data, prev_is, next_is, next_block.initialized, prev_block.initialized,
    next_block.inFile, prev_block.inFile, Bool.not_true, Bool.or_self, Bool.false_eq_true, if_false,
    Block.load, Block.write]
  by_cases first : r = (base.node r).prev
  · by_cases last : r = (base.node r).next
    · simp only [p, n, if_neg (not_not_intro first), if_neg (not_not_intro last), op_list]
    · simp only [p, n, if_neg (not_not_intro first), if_pos (show r ≠ _ from last), op_list]
  · by_cases last : r = (base.node r).next
    · simp only [p, n, if_pos (show r ≠ _ from first), if_neg (not_not_intro last), op_list]
    · simp only [p, n, if_pos (show r ≠ _ from first), if_pos (show r ≠ _ from last), op_list]

theorem revert_remove {disk : Disk} (links : Unlinked base list r head tail prev next false disk)
    (transaction : disk.InFlight .remove list r) (countLists : Bool) (currentEntryId : Int) (now : UInt64) :
    Recovered lists base.control.sizes (Rankings.init disk countLists currentEntryId now) := by
  obtain ⟨in_flight, op, op_list⟩ := transaction
  have linked := wf.linked inside
  have block := wf.blocks list r inside
  let loaded : RankingsNode := { disk.node r with dummy := 0 }
  let started := (Rankings.new disk countLists currentEntryId).persist (.node r loaded)
  obtain ⟨node_prev, node_next, node_sane⟩ :
    (disk.node r).prev = (base.node r).prev ∧ (disk.node r).next = (base.node r).next ∧
      ((base.node r).Sane → (disk.node r).Sane) := links.node
  have loaded_linked : loaded.Linked (base.node r).prev (base.node r).next :=
    ⟨node_prev, node_next, (node_sane (wf.sane list r inside)).contents,
      (node_sane (wf.sane list r inside)).lastUsed, (node_sane (wf.sane list r inside)).lastModified⟩
  have at_node : started.disk.node r = loaded := if_pos rfl
  have elsewhere : ∀ a, a ≠ r → started.disk.node a = disk.node a := fun a other => if_neg other
  have started_links : Unlinked base list r head tail prev next false started.disk :=
    links.storeNode false loaded_linked
  -- what the neighbours get
  let p := if r ≠ (base.node r).prev then
      { started.disk.node (base.node r).prev with next := r }
    else started.disk.node (base.node r).prev
  let n := if r ≠ (base.node r).next then
      { started.disk.node (base.node r).next with prev := r }
    else started.disk.node (base.node r).next
  have prev_linked : p.Linked (base.node (base.node r).prev).prev (base.node (base.node r).prev).next := by
    by_cases first : (base.node r).prev = r
    · have whole : p = loaded := by
        simp only [p, first, ne_eq, not_true_eq_false, if_false]
        exact at_node
      rw [whole, first]
      exact loaded_linked
    · have whole : p = { started.disk.node (base.node r).prev with next := r } := if_pos (Ne.symm first)
      have behind := started_links.behind _ first
      rw [if_neg (fun both => first (wf.neighbours inside both.2))] at behind
      have sane := started_links.sane _ first (wf.sane list _ linked.1)
      rw [whole]
      exact ⟨behind, (wf.prev_next inside first).symm, sane.contents, sane.lastUsed, sane.lastModified⟩
  have next_linked : n.Linked (base.node (base.node r).next).prev (base.node (base.node r).next).next := by
    by_cases last : (base.node r).next = r
    · have whole : n = loaded := by
        simp only [n, last, ne_eq, not_true_eq_false, if_false]
        exact at_node
      rw [whole, last]
      exact loaded_linked
    · have whole : n = { started.disk.node (base.node r).next with prev := r } := if_pos (Ne.symm last)
      have before := started_links.before _ last
      rw [if_neg (fun both => last (both.2.trans (wf.neighbours inside both.2.symm)))] at before
      have sane := started_links.sane _ last (wf.sane list _ linked.2)
      rw [whole]
      exact ⟨(wf.next_prev inside last).symm, before, sane.contents, sane.lastUsed, sane.lastModified⟩
  obtain ⟨ended, p', n', ran, prev_linked', next_linked', nodes, sizes, heads, heads', tails, tails'⟩ :=
    revert_ends wf inside started_links rfl rfl prev_linked next_linked
  have result : Rankings.init disk countLists currentEntryId now =
      (((Block.mk (base.node r).prev (.own p')).store
        ((Block.mk (base.node r).next (.own n')).store ended)).persist (.transaction 0)).persist
          (.operation .none) := by
    have reverted := @revert_loaded base lists wf list r inside started loaded node_prev node_next op_list
    rw [init_of block in_flight, op]
    simp only
    refine reverted.trans ?_
    have parts := congrArg (fun e : Rankings × Block × Block =>
      ((e.2.1.store (e.2.2.store e.1)).persist (.transaction 0)).persist (.operation .none)) ran
    exact parts
  have node_linked : ∀ l, ∀ a ∈ lists l,
      ((Rankings.init disk countLists currentEntryId now).disk.node a).Linked (base.node a).prev
        (base.node a).next := by
    intro l a there
    have its : (Rankings.init disk countLists currentEntryId now).disk.node a =
        if a = (base.node r).prev then p' else if a = (base.node r).next then n'
          else started.disk.node a := by
      rw [result, ← nodes]
      rfl
    rw [its]
    split
    · rename_i here
      rw [here]
      exact prev_linked'
    · rename_i not_prev
      split
      · rename_i here
        rw [here]
        exact next_linked'
      · rename_i not_next
        by_cases here : a = r
        · rw [here, at_node]
          exact loaded_linked
        · have before := started_links.before a here
          have behind := started_links.behind a here
          rw [if_neg (fun both => not_prev both.2)] at before
          rw [if_neg (fun both => not_next both.2)] at behind
          exact ⟨behind, before, started_links.sane a here (wf.sane l a there)⟩
  refine ⟨wf.congr ?_ ?_ (fun l a there => ⟨(node_linked l a there).prev, (node_linked l a there).next⟩)
    fun l a there => (node_linked l a there).sane, ⟨?_, ?_, ?_⟩, ?_⟩
  · rw [result]
    exact heads
  · rw [result]
    exact tails
  · rw [result]
    rfl
  · rw [result]
    exact heads'.trans heads.symm
  · rw [result]
    exact tails'.trans tails.symm
  · rw [result]
    exact sizes.trans links.sizes

end Revert

section Remove

variable {r : CacheAddr} (inside : r ∈ lists list)

theorem finish_removed {disk : Disk} (wf' : WellFormed disk (lists.put list ((lists list).erase r)))
    (block : r.IsBlock) (out : (disk.node r).prev = 0 ∧ (disk.node r).next = 0)
    (transaction : disk.InFlight .remove list r) (countLists : Bool) (currentEntryId : Int) (now : UInt64) :
    Recovered (lists.put list ((lists list).erase r)) disk.control.sizes
        (Rankings.init disk countLists currentEntryId now) ∧
      ((Rankings.init disk countLists currentEntryId now).disk.node r).prev = 0 ∧
      ((Rankings.init disk countLists currentEntryId now).disk.node r).next = 0 := by
  obtain ⟨in_flight, op, op_list⟩ := transaction
  let cleared := ((Rankings.new disk countLists currentEntryId).persist
    (.node r { disk.node r with dummy := 0 })).persist (.transaction 0)
  have result : Rankings.init disk countLists currentEntryId now = cleared := by
    rw [init_of block in_flight, op]
    simp only
    rw [Rankings.revertRemove]
    have finished : (!(disk.node r).next.isInitialized || !(disk.node r).prev.isInitialized) = true := by
      rw [out.2]
      rfl
    exact if_pos finished
  have at_node : cleared.disk.node r = { disk.node r with dummy := 0 } := if_pos rfl
  rw [result, at_node]
  exact ⟨⟨wf'.cleared rfl rfl rfl, ⟨rfl, rfl, rfl⟩, rfl⟩, out⟩
include wf inside

theorem RemovePoint.recovered {stores : List Store} {disk : Disk}
    (point : RemovePoint base lists list r stores disk) (countLists : Bool) (currentEntryId : Int)
    (now : UInt64) :
    let restarted := Rankings.init disk countLists currentEntryId now
    Recovered lists base.control.sizes restarted ∧ stores.any (Store.completes r) = false ∧
        stores.any Store.counts = false ∨
      Recovered (lists.put list ((lists list).erase r)) (base.sizesAfter list (-1)
          (stores.any Store.counts)) restarted ∧ (restarted.disk.node r).prev = 0 ∧
        (restarted.disk.node r).next = 0 ∧ stores.any (Store.completes r) = true := by
  intro restarted
  cases point with
  | before incomplete uncounted wf' idle sizes =>
    exact .inl ⟨sizes ▸ recovered_idle countLists currentEntryId now wf' idle, incomplete, uncounted⟩
  | during incomplete uncounted head tail prev next links transaction =>
    exact .inl ⟨revert_remove wf inside links transaction countLists currentEntryId now, incomplete, uncounted⟩
  | after complete wf' out transaction sizes =>
    rcases transaction with idle | flight
    · have same := init_idle countLists currentEntryId now idle
      refine .inr ⟨sizes ▸ recovered_idle countLists currentEntryId now wf' idle, ?_, ?_, complete⟩
      · simp only [restarted, same]
        exact out.1
      · simp only [restarted, same]
        exact out.2
    · obtain ⟨recovered, prev, next⟩ := finish_removed wf' (wf.blocks list r inside) out flight
        countLists currentEntryId now
      exact .inr ⟨sizes ▸ recovered, prev, next, complete⟩

end Remove

end

inductive Change
  | insert (node : Block) (modified : Bool) (list : RankList) (now : UInt64)
  | remove (node : Block) (list : RankList)

def Change.run (rankings : Rankings) : Change → Rankings
  | .insert node modified list now => (rankings.insert node modified list now).1
  | .remove node list => (rankings.remove node list).1

def Change.node : Change → Block
  | .insert node _ _ _ => node
  | .remove node _ => node

def Change.after (lists : Lists) : Change → Lists
  | .insert node _ list _ => lists.put list (node.address :: lists list)
  | .remove node list => lists.put list ((lists list).erase node.address)

def Change.Allowed (lists : Lists) (rankings : Rankings) : Change → Prop
  | .insert node modified _ now => node.address.IsBlock ∧ (∀ l, node.address ∉ lists l) ∧
      (rankings.disk.node node.address).contents ≠ 0 ∧ Insertable node modified now rankings
  | .remove node list => node.address ∈ lists list ∧ Linkable node rankings

def Change.stores (rankings : Rankings) (change : Change) : List Store :=
  (change.run rankings).written.drop rankings.written.length

def Change.crashed (rankings : Rankings) (change : Change) (k : Nat) : Disk :=
  ((change.stores rankings).take k).foldl Store.apply rankings.disk

section Crash

variable {rankings : Rankings} {lists : Lists} (wf : WellFormed rankings.disk lists)
  (settled : rankings.Settled) (backed : rankings.Backed)
include wf settled backed

theorem Change.insert_crashed {node : Block} {modified : Bool} {list : RankList} {now : UInt64}
    (allowed : (Change.insert node modified list now).Allowed lists rankings) (k : Nat) :
    InsertPoint rankings.disk lists list node.address
      (((Change.insert node modified list now).stores rankings).take k)
      ((Change.insert node modified list now).crashed rankings k) := by
  obtain ⟨block, new, contents, insertable⟩ := allowed
  obtain ⟨since, inserted, -⟩ := insert_points wf block new settled backed contents insertable
  have stores : (Change.insert node modified list now).stores rankings = since := by
    rw [Change.stores, Change.run, inserted.traced.written, drop_left]
  rw [Change.crashed, stores]
  exact inserted.traced.points k

theorem Change.remove_crashed {node : Block} {list : RankList}
    (allowed : (Change.remove node list).Allowed lists rankings) (k : Nat) :
    RemovePoint rankings.disk lists list node.address (((Change.remove node list).stores rankings).take k)
      ((Change.remove node list).crashed rankings k) := by
  obtain ⟨since, removed, -⟩ := remove_points wf allowed.1 settled backed allowed.2
  have stores : (Change.remove node list).stores rankings = since := by
    rw [Change.stores, Change.run, removed.traced.written, drop_left]
  rw [Change.crashed, stores]
  exact removed.traced.points k

/-- Wherever an operation is cut off, the lists are linked again when the process has started. The
operation was done or it was not, and a node that was removed has no links. -/
theorem crash_recovers {change : Change} (allowed : change.Allowed lists rankings) (k : Nat)
    (countLists : Bool) (currentEntryId : Int) {now : UInt64} (clock : now ≠ 0) :
    let restarted := Rankings.init (change.crashed rankings k) countLists currentEntryId now
    ∃ lists', WellFormed restarted.disk lists' ∧ restarted.Settled ∧ (lists' = lists ∨
      lists' = change.after lists ∧ ∀ node list, change = .remove node list →
        (restarted.disk.node node.address).prev = 0 ∧ (restarted.disk.node node.address).next = 0) := by
  intro restarted
  cases change with
  | insert node modified list now' =>
    have point := Change.insert_crashed wf settled backed allowed k
    rcases point.recovered wf allowed.1 allowed.2.1 countLists currentEntryId clock with
      ⟨recovered, -⟩ | ⟨recovered, -⟩ | ⟨recovered, -⟩
    · exact ⟨lists, recovered.wf, recovered.settled, Or.inl rfl⟩
    · exact ⟨_, recovered.wf, recovered.settled, Or.inr ⟨rfl, fun _ _ other => by cases other⟩⟩
    · exact ⟨_, recovered.wf, recovered.settled, Or.inr ⟨rfl, fun _ _ other => by cases other⟩⟩
  | remove node list =>
    have point := Change.remove_crashed wf settled backed allowed k
    rcases point.recovered wf allowed.1 countLists currentEntryId now with
      ⟨recovered, -⟩ | ⟨recovered, prev, next, -⟩
    · exact ⟨lists, recovered.wf, recovered.settled, Or.inl rfl⟩
    · refine ⟨_, recovered.wf, recovered.settled, Or.inr ⟨rfl, fun node' list' same => ?_⟩⟩
      cases same
      exact ⟨prev, next⟩

end Crash

def singleAddr : CacheAddr := 0x90000001

def single : Disk :=
  ⟨⟨fun list => if list = .noUse then 1 else 0, fun list => if list = .noUse then singleAddr else 0,
      fun list => if list = .noUse then singleAddr else 0, 0, .none, .noUse⟩,
    fun _ => ⟨1, 1, singleAddr, singleAddr, 0xa0000001, 0, 0⟩⟩

def singleLists : Lists := fun list => if list = .noUse then [singleAddr] else []

theorem single_wellFormed : WellFormed single singleLists := by
  have members : ∀ list a, a ∈ singleLists list → list = .noUse ∧ a = singleAddr := by
    intro list a inside
    rw [singleLists] at inside
    split at inside
    · rename_i here
      exact ⟨here, mem_singleton.mp inside⟩
    · cases inside
  refine ⟨fun list => ?_, fun list => ?_, fun list => ?_, fun list => ?_, fun l l' a one two => ?_,
    fun l a inside => ?_, fun l a _ => ?_⟩
  · cases list <;> rfl
  · cases list <;> rfl
  · rw [singleLists]
    split
    · exact (Chain.nil single.links).cons ⟨rfl, rfl⟩ (fun b none => by cases none)
        (fun b none => by cases none) nodup_nil
    · exact Chain.nil _
  · rw [singleLists]
    split
    · exact nodup_cons.mpr ⟨not_mem_nil, nodup_nil⟩
    · exact nodup_nil
  · exact (members l a one).1.trans (members l' a two).1.symm
  · rw [(members l a inside).2]
    exact ⟨by decide, by decide⟩
  · have sane : RankingsNode.Sane ⟨1, 1, singleAddr, singleAddr, 0xa0000001, 0, 0⟩ :=
      ⟨by decide, by decide, by decide⟩
    exact sane

theorem single_allowed : (Change.remove (.load singleAddr (.new single true 1)) .noUse).Allowed singleLists
      (.new single true 1) := ⟨mem_singleton.mpr rfl, ⟨rfl, rfl⟩⟩

theorem crash_recovers_single :
    let change := Change.remove (.load singleAddr (.new single true 1)) .noUse
    let restarted := Rankings.init (change.crashed (.new single true 1) 5) true 2 7
    ∃ lists', WellFormed restarted.disk lists' ∧ restarted.Settled ∧ (lists' = singleLists ∨
      lists' = change.after singleLists ∧ ∀ node list, change = .remove node list →
        (restarted.disk.node node.address).prev = 0 ∧ (restarted.disk.node node.address).next = 0) :=
  @crash_recovers (.new single true 1) singleLists single_wellFormed ⟨rfl, rfl, rfl⟩
    (backed_new single true 1) _ single_allowed 5 true 2 7 (by decide)

end Glopen.Cache

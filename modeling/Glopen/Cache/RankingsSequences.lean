import Glopen.Cache.RankingsCandidates

/-! The lists as sequences: what a run makes of them, what `GetNext` and `GetPrev` show of them, and what
the tracked blocks have of their nodes. -/
namespace Glopen.Cache

open Linked List Option

/-- The addresses that at most `fuel` calls of `GetNext` or `GetPrev` show. -/
def walk (step : Rankings × Option Iterator → Rankings × Option Iterator) :
    Nat → Rankings × Option Iterator → List CacheAddr
  | 0, _ => []
  | fuel + 1, ran =>
    match (step ran).2 with
    | none => []
    | some it => it.address :: walk step fuel (step ran)

/-- What a call leaves that shows `target`. -/
structure Shows (lists : Lists) (target : Option CacheAddr) (ran : Rankings × Option Iterator) : Prop where
  ordered : ran.1.Ordered lists
  address : ran.2.map Iterator.address = target
  reads : ∀ it, ran.2 = some it → it.Reads it.address ran.1

variable {rankings : Rankings} {lists : Lists} {list : RankList} {a : CacheAddr}
  {order xs ys : List CacheAddr} {links : Links CacheAddr} {ran : Rankings × Option Iterator}

theorem walk_order {step : Rankings × Option Iterator → Rankings × Option Iterator}
    (next : ∀ ran xs ys, order = xs ++ ys → Shows lists xs.getLast? ran → Shows lists ys.head? (step ran))
    (split : order = xs ++ ys) (shows : Shows lists xs.getLast? ran) {fuel : Nat}
    (enough : ys.length < fuel) : walk step fuel ran = ys := by
  induction ys generalizing xs ran fuel with
  | nil =>
    obtain ⟨fuel, rfl⟩ := Nat.exists_eq_succ_of_ne_zero (Nat.ne_of_gt enough)
    rw [walk, Option.map_eq_none_iff.mp (next ran xs [] split shows).address]
  | cons y ys ih =>
    obtain ⟨fuel, rfl⟩ := Nat.exists_eq_succ_of_ne_zero (Nat.ne_of_gt (Nat.zero_lt_of_lt enough))
    have shown := next ran xs (y :: ys) split shows
    obtain ⟨it, found, address⟩ := Option.map_eq_some_iff.mp shown.address
    have behind : Shows lists (xs ++ [y]).getLast? (step ran) := by
      rw [getLast?_concat]
      exact shown
    rw [walk, found]
    simp only
    rw [ih (split.trans (append_cons xs y ys)) behind (Nat.lt_of_succ_lt_succ enough), address]

section Calls

variable (ordered : rankings.Ordered lists)
include ordered

theorem shows_none : Shows lists none (rankings, none) := ⟨ordered, rfl, fun _ no => by cases no⟩

theorem shows_follow (inside : a ∈ lists list) {linked : RankingsNode → Bool}
    (accepts : ∀ d : RankingsNode, d.prev = (rankings.disk.node a).prev →
      d.next = (rankings.disk.node a).next → linked d = true) :
    Shows lists (some a) (rankings.follow a linked) := by
  obtain ⟨adds, reads⟩ := ordered.follow a linked
  obtain ⟨block, found, -, prev, next, -⟩ :=
    getRanking_linked ordered.wf ordered.settled ordered.mirrored.backed inside
  have shown : (rankings.follow a linked).2 = some ⟨rankings.nextBlock, a, some (block.data rankings)⟩ := by
    rw [Rankings.follow, found]
    simp only [accepts _ prev next]
    rfl
  refine ⟨ordered.untouched adds.untouched, by rw [shown]; rfl, fun it its => ⟨rfl, ?_⟩⟩
  obtain ⟨address, reads⟩ := reads it its
  rw [address, adds.untouched.disk, adds.untouched.entries, adds.untouched.id]
  exact reads

/-- The call without a node, of a list that is shown from the head of `order`. -/
theorem shows_first (within : ∀ b ∈ order, b ∈ lists list) :
    Shows lists order.head? (if !(order.headD 0).isInitialized then (rankings, none)
      else rankings.follow (order.headD 0) fun _ => true) := by
  cases order with
  | nil => exact shows_none ordered
  | cons y ys =>
    have inside := within y mem_cons_self
    rw [headD_cons, (ordered.wf.blocks list y inside).initialized]
    exact shows_follow ordered inside fun _ _ _ => rfl

/-- The call with the node at `a`. -/
theorem shows_neighbour (within : ∀ b ∈ order, b ∈ lists list) (chain : Chain links order)
    (nodup : order.Nodup) (split : order = xs ++ a :: ys) {back : RankingsNode → CacheAddr}
    (stored : ∀ (y : CacheAddr) (d : RankingsNode), d.prev = (rankings.disk.node y).prev →
      d.next = (rankings.disk.node y).next → back d = links.prev y) :
    Shows lists ys.head? (if !(order.getLastD 0).isInitialized then (rankings, none)
      else if order.getLastD 0 = a then (rankings, none)
      else if links.next a = a then (rankings, none)
      else rankings.follow (links.next a) fun d => back d = a) := by
  rw [(chain xs a ys split).2]
  cases ys with
  | nil =>
    simp only [headD_nil, if_true]
    repeat' split
    all_goals exact shows_none ordered
  | cons y ys =>
    have apart : a ∉ y :: ys := (nodup_cons.mp (split ▸ nodup).of_append_right).1
    have last : order.getLastD 0 = (y :: ys).getLastD 0 := by
      rw [split, getLastD_append_cons, getLastD_cons, getLastD_cons]
    have among := getLastD_mem (cons_ne_nil y ys) 0
    have inside : ∀ b ∈ y :: ys, b ∈ lists list := fun b there =>
      within b (split ▸ mem_append_right xs (mem_cons_of_mem a there))
    have ahead : links.prev y = a :=
      ((chain (xs ++ [a]) y ys (split.trans (append_cons ..))).1).trans getLastD_concat
    rw [last, (ordered.wf.blocks list _ (inside _ among)).initialized, headD_cons, if_neg (by decide),
      if_neg fun (same : _ = a) => apart (same ▸ among),
      if_neg fun (same : y = a) => apart (same ▸ mem_cons_self)]
    exact shows_follow ordered (inside y mem_cons_self) fun d prev next =>
      decide_eq_true ((stored y d prev next).trans ahead)

end Calls

theorem shows_next (ran : Rankings × Option Iterator) (xs ys : List CacheAddr)
    (split : lists list = xs ++ ys) (shows : Shows lists xs.getLast? ran) :
    Shows lists ys.head? (ran.1.getNext ran.2 list) := by
  obtain ⟨rankings, it⟩ := ran
  have ordered := shows.ordered
  have wf := ordered.wf
  cases it with
  | none =>
    obtain rfl : xs = [] := getLast?_eq_none_iff.mp shows.address.symm
    obtain rfl : lists list = ys := split
    rw [Rankings.getNext, ordered.settled.heads, wf.head]
    exact shows_first ordered fun _ => id
  | some node =>
    obtain ⟨xs, rfl⟩ := getLast?_eq_some_iff.mp shows.address.symm
    obtain ⟨-, d, its, -, ⟨-, link⟩, -⟩ := shows.reads node rfl
    have loaded : rankings.loaded node = (rankings, d) := by rw [Rankings.loaded, its]
    rw [Rankings.getNext, loaded]
    simp only
    rw [link, ordered.settled.tails, wf.tail]
    exact shows_neighbour ordered (fun _ => id) (wf.chain list) (wf.nodup list)
      (split.trans (append_cons ..).symm) fun _ _ prev _ => prev

theorem shows_prev (ran : Rankings × Option Iterator) (xs ys : List CacheAddr)
    (split : (lists list).reverse = xs ++ ys) (shows : Shows lists xs.getLast? ran) :
    Shows lists ys.head? (ran.1.getPrev ran.2 list) := by
  obtain ⟨rankings, it⟩ := ran
  have ordered := shows.ordered
  have wf := ordered.wf
  have within : ∀ b ∈ (lists list).reverse, b ∈ lists list := fun _ => mem_reverse.mp
  have tail : (lists list).getLastD 0 = (lists list).reverse.headD 0 := by
    rw [← getLastD_reverse, reverse_reverse]
  cases it with
  | none =>
    obtain rfl : xs = [] := getLast?_eq_none_iff.mp shows.address.symm
    obtain rfl : (lists list).reverse = ys := split
    rw [Rankings.getPrev, ordered.settled.tails, wf.tail, tail]
    exact shows_first ordered within
  | some node =>
    obtain ⟨xs, rfl⟩ := getLast?_eq_some_iff.mp shows.address.symm
    obtain ⟨-, d, its, -, ⟨link, -⟩, -⟩ := shows.reads node rfl
    have loaded : rankings.loaded node = (rankings, d) := by rw [Rankings.loaded, its]
    rw [Rankings.getPrev, loaded]
    simp only
    rw [link, ordered.settled.heads, wf.head, ← getLastD_reverse]
    exact shows_neighbour ordered within (wf.chain list).reverse (nodup_reverse.mpr (wf.nodup list))
      (split.trans (append_cons ..).symm) fun _ _ _ next => next

/-- The tracked blocks have the links of their nodes, where they have data. -/
structure Rankings.Tracked (rankings : Rankings) : Prop where
  numbered : rankings.Numbered
  same : ∀ x ∈ rankings.iterators, ∀ y ∈ rankings.iterators, x.block = y.block → x.address = y.address
  agree : ∀ it ∈ rankings.iterators, it.Agrees rankings.disk

section Tracked

variable {rankings' : Rankings} (tracked : rankings.Tracked)
include tracked

theorem Rankings.Tracked.each (nextBlock : rankings'.nextBlock = rankings.nextBlock)
    (each : ∀ it' ∈ rankings'.iterators, ∃ it ∈ rankings.iterators, it'.block = it.block ∧
      it'.address = it.address ∧ (it.Agrees rankings.disk → it'.Agrees rankings'.disk)) :
    rankings'.Tracked := by
  refine ⟨fun it' there => ?_, fun x' x_there y' y_there number => ?_, fun it' there => ?_⟩
  · obtain ⟨it, was, number, -⟩ := each it' there
    rw [number, nextBlock]
    exact tracked.numbered it was
  · obtain ⟨x, x_was, x_number, x_address, -⟩ := each x' x_there
    obtain ⟨y, y_was, y_number, y_address, -⟩ := each y' y_there
    rw [x_number, y_number] at number
    rw [x_address, y_address]
    exact tracked.same x x_was y y_was number
  · obtain ⟨it, was, -, -, agrees⟩ := each it' there
    exact agrees (tracked.agree it was)

theorem Rankings.Tracked.follows {touched : CacheAddr → Prop}
    (follows : Follows touched (fun _ => False) rankings rankings') : rankings'.Tracked := by
  refine tracked.each follows.nextBlock fun it' there => ?_
  obtain ⟨it, was, number, address, -, agrees⟩ := follows.each it' there
  exact ⟨it, was, number, address, fun before => agrees before id⟩

theorem Rankings.Tracked.mark (a : CacheAddr) {data : RankingsNode}
    {entries : CacheAddr → Option RankingsNode} (kept : ¬ rankings.Unread a →
      data.prev = (rankings.disk.node a).prev ∧ data.next = (rankings.disk.node a).next) :
    ({ rankings with openEntries := entries }.persist (.node a data)).Tracked := by
  refine tracked.each rfl fun it there => ⟨it, there, rfl, rfl, fun before d its => ?_⟩
  have links := before d its
  simp only [Rankings.persist, Store.apply]
  split
  · rename_i here
    have read : ¬ rankings.Unread a := fun unread => by cases its.symm.trans (unread it there here)
    rw [(kept read).1, (kept read).2, ← here]
    exact links
  · exact links

theorem Rankings.Tracked.loaded {node : Iterator} (inside : node ∈ rankings.iterators) :
    (rankings.loaded node).1.Tracked := by
  rw [Rankings.loaded]
  split
  · exact tracked
  · refine tracked.each rfl fun it' there => ?_
    obtain ⟨it, was, rfl⟩ := mem_map.mp there
    refine ⟨it, was, ?_⟩
    split
    · rename_i number
      refine ⟨rfl, rfl, fun _ d its => ?_⟩
      cases its
      rw [tracked.same it was node inside number]
      exact ⟨rfl, rfl⟩
    · exact ⟨rfl, rfl, id⟩

theorem Rankings.Tracked.adds {added : Option Iterator} (adds : Adds rankings rankings' added)
    (reads : ∀ it, added = some it → it.Reads a rankings) : rankings'.Tracked := by
  have old : ∀ it ∈ rankings'.iterators, it ∈ rankings.iterators ∨ added = some it := by
    intro it there
    rw [adds.iterators] at there
    exact (mem_append.mp there).imp_right mem_toList.mp
  refine ⟨tracked.numbered.adds adds, fun x x_there y y_there number => ?_, fun it there => ?_⟩
  · rcases old x x_there with x_was | x_new
    · rcases old y y_there with y_was | y_new
      · exact tracked.same x x_was y y_was number
      · exact absurd (number.trans (adds.block y y_new).1) (tracked.numbered x x_was).ne
    · rcases old y y_there with y_was | y_new
      · exact absurd (number.symm.trans (adds.block x x_new).1) (tracked.numbered y y_was).ne
      · cases x_new.symm.trans y_new
        rfl
  · rw [adds.untouched.disk]
    rcases old it there with was | new
    · exact tracked.agree it was
    · obtain ⟨d, its, -, links, -⟩ := (reads it new).data
      intro d' its'
      cases its.symm.trans its'
      rw [(reads it new).address]
      exact links

/-- No tracked block has data of a node that goes into a list, or that an entry is created with. -/
def Event.Unread (rankings : Rankings) : Event → Prop
  | .insert a _ _ _ => rankings.Unread a
  | .createEntry a _ => rankings.Unread a
  | _ => True

theorem Rankings.Tracked.event (ordered : rankings.Ordered lists) {event : Event}
    (allowed : event.Allowed lists rankings) (unread : event.Unread rankings) :
    (event.run rankings).Tracked := by
  have moved := fun it (inside : ∀ node, it = some node → node ∈ rankings.iterators) =>
    @next_prev_keep (fun later => later.Ordered lists ∧ later.Tracked) rankings it ⟨ordered, tracked⟩
      (fun node its => ⟨ordered.untouched (loaded_untouched ..), tracked.loaded (inside node its)⟩)
      fun later a linked kept =>
        have found := kept.1.follow a linked
        ⟨kept.1.untouched found.1.untouched, kept.2.adds found.1 found.2⟩
  cases event with
  | openEntry a =>
    rw [Event.run, Rankings.openEntry]
    simp only
    split
    · exact tracked
    · exact tracked.mark a fun _ => ⟨rfl, rfl⟩
  | createEntry a contents => exact tracked.mark a fun read => absurd unread read
  | closeEntry a =>
    rw [Event.run, Rankings.closeEntry]
    split
    · exact tracked
    · rename_i data opened
      refine tracked.mark a fun _ => ?_
      rw [(ordered.mirrored a data opened).2.2 id]
      exact ⟨rfl, rfl⟩
  | insert a modified list now => exact tracked.follows (insert_follows unread modified list now)
  | remove a list =>
    exact tracked.follows (remove_follows ordered.mirrored (ordered.wf.neighbours allowed) list).1
  | updateRank a modified list now =>
    obtain ⟨removed, unread⟩ :=
      remove_follows ordered.mirrored (ordered.wf.neighbours allowed.1) list
    rw [Event.run, (ordered.updateRank allowed.1 allowed.2 modified).2]
    exact (tracked.follows removed).follows (insert_follows unread modified list now)
  | getNext it list => exact (moved it allowed list).1.2
  | getPrev it list => exact (moved it allowed list).2.2
  | free it =>
    exact tracked.each rfl fun it there => ⟨it, (mem_filter.mp there).1, rfl, rfl, id⟩

end Tracked

/-- A run of events that meet a condition, and what the lists are as sequences. -/
inductive ListRun (meets : Rankings → Event → Prop) (start : Rankings) (lists : Lists) :
    Rankings → Lists → Prop
  | start : ListRun meets start lists start lists
  | event {rankings : Rankings} {lists' : Lists} {event : Event}
      (run : ListRun meets start lists rankings lists') (allowed : event.Allowed lists' rankings)
      (met : meets rankings event) : ListRun meets start lists (event.run rankings) (event.after lists')

/-- The stored lists are the sequences, the calls show them in both directions, and the tracked blocks
have the stored links. -/
structure Rankings.Refines (rankings : Rankings) (lists : Lists) : Prop where
  wf : WellFormed rankings.disk lists
  shown : ∀ list fuel, (lists list).length < fuel →
    walk (fun ran => ran.1.getNext ran.2 list) fuel (rankings, none) = lists list ∧
      walk (fun ran => ran.1.getPrev ran.2 list) fuel (rankings, none) = (lists list).reverse
  agree : ∀ it ∈ rankings.iterators, it.Agrees rankings.disk

theorem lists_refine_sequences {start : Rankings} {lists' : Lists} (ordered : start.Ordered lists)
    (untracked : start.iterators = [])
    (run : ListRun (fun rankings event => event.Unread rankings) start lists rankings lists') :
    rankings.Refines lists' := by
  have kept : rankings.Ordered lists' ∧ rankings.Tracked := by
    induction run with
    | start => exact ⟨ordered, by simp [Rankings.Numbered, untracked], by simp [untracked],
        by simp [untracked]⟩
    | event run allowed met ih => exact ⟨ih.1.event allowed, ih.2.event ih.1 allowed met⟩
  refine ⟨kept.1.wf, fun list fuel enough => ⟨?_, ?_⟩, kept.2.agree⟩
  · exact walk_order shows_next (nil_append _).symm (shows_none kept.1) enough
  · exact walk_order shows_prev (nil_append _).symm (shows_none kept.1) (length_reverse.trans_lt enough)

theorem lists_refine_single : Rankings.Refines (Event.run (.new single true 1)
    (.updateRank singleAddr true .noUse 7)) (Event.after singleLists (.updateRank singleAddr true .noUse 7)) :=
  lists_refine_sequences single_ordered rfl (.event .start ⟨mem_cons_self, by decide⟩ trivial)

/-- The block is loaded again while its node is in no list, and the node comes back with other links. -/
theorem links_left_behind : ¬ ∀ {start rankings : Rankings} {lists lists' : Lists},
    start.Ordered lists → start.iterators = [] → ListRun (fun _ _ => True) start lists rankings lists' →
      rankings.Refines lists' := by
  intro all
  have shown := @ListRun.event (fun _ _ => True) (.new single true 1) singleLists _ _
    (.getNext none .noUse) .start (fun _ no => by cases no) trivial
  have removed := @ListRun.event _ _ _ _ _ (.remove singleAddr .noUse) shown mem_cons_self trivial
  have loaded := @ListRun.event _ _ _ _ _ (.getNext (some ⟨0, singleAddr, none⟩) .noUse) removed
    (fun _ its => by cases its; decide +kernel) trivial
  have inserted := @ListRun.event _ _ _ _ _ (.insert singleAddr true .noUse 7) loaded
    ⟨single_wellFormed.blocks .noUse singleAddr mem_cons_self, fun l => by cases l <;> decide,
      by decide +kernel, by decide, .inl rfl⟩ trivial
  have links := (all single_ordered rfl inserted).agree
    ⟨0, singleAddr, some ⟨1, 1, 0, 0, 0xa0000001, 0, 0⟩⟩ (by decide +kernel) _ rfl
  exact absurd links.2 (by decide +kernel)

end Glopen.Cache

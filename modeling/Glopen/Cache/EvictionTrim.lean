import Glopen.Cache.EvictionLists
import Glopen.Cache.RankingsCandidates

/-! The list from which `TrimCacheV2` evicts, and the nodes that it takes there. -/
namespace Glopen.Cache

open Linked List

def kTargetTime : Int := 24 * 7

def kMicrosecondsPerHour : Int := 3600000000

/-- A stored time as the signed count of microseconds that `Time` has. -/
def internalTime (time : UInt64) : Int := Int.bmod time.toNat (2 ^ 64)

def inHours (delta : Int) : Int := wrapInt32 (delta.tdiv kMicrosecondsPerHour)

def RankList.number : RankList → Nat
  | noUse => 0
  | lowUse => 1
  | highUse => 2
  | reserved => 3
  | deleted => 4

def RankList.searched : List RankList := [noUse, lowUse, highUse]

def nodeIsOldEnough (node : Option RankingsNode) (list : RankList) (now : Int) : Bool :=
  match node with
  | none => false
  | some data => kTargetTime * 2 ^ list.number < inHours (now - internalTime data.lastUsed)

def selectListByLenght (numEntries : Int) (sizes : RankList → Int) : RankList :=
  let dataEntries := numEntries - sizes .deleted
  if dataEntries.tdiv 3 < sizes .noUse then .noUse
  else if dataEntries.tdiv 3 < sizes .lowUse then .lowUse
  else .highUse

/-- `list` is none where it is LAST_ELEMENT. -/
structure Selection where
  rankings : Rankings
  next : RankList → Option Iterator
  list : Option RankList

def Selection.node (selection : Selection) (list : RankList) : Option RankingsNode :=
  (selection.next list).bind Iterator.data

/-- The flag `done` is a variable of the body, so it is false each time that it is read. -/
def Selection.look (clock : RankList → Int) (selection : Selection) (list : RankList) : Selection :=
  let done := false
  if done then selection
  else
    let (rankings, node) := selection.rankings.getPrev none list
    { rankings
      next := fun l => if l = list then node else selection.next l
      list :=
        if nodeIsOldEnough (node.bind Iterator.data) list (clock list) then some list
        else selection.list }

def Rankings.lookAtLists (clock : RankList → Int) (rankings : Rankings) : Selection :=
  RankList.searched.foldl (Selection.look clock) ⟨rankings, fun _ => none, none⟩

/-- `clock` is what is read for each list, and `later` what is read for the least age. -/
def Selection.select (numEntries : Int) (later : Int) (selection : Selection) : RankList :=
  match selection.list with
  | some list => list
  | none =>
    let list := selectListByLenght numEntries selection.rankings.disk.control.sizes
    if (list = .highUse ∨ list = .lowUse) ∧ !nodeIsOldEnough (selection.node list) .noUse later then
      .noUse
    else list

/-- The loop over the nodes of the list. `evicted` has the nodes of the entries that were evicted,
with the rankings that the call found. -/
structure Trim where
  eviction : Eviction
  numBytes : Int
  node : Option Iterator
  next : Option Iterator
  late : Bool
  evicted : List (Rankings × CacheAddr)

def Rankings.tracked (rankings : Rankings) (it : Iterator) : Option Iterator :=
  rankings.iterators.find? fun other => other.block = it.block

/-- `reset` of a scoped block. -/
def Rankings.release (node : Option Iterator) (rankings : Rankings) : Rankings :=
  match node with
  | none => rankings
  | some node => rankings.freeRankingsBlock node

def Trim.advance (maxSize : Int) (list : RankList) (trim : Trim) :
    Option (Trim × Iterator × RankingsNode) :=
  if trim.numBytes ≤ maxSize ∨ trim.late then none
  else
    match trim.next.bind trim.eviction.rankings.tracked with
    | none => none
    | some node =>
      match node.data with
      | none => none
      | some data =>
        let (rankings, prev) := (trim.eviction.rankings.release trim.node).getPrev (some node) list
        some ({ trim with
          eviction := { trim.eviction with rankings := rankings }
          node := some node
          next := prev }, node, data)

def Trim.untrack (node : Iterator) (trim : Trim) : Trim :=
  { trim with eviction :=
      { trim.eviction with rankings := trim.eviction.rankings.freeRankingsBlock node } }

inductive Cleanup (start : Eviction) : Eviction → Prop
  | start : Cleanup start start
  | doom {eviction : Eviction} (a : CacheAddr) {info : EntryStore} {now : UInt64}
      (run : Cleanup start eviction) (its : eviction.entries a = some info) (clock : now ≠ 0) :
      Cleanup start (eviction.onDoomEntryV2 a info now)
  | destroy {eviction : Eviction} (a : CacheAddr) {info : EntryStore} (run : Cleanup start eviction)
      (its : eviction.entries a = some info) (gone : info.state ≠ .normal) :
      Cleanup start (eviction.destroyEntry a)
  | close {eviction : Eviction} (a : CacheAddr) (run : Cleanup start eviction) :
      Cleanup start { eviction with rankings := eviction.rankings.closeEntry a }

inductive TrimStep (maxSize : Int) (list : RankList) (trim : Trim) : Trim → Prop
  | used {trim' : Trim} {node : Iterator} {data : RankingsNode}
      (advanced : trim.advance maxSize list = some (trim', node, data))
      (dirty : data.dirty = trim'.eviction.rankings.currentEntryId) : TrimStep maxSize list trim trim'
  | failed {trim' : Trim} {node : Iterator} {data : RankingsNode} {after : Eviction}
      (advanced : trim.advance maxSize list = some (trim', node, data))
      (unused : data.dirty ≠ trim'.eviction.rankings.currentEntryId)
      (cleanup : Cleanup (trim'.untrack node).eviction after) (numBytes : Int) :
      TrimStep maxSize list trim { trim'.untrack node with eviction := after, numBytes := numBytes }
  | evicted {trim' : Trim} {node : Iterator} {data : RankingsNode} {info : EntryStore} {now : UInt64}
      (advanced : trim.advance maxSize list = some (trim', node, data))
      (unused : data.dirty ≠ trim'.eviction.rankings.currentEntryId)
      (its : trim'.eviction.entries node.address = some info) (clock : now ≠ 0) (numBytes : Int)
      (late : Bool) :
      TrimStep maxSize list trim { trim'.untrack node with
        eviction := (trim'.untrack node).eviction.evictEntry node.address info false now
        numBytes := numBytes
        late := late
        evicted := trim.evicted ++ [((trim'.untrack node).eviction.rankings, node.address)] }

/-- What `TrimCacheV2` has when it comes to the loop. -/
def Eviction.trim (selection : Selection) (list : RankList) (numBytes : Int) (eviction : Eviction) :
    Trim :=
  { eviction := { eviction with rankings := selection.rankings }
    numBytes
    node := none
    next := selection.next list
    late := false
    evicted := [] }

abbrev TrimRun (maxSize : Int) (list : RankList) : Trim → Trim → Prop :=
  Relation.ReflTransGen (TrimStep maxSize list)

variable {lists : Lists} {list : RankList} {a : CacheAddr}

section Chosen

theorem find?_eq_last_iff {α : Type} {p : α → Bool} {xs : List α} (nodup : xs.Nodup) :
    xs.find? p = (xs.filter p).getLast? ↔ ∀ x ∈ xs, ∀ y ∈ xs, p x = true → p y = true → x = y := by
  have pass : ∀ x, x ∈ xs.filter p ↔ x ∈ xs ∧ p x = true := fun x => mem_filter
  have passed := nodup.filter p
  rw [← List.head?_filter]
  generalize xs.filter p = ys at pass passed
  cases ys with
  | nil =>
    exact ⟨fun _ x there y _ this => absurd ((pass x).mpr ⟨there, this⟩) (not_mem_nil), fun _ => rfl⟩
  | cons z zs =>
    have first := (pass z).mp mem_cons_self
    have last := (pass _).mp (getLast_mem (cons_ne_nil z zs))
    rw [List.head?_cons, List.getLast?_eq_some_getLast (cons_ne_nil z zs)]
    constructor
    · intro same x there y there' this this'
      cases zs with
      | nil =>
        have only := mem_singleton.mp ((pass x).mpr ⟨there, this⟩)
        exact only.trans (mem_singleton.mp ((pass y).mpr ⟨there', this'⟩)).symm
      | cons w ws =>
        have inside := getLast_mem (cons_ne_nil w ws)
        rw [getLast_cons (cons_ne_nil w ws), Option.some.injEq] at same
        exact absurd (same ▸ inside) (nodup_cons.mp passed).1
    · intro one
      exact congrArg some (one z first.1 _ last.1 first.2 last.2)

def Rankings.oldest (rankings : Rankings) (lists : Lists) (list : RankList) : Option RankingsNode :=
  (lists list).getLast?.map rankings.disk.node

def Rankings.oldEnough (rankings : Rankings) (lists : Lists) (clock : RankList → Int)
    (list : RankList) : Bool :=
  nodeIsOldEnough (rankings.oldest lists list) list (clock list)

/-- The list from which entries should be evicted: the first that exceeds its target age, and else the
one that is chosen by length unless that is too young. -/
def Rankings.listToEvict (rankings : Rankings) (lists : Lists) (clock : RankList → Int)
    (numEntries later : Int) : RankList :=
  match RankList.searched.find? (rankings.oldEnough lists clock) with
  | some list => list
  | none =>
    let list := selectListByLenght numEntries rankings.disk.control.sizes
    if list ≠ .noUse ∧ nodeIsOldEnough (rankings.oldest lists list) .noUse later = false then .noUse
    else list

theorem nodeIsOldEnough_congr {node node' : Option RankingsNode}
    (same : node.map RankingsNode.lastUsed = node'.map RankingsNode.lastUsed) (list : RankList)
    (now : Int) : nodeIsOldEnough node list now = nodeIsOldEnough node' list now := by
  cases node with
  | none =>
    cases node' with
    | none => rfl
    | some data' => cases same
  | some data =>
    cases node' with
    | none => cases same
    | some data' =>
      have lastUsed : data.lastUsed = data'.lastUsed := Option.some.inj same
      rw [nodeIsOldEnough, nodeIsOldEnough, lastUsed]

variable {start : Rankings} {clock : RankList → Int}

structure Selection.Looked (start : Rankings) (lists : Lists) (clock : RankList → Int)
    (seen : List RankList) (selection : Selection) : Prop where
  untouched : Untouched start selection.rankings
  numbered : selection.rankings.Numbered
  node : ∀ list ∈ seen, (selection.node list).map RankingsNode.lastUsed =
    (start.oldest lists list).map RankingsNode.lastUsed
  next : ∀ list it, selection.next list = some it → it.block < selection.rankings.nextBlock ∧
    selection.rankings.Candidate (lists list) it.block
  list : selection.list = (seen.filter (start.oldEnough lists clock)).getLast?

section

variable {seen : List RankList} {selection : Selection} (looked : selection.Looked start lists clock seen)
  (ordered : start.Ordered lists)
include looked ordered

theorem Selection.Looked.look
    (list : RankList) : (selection.look clock list).Looked start lists clock (seen ++ [list]) := by
  have ordered' := ordered.untouched looked.untouched
  obtain ⟨adds, candidate, lastUsed⟩ := ordered'.last looked.numbered list
  have numbered := looked.numbered.adds adds
  have same : selection.rankings.oldest lists list = start.oldest lists list := by
    rw [Rankings.oldest, Rankings.oldest, looked.untouched.disk]
  rw [Selection.look]
  simp only [Bool.false_eq_true, if_false]
  generalize selection.rankings.getPrev none list = returned at adds candidate lastUsed numbered ⊢
  obtain ⟨rankings, node⟩ := returned
  simp only at adds candidate lastUsed numbered ⊢
  have its : (node.bind Iterator.data).map RankingsNode.lastUsed =
      (start.oldest lists list).map RankingsNode.lastUsed := lastUsed.trans (same ▸ rfl)
  refine ⟨looked.untouched.trans adds.untouched, numbered, fun l there => ?_, fun l it is_next => ?_, ?_⟩
  · rw [Selection.node]
    simp only
    split
    · rename_i here
      rw [here]
      exact its
    · rename_i other
      rcases mem_append.mp there with before | new
      · exact looked.node l before
      · exact absurd (mem_singleton.mp new) other
  · simp only at is_next ⊢
    split at is_next
    · rename_i here
      rw [here]
      exact ⟨(adds.block it is_next).1 ▸ (adds.block it is_next).2, candidate it is_next⟩
    · obtain ⟨old, before⟩ := looked.next l it is_next
      exact ⟨Nat.lt_of_lt_of_le old adds.below, before.adds adds old⟩
  · rw [filter_append, nodeIsOldEnough_congr its]
    change (if start.oldEnough lists clock list = true then some list else selection.list) = _
    split
    · rename_i old
      rw [filter_cons_of_pos old, filter_nil, List.getLast?_concat]
    · rename_i young
      rw [filter_cons_of_neg young, filter_nil, append_nil]
      exact looked.list

theorem Selection.Looked.lookAll (ls : List RankList) :
    (ls.foldl (Selection.look clock) selection).Looked start lists clock (seen ++ ls) := by
  induction ls generalizing seen selection with
  | nil =>
    rw [append_nil]
    exact looked
  | cons list ls ih =>
    have rest := ih (looked.look ordered list)
    rw [append_assoc] at rest
    exact rest

end

theorem looked_atLists (ordered : start.Ordered lists) (numbered : start.Numbered) (clock : RankList → Int) :
    (start.lookAtLists clock).Looked start lists clock RankList.searched := by
  have before : (⟨start, fun _ => none, none⟩ : Selection).Looked start lists clock [] := by
    exact ⟨untouched_self start, numbered, (fun _ no => by cases no), (fun _ _ no => by cases no), rfl⟩
  exact before.lookAll ordered RankList.searched

end Chosen

def Eviction.Watches (eviction : Eviction) (next : Option Iterator) (list : RankList) : Prop :=
  ∃ lists, eviction.Placed lists ∧ eviction.rankings.Numbered ∧
    ∀ it, next = some it → eviction.rankings.Candidate (lists list) it.block

section Events

variable {eviction : Eviction} {next : Option Iterator} {info : EntryStore} {now : UInt64}
variable {source : RankList}

theorem Eviction.Placed.moved_iterators (placed : eviction.Placed lists)
    (inside : a ∈ lists source) (clock : now ≠ 0) (modified : Bool) (target : RankList) :
    ∃ lists', (eviction.move a source modified target now).rankings.Ordered lists' ∧
      Refreshed eviction.rankings (eviction.move a source modified target now).rankings ∧
      (∃ touched, Follows touched (fun _ => False) eviction.rankings
        (eviction.move a source modified target now).rankings) ∧
      (eviction.move a source modified target now).rankings.Unread a ∧
      ∀ b l, b ∈ lists' l ↔ if b = a then l = target else b ∈ lists l := by
  have ordered := placed.ordered
  have wf := ordered.wf
  obtain ⟨block, -⟩ := remove_block ordered.mirrored ordered.id (wf.sane source a inside) source
  obtain ⟨fresh, -⟩ := ordered.updateRank inside clock modified
  obtain ⟨removed, -, -, -, same⟩ := ordered.remove inside
  obtain ⟨follows, unread⟩ := remove_follows ordered.mirrored (wf.neighbours inside) source
  have inserted := insert_follows unread modified target now
  have first := remove_refreshed ordered.mirrored ordered.id (block_fits eviction.rankings a) source
  have second := insert_refreshed removed.mirrored removed.id
    (block_fits (eviction.rankings.remove (eviction.rankings.block a) source).1 a) modified target now
  rw [Eviction.move]
  simp only [Eviction.remove, Eviction.insert]
  rw [block]
  exact ⟨_, (removed.insert fresh target).1, first.trans same second, ⟨_, follows.trans inserted⟩,
    inserted.unread unread, mem_moved wf.nodup wf.apart inside⟩

section

variable (watches : eviction.Watches next list) (its : eviction.entries a = some info)
include watches its

theorem Eviction.Watches.move (from_there : info.list = source)
    (clock : now ≠ 0) (modified : Bool) {target : RankList} {info' : EntryStore}
    (there : info'.list = target) (reuse : 0 ≤ info'.reuseCount) :
    ((eviction.move a source modified target now).write a info').Watches next list := by
  obtain ⟨lists, placed, numbered, candidate⟩ := watches
  have inside : a ∈ lists source := from_there ▸ placed.inside its
  obtain ⟨lists', placed'⟩ := placed.placed_move its from_there clock modified there reuse
  obtain ⟨lists₂, ordered, refreshed, ⟨touched, follows⟩, unread, members⟩ :=
    placed.moved_iterators inside clock modified target
  obtain rfl : lists' = lists₂ := placed'.ordered.wf.unique ordered.wf
  refine ⟨lists', placed', numbered.follows follows, fun it is_next => ?_⟩
  refine (candidate it is_next).refreshed refreshed follows unread fun b before other => ?_
  rw [members, if_neg other]
  exact before

theorem Eviction.Watches.doom (clock : now ≠ 0) : (eviction.onDoomEntryV2 a info now).Watches next list := by
  obtain ⟨lists, placed, -⟩ := id watches
  rw [Eviction.onDoomEntryV2]
  split
  · exact watches
  · rename_i not_other
    have normal := (not_not.mp not_other).symm
    exact watches.move its (list_normal normal) clock true (list_deleted fun same => by cases same)
      (placed.reuse a info its)

theorem Eviction.Watches.evict (normal : info.state = .normal) (clock : now ≠ 0) :
    (eviction.evictEntry a info false now).Watches next list := by
  obtain ⟨lists, placed, -⟩ := id watches
  rw [Eviction.evictEntry, if_neg Bool.false_ne_true]
  exact watches.move its (list_normal normal) clock true (list_deleted fun same => by cases same)
    (placed.reuse a info its)

theorem Eviction.Watches.destroy (gone : info.state ≠ .normal) :
    (eviction.destroyEntry a).Watches next list := by
  obtain ⟨lists, placed, numbered, candidate⟩ := watches
  have ordered := placed.ordered
  have inside : a ∈ lists .deleted := list_deleted gone ▸ placed.inside its
  obtain ⟨lists', placed'⟩ := placed.destroyEntry its gone
  obtain ⟨removed, prev, link, -, -⟩ := ordered.remove inside
  obtain ⟨follows, unread⟩ := remove_follows ordered.mirrored (ordered.wf.neighbours inside) .deleted
  have without := mem_erased ordered.wf.nodup ordered.wf.apart inside
  have refreshed :=
    remove_refreshed ordered.mirrored ordered.id (block_fits eviction.rankings a) .deleted
  have cleared := removed.clear (fun l there => ((without a l).mp there).1 rfl) ⟨0, 0, 0, 0, 0, 0, 0⟩
  have same_lists := placed'.ordered.wf.unique cleared.wf
  have between := numbered.follows follows
  have numbered' : (eviction.destroyEntry a).rankings.Numbered := fun it there => between it there
  refine ⟨lists', placed', numbered', fun it is_next => ?_⟩
  rw [same_lists]
  refine ((candidate it is_next).refreshed refreshed follows unread fun b before other =>
    (without b list).mpr ⟨other, before⟩).relinked (fun _ there => there) (fun b => ?_) (fun b opened => ?_) rfl
  · change (if b = a then _ else _ : RankingsNode).prev = _ ∧ (if b = a then _ else _ : RankingsNode).next = _
    split
    · rename_i here
      rw [here]
      exact ⟨prev.symm, link.symm⟩
    · exact ⟨rfl, rfl⟩
  · change (if b = a then none else _ : Option RankingsNode).isSome = true at opened
    split at opened
    · cases opened
    · exact opened

end

theorem Eviction.Watches.close (watches : eviction.Watches next list) (a : CacheAddr) :
    { eviction with rankings := eviction.rankings.closeEntry a }.Watches next list := by
  obtain ⟨lists, placed, numbered, candidate⟩ := watches
  exact ⟨lists, ⟨placed.ordered.closeEntry a, placed.member, placed.reuse, placed.held⟩, numbered.close a,
    fun it is_next => (candidate it is_next).close placed.ordered.mirrored a⟩

theorem Eviction.Placed.untouched (placed : eviction.Placed lists) {rankings : Rankings}
    (untouched : Untouched eviction.rankings rankings) : { eviction with rankings := rankings }.Placed lists :=
  ⟨placed.ordered.untouched untouched, placed.member, placed.reuse, placed.held⟩

theorem Eviction.Watches.free (watches : eviction.Watches next list) (node : Iterator) :
    { eviction with rankings := eviction.rankings.freeRankingsBlock node }.Watches next list := by
  obtain ⟨lists, placed, numbered, candidate⟩ := watches
  exact ⟨lists, placed.untouched ⟨rfl, rfl, rfl, rfl, rfl, rfl⟩, numbered.free node,
    fun it is_next => (candidate it is_next).free node⟩

theorem Cleanup.watches {after : Eviction} (cleanup : Cleanup eviction after)
    (watches : eviction.Watches next list) : after.Watches next list := by
  induction cleanup with
  | start => exact watches
  | doom a run its clock ih => exact ih.doom its clock
  | destroy a run its gone ih => exact ih.destroy its gone
  | close a run ih => exact ih.close a

end Events

section Trims

variable {maxSize : Int} {trim trim' : Trim}

structure Trim.Sound (trim : Trim) (list : RankList) : Prop where
  watches : trim.eviction.Watches trim.next list
  apart : ∀ node it, trim.node = some node → trim.next = some it → node.block ≠ it.block
  evicted : ∀ call ∈ trim.evicted, ¬ call.1.InUse call.2 ∧
    ∃ lists, WellFormed call.1.disk lists ∧ call.2 ∈ lists list

theorem Trim.Sound.advance (sound : trim.Sound list) {node : Iterator} {data : RankingsNode}
    (advanced : trim.advance maxSize list = some (trim', node, data)) :
    trim'.Sound list ∧ trim'.evicted = trim.evicted ∧ ∃ lists, trim'.eviction.Placed lists ∧
      node.address ∈ lists list ∧ ((trim'.eviction.rankings.openEntries node.address).isSome = true →
        data.dirty = trim'.eviction.rankings.currentEntryId) := by
  obtain ⟨lists, placed, numbered, candidate⟩ := sound.watches
  rw [Trim.advance] at advanced
  split at advanced
  · cases advanced
  split at advanced
  · cases advanced
  rename_i found
  obtain ⟨it, is_next, held⟩ := Option.bind_eq_some_iff.mp found
  split at advanced
  · cases advanced
  rename_i d its
  cases advanced
  rw [Rankings.tracked] at held
  have there := List.mem_of_find?_eq_some held
  have same : node.block = it.block := by simpa using List.find?_some held
  obtain ⟨agrees, listed⟩ := candidate it is_next node there same
  obtain ⟨inside, mark⟩ := listed data its
  have released : Untouched trim.eviction.rankings (trim.eviction.rankings.release trim.node) := by
    cases trim.node <;> exact ⟨rfl, rfl, rfl, rfl, rfl, rfl⟩
  have released_numbered : (trim.eviction.rankings.release trim.node).Numbered := by
    cases trim.node with
    | none => exact numbered
    | some old => exact numbered.free old
  have ordered := placed.ordered.untouched released
  obtain ⟨adds, candidate'⟩ := ordered.prev released_numbered (released.disk ▸ agrees) its inside
  have whole := released.trans adds.untouched
  refine ⟨⟨⟨lists, placed.untouched whole, released_numbered.adds adds, candidate'⟩, ?_,
    sound.evicted⟩, rfl, lists, placed.untouched whole, inside, ?_⟩
  · intro other it' is_node is_prev
    cases is_node
    have released_number : (trim.eviction.rankings.release trim.node).nextBlock =
        trim.eviction.rankings.nextBlock := by
      cases trim.node <;> rfl
    rw [(adds.block it' is_prev).1, released_number]
    exact Nat.ne_of_lt (numbered node there)
  · intro opened
    have before : (trim.eviction.rankings.openEntries node.address).isSome = true := by
      rw [← whole.entries]
      exact opened
    exact (mark before).trans whole.id.symm

theorem TrimStep.sound (step : TrimStep maxSize list trim trim') (kept : list ≠ .deleted)
    (sound : trim.Sound list) : trim'.Sound list := by
  cases step with
  | used advanced dirty => exact (sound.advance advanced).1
  | @failed mid node data after advanced unused cleanup numBytes =>
    obtain ⟨between, same, -⟩ := sound.advance advanced
    have watches := cleanup.watches (between.watches.free node)
    exact ⟨watches, between.apart, between.evicted⟩
  | @evicted mid node data info now advanced unused its clock numBytes late =>
    obtain ⟨between, same, lists, placed, inside, mark⟩ := sound.advance advanced
    obtain ⟨info', its', its_list⟩ := placed.entry inside
    obtain rfl : info' = info := Option.some.inj (its'.symm.trans its)
    have normal : info'.state = .normal := by
      by_contra gone
      exact kept (its_list.symm.trans (list_deleted gone))
    have watches : (mid.untrack node).eviction.Watches mid.next list := between.watches.free node
    refine ⟨watches.evict its normal clock, between.apart, fun call called => ?_⟩
    rcases mem_append.mp called with old | new
    · exact sound.evicted call old
    · rw [mem_singleton.mp new]
      exact ⟨fun in_use => unused (mark in_use.1), lists, placed.ordered.wf, inside⟩

theorem TrimRun.sound (run : TrimRun maxSize list trim trim') (kept : list ≠ .deleted)
    (sound : trim.Sound list) : trim'.Sound list := by
  induction run with
  | refl => exact sound
  | tail _ step ih => exact step.sound kept ih

end Trims

section Trimming

theorem selectListByLenght_searched (numEntries : Int) (sizes : RankList → Int) :
    selectListByLenght numEntries sizes ∈ RankList.searched := by
  rw [selectListByLenght]
  repeat' split
  all_goals decide

/-- The list that `TrimCacheV2(false)` evicts from. -/
def Eviction.selectedList (clock : RankList → Int) (numEntries later : Int) (eviction : Eviction) :
    RankList :=
  (eviction.rankings.lookAtLists clock).select numEntries later

def Eviction.trimmed (clock : RankList → Int) (numEntries later numBytes : Int)
    (eviction : Eviction) : Trim :=
  eviction.trim (eviction.rankings.lookAtLists clock)
    (eviction.selectedList clock numEntries later) numBytes

variable (eviction : Eviction) (placed : eviction.Placed lists) (numbered : eviction.rankings.Numbered)
  (clock : RankList → Int) (numEntries later maxSize numBytes : Int)
include placed numbered

theorem selectedList_eq : eviction.selectedList clock numEntries later =
    match (RankList.searched.filter (eviction.rankings.oldEnough lists clock)).getLast? with
    | some list => list
    | none =>
      let list := selectListByLenght numEntries eviction.rankings.disk.control.sizes
      if list ≠ .noUse ∧ nodeIsOldEnough (eviction.rankings.oldest lists list) .noUse later = false
      then .noUse
      else list := by
  have looked := looked_atLists placed.ordered numbered clock
  rw [Eviction.selectedList, Selection.select, looked.list]
  split
  · rfl
  · rw [looked.untouched.disk]
    have searched :=
      selectListByLenght_searched numEntries eviction.rankings.disk.control.sizes
    generalize selectListByLenght numEntries eviction.rankings.disk.control.sizes = list at searched
    have used : (list = .highUse ∨ list = .lowUse) ↔ list ≠ .noUse := by
      revert searched
      cases list <;> decide
    simp only [nodeIsOldEnough_congr (looked.node list searched), used, Bool.not_eq_true']

theorem selectedList_searched : eviction.selectedList clock numEntries later ∈ RankList.searched := by
  rw [selectedList_eq eviction placed numbered]
  split
  · rename_i list last
    exact (mem_filter.mp (List.mem_of_getLast? last)).1
  · simp only
    split
    · decide
    · exact selectListByLenght_searched ..

theorem selectedList_iff : eviction.selectedList clock numEntries later =
      eviction.rankings.listToEvict lists clock numEntries later ↔
    ∀ l ∈ RankList.searched, ∀ l' ∈ RankList.searched, eviction.rankings.oldEnough lists clock l = true →
      eviction.rankings.oldEnough lists clock l' = true → l = l' := by
  have nodup : RankList.searched.Nodup := by decide
  rw [← find?_eq_last_iff nodup, selectedList_eq eviction placed numbered, Rankings.listToEvict]
  cases first : RankList.searched.find? (eviction.rankings.oldEnough lists clock) with
  | none =>
    rw [← List.head?_filter, List.head?_eq_none_iff] at first
    rw [first]
    exact ⟨fun _ => rfl, fun _ => rfl⟩
  | some list =>
    cases last : (RankList.searched.filter (eviction.rankings.oldEnough lists clock)).getLast? with
    | none =>
      rw [← List.head?_filter, List.getLast?_eq_none_iff.mp last] at first
      cases first
    | some list' => exact ⟨fun same => congrArg some same.symm, fun same => (Option.some.inj same).symm⟩

theorem trimmed_sound : (eviction.trimmed clock numEntries later numBytes).Sound
    (eviction.selectedList clock numEntries later) := by
  have looked := looked_atLists placed.ordered numbered clock
  refine ⟨⟨lists, placed.untouched looked.untouched, looked.numbered, fun it is_next => ?_⟩,
    (fun _ _ no => by cases no), (fun _ no => by cases no)⟩
  exact (looked.next _ it is_next).2

/-- A trim evicts from the right list, and nothing that is in use, exactly where no two of the lists
exceed their target ages. -/
theorem trim_evicts_first_old_list_iff : (eviction.selectedList clock numEntries later =
        eviction.rankings.listToEvict lists clock numEntries later ∧
      ∀ trim, TrimRun maxSize (eviction.selectedList clock numEntries later)
          (eviction.trimmed clock numEntries later numBytes) trim →
        ∀ call ∈ trim.evicted, ¬ call.1.InUse call.2 ∧ ∃ lists', WellFormed call.1.disk lists' ∧
          call.2 ∈ lists' (eviction.rankings.listToEvict lists clock numEntries later)) ↔
    ∀ l ∈ RankList.searched, ∀ l' ∈ RankList.searched, eviction.rankings.oldEnough lists clock l = true →
      eviction.rankings.oldEnough lists clock l' = true → l = l' := by
  rw [← selectedList_iff eviction placed numbered clock numEntries later]
  refine ⟨And.left, fun right => ⟨right, fun trim run => ?_⟩⟩
  have kept : eviction.selectedList clock numEntries later ≠ .deleted := by
    intro deleted
    have searched := selectedList_searched eviction placed numbered clock numEntries later
    rw [deleted] at searched
    revert searched
    decide
  rw [← right]
  exact (run.sound kept (trimmed_sound eviction placed numbered ..)).evicted

end Trimming

def pairAddr : RankList → Option CacheAddr
  | .noUse => some 0x90000001
  | .lowUse => some 0x90000002
  | _ => none

def pair : Disk :=
  ⟨⟨fun list => (pairAddr list).elim 0 fun _ => 1, fun list => (pairAddr list).getD 0,
      fun list => (pairAddr list).getD 0, 0, .none, .noUse⟩, fun a => ⟨1, 1, a, a, 0xa0000001, 0, 0⟩⟩

def pairLists : Lists := fun list => (pairAddr list).toList

def pairEviction : Eviction where
  rankings := .new pair true 1
  entries := fun a =>
    if a = 0x90000001 then some ⟨0, 0, .normal⟩
    else if a = 0x90000002 then some ⟨1, 0, .normal⟩
    else none
  removes := []

theorem mem_pairLists : a ∈ pairLists list ↔
    a = 0x90000001 ∧ list = .noUse ∨ a = 0x90000002 ∧ list = .lowUse := by
  rw [pairLists, Option.mem_toList]
  cases list <;> simp [pairAddr, eq_comm]

theorem pair_wellFormed : WellFormed pair pairLists := by
  refine ⟨fun list => ?_, fun list => ?_, fun list => ?_, fun list => ?_, fun l l' a one two => ?_,
    fun l a inside => ?_, fun l a inside => ?_⟩
  · cases list <;> rfl
  · cases list <;> rfl
  · have alone : ∀ a, Chain pair.links [a] := fun a =>
      (Chain.nil pair.links).cons ⟨rfl, rfl⟩ (fun b none => by cases none)
        (fun b none => by cases none) nodup_nil
    cases list with
    | noUse | lowUse => exact alone _
    | highUse | reserved | deleted => exact Chain.nil _
  · cases list <;> decide
  · rw [mem_pairLists] at one two
    rcases one with ⟨rfl, rfl⟩ | ⟨rfl, rfl⟩
    · rcases two with ⟨-, rfl⟩ | ⟨other, -⟩
      · rfl
      · exact absurd other (by decide)
    · rcases two with ⟨other, -⟩ | ⟨-, rfl⟩
      · exact absurd other (by decide)
      · rfl
  · rw [mem_pairLists] at inside
    rcases inside with ⟨rfl, -⟩ | ⟨rfl, -⟩
    · exact ⟨by decide, by decide⟩
    · exact ⟨by decide, by decide⟩
  · have sane : RankingsNode.Sane ⟨1, 1, a, a, 0xa0000001, 0, 0⟩ :=
      ⟨by simp, by simp, by simp⟩
    exact sane

theorem pair_placed : pairEviction.Placed pairLists where
  ordered := ⟨pair_wellFormed, ⟨rfl, rfl, rfl⟩, closed_mirrored fun _ => rfl, by decide⟩
  member := by
    intro a l
    rw [mem_pairLists]
    simp only [pairEviction]
    split
    · rename_i here
      subst here
      simp [EntryStore.list, EntryStore.getListForEntryV2, eq_comm]
    split
    · rename_i here
      subst here
      simp [EntryStore.list, EntryStore.getListForEntryV2, kHighUse, eq_comm]
    · rename_i first second
      simp [first, second]
  reuse := by
    intro a info its
    simp only [pairEviction] at its
    split at its
    · cases its
      decide
    split at its
    · cases its
      decide
    · cases its
  held := fun _ no => by cases no

theorem pair_numbered : pairEviction.rankings.Numbered := fun _ no => by cases no

def pairClock (hours : Int) : Int := 1 + kMicrosecondsPerHour * hours

theorem trim_evicts_first_old_list_pair : (∀ l ∈ RankList.searched, ∀ l' ∈ RankList.searched,
      pairEviction.rankings.oldEnough pairLists (fun _ => pairClock 200) l = true →
      pairEviction.rankings.oldEnough pairLists (fun _ => pairClock 200) l' = true → l = l') ∧
    pairEviction.selectedList (fun _ => pairClock 200) 2 (pairClock 200) = .noUse := by
  have one : ∀ l ∈ RankList.searched, ∀ l' ∈ RankList.searched,
      pairEviction.rankings.oldEnough pairLists (fun _ => pairClock 200) l = true →
      pairEviction.rankings.oldEnough pairLists (fun _ => pairClock 200) l' = true → l = l' := by
    decide
  obtain ⟨right, -⟩ := (trim_evicts_first_old_list_iff pairEviction pair_placed pair_numbered
    (fun _ => pairClock 200) 2 (pairClock 200) 0 1).mpr one
  exact ⟨one, right.trans (by decide)⟩

/-- With 400 hours both lists are old enough, and the entry of the second one is evicted. -/
theorem second_list_evicted :
    pairEviction.rankings.listToEvict pairLists (fun _ => pairClock 400) 2 (pairClock 400) = .noUse ∧
    pairEviction.selectedList (fun _ => pairClock 400) 2 (pairClock 400) = .lowUse ∧
    ∃ trim, TrimRun 0 .lowUse (pairEviction.trimmed (fun _ => pairClock 400) 2 (pairClock 400) 1) trim ∧
      trim.evicted.map Prod.snd = [0x90000002] := by
  have advanced : ∃ trim node data,
      (pairEviction.trimmed (fun _ => pairClock 400) 2 (pairClock 400) 1).advance 0 .lowUse =
        some (trim, node, data) ∧ node.address = 0x90000002 ∧
      data.dirty ≠ trim.eviction.rankings.currentEntryId ∧
      trim.eviction.entries node.address = some ⟨1, 0, .normal⟩ :=
    ⟨_, _, _, rfl, rfl, by decide, rfl⟩
  obtain ⟨trim, node, data, advanced, address, unused, its⟩ := advanced
  have clock : (9 : UInt64) ≠ 0 := by decide
  refine ⟨by decide, by decide, _, .single (.evicted advanced unused its clock 0 false), ?_⟩
  exact congrArg (fun a => [a]) address

end Glopen.Cache

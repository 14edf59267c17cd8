import Glopen.Cache.Eviction

/-! `SelfCheck` of rankings.cc: a walk along each list of nodes that may hold anything. -/
namespace Glopen.Cache

open Linked List

def errInvalidTail : Int := -2
def errInvalidHead : Int := -3
def errInvalidPrev : Int := -4
def errInvalidNext : Int := -5
def errInvalidEntry : Int := -6

/-- Of a node that is not dirty `dirty` is zero, which is no id of an entry. -/
def Rankings.checkEntry (rankings : Rankings) (data : RankingsNode) : Bool :=
  if data.dummy = 0 then true else rankings.currentEntryId ≠ data.dirty

/-- The loop of `CheckList`, in `fuel` passes at most. -/
def Rankings.checkListLoop (rankings : Rankings) : Nat → CacheAddr → CacheAddr → Nat → Option Int
  | 0, _, _, _ => none
  | fuel + 1, address, prev, numItems =>
    let data := rankings.disk.node address
    if data.prev ≠ prev then some errInvalidPrev
    else if !rankings.checkEntry data then some errInvalidEntry
    else if !data.next.isInitialized || data.next.isSeparateFile then some errInvalidNext
    else if address ≠ data.next then
      rankings.checkListLoop fuel data.next address (numItems + 1)
    else some (wrapInt32 (numItems + 1 : Nat))

def Rankings.checkList (rankings : Rankings) (fuel : Nat) (list : RankList) : Option Int :=
  let head := rankings.heads list
  let tail := rankings.tails list
  if !head.isInitialized then if !tail.isInitialized then some 0 else some errInvalidTail
  else if !tail.isInitialized then some errInvalidHead
  else if tail.isSeparateFile then some errInvalidTail
  else if head.isSeparateFile then some errInvalidHead
  else rankings.checkListLoop fuel head head 0

def Rankings.checkLists (rankings : Rankings) (fuel : Nat) : List RankList → Int → Option Int
  | [], total => some total
  | list :: lists, total =>
    match rankings.checkList fuel list with
    | none => none
    | some items =>
      if items < 0 then some items else rankings.checkLists fuel lists (wrapInt32 (total + items))

def Rankings.selfCheck (rankings : Rankings) (fuel : Nat) : Option Int :=
  rankings.checkLists fuel RankList.all 0

variable {rankings : Rankings} {address head prev : CacheAddr} {done : List CacheAddr} {list : RankList}
  {nodes : List CacheAddr} {n : Int} {fuel : Nat}

section Termination

/-- What a pass of the loop checks of the node at `address`, when it comes from `prev`. -/
structure Rankings.Accepts (rankings : Rankings) (address prev : CacheAddr) : Prop where
  back : (rankings.disk.node address).prev = prev
  entry : rankings.checkEntry (rankings.disk.node address) = true
  next : (rankings.disk.node address).next.IsBlock

/-- The loop comes to `address` from `prev`, behind the nodes that it has accepted, the latest
first. -/
inductive Rankings.Comes (rankings : Rankings) (head : CacheAddr) :
    CacheAddr → CacheAddr → List CacheAddr → Prop where
  | start : Comes rankings head head head []
  | pass {address prev : CacheAddr} {done : List CacheAddr} :
      Comes rankings head address prev done → rankings.Accepts address prev →
      address ≠ (rankings.disk.node address).next →
      Comes rankings head (rankings.disk.node address).next address (address :: done)

theorem Rankings.Comes.walked (comes : rankings.Comes head address prev done)
    (back : (rankings.disk.node address).prev = prev) : Walked rankings.disk.links head (address :: done) := by
  induction comes with
  | start => exact .start back
  | pass _ accepts moves ih => exact .step (ih accepts.back) (fun same => moves same.symm) back

theorem Rankings.Comes.nodup (comes : rankings.Comes head address prev done) : done.Nodup := by
  cases comes with
  | start => exact nodup_nil
  | pass earlier accepts _ => exact (earlier.walked accepts.back).nodup

theorem nodup_short {ns : List Nat} (distinct : ns.Nodup) (bound : Nat)
    (below : ∀ n ∈ ns, n < bound) : ns.length ≤ bound := by
  have inside : ns ⊆ List.range bound := fun n member => mem_range.mpr (below n member)
  have fewer := (distinct.subperm inside).length_le
  rwa [length_range] at fewer

theorem addresses_few {addrs : List CacheAddr} (distinct : addrs.Nodup) : addrs.length ≤ 2 ^ 32 := by
  have values : (addrs.map UInt32.toNat).Nodup :=
    List.Nodup.map (fun a b same => UInt32.toNat_inj.mp same) distinct
  have few := nodup_short values (2 ^ 32) fun n member => by
    obtain ⟨a, -, rfl⟩ := List.mem_map.mp member
    exact a.toNat_lt
  rwa [length_map] at few

variable (rankings) in
theorem checkListLoop_cases (fuel : Nat) (address prev : CacheAddr) (numItems : Nat) :
    (∃ error, error < 0 ∧ ¬ rankings.Accepts address prev ∧
      rankings.checkListLoop (fuel + 1) address prev numItems = some error) ∨
    rankings.Accepts address prev ∧ rankings.checkListLoop (fuel + 1) address prev numItems =
        if address ≠ (rankings.disk.node address).next then
          rankings.checkListLoop fuel (rankings.disk.node address).next address (numItems + 1)
        else some (wrapInt32 (numItems + 1 : Nat)) := by
  rw [Rankings.checkListLoop]
  by_cases back : (rankings.disk.node address).prev ≠ prev
  · rw [if_pos back]
    exact Or.inl ⟨_, by decide, fun accepts => back accepts.back, rfl⟩
  rw [if_neg back]
  cases entry : rankings.checkEntry (rankings.disk.node address) with
  | false =>
    refine Or.inl ⟨errInvalidEntry, by decide, fun accepts => ?_, rfl⟩
    rw [accepts.entry] at entry
    cases entry
  | true =>
    rw [if_neg (by decide)]
    cases initialized : (rankings.disk.node address).next.isInitialized with
    | false =>
      refine Or.inl ⟨errInvalidNext, by decide, fun accepts => ?_, rfl⟩
      rw [accepts.next.initialized] at initialized
      cases initialized
    | true =>
      cases separate : (rankings.disk.node address).next.isSeparateFile with
      | true =>
        refine Or.inl ⟨errInvalidNext, by decide, fun accepts => ?_, rfl⟩
        rw [accepts.next.inFile] at separate
        cases separate
      | false =>
        rw [if_neg (by decide)]
        exact Or.inr ⟨⟨Classical.not_not.mp back, entry, initialized, separate⟩, rfl⟩

theorem checkListLoop_returns (fuel : Nat) (numItems : Nat) (comes : rankings.Comes head address prev done)
    (enough : 2 ^ 32 < fuel + done.length) : (rankings.checkListLoop fuel address prev numItems).isSome := by
  induction fuel generalizing address prev done numItems with
  | zero =>
    have few := addresses_few comes.nodup
    omega
  | succ fuel ih =>
    rcases checkListLoop_cases rankings fuel address prev numItems with
      ⟨error, -, -, stops⟩ | ⟨accepts, goes⟩
    · rw [stops]
      rfl
    · rw [goes]
      split
      · rename_i moves
        refine ih (numItems + 1) (.pass comes accepts moves) ?_
        rw [length_cons]
        omega
      · rfl

/-- The loop of `CheckList` accepts no address twice, and comes to an end. -/
theorem check_list_terminates (rankings : Rankings) (list : RankList) :
    (∀ address prev done, rankings.Comes (rankings.heads list) address prev done →
      done.Nodup ∧ ((rankings.disk.node address).prev = prev → address ∉ done)) ∧
    ∃ fuel, (rankings.checkListLoop fuel (rankings.heads list) (rankings.heads list) 0).isSome ∧
      (rankings.checkList fuel list).isSome := by
  constructor
  · intro address prev done comes
    exact ⟨comes.nodup, fun back => (List.nodup_cons.mp (comes.walked back).nodup).1⟩
  · have nothing_done : rankings.Comes (rankings.heads list) (rankings.heads list)
        (rankings.heads list) [] := .start
    have returns := checkListLoop_returns (2 ^ 32 + 1) 0 nothing_done (by simp)
    refine ⟨2 ^ 32 + 1, returns, ?_⟩
    rw [Rankings.checkList]
    repeat' split
    all_goals first | rfl | exact returns

end Termination

/-- What the stored words and links say of a list: different nodes from the recorded head along the
links, each linked back to the one before it, up to one that is linked to itself. -/
structure Rankings.Spans (rankings : Rankings) (list : RankList) (nodes : List CacheAddr) : Prop where
  empty : nodes = [] ↔ (rankings.heads list).isInitialized = false
  head : ∀ a ∈ nodes.head?, a = rankings.heads list
  chain : Chain rankings.disk.links nodes
  nodup : nodes.Nodup

structure Rankings.WellLinked (rankings : Rankings) (list : RankList) (nodes : List CacheAddr) :
    Prop where
  spans : rankings.Spans list nodes
  noTail : nodes = [] → (rankings.tails list).isInitialized = false
  tail : ∀ a ∈ nodes.getLast?, a = rankings.tails list

/-- What `CheckList` looks at. -/
structure Rankings.Checked (rankings : Rankings) (list : RankList) (nodes : List CacheAddr) : Prop where
  spans : rankings.Spans list nodes
  ends : (rankings.tails list).isInitialized = (rankings.heads list).isInitialized
  blocks : (rankings.heads list).isInitialized = true →
    (rankings.tails list).isSeparateFile = false ∧ (rankings.heads list).isSeparateFile = false
  entries : ∀ a ∈ nodes, rankings.checkEntry (rankings.disk.node a) = true ∧
    (rankings.disk.node a).next.IsBlock

theorem Rankings.Spans.unique {nodes' : List CacheAddr} (spans : rankings.Spans list nodes)
    (spans' : rankings.Spans list nodes') : nodes = nodes' := by
  cases nodes with
  | nil => exact (spans'.empty.mpr (spans.empty.mp rfl)).symm
  | cons a as =>
    cases nodes' with
    | nil => exact absurd (spans.empty.mpr (spans'.empty.mp rfl)) (cons_ne_nil a as)
    | cons a' as' =>
      obtain rfl : a = a' := (spans.head a rfl).trans (spans'.head a' rfl).symm
      rw [spans.chain.unique spans'.chain spans.nodup spans'.nodup]

theorem Rankings.Comes.last {head address prev : CacheAddr} {done : List CacheAddr}
    (comes : rankings.Comes head address prev done) : (address :: done).getLast? = some head := by
  induction comes with
  | start => rfl
  | pass _ _ _ ih => rw [List.getLast?_cons_cons, ih]

theorem Rankings.Comes.entries (comes : rankings.Comes head address prev done) :
    ∀ a ∈ done, rankings.checkEntry (rankings.disk.node a) = true ∧ (rankings.disk.node a).next.IsBlock := by
  induction comes with
  | start => simp
  | pass _ accepts _ ih =>
    intro a member
    rcases mem_cons.mp member with rfl | before
    · exact ⟨accepts.entry, accepts.next⟩
    · exact ih a before

theorem checkListLoop_accepted (fuel : Nat) (numItems : Nat) (comes : rankings.Comes head address prev done)
    (returned : rankings.checkListLoop fuel address prev numItems = some n) (accepted : 0 ≤ n) :
    ∃ a p as, rankings.Comes head a p as ∧ rankings.Accepts a p ∧ (rankings.disk.node a).next = a := by
  induction fuel generalizing address prev done numItems with
  | zero => cases returned
  | succ fuel ih =>
    rcases checkListLoop_cases rankings fuel address prev numItems with
      ⟨error, negative, -, stops⟩ | ⟨accepts, goes⟩
    · rw [stops, Option.some.injEq] at returned
      omega
    · rw [goes] at returned
      split at returned
      · rename_i moves
        exact ih (numItems + 1) (.pass comes accepts moves) returned
      · rename_i ends
        exact ⟨address, prev, done, comes, accepts, (Classical.not_not.mp ends).symm⟩

theorem checkList_accepted (returned : rankings.checkList fuel list = some n)
    (accepted : 0 ≤ n) : ∃ nodes, rankings.Checked list nodes := by
  rw [Rankings.checkList] at returned
  cases no_head : (rankings.heads list).isInitialized with
  | false =>
    cases no_tail : (rankings.tails list).isInitialized with
    | false =>
      have spans : rankings.Spans list [] :=
        ⟨⟨fun _ => no_head, fun _ => rfl⟩, by simp, Chain.nil _, nodup_nil⟩
      exact ⟨[], spans, by rw [no_head, no_tail], fun some_head => by simp [no_head] at some_head, by simp⟩
    | true =>
      simp only [no_head, no_tail] at returned
      cases returned
      exact absurd accepted (by decide)
  | true =>
    cases some_tail : (rankings.tails list).isInitialized with
    | false =>
      simp only [no_head, some_tail] at returned
      cases returned
      exact absurd accepted (by decide)
    | true =>
      cases tail_file : (rankings.tails list).isSeparateFile with
      | true =>
        simp only [no_head, some_tail, tail_file] at returned
        cases returned
        exact absurd accepted (by decide)
      | false =>
        cases head_file : (rankings.heads list).isSeparateFile with
        | true =>
          simp only [no_head, some_tail, tail_file, head_file] at returned
          cases returned
          exact absurd accepted (by decide)
        | false =>
          simp only [no_head, some_tail, tail_file, head_file] at returned
          obtain ⟨a, p, as, comes, accepts, ends⟩ :=
            checkListLoop_accepted fuel 0 .start returned accepted
          have walked := comes.walked accepts.back
          refine ⟨(a :: as).reverse, ⟨?_, ?_, walked.chain ends, ?_⟩, ?_, ?_, ?_⟩
          · simp [no_head]
          · intro b first
            rw [List.head?_reverse, comes.last, Option.mem_some_iff] at first
            exact first.symm
          · exact nodup_reverse.mpr walked.nodup
          · rw [no_head, some_tail]
          · exact fun _ => ⟨tail_file, head_file⟩
          · intro b member
            rcases mem_cons.mp (mem_reverse.mp member) with rfl | before
            · exact ⟨accepts.entry, accepts.next⟩
            · exact comes.entries b before

theorem checkListLoop_checked (checked : rankings.Checked list nodes) (fuel : Nat)
    {rest : List CacheAddr} (split : nodes = done ++ address :: rest) :
    rankings.checkListLoop fuel address (done.getLastD address) done.length =
      if rest.length < fuel then some (wrapInt32 nodes.length) else none := by
  induction fuel generalizing done rest address with
  | zero => rfl
  | succ fuel ih =>
    obtain ⟨back, next⟩ := checked.spans.chain done address rest split
    have its := checked.entries address (by simp [split])
    have accepts : rankings.Accepts address (done.getLastD address) := ⟨back, its.1, its.2⟩
    rcases checkListLoop_cases rankings fuel address (done.getLastD address)
      done.length with ⟨error, -, refused, -⟩ | ⟨-, goes⟩
    · exact absurd accepts refused
    rw [goes]
    have next_is : (rankings.disk.node address).next = rest.headD address := next
    cases rest with
    | nil =>
      rw [next_is, headD_nil, if_neg (fun other => other rfl), if_pos (by simp), split,
        length_append, length_singleton]
    | cons b rest =>
      have distinct := checked.spans.nodup
      rw [split, nodup_append, nodup_cons] at distinct
      have other : address ≠ b := fun same => distinct.2.1.1 (by simp [same])
      have further := ih (show nodes = (done ++ [address]) ++ b :: rest by simp [split])
      rw [getLastD_concat, length_append, length_singleton] at further
      rw [next_is, headD_cons, if_pos other, further]
      simp only [length_cons, Nat.add_lt_add_iff_right]

theorem checkList_checked (checked : rankings.Checked list nodes) (fuel : Nat) :
    rankings.checkList fuel list = if nodes.length ≤ fuel then some (wrapInt32 nodes.length) else none := by
  rw [Rankings.checkList]
  cases nodes with
  | nil =>
    have no_head := checked.spans.empty.mp rfl
    have no_tail := checked.ends.trans no_head
    simp only [no_head, no_tail]
    rfl
  | cons a as =>
    have some_head : (rankings.heads list).isInitialized = true := by
      cases none : (rankings.heads list).isInitialized with
      | true => rfl
      | false => exact absurd (checked.spans.empty.mpr none) (cons_ne_nil a as)
    have some_tail := checked.ends.trans some_head
    obtain ⟨tail_file, head_file⟩ := checked.blocks some_head
    have first : a = rankings.heads list := checked.spans.head a rfl
    have loop := checkListLoop_checked checked fuel (show a :: as = [] ++ a :: as from rfl)
    rw [first] at loop
    simp only [some_head, some_tail, tail_file, head_file]
    exact loop

section Stored

def CacheAddr.location (addr : CacheAddr) : CacheAddr × CacheAddr :=
  (addr &&& 0x70000000, addr &&& 0x00ffffff)

def Rankings.stored (rankings : Rankings) (blocks : CacheAddr × CacheAddr → RankingsNode) : Rankings :=
  { rankings with disk.node := fun addr => blocks addr.location }

def CacheAddr.place (addr : CacheAddr) : Nat :=
  addr.toNat / 2 ^ 28 % 8 * 2 ^ 24 + addr.toNat % 2 ^ 24

theorem place_location {a b : CacheAddr} (same : a.place = b.place) : a.location = b.location := by
  have types : a.toNat / 2 ^ 28 % 8 = b.toNat / 2 ^ 28 % 8 ∧ a.toNat % 2 ^ 24 = b.toNat % 2 ^ 24 := by
    simp only [CacheAddr.place] at same
    omega
  have high : ∀ c : CacheAddr, (c &&& 0x70000000).toNat = c.toNat / 2 ^ 28 % 8 * 2 ^ 28 := by
    intro c
    have mask : (0x70000000 : UInt32).toNat = (2 ^ 3 - 1) <<< 28 := rfl
    rw [UInt32.toNat_and, mask]
    apply Nat.eq_of_testBit_eq
    intro i
    rw [Nat.testBit_and, Nat.testBit_shiftLeft, Nat.testBit_two_pow_sub_one, Nat.testBit_mul_two_pow,
      show (8 : Nat) = 2 ^ 3 from rfl, Nat.testBit_mod_two_pow, Nat.testBit_div_two_pow]
    by_cases above : 28 ≤ i
    · rw [Nat.sub_add_cancel above]
      simp only [above, decide_true, Bool.true_and]
      exact Bool.and_comm _ _
    · simp [above]
  have low : ∀ c : CacheAddr, (c &&& 0x00ffffff).toNat = c.toNat % 2 ^ 24 := by
    intro c
    rw [UInt32.toNat_and]
    exact Nat.and_two_pow_sub_one_eq_mod c.toNat 24
  rw [CacheAddr.location, CacheAddr.location, Prod.mk.injEq, ← UInt32.toNat_inj, ← UInt32.toNat_inj,
    high, high, low, low, types.1, types.2]
  exact ⟨rfl, rfl⟩

theorem place_small (addr : CacheAddr) : addr.place < 2 ^ 27 := by
  rw [CacheAddr.place]
  omega

variable {blocks : CacheAddr × CacheAddr → RankingsNode}

theorem checked_few (checked : (rankings.stored blocks).Checked list nodes) : nodes.length ≤ 2 ^ 27 + 1 := by
  cases nodes with
  | nil => simp
  | cons h as =>
    have walked := checked.spans.chain.walked checked.spans.nodup
    have alike : ∀ a b : CacheAddr, a.place = b.place →
        (rankings.stored blocks).disk.links.prev a = (rankings.stored blocks).disk.links.prev b := by
      intro a b same
      change (blocks a.location).prev = (blocks b.location).prev
      rw [place_location same]
    have few := nodup_short (walked.nodup_map CacheAddr.place alike) (2 ^ 27) fun n member => by
      obtain ⟨a, -, rfl⟩ := List.mem_map.mp member
      exact place_small a
    simp only [length_map, length_dropLast, length_reverse, length_cons] at few
    rw [length_cons]
    omega

def total (lists : RankList → List CacheAddr) (walked : List RankList) : Nat :=
  (walked.map fun list => (lists list).length).sum

theorem wrapInt32_small {n : Nat} (small : n < 2 ^ 31) : wrapInt32 n = n := by
  rw [wrapInt32, Int.bmod_eq_of_le] <;> omega

theorem checkLists_accepted {walked : List RankList} {before : Int}
    (returned : rankings.checkLists fuel walked before = some n) (accepted : 0 ≤ n) :
    ∀ list ∈ walked, ∃ nodes, rankings.Checked list nodes := by
  induction walked generalizing before with
  | nil => simp
  | cons list walked ih =>
    rw [Rankings.checkLists] at returned
    cases one : rankings.checkList fuel list with
    | none => simp [one] at returned
    | some items =>
      simp only [one] at returned
      split at returned
      · cases returned
        omega
      · rename_i positive
        intro l member
        rcases mem_cons.mp member with rfl | later
        · exact checkList_accepted one (Int.not_lt.mp positive)
        · exact ih returned l later

variable {lists : RankList → List CacheAddr}
  (checked : ∀ list, (rankings.stored blocks).Checked list (lists list))
include checked

theorem checkLists_checked (fuel : Nat) (walked : List RankList) (before : Nat)
    (small : before + walked.length * (2 ^ 27 + 1) < 2 ^ 31) :
    (rankings.stored blocks).checkLists fuel walked before =
      if ∀ list ∈ walked, (lists list).length ≤ fuel then
        some ((before + total lists walked : Nat) : Int)
      else none := by
  induction walked generalizing before with
  | nil => simp [Rankings.checkLists, total]
  | cons list walked ih =>
    have few := checked_few (checked list)
    rw [length_cons] at small
    rw [Rankings.checkLists, checkList_checked (checked list)]
    by_cases enough : (lists list).length ≤ fuel
    · have sum : wrapInt32 (before + (lists list).length : Int) = (before + (lists list).length : Nat) := by
        rw [← Int.natCast_add, wrapInt32_small (by omega)]
      rw [if_pos enough, wrapInt32_small (by omega)]
      simp only
      rw [if_neg (by omega), sum, ih (before + (lists list).length) (by omega)]
      simp only [mem_cons, forall_eq_or_imp, enough, true_and, total, map_cons, sum_cons, Nat.add_assoc]
    · rw [if_neg enough, if_neg]
      intro all
      exact enough (all list (mem_cons_self ..))

theorem selfCheck_checked (fuel : Nat)
    (returned : (rankings.stored blocks).selfCheck fuel = some n) : n = total lists RankList.all := by
  have all := checkLists_checked checked fuel RankList.all 0 (by decide)
  rw [Rankings.selfCheck, ← Int.natCast_zero, all] at returned
  split at returned
  · cases returned
    rw [Nat.zero_add]
  · cases returned

theorem selfCheck_returns :
    ∃ fuel, (rankings.stored blocks).selfCheck fuel = some (total lists RankList.all : Int) := by
  refine ⟨2 ^ 27 + 1, ?_⟩
  have all := checkLists_checked checked (2 ^ 27 + 1) RankList.all 0 (by decide)
  rw [Rankings.selfCheck, ← Int.natCast_zero, all, if_pos fun list _ => checked_few (checked list), Nat.zero_add]

end Stored

/-- Where `SelfCheck` returns a count, every list is linked from its recorded head to its recorded
tail, and the count is that of all nodes. -/
def Rankings.SelfCheckSound (rankings : Rankings) : Prop :=
  ∀ fuel n, rankings.selfCheck fuel = some n → 0 ≤ n → ∃ lists : RankList → List CacheAddr,
      (∀ list, rankings.WellLinked list (lists list)) ∧ n = total lists RankList.all

/-- If all lists have what `CheckList` looks at, none of them ends away from its recorded tail. -/
def Rankings.EndsAtTails (rankings : Rankings) : Prop :=
  ∀ lists : RankList → List CacheAddr, (∀ list, rankings.Checked list (lists list)) →
    ∀ list, ∀ a ∈ (lists list).getLast?, a = rankings.tails list

theorem rankList_all (list : RankList) : list ∈ RankList.all := by
  cases list <;> decide

/-- `CheckList` never compares the node that is linked to itself with the tail. -/
theorem self_check_sound_iff (rankings : Rankings) (blocks : CacheAddr × CacheAddr → RankingsNode) :
    (rankings.stored blocks).SelfCheckSound ↔ (rankings.stored blocks).EndsAtTails := by
  constructor
  · intro sound lists checked list
    obtain ⟨fuel, returned⟩ := selfCheck_returns checked
    obtain ⟨lists', linked, -⟩ := sound fuel _ returned (by omega)
    rw [(checked list).spans.unique (linked list).spans]
    exact (linked list).tail
  · intro ends fuel n returned accepted
    have each : ∀ list, ∃ nodes, (rankings.stored blocks).Checked list nodes :=
      fun list => checkLists_accepted returned accepted list (rankList_all list)
    choose lists checked using each
    refine ⟨lists, fun list => ?_, selfCheck_checked checked fuel returned⟩
    have its := checked list
    exact ⟨its.spans, fun none => its.ends.trans (its.spans.empty.mp none), ends lists checked list⟩

def strayTail : Rankings :=
  .new { single with control.tails := fun list => if list = .noUse then 0x90000002 else 0 } true 1

theorem stray_tail_accepted : strayTail.selfCheck 2 = some 1 ∧ strayTail.tails .noUse = 0x90000002 ∧
      ¬ strayTail.SelfCheckSound := by
  have returned : strayTail.selfCheck 2 = some 1 := by decide
  refine ⟨returned, rfl, fun sound => ?_⟩
  obtain ⟨lists, linked, -⟩ := sound 2 1 returned (by decide)
  have its := linked .noUse
  cases nodes : lists .noUse with
  | nil => exact absurd (its.spans.empty.mp nodes) (by decide)
  | cons a as =>
    have first : a = singleAddr := its.spans.head a (by rw [nodes]; rfl)
    have alone : as = [] := by
      have chain := its.spans.chain
      rw [nodes] at chain
      cases as with
      | nil => rfl
      | cons b bs =>
        have next : singleAddr = b := chain.head.2
        have distinct := its.spans.nodup
        rw [nodes, first, next] at distinct
        exact absurd (List.mem_cons_self ..) (List.nodup_cons.mp distinct).1
    have tail := its.tail a (by rw [nodes, alone]; rfl)
    rw [first] at tail
    exact absurd tail (by decide)

end Glopen.Cache

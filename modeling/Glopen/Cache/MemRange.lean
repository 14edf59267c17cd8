import Mathlib.Data.Nat.Find
import Glopen.Cache.MemSparse

/-! The range queries of mem_entry_impl.cc. Where a sum leaves the range of its `int` or `int64`
there is no result. -/
namespace Glopen.Cache

open Option MemEntryImpl

def addInt (a b : Nat) : Option Nat := if a + b < 2 ^ 31 then some (a + b) else none

def addInt64 (a b : Int) : Option Int := if a + b < 2 ^ 63 then some (a + b) else none

def MemEntryImpl.firstPos (entry : MemEntryImpl) (position : Int) : Option (Nat × MemEntry) :=
  match entry.findChild (toChildIndex position) with
  | none => none
  | some child =>
    let firstPos := max (toChildOffset position) child.childFirstPos
    if firstPos < child.dataSize then some (firstPos, child) else none

def findNextLoop (entry : MemEntryImpl) (offset len : Int) : Nat → Nat → Option (Nat × Option MemEntry)
  | 0, _ => none
  | fuel + 1, scannedLen =>
    if len ≤ scannedLen then some (scannedLen, none)
    else
      (addInt64 offset scannedLen).bind fun position =>
        match entry.firstPos position with
        | some (firstPos, child) =>
          (addInt scannedLen (firstPos - toChildOffset position)).map (·, some child)
        | none =>
          (addInt scannedLen (maxSparseEntrySize - toChildOffset position)).bind
            (findNextLoop entry offset len fuel)

def MemEntryImpl.findNextChild (entry : MemEntryImpl) (offset len : Int) :
    Option (Nat × Option MemEntry) :=
  findNextLoop entry offset len (len.toNat + 1) 0

def availableLoop (entry : MemEntryImpl) (start : Int) : Nat → Option MemEntry → Int → Int → Option Int
  | 0, _, _, _ => none
  | _ + 1, none, _, continuous => some continuous
  | fuel + 1, some child, len, continuous =>
    if len = 0 then some continuous
    else
      (addInt64 start continuous).bind fun position =>
        let dataSize : Int := (child.dataSize : Int) - toChildOffset position
        let dataSize := if len < dataSize then len else dataSize
        let continuous := continuous + dataSize
        let len := len - dataSize
        (addInt64 start continuous).bind fun position =>
          (entry.findNextChild position len).bind fun (empty, child) =>
            if empty ≠ 0 then some continuous else availableLoop entry start fuel child len continuous

/-- The number of bytes, and `*start`. Each pass but the last takes away a byte of `len`, unless
that is negative. -/
def MemEntryImpl.getAvailableRange (entry : MemEntryImpl) (offset len : Int) :
    MemEntryImpl × Except NetError (Option (Int × Int)) :=
  match entry.initSparseInfo with
  | .error error => (entry, .error error)
  | .ok entry =>
    if offset < 0 ∨ len < 0 then (entry, .error .invalidArgument)
    else
      (entry, .ok ((entry.findNextChild offset len).bind fun (empty, child) =>
        match child with
        | none => some (0, offset)
        | some child =>
          (addInt64 offset empty).bind fun start =>
            (availableLoop entry start (len.toNat + 2) (some child) (len - empty) 0).map (·, start)))

structure MemEntryImpl.Children (entry : MemEntryImpl) : Prop where
  ready : entry.sparse = true ∨ entry.own.dataSize = 0
  whole : ∀ {index child}, entry.findChild index = some child → child.dataSize ≤ child.data.length
  short : ∀ {index child}, entry.findChild index = some child → child.dataSize ≤ maxSparseEntrySize

variable {entry : MemEntryImpl} {offset len finish first last : Nat} {child : MemEntry} {next : Nat}

def scanLimit (offset len : Nat) : Nat :=
  if len = 0 then offset else (blockOf (offset + len - 1) + 1) * maxSparseEntrySize

structure SearchEnds (entry : MemEntryImpl) (offset len finish : Nat) : Prop where
  above : offset ≤ finish
  below : finish ≤ scanLimit offset len
  empty : ∀ pos, offset ≤ pos → pos < finish → ¬ Stored entry pos
  found : finish < scanLimit offset len → Stored entry finish

/-- The length of the search is an `int`, and its positions are of type `int64`. -/
def SearchFits (offset len finish : Nat) : Prop :=
  finish - offset < 2 ^ 31 ∧ (finish < 2 ^ 63 ∨ offset + len ≤ 2 ^ 63)

instance (offset len finish : Nat) : Decidable (SearchFits offset len finish) :=
  inferInstanceAs (Decidable (_ ∧ _))

theorem scanLimit_bounds (offset len : Nat) : offset + len ≤ scanLimit offset len := by
  have size : maxSparseEntrySize = 4096 := rfl
  rw [scanLimit, blockOf, size]
  split <;> omega

theorem search_ends (entry : MemEntryImpl) (offset len : Nat) :
    ∃ finish, SearchEnds entry offset len finish := by
  have above := scanLimit_bounds offset len
  by_cases some_stored : ∃ pos, offset ≤ pos ∧ pos < scanLimit offset len ∧ Stored entry pos
  · classical
    obtain ⟨from_offset, inside, stored⟩ := Nat.find_spec some_stored
    refine ⟨Nat.find some_stored, from_offset, Nat.le_of_lt inside, fun pos later earlier there => ?_,
      fun _ => stored⟩
    exact Nat.find_min some_stored earlier ⟨later, Nat.lt_trans earlier inside, there⟩
  · refine ⟨scanLimit offset len, by omega, le_rfl, fun pos later earlier there => ?_,
      fun beyond => absurd beyond (lt_irrefl _)⟩
    exact some_stored ⟨pos, later, earlier, there⟩

theorem SearchEnds.unique {finish' : Nat}
    (ends : SearchEnds entry offset len finish) (ends' : SearchEnds entry offset len finish') :
    finish = finish' := by
  have below := ends.below
  have below' := ends'.below
  rcases Nat.lt_trichotomy finish finish' with lower | same | higher
  · exact absurd (ends.found (by omega)) (ends'.empty finish ends.above lower)
  · exact same
  · exact absurd (ends'.found (by omega)) (ends.empty finish' ends'.above higher)

theorem MemEntryImpl.Children.firstPos_cases (children : entry.Children) (position : Nat) :
    (∃ pos child, position ≤ pos ∧ blockOf pos = blockOf position ∧ Stored entry pos ∧
      (∀ other, position ≤ other → other < pos → ¬ Stored entry other) ∧
      entry.findChild (toChildIndex pos) = some child ∧
      entry.firstPos position = some (pos % maxSparseEntrySize, child)) ∨
    entry.firstPos position = none ∧
      ∀ other, position ≤ other → blockOf other = blockOf position → ¬ Stored entry other := by
  have size : maxSparseEntrySize = 4096 := rfl
  have same_child : ∀ other : Nat, blockOf other = blockOf position →
      toChildIndex other = toChildIndex position := by
    intro other same
    rw [toChildIndex_eq, toChildIndex_eq, same]
  rw [MemEntryImpl.firstPos]
  cases found : entry.findChild (toChildIndex position) with
  | none =>
    refine .inr ⟨rfl, fun other _ same stored => ?_⟩
    obtain ⟨child, found', -, -⟩ := stored
    rw [same_child other same, found] at found'
    cases found'
  | some child =>
    simp only
    rw [toChildOffset_eq, size]
    split
    · rename_i inside
      have short := children.short found
      rw [size] at short
      generalize first : max (position % 4096) child.childFirstPos = firstPos at inside ⊢
      have block : blockOf (blockOf position * 4096 + firstPos) = blockOf position := by
        rw [blockOf, blockOf, size]
        omega
      have offset : (blockOf position * 4096 + firstPos) % 4096 = firstPos := by omega
      refine .inl ⟨blockOf position * 4096 + firstPos, child, ?_, block,
        ⟨child, ?_, ?_, ?_⟩, fun other later earlier stored => ?_, ?_, ?_⟩
      · rw [blockOf, size]
        omega
      · rw [same_child _ block, found]
      · rw [toChildOffset_eq, size, offset]
        omega
      · rw [toChildOffset_eq, size, offset]
        exact inside
      · obtain ⟨child', found', above, below⟩ := stored
        rw [blockOf, size] at earlier
        have same : blockOf other = blockOf position := by
          rw [blockOf, blockOf, size]
          omega
        rw [same_child other same, found, Option.some.injEq] at found'
        rw [toChildOffset_eq, size] at above below
        rw [blockOf, blockOf, size] at same
        subst found'
        omega
      · rw [same_child _ block, found]
      · rw [offset]
    · rename_i outside
      refine .inr ⟨rfl, fun other later same stored => ?_⟩
      obtain ⟨child', found', above, below⟩ := stored
      rw [same_child other same, found, Option.some.injEq] at found'
      rw [toChildOffset_eq, size] at above below
      rw [blockOf, blockOf, size] at same
      subst found'
      omega

def MemEntryImpl.searched (entry : MemEntryImpl) (offset len finish : Nat) :
    Option (Nat × Option MemEntry) :=
  if SearchFits offset len finish then
    some (finish - offset,
      if finish < scanLimit offset len then entry.findChild (toChildIndex finish) else none)
  else none

/-- By induction on the passes that are left. Nothing is stored where the loop has been, which ends
at a block. -/
theorem findNextLoop_searched (children : entry.Children)
    (ends : SearchEnds entry offset len finish) (fuel : Nat)
    {scannedLen : Nat} (int_scanned : scannedLen < 2 ^ 31)
    (enough : len - scannedLen < fuel) (scanned : offset + scannedLen ≤ finish)
    (aligned : scannedLen = 0 ∨ (offset + scannedLen) % maxSparseEntrySize = 0)
    (reached : offset + scannedLen ≤ 2 ^ 63) :
    findNextLoop entry offset len fuel scannedLen = entry.searched offset len finish := by
  have size : maxSparseEntrySize = 4096 := rfl
  induction fuel generalizing scannedLen with
  | zero => exact absurd enough (Nat.not_lt_zero _)
  | succ fuel ih =>
    have below := ends.below
    have limited := scanLimit_bounds offset len
    rw [findNextLoop]
    by_cases beyond : len ≤ scannedLen
    · have limit : scanLimit offset len = offset + scannedLen := by
        rw [size] at aligned
        rw [scanLimit, blockOf, size] at below ⊢
        split at below <;> split <;> omega
      have last : finish = offset + scannedLen := by omega
      have fits : SearchFits offset len finish := ⟨by omega, .inr (by omega)⟩
      rw [if_pos (by omega), searched, if_pos fits, limit, last,
        if_neg (lt_irrefl _), Nat.add_sub_cancel_left]
    rw [if_neg (by omega), addInt64]
    by_cases beyond : 2 ^ 63 ≤ offset + scannedLen
    · have unfit : ¬ SearchFits offset len finish := by
        rintro ⟨-, before | before⟩ <;> omega
      rw [if_neg (by omega), searched, if_neg unfit]
      rfl
    rw [if_pos (by omega), bind_some, ← Int.natCast_add]
    rcases children.firstPos_cases (offset + scannedLen) with
      ⟨pos, child, later, same, stored, first, found, here⟩ | ⟨nothing, empty⟩
    · have last : finish = pos := by
        have inside : pos < scanLimit offset len := by
          rw [blockOf, blockOf, size] at same
          rw [scanLimit, blockOf, size]
          split <;> omega
        refine ends.unique ⟨by omega, Nat.le_of_lt inside, fun other above earlier there => ?_, fun _ => stored⟩
        by_cases before : other < offset + scannedLen
        · exact ends.empty other above (Nat.lt_of_lt_of_le before scanned) there
        · exact first other (not_lt.mp before) earlier there
      subst last
      rw [blockOf, blockOf, size] at same
      rw [here, searched]
      simp only
      rw [addInt, toChildOffset_eq, size]
      by_cases fits : finish - offset < 2 ^ 31
      · have in_range : SearchFits offset len finish := ⟨fits, .inl (by omega)⟩
        have inside : finish < scanLimit offset len := by
          rw [scanLimit, blockOf, size]
          split <;> omega
        have distance : scannedLen + (finish % 4096 - (offset + scannedLen) % 4096) = finish - offset := by
          omega
        rw [distance, if_pos fits, if_pos in_range, if_pos inside, found, map_some]
      · rw [if_neg (by omega), if_neg (fun in_range : SearchFits offset len finish => fits in_range.1)]
        rfl
    · rw [nothing]
      simp only
      rw [addInt, toChildOffset_eq, size]
      have beyond : (blockOf (offset + scannedLen) + 1) * 4096 ≤ finish := by
        by_contra before
        rw [blockOf, size] at before
        have stored := ends.found (by
          rw [scanLimit, blockOf, size]
          split <;> omega)
        refine empty finish scanned ?_ stored
        rw [blockOf, blockOf, size]
        omega
      rw [blockOf, size] at beyond
      by_cases fits : scannedLen + (4096 - (offset + scannedLen) % 4096) < 2 ^ 31
      · rw [if_pos fits, bind_some]
        exact ih fits (by omega) (by omega) (.inr (by rw [size]; omega)) (by omega)
      · rw [if_neg fits, searched, if_neg]
        · rfl
        · rintro ⟨short, -⟩
          omega

section Runs

structure RunEnds (entry : MemEntryImpl) (first limit last : Nat) : Prop where
  above : first ≤ last
  below : last ≤ limit
  full : ∀ pos, first ≤ pos → pos < last → Stored entry pos
  ended : last < limit → ¬ Stored entry last

variable {limit : Nat}

theorem run_ends (entry : MemEntryImpl) (below : first ≤ limit) : ∃ last, RunEnds entry first limit last := by
  by_cases hole : ∃ pos, first ≤ pos ∧ pos < limit ∧ ¬ Stored entry pos
  · classical
    obtain ⟨later, inside, missing⟩ := Nat.find_spec hole
    refine ⟨Nat.find hole, later, Nat.le_of_lt inside, fun pos above earlier => ?_, fun _ => missing⟩
    by_contra there
    exact Nat.find_min hole earlier ⟨above, Nat.lt_trans earlier inside, there⟩
  · refine ⟨limit, below, le_rfl, fun pos above inside => ?_, fun beyond => absurd beyond (lt_irrefl _)⟩
    by_contra there
    exact hole ⟨pos, above, inside, there⟩

section

theorem RunEnds.unique {last' : Nat}
    (ends : RunEnds entry first limit last) (ends' : RunEnds entry first limit last') : last = last' := by
  have below := ends.below
  have below' := ends'.below
  rcases Nat.lt_trichotomy last last' with lower | same | higher
  · exact absurd (ends'.full last ends.above lower) (ends.ended (by omega))
  · exact same
  · exact absurd (ends.full last' ends'.above higher) (ends'.ended (by omega))

theorem RunEnds.later {second : Nat}
    (ends : RunEnds entry first limit last) (from_first : first ≤ second) (above : second ≤ last) :
    RunEnds entry second limit last :=
  ⟨above, ends.below, fun pos later inside => ends.full pos (Nat.le_trans from_first later) inside, ends.ended⟩

theorem findNextChild_searched (children : entry.Children) (ends : SearchEnds entry offset len finish)
    (small : offset < 2 ^ 63) : entry.findNextChild offset len = entry.searched offset len finish := by
  rw [findNextChild, Int.toNat_natCast]
  exact findNextLoop_searched children ends _ (by decide) (by omega) ends.above (.inl rfl) (Nat.le_of_lt small)

variable {position : Nat}

theorem stored_up_to (children : entry.Children)
    (found : entry.findChild (toChildIndex position) = some child) (stored : Stored entry position) :
    position % maxSparseEntrySize < child.dataSize ∧
      ∀ pos, position ≤ pos → pos < position + (child.dataSize - position % maxSparseEntrySize) →
        Stored entry pos := by
  have size : maxSparseEntrySize = 4096 := rfl
  obtain ⟨child', found', above, below⟩ := stored
  rw [found, Option.some.injEq] at found'
  subst found'
  have short := children.short found
  rw [toChildOffset_eq, size] at above below
  rw [size] at short ⊢
  refine ⟨below, fun pos later inside => ⟨child, ?_, ?_, ?_⟩⟩
  · have same : blockOf pos = blockOf position := by
      rw [blockOf, blockOf, size]
      omega
    rw [toChildIndex_eq, same, ← toChildIndex_eq, found]
  · rw [toChildOffset_eq, size]
    omega
  · rw [toChildOffset_eq, size]
    omega

theorem availableLoop_counts (children : entry.Children) (start : Nat)
    (search : SearchEnds entry last (limit - last) next) (fuel : Nat) (enough : limit - position < fuel)
    (run : RunEnds entry position limit last) (from_start : start ≤ position)
    (inside : position < limit) (small : position < 2 ^ 63)
    (found : entry.findChild (toChildIndex position) = some child) (stored : Stored entry position) :
    availableLoop entry start fuel (some child) (limit - position : Nat) (position - start : Nat) =
      if last < 2 ^ 63 ∧ SearchFits last (limit - last) next then some ((last - start : Nat) : Int)
      else none := by
  induction fuel generalizing position child with
  | zero => exact absurd enough (Nat.not_lt_zero _)
  | succ fuel ih =>
    obtain ⟨offset_inside, full⟩ := stored_up_to children found stored
    have here : (start : Int) + (position - start : Nat) = position := by omega
    rw [availableLoop, if_neg (by omega), addInt64, here, if_pos (by omega), bind_some]
    simp only
    rw [toChildOffset_eq]
    generalize amount : min (limit - position) (child.dataSize - position % maxSparseEntrySize) = dataSize
    have chosen : (if ((limit - position : Nat) : Int) <
        (child.dataSize : Int) - (position % maxSparseEntrySize : Nat) then
          ((limit - position : Nat) : Int)
        else (child.dataSize : Int) - (position % maxSparseEntrySize : Nat)) = (dataSize : Nat) := by
      split <;> omega
    have reached : position + dataSize ≤ last := by
      by_contra short
      have below := run.below
      exact run.ended (by omega) (full last run.above (by omega))
    have count : ((position - start : Nat) : Int) + dataSize = (position + dataSize - start : Nat) := by
      omega
    have rest : ((limit - position : Nat) : Int) - dataSize = (limit - (position + dataSize) : Nat) := by
      omega
    have there : (start : Int) + (position + dataSize - start : Nat) = (position + dataSize : Nat) := by
      omega
    rw [chosen, count, rest, addInt64, there]
    have advanced : position < position + dataSize := by omega
    generalize position + dataSize = second at reached advanced
    by_cases beyond : 2 ^ 63 ≤ second
    · rw [if_neg (by omega), if_neg (by omega)]
      rfl
    rw [if_pos (by omega), bind_some]
    by_cases finished : second = limit
    · have same : last = second := by
        have below := run.below
        omega
      rw [same] at search ⊢
      have none_left : scanLimit second (limit - second) = second := by
        rw [scanLimit, if_pos (by omega)]
      have below := search.below
      have above := search.above
      have fits : SearchFits second (limit - second) next := ⟨by omega, .inl (by omega)⟩
      rw [findNextChild_searched children search (by omega), searched, if_pos fits,
        bind_some, if_neg (by omega), if_neg (by omega), if_pos ⟨by omega, fits⟩]
      cases fuel with
      | zero => omega
      | succ fuel => rfl
    have before : second < limit := by
      have below := run.below
      omega
    have limited := scanLimit_bounds second (limit - second)
    by_cases again : Stored entry second
    · have ends : SearchEnds entry second (limit - second) second :=
        ⟨le_rfl, by omega, fun pos above below => absurd below (by omega), fun _ => again⟩
      have fits : SearchFits second (limit - second) second := ⟨by omega, .inl (by omega)⟩
      obtain ⟨child', found', -⟩ := id again
      rw [findNextChild_searched children ends (by omega), searched, if_pos fits,
        bind_some, if_neg (by omega), if_pos (by omega), found']
      exact ih (by omega) (run.later (by omega) reached) (by omega) before (by omega) found' again
    · have same : last = second :=
        (run.later (by omega) reached).unique
          ⟨le_rfl, by omega, fun pos above below => absurd below (by omega), fun _ => again⟩
      subst same
      have moved : last < next := by
        by_contra unmoved
        have above := search.above
        have stays : next = last := by omega
        exact again (stays ▸ search.found (by omega))
      rw [findNextChild_searched children search (by omega), searched]
      by_cases fits : SearchFits last (limit - last) next
      · rw [if_pos fits, bind_some, if_pos (by omega), if_pos ⟨by omega, fits⟩]
      · rw [if_neg fits, if_neg (fun both => fits both.2)]
        rfl

theorem readSparseLoop_full (children : entry.Children) (fuel : Nat)
    {remaining : Nat} (enough : remaining < fuel) (small : offset % maxSparseEntrySize + remaining < 2 ^ 31)
    (stored : ∀ pos, offset ≤ pos → pos < offset + remaining → Stored entry pos) :
    ∃ bytes, readSparseLoop entry fuel offset remaining = some bytes ∧ bytes.length = remaining := by
  have size : maxSparseEntrySize = 4096 := rfl
  induction fuel generalizing offset remaining with
  | zero => exact absurd enough (Nat.not_lt_zero _)
  | succ fuel ih =>
    rw [readSparseLoop]
    by_cases finished : remaining = 0
    · exact ⟨[], if_pos finished, finished.symm⟩
    rw [if_neg finished]
    have here := stored offset le_rfl (by omega)
    obtain ⟨child, found, above, inside⟩ := id here
    have whole := children.whole found
    have short := children.short found
    rw [toChildOffset_eq] at above inside
    simp only [found]
    rw [if_neg (by rw [toChildOffset_eq]; omega),
      MemEntry.readData_small (by rw [toChildOffset_eq]; exact inside) finished
        (by rw [toChildOffset_eq]; exact small), toChildOffset_eq]
    have length : ((child.data.drop (offset % maxSparseEntrySize)).take
        (min remaining (child.dataSize - offset % maxSparseEntrySize))).length =
        min remaining (child.dataSize - offset % maxSparseEntrySize) := by
      rw [List.length_take, List.length_drop]
      omega
    generalize (child.data.drop (offset % maxSparseEntrySize)).take
      (min remaining (child.dataSize - offset % maxSparseEntrySize)) = first at length
    generalize amount : min remaining (child.dataSize - offset % maxSparseEntrySize) = len at length
    cases first with
    | nil =>
      rw [List.length_nil] at length
      omega
    | cons b first =>
      simp only [length]
      have room : (offset + len) % maxSparseEntrySize + (remaining - len) < 2 ^ 31 := by
        rw [size] at small short amount ⊢
        by_cases ended : offset % 4096 + len = 4096
        · omega
        by_cases beyond : remaining - len = 0
        · omega
        · omega
      obtain ⟨rest, read, rest_length⟩ := ih (by omega) room
        (fun pos later below => stored pos (by omega) (by omega))
      rw [Int.natCast_add] at read
      rw [read]
      refine ⟨_, rfl, ?_⟩
      rw [List.length_append, length, rest_length]
      omega

theorem MemEntryImpl.Children.initialized (children : entry.Children) :
    MemEntryImpl.Children { entry with sparse := true } :=
  ⟨.inl rfl, children.whole, children.short⟩

theorem SearchEnds.initialized (ends : SearchEnds entry offset len finish) :
    SearchEnds { entry with sparse := true } offset len finish :=
  ⟨ends.above, ends.below, ends.empty, ends.found⟩

theorem RunEnds.initialized (run : RunEnds entry first limit last) :
    RunEnds { entry with sparse := true } first limit last :=
  ⟨run.above, run.below, run.full, run.ended⟩

theorem readSparseData_full_iff (children : entry.Children)
    (above : first ≤ last) (int_len : last - first < 2 ^ 31)
    (stored : ∀ pos, first ≤ pos → pos < last → Stored entry pos) :
    (∃ bytes, (entry.readSparseData first (last - first : Nat)).2 = .ok (some bytes) ∧
      (bytes.length : Int) = (last - first : Nat)) ↔
      first % maxSparseEntrySize + (last - first) < 2 ^ 31 := by
  have size : maxSparseEntrySize = 4096 := rfl
  rw [readSparseData, initSparseInfo_fresh children.ready]
  simp only
  rw [if_neg (by omega), Int.toNat_natCast]
  constructor
  · rintro ⟨bytes, read, -⟩
    by_contra large
    rw [size] at large
    obtain ⟨child, found, above, inside⟩ := stored first le_rfl (by omega)
    have found' : findChild { entry with sparse := true } (toChildIndex first) = some child := found
    have overflow := MemEntry.readData_overflow (children.short found) inside int_len
      (by rw [toChildOffset_eq, size]; omega)
    rw [readSparseLoop, if_neg (by omega), found'] at read
    simp only [if_neg (not_lt.mpr above), overflow] at read
    cases read
  · intro small
    obtain ⟨bytes, read, length⟩ := readSparseLoop_full children.initialized
      (last - first + 1) (Nat.lt_succ_self _) small
      (fun pos later inside => stored pos later (by omega))
    exact ⟨bytes, congrArg Except.ok read, congrArg Nat.cast length⟩

end

end Runs

section Query

/-- What a query promises: a part of the range that can be read, or that nothing is stored there. -/
def RangeRight (entry : MemEntryImpl) (offset len : Nat) : Prop :=
  ∃ n start : Int, (entry.getAvailableRange offset len).2 = .ok (some (n, start)) ∧
    0 ≤ n ∧ offset ≤ start ∧ start + n ≤ offset + len ∧
    (∃ bytes, (entry.readSparseData start n).2 = .ok (some bytes) ∧ (bytes.length : Int) = n) ∧
    (n = 0 → ∀ pos, offset ≤ pos → pos < offset + len → ¬ Stored entry pos)

def RangeFits (entry : MemEntryImpl) (offset len : Nat) : Prop :=
  ∃ first, SearchEnds entry offset len first ∧ SearchFits offset len first ∧
    (first < scanLimit offset len → first ≤ offset + len ∧
      ∃ last next, RunEnds entry first (offset + len) last ∧
        SearchEnds entry last (offset + len - last) next ∧
        last < 2 ^ 63 ∧ first % maxSparseEntrySize + (last - first) < 2 ^ 31 ∧
        SearchFits last (offset + len - last) next)

variable (children : entry.Children) (small : offset < 2 ^ 63) (ends : SearchEnds entry offset len first)
include children small ends

theorem findNextChild_initialized : findNextChild { entry with sparse := true } offset len =
      entry.searched offset len first :=
  findNextChild_searched children.initialized ends.initialized small

theorem getAvailableRange_unfit (unfit : ¬ SearchFits offset len first) :
    (entry.getAvailableRange offset len).2 = .ok none := by
  rw [MemEntryImpl.getAvailableRange, initSparseInfo_fresh children.ready]
  simp only
  rw [if_neg (by omega), findNextChild_initialized children small ends, searched, if_neg unfit]
  rfl

theorem getAvailableRange_nothing (fits : SearchFits offset len first) (nothing : first = scanLimit offset len) :
    (entry.getAvailableRange offset len).2 = .ok (some (0, (offset : Int))) := by
  rw [MemEntryImpl.getAvailableRange, initSparseInfo_fresh children.ready]
  simp only
  rw [if_neg (by omega), findNextChild_initialized children small ends, searched,
    if_pos fits, if_neg (by omega)]
  rfl

section

variable (fits : SearchFits offset len first) (found : first < scanLimit offset len)
include fits found

theorem getAvailableRange_found :
    ∃ child, entry.findChild (toChildIndex first) = some child ∧ Stored entry first ∧
      (entry.getAvailableRange offset len).2 = .ok (if first < 2 ^ 63 then
        (availableLoop { entry with sparse := true } first (len + 2) (some child)
          (offset + len - first) 0).map (·, (first : Int)) else none) := by
  have stored := ends.found found
  obtain ⟨child, here, -⟩ := id stored
  have above := ends.above
  have at_first : (offset : Int) + (first - offset : Nat) = first := by omega
  have left : (len : Int) - (first - offset : Nat) = offset + len - first := by omega
  refine ⟨child, here, stored, ?_⟩
  rw [MemEntryImpl.getAvailableRange, initSparseInfo_fresh children.ready]
  simp only
  rw [if_neg (by omega), findNextChild_initialized children small ends, searched,
    if_pos fits, if_pos found, here, bind_some, addInt64, at_first, left]
  simp only [Int.toNat_natCast]
  by_cases in_range : first < 2 ^ 63
  · rw [if_pos (by omega), if_pos in_range, bind_some]
  · rw [if_neg (by omega), if_neg in_range]
    rfl

theorem getAvailableRange_behind (behind : offset + len < first) : (entry.getAvailableRange offset len).2 =
      .ok (if first < 2 ^ 63 then some ((offset + len - first : Int), (first : Int)) else none) := by
  obtain ⟨child, here, stored, given⟩ := getAvailableRange_found children small ends fits found
  have offset_inside := (stored_up_to children here stored).1
  rw [given]
  split
  · have whole : ((offset + len : Nat) : Int) < 2 ^ 63 := by omega
    have back : (first : Int) + (offset + len - first) = (offset + len : Nat) := by omega
    rw [availableLoop, if_neg (by omega), addInt64, Int.add_zero, if_pos (by omega), bind_some]
    simp only
    rw [toChildOffset_eq, if_pos (by omega), Int.zero_add, Int.sub_self, addInt64, back,
      if_pos whole, bind_some]
    rfl
  · rfl

theorem getAvailableRange_run (inside : first ≤ offset + len) (run : RunEnds entry first (offset + len) last)
    (search : SearchEnds entry last (offset + len - last) next) : (entry.getAvailableRange offset len).2 = .ok
      (if last < 2 ^ 63 ∧ SearchFits last (offset + len - last) next then
        some (((last - first : Nat) : Int), (first : Int)) else none) := by
  obtain ⟨child, here, stored, given⟩ := getAvailableRange_found children small ends fits found
  have above := run.above
  rw [given]
  by_cases in_range : first < 2 ^ 63
  · rw [if_pos in_range]
    by_cases directly : first = offset + len
    · have below := run.below
      have same : last = first := by omega
      subst same
      have none_left : scanLimit last (offset + len - last) = last := by
        rw [scanLimit, if_pos (by omega)]
      have after := search.above
      have before := search.below
      have in_search : SearchFits last (offset + len - last) next := ⟨by omega, .inl (by omega)⟩
      rw [availableLoop, if_pos (by omega), if_pos ⟨in_range, in_search⟩, Nat.sub_self]
      rfl
    · have left : (offset : Int) + len - first = (offset + len - first : Nat) := by omega
      have counted := availableLoop_counts children.initialized first search.initialized
        (len + 2) (by have := ends.above; omega) run.initialized le_rfl (by omega)
        in_range here stored
      rw [Nat.sub_self] at counted
      rw [left]
      rw [show (0 : Int) = ((0 : Nat) : Int) from rfl, counted]
      split <;> rfl
  · rw [if_neg in_range, if_neg (by omega)]

end

end Query

theorem MemEntryImpl.Children.new (maxFileSize : Nat) : (MemEntryImpl.new maxFileSize).Children := by
  have only : ∀ {index child}, (MemEntryImpl.new maxFileSize).findChild index = some child →
      child = MemEntry.new := by
    intro index child found
    rw [findChild] at found
    split at found
    · cases found
      rfl
    · cases found
  constructor
  · exact .inr rfl
  · intro index child found
    rw [only found]
    exact Nat.le_refl 0
  · intro index child found
    rw [only found]
    exact Nat.zero_le _

theorem MemEntryImpl.Children.setChild (children : entry.Children) (sparse : entry.sparse = true) (index : Int)
    (whole : child.dataSize ≤ child.data.length) (short : child.dataSize ≤ maxSparseEntrySize) :
    (entry.setChild index child).Children := by
  constructor
  · exact .inl ((setChild_sparse entry index child).trans sparse)
  · intro other found_child found
    rw [findChild_setChild] at found
    split at found
    · cases found
      exact whole
    · exact children.whole found
  · intro other found_child found
    rw [findChild_setChild] at found
    split at found
    · cases found
      exact short
    · exact children.short found

theorem MemEntryImpl.Children.getD (children : entry.Children) (index : Int) :
    ((entry.findChild index).getD MemEntry.new).dataSize ≤
        ((entry.findChild index).getD MemEntry.new).data.length ∧
      ((entry.findChild index).getD MemEntry.new).dataSize ≤ maxSparseEntrySize := by
  cases found : entry.findChild index with
  | none => exact ⟨Nat.le_refl 0, Nat.zero_le _⟩
  | some child => exact ⟨children.whole found, children.short found⟩

theorem writeSparseLoop_children (fuel : Nat) (children : entry.Children)
    (sparse : entry.sparse = true) (offset : Nat) (buf : List UInt8) :
    (writeSparseLoop fuel entry offset buf).1.Children := by
  have size : maxSparseEntrySize = 4096 := rfl
  induction fuel generalizing entry offset buf with
  | zero => exact children
  | succ fuel ih =>
    rw [writeSparseLoop]
    split
    · exact children
    obtain ⟨whole, short⟩ := children.getD (toChildIndex offset)
    simp only
    split
    · simp only
      exact children.setChild sparse _ whole short
    · rename_i written wrote
      have length := MemEntry.writeData_size wrote
      have long := (MemEntry.writeData_data wrote whole).1
      rw [List.length_take] at length long
      have below : toChildOffset offset < maxSparseEntrySize := by
        rw [toChildOffset_eq, size]
        exact Nat.mod_lt _ (by decide)
      rw [← Int.natCast_add]
      refine ih (children.setChild sparse _ ?_ ?_) ((setChild_sparse entry _ _).trans sparse) _ _
      · split
        · simp only
          omega
        · omega
      · split
        · simp only
          omega
        · omega

theorem MemEntryImpl.Children.write {entry : MemEntryImpl} (children : entry.Children)
    (offset : Nat) (buf : List UInt8) : (entry.writeSparseData offset buf).1.Children := by
  rw [writeSparseData, initSparseInfo_fresh children.ready]
  simp only
  rw [if_neg (by omega)]
  exact writeSparseLoop_children _ children.initialized rfl _ _

theorem writeAll_children (calls : List (Nat × List UInt8))
    (children : entry.Children) (shadow : Shadow) : (writeAll entry shadow calls).1.Children := by
  induction calls generalizing entry shadow with
  | nil => exact children
  | cons call calls ih => exact ih (children.write call.1 call.2) _

/-- A query keeps its promises exactly when its first stored byte is not behind the range and its
sums are not too large. -/
theorem range_right_iff {entry : MemEntryImpl} (children : entry.Children) (offset : Fin (2 ^ 63))
    (len : Fin (2 ^ 31)) : RangeRight entry offset len ↔ RangeFits entry offset len := by
  obtain ⟨offset, small⟩ := offset
  obtain ⟨len, int_len⟩ := len
  simp only
  obtain ⟨first, ends⟩ := search_ends entry offset len
  have limited := scanLimit_bounds offset len
  constructor
  · rintro ⟨n, start, given, positive, -, -, read, -⟩
    have fits : SearchFits offset len first := by
      by_contra unfit
      rw [getAvailableRange_unfit children small ends unfit] at given
      cases given
    refine ⟨first, ends, fits, fun found => ?_⟩
    have inside : first ≤ offset + len := by
      by_contra behind
      rw [getAvailableRange_behind children small ends fits found (by omega)] at given
      split at given
      · cases given
        omega
      · cases given
    obtain ⟨last, run⟩ := run_ends entry inside
    obtain ⟨next, search⟩ := search_ends entry last (offset + len - last)
    rw [getAvailableRange_run children small ends fits found inside run search] at given
    split at given
    · rename_i in_range
      cases given
      have short : last - first < 2 ^ 31 := by
        have below := run.below
        have above := ends.above
        omega
      have room := (readSparseData_full_iff children run.above short run.full).mp read
      exact ⟨inside, last, next, run, search, in_range.1, room, in_range.2⟩
    · cases given
  · rintro ⟨first', ends', fits, found⟩
    rw [ends'.unique ends] at fits found
    by_cases stored : first < scanLimit offset len
    · obtain ⟨inside, last, next, run, search, in_range, room, in_search⟩ := found stored
      have below := run.below
      have above := run.above
      have from_offset := ends.above
      refine ⟨(last - first : Nat), first, ?_, by omega, by omega, by omega, ?_, fun none => ?_⟩
      · rw [getAvailableRange_run children small ends fits stored inside run search,
          if_pos ⟨in_range, in_search⟩]
      · exact (readSparseData_full_iff children above (by omega) run.full).mpr room
      · have at_last : last = first := by omega
        have behind : last = offset + len := by
          by_contra before
          exact run.ended (by omega) (at_last ▸ ends.found stored)
        exact fun pos later earlier => ends.empty pos later (by omega)
    · have nothing : first = scanLimit offset len := by
        have below := ends.below
        omega
      refine ⟨0, offset, getAvailableRange_nothing children small ends fits nothing, by omega,
        by omega, by omega, ?_, fun _ pos later earlier => ends.empty pos later (by omega)⟩
      refine ⟨[], ?_, rfl⟩
      rw [readSparseData, initSparseInfo_fresh children.ready]
      simp only
      rw [if_neg (by omega)]
      rfl

theorem written_range_iff :
    RangeRight (writeAll (MemEntryImpl.new 100000) (fun _ => none) [(10, [97, 98])]).1 0 20 ↔
      RangeFits (writeAll (MemEntryImpl.new 100000) (fun _ => none) [(10, [97, 98])]).1 0 20 :=
  range_right_iff (writeAll_children _ (.new 100000) _) 0 20

/-- A byte at 100 gives -90 for the first ten bytes. -/
theorem byte_behind_range : ¬ ∀ (entry : MemEntryImpl), entry.Children → ∀ (offset : Fin (2 ^ 63))
    (len : Fin (2 ^ 31)), RangeRight entry offset len := by
  intro claim
  obtain ⟨n, start, given, positive, -⟩ := claim _
    (writeAll_children [(100, [7])] (.new 100000) fun _ => none) 0 10
  have negative : ((writeAll (MemEntryImpl.new 100000) (fun _ => none) [(100, [7])]).1.getAvailableRange
      0 10).2 = .ok (some (-90, 100)) := by
    decide +kernel
  cases given.symm.trans negative
  omega

end Glopen.Cache

import Glopen.Http.PartialData

/-! The announced pieces of a range, and when they are all of it. -/
namespace Glopen.Http

open List PartialData

/-- `disk_cache.h`: the first stored byte of the window, and a minimum number of consecutive bytes
from it, or zero where nothing is stored. -/
structure Specified (content : Int → Prop) (available : Int → Int → Available) : Prop where
  nonneg : ∀ offset len, 0 ≤ (available offset len).count
  absent : ∀ offset len, (available offset len).count = 0 →
    ∀ b, offset ≤ b → b < offset + len → ¬ content b
  within : ∀ offset len, 0 < len → 0 < (available offset len).count →
    offset ≤ (available offset len).start ∧
      (available offset len).start + (available offset len).count ≤ offset + len
  stored : ∀ offset len, 0 < (available offset len).count → ∀ b, (available offset len).start ≤ b →
      b < (available offset len).start + (available offset len).count → content b
  first : ∀ offset len, 0 < (available offset len).count →
    ∀ b, offset ≤ b → b < (available offset len).start → ¬ content b

def Complete (reads : Int → List Int) : Prop :=
  ∀ total, 0 < total → (∀ r ∈ reads total, 0 < r) ∧ (reads total).sum = total

def Consecutive (first last : Int) : List Piece → Prop
  | [] => first = last + 1
  | piece :: rest => piece.first = first ∧ first ≤ piece.last ∧ Consecutive (piece.last + 1) last rest

def Present (contents : Nat → Int → Prop) : Nat → List Piece → Prop
  | _, [] => True
  | k, piece :: rest =>
    (piece.cached = true → ∀ b, piece.first ≤ b → b ≤ piece.last → contents k b) ∧
      Present contents (k + 1) rest

/-- What is left of the range, as far as an `int` goes. -/
def window (last position : Int) : Int := min (last - position + 1) kInt32Max

inductive Reached (passes : Nat → Pass) (first last : Int) : Nat → Int → Prop where
  | first : Reached passes first last 0 first
  | cached {k : Nat} {position : Int} (reached : Reached passes first last k position)
      (here : ((passes k).available position (window last position)).start = position)
      (some_stored : ((passes k).available position (window last position)).count ≠ 0)
      (part : ((passes k).available position (window last position)).count ≠ window last position) :
      Reached passes first last (k + 1)
        (position + ((passes k).available position (window last position)).count)
  | missing {k : Nat} {position : Int} (reached : Reached passes first last k position)
      (behind : ((passes k).available position (window last position)).start ≠ position)
      (some_stored : ((passes k).available position (window last position)).count ≠ 0) :
      Reached passes first last (k + 1) ((passes k).available position (window last position)).start

/-- Where more is left than an `int` can say, the window is neither without stored bytes nor stored
as a whole. -/
def MixedWindows (passes : Nat → Pass) (first last : Int) : Prop :=
  ∀ k position, Reached passes first last k position → kInt32Max < last - position + 1 →
    ((passes k).available position kInt32Max).count ≠ 0 ∧
      ((passes k).available position kInt32Max).count ≠ kInt32Max

structure PartialData.At (data : PartialData) (last position : Int) : Prop where
  position : data.currentRangeStart = position
  last : data.byteRange.lastBytePosition = last
  bounded : data.byteRange.hasLastBytePosition = true
  goesOn : data.finalRange = false
  sparse : data.sparseEntry = true

variable {last position : Int} {data : PartialData} {reads : List Int} {first : Int}

theorem window_pos (inside : position ≤ last) : 0 < window last position := by
  rw [window, kInt32Max]
  omega

theorem foldl_network (reads : List Int) (positive : ∀ r ∈ reads, 0 < r) (data : PartialData) :
    reads.foldl onNetworkReadCompleted data =
      { data with currentRangeStart := data.currentRangeStart + reads.sum } := by
  induction reads generalizing data with
  | nil => rw [foldl_nil, sum_nil, Int.add_zero]
  | cons r rest ih =>
    have more := positive r mem_cons_self
    rw [foldl_cons, onNetworkReadCompleted, if_pos more,
      ih fun r' there => positive r' (mem_cons_of_mem _ there), sum_cons]
    dsimp only
    rw [Int.add_assoc]

theorem foldl_cache (reads : List Int) (positive : ∀ r ∈ reads, 0 < r) (data : PartialData) :
    reads.foldl onCacheReadCompleted data =
      { data with currentRangeStart := data.currentRangeStart + reads.sum,
                  cachedMinLen := data.cachedMinLen - reads.sum } := by
  induction reads generalizing data with
  | nil => rw [foldl_nil, sum_nil, Int.add_zero, Int.sub_zero]
  | cons r rest ih =>
    have more := positive r mem_cons_self
    rw [foldl_cons, onCacheReadCompleted, if_pos more,
      ih fun r' there => positive r' (mem_cons_of_mem _ there), sum_cons]
    dsimp only
    rw [Int.add_assoc, Int.sub_sub]

theorem transfer_network (missing : data.rangePresent = false) (positive : ∀ r ∈ reads, 0 < r) :
    data.transfer reads = { data with currentRangeStart := data.currentRangeStart + reads.sum } := by
  have network : ¬ data.isCurrentRangeCached = true := by
    rw [isCurrentRangeCached, missing]
    exact Bool.false_ne_true
  rw [PartialData.transfer, if_neg network, foldl_network reads positive]

theorem transfer_cache (present : data.rangePresent = true) (positive : ∀ r ∈ reads, 0 < r) :
    data.transfer reads = { data with currentRangeStart := data.currentRangeStart + reads.sum,
                                      cachedMinLen := data.cachedMinLen - reads.sum } := by
  have cached : data.isCurrentRangeCached = true := present
  rw [PartialData.transfer, if_pos cached, foldl_cache reads positive]

section Passes

variable {pass : Pass} {content : Int → Prop}

theorem PartialData.At.nextRangeLen (at_position : data.At last position) :
    data.getNextRangeLen = window last position := by
  rw [getNextRangeLen, at_position.bounded, if_pos rfl, at_position.last, at_position.position, window]
  split <;> omega

def PartialData.asked (data : PartialData) (answer : Available) : PartialData :=
  { data with cachedMinLen := answer.count, cachedStart := answer.start }

theorem asked_validates (at_position : data.At last position) (inside : position ≤ last)
    (specified : Specified content pass.available) : data.shouldValidateCache pass.available =
      (1, data.asked (pass.available position (window last position))) := by
  have some_left := window_pos inside
  have nonneg := specified.nonneg position (window last position)
  have left : ¬ window last position = 0 := by omega
  simp only [shouldValidateCache, PartialData.asked, at_position.nextRangeLen,
    at_position.sparse, at_position.position, if_neg left, if_true, if_neg (Int.not_lt.mpr nonneg)]

theorem prepare_absent (bounded : data.byteRange.hasLastBytePosition = true)
    (absent : data.cachedMinLen = 0) (left : data.getNextRangeLen ≠ 0) : data.prepareCacheValidation =
      (⟨data.currentRangeStart, data.currentRangeStart + data.getNextRangeLen - 1⟩,
        { data with rangePresent := false, finalRange := true,
                    cachedStart := data.currentRangeStart + data.getNextRangeLen }) := by
  have behind : ¬ data.currentRangeStart = data.currentRangeStart + data.getNextRangeLen := by omega
  simp only [prepareCacheValidation, if_pos absent, bounded, if_true, if_neg behind]

theorem prepare_cached (some_stored : data.cachedMinLen ≠ 0)
    (here : data.currentRangeStart = data.cachedStart) (goesOn : data.finalRange = false) :
    data.prepareCacheValidation = (⟨data.currentRangeStart, data.cachedStart + data.cachedMinLen - 1⟩,
        { data with rangePresent := true,
                    finalRange := decide (data.getNextRangeLen = data.cachedMinLen) }) := by
  simp only [prepareCacheValidation, if_neg some_stored, if_pos here, goesOn, Bool.false_or]

theorem prepare_missing (some_stored : data.cachedMinLen ≠ 0)
    (behind : data.currentRangeStart ≠ data.cachedStart) : data.prepareCacheValidation =
      (⟨data.currentRangeStart, data.cachedStart - 1⟩, { data with rangePresent := false }) := by
  simp only [prepareCacheValidation, if_neg some_stored, if_neg behind]

variable (at_position : data.At last position) (inside : position ≤ last)
  (specified : Specified content pass.available) (complete : Complete pass.reads)
include at_position inside specified complete

theorem piece_absent (absent : (pass.available position (window last position)).count = 0) :
    ∃ data', data.piece pass = some (⟨position, position + window last position - 1, false⟩, data') ∧
      data'.isLastRange = true := by
  have some_left := window_pos inside
  let asked := data.asked (pass.available position (window last position))
  have start : asked.currentRangeStart = position := at_position.position
  have len : asked.getNextRangeLen = window last position := at_position.nextRangeLen
  have prepared := @prepare_absent asked at_position.bounded absent (by omega)
  rw [start, len] at prepared
  have length : position + window last position - 1 - position + 1 = window last position := by omega
  obtain ⟨positive, -⟩ := complete (window last position) some_left
  rw [PartialData.piece, asked_validates at_position inside specified]
  dsimp only
  rw [if_neg (by decide), prepared]
  dsimp only
  rw [length, transfer_network rfl positive]
  exact ⟨_, rfl, rfl⟩

theorem piece_cached (here : (pass.available position (window last position)).start = position)
    (some_stored : (pass.available position (window last position)).count ≠ 0) : ∃ data', data.piece pass =
        some (⟨position, position + (pass.available position (window last position)).count - 1, true⟩, data') ∧
      data'.isLastRange = decide (window last position =
        (pass.available position (window last position)).count) ∧
      ((pass.available position (window last position)).count ≠ window last position →
        data'.At last (position + (pass.available position (window last position)).count)) := by
  have nonneg := specified.nonneg position (window last position)
  let asked := data.asked (pass.available position (window last position))
  have start : asked.currentRangeStart = position := at_position.position
  have cached : asked.cachedStart = position := here
  have len : asked.getNextRangeLen = window last position := at_position.nextRangeLen
  have prepared := @prepare_cached asked some_stored (start.trans cached.symm) at_position.goesOn
  rw [start, cached, len] at prepared
  have length : position + asked.cachedMinLen - 1 - position + 1 = asked.cachedMinLen := by omega
  have more : 0 < asked.cachedMinLen := by
    change 0 < (pass.available position (window last position)).count
    omega
  obtain ⟨positive, total⟩ := complete asked.cachedMinLen more
  rw [PartialData.piece, asked_validates at_position inside specified]
  dsimp only
  rw [if_neg (by decide), prepared]
  dsimp only
  rw [length]
  refine ⟨_, rfl, ?_⟩
  rw [transfer_cache rfl positive, total]
  refine ⟨rfl, fun part => ⟨?_, at_position.last, at_position.bounded, ?_, at_position.sparse⟩⟩
  · rfl
  · exact decide_eq_false fun same => part same.symm

theorem piece_missing (behind : (pass.available position (window last position)).start ≠ position)
    (some_stored : (pass.available position (window last position)).count ≠ 0) : ∃ data', data.piece pass =
        some (⟨position, (pass.available position (window last position)).start - 1, false⟩, data') ∧
      data'.isLastRange = false ∧
      data'.At last (pass.available position (window last position)).start := by
  have nonneg := specified.nonneg position (window last position)
  obtain ⟨before, -⟩ := specified.within position (window last position) (window_pos inside) (by omega)
  let asked := data.asked (pass.available position (window last position))
  have start : asked.currentRangeStart = position := at_position.position
  have prepared := @prepare_missing asked some_stored (by rw [start]; exact behind.symm)
  rw [start] at prepared
  have length : asked.cachedStart - 1 - position + 1 = asked.cachedStart - position := by omega
  have more : 0 < asked.cachedStart - position := by
    change 0 < (pass.available position (window last position)).start - position
    omega
  obtain ⟨positive, total⟩ := complete (asked.cachedStart - position) more
  rw [PartialData.piece, asked_validates at_position inside specified]
  dsimp only
  rw [if_neg (by decide), prepared]
  dsimp only
  rw [length, transfer_network rfl positive, total]
  refine ⟨_, rfl, at_position.goesOn, ?_, at_position.last, at_position.bounded, at_position.goesOn,
    at_position.sparse⟩
  have moved : position + ((pass.available position (window last position)).start - position) =
      (pass.available position (window last position)).start := by omega
  exact moved

end Passes

section Runs

variable {passes : Nat → Pass} {contents : Nat → Int → Prop}
variable {piece : Piece} {fuel k : Nat}

theorem Consecutive.one (consecutive : Consecutive first last [piece]) : piece.last = last := by
  have stop : piece.last + 1 = last + 1 := consecutive.2.2
  omega

variable {data' : PartialData}

theorem pieces_fuel {list : List Piece} (ran : data.pieces passes fuel k = some list) :
    ∃ less, fuel = less + 1 := by
  cases fuel with
  | zero => cases ran
  | succ less => exact ⟨less, rfl⟩

theorem pieces_more (ran : data.piece (passes k) = some (piece, data')) (goes_on : data'.isLastRange = false) :
    PartialData.pieces passes (fuel + 1) k data =
      (PartialData.pieces passes fuel (k + 1) data').map (piece :: ·) := by
  rw [PartialData.pieces, ran]
  dsimp only
  rw [goes_on, if_neg Bool.false_ne_true]

theorem pieces_last (ran : data.piece (passes k) = some (piece, data')) (is_last : data'.isLastRange = true) :
    PartialData.pieces passes (fuel + 1) k data = some [piece] := by
  rw [PartialData.pieces, ran]
  dsimp only
  rw [is_last, if_pos rfl]

variable (specified : ∀ k, Specified (contents k) (passes k).available)
  (complete : ∀ k, Complete (passes k).reads)
include specified complete

theorem pieces_cover (mixed : MixedWindows passes first last) (left : Nat) :
    ∀ (k : Nat) (position : Int) (data : PartialData), Reached passes first last k position → data.At last position →
      position ≤ last → last - position < left →
      ∃ fuel list, data.pieces passes fuel k = some list ∧ Consecutive position last list ∧
        Present contents k list := by
  induction left with
  | zero =>
    intro k position data reached at_position inside short
    omega
  | succ left ih =>
    intro k position data reached at_position inside short
    have filled : window last position ≠ last - position + 1 → window last position = kInt32Max ∧
        kInt32Max < last - position + 1 := by
      rw [window]
      omega
    have goes_on := mixed k position reached
    have nonneg := (specified k).nonneg position (window last position)
    by_cases absent : ((passes k).available position (window last position)).count = 0
    · obtain ⟨data', ran, is_last⟩ := piece_absent at_position inside (specified k) (complete k) absent
      have whole : window last position = last - position + 1 := by
        by_contra clamped
        obtain ⟨is_max, large⟩ := filled clamped
        rw [is_max] at absent
        exact (goes_on large).1 absent
      refine ⟨1, _, pieces_last ran is_last, ⟨rfl, ?_, ?_⟩, (fun cached => absurd cached Bool.false_ne_true), trivial⟩
      · dsimp only
        omega
      · change position + window last position - 1 + 1 = last + 1
        omega
    by_cases here : ((passes k).available position (window last position)).start = position
    · obtain ⟨data', ran, final, next⟩ :=
        piece_cached at_position inside (specified k) (complete k) here absent
      have present : ∀ b, position ≤ b →
          b ≤ position + ((passes k).available position (window last position)).count - 1 → contents k b := by
        intro b above below
        refine (specified k).stored position (window last position) (by omega) b ?_ ?_ <;>
        · rw [here]
          omega
      by_cases part : ((passes k).available position (window last position)).count = window last position
      · have whole : window last position = last - position + 1 := by
          by_contra clamped
          obtain ⟨is_max, large⟩ := filled clamped
          rw [is_max] at part
          exact (goes_on large).2 part
        rw [decide_eq_true part.symm] at final
        refine ⟨1, _, pieces_last ran final, ⟨rfl, ?_, ?_⟩, fun _ => present, trivial⟩
        · dsimp only
          omega
        · change position + ((passes k).available position (window last position)).count - 1 + 1 = last + 1
          omega
      · have fits := ((specified k).within position (window last position) (window_pos inside) (by omega)).2
        have below : window last position ≤ last - position + 1 := Int.min_le_left _ _
        rw [decide_eq_false (Ne.symm part)] at final
        obtain ⟨fuel, list, rest, consecutive, rest_present⟩ := ih (k + 1) _ data'
          (.cached reached here absent part) (next part) (by omega) (by omega)
        refine ⟨fuel + 1, _, (pieces_more ran final).trans (congrArg _ rest), ⟨rfl, ?_, ?_⟩,
          fun _ => present, rest_present⟩
        · dsimp only
          omega
        · have stop : position + ((passes k).available position (window last position)).count - 1 + 1 =
              position + ((passes k).available position (window last position)).count := by omega
          dsimp only
          rw [stop]
          exact consecutive
    · obtain ⟨data', ran, final, next⟩ :=
        piece_missing at_position inside (specified k) (complete k) here absent
      obtain ⟨above, fits⟩ :=
        (specified k).within position (window last position) (window_pos inside) (by omega)
      have below : window last position ≤ last - position + 1 := Int.min_le_left _ _
      obtain ⟨fuel, list, rest, consecutive, rest_present⟩ := ih (k + 1) _ data'
        (.missing reached here absent) next (by omega) (by omega)
      refine ⟨fuel + 1, _, (pieces_more ran final).trans (congrArg _ rest), ⟨rfl, ?_, ?_⟩,
        (fun cached => absurd cached Bool.false_ne_true), rest_present⟩
      · dsimp only
        omega
      · have stop : ((passes k).available position (window last position)).start - 1 + 1 =
            ((passes k).available position (window last position)).start := by omega
        dsimp only
        rw [stop]
        exact consecutive

theorem pieces_reach (at_first : data.At last first) (ordered : first ≤ last)
    {list : List Piece} (ran : data.pieces passes fuel 0 = some list)
    (consecutive : Consecutive first last list) (reached : Reached passes first last k position) :
    position ≤ last ∧ ∃ (data' : PartialData) (fuel' : Nat) (list' : List Piece), data'.At last position ∧
      data'.pieces passes fuel' k = some list' ∧ Consecutive position last list' := by
  induction reached with
  | first => exact ⟨ordered, data, fuel, list, at_first, ran, consecutive⟩
  | @cached k position reached here some_stored part ih =>
    obtain ⟨inside, data', fuel', list', at_position, ran, consecutive⟩ := ih
    have nonneg := (specified k).nonneg position (window last position)
    have fits := ((specified k).within position (window last position) (window_pos inside) (by omega)).2
    have below : window last position ≤ last - position + 1 := Int.min_le_left _ _
    obtain ⟨data'', piece, final, next⟩ :=
      piece_cached at_position inside (specified k) (complete k) here some_stored
    rw [decide_eq_false (Ne.symm part)] at final
    refine ⟨by omega, data'', ?_⟩
    obtain ⟨fuel', rfl⟩ := pieces_fuel ran
    rw [pieces_more piece final, Option.map_eq_some_iff] at ran
    obtain ⟨rest, ran, rfl⟩ := ran
    have stop : position + ((passes k).available position (window last position)).count - 1 + 1 =
        position + ((passes k).available position (window last position)).count := by omega
    have behind := consecutive.2.2
    dsimp only at behind
    rw [stop] at behind
    exact ⟨fuel', rest, next part, ran, behind⟩
  | @missing k position reached behind some_stored ih =>
    obtain ⟨inside, data', fuel', list', at_position, ran, consecutive⟩ := ih
    have nonneg := (specified k).nonneg position (window last position)
    have fits := ((specified k).within position (window last position) (window_pos inside) (by omega)).2
    have below : window last position ≤ last - position + 1 := Int.min_le_left _ _
    obtain ⟨data'', piece, final, next⟩ :=
      piece_missing at_position inside (specified k) (complete k) behind some_stored
    refine ⟨by omega, data'', ?_⟩
    obtain ⟨fuel', rfl⟩ := pieces_fuel ran
    rw [pieces_more piece final, Option.map_eq_some_iff] at ran
    obtain ⟨rest, ran, rfl⟩ := ran
    have stop : ((passes k).available position (window last position)).start - 1 + 1 =
        ((passes k).available position (window last position)).start := by omega
    have behind := consecutive.2.2
    dsimp only at behind
    rw [stop] at behind
    exact ⟨fuel', rest, next, ran, behind⟩

theorem pieces_cover_iff (at_first : data.At last first) (ordered : first ≤ last) :
    (∃ fuel list, data.pieces passes fuel 0 = some list ∧ Consecutive first last list ∧
      Present contents 0 list) ↔ MixedWindows passes first last := by
  constructor
  · rintro ⟨fuel, list, ran, consecutive, -⟩ k position reached large
    obtain ⟨inside, data', fuel', list', at_position, ran', consecutive'⟩ :=
      pieces_reach specified complete at_first ordered ran consecutive reached
    have clamped : window last position = kInt32Max := by
      rw [window]
      omega
    obtain ⟨fuel', rfl⟩ := pieces_fuel ran'
    rw [← clamped]
    constructor
    · intro absent
      obtain ⟨data'', piece, final⟩ := piece_absent at_position inside (specified k) (complete k) absent
      rw [pieces_last piece final] at ran'
      cases ran'
      have stop := consecutive'.one
      dsimp only at stop
      omega
    · intro whole
      have some_left := window_pos inside
      obtain ⟨above, fits⟩ :=
        (specified k).within position (window last position) some_left (by omega)
      obtain ⟨data'', piece, final, -⟩ := piece_cached at_position inside (specified k) (complete k)
        (by omega) (by omega)
      rw [decide_eq_true whole.symm] at final
      rw [pieces_last piece final] at ran'
      cases ran'
      have stop := consecutive'.one
      dsimp only at stop
      omega
  · intro mixed
    exact pieces_cover specified complete mixed ((last - first).toNat + 1) 0 first data .first at_first
      ordered (by omega)

end Runs

theorem requested_at {size : Int} (nonneg : 0 ≤ first) (ordered : first ≤ last)
    (inside : last < size) (cachedStart cachedMinLen : Int) :
    ∃ data, requested first last size cachedStart cachedMinLen = some data ∧ data.At last first := by
  have valid : (HttpByteRange.mk first last kPositionNotSpecified false).isValid = true :=
    decide_eq_true (Or.inr ⟨nonneg, Or.inr ordered⟩)
  have bounded : (HttpByteRange.mk first last kPositionNotSpecified false).computeBounds size =
      (true, ⟨first, last, kPositionNotSpecified, true⟩) := by
    have has_first : first ≠ -1 := by omega
    have has_last : last ≠ -1 := by omega
    have not_negative : ¬ size < 0 := by omega
    have least : min (size - 1) last = last := by omega
    have valid' : (HttpByteRange.mk first last kPositionNotSpecified true).isValid = true := valid
    have before : first < size := by omega
    simp [HttpByteRange.computeBounds, HttpByteRange.hasFirstBytePosition,
      HttpByteRange.hasLastBytePosition, HttpByteRange.isSuffixByteRange, kPositionNotSpecified,
      has_first, has_last, not_negative] at valid' ⊢
    simp [valid', before, least]
  have not_empty : ¬ size ≤ 0 := by omega
  have not_below : ¬ first < 0 := by omega
  have has_last : last ≠ kPositionNotSpecified := by
    rw [kPositionNotSpecified]
    omega
  refine ⟨⟨first, cachedStart, size, cachedMinLen, ⟨first, last, kPositionNotSpecified, true⟩, false,
    false, true, false⟩, ?_, rfl, rfl, decide_eq_true has_last, rfl, rfl⟩
  simp [requested, init, valid, updateFromStoredHeaders, not_empty,
    isRequestedRangeOK, bounded, not_below, nonneg]

/-- The pieces of a range cover it, just where no window of the size of an `int` is all there is to
say of what is left. -/
theorem ranges_decompose_iff {passes : Nat → Pass} {contents : Nat → Int → Prop}
    (specified : ∀ k, Specified (contents k) (passes k).available)
    (complete : ∀ k, Complete (passes k).reads) {first last size : Int} (nonneg : 0 ≤ first)
    (ordered : first ≤ last) (inside : last < size) (cachedStart cachedMinLen : Int) :
    ∃ data : PartialData, requested first last size cachedStart cachedMinLen = some data ∧
      ((∃ fuel list, data.pieces passes fuel 0 = some list ∧ Consecutive first last list ∧
        Present contents 0 list) ↔ MixedWindows passes first last) := by
  obtain ⟨data, started, at_first⟩ := requested_at nonneg ordered inside cachedStart cachedMinLen
  exact ⟨data, started, pieces_cover_iff specified complete at_first ordered⟩

def emptyPass : Pass := ⟨fun offset _ => ⟨offset, 0⟩, fun total => [total]⟩

theorem emptyPass_specified : Specified (fun _ => False) emptyPass.available :=
  ⟨fun _ _ => Int.le_refl 0, fun _ _ _ _ _ _ => id, fun _ _ _ some_stored => absurd some_stored (Int.lt_irrefl 0),
    fun _ _ some_stored => absurd some_stored (Int.lt_irrefl 0), fun _ _ _ _ _ _ => id⟩

theorem emptyPass_complete : Complete emptyPass.reads := by
  intro total positive
  constructor
  · intro r there
    rwa [mem_singleton.mp there]
  · exact sum_singleton

theorem ten_bytes_decompose : (0 : Int) ≤ 9 ∧ ∃ data : PartialData, requested 0 9 10 0 0 = some data ∧
      ((∃ fuel list, data.pieces (fun _ => emptyPass) fuel 0 = some list ∧ Consecutive 0 9 list ∧
        Present (fun _ _ => False) 0 list) ↔ MixedWindows (fun _ => emptyPass) 0 9) :=
  ⟨by decide, ranges_decompose_iff (fun _ => emptyPass_specified) (fun _ => emptyPass_complete)
    (by decide) (by decide) (by decide) 0 0⟩

/-- The first two gigabytes of a larger range are announced as the last piece. -/
theorem large_range_cut : ((requested 0 4294967295 4294967296 0 0).bind fun data =>
        data.pieces (fun _ => emptyPass) 2 0) = some [⟨0, 2147483646, false⟩] ∧
      ¬ Consecutive 0 4294967295 [⟨0, 2147483646, false⟩] := by
  constructor
  · decide +kernel
  · intro consecutive
    exact absurd consecutive.one (by decide)

end Glopen.Http

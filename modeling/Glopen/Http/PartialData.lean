import Mathlib.Algebra.Ring.Int.Defs
import Mathlib.Algebra.Group.Nat.Defs
import Mathlib.Data.List.Basic

/-! `net/http/partial_data.cc`: a byte range in pieces from the cache and from the network. -/
namespace Glopen.Http

def kInt32Max : Int := 2147483647

def kPositionNotSpecified : Int := -1

structure HttpByteRange where
  firstBytePosition : Int
  lastBytePosition : Int
  suffixLength : Int
  hasComputedBounds : Bool

section ByteRange

variable (range : HttpByteRange)

def HttpByteRange.isSuffixByteRange : Bool := range.suffixLength ≠ kPositionNotSpecified

def HttpByteRange.hasFirstBytePosition : Bool := range.firstBytePosition ≠ kPositionNotSpecified

def HttpByteRange.hasLastBytePosition : Bool := range.lastBytePosition ≠ kPositionNotSpecified

def HttpByteRange.isValid : Bool :=
  range.suffixLength > 0 ∨ (range.firstBytePosition ≥ 0 ∧ (range.lastBytePosition = kPositionNotSpecified ∨
      range.lastBytePosition ≥ range.firstBytePosition))

def HttpByteRange.computeBounds (size : Int) : Bool × HttpByteRange :=
  if size < 0 then (false, range)
  else if range.hasComputedBounds then (false, range)
  else
    let range := { range with hasComputedBounds := true }
    if !range.hasFirstBytePosition && !range.hasLastBytePosition && !range.isSuffixByteRange then
      (true, { range with firstBytePosition := 0, lastBytePosition := size - 1 })
    else if !range.isValid then (false, range)
    else if range.isSuffixByteRange then
      (true, { range with firstBytePosition := size - min size range.suffixLength,
                          lastBytePosition := size - 1 })
    else if range.firstBytePosition < size then
      (true, { range with lastBytePosition :=
        if range.hasLastBytePosition then min (size - 1) range.lastBytePosition else size - 1 })
    else (false, range)

end ByteRange

/-- An answer of `GetAvailableRange`: the returned number and `*start`. -/
structure Available where
  start : Int
  count : Int

structure PartialData where
  currentRangeStart : Int
  cachedStart : Int
  resourceSize : Int
  cachedMinLen : Int
  byteRange : HttpByteRange
  rangePresent : Bool
  finalRange : Bool
  sparseEntry : Bool
  truncated : Bool

/-- The `Range` header: the first and the last byte that are asked for. -/
structure RangeHeader where
  start : Int
  stop : Int

section Methods

variable (data : PartialData)

/-- `Init`, for the one range of the request. The constructor leaves the cached piece as it is. -/
def PartialData.init (range : HttpByteRange) (cachedStart cachedMinLen : Int) : Option PartialData :=
  if range.isValid then
    some { currentRangeStart := range.firstBytePosition, cachedStart := cachedStart, resourceSize := 0,
           cachedMinLen := cachedMinLen, byteRange := range, rangePresent := false,
           finalRange := false, sparseEntry := true, truncated := false }
  else none

/-- `UpdateFromStoredHeaders` for a sparse entry with the length of the resource. -/
def PartialData.updateFromStoredHeaders (lengthValue : Int) : Option PartialData :=
  if lengthValue ≤ 0 then none else some { data with resourceSize := lengthValue }

def PartialData.isRequestedRangeOK : Bool × PartialData :=
  let check (data : PartialData) : Bool × PartialData :=
    if data.currentRangeStart ≥ 0 then (true, data) else (false, { data with currentRangeStart := 0 })
  if data.byteRange.isValid then
    if data.truncated then (true, data)
    else
      let (computed, range) := data.byteRange.computeBounds data.resourceSize
      let data := { data with byteRange := range }
      if !computed then (false, data)
      else if data.currentRangeStart < 0 then
        check { data with currentRangeStart := range.firstBytePosition }
      else check data
  else
    check { data with currentRangeStart := 0,
                      byteRange := { data.byteRange with lastBytePosition := data.resourceSize - 1 } }

def PartialData.getNextRangeLen : Int :=
  let rangeLen :=
    if data.byteRange.hasLastBytePosition then
      data.byteRange.lastBytePosition - data.currentRangeStart + 1
    else kInt32Max
  if rangeLen > kInt32Max then kInt32Max else rangeLen

def PartialData.shouldValidateCache (getAvailableRange : Int → Int → Available) : Int × PartialData :=
  let len := data.getNextRangeLen
  if len = 0 then (0, data)
  else
    let data :=
      if data.sparseEntry then
        let answer := getAvailableRange data.currentRangeStart len
        { data with cachedMinLen := answer.count, cachedStart := answer.start }
      else if data.truncated then
        if data.currentRangeStart = 0 then
          { data with cachedMinLen := Int.bmod data.byteRange.firstBytePosition (2 ^ 32),
                      cachedStart := 0 }
        else data
      else { data with cachedMinLen := len, cachedStart := data.currentRangeStart }
    if data.cachedMinLen < 0 then (data.cachedMinLen, data) else (1, data)

def PartialData.prepareCacheValidation : RangeHeader × PartialData :=
  let len := data.getNextRangeLen
  let data := { data with rangePresent := false }
  let data :=
    if data.cachedMinLen = 0 then
      -- We don't have anything else stored.
      { data with finalRange := true, cachedStart :=
          if data.byteRange.hasLastBytePosition then data.currentRangeStart + len else 0 }
    else data
  if data.currentRangeStart = data.cachedStart then
    -- The data lives in the cache.
    (⟨data.currentRangeStart, data.cachedStart + data.cachedMinLen - 1⟩,
      { data with rangePresent := true, finalRange := data.finalRange || len = data.cachedMinLen })
  else (⟨data.currentRangeStart, data.cachedStart - 1⟩, data)

def PartialData.isCurrentRangeCached : Bool := data.rangePresent

def PartialData.isLastRange : Bool := data.finalRange

def PartialData.onCacheReadCompleted (result : Int) : PartialData :=
  if result > 0 then
    { data with currentRangeStart := data.currentRangeStart + result,
                cachedMinLen := data.cachedMinLen - result }
  else data

def PartialData.onNetworkReadCompleted (result : Int) : PartialData :=
  if result > 0 then { data with currentRangeStart := data.currentRangeStart + result } else data

end Methods

structure Pass where
  available : Int → Int → Available
  reads : Int → List Int

structure Piece where
  first : Int
  last : Int
  cached : Bool
deriving DecidableEq

def PartialData.transfer (data : PartialData) (reads : List Int) : PartialData :=
  if data.isCurrentRangeCached then reads.foldl PartialData.onCacheReadCompleted data
  else reads.foldl PartialData.onNetworkReadCompleted data

def PartialData.piece (pass : Pass) (data : PartialData) : Option (Piece × PartialData) :=
  let (result, data) := data.shouldValidateCache pass.available
  if result ≤ 0 then none
  else
    let (header, data) := data.prepareCacheValidation
    some (⟨header.start, header.stop, data.isCurrentRangeCached⟩,
      data.transfer (pass.reads (header.stop - header.start + 1)))

def PartialData.pieces (passes : Nat → Pass) : Nat → Nat → PartialData → Option (List Piece)
  | 0, _, _ => none
  | fuel + 1, k, data =>
    match data.piece (passes k) with
    | none => some []
    | some (piece, data) =>
      if data.isLastRange then some [piece]
      else (PartialData.pieces passes fuel (k + 1) data).map (piece :: ·)

/-- The state for a request of `[first, last]` from a sparse entry. -/
def requested (first last size cachedStart cachedMinLen : Int) : Option PartialData :=
  (PartialData.init ⟨first, last, kPositionNotSpecified, false⟩ cachedStart cachedMinLen).bind fun data =>
    (data.updateFromStoredHeaders size).bind fun data =>
      let (ok, data) := data.isRequestedRangeOK
      if ok then some data else none

end Glopen.Http

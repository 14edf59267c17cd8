import Mathlib.Algebra.Group.Int.Defs
import Mathlib.Algebra.Group.Nat.Defs
import Mathlib.Data.List.Basic

/-! The decoder of http_chunked_decoder.cc. It removes the chunk markers of a chunked body from
the buffers that it is given. -/
namespace Glopen.Http

def lf : UInt8 := 10

def cr : UInt8 := 13

/-- The value of a digit of `"0123456789abcdefABCDEF"`. -/
def hexDigit (c : UInt8) : Option Nat :=
  if 48 ≤ c ∧ c ≤ 57 then some (c.toNat - 48)
  else if 97 ≤ c ∧ c ≤ 102 then some (c.toNat - 87)
  else if 65 ≤ c ∧ c ≤ 70 then some (c.toNat - 55)
  else none

/-- The number that `strtoul` reads, before it looks at its range. -/
def hexValue (digits : List UInt8) : Nat :=
  digits.foldl (fun value c => value * 16 + (hexDigit c).getD 0) 0

/-- `HexStringToInt` of hex digits: a `long` has 64 bits, and `strtoui` checks that the number
fits into 32 bits, with or without a sign. -/
def hexStringToInt (digits : List UInt8) : Option Int :=
  let res := hexValue digits
  if digits = [] ∨ 2 ^ 64 ≤ res ∨
      (Int.bmod res (2 ^ 32) ≠ Int.bmod res (2 ^ 64) ∧ res % 2 ^ 32 ≠ res) then none
  else some (Int.bmod res (2 ^ 32))

def parseChunkSize (start : List UInt8) : Option Nat :=
  let start := (start.reverse.dropWhile (· = 32)).reverse
  if start.all fun c => (hexDigit c).isSome then
    match hexStringToInt start with
    | some parsedNumber => if 0 ≤ parsedNumber then some parsedNumber.toNat else none
    | none => none
  else none

structure HttpChunkedDecoder where
  chunkRemaining : Nat
  lineBuf : List UInt8
  chunkTerminatorRemaining : Bool
  reachedLastChunk : Bool
  reachedEof : Bool
  bytesAfterEof : Nat
deriving DecidableEq

def HttpChunkedDecoder.new : HttpChunkedDecoder := ⟨0, [], false, false, false, 0⟩

def chomp (line : List UInt8) : List UInt8 :=
  if line.getLast? = some cr then line.dropLast else line

/-- What `ScanForChunkRemaining` does with a full line. -/
def scanLine (decoder : HttpChunkedDecoder) (line : List UInt8) : Option HttpChunkedDecoder :=
  if decoder.reachedLastChunk then
    if line ≠ [] then some decoder else some { decoder with reachedEof := true }
  else if decoder.chunkTerminatorRemaining then
    if line ≠ [] then none else some { decoder with chunkTerminatorRemaining := false }
  else if line ≠ [] then
    match parseChunkSize (line.takeWhile (· ≠ 59)) with
    | none => none
    | some size => some { decoder with
        chunkRemaining := size
        reachedLastChunk := size = 0 }
  else none

def scanForChunkRemaining (decoder : HttpChunkedDecoder) (buf : List UInt8) :
    HttpChunkedDecoder × Option Nat :=
  match buf.idxOf? lf with
  | some indexOfLf =>
    let rest := chomp (buf.take indexOfLf)
    let line := if decoder.lineBuf ≠ [] then decoder.lineBuf ++ rest else rest
    match scanLine decoder line with
    | some decoder => ({ decoder with lineBuf := [] }, some (indexOfLf + 1))
    | none =>
      ({ decoder with lineBuf := if decoder.lineBuf ≠ [] then line else [] }, none)
  | none => ({ decoder with lineBuf := decoder.lineBuf ++ chomp buf }, some buf.length)

/-- `FilterBuf` at work: `buf` points behind the first `result` bytes of its buffer. -/
structure Filter where
  decoder : HttpChunkedDecoder
  memory : List UInt8
  result : Nat
  bufLen : Nat

/-- The bytes from `buf` on that are left. -/
def Filter.window (filter : Filter) : List UInt8 :=
  (filter.memory.drop filter.result).take filter.bufLen

def Filter.passChunk (filter : Filter) : Filter :=
  let num := min filter.decoder.chunkRemaining filter.bufLen
  { filter with
    decoder := { filter.decoder with
      chunkRemaining := filter.decoder.chunkRemaining - num
      chunkTerminatorRemaining := filter.decoder.chunkRemaining - num = 0 ||
        filter.decoder.chunkTerminatorRemaining }
    result := filter.result + num
    bufLen := filter.bufLen - num }

/-- `memmove` over the bytes that were consumed. -/
def Filter.moveBack (filter : Filter) (decoder : HttpChunkedDecoder) (bytesConsumed : Nat) : Filter :=
  let bufLen := filter.bufLen - bytesConsumed
  { filter with
    decoder := decoder
    memory :=
      if bufLen ≠ 0 then
        filter.memory.take filter.result ++
          (filter.memory.drop (filter.result + bytesConsumed)).take bufLen ++
          filter.memory.drop (filter.result + bufLen)
      else filter.memory
    bufLen := bufLen }

structure Filtered where
  decoder : HttpChunkedDecoder
  result : Option Nat
  memory : List UInt8

/-- The loop of `FilterBuf`, with a bound on its passes. -/
def filterLoop : Nat → Filter → Option Filtered
  | 0, filter =>
    if filter.bufLen = 0 then some ⟨filter.decoder, some filter.result, filter.memory⟩ else none
  | passes + 1, filter =>
    if filter.bufLen = 0 then some ⟨filter.decoder, some filter.result, filter.memory⟩
    else if filter.decoder.chunkRemaining ≠ 0 then filterLoop passes filter.passChunk
    else if filter.decoder.reachedEof then
      some ⟨{ filter.decoder with
        bytesAfterEof := filter.decoder.bytesAfterEof + filter.bufLen },
        some filter.result, filter.memory⟩
    else
      match scanForChunkRemaining filter.decoder filter.window with
      | (decoder, none) => some ⟨decoder, none, filter.memory⟩
      | (decoder, some bytesConsumed) =>
        filterLoop passes (filter.moveBack decoder bytesConsumed)

/-- `FilterBuf`: no more passes are needed than there are bytes. -/
def filterBuf (decoder : HttpChunkedDecoder) (buf : List UInt8) : Option Filtered :=
  filterLoop buf.length ⟨decoder, buf, 0, buf.length⟩

structure Outcome where
  decoder : HttpChunkedDecoder
  failed : Bool
  output : List UInt8
deriving DecidableEq

def filterAll : HttpChunkedDecoder → List (List UInt8) → Option Outcome
  | decoder, [] => some ⟨decoder, false, []⟩
  | decoder, buf :: bufs => do
    let filtered ← filterBuf decoder buf
    match filtered.result with
    | none => some ⟨filtered.decoder, true, []⟩
    | some result => do
      let outcome ← filterAll filtered.decoder bufs
      some { outcome with output := filtered.memory.take result ++ outcome.output }

end Glopen.Http

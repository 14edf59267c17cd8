import Mathlib.Data.List.TakeDrop
import Glopen.Http.ChunkedDecoder

/-! The header block of a response, as http_util.cc finds it and http_stream_parser.cc reads it:
the status line may begin behind a few other bytes, and a blank line ends the block. -/
namespace Glopen.Http

open List Option

abbrev RawText := List UInt8

def toLowerASCII (c : UInt8) : UInt8 := if 65 ≤ c ∧ c ≤ 90 then c + 32 else c

def http : RawText := [104, 116, 116, 112]

/-- `LowerCaseEqualsASCII` of the four bytes from `buf + i` on. -/
def beginsHttp (buf : RawText) (i : Nat) : Bool := ((buf.drop i).take 4).map toLowerASCII = http

def locateStartOfStatusLine (buf : RawText) : Option Nat :=
  if 4 ≤ buf.length then (List.range (min (buf.length - 4) 4 + 1)).find? (beginsHttp buf) else none

/-- The loop of `LocateEndOfHeaders`. -/
def endOfHeadersFrom (wasLf : Bool) (lastC : UInt8) : RawText → Option Nat
  | [] => none
  | c :: rest =>
    if c = lf then
      if wasLf then some 1 else (endOfHeadersFrom true c rest).map (· + 1)
    else (endOfHeadersFrom (wasLf && !(c ≠ cr || lastC ≠ lf)) c rest).map (· + 1)

def locateEndOfHeaders (buf : RawText) (i : Nat) : Option Nat :=
  (endOfHeadersFrom false 0 (buf.drop i)).map (i + ·)

/-- `strchr` also finds the NUL that ends its string. -/
def isLWS (c : UInt8) : Bool := c = 32 || c = 9 || c = 0

def colon : UInt8 := 58

def isLineSegmentContinuable (line : RawText) : Bool :=
  colon ∈ line && line.head? ≠ some colon && !line.head?.any isLWS

def endsLine (c : UInt8) : Bool := c = cr || c = lf

def lineTokens (text : RawText) : List RawText := (text.splitOnP endsLine).filter (· ≠ [])

/-- The loop of `AssembleRawHeaders`: a continuation is joined with its line, and NUL ends the
line before any other. -/
def assembleLines : Bool → List RawText → RawText
  | _, [] => []
  | prevLineContinuable, line :: lines =>
    if prevLineContinuable && line.head?.any isLWS then
      32 :: line.dropWhile isLWS ++ assembleLines prevLineContinuable lines
    else 0 :: line ++ assembleLines (isLineSegmentContinuable line) lines

def assembleRawHeaders (input : RawText) : RawText :=
  let input := input.drop ((locateStartOfStatusLine input).getD 0)
  let statusLine := input.takeWhile (!endsLine ·)
  statusLine ++ assembleLines false (lineTokens (input.drop statusLine.length)) ++ [0, 0]

/-- `"HTTP/0.9 200 OK"`, where there is no status line. -/
def http09 : RawText := [72, 84, 84, 80, 47, 48, 46, 57, 32, 50, 48, 48, 32, 79, 75]

/-- Where the header block of the received bytes ends, as soon as they tell: without a status
line in the first eight bytes the block is empty. -/
def headerEnd (received : RawText) : Option Nat :=
  match locateStartOfStatusLine received with
  | some start => locateEndOfHeaders received start
  | none => if 8 ≤ received.length then some 0 else none

def headerText (received : RawText) (blockEnd : Nat) : RawText :=
  if (locateStartOfStatusLine received).isSome then assembleRawHeaders (received.take blockEnd)
  else http09

section Received

variable {received : RawText} {start : Nat}

theorem beginsHttp_length {i : Nat} (begins : beginsHttp received i = true) : i + 4 ≤ received.length := by
  have same := congrArg List.length (of_decide_eq_true begins)
  simp only [length_map, length_take, length_drop, http, length_cons, length_nil] at same
  omega

theorem beginsHttp_append {i : Nat} (inside : i + 4 ≤ received.length) (more : RawText) :
    beginsHttp (received ++ more) i = beginsHttp received i := by
  have front : ((received ++ more).drop i).take 4 = (received.drop i).take 4 := by
    rw [drop_append_of_le_length (by omega), take_append_of_le_length]
    rw [length_drop]
    omega
  rw [beginsHttp, beginsHttp, front]

theorem locateStart_iff : locateStartOfStatusLine received = some start ↔
    start ≤ 4 ∧ beginsHttp received start = true ∧ ∀ i < start, beginsHttp received i = false := by
  rw [locateStartOfStatusLine]
  constructor
  · intro found
    split at found
    · rw [List.find?_range_eq_some] at found
      obtain ⟨begins, member, before⟩ := found
      rw [mem_range] at member
      exact ⟨by omega, begins, fun i small => by simpa using before i small⟩
    · cases found
  · rintro ⟨small, begins, before⟩
    have inside := beginsHttp_length begins
    rw [if_pos (by omega), List.find?_range_eq_some]
    exact ⟨begins, mem_range.mpr (by omega), fun i less => by simp [before i less]⟩

theorem locateStart_append (located : locateStartOfStatusLine received = some start)
    (more : RawText) : locateStartOfStatusLine (received ++ more) = some start := by
  rw [locateStart_iff] at located ⊢
  obtain ⟨small, begins, before⟩ := located
  have inside := beginsHttp_length begins
  refine ⟨small, ?_, ?_⟩
  · rw [beginsHttp_append inside, begins]
  · intro i less
    rw [beginsHttp_append (by omega), before i less]

theorem locateStart_none_append (located : locateStartOfStatusLine received = none)
    (eight : 8 ≤ received.length) (more : RawText) : locateStartOfStatusLine (received ++ more) = none := by
  cases found : locateStartOfStatusLine (received ++ more) with
  | none => rfl
  | some start =>
    obtain ⟨small, begins, before⟩ := locateStart_iff.mp found
    have here : locateStartOfStatusLine received = some start := by
      refine locateStart_iff.mpr ⟨small, ?_, ?_⟩
      · rw [← beginsHttp_append (by omega) more, begins]
      · intro i less
        rw [← beginsHttp_append (by omega) more, before i less]
    rw [located] at here
    cases here

variable {lastC : UInt8} {wasLf : Bool} {size : Nat} {text : RawText}

theorem endOfHeadersFrom_length
    (found : endOfHeadersFrom wasLf lastC text = some size) : size ≤ text.length := by
  induction text generalizing wasLf lastC size with
  | nil => cases found
  | cons c rest ih =>
    rw [endOfHeadersFrom] at found
    rw [length_cons]
    split at found
    · split at found
      · cases found
        omega
      · obtain ⟨behind, found', rfl⟩ := map_eq_some_iff.mp found
        exact Nat.succ_le_succ (ih found')
    · obtain ⟨behind, found', rfl⟩ := map_eq_some_iff.mp found
      exact Nat.succ_le_succ (ih found')

theorem endOfHeadersFrom_append (found : endOfHeadersFrom wasLf lastC text = some size) (more : RawText) :
    endOfHeadersFrom wasLf lastC (text ++ more) = some size := by
  induction text generalizing wasLf lastC size with
  | nil => cases found
  | cons c rest ih =>
    rw [endOfHeadersFrom] at found
    rw [cons_append, endOfHeadersFrom]
    split at found
    · rename_i is_lf
      rw [if_pos is_lf]
      split at found
      · rename_i second
        rw [if_pos second, found]
      · rename_i first
        obtain ⟨behind, found', rfl⟩ := map_eq_some_iff.mp found
        rw [if_neg first, ih found']
        rfl
    · rename_i other
      obtain ⟨behind, found', rfl⟩ := map_eq_some_iff.mp found
      rw [if_neg other, ih found']
      rfl

theorem locateEnd_length (inside : start ≤ received.length)
    (found : locateEndOfHeaders received start = some size) : size ≤ received.length := by
  obtain ⟨behind, found', rfl⟩ := map_eq_some_iff.mp found
  have short := endOfHeadersFrom_length found'
  rw [length_drop] at short
  omega

theorem locateEnd_append (inside : start ≤ received.length)
    (found : locateEndOfHeaders received start = some size) (more : RawText) :
    locateEndOfHeaders (received ++ more) start = some size := by
  obtain ⟨behind, found', rfl⟩ := map_eq_some_iff.mp found
  rw [locateEndOfHeaders, drop_append_of_le_length inside, endOfHeadersFrom_append found']
  rfl

theorem endOfHeadersFrom_front {more : RawText}
    (found : endOfHeadersFrom wasLf lastC (text ++ more) = some size) (inside : size ≤ text.length) :
    endOfHeadersFrom wasLf lastC text = some size := by
  cases here : endOfHeadersFrom wasLf lastC text with
  | some size' => rw [← found, endOfHeadersFrom_append here]
  | none =>
    exfalso
    induction text generalizing wasLf lastC size with
    | nil =>
      rw [Nat.le_zero.mp inside] at found
      cases more with
      | nil => cases found
      | cons c more =>
        rw [nil_append, endOfHeadersFrom] at found
        split at found
        · split at found
          · cases found
          · simp at found
        · simp at found
    | cons c rest ih =>
      rw [cons_append, endOfHeadersFrom] at found
      rw [endOfHeadersFrom] at here
      rw [length_cons] at inside
      split at found
      · rename_i is_lf
        rw [if_pos is_lf] at here
        split at found
        · rename_i second
          rw [if_pos second] at here
          cases here
        · rename_i first
          rw [if_neg first, map_eq_none_iff] at here
          obtain ⟨behind, found', rfl⟩ := map_eq_some_iff.mp found
          exact ih found' (Nat.le_of_succ_le_succ inside) here
      · rename_i other
        rw [if_neg other, map_eq_none_iff] at here
        obtain ⟨behind, found', rfl⟩ := map_eq_some_iff.mp found
        exact ih found' (Nat.le_of_succ_le_succ inside) here

theorem locateStart_inside (located : locateStartOfStatusLine received = some start) :
    start ≤ received.length := by
  have inside := beginsHttp_length (locateStart_iff.mp located).2.1
  omega

variable {blockEnd : Nat}

theorem headerEnd_length (ends : headerEnd received = some blockEnd) : blockEnd ≤ received.length := by
  rw [headerEnd] at ends
  split at ends
  · rename_i start located
    exact locateEnd_length (locateStart_inside located) ends
  · split at ends
    · cases ends
      exact Nat.zero_le _
    · cases ends

theorem headerEnd_append (ends : headerEnd received = some blockEnd) (more : RawText) :
    headerEnd (received ++ more) = some blockEnd := by
  rw [headerEnd] at ends ⊢
  split at ends
  · rename_i start located
    rw [locateStart_append located]
    exact locateEnd_append (locateStart_inside located) ends more
  · rename_i located
    split at ends
    · rename_i eight
      rw [locateStart_none_append located eight, length_append]
      exact (if_pos (by omega)).trans ends
    · cases ends

theorem headerEnd_front {more : RawText} (ends : headerEnd (received ++ more) = some blockEnd)
    (inside : blockEnd ≤ received.length) (eight : 8 ≤ received.length) :
    headerEnd received = some blockEnd := by
  rw [headerEnd] at ends ⊢
  cases located : locateStartOfStatusLine received with
  | none =>
    rw [locateStart_none_append located eight, length_append] at ends
    exact (if_pos eight).trans ((if_pos (by omega)).symm.trans ends)
  | some start =>
    rw [locateStart_append located] at ends
    obtain ⟨behind, found, rfl⟩ := map_eq_some_iff.mp ends
    rw [drop_append_of_le_length (locateStart_inside located)] at found
    have front := endOfHeadersFrom_front found (by rw [length_drop]; omega)
    exact congrArg (Option.map (start + ·)) front

theorem headerText_append (ends : headerEnd received = some blockEnd) (more : RawText) :
    headerText (received ++ more) blockEnd = headerText received blockEnd := by
  have inside := headerEnd_length ends
  rw [headerText, headerText, take_append_of_le_length inside]
  rw [headerEnd] at ends
  split at ends
  · rename_i start located
    rw [locateStart_append located, located]
  · rename_i located
    split at ends
    · rename_i eight
      rw [locateStart_none_append located eight, located]
    · cases ends

end Received

end Glopen.Http

import Mathlib.Data.List.DropRight
import Glopen.Http.ChunkedDecoder

/-! A decoder that reads a chunked body byte by byte, and how `FilterBuf` follows it on any
buffers. At the end of a buffer a CR is dropped, wherever in its line it is. -/
namespace Glopen.Http

open HttpChunkedDecoder List

/-- One byte, for a decoder whose `lineBuf` has all of the line so far: the next decoder, whether
there is an error, and the output. -/
def stepByte (decoder : HttpChunkedDecoder) (b : UInt8) : HttpChunkedDecoder × Bool × List UInt8 :=
  if decoder.chunkRemaining ≠ 0 then
    ({ decoder with
      chunkRemaining := decoder.chunkRemaining - 1
      chunkTerminatorRemaining := decoder.chunkRemaining - 1 = 0 ||
        decoder.chunkTerminatorRemaining }, false, [b])
  else if decoder.reachedEof then
    ({ decoder with bytesAfterEof := decoder.bytesAfterEof + 1 }, false, [])
  else if b = lf then
    match scanLine decoder (chomp decoder.lineBuf) with
    | some next => ({ next with lineBuf := [] }, false, [])
    | none => (decoder, true, [])
  else ({ decoder with lineBuf := decoder.lineBuf ++ [b] }, false, [])

def decode : HttpChunkedDecoder → List UInt8 → Outcome
  | decoder, [] => ⟨decoder, false, []⟩
  | decoder, b :: data =>
    let (next, failed, output) := stepByte decoder b
    if failed then ⟨next, true, output⟩
    else
      let outcome := decode next data
      { outcome with output := output ++ outcome.output }

def noCr (line : List UInt8) : List UInt8 := line.filter (· ≠ cr)

def CrSafe : HttpChunkedDecoder → List UInt8 → Prop
  | _, [] => True
  | decoder, b :: data =>
    (decoder.chunkRemaining = 0 → decoder.reachedEof = false → b = lf →
      scanLine decoder (noCr (chomp decoder.lineBuf)) = scanLine decoder (chomp decoder.lineBuf)) ∧
    ((stepByte decoder b).2.1 = false → CrSafe (stepByte decoder b).1 data)

instance CrSafe.decidable : (decoder : HttpChunkedDecoder) → (data : List UInt8) →
    Decidable (CrSafe decoder data)
  | _, [] => isTrue trivial
  | decoder, b :: data =>
    have := CrSafe.decidable (stepByte decoder b).1 data
    inferInstanceAs (Decidable (_ ∧ _))

theorem decode_append (decoder : HttpChunkedDecoder) (first second : List UInt8) :
    decode decoder (first ++ second) = if (decode decoder first).failed then decode decoder first
      else
        { decode (decode decoder first).decoder second with
          output := (decode decoder first).output ++
            (decode (decode decoder first).decoder second).output } := by
  induction first generalizing decoder with
  | nil => rfl
  | cons b first ih =>
    rw [cons_append, decode, decode]
    rcases stepByte decoder b with ⟨next, failed, output⟩
    cases failed with
    | true => rfl
    | false =>
      simp only [Bool.false_eq_true, if_false]
      rw [ih]
      split
      · rfl
      · simp only [append_assoc]

variable {decoder : HttpChunkedDecoder} {first second line line' start : List UInt8}

theorem CrSafe.append (safe : CrSafe decoder (first ++ second)) (fine : (decode decoder first).failed = false) :
    CrSafe (decode decoder first).decoder second := by
  induction first generalizing decoder with
  | nil => exact safe
  | cons b first ih =>
    have later := safe.2
    rw [decode] at fine ⊢
    generalize stepByte decoder b = result at later fine ⊢
    obtain ⟨next, failed, output⟩ := result
    cases failed with
    | true => cases fine
    | false => exact ih (later rfl) fine

theorem CrSafe.left (safe : CrSafe decoder (first ++ second)) : CrSafe decoder first := by
  induction first generalizing decoder with
  | nil => trivial
  | cons b first ih => exact ⟨safe.1, fun fine => ih (safe.2 fine)⟩

theorem decode_chunk {data : List UInt8} (short : data.length ≤ decoder.chunkRemaining) :
    decode decoder data = ⟨{ decoder with
      chunkRemaining := decoder.chunkRemaining - data.length
      chunkTerminatorRemaining := (data ≠ [] && decoder.chunkRemaining - data.length = 0) ||
        decoder.chunkTerminatorRemaining }, false, data⟩ := by
  induction data generalizing decoder with
  | nil => rfl
  | cons b data ih =>
    rw [length_cons] at short
    have some_left : decoder.chunkRemaining ≠ 0 := by omega
    rw [decode, stepByte, if_pos some_left]
    simp only [Bool.false_eq_true, if_false]
    have terminated : ((data ≠ [] && decoder.chunkRemaining - 1 - data.length = 0) ||
        (decoder.chunkRemaining - 1 = 0 || decoder.chunkTerminatorRemaining)) =
        ((b :: data ≠ [] && decoder.chunkRemaining - (data.length + 1) = 0) ||
          decoder.chunkTerminatorRemaining) := by
      cases data with
      | nil => simp
      | cons c data =>
        have more : ¬ decoder.chunkRemaining - 1 = 0 := by
          rw [length_cons] at short
          omega
        simp [more, Nat.sub_sub, Nat.add_comm 1]
    rw [@ih { decoder with
      chunkRemaining := decoder.chunkRemaining - 1
      chunkTerminatorRemaining := decoder.chunkRemaining - 1 = 0 ||
        decoder.chunkTerminatorRemaining } (by simp only; omega)]
    simp only [terminated]
    rw [length_cons, Nat.sub_sub, Nat.add_comm 1]
    rfl

theorem decode_eof (finished : decoder.chunkRemaining = 0) (eof : decoder.reachedEof = true)
    (data : List UInt8) : decode decoder data = ⟨{ decoder with
      bytesAfterEof := decoder.bytesAfterEof + data.length }, false, []⟩ := by
  induction data generalizing decoder with
  | nil => rfl
  | cons b data ih =>
    rw [decode, stepByte, if_neg (not_not.mpr finished), if_pos eof]
    simp only [Bool.false_eq_true, if_false]
    rw [@ih { decoder with bytesAfterEof := decoder.bytesAfterEof + 1 } finished eof]
    simp only [nil_append, length_cons, Nat.add_assoc, Nat.add_comm 1]

theorem decode_line (finished : decoder.chunkRemaining = 0) (reading : decoder.reachedEof = false)
    {data : List UInt8} (open_line : lf ∉ data) :
    decode decoder data = ⟨{ decoder with lineBuf := decoder.lineBuf ++ data }, false, []⟩ := by
  induction data generalizing decoder with
  | nil => rw [append_nil]; rfl
  | cons b data ih =>
    rw [mem_cons, not_or] at open_line
    rw [decode, stepByte, if_neg (not_not.mpr finished), if_neg (by rw [reading]; decide),
      if_neg (Ne.symm open_line.1)]
    simp only [Bool.false_eq_true, if_false]
    rw [@ih { decoder with lineBuf := decoder.lineBuf ++ [b] } finished reading open_line.2]
    simp only [nil_append, append_assoc, singleton_append]

inductive Drops : List UInt8 → List UInt8 → Prop
  | nil : Drops [] []
  | keep (b : UInt8) {line line' : List UInt8} : Drops line line' → Drops (b :: line) (b :: line')
  | drop {line line' : List UInt8} : Drops line line' → Drops (cr :: line) line'

theorem Drops.refl (line : List UInt8) : Drops line line := by
  induction line with
  | nil => exact .nil
  | cons b line ih => exact .keep b ih

theorem Drops.append {more more' : List UInt8} (first : Drops line line')
    (second : Drops more more') : Drops (line ++ more) (line' ++ more') := by
  induction first with
  | nil => exact second
  | keep b _ ih => exact .keep b ih
  | drop _ ih => exact .drop ih

theorem Drops.noCr (drops : Drops line line') : noCr line' = noCr line := by
  induction drops with
  | nil => rfl
  | keep b _ ih =>
    simp only [Http.noCr, filter_cons] at ih ⊢
    rw [ih]
  | drop _ ih => exact ih

theorem Drops.nil_left (drops : Drops [] line) : line = [] := by
  cases drops
  rfl

theorem Drops.mem (drops : Drops line line') {b : UInt8} (member : b ∈ line') : b ∈ line := by
  induction drops with
  | nil => exact member
  | keep c _ ih =>
    rcases mem_cons.mp member with rfl | member
    · exact mem_cons_self ..
    · exact mem_cons_of_mem c (ih member)
  | drop _ ih => exact mem_cons_of_mem cr (ih member)

theorem Drops.takeWhile (drops : Drops line line')
    {p : UInt8 → Bool} (kept : p cr = true) : Drops (line.takeWhile p) (line'.takeWhile p) := by
  induction drops with
  | nil => exact .nil
  | keep b _ ih =>
    rw [takeWhile_cons, takeWhile_cons]
    split
    · exact .keep b ih
    · exact .nil
  | drop _ ih =>
    rw [takeWhile_cons, kept]
    exact .drop ih

theorem chomp_cases (line : List UInt8) : chomp line = line ∨ line = chomp line ++ [cr] := by
  rw [chomp]
  split
  · rename_i last
    refine Or.inr ?_
    have some_line : line ≠ [] := fun empty => by rw [empty] at last; cases last
    rw [List.getLast?_eq_some_getLast some_line, Option.some.injEq] at last
    rw [← last, dropLast_concat_getLast]
  · exact Or.inl rfl

theorem Drops.chomped (drops : Drops (chomp line) line') : Drops line line' := by
  rcases chomp_cases line with same | more
  · rw [same] at drops
    exact drops
  · rw [more, ← append_nil line']
    exact drops.append (.drop .nil)

theorem chomp_append (some_line : line ≠ []) (before : List UInt8) :
    chomp (before ++ line) = before ++ chomp line := by
  rw [chomp, chomp, List.getLast?_append_of_ne_nil before some_line, dropLast_append_of_ne_nil some_line]
  split
  · rfl
  · rfl

theorem parse_cr (member : cr ∈ start) : parseChunkSize start = none := by
  have stripped : cr ∈ (start.reverse.dropWhile (· = 32)).reverse := by
    rw [mem_reverse]
    have parts := takeWhile_append_dropWhile (p := (· = 32)) (l := start.reverse)
    have inside : cr ∈ start.reverse := mem_reverse.mpr member
    rw [← parts, mem_append] at inside
    rcases inside with space | rest
    · exact absurd (mem_takeWhile_imp space) (by decide)
    · exact rest
  rw [parseChunkSize]
  refine if_neg fun digits => ?_
  exact absurd (List.all_eq_true.mp digits cr stripped) (by decide)

theorem parse_drops {start' : List UInt8} (drops : Drops start start')
    (safe : parseChunkSize (noCr start) = parseChunkSize start) :
    parseChunkSize start' = parseChunkSize start := by
  by_cases member : cr ∈ start'
  · rw [parse_cr member, parse_cr (drops.mem member)]
  · have clean : noCr start' = start' :=
      filter_eq_self.mpr fun b inside => decide_eq_true fun same => member (same ▸ inside)
    rw [← clean, drops.noCr, safe]

theorem scanLine_size (sizes : decoder.reachedLastChunk = false)
    (ready : decoder.chunkTerminatorRemaining = false) (line : List UInt8) :
    scanLine decoder line = (parseChunkSize (line.takeWhile (· ≠ 59))).map fun size =>
      { decoder with chunkRemaining := size, reachedLastChunk := size = 0 } := by
  rw [scanLine, if_neg (by rw [sizes]; decide), if_neg (by rw [ready]; decide)]
  by_cases empty : line = []
  · subst empty
    rfl
  · rw [if_pos empty]
    cases parseChunkSize (line.takeWhile (· ≠ 59)) with
    | none => rfl
    | some size => rfl

theorem takeWhile_noCr (line : List UInt8) :
    (noCr line).takeWhile (· ≠ 59) = noCr (line.takeWhile (· ≠ 59)) := by
  induction line with
  | nil => rfl
  | cons b line ih =>
    by_cases ends : b = 59
    · subst ends
      rfl
    have goes_on : decide (b ≠ 59) = true := decide_eq_true ends
    rw [noCr, filter_cons, takeWhile_cons, if_pos goes_on, noCr, filter_cons]
    split
    · rw [takeWhile_cons, if_pos goes_on, ← noCr, ih, noCr]
    · exact ih

theorem scanLine_drops (reading : decoder.reachedEof = false) (drops : Drops line line')
    (safe : scanLine decoder (noCr line) = scanLine decoder line) :
    scanLine decoder line' = scanLine decoder line := by
  by_cases empty : line = []
  · rw [empty] at drops ⊢
    rw [drops.nil_left]
  by_cases last : decoder.reachedLastChunk = true
  · have full : noCr line ≠ [] := fun bare => by
      rw [bare, scanLine, scanLine, if_pos last, if_pos last, if_neg (by simp), if_pos empty,
        Option.some.injEq] at safe
      exact Bool.noConfusion ((congrArg reachedEof safe).trans reading)
    have full' : line' ≠ [] := fun bare => by
      rw [← drops.noCr, bare] at full
      exact full rfl
    rw [scanLine, scanLine, if_pos last, if_pos last, if_pos full', if_pos empty]
  have size_or_end : ∀ line, scanLine decoder line = _ := fun line => if_neg last
  by_cases ending : decoder.chunkTerminatorRemaining = true
  · have full : noCr line ≠ [] := fun bare => by
      rw [bare, size_or_end, size_or_end, if_pos ending, if_pos ending, if_neg (by simp),
        if_pos empty] at safe
      cases safe
    have full' : line' ≠ [] := fun bare => by
      rw [← drops.noCr, bare] at full
      exact full rfl
    rw [size_or_end, size_or_end, if_pos ending, if_pos ending, if_pos full', if_pos empty]
  rw [Bool.not_eq_true] at last ending
  rw [scanLine_size last ending, scanLine_size last ending, takeWhile_noCr] at safe
  rw [scanLine_size last ending, scanLine_size last ending, parse_drops (drops.takeWhile (by decide)) ?_]
  have injective : Function.Injective fun size : Nat => { decoder with
      chunkRemaining := size
      reachedLastChunk := size = 0 } :=
    fun size size' same => congrArg chunkRemaining same
  exact Option.map_injective injective safe

end Glopen.Http

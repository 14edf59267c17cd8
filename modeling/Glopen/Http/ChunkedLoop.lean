import Glopen.Http.ChunkedRuns

/-! The loop of `FilterBuf` over one buffer, against the byte by byte decoder. -/
namespace Glopen.Http

open HttpChunkedDecoder List Option
variable {decoder ideal : HttpChunkedDecoder}

/-- The decoder of `FilterBuf` and the one that keeps its whole line. -/
structure Similar (decoder ideal : HttpChunkedDecoder) : Prop where
  same : decoder = { ideal with lineBuf := decoder.lineBuf }
  drops : Drops (chomp ideal.lineBuf) decoder.lineBuf

theorem Similar.of_empty (empty : decoder.lineBuf = []) : Similar decoder decoder where
  same := rfl
  drops := by
    rw [empty]
    exact .nil

theorem scanLine_lineBuf (decoder : HttpChunkedDecoder) (line lineBuf : List UInt8) :
    scanLine { decoder with lineBuf := lineBuf } line =
      (scanLine decoder line).map fun next => { next with lineBuf := lineBuf } := by
  simp only [scanLine]
  split
  · split
    · rfl
    · rfl
  split
  · split
    · rfl
    · rfl
  split
  · cases parseChunkSize (line.takeWhile (· ≠ 59)) with
    | none => rfl
    | some size => rfl
  · rfl

def Ready (decoder ideal : HttpChunkedDecoder) (data : List UInt8) : Prop :=
  (decoder.lineBuf = [] ∧ ideal.lineBuf = []) ∨ CrSafe ideal data

variable {piece rest : List UInt8} {filter : Filter}

section Scan

variable {buf : List UInt8}

theorem split_line (member : lf ∈ buf) :
    ∃ piece rest, buf = piece ++ lf :: rest ∧ lf ∉ piece := eq_append_cons_of_mem member

theorem scan_partial (decoder : HttpChunkedDecoder) (open_line : lf ∉ buf) : scanForChunkRemaining decoder buf =
      ({ decoder with lineBuf := decoder.lineBuf ++ chomp buf }, some buf.length) := by
  rw [scanForChunkRemaining, List.idxOf?_eq_none_iff.mpr open_line]

theorem first_lf (open_line : lf ∉ piece) (rest : List UInt8) :
    (piece ++ lf :: rest).idxOf? lf = some piece.length := by
  induction piece with
  | nil => rfl
  | cons b piece ih =>
    rw [mem_cons, not_or] at open_line
    rw [cons_append, List.idxOf?_cons, ih open_line.2, if_neg (by simpa using Ne.symm open_line.1)]
    rfl

theorem scan_line (decoder : HttpChunkedDecoder) (open_line : lf ∉ piece) (rest : List UInt8) :
    (∀ next, scanLine decoder (decoder.lineBuf ++ chomp piece) = some next →
      scanForChunkRemaining decoder (piece ++ lf :: rest) =
        ({ next with lineBuf := [] }, some (piece.length + 1))) ∧
    (scanLine decoder (decoder.lineBuf ++ chomp piece) = none →
      ∃ lineBuf, scanForChunkRemaining decoder (piece ++ lf :: rest) =
        ({ decoder with lineBuf := lineBuf }, none)) := by
  have full_line : (if decoder.lineBuf ≠ [] then decoder.lineBuf ++ chomp piece else chomp piece) =
      decoder.lineBuf ++ chomp piece := by
    by_cases empty : decoder.lineBuf = []
    · rw [if_neg (not_not.mpr empty), empty, nil_append]
    · rw [if_pos empty]
  simp only [scanForChunkRemaining, first_lf open_line, take_left', full_line]
  constructor
  · intro next scanned
    rw [scanned]
  · intro failed
    rw [failed]
    exact ⟨_, rfl⟩

variable (finished : ideal.chunkRemaining = 0) (reading : ideal.reachedEof = false)
include finished reading

theorem decode_lf (rest : List UInt8) : (∀ next, scanLine ideal (chomp ideal.lineBuf) = some next →
      decode ideal (lf :: rest) = decode { next with lineBuf := [] } rest) ∧
    (scanLine ideal (chomp ideal.lineBuf) = none → decode ideal (lf :: rest) = ⟨ideal, true, []⟩) := by
  rw [decode, stepByte, if_neg (not_not.mpr finished), if_neg (by rw [reading]; decide), if_pos rfl]
  constructor
  · intro next scanned
    rw [scanned]
    rfl
  · intro failed
    rw [failed]
    rfl

theorem decode_full_line (open_line : lf ∉ piece) (rest : List UInt8) :
    (∀ next, scanLine ideal (chomp (ideal.lineBuf ++ piece)) = some next →
      decode ideal (piece ++ lf :: rest) = decode { next with lineBuf := [] } rest) ∧
    (scanLine ideal (chomp (ideal.lineBuf ++ piece)) = none → decode ideal (piece ++ lf :: rest) =
        ⟨{ ideal with lineBuf := ideal.lineBuf ++ piece }, true, []⟩) := by
  have passed := decode_append ideal piece (lf :: rest)
  rw [decode_line finished reading open_line] at passed
  have ends := @decode_lf { ideal with lineBuf := ideal.lineBuf ++ piece } finished reading rest
  rw [scanLine_lineBuf] at ends
  constructor
  · intro next scanned
    have last := ends.1 { next with lineBuf := ideal.lineBuf ++ piece } (by rw [scanned]; rfl)
    exact passed.trans last
  · intro failed
    rw [passed]
    simp only [Bool.false_eq_true, if_false]
    rw [ends.2 (by rw [failed]; rfl)]
    rfl

theorem CrSafe.full_line (open_line : lf ∉ piece) (safe : CrSafe ideal (piece ++ lf :: rest)) :
    scanLine ideal (noCr (chomp (ideal.lineBuf ++ piece))) =
      scanLine ideal (chomp (ideal.lineBuf ++ piece)) := by
  have fine : (decode ideal piece).failed = false := by
    rw [decode_line finished reading open_line]
  have line := (safe.append fine).1
  rw [decode_line finished reading open_line] at line
  have same := congrArg (Option.map fun next => { next with lineBuf := ideal.lineBuf })
    (line finished reading rfl)
  rw [← scanLine_lineBuf, ← scanLine_lineBuf] at same
  exact same

end Scan

section Lines

variable (similar : Similar decoder ideal)
include similar

theorem Similar.remaining : decoder.chunkRemaining = ideal.chunkRemaining := by
  rw [similar.same]

theorem Similar.eof : decoder.reachedEof = ideal.reachedEof := by
  rw [similar.same]

theorem Similar.bytes : decoder.bytesAfterEof = ideal.bytesAfterEof := by
  rw [similar.same]

theorem Similar.line_drops (piece : List UInt8) :
    Drops (chomp (ideal.lineBuf ++ piece)) (decoder.lineBuf ++ chomp piece) := by
  by_cases empty : piece = []
  · subst empty
    rw [append_nil]
    have nothing : decoder.lineBuf ++ chomp [] = decoder.lineBuf := append_nil _
    rw [nothing]
    exact similar.drops
  · rw [chomp_append empty]
    exact similar.drops.chomped.append (Drops.refl _)

theorem Similar.partial_line (piece : List UInt8) :
    Similar { decoder with lineBuf := decoder.lineBuf ++ chomp piece }
      { ideal with lineBuf := ideal.lineBuf ++ piece } where
  same := by
    rw [similar.same]
  drops := similar.line_drops piece

theorem Similar.full_line (reading : ideal.reachedEof = false)
    (finished : ideal.chunkRemaining = 0) (open_line : lf ∉ piece)
    (ready : Ready decoder ideal (piece ++ lf :: rest)) : scanLine decoder (decoder.lineBuf ++ chomp piece) =
      (scanLine ideal (chomp (ideal.lineBuf ++ piece))).map fun next =>
        { next with lineBuf := decoder.lineBuf } := by
  have as_ideal : scanLine ideal (decoder.lineBuf ++ chomp piece) =
      scanLine ideal (chomp (ideal.lineBuf ++ piece)) := by
    rcases ready with ⟨none_yet, none_yet'⟩ | safe
    · rw [none_yet, none_yet']
      rfl
    · exact scanLine_drops reading (similar.line_drops piece) (safe.full_line finished reading open_line)
  rw [← as_ideal, ← scanLine_lineBuf, ← similar.same]

end Lines

def Filter.front (filter : Filter) : List UInt8 := filter.memory.take filter.result

section Window

variable (inside : filter.result + filter.bufLen ≤ filter.memory.length)

theorem Filter.empty_window (finished : filter.bufLen = 0) : filter.window = [] := by
  rw [window, finished, take_zero]

theorem Filter.passChunk_window : filter.passChunk.window =
      filter.window.drop (min filter.decoder.chunkRemaining filter.bufLen) := by
  rw [window, window, drop_take, drop_drop]
  rfl

theorem Filter.passChunk_front : filter.passChunk.front =
      filter.front ++ filter.window.take (min filter.decoder.chunkRemaining filter.bufLen) := by
  rw [front, front, window, take_take, Nat.min_eq_left (Nat.min_le_right ..), ← take_add]
  rfl
include inside

theorem Filter.window_length : filter.window.length = filter.bufLen := by
  rw [window, length_take, length_drop]
  omega

theorem Filter.front_length : filter.front.length = filter.result := by
  rw [front, length_take]
  omega

theorem Filter.passChunk_inside :
    filter.passChunk.result + filter.passChunk.bufLen ≤ filter.passChunk.memory.length := by
  simp only [passChunk]
  omega

variable (decoder : HttpChunkedDecoder) (bytesConsumed : Nat)

theorem Filter.moveBack_front : (filter.moveBack decoder bytesConsumed).front = filter.front := by
  have short := filter.front_length inside
  simp only [front, moveBack] at short ⊢
  split
  · rw [append_assoc, take_left' short]
  · rfl

theorem Filter.moveBack_window :
    (filter.moveBack decoder bytesConsumed).window = filter.window.drop bytesConsumed := by
  have short := filter.front_length inside
  simp only [front, window, moveBack] at short ⊢
  rw [drop_take, drop_drop]
  split
  · rw [append_assoc, drop_left' short, take_left']
    rw [length_take, length_drop]
    omega
  · rename_i nothing_left
    rw [not_not.mp nothing_left, take_zero, take_zero]

theorem Filter.moveBack_inside :
    (filter.moveBack decoder bytesConsumed).result + (filter.moveBack decoder bytesConsumed).bufLen ≤
      (filter.moveBack decoder bytesConsumed).memory.length := by
  simp only [moveBack]
  split
  · simp only [length_append, length_take, length_drop]
    omega
  · omega

end Window

structure Decoded (front : List UInt8) (outcome : Outcome) (filtered : Filtered) : Prop where
  failed : outcome.failed = true → filtered.result = none
  result : outcome.failed = false → filtered.result = some (front.length + outcome.output.length)
  output : outcome.failed = false →
    filtered.memory.take (front.length + outcome.output.length) = front ++ outcome.output
  similar : outcome.failed = false → Similar filtered.decoder outcome.decoder
  eof : filtered.decoder.reachedEof = outcome.decoder.reachedEof
  bytes : filtered.decoder.bytesAfterEof = outcome.decoder.bytesAfterEof

theorem Decoded.prepend {front more : List UInt8} {outcome : Outcome} {filtered : Filtered}
    (decoded : Decoded (front ++ more) outcome filtered) :
    Decoded front { outcome with output := more ++ outcome.output } filtered where
  failed := decoded.failed
  result fine := by
    rw [decoded.result fine, length_append, length_append, Nat.add_assoc]
  output fine := by
    have same := decoded.output fine
    rw [length_append, Nat.add_assoc, append_assoc] at same
    rw [length_append, same]
  similar := decoded.similar
  eof := decoded.eof
  bytes := decoded.bytes

theorem Decoded.ends (inside : filter.result + filter.bufLen ≤ filter.memory.length)
    (similar : Similar decoder ideal) :
    Decoded filter.front ⟨ideal, false, []⟩ ⟨decoder, some filter.result, filter.memory⟩ where
  failed stopped := by cases stopped
  result _ := by rw [filter.front_length inside]; rfl
  output _ := by
    rw [filter.front_length inside, append_nil]
    rfl
  similar _ := similar
  eof := similar.eof
  bytes := similar.bytes

theorem Decoded.stops (front : List UInt8)
    (similar : Similar decoder ideal) (lineBuf lineBuf' memory : List UInt8) :
    Decoded front ⟨{ ideal with lineBuf := lineBuf' }, true, []⟩
      ⟨{ decoder with lineBuf := lineBuf }, none, memory⟩ where
  failed _ := rfl
  result fine := by cases fine
  output fine := by cases fine
  similar fine := by cases fine
  eof := similar.eof
  bytes := similar.bytes

section Steps

variable (inside : filter.result + filter.bufLen ≤ filter.memory.length)
  (similar : Similar filter.decoder ideal) (ready : Ready filter.decoder ideal filter.window)
include inside similar ready

theorem Filter.passChunk_decodes (some_left : filter.bufLen ≠ 0)
    (in_chunk : filter.decoder.chunkRemaining ≠ 0) : ∃ data ideal', Similar filter.passChunk.decoder ideal' ∧
      Ready filter.passChunk.decoder ideal' filter.passChunk.window ∧
      filter.passChunk.front = filter.front ++ data ∧
      decode ideal filter.window = { decode ideal' filter.passChunk.window with
        output := data ++ (decode ideal' filter.passChunk.window).output } := by
  let num := min filter.decoder.chunkRemaining filter.bufLen
  have data_length : (filter.window.take num).length = num := by
    rw [length_take, filter.window_length inside]
    omega
  have nonempty : filter.window.take num ≠ [] := fun empty => by
    rw [empty, length_nil] at data_length
    omega
  have data := @decode_chunk ideal (filter.window.take num)
    (by rw [data_length, ← similar.remaining]; exact Nat.min_le_left ..)
  have parts := decode_append ideal (filter.window.take num) (filter.window.drop num)
  rw [take_append_drop] at parts
  refine ⟨filter.window.take num, (decode ideal (filter.window.take num)).decoder, ?_, ?_,
    filter.passChunk_front, ?_⟩
  · rw [data]
    refine ⟨?_, similar.drops⟩
    have as_passed : ideal.chunkRemaining - num =
        filter.decoder.chunkRemaining - min filter.decoder.chunkRemaining filter.bufLen := by
      rw [← similar.remaining]
    simp only [Filter.passChunk, data_length, as_passed, nonempty, ne_eq, not_false_iff,
      decide_true, Bool.true_and]
    rw [similar.same]
  · rcases ready with ⟨none_yet, none_yet'⟩ | safe
    · rw [data]
      exact .inl ⟨none_yet, none_yet'⟩
    · rw [← take_append_drop num filter.window] at safe
      rw [filter.passChunk_window]
      exact .inr (safe.append (by rw [data]))
  · rw [parts, data]
    rw [filter.passChunk_window]
    rfl

theorem Filter.scan_decodes (some_left : filter.bufLen ≠ 0)
    (finished : ideal.chunkRemaining = 0) (reading : ideal.reachedEof = false) :
    (∃ lineBuf lineBuf', scanForChunkRemaining filter.decoder filter.window =
        ({ filter.decoder with lineBuf := lineBuf }, none) ∧
      decode ideal filter.window = ⟨{ ideal with lineBuf := lineBuf' }, true, []⟩) ∨
    ∃ decoder bytesConsumed ideal', 0 < bytesConsumed ∧
      scanForChunkRemaining filter.decoder filter.window = (decoder, some bytesConsumed) ∧
      Similar decoder ideal' ∧ Ready decoder ideal' (filter.window.drop bytesConsumed) ∧
      decode ideal filter.window = decode ideal' (filter.window.drop bytesConsumed) := by
  have some_bytes := filter.window_length inside
  generalize filter.window = window at some_bytes ready ⊢
  by_cases ends : lf ∈ window
  · obtain ⟨piece, rest, rfl, open_line⟩ := split_line ends
    have line := similar.full_line reading finished open_line ready
    have scans := scan_line filter.decoder open_line rest
    have reads := decode_full_line finished reading open_line rest
    rw [line] at scans
    cases scanned : scanLine ideal (chomp (ideal.lineBuf ++ piece)) with
    | none =>
      rw [scanned] at scans
      obtain ⟨lineBuf, stopped⟩ := scans.2 rfl
      exact .inl ⟨lineBuf, _, stopped, reads.2 scanned⟩
    | some next =>
      rw [scanned] at scans
      refine .inr ⟨_, piece.length + 1, { next with lineBuf := [] }, Nat.succ_pos _,
        scans.1 _ rfl, .of_empty rfl, .inl ⟨rfl, rfl⟩, ?_⟩
      rw [reads.1 next scanned, drop_append, drop_eq_nil_of_le (Nat.le_succ _)]
      simp
  · refine .inr ⟨_, window.length, { ideal with lineBuf := ideal.lineBuf ++ window }, ?_,
      scan_partial filter.decoder ends, similar.partial_line window, ?_, ?_⟩
    · omega
    · rw [drop_length]
      exact .inr trivial
    · rw [drop_length, decode_line finished reading ends]
      rfl

end Steps

theorem filterLoop_decodes {passes : Nat} {filter : Filter} {ideal : HttpChunkedDecoder}
    (enough : filter.bufLen ≤ passes) (inside : filter.result + filter.bufLen ≤ filter.memory.length)
    (similar : Similar filter.decoder ideal) (ready : Ready filter.decoder ideal filter.window) :
    ∃ filtered, filterLoop passes filter = some filtered ∧
      Decoded filter.front (decode ideal filter.window) filtered := by
  induction passes generalizing filter ideal with
  | zero =>
    have nothing_left : filter.bufLen = 0 := Nat.le_zero.mp enough
    rw [filterLoop, if_pos nothing_left, filter.empty_window nothing_left]
    exact ⟨_, rfl, .ends inside similar⟩
  | succ passes ih =>
    rw [filterLoop]
    by_cases nothing_left : filter.bufLen = 0
    · rw [if_pos nothing_left, filter.empty_window nothing_left]
      exact ⟨_, rfl, .ends inside similar⟩
    rw [if_neg nothing_left]
    by_cases in_chunk : filter.decoder.chunkRemaining ≠ 0
    · obtain ⟨data, ideal', similar', ready', front, same⟩ :=
        filter.passChunk_decodes inside similar ready nothing_left in_chunk
      have shorter : filter.passChunk.bufLen ≤ passes := by
        simp only [Filter.passChunk]
        omega
      obtain ⟨filtered, ran, decoded⟩ :=
        ih shorter (filter.passChunk_inside inside) similar' ready'
      rw [if_pos in_chunk, same]
      rw [front] at decoded
      exact ⟨filtered, ran, decoded.prepend⟩
    have finished : ideal.chunkRemaining = 0 := similar.remaining ▸ not_not.mp in_chunk
    rw [if_neg in_chunk]
    by_cases eof : filter.decoder.reachedEof = true
    · rw [if_pos eof, decode_eof finished (similar.eof ▸ eof), filter.window_length inside]
      refine ⟨_, rfl, .ends inside ⟨?_, similar.drops⟩⟩
      rw [similar.same]
    rw [Bool.not_eq_true] at eof
    rw [if_neg (by rw [eof]; decide)]
    rcases filter.scan_decodes inside similar ready nothing_left finished (similar.eof ▸ eof) with
      ⟨lineBuf, lineBuf', scanned, failed⟩ |
        ⟨decoder, bytesConsumed, ideal', consumed, scanned, similar', ready', same⟩
    · rw [scanned, failed]
      exact ⟨_, rfl, .stops filter.front similar lineBuf lineBuf' filter.memory⟩
    · have shorter : (filter.moveBack decoder bytesConsumed).bufLen ≤ passes := by
        simp only [Filter.moveBack]
        omega
      rw [← filter.moveBack_window inside decoder] at ready' same
      obtain ⟨filtered, ran, decoded⟩ :=
        ih shorter (filter.moveBack_inside inside decoder bytesConsumed) similar' ready'
      rw [filter.moveBack_front inside] at decoded
      rw [scanned, same]
      exact ⟨filtered, ran, decoded⟩

theorem filterBuf_decodes {decoder ideal : HttpChunkedDecoder} (similar : Similar decoder ideal)
    {buf : List UInt8} (ready : Ready decoder ideal buf) :
    ∃ filtered, filterBuf decoder buf = some filtered ∧ Decoded [] (decode ideal buf) filtered := by
  let filter : Filter := ⟨decoder, buf, 0, buf.length⟩
  have whole : filter.window = buf := take_length
  have decodes := @filterLoop_decodes buf.length filter ideal le_rfl
    (Nat.le_of_eq (Nat.zero_add _)) similar (by rw [whole]; exact ready)
  rw [whole] at decodes
  exact decodes

end Glopen.Http

/-! However a chunked body is cut into buffers, the calls of `FilterBuf` decode the same. -/
namespace Glopen.Http

open HttpChunkedDecoder
variable {decoder ideal : HttpChunkedDecoder}

structure Reports (outcome decoded : Outcome) : Prop where
  failed : outcome.failed = decoded.failed
  eof : outcome.decoder.reachedEof = decoded.decoder.reachedEof
  bytes : outcome.decoder.bytesAfterEof = decoded.decoder.bytesAfterEof
  whole : decoded.failed = false → outcome.output = decoded.output
  part : outcome.output <+: decoded.output

theorem filterAll_reports (similar : Similar decoder ideal)
    {bufs : List (List UInt8)} (safe : CrSafe ideal bufs.flatten) :
    ∃ outcome, filterAll decoder bufs = some outcome ∧ Reports outcome (decode ideal bufs.flatten) := by
  induction bufs generalizing decoder ideal with
  | nil => exact ⟨_, rfl, rfl, similar.eof, similar.bytes, fun _ => rfl, List.prefix_rfl⟩
  | cons buf bufs ih =>
    obtain ⟨filtered, ran, decoded⟩ := filterBuf_decodes similar (.inr safe.left)
    have parts := decode_append ideal buf bufs.flatten
    rw [List.flatten_cons] at safe ⊢
    rw [filterAll, ran, parts]
    cases fails : (decode ideal buf).failed with
    | true =>
      simp only [Option.bind_eq_bind, Option.bind_some, decoded.failed fails, if_true]
      refine ⟨_, rfl, fails.symm, decoded.eof, decoded.bytes, fun fine => ?_, List.nil_prefix⟩
      rw [fails] at fine
      cases fine
    | false =>
      obtain ⟨outcome, later, reports⟩ := ih (decoded.similar fails) (safe.append fails)
      have output := decoded.output fails
      rw [List.nil_append] at output
      simp only [Option.bind_eq_bind, Option.bind_some, decoded.result fails, later, output,
        Bool.false_eq_true, if_false]
      refine ⟨_, rfl, reports.failed, reports.eof, reports.bytes, fun fine => ?_, ?_⟩
      · rw [reports.whole fine]
      · exact (List.prefix_append_right_inj _).mpr reports.part

/-- Two cuts of the same bytes. -/
theorem split_independence {bufs bufs' : List (List UInt8)} (same : bufs.flatten = bufs'.flatten)
    (safe : CrSafe new bufs.flatten) :
    ∃ outcome outcome', filterAll new bufs = some outcome ∧ filterAll new bufs' = some outcome' ∧
      outcome.failed = outcome'.failed ∧
      outcome.decoder.reachedEof = outcome'.decoder.reachedEof ∧
      outcome.decoder.bytesAfterEof = outcome'.decoder.bytesAfterEof ∧
      (outcome.failed = false → outcome.output = outcome'.output) ∧
      (outcome.output <+: outcome'.output ∨ outcome'.output <+: outcome.output) := by
  obtain ⟨outcome, ran, reports⟩ := filterAll_reports (.of_empty rfl) safe
  rw [same] at safe reports
  obtain ⟨outcome', ran', reports'⟩ := filterAll_reports (.of_empty rfl) safe
  refine ⟨outcome, outcome', ran, ran', reports.failed.trans reports'.failed.symm,
    reports.eof.trans reports'.eof.symm, reports.bytes.trans reports'.bytes.symm, ?_,
    List.prefix_or_prefix_of_prefix reports.part reports'.part⟩
  intro fine
  have fine' := reports.failed.symm.trans fine
  exact (reports.whole fine').trans (reports'.whole fine').symm

/-- `"3;x\r\nabc\r\n0\r\n\r\n!"`, cut between and inside its lines. -/
theorem greeting_split :
    let bufs : List (List UInt8) :=
      [[51, 59, 120, 13], [10, 97], [98, 99, 13], [10, 48, 13, 10, 13], [10, 33]]
    let bufs' : List (List UInt8) :=
      [[51, 59], [120, 13, 10, 97, 98, 99, 13, 10, 48, 13, 10], [13, 10, 33]]
    ∃ outcome outcome', filterAll new bufs = some outcome ∧ filterAll new bufs' = some outcome' ∧
      outcome.failed = outcome'.failed ∧
      outcome.decoder.reachedEof = outcome'.decoder.reachedEof ∧
      outcome.decoder.bytesAfterEof = outcome'.decoder.bytesAfterEof ∧
      (outcome.failed = false → outcome.output = outcome'.output) ∧
      (outcome.output <+: outcome'.output ∨ outcome'.output <+: outcome.output) :=
  split_independence rfl (by decide +kernel)

/-- With `"1\r\na\r\nx\r\n"` in one buffer the error hides the `a`. A CR that ends a buffer is
lost also where no LF follows: `"1"`, `"1\r\n"` and `"1\r1\r\n"` are different sizes. -/
theorem split_matters :
    let whole : List (List UInt8) := [[49, 13, 10, 97, 13, 10, 120, 13, 10]]
    let halves : List (List UInt8) := [[49, 13, 10, 97, 13, 10], [120, 13, 10]]
    let stray : List (List UInt8) := [[49, 13, 49, 13, 10]]
    let lost : List (List UInt8) := [[49, 13], [49, 13, 10]]
    (whole.flatten = halves.flatten ∧ stray.flatten = lost.flatten) ∧
      (filterAll new whole).map Outcome.output = some [] ∧
      (filterAll new halves).map Outcome.output = some [97] ∧
      (filterAll new stray).map Outcome.failed = some true ∧
      (filterAll new lost).map Outcome.failed = some false := by
  decide +kernel

end Glopen.Http

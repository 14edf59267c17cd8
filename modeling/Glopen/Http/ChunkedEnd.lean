import Glopen.Http.ChunkedTrip

/-! Where a chunked body ends in a stream of bytes: its lines are safe to cut anywhere, and what
follows the body lies behind the output of `FilterBuf`. -/
namespace Glopen.Http

open HttpChunkedDecoder List
variable {decoder : HttpChunkedDecoder} {line rest : List UInt8} {next : HttpChunkedDecoder}

section Safe

theorem CrSafe.join {first second : List UInt8} (safe : CrSafe decoder first)
    (later : CrSafe (decode decoder first).decoder second) : CrSafe decoder (first ++ second) := by
  induction first generalizing decoder with
  | nil => exact later
  | cons b first ih =>
    refine ⟨safe.1, fun fine => ih (safe.2 fine) ?_⟩
    rw [decode] at later
    generalize stepByte decoder b = result at later fine
    obtain ⟨next, failed, output⟩ := result
    cases fine
    exact later

variable {data : List UInt8}

theorem crSafe_chunk (short : data.length ≤ decoder.chunkRemaining) : CrSafe decoder data := by
  induction data generalizing decoder with
  | nil => trivial
  | cons b data ih =>
    rw [length_cons] at short
    refine ⟨fun finished => by omega, fun _ => ih ?_⟩
    rw [stepByte, if_pos (by omega)]
    dsimp only
    omega

theorem crSafe_line (finished : decoder.chunkRemaining = 0) (reading : decoder.reachedEof = false)
    (open_line : lf ∉ data) : CrSafe decoder data := by
  induction data generalizing decoder with
  | nil => trivial
  | cons b data ih =>
    rw [mem_cons, not_or] at open_line
    refine ⟨fun _ _ is_lf => absurd is_lf.symm open_line.1, fun _ => ?_⟩
    rw [stepByte, if_neg (not_not.mpr finished), if_neg (by rw [reading]; decide),
      if_neg (Ne.symm open_line.1)]
    exact ih finished reading open_line.2

theorem crSafe_eof (finished : decoder.chunkRemaining = 0) (eof : decoder.reachedEof = true)
    (data : List UInt8) : CrSafe decoder data := by
  induction data generalizing decoder with
  | nil => trivial
  | cons b data ih =>
    refine ⟨fun _ reading => absurd (eof.symm.trans reading) (by decide), fun _ => ?_⟩
    rw [stepByte, if_neg (not_not.mpr finished), if_pos eof]
    exact ih finished eof

theorem crSafe_crlf (finished : decoder.chunkRemaining = 0) (reading : decoder.reachedEof = false)
    (fresh : decoder.lineBuf = []) (one_line : lf ∉ line)
    (plain : cr ∉ line) (scanned : scanLine decoder line = some next)
    (later : CrSafe { next with lineBuf := [] } rest) : CrSafe decoder (line ++ crlf ++ rest) := by
  have chomped : chomp (line ++ [cr]) = line := by
    rw [chomp, List.getLast?_concat, if_pos rfl, dropLast_concat]
  have open_line : lf ∉ line ++ [cr] := by
    rw [mem_append, not_or]
    exact ⟨one_line, by decide⟩
  have parts : line ++ crlf ++ rest = (line ++ [cr]) ++ lf :: rest := by simp [crlf]
  rw [parts]
  refine (crSafe_line finished reading open_line).join ?_
  rw [decode_line finished reading open_line, fresh, nil_append]
  have without : noCr line = line :=
    filter_eq_self.mpr fun b isIn => decide_eq_true fun same => plain (same ▸ isIn)
  refine ⟨fun _ _ _ => by rw [chomped, without], fun _ => ?_⟩
  rw [stepByte, if_neg (not_not.mpr finished), if_neg (by simp only [reading]; decide), if_pos rfl]
  simp only [chomped, scanLine_lineBuf, scanned, Option.map_some]
  exact later

end Safe

structure ChunkedBody.Plain (body : ChunkedBody) : Prop where
  chunks : ∀ chunk ∈ body.chunks, cr ∉ chunk.extension
  last : cr ∉ body.last.extension
  trailers : ∀ trailer ∈ body.trailers, cr ∉ trailer.bytes

theorem SizeLine.cr_not_mem (line : SizeLine) (plain : cr ∉ line.extension) : cr ∉ line.bytes := by
  rw [bytes, mem_append, not_or]
  exact ⟨fun member => absurd (line.hex cr member) (by decide), plain⟩

theorem Chunk.crSafe (chunk : Chunk) (plain : cr ∉ chunk.extension)
    (later : CrSafe new rest) : CrSafe new (chunk.encode ++ rest) := by
  have blank : scanLine (inChunks 0 true) [] = some (inChunks 0 false) := rfl
  have parts : chunk.encode ++ rest = chunk.bytes ++ crlf ++ (chunk.data ++ ([] ++ crlf ++ rest)) := by
    simp only [encode, append_assoc, nil_append]
  rw [parts]
  refine crSafe_crlf rfl rfl rfl chunk.lf_not_mem (chunk.cr_not_mem plain) chunk.scanned ?_
  refine (crSafe_chunk (Nat.le_of_eq chunk.announced.symm)).join ?_
  have reached := chunk.reached
  simp only [inChunks] at reached blank ⊢
  rw [reached]
  exact crSafe_crlf rfl rfl rfl not_mem_nil not_mem_nil blank later

theorem crSafe_trailers {trailers : List Trailer} (plain : ∀ trailer ∈ trailers, cr ∉ trailer.bytes)
    (extra : List UInt8) : CrSafe inTrailers (encodeTrailers trailers ++ extra) := by
  induction trailers with
  | nil =>
    have blank : scanLine inTrailers [] = some ⟨0, [], false, true, true, 0⟩ := rfl
    exact crSafe_crlf rfl rfl rfl not_mem_nil not_mem_nil blank (crSafe_eof rfl rfl extra)
  | cons trailer trailers ih =>
    have ignored : scanLine inTrailers trailer.bytes = some inTrailers :=
      (if_pos rfl).trans (if_pos trailer.some_bytes)
    have first : encodeTrailers (trailer :: trailers) ++ extra =
        trailer.bytes ++ crlf ++ (encodeTrailers trailers ++ extra) := by
      simp only [encodeTrailers, flatMap_cons, append_assoc]
    rw [first]
    exact crSafe_crlf rfl rfl rfl trailer.one_line (plain trailer (mem_cons_self ..)) ignored
      (ih fun other isIn => plain other (mem_cons_of_mem trailer isIn))

theorem ChunkedBody.crSafe (body : ChunkedBody) (plain : body.Plain) (extra : List UInt8) :
    CrSafe new (body.encode ++ extra) := by
  obtain ⟨chunks, last, trailers⟩ := body
  obtain ⟨plain_chunks, plain_last, plain_trailers⟩ := plain
  dsimp only at plain_chunks plain_last plain_trailers
  rw [encode]
  dsimp only
  induction chunks with
  | nil =>
    rw [flatMap_nil, nil_append, append_assoc]
    exact crSafe_crlf rfl rfl rfl last.lf_not_mem (last.cr_not_mem plain_last) last.scanned
      (crSafe_trailers plain_trailers extra)
  | cons chunk chunks ih =>
    rw [flatMap_cons, append_assoc, append_assoc]
    refine chunk.crSafe (plain_chunks chunk (mem_cons_self ..)) ?_
    rw [← append_assoc]
    exact ih fun other isIn => plain_chunks other (mem_cons_of_mem chunk isIn)

structure Settled (decoder : HttpChunkedDecoder) : Prop where
  last : decoder.reachedLastChunk = true → decoder.chunkRemaining = 0
  eof : decoder.reachedEof = true → decoder.reachedLastChunk = true

theorem Settled.scanLine (settled : Settled decoder)
    (scanned : scanLine decoder line = some next) : Settled next := by
  rw [Http.scanLine] at scanned
  split at scanned
  · rename_i last
    split at scanned
    · cases scanned
      exact settled
    · cases scanned
      exact ⟨settled.last, fun _ => last⟩
  rename_i not_last
  split at scanned
  · split at scanned
    · cases scanned
    · cases scanned
      exact ⟨settled.last, settled.eof⟩
  split at scanned
  · split at scanned
    · cases scanned
    · cases scanned
      exact ⟨fun last => of_decide_eq_true last, fun eof => absurd (settled.eof eof) not_last⟩
  · cases scanned

theorem Settled.step (settled : Settled decoder) (b : UInt8) : Settled (stepByte decoder b).1 := by
  rw [stepByte]
  split
  · rename_i some_left
    exact ⟨fun last => absurd (settled.last last) some_left, settled.eof⟩
  split
  · exact ⟨settled.last, settled.eof⟩
  split
  · cases scanned : Http.scanLine decoder (chomp decoder.lineBuf) with
    | none => exact settled
    | some next =>
      have next_settled := settled.scanLine scanned
      exact ⟨next_settled.last, next_settled.eof⟩
  · exact ⟨settled.last, settled.eof⟩

theorem Settled.decode (settled : Settled decoder) (data : List UInt8) :
    Settled (decode decoder data).decoder := by
  induction data generalizing decoder with
  | nil => exact settled
  | cons b data ih =>
    rw [Http.decode]
    have next := settled.step b
    generalize stepByte decoder b = result at next
    obtain ⟨next, failed, output⟩ := result
    cases failed with
    | true => exact next
    | false => exact ih next

section Behind

theorem scanLine_bytesAfterEof
    (scanned : scanLine decoder line = some next) : next.bytesAfterEof = decoder.bytesAfterEof := by
  rw [scanLine] at scanned
  split at scanned
  · split at scanned <;> cases scanned <;> rfl
  split at scanned
  · split at scanned
    · cases scanned
    · cases scanned
      rfl
  split at scanned
  · split at scanned
    · cases scanned
    · cases scanned
      rfl
  · cases scanned

theorem scan_bytesAfterEof (decoder : HttpChunkedDecoder) (buf : List UInt8) :
    (scanForChunkRemaining decoder buf).1.bytesAfterEof = decoder.bytesAfterEof := by
  rw [scanForChunkRemaining]
  split
  · dsimp only
    split
    · rename_i scanned
      dsimp only
      exact scanLine_bytesAfterEof scanned
    · rfl
  · rfl

theorem stepByte_bytesAfterEof (decoder : HttpChunkedDecoder) (b : UInt8) :
    decoder.bytesAfterEof ≤ (stepByte decoder b).1.bytesAfterEof := by
  rw [stepByte]
  split
  · exact le_rfl
  split
  · exact Nat.le_succ _
  split
  · cases scanned : scanLine decoder (chomp decoder.lineBuf) with
    | none => exact le_rfl
    | some next => exact Nat.le_of_eq (scanLine_bytesAfterEof scanned).symm
  · exact le_rfl

theorem decode_bytesAfterEof (decoder : HttpChunkedDecoder) (data : List UInt8) :
    decoder.bytesAfterEof ≤ (decode decoder data).decoder.bytesAfterEof := by
  induction data generalizing decoder with
  | nil => exact le_rfl
  | cons b data ih =>
    rw [decode]
    have first := stepByte_bytesAfterEof decoder b
    generalize stepByte decoder b = result at first
    obtain ⟨next, failed, output⟩ := result
    cases failed with
    | true => exact first
    | false => exact Nat.le_trans first (ih next)

variable {filtered : Filtered} {result : Nat}

theorem filterLoop_behind {passes : Nat} {filter : Filter}
    (inside : filter.result + filter.bufLen ≤ filter.memory.length)
    (ran : filterLoop passes filter = some filtered) (returned : filtered.result = some result) :
    ∃ used behind, filter.window = used ++ behind ∧
      filtered.decoder.bytesAfterEof = filter.decoder.bytesAfterEof + behind.length ∧
      (filtered.memory.drop result).take behind.length = behind ∧
      filtered.memory.length = filter.memory.length := by
  have nothing (filter : Filter) : ∃ used behind, filter.window = used ++ behind ∧
      filter.decoder.bytesAfterEof = filter.decoder.bytesAfterEof + behind.length ∧
      (filter.memory.drop filter.result).take behind.length = behind ∧
      filter.memory.length = filter.memory.length :=
    ⟨filter.window, [], (append_nil _).symm, rfl, rfl, rfl⟩
  induction passes generalizing filter with
  | zero =>
    rw [filterLoop] at ran
    split at ran
    · cases ran
      cases returned
      exact nothing filter
    · cases ran
  | succ passes ih =>
    rw [filterLoop] at ran
    split at ran
    · cases ran
      cases returned
      exact nothing filter
    split at ran
    · obtain ⟨used, behind, window, count, there, length⟩ := ih (filter.passChunk_inside inside) ran
      rw [filter.passChunk_window] at window
      refine ⟨filter.window.take (min filter.decoder.chunkRemaining filter.bufLen) ++ used, behind, ?_,
        count, there, length⟩
      rw [append_assoc, ← window, take_append_drop]
    split at ran
    · cases ran
      cases returned
      have size := filter.window_length inside
      exact ⟨[], filter.window, rfl, by rw [size], by rw [size]; rfl, rfl⟩
    · have kept := scan_bytesAfterEof filter.decoder filter.window
      generalize scanForChunkRemaining filter.decoder filter.window = scanned at ran kept
      obtain ⟨decoder, consumed⟩ := scanned
      cases consumed with
      | none =>
        cases ran
        cases returned
      | some bytesConsumed =>
        obtain ⟨used, behind, window, count, there, length⟩ :=
          ih (filter.moveBack_inside inside decoder bytesConsumed) ran
        rw [filter.moveBack_window inside] at window
        have same_length : (filter.moveBack decoder bytesConsumed).memory.length =
            filter.memory.length := by
          simp only [Filter.moveBack]
          split
          · simp only [length_append, length_take, length_drop]
            omega
          · rfl
        refine ⟨filter.window.take bytesConsumed ++ used, behind, ?_, ?_, there, length.trans same_length⟩
        · rw [append_assoc, ← window, take_append_drop]
        · rw [count]
          exact congrArg (· + behind.length) kept

theorem filterBuf_behind {buf : List UInt8} (ran : filterBuf decoder buf = some filtered)
    (returned : filtered.result = some result) : ∃ used behind, buf = used ++ behind ∧
      filtered.decoder.bytesAfterEof = decoder.bytesAfterEof + behind.length ∧
      (filtered.memory.drop result).take behind.length = behind ∧
      filtered.memory.length = buf.length := by
  have behind := filterLoop_behind ((Nat.zero_add _).le) ran returned
  have whole : (⟨decoder, buf, 0, buf.length⟩ : Filter).window = buf := take_length
  rw [whole] at behind
  exact behind

end Behind

end Glopen.Http

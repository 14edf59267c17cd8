import Glopen.Http.ChunkedLoop

/-! Bodies in the chunked encoding, and what `FilterBuf` makes of one that comes in one buffer. -/
namespace Glopen.Http

open HttpChunkedDecoder List

def crlf : List UInt8 := [cr, lf]

structure SizeLine where
  digits : List UInt8
  extension : List UInt8
  some_digits : digits ≠ []
  hex : ∀ c ∈ digits, (hexDigit c).isSome = true
  extends_size : extension = [] ∨ extension.head? = some 59
  one_line : lf ∉ extension

def SizeLine.size (line : SizeLine) : Nat := hexValue line.digits

def SizeLine.bytes (line : SizeLine) : List UInt8 := line.digits ++ line.extension

structure Chunk extends SizeLine where
  data : List UInt8
  some_data : data ≠ []
  short : data.length < 2 ^ 31
  announced : toSizeLine.size = data.length

def Chunk.encode (chunk : Chunk) : List UInt8 := chunk.bytes ++ crlf ++ chunk.data ++ crlf

structure LastChunk extends SizeLine where
  no_data : toSizeLine.size = 0

structure Trailer where
  bytes : List UInt8
  some_bytes : bytes ≠ []
  one_line : lf ∉ bytes

structure ChunkedBody where
  chunks : List Chunk
  last : LastChunk
  trailers : List Trailer

def ChunkedBody.data (body : ChunkedBody) : List UInt8 := body.chunks.flatMap Chunk.data

def encodeTrailers (trailers : List Trailer) : List UInt8 :=
  trailers.flatMap (fun trailer => trailer.bytes ++ crlf) ++ crlf

def ChunkedBody.encode (body : ChunkedBody) : List UInt8 :=
  body.chunks.flatMap Chunk.encode ++ (body.last.bytes ++ crlf ++ encodeTrailers body.trailers)

section SizeLine

variable (line : SizeLine)

theorem SizeLine.lf_not_mem : lf ∉ line.bytes := by
  rw [bytes, mem_append, not_or]
  exact ⟨fun member => absurd (line.hex lf member) (by decide), line.one_line⟩

theorem SizeLine.takeWhile : line.bytes.takeWhile (· ≠ 59) = line.digits := by
  have no_semicolon : ∀ c ∈ line.digits, decide (c ≠ 59) = true := fun c member =>
    decide_eq_true fun same => absurd (line.hex c member) (by rw [same]; decide)
  rw [bytes, takeWhile_append_of_pos no_semicolon]
  rcases line.extends_size with none_here | starts
  · rw [none_here, takeWhile_nil, append_nil]
  · cases ext : line.extension with
    | nil => rw [takeWhile_nil, append_nil]
    | cons c more =>
      rw [ext, List.head?_cons, Option.some.injEq] at starts
      rw [starts, takeWhile_cons, if_neg (by decide), append_nil]

theorem hexStringToInt_small {digits : List UInt8} (some_digits : digits ≠ [])
    (small : hexValue digits < 2 ^ 31) : hexStringToInt digits = some (hexValue digits : Int) := by
  have as_int : Int.bmod (hexValue digits) (2 ^ 32) = hexValue digits := by
    rw [Int.bmod_eq_of_le] <;> omega
  rw [hexStringToInt]
  simp only [as_int]
  refine if_neg ?_
  rintro (empty | large | ⟨-, large⟩)
  · exact some_digits empty
  · omega
  · exact large (Nat.mod_eq_of_lt (by omega))

theorem SizeLine.parse (small : line.size < 2 ^ 31) : parseChunkSize line.digits = some line.size := by
  have no_space : (line.digits.reverse.dropWhile (· = 32)).reverse = line.digits := by
    refine rdropWhile_eq_self_iff.mpr fun nonempty => ?_
    have last := line.hex _ (getLast_mem nonempty)
    intro space
    rw [of_decide_eq_true space] at last
    cases last
  rw [parseChunkSize, no_space, if_pos (List.all_eq_true.mpr line.hex),
    hexStringToInt_small line.some_digits small]
  simp [size]

end SizeLine

section Decode

variable {decoder : HttpChunkedDecoder} (finished : decoder.chunkRemaining = 0)
  (reading : decoder.reachedEof = false) (fresh : decoder.lineBuf = [])
include finished reading fresh

theorem decode_crlf {line : List UInt8} (one_line : lf ∉ line) {next : HttpChunkedDecoder}
    (scanned : scanLine decoder line = some next) (rest : List UInt8) :
    decode decoder (line ++ crlf ++ rest) = decode { next with lineBuf := [] } rest := by
  have chomped : chomp (line ++ [cr]) = line := by
    rw [chomp, List.getLast?_concat, if_pos rfl, dropLast_concat]
  have open_line : lf ∉ line ++ [cr] := by
    rw [mem_append, not_or]
    exact ⟨one_line, by decide⟩
  have reads := (decode_full_line finished reading open_line rest).1 next
  rw [fresh, nil_append, chomped] at reads
  rw [← reads scanned]
  simp [crlf]

end Decode

def inChunks (chunkRemaining : Nat) (chunkTerminatorRemaining : Bool) : HttpChunkedDecoder :=
  ⟨chunkRemaining, [], chunkTerminatorRemaining, false, false, 0⟩

def inTrailers : HttpChunkedDecoder := ⟨0, [], false, true, false, 0⟩

theorem Chunk.scanned (chunk : Chunk) : scanLine new chunk.bytes = some (inChunks chunk.size false) := by
  have size : chunk.size ≠ 0 := by
    rw [chunk.announced]
    exact fun none_left => chunk.some_data (length_eq_zero_iff.mp none_left)
  rw [scanLine_size rfl rfl, chunk.takeWhile, chunk.parse (by rw [chunk.announced]; exact chunk.short)]
  simp [inChunks, new, size]

theorem Chunk.reached (chunk : Chunk) :
    decode (inChunks chunk.size false) chunk.data = ⟨inChunks 0 true, false, chunk.data⟩ := by
  have passed := @decode_chunk (inChunks chunk.size false) chunk.data (Nat.le_of_eq chunk.announced.symm)
  have ended : (inChunks chunk.size false).chunkRemaining - chunk.data.length = 0 := by
    rw [← chunk.announced]
    exact Nat.sub_self _
  rw [passed, ended]
  simp [chunk.some_data, inChunks]

theorem Chunk.decode_encode (chunk : Chunk) (rest : List UInt8) : decode new (chunk.encode ++ rest) =
      { decode new rest with output := chunk.data ++ (decode new rest).output } := by
  have opened := @decode_crlf new rfl rfl rfl _ chunk.lf_not_mem _ chunk.scanned (chunk.data ++ crlf ++ rest)
  have blank : scanLine (inChunks 0 true) [] = some (inChunks 0 false) := rfl
  have terminator : decode (inChunks 0 true) (crlf ++ rest) = decode new rest :=
    decode_crlf rfl rfl rfl not_mem_nil blank rest
  rw [Chunk.encode, append_assoc, append_assoc, ← append_assoc chunk.data, opened, append_assoc]
  have whole := decode_append (inChunks chunk.size false) chunk.data (crlf ++ rest)
  rw [chunk.reached] at whole
  simp only [Bool.false_eq_true, if_false, terminator] at whole
  exact whole

theorem decode_trailers (trailers : List Trailer) (extra : List UInt8) :
    decode inTrailers (encodeTrailers trailers ++ extra) =
      ⟨⟨0, [], false, true, true, extra.length⟩, false, []⟩ := by
  induction trailers with
  | nil =>
    have blank : scanLine inTrailers [] = some ⟨0, [], false, true, true, 0⟩ := rfl
    have ends : decode inTrailers (crlf ++ extra) = decode ⟨0, [], false, true, true, 0⟩ extra :=
      decode_crlf rfl rfl rfl not_mem_nil blank extra
    rw [encodeTrailers, flatMap_nil, nil_append, ends, decode_eof rfl rfl]
    simp only [Nat.zero_add]
  | cons trailer trailers ih =>
    have ignored : scanLine inTrailers trailer.bytes = some inTrailers := by
      exact (if_pos rfl).trans (if_pos trailer.some_bytes)
    have first : encodeTrailers (trailer :: trailers) ++ extra =
        trailer.bytes ++ crlf ++ (encodeTrailers trailers ++ extra) := by
      simp only [encodeTrailers, flatMap_cons, append_assoc]
    rw [first, decode_crlf rfl rfl rfl trailer.one_line ignored]
    exact ih

theorem LastChunk.scanned (last : LastChunk) : scanLine new last.bytes = some inTrailers := by
  rw [scanLine_size rfl rfl, last.takeWhile, last.parse (by rw [last.no_data]; decide), last.no_data]
  rfl

theorem LastChunk.decode_bytes (last : LastChunk) (rest : List UInt8) :
    decode new (last.bytes ++ crlf ++ rest) = decode inTrailers rest :=
  decode_crlf rfl rfl rfl last.lf_not_mem last.scanned rest

theorem ChunkedBody.decode_encode (body : ChunkedBody) (extra : List UInt8) :
    decode new (body.encode ++ extra) = ⟨⟨0, [], false, true, true, extra.length⟩, false, body.data⟩ := by
  obtain ⟨chunks, last, trailers⟩ := body
  rw [encode, data]
  induction chunks with
  | nil =>
    rw [flatMap_nil, nil_append, append_assoc, last.decode_bytes, decode_trailers]
    rfl
  | cons chunk chunks ih =>
    simp only at ih ⊢
    rw [flatMap_cons, flatMap_cons, append_assoc, append_assoc, chunk.decode_encode, ← append_assoc, ih]

/-- One call decodes the whole body in its place and counts what follows it. -/
theorem chunked_round_trip (body : ChunkedBody) (extra : List UInt8) :
    ∃ filtered, filterBuf new (body.encode ++ extra) = some filtered ∧ filtered.result = some body.data.length ∧
      filtered.memory.take body.data.length = body.data ∧
      filtered.decoder.reachedEof = true ∧ filtered.decoder.bytesAfterEof = extra.length := by
  obtain ⟨filtered, ran, decoded⟩ :=
    @filterBuf_decodes new new (.of_empty rfl) (body.encode ++ extra) (Or.inl ⟨rfl, rfl⟩)
  rw [body.decode_encode extra] at decoded
  have result := decoded.result rfl
  have output := decoded.output rfl
  rw [List.length_nil, Nat.zero_add] at result output
  exact ⟨filtered, ran, result, output, decoded.eof, decoded.bytes⟩

end Glopen.Http

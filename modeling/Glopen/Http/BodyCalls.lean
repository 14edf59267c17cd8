import Glopen.Http.BodyReads
import Glopen.Http.ChunkedEnd

/-! A call of `ReadResponseBody`: it returns the next bytes of the body, and the last call puts
back what was read behind it. -/
namespace Glopen.Http

open Bytes HttpChunkedDecoder HttpStreamParser List

structure Within (decoder ideal : HttpChunkedDecoder) (rest enc data extra : List UInt8) : Prop where
  parts : rest = enc ++ extra
  similar : Similar decoder ideal
  safe : CrSafe ideal rest
  settled : Settled ideal
  reading : ideal.reachedEof = false
  fine : (decode ideal enc).failed = false
  ends : (decode ideal enc).decoder.reachedEof = true
  nothing_behind : (decode ideal enc).decoder.bytesAfterEof = 0
  output : (decode ideal enc).output = data

section Within

variable {decoder ideal : HttpChunkedDecoder} {rest enc data extra got rest' : List UInt8}

theorem Within.clean (within : Within decoder ideal rest enc data extra) : ideal.bytesAfterEof = 0 :=
  Nat.le_zero.mp (within.nothing_behind ▸ decode_bytesAfterEof ideal enc)

theorem Within.front (within : Within decoder ideal rest (got ++ enc) data extra) (more : enc ≠ []) :
    (decode ideal got).failed = false ∧ (decode ideal got).decoder.reachedEof = false := by
  obtain ⟨parts, similar, safe, settled, reading, fine, ends, nothing, output⟩ := within
  have whole := decode_append ideal got enc
  rw [whole] at fine nothing
  cases failed : (decode ideal got).failed with
  | true =>
    rw [failed, if_pos rfl, failed] at fine
    cases fine
  | false =>
    refine ⟨rfl, ?_⟩
    cases eof : (decode ideal got).decoder.reachedEof with
    | false => rfl
    | true =>
      have after := settled.decode got
      rw [failed, if_neg Bool.false_ne_true, decode_eof (after.last (after.eof eof)) eof] at nothing
      have some_more := length_pos_iff.mpr more
      dsimp only at nothing
      omega

theorem Within.next (within : Within decoder ideal rest (got ++ enc) data extra) (more : enc ≠ [])
    {next : HttpChunkedDecoder} (similar : Similar next (decode ideal got).decoder) :
    ∃ data', data = (decode ideal got).output ++ data' ∧
      Within next (decode ideal got).decoder (enc ++ extra) enc data' extra := by
  obtain ⟨fine_front, reading_on⟩ := within.front more
  obtain ⟨parts, _, safe, settled, reading, fine, ends, nothing, output⟩ := within
  have whole := decode_append ideal got enc
  rw [fine_front, if_neg Bool.false_ne_true] at whole
  rw [whole] at fine ends nothing output
  rw [parts, append_assoc] at safe
  exact ⟨_, output.symm, rfl, similar, safe.append fine_front, settled.decode got, reading_on, fine,
    ends, nothing, rfl⟩

theorem Within.last (within : Within decoder ideal rest enc data extra) (beyond : List UInt8) :
    (decode ideal (enc ++ beyond)).failed = false ∧ (decode ideal (enc ++ beyond)).decoder.reachedEof = true ∧
      (decode ideal (enc ++ beyond)).decoder.bytesAfterEof = beyond.length ∧
      (decode ideal (enc ++ beyond)).output = data := by
  obtain ⟨parts, similar, safe, settled, reading, fine, ends, nothing, output⟩ := within
  have after := settled.decode enc
  rw [decode_append, fine, if_neg Bool.false_ne_true, decode_eof (after.last (after.eof ends)) ends]
  refine ⟨rfl, ends, ?_, ?_⟩
  · dsimp only
    rw [nothing, Nat.zero_add]
  · rw [append_nil, output]

theorem ChunkedBody.within (body : ChunkedBody) (plain : body.Plain) (extra : List UInt8) :
    Within new new (body.encode ++ extra) body.encode body.data extra := by
  have decoded := body.decode_encode []
  rw [append_nil] at decoded
  refine ⟨rfl, .of_empty rfl, body.crSafe plain extra, ⟨fun _ => rfl, fun eof => eof⟩, rfl, ?_, ?_, ?_, ?_⟩
  · rw [decoded]
  · rw [decoded]
  · rw [decoded]
    rfl
  · rw [decoded]

end Within

namespace HttpStreamParser

variable {env : Exchange} {p : HttpStreamParser} {rest data extra : List UInt8}

inductive Framed (p : HttpStreamParser) (rest data extra : List UInt8) : Prop
  | counted (parts : rest = data ++ extra) (some_data : data ≠ []) (plain : p.chunkedDecoder = none)
    (read : 0 ≤ p.responseBodyRead) (length : p.responseBodyRead + data.length = p.responseBodyLength)
  | chunked {decoder ideal : HttpChunkedDecoder} {enc : List UInt8}
    (same : p.chunkedDecoder = some decoder) (within : Within decoder ideal rest enc data extra)

structure Pending (p : HttpStreamParser) (data extra : List UInt8) : Prop where
  state : p.ioState = .bodyPending
  framed : ∃ rest, InBody p rest ∧ Framed p rest data extra

structure Returned (q : HttpStreamParser) (out data extra : List UInt8) : Prop where
  there : q.userReadBuf.take out.length = out
  goes_on : (out ≠ [] ∧ ∃ data', data = out ++ data' ∧ Pending q data' extra) ∨
    (out = data ∧ Finished q extra)

theorem Framed.open_body (framed : Framed p rest data extra) : p.isResponseBodyComplete = false := by
  cases framed with
  | counted parts some_data plain read length =>
    have positive := length_pos_iff.mpr some_data
    rw [isResponseBodyComplete, plain]
    have short : ¬ p.responseBodyLength ≤ p.responseBodyRead := by omega
    simp [short]
  | chunked same within =>
    rw [isResponseBodyComplete, same]
    exact within.similar.eof.trans within.reading

theorem Framed.some_left (framed : Framed p rest data extra) : rest ≠ [] := by
  intro empty
  cases framed with
  | counted parts some_data _ _ _ =>
    rw [empty] at parts
    exact some_data (append_eq_nil_iff.mp parts.symm).1
  | @chunked decoder ideal enc _ within =>
    have no_body : enc = [] := (append_eq_nil_iff.mp (within.parts.symm.trans empty)).1
    have ends := within.ends
    rw [no_body] at ends
    exact absurd (within.reading.symm.trans ends) (by decide)

theorem InBody.same {q : HttpStreamParser} (body : InBody p rest) (readBuf : q.readBuf = p.readBuf)
    (offset : q.readBufUnusedOffset = p.readBufUnusedOffset) (socket : q.socket = p.socket)
    (checked : q.checkFailed = p.checkFailed) : InBody q rest := by
  have same_available : q.available = p.available := by rw [available, available, readBuf, offset]
  have same_unused : q.unused = p.unused := by rw [unused, unused, same_available, readBuf, offset]
  obtain ⟨inside, received, fits, few, not_failed⟩ := body
  refine ⟨?_, ?_, ?_, ?_, checked.trans not_failed⟩
  · rw [readBuf, offset]
    exact inside
  · rw [same_unused, socket]
    exact received
  · rw [readBuf]
    exact fits
  · rw [same_available]
    exact few

theorem front_cases {got rest' : List UInt8} (parts : data ++ extra = got ++ rest') :
    (∃ data', data' ≠ [] ∧ data = got ++ data' ∧ rest' = data' ++ extra) ∨
      ∃ beyond, got = data ++ beyond ∧ extra = beyond ++ rest' := by
  rcases append_eq_append_iff.mp parts with ⟨beyond, got_parts, extra_parts⟩ | ⟨data', data_parts, rest_parts⟩
  · exact .inr ⟨beyond, got_parts, extra_parts⟩
  · by_cases none_left : data' = []
    · rw [none_left] at data_parts rest_parts
      refine .inr ⟨[], ?_, ?_⟩
      · rw [data_parts, append_nil, append_nil]
      · rw [rest_parts]
        rfl
    · exact .inl ⟨data', none_left, data_parts, rest_parts⟩

variable {q : HttpStreamParser} {got rest' : List UInt8}

theorem bodyRead_positive {result : Int} (positive : 0 < result) : q.bodyRead env result =
    let r : HttpStreamParser := { q with responseBodyRead := q.responseBodyRead + result }
    if result ≤ 0 ∨ r.isResponseBodyComplete then r.bodyEnds env result
    else ({ r with ioState := .bodyPending }, result) := by
  rw [bodyRead, if_pos positive]

theorem Given.counted (given : Given p q got rest') (some_bytes : 0 < got.length)
    (parts : data ++ extra = got ++ rest') (plain : p.chunkedDecoder = none) (read : 0 ≤ p.responseBodyRead)
    (length : p.responseBodyRead + data.length = p.responseBodyLength) :
    ∃ out r, q.doReadBodyComplete env got.length = (r, (out.length : Int)) ∧
      r.ioState.returns = true ∧ Returned r out data extra := by
  obtain ⟨left, there, size, short, back, saved, same, fewer⟩ := given
  have q_plain : q.chunkedDecoder = none := same.decoder.trans plain
  let r : HttpStreamParser := { q with responseBodyRead := q.responseBodyRead + got.length }
  have entered : q.doReadBodyComplete env got.length = q.bodyRead env got.length := by
    unfold doReadBodyComplete
    dsimp only
    rw [if_neg (fun closed => by omega), q_plain]
  have r_read : r.responseBodyRead = p.responseBodyRead + got.length :=
    congrArg (· + (got.length : Int)) same.read
  have r_length : r.responseBodyLength = p.responseBodyLength := same.length
  have r_plain : r.chunkedDecoder = none := q_plain
  have complete : r.isResponseBodyComplete = decide (data.length ≤ got.length) := by
    rw [isResponseBodyComplete, r_plain, r_read, r_length, ← length]
    dsimp only
    have known : p.responseBodyRead + (data.length : Int) ≠ -1 := by omega
    rw [decide_eq_true known, Bool.true_and, decide_eq_decide]
    omega
  have positive : (0 : Int) < got.length := by omega
  have ran : q.bodyRead env got.length = if (got.length : Int) ≤ 0 ∨ r.isResponseBodyComplete then
      r.bodyEnds env got.length else ({ r with ioState := .bodyPending }, got.length) :=
    bodyRead_positive positive
  have after : r.bodyEnds env got.length =
      if 0 ≤ r.responseBodyLength ∧ 0 < r.responseBodyRead - r.responseBodyLength then
        (r.saveOverflow env (r.responseBodyRead - r.responseBodyLength).toNat
          (got.length - (r.responseBodyRead - r.responseBodyLength)),
        got.length - (r.responseBodyRead - r.responseBodyLength))
      else (r.saveOverflow env 0 got.length, got.length) := by
    rw [bodyEnds, r_plain]
    dsimp only
    rw [if_pos positive]
  rw [entered, ran, complete, after]
  rcases front_cases parts with
    ⟨data', more, data_parts, rest_parts⟩ | ⟨beyond, got_parts, extra_parts⟩
  · have longer : ¬ data.length ≤ got.length := by
      have positive := length_pos_iff.mpr more
      rw [data_parts, length_append]
      omega
    have open_body : ¬ ((got.length : Int) ≤ 0 ∨ decide (data.length ≤ got.length) = true) := by
      rw [decide_eq_true_eq]
      omega
    rw [if_neg open_body]
    refine ⟨got, _, rfl, rfl, there, .inl ⟨length_pos_iff.mp some_bytes, data', data_parts, rfl,
      rest', left.same rfl rfl rfl rfl, .counted rest_parts more q_plain ?_ ?_⟩⟩
    · dsimp only
      rw [r_read]
      omega
    · have split_length := congrArg List.length data_parts
      rw [length_append] at split_length
      dsimp only
      rw [r_read, r_length]
      omega
  · have split_length := congrArg List.length got_parts
    rw [length_append] at split_length
    have done : (got.length : Int) ≤ 0 ∨ decide (data.length ≤ got.length) = true :=
      .inr (decide_eq_true (by omega))
    have surplus : r.responseBodyRead - r.responseBodyLength = beyond.length := by
      rw [r_read, r_length]
      omega
    have user_data : r.userReadBuf.take data.length = data := by
      have front := congrArg (List.take data.length) there
      rw [take_take, Nat.min_eq_left (by omega), got_parts, take_left' rfl] at front
      exact front
    have user_over : (r.userReadBuf.drop data.length).take beyond.length = beyond := by
      have behind := congrArg (List.drop data.length) there
      rw [drop_take, got_parts, drop_left' rfl, length_append, Nat.add_sub_cancel_left] at behind
      exact behind
    have body : InBody r rest' := left.same rfl rfl rfl rfl
    have room : r.available = 0 ∨ beyond.length ≤ r.readBufUnusedOffset := by
      rcases back with empty | front
      · exact .inl empty
      · exact .inr (by simp only [r]; omega)
    have limit : beyond.length + r.available ≤ kMaxBufSize := by
      have same_available : r.available = q.available := rfl
      omega
    rw [if_pos done, surplus]
    have ended := @InBody.saved env r rest' body beyond data.length
      (by rw [Int.toNat_natCast]; exact user_over) room limit
    have counted : (got.length : Int) - beyond.length = data.length := by omega
    refine ⟨data, r.saveOverflow env beyond.length data.length, ?_, by rw [ended.state]; rfl, user_data,
      .inr ⟨rfl, by rw [extra_parts]; exact ended⟩⟩
    by_cases none_over : beyond = []
    · have no_surplus : ¬ (0 ≤ r.responseBodyLength ∧ (0 : Int) < beyond.length) := by
        rw [none_over, length_nil]
        omega
      have all : got.length = data.length := by
        rw [none_over, length_nil] at split_length
        omega
      rw [if_neg no_surplus, none_over, all]
      rfl
    · have positive := length_pos_iff.mpr none_over
      have known : 0 ≤ r.responseBodyLength := by
        rw [r_length]
        omega
      rw [if_pos ⟨known, by omega⟩, counted, Int.toNat_natCast]

theorem complete_enters (positive : 0 < got.length) {decoder : HttpChunkedDecoder}
    (chunked : q.chunkedDecoder = some decoder) (there : q.userReadBuf.take got.length = got)
    {filtered : Filtered} (ran : filterBuf decoder got = some filtered) {size : Nat}
    (returned : filtered.result = some size) : q.doReadBodyComplete env got.length =
      let r := { q with
        userReadBuf := filtered.memory ++ q.userReadBuf.drop got.length
        chunkedDecoder := some filtered.decoder }
      if size = 0 ∧ !filtered.decoder.reachedEof then ({ r with ioState := .readBody }, 0)
      else r.bodyRead env size := by
  unfold doReadBodyComplete
  dsimp only
  rw [if_neg (fun closed => by omega), chunked]
  dsimp only
  rw [if_neg (by omega), Int.toNat_natCast, there, ran]
  dsimp only
  rw [returned]

theorem bodyRead_chunked {decoder : HttpChunkedDecoder} (chunked : q.chunkedDecoder = some decoder)
    (eof : decoder.reachedEof = true) (size : Nat) : ∃ count, q.bodyRead env size =
      ({ q with responseBodyRead := count }.saveOverflow env decoder.bytesAfterEof size, (size : Int)) := by
  refine ⟨if (0 : Int) < size then q.responseBodyRead + size else q.responseBodyRead, ?_⟩
  have step (r : HttpStreamParser) (same : r.chunkedDecoder = some decoder) :
      (if (size : Int) ≤ 0 ∨ r.isResponseBodyComplete then r.bodyEnds env size
        else ({ r with ioState := .bodyPending }, (size : Int))) =
      (r.saveOverflow env decoder.bytesAfterEof size, (size : Int)) := by
    have complete : r.isResponseBodyComplete = true := by rw [isResponseBodyComplete, same]; exact eof
    rw [if_pos (.inr complete), bodyEnds, same]
  rw [bodyRead]
  by_cases positive : (0 : Int) < size
  · rw [if_pos positive, if_pos positive]
    exact step _ chunked
  · rw [if_neg positive, if_neg positive]
    exact step q chunked

theorem Given.chunked (given : Given p q got rest') (some_bytes : 0 < got.length)
    {decoder ideal : HttpChunkedDecoder} {enc : List UInt8} (parts : rest = got ++ rest')
    (chunked : p.chunkedDecoder = some decoder) (within : Within decoder ideal rest enc data extra) :
    (∃ r, q.doReadBodyComplete env got.length = (r, 0) ∧ r.ioState = .readBody ∧ InBody r rest' ∧
      Framed r rest' data extra ∧ r.userReadBuf.length = p.userReadBuf.length) ∨
    ∃ out r, q.doReadBodyComplete env got.length = (r, (out.length : Int)) ∧
      r.ioState.returns = true ∧ Returned r out data extra := by
  obtain ⟨left, there, size, short, back, saved, same, fewer⟩ := given
  have q_chunked : q.chunkedDecoder = some decoder := same.decoder.trans chunked
  have safe := within.safe
  rw [parts] at safe
  obtain ⟨filtered, ran, decoded⟩ := filterBuf_decodes within.similar (.inr safe.left)
  have both := within.parts
  rw [parts] at both
  rcases front_cases both.symm with
    ⟨enc', more, enc_parts, rest_parts⟩ | ⟨beyond, got_parts, extra_parts⟩
  · rw [enc_parts] at within
    obtain ⟨fine, reading⟩ := within.front more
    have returned := decoded.result fine
    rw [length_nil, Nat.zero_add] at returned
    obtain ⟨data', data_parts, next⟩ := within.next more (decoded.similar fine)
    obtain ⟨_, _, _, _, _, length⟩ := filterBuf_behind ran returned
    rw [← rest_parts] at next
    have still : filtered.decoder.reachedEof = false := decoded.eof.trans reading
    rw [complete_enters some_bytes q_chunked there ran returned]
    by_cases empty : (decode ideal got).output = []
    · rw [empty, nil_append] at data_parts
      refine .inl ⟨_, if_pos ⟨by rw [empty]; rfl, by rw [still]; rfl⟩, rfl, left.same rfl rfl rfl rfl,
        .chunked rfl (data_parts ▸ next), ?_⟩
      simp only [length_append, length_drop, length]
      omega
    · have positive := length_pos_iff.mpr empty
      refine .inr ⟨(decode ideal got).output, _, (if_neg (fun none_out => by omega)).trans
        ((bodyRead_positive (by omega)).trans (if_neg ?_)), rfl, ?_, .inl ⟨empty, data', data_parts,
          rfl, rest', left.same rfl rfl rfl rfl, .chunked rfl next⟩⟩
      · rw [isResponseBodyComplete]
        dsimp only
        rw [still]
        rintro (nothing | eof)
        · omega
        · cases eof
      · have output := decoded.output fine
        rw [length_nil, Nat.zero_add, nil_append] at output
        dsimp only
        rw [take_append_of_le_length, output]
        have taken := congrArg List.length output
        rw [length_take] at taken
        omega
  · obtain ⟨fine, eof, bytes, output⟩ := within.last beyond
    rw [← got_parts] at fine eof bytes output
    have returned := decoded.result fine
    rw [length_nil, Nat.zero_add, output] at returned
    obtain ⟨used, behind, window, count, behind_there, length⟩ := filterBuf_behind ran returned
    have memory := decoded.output fine
    rw [length_nil, Nat.zero_add, nil_append, output] at memory
    have ended : filtered.decoder.reachedEof = true := decoded.eof.trans eof
    have after : filtered.decoder.bytesAfterEof = beyond.length := decoded.bytes.trans bytes
    have behind_over : behind = beyond := by
      have none_before : decoder.bytesAfterEof = 0 := within.similar.bytes.trans within.clean
      rw [after, none_before, Nat.zero_add] at count
      exact (append_inj_right' (window.symm.trans got_parts) count.symm)
    rw [behind_over] at behind_there
    obtain ⟨count, read⟩ := @bodyRead_chunked env { q with
      userReadBuf := filtered.memory ++ q.userReadBuf.drop got.length
      chunkedDecoder := some filtered.decoder } filtered.decoder rfl ended data.length
    have taken := congrArg List.length memory
    rw [length_take] at taken
    have body : InBody { q with
        userReadBuf := filtered.memory ++ q.userReadBuf.drop got.length
        chunkedDecoder := some filtered.decoder
        responseBodyRead := count } rest' := left.same rfl rfl rfl rfl
    have over_short : beyond.length ≤ got.length := by
      rw [got_parts, length_append]
      omega
    have user_over : ((filtered.memory ++ q.userReadBuf.drop got.length).drop
        (data.length : Int).toNat).take beyond.length = beyond := by
      have some_over := congrArg List.length behind_there
      rw [length_take, length_drop] at some_over
      rw [Int.toNat_natCast, drop_append_of_le_length (by omega),
        take_append_of_le_length (by rw [length_drop]; omega), behind_there]
    have finished := @InBody.saved env _ rest' body beyond data.length user_over
      (back.imp id fun front => Nat.le_trans over_short front)
      (Nat.le_trans (Nat.add_le_add_right over_short _) saved)
    have entered := (@complete_enters env q got some_bytes _ q_chunked there _ ran _ returned).trans
      ((if_neg (by rw [ended]; simp)).trans read)
    rw [after] at entered
    refine .inr ⟨data, _, entered, by rw [finished.state]; rfl, ?_, .inr ⟨rfl, by
      rw [extra_parts]
      exact finished⟩⟩
    refine Eq.trans ?_ memory
    exact take_append_of_le_length (by omega)

end HttpStreamParser

end Glopen.Http

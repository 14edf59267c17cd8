import Glopen.Http.HeaderReads

/-! The headers objects over whole runs of the parser. -/
namespace Glopen.Http

open Bytes HttpStreamParser List

/-- The texts of the first headers objects, from the received bytes alone: each has the block
behind the one before it, or what there is of that block. -/
def headerTexts (responseCode : RawText → Int) : Nat → RawText → List RawText
  | 0, _ => []
  | n + 1, received =>
    match headerEnd received with
    | none => [headerText received received.length]
    | some blockEnd =>
      let raw := headerText received blockEnd
      raw :: if (responseCode raw).tdiv 100 = 1 then headerTexts responseCode n (received.drop blockEnd)
        else []

/-- A close is handled that came within a header block, while the buffer still has the headers
before it. -/
def CutBehindHeaders (p : HttpStreamParser) (result : Int) : Prop :=
  p.ioState = .readHeadersComplete ∧ (result = 0 ∨ result = errConnectionClosed) ∧
    p.responseHeaderStartOffset.isSome ∧ p.readBufUnusedOffset ≠ 0

instance (p : HttpStreamParser) (result : Int) : Decidable (CutBehindHeaders p result) :=
  inferInstanceAs (Decidable (_ ∧ _))

/-- The states of a run, between the turns of the loop: the caller reads headers and bodies when
it may. -/
inductive ParserRun (env : Exchange) (socket : Socket) (Allowed : HttpStreamParser → Int → Prop) :
    HttpStreamParser → Int → Prop
  | new : ParserRun env socket Allowed (.new env socket) 0
  | headers {p : HttpStreamParser} {result : Int} : ParserRun env socket Allowed p result →
    p.ioState = .requestSent → ParserRun env socket Allowed p.beginHeaders.1 p.beginHeaders.2
  | body {p : HttpStreamParser} {result : Int} (buf : List UInt8) :
    ParserRun env socket Allowed p result →
    p.ioState = .bodyPending → ParserRun env socket Allowed (p.beginBody buf) 0
  | turn {p : HttpStreamParser} {result : Int} : ParserRun env socket Allowed p result →
    p.ioState.returns = false → Allowed p result →
    ParserRun env socket Allowed (p.pass env result).1 (p.pass env result).2

def Continues (env : Exchange) (received : RawText) (headers : List RawText) (rest : RawText) : Prop :=
  ∀ n, headerTexts env.responseCode (headers.length + n) received =
    headers ++ headerTexts env.responseCode n rest

inductive Assembling (env : Exchange) (received : RawText) (p : HttpStreamParser) (result : Int) : Prop
  | sent {rest : RawText} (waiting : AwaitsHeaders p rest) (next : Continues env received p.headers rest)
  | reading {rest : RawText} (state : p.ioState = .readHeaders) (reading : Reading p rest [])
    (next : Continues env received p.headers rest)
  | read {rest data : RawText} (state : p.ioState = .readHeadersComplete)
    (reading : Reading p rest data) (next : Continues env received p.headers rest)
    (outcome : (0 < data.length ∧ result = data.length) ∨ (data = [] ∧ p.socket.unread = [] ∧ result ≤ 0))
  | behind (state : p.ioState ≠ .requestSent ∧ p.ioState ≠ .readHeaders ∧ p.ioState ≠ .readHeadersComplete)
    (built : p.headers = headerTexts env.responseCode p.headers.length received)

variable {env : Exchange} {received rest : RawText} {blockEnd : Nat} {p : HttpStreamParser} {result : Int}
  {socket : Socket}

section Continues

variable {headers : List RawText}

section

variable (next : Continues env received headers rest)
include next

theorem Continues.built : headers = headerTexts env.responseCode headers.length received := by
  have none_more := next 0
  rw [headerTexts, append_nil, Nat.add_zero] at none_more
  exact none_more.symm

theorem Continues.more {raw : RawText} (first : headerTexts env.responseCode 1 rest = [raw]) :
    headers ++ [raw] = headerTexts env.responseCode (headers ++ [raw]).length received := by
  have one_more := next 1
  rw [first] at one_more
  rw [length_append]
  exact one_more.symm

theorem Continues.interim (ends : headerEnd rest = some blockEnd)
    (code : (env.responseCode (headerText rest blockEnd)).tdiv 100 = 1) :
    Continues env received (headers ++ [headerText rest blockEnd]) (rest.drop blockEnd) := by
  intro n
  have more := next (n + 1)
  rw [headerTexts, ends] at more
  dsimp only at more
  rw [if_pos code] at more
  have count : (headers ++ [headerText rest blockEnd]).length + n = headers.length + (n + 1) := by
    simp only [length_append, length_cons, length_nil]
    omega
  rw [count, more, append_assoc]
  rfl

end

theorem texts_one (ends : headerEnd rest = some blockEnd) :
    headerTexts env.responseCode 1 rest = [headerText rest blockEnd] := by
  rw [headerTexts, ends]
  dsimp only
  split
  · rfl
  · rfl

end Continues

namespace HttpStreamParser

theorem calculateResponseBodySize_headers (raw : RawText) :
    (p.calculateResponseBodySize env raw).headers = p.headers ∧
      (p.calculateResponseBodySize env raw).ioState = p.ioState := by
  unfold calculateResponseBodySize
  dsimp only
  split
  · split
    · split
      · exact ⟨rfl, rfl⟩
      · exact ⟨rfl, rfl⟩
    · exact ⟨rfl, rfl⟩
  · split
    · split
      · exact ⟨rfl, rfl⟩
      · exact ⟨rfl, rfl⟩
    · exact ⟨rfl, rfl⟩

theorem headersEnd_interim {blockEnd : Nat} (code : (env.responseCode (p.headers.getLastD [])).tdiv 100 = 1) :
    (p.headersEnd env blockEnd result).1 = { p with
      ioState := .requestSent
      readBufUnusedOffset := blockEnd
      responseHeaderStartOffset := none } := by
  rw [headersEnd]
  exact congrArg Prod.fst (if_pos code)

theorem headersEnd_final {blockEnd : Nat} (code : (env.responseCode (p.headers.getLastD [])).tdiv 100 ≠ 1) :
    (p.headersEnd env blockEnd result).1.headers = p.headers ∧
      ((p.headersEnd env blockEnd result).1.ioState = .bodyPending ∨
        (p.headersEnd env blockEnd result).1.ioState = .done) := by
  have sized := @calculateResponseBodySize_headers env
    { p with ioState := .bodyPending, readBufUnusedOffset := blockEnd } (p.headers.getLastD [])
  unfold headersEnd
  dsimp only
  rw [if_neg code]
  split
  · exact ⟨sized.1, .inr rfl⟩
  · exact ⟨sized.1, .inl sized.2⟩

theorem bodyRead_headers : (p.bodyRead env result).1.headers = p.headers ∧
    (p.bodyRead env result).1.ioState ≠ .requestSent ∧ (p.bodyRead env result).1.ioState ≠ .readHeaders ∧
    (p.bodyRead env result).1.ioState ≠ .readHeadersComplete := by
  unfold bodyRead bodyEnds saveOverflow
  dsimp only
  split <;> split <;> (try split) <;> (try split) <;> simp

theorem body_turn (state : p.ioState = .readBody ∨ p.ioState = .readBodyComplete) :
    (p.pass env result).1.headers = p.headers ∧
      (p.pass env result).1.ioState ≠ .requestSent ∧ (p.pass env result).1.ioState ≠ .readHeaders ∧
      (p.pass env result).1.ioState ≠ .readHeadersComplete := by
  rcases state with state | state
  · rw [HttpStreamParser.pass, state]
    dsimp only
    unfold doReadBody emptied giveUser
    dsimp only
    split <;> split <;> (try split) <;> simp
  · rw [HttpStreamParser.pass, state]
    dsimp only
    unfold doReadBodyComplete
    dsimp only
    generalize (if result = 0 ∧ !p.isResponseBodyComplete ∧ p.canFindEndOfResponse then
      errConnectionClosed else result) = result
    split
    · exact bodyRead_headers
    split
    · exact bodyRead_headers
    split
    · rw [state]
      simp
    split
    · exact bodyRead_headers
    split
    · simp
    · exact bodyRead_headers

end HttpStreamParser

section Turns

variable {data : RawText}

theorem HttpStreamParser.Reading.seen (reading : Reading p rest data)
    (ends : headerEnd (p.unused ++ data) = some blockEnd) : headerEnd rest = some blockEnd ∧
      headerText rest blockEnd = headerText (p.unused ++ data) blockEnd := by
  rw [← reading.received]
  exact ⟨headerEnd_append ends _, headerText_append ends _⟩

theorem assembling_read (reading : Reading p rest data) (some_data : 0 < data.length)
    (next : Continues env received p.headers rest) :
    Assembling env received (p.doReadHeadersComplete env data.length).1
      (p.doReadHeadersComplete env data.length).2 := by
  rw [reading.complete some_data]
  cases ends : headerEnd (p.unused ++ data) with
  | none =>
    dsimp only
    split
    · exact .behind ⟨by simp, by simp, by simp⟩ next.built
    · rename_i small
      exact .reading rfl (reading.goes_on ends (Nat.not_le.mp small)) next
  | some blockEnd =>
    obtain ⟨ends_there, text⟩ := reading.seen ends
    dsimp only
    have last : (p.headers ++ [headerText (p.unused ++ data) blockEnd]).getLastD [] =
        headerText rest blockEnd := by
      rw [List.getLastD_eq_getLast?, List.getLast?_concat, text]
      rfl
    by_cases code : (env.responseCode (headerText rest blockEnd)).tdiv 100 = 1
    · have interim := @headersEnd_interim env
        { p.taken data with headers := p.headers ++ [headerText (p.unused ++ data) blockEnd] }
        data.length (blockEnd + p.readBufUnusedOffset) (by rw [last]; exact code)
      have waits := reading.block_holds ends
      have continues := next.interim ends_there code
      rw [text] at continues
      rw [interim]
      exact .sent ⟨waits.same rfl rfl rfl, rfl, rfl⟩ continues
    · obtain ⟨headers, behind⟩ := @headersEnd_final env
        { p.taken data with headers := p.headers ++ [headerText (p.unused ++ data) blockEnd] }
        data.length (blockEnd + p.readBufUnusedOffset) (by rw [last]; exact code)
      have built := next.more (texts_one ends_there)
      rw [text] at built
      refine .behind ?_ ?_
      · rcases behind with behind | behind
        · rw [behind]
          decide
        · rw [behind]
          decide
      · rw [headers]
        exact built

theorem assembling_closed (reading : Reading p rest []) (none_left : p.socket.unread = [])
    (stopped : result ≤ 0) (state : p.ioState = .readHeadersComplete)
    (whole : ¬ CutBehindHeaders p result) (next : Continues env received p.headers rest) :
    Assembling env received (p.doReadHeadersComplete env result).1 (p.doReadHeadersComplete env result).2 := by
  have all : p.unused = rest := by
    have bytes := reading.received
    rw [none_left, append_nil, append_nil] at bytes
    exact bytes
  have open_block : headerEnd rest = none := all ▸ reading.open_block
  have last : headerTexts env.responseCode 1 rest = [headerText rest rest.length] := by
    rw [headerTexts, open_block]
  have built := next.more last
  unfold doReadHeadersComplete
  dsimp only
  generalize changed : (if result = 0 then errConnectionClosed else result) = code
  split
  · exact .behind ⟨by simp, by simp, by simp⟩ next.built
  split
  · exact .behind ⟨by simp, by simp, by simp⟩ next.built
  split
  · rename_i closed
    split
    · exact .behind ⟨by simp, by simp, by simp⟩ next.built
    · rw [headersCut]
      cases started : p.responseHeaderStartOffset with
      | none =>
        have no_line : headerText rest rest.length = http09 := by
          rw [reading.start, all] at started
          rw [headerText, started]
          rfl
        rw [no_line] at built
        exact .behind ⟨by simp [doParseResponseHeaders], by simp [doParseResponseHeaders],
          by simp [doParseResponseHeaders]⟩ (by simpa [doParseResponseHeaders, started] using built)
      | some start =>
        have at_front : p.readBufUnusedOffset = 0 := by
          by_contra behind
          refine whole ⟨state, ?_, by rw [started]; rfl, behind⟩
          by_cases zero : result = 0
          · exact .inl zero
          · rw [if_neg zero] at changed
            exact .inr (changed.trans closed)
        have line : headerText rest rest.length =
            assembleRawHeaders (bytesAt p.readBuf.memory p.readBufUnusedOffset p.readBuf.offset) := by
          have block : bytesAt p.readBuf.memory p.readBufUnusedOffset p.readBuf.offset = rest := by
            rw [← all, unused, available, at_front, Nat.sub_zero]
          rw [block, headerText, ← all, ← reading.start, started, all, take_length]
          rfl
        rw [line] at built
        exact .behind ⟨by simp [doParseResponseHeaders], by simp [doParseResponseHeaders],
          by simp [doParseResponseHeaders]⟩ (by simpa [doParseResponseHeaders, started] using built)
  · rename_i failed _ open_
    exfalso
    have negative : code < 0 := by
      rw [← changed]
      split
      · decide
      · omega
    exact failed ⟨negative, open_⟩

theorem assembling_turn (assembling : Assembling env received p result)
    (working : p.ioState.returns = false) (whole : ¬ CutBehindHeaders p result) :
    Assembling env received (p.pass env result).1 (p.pass env result).2 := by
  cases assembling with
  | sent waiting next =>
    rw [waiting.sent] at working
    cases working
  | reading state reading next =>
    obtain ⟨data, read, outcome, new_state, ⟨headers, _, _, _, _⟩⟩ := @Reading.read env p _ reading
    have turn : p.pass env result = p.doReadHeaders env := by rw [HttpStreamParser.pass, state]
    rw [turn]
    refine .read new_state read (headers ▸ next) ?_
    rcases outcome with ⟨some_data, size, _⟩ | closed
    · exact .inl ⟨some_data, size⟩
    · exact .inr closed
  | read state reading next outcome =>
    have turn : p.pass env result = p.doReadHeadersComplete env result := by rw [HttpStreamParser.pass, state]
    rw [turn]
    rcases outcome with ⟨some_data, rfl⟩ | ⟨rfl, none_left, stopped⟩
    · exact assembling_read reading some_data next
    · exact assembling_closed reading none_left stopped state whole next
  | behind state built =>
    have in_body : p.ioState = .readBody ∨ p.ioState = .readBodyComplete := by
      revert state working
      cases p.ioState <;> simp [IoState.returns]
    obtain ⟨headers, behind⟩ := @body_turn env p result in_body
    exact .behind behind (by rw [headers]; exact built)

theorem Assembling.built (assembling : Assembling env received p result) :
    p.headers = headerTexts env.responseCode p.headers.length received := by
  cases assembling with
  | sent _ next => exact next.built
  | reading _ _ next => exact next.built
  | read _ _ next => exact next.built
  | behind _ built => exact built

theorem ParserRun.assembling
    (run : ParserRun env socket (fun p result => ¬ CutBehindHeaders p result) p result) :
    Assembling env socket.unread p result := by
  induction run with
  | new =>
    refine .sent (new_waiting env socket) fun n => ?_
    rw [HttpStreamParser.new, length_nil, Nat.zero_add]
    rfl
  | headers run state ih =>
    cases ih with
    | sent waiting next =>
      obtain ⟨reading, size, begun⟩ := waiting.begins
      rename_i p' result' rest'
      have same : p'.beginHeaders.1.headers = p'.headers := by rw [begun]
      by_cases empty : p'.unused = []
      · rw [empty] at reading
        refine .reading ?_ reading (same ▸ next)
        rw [begun]
        exact if_pos empty
      · refine .read ?_ reading (same ▸ next) (.inl ⟨length_pos_iff.mpr empty, size⟩)
        rw [begun]
        exact if_neg empty
    | reading other => rw [state] at other; cases other
    | read other => rw [state] at other; cases other
    | behind other => exact absurd state other.1
  | body buf run state ih =>
    have built := ih.built
    exact .behind ⟨by simp [beginBody], by simp [beginBody], by simp [beginBody]⟩ built
  | turn run working whole ih => exact assembling_turn ih working whole

end Turns

/-- In a run that handles no close within a block behind other headers, the objects are those of
the received bytes. Neither the splits nor what else lies in memory matters to them. -/
theorem headers_from_received {env : Exchange} {socket : Socket} {p : HttpStreamParser}
    {result : Int} (run : ParserRun env socket (fun p result => ¬ CutBehindHeaders p result) p result) :
    p.headers = headerTexts env.responseCode p.headers.length socket.unread :=
  run.assembling.built

def statusCode (raw : RawText) : Int :=
  (((raw.dropWhile (· ≠ 32)).drop 1).take 3).foldl (fun code c => code * 10 + (c.toNat - 48)) 0

/-- `junk` is what the allocator leaves in its blocks. -/
def sampleExchange (junk : UInt8) : Exchange where
  heap _ _ := junk
  isHead := false
  shouldResend := false
  responseCode := statusCode
  isChunked _ := false
  contentLength _ := -1

/-- `"HTTP/1.1 100\n\nHTTP/1.1 200 OK\nA: b"` -/
def cutResponse : RawText :=
  [72, 84, 84, 80, 47, 49, 46, 49, 32, 49, 48, 48, 10, 10,
    72, 84, 84, 80, 47, 49, 46, 49, 32, 50, 48, 48, 32, 79, 75, 10, 65, 58, 32, 98]

/-- Both responses come with one read. -/
theorem headers_from_received_two : ∃ p result,
    ParserRun (sampleExchange 120) ⟨cutResponse ++ [10, 10], fun _ => 99, 0⟩
      (fun p result => ¬ CutBehindHeaders p result) p result ∧
    p.headers.length = 2 ∧ p.headers = headerTexts statusCode 2 (cutResponse ++ [10, 10]) := by
  have begun := (@ParserRun.new (sampleExchange 120) ⟨cutResponse ++ [10, 10], fun _ => 99, 0⟩
    fun p result => ¬ CutBehindHeaders p result).headers rfl
  have read := begun.turn (by decide +kernel) (by decide +kernel)
  have interim := read.turn (by decide +kernel) (by decide +kernel)
  have again := interim.headers (by decide +kernel)
  have final := again.turn (by decide +kernel) (by decide +kernel)
  exact ⟨_, _, final, by decide +kernel, headers_from_received final⟩

def callHeaders (env : Exchange) : Nat → HttpStreamParser → Option HttpStreamParser
  | 0, p => some p
  | calls + 1, p =>
    if p.ioState = .requestSent then do
      let (p, _) ← p.readResponseHeaders env
      callHeaders env calls p
    else some p

section Loop

variable {q : HttpStreamParser} {code : Int}

theorem doLoop_run {turns : Nat} (run : ParserRun env socket (fun _ _ => True) p result)
    (ran : doLoop env turns p result = some (q, code)) :
    ParserRun env socket (fun _ _ => True) q code := by
  induction turns generalizing p result with
  | zero =>
    rw [doLoop] at ran
    split at ran
    · cases ran
      exact run
    · cases ran
  | succ turns ih =>
    rw [doLoop] at ran
    split at ran
    · cases ran
      exact run
    · rename_i working
      exact ih (run.turn (by simpa using working) trivial) ran

theorem callHeaders_run {calls : Nat} (run : ParserRun env socket (fun _ _ => True) p result)
    (ran : callHeaders env calls p = some q) :
    ∃ code, ParserRun env socket (fun _ _ => True) q code := by
  induction calls generalizing p result with
  | zero =>
    cases ran
    exact ⟨result, run⟩
  | succ calls ih =>
    rw [callHeaders] at ran
    split at ran
    · rename_i sent
      obtain ⟨⟨p', code⟩, called, rest⟩ := Option.bind_eq_some_iff.mp ran
      rw [readResponseHeaders, if_neg (by rw [sent]; decide)] at called
      obtain ⟨⟨p'', code'⟩, looped, same⟩ := Option.map_eq_some_iff.mp called
      cases same
      exact ih (doLoop_run (run.headers sent) looped) rest
    · cases ran
      exact ⟨result, run⟩

theorem called_headers {calls : Nat} {headers : List RawText}
    (ran : (callHeaders env calls (.new env socket)).map HttpStreamParser.headers = some headers) :
    ∃ p code, ParserRun env socket (fun _ _ => True) p code ∧ p.headers = headers := by
  obtain ⟨p, called, same⟩ := Option.map_eq_some_iff.mp ran
  obtain ⟨code, run⟩ := callHeaders_run .new called
  exact ⟨p, code, run, same⟩

end Loop

/-- The object of a block that is cut behind a 1xx response ends with what the allocator left. -/
theorem cut_block_reads_on : ∃ p q code code',
    ParserRun (sampleExchange 120) ⟨cutResponse, fun _ => 99, 0⟩ (fun _ _ => True) p code ∧
    ParserRun (sampleExchange 121) ⟨cutResponse, fun _ => 99, 0⟩ (fun _ _ => True) q code' ∧
    p.headers.length = 2 ∧ q.headers.length = 2 ∧ p.headers ≠ q.headers := by
  obtain ⟨p, code, run, headers⟩ := @called_headers (sampleExchange 120)
    ⟨cutResponse, fun _ => 99, 0⟩ 2 [assembleRawHeaders (cutResponse.take 14),
      assembleRawHeaders (cutResponse.drop 14 ++ List.replicate 14 120)] (by decide +kernel)
  obtain ⟨q, code', run', headers'⟩ := @called_headers (sampleExchange 121)
    ⟨cutResponse, fun _ => 99, 0⟩ 2 [assembleRawHeaders (cutResponse.take 14),
      assembleRawHeaders (cutResponse.drop 14 ++ List.replicate 14 121)] (by decide +kernel)
  refine ⟨p, q, code, code', run, run', by rw [headers]; rfl, by rw [headers']; rfl, ?_⟩
  rw [headers, headers']
  decide +kernel

end Glopen.Http

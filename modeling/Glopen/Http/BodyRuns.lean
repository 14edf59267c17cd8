import Glopen.Http.BodyCalls

/-! A whole response, from its header block to the bytes behind its body. -/
namespace Glopen.Http

open Bytes HttpChunkedDecoder HttpStreamParser List

namespace HttpStreamParser

variable {env : Exchange} {p : HttpStreamParser} {rest data extra : List UInt8}

theorem loop_reads_body {count turns : Nat} {result : Int} (body : InBody p rest)
    (framed : Framed p rest data extra) (state : p.ioState = .readBody)
    (room : 0 < p.userReadBuf.length) (limit : p.userReadBuf.length ≤ kMaxBufSize)
    (few : rest.length ≤ count) (enough : 2 * count ≤ turns) :
    ∃ out q, doLoop env turns p result = some (q, (out.length : Int)) ∧ Returned q out data extra := by
  have some_left := length_pos_iff.mpr framed.some_left
  induction count generalizing p rest data turns result with
  | zero => omega
  | succ count ih =>
    obtain ⟨turns, rfl⟩ : ∃ fewer, turns = fewer + 1 + 1 := ⟨turns - 2, by omega⟩
    obtain ⟨got, rest', parts, some_bytes, size, next_state, given⟩ :=
      @InBody.read env p rest body framed.some_left framed.open_body room limit
    have first : p.pass env result = p.doReadBody env := by rw [HttpStreamParser.pass, state]
    have second : (p.doReadBody env).1.pass env got.length =
        (p.doReadBody env).1.doReadBodyComplete env got.length := by rw [HttpStreamParser.pass, next_state]
    rw [doLoop_turn (by rw [state]; rfl), first, size, doLoop_turn (by rw [next_state]; rfl), second]
    cases framed with
    | counted whole some_data plain read length =>
      obtain ⟨out, r, ran, returns, returned⟩ :=
        @Given.counted env _ _ _ _ _ _ given some_bytes (whole.symm.trans parts) plain read length
      rw [ran]
      exact ⟨out, r, doLoop_returns returns turns, returned⟩
    | chunked same within =>
      rcases @Given.chunked env _ _ _ _ _ _ _ given some_bytes _ _ _ parts same within with
        ⟨r, ran, again, left, framed, user⟩ | ⟨out, r, ran, returns, returned⟩
      · rw [ran]
        have shorter : rest'.length ≤ count := by
          rw [parts, length_append] at few
          omega
        exact ih left framed again (by rw [user]; exact room) (by rw [user]; exact limit) shorter
          (by omega) (length_pos_iff.mpr framed.some_left)
      · rw [ran]
        exact ⟨out, r, doLoop_returns returns turns, returned⟩

theorem Pending.call (pending : Pending p data extra) {buf : List UInt8} (room : 0 < buf.length)
    (limit : buf.length ≤ kMaxBufSize) :
    ∃ out q, p.readResponseBody env buf = some (q, (out.length : Int)) ∧ Returned q out data extra := by
  obtain ⟨state, rest, body, framed⟩ := pending
  have body' : InBody (p.beginBody buf) rest := body.same rfl rfl rfl rfl
  have framed' : Framed (p.beginBody buf) rest data extra := by
    cases framed with
    | counted parts some_data plain read length => exact .counted parts some_data plain read length
    | chunked same within => exact .chunked same within
  have size : rest.length = p.available + p.socket.unread.length := by
    rw [← body.received, length_append, unused_length]
  rw [readResponseBody, if_neg (by rw [state]; decide)]
  exact loop_reads_body body' framed' rfl room limit (Nat.le_refl _) (by rw [turns, size]; omega)

end HttpStreamParser

/-- The bytes of the calls before the first one that returns zero, if there are not more calls
than that and none returns an error. -/
def readBodies (env : Exchange) (bufs : Nat → List UInt8) :
    Nat → HttpStreamParser → Option (List UInt8 × HttpStreamParser)
  | 0, _ => none
  | calls + 1, p => do
    let (q, result) ← p.readResponseBody env (bufs 0)
    if result = 0 then some ([], q)
    else if result < 0 then none
    else do
      let (later, r) ← readBodies env (fun i => bufs (i + 1)) calls q
      some (q.userReadBuf.take result.toNat ++ later, r)

section Runs

variable {env : Exchange} {p : HttpStreamParser} {data extra : List UInt8} {bufs : Nat → List UInt8}

theorem HttpStreamParser.Finished.reads (finished : Finished p extra) (calls : Nat) :
    readBodies env bufs (calls + 1) p = some ([], p) := by
  rw [readBodies, readResponseBody, if_pos finished.state]
  rfl

theorem HttpStreamParser.Pending.reads (pending : Pending p data extra)
    (fit : ∀ i, 0 < (bufs i).length ∧ (bufs i).length ≤ kMaxBufSize) {calls : Nat}
    (enough : data.length + 2 ≤ calls) :
    ∃ q, readBodies env bufs calls p = some (data, q) ∧ Finished q extra := by
  induction calls generalizing p data bufs with
  | zero => omega
  | succ calls ih =>
    obtain ⟨out, q, called, there, goes_on⟩ :=
      @Pending.call env p data extra pending (bufs 0) (fit 0).1 (fit 0).2
    rw [readBodies, called]
    dsimp only [Option.bind_eq_bind, Option.bind_some]
    rcases goes_on with ⟨some_out, data', parts, later⟩ | ⟨all, finished⟩
    · have positive := length_pos_iff.mpr some_out
      have shorter : data'.length + 2 ≤ calls := by
        rw [parts, length_append] at enough
        omega
      obtain ⟨r, ran, finished⟩ := ih later (fun i => fit (i + 1)) shorter
      rw [if_neg (by omega), if_neg (by omega), ran, Int.toNat_natCast, there]
      exact ⟨r, by rw [parts]; rfl, finished⟩
    · by_cases empty : out = []
      · rw [empty, ← all, empty]
        exact ⟨q, rfl, finished⟩
      · have positive := length_pos_iff.mpr empty
        obtain ⟨calls, rfl⟩ : ∃ fewer, calls = fewer + 1 := ⟨calls - 1, by omega⟩
        rw [if_neg (by omega), if_neg (by omega), finished.reads, Int.toNat_natCast, there, all]
        exact ⟨q, by simp, finished⟩

end Runs

def Bodiless (env : Exchange) (raw : RawText) : Prop :=
  env.responseCode raw = 204 ∨ env.responseCode raw = 205 ∨ env.responseCode raw = 304 ∨ env.isHead

inductive SentBody (env : Exchange) (raw : RawText) : List UInt8 → List UInt8 → Prop
  | empty : Bodiless env raw → SentBody env raw [] []
  | counted {data : List UInt8} : ¬ Bodiless env raw → env.isChunked raw = false →
    env.contentLength raw = data.length → data ≠ [] → SentBody env raw data data
  | chunked (body : ChunkedBody) : ¬ Bodiless env raw → env.isChunked raw = true → body.Plain →
    SentBody env raw body.encode body.data

structure FullBlock (block : RawText) : Prop where
  ends : headerEnd block = some block.length
  small : block.length ≤ kMaxHeaderBufSize

def blockText (block : RawText) : RawText := headerText block block.length

theorem FullBlock.text {block : RawText} (full : FullBlock block) (more : RawText) :
    headerEnd (block ++ more) = some block.length ∧ headerText (block ++ more) block.length = blockText block :=
  ⟨headerEnd_append full.ends more, headerText_append full.ends more⟩

section Response

variable {env : Exchange} {p : HttpStreamParser} {block sent data tail extra : List UInt8}

structure NoBody (p : HttpStreamParser) : Prop where
  length : p.responseBodyLength = -1
  read : p.responseBodyRead = 0
  decoder : p.chunkedDecoder = none
  checked : p.checkFailed = false

theorem NoBody.same {q : HttpStreamParser} (none_yet : NoBody p) (same : SameBody p q) : NoBody q where
  length := same.length.trans none_yet.length
  read := same.read.trans none_yet.read
  decoder := same.decoder.trans none_yet.decoder
  checked := same.checked.trans none_yet.checked

theorem HttpStreamParser.Holds.inBody (holds : Holds p tail []) (checked : p.checkFailed = false) :
    InBody p tail where
  inside := holds.inside
  received := by
    have received := holds.received
    rw [append_nil] at received
    exact received
  fits := holds.fits
  few := Nat.le_trans holds.few (by decide)
  checked := checked

theorem HttpStreamParser.InBody.keeps (body : InBody p extra) : Finished (p.keepExtraBytes env) extra := by
  obtain ⟨inside, received, fits, few, checked⟩ := body
  have short : p.available ≤ p.readBuf.offset := Nat.sub_le ..
  refine ⟨rfl, ?_, checked⟩
  rw [← received]
  refine congrArg (· ++ p.socket.unread) ?_
  have kept : min p.readBuf.offset p.available = p.available := Nat.min_eq_right short
  have copied := bytesAt_copyTo p.readBuf.memory 0 p.unused
  rw [unused_length] at copied
  rw [keepExtraBytes]
  dsimp only [GrowableIOBuffer.setCapacity, GrowableIOBuffer.put]
  rw [kept]
  refine Eq.trans ?_ copied
  exact bytesAt_congr fun i small => if_pos (by omega)

inductive Answered (p : HttpStreamParser) (data extra : List UInt8) : Prop
  | pending : Pending p data extra → Answered p data extra
  | finished : data = [] → Finished p extra → Answered p data extra

theorem headersEnd_answers {endOffset : Nat} {result : Int} {raw : RawText}
    (last : p.headers.getLastD [] = raw) (final : (env.responseCode raw).tdiv 100 ≠ 1)
    (body : SentBody env raw sent data) (none_yet : NoBody p)
    (left : InBody { p with readBufUnusedOffset := endOffset } (sent ++ extra)) :
    Answered (p.headersEnd env endOffset result).1 data extra := by
  let r : HttpStreamParser := { p with readBufUnusedOffset := endOffset, ioState := .bodyPending }
  have left' : InBody r (sent ++ extra) := left.same rfl rfl rfl rfl
  have ran : p.headersEnd env endOffset result =
      if (r.calculateResponseBodySize env raw).responseBodyLength = 0 then
        ((r.calculateResponseBodySize env raw).keepExtraBytes env, 0)
      else (r.calculateResponseBodySize env raw, result) := by
    rw [headersEnd, ← last]
    exact if_neg (by rw [last]; exact final)
  have unknown : r.responseBodyLength = -1 := none_yet.length
  rw [ran]
  cases body with
  | empty bodiless =>
    have skipped : env.responseCode raw = 204 ∨ env.responseCode raw = 205 ∨
        env.responseCode raw = 304 ∨ env.isHead = true := bodiless
    have sized : r.calculateResponseBodySize env raw = { r with responseBodyLength := 0 } := by
      unfold calculateResponseBodySize
      dsimp only
      have known : ¬ (0 : Int) = -1 := by decide
      rw [if_pos skipped]
      exact if_neg known
    rw [sized, if_pos rfl]
    have kept : InBody { r with responseBodyLength := 0 } extra := left'.same rfl rfl rfl rfl
    exact .finished rfl kept.keeps
  | counted has_body plain length some_data =>
    have read_on : ¬ (env.responseCode raw = 204 ∨ env.responseCode raw = 205 ∨
        env.responseCode raw = 304 ∨ env.isHead = true) := has_body
    have sized : r.calculateResponseBodySize env raw =
        { r with responseBodyLength := sent.length } := by
      unfold calculateResponseBodySize
      dsimp only
      rw [if_neg read_on, if_pos unknown, plain, if_neg Bool.false_ne_true, length]
    have positive := length_pos_iff.mpr some_data
    rw [sized, if_neg (by dsimp only; omega)]
    refine .pending ⟨rfl, sent ++ extra, left'.same rfl rfl rfl rfl,
      .counted rfl some_data none_yet.decoder ?_ ?_⟩
    · exact Int.le_of_eq none_yet.read.symm
    · dsimp only
      have nothing : r.responseBodyRead = 0 := none_yet.read
      omega
  | chunked body has_body isChunked plain =>
    have read_on : ¬ (env.responseCode raw = 204 ∨ env.responseCode raw = 205 ∨
        env.responseCode raw = 304 ∨ env.isHead = true) := has_body
    have sized : r.calculateResponseBodySize env raw = { r with chunkedDecoder := some new } := by
      unfold calculateResponseBodySize
      dsimp only
      rw [if_neg read_on, if_pos unknown, isChunked, if_pos rfl]
    rw [sized, if_neg (by dsimp only; rw [unknown]; decide)]
    exact .pending ⟨rfl, body.encode ++ extra, left'.same rfl rfl rfl rfl,
      .chunked rfl (body.within plain extra)⟩

theorem HttpStreamParser.AwaitsHeaders.call_final (waiting : AwaitsHeaders p (block ++ (sent ++ extra)))
    (full : FullBlock block) (final : (env.responseCode (blockText block)).tdiv 100 ≠ 1)
    (body : SentBody env (blockText block) sent data) (none_yet : NoBody p) :
    ∃ q code, p.readResponseHeaders env = some (q, code) ∧
      q.headers = p.headers ++ [blockText block] ∧ Answered q data extra := by
  obtain ⟨ends, text⟩ := full.text (sent ++ extra)
  obtain ⟨q, last, read, code, called⟩ := @AwaitsHeaders.call env p _ _ waiting ends full.small
  have raw : (q.atEnd last block.length).headers.getLastD [] = blockText block := by
    rw [atEnd_last, read.text, text]
  have before := none_yet.same read.same
  have kept : NoBody (q.atEnd last block.length) :=
    ⟨before.length, before.read, before.decoder, before.checked⟩
  have left := read.holds.inBody kept.checked
  rw [drop_left] at left
  refine ⟨_, code, called, ?_, headersEnd_answers raw final body kept left⟩
  rw [(headersEnd_final (by rw [raw]; exact final)).1, atEnd, read.same.headers, read.text, text]

theorem calls_read_headers {interims : List RawText} (full_blocks : ∀ interim ∈ interims, FullBlock interim ∧
      (env.responseCode (blockText interim)).tdiv 100 = 1)
    (waiting : AwaitsHeaders p (interims.flatten ++ (block ++ (sent ++ extra)))) (full : FullBlock block)
    (final : (env.responseCode (blockText block)).tdiv 100 ≠ 1)
    (body : SentBody env (blockText block) sent data) (none_yet : NoBody p) :
    ∃ q, callHeaders env (interims.length + 1) p = some q ∧
      q.headers = p.headers ++ (interims ++ [block]).map blockText ∧ Answered q data extra := by
  induction interims generalizing p with
  | nil =>
    rw [flatten_nil, nil_append] at waiting
    obtain ⟨q, code, called, headers, answered⟩ := waiting.call_final full final body none_yet
    refine ⟨q, ?_, headers, answered⟩
    rw [length_nil, callHeaders, if_pos waiting.sent, called]
    rfl
  | cons interim interims ih =>
    obtain ⟨full_interim, code⟩ := full_blocks interim (mem_cons_self ..)
    rw [flatten_cons, append_assoc] at waiting
    obtain ⟨ends, text⟩ := full_interim.text (interims.flatten ++ (block ++ (sent ++ extra)))
    obtain ⟨q, result, called, next, headers, length, read, decoder, checked⟩ :=
      waiting.call_interim ends full_interim.small (by rw [text]; exact code)
    rw [drop_left] at next
    obtain ⟨r, later, all, answered⟩ := ih (fun other isIn => full_blocks other
      (mem_cons_of_mem interim isIn)) next ⟨length.trans none_yet.length, read.trans none_yet.read,
        decoder.trans none_yet.decoder, checked.trans none_yet.checked⟩
    refine ⟨r, ?_, ?_, answered⟩
    · rw [length_cons, callHeaders, if_pos waiting.sent, called]
      exact later
    · rw [all, headers, text, append_assoc]
      rfl

end Response

/-- The caller gets the body of the final response, and what was sent behind it is left, in the
buffer and in the socket. -/
theorem body_framed {env : Exchange} {socket : Socket} {interims : List RawText}
    {block sent data extra : List UInt8} {bufs : Nat → List UInt8}
    (full_blocks : ∀ interim ∈ interims, FullBlock interim ∧ (env.responseCode (blockText interim)).tdiv 100 = 1)
    (full : FullBlock block) (final : (env.responseCode (blockText block)).tdiv 100 ≠ 1)
    (body : SentBody env (blockText block) sent data)
    (received : socket.unread = interims.flatten ++ (block ++ (sent ++ extra)))
    (fit : ∀ i, 0 < (bufs i).length ∧ (bufs i).length ≤ kMaxBufSize) :
    ∃ p q, callHeaders env (interims.length + 1) (.new env socket) = some p ∧
      p.headers = (interims ++ [block]).map blockText ∧
      readBodies env bufs (data.length + 2) p = some (data, q) ∧ q.ioState = .done ∧
      bytesAt q.readBuf.memory 0 q.readBuf.offset ++ q.socket.unread = extra ∧
      q.checkFailed = false := by
  have waiting := new_waiting env socket
  rw [received] at waiting
  obtain ⟨p, called, headers, answered⟩ :=
    calls_read_headers full_blocks waiting full final body ⟨rfl, rfl, rfl, rfl⟩
  cases answered with
  | pending pending =>
    obtain ⟨q, ran, finished⟩ := pending.reads fit (Nat.le_refl _)
    exact ⟨p, q, called, headers, ran, finished.state, finished.left, finished.checked⟩
  | finished nothing finished =>
    rw [nothing]
    exact ⟨p, p, called, headers, finished.reads 1, finished.state, finished.left, finished.checked⟩

/-- `"HTTP/1.1 200 OK\nContent-Length: 3\n\n"` -/
def greetingBlock : RawText :=
  [72, 84, 84, 80, 47, 49, 46, 49, 32, 50, 48, 48, 32, 79, 75, 10,
    67, 111, 110, 116, 101, 110, 116, 45, 76, 101, 110, 103, 116, 104, 58, 32, 51, 10, 10]

/-- The length of each body is `size`. -/
def countedExchange (size : Nat) : Exchange := { sampleExchange 0 with contentLength _ := size }

def greetingBody : List UInt8 := [97, 98, 99]

def greetingSocket : Socket where
  unread := [cutResponse.take 14].flatten ++ (greetingBlock ++ (greetingBody ++ [120, 121]))
  most _ := 0
  failure := 0

theorem body_framed_greeting : ∃ p q, callHeaders (countedExchange 3) ([cutResponse.take 14].length + 1)
      (.new (countedExchange 3) greetingSocket) = some p ∧
    p.headers = ([cutResponse.take 14] ++ [greetingBlock]).map blockText ∧
    readBodies (countedExchange 3) (fun _ => [0, 0]) (greetingBody.length + 2) p = some (greetingBody, q) ∧
    q.ioState = .done ∧
    bytesAt q.readBuf.memory 0 q.readBuf.offset ++ q.socket.unread = [120, 121] ∧
    q.checkFailed = false := by
  have full (interim : RawText) (isIn : interim ∈ [cutResponse.take 14]) : FullBlock interim ∧
      ((countedExchange 3).responseCode (blockText interim)).tdiv 100 = 1 := by
    rw [List.mem_singleton.mp isIn]
    exact ⟨⟨by decide +kernel, by decide⟩, by decide +kernel⟩
  have full_final : FullBlock greetingBlock := ⟨by decide +kernel, by decide⟩
  have final : ((countedExchange 3).responseCode (blockText greetingBlock)).tdiv 100 ≠ 1 := by
    decide +kernel
  have body : SentBody (countedExchange 3) (blockText greetingBlock) greetingBody greetingBody :=
    .counted (by unfold Bodiless; decide +kernel) rfl rfl (by decide)
  have small (i : Nat) : 0 < [(0 : UInt8), 0].length ∧ [(0 : UInt8), 0].length ≤ kMaxBufSize := by
    decide
  exact body_framed full full_final final body rfl small

end Glopen.Http

/-! Header blocks that are longer than the parser reads. -/
namespace Glopen.Http

open HttpStreamParser

def Socket.Bytewise (socket : Socket) : Prop := ∀ i, socket.most i = 0

theorem Socket.Bytewise.read {socket : Socket} (bytewise : socket.Bytewise) (bufLen : Nat) :
    (socket.read bufLen).2.2.Bytewise ∧ socket.unread.length ≤ (socket.read bufLen).2.2.unread.length + 1 := by
  cases more : socket.unread with
  | nil =>
    simp only [Socket.read, more]
    exact ⟨bytewise, Nat.zero_le _⟩
  | cons b unread =>
    simp only [Socket.read, more, bytewise 0, List.length_drop, List.length_take]
    exact ⟨fun i => bytewise (i + 1), by omega⟩

namespace HttpStreamParser

variable {env : Exchange} {p : HttpStreamParser} {rest data : RawText} {result : Int}

theorem doReadHeaders_socket : ∃ bufLen, (p.doReadHeaders env).1.socket = (p.socket.read bufLen).2.2 := ⟨_, rfl⟩

theorem loop_refuses_block {turns blockEnd : Nat} (ends : headerEnd rest = some blockEnd)
    (large : kMaxHeaderBufSize < blockEnd) (reading : Reading p rest data) (bytewise : p.socket.Bytewise)
    (state : (p.ioState = .readHeaders ∧ data = [] ∧ 2 * p.socket.unread.length + 2 ≤ turns) ∨
      (p.ioState = .readHeadersComplete ∧ data.length = 1 ∧ result = data.length ∧
        2 * p.socket.unread.length + 3 ≤ turns)) :
    ∃ q, doLoop env turns p result = some (q, errResponseHeadersTooBig) ∧ q.ioState = .done := by
  induction turns generalizing p data result with
  | zero => omega
  | succ turns ih =>
    rcases state with ⟨state, rfl, enough⟩ | ⟨state, one, rfl, enough⟩
    · obtain ⟨data, read, outcome, next_state, same⟩ := @Reading.read env p rest reading
      obtain ⟨bufLen, socket⟩ := @doReadHeaders_socket env p
      obtain ⟨next_bytewise, short⟩ := bytewise.read bufLen
      rw [← socket] at next_bytewise short
      have turn : p.pass env result = p.doReadHeaders env := by rw [HttpStreamParser.pass, state]
      rw [doLoop_turn (by rw [state]; rfl), turn]
      rcases outcome with ⟨some_data, size, fewer⟩ | ⟨no_data, none_left, _⟩
      · exact ih read next_bytewise (.inr ⟨next_state, by omega, size, by omega⟩)
      · have all := read.received
        rw [no_data, none_left, List.append_nil, List.append_nil] at all
        rw [← all, read.open_block] at ends
        cases ends
    · have turn : p.pass env data.length = p.doReadHeadersComplete env data.length := by
        rw [HttpStreamParser.pass, state]
      rw [doLoop_turn (by rw [state]; rfl), turn, reading.complete (by omega)]
      cases seen : headerEnd (p.unused ++ data) with
      | some blockEnd' =>
        have same := (reading.seen seen).1
        have inside := headerEnd_length seen
        have small := reading.small
        rw [List.length_append, unused_length] at inside
        rw [ends] at same
        cases same
        omega
      | none =>
        dsimp only
        split
        · exact ⟨_, doLoop_returns rfl turns, rfl⟩
        · rename_i short
          exact ih (reading.goes_on seen (Nat.not_le.mp short)) bytewise (.inl ⟨rfl, rfl, by
            simp only [taken]
            omega⟩)

theorem long_block_refused {socket : Socket} {blockEnd : Nat} (bytewise : socket.Bytewise)
    (ends : headerEnd socket.unread = some blockEnd) (large : kMaxHeaderBufSize < blockEnd) :
    ∃ q, callHeaders env 1 (.new env socket) = some q ∧ q.ioState = .done := by
  obtain ⟨reading, _, begun⟩ := (new_waiting env socket).begins
  have state : ((new env socket).beginHeaders.1.ioState = .readHeaders ∧ (new env socket).unused = [] ∧
        2 * (new env socket).beginHeaders.1.socket.unread.length + 2 ≤ (new env socket).turns) ∨
      ((new env socket).beginHeaders.1.ioState = .readHeadersComplete ∧ (new env socket).unused.length = 1 ∧
        (new env socket).beginHeaders.2 = (new env socket).unused.length ∧
        2 * (new env socket).beginHeaders.1.socket.unread.length + 3 ≤ (new env socket).turns) := by
    refine .inl ⟨rfl, rfl, ?_⟩
    rw [begun, turns]
    dsimp only
    omega
  obtain ⟨q, looped, done⟩ := @loop_refuses_block env _ _ _ _ _ _ ends large reading
    (by rw [begun]; exact bytewise) state
  refine ⟨q, ?_, done⟩
  have sent : (new env socket).ioState = .requestSent := rfl
  rw [callHeaders, if_pos sent, readResponseHeaders, if_neg (by rw [sent]; decide)]
  dsimp only
  rw [looped]
  rfl

end HttpStreamParser

theorem endOfHeadersFrom_line {text : RawText} (one_line : lf ∉ text) (lastC lastC' : UInt8)
    (more : RawText) : endOfHeadersFrom false lastC (text ++ more) =
      (endOfHeadersFrom false lastC' more).map (text.length + ·) := by
  have last (c : UInt8) : endOfHeadersFrom false c more = endOfHeadersFrom false lastC' more := by
    cases more with
    | nil => rfl
    | cons d more => rw [endOfHeadersFrom, endOfHeadersFrom, Bool.false_and, Bool.false_and]
  induction text generalizing lastC with
  | nil =>
    rw [List.nil_append, last]
    simp
  | cons b text ih =>
    rw [List.mem_cons, not_or] at one_line
    rw [List.cons_append, endOfHeadersFrom, if_neg (Ne.symm one_line.1), Bool.false_and,
      ih one_line.2, Option.map_map]
    congr 1
    funext i
    simp only [Function.comp_apply, List.length_cons]
    omega

/-- `"HTTP/1.1 200 OK\\nContent-Length: 1\\nA:"` -/
def longStart : RawText :=
  [72, 84, 84, 80, 47, 49, 46, 49, 32, 50, 48, 48, 32, 79, 75, 10,
    67, 111, 110, 116, 101, 110, 116, 45, 76, 101, 110, 103, 116, 104, 58, 32, 49, 10, 65, 58]

def longBlock : RawText := longStart ++ (List.replicate kMaxHeaderBufSize 97 ++ [10, 10])

theorem longBlock_ends (more : RawText) : headerEnd (longBlock ++ more) = some (kMaxHeaderBufSize + 38) := by
  have located : locateStartOfStatusLine (longBlock ++ more) = some 0 := by
    rw [longBlock, List.append_assoc]
    exact @locateStart_append longStart 0 (by decide) _
  have line : lf ∉ List.replicate kMaxHeaderBufSize (97 : UInt8) := by
    rw [List.mem_replicate]
    rintro ⟨_, same⟩
    cases same
  have rest := endOfHeadersFrom_line line 58 97 ([10, 10] ++ more)
  have blank : endOfHeadersFrom false 97 ([10, 10] ++ more) = some 2 := rfl
  rw [blank, List.length_replicate, Option.map_some] at rest
  rw [headerEnd, located]
  dsimp only
  rw [locateEndOfHeaders, List.drop_zero, longBlock, List.append_assoc, List.append_assoc]
  generalize List.replicate kMaxHeaderBufSize (97 : UInt8) ++ ([10, 10] ++ more) = tail at rest ⊢
  simp [longStart, endOfHeadersFrom, lf, cr, rest]

def byteExchange : Exchange :=
  { sampleExchange 0 with responseCode _ := 200, contentLength _ := 1 }

/-- The byte of the body is not returned: the parser gave up within the headers. -/
theorem long_headers_lose_body : headerEnd longBlock = some longBlock.length ∧
    SentBody byteExchange (blockText longBlock) [120] [120] ∧ ∃ p,
    callHeaders byteExchange 1 (.new byteExchange ⟨longBlock ++ [120], fun _ => 0, 0⟩) = some p ∧
    readBodies byteExchange (fun _ => [0, 0]) 3 p = some ([], p) := by
  have whole := longBlock_ends []
  have size : longBlock.length = kMaxHeaderBufSize + 38 := by
    have start : longStart.length = 36 := rfl
    have blank : ([10, 10] : RawText).length = 2 := rfl
    rw [longBlock, List.length_append, List.length_append, List.length_replicate, start, blank]
    omega
  rw [List.append_nil] at whole
  refine ⟨by rw [whole, size], .counted (by unfold Bodiless; decide) rfl rfl (by decide), ?_⟩
  obtain ⟨p, called, done⟩ := @long_block_refused byteExchange
    ⟨longBlock ++ [120], fun _ => 0, 0⟩ _ (fun _ => rfl) (longBlock_ends [120]) (by decide)
  refine ⟨p, called, ?_⟩
  rw [readBodies, readResponseBody, if_pos done]
  rfl

end Glopen.Http

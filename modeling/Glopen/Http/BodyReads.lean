import Glopen.Http.HeaderRuns

/-! A call of `ReadResponseHeaders` that comes to the end of a header block. -/
namespace Glopen.Http

open Bytes HttpStreamParser List

namespace HttpStreamParser

variable {env : Exchange} {p : HttpStreamParser} {rest data : RawText} {result : Int}

theorem doLoop_returns (stops : p.ioState.returns = true) (turns : Nat) :
    doLoop env turns p result = some (p, result) := by
  cases turns with
  | zero => rw [doLoop, if_pos stops]
  | succ turns => rw [doLoop, if_pos stops]

theorem doLoop_turn (working : p.ioState.returns = false) (turns : Nat) :
    doLoop env (turns + 1) p result = doLoop env turns (p.pass env result).1 (p.pass env result).2 := by
  rw [doLoop, if_neg (by rw [working]; decide)]

/-- The parser has read a block: `data` came last. -/
structure BlockRead (p q : HttpStreamParser) (rest data : RawText) (blockEnd : Nat) : Prop where
  reading : Reading q rest data
  same : SameBody p q
  ends : headerEnd (q.unused ++ data) = some blockEnd

def atEnd (q : HttpStreamParser) (data : RawText) (blockEnd : Nat) : HttpStreamParser :=
  { q.taken data with headers := q.headers ++ [headerText (q.unused ++ data) blockEnd] }

theorem headersEnd_returns (q : HttpStreamParser) (endOffset : Nat) :
    (q.headersEnd env endOffset result).1.ioState.returns = true := by
  by_cases code : (env.responseCode (q.headers.getLastD [])).tdiv 100 = 1
  · rw [headersEnd_interim code]
    rfl
  · rcases (headersEnd_final code).2 with state | state
    · rw [state]
      rfl
    · rw [state]
      rfl

theorem loop_reads_block {turns blockEnd : Nat} (ends : headerEnd rest = some blockEnd)
    (small : blockEnd ≤ kMaxHeaderBufSize) (reading : Reading p rest data)
    (state : (p.ioState = .readHeaders ∧ data = [] ∧ 2 * p.socket.unread.length + 2 ≤ turns) ∨
      (p.ioState = .readHeadersComplete ∧ 0 < data.length ∧ result = data.length ∧
        2 * p.socket.unread.length + 3 ≤ turns)) :
    ∃ q last, BlockRead p q rest last blockEnd ∧ 0 < last.length ∧ doLoop env turns p result =
        some ((q.atEnd last blockEnd).headersEnd env (blockEnd + q.readBufUnusedOffset) last.length) := by
  induction turns generalizing p data result with
  | zero => omega
  | succ turns ih =>
    rcases state with ⟨state, rfl, enough⟩ | ⟨state, some_data, rfl, enough⟩
    · obtain ⟨data, read, outcome, next_state, same⟩ := @Reading.read env p rest reading
      have turn : p.pass env result = p.doReadHeaders env := by rw [HttpStreamParser.pass, state]
      rw [doLoop_turn (by rw [state]; rfl), turn]
      rcases outcome with ⟨some_data, size, fewer⟩ | ⟨no_data, none_left, _⟩
      · obtain ⟨q, last, block, positive, looped⟩ :=
          ih read (.inr ⟨next_state, some_data, size, by omega⟩)
        exact ⟨q, last, ⟨block.reading, same.trans block.same, block.ends⟩, positive, looped⟩
      · have all := read.received
        rw [no_data, none_left, append_nil, append_nil] at all
        rw [← all, read.open_block] at ends
        cases ends
    · have turn : p.pass env data.length = p.doReadHeadersComplete env data.length := by
        rw [HttpStreamParser.pass, state]
      rw [doLoop_turn (by rw [state]; rfl), turn, reading.complete some_data]
      cases seen : headerEnd (p.unused ++ data) with
      | some blockEnd' =>
        have same := (reading.seen seen).1
        rw [ends] at same
        cases same
        exact ⟨p, data, ⟨reading, .refl p, seen⟩, some_data, doLoop_returns (headersEnd_returns _ _) turns⟩
      | none =>
        have size : (p.taken data).available = (p.unused ++ data).length := by
          rw [← reading.taken_unused, unused_length]
        have short : ¬ kMaxHeaderBufSize ≤ (p.taken data).available := by
          intro long
          rw [← reading.received] at ends
          have there := headerEnd_front ends (by omega) (by simp only [kMaxHeaderBufSize] at long; omega)
          rw [seen] at there
          cases there
        dsimp only
        rw [if_neg short]
        obtain ⟨q, last, block, positive, looped⟩ := ih
          (reading.goes_on seen (Nat.not_le.mp short)) (.inl ⟨rfl, rfl, by
            simp only [taken]
            omega⟩)
        have kept : SameBody p { p.taken data with ioState := .readHeaders } :=
          ⟨rfl, rfl, rfl, rfl, rfl⟩
        exact ⟨q, last, ⟨block.reading, kept.trans block.same, block.ends⟩, positive, looped⟩

theorem AwaitsHeaders.call {blockEnd : Nat} (waiting : AwaitsHeaders p rest)
    (ends : headerEnd rest = some blockEnd) (small : blockEnd ≤ kMaxHeaderBufSize) :
    ∃ q last, BlockRead p q rest last blockEnd ∧ ∃ code, p.readResponseHeaders env =
        some (((q.atEnd last blockEnd).headersEnd env (blockEnd + q.readBufUnusedOffset)
          last.length).1, code) := by
  obtain ⟨reading, size, begun⟩ := waiting.begins
  have same : SameBody p p.beginHeaders.1 := by
    rw [begun]
    exact ⟨rfl, rfl, rfl, rfl, rfl⟩
  have turns : 2 * p.beginHeaders.1.socket.unread.length + 5 ≤ p.turns := by
    rw [begun, HttpStreamParser.turns]
    dsimp only
    omega
  have state : (p.beginHeaders.1.ioState = .readHeaders ∧ p.unused = [] ∧
        2 * p.beginHeaders.1.socket.unread.length + 2 ≤ p.turns) ∨
      (p.beginHeaders.1.ioState = .readHeadersComplete ∧ 0 < p.unused.length ∧
        p.beginHeaders.2 = p.unused.length ∧
        2 * p.beginHeaders.1.socket.unread.length + 3 ≤ p.turns) := by
    by_cases empty : p.unused = []
    · refine .inl ⟨?_, empty, by omega⟩
      rw [begun]
      exact if_pos empty
    · refine .inr ⟨?_, length_pos_iff.mpr empty, size, by omega⟩
      rw [begun]
      exact if_neg empty
  obtain ⟨q, last, block, positive, looped⟩ := @loop_reads_block env _ _ _ _ _ _ ends small reading state
  refine ⟨q, last, ⟨block.reading, same.trans block.same, block.ends⟩, ?_⟩
  rw [readResponseHeaders, if_neg (by rw [waiting.sent]; decide)]
  dsimp only
  rw [looped]
  exact ⟨_, rfl⟩

theorem atEnd_last (q : HttpStreamParser) (data : RawText) (blockEnd : Nat) :
    (q.atEnd data blockEnd).headers.getLastD [] = headerText (q.unused ++ data) blockEnd := by
  rw [atEnd, List.getLastD_eq_getLast?, List.getLast?_concat]
  rfl

theorem BlockRead.text {q : HttpStreamParser} {blockEnd : Nat} (block : BlockRead p q rest data blockEnd) :
    headerText (q.unused ++ data) blockEnd = headerText rest blockEnd :=
  (block.reading.seen block.ends).2.symm

theorem BlockRead.holds {q : HttpStreamParser} {blockEnd : Nat} (block : BlockRead p q rest data blockEnd) :
    Holds { q.atEnd data blockEnd with readBufUnusedOffset := blockEnd + q.readBufUnusedOffset }
      (rest.drop blockEnd) [] :=
  (block.reading.block_holds block.ends).same rfl rfl rfl

theorem AwaitsHeaders.call_interim {blockEnd : Nat} (waiting : AwaitsHeaders p rest)
    (ends : headerEnd rest = some blockEnd) (small : blockEnd ≤ kMaxHeaderBufSize)
    (code : (env.responseCode (headerText rest blockEnd)).tdiv 100 = 1) :
    ∃ q code, p.readResponseHeaders env = some (q, code) ∧ AwaitsHeaders q (rest.drop blockEnd) ∧
      q.headers = p.headers ++ [headerText rest blockEnd] ∧
      q.responseBodyLength = p.responseBodyLength ∧ q.responseBodyRead = p.responseBodyRead ∧
      q.chunkedDecoder = p.chunkedDecoder ∧ q.checkFailed = p.checkFailed := by
  obtain ⟨q, last, block, result, called⟩ := @AwaitsHeaders.call env p rest blockEnd waiting ends small
  have interim := @headersEnd_interim env (q.atEnd last blockEnd) last.length
    (blockEnd + q.readBufUnusedOffset) (by rw [atEnd_last, block.text]; exact code)
  rw [interim] at called
  refine ⟨_, result, called, ⟨block.holds.same rfl rfl rfl, rfl, rfl⟩, ?_, block.same.length,
    block.same.read, block.same.decoder, block.same.checked⟩
  rw [← block.text, ← block.same.headers]
  rfl

end HttpStreamParser

/-! How the parser reads a body: bytes pass through the user's buffer, and those behind the body
are put back. -/

namespace HttpStreamParser

variable {env : Exchange} {p : HttpStreamParser} {rest : List UInt8}

structure InBody (p : HttpStreamParser) (rest : List UInt8) : Prop where
  inside : p.readBufUnusedOffset ≤ p.readBuf.offset
  received : p.unused ++ p.socket.unread = rest
  fits : p.readBuf.offset ≤ p.readBuf.capacity
  few : p.available ≤ kMaxBufSize
  checked : p.checkFailed = false

/-- The user's buffer has `data` at its start, which `q` has taken from what `p` had left. Where
more bytes are in the parser's buffer, there is room for `data` in front of them. -/
structure Given (p q : HttpStreamParser) (data rest' : List UInt8) : Prop where
  left : InBody q rest'
  there : q.userReadBuf.take data.length = data
  size : q.userReadBuf.length = p.userReadBuf.length
  short : data.length ≤ p.userReadBuf.length
  back : q.available = 0 ∨ data.length ≤ q.readBufUnusedOffset
  saved : data.length + q.available ≤ kMaxBufSize
  same : SameBody p q
  fewer : data.length + (q.available + q.socket.unread.length) = p.available + p.socket.unread.length

theorem emptied_unused (p : HttpStreamParser) : (p.emptied env).available = 0 := by
  rw [available, emptied]
  exact Nat.min_le_right _ _ |> Nat.le_zero.mp

theorem giveUser_take {data : List UInt8} :
    (p.giveUser data).userReadBuf.take data.length = data := take_left' rfl

theorem giveUser_length {data : List UInt8} (short : data.length ≤ p.userReadBuf.length) :
    (p.giveUser data).userReadBuf.length = p.userReadBuf.length := by
  rw [giveUser, length_append, length_drop]
  omega

theorem available_nil (none_there : p.available = 0) : p.unused = [] := by
  rw [unused, none_there]
  rfl

theorem InBody.fromBuffer (body : InBody p rest) {count : Nat} (few : count ≤ p.available)
    (short : count ≤ p.userReadBuf.length) (some_bytes : 0 < count) :
    ∃ data rest', rest = data ++ rest' ∧ data.length = count ∧
      data = bytesAt p.readBuf.memory p.readBufUnusedOffset count ∧
      (∀ q, q = { p.giveUser data with
          ioState := .readBodyComplete
          readBufUnusedOffset := p.readBufUnusedOffset + count } →
        Given p q data rest' ∧ (count = p.available → Given p (q.emptied env) data rest')) := by
  obtain ⟨inside, received, fits, limit, checked⟩ := body
  obtain ⟨more, parts⟩ := Nat.exists_eq_add_of_le few
  let data := bytesAt p.readBuf.memory p.readBufUnusedOffset count
  let left := bytesAt p.readBuf.memory (p.readBufUnusedOffset + count) more
  have size : data.length = count := bytesAt_length ..
  have split_bytes : p.unused = data ++ left := by rw [unused, parts, bytesAt_add]
  refine ⟨data, left ++ p.socket.unread, ?_, size, rfl, ?_⟩
  · rw [← received, split_bytes, append_assoc]
  rintro q rfl
  have left_size : ({ p.giveUser data with
      ioState := .readBodyComplete
      readBufUnusedOffset := p.readBufUnusedOffset + count } : HttpStreamParser).available = more := by
    simp only [available, giveUser] at parts ⊢
    omega
  have left_bytes : ({ p.giveUser data with
      ioState := .readBodyComplete
      readBufUnusedOffset := p.readBufUnusedOffset + count } : HttpStreamParser).unused = left := by
    rw [unused, left_size]
    rfl
  have user_size := @giveUser_length p data (by rw [size]; exact short)
  constructor
  · refine ⟨⟨?_, ?_, fits, ?_, checked⟩, giveUser_take, user_size, by rw [size]; exact short,
      .inr ?_, ?_, ⟨rfl, rfl, rfl, rfl, rfl⟩, ?_⟩
    · simp only [available, giveUser] at few ⊢
      omega
    · rw [left_bytes]
      rfl
    · rw [left_size]
      omega
    · rw [size]
      exact Nat.le_add_left _ _
    · rw [left_size, size]
      omega
    · rw [left_size, size]
      simp only [giveUser]
      omega
  · intro all
    have none_more : more = 0 := by omega
    have nothing : left = [] := by
      simp only [left, none_more]
      rfl
    have empty := @emptied_unused env ({ p.giveUser data with
      ioState := .readBodyComplete
      readBufUnusedOffset := p.readBufUnusedOffset + count } : HttpStreamParser)
    refine ⟨⟨Nat.zero_le _, ?_, Nat.min_le_right _ _, ?_, checked⟩, giveUser_take, user_size,
      by rw [size]; exact short, .inl empty, ?_, ⟨rfl, rfl, rfl, rfl, rfl⟩, ?_⟩
    · rw [available_nil empty, nothing]
      rfl
    · rw [empty]
      exact Nat.zero_le _
    · rw [empty, size]
      omega
    · rw [empty, size]
      simp only [emptied, giveUser]
      omega

theorem InBody.fromSocket (body : InBody p rest) (none_there : p.available = 0) (some_left : rest ≠ [])
    (room : 0 < p.userReadBuf.length) (limit : p.userReadBuf.length ≤ kMaxBufSize) :
    ∃ data rest', rest = data ++ rest' ∧ 0 < data.length ∧
      (p.socket.read p.userReadBuf.length).2.1 = data.length ∧
      Given p { p.giveUser (p.socket.read p.userReadBuf.length).1 with
        ioState := .readBodyComplete
        socket := (p.socket.read p.userReadBuf.length).2.2 } data rest' := by
  obtain ⟨inside, received, fits, few, checked⟩ := body
  have nothing := available_nil none_there
  rw [nothing, nil_append] at received
  obtain ⟨split_bytes, short, outcome⟩ := p.socket.read_spec room
  generalize p.socket.read p.userReadBuf.length = got at split_bytes short outcome ⊢
  obtain ⟨data, size, socket⟩ := got
  dsimp only at split_bytes short outcome ⊢
  rcases outcome with ⟨positive, counted⟩ | ⟨closed, _, _⟩
  · refine ⟨data, socket.unread, by rw [split_bytes, received], positive, counted,
      ⟨inside, ?_, fits, few, checked⟩, giveUser_take, giveUser_length short, short, .inl none_there,
      ?_, ⟨rfl, rfl, rfl, rfl, rfl⟩, ?_⟩
    · exact congrArg (· ++ socket.unread) nothing
    · have same : ({ p.giveUser data with
          ioState := .readBodyComplete
          socket := socket } : HttpStreamParser).available = 0 := none_there
      rw [same]
      omega
    · rw [← split_bytes, length_append]
      simp only [available, giveUser]
      omega
  · exact absurd (received.symm.trans closed) some_left

theorem InBody.read (body : InBody p rest) (some_left : rest ≠ [])
    (open_body : p.isResponseBodyComplete = false) (room : 0 < p.userReadBuf.length)
    (limit : p.userReadBuf.length ≤ kMaxBufSize) :
    ∃ data rest', rest = data ++ rest' ∧ 0 < data.length ∧ (p.doReadBody env).2 = data.length ∧
      (p.doReadBody env).1.ioState = .readBodyComplete ∧
      Given p (p.doReadBody env).1 data rest' := by
  by_cases buffered : p.readBuf.offset ≠ 0 ∧ p.available ≠ 0
  · obtain ⟨data, rest', parts, size, there, given⟩ :=
      @InBody.fromBuffer env p rest body (min p.available p.userReadBuf.length) (Nat.min_le_left ..)
        (Nat.min_le_right ..) (by omega)
    have ran : p.doReadBody env = (if min p.available p.userReadBuf.length = p.available then
          ({ p.giveUser data with
            ioState := .readBodyComplete
            readBufUnusedOffset := p.readBufUnusedOffset +
              min p.available p.userReadBuf.length } : HttpStreamParser).emptied env
        else { p.giveUser data with
          ioState := .readBodyComplete
          readBufUnusedOffset := p.readBufUnusedOffset + min p.available p.userReadBuf.length },
        ((min p.available p.userReadBuf.length : Nat) : Int)) := by
      rw [there]
      exact if_pos buffered
    obtain ⟨partly, wholly⟩ := given _ rfl
    refine ⟨data, rest', parts, by omega, ?_, ?_, ?_⟩
    · rw [ran, size]
    · rw [ran]
      dsimp only
      split
      · rfl
      · rfl
    · rw [ran]
      dsimp only
      split
      · rename_i all
        exact wholly all
      · exact partly
  · obtain ⟨q, prepared⟩ : ∃ q, q = (if p.readBuf.offset ≠ 0 then
        ({ p with ioState := .readBodyComplete } : HttpStreamParser).emptied env
      else { p with ioState := .readBodyComplete }) := ⟨_, rfl⟩
    have none_there : p.available = 0 := by
      by_contra some_there
      refine buffered ⟨?_, some_there⟩
      intro zero
      simp only [available, zero] at some_there
      omega
    have empty : q.available = 0 := by
      rw [prepared]
      split
      · exact emptied_unused _
      · exact none_there
    have user : q.userReadBuf = p.userReadBuf ∧ q.socket = p.socket ∧ SameBody p q ∧
        q.ioState = .readBodyComplete ∧ q.readBufUnusedOffset ≤ q.readBuf.offset ∧
        q.readBuf.offset ≤ q.readBuf.capacity := by
      rw [prepared]
      split
      · exact ⟨rfl, rfl, ⟨rfl, rfl, rfl, rfl, rfl⟩, rfl, Nat.zero_le _, Nat.min_le_right _ _⟩
      · exact ⟨rfl, rfl, ⟨rfl, rfl, rfl, rfl, rfl⟩, rfl, body.inside, body.fits⟩
    obtain ⟨same_user, same_socket, same, state, inside, fits⟩ := user
    have q_body : InBody q rest := by
      refine ⟨inside, ?_, fits, by rw [empty]; exact Nat.zero_le _, same.checked.trans body.checked⟩
      rw [available_nil empty, same_socket, ← body.received, available_nil none_there]
    have q_open : q.isResponseBodyComplete = false := by
      rw [isResponseBodyComplete, same.decoder, same.length, same.read]
      exact open_body
    obtain ⟨data, rest', parts, positive, size, given⟩ :=
      q_body.fromSocket empty some_left (by rw [same_user]; exact room) (by rw [same_user]; exact limit)
    have ran : p.doReadBody env = ({ q.giveUser (q.socket.read q.userReadBuf.length).1 with
          ioState := .readBodyComplete
          socket := (q.socket.read q.userReadBuf.length).2.2 },
        (q.socket.read q.userReadBuf.length).2.1) := by
      have step : p.doReadBody env = if q.isResponseBodyComplete then (q, 0) else
          ({ q.giveUser (q.socket.read q.userReadBuf.length).1 with
            socket := (q.socket.read q.userReadBuf.length).2.2 },
          (q.socket.read q.userReadBuf.length).2.1) := by
        rw [prepared]
        exact if_neg buffered
      rw [step, q_open, if_neg Bool.false_ne_true]
      simp only [giveUser, state]
    refine ⟨data, rest', parts, positive, by rw [ran]; exact size, by rw [ran], ?_⟩
    rw [ran]
    obtain ⟨left, there, length, short, back, saved, given_same, fewer⟩ := given
    refine ⟨left, there, length.trans (congrArg _ same_user), by rw [← same_user]; exact short, back,
      saved, same.trans given_same, ?_⟩
    rw [fewer, empty, none_there, same_socket]

structure Finished (q : HttpStreamParser) (extra : List UInt8) : Prop where
  state : q.ioState = .done
  left : bytesAt q.readBuf.memory 0 q.readBuf.offset ++ q.socket.unread = extra
  checked : q.checkFailed = false

theorem InBody.saved (body : InBody p rest) {beyond : List UInt8} {result : Int}
    (there : (p.userReadBuf.drop result.toNat).take beyond.length = beyond)
    (back : p.available = 0 ∨ beyond.length ≤ p.readBufUnusedOffset)
    (limit : beyond.length + p.available ≤ kMaxBufSize) :
    Finished (p.saveOverflow env beyond.length result) (beyond ++ rest) := by
  obtain ⟨inside, received, fits, few, checked⟩ := body
  obtain ⟨readBuf, grown⟩ : ∃ readBuf, readBuf = if p.readBuf.capacity < beyond.length + p.available then
        p.readBuf.setCapacity env.heap (beyond.length + p.available)
      else p.readBuf := ⟨_, rfl⟩
  have ran : p.saveOverflow env beyond.length result = { p with
        ioState := .done
        readBuf := { (readBuf.put 0 beyond).put beyond.length
          (bytesAt (readBuf.put 0 beyond).memory p.readBufUnusedOffset p.available) with
          offset := beyond.length + p.available }
        readBufUnusedOffset := 0
        checkFailed := p.checkFailed || kMaxBufSize < beyond.length + p.available } := by
    rw [grown, saveOverflow]
    dsimp only
    rw [there]
  have kept : bytesAt (readBuf.put 0 beyond).memory p.readBufUnusedOffset p.available = p.unused := by
    rcases back with empty | room
    · rw [unused, empty]
      rfl
    · have not_grown : readBuf = p.readBuf := by
        rw [grown, if_neg]
        simp only [available] at limit ⊢
        omega
      rw [not_grown, unused]
      exact bytesAt_congr fun i small =>
        @copyTo_above p.readBuf.memory 0 (p.readBufUnusedOffset + i) beyond (by omega)
  rw [ran, kept]
  refine ⟨rfl, ?_, ?_⟩
  · rw [← received, ← append_assoc]
    refine congrArg (· ++ p.socket.unread) ?_
    have first : bytesAt ((readBuf.put 0 beyond).put beyond.length p.unused).memory 0
        beyond.length = beyond := by
      rw [GrowableIOBuffer.put_bytes_below (by omega)]
      exact bytesAt_copyTo _ 0 beyond
    have second : bytesAt ((readBuf.put 0 beyond).put beyond.length p.unused).memory (0 + beyond.length)
        p.unused.length = p.unused := by
      rw [Nat.zero_add]
      exact bytesAt_copyTo _ _ p.unused
    have both := bytesAt_append first second
    rw [length_append, unused_length] at both
    exact both
  · rw [checked]
    exact decide_eq_false (Nat.not_lt.mpr limit)

end HttpStreamParser

end Glopen.Http

import Glopen.Http.HttpStreamParser

/-! How the parser reads a header block: the bytes behind the headers that were used are the ones
that were received, whatever the buffer does. -/
namespace Glopen.Http

open Bytes List

namespace GrowableIOBuffer

variable {buf : GrowableIOBuffer} {heap : Nat → Memory}

theorem setCapacity_bytes {capacity a n : Nat} (kept : a + n ≤ min buf.capacity capacity) :
    bytesAt (buf.setCapacity heap capacity).memory a n = bytesAt buf.memory a n :=
  bytesAt_congr fun i small => if_pos (by omega)

theorem put_bytes_below {at_ a n : Nat} {bytes : List UInt8} (below : a + n ≤ at_) :
    bytesAt (buf.put at_ bytes).memory a n = bytesAt buf.memory a n :=
  bytesAt_congr fun i small => copyTo_below _ _ (by omega)

end GrowableIOBuffer

theorem Socket.read_spec (socket : Socket) {bufLen : Nat} (room : 0 < bufLen) :
    (socket.read bufLen).1 ++ (socket.read bufLen).2.2.unread = socket.unread ∧
    (socket.read bufLen).1.length ≤ bufLen ∧
    ((0 < (socket.read bufLen).1.length ∧ (socket.read bufLen).2.1 = (socket.read bufLen).1.length) ∨
      (socket.unread = [] ∧ (socket.read bufLen).1 = [] ∧ (socket.read bufLen).2.1 = -socket.failure)) := by
  cases more : socket.unread with
  | nil => simp [read, more]
  | cons b unread =>
    simp only [read, more]
    refine ⟨?_, ?_, .inl ⟨?_, trivial⟩⟩
    · rw [length_take, take_eq_take_min, take_append_drop]
    · rw [length_take]
      omega
    · rw [length_take, length_cons]
      omega

namespace HttpStreamParser

variable {env : Exchange} {p : HttpStreamParser} {rest data : RawText}

@[simp] theorem unused_length (p : HttpStreamParser) : p.unused.length = p.available :=
  bytesAt_length ..

/-- What the buffer and the socket have of the bytes behind the last headers. The `data` are
behind the offset of the buffer. -/
structure Holds (p : HttpStreamParser) (rest data : RawText) : Prop where
  inside : p.readBufUnusedOffset ≤ p.readBuf.offset
  received : p.unused ++ data ++ p.socket.unread = rest
  there : bytesAt p.readBuf.memory p.readBuf.offset data.length = data
  fits : p.readBuf.offset + data.length ≤ p.readBuf.capacity
  room : p.readBuf.capacity ≤ p.readBuf.offset + data.length + kHeaderBufInitialSize
  few : p.available + data.length ≤ kMaxHeaderBufSize + kHeaderBufInitialSize

structure Reading (p : HttpStreamParser) (rest data : RawText) : Prop extends Holds p rest data where
  start : p.responseHeaderStartOffset = locateStartOfStatusLine p.unused
  open_block : headerEnd p.unused = none
  small : p.available < kMaxHeaderBufSize

structure AwaitsHeaders (p : HttpStreamParser) (rest : RawText) : Prop extends Holds p rest [] where
  sent : p.ioState = .requestSent
  start : p.responseHeaderStartOffset = none

structure SameBody (p q : HttpStreamParser) : Prop where
  headers : q.headers = p.headers
  length : q.responseBodyLength = p.responseBodyLength
  read : q.responseBodyRead = p.responseBodyRead
  decoder : q.chunkedDecoder = p.chunkedDecoder
  checked : q.checkFailed = p.checkFailed

theorem SameBody.refl (p : HttpStreamParser) : SameBody p p := ⟨rfl, rfl, rfl, rfl, rfl⟩

theorem SameBody.trans {q r : HttpStreamParser} (first : SameBody p q) (second : SameBody q r) :
    SameBody p r where
  headers := second.headers.trans first.headers
  length := second.length.trans first.length
  read := second.read.trans first.read
  decoder := second.decoder.trans first.decoder
  checked := second.checked.trans first.checked

theorem new_waiting (env : Exchange) (socket : Socket) : AwaitsHeaders (new env socket) socket.unread where
  inside := Nat.le_refl 0
  received := rfl
  there := rfl
  fits := Nat.le_refl 0
  room := Nat.zero_le _
  few := Nat.zero_le _
  sent := rfl
  start := rfl

theorem AwaitsHeaders.begins (waiting : AwaitsHeaders p rest) :
    Reading p.beginHeaders.1 rest p.unused ∧ p.beginHeaders.2 = p.unused.length ∧ p.beginHeaders.1 = { p with
      ioState := if p.unused = [] then .readHeaders else .readHeadersComplete
      readBuf.offset := p.readBufUnusedOffset } := by
  obtain ⟨⟨inside, received, there, fits, room, few⟩, sent, start⟩ := waiting
  simp only [length_nil, Nat.add_zero, append_nil] at received fits room few
  have size : p.beginHeaders.2 = p.unused.length := by
    rw [unused_length, available, beginHeaders]
    dsimp only
    split
    · rfl
    · rename_i nothing
      have none_there : p.readBuf.offset - p.readBufUnusedOffset = 0 := by omega
      rw [none_there]
      rfl
  have begun : p.beginHeaders.1 = { p with
      ioState := if p.unused = [] then .readHeaders else .readHeadersComplete
      readBuf.offset := p.readBufUnusedOffset } := by
    have back : (if 0 < p.readBuf.offset then p.readBufUnusedOffset else p.readBuf.offset) =
        p.readBufUnusedOffset := by
      split
      · rfl
      · omega
    have positive : (0 < p.beginHeaders.2) ↔ ¬ p.unused = [] := by
      rw [size, Int.natCast_pos, length_pos_iff]
    rw [beginHeaders] at positive ⊢
    dsimp only at positive ⊢
    rw [back]
    by_cases empty : p.unused = []
    · rw [if_neg (by rw [positive, empty]; simp), if_pos empty]
    · rw [if_pos (by rw [positive]; exact empty), if_neg empty]
  refine ⟨?_, size, begun⟩
  rw [begun]
  have none_left : ({ p with
      ioState := if p.unused = [] then .readHeaders else .readHeadersComplete
      readBuf.offset := p.readBufUnusedOffset } : HttpStreamParser).unused = [] := by
    rw [unused, available, Nat.sub_self]
    rfl
  refine ⟨⟨Nat.le_refl _, ?_, ?_, ?_, ?_, ?_⟩, ?_, ?_, ?_⟩
  · rw [none_left]
    exact received
  · rw [unused_length]
    rfl
  · rw [unused_length, available]
    dsimp only
    omega
  · rw [unused_length, available]
    dsimp only
    omega
  · rw [unused_length]
    simp only [available] at few ⊢
    omega
  · rw [none_left]
    exact start
  · rw [none_left]
    rfl
  · rw [available, Nat.sub_self]
    decide

theorem Reading.read (reading : Reading p rest []) : ∃ data, Reading (p.doReadHeaders env).1 rest data ∧
      ((0 < data.length ∧ (p.doReadHeaders env).2 = data.length ∧
        (p.doReadHeaders env).1.socket.unread.length + data.length = p.socket.unread.length) ∨
        (data = [] ∧ (p.doReadHeaders env).1.socket.unread = [] ∧ (p.doReadHeaders env).2 ≤ 0)) ∧
      (p.doReadHeaders env).1.ioState = .readHeadersComplete ∧
      SameBody p (p.doReadHeaders env).1 := by
  obtain ⟨⟨inside, received, there, fits, room, few⟩, start, open_block, small⟩ := reading
  simp only [length_nil, Nat.add_zero, append_nil] at received fits room few
  obtain ⟨readBuf, grown⟩ : ∃ readBuf, readBuf = if p.readBuf.remainingCapacity = 0 then
        p.readBuf.setCapacity env.heap (p.readBuf.capacity + kHeaderBufInitialSize)
      else p.readBuf := ⟨_, rfl⟩
  have same_offset : readBuf.offset = p.readBuf.offset := by
    rw [grown]
    split
    · exact Nat.min_eq_left (by omega)
    · rfl
  have some_room : 0 < readBuf.remainingCapacity ∧ readBuf.remainingCapacity ≤ kHeaderBufInitialSize := by
    rw [GrowableIOBuffer.remainingCapacity, same_offset, grown, GrowableIOBuffer.remainingCapacity]
    by_cases full : p.readBuf.capacity - p.readBuf.offset = 0
    · rw [if_pos full]
      simp only [GrowableIOBuffer.setCapacity, kHeaderBufInitialSize] at room ⊢
      omega
    · rw [if_neg full]
      omega
  have same_bytes : bytesAt readBuf.memory p.readBufUnusedOffset p.available = p.unused := by
    rw [unused, grown]
    split
    · refine GrowableIOBuffer.setCapacity_bytes ?_
      rw [available]
      omega
    · rfl
  have room_left : readBuf.offset + readBuf.remainingCapacity = readBuf.capacity := by
    have positive := some_room.1
    simp only [GrowableIOBuffer.remainingCapacity] at positive ⊢
    omega
  have result : p.doReadHeaders env = ({ p with
        ioState := .readHeadersComplete
        readBuf := readBuf.put readBuf.offset (p.socket.read readBuf.remainingCapacity).1
        socket := (p.socket.read readBuf.remainingCapacity).2.2 },
      (p.socket.read readBuf.remainingCapacity).2.1) := by
    rw [grown]
    rfl
  obtain ⟨split_bytes, short, outcome⟩ := p.socket.read_spec some_room.1
  generalize p.socket.read readBuf.remainingCapacity = got at result split_bytes short outcome
  obtain ⟨data, size, socket⟩ := got
  dsimp only at result split_bytes short outcome
  have new_unused : (p.doReadHeaders env).1.unused = p.unused := by
    rw [result, ← same_bytes]
    simp only [unused, available, GrowableIOBuffer.put, same_offset]
    exact bytesAt_congr fun i below => copyTo_below _ _ (by omega)
  have new_available : (p.doReadHeaders env).1.available = p.available := by
    rw [← unused_length, new_unused, unused_length]
  refine ⟨data, ⟨⟨?_, ?_, ?_, ?_, ?_, ?_⟩, ?_, ?_, ?_⟩, ?_, by rw [result],
    by rw [result]; exact ⟨rfl, rfl, rfl, rfl, rfl⟩⟩
  · rw [result]
    exact Nat.le_trans inside (Nat.le_of_eq same_offset.symm)
  · rw [new_unused, result, append_assoc, split_bytes, received]
  · rw [result]
    exact bytesAt_copyTo _ _ data
  · rw [result]
    simp only [GrowableIOBuffer.put]
    omega
  · rw [result]
    simp only [GrowableIOBuffer.put]
    omega
  · rw [new_available]
    omega
  · rw [new_unused, ← start, result]
  · rw [new_unused, open_block]
  · rw [new_available]
    exact small
  · rw [result]
    rcases outcome with ⟨positive, counted⟩ | ⟨nothing, no_data, failed⟩
    · refine .inl ⟨positive, counted, ?_⟩
      rw [← split_bytes, length_append, Nat.add_comm]
    · refine .inr ⟨no_data, ?_, ?_⟩
      · rw [no_data, nothing, nil_append] at split_bytes
        exact split_bytes
      · rw [failed]
        dsimp only
        omega

def taken (p : HttpStreamParser) (data : RawText) : HttpStreamParser :=
  { p with
    readBuf.offset := p.readBuf.offset + data.length
    responseHeaderStartOffset := locateStartOfStatusLine (p.unused ++ data) }

theorem Reading.taken_unused (reading : Reading p rest data) : (p.taken data).unused = p.unused ++ data := by
  have inside := reading.inside
  have size : (p.taken data).available = p.available + data.length := by
    simp only [taken, available]
    omega
  have next : p.readBufUnusedOffset + p.available = p.readBuf.offset := by
    simp only [available]
    omega
  rw [unused, size, bytesAt_add]
  simp only [taken]
  rw [next, reading.there]
  rfl

theorem Reading.parse (reading : Reading p rest data) :
    ({ p with readBuf.offset := p.readBuf.offset + data.length } : HttpStreamParser).parseResponseHeaders =
      match headerEnd (p.unused ++ data) with
      | none => (p.taken data, none)
      | some blockEnd =>
        ({ p.taken data with headers := p.headers ++ [headerText (p.unused ++ data) blockEnd] },
          some (blockEnd + p.readBufUnusedOffset)) := by
  have whole := reading.taken_unused
  have start : (p.responseHeaderStartOffset <|> locateStartOfStatusLine (p.unused ++ data)) =
      locateStartOfStatusLine (p.unused ++ data) := by
    rw [reading.start]
    cases located : locateStartOfStatusLine p.unused with
    | none => rfl
    | some start => rw [locateStart_append located]; rfl
  have same : ({ p with readBuf.offset := p.readBuf.offset + data.length } :
      HttpStreamParser).unused = p.unused ++ data := whole
  have as_taken : ({ p with
      readBuf.offset := p.readBuf.offset + data.length
      responseHeaderStartOffset := p.responseHeaderStartOffset <|> locateStartOfStatusLine
        ({ p with readBuf.offset := p.readBuf.offset + data.length } : HttpStreamParser).unused } :
      HttpStreamParser) = p.taken data := by
    rw [same, start]
    rfl
  have size : (p.taken data).available = (p.unused ++ data).length := by
    rw [← whole, unused_length]
  rw [parseResponseHeaders]
  dsimp only at as_taken same ⊢
  rw [as_taken, size, whole, same, start]
  change (match headerEnd (p.unused ++ data) with
    | none => (p.taken data, none)
    | some endOffset => ((p.taken data).doParseResponseHeaders endOffset,
        some (endOffset + p.readBufUnusedOffset))) = _
  cases ends : headerEnd (p.unused ++ data) with
  | none => rfl
  | some blockEnd =>
    have block_inside := headerEnd_length ends
    have block : bytesAt (p.taken data).readBuf.memory (p.taken data).readBufUnusedOffset blockEnd =
        (p.unused ++ data).take blockEnd := by
      obtain ⟨behind, split_size⟩ := Nat.exists_eq_add_of_le block_inside
      have parts := congrArg (List.take blockEnd) whole
      rw [unused, size, split_size, bytesAt_add, take_left' (bytesAt_length ..)] at parts
      exact parts
    simp only [doParseResponseHeaders, block]
    rfl

theorem Holds.same {q : HttpStreamParser} (holds : Holds p rest data) (readBuf : q.readBuf = p.readBuf)
    (offset : q.readBufUnusedOffset = p.readBufUnusedOffset) (socket : q.socket = p.socket) :
    Holds q rest data := by
  obtain ⟨inside, received, there, fits, room, few⟩ := holds
  have same_unused : q.unused = p.unused := by rw [unused, unused, available, available, readBuf, offset]
  have same_available : q.available = p.available := by rw [available, available, readBuf, offset]
  constructor
  · rw [readBuf, offset]
    exact inside
  · rw [same_unused, socket]
    exact received
  · rw [readBuf]
    exact there
  · rw [readBuf]
    exact fits
  · rw [readBuf]
    exact room
  · rw [same_available]
    exact few

theorem unused_drop {blockEnd : Nat} (inside : blockEnd ≤ p.available) :
    ({ p with readBufUnusedOffset := blockEnd + p.readBufUnusedOffset } : HttpStreamParser).unused =
      p.unused.drop blockEnd := by
  obtain ⟨behind, split_size⟩ := Nat.exists_eq_add_of_le inside
  have left : p.readBuf.offset - (blockEnd + p.readBufUnusedOffset) = behind := by
    simp only [available] at split_size
    omega
  rw [unused, unused, split_size, bytesAt_add, drop_left' (bytesAt_length ..), available]
  dsimp only
  rw [left, Nat.add_comm blockEnd]

section

variable (reading : Reading p rest data)
include reading

theorem Reading.taken_holds : Holds (p.taken data) rest [] := by
  have whole := reading.taken_unused
  have size : (p.taken data).available = p.available + data.length := by
    rw [← unused_length, whole, length_append, unused_length]
  obtain ⟨⟨inside, received, there, fits, room, few⟩, start, open_block, small⟩ := reading
  constructor
  · simp only [taken]
    omega
  · rw [whole, append_nil]
    exact received
  · rfl
  · exact fits
  · exact room
  · rw [size]
    exact few

theorem Reading.block_holds {blockEnd : Nat} (ends : headerEnd (p.unused ++ data) = some blockEnd) :
    Holds { p.taken data with readBufUnusedOffset := blockEnd + p.readBufUnusedOffset }
      (rest.drop blockEnd) [] := by
  have whole := reading.taken_unused
  have holds := reading.taken_holds
  have block_inside := headerEnd_length ends
  rw [← whole, unused_length] at block_inside
  have behind := unused_drop block_inside
  constructor
  · have inside := holds.inside
    simp only [available, taken] at block_inside inside ⊢
    omega
  · have received := holds.received
    rw [append_nil] at received ⊢
    refine Eq.trans (congrArg (· ++ p.socket.unread) behind) ?_
    rw [← received, drop_append_of_le_length (by rw [unused_length]; exact block_inside)]
    rfl
  · rfl
  · exact holds.fits
  · exact holds.room
  · have few := holds.few
    simp only [available, taken] at few ⊢
    omega

theorem Reading.complete (some_data : 0 < data.length) : p.doReadHeadersComplete env data.length =
      match headerEnd (p.unused ++ data) with
      | none =>
        if kMaxHeaderBufSize ≤ (p.taken data).available then
          ({ p.taken data with ioState := .done }, errResponseHeadersTooBig)
        else ({ p.taken data with ioState := .readHeaders }, data.length)
      | some blockEnd =>
        headersEnd env { p.taken data with headers := p.headers ++ [headerText (p.unused ++ data) blockEnd] }
          (blockEnd + p.readBufUnusedOffset) data.length := by
  have positive : (0 : Int) < data.length := by omega
  have not_closed : ¬ (data.length : Int) = errConnectionClosed := by
    rw [errConnectionClosed]
    omega
  unfold doReadHeadersComplete
  rw [if_neg (by omega : ¬ (data.length : Int) = 0)]
  dsimp only
  rw [if_neg (by omega), if_neg (fun closed => not_closed closed.1), if_neg not_closed,
    Int.toNat_natCast, reading.parse]
  cases headerEnd (p.unused ++ data) with
  | none => rfl
  | some blockEnd => rfl

theorem Reading.goes_on (open_block : headerEnd (p.unused ++ data) = none)
    (small : (p.taken data).available < kMaxHeaderBufSize) :
    Reading { p.taken data with ioState := .readHeaders } rest [] where
  toHolds := reading.taken_holds.same rfl rfl rfl
  start := congrArg locateStartOfStatusLine reading.taken_unused.symm
  open_block := (congrArg headerEnd reading.taken_unused).trans open_block
  small := small

end

end HttpStreamParser

end Glopen.Http

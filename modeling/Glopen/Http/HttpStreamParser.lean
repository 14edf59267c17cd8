import Glopen.Http.HeaderBlock
import Glopen.Lib.ByteMemory

/-! The reading half of http_stream_parser.cc. A read that is pending ends the loop, and the loop
goes on from the same state once the result is there: so a call is modelled with the results of
all its reads. -/
namespace Glopen.Http

open Bytes

def kHeaderBufInitialSize : Nat := 4096

def kMaxHeaderBufSize : Nat := 256 * 1024

def kMaxBufSize : Nat := 2 * 1024 * 1024

def errConnectionClosed : Int := -100

def errInvalidChunkedEncoding : Int := -321

def errEmptyResponse : Int := -324

def errResponseHeadersTooBig : Int := -325

/-- `memory` is what lies from `StartOfBuffer()` on, also behind the end of the buffer. -/
structure GrowableIOBuffer where
  memory : Memory
  capacity : Nat
  offset : Nat
  allocations : Nat

namespace GrowableIOBuffer

def remainingCapacity (buf : GrowableIOBuffer) : Nat := buf.capacity - buf.offset

/-- `realloc` keeps what both blocks have. -/
def setCapacity (heap : Nat → Memory) (capacity : Nat) (buf : GrowableIOBuffer) : GrowableIOBuffer where
  memory i := if i < min buf.capacity capacity then buf.memory i else heap buf.allocations i
  capacity := capacity
  offset := min buf.offset capacity
  allocations := buf.allocations + 1

def put (at_ : Nat) (bytes : List UInt8) (buf : GrowableIOBuffer) : GrowableIOBuffer :=
  { buf with memory := copyTo buf.memory at_ bytes }

def new (heap : Nat → Memory) : GrowableIOBuffer := ⟨heap 0, 0, 0, 1⟩

end GrowableIOBuffer

/-- The bytes that have not been read, how many more than one each read may return, and what a
read behind the last byte returns, with its sign turned: zero if the peer closed. -/
structure Socket where
  unread : List UInt8
  most : Nat → Nat
  failure : Nat

def Socket.read (socket : Socket) (bufLen : Nat) : List UInt8 × Int × Socket :=
  match socket.unread with
  | [] => ([], -socket.failure, socket)
  | unread =>
    let data := unread.take (min bufLen (socket.most 0 + 1))
    (data, data.length,
      { socket with unread := unread.drop data.length, most := fun i => socket.most (i + 1) })

inductive IoState where
  | requestSent | readHeaders | readHeadersComplete | bodyPending | readBody | readBodyComplete | done
deriving DecidableEq

def IoState.returns : IoState → Bool
  | requestSent | bodyPending | done => true
  | _ => false

/-- The allocator, the request and its connection, and what `HttpResponseHeaders` reads in a text:
`isChunked` also looks at the version. -/
structure Exchange where
  heap : Nat → Memory
  isHead : Bool
  shouldResend : Bool
  responseCode : RawText → Int
  isChunked : RawText → Bool
  contentLength : RawText → Int

/-- `headers` has the text of each headers object that was built. The user's buffer has the length
`user_read_buf_len_`. -/
structure HttpStreamParser where
  ioState : IoState
  readBuf : GrowableIOBuffer
  readBufUnusedOffset : Nat
  responseHeaderStartOffset : Option Nat
  responseBodyLength : Int
  responseBodyRead : Int
  chunkedDecoder : Option HttpChunkedDecoder
  userReadBuf : List UInt8
  socket : Socket
  headers : List RawText
  checkFailed : Bool

namespace HttpStreamParser

variable (env : Exchange) (p : HttpStreamParser)

def new (socket : Socket) : HttpStreamParser where
  ioState := .requestSent
  readBuf := .new env.heap
  readBufUnusedOffset := 0
  responseHeaderStartOffset := none
  responseBodyLength := -1
  responseBodyRead := 0
  chunkedDecoder := none
  userReadBuf := []
  socket := socket
  headers := []
  checkFailed := false

def available : Nat := p.readBuf.offset - p.readBufUnusedOffset

def unused : RawText := bytesAt p.readBuf.memory p.readBufUnusedOffset p.available

def isResponseBodyComplete : Bool :=
  match p.chunkedDecoder with
  | some decoder => decoder.reachedEof
  | none => p.responseBodyLength ≠ -1 && p.responseBodyLength ≤ p.responseBodyRead

def canFindEndOfResponse : Bool := p.chunkedDecoder.isSome || 0 ≤ p.responseBodyLength

def doReadHeaders : HttpStreamParser × Int :=
  let readBuf :=
    if p.readBuf.remainingCapacity = 0 then
      p.readBuf.setCapacity env.heap (p.readBuf.capacity + kHeaderBufInitialSize)
    else p.readBuf
  let (data, result, socket) := p.socket.read readBuf.remainingCapacity
  ({ p with ioState := .readHeadersComplete, readBuf := readBuf.put readBuf.offset data, socket }, result)

/-- `DoParseResponseHeaders`: the block begins behind the bytes that were used. -/
def doParseResponseHeaders (endOffset : Nat) : HttpStreamParser :=
  let headers :=
    if p.responseHeaderStartOffset.isSome then
      assembleRawHeaders (bytesAt p.readBuf.memory p.readBufUnusedOffset endOffset)
    else http09
  { p with headers := p.headers ++ [headers] }

/-- `ParseResponseHeaders`, with the offset where the headers end. -/
def parseResponseHeaders : HttpStreamParser × Option Nat :=
  let p := { p with responseHeaderStartOffset :=
    p.responseHeaderStartOffset <|> locateStartOfStatusLine p.unused }
  let endOffset :=
    match p.responseHeaderStartOffset with
    | some start => locateEndOfHeaders p.unused start
    | none => if 8 ≤ p.available then some 0 else none
  match endOffset with
  | none => (p, none)
  | some endOffset => (p.doParseResponseHeaders endOffset, some (endOffset + p.readBufUnusedOffset))

def calculateResponseBodySize (raw : RawText) : HttpStreamParser :=
  let code := env.responseCode raw
  let p := if code = 204 ∨ code = 205 ∨ code = 304 ∨ env.isHead then
    { p with responseBodyLength := 0 } else p
  if p.responseBodyLength = -1 then
    if env.isChunked raw then { p with chunkedDecoder := some .new }
    else { p with responseBodyLength := env.contentLength raw }
  else p

def keepExtraBytes : HttpStreamParser :=
  { p with
    ioState := .done
    readBuf := (p.readBuf.put 0 p.unused).setCapacity env.heap p.available
    readBufUnusedOffset := 0 }

def headersEnd (endOffset : Nat) (result : Int) : HttpStreamParser × Int :=
  let p := { p with readBufUnusedOffset := endOffset }
  let raw := p.headers.getLastD []
  if (env.responseCode raw).tdiv 100 = 1 then
    ({ p with ioState := .requestSent, responseHeaderStartOffset := none }, result)
  else
    let p := { p with ioState := .bodyPending }.calculateResponseBodySize env raw
    if p.responseBodyLength = 0 then (p.keepExtraBytes env, 0) else (p, result)

/-- The connection was closed before the end of the headers. Here the offset of the buffer is
taken for the length of the block. -/
def headersCut : HttpStreamParser :=
  if p.responseHeaderStartOffset.isSome then
    { p with ioState := .readBodyComplete }.doParseResponseHeaders p.readBuf.offset
  else { p with ioState := .bodyPending }.doParseResponseHeaders 0

def doReadHeadersComplete (result : Int) : HttpStreamParser × Int :=
  let result := if result = 0 then errConnectionClosed else result
  if result < 0 ∧ result ≠ errConnectionClosed then ({ p with ioState := .done }, result)
  else if result = errConnectionClosed ∧ p.readBuf.offset = 0 ∧ env.shouldResend then
    ({ p with ioState := .done }, result)
  else if result = errConnectionClosed then
    if p.readBuf.offset = 0 then ({ p with ioState := .done }, errEmptyResponse)
    else (p.headersCut, result)
  else
    let p := { p with readBuf.offset := p.readBuf.offset + result.toNat }
    match p.parseResponseHeaders with
    | (p, none) =>
      if kMaxHeaderBufSize ≤ p.available then ({ p with ioState := .done }, errResponseHeadersTooBig)
      else ({ p with ioState := .readHeaders }, result)
    | (p, some endOffset) => p.headersEnd env endOffset result

def emptied : HttpStreamParser :=
  { p with readBuf := p.readBuf.setCapacity env.heap 0, readBufUnusedOffset := 0 }

def giveUser (data : List UInt8) : HttpStreamParser :=
  { p with userReadBuf := data ++ p.userReadBuf.drop data.length }

def doReadBody : HttpStreamParser × Int :=
  let p := { p with ioState := .readBodyComplete }
  if p.readBuf.offset ≠ 0 ∧ p.available ≠ 0 then
    let bytesFromBuffer : Nat := min p.available p.userReadBuf.length
    let q := { p.giveUser (bytesAt p.readBuf.memory p.readBufUnusedOffset bytesFromBuffer) with
      readBufUnusedOffset := p.readBufUnusedOffset + bytesFromBuffer }
    (if bytesFromBuffer = p.available then q.emptied env else q, bytesFromBuffer)
  else
    let p := if p.readBuf.offset ≠ 0 then p.emptied env else p
    if p.isResponseBodyComplete then (p, 0)
    else
      let (data, result, socket) := p.socket.read p.userReadBuf.length
      ({ p.giveUser data with socket }, result)

/-- The overflow data is saved: what is left over in the user's buffer, in front of what is left
in the parser's. -/
def saveOverflow (saveAmount : Nat) (result : Int) : HttpStreamParser :=
  let additionalSaveAmount := p.available
  let total := saveAmount + additionalSaveAmount
  let readBuf := if p.readBuf.capacity < total then p.readBuf.setCapacity env.heap total else p.readBuf
  let readBuf := readBuf.put 0 ((p.userReadBuf.drop result.toNat).take saveAmount)
  let readBuf := readBuf.put saveAmount
    (bytesAt readBuf.memory p.readBufUnusedOffset additionalSaveAmount)
  { p with
    ioState := .done
    readBuf := { readBuf with offset := total }
    readBufUnusedOffset := 0
    checkFailed := p.checkFailed || kMaxBufSize < total }

def bodyEnds (result : Int) : HttpStreamParser × Int :=
  match p.chunkedDecoder with
  | some decoder => (p.saveOverflow env decoder.bytesAfterEof result, result)
  | none =>
    let extraDataRead := p.responseBodyRead - p.responseBodyLength
    if 0 ≤ p.responseBodyLength ∧ 0 < extraDataRead then
      let result := if 0 < result then result - extraDataRead else result
      (p.saveOverflow env extraDataRead.toNat result, result)
    else (p.saveOverflow env 0 result, result)

/-- The rest of `DoReadBodyComplete`, behind the filter. -/
def bodyRead (result : Int) : HttpStreamParser × Int :=
  let p := if 0 < result then { p with responseBodyRead := p.responseBodyRead + result } else p
  if result ≤ 0 ∨ p.isResponseBodyComplete then p.bodyEnds env result
  else ({ p with ioState := .bodyPending }, result)

def doReadBodyComplete (result : Int) : HttpStreamParser × Int :=
  let result := if result = 0 ∧ !p.isResponseBodyComplete ∧ p.canFindEndOfResponse then
    errConnectionClosed else result
  match p.chunkedDecoder with
  | none => p.bodyRead env result
  | some decoder =>
    if result ≤ 0 then p.bodyRead env result
    else
      match filterBuf decoder (p.userReadBuf.take result.toNat) with
      | none => (p, result)
      | some filtered =>
        let p := { p with
          userReadBuf := filtered.memory ++ p.userReadBuf.drop result.toNat
          chunkedDecoder := some filtered.decoder }
        match filtered.result with
        | none => p.bodyRead env errInvalidChunkedEncoding
        | some size =>
          if size = 0 ∧ !filtered.decoder.reachedEof then ({ p with ioState := .readBody }, 0)
          else p.bodyRead env size

/-- One turn of `DoLoop`. -/
def pass (result : Int) : HttpStreamParser × Int :=
  match p.ioState with
  | .readHeaders => p.doReadHeaders env
  | .readHeadersComplete => p.doReadHeadersComplete env result
  | .readBody => p.doReadBody env
  | .readBodyComplete => p.doReadBodyComplete env result
  | _ => (p, result)

/-- `DoLoop`, with a bound on its turns. -/
def doLoop : Nat → HttpStreamParser → Int → Option (HttpStreamParser × Int)
  | 0, p, result => if p.ioState.returns then some (p, result) else none
  | turns + 1, p, result =>
    if p.ioState.returns then some (p, result)
    else
      let (p, result) := p.pass env result
      doLoop turns p result

def turns : Nat := 2 * (p.available + p.socket.unread.length) + 5

/-- `ReadResponseHeaders` up to its loop. -/
def beginHeaders : HttpStreamParser × Int :=
  let result : Int := if 0 < p.readBuf.offset then p.available else 0
  let p := { p with
    ioState := if 0 < result then .readHeadersComplete else .readHeaders
    readBuf.offset := if 0 < p.readBuf.offset then p.readBufUnusedOffset else p.readBuf.offset }
  (p, result)

def readResponseHeaders : Option (HttpStreamParser × Int) :=
  if p.ioState = .done then some (p, errConnectionClosed)
  else
    let (q, result) := p.beginHeaders
    (doLoop env p.turns q result).map fun (q, result) => (q, if 0 < result then 0 else result)

/-- `ReadResponseBody` up to its loop. -/
def beginBody (buf : List UInt8) : HttpStreamParser :=
  { p with ioState := .readBody, userReadBuf := buf }

def readResponseBody (buf : List UInt8) : Option (HttpStreamParser × Int) :=
  if p.ioState = .done then some (p, 0) else doLoop env p.turns (p.beginBody buf) 0

end HttpStreamParser

end Glopen.Http

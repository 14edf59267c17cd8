import Mathlib.Algebra.Group.Nat.Defs
import Mathlib.Data.List.Basic

/-! `net/websockets/websocket.cc`. The handshake and the socket stream are parameters; the tasks of the
origin loop, the calls of the delegate and of the stream are events. -/
namespace Glopen.WebSockets

abbrev Bytes := List UInt8

inductive ReadyState where
  | initialized | connecting | open | closing | closed
deriving DecidableEq

inductive ProtocolVersion where
  | defaultVersion | draft75
deriving DecidableEq

/-- A `GrowableIOBuffer` and the part of it that is processed: `data` is what lies before the offset. -/
structure ReadBuffer where
  capacity : Nat
  data : Bytes
  consumed : Nat
deriving DecidableEq

structure DrainableIOBuffer where
  base : Bytes
  used : Nat
deriving DecidableEq

inductive Task where
  | sendPending | doReceivedData | startClosingHandshake | failConnection | doClose
  | doSocketError (error : Int)
deriving DecidableEq

inductive Event where
  | onOpen
  | onMessage (msg : Bytes)
  | onError
  | onClose (wasClean : Bool)
  | onSocketError (error : Int)
  | connectStream
  | sendData (data : Bytes)
  | closeStream
  | post (task : Task)
deriving DecidableEq

structure WebSocket where
  readyState : ReadyState
  version : ProtocolVersion
  handshake : Bool
  delegate : Bool
  socketStream : Bool
  maxPendingSendAllowed : Nat
  readBuf : ReadBuffer
  currentWriteBuf : Option DrainableIOBuffer
  pendingWriteBufs : List Bytes
  serverClosingHandshake : Bool
  clientClosingHandshake : Bool
  closingHandshakeStarted : Bool
  forceCloseTask : Bool

namespace ReadBuffer

def remainingCapacity (buf : ReadBuffer) : Int := buf.capacity - buf.data.length

/-- `AddToReadBuffer`. -/
def add (data : Bytes) (buf : ReadBuffer) : ReadBuffer :=
  let buf :=
    if (data.length : Int) ≥ buf.remainingCapacity then
      { buf with capacity := buf.data.length + data.length }
    else buf
  { buf with data := buf.data ++ data }

/-- `SkipReadBuffer`. -/
def skip (len : Nat) (buf : ReadBuffer) : ReadBuffer :=
  if len = 0 then buf
  else
    let buf := { buf with consumed := buf.consumed + len }
    let remaining := buf.data.length - buf.consumed
    if remaining < buf.consumed && buf.remainingCapacity < buf.consumed then
      { buf with data := (buf.data.drop buf.consumed).take remaining, consumed := 0 }
    else buf

def unread (buf : ReadBuffer) : Bytes := buf.data.drop buf.consumed

end ReadBuffer

namespace DrainableIOBuffer

def bytesRemaining (buf : DrainableIOBuffer) : Nat := buf.base.length - buf.used

def data (buf : DrainableIOBuffer) : Bytes := buf.base.drop buf.used

def didConsume (bytes : Nat) (buf : DrainableIOBuffer) : DrainableIOBuffer :=
  { buf with used := buf.used + bytes }

end DrainableIOBuffer

def kClosingFrame : Bytes := [255, 0]

def frame (msg : Bytes) : Bytes := 0 :: msg ++ [255]

namespace WebSocket

def new (version : ProtocolVersion) : WebSocket where
  readyState := .initialized
  version
  handshake := false
  delegate := true
  socketStream := false
  maxPendingSendAllowed := 0
  readBuf := ⟨0, [], 0⟩
  currentWriteBuf := none
  pendingWriteBufs := []
  serverClosingHandshake := false
  clientClosingHandshake := false
  closingHandshakeStarted := false
  forceCloseTask := false

def submit (buf : DrainableIOBuffer) (ws : WebSocket) : WebSocket × List Event :=
  ({ ws with currentWriteBuf := some buf },
    [.sendData (buf.data.take (min buf.bytesRemaining ws.maxPendingSendAllowed))])

/-- The delayed task that forces the close is the field `forceCloseTask`. -/
def sendPending (ws : WebSocket) : WebSocket × List Event :=
  if !ws.socketStream then (ws, [])
  else
    match ws.currentWriteBuf with
    | some buf => ws.submit buf
    | none =>
      match ws.pendingWriteBufs with
      | [] =>
        if ws.clientClosingHandshake then
          if ws.serverClosingHandshake then
            ({ ws with closingHandshakeStarted := true }, [.closeStream])
          else ({ ws with closingHandshakeStarted := true, forceCloseTask := true }, [])
        else (ws, [])
      | front :: _ => ws.submit ⟨front, 0⟩

def connect (ws : WebSocket) : WebSocket × List Event :=
  ({ ws with socketStream := true, readyState := .connecting }, [.connectStream])

def send (msg : Bytes) (ws : WebSocket) : WebSocket × List Event :=
  if ws.readyState = .closing || ws.readyState = .closed then (ws, [])
  else if ws.clientClosingHandshake then (ws, [])
  else { ws with pendingWriteBufs := ws.pendingWriteBufs ++ [frame msg] }.sendPending

def close (ws : WebSocket) : WebSocket × List Event :=
  if ws.readyState = .initialized then ({ ws with readyState := .closed }, [])
  else if ws.readyState = .closing || ws.readyState = .closed then (ws, [])
  else if ws.version = .draft75 then (ws, [.closeStream])
  else
    ({ ws with readyState := .closing },
      (if ws.readyState = .connecting then [.post .failConnection] else []) ++
        if !ws.closingHandshakeStarted then [.post .startClosingHandshake] else [])

def detachDelegate (ws : WebSocket) : WebSocket × List Event :=
  if !ws.delegate then (ws, [])
  else
    let ws := { ws with delegate := false }
    if ws.readyState = .initialized then ({ ws with readyState := .closed }, [])
    else if ws.readyState ≠ .closed then (ws, [.closeStream])
    else (ws, [])

/-- `msg` is what `CreateClientHandshakeMessage` returns. -/
def onConnected (msg : Bytes) (maxPendingSendAllowed : Nat) (ws : WebSocket) : WebSocket × List Event :=
  ({ ws with
      maxPendingSendAllowed
      readBuf := ⟨maxPendingSendAllowed, [], 0⟩
      handshake := true
      pendingWriteBufs := ws.pendingWriteBufs ++ [msg] }, [.post .sendPending])

/-- `none`: there is no current buffer. -/
def onSentData (amountSent : Nat) (ws : WebSocket) : Option (WebSocket × List Event) :=
  ws.currentWriteBuf.map fun buf =>
    let buf := buf.didConsume amountSent
    (if buf.bytesRemaining = 0 then
      { ws with currentWriteBuf := none, pendingWriteBufs := ws.pendingWriteBufs.tail }
    else { ws with currentWriteBuf := some buf }, [.post .sendPending])

def startClosingHandshake (ws : WebSocket) : WebSocket × List Event :=
  if ws.closingHandshakeStarted || ws.clientClosingHandshake then (ws, [])
  else { ws with
      clientClosingHandshake := true
      pendingWriteBufs := ws.pendingWriteBufs ++ [kClosingFrame] }.sendPending

def failConnection (ws : WebSocket) : WebSocket × List Event :=
  if !ws.socketStream then (ws, []) else (ws, [.closeStream])

def doForceCloseConnection (ws : WebSocket) : WebSocket × List Event :=
  { ws with forceCloseTask := false }.failConnection

def doClose (ws : WebSocket) : WebSocket × List Event :=
  let closed := { ws with
    forceCloseTask := false, delegate := false, readyState := .closed, socketStream := false }
  (closed, if ws.socketStream && ws.delegate then
    [.onClose (ws.serverClosingHandshake && ws.closingHandshakeStarted)] else [])

def doSocketError (error : Int) (ws : WebSocket) : WebSocket × List Event :=
  (ws, if ws.delegate then [.onSocketError error] else [])

/-- The loop over the length bytes: the length and the bytes behind them; `none`: it overflows. -/
def readLength : Nat → Bytes → Option (Nat × Bytes)
  | length, [] => some (length, [])
  | length, c :: rest =>
    if length > (2 ^ 31 - 1) / 128 then none
    else
      let length := length * 128 + (c &&& 0x7f).toNat
      if c &&& 0x80 ≠ 0x80 then some (length, rest) else readLength length rest

inductive Outcome where
  | waits | overflow | closingFrame
deriving DecidableEq

/-- `while (p < end)`, with a bound on the passes: the calls of the delegate, and the bytes from
`next_frame` on. -/
def processFrames (version : ProtocolVersion) (delegate : Bool) :
    Nat → Bytes → List Event × Bytes × Outcome
  | 0, data => ([], data, .waits)
  | _, [] => ([], [], .waits)
  | fuel + 1, frameByte :: rest =>
    if frameByte &&& 0x80 = 0x80 then
      match readLength 0 rest with
      | none => ([], frameByte :: rest, .overflow)
      | some (length, body) =>
        if length < body.length then
          if version ≠ .draft75 && frameByte = 0xff && length = 0 then
            ([], body.drop length, .closingFrame)
          else
            let (events, left, outcome) := processFrames version delegate fuel (body.drop length)
            ((if delegate then [.onError] else []) ++ events, left, outcome)
        else ([], frameByte :: rest, .waits)
    else
      let msg := rest.takeWhile (· ≠ 0xff)
      match rest.drop msg.length with
      | [] => ([], frameByte :: rest, .waits)
      | _ :: next =>
        let (events, left, outcome) := processFrames version delegate fuel next
        ((if delegate then [if frameByte = 0 then .onMessage msg else .onError] else []) ++ events,
          left, outcome)

def processFrameData (ws : WebSocket) : WebSocket × List Event :=
  if ws.serverClosingHandshake then (ws, [])
  else
    let unread := ws.readBuf.unread
    match processFrames ws.version ws.delegate unread.length unread with
    | (events, _, .overflow) => (ws, events ++ [.closeStream])
    | (events, _, .closingFrame) =>
      ({ ws with serverClosingHandshake := true }, events ++
        if !ws.closingHandshakeStarted then [.post .startClosingHandshake] else [.closeStream])
    | (events, left, .waits) =>
      ({ ws with readBuf := ws.readBuf.skip (unread.length - left.length) }, events)

def onReceivedData (data : Bytes) (ws : WebSocket) : WebSocket × List Event :=
  ({ ws with readBuf := ws.readBuf.add data }, [.post .doReceivedData])

/-- `readServerHandshake` gives the length of the handshake, if it is there, and whether the mode is
connected then. -/
def doReceivedData (readServerHandshake : Bytes → Option (Nat × Bool)) (ws : WebSocket) :
    WebSocket × List Event :=
  match ws.readyState with
  | .connecting =>
    match readServerHandshake ws.readBuf.unread with
    | none => (ws, [])
    | some (eoh, connected) =>
      let ws := { ws with readBuf := ws.readBuf.skip eoh }
      if !connected then (ws, [.closeStream])
      else
        let ws := { ws with readyState := .open }
        let opened := if ws.delegate then [.onOpen] else []
        if ws.readBuf.unread = [] then (ws, opened)
        else
          let (ws, events) := ws.processFrameData
          (ws, opened ++ events)
  | .open | .closing => ws.processFrameData
  | .closed | .initialized => (ws, [])

end WebSocket

end Glopen.WebSockets

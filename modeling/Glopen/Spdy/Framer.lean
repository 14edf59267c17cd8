import Glopen.Lib.Feeding

/-! The framer of spdy_framer.cc: a state machine that takes frames out of a stream of bytes and
reports them to a visitor. -/
namespace Glopen.Spdy

open Feeding

def kControlFrameBufferInitialSize : Nat := 32 * 1024
def kControlFrameBufferMaxSize : Nat := 64 * 1024
def kSpdyProtocolVersion : Nat := 1
def kControlFlagMask : Nat := 0x8000
def kStreamIdMask : Nat := 0x7fffffff

/-- `SpdyFrame::size()`. -/
def frameSize : Nat := 8

def controlFlagFin : Nat := 1
def dataFlagFin : Nat := 1
def dataFlagCompressed : Nat := 2

inductive SpdyState where
  | error
  | done
  | reset
  | autoReset
  | readingCommonHeader
  | interpretControlFrameCommonHeader
  | controlFramePayload
  | ignoreRemainingPayload
  | forwardStreamFrame
deriving DecidableEq

inductive SpdyError where
  | noError
  | invalidControlFrame
  | controlPayloadTooLarge
  | zlibInitFailure
  | unsupportedVersion
  | decompressFailure
  | compressFailure
deriving DecidableEq

inductive Event where
  | onError (errorCode : SpdyError)
  | onControl (frame : List UInt8)
  | onStreamFrameData (streamId : Nat) (data : List UInt8)
deriving DecidableEq

/-- What `inflate` returns and leaves: whether it was `Z_OK`, and the input not taken. -/
structure Inflated (Stream : Type) where
  ok : Bool
  availIn : Nat
  output : List UInt8
  stream : Stream

structure Zlib where
  Stream : Type
  inflateInit : Option Stream
  inflate : Stream → List UInt8 → Nat → Inflated Stream

/-- Memory from `current_frame_buffer_` on. -/
abbrev Buffer := Nat → UInt8

namespace Buffer

variable (buffer : Buffer)

def write (offset : Nat) (data : List UInt8) : Buffer := fun i =>
  if offset ≤ i then data[i - offset]?.getD (buffer i) else buffer i

def read (count : Nat) : List UInt8 := (List.range count).map buffer

/-- `ntohs`. -/
def word16 (offset : Nat) : Nat := (buffer offset).toNat * 256 + (buffer (offset + 1)).toNat

/-- `ntohl`. -/
def word32 (offset : Nat) : Nat := buffer.word16 offset * 65536 + buffer.word16 (offset + 2)

def isControlFrame : Bool := buffer.word16 0 &&& kControlFlagMask = kControlFlagMask

def version : Nat := buffer.word16 0 &&& 0x7fff

def type : Nat := buffer.word16 2

def flags : Nat := (buffer 4).toNat

def length : Nat := buffer.word32 4 &&& 0xffffff

def dataStreamId : Nat := buffer.word32 0 &&& kStreamIdMask

def replyStreamId : Nat := buffer.word32 8 &&& kStreamIdMask

def hasFlag (flag : Nat) : Bool := buffer.flags &&& flag ≠ 0

end Buffer

/-- `SpdyControlType`; the types from PING on that are not handled are left out. -/
def synStream : Nat := 1
def synReply : Nat := 2
def rstStream : Nat := 3
def settings : Nat := 4
def noop : Nat := 5
def goaway : Nat := 7
def numControlFrameTypes : Nat := 10

structure Framer (zlib : Zlib) where
  state : SpdyState
  errorCode : SpdyError
  remainingPayload : Nat
  remainingControlPayload : Nat
  currentFrameBuffer : Buffer
  currentFrameLen : Nat
  currentFrameCapacity : Nat
  /-- The number of buffers that were allocated. -/
  allocations : Nat
  streamDecompressors : Nat → Option zlib.Stream

section Framer

variable {zlib : Zlib} (fresh : Nat → Buffer)

def newFramer (zlib : Zlib) : Framer zlib where
  state := .reset
  errorCode := .noError
  remainingPayload := 0
  remainingControlPayload := 0
  currentFrameBuffer := fun _ => 0
  currentFrameLen := 0
  currentFrameCapacity := 0
  allocations := 0
  streamDecompressors := fun _ => none

/-- A new buffer has the contents `fresh` behind what is copied. -/
def expandControlFrameBuffer (framer : Framer zlib) (size : Nat) : Framer zlib :=
  if size < framer.currentFrameCapacity then framer
  else
    { framer with
      currentFrameBuffer := fun i =>
        if i < framer.currentFrameLen then framer.currentFrameBuffer i
        else fresh framer.allocations i
      currentFrameCapacity := size + frameSize
      allocations := framer.allocations + 1 }

def resetFramer (framer : Framer zlib) : Framer zlib :=
  let framer := { framer with
    state := .reset
    errorCode := .noError
    remainingPayload := 0
    remainingControlPayload := 0
    currentFrameLen := 0 }
  if framer.currentFrameCapacity ≠ kControlFrameBufferInitialSize then
    expandControlFrameBuffer fresh { framer with currentFrameCapacity := 0 }
      kControlFrameBufferInitialSize
  else framer

def setError (framer : Framer zlib) (error : SpdyError) : Framer zlib × List Event :=
  ({ framer with errorCode := error, state := .error }, [.onError error])

def processCommonHeader (framer : Framer zlib) (data : List UInt8) :
    Framer zlib × List Event × List UInt8 :=
  if framer.currentFrameLen < frameSize then
    let bytesToAppend := min (frameSize - framer.currentFrameLen) data.length
    let framer := { framer with
      currentFrameBuffer := framer.currentFrameBuffer.write framer.currentFrameLen
        (data.take bytesToAppend)
      currentFrameLen := framer.currentFrameLen + bytesToAppend }
    let buffer := framer.currentFrameBuffer
    -- An empty data frame is over with its header.
    if framer.currentFrameLen = frameSize ∧ !buffer.isControlFrame ∧ buffer.length = 0 then
      ({ framer with state := .autoReset },
        if buffer.hasFlag controlFlagFin then [.onStreamFrameData buffer.dataStreamId []] else [],
        data.drop bytesToAppend)
    else (framer, [], data.drop bytesToAppend)
  else
    let buffer := framer.currentFrameBuffer
    ({ framer with
      remainingPayload := buffer.length
      state :=
        if !buffer.isControlFrame then .forwardStreamFrame
        else .interpretControlFrameCommonHeader }, [], data)

def appearsToBeAValidControlFrame (buffer : Buffer) : Bool :=
  synStream ≤ buffer.type ∧ buffer.type < numControlFrameTypes

def sizeIsSane (buffer : Buffer) : Bool :=
  if buffer.type = synStream then 10 ≤ buffer.length
  else if buffer.type = synReply then 6 ≤ buffer.length
  else if buffer.type = rstStream then buffer.length = 8
  else if buffer.type = goaway then buffer.length = 4
  else if buffer.type = settings then 4 ≤ buffer.length
  else false

def processControlFrameHeader (framer : Framer zlib) : Framer zlib × List Event :=
  let buffer := framer.currentFrameBuffer
  if buffer.version ≠ kSpdyProtocolVersion then setError framer .unsupportedVersion
  else if !appearsToBeAValidControlFrame buffer then setError framer .invalidControlFrame
  else if buffer.type = noop then ({ framer with state := .autoReset }, [])
  else
    let (framer, checked) :=
      if sizeIsSane buffer then (framer, []) else setError framer .invalidControlFrame
    if buffer.version ≠ kSpdyProtocolVersion then
      let (framer, failed) := setError framer .unsupportedVersion
      (framer, checked ++ failed)
    else
      let framer := { framer with remainingControlPayload := buffer.length }
      if kControlFrameBufferMaxSize < framer.remainingControlPayload then
        let (framer, failed) := setError framer .controlPayloadTooLarge
        (framer, checked ++ failed)
      else
        let framer := expandControlFrameBuffer fresh framer framer.remainingControlPayload
        ({ framer with state := .controlFramePayload }, checked)

def deliverControlFrame (framer : Framer zlib) : Framer zlib × List Event :=
  let buffer := framer.currentFrameBuffer
  ({ framer with state := .ignoreRemainingPayload }, .onControl (buffer.read (frameSize + buffer.length)) ::
      if buffer.type = synReply ∧ buffer.hasFlag controlFlagFin then
        [.onStreamFrameData buffer.replyStreamId []]
      else [])

def processControlFramePayload (framer : Framer zlib) (data : List UInt8) :
    Framer zlib × List Event × List UInt8 :=
  if framer.remainingControlPayload ≠ 0 then
    let amountToConsume := min framer.remainingControlPayload data.length
    let framer := { framer with
      currentFrameBuffer := framer.currentFrameBuffer.write framer.currentFrameLen
        (data.take amountToConsume)
      currentFrameLen := framer.currentFrameLen + amountToConsume
      remainingControlPayload := framer.remainingControlPayload - amountToConsume
      remainingPayload := framer.remainingPayload - amountToConsume }
    let data := data.drop amountToConsume
    if framer.remainingControlPayload ≠ 0 then (framer, [], data)
    else
      let (framer, events) := deliverControlFrame framer
      (framer, events, data)
  else
    let (framer, events) := deliverControlFrame framer
    (framer, events, data)

/-- `stream_decompressors_[stream_id] = stream`. -/
def setDecompressor (framer : Framer zlib) (streamId : Nat) (stream : Option zlib.Stream) : Framer zlib :=
  { framer with
    streamDecompressors := Function.update framer.streamDecompressors streamId stream }

def getStreamDecompressor (framer : Framer zlib) (streamId : Nat) : Option zlib.Stream :=
  (framer.streamDecompressors streamId).or zlib.inflateInit

def dataEvents (streamId : Nat) (data : List UInt8) : List Event :=
  if data = [] then [] else [.onStreamFrameData streamId data]

def finishForwarding (framer : Framer zlib) (amount : Nat) (events : List Event)
    (data : List UInt8) : Framer zlib × List Event × List UInt8 :=
  let buffer := framer.currentFrameBuffer
  let framer := { framer with remainingPayload := framer.remainingPayload - amount }
  if framer.remainingPayload = 0 ∧ buffer.hasFlag dataFlagFin then
    (setDecompressor framer buffer.dataStreamId none,
      events ++ [.onStreamFrameData buffer.dataStreamId []], data.drop amount)
  else (framer, events, data.drop amount)

def forwardCompressed (framer : Framer zlib) (data : List UInt8) (amount : Nat) :
    Framer zlib × List Event × List UInt8 :=
  let streamId := framer.currentFrameBuffer.dataStreamId
  match getStreamDecompressor framer streamId with
  | none => (framer, [], data)
  | some stream =>
    let inflated := zlib.inflate stream (data.take amount) (amount * 100)
    let framer := setDecompressor framer streamId (some inflated.stream)
    if !inflated.ok then
      let (framer, failed) := setError framer .decompressFailure
      (framer, failed, data)
    else
      finishForwarding framer (amount - inflated.availIn) (dataEvents streamId inflated.output) data

def processDataFramePayload (framer : Framer zlib) (data : List UInt8) :
    Framer zlib × List Event × List UInt8 :=
  let buffer := framer.currentFrameBuffer
  if framer.remainingPayload ≠ 0 then
    let amountToForward := min framer.remainingPayload data.length
    if amountToForward ≠ 0 ∧ framer.state ≠ .ignoreRemainingPayload then
      if buffer.hasFlag dataFlagCompressed then forwardCompressed framer data amountToForward
      else finishForwarding framer amountToForward
        (dataEvents buffer.dataStreamId (data.take amountToForward)) data
    else finishForwarding framer amountToForward [] data
  else ({ framer with state := .autoReset }, [], data)

/-- One pass of the loop of `ProcessInput`. -/
def processPass (framer : Framer zlib) (data : List UInt8) : Framer zlib × List Event × List UInt8 :=
  match framer.state with
  | .error | .done => (framer, [], data)
  | .autoReset | .reset =>
    ({ resetFramer fresh framer with state := .readingCommonHeader }, [], data)
  | .readingCommonHeader => processCommonHeader framer data
  | .interpretControlFrameCommonHeader =>
    let (framer, events) := processControlFrameHeader fresh framer
    (framer, events, data)
  | .controlFramePayload =>
    let (framer, events, data) := processControlFramePayload framer data
    let (framer, later, data) := processDataFramePayload framer data
    (framer, events ++ later, data)
  | .ignoreRemainingPayload | .forwardStreamFrame => processDataFramePayload framer data

/-- `ProcessInput` is a call of this machine. -/
def spdyFramer (zlib : Zlib) (fresh : Nat → Buffer) : Machine (Framer zlib) UInt8 Event where
  stops := fun framer => framer.state = .error ∨ framer.state = .done
  step := processPass fresh

inductive HeaderPass (framer : Framer zlib) : Framer zlib × List Event → Prop
  | rejected (code : SpdyError)
    (bad : framer.currentFrameBuffer.version ≠ kSpdyProtocolVersion ∨
      appearsToBeAValidControlFrame framer.currentFrameBuffer = false) :
    HeaderPass framer (setError framer code)
  | swallowed (version : framer.currentFrameBuffer.version = kSpdyProtocolVersion)
    (type : framer.currentFrameBuffer.type = noop) :
    HeaderPass framer ({ framer with state := .autoReset }, [])
  | tooLarge (events : List Event) (type : framer.currentFrameBuffer.type ≠ noop)
    (large : kControlFrameBufferMaxSize < framer.currentFrameBuffer.length) :
    HeaderPass framer ({ framer with
      remainingControlPayload := framer.currentFrameBuffer.length
      errorCode := .controlPayloadTooLarge
      state := .error }, events)
  | buffered (phase : SpdyState) (code : SpdyError) (events : List Event)
    (version : framer.currentFrameBuffer.version = kSpdyProtocolVersion)
    (valid : appearsToBeAValidControlFrame framer.currentFrameBuffer = true)
    (type : framer.currentFrameBuffer.type ≠ noop)
    (small : framer.currentFrameBuffer.length ≤ kControlFrameBufferMaxSize)
    (checked : sizeIsSane framer.currentFrameBuffer = true ∧ events = [] ∨
      sizeIsSane framer.currentFrameBuffer = false ∧ events ≠ []) :
    HeaderPass framer ({ expandControlFrameBuffer fresh
      { framer with
        state := phase
        errorCode := code
        remainingControlPayload := framer.currentFrameBuffer.length }
      framer.currentFrameBuffer.length with state := .controlFramePayload }, events)

theorem header_pass (framer : Framer zlib) :
    HeaderPass fresh framer (processControlFrameHeader fresh framer) := by
  unfold processControlFrameHeader
  simp only
  by_cases version : framer.currentFrameBuffer.version ≠ kSpdyProtocolVersion
  · rw [if_pos version]
    exact .rejected _ (Or.inl version)
  rw [if_neg version]
  by_cases valid : (!appearsToBeAValidControlFrame framer.currentFrameBuffer) = true
  · rw [if_pos valid]
    exact .rejected _ (Or.inr (by simpa using valid))
  rw [if_neg valid]
  by_cases swallowed : framer.currentFrameBuffer.type = noop
  · rw [if_pos swallowed]
    exact .swallowed (not_not.mp version) swallowed
  rw [if_neg swallowed, if_neg version]
  by_cases large : kControlFrameBufferMaxSize < framer.currentFrameBuffer.length
  · rw [if_pos large]
    split
    · exact .tooLarge _ swallowed large
    · exact .tooLarge _ swallowed large
  rw [if_neg large]
  have valid : appearsToBeAValidControlFrame framer.currentFrameBuffer = true := by
    simpa using valid
  by_cases sane : sizeIsSane framer.currentFrameBuffer = true
  · rw [if_pos sane]
    exact .buffered framer.state framer.errorCode [] (not_not.mp version) valid swallowed
      (Nat.le_of_not_lt large) (Or.inl ⟨sane, rfl⟩)
  · rw [if_neg sane]
    exact .buffered .error .invalidControlFrame _ (not_not.mp version) valid swallowed
      (Nat.le_of_not_lt large) (Or.inr ⟨Bool.not_eq_true _ ▸ sane, List.cons_ne_nil _ _⟩)

end Framer

end Glopen.Spdy

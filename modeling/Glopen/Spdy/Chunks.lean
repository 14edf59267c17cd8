import Glopen.Lib.Splitting
import Glopen.Spdy.Framer

/-! Passes over input that arrives in two parts. -/
namespace Glopen.Spdy

open Feeding List
variable {zlib : Zlib} {fresh : Nat → Buffer}

inductive Atom where
  | error (errorCode : SpdyError)
  | control (frame : List UInt8)
  | byte (streamId : Nat) (byte : UInt8)
  | fin (streamId : Nat)
deriving DecidableEq

def Event.atoms : Event → List Atom
  | .onError errorCode => [.error errorCode]
  | .onControl frame => [.control frame]
  | .onStreamFrameData streamId [] => [.fin streamId]
  | .onStreamFrameData streamId (byte :: rest) => (byte :: rest).map (.byte streamId)

theorem dataEvents_atoms (streamId : Nat) (data : List UInt8) :
    (dataEvents streamId data).flatMap Event.atoms = data.map (.byte streamId) := by
  cases data with
  | nil => rfl
  | cons byte rest =>
    rw [dataEvents, if_neg (cons_ne_nil byte rest), flatMap_singleton]
    rfl

theorem write_nil (buffer : Buffer) (offset : Nat) : buffer.write offset [] = buffer := by
  funext i
  rw [Buffer.write, List.getElem?_nil, Option.getD_none, ite_self]

theorem write_append (buffer : Buffer) (offset : Nat) (data more : List UInt8) :
    (buffer.write offset data).write (offset + data.length) more = buffer.write offset (data ++ more) := by
  funext i
  simp only [Buffer.write]
  by_cases inside : offset ≤ i
  · rw [if_pos inside, if_pos inside]
    by_cases second : offset + data.length ≤ i
    · rw [if_pos second, List.getElem?_append_right (by omega), Nat.sub_sub,
        List.getElem?_eq_none (show data.length ≤ i - offset by omega)]
      rfl
    · rw [if_neg second, List.getElem?_append_left (by omega)]
  · rw [if_neg inside, if_neg inside, if_neg (by omega)]

def appendFrame (framer : Framer zlib) (data : List UInt8) : Framer zlib :=
  { framer with
    currentFrameBuffer := framer.currentFrameBuffer.write framer.currentFrameLen data
    currentFrameLen := framer.currentFrameLen + data.length }

theorem appendFrame_append (framer : Framer zlib) (data more : List UInt8) :
    appendFrame (appendFrame framer data) more = appendFrame framer (data ++ more) := by
  simp only [appendFrame, write_append, length_append, Nat.add_assoc]

def completeHeader (framer : Framer zlib) : Framer zlib × List Event :=
  let buffer := framer.currentFrameBuffer
  if framer.currentFrameLen = frameSize ∧ !buffer.isControlFrame ∧ buffer.length = 0 then
    ({ framer with state := .autoReset },
      if buffer.hasFlag controlFlagFin then [.onStreamFrameData buffer.dataStreamId []] else [])
  else (framer, [])

def takeHeader (framer : Framer zlib) (data : List UInt8) : Framer zlib × List Event :=
  completeHeader (appendFrame framer data)

theorem header_takes {framer : Framer zlib} (reading : framer.state = .readingCommonHeader)
    (short : framer.currentFrameLen < frameSize) (data : List UInt8) :
    TakesOn (spdyFramer zlib fresh) framer (frameSize - framer.currentFrameLen) (takeHeader framer) data := by
  have pass : (spdyFramer zlib fresh).step framer data = processCommonHeader framer data := by
    change processPass fresh framer data = _
    unfold processPass
    rw [reading]
  rw [TakesOn, pass]
  simp only [processCommonHeader, if_pos short, takeHeader, completeHeader, appendFrame, take_min_length]
  split
  · rfl
  · rfl

variable {data : List UInt8} {framer : Framer zlib}

theorem header_part (short : data.length < frameSize - framer.currentFrameLen) (more : List UInt8) :
    takeHeader framer data = (appendFrame framer data, []) ∧
    takeHeader framer (data ++ more) = takeHeader (appendFrame framer data) more := by
  constructor
  · refine if_neg fun complete => ?_
    have full : framer.currentFrameLen + data.length = frameSize := complete.1
    omega
  · rw [takeHeader, takeHeader, appendFrame_append]

def consumeFrame (framer : Framer zlib) (data : List UInt8) : Framer zlib :=
  { appendFrame framer data with
    remainingControlPayload := framer.remainingControlPayload - data.length
    remainingPayload := framer.remainingPayload - data.length }

theorem consumeFrame_append (framer : Framer zlib) (data more : List UInt8) :
    consumeFrame (consumeFrame framer data) more = consumeFrame framer (data ++ more) := by
  simp only [consumeFrame, appendFrame, write_append, length_append, Nat.add_assoc, Nat.sub_sub]

def takePayload (framer : Framer zlib) (data : List UInt8) : Framer zlib × List Event :=
  let framer := consumeFrame framer data
  if framer.remainingControlPayload ≠ 0 then (framer, [])
  else ({ framer with state := .autoReset }, (deliverControlFrame framer).2)

theorem payload_eq (framer : Framer zlib) (data : List UInt8) :
    let count := min framer.remainingControlPayload data.length
    let taken := consumeFrame framer (data.take count)
    processControlFramePayload framer data =
      if taken.remainingControlPayload ≠ 0 then (taken, [], data.drop count)
      else ((deliverControlFrame taken).1, (deliverControlFrame taken).2, data.drop count) := by
  simp only [processControlFramePayload]
  by_cases control : framer.remainingControlPayload ≠ 0
  · rw [if_pos control]
    simp only [consumeFrame, appendFrame, take_min_length]
  · have none_left : framer.remainingControlPayload = 0 := not_not.mp control
    have same : consumeFrame framer [] = framer := by
      simp only [consumeFrame, appendFrame, write_nil, length_nil, Nat.add_zero, Nat.sub_zero]
    rw [if_neg control, none_left, Nat.zero_min, take_zero, drop_zero, same, if_neg control]

theorem data_idle (remaining : framer.remainingPayload ≠ 0) :
    processDataFramePayload framer [] = (framer, [], []) := by
  simp only [processDataFramePayload, if_pos remaining, length_nil, Nat.min_zero]
  rw [if_neg fun forwards => forwards.1 rfl]
  simp only [finishForwarding, Nat.sub_zero, drop_nil]
  rw [if_neg fun over_now => remaining over_now.1]

theorem data_over (none_left : framer.remainingPayload = 0) (data : List UInt8) :
    processDataFramePayload framer data = ({ framer with state := .autoReset }, [], data) :=
  if_neg fun remaining => remaining none_left

theorem payload_takes {framer : Framer zlib} (reading : framer.state = .controlFramePayload)
    (sync : framer.remainingPayload = framer.remainingControlPayload) (data : List UInt8) :
    TakesOn (spdyFramer zlib fresh) framer framer.remainingControlPayload (takePayload framer) data := by
  have pass : (spdyFramer zlib fresh).step framer data =
      ((processDataFramePayload (processControlFramePayload framer data).1
          (processControlFramePayload framer data).2.2).1,
        (processControlFramePayload framer data).2.1 ++
          (processDataFramePayload (processControlFramePayload framer data).1
            (processControlFramePayload framer data).2.2).2.1,
        (processDataFramePayload (processControlFramePayload framer data).1
          (processControlFramePayload framer data).2.2).2.2) := by
    change processPass fresh framer data = _
    unfold processPass
    rw [reading]
  rw [TakesOn, pass, payload_eq, takePayload]
  have used : (consumeFrame framer (data.take (min framer.remainingControlPayload
      data.length))).remainingControlPayload ≠ 0 →
        data.drop (min framer.remainingControlPayload data.length) = [] := by
    intro more
    apply drop_eq_nil_of_le
    simp only [consumeFrame, take_min_length] at more
    omega
  have synced : (consumeFrame framer (data.take (min framer.remainingControlPayload
      data.length))).remainingPayload = (consumeFrame framer (data.take
        (min framer.remainingControlPayload data.length))).remainingControlPayload :=
    congrArg (· - _) sync
  generalize consumeFrame framer (data.take (min framer.remainingControlPayload data.length)) =
    taken at used synced ⊢
  by_cases more : taken.remainingControlPayload ≠ 0
  · rw [if_pos more, if_pos more, used more, data_idle (by rw [synced]; exact more)]
    rfl
  · have finished : (deliverControlFrame taken).1.remainingPayload = 0 :=
      synced.trans (not_not.mp more)
    rw [if_neg more, if_neg more, data_over finished, append_nil]
    rfl

theorem payload_part (short : data.length < framer.remainingControlPayload) (more : List UInt8) :
    takePayload framer data = (consumeFrame framer data, []) ∧
    takePayload framer (data ++ more) = takePayload (consumeFrame framer data) more := by
  constructor
  · exact if_pos (Nat.sub_ne_zero_of_lt short)
  · rw [takePayload, takePayload, consumeFrame_append]

/-- The end of forwarding `count` bytes. -/
def endForwarding (framer : Framer zlib) (count : Nat) (events : List Event) : Framer zlib × List Event :=
  let buffer := framer.currentFrameBuffer
  let framer := { framer with remainingPayload := framer.remainingPayload - count }
  if framer.remainingPayload = 0 ∧ buffer.hasFlag dataFlagFin then
    (setDecompressor framer buffer.dataStreamId none, events ++ [.onStreamFrameData buffer.dataStreamId []])
  else (framer, events)

theorem finish_eq (framer : Framer zlib) (count : Nat) (events : List Event) (data : List UInt8) :
    finishForwarding framer count events data =
      ((endForwarding framer count events).1, (endForwarding framer count events).2, data.drop count) := by
  unfold finishForwarding endForwarding
  simp only
  split
  · rfl
  · rfl

theorem end_events (framer : Framer zlib) (count : Nat) (events : List Event) :
    endForwarding framer count events =
      ((endForwarding framer count []).1, events ++ (endForwarding framer count []).2) := by
  unfold endForwarding
  simp only
  split
  · rfl
  · rw [append_nil]

def forwardPart (framer : Framer zlib) (count : Nat) : Framer zlib :=
  { framer with remainingPayload := framer.remainingPayload - count }

theorem end_part {framer : Framer zlib} {count : Nat} (short : count < framer.remainingPayload)
    (events : List Event) : endForwarding framer count events = (forwardPart framer count, events) :=
  if_neg fun finished => Nat.sub_ne_zero_of_lt short finished.1

theorem end_rest (framer : Framer zlib) (count rest : Nat) (events : List Event) :
    endForwarding framer (count + rest) events = endForwarding (forwardPart framer count) rest events := by
  simp only [endForwarding, forwardPart, Nat.sub_sub]

def takeData (framer : Framer zlib) (data : List UInt8) : Framer zlib × List Event :=
  endForwarding framer data.length (dataEvents framer.currentFrameBuffer.dataStreamId data)

theorem data_takes {framer : Framer zlib} (forwards : framer.state = .forwardStreamFrame)
    (remaining : framer.remainingPayload ≠ 0)
    (plain : framer.currentFrameBuffer.hasFlag dataFlagCompressed = false) {data : List UInt8}
    (some_data : data ≠ []) :
    TakesOn (spdyFramer zlib fresh) framer framer.remainingPayload (takeData framer) data := by
  have pass : (spdyFramer zlib fresh).step framer data = processDataFramePayload framer data := by
    change processPass fresh framer data = _
    unfold processPass
    rw [forwards]
  have amount : min framer.remainingPayload data.length ≠ 0 := by
    have := length_pos_iff.mpr some_data
    omega
  rw [TakesOn, pass]
  simp only [processDataFramePayload, if_pos remaining, forwards]
  rw [if_pos ⟨amount, by decide⟩, plain, if_neg (by decide), finish_eq, takeData, take_min_length]

theorem data_part (short : data.length < framer.remainingPayload) (more : List UInt8) :
    takeData framer data = (forwardPart framer data.length,
      dataEvents framer.currentFrameBuffer.dataStreamId data) ∧
    (takeData framer (data ++ more)).1 = (takeData (forwardPart framer data.length) more).1 ∧
    (takeData framer (data ++ more)).2.flatMap Event.atoms =
      (dataEvents framer.currentFrameBuffer.dataStreamId data).flatMap Event.atoms ++
        (takeData (forwardPart framer data.length) more).2.flatMap Event.atoms := by
  refine ⟨end_part short _, ?_, ?_⟩
  · rw [takeData, length_append, end_rest, end_events]
    rw [takeData, end_events _ _ (dataEvents _ more)]
  · rw [takeData, length_append, end_rest, end_events]
    rw [takeData, end_events _ _ (dataEvents _ more)]
    simp only [flatMap_append, dataEvents_atoms, map_append, append_assoc]
    rfl

def Zlib.Takes (zlib : Zlib) (stream : zlib.Stream) (input : List UInt8) (room : Nat)
    (output : List UInt8) (next : zlib.Stream) : Prop :=
  zlib.inflate stream input room = ⟨true, 0, output, next⟩ ∧ output.length < room

/-- What zlib takes in two parts it takes in one: its output does not depend on how the input
is cut, as long as there is room for it. -/
def Zlib.Streaming (zlib : Zlib) : Prop :=
  ∀ {stream next next' first second room room' output output'},
    zlib.Takes stream first room output next → zlib.Takes next second room' output' next' →
    zlib.Takes stream (first ++ second) (room + room') (output ++ output') next'

def Inflates (framer : Framer zlib) (data : List UInt8) : Prop :=
  framer.state = .forwardStreamFrame → framer.remainingPayload ≠ 0 →
    framer.currentFrameBuffer.hasFlag dataFlagCompressed = true →
    ∃ stream output next,
      getStreamDecompressor framer framer.currentFrameBuffer.dataStreamId = some stream ∧
      zlib.Takes stream (data.take (min framer.remainingPayload data.length))
        (min framer.remainingPayload data.length * 100) output next

def takeCompressed (framer : Framer zlib) (data : List UInt8) : Framer zlib × List Event :=
  let streamId := framer.currentFrameBuffer.dataStreamId
  match getStreamDecompressor framer streamId with
  | none => (framer, [])
  | some stream =>
    let inflated := zlib.inflate stream data (data.length * 100)
    endForwarding (setDecompressor framer streamId (some inflated.stream)) data.length
      (dataEvents streamId inflated.output)

theorem compressed_takes {framer : Framer zlib} (forwards : framer.state = .forwardStreamFrame)
    (remaining : framer.remainingPayload ≠ 0)
    (compressed : framer.currentFrameBuffer.hasFlag dataFlagCompressed = true)
    {data : List UInt8} (some_data : data ≠ []) (inflates : Inflates framer data) :
    TakesOn (spdyFramer zlib fresh) framer framer.remainingPayload (takeCompressed framer) data := by
  have pass : (spdyFramer zlib fresh).step framer data = processDataFramePayload framer data := by
    change processPass fresh framer data = _
    unfold processPass
    rw [forwards]
  have amount : min framer.remainingPayload data.length ≠ 0 := by
    have := length_pos_iff.mpr some_data
    omega
  obtain ⟨stream, output, next, found, took, -⟩ := inflates forwards remaining compressed
  rw [TakesOn, pass]
  simp only [processDataFramePayload, if_pos remaining, forwards]
  rw [if_pos ⟨amount, by decide⟩, if_pos compressed]
  simp only [forwardCompressed, takeCompressed, found, take_min_length, took, Bool.not_true]
  rw [if_neg (by decide), finish_eq, Nat.sub_zero]

theorem compressed_take {framer : Framer zlib} {data output : List UInt8} {stream next : zlib.Stream}
    (found : getStreamDecompressor framer framer.currentFrameBuffer.dataStreamId = some stream)
    (took : zlib.Takes stream data (data.length * 100) output next) : takeCompressed framer data = endForwarding
      (setDecompressor framer framer.currentFrameBuffer.dataStreamId (some next)) data.length
      (dataEvents framer.currentFrameBuffer.dataStreamId output) := by
  simp only [takeCompressed, found, took.1]

def inflatePart (framer : Framer zlib) (count : Nat) (next : zlib.Stream) : Framer zlib :=
  forwardPart (setDecompressor framer framer.currentFrameBuffer.dataStreamId (some next)) count

theorem inflatePart_stream (framer : Framer zlib) (count : Nat) (next : zlib.Stream) :
    getStreamDecompressor (inflatePart framer count next)
      framer.currentFrameBuffer.dataStreamId = some next := by
  have stored : (inflatePart framer count next).streamDecompressors
      framer.currentFrameBuffer.dataStreamId = some next := Function.update_self _ _ _
  rw [getStreamDecompressor, stored]
  rfl

theorem compressed_part {framer : Framer zlib} {data more output output' : List UInt8}
    {stream next next' : zlib.Stream} (streaming : zlib.Streaming)
    (found : getStreamDecompressor framer framer.currentFrameBuffer.dataStreamId = some stream)
    (first : zlib.Takes stream data (data.length * 100) output next)
    (second : zlib.Takes next more (more.length * 100) output' next') :
    (takeCompressed framer (data ++ more)).1 = (takeCompressed (inflatePart framer data.length next) more).1 ∧
    (takeCompressed framer (data ++ more)).2.flatMap Event.atoms =
      (dataEvents framer.currentFrameBuffer.dataStreamId output).flatMap Event.atoms ++
        (takeCompressed (inflatePart framer data.length next) more).2.flatMap Event.atoms := by
  have both := streaming first second
  rw [← Nat.add_mul, ← length_append] at both
  have whole := compressed_take found both
  have rest := compressed_take (inflatePart_stream framer data.length next) second
  have twice : setDecompressor (inflatePart framer data.length next)
      framer.currentFrameBuffer.dataStreamId (some next') =
      forwardPart (setDecompressor framer framer.currentFrameBuffer.dataStreamId (some next'))
        data.length := by
    simp only [setDecompressor, inflatePart, forwardPart, Function.update_idem]
  rw [length_append, end_rest] at whole
  rw [show (inflatePart framer data.length next).currentFrameBuffer.dataStreamId =
    framer.currentFrameBuffer.dataStreamId from rfl, twice] at rest
  rw [whole, rest, end_events, end_events _ _ (dataEvents _ output')]
  refine ⟨rfl, ?_⟩
  simp only [flatMap_append, dataEvents_atoms, map_append, append_assoc]

end Glopen.Spdy

import Glopen.Lib.Passes
import Glopen.Spdy.ChunkRuns
import Glopen.Spdy.ErrorRuns

/-! What the framer does with one whole frame, between the frame before it and what follows. -/
namespace Glopen.Spdy

open Feeding List
variable {zlib : Zlib} {fresh : Nat → Buffer}

def headerOf (header : List UInt8) : Buffer := Buffer.write (fun _ => 0) 0 header

structure Frame where
  header : List UInt8
  payload : List UInt8
  header_length : header.length = frameSize
  declared : payload.length = (headerOf header).length

namespace Frame

variable (frame : Frame)

def buffer : Buffer := headerOf frame.header

def bytes : List UInt8 := frame.header ++ frame.payload

def Accepted : Prop :=
  frame.buffer.isControlFrame = true → frame.buffer.version = kSpdyProtocolVersion ∧
    appearsToBeAValidControlFrame frame.buffer = true ∧
    (frame.buffer.type = noop ∨
      sizeIsSane frame.buffer = true ∧ frame.buffer.length ≤ kControlFrameBufferMaxSize)

def PaddedNoop : Prop :=
  frame.buffer.isControlFrame = true ∧ frame.buffer.type = noop ∧ frame.payload ≠ []

def Compressed : Prop :=
  frame.buffer.isControlFrame = false ∧ frame.buffer.hasFlag dataFlagCompressed = true ∧
    frame.payload ≠ []

end Frame

def Agree (a b : Buffer) : Prop := ∀ i < frameSize, a i = b i

section Agree

variable {a b : Buffer}

section

variable (agree : Agree a b)
include agree

variable {offset : Nat}

theorem Agree.word16 (inside : offset + 1 < frameSize) : a.word16 offset = b.word16 offset := by
  rw [Buffer.word16, Buffer.word16, agree offset (Nat.lt_of_succ_lt inside), agree (offset + 1) inside]

theorem Agree.word32 (inside : offset + 3 < frameSize) : a.word32 offset = b.word32 offset := by
  rw [Buffer.word32, Buffer.word32, agree.word16 (by omega), agree.word16 (by omega)]

theorem Agree.isControlFrame : a.isControlFrame = b.isControlFrame := by
  rw [Buffer.isControlFrame, Buffer.isControlFrame, agree.word16 (by decide)]

theorem Agree.version : a.version = b.version := by
  rw [Buffer.version, Buffer.version, agree.word16 (by decide)]

theorem Agree.type : a.type = b.type := agree.word16 (by decide)

theorem Agree.hasFlag (flag : Nat) : a.hasFlag flag = b.hasFlag flag := by
  rw [Buffer.hasFlag, Buffer.hasFlag, Buffer.flags, Buffer.flags, agree 4 (by decide)]

theorem Agree.length : a.length = b.length := by
  rw [Buffer.length, Buffer.length, agree.word32 (by decide)]

theorem Agree.dataStreamId : a.dataStreamId = b.dataStreamId := by
  rw [Buffer.dataStreamId, Buffer.dataStreamId, agree.word32 (by decide)]

theorem Agree.valid : appearsToBeAValidControlFrame a = appearsToBeAValidControlFrame b := by
  rw [appearsToBeAValidControlFrame, appearsToBeAValidControlFrame, agree.type]

theorem Agree.sane : sizeIsSane a = sizeIsSane b := by
  rw [sizeIsSane, sizeIsSane, agree.type, agree.length]

end

theorem write_agree (old : Buffer) (frame : Frame) : Agree (old.write 0 frame.header) frame.buffer := by
  intro i inside
  have present : i < frame.header.length := frame.header_length ▸ inside
  simp only [Frame.buffer, headerOf, Buffer.write, Nat.zero_le, if_true, Nat.sub_zero,
    List.getElem?_eq_getElem present, Option.getD_some]

end Agree

def atHead (framer : Framer zlib) : Bool :=
  framer.state = .reset ∨ framer.state = .autoReset

def Closed (framer : Framer zlib) : Prop :=
  zlib.inflateInit = none → ∀ streamId, framer.streamDecompressors streamId = none

structure Between (framer : Framer zlib) : Prop where
  place : framer.state = .reset ∨ framer.state = .autoReset ∨
    framer.state = .forwardStreamFrame ∧ framer.remainingPayload = 0 ∨
    framer.state = .readingCommonHeader ∧ framer.currentFrameLen = frameSize ∧
      framer.currentFrameBuffer.isControlFrame = true ∧
      framer.currentFrameBuffer.version = kSpdyProtocolVersion ∧
      framer.currentFrameBuffer.type = noop
  closed : Closed framer

theorem working_of {framer : Framer zlib} {data : List UInt8} {phase : SpdyState}
    (some_data : data ≠ []) (state : framer.state = phase) (running : phase ≠ .error ∧ phase ≠ .done) :
    ¬ (spdyFramer zlib fresh).Returns framer data := by
  rintro (empty | stopped)
  · exact some_data empty
  · rcases of_decide_eq_true stopped with error | done
    · exact running.1 (state.symm.trans error)
    · exact running.2 (state.symm.trans done)

theorem plain_of {framer : Framer zlib} {phase : SpdyState} (state : framer.state = phase)
    (plain : phase ≠ .reset ∧ phase ≠ .autoReset) : atHead framer = false := by
  apply decide_eq_false
  rw [state]
  exact not_or.mpr plain

theorem noop_header {framer : Framer zlib} (version : framer.currentFrameBuffer.version = kSpdyProtocolVersion)
    (type : framer.currentFrameBuffer.type = noop) :
    processControlFrameHeader fresh framer = ({ framer with state := .autoReset }, []) := by
  have valid : appearsToBeAValidControlFrame framer.currentFrameBuffer = true := by
    rw [appearsToBeAValidControlFrame, type]
    decide
  have pass := header_pass fresh framer
  generalize processControlFrameHeader fresh framer = result at pass ⊢
  cases pass with
  | rejected code bad =>
    rcases bad with other | invalid
    · exact absurd version other
    · exact absurd valid (by rw [invalid]; decide)
  | swallowed _ _ => rfl
  | tooLarge events other large => exact absurd type other
  | buffered phase code events _ _ other small checked => exact absurd type other

def startPayload (framer : Framer zlib) (phase : SpdyState) : Framer zlib :=
  { framer with remainingPayload := framer.currentFrameBuffer.length, state := phase }

variable {framer reading : Framer zlib}

theorem common_pass (reading : framer.state = .readingCommonHeader)
    (full : framer.currentFrameLen = frameSize) (data : List UInt8) : (spdyFramer zlib fresh).step framer data =
      (startPayload framer (if !framer.currentFrameBuffer.isControlFrame then .forwardStreamFrame
        else .interpretControlFrameCommonHeader), [], data) := by
  change processPass fresh framer data = _
  unfold processPass
  rw [reading]
  exact if_neg (Nat.not_lt.mpr (Nat.le_of_eq full.symm))

variable {data : List UInt8} {frame : Frame}

theorem noop_passes (some_data : data ≠ [])
    (reading : framer.state = .readingCommonHeader) (full : framer.currentFrameLen = frameSize)
    (control : framer.currentFrameBuffer.isControlFrame = true)
    (version : framer.currentFrameBuffer.version = kSpdyProtocolVersion)
    (type : framer.currentFrameBuffer.type = noop) :
    Passes (spdyFramer zlib fresh) atHead framer data (startPayload framer .autoReset) [] [] data := by
  have first : (spdyFramer zlib fresh).step framer data =
      (startPayload framer .interpretControlFrameCommonHeader, [], data) := by
    rw [common_pass reading full, control]
    rfl
  have second : (spdyFramer zlib fresh).step (startPayload framer .interpretControlFrameCommonHeader) data =
        (startPayload framer .autoReset, [], data) := by
    have header := @noop_header zlib fresh (startPayload framer .interpretControlFrameCommonHeader) version type
    change ((processControlFrameHeader fresh (startPayload framer .interpretControlFrameCommonHeader)).1,
      (processControlFrameHeader fresh (startPayload framer .interpretControlFrameCommonHeader)).2, data) = _
    rw [header]
    rfl
  apply Passes.trans (.one ?_ ?_ first) (.one ?_ ?_ second)
  · exact plain_of reading (by decide)
  · exact working_of some_data reading (by decide)
  · rfl
  · exact @working_of zlib fresh _ _ .interpretControlFrameCommonHeader some_data rfl (by decide)

theorem between_head {framer : Framer zlib} (between : Between framer) {data : List UInt8}
    (some_data : data ≠ []) : ∃ framer', atHead framer' = true ∧ Closed framer' ∧
      Passes (spdyFramer zlib fresh) atHead framer data framer' [] [] data := by
  rcases between.place with phase | phase | ⟨phase, over_now⟩ | ⟨phase, len, control, version, type⟩
  · exact ⟨framer, decide_eq_true (.inl phase), between.closed, .refl⟩
  · exact ⟨framer, decide_eq_true (.inr phase), between.closed, .refl⟩
  · refine ⟨{ framer with state := .autoReset }, rfl, between.closed, ?_⟩
    refine .one (plain_of phase (by decide)) (working_of some_data phase (by decide)) ?_
    change processPass fresh framer data = _
    unfold processPass
    rw [phase]
    exact data_over over_now data
  · exact ⟨startPayload framer .autoReset, rfl, between.closed,
      noop_passes some_data phase len control version type⟩

theorem reset_decompressors (framer : Framer zlib) :
    (resetFramer fresh framer).streamDecompressors = framer.streamDecompressors := by
  unfold resetFramer expandControlFrameBuffer
  simp only
  split
  · split
    · rfl
    · rfl
  · rfl

def beginFrame (fresh : Nat → Buffer) (framer : Framer zlib) : Framer zlib :=
  { resetFramer fresh framer with state := .readingCommonHeader }

theorem begin_pass (head : atHead framer = true) (some_data : data ≠ []) :
    Passes (spdyFramer zlib fresh) atHead framer data (beginFrame fresh framer) [] [data.length] data := by
  have step : (spdyFramer zlib fresh).step framer data = (beginFrame fresh framer, [], data) := by
    change processPass fresh framer data = _
    unfold processPass
    rcases of_decide_eq_true head with phase | phase
    · rw [phase]
      rfl
    · rw [phase]
      rfl
  have working : ¬ (spdyFramer zlib fresh).Returns framer data := by
    rcases of_decide_eq_true head with phase | phase
    · exact working_of some_data phase (by decide)
    · exact working_of some_data phase (by decide)
  have passes : Passes _ atHead _ _ _ _ _ _ := .pass working step .refl
  rw [head] at passes
  exact passes

theorem header_read {framer : Framer zlib} (between : Between framer) (frame : Frame) (more : List UInt8) :
    ∃ reading : Framer zlib, reading.state = .readingCommonHeader ∧ Closed reading ∧
      reading.currentFrameLen = 0 ∧
      Passes (spdyFramer zlib fresh) atHead framer (frame.bytes ++ more)
        (takeHeader reading frame.header).1 (takeHeader reading frame.header).2
        [(frame.bytes ++ more).length] (frame.payload ++ more) := by
  have some_bytes : frame.bytes ++ more ≠ [] := by
    apply append_ne_nil_of_left_ne_nil
    apply append_ne_nil_of_left_ne_nil
    intro empty
    have length := frame.header_length
    rw [empty] at length
    cases length
  obtain ⟨start, head, closed, passes⟩ := @between_head zlib fresh framer between _ some_bytes
  have len : (beginFrame fresh start).currentFrameLen = 0 := reset_len start
  have takes := @header_takes zlib fresh (beginFrame fresh start) rfl (by rw [len]; decide) (frame.bytes ++ more)
  have whole : min frame.header.length (frame.bytes ++ more).length = frame.header.length := by
    rw [length_append, Frame.bytes, length_append]
    omega
  have parts : frame.bytes ++ more = frame.header ++ (frame.payload ++ more) :=
    append_assoc _ _ _
  rw [TakesOn, len, Nat.sub_zero, ← frame.header_length, whole, parts, take_left, drop_left, ← parts] at takes
  have second : Passes _ atHead _ _ _ _ [] _ := .one
    (@plain_of zlib (beginFrame fresh start) .readingCommonHeader rfl (by decide))
    (@working_of zlib fresh _ _ .readingCommonHeader some_bytes rfl (by decide)) takes
  refine ⟨beginFrame fresh start, rfl, ?_, len, passes.trans ((begin_pass head some_bytes).trans second)⟩
  intro none_made streamId
  exact (congrFun (reset_decompressors start) streamId).trans (closed none_made streamId)

structure Headed (frame : Frame) (framer : Framer zlib) : Prop where
  reading : framer.state = .readingCommonHeader
  full : framer.currentFrameLen = frameSize
  agree : Agree framer.currentFrameBuffer frame.buffer
  closed : Closed framer

theorem headed (state : reading.state = .readingCommonHeader)
    (closed : Closed reading) (len : reading.currentFrameLen = 0) (frame : Frame) :
    Headed frame (appendFrame reading frame.header) := by
  refine ⟨state, ?_, ?_, closed⟩
  · simp only [appendFrame, len, Nat.zero_add, frame.header_length]
  · simp only [appendFrame, len]
    exact write_agree _ frame

def Frame.finEvents (frame : Frame) : List Event :=
  if frame.buffer.hasFlag dataFlagFin then [.onStreamFrameData frame.buffer.dataStreamId []] else []

theorem takeHeader_empty (ready : Headed frame (appendFrame reading frame.header))
    (data : frame.buffer.isControlFrame = false) (empty : frame.payload = []) :
    takeHeader reading frame.header = ({ appendFrame reading frame.header with
      state := .autoReset }, frame.finEvents) := by
  have length : frame.buffer.length = 0 := by
    rw [Frame.buffer, ← frame.declared, empty]
    rfl
  rw [takeHeader, completeHeader]
  simp only [ready.agree.isControlFrame, ready.agree.length, ready.agree.hasFlag, ready.agree.dataStreamId]
  rw [if_pos ⟨ready.full, by rw [data]; rfl, length⟩]
  rfl

theorem takeHeader_more (ready : Headed frame (appendFrame reading frame.header))
    (more : frame.buffer.isControlFrame = true ∨ frame.payload ≠ []) :
    takeHeader reading frame.header = (appendFrame reading frame.header, []) := by
  refine if_neg ?_
  rintro ⟨-, data, length⟩
  rw [ready.agree.isControlFrame] at data
  rcases more with control | some_payload
  · rw [control] at data
    cases data
  · rw [ready.agree.length, Frame.buffer, ← frame.declared] at length
    exact some_payload (eq_nil_of_length_eq_zero length)

theorem forward_read {frame : Frame} {framer : Framer zlib} (ready : Headed frame framer)
    (data : frame.buffer.isControlFrame = false) (some_payload : frame.payload ≠ []) (more : List UInt8) :
    Passes (spdyFramer zlib fresh) atHead framer (frame.payload ++ more)
      (startPayload framer .forwardStreamFrame) [] [] (frame.payload ++ more) ∧
    (startPayload framer .forwardStreamFrame).remainingPayload = frame.payload.length := by
  have step : (spdyFramer zlib fresh).step framer (frame.payload ++ more) =
      (startPayload framer .forwardStreamFrame, [], frame.payload ++ more) := by
    rw [common_pass ready.reading ready.full, ready.agree.isControlFrame, data]
    rfl
  refine ⟨.one (plain_of ready.reading (by decide))
    (working_of (append_ne_nil_of_left_ne_nil some_payload more) ready.reading (by decide))
    step, ?_⟩
  exact ready.agree.length.trans frame.declared.symm

theorem take_payload (payload more : List UInt8) :
    (payload ++ more).take (min payload.length (payload ++ more).length) = payload ∧
    (payload ++ more).drop (min payload.length (payload ++ more).length) = more := by
  have count : min payload.length (payload ++ more).length = payload.length := by
    rw [length_append]
    omega
  rw [count]
  exact ⟨take_left, drop_left⟩

theorem end_all {frame : Frame} {framer : Framer zlib} (forwards : framer.state = .forwardStreamFrame)
    (agree : Agree framer.currentFrameBuffer frame.buffer) (closed : Closed framer) (events : List Event) :
    ∃ framer', endForwarding framer framer.remainingPayload events = (framer', events ++ frame.finEvents) ∧
      Between framer' := by
  unfold endForwarding Frame.finEvents
  simp only [Nat.sub_self, true_and, agree.hasFlag, agree.dataStreamId]
  split
  · refine ⟨_, rfl, .inr (.inr (.inl ⟨forwards, rfl⟩)), ?_⟩
    intro none_made streamId
    simp only [setDecompressor, Function.update_apply, closed none_made streamId, ite_self]
  · rw [append_nil]
    exact ⟨_, rfl, .inr (.inr (.inl ⟨forwards, rfl⟩)), closed⟩

theorem data_read {framer : Framer zlib} (between : Between framer) {frame : Frame}
    (data : frame.buffer.isControlFrame = false) (plain : ¬ frame.Compressed) (more : List UInt8) :
    ∃ framer', Passes (spdyFramer zlib fresh) atHead framer (frame.bytes ++ more) framer'
        (dataEvents frame.buffer.dataStreamId frame.payload ++ frame.finEvents)
        [(frame.bytes ++ more).length] more ∧
      Between framer' := by
  obtain ⟨reading, state, closed, len, passes⟩ := @header_read zlib fresh framer between frame more
  have ready := headed state closed len frame
  by_cases empty : frame.payload = []
  · rw [takeHeader_empty ready data empty, empty, nil_append] at passes
    have silent : dataEvents frame.buffer.dataStreamId [] = [] := rfl
    rw [empty, silent, nil_append]
    exact ⟨_, passes, .inr (.inl rfl), closed⟩
  · rw [takeHeader_more ready (.inr empty)] at passes
    obtain ⟨first, remaining⟩ := @forward_read zlib fresh frame _ ready data empty more
    have some_payload : frame.payload.length ≠ 0 :=
      fun none_left => empty (eq_nil_of_length_eq_zero none_left)
    have flag : frame.buffer.hasFlag dataFlagCompressed = false :=
      Bool.not_eq_true _ ▸ fun compressed => plain ⟨data, compressed, empty⟩
    have some_data := append_ne_nil_of_left_ne_nil empty more
    have takes := @data_takes zlib fresh
      (startPayload (appendFrame reading frame.header) .forwardStreamFrame) rfl
      (by rw [remaining]; exact some_payload) ((ready.agree.hasFlag _).trans flag) _ some_data
    obtain ⟨framer', finished, between'⟩ := @end_all zlib frame
      (startPayload (appendFrame reading frame.header) .forwardStreamFrame) rfl ready.agree closed
      (dataEvents frame.buffer.dataStreamId frame.payload)
    rw [remaining] at finished
    rw [TakesOn, remaining, (take_payload _ _).1, (take_payload _ _).2, takeData,
      show (startPayload (appendFrame reading frame.header) SpdyState.forwardStreamFrame
        ).currentFrameBuffer.dataStreamId = frame.buffer.dataStreamId from
          ready.agree.dataStreamId, finished] at takes
    have second : Passes _ atHead _ _ _ _ [] _ := .one (@plain_of zlib _ .forwardStreamFrame rfl (by decide))
      (@working_of zlib fresh _ _ .forwardStreamFrame some_data rfl (by decide)) takes
    exact ⟨framer', passes.trans (first.trans second), between'⟩

theorem sane_payload {buffer : Buffer} (sane : sizeIsSane buffer = true) : buffer.length ≠ 0 := by
  intro empty
  rw [sizeIsSane, empty] at sane
  split_ifs at sane
  all_goals exact absurd sane (by decide)

theorem buffered_header {framer : Framer zlib}
    (version : framer.currentFrameBuffer.version = kSpdyProtocolVersion)
    (valid : appearsToBeAValidControlFrame framer.currentFrameBuffer = true)
    (type : framer.currentFrameBuffer.type ≠ noop) (sane : sizeIsSane framer.currentFrameBuffer = true)
    (small : framer.currentFrameBuffer.length ≤ kControlFrameBufferMaxSize) :
    ∃ framer', processControlFrameHeader fresh framer = (framer', []) ∧ framer'.state = .controlFramePayload ∧
      framer'.remainingControlPayload = framer.currentFrameBuffer.length ∧
      framer'.remainingPayload = framer.remainingPayload ∧
      framer'.streamDecompressors = framer.streamDecompressors := by
  have pass := header_pass fresh framer
  generalize processControlFrameHeader fresh framer = result at pass ⊢
  cases pass with
  | rejected code bad =>
    rcases bad with other | invalid
    · exact absurd version other
    · exact absurd valid (by rw [invalid]; decide)
  | swallowed _ other => exact absurd other type
  | tooLarge events _ large => omega
  | buffered phase code events _ _ _ _ checked =>
    rcases checked with ⟨-, quiet⟩ | ⟨insane, -⟩
    · rw [quiet]
      unfold expandControlFrameBuffer
      split
      · exact ⟨_, rfl, rfl, rfl, rfl, rfl⟩
      · exact ⟨_, rfl, rfl, rfl, rfl, rfl⟩
    · exact absurd sane (by rw [insane]; decide)

theorem control_read (between : Between framer)
    (control : frame.buffer.isControlFrame = true) (accepted : frame.Accepted)
    (type : frame.buffer.type ≠ noop) (more : List UInt8) : ∃ framer' events,
      Passes (spdyFramer zlib fresh) atHead framer (frame.bytes ++ more) framer' events
        [(frame.bytes ++ more).length] more ∧
      Between framer' := by
  obtain ⟨reading, state, closed, len, passes⟩ := @header_read zlib fresh framer between frame more
  have ready := headed state closed len frame
  rw [takeHeader_more ready (.inl control)] at passes
  obtain ⟨version, valid, noop_or⟩ := accepted control
  obtain ⟨sane, small⟩ := noop_or.resolve_left type
  have length : frame.buffer.length = frame.payload.length := frame.declared.symm
  have some_payload : frame.payload ≠ [] := by
    intro empty
    rw [empty] at length
    exact sane_payload sane length
  have some_data := append_ne_nil_of_left_ne_nil some_payload more
  have first : (spdyFramer zlib fresh).step (appendFrame reading frame.header)
      (frame.payload ++ more) = (startPayload (appendFrame reading frame.header)
        .interpretControlFrameCommonHeader, [], frame.payload ++ more) := by
    rw [common_pass ready.reading ready.full, ready.agree.isControlFrame, control]
    rfl
  obtain ⟨buffering, header, payload, control_left, left, decompressors⟩ :=
    @buffered_header zlib fresh (startPayload (appendFrame reading frame.header)
      .interpretControlFrameCommonHeader) (ready.agree.version.trans version)
      (ready.agree.valid.trans valid) (by rw [← ready.agree.type] at type; exact type)
      (ready.agree.sane.trans sane) (by rw [← ready.agree.length] at small; exact small)
  have second : (spdyFramer zlib fresh).step (startPayload (appendFrame reading frame.header)
      .interpretControlFrameCommonHeader) (frame.payload ++ more) = (buffering, [], frame.payload ++ more) := by
    change ((processControlFrameHeader fresh (startPayload (appendFrame reading frame.header)
      .interpretControlFrameCommonHeader)).1, (processControlFrameHeader fresh (startPayload
        (appendFrame reading frame.header) .interpretControlFrameCommonHeader)).2, _) = _
    rw [header]
  have count : buffering.remainingControlPayload = frame.payload.length :=
    control_left.trans (ready.agree.length.trans length)
  have takes := @payload_takes zlib fresh buffering payload (left.trans control_left.symm)
    (frame.payload ++ more)
  rw [TakesOn, count, (take_payload _ _).1, (take_payload _ _).2, takePayload,
    if_neg (not_not.mpr (by simp only [consumeFrame, count, Nat.sub_self]))] at takes
  refine ⟨_, _, passes.trans (.trans (.one ?_ ?_ first)
    (.trans (.one ?_ ?_ second) (.one ?_ ?_ takes))), .inr (.inl rfl), ?_⟩
  · exact plain_of ready.reading (by decide)
  · exact working_of some_data ready.reading (by decide)
  · rfl
  · exact @working_of zlib fresh _ _ .interpretControlFrameCommonHeader some_data rfl (by decide)
  · exact plain_of payload (by decide)
  · exact working_of some_data payload (by decide)
  · intro none_made streamId
    exact (congrFun decompressors streamId).trans (closed none_made streamId)

theorem noop_read {framer : Framer zlib} (between : Between framer) {frame : Frame}
    (control : frame.buffer.isControlFrame = true) (accepted : frame.Accepted)
    (type : frame.buffer.type = noop) (more : List UInt8) :
    ∃ framer', Passes (spdyFramer zlib fresh) atHead framer (frame.bytes ++ more) framer' []
        [(frame.bytes ++ more).length] (frame.payload ++ more) ∧
      Between framer' := by
  obtain ⟨reading, state, closed, len, passes⟩ := @header_read zlib fresh framer between frame more
  have ready := headed state closed len frame
  rw [takeHeader_more ready (.inl control)] at passes
  have version := (accepted control).1
  exact ⟨_, passes, .inr (.inr (.inr ⟨state, ready.full,
    ready.agree.isControlFrame.trans control, ready.agree.version.trans version,
    ready.agree.type.trans type⟩)), closed⟩

end Glopen.Spdy

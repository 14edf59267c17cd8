import Glopen.Spdy.ChunkInvariance
import Glopen.Spdy.Frames

/-! Where the framer takes frames to begin. It keeps in step with the frames of a stream, unless a
NOOP frame has a payload. -/
namespace Glopen.Spdy

open Feeding List
variable {zlib : Zlib} {fresh : Nat → Buffer}

def Zlib.Progresses (zlib : Zlib) (pending : zlib.Stream → Nat) : Prop :=
  ∀ stream input room, input ≠ [] → 0 < room → (zlib.inflate stream input room).ok = true →
    (zlib.inflate stream input room).availIn < input.length ∨
      (zlib.inflate stream input room).availIn = input.length ∧
        pending (zlib.inflate stream input room).stream < pending stream

def Undamaged (framer : Framer zlib) (data : List UInt8) : Prop :=
  framer.state = .forwardStreamFrame → framer.remainingPayload ≠ 0 →
    framer.currentFrameBuffer.hasFlag dataFlagCompressed = true →
    ∀ stream, getStreamDecompressor framer framer.currentFrameBuffer.dataStreamId = some stream →
      (zlib.inflate stream (data.take (min framer.remainingPayload data.length))
        (min framer.remainingPayload data.length * 100)).ok = true

theorem inflate_pass {framer : Framer zlib} (forwards : framer.state = .forwardStreamFrame)
    (compressed : framer.currentFrameBuffer.hasFlag dataFlagCompressed = true)
    {payload more : List UInt8} (remaining : framer.remainingPayload = payload.length)
    (some_payload : payload ≠ []) {stream : zlib.Stream}
    (found : getStreamDecompressor framer framer.currentFrameBuffer.dataStreamId = some stream)
    (ok : (zlib.inflate stream payload (payload.length * 100)).ok = true) :
    let inflated := zlib.inflate stream payload (payload.length * 100)
    let count := payload.length - inflated.availIn
    let ended := endForwarding (setDecompressor framer
      framer.currentFrameBuffer.dataStreamId (some inflated.stream)) count
      (dataEvents framer.currentFrameBuffer.dataStreamId inflated.output)
    (spdyFramer zlib fresh).step framer (payload ++ more) = (ended.1, ended.2, payload.drop count ++ more) := by
  have pass : (spdyFramer zlib fresh).step framer (payload ++ more) =
      processDataFramePayload framer (payload ++ more) := by
    change processPass fresh framer _ = _
    unfold processPass
    rw [forwards]
  have some_length : payload.length ≠ 0 :=
    fun none_left => some_payload (eq_nil_of_length_eq_zero none_left)
  have amount : min payload.length (payload ++ more).length = payload.length := by
    rw [length_append]
    omega
  rw [pass]
  simp only [processDataFramePayload, remaining, if_pos some_length, forwards, amount]
  rw [if_pos ⟨some_length, by decide⟩, if_pos compressed]
  simp only [forwardCompressed, found, take_left, ok, Bool.not_true]
  rw [if_neg (by decide), finish_eq, drop_append_of_le_length (Nat.sub_le _ _)]

theorem inflate_read {pending : zlib.Stream → Nat} (progresses : zlib.Progresses pending)
    {framer : Framer zlib} {frame : Frame} (closed : Closed framer)
    (forwards : framer.state = .forwardStreamFrame) (agree : Agree framer.currentFrameBuffer frame.buffer)
    (compressed : frame.buffer.hasFlag dataFlagCompressed = true) {payload more : List UInt8}
    (remaining : framer.remainingPayload = payload.length) (some_payload : payload ≠ []) {stream : zlib.Stream}
    (found : getStreamDecompressor framer framer.currentFrameBuffer.dataStreamId = some stream)
    {pieces : List (List UInt8)} {log : List Event}
    (undamaged : AllGood (spdyFramer zlib fresh) Undamaged ⟨framer, payload ++ more, pieces, log⟩) :
    ∃ framer' events, Passes (spdyFramer zlib fresh) atHead framer (payload ++ more) framer' events [] more ∧
      Between framer' := by
  have some_data := append_ne_nil_of_left_ne_nil some_payload more
  have some_length : 0 < payload.length := length_pos_iff.mpr some_payload
  have working := @working_of zlib fresh framer _ _ some_data forwards (by decide)
  have compressed' := (agree.hasFlag dataFlagCompressed).trans compressed
  have ok := undamaged _ .refl working forwards (by simp only [remaining]; omega) compressed' stream found
  simp only [remaining, (take_payload payload more).1] at ok
  have amount : min payload.length (payload ++ more).length = payload.length := by
    rw [length_append]
    omega
  rw [amount] at ok
  have step := @inflate_pass zlib fresh framer forwards compressed' payload more remaining
    some_payload stream found ok
  have shorter := progresses stream payload (payload.length * 100) some_payload (by omega) ok
  simp only at step
  generalize zlib.inflate stream payload (payload.length * 100) = inflated at step shorter
  have open_now : ∀ count, Closed (inflatePart framer count inflated.stream) := by
    intro count none_made
    rw [getStreamDecompressor, closed none_made, none_made] at found
    cases found
  by_cases all : inflated.availIn = 0
  · rw [all, Nat.sub_zero, drop_length, nil_append] at step
    obtain ⟨framer', finished, between⟩ := @end_all zlib frame (setDecompressor framer
      framer.currentFrameBuffer.dataStreamId (some inflated.stream)) forwards agree (open_now 0)
      (dataEvents framer.currentFrameBuffer.dataStreamId inflated.output)
    rw [show (setDecompressor framer framer.currentFrameBuffer.dataStreamId
      (some inflated.stream)).remainingPayload = payload.length from remaining] at finished
    rw [finished] at step
    exact ⟨framer', _, .one (plain_of forwards (by decide)) working step, between⟩
  · have short : payload.length - inflated.availIn < framer.remainingPayload := by omega
    rw [@end_part zlib (setDecompressor framer framer.currentFrameBuffer.dataStreamId
      (some inflated.stream)) _ short] at step
    have first : Passes _ atHead _ _ _ _ [] _ := .one (plain_of forwards (by decide)) working step
    have left : (payload.drop (payload.length - inflated.availIn)).length = inflated.availIn := by
      rw [length_drop]
      omega
    have some_left : payload.drop (payload.length - inflated.availIn) ≠ [] := by
      intro empty
      rw [empty] at left
      exact all left.symm
    obtain ⟨framer', events, passes, between⟩ := inflate_read progresses
      (open_now (payload.length - inflated.availIn)) forwards agree compressed
      (by rw [left]; simp only [inflatePart, forwardPart, setDecompressor]; omega) some_left
      (inflatePart_stream framer _ inflated.stream) (first.allGood undamaged)
    exact ⟨framer', _, first.trans passes, between⟩
termination_by (payload.length, pending stream)
decreasing_by
  rw [left]
  rcases shorter with less | ⟨same, lower⟩
  · exact Prod.Lex.left _ _ less
  · rw [same]
    exact Prod.Lex.right _ lower

theorem compressed_start {framer : Framer zlib} (between : Between framer) {frame : Frame}
    (compressed : frame.Compressed) (more : List UInt8) :
    ∃ forwarding : Framer zlib, forwarding.state = .forwardStreamFrame ∧ Closed forwarding ∧
      Agree forwarding.currentFrameBuffer frame.buffer ∧
      forwarding.remainingPayload = frame.payload.length ∧
      Passes (spdyFramer zlib fresh) atHead framer (frame.bytes ++ more) forwarding []
        [(frame.bytes ++ more).length] (frame.payload ++ more) := by
  obtain ⟨data, flag, some_payload⟩ := compressed
  obtain ⟨reading, state, closed, len, passes⟩ := @header_read zlib fresh framer between frame more
  have ready := headed state closed len frame
  rw [takeHeader_more ready (Or.inr some_payload)] at passes
  obtain ⟨first, remaining⟩ := @forward_read zlib fresh frame _ ready data some_payload more
  exact ⟨startPayload (appendFrame reading frame.header) .forwardStreamFrame, rfl, closed,
    ready.agree, remaining, passes.trans first⟩

theorem spin_pass {framer : Framer zlib} (forwards : framer.state = .forwardStreamFrame)
    (remaining : framer.remainingPayload ≠ 0)
    (compressed : framer.currentFrameBuffer.hasFlag dataFlagCompressed = true)
    (closed : Closed framer) (none_made : zlib.inflateInit = none) {data : List UInt8}
    (some_data : data ≠ []) : (spdyFramer zlib fresh).step framer data = (framer, [], data) := by
  have found : getStreamDecompressor framer framer.currentFrameBuffer.dataStreamId = none := by
    rw [getStreamDecompressor, closed none_made, none_made]
    rfl
  have amount : min framer.remainingPayload data.length ≠ 0 := by
    have := length_pos_iff.mpr some_data
    omega
  change processPass fresh framer data = _
  unfold processPass
  rw [forwards]
  simp only [processDataFramePayload, if_pos remaining, forwards]
  rw [if_pos ⟨amount, by decide⟩, if_pos compressed]
  simp only [forwardCompressed, found]

def InStep (zlib : Zlib) (frame : Frame) : Prop :=
  ¬ frame.PaddedNoop ∧ (frame.Compressed → zlib.inflateInit ≠ none)

theorem frame_read {pending : zlib.Stream → Nat} (progresses : zlib.Progresses pending)
    {framer : Framer zlib} (between : Between framer) {frame : Frame} (accepted : frame.Accepted)
    (in_step : InStep zlib frame) {more : List UInt8} {log : List Event}
    (undamaged : AllGood (spdyFramer zlib fresh) Undamaged ⟨framer, frame.bytes ++ more, [], log⟩) :
    ∃ framer' events, Passes (spdyFramer zlib fresh) atHead framer (frame.bytes ++ more) framer' events
        [(frame.bytes ++ more).length] more ∧
      Between framer' := by
  by_cases control : frame.buffer.isControlFrame = true
  · by_cases type : frame.buffer.type = noop
    · obtain ⟨framer', passes, after⟩ := @noop_read zlib fresh framer between frame control accepted type more
      have empty : frame.payload = [] :=
        not_not.mp fun some_payload => in_step.1 ⟨control, type, some_payload⟩
      rw [empty, nil_append] at passes
      exact ⟨framer', _, passes, after⟩
    · exact control_read between control accepted type more
  · have data := Bool.not_eq_true _ ▸ control
    by_cases compressed : frame.Compressed
    · obtain ⟨forwarding, forwards, closed, agree, remaining, passes⟩ :=
        @compressed_start zlib fresh framer between frame compressed more
      obtain ⟨stream, found⟩ : ∃ stream, getStreamDecompressor forwarding
          forwarding.currentFrameBuffer.dataStreamId = some stream := by
        rw [getStreamDecompressor]
        cases forwarding.streamDecompressors forwarding.currentFrameBuffer.dataStreamId with
        | some stream => exact ⟨stream, rfl⟩
        | none => exact Option.ne_none_iff_exists'.mp (in_step.2 compressed)
      obtain ⟨framer', events, rest, after⟩ := inflate_read progresses closed forwards agree
        compressed.2.1 remaining compressed.2.2 found (passes.allGood undamaged)
      have both := passes.trans rest
      rw [append_nil] at both
      exact ⟨framer', _, both, after⟩
    · obtain ⟨framer', passes, after⟩ := @data_read zlib fresh framer between frame data compressed more
      exact ⟨framer', _, passes, after⟩

def frameStream (frames : List Frame) : List UInt8 := frames.flatMap Frame.bytes

def frameStarts : List Frame → List Nat
  | [] => []
  | frame :: frames => (frameStream (frame :: frames)).length :: frameStarts frames

theorem frameStream_cons (frame : Frame) (frames : List Frame) :
    frameStream (frame :: frames) = frame.bytes ++ frameStream frames := flatMap_cons

theorem frames_read {pending : zlib.Stream → Nat} (progresses : zlib.Progresses pending)
    {framer : Framer zlib} (between : Between framer) {frames : List Frame}
    (accepted : ∀ frame ∈ frames, frame.Accepted) (in_step : ∀ frame ∈ frames, InStep zlib frame)
    {log : List Event} (undamaged : AllGood (spdyFramer zlib fresh) Undamaged
      ⟨framer, frameStream frames, [], log⟩) :
    ∃ framer' events, Passes (spdyFramer zlib fresh) atHead framer (frameStream frames) framer'
      events (frameStarts frames) [] := by
  induction frames generalizing framer log with
  | nil => exact ⟨framer, [], .refl⟩
  | cons frame frames ih =>
    rw [frameStream_cons] at undamaged
    obtain ⟨next, first, passes, after⟩ := frame_read progresses between
      (accepted frame (mem_cons_self ..)) (in_step frame (mem_cons_self ..)) undamaged
    obtain ⟨framer', events, rest⟩ := ih after
      (fun other member => accepted other (mem_cons_of_mem frame member))
      (fun other member => in_step other (mem_cons_of_mem frame member))
      (passes.allGood undamaged)
    refine ⟨framer', first ++ events, ?_⟩
    rw [frameStarts, frameStream_cons]
    exact passes.trans rest

theorem padded_noop {framer : Framer zlib} (between : Between framer) {frame : Frame}
    (accepted : frame.Accepted) (padded : frame.PaddedNoop) (more : List UInt8) :
    ∃ framer', Passes (spdyFramer zlib fresh) atHead framer (frame.bytes ++ more) framer' []
        [(frame.bytes ++ more).length, (frame.payload ++ more).length]
        (frame.payload ++ more) := by
  obtain ⟨control, type, some_payload⟩ := padded
  obtain ⟨next, passes, after⟩ := @noop_read zlib fresh framer between frame control accepted type more
  have some_data := append_ne_nil_of_left_ne_nil some_payload more
  obtain ⟨start, head, -, second⟩ := @between_head zlib fresh next after _ some_data
  exact ⟨_, passes.trans (second.trans (begin_pass head some_data))⟩

theorem frames_in_step {pending : zlib.Stream → Nat} (progresses : zlib.Progresses pending)
    {framer framer' : Framer zlib} (between : Between framer) {frames : List Frame}
    (accepted : ∀ frame ∈ frames, frame.Accepted)
    {log events : List Event} (undamaged : AllGood (spdyFramer zlib fresh) Undamaged
      ⟨framer, frameStream frames, [], log⟩)
    (passes : Passes (spdyFramer zlib fresh) atHead framer (frameStream frames) framer' events
      (frameStarts frames) []) :
    ∀ frame ∈ frames, InStep zlib frame := by
  induction frames generalizing framer log events with
  | nil => exact fun frame member => absurd member not_mem_nil
  | cons frame frames ih =>
    rw [frameStream_cons] at undamaged passes
    have starts : frameStarts (frame :: frames) =
        [(frame.bytes ++ frameStream frames).length] ++ frameStarts frames := by
      rw [frameStarts, frameStream_cons]
      rfl
    have here := accepted frame (mem_cons_self ..)
    have in_step : InStep zlib frame := by
      constructor
      · intro padded
        obtain ⟨next, first⟩ := @padded_noop zlib fresh framer between frame here padded (frameStream frames)
        obtain ⟨more, heads, -, -, same⟩ := first.goOn passes (Or.inl rfl)
        rw [starts, singleton_append, cons_append, cons_inj_right] at same
        have some_payload := length_pos_iff.mpr padded.2.2
        cases frames with
        | nil => cases same
        | cons other frames =>
          have length := (List.cons.inj same).1
          rw [length_append] at length
          omega
      · intro compressed closed_now
        obtain ⟨forwarding, forwards, closed, agree, remaining, first⟩ :=
          @compressed_start zlib fresh framer between frame compressed (frameStream frames)
        obtain ⟨more, heads, rest, -, -⟩ := first.goOn passes (Or.inl rfl)
        have some_data := append_ne_nil_of_left_ne_nil compressed.2.2 (frameStream frames)
        have some_left : forwarding.remainingPayload ≠ 0 := by
          rw [remaining]
          exact fun none_left => compressed.2.2 (eq_nil_of_length_eq_zero none_left)
        exact rest.stuck (working_of some_data forwards (by decide))
          (spin_pass forwards some_left ((agree.hasFlag _).trans compressed.2.1) closed closed_now
            some_data) (Or.inl rfl)
    obtain ⟨next, first, read, after⟩ := frame_read progresses between here in_step undamaged
    obtain ⟨more, heads, rest, -, same⟩ := read.goOn passes (Or.inl rfl)
    rw [starts, append_cancel_left_eq] at same
    rw [← same] at rest
    intro other member
    rcases mem_cons.mp member with rfl | member
    · exact in_step
    · exact ih after (fun other member => accepted other (mem_cons_of_mem frame member))
        (read.allGood undamaged) rest other member

theorem new_between : Between (newFramer zlib) := ⟨Or.inl rfl, fun _ _ => rfl⟩

def undamaged (framer : Framer zlib) (data : List UInt8) : Bool :=
  if framer.state = .forwardStreamFrame ∧ framer.currentFrameBuffer.hasFlag dataFlagCompressed then
    match getStreamDecompressor framer framer.currentFrameBuffer.dataStreamId with
    | none => true
    | some stream =>
      let amount := min framer.remainingPayload data.length
      (zlib.inflate stream (data.take amount) (amount * 100)).ok
  else true

theorem undamaged_spec {framer : Framer zlib} {data : List UInt8}
    (checked : undamaged framer data = true) : Undamaged framer data := by
  intro forwards _ compressed stream found
  rw [undamaged, if_pos ⟨forwards, compressed⟩, found] at checked
  exact checked

theorem storedZlib_progresses : storedZlib.Progresses fun _ => 0 := by
  intro stored input room some_input _ ok
  left
  cases ran : Stored.run stored input with
  | none =>
    simp only [storedZlib, ran] at ok
    cases ok
  | some result =>
    simp only [storedZlib, ran]
    exact length_pos_iff.mpr some_input

instance (frame : Frame) : Decidable frame.Accepted := inferInstanceAs (Decidable (_ → _))

instance (frame : Frame) : Decidable frame.PaddedNoop :=
  inferInstanceAs (Decidable (_ ∧ _ ∧ _))

theorem goaway_declared :
    ([0, 0, 0, 1] : List UInt8).length = (headerOf [0x80, 1, 0, 7, 0, 0, 0, 4]).length := rfl

theorem noop_declared : ([] : List UInt8).length = (headerOf [0x80, 1, 0, 5, 0, 0, 0, 0]).length := rfl

theorem padded_declared :
    ([0, 0, 0, 1] : List UInt8).length = (headerOf [0x80, 1, 0, 5, 0, 0, 0, 4]).length := rfl

theorem data_declared : ([0x68, 0x69] : List UInt8).length = (headerOf [0, 0, 0, 1, 0, 0, 0, 2]).length := rfl

theorem compressed_declared : ([0x78, 1, 0, 1, 0, 0xfe, 0xff, 0x61] : List UInt8).length =
    (headerOf [0, 0, 0, 1, 2, 0, 0, 8]).length := rfl

def goawayFrame : Frame := ⟨[0x80, 1, 0, 7, 0, 0, 0, 4], [0, 0, 0, 1], rfl, goaway_declared⟩

def noopFrame : Frame := ⟨[0x80, 1, 0, 5, 0, 0, 0, 0], [], rfl, noop_declared⟩

def paddedFrame : Frame := ⟨[0x80, 1, 0, 5, 0, 0, 0, 4], [0, 0, 0, 1], rfl, padded_declared⟩

def dataFrame : Frame := ⟨[0, 0, 0, 1, 0, 0, 0, 2], [0x68, 0x69], rfl, data_declared⟩

def smallFrame : Frame :=
  ⟨[0, 0, 0, 1, 2, 0, 0, 8], [0x78, 1, 0, 1, 0, 0xfe, 0xff, 0x61], rfl, compressed_declared⟩

end Glopen.Spdy

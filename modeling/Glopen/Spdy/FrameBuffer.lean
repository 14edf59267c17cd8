import Glopen.Spdy.ErrorRuns

/-! The control frame buffer. Its capacity counts the header, but it is compared with the length
of the payload alone. -/
namespace Glopen.Spdy

open Feeding
variable {zlib : Zlib} {fresh : Nat → Buffer}

def Buffered (buffer : Buffer) : Prop :=
  buffer.version = kSpdyProtocolVersion ∧ appearsToBeAValidControlFrame buffer = true ∧ buffer.type ≠ noop

/-- No frame is buffered whose payload is below the initial capacity, but not together with its
header. -/
def RoomyPass (framer : Framer zlib) (_ : List UInt8) : Prop :=
  framer.state = .interpretControlFrameCommonHeader → Buffered framer.currentFrameBuffer →
    ¬ (kControlFrameBufferInitialSize < framer.currentFrameBuffer.length ∧
      framer.currentFrameBuffer.length < kControlFrameBufferInitialSize + frameSize)

structure Fits (framer : Framer zlib) : Prop where
  allocated : framer.currentFrameCapacity = 0 ∨
    kControlFrameBufferInitialSize + frameSize ≤ framer.currentFrameCapacity
  bound : framer.currentFrameLen ≤ framer.currentFrameCapacity
  common : framer.state = .readingCommonHeader →
    framer.currentFrameCapacity = kControlFrameBufferInitialSize + frameSize ∧
      framer.currentFrameLen ≤ frameSize
  header : framer.state = .interpretControlFrameCommonHeader →
    framer.currentFrameCapacity = kControlFrameBufferInitialSize + frameSize ∧
      framer.currentFrameLen = frameSize
  payload : framer.state = .controlFramePayload →
    framer.currentFrameLen + framer.remainingControlPayload ≤ framer.currentFrameCapacity

theorem Fits.failed {framer framer' : Framer zlib} (fits : Fits framer)
    (len : framer'.currentFrameLen = framer.currentFrameLen)
    (capacity : framer'.currentFrameCapacity = framer.currentFrameCapacity)
    (state : framer'.state = .error) : Fits framer' := by
  have other : ∀ {phase}, framer'.state = phase → phase = .error :=
    fun same => same.symm.trans state
  exact ⟨by rw [capacity]; exact fits.allocated, by rw [len, capacity]; exact fits.bound,
    fun same => (by cases other same), fun same => (by cases other same),
    fun same => (by cases other same)⟩

variable {framer : Framer zlib}

theorem Fits.leave {framer' : Framer zlib} (fits : Fits framer)
    (len : framer'.currentFrameLen = framer.currentFrameLen)
    (capacity : framer'.currentFrameCapacity = framer.currentFrameCapacity)
    (control : framer'.remainingControlPayload = framer.remainingControlPayload)
    (state : framer'.state = framer.state ∨ framer'.state = .error ∨ framer'.state = .autoReset ∨
      framer'.state = .forwardStreamFrame) : Fits framer' := by
  constructor
  · rw [capacity]
    exact fits.allocated
  · rw [len, capacity]
    exact fits.bound
  · intro reading
    rw [len, capacity]
    rcases state with same | other | other | other
    · exact fits.common (same.symm.trans reading)
    all_goals rw [other] at reading; cases reading
  · intro reading
    rw [len, capacity]
    rcases state with same | other | other | other
    · exact fits.header (same.symm.trans reading)
    all_goals rw [other] at reading; cases reading
  · intro reading
    rw [len, capacity, control]
    rcases state with same | other | other | other
    · exact fits.payload (same.symm.trans reading)
    all_goals rw [other] at reading; cases reading

theorem reset_fits (fits : Fits framer) :
    Fits { resetFramer fresh framer with state := .readingCommonHeader } := by
  have initial : kControlFrameBufferInitialSize = 32768 := rfl
  have small : framer.currentFrameCapacity ≠ kControlFrameBufferInitialSize := by
    have size : frameSize = 8 := rfl
    have := fits.allocated
    omega
  simp only [resetFramer, if_pos small, expandControlFrameBuffer, Nat.not_lt_zero, if_false]
  exact ⟨Or.inr (Nat.le_refl _), Nat.zero_le _, fun _ => ⟨rfl, Nat.zero_le _⟩,
    fun other => (by cases other), fun other => (by cases other)⟩

theorem common_fits (fits : Fits framer) (reading : framer.state = .readingCommonHeader) (data : List UInt8) :
    Fits (processCommonHeader framer data).1 := by
  obtain ⟨capacity, len⟩ := fits.common reading
  have size : frameSize = 8 := rfl
  simp only [processCommonHeader]
  split
  · have append : framer.currentFrameLen + min (frameSize - framer.currentFrameLen) data.length ≤
        frameSize := by omega
    split
    · exact ⟨fits.allocated, by simp only; omega, fun other => (by cases other),
        fun other => (by cases other), fun other => (by cases other)⟩
    · refine ⟨fits.allocated, by simp only; omega, fun _ => ⟨capacity, append⟩, ?_, ?_⟩
      · intro other
        rw [show framer.state = _ from other] at reading
        cases reading
      · intro other
        rw [show framer.state = _ from other] at reading
        cases reading
  · split
    · exact fits.leave rfl rfl rfl (.inr (.inr (.inr rfl)))
    · exact ⟨fits.allocated, fits.bound, fun other => (by cases other),
        fun _ => ⟨capacity, by simp only; omega⟩, fun other => (by cases other)⟩

theorem buffered_fits {n : Nat} (len : framer.currentFrameLen = frameSize)
    (capacity : framer.currentFrameCapacity = kControlFrameBufferInitialSize + frameSize)
    (control : framer.remainingControlPayload = n)
    (window : ¬ (kControlFrameBufferInitialSize < n ∧ n < kControlFrameBufferInitialSize + frameSize)) :
    Fits { expandControlFrameBuffer fresh framer n with state := .controlFramePayload } := by
  have size : frameSize = 8 := rfl
  have initial : kControlFrameBufferInitialSize = 32768 := rfl
  unfold expandControlFrameBuffer
  split
  · exact ⟨.inr (by simp only; omega), by simp only; omega, fun other => (by cases other),
      fun other => (by cases other), fun _ => by simp only; omega⟩
  · exact ⟨.inr (by simp only; omega), by simp only; omega, fun other => (by cases other),
      fun other => (by cases other), fun _ => by simp only; omega⟩

theorem header_fits (fits : Fits framer)
    (interpret : framer.state = .interpretControlFrameCommonHeader) (data : List UInt8)
    (roomy : RoomyPass framer data) : Fits (processControlFrameHeader fresh framer).1 := by
  obtain ⟨capacity, len⟩ := fits.header interpret
  have size : frameSize = 8 := rfl
  have initial : kControlFrameBufferInitialSize = 32768 := rfl
  have pass := header_pass fresh framer
  generalize processControlFrameHeader fresh framer = result at pass ⊢
  cases pass with
  | rejected code bad => exact fits.failed rfl rfl rfl
  | swallowed version type => exact fits.leave rfl rfl rfl (.inr (.inr (.inl rfl)))
  | tooLarge events type large => exact fits.failed rfl rfl rfl
  | buffered phase code events version valid type small checked =>
    exact buffered_fits len capacity rfl (roomy interpret ⟨version, valid, type⟩)

theorem deliver_fits (allocated : framer.currentFrameCapacity = 0 ∨
      kControlFrameBufferInitialSize + frameSize ≤ framer.currentFrameCapacity)
    (bound : framer.currentFrameLen ≤ framer.currentFrameCapacity) : Fits (deliverControlFrame framer).1 :=
  ⟨allocated, bound, fun other => (by cases other), fun other => (by cases other), fun other => (by cases other)⟩

theorem payload_fits (fits : Fits framer) (reading : framer.state = .controlFramePayload) (data : List UInt8) :
    Fits (processControlFramePayload framer data).1 := by
  have room := fits.payload reading
  simp only [processControlFramePayload]
  split
  · have append : framer.currentFrameLen + min framer.remainingControlPayload data.length ≤
        framer.currentFrameCapacity := by omega
    split
    · refine ⟨fits.allocated, append, ?_, ?_, fun _ => by simp only; omega⟩
      · intro other
        rw [show framer.state = _ from other] at reading
        cases reading
      · intro other
        rw [show framer.state = _ from other] at reading
        cases reading
    · exact deliver_fits fits.allocated append
  · exact deliver_fits fits.allocated fits.bound

theorem finish_fits (fits : Fits framer) (amount : Nat) (events : List Event) (data : List UInt8) :
    Fits (finishForwarding framer amount events data).1 := by
  simp only [finishForwarding]
  split
  · exact fits.leave rfl rfl rfl (.inl rfl)
  · exact fits.leave rfl rfl rfl (.inl rfl)

theorem compressed_fits (fits : Fits framer) (data : List UInt8)
    (amount : Nat) : Fits (forwardCompressed framer data amount).1 := by
  unfold forwardCompressed
  cases found : getStreamDecompressor framer framer.currentFrameBuffer.dataStreamId with
  | none =>
    simp only [found]
    exact fits
  | some stream =>
    simp only [found]
    split
    · exact fits.leave rfl rfl rfl (.inr (.inl rfl))
    · apply finish_fits
      exact fits.leave rfl rfl rfl (.inl rfl)

theorem data_fits (fits : Fits framer) (data : List UInt8) : Fits (processDataFramePayload framer data).1 := by
  simp only [processDataFramePayload]
  split
  · split
    · split
      · exact compressed_fits fits data _
      · exact finish_fits fits _ _ _
    · exact finish_fits fits _ _ _
  · exact fits.leave rfl rfl rfl (.inr (.inr (.inl rfl)))

theorem pass_fits {framer : Framer zlib} {data : List UInt8} (fits : Fits framer)
    (roomy : RoomyPass framer data) : Fits (processPass fresh framer data).1 := by
  unfold processPass
  cases phase : framer.state with
  | error | done => exact fits
  | reset | autoReset => exact reset_fits fits
  | readingCommonHeader => exact common_fits fits phase data
  | interpretControlFrameCommonHeader => exact header_fits fits phase data roomy
  | controlFramePayload => exact data_fits (payload_fits fits phase data) _
  | ignoreRemainingPayload | forwardStreamFrame => exact data_fits fits data

theorem new_fits (zlib : Zlib) : Fits (newFramer zlib) :=
  ⟨.inl rfl, Nat.le_refl 0, fun other => (by cases other), fun other => (by cases other),
    fun other => (by cases other)⟩

/-- In every run without a buffered frame of 32769 to 32775 bytes of payload, the bytes of a
frame stay within the capacity. -/
theorem frame_buffer_bound {pieces : List (List UInt8)} {session : Session (Framer zlib) UInt8 Event}
    (run : Run (spdyFramer zlib fresh) RoomyPass ⟨newFramer zlib, [], pieces, []⟩ session) :
    session.state.currentFrameLen ≤ session.state.currentFrameCapacity := by
  have fits : Fits session.state := by
    refine @run_invariant _ _ _ _ _ (fun framer _ => Fits framer) ?_ _ _ run (new_fits zlib)
    intro framer framer' data left events new fits working roomy pass
    have after := @pass_fits zlib fresh framer data fits roomy
    rw [show processPass fresh framer data = (framer', new, left) from pass] at after
    exact after
  exact fits.bound

instance : DecidablePred Buffered := fun _ => inferInstanceAs (Decidable (_ ∧ _ ∧ _))

instance (framer : Framer zlib) (data : List UInt8) : Decidable (RoomyPass framer data) :=
  inferInstanceAs (Decidable (_ → _ → ¬ _))

def resetFrame : Session (Framer noZlib) UInt8 Event :=
  ⟨newFramer noZlib, [], [[0x80, 1, 0, 3, 0], [0, 0, 8, 0, 0, 0, 1, 0, 0, 0, 5]], []⟩

theorem reset_frame_bound :
    let session := (spdyFramer noZlib zeroBuffers).advance^[7] resetFrame
    session.state.currentFrameLen ≤ session.state.currentFrameCapacity := by
  have roomy : ∀ i < 7, RoomyPass ((spdyFramer noZlib zeroBuffers).advance^[i] resetFrame).state
      ((spdyFramer noZlib zeroBuffers).advance^[i] resetFrame).data := by decide +kernel
  exact frame_buffer_bound (iterate_run roomy)

theorem data_len (framer : Framer zlib) (data : List UInt8) :
    (processDataFramePayload framer data).1.currentFrameLen = framer.currentFrameLen ∧
    (processDataFramePayload framer data).1.currentFrameCapacity = framer.currentFrameCapacity := by
  have finish : ∀ (framer : Framer zlib) amount events,
      (finishForwarding framer amount events data).1.currentFrameLen = framer.currentFrameLen ∧
      (finishForwarding framer amount events data).1.currentFrameCapacity = framer.currentFrameCapacity := by
    intro framer amount events
    simp only [finishForwarding]
    split
    · exact ⟨rfl, rfl⟩
    · exact ⟨rfl, rfl⟩
  simp only [processDataFramePayload]
  split
  · split
    · split
      · unfold forwardCompressed
        cases found : getStreamDecompressor framer framer.currentFrameBuffer.dataStreamId with
        | none =>
          simp only [found]
          exact ⟨trivial, trivial⟩
        | some stream =>
          simp only [found]
          split
          · exact ⟨rfl, rfl⟩
          · exact finish _ _ _
      · exact finish _ _ _
    · exact finish _ _ _
  · exact ⟨rfl, rfl⟩

theorem payload_len {framer : Framer zlib} (reading : framer.state = .controlFramePayload)
    (data : List UInt8) (more : framer.remainingControlPayload ≠ 0) :
    (processPass fresh framer data).1.currentFrameLen =
      framer.currentFrameLen + min framer.remainingControlPayload data.length ∧
    (processPass fresh framer data).1.currentFrameCapacity = framer.currentFrameCapacity := by
  have appended : (processControlFramePayload framer data).1.currentFrameLen =
      framer.currentFrameLen + min framer.remainingControlPayload data.length ∧
      (processControlFramePayload framer data).1.currentFrameCapacity = framer.currentFrameCapacity := by
    simp only [processControlFramePayload, if_pos more]
    split
    · exact ⟨rfl, rfl⟩
    · exact ⟨rfl, rfl⟩
  have later := data_len (processControlFramePayload framer data).1 (processControlFramePayload framer data).2.2
  rw [appended.1, appended.2] at later
  unfold processPass
  rw [reading]
  exact later

def windowFrame : Session (Framer noZlib) UInt8 Event :=
  ⟨newFramer noZlib, [], [[0x80, 1, 0, 1, 0, 0, 0x80, 1], List.replicate 32769 0], []⟩

theorem window_frame_overflows : ∃ session,
    Run (spdyFramer noZlib zeroBuffers) (fun _ _ => True) windowFrame session ∧
      session.state.currentFrameCapacity < session.state.currentFrameLen := by
  have header : Run (spdyFramer noZlib zeroBuffers) (fun _ _ => True) windowFrame
      ((spdyFramer noZlib zeroBuffers).advance^[6] windowFrame) :=
    iterate_run fun _ _ => trivial
  generalize reached : (spdyFramer noZlib zeroBuffers).advance^[6] windowFrame = session at header
  have data : session.data = List.replicate 32769 0 := by rw [← reached]; rfl
  have state : session.state.state = .controlFramePayload := by rw [← reached]; rfl
  have len : session.state.currentFrameLen = 8 := by rw [← reached]; rfl
  have capacity : session.state.currentFrameCapacity = 32776 := by rw [← reached]; rfl
  have control : session.state.remainingControlPayload = 32769 := by rw [← reached]; rfl
  have working : ¬ (spdyFramer noZlib zeroBuffers).Returns session.state session.data := by
    rintro (none_left | stopped)
    · rw [data] at none_left
      cases none_left
    · have failed := of_decide_eq_true stopped
      rw [state] at failed
      exact absurd failed (by decide)
  have after := @payload_len noZlib zeroBuffers session.state state session.data (by omega)
  rw [len, control, data, List.length_replicate, capacity] at after
  refine ⟨_, header.tail (.pass working trivial rfl), ?_⟩
  have overflow : (processPass zeroBuffers session.state session.data).1.currentFrameCapacity <
      (processPass zeroBuffers session.state session.data).1.currentFrameLen := by
    rw [data, after.1, after.2]
    decide
  exact overflow

end Glopen.Spdy

import Mathlib.Data.List.Basic
import Glopen.Spdy.Framer

/-! Errors of the framer. A header whose size is rejected is reported, but its frame is read on. -/
namespace Glopen.Spdy

open Feeding
variable {zlib : Zlib} {fresh : Nat → Buffer}

def Failed (events : List Event) : Prop := ∃ code, Event.onError code ∈ events

def SaneHeader (buffer : Buffer) : Prop :=
  sizeIsSane buffer = true ∨ buffer.version ≠ kSpdyProtocolVersion ∨
    appearsToBeAValidControlFrame buffer = false ∨ buffer.type = noop ∨
    kControlFrameBufferMaxSize < buffer.length

def SanePass (framer : Framer zlib) (_ : List UInt8) : Prop :=
  framer.state = .interpretControlFrameCommonHeader → SaneHeader framer.currentFrameBuffer

theorem not_failed_nil : ¬ Failed [] := fun ⟨_, member⟩ => List.not_mem_nil member

theorem failed_append {events later : List Event} : Failed (events ++ later) ↔ Failed events ∨ Failed later := by
  simp only [Failed, List.mem_append, exists_or]

theorem not_failed_data (streamId : Nat) (data : List UInt8) : ¬ Failed [.onStreamFrameData streamId data] := by
  rintro ⟨code, member⟩
  cases List.mem_singleton.mp member

theorem not_failed_dataEvents (streamId : Nat) (data : List UInt8) : ¬ Failed (dataEvents streamId data) := by
  unfold dataEvents
  split
  · exact not_failed_nil
  · exact not_failed_data streamId data

theorem common_quiet (framer : Framer zlib) (data : List UInt8) :
    ¬ Failed (processCommonHeader framer data).2.1 := by
  simp only [processCommonHeader]
  split
  · split
    · simp only
      split
      · exact not_failed_data _ _
      · exact not_failed_nil
    · exact not_failed_nil
  · exact not_failed_nil

theorem deliver_quiet (framer : Framer zlib) : ¬ Failed (deliverControlFrame framer).2 := by
  rintro ⟨code, member⟩
  simp only [deliverControlFrame] at member
  split at member
  · simp at member
  · simp at member

theorem payload_quiet (framer : Framer zlib) (data : List UInt8) :
    ¬ Failed (processControlFramePayload framer data).2.1 := by
  simp only [processControlFramePayload]
  split
  · split
    · exact not_failed_nil
    · exact deliver_quiet _
  · exact deliver_quiet _

theorem finish_quiet {events : List Event} (quiet : ¬ Failed events) (framer : Framer zlib)
    (amount : Nat) (data : List UInt8) : ¬ Failed (finishForwarding framer amount events data).2.1 := by
  simp only [finishForwarding]
  split
  · rw [failed_append]
    exact not_or.mpr ⟨quiet, not_failed_data _ _⟩
  · exact quiet

variable {data : List UInt8} {framer : Framer zlib}

theorem compressed_failed {amount : Nat} (failed : Failed (forwardCompressed framer data amount).2.1) :
    (forwardCompressed framer data amount).1.state = .error := by
  unfold forwardCompressed at failed ⊢
  cases found : getStreamDecompressor framer framer.currentFrameBuffer.dataStreamId with
  | none =>
    simp only [found] at failed
    exact absurd failed not_failed_nil
  | some stream =>
    simp only [found] at failed ⊢
    split at failed
    · rename_i bad
      rw [if_pos bad]
      rfl
    · exact absurd failed (finish_quiet (not_failed_dataEvents _ _) _ _ _)

theorem data_failed (failed : Failed (processDataFramePayload framer data).2.1) :
    (processDataFramePayload framer data).1.state = .error := by
  unfold processDataFramePayload at failed ⊢
  simp only at failed ⊢
  split at failed
  · rename_i remaining
    rw [if_pos remaining]
    split at failed
    · rename_i forwards
      rw [if_pos forwards]
      split at failed
      · rename_i compressed
        rw [if_pos compressed]
        exact compressed_failed failed
      · exact absurd failed (finish_quiet (not_failed_dataEvents _ _) _ _ _)
    · exact absurd failed (finish_quiet not_failed_nil _ _ _)
  · exact absurd failed not_failed_nil

theorem header_failed (failed : Failed (processControlFrameHeader fresh framer).2) :
    (processControlFrameHeader fresh framer).1.state = .error ↔ SaneHeader framer.currentFrameBuffer := by
  have pass := header_pass fresh framer
  generalize processControlFrameHeader fresh framer = result at pass failed ⊢
  cases pass with
  | rejected code bad =>
    refine iff_of_true rfl ?_
    rcases bad with version | invalid
    · exact Or.inr (Or.inl version)
    · exact Or.inr (Or.inr (Or.inl invalid))
  | swallowed version type => exact absurd failed not_failed_nil
  | tooLarge events type large => exact iff_of_true rfl (Or.inr (Or.inr (Or.inr (Or.inr large))))
  | buffered phase code events version valid type small checked =>
    rcases checked with ⟨-, none_reported⟩ | ⟨insane, -⟩
    · rw [none_reported] at failed
      exact absurd failed not_failed_nil
    · apply iff_of_false
      · intro error
        cases error
      · rintro (sane | other | other | other | large)
        · exact absurd sane (by rw [insane]; decide)
        · exact other version
        · exact absurd valid (by rw [other]; decide)
        · exact type other
        · omega

theorem pass_failed {framer' : Framer zlib} {left : List UInt8} {new : List Event}
    (sane : SanePass framer data) (pass : processPass fresh framer data = (framer', new, left))
    (failed : Failed new) : framer'.state = .error := by
  unfold processPass at pass
  cases phase : framer.state with
  | error | done | reset | autoReset =>
    rw [phase] at pass
    cases pass
    exact absurd failed not_failed_nil
  | readingCommonHeader =>
    rw [phase] at pass
    have events := congrArg (·.2.1) pass
    exact absurd (events ▸ failed) (common_quiet framer data)
  | interpretControlFrameCommonHeader =>
    rw [phase] at pass
    cases pass
    exact (header_failed failed).mpr (sane phase)
  | controlFramePayload =>
    rw [phase] at pass
    cases pass
    rcases failed_append.mp failed with early | late
    · exact absurd early (payload_quiet framer data)
    · exact data_failed late
  | ignoreRemainingPayload | forwardStreamFrame =>
    rw [phase] at pass
    have failed : Failed (processDataFramePayload framer data).2.1 := by
      rw [show processDataFramePayload framer data = (framer', new, left) from pass]
      exact failed
    exact (congrArg (·.1.state) pass).symm.trans (data_failed failed)

/-- In every run whose headers are sane, an error is final: the state stays, nothing more is
reported, and nothing more is consumed of what arrives. -/
theorem error_sticks {framer : Framer zlib} {pieces : List (List UInt8)}
    {failed later : Session (Framer zlib) UInt8 Event}
    (run : Run (spdyFramer zlib fresh) SanePass ⟨framer, [], pieces, []⟩ failed)
    (error : Failed failed.events) (rest : Run (spdyFramer zlib fresh) (fun _ _ => True) failed later) :
    failed.state.state = .error ∧ later.state = failed.state ∧ later.events = failed.events ∧
      ∃ arrived, later.data = failed.data ++ arrived := by
  have final : Failed failed.events → failed.state.state = .error := by
    refine @run_invariant _ _ _ _ _ (fun framer events => Failed events → framer.state = .error)
      ?_ _ _ run (fun none_yet => absurd none_yet not_failed_nil)
    intro framer framer' data left events new inv working sane pass reported
    rcases failed_append.mp reported with before | now
    · have stopped : (spdyFramer zlib fresh).stops framer = true :=
        decide_eq_true (Or.inl (inv before))
      exact absurd (Or.inr stopped) working
    · exact pass_failed sane pass now
  have stopped : (spdyFramer zlib fresh).stops failed.state = true :=
    decide_eq_true (Or.inl (final error))
  exact ⟨final error, run_stopped rest stopped⟩

def noZlib : Zlib := ⟨Unit, none, fun stream _ _ => ⟨false, 0, [], stream⟩⟩

def zeroBuffers : Nat → Buffer := fun _ _ => 0

instance : DecidablePred SaneHeader := fun _ =>
  inferInstanceAs (Decidable (_ ∨ _ ∨ _ ∨ _ ∨ _))

instance (framer : Framer zlib) (data : List UInt8) : Decidable (SanePass framer data) :=
  inferInstanceAs (Decidable (_ → _))

def versionTwo : Session (Framer noZlib) UInt8 Event :=
  ⟨newFramer noZlib, [], [[0x80, 2, 0, 1, 0, 0, 0, 0, 9], [1, 2]], []⟩

theorem version_two_sticks :
    let failed := (spdyFramer noZlib zeroBuffers).advance^[5] versionTwo
    let later := (spdyFramer noZlib zeroBuffers).advance failed
    failed.state.state = .error ∧ later.state = failed.state ∧ later.events = failed.events ∧
      ∃ arrived, later.data = failed.data ++ arrived := by
  have sane : ∀ i < 5, SanePass ((spdyFramer noZlib zeroBuffers).advance^[i] versionTwo).state
      ((spdyFramer noZlib zeroBuffers).advance^[i] versionTwo).data := by decide +kernel
  exact error_sticks (iterate_run sane) ⟨.unsupportedVersion, by decide +kernel⟩ (advance_run trivial)

/-- A RST_STREAM frame of length 4 is reported as an error, and then read and delivered. -/
theorem short_reset_delivered : ((spdyFramer noZlib zeroBuffers).call 9 (newFramer noZlib)
      [0x80, 1, 0, 3, 0, 0, 0, 4, 0, 0, 0, 1]).map (fun result => (result.2.1, result.1.state, result.2.2)) =
      some ([.onError .invalidControlFrame,
        .onControl [0x80, 1, 0, 3, 0, 0, 0, 4, 0, 0, 0, 1]], .autoReset, []) := by
  decide +kernel

end Glopen.Spdy

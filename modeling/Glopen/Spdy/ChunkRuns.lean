import Glopen.Spdy.Chunks

/-! The framer does not notice how its input is cut into pieces. -/
namespace Glopen.Spdy

open Feeding List
variable {zlib : Zlib} {fresh : Nat → Buffer}

structure InSync (framer : Framer zlib) : Prop where
  header : framer.state = .interpretControlFrameCommonHeader →
    framer.remainingPayload = framer.currentFrameBuffer.length
  payload : framer.state = .controlFramePayload → framer.remainingPayload = framer.remainingControlPayload
  passing : framer.state ≠ .ignoreRemainingPayload

variable {framer : Framer zlib} {data : List UInt8}

theorem InSync.other (state : framer.state = .error ∨ framer.state = .autoReset ∨
      framer.state = .readingCommonHeader ∨ framer.state = .forwardStreamFrame) :
    InSync framer := by
  rcases state with same | same | same | same
  all_goals
    exact ⟨fun other => absurd (same.symm.trans other) (by decide),
      fun other => absurd (same.symm.trans other) (by decide),
      fun other => absurd (same.symm.trans other) (by decide)⟩

theorem headerPass_sync (length : framer.remainingPayload = framer.currentFrameBuffer.length) :
    InSync (processControlFrameHeader fresh framer).1 := by
  have failing : ∀ (framer : Framer zlib) code, InSync (setError framer code).1 :=
    fun framer code => InSync.other (.inl rfl)
  have expanding : ∀ {framer : Framer zlib} {n}, framer.remainingPayload = n →
      framer.remainingControlPayload = n →
      InSync { expandControlFrameBuffer fresh framer n with state := .controlFramePayload } := by
    intro framer n payload control
    unfold expandControlFrameBuffer
    split
    · exact ⟨fun other => (by cases other), fun _ => payload.trans control.symm, fun other => (by cases other)⟩
    · exact ⟨fun other => (by cases other), fun _ => payload.trans control.symm, fun other => (by cases other)⟩
  have pass := header_pass fresh framer
  generalize processControlFrameHeader fresh framer = result at pass ⊢
  cases pass with
  | rejected code bad => exact failing _ _
  | swallowed version type => exact InSync.other (.inr (.inl rfl))
  | tooLarge events type large => exact InSync.other (.inl rfl)
  | buffered phase code events version valid type small checked => exact expanding length rfl

theorem takeHeader_state (reading : framer.state = .readingCommonHeader)
    (data : List UInt8) : InSync (takeHeader framer data).1 := by
  unfold takeHeader completeHeader
  simp only
  split
  · exact InSync.other (.inr (.inl rfl))
  · exact InSync.other (.inr (.inr (.inl reading)))

theorem takePayload_sync (reading : framer.state = .controlFramePayload)
    (sync : framer.remainingPayload = framer.remainingControlPayload) (data : List UInt8) :
    InSync (takePayload framer data).1 := by
  unfold takePayload
  simp only
  split
  · have same : (consumeFrame framer data).state = .controlFramePayload := reading
    exact ⟨fun other => absurd (same.symm.trans other) (by decide), fun _ => congrArg (· - data.length) sync,
      fun other => absurd (same.symm.trans other) (by decide)⟩
  · exact InSync.other (.inr (.inl rfl))

theorem endForwarding_state (framer : Framer zlib) (count : Nat) (events : List Event) :
    (endForwarding framer count events).1.state = framer.state := by
  unfold endForwarding
  simp only
  split
  · rfl
  · rfl

theorem takeCompressed_state (framer : Framer zlib) (data : List UInt8) :
    (takeCompressed framer data).1.state = framer.state := by
  unfold takeCompressed
  cases found : getStreamDecompressor framer framer.currentFrameBuffer.dataStreamId with
  | none => simp only [found]
  | some stream =>
    simp only [found]
    exact endForwarding_state _ _ _

def rank (framer : Framer zlib) : Nat :=
  match framer.state with
  | .error | .done => 0
  | .reset | .autoReset => 1
  | .readingCommonHeader => if framer.currentFrameLen < frameSize then 0 else 4
  | .interpretControlFrameCommonHeader => 3
  | .controlFramePayload => if framer.remainingControlPayload = 0 then 2 else 0
  | .ignoreRemainingPayload | .forwardStreamFrame => if framer.remainingPayload = 0 then 2 else 0

def Idle (fresh : Nat → Buffer) (framer : Framer zlib) : Prop :=
  (∀ data, Inflates framer data) ∧
    ∃ result events, (∀ data, processPass fresh framer data = (result, events, data)) ∧
      InSync result ∧ rank result < rank framer

theorem headerPass_state (framer : Framer zlib) : (processControlFrameHeader fresh framer).1.state = .error ∨
    (processControlFrameHeader fresh framer).1.state = .autoReset ∨
    (processControlFrameHeader fresh framer).1.state = .controlFramePayload := by
  have pass := header_pass fresh framer
  generalize processControlFrameHeader fresh framer = result at pass ⊢
  cases pass with
  | rejected code bad => exact .inl rfl
  | swallowed version type => exact .inr (.inl rfl)
  | tooLarge events type large => exact .inl rfl
  | buffered phase code events version valid type small checked => exact .inr (.inr rfl)

theorem reset_len (framer : Framer zlib) : (resetFramer fresh framer).currentFrameLen = 0 := by
  unfold resetFramer expandControlFrameBuffer
  simp only
  split
  · split
    · rfl
    · rfl
  · rfl

theorem header_rank (framer : Framer zlib) : rank { framer with
      remainingPayload := framer.currentFrameBuffer.length
      state := if !framer.currentFrameBuffer.isControlFrame then .forwardStreamFrame
        else .interpretControlFrameCommonHeader } < 4 := by
  by_cases data : (!framer.currentFrameBuffer.isControlFrame) = true
  · simp only [rank, if_pos data]
    split
    · decide
    · decide
  · simp only [rank, if_neg data]
    decide

theorem not_inflating {phase : SpdyState}
    (state : framer.state = phase) (other : phase ≠ .forwardStreamFrame) : Inflates framer data :=
  fun forwards => absurd (state.symm.trans forwards) other

theorem pass_cases (sync : InSync framer) (running : (spdyFramer zlib fresh).stops framer = false) :
    Idle fresh framer ∨ framer.state = .readingCommonHeader ∧ framer.currentFrameLen < frameSize ∨
    framer.state = .controlFramePayload ∧ framer.remainingControlPayload ≠ 0 ∨
    framer.state = .forwardStreamFrame ∧ framer.remainingPayload ≠ 0 := by
  have running := of_decide_eq_false running
  cases phase : framer.state with
  | error => exact absurd (.inl phase) running
  | done => exact absurd (.inr phase) running
  | reset | autoReset =>
    refine .inl ⟨fun _ => not_inflating phase (by decide), _, _, fun data => by unfold processPass; rw [phase], ?_, ?_⟩
    · exact InSync.other (.inr (.inr (.inl rfl)))
    · simp only [rank, phase, reset_len]
      decide
  | readingCommonHeader =>
    by_cases short : framer.currentFrameLen < frameSize
    · exact .inr (.inl ⟨rfl, short⟩)
    · refine .inl ⟨fun _ => not_inflating phase (by decide), _, _, fun data => by
        unfold processPass; rw [phase]; exact if_neg short, ?_, ?_⟩
      · split
        · exact InSync.other (.inr (.inr (.inr rfl)))
        · exact ⟨fun _ => rfl, fun other => (by cases other), fun other => (by cases other)⟩
      · have full : rank framer = 4 := by simp only [rank, phase, if_neg short]
        rw [full]
        exact header_rank framer
  | interpretControlFrameCommonHeader =>
    refine .inl ⟨fun _ => not_inflating phase (by decide), _, _,
      fun data => by unfold processPass; rw [phase], ?_, ?_⟩
    · exact headerPass_sync (sync.header phase)
    · rcases @headerPass_state zlib fresh framer with state | state | state
      all_goals
        simp only [rank, phase, state]
        first
          | decide
          | (split <;> decide)
  | controlFramePayload =>
    by_cases control : framer.remainingControlPayload = 0
    · refine .inl ⟨fun _ => not_inflating phase (by decide), (takePayload framer []).1,
        (takePayload framer []).2, fun data => ?_, ?_, ?_⟩
      · have takes := @payload_takes zlib fresh framer phase (sync.payload phase) data
        rw [TakesOn, control, Nat.zero_min, take_zero, drop_zero] at takes
        exact takes
      · exact takePayload_sync phase (sync.payload phase) []
      · have finished : (takePayload framer []).1.state = .autoReset := by
          rw [takePayload, if_neg (fun more => more (by rw [consumeFrame, control]; rfl))]
        simp only [rank, phase, if_pos control, finished]
        decide
    · exact .inr (.inr (.inl ⟨rfl, control⟩))
  | ignoreRemainingPayload => exact absurd phase sync.passing
  | forwardStreamFrame =>
    by_cases remaining : framer.remainingPayload = 0
    · refine .inl ⟨fun _ _ more => absurd remaining more, _, _, fun data => by
        unfold processPass; rw [phase]; exact data_over remaining data, ?_, ?_⟩
      · exact InSync.other (.inr (.inl rfl))
      · simp only [rank, phase, if_pos remaining]
        decide
    · exact .inr (.inr (.inr ⟨rfl, remaining⟩))

theorem framer_keeps {framer' : Framer zlib} {left : List UInt8} {new : List Event}
    (sync : InSync framer) (working : ¬ (spdyFramer zlib fresh).Returns framer data)
    (good : Inflates framer data)
    (step : (spdyFramer zlib fresh).step framer data = (framer', new, left)) : InSync framer' := by
  have some_data : data ≠ [] := fun empty => working (.inl empty)
  have running : (spdyFramer zlib fresh).stops framer = false :=
    Bool.not_eq_true _ ▸ fun stops => working (.inr stops)
  rcases pass_cases sync running with ⟨-, result, events, idle, synced, -⟩ | ⟨phase, short⟩ |
    ⟨phase, control⟩ | ⟨phase, remaining⟩
  · have same : (result, events, data) = (framer', new, left) := (idle data).symm.trans step
    cases same
    exact synced
  · have takes := @header_takes zlib fresh framer phase short data
    rw [TakesOn, step] at takes
    cases takes
    exact takeHeader_state phase _
  · have takes := @payload_takes zlib fresh framer phase (sync.payload phase) data
    rw [TakesOn, step] at takes
    cases takes
    exact takePayload_sync phase (sync.payload phase) _
  · by_cases compressed : framer.currentFrameBuffer.hasFlag dataFlagCompressed = true
    · have takes := @compressed_takes zlib fresh framer phase remaining compressed data some_data good
      rw [TakesOn, step] at takes
      cases takes
      exact InSync.other (.inr (.inr (.inr ((takeCompressed_state _ _).trans phase))))
    · have takes := @data_takes zlib fresh framer phase remaining
        (Bool.not_eq_true _ ▸ compressed) data some_data
      rw [TakesOn, step] at takes
      cases takes
      exact InSync.other (.inr (.inr (.inr ((endForwarding_state _ _ _).trans phase))))

theorem framer_progress : Progress (spdyFramer zlib fresh) InSync Inflates rank := by
  intro framer framer' data left new sync working good step
  have some_data : data ≠ [] := fun empty => working (.inl empty)
  have length := length_pos_iff.mpr some_data
  have running : (spdyFramer zlib fresh).stops framer = false :=
    Bool.not_eq_true _ ▸ fun stops => working (.inr stops)
  have taking : ∀ {count take}, 0 < count → TakesOn (spdyFramer zlib fresh) framer count take data →
      left.length < data.length := by
    intro count take positive takes
    rw [TakesOn, step] at takes
    cases takes
    rw [length_drop]
    omega
  rcases pass_cases sync running with ⟨-, result, events, idle, -, lower⟩ | ⟨phase, short⟩ |
    ⟨phase, control⟩ | ⟨phase, remaining⟩
  · have same : (result, events, data) = (framer', new, left) := (idle data).symm.trans step
    cases same
    exact .inr ⟨rfl, lower⟩
  · exact .inl (taking (by omega) (header_takes phase short data))
  · exact .inl (taking (by omega) (payload_takes phase (sync.payload phase) data))
  · by_cases compressed : framer.currentFrameBuffer.hasFlag dataFlagCompressed = true
    · exact .inl (taking (by omega) (compressed_takes phase remaining compressed some_data good))
    · exact .inl (taking (by omega) (data_takes phase remaining (Bool.not_eq_true _ ▸ compressed) some_data))

def Joins (fresh : Nat → Buffer) (framer framer' : Framer zlib) (data more : List UInt8)
    (new : List Event) : Prop :=
  (spdyFramer zlib fresh).stops framer' = false ∧
  ∀ {framer'' later rest}, Inflates framer' more →
    (spdyFramer zlib fresh).step framer' more = (framer'', later, rest) →
    ∃ events, (spdyFramer zlib fresh).step framer (data ++ more) = (framer'', events, rest) ∧
      Inflates framer (data ++ more) ∧
      events.flatMap Event.atoms = new.flatMap Event.atoms ++ later.flatMap Event.atoms

theorem not_stopped {phase : SpdyState} (state : framer.state = phase)
    (other : phase ≠ .error ∧ phase ≠ .done) : (spdyFramer zlib fresh).stops framer = false := by
  apply decide_eq_false
  rw [state]
  exact not_or.mpr other

theorem header_joins (reading : framer.state = .readingCommonHeader) (more : List UInt8)
    (short : data.length < frameSize - framer.currentFrameLen) :
    Joins fresh framer (takeHeader framer data).1 data more (takeHeader framer data).2 := by
  obtain ⟨part, -⟩ := header_part short []
  rw [part]
  refine ⟨not_stopped reading (by decide), ?_⟩
  intro framer'' later rest _ step
  have second := @header_takes zlib fresh (appendFrame framer data) reading
    (by simp only [appendFrame]; omega) more
  have both := @header_takes zlib fresh framer reading (by omega) (data ++ more)
  rw [show frameSize - (appendFrame framer data).currentFrameLen =
    frameSize - framer.currentFrameLen - data.length from (Nat.sub_sub _ _ _).symm] at second
  obtain ⟨took, whole⟩ := takes_joined short both second step
  rw [(header_part short _).2, took] at whole
  exact ⟨later, whole, not_inflating reading (by decide), rfl⟩

theorem payload_joins (reading : framer.state = .controlFramePayload)
    (sync : framer.remainingPayload = framer.remainingControlPayload)
    (more : List UInt8) (short : data.length < framer.remainingControlPayload) :
    Joins fresh framer (takePayload framer data).1 data more (takePayload framer data).2 := by
  obtain ⟨part, -⟩ := payload_part short []
  rw [part]
  refine ⟨not_stopped reading (by decide), ?_⟩
  intro framer'' later rest _ step
  have second := @payload_takes zlib fresh (consumeFrame framer data) reading
    (congrArg (· - data.length) sync) more
  have both := @payload_takes zlib fresh framer reading sync (data ++ more)
  obtain ⟨took, whole⟩ := takes_joined short both second step
  rw [(payload_part short _).2, took] at whole
  exact ⟨later, whole, not_inflating reading (by decide), rfl⟩

theorem data_joins (forwards : framer.state = .forwardStreamFrame)
    (plain : framer.currentFrameBuffer.hasFlag dataFlagCompressed = false) {more : List UInt8}
    (some_more : more ≠ []) (short : data.length < framer.remainingPayload) :
    Joins fresh framer (takeData framer data).1 data more (takeData framer data).2 := by
  obtain ⟨part, -⟩ := data_part short []
  rw [part]
  refine ⟨not_stopped forwards (by decide), ?_⟩
  intro framer'' later rest _ step
  have second := @data_takes zlib fresh (forwardPart framer data.length) forwards
    (Nat.sub_ne_zero_of_lt short) plain more some_more
  have both := @data_takes zlib fresh framer forwards (by omega) plain (data ++ more)
    (append_ne_nil_of_right_ne_nil data some_more)
  obtain ⟨took, whole⟩ := takes_joined short both second step
  obtain ⟨-, state, atoms⟩ := data_part short
    (more.take (min (framer.remainingPayload - data.length) more.length))
  rw [took] at state atoms
  rw [state] at whole
  refine ⟨_, whole, ?_, atoms⟩
  intro _ _ compressed
  rw [plain] at compressed
  cases compressed

theorem compressed_joins (streaming : zlib.Streaming) (forwards : framer.state = .forwardStreamFrame)
    (compressed : framer.currentFrameBuffer.hasFlag dataFlagCompressed = true)
    {more : List UInt8} (some_more : more ≠ []) (good : Inflates framer data)
    (short : data.length < framer.remainingPayload) :
    Joins fresh framer (takeCompressed framer data).1 data more (takeCompressed framer data).2 := by
  have remaining : framer.remainingPayload ≠ 0 := by omega
  obtain ⟨stream, output, next, found, took⟩ := good forwards remaining compressed
  rw [Nat.min_eq_right (Nat.le_of_lt short), take_length] at took
  have part : takeCompressed framer data = (inflatePart framer data.length next,
      dataEvents framer.currentFrameBuffer.dataStreamId output) :=
    (compressed_take found took).trans (@end_part zlib (setDecompressor framer
      framer.currentFrameBuffer.dataStreamId (some next)) data.length short _)
  rw [part]
  refine ⟨not_stopped forwards (by decide), ?_⟩
  intro framer'' later rest good' step
  have remaining' : (inflatePart framer data.length next).remainingPayload ≠ 0 :=
    Nat.sub_ne_zero_of_lt short
  obtain ⟨stream', output', next', found', took'⟩ := good' forwards remaining' compressed
  cases Option.some.inj (found'.symm.trans (inflatePart_stream framer data.length next))
  change zlib.Takes next (more.take (min (framer.remainingPayload - data.length) more.length))
    (min (framer.remainingPayload - data.length) more.length * 100) output' next' at took'
  have whole : Inflates framer (data ++ more) := by
    intro _ _ _
    obtain ⟨taken, -⟩ := @take_both _ framer.remainingPayload data more (Nat.le_of_lt short)
    have count : min framer.remainingPayload (data ++ more).length =
        data.length + min (framer.remainingPayload - data.length) more.length := by
      rw [length_append]
      omega
    refine ⟨stream, output ++ output', next', found, ?_⟩
    rw [taken, count, Nat.add_mul]
    exact streaming took took'
  have second := @compressed_takes zlib fresh (inflatePart framer data.length next) forwards
    remaining' compressed more some_more good'
  have both := @compressed_takes zlib fresh framer forwards remaining compressed (data ++ more)
    (append_ne_nil_of_right_ne_nil data some_more) whole
  obtain ⟨took_part, joined⟩ := takes_joined short both second step
  change takeCompressed (inflatePart framer data.length next)
    (more.take (min (framer.remainingPayload - data.length) more.length)) = _ at took_part
  have last : zlib.Takes next (more.take (min (framer.remainingPayload - data.length) more.length))
      ((more.take (min (framer.remainingPayload - data.length) more.length)).length * 100)
      output' next' := by
    rw [take_min_length]
    exact took'
  obtain ⟨state, atoms⟩ := compressed_part @streaming found took last
  rw [took_part] at state atoms
  rw [state] at joined
  exact ⟨_, joined, whole, atoms⟩

theorem framer_splits (streaming : zlib.Streaming) :
    Splits (spdyFramer zlib fresh) InSync Inflates Event.atoms := by
  refine ⟨framer_keeps, ?_⟩
  intro framer framer' data more left new sync working good step some_more
  have some_data : data ≠ [] := fun empty => working (.inl empty)
  have some_both := append_ne_nil_of_right_ne_nil data some_more
  have running : (spdyFramer zlib fresh).stops framer = false :=
    Bool.not_eq_true _ ▸ fun stops => working (.inr stops)
  -- Enough input for the pass, or part of what it takes.
  have cases_on : ∀ {count take}, (count ≤ data.length → Inflates framer (data ++ more) ∧
        TakesOn (spdyFramer zlib fresh) framer count take (data ++ more)) →
      TakesOn (spdyFramer zlib fresh) framer count take data →
      (data.length < count → Joins fresh framer (take data).1 data more (take data).2) →
      ((spdyFramer zlib fresh).step framer (data ++ more) = (framer', new, left ++ more) ∧
        Inflates framer (data ++ more)) ∨
      left = [] ∧ Joins fresh framer framer' data more new := by
    intro count take both one joins
    rcases Nat.lt_or_ge data.length count with short | enough
    · obtain ⟨took, used⟩ := takes_short short one step
      have joined := joins short
      rw [took] at joined
      exact .inr ⟨used, joined⟩
    · obtain ⟨whole, takes⟩ := both enough
      exact .inl ⟨takes_enough enough one takes step, whole⟩
  rcases pass_cases sync running with ⟨plain, result, events, idle, -, -⟩ | ⟨phase, short⟩ |
    ⟨phase, control⟩ | ⟨phase, remaining⟩
  · have same : (result, events, data) = (framer', new, left) := (idle data).symm.trans step
    cases same
    exact .inl ⟨idle (data ++ more), plain (data ++ more)⟩
  · exact cases_on (fun _ => ⟨not_inflating phase (by decide), header_takes phase short _⟩)
      (header_takes phase short data) (header_joins phase more)
  · exact cases_on (fun _ => ⟨not_inflating phase (by decide), payload_takes phase (sync.payload phase) _⟩)
      (payload_takes phase (sync.payload phase) data)
      (payload_joins phase (sync.payload phase) more)
  · by_cases compressed : framer.currentFrameBuffer.hasFlag dataFlagCompressed = true
    · apply cases_on ?_ (compressed_takes phase remaining compressed some_data good)
        (compressed_joins streaming phase compressed some_more good)
      intro enough
      have whole : Inflates framer (data ++ more) := by
        intro forwards remaining compressed
        obtain ⟨taken, -⟩ := @take_first _ framer.remainingPayload data more enough
        have count : min framer.remainingPayload (data ++ more).length =
            min framer.remainingPayload data.length := by
          rw [length_append]
          omega
        rw [taken, count]
        exact good forwards remaining compressed
      exact ⟨whole, compressed_takes phase remaining compressed some_both whole⟩
    · have plain := Bool.not_eq_true _ ▸ compressed
      exact cases_on (fun _ => ⟨fun _ _ other => absurd other compressed,
          data_takes phase remaining plain some_both⟩)
        (data_takes phase remaining plain some_data)
        (data_joins phase plain some_more)

end Glopen.Spdy

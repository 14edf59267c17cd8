import Mathlib.Data.List.Induction
import Glopen.WebSockets.FrameData

/-! Frames that arrive in any pieces: what is raised once the bytes so far have been processed. -/
namespace Glopen.WebSockets

open List

section Buffer

def ReadBuffer.Valid (buf : ReadBuffer) : Prop := buf.consumed ≤ buf.data.length

variable {buf : ReadBuffer}

theorem ReadBuffer.add_unread (valid : buf.Valid) (data : Bytes) :
    (buf.add data).Valid ∧ (buf.add data).unread = buf.unread ++ data := by
  have same : (buf.add data).data = buf.data ++ data ∧ (buf.add data).consumed = buf.consumed := by
    unfold ReadBuffer.add
    split <;> exact ⟨rfl, rfl⟩
  unfold ReadBuffer.Valid ReadBuffer.unread
  rw [same.1, same.2]
  refine ⟨?_, drop_append_of_le_length valid⟩
  rw [length_append]
  exact Nat.le_add_right_of_le valid

theorem ReadBuffer.skip_unread {len : Nat} (inside : buf.consumed + len ≤ buf.data.length) :
    (buf.skip len).Valid ∧ (buf.skip len).unread = buf.unread.drop len := by
  unfold ReadBuffer.Valid ReadBuffer.unread ReadBuffer.skip
  split
  · rename_i zero
    subst zero
    exact ⟨inside, rfl⟩
  · simp only
    split
    · refine ⟨Nat.zero_le _, ?_⟩
      rw [drop_zero, drop_drop, take_of_length_le (by rw [length_drop])]
    · exact ⟨inside, (drop_drop ..).symm⟩

end Buffer

section Steps

inductive ReadStep where
  | receive (data : Bytes)
  | process

def received (steps : List ReadStep) : Bytes :=
  steps.flatMap fun step =>
    match step with
    | .receive data => data
    | .process => []

variable (readServerHandshake : Bytes → Option (Nat × Bool))

def ReadStep.apply (ws : WebSocket) : ReadStep → WebSocket × List Event
  | .receive data => ws.onReceivedData data
  | .process => ws.doReceivedData readServerHandshake

def readRun (ws : WebSocket) (steps : List ReadStep) : WebSocket × List Event :=
  steps.foldl (fun run step =>
    let (ws, events) := step.apply readServerHandshake run.1
    (ws, run.2 ++ events)) (ws, [])

theorem readRun_snoc (ws : WebSocket) (steps : List ReadStep) (step : ReadStep) :
    readRun readServerHandshake ws (steps ++ [step]) =
      ((step.apply readServerHandshake (readRun readServerHandshake ws steps).1).1,
        (readRun readServerHandshake ws steps).2 ++
          (step.apply readServerHandshake (readRun readServerHandshake ws steps).1).2) := by
  rw [readRun, foldl_append]
  rfl

def raised (events : List Event) : List Event := events.filter (· ≠ .post .doReceivedData)

def frameEvents (version : ProtocolVersion) (frames : List Frame) : List Event :=
  (beforeClosing version frames).map Frame.event ++
    if frames.any (Frame.closes version) then [.post .startClosingHandshake] else []

structure Opened (ws : WebSocket) : Prop where
  readyState : ws.readyState = .open
  delegate : ws.delegate = true
  server : ws.serverClosingHandshake = false
  started : ws.closingHandshakeStarted = false
  valid : ws.readBuf.Valid
  unread : ws.readBuf.unread = []

theorem raised_map_event (frames : List Frame) : raised (frames.map Frame.event) = frames.map Frame.event := by
  unfold raised
  rw [filter_eq_self]
  intro event isIn
  obtain ⟨frame, -, rfl⟩ := List.mem_map.mp isIn
  cases frame with
  | text type payload => by_cases zero : type = 0 <;> simp [Frame.event, zero]
  | sized => rfl

theorem readyFrames_wire (frames : List Frame) (n : Nat) : (wire (readyFrames frames n)).length ≤ n := by
  induction frames generalizing n with
  | nil => exact Nat.zero_le _
  | cons frame frames ih =>
    rw [readyFrames]
    split
    · have := ih (n - frame.wire.length)
      rw [wire_cons, length_append]
      omega
    · exact Nat.zero_le _

theorem readyFrames_split (frames : List Frame) (m : Nat) :
    ∃ rest, frames = readyFrames frames m ++ rest ∧ ∀ n, m ≤ n → readyFrames frames n = readyFrames frames m ++
        readyFrames rest (n - (wire (readyFrames frames m)).length) := by
  induction frames generalizing m with
  | nil => exact ⟨[], rfl, fun n _ => rfl⟩
  | cons frame frames ih =>
    by_cases ready : frame.wire.length < m ∨ frame.wire.length = m ∧ frame.isSized = false
    · obtain ⟨rest, split, more⟩ := ih (m - frame.wire.length)
      have at_m : readyFrames (frame :: frames) m =
          frame :: readyFrames frames (m - frame.wire.length) := if_pos ready
      refine ⟨rest, ?_, fun n bound => ?_⟩
      · rw [at_m, cons_append, ← split]
      · have ready_n : frame.wire.length < n ∨ frame.wire.length = n ∧ frame.isSized = false := by
          obtain longer | ⟨same, text⟩ := ready
          · exact .inl (by omega)
          · obtain longer | equal := Nat.lt_or_eq_of_le (same ▸ bound)
            · exact .inl longer
            · exact .inr ⟨equal, text⟩
        have at_n : readyFrames (frame :: frames) n =
            frame :: readyFrames frames (n - frame.wire.length) := if_pos ready_n
        rw [at_n, at_m, more _ (Nat.sub_le_sub_right bound _), cons_append, wire_cons,
          length_append, Nat.sub_add_eq]
    · have at_m : readyFrames (frame :: frames) m = [] := if_neg ready
      refine ⟨frame :: frames, by rw [at_m, nil_append], fun n _ => ?_⟩
      rw [at_m]
      simp [wire]

variable {version : ProtocolVersion} {front frames : List Frame}

theorem frameEvents_append (open_still : front.any (Frame.closes version) = false) (back : List Frame) :
    frameEvents version (front ++ back) = front.map Frame.event ++ frameEvents version back := by
  have all : beforeClosing version (front ++ back) = front ++ beforeClosing version back := by
    unfold beforeClosing
    rw [takeWhile_append_of_pos]
    intro frame isIn
    rw [List.any_eq_false] at open_still
    simpa using open_still frame isIn
  rw [frameEvents, frameEvents, all, map_append, any_append, open_still, Bool.false_or, append_assoc]

theorem frameEvents_open (open_still : frames.any (Frame.closes version) = false) :
    frameEvents version frames = frames.map Frame.event := by
  have appended := frameEvents_append open_still []
  rw [append_nil] at appended
  rw [appended]
  exact append_nil _

theorem frameEvents_closed (closed : front.any (Frame.closes version) = true) (back : List Frame) :
    frameEvents version (front ++ back) = frameEvents version front := by
  have none_behind : beforeClosing version (front ++ back) = beforeClosing version front := by
    induction front with
    | nil => cases closed
    | cons frame front ih =>
      unfold beforeClosing at ih ⊢
      rw [cons_append, takeWhile_cons, takeWhile_cons]
      cases closes : frame.closes version with
      | true => rfl
      | false =>
        rw [any_cons, closes, Bool.false_or] at closed
        rw [ih closed]
  rw [frameEvents, frameEvents, none_behind, any_append, closed, Bool.true_or]

/-- After some steps: the last processing was at `m` bytes. -/
structure ReadsTo (version : ProtocolVersion) (frames : List Frame) (bytes : Bytes) (m : Nat)
    (run : WebSocket × List Event) : Prop where
  protocol : run.1.version = version
  readyState : run.1.readyState = .open
  delegate : run.1.delegate = true
  started : run.1.closingHandshakeStarted = false
  valid : run.1.readBuf.Valid
  bound : m ≤ bytes.length
  events : raised run.2 = frameEvents version (readyFrames frames m)
  server : run.1.serverClosingHandshake = (readyFrames frames m).any (Frame.closes version)
  unread : run.1.serverClosingHandshake = false →
    run.1.readBuf.unread = bytes.drop (wire (readyFrames frames m)).length

variable {readServerHandshake} {bytes : Bytes} {m : Nat} {run : WebSocket × List Event}

theorem ReadsTo.receive (reads : ReadsTo version frames bytes m run) (data : Bytes) :
    ReadsTo version frames (bytes ++ data) m
      ((run.1.onReceivedData data).1, run.2 ++ (run.1.onReceivedData data).2) := by
  obtain ⟨valid, unread⟩ := ReadBuffer.add_unread reads.valid data
  have inside := readyFrames_wire frames m
  have bound := reads.bound
  refine ⟨reads.protocol, reads.readyState, reads.delegate, reads.started, valid, ?_, ?_, reads.server,
    fun open_still => ?_⟩
  · rw [length_append]
    exact Nat.le_add_right_of_le bound
  · rw [← reads.events]
    unfold raised
    rw [filter_append]
    exact append_nil _
  · rw [drop_append_of_le_length (inside.trans bound), ← reads.unread open_still]
    exact unread

theorem raised_append_map (events : List Event) (frames : List Frame) :
    raised (events ++ frames.map Frame.event) = raised events ++ frames.map Frame.event := by
  rw [← raised_map_event frames]
  unfold raised
  rw [filter_append, List.filter_filter]
  simp

theorem ReadsTo.process (wellFormed : ∀ frame ∈ frames, frame.WellFormed)
    (isPart : bytes <+: wire frames) (reads : ReadsTo version frames bytes m run) :
    ReadsTo version frames bytes bytes.length ((run.1.doReceivedData readServerHandshake).1,
        run.2 ++ (run.1.doReceivedData readServerHandshake).2) := by
  obtain ⟨rest, split, more⟩ := readyFrames_split frames m
  have at_end := more bytes.length reads.bound
  have server := reads.server
  have inside := (readyFrames_wire frames m).trans reads.bound
  have opened : run.1.doReceivedData readServerHandshake = run.1.processFrameData := by
    unfold WebSocket.doReceivedData
    rw [reads.readyState]
  rw [opened]
  unfold WebSocket.processFrameData
  cases closed : run.1.serverClosingHandshake with
  | true =>
    rw [closed] at server
    refine ⟨reads.protocol, reads.readyState, reads.delegate, reads.started, reads.valid,
      le_rfl, ?_, ?_, fun open_still => ?_⟩
    · simp only [if_true, append_nil]
      rw [at_end, frameEvents_closed server.symm, reads.events]
    · simp only [if_true]
      rw [closed, at_end, any_append, ← server, Bool.true_or]
    · simp only [if_true] at open_still
      rw [closed] at open_still
      cases open_still
  | false =>
    rw [closed] at server
    have unread := reads.unread closed
    -- what is unread is a part of the frames behind those that have been handled
    have part : bytes.drop (wire (readyFrames frames m)).length <+: wire rest := by
      have whole : wire frames = wire (readyFrames frames m) ++ wire rest := by
        rw [← wire_append, ← split]
      have front : wire (readyFrames frames m) <+: bytes :=
        prefix_of_prefix_length_le (whole ▸ prefix_append _ _) isPart inside
      obtain ⟨behind, rfl⟩ := front
      rw [whole] at isPart
      rw [drop_left]
      exact (prefix_append_right_inj _).mp isPart
    have others (frame : Frame) (isIn : frame ∈ rest) : frame.WellFormed :=
      wellFormed frame (split ▸ mem_append_right _ isIn)
    have ready := processFrames_ready version others part le_rfl
    rw [← unread] at ready
    have more_ready : readyFrames frames bytes.length =
        readyFrames frames m ++ readyFrames rest run.1.readBuf.unread.length := by
      rw [at_end, unread, length_drop]
    have long : run.1.readBuf.unread.length = run.1.readBuf.data.length - run.1.readBuf.consumed :=
      length_drop
    have used := readyFrames_wire rest run.1.readBuf.unread.length
    simp only [reads.protocol, reads.delegate, Bool.false_eq_true, if_false]
    generalize WebSocket.processFrames version true run.1.readBuf.unread.length run.1.readBuf.unread = result
      at ready
    obtain ⟨events, left, outcome⟩ := result
    obtain ⟨rfl, ended⟩ := ready
    have all_events : raised run.2 = (readyFrames frames m).map Frame.event := by
      rw [reads.events, frameEvents_open server.symm]
    cases closes : (readyFrames rest run.1.readBuf.unread.length).any (Frame.closes version) with
    | true =>
      rw [closes, if_pos rfl] at ended
      obtain rfl := ended
      refine ⟨rfl, reads.readyState, rfl, reads.started, reads.valid, le_rfl, ?_, ?_, nofun⟩
      · rw [more_ready, frameEvents_append server.symm, frameEvents, closes]
        simp only [reads.started, Bool.not_false, if_true]
        rw [← append_assoc, raised, filter_append, ← raised, raised_append_map, all_events, append_assoc]
        rfl
      · rw [more_ready, any_append, closes, Bool.or_true]
    | false =>
      rw [closes, if_neg Bool.false_ne_true] at ended
      cases ended
      have skipped : run.1.readBuf.unread.length - (run.1.readBuf.unread.drop
          (wire (readyFrames rest run.1.readBuf.unread.length)).length).length =
          (wire (readyFrames rest run.1.readBuf.unread.length)).length := by
        rw [length_drop]
        omega
      have valid := reads.valid
      unfold ReadBuffer.Valid at valid
      obtain ⟨valid_now, unread_now⟩ := @ReadBuffer.skip_unread run.1.readBuf
        (wire (readyFrames rest run.1.readBuf.unread.length)).length (by omega)
      refine ⟨rfl, reads.readyState, rfl, reads.started, ?_, le_rfl, ?_, ?_, fun _ => ?_⟩
      · simp only [skipped]
        exact valid_now
      · have none_closes := frameEvents_open closes
        rw [frameEvents, closes] at none_closes
        simp only [Bool.false_eq_true, if_false, append_nil] at none_closes
        rw [more_ready, frameEvents_append server.symm, frameEvents_open closes]
        simp only
        rw [none_closes, raised_append_map, all_events]
      · rw [more_ready, any_append, closes, ← server]
        rfl
      · simp only [skipped]
        rw [unread_now, more_ready, wire_append, length_append, unread, drop_drop]

theorem received_snoc (steps : List ReadStep) (step : ReadStep) :
    received (steps ++ [step]) = received steps ++ received [step] := flatMap_append

theorem readRun_readsTo {ws : WebSocket} (opened : Opened ws)
    (wellFormed : ∀ frame ∈ frames, frame.WellFormed) (steps : List ReadStep)
    (isPart : received steps <+: wire frames) :
    ∃ m, ReadsTo ws.version frames (received steps) m (readRun readServerHandshake ws steps) := by
  induction steps using List.reverseRecOn with
  | nil =>
    refine ⟨0, rfl, opened.readyState, opened.delegate, opened.started, opened.valid, le_rfl,
      ?_, ?_, fun _ => ?_⟩
    · rw [readyFrames_zero]
      rfl
    · rw [readyFrames_zero]
      exact opened.server
    · rw [readyFrames_zero]
      exact opened.unread
  | append_singleton steps step ih =>
    rw [received_snoc] at isPart ⊢
    rw [readRun_snoc]
    obtain ⟨m, reads⟩ := ih ((prefix_append ..).trans isPart)
    cases step with
    | receive data =>
      have same : received [.receive data] = data := append_nil data
      rw [same]
      exact ⟨m, reads.receive data⟩
    | process =>
      have same : received [.process] = [] := rfl
      rw [same, append_nil] at isPart ⊢
      exact ⟨_, reads.process wellFormed isPart⟩

/-- The bytes end exactly with a frame that has its length in front, and no frame before it has closed
the connection. -/
def EndsWithSized (version : ProtocolVersion) (frames : List Frame) (n : Nat) : Prop :=
  ∃ front frame rest, frames = front ++ frame :: rest ∧ frame.isSized = true ∧
    (wire (front ++ [frame])).length = n ∧ front.any (Frame.closes version) = false

theorem endsWithSized_cons (frame : Frame) (n : Nat) : EndsWithSized version (frame :: frames) n ↔
      frame.isSized = true ∧ frame.wire.length = n ∨ frame.closes version = false ∧ frame.wire.length ≤ n ∧
          EndsWithSized version frames (n - frame.wire.length) := by
  constructor
  · rintro ⟨front, last, rest, split, sized, same, open_still⟩
    cases front with
    | nil =>
      cases split
      rw [nil_append, wire_cons, length_append] at same
      exact .inl ⟨sized, same⟩
    | cons first front =>
      cases split
      rw [any_cons, Bool.or_eq_false_iff] at open_still
      rw [cons_append, wire_cons, length_append] at same
      exact .inr ⟨open_still.1, by omega, front, last, rest, rfl, sized, by omega, open_still.2⟩
  · rintro (⟨sized, same⟩ | ⟨open_frame, bound, front, last, rest, rfl, sized, same, open_still⟩)
    · refine ⟨[], frame, frames, rfl, sized, ?_, rfl⟩
      rw [nil_append, wire_cons, length_append]
      exact same
    · refine ⟨frame :: front, last, rest, rfl, sized, ?_, ?_⟩
      · rw [cons_append, wire_cons, length_append, same]
        omega
      · rw [any_cons, open_frame, open_still]
        rfl

theorem frameEvents_cons (frame : Frame) : frameEvents version (frame :: frames) =
      if frame.closes version then [.post .startClosingHandshake]
      else frame.event :: frameEvents version frames := by
  unfold frameEvents beforeClosing
  cases closes : frame.closes version with
  | true => simp [closes]
  | false => simp [closes]

theorem ready_eq_whole (version : ProtocolVersion) (frames : List Frame) (n : Nat) :
    frameEvents version (readyFrames frames n) = frameEvents version (wholeFrames frames n) ↔
      ¬ EndsWithSized version frames n := by
  induction frames generalizing n with
  | nil =>
    refine ⟨fun _ => ?_, fun _ => rfl⟩
    rintro ⟨front, frame, rest, split, -⟩
    simp at split
  | cons frame frames ih =>
    rw [endsWithSized_cons]
    by_cases whole : frame.wire.length ≤ n
    · rw [wholeFrames, if_pos whole, frameEvents_cons]
      by_cases ready : frame.wire.length < n ∨ frame.wire.length = n ∧ frame.isSized = false
      · have not_last : ¬ (frame.isSized = true ∧ frame.wire.length = n) := by
          rintro ⟨sized, same⟩
          obtain shorter | ⟨-, text⟩ := ready
          · omega
          · rw [text] at sized
            cases sized
        rw [readyFrames, if_pos ready, frameEvents_cons]
        cases closes : frame.closes version with
        | true => simp [not_last]
        | false => simp [not_last, whole, ih]
      · have last : frame.isSized = true ∧ frame.wire.length = n := by
          rw [not_or, not_and, Bool.not_eq_false] at ready
          have same : frame.wire.length = n := by omega
          exact ⟨ready.2 same, same⟩
        rw [readyFrames, if_neg ready]
        refine ⟨fun same => ?_, fun none_last => absurd (.inl last) none_last⟩
        split at same
        · cases same
        · cases same
    · have not_ready : ¬ (frame.wire.length < n ∨ frame.wire.length = n ∧ frame.isSized = false) := by
        omega
      rw [wholeFrames, if_neg whole, readyFrames, if_neg not_ready]
      refine ⟨fun _ => ?_, fun _ => rfl⟩
      rintro (⟨-, same⟩ | ⟨-, bound, -⟩)
      · omega
      · omega

/-- Once the bytes so far have been processed, the events of the frames in them have been raised, in
order and once each, unless the bytes end exactly with a frame that has its length in front. -/
theorem frames_raised_iff (readServerHandshake : Bytes → Option (Nat × Bool)) {ws : WebSocket}
    (opened : Opened ws) (frames : List Frame) (wellFormed : ∀ frame ∈ frames, frame.WellFormed)
    (steps : List ReadStep) (isPart : received steps <+: wire frames) :
    raised (readRun readServerHandshake ws (steps ++ [.process])).2 =
        frameEvents ws.version (wholeFrames frames (received steps).length) ↔
      ¬ EndsWithSized ws.version frames (received steps).length := by
  obtain ⟨m, reads⟩ := @readRun_readsTo readServerHandshake frames ws opened wellFormed steps isPart
  have processed := @ReadsTo.process readServerHandshake _ _ _ _ _ wellFormed isPart reads
  have snoc := readRun_snoc readServerHandshake ws steps .process
  rw [snoc]
  rw [← ready_eq_whole, ← processed.events]
  rfl

def openSocket : WebSocket := { WebSocket.new .defaultVersion with
  readyState := .open, handshake := true, socketStream := true }

theorem openSocket_opened : Opened openSocket :=
  ⟨rfl, rfl, rfl, rfl, le_rfl, rfl⟩

theorem frames_raised_iff_text :
    raised (readRun (fun _ => none) openSocket [.receive [0, 97], .receive [255], .process]).2 =
      [.onMessage [97]] := by
  refine (frames_raised_iff (fun _ => none) openSocket_opened [.text 0 [97]] ?_
    [.receive [0, 97], .receive [255]] (List.prefix_refl _)).mpr ?_
  · intro frame isIn
    rw [List.mem_singleton.mp isIn]
    exact .text (by decide) (by decide)
  · rw [endsWithSized_cons]
    rintro (⟨sized, -⟩ | ⟨-, -, front, frame, rest, split, -⟩)
    · cases sized
    · simp at split

/-- The closing frame at the end of the buffer raises nothing. -/
theorem closing_frame_not_raised :
    raised (readRun (fun _ => none) openSocket [.receive [255, 0], .process]).2 = [] ∧
      frameEvents .defaultVersion (wholeFrames [.sized 255 [] 0 []] 2) = [.post .startClosingHandshake] := by
  constructor
  · decide
  · decide

end Steps

end Glopen.WebSockets

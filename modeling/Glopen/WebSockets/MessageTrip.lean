import Glopen.WebSockets.FrameRuns
import Glopen.WebSockets.Transmission

/-! What one socket was given to send is what another one raises, however the bytes are cut. -/
namespace Glopen.WebSockets

open List

def sentFrames (closing : Bool) (messages : List Bytes) : List Frame :=
  messages.map (Frame.text 0) ++ if closing then [.sized 255 [] 0 []] else []

theorem sentFrames_wire (closing : Bool) (messages : List Bytes) : wire (sentFrames closing messages) =
      messages.flatMap frame ++ if closing then kClosingFrame else [] := by
  rw [sentFrames, wire_append, wire, flatMap_map]
  cases closing with
  | false => rfl
  | true => rfl

theorem sentFrames_wellFormed {messages : List Bytes} (plain : ∀ msg ∈ messages, 255 ∉ msg)
    (closing : Bool) : ∀ frame ∈ sentFrames closing messages, frame.WellFormed := by
  intro frame member
  obtain text | last := mem_append.mp member
  · obtain ⟨msg, inside, rfl⟩ := mem_map.mp text
    exact .text (by decide) (plain msg inside)
  · cases closing with
    | false => cases last
    | true =>
      rw [mem_singleton.mp last]
      exact .sized (by decide) nofun (by decide) rfl (by decide)

/-- The closing frame is not handled at the end of the bytes, and a message is as soon as it is there. -/
theorem readyFrames_sent (closing : Bool) {messages : List Bytes} {n : Nat}
    (bound : n ≤ (wire (sentFrames closing messages)).length) :
    readyFrames (sentFrames closing messages) n = wholeFrames (messages.map (Frame.text 0)) n := by
  induction messages generalizing n with
  | nil =>
    cases closing with
    | false => rfl
    | true => exact if_neg (not_or.mpr ⟨bound.not_gt, fun both => Bool.noConfusion both.2⟩)
  | cons msg messages ih =>
    rw [sentFrames, map_cons, cons_append, wire_cons, length_append] at bound
    rw [sentFrames, map_cons, cons_append, readyFrames, wholeFrames]
    by_cases whole : (Frame.text 0 msg).wire.length ≤ n
    · rw [if_pos ((Nat.lt_or_eq_of_le whole).imp_right fun same => ⟨same, rfl⟩), if_pos whole]
      exact congrArg _ (ih (Nat.sub_le_iff_le_add'.mpr bound))
    · rw [if_neg whole, if_neg fun ready => whole (ready.elim Nat.le_of_lt fun both => both.1.le)]

theorem wholeFrames_open (version : ProtocolVersion) (messages : List Bytes) (n : Nat) :
    (wholeFrames (messages.map (Frame.text 0)) n).any (Frame.closes version) = false := by
  induction messages generalizing n with
  | nil => rfl
  | cons msg messages ih =>
    rw [map_cons, wholeFrames]
    split
    · exact ih _
    · rfl

/-- The messages of a run in turn reach a socket that is given the bytes behind the handshake in any
pieces: once it has processed them, it has raised those that are there wholly, in order and once each. -/
theorem messages_arrive {handshakeMessage : Bytes} {answer : Bytes → Option (Nat × Bool)}
    {version : ProtocolVersion} {s : Session}
    (run : RunInTurn handshakeMessage answer version s) (plain : ∀ msg ∈ s.messages, 255 ∉ msg)
    (readServerHandshake : Bytes → Option (Nat × Bool)) {ws : WebSocket} (opened : Opened ws)
    (steps : List ReadStep) (sent : handshakeMessage ++ received steps <+: s.handed) :
    raised (readRun readServerHandshake ws (steps ++ [.process])).2 =
      (wholeFrames (s.messages.map (Frame.text 0)) (received steps).length).map Frame.event := by
  have inv := runInTurn_inv run
  have isPart : received steps <+: wire (sentFrames s.socket.clientClosingHandshake s.messages) := by
    obtain ⟨acked, handed, issued⟩ := inv.split
    rw [sentFrames_wire]
    cases connected : s.socket.handshake with
    | false =>
      rw [(inv.notYet connected).2.2, prefix_nil, append_eq_nil_iff] at sent
      rw [sent.2]
      exact nil_prefix
    | true =>
      rw [Session.issued, connected, if_pos rfl, append_assoc] at issued
      rw [handed] at sent
      have whole := sent.trans ((prefix_append_right_inj acked).mpr (List.take_prefix ..))
      rw [← issued] at whole
      exact (prefix_append_right_inj _).mp whole
  have wellFormed := sentFrames_wellFormed plain s.socket.clientClosingHandshake
  obtain ⟨m, reads⟩ := @readRun_readsTo readServerHandshake _ _ opened wellFormed steps isPart
  have processed := @ReadsTo.process readServerHandshake _ _ _ _ _ wellFormed isPart reads
  have ready := readyFrames_sent s.socket.clientClosingHandshake isPart.length_le
  rw [readRun_snoc]
  refine processed.events.trans ?_
  rw [ready, frameEvents_open (wholeFrames_open ..)]

theorem messages_arrive_closed : ∃ s, RunInTurn [104] answered .defaultVersion s ∧
    raised (readRun answered openSocket [.receive [0], .process, .receive [97, 255, 0, 98], .process]).2 =
      (wholeFrames (s.messages.map (Frame.text 0)) 5).map Frame.event := by
  have run := @runInTurn_foldlM [104] answered .defaultVersion (untilOpen ++ [.send [97], .onSentData 3,
    .runTask, .send [98], .onSentData 3, .runTask, .close, .runTask]) _ _ .start rfl
  exact ⟨_, run, messages_arrive run (by decide) answered openSocket_opened
    [.receive [0], .process, .receive [97, 255, 0, 98]] (by decide)⟩

end Glopen.WebSockets

import Glopen.WebSockets.WebSocket

/-! The bytes that a socket hands to its stream, over whole runs: the messages go out in their order
behind the handshake as long as the queue is only looked at while the stream has nothing to write. -/
namespace Glopen.WebSockets

open List

section Session

/-- A socket with the tasks of its loop. `handed` is what the stream was given, and `unacked` the number
of the bytes of it that it has not reported as sent; `overlapped`: it was given bytes while it had some. -/
structure Session where
  socket : WebSocket
  tasks : List Task
  messages : List Bytes
  handed : Bytes
  unacked : Nat
  overlapped : Bool

namespace Session

def new (version : ProtocolVersion) : Session := ⟨.new version, [], [], [], 0, false⟩

def emitOne (s : Session) : Event → Session
  | .post task => { s with tasks := s.tasks ++ [task] }
  | .sendData data =>
    { s with
      handed := s.handed ++ data
      unacked := s.unacked + data.length
      overlapped := s.overlapped || 0 < s.unacked }
  | _ => s

def after (s : Session) (step : WebSocket × List Event) : Session :=
  step.2.foldl emitOne { s with socket := step.1 }

end Session

inductive Op where
  | connect
  | onConnected (maxPendingSendAllowed : Nat)
  | send (msg : Bytes)
  | close
  | detachDelegate
  | onSentData (amountSent : Nat)
  | onReceivedData (data : Bytes)
  | onClose
  | onError (error : Int)
  | runTask
  | forceClose
deriving DecidableEq

variable (handshakeMessage : Bytes) (readServerHandshake : Bytes → Option (Nat × Bool))

def WebSocket.runTask (ws : WebSocket) : Task → WebSocket × List Event
  | .sendPending => ws.sendPending
  | .doReceivedData => ws.doReceivedData readServerHandshake
  | .startClosingHandshake => ws.startClosingHandshake
  | .failConnection => ws.failConnection
  | .doClose => ws.doClose
  | .doSocketError error => ws.doSocketError error

def WebSocket.accepts (ws : WebSocket) : Bool :=
  !(ws.readyState = .closing || ws.readyState = .closed) && !ws.clientClosingHandshake

/-- What the owner, the stream and the loop may do; `none`: what their contracts (`DCHECK`) exclude. -/
def Session.apply (s : Session) : Op → Option Session
  | .connect => if s.socket.readyState = .initialized then some (s.after s.socket.connect) else none
  | .onConnected maxPendingSendAllowed =>
    if s.socket.socketStream && !s.socket.handshake then
      some (s.after (s.socket.onConnected handshakeMessage maxPendingSendAllowed))
    else none
  | .send msg =>
    if s.socket.readyState = .initialized || s.socket.readyState = .connecting then none
    else
      let messages := if s.socket.accepts then s.messages ++ [msg] else s.messages
      some ({ s with messages }.after (s.socket.send msg))
  | .close => some (s.after s.socket.close)
  | .detachDelegate => some (s.after s.socket.detachDelegate)
  | .onSentData amountSent =>
    if 0 < amountSent && amountSent ≤ s.unacked then
      (s.socket.onSentData amountSent).map { s with unacked := s.unacked - amountSent }.after
    else none
  | .onReceivedData data =>
    if s.socket.handshake then some (s.after (s.socket.onReceivedData data)) else none
  | .onClose => some { s with tasks := s.tasks ++ [.doClose] }
  | .onError error => some { s with tasks := s.tasks ++ [.doSocketError error] }
  | .runTask =>
    match s.tasks with
    | [] => none
    | task :: tasks => some ({ s with tasks }.after (s.socket.runTask readServerHandshake task))
  | .forceClose =>
    if s.socket.forceCloseTask then some (s.after s.socket.doForceCloseConnection) else none

def Session.callsSendPending (s : Session) : Op → Bool
  | .send _ => s.socket.socketStream && s.socket.accepts
  | .runTask =>
    s.socket.socketStream &&
      match s.tasks.head? with
      | some .sendPending => true
      | some .startClosingHandshake =>
        !(s.socket.closingHandshakeStarted || s.socket.clientClosingHandshake)
      | _ => false
  | _ => false

/-- The queue is looked at while the stream has nothing to write, and the connection is established
before the closing handshake. -/
structure Session.InTurn (s : Session) (op : Op) : Prop where
  idle : s.callsSendPending op = true → s.unacked = 0
  connected : ∀ maxPendingSendAllowed, op = .onConnected maxPendingSendAllowed →
    s.socket.clientClosingHandshake = false

inductive RunInTurn (version : ProtocolVersion) : Session → Prop
  | start : RunInTurn version (.new version)
  | step {s s' : Session} {op : Op} : RunInTurn version s → s.InTurn op →
    s.apply handshakeMessage readServerHandshake op = some s' → RunInTurn version s'

def Session.stream (s : Session) : Bytes :=
  handshakeMessage ++ s.messages.flatMap frame ++
    if s.socket.clientClosingHandshake then kClosingFrame else []

end Session

section Queue

def WebSocket.unsent (ws : WebSocket) : Bytes :=
  match ws.currentWriteBuf with
  | some buf => buf.data ++ ws.pendingWriteBufs.tail.flatten
  | none => ws.pendingWriteBufs.flatten

def WebSocket.current (ws : WebSocket) : Nat :=
  match ws.currentWriteBuf with
  | some buf => buf.bytesRemaining
  | none => 0

def WebSocket.FrontIsCurrent (ws : WebSocket) : Prop :=
  ∀ buf, ws.currentWriteBuf = some buf → ∃ rest, ws.pendingWriteBufs = buf.base :: rest

theorem current_le_unsent (ws : WebSocket) : ws.current ≤ ws.unsent.length := by
  unfold WebSocket.current WebSocket.unsent
  split
  · rw [length_append, DrainableIOBuffer.bytesRemaining, DrainableIOBuffer.data, length_drop]
    omega
  · exact Nat.zero_le _

variable (handshakeMessage : Bytes)

def Session.issued (s : Session) : Bytes :=
  (if s.socket.handshake then handshakeMessage else []) ++ s.messages.flatMap frame ++
    if s.socket.clientClosingHandshake then kClosingFrame else []

structure Session.Inv (s : Session) : Prop where
  split : ∃ acked, s.handed = acked ++ s.socket.unsent.take s.unacked ∧
    s.issued handshakeMessage = acked ++ s.socket.unsent
  bound : s.unacked ≤ s.socket.current
  front : s.socket.FrontIsCurrent
  apart : s.overlapped = false
  notYet : s.socket.handshake = false →
    s.socket.maxPendingSendAllowed = 0 ∧ s.messages = [] ∧ s.handed = []
  opened : s.socket.readyState = .open → s.socket.handshake = true
  received : .doReceivedData ∈ s.tasks → s.socket.handshake = true

end Queue

end Glopen.WebSockets

/-! What a step does to the queue of a socket, and what holds in every state of a run in turn. -/
namespace Glopen.WebSockets

open List

section Quiet

def Event.Quiet : Event → Prop
  | .sendData _ => False
  | .post .doReceivedData => False
  | _ => True

theorem Event.Quiet.alone {event : Event} (quiet : event.Quiet) : ∀ other ∈ [event], other.Quiet :=
  forall_mem_singleton.mpr quiet

theorem Event.Quiet.onlyIf {event : Event} (quiet : event.Quiet) (c : Prop) [Decidable c] :
    ∀ other ∈ (if c then [event] else []), other.Quiet := by
  split
  · exact quiet.alone
  · exact nofun

structure SameQueue (ws ws' : WebSocket) : Prop where
  handshake : ws'.handshake = ws.handshake
  allowed : ws'.maxPendingSendAllowed = ws.maxPendingSendAllowed
  current : ws'.currentWriteBuf = ws.currentWriteBuf
  pending : ws'.pendingWriteBufs = ws.pendingWriteBufs
  closing : ws'.clientClosingHandshake = ws.clientClosingHandshake

theorem SameQueue.refl (ws : WebSocket) : SameQueue ws ws := ⟨rfl, rfl, rfl, rfl, rfl⟩

theorem SameQueue.unsent {ws ws' : WebSocket} (same : SameQueue ws ws') : ws'.unsent = ws.unsent := by
  unfold WebSocket.unsent
  rw [same.current, same.pending]

theorem SameQueue.current_length {ws ws' : WebSocket} (same : SameQueue ws ws') : ws'.current = ws.current := by
  unfold WebSocket.current
  rw [same.current]

theorem emit_quiet {s : Session} {events : List Event} (quiet : ∀ event ∈ events, event.Quiet) :
    (events.foldl Session.emitOne s).socket = s.socket ∧ (events.foldl Session.emitOne s).messages = s.messages ∧
      (events.foldl Session.emitOne s).handed = s.handed ∧
      (events.foldl Session.emitOne s).unacked = s.unacked ∧
      (events.foldl Session.emitOne s).overlapped = s.overlapped ∧
      (.doReceivedData ∈ (events.foldl Session.emitOne s).tasks → .doReceivedData ∈ s.tasks) := by
  induction events generalizing s with
  | nil => exact ⟨rfl, rfl, rfl, rfl, rfl, id⟩
  | cons event events ih =>
    obtain ⟨first, rest⟩ := forall_mem_cons.mp quiet
    rw [foldl_cons]
    obtain ⟨socket, messages, handed, unacked, overlapped, tasks⟩ := @ih (s.emitOne event) rest
    cases event with
    | sendData data => cases first
    | post task =>
      refine ⟨socket, messages, handed, unacked, overlapped, fun isIn => ?_⟩
      obtain isIn | isIn := mem_append.mp (tasks isIn)
      · exact isIn
      · obtain rfl := mem_singleton.mp isIn
        cases first
    | _ => exact ⟨socket, messages, handed, unacked, overlapped, tasks⟩

variable {handshakeMessage : Bytes} {s : Session}

theorem inv_quiet (inv : s.Inv handshakeMessage) {ws : WebSocket} {events : List Event}
    (same : SameQueue s.socket ws) (opened : ws.readyState = .open → ws.handshake = true)
    (quiet : ∀ event ∈ events, event.Quiet) : (s.after (ws, events)).Inv handshakeMessage := by
  obtain ⟨socket, messages, handed, unacked, overlapped, tasks⟩ :=
    @emit_quiet { s with socket := ws } events quiet
  obtain ⟨acked, handed_eq, issued_eq⟩ := inv.split
  unfold Session.after
  constructor
  · refine ⟨acked, ?_, ?_⟩
    · rw [handed, socket, unacked, same.unsent]
      exact handed_eq
    · rw [Session.issued, messages, socket, same.unsent, same.handshake, same.closing]
      exact issued_eq
  · rw [unacked, socket, same.current_length]
    exact inv.bound
  · rw [socket]
    intro buf isCurrent
    rw [same.current] at isCurrent
    rw [same.pending]
    exact inv.front buf isCurrent
  · rw [overlapped]
    exact inv.apart
  · rw [socket, messages, handed, same.handshake, same.allowed]
    exact inv.notYet
  · rw [socket]
    exact opened
  · rw [socket, same.handshake]
    exact fun isIn => inv.received (tasks isIn)

end Quiet

section Send

variable {handshakeMessage : Bytes} {s : Session}

theorem inv_submit (inv : s.Inv handshakeMessage) (idle : s.unacked = 0) {buf : DrainableIOBuffer}
    (front : ∃ rest, s.socket.pendingWriteBufs = buf.base :: rest)
    (same : ({ s.socket with currentWriteBuf := some buf } : WebSocket).unsent = s.socket.unsent) :
    (s.after (s.socket.submit buf)).Inv handshakeMessage := by
  obtain ⟨acked, handed_eq, issued_eq⟩ := inv.split
  have data_eq : ∃ behind, s.socket.unsent = buf.data ++ behind := ⟨_, same.symm⟩
  obtain ⟨behind, unsent_eq⟩ := data_eq
  have long : buf.data.length = buf.bytesRemaining := length_drop
  have handed_length : (buf.data.take (min buf.bytesRemaining s.socket.maxPendingSendAllowed)).length =
      min buf.bytesRemaining s.socket.maxPendingSendAllowed := by
    rw [length_take, long]
    omega
  rw [idle, take_zero, append_nil] at handed_eq
  constructor
  · refine ⟨acked, ?_, ?_⟩
    · simp only [Session.after, WebSocket.submit, foldl_cons, foldl_nil, Session.emitOne, idle,
        Nat.zero_add, handed_eq, same, handed_length]
      rw [unsent_eq, take_append_of_le_length (by omega)]
    · change s.issued handshakeMessage =
        acked ++ ({ s.socket with currentWriteBuf := some buf } : WebSocket).unsent
      rw [same]
      exact issued_eq
  · simp only [Session.after, WebSocket.submit, foldl_cons, foldl_nil, Session.emitOne, idle,
      Nat.zero_add, handed_length]
    exact Nat.min_le_left ..
  · intro other isCurrent
    cases isCurrent
    exact front
  · simp [Session.after, WebSocket.submit, Session.emitOne, idle, inv.apart]
  · intro not_yet
    obtain ⟨none_allowed, messages, handed⟩ := inv.notYet not_yet
    refine ⟨none_allowed, messages, ?_⟩
    simp [Session.after, WebSocket.submit, Session.emitOne, handed, none_allowed]
  · exact inv.opened
  · exact inv.received

theorem inv_sendPending (inv : s.Inv handshakeMessage) (idle : s.socket.socketStream = true → s.unacked = 0) :
    (s.after s.socket.sendPending).Inv handshakeMessage := by
  unfold WebSocket.sendPending
  split
  · exact inv_quiet inv (.refl _) inv.opened nofun
  · rename_i connected
    have connected : s.socket.socketStream = true := by simpa using connected
    split
    · rename_i buf isCurrent
      refine inv_submit inv (idle connected) (inv.front buf isCurrent) ?_
      unfold WebSocket.unsent
      rw [isCurrent]
    · rename_i none_current
      split
      · split
        · split
          · exact inv_quiet inv ⟨rfl, rfl, rfl, rfl, rfl⟩ inv.opened (.alone (by trivial))
          · exact inv_quiet inv ⟨rfl, rfl, rfl, rfl, rfl⟩ inv.opened nofun
        · exact inv_quiet inv (.refl _) inv.opened nofun
      · rename_i front rest pending
        refine inv_submit inv (idle connected) ⟨rest, pending⟩ ?_
        unfold WebSocket.unsent
        rw [none_current]
        simp only [pending, DrainableIOBuffer.data, drop_zero, tail_cons, flatten_cons]

def WebSocket.pushed (ws : WebSocket) (data : Bytes) : WebSocket :=
  { ws with pendingWriteBufs := ws.pendingWriteBufs ++ [data] }

theorem unsent_pushed {ws : WebSocket} (front : ws.FrontIsCurrent) (data : Bytes) :
    (ws.pushed data).unsent = ws.unsent ++ data := by
  unfold WebSocket.pushed WebSocket.unsent
  cases isCurrent : ws.currentWriteBuf with
  | none => simp
  | some buf =>
    obtain ⟨rest, pending⟩ := front buf isCurrent
    simp [pending]

section

variable (inv : s.Inv handshakeMessage)
include inv

theorem inv_push {ws : WebSocket} {messages : List Bytes} {data : Bytes}
    (current : ws.currentWriteBuf = s.socket.currentWriteBuf)
    (pending : ws.pendingWriteBufs = s.socket.pendingWriteBufs ++ [data])
    (issued : ({ s with socket := ws, messages } : Session).issued handshakeMessage =
      s.issued handshakeMessage ++ data)
    (notYet : ws.handshake = false → ws.maxPendingSendAllowed = 0 ∧ messages = [] ∧ s.handed = [])
    (opened : ws.readyState = .open → ws.handshake = true)
    (received : .doReceivedData ∈ s.tasks → ws.handshake = true) :
    ({ s with socket := ws, messages } : Session).Inv handshakeMessage := by
  obtain ⟨acked, handed_eq, issued_eq⟩ := inv.split
  have unsent : ws.unsent = s.socket.unsent ++ data := by
    rw [← unsent_pushed inv.front]
    unfold WebSocket.unsent WebSocket.pushed
    rw [current, pending]
  have inside := Nat.le_trans inv.bound (current_le_unsent s.socket)
  refine ⟨⟨acked, ?_, ?_⟩, ?_, ?_, inv.apart, notYet, opened, received⟩
  · rw [handed_eq]
    simp only [unsent]
    rw [take_append_of_le_length inside]
  · rw [issued, issued_eq, unsent, append_assoc]
  · have bound := inv.bound
    unfold WebSocket.current at bound ⊢
    rw [current]
    exact bound
  · intro buf isCurrent
    obtain ⟨rest, front⟩ := inv.front buf (current ▸ isCurrent)
    exact ⟨rest ++ [data], by rw [pending, front, cons_append]⟩

theorem inv_send (msg : Bytes)
    (started : (s.socket.readyState = .initialized || s.socket.readyState = .connecting) = false)
    (idle : s.socket.socketStream = true → s.socket.accepts = true → s.unacked = 0) :
    ({ s with messages := if s.socket.accepts then s.messages ++ [msg] else s.messages }.after
      (s.socket.send msg)).Inv handshakeMessage := by
  unfold WebSocket.send
  by_cases ended : (s.socket.readyState = .closing || s.socket.readyState = .closed) = true
  · have refused : s.socket.accepts = false := by simp [WebSocket.accepts, ended]
    rw [refused, if_pos ended]
    exact inv_quiet inv (.refl _) inv.opened nofun
  · rw [if_neg ended]
    by_cases closing : s.socket.clientClosingHandshake = true
    · have refused : s.socket.accepts = false := by simp [WebSocket.accepts, closing]
      rw [refused, if_pos closing]
      exact inv_quiet inv (.refl _) inv.opened nofun
    · rw [if_neg closing]
      rw [Bool.not_eq_true] at ended closing
      have accepted : s.socket.accepts = true := by simp [WebSocket.accepts, ended, closing]
      have is_open : s.socket.readyState = .open := by
        cases state : s.socket.readyState <;> simp [state] at started ended
        rfl
      have connected := inv.opened is_open
      rw [if_pos accepted]
      have pushed : ({ s with
          socket := { s.socket with pendingWriteBufs := s.socket.pendingWriteBufs ++ [frame msg] }
          messages := s.messages ++ [msg] } : Session).Inv handshakeMessage := by
        refine inv_push inv rfl rfl ?_ ?_ (fun _ => connected) (fun _ => connected)
        · simp [Session.issued, closing, connected]
        · intro not_yet
          rw [connected] at not_yet
          cases not_yet
      exact inv_sendPending pushed (fun stream => idle stream accepted)

theorem inv_startClosingHandshake (idle : s.socket.socketStream = true →
      (s.socket.closingHandshakeStarted || s.socket.clientClosingHandshake) = false → s.unacked = 0) :
    (s.after s.socket.startClosingHandshake).Inv handshakeMessage := by
  unfold WebSocket.startClosingHandshake
  split
  · exact inv_quiet inv (.refl _) inv.opened nofun
  · rename_i fresh
    rw [Bool.not_eq_true] at fresh
    obtain ⟨-, closing⟩ := Bool.or_eq_false_iff.mp fresh
    have pushed : ({ s with socket := { s.socket with
        clientClosingHandshake := true
        pendingWriteBufs := s.socket.pendingWriteBufs ++ [kClosingFrame] } } : Session).Inv
          handshakeMessage := by
      refine @inv_push _ s inv _ s.messages _ rfl rfl ?_ inv.notYet inv.opened inv.received
      simp [Session.issued, closing]
    exact inv_sendPending pushed (fun stream => idle stream fresh)

theorem inv_onConnected (maxPendingSendAllowed : Nat)
    (fresh : s.socket.handshake = false) (early : s.socket.clientClosingHandshake = false) :
    (s.after (s.socket.onConnected handshakeMessage maxPendingSendAllowed)).Inv handshakeMessage := by
  obtain ⟨-, messages, handed⟩ := inv.notYet fresh
  have pushed : ({ s with socket :=
      (s.socket.onConnected handshakeMessage maxPendingSendAllowed).1 } : Session).Inv handshakeMessage := by
    refine @inv_push _ s inv _ s.messages handshakeMessage rfl rfl ?_ nofun (fun _ => rfl) (fun _ => rfl)
    simp [Session.issued, WebSocket.onConnected, fresh, early, messages]
  exact inv_quiet pushed (.refl _) (fun _ => rfl) (.alone (by trivial))

end

end Send

section Sent

variable {handshakeMessage : Bytes} {s : Session}

theorem inv_onSentData (inv : s.Inv handshakeMessage) {amountSent : Nat}
    (inside : amountSent ≤ s.unacked) {step : WebSocket × List Event}
    (stepped : s.socket.onSentData amountSent = some step) :
    ({ s with unacked := s.unacked - amountSent }.after step).Inv handshakeMessage := by
  obtain ⟨buf, isCurrent, rfl⟩ := Option.map_eq_some_iff.mp stepped
  obtain ⟨acked, handed_eq, issued_eq⟩ := inv.split
  obtain ⟨rest, pending⟩ := inv.front buf isCurrent
  have bound := inv.bound
  have unsent : s.socket.unsent = buf.data ++ rest.flatten := by
    unfold WebSocket.unsent
    rw [isCurrent, pending]
    rfl
  have current : s.socket.current = buf.bytesRemaining := by
    unfold WebSocket.current
    rw [isCurrent]
  have remaining : (buf.didConsume amountSent).bytesRemaining = buf.bytesRemaining - amountSent := by
    unfold DrainableIOBuffer.didConsume DrainableIOBuffer.bytesRemaining
    rw [Nat.sub_add_eq]
  have data : (buf.didConsume amountSent).data = buf.data.drop amountSent := by
    unfold DrainableIOBuffer.didConsume DrainableIOBuffer.data
    rw [drop_drop]
  have long : buf.data.length = buf.bytesRemaining := length_drop
  have consumed : ∀ ws : WebSocket, ws.unsent = s.socket.unsent.drop amountSent →
      ws.handshake = s.socket.handshake → ws.clientClosingHandshake = s.socket.clientClosingHandshake →
      ws.maxPendingSendAllowed = s.socket.maxPendingSendAllowed →
      ws.readyState = s.socket.readyState → ws.FrontIsCurrent →
      s.unacked - amountSent ≤ ws.current →
      ({ s with socket := ws, unacked := s.unacked - amountSent } : Session).Inv handshakeMessage := by
    intro ws ws_unsent handshake closing allowed readyState front_ws bound_ws
    refine ⟨⟨acked ++ s.socket.unsent.take amountSent, ?_, ?_⟩, bound_ws, front_ws, inv.apart, ?_, ?_, ?_⟩
    · simp only
      rw [handed_eq, ws_unsent, append_assoc, ← drop_take]
      have whole : s.socket.unsent.take amountSent = (s.socket.unsent.take s.unacked).take amountSent := by
        rw [take_take, Nat.min_eq_left inside]
      rw [whole, take_append_drop]
    · rw [ws_unsent, append_assoc, take_append_drop, ← issued_eq]
      simp [Session.issued, handshake, closing]
    · rw [handshake, allowed]
      exact inv.notYet
    · rw [readyState, handshake]
      exact inv.opened
    · rw [handshake]
      exact inv.received
  have posted : ∀ event ∈ [Event.post .sendPending], event.Quiet := .alone (by trivial)
  simp only
  split
  · rename_i used
    have all : buf.data.length = amountSent := by omega
    refine inv_quiet (s := { s with
      socket := { s.socket with
        currentWriteBuf := none, pendingWriteBufs := s.socket.pendingWriteBufs.tail }
      unacked := s.unacked - amountSent }) (consumed _ ?_ rfl rfl rfl rfl nofun ?_) (.refl _) inv.opened
      posted
    · rw [unsent, ← all, drop_left]
      simp [WebSocket.unsent, pending]
    · simp only [WebSocket.current]
      omega
  · refine inv_quiet (s := { s with
      socket := { s.socket with currentWriteBuf := some (buf.didConsume amountSent) }
      unacked := s.unacked - amountSent }) (consumed _ ?_ rfl rfl rfl rfl ?_ ?_) (.refl _) inv.opened posted
    · rw [unsent, drop_append_of_le_length (by omega), ← data]
      simp [WebSocket.unsent, pending]
    · intro other isOther
      cases isOther
      exact ⟨rest, pending⟩
    · simp only [WebSocket.current, remaining]
      omega

end Sent

theorem processFrames_quiet (version : ProtocolVersion) (delegate : Bool) (fuel : Nat) (data : Bytes) :
    ∀ event ∈ (WebSocket.processFrames version delegate fuel data).1, event.Quiet := by
  induction fuel generalizing data with
  | zero => exact nofun
  | succ fuel ih =>
    cases data with
    | nil => exact nofun
    | cons frameByte rest =>
      rw [WebSocket.processFrames]
      split
      · split
        · exact nofun
        · split
          · split
            · exact nofun
            · intro event isIn
              obtain isError | isIn := mem_append.mp isIn
              · split at isError
                · rw [mem_singleton.mp isError]
                  trivial
                · cases isError
              · exact ih _ event isIn
          · exact nofun
      · simp only
        split
        · exact nofun
        · intro event isIn
          obtain isFrame | isIn := mem_append.mp isIn
          · split at isFrame
            · rw [mem_singleton.mp isFrame]
              split <;> trivial
            · cases isFrame
          · exact ih _ event isIn

theorem processFrameData_quiet (ws : WebSocket) :
    SameQueue ws ws.processFrameData.1 ∧ ws.processFrameData.1.readyState = ws.readyState ∧
      ∀ event ∈ ws.processFrameData.2, event.Quiet := by
  have frames := processFrames_quiet ws.version ws.delegate ws.readBuf.unread.length ws.readBuf.unread
  unfold WebSocket.processFrameData
  split
  · exact ⟨.refl _, rfl, nofun⟩
  · simp only
    generalize WebSocket.processFrames ws.version ws.delegate ws.readBuf.unread.length
      ws.readBuf.unread = result at frames
    obtain ⟨events, left, outcome⟩ := result
    cases outcome with
    | waits => exact ⟨⟨rfl, rfl, rfl, rfl, rfl⟩, rfl, frames⟩
    | overflow =>
      refine ⟨.refl _, rfl, fun event isIn => ?_⟩
      obtain isIn | isIn := mem_append.mp isIn
      · exact frames event isIn
      · exact Event.Quiet.alone (by trivial) event isIn
    | closingFrame =>
      refine ⟨⟨rfl, rfl, rfl, rfl, rfl⟩, rfl, fun event isIn => ?_⟩
      obtain isIn | isIn := mem_append.mp isIn
      · exact frames event isIn
      · split at isIn
        · exact Event.Quiet.alone (by trivial) event isIn
        · exact Event.Quiet.alone (by trivial) event isIn

theorem doReceivedData_quiet (readServerHandshake : Bytes → Option (Nat × Bool)) (ws : WebSocket) :
    SameQueue ws (ws.doReceivedData readServerHandshake).1 ∧
      ∀ event ∈ (ws.doReceivedData readServerHandshake).2, event.Quiet := by
  unfold WebSocket.doReceivedData
  split
  · split
    · exact ⟨.refl _, nofun⟩
    · rename_i eoh connected _
      simp only
      split
      · exact ⟨⟨rfl, rfl, rfl, rfl, rfl⟩, .alone (by trivial)⟩
      · have opened : ∀ event ∈ (if ws.delegate then [Event.onOpen] else []), event.Quiet :=
          .onlyIf (by trivial) _
        split
        · exact ⟨⟨rfl, rfl, rfl, rfl, rfl⟩, opened⟩
        · obtain ⟨same, -, quiet⟩ := processFrameData_quiet
            { ws with readBuf := ws.readBuf.skip eoh, readyState := .open }
          refine ⟨⟨same.handshake, same.allowed, same.current, same.pending, same.closing⟩, fun event isIn => ?_⟩
          obtain isIn | isIn := mem_append.mp isIn
          · exact opened event isIn
          · exact quiet event isIn
  · exact ⟨(processFrameData_quiet ws).1, (processFrameData_quiet ws).2.2⟩
  · exact ⟨(processFrameData_quiet ws).1, (processFrameData_quiet ws).2.2⟩
  · exact ⟨.refl _, nofun⟩
  · exact ⟨.refl _, nofun⟩

section Step

variable {handshakeMessage : Bytes} {readServerHandshake : Bytes → Option (Nat × Bool)} {s : Session}

section

variable (inv : s.Inv handshakeMessage)
include inv

theorem inv_tasks {tasks : List Task} (kept : .doReceivedData ∈ tasks → .doReceivedData ∈ s.tasks) :
    ({ s with tasks } : Session).Inv handshakeMessage :=
  ⟨inv.split, inv.bound, inv.front, inv.apart, inv.notYet, inv.opened, fun isIn => inv.received (kept isIn)⟩

theorem inv_closing_step {ws : WebSocket} {events : List Event} (same : SameQueue s.socket ws)
    (state : ws.readyState = s.socket.readyState ∨ ws.readyState ≠ .open)
    (quiet : ∀ event ∈ events, event.Quiet) : (s.after (ws, events)).Inv handshakeMessage := by
  refine inv_quiet inv same (fun is_open => ?_) quiet
  rw [same.handshake]
  obtain kept | other := state
  · exact inv.opened (kept ▸ is_open)
  · exact absurd is_open other

theorem inv_close : (s.after s.socket.close).Inv handshakeMessage := by
  have posts : ∀ event ∈ (if s.socket.readyState = .connecting then
      [Event.post .failConnection] else []) ++
        (if !s.socket.closingHandshakeStarted then [.post .startClosingHandshake] else []),
      event.Quiet := by
    intro event isIn
    obtain isIn | isIn := mem_append.mp isIn
    · exact Event.Quiet.onlyIf (by trivial) _ event isIn
    · exact Event.Quiet.onlyIf (by trivial) _ event isIn
  unfold WebSocket.close
  split
  · exact inv_closing_step inv ⟨rfl, rfl, rfl, rfl, rfl⟩ (.inr nofun) nofun
  · split
    · exact inv_closing_step inv (.refl _) (.inl rfl) nofun
    · split
      · exact inv_closing_step inv (.refl _) (.inl rfl) (.alone (by trivial))
      · exact inv_closing_step inv ⟨rfl, rfl, rfl, rfl, rfl⟩ (.inr nofun) posts

theorem inv_detachDelegate : (s.after s.socket.detachDelegate).Inv handshakeMessage := by
  unfold WebSocket.detachDelegate
  split
  · exact inv_closing_step inv (.refl _) (.inl rfl) nofun
  · simp only
    split
    · exact inv_closing_step inv ⟨rfl, rfl, rfl, rfl, rfl⟩ (.inr nofun) nofun
    · split
      · exact inv_closing_step inv ⟨rfl, rfl, rfl, rfl, rfl⟩ (.inl rfl) (.alone (by trivial))
      · exact inv_closing_step inv ⟨rfl, rfl, rfl, rfl, rfl⟩ (.inl rfl) nofun

theorem inv_failConnection {ws : WebSocket}
    (same : SameQueue s.socket ws) (state : ws.readyState = s.socket.readyState) :
    (s.after ws.failConnection).Inv handshakeMessage := by
  unfold WebSocket.failConnection
  split
  · exact inv_closing_step inv same (.inl state) nofun
  · exact inv_closing_step inv same (.inl state) (.alone (by trivial))

theorem inv_runTask (inTurn : s.InTurn .runTask) {task : Task}
    {tasks : List Task} (queue : s.tasks = task :: tasks) :
    ({ s with tasks }.after (s.socket.runTask readServerHandshake task)).Inv handshakeMessage := by
  have popped : ({ s with tasks } : Session).Inv handshakeMessage :=
    inv_tasks inv fun isIn => queue ▸ mem_cons_of_mem task isIn
  have idle := inTurn.idle
  simp only [Session.callsSendPending, queue, List.head?_cons] at idle
  cases task with
  | sendPending => exact inv_sendPending popped fun (stream : s.socket.socketStream = true) => idle (by simp [stream])
  | doReceivedData =>
    have connected := inv.received (queue ▸ mem_cons_self ..)
    obtain ⟨same, quiet⟩ := doReceivedData_quiet readServerHandshake s.socket
    exact inv_quiet popped same (fun _ => same.handshake.trans connected) quiet
  | startClosingHandshake =>
    refine inv_startClosingHandshake popped fun (stream : s.socket.socketStream = true)
      (fresh : (s.socket.closingHandshakeStarted || s.socket.clientClosingHandshake) = false) => idle ?_
    simp [stream, fresh]
  | failConnection => exact inv_failConnection popped (.refl _) rfl
  | doClose =>
    exact inv_closing_step popped ⟨rfl, rfl, rfl, rfl, rfl⟩ (.inr nofun) (.onlyIf (by trivial) _)
  | doSocketError error =>
    exact inv_closing_step popped (.refl _) (.inl rfl) (.onlyIf (by trivial) _)

theorem inv_apply {op : Op} (inTurn : s.InTurn op) {s' : Session}
    (applied : s.apply handshakeMessage readServerHandshake op = some s') : s'.Inv handshakeMessage := by
  cases op with
  | connect =>
    obtain ⟨-, eq⟩ := Option.ite_none_right_eq_some.mp applied
    cases eq
    exact inv_closing_step inv ⟨rfl, rfl, rfl, rfl, rfl⟩ (.inr nofun) (.alone (by trivial))
  | onConnected maxPendingSendAllowed =>
    obtain ⟨fresh, eq⟩ := Option.ite_none_right_eq_some.mp applied
    rw [Bool.and_eq_true, Bool.not_eq_true'] at fresh
    cases eq
    exact inv_onConnected inv maxPendingSendAllowed fresh.2 (inTurn.connected _ rfl)
  | send msg =>
    obtain ⟨started, eq⟩ := Option.ite_none_left_eq_some.mp applied
    cases eq
    refine inv_send inv msg (Bool.not_eq_true _ ▸ started) fun stream accepts => inTurn.idle ?_
    simp [Session.callsSendPending, stream, accepts]
  | close =>
    cases applied
    exact inv_close inv
  | detachDelegate =>
    cases applied
    exact inv_detachDelegate inv
  | onSentData amountSent =>
    obtain ⟨inside, mapped⟩ := Option.ite_none_right_eq_some.mp applied
    obtain ⟨step, stepped, rfl⟩ := Option.map_eq_some_iff.mp mapped
    rw [Bool.and_eq_true, decide_eq_true_eq, decide_eq_true_eq] at inside
    exact inv_onSentData inv inside.2 stepped
  | onReceivedData data =>
    obtain ⟨connected, eq⟩ := Option.ite_none_right_eq_some.mp applied
    cases eq
    exact ⟨inv.split, inv.bound, inv.front, inv.apart, inv.notYet, fun _ => connected, fun _ => connected⟩
  | onClose =>
    cases applied
    refine inv_tasks inv fun isIn => ?_
    obtain isIn | isIn := mem_append.mp isIn
    · exact isIn
    · cases mem_singleton.mp isIn
  | onError error =>
    cases applied
    refine inv_tasks inv fun isIn => ?_
    obtain isIn | isIn := mem_append.mp isIn
    · exact isIn
    · cases mem_singleton.mp isIn
  | runTask =>
    simp only [Session.apply] at applied
    split at applied
    · cases applied
    · rename_i task tasks queue
      cases applied
      exact inv_runTask inv inTurn queue
  | forceClose =>
    obtain ⟨-, eq⟩ := Option.ite_none_right_eq_some.mp applied
    cases eq
    exact inv_failConnection inv ⟨rfl, rfl, rfl, rfl, rfl⟩ rfl

end

theorem runInTurn_inv {version : ProtocolVersion}
    (run : RunInTurn handshakeMessage readServerHandshake version s) : s.Inv handshakeMessage := by
  induction run with
  | start => exact ⟨⟨[], rfl, rfl⟩, Nat.le_refl _, nofun, rfl, fun _ => ⟨rfl, rfl, rfl⟩, nofun, nofun⟩
  | step _ inTurn applied ih => exact inv_apply ih inTurn applied

end Step

/-- In a run in turn the stream is given the handshake, the messages in the order of `Send`, then the
closing frame, as far as they have gone out, and nothing twice. -/
theorem handed_in_order (handshakeMessage : Bytes)
    (readServerHandshake : Bytes → Option (Nat × Bool)) (version : ProtocolVersion) (s : Session)
    (run : RunInTurn handshakeMessage readServerHandshake version s) :
    s.handed <+: s.stream handshakeMessage ∧ s.overlapped = false := by
  have inv := runInTurn_inv run
  refine ⟨?_, inv.apart⟩
  cases connected : s.socket.handshake with
  | false =>
    obtain ⟨-, -, handed⟩ := inv.notYet connected
    rw [handed]
    exact List.nil_prefix
  | true =>
    obtain ⟨acked, handed_eq, issued_eq⟩ := inv.split
    have same : s.issued handshakeMessage = s.stream handshakeMessage := by
      simp [Session.issued, Session.stream, connected]
    rw [← same, handed_eq, issued_eq]
    exact (List.prefix_append_right_inj acked).mpr (List.take_prefix ..)

def Session.early (s : Session) : Op → Bool
  | .onConnected _ => !s.socket.clientClosingHandshake
  | _ => true

theorem inTurn_iff (s : Session) (op : Op) :
    (s.callsSendPending op = true → s.unacked = 0) ∧ s.early op = true ↔ s.InTurn op := by
  constructor
  · rintro ⟨idle, early⟩
    refine ⟨idle, ?_⟩
    rintro maxPendingSendAllowed rfl
    simpa [Session.early] using early
  · rintro ⟨idle, connected⟩
    refine ⟨idle, ?_⟩
    cases op with
    | onConnected maxPendingSendAllowed => simp [Session.early, connected maxPendingSendAllowed rfl]
    | _ => rfl

instance (s : Session) (op : Op) : Decidable (s.InTurn op) := decidable_of_iff _ (inTurn_iff s op)

theorem runInTurn_foldlM {handshakeMessage : Bytes} {readServerHandshake : Bytes → Option (Nat × Bool)}
    {version : ProtocolVersion} {ops : List Op} {s s' : Session}
    (run : RunInTurn handshakeMessage readServerHandshake version s) (done : ops.foldlM (fun s op =>
      if s.InTurn op then s.apply handshakeMessage readServerHandshake op else none) s = some s') :
    RunInTurn handshakeMessage readServerHandshake version s' := by
  induction ops generalizing s with
  | nil => exact Option.some.inj done ▸ run
  | cons op ops ih =>
    rw [foldlM_cons] at done
    obtain ⟨next, stepped, done⟩ := Option.bind_eq_some_iff.mp done
    obtain ⟨inTurn, applied⟩ := Option.ite_none_right_eq_some.mp stepped
    exact ih (.step run inTurn applied) done

/-- A server that answers the handshake `h` with `H`. -/
def answered (data : Bytes) : Option (Nat × Bool) := if data.head? = some 72 then some (1, true) else none

def untilOpen : List Op :=
  [.connect, .onConnected 99, .runTask, .onSentData 1, .runTask, .onReceivedData [72], .runTask]

def runOps (ops : List Op) : Option Session :=
  ops.foldlM (fun s op => s.apply [104] answered op) (.new .defaultVersion)

/-- One message after the other, and the closing frame. -/
theorem handed_in_order_closed :
    ∃ s, RunInTurn [104] answered .defaultVersion s ∧ s.handed = [104, 0, 97, 255, 0, 98, 255, 255, 0] ∧
      s.handed <+: s.stream [104] ∧ s.overlapped = false := by
  have run := @runInTurn_foldlM [104] answered .defaultVersion (untilOpen ++ [.send [97], .onSentData 3,
    .runTask, .send [98], .onSentData 3, .runTask, .close, .runTask]) _ _ .start rfl
  exact ⟨_, run, by decide, handed_in_order [104] answered .defaultVersion _ run⟩

/-- Two messages while the first one is still being sent: its bytes are handed over again. -/
theorem second_send_hands_over_again : ∃ s, runOps (untilOpen ++ [.send [97], .send [98]]) = some s ∧
      s.handed = [104, 0, 97, 255, 0, 97, 255] ∧ ¬ s.handed <+: s.stream [104] := by
  refine ⟨_, rfl, by decide, by decide⟩

end Glopen.WebSockets

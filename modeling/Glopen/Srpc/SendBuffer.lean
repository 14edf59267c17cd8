import Glopen.Srpc.ResponseTrip

/-! Requests and responses written to a channel. A message is serialized into the channel's
send buffer, and a flush hands the buffer to the transport and empties it; a message that cannot
be serialized is never flushed. -/
namespace Glopen.Srpc

open Wire List
variable {δ : Type}

structure Channel (δ : Type) where
  sendBuf : SendBuffer δ
  handed : List (SendBuffer δ)
deriving DecidableEq

def naClSrpcImcBufferCtor : SendBuffer δ := ⟨[], []⟩

def newChannel : Channel δ := ⟨naClSrpcImcBufferCtor, []⟩

/-- `retval` is the answer of the transport. -/
def naClSrpcImcFlush (retval : Int) (channel : Channel δ) : Channel δ × Bool :=
  (⟨⟨[], []⟩, channel.handed ++ [channel.sendBuf]⟩, retval = channel.sendBuf.bytes.length)

def naClSrpcRequestWrite (size : SizeT) (rpc : NaClSrpcRpc) (args rets : List (Arg δ))
    (retval : Int) (channel : Channel δ) : Channel δ × Bool :=
  if !(argsLength args && argsLength rets) then (channel, false)
  else
    match requestPut size rpc args rets channel.sendBuf with
    | (sendBuf, false) => ({ channel with sendBuf }, false)
    | (sendBuf, true) => naClSrpcImcFlush retval { channel with sendBuf }

def internalError (rpc : NaClSrpcRpc) : NaClSrpcRpc :=
  { rpc with isRequest := 0, appError := naclSrpcResultInternal }

def naClSrpcResponseWrite (size : SizeT) (rpc : NaClSrpcRpc) (rets : List (Arg δ))
    (retval retry : Int) (channel : Channel δ) : Channel δ × Bool :=
  if !argsLength rets then (channel, false)
  else
    match responsePut size rpc rets channel.sendBuf with
    | (sendBuf, false) => ({ channel with sendBuf }, false)
    | (sendBuf, true) =>
      match naClSrpcImcFlush retval { channel with sendBuf } with
      | (channel, true) => (channel, true)
      | (channel, false) =>
        match rpcWrite size (internalError rpc) channel.sendBuf with
        | (sendBuf, false) => ({ channel with sendBuf }, false)
        | (sendBuf, true) => ((naClSrpcImcFlush retry { channel with sendBuf }).1, true)

inductive Call (δ : Type) where
  | request (rpc : NaClSrpcRpc) (args rets : List (Arg δ)) (retval : Int)
  | response (rpc : NaClSrpcRpc) (rets : List (Arg δ)) (retval retry : Int)

def Call.write (size : SizeT) : Call δ → Channel δ → Channel δ × Bool
  | .request rpc args rets retval => naClSrpcRequestWrite size rpc args rets retval
  | .response rpc rets retval retry => naClSrpcResponseWrite size rpc rets retval retry

def writeAll (size : SizeT) (channel : Channel δ) : List (Call δ) → Channel δ × List Bool
  | [] => (channel, [])
  | call :: rest =>
    let (channel, result) := call.write size channel
    let (channel, results) := writeAll size channel rest
    (channel, result :: results)

def Call.tooLong : Call δ → Bool
  | .request _ args rets _ => !(argsLength args && argsLength rets)
  | .response _ rets _ _ => !argsLength rets

def Call.Fits : Call δ → Prop
  | .request _ args rets _ => RequestFits args rets
  | .response _ rets _ _ => ResponseFits rets

def Call.message : Call δ → SendBuffer δ
  | .request rpc args rets _ => ⟨requestBytes rpc args rets, argsDescs true args⟩
  | .response rpc rets _ _ => ⟨responseBytes rpc rets, argsDescs true rets⟩

def Call.accepted : Call δ → Bool
  | .request rpc args rets retval => retval = (requestBytes rpc args rets).length
  | .response rpc rets retval _ => retval = (responseBytes rpc rets).length

def Call.messages (call : Call δ) : List (SendBuffer δ) :=
  if call.tooLong then [] else
    match call with
    | .request .. => [call.message]
    | .response rpc .. =>
      if call.accepted then [call.message]
      else [call.message, ⟨rpcBytes (internalError rpc), []⟩]

def Call.result (call : Call δ) : Bool :=
  if call.tooLong then false else
    match call with
    | .request .. => call.accepted
    | .response .. => true

theorem write_request {size : SizeT} {rpc : NaClSrpcRpc} {args rets : List (Arg δ)} {retval : Int}
    (fits : RequestFits args rets) (few : (argsLength args && argsLength rets) = true)
    (handed : List (SendBuffer δ)) : naClSrpcRequestWrite size rpc args rets retval ⟨⟨[], []⟩, handed⟩ =
      (⟨⟨[], []⟩, handed ++ [⟨requestBytes rpc args rets, argsDescs true args⟩]⟩,
        decide (retval = (requestBytes rpc args rets).length)) := by
  rw [naClSrpcRequestWrite, few, if_neg (by decide)]
  simp only [request_put rpc fits]
  rfl

theorem write_error (size : SizeT) (rpc : NaClSrpcRpc) :
    rpcWrite size (internalError rpc) (⟨[], []⟩ : SendBuffer δ) =
      (⟨rpcBytes (internalError rpc), []⟩, true) := by
  have length : (rpcBytes (internalError rpc)).length = 21 := rfl
  apply rpc_writes (internalError rpc) ⟨[], []⟩
  · rw [length, length_nil]
    decide
  · exact Nat.zero_le _

theorem write_response {size : SizeT} {rpc : NaClSrpcRpc} {rets : List (Arg δ)}
    {retval retry : Int} (fits : ResponseFits rets) (few : argsLength rets = true)
    (handed : List (SendBuffer δ)) : naClSrpcResponseWrite size rpc rets retval retry ⟨⟨[], []⟩, handed⟩ =
      (⟨⟨[], []⟩, handed ++ if retval = (responseBytes rpc rets).length
        then [⟨responseBytes rpc rets, argsDescs true rets⟩]
        else [⟨responseBytes rpc rets, argsDescs true rets⟩, ⟨rpcBytes (internalError rpc), []⟩]⟩, true) := by
  rw [naClSrpcResponseWrite, few, if_neg (by decide)]
  simp only [response_put rpc fits, naClSrpcImcFlush]
  by_cases whole : retval = (responseBytes rpc rets).length
  · rw [decide_eq_true whole, if_pos whole]
  · rw [decide_eq_false whole, if_neg whole]
    simp only [write_error, append_assoc]
    rfl

theorem write_clean (size : SizeT) {call : Call δ} (proper : call.tooLong = true ∨ call.Fits)
    (handed : List (SendBuffer δ)) :
    call.write size ⟨⟨[], []⟩, handed⟩ = (⟨⟨[], []⟩, handed ++ call.messages⟩, call.result) := by
  cases call with
  | request rpc args rets retval =>
    rw [Call.write, Call.messages, Call.result]
    by_cases long : (Call.request rpc args rets retval).tooLong = true
    · rw [if_pos long, if_pos long, append_nil]
      exact if_pos long
    · rw [if_neg long, if_neg long]
      exact write_request (proper.resolve_left long) (by simpa [Call.tooLong] using long) handed
  | response rpc rets retval retry =>
    rw [Call.write, Call.messages, Call.result]
    by_cases long : (Call.response rpc rets retval retry).tooLong = true
    · rw [if_pos long, if_pos long, append_nil]
      exact if_pos long
    · rw [if_neg long, if_neg long,
        write_response (proper.resolve_left long) (by simpa [Call.tooLong] using long) handed]
      simp only [Call.accepted, decide_eq_true_eq]
      rfl

theorem writeAll_clean (size : SizeT) {calls : List (Call δ)}
    (proper : ∀ call ∈ calls, call.tooLong = true ∨ call.Fits) (handed : List (SendBuffer δ)) :
    writeAll size ⟨⟨[], []⟩, handed⟩ calls =
      (⟨⟨[], []⟩, handed ++ calls.flatMap Call.messages⟩, calls.map Call.result) := by
  induction calls generalizing handed with
  | nil => rw [flatMap_nil, append_nil]; rfl
  | cons call rest ih =>
    have first := write_clean size (proper call mem_cons_self) handed
    have later := ih (fun other member => proper other (mem_cons_of_mem _ member)) (handed ++ call.messages)
    simp only [writeAll, first, later, flatMap_cons, map_cons, append_assoc]

/-- In every run of calls whose vectors are too long or fit, no call leaves anything in the
buffer, failed or not, and each call hands exactly its own message to the transport. -/
theorem send_buffer_over_runs (size : SizeT) {before : List (Call δ)} {call : Call δ}
    (proper : ∀ other ∈ before ++ [call], other.tooLong = true ∨ other.Fits) :
    let channel := (writeAll size newChannel before).1
    channel.sendBuf = ⟨[], []⟩ ∧
    call.write size channel = (⟨⟨[], []⟩, channel.handed ++ call.messages⟩, call.result) := by
  have earlier := writeAll_clean size (fun other member => proper other (List.mem_append_left [call] member)) []
  have last := write_clean size (proper call (List.mem_append_right before List.mem_cons_self))
  rw [newChannel, naClSrpcImcBufferCtor, earlier]
  exact ⟨rfl, last _⟩

def tooManyHandles : Call Nat := .request sampleRpc (List.replicate 9 (.handle 5)) [] 21

def emptyRequest (retval : Int) : Call Nat := .request sampleRpc [] [] retval

/-- A vector of 128 integers is refused, and the response is sent to a peer that is gone. -/
theorem sample_run_clean :
    let before : List (Call Nat) := [.request sampleRpc (List.replicate 128 (.int 0)) [] 0,
      .response answeredRpc sampleArgs (-1) (-1)]
    let channel := (writeAll .bits64 newChannel before).1
    channel.sendBuf = ⟨[], []⟩ ∧
    (Call.request sampleRpc sampleArgs sampleArgs 0).write .bits64 channel =
      (⟨⟨[], []⟩, channel.handed ++ (Call.request sampleRpc sampleArgs sampleArgs 0).messages⟩, false) := by
  apply send_buffer_over_runs
  intro other member
  simp only [List.mem_append, List.mem_cons, List.not_mem_nil, or_false, or_assoc] at member
  rcases member with rfl | rfl | rfl
  · exact Or.inl (by decide +kernel)
  · exact Or.inr sample_response_fits
  · exact Or.inr sample_fits

/-- The ninth handle cannot be written. What was written before it goes out with the next
request, which succeeds. -/
theorem failed_request_pending :
    let failed := tooManyHandles.write .bits64 newChannel
    let next := (emptyRequest 55).write .bits64 failed.1
    failed.2 = false ∧ failed.1.sendBuf.bytes.length = 30 ∧ failed.1.sendBuf.descs.length = 8 ∧
    next.2 = true ∧
    next.1.handed = [⟨failed.1.sendBuf.bytes ++ (emptyRequest 55).message.bytes,
      failed.1.sendBuf.descs⟩] := by
  decide +kernel

end Glopen.Srpc

import Glopen.Srpc.SendBuffer

/-! `__NaClSrpcImcWrite` for elements of any size, between flushes of the channel. -/
namespace Glopen.Srpc

open Wire Option
variable {δ : Type}

/-- The bytes in front of `n` in the memory at `source`. -/
def bytesAt (source : Nat → UInt8) (n : Nat) : List UInt8 := (List.range n).map source

/-- The buffer and the count that is returned. `none`: a division by zero. -/
def imcWriteElements (size : SizeT) (source : Nat → UInt8) (eltSize nElt : UInt32) (buffer : SendBuffer δ) :
    Option (SendBuffer δ × Nat) :=
  let availBytes := naclAbiImcUserBytesMax - buffer.bytes.length
  if eltSize.toNat = 0 then none
  else if size.max / eltSize.toNat ≤ nElt.toNat then some (buffer, imcFailure)
  else
    let requestBytes := nElt.toNat * eltSize.toNat % 2 ^ 32
    if availBytes < requestBytes then some (buffer, imcFailure)
    else some ({ buffer with bytes := buffer.bytes ++ bytesAt source requestBytes }, nElt.toNat)

/-- The count is returned when the bytes of all elements are in the buffer. Otherwise the failure is, and
nothing is written. -/
def Accounted (size : SizeT) (source : Nat → UInt8) (eltSize nElt : UInt32) (buffer : SendBuffer δ) : Prop :=
  ∃ after count, imcWriteElements size source eltSize nElt buffer = some (after, count) ∧
    (count = nElt.toNat →
      after = { buffer with bytes := buffer.bytes ++ bytesAt source (nElt.toNat * eltSize.toNat) }) ∧
    (count ≠ nElt.toNat → count = imcFailure ∧ after = buffer)

/-- There are elements, their number is not that of a failure, and their bytes are counted in 32 bits unless
the call fails. -/
def Countable (size : SizeT) (eltSize nElt : UInt32) (fill : Nat) : Prop :=
  eltSize.toNat ≠ 0 ∧ nElt.toNat ≠ imcFailure ∧
    (nElt.toNat * eltSize.toNat < 2 ^ 32 ∨ size.max / eltSize.toNat ≤ nElt.toNat ∨
      naclAbiImcUserBytesMax - fill < nElt.toNat * eltSize.toNat % 2 ^ 32)

theorem bytesAt_length (source : Nat → UInt8) (n : Nat) : (bytesAt source n).length = n := by
  rw [bytesAt, List.length_map, List.length_range]

theorem countable_writes {size : SizeT} {eltSize nElt : UInt32} {buffer : SendBuffer δ}
    (countable : Countable size eltSize nElt buffer.bytes.length) (source : Nat → UInt8) :
    imcWriteElements size source eltSize nElt buffer = some (buffer, imcFailure) ∨
      imcWriteElements size source eltSize nElt buffer = some
        ({ buffer with bytes := buffer.bytes ++ bytesAt source (nElt.toNat * eltSize.toNat) }, nElt.toNat) ∧
      nElt.toNat * eltSize.toNat ≤ naclAbiImcUserBytesMax - buffer.bytes.length := by
  obtain ⟨elements, -, exact_⟩ := countable
  rw [imcWriteElements]
  simp only [if_neg elements]
  by_cases many : size.max / eltSize.toNat ≤ nElt.toNat
  · exact .inl (if_pos many)
  rw [if_neg many]
  by_cases full : naclAbiImcUserBytesMax - buffer.bytes.length < nElt.toNat * eltSize.toNat % 2 ^ 32
  · exact .inl (if_pos full)
  have small := (exact_.resolve_right fun either => either.elim many full)
  rw [Nat.mod_eq_of_lt small] at full ⊢
  rw [if_neg full]
  exact .inr ⟨rfl, Nat.le_of_not_lt full⟩

theorem accounted_iff (size : SizeT) (source : Nat → UInt8) (eltSize nElt : UInt32) (buffer : SendBuffer δ) :
    Accounted size source eltSize nElt buffer ↔ Countable size eltSize nElt buffer.bytes.length := by
  constructor
  · rintro ⟨after, count, ran, whole, -⟩
    rw [imcWriteElements] at ran
    by_cases elements : eltSize.toNat = 0
    · simp only [if_pos elements] at ran
      cases ran
    simp only [if_neg elements] at ran
    have failure : imcFailure = 4294967295 := rfl
    have nothing : buffer = { buffer with bytes := buffer.bytes ++ bytesAt source (nElt.toNat * eltSize.toNat) } →
        nElt.toNat ≠ imcFailure := by
      intro same all
      have lengths := congrArg (fun its => its.bytes.length) same
      simp only [List.length_append, bytesAt_length] at lengths
      have product := Nat.mul_pos (show 0 < nElt.toNat by omega) (Nat.pos_of_ne_zero elements)
      omega
    split at ran
    · rename_i many
      cases ran
      exact ⟨elements, fun all => nothing (whole all.symm) all, .inr (.inl many)⟩
    split at ran
    · rename_i full
      cases ran
      exact ⟨elements, fun all => nothing (whole all.symm) all, .inr (.inr full)⟩
    · rename_i room
      cases ran
      have lengths := congrArg (fun its => its.bytes.length) (whole rfl)
      simp only [List.length_append, bytesAt_length] at lengths
      have small : nElt.toNat * eltSize.toNat < 2 ^ 32 := by
        have := Nat.mod_lt (nElt.toNat * eltSize.toNat) (Nat.two_pow_pos 32)
        omega
      refine ⟨elements, fun all => ?_, .inl small⟩
      have limit : naclAbiImcUserBytesMax = 131072 := rfl
      have product := Nat.mul_le_mul_left nElt.toNat (Nat.one_le_iff_ne_zero.mpr elements)
      omega
  · intro countable
    rcases countable_writes countable source with failed | ⟨done, -⟩
    · exact ⟨_, _, failed, fun all => absurd all.symm countable.2.1, fun _ => ⟨rfl, rfl⟩⟩
    · exact ⟨_, _, done, fun _ => rfl, fun other => absurd rfl other⟩

inductive ChannelOp where
  | write (source : Nat → UInt8) (eltSize nElt : UInt32)
  | flush (retval : Int)

def Channel.stream (channel : Channel δ) : List UInt8 :=
  channel.handed.flatMap SendBuffer.bytes ++ channel.sendBuf.bytes

def runOps (size : SizeT) : List ChannelOp → Channel δ → Option (Channel δ × List UInt8)
  | [], channel => some (channel, [])
  | .flush retval :: rest, channel => runOps size rest (naClSrpcImcFlush retval channel).1
  | .write source eltSize nElt :: rest, channel => do
    let (sendBuf, count) ← imcWriteElements size source eltSize nElt channel.sendBuf
    let (channel, written) ← runOps size rest { channel with sendBuf }
    let its := if count = nElt.toNat then bytesAt source (nElt.toNat * eltSize.toNat) else []
    return (channel, its ++ written)

def AllCountable (size : SizeT) : List ChannelOp → Channel δ → Prop
  | [], _ => True
  | .flush retval :: rest, channel => AllCountable size rest (naClSrpcImcFlush retval channel).1
  | .write source eltSize nElt :: rest, channel =>
    Countable size eltSize nElt channel.sendBuf.bytes.length ∧
      ∀ sendBuf count, imcWriteElements size source eltSize nElt channel.sendBuf = some (sendBuf, count) →
        AllCountable size rest { channel with sendBuf }

theorem runOps_stream {size : SizeT} {ops : List ChannelOp} {channel : Channel δ}
    (countable : AllCountable size ops channel) : ∃ last written,
      runOps size ops channel = some (last, written) ∧ last.stream = channel.stream ++ written := by
  induction ops generalizing channel with
  | nil => exact ⟨channel, [], rfl, by simp⟩
  | cons op rest ih =>
    cases op with
    | flush retval =>
      obtain ⟨last, written, ran, stream⟩ := ih countable
      refine ⟨last, written, ran, ?_⟩
      rw [stream]
      simp [Channel.stream, naClSrpcImcFlush]
    | write source eltSize nElt =>
      obtain ⟨here, later⟩ := countable
      rcases countable_writes here source with failed | ⟨done, -⟩
      · obtain ⟨last, written, ran, stream⟩ := ih (later _ _ failed)
        refine ⟨last, written, ?_, stream⟩
        rw [runOps, failed]
        simp only [bind_eq_bind, bind_some, ran, if_neg (Ne.symm here.2.1)]
        rfl
      · obtain ⟨last, written, ran, stream⟩ := ih (later _ _ done)
        refine ⟨last, bytesAt source (nElt.toNat * eltSize.toNat) ++ written, ?_, ?_⟩
        · rw [runOps, done]
          simp only [bind_eq_bind, bind_some, ran]
          rfl
        · rw [stream]
          simp [Channel.stream]

/-- The count of a write is right exactly when the write is countable, and in runs of countable writes the
channel has exactly the bytes that were accounted for, over all flushes. -/
theorem writes_accounted_iff (size : SizeT) :
    (∀ (source : Nat → UInt8) (eltSize nElt : UInt32) (buffer : SendBuffer δ),
      Accounted size source eltSize nElt buffer ↔ Countable size eltSize nElt buffer.bytes.length) ∧
    ∀ (ops : List ChannelOp) (channel : Channel δ), AllCountable size ops channel → ∃ last written,
      runOps size ops channel = some (last, written) ∧ last.stream = channel.stream ++ written :=
  ⟨accounted_iff size, fun _ _ => runOps_stream⟩

/-- The product is four more than 32 bits hold, and four bytes are written. -/
theorem wrapped_product_counted :
    imcWriteElements .bits64 (fun _ => 7) 4 0x40000001 (naClSrpcImcBufferCtor : SendBuffer Nat) =
        some (⟨[7, 7, 7, 7], []⟩, 0x40000001) ∧
      ¬ Accounted .bits64 (fun _ => 7) 4 0x40000001 (naClSrpcImcBufferCtor : SendBuffer Nat) := by
  refine ⟨rfl, fun accounted => ?_⟩
  have countable := (accounted_iff _ _ _ _ _).mp accounted
  revert countable
  rw [Countable]
  decide

end Glopen.Srpc

import Glopen.Spdy.ChunkRuns
import Glopen.Spdy.ErrorRuns

/-! What the visitor of a framer sees does not depend on how the stream is cut, as long as zlib
takes the compressed data in it. -/
namespace Glopen.Spdy

open Feeding List Option
variable {zlib : Zlib} {fresh : Nat → Buffer}

def controlFrames (events : List Event) : List (List UInt8) :=
  events.filterMap fun
    | .onControl frame => some frame
    | _ => none

def reportedErrors (events : List Event) : List SpdyError :=
  events.filterMap fun
    | .onError errorCode => some errorCode
    | _ => none

/-- The bytes of a stream, and `none` where its end is reported. -/
def streamOutput (streamId : Nat) (events : List Event) : List (Option UInt8) :=
  events.flatMap fun
    | .onStreamFrameData id data =>
      if id = streamId then if data = [] then [none] else data.map some else []
    | _ => []

def Atom.frame : Atom → Option (List UInt8)
  | .control frame => some frame
  | _ => none

def Atom.errorCode : Atom → Option SpdyError
  | .error errorCode => some errorCode
  | _ => none

def Atom.output (streamId : Nat) : Atom → List (Option UInt8)
  | .byte id b => if id = streamId then [some b] else []
  | .fin id => if id = streamId then [none] else []
  | _ => []

theorem byte_filterMap {α : Type} (f : Atom → Option α) (id : Nat) (data : List UInt8)
    (quiet : ∀ byte, f (.byte id byte) = none) : (data.map (Atom.byte id)).filterMap f = [] := by
  rw [filterMap_eq_nil_iff]
  intro atom member
  obtain ⟨byte, -, rfl⟩ := List.mem_map.mp member
  exact quiet byte

theorem controlFrames_atoms (events : List Event) :
    controlFrames events = (events.flatMap Event.atoms).filterMap Atom.frame := by
  induction events with
  | nil => rfl
  | cons event events ih =>
    rw [flatMap_cons, filterMap_append, ← ih, controlFrames, filterMap_cons]
    cases event with
    | onError _ => rfl
    | onControl _ => rfl
    | onStreamFrameData id data =>
      cases data with
      | nil => rfl
      | cons byte rest => rw [Event.atoms, byte_filterMap _ _ _ fun _ => rfl]; rfl

theorem reportedErrors_atoms (events : List Event) :
    reportedErrors events = (events.flatMap Event.atoms).filterMap Atom.errorCode := by
  induction events with
  | nil => rfl
  | cons event events ih =>
    rw [flatMap_cons, filterMap_append, ← ih, reportedErrors, filterMap_cons]
    cases event with
    | onError _ => rfl
    | onControl _ => rfl
    | onStreamFrameData id data =>
      cases data with
      | nil => rfl
      | cons byte rest => rw [Event.atoms, byte_filterMap _ _ _ fun _ => rfl]; rfl

theorem bytes_output (streamId id : Nat) (data : List UInt8) :
    (data.map (Atom.byte id)).flatMap (Atom.output streamId) =
      if id = streamId then data.map some else [] := by
  induction data with
  | nil => exact (ite_self _).symm
  | cons byte rest ih =>
    rw [map_cons, flatMap_cons, ih, Atom.output]
    split
    · rfl
    · rfl

theorem streamOutput_atoms (streamId : Nat) (events : List Event) : streamOutput streamId events =
      (events.flatMap Event.atoms).flatMap (Atom.output streamId) := by
  induction events with
  | nil => rfl
  | cons event events ih =>
    rw [flatMap_cons, flatMap_append, ← ih, streamOutput, flatMap_cons]
    congr 1
    cases event with
    | onError _ => rfl
    | onControl _ => rfl
    | onStreamFrameData id data =>
      cases data with
      | nil => exact (append_nil _).symm
      | cons byte rest => exact (bytes_output streamId id _).symm

inductive Stored where
  | method
  | flags
  | block
  | lenLow
  | lenHigh (low : UInt8)
  | notLow (low high : UInt8)
  | notHigh (low high : UInt8)
  | copy (count : Nat)

def Stored.next : Stored → UInt8 → Option (Stored × List UInt8)
  | .method, b => if b = 0x78 then some (.flags, []) else none
  | .flags, b => if b = 1 then some (.block, []) else none
  | .block, b => if b = 0 then some (.lenLow, []) else none
  | .lenLow, b => some (.lenHigh b, [])
  | .lenHigh low, b => some (.notLow low b, [])
  | .notLow low high, b => if b = ~~~ low then some (.notHigh low high, []) else none
  | .notHigh low high, b =>
    if b = ~~~ high then
      let count := low.toNat + 256 * high.toNat
      some (if count = 0 then .block else .copy count, [])
    else none
  | .copy count, b => some (if count ≤ 1 then .block else .copy (count - 1), [b])

def Stored.run : Stored → List UInt8 → Option (Stored × List UInt8)
  | stored, [] => some (stored, [])
  | stored, b :: input => do
    let (stored, output) ← stored.next b
    let (stored, more) ← run stored input
    some (stored, output ++ more)

def storedZlib : Zlib where
  Stream := Stored
  inflateInit := some .method
  inflate := fun stored input _ =>
    match stored.run input with
    | some (stored, output) => ⟨true, 0, output, stored⟩
    | none => ⟨false, input.length, [], stored⟩

theorem Stored.run_append {stored middle last : Stored} {first second out out' : List UInt8}
    (start : stored.run first = some (middle, out)) (rest : middle.run second = some (last, out')) :
    stored.run (first ++ second) = some (last, out ++ out') := by
  induction first generalizing stored out with
  | nil =>
    cases start
    exact rest
  | cons b first ih =>
    simp only [Stored.run, bind_eq_bind, bind_eq_some_iff, Option.some.injEq, Prod.mk.injEq] at start
    obtain ⟨⟨after, output⟩, took, ⟨after', more⟩, ran, same, joined⟩ := start
    simp only at ran same joined
    rw [same] at ran
    simp only [cons_append, Stored.run, took, ih ran, bind_eq_bind, bind_some, ← joined, append_assoc]

theorem storedZlib_takes {stream next : Stored} {input output : List UInt8} {room : Nat}
    (takes : storedZlib.Takes stream input room output next) : stream.run input = some (next, output) := by
  have took : storedZlib.inflate stream input room = ⟨true, 0, output, next⟩ := takes.1
  simp only [storedZlib] at took
  split at took
  · rename_i ran
    cases took
    exact ran
  · cases took

theorem storedZlib_inflate {stream next : Stored} {input output : List UInt8} (room : Nat)
    (ran : stream.run input = some (next, output)) :
    storedZlib.inflate stream input room = ⟨true, 0, output, next⟩ := by
  simp only [storedZlib, ran]

theorem storedZlib_streaming : storedZlib.Streaming := by
  intro stream next next' first second room room' output output' one two
  have both := Stored.run_append (storedZlib_takes one) (storedZlib_takes two)
  refine ⟨storedZlib_inflate _ both, ?_⟩
  rw [length_append]
  exact Nat.add_lt_add one.2 two.2

def inflates (framer : Framer zlib) (data : List UInt8) : Bool :=
  if framer.state = .forwardStreamFrame ∧ framer.remainingPayload ≠ 0 ∧
      framer.currentFrameBuffer.hasFlag dataFlagCompressed then
    match getStreamDecompressor framer framer.currentFrameBuffer.dataStreamId with
    | none => false
    | some stream =>
      let amount := min framer.remainingPayload data.length
      let inflated := zlib.inflate stream (data.take amount) (amount * 100)
      inflated.ok ∧ inflated.availIn = 0 ∧ inflated.output.length < amount * 100
  else true

theorem inflates_spec {framer : Framer zlib} {data : List UInt8}
    (checked : inflates framer data = true) : Inflates framer data := by
  intro forwards remaining compressed
  rw [inflates, if_pos ⟨forwards, remaining, compressed⟩] at checked
  cases found : getStreamDecompressor framer framer.currentFrameBuffer.dataStreamId with
  | none =>
    rw [found] at checked
    cases checked
  | some stream =>
    rw [found] at checked
    obtain ⟨ok, taken, room⟩ := of_decide_eq_true checked
    refine ⟨stream, _, (zlib.inflate stream (data.take (min framer.remainingPayload data.length))
      (min framer.remainingPayload data.length * 100)).stream, rfl, ?_, room⟩
    rw [← ok, ← taken]

/-- A compressed data frame of stream 1 with the bytes of the zlib stream of "a", and then
`last`. -/
def compressedFrame (last : List UInt8) : List UInt8 :=
  [0, 0, 0, 1, 2, 0, 0, 8 + UInt8.ofNat last.length, 0x78, 1, 0, 1, 0, 0xfe, 0xff, 0x61] ++ last

end Glopen.Spdy

import Mathlib.Data.List.Nodup
import Mathlib.Data.Nat.Bitwise
import Glopen.Spdy.FrameSync

/-! Frames that are built with spdy_frame_builder.cc, and the parsers that read them with it. -/
namespace Glopen.Spdy

open List Option

def kInitialPayload : Nat := 1024

/-- `htons` -/
def bytes16 (value : Nat) : List UInt8 := [UInt8.ofNat (value / 256), UInt8.ofNat value]

/-- `htonl` -/
def bytes32 (value : Nat) : List UInt8 := bytes16 (value / 65536) ++ bytes16 value

/-- A `SpdyFrameBuilder` for writing: `buffer_` up to `length_`, which its capacity holds. -/
structure Builder where
  written : List UInt8
  capacity : Nat
  inside : written.length ≤ capacity

namespace Builder

def new : Builder := ⟨[], kInitialPayload, Nat.zero_le _⟩

/-- The capacity after `BeginWrite`. -/
def grown (builder : Builder) (length : Nat) : Nat :=
  let neededSize := builder.written.length + length
  if builder.capacity < neededSize then max (builder.capacity * 2) neededSize
  else builder.capacity

theorem grown_holds (builder : Builder) (data : List UInt8) (length : Nat) :
    (builder.written ++ data.take length).length ≤ builder.grown length := by
  rw [length_append, length_take, grown]
  split
  · omega
  · omega

def writeBytes (builder : Builder) (data : List UInt8) (dataLen : Nat) : Builder :=
  ⟨builder.written ++ data.take (dataLen % 65536), builder.grown (dataLen % 65536),
    grown_holds builder data _⟩

def writeUInt16 (builder : Builder) (value : Nat) : Builder := builder.writeBytes (bytes16 value) 2

def writeUInt32 (builder : Builder) (value : Nat) : Builder := builder.writeBytes (bytes32 value) 4

def writeString (builder : Builder) (value : List UInt8) : Builder :=
  if 0xffff < value.length then builder
  else (builder.writeUInt16 value.length).writeBytes value value.length

theorem overwrite_holds (builder : Builder) {offset : Nat} {data : List UInt8}
    (room : offset + data.length ≤ builder.written.length) :
    (builder.written.take offset ++ data ++ builder.written.drop (offset + data.length)).length ≤
      builder.capacity := by
  have inside := builder.inside
  rw [length_append, length_append, length_take, length_drop]
  omega

def writeBytesToOffset (builder : Builder) (offset : Nat) (data : List UInt8) : Builder :=
  if room : offset + data.length ≤ builder.written.length then
    ⟨builder.written.take offset ++ data ++ builder.written.drop (offset + data.length),
      builder.capacity, builder.overwrite_holds room⟩
  else builder

def take (builder : Builder) (garbage : Buffer) : Buffer :=
  fun i => builder.written[i]?.getD (garbage i)

@[simp] theorem new_written : new.written = [] := rfl

@[simp] theorem writeBytes_written (builder : Builder) (data : List UInt8) (dataLen : Nat) :
    (builder.writeBytes data dataLen).written = builder.written ++ data.take (dataLen % 65536) :=
  rfl

@[simp] theorem writeUInt16_written (builder : Builder) (value : Nat) :
    (builder.writeUInt16 value).written = builder.written ++ bytes16 value := rfl

@[simp] theorem writeUInt32_written (builder : Builder) (value : Nat) :
    (builder.writeUInt32 value).written = builder.written ++ bytes32 value := rfl

end Builder

/-- The union `FlagsAndLength`, of which the flags overwrite the first byte. -/
def flagsAndLength (flags : UInt8) (length : Nat) : List UInt8 := flags :: (bytes32 length).drop 1

/-- `CreateDataFrame`, without compression. -/
def createDataFrame (streamId : Nat) (data : List UInt8) (len : Nat) (flags : UInt8) : Builder :=
  ((Builder.new.writeUInt32 streamId).writeBytes (flagsAndLength flags len) 4).writeBytes data len

/-- A `std::map` from names to values, in the order of its iteration. -/
@[ext] structure SpdyHeaderBlock where
  entries : List (List UInt8 × List UInt8)
  distinct : (entries.map Prod.fst).Nodup

namespace SpdyHeaderBlock

def empty : SpdyHeaderBlock := ⟨[], List.nodup_nil⟩

def names (block : SpdyHeaderBlock) : List (List UInt8) := block.entries.map Prod.fst

variable {name : List UInt8}

theorem insert_distinct (block : SpdyHeaderBlock) (value : List UInt8) (absent : name ∉ block.names) :
    ((block.entries ++ [(name, value)]).map Prod.fst).Nodup := by
  rw [map_append, nodup_append]
  refine ⟨block.distinct, nodup_singleton name, ?_⟩
  intro other member same single equal
  rw [equal, mem_singleton.mp single] at member
  exact absent member

def insert (block : SpdyHeaderBlock) (name value : List UInt8) (absent : name ∉ block.names) :
    SpdyHeaderBlock :=
  ⟨block.entries ++ [(name, value)], block.insert_distinct value absent⟩

@[simp] theorem insert_entries (block : SpdyHeaderBlock) (value : List UInt8) (absent : name ∉ block.names) :
    (block.insert name value absent).entries = block.entries ++ [(name, value)] := rfl

end SpdyHeaderBlock

def writeHeaders (builder : Builder) (headers : List (List UInt8 × List UInt8)) : Builder :=
  headers.foldl (fun frame header => (frame.writeString header.1).writeString header.2) builder

def writeLength (frame : Builder) (flags : UInt8) : Builder :=
  frame.writeBytesToOffset 4 (flagsAndLength flags (frame.written.length - frameSize))

/-- `ntohs` of a little-endian host. -/
def ntohs (value : Nat) : Nat := value % 256 * 256 + value / 256 % 256

/-- `CreateSynStream`, without compression. -/
def createSynStream (streamId associatedStreamId priority : Nat) (flags : UInt8)
    (headers : SpdyHeaderBlock) : Builder :=
  let frame := Builder.new.writeUInt16 (kControlFlagMask ||| kSpdyProtocolVersion)
  let frame := frame.writeUInt16 synStream
  let frame := frame.writeUInt32 0
  let frame := frame.writeUInt32 streamId
  let frame := frame.writeUInt32 associatedStreamId
  let frame := frame.writeUInt16 (ntohs priority <<< 6)
  let frame := frame.writeUInt16 headers.entries.length
  writeLength (writeHeaders frame headers.entries) flags

/-- `CreateSynReply`, without compression. -/
def createSynReply (streamId : Nat) (flags : UInt8) (headers : SpdyHeaderBlock) : Builder :=
  let frame := Builder.new.writeUInt16 (kControlFlagMask ||| kSpdyProtocolVersion)
  let frame := frame.writeUInt16 synReply
  let frame := frame.writeUInt32 0
  let frame := frame.writeUInt32 streamId
  let frame := frame.writeUInt16 0
  let frame := frame.writeUInt16 headers.entries.length
  writeLength (writeHeaders frame headers.entries) flags

/-- `SpdySettings`: the ids with their flags, as they are stored, and the values. -/
abbrev SpdySettings := List (UInt32 × UInt32)

def createSettings (values : SpdySettings) : Builder :=
  let frame := Builder.new.writeUInt16 (kControlFlagMask ||| kSpdyProtocolVersion)
  let frame := frame.writeUInt16 settings
  let frame := frame.writeUInt32 (4 + 8 * values.length)
  let frame := frame.writeUInt32 values.length
  values.foldl (fun frame setting =>
    (frame.writeUInt32 setting.1.toNat).writeUInt32 setting.2.toNat) frame

/-- A `SpdyFrameBuilder` for reading. Its iterator is an offset. -/
structure Reader where
  data : Buffer
  length : Int

namespace Reader

variable (reader : Reader)

def iteratorHasRoomFor (iter len : Nat) : Bool := (iter + len : Int) ≤ reader.length

def readUInt16 (iter : Nat) : Option (Nat × Nat) :=
  if reader.iteratorHasRoomFor iter 2 then some (reader.data.word16 iter, iter + 2) else none

def readUInt32 (iter : Nat) : Option (Nat × Nat) :=
  if reader.iteratorHasRoomFor iter 4 then some (reader.data.word32 iter, iter + 4) else none

def readString (iter : Nat) : Option (List UInt8 × Nat) := do
  let (len, iter) ← reader.readUInt16 iter
  if reader.iteratorHasRoomFor iter len then
    some ((List.range len).map fun i => reader.data (iter + i), iter + len)
  else none

end Reader

/-- `DuplicateFrame` copies the header and the declared length. -/
def duplicateFrame (frame : Buffer) : Buffer :=
  fun i => if i < frameSize + frame.length then frame i else 0

/-- `DecompressFrame` of a framer whose compression is disabled: it still asks for a
decompressor. -/
def decompressFrame {Stream : Type} (decompressor : Option Stream) (frame : Buffer) : Option Buffer :=
  decompressor.map fun _ => duplicateFrame frame

/-- The loop of `ParseHeaderBlock`, and what it returns. -/
def parseHeaders (reader : Reader) : Nat → Nat → SpdyHeaderBlock → Bool × SpdyHeaderBlock
  | 0, iter, block => (iter = reader.length, block)
  | remaining + 1, iter, block =>
    match reader.readString iter with
    | none => (false, block)
    | some (name, iter) =>
      match reader.readString iter with
      | none => (false, block)
      | some (value, iter) =>
        if name = [] ∨ value = [] then (false, block)
        else if absent : name ∉ block.names then
          parseHeaders reader remaining iter (block.insert name value absent)
        else (false, block)

def headerBlockOffset (type : Nat) : Nat := if type = synStream then 18 else 14

def headerBlockReader (frame : Buffer) : Reader :=
  let offset := headerBlockOffset frame.type
  ⟨fun i => frame (offset + i), frame.length - (offset - frameSize : Nat)⟩

def parseHeaderBlock {Stream : Type} (decompressor : Option Stream) (frame : Buffer)
    (block : SpdyHeaderBlock) : Bool × SpdyHeaderBlock :=
  if frame.type ≠ synStream ∧ frame.type ≠ synReply then (false, block)
  else
    match decompressFrame decompressor frame with
    | none => (false, block)
    | some decompressed =>
      let reader := headerBlockReader decompressed
      match reader.readUInt16 0 with
      | none => (false, block)
      | some (numHeaders, iter) => parseHeaders reader numHeaders iter block

def parseEntries (reader : Reader) : Nat → Nat → SpdySettings → Bool × SpdySettings
  | 0, _, settings => (true, settings)
  | remaining + 1, iter, settings =>
    match reader.readUInt32 iter with
    | none => (false, settings)
    | some (id, iter) =>
      match reader.readUInt32 iter with
      | none => (false, settings)
      | some (value, iter) =>
        parseEntries reader remaining iter (settings ++ [(UInt32.ofNat id, UInt32.ofNat value)])

def parseSettings (frame : Buffer) (settings : SpdySettings) : Bool × SpdySettings :=
  parseEntries ⟨fun i => frame (12 + i), frame.length - 4⟩ (frame.word32 8) 0 settings

/-! Data frames from the builder to the visitor. The builder writes the length of the payload with
24 bits, but it copies only a number of bytes that has 16. -/

open Feeding
variable {zlib : Zlib} {fresh : Nat → Buffer}

def sentBytes (frame : Buffer) : List UInt8 := frame.read (frameSize + frame.length)

theorem bytes16_value (value : Nat) :
    (UInt8.ofNat (value / 256)).toNat * 256 + (UInt8.ofNat value).toNat = value % 65536 := by
  rw [UInt8.toNat_ofNat', UInt8.toNat_ofNat']
  omega

theorem header_length (a b c d flags : UInt8) (len : Nat) :
    (headerOf ([a, b, c, d] ++ flagsAndLength flags len)).length = len % 2 ^ 24 := by
  have word : (headerOf ([a, b, c, d] ++ flagsAndLength flags len)).word32 4 =
      flags.toNat * 2 ^ 24 + len % 2 ^ 24 := by
    change (flags.toNat * 256 + (UInt8.ofNat (len / 65536)).toNat) * 65536 +
      ((UInt8.ofNat (len / 256)).toNat * 256 + (UInt8.ofNat len).toNat) = _
    rw [bytes16_value, UInt8.toNat_ofNat']
    omega
  rw [Buffer.length, word]
  change _ &&& (2 ^ 24 - 1) = _
  rw [Nat.and_two_pow_sub_one_eq_mod]
  omega

def dataHeader (streamId : Nat) (flags : UInt8) (len : Nat) : List UInt8 :=
  bytes32 streamId ++ flagsAndLength flags len

section Header

variable (streamId len : Nat) (flags : UInt8)

theorem dataHeader_id : (headerOf (dataHeader streamId flags len)).word32 0 = streamId % 2 ^ 32 := by
  change ((UInt8.ofNat (streamId / 65536 / 256)).toNat * 256 + (UInt8.ofNat (streamId / 65536)).toNat) * 65536 +
    ((UInt8.ofNat (streamId / 256)).toNat * 256 + (UInt8.ofNat streamId).toNat) = _
  rw [bytes16_value, bytes16_value]
  omega

theorem dataHeader_top : (headerOf (dataHeader streamId flags len)).word16 0 =
    streamId / 65536 % 65536 := bytes16_value _

theorem dataHeader_length : (headerOf (dataHeader streamId flags len)).length = len % 2 ^ 24 :=
  header_length _ _ _ _ flags len

variable {streamId} (small : streamId < 2 ^ 31)
include small

theorem dataHeader_data : (headerOf (dataHeader streamId flags len)).isControlFrame = false := by
  rw [Buffer.isControlFrame, dataHeader_top]
  apply decide_eq_false
  have clear : streamId / 65536 % 65536 < 2 ^ 15 := by omega
  change _ &&& 2 ^ 15 ≠ _
  rw [Nat.and_two_pow, Nat.testBit_lt_two_pow clear]
  decide

theorem dataHeader_stream : (headerOf (dataHeader streamId flags len)).dataStreamId = streamId := by
  rw [Buffer.dataStreamId, dataHeader_id]
  change _ &&& (2 ^ 31 - 1) = _
  rw [Nat.and_two_pow_sub_one_eq_mod]
  omega

end Header

section Memory

variable {builder : Builder} {header rest : List UInt8}
  (written : builder.written = header ++ rest) (garbage : Buffer)
include written

theorem take_head (size : header.length = frameSize) : Agree (builder.take garbage) (headerOf header) := by
  intro i inside
  have present : i < header.length := size ▸ inside
  simp only [Builder.take, written, headerOf, Buffer.write, Nat.zero_le, if_true, Nat.sub_zero,
    List.getElem?_append_left present, List.getElem?_eq_getElem present, getD_some]

theorem take_behind (i : Nat) :
    builder.take garbage (header.length + i) = rest[i]?.getD (garbage (header.length + i)) := by
  rw [Builder.take, written, List.getElem?_append_right (Nat.le_add_right ..), Nat.add_sub_cancel_left]

end Memory

/-- The payload of a data frame as it is sent: where the builder stops to copy, it is whatever is
in memory. -/
def sentPayload (payload : List UInt8) (garbage : Buffer) : List UInt8 :=
  (List.range payload.length).map fun i =>
    (payload.take (payload.length % 65536))[i]?.getD (garbage (frameSize + i))

variable {payload : List UInt8}
variable {streamId : Nat} {flags : UInt8}

theorem sent_parts (short : payload.length < 2 ^ 24) (garbage : Buffer) :
    sentBytes ((createDataFrame streamId payload payload.length flags).take garbage) =
      dataHeader streamId flags payload.length ++ sentPayload payload garbage := by
  have written : (createDataFrame streamId payload payload.length flags).written =
      dataHeader streamId flags payload.length ++ payload.take (payload.length % 65536) := rfl
  have size : (dataHeader streamId flags payload.length).length = frameSize := rfl
  have length := (take_head written garbage size).length
  rw [dataHeader_length, Nat.mod_eq_of_lt short] at length
  rw [sentBytes, length, Buffer.read, range_add, map_append, sentPayload, List.map_map]
  exact congrArg₂ (· ++ ·) rfl (map_congr_left fun i _ => take_behind written garbage i)

theorem sentPayload_length (payload : List UInt8) (garbage : Buffer) :
    (sentPayload payload garbage).length = payload.length := by
  rw [sentPayload, length_map, length_range]

theorem sentPayload_short (short : payload.length < 65536)
    (garbage : Buffer) : sentPayload payload garbage = payload := by
  rw [sentPayload, Nat.mod_eq_of_lt short, take_length]
  apply ext_getElem
  · rw [length_map, length_range]
  · intro i inside present
    rw [getElem_map, getElem_range, List.getElem?_eq_getElem present, getD_some]

theorem sentPayload_long (long : 65536 ≤ payload.length) : ∃ garbage, sentPayload payload garbage ≠ payload := by
  refine ⟨fun i => payload[i - frameSize]?.getD 0 + 1, fun same => ?_⟩
  have missing : payload.length % 65536 < payload.length := by omega
  have sent := congrArg (·[payload.length % 65536]?) same
  simp only [sentPayload, List.getElem?_map, List.getElem?_range missing, map_some,
    List.getElem?_eq_getElem missing, Nat.add_sub_cancel_left] at sent
  rw [List.getElem?_eq_none (by rw [length_take]; omega), getD_none, getD_some, Option.some.injEq] at sent
  exact absurd sent (by simp)

theorem dataFrame_declared (short : payload.length < 2 ^ 24) (garbage : Buffer) :
    (sentPayload payload garbage).length = (headerOf (dataHeader streamId flags payload.length)).length := by
  rw [sentPayload_length, dataHeader_length, Nat.mod_eq_of_lt short]

def deliveredData (streamId : Nat) (payload : List UInt8) (flags : UInt8) : List Event :=
  dataEvents streamId payload ++
    if flags.toNat &&& dataFlagFin ≠ 0 then [.onStreamFrameData streamId []] else []

theorem deliveredData_inj {other : List UInt8} (length : other.length = payload.length)
    (same : deliveredData streamId other flags = deliveredData streamId payload flags) : other = payload := by
  have data := append_cancel_right same
  cases payload with
  | nil => exact eq_nil_of_length_eq_zero length
  | cons byte rest =>
    have some_other : other ≠ [] := by
      intro empty
      rw [empty] at length
      cases length
    rw [dataEvents, dataEvents, if_neg some_other, if_neg (cons_ne_nil byte rest)] at data
    cases data
    rfl

theorem sent_delivered {framer : Framer zlib} (between : Between framer) {streamId : Nat}
    (small : streamId < 2 ^ 31) {flags : UInt8} (plain : flags.toNat &&& dataFlagCompressed = 0)
    {payload : List UInt8} (short : payload.length < 2 ^ 24) (garbage : Buffer) :
    ∃ passes framer', (spdyFramer zlib fresh).call passes framer (sentBytes
        ((createDataFrame streamId payload payload.length flags).take garbage)) =
          some (framer', deliveredData streamId (sentPayload payload garbage) flags, []) := by
  let frame : Frame := ⟨dataHeader streamId flags payload.length, sentPayload payload garbage, rfl,
    dataFrame_declared short garbage⟩
  have data : frame.buffer.isControlFrame = false := dataHeader_data _ flags small
  have uncompressed : ¬ frame.Compressed := fun compressed =>
    of_decide_eq_true compressed.2.1 plain
  obtain ⟨framer', passes, -⟩ := @data_read zlib fresh framer between frame data uncompressed []
  obtain ⟨count, called, -⟩ := passes.call (Or.inl rfl)
  refine ⟨count, framer', ?_⟩
  have bytes : frame.bytes ++ [] = dataHeader streamId flags payload.length ++
      sentPayload payload garbage := append_nil _
  have stream : frame.buffer.dataStreamId = streamId := dataHeader_stream _ flags small
  have fin : frame.buffer.hasFlag dataFlagFin = decide (flags.toNat &&& dataFlagFin ≠ 0) := rfl
  rw [bytes, stream, Frame.finEvents, stream, fin] at called
  rw [sent_parts short, called, deliveredData]
  simp only [decide_eq_true_eq]
  rfl

/-- A data frame of the builder is delivered as it was built, whatever is in memory behind what
the builder wrote, exactly if its payload has less than 65536 bytes. -/
theorem data_round_trip {framer : Framer zlib} (between : Between framer) {streamId : Nat}
    (small : streamId < 2 ^ 31) {flags : UInt8} (plain : flags.toNat &&& dataFlagCompressed = 0)
    {payload : List UInt8} (short : payload.length < 2 ^ 24) :
    (∀ garbage, ∃ passes framer', (spdyFramer zlib fresh).call passes framer (sentBytes
        ((createDataFrame streamId payload payload.length flags).take garbage)) =
          some (framer', deliveredData streamId payload flags, [])) ↔
    payload.length < 65536 := by
  constructor
  · intro delivered
    by_contra long
    obtain ⟨garbage, other⟩ := sentPayload_long (Nat.le_of_not_lt long)
    obtain ⟨passes, framer', called⟩ := delivered garbage
    obtain ⟨passes', framer'', called'⟩ := @sent_delivered zlib fresh framer between streamId small
      flags plain payload short garbage
    have more := call_more called (Nat.le_max_left passes passes')
    rw [call_more called' (Nat.le_max_right passes passes'), Option.some.injEq, Prod.mk.injEq,
      Prod.mk.injEq] at more
    exact other (deliveredData_inj (sentPayload_length payload garbage) more.2.1)
  · intro copied garbage
    have delivered := @sent_delivered zlib fresh framer between streamId small flags plain payload short garbage
    rw [sentPayload_short copied] at delivered
    exact delivered

theorem greeting_delivered : ([0x68, 0x69] : List UInt8).length = 2 ∧ ∀ garbage, ∃ passes framer',
      (spdyFramer noZlib zeroBuffers).call passes (newFramer noZlib)
        (sentBytes ((createDataFrame 5 [0x68, 0x69] 2 1).take garbage)) =
          some (framer', [.onStreamFrameData 5 [0x68, 0x69], .onStreamFrameData 5 []], []) :=
  ⟨rfl, (@data_round_trip noZlib zeroBuffers _ new_between 5 (by decide) 1 rfl [0x68, 0x69]
    (by decide)).mpr (by decide)⟩

theorem sentPayload_lost (garbage : UInt8) :
    sentPayload (List.replicate 65536 0) (fun _ => garbage) = List.replicate 65536 garbage := by
  rw [sentPayload, length_replicate, Nat.mod_self, take_zero, eq_replicate_iff]
  constructor
  · rw [length_map, length_range]
  · intro byte member
    obtain ⟨i, -, same⟩ := List.mem_map.mp member
    exact same.symm

/-- Of 65536 bytes none is copied: other bytes are delivered in their place. -/
theorem long_payload_lost : (∃ passes framer',
      (spdyFramer noZlib zeroBuffers).call passes (newFramer noZlib) (sentBytes
        ((createDataFrame 1 (List.replicate 65536 0) (List.replicate 65536 (0 : UInt8)).length 0
          ).take fun _ => 7)) =
        some (framer', deliveredData 1 (List.replicate 65536 7) 0, [])) ∧
    deliveredData 1 (List.replicate 65536 7) 0 ≠ deliveredData 1 (List.replicate 65536 0) 0 := by
  constructor
  · have delivered := @sent_delivered noZlib zeroBuffers _ new_between 1 (by decide) 0 rfl
      (List.replicate 65536 0) (by rw [List.length_replicate]; decide) fun _ => 7
    rw [sentPayload_lost] at delivered
    exact delivered
  · intro same
    have equal := deliveredData_inj (by rw [List.length_replicate, List.length_replicate]) same
    have first := congrArg List.head? equal
    rw [List.head?_replicate, List.head?_replicate] at first
    exact absurd first (by decide)

end Glopen.Spdy

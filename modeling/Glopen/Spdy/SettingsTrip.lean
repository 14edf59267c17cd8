import Glopen.Spdy.HeaderTrip

/-! SYN_STREAM, SYN_REPLY and SETTINGS frames from the builder through their parsers. -/
namespace Glopen.Spdy

open List

section Syn

variable {headers : SpdyHeaderBlock} (sound : ∀ entry ∈ headers.entries, Sound entry)
include sound

theorem synStream_unfinished (streamId associatedStreamId priority : Nat) (flags : UInt8) :
    ∃ builder fields, fields.length = 10 ∧
      createSynStream streamId associatedStreamId priority flags headers = writeLength builder flags ∧
      Unfinished builder 1 fields (bytes16 headers.entries.length ++ blockBytes headers.entries) := by
  refine ⟨_, bytes32 streamId ++ bytes32 associatedStreamId ++ bytes16 (ntohs priority <<< 6), rfl,
    rfl, ?_, rfl, Or.inl rfl⟩
  rw [writeHeaders_written _ sound]
  simp only [Builder.writeUInt16_written, Builder.writeUInt32_written, Builder.new_written, append_assoc]
  rfl

theorem synReply_unfinished (streamId : Nat) (flags : UInt8) : ∃ builder fields, fields.length = 6 ∧
      createSynReply streamId flags headers = writeLength builder flags ∧
      Unfinished builder 2 fields (bytes16 headers.entries.length ++ blockBytes headers.entries) := by
  refine ⟨_, bytes32 streamId ++ bytes16 0, rfl, rfl, ?_, rfl, Or.inr rfl⟩
  rw [writeHeaders_written _ sound]
  simp only [Builder.writeUInt16_written, Builder.writeUInt32_written, Builder.new_written, append_assoc]
  rfl

end Syn

def settingBytes (setting : UInt32 × UInt32) : List UInt8 :=
  bytes32 setting.1.toNat ++ bytes32 setting.2.toNat

def settingsBytes (values : SpdySettings) : List UInt8 := values.flatMap settingBytes

theorem settingsBytes_cons (setting : UInt32 × UInt32) (values : SpdySettings) :
    settingsBytes (setting :: values) = settingBytes setting ++ settingsBytes values :=
  flatMap_cons

theorem settingsBytes_length (values : SpdySettings) : (settingsBytes values).length = 8 * values.length := by
  induction values with
  | nil => rfl
  | cons setting values ih =>
    rw [settingsBytes_cons, length_append, ih, length_cons, Nat.mul_succ, Nat.add_comm]
    rfl

theorem settings_fold (builder : Builder) (values : SpdySettings) : (values.foldl (fun frame setting =>
      (frame.writeUInt32 setting.1.toNat).writeUInt32 setting.2.toNat) builder).written =
        builder.written ++ settingsBytes values := by
  induction values generalizing builder with
  | nil => exact (append_nil _).symm
  | cons setting values ih =>
    rw [foldl_cons, ih, settingsBytes_cons, settingBytes]
    simp only [Builder.writeUInt32_written, append_assoc]

theorem settings_written (values : SpdySettings) :
    (createSettings values).written = ([0x80, 1, 0, 4] ++ bytes32 (4 + 8 * values.length)) ++
      (bytes32 values.length ++ settingsBytes values) := by
  rw [createSettings, settings_fold]
  simp only [Builder.writeUInt16_written, Builder.writeUInt32_written, Builder.new_written, append_assoc]
  rfl

section Reading

variable {reader : Reader} {iter : Nat}

theorem bytes32_value (value : Nat) : ((UInt8.ofNat (value / 65536 / 256)).toNat * 256 +
      (UInt8.ofNat (value / 65536)).toNat) * 65536 +
      ((UInt8.ofNat (value / 256)).toNat * 256 + (UInt8.ofNat value).toNat) = value % 2 ^ 32 := by
  rw [bytes16_value, bytes16_value]
  omega

theorem readUInt32_some {value : UInt32} {rest : List UInt8}
    (same : reader.bytes.drop iter = bytes32 value.toNat ++ rest) :
    reader.readUInt32 iter = some (value.toNat, iter + 4) ∧ reader.bytes.drop (iter + 4) = rest := by
  have room : iter + 4 ≤ reader.bytes.length := by
    have length := congrArg List.length same
    rw [length_drop, length_append, show (bytes32 value.toNat).length = 4 from rfl] at length
    omega
  have four := read_eq room
  rw [same] at four
  constructor
  · have small : value.toNat < 2 ^ 32 := value.toNat_lt
    have number := bytes32_value value.toNat
    rw [Nat.mod_eq_of_lt small] at number
    change [reader.data iter, reader.data (iter + 1), reader.data (iter + 2),
      reader.data (iter + 3)] = [UInt8.ofNat (value.toNat / 65536 / 256),
        UInt8.ofNat (value.toNat / 65536), UInt8.ofNat (value.toNat / 256),
        UInt8.ofNat value.toNat] at four
    simp only [List.cons.injEq, and_true] at four
    obtain ⟨first, second, third, fourth⟩ := four
    rw [Reader.readUInt32, if_pos ((room_iff (by omega)).mpr room), Buffer.word32, Buffer.word16,
      Buffer.word16, first, second, third, fourth, number]
  · rw [← drop_drop, same]
    rfl

theorem parseEntries_round {values settings : SpdySettings}
    (same : reader.bytes.drop iter = settingsBytes values) :
    parseEntries reader values.length iter settings = (true, settings ++ values) := by
  induction values generalizing iter settings with
  | nil => rw [length_nil, parseEntries, append_nil]
  | cons setting values ih =>
    rw [settingsBytes_cons, settingBytes, append_assoc] at same
    obtain ⟨first, rest⟩ := readUInt32_some same
    obtain ⟨second, rest'⟩ := readUInt32_some rest
    rw [length_cons, parseEntries, first]
    simp only
    rw [second]
    simp only
    rw [ih rest', UInt32.ofNat_toNat, UInt32.ofNat_toNat, append_assoc]
    rfl

theorem readUInt32_room {value next : Nat} (read : reader.readUInt32 iter = some (value, next)) :
    next = iter + 4 ∧ iter + 4 ≤ reader.bytes.length := by
  rw [Reader.readUInt32] at read
  split at read
  · rename_i room
    cases read
    exact ⟨rfl, (room_iff (by omega)).mp room⟩
  · cases read

theorem parseEntries_room {remaining : Nat} {settings out : SpdySettings}
    (parsed : parseEntries reader remaining iter settings = (true, out)) (inside : iter ≤ reader.bytes.length) :
    out.length = settings.length + remaining ∧ iter + 8 * remaining ≤ reader.bytes.length := by
  induction remaining generalizing iter settings with
  | zero =>
    cases parsed
    exact ⟨rfl, inside⟩
  | succ remaining ih =>
    rw [parseEntries] at parsed
    cases first : reader.readUInt32 iter with
    | none =>
      rw [first] at parsed
      cases parsed
    | some result =>
      obtain ⟨id, middle⟩ := result
      rw [first] at parsed
      simp only at parsed
      cases second : reader.readUInt32 middle with
      | none =>
        rw [second] at parsed
        cases parsed
      | some result =>
        obtain ⟨value, next⟩ := result
        rw [second] at parsed
        obtain ⟨rfl, -⟩ := readUInt32_room first
        obtain ⟨rfl, room⟩ := readUInt32_room second
        obtain ⟨length, later⟩ := ih parsed room
        rw [length_append, length_singleton] at length
        omega

end Reading

theorem settings_memory (values : SpdySettings) (garbage : Buffer) :
    let memory := (createSettings values).take garbage
    memory.length = (4 + 8 * values.length) % 2 ^ 24 ∧
    memory.word32 8 = values.length % 2 ^ 32 ∧
    ∀ i (inside : i < (settingsBytes values).length), memory (12 + i) = (settingsBytes values)[i] := by
  have written := settings_written values
  refine ⟨?_, ?_, ?_⟩
  · have agree := take_head written garbage rfl
    exact agree.length.trans (header_length 0x80 1 0 4
      (UInt8.ofNat ((4 + 8 * values.length) / 65536 / 256)) (4 + 8 * values.length))
  · have number : ∀ i < 4, (createSettings values).take garbage (8 + i) =
        (bytes32 values.length)[i]?.getD 0 := by
      intro i inside
      have present : i < (bytes32 values.length).length := inside
      refine (take_behind written garbage i).trans ?_
      rw [List.getElem?_append_left present, List.getElem?_eq_getElem present, Option.getD_some,
        Option.getD_some]
    rw [Buffer.word32, Buffer.word16, Buffer.word16, number 0 (by decide), number 1 (by decide),
      number 2 (by decide), number 3 (by decide)]
    exact bytes32_value values.length
  · intro i inside
    have place : 12 + i = ([0x80, 1, 0, 4] ++ bytes32 (4 + 8 * values.length)).length + (4 + i) := by
      change 12 + i = 8 + (4 + i)
      omega
    have number : (bytes32 values.length).length = 4 := rfl
    rw [place, take_behind written garbage (4 + i),
      List.getElem?_append_right (by rw [number]; exact Nat.le_add_right ..), number,
      Nat.add_sub_cancel_left, List.getElem?_eq_getElem inside, Option.getD_some]

theorem settings_trip (values : SpdySettings) (garbage : Buffer) :
    parseSettings ((createSettings values).take garbage) [] = (true, values) ↔ values.length < 2 ^ 21 := by
  obtain ⟨length, count, memory⟩ := settings_memory values garbage
  rw [parseSettings, length, count]
  constructor
  · intro parsed
    obtain ⟨all, room⟩ := parseEntries_room parsed (Nat.zero_le _)
    rw [Reader.bytes, length_map, length_range] at room
    simp only [length_nil] at all room
    omega
  · intro few
    have size := settingsBytes_length values
    rw [Nat.mod_eq_of_lt (show values.length < 2 ^ 32 by omega)]
    refine parseEntries_round ?_
    rw [drop_zero, Reader.bytes]
    apply ext_getElem
    · rw [length_map, length_range, size]
      simp only
      omega
    · intro i _ inside
      rw [getElem_map, getElem_range]
      exact memory i inside

/-- What a failed parser leaves: the entries of the block in front of its first fault, beside what
was there before. -/
def LeftBehind (bytes : List UInt8) (block out : SpdyHeaderBlock) : Prop :=
  bytes.length < 2 ∧ out = block ∨
  ∃ count entries rest, bytes = bytes16 count ++ (blockBytes entries ++ rest) ∧
    out.entries = block.entries ++ entries ∧ (∀ entry ∈ entries, Sound entry) ∧
    (entries.length = count ∧ rest ≠ [] ∨ entries.length < count ∧ ¬ NextEntry out.names rest)

theorem failed_leaves {Stream : Type} {decompressor : Stream} {frame : Buffer}
    (type : frame.type = synStream ∨ frame.type = synReply) {block out : SpdyHeaderBlock}
    (failed : parseHeaderBlock (some decompressor) frame block = (false, out)) :
    LeftBehind (headerBlock frame) block out := by
  rcases Nat.lt_or_ge (headerBlock frame).length 2 with short | counted
  · rw [parse_short_block type block short] at failed
    cases failed
    exact Or.inl ⟨short, rfl⟩
  · obtain ⟨count, body, few, same⟩ := two_bytes counted
    obtain ⟨entries, rest, body_eq, out_eq, sound, finished⟩ :=
      parse_block_spec type few same failed
    refine Or.inr ⟨count, entries, rest, by rw [same, body_eq], out_eq, sound, ?_⟩
    rcases finished with ⟨all, ok_iff⟩ | ⟨fewer, -, faulty⟩
    · refine Or.inl ⟨all, fun none_left => ?_⟩
      cases ok_iff.mpr none_left
    · exact Or.inr ⟨fewer, faulty⟩

/-- Header maps and settings come back from their frames exactly if the lengths fit into 24 bits.
A header block that cannot be parsed leaves the entries in front of its fault behind. -/
theorem header_and_settings_trips {Stream : Type} (decompressor : Stream) (garbage : Buffer) :
    (∀ headers : SpdyHeaderBlock, headers.entries.length ≤ 0xffff → (∀ entry ∈ headers.entries, Sound entry) →
      (∀ streamId associatedStreamId priority flags, parseHeaderBlock (some decompressor)
          ((createSynStream streamId associatedStreamId priority flags headers).take garbage)
          .empty = (true, headers) ↔ 12 + (blockBytes headers.entries).length < 2 ^ 24) ∧
      ∀ streamId flags, parseHeaderBlock (some decompressor)
          ((createSynReply streamId flags headers).take garbage) .empty = (true, headers) ↔
            8 + (blockBytes headers.entries).length < 2 ^ 24) ∧
    (∀ values, parseSettings ((createSettings values).take garbage) [] = (true, values) ↔
      values.length < 2 ^ 21) ∧
    ∀ frame block out, frame.type = synStream ∨ frame.type = synReply →
      parseHeaderBlock (some decompressor) frame block = (false, out) →
      LeftBehind (headerBlock frame) block out := by
  refine ⟨?_, fun values => settings_trip values garbage,
    fun frame block out type failed => failed_leaves type failed⟩
  intro headers few sound
  constructor
  · intro streamId associatedStreamId priority flags
    obtain ⟨builder, fields, length, created, unfinished⟩ :=
      synStream_unfinished sound streamId associatedStreamId priority flags
    have trip := unfinished.trip decompressor sound (Nat.lt_succ_of_le few) flags garbage
    rw [length] at trip
    rw [created]
    exact trip
  · intro streamId flags
    obtain ⟨builder, fields, length, created, unfinished⟩ :=
      synReply_unfinished sound streamId flags
    have trip := unfinished.trip decompressor sound (Nat.lt_succ_of_le few) flags garbage
    rw [length] at trip
    rw [created]
    exact trip

theorem greeting_distinct :
    (([([0x61], [0x62]), ([0x63], [0x64])] : List (List UInt8 × List UInt8)).map Prod.fst).Nodup := by
  decide

def greeting : SpdyHeaderBlock := ⟨[([0x61], [0x62]), ([0x63], [0x64])], greeting_distinct⟩

theorem greeting_sound : ∀ entry ∈ greeting.entries, Sound entry := by
  intro entry member
  rcases mem_cons.mp member with rfl | member
  · exact ⟨by decide, by decide⟩
  · cases mem_singleton.mp member
    exact ⟨by decide, by decide⟩

theorem greeting_trip : parseHeaderBlock (some ()) ((createSynStream 1 0 3 0 greeting).take fun _ => 0) .empty =
      (true, greeting) :=
  (((header_and_settings_trips () fun _ => 0).1 greeting (by decide) greeting_sound).1 1 0 3 0).mpr (by decide)

def twiceNamed : Buffer := headerOf [0x80, 1, 0, 2, 0, 0, 0, 20, 0, 0, 0, 1, 0, 0, 0, 2,
  0, 1, 0x61, 0, 1, 0x62, 0, 1, 0x61, 0, 1, 0x63]

/-- The first of two headers of one name stays in the map. A list of 2 ^ 21 settings does not come
back. -/
theorem first_header_stays : ((parseHeaderBlock (some ()) twiceNamed .empty).1 = false ∧
      (parseHeaderBlock (some ()) twiceNamed .empty).2.entries = [([0x61], [0x62])]) ∧
    parseSettings ((createSettings (List.replicate (2 ^ 21) (1, 2))).take fun _ => 0) [] ≠
      (true, List.replicate (2 ^ 21) (1, 2)) := by
  refine ⟨by decide +kernel, fun parsed => ?_⟩
  have few := (settings_trip _ _).mp parsed
  rw [List.length_replicate] at few
  exact Nat.lt_irrefl _ few

end Glopen.Spdy

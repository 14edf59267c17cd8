import Glopen.Spdy.DataTrip

/-! Header blocks and settings from the builder through the parsers. -/
namespace Glopen.Spdy

open List Option

/-- What `WriteString` writes of a string that is not too long. -/
def stringBytes (value : List UInt8) : List UInt8 := bytes16 value.length ++ value

def entryBytes (entry : List UInt8 × List UInt8) : List UInt8 :=
  stringBytes entry.1 ++ stringBytes entry.2

def blockBytes (entries : List (List UInt8 × List UInt8)) : List UInt8 :=
  entries.flatMap entryBytes

theorem blockBytes_cons (entry : List UInt8 × List UInt8) (entries : List (List UInt8 × List UInt8)) :
    blockBytes (entry :: entries) = entryBytes entry ++ blockBytes entries := flatMap_cons

structure Sound (entry : List UInt8 × List UInt8) : Prop where
  name : entry.1 ≠ [] ∧ entry.1.length ≤ 0xffff
  value : entry.2 ≠ [] ∧ entry.2.length ≤ 0xffff

variable {value : List UInt8} {entries : List (List UInt8 × List UInt8)} {out : SpdyHeaderBlock} {ok : Bool}
  {Stream : Type} {count : Nat} {body : List UInt8}

theorem writeString_written (builder : Builder) (short : value.length ≤ 0xffff) :
    (builder.writeString value).written = builder.written ++ stringBytes value := by
  rw [Builder.writeString, if_neg (Nat.not_lt.mpr short), Builder.writeBytes_written,
    Builder.writeUInt16_written, Nat.mod_eq_of_lt (by omega), take_length, append_assoc]
  rfl

theorem writeHeaders_written (builder : Builder) (sound : ∀ entry ∈ entries, Sound entry) :
    (writeHeaders builder entries).written = builder.written ++ blockBytes entries := by
  induction entries generalizing builder with
  | nil => exact (append_nil _).symm
  | cons entry entries ih =>
    have here := sound entry (mem_cons_self ..)
    have rest := ih ((builder.writeString entry.1).writeString entry.2)
      fun other member => sound other (mem_cons_of_mem entry member)
    rw [writeString_written _ here.value.2, writeString_written _ here.name.2] at rest
    rw [writeHeaders, foldl_cons]
    refine rest.trans ?_
    simp only [blockBytes_cons, entryBytes, append_assoc]

section Reading

def Reader.bytes (reader : Reader) : List UInt8 :=
  (List.range reader.length.toNat).map reader.data

variable {reader : Reader} {iter : Nat}
variable {len next : Nat}

theorem room_iff (some_room : 0 < iter + len) :
    reader.iteratorHasRoomFor iter len = true ↔ iter + len ≤ reader.bytes.length := by
  rw [Reader.iteratorHasRoomFor, decide_eq_true_eq, Reader.bytes, length_map, length_range]
  omega

theorem read_eq (room : iter + len ≤ reader.bytes.length) :
    (List.range len).map (fun i => reader.data (iter + i)) = (reader.bytes.drop iter).take len := by
  apply ext_getElem
  · rw [length_map, length_range, length_take, length_drop]
    omega
  · intro i inside present
    rw [getElem_map, getElem_range, getElem_take, getElem_drop]
    simp only [Reader.bytes, getElem_map, getElem_range]

theorem bytes16_eq (high low : UInt8) : bytes16 (high.toNat * 256 + low.toNat) = [high, low] := by
  have small := low.toNat_lt
  rw [bytes16, show (high.toNat * 256 + low.toNat) / 256 = high.toNat by omega, UInt8.ofNat_toNat]
  congr 2
  apply UInt8.toNat_inj.mp
  rw [UInt8.toNat_ofNat']
  omega

theorem readUInt16_iff {value : Nat} : reader.readUInt16 iter = some (value, next) ↔
    value < 65536 ∧ next = iter + 2 ∧ ∃ rest, reader.bytes.drop iter = bytes16 value ++ rest := by
  rw [Reader.readUInt16]
  constructor
  · intro read
    split at read
    · rename_i room
      rw [room_iff (by omega)] at room
      have two := read_eq room
      cases read
      have high := (reader.data iter).toNat_lt
      have low := (reader.data (iter + 1)).toNat_lt
      refine ⟨by rw [Buffer.word16]; omega, rfl, (reader.bytes.drop iter).drop 2, ?_⟩
      rw [Buffer.word16, bytes16_eq]
      change [reader.data iter, reader.data (iter + 1)] = _ at two
      rw [two, take_append_drop]
    · cases read
  · rintro ⟨small, rfl, rest, same⟩
    have room : iter + 2 ≤ reader.bytes.length := by
      have length := congrArg List.length same
      rw [length_drop, length_append] at length
      have two : (bytes16 value).length = 2 := rfl
      omega
    have two := read_eq room
    rw [same] at two
    change [reader.data iter, reader.data (iter + 1)] = [UInt8.ofNat (value / 256), UInt8.ofNat value] at two
    rw [if_pos ((room_iff (by omega)).mpr room), Buffer.word16]
    obtain ⟨high, low⟩ := List.cons.inj two
    rw [high, (List.cons.inj low).1, bytes16_value, Nat.mod_eq_of_lt small]

variable {rest : List UInt8}

theorem drop_two {value : Nat}
    (same : reader.bytes.drop iter = bytes16 value ++ rest) : reader.bytes.drop (iter + 2) = rest := by
  rw [← drop_drop, same]
  rfl

theorem readString_iff : reader.readString iter = some (value, next) ↔
      value.length ≤ 0xffff ∧ next = iter + 2 + value.length ∧
        ∃ rest, reader.bytes.drop iter = stringBytes value ++ rest := by
  rw [Reader.readString, bind_eq_bind, bind_eq_some_iff]
  constructor
  · rintro ⟨⟨len, start⟩, prefixed, read⟩
    obtain ⟨small, rfl, rest, same⟩ := readUInt16_iff.mp prefixed
    simp only at read
    split at read
    · rename_i room
      rw [room_iff (by omega)] at room
      have value_eq := read_eq room
      cases read
      have length : ((List.range len).map fun i => reader.data (iter + 2 + i)).length = len := by
        rw [length_map, length_range]
      rw [length]
      refine ⟨by omega, rfl, rest.drop len, ?_⟩
      rw [stringBytes, length, value_eq, drop_two same, same, append_assoc, take_append_drop]
    · cases read
  · rintro ⟨short, rfl, rest, same⟩
    have prefixed : reader.bytes.drop iter = bytes16 value.length ++ (value ++ rest) := by
      rw [same, stringBytes, append_assoc]
    refine ⟨(value.length, iter + 2), readUInt16_iff.mpr ⟨by omega, rfl, _, prefixed⟩, ?_⟩
    have room : iter + 2 + value.length ≤ reader.bytes.length := by
      have length := congrArg List.length (drop_two prefixed)
      rw [length_drop, length_append] at length
      by_cases empty : value.length = 0
      · have whole := congrArg List.length prefixed
        rw [length_drop, length_append, show (bytes16 value.length).length = 2 from rfl] at whole
        omega
      · omega
    simp only
    rw [if_pos ((room_iff (by omega)).mpr room), read_eq room, drop_two prefixed, take_left]

theorem drop_string (same : reader.bytes.drop iter = stringBytes value ++ rest) :
    reader.bytes.drop (iter + 2 + value.length) = rest := by
  rw [← drop_drop, drop_two (same.trans (append_assoc _ _ _)), drop_left]

theorem entry_reads {entry : List UInt8 × List UInt8} {more : List UInt8}
    (same : reader.bytes.drop iter = entryBytes entry ++ more)
    (name : entry.1.length ≤ 0xffff) (value : entry.2.length ≤ 0xffff) :
    reader.readString iter = some (entry.1, iter + 2 + entry.1.length) ∧
    reader.readString (iter + 2 + entry.1.length) =
      some (entry.2, iter + 2 + entry.1.length + 2 + entry.2.length) ∧
    reader.bytes.drop (iter + 2 + entry.1.length + 2 + entry.2.length) = more := by
  have first : reader.bytes.drop iter = stringBytes entry.1 ++ (stringBytes entry.2 ++ more) := by
    rw [same, entryBytes, append_assoc]
  have second := drop_string first
  exact ⟨readString_iff.mpr ⟨name, rfl, _, first⟩, readString_iff.mpr ⟨value, rfl, _, second⟩,
    drop_string second⟩

theorem string_inside (same : reader.bytes.drop iter = stringBytes value ++ rest) :
    iter + 2 + value.length ≤ reader.bytes.length := by
  have length := congrArg List.length same
  rw [length_drop, length_append, stringBytes, length_append,
    show (bytes16 value.length).length = 2 from rfl] at length
  omega

def NextEntry (names : List (List UInt8)) (rest : List UInt8) : Prop :=
  ∃ entry more, rest = entryBytes entry ++ more ∧ Sound entry ∧ entry.1 ∉ names

theorem parseHeaders_spec {remaining : Nat} {block : SpdyHeaderBlock}
    (parsed : parseHeaders reader remaining iter block = (ok, out))
    (inside : iter ≤ reader.bytes.length) (some_iter : 0 < iter) :
    ∃ entries rest, reader.bytes.drop iter = blockBytes entries ++ rest ∧
      out.entries = block.entries ++ entries ∧ (∀ entry ∈ entries, Sound entry) ∧
      (entries.length = remaining ∧ (ok = true ↔ rest = []) ∨
        entries.length < remaining ∧ ok = false ∧ ¬ NextEntry out.names rest) := by
  induction remaining generalizing iter block with
  | zero =>
    cases parsed
    refine ⟨[], reader.bytes.drop iter, rfl, (append_nil _).symm,
      fun entry member => absurd member not_mem_nil, .inl ⟨rfl, ?_⟩⟩
    have length : reader.bytes.length = reader.length.toNat := by
      rw [Reader.bytes, length_map, length_range]
    rw [decide_eq_true_eq, drop_eq_nil_iff]
    omega
  | succ remaining ih =>
    -- The loop stops here: nothing was read of the next entry, which is faulty.
    have stops : (ok, out) = (false, block) → ¬ NextEntry block.names (reader.bytes.drop iter) →
        ∃ entries rest, reader.bytes.drop iter = blockBytes entries ++ rest ∧
          out.entries = block.entries ++ entries ∧ (∀ entry ∈ entries, Sound entry) ∧
          (entries.length = remaining + 1 ∧ (ok = true ↔ rest = []) ∨
            entries.length < remaining + 1 ∧ ok = false ∧ ¬ NextEntry out.names rest) := by
      intro same faulty
      cases same
      exact ⟨[], reader.bytes.drop iter, rfl, (append_nil _).symm, fun entry member => absurd member not_mem_nil,
        .inr ⟨Nat.succ_pos _, rfl, faulty⟩⟩
    conv at parsed => lhs; whnf
    cases first : reader.readString iter with
    | none =>
      rw [first] at parsed
      apply stops parsed.symm
      rintro ⟨entry, more, same, sound, -⟩
      rw [(entry_reads same sound.name.2 sound.value.2).1] at first
      cases first
    | some result =>
      obtain ⟨name, middle⟩ := result
      rw [first] at parsed
      simp only at parsed
      cases second : reader.readString middle with
      | none =>
        rw [second] at parsed
        apply stops parsed.symm
        rintro ⟨entry, more, same, sound, -⟩
        obtain ⟨one, two, -⟩ := entry_reads same sound.name.2 sound.value.2
        rw [one] at first
        cases first
        rw [two] at second
        cases second
      | some result =>
        obtain ⟨value, next⟩ := result
        rw [second] at parsed
        simp only at parsed
        have unique : ∀ {entry more}, reader.bytes.drop iter = entryBytes entry ++ more →
            Sound entry → entry = (name, value) := by
          intro entry more same sound
          obtain ⟨one, two, -⟩ := entry_reads same sound.name.2 sound.value.2
          rw [one] at first
          cases first
          rw [two] at second
          cases second
          rfl
        by_cases empty : name = [] ∨ value = []
        · rw [if_pos empty] at parsed
          apply stops parsed.symm
          rintro ⟨entry, more, same, sound, -⟩
          cases unique same sound
          rcases empty with none_named | no_value
          · exact sound.name.1 none_named
          · exact sound.value.1 no_value
        rw [if_neg empty] at parsed
        by_cases absent : name ∉ block.names
        · rw [dif_pos absent] at parsed
          obtain ⟨short, rfl, rest, same⟩ := readString_iff.mp first
          obtain ⟨short', rfl, rest', same'⟩ := readString_iff.mp second
          have rest_eq : rest = stringBytes value ++ rest' := (drop_string same).symm.trans same'
          obtain ⟨entries, left, dropped, same_out, sound, finished⟩ :=
            ih parsed (string_inside same') (by omega)
          rw [drop_string same'] at dropped
          refine ⟨(name, value) :: entries, left, ?_, ?_, ?_, ?_⟩
          · rw [same, rest_eq, dropped, blockBytes_cons, entryBytes]
            simp only [append_assoc]
          · rw [same_out, SpdyHeaderBlock.insert, append_assoc]
            rfl
          · intro entry member
            rcases mem_cons.mp member with rfl | member
            · exact ⟨⟨fun none_named => empty (.inl none_named), short⟩,
                fun no_value => empty (.inr no_value), short'⟩
            · exact sound entry member
          · rw [length_cons]
            rcases finished with ⟨all, ok_iff⟩ | ⟨fewer, failed, faulty⟩
            · exact .inl ⟨by rw [all], ok_iff⟩
            · exact .inr ⟨Nat.succ_lt_succ fewer, failed, faulty⟩
        · rw [dif_neg absent] at parsed
          apply stops parsed.symm
          rintro ⟨entry, more, same, sound, fresh_name⟩
          cases unique same sound
          exact absent fresh_name

theorem parseHeaders_round {block : SpdyHeaderBlock} (sound : ∀ entry ∈ entries, Sound entry)
    (distinct : ((block.entries ++ entries).map Prod.fst).Nodup)
    (same : reader.bytes.drop iter = blockBytes entries) (inside : iter ≤ reader.bytes.length)
    (some_iter : 0 < iter) :
    parseHeaders reader entries.length iter block = (true, ⟨block.entries ++ entries, distinct⟩) := by
  induction entries generalizing iter block with
  | nil =>
    have length : reader.bytes.length = reader.length.toNat := by
      rw [Reader.bytes, length_map, length_range]
    have finished : (iter : Int) = reader.length := by
      have none_left := drop_eq_nil_iff.mp same
      omega
    change (decide _, block) = _
    rw [decide_eq_true finished, Prod.mk.injEq]
    exact ⟨rfl, SpdyHeaderBlock.ext (append_nil _).symm⟩
  | cons entry entries ih =>
    have here := sound entry (mem_cons_self ..)
    rw [blockBytes_cons] at same
    obtain ⟨first, second, dropped⟩ := entry_reads same here.name.2 here.value.2
    have some_strings : ¬ (entry.1 = [] ∨ entry.2 = []) :=
      not_or.mpr ⟨here.name.1, here.value.1⟩
    have absent : entry.1 ∉ block.names := by
      rw [map_append, map_cons, nodup_append] at distinct
      exact fun member => distinct.2.2 _ member _ (mem_cons_self ..) rfl
    have later : ((block.insert entry.1 entry.2 absent).entries ++ entries).map Prod.fst |>.Nodup := by
      rw [SpdyHeaderBlock.insert_entries, append_assoc]
      exact distinct
    have next_inside : iter + 2 + entry.1.length + 2 + entry.2.length ≤ reader.bytes.length := by
      have parts : reader.bytes.drop iter =
          stringBytes entry.1 ++ (stringBytes entry.2 ++ blockBytes entries) := by
        rw [same, entryBytes, append_assoc]
      exact string_inside (drop_string parts)
    conv => lhs; whnf
    rw [first]
    simp only
    rw [second]
    simp only
    rw [if_neg some_strings, dif_pos absent,
      ih (fun other member => sound other (mem_cons_of_mem entry member)) later dropped
        next_inside (by omega), Prod.mk.injEq]
    exact ⟨rfl, SpdyHeaderBlock.ext (append_assoc block.entries [(entry.1, entry.2)] entries)⟩

end Reading

def headerBlock (frame : Buffer) : List UInt8 :=
  (List.range (frame.length - (headerBlockOffset frame.type - frameSize))).map fun i =>
    frame (headerBlockOffset frame.type + i)

theorem duplicate_agree (frame : Buffer) : Agree (duplicateFrame frame) frame :=
  fun _ inside => if_pos (inside.trans_le (Nat.le_add_right ..))

theorem reader_bytes (frame : Buffer) :
    (headerBlockReader (duplicateFrame frame)).bytes = headerBlock frame := by
  have agree := duplicate_agree frame
  have offset : headerBlockOffset frame.type = 18 ∨ headerBlockOffset frame.type = 14 := by
    rw [headerBlockOffset]
    split
    · exact .inl rfl
    · exact .inr rfl
  have size : frameSize = 8 := rfl
  rw [Reader.bytes, headerBlockReader, agree.type, agree.length, headerBlock]
  have count : ((frame.length : Int) - (headerBlockOffset frame.type - frameSize : Nat)).toNat =
      frame.length - (headerBlockOffset frame.type - frameSize) := by omega
  rw [count]
  apply map_congr_left
  intro i member
  have below := mem_range.mp member
  exact if_pos (by omega)

variable {decompressor : Stream} {frame : Buffer}

theorem parse_header_block (type : frame.type = synStream ∨ frame.type = synReply) {block : SpdyHeaderBlock}
    (few : count < 65536) (same : headerBlock frame = bytes16 count ++ body) :
    parseHeaderBlock (some decompressor) frame block =
      parseHeaders (headerBlockReader (duplicateFrame frame)) count 2 block := by
  have counted : (headerBlockReader (duplicateFrame frame)).readUInt16 0 = some (count, 2) :=
    readUInt16_iff.mpr ⟨few, rfl, body, by rw [reader_bytes, drop_zero, same]⟩
  have syn : ¬ (frame.type ≠ synStream ∧ frame.type ≠ synReply) := by omega
  rw [parseHeaderBlock, if_neg syn]
  simp only [decompressFrame, map_some, counted]

theorem parse_short_block (type : frame.type = synStream ∨ frame.type = synReply) (block : SpdyHeaderBlock)
    (short : (headerBlock frame).length < 2) :
    parseHeaderBlock (some decompressor) frame block = (false, block) := by
  have uncounted : (headerBlockReader (duplicateFrame frame)).readUInt16 0 = none := by
    refine if_neg fun room => ?_
    rw [room_iff (by decide), reader_bytes] at room
    omega
  have syn : ¬ (frame.type ≠ synStream ∧ frame.type ≠ synReply) := by omega
  rw [parseHeaderBlock, if_neg syn]
  simp only [decompressFrame, map_some, uncounted]

theorem two_bytes {bytes : List UInt8} (long : 2 ≤ bytes.length) :
    ∃ count body, count < 65536 ∧ bytes = bytes16 count ++ body := by
  rcases bytes with - | ⟨high, - | ⟨low, body⟩⟩
  · exact absurd long (by decide)
  · exact absurd long (by simp)
  have top := high.toNat_lt
  have bottom := low.toNat_lt
  exact ⟨high.toNat * 256 + low.toNat, body, by omega, by rw [bytes16_eq]; rfl⟩

theorem parse_block_spec (type : frame.type = synStream ∨ frame.type = synReply) {block : SpdyHeaderBlock}
    (few : count < 65536) (same : headerBlock frame = bytes16 count ++ body)
    (parsed : parseHeaderBlock (some decompressor) frame block = (ok, out)) :
    ∃ entries rest, body = blockBytes entries ++ rest ∧
      out.entries = block.entries ++ entries ∧ (∀ entry ∈ entries, Sound entry) ∧
      (entries.length = count ∧ (ok = true ↔ rest = []) ∨
        entries.length < count ∧ ok = false ∧ ¬ NextEntry out.names rest) := by
  rw [parse_header_block type few same] at parsed
  have inside : 2 ≤ (headerBlockReader (duplicateFrame frame)).bytes.length := by
    rw [reader_bytes, same, length_append]
    exact Nat.le_add_right 2 _
  obtain ⟨entries, rest, dropped, found⟩ := parseHeaders_spec parsed inside (by decide)
  rw [reader_bytes, same] at dropped
  exact ⟨entries, rest, dropped, found⟩

section Frames

structure Unfinished (builder : Builder) (type : UInt8) (fields body : List UInt8) : Prop where
  written : builder.written = [0x80, 1, 0, type, 0, 0, 0, 0] ++ (fields ++ body)
  offset : frameSize + fields.length = headerBlockOffset type.toNat
  syn : type.toNat = synStream ∨ type.toNat = synReply

variable {builder : Builder} {type flags : UInt8} {fields : List UInt8}

theorem Unfinished.finished (frame : Unfinished builder type fields body) (flags : UInt8) :
    (writeLength builder flags).written = ([0x80, 1, 0, type] ++
      flagsAndLength flags (fields.length + body.length)) ++ (fields ++ body) := by
  have length : builder.written.length = frameSize + (fields.length + body.length) := by
    rw [frame.written, length_append, length_append]
    rfl
  have room : 4 + (flagsAndLength flags (builder.written.length - frameSize)).length ≤
      builder.written.length := by
    rw [length]
    exact Nat.le_add_right ..
  rw [writeLength, Builder.writeBytesToOffset, dif_pos room]
  simp only
  rw [length, Nat.add_sub_cancel_left, frame.written]
  rfl

theorem Unfinished.head (frame : Unfinished builder type fields body) (flags : UInt8)
    (garbage : Buffer) : Agree ((writeLength builder flags).take garbage) (headerOf
      ([0x80, 1, 0, type] ++ flagsAndLength flags (fields.length + body.length))) :=
  take_head (frame.finished flags) garbage rfl

theorem Unfinished.type_eq (frame : Unfinished builder type fields body) (flags : UInt8)
    (garbage : Buffer) : ((writeLength builder flags).take garbage).type = type.toNat := by
  rw [(frame.head flags garbage).type]
  change (0 : UInt8).toNat * 256 + type.toNat = _
  rw [show (0 : UInt8).toNat * 256 = 0 from rfl, Nat.zero_add]

theorem Unfinished.block (frame : Unfinished builder type fields body) (flags : UInt8) (garbage : Buffer) :
    (headerBlock ((writeLength builder flags).take garbage)).length =
      (fields.length + body.length) % 2 ^ 24 - fields.length ∧
    (fields.length + body.length < 2 ^ 24 → headerBlock ((writeLength builder flags).take garbage) = body) := by
  have offset := frame.offset
  have size : frameSize = 8 := rfl
  have count : ((writeLength builder flags).take garbage).length = (fields.length + body.length) % 2 ^ 24 :=
    (frame.head flags garbage).length.trans (header_length ..)
  rw [headerBlock, frame.type_eq, ← offset, Nat.add_sub_cancel_left, count]
  constructor
  · rw [length_map, length_range]
  · intro short
    rw [Nat.mod_eq_of_lt short, Nat.add_sub_cancel_left]
    apply ext_getElem
    · rw [length_map, length_range]
    · intro i _ present
      have behind := take_behind (frame.finished flags) garbage (fields.length + i)
      rw [getElem_map, getElem_range, Nat.add_assoc]
      refine behind.trans ?_
      rw [List.getElem?_append_right (Nat.le_add_right ..), Nat.add_sub_cancel_left,
        List.getElem?_eq_getElem present, getD_some]

theorem Unfinished.trip (decompressor : Stream) {headers : SpdyHeaderBlock}
    (sound : ∀ entry ∈ headers.entries, Sound entry) (few : headers.entries.length < 65536)
    (frame : Unfinished builder type fields
      (bytes16 headers.entries.length ++ blockBytes headers.entries)) (flags : UInt8)
    (garbage : Buffer) :
    parseHeaderBlock (some decompressor) ((writeLength builder flags).take garbage) .empty = (true, headers) ↔
    fields.length + 2 + (blockBytes headers.entries).length < 2 ^ 24 := by
  obtain ⟨length, block⟩ := frame.block flags garbage
  have type := frame.type_eq flags garbage
  have syn := type ▸ frame.syn
  have body : (bytes16 headers.entries.length ++ blockBytes headers.entries).length =
      2 + (blockBytes headers.entries).length := length_append
  rw [body] at length block
  have distinct : ((SpdyHeaderBlock.empty.entries ++ headers.entries).map Prod.fst).Nodup :=
    headers.distinct
  constructor
  · intro parsed
    rcases Nat.lt_or_ge (headerBlock ((writeLength builder flags).take garbage)).length 2 with
      none_counted | counted
    · rw [parse_short_block syn _ none_counted] at parsed
      cases parsed
    · obtain ⟨count, rest, small, same⟩ := two_bytes counted
      obtain ⟨entries, left, rest_eq, out, -, finished⟩ := parse_block_spec syn small same parsed
      have all : left = [] := by
        rcases finished with ⟨-, ok_iff⟩ | ⟨-, failed, -⟩
        · exact ok_iff.mp rfl
        · cases failed
      rw [rest_eq, all, append_nil, ← show headers.entries = entries from out] at same
      rw [same, length_append, show (bytes16 count).length = 2 from rfl] at length
      omega
  · intro short
    have same := block (by omega)
    have dropped : (headerBlockReader (duplicateFrame
        ((writeLength builder flags).take garbage))).bytes.drop 2 = blockBytes headers.entries := by
      rw [reader_bytes, same]
      rfl
    rw [parse_header_block syn few same, parseHeaders_round sound distinct dropped
      (by rw [reader_bytes, same, body]; omega) (by decide)]
    rfl

end Frames

end Glopen.Spdy

import Mathlib.Data.List.Basic
import Mathlib.Data.Bool.AllAny
import Mathlib.Algebra.Group.Nat.Defs

/-! The gzip header read in pieces. -/
namespace Glopen.Net

open List

/-- The states, in the order of `state_++`. -/
inductive GzipState where
  | id1 | id2 | cm | flg | mtimeByte0 | mtimeByte1 | mtimeByte2 | mtimeByte3 | xfl | os
  | xlenByte0 | xlenByte1 | fextra | fname | fcomment | fhcrcByte0 | fhcrcByte1 | done
  deriving DecidableEq

def flagFhcrc : UInt8 := 0x02
def flagFextra : UInt8 := 0x04
def flagFname : UInt8 := 0x08
def flagFcomment : UInt8 := 0x10

structure GzipHeader where
  state : GzipState := .id1
  flags : UInt8 := 0
  extraLength : Nat := 0

namespace GzipHeader

inductive Turn where
  | go (h : GzipHeader) (bytes : List UInt8)
  | invalid
  | complete

def pass (h : GzipHeader) (next : GzipState) (rest : List UInt8) : Turn :=
  .go { h with state := next } rest

def expect (h : GzipHeader) (magic : UInt8) (next : GzipState) (byte : UInt8) (rest : List UInt8) :
    Turn :=
  if byte ≠ magic then .invalid else .go { h with state := next } rest

def grabExtra (h : GzipHeader) (bytes : List UInt8) : Turn :=
  let numExtraBytes := min h.extraLength bytes.length
  let extraLength := h.extraLength - numExtraBytes
  let rest := bytes.drop numExtraBytes
  if extraLength = 0 then .go ⟨.fname, h.flags &&& ~~~flagFextra, extraLength⟩ rest
  else .go { h with extraLength := extraLength } rest

/-- A field that ends with a NUL: `memchr` finds it, or all bytes are of the field. -/
def grabString (h : GzipHeader) (flag : UInt8) (next : GzipState) (bytes : List UInt8) : Turn :=
  match bytes.dropWhile (· != 0) with
  | _ :: rest => .go { h with state := next, flags := h.flags &&& ~~~flag } rest
  | [] => .go h []

/-- The `switch`, at the byte at `pos` and the bytes behind it. -/
def turn (h : GzipHeader) (byte : UInt8) (rest : List UInt8) : Turn :=
  match h.state with
  | .id1 => h.expect 0x1f .id2 byte rest
  | .id2 => h.expect 0x8b .cm byte rest
  | .cm => h.expect 8 .flg byte rest
  | .flg =>
    .go ⟨.mtimeByte0, byte &&& (flagFhcrc ||| flagFextra ||| flagFname ||| flagFcomment),
      h.extraLength⟩ rest
  | .mtimeByte0 => h.pass .mtimeByte1 rest
  | .mtimeByte1 => h.pass .mtimeByte2 rest
  | .mtimeByte2 => h.pass .mtimeByte3 rest
  | .mtimeByte3 => h.pass .xfl rest
  | .xfl => h.pass .os rest
  | .os => h.pass .xlenByte0 rest
  | .xlenByte0 =>
    if h.flags &&& flagFextra = 0 then h.pass .fname (byte :: rest)
    else .go ⟨.xlenByte1, h.flags, byte.toNat⟩ rest
  -- falls through to the extra field, which may have no bytes
  | .xlenByte1 => grabExtra ⟨.fextra, h.flags, h.extraLength + byte.toNat * 2 ^ 8⟩ rest
  | .fextra => h.grabExtra (byte :: rest)
  | .fname =>
    if h.flags &&& flagFname = 0 then h.pass .fcomment (byte :: rest)
    else h.grabString flagFname .fcomment (byte :: rest)
  | .fcomment =>
    if h.flags &&& flagFcomment = 0 then h.pass .fhcrcByte0 (byte :: rest)
    else h.grabString flagFcomment .fhcrcByte0 (byte :: rest)
  | .fhcrcByte0 =>
    if h.flags &&& flagFhcrc = 0 then h.pass .done (byte :: rest)
    else h.pass .fhcrcByte1 rest
  | .fhcrcByte1 => .go { h with state := .done, flags := h.flags &&& ~~~flagFhcrc } rest
  | .done => .complete

variable {h h' : GzipHeader} {byte : UInt8} {rest : List UInt8} {flag : UInt8} {next : GzipState}

section Turns

variable {bytes bytes' : List UInt8}

theorem grabExtra_less (went : h.grabExtra bytes = .go h' bytes') (state : h.state = .fextra)
    (some_byte : bytes ≠ []) :
    bytes'.length + (17 - h'.state.ctorIdx) < bytes.length + (17 - GzipState.fextra.ctorIdx) := by
  have positive := length_pos_iff.mpr some_byte
  rw [grabExtra] at went
  split at went
  · cases went
    rw [length_drop]
    exact Nat.add_lt_add_of_le_of_lt (Nat.sub_le _ _) (Nat.le_of_ble_eq_true rfl)
  · cases went
    rw [length_drop, state]
    omega

theorem grabString_less (went : h.grabString flag next bytes = .go h' bytes') (some_byte : bytes ≠ [])
    (later : h.state.ctorIdx ≤ next.ctorIdx) :
    bytes'.length + (17 - h'.state.ctorIdx) < bytes.length + (17 - h.state.ctorIdx) := by
  have shorter := (dropWhile_suffix (l := bytes) (· != 0)).length_le
  have positive := length_pos_iff.mpr some_byte
  rw [grabString] at went
  split at went
  · rename_i nul behind found
    cases went
    rw [found, length_cons] at shorter
    simp only
    omega
  · cases went
    rw [length_nil]
    omega

/-- A turn reads a byte, or goes to a state that is behind. -/
theorem turn_less (went : h.turn byte rest = .go h' bytes) :
    bytes.length + (17 - h'.state.ctorIdx) < (byte :: rest).length + (17 - h.state.ctorIdx) := by
  cases state : h.state
  all_goals
    rw [turn, state] at went
    simp only [expect, pass] at went
  case fextra => exact grabExtra_less went state (cons_ne_nil _ _)
  case xlenByte1 =>
    have shorter : bytes.length ≤ rest.length := by
      rw [grabExtra] at went
      split at went <;> cases went <;> rw [length_drop] <;> exact Nat.sub_le _ _
    have later : 17 - h'.state.ctorIdx ≤ 17 - GzipState.xlenByte1.ctorIdx := by
      rw [grabExtra] at went
      split at went <;> cases went <;> exact Nat.le_of_ble_eq_true rfl
    exact Nat.add_lt_add_of_lt_of_le (Nat.lt_succ_of_le shorter) later
  case id1 | id2 | cm =>
    split at went
    · cases went
    · cases went
      exact Nat.add_lt_add_of_lt_of_le (Nat.lt_succ_self _) (Nat.le_of_ble_eq_true rfl)
  case flg | mtimeByte0 | mtimeByte1 | mtimeByte2 | mtimeByte3 | xfl | os | fhcrcByte1 =>
    cases went
    exact Nat.add_lt_add_of_lt_of_le (Nat.lt_succ_self _) (Nat.le_of_ble_eq_true rfl)
  case xlenByte0 | fhcrcByte0 =>
    split at went
    · cases went
      exact Nat.add_lt_add_of_le_of_lt (Nat.le_refl _) (Nat.le_of_ble_eq_true rfl)
    · cases went
      exact Nat.add_lt_add_of_lt_of_le (Nat.lt_succ_self _) (Nat.le_of_ble_eq_true rfl)
  case fname | fcomment =>
    split at went
    · cases went
      exact Nat.add_lt_add_of_le_of_lt (Nat.le_refl _) (Nat.le_of_ble_eq_true rfl)
    · have less := grabString_less went (cons_ne_nil _ _) (by rw [state]; decide)
      rwa [state] at less
  case done => cases went

end Turns

/-- The answer of `ReadMore`; `header_end` is given by the bytes from it on. -/
inductive Status where
  | incomplete
  | complete (headerEnd : List UInt8)
  | invalid
  deriving DecidableEq

def readMore (h : GzipHeader) (bytes : List UInt8) : GzipHeader × Status :=
  match bytes with
  | [] =>
    if GzipState.os.ctorIdx < h.state.ctorIdx ∧ h.flags = 0 then (h, .complete [])
    else (h, .incomplete)
  | byte :: rest =>
    match went : h.turn byte rest with
    | .invalid => (h, .invalid)
    | .complete => (h, .complete (byte :: rest))
    | .go h bytes => h.readMore bytes
termination_by bytes.length + (17 - h.state.ctorIdx)
decreasing_by exact turn_less went

/-- The answers of the calls, up to the first that is not `INCOMPLETE_HEADER`. -/
def readAll (h : GzipHeader) : List (List UInt8) → List Status
  | [] => []
  | piece :: pieces =>
    match h.readMore piece with
    | (h, .incomplete) => .incomplete :: h.readAll pieces
    | (_, status) => [status]

variable {status : List UInt8 → Status}

section Reading

variable {bytes : List UInt8}

/-- `flags_` and the state are not those of a header that has been read. -/
def Waits (h : GzipHeader) : Prop := ¬(GzipState.os.ctorIdx < h.state.ctorIdx ∧ h.flags = 0)

theorem readMore_nil (waits : h.Waits) : h.readMore [] = (h, .incomplete) := by
  rw [readMore, if_neg waits]

theorem readMore_go {rest' : List UInt8} (went : h.turn byte rest = .go h' rest') :
    h.readMore (byte :: rest) = h'.readMore rest' := by
  rw [readMore]
  split
  · rename_i other
    rw [went] at other
    cases other
  · rename_i other
    rw [went] at other
    cases other
  · rename_i other
    rw [went] at other
    cases other
    rfl

theorem readMore_invalid (refused : h.turn byte rest = .invalid) : (h.readMore (byte :: rest)).2 = .invalid := by
  rw [readMore]
  split
  · rfl
  · rename_i other
    rw [refused] at other
    cases other
  · rename_i other
    rw [refused] at other
    cases other

/-- The bytes are read one at a time without an answer, and behind the last the answer is that of
the bytes that follow. -/
inductive Answers (status : List UInt8 → Status) : GzipHeader → List UInt8 → Prop
  | ends {h : GzipHeader} (all : ∀ rest, (h.readMore rest).2 = status rest) : Answers status h []
  | last {h : GzipHeader} {byte : UInt8} (waits : h.Waits)
      (all : ∀ rest, (h.readMore (byte :: rest)).2 = status rest) : Answers status h [byte]
  | read {h h' : GzipHeader} {byte : UInt8} {bytes : List UInt8} (waits : h.Waits)
      (step : ∀ rest, h.readMore (byte :: rest) = h'.readMore rest)
      (next : Answers status h' bytes) : Answers status h (byte :: bytes)

theorem Answers.answer (answers : Answers status h bytes) (rest : List UInt8) :
    (h.readMore (bytes ++ rest)).2 = status rest := by
  induction answers with
  | ends all => exact all rest
  | last waits all => exact all rest
  | read waits step next ih => rw [cons_append, step, ih]

theorem Answers.waits (answers : Answers status h (byte :: bytes)) : h.Waits := by
  cases answers with
  | last waits all => exact waits
  | read waits step next => exact waits

theorem Answers.incomplete {front back : List UInt8} (more : back ≠ [])
    (answers : Answers status h (front ++ back)) :
    ∃ h', h.readMore front = (h', .incomplete) ∧ Answers status h' back := by
  induction front generalizing h with
  | nil =>
    obtain ⟨byte, bytes, rfl⟩ := exists_cons_of_ne_nil more
    exact ⟨h, readMore_nil answers.waits, answers⟩
  | cons byte front ih =>
    rw [cons_append] at answers
    generalize whole : front ++ back = bytes at answers
    cases answers with
    | last waits all => exact absurd (append_eq_nil_iff.mp whole).2 more
    | read waits step next =>
      rw [← whole] at next
      rw [step]
      exact ih next

/-- The answers of a run, whatever the pieces are. -/
theorem Answers.run {data : List UInt8} (pieces : List (List UInt8)) (some_byte : bytes ≠ [])
    (final : ∀ rest, status rest ≠ .incomplete) (answers : Answers status h bytes)
    (stream : pieces.flatten = bytes ++ data) :
    ∃ before front rest after, pieces = before ++ (front ++ rest) :: after ∧ front ≠ [] ∧
      before.flatten ++ front = bytes ∧ rest ++ after.flatten = data ∧
        h.readAll pieces = List.replicate before.length .incomplete ++ [status rest] := by
  induction pieces generalizing h bytes with
  | nil =>
    rw [flatten_nil] at stream
    exact absurd (append_eq_nil_iff.mp stream.symm).1 some_byte
  | cons piece pieces ih =>
    have ended : ∀ rest, piece = bytes ++ rest → data = rest ++ pieces.flatten →
        ∃ before front rest after, piece :: pieces = before ++ (front ++ rest) :: after ∧
          front ≠ [] ∧ before.flatten ++ front = bytes ∧ rest ++ after.flatten = data ∧
            h.readAll (piece :: pieces) = List.replicate before.length .incomplete ++ [status rest] := by
      intro rest whole behind
      refine ⟨[], bytes, rest, pieces, by rw [whole]; rfl, some_byte, rfl, behind.symm, ?_⟩
      have answer := answers.answer rest
      rw [← whole] at answer
      rw [readAll]
      split
      · rename_i h' incomplete
        rw [incomplete] at answer
        exact absurd answer.symm (final rest)
      · rename_i h' other _ finished
        rw [finished] at answer
        rw [← answer]
        rfl
    rw [flatten_cons, append_eq_append_iff] at stream
    rcases stream with ⟨back, whole, later⟩ | ⟨rest, whole, behind⟩
    · by_cases more : back = []
      · subst more
        rw [append_nil] at whole
        exact ended [] (by rw [append_nil, whole]) (by simpa using later.symm)
      · rw [whole] at answers
        obtain ⟨h', read, next⟩ := answers.incomplete more
        obtain ⟨before, front, rest, after, rfl, some_front, all, behind, run⟩ := ih more next later
        refine ⟨piece :: before, front, rest, after, rfl, some_front, ?_, behind, ?_⟩
        · rw [whole, ← all, flatten_cons, append_assoc]
        · rw [readAll, read]
          simp only
          rw [run]
          rfl
    · exact ended rest whole behind

theorem Answers.cons (next : Answers status h' bytes) (waits : h.Waits)
    (step : ∀ rest, h.turn byte rest = .go h' rest) : Answers status h (byte :: bytes) :=
  .read waits (fun rest => readMore_go (step rest)) next

/-- A state that goes to the next without a byte. -/
theorem Answers.skip (next : Answers Status.complete h' bytes)
    (step : ∀ byte rest, h.turn byte rest = .go h' (byte :: rest))
    (behind : GzipState.os.ctorIdx.blt h.state.ctorIdx = true)
    (later : GzipState.os.ctorIdx.blt h'.state.ctorIdx = true) (flags : h'.flags = h.flags) :
    Answers Status.complete h bytes := by
  have waits : h'.Waits → h.Waits := fun waits read =>
    waits ⟨Nat.le_of_ble_eq_true later, flags.trans read.2⟩
  cases next with
  | ends all =>
    refine .ends fun rest => ?_
    cases rest with
    | nil =>
      have complete := all []
      rw [readMore] at complete ⊢
      by_cases none : h.flags = 0
      · rw [if_pos ⟨Nat.le_of_ble_eq_true behind, none⟩]
      · rw [if_neg (by rw [flags]; exact fun read => none read.2)] at complete
        cases complete
    | cons byte rest => rw [readMore_go (step byte rest), all]
  | last waiting all =>
    exact .last (waits waiting) fun rest => by rw [readMore_go (step _ rest), all]
  | read waiting reads next =>
    exact .read (waits waiting) (fun rest => by rw [readMore_go (step _ rest), reads]) next

theorem grabString_go (h : GzipHeader) (flag : UInt8) (next : GzipState) (bytes : List UInt8) :
    ∃ h' bytes', h.grabString flag next bytes = .go h' bytes' := by
  rw [grabString]
  split
  · exact ⟨_, _, rfl⟩
  · exact ⟨_, _, rfl⟩

theorem Answers.string (text : List UInt8) (plain : 0 ∉ text) (waits : h.Waits)
    (step : ∀ byte rest, h.turn byte rest = h.grabString flag next (byte :: rest))
    (behind : Answers status { h with state := next, flags := h.flags &&& ~~~flag } bytes) :
    Answers status h (text ++ 0 :: bytes) := by
  induction text with
  | nil =>
    refine .read waits (fun rest => readMore_go ?_) behind
    rw [step, grabString]
    rfl
  | cons byte text ih =>
    obtain ⟨other, plain⟩ := ne_and_not_mem_of_not_mem_cons plain
    refine .read waits (fun rest => ?_) (ih plain)
    have dropped : h.turn byte rest = h.grabString flag next rest := by
      rw [step, grabString, dropWhile_cons, if_pos (by simpa using other.symm), grabString]
    cases rest with
    | nil => exact readMore_go dropped
    | cons following rest =>
      rw [← step] at dropped
      obtain ⟨h', bytes', went⟩ := grabString_go h flag next (following :: rest)
      rw [← step] at went
      rw [readMore_go (dropped.trans went), readMore_go went]

end Reading

section Fields

variable {bytes : List UInt8}

theorem grabExtra_go (h : GzipHeader) (bytes : List UInt8) : ∃ h' bytes', h.grabExtra bytes = .go h' bytes' := by
  rw [grabExtra]
  split
  · exact ⟨_, _, rfl⟩
  · exact ⟨_, _, rfl⟩

theorem grabExtra_cons (flags : UInt8) (left : Nat) (byte : UInt8) (rest : List UInt8) :
    grabExtra ⟨.fextra, flags, left + 1⟩ (byte :: rest) = grabExtra ⟨.fextra, flags, left⟩ rest := by
  have one : min (left + 1) (byte :: rest).length = min left rest.length + 1 := by
    rw [length_cons, Nat.succ_min_succ]
  rw [grabExtra, grabExtra]
  simp only [one, drop_succ_cons, Nat.add_sub_add_right]

/-- The extra field is read as it comes. -/
theorem readMore_grab (state : h'.state = .fextra) (more : h'.extraLength ≠ 0)
    (went : h.turn byte rest = h'.grabExtra rest) : h.readMore (byte :: rest) = h'.readMore rest := by
  cases rest with
  | nil =>
    refine readMore_go (went.trans ?_)
    rw [grabExtra, length_nil, Nat.min_zero, Nat.sub_zero]
    exact if_neg more
  | cons following rest =>
    have same : h'.turn following rest = h'.grabExtra (following :: rest) := by rw [turn, state]
    obtain ⟨next, bytes', grabbed⟩ := grabExtra_go h' (following :: rest)
    rw [readMore_go (went.trans grabbed), readMore_go (same.trans grabbed)]

theorem Answers.extra {flags : UInt8} (some_flag : flags ≠ 0) (text : List UInt8)
    (behind : Answers status ⟨.fname, flags &&& ~~~flagFextra, 0⟩ bytes) (some_byte : text ≠ []) :
    Answers status ⟨.fextra, flags, text.length⟩ (text ++ bytes) := by
  induction text with
  | nil => exact absurd rfl some_byte
  | cons byte text ih =>
    have grabbed : ∀ rest, turn ⟨.fextra, flags, (byte :: text).length⟩ byte rest =
        grabExtra ⟨.fextra, flags, text.length⟩ rest := fun rest => grabExtra_cons flags _ byte rest
    by_cases last : text = []
    · subst last
      exact behind.cons (fun read => some_flag read.2) grabbed
    · refine .read (fun read => some_flag read.2) (fun rest => ?_) (ih last)
      exact readMore_grab rfl (mt length_eq_zero_iff.mp last) (grabbed rest)

end Fields

def flagsOf (extra name comment crc : Bool) : UInt8 :=
  (if crc then flagFhcrc else 0) ||| (if extra then flagFextra else 0) |||
    (if name then flagFname else 0) ||| if comment then flagFcomment else 0

structure Member where
  ftext : Bool
  mtime : UInt8 × UInt8 × UInt8 × UInt8
  xfl : UInt8
  os : UInt8
  extra : Option { text : List UInt8 // text.length < 2 ^ 16 }
  name : Option { text : List UInt8 // 0 ∉ text }
  comment : Option { text : List UInt8 // 0 ∉ text }
  crc : Option (UInt8 × UInt8)

namespace Member

def flg (m : Member) : UInt8 :=
  flagsOf m.extra.isSome m.name.isSome m.comment.isSome m.crc.isSome ||| if m.ftext then 0x01 else 0

def extraBytes : Option { text : List UInt8 // text.length < 2 ^ 16 } → List UInt8
  | none => []
  | some text => .ofNat (text.val.length % 256) :: .ofNat (text.val.length / 256) :: text.val

def stringBytes : Option { text : List UInt8 // 0 ∉ text } → List UInt8
  | none => []
  | some text => text.val ++ [0]

def crcBytes : Option (UInt8 × UInt8) → List UInt8
  | none => []
  | some (low, high) => [low, high]

def bytes (m : Member) : List UInt8 :=
  [0x1f, 0x8b, 8, m.flg, m.mtime.1, m.mtime.2.1, m.mtime.2.2.1, m.mtime.2.2.2, m.xfl, m.os] ++
    (extraBytes m.extra ++ (stringBytes m.name ++ (stringBytes m.comment ++ crcBytes m.crc)))

theorem flagsOf_zero : ∀ {extra name comment crc : Bool},
    (extra || name || comment || crc) = true → flagsOf extra name comment crc ≠ 0 := by
  decide

theorem flagsOf_extra : ∀ {extra name comment crc : Bool},
    flagsOf extra name comment crc &&& flagFextra = 0 ↔ extra = false := by decide

theorem flagsOf_name : ∀ {extra name comment crc : Bool},
    flagsOf extra name comment crc &&& flagFname = 0 ↔ name = false := by decide

theorem flagsOf_comment : ∀ {extra name comment crc : Bool},
    flagsOf extra name comment crc &&& flagFcomment = 0 ↔ comment = false := by decide

theorem flagsOf_crc : ∀ {extra name comment crc : Bool},
    flagsOf extra name comment crc &&& flagFhcrc = 0 ↔ crc = false := by decide

theorem flagsOf_noExtra : ∀ {name comment crc : Bool},
    flagsOf true name comment crc &&& ~~~flagFextra = flagsOf false name comment crc := by decide

theorem flagsOf_noName : ∀ {comment crc : Bool},
    flagsOf false true comment crc &&& ~~~flagFname = flagsOf false false comment crc := by decide

theorem flagsOf_noComment : ∀ {crc : Bool},
    flagsOf false false true crc &&& ~~~flagFcomment = flagsOf false false false crc := by decide

theorem flagsOf_masked : ∀ {extra name comment crc ftext : Bool},
    (flagsOf extra name comment crc ||| if ftext then 0x01 else 0) &&&
      (flagFhcrc ||| flagFextra ||| flagFname ||| flagFcomment) = flagsOf extra name comment crc := by decide

theorem answers_crc (crc : Option (UInt8 × UInt8)) (n : Nat) :
    Answers .complete ⟨.fhcrcByte0, flagsOf false false false crc.isSome, n⟩ (crcBytes crc) := by
  have done : ∀ flags, flags = 0 → Answers .complete ⟨.done, flags, n⟩ [] := by
    rintro flags rfl
    refine .ends fun rest => ?_
    cases rest with
    | nil =>
      rw [readMore]
      rfl
    | cons byte rest =>
      rw [readMore]
      rfl
  cases crc with
  | none =>
    have clear : flagsOf false false false false = 0 := by decide
    exact (done _ clear).skip (fun _ _ => if_pos (flagsOf_crc.mpr rfl)) rfl rfl rfl
  | some crc =>
    have last : flagsOf false false false true &&& ~~~flagFhcrc = 0 := by decide
    have second : Answers .complete ⟨.fhcrcByte1, flagsOf false false false true, n⟩ [crc.2] :=
      (done _ last).cons (fun read => flagsOf_zero rfl read.2) (fun _ => rfl)
    exact second.cons (fun read => flagsOf_zero rfl read.2)
      (fun _ => if_neg fun none => Bool.noConfusion (show true = false from flagsOf_crc.mp none))

theorem answers_comment (comment : Option { text : List UInt8 // 0 ∉ text })
    (crc : Option (UInt8 × UInt8)) (n : Nat) :
    Answers .complete ⟨.fcomment, flagsOf false false comment.isSome crc.isSome, n⟩
      (stringBytes comment ++ crcBytes crc) := by
  have behind := answers_crc crc n
  cases comment with
  | none =>
    exact behind.skip (fun _ _ => if_pos (flagsOf_comment.mpr rfl)) rfl rfl rfl
  | some text =>
    rw [← flagsOf_noComment] at behind
    rw [stringBytes, append_assoc]
    exact .string text.val text.property (fun read => flagsOf_zero rfl read.2)
      (fun _ _ => if_neg fun none => Bool.noConfusion (show true = false from flagsOf_comment.mp none)) behind

theorem answers_name (name comment : Option { text : List UInt8 // 0 ∉ text })
    (crc : Option (UInt8 × UInt8)) (n : Nat) :
    Answers .complete ⟨.fname, flagsOf false name.isSome comment.isSome crc.isSome, n⟩
      (stringBytes name ++ (stringBytes comment ++ crcBytes crc)) := by
  have behind := answers_comment comment crc n
  cases name with
  | none =>
    exact behind.skip (fun _ _ => if_pos (flagsOf_name.mpr rfl)) rfl rfl rfl
  | some text =>
    rw [← flagsOf_noName] at behind
    rw [stringBytes, append_assoc]
    exact .string text.val text.property (fun read => flagsOf_zero rfl read.2)
      (fun _ _ => if_neg fun none => Bool.noConfusion (show true = false from flagsOf_name.mp none)) behind

theorem answers_extra (extra : Option { text : List UInt8 // text.length < 2 ^ 16 })
    (name comment : Option { text : List UInt8 // 0 ∉ text }) (crc : Option (UInt8 × UInt8)) :
    Answers .complete ⟨.xlenByte0, flagsOf extra.isSome name.isSome comment.isSome crc.isSome, 0⟩
      (extraBytes extra ++ (stringBytes name ++ (stringBytes comment ++ crcBytes crc))) := by
  have behind := answers_name name comment crc 0
  cases extra with
  | none =>
    exact behind.skip (fun _ _ => if_pos (flagsOf_extra.mpr rfl)) rfl rfl rfl
  | some text =>
    rw [← flagsOf_noExtra] at behind
    have flagged : flagsOf true name.isSome comment.isSome crc.isSome ≠ 0 := flagsOf_zero rfl
    have short := text.property
    have size : (UInt8.ofNat (text.val.length % 256)).toNat +
        (UInt8.ofNat (text.val.length / 256)).toNat * 2 ^ 8 = text.val.length := by
      rw [UInt8.toNat_ofNat', UInt8.toNat_ofNat']
      omega
    rw [extraBytes, cons_append, cons_append]
    refine Answers.cons ?_ (fun read => flagged read.2)
      (fun _ => if_neg fun none => Bool.noConfusion (show true = false from flagsOf_extra.mp none))
    have grabbed : ∀ rest, turn ⟨.xlenByte1, flagsOf true name.isSome comment.isSome crc.isSome,
        (UInt8.ofNat (text.val.length % 256)).toNat⟩ (UInt8.ofNat (text.val.length / 256)) rest =
        grabExtra ⟨.fextra, flagsOf true name.isSome comment.isSome crc.isSome, text.val.length⟩ rest := by
      intro rest
      change grabExtra ⟨.fextra, _, (UInt8.ofNat (text.val.length % 256)).toNat +
        (UInt8.ofNat (text.val.length / 256)).toNat * 2 ^ 8⟩ rest = _
      rw [size]
    by_cases empty : text.val = []
    · rw [empty] at grabbed ⊢
      exact behind.cons (fun read => flagged read.2) grabbed
    · refine .read (fun read => flagged read.2) (fun rest => ?_) (Answers.extra flagged text.val behind empty)
      exact readMore_grab rfl (mt length_eq_zero_iff.mp empty) (grabbed rest)

theorem answers_bytes (m : Member) : Answers .complete {} m.bytes := by
  have behind := answers_extra m.extra m.name m.comment m.crc
  rw [← @flagsOf_masked _ _ _ _ m.ftext] at behind
  have early : ∀ {state : GzipState} {flags : UInt8} {n : Nat},
      state.ctorIdx ≤ GzipState.os.ctorIdx → Waits ⟨state, flags, n⟩ :=
    fun early read => absurd read.1 (Nat.not_lt.mpr early)
  -- the bytes of fixed size, from the first magic byte to the system
  iterate 10 refine Answers.cons ?_ (early (Nat.le_of_ble_eq_true rfl)) (fun _ => rfl)
  exact behind

end Member

def gzipMagic : List UInt8 := [0x1f, 0x8b, 8]

theorem answers_wrong {good more : List UInt8} {right wrong : UInt8}
    (magic : gzipMagic = good ++ right :: more) (different : wrong ≠ right) :
    Answers (fun _ => .invalid) {} (good ++ [wrong]) := by
  have early : ∀ {state : GzipState}, state.ctorIdx ≤ GzipState.os.ctorIdx → Waits ⟨state, 0, 0⟩ :=
    fun early read => absurd read.1 (Nat.not_lt.mpr early)
  have refused : ∀ {state next : GzipState}, state.ctorIdx ≤ GzipState.os.ctorIdx →
      (∀ byte rest, turn ⟨state, 0, 0⟩ byte rest = expect ⟨state, 0, 0⟩ right next byte rest) →
      Answers (fun _ => .invalid) ⟨state, 0, 0⟩ [wrong] := fun is_early expects =>
    .last (early is_early) fun rest => readMore_invalid ((expects wrong rest).trans (if_pos different))
  rcases good with _ | ⟨a, _ | ⟨b, _ | ⟨c, good⟩⟩⟩
  · cases magic
    exact refused (Nat.le_of_ble_eq_true rfl) (fun _ _ => rfl)
  · cases magic
    exact .cons (refused (Nat.le_of_ble_eq_true rfl) (fun _ _ => rfl))
      (early (Nat.le_of_ble_eq_true rfl)) (fun _ => rfl)
  · cases magic
    exact .cons (.cons (refused (Nat.le_of_ble_eq_true rfl) (fun _ _ => rfl))
      (early (Nat.le_of_ble_eq_true rfl)) (fun _ => rfl)) (early (Nat.le_of_ble_eq_true rfl))
      (fun _ => rfl)
  · have length := congrArg List.length magic
    simp [gzipMagic] at length

/-- The first byte that is not the one expected. -/
theorem wrong_byte {expected bytes : List UInt8} {k : Nat} {byte : UInt8}
    (inside : k < expected.length) (at_k : bytes[k]? = some byte) (differs : expected[k]? ≠ some byte) :
    ∃ good right more wrong rest, expected = good ++ right :: more ∧
      bytes = good ++ wrong :: rest ∧ wrong ≠ right := by
  induction expected generalizing bytes k with
  | nil => exact absurd inside (Nat.not_lt_zero k)
  | cons right expected ih =>
    cases bytes with
    | nil => cases at_k
    | cons first bytes =>
      by_cases same : first = right
      · subst same
        cases k with
        | zero => exact absurd at_k differs
        | succ k =>
          obtain ⟨good, right, more, wrong, rest, rfl, rfl, different⟩ :=
            ih (Nat.lt_of_succ_lt_succ inside) at_k differs
          exact ⟨first :: good, right, more, wrong, rest, rfl, rfl, different⟩
      · exact ⟨[], right, expected, first, bytes, rfl, rfl, same⟩

theorem gzip_header_read : (∀ (m : Member) (data : List UInt8) (pieces : List (List UInt8)),
      pieces.flatten = m.bytes ++ data →
      ∃ before front rest after, pieces = before ++ (front ++ rest) :: after ∧ front ≠ [] ∧
        before.flatten ++ front = m.bytes ∧
          readAll {} pieces = List.replicate before.length .incomplete ++ [.complete rest]) ∧
    ∀ (pieces : List (List UInt8)) (k : Nat) (byte : UInt8),
      k < 3 → pieces.flatten[k]? = some byte → gzipMagic[k]? ≠ some byte →
      ∃ before front right wrong more rest after, pieces = before ++ (front ++ wrong :: rest) :: after ∧
          gzipMagic = before.flatten ++ front ++ right :: more ∧ wrong ≠ right ∧
            readAll {} pieces = List.replicate before.length .incomplete ++ [.invalid] := by
  constructor
  · intro m data pieces stream
    obtain ⟨before, front, rest, after, whole, some_front, header, -, run⟩ :=
      (Member.answers_bytes m).run pieces (List.cons_ne_nil _ _) (fun _ => by simp) stream
    exact ⟨before, front, rest, after, whole, some_front, header, run⟩
  · intro pieces k byte inside at_k differs
    obtain ⟨good, right, more, wrong, rest, magic, stream, different⟩ :=
      @wrong_byte gzipMagic _ k byte inside at_k differs
    rw [List.append_cons] at stream
    obtain ⟨before, front, rest, after, whole, some_front, header, -, run⟩ :=
      (answers_wrong magic different).run pieces (by simp) (fun _ => by simp) stream
    obtain ⟨front, last, rfl⟩ := List.eq_nil_or_concat' front |>.resolve_left some_front
    rw [← List.append_assoc] at header
    obtain ⟨rfl, one⟩ := List.append_inj' header rfl
    cases one
    refine ⟨before, front, right, wrong, more, rest, after, ?_, magic, different, run⟩
    rw [whole, List.append_assoc]
    rfl

/-- A header with a name and no extra bytes, in pieces that end inside the name and behind it. -/
theorem named_header_read : ∃ before front rest after,
    [[0x1f, 0x8b, 8, 12, 0, 0, 0], [0, 0, 3, 0], [0, 97], [], [0], [1, 2]] =
        before ++ (front ++ rest) :: after ∧ front ≠ [] ∧
      before.flatten ++ front = (⟨false, (0, 0, 0, 0), 0, 3, some ⟨[], by decide⟩,
        some ⟨[97], by decide⟩, none, none⟩ : Member).bytes ∧
        readAll {} [[0x1f, 0x8b, 8, 12, 0, 0, 0], [0, 0, 3, 0], [0, 97], [], [0], [1, 2]] =
          List.replicate before.length .incomplete ++ [.complete rest] :=
  gzip_header_read.1 ⟨false, (0, 0, 0, 0), 0, 3, some ⟨[], by decide⟩, some ⟨[97], by decide⟩,
    none, none⟩ [1, 2] [[0x1f, 0x8b, 8, 12, 0, 0, 0], [0, 0, 3, 0], [0, 97], [], [0], [1, 2]] rfl

end GzipHeader

end Glopen.Net

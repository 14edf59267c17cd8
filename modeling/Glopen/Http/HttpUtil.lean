import Mathlib.Data.List.DropRight
import Mathlib.Data.List.Forall2
import Mathlib.Data.List.ReduceOption
import Glopen.Base.Strings
import Glopen.Http.PartialData

/-! `net/http/http_util.cc`: white space and lists of values, and `ParseRangeHeader` with the grammar
of byte ranges. -/
namespace Glopen.Http

open Base List Option
variable {text word : RawText} {n : Int} {range : HttpByteRange} {first last : RawText} {c : UInt8}
  {ranges out : List HttpByteRange} {elements : List RawText} {denoted : List HttpByteRange}
  {element : RawText}

def trimLWS (text : RawText) : RawText := (text.dropWhile isLWS).rdropWhile isLWS

def White (text : RawText) : Prop := ∀ c ∈ text, isLWS c = true

theorem trimLWS_padded (text : RawText) :
    ∃ before behind, text = before ++ trimLWS text ++ behind ∧ White before ∧ White behind := by
  refine ⟨text.takeWhile isLWS, (text.dropWhile isLWS).rtakeWhile isLWS, ?_, ?_, ?_⟩
  · rw [append_assoc, trimLWS, rdropWhile_append_rtakeWhile, takeWhile_append_dropWhile]
  · exact fun c taken => mem_takeWhile_imp taken
  · exact fun c taken => mem_rtakeWhile_imp taken

theorem trimLWS_white (white : White text) : trimLWS text = [] := by
  rw [trimLWS, dropWhile_eq_nil_iff.mpr white]
  rfl

theorem trimLWS_bare (bare : ∀ c ∈ word, isLWS c = false) : trimLWS word = word := by
  have front : word.dropWhile isLWS = word := by
    cases word with
    | nil => rfl
    | cons c word => exact dropWhile_cons_of_neg (by simp [bare c mem_cons_self])
  rw [trimLWS, front, rdropWhile_eq_self_iff]
  intro some_word last
  rw [bare _ (getLast_mem some_word)] at last
  cases last

theorem trimLWS_around {before text behind : RawText} (whiteBefore : White before)
    (whiteBehind : White behind) : trimLWS (before ++ text ++ behind) = trimLWS text := by
  have front : (before ++ text ++ behind).dropWhile isLWS = (text ++ behind).dropWhile isLWS := by
    rw [append_assoc, dropWhile_append_of_pos whiteBefore]
  rw [trimLWS, front, trimLWS]
  by_cases white : White text
  · have none : (text ++ behind).dropWhile isLWS = [] := by
      refine dropWhile_eq_nil_iff.mpr fun c here => ?_
      exact (mem_append.mp here).elim (white c) (whiteBehind c)
    rw [none, dropWhile_eq_nil_iff.mpr white]
  · have some_left : text.dropWhile isLWS ≠ [] := fun none => white (dropWhile_eq_nil_iff.mp none)
    have split : (text ++ behind).dropWhile isLWS = text.dropWhile isLWS ++ behind := by
      rw [dropWhile_append, if_neg (by simpa using some_left)]
    rw [split, List.rdropWhile, reverse_append,
      dropWhile_append_of_pos fun d here => whiteBehind d (mem_reverse.mp here)]
    rfl

theorem trimLWS_eq_nil_iff : trimLWS text = [] ↔ White text := by
  refine ⟨fun none => ?_, trimLWS_white⟩
  obtain ⟨before, behind, eq, whiteBefore, whiteBehind⟩ := trimLWS_padded text
  rw [none, append_nil] at eq
  intro c inText
  rw [eq, mem_append] at inText
  exact inText.elim (whiteBefore c) (whiteBehind c)

def valuesTokenizer (delimiter : UInt8) : StringTokenizer := ⟨[delimiter], [39, 34], false⟩

/-- The values that the calls of `ValuesIterator::GetNext` stop at. -/
def values (text : RawText) (delimiter : UInt8) : List RawText :=
  (((valuesTokenizer delimiter).tokens text).map fun token => trimLWS token.text).filter (· ≠ [])

/-- `"bytes"` -/
def bytesUnit : RawText := [98, 121, 116, 101, 115]

def HttpByteRange.new : HttpByteRange :=
  ⟨kPositionNotSpecified, kPositionNotSpecified, kPositionNotSpecified, false⟩

def bytePos (text : RawText) : Option Int :=
  match stringToInt64 text with
  | (position, true) => some position
  | (_, false) => none

def setFirst (firstBytePos : RawText) : Option HttpByteRange :=
  if firstBytePos ≠ [] then
    (bytePos firstBytePos).map fun position => { HttpByteRange.new with firstBytePosition := position }
  else some .new

def setLast (range : HttpByteRange) (lastBytePos : RawText) : Option HttpByteRange :=
  if lastBytePos ≠ [] then
    (bytePos lastBytePos).map fun position =>
      if range.hasFirstBytePosition then { range with lastBytePosition := position }
      else { range with suffixLength := position }
  else if !range.hasFirstBytePosition then none
  else some range

def rangeOf (firstBytePos lastBytePos : RawText) : Option HttpByteRange :=
  ((setFirst firstBytePos).bind fun range => setLast range lastBytePos).filter (·.isValid)

def parseRange (value : RawText) : Option HttpByteRange :=
  if 45 ∉ value then none
  else rangeOf (trimLWS (value.takeWhile (· ≠ 45))) (trimLWS ((value.dropWhile (· ≠ 45)).drop 1))

def parseRanges : List RawText → List HttpByteRange → Bool × List HttpByteRange
  | [], ranges => (ranges.length > 0, ranges)
  | value :: values, ranges =>
    match parseRange value with
    | none => (false, ranges)
    | some range => parseRanges values (ranges ++ [range])

def byteRangeSet (rangesSpecifier : RawText) : RawText := (rangesSpecifier.dropWhile (· ≠ 61)).drop 1

def parseRangeHeader (rangesSpecifier : RawText) (ranges : List HttpByteRange) :
    Bool × List HttpByteRange :=
  if 61 ∉ rangesSpecifier then (false, ranges)
  else if !lowerCaseEqualsASCII (trimLWS (rangesSpecifier.takeWhile (· ≠ 61))) bytesUnit then
    (false, ranges)
  else parseRanges (values (byteRangeSet rangesSpecifier) 44) ranges

section Grammar

/-- A way to write byte ranges: its white space, its numbers and the last positions that may stand
behind a first one. -/
structure RangeSyntax where
  blank : UInt8 → Prop
  number : RawText → Int → Prop
  ordered : Int → Int → Prop

def RangeSyntax.rfc : RangeSyntax where
  blank c := c = 32 ∨ c = 9
  number text n := IsDigits text ∧ n = Ftp.decimal text ∧ n ≤ 2 ^ 63 - 1
  ordered first last := first ≤ last

/-- The same with the numbers of `StringToInt64`, the white space of `IsLWS` and a last position that
may read as not specified. -/
def RangeSyntax.loose : RangeSyntax where
  blank c := isLWS c = true
  number text n := stringToInt64 text = (n, true)
  ordered first last := first ≤ last ∨ last = kPositionNotSpecified

variable (grammar : RangeSyntax)

def RangeSyntax.Padded (text word : RawText) : Prop :=
  ∃ before behind, text = before ++ word ++ behind ∧ (∀ c ∈ before, grammar.blank c) ∧
    ∀ c ∈ behind, grammar.blank c

/-- `first-last`, `first-` and `-suffix`. -/
inductive RangeSyntax.Ends : RawText → RawText → HttpByteRange → Prop where
  | both {first last : RawText} {n m : Int} (isFirst : grammar.number first n)
      (isLast : grammar.number last m) (ordered : grammar.ordered n m) :
      Ends first last ⟨n, m, kPositionNotSpecified, false⟩
  | first {first : RawText} {n : Int} (isFirst : grammar.number first n) :
      Ends first [] ⟨n, kPositionNotSpecified, kPositionNotSpecified, false⟩
  | suffix {last : RawText} {m : Int} (isLast : grammar.number last m) (positive : 0 < m) :
      Ends [] last ⟨kPositionNotSpecified, kPositionNotSpecified, m, false⟩

def RangeSyntax.Denotes (element : RawText) (range : HttpByteRange) : Prop :=
  ∃ left right first last, element = left ++ 45 :: right ∧ 45 ∉ left ∧ grammar.Padded left first ∧
    grammar.Padded right last ∧ grammar.Ends first last range

def RangeSyntax.Item (element : RawText) : Option HttpByteRange → Prop
  | none => ∀ c ∈ element, grammar.blank c
  | some range => grammar.Denotes element range

def RangeSyntax.Specifier (text : RawText) (denoted : List HttpByteRange) : Prop :=
  ∃ unit name set items, text = unit ++ 61 :: set ∧ 61 ∉ unit ∧ grammar.Padded unit name ∧
    name.map toLowerASCII = bytesUnit ∧
    List.Forall₂ grammar.Item (set.splitOnP (· = 44)) items ∧ denoted = items.reduceOption

end Grammar

theorem bytePos_iff : bytePos text = some n ↔ RangeSyntax.loose.number text n := by
  change bytePos text = some n ↔ stringToInt64 text = (n, true)
  unfold bytePos
  obtain ⟨m, valid, read⟩ : ∃ m valid, stringToInt64 text = (m, valid) := ⟨_, _, rfl⟩
  rw [read]
  cases valid <;> simp

theorem loose_number_iff : RangeSyntax.loose.number text n ↔
    -2 ^ 63 ≤ n ∧ n ≤ 2 ^ 63 - 1 ∧ ∃ digits, IsDigits digits ∧ Signed digits text n :=
  stringToNumber_iff (by decide)

def NumberChar (c : UInt8) : Prop := Ftp.isDigit c = true ∨ c = 43 ∨ c = 45

theorem loose_number_chars (number : RangeSyntax.loose.number text n) :
    text ≠ [] ∧ ∀ c ∈ text, NumberChar c := by
  obtain ⟨-, -, digits, isDigits, signed⟩ := loose_number_iff.mp number
  cases signed with
  | unsigned => exact ⟨isDigits.some_digits, fun c here => .inl (isDigits.all c here)⟩
  | plus =>
    exact ⟨cons_ne_nil _ _, forall_mem_cons.mpr ⟨.inr (.inl rfl), fun c here => .inl (isDigits.all c here)⟩⟩
  | minus =>
    exact ⟨cons_ne_nil _ _, forall_mem_cons.mpr ⟨.inr (.inr rfl), fun c here => .inl (isDigits.all c here)⟩⟩

theorem numberChar_not_white (number : NumberChar c) : isLWS c = false := by
  rcases number with digit | rfl | rfl
  · cases white : isLWS c with
    | false => rfl
    | true =>
      simp only [isLWS, Bool.or_eq_true, decide_eq_true_eq] at white
      rcases white with (rfl | rfl) | rfl <;> revert digit <;> decide
  · rfl
  · rfl

theorem loose_number_nonneg (number : RangeSyntax.loose.number text n) (unsigned : 45 ∉ text) : 0 ≤ n := by
  obtain ⟨-, -, digits, isDigits, signed⟩ := loose_number_iff.mp number
  cases signed with
  | unsigned => exact Int.natCast_nonneg _
  | plus => exact Int.natCast_nonneg _
  | minus => exact absurd mem_cons_self unsigned

theorem isValid_iff {m suffix : Int} : (HttpByteRange.mk n m suffix false).isValid = true ↔
    suffix > 0 ∨ (n ≥ 0 ∧ (m = -1 ∨ m ≥ n)) := by
  rw [HttpByteRange.isValid, decide_eq_true_eq]
  rfl

theorem hasFirst_iff : range.hasFirstBytePosition = true ↔ range.firstBytePosition ≠ -1 := by
  rw [HttpByteRange.hasFirstBytePosition, decide_eq_true_eq]
  rfl

theorem setFirst_iff : setFirst first = some range ↔
    (∃ n, RangeSyntax.loose.number first n ∧ range = ⟨n, -1, -1, false⟩) ∨ (first = [] ∧ range = .new) := by
  unfold setFirst
  split
  next some_first =>
    simp only [map_eq_some_iff, bytePos_iff, some_first, false_and, or_false]
    exact ⟨fun ⟨n, number, eq⟩ => ⟨n, number, eq.symm⟩, fun ⟨n, number, eq⟩ => ⟨n, number, eq.symm⟩⟩
  next none =>
    cases not_not.mp none
    refine ⟨fun eq => .inr ⟨rfl, (some.inj eq).symm⟩, ?_⟩
    rintro (⟨n, number, -⟩ | ⟨-, rfl⟩)
    · exact absurd rfl (loose_number_chars number).1
    · rfl

theorem setLast_iff {range' : HttpByteRange} : setLast range last = some range' ↔
      (∃ m, RangeSyntax.loose.number last m ∧ range' =
        if range.hasFirstBytePosition then { range with lastBytePosition := m }
        else { range with suffixLength := m }) ∨
      (last = [] ∧ range.hasFirstBytePosition = true ∧ range' = range) := by
  unfold setLast
  split
  next some_last =>
    simp only [map_eq_some_iff, bytePos_iff, some_last, false_and, or_false]
    exact ⟨fun ⟨m, number, eq⟩ => ⟨m, number, eq.symm⟩, fun ⟨m, number, eq⟩ => ⟨m, number, eq.symm⟩⟩
  next none =>
    cases not_not.mp none
    have empty : ¬ ∃ m, RangeSyntax.loose.number [] m ∧ range' =
        if range.hasFirstBytePosition then { range with lastBytePosition := m }
        else { range with suffixLength := m } :=
      fun ⟨m, number, _⟩ => (loose_number_chars number).1 rfl
    rw [or_iff_right empty]
    cases given : range.hasFirstBytePosition with
    | false => simp
    | true => simp [eq_comm]

theorem rangeOf_iff (unsigned : 45 ∉ first) :
    rangeOf first last = some range ↔ RangeSyntax.loose.Ends first last range := by
  rw [rangeOf, filter_eq_some_iff, bind_eq_some_iff]
  constructor
  · rintro ⟨⟨front, isFront, whole⟩, valid⟩
    rcases setFirst_iff.mp isFront with ⟨n, isFirst, rfl⟩ | ⟨rfl, rfl⟩
    · have positive := loose_number_nonneg isFirst unsigned
      have given : (HttpByteRange.mk n (-1) (-1) false).hasFirstBytePosition = true :=
        hasFirst_iff.mpr (by change n ≠ -1; omega)
      rcases setLast_iff.mp whole with ⟨m, isLast, rfl⟩ | ⟨rfl, -, rfl⟩
      · rw [if_pos given] at valid ⊢
        have order : -1 > (0 : Int) ∨ (n ≥ 0 ∧ (m = -1 ∨ m ≥ n)) := isValid_iff.mp valid
        refine .both isFirst isLast ?_
        change n ≤ m ∨ m = -1
        omega
      · exact .first isFirst
    · rcases setLast_iff.mp whole with ⟨m, isLast, rfl⟩ | ⟨-, given, -⟩
      · have missing : HttpByteRange.new.hasFirstBytePosition = false := rfl
        rw [missing, if_neg Bool.false_ne_true] at valid ⊢
        have positive : m > 0 := by
          rcases isValid_iff.mp valid with positive | ⟨front, -⟩
          · exact positive
          · exact absurd front (by decide)
        exact .suffix isLast positive
      · cases given
  · intro ends
    cases ends with
    | @both _ _ n m isFirst isLast ordered =>
      have positive := loose_number_nonneg isFirst unsigned
      have given : (HttpByteRange.mk n (-1) (-1) false).hasFirstBytePosition = true :=
        hasFirst_iff.mpr (by change n ≠ -1; omega)
      have order : n ≤ m ∨ m = -1 := ordered
      refine ⟨⟨_, setFirst_iff.mpr (.inl ⟨n, isFirst, rfl⟩), setLast_iff.mpr (.inl ⟨m, isLast, ?_⟩)⟩,
        isValid_iff.mpr (by omega)⟩
      rw [if_pos given]
      rfl
    | @first _ n isFirst =>
      have positive := loose_number_nonneg isFirst unsigned
      have given : (HttpByteRange.mk n (-1) (-1) false).hasFirstBytePosition = true :=
        hasFirst_iff.mpr (by change n ≠ -1; omega)
      exact ⟨⟨_, setFirst_iff.mpr (.inl ⟨n, isFirst, rfl⟩), setLast_iff.mpr (.inr ⟨rfl, given, rfl⟩)⟩,
        isValid_iff.mpr (.inr ⟨positive, .inl rfl⟩)⟩
    | @suffix _ m isLast positive =>
      exact ⟨⟨_, setFirst_iff.mpr (.inr ⟨rfl, rfl⟩), setLast_iff.mpr (.inl ⟨m, isLast, rfl⟩)⟩,
        isValid_iff.mpr (.inl positive)⟩

theorem parseRange_cut {left right : RawText} (first : 45 ∉ left) :
    parseRange (left ++ 45 :: right) = rangeOf (trimLWS left) (trimLWS right) := by
  have before : ∀ c ∈ left, decide (c ≠ 45) = true := by
    intro c inLeft
    exact decide_eq_true fun eq => first (eq ▸ inLeft)
  rw [parseRange, if_neg (by simp), takeWhile_append_of_pos before, dropWhile_append_of_pos before]
  simp

theorem loose_padded_iff (bare : ∀ c ∈ word, isLWS c = false) :
    RangeSyntax.loose.Padded text word ↔ trimLWS text = word := by
  constructor
  · rintro ⟨before, behind, rfl, whiteBefore, whiteBehind⟩
    rw [trimLWS_around whiteBefore whiteBehind, trimLWS_bare bare]
  · rintro rfl
    exact trimLWS_padded text

theorem loose_ends_chars (ends : RangeSyntax.loose.Ends first last range) :
    (∀ c ∈ first, NumberChar c) ∧ ∀ c ∈ last, NumberChar c := by
  cases ends with
  | both isFirst isLast => exact ⟨(loose_number_chars isFirst).2, (loose_number_chars isLast).2⟩
  | first isFirst => exact ⟨(loose_number_chars isFirst).2, by simp⟩
  | suffix isLast => exact ⟨by simp, (loose_number_chars isLast).2⟩

theorem parseRange_iff {value : RawText} :
    parseRange value = some range ↔ RangeSyntax.loose.Denotes value range := by
  constructor
  · intro accepted
    have minus : 45 ∈ value := by
      by_contra missing
      rw [parseRange, if_pos missing] at accepted
      cases accepted
    obtain ⟨left, right, rfl, first⟩ := eq_append_cons_of_mem minus
    rw [parseRange_cut first, rangeOf_iff] at accepted
    · exact ⟨left, right, _, _, rfl, first, trimLWS_padded left, trimLWS_padded right, accepted⟩
    · intro inTrimmed
      obtain ⟨before, behind, eq, -⟩ := trimLWS_padded left
      rw [eq] at first
      exact first (mem_append_left _ (mem_append_right _ inTrimmed))
  · rintro ⟨left, right, first, last, rfl, noMinus, padFirst, padLast, ends⟩
    obtain ⟨firstChars, lastChars⟩ := loose_ends_chars ends
    have isFirst := (loose_padded_iff fun c here => numberChar_not_white (firstChars c here)).mp padFirst
    have isLast := (loose_padded_iff fun c here => numberChar_not_white (lastChars c here)).mp padLast
    have unsigned : 45 ∉ first := by
      obtain ⟨before, behind, eq, -⟩ := padFirst
      rw [eq] at noMinus
      exact fun here => noMinus (mem_append_left _ (mem_append_right _ here))
    rw [parseRange_cut noMinus, isFirst, isLast, rangeOf_iff unsigned]
    exact ends

theorem parseRange_trim (value : RawText) : parseRange (trimLWS value) = parseRange value := by
  obtain ⟨before, behind, eq, whiteBefore, whiteBehind⟩ := trimLWS_padded value
  have minus : ∀ text : RawText, White text → 45 ∉ text := fun text white here =>
    absurd (white 45 here) (by decide)
  by_cases here : 45 ∈ trimLWS value
  · obtain ⟨left, right, trimmed, first⟩ := eq_append_cons_of_mem here
    rw [trimmed] at eq ⊢
    have shape : value = (before ++ left) ++ 45 :: (right ++ behind) := by
      rw [eq]
      simp
    have still : 45 ∉ before ++ left := fun inText =>
      (mem_append.mp inText).elim (minus before whiteBefore) first
    have front := @trimLWS_around before left [] whiteBefore (by simp [White])
    have back := @trimLWS_around [] right behind (by simp [White]) whiteBehind
    rw [append_nil] at front
    rw [nil_append] at back
    rw [parseRange_cut first, shape, parseRange_cut still, front, back]
  · have missing : 45 ∉ value := by
      rw [eq, mem_append, mem_append]
      rintro ((inText | inText) | inText)
      · exact minus before whiteBefore inText
      · exact here inText
      · exact minus behind whiteBehind inText
    rw [parseRange, parseRange, if_pos here, if_pos missing]

section Lists

theorem forall₂_left {α β : Type} {R : α → β → Prop} {list : List α} {others : List β}
    (each : List.Forall₂ R list others) {a : α} (member : a ∈ list) : ∃ b ∈ others, R a b := by
  induction each with
  | nil => cases member
  | cons related _ ih =>
    rcases mem_cons.mp member with rfl | later
    · exact ⟨_, mem_cons_self, related⟩
    · obtain ⟨b, inOthers, related⟩ := ih later
      exact ⟨b, mem_cons_of_mem _ inOthers, related⟩

theorem parseRanges_iff {list : List RawText} : parseRanges list ranges = (true, out) ↔
      ∃ denoted, List.Forall₂ (fun value range => parseRange value = some range) list denoted ∧
        out = ranges ++ denoted ∧ out ≠ [] := by
  induction list generalizing ranges with
  | nil =>
    simp only [parseRanges, Prod.mk.injEq, decide_eq_true_eq, gt_iff_lt, length_pos_iff,
      List.forall₂_nil_left_iff]
    constructor
    · rintro ⟨some_ranges, rfl⟩
      exact ⟨[], rfl, (append_nil _).symm, some_ranges⟩
    · rintro ⟨_, rfl, rfl, some_ranges⟩
      rw [append_nil] at some_ranges ⊢
      exact ⟨some_ranges, rfl⟩
  | cons value list ih =>
    rw [parseRanges]
    cases read : parseRange value with
    | none =>
      refine iff_of_false (by simp) ?_
      rintro ⟨denoted, each, -⟩
      cases each with
      | cons first => cases read.symm.trans first
    | some range =>
      simp only [ih]
      constructor
      · rintro ⟨denoted, each, rfl, some_ranges⟩
        exact ⟨range :: denoted, .cons read each, by simp, some_ranges⟩
      · rintro ⟨_, each, rfl, some_ranges⟩
        cases each with
        | @cons _ first _ denoted isFirst each =>
          cases some.inj (read.symm.trans isFirst)
          exact ⟨denoted, each, by simp, some_ranges⟩

theorem items_iff : List.Forall₂ (fun value range => parseRange value = some range)
        ((elements.map trimLWS).filter (· ≠ [])) denoted ↔
      ∃ items, List.Forall₂ RangeSyntax.loose.Item elements items ∧ denoted = items.reduceOption := by
  induction elements generalizing denoted with
  | nil =>
    simp only [map_nil, filter_nil, List.forall₂_nil_left_iff, exists_eq_left]
    rfl
  | cons element elements ih =>
    by_cases empty : trimLWS element = []
    · have white : RangeSyntax.loose.Item element none := trimLWS_eq_nil_iff.mp empty
      rw [map_cons, filter_cons_of_neg (by simp [empty]), ih]
      constructor
      · rintro ⟨items, each, rfl⟩
        exact ⟨none :: items, .cons white each, rfl⟩
      · rintro ⟨_, each, rfl⟩
        cases each with
        | @cons _ item _ items isItem each =>
          cases item with
          | none => exact ⟨items, each, rfl⟩
          | some range =>
            have accepted := parseRange_iff.mpr isItem
            rw [← parseRange_trim, empty] at accepted
            cases accepted
    · rw [map_cons, filter_cons_of_pos (by simp [empty])]
      constructor
      · intro each
        cases each with
        | @cons _ range _ denoted isFirst each =>
          obtain ⟨items, rest, rfl⟩ := ih.mp each
          rw [parseRange_trim] at isFirst
          exact ⟨some range :: items, .cons (parseRange_iff.mp isFirst) rest, rfl⟩
      · rintro ⟨_, each, rfl⟩
        cases each with
        | @cons _ item _ items isItem each =>
          cases item with
          | none => exact absurd (trimLWS_white isItem) empty
          | some range =>
            have accepted := parseRange_iff.mpr isItem
            rw [← parseRange_trim] at accepted
            exact .cons accepted (ih.mpr ⟨items, each, rfl⟩)

theorem denotes_chars (denotes : RangeSyntax.loose.Denotes element range) :
    ∀ c ∈ element, isLWS c = true ∨ NumberChar c := by
  obtain ⟨left, right, first, last, rfl, -, ⟨b₁, b₂, rfl, white₁, white₂⟩,
    ⟨b₃, b₄, rfl, white₃, white₄⟩, ends⟩ := denotes
  obtain ⟨firstChars, lastChars⟩ := loose_ends_chars ends
  simp only [mem_append, mem_cons]
  rintro c (((here | here) | here) | rfl | ((here | here) | here))
  · exact .inl (white₁ c here)
  · exact .inr (firstChars c here)
  · exact .inl (white₂ c here)
  · exact .inr (.inr (.inr rfl))
  · exact .inl (white₃ c here)
  · exact .inr (lastChars c here)
  · exact .inl (white₄ c here)

theorem not_quote (plain : isLWS c = true ∨ NumberChar c) : c ∉ [39, 34] := by
  intro quote
  simp only [mem_cons, not_mem_nil, or_false] at quote
  have quotes : c = 39 ∨ c = 34 := quote
  rcases plain with white | digit | rfl | rfl
  · rcases quotes with rfl | rfl <;> revert white <;> decide
  · rcases quotes with rfl | rfl <;> revert digit <;> decide
  · exact absurd quotes (by decide)
  · exact absurd quotes (by decide)

variable {p : UInt8 → Bool}

theorem mem_splitOnP (inText : c ∈ text) : p c = true ∨ ∃ element ∈ text.splitOnP p, c ∈ element := by
  induction text with
  | nil => cases inText
  | cons d text ih =>
    obtain ⟨first, rest, split⟩ := exists_cons_of_ne_nil (splitOnP_ne_nil p text)
    rw [splitOnP_cons_eq_if_modifyHead, split]
    rw [split] at ih
    cases sep : p d with
    | true =>
      rcases mem_cons.mp inText with rfl | later
      · exact .inl sep
      · refine (ih later).imp_right fun ⟨element, member, here⟩ => ?_
        exact ⟨element, mem_cons_of_mem _ member, here⟩
    | false =>
      simp only [Bool.false_eq_true, if_false, modifyHead_cons, mem_cons, exists_eq_or_imp] at ih ⊢
      rcases mem_cons.mp inText with rfl | later
      · exact .inr (.inl (.inl rfl))
      · exact (ih later).imp_right (Or.imp_left .inr)

theorem mem_of_mem_splitOnP (member : element ∈ text.splitOnP p) (here : c ∈ element) : c ∈ text := by
  induction text generalizing element with
  | nil =>
    rw [splitOnP_nil, mem_singleton] at member
    rwa [member] at here
  | cons d text ih =>
    obtain ⟨first, rest, split⟩ := exists_cons_of_ne_nil (splitOnP_ne_nil p text)
    rw [splitOnP_cons_eq_if_modifyHead, split] at member
    rw [split] at ih
    cases sep : p d with
    | true =>
      rw [sep, if_pos (by rfl), mem_cons] at member
      rcases member with rfl | later
      · cases here
      · exact mem_cons_of_mem _ (ih later here)
    | false =>
      rw [sep, if_neg Bool.false_ne_true, modifyHead_cons, mem_cons] at member
      rcases member with rfl | later
      · rcases mem_cons.mp here with rfl | inFirst
        · exact mem_cons_self
        · exact mem_cons_of_mem _ (ih mem_cons_self inFirst)
      · exact mem_cons_of_mem _ (ih (mem_cons_of_mem _ later) here)

theorem values_eq {delimiter : UInt8}
    (unquoted : ∀ token ∈ (valuesTokenizer delimiter).tokens text, ∀ c ∈ token.text, c ∉ [39, 34]) :
    values text delimiter = ((text.splitOnP (· = delimiter)).map trimLWS).filter (· ≠ []) := by
  have pieces := tokens_splitOnP (t := valuesTokenizer delimiter) rfl text unquoted
  have same : (fun c => decide (c ∈ (valuesTokenizer delimiter).delims)) = fun c => decide (c = delimiter) := by
    funext c
    simp [valuesTokenizer]
  have texts : ((valuesTokenizer delimiter).tokens text).map (fun token => trimLWS token.text) =
      (((valuesTokenizer delimiter).tokens text).map Token.text).map trimLWS := by
    rw [List.map_map]
    rfl
  rw [values, texts, pieces, same]
  generalize text.splitOnP (fun c => decide (c = delimiter)) = elements
  induction elements with
  | nil => rfl
  | cons element elements ih =>
    by_cases empty : element = []
    · subst empty
      simpa [trimLWS] using ih
    · by_cases blank : trimLWS element = []
      · simpa [empty, blank] using ih
      · simpa [empty, blank] using ih

theorem set_iff {set : RawText} : parseRanges (values set 44) ranges = (true, out) ↔
      ∃ items, List.Forall₂ RangeSyntax.loose.Item (set.splitOnP (· = 44)) items ∧
        out = ranges ++ items.reduceOption ∧ out ≠ [] := by
  have use (unquoted : ∀ token ∈ (valuesTokenizer 44).tokens set, ∀ c ∈ token.text, c ∉ [39, 34]) :
      parseRanges (values set 44) ranges = (true, out) ↔
        ∃ items, List.Forall₂ RangeSyntax.loose.Item (set.splitOnP (· = 44)) items ∧
          out = ranges ++ items.reduceOption ∧ out ≠ [] := by
    rw [values_eq unquoted, parseRanges_iff]
    constructor
    · rintro ⟨denoted, each, rest⟩
      obtain ⟨items, isItems, rfl⟩ := items_iff.mp each
      exact ⟨items, isItems, rest⟩
    · rintro ⟨items, isItems, rest⟩
      exact ⟨_, items_iff.mpr ⟨items, isItems, rfl⟩, rest⟩
  constructor
  · intro accepted
    refine (use fun token member c here => ?_).mp accepted
    -- a value that is read holds no quote, and neither does the white space around it
    obtain ⟨denoted, each, -⟩ := parseRanges_iff.mp accepted
    obtain ⟨before, behind, eq, whiteBefore, whiteBehind⟩ := trimLWS_padded token.text
    rw [eq, mem_append, mem_append] at here
    rcases here with (here | here) | here
    · exact not_quote (.inl (whiteBefore c here))
    · have value : trimLWS token.text ∈ values set 44 := by
        refine mem_filter.mpr ⟨List.mem_map_of_mem member, ?_⟩
        exact decide_eq_true (ne_nil_of_mem here)
      obtain ⟨range, -, read⟩ := forall₂_left each value
      exact not_quote (denotes_chars (parseRange_iff.mp read) c here)
    · exact not_quote (.inl (whiteBehind c here))
  · rintro ⟨items, isItems, rest⟩
    refine (use fun token member c here => ?_).mpr ⟨items, isItems, rest⟩
    rcases mem_splitOnP (p := (· = 44)) (mem_of_mem_tokens member here) with
      sep | ⟨element, inSet, inElement⟩
    · rw [of_decide_eq_true sep]
      decide
    · obtain ⟨item, -, isItem⟩ := forall₂_left isItems inSet
      cases item with
      | none => exact not_quote (.inl (isItem c inElement))
      | some range => exact not_quote (denotes_chars isItem c inElement)

end Lists

section Header

variable {name : RawText}

theorem unit_chars (isUnit : name.map toLowerASCII = bytesUnit) :
    ∀ c ∈ name, c ≠ 0 ∧ c ≠ 9 ∧ c ≠ 32 ∧ c ≠ 43 := by
  intro c inName
  have inUnit : toLowerASCII c ∈ bytesUnit := isUnit ▸ List.mem_map_of_mem inName
  refine ⟨?_, ?_, ?_, ?_⟩
  all_goals
    rintro rfl
    revert inUnit
    decide

theorem unit_bare (isUnit : name.map toLowerASCII = bytesUnit) : ∀ c ∈ name, isLWS c = false := by
  intro c inName
  obtain ⟨nul, tab, blank, -⟩ := unit_chars isUnit c inName
  simp [isLWS, nul, tab, blank]

theorem specifier_cut {unit set : RawText} (first : 61 ∉ unit) :
    (unit ++ 61 :: set).takeWhile (· ≠ 61) = unit ∧ byteRangeSet (unit ++ 61 :: set) = set := by
  have before : ∀ c ∈ unit, decide (c ≠ 61) = true := by
    intro c inUnit
    exact decide_eq_true fun eq => first (eq ▸ inUnit)
  rw [byteRangeSet, takeWhile_append_of_pos before, dropWhile_append_of_pos before]
  simp

theorem parseRangeHeader_iff : parseRangeHeader text ranges = (true, out) ↔
      ∃ denoted, RangeSyntax.loose.Specifier text denoted ∧ out = ranges ++ denoted ∧ out ≠ [] := by
  constructor
  · intro accepted
    unfold parseRangeHeader at accepted
    split at accepted
    next => cases accepted
    next equals =>
      obtain ⟨unit, set, rfl, first⟩ := eq_append_cons_of_mem (not_not.mp equals)
      obtain ⟨isUnit, isSet⟩ := @specifier_cut unit set first
      rw [isUnit, isSet] at accepted
      split at accepted
      next => cases accepted
      next bytes =>
        rw [Bool.not_eq_true', Bool.not_eq_false, lowerCaseEqualsASCII_iff] at bytes
        obtain ⟨items, isItems, rest⟩ := set_iff.mp accepted
        exact ⟨_, ⟨unit, _, set, items, rfl, first, trimLWS_padded unit, bytes, isItems, rfl⟩, rest⟩
  · rintro ⟨_, ⟨unit, name, set, items, rfl, first, padded, bytes, isItems, rfl⟩, rest⟩
    obtain ⟨isUnit, isSet⟩ := @specifier_cut unit set first
    have trimmed := (loose_padded_iff (unit_bare bytes)).mp padded
    rw [parseRangeHeader, if_neg (by simp), isUnit, isSet, trimmed, lowerCaseEqualsASCII_iff.mpr bytes]
    exact set_iff.mpr ⟨items, isItems, rest⟩

end Header

section Plain

def PlainElement (element : RawText) : Prop := 0 ∉ element ∧ 43 ∉ element ∧ element.count 45 ≤ 1

theorem plain_number (plus : 43 ∉ word) (minus : 45 ∉ word) :
    RangeSyntax.loose.number word n ↔ RangeSyntax.rfc.number word n := by
  rw [loose_number_iff]
  constructor
  · rintro ⟨-, fits, digits, isDigits, signed⟩
    cases signed with
    | unsigned => exact ⟨isDigits, rfl, fits⟩
    | plus => exact absurd mem_cons_self plus
    | minus => exact absurd mem_cons_self minus
  · rintro ⟨isDigits, rfl, fits⟩
    exact ⟨by omega, fits, word, isDigits, .unsigned⟩

theorem digits_plain (number : RangeSyntax.rfc.number word n) : 0 ∉ word ∧ 43 ∉ word ∧ 45 ∉ word := by
  refine ⟨fun here => ?_, fun here => ?_, fun here => ?_⟩
  all_goals exact absurd (number.1.all _ here) (by decide)

theorem plain_blank (nul : 0 ∉ text) (here : c ∈ text) :
    RangeSyntax.loose.blank c ↔ RangeSyntax.rfc.blank c := by
  have other : c ≠ 0 := by
    rintro rfl
    exact nul here
  simp [RangeSyntax.loose, RangeSyntax.rfc, isLWS, other]

theorem rfc_blank_chars (blank : RangeSyntax.rfc.blank c) : c ≠ 0 ∧ c ≠ 43 ∧ c ≠ 45 := by
  have cases_blank : c = 32 ∨ c = 9 := blank
  rcases cases_blank with rfl | rfl <;> decide

variable {g h : RangeSyntax} {item : Option HttpByteRange}

theorem padded_imp (blank : ∀ c ∈ text, g.blank c → h.blank c) (padded : g.Padded text word) :
    h.Padded text word := by
  obtain ⟨before, behind, rfl, blankBefore, blankBehind⟩ := padded
  exact ⟨before, behind, rfl,
    fun c here => blank c (mem_append_left _ (mem_append_left _ here)) (blankBefore c here),
    fun c here => blank c (mem_append_right _ here) (blankBehind c here)⟩

theorem padded_mem {grammar : RangeSyntax} (padded : grammar.Padded text word) (here : c ∈ word) : c ∈ text := by
  obtain ⟨before, behind, rfl, -⟩ := padded
  exact mem_append_left _ (mem_append_right _ here)

theorem plain_ends (plusFirst : 43 ∉ first) (minusFirst : 45 ∉ first)
    (plusLast : 43 ∉ last) (minusLast : 45 ∉ last) :
    RangeSyntax.loose.Ends first last range ↔ RangeSyntax.rfc.Ends first last range := by
  constructor
  · intro ends
    cases ends with
    | @both _ _ n m isFirst isLast ordered =>
      have order : n ≤ m ∨ m = -1 := ordered
      have positive := loose_number_nonneg isLast minusLast
      refine .both ((plain_number plusFirst minusFirst).mp isFirst)
        ((plain_number plusLast minusLast).mp isLast) (show n ≤ m from ?_)
      omega
    | first isFirst => exact .first ((plain_number plusFirst minusFirst).mp isFirst)
    | suffix isLast positive => exact .suffix ((plain_number plusLast minusLast).mp isLast) positive
  · intro ends
    cases ends with
    | both isFirst isLast ordered =>
      exact .both ((plain_number plusFirst minusFirst).mpr isFirst)
        ((plain_number plusLast minusLast).mpr isLast) (.inl ordered)
    | first isFirst => exact .first ((plain_number plusFirst minusFirst).mpr isFirst)
    | suffix isLast positive => exact .suffix ((plain_number plusLast minusLast).mpr isLast) positive

theorem denotes_imp (plain : PlainElement element) (blank : ∀ c ∈ element, g.blank c → h.blank c)
    (ends : ∀ first last, 43 ∉ first → 45 ∉ first → 43 ∉ last → 45 ∉ last →
      g.Ends first last range → h.Ends first last range)
    (denotes : g.Denotes element range) : h.Denotes element range := by
  obtain ⟨-, plus, single⟩ := plain
  obtain ⟨left, right, first, last, rfl, noMinus, padFirst, padLast, isEnds⟩ := denotes
  have inLeft : ∀ c ∈ left, c ∈ left ++ 45 :: right := fun c here => mem_append_left _ here
  have inRight : ∀ c ∈ right, c ∈ left ++ 45 :: right :=
    fun c here => mem_append_right _ (mem_cons_of_mem _ here)
  have noMinusRight : 45 ∉ right := by
    intro here
    have more := count_pos_iff.mpr here
    rw [count_append, count_cons_self] at single
    omega
  exact ⟨left, right, first, last, rfl, noMinus, padded_imp (fun c here => blank c (inLeft c here)) padFirst,
    padded_imp (fun c here => blank c (inRight c here)) padLast,
    ends first last (fun here => plus (inLeft 43 (padded_mem padFirst here)))
      (fun here => noMinus (padded_mem padFirst here))
      (fun here => plus (inRight 43 (padded_mem padLast here)))
      (fun here => noMinusRight (padded_mem padLast here)) isEnds⟩

theorem plain_denotes (plain : PlainElement element) :
    RangeSyntax.loose.Denotes element range ↔ RangeSyntax.rfc.Denotes element range :=
  ⟨denotes_imp plain (fun _ here => (plain_blank plain.1 here).mp)
      fun _ _ plusFirst minusFirst plusLast minusLast =>
        (plain_ends plusFirst minusFirst plusLast minusLast).mp,
    denotes_imp plain (fun _ here => (plain_blank plain.1 here).mpr)
      fun _ _ plusFirst minusFirst plusLast minusLast =>
        (plain_ends plusFirst minusFirst plusLast minusLast).mpr⟩

theorem rfc_padded_plain (padded : RangeSyntax.rfc.Padded text word)
    (plain : 0 ∉ word ∧ 43 ∉ word ∧ 45 ∉ word) : 0 ∉ text ∧ 43 ∉ text ∧ 45 ∉ text := by
  obtain ⟨before, behind, rfl, blankBefore, blankBehind⟩ := padded
  have chars : ∀ c ∈ before ++ word ++ behind, c ∈ word ∨ (c ≠ 0 ∧ c ≠ 43 ∧ c ≠ 45) := by
    intro c here
    rw [mem_append, mem_append] at here
    rcases here with (here | here) | here
    · exact .inr (rfc_blank_chars (blankBefore c here))
    · exact .inl here
    · exact .inr (rfc_blank_chars (blankBehind c here))
  exact ⟨fun here => (chars 0 here).elim plain.1 fun other => other.1 rfl,
    fun here => (chars 43 here).elim plain.2.1 fun other => other.2.1 rfl,
    fun here => (chars 45 here).elim plain.2.2 fun other => other.2.2 rfl⟩

theorem rfc_denotes_plain (denotes : RangeSyntax.rfc.Denotes element range) : PlainElement element := by
  obtain ⟨left, right, first, last, rfl, -, padFirst, padLast, ends⟩ := denotes
  have plain : (0 ∉ first ∧ 43 ∉ first ∧ 45 ∉ first) ∧ 0 ∉ last ∧ 43 ∉ last ∧ 45 ∉ last := by
    cases ends with
    | both isFirst isLast => exact ⟨digits_plain isFirst, digits_plain isLast⟩
    | first isFirst => exact ⟨digits_plain isFirst, by simp⟩
    | suffix isLast => exact ⟨by simp, digits_plain isLast⟩
  have plainLeft := rfc_padded_plain padFirst plain.1
  have plainRight := rfc_padded_plain padLast plain.2
  refine ⟨?_, ?_, ?_⟩
  · simpa using ⟨plainLeft.1, plainRight.1⟩
  · simpa using ⟨plainLeft.2.1, plainRight.2.1⟩
  · rw [count_append, count_cons_self, count_eq_zero_of_not_mem plainLeft.2.2,
      count_eq_zero_of_not_mem plainRight.2.2]

theorem plain_item (plain : PlainElement element) :
    RangeSyntax.loose.Item element item ↔ RangeSyntax.rfc.Item element item := by
  cases item with
  | none =>
    exact ⟨fun blank c here => (plain_blank plain.1 here).mp (blank c here),
      fun blank c here => (plain_blank plain.1 here).mpr (blank c here)⟩
  | some range => exact plain_denotes plain

theorem rfc_item_plain (isItem : RangeSyntax.rfc.Item element item) : PlainElement element := by
  cases item with
  | none =>
    have chars := fun c here => rfc_blank_chars (isItem c here)
    refine ⟨fun here => (chars 0 here).1 rfl, fun here => (chars 43 here).2.1 rfl, ?_⟩
    rw [count_eq_zero_of_not_mem fun here => (chars 45 here).2.2 rfl]
    exact Nat.zero_le 1
  | some range => exact rfc_denotes_plain isItem

theorem plain_items (plain : ∀ element ∈ elements, PlainElement element)
    {items : List (Option HttpByteRange)} : List.Forall₂ RangeSyntax.loose.Item elements items ↔
      List.Forall₂ RangeSyntax.rfc.Item elements items := by
  induction elements generalizing items with
  | nil => rw [List.forall₂_nil_left_iff, List.forall₂_nil_left_iff]
  | cons element elements ih =>
    rw [forall_mem_cons] at plain
    simp only [List.forall₂_cons_left_iff, plain_item plain.1, ih plain.2]

def PlainRanges (text : RawText) : Prop :=
  0 ∉ text ∧ 43 ∉ text ∧ ∀ element ∈ (byteRangeSet text).splitOnP (· = 44), element.count 45 ≤ 1

theorem rfc_specifier : RangeSyntax.rfc.Specifier text denoted ↔
      RangeSyntax.loose.Specifier text denoted ∧ PlainRanges text := by
  constructor
  · rintro ⟨unit, name, set, items, rfl, first, padded, bytes, isItems, rfl⟩
    have plain : ∀ element ∈ set.splitOnP (· = 44), PlainElement element := by
      intro element member
      obtain ⟨item, -, isItem⟩ := forall₂_left isItems member
      exact rfc_item_plain isItem
    have nameChars : 0 ∉ name ∧ 43 ∉ name := by
      exact ⟨fun here => (unit_chars bytes 0 here).1 rfl, fun here => (unit_chars bytes 43 here).2.2.2 rfl⟩
    have unitChars : 0 ∉ unit ∧ 43 ∉ unit := by
      obtain ⟨before, behind, rfl, blankBefore, blankBehind⟩ := padded
      simp only [mem_append, not_or]
      exact ⟨⟨⟨fun here => (rfc_blank_chars (blankBefore 0 here)).1 rfl, nameChars.1⟩,
          fun here => (rfc_blank_chars (blankBehind 0 here)).1 rfl⟩,
        ⟨fun here => (rfc_blank_chars (blankBefore 43 here)).2.1 rfl, nameChars.2⟩,
          fun here => (rfc_blank_chars (blankBehind 43 here)).2.1 rfl⟩
    have setChars : 0 ∉ set ∧ 43 ∉ set := by
      constructor
      · intro here
        rcases mem_splitOnP (p := (· = 44)) here with sep | ⟨element, member, inElement⟩
        · exact absurd (of_decide_eq_true sep) (by decide)
        · exact (plain element member).1 inElement
      · intro here
        rcases mem_splitOnP (p := (· = 44)) here with sep | ⟨element, member, inElement⟩
        · exact absurd (of_decide_eq_true sep) (by decide)
        · exact (plain element member).2.1 inElement
    refine ⟨⟨unit, name, set, items, rfl, first,
      padded_imp (fun _ here => (plain_blank unitChars.1 here).mpr) padded, bytes,
      (plain_items plain).mpr isItems, rfl⟩, ?_, ?_, ?_⟩
    · simpa using ⟨unitChars.1, setChars.1⟩
    · simpa using ⟨unitChars.2, setChars.2⟩
    · rw [(specifier_cut first).2]
      exact fun element member => (plain element member).2.2
  · rintro ⟨⟨unit, name, set, items, rfl, first, padded, bytes, isItems, rfl⟩, nul, plus, single⟩
    rw [(specifier_cut first).2] at single
    have inText : ∀ c ∈ set, c ∈ unit ++ 61 :: set :=
      fun c here => mem_append_right _ (mem_cons_of_mem _ here)
    have plain : ∀ element ∈ set.splitOnP (· = 44), PlainElement element := fun element member =>
      ⟨fun here => nul (inText 0 (mem_of_mem_splitOnP member here)),
        fun here => plus (inText 43 (mem_of_mem_splitOnP member here)), single element member⟩
    have nulUnit : 0 ∉ unit := fun here => nul (mem_append_left _ here)
    exact ⟨unit, name, set, items, rfl, first,
      padded_imp (fun _ here => (plain_blank nulUnit here).mp) padded, bytes,
      (plain_items plain).mp isItems, rfl⟩

end Plain

/-- The header is accepted exactly as a byte-ranges-specifier, with its ranges appended, unless a text
that is one up to signs and NULs has a sign or a NUL, or has no range for an empty vector's success. -/
theorem parse_range_header_iff (text : RawText) (ranges : List HttpByteRange) :
    (∀ out, parseRangeHeader text ranges = (true, out) ↔
      ∃ denoted, RangeSyntax.rfc.Specifier text denoted ∧ denoted ≠ [] ∧ out = ranges ++ denoted) ↔
    ∀ denoted, RangeSyntax.loose.Specifier text denoted → ranges ++ denoted ≠ [] →
      PlainRanges text ∧ denoted ≠ [] := by
  constructor
  · intro exact_parse denoted specifier some_ranges
    obtain ⟨others, isOthers, some_others, same⟩ :=
      (exact_parse _).mp (parseRangeHeader_iff.mpr ⟨denoted, specifier, rfl, some_ranges⟩)
    rw [List.append_right_inj] at same
    exact ⟨(rfc_specifier.mp isOthers).2, same ▸ some_others⟩
  · intro plain out
    rw [parseRangeHeader_iff]
    constructor
    · rintro ⟨denoted, specifier, rfl, some_ranges⟩
      obtain ⟨isPlain, some_denoted⟩ := plain denoted specifier some_ranges
      exact ⟨denoted, rfc_specifier.mpr ⟨specifier, isPlain⟩, some_denoted, rfl⟩
    · rintro ⟨denoted, specifier, some_denoted, rfl⟩
      exact ⟨denoted, (rfc_specifier.mp specifier).1, rfl, List.append_ne_nil_of_right_ne_nil _ some_denoted⟩

/-- `bytes=1--1` -/
theorem signed_range_accepted : ¬ ∀ out, parseRangeHeader (bytesUnit ++ [61, 49, 45, 45, 49]) [] = (true, out) ↔
      ∃ denoted, RangeSyntax.rfc.Specifier (bytesUnit ++ [61, 49, 45, 45, 49]) denoted ∧
        denoted ≠ [] ∧ out = [] ++ denoted := by
  intro exact_parse
  have accepted : parseRangeHeader (bytesUnit ++ [61, 49, 45, 45, 49]) [] = (true, [⟨1, -1, -1, false⟩]) := rfl
  obtain ⟨denoted, specifier, -⟩ := (exact_parse _).mp accepted
  have plain := (rfc_specifier.mp specifier).2.2.2
  have set : byteRangeSet (bytesUnit ++ [61, 49, 45, 45, 49]) = [49, 45, 45, 49] := rfl
  rw [set, List.splitOnP_eq_singleton (by simp)] at plain
  exact absurd (plain _ List.mem_cons_self) (by decide)

end Glopen.Http

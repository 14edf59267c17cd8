import Glopen.Ftp.CtrlResponseBuffer
import Glopen.Lib.Lines

/-! The lines that are cut off the buffer, and what a status line is. -/
namespace Glopen.Ftp

open Glopen.Lines List Bool UInt8

theorem cr_ne_lf : cr ≠ lf := by decide

/-- The loop over the bytes before its pass for the byte `i`. -/
structure Scanned (buffer : Text) (before : List ParsedLine) (i : Nat)
    (state : Nat × List ParsedLine) : Prop where
  bound : state.1 ≤ i
  behind_lf : state.1 = 0 ∨ buffer[state.1 - 1]? = some lf
  cut : ∃ lines, cutFrom cr lf ([], []) (buffer.take i) = (lines, (buffer.take i).drop state.1) ∧
    state.2 = before ++ lines.map parseLine

theorem ends_iff {buffer : Text} {cutPos i : Nat} (inside : i < buffer.length) (bound : cutPos ≤ i)
    (behind_lf : cutPos = 0 ∨ buffer[cutPos - 1]? = some lf) :
    (i ≥ 1 && buffer[i - 1]? = some cr && buffer[i]? = some lf) = true ↔
      buffer[i] = lf ∧ ((buffer.take i).drop cutPos).getLast? = some cr := by
  have here : buffer[i]? = some buffer[i] := List.getElem?_eq_getElem inside
  have long : ((buffer.take i).drop cutPos).length = i - cutPos := by
    rw [length_drop, length_take, Nat.min_eq_left (Nat.le_of_lt inside)]
  simp only [and_eq_true, decide_eq_true_eq, here, Option.some.injEq]
  obtain new | started := Nat.eq_or_lt_of_le bound
  · -- the line is empty, and the byte before it is no carriage return
    subst new
    rw [Nat.sub_self] at long
    rw [length_eq_zero_iff.mp long]
    constructor
    · rintro ⟨⟨positive, is_cr⟩, -⟩
      obtain zero | is_lf := behind_lf
      · omega
      · rw [is_cr] at is_lf
        exact absurd (Option.some.inj is_lf) cr_ne_lf
    · rintro ⟨-, impossible⟩
      cases impossible
  · rw [List.getLast?_eq_getElem?, long, List.getElem?_drop, List.getElem?_take]
    have place : cutPos + (i - cutPos - 1) = i - 1 := by omega
    rw [place, if_pos (by omega)]
    constructor
    · rintro ⟨⟨-, is_cr⟩, is_lf⟩
      exact ⟨is_lf, is_cr⟩
    · rintro ⟨is_lf, is_cr⟩
      exact ⟨⟨by omega, is_cr⟩, is_lf⟩

theorem Scanned.step {buffer : Text} {before : List ParsedLine} {i : Nat}
    {state : Nat × List ParsedLine} (scanned : Scanned buffer before i state) (inside : i < buffer.length) :
    Scanned buffer before (i + 1) (extractStep buffer state i) := by
  obtain ⟨bound, behind_lf, lines, cut_eq, lines_eq⟩ := scanned
  have ends := ends_iff inside bound behind_lf
  have next : buffer.take (i + 1) = buffer.take i ++ [buffer[i]] := by
    rw [take_add_one, List.getElem?_eq_getElem inside, Option.toList_some]
  have stepped : cutFrom cr lf ([], []) (buffer.take (i + 1)) =
      Lines.step cr lf (lines, (buffer.take i).drop state.1) buffer[i] := by
    rw [next, cutFrom_append, cut_eq]
    rfl
  unfold extractStep
  split
  · rename_i is_end
    have at_end := ends.mp is_end
    have whole : ((buffer.take i).drop state.1).dropLast = (buffer.drop state.1).take (i - state.1 - 1) := by
      rw [drop_take, dropLast_eq_take, take_take, length_take, length_drop]
      congr 1
      omega
    refine ⟨Nat.le_refl _, .inr ?_, lines ++ [((buffer.take i).drop state.1).dropLast], ?_, ?_⟩
    · rw [Nat.add_sub_cancel, List.getElem?_eq_getElem inside, at_end.1]
    · have used : (buffer.take (i + 1)).drop (i + 1) = [] :=
        drop_eq_nil_of_le (length_take_le _ _)
      rw [stepped, Lines.step, if_pos at_end, used]
    · rw [map_append, lines_eq, append_assoc, whole]
      rfl
  · rename_i goes_on
    refine ⟨Nat.le_succ_of_le bound, behind_lf, lines, ?_, lines_eq⟩
    rw [stepped, Lines.step, if_neg (fun at_end => goes_on (ends.mpr at_end)), next, drop_append_of_le_length]
    rw [length_take]
    omega

theorem extractFullLinesFromBuffer_eq (s : FtpCtrlResponseBuffer) : s.extractFullLinesFromBuffer = { s with
      buffer := (cut cr lf s.buffer).2
      lines := s.lines ++ (cut cr lf s.buffer).1.map parseLine } := by
  have scan (i : Nat) (inside : i ≤ s.buffer.length) :
      Scanned s.buffer s.lines i ((List.range i).foldl (extractStep s.buffer) (0, s.lines)) := by
    induction i with
    | zero => exact ⟨Nat.le_refl _, .inl rfl, [], rfl, (append_nil _).symm⟩
    | succ i ih =>
      rw [range_succ, foldl_append]
      exact (ih (Nat.le_of_succ_le inside)).step inside
  obtain ⟨-, -, lines, cut_eq, lines_eq⟩ := scan s.buffer.length (Nat.le_refl _)
  rw [take_length] at cut_eq
  unfold FtpCtrlResponseBuffer.extractFullLinesFromBuffer
  simp only [cut, cut_eq, lines_eq]

section StatusLine

variable {c a b : UInt8} {code : Nat}

theorem digit_value (digit : isDigit c = true) : 48 ≤ c.toNat ∧ c.toNat ≤ 57 := by
  simp only [isDigit, and_eq_true, decide_eq_true_eq, le_iff_toNat_le] at digit
  exact digit

theorem digit_not_space (digit : isDigit c = true) : isSpace c = false := by
  have bounds := digit_value digit
  rw [← not_eq_true]
  intro space
  simp only [isSpace, or_eq_true, and_eq_true, decide_eq_true_eq, le_iff_toNat_le] at space
  obtain rfl | ⟨-, low⟩ := space
  · revert bounds
    decide
  · have : (13 : UInt8).toNat = 13 := rfl
    omega

def codeText (code : Nat) : Text :=
  [UInt8.ofNat (48 + code / 100), UInt8.ofNat (48 + code / 10 % 10), UInt8.ofNat (48 + code % 10)]

theorem stringToInt_digits (da : isDigit a = true) (db : isDigit b = true) (dc : isDigit c = true) :
    stringToInt [a, b, c] =
      ((((a.toNat - 48) * 100 + (b.toNat - 48) * 10 + (c.toNat - 48) : Nat) : Int), true) := by
  have plain := digit_not_space da
  have bounds := digit_value da
  have bounds_b := digit_value db
  have bounds_c := digit_value dc
  have no_minus : a ≠ 45 := by rintro rfl; revert da; decide
  have no_plus : a ≠ 43 := by rintro rfl; revert da; decide
  have read : strtol [a, b, c] = ((decimal [a, b, c] : Int), 3) := by
    simp [strtol, plain, no_minus, no_plus, da, db, dc]
  have value : decimal [a, b, c] = (a.toNat - 48) * 100 + (b.toNat - 48) * 10 + (c.toNat - 48) := by
    simp only [decimal, foldl_cons, foldl_nil]
    omega
  unfold stringToInt
  rw [read, value]
  have in_range : max (-2 ^ 31) (min (2 ^ 31 - 1)
      (((a.toNat - 48) * 100 + (b.toNat - 48) * 10 + (c.toNat - 48) : Nat) : Int)) =
      (((a.toNat - 48) * 100 + (b.toNat - 48) * 10 + (c.toNat - 48) : Nat) : Int) := by
    omega
  simp only [in_range]
  simp [plain]

theorem decimal_two (b c : UInt8) : decimal (([b, c] : Text).takeWhile isDigit) ≤ 99 := by
  cases db : isDigit b with
  | false => simp [db, decimal]
  | true =>
    have bounds_b := digit_value db
    cases dc : isDigit c with
    | false =>
      simp [db, dc, decimal]
      omega
    | true =>
      have bounds_c := digit_value dc
      simp [db, dc, decimal]
      omega

theorem digits_of_stringToInt (valid : (stringToInt [a, b, c]).2 = true)
    (large : 100 ≤ (stringToInt [a, b, c]).1) : isDigit a = true ∧ isDigit b = true ∧ isDigit c = true := by
  have at_least : 100 ≤ (strtol [a, b, c]).1 := by
    simp only [stringToInt] at large
    omega
  simp only [stringToInt, and_eq_true, not_eq_true', List.head?_cons, Option.any_some,
    length_cons, length_nil, decide_eq_true_eq] at valid
  obtain ⟨⟨⟨-, -⟩, all_read⟩, plain⟩ := valid
  by_cases minus : a = 45
  · subst minus
    simp [strtol, plain] at at_least
    split at at_least
    · omega
    · omega
  · by_cases plus : a = 43
    · subst plus
      have two := decimal_two b c
      simp [strtol, plain] at at_least
      split at at_least
      · omega
      · omega
    · cases da : isDigit a with
      | false => simp [strtol, plain, minus, plus, da] at all_read
      | true =>
        cases db : isDigit b with
        | false => simp [strtol, plain, minus, plus, da, db] at all_read
        | true =>
          cases dc : isDigit c with
          | false => simp [strtol, plain, minus, plus, da, db, dc] at all_read
          | true => exact ⟨rfl, rfl, rfl⟩

theorem codeText_digits (da : isDigit a = true) (db : isDigit b = true) (dc : isDigit c = true) :
    codeText ((a.toNat - 48) * 100 + (b.toNat - 48) * 10 + (c.toNat - 48)) = [a, b, c] := by
  have bounds_a := digit_value da
  have bounds_b := digit_value db
  have bounds_c := digit_value dc
  have first : 48 + ((a.toNat - 48) * 100 + (b.toNat - 48) * 10 + (c.toNat - 48)) / 100 = a.toNat := by
    omega
  have second : 48 + ((a.toNat - 48) * 100 + (b.toNat - 48) * 10 + (c.toNat - 48)) / 10 % 10 = b.toNat := by
    omega
  have third : 48 + ((a.toNat - 48) * 100 + (b.toNat - 48) * 10 + (c.toNat - 48)) % 10 = c.toNat := by
    omega
  rw [codeText, first, second, third, UInt8.ofNat_toNat, UInt8.ofNat_toNat, UInt8.ofNat_toNat]

theorem stringToInt_codeText (low : 100 ≤ code) (high : code ≤ 599) :
    stringToInt (codeText code) = ((code : Int), true) := by
  have first : (UInt8.ofNat (48 + code / 100)).toNat = 48 + code / 100 :=
    toNat_ofNat_of_lt' (show 48 + code / 100 < 256 by omega)
  have second : (UInt8.ofNat (48 + code / 10 % 10)).toNat = 48 + code / 10 % 10 :=
    toNat_ofNat_of_lt' (show 48 + code / 10 % 10 < 256 by omega)
  have third : (UInt8.ofNat (48 + code % 10)).toNat = 48 + code % 10 :=
    toNat_ofNat_of_lt' (show 48 + code % 10 < 256 by omega)
  have digit {n : Nat} {c : UInt8} (value : c.toNat = 48 + n) (small : n ≤ 9) : isDigit c = true := by
    have nine : (57 : UInt8).toNat = 57 := rfl
    have zero : (48 : UInt8).toNat = 48 := rfl
    simp only [isDigit, and_eq_true, decide_eq_true_eq, le_iff_toNat_le, value, nine, zero]
    omega
  rw [codeText, stringToInt_digits (digit first (by omega)) (digit second (by omega))
    (digit third (by omega)), first, second, third]
  congr 1
  omega

theorem codeText_length (code : Nat) : (codeText code).length = 3 := rfl

theorem parseLine_status (low : 100 ≤ code) (high : code ≤ 599) {mark : UInt8}
    (is_mark : mark = blank ∨ mark = dash) (text : Text) : parseLine (codeText code ++ mark :: text) = {
      hasStatusCode := true
      isMultiline := mark = dash
      isComplete := true
      statusCode := code
      statusText := text
      rawText := codeText code ++ mark :: text } := by
  have taken : (codeText code ++ mark :: text).take 3 = codeText code := rfl
  have fourth : (codeText code ++ mark :: text)[3]? = some mark := rfl
  have behind : (codeText code ++ mark :: text).drop 4 = text := rfl
  have long : (codeText code ++ mark :: text).length ≥ 3 := by
    rw [length_append, codeText_length]
    omega
  unfold parseLine
  rw [if_pos long, taken, fourth, behind, stringToInt_codeText low high]
  have in_range : (100 : Int) ≤ code ∧ (code : Int) ≤ 599 := by omega
  simp [in_range, is_mark]

theorem parseLine_complete {line : Text} (complete : (parseLine line).isComplete = true) :
    ∃ code mark text, 100 ≤ code ∧ code ≤ 599 ∧ (mark = blank ∨ mark = dash) ∧
      line = codeText code ++ mark :: text := by
  match line with
  | [] => simp [parseLine] at complete
  | [a] => simp [parseLine] at complete
  | [a, b] => simp [parseLine] at complete
  | [a, b, c] => simp [parseLine] at complete
  | a :: b :: c :: mark :: text =>
    have long : (a :: b :: c :: mark :: text).length ≥ 3 := by simp
    simp only [parseLine, if_pos long] at complete
    change ((stringToInt [a, b, c]).2 && 100 ≤ (stringToInt [a, b, c]).1 &&
      (stringToInt [a, b, c]).1 ≤ 599 && (some mark = some blank || some mark = some dash)) = true
      at complete
    simp only [and_eq_true, or_eq_true, decide_eq_true_eq, Option.some.injEq] at complete
    obtain ⟨⟨⟨valid, low⟩, high⟩, is_mark⟩ := complete
    obtain ⟨da, db, dc⟩ := digits_of_stringToInt valid low
    rw [stringToInt_digits da db dc] at low high
    refine ⟨(a.toNat - 48) * 100 + (b.toNat - 48) * 10 + (c.toNat - 48), mark, text, ?_, ?_, is_mark, ?_⟩
    · exact Int.ofNat_le.mp low
    · exact Int.ofNat_le.mp high
    · rw [codeText_digits da db dc]
      rfl

end StatusLine

end Glopen.Ftp

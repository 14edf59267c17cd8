import Mathlib.Data.List.TakeDrop
import Glopen.Lib.Run

/-! `net/base/escape.cc`: `UnescapeURLImpl` for units of any width from 8 bits on. A missing offset is
`npos`. -/
namespace Glopen.Net

open List BitVec

inductive CharType where
  | char | char16

abbrev CharType.bits : CharType → Nat
  | .char => 8
  | .char16 => 16

namespace UnescapeRule

def none : UInt32 := 0
def normal : UInt32 := 1
def spaces : UInt32 := 2
def urlSpecialChars : UInt32 := 4
def controlChars : UInt32 := 8
def replacePlusWithSpace : UInt32 := 16

end UnescapeRule

def flagged (rules flag : UInt32) : Bool := rules &&& flag ≠ 0

def kUrlUnescape : List Nat :=
  [0, 0, 0, 0, 0, 0, 0, 0, 0, 0, 0, 0, 0, 0, 0, 0, 0, 0, 0, 0, 0, 0, 0, 0, 0, 0, 0, 0, 0, 0, 0, 0,
   0, 1, 1, 0, 1, 0, 0, 1, 1, 1, 1, 0, 1, 1, 1, 1,
   1, 1, 1, 1, 1, 1, 1, 1, 1, 1, 1, 1, 1, 0, 1, 0,
   0, 1, 1, 1, 1, 1, 1, 1, 1, 1, 1, 1, 1, 1, 1, 1,
   1, 1, 1, 1, 1, 1, 1, 1, 1, 1, 1, 1, 1, 1, 1, 1,
   1, 1, 1, 1, 1, 1, 1, 1, 1, 1, 1, 1, 1, 1, 1, 1,
   1, 1, 1, 1, 1, 1, 1, 1, 1, 1, 1, 1, 1, 1, 1, 0]

/-- The values that the rules let `UnescapeURLImpl` write. -/
def unescapable (rules : UInt32) (value : Nat) : Bool :=
  128 ≤ value || kUrlUnescape.getD value 0 ≠ 0 ||
    (value = 32 && flagged rules UnescapeRule.spaces) ||
    (value > 32 && flagged rules UnescapeRule.urlSpecialChars) ||
    (value < 32 && flagged rules UnescapeRule.controlChars)

variable {w : Nat} {unit : BitVec w} {value : Nat} {high low : BitVec w} {rules : UInt32}
  {behind rest : List (BitVec w)}

section Unit

/-- The cast of a unit to `unsigned char`. -/
def narrow (unit : BitVec w) : Nat := unit.toNat % 256

def isHex (ch : BitVec w) : Bool :=
  (48 ≤ ch.toNat && ch.toNat ≤ 57) || (65 ≤ ch.toNat && ch.toNat ≤ 70) ||
    (97 ≤ ch.toNat && ch.toNat ≤ 102)

def hexToInt (ch : BitVec w) : Nat :=
  if 48 ≤ ch.toNat ∧ ch.toNat ≤ 57 then ch.toNat - 48
  else if 65 ≤ ch.toNat ∧ ch.toNat ≤ 70 then ch.toNat - 65 + 10
  else if 97 ≤ ch.toNat ∧ ch.toNat ≤ 102 then ch.toNat - 97 + 10
  else 0

def hexValue (high low : BitVec w) : Nat := hexToInt high * 16 + hexToInt low

/-- A unit that begins no escape, with `REPLACE_PLUS_WITH_SPACE` applied to it. -/
def plain (rules : UInt32) (unit : BitVec w) : BitVec w :=
  if flagged rules UnescapeRule.replacePlusWithSpace && unit.toNat = 43 then BitVec.ofNat w 32
  else unit

theorem hexToInt_le (ch : BitVec w) : hexToInt ch ≤ 15 := by
  unfold hexToInt
  split
  · omega
  split
  · omega
  split <;> omega

theorem hexValue_lt (high low : BitVec w) : hexValue high low < 256 := by
  have first := hexToInt_le high
  have second := hexToInt_le low
  unfold hexValue
  omega

variable {ch : BitVec w}

theorem narrow_of_isHex (hex : isHex ch = true) : narrow ch = ch.toNat := by
  simp only [isHex, Bool.or_eq_true, Bool.and_eq_true, decide_eq_true_eq] at hex
  exact Nat.mod_eq_of_lt (by omega)

theorem isHex_ne_percent (hex : isHex ch = true) : ch.toNat ≠ 37 := by
  simp only [isHex, Bool.or_eq_true, Bool.and_eq_true, decide_eq_true_eq] at hex
  omega

end Unit

section UnescapeURLImpl

structure Unescaped (w : Nat) where
  result : List (BitVec w)
  offset : Option Nat
deriving DecidableEq

def Unescaped.pushBack (state : Unescaped w) (unit : BitVec w) : Unescaped w :=
  { state with result := state.result ++ [unit] }

/-- The offset after a replacement behind `lengthBeforeAppend` units of the result. -/
def adjustOffset (lengthBeforeAppend : Nat) : Option Nat → Option Nat
  | none => none
  | some offset =>
    if offset > lengthBeforeAppend + 2 then some (offset - 2)
    else if offset > lengthBeforeAppend then none
    else some offset

variable {length : Nat}

theorem adjustOffset_before {offset : Nat} (before : offset ≤ length) :
    adjustOffset length (some offset) = some offset := by
  rw [adjustOffset, if_neg (by omega), if_neg (by omega)]

theorem adjustOffset_digit {digit : Nat} (positive : 0 < digit) (last : digit ≤ 2) :
    adjustOffset length (some (length + digit)) = none := by
  rw [adjustOffset, if_neg (by omega), if_pos (by omega)]

theorem adjustOffset_behind (length offset : Nat) :
    adjustOffset length (some (length + (offset + 3))) = some (length + 1 + offset) := by
  rw [adjustOffset, if_pos (by omega)]
  congr 1
  omega

def unescapeLoop (rules : UInt32) : List (BitVec w) → Unescaped w → Unescaped w
  | [], state => state
  | unit :: high :: low :: behind, state =>
    if 128 ≤ narrow unit then unescapeLoop rules (high :: low :: behind) (state.pushBack unit)
    else if narrow unit = 37 then
      if isHex high && isHex low then
        if unescapable rules (hexValue high low) then
          unescapeLoop rules behind
            { result := state.result ++ [BitVec.ofNat w (hexValue high low)],
              offset := adjustOffset state.result.length state.offset }
        else unescapeLoop rules (high :: low :: behind) (state.pushBack (BitVec.ofNat w 37))
      else unescapeLoop rules (high :: low :: behind) (state.pushBack (BitVec.ofNat w 37))
    else unescapeLoop rules (high :: low :: behind) (state.pushBack (plain rules unit))
  | unit :: rest, state =>
    if 128 ≤ narrow unit then unescapeLoop rules rest (state.pushBack unit)
    else unescapeLoop rules rest (state.pushBack (plain rules unit))

def unescapeURLImpl (escapedText : List (BitVec w)) (rules : UInt32) (offset : Option Nat) :
    Unescaped w :=
  let offset := offset.filter (· < escapedText.length)
  if rules = UnescapeRule.none then ⟨escapedText, offset⟩ else unescapeLoop rules escapedText ⟨[], offset⟩

def unescapeURLComponent (escapedText : List (BitVec w)) (rules : UInt32) : List (BitVec w) :=
  (unescapeURLImpl escapedText rules none).result

end UnescapeURLImpl

section Places

variable (rules : UInt32) (text : List (BitVec w))

/-- The value of the `%XX` triple at a place, when the rules allow it. -/
def tripleAt (i : Nat) : Option Nat :=
  match text.drop i with
  | unit :: high :: low :: _ =>
    if rules ≠ UnescapeRule.none ∧ unit.toNat = 37 ∧ isHex high ∧ isHex low ∧
        unescapable rules (hexValue high low) then
      some (hexValue high low)
    else none
  | _ => none

def InsideTriple (i : Nat) : Prop := ∃ start < i, i < start + 3 ∧ (tripleAt rules text start).isSome

instance (i : Nat) : Decidable (InsideTriple rules text i) :=
  inferInstanceAs (Decidable (∃ start < i, i < start + 3 ∧ (tripleAt rules text start).isSome))

def written (i : Nat) : List (BitVec w) :=
  match tripleAt rules text i with
  | some value => [BitVec.ofNat w value]
  | none => if InsideTriple rules text i then [] else text[i]?.toList.map (plain rules)

def writtenTo (n : Nat) : List (BitVec w) := (List.range n).flatMap (written rules text)

def unescaped : List (BitVec w) := writtenTo rules text text.length

def unescapedOffset (offset : Nat) : Option Nat :=
  if offset < text.length ∧ ¬ InsideTriple rules text offset then
    some (writtenTo rules text offset).length
  else none

variable {rules} {text}

theorem tripleAt_succ (unit : BitVec w) (i : Nat) :
    tripleAt rules (unit :: text) (i + 1) = tripleAt rules text i := rfl

theorem tripleAt_ne_percent (other : unit.toNat ≠ 37) : tripleAt rules (unit :: text) 0 = none := by
  simp only [tripleAt, drop_zero]
  split
  next eq =>
    cases eq
    exact if_neg fun holds => other holds.2.1
  next => rfl

theorem tripleAt_eq_some (triple : tripleAt rules text 0 = some value) :
    ∃ unit high low behind, text = unit :: high :: low :: behind ∧ unit.toNat = 37 ∧
      isHex high = true ∧ isHex low = true ∧ unescapable rules value = true ∧
      value = hexValue high low := by
  simp only [tripleAt, drop_zero] at triple
  split at triple
  next unit high low behind =>
    split at triple
    next holds =>
      cases triple
      exact ⟨unit, high, low, behind, rfl, holds.2.1, holds.2.2.1, holds.2.2.2.1, holds.2.2.2.2, rfl⟩
    next => cases triple
  next => cases triple

theorem not_inside_zero : ¬ InsideTriple rules text 0 := by
  rintro ⟨start, before, -⟩
  exact Nat.not_lt_zero start before

theorem inside_succ (unit : BitVec w) (i : Nat) : InsideTriple rules (unit :: text) (i + 1) ↔
    (i ≤ 1 ∧ (tripleAt rules (unit :: text) 0).isSome) ∨ InsideTriple rules text i := by
  constructor
  · rintro ⟨start, before, close, triple⟩
    cases start with
    | zero => exact .inl ⟨by omega, triple⟩
    | succ start => exact .inr ⟨start, by omega, by omega, triple⟩
  · rintro (⟨close, triple⟩ | ⟨start, before, close, triple⟩)
    · exact ⟨0, by omega, by omega, triple⟩
    · exact ⟨start + 1, by omega, by omega, triple⟩

section

variable (none : tripleAt rules (unit :: text) 0 = none)
include none

theorem inside_kept (i : Nat) : InsideTriple rules (unit :: text) (i + 1) ↔ InsideTriple rules text i := by
  rw [inside_succ, none]
  simp

theorem written_kept (i : Nat) : written rules (unit :: text) (i + 1) = written rules text i := by
  simp only [written, tripleAt_succ, inside_kept none, List.getElem?_cons_succ]

theorem written_zero : written rules (unit :: text) 0 = [plain rules unit] := by
  simp only [written, none, if_neg not_inside_zero]
  rfl

end

section

variable (triple : tripleAt rules (unit :: high :: low :: text) 0 = some value)
include triple

theorem inside_triple (i : Nat) :
    InsideTriple rules (unit :: high :: low :: text) (i + 3) ↔ InsideTriple rules text i := by
  obtain ⟨_, _, _, _, eq, -, hexHigh, hexLow, -⟩ := tripleAt_eq_some triple
  cases eq
  rw [inside_succ, inside_kept (tripleAt_ne_percent (isHex_ne_percent hexHigh)),
    inside_kept (tripleAt_ne_percent (isHex_ne_percent hexLow))]
  refine ⟨fun inside => inside.resolve_left fun front => ?_, .inr⟩
  omega

theorem written_triple (i : Nat) :
    written rules (unit :: high :: low :: text) (i + 3) = written rules text i := by
  simp only [written, tripleAt_succ, inside_triple triple, List.getElem?_cons_succ]

theorem inside_digits {i : Nat} (first : i ≤ 1) : InsideTriple rules (unit :: high :: low :: text) (i + 1) :=
  (inside_succ ..).mpr (.inl ⟨first, by rw [triple]; rfl⟩)

theorem writtenTo_triple (n : Nat) : writtenTo rules (unit :: high :: low :: text) (n + 3) =
      BitVec.ofNat w value :: writtenTo rules text n := by
  obtain ⟨_, _, _, _, eq, -, hexHigh, hexLow, -⟩ := tripleAt_eq_some triple
  cases eq
  have first : written rules (unit :: high :: low :: text) 0 = [BitVec.ofNat w value] := by
    simp only [written, triple]
  have second : written rules (unit :: high :: low :: text) 1 = [] := by
    simp only [written, tripleAt_succ, tripleAt_ne_percent (isHex_ne_percent hexHigh),
      if_pos (inside_digits triple (Nat.zero_le 1))]
  have third : written rules (unit :: high :: low :: text) 2 = [] := by
    simp only [written, tripleAt_succ, tripleAt_ne_percent (isHex_ne_percent hexLow),
      if_pos (inside_digits triple (Nat.le_refl 1))]
  simp only [writtenTo, range_succ_eq_map, map_cons, map_map, flatMap_cons,
    flatMap_map, Function.comp_apply, Nat.succ_eq_add_one, Nat.zero_add, Nat.reduceAdd, first,
    second, third, nil_append, singleton_append, Nat.add_assoc, written_triple triple]

theorem unescaped_triple :
    unescaped rules (unit :: high :: low :: text) = BitVec.ofNat w value :: unescaped rules text :=
  writtenTo_triple triple _

theorem unescapedOffset_triple (offset : Nat) :
    unescapedOffset rules (unit :: high :: low :: text) (offset + 3) =
      (unescapedOffset rules text offset).map (· + 1) := by
  simp only [unescapedOffset, inside_triple triple, writtenTo_triple triple, length_cons,
    Nat.add_lt_add_iff_right]
  split <;> rfl

end

section

variable (none : tripleAt rules (unit :: text) 0 = none)
include none

theorem writtenTo_kept (n : Nat) :
    writtenTo rules (unit :: text) (n + 1) = plain rules unit :: writtenTo rules text n := by
  simp only [writtenTo, range_succ_eq_map, flatMap_cons, flatMap_map,
    written_zero none, written_kept none, singleton_append]

theorem unescaped_kept : unescaped rules (unit :: text) = plain rules unit :: unescaped rules text :=
  writtenTo_kept none _

theorem unescapedOffset_kept (offset : Nat) : unescapedOffset rules (unit :: text) (offset + 1) =
      (unescapedOffset rules text offset).map (· + 1) := by
  simp only [unescapedOffset, inside_kept none, writtenTo_kept none, length_cons, Nat.add_lt_add_iff_right]
  split <;> rfl

end

theorem unescapedOffset_zero (unit : BitVec w) : unescapedOffset rules (unit :: text) 0 = some 0 :=
  if_pos ⟨Nat.succ_pos _, not_inside_zero⟩

end Places

section Loop

def loopTriple (rules : UInt32) : List (BitVec w) → Option Nat
  | unit :: high :: low :: _ =>
    if narrow unit = 37 ∧ isHex high ∧ isHex low ∧ unescapable rules (hexValue high low) then
      some (hexValue high low)
    else none
  | _ => none

def loopUnit (rules : UInt32) (unit : BitVec w) (rest : List (BitVec w)) : BitVec w :=
  if narrow unit = 37 ∧ 2 ≤ rest.length then BitVec.ofNat w 37 else plain rules unit

theorem plain_of_large (large : 128 ≤ narrow unit) : plain rules unit = unit := by
  have other : unit.toNat ≠ 43 := by
    intro eq
    rw [narrow, eq] at large
    omega
  simp [plain, other]

theorem loop_triple
    (triple : loopTriple rules (unit :: high :: low :: behind) = some value) (state : Unescaped w) :
    unescapeLoop rules (unit :: high :: low :: behind) state = unescapeLoop rules behind
      { result := state.result ++ [BitVec.ofNat w value],
        offset := adjustOffset state.result.length state.offset } := by
  simp only [loopTriple] at triple
  split at triple
  next holds =>
    cases triple
    have small : ¬ 128 ≤ narrow unit := by omega
    rw [unescapeLoop, if_neg small, if_pos holds.1, if_pos (by simp [holds.2.1, holds.2.2.1]),
      if_pos holds.2.2.2]
  next => cases triple

theorem loop_unit (none : loopTriple rules (unit :: rest) = none) (state : Unescaped w) :
    unescapeLoop rules (unit :: rest) state =
      unescapeLoop rules rest (state.pushBack (loopUnit rules unit rest)) := by
  match rest with
  | [] | [_] =>
    have single : ∀ rest : List (BitVec w), rest.length < 2 → loopUnit rules unit rest = plain rules unit :=
      fun _ short => if_neg fun both => Nat.not_le_of_lt short both.2
    rw [single _ (by simp)]
    by_cases large : 128 ≤ narrow unit
    · simp only [unescapeLoop, if_pos large, plain_of_large large]
    · simp only [unescapeLoop, if_neg large]
  | high :: low :: behind =>
    simp only [loopTriple, ite_eq_right_iff, reduceCtorEq, imp_false] at none
    by_cases large : 128 ≤ narrow unit
    · have single : loopUnit rules unit (high :: low :: behind) = unit := by
        rw [loopUnit, if_neg fun both => absurd both.1 (by omega), plain_of_large large]
      rw [unescapeLoop, if_pos large, single]
    by_cases percent : narrow unit = 37
    · have single : loopUnit rules unit (high :: low :: behind) = BitVec.ofNat w 37 :=
        if_pos ⟨percent, by simp⟩
      rw [unescapeLoop, if_neg large, if_pos percent, single]
      split
      next digits =>
        rw [Bool.and_eq_true] at digits
        exact if_neg fun allowed => none ⟨percent, digits.1, digits.2, allowed⟩
      next => rfl
    · have single : loopUnit rules unit (high :: low :: behind) = plain rules unit :=
        if_neg fun both => percent both.1
      rw [unescapeLoop, if_neg large, if_neg percent, single]

variable (rules) in
theorem loop_induction {P : List (BitVec w) → Prop} (nil : P [])
    (one : ∀ unit rest, loopTriple rules (unit :: rest) = none → P rest → P (unit :: rest))
    (triple : ∀ unit high low behind value,
      loopTriple rules (unit :: high :: low :: behind) = some value → P behind →
        P (unit :: high :: low :: behind))
    (text : List (BitVec w)) : P text := by
  induction h : text.length using Nat.strongRecOn generalizing text with
  | _ n ih =>
    subst h
    cases text with
    | nil => exact nil
    | cons unit rest =>
      cases read : loopTriple rules (unit :: rest) with
      | none => exact one unit rest read (ih _ (Nat.lt_succ_self _) rest rfl)
      | some value =>
        match rest with
        | [] | [_] => cases read
        | high :: low :: behind =>
          exact triple unit high low behind value read (ih _ (by simp only [length_cons]; omega) behind rfl)

theorem loop_result (text : List (BitVec w)) (state : Unescaped w) : (unescapeLoop rules text state).result =
      state.result ++ (unescapeLoop rules text ⟨[], none⟩).result := by
  induction text using loop_induction rules generalizing state with
  | nil => simp [unescapeLoop]
  | one unit rest none ih =>
    rw [loop_unit none, ih, loop_unit none, ih (Unescaped.pushBack _ _)]
    simp [Unescaped.pushBack]
  | triple unit high low behind value triple ih =>
    rw [loop_triple triple, ih, loop_triple triple, ih ⟨[] ++ _, _⟩]
    simp

theorem loop_offset_done (text : List (BitVec w)) (state : Unescaped w)
    (done : ∀ offset ∈ state.offset, offset < state.result.length) :
    (unescapeLoop rules text state).offset = state.offset := by
  induction text using loop_induction rules generalizing state with
  | nil => rfl
  | one unit rest none ih =>
    rw [loop_unit none]
    refine ih _ fun offset isOffset => ?_
    have before := done offset isOffset
    simp only [Unescaped.pushBack, length_append]
    omega
  | triple unit high low behind value triple ih =>
    have still : adjustOffset state.result.length state.offset = state.offset := by
      cases eq : state.offset with
      | none => rfl
      | some offset =>
        have before := done offset eq
        exact adjustOffset_before (Nat.le_of_lt before)
    rw [loop_triple triple, still]
    refine ih _ fun offset isOffset => ?_
    have before := done offset isOffset
    simp only [length_append]
    omega

end Loop

def ReplacesTriples {w : Nat} (text : List (BitVec w)) (rules : UInt32) : Prop :=
  unescapeURLComponent text rules = unescaped rules text ∧ ∀ offset,
    unescapeURLImpl text rules (some offset) =
      ⟨unescaped rules text, unescapedOffset rules text offset⟩

def PercentsGenuine {w : Nat} (text : List (BitVec w)) : Prop :=
  ∀ i unit, text[i]? = some unit → i + 2 < text.length → narrow unit = 37 → unit.toNat = 37

theorem percentsGenuine_nil : PercentsGenuine ([] : List (BitVec w)) := by
  intro i unit here
  cases here

theorem percentsGenuine_cons : PercentsGenuine (unit :: rest) ↔
      (2 ≤ rest.length → narrow unit = 37 → unit.toNat = 37) ∧ PercentsGenuine rest := by
  constructor
  · intro genuine
    refine ⟨fun two => genuine 0 unit rfl (by simp only [length_cons]; omega), ?_⟩
    intro i other here two
    exact genuine (i + 1) other here (by simp only [length_cons]; omega)
  · rintro ⟨first, others⟩ i other here two
    rw [length_cons] at two
    cases i with
    | zero =>
      cases here
      exact first (by omega)
    | succ i => exact others i other here (by omega)

theorem percentsGenuine_digit {digit : BitVec w} (hex : isHex digit = true) :
    PercentsGenuine (digit :: rest) ↔ PercentsGenuine rest := by
  rw [percentsGenuine_cons]
  refine and_iff_right fun _ percent => ?_
  rwa [narrow_of_isHex hex] at percent

theorem loopTriple_eq_some (triple : loopTriple rules (unit :: high :: low :: behind) = some value) :
    narrow unit = 37 ∧ isHex high = true ∧ isHex low = true ∧ unescapable rules value = true ∧
      value = hexValue high low := by
  simp only [loopTriple] at triple
  split at triple
  next holds =>
    cases triple
    exact ⟨holds.1, holds.2.1, holds.2.2.1, holds.2.2.2, rfl⟩
  next => cases triple

theorem narrow_percent (percent : unit.toNat = 37) : narrow unit = 37 := by
  rw [narrow, percent]

theorem loopTriple_genuine (active : rules ≠ UnescapeRule.none)
    (genuine : 2 ≤ rest.length → narrow unit = 37 → unit.toNat = 37) :
    loopTriple rules (unit :: rest) = tripleAt rules (unit :: rest) 0 := by
  match rest with
  | [] | [_] => rfl
  | high :: low :: behind =>
    have same : narrow unit = 37 ↔ unit.toNat = 37 :=
      ⟨genuine (by simp), narrow_percent⟩
    simp only [loopTriple, tripleAt, drop_zero, same, ne_eq, active, not_false_eq_true, true_and]

theorem plain_of_narrow (percent : narrow unit = 37) : plain rules unit = unit := by
  have other : unit.toNat ≠ 43 := by
    intro eq
    rw [narrow, eq] at percent
    omega
  simp [plain, other]

theorem loopUnit_genuine (genuine : 2 ≤ rest.length → narrow unit = 37 → unit.toNat = 37) :
    loopUnit rules unit rest = plain rules unit := by
  unfold loopUnit
  split
  next percent =>
    rw [plain_of_narrow percent.1, ← genuine percent.2 percent.1, ofNat_toNat, setWidth_eq]
  next => rfl

theorem ofNat_ne (percent : narrow unit = 37) (other : unit.toNat ≠ 37)
    (small : value < 256) : BitVec.ofNat w value ≠ unit := by
  rintro rfl
  rw [narrow, toNat_ofNat] at percent
  rw [toNat_ofNat] at other
  have least := Nat.mod_le value (2 ^ w)
  rw [Nat.mod_eq_of_lt (by omega)] at percent
  exact other percent

theorem loop_result_iff (active : rules ≠ UnescapeRule.none) (text : List (BitVec w)) :
    (unescapeLoop rules text ⟨[], none⟩).result = unescaped rules text ↔ PercentsGenuine text := by
  induction text using loop_induction rules with
  | nil => exact iff_of_true rfl percentsGenuine_nil
  | one unit rest none ih =>
    rw [loop_unit none, loop_result, percentsGenuine_cons, ← ih]
    by_cases genuine : 2 ≤ rest.length → narrow unit = 37 → unit.toNat = 37
    · rw [loopTriple_genuine active genuine] at none
      rw [unescaped_kept none, loopUnit_genuine genuine, and_iff_right genuine]
      simp [Unescaped.pushBack]
    · refine iff_of_false (fun eq => ?_) fun both => genuine both.1
      push Not at genuine
      obtain ⟨two, percent, other⟩ := genuine
      rw [unescaped_kept (tripleAt_ne_percent other), plain_of_narrow percent, loopUnit,
        if_pos ⟨percent, two⟩] at eq
      exact ofNat_ne percent other (by decide) (List.cons.inj eq).1
  | triple unit high low behind value triple ih =>
    obtain ⟨percent, hexHigh, hexLow, -, isValue⟩ := loopTriple_eq_some triple
    rw [loop_triple triple, loop_result, percentsGenuine_cons, percentsGenuine_digit hexHigh,
      percentsGenuine_digit hexLow, ← ih]
    by_cases genuine : unit.toNat = 37
    · rw [loopTriple_genuine active fun _ _ => genuine] at triple
      rw [unescaped_triple triple, and_iff_right fun _ _ => genuine]
      simp
    · refine iff_of_false (fun eq => ?_) fun both => genuine (both.1 (by simp) percent)
      rw [unescaped_kept (tripleAt_ne_percent genuine), plain_of_narrow percent] at eq
      exact ofNat_ne percent genuine (isValue ▸ hexValue_lt high low) (List.cons.inj eq).1

theorem loop_offset (active : rules ≠ UnescapeRule.none) {text : List (BitVec w)}
    (genuine : PercentsGenuine text) (result : List (BitVec w)) {k : Nat} (inText : k < text.length) :
    (unescapeLoop rules text ⟨result, some (result.length + k)⟩).offset =
      (unescapedOffset rules text k).map (result.length + ·) := by
  induction text using loop_induction rules generalizing result k with
  | nil => cases inText
  | one unit rest none ih =>
    obtain ⟨first, others⟩ := percentsGenuine_cons.mp genuine
    rw [loop_unit none]
    rw [loopTriple_genuine active first] at none
    cases k with
    | zero =>
      rw [loop_offset_done, unescapedOffset_zero]
      · rfl
      · rintro _ ⟨⟩
        simp [Unescaped.pushBack]
    | succ k =>
      have next := ih others (result ++ [loopUnit rules unit rest]) (Nat.lt_of_succ_lt_succ inText)
      rw [length_append, length_singleton, Nat.add_assoc, Nat.add_comm 1 k] at next
      rw [Unescaped.pushBack, next, unescapedOffset_kept none, Option.map_map]
      congr 1
      funext index
      simp only [Function.comp_apply]
      omega
  | triple unit high low behind value triple ih =>
    obtain ⟨percent, hexHigh, hexLow, -⟩ := loopTriple_eq_some triple
    rw [percentsGenuine_cons, percentsGenuine_digit hexHigh, percentsGenuine_digit hexLow] at genuine
    obtain ⟨first, others⟩ := genuine
    rw [loop_triple triple]
    rw [loopTriple_genuine active first] at triple
    match k with
    | 0 =>
      rw [Nat.add_zero, adjustOffset_before (Nat.le_refl _), loop_offset_done, unescapedOffset_zero]
      · rfl
      · rintro _ ⟨⟩
        simp
    | 1 | 2 =>
      rw [adjustOffset_digit (by decide) (by decide), loop_offset_done _ _ (by rintro _ ⟨⟩),
        unescapedOffset, if_neg fun both => both.2 (inside_digits triple (by decide))]
      rfl
    | k + 3 =>
      have next := ih others (result ++ [BitVec.ofNat w value]) (k := k)
        (by simp only [length_cons] at inText; omega)
      rw [length_append, length_singleton] at next
      rw [adjustOffset_behind, next, unescapedOffset_triple triple, Option.map_map]
      congr 1
      funext index
      simp only [Function.comp_apply]
      omega

theorem tripleAt_none (text : List (BitVec w)) : tripleAt UnescapeRule.none text 0 = none := by
  cases read : tripleAt UnescapeRule.none text 0 with
  | none => rfl
  | some value =>
    simp only [tripleAt] at read
    split at read
    next => simp at read
    next => cases read

theorem plain_none (unit : BitVec w) : plain UnescapeRule.none unit = unit := rfl

theorem unescaped_none (text : List (BitVec w)) : unescaped UnescapeRule.none text = text := by
  induction text with
  | nil => rfl
  | cons unit rest ih => rw [unescaped_kept (tripleAt_none _), ih, plain_none]

theorem unescapedOffset_none (text : List (BitVec w)) (offset : Nat) :
    unescapedOffset UnescapeRule.none text offset = (some offset).filter (· < text.length) := by
  induction text generalizing offset with
  | nil => rfl
  | cons unit rest ih =>
    cases offset with
    | zero => exact (unescapedOffset_zero unit).trans (by simp [Option.filter])
    | succ offset =>
      rw [unescapedOffset_kept (tripleAt_none _), ih]
      by_cases inText : offset < rest.length <;> simp [Option.filter, inText]

theorem unescapeURLImpl_none (text : List (BitVec w)) (offset : Option Nat) :
    unescapeURLImpl text UnescapeRule.none offset = ⟨text, offset.filter (· < text.length)⟩ := by
  rw [unescapeURLImpl, if_pos rfl]

theorem unescapeURLImpl_active (active : rules ≠ UnescapeRule.none) (text : List (BitVec w))
    (offset : Option Nat) : unescapeURLImpl text rules offset =
      unescapeLoop rules text ⟨[], offset.filter (· < text.length)⟩ := by
  rw [unescapeURLImpl, if_neg active]

theorem loop_result_offset (text : List (BitVec w)) (state : Unescaped w) (offset : Option Nat) :
    (unescapeLoop rules text { state with offset }).result = (unescapeLoop rules text state).result := by
  rw [loop_result, loop_result text state]

theorem replacesTriples_iff (text : List (BitVec w)) :
    ReplacesTriples text rules ↔ rules = UnescapeRule.none ∨ PercentsGenuine text := by
  by_cases active : rules = UnescapeRule.none
  · refine iff_of_true ⟨?_, fun offset => ?_⟩ (.inl active)
    · rw [active, unescapeURLComponent, unescapeURLImpl_none, unescaped_none]
    · rw [active, unescapeURLImpl_none, unescaped_none, unescapedOffset_none]
  · rw [or_iff_right active, ← loop_result_iff active]
    constructor
    · rintro ⟨component, -⟩
      rwa [unescapeURLComponent, unescapeURLImpl_active active] at component
    · intro same
      have genuine := (loop_result_iff active text).mp same
      refine ⟨by rwa [unescapeURLComponent, unescapeURLImpl_active active], fun offset => ?_⟩
      rw [unescapeURLImpl_active active]
      have written : ∀ offset, (unescapeLoop rules text ⟨[], offset⟩).result =
          unescaped rules text := fun offset => (loop_result_offset text ⟨[], none⟩ offset).trans same
      have adjusted : (unescapeLoop rules text ⟨[], (some offset).filter (· < text.length)⟩).offset =
          unescapedOffset rules text offset := by
        by_cases inText : offset < text.length
        · have found := loop_offset active genuine [] inText
          simp only [length_nil, Nat.zero_add, Option.map_id'] at found
          simpa [Option.filter, inText] using found
        · rw [unescapedOffset, if_neg fun both => inText both.1, loop_offset_done]
          all_goals simp [Option.filter, inText]
      rw [← written _, ← adjusted]

theorem percentsGenuine_bytes (text : List (BitVec 8)) : PercentsGenuine text := by
  intro i unit _ _ percent
  rwa [narrow, Nat.mod_eq_of_lt unit.isLt] at percent

/-- Unescaping changes only the escapes, in bytes always, and in 16-bit units exactly when no other
unit looks like a percent sign after the cast to `char`. -/
theorem unescape_changes_only_escapes_iff (charType : CharType)
    (text : List (BitVec charType.bits)) (rules : UInt32) : (charType = .char → ReplacesTriples text rules) ∧
      (ReplacesTriples text rules ↔ rules = UnescapeRule.none ∨ PercentsGenuine text) := by
  refine ⟨?_, replacesTriples_iff text⟩
  rintro rfl
  exact (replacesTriples_iff text).mpr (.inr (percentsGenuine_bytes text))

/-- U+0125 `41`: the letter is read as a percent sign. -/
theorem circumflex_unescaped : ¬ ReplacesTriples [0x125#16, 0x34#16, 0x31#16] UnescapeRule.normal := by
  intro replaces
  exact absurd replaces.1 (by decide)

end Glopen.Net

/-! `net/base/escape.cc`: `Escape` with its character maps, and the escapes of HTML, against the
functions that undo them. -/
namespace Glopen.Net

structure Charmap where
  map : Vector UInt32 8

def Charmap.contains (charmap : Charmap) (c : BitVec 8) : Bool :=
  have inMap : c.toNat / 32 < 8 := Nat.div_lt_of_lt_mul c.isLt
  charmap.map[c.toNat / 32] &&& (1 <<< UInt32.ofNat (c.toNat % 32)) ≠ 0

open List BitVec

def kHexString : List (BitVec 8) :=
  [48, 49, 50, 51, 52, 53, 54, 55, 56, 57, 65, 66, 67, 68, 69, 70]

def intToHex (i : Nat) : BitVec 8 := kHexString.getD i 0

/-- What a pass of `Escape` appends for a byte. -/
def escapeByte (charmap : Charmap) (usePlus : Bool) (c : BitVec 8) : List (BitVec 8) :=
  if usePlus && c = 32 then [43]
  else if charmap.contains c then [37, intToHex (c.toNat / 16), intToHex (c.toNat % 16)]
  else [c]

structure EscapeLoop where
  i : UInt32
  escaped : List (BitVec 8)

section Escape

variable (text : List (BitVec 8)) (charmap : Charmap) (usePlus : Bool)

/-- One pass; the index is an `unsigned int`, the length a `size_t`. -/
def escapeStep (state : EscapeLoop) : EscapeLoop ⊕ List (BitVec 8) :=
  if state.i.toNat < text.length then
    .inl ⟨state.i + 1, state.escaped ++ escapeByte charmap usePlus (text.getD state.i.toNat 0)⟩
  else .inr state.escaped

def escape (fuel : Nat) : Option (List (BitVec 8)) :=
  Run.loop (escapeStep text charmap usePlus) fuel ⟨0, []⟩

end Escape

def kQueryCharmap : Charmap :=
  ⟨#v[0xffffffff, 0xfc00987d, 0x78000001, 0xb8000001, 0xffffffff, 0xffffffff, 0xffffffff, 0xffffffff]⟩

def escapeQueryParamValue (text : List (BitVec 8)) (usePlus : Bool) (fuel : Nat) :
    Option (List (BitVec 8)) :=
  escape text kQueryCharmap usePlus fuel

def kPathCharmap : Charmap :=
  ⟨#v[0xffffffff, 0xd400002d, 0x78000000, 0xb8000001, 0xffffffff, 0xffffffff, 0xffffffff, 0xffffffff]⟩

def escapePath (path : List (BitVec 8)) (fuel : Nat) : Option (List (BitVec 8)) :=
  escape path kPathCharmap false fuel

def kUrlEscape : Charmap :=
  ⟨#v[0xffffffff, 0xf80008fd, 0x78000001, 0xb8000001, 0xffffffff, 0xffffffff, 0xffffffff, 0xffffffff]⟩

def escapeUrlEncodedData (path : List (BitVec 8)) (fuel : Nat) : Option (List (BitVec 8)) :=
  escape path kUrlEscape true fuel

variable {charmap : Charmap} {usePlus : Bool}

section Ends

variable {text : List (BitVec 8)}

theorem escape_passes (small : text.length < 2 ^ 32) {n : Nat} (inText : n ≤ text.length) :
    Run.Passes (escapeStep text charmap usePlus) ⟨0, []⟩
      ⟨UInt32.ofNat n, (text.take n).flatMap (escapeByte charmap usePlus)⟩ := by
  induction n with
  | zero => exact .refl
  | succ n ih =>
    refine .tail (ih (Nat.le_of_succ_le inText)) ?_
    have index : (UInt32.ofNat n).toNat = n := UInt32.toNat_ofNat_of_lt' (by
      change n < 2 ^ 32
      omega)
    have advance : UInt32.ofNat n + 1 = UInt32.ofNat (n + 1) := (UInt32.ofNat_add n 1).symm
    have here : text[n]? = some (text.getD n 0) := by
      rw [getD_eq_getElem?_getD, List.getElem?_eq_getElem inText, Option.getD_some]
    simp only [escapeStep, index, if_pos (Nat.lt_of_succ_le inText), advance]
    rw [take_add_one, here, Option.toList_some, flatMap_append, flatMap_singleton]

theorem escape_ends (small : text.length < 2 ^ 32) : Run.Ends (escapeStep text charmap usePlus) ⟨0, []⟩
      (text.flatMap (escapeByte charmap usePlus)) := by
  have passes : Run.Passes (escapeStep text charmap usePlus) _ _ :=
    escape_passes small (Nat.le_refl _)
  rw [take_length] at passes
  refine (passes.ends _).mpr (Run.ends_done ?_)
  have index : (UInt32.ofNat text.length).toNat = text.length := UInt32.toNat_ofNat_of_lt' small
  rw [escapeStep, index, if_neg (Nat.lt_irrefl _)]

theorem escape_never_ends (large : 2 ^ 32 ≤ text.length) (escaped : List (BitVec 8)) :
    ¬ Run.Ends (escapeStep text charmap usePlus) ⟨0, []⟩ escaped := by
  refine Run.never_ends (P := fun _ => True) (fun state _ => ?_) trivial escaped
  have inText : state.i.toNat < text.length := Nat.lt_of_lt_of_le state.i.toNat_lt large
  exact ⟨_, if_pos inText, trivial⟩

end Ends

/-- The rules that undo an escape: all of them, and a plus is a space where it was written for one. -/
def allRules (usePlus : Bool) : UInt32 :=
  UnescapeRule.normal ||| UnescapeRule.spaces ||| UnescapeRule.urlSpecialChars |||
    UnescapeRule.controlChars ||| if usePlus then UnescapeRule.replacePlusWithSpace else 0

structure Covers (charmap : Charmap) (usePlus : Bool) : Prop where
  percent : charmap.contains 37 = true
  plus : usePlus = true → charmap.contains 43 = true

theorem query_covers (usePlus : Bool) : Covers kQueryCharmap usePlus := ⟨by decide, fun _ => by decide⟩

theorem path_covers : Covers kPathCharmap false := ⟨by decide, by decide⟩

theorem url_covers : Covers kUrlEscape true := ⟨by decide, by decide⟩

theorem all_unescapable (value : Nat) : unescapable (allRules usePlus) value = true := by
  have spaces : flagged (allRules usePlus) UnescapeRule.spaces = true := by cases usePlus <;> decide
  have special : flagged (allRules usePlus) UnescapeRule.urlSpecialChars = true := by
    cases usePlus <;> decide
  have control : flagged (allRules usePlus) UnescapeRule.controlChars = true := by
    cases usePlus <;> decide
  simp only [unescapable, spaces, special, control, Bool.and_true, Bool.or_eq_true, decide_eq_true_eq]
  omega

theorem plus_flagged : flagged (allRules usePlus) UnescapeRule.replacePlusWithSpace = usePlus := by
  cases usePlus <;> decide

theorem intToHex_digit : ∀ i < 16, isHex (intToHex i) = true ∧ hexToInt (intToHex i) = i := by decide

def decoded (usePlus : Bool) (text : List (BitVec 8)) : List (BitVec 8) :=
  (unescapeLoop (allRules usePlus) text ⟨[], none⟩).result

theorem decoded_triple (c : BitVec 8) (rest : List (BitVec 8)) :
    decoded usePlus (37 :: intToHex (c.toNat / 16) :: intToHex (c.toNat % 16) :: rest) =
      c :: decoded usePlus rest := by
  obtain ⟨hexHigh, high⟩ := intToHex_digit (c.toNat / 16) (Nat.div_lt_of_lt_mul c.isLt)
  obtain ⟨hexLow, low⟩ := intToHex_digit (c.toNat % 16) (Nat.mod_lt _ (by decide))
  have value : hexValue (intToHex (c.toNat / 16)) (intToHex (c.toNat % 16)) = c.toNat := by
    rw [hexValue, high, low]
    omega
  have triple : loopTriple (allRules usePlus)
      (37 :: intToHex (c.toNat / 16) :: intToHex (c.toNat % 16) :: rest) = some c.toNat := by
    rw [loopTriple, value]
    exact if_pos ⟨by decide, hexHigh, hexLow, all_unescapable _⟩
  rw [decoded, loop_triple triple, loop_result, ofNat_toNat, setWidth_eq]
  rfl

theorem decoded_unit {c : BitVec 8} (other : c ≠ 37) (rest : List (BitVec 8)) :
    decoded usePlus (c :: rest) = plain (allRules usePlus) c :: decoded usePlus rest := by
  have different : ¬ narrow c = 37 := by
    intro percent
    rw [narrow, Nat.mod_eq_of_lt c.isLt] at percent
    exact other (eq_of_toNat_eq percent)
  have none : loopTriple (allRules usePlus) (c :: rest) = none := by
    unfold loopTriple
    split
    next eq =>
      cases eq
      exact if_neg fun holds => different holds.1
    next => rfl
  rw [decoded, loop_unit none, loop_result, loopUnit, if_neg fun both => different both.1]
  rfl

theorem decoded_escapeByte (covers : Covers charmap usePlus) (c : BitVec 8) (rest : List (BitVec 8)) :
    decoded usePlus (escapeByte charmap usePlus c ++ rest) = c :: decoded usePlus rest := by
  unfold escapeByte
  split
  next space =>
    rw [Bool.and_eq_true, decide_eq_true_eq] at space
    rw [singleton_append, decoded_unit (by decide), plain, plus_flagged, space.1, space.2]
    rfl
  split
  next => exact decoded_triple c rest
  next kept =>
    have percent : c ≠ 37 := by
      rintro rfl
      exact kept covers.percent
    have plus : (usePlus && decide (c.toNat = 43)) = false := by
      cases usePlus with
      | false => rfl
      | true =>
        refine decide_eq_false fun isPlus => kept ?_
        rw [eq_of_toNat_eq (y := 43) isPlus]
        exact covers.plus rfl
    rw [singleton_append, decoded_unit percent, plain, plus_flagged, if_neg (by rw [plus]; decide)]

theorem decoded_escaped (covers : Covers charmap usePlus) (text : List (BitVec 8)) :
    decoded usePlus (text.flatMap (escapeByte charmap usePlus)) = text := by
  induction text with
  | nil => rfl
  | cons c text ih => rw [flatMap_cons, decoded_escapeByte covers, ih]

theorem unescapeURLComponent_allRules (text : List (BitVec 8)) :
    unescapeURLComponent text (allRules usePlus) = decoded usePlus text := by
  have active : allRules usePlus ≠ UnescapeRule.none := by cases usePlus <;> decide
  rw [unescapeURLComponent, unescapeURLImpl_active active]
  rfl

def RoundTrips (escapes : List (BitVec 8) → Nat → Option (List (BitVec 8))) (rules : UInt32)
    (text : List (BitVec 8)) : Prop :=
  ∃ fuel escaped, escapes text fuel = some escaped ∧ unescapeURLComponent escaped rules = text

theorem escape_roundTrips_iff (covers : Covers charmap usePlus) (text : List (BitVec 8)) :
    RoundTrips (fun text => escape text charmap usePlus) (allRules usePlus) text ↔ text.length < 2 ^ 32 := by
  constructor
  · rintro ⟨fuel, escaped, ran, -⟩
    by_contra large
    exact escape_never_ends (Nat.le_of_not_lt large) escaped ⟨fuel, ran⟩
  · intro small
    obtain ⟨fuel, ran⟩ : Run.Ends (escapeStep text charmap usePlus) _ _ := escape_ends small
    exact ⟨fuel, _, ran, (unescapeURLComponent_allRules _).trans (decoded_escaped covers text)⟩

/-- A row of `kCharsToEscape` or of `kEscapeToChars`. -/
structure HtmlCode where
  key : BitVec 16
  code : List (BitVec 16)
deriving DecidableEq

def kCharsToEscape : List HtmlCode :=
  [⟨60, [38, 108, 116, 59]⟩, ⟨62, [38, 103, 116, 59]⟩, ⟨38, [38, 97, 109, 112, 59]⟩,
   ⟨34, [38, 113, 117, 111, 116, 59]⟩, ⟨39, [38, 35, 51, 57, 59]⟩]

def appendEscapedCharForHTML (c : BitVec 16) (output : List (BitVec 16)) : List (BitVec 16) :=
  match kCharsToEscape.find? fun row => c = row.key with
  | some row => output ++ row.code
  | none => output ++ [c]

def escapeForHTML (input : List (BitVec 16)) : List (BitVec 16) :=
  input.foldl (fun result c => appendEscapedCharForHTML c result) []

def kEscapeToChars : List HtmlCode :=
  [⟨60, [38, 108, 116, 59]⟩, ⟨62, [38, 103, 116, 59]⟩, ⟨38, [38, 97, 109, 112, 59]⟩,
   ⟨34, [38, 113, 117, 111, 116, 59]⟩, ⟨39, [38, 35, 51, 57, 59]⟩]

/-- The first row whose code `text.find` finds at the index itself. -/
def codeAt (text : List (BitVec 16)) (index : Nat) : Option HtmlCode :=
  kEscapeToChars.find? fun row => row.code.isPrefixOf (text.drop index)

structure HtmlLoop where
  index : Nat
  text : List (BitVec 16)

def htmlStep (state : HtmlLoop) : HtmlLoop ⊕ List (BitVec 16) :=
  match state.text[state.index]? with
  | none => .inr state.text
  | some c =>
    if c = 38 then
      match codeAt state.text state.index with
      | some row =>
        .inl ⟨state.index + 1, state.text.take state.index ++ [row.key] ++
          state.text.drop (state.index + row.code.length)⟩
      | none => .inl ⟨state.index + 1, state.text⟩
    else .inl ⟨state.index + 1, state.text⟩

def unescapeForHTML (input : List (BitVec 16)) (fuel : Nat) : Option (List (BitVec 16)) :=
  if 38 ∉ input then some input else Run.loop htmlStep fuel ⟨0, input⟩

/-- What `EscapeForHTML` writes for a unit. -/
def htmlUnit (c : BitVec 16) : List (BitVec 16) := appendEscapedCharForHTML c []

theorem appendEscapedCharForHTML_eq (c : BitVec 16) (output : List (BitVec 16)) :
    appendEscapedCharForHTML c output = output ++ htmlUnit c := by
  unfold htmlUnit appendEscapedCharForHTML
  split <;> rfl

theorem escapeForHTML_eq (input : List (BitVec 16)) : escapeForHTML input = input.flatMap htmlUnit := by
  simp only [escapeForHTML, appendEscapedCharForHTML_eq, foldl_append_eq_append]
  rfl

theorem htmlUnit_cases (c : BitVec 16) : (∃ row ∈ kEscapeToChars, row.key = c ∧ htmlUnit c = row.code) ∨
    (c ≠ 38 ∧ htmlUnit c = [c]) := by
  unfold htmlUnit appendEscapedCharForHTML
  split
  next row found =>
    have key := List.find?_some found
    exact .inl ⟨row, List.mem_of_find?_eq_some found, (of_decide_eq_true key).symm, rfl⟩
  next none =>
    refine .inr ⟨?_, rfl⟩
    rintro rfl
    cases none

theorem codeAt_code {row : HtmlCode} (inTable : row ∈ kEscapeToChars) (before behind : List (BitVec 16)) :
    codeAt (before ++ (row.code ++ behind)) before.length = some row ∧ row.code.head? = some 38 := by
  rw [codeAt, drop_left]
  simp only [kEscapeToChars, mem_cons, not_mem_nil, or_false] at inTable
  rcases inTable with rfl | rfl | rfl | rfl | rfl <;> exact ⟨rfl, rfl⟩

theorem html_pass (before : List (BitVec 16)) (c : BitVec 16) (behind : List (BitVec 16)) :
    htmlStep ⟨before.length, before ++ (htmlUnit c ++ behind)⟩ =
      .inl ⟨(before ++ [c]).length, before ++ [c] ++ behind⟩ := by
  rw [length_append, length_singleton]
  rcases htmlUnit_cases c with ⟨row, inTable, rfl, unit⟩ | ⟨other, unit⟩
  · obtain ⟨found, first⟩ := codeAt_code inTable before behind
    obtain ⟨tail, code⟩ := List.head?_eq_some_iff.mp first
    have here : (before ++ (row.code ++ behind))[before.length]? = some 38 := by
      rw [code]
      simp
    have rest : (before ++ (row.code ++ behind)).drop (before.length + row.code.length) = behind := by
      rw [← List.append_assoc, ← length_append, drop_left]
    simp only [unit, htmlStep, here, found, if_pos, take_left, rest]
  · have here : (before ++ ([c] ++ behind))[before.length]? = some c := by simp
    simp only [unit, htmlStep, here, if_neg other, List.append_assoc]

theorem html_passes (text before : List (BitVec 16)) :
    Run.Passes htmlStep ⟨before.length, before ++ text.flatMap htmlUnit⟩
      ⟨(before ++ text).length, before ++ text⟩ := by
  induction text generalizing before with
  | nil => simpa using Relation.ReflTransGen.refl
  | cons c text ih =>
    have next := ih (before ++ [c])
    rw [List.append_assoc before [c] text, singleton_append] at next
    exact .head (html_pass before c _) next

theorem html_ends (text : List (BitVec 16)) : Run.Ends htmlStep ⟨0, escapeForHTML text⟩ text := by
  rw [escapeForHTML_eq]
  refine ((html_passes text []).ends text).mpr (Run.ends_done ?_)
  simp only [htmlStep, nil_append, List.getElem?_eq_none (Nat.le_refl _)]

theorem escapeForHTML_plain {text : List (BitVec 16)} (plain : 38 ∉ escapeForHTML text) :
    escapeForHTML text = text := by
  rw [escapeForHTML_eq] at plain ⊢
  have single : ∀ c ∈ text, htmlUnit c = [c] := by
    intro c inText
    rcases htmlUnit_cases c with ⟨row, inTable, rfl, unit⟩ | ⟨-, unit⟩
    · have first := (codeAt_code inTable [] []).2
      exact absurd (List.mem_flatMap.mpr ⟨_, inText, unit ▸ List.mem_of_mem_head? first⟩) plain
    · exact unit
  rw [flatMap_congr single, flatMap_singleton']

theorem html_round_trip (text : List (BitVec 16)) :
    ∃ fuel, unescapeForHTML (escapeForHTML text) fuel = some text := by
  by_cases plain : 38 ∉ escapeForHTML text
  · exact ⟨0, (if_pos plain).trans (congrArg some (escapeForHTML_plain plain))⟩
  · obtain ⟨fuel, ran⟩ := html_ends text
    exact ⟨fuel, (if_neg plain).trans ran⟩

/-- Every escape of a byte string comes back exactly when the string is shorter than 4 GiB: from
there on the 32-bit index of `Escape` never reaches the length. HTML escapes always come back. -/
theorem escapes_round_trip_iff (text : List (BitVec 8)) (wide : List (BitVec 16)) (usePlus : Bool) :
    (RoundTrips (escapeQueryParamValue · usePlus) (allRules usePlus) text ↔ text.length < 2 ^ 32) ∧
    (RoundTrips escapePath (allRules false) text ↔ text.length < 2 ^ 32) ∧
    (RoundTrips escapeUrlEncodedData (allRules true) text ↔ text.length < 2 ^ 32) ∧
    ∃ fuel, unescapeForHTML (escapeForHTML wide) fuel = some wide :=
  ⟨escape_roundTrips_iff (query_covers usePlus) text, escape_roundTrips_iff path_covers text,
    escape_roundTrips_iff url_covers text, html_round_trip wide⟩

/-- 4 GiB of the letter `a`. -/
theorem long_path_not_escaped : ¬ RoundTrips escapePath (allRules false) (List.replicate (2 ^ 32) 0x61#8) := by
  intro trip
  have short := (escape_roundTrips_iff path_covers _).mp trip
  rw [List.length_replicate] at short
  exact Nat.lt_irrefl _ short

end Glopen.Net

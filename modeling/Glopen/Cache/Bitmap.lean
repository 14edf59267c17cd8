import Mathlib.Data.BitVec
import Glopen.Lib.BitTable

/-! The word operations of a bitmap, and the array of bits that they stand for. -/
namespace Glopen.Cache

open BitTable List BitVec Bool

/-- A `Bitmap`: the words at `map_` and the members beside them. -/
structure Bitmap where
  map : Table 32
  numBits : Nat
  arraySize : Int
  alloc : Bool

namespace Bitmap

/-- `RequiredArraySize`, in `int`s. -/
def requiredArraySize (numBits : Nat) : Int :=
  if numBits ≤ 32 then 1 else ((numBits : Int) + 31).bmod (2 ^ 32) / 32

def sought (value : Bool) (word : BitVec 32) : BitVec 32 := if value then word else ~~~word

def set (map : Table 32) (index : Nat) (value : Bool) : Table 32 :=
  if value then BitTable.set map index else BitTable.clear map index

def setWordBits (map : Table 32) (start len : Nat) (value : Bool) : Table 32 :=
  if len = 0 then map
  else
    let toAdd := (~~~(0xffffffff#32 <<< len)) <<< (start % 32)
    fun k =>
      if k = start / 32 then if value then map k ||| toAdd else map k &&& ~~~toAdd else map k

/-- The `memset` of whole words. -/
def setWords (map : Table 32) (word count : Nat) (value : Bool) : Table 32 := fun k =>
  if word ≤ k ∧ k < word + count then if value then 0xffffffff#32 else 0#32 else map k

/-- `SetRange` behind its first word. -/
def setRest (map : Table 32) (begin limit : Nat) (value : Bool) : Table 32 :=
  if begin = limit then map
  else
    let endOffset := limit % 32
    let limit := limit - endOffset
    setWords (setWordBits map limit endOffset value) (begin / 32) (limit / 32 - begin / 32) value

def setRange (map : Table 32) (begin limit : Nat) (value : Bool) : Table 32 :=
  let startOffset := begin % 32
  if startOffset ≠ 0 then
    let len := min (limit - begin) (32 - startOffset)
    setRest (setWordBits map begin len value) (begin + len) limit value
  else setRest map begin limit value

def testLast (map : Table 32) (value : Bool) (lastWord lastOffset offset : Nat) : Bool :=
  let mask := ((2#32 <<< (lastOffset - offset)) - 1#32) <<< offset
  sought value (map lastWord) &&& mask != 0#32

def testRange (map : Table 32) (begin limit : Nat) (value : Bool) : Bool :=
  if begin ≥ limit ∨ limit = 0 then false
  else
    let word := begin / 32
    let offset := begin % 32
    let lastWord := (limit - 1) / 32
    let lastOffset := (limit - 1) % 32
    if word < lastWord then
      sought value (map word) >>> offset != 0#32 || (List.range' (word + 1) (lastWord - (word + 1))).any
          (fun word => sought value (map word) != 0#32) ||
        testLast map value lastWord lastOffset 0
    else testLast map value lastWord lastOffset offset

section Finding

variable (findLSBSetNonZero : BitVec 32 → Nat)

def findWord (map : Table 32) (value : Bool) (lastBitOffset : Nat) : Nat → Nat → BitVec 32 → Option Nat
  | 0, wordIndex, oneWord =>
    let mask := 0xfffffffe#32 <<< lastBitOffset
    let oneWord := if value then oneWord &&& ~~~mask else oneWord ||| mask
    if oneWord ≠ (if value then 0#32 else 0xffffffff#32) then
      some (32 * wordIndex + findLSBSetNonZero (sought value oneWord))
    else none
  | turns + 1, wordIndex, oneWord =>
    if oneWord ≠ (if value then 0#32 else 0xffffffff#32) then
      some (32 * wordIndex + findLSBSetNonZero (sought value oneWord))
    else findWord map value lastBitOffset turns (wordIndex + 1) (map (wordIndex + 1))

/-- `FindNextBit`, which leaves its index as it is when it returns false. -/
def findNextBit (map : Table 32) (index limit : Nat) (value : Bool) : Option Nat :=
  if index ≥ limit ∨ limit = 0 then none
  else if get map index = value then some index
  else
    let mask := 0xffffffff#32 <<< (index % 32)
    let oneWord := if value then map (index / 32) &&& mask else map (index / 32) ||| ~~~mask
    findWord findLSBSetNonZero map value ((limit - 1) % 32) ((limit - 1) / 32 - index / 32)
      (index / 32) oneWord

def findBits (map : Table 32) (index limit : Nat) (value : Bool) : Nat × Nat :=
  match findNextBit findLSBSetNonZero map index limit value with
  | none => (index, 0)
  | some index =>
    match findNextBit findLSBSetNonZero map index limit !value with
    | none => (index, limit - index)
    | some last => (index, last - index)

end Finding

/-- `Resize`, where `fresh` is what `new` returns. A negative size cannot be allocated. -/
def resize (fresh : Table 32) (b : Bitmap) (numBits : Nat) (clearBits : Bool) : Option Bitmap :=
  let arraySize := requiredArraySize numBits
  if arraySize ≠ b.arraySize ∧ arraySize < 0 then none
  else
    let map : Table 32 :=
      if arraySize ≠ b.arraySize then fun k =>
        if (k : Int) < min arraySize b.arraySize then b.map k
        else if (k : Int) = arraySize - 1 then 0#32
        else fresh k
      else b.map
    some ⟨if b.numBits < numBits ∧ clearBits then setRange map b.numBits numBits false else map,
      numBits, arraySize, b.alloc || decide (arraySize ≠ b.arraySize)⟩

def LowestSet (findLSBSetNonZero : BitVec 32 → Nat) : Prop :=
  ∀ word, word ≠ 0#32 → findLSBSetNonZero word < 32 ∧ word.getLsbD (findLSBSetNonZero word) = true ∧
      ∀ k < findLSBSetNonZero word, word.getLsbD k = false

theorem nonzero_iff (word : BitVec 32) : word ≠ 0#32 ↔ ∃ k < 32, word.getLsbD k = true := by
  constructor
  · intro nonzero
    by_contra none
    push Not at none
    apply nonzero
    apply eq_of_getLsbD_eq
    intro k inside
    simpa using none k inside
  · rintro ⟨k, -, bit⟩ zero
    simp [zero] at bit

theorem getLsbD_sought (value : Bool) (word : BitVec 32) (k : Nat) (inside : k < 32) :
    (sought value word).getLsbD k = (word.getLsbD k == value) := by
  cases value <;> simp [sought, inside]

theorem ones_bit (k : Nat) : (0xffffffff#32).getLsbD k = decide (k < 32) := by
  rw [show 0xffffffff#32 = BitVec.allOnes 32 from rfl, getLsbD_allOnes]

theorem toAdd_bit (offset len k : Nat) (inside : k < 32) :
    ((~~~(0xffffffff#32 <<< len)) <<< offset).getLsbD k = decide (offset ≤ k ∧ k < offset + len) := by
  simp only [getLsbD_shiftLeft, getLsbD_not, ones_bit, inside, decide_true, Bool.true_and]
  by_cases below : k < offset
  · simp [below]
  · have shifted : k - offset < 32 := by omega
    by_cases within : k - offset < len
    · simp [below, shifted, within]
      omega
    · simp only [below, shifted, within, decide_false, decide_true, Bool.not_false, Bool.true_and]
      rw [decide_eq_true (by omega), decide_eq_false (by omega)]
      rfl

theorem two_shift_bit : ∀ d < 32, ∀ k < 32, ((2#32 <<< d) - 1#32).getLsbD k = decide (k ≤ d) := by
  decide +kernel

theorem get_setWordBits (map : Table 32) (start len : Nat) (value : Bool)
    (fits : start % 32 + len ≤ 32) (i : Nat) : get (setWordBits map start len value) i =
      if start ≤ i ∧ i < start + len then value else get map i := by
  rw [setWordBits]
  split
  · rename_i empty
    rw [if_neg (by omega)]
  · have inside : i % 32 < 32 := Nat.mod_lt i (by omega)
    have bit := toAdd_bit (start % 32) len (i % 32) inside
    rw [get_eq_getLsbD (by omega), get_eq_getLsbD (by omega)]
    by_cases here : i / 32 = start / 32
    · have same : (start % 32 ≤ i % 32 ∧ i % 32 < start % 32 + len) ↔ (start ≤ i ∧ i < start + len) := by omega
      simp only [here, if_true]
      generalize (~~~(0xffffffff#32 <<< len)) <<< (start % 32) = toAdd at bit ⊢
      rw [decide_eq_decide.mpr same] at bit
      by_cases within : start ≤ i ∧ i < start + len
      · rw [decide_eq_true within] at bit
        rw [if_pos within]
        cases value
        · simp only [false_eq_true, if_false, getLsbD_and, getLsbD_not, bit, Bool.not_true, Bool.and_false]
        · simp only [if_true, getLsbD_or, bit, Bool.or_true]
      · rw [decide_eq_false within] at bit
        rw [if_neg within]
        cases value
        · simp only [false_eq_true, if_false, getLsbD_and, getLsbD_not, bit,
            inside, decide_true, Bool.not_false, Bool.and_true]
        · simp only [if_true, getLsbD_or, bit, Bool.or_false]
    · simp only [here, if_false]
      rw [if_neg (by omega)]

theorem get_setWords (map : Table 32) (word count : Nat) (value : Bool) (i : Nat) :
    get (setWords map word count value) i =
      if 32 * word ≤ i ∧ i < 32 * (word + count) then value else get map i := by
  have inside : i % 32 < 32 := Nat.mod_lt i (by omega)
  rw [get_eq_getLsbD (by omega), get_eq_getLsbD (by omega), setWords]
  have same : (word ≤ i / 32 ∧ i / 32 < word + count) ↔ (32 * word ≤ i ∧ i < 32 * (word + count)) := by omega
  rw [if_congr same rfl rfl]
  split
  · cases value <;> simp [ones_bit, inside]
  · rfl

theorem get_setRest (map : Table 32) (begin limit : Nat) (value : Bool) (ordered : begin ≤ limit)
    (aligned : begin % 32 = 0 ∨ begin = limit) (i : Nat) : get (setRest map begin limit value) i =
      if begin ≤ i ∧ i < limit then value else get map i := by
  rw [setRest]
  split
  · rw [if_neg (by omega)]
  · simp only
    rw [get_setWords, get_setWordBits _ _ _ _ (by omega)]
    split
    · rw [if_pos (by omega)]
    · exact if_congr (by omega) rfl rfl

theorem get_setRange (map : Table 32) (begin limit : Nat) (value : Bool) (ordered : begin ≤ limit) (i : Nat) :
    get (setRange map begin limit value) i = if begin ≤ i ∧ i < limit then value else get map i := by
  rw [setRange]
  simp only
  split
  · rw [get_setRest _ _ _ _ (by omega) (by omega), get_setWordBits _ _ _ _ (by omega)]
    split
    · rw [if_pos (by omega)]
    · exact if_congr (by omega) rfl rfl
  · exact get_setRest map begin limit value ordered (by omega) i

theorem testLast_iff (map : Table 32) (value : Bool) (lastWord lastOffset offset : Nat)
    (ordered : offset ≤ lastOffset) (inside : lastOffset < 32) :
    testLast map value lastWord lastOffset offset = true ↔
      ∃ i, 32 * lastWord + offset ≤ i ∧ i ≤ 32 * lastWord + lastOffset ∧ get map i = value := by
  have bit : ∀ k < 32,
      (sought value (map lastWord) &&& ((2#32 <<< (lastOffset - offset)) - 1#32) <<< offset).getLsbD k =
      ((get map (32 * lastWord + k) == value) && decide (offset ≤ k ∧ k ≤ lastOffset)) := by
    intro k within
    rw [getLsbD_and, getLsbD_sought _ _ _ within, get_word _ _ _ within, getLsbD_shiftLeft]
    congr 1
    by_cases below : k < offset
    · simp [below]
    · rw [two_shift_bit _ (by omega) _ (by omega)]
      simp only [within, below, decide_true, decide_false, Bool.not_false, Bool.true_and]
      exact decide_eq_decide.mpr (by omega)
  rw [testLast, bne_iff_ne, nonzero_iff]
  constructor
  · rintro ⟨k, within, is_set⟩
    rw [bit k within] at is_set
    simp only [and_eq_true, beq_iff_eq, decide_eq_true_eq] at is_set
    exact ⟨32 * lastWord + k, by omega, by omega, is_set.1⟩
  · rintro ⟨i, above, below, is_value⟩
    refine ⟨i - 32 * lastWord, by omega, ?_⟩
    rw [bit _ (by omega), show 32 * lastWord + (i - 32 * lastWord) = i by omega, is_value]
    simp only [beq_self_eq_true, Bool.true_and, decide_eq_true_eq]
    omega

theorem testWord_iff (map : Table 32) (value : Bool) (word offset : Nat) (inside : offset < 32) :
    (sought value (map word) >>> offset != 0#32) = true ↔
      ∃ i, 32 * word + offset ≤ i ∧ i < 32 * (word + 1) ∧ get map i = value := by
  rw [bne_iff_ne, nonzero_iff]
  constructor
  · rintro ⟨k, within, is_set⟩
    rw [getLsbD_ushiftRight] at is_set
    have small : offset + k < 32 := lt_of_getLsbD is_set
    rw [getLsbD_sought _ _ _ small, beq_iff_eq] at is_set
    exact ⟨32 * word + (offset + k), by omega, by omega, by rw [get_word _ _ _ small, is_set]⟩
  · rintro ⟨i, above, below, is_value⟩
    refine ⟨i - 32 * word - offset, by omega, ?_⟩
    have small : offset + (i - 32 * word - offset) < 32 := by omega
    rw [getLsbD_ushiftRight, getLsbD_sought _ _ _ small, beq_iff_eq, ← get_word _ _ _ small,
      show 32 * word + (offset + (i - 32 * word - offset)) = i by omega, is_value]

theorem testRange_iff (map : Table 32) (begin limit : Nat) (value : Bool) :
    testRange map begin limit value = true ↔ ∃ i, begin ≤ i ∧ i < limit ∧ get map i = value := by
  rw [testRange]
  split
  · rename_i empty
    constructor
    · intro found
      cases found
    · rintro ⟨i, above, below, -⟩
      omega
  · rename_i some_bit
    simp only
    split
    · rename_i several
      simp only [or_eq_true, List.any_eq_true, mem_range'_1]
      rw [testWord_iff _ _ _ _ (by omega), testLast_iff _ _ _ _ _ (by omega) (by omega)]
      constructor
      · rintro ((⟨i, above, below, is_value⟩ | ⟨word, within, found⟩) | ⟨i, above, below, is_value⟩)
        · exact ⟨i, by omega, by omega, is_value⟩
        · obtain ⟨i, above, below, is_value⟩ := (testWord_iff map value word 0 (by omega)).mp
            (by simpa using found)
          exact ⟨i, by omega, by omega, is_value⟩
        · exact ⟨i, by omega, by omega, is_value⟩
      · rintro ⟨i, above, below, is_value⟩
        by_cases first : i / 32 = begin / 32
        · exact Or.inl (Or.inl ⟨i, by omega, by omega, is_value⟩)
        by_cases last : i / 32 = (limit - 1) / 32
        · exact Or.inr ⟨i, by omega, by omega, is_value⟩
        · refine Or.inl (Or.inr ⟨i / 32, by omega, ?_⟩)
          have found := (testWord_iff map value (i / 32) 0 (by omega)).mpr ⟨i, by omega, by omega, is_value⟩
          simpa using found
    · rw [testLast_iff _ _ _ _ _ (by omega) (by omega)]
      constructor
      · rintro ⟨i, above, below, is_value⟩
        exact ⟨i, by omega, by omega, is_value⟩
      · rintro ⟨i, above, below, is_value⟩
        exact ⟨i, by omega, by omega, is_value⟩

variable {findLSBSetNonZero : BitVec 32 → Nat} {value : Bool} {index limit : Nat}

section Next

variable {map : Table 32} {word : Nat} {oneWord : BitVec 32}

def IsNext (map : Table 32) (value : Bool) (index limit : Nat) : Option Nat → Prop
  | none => ∀ i, index ≤ i → i < limit → get map i ≠ value
  | some i => index ≤ i ∧ i < limit ∧ get map i = value ∧ ∀ j, index ≤ j → j < i → get map j ≠ value

def Holds (map : Table 32) (value : Bool) (index limit word : Nat) (oneWord : BitVec 32) : Prop :=
  ∀ k < 32, (sought value oneWord).getLsbD k = true ↔
    index ≤ 32 * word + k ∧ 32 * word + k < limit ∧ get map (32 * word + k) = value

theorem notEmpty_iff : oneWord ≠ (if value then 0#32 else 0xffffffff#32) ↔
    sought value oneWord ≠ 0#32 := by
  cases value with
  | true => rfl
  | false =>
    have negated : ~~~oneWord = 0#32 ↔ oneWord = 0xffffffff#32 := by
      constructor
      · intro zero
        rw [← BitVec.not_not (b := oneWord), zero]
        rfl
      · intro ones
        rw [ones]
        rfl
    exact not_congr negated.symm

theorem Holds.next (exact_ : LowestSet findLSBSetNonZero) (holds : Holds map value index limit word oneWord)
    (before : ∀ j, index ≤ j → j < 32 * word → get map j ≠ value) (nonzero : sought value oneWord ≠ 0#32) :
    IsNext map value index limit (some (32 * word + findLSBSetNonZero (sought value oneWord))) := by
  obtain ⟨inside, is_set, lowest⟩ := exact_ _ nonzero
  obtain ⟨above, below, is_value⟩ := (holds _ inside).mp is_set
  refine ⟨above, below, is_value, fun j from_index earlier => ?_⟩
  by_cases previous : j < 32 * word
  · exact before j from_index previous
  · intro same
    have clear := lowest (j - 32 * word) (by omega)
    have here : 32 * word + (j - 32 * word) = j := by omega
    have bit := (holds (j - 32 * word) (by omega)).mpr ⟨by omega, by omega, by rw [here, same]⟩
    rw [clear] at bit
    cases bit

theorem Holds.none (holds : Holds map value index limit word oneWord)
    (zero : sought value oneWord = 0#32) (j : Nat) (above : index ≤ j) (below : j < limit)
    (here : j / 32 = word) : get map j ≠ value := by
  intro same
  have split : 32 * word + (j - 32 * word) = j := by omega
  have bit := (holds (j - 32 * word) (by omega)).mpr ⟨by omega, by omega, by rw [split, same]⟩
  simp [zero] at bit

/-- The masks keep the bits of the range. -/
theorem sought_masked (mask : BitVec 32) (k : Nat) (inside : k < 32) :
    (sought value (if value then oneWord &&& mask else oneWord ||| ~~~mask)).getLsbD k =
      ((sought value oneWord).getLsbD k && mask.getLsbD k) := by
  cases value <;> simp [sought, inside]

theorem Holds.last (holds : Holds map value index (32 * (word + 1)) word oneWord)
    (ends : (limit - 1) / 32 = word) (positive : 0 < limit) : Holds map value index limit word
      (if value then oneWord &&& ~~~(0xfffffffe#32 <<< ((limit - 1) % 32))
        else oneWord ||| 0xfffffffe#32 <<< ((limit - 1) % 32)) := by
  intro k inside
  have tail : ∀ d < 32, ∀ k < 32, (~~~(0xfffffffe#32 <<< d)).getLsbD k = decide (k ≤ d) := by
    decide +kernel
  have masked := @sought_masked value oneWord (~~~(0xfffffffe#32 <<< ((limit - 1) % 32))) k inside
  rw [BitVec.not_not] at masked
  rw [masked, tail _ (by omega) k inside, and_eq_true, holds k inside, decide_eq_true_eq]
  constructor
  · rintro ⟨⟨above, -, is_value⟩, below⟩
    exact ⟨above, by omega, is_value⟩
  · rintro ⟨above, below, is_value⟩
    exact ⟨⟨above, by omega, is_value⟩, by omega⟩

theorem Holds.whole (word : Nat) (later : index ≤ 32 * word) :
    Holds map value index (32 * (word + 1)) word (map word) := by
  intro k inside
  rw [getLsbD_sought _ _ _ inside, get_word _ _ _ inside, beq_iff_eq]
  constructor
  · intro is_value
    exact ⟨by omega, by omega, is_value⟩
  · exact fun found => found.2.2

theorem findWord_next (exact_ : LowestSet findLSBSetNonZero) (positive : 0 < limit) (turns : Nat)
    (holds : Holds map value index (32 * (word + 1)) word oneWord)
    (before : ∀ j, index ≤ j → j < 32 * word → get map j ≠ value)
    (ends : (limit - 1) / 32 = word + turns) (later : index < 32 * (word + 1)) : IsNext map value index limit
      (findWord findLSBSetNonZero map value ((limit - 1) % 32) turns word oneWord) := by
  induction turns generalizing word oneWord with
  | zero =>
    have last := holds.last ends positive
    rw [findWord]
    by_cases nonzero : sought value (if value then
        oneWord &&& ~~~(0xfffffffe#32 <<< ((limit - 1) % 32))
        else oneWord ||| 0xfffffffe#32 <<< ((limit - 1) % 32)) ≠ 0#32
    · rw [if_pos (notEmpty_iff.mpr nonzero)]
      exact last.next exact_ before nonzero
    · rw [if_neg (mt notEmpty_iff.mp nonzero)]
      have zero := Decidable.not_not.mp nonzero
      intro j above below
      by_cases previous : j < 32 * word
      · exact before j above previous
      · exact last.none zero j above below (by omega)
  | succ turns ih =>
    have inside : Holds map value index limit word oneWord := by
      intro k small
      rw [holds k small]
      exact and_congr_right fun _ => and_congr_left fun _ => by omega
    rw [findWord]
    by_cases nonzero : sought value oneWord ≠ 0#32
    · rw [if_pos (notEmpty_iff.mpr nonzero)]
      exact inside.next exact_ before nonzero
    · rw [if_neg (mt notEmpty_iff.mp nonzero)]
      have zero := Decidable.not_not.mp nonzero
      refine ih (Holds.whole (word + 1) (by omega)) (fun j above below => ?_) (by omega) (by omega)
      by_cases previous : j < 32 * word
      · exact before j above previous
      · exact inside.none zero j above (by omega) (by omega)

theorem findNextBit_next (exact_ : LowestSet findLSBSetNonZero) (map : Table 32)
    (index limit : Nat) (value : Bool) :
    IsNext map value index limit (findNextBit findLSBSetNonZero map index limit value) := by
  rw [findNextBit]
  split
  · intro i above below
    omega
  · rename_i some_bit
    split
    · rename_i same
      exact ⟨le_rfl, by omega, same, fun j above below => by omega⟩
    · refine findWord_next exact_ (by omega) _ (fun k inside => ?_) (fun j above below => by omega)
        (by omega) (by omega)
      rw [sought_masked _ _ inside, and_eq_true, getLsbD_sought _ _ _ inside, beq_iff_eq,
        ← get_word _ _ _ inside, getLsbD_shiftLeft, ones_bit]
      simp only [inside, decide_true, Bool.true_and, and_eq_true, not_eq_true',
        decide_eq_false_iff_not, decide_eq_true_eq]
      constructor
      · rintro ⟨is_value, above, -⟩
        exact ⟨by omega, by omega, is_value⟩
      · rintro ⟨above, -, is_value⟩
        exact ⟨is_value, by omega, by omega⟩

end Next

def bits (b : Bitmap) : List Bool := (List.range b.numBits).map (get b.map)

/-- A map of its own, as the constructors and `Resize` leave it. -/
def Owned (b : Bitmap) : Prop :=
  b.numBits + 31 < 2 ^ 31 ∧ b.arraySize = requiredArraySize b.numBits ∨ b.numBits = 0 ∧ b.arraySize = 0

inductive Op where
  | set (index : Nat) (value : Bool)
  | setRange (begin limit : Nat) (value : Bool)
  | testRange (begin limit : Nat) (value : Bool)
  | findNextBit (index limit : Nat) (value : Bool)
  | findBits (index limit : Nat) (value : Bool)
  | resize (numBits : Nat) (clearBits : Bool)

inductive Answer where
  | done
  | test (found : Bool)
  | next (index : Option Nat)
  | count (index bits : Nat)

def run (findLSBSetNonZero : BitVec 32 → Nat) (fresh : Table 32) (b : Bitmap) :
    Op → Option (Answer × Bitmap)
  | .set index value => some (.done, { b with map := set b.map index value })
  | .setRange begin limit value => some (.done, { b with map := setRange b.map begin limit value })
  | .testRange begin limit value => some (.test (testRange b.map begin limit value), b)
  | .findNextBit index limit value =>
    some (.next (findNextBit findLSBSetNonZero b.map index limit value), b)
  | .findBits index limit value =>
    let (index, count) := findBits findLSBSetNonZero b.map index limit value
    some (.count index count, b)
  | .resize numBits clearBits => (b.resize fresh numBits clearBits).map fun b => (.done, b)

/-- What the `DCHECK`s ask of a call, and that a length is an `int`. -/
def Op.Allowed (b : Bitmap) : Op → Prop
  | .set index _ => index < b.numBits
  | .setRange begin limit _ => begin ≤ limit ∧ limit ≤ b.numBits
  | .testRange _ limit _ | .findNextBit _ limit _ | .findBits _ limit _ => limit ≤ b.numBits
  | .resize numBits _ => b.Owned ∧ numBits < 2 ^ 31

def nextIn (array : List Bool) (index limit : Nat) (value : Bool) : Option Nat :=
  (List.range' index (limit - index)).find? fun i => array[i]? == some value

def Op.Refers (array : List Bool) (answer : Answer) (array' : List Bool) : Op → Prop
  | .set index value => answer = .done ∧ array' = array.set index value
  | .setRange begin limit value => answer = .done ∧
      array' = array.mapIdx fun i bit => if begin ≤ i ∧ i < limit then value else bit
  | .testRange begin limit value => array' = array ∧
      answer = .test ((List.range' begin (limit - begin)).any fun i => array[i]? == some value)
  | .findNextBit index limit value =>
    array' = array ∧ answer = .next (nextIn array index limit value)
  | .findBits index limit value => array' = array ∧ answer = match nextIn array index limit value with
        | none => .count index 0
        | some found =>
          .count found (((array.take limit).drop found).takeWhile (· == value)).length
  | .resize numBits clearBits => answer = .done ∧ ∃ new,
      array' = array.take numBits ++ new ∧ new.length = numBits - array.length ∧
        (clearBits = true → new = List.replicate (numBits - array.length) false)

/-- The operation returns with the answer and the bits of the array, and `SetRange` keeps each bit
outside of its range. -/
def Agrees (findLSBSetNonZero : BitVec 32 → Nat) (fresh : Table 32) (b : Bitmap) (op : Op) : Prop :=
  ∃ answer b', b.run findLSBSetNonZero fresh op = some (answer, b') ∧ op.Refers b.bits answer b'.bits ∧
    ∀ begin limit value, op = .setRange begin limit value →
      ∀ i, i < begin ∨ limit ≤ i → get b'.map i = get b.map i

/-- The sum in `RequiredArraySize` is an `int`. -/
def Op.Sized : Op → Prop
  | .resize numBits _ => numBits + 31 < 2 ^ 31
  | _ => True

section Arrays

variable {b : Bitmap} {i numBits : Nat}

theorem bits_length (b : Bitmap) : b.bits.length = b.numBits := by
  rw [bits, length_map, length_range]

theorem bits_get (b : Bitmap) (inside : i < b.numBits) : b.bits[i]? = some (get b.map i) := by
  rw [bits, List.getElem?_map, List.getElem?_range inside]
  rfl

theorem bits_value (b : Bitmap) (inside : i < b.numBits) (value : Bool) :
    (b.bits[i]? == some value) = (get b.map i == value) := by
  rw [bits_get b inside, Option.some_beq_some]

theorem bits_eq {array : List Bool} (length : array.length = b.numBits)
    (same : ∀ i < b.numBits, array[i]? = some (get b.map i)) : b.bits = array := by
  apply ext_getElem?
  intro i
  by_cases inside : i < b.numBits
  · rw [bits_get b inside, same i inside]
  · rw [List.getElem?_eq_none, List.getElem?_eq_none]
    · omega
    · rw [bits_length]
      omega

theorem get_setValue (map : Table 32) (index : Nat) (value : Bool) (i : Nat) :
    get (set map index value) i = if i = index then value else get map i := by
  rw [set]
  cases value with
  | true =>
    rw [if_pos rfl, get_set (by omega)]
    by_cases same : i = index
    · simp [same]
    · simp [same, Ne.symm same]
  | false =>
    rw [if_neg (by decide), get_clear (by omega)]
    by_cases same : i = index
    · simp [same]
    · simp [same, Ne.symm same]

theorem nextIn_of_isNext {next : Option Nat}
    (fits : limit ≤ b.numBits) (is : IsNext b.map value index limit next) :
    next = nextIn b.bits index limit value := by
  symm
  cases next with
  | none =>
    rw [nextIn, List.find?_range'_eq_none]
    intro i above below
    rw [bits_value b (by omega)]
    simpa using is i above (by omega)
  | some found =>
    obtain ⟨above, below, is_value, before⟩ := is
    rw [nextIn, List.find?_range'_eq_some, mem_range'_1, bits_value b (by omega)]
    refine ⟨by simpa using is_value, by omega, fun j from_index earlier => ?_⟩
    rw [bits_value b (by omega)]
    simpa using before j from_index earlier

theorem length_takeWhile {p : Bool → Bool} (l : List Bool) (n : Nat) (within : n ≤ l.length)
    (all : ∀ i < n, ∀ x, l[i]? = some x → p x = true)
    (ends : ∀ x, l[n]? = some x → p x = false) : (l.takeWhile p).length = n := by
  induction l generalizing n with
  | nil =>
    simp only [length_nil, Nat.le_zero_eq] at within
    rw [within]
    rfl
  | cons x l ih =>
    cases n with
    | zero => rw [takeWhile_cons, ends x rfl, if_neg (by decide), length_nil]
    | succ n =>
      rw [takeWhile_cons, all 0 (by omega) x rfl, if_pos rfl, length_cons,
        ih n (by simpa using within) (fun i small => all (i + 1) (by omega)) ends]

theorem count_run {found last : Nat} (fits : limit ≤ b.numBits)
    (ordered : found ≤ last) (within : last ≤ limit) (all : ∀ j, found ≤ j → j < last → get b.map j = value)
    (ends : last < limit → get b.map last = !value) :
    (((b.bits.take limit).drop found).takeWhile (· == value)).length = last - found := by
  have at_ : ∀ i, found + i < limit → ((b.bits.take limit).drop found)[i]? = some (get b.map (found + i)) := by
    intro i inside
    rw [List.getElem?_drop, List.getElem?_take_of_lt inside, bits_get b (by omega)]
  apply length_takeWhile
  · rw [length_drop, length_take, bits_length]
    omega
  · intro i small x here
    rw [at_ i (by omega), all _ (by omega) (by omega)] at here
    cases here
    exact beq_self_eq_true _
  · intro x here
    by_cases more : last < limit
    · rw [at_ _ (by omega), show found + (last - found) = last by omega, ends more] at here
      cases here
      cases value <;> rfl
    · rw [List.getElem?_eq_none] at here
      · cases here
      · rw [length_drop, length_take, bits_length]
        omega

theorem findBits_refers (exact_ : LowestSet findLSBSetNonZero) (index : Nat)
    (value : Bool) (fits : limit ≤ b.numBits) : findBits findLSBSetNonZero b.map index limit value =
      match nextIn b.bits index limit value with
      | none => (index, 0)
      | some found =>
        (found, (((b.bits.take limit).drop found).takeWhile (· == value)).length) := by
  have first := findNextBit_next exact_ b.map index limit value
  rw [findBits, ← nextIn_of_isNext fits first]
  cases start : findNextBit findLSBSetNonZero b.map index limit value with
  | none => rfl
  | some found =>
    rw [start] at first
    obtain ⟨-, below, -, -⟩ := first
    simp only
    have second := findNextBit_next exact_ b.map found limit !value
    have opposite : ∀ {bit : Bool}, bit ≠ !value → bit = value := fun other =>
      (eq_not_of_ne other).trans (Bool.not_not value)
    cases stop : findNextBit findLSBSetNonZero b.map found limit !value with
    | none =>
      rw [stop] at second
      have all : ∀ j, found ≤ j → j < limit → get b.map j = value :=
        fun j above inside => opposite (second j above inside)
      rw [count_run fits (by omega) le_rfl all (fun more => by omega)]
    | some last =>
      rw [stop] at second
      obtain ⟨above, inside, other, before⟩ := second
      have all : ∀ j, found ≤ j → j < last → get b.map j = value :=
        fun j later earlier => opposite (before j later earlier)
      rw [count_run fits above (by omega) all (fun _ => other)]

theorem requiredArraySize_small (small : numBits + 31 < 2 ^ 31) :
    0 < requiredArraySize numBits ∧ (numBits : Int) ≤ 32 * requiredArraySize numBits := by
  rw [requiredArraySize]
  split
  · omega
  · rw [Int.bmod_eq_of_le (by omega) (by omega)]
    omega

theorem requiredArraySize_large (large : 2 ^ 31 ≤ numBits + 31)
    (int : numBits < 2 ^ 31) : requiredArraySize numBits < 0 := by
  rw [requiredArraySize, if_neg (by omega)]
  have wrapped : ((numBits : Int) + 31).bmod (2 ^ 32) = (numBits : Int) + 31 - 2 ^ 32 := by
    rw [Int.bmod_def]
    omega
  rw [wrapped]
  omega

theorem Owned.size (owned : b.Owned) : 0 ≤ b.arraySize ∧ (b.numBits : Int) ≤ 32 * b.arraySize := by
  rcases owned with ⟨small, size⟩ | ⟨empty, size⟩
  · have := requiredArraySize_small small
    omega
  · omega

theorem resize_refers {fresh : Table 32} (owned : b.Owned) (clearBits : Bool) (small : numBits + 31 < 2 ^ 31) :
    ∃ b', b.resize fresh numBits clearBits = some b' ∧ b'.numBits = numBits ∧
      (∀ i, i < b.numBits → i < numBits → get b'.map i = get b.map i) ∧
      (clearBits = true → ∀ i, b.numBits ≤ i → i < numBits → get b'.map i = false) := by
  obtain ⟨positive, enough⟩ := requiredArraySize_small small
  obtain ⟨-, covered⟩ := owned.size
  rw [resize]
  simp only
  rw [if_neg (by omega)]
  refine ⟨_, rfl, rfl, fun i old kept => ?_, fun clear i new below => ?_⟩
  · have copied : get (if requiredArraySize numBits ≠ b.arraySize then (fun k : Nat =>
        if (k : Int) < min (requiredArraySize numBits) b.arraySize then b.map k
        else if (k : Int) = requiredArraySize numBits - 1 then 0#32 else fresh k)
        else b.map) i = get b.map i := by
      split
      · rw [get_eq_getLsbD (by omega), get_eq_getLsbD (by omega), if_pos (by omega)]
      · rfl
    simp only
    split
    · rw [get_setRange _ _ _ _ (by omega), if_neg (by omega), copied]
    · exact copied
  · simp only
    rw [if_pos ⟨by omega, clear⟩, get_setRange _ _ _ _ (by omega), if_pos ⟨new, below⟩]

end Arrays

theorem bitmap_agrees_iff (findLSBSetNonZero : BitVec 32 → Nat)
    (exact_ : LowestSet findLSBSetNonZero) (fresh : Table 32) (b : Bitmap) (op : Op)
    (allowed : op.Allowed b) : b.Agrees findLSBSetNonZero fresh op ↔ op.Sized := by
  cases op with
  | set index value =>
    refine iff_of_true ⟨.done, _, rfl, ⟨rfl, ?_⟩, fun _ _ _ other => by cases other⟩ trivial
    apply bits_eq
    · rw [List.length_set, bits_length]
    · intro i inside
      rw [get_setValue, List.getElem?_set, bits_get b inside, bits_length]
      by_cases same : i = index
      · rw [if_pos same, if_pos same.symm, if_pos (same ▸ inside)]
      · rw [if_neg same, if_neg (Ne.symm same)]
  | setRange begin limit value =>
    obtain ⟨ordered, fits⟩ := allowed
    refine iff_of_true ⟨.done, _, rfl, ⟨rfl, ?_⟩, ?_⟩ trivial
    · apply bits_eq
      · rw [List.length_mapIdx, bits_length]
      · intro i inside
        rw [List.getElem?_mapIdx, bits_get b inside, get_setRange _ _ _ _ ordered]
        rfl
    · rintro _ _ _ ⟨⟩ i outside
      rw [get_setRange _ _ _ _ ordered, if_neg (by omega)]
  | testRange begin limit value =>
    have fits : limit ≤ b.numBits := allowed
    refine iff_of_true ⟨_, _, rfl, ⟨rfl, ?_⟩, fun _ _ _ other => by cases other⟩ trivial
    congr 1
    rw [Bool.eq_iff_iff, testRange_iff, List.any_eq_true]
    simp only [List.mem_range'_1]
    constructor
    · rintro ⟨i, above, below, is_value⟩
      exact ⟨i, by omega, by rw [bits_value b (by omega), is_value, beq_self_eq_true]⟩
    · rintro ⟨i, inside, is_value⟩
      rw [bits_value b (by omega), beq_iff_eq] at is_value
      exact ⟨i, by omega, by omega, is_value⟩
  | findNextBit index limit value =>
    have next := findNextBit_next exact_ b.map index limit value
    refine iff_of_true ⟨_, _, rfl, ⟨rfl, ?_⟩, fun _ _ _ other => by cases other⟩ trivial
    rw [nextIn_of_isNext allowed next]
  | findBits index limit value =>
    have counted := findBits_refers exact_ index value allowed
    refine iff_of_true ⟨.count (findBits findLSBSetNonZero b.map index limit value).1
      (findBits findLSBSetNonZero b.map index limit value).2, b, rfl, ⟨rfl, ?_⟩,
      fun _ _ _ other => by cases other⟩ trivial
    rw [counted]
    cases nextIn b.bits index limit value <;> rfl
  | resize numBits clearBits =>
    obtain ⟨owned, int⟩ := allowed
    constructor
    · rintro ⟨answer, b', resized, -⟩
      by_contra large
      have negative := requiredArraySize_large (not_lt.mp large) int
      have size := owned.size
      rw [run, resize] at resized
      simp only at resized
      rw [if_pos (by omega)] at resized
      cases resized
    · intro small
      obtain ⟨b', resized, length, kept, cleared⟩ := resize_refers owned clearBits small
      refine ⟨.done, b', by rw [run, resized]; rfl, ⟨rfl, b'.bits.drop b.numBits, ?_, ?_, ?_⟩,
        fun _ _ _ other => by cases other⟩
      · apply bits_eq
        · rw [List.length_append, List.length_take, List.length_drop, bits_length, bits_length]
          omega
        · intro i inside
          by_cases old : i < b.numBits
          · rw [List.getElem?_append_left (by rw [List.length_take, bits_length]; omega),
              List.getElem?_take_of_lt (by omega), bits_get b old, kept i old (by omega)]
          · rw [List.take_of_length_le (by rw [bits_length]; omega), List.getElem?_append_right
              (by rw [bits_length]; omega), List.getElem?_drop, bits_length,
              Nat.add_sub_cancel' (by omega), bits_get b' inside]
      · rw [List.length_drop, bits_length, bits_length, length]
      · intro clear
        apply List.eq_replicate_iff.mpr
        refine ⟨by rw [List.length_drop, bits_length, bits_length, length], fun bit there => ?_⟩
        obtain ⟨i, here⟩ := List.mem_iff_getElem?.mp there
        rw [List.getElem?_drop] at here
        have inside : b.numBits + i < b'.numBits := by
          rw [← bits_length b']
          exact (List.getElem?_eq_some_iff.mp here).1
        rw [bits_get b' inside, cleared clear _ (by omega) (by omega)] at here
        cases here
        rfl

def lowestBit (word : BitVec 32) : Nat := ((List.range 32).find? word.getLsbD).getD 0

theorem lowestBit_exact : LowestSet lowestBit := by
  intro word nonzero
  obtain ⟨k, inside, bit⟩ := (nonzero_iff word).mp nonzero
  obtain ⟨found, here⟩ := Option.isSome_iff_exists.mp (List.find?_isSome.mpr ⟨k, mem_range.mpr inside, bit⟩)
  have lowest := List.find?_range_eq_some.mp here
  rw [lowestBit, here]
  exact ⟨mem_range.mp lowest.2.1, lowest.1, fun j earlier => by simpa using lowest.2.2 j earlier⟩

theorem small_bitmap_agrees : (⟨empty, 40, 2, true⟩ : Bitmap).Agrees lowestBit empty
    (.resize 100 true) ↔ (Op.resize 100 true).Sized :=
  bitmap_agrees_iff lowestBit lowestBit_exact empty ⟨empty, 40, 2, true⟩ (.resize 100 true)
    ⟨Or.inl ⟨by decide, by decide⟩, by decide⟩

/-- The number of words of the longest bitmap is negative, so that `Resize` does not return. -/
theorem longest_bitmap_lost : (Op.resize 2147483647 true).Allowed ⟨empty, 40, 2, true⟩ ∧
    ¬(⟨empty, 40, 2, true⟩ : Bitmap).Agrees lowestBit empty (.resize 2147483647 true) := by
  refine ⟨⟨Or.inl ⟨by decide, by decide⟩, by decide⟩, ?_⟩
  rintro ⟨answer, b', resized, -⟩
  have negative : requiredArraySize 2147483647 = -67108864 := by decide
  rw [run, resize, negative] at resized
  simp at resized

end Bitmap

end Glopen.Cache

import Glopen.Lib.BitTable

/-! address_set.cc: a dense set of word addresses, and its iterator. -/
namespace Glopen.Arm

open BitVec

structure AddressSet where
  base : Nat
  size : Nat
  bits : BitTable.Table 32

def AddressSet.empty (base size : Nat) : AddressSet := ⟨base, size, BitTable.empty⟩

/-- The 32-bit difference `address - base_`. -/
def AddressSet.offset (s : AddressSet) (address : Nat) : Nat :=
  (address + (2 ^ 32 - s.base)) % 2 ^ 32

def AddressSet.add (s : AddressSet) (address : Nat) : AddressSet :=
  if s.offset address < s.size then { s with bits := BitTable.set s.bits (s.offset address / 4) }
  else s

def AddressSet.contains (s : AddressSet) (address : Nat) : Bool :=
  decide (s.offset address < s.size) && BitTable.get s.bits (s.offset address / 4)

/-- The length of `bits_`, and the index of the end iterator. -/
def AddressSet.words (s : AddressSet) : Nat := (s.size + 3) % 2 ^ 32 / 4

structure Iterator where
  index : Nat
  shift : Nat
deriving DecidableEq, Repr

/-- The inner loop of `advance`: the shift of the next bit of a word, if there is one. -/
def seekBit : Nat → BitVec 32 → Nat → Option Nat
  | 0, _, _ => none
  | fuel + 1, word, shift =>
    if word = 0 then none
    else if word.getLsbD 0 then some shift
    else if word &&& 0xffff = 0 then seekBit fuel (word >>> 16) (shift + 16)
    else if word &&& 0xff = 0 then seekBit fuel (word >>> 8) (shift + 8)
    else seekBit fuel (word >>> 1) (shift + 1)

/-- The outer loop, with `left` words to go. -/
def advanceFrom (bits : BitTable.Table 32) : Nat → Iterator → Iterator
  | 0, it => it
  | left + 1, it =>
    match seekBit 33 (if 31 < it.shift then 0 else bits it.index >>> it.shift) it.shift with
    | some shift => { it with shift := shift }
    | none => advanceFrom bits left ⟨it.index + 1, 0⟩

def AddressSet.advance (s : AddressSet) (it : Iterator) : Iterator :=
  advanceFrom s.bits (s.words - it.index) it

def AddressSet.begin (s : AddressSet) : Iterator := s.advance ⟨0, 0⟩

def AddressSet.finish (s : AddressSet) : Iterator := s.advance ⟨s.words, 0⟩

/-- The iterator's `operator++`. -/
def AddressSet.next (s : AddressSet) (it : Iterator) : Iterator :=
  s.advance { it with shift := it.shift + 1 }

/-- The iterator's `operator*`. -/
def AddressSet.deref (s : AddressSet) (it : Iterator) : Nat :=
  (s.base + 4 * (it.index * 32 + it.shift)) % 2 ^ 32

def LowestBit (word : BitVec 32) (shift : Nat) : Option Nat → Prop
  | none => ∀ k, word.getLsbD k = false
  | some s => ∃ k, s = shift + k ∧ word.getLsbD k = true ∧ ∀ j < k, word.getLsbD j = false

section Scan

variable {word : BitVec 32} {count shift : Nat}

theorem LowestBit.skip (clear : ∀ k < count, word.getLsbD k = false) {found : Option Nat}
    (rest : LowestBit (word >>> count) (shift + count) found) : LowestBit word shift found := by
  cases found with
  | none =>
    intro k
    by_cases low : k < count
    · exact clear k low
    · have := rest (k - count)
      rwa [getLsbD_ushiftRight, show count + (k - count) = k by omega] at this
  | some s =>
    obtain ⟨k, same, set, none⟩ := rest
    rw [getLsbD_ushiftRight] at set
    refine ⟨count + k, by omega, set, ?_⟩
    intro j before
    by_cases low : j < count
    · exact clear j low
    · have := none (j - count) (by omega)
      rwa [getLsbD_ushiftRight, show count + (j - count) = j by omega] at this

theorem clear_of_mask {mask : BitVec 32} (ones : ∀ k < count, mask.getLsbD k = true)
    (zero : word &&& mask = 0) : ∀ k < count, word.getLsbD k = false := by
  intro k below
  have := congrArg (fun v => BitVec.getLsbD v k) zero
  simpa [getLsbD_and, ones k below] using this

theorem seekBit_spec (fuel : Nat) (word : BitVec 32) (shift : Nat)
    (enough : ∀ k, word.getLsbD k = true → k < fuel) : LowestBit word shift (seekBit fuel word shift) := by
  induction fuel generalizing word shift with
  | zero =>
    intro k
    cases bit : word.getLsbD k with
    | false => rfl
    | true => exact absurd (enough k bit) (Nat.not_lt_zero k)
  | succ fuel ih =>
    have fewer : ∀ count, 0 < count → ∀ k, (word >>> count).getLsbD k = true → k < fuel := by
      intro count positive k set
      rw [getLsbD_ushiftRight] at set
      have := enough _ set
      omega
    unfold seekBit
    split
    · rename_i zero
      intro k
      rw [zero]
      simp
    split
    · rename_i low
      exact ⟨0, rfl, low, nofun⟩
    rename_i low
    split
    · rename_i zero
      exact (ih _ _ (fewer 16 (by decide))).skip (clear_of_mask (by decide) zero)
    split
    · rename_i zero
      exact (ih _ _ (fewer 8 (by decide))).skip (clear_of_mask (by decide) zero)
    · refine (ih _ _ (fewer 1 (by decide))).skip ?_
      intro k below
      obtain rfl : k = 0 := by omega
      simpa using low

def Iterator.pos (it : Iterator) : Nat := 32 * it.index + it.shift

/-- An iterator that has moved from `start` to the next bit, or to the end. -/
structure Moved (bits : BitTable.Table 32) (words start : Nat) (it : Iterator) : Prop where
  skipped : ∀ p, start ≤ p → p < it.pos → BitTable.get bits p = false
  stopped : it = ⟨words, 0⟩ ∨
    (it.index < words ∧ it.shift < 32 ∧ start ≤ it.pos ∧ BitTable.get bits it.pos = true)

theorem advanceFrom_spec (bits : BitTable.Table 32) (left : Nat) (it : Iterator) (small : it.shift ≤ 32)
    (fresh : left = 0 → it.shift = 0) : Moved bits (it.index + left) it.pos (advanceFrom bits left it) := by
  induction left generalizing it with
  | zero =>
    obtain ⟨index, shift⟩ := it
    cases fresh rfl
    exact ⟨fun p lower upper => absurd upper (Nat.not_lt.mpr lower), Or.inl rfl⟩
  | succ left ih =>
    obtain ⟨index, shift⟩ := it
    simp only at small
    have shifted : ∀ k, (if 31 < shift then 0 else bits index >>> shift).getLsbD k =
        (decide (shift + k < 32) && (bits index).getLsbD (shift + k)) := by
      intro k
      split
      · rename_i past
        simp [show ¬ shift + k < 32 by omega]
      · rw [getLsbD_ushiftRight]
        by_cases inner : shift + k < 32
        · simp [inner]
        · simp [inner, getLsbD_of_ge (bits index) (shift + k) (by omega)]
    have found := seekBit_spec 33 (if 31 < shift then 0 else bits index >>> shift) shift (by
      intro k set
      rw [shifted] at set
      simp only [Bool.and_eq_true, decide_eq_true_eq] at set
      omega)
    unfold advanceFrom
    simp only
    split
    · rename_i s hit
      rw [hit] at found
      obtain ⟨k, same, set, none⟩ := found
      rw [shifted] at set
      simp only [Bool.and_eq_true, decide_eq_true_eq] at set
      refine ⟨?_, Or.inr ⟨by simp, by simp only; omega, ?_, ?_⟩⟩
      · intro p lower upper
        simp only [Iterator.pos] at lower upper
        have miss := none (p - (32 * index + shift)) (by omega)
        rw [shifted, decide_eq_true (by omega), Bool.true_and] at miss
        rw [show p = 32 * index + (shift + (p - (32 * index + shift))) by omega,
          BitTable.get_word bits _ _ (by omega)]
        exact miss
      · simp only [Iterator.pos]
        omega
      · simp only [Iterator.pos]
        rw [BitTable.get_word bits _ _ (by omega), same]
        exact set.2
    · rename_i miss
      rw [miss] at found
      have rest := ih ⟨index + 1, 0⟩ (Nat.zero_le _) (fun _ => rfl)
      simp only [Nat.add_right_comm index 1 left, Nat.add_assoc] at rest ⊢
      have start : (⟨index + 1, 0⟩ : Iterator).pos = 32 * index + 32 := by
        simp only [Iterator.pos]
        omega
      rw [start] at rest
      refine ⟨?_, ?_⟩
      · intro p lower upper
        simp only [Iterator.pos] at lower
        by_cases inner : p < 32 * index + 32
        · have none := found (p - (32 * index + shift))
          rw [shifted, decide_eq_true (by omega), Bool.true_and] at none
          rw [show p = 32 * index + (shift + (p - (32 * index + shift))) by omega,
            BitTable.get_word bits _ _ (by omega)]
          exact none
        · exact rest.skipped p (by omega) upper
      · rcases rest.stopped with stop | ⟨inside, inner, after, set⟩
        · exact Or.inl stop
        · refine Or.inr ⟨inside, inner, ?_, set⟩
          simp only [Iterator.pos] at after ⊢
          omega

end Scan

end Glopen.Arm

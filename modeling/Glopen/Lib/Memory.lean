import Mathlib.Algebra.Group.Int.Defs
import Mathlib.Algebra.Group.Nat.Defs
import Mathlib.Data.List.Basic

/-! Byte-addressed memory, little-endian words and sequences of word writes.
Nothing here is about a particular program: a loop that stores words is a list of
writes, and every intermediate memory is the result of a prefix of that list. -/
namespace Glopen.Memory

abbrev Byte := BitVec 8
abbrev Word := BitVec 32
abbrev Mem := Nat → Byte

/-- Byte `i` of a little-endian word. -/
def wordByte (w : Word) (i : Nat) : Byte := w.extractLsb' (8 * i) 8

def loadWord (m : Mem) (a : Nat) : Word :=
  m (a + 3) ++ m (a + 2) ++ m (a + 1) ++ m a

structure Write where
  addr : Nat
  word : Word
deriving DecidableEq

def Write.covers (w : Write) (x : Nat) : Prop := w.addr ≤ x ∧ x < w.addr + 4

instance (w : Write) (x : Nat) : Decidable (w.covers x) := inferInstanceAs (Decidable (_ ∧ _))

def store (m : Mem) (w : Write) : Mem :=
  fun x => if w.covers x then wordByte w.word (x - w.addr) else m x

def storeAll (m : Mem) (ws : List Write) : Mem := ws.foldl store m

/-- The successive values of `p` in `for (p = start; p < stop; p += stride)`. -/
def addresses (start stop stride : Nat) : List Nat :=
  List.range' start ((stop - start + stride - 1) / stride) stride

variable {a dest : Nat} {src : Mem} {us vs : List Write}

theorem mem_addresses {start stop stride : Nat} (positive : 0 < stride) :
    a ∈ addresses start stop stride ↔ ∃ i, a = start + stride * i ∧ a < stop := by
  simp only [addresses, List.mem_range']
  constructor
  · rintro ⟨i, bound, rfl⟩
    refine ⟨i, rfl, ?_⟩
    have counted := (Nat.le_div_iff_mul_le positive).mp (Nat.succ_le_of_lt bound)
    rw [Nat.succ_mul, Nat.mul_comm] at counted
    omega
  · rintro ⟨i, rfl, below⟩
    refine ⟨i, ?_, rfl⟩
    apply Nat.lt_of_succ_le
    apply (Nat.le_div_iff_mul_le positive).mpr
    rw [Nat.succ_mul, Nat.mul_comm]
    omega

theorem wordByte_loadWord (m : Mem) (a : Nat) {i : Nat} (small : i < 4) :
    wordByte (loadWord m a) i = m (a + i) := by
  have cases4 : i = 0 ∨ i = 1 ∨ i = 2 ∨ i = 3 := by omega
  rcases cases4 with rfl | rfl | rfl | rfl <;>
  · apply BitVec.eq_of_getLsbD_eq
    intro j hj
    simp only [wordByte, loadWord, BitVec.getLsbD_extractLsb', BitVec.getLsbD_append]
    grind

theorem word_ext {v w : Word} (same : ∀ i < 4, wordByte v i = wordByte w i) : v = w := by
  apply BitVec.eq_of_getLsbD_eq
  intro j hj
  have bit := congrArg (fun b : Byte => b.getLsbD (j % 8)) (same (j / 8) (by omega))
  simp only [wordByte, BitVec.getLsbD_extractLsb', Nat.div_add_mod] at bit
  simpa [Nat.mod_lt j (by decide : 0 < 8)] using bit

theorem loadWord_eq_iff (m : Mem) (a : Nat) (w : Word) :
    loadWord m a = w ↔ ∀ i < 4, m (a + i) = wordByte w i := by
  constructor
  · rintro rfl i small
    exact (wordByte_loadWord m a small).symm
  · intro same
    apply word_ext
    intro i small
    rw [wordByte_loadWord m a small, same i small]

theorem loadWord_congr {m m' : Mem} {b : Nat} (same : ∀ i < 4, m (a + i) = m' (b + i)) :
    loadWord m a = loadWord m' b := by
  rw [loadWord_eq_iff]
  intro i small
  rw [same i small, wordByte_loadWord m' b small]

theorem loadWord_const (v : Byte) (a : Nat) : loadWord (fun _ => v) a = v ++ v ++ v ++ v := rfl

@[simp] theorem storeAll_nil (m : Mem) : storeAll m [] = m := rfl

@[simp] theorem storeAll_cons (m : Mem) (w : Write) (ws : List Write) :
    storeAll m (w :: ws) = storeAll (store m w) ws := rfl

theorem storeAll_frame (m : Mem) (ws : List Write) {x : Nat}
    (untouched : ∀ w ∈ ws, ¬ w.covers x) : storeAll m ws x = m x := by
  induction ws generalizing m with
  | nil => rfl
  | cons w rest ih =>
    rw [storeAll_cons, ih (store m w) fun v hv => untouched v (by simp [hv])]
    simp [store, untouched w (by simp)]

/-- Every write stores the word that `src` holds at the same distance from `dest`. -/
def Copies (dest : Nat) (src : Mem) (ws : List Write) : Prop :=
  ∀ w ∈ ws, dest ≤ w.addr ∧ w.word = loadWord src (w.addr - dest)

theorem Copies.append (hu : Copies dest src us) (hv : Copies dest src vs) : Copies dest src (us ++ vs) := by
  intro w hw
  rcases List.mem_append.mp hw with hw | hw
  · exact hu w hw
  · exact hv w hw

theorem Copies.initial (copies : Copies dest src vs) (initial : us <+: vs) : Copies dest src us :=
  fun w hw => copies w (initial.subset hw)

/-- Each byte after a copying sequence is the old one or the copied one; a covered
byte is the copied one. -/
theorem storeAll_copies {ws : List Write} (copies : Copies dest src ws) (m : Mem) (x : Nat) :
    (storeAll m ws x = m x ∨ storeAll m ws x = src (x - dest)) ∧
    ((∃ w ∈ ws, w.covers x) → storeAll m ws x = src (x - dest)) := by
  induction ws generalizing m with
  | nil => simp
  | cons w rest ih =>
    have tail := ih (fun v hv => copies v (by simp [hv])) (store m w)
    obtain ⟨above, value⟩ := copies w (by simp)
    have stored : w.covers x → store m w x = src (x - dest) := by
      intro covered
      have inside : x - w.addr < 4 := by
        have := covered.2
        omega
      simp only [store, if_pos covered, value, wordByte_loadWord src _ inside]
      congr 1
      have := covered.1
      omega
    by_cases covered : w.covers x
    · have old := stored covered
      rw [old, or_self] at tail
      exact ⟨Or.inr tail.1, fun _ => tail.1⟩
    · have kept : store m w x = m x := by simp [store, covered]
      rw [kept] at tail
      refine ⟨tail.1, fun hit => tail.2 ?_⟩
      obtain ⟨v, hv, cov⟩ := hit
      rcases List.mem_cons.mp hv with rfl | hv
      · exact absurd cov covered
      · exact ⟨v, hv, cov⟩

theorem addresses_shift (d start stop stride : Nat) :
    addresses (d + start) (d + stop) stride = (addresses start stop stride).map (d + ·) := by
  rw [addresses, addresses, Nat.add_sub_add_left, List.map_add_range']

def Write.shift (d : Nat) (w : Write) : Write := ⟨d + w.addr, w.word⟩

end Glopen.Memory

import Mathlib.Algebra.Group.Nat.Defs
import Mathlib.Data.List.Basic

/-! Memory by address: the bytes of a range, and copies into a range. -/
namespace Glopen.Bytes

abbrev Memory := Nat → UInt8

def bytesAt (memory : Memory) (a : Nat) : Nat → List UInt8
  | 0 => []
  | n + 1 => memory a :: bytesAt memory (a + 1) n

def copyTo (memory : Memory) (a : Nat) (bytes : List UInt8) : Memory :=
  fun x => if a ≤ x then (bytes[x - a]?).getD (memory x) else memory x

@[simp] theorem bytesAt_length (memory : Memory) (a n : Nat) : (bytesAt memory a n).length = n := by
  induction n generalizing a with
  | zero => rfl
  | succ n ih => rw [bytesAt, List.length_cons, ih]

variable {memory memory' : Memory} {a b n : Nat}

theorem bytesAt_congr
    (same : ∀ i < n, memory (a + i) = memory' (b + i)) : bytesAt memory a n = bytesAt memory' b n := by
  induction n generalizing a b with
  | zero => rfl
  | succ n ih =>
    have rest : bytesAt memory (a + 1) n = bytesAt memory' (b + 1) n := by
      apply ih
      intro i small
      have step := same (i + 1) (by omega)
      rwa [Nat.add_comm i 1, ← Nat.add_assoc, ← Nat.add_assoc] at step
    rw [bytesAt, bytesAt, rest]
    exact congrArg (· :: _) (same 0 (Nat.succ_pos n))

theorem bytesAt_inj
    (same : bytesAt memory a n = bytesAt memory' b n) : ∀ i < n, memory (a + i) = memory' (b + i) := by
  induction n generalizing a b with
  | zero => exact fun i below => absurd below (Nat.not_lt_zero i)
  | succ n ih =>
    rw [bytesAt, bytesAt, List.cons.injEq] at same
    intro i below
    cases i with
    | zero => exact same.1
    | succ i =>
      have rest := ih same.2 i (by omega)
      rwa [Nat.add_assoc, Nat.add_assoc, Nat.add_comm 1 i] at rest

theorem bytesAt_add (memory : Memory) (a n k : Nat) :
    bytesAt memory a (n + k) = bytesAt memory a n ++ bytesAt memory (a + n) k := by
  induction n generalizing a with
  | zero => rw [Nat.zero_add]; rfl
  | succ n ih =>
    have next : a + 1 + n = a + (n + 1) := by omega
    rw [Nat.succ_add, bytesAt, ih, bytesAt, next]
    rfl

theorem bytesAt_append {xs ys : List UInt8}
    (first : bytesAt memory a xs.length = xs) (second : bytesAt memory (a + xs.length) ys.length = ys) :
    bytesAt memory a (xs ++ ys).length = xs ++ ys := by
  rw [List.length_append, bytesAt_add, first, second]

theorem copyTo_below (memory : Memory) {x : Nat} (bytes : List UInt8) (below : x < a) :
    copyTo memory a bytes x = memory x := if_neg (Nat.not_le.mpr below)

theorem copyTo_above (memory : Memory) {a x : Nat} (bytes : List UInt8)
    (above : a + bytes.length ≤ x) : copyTo memory a bytes x = memory x := by
  have past : bytes[x - a]? = none := List.getElem?_eq_none (by omega)
  rw [copyTo, past, Option.getD_none, ite_self]

theorem bytesAt_copyTo (memory : Memory) (a : Nat) (bytes : List UInt8) :
    bytesAt (copyTo memory a bytes) a bytes.length = bytes := by
  induction bytes generalizing memory a with
  | nil => rfl
  | cons byte rest ih =>
    have tail : bytesAt (copyTo memory a (byte :: rest)) (a + 1) rest.length =
        bytesAt (copyTo memory (a + 1) rest) (a + 1) rest.length := by
      apply bytesAt_congr
      intro i small
      have back : a + 1 + i - a = i + 1 := by omega
      have back' : a + 1 + i - (a + 1) = i := by omega
      rw [copyTo, copyTo, if_pos (by omega), if_pos (by omega), back, back', List.getElem?_cons_succ]
    rw [List.length_cons, bytesAt, tail, ih, copyTo, if_pos (Nat.le_refl a), Nat.sub_self]
    rfl

theorem bytesAt_copyTo_take (memory : Memory) (a : Nat) {bytes : List UInt8}
    (some_of : n ≤ bytes.length) : bytesAt (copyTo memory a bytes) a n = bytes.take n := by
  obtain ⟨rest, split⟩ := Nat.exists_eq_add_of_le some_of
  have whole := bytesAt_copyTo memory a bytes
  rw [split, bytesAt_add] at whole
  rw [← List.take_left' (bytesAt_length (copyTo memory a bytes) a n), whole]

end Glopen.Bytes

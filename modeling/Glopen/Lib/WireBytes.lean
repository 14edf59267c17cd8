import Mathlib.Algebra.Group.Nat.Defs
import Mathlib.Data.List.Basic

/-! Fixed-size values as little-endian bytes. -/
namespace Glopen.Wire

open List

def leBytes : Nat → Nat → List UInt8
  | 0, _ => []
  | width + 1, n => UInt8.ofNat n :: leBytes width (n / 256)

def leValue : List UInt8 → Nat
  | [] => 0
  | byte :: rest => byte.toNat + 256 * leValue rest

theorem leBytes_length (width n : Nat) : (leBytes width n).length = width := by
  induction width generalizing n with
  | zero => rfl
  | succ width ih => rw [leBytes, length_cons, ih]

theorem leValue_leBytes (width n : Nat) : leValue (leBytes width n) = n % 256 ^ width := by
  induction width generalizing n with
  | zero => rw [leBytes, leValue, Nat.pow_zero, Nat.mod_one]
  | succ width ih =>
    have split := @Nat.mod_mul 256 (256 ^ width) n
    rw [leBytes, leValue, ih, UInt8.toNat_ofNat', Nat.pow_succ 256, Nat.mul_comm _ 256, split]

/-- A type with a fixed-size encoding. -/
class WireType (α : Type) where
  size : Nat
  bytes : α → List UInt8
  ofBytes : List UInt8 → α
  size_pos : 0 < size
  size_le : size ≤ 8
  bytes_length : ∀ a, (bytes a).length = size
  ofBytes_bytes : ∀ a, ofBytes (bytes a) = a

theorem uint8_round (a : UInt8) : UInt8.ofNat (leValue (leBytes 1 a.toNat)) = a := by
  have small : a.toNat < 256 ^ 1 := a.toNat_lt
  rw [leValue_leBytes, Nat.mod_eq_of_lt small, UInt8.ofNat_toNat]

theorem uint32_round (a : UInt32) : UInt32.ofNat (leValue (leBytes 4 a.toNat)) = a := by
  have small : a.toNat < 256 ^ 4 := a.toNat_lt
  rw [leValue_leBytes, Nat.mod_eq_of_lt small, UInt32.ofNat_toNat]

theorem uint64_round (a : UInt64) : UInt64.ofNat (leValue (leBytes 8 a.toNat)) = a := by
  have small : a.toNat < 256 ^ 8 := a.toNat_lt
  rw [leValue_leBytes, Nat.mod_eq_of_lt small, UInt64.ofNat_toNat]

instance : WireType UInt8 where
  size := 1
  bytes := fun a => leBytes 1 a.toNat
  ofBytes := fun bytes => UInt8.ofNat (leValue bytes)
  size_pos := Nat.one_pos
  size_le := Nat.le_add_left 1 7
  bytes_length := fun a => leBytes_length 1 a.toNat
  ofBytes_bytes := uint8_round

instance : WireType UInt32 where
  size := 4
  bytes := fun a => leBytes 4 a.toNat
  ofBytes := fun bytes => UInt32.ofNat (leValue bytes)
  size_pos := Nat.succ_pos 3
  size_le := Nat.le_add_left 4 4
  bytes_length := fun a => leBytes_length 4 a.toNat
  ofBytes_bytes := uint32_round

instance : WireType UInt64 where
  size := 8
  bytes := fun a => leBytes 8 a.toNat
  ofBytes := fun bytes => UInt64.ofNat (leValue bytes)
  size_pos := Nat.succ_pos 7
  size_le := Nat.le_refl 8
  bytes_length := fun a => leBytes_length 8 a.toNat
  ofBytes_bytes := uint64_round

section Sequences

variable {α : Type} [WireType α]

def flat (values : List α) : List UInt8 := values.flatMap WireType.bytes

def unflat : Nat → List UInt8 → List α
  | 0, _ => []
  | count + 1, bytes =>
    WireType.ofBytes (bytes.take (WireType.size α)) :: unflat count (bytes.drop (WireType.size α))

theorem flat_length (values : List α) : (flat values).length = values.length * WireType.size α := by
  induction values with
  | nil => rw [length_nil, Nat.zero_mul]; rfl
  | cons a rest ih =>
    rw [flat, flatMap_cons, length_append, WireType.bytes_length, ← flat, ih,
      length_cons, Nat.succ_mul, Nat.add_comm]

theorem unflat_flat (values : List α) : unflat values.length (flat values) = values := by
  induction values with
  | nil => rfl
  | cons a rest ih =>
    have size := WireType.bytes_length a
    rw [length_cons, unflat, flat, flatMap_cons, take_left' size,
      drop_left' size, WireType.ofBytes_bytes, ← flat, ih]

end Sequences

end Glopen.Wire

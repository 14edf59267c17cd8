import Glopen.Lib.Memory

/-! NUL-terminated strings in byte-addressed memory: what a pointer to one designates, copies of
them, and copies of several strings one behind the other. -/
namespace Glopen.Memory

/-- The characters of a C string, without the terminator. -/
structure CStr where
  chars : List Byte
  noNul : 0 ∉ chars
deriving DecidableEq

namespace CStr

variable {m m' : Mem} {a x : Nat} {s t : CStr}

/-- Bytes of the string with its terminator: `strlen(s) + 1`. -/
def size (s : CStr) : Nat := s.chars.length + 1

/-- The byte at a distance from the start; the terminator stands behind the characters. -/
def byte (s : CStr) (i : Nat) : Byte := (s.chars[i]?).getD 0

/-- A pointer to the address designates the string. -/
def At (m : Mem) (a : Nat) (s : CStr) : Prop := ∀ i < s.size, m (a + i) = s.byte i

theorem size_pos (s : CStr) : 0 < s.size := Nat.succ_pos _

theorem byte_eq_zero_iff {i : Nat} (inside : i < s.size) : s.byte i = 0 ↔ i = s.chars.length := by
  rw [size] at inside
  constructor
  · intro nul
    refine Nat.le_antisymm (by omega) (Nat.le_of_not_lt fun short => s.noNul ?_)
    rw [byte, List.getElem?_eq_getElem short, Option.getD_some] at nul
    rw [← nul]
    exact List.getElem_mem short
  · rintro rfl
    rw [byte, List.getElem?_eq_none (Nat.le_refl _), Option.getD_none]

/-- An address designates at most one string. -/
theorem At.unique (first : At m a s) (second : At m a t) : s = t := by
  have ends : ∀ {u v : CStr}, At m a u → At m a v → u.chars.length ≤ v.chars.length := by
    intro u v one two
    refine Nat.le_of_not_lt fun short => ?_
    have stop := two v.chars.length (Nat.lt_succ_self _)
    rw [(byte_eq_zero_iff (Nat.lt_succ_self _)).mpr rfl, one _ (Nat.lt_succ_of_lt short)] at stop
    have := (byte_eq_zero_iff (Nat.lt_succ_of_lt short)).mp stop
    omega
  have same : s.chars.length = t.chars.length :=
    Nat.le_antisymm (ends first second) (ends second first)
  have chars : s.chars = t.chars := by
    refine List.ext_getElem same fun i left right => ?_
    have here := first i (Nat.lt_succ_of_lt left)
    rw [second i (Nat.lt_succ_of_lt right), byte, byte, List.getElem?_eq_getElem left,
      List.getElem?_eq_getElem right] at here
    exact here.symm
  obtain ⟨chars', noNul⟩ := s
  subst chars
  rfl

theorem At.congr (here : At m a s) (same : ∀ x, a ≤ x → x < a + s.size → m' x = m x) : At m' a s := by
  intro i inside
  rw [same _ (Nat.le_add_right _ _) (by omega), here i inside]

def strcpy (m : Mem) (a : Nat) (s : CStr) : Mem :=
  fun x => if a ≤ x ∧ x < a + s.size then s.byte (x - a) else m x

theorem strcpy_at (m : Mem) (a : Nat) (s : CStr) : At (strcpy m a s) a s := by
  intro i inside
  rw [strcpy, if_pos ⟨Nat.le_add_right _ _, by omega⟩, Nat.add_sub_cancel_left]

theorem strcpy_frame (outside : x < a ∨ a + s.size ≤ x) : strcpy m a s x = m x :=
  if_neg (by omega)

/-- Bytes of strings that are stored one behind the other. -/
def total : List CStr → Nat
  | [] => 0
  | s :: rest => s.size + total rest

theorem length_le_total (ss : List CStr) : ss.length ≤ total ss := by
  induction ss with
  | nil => exact Nat.le_refl _
  | cons s rest ih =>
    have := s.size_pos
    rw [List.length_cons, total]
    omega

end CStr

/-- `loadWord` after a store at the same address, and at another one. -/
theorem loadWord_store (m : Mem) (w : Write) : loadWord (store m w) w.addr = w.word := by
  rw [loadWord_eq_iff]
  intro i small
  rw [store, if_pos ⟨Nat.le_add_right _ _, by omega⟩, Nat.add_sub_cancel_left]

theorem store_frame {m : Mem} {w : Write} {x : Nat} (outside : x < w.addr ∨ w.addr + 4 ≤ x) :
    store m w x = m x :=
  if_neg fun covered => by
    have := covered.1
    have := covered.2
    omega

end Glopen.Memory

import Glopen.Lib.CStrings
import Glopen.Nacl.MmapFailures

/-! sel_ldr_standard.c: the initial stack that NaClCreateMainThread builds from the arguments and
the environment, up to the start of the thread. -/
namespace Glopen.Nacl

open Memory

namespace Arch

def naclStackAlignMask : Arch → Nat
  | x86_32 | x86_64 => 0xf
  | arm => 0x3

/-- `sizeof(nacl_reg_t)`. -/
def naclRegSize : Arch → Nat
  | x86_32 | arm => 4
  | x86_64 => 8

/-- The alignment of the stack pointer that nacl_config.h asks for above the definition of the
mask: on ARM the public stack alignment of the procedure call standard. -/
def stackAlign : Arch → Nat
  | x86_32 | x86_64 => 16
  | arm => 8

end Arch

/-- The arguments as the preconditions have them: `argc` is positive and counts `argv`. -/
structure MainArgs where
  argv : List CStr
  /-- `none` is the null pointer. -/
  envv : Option (List CStr)
  argc_pos : 0 < argv.length
  argc_int : argv.length < 2 ^ 31

namespace MainArgs

def envs (args : MainArgs) : List CStr := args.envv.getD []

def argc (args : MainArgs) : Nat := args.argv.length

def envc (args : MainArgs) : Nat := args.envs.length

end MainArgs

/-- An `int` with the given bits, converted to `size_t`. -/
def intToSizeT (arch : Arch) (n : Nat) : Nat :=
  if n % 2 ^ 32 < 2 ^ 31 then n % 2 ^ 32 else 2 ^ arch.ptrBits - 2 ^ 32 + n % 2 ^ 32

def addLengths (arch : Arch) (size : Nat) (strings : List CStr) : Nat :=
  strings.foldl (fun size s => (size + s.size) % 2 ^ arch.ptrBits) size

def ptrTblSize (arch : Arch) (args : MainArgs) : Nat :=
  (intToSizeT arch (args.argc + args.envc + 6) * 4 + 4) % 2 ^ arch.ptrBits

/-- The size that is taken from the stack; `none`: the arguments are refused. -/
def mainStackSize (arch : Arch) (nap : NaClApp) (args : MainArgs) : Option Nat :=
  let size := addLengths arch (addLengths arch 0 args.argv) args.envs
  let ptrTbl := ptrTblSize arch args
  if 2 ^ arch.ptrBits - 1 - size < ptrTbl then none
  else
    let size := size + ptrTbl
    let align := arch.naclStackAlignMask + 1
    let size := (size + arch.naclStackAlignMask) % 2 ^ arch.ptrBits / align * align
    if nap.stackSize < size then none else some size

def mainStackPtr (arch : Arch) (nap : NaClApp) (size : Nat) : Nat :=
  subWord arch.ptrBits ((nap.memStart + oneShl arch.ptrBits nap.addrBits) % 2 ^ arch.ptrBits) size

structure Blat where
  p : Nat
  strp : Nat
  mem : Mem

def blat (w : Word) (b : Blat) : Blat :=
  { b with mem := store b.mem ⟨b.p, w⟩, p := b.p + 4 }

/-- `BLAT(nacl_reg_t, n)`. -/
def blatReg (arch : Arch) (n : Nat) (b : Blat) : Blat :=
  let b := blat (BitVec.ofNat 32 n) b
  match arch with
  | .x86_64 => blat (BitVec.ofNat 32 (n / 2 ^ 32)) b
  | _ => b

/-- The pointer to a string in the table, and the string behind those before it; `none` is the
LOG_FATAL abort. -/
def blatString (arch : Arch) (nap : NaClApp) (b : Blat) (s : CStr) : Option Blat := do
  let user ← naClSysToUser arch nap b.strp
  let b := blat (BitVec.ofNat 32 user) b
  return { b with mem := CStr.strcpy b.mem b.strp s, strp := b.strp + s.size }

def writeMainStack (arch : Arch) (nap : NaClApp) (args : MainArgs) (stackPtr : Nat) (mem : Mem) :
    Option Mem := do
  let b := blatReg arch args.argc ⟨stackPtr, stackPtr + ptrTblSize arch args, mem⟩
  let b ← args.argv.foldlM (blatString arch nap) b
  let b ← args.envs.foldlM (blatString arch nap) (blat 0 b)
  return (blat 0 (blat 0 (blat 0 b))).mem

inductive MainThread where
  | refused
  | fatal
  | built (stackPtr : Nat) (mem : Mem)

def naClCreateMainThread (arch : Arch) (nap : NaClApp) (args : MainArgs) (mem : Mem) : MainThread :=
  match mainStackSize arch nap args with
  | none => .refused
  | some size =>
    let stackPtr := mainStackPtr arch nap size
    if stackPtr % (arch.naclStackAlignMask + 1) ≠ 0 then .fatal
    else
      match writeMainStack arch nap args stackPtr mem with
      | none => .fatal
      | some mem => .built stackPtr mem

end Glopen.Nacl

/-! The copy loops of NaClCreateMainThread: pointers and strings grow towards fixed ends and
leave the rest of the memory alone. -/
namespace Glopen.Nacl

open Memory

structure Designates (nap : NaClApp) (mem : Mem) (slot place : Nat) (s : CStr) : Prop where
  pointer : nap.memStart + (loadWord mem slot).toNat = place
  string : ∀ t, CStr.At mem place t ↔ t = s

def Pointers (nap : NaClApp) (mem : Mem) : Nat → Nat → List CStr → Prop
  | _, _, [] => True
  | slot, place, s :: rest =>
    Designates nap mem slot place s ∧ Pointers nap mem (slot + 4) (place + s.size) rest

section Frames

variable {nap : NaClApp} {mem mem' : Mem} {slot place : Nat} {s : CStr}

theorem Designates.congr (here : Designates nap mem slot place s)
    (slots : ∀ x, slot ≤ x → x < slot + 4 → mem' x = mem x)
    (strings : ∀ x, place ≤ x → x < place + s.size → mem' x = mem x) : Designates nap mem' slot place s := by
  have word : loadWord mem' slot = loadWord mem slot :=
    loadWord_congr fun i small => slots _ (Nat.le_add_right _ _) (by omega)
  have there : CStr.At mem' place s := ((here.string s).mpr rfl).congr strings
  refine ⟨by rw [word]; exact here.pointer, fun t => ⟨fun other => other.unique there, ?_⟩⟩
  rintro rfl
  exact there

theorem Pointers.congr {strings : List CStr} (here : Pointers nap mem slot place strings)
    (slots : ∀ x, slot ≤ x → x < slot + 4 * strings.length → mem' x = mem x)
    (chars : ∀ x, place ≤ x → x < place + CStr.total strings → mem' x = mem x) :
    Pointers nap mem' slot place strings := by
  induction strings generalizing slot place with
  | nil => trivial
  | cons s rest ih =>
    rw [List.length_cons] at slots
    rw [CStr.total] at chars
    refine ⟨here.1.congr ?_ ?_, ih here.2 ?_ ?_⟩
    · exact fun x lower upper => slots x lower (by omega)
    · exact fun x lower upper => chars x lower (by omega)
    · exact fun x lower upper => slots x (by omega) (by omega)
    · exact fun x lower upper => chars x (by omega) (by omega)

structure Extends (b b' : Blat) : Prop where
  p : b.p ≤ b'.p
  strp : b.strp ≤ b'.strp
  frame : ∀ x, (x < b.p ∨ b'.p ≤ x) → (x < b.strp ∨ b'.strp ≤ x) → b'.mem x = b.mem x

variable {b b' b'' : Blat}

theorem Extends.trans (first : Extends b b') (second : Extends b' b'') : Extends b b'' := by
  have p := first.p
  have p' := second.p
  have strp := first.strp
  have strp' := second.strp
  refine ⟨by omega, by omega, fun x slots strings => ?_⟩
  rw [second.frame x (by omega) (by omega), first.frame x (by omega) (by omega)]

theorem Extends.loadWord (later : Extends b b') {a : Nat} (table : a + 4 ≤ b.p)
    (apart : b'.p ≤ b.strp) : loadWord b'.mem a = loadWord b.mem a := by
  have p := later.p
  exact loadWord_congr fun i small => later.frame _ (by omega) (by omega)

theorem Extends.pointers (later : Extends b b') {strings : List CStr}
    (here : Pointers nap b.mem slot place strings) (table : slot + 4 * strings.length ≤ b.p)
    (apart : b'.p ≤ place) (below : place + CStr.total strings ≤ b.strp) :
    Pointers nap b'.mem slot place strings := by
  have p := later.p
  have strp := later.strp
  exact here.congr (fun x lower upper => later.frame x (by omega) (by omega))
    (fun x lower upper => later.frame x (by omega) (by omega))

theorem blat_extends (w : Word) (b : Blat) : Extends b (blat w b) :=
  ⟨Nat.le_add_right _ _, le_rfl, fun _ slots _ => store_frame slots⟩

theorem blat_word (w : Word) (b : Blat) : loadWord (blat w b).mem b.p = w :=
  loadWord_store b.mem ⟨b.p, w⟩

end Frames

section Copy

variable {arch : Arch} {nap : NaClApp} {b : Blat}

theorem blatString_step (placed : SpacePlaced arch nap) {s : CStr} (apart : b.p + 4 ≤ b.strp)
    (low : nap.memStart ≤ b.strp) (fits : b.strp + s.size ≤ nap.memStart + 2 ^ nap.addrBits) :
    ∃ b', blatString arch nap b s = some b' ∧ b'.p = b.p + 4 ∧ b'.strp = b.strp + s.size ∧
      Extends b b' ∧ Designates nap b'.mem b.p b.strp s := by
  have positive := s.size_pos
  have below := placed.below
  have small : b.strp - nap.memStart < 2 ^ 32 := by
    have : 2 ^ nap.addrBits ≤ 2 ^ 32 :=
      Nat.pow_le_pow_right (by decide) (Nat.le_trans placed.most arch.naclMaxAddrBits_le)
    omega
  have user : naClSysToUser arch nap b.strp = some (b.strp - nap.memStart) := by
    have found := @sysToUser_placed arch nap (b.strp - nap.memStart) placed (by omega)
    rwa [Nat.sub_add_cancel low, Nat.mod_eq_of_lt (by omega)] at found
  have step : blatString arch nap b s = some ⟨b.p + 4, b.strp + s.size, CStr.strcpy
      (store b.mem ⟨b.p, BitVec.ofNat 32 (b.strp - nap.memStart)⟩) b.strp s⟩ := by
    simp only [blatString, user, Option.bind_eq_bind, Option.bind_some]
    rfl
  generalize pointer : BitVec.ofNat 32 (b.strp - nap.memStart) = w at step
  refine ⟨_, step, rfl, rfl, ⟨Nat.le_add_right _ _, Nat.le_add_right _ _, ?_⟩, ?_, fun t => ?_⟩
  · intro x slots strings
    exact (CStr.strcpy_frame strings).trans (store_frame slots)
  · have kept : loadWord (CStr.strcpy (store b.mem ⟨b.p, w⟩) b.strp s) b.p =
        loadWord (store b.mem ⟨b.p, w⟩) b.p :=
      loadWord_congr fun i four => CStr.strcpy_frame (Or.inl (by omega))
    rw [kept, loadWord_store b.mem ⟨b.p, w⟩, ← pointer, BitVec.toNat_ofNat, Nat.mod_eq_of_lt small]
    omega
  · have there := CStr.strcpy_at (store b.mem ⟨b.p, w⟩) b.strp s
    exact ⟨fun other => other.unique there, fun same => by rw [same]; exact there⟩

theorem blatStrings_run (placed : SpacePlaced arch nap) (strings : List CStr)
    (apart : b.p + 4 * strings.length ≤ b.strp) (low : nap.memStart ≤ b.strp)
    (fits : b.strp + CStr.total strings ≤ nap.memStart + 2 ^ nap.addrBits) :
    ∃ b', strings.foldlM (blatString arch nap) b = some b' ∧
      b'.p = b.p + 4 * strings.length ∧ b'.strp = b.strp + CStr.total strings ∧
      Extends b b' ∧ Pointers nap b'.mem b.p b.strp strings := by
  induction strings generalizing b with
  | nil => exact ⟨b, rfl, rfl, rfl, ⟨le_rfl, le_rfl, fun _ _ _ => rfl⟩, trivial⟩
  | cons s rest ih =>
    rw [List.length_cons] at apart
    rw [CStr.total] at fits
    obtain ⟨b₁, step, p, strp, first, here⟩ :=
      blatString_step placed (s := s) (by omega) low (by omega)
    obtain ⟨b', run, p', strp', later, there⟩ :=
      ih (by rw [p, strp]; omega) (by rw [strp]; omega) (by rw [strp]; omega)
    rw [p, strp] at there
    refine ⟨b', ?_, ?_, ?_, first.trans later, here.congr ?_ ?_, there⟩
    · rw [List.foldlM_cons, step]
      exact run
    · rw [p', p, List.length_cons]
      omega
    · rw [strp', strp, CStr.total, Nat.add_assoc]
    · exact fun x lower upper => later.frame x (by omega) (by omega)
    · exact fun x lower upper => later.frame x (by omega) (by omega)

end Copy

end Glopen.Nacl

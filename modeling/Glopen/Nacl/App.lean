import Glopen.Nacl.CopyCode

/-! The parts of `struct NaClApp` that place code and data, and the address
arithmetic of sel_util-inl.h and sel_ldr-inl.h in words of the host's pointer size. -/
namespace Glopen.Nacl

open Memory

inductive Arch where
  | x86_32
  | x86_64
  | arm
deriving DecidableEq, Repr

namespace Arch

/-- Width of `uintptr_t`, `size_t` and of the ELF address type. -/
def ptrBits : Arch → Nat
  | x86_32 | arm => 32
  | x86_64 => 64

def naclMaxAddrBits : Arch → Nat
  | x86_32 | arm => 30
  | x86_64 => 32

def haltWord : Arch → Word
  | x86_32 | x86_64 => 0xf4f4f4f4#32
  | arm => 0xe1266676#32

theorem naclMaxAddrBits_lt (arch : Arch) : arch.naclMaxAddrBits < arch.ptrBits := by
  cases arch <;> decide

theorem naclMaxAddrBits_le (arch : Arch) : arch.naclMaxAddrBits ≤ 32 := by
  cases arch <;> decide

end Arch

def naclPagesize : Nat := 0x1000
def naclMapPagesize : Nat := 0x10000
def naclSyscallStartAddr : Nat := 0x10000
def naclTrampolineEnd : Nat := 0x20000
def naclHaltSledSize : Nat := 32

/-- `(n + page - 1) & ~(page - 1)` in `width`-bit arithmetic, for a power of two `page`. -/
def roundUp (width page n : Nat) : Nat := (n + page - 1) % 2 ^ width / page * page

/-- `n & ~(page - 1)`. -/
def truncTo (page n : Nat) : Nat := n / page * page

def naClRoundPage (arch : Arch) (n : Nat) : Nat := roundUp arch.ptrBits naclPagesize n
def naClRoundAllocPage (arch : Arch) (n : Nat) : Nat := roundUp arch.ptrBits naclMapPagesize n
def naClTruncAllocPage (n : Nat) : Nat := truncTo naclMapPagesize n

def subWord (width a b : Nat) : Nat := (a + (2 ^ width - b % 2 ^ width)) % 2 ^ width

/-- `(uintptr_t) 1U << bits`. -/
def oneShl (width bits : Nat) : Nat := 2 ^ bits % 2 ^ width

theorem subWord_of_le {width a b : Nat} (order : b ≤ a) (small : a < 2 ^ width) : subWord width a b = a - b := by
  have reduced : b % 2 ^ width = b := Nat.mod_eq_of_lt (by omega)
  rw [subWord, reduced, show a + (2 ^ width - b) = a - b + 2 ^ width by omega,
    Nat.add_mod_right, Nat.mod_eq_of_lt (by omega)]

theorem oneShl_of_lt {width bits : Nat} (small : bits < width) : oneShl width bits = 2 ^ bits :=
  Nat.mod_eq_of_lt (Nat.pow_lt_pow_right (by decide) small)

structure VmmapEntry where
  pageNum : Nat
  npages : Nat
  prot : Nat
deriving DecidableEq, Repr

structure NaClApp where
  addrBits : Nat
  stackSize : Nat
  memStart : Nat
  staticTextEnd : Nat
  dynamicTextStart : Nat
  dynamicTextEnd : Nat
  rodataStart : Nat
  dataStart : Nat
  dataEnd : Nat
  breakAddr : Nat
  entryPt : Nat
  bundleSize : BundleSize
  useShmForDynamicText : Bool
  ignoreValidatorResult : Bool
  /-- Contents of the shared memory object behind the dynamic text, by offset. -/
  textShm : Option Mem
  memMap : List VmmapEntry

def kNaClBadAddress (arch : Arch) : Nat := 2 ^ arch.ptrBits - 1

def naClUserToSysAddrRange (arch : Arch) (nap : NaClApp) (uaddr count : Nat) : Nat :=
  if uaddr = 0 then kNaClBadAddress arch
  else
    let endAddr := (uaddr + count) % 2 ^ arch.ptrBits
    if endAddr < uaddr then kNaClBadAddress arch
    else if oneShl arch.ptrBits nap.addrBits ≤ endAddr then kNaClBadAddress arch
    else (uaddr + nap.memStart) % 2 ^ arch.ptrBits

/-- `none` is the LOG_FATAL abort. -/
def naClUserToSys (arch : Arch) (nap : NaClApp) (uaddr : Nat) : Option Nat :=
  if uaddr = 0 ∨ oneShl arch.ptrBits nap.addrBits ≤ uaddr then none
  else some ((uaddr + nap.memStart) % 2 ^ arch.ptrBits)

def naClSysToUser (arch : Arch) (nap : NaClApp) (sysaddr : Nat) : Option Nat :=
  if sysaddr < nap.memStart ∨
      (nap.memStart + oneShl arch.ptrBits nap.addrBits) % 2 ^ arch.ptrBits ≤ sysaddr then none
  else some (sysaddr - nap.memStart)

theorem naClUserToSysAddrRange_bounds {arch : Arch} {nap : NaClApp} {uaddr count : Nat}
    (valid : naClUserToSysAddrRange arch nap uaddr count ≠ kNaClBadAddress arch)
    (hu : uaddr < 2 ^ 32) (hc : count < 2 ^ 32) (bits : nap.addrBits ≤ arch.naclMaxAddrBits) :
    0 < uaddr ∧ uaddr + count < 2 ^ nap.addrBits := by
  have small := Nat.lt_of_le_of_lt bits arch.naclMaxAddrBits_lt
  rw [naClUserToSysAddrRange, oneShl_of_lt small] at valid
  split at valid
  · contradiction
  rename_i nonzero
  simp only at valid
  split at valid
  · contradiction
  rename_i no_wrap
  split at valid
  · contradiction
  rename_i below
  have space : 2 ^ nap.addrBits ≤ 2 ^ arch.ptrBits :=
    Nat.pow_le_pow_right (by decide) (Nat.le_of_lt small)
  have width : 2 ^ 32 ≤ 2 ^ arch.ptrBits :=
    Nat.pow_le_pow_right (by decide) (by cases arch <;> decide)
  by_cases wraps : uaddr + count < 2 ^ arch.ptrBits
  · rw [Nat.mod_eq_of_lt wraps] at below
    omega
  · have once : (uaddr + count) % 2 ^ arch.ptrBits = uaddr + count - 2 ^ arch.ptrBits := by
      rw [Nat.mod_eq_sub_mod (by omega), Nat.mod_eq_of_lt (by omega)]
    omega

end Glopen.Nacl

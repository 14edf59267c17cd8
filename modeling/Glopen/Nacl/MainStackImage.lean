import Glopen.Nacl.MainStack

/-! The initial stack is as the program expects it exactly when the sizes do not overflow and, on
ARM, round to a multiple of the stack alignment. -/
namespace Glopen.Nacl

open Memory

/-- `nacl_reg_t` at an address. -/
def loadReg (arch : Arch) (mem : Mem) (a : Nat) : Nat :=
  match arch with
  | .x86_64 => (loadWord mem a).toNat + 2 ^ 32 * (loadWord mem (a + 4)).toNat
  | _ => (loadWord mem a).toNat

/-- The stack of a new program: `argc`, the pointers to the arguments and to the environment, each
ended by a null pointer, and an empty auxiliary vector; then, from `strings` on, the strings. -/
structure StackImage (arch : Arch) (nap : NaClApp) (args : MainArgs) (ptr strings : Nat)
    (mem : Mem) : Prop where
  aligned : ptr % arch.stackAlign = 0
  argc : loadReg arch mem ptr = args.argc
  argv : Pointers nap mem (ptr + arch.naclRegSize) strings args.argv
  argvEnd : loadWord mem (ptr + arch.naclRegSize + 4 * args.argc) = 0
  envp : Pointers nap mem (ptr + arch.naclRegSize + 4 * (args.argc + 1))
    (strings + CStr.total args.argv) args.envs
  envpEnd : loadWord mem (ptr + arch.naclRegSize + 4 * (args.argc + 1 + args.envc)) = 0
  auxv : loadWord mem (ptr + arch.naclRegSize + 4 * (args.argc + 1 + args.envc + 1)) = 0 ∧
    loadWord mem (ptr + arch.naclRegSize + 4 * (args.argc + 1 + args.envc + 2)) = 0
  apart : ptr + arch.naclRegSize + 4 * (args.argc + 1 + args.envc + 3) ≤ strings
  inside : nap.memStart + 2 ^ nap.addrBits ≤ ptr + nap.stackSize ∧
    strings + CStr.total args.argv + CStr.total args.envs ≤ nap.memStart + 2 ^ nap.addrBits

def BuildsImage (arch : Arch) (nap : NaClApp) (args : MainArgs) (mem : Mem) : Prop :=
  ∃ ptr strings mem', naClCreateMainThread arch nap args mem = .built ptr mem' ∧
    StackImage arch nap args ptr strings mem'

structure StackPlaced (arch : Arch) (nap : NaClApp) : Prop extends SpacePlaced arch nap where
  aligned : nap.memStart % naclPagesize = 0
  stack : nap.stackSize < 2 ^ nap.addrBits

def imageSize (args : MainArgs) : Nat :=
  CStr.total args.argv + CStr.total args.envs + (4 * (args.argc + args.envc + 6) + 4)

/-- No sum of NaClCreateMainThread overflows, and on ARM the sizes make up an even number of
words. -/
structure Regular (arch : Arch) (args : MainArgs) : Prop where
  count : args.argc + args.envc + 6 < 2 ^ 31
  sum : imageSize args + arch.naclStackAlignMask < 2 ^ arch.ptrBits
  arm : arch = .arm → (imageSize args + 3) / 4 % 2 = 0

variable {arch : Arch} {nap : NaClApp} {args : MainArgs} {size : Nat} {mem : Mem} {ptr : Nat}

theorem addLengths_eq (arch : Arch) (start : Nat) (strings : List CStr) :
    addLengths arch start strings % 2 ^ arch.ptrBits = (start + CStr.total strings) % 2 ^ arch.ptrBits := by
  induction strings generalizing start with
  | nil => rfl
  | cons s rest ih =>
    have tail := ih ((start + s.size) % 2 ^ arch.ptrBits)
    rw [Nat.mod_add_mod] at tail
    rw [CStr.total, ← Nat.add_assoc, ← tail]
    rfl

theorem addLengths_lt (start : Nat) (strings : List CStr) (small : start < 2 ^ arch.ptrBits) :
    addLengths arch start strings < 2 ^ arch.ptrBits := by
  induction strings generalizing start with
  | nil => exact small
  | cons s rest ih => exact ih _ (Nat.mod_lt _ (Nat.two_pow_pos _))

theorem lengths_eq (arch : Arch) (args : MainArgs) : addLengths arch (addLengths arch 0 args.argv) args.envs =
      (CStr.total args.argv + CStr.total args.envs) % 2 ^ arch.ptrBits := by
  have first := addLengths_lt 0 args.argv (Nat.two_pow_pos arch.ptrBits)
  have second := addLengths_lt _ args.envs first
  have total := addLengths_eq arch (addLengths arch 0 args.argv) args.envs
  rw [Nat.mod_eq_of_lt second] at total
  rw [total, Nat.add_mod, addLengths_eq, Nat.zero_add, Nat.mod_add_mod, Nat.add_mod_mod]

theorem ptrTblSize_eq (count : args.argc + args.envc + 6 < 2 ^ 31)
    (sum : 4 * (args.argc + args.envc + 6) + 4 < 2 ^ arch.ptrBits) :
    ptrTblSize arch args = 4 * (args.argc + args.envc + 6) + 4 := by
  rw [ptrTblSize, intToSizeT, Nat.mod_eq_of_lt (count.trans (by decide)), if_pos count,
    Nat.mul_comm, Nat.mod_eq_of_lt sum]

/-- Without overflow the strings and the table fit into the size, which is a multiple of the
alignment. -/
theorem mainStackSize_regular (count : args.argc + args.envc + 6 < 2 ^ 31)
    (sum : imageSize args + arch.naclStackAlignMask < 2 ^ arch.ptrBits)
    (accepted : mainStackSize arch nap args = some size) :
    ptrTblSize arch args = 4 * (args.argc + args.envc + 6) + 4 ∧ size ≤ nap.stackSize ∧
      size = (imageSize args + arch.naclStackAlignMask) / (arch.naclStackAlignMask + 1) *
        (arch.naclStackAlignMask + 1) := by
  unfold imageSize at sum
  have table := @ptrTblSize_eq arch args count (by omega)
  refine ⟨table, ?_⟩
  unfold mainStackSize at accepted
  simp only [lengths_eq, table] at accepted
  rw [Nat.mod_eq_of_lt (by omega), if_neg (by omega), Nat.mod_eq_of_lt sum] at accepted
  split at accepted
  · contradiction
  · rename_i fits
    cases accepted
    exact ⟨not_lt.mp fits, rfl⟩

theorem mainStackSize_le (accepted : mainStackSize arch nap args = some size) : size ≤ nap.stackSize := by
  unfold mainStackSize at accepted
  simp only at accepted
  split at accepted
  · contradiction
  split at accepted
  · contradiction
  · rename_i fits
    cases accepted
    exact not_lt.mp fits

theorem mainStackPtr_eq (placed : StackPlaced arch nap) (small : size ≤ nap.stackSize) :
    mainStackPtr arch nap size = nap.memStart + 2 ^ nap.addrBits - size := by
  have below := placed.below
  have stack := placed.stack
  rw [mainStackPtr, placed.toSpaceBits.word.1, Nat.mod_eq_of_lt below, subWord_of_le (by omega) below]

theorem built_ptr {mem' : Mem} (accepted : mainStackSize arch nap args = some size)
    (built : naClCreateMainThread arch nap args mem = .built ptr mem') : ptr = mainStackPtr arch nap size := by
  unfold naClCreateMainThread at built
  rw [accepted] at built
  simp only at built
  split at built
  · contradiction
  split at built
  · contradiction
  · cases built
    rfl

section Image

variable {b b' : Blat}

theorem Extends.loadReg (later : Extends b b') {a : Nat} (table : a + arch.naclRegSize ≤ b.p)
    (apart : b'.p ≤ b.strp) : loadReg arch b'.mem a = loadReg arch b.mem a := by
  cases arch with
  | x86_64 =>
    simp only [Arch.naclRegSize] at table
    simp only [Nacl.loadReg]
    rw [later.loadWord (by omega) apart, later.loadWord (by omega) apart]
  | x86_32 =>
    simp only [Arch.naclRegSize] at table
    simp only [Nacl.loadReg]
    rw [later.loadWord (by omega) apart]
  | arm =>
    simp only [Arch.naclRegSize] at table
    simp only [Nacl.loadReg]
    rw [later.loadWord (by omega) apart]

theorem blatReg_run (arch : Arch) {n : Nat} (b : Blat) (small : n < 2 ^ 32) :
    Extends b (blatReg arch n b) ∧ (blatReg arch n b).p = b.p + arch.naclRegSize ∧
      (blatReg arch n b).strp = b.strp ∧ loadReg arch (blatReg arch n b).mem b.p = n := by
  have low : (loadWord (blat (BitVec.ofNat 32 n) b).mem b.p).toNat = n := by
    rw [blat_word, BitVec.toNat_ofNat, Nat.mod_eq_of_lt small]
  cases arch with
  | x86_64 =>
    refine ⟨(blat_extends _ b).trans (blat_extends _ _), rfl, rfl, ?_⟩
    have kept : loadWord (blat (BitVec.ofNat 32 (n / 2 ^ 32)) (blat (BitVec.ofNat 32 n) b)).mem b.p =
        loadWord (blat (BitVec.ofNat 32 n) b).mem b.p :=
      loadWord_congr fun i four => store_frame (.inl (by simp only [blat]; omega))
    have high := blat_word (BitVec.ofNat 32 (n / 2 ^ 32)) (blat (BitVec.ofNat 32 n) b)
    simp only [loadReg, blatReg]
    rw [kept, low, show b.p + 4 = (blat (BitVec.ofNat 32 n) b).p from rfl, high,
      BitVec.toNat_ofNat, Nat.div_eq_of_lt small, Nat.zero_mod, Nat.mul_zero, Nat.add_zero]
  | x86_32 => exact ⟨blat_extends _ b, rfl, rfl, low⟩
  | arm => exact ⟨blat_extends _ b, rfl, rfl, low⟩

theorem naclRegSize_le (arch : Arch) : 4 ≤ arch.naclRegSize ∧ arch.naclRegSize ≤ 8 := by
  cases arch <;> decide

section

variable (placed : StackPlaced arch nap)
include placed

theorem writeMainStack_image (mem : Mem) (aligned : ptr % arch.stackAlign = 0)
    (table : ptrTblSize arch args = 4 * (args.argc + args.envc + 6) + 4)
    (bottom : nap.memStart + 2 ^ nap.addrBits ≤ ptr + nap.stackSize)
    (fits : ptr + imageSize args ≤ nap.memStart + 2 ^ nap.addrBits) :
    ∃ mem', writeMainStack arch nap args ptr mem = some mem' ∧
      StackImage arch nap args ptr (ptr + ptrTblSize arch args) mem' := by
  have reg := naclRegSize_le arch
  have stack := placed.stack
  have argc : args.argv.length = args.argc := rfl
  have envc : args.envs.length = args.envc := rfl
  have int := args.argc_int
  unfold imageSize at fits
  obtain ⟨e₁, p₁, strp₁, word₁⟩ := blatReg_run arch (n := args.argc)
    ⟨ptr, ptr + ptrTblSize arch args, mem⟩ (by omega)
  simp only at p₁ strp₁ word₁
  unfold writeMainStack
  generalize blatReg arch args.argc ⟨ptr, ptr + ptrTblSize arch args, mem⟩ = b₁ at *
  obtain ⟨b₂, run₂, p₂, strp₂, e₂, argv⟩ := @blatStrings_run arch nap b₁ placed.toSpacePlaced
    args.argv (by omega) (by omega) (by omega)
  have e₃ := blat_extends 0 b₂
  have word₃ := blat_word 0 b₂
  have p₃ : (blat 0 b₂).p = b₂.p + 4 := rfl
  have strp₃ : (blat 0 b₂).strp = b₂.strp := rfl
  generalize third : blat 0 b₂ = b₃ at *
  obtain ⟨b₄, run₄, p₄, strp₄, e₄, envp⟩ := @blatStrings_run arch nap b₃ placed.toSpacePlaced
    args.envs (by omega) (by omega) (by omega)
  have e₅ := blat_extends 0 b₄
  have word₅ := blat_word 0 b₄
  have p₅ : (blat 0 b₄).p = b₄.p + 4 := rfl
  have strp₅ : (blat 0 b₄).strp = b₄.strp := rfl
  generalize fifth : blat 0 b₄ = b₅ at *
  have e₆ := blat_extends 0 b₅
  have word₆ := blat_word 0 b₅
  have p₆ : (blat 0 b₅).p = b₅.p + 4 := rfl
  have strp₆ : (blat 0 b₅).strp = b₅.strp := rfl
  generalize sixth : blat 0 b₅ = b₆ at *
  have e₇ := blat_extends 0 b₆
  have word₇ := blat_word 0 b₆
  have p₇ : (blat 0 b₆).p = b₆.p + 4 := rfl
  generalize seventh : blat 0 b₆ = b₇ at *
  -- what each later write leaves alone
  have from₅ := e₆.trans e₇
  have from₄ := e₅.trans from₅
  have from₃ := e₄.trans from₄
  have from₂ := e₃.trans from₃
  have from₁ := e₂.trans from₂
  refine ⟨b₇.mem, ?_, aligned, ?_, ?_, ?_, ?_, ?_, ⟨?_, ?_⟩, ?_, bottom, ?_⟩
  · simp only [run₂, third, run₄, fifth, sixth, seventh, Option.bind_eq_bind, Option.bind_some]
    rfl
  · rw [from₁.loadReg (by omega) (by omega), word₁]
  · rw [← p₁, ← strp₁]
    exact from₂.pointers argv (by omega) (by omega) (by omega)
  · rw [show ptr + arch.naclRegSize + 4 * args.argc = b₂.p by omega, from₃.loadWord (by omega) (by omega), word₃]
  · rw [show ptr + arch.naclRegSize + 4 * (args.argc + 1) = b₃.p by omega,
      show ptr + ptrTblSize arch args + CStr.total args.argv = b₃.strp by omega]
    exact from₄.pointers envp (by omega) (by omega) (by omega)
  · rw [show ptr + arch.naclRegSize + 4 * (args.argc + 1 + args.envc) = b₄.p by omega,
      from₅.loadWord (by omega) (by omega), word₅]
  · rw [show ptr + arch.naclRegSize + 4 * (args.argc + 1 + args.envc + 1) = b₅.p by omega,
      e₇.loadWord (by omega) (by omega), word₆]
  · rw [show ptr + arch.naclRegSize + 4 * (args.argc + 1 + args.envc + 2) = b₆.p by omega, word₇]
  · omega
  · omega

theorem StackPlaced.top : (nap.memStart + 2 ^ nap.addrBits) % 16 = 0 := by
  have start := placed.aligned
  have space := placed.toSpaceBits.word.2.2
  simp only [naclPagesize] at start
  omega

theorem builds_of_regular
    (accepted : mainStackSize arch nap args = some size) (regular : Regular arch args) (mem : Mem) :
    BuildsImage arch nap args mem := by
  obtain ⟨table, small, rounded⟩ := mainStackSize_regular regular.count regular.sum accepted
  have ptr := mainStackPtr_eq placed small
  have top := placed.top
  have stack := placed.stack
  have arm := regular.arm
  have both : (mainStackPtr arch nap size) % (arch.naclStackAlignMask + 1) = 0 ∧
      (mainStackPtr arch nap size) % arch.stackAlign = 0 ∧ imageSize args ≤ size := by
    rw [ptr]
    cases arch with
    | arm =>
      simp only [Arch.naclStackAlignMask, Arch.stackAlign, forall_const] at *
      omega
    | x86_32 =>
      simp only [Arch.naclStackAlignMask, Arch.stackAlign] at *
      omega
    | x86_64 =>
      simp only [Arch.naclStackAlignMask, Arch.stackAlign] at *
      omega
  obtain ⟨mem', wrote, image⟩ := writeMainStack_image placed mem both.2.1 table (by omega) (by omega)
  refine ⟨_, _, mem', ?_, image⟩
  unfold naClCreateMainThread
  simp only [accepted]
  rw [if_neg (by rw [both.1]; simp), wrote]

theorem regular_of_builds
    (accepted : mainStackSize arch nap args = some size) (builds : BuildsImage arch nap args mem) :
    Regular arch args := by
  obtain ⟨ptr, strings, mem', built, image⟩ := builds
  have small := mainStackSize_le accepted
  have place := (built_ptr accepted built).trans (mainStackPtr_eq placed small)
  have reg := naclRegSize_le arch
  have stack := placed.stack
  have space : 2 ^ nap.addrBits ≤ 2 ^ 32 :=
    Nat.pow_le_pow_right (by decide) (placed.most.trans arch.naclMaxAddrBits_le)
  have word : 2 ^ 32 ≤ 2 ^ arch.ptrBits :=
    Nat.pow_le_pow_right (by decide) (by cases arch <;> decide)
  have apart := image.apart
  have inside := image.inside.2
  have argv := CStr.length_le_total args.argv
  have envs := CStr.length_le_total args.envs
  have argc : args.argv.length = args.argc := rfl
  have envc : args.envs.length = args.envc := rfl
  have taken : arch.naclRegSize + 4 * (args.argc + 1 + args.envc + 3) + CStr.total args.argv +
      CStr.total args.envs ≤ size := by omega
  have count : args.argc + args.envc + 6 < 2 ^ 31 := by omega
  have table := @ptrTblSize_eq arch args count (by omega)
  have sum : imageSize args + arch.naclStackAlignMask < 2 ^ arch.ptrBits := by
    refine not_le.mp fun wraps => ?_
    have mask : arch.naclStackAlignMask ≤ 15 := by cases arch <;> decide
    unfold mainStackSize at accepted
    simp only [lengths_eq, table] at accepted
    rw [Nat.mod_eq_of_lt (by omega)] at accepted
    split at accepted
    · contradiction
    rename_i checked
    have below : imageSize args < 2 ^ arch.ptrBits := by
      unfold imageSize
      omega
    have rest : (imageSize args + arch.naclStackAlignMask) % 2 ^ arch.ptrBits < arch.naclStackAlignMask + 1 := by
      rw [Nat.mod_eq_sub_mod wraps, Nat.mod_eq_of_lt (by omega)]
      omega
    unfold imageSize at rest
    rw [Nat.div_eq_of_lt rest, Nat.zero_mul] at accepted
    split at accepted
    · contradiction
    · have := Option.some.inj accepted
      omega
  refine ⟨count, sum, ?_⟩
  rintro rfl
  have top := placed.top
  have aligned := image.aligned
  have rounded := (mainStackSize_regular count sum accepted).2.2
  simp only [Arch.naclStackAlignMask, Arch.stackAlign] at *
  omega

end

/-- An accepted stack is the image of the arguments exactly when the arguments are regular. -/
theorem main_stack_image_iff (placed : StackPlaced arch nap) (mem : Mem)
    (accepted : mainStackSize arch nap args = some size) : BuildsImage arch nap args mem ↔ Regular arch args :=
  ⟨regular_of_builds placed accepted, fun regular => builds_of_regular placed accepted regular mem⟩

end Image

def nameOnly : MainArgs where
  argv := [⟨[97], by decide⟩]
  envv := none
  argc_pos := by decide
  argc_int := by decide

theorem wideApp_stackPlaced : StackPlaced .x86_64 wideApp :=
  { wideApp_placed with aligned := by decide, stack := by decide }

theorem main_stack_image_nameOnly :
    BuildsImage .x86_64 wideApp nameOnly (fun _ => 0) ↔ Regular .x86_64 nameOnly :=
  @main_stack_image_iff .x86_64 wideApp nameOnly 48 wideApp_stackPlaced (fun _ => 0) (by decide)

theorem freshApp_stackPlaced : StackPlaced .arm freshApp where
  least := by decide
  most := by decide
  below := by decide
  aligned := by decide
  stack := by decide

/-- On ARM 34 bytes are rounded to 36, and the stack pointer is not a multiple of 8. -/
theorem arm_stack_unaligned : mainStackSize .arm freshApp nameOnly = some 36 ∧
    ¬ BuildsImage .arm freshApp nameOnly (fun _ => 0) := by
  have accepted : mainStackSize .arm freshApp nameOnly = some 36 := by decide
  refine ⟨accepted, fun builds => ?_⟩
  have regular := regular_of_builds freshApp_stackPlaced accepted builds
  exact absurd (regular.arm rfl) (by decide)

end Glopen.Nacl

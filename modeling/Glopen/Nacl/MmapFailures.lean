import Glopen.Nacl.MmapCoverage

/-! What a mapping that fails has done by then. -/
namespace Glopen.Nacl

open Memory Run
variable {arch : Arch} {call : MmapCall} {k : Kernel}

def MmapAtomic (arch : Arch) (call : MmapCall) (k : Kernel) : Prop :=
  ∀ rv, (naClCommonSysMmap arch call k).2 = some rv → IsErrno rv →
    (naClCommonSysMmap arch call k).1.app.memMap = k.app.memMap ∧
      (naClCommonSysMmap arch call k).1.replaced = k.replaced

structure SpacePlaced (arch : Arch) (nap : NaClApp) : Prop extends SpaceBits arch nap where
  below : nap.memStart + 2 ^ nap.addrBits < 2 ^ arch.ptrBits

/-- The checks pass, the file ends inside the last allocation page that it is mapped to, and the
host maps the file but no zeros behind it. -/
def ZeroFillFails (arch : Arch) (call : MmapCall) (nap : NaClApp) : Prop :=
  ∃ plan sysaddr, mmapPlan arch nap call = some (.ok plan) ∧
    naClUserToSys arch nap plan.usraddr = some sysaddr ∧
    plan.length < plan.startOfInaccessible ∧ call.map sysaddr = sysaddr ∧
    naClIsNegErrno (call.map sysaddr) = false ∧ naClIsNegErrno call.zeroFill = true

theorem sysToUser_placed {nap : NaClApp} {uaddr : Nat} (placed : SpacePlaced arch nap)
    (inside : uaddr < 2 ^ nap.addrBits) :
    naClSysToUser arch nap ((uaddr + nap.memStart) % 2 ^ arch.ptrBits) = some uaddr := by
  have below := placed.below
  unfold naClSysToUser
  rw [placed.toSpaceBits.word.1, Nat.mod_eq_of_lt (by omega), Nat.mod_eq_of_lt below,
    if_neg (by omega), Nat.add_sub_cancel]

theorem update_succeeds {start nbytes prot : Nat} (placed : SpacePlaced arch k.app)
    (inside : start < 2 ^ k.app.addrBits) (whole : naclPagesize ≤ nbytes) :
    ∃ map, k.update arch ((start + k.app.memStart) % 2 ^ arch.ptrBits) nbytes prot false =
      some { k with app := { k.app with memMap := map } } := by
  have pages : nbytes / naclPagesize ≠ 0 := Nat.ne_of_gt (Nat.div_pos whole (by decide))
  refine ⟨(carve (start / naclPagesize) (start / naclPagesize + nbytes / naclPagesize)
      (naClVmmapMakeSorted k.app.memMap)).1 ++
    (carve (start / naclPagesize) (start / naclPagesize + nbytes / naclPagesize)
      (naClVmmapMakeSorted k.app.memMap)).2 ++
    [⟨start / naclPagesize, nbytes / naclPagesize, prot⟩], ?_⟩
  simp only [Kernel.update, naClCommonUtilUpdateAddrMap, sysToUser_placed placed inside,
    naClVmmapUpdate, if_neg pages, Option.bind_eq_bind, Option.bind_some, Bool.false_eq_true,
    if_false]
  rw [if_neg (by simp)]
  rfl

variable {plan : MmapPlan} {sysaddr : Nat}

theorem zero_fill_behind_file {nap : NaClApp} (bits : SpaceBits arch nap)
    (planned : mmapPlan arch nap call = some (.ok plan))
    (zeros : plan.length < plan.startOfInaccessible) : naclPagesize ≤ plan.length := by
  have fitsWord : ¬ LengthWraps arch call := by
    intro wraps
    have accepted := mmapPlan_accepted planned
    obtain ⟨bytes, rounded, -, -, accessible⟩ := accepted.file
    rw [accepted.total, roundAlloc_wraps wraps, Nat.zero_min] at accessible
    omega
  have whole := mmapPlan_whole bits fitsWord planned
  have total := whole.total
  simp only [naclMapPagesize, naclPagesize] at *
  rcases whole.file with ⟨-, first, second⟩ | ⟨size, -, -, first, second⟩
  · omega
  · omega

theorem mapFile_mapped {asked k₁ : Kernel}
    (some_file : 0 < plan.length) (ran : mapFile arch call plan sysaddr k = (asked, some k₁)) :
    call.map sysaddr = sysaddr ∧ naClIsNegErrno (call.map sysaddr) = false := by
  unfold mapFile at ran
  rw [if_neg (Nat.ne_of_gt some_file)] at ran
  simp only at ran
  split at ran
  · cases ran
  · rename_i mapped
    simp only [not_or, Bool.not_eq_true, ne_eq, Decidable.not_not] at mapped
    exact ⟨mapped.2, mapped.1⟩

theorem mapPlan_zero_fails (placed : SpacePlaced arch k.app)
    (address : naClUserToSys arch k.app plan.usraddr = some sysaddr)
    (file : naclPagesize ≤ plan.length) (zeros : plan.length < plan.startOfInaccessible)
    (mapped : call.map sysaddr = sysaddr ∧ naClIsNegErrno (call.map sysaddr) = false)
    (neg : naClIsNegErrno call.zeroFill = true) :
    (mapPlan arch call plan sysaddr k).2 = some (int32 (call.zeroFill % 2 ^ 32)) ∧
      (mapPlan arch call plan sysaddr k).1.replaced ≠ k.replaced := by
  obtain ⟨-, inside⟩ := userToSys_valid placed.toSpaceBits address
  have system : sysaddr = (plan.usraddr + k.app.memStart) % 2 ^ arch.ptrBits := by
    unfold naClUserToSys at address
    split at address
    · cases address
    · exact (Option.some.inj address).symm
  obtain ⟨map, updated⟩ := @update_succeeds arch (k.replace plan.usraddr plan.length)
    plan.usraddr plan.length plan.prot placed inside file
  have first : mapFile arch call plan sysaddr k =
      (k.replace plan.usraddr plan.length, some { k.replace plan.usraddr plan.length with
        app := { k.app with memMap := map } }) := by
    unfold mapFile
    have some_file : plan.length ≠ 0 := by
      simp only [naclPagesize] at file
      omega
    rw [if_neg some_file]
    simp only
    rw [if_neg fun bad => bad.elim (fun errno => by simp [mapped.2] at errno)
      (fun moved => moved mapped.1), system]
    exact congrArg _ updated
  have second : ∀ k₁, mapZeros arch call plan sysaddr k₁ =
      (k₁.replace (plan.usraddr + plan.length) (plan.startOfInaccessible - plan.length),
        some (.error (int32 (call.zeroFill % 2 ^ 32)))) := by
    intro k₁
    unfold mapZeros
    rw [if_neg (Nat.not_le_of_lt zeros)]
    simp only
    rw [if_pos neg]
  unfold mapPlan
  rw [first]
  simp only
  rw [second]
  refine ⟨rfl, fun same => ?_⟩
  have longer := congrArg List.length same
  simp only [Kernel.replace, List.length_append, List.length_singleton] at longer
  omega

/-- A failed mapping has changed nothing, except when it is the zero filling that failed. -/
theorem mmap_atomic_iff (placed : SpacePlaced arch k.app) (errnos : HostErrnos call) :
    MmapAtomic arch call k ↔ ¬ ZeroFillFails arch call k.app := by
  have bits := placed.toSpaceBits
  constructor
  · rintro atomic ⟨plan, sysaddr, planned, address, zeros, mapped, fine, neg⟩
    have ran : naClCommonSysMmap arch call k = mapPlan arch call plan sysaddr k := by
      unfold naClCommonSysMmap
      rw [planned]
      simp only [address]
    obtain ⟨result, changed⟩ := mapPlan_zero_fails placed address
      (zero_fill_behind_file bits planned zeros) zeros ⟨mapped, fine⟩ neg
    rw [← ran] at result changed
    exact changed (atomic _ result (negErrno_isErrno neg (errnos.zeroFill neg))).2
  · intro fine rv result failed
    rcases mmap_result result with refused | ⟨plan, sysaddr, planned, address, ran⟩
    · have ran : naClCommonSysMmap arch call k = (k, some rv) := by
        unfold naClCommonSysMmap
        rw [refused]
      rw [ran]
      exact ⟨rfl, rfl⟩
    rw [ran] at result
    rcases mapPlan_result (Prod.ext rfl result) with ⟨asked₁, k₁, file, zeros, neg, same⟩ |
      ⟨asked₁, asked₂, asked₃, k₁, k₂, file, zeros, nothing, same⟩
    · have some_file := zero_fill_behind_file bits planned zeros
      obtain ⟨mapped, quiet⟩ := mapFile_mapped (Nat.lt_of_lt_of_le (by decide) some_file) file
      exact absurd ⟨plan, sysaddr, planned, address, zeros, mapped, quiet, neg⟩ fine
    · have start := chooseAddress_aligned (mmapPlan_accepted planned).aligned (mmapPlan_accepted planned).chosen
      rw [same] at failed
      refine absurd failed (int32_aligned ?_)
      simp only [naclMapPagesize] at start ⊢
      omega

/-- `dataApp` in an address space of 4 GiB. -/
def wideApp : NaClApp := { dataApp with addrBits := 32 }

theorem wideApp_placed : SpacePlaced .x86_64 wideApp :=
  { least := by decide, most := by decide, below := by decide }

theorem mapped_file_atomic : MmapAtomic .x86_64 (shortFileAt 0x100000 0x2f000 0) ⟨wideApp, []⟩ :=
  (@mmap_atomic_iff .x86_64 (shortFileAt 0x100000 0x2f000 0) ⟨wideApp, []⟩ wideApp_placed
    (shortFile_errnos _ _)).mpr fun fails => by
      obtain ⟨plan, sysaddr, -, -, -, -, -, neg⟩ := fails
      exact absurd neg (by decide)

/-- The zero filling fails with ENOMEM behind a mapped file of 5000 bytes: the old pages are gone
and the map has a new entry. -/
theorem failed_zero_fill_changes :
    (naClCommonSysMmap .x86_64 (shortFileAt 0x100000 0x2f000 (2 ^ 64 - 12)) ⟨wideApp, []⟩).2 = some (-12) ∧
      ⟨0x100, 2, protRead⟩ ∈ (naClCommonSysMmap .x86_64
        (shortFileAt 0x100000 0x2f000 (2 ^ 64 - 12)) ⟨wideApp, []⟩).1.app.memMap ∧
      ¬ MmapAtomic .x86_64 (shortFileAt 0x100000 0x2f000 (2 ^ 64 - 12)) ⟨wideApp, []⟩ := by
  have result : (naClCommonSysMmap .x86_64 (shortFileAt 0x100000 0x2f000 (2 ^ 64 - 12))
      ⟨wideApp, []⟩).2 = some (-12) := by decide +kernel
  refine ⟨result, by decide +kernel, fun atomic => ?_⟩
  have same := (atomic (-12) result (by unfold IsErrno; decide)).2
  exact absurd (congrArg List.length same) (by decide +kernel)

end Glopen.Nacl

import Glopen.Nacl.MmapParts

/-! What a successful mapping covers: a prefix from the file, zeros up to the end of the file's
last allocation page, and inaccessible pages behind. -/
namespace Glopen.Nacl

open Memory Run List
variable {arch : Arch} {call : MmapCall} {k : Kernel}

/-- The mapping at `a` covers the requested range, inside the address space. -/
structure MmapCovered (arch : Arch) (call : MmapCall) (before after : Kernel) (a : Nat) : Prop where
  positive : 0 < call.length % 2 ^ arch.ptrBits
  parts : ∃ total file zeros, call.length % 2 ^ arch.ptrBits ≤ total ∧
    total < call.length % 2 ^ arch.ptrBits + naclMapPagesize ∧
    a + total ≤ 2 ^ before.app.addrBits ∧ FilePart call total file zeros ∧
    Covered after.app.memMap a (a + file) (call.prot &&& (protRead ||| protWrite)) ∧
    Covered after.app.memMap (a + file) (a + zeros) (call.prot &&& (protRead ||| protWrite)) ∧
    Covered after.app.memMap (a + zeros) (a + total) protNone ∧
    after.replaced = before.replaced ++ [AddrRange.mk a (a + file),
      AddrRange.mk (a + file) (a + zeros), AddrRange.mk (a + zeros) (a + total)].filter
        fun r => r.start < r.stop
  formed : MapWellFormed before.app → MapWellFormed after.app

def MmapCovers (arch : Arch) (call : MmapCall) (k : Kernel) : Prop :=
  ∀ rv, (naClCommonSysMmap arch call k).2 = some rv → ¬ IsErrno rv →
    MmapCovered arch call k (naClCommonSysMmap arch call k).1 (userAddress rv)

def LengthWraps (arch : Arch) (call : MmapCall) : Prop :=
  2 ^ arch.ptrBits < call.length % 2 ^ arch.ptrBits + naclMapPagesize

def PassesChecks (arch : Arch) (call : MmapCall) (nap : NaClApp) : Prop :=
  ∃ plan sysaddr, mmapPlan arch nap call = some (.ok plan) ∧
    naClUserToSys arch nap plan.usraddr = some sysaddr

theorem roundAlloc_wraps (wraps : LengthWraps arch call) :
    naClRoundAllocPage arch (call.length % 2 ^ arch.ptrBits) = 0 := by
  have small := Nat.mod_lt call.length (Nat.two_pow_pos arch.ptrBits)
  unfold LengthWraps at wraps
  simp only [naClRoundAllocPage, roundUp, naclMapPagesize] at wraps ⊢
  have width : 2 ^ 32 ≤ 2 ^ arch.ptrBits :=
    Nat.pow_le_pow_right (by decide) (by cases arch <;> decide)
  rw [Nat.mod_eq_sub_mod (by omega), Nat.mod_eq_of_lt (by omega)]
  omega

variable {plan : MmapPlan} {sysaddr : Nat} {final : Kernel} {rv : Int} {nap : NaClApp}

section Steps

variable {asked k' : Kernel}

structure PartMapped (k k' : Kernel) (low high prot : Nat) : Prop where
  app : ∃ map, k'.app = { k.app with memMap := map }
  log : k'.replaced = k.replaced ++ [AddrRange.mk low high].filter fun r => r.start < r.stop
  entry : HasEntry k'.app.memMap low high prot
  earlier : ∀ start stop prot', start % naclPagesize = 0 → stop % naclPagesize = 0 → stop ≤ low →
    HasEntry k.app.memMap start stop prot' → HasEntry k'.app.memMap start stop prot'

variable {low prot : Nat}

theorem partMapped_none {high : Nat} (empty : high ≤ low) : PartMapped k k low high prot where
  app := ⟨k.app.memMap, rfl⟩
  log := by
    rw [filter_cons_of_neg (by simpa using empty), filter_nil, append_nil]
  entry := fun order => absurd order (Nat.not_lt_of_le empty)
  earlier := fun _ _ _ _ _ _ entry => entry

theorem partMapped_update {size addr : Nat} (small : low < 2 ^ arch.ptrBits)
    (whole : naclPagesize ≤ size) (address : addr = (low + k.app.memStart) % 2 ^ arch.ptrBits)
    (ran : (k.replace low size).update arch addr size prot false = some k') :
    PartMapped k k' low (low + size) prot := by
  subst address
  have positive : low < low + size := by
    simp only [naclPagesize] at whole
    omega
  obtain ⟨entry, app, log, earlier⟩ := update_records small whole ran
  refine ⟨app, ?_, entry, earlier⟩
  rw [log, filter_cons_of_pos (by simpa using positive)]
  rfl

theorem mapFile_part (small : plan.usraddr < 2 ^ arch.ptrBits)
    (address : sysaddr = (plan.usraddr + k.app.memStart) % 2 ^ arch.ptrBits)
    (whole : plan.length % naclPagesize = 0) (ran : mapFile arch call plan sysaddr k = (asked, some k')) :
    PartMapped k k' plan.usraddr (plan.usraddr + plan.length) plan.prot := by
  unfold mapFile at ran
  split at ran
  · rename_i none
    cases ran
    exact partMapped_none (by omega)
  · simp only at ran
    split at ran
    · cases ran
    · obtain ⟨-, updated⟩ := Prod.mk.inj ran
      refine partMapped_update small ?_ address updated
      simp only [naclPagesize] at *
      omega

section

variable (fits : PlanFits arch k.app plan sysaddr)
  (small : plan.usraddr + plan.allocRoundedLength < 2 ^ arch.ptrBits)
include fits small

theorem mapZeros_part (whole : plan.length % naclPagesize = 0 ∧ plan.startOfInaccessible % naclPagesize = 0)
    (order : plan.length ≤ plan.startOfInaccessible)
    (ran : mapZeros arch call plan sysaddr k = (asked, some (.ok k'))) :
    PartMapped k k' (plan.usraddr + plan.length) (plan.usraddr + plan.startOfInaccessible) plan.prot := by
  have inside := fits.accessible
  unfold mapZeros at ran
  split at ran
  · rename_i none
    cases ran
    exact partMapped_none (by omega)
  · simp only at ran
    split at ran
    · cases ran
    · obtain ⟨-, mapped⟩ := Prod.mk.inj ran
      obtain ⟨final, updated, same⟩ := Option.map_eq_some_iff.mp mapped
      cases same
      have part := partMapped_update (by omega) (show naclPagesize ≤ plan.startOfInaccessible - plan.length by
          simp only [naclPagesize] at *
          omega) (fits.shift _) updated
      rwa [Nat.add_assoc, Nat.add_sub_cancel' order] at part

theorem mapNothing_part (whole : plan.startOfInaccessible % naclPagesize = 0 ∧
      plan.allocRoundedLength % naclPagesize = 0)
    (ran : mapNothing arch plan sysaddr k = (asked, some k')) :
    PartMapped k k' (plan.usraddr + plan.startOfInaccessible)
      (plan.usraddr + plan.allocRoundedLength) protNone := by
  have inside := fits.accessible
  unfold mapNothing at ran
  split at ran
  · rename_i none
    cases ran
    exact partMapped_none (by omega)
  · simp only at ran
    obtain ⟨-, updated⟩ := Prod.mk.inj ran
    have part := partMapped_update (by omega)
      (show naclPagesize ≤ plan.allocRoundedLength - plan.startOfInaccessible by
        simp only [naclPagesize] at *
        omega) (fits.shift _) updated
    rwa [Nat.add_assoc, Nat.add_sub_cancel' inside] at part

end

theorem mapPlan_result (ran : mapPlan arch call plan sysaddr k = (final, some rv)) :
    (∃ asked₁ k₁, mapFile arch call plan sysaddr k = (asked₁, some k₁) ∧
        plan.length < plan.startOfInaccessible ∧ naClIsNegErrno call.zeroFill = true ∧
        rv = int32 (call.zeroFill % 2 ^ 32)) ∨
      ∃ asked₁ asked₂ asked₃ k₁ k₂, mapFile arch call plan sysaddr k = (asked₁, some k₁) ∧
        mapZeros arch call plan sysaddr k₁ = (asked₂, some (.ok k₂)) ∧
        mapNothing arch plan sysaddr k₂ = (asked₃, some final) ∧
        rv = int32 (plan.usraddr % 2 ^ 32) := by
  unfold mapPlan at ran
  split at ran
  · cases ran
  rename_i asked₁ k₁ file
  split at ran
  · cases ran
  · rename_i asked₂ code zeros
    left
    unfold mapZeros at zeros
    split at zeros
    · cases zeros
    rename_i order
    simp only at zeros
    split at zeros
    · rename_i neg
      cases zeros
      cases ran
      exact ⟨asked₁, k₁, file, not_le.mp order, neg, rfl⟩
    · obtain ⟨-, mapped⟩ := Prod.mk.inj zeros
      obtain ⟨final, -, same⟩ := Option.map_eq_some_iff.mp mapped
      cases same
  · rename_i asked₂ k₂ zeros
    split at ran
    · cases ran
    · rename_i asked₃ k₃ nothing
      cases ran
      exact .inr ⟨asked₁, asked₂, asked₃, k₁, k₂, file, zeros, nothing, rfl⟩

end Steps

structure PlanWhole (arch : Arch) (nap : NaClApp) (call : MmapCall) (plan : MmapPlan) : Prop where
  room : plan.usraddr + plan.allocRoundedLength ≤ 2 ^ nap.addrBits
  covers : call.length % 2 ^ arch.ptrBits ≤ plan.allocRoundedLength
  tight : plan.allocRoundedLength < call.length % 2 ^ arch.ptrBits + naclMapPagesize
  file : FilePart call plan.allocRoundedLength plan.length plan.startOfInaccessible
  order : plan.length ≤ plan.startOfInaccessible
  start : plan.usraddr % naclMapPagesize = 0
  total : plan.allocRoundedLength % naclMapPagesize = 0
  length : plan.length % naclPagesize = 0
  inaccessible : plan.startOfInaccessible % naclMapPagesize = 0

theorem FilePart.whole {total file zeros : Nat} (part : FilePart call total file zeros)
    (aligned : total % naclMapPagesize = 0) :
    file ≤ zeros ∧ file % naclPagesize = 0 ∧ zeros % naclMapPagesize = 0 := by
  simp only [naclPagesize, naclMapPagesize] at *
  rcases part with ⟨-, rfl, rfl⟩ | ⟨size, -, -, rfl, rfl⟩
  · omega
  · omega

theorem mmapPlan_whole (bits : SpaceBits arch nap)
    (fitsWord : ¬ LengthWraps arch call) (planned : mmapPlan arch nap call = some (.ok plan)) :
    PlanWhole arch nap call plan := by
  obtain ⟨aligned, -, total, ⟨bytes, rounded, found, file, zeros⟩, chosen, checked, -⟩ :=
    mmapPlan_accepted planned
  have small : plan.allocRoundedLength < 2 ^ arch.ptrBits := total ▸ roundAlloc_lt _
  obtain ⟨room, -⟩ := checkRange_inside bits small checked
  obtain ⟨covers, tight, whole⟩ := roundAlloc_bounds arch (call.length % 2 ^ arch.ptrBits) (not_lt.mp fitsWord)
  rw [← total] at covers tight whole
  have half := space_half bits
  have part := @fileBytes_parts arch call plan.allocRoundedLength bytes rounded (by omega) found
  rw [← file, ← zeros] at part
  obtain ⟨order, pages, allocPages⟩ := part.whole whole
  exact ⟨room, covers, tight, part, order, chooseAddress_aligned aligned chosen, whole, pages, allocPages⟩

theorem page_of_mapPage {n : Nat} (aligned : n % naclMapPagesize = 0) : n % naclPagesize = 0 := by
  simp only [naclMapPagesize, naclPagesize] at *
  omega

theorem page_add {a b : Nat} (first : a % naclPagesize = 0) (second : b % naclPagesize = 0) :
    (a + b) % naclPagesize = 0 := by
  simp only [naclPagesize] at *
  omega

theorem mapped_covered {asked₁ asked₂ asked₃ k₁ k₂ : Kernel}
    (bits : SpaceBits arch k.app) (accepted : Accepted arch k.app call plan)
    (whole : PlanWhole arch k.app call plan) (fits : PlanFits arch k.app plan sysaddr)
    (file : mapFile arch call plan sysaddr k = (asked₁, some k₁))
    (zeros : mapZeros arch call plan sysaddr k₁ = (asked₂, some (.ok k₂)))
    (nothing : mapNothing arch plan sysaddr k₂ = (asked₃, some final))
    (formed : MapWellFormed k.app → MapWellFormed final.app) : MmapCovered arch call k final plan.usraddr := by
  obtain ⟨-, space, -⟩ := bits.word
  have room := whole.room
  have order := whole.order
  have start := page_of_mapPage whole.start
  have total := page_of_mapPage whole.total
  have zeroed := page_of_mapPage whole.inaccessible
  have small : plan.usraddr + plan.allocRoundedLength < 2 ^ arch.ptrBits := by
    simp only [naclMapPagesize] at space
    omega
  have keeps₁ := (mapFile_keeps bits fits file).2 k₁ rfl
  have fits₁ := fits.keeps keeps₁
  have keeps₂ := (mapZeros_keeps (keeps₁.bits bits) fits₁ zeros).2 k₂ rfl
  have part₁ := mapFile_part (by omega) fits.address whole.length file
  have part₂ := mapZeros_part fits₁ small ⟨whole.length, zeroed⟩ order zeros
  have part₃ := mapNothing_part (fits₁.keeps keeps₂) small ⟨zeroed, total⟩ nothing
  have file_end := page_add start whole.length
  have zeros_end := page_add start zeroed
  have entry₁ := part₃.earlier _ _ _ start file_end (Nat.add_le_add_left order _)
    (part₂.earlier _ _ _ start file_end le_rfl part₁.entry)
  have entry₂ := part₃.earlier _ _ _ file_end zeros_end le_rfl part₂.entry
  rw [accepted.prot] at entry₁ entry₂
  refine ⟨Nat.pos_of_ne_zero accepted.positive, ⟨plan.allocRoundedLength, plan.length,
    plan.startOfInaccessible, whole.covers, whole.tight, room, whole.file, ?_, ?_, ?_, ?_⟩, formed⟩
  · exact entry₁.covered start file_end
  · exact entry₂.covered file_end zeros_end
  · exact part₃.entry.covered zeros_end (page_add start total)
  · rw [part₃.log, part₂.log, part₁.log, append_assoc, append_assoc, ← filter_append, ← filter_append]
    rfl

theorem userToSys_valid {uaddr : Nat} (bits : SpaceBits arch nap)
    (address : naClUserToSys arch nap uaddr = some sysaddr) : 0 < uaddr ∧ uaddr < 2 ^ nap.addrBits := by
  unfold naClUserToSys at address
  rw [bits.word.1] at address
  split at address
  · cases address
  · omega

theorem mmap_result (result : (naClCommonSysMmap arch call k).2 = some rv) :
    mmapPlan arch k.app call = some (.error rv) ∨ ∃ plan sysaddr, mmapPlan arch k.app call = some (.ok plan) ∧
        naClUserToSys arch k.app plan.usraddr = some sysaddr ∧
        naClCommonSysMmap arch call k = mapPlan arch call plan sysaddr k := by
  unfold naClCommonSysMmap at result ⊢
  split at result
  · cases result
  · rename_i code refused
    cases result
    exact .inl refused
  · rename_i plan planned
    split at result
    · cases result
    · rename_i sysaddr address
      exact .inr ⟨plan, sysaddr, planned, address, rfl⟩

def shortFileAt (start length zeroFill : Nat) : MmapCall where
  start := start
  length := length
  prot := protRead
  flags := mapPrivate ||| mapFixed
  offset := 0
  fileSize := some (.ok 5000)
  map := fun sysaddr => sysaddr
  zeroFill := zeroFill

theorem shortFile_errnos (start length : Nat) : HostErrnos (shortFileAt start length 0) :=
  ⟨fun _ failed => (by cases failed), fun neg => absurd neg (show ¬ naClIsNegErrno 0 = true by decide)⟩

end Glopen.Nacl

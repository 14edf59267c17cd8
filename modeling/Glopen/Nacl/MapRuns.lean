import Glopen.Nacl.MemorySyscalls

/-! What mmap and munmap keep of the memory map. -/
namespace Glopen.Nacl

open Memory Run List Option
variable {arch : Arch}

structure SpaceBits (arch : Arch) (nap : NaClApp) : Prop where
  least : 16 ≤ nap.addrBits
  most : nap.addrBits ≤ arch.naclMaxAddrBits

theorem SpaceBits.word {nap : NaClApp} (bits : SpaceBits arch nap) :
    oneShl arch.ptrBits nap.addrBits = 2 ^ nap.addrBits ∧
      2 ^ nap.addrBits + 2 * naclMapPagesize ≤ 2 ^ arch.ptrBits ∧
      2 ^ nap.addrBits % 65536 = 0 := by
  refine ⟨oneShl_of_lt (bits.most.trans_lt arch.naclMaxAddrBits_lt), space_le bits.most, ?_⟩
  exact Nat.mod_eq_zero_of_dvd (Nat.pow_dvd_pow 2 bits.least)

variable {nap : NaClApp} {low : Nat} {k k' : Kernel} {start : Nat}

theorem mapWellFormed_iff : MapWellFormed nap ↔
      Tidy nap.memMap ∧ ∀ e ∈ nap.memMap, e.stop * naclPagesize ≤ 2 ^ nap.addrBits := by
  constructor
  · rintro ⟨nonempty, disjoint, inside⟩
    refine ⟨⟨nonempty, disjoint.imp_of_mem ?_⟩, inside⟩
    intro a b first second apart
    exact (pages_disjoint_iff (nonempty a first) (nonempty b second)).mp apart
  · rintro ⟨⟨nonempty, apart⟩, inside⟩
    refine ⟨nonempty, apart.imp_of_mem ?_, inside⟩
    intro a b first second order
    exact (pages_disjoint_iff (nonempty a first) (nonempty b second)).mpr order

structure HeapIntact (arch : Arch) (nap : NaClApp) : Prop where
  positive : 0 < nap.dataEnd
  order : nap.dataEnd ≤ nap.breakAddr
  small : nap.breakAddr < 2 ^ nap.addrBits
  entry : ∃ e ∈ nap.memMap, e.pageNum ≤ lastPage arch nap.dataEnd ∧ lastPage arch nap.breakAddr < e.stop

def MissesHeap (arch : Arch) (nap : NaClApp) (r : AddrRange) : Prop :=
  r.stop ≤ lastPage arch nap.dataEnd * naclPagesize ∨
    (lastPage arch nap.breakAddr + 1) * naclPagesize ≤ r.start

/-- Steps inside a call that only touch the memory map, at the ranges they log, from `low` on. -/
structure Keeps (arch : Arch) (low : Nat) (k k' : Kernel) : Prop where
  app : ∃ map, k'.app = { k.app with memMap := map }
  log : ∃ new, k'.replaced = k.replaced ++ new ∧ ∀ r ∈ new, low ≤ r.start
  tidy : MapWellFormed k.app → MapWellFormed k'.app
  heap : MapWellFormed k.app → HeapIntact arch k.app →
    (∀ r ∈ k'.replaced, MissesHeap arch k.app r) → HeapIntact arch k'.app

theorem Keeps.refl : Keeps arch low k k :=
  ⟨⟨k.app.memMap, rfl⟩, ⟨[], (append_nil _).symm, fun _ member => absurd member not_mem_nil⟩, id,
    fun _ intact _ => intact⟩

theorem Keeps.lower {low' : Nat} (keeps : Keeps arch low k k') (order : low' ≤ low) : Keeps arch low' k k' := by
  obtain ⟨new, log, above⟩ := keeps.log
  exact ⟨keeps.app, ⟨new, log, fun r member => order.trans (above r member)⟩, keeps.tidy, keeps.heap⟩

theorem Keeps.trans {k'' : Kernel} (first : Keeps arch low k k')
    (second : Keeps arch low k' k'') : Keeps arch low k k'' := by
  obtain ⟨map, same⟩ := first.app
  obtain ⟨map', same'⟩ := second.app
  obtain ⟨new, log, above⟩ := first.log
  obtain ⟨new', log', above'⟩ := second.log
  refine ⟨⟨map', by rw [same', same]⟩, ⟨new ++ new', by rw [log', log, append_assoc], ?_⟩,
    fun tidy => second.tidy (first.tidy tidy), ?_⟩
  · intro r member
    rcases mem_append.mp member with early | late
    · exact above r early
    · exact above' r late
  intro tidy intact spared
  have between := first.heap tidy intact fun r member =>
    spared r (by rw [log']; exact mem_append_left _ member)
  refine second.heap (first.tidy tidy) between fun r member => ?_
  have := spared r member
  rw [same]
  exact this

theorem Keeps.replace (order : low ≤ start) (length : Nat) : Keeps arch low k (k.replace start length) := by
  refine ⟨⟨k.app.memMap, rfl⟩, ⟨_, rfl, fun r member => ?_⟩, id, fun _ intact _ => intact⟩
  rw [mem_singleton.mp member]
  exact order

theorem sysToUser_eq {x u : Nat} (small : x < 2 ^ arch.ptrBits)
    (found : naClSysToUser arch nap ((x + nap.memStart) % 2 ^ arch.ptrBits) = some u) : u = x := by
  unfold naClSysToUser at found
  split at found
  · contradiction
  rename_i above
  have above := not_lt.mp (fun below => above (.inl below))
  cases found
  have reduced := Nat.mod_lt (x + nap.memStart) (Nat.two_pow_pos arch.ptrBits)
  by_cases wraps : x + nap.memStart < 2 ^ arch.ptrBits
  · rw [Nat.mod_eq_of_lt wraps]
    omega
  · rw [Nat.mod_eq_sub_mod (by omega), Nat.mod_eq_of_lt (by omega)] at above
    omega

theorem update_keeps {nbytes prot : Nat} {remove : Bool}
    (bits : SpaceBits arch k.app) (inside : start + nbytes ≤ 2 ^ k.app.addrBits)
    (logged : ⟨start, start + nbytes⟩ ∈ k.replaced)
    (ran : k.update arch ((start + k.app.memStart) % 2 ^ arch.ptrBits) nbytes prot remove =
      some k') : Keeps arch low k k' := by
  obtain ⟨-, room, -⟩ := bits.word
  obtain ⟨app, done, rfl⟩ := map_eq_some_iff.mp ran
  simp only [naClCommonUtilUpdateAddrMap, bind_eq_bind, bind_eq_some_iff] at done
  obtain ⟨u, user, map, updated, same⟩ := done
  cases same
  obtain rfl := sysToUser_eq (by simp only [naclMapPagesize] at room; omega) user
  simp only [naclPagesize] at updated
  refine ⟨⟨map, rfl⟩, ⟨[], (append_nil _).symm, fun _ member => absurd member not_mem_nil⟩, ?_, ?_⟩
  · intro tidy
    obtain ⟨tidy, below⟩ := mapWellFormed_iff.mp tidy
    have result := vmmapUpdate_updated tidy updated
    refine mapWellFormed_iff.mpr ⟨result.tidy, fun e member => ?_⟩
    simp only [naclPagesize] at below ⊢
    rcases result.within e member with ⟨old, among, inner⟩ | ⟨-, last⟩
    · exact (Nat.mul_le_mul_right _ inner.2).trans (below old among)
    · have start_le := Nat.div_mul_le_self u 4096
      have nbytes_le := Nat.div_mul_le_self nbytes 4096
      have := Nat.mul_le_mul_right 4096 last
      rw [Nat.add_mul] at this
      exact this.trans ((Nat.add_le_add start_le nbytes_le).trans inside)
  · intro tidy intact spared
    obtain ⟨tidy, -⟩ := mapWellFormed_iff.mp tidy
    have result := vmmapUpdate_updated tidy updated
    obtain ⟨e, member, low, high⟩ := intact.entry
    refine ⟨intact.positive, intact.order, intact.small, ?_⟩
    have ordered : lastPage arch k.app.dataEnd ≤ lastPage arch k.app.breakAddr := by
      have small := intact.small
      have positive := intact.positive
      have order := intact.order
      simp only [naclMapPagesize] at room
      unfold lastPage
      rw [subWord_of_le (by omega) (by omega), subWord_of_le (by omega) (by omega)]
      exact Nat.div_le_div_right (by omega)
    apply result.covers e member (lastPage arch k.app.dataEnd) (lastPage arch k.app.breakAddr) low ordered high
    rcases spared _ logged with below | above
    · right
      simp only [naclPagesize] at below
      omega
    · left
      simp only [naclPagesize] at above
      omega

theorem remap_keeps {nbytes prot sysaddr : Nat} {remove : Bool}
    (bits : SpaceBits arch k.app) (order : low ≤ start) (inside : start + nbytes ≤ 2 ^ k.app.addrBits)
    (address : sysaddr = (start + k.app.memStart) % 2 ^ arch.ptrBits)
    (ran : (k.replace start nbytes).update arch sysaddr nbytes prot remove = some k') : Keeps arch low k k' := by
  subst address
  apply (Keeps.replace order nbytes).trans
  exact update_keeps bits inside (mem_append_right _ (mem_singleton_self _)) ran

theorem Keeps.bits (keeps : Keeps arch low k k') (bits : SpaceBits arch k.app) : SpaceBits arch k'.app := by
  obtain ⟨map, same⟩ := keeps.app
  rw [same]
  exact ⟨bits.least, bits.most⟩

section Plans

variable {call : MmapCall} {plan : MmapPlan} {sysaddr : Nat}

structure PlanFits (arch : Arch) (nap : NaClApp) (plan : MmapPlan) (sysaddr : Nat) : Prop where
  inside : plan.usraddr + plan.allocRoundedLength ≤ 2 ^ nap.addrBits
  file : plan.length ≤ plan.allocRoundedLength
  accessible : plan.startOfInaccessible ≤ plan.allocRoundedLength
  address : sysaddr = (plan.usraddr + nap.memStart) % 2 ^ arch.ptrBits

variable {k asked : Kernel}

theorem PlanFits.keeps {low : Nat} {k' : Kernel} (fits : PlanFits arch k.app plan sysaddr)
    (keeps : Keeps arch low k k') : PlanFits arch k'.app plan sysaddr := by
  obtain ⟨map, same⟩ := keeps.app
  rw [same]
  exact ⟨fits.inside, fits.file, fits.accessible, fits.address⟩

theorem PlanFits.shift {nap : NaClApp} (fits : PlanFits arch nap plan sysaddr) (offset : Nat) :
    (sysaddr + offset) % 2 ^ arch.ptrBits = (plan.usraddr + offset + nap.memStart) % 2 ^ arch.ptrBits := by
  rw [fits.address, Nat.mod_add_mod, Nat.add_right_comm]

theorem mapFile_keeps {result : Option Kernel} (bits : SpaceBits arch k.app)
    (fits : PlanFits arch k.app plan sysaddr) (ran : mapFile arch call plan sysaddr k = (asked, result)) :
    Keeps arch plan.usraddr k asked ∧ ∀ k', result = some k' → Keeps arch plan.usraddr k k' := by
  unfold mapFile at ran
  split at ran
  · cases ran
    refine ⟨.refl, fun k' same => ?_⟩
    cases same
    exact .refl
  · simp only at ran
    split at ran
    · cases ran
      exact ⟨.replace le_rfl _, fun k' same => nomatch same⟩
    · cases ran
      refine ⟨.replace le_rfl _, fun k' updated => ?_⟩
      refine remap_keeps bits le_rfl ?_ fits.address updated
      exact (Nat.add_le_add_left fits.file _).trans fits.inside

theorem mapZeros_keeps {result : Option (Except Int Kernel)}
    (bits : SpaceBits arch k.app) (fits : PlanFits arch k.app plan sysaddr)
    (ran : mapZeros arch call plan sysaddr k = (asked, result)) :
    Keeps arch plan.usraddr k asked ∧ ∀ k', result = some (.ok k') → Keeps arch plan.usraddr k k' := by
  unfold mapZeros at ran
  split at ran
  · cases ran
    refine ⟨.refl, fun k' same => ?_⟩
    cases same
    exact .refl
  · rename_i order
    simp only at ran
    split at ran
    · cases ran
      exact ⟨.replace (Nat.le_add_right _ _) _, fun k' same => nomatch same⟩
    · cases ran
      refine ⟨.replace (Nat.le_add_right _ _) _, fun k' updated => ?_⟩
      obtain ⟨final, updated, same⟩ := map_eq_some_iff.mp updated
      cases same
      refine remap_keeps bits (Nat.le_add_right _ _) ?_ (fits.shift _) updated
      have := fits.inside
      have := fits.accessible
      omega

theorem mapNothing_keeps {result : Option Kernel} (bits : SpaceBits arch k.app)
    (fits : PlanFits arch k.app plan sysaddr) (ran : mapNothing arch plan sysaddr k = (asked, result)) :
    Keeps arch plan.usraddr k asked ∧ ∀ k', result = some k' → Keeps arch plan.usraddr k k' := by
  unfold mapNothing at ran
  split at ran
  · cases ran
    refine ⟨.refl, fun k' same => ?_⟩
    cases same
    exact .refl
  · cases ran
    refine ⟨.replace (Nat.le_add_right _ _) _, fun k' updated => ?_⟩
    refine remap_keeps bits (Nat.le_add_right _ _) ?_ (fits.shift _) updated
    have := fits.inside
    omega

theorem mapPlan_keeps {k : Kernel} (bits : SpaceBits arch k.app) (fits : PlanFits arch k.app plan sysaddr) :
    Keeps arch plan.usraddr k (mapPlan arch call plan sysaddr k).1 := by
  unfold mapPlan
  split
  · rename_i ran
    exact (mapFile_keeps bits fits ran).1
  · rename_i first ran
    have keeps := (mapFile_keeps bits fits ran).2 first rfl
    split
    · rename_i ran
      exact keeps.trans (mapZeros_keeps (keeps.bits bits) (fits.keeps keeps) ran).1
    · rename_i ran
      exact keeps.trans (mapZeros_keeps (keeps.bits bits) (fits.keeps keeps) ran).1
    · rename_i second ran
      have keeps :=
        keeps.trans ((mapZeros_keeps (keeps.bits bits) (fits.keeps keeps) ran).2 second rfl)
      split
      · rename_i ran
        exact keeps.trans (mapNothing_keeps (keeps.bits bits) (fits.keeps keeps) ran).1
      · rename_i third ran
        exact keeps.trans ((mapNothing_keeps (keeps.bits bits) (fits.keeps keeps) ran).2 third rfl)

end Plans

theorem checkRange_inside {call : MmapCall} {usraddr allocRoundedLength : Nat}
    (bits : SpaceBits arch nap) (small : allocRoundedLength < 2 ^ arch.ptrBits)
    (checked : checkRange arch nap call usraddr allocRoundedLength = true) :
    usraddr + allocRoundedLength ≤ 2 ^ nap.addrBits ∧ nap.dynamicTextEnd ≤ naClTruncAllocPage usraddr := by
  obtain ⟨limit, room, -⟩ := bits.word
  simp only [checkRange, naClSysCommonAddrRangeContainsExecutablePages, limit, Bool.and_eq_true,
    decide_eq_true_eq, Bool.not_eq_true', decide_eq_false_iff_not, Nat.not_lt] at checked
  obtain ⟨⟨⟨⟨below, order⟩, top⟩, text⟩, -⟩ := checked
  refine ⟨?_, text⟩
  by_cases wraps : usraddr + allocRoundedLength < 2 ^ arch.ptrBits
  · rw [Nat.mod_eq_of_lt wraps] at top
    exact top
  · rw [Nat.mod_eq_sub_mod (by omega), Nat.mod_eq_of_lt (by omega)] at order
    omega

theorem roundAlloc_lt (n : Nat) : naClRoundAllocPage arch n < 2 ^ arch.ptrBits :=
  (Nat.div_mul_le_self _ _).trans_lt (Nat.mod_lt _ (Nat.two_pow_pos _))

structure Accepted (arch : Arch) (nap : NaClApp) (call : MmapCall) (plan : MmapPlan) : Prop where
  aligned : call.start % 2 ^ arch.ptrBits % naclMapPagesize = 0
  positive : call.length % 2 ^ arch.ptrBits ≠ 0
  total : plan.allocRoundedLength = naClRoundAllocPage arch (call.length % 2 ^ arch.ptrBits)
  file : ∃ bytes rounded, fileBytes arch call = some (.ok (bytes, rounded)) ∧
    plan.length = min plan.allocRoundedLength bytes ∧
    plan.startOfInaccessible = min plan.allocRoundedLength rounded
  chosen : chooseAddress arch nap call plan.allocRoundedLength = .ok plan.usraddr
  checked : checkRange arch nap call plan.usraddr plan.allocRoundedLength = true
  prot : plan.prot = call.prot &&& (protRead ||| protWrite)

theorem mmapPlan_accepted {call : MmapCall} {plan : MmapPlan}
    (planned : mmapPlan arch nap call = some (.ok plan)) : Accepted arch nap call plan := by
  unfold mmapPlan at planned
  simp only at planned
  split at planned
  · cases planned
  split at planned
  · cases planned
  rename_i aligned
  split at planned
  · cases planned
  split at planned
  · cases planned
  split at planned
  · cases planned
  rename_i positive
  split at planned
  · cases planned
  · cases planned
  · cases planned
  · rename_i bytes rounded usraddr file chosen
    split at planned
    · rename_i checked
      cases planned
      exact ⟨Decidable.not_not.mp aligned, positive, rfl, ⟨bytes, rounded, file, rfl, rfl⟩, chosen, checked, rfl⟩
    · cases planned

theorem mmapPlan_fits {call : MmapCall} {plan : MmapPlan} {sysaddr : Nat}
    (bits : SpaceBits arch nap) (planned : mmapPlan arch nap call = some (.ok plan))
    (address : naClUserToSys arch nap plan.usraddr = some sysaddr) :
    PlanFits arch nap plan sysaddr ∧ nap.dynamicTextEnd ≤ naClTruncAllocPage plan.usraddr := by
  obtain ⟨-, -, total, ⟨bytes, rounded, -, file, zeros⟩, -, checked, -⟩ := mmapPlan_accepted planned
  have small : plan.allocRoundedLength < 2 ^ arch.ptrBits := total ▸ roundAlloc_lt _
  obtain ⟨inside, text⟩ := checkRange_inside bits small checked
  unfold naClUserToSys at address
  split at address
  · contradiction
  · cases address
    exact ⟨⟨inside, file ▸ Nat.min_le_left _ _, zeros ▸ Nat.min_le_left _ _, rfl⟩, text⟩

theorem mmap_keeps {call : MmapCall} {k : Kernel} (bits : SpaceBits arch k.app) :
    Keeps arch k.app.dynamicTextEnd k (naClCommonSysMmap arch call k).1 := by
  unfold naClCommonSysMmap
  split
  · exact .refl
  · exact .refl
  · rename_i plan planned
    split
    · exact .refl
    · rename_i sysaddr address
      obtain ⟨fits, text⟩ := mmapPlan_fits bits planned address
      exact (mapPlan_keeps bits fits).lower (text.trans (Nat.div_mul_le_self _ _))

theorem userToSysAddrRange_inside {uaddr count : Nat} (bits : SpaceBits arch nap)
    (small : uaddr < 2 ^ arch.ptrBits) (short : count < 2 ^ arch.ptrBits)
    (valid : naClUserToSysAddrRange arch nap uaddr count ≠ kNaClBadAddress arch) :
    uaddr + count ≤ 2 ^ nap.addrBits ∧
      naClUserToSysAddrRange arch nap uaddr count = (uaddr + nap.memStart) % 2 ^ arch.ptrBits := by
  obtain ⟨limit, -⟩ := bits.word
  rw [naClUserToSysAddrRange, limit] at valid ⊢
  simp only at valid ⊢
  split at valid
  · contradiction
  rename_i nonzero
  split at valid
  · contradiction
  rename_i order
  split at valid
  · contradiction
  rename_i below
  rw [if_neg nonzero, if_neg order, if_neg below]
  refine ⟨?_, rfl⟩
  by_cases wraps : uaddr + count < 2 ^ arch.ptrBits
  · rw [Nat.mod_eq_of_lt wraps] at below
    omega
  · rw [Nat.mod_eq_sub_mod (by omega), Nat.mod_eq_of_lt (by omega)] at order
    omega

theorem munmap_keeps {call : MunmapCall} {k : Kernel} (bits : SpaceBits arch k.app) :
    Keeps arch k.app.dynamicTextEnd k (naClSysMunmap arch call k).1 := by
  unfold naClSysMunmap
  simp only
  split
  · exact .refl
  split
  · exact .refl
  split
  · exact .refl
  rename_i valid
  split
  · exact .refl
  rename_i text
  have order : k.app.dynamicTextEnd ≤ call.start % 2 ^ arch.ptrBits := by
    simp only [naClSysCommonAddrRangeContainsExecutablePages, decide_eq_true_eq, Nat.not_lt] at text
    exact text.trans (Nat.div_mul_le_self _ _)
  split
  · exact .refl
  obtain ⟨inside, address⟩ := userToSysAddrRange_inside bits
    (Nat.mod_lt _ (Nat.two_pow_pos _)) (roundAlloc_lt _) valid
  split
  · exact .replace order _
  · rename_i k' updated
    exact remap_keeps bits order inside address updated

end Glopen.Nacl

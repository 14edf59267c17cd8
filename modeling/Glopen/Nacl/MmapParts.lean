import Glopen.Nacl.BreakReturns

/-! The three parts of a mapping made by `NaClCommonSysMmap`, and the entries that record them. -/
namespace Glopen.Nacl

open Memory Run List Option
variable {arch : Arch}

def IsErrno (rv : Int) : Prop := -65536 < rv ∧ rv < 0

def userAddress (rv : Int) : Nat := (rv % 2 ^ 32).toNat

structure HostErrnos (call : MmapCall) : Prop where
  fstat : ∀ code, call.fileSize = some (.error code) → IsErrno code
  zeroFill : naClIsNegErrno call.zeroFill = true → call.zeroFill ≠ 2 ^ 64 - 2 ^ 16

theorem userAddress_int32 {a : Nat} (small : a < 2 ^ 32) : userAddress (int32 a) = a := by
  unfold userAddress int32
  omega

theorem int32_aligned {a : Nat} (aligned : a % naclMapPagesize = 0) : ¬ IsErrno (int32 a) := by
  unfold IsErrno int32
  simp only [naclMapPagesize] at aligned
  omega

theorem negErrno_isErrno {val : Nat} (neg : naClIsNegErrno val = true)
    (small : val ≠ 2 ^ 64 - 2 ^ 16) : IsErrno (int32 (val % 2 ^ 32)) := by
  simp only [naClIsNegErrno, beq_iff_eq] at neg
  unfold IsErrno int32
  omega

section Choice

variable {nap : NaClApp} {call : MmapCall}

theorem roundPages_aligned (n : Nat) : naClRoundPageNumUpToMapMultiple arch n % 16 = 0 :=
  Nat.mul_mod_left _ _

theorem truncPages_aligned (n : Nat) : truncTo naclPagesPerMap n % 16 = 0 := Nat.mul_mod_left _ _

theorem findMapSpace_aligned (map : List VmmapEntry) (numPages : Nat) :
    naClVmmapFindMapSpace arch map numPages % 16 = 0 := by
  unfold naClVmmapFindMapSpace
  simp only
  split
  · rename_i pair found
    have rounded := @roundPages_aligned arch numPages
    have start := truncPages_aligned pair.2.pageNum
    omega
  · rfl

theorem ite_aligned {p : Prop} [Decidable p] {a b : Nat} (first : a % 16 = 0)
    (second : b % 16 = 0) : (if p then a else b) % 16 = 0 := by
  split
  · exact first
  · exact second

theorem findAboveHint_aligned (map : List VmmapEntry) {uaddr : Nat} (numPages : Nat)
    (aligned : uaddr % naclMapPagesize = 0) :
    naClVmmapFindMapSpaceAboveHint arch map uaddr numPages % 16 = 0 := by
  unfold naClVmmapFindMapSpaceAboveHint
  simp only [naclMapPagesize] at aligned ⊢
  cases found : (neighbours map).findSome? _ with
  | none => rfl
  | some page =>
    obtain ⟨pair, -, given⟩ := List.exists_of_findSome?_eq_some found
    split at given
    · cases given
    obtain ⟨-, same⟩ := ite_none_right_eq_some.mp given
    cases same
    have rounded := @roundPages_aligned arch pair.1.stop
    have hint : uaddr / naclPagesize % 16 = 0 := by
      simp only [naclPagesize]
      omega
    rw [getD_some]
    exact ite_aligned hint rounded

theorem chooseAddress_aligned {total usraddr : Nat}
    (aligned : call.start % 2 ^ arch.ptrBits % naclMapPagesize = 0)
    (chosen : chooseAddress arch nap call total = .ok usraddr) : usraddr % naclMapPagesize = 0 := by
  have pages : ∀ page, page % 16 = 0 → page * naclPagesize % 2 ^ arch.ptrBits % naclMapPagesize = 0 := by
    intro page whole
    have divides : naclMapPagesize ∣ 2 ^ arch.ptrBits := by cases arch <;> decide
    rw [Nat.mod_mod_of_dvd _ divides]
    simp only [naclPagesize, naclMapPagesize]
    omega
  unfold chooseAddress at chosen
  simp only at chosen
  split at chosen
  · cases chosen
    exact aligned
  rcases ite_eq_iff.mp chosen with ⟨-, refused⟩ | ⟨-, same⟩
  · cases refused
  · cases same
    apply pages
    exact ite_aligned (findMapSpace_aligned _ _) (ite_aligned rfl (findAboveHint_aligned _ _ aligned))

theorem chooseAddress_errno {total : Nat} {code : Int}
    (refused : chooseAddress arch nap call total = .error code) : IsErrno code := by
  unfold chooseAddress at refused
  simp only at refused
  split at refused
  · cases refused
  rcases ite_eq_iff.mp refused with ⟨-, same⟩ | ⟨-, chosen⟩
  · cases same
    unfold IsErrno
    decide
  · cases chosen

theorem fileBytes_errno {code : Int} (errnos : HostErrnos call)
    (refused : fileBytes arch call = some (.error code)) : IsErrno code := by
  unfold fileBytes at refused
  simp only at refused
  split at refused
  · cases refused
  split at refused
  · cases refused
    unfold IsErrno
    decide
  · rename_i other failed
    cases refused
    exact errnos.fstat code failed
  · rcases ite_eq_iff.mp refused with ⟨-, same⟩ | ⟨-, refused⟩
    · cases same
      unfold IsErrno
      decide
    rcases ite_eq_iff.mp refused with ⟨-, ended⟩ | ⟨-, refused⟩
    · cases ended
    rcases ite_eq_iff.mp refused with ⟨-, same⟩ | ⟨-, found⟩
    · cases same
      unfold IsErrno
      decide
    · cases found

theorem mmapPlan_errno {code : Int} (errnos : HostErrnos call)
    (refused : mmapPlan arch nap call = some (.error code)) : IsErrno code := by
  unfold mmapPlan at refused
  simp only at refused
  split at refused
  · cases refused
    unfold IsErrno
    decide
  split at refused
  · cases refused
    unfold IsErrno
    decide
  split at refused
  · cases refused
    unfold IsErrno
    decide
  split at refused
  · cases refused
    unfold IsErrno
    decide
  split at refused
  · cases refused
    unfold IsErrno
    decide
  split at refused
  · cases refused
  · rename_i failed
    cases refused
    exact fileBytes_errno errnos failed
  · rename_i failed
    cases refused
    exact chooseAddress_errno failed
  · split at refused
    · cases refused
    · cases refused
      unfold IsErrno
      decide

end Choice

/-- The lengths of the file's part and of the accessible part, out of `total` bytes. -/
def FilePart (call : MmapCall) (total file zeros : Nat) : Prop :=
  (call.flags &&& mapAnonymous ≠ 0 ∧ file = total ∧ zeros = total) ∨
    ∃ size, call.fileSize = some (.ok size) ∧ call.offset ≤ size ∧
      file = min total (((size - call.offset).toNat + 4095) / 4096 * 4096) ∧
      zeros = min total (((size - call.offset).toNat + 65535) / 65536 * 65536)

theorem space_half {nap : NaClApp} (bits : SpaceBits arch nap) : 2 ^ nap.addrBits ≤ kMaxUsableFileSize arch :=
  Nat.le_trans (Nat.pow_le_pow_right (by decide) bits.most) (by cases arch <;> decide)

theorem fileBytes_parts {call : MmapCall} {total bytes rounded : Nat}
    (small : total ≤ kMaxUsableFileSize arch) (found : fileBytes arch call = some (.ok (bytes, rounded))) :
    FilePart call total (min total bytes) (min total rounded) := by
  unfold fileBytes at found
  simp only at found
  split at found
  · rename_i anonymous
    cases found
    exact .inl ⟨anonymous, Nat.min_eq_left small, Nat.min_eq_left small⟩
  split at found
  · cases found
  · cases found
  rename_i size opened
  rcases ite_eq_iff.mp found with ⟨-, refused⟩ | ⟨above, found⟩
  · cases refused
  rcases ite_eq_iff.mp found with ⟨-, ended⟩ | ⟨-, found⟩
  · cases ended
  rcases ite_eq_iff.mp found with ⟨-, refused⟩ | ⟨-, found⟩
  · cases refused
  cases found
  refine .inr ⟨size, opened, Int.le_of_not_gt above, ?_⟩
  have most : kMaxUsableFileSize arch = (2 ^ arch.ptrBits - 1) / 2 := rfl
  have width : 2 ^ 32 ≤ 2 ^ arch.ptrBits :=
    Nat.pow_le_pow_right (by decide) (by cases arch <;> decide)
  generalize (size - call.offset).toNat = rest
  have even : 2 ^ arch.ptrBits % 65536 = 0 := by cases arch <;> decide
  have page : ∀ n, n ≤ 2 ^ arch.ptrBits / 2 → naClRoundPage arch n = (n + 4095) / 4096 * 4096 := by
    intro n few
    rw [naClRoundPage, roundUp, naclPagesize, Nat.mod_eq_of_lt (by omega), Nat.add_sub_assoc (by decide)]
  have alloc : ∀ n, n ≤ 2 ^ arch.ptrBits / 2 →
      naClRoundAllocPage arch n = (n + 65535) / 65536 * 65536 := fun n few =>
    roundAlloc_eq (by simp only [naclMapPagesize]; omega)
  split
  · rename_i beyond
    rw [alloc _ (by omega)]
    omega
  · rename_i few
    rw [page _ (by omega), alloc _ (by omega)]
    omega

section Records

variable {entries : List VmmapEntry} {first stop : Nat}

theorem carve_keeps {e : VmmapEntry} (order : first < stop) (nonempty : 0 < e.npages)
    (apart : e.stop ≤ first ∨ stop ≤ e.pageNum) (member : e ∈ entries) : e ∈ (carve first stop entries).1 := by
  induction entries with
  | nil => exact absurd member not_mem_nil
  | cons ent rest ih =>
    unfold carve
    have size : e.stop = e.pageNum + e.npages := rfl
    rcases mem_cons.mp member with rfl | later
    · rw [if_neg (by omega), if_neg (by omega), if_neg (by omega), if_neg (by omega)]
      exact mem_cons_self
    · have kept := ih later
      split
      · exact mem_cons_of_mem _ later
      split
      · exact mem_cons_of_mem _ kept
      split
      · exact mem_cons_of_mem _ later
      split
      · exact kept
      · exact mem_cons_of_mem _ kept

def HasEntry (map : List VmmapEntry) (low high prot : Nat) : Prop :=
  low < high → ⟨low / naclPagesize, (high - low) / naclPagesize, prot⟩ ∈ map

def Covered (map : List VmmapEntry) (low high prot : Nat) : Prop :=
  ∀ page, low ≤ page * naclPagesize → page * naclPagesize < high →
    ∃ e ∈ map, e.contains page = true ∧ e.prot = prot

theorem HasEntry.covered {map : List VmmapEntry} {low high prot : Nat}
    (entry : HasEntry map low high prot) (start : low % naclPagesize = 0)
    (last : high % naclPagesize = 0) : Covered map low high prot := by
  intro page above below
  refine ⟨_, entry (by omega), ?_, rfl⟩
  simp only [VmmapEntry.contains, Bool.and_eq_true, decide_eq_true_eq]
  simp only [VmmapEntry.stop, naclPagesize] at *
  omega

theorem update_records {k k' : Kernel} {start nbytes prot : Nat}
    (small : start < 2 ^ arch.ptrBits) (whole : naclPagesize ≤ nbytes)
    (ran : k.update arch ((start + k.app.memStart) % 2 ^ arch.ptrBits) nbytes prot false = some k') :
    HasEntry k'.app.memMap start (start + nbytes) prot ∧
      (∃ map, k'.app = { k.app with memMap := map }) ∧ k'.replaced = k.replaced ∧
      ∀ low high prot', low % naclPagesize = 0 → high % naclPagesize = 0 → high ≤ start →
        HasEntry k.app.memMap low high prot' → HasEntry k'.app.memMap low high prot' := by
  obtain ⟨app, done, rfl⟩ := map_eq_some_iff.mp ran
  simp only [naClCommonUtilUpdateAddrMap, bind_eq_bind, bind_eq_some_iff] at done
  obtain ⟨u, user, map, updated, same⟩ := done
  cases same
  obtain rfl := sysToUser_eq small user
  unfold naClVmmapUpdate at updated
  simp only [Bool.false_eq_true, if_false] at updated
  have pages : 0 < nbytes / naclPagesize := Nat.div_pos whole (by decide)
  rw [if_neg (by omega), if_neg (by simp)] at updated
  cases updated
  refine ⟨fun _ => ?_, ⟨_, rfl⟩, rfl, fun low high prot' start last below entry order => ?_⟩
  · rw [Nat.add_sub_cancel_left]
    exact mem_append_right _ mem_cons_self
  · refine mem_append_left _ (mem_append_left _ ?_)
    refine carve_keeps (by omega) ?_ ?_ (makeSorted_mem.mpr (entry order))
    · simp only [naclPagesize] at *
      omega
    · left
      simp only [VmmapEntry.stop, naclPagesize] at *
      omega

end Records

end Glopen.Nacl

import Glopen.Nacl.BreakRuns

/-! The value that `NaClSetBreak` returns, and what it leaves of the memory map. -/
namespace Glopen.Nacl

open Memory Run List
variable {arch : Arch} {call : BrkCall} {k : Kernel}

structure EntryGrown (arch : Arch) (nap after : NaClApp) : Prop where
  grown : ∃ lower upper ent npages,
    naClVmmapMakeSorted nap.memMap = lower ++ ent :: upper ∧
    ent.contains (lastPage arch nap.breakAddr) = true ∧ ent.npages ≤ npages ∧
    after.memMap = lower ++ { ent with npages := npages } :: upper ∧
    lastPage arch after.breakAddr < ent.pageNum + npages ∧
    ∀ next ∈ upper, ent.pageNum + npages ≤ next.pageNum

/-- What brk promises: the value returned is the break in force, a refused request changes
nothing but the order of the entries, and growth stays clear of the next entry. -/
structure BreakInForce (arch : Arch) (call : BrkCall) (k : Kernel) : Prop where
  returned : ∀ rv, (naClSetBreak arch call k).2 = some rv →
    rv = int32 ((naClSetBreak arch call k).1.app.breakAddr % 2 ^ 32)
  refused : (naClSetBreak arch call k).1.app.breakAddr ≠ call.newBreak % 2 ^ arch.ptrBits →
    (naClSetBreak arch call k).1.app.breakAddr = k.app.breakAddr ∧
      (naClSetBreak arch call k).1.app.memMap.Perm k.app.memMap
  grown : k.app.breakAddr < (naClSetBreak arch call k).1.app.breakAddr →
    EntryGrown arch k.app (naClSetBreak arch call k).1.app

def Lowers (arch : Arch) (call : BrkCall) (nap : NaClApp) : Prop :=
  naClUserToSysAddr arch nap (call.newBreak % 2 ^ arch.ptrBits) ≠ kNaClBadAddress arch ∧
    nap.dataEnd ≤ call.newBreak % 2 ^ arch.ptrBits ∧
    call.newBreak % 2 ^ arch.ptrBits < nap.breakAddr

theorem int32_inj {a b : Nat} (first : a < 2 ^ 32) (second : b < 2 ^ 32) (same : int32 a = int32 b) : a = b := by
  unfold int32 at same
  omega

theorem SpaceBits.small {nap : NaClApp} {addr : Nat} (bits : SpaceBits arch nap)
    (inside : addr < 2 ^ nap.addrBits) : addr < 2 ^ 32 := by
  have most : arch.naclMaxAddrBits ≤ 32 := by cases arch <;> decide
  exact inside.trans_le (Nat.pow_le_pow_right (by decide) (bits.most.trans most))

theorem userToSysAddr_valid {nap : NaClApp} {uaddr : Nat} (bits : SpaceBits arch nap)
    (valid : naClUserToSysAddr arch nap uaddr ≠ kNaClBadAddress arch) :
    0 < uaddr ∧ uaddr < 2 ^ nap.addrBits := by
  unfold naClUserToSysAddr at valid
  rw [bits.word.1] at valid
  split at valid
  · contradiction
  · omega

theorem Grown.entry {newBreak : Nat} {nap app : NaClApp} (bits : SpaceBits arch nap)
    (positive : 0 < newBreak) (small : newBreak < 2 ^ nap.addrBits) (formed : MapWellFormed nap)
    (grown : Grown arch newBreak nap app) : app.breakAddr = newBreak ∧ EntryGrown arch nap app ∨
      app.breakAddr = nap.breakAddr ∧ app.memMap.Perm nap.memMap := by
  obtain ⟨tidy, -⟩ := mapWellFormed_iff.mp formed
  have sorted := makeSorted_ascending tidy
  cases grown with
  | inPlace ent member old new =>
    obtain ⟨lower, upper, whole⟩ := append_of_mem (makeSorted_mem.mpr member)
    rw [whole] at sorted
    have behind := (pairwise_cons.mp (pairwise_append.mp sorted).2.1).1
    exact .inl ⟨rfl, ⟨lower, upper, ent, ent.npages, whole, old, Nat.le_refl _, whole, new, behind⟩⟩
  | blocked => exact .inr ⟨rfl, makeSorted_perm _⟩
  | extended lower upper ent whole old new room =>
    obtain ⟨reach, -⟩ := roundedBreak_inside bits positive small
    have nonempty : ∀ e ∈ lower ++ ent :: upper, 0 < e.npages := fun e member =>
      tidy.nonempty e (makeSorted_mem.mp (whole ▸ member))
    rw [whole] at sorted
    have stop : ent.pageNum ≤ lastPage arch newBreak := by
      have := nonempty ent (mem_append_right _ mem_cons_self)
      simp only [VmmapEntry.stop] at new
      omega
    refine .inl ⟨rfl, ⟨lower, upper, ent, _, whole, old, ?_, rfl, ?_, ?_⟩⟩
    · simp only [VmmapEntry.stop] at new
      omega
    · simp only
      omega
    · have clear : ∀ next ∈ upper.head?, ent.pageNum +
          (lastPage arch (naClRoundAllocPage arch newBreak) - ent.pageNum + 1) ≤ next.pageNum := by
        intro next first
        have := room next first
        omega
      have extended := sorted.extend nonempty clear
      exact (pairwise_cons.mp (pairwise_append.mp extended).2.1).1

theorem setBreak_lowers (lowers : Lowers arch call k.app) : naClSetBreak arch call k =
    ({ k with app := { k.app with breakAddr := call.newBreak % 2 ^ arch.ptrBits } },
      some (int32 (k.app.breakAddr % 2 ^ 32))) := by
  obtain ⟨valid, above, below⟩ := lowers
  unfold naClSetBreak
  simp only
  rw [if_neg valid, if_neg (by omega), if_pos (by omega)]

theorem setBreak_idle (idle : naClUserToSysAddr arch k.app (call.newBreak % 2 ^ arch.ptrBits) =
      kNaClBadAddress arch ∨ call.newBreak % 2 ^ arch.ptrBits < k.app.dataEnd ∨
      call.newBreak % 2 ^ arch.ptrBits = k.app.breakAddr) :
    naClSetBreak arch call k = (k, some (int32 (k.app.breakAddr % 2 ^ 32))) := by
  unfold naClSetBreak
  simp only
  by_cases valid : naClUserToSysAddr arch k.app (call.newBreak % 2 ^ arch.ptrBits) = kNaClBadAddress arch
  · rw [if_pos valid]
  rw [if_neg valid]
  by_cases below : call.newBreak % 2 ^ arch.ptrBits < k.app.dataEnd
  · rw [if_pos below]
  have equal := (idle.resolve_left valid).resolve_left below
  rw [if_neg below, if_pos (equal.le), equal]

theorem setBreak_raises (valid : naClUserToSysAddr arch k.app (call.newBreak % 2 ^ arch.ptrBits) ≠
      kNaClBadAddress arch)
    (above : k.app.dataEnd ≤ call.newBreak % 2 ^ arch.ptrBits)
    (raised : k.app.breakAddr < call.newBreak % 2 ^ arch.ptrBits) : naClSetBreak arch call k = (k, none) ∨
      ∃ app, growBreak arch call (call.newBreak % 2 ^ arch.ptrBits) k.app = some app ∧
        naClSetBreak arch call k = ({ k with app := app }, some (int32 (app.breakAddr % 2 ^ 32))) := by
  unfold naClSetBreak
  simp only
  rw [if_neg valid, if_neg (by omega), if_neg (by omega)]
  cases naClUserToSys arch k.app k.app.breakAddr with
  | none => exact .inl rfl
  | some sysBreak =>
    cases growBreak arch call (call.newBreak % 2 ^ arch.ptrBits) k.app with
    | none => exact .inl rfl
    | some app => exact .inr ⟨app, rfl, rfl⟩

theorem BreakInForce.of_same (same : (naClSetBreak arch call k).1 = k)
    (value : ∀ rv, (naClSetBreak arch call k).2 = some rv → rv = int32 (k.app.breakAddr % 2 ^ 32)) :
    BreakInForce arch call k where
  returned := by
    intro rv result
    rw [same]
    exact value rv result
  refused := by
    intro _
    rw [same]
    exact ⟨rfl, .refl _⟩
  grown := by
    intro order
    rw [same] at order
    exact absurd order (Nat.lt_irrefl _)

theorem raised_in_force (bits : SpaceBits arch k.app) (formed : MapWellFormed k.app)
    (valid : naClUserToSysAddr arch k.app (call.newBreak % 2 ^ arch.ptrBits) ≠ kNaClBadAddress arch)
    (above : k.app.dataEnd ≤ call.newBreak % 2 ^ arch.ptrBits)
    (raised : k.app.breakAddr < call.newBreak % 2 ^ arch.ptrBits) : BreakInForce arch call k := by
  obtain ⟨positive, inside⟩ := userToSysAddr_valid bits valid
  rcases setBreak_raises valid above raised with ended | ⟨app, grew, ran⟩
  · refine .of_same (by rw [ended]) fun rv result => ?_
    rw [ended] at result
    cases result
  have entry := (growBreak_grown grew).entry bits positive inside formed
  constructor
  · intro rv result
    rw [ran] at result ⊢
    exact (Option.some.inj result).symm
  · intro other
    rw [ran] at other ⊢
    exact entry.resolve_left fun new => other new.1
  · intro order
    rw [ran] at order ⊢
    rcases entry with ⟨-, grown⟩ | ⟨same, -⟩
    · exact grown
    · simp only at order
      omega

/-- The break is reported truly unless the call lowers it. -/
theorem break_in_force_iff (bits : SpaceBits arch k.app) (formed : MapWellFormed k.app)
    (small : k.app.breakAddr < 2 ^ k.app.addrBits) : BreakInForce arch call k ↔ ¬ Lowers arch call k.app := by
  constructor
  · intro inForce lowers
    have ran := setBreak_lowers lowers
    have same := inForce.returned (int32 (k.app.breakAddr % 2 ^ 32)) (by rw [ran])
    rw [ran] at same
    have old := bits.small small
    have new : call.newBreak % 2 ^ arch.ptrBits < 2 ^ 32 := Nat.lt_trans lowers.2.2 old
    rw [Nat.mod_eq_of_lt old, Nat.mod_eq_of_lt new] at same
    exact absurd (int32_inj old new same) (Nat.ne_of_gt lowers.2.2)
  · intro keeps
    by_cases idle : naClUserToSysAddr arch k.app (call.newBreak % 2 ^ arch.ptrBits) =
        kNaClBadAddress arch ∨ call.newBreak % 2 ^ arch.ptrBits < k.app.dataEnd ∨
        call.newBreak % 2 ^ arch.ptrBits = k.app.breakAddr
    · have ran := setBreak_idle idle
      refine .of_same (by rw [ran]) fun rv result => ?_
      rw [ran] at result
      exact (Option.some.inj result).symm
    simp only [not_or] at idle
    obtain ⟨valid, above, other⟩ := idle
    have above := Nat.le_of_not_lt above
    have raised : k.app.breakAddr < call.newBreak % 2 ^ arch.ptrBits :=
      Nat.lt_of_not_le fun lower => keeps ⟨valid, above, Nat.lt_of_le_of_ne lower other⟩
    exact raised_in_force bits formed valid above raised

/-- `dataApp` with its break raised by a call, inside the same page. -/
def raisedApp : NaClApp := (naClSetBreak .x86_32 ⟨0x41000, true⟩ ⟨dataApp, []⟩).1.app

theorem raisedApp_wellFormed : MapWellFormed raisedApp :=
  (setBreak_keeps dataApp_bits).formed dataApp_wellFormed

theorem break_in_force_raised : BreakInForce .x86_32 ⟨0x52000, true⟩ ⟨raisedApp, []⟩ :=
  (@break_in_force_iff .x86_32 ⟨0x52000, true⟩ ⟨raisedApp, []⟩ ⟨by decide, by decide⟩
    raisedApp_wellFormed (by decide)).mpr fun lowers => absurd lowers.2.2 (by decide)

/-- Lowering the break from 0x41000 to 0x40c00 returns 0x41000. -/
theorem lowered_break_not_returned :
    (naClSetBreak .x86_32 ⟨0x40c00, true⟩ ⟨raisedApp, []⟩).1.app.breakAddr = 0x40c00 ∧
      (naClSetBreak .x86_32 ⟨0x40c00, true⟩ ⟨raisedApp, []⟩).2 = some 0x41000 ∧
      ¬ BreakInForce .x86_32 ⟨0x40c00, true⟩ ⟨raisedApp, []⟩ := by
  refine ⟨by decide, by decide, fun inForce => ?_⟩
  exact absurd (inForce.returned 0x41000 (by decide)) (by decide)

end Glopen.Nacl

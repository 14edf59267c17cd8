import Glopen.Nacl.BreakRuns

/-! Which pages the memory system calls can replace. Their guard looks at the end of the dynamic
text only, and the halt sled may move the end of the static text past it. -/
namespace Glopen.Nacl

open Memory Run List
variable {arch : Arch}

theorem runCalls_above {nap : NaClApp} (bits : SpaceBits arch nap) (calls : List Syscall) :
    ∀ r ∈ (runCalls arch calls nap).replaced, nap.dynamicTextEnd ≤ r.start := by
  induction calls generalizing nap with
  | nil => exact fun _ member => absurd member not_mem_nil
  | cons call rest ih =>
    have keeps := step_keeps bits call
    have later := ih (keeps.bits bits)
    rw [keeps.dynamicTextEnd] at later
    rw [runCalls]
    split
    · rename_i ran
      rw [ran] at keeps
      exact keeps.above
    · rename_i ran
      rw [ran] at keeps later
      intro r member
      rcases mem_append.mp member with now | after
      · exact keeps.above r now
      · exact later r after

theorem mapPlan_logged {call : MmapCall} {plan : MmapPlan} {sysaddr : Nat} {k : Kernel}
    (bits : SpaceBits arch k.app) (fits : PlanFits arch k.app plan sysaddr) (positive : plan.length ≠ 0) :
    ⟨plan.usraddr, plan.usraddr + plan.length⟩ ∈ (mapPlan arch call plan sysaddr k).1.replaced := by
  have logged : ∀ {asked : Kernel} {result : Option Kernel}, mapFile arch call plan sysaddr k = (asked, result) →
      ⟨plan.usraddr, plan.usraddr + plan.length⟩ ∈ asked.replaced ∧
        ∀ k', result = some k' → k'.replaced = asked.replaced := by
    intro asked result ran
    have last : ⟨plan.usraddr, plan.usraddr + plan.length⟩ ∈ (k.replace plan.usraddr plan.length).replaced :=
      mem_append_right _ (mem_singleton_self _)
    rw [mapFile, if_neg positive] at ran
    simp only at ran
    split at ran
    · cases ran
      exact ⟨last, fun k' same => nomatch same⟩
    · cases ran
      refine ⟨last, fun k' updated => ?_⟩
      obtain ⟨app, -, rfl⟩ := Option.map_eq_some_iff.mp updated
      rfl
  unfold mapPlan
  split
  · rename_i ran
    exact (logged ran).1
  · rename_i first ran
    have member := (logged ran).1
    rw [← (logged ran).2 first rfl] at member
    have keeps := (mapFile_keeps bits fits ran).2 first rfl
    have grows : ∀ {k' : Kernel}, Keeps arch plan.usraddr first k' →
        ⟨plan.usraddr, plan.usraddr + plan.length⟩ ∈ k'.replaced := by
      intro k' later
      obtain ⟨new, log, -⟩ := later.log
      rw [log]
      exact mem_append_left _ member
    split
    · rename_i ran
      exact grows (mapZeros_keeps (keeps.bits bits) (fits.keeps keeps) ran).1
    · rename_i ran
      exact grows (mapZeros_keeps (keeps.bits bits) (fits.keeps keeps) ran).1
    · rename_i second ran
      have zeros := (mapZeros_keeps (keeps.bits bits) (fits.keeps keeps) ran).2 second rfl
      have both := keeps.trans zeros
      split
      · rename_i ran
        exact grows (zeros.trans (mapNothing_keeps (both.bits bits) (fits.keeps both) ran).1)
      · rename_i third ran
        exact grows (zeros.trans ((mapNothing_keeps (both.bits bits) (fits.keeps both) ran).2 third rfl))

theorem fixed_page_replaced {nap : NaClApp} {start : Nat} (bits : SpaceBits arch nap)
    (aligned : start % 65536 = 0) (positive : 0 < start)
    (inside : start + 65536 ≤ 2 ^ nap.addrBits) (text : nap.dynamicTextEnd ≤ start) : ⟨start, start + 65536⟩ ∈
      (runCalls arch [.mmap (anonymousAt start 65536 mapFixed)] nap).replaced := by
  obtain ⟨limit, room, -⟩ := bits.word
  simp only [naclMapPagesize] at room
  have width : 2 ^ 32 ≤ 2 ^ arch.ptrBits :=
    Nat.pow_le_pow_right (by decide) (by cases arch <;> decide)
  have flags : (anonymousAt start 65536 mapFixed).flags = 0x32 := rfl
  have offset : (anonymousAt start 65536 mapFixed).offset = 0 := rfl
  have prot : (anonymousAt start 65536 mapFixed).prot = protRead ||| protWrite := rfl
  have most : 65536 ≤ kMaxUsableFileSize arch := by
    unfold kMaxUsableFileSize
    omega
  have whole : naClRoundAllocPage arch 65536 = 65536 := by
    rw [roundAlloc_eq (by simp only [naclMapPagesize]; omega)]
  have check : checkRange arch nap (anonymousAt start 65536 mapFixed) start 65536 = true := by
    simp only [checkRange, limit, naClSysCommonAddrRangeContainsExecutablePages,
      truncAlloc_of_aligned aligned, Nat.mod_eq_of_lt (show start + 65536 < 2 ^ arch.ptrBits by omega),
      Bool.and_eq_true, decide_eq_true_eq, Bool.not_eq_true', decide_eq_false_iff_not, Nat.not_lt,
      flags]
    exact ⟨⟨⟨⟨by omega, by omega⟩, inside⟩, text⟩, by decide⟩
  have planned : mmapPlan arch nap (anonymousAt start 65536 mapFixed) =
      some (.ok ⟨start, 65536, 65536, 65536, protRead ||| protWrite⟩) := by
    have address : chooseAddress arch nap (anonymousAt start 65536 mapFixed) 65536 = .ok start := by
      rw [chooseAddress, if_pos (by rw [flags]; decide)]
      exact congrArg Except.ok (Nat.mod_eq_of_lt (show start < 2 ^ arch.ptrBits by omega))
    have bytes : fileBytes arch (anonymousAt start 65536 mapFixed) =
        some (.ok (kMaxUsableFileSize arch, kMaxUsableFileSize arch)) :=
      if_pos (by rw [flags]; decide)
    have same : (anonymousAt start 65536 mapFixed).start % 2 ^ arch.ptrBits = start :=
      Nat.mod_eq_of_lt (show start < 2 ^ arch.ptrBits by omega)
    have length : (anonymousAt start 65536 mapFixed).length % 2 ^ arch.ptrBits = 65536 :=
      Nat.mod_eq_of_lt (show 65536 < 2 ^ arch.ptrBits by omega)
    simp only [mmapPlan, same, length, whole, bytes, address, check, if_true,
      Nat.min_eq_left most, naclMapPagesize, aligned, flags, offset, prot, Nat.and_self]
    rw [if_neg fun both => absurd both.1 (by decide), if_neg (by decide), if_neg (by decide),
      if_neg (by decide), if_neg (by decide)]
  have system : naClUserToSys arch nap start = some ((start + nap.memStart) % 2 ^ arch.ptrBits) := by
    rw [naClUserToSys, if_neg (by omega)]
  have fits := (mmapPlan_fits bits planned system).1
  have logged := @mapPlan_logged arch (anonymousAt start 65536 mapFixed) _ _ ⟨nap, []⟩ bits fits
    (show 65536 ≠ 0 by decide)
  rw [runCalls, Syscall.step, naClCommonSysMmap]
  simp only [planned, system]
  split
  · rename_i ran
    rw [ran] at logged
    exact logged
  · rename_i ran
    rw [ran] at logged
    exact mem_append_left _ logged

section Loaded

variable {host : LoaderHost arch} {gp : Gio} {nap loaded laid : NaClApp} {image : NaClElfImage}
  {out : SegmentBounds}

theorem LoadSummary.spaceBits (summary : LoadSummary arch nap image out laid loaded) :
    SpaceBits arch loaded := by
  have same : loaded.addrBits = laid.addrBits := by
    rw [summary.protection.app]
    rfl
  have bounds := summary.boundaries
  have low := bounds.text.1
  have last := bounds.last
  have below := bounds.below
  constructor
  · rw [same]
    by_contra few
    have := Nat.pow_le_pow_right (by decide : 0 < 2) (by omega : laid.addrBits ≤ 16)
    omega
  · rw [same, summary.addrBits]
    exact summary.bits

def TextUntouched (arch : Arch) (loaded : NaClApp) : Prop :=
  ∀ calls, ∀ r ∈ (runCalls arch calls loaded).replaced,
    loaded.staticTextEnd ≤ r.start ∧ loaded.dynamicTextEnd ≤ r.start

/-- The memory system calls leave the text alone exactly when the halt sled fits into the
text's last page. -/
theorem text_untouched_iff (constructed : Constructed nap) (created : naClElfImageNew arch gp = .ok image)
    (ran : naClAppLoadFile arch host gp nap = .ok loaded) :
    TextUntouched arch loaded ↔ ∀ php ∈ image.phdrs, php.IsText → SledFits php := by
  obtain ⟨out, laid, summary⟩ := load_summary constructed created ran
  have app := summary.protection.app
  have static_ : loaded.staticTextEnd = laid.staticTextEnd := by rw [app]; rfl
  have end_ : loaded.dynamicTextEnd = laid.dynamicTextEnd := by rw [app]; rfl
  have bits_ : loaded.addrBits = laid.addrBits := by rw [app]; rfl
  have bounds := summary.boundaries
  have text := bounds.text
  rw [summary.sled_iff, ← summary.dynamicTextStart]
  constructor
  · intro untouched
    by_contra spills
    rcases summary.dynamic_end with same | ⟨sled, -⟩
    · have last := bounds.last
      have below := bounds.below
      have stack := bounds.stack_aligned
      have positive := bounds.stack_pos
      have replaced := @fixed_page_replaced arch loaded laid.dynamicTextStart summary.spaceBits
        bounds.dyn_aligned (by omega) (by rw [bits_]; omega) (by omega)
      have := (untouched _ _ replaced).1
      simp only at this
      omega
    · omega
  · intro fits calls r member
    have above := runCalls_above summary.spaceBits calls r member
    refine ⟨?_, above⟩
    rcases summary.dynamic_end with same | ⟨-, order, -⟩
    all_goals omega

end Loaded

theorem short_text_untouched : ∃ loaded,
    naClAppLoadFile .x86_32 willingHost (nexeFile 0x20000 (textAndRodata 0x100)) freshApp =
      .ok loaded ∧ TextUntouched .x86_32 loaded := by
  obtain ⟨loaded, ran, -⟩ := short_text_loads
  exact ⟨loaded, ran, (text_untouched_iff freshApp_constructed short_text_image ran).mpr short_text_sled⟩

/-- With text up to 16 bytes before the end of its page, the page at 0x30000 is recorded as
executable text, and a fixed mapping replaces it. -/
theorem spilled_sled_replaced : ∃ loaded,
    naClAppLoadFile .x86_32 willingHost (nexeFile 0x20000 (textAndRodata 0xfff0)) freshApp =
      .ok loaded ∧ loaded.staticTextEnd = 0x40000 ∧
    ⟨0x30000, 0x40000⟩ ∈ (runCalls .x86_32 [.mmap (anonymousAt 0x30000 0x10000 mapFixed)] loaded).replaced := by
  obtain ⟨loaded, ran, same⟩ := except_map_ok (by decide +kernel :
    (naClAppLoadFile .x86_32 willingHost (nexeFile 0x20000 (textAndRodata 0xfff0)) freshApp).map
      (fun loaded => (loaded.staticTextEnd, loaded.dynamicTextEnd, loaded.addrBits)) =
      .ok (0x40000, 0x30000, 30))
  simp only [Prod.mk.injEq] at same
  obtain ⟨static_, end_, bits⟩ := same
  refine ⟨loaded, ran, static_, ?_⟩
  exact @fixed_page_replaced .x86_32 loaded 0x30000 ⟨by omega, by rw [bits]; decide⟩ (by decide)
    (by decide) (by rw [bits]; decide) (by omega)

end Glopen.Nacl

import Mathlib.Data.List.Pairwise
import Glopen.Nacl.MapRuns

/-! The break, and the memory map over whole runs of the memory system calls. -/
namespace Glopen.Nacl

open Memory Run List
variable {arch : Arch}

theorem Tidy.unique {entries : List VmmapEntry} {a b : VmmapEntry} {page : Nat}
    (tidy : Tidy entries) (first : a ∈ entries) (second : b ∈ entries)
    (ha : a.contains page = true) (hb : b.contains page = true) : a = b := by
  by_contra different
  have : Std.Symm Apart := ⟨fun _ _ apart => apart.symm⟩
  have apart := tidy.apart.forall first second different
  simp only [VmmapEntry.contains, Bool.and_eq_true, decide_eq_true_eq] at ha hb
  unfold Apart at apart
  omega

theorem Ascending.tidy {entries : List VmmapEntry} (sorted : Ascending entries)
    (nonempty : ∀ e ∈ entries, 0 < e.npages) : Tidy entries :=
  ⟨nonempty, sorted.imp fun order => .inl order⟩

inductive Grown (arch : Arch) (newBreak : Nat) (nap : NaClApp) : NaClApp → Prop
  | inPlace (ent : VmmapEntry) (member : ent ∈ nap.memMap)
      (old : ent.contains (lastPage arch nap.breakAddr) = true)
      (new : lastPage arch newBreak < ent.stop) :
      Grown arch newBreak nap
        { nap with memMap := naClVmmapMakeSorted nap.memMap, breakAddr := newBreak }
  | blocked : Grown arch newBreak nap { nap with memMap := naClVmmapMakeSorted nap.memMap }
  | extended (before after : List VmmapEntry) (ent : VmmapEntry)
      (split : naClVmmapMakeSorted nap.memMap = before ++ ent :: after)
      (old : ent.contains (lastPage arch nap.breakAddr) = true)
      (new : ent.stop ≤ lastPage arch newBreak)
      (room : ∀ next ∈ after.head?, lastPage arch (naClRoundAllocPage arch newBreak) < next.pageNum) :
      Grown arch newBreak nap
        { nap with
          memMap := before ++ { ent with
            npages := lastPage arch (naClRoundAllocPage arch newBreak) - ent.pageNum + 1 } :: after
          breakAddr := newBreak }

variable {newBreak : Nat} {nap : NaClApp} {call : BrkCall} {app : NaClApp}

theorem growBreak_grown (ran : growBreak arch call newBreak nap = some app) : Grown arch newBreak nap app := by
  unfold growBreak at ran
  simp only at ran
  split at ran
  · contradiction
  rename_i ent after dropped
  have whole := takeWhile_append_dropWhile
    (p := fun e : VmmapEntry => !e.contains (lastPage arch nap.breakAddr))
    (l := naClVmmapMakeSorted nap.memMap)
  rw [dropped] at whole
  have old : ent.contains (lastPage arch nap.breakAddr) = true := by
    have head := head_dropWhile_not (fun e : VmmapEntry => !e.contains (lastPage arch nap.breakAddr))
      (l := naClVmmapMakeSorted nap.memMap) (by rw [dropped]; exact cons_ne_nil _ _)
    simpa only [dropped, head_cons, Bool.not_eq_false'] using head
  split at ran
  · rename_i new
    cases ran
    refine .inPlace ent ?_ old new
    apply makeSorted_mem.mp
    rw [← whole]
    exact mem_append_right _ mem_cons_self
  rename_i new
  split at ran
  · cases ran
    exact .blocked
  rename_i room
  split at ran
  · cases ran
    refine .extended _ after ent whole.symm old (not_lt.mp new) fun next first => ?_
    by_contra blocked
    apply room
    rw [Option.mem_def.mp first]
    exact decide_eq_true (not_lt.mp blocked)
  · contradiction

theorem lastPage_eq {n : Nat} (positive : 0 < n) (small : n < 2 ^ arch.ptrBits) :
    lastPage arch n = (n - 1) / 4096 := by
  unfold lastPage
  rw [subWord_of_le positive small]
  rfl

theorem lastPage_mono {m n : Nat} (positive : 0 < m) (order : m ≤ n)
    (small : n < 2 ^ arch.ptrBits) : lastPage arch m ≤ lastPage arch n := by
  rw [lastPage_eq positive (order.trans_lt small), lastPage_eq (by omega) small]
  exact Nat.div_le_div_right (by omega)

theorem roundedBreak_inside (bits : SpaceBits arch nap)
    (positive : 0 < newBreak) (small : newBreak < 2 ^ nap.addrBits) :
    lastPage arch newBreak ≤ lastPage arch (naClRoundAllocPage arch newBreak) ∧
      (lastPage arch (naClRoundAllocPage arch newBreak) + 1) * naclPagesize ≤ 2 ^ nap.addrBits := by
  obtain ⟨-, room, whole⟩ := bits.word
  simp only [naclMapPagesize] at room
  obtain ⟨above, -, aligned⟩ :=
    roundAlloc_bounds arch newBreak (by simp only [naclMapPagesize]; omega)
  have rounded := @roundAlloc_eq arch newBreak (by simp only [naclMapPagesize]; omega)
  simp only [naclMapPagesize] at aligned
  have inside : naClRoundAllocPage arch newBreak ≤ 2 ^ nap.addrBits := by omega
  refine ⟨lastPage_mono positive above (by omega), ?_⟩
  rw [lastPage_eq (by omega) (by omega)]
  simp only [naclPagesize]
  omega

theorem Ascending.extend {before after : List VmmapEntry} {ent : VmmapEntry} {npages : Nat}
    (sorted : Ascending (before ++ ent :: after)) (nonempty : ∀ e ∈ before ++ ent :: after, 0 < e.npages)
    (room : ∀ next ∈ after.head?, ent.pageNum + npages ≤ next.pageNum) :
    Ascending (before ++ { ent with npages := npages } :: after) := by
  obtain ⟨front, back, between⟩ := pairwise_append.mp sorted
  obtain ⟨-, tail⟩ := pairwise_cons.mp back
  have beyond : ∀ e ∈ after, ent.pageNum + npages ≤ e.pageNum := by
    cases after with
    | nil => exact fun e member => absurd member not_mem_nil
    | cons next rest =>
      have first := room next rfl
      intro e member
      rcases mem_cons.mp member with rfl | later
      · exact first
      · have := (pairwise_cons.mp tail).1 e later
        omega
  refine pairwise_append.mpr ⟨front, pairwise_cons.mpr ⟨beyond, tail⟩, ?_⟩
  intro a early b late
  rcases mem_cons.mp late with rfl | later
  · exact between a early ent mem_cons_self
  · exact between a early b (mem_cons_of_mem _ later)

theorem Grown.wellFormed (bits : SpaceBits arch nap)
    (positive : 0 < newBreak) (small : newBreak < 2 ^ nap.addrBits)
    (grown : Grown arch newBreak nap app) (formed : MapWellFormed nap) : MapWellFormed app := by
  obtain ⟨tidy, inside⟩ := mapWellFormed_iff.mp formed
  have tidySorted := tidy.perm (makeSorted_perm nap.memMap)
  cases grown with
  | inPlace ent member old new =>
    exact mapWellFormed_iff.mpr ⟨tidySorted, fun e member => inside e (makeSorted_mem.mp member)⟩
  | blocked =>
    exact mapWellFormed_iff.mpr ⟨tidySorted, fun e member => inside e (makeSorted_mem.mp member)⟩
  | extended before after ent whole old new room =>
    obtain ⟨reach, top⟩ := roundedBreak_inside bits positive small
    have sorted := makeSorted_ascending tidy
    rw [whole] at sorted tidySorted
    have behind : ent.pageNum < ent.stop := by
      have := tidySorted.nonempty ent (mem_append_right _ mem_cons_self)
      unfold VmmapEntry.stop
      omega
    have members : ∀ e ∈ before ++ { ent with
        npages := lastPage arch (naClRoundAllocPage arch newBreak) - ent.pageNum + 1 } :: after,
        (e ∈ nap.memMap ∨ e = { ent with
          npages := lastPage arch (naClRoundAllocPage arch newBreak) - ent.pageNum + 1 }) := by
      intro e member
      have back : ∀ e ∈ before ++ ent :: after, e ∈ nap.memMap := fun e member =>
        makeSorted_mem.mp (whole ▸ member)
      rcases mem_append.mp member with early | late
      · exact .inl (back e (mem_append_left _ early))
      · rcases mem_cons.mp late with rfl | later
        · exact .inr rfl
        · exact .inl (back e (mem_append_right _ (mem_cons_of_mem _ later)))
    refine mapWellFormed_iff.mpr ⟨Ascending.tidy (sorted.extend tidySorted.nonempty ?_) ?_, ?_⟩
    · intro next first
      have := room next first
      omega
    · intro e member
      rcases members e member with old | rfl
      · exact tidy.nonempty e old
      · exact Nat.succ_pos _
    · intro e member
      rcases members e member with old | rfl
      · exact inside e old
      · refine (Nat.mul_le_mul_right _ ?_).trans top
        simp only [VmmapEntry.stop] at *
        omega

theorem Grown.intact (bits : SpaceBits arch nap)
    (raised : nap.breakAddr < newBreak) (small : newBreak < 2 ^ nap.addrBits)
    (grown : Grown arch newBreak nap app) (formed : MapWellFormed nap)
    (intact : HeapIntact arch nap) : HeapIntact arch app := by
  obtain ⟨tidy, -⟩ := mapWellFormed_iff.mp formed
  obtain ⟨e, among, low, high⟩ := intact.entry
  have order := intact.order
  have positive := intact.positive
  obtain ⟨-, room, -⟩ := bits.word
  have small := intact.small
  have holds : e.contains (lastPage arch nap.breakAddr) = true := by
    have := @lastPage_mono arch _ _ positive order (by omega)
    simp only [VmmapEntry.contains, Bool.and_eq_true, decide_eq_true_eq]
    omega
  cases grown with
  | inPlace ent member old new =>
    obtain rfl := tidy.unique among member holds old
    exact ⟨positive, by simp only; omega, by assumption, e, makeSorted_mem.mpr among, low, new⟩
  | blocked => exact ⟨positive, order, small, e, makeSorted_mem.mpr among, low, high⟩
  | extended before after ent whole old new room =>
    have member : ent ∈ nap.memMap :=
      makeSorted_mem.mp (whole ▸ mem_append_right _ mem_cons_self)
    obtain rfl := tidy.unique among member holds old
    have reach := (roundedBreak_inside bits (by omega) ‹newBreak < 2 ^ nap.addrBits›).1
    refine ⟨positive, by simp only; omega, by assumption, _, mem_append_right _ mem_cons_self, low, ?_⟩
    simp only [VmmapEntry.stop] at *
    omega

structure StepKeeps (arch : Arch) (nap : NaClApp) (k : Kernel) : Prop where
  addrBits : k.app.addrBits = nap.addrBits
  dynamicTextEnd : k.app.dynamicTextEnd = nap.dynamicTextEnd
  above : ∀ r ∈ k.replaced, nap.dynamicTextEnd ≤ r.start
  formed : MapWellFormed nap → MapWellFormed k.app
  heap : MapWellFormed nap → HeapIntact arch nap → (∀ r ∈ k.replaced, MissesHeap arch nap r) →
    HeapIntact arch k.app

theorem Keeps.step {nap : NaClApp} {k : Kernel} (keeps : Keeps arch nap.dynamicTextEnd ⟨nap, []⟩ k) :
    StepKeeps arch nap k := by
  obtain ⟨map, same⟩ := keeps.app
  obtain ⟨new, log, above⟩ := keeps.log
  refine ⟨by rw [same], by rw [same], fun r member => above r ?_, keeps.tidy, keeps.heap⟩
  rw [log] at member
  exact member

theorem StepKeeps.refl : StepKeeps arch nap ⟨nap, []⟩ :=
  ⟨rfl, rfl, (fun _ member => absurd member not_mem_nil), id, fun _ intact _ => intact⟩

theorem lowered_keeps (bits : SpaceBits arch nap)
    (above : nap.dataEnd ≤ newBreak) (lower : newBreak ≤ nap.breakAddr) :
    StepKeeps arch nap ⟨{ nap with breakAddr := newBreak }, []⟩ := by
  refine ⟨rfl, rfl, (fun _ member => absurd member not_mem_nil),
    fun formed => ⟨formed.nonempty, formed.disjoint, formed.inside⟩, ?_⟩
  intro _ intact _
  obtain ⟨-, room, -⟩ := bits.word
  obtain ⟨e, among, low, high⟩ := intact.entry
  have positive := intact.positive
  have small := intact.small
  have order := @lastPage_mono arch _ _ (by omega) lower (by omega)
  exact ⟨positive, above, lower.trans_lt small, e, among, low, order.trans_lt high⟩

theorem growBreak_keeps (bits : SpaceBits arch nap) (raised : nap.breakAddr < newBreak)
    (small : newBreak < 2 ^ nap.addrBits)
    (ran : growBreak arch call newBreak nap = some app) : StepKeeps arch nap ⟨app, []⟩ := by
  have grown := growBreak_grown ran
  constructor
  · cases grown <;> rfl
  · cases grown <;> rfl
  · exact fun _ member => absurd member not_mem_nil
  · exact grown.wellFormed bits (by omega) small
  · exact fun formed intact _ => grown.intact bits raised small formed intact

theorem setBreak_keeps (bits : SpaceBits arch nap) :
    StepKeeps arch nap (naClSetBreak arch call ⟨nap, []⟩).1 := by
  unfold naClSetBreak
  simp only
  split
  · exact .refl
  rename_i valid
  have small : call.newBreak % 2 ^ arch.ptrBits < 2 ^ nap.addrBits := by
    unfold naClUserToSysAddr at valid
    rw [bits.word.1] at valid
    split at valid
    · contradiction
    · rename_i bad
      exact not_le.mp fun above => bad (.inr above)
  split
  · exact .refl
  rename_i above
  split
  · rename_i lower
    exact lowered_keeps bits (not_lt.mp above) lower
  rename_i raised
  split
  · exact .refl
  split
  · exact .refl
  · rename_i app ran
    exact growBreak_keeps bits (not_le.mp raised) small ran

theorem step_keeps (bits : SpaceBits arch nap) (call : Syscall) : StepKeeps arch nap (call.step arch nap).1 := by
  cases call with
  | mmap call => exact (@mmap_keeps arch call ⟨nap, []⟩ bits).step
  | munmap call => exact (@munmap_keeps arch call ⟨nap, []⟩ bits).step
  | brk call => exact setBreak_keeps bits

theorem StepKeeps.bits {k : Kernel} (keeps : StepKeeps arch nap k)
    (bits : SpaceBits arch nap) : SpaceBits arch k.app :=
  ⟨keeps.addrBits ▸ bits.least, keeps.addrBits ▸ bits.most⟩

def SparesHeap (arch : Arch) : List Syscall → NaClApp → Prop
  | [], _ => True
  | call :: rest, nap =>
    (∀ r ∈ (call.step arch nap).1.replaced, MissesHeap arch nap r) ∧
      ((call.step arch nap).2.isSome → SparesHeap arch rest (call.step arch nap).1.app)

theorem runCalls_cons_app (call : Syscall) (rest : List Syscall) (nap : NaClApp) :
    (runCalls arch (call :: rest) nap).app = (call.step arch nap).1.app ∨ (call.step arch nap).2.isSome ∧
        (runCalls arch (call :: rest) nap).app = (runCalls arch rest (call.step arch nap).1.app).app := by
  rw [runCalls]
  split
  · rename_i ran
    rw [ran]
    exact .inl rfl
  · rename_i ran
    rw [ran]
    exact .inr ⟨rfl, rfl⟩

/-- The map stays well formed in every run, and the break stays in the entry that brk grows as
long as no other call replaces its pages. -/
theorem memory_map_over_runs {nap : NaClApp} (bits : SpaceBits arch nap)
    (formed : MapWellFormed nap) (calls : List Syscall) :
    MapWellFormed (runCalls arch calls nap).app ∧ (HeapIntact arch nap → SparesHeap arch calls nap →
        HeapIntact arch (runCalls arch calls nap).app) := by
  induction calls generalizing nap with
  | nil => exact ⟨formed, fun intact _ => intact⟩
  | cons call rest ih =>
    have keeps := step_keeps bits call
    obtain ⟨later_formed, later_intact⟩ := ih (keeps.bits bits) (keeps.formed formed)
    rcases runCalls_cons_app call rest nap with ended | ⟨goes_on, same⟩
    · rw [ended]
      exact ⟨keeps.formed formed, fun intact spares => keeps.heap formed intact spares.1⟩
    · rw [same]
      exact ⟨later_formed, fun intact spares =>
        later_intact (keeps.heap formed intact spares.1) (spares.2 goes_on)⟩

def dataApp : NaClApp :=
  { freshApp with
    memStart := 0x40000000, staticTextEnd := 0x30000, dynamicTextStart := 0x30000,
    dynamicTextEnd := 0x30000, dataStart := 0x40000, dataEnd := 0x40800, breakAddr := 0x40800,
    memMap := [⟨0, 16, 0⟩, ⟨16, 32, 5⟩, ⟨64, 16, 3⟩, ⟨0x3fff0, 16, 3⟩] }

theorem dataApp_bits : SpaceBits .x86_32 dataApp := ⟨by decide, by decide⟩

theorem dataApp_wellFormed : MapWellFormed dataApp := by
  refine mapWellFormed_iff.mpr ⟨Ascending.tidy ?_ ?_, ?_⟩
  · simp only [Ascending, dataApp, pairwise_cons]
    decide
  · decide
  · decide

theorem dataApp_intact : HeapIntact .x86_32 dataApp :=
  ⟨by decide, by decide, by decide, ⟨64, 16, 3⟩, by decide, by decide, by decide⟩

def anonymousAt (start length flags : Nat) : MmapCall where
  start := start
  length := length
  prot := protRead ||| protWrite
  flags := mapAnonymous ||| mapPrivate ||| flags
  offset := 0
  fileSize := none
  map := fun sysaddr => sysaddr
  zeroFill := 0

theorem raised_break_in_entry :
    HeapIntact .x86_32 (runCalls .x86_32 [.brk ⟨0x61000, true⟩, .mmap (anonymousAt 0 0x20000 0),
      .munmap ⟨0x100000, 0x10000, none⟩] dataApp).app := by
  refine (memory_map_over_runs dataApp_bits dataApp_wellFormed _).2 dataApp_intact ⟨?_, fun _ =>
    ⟨?_, fun _ => ⟨?_, fun _ => trivial⟩⟩⟩
  all_goals unfold MissesHeap
  all_goals decide +kernel

/-- A program may unmap its data pages; the break is then in no entry. -/
theorem unmapped_break : MapWellFormed dataApp ∧ HeapIntact .x86_32 dataApp ∧
    ∀ e ∈ (runCalls .x86_32 [.munmap ⟨0x40000, 0x10000, none⟩] dataApp).app.memMap, e.contains (lastPage .x86_32
        (runCalls .x86_32 [.munmap ⟨0x40000, 0x10000, none⟩] dataApp).app.breakAddr) = false :=
  ⟨dataApp_wellFormed, dataApp_intact, by decide +kernel⟩

end Glopen.Nacl

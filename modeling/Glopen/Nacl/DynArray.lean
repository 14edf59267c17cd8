import Glopen.Lib.BitTable
import Glopen.Nacl.App

/-! dyn_array.c: the array of descriptors, with a bitmap of the slots in use. -/
namespace Glopen.Nacl

open BitTable Option

def kBitsPerWord : Nat := 32

def bitsToAllocWords (arch : Arch) (nbits : Nat) : Nat :=
  (nbits + kBitsPerWord - 1) % 2 ^ arch.ptrBits / kBitsPerWord

/-- What lies behind the memory that `calloc` clears or `realloc` keeps, if there is memory. -/
structure HeapReply (α : Type) where
  ptrs : Option (Nat → Option α)
  words : Option (Table 32)

/-- `none` is the NULL pointer. -/
structure DynArray (α : Type) where
  numEntries : Nat
  ptrArray : Nat → Option α
  ptrArraySpace : Nat
  available : Table 32
  availIx : Nat

/-- `ffs`: the position of the lowest bit that is set, from 1. -/
def ffs (word : BitVec 32) : Nat := ((List.range 32).find? (word.getLsbD ·)).elim 0 (· + 1)

section Operations

variable (arch : Arch) {α : Type}

def dynArrayCtor (initialSize : Nat) (reply : HeapReply α) : Option (DynArray α) :=
  let size := if initialSize = 0 then 32 else initialSize
  match reply.ptrs, reply.words with
  | some ptrs, some words => some {
      numEntries := 0
      ptrArray := fun i => if i < size then none else ptrs i
      ptrArraySpace := size
      available := fun k => if k < bitsToAllocWords arch size then 0 else words k
      availIx := 0 }
  | _, _ => none

def dynArrayGet (dap : DynArray α) (idx : Nat) : Option α :=
  if idx < dap.numEntries then dap.ptrArray idx else none

def desiredSpace (idx : Nat) : Nat → Nat → Option Nat
  | 0, _ => none
  | turns + 1, space =>
    if idx < space then some space
    else
      let tmp := 2 * space % 2 ^ arch.ptrBits
      if tmp < space then none else desiredSpace idx turns tmp

def DynArray.grow (desired : Nat) (reply : HeapReply α) (dap : DynArray α) : DynArray α × Bool :=
  match reply.ptrs with
  | none => (dap, false)
  | some ptrs =>
    let ptrArray := fun i =>
      if i < dap.ptrArraySpace then dap.ptrArray i else if i < desired then none else ptrs i
    match reply.words with
    | none => ({ dap with ptrArray := ptrArray }, false)
    | some words =>
      ({ dap with
          ptrArray := ptrArray
          available := fun k =>
            if k < bitsToAllocWords arch dap.ptrArraySpace then dap.available k
            else if k < bitsToAllocWords arch desired then 0 else words k
          ptrArraySpace := desired }, true)

def DynArray.store (idx : Nat) (ptr : Option α) (dap : DynArray α) : DynArray α :=
  let ix := idx / kBitsPerWord
  { dap with
    ptrArray := fun i => if i = idx then ptr else dap.ptrArray i
    available := if ptr.isSome then set dap.available idx else clear dap.available idx
    availIx := if ptr.isNone ∧ ix < dap.availIx then ix else dap.availIx
    numEntries := if dap.numEntries ≤ idx then idx + 1 else dap.numEntries }

def DynArray.turns : Nat := arch.ptrBits + 1

def dynArraySet (idx : Nat) (ptr : Option α) (reply : HeapReply α) (dap : DynArray α) :
    DynArray α × Bool :=
  match desiredSpace arch idx (DynArray.turns arch) dap.ptrArraySpace with
  | none => (dap, false)
  | some desired =>
    if desired = dap.ptrArraySpace then (dap.store idx ptr, true)
    else match dap.grow arch desired reply with
      | (dap, false) => (dap, false)
      | (dap, true) => (dap.store idx ptr, true)

def dynArrayFirstAvail (dap : DynArray α) : DynArray α × Nat :=
  let lastIx := bitsToAllocWords arch dap.ptrArraySpace
  match (List.range' dap.availIx (lastIx - dap.availIx)).find?
    (dap.available · != BitVec.allOnes 32) with
  | some ix => ({ dap with availIx := ix }, ffs (~~~ dap.available ix) - 1 + ix * kBitsPerWord)
  | none => (dap, dap.ptrArraySpace)

end Operations

section Words

variable {t : Table 32}

theorem word_full_iff {k : Nat} : t k = BitVec.allOnes 32 ↔ ∀ i, i / 32 = k → get t i = true := by
  constructor
  · rintro full i rfl
    rw [get_eq_getLsbD (by decide), full, BitVec.getLsbD_allOnes]
    exact decide_eq_true (Nat.mod_lt i (by decide))
  · intro bits
    apply BitVec.eq_of_getLsbD_eq
    intro j inner
    have bit := bits (32 * k + j) (by omega)
    rw [get_eq_getLsbD (by decide)] at bit
    rw [BitVec.getLsbD_allOnes, decide_eq_true inner]
    rwa [show (32 * k + j) / 32 = k by omega, show (32 * k + j) % 32 = j by omega] at bit

theorem ffs_free {ix : Nat} (free : t ix ≠ BitVec.allOnes 32) :
    get t (ffs (~~~ t ix) - 1 + ix * 32) = false ∧ (ffs (~~~ t ix) - 1 + ix * 32) / 32 = ix ∧
      ∀ i, i / 32 = ix → i < ffs (~~~ t ix) - 1 + ix * 32 → get t i = true := by
  unfold ffs
  cases found : (List.range 32).find? ((~~~ t ix).getLsbD ·) with
  | none =>
    refine absurd (word_full_iff.mpr ?_) free
    rintro i rfl
    have none_free := List.find?_eq_none.mp found (i % 32) (List.mem_range.mpr (Nat.mod_lt i (by decide)))
    rw [get_eq_getLsbD (by decide)]
    simpa [Nat.mod_lt i (show 0 < 32 by decide)] using none_free
  | some k =>
    obtain ⟨bit, member, lower⟩ := List.find?_range_eq_some.mp found
    have below := List.mem_range.mp member
    simp only [BitVec.getLsbD_not, Bool.and_eq_true, decide_eq_true_eq, below, true_and,
      Bool.not_eq_true'] at bit
    simp only [elim_some, Nat.add_sub_cancel]
    refine ⟨?_, by omega, fun i word earlier => ?_⟩
    · rw [get_eq_getLsbD (by decide), show (k + ix * 32) / 32 = ix by omega,
        show (k + ix * 32) % 32 = k by omega]
      exact bit
    · have set := lower (i % 32) (by omega)
      simp only [BitVec.getLsbD_not, Nat.mod_lt i (show 32 > 0 by decide), decide_true,
        Bool.true_and, Bool.not_not] at set
      rw [get_eq_getLsbD (by decide), word, set]

end Words

section Runs

variable {arch : Arch} {α : Type}

def BytesFit (arch : Arch) (slots : Nat) : Prop := slots * (arch.ptrBits / 8) < 2 ^ arch.ptrBits

instance {slots : Nat} : Decidable (BytesFit arch slots) := Nat.decLt _ _

/-- The arrays that a sequence of operations leads to, with the last value set at each index. The
number of bytes asked for in a set does not wrap around. -/
inductive DynArrayRun (arch : Arch) : DynArray α → (Nat → Option α) → Prop
  | ctor {initialSize : Nat} {reply : HeapReply α} {dap : DynArray α}
      (fits : BytesFit arch initialSize) (made : dynArrayCtor arch initialSize reply = some dap) :
      DynArrayRun arch dap fun _ => none
  | set {dap : DynArray α} {last : Nat → Option α} (run : DynArrayRun arch dap last) (idx : Nat)
      (ptr : Option α) (reply : HeapReply α)
      (fits : ∀ desired, desiredSpace arch idx (DynArray.turns arch) dap.ptrArraySpace =
        some desired → BytesFit arch desired) :
      DynArrayRun arch (dynArraySet arch idx ptr reply dap).1
        (if (dynArraySet arch idx ptr reply dap).2 then fun i => if i = idx then ptr else last i
          else last)
  | firstAvail {dap : DynArray α} {last : Nat → Option α} (run : DynArrayRun arch dap last) :
      DynArrayRun arch (dynArrayFirstAvail arch dap).1 last

structure Tracks (arch : Arch) (dap : DynArray α) (last : Nat → Option α) : Prop where
  space : 0 < dap.ptrArraySpace
  fits : BytesFit arch dap.ptrArraySpace
  entries : dap.numEntries ≤ dap.ptrArraySpace
  slots : ∀ i < dap.ptrArraySpace, dap.ptrArray i = last i
  unset : ∀ i, dap.numEntries ≤ i → last i = none
  bits : ∀ i, i / 32 < bitsToAllocWords arch dap.ptrArraySpace → get dap.available i = (last i).isSome
  full : ∀ k < dap.availIx, dap.available k = BitVec.allOnes 32
  inside : dap.availIx ≤ bitsToAllocWords arch dap.ptrArraySpace

theorem allocWords_eq {slots : Nat} (fits : BytesFit arch slots) :
    bitsToAllocWords arch slots = (slots + 31) / 32 := by
  unfold bitsToAllocWords BytesFit kBitsPerWord at *
  have width : 2 ^ 32 ≤ 2 ^ arch.ptrBits :=
    Nat.pow_le_pow_right (by decide) (by cases arch <;> decide)
  have bytes : 4 ≤ arch.ptrBits / 8 := by cases arch <;> decide
  have := Nat.mul_le_mul_left slots bytes
  rw [Nat.mod_eq_of_lt (by omega)]
  rfl

variable {dap : DynArray α} {last : Nat → Option α}

theorem ctor_tracks {initialSize : Nat} {reply : HeapReply α} (fits : BytesFit arch initialSize)
    (made : dynArrayCtor arch initialSize reply = some dap) : Tracks arch dap fun _ => none := by
  unfold dynArrayCtor at made
  simp only at made
  split at made
  · cases made
    have size : 0 < if initialSize = 0 then 32 else initialSize := by
      split <;> omega
    have room : BytesFit arch (if initialSize = 0 then 32 else initialSize) := by
      split
      · unfold BytesFit
        cases arch <;> decide
      · exact fits
    refine ⟨size, room, Nat.zero_le _, fun i below => if_pos below, fun _ _ => rfl, ?_,
      fun k below => absurd below (Nat.not_lt_zero k), Nat.zero_le _⟩
    intro i word
    rw [get_eq_getLsbD (by decide)]
    simp only [if_pos word]
    exact BitVec.getLsbD_zero
  · cases made

theorem desiredSpace_above {idx : Nat} {turns space desired : Nat} (positive : 0 < space)
    (found : desiredSpace arch idx turns space = some desired) : idx < desired ∧ space ≤ desired := by
  induction turns generalizing space with
  | zero => cases found
  | succ turns ih =>
    unfold desiredSpace at found
    split at found
    · rename_i below
      cases found
      exact ⟨below, Nat.le_refl _⟩
    · simp only at found
      split at found
      · cases found
      · rename_i larger
        obtain ⟨above, more⟩ := ih (by omega) found
        exact ⟨above, by omega⟩

section

variable (tracks : Tracks arch dap last)
include tracks

theorem Tracks.grow {desired : Nat} (reply : HeapReply α)
    (larger : dap.ptrArraySpace ≤ desired) (fits : BytesFit arch desired) :
    Tracks arch (dap.grow arch desired reply).1 last ∧ ((dap.grow arch desired reply).2 = true →
        (dap.grow arch desired reply).1.ptrArraySpace = desired) := by
  obtain ⟨space, room, entries, slots, unset, bits, full, inside⟩ := tracks
  unfold DynArray.grow
  split
  · exact ⟨⟨space, room, entries, slots, unset, bits, full, inside⟩, nofun⟩
  simp only
  split
  · exact ⟨⟨space, room, entries, fun i below => (if_pos below).trans (slots i below), unset, bits,
      full, inside⟩, nofun⟩
  refine ⟨?_, fun _ => rfl⟩
  have old := allocWords_eq room
  have new := allocWords_eq fits
  refine ⟨by simp only; omega, fits, by simp only; omega, fun i below => ?_, unset,
    fun i word => ?_, fun k below => ?_, by simp only; omega⟩
  · simp only at below ⊢
    split
    · rename_i kept
      exact slots i kept
    · exact (unset i (by omega)).symm
  · simp only at word ⊢
    by_cases kept : i / 32 < bitsToAllocWords arch dap.ptrArraySpace
    · rw [← bits i kept, get_eq_getLsbD (by decide), get_eq_getLsbD (by decide)]
      simp only [if_pos kept]
    · rw [unset i (by omega), get_eq_getLsbD (by decide)]
      simp only [if_neg kept, if_pos word]
      exact BitVec.getLsbD_zero
  · have below : k < dap.availIx := below
    exact (if_pos (by omega)).trans (full k below)

theorem Tracks.store {idx : Nat} (ptr : Option α) (below : idx < dap.ptrArraySpace) :
    Tracks arch (dap.store idx ptr) fun i => if i = idx then ptr else last i := by
  obtain ⟨space, room, entries, slots, unset, bits, full, inside⟩ := tracks
  have words := allocWords_eq room
  refine ⟨space, room, ?_, fun i lower => ?_, fun i above => ?_, fun i word => ?_, fun k lower => ?_, ?_⟩
  · simp only [DynArray.store]
    split <;> omega
  · simp only [DynArray.store]
    split
    · rfl
    · exact slots i lower
  · simp only [DynArray.store] at above
    have other : i ≠ idx := by
      split at above <;> omega
    rw [if_neg other]
    apply unset
    split at above <;> omega
  · have before := bits i word
    cases ptr with
    | some p =>
      simp only [DynArray.store, isSome_some, if_true]
      rw [get_set (by decide), before]
      by_cases same : i = idx
      · simp [same]
      · simp [same, Ne.symm same]
    | none =>
      simp only [DynArray.store, isSome_none, Bool.false_eq_true, if_false]
      rw [get_clear (by decide), before]
      by_cases same : i = idx
      · simp [same]
      · simp [same, Ne.symm same]
  · cases ptr with
    | some p =>
      simp only [DynArray.store, isSome_some, isNone_some, Bool.false_eq_true,
        false_and, if_true, if_false] at lower ⊢
      refine word_full_iff.mpr fun i word => ?_
      rw [get_set (by decide), word_full_iff.mp (full k lower) i word, Bool.true_or]
    | none =>
      simp only [DynArray.store, isNone_none, isSome_none, true_and, kBitsPerWord,
        Bool.false_eq_true, if_false] at lower ⊢
      have other : k ≠ idx / 32 ∧ k < dap.availIx := by
        split at lower <;> omega
      rw [clear, if_neg other.1]
      exact full k other.2
  · have word : idx / kBitsPerWord ≤ bitsToAllocWords arch dap.ptrArraySpace := by
      rw [words]
      exact Nat.div_le_div_right (by omega)
    rcases ite_eq_or_eq (ptr.isNone = true ∧ idx / kBitsPerWord < dap.availIx)
      (idx / kBitsPerWord) dap.availIx with moved | kept
    · exact Nat.le_trans (Nat.le_of_eq moved) word
    · exact Nat.le_trans (Nat.le_of_eq kept) inside

theorem Tracks.set (idx : Nat) (ptr : Option α)
    (reply : HeapReply α) (fits : ∀ desired, desiredSpace arch idx (DynArray.turns arch)
      dap.ptrArraySpace = some desired → BytesFit arch desired) :
    Tracks arch (dynArraySet arch idx ptr reply dap).1
      (if (dynArraySet arch idx ptr reply dap).2 then fun i => if i = idx then ptr else last i
        else last) := by
  unfold dynArraySet
  split
  · exact tracks
  rename_i desired found
  obtain ⟨above, larger⟩ := desiredSpace_above tracks.space found
  split
  · rename_i same
    exact tracks.store ptr (same ▸ above)
  · have grown := tracks.grow reply larger (fits desired found)
    split
    · rename_i ran
      rw [ran] at grown
      exact grown.1
    · rename_i ran
      rw [ran] at grown
      exact grown.1.store ptr (by rw [grown.2 rfl]; exact above)

theorem Tracks.get (idx : Nat) : dynArrayGet dap idx = last idx := by
  unfold dynArrayGet
  split
  · rename_i below
    exact tracks.slots idx (Nat.lt_of_lt_of_le below tracks.entries)
  · rename_i above
    exact (tracks.unset idx (Nat.le_of_not_lt above)).symm

theorem Tracks.used {i : Nat} (word : i / 32 < bitsToAllocWords arch dap.ptrArraySpace)
    (full : dap.available (i / 32) = BitVec.allOnes 32) : last i ≠ none := by
  have bit := word_full_iff.mp full i rfl
  rw [tracks.bits i word] at bit
  exact ne_none_iff_isSome.mpr bit

theorem Tracks.firstAvail : Tracks arch (dynArrayFirstAvail arch dap).1 last ∧
      last (dynArrayFirstAvail arch dap).2 = none ∧
      ∀ i < (dynArrayFirstAvail arch dap).2, last i ≠ none := by
  have words := allocWords_eq tracks.fits
  have inside := tracks.inside
  unfold dynArrayFirstAvail
  simp only
  split
  · rename_i ix found
    obtain ⟨free, member, lower⟩ := List.find?_range'_eq_some.mp found
    have room : ix < bitsToAllocWords arch dap.ptrArraySpace := by
      have := List.mem_range'_1.mp member
      omega
    have before : ∀ k < ix, dap.available k = BitVec.allOnes 32 := by
      intro k below
      by_cases start : k < dap.availIx
      · exact tracks.full k start
      · simpa using lower k (Nat.le_of_not_lt start) below
    obtain ⟨clear, word, used⟩ := ffs_free (bne_iff_ne.mp free)
    refine ⟨⟨tracks.space, tracks.fits, tracks.entries, tracks.slots, tracks.unset, tracks.bits,
      before, Nat.le_of_lt room⟩, ?_, fun i below => ?_⟩
    · have bit := tracks.bits _ (Nat.lt_of_le_of_lt (Nat.le_of_eq word) room)
      exact not_isSome_iff_eq_none.mp (Bool.eq_false_iff.mp (bit.symm.trans clear))
    · have order : i / 32 ≤ ix := by
        have := Nat.div_le_div_right (c := 32) (Nat.le_of_lt below)
        exact Nat.le_trans this (Nat.le_of_eq word)
      have there : i / 32 < bitsToAllocWords arch dap.ptrArraySpace :=
        Nat.lt_of_le_of_lt order room
      rcases Nat.lt_or_eq_of_le order with earlier | same
      · exact tracks.used there (before _ earlier)
      · have bit := used i same below
        rw [tracks.bits i there] at bit
        exact ne_none_iff_isSome.mpr bit
  · rename_i none_free
    have all : ∀ k < bitsToAllocWords arch dap.ptrArraySpace, dap.available k = BitVec.allOnes 32 := by
      intro k below
      by_cases start : k < dap.availIx
      · exact tracks.full k start
      · simpa using List.find?_range'_eq_none.mp none_free k (Nat.le_of_not_lt start) (by omega)
    have used : ∀ i, i / 32 < bitsToAllocWords arch dap.ptrArraySpace → last i ≠ none :=
      fun i there => tracks.used there (all _ there)
    have space := tracks.space
    -- With every bit set there is no slot behind the last one that shares its word.
    have whole : dap.ptrArraySpace % 32 = 0 := by
      by_contra partly
      exact used dap.ptrArraySpace (by omega) (tracks.unset _ tracks.entries)
    exact ⟨tracks, tracks.unset _ tracks.entries, fun i below => used i (by omega)⟩

end

theorem DynArrayRun.tracks (run : DynArrayRun arch dap last) : Tracks arch dap last := by
  induction run with
  | ctor fits made => exact ctor_tracks fits made
  | set _ idx ptr reply fits ih => exact ih.set idx ptr reply fits
  | firstAvail _ ih => exact ih.firstAvail.1

/-- Over every run: the bitmap tells the slots in use, no word below the hint has a free bit, what
was set is got, and the first slot available is the least one that is NULL. -/
theorem dyn_array_over_runs (run : DynArrayRun arch dap last) :
    (∀ i < dap.ptrArraySpace, get dap.available i = (dap.ptrArray i).isSome) ∧
      (∀ k < dap.availIx, dap.available k = BitVec.allOnes 32) ∧
      (∀ i, dynArrayGet dap i = last i) ∧
      last (dynArrayFirstAvail arch dap).2 = none ∧
      ∀ i < (dynArrayFirstAvail arch dap).2, last i ≠ none := by
  have tracks := run.tracks
  refine ⟨fun i below => ?_, tracks.full, tracks.get, tracks.firstAvail.2⟩
  rw [tracks.slots i below]
  apply tracks.bits
  have words := allocWords_eq tracks.fits
  omega

def clearedHeap : HeapReply Unit := ⟨some fun _ => none, some fun _ => 0⟩

def oneSlot : DynArray Unit where
  numEntries := 0
  ptrArray := fun _ => none
  ptrArraySpace := 1
  available := fun _ => 0
  availIx := 0

/-- A slot behind the only one: the array grows, and the first one is still free. -/
theorem dyn_array_over_runs_grown :
    dynArrayGet (dynArraySet .x86_32 1 (some ()) clearedHeap oneSlot).1 1 = some () ∧
      (dynArrayFirstAvail .x86_32 (dynArraySet .x86_32 1 (some ()) clearedHeap oneSlot).1).2 = 0 := by
  have made : dynArrayCtor .x86_32 1 clearedHeap = some oneSlot := by
    simp [dynArrayCtor, clearedHeap, oneSlot]
  have double : desiredSpace .x86_32 1 (DynArray.turns .x86_32) 1 = some 2 := by decide
  have run := (DynArrayRun.ctor (by decide) made).set 1 (some ()) clearedHeap (by
    intro desired found
    cases double.symm.trans found
    decide)
  obtain ⟨-, -, got, -, used⟩ := dyn_array_over_runs run
  refine ⟨got 1, Nat.eq_zero_of_not_pos fun above => used 0 above rfl⟩

end Runs

end Glopen.Nacl

import Glopen.Lib.Memory

/-! The publication protocol of nacl_text.c: bundle tails are stored first, then,
after a write barrier, the bundle heads. Loops are lists of aligned word stores,
so a thread that runs concurrently sees the memory after some prefix of the list. -/
namespace Glopen.Nacl

open Memory List

/-- `nap->bundle_size`, as fixed by the ELF flags. -/
structure BundleSize where
  toNat : Nat
  known : toNat = 16 ∨ toNat = 32
deriving DecidableEq

def bundle16 : BundleSize := ⟨16, by decide⟩

def bundle32 : BundleSize := ⟨32, by decide⟩

theorem BundleSize.pos (b : BundleSize) : 0 < b.toNat := by
  have := b.known
  omega

theorem BundleSize.four_dvd (b : BundleSize) : 4 ∣ b.toNat := by
  have := b.known
  omega

theorem BundleSize.and_mask (b : BundleSize) (p : Nat) : p &&& (b.toNat - 1) = p % b.toNat := by
  rcases b.known with h | h
  · rw [h]
    exact Nat.and_two_pow_sub_one_eq_mod p 4
  · rw [h]
    exact Nat.and_two_pow_sub_one_eq_mod p 5

/-- Conversion of a `uint32_t` argument to an `int32_t` parameter. -/
def int32 (n : Nat) : Int := if n < 2 ^ 31 then n else n - 2 ^ 32

def codeRangeIsUnused (haltWord : Word) (m : Mem) (data size : Nat) : Bool :=
  (addresses data (data + size) 4).all fun addr => loadWord m addr == haltWord

def copyBundleTails (dest : Nat) (src : Mem) (size : Int) (b : BundleSize) : Option (List Write) :=
  if dest &&& 3 = 0 then
    some ((addresses dest (dest + size).toNat 4).filterMap fun destPtr =>
      if destPtr &&& (b.toNat - 1) ≠ 0 then some ⟨destPtr, loadWord src (destPtr - dest)⟩ else none)
  else none -- CHECK failure

def copyBundleHeads (dest : Nat) (src : Mem) (size : Nat) (b : BundleSize) : Option (List Write) :=
  if dest &&& 3 = 0 then
    some ((addresses dest (dest + size) b.toNat).map fun destPtr =>
      ⟨destPtr, loadWord src (destPtr - dest)⟩)
  else none -- CHECK failure

/-- The stores of `CopyCodeSafely` in program order; `src` is indexed from its start. -/
def copyCodeSafely (dest : Nat) (src : Mem) (size : Nat) (b : BundleSize) : Option (List Write) := do
  let tails ← copyBundleTails dest src (int32 size) b
  let heads ← copyBundleHeads dest src size b
  return tails ++ heads

/-- What the only caller has checked before it copies: whole aligned bundles, and a
size that the shared-memory mapping call accepted. -/
structure CopyRequest (b : BundleSize) (dest size : Nat) : Prop where
  dest_aligned : dest % b.toNat = 0
  size_aligned : size % b.toNat = 0
  size_small : size < 2 ^ 31

variable {b : BundleSize} {dest size : Nat} {src : Mem} {ws : List Write} {k i : Nat} {done : List Write}
  {m : Mem}

section Copy

theorem CopyRequest.word_aligned (request : CopyRequest b dest size) : dest % 4 = 0 ∧ size % 4 = 0 := by
  have h := request.dest_aligned
  have h' := request.size_aligned
  exact ⟨Nat.mod_eq_zero_of_dvd (Nat.dvd_trans b.four_dvd (Nat.dvd_of_mod_eq_zero h)),
    Nat.mod_eq_zero_of_dvd (Nat.dvd_trans b.four_dvd (Nat.dvd_of_mod_eq_zero h'))⟩

theorem CopyRequest.check (request : CopyRequest b dest size) : dest &&& 3 = 0 := by
  rw [Nat.and_two_pow_sub_one_eq_mod dest 2]
  exact request.word_aligned.1

theorem int32_of_small {n : Nat} (small : n < 2 ^ 31) : int32 n = n := if_pos small

section

variable (request : CopyRequest b dest size)
include request

variable {tails heads : List Write} {w : Write}

theorem mem_tails (ran : copyBundleTails dest src (int32 size) b = some tails) (w : Write) :
    w ∈ tails ↔ (∃ i, w.addr = dest + 4 * i) ∧ w.addr < dest + size ∧ w.addr % b.toNat ≠ 0 ∧
      w.word = loadWord src (w.addr - dest) := by
  rw [copyBundleTails, if_pos request.check, int32_of_small request.size_small] at ran
  cases ran
  have stop : ((dest : Int) + (size : Int)).toNat = dest + size := by omega
  simp only [mem_filterMap, mem_addresses (Nat.succ_pos 3), b.and_mask, stop]
  constructor
  · rintro ⟨p, ⟨i, at_word, below⟩, taken⟩
    split at taken
    · rename_i inner
      cases taken
      exact ⟨⟨i, at_word⟩, below, inner, rfl⟩
    · contradiction
  · rintro ⟨⟨i, at_word⟩, below, inner, value⟩
    refine ⟨w.addr, ⟨i, at_word, below⟩, ?_⟩
    rw [if_pos inner, ← value]

theorem mem_heads (ran : copyBundleHeads dest src size b = some heads) (w : Write) :
    w ∈ heads ↔ (∃ k, w.addr = dest + b.toNat * k) ∧ w.addr < dest + size ∧
      w.word = loadWord src (w.addr - dest) := by
  rw [copyBundleHeads, if_pos request.check] at ran
  cases ran
  simp only [List.mem_map, mem_addresses b.pos]
  constructor
  · rintro ⟨p, ⟨k, at_bundle, below⟩, rfl⟩
    exact ⟨⟨k, at_bundle⟩, below, rfl⟩
  · rintro ⟨⟨k, at_bundle⟩, below, value⟩
    exact ⟨w.addr, ⟨k, at_bundle, below⟩, by rw [← value]⟩

theorem copy_code_safely_runs (src : Mem) : ∃ tails heads, copyBundleTails dest src (int32 size) b = some tails ∧
      copyBundleHeads dest src size b = some heads ∧
      copyCodeSafely dest src size b = some (tails ++ heads) := by
  refine ⟨_, _, if_pos request.check, if_pos request.check, ?_⟩
  simp [copyCodeSafely, copyBundleTails, copyBundleHeads, request.check]

theorem copies_of_runs (ran : copyCodeSafely dest src size b = some ws) : Copies dest src ws := by
  obtain ⟨tails, heads, tails_ran, heads_ran, both⟩ := copy_code_safely_runs request src
  cases (ran.symm.trans both)
  refine Copies.append (fun w hw => ?_) (fun w hw => ?_)
  · obtain ⟨⟨i, at_word⟩, -, -, value⟩ := (mem_tails request tails_ran w).mp hw
    exact ⟨by omega, value⟩
  · obtain ⟨⟨k, at_bundle⟩, -, value⟩ := (mem_heads request heads_ran w).mp hw
    exact ⟨by omega, value⟩

theorem writes_inside (ran : copyCodeSafely dest src size b = some ws) (member : w ∈ ws) :
    dest ≤ w.addr ∧ w.addr + 4 ≤ dest + size := by
  obtain ⟨tails, heads, tails_ran, heads_ran, both⟩ := copy_code_safely_runs request src
  cases (ran.symm.trans both)
  have aligned := request.word_aligned
  rcases mem_append.mp member with hw | hw
  · obtain ⟨⟨i, at_word⟩, below, -⟩ := (mem_tails request tails_ran w).mp hw
    omega
  · obtain ⟨⟨k, at_bundle⟩, below, -⟩ := (mem_heads request heads_ran w).mp hw
    obtain ⟨c, hc⟩ := b.four_dvd
    rw [hc, Nat.mul_assoc] at at_bundle
    omega

theorem tail_byte_covered (ran : copyBundleTails dest src (int32 size) b = some tails)
    (bundle : b.toNat * k < size) (tail : 4 ≤ i) (inner : i < b.toNat) :
    ∃ w ∈ tails, w.covers (dest + b.toNat * k + i) := by
  refine ⟨⟨dest + b.toNat * k + 4 * (i / 4), loadWord src (b.toNat * k + 4 * (i / 4))⟩, ?_, ?_⟩
  · rw [mem_tails request ran]
    obtain ⟨c, hc⟩ := b.four_dvd
    have whole : b.toNat * k + b.toNat ≤ size := by
      obtain ⟨n, hn⟩ := Nat.dvd_of_mod_eq_zero request.size_aligned
      rw [hn] at bundle ⊢
      have := Nat.lt_of_mul_lt_mul_left bundle
      calc b.toNat * k + b.toNat = b.toNat * (k + 1) := by rw [Nat.mul_succ]
        _ ≤ b.toNat * n := Nat.mul_le_mul_left _ this
    refine ⟨⟨c * k + i / 4, ?_⟩, by simp only; omega, ?_, ?_⟩
    · rw [hc]
      simp only [Nat.mul_add, Nat.mul_assoc, Nat.add_assoc]
    · have aligned := request.dest_aligned
      have rest : (dest + b.toNat * k + 4 * (i / 4)) % b.toNat = 4 * (i / 4) := by
        rw [Nat.add_assoc, Nat.add_mod, aligned, Nat.zero_add, Nat.mod_mod, Nat.mul_add_mod]
        exact Nat.mod_eq_of_lt (by omega)
      simp only [rest]
      omega
    · simp only
      congr 1
      omega
  · simp only [Write.covers]
    omega

theorem tails_skip_head (ran : copyBundleTails dest src (int32 size) b = some tails) (member : w ∈ tails)
    (small : i < 4) : ¬ w.covers (dest + b.toNat * k + i) := by
  obtain ⟨⟨j, at_word⟩, -, inner, -⟩ := (mem_tails request ran w).mp member
  rintro ⟨lower, upper⟩
  -- both addresses are word aligned, so overlapping words coincide
  have same : w.addr = dest + b.toNat * k := by
    obtain ⟨c, hc⟩ := b.four_dvd
    rw [hc, Nat.mul_assoc] at lower upper ⊢
    omega
  apply inner
  rw [same, Nat.add_mul_mod_self_left]
  exact request.dest_aligned

theorem halt_head_kept (tails_ran : copyBundleTails dest src (int32 size) b = some tails)
    (heads_ran : copyBundleHeads dest src size b = some heads) (sub : ∀ w ∈ done, w ∈ tails ∨ w ∈ heads)
    (unpublished : ∀ w ∈ done, w.addr ≠ dest + b.toNat * k) (m : Mem) :
    loadWord (storeAll m done) (dest + b.toNat * k) = loadWord m (dest + b.toNat * k) := by
  apply loadWord_congr
  intro i small
  apply storeAll_frame
  intro w member
  rcases sub w member with hw | hw
  · exact tails_skip_head request tails_ran hw small
  · obtain ⟨⟨j, at_bundle⟩, -⟩ := (mem_heads request heads_ran w).mp hw
    rintro ⟨lower, upper⟩
    apply unpublished w member
    obtain ⟨c, hc⟩ := b.four_dvd
    rw [hc, Nat.mul_assoc] at at_bundle lower upper ⊢
    omega

end

variable {d : Nat}

theorem copyCodeSafely_shift (b : BundleSize) {s : Nat} (aligned : d % b.toNat = 0)
    (small : size < 2 ^ 31) (src : Mem) :
    copyCodeSafely (d + s) src size b = (copyCodeSafely s src size b).map (List.map (Write.shift d)) := by
  have words : (d + s) &&& 3 = s &&& 3 := by
    have : d % 4 = 0 :=
      Nat.mod_eq_zero_of_dvd (Nat.dvd_trans b.four_dvd (Nat.dvd_of_mod_eq_zero aligned))
    rw [Nat.and_two_pow_sub_one_eq_mod _ 2, Nat.and_two_pow_sub_one_eq_mod _ 2]
    omega
  have bundles : ∀ p, (d + p) % b.toNat = p % b.toNat := by
    intro p
    rw [Nat.add_mod, aligned, Nat.zero_add, Nat.mod_mod]
  have stop : ((d + s : Nat) + int32 size).toNat = d + (s + int32 size).toNat := by
    rw [int32_of_small small]
    omega
  simp only [copyCodeSafely, copyBundleTails, copyBundleHeads, words]
  split
  · simp only [stop, Nat.add_assoc, addresses_shift, filterMap_map, List.map_map,
      Option.bind_eq_bind, Option.bind_some, Option.pure_def, Option.map_some, map_append,
      map_filterMap]
    congr 2
    · refine filterMap_congr fun p _ => ?_
      simp only [Function.comp, b.and_mask, bundles]
      split <;> simp [Write.shift, Nat.add_sub_add_left]
    · refine map_congr_left fun p _ => ?_
      simp [Write.shift, Nat.add_sub_add_left]
  · rfl

theorem codeRangeIsUnused_shift (haltWord : Word) {m' : Mem} {e : Nat} (s size : Nat)
    (same : ∀ x, m (d + x) = m' (e + x)) :
    codeRangeIsUnused haltWord m (d + s) size = codeRangeIsUnused haltWord m' (e + s) size := by
  simp only [codeRangeIsUnused, Nat.add_assoc, addresses_shift, List.all_map]
  congr 1
  funext p
  have word : loadWord m (d + p) = loadWord m' (e + p) :=
    loadWord_congr fun i _ => by simp only [Nat.add_assoc, same]
  simp only [Function.comp, word]

end Copy

def HaltStarted (haltWord : Word) (m : Mem) (start : Nat) : Prop := loadWord m start = haltWord

/-- The bundle at `start` holds byte for byte what `src` holds at `offset`. -/
def Holds (b : BundleSize) (m : Mem) (start : Nat) (src : Mem) (offset : Nat) : Prop :=
  ∀ i < b.toNat, m (start + i) = src (offset + i)

section Publication

variable {haltWord : Word}

theorem publication_step (request : CopyRequest b dest size)
    (ran : copyCodeSafely dest src size b = some ws) (initial : done <+: ws) (bundle : b.toNat * k < size)
    (unused : HaltStarted haltWord m (dest + b.toNat * k)) :
    HaltStarted haltWord (storeAll m done) (dest + b.toNat * k) ∨
      Holds b (storeAll m done) (dest + b.toNat * k) src (b.toNat * k) := by
  obtain ⟨tails, heads, tails_ran, heads_ran, both⟩ := copy_code_safely_runs request src
  have copies := (copies_of_runs request ran).initial initial
  cases (ran.symm.trans both)
  have sub : ∀ w ∈ done, w ∈ tails ∨ w ∈ heads :=
    fun w hw => mem_append.mp (initial.subset hw)
  by_cases published : ∃ w ∈ done, w.addr = dest + b.toNat * k
  · right
    obtain ⟨w, member, start⟩ := published
    -- a store to the head comes from the second loop, so the first loop is complete
    have not_tail : w ∉ tails := by
      intro hw
      have skipped := tails_skip_head request tails_ran hw (k := k) (i := 0) (by decide)
      exact skipped ⟨by omega, by omega⟩
    have all_tails : tails <+: done := by
      rcases prefix_or_prefix_of_prefix initial (prefix_append tails heads) with h | h
      · exact absurd (h.subset member) not_tail
      · exact h
    intro i inner
    have covered : ∃ v ∈ done, v.covers (dest + b.toNat * k + i) := by
      by_cases head : i < 4
      · exact ⟨w, member, by omega, by omega⟩
      · obtain ⟨v, hv, cov⟩ :=
          tail_byte_covered request tails_ran bundle (Nat.le_of_not_lt head) inner
        exact ⟨v, all_tails.subset hv, cov⟩
    rw [(storeAll_copies copies m _).2 covered]
    congr 1
    omega
  · left
    push Not at published
    rw [HaltStarted, halt_head_kept request tails_ran heads_ran sub published]
    exact unused

theorem publication_complete (request : CopyRequest b dest size)
    (ran : copyCodeSafely dest src size b = some ws) (m : Mem) (inside : i < size) :
    storeAll m ws (dest + i) = src i := by
  obtain ⟨tails, heads, tails_ran, heads_ran, both⟩ := copy_code_safely_runs request src
  have copies := copies_of_runs request ran
  cases (ran.symm.trans both)
  have split : b.toNat * (i / b.toNat) + i % b.toNat = i := Nat.div_add_mod i b.toNat
  have inner : i % b.toNat < b.toNat := Nat.mod_lt i b.pos
  have covered : ∃ w ∈ tails ++ heads, w.covers (dest + i) := by
    by_cases head : i % b.toNat < 4
    · refine ⟨⟨dest + b.toNat * (i / b.toNat), loadWord src (b.toNat * (i / b.toNat))⟩, ?_,
        by simp only [Write.covers]; omega⟩
      rw [mem_append, mem_heads request heads_ran]
      exact .inr ⟨⟨_, rfl⟩, by simp only; omega, by simp only [Nat.add_sub_cancel_left]⟩
    · obtain ⟨w, hw, cov⟩ := tail_byte_covered request tails_ran (k := i / b.toNat)
        (by omega) (Nat.le_of_not_lt head) inner
      refine ⟨w, mem_append_left _ hw, ?_⟩
      rwa [Nat.add_assoc, split] at cov
  rw [(storeAll_copies copies m _).2 covered, Nat.add_sub_cancel_left]

/-- At every point of the copy each bundle is still unreachable or already complete;
the result is the source, and nothing outside the destination is stored. -/
theorem copy_code_never_half_written (request : CopyRequest b dest size) (src m : Mem)
    (unused : ∀ k, b.toNat * k < size → HaltStarted haltWord m (dest + b.toNat * k)) :
    ∃ ws, copyCodeSafely dest src size b = some ws ∧ (∀ done, done <+: ws → ∀ k, b.toNat * k < size →
        HaltStarted haltWord (storeAll m done) (dest + b.toNat * k) ∨
        Holds b (storeAll m done) (dest + b.toNat * k) src (b.toNat * k)) ∧
      (∀ i < size, storeAll m ws (dest + i) = src i) ∧
      (∀ w ∈ ws, ∀ x, w.covers x → dest ≤ x ∧ x < dest + size) := by
  obtain ⟨tails, heads, -, -, ran⟩ := copy_code_safely_runs request src
  refine ⟨tails ++ heads, ran, ?_, ?_, ?_⟩
  · intro done initial k bundle
    exact publication_step request ran initial bundle (unused k bundle)
  · intro i inside
    exact publication_complete request ran m inside
  · rintro w member x ⟨lower, upper⟩
    have inside := writes_inside request ran member
    omega

/-- Two bundles of no-ops over a halt-filled destination. -/
theorem copy_code_two_bundles : ∃ ws, copyCodeSafely 0x40 (fun _ => 0x90) 32 bundle16 = some ws ∧
      ∀ done, done <+: ws → ∀ k, 16 * k < 32 →
        HaltStarted 0xf4f4f4f4#32 (storeAll (fun _ => 0xf4) done) (0x40 + 16 * k) ∨
        Holds bundle16 (storeAll (fun _ => 0xf4) done) (0x40 + 16 * k) (fun _ => 0x90) (16 * k) := by
  have request : CopyRequest bundle16 0x40 32 := ⟨by decide, by decide, by decide⟩
  have unused : ∀ k, 16 * k < 32 → HaltStarted 0xf4f4f4f4#32 (fun _ => 0xf4) (0x40 + 16 * k) :=
    fun _ _ => (loadWord_const _ _).trans (by decide)
  obtain ⟨ws, ran, visible, -⟩ :=
    copy_code_never_half_written request (fun _ => 0x90) (fun _ => 0xf4) unused
  exact ⟨ws, ran, visible⟩

end Publication

end Glopen.Nacl

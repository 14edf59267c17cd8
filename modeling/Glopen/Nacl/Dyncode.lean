import Glopen.Nacl.App

/-! The system call that loads code into the dynamic text region. The validator is
a parameter: it may accept or reject a code range and may rewrite the private copy.
What the host answers during one call travels with the call. -/
namespace Glopen.Nacl

open Memory Option

def naclAbiEnomem : Nat := 12
def naclAbiEfault : Nat := 14
def naclAbiEinval : Nat := 22
def naclAbiEoverflow : Nat := 139
def naclAbiEMoveAddressSpace : Nat := 0x40000000

/-- Verdict and possibly rewritten code, for code of a given size bound for `dest`. -/
abbrev Validator := Nat → Mem → Nat → Bool × Mem

structure HostReply (arch : Arch) where
  /-- The sandbox memory, by user address, when the source is copied. -/
  user : Mem
  findAddressSpace : Nat → Option Nat
  found_fits : ∀ len addr, findAddressSpace len = some addr →
    addr % naclPagesize = 0 ∧ addr + len < 2 ^ arch.ptrBits
  mapOk : Bool
  mallocOk : Bool
  unmapOk : Bool

structure DyncodeCall (arch : Arch) extends HostReply arch where
  dest : Nat
  src : Nat
  size : Nat
  dest_lt : dest < 2 ^ 32
  src_lt : src < 2 ^ 32
  size_lt : size < 2 ^ 32

/-- `NaClDescImcShmMap` without MAP_FIXED: an errno or the address of the mapping. -/
def naClDescImcShmMap {arch : Arch} (reply : HostReply arch) (len offset : Nat) : Except Nat Nat :=
  match reply.findAddressSpace len with
  | none => .error naclAbiEnomem
  | some addr =>
    if 2 ^ 31 - 1 < (offset + len + naclMapPagesize - 1) / naclMapPagesize * naclMapPagesize then
      .error naclAbiEoverflow
    else if reply.mapOk then .ok addr
    else .error naclAbiEMoveAddressSpace

/-- `uintptr_t` values are zero extended to the 64-bit parameter. -/
def naClIsNegErrno (val : Nat) : Bool := val / 2 ^ 16 == 2 ^ 48 - 1

def DyncodeCall.codeCopy {arch : Arch} (call : DyncodeCall arch) : Mem :=
  fun i => if i < call.size then call.user (call.src + i) else 0

variable {arch : Arch}

section Syscall

variable (validate : Validator)

/-- The part under `dynamic_load_mutex`, at the host address of the mapping. -/
def validateAndCopy (nap : NaClApp) (call : DyncodeCall arch) (mapped : Option Mem)
    (mappedAddr : Nat) : Option (Int × List Write) :=
  let (accepted, code) := validate call.dest call.codeCopy call.size
  if !(accepted || nap.ignoreValidatorResult) then some (-naclAbiEinval, [])
  else do
    let view ← mapped -- an access through a failed mapping faults
    if !codeRangeIsUnused arch.haltWord view mappedAddr call.size then
      return (-naclAbiEinval, [])
    else
      let ws ← copyCodeSafely mappedAddr code call.size nap.bundleSize
      return (0, ws)

/-- From the result of the mapping call to the unmapping. `mapped` is the memory behind the
mapping; the stores are reported as stores to the shared object. -/
def copyThroughMapping (nap : NaClApp) (call : DyncodeCall arch) (mapped : Option Mem)
    (mmapRet shmMapOffset shmMapSize withinPageOffset : Nat) : Option (Int × List Write) :=
  let modulus := 2 ^ arch.ptrBits
  if naClIsNegErrno mmapRet then some (int32 (mmapRet % 2 ^ 32), [])
  else
    let mappedAddr := (mmapRet + withinPageOffset) % modulus
    if mappedAddr < mmapRet ∨
        (mmapRet + shmMapSize) % modulus < (mappedAddr + call.size) % modulus then none
    else
      let copied := if call.mallocOk then validateAndCopy validate nap call mapped mappedAddr
        else some (-naclAbiEnomem, [])
      copied.bind fun (retval, ws) =>
        if call.unmapOk then
          some (retval, ws.map fun w => ⟨shmMapOffset + (w.addr - mmapRet), w.word⟩)
        else none

def mapAndCopy (nap : NaClApp) (shm : Mem) (call : DyncodeCall arch) : Option (Int × List Write) :=
  let shmOffset := subWord 32 call.dest nap.dynamicTextStart
  let shmMapOffset := truncTo naclMapPagesize shmOffset
  let withinPageOffset := shmOffset % naclMapPagesize
  let shmMapOffsetEnd := roundUp 32 naclMapPagesize (shmOffset + call.size)
  let shmMapSize := subWord 32 shmMapOffsetEnd shmMapOffset
  match naClDescImcShmMap call.toHostReply shmMapSize shmMapOffset with
  | .ok addr =>
    copyThroughMapping validate nap call (some fun a => shm (shmMapOffset + (a - addr))) addr
      shmMapOffset shmMapSize withinPageOffset
  | .error errno =>
    -- the errno comes back as a machine word, and not every one passes for an errno
    copyThroughMapping validate nap call none (2 ^ arch.ptrBits - errno)
      shmMapOffset shmMapSize withinPageOffset

/-- Return value and stores to the shared object; `none` is an abort of the process. -/
def naClTextSysDyncodeCopy (nap : NaClApp) (call : DyncodeCall arch) : Option (Int × List Write) :=
  match nap.textShm with
  | none => some (-naclAbiEinval, [])
  | some shm =>
    let mask := nap.bundleSize.toNat - 1
    if call.dest &&& mask ≠ 0 ∨ call.size &&& mask ≠ 0 then some (-naclAbiEinval, [])
    else if naClUserToSysAddrRange arch nap call.dest call.size = kNaClBadAddress arch ∨
        naClUserToSysAddrRange arch nap call.src call.size = kNaClBadAddress arch then
      some (-naclAbiEfault, [])
    else if call.dest < nap.dynamicTextStart then some (-naclAbiEfault, [])
    else if subWord arch.ptrBits nap.dynamicTextEnd naclHaltSledSize <
        (call.dest + call.size) % 2 ^ 32 then
      some (-naclAbiEfault, [])
    else if call.size = 0 then some (0, [])
    else mapAndCopy validate nap shm call

def DyncodeCall.code (call : DyncodeCall arch) : Mem :=
  (validate call.dest call.codeCopy call.size).2

def DyncodeCall.accepted (call : DyncodeCall arch) : Bool :=
  (validate call.dest call.codeCopy call.size).1

end Syscall

structure DynTextReady (arch : Arch) (nap : NaClApp) : Prop where
  start_aligned : nap.dynamicTextStart % naclMapPagesize = 0
  start_low : naclMapPagesize ≤ nap.dynamicTextStart
  start_le_end : nap.dynamicTextStart ≤ nap.dynamicTextEnd
  end_lt : nap.dynamicTextEnd < 2 ^ arch.ptrBits
  bits_le : nap.addrBits ≤ arch.naclMaxAddrBits

section Call

variable {validate : Validator} {nap : NaClApp} {call : DyncodeCall arch}

structure InRange (nap : NaClApp) (call : DyncodeCall arch) : Prop where
  dest_aligned : call.dest % nap.bundleSize.toNat = 0
  size_aligned : call.size % nap.bundleSize.toNat = 0
  above : nap.dynamicTextStart ≤ call.dest
  below : call.dest + call.size + naclHaltSledSize ≤ nap.dynamicTextEnd
  no_wrap : call.dest + call.size < 2 ^ 32

def DyncodeCall.offset (nap : NaClApp) (call : DyncodeCall arch) : Nat :=
  call.dest - nap.dynamicTextStart

theorem range_of_checks (ready : DynTextReady arch nap)
    (aligned : ¬ (call.dest &&& (nap.bundleSize.toNat - 1) ≠ 0 ∨ call.size &&& (nap.bundleSize.toNat - 1) ≠ 0))
    (mapped : naClUserToSysAddrRange arch nap call.dest call.size ≠ kNaClBadAddress arch)
    (above : ¬ call.dest < nap.dynamicTextStart)
    (below : ¬ subWord arch.ptrBits nap.dynamicTextEnd naclHaltSledSize <
      (call.dest + call.size) % 2 ^ 32) : InRange nap call := by
  simp only [nap.bundleSize.and_mask, not_or, not_not] at aligned
  have space := naClUserToSysAddrRange_bounds mapped call.dest_lt call.size_lt ready.bits_le
  have bits : 2 ^ nap.addrBits ≤ 2 ^ 32 :=
    Nat.pow_le_pow_right (by decide) (Nat.le_trans ready.bits_le arch.naclMaxAddrBits_le)
  have sled : naclHaltSledSize ≤ nap.dynamicTextEnd := by
    have := ready.start_low
    have := ready.start_le_end
    simp only [naclHaltSledSize, naclMapPagesize] at *
    omega
  have no_wrap : call.dest + call.size < 2 ^ 32 := by omega
  rw [subWord_of_le sled ready.end_lt, Nat.mod_eq_of_lt no_wrap] at below
  exact ⟨aligned.1, aligned.2, by omega, by omega, no_wrap⟩

structure Mapping (nap : NaClApp) (call : DyncodeCall arch) (mapOffset mapSize within : Nat) :
    Prop where
  offset_eq : call.offset nap = mapOffset + within
  map_aligned : mapOffset % naclMapPagesize = 0
  fits : within + call.size ≤ mapSize
  within_lt : within < naclMapPagesize
  end_aligned : (mapOffset + mapSize) % naclMapPagesize = 0

theorem shm_offset_eq (range : InRange nap call) : subWord 32 call.dest nap.dynamicTextStart = call.offset nap :=
  subWord_of_le range.above call.dest_lt

theorem mapping_of_range (ready : DynTextReady arch nap) (range : InRange nap call) :
    Mapping nap call (truncTo naclMapPagesize (call.offset nap))
      (subWord 32 (roundUp 32 naclMapPagesize (call.offset nap + call.size))
        (truncTo naclMapPagesize (call.offset nap)))
      (call.offset nap % naclMapPagesize) := by
  have low := ready.start_low
  have no_wrap := range.no_wrap
  have above := range.above
  have offset_le : call.offset nap + call.size + naclMapPagesize - 1 < 2 ^ 32 := by
    simp only [DyncodeCall.offset, naclMapPagesize] at *
    omega
  have rounded : roundUp 32 naclMapPagesize (call.offset nap + call.size) =
      (call.offset nap + call.size + naclMapPagesize - 1) / naclMapPagesize * naclMapPagesize := by
    rw [roundUp, Nat.mod_eq_of_lt offset_le]
  have mapSize : subWord 32 (roundUp 32 naclMapPagesize (call.offset nap + call.size))
      (truncTo naclMapPagesize (call.offset nap)) =
      (call.offset nap + call.size + naclMapPagesize - 1) / naclMapPagesize * naclMapPagesize -
        call.offset nap / naclMapPagesize * naclMapPagesize := by
    rw [rounded, truncTo]
    apply subWord_of_le
    · simp only [naclMapPagesize] at *
      omega
    · simp only [naclMapPagesize] at *
      omega
  rw [mapSize]
  simp only [truncTo, naclMapPagesize] at *
  refine ⟨?_, ?_, ?_, ?_, ?_⟩ <;> (try simp only [naclMapPagesize]) <;> omega

structure Publishes (validate : Validator) (nap : NaClApp) (shm : Mem) (call : DyncodeCall arch)
    (ws : List Write) : Prop where
  range : InRange nap call
  request : CopyRequest nap.bundleSize (call.offset nap) call.size
  authorised : call.accepted validate = true ∨ nap.ignoreValidatorResult = true
  unused : codeRangeIsUnused arch.haltWord shm (call.offset nap) call.size = true
  stores : copyCodeSafely (call.offset nap) (call.code validate) call.size nap.bundleSize = some ws

variable {ws : List Write} {ret : Int} {shm : Mem}
variable {mapped : Option Mem} {addr mapOffset mapSize within : Nat}

theorem validateAndCopy_spec {mappedAddr : Nat}
    (ran : validateAndCopy validate nap call mapped mappedAddr = some (ret, ws)) : (ret ≠ 0 ∧ ws = []) ∨
    (ret = 0 ∧ (call.accepted validate = true ∨ nap.ignoreValidatorResult = true) ∧
      ∃ view, mapped = some view ∧ codeRangeIsUnused arch.haltWord view mappedAddr call.size = true ∧
        copyCodeSafely mappedAddr (call.code validate) call.size nap.bundleSize = some ws) := by
  simp only [validateAndCopy] at ran
  split at ran
  · cases ran
    exact .inl ⟨by decide, rfl⟩
  rename_i verdict
  simp only [bind_eq_bind, bind_eq_some_iff] at ran
  obtain ⟨view, found, ran⟩ := ran
  split at ran
  · cases ran
    exact .inl ⟨by decide, rfl⟩
  rename_i unused
  simp only [bind_eq_some_iff] at ran
  obtain ⟨stores, copied, ran⟩ := ran
  cases ran
  refine .inr ⟨rfl, ?_, view, found, ?_, copied⟩
  · rw [← Bool.or_eq_true]
    simpa only [DyncodeCall.accepted, Bool.not_eq_true', Bool.not_eq_false] using verdict
  · simpa using unused

theorem shm_map_ok {reply : HostReply arch} {len offset : Nat}
    (mapped : naClDescImcShmMap reply len offset = .ok addr) :
    addr % naclPagesize = 0 ∧ addr + len < 2 ^ arch.ptrBits ∧
      (offset + len + naclMapPagesize - 1) / naclMapPagesize * naclMapPagesize < 2 ^ 31 := by
  rw [naClDescImcShmMap] at mapped
  split at mapped
  · contradiction
  rename_i found
  split at mapped
  · contradiction
  rename_i small
  split at mapped
  · cases mapped
    obtain ⟨aligned, fits⟩ := reply.found_fits _ _ found
    exact ⟨aligned, fits, by omega⟩
  · contradiction

theorem negErrno_ne_zero {val : Nat} (neg : naClIsNegErrno val = true) : int32 (val % 2 ^ 32) ≠ 0 := by
  simp only [naClIsNegErrno, beq_iff_eq] at neg
  simp only [int32]
  split <;> omega

theorem bundle_dvd_page (b : BundleSize) {n : Nat} (aligned : n % naclPagesize = 0) : n % b.toNat = 0 := by
  simp only [naclPagesize] at aligned
  rcases b.known with h | h <;> rw [h] <;> omega

theorem copy_request (ready : DynTextReady arch nap) (range : InRange nap call)
    (small : call.size < 2 ^ 31) : CopyRequest nap.bundleSize (call.offset nap) call.size := by
  refine ⟨?_, range.size_aligned, small⟩
  have page : nap.dynamicTextStart % nap.bundleSize.toNat = 0 := by
    have := ready.start_aligned
    simp only [naclMapPagesize] at this
    rcases nap.bundleSize.known with h | h <;> rw [h] <;> omega
  have above := range.above
  obtain ⟨c, hc⟩ := Nat.dvd_of_mod_eq_zero page
  obtain ⟨e, he⟩ := Nat.dvd_of_mod_eq_zero range.dest_aligned
  rw [DyncodeCall.offset, hc, he, ← Nat.mul_sub, Nat.mul_mod_right]

theorem copyThroughMapping_spec {mmapRet : Nat}
    (ran : copyThroughMapping validate nap call mapped mmapRet mapOffset mapSize within = some (ret, ws)) :
    (ret ≠ 0 ∧ ws = []) ∨ (ret = 0 ∧ (call.accepted validate = true ∨ nap.ignoreValidatorResult = true) ∧
      ∃ view stores, mapped = some view ∧
        codeRangeIsUnused arch.haltWord view ((mmapRet + within) % 2 ^ arch.ptrBits) call.size = true ∧
        copyCodeSafely ((mmapRet + within) % 2 ^ arch.ptrBits) (call.code validate) call.size
          nap.bundleSize = some stores ∧
        ws = stores.map fun w => ⟨mapOffset + (w.addr - mmapRet), w.word⟩) := by
  simp only [copyThroughMapping] at ran
  split at ran
  · rename_i neg
    cases ran
    exact .inl ⟨negErrno_ne_zero neg, rfl⟩
  split at ran
  · contradiction
  obtain ⟨⟨retval, stores⟩, copied, ran⟩ := bind_eq_some_iff.mp ran
  split at ran
  swap
  · contradiction
  cases ran
  split at copied
  · rcases validateAndCopy_spec copied with ⟨error, none⟩ | ⟨ok, authorised, view, found, rest⟩
    · exact .inl ⟨error, by rw [none]; rfl⟩
    · exact .inr ⟨ok, authorised, view, stores, found, rest.1, rest.2, rfl⟩
  · cases copied
    exact .inl ⟨by decide, rfl⟩

theorem published_of_mapping (ready : DynTextReady arch nap) (range : InRange nap call)
    {view : Mem} {stores : List Write} (mapping : Mapping nap call mapOffset mapSize within)
    (mapped : naClDescImcShmMap call.toHostReply mapSize mapOffset = .ok addr)
    (authorised : call.accepted validate = true ∨ nap.ignoreValidatorResult = true)
    (copied : some (fun a => shm (mapOffset + (a - addr))) = some view ∧
      codeRangeIsUnused arch.haltWord view ((addr + within) % 2 ^ arch.ptrBits) call.size = true ∧
      copyCodeSafely ((addr + within) % 2 ^ arch.ptrBits) (call.code validate) call.size
        nap.bundleSize = some stores ∧
      ws = stores.map fun w => ⟨mapOffset + (w.addr - addr), w.word⟩) :
    Publishes validate nap shm call ws := by
  obtain ⟨found, unused, done, rfl⟩ := copied
  cases found
  obtain ⟨page, fits, small⟩ := shm_map_ok mapped
  have inside := mapping.fits
  have size_small : call.size < 2 ^ 31 := by
    simp only [naclMapPagesize] at small
    omega
  have no_wrap : (addr + within) % 2 ^ arch.ptrBits = addr + within := Nat.mod_eq_of_lt (by omega)
  rw [no_wrap] at unused done
  have base : mapOffset % nap.bundleSize.toNat = 0 := by
    have := mapping.map_aligned
    simp only [naclMapPagesize] at this
    rcases nap.bundleSize.known with h | h <;> rw [h] <;> omega
  refine ⟨range, copy_request ready range size_small, authorised, ?_, ?_⟩
  · rw [mapping.offset_eq, ← unused]
    apply codeRangeIsUnused_shift
    intro x
    rw [Nat.add_sub_cancel_left]
  · rw [copyCodeSafely_shift _ (bundle_dvd_page _ page) size_small] at done
    rw [mapping.offset_eq, copyCodeSafely_shift _ base size_small]
    obtain ⟨relative, ran_at, rfl⟩ := map_eq_some_iff.mp done
    rw [ran_at, map_some, List.map_map]
    congr 2
    funext w
    simp [Write.shift]

theorem mapAndCopy_spec (ready : DynTextReady arch nap) (range : InRange nap call)
    (ran : mapAndCopy validate nap shm call = some (ret, ws)) :
    (ret ≠ 0 ∧ ws = []) ∨ (ret = 0 ∧ Publishes validate nap shm call ws) := by
  simp only [mapAndCopy, shm_offset_eq range] at ran
  have mapping := mapping_of_range ready range
  split at ran
  · rename_i addr mapped
    rcases copyThroughMapping_spec ran with failed | ⟨ok, authorised, view, stores, rest⟩
    · exact .inl failed
    · exact .inr ⟨ok, published_of_mapping ready range mapping mapped authorised rest⟩
  · rcases copyThroughMapping_spec ran with failed | ⟨-, -, view, stores, found, -⟩
    · exact .inl failed
    · cases found

theorem dyncode_spec (ready : DynTextReady arch nap) (present : nap.textShm = some shm)
    (ran : naClTextSysDyncodeCopy validate nap call = some (ret, ws)) :
    (ret ≠ 0 ∧ ws = []) ∨ (ret = 0 ∧ call.size = 0 ∧ ws = []) ∨
      (ret = 0 ∧ Publishes validate nap shm call ws) := by
  simp only [naClTextSysDyncodeCopy, present] at ran
  split at ran
  · cases ran
    exact .inl ⟨by decide, rfl⟩
  rename_i aligned
  split at ran
  · cases ran
    exact .inl ⟨by decide, rfl⟩
  rename_i translated
  split at ran
  · cases ran
    exact .inl ⟨by decide, rfl⟩
  rename_i above
  split at ran
  · cases ran
    exact .inl ⟨by decide, rfl⟩
  rename_i below
  split at ran
  · rename_i empty
    cases ran
    exact .inr (.inl ⟨rfl, empty, rfl⟩)
  have range := range_of_checks ready aligned (fun bad => translated (.inl bad)) above below
  rcases mapAndCopy_spec ready range ran with failed | published
  · exact .inl failed
  · exact .inr (.inr published)

end Call

end Glopen.Nacl

import Glopen.Nacl.ElfChecks

/-! sel_ldr_standard.c, sel_addrspace.c and the loading part of nacl_text.c: from an ELF file
to a laid out, protected address space. Host services are parameters; a store into pages
that have already been made inaccessible or read-only is a fault. -/
namespace Glopen.Nacl

open Memory

structure LoaderHost (arch : Arch) where
  allocate : Nat → Option Nat
  allocate_fits : ∀ size mem, allocate size = some mem →
    mem % naclPagesize = 0 ∧ mem + size ≤ 2 ^ arch.ptrBits
  madvise : Nat → Nat → Bool
  mprotect : Nat → Nat → Bool
  /-- Page protection applies to whole pages. -/
  mprotect_aligned : ∀ addr len, 0 < len → mprotect addr len = true → addr % naclPagesize = 0
  shmCreate : Nat → Bool
  shmMapAt : Nat → Nat → Bool
  vmmapGrow : Nat → Bool
  validateCode : NaClApp → Bool
  /-- Initial contents of the locals `rodata_end` and `data_end`. -/
  garbageRodataEnd : Nat
  garbageDataEnd : Nat

structure AddrRange where
  start : Nat
  stop : Nat
deriving DecidableEq, Repr

def AddrRange.Disjoint (r s : AddrRange) : Prop := ∀ x, ¬ (r.start ≤ x ∧ x < r.stop ∧
  s.start ≤ x ∧ x < s.stop)

def AddrRange.meets (r s : AddrRange) : Bool :=
  decide (max r.start s.start < min r.stop s.stop)

/-- A store of `count` bytes at a user address, given the pages that are not writable. -/
def storeTo (unwritable : List AddrRange) (start count : Nat) : Except LoadFailure Unit :=
  if unwritable.any fun r => r.meets ⟨start, start + count⟩ then .error .fatal else .ok ()

def eiClass : Nat := 4
def eiOsabi : Nat := 7
def eiAbiversion : Nat := 8
def elfosabiNacl : Nat := 123
def efNaclAbiversion : Nat := 7

def identAt (image : NaClElfImage) (i : Nat) : Nat := ((image.ehdr.eIdent[i]?).getD 0).toNat

def naClElfImageValidateAbi (arch : Arch) (image : NaClElfImage) : Except LoadFailure Unit :=
  if identAt image eiOsabi ≠ elfosabiNacl then .error (.code .loadBadAbi)
  else if identAt image eiAbiversion ≠ efNaclAbiversion ∧
      (arch = .x86_64 → identAt image eiAbiversion ≠ 0) then .error (.code .loadBadAbi)
  else .ok ()

def emExpectedByNacl : Arch → Nat
  | .x86_32 => 3
  | .x86_64 => 62
  | .arm => 40

def naClElfImageValidateElfHeader (arch : Arch) (image : NaClElfImage) : Except LoadFailure Unit :=
  if image.ehdr.eIdent.take 4 ≠ [0x7f, 0x45, 0x4c, 0x46] then .error (.code .loadBadElfMagic)
  else if arch = .x86_64 ∧ identAt image eiClass ≠ 2 then .error (.code .loadNot64Bit)
  else if arch ≠ .x86_64 ∧ identAt image eiClass ≠ 1 then .error (.code .loadNot32Bit)
  else if image.ehdr.eType ≠ 2 then .error (.code .loadNotExec)
  else if image.ehdr.eMachine ≠ emExpectedByNacl arch then .error (.code .loadBadMachine)
  else if image.ehdr.eVersion ≠ 1 then .error (.code .loadBadElfVers)
  else .ok ()

def naClElfImageGetBundleSize (image : NaClElfImage) : Except LoadFailure BundleSize :=
  let align := image.ehdr.eFlags &&& 0x300000
  if align = 0x100000 then .ok bundle16
  else if align = 0x200000 then .ok bundle32
  else .error .fatal

def naClAddrIsValidEntryPt (nap : NaClApp) (addr : Nat) : Bool :=
  addr &&& (nap.bundleSize.toNat - 1) == 0 && decide (addr < nap.staticTextEnd)

/-- The address space layout sanity checks of `NaClAppLoadFile`. -/
def layoutCheck (arch : Arch) (bounds : SegmentBounds) : Except LoadFailure Unit :=
  let textEnd := naClRoundAllocPage arch bounds.staticTextEnd
  if bounds.dataStart ≠ 0 ∧ bounds.dataEnd ≠ bounds.maxVaddr then
    .error (.code .loadDataNotLastSegment)
  else if bounds.dataStart = 0 ∧ bounds.rodataStart ≠ 0 ∧ bounds.rodataEnd ≠ bounds.maxVaddr then
    .error (.code .loadNoDataButRodataNotLastSegment)
  else if bounds.rodataStart ≠ 0 ∧ bounds.dataStart ≠ 0 ∧ bounds.dataStart < bounds.rodataEnd then
    .error (.code .loadRodataOverlapsData)
  else if bounds.rodataStart ≠ 0 ∧ bounds.rodataStart < textEnd then
    .error (.code .loadTextOverlapsRodata)
  else if bounds.rodataStart = 0 ∧ bounds.dataStart ≠ 0 ∧ bounds.dataStart < textEnd then
    .error (.code .loadTextOverlapsData)
  else .ok ()

def naClAllocateSpace (arch : Arch) (host : LoaderHost arch) (size : Nat) : Except LoadFailure Nat :=
  match arch, host.allocate size with
  | .x86_64, reply =>
    if size ≠ 2 ^ 32 then .error .fatal -- CHECK
    else match reply with
      | some mem => .ok mem
      | none => .error (.code .loadNoMemory)
  | .x86_32, some mem => .ok mem
  | .arm, some _ => .ok 0
  | _, none => .error (.code .loadNoMemory)

/-- `NaClAllocAddrSpace`: the base of the sandbox and the inaccessible hole below the stack. -/
def naClAllocAddrSpace (arch : Arch) (host : LoaderHost arch) (nap : NaClApp) :
    Except LoadFailure (NaClApp × List AddrRange) := do
  let space := oneShl arch.ptrBits nap.addrBits
  let mem ← naClAllocateSpace arch host space
  let holeStart := naClRoundAllocPage arch nap.dataEnd
  if space ≤ nap.stackSize then .error .fatal
  else
    let stackStart := naClTruncAllocPage (space - nap.stackSize)
    if stackStart < holeStart then .error (.code .loadDataOverlapsStackSection)
    else
      let holeSize := naClTruncAllocPage (stackStart - holeStart)
      let nap := { nap with memStart := mem }
      if holeSize = 0 then .ok (nap, [])
      else if !host.madvise ((mem + holeStart) % 2 ^ arch.ptrBits) holeSize then
        .error (.code .loadMadviseFail)
      else if !host.mprotect ((mem + holeStart) % 2 ^ arch.ptrBits) holeSize then
        .error (.code .loadMprotectFail)
      else .ok (nap, [⟨holeStart, holeStart + holeSize⟩])

def shmUpperBound (nap : NaClApp) (base : Nat) : Nat :=
  if nap.rodataStart ≠ 0 then nap.rodataStart
  else if nap.dataStart ≠ 0 then nap.dataStart
  else base

/-- Maps one chunk of the shared object in place of the text, fills it with halts through a
writable mapping and maps it again read-only and executable. -/
def mapTextChunk (arch : Arch) (host : LoaderHost arch) (nap : NaClApp) (base shmOffset : Nat) :
    Except LoadFailure Unit :=
  match naClUserToSys arch nap ((base + shmOffset) % 2 ^ arch.ptrBits) with
  | none => .error .fatal
  | some sysaddr => if host.shmMapAt sysaddr shmOffset then .ok () else .error .fatal

/-- `NaClMakeDynamicTextShared`, with the pages it leaves read-only. -/
def naClMakeDynamicTextShared (arch : Arch) (host : LoaderHost arch) (nap : NaClApp) :
    Except LoadFailure (NaClApp × List AddrRange) :=
  let base := naClRoundAllocPage arch nap.staticTextEnd
  if !nap.useShmForDynamicText then
    .ok ({ nap with dynamicTextStart := base, dynamicTextEnd := base }, [])
  else
    let upper := shmUpperBound nap base
    let nap := { nap with dynamicTextStart := base, dynamicTextEnd := upper }
    let size := subWord arch.ptrBits upper base
    if size = 0 then .ok (nap, [])
    else if !host.shmCreate size then .error (.code .loadNoMemory)
    else do
      let chunks := addresses 0 size naclMapPagesize
      chunks.forM (mapTextChunk arch host nap base)
      return ({ nap with textShm := some fun x => wordByte arch.haltWord (x % 4) },
        [⟨base, base + naclMapPagesize * chunks.length⟩])

def naClFillEndOfTextRegion (arch : Arch) (unwritable : List AddrRange) (nap : NaClApp) :
    Except LoadFailure NaClApp := do
  let pagePad := subWord arch.ptrBits
    (naClRoundAllocPage arch (nap.staticTextEnd + naclHaltSledSize)) nap.staticTextEnd
  if pagePad < naclHaltSledSize ∨ naclMapPagesize + naclHaltSledSize ≤ pagePad then .error .fatal
  else
    storeTo unwritable nap.staticTextEnd pagePad
    return { nap with staticTextEnd := (nap.staticTextEnd + pagePad) % 2 ^ arch.ptrBits }

def naClValidateImage (arch : Arch) (host : LoaderHost arch) (nap : NaClApp) : Except LoadFailure Unit :=
  let modulus := 2 ^ arch.ptrBits
  if (nap.memStart + nap.staticTextEnd) % modulus < (nap.memStart + naclTrampolineEnd) % modulus then
    .error (.code .loadNoMemory)
  else if host.validateCode nap || nap.ignoreValidatorResult then .ok ()
  else .error (.code .loadValidationFailed)

def protNone : Nat := 0
def protRead : Nat := 1
def protWrite : Nat := 2
def protExec : Nat := 4

section Protection

variable (arch : Arch) (host : LoaderHost arch)

/-- `NaClVmmapAdd` appends without looking at the entries that are there. -/
def naClVmmapAdd (nap : NaClApp) (pageNum npages prot : Nat) : Except LoadFailure NaClApp :=
  if !host.vmmapGrow nap.memMap.length then .error (.code .loadMprotectFail)
  else .ok { nap with memMap := nap.memMap ++ [⟨pageNum, npages, prot⟩] }

def mprotectOrFail (addr len : Nat) : Except LoadFailure Unit :=
  if host.mprotect (addr % 2 ^ arch.ptrBits) len then .ok () else .error (.code .loadMprotectFail)

def orFatal {A : Type} : Option A → Except LoadFailure A
  | some a => .ok a
  | none => .error .fatal

/-- `NaClMprotectGuards` of the three architectures. -/
def naClMprotectGuards (nap : NaClApp) : Except LoadFailure NaClApp := do
  let guardSize := 40 * 2 ^ 30
  match arch with
  | .x86_32 =>
    mprotectOrFail _ host nap.memStart naclSyscallStartAddr
    naClVmmapAdd _ host nap 0 (naclSyscallStartAddr / naclPagesize) protNone
  | .x86_64 =>
    mprotectOrFail _ host nap.memStart naclSyscallStartAddr
    let nap ← naClVmmapAdd _ host nap 0 (naclSyscallStartAddr / naclPagesize) protNone
    mprotectOrFail _ host (subWord 64 nap.memStart guardSize) guardSize
    mprotectOrFail _ host (nap.memStart + 2 ^ 32) guardSize
    return nap
  | .arm =>
    let nap ← naClVmmapAdd _ host nap (nap.memStart / naclPagesize)
      (naclSyscallStartAddr / naclPagesize) protNone
    mprotectOrFail _ host (oneShl 32 nap.addrBits) (2 * naclPagesize)
    return nap

def protectAndRecord (nap : NaClApp) (startAddr protectSize regionSize prot : Nat) :
    Except LoadFailure NaClApp := do
  mprotectOrFail arch host startAddr protectSize
  let user ← orFatal (naClSysToUser arch nap startAddr)
  naClVmmapAdd arch host nap (user / naclPagesize) (regionSize / naclPagesize) prot

/-- A segment from `start` up to the allocation page after `stop`. -/
def protectSegment (nap : NaClApp) (start stop prot : Nat) : Except LoadFailure NaClApp := do
  let startAddr ← orFatal (naClUserToSys arch nap start)
  let user ← orFatal (naClSysToUser arch nap startAddr)
  let regionSize := naClRoundPage arch (subWord arch.ptrBits (naClRoundAllocPage arch stop) user)
  protectAndRecord arch host nap startAddr regionSize regionSize prot

def protectDynamicText (nap : NaClApp) : Except LoadFailure NaClApp := do
  let startAddr ← orFatal (naClUserToSys arch nap nap.dynamicTextStart)
  let regionSize := subWord arch.ptrBits nap.dynamicTextEnd nap.dynamicTextStart
  if regionSize = 0 then return nap
  else protectAndRecord arch host nap startAddr regionSize regionSize (protRead ||| protExec)

def protectRodata (nap : NaClApp) : Except LoadFailure NaClApp :=
  if nap.rodataStart = 0 then .ok nap
  else protectSegment arch host nap nap.rodataStart
    (if nap.dataStart ≠ 0 then nap.dataStart else nap.breakAddr) protRead

def protectData (nap : NaClApp) : Except LoadFailure NaClApp :=
  if nap.dataStart = 0 then .ok nap
  else protectSegment arch host nap nap.dataStart nap.dataEnd (protRead ||| protWrite)

def protectStack (nap : NaClApp) : Except LoadFailure NaClApp := do
  let start := naClTruncAllocPage
    (subWord arch.ptrBits (oneShl arch.ptrBits nap.addrBits) nap.stackSize)
  let startAddr ← orFatal (naClUserToSys arch nap start)
  protectAndRecord arch host nap startAddr (naClRoundAllocPage arch nap.stackSize) nap.stackSize
    (protRead ||| protWrite)

def naClMemoryProtection (nap : NaClApp) : Except LoadFailure NaClApp := do
  let nap ← naClMprotectGuards arch host nap
  let textStart := (nap.memStart + naclSyscallStartAddr) % 2 ^ arch.ptrBits
  let textSize := naClRoundPage arch (subWord arch.ptrBits nap.staticTextEnd naclSyscallStartAddr)
  let nap ← protectAndRecord arch host nap textStart textSize textSize (protRead ||| protExec)
  let nap ← protectDynamicText arch host nap
  let nap ← protectRodata arch host nap
  let nap ← protectData arch host nap
  protectStack arch host nap

end Protection

/-- The out-parameters that `NaClAppLoadFile` passes to the program header checks. -/
def initialBounds {arch : Arch} (host : LoaderHost arch) (nap : NaClApp) : SegmentBounds where
  staticTextEnd := nap.staticTextEnd
  rodataStart := nap.rodataStart
  rodataEnd := host.garbageRodataEnd
  dataStart := nap.dataStart
  dataEnd := host.garbageDataEnd
  maxVaddr := 0

def liftCode {A : Type} (result : Except NaClErrorCode A) : Except LoadFailure A :=
  result.mapError .code

def checkImage (arch : Arch) (host : LoaderHost arch) (gp : Gio) (nap : NaClApp) :
    Except LoadFailure (NaClElfImage × NaClApp) := do
  if arch.naclMaxAddrBits < nap.addrBits then .error (.code .loadAddrSpaceTooBig)
  else
    let nap := { nap with stackSize := naClRoundAllocPage arch nap.stackSize }
    let image ← naClElfImageNew arch gp
    naClElfImageValidateAbi arch image
    naClElfImageValidateElfHeader arch image
    let (image, bounds) ← liftCode
      (naClElfImageValidateProgramHeaders arch image nap.addrBits (initialBounds host nap))
    let bundleSize ← naClElfImageGetBundleSize image
    let nap := { nap with
      staticTextEnd := bounds.staticTextEnd
      rodataStart := bounds.rodataStart
      dataStart := bounds.dataStart
      breakAddr := bounds.maxVaddr
      dataEnd := bounds.maxVaddr
      bundleSize := bundleSize
      entryPt := image.ehdr.eEntry }
    if !naClAddrIsValidEntryPt nap nap.entryPt then .error (.code .loadBadEntry)
    else
      layoutCheck arch bounds
      return (image, nap)

/-- `NaClElfImageLoad` into memory with some pages unwritable. -/
def loadInto (arch : Arch) (unwritable : List AddrRange) (image : NaClElfImage) (gp : Gio)
    (nap : NaClApp) : Except LoadFailure Unit := do
  let (writes, result) := naClElfImageLoad arch image gp nap.addrBits
  writes.forM fun w => storeTo unwritable w.start w.count
  result

def naClAppLoadFile (arch : Arch) (host : LoaderHost arch) (gp : Gio) (nap : NaClApp) :
    Except LoadFailure NaClApp := do
  let (image, nap) ← checkImage arch host gp nap
  let (nap, hole) ← naClAllocAddrSpace arch host nap
  let (nap, shared) ← naClMakeDynamicTextShared arch host nap
  loadInto arch (hole ++ shared) image gp nap
  let nap ← naClFillEndOfTextRegion arch (hole ++ shared) nap
  naClValidateImage arch host nap
  naClMemoryProtection arch host nap

end Glopen.Nacl

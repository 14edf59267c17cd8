import Glopen.Nacl.Dyncode
import Glopen.Nacl.Vmmap

/-! The memory system calls: `NaClCommonSysMmap`, the Linux `NaClSysMunmap` and `NaClSetBreak`.
Replies of the host are part of a call. -/
namespace Glopen.Nacl

open Memory Run

def mapShared : Nat := 0x01
def mapPrivate : Nat := 0x02
def mapFixed : Nat := 0x10
def mapAnonymous : Nat := 0x20
def naclAbiEbadf : Nat := 9

structure Kernel where
  app : NaClApp
  replaced : List AddrRange

def Kernel.replace (k : Kernel) (start length : Nat) : Kernel :=
  { k with replaced := k.replaced ++ [⟨start, start + length⟩] }

/-- `NaClCommonUtilUpdateAddrMap`, without the memory object that remembers the file. -/
def naClCommonUtilUpdateAddrMap (arch : Arch) (nap : NaClApp) (sysaddr nbytes prot : Nat)
    (deleteMem : Bool) : Option NaClApp := do
  let usraddr ← naClSysToUser arch nap sysaddr
  let map ← naClVmmapUpdate nap.memMap (usraddr / naclPagesize) (nbytes / naclPagesize) prot
    deleteMem
  return { nap with memMap := map }

def Kernel.update (arch : Arch) (k : Kernel) (sysaddr nbytes prot : Nat) (deleteMem : Bool) :
    Option Kernel :=
  (naClCommonUtilUpdateAddrMap arch k.app sysaddr nbytes prot deleteMem).map fun app =>
    { k with app := app }

def naClSysCommonAddrRangeContainsExecutablePages (nap : NaClApp) (usraddr : Nat) : Bool :=
  naClTruncAllocPage usraddr < nap.dynamicTextEnd

structure MmapCall where
  start : Nat
  length : Nat
  prot : Nat
  flags : Nat
  offset : Int
  /-- The descriptor, if there is one, with the reply to `Fstat`. -/
  fileSize : Option (Except Int Int)
  /-- The reply to the mapping at a system address. -/
  map : Nat → Nat
  zeroFill : Nat

/-- What is to be mapped, relative to `usraddr`: file bytes up to `length`, then zeros up to
`startOfInaccessible`, then nothing up to `allocRoundedLength`. -/
structure MmapPlan where
  usraddr : Nat
  length : Nat
  startOfInaccessible : Nat
  allocRoundedLength : Nat
  prot : Nat

def kMaxUsableFileSize (arch : Arch) : Nat := (2 ^ arch.ptrBits - 1) / 2

/-- Bytes of the file from the offset on, in whole host pages, and in allocation pages. The
assertion on `file_bytes`, a signed number of 64 bits, ends the process when it fails. -/
def fileBytes (arch : Arch) (call : MmapCall) : Option (Except Int (Nat × Nat)) :=
  let most := kMaxUsableFileSize arch
  if call.flags &&& mapAnonymous ≠ 0 then some (.ok (most, most))
  else match call.fileSize with
    | none => some (.error (-naclAbiEbadf))
    | some (.error code) => some (.error code)
    | some (.ok fileSize) =>
      if fileSize < call.offset then some (.error (-naclAbiEinval))
      else
        let rest := (fileSize - call.offset).toNat
        let bytes := if most < rest then most else naClRoundPage arch rest
        let rounded := naClRoundAllocPage arch bytes
        if most < bytes ∧ bytes < 2 ^ 63 then none
        else if rounded = 0 ∧ bytes ≠ 0 then some (.error (-naclAbiEnomem))
        else some (.ok (bytes, rounded))

def chooseAddress (arch : Arch) (nap : NaClApp) (call : MmapCall) (allocRoundedLength : Nat) :
    Except Int Nat :=
  let usraddr := call.start % 2 ^ arch.ptrBits
  let npages := allocRoundedLength / naclPagesize
  if call.flags &&& mapFixed ≠ 0 then .ok usraddr
  else
    let hinted := if usraddr = 0 then 0
      else naClVmmapFindMapSpaceAboveHint arch nap.memMap usraddr npages
    let usrpage := if hinted = 0 then naClVmmapFindMapSpace arch nap.memMap npages else hinted
    if usrpage = 0 then .error (-naclAbiEnomem)
    else .ok (usrpage * naclPagesize % 2 ^ arch.ptrBits)

def checkRange (arch : Arch) (nap : NaClApp) (call : MmapCall) (usraddr allocRoundedLength : Nat) : Bool :=
  let limit := oneShl arch.ptrBits nap.addrBits
  let endaddr := (usraddr + allocRoundedLength) % 2 ^ arch.ptrBits
  usraddr < limit && usraddr ≤ endaddr && endaddr ≤ limit &&
    !naClSysCommonAddrRangeContainsExecutablePages nap usraddr &&
    (call.flags &&& mapShared = 0) != (call.flags &&& mapPrivate = 0)

/-- The checks of `NaClCommonSysMmap`; a missing result is the end of the process. -/
def mmapPlan (arch : Arch) (nap : NaClApp) (call : MmapCall) : Option (Except Int MmapPlan) :=
  let start := call.start % 2 ^ arch.ptrBits
  let length := call.length % 2 ^ arch.ptrBits
  if call.flags &&& mapAnonymous = 0 ∧ call.fileSize.isNone then some (.error (-naclAbiEbadf))
  else if start % naclMapPagesize ≠ 0 then some (.error (-naclAbiEinval))
  else if call.offset < 0 then some (.error (-naclAbiEinval))
  else if call.offset % naclMapPagesize ≠ 0 then some (.error (-naclAbiEinval))
  else if length = 0 then some (.error (-naclAbiEinval))
  else
    let allocRoundedLength := naClRoundAllocPage arch length
    match fileBytes arch call, chooseAddress arch nap call allocRoundedLength with
    | none, _ => none
    | some (.error code), _ => some (.error code)
    | some (.ok _), .error code => some (.error code)
    | some (.ok (bytes, rounded)), .ok usraddr =>
      if checkRange arch nap call usraddr allocRoundedLength then
        some (.ok ⟨usraddr, min allocRoundedLength bytes, min allocRoundedLength rounded,
          allocRoundedLength, call.prot &&& (protRead ||| protWrite)⟩)
      else some (.error (-naclAbiEinval))

section Mapping

variable (arch : Arch) (call : MmapCall) (plan : MmapPlan) (sysaddr : Nat)

/-- `[0, length)`. A reply other than the address asked for is fatal. -/
def mapFile (k : Kernel) : Kernel × Option Kernel :=
  if plan.length = 0 then (k, some k)
  else
    let asked := k.replace plan.usraddr plan.length
    if naClIsNegErrno (call.map sysaddr) ∨ call.map sysaddr ≠ sysaddr then (asked, none)
    else (asked, asked.update arch sysaddr plan.length plan.prot false)

/-- Zeros for `[length, startOfInaccessible)`; the reply may be an error. -/
def mapZeros (k : Kernel) : Kernel × Option (Except Int Kernel) :=
  if plan.startOfInaccessible ≤ plan.length then (k, some (.ok k))
  else
    let size := plan.startOfInaccessible - plan.length
    let asked := k.replace (plan.usraddr + plan.length) size
    if naClIsNegErrno call.zeroFill then (asked, some (.error (int32 (call.zeroFill % 2 ^ 32))))
    else (asked, (asked.update arch ((sysaddr + plan.length) % 2 ^ arch.ptrBits) size plan.prot
      false).map .ok)

def mapNothing (k : Kernel) : Kernel × Option Kernel :=
  if plan.allocRoundedLength ≤ plan.startOfInaccessible then (k, some k)
  else
    let size := plan.allocRoundedLength - plan.startOfInaccessible
    let asked := k.replace (plan.usraddr + plan.startOfInaccessible) size
    (asked, asked.update arch ((sysaddr + plan.startOfInaccessible) % 2 ^ arch.ptrBits) size protNone false)

def mapPlan (k : Kernel) : Kernel × Option Int :=
  match mapFile arch call plan sysaddr k with
  | (asked, none) => (asked, none)
  | (_, some k) =>
    match mapZeros arch call plan sysaddr k with
    | (asked, none) => (asked, none)
    | (asked, some (.error code)) => (asked, some code)
    | (_, some (.ok k)) =>
      match mapNothing arch plan sysaddr k with
      | (asked, none) => (asked, none)
      | (_, some k) => (k, some (int32 (plan.usraddr % 2 ^ 32)))

end Mapping

def naClCommonSysMmap (arch : Arch) (call : MmapCall) (k : Kernel) : Kernel × Option Int :=
  match mmapPlan arch k.app call with
  | none => (k, none)
  | some (.error code) => (k, some code)
  | some (.ok plan) =>
    match naClUserToSys arch k.app plan.usraddr with
    | none => (k, none)
    | some sysaddr => mapPlan arch call plan sysaddr k

structure MunmapCall where
  start : Nat
  length : Nat
  /-- The errno of the host's `mmap`, if it fails. -/
  failure : Option Nat

def naClSysMunmap (arch : Arch) (call : MunmapCall) (k : Kernel) : Kernel × Option Int :=
  let start := call.start % 2 ^ arch.ptrBits
  let length := call.length % 2 ^ arch.ptrBits
  if start % naclMapPagesize ≠ 0 then (k, some (-naclAbiEinval))
  else if length = 0 then (k, some (-naclAbiEinval))
  else
    let length := naClRoundAllocPage arch length
    let sysaddr := naClUserToSysAddrRange arch k.app start length
    if sysaddr = kNaClBadAddress arch then (k, some (-naclAbiEfault))
    else if naClSysCommonAddrRangeContainsExecutablePages k.app start then
      (k, some (-naclAbiEinval))
    else
      match call.failure with
      | some errno => (k, some (-errno))
      | none =>
        let asked := k.replace start length
        match asked.update arch sysaddr length 0 true with
        | none => (asked, none)
        | some k => (k, some 0)

structure BrkCall where
  newBreak : Nat
  mprotect : Bool

def naClUserToSysAddr (arch : Arch) (nap : NaClApp) (uaddr : Nat) : Nat :=
  if uaddr = 0 ∨ oneShl arch.ptrBits nap.addrBits ≤ uaddr then kNaClBadAddress arch
  else (uaddr + nap.memStart) % 2 ^ arch.ptrBits

def VmmapEntry.contains (e : VmmapEntry) (page : Nat) : Bool :=
  e.pageNum ≤ page && page < e.stop

def lastPage (arch : Arch) (addr : Nat) : Nat := subWord arch.ptrBits addr 1 / naclPagesize

/-- Raises the break: the entry with the page of the old break is extended, unless the new one
lies in it or the next entry is in the way. -/
def growBreak (arch : Arch) (call : BrkCall) (newBreak : Nat) (nap : NaClApp) : Option NaClApp :=
  let newLastPage := lastPage arch newBreak
  let lastInternalPage := lastPage arch (naClRoundAllocPage arch newBreak)
  let outside := fun e : VmmapEntry => !e.contains (lastPage arch nap.breakAddr)
  let sorted := naClVmmapMakeSorted nap.memMap
  match sorted.dropWhile outside with
  | [] => none
  | ent :: after =>
    if newLastPage < ent.stop then some { nap with memMap := sorted, breakAddr := newBreak }
    else if (after.head?.any fun next => next.pageNum ≤ lastInternalPage) then
      some { nap with memMap := sorted }
    else if call.mprotect then
      some { nap with
        memMap := sorted.takeWhile outside ++
          { ent with npages := lastInternalPage - ent.pageNum + 1 } :: after
        breakAddr := newBreak }
    else none

def naClSetBreak (arch : Arch) (call : BrkCall) (k : Kernel) : Kernel × Option Int :=
  let newBreak := call.newBreak % 2 ^ arch.ptrBits
  let old := int32 (k.app.breakAddr % 2 ^ 32)
  if naClUserToSysAddr arch k.app newBreak = kNaClBadAddress arch then (k, some old)
  else if newBreak < k.app.dataEnd then (k, some old)
  else if newBreak ≤ k.app.breakAddr then
    ({ k with app := { k.app with breakAddr := newBreak } }, some old)
  else match naClUserToSys arch k.app k.app.breakAddr with
    | none => (k, none)
    | some _ =>
      match growBreak arch call newBreak k.app with
      | none => (k, none)
      | some app => ({ k with app := app }, some (int32 (app.breakAddr % 2 ^ 32)))

inductive Syscall
  | mmap (call : MmapCall)
  | munmap (call : MunmapCall)
  | brk (call : BrkCall)

def Syscall.step (arch : Arch) (nap : NaClApp) : Syscall → Kernel × Option Int
  | .mmap call => naClCommonSysMmap arch call ⟨nap, []⟩
  | .munmap call => naClSysMunmap arch call ⟨nap, []⟩
  | .brk call => naClSetBreak arch call ⟨nap, []⟩

def runCalls (arch : Arch) : List Syscall → NaClApp → Kernel
  | [], nap => ⟨nap, []⟩
  | call :: rest, nap =>
    match call.step arch nap with
    | (k, none) => k
    | (k, some _) =>
      let final := runCalls arch rest k.app
      { final with replaced := k.replaced ++ final.replaced }

end Glopen.Nacl

import Glopen.Lib.Run
import Glopen.Nacl.App

/-! elf_util.c: reading, checking and loading the program headers of an ELF image.
`Elf_Addr`, `Elf_Off` and `Elf_Xword` have the pointer width of the architecture. -/
namespace Glopen.Nacl

open Memory

inductive NaClErrorCode where
  | loadReadError
  | loadTooManyProgHdrs
  | loadProgHdrSizeTooSmall
  | loadBadElfMagic
  | loadNot32Bit
  | loadNot64Bit
  | loadBadAbi
  | loadNotExec
  | loadBadMachine
  | loadBadElfVers
  | loadNoMemory
  | loadAddrSpaceTooBig
  | loadDataOverlapsStackSection
  | loadRodataOverlapsData
  | loadDataNotLastSegment
  | loadNoDataButRodataNotLastSegment
  | loadTextOverlapsRodata
  | loadTextOverlapsData
  | loadBadElfText
  | loadMprotectFail
  | loadMadviseFail
  | loadBadEntry
  | loadSegmentOutsideAddrspace
  | loadDupSegment
  | loadSegmentBadLoc
  | loadBadSegment
  | loadRequiredSegMissing
  | loadSegmentBadParam
  | loadValidationFailed
deriving DecidableEq, Repr

inductive LoadFailure where
  | code (error : NaClErrorCode)
  | fatal
deriving DecidableEq, Repr

/-- The nexe file: `read pos count` bytes are transferred, possibly fewer than asked for. -/
structure Gio where
  content : Nat → Byte
  seek : Nat → Bool
  read : Nat → Nat → Nat
  read_le : ∀ pos count, read pos count ≤ count

def Gio.bytes (gp : Gio) (pos count : Nat) : List Byte :=
  (List.range count).map fun i => gp.content (pos + i)

structure ElfEhdr where
  eIdent : List Byte
  eType : Nat
  eMachine : Nat
  eVersion : Nat
  eEntry : Nat
  ePhoff : Nat
  eFlags : Nat
  ePhentsize : Nat
  ePhnum : Nat
deriving DecidableEq

structure ElfPhdr where
  pType : Nat
  pFlags : Nat
  pOffset : Nat
  pVaddr : Nat
  pFilesz : Nat
  pMemsz : Nat
deriving DecidableEq

def sizeofEhdr : Arch → Nat
  | .x86_32 | .arm => 52
  | .x86_64 => 64

def sizeofPhdr : Arch → Nat
  | .x86_32 | .arm => 32
  | .x86_64 => 56

def naclMaxProgramHeaders : Nat := 128

/-- The little-endian field of `len` bytes at `off`. -/
def fieldAt (bytes : List Byte) (off len : Nat) : Nat :=
  ((bytes.drop off).take len).foldr (fun byte rest => byte.toNat + 256 * rest) 0

def decodeEhdr (arch : Arch) (bytes : List Byte) : ElfEhdr :=
  let field := fieldAt bytes
  match arch with
  | .x86_32 | .arm =>
    { eIdent := bytes.take 16, eType := field 16 2, eMachine := field 18 2,
      eVersion := field 20 4, eEntry := field 24 4, ePhoff := field 28 4, eFlags := field 36 4,
      ePhentsize := field 42 2, ePhnum := field 44 2 }
  | .x86_64 =>
    { eIdent := bytes.take 16, eType := field 16 2, eMachine := field 18 2,
      eVersion := field 20 4, eEntry := field 24 8, ePhoff := field 32 8, eFlags := field 48 4,
      ePhentsize := field 54 2, ePhnum := field 56 2 }

def decodePhdr (arch : Arch) (bytes : List Byte) : ElfPhdr :=
  let field := fieldAt bytes
  match arch with
  | .x86_32 | .arm =>
    { pType := field 0 4, pOffset := field 4 4, pVaddr := field 8 4, pFilesz := field 16 4,
      pMemsz := field 20 4, pFlags := field 24 4 }
  | .x86_64 =>
    { pType := field 0 4, pFlags := field 4 4, pOffset := field 8 8, pVaddr := field 16 8,
      pFilesz := field 32 8, pMemsz := field 40 8 }

structure NaClElfImage where
  ehdr : ElfEhdr
  phdrs : List ElfPhdr
  loadable : List Bool
deriving DecidableEq

/-- `NaClElfImageNew`. A failed allocation of the result is fatal. -/
def naClElfImageNew (arch : Arch) (gp : Gio) : Except LoadFailure NaClElfImage :=
  if gp.read 0 (sizeofEhdr arch) ≠ sizeofEhdr arch then .error (.code .loadReadError)
  else
    let ehdr := decodeEhdr arch (gp.bytes 0 (sizeofEhdr arch))
    let total := ehdr.ePhnum * sizeofPhdr arch
    if naclMaxProgramHeaders < ehdr.ePhnum then .error (.code .loadTooManyProgHdrs)
    else if ehdr.ePhentsize < sizeofPhdr arch then .error (.code .loadProgHdrSizeTooSmall)
    else if !gp.seek ehdr.ePhoff then .error (.code .loadReadError)
    else if gp.read ehdr.ePhoff total ≠ total then .error (.code .loadReadError)
    else .ok
      { ehdr := ehdr
        phdrs := (List.range ehdr.ePhnum).map fun n =>
          decodePhdr arch (gp.bytes (ehdr.ePhoff + n * sizeofPhdr arch) (sizeofPhdr arch))
        loadable := List.replicate ehdr.ePhnum false }

def ptNull : Nat := 0
def ptLoad : Nat := 1
def ptDynamic : Nat := 2
def ptInterp : Nat := 3
def ptNote : Nat := 4
def ptPhdr : Nat := 6
def ptTls : Nat := 7
def ptGnuEhFrame : Nat := 0x6474e550
def ptGnuStack : Nat := 0x6474e551
def ptGnuRelro : Nat := 0x6474e552
def ptArmExidx : Nat := 0x70000001

def pfX : Nat := 1
def pfW : Nat := 2
def pfR : Nat := 4

inductive NaClPhdrCheckAction where
  | none
  | textCheck
  | rodata
  | data
  | ignore
deriving DecidableEq, Repr

structure NaClPhdrChecks where
  pType : Nat
  pFlags : Nat
  action : NaClPhdrCheckAction
  required : Bool
  pVaddr : Nat
deriving DecidableEq

def naclPhdrCheckData (arch : Arch) : List NaClPhdrChecks :=
  [⟨ptPhdr, pfR, .ignore, false, 0⟩, ⟨ptLoad, pfR ||| pfX, .textCheck, true, naclTrampolineEnd⟩,
   ⟨ptLoad, pfR, .rodata, false, 0⟩,
   ⟨ptLoad, pfR ||| pfW, .data, false, 0⟩,
   ⟨ptTls, pfR, .ignore, false, 0⟩] ++
  (if arch = .arm then [⟨ptArmExidx, pfR, .ignore, false, 0⟩] else []) ++
  [⟨ptGnuStack, pfR ||| pfW, .none, false, 0⟩, ⟨ptDynamic, pfR, .ignore, false, 0⟩,
   ⟨ptInterp, pfR, .ignore, false, 0⟩,
   ⟨ptNote, pfR, .ignore, false, 0⟩,
   ⟨ptGnuEhFrame, pfR, .ignore, false, 0⟩,
   ⟨ptGnuRelro, pfR, .ignore, false, 0⟩,
   ⟨ptNull, pfR, .ignore, false, 0⟩]

def matchingCheck (arch : Arch) (php : ElfPhdr) : Option (Nat × NaClPhdrChecks) :=
  ((naclPhdrCheckData arch).zipIdx.find? fun (check, _) =>
    php.pType = check.pType ∧ php.pFlags = check.pFlags).map fun (check, j) => (j, check)

/-- The out-parameters of `NaClElfImageValidateProgramHeaders`. -/
structure SegmentBounds where
  staticTextEnd : Nat
  rodataStart : Nat
  rodataEnd : Nat
  dataStart : Nat
  dataEnd : Nat
  maxVaddr : Nat
deriving DecidableEq, Repr

structure ScanState where
  seenSeg : List Nat
  loadable : List Bool
  bounds : SegmentBounds

def ScanState.skip (st : ScanState) : ScanState := { st with loadable := st.loadable ++ [false] }

def recordSegment (arch : Arch) (action : NaClPhdrCheckAction) (php : ElfPhdr)
    (bounds : SegmentBounds) : SegmentBounds :=
  let segEnd := (php.pVaddr + php.pMemsz) % 2 ^ arch.ptrBits
  let bounds := if bounds.maxVaddr < segEnd then { bounds with maxVaddr := segEnd } else bounds
  match action with
  | .textCheck =>
    { bounds with staticTextEnd := (naclTrampolineEnd + php.pFilesz) % 2 ^ arch.ptrBits }
  | .rodata => { bounds with rodataStart := php.pVaddr, rodataEnd := segEnd }
  | .data => { bounds with dataStart := php.pVaddr, dataEnd := segEnd }
  | .none | .ignore => bounds

def scanPhdr (arch : Arch) (addrBits : Nat) (st : ScanState) (php : ElfPhdr) :
    Except NaClErrorCode ScanState :=
  if php.pMemsz = 0 then .ok st.skip
  else
    match matchingCheck arch php with
    | .none => .error .loadBadSegment
    | some (j, check) =>
      let segEnd := (php.pVaddr + php.pMemsz) % 2 ^ arch.ptrBits
      if j ∈ st.seenSeg then .error .loadDupSegment
      else
        let st := { st with seenSeg := j :: st.seenSeg }
        if check.action = .ignore then .ok st.skip
        else if check.pVaddr ≠ 0 ∧ check.pVaddr ≠ php.pVaddr then .error .loadSegmentBadLoc
        else if php.pVaddr < naclTrampolineEnd then .error .loadSegmentOutsideAddrspace
        else if segEnd < php.pVaddr then .error .loadSegmentOutsideAddrspace
        else if oneShl arch.ptrBits addrBits ≤ segEnd then .error .loadSegmentOutsideAddrspace
        else if php.pMemsz < php.pFilesz then .error .loadSegmentBadParam
        else if check.action = .textCheck ∧ php.pMemsz = 0 then .error .loadBadElfText
        else .ok { st with
          loadable := st.loadable ++ [true]
          bounds := recordSegment arch check.action php st.bounds }

/-- `NaClElfImageValidateProgramHeaders`: the image with its `loadable` marks and the
out-parameters, whose previous values are `bounds`. -/
def naClElfImageValidateProgramHeaders (arch : Arch) (image : NaClElfImage) (addrBits : Nat)
    (bounds : SegmentBounds) : Except NaClErrorCode (NaClElfImage × SegmentBounds) := do
  let start : ScanState :=
    { seenSeg := [], loadable := [], bounds := { bounds with maxVaddr := naclTrampolineEnd } }
  let st ← image.phdrs.foldlM (scanPhdr arch addrBits) start
  if (naclPhdrCheckData arch).zipIdx.any fun (check, j) => check.required && j ∉ st.seenSeg then
    .error .loadRequiredSegMissing
  else .ok ({ image with loadable := st.loadable }, st.bounds)

structure SegmentWrite where
  segnum : Nat
  php : ElfPhdr
  count : Nat
deriving DecidableEq

def SegmentWrite.start (w : SegmentWrite) : Nat := w.php.pVaddr
def SegmentWrite.stop (w : SegmentWrite) : Nat := w.php.pVaddr + w.count

def loadSegments (arch : Arch) (gp : Gio) (addrBits : Nat) :
    Nat → List (ElfPhdr × Bool) → List SegmentWrite × Except LoadFailure Unit
  | _, [] => ([], .ok ())
  | segnum, (php, loadable) :: rest =>
    if !loadable then loadSegments arch gp addrBits (segnum + 1) rest
    else
      let endVaddr := (php.pVaddr + php.pFilesz) % 2 ^ arch.ptrBits
      if endVaddr < php.pVaddr then ([], .error .fatal)
      else if oneShl arch.ptrBits addrBits ≤ endVaddr then ([], .error .fatal)
      else if !gp.seek php.pOffset then ([], .error (.code .loadSegmentBadParam))
      else
        let count := gp.read php.pOffset php.pFilesz
        let write : SegmentWrite := ⟨segnum, php, count⟩
        -- the count is compared as a 32-bit `Elf_Word`
        if count % 2 ^ 32 ≠ php.pFilesz then
          ([write], .error (.code .loadSegmentBadParam))
        else
          let (writes, result) := loadSegments arch gp addrBits (segnum + 1) rest
          (write :: writes, result)

def naClElfImageLoad (arch : Arch) (image : NaClElfImage) (gp : Gio) (addrBits : Nat) :
    List SegmentWrite × Except LoadFailure Unit :=
  loadSegments arch gp addrBits 0 (image.phdrs.zip image.loadable)

end Glopen.Nacl

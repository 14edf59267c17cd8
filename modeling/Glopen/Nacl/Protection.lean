import Glopen.Nacl.Placement

/-! `NaClMemoryProtection`: the entries that a successful run adds to the memory map. -/
namespace Glopen.Nacl

open Memory Run

def guardEntry : VmmapEntry := ⟨0, 16, protNone⟩

def textEntry (arch : Arch) (nap : NaClApp) : VmmapEntry :=
  ⟨16, naClRoundPage arch (subWord arch.ptrBits nap.staticTextEnd naclSyscallStartAddr) /
    naclPagesize, protRead ||| protExec⟩

def dynamicEntries (arch : Arch) (nap : NaClApp) : List VmmapEntry :=
  let size := subWord arch.ptrBits nap.dynamicTextEnd nap.dynamicTextStart
  if size = 0 then []
  else [⟨nap.dynamicTextStart / naclPagesize, size / naclPagesize, protRead ||| protExec⟩]

def segmentEntry (arch : Arch) (start stop prot : Nat) : VmmapEntry :=
  ⟨start / naclPagesize,
    naClRoundPage arch (subWord arch.ptrBits (naClRoundAllocPage arch stop) start) / naclPagesize,
    prot⟩

def rodataEntries (arch : Arch) (nap : NaClApp) : List VmmapEntry :=
  if nap.rodataStart = 0 then []
  else [segmentEntry arch nap.rodataStart
    (if nap.dataStart ≠ 0 then nap.dataStart else nap.breakAddr) protRead]

def dataEntries (arch : Arch) (nap : NaClApp) : List VmmapEntry :=
  if nap.dataStart = 0 then []
  else [segmentEntry arch nap.dataStart nap.dataEnd (protRead ||| protWrite)]

def stackEntry (nap : NaClApp) : VmmapEntry :=
  ⟨naClTruncAllocPage (2 ^ nap.addrBits - nap.stackSize) / naclPagesize,
    nap.stackSize / naclPagesize, protRead ||| protWrite⟩

def NaClApp.record (nap : NaClApp) (entries : List VmmapEntry) : NaClApp :=
  { nap with memMap := nap.memMap ++ entries }

theorem record_record (nap : NaClApp) (first second : List VmmapEntry) :
    (nap.record first).record second = nap.record (first ++ second) := by
  simp [NaClApp.record]

theorem record_nil (nap : NaClApp) : nap.record [] = nap := by
  simp [NaClApp.record]

section

variable (nap : NaClApp) (l : List VmmapEntry)
include nap l

@[simp] theorem record_addrBits : (nap.record l).addrBits = nap.addrBits := rfl

@[simp] theorem record_stackSize : (nap.record l).stackSize = nap.stackSize := rfl

@[simp] theorem record_rodataStart : (nap.record l).rodataStart = nap.rodataStart := rfl

@[simp] theorem record_dataStart : (nap.record l).dataStart = nap.dataStart := rfl

@[simp] theorem record_dataEnd : (nap.record l).dataEnd = nap.dataEnd := rfl

@[simp] theorem record_breakAddr : (nap.record l).breakAddr = nap.breakAddr := rfl

@[simp] theorem record_staticTextEnd : (nap.record l).staticTextEnd = nap.staticTextEnd := rfl

end

section

variable (arch : Arch) (nap : NaClApp) (l : List VmmapEntry)
include arch nap l

@[simp] theorem dynamicEntries_record : dynamicEntries arch (nap.record l) = dynamicEntries arch nap := rfl

@[simp] theorem rodataEntries_record : rodataEntries arch (nap.record l) = rodataEntries arch nap := rfl

@[simp] theorem dataEntries_record : dataEntries arch (nap.record l) = dataEntries arch nap := rfl

end

@[simp] theorem stackEntry_record (nap : NaClApp) (l : List VmmapEntry) :
    stackEntry (nap.record l) = stackEntry nap := rfl

section Regions

variable {arch : Arch} {host : LoaderHost arch} {nap nap' : NaClApp}

theorem SpaceOk.record (space : SpaceOk arch nap) (entries : List VmmapEntry) :
    SpaceOk arch (nap.record entries) :=
  ⟨space.aligned, space.fits, space.arm, space.stack, space.below⟩

theorem orFatal_ok {A : Type} {x : Option A} {a : A} (ran : orFatal x = .ok a) : x = some a := by
  cases x with
  | none => cases ran
  | some b =>
    cases ran
    rfl

theorem userToSys_ok (space : SpaceOk arch nap) (bits : nap.addrBits ≤ arch.naclMaxAddrBits)
    {uaddr sysaddr : Nat} (ran : naClUserToSys arch nap uaddr = some sysaddr) :
    uaddr ≠ 0 ∧ uaddr < 2 ^ nap.addrBits ∧ sysaddr = uaddr + nap.memStart := by
  have small := Nat.lt_of_le_of_lt bits arch.naclMaxAddrBits_lt
  rw [naClUserToSys, oneShl_of_lt small] at ran
  split at ran
  · contradiction
  rename_i inside
  have fits := space.fits
  cases Option.some.inj ran
  rw [Nat.mod_eq_of_lt (by omega)]
  omega

theorem sysToUser_ok {sysaddr user : Nat} (ran : naClSysToUser arch nap sysaddr = some user) :
    nap.memStart ≤ sysaddr ∧ user = sysaddr - nap.memStart := by
  rw [naClSysToUser] at ran
  split at ran
  · contradiction
  cases ran
  omega

theorem vmmapAdd_ok {pageNum npages prot : Nat}
    (ran : naClVmmapAdd arch host nap pageNum npages prot = .ok nap') :
    nap' = nap.record [⟨pageNum, npages, prot⟩] := by
  rw [naClVmmapAdd] at ran
  split at ran
  · contradiction
  · exact (Except.ok.inj ran).symm

theorem mprotect_ok {addr len : Nat} (ran : mprotectOrFail arch host addr len = .ok ()) :
    host.mprotect (addr % 2 ^ arch.ptrBits) len = true := by
  rw [mprotectOrFail] at ran
  split at ran
  · assumption
  · contradiction

theorem protectAndRecord_ok {startAddr protectSize regionSize prot : Nat}
    (ran : protectAndRecord arch host nap startAddr protectSize regionSize prot = .ok nap') :
    host.mprotect (startAddr % 2 ^ arch.ptrBits) protectSize = true ∧
      nap' = nap.record [⟨(startAddr - nap.memStart) / naclPagesize, regionSize / naclPagesize, prot⟩] := by
  rw [protectAndRecord] at ran
  obtain ⟨⟨⟩, protected_, ran⟩ := except_bind_ok ran
  obtain ⟨user, found, ran⟩ := except_bind_ok ran
  obtain ⟨-, rfl⟩ := sysToUser_ok (orFatal_ok found)
  exact ⟨mprotect_ok protected_, vmmapAdd_ok ran⟩

theorem page_aligned (space : SpaceOk arch nap) {uaddr len : Nat} (nonempty : 0 < len)
    (inside : uaddr < 2 ^ nap.addrBits)
    (ok : host.mprotect ((uaddr + nap.memStart) % 2 ^ arch.ptrBits) len = true) : uaddr % naclPagesize = 0 := by
  have fits := space.fits
  have aligned := space.aligned
  have no_wrap : (uaddr + nap.memStart) % 2 ^ arch.ptrBits = uaddr + nap.memStart :=
    Nat.mod_eq_of_lt (by omega)
  have page := host.mprotect_aligned _ _ nonempty ok
  rw [no_wrap] at page
  simp only [naclPagesize] at *
  omega

section

variable (space : SpaceOk arch nap) (bits : nap.addrBits ≤ arch.naclMaxAddrBits)
include space bits

theorem protectSegment_ok
    {start stop prot : Nat} (ran : protectSegment arch host nap start stop prot = .ok nap') :
    nap' = nap.record [segmentEntry arch start stop prot] ∧ start < 2 ^ nap.addrBits ∧
      (0 < naClRoundPage arch (subWord arch.ptrBits (naClRoundAllocPage arch stop) start) →
        start % naclPagesize = 0) := by
  rw [protectSegment] at ran
  obtain ⟨sysaddr, translated, ran⟩ := except_bind_ok ran
  obtain ⟨-, inside, rfl⟩ := userToSys_ok space bits (orFatal_ok translated)
  obtain ⟨user, back, ran⟩ := except_bind_ok ran
  obtain ⟨-, rfl⟩ := sysToUser_ok (orFatal_ok back)
  rw [Nat.add_sub_cancel] at ran
  obtain ⟨ok, rfl⟩ := protectAndRecord_ok ran
  rw [Nat.add_sub_cancel]
  exact ⟨rfl, inside, fun nonempty => page_aligned space nonempty inside ok⟩

theorem protectDynamicText_ok (ran : protectDynamicText arch host nap = .ok nap') :
    nap' = nap.record (dynamicEntries arch nap) := by
  rw [protectDynamicText] at ran
  obtain ⟨sysaddr, translated, ran⟩ := except_bind_ok ran
  obtain ⟨-, -, rfl⟩ := userToSys_ok space bits (orFatal_ok translated)
  simp only at ran
  split at ran
  · rename_i empty
    cases ran
    simp [dynamicEntries, empty, record_nil]
  · rename_i nonempty
    obtain ⟨-, rfl⟩ := protectAndRecord_ok ran
    simp [dynamicEntries, nonempty]

theorem protectStack_ok (ran : protectStack arch host nap = .ok nap') : nap' = nap.record [stackEntry nap] ∧
      naClTruncAllocPage (2 ^ nap.addrBits - nap.stackSize) < 2 ^ nap.addrBits := by
  have small := Nat.lt_of_le_of_lt bits arch.naclMaxAddrBits_lt
  have stack := space.stack
  have fits := space.fits
  have start : subWord arch.ptrBits (oneShl arch.ptrBits nap.addrBits) nap.stackSize =
      2 ^ nap.addrBits - nap.stackSize := by
    rw [oneShl_of_lt small]
    exact subWord_of_le (Nat.le_of_lt stack) (Nat.pow_lt_pow_right (by decide) small)
  simp only [protectStack, start] at ran
  obtain ⟨sysaddr, translated, ran⟩ := except_bind_ok ran
  obtain ⟨-, inside, rfl⟩ := userToSys_ok space bits (orFatal_ok translated)
  obtain ⟨-, rfl⟩ := protectAndRecord_ok ran
  rw [Nat.add_sub_cancel]
  exact ⟨rfl, inside⟩

end

theorem guards_ok (space : SpaceOk arch nap) (ran : naClMprotectGuards arch host nap = .ok nap') :
    nap' = nap.record [guardEntry] := by
  cases arch with
  | x86_32 =>
    obtain ⟨⟨⟩, -, ran⟩ := except_bind_ok ran
    exact vmmapAdd_ok ran
  | x86_64 =>
    obtain ⟨⟨⟩, -, ran⟩ := except_bind_ok ran
    obtain ⟨added, record, ran⟩ := except_bind_ok ran
    obtain ⟨⟨⟩, -, ran⟩ := except_bind_ok ran
    obtain ⟨⟨⟩, -, ran⟩ := except_bind_ok ran
    cases ran
    exact vmmapAdd_ok record
  | arm =>
    obtain ⟨added, record, ran⟩ := except_bind_ok ran
    obtain ⟨⟨⟩, -, ran⟩ := except_bind_ok ran
    cases ran
    rw [space.arm rfl] at record
    exact vmmapAdd_ok record

structure Protected (arch : Arch) (nap nap' : NaClApp) : Prop where
  app : nap' = nap.record ([guardEntry, textEntry arch nap] ++ dynamicEntries arch nap ++
    rodataEntries arch nap ++ dataEntries arch nap ++ [stackEntry nap])
  rodata : nap.rodataStart ≠ 0 → 0 < naClRoundPage arch (subWord arch.ptrBits
    (naClRoundAllocPage arch (if nap.dataStart ≠ 0 then nap.dataStart else nap.breakAddr))
    nap.rodataStart) → nap.rodataStart % naclPagesize = 0
  data : nap.dataStart ≠ 0 → 0 < naClRoundPage arch (subWord arch.ptrBits
    (naClRoundAllocPage arch nap.dataEnd) nap.dataStart) → nap.dataStart % naclPagesize = 0
  stack : naClTruncAllocPage (2 ^ nap.addrBits - nap.stackSize) < 2 ^ nap.addrBits

theorem protectRodata_ok (space : SpaceOk arch nap) (bits : nap.addrBits ≤ arch.naclMaxAddrBits)
    (ran : protectRodata arch host nap = .ok nap') : nap' = nap.record (rodataEntries arch nap) ∧
      (nap.rodataStart ≠ 0 → 0 < naClRoundPage arch (subWord arch.ptrBits
        (naClRoundAllocPage arch (if nap.dataStart ≠ 0 then nap.dataStart else nap.breakAddr))
        nap.rodataStart) → nap.rodataStart % naclPagesize = 0) := by
  rw [protectRodata] at ran
  split at ran
  · rename_i none
    cases ran
    simp [rodataEntries, none, record_nil]
  · rename_i present
    obtain ⟨app, -, aligned⟩ := protectSegment_ok space bits ran
    refine ⟨?_, fun _ => aligned⟩
    rw [rodataEntries, if_neg present]
    exact app

theorem protectData_ok (space : SpaceOk arch nap) (bits : nap.addrBits ≤ arch.naclMaxAddrBits)
    (ran : protectData arch host nap = .ok nap') : nap' = nap.record (dataEntries arch nap) ∧
      (nap.dataStart ≠ 0 → 0 < naClRoundPage arch (subWord arch.ptrBits
        (naClRoundAllocPage arch nap.dataEnd) nap.dataStart) →
        nap.dataStart % naclPagesize = 0) := by
  rw [protectData] at ran
  split at ran
  · rename_i none
    cases ran
    simp [dataEntries, none, record_nil]
  · rename_i present
    obtain ⟨app, -, aligned⟩ := protectSegment_ok space bits ran
    refine ⟨?_, fun _ => aligned⟩
    rw [dataEntries, if_neg present]
    exact app

theorem protectText_ok (space : SpaceOk arch nap) {size : Nat}
    (ran : protectAndRecord arch host nap ((nap.memStart + naclSyscallStartAddr) % 2 ^ arch.ptrBits) size size
      (protRead ||| protExec) = .ok nap') (large : naclSyscallStartAddr < 2 ^ nap.addrBits) :
    nap' = nap.record [⟨16, size / naclPagesize, protRead ||| protExec⟩] := by
  have fits := space.fits
  obtain ⟨-, app⟩ := protectAndRecord_ok ran
  rw [Nat.mod_eq_of_lt (by omega), Nat.add_sub_cancel_left] at app
  exact app

theorem naClMemoryProtection_ok (space : SpaceOk arch nap)
    (bits : nap.addrBits ≤ arch.naclMaxAddrBits) (large : naclSyscallStartAddr < 2 ^ nap.addrBits)
    (ran : naClMemoryProtection arch host nap = .ok nap') : Protected arch nap nap' := by
  rw [naClMemoryProtection] at ran
  obtain ⟨nap1, guards, ran⟩ := except_bind_ok ran
  obtain ⟨nap2, text, ran⟩ := except_bind_ok ran
  obtain ⟨nap3, dynamic, ran⟩ := except_bind_ok ran
  obtain ⟨nap4, rodata, ran⟩ := except_bind_ok ran
  obtain ⟨nap5, data, ran⟩ := except_bind_ok ran
  have e1 := guards_ok space guards
  have space1 : SpaceOk arch nap1 := e1 ▸ space.record _
  have e2 := protectText_ok space1 text (by rw [e1, record_addrBits]; exact large)
  have space2 : SpaceOk arch nap2 := e2 ▸ space1.record _
  have bits2 : nap2.addrBits ≤ arch.naclMaxAddrBits := by
    simp only [e2, e1, record_addrBits]
    exact bits
  have e3 := protectDynamicText_ok space2 bits2 dynamic
  have space3 : SpaceOk arch nap3 := e3 ▸ space2.record _
  have bits3 : nap3.addrBits ≤ arch.naclMaxAddrBits := by rwa [e3, record_addrBits]
  obtain ⟨e4, ro_aligned⟩ := protectRodata_ok space3 bits3 rodata
  have space4 : SpaceOk arch nap4 := e4 ▸ space3.record _
  have bits4 : nap4.addrBits ≤ arch.naclMaxAddrBits := by rwa [e4, record_addrBits]
  obtain ⟨e5, rw_aligned⟩ := protectData_ok space4 bits4 data
  have space5 : SpaceOk arch nap5 := e5 ▸ space4.record _
  have bits5 : nap5.addrBits ≤ arch.naclMaxAddrBits := by rwa [e5, record_addrBits]
  obtain ⟨e6, inside⟩ := protectStack_ok space5 bits5 ran
  simp only [e5, e4, e3, e2, e1, record_addrBits, record_stackSize, record_rodataStart,
    record_dataStart, record_dataEnd, record_breakAddr] at ro_aligned rw_aligned inside
  refine ⟨?_, ro_aligned, rw_aligned, inside⟩
  simp only [e6, e5, e4, e3, e2, e1, record_record, dynamicEntries_record, rodataEntries_record,
    dataEntries_record, stackEntry_record, record_staticTextEnd, List.append_assoc,
    List.cons_append, List.nil_append, textEntry]

end Regions

end Glopen.Nacl

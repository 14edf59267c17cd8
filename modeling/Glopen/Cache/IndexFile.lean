import Glopen.Cache.Eviction

/-! Acceptance of the index file in backend_impl.cc, and the size of the cache that follows from
its table. -/
namespace Glopen.Cache

open Int

/-- Width of the host's `size_t`. -/
inductive SizeT where
  | bits32
  | bits64
deriving DecidableEq

def SizeT.modulus : SizeT → Nat
  | bits32 => 2 ^ 32
  | bits64 => 2 ^ 64

def kIndexMagic : UInt32 := 0xC103CAC3
def kCurrentVersion : UInt32 := 0x20000

def k64kEntriesStore : Int := 240 * 1000 * 1000
def kBaseTableLen : Int := 64 * 1024
def kDefaultCacheSize : Int := 80 * 1024 * 1024

/-- `sizeof(IndexHeader)`, and with a table of the default length `sizeof(Index)`. -/
def indexHeaderSize : Nat := 368
def indexSize : Nat := indexHeaderSize + 4 * 0x10000

/-- The fields of the header that are looked at, and `noUseSize` for `lru.sizes[NO_USE]`. -/
structure IndexHeader where
  magic : UInt32
  version : UInt32
  numEntries : Int32
  numBytes : Int32
  tableLen : Int32
  noUseSize : Int32
deriving DecidableEq

def wrapInt64 (n : Int) : Int := Int.bmod n (2 ^ 64)

def maxStorageSizeForTable (tableLen : Int) : Int :=
  wrapInt32 (tableLen * k64kEntriesStore.tdiv kBaseTableLen)

/-- The length is converted to `size_t`. -/
def getIndexSize (size : SizeT) (tableLen : Int) : Nat :=
  ((indexHeaderSize + 4 * tableLen) % size.modulus).toNat

def preferedCacheSize (available : Int) : Int :=
  if available < kDefaultCacheSize * 10 / 8 then
    wrapInt32 ((wrapInt64 (available * 8)).tdiv 10)
  else if available < kDefaultCacheSize * 10 then kDefaultCacheSize
  else if available < kDefaultCacheSize * 25 then wrapInt32 (available.tdiv 10)
  else if available < kDefaultCacheSize * 250 then kDefaultCacheSize * 5 / 2
  else if available < kint32max * 100 then wrapInt32 (available.tdiv 100)
  else kint32max

/-- The members of the backend that `CheckIndex` reads and sets. -/
structure BackendSizes where
  maxSize : Int
  mask : UInt32
  newEviction : Bool
deriving DecidableEq

def BackendSizes.new (newEviction : Bool) : BackendSizes := ⟨0, 0, newEviction⟩

def BackendSizes.setMaxSize (backend : BackendSizes) (maxBytes : Int32) : BackendSizes :=
  if maxBytes.toInt < 0 then backend
  else if maxBytes.toInt = 0 then backend
  else if kint32max - kint32max / 10 ≤ maxBytes.toInt then
    { backend with maxSize := kint32max - kint32max / 10 - 1 }
  else { backend with maxSize := maxBytes.toInt }

/-- `available` is what `AmountOfFreeDiskSpace` returns. -/
def BackendSizes.adjustMaxCacheSize (backend : BackendSizes) (header : IndexHeader)
    (available : Int64) (tableLen : Int) : BackendSizes :=
  if backend.maxSize ≠ 0 then backend
  else if available.toInt < 0 then { backend with maxSize := kDefaultCacheSize }
  else
    let available :=
      if tableLen ≠ 0 then wrapInt64 (available.toInt + header.numBytes.toInt) else available.toInt
    let maxSize := preferedCacheSize available
    let maxSize := if kDefaultCacheSize * 4 < maxSize then kDefaultCacheSize * 4 else maxSize
    if tableLen = 0 then { backend with maxSize := maxSize }
    else
      let currentMaxSize := maxStorageSizeForTable tableLen
      { backend with maxSize := if currentMaxSize < maxSize then currentMaxSize else maxSize }

def BackendSizes.checkVersion (backend : BackendSizes) (header : IndexHeader) : Option IndexHeader :=
  if backend.newEviction then
    if kIndexMagic ≠ header.magic ∨ kCurrentVersion >>> 16 ≠ header.version >>> 16 then none
    else if kCurrentVersion = header.version then
      some { header with version := 0x20001, noUseSize := header.numEntries }
    else some header
  else if kIndexMagic ≠ header.magic ∨ kCurrentVersion ≠ header.version then none
  else some header

/-- `currentSize` is the length of the file as a `size_t`, which is also that of the mapping. -/
def BackendSizes.checkIndex (backend : BackendSizes) (size : SizeT) (currentSize : Nat)
    (header : IndexHeader) (available : Int64) : BackendSizes × Bool :=
  if currentSize < indexSize then (backend, false)
  else
    match backend.checkVersion header with
    | none => (backend, false)
    | some header =>
      if header.tableLen.toInt = 0 then (backend, false)
      else if currentSize < getIndexSize size header.tableLen.toInt ∨
          header.tableLen.toInt % kBaseTableLen ≠ 0 then (backend, false)
      else
        let backend := backend.adjustMaxCacheSize header available header.tableLen.toInt
        if header.numBytes.toInt < 0 ∨ backend.maxSize < kint32max - kDefaultCacheSize ∧
            backend.maxSize + kDefaultCacheSize < header.numBytes.toInt then (backend, false)
        else if header.numEntries.toInt < 0 then (backend, false)
        else
          (if backend.mask = 0 then { backend with mask := header.tableLen.toUInt32 - 1 }
            else backend, true)

variable {backend : BackendSizes}

section Checks

variable {size : SizeT} {currentSize : Nat} {header : IndexHeader} {available : Int64}

def BackendSizes.sizeFor (backend : BackendSizes) (header : IndexHeader) (available : Int64) : Int :=
  (backend.adjustMaxCacheSize header available header.tableLen.toInt).maxSize

/-- Every check of `CheckIndex`, as a condition on the file and the settings. -/
structure BackendSizes.Passes (backend : BackendSizes) (size : SizeT) (currentSize : Nat)
    (header : IndexHeader) (available : Int64) : Prop where
  long : indexSize ≤ currentSize
  version : (backend.checkVersion header).isSome
  table : header.tableLen.toInt ≠ 0 ∧ header.tableLen.toInt % kBaseTableLen = 0
  mapped : getIndexSize size header.tableLen.toInt ≤ currentSize
  positive : 0 ≤ header.numBytes.toInt
  bytes : backend.sizeFor header available < kint32max - kDefaultCacheSize →
    header.numBytes.toInt ≤ backend.sizeFor header available + kDefaultCacheSize
  entries : 0 ≤ header.numEntries.toInt

theorem checkVersion_kept {upgraded : IndexHeader} (checked : backend.checkVersion header = some upgraded) :
    upgraded.tableLen = header.tableLen ∧ upgraded.numBytes = header.numBytes ∧
      upgraded.numEntries = header.numEntries := by
  rw [BackendSizes.checkVersion] at checked
  split at checked
  · split at checked
    · cases checked
    · split at checked <;> (cases checked; exact ⟨rfl, rfl, rfl⟩)
  · split at checked
    · cases checked
    · cases checked
      exact ⟨rfl, rfl, rfl⟩

theorem adjust_kept {header' : IndexHeader} (bytes : header'.numBytes = header.numBytes)
    (tableLen : Int) : backend.adjustMaxCacheSize header' available tableLen =
      backend.adjustMaxCacheSize header available tableLen := by
  rw [BackendSizes.adjustMaxCacheSize, BackendSizes.adjustMaxCacheSize, bytes]

theorem adjust_mask (tableLen : Int) :
    (backend.adjustMaxCacheSize header available tableLen).mask = backend.mask := by
  rw [BackendSizes.adjustMaxCacheSize]
  repeat' split
  all_goals rfl

variable (backend size currentSize header available) in
theorem checkIndex_accepts : ((backend.checkIndex size currentSize header available).2 = true ↔
      backend.Passes size currentSize header available) ∧
    ((backend.checkIndex size currentSize header available).2 = true →
      (backend.checkIndex size currentSize header available).1.maxSize = backend.sizeFor header available ∧
      (backend.mask = 0 → (backend.checkIndex size currentSize header available).1.mask =
        header.tableLen.toUInt32 - 1)) := by
  have refused : ∀ {result : BackendSizes × Bool}, result.2 = false →
      ¬ backend.Passes size currentSize header available →
      (result.2 = true ↔ backend.Passes size currentSize header available) ∧
        (result.2 = true → result.1.maxSize = backend.sizeFor header available ∧
          (backend.mask = 0 → result.1.mask = header.tableLen.toUInt32 - 1)) := by
    intro result no fails
    rw [no]
    exact ⟨⟨fun accepted => absurd accepted Bool.false_ne_true, fun passes => absurd passes fails⟩,
      fun accepted => absurd accepted Bool.false_ne_true⟩
  rw [BackendSizes.checkIndex]
  by_cases short : currentSize < indexSize
  · rw [if_pos short]
    exact refused rfl fun passes => absurd passes.long (Nat.not_le.mpr short)
  rw [if_neg short]
  cases version : backend.checkVersion header with
  | none =>
    refine refused rfl fun passes => ?_
    have checked := passes.version
    rw [version] at checked
    cases checked
  | some upgraded =>
    obtain ⟨table, bytes, entries⟩ := checkVersion_kept version
    simp only [table, bytes, entries]
    by_cases empty : header.tableLen.toInt = 0
    · rw [if_pos empty]
      exact refused rfl fun passes => passes.table.1 empty
    rw [if_neg empty]
    by_cases wrong : currentSize < getIndexSize size header.tableLen.toInt ∨
        header.tableLen.toInt % kBaseTableLen ≠ 0
    · rw [if_pos wrong]
      refine refused rfl fun passes => ?_
      rcases wrong with beyond | uneven
      · exact absurd passes.mapped (Nat.not_le.mpr beyond)
      · exact uneven passes.table.2
    rw [if_neg wrong]
    rw [not_or, Nat.not_lt, Classical.not_not] at wrong
    rw [adjust_kept bytes]
    generalize sizes : backend.adjustMaxCacheSize header available header.tableLen.toInt = adjusted
    have its_size : adjusted.maxSize = backend.sizeFor header available := by
      rw [← sizes, BackendSizes.sizeFor]
    have its_mask : adjusted.mask = backend.mask := by rw [← sizes, adjust_mask]
    rw [its_size]
    by_cases large : header.numBytes.toInt < 0 ∨
        backend.sizeFor header available < kint32max - kDefaultCacheSize ∧
          backend.sizeFor header available + kDefaultCacheSize < header.numBytes.toInt
    · rw [if_pos large]
      refine refused rfl fun passes => ?_
      rcases large with negative | ⟨small, beyond⟩
      · exact absurd passes.positive (Int.not_le.mpr negative)
      · exact absurd (passes.bytes small) (Int.not_le.mpr beyond)
    rw [if_neg large]
    by_cases negative : header.numEntries.toInt < 0
    · rw [if_pos negative]
      exact refused rfl fun passes => absurd passes.entries (Int.not_le.mpr negative)
    rw [if_neg negative, its_mask]
    have passes : backend.Passes size currentSize header available :=
      ⟨Nat.not_lt.mp short, by rw [version]; rfl, ⟨empty, wrong.2⟩, wrong.1, by omega, by omega, by omega⟩
    refine ⟨⟨fun _ => passes, fun _ => rfl⟩, fun _ => ⟨?_, fun unset => ?_⟩⟩
    · split
      · rfl
      · exact its_size
    · rw [if_pos unset]

end Checks

section Sizes

theorem preferedCacheSize_bounds {available : Int} (positive : 0 ≤ available)
    (long : available < 2 ^ 63) : 0 ≤ preferedCacheSize available := by
  have default : kDefaultCacheSize = 83886080 := rfl
  have largest : kint32max = 2147483647 := rfl
  rw [preferedCacheSize, default, largest]
  have inside : ∀ n : Int, 0 ≤ n → n < 2 ^ 31 → wrapInt32 n = n := by
    intro n above below
    rw [wrapInt32, bmod_eq_of_le] <;> omega
  split
  · have eight : wrapInt64 (available * 8) = available * 8 := by
      rw [wrapInt64, bmod_eq_of_le] <;> omega
    rw [eight, tdiv_eq_ediv_of_nonneg (by omega), inside _ (by omega) (by omega)]
    omega
  split
  · decide
  split
  · rw [tdiv_eq_ediv_of_nonneg (by omega), inside _ (by omega) (by omega)]
    omega
  split
  · decide
  split
  · rw [tdiv_eq_ediv_of_nonneg (by omega), inside _ (by omega) (by omega)]
    omega
  · decide

theorem preferedCacheSize_sum {available numBytes : Int} (positive : 0 ≤ available)
    (long : available < 2 ^ 63) (used : 0 ≤ numBytes) (small : numBytes < 2 ^ 31) :
    0 ≤ preferedCacheSize (wrapInt64 (available + numBytes)) := by
  by_cases fits : available + numBytes < 2 ^ 63
  · have same : wrapInt64 (available + numBytes) = available + numBytes := by
      rw [wrapInt64, bmod_eq_of_le] <;> omega
    rw [same]
    exact preferedCacheSize_bounds (by omega) fits
  · have wrapped : wrapInt64 (available + numBytes) = available + numBytes - 2 ^ 64 := by
      rw [wrapInt64, bmod_def]
      split <;> omega
    have eight : wrapInt64 ((available + numBytes - 2 ^ 64) * 8) = (available + numBytes - 2 ^ 63) * 8 := by
      rw [wrapInt64, bmod_def]
      split <;> omega
    have default : kDefaultCacheSize = 83886080 := rfl
    rw [preferedCacheSize, wrapped, if_pos (by omega), eight,
      tdiv_eq_ediv_of_nonneg (by omega), wrapInt32, bmod_eq_of_le] <;> omega

variable {header : IndexHeader} {available : Int64}
variable (available) in
theorem sizeFor_negative_iff (unset : 0 ≤ backend.maxSize) (used : 0 ≤ header.numBytes.toInt)
    (table : header.tableLen.toInt ≠ 0) :
    backend.sizeFor header available < 0 ↔ backend.maxSize = 0 ∧ 0 ≤ available.toInt ∧
      maxStorageSizeForTable header.tableLen.toInt < 0 := by
  have default : kDefaultCacheSize = 83886080 := rfl
  rw [BackendSizes.sizeFor, BackendSizes.adjustMaxCacheSize]
  by_cases set : backend.maxSize ≠ 0
  · rw [if_pos set]
    omega
  rw [if_neg set]
  by_cases unknown : available.toInt < 0
  · rw [if_pos unknown]
    simp only
    omega
  rw [if_neg unknown]
  have preferred := preferedCacheSize_sum (Int.not_lt.mp unknown) available.toInt_lt used
    header.numBytes.toInt_lt
  simp only [if_pos table, if_neg table]
  generalize preferedCacheSize (wrapInt64 (available.toInt + header.numBytes.toInt)) = prefers at preferred ⊢
  repeat' split
  all_goals omega

end Sizes

def BackendSizes.Safe (backend : BackendSizes) (currentSize : Nat) : Prop :=
  (∀ hash : UInt32, indexHeaderSize + 4 * ((hash &&& backend.mask).toNat + 1) ≤ currentSize) ∧
    0 ≤ backend.maxSize

/-- The table's length is positive, and its bytes and those of the header are counted in a
`size_t`. -/
def IndexHeader.TableFits (size : SizeT) (header : IndexHeader) : Prop :=
  0 < header.tableLen.toInt ∧ indexHeaderSize + 4 * header.tableLen.toInt < size.modulus

/-- The limit of the table is not used, or it does not become negative as an `int`. -/
def BackendSizes.LimitFits (backend : BackendSizes) (header : IndexHeader) (available : Int64) : Prop :=
  backend.maxSize ≠ 0 ∨ available.toInt < 0 ∨ 0 ≤ maxStorageSizeForTable header.tableLen.toInt

def BackendSizes.configured (newEviction : Bool) (requests : List Int32) : BackendSizes :=
  requests.foldl BackendSizes.setMaxSize (.new newEviction)

theorem setMaxSize_kept (maxBytes : Int32) (positive : 0 ≤ backend.maxSize) (unset : backend.mask = 0) :
    0 ≤ (backend.setMaxSize maxBytes).maxSize ∧ (backend.setMaxSize maxBytes).mask = 0 := by
  rw [BackendSizes.setMaxSize]
  split
  · exact ⟨positive, unset⟩
  split
  · exact ⟨positive, unset⟩
  split
  · exact ⟨(by decide : (0 : Int) ≤ kint32max - kint32max / 10 - 1), unset⟩
  · rename_i not_negative _ _
    exact ⟨Int.not_lt.mp not_negative, unset⟩

theorem configured_unset (newEviction : Bool) (requests : List Int32) :
    0 ≤ (BackendSizes.configured newEviction requests).maxSize ∧
      (BackendSizes.configured newEviction requests).mask = 0 := by
  have kept : ∀ (requests : List Int32) (backend : BackendSizes), 0 ≤ backend.maxSize ∧ backend.mask = 0 →
        0 ≤ (requests.foldl BackendSizes.setMaxSize backend).maxSize ∧
          (requests.foldl BackendSizes.setMaxSize backend).mask = 0 := by
    intro requests
    induction requests with
    | nil => exact fun _ holds => holds
    | cons maxBytes requests ih =>
      exact fun backend holds => ih _ (setMaxSize_kept maxBytes holds.1 holds.2)
  exact kept requests _ ⟨Int.le_refl 0, rfl⟩

theorem bucket_inside_iff {tableLen : Int32} (table : tableLen.toInt ≠ 0) (currentSize : Nat) :
    (∀ hash : UInt32, indexHeaderSize + 4 * ((hash &&& (tableLen.toUInt32 - 1)).toNat + 1) ≤
      currentSize) ↔ (indexHeaderSize + 4 * (tableLen.toInt % 2 ^ 32) : Int) ≤ currentSize := by
  have word : (tableLen.toUInt32.toNat : Int) = tableLen.toInt % 2 ^ 32 := by
    rw [← Int32.toInt_toBitVec, BitVec.toInt_eq_toNat_bmod]
    have below := tableLen.toUInt32.toNat_lt
    change ((tableLen.toUInt32.toNat : Int)) = Int.bmod tableLen.toUInt32.toNat (2 ^ 32) % 2 ^ 32
    rw [bmod_def]
    split <;> omega
  have mask : (tableLen.toUInt32 - 1).toNat + 1 = tableLen.toUInt32.toNat := by
    have below := tableLen.toUInt32.toNat_lt
    have nonzero : tableLen.toUInt32.toNat ≠ 0 := by
      have least := tableLen.le_toInt
      have most := tableLen.toInt_lt
      omega
    rw [UInt32.toNat_sub_of_le _ _ (by rw [UInt32.le_iff_toNat_le]; change 1 ≤ _; omega)]
    change _ - 1 + 1 = _
    omega
  constructor
  · intro inside
    have last := inside (tableLen.toUInt32 - 1)
    rw [UInt32.and_self, mask] at last
    omega
  · intro fits hash
    have below : (hash &&& (tableLen.toUInt32 - 1)).toNat ≤ (tableLen.toUInt32 - 1).toNat := by
      rw [UInt32.toNat_and]
      exact Nat.and_le_right
    omega

theorem buckets_inside_iff {size : SizeT} {header : IndexHeader} {available : Int64} (fileLength : Fin (2 ^ 63))
    (passes : backend.Passes size (fileLength % size.modulus) header available) :
    (∀ hash : UInt32, indexHeaderSize + 4 * ((hash &&& (header.tableLen.toUInt32 - 1)).toNat + 1) ≤
      fileLength % size.modulus) ↔ header.TableFits size := by
  rw [bucket_inside_iff passes.table.1, IndexHeader.TableFits]
  have mapped := passes.mapped
  have nonzero := passes.table.1
  have aligned : header.tableLen.toInt % 65536 = 0 := passes.table.2
  have least := header.tableLen.le_toInt
  have most := header.tableLen.toInt_lt
  have length := fileLength.isLt
  have headers : indexHeaderSize = 368 := rfl
  cases size with
  | bits32 =>
    rw [getIndexSize, SizeT.modulus, headers] at mapped
    rw [SizeT.modulus, headers]
    omega
  | bits64 =>
    have same : (fileLength : Nat) % SizeT.bits64.modulus = fileLength :=
      Nat.mod_eq_of_lt (Nat.lt_trans length (by decide))
    have table : ((getIndexSize .bits64 header.tableLen.toInt : Nat) : Int) =
        (368 + 4 * header.tableLen.toInt) % 18446744073709551616 :=
      toNat_of_nonneg (emod_nonneg _ (by decide))
    rw [same] at mapped
    rw [same, SizeT.modulus, headers]
    omega

/-- An accepted index is safe when the size of its table does not wrap and the limit for that table
does not become negative, and only then. -/
theorem index_safe_iff (size : SizeT) (newEviction : Bool) (requests : List Int32)
    (fileLength : Fin (2 ^ 63)) (header : IndexHeader) (available : Int64) :
    (((BackendSizes.configured newEviction requests).checkIndex size (fileLength % size.modulus)
        header available).2 = true →
      ((BackendSizes.configured newEviction requests).checkIndex size (fileLength % size.modulus)
        header available).1.Safe (fileLength % size.modulus)) ↔
    ((BackendSizes.configured newEviction requests).Passes size (fileLength % size.modulus) header available →
      header.TableFits size ∧ (BackendSizes.configured newEviction requests).LimitFits header available) := by
  obtain ⟨unset, mask⟩ := configured_unset newEviction requests
  generalize BackendSizes.configured newEviction requests = backend at unset mask ⊢
  obtain ⟨accepts, leaves⟩ := checkIndex_accepts backend size (fileLength % size.modulus) header available
  have safe : backend.Passes size (fileLength % size.modulus) header available →
      ((backend.checkIndex size (fileLength % size.modulus) header available).1.Safe
          (fileLength % size.modulus) ↔
        header.TableFits size ∧ backend.LimitFits header available) := by
    intro passes
    obtain ⟨maxSize, masked⟩ := leaves (accepts.mpr passes)
    have negative := sizeFor_negative_iff available unset passes.positive passes.table.1
    rw [BackendSizes.Safe, masked mask, maxSize, buckets_inside_iff fileLength passes, BackendSizes.LimitFits]
    constructor
    · rintro ⟨fits, positive⟩
      refine ⟨fits, ?_⟩
      by_contra overflows
      rw [not_or, not_or, Classical.not_not, Int.not_lt, Int.not_le] at overflows
      exact absurd (negative.mpr overflows) (Int.not_lt.mpr positive)
    · rintro ⟨fits, limit⟩
      refine ⟨fits, Int.not_lt.mp fun below => ?_⟩
      obtain ⟨unlimited, known, overflows⟩ := negative.mp below
      rcases limit with set | unknown | positive
      · exact set unlimited
      · exact absurd known (Int.not_le.mpr unknown)
      · exact absurd overflows (Int.not_lt.mpr positive)
  constructor
  · intro claim passes
    exact (safe passes).mp (claim (accepts.mpr passes))
  · intro condition accepted
    exact (safe (accepts.mp accepted)).mpr (condition (accepts.mp accepted))

/-- A table of 32 MB gets a negative maximum size. -/
theorem large_table_accepted : ¬ ∀ (size : SizeT) (newEviction : Bool) (requests : List Int32)
    (fileLength : Fin (2 ^ 63)) (header : IndexHeader) (available : Int64),
    ((BackendSizes.configured newEviction requests).checkIndex size (fileLength % size.modulus)
        header available).2 = true →
      ((BackendSizes.configured newEviction requests).checkIndex size (fileLength % size.modulus)
        header available).1.Safe (fileLength % size.modulus) := by
  intro claim
  have negative := (claim .bits64 true [] 32768368
    ⟨kIndexMagic, kCurrentVersion, 0, 0, 8192000, 0⟩ 0x4000000000 (by decide)).2
  exact absurd negative (by decide)

end Glopen.Cache

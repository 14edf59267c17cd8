import Glopen.Lib.Run
import Glopen.Cache.EntryImpl
import Glopen.Cache.RankingsCheck

/-! The hash table of backend_impl.cc, with the chains of its entries. Of the lists of the rankings
it has what a lookup gets to see. -/
namespace Glopen.Cache

open Run

def errInvalidAddress : Int := -7
def errInvalidLinks : Int := -8
def errReadFailure : Int := -10

/-- What a lookup reads of an `EntryStore`. `key` is what `GetKey` returns. -/
structure EntryRecord where
  hash : UInt32
  next : CacheAddr
  rankingsNode : CacheAddr
  keyLen : Int
  key : List UInt8
  state : EntryState
deriving DecidableEq

/-- What a lookup gets to see of a rankings node: whether its links pass `SanityCheck`, whether it is
moved between the lists without an error, and whether it can be stored. -/
structure NodeRecord where
  dirty : Int
  dummy : Int
  sane : Bool
  removable : Bool
  writable : Bool
deriving DecidableEq

/-- `opened` are the entries in memory. Records that are zeroed count with those that cannot be
loaded. -/
structure EntryIndex where
  table : UInt32 → CacheAddr
  mask : UInt32
  entries : CacheAddr → Option EntryRecord
  nodes : CacheAddr → Option NodeRecord
  opened : CacheAddr → Bool
  currentEntryId : Int
  disabled : Bool

def CacheAddr.isBlockOf (addr : CacheAddr) (fileType : FileType) : Bool :=
  addr.isInitialized && !addr.isSeparateFile && addr.fileType = fileType

def saneNext (next : CacheAddr) : Bool := !next.isInitialized || next.isBlockOf .block256

def EntryRecord.sanityCheck (record : EntryRecord) : Bool :=
  if record.rankingsNode = 0 || record.keyLen = 0 then false
  else if !record.rankingsNode.isBlockOf .rankings then false
  else saneNext record.next

def EntryRecord.isSameEntry (record : EntryRecord) (key : List UInt8) (hash : UInt32) : Bool :=
  record.hash = hash && record.keyLen = key.length && record.key = key

def NodeRecord.isDirty (node : NodeRecord) (currentEntryId : Int) : Bool :=
  node.dummy ≠ 0 || (node.dirty ≠ 0 && currentEntryId ≠ node.dirty)

namespace EntryIndex

section Calls

variable (index : EntryIndex)

def newEntry (address : CacheAddr) : Except Int (EntryRecord × Bool) :=
  if index.opened address then
    match index.entries address with
    | none => .error errReadFailure
    | some record => .ok (record, false)
  else if !address.isBlockOf .block256 then .error errInvalidAddress
  else
    match index.entries address with
    | none => .error errReadFailure
    | some record =>
      if !record.sanityCheck then .error errInvalidEntry
      else
        match index.nodes record.rankingsNode with
        | none => .error errReadFailure
        | some node =>
          if !node.sane then .error errInvalidLinks
          else .ok (record, node.isDirty index.currentEntryId)

/-- The node of an entry in memory has the current id already. When the entry leaves the memory the
flag is zero again. -/
def update (address : CacheAddr) (record : EntryRecord) : Bool :=
  index.opened address || (index.nodes record.rankingsNode).any NodeRecord.writable

def setEntry (address : CacheAddr) (record : Option EntryRecord) : EntryIndex :=
  { index with entries := fun a => if a = address then record else index.entries a }

def setNextAddress (address next : CacheAddr) : EntryIndex :=
  index.setEntry address ((index.entries address).map fun record => { record with next := next })

def setLink (bucket : UInt32) (parent : Option CacheAddr) (next : CacheAddr) : EntryIndex :=
  match parent with
  | some parent => index.setNextAddress parent next
  | none => { index with table := fun b => if b = bucket then next else index.table b }

/-- `DestroyInvalidEntry`, and the destructor of the entry, which clears its records. -/
def destroyInvalidEntry (address : CacheAddr) (record : EntryRecord) : EntryIndex :=
  { index.setEntry address none with
    nodes := fun n => if n = record.rankingsNode then none else index.nodes n
    disabled := index.disabled || !(index.nodes record.rankingsNode).any NodeRecord.removable }

end Calls

section Match

/-- The state of the loop of `MatchEntry`. -/
structure Lookup where
  index : EntryIndex
  address : CacheAddr
  parent : Option CacheAddr

variable (key : List UInt8) (hash : UInt32) (findParent : Bool)

def lookup (index : EntryIndex) : Lookup := ⟨index, index.table (hash &&& index.mask), none⟩

/-- A pass of the loop of `MatchEntry`, which ends with the entry or its parent. -/
def matchStep (state : Lookup) : Lookup ⊕ (EntryIndex × Option CacheAddr) :=
  let ⟨index, address, parent⟩ := state
  if index.disabled then .inr (index, none)
  else if !address.isInitialized then .inr (index, if findParent then parent else none)
  else
    let bucket := hash &&& index.mask
    match index.newEntry address with
    | .error _ => .inl (lookup hash (index.setLink bucket parent 0))
    | .ok (record, true) =>
      .inl (lookup hash ((index.setLink bucket parent record.next).destroyInvalidEntry address record))
    | .ok (record, false) =>
      if record.isSameEntry key hash then
        .inr (index, if findParent then parent
          else if index.update address record then some address else none)
      else if index.update address record then .inl ⟨index, record.next, some address⟩
      else .inr (index, none)

/-- In `fuel` passes at most. -/
def matchEntry (fuel : Nat) (index : EntryIndex) : Option (EntryIndex × Option CacheAddr) :=
  loop (matchStep key hash findParent) fuel (lookup hash index)

end Match

def checkEntry (index : EntryIndex) (record : EntryRecord) : Bool :=
  (index.nodes record.rankingsNode).all fun node => node.dummy = 0

/-- A pass of the inner loop of `CheckAllEntries`, with the numbers of dirty and other entries. -/
def checkStep (index : EntryIndex) (state : CacheAddr × Nat × Nat) :
    (CacheAddr × Nat × Nat) ⊕ Except Int (Nat × Nat) :=
  let (address, numDirty, numEntries) := state
  let next (record : EntryRecord) (numDirty numEntries : Nat) :
      (CacheAddr × Nat × Nat) ⊕ Except Int (Nat × Nat) :=
    if record.next.isInitialized then .inl (record.next, numDirty, numEntries)
    else .inr (.ok (numDirty, numEntries))
  match index.newEntry address with
  | .error error => .inr (.error error)
  | .ok (record, true) => next record (numDirty + 1) numEntries
  | .ok (record, false) =>
    if index.checkEntry record then next record numDirty (numEntries + 1)
    else .inr (.error errInvalidEntry)

section Doom

variable (newEviction : Bool) (index : EntryIndex) (address : CacheAddr)

def hold : EntryIndex := { index with opened := fun a => a = address || index.opened a }

def moveNode : EntryIndex :=
  { index with
    disabled := index.disabled || !(index.entries address).any fun record =>
      (index.nodes record.rankingsNode).any NodeRecord.removable }

def setPointerForInvalidEntry (record : EntryRecord) : EntryIndex :=
  let store (node : NodeRecord) : NodeRecord :=
    if node.writable then { node with dirty := index.currentEntryId, dummy := 0 } else node
  { index with
    nodes := fun n => if n = record.rankingsNode then (index.nodes n).map store else index.nodes n }

def onDoomEntry : EntryIndex :=
  if !newEviction then index.moveNode address
  else if (index.entries address).any fun record => record.state = .normal then
    (index.moveNode address).setEntry address
      ((index.entries address).map fun record => { record with state := .doomed })
  else index

def destroyEntry (record : EntryRecord) : EntryIndex :=
  let index := if newEviction then index.moveNode address else index
  { index.setEntry address none with
    nodes := fun n => if n = record.rankingsNode then none else index.nodes n
    opened := fun a => a ≠ address && index.opened a }

end Doom

section Operations

def key1Len : Nat := 160
def kMaxInternalKeyLength : Nat := 927

/-- The rest of the backend during a call. `moves` is whether `OnOpenEntry` takes the node of the
entry to another list, `keyStored` whether a long key gets its file and `inserted` whether the node
of a new entry gets into its list. -/
structure Services where
  hash : List UInt8 → UInt32
  newEviction : Bool
  moves : CacheAddr → Bool
  createBlock : FileType → Nat → Option CacheAddr
  keyStored : Bool
  inserted : Bool

variable (services : Services) (fuel : Nat) (key : List UInt8)

/-- `OpenEntryImpl`, with what `MatchEntry` has found. -/
def openFound (index : EntryIndex) (found : Option CacheAddr) : EntryIndex × Option CacheAddr :=
  match found with
  | none => (index, none)
  | some address =>
    if !(index.entries address).any fun record => record.state = .normal then (index, none)
    else
      let index := if services.moves address then index.moveNode address else index
      (index.hold address, some address)

def openEntryImpl (index : EntryIndex) : Option (EntryIndex × Option CacheAddr) :=
  if index.disabled then some (index, none)
  else
    (index.matchEntry key (services.hash key) false fuel).map fun (index, found) =>
      index.openFound services found

def resurrectEntry (index : EntryIndex) (address : CacheAddr) : EntryIndex × Option CacheAddr :=
  match index.entries address with
  | none => (index, none)
  | some record =>
    if record.state = .normal then (index, none)
    else
      let index :=
        if services.newEviction && record.state = .evicted then
          index.setEntry address (some { record with state := .normal })
        else index
      ((index.moveNode address).hold address, some address)

def keyBlocks (key : List UInt8) : Nat :=
  if key.length < key1Len || key.length > kMaxInternalKeyLength then 1
  else (key.length - key1Len) / 256 + 2

def Services.newBlocks : Option (CacheAddr × CacheAddr) :=
  match services.createBlock .block256 (keyBlocks key) with
  | none => none
  | some address =>
    match services.createBlock .rankings 1 with
    | none => none
    | some node =>
      if key.length > kMaxInternalKeyLength && !services.keyStored then none
      else some (address, node)

def addEntry (index : EntryIndex) (parent : Option CacheAddr) : EntryIndex × Option CacheAddr :=
  match services.newBlocks key with
  | none => (index, none)
  | some (address, node) =>
    let hash := services.hash key
    let linked := index.setLink (hash &&& index.mask) parent address
    let record : EntryRecord := ⟨hash, 0, node, key.length, key, .normal⟩
    let stored := { linked.setEntry address (some record) with
      nodes := fun n =>
        if n = node then some ⟨index.currentEntryId, 0, true, true, true⟩ else linked.nodes n
      disabled := linked.disabled || !services.inserted }
    (stored.hold address, some address)

def createEntryImpl (index : EntryIndex) : Option (EntryIndex × Option CacheAddr) :=
  let hash := services.hash key
  if index.disabled || key.isEmpty then some (index, none)
  else if !(index.table (hash &&& index.mask)).isInitialized then
    some (index.addEntry services key none)
  else
    (index.matchEntry key hash false fuel).bind fun (index, oldEntry) =>
      match oldEntry with
      | some address => some (index.resurrectEntry services address)
      | none =>
        (index.matchEntry key hash true fuel).bind fun (index, parent) =>
          match parent with
          | none => some (index, none)
          | some parent => some (index.addEntry services key (some parent))

def internalDoomEntry (index : EntryIndex) (address : CacheAddr) (record : EntryRecord) :
    Option EntryIndex :=
  (index.matchEntry record.key record.hash true fuel).map fun (index, parent) =>
    let child := ((index.entries address).map EntryRecord.next).getD 0
    (index.onDoomEntry services.newEviction address).setLink (record.hash &&& index.mask) parent
      child

def doomEntry (index : EntryIndex) : Option (EntryIndex × Bool) :=
  if index.disabled then some (index, false)
  else
    (index.openEntryImpl services fuel key).bind fun (found, entry) =>
      match entry.bind fun address => (found.entries address).map (address, ·) with
      | none => some (found, false)
      | some (address, record) =>
        ((found.setPointerForInvalidEntry record).internalDoomEntry services fuel address
          record).map fun doomed =>
            if index.opened address then (doomed, true)
            else (doomed.destroyEntry services.newEviction address record, true)

def destroyInvalidEntryFromEnumeration (index : EntryIndex) (address : CacheAddr)
    (record : EntryRecord) : Option EntryIndex :=
  let index := index.setPointerForInvalidEntry record
  if record.next = 0 then
    ((index.destroyInvalidEntry address record).doomEntry services fuel record.key).map Prod.fst
  else
    (index.doomEntry services fuel record.key).map fun (index, _) =>
      if (index.nodes record.rankingsNode).isSome then index.destroyInvalidEntry address record
      else index

end Operations

end EntryIndex

end Glopen.Cache

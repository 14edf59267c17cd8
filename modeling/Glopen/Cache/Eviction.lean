import Glopen.Cache.RankingsSizes

/-! The lists of eviction.cc (new eviction), over the operations on the rankings. -/
namespace Glopen.Cache

open Linked

def kHighUse : Int := 10

def kint32max : Int := 2 ^ 31 - 1

def wrapInt32 (n : Int) : Int := Int.bmod n (2 ^ 32)

inductive EntryState
  | normal | evicted | doomed
deriving DecidableEq

structure EntryStore where
  reuseCount : Int
  refetchCount : Int
  state : EntryState
deriving DecidableEq

def EntryStore.getListForEntryV2 (info : EntryStore) : RankList :=
  if info.reuseCount = 0 then .noUse
  else if info.reuseCount < kHighUse then .lowUse
  else .highUse

/-- The entries that have blocks in the files, by the address of the rankings node.
`removes` are the calls of `Remove` so far, each with the rankings that it found. -/
structure Eviction where
  rankings : Rankings
  entries : CacheAddr → Option EntryStore
  removes : List (Rankings × CacheAddr × RankList)

def Eviction.write (a : CacheAddr) (info : EntryStore) (eviction : Eviction) : Eviction :=
  { eviction with entries := fun b => if b = a then some info else eviction.entries b }

def Eviction.remove (node : Block) (list : RankList) (eviction : Eviction) : Eviction × Block :=
  let removed := eviction.rankings.remove node list
  ({ eviction with
    rankings := removed.1
    removes := eviction.removes ++ [(eviction.rankings, node.address, list)] }, removed.2)

def Eviction.insert (node : Block) (modified : Bool) (list : RankList) (now : UInt64)
    (eviction : Eviction) : Eviction :=
  { eviction with rankings := (eviction.rankings.insert node modified list now).1 }

/-- `UpdateRank` of the rankings is `Remove` and `Insert`. -/
def Eviction.updateRankV2 (a : CacheAddr) (info : EntryStore) (modified : Bool) (now : UInt64)
    (eviction : Eviction) : Eviction :=
  let (eviction, node) := eviction.remove (eviction.rankings.block a) info.getListForEntryV2
  eviction.insert node modified info.getListForEntryV2 now

def Eviction.onOpenEntryV2 (a : CacheAddr) (info : EntryStore) (now : UInt64)
    (eviction : Eviction) : Eviction :=
  if info.reuseCount < kint32max then
    let info := { info with reuseCount := info.reuseCount + 1 }
    let eviction := eviction.write a info
    if 1 = info.reuseCount then
      let (eviction, node) := eviction.remove (eviction.rankings.block a) .noUse
      eviction.insert node false .lowUse now
    else if kHighUse = info.reuseCount then
      let (eviction, node) := eviction.remove (eviction.rankings.block a) .lowUse
      eviction.insert node false .highUse now
    else eviction
  else eviction

/-- What `OnCreateEntryV2` makes of an evicted entry. -/
def EntryStore.refetched (info : EntryStore) : EntryStore :=
  let refetchCount :=
    if info.refetchCount < kint32max then info.refetchCount + 1 else info.refetchCount
  { refetchCount
    reuseCount :=
      if kHighUse < refetchCount ∧ info.reuseCount < kHighUse then kHighUse
      else wrapInt32 (info.reuseCount + 1)
    state := .normal }

def Eviction.onCreateEntryV2 (a : CacheAddr) (info : EntryStore) (now : UInt64)
    (eviction : Eviction) : Eviction :=
  match info.state with
  | .evicted =>
    let info := info.refetched
    let eviction := eviction.write a info
    let (eviction, node) := eviction.remove (eviction.rankings.block a) .deleted
    eviction.insert node true info.getListForEntryV2 now
  | _ => eviction.insert (eviction.rankings.block a) true info.getListForEntryV2 now

def Eviction.onDoomEntryV2 (a : CacheAddr) (info : EntryStore) (now : UInt64)
    (eviction : Eviction) : Eviction :=
  if .normal ≠ info.state then eviction
  else
    let (eviction, node) := eviction.remove (eviction.rankings.block a) info.getListForEntryV2
    let eviction := eviction.write a { info with state := .doomed }
    eviction.insert node true .deleted now

def Eviction.onDestroyEntryV2 (a : CacheAddr) (eviction : Eviction) : Eviction :=
  (eviction.remove (eviction.rankings.block a) .deleted).1

/-- `DoomImpl` comes here with the entry that it takes out of the index. -/
def Eviction.evictEntry (a : CacheAddr) (info : EntryStore) (empty : Bool) (now : UInt64)
    (eviction : Eviction) : Eviction :=
  if empty then eviction.onDoomEntryV2 a info now
  else
    let (eviction, node) := eviction.remove (eviction.rankings.block a) info.getListForEntryV2
    let eviction := eviction.write a { info with state := .evicted }
    eviction.insert node true .deleted now

def Eviction.removeDeletedNode (a : CacheAddr) (info : EntryStore) (now : UInt64)
    (eviction : Eviction) : Eviction :=
  let info := { info with state := .doomed }
  (eviction.write a info).onDoomEntryV2 a info now

/-- `CreateEntryImpl`, at blocks that were free. -/
def Eviction.createEntry (a contents : CacheAddr) (now : UInt64) (eviction : Eviction) : Eviction :=
  let info : EntryStore := ⟨0, 0, .normal⟩
  let eviction : Eviction :=
    { eviction.write a info with rankings := eviction.rankings.createEntry a contents }
  eviction.onCreateEntryV2 a info now

/-- `DeleteEntryData`, which clears the blocks and frees them. -/
def Eviction.destroyEntry (a : CacheAddr) (eviction : Eviction) : Eviction :=
  let eviction := eviction.onDestroyEntryV2 a
  { eviction with
    rankings := { eviction.rankings with
      openEntries := fun b => if b = a then none else eviction.rankings.openEntries b }.persist
        (.node a ⟨0, 0, 0, 0, 0, 0, 0⟩)
    entries := fun b => if b = a then none else eviction.entries b }

inductive EvictionEvent
  | create (a contents : CacheAddr) (now : UInt64)
  | recreate (a : CacheAddr) (now : UInt64)
  | opened (a : CacheAddr) (now : UInt64)
  | updateRank (a : CacheAddr) (modified : Bool) (now : UInt64)
  | doom (a : CacheAddr) (now : UInt64)
  | evict (a : CacheAddr) (empty : Bool) (now : UInt64)
  | removeDeleted (a : CacheAddr) (now : UInt64)
  | destroy (a : CacheAddr)
  | rankings (event : Event)
  | restart (currentEntryId : Int)

def Eviction.withEntry (a : CacheAddr) (handler : EntryStore → Eviction) (eviction : Eviction) :
    Eviction :=
  match eviction.entries a with
  | some info => handler info
  | none => eviction

def EvictionEvent.run (eviction : Eviction) : EvictionEvent → Eviction
  | create a contents now => eviction.createEntry a contents now
  | recreate a now => eviction.withEntry a fun info => eviction.onCreateEntryV2 a info now
  | opened a now => eviction.withEntry a fun info => eviction.onOpenEntryV2 a info now
  | updateRank a modified now =>
    eviction.withEntry a fun info => eviction.updateRankV2 a info modified now
  | doom a now => eviction.withEntry a fun info => eviction.onDoomEntryV2 a info now
  | evict a empty now => eviction.withEntry a fun info => eviction.evictEntry a info empty now
  | removeDeleted a now => eviction.withEntry a fun info => eviction.removeDeletedNode a info now
  | destroy a => eviction.destroyEntry a
  | rankings event => { eviction with rankings := event.run eviction.rankings }
  | restart currentEntryId =>
    { eviction with
      rankings := .new eviction.rankings.disk eviction.rankings.countLists currentEntryId }

def Event.Quiet (rankings : Rankings) : Event → Prop
  | .openEntry _ | .closeEntry _ | .free _ => True
  | .getNext it _ => ∀ node, it = some node → node ∈ rankings.iterators
  | .getPrev it _ => ∀ node, it = some node → node ∈ rankings.iterators
  | _ => False

def Eviction.HasState (eviction : Eviction) (a : CacheAddr) (states : EntryState → Prop) : Prop :=
  ∃ info, eviction.entries a = some info ∧ states info.state

/-- What the callers check: the backend opens and re-ranks normal entries, creates what it has not or
what is evicted, and destroys what is not normal; `TrimCacheV2` takes its nodes from the first three
lists and `TrimDeleted` from the last. -/
def EvictionEvent.Allowed (eviction : Eviction) (lists : Lists) : EvictionEvent → Prop
  | create a contents now => eviction.entries a = none ∧ a.IsBlock ∧ contents ≠ 0 ∧ now ≠ 0
  | recreate a now => eviction.HasState a (· = .evicted) ∧ now ≠ 0
  | opened a now => eviction.HasState a (· = .normal) ∧ now ≠ 0
  | updateRank a _ now => eviction.HasState a (· = .normal) ∧ now ≠ 0
  | doom a now => eviction.HasState a (fun _ => True) ∧ now ≠ 0
  | evict a _ now => (∃ list ∈ [RankList.noUse, .lowUse, .highUse], a ∈ lists list) ∧ now ≠ 0
  | removeDeleted a now => a ∈ lists .deleted ∧ now ≠ 0
  | destroy a => eviction.HasState a (· ≠ .normal)
  | rankings event => event.Quiet eviction.rankings
  | restart currentEntryId => currentEntryId ≠ 0

def Eviction.BelowMax (eviction : Eviction) : Prop :=
  ∀ a info, eviction.entries a = some info → info.reuseCount < kint32max

inductive EvictionRun (start : Eviction) : Eviction → Prop
  | start : EvictionRun start start
  | event {eviction : Eviction} {lists : Lists} {event : EvictionEvent}
      (run : EvictionRun start eviction) (wf : WellFormed eviction.rankings.disk lists)
      (allowed : event.Allowed eviction lists) (below : eviction.BelowMax) :
      EvictionRun start (event.run eviction)

end Glopen.Cache

import Mathlib.Data.List.Basic

/-! The entries of http_cache.cc, which transactions share, and the work items that open and create
them. Code that notifies transactions from a list of its own is a frame: what the callbacks do comes
between its steps. -/
namespace Glopen.Http

abbrev Trans := Nat

abbrev EntryId := Nat

inductive WorkItemOperation
  | createBackend | openEntry | createEntry | doomEntry
deriving DecidableEq

/-- `entry` and `callback` say which of the pointers are set. -/
structure WorkItem where
  operation : WorkItemOperation
  trans : Option Trans
  entry : Bool
  callback : Bool
deriving DecidableEq

def WorkItem.isValid (item : WorkItem) : Bool := item.trans.isSome || item.entry || item.callback

/-- `key` is the one of the disk entry. -/
structure ActiveEntry where
  key : String
  writer : Option Trans
  readers : List Trans
  pendingQueue : List Trans
  willProcessPendingQueue : Bool
  doomed : Bool
deriving DecidableEq

structure PendingOp where
  writer : WorkItem
  pendingQueue : List WorkItem
deriving DecidableEq

/-- What the cache and a transaction know of each other. `writes` is the bit of its mode, and `arrived`
numbers its calls of `AddTransactionToEntry`. -/
structure Transaction where
  key : String
  writes : Bool
  cachePending : Bool
  entry : Option EntryId
  destroyed : Bool
  arrived : Nat
deriving DecidableEq

/-- The code behind a notification: the loops of `OnIOComplete`, `DoneWritingToEntry` and
`OnBackendCreated`. -/
inductive Frame
  | onIOComplete (result : Bool) (op : WorkItemOperation) (key : String) (failRequests : Bool)
      (pendingItems : List WorkItem)
  | doneWriting (pendingQueue : List Trans)
  | onBackendCreated
deriving DecidableEq

/-- What is said of a run. An access comes with those that are still queued and arrived before, a
notification with `cache_pending_` as it finds it, a removal with what the search found, a new active
entry with the one that the map had, and a deletion with the entry and whether a task is posted. -/
inductive Note
  | access (t : Trans) (e : EntryId) (earlier : List Trans)
  | notified (t : Trans) (pending : Bool)
  | removed (t : Trans) (found : Bool)
  | activated (key : String) (old : Option EntryId)
  | deleted (entry : ActiveEntry) (posted : Bool)
deriving DecidableEq

/-- `onDisk` are the keys of the disk entries that are not doomed, and `tasks` the posted calls of
`OnProcessPendingQueue`. The pending operation for the empty key is `backendOp`. -/
structure HttpCache where
  backendFactory : Bool
  entries : EntryId → Option ActiveEntry
  nextEntry : EntryId
  activeEntries : String → Option EntryId
  doomedEntries : List EntryId
  pendingOps : String → Option PendingOp
  backendOp : Option PendingOp
  buildingBackend : Bool
  diskCache : Bool
  onDisk : String → Bool
  tasks : List EntryId
  frames : List Frame
  trans : Trans → Transaction
  arrivals : Nat
  notes : List Note

def HttpCache.setEntry (e : EntryId) (entry : ActiveEntry) (cache : HttpCache) : HttpCache :=
  { cache with entries := fun x => if x = e then some entry else cache.entries x }

def HttpCache.setTrans (t : Trans) (trans : Transaction) (cache : HttpCache) : HttpCache :=
  { cache with trans := fun x => if x = t then trans else cache.trans x }

def HttpCache.note (note : Note) (cache : HttpCache) : HttpCache :=
  { cache with notes := cache.notes ++ [note] }

def HttpCache.setOp (key : String) (op : Option PendingOp) (cache : HttpCache) : HttpCache :=
  { cache with pendingOps := fun k => if k = key then op else cache.pendingOps k }

def Frame.isDone : Frame → Bool
  | onIOComplete _ _ _ _ pendingItems => pendingItems = []
  | doneWriting pendingQueue => pendingQueue = []
  | onBackendCreated => false

def HttpCache.push (frame : Frame) (cache : HttpCache) : HttpCache :=
  if frame.isDone then cache else { cache with frames := frame :: cache.frames }

def HttpCache.processPendingQueue (e : EntryId) (entry : ActiveEntry) (cache : HttpCache) : HttpCache :=
  if entry.willProcessPendingQueue then cache.setEntry e entry
  else
    { cache.setEntry e { entry with willProcessPendingQueue := true } with
      tasks := cache.tasks ++ [e] }

def HttpCache.access (t : Trans) (e : EntryId) (entry : ActiveEntry) (cache : HttpCache) : HttpCache :=
  (cache.setTrans t { cache.trans t with cachePending := false, entry := some e }).note
    (.access t e (entry.pendingQueue.filter fun other =>
      (cache.trans other).arrived < (cache.trans t).arrived))

def HttpCache.wait (t : Trans) (cache : HttpCache) : HttpCache :=
  cache.setTrans t { cache.trans t with cachePending := true }

def HttpCache.addTransactionToEntry (t : Trans) (e : EntryId) (entry : ActiveEntry)
    (cache : HttpCache) : HttpCache × Bool :=
  if entry.writer.isSome || entry.willProcessPendingQueue then
    (cache.setEntry e { entry with pendingQueue := entry.pendingQueue ++ [t] }, false)
  else if (cache.trans t).writes then
    if entry.readers = [] then (cache.setEntry e { entry with writer := some t }, true)
    else (cache.setEntry e { entry with pendingQueue := entry.pendingQueue ++ [t] }, false)
  else
    let entry := { entry with readers := entry.readers ++ [t] }
    if entry.pendingQueue ≠ [] then (cache.processPendingQueue e entry, true)
    else (cache.setEntry e entry, true)

/-- `DoAddToEntry` of a transaction that got the entry from the cache just now. -/
def HttpCache.doAddToEntry (t : Trans) (e : EntryId) (cache : HttpCache) : HttpCache :=
  match cache.entries e with
  | none => cache
  | some entry =>
    let cache : HttpCache :=
      { cache.setTrans t { cache.trans t with arrived := cache.arrivals } with
        arrivals := cache.arrivals + 1 }
    let (cache, ok) := cache.addTransactionToEntry t e entry
    if ok then cache.access t e entry else cache.wait t

def HttpCache.destroyEntry (e : EntryId) (entry : ActiveEntry) (cache : HttpCache) : HttpCache :=
  let cache : HttpCache := { cache with
    entries := fun x => if x = e then none else cache.entries x
    notes := cache.notes ++ [.deleted entry (decide (e ∈ cache.tasks))] }
  if entry.doomed then { cache with doomedEntries := cache.doomedEntries.erase e }
  else
    { cache with activeEntries := fun k => if k = entry.key then none else cache.activeEntries k }

def HttpCache.doomDisk (entry : ActiveEntry) (cache : HttpCache) : HttpCache :=
  if entry.doomed then cache
  else { cache with onDisk := fun k => if k = entry.key then false else cache.onDisk k }

def HttpCache.doneWritingToEntry (e : EntryId) (entry : ActiveEntry) (success : Bool)
    (cache : HttpCache) : HttpCache :=
  let entry := { entry with writer := none }
  if success then cache.processPendingQueue e entry
  else
    let pendingQueue := entry.pendingQueue
    let entry := { entry with pendingQueue := [] }
    ((cache.doomDisk entry).destroyEntry e entry).push (.doneWriting pendingQueue)

def HttpCache.doneReadingFromEntry (t : Trans) (e : EntryId) (entry : ActiveEntry)
    (cache : HttpCache) : HttpCache :=
  cache.processPendingQueue e { entry with readers := entry.readers.erase t }

/-- `success` is what `AddTruncatedFlag` says of a writer that is cancelled. -/
def HttpCache.doneWithEntry (t : Trans) (e : EntryId) (entry : ActiveEntry) (success : Bool)
    (cache : HttpCache) : HttpCache :=
  if entry.willProcessPendingQueue && entry.readers = [] then cache
  else if entry.writer.isSome then cache.doneWritingToEntry e entry success
  else cache.doneReadingFromEntry t e entry

def HttpCache.convertWriterToReader (t : Trans) (e : EntryId) (entry : ActiveEntry)
    (cache : HttpCache) : HttpCache :=
  cache.processPendingQueue e { entry with writer := none, readers := entry.readers ++ [t] }

def HttpCache.onProcessPendingQueue (e : EntryId) (cache : HttpCache) : HttpCache :=
  match cache.entries e with
  | none => cache
  | some entry =>
    let entry := { entry with willProcessPendingQueue := false }
    let cache := (HttpCache.setEntry e entry { cache with tasks := cache.tasks.erase e })
    match entry.pendingQueue with
    | [] => if entry.readers = [] then cache.destroyEntry e entry else cache
    | next :: rest =>
      if (cache.trans next).writes && entry.readers ≠ [] then cache
      else
        let entry := { entry with pendingQueue := rest }
        let (cache, ok) := cache.addTransactionToEntry next e entry
        if ok then
          (cache.note (.notified next (cache.trans next).cachePending)).access next e entry
        else cache

inductive Notice
  | ok (e : EntryId)
  | failed

/-- `io_callback` runs. With an entry, the transaction is added to it at once. -/
def HttpCache.notifyTransaction (t : Option Trans) (notice : Notice) (cache : HttpCache) : HttpCache :=
  match t with
  | none => cache
  | some t =>
    let cache := (cache.note (.notified t (cache.trans t).cachePending)).setTrans t
      { cache.trans t with cachePending := false }
    match notice with
    | .ok e => cache.doAddToEntry t e
    | .failed => cache

def HttpCache.activateEntry (key : String) (cache : HttpCache) : HttpCache :=
  let cache := cache.note (.activated key (cache.activeEntries key))
  { cache.setEntry cache.nextEntry ⟨key, none, [], [], false, false⟩ with
    activeEntries := fun k => if k = key then some cache.nextEntry else cache.activeEntries k
    onDisk := fun k => if k = key then true else cache.onDisk k
    nextEntry := cache.nextEntry + 1 }

/-- The part of `OnIOComplete` before the notifications, with the entry and `fail_requests`. -/
def HttpCache.completeOperation (result : Bool) (key : String) (op : PendingOp) (cache : HttpCache) :
    HttpCache × Option EntryId × Bool :=
  if result then
    if op.writer.operation = .doomEntry then
      ({ cache with onDisk := fun k => if k = key then false else cache.onDisk k }, none, true)
    else if op.writer.isValid then (cache.activateEntry key, some cache.nextEntry, false)
    else if op.writer.operation = .createEntry then (cache, none, true)
    else ({ cache with onDisk := fun k => if k = key then true else cache.onDisk k }, none, true)
  else (cache, none, false)

def HttpCache.onIOComplete (result : Bool) (key : String) (op : PendingOp) (cache : HttpCache) :
    HttpCache × Option EntryId :=
  let (cache, entry, failRequests) := cache.completeOperation result key op
  let cache := (cache.setOp key none).push
    (.onIOComplete result op.writer.operation key failRequests op.pendingQueue)
  (cache.notifyTransaction op.writer.trans (entry.elim .failed .ok), entry)

/-- What the loop of `OnIOComplete` says to the next item, and `fail_requests` from there. -/
def HttpCache.nextNotice (result : Bool) (op : WorkItemOperation) (key : String)
    (failRequests : Bool) (item : WorkItem) (cache : HttpCache) : Notice × Bool :=
  if item.operation = .doomEntry then (.failed, true)
  else
    let entry := if result then cache.activeEntries key else none
    let failRequests := failRequests || (result && entry.isNone)
    if failRequests then (.failed, true)
    else if item.operation = .createEntry then
      if result then (.failed, false)
      else (.failed, op ≠ .createEntry)
    else if op = .createEntry && !result then (.failed, true)
    else (entry.elim .failed .ok, false)

/-- The request is queued behind the operation on its key, or becomes one. The backend may be done at
once (`rv`), and then the caller gets the result. -/
def HttpCache.request (operation : WorkItemOperation) (key : String) (t : Option Trans)
    (rv : Option Bool) (cache : HttpCache) : HttpCache × Option EntryId :=
  let item : WorkItem := ⟨operation, t, decide (operation ≠ .doomEntry), false⟩
  match cache.pendingOps key with
  | some op =>
    ((t.elim cache cache.wait).setOp key (some { op with pendingQueue := op.pendingQueue ++ [item] }), none)
  | none =>
    match rv with
    | none => ((t.elim cache cache.wait).setOp key (some ⟨item, []⟩), none)
    | some result => cache.onIOComplete result key ⟨{ item with trans := none }, []⟩

def HttpCache.openEntry (t : Trans) (rv : Option Bool) (cache : HttpCache) : HttpCache :=
  match cache.activeEntries (cache.trans t).key with
  | some e => cache.doAddToEntry t e
  | none =>
    let (cache, entry) := cache.request .openEntry (cache.trans t).key (some t) rv
    match entry with
    | some e => cache.doAddToEntry t e
    | none => cache

def HttpCache.createEntry (t : Trans) (rv : Option Bool) (cache : HttpCache) : HttpCache :=
  let (cache, entry) := cache.request .createEntry (cache.trans t).key (some t) rv
  match entry with
  | some e => cache.doAddToEntry t e
  | none => cache

def HttpCache.doomEntry (key : String) (t : Option Trans) (rv : Option Bool) (cache : HttpCache) :
    HttpCache :=
  match cache.activeEntries key with
  | none => (cache.request .doomEntry key t rv).1
  | some e =>
    match cache.entries e with
    | none => cache
    | some entry =>
      { (cache.doomDisk entry).setEntry e { entry with doomed := true } with
        activeEntries := fun k => if k = key then none else cache.activeEntries k
        doomedEntries := cache.doomedEntries ++ [e] }

def HttpCache.createBackend (callback : Bool) (rv : Option Bool) (cache : HttpCache) : HttpCache :=
  if !cache.backendFactory then cache
  else
    let cache := { cache with buildingBackend := true }
    match cache.backendOp with
    | some op =>
      if callback then
        { cache with backendOp := some { op with
            pendingQueue := op.pendingQueue ++ [⟨.createBackend, none, false, true⟩] } }
      else cache
    | none =>
      match rv with
      | none => { cache with backendOp := some ⟨⟨.createBackend, none, false, callback⟩, []⟩ }
      | some result =>
        { cache with backendFactory := false, diskCache := result, buildingBackend := false }

def HttpCache.getBackendForTransaction (t : Trans) (cache : HttpCache) : HttpCache :=
  if cache.diskCache || !cache.buildingBackend then cache
  else
    match cache.backendOp with
    | none => cache
    | some op =>
      { cache.wait t with backendOp := some { op with
          pendingQueue := op.pendingQueue ++ [⟨.createBackend, some t, false, false⟩] } }

def HttpCache.onBackendCreated (result : Bool) (cache : HttpCache) : HttpCache :=
  HttpCache.push .onBackendCreated { cache with
    backendFactory := false
    diskCache := cache.diskCache || result }

def ActiveEntry.removePendingTransaction (t : Trans) (entry : ActiveEntry) : Option ActiveEntry :=
  if t ∈ entry.pendingQueue then some { entry with pendingQueue := entry.pendingQueue.erase t }
  else none

def PendingOp.removePendingTransaction (t : Trans) (op : PendingOp) : Option PendingOp :=
  if op.writer.trans = some t then
    some { op with writer := { op.writer with trans := none, entry := false } }
  else
    match op.pendingQueue.find? (·.trans = some t) with
    | some item => some { op with pendingQueue := op.pendingQueue.erase item }
    | none => none

def HttpCache.removeFromEntry (t : Trans) (e : EntryId) (cache : HttpCache) : Option HttpCache := do
  let entry ← cache.entries e
  let entry ← entry.removePendingTransaction t
  return cache.setEntry e entry

def HttpCache.removePendingTransaction (t : Trans) (cache : HttpCache) : Option HttpCache :=
  let key := (cache.trans t).key
  ((cache.activeEntries key).bind fun e => cache.removeFromEntry t e) <|>
  (if cache.buildingBackend then do
      let op ← cache.backendOp
      let op ← op.removePendingTransaction t
      return { cache with backendOp := some op }
    else none) <|>
  (do
    let op ← cache.pendingOps key
    let op ← op.removePendingTransaction t
    return cache.setOp key (some op)) <|>
  cache.doomedEntries.findSome? fun e => cache.removeFromEntry t e

inductive Event
  | setup (t : Trans) (key : String) (writes : Bool)
  | createBackend (callback : Bool) (rv : Option Bool)
  | getBackend (t : Trans)
  | openEntry (t : Trans) (rv : Option Bool)
  | createEntry (t : Trans) (rv : Option Bool)
  | doomEntry (key : String) (t : Option Trans) (rv : Option Bool)
  | doneWriting (t : Trans) (success : Bool)
  | doneReading (t : Trans)
  | doneWithEntry (t : Trans) (success : Bool)
  | convert (t : Trans)
  | destroy (t : Trans) (success : Bool)
  | complete (key : String) (result : Bool)
  | backendCreated (result : Bool)
  | processPendingQueue (e : EntryId)
  | resume

def HttpCache.release (t : Trans) (done : EntryId → ActiveEntry → HttpCache → HttpCache)
    (cache : HttpCache) : HttpCache :=
  match (cache.trans t).entry with
  | none => cache
  | some e =>
    match cache.entries e with
    | none => cache
    | some entry => done e entry (cache.setTrans t { cache.trans t with entry := none })

/-- `ConvertWriterToReader`, and the new mode. -/
def HttpCache.convert (t : Trans) (cache : HttpCache) : HttpCache :=
  match (cache.trans t).entry with
  | none => cache
  | some e =>
    match cache.entries e with
    | none => cache
    | some entry =>
      (cache.setTrans t { cache.trans t with writes := false }).convertWriterToReader t e entry

def HttpCache.destroy (t : Trans) (success : Bool) (cache : HttpCache) : HttpCache :=
  let gone := fun (cache : HttpCache) =>
    cache.setTrans t { cache.trans t with cachePending := false, destroyed := true }
  if (cache.trans t).entry.isSome then
    gone (cache.release t fun e entry cache => cache.doneWithEntry t e entry success)
  else if (cache.trans t).cachePending then
    match cache.removePendingTransaction t with
    | some removed => gone (removed.note (.removed t true))
    | none => gone (cache.note (.removed t false))
  else gone cache

def HttpCache.resume (cache : HttpCache) : HttpCache :=
  match cache.frames with
  | [] => cache
  | .onIOComplete result op key failRequests (item :: items) :: frames =>
    let (notice, failRequests) := cache.nextNotice result op key failRequests item
    (HttpCache.push (.onIOComplete result op key failRequests items) { cache with frames }).notifyTransaction
      item.trans notice
  | .doneWriting (t :: pendingQueue) :: frames =>
    (HttpCache.push (.doneWriting pendingQueue) { cache with frames }).notifyTransaction (some t) .failed
  | .onBackendCreated :: frames =>
    match cache.backendOp with
    | some ⟨writer, item :: items⟩ =>
      HttpCache.notifyTransaction item.trans .failed { cache with backendOp := some ⟨writer, items⟩ }
    | _ => { cache with frames, backendOp := none, buildingBackend := false }
  | _ :: frames => { cache with frames }

def Event.run (cache : HttpCache) : Event → HttpCache
  | setup t key writes => cache.setTrans t { cache.trans t with key, writes }
  | createBackend callback rv => cache.createBackend callback rv
  | getBackend t => cache.getBackendForTransaction t
  | openEntry t rv => cache.openEntry t rv
  | createEntry t rv => cache.createEntry t rv
  | doomEntry key t rv => cache.doomEntry key t rv
  | doneWriting t success => cache.release t fun e entry cache =>
      cache.doneWritingToEntry e entry success
  | doneReading t => cache.release t fun e entry cache => cache.doneReadingFromEntry t e entry
  | doneWithEntry t success => cache.release t fun e entry cache =>
      cache.doneWithEntry t e entry success
  | convert t => cache.convert t
  | destroy t success => cache.destroy t success
  | complete key result =>
    match cache.pendingOps key with
    | some op => (cache.onIOComplete result key op).1
    | none => cache
  | backendCreated result => cache.onBackendCreated result
  | processPendingQueue e => cache.onProcessPendingQueue e
  | resume => cache.resume

def Transaction.Idle (trans : Transaction) : Prop :=
  trans.cachePending = false ∧ trans.entry = none ∧ trans.destroyed = false

/-- What the callers keep to: a transaction has one outstanding request, and ends the access that it
has. The message loop runs completions and tasks when nothing is notifying, and the backend creates no
entry that it has. -/
def Event.Allowed (cache : HttpCache) : Event → Prop
  | setup t _ _ => (cache.trans t).Idle
  | createBackend _ _ => cache.diskCache = false
  | getBackend t => (cache.trans t).Idle
  | openEntry t _ => (cache.trans t).Idle
  | createEntry t rv =>
    (cache.trans t).Idle ∧ (rv = some true → cache.onDisk (cache.trans t).key = false)
  | doomEntry key t _ => ∀ t', t = some t' → (cache.trans t').Idle ∧ (cache.trans t').key = key
  | doneWriting t _ => (cache.trans t).entry ≠ none ∧ (cache.trans t).writes = true
  | doneReading t => (cache.trans t).entry ≠ none ∧ (cache.trans t).writes = false
  | doneWithEntry t _ => (cache.trans t).entry ≠ none
  | convert t => (cache.trans t).entry ≠ none ∧ (cache.trans t).writes = true
  | destroy t _ => (cache.trans t).destroyed = false
  | complete key result => cache.frames = [] ∧ ∃ op, cache.pendingOps key = some op ∧
      (result = true → op.writer.operation = .createEntry → cache.onDisk key = false)
  | backendCreated _ => cache.frames = [] ∧ cache.backendOp ≠ none
  | processPendingQueue e => cache.frames = [] ∧ e ∈ cache.tasks
  | resume => cache.frames ≠ []

def Frame.trans : Frame → List Trans
  | onIOComplete _ _ _ _ pendingItems => pendingItems.filterMap (·.trans)
  | doneWriting pendingQueue => pendingQueue
  | onBackendCreated => []

def HttpCache.listed (cache : HttpCache) : List Trans := cache.frames.flatMap Frame.trans

def HttpCache.new : HttpCache where
  backendFactory := true
  entries _ := none
  nextEntry := 0
  activeEntries _ := none
  doomedEntries := []
  pendingOps _ := none
  backendOp := none
  buildingBackend := false
  diskCache := false
  onDisk _ := false
  tasks := []
  frames := []
  trans _ := ⟨"", false, false, none, false, 0⟩
  arrivals := 0
  notes := []

inductive CacheRun (meets : HttpCache → Event → Prop) : HttpCache → Prop
  | new : CacheRun meets .new
  | event {cache : HttpCache} {event : Event} (run : CacheRun meets cache)
      (allowed : event.Allowed cache) (met : meets cache event) : CacheRun meets (event.run cache)

end Glopen.Http

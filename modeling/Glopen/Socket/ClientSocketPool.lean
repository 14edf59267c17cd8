import Glopen.Lib.RefMap

/-! The state of ClientSocketPoolBaseHelper in client_socket_pool_base.cc, and the functions that
its events are made of. A `Group&` is a reference into `group_map_`. -/
namespace Glopen.Socket

open RefMap

abbrev GroupName := List UInt8

inductive RequestPriority
  | highest | medium | low | lowest
deriving DecidableEq

def RequestPriority.value : RequestPriority → Nat
  | highest => 0
  | medium => 1
  | low => 2
  | lowest => 3

structure Request where
  handle : Nat
  priority : RequestPriority
  serial : Nat
deriving DecidableEq

structure IdleSocket where
  socket : Nat
  used : Bool
deriving DecidableEq

/-- `idleSockets` has the back of the deque first. Jobs and tasks are known by their addresses. -/
structure Group where
  idleSockets : List IdleSocket
  jobs : List Nat
  pendingRequests : List Request
  activeSocketCount : Int
  backupJob : Option Nat
  backupTask : Option Nat
deriving DecidableEq

def Group.new : Group := ⟨[], [], [], 0, none, none⟩

def Group.isEmpty (group : Group) : Bool :=
  group.activeSocketCount = 0 && group.idleSockets.isEmpty && group.jobs.isEmpty &&
    group.pendingRequests.isEmpty

def Group.hasAvailableSocketSlot (maxSocketsPerGroup : Int) (group : Group) : Bool :=
  group.activeSocketCount + group.jobs.length < maxSocketsPerGroup

structure HandOut where
  request : Request
  socket : Nat
  reused : Bool
  poolId : Int
  pending : List Request
deriving DecidableEq

/-- A posted `ProcessPendingRequest`. -/
structure Task where
  groupName : GroupName
  wasAtSocketLimit : Bool
deriving DecidableEq

/-- The pool, the tasks that it has posted, and what it has handed out. `timers` are the posted
backup tasks that were not cancelled. -/
structure Pool where
  groupMap : List (Node GroupName Group)
  idleSocketCount : Int
  connectingSocketCount : Int
  handedOutSocketCount : Int
  maxSockets : Int
  maxSocketsPerGroup : Int
  backupJobsEnabled : Bool
  poolGenerationNumber : Int
  lastStalledGroupCount : Int
  tasks : List Task
  timers : List (Nat × GroupName)
  nextGroup : Nat
  nextTimer : Nat
  issued : Nat
  handOuts : List HandOut
deriving DecidableEq

def Pool.new (maxSockets maxSocketsPerGroup : Int) : Pool :=
  ⟨[], 0, 0, 0, maxSockets, maxSocketsPerGroup, false, 0, 0, [], [], 0, 0, 0, []⟩

/-- `CHECK` fails, or a `Group` is used that was erased. -/
inductive Fault
  | check
  | erased
deriving DecidableEq

inductive Completion
  | ok (socket : Nat)
  | error (netError : Int) (socket : Option Nat)
deriving DecidableEq

inductive Result
  | ok
  | ioPending
  | error (netError : Int)
deriving DecidableEq

/-- What sockets, jobs and the allocator answer during an event. `Connect()` of a job gives
nothing where it is pending. -/
structure World where
  isConnectedAndIdle : Nat → Bool
  isConnected : Nat → Bool
  timedOut : IdleSocket → Bool
  resolvingHost : Nat → Bool
  connect : Nat → Option Completion
  newJob : Nat
  newBackupJob : Nat

/-- `group_map_.find(group_name)`. -/
def Pool.find (pool : Pool) (groupName : GroupName) : Option Nat := RefMap.find pool.groupMap groupName

/-- `group_map_[group_name]`. -/
def Pool.subscript (pool : Pool) (groupName : GroupName) : Pool × Nat :=
  match pool.find groupName with
  | some group => (pool, group)
  | none =>
    ({ pool with
      groupMap := RefMap.insert ⟨groupName, pool.nextGroup, Group.new⟩ pool.groupMap
      nextGroup := pool.nextGroup + 1 }, pool.nextGroup)

def Pool.read (pool : Pool) (group : Nat) : Except Fault Group :=
  match deref pool.groupMap group with
  | some value => .ok value
  | none => .error .erased

def Pool.write (pool : Pool) (group : Nat) (value : Group) : Except Fault Pool :=
  match deref pool.groupMap group with
  | some _ => .ok { pool with groupMap := store pool.groupMap group value }
  | none => .error .erased

def Pool.cancel (pool : Pool) (backupTask : Option Nat) : Pool :=
  { pool with timers := pool.timers.filter fun timer => some timer.1 ≠ backupTask }

def Pool.erase (pool : Pool) (group : Nat) : Pool :=
  match deref pool.groupMap group with
  | some value =>
    { pool.cancel value.backupTask with groupMap := remove pool.groupMap group }
  | none => pool

def Pool.eraseName (pool : Pool) (groupName : GroupName) : Pool :=
  match pool.find groupName with
  | some group => pool.erase group
  | none => pool

def Pool.reachedMaxSocketsLimit (pool : Pool) : Bool :=
  pool.maxSockets ≤ pool.handedOutSocketCount + pool.connectingSocketCount + pool.idleSocketCount

def Pool.decrementIdleCount (pool : Pool) : Pool :=
  { pool with idleSocketCount := pool.idleSocketCount - 1 }

def insertRequestIntoQueue (r : Request) : List Request → List Request
  | [] => [r]
  | it :: pendingRequests =>
    if it.priority.value ≤ r.priority.value then it :: insertRequestIntoQueue r pendingRequests
    else r :: it :: pendingRequests

def cleanupBackupJob (group : Nat) (pool : Pool) : Except Fault Pool := do
  let g ← pool.read group
  (pool.cancel g.backupTask).write group { g with backupJob := none, backupTask := none }

def removeConnectJob (job group : Nat) (pool : Pool) : Except Fault Pool :=
  if pool.connectingSocketCount ≤ 0 then .error .check
  else do
    let pool := { pool with connectingSocketCount := pool.connectingSocketCount - 1 }
    let g ← pool.read group
    let pool ← pool.write group { g with jobs := g.jobs.erase job }
    if g.jobs.erase job = [] then cleanupBackupJob group pool else .ok pool

def handOutSocket (socket : Nat) (reused : Bool) (request : Request) (group : Nat) (pool : Pool) :
    Except Fault Pool := do
  let g ← pool.read group
  let pool := { pool with
    handedOutSocketCount := pool.handedOutSocketCount + 1
    handOuts :=
      ⟨request, socket, reused, pool.poolGenerationNumber, g.pendingRequests⟩ :: pool.handOuts }
  pool.write group { g with activeSocketCount := g.activeSocketCount + 1 }

def addIdleSocket (socket : Nat) (used : Bool) (group : Nat) (pool : Pool) : Except Fault Pool := do
  let g ← pool.read group
  let pool ← pool.write group { g with idleSockets := ⟨socket, used⟩ :: g.idleSockets }
  .ok { pool with idleSocketCount := pool.idleSocketCount + 1 }

def onAvailableSocketSlot (groupName : GroupName) (wasAtSocketLimit : Bool) (pool : Pool) : Pool :=
  { pool with tasks := pool.tasks ++ [⟨groupName, wasAtSocketLimit⟩] }

def mayHaveStalledGroups (pool : Pool) : Bool :=
  0 < pool.lastStalledGroupCount || pool.reachedMaxSocketsLimit

/-- The group that `CloseOneIdleSocket` takes a socket from. -/
def firstIdle (nodes : List (Node GroupName Group)) : Option (Node GroupName Group) :=
  nodes.find? fun node => !node.value.idleSockets.isEmpty

def closeOneIdleSocket (pool : Pool) : Except Fault Pool :=
  if pool.idleSocketCount ≤ 0 then .error .check
  else
    match firstIdle pool.groupMap with
    | none => .ok pool
    | some node => do
      let g ← pool.read node.ref
      let pool ← pool.write node.ref { g with idleSockets := g.idleSockets.dropLast }
      let pool := pool.decrementIdleCount
      let g ← pool.read node.ref
      .ok (if g.isEmpty then pool.erase node.ref else pool)

def IdleSocket.shouldCleanup (world : World) (idleSocket : IdleSocket) : Bool :=
  world.timedOut idleSocket || !(if idleSocket.used then world.isConnectedAndIdle idleSocket.socket
      else world.isConnected idleSocket.socket)

/-- `CleanupIdleSockets` for one group. -/
def cleanupGroup (force : Bool) (world : World) (pool : Pool) (node : Node GroupName Group) :
    Except Fault Pool := do
  let g ← pool.read node.ref
  let kept := g.idleSockets.filter fun j => !(force || j.shouldCleanup world)
  let pool ← pool.write node.ref { g with idleSockets := kept }
  let pool := { pool with
    idleSocketCount := pool.idleSocketCount - (g.idleSockets.length - kept.length) }
  let g ← pool.read node.ref
  .ok (if g.isEmpty then pool.erase node.ref else pool)

def cleanupIdleSockets (force : Bool) (world : World) (pool : Pool) : Except Fault Pool :=
  if pool.idleSocketCount = 0 then .ok pool
  else pool.groupMap.foldlM (cleanupGroup force world) pool

def closeIdleSockets (world : World) (pool : Pool) : Except Fault Pool :=
  cleanupIdleSockets true world pool

def Group.hasUnusedSlot (maxSocketsPerGroup : Int) (group : Group) : Bool :=
  group.hasAvailableSocketSlot maxSocketsPerGroup && group.jobs.length < group.pendingRequests.length

def Group.topPendingPriority (group : Group) : Nat :=
  match group.pendingRequests with
  | [] => 0
  | r :: _ => r.priority.value

def topStalled (maxSocketsPerGroup : Int) (found : Int × Option (Node GroupName Group))
    (node : Node GroupName Group) : Int × Option (Node GroupName Group) :=
  if node.value.pendingRequests.isEmpty then found
  else if node.value.hasUnusedSlot maxSocketsPerGroup then
    (found.1 + 1,
      match found.2 with
      | none => some node
      | some top =>
        if node.value.topPendingPriority < top.value.topPendingPriority then some node
        else some top)
  else found

def findTopStalledGroup (pool : Pool) : Int × GroupName :=
  let found := pool.groupMap.foldl (topStalled pool.maxSocketsPerGroup) (0, none)
  (found.1, (found.2.map Node.key).getD [])

def checkForStalledSocketGroups (pool : Pool) : Except Fault Pool :=
  let (stalledGroupCount, topGroupName) := findTopStalledGroup pool
  let pool := { pool with lastStalledGroupCount := stalledGroupCount }
  if stalledGroupCount = 0 then .ok pool
  else if pool.reachedMaxSocketsLimit then
    if 0 < pool.idleSocketCount then do
      let pool ← closeOneIdleSocket pool
      .ok (onAvailableSocketSlot topGroupName false pool)
    else .ok pool
  else .ok (onAvailableSocketSlot topGroupName false pool)

/-- The loop of `AssignIdleSocketToGroup`. -/
def assignIdleSocket (world : World) (group : Nat) (request : Request) :
    List IdleSocket → Pool → Except Fault (Pool × Bool)
  | [], pool => .ok (pool, false)
  | idleSocket :: idleSockets, pool => do
    let g ← pool.read group
    let pool ← pool.write group { g with idleSockets := idleSockets }
    let pool := pool.decrementIdleCount
    if world.isConnectedAndIdle idleSocket.socket then do
      let pool ← handOutSocket idleSocket.socket idleSocket.used request group pool
      .ok (pool, true)
    else assignIdleSocket world group request idleSockets pool

def assignIdleSocketToGroup (world : World) (group : Nat) (request : Request) (pool : Pool) :
    Except Fault (Pool × Bool) := do
  let g ← pool.read group
  assignIdleSocket world group request g.idleSockets pool

def startBackupSocketTimer (groupName : GroupName) (pool : Pool) : Except Fault Pool :=
  match pool.find groupName with
  | none => .error .check
  | some group => do
    let g ← pool.read group
    if g.backupTask.isSome then .ok pool
    else do
      let pool ← pool.write group { g with backupTask := some pool.nextTimer }
      .ok { pool with
        timers := pool.timers ++ [(pool.nextTimer, groupName)]
        nextTimer := pool.nextTimer + 1 }

def startBackup (world : World) (groupName : GroupName) (group : Nat) (pool : Pool) :
    Except Fault Pool := do
  let g ← pool.read group
  if g.isEmpty && g.backupJob.isNone && pool.backupJobsEnabled then do
    let pool ← pool.write group { g with backupJob := some world.newBackupJob }
    startBackupSocketTimer groupName pool
  else .ok pool

/-- The part of `RequestSocketInternal` that connects a new socket. -/
def connectSocket (world : World) (groupName : GroupName) (group : Nat) (request : Request)
    (pool : Pool) : Except Fault (Pool × Result) :=
  match world.connect world.newJob with
  | some (.ok socket) => do
    let pool ← handOutSocket socket false request group pool
    .ok (pool, .ok)
  | none => do
    let pool ← startBackup world groupName group pool
    let pool := { pool with connectingSocketCount := pool.connectingSocketCount + 1 }
    let g ← pool.read group
    let pool ← pool.write group { g with jobs := world.newJob :: g.jobs }
    .ok (pool, .ioPending)
  | some (.error netError errorSocket) => do
    let pool ←
      match errorSocket with
      | some socket => handOutSocket socket false request group pool
      | none => .ok pool
    let g ← pool.read group
    .ok (if g.isEmpty then pool.eraseName groupName else pool, .error netError)

def requestSocketInternal (world : World) (groupName : GroupName) (request : Request)
    (pool : Pool) : Except Fault (Pool × Result) := do
  let (pool, group) := pool.subscript groupName
  let (pool, assigned) ← assignIdleSocketToGroup world group request pool
  if assigned then .ok (pool, .ok)
  else do
    let g ← pool.read group
    if !g.hasAvailableSocketSlot pool.maxSocketsPerGroup then .ok (pool, .ioPending)
    else if pool.reachedMaxSocketsLimit then
      if 0 < pool.idleSocketCount then do
        let pool ← closeOneIdleSocket pool
        connectSocket world groupName group request pool
      else .ok (pool, .ioPending)
    else connectSocket world groupName group request pool

end Glopen.Socket

import Glopen.Socket.ClientSocketPool

/-! The events of the pool. A completion callback may call the pool again, so an event that runs
one stops there and is continued when the callback returns. -/
namespace Glopen.Socket

open RefMap

inductive Continuation
  | connectJobComplete (groupName : GroupName) (handedOutSocket : Bool)
  | processPendingRequest (groupName : GroupName) (group : Nat) (wasAtSocketLimit : Bool)
deriving DecidableEq

def requestSocket (world : World) (groupName : GroupName) (handle : Nat)
    (priority : RequestPriority) (pool : Pool) : Except Fault Pool := do
  let request : Request := ⟨handle, priority, pool.issued⟩
  let (pool, group) := { pool with issued := pool.issued + 1 }.subscript groupName
  let (pool, rv) ← requestSocketInternal world groupName request pool
  if rv ≠ .ioPending then .ok pool
  else do
    let g ← pool.read group
    pool.write group { g with pendingRequests := insertRequestIntoQueue request g.pendingRequests }

def onConnectJobComplete (groupName : GroupName) (job : Nat) (result : Completion) (pool : Pool) :
    Except Fault (Pool × Option Continuation) :=
  match pool.find groupName with
  | none => .error .check
  | some group =>
    match result with
    | .ok socket => do
      let pool ← removeConnectJob job group pool
      let g ← pool.read group
      match g.pendingRequests with
      | r :: pendingRequests => do
        let pool ← pool.write group { g with pendingRequests := pendingRequests }
        let pool ← handOutSocket socket false r group pool
        .ok (pool, some (.connectJobComplete groupName true))
      | [] => do
        let pool ← addIdleSocket socket false group pool
        .ok (onAvailableSocketSlot groupName (mayHaveStalledGroups pool) pool, none)
    | .error _ socket => do
      let g ← pool.read group
      match g.pendingRequests with
      | r :: pendingRequests => do
        let pool ← pool.write group { g with pendingRequests := pendingRequests }
        let pool ← removeConnectJob job group pool
        match socket with
        | some socket => do
          let pool ← handOutSocket socket false r group pool
          .ok (pool, some (.connectJobComplete groupName true))
        | none => .ok (pool, some (.connectJobComplete groupName false))
      | [] => do
        let pool ← removeConnectJob job group pool
        .ok (onAvailableSocketSlot groupName (mayHaveStalledGroups pool) pool, none)

def onBackupSocketTimerFired (world : World) (groupName : GroupName) (pool : Pool) :
    Except Fault (Pool × Option Continuation) :=
  match pool.find groupName with
  | none => .error .check
  | some group => do
    let g ← pool.read group
    if g.backupTask.isNone then .error .check
    else do
      let pool ← pool.write group { g with backupTask := none }
      match g.backupJob with
      | none => .error .check
      | some backupJob =>
        if g.jobs.isEmpty then .ok (pool, none)
        else if pool.reachedMaxSocketsLimit || !g.hasAvailableSocketSlot pool.maxSocketsPerGroup ||
            world.resolvingHost (g.jobs.min?.getD 0) then do
          let pool ← startBackupSocketTimer groupName pool
          .ok (pool, none)
        else do
          let pool := { pool with connectingSocketCount := pool.connectingSocketCount + 1 }
          let g ← pool.read group
          let pool ← pool.write group { g with jobs := backupJob :: g.jobs, backupJob := none }
          match world.connect backupJob with
          | none => .ok (pool, none)
          | some result => onConnectJobComplete groupName backupJob result pool

def cancelRequest (groupName : GroupName) (handle : Nat) (pool : Pool) : Except Fault Pool :=
  match pool.find groupName with
  | none => .error .check
  | some group => do
    let g ← pool.read group
    match g.pendingRequests.findIdx? fun r => r.handle = handle with
    | none => .ok pool
    | some i => do
      let pool ← pool.write group { g with pendingRequests := g.pendingRequests.eraseIdx i }
      if !g.jobs.isEmpty && pool.reachedMaxSocketsLimit then do
        let pool ← removeConnectJob (g.jobs.min?.getD 0) group pool
        checkForStalledSocketGroups pool
      else .ok pool

def releaseSocket (world : World) (groupName : GroupName) (socket : Nat) (id : Int) (pool : Pool) :
    Except Fault Pool :=
  match pool.find groupName with
  | none => .error .check
  | some group =>
    if pool.handedOutSocketCount ≤ 0 then .error .check
    else do
      let pool := { pool with handedOutSocketCount := pool.handedOutSocketCount - 1 }
      let g ← pool.read group
      if g.activeSocketCount ≤ (0 : Int) then .error .check
      else do
        let pool ← pool.write group { g with activeSocketCount := g.activeSocketCount - 1 }
        let pool ←
          if world.isConnectedAndIdle socket && id = pool.poolGenerationNumber then do
            let pool ← addIdleSocket socket true group pool
            .ok (onAvailableSocketSlot groupName (mayHaveStalledGroups pool) pool)
          else .ok pool
        checkForStalledSocketGroups pool

/-- `CancelAllConnectJobs` for one group. -/
def cancelConnectJobs (pool : Pool) (node : Node GroupName Group) : Except Fault Pool := do
  let g ← pool.read node.ref
  let pool := { pool with connectingSocketCount := pool.connectingSocketCount - g.jobs.length }
  let pool ← (pool.cancel g.backupTask).write node.ref { g with jobs := [], backupTask := none }
  let g ← pool.read node.ref
  .ok (if g.isEmpty then pool.erase node.ref else pool)

def cancelAllConnectJobs (pool : Pool) : Except Fault Pool :=
  pool.groupMap.foldlM cancelConnectJobs pool

def flush (world : World) (pool : Pool) : Except Fault Pool := do
  let pool := { pool with poolGenerationNumber := pool.poolGenerationNumber + 1 }
  let pool ← cancelAllConnectJobs pool
  closeIdleSockets world pool

/-- The end of `ProcessPendingRequest`. -/
def checkIfAtSocketLimit (wasAtSocketLimit : Bool) (pool : Pool) : Except Fault Pool :=
  if wasAtSocketLimit then checkForStalledSocketGroups pool else .ok pool

/-- `ProcessPendingRequest` behind its callback. -/
def afterRequest (groupName : GroupName) (group : Nat) (wasAtSocketLimit : Bool) (pool : Pool) :
    Except Fault Pool := do
  let g ← pool.read group
  checkIfAtSocketLimit wasAtSocketLimit (if g.isEmpty then pool.eraseName groupName else pool)

def processPendingRequest (world : World) (groupName : GroupName) (wasAtSocketLimit : Bool)
    (pool : Pool) : Except Fault (Pool × Option Continuation) :=
  match pool.find groupName with
  | none => do
    let pool ← checkIfAtSocketLimit wasAtSocketLimit pool
    .ok (pool, none)
  | some group => do
    let g ← pool.read group
    match g.pendingRequests with
    | [] => do
      let pool ← checkIfAtSocketLimit wasAtSocketLimit pool
      .ok (pool, none)
    | request :: _ => do
      let (pool, rv) ← requestSocketInternal world groupName request pool
      if rv ≠ .ioPending then do
        let g ← pool.read group
        let pool ← pool.write group { g with pendingRequests := g.pendingRequests.tail }
        .ok (pool, some (.processPendingRequest groupName group wasAtSocketLimit))
      else do
        let pool ← afterRequest groupName group wasAtSocketLimit pool
        .ok (pool, none)

def returnFromCallback (continuation : Continuation) (pool : Pool) : Except Fault Pool :=
  match continuation with
  | .connectJobComplete groupName handedOutSocket =>
    if handedOutSocket then .ok pool
    else .ok (onAvailableSocketSlot groupName (mayHaveStalledGroups pool) pool)
  | .processPendingRequest groupName group wasAtSocketLimit =>
    afterRequest groupName group wasAtSocketLimit pool

inductive Event
  | requestSocket (groupName : GroupName) (handle : Nat) (priority : RequestPriority)
  | cancelRequest (groupName : GroupName) (handle : Nat)
  | releaseSocket (groupName : GroupName) (socket : Nat) (id : Int)
  | flush
  | closeIdleSockets
  | enableBackupJobs
  | connectJobComplete (groupName : GroupName) (job : Nat) (result : Completion)
  | backupSocketTimer (groupName : GroupName) (timer : Nat)
  | cleanupTimer
  | processPendingRequest (index : Nat)
  | callbackReturns
deriving DecidableEq

structure State where
  pool : Pool
  running : Option Continuation
deriving DecidableEq

def State.new (maxSockets maxSocketsPerGroup : Int) : State :=
  ⟨Pool.new maxSockets maxSocketsPerGroup, none⟩

def Pool.connecting (pool : Pool) (groupName : GroupName) (job : Nat) : Bool :=
  pool.groupMap.any fun node => node.key = groupName && node.value.jobs.contains job

def State.enabled (state : State) : Event → Bool
  | .connectJobComplete groupName job _ =>
    state.running.isNone && state.pool.connecting groupName job
  | .backupSocketTimer groupName timer =>
    state.running.isNone && state.pool.timers.contains (timer, groupName)
  | .cleanupTimer => state.running.isNone
  | .processPendingRequest index => state.running.isNone && index < state.pool.tasks.length
  | .callbackReturns => state.running.isSome
  | _ => true

def handle (world : World) (event : Event) (state : State) : Except Fault (Pool × Option Continuation) :=
  let pool := state.pool
  let called (called : Except Fault Pool) : Except Fault (Pool × Option Continuation) := do
    let pool ← called
    .ok (pool, state.running)
  match event with
  | .requestSocket groupName handle priority =>
    called (requestSocket world groupName handle priority pool)
  | .cancelRequest groupName handle => called (cancelRequest groupName handle pool)
  | .releaseSocket groupName socket id => called (releaseSocket world groupName socket id pool)
  | .flush => called (flush world pool)
  | .closeIdleSockets => called (closeIdleSockets world pool)
  | .enableBackupJobs => called (.ok { pool with backupJobsEnabled := true })
  | .connectJobComplete groupName job result => onConnectJobComplete groupName job result pool
  | .backupSocketTimer groupName timer =>
    onBackupSocketTimerFired world groupName
      { pool with timers := pool.timers.filter (· ≠ (timer, groupName)) }
  | .cleanupTimer => called (cleanupIdleSockets false world pool)
  | .processPendingRequest index =>
    match pool.tasks[index]? with
    | none => .ok (pool, none)
    | some task =>
      processPendingRequest world task.groupName task.wasAtSocketLimit
        { pool with tasks := pool.tasks.eraseIdx index }
  | .callbackReturns =>
    match state.running with
    | none => .ok (pool, none)
    | some continuation => do
      let pool ← returnFromCallback continuation pool
      .ok (pool, none)

def step (world : World) (event : Event) (state : State) : Except Fault State := do
  let (pool, running) ← handle world event state
  .ok ⟨pool, running⟩

end Glopen.Socket

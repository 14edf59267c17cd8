import Glopen.Socket.Groups

/-! What comes of a request. No function of the pool uses an erased group on the way. -/
namespace Glopen.Socket

open RefMap List
variable {g : Group} {pool : Pool}

theorem changed_self (distinct : Distinct pool.groupMap) {groupName : GroupName}
    {ref : Nat} (member : ⟨groupName, ref, g⟩ ∈ pool.groupMap) : pool.changed ref g g = pool := by
  rw [Pool.changed, distinct.store_self member, if_pos rfl]
  have count : ∀ a b : Int, a - b + b = a := fun a b => by omega
  rw [count, count, count]

theorem drop_changed {pool : Pool} (distinct : Distinct pool.groupMap) {groupName : GroupName}
    {ref : Nat} {g : Group} (member : ⟨groupName, ref, g⟩ ∈ pool.groupMap)
    (idleSockets : List IdleSocket) {dropped : Int}
    (fewer : (idleSockets.length : Int) = g.idleSockets.length - dropped) :
    pool.write ref { g with idleSockets := idleSockets } =
        .ok { pool with groupMap := store pool.groupMap ref { g with idleSockets := idleSockets } } ∧
      { pool with
        groupMap := store pool.groupMap ref { g with idleSockets := idleSockets }
        idleSocketCount := pool.idleSocketCount - dropped } =
        pool.changed ref g { g with idleSockets := idleSockets } := by
  refine ⟨write_of distinct member _, ?_⟩
  rw [Pool.changed, Pool.mk.injEq]
  refine ⟨rfl, ?_, ?_, ?_, rfl, rfl, rfl, rfl, rfl, rfl, (if_pos rfl).symm, rfl, rfl, rfl, rfl⟩
  · simp only
    omega
  · simp only
    omega
  · simp only
    omega

section Assign

variable (world : World) {groupName : GroupName} (ref : Nat) (request : Request)

/-- The loop over the idle sockets takes the first one that is connected, and drops the ones
before it. -/
inductive Assigned (pool : Pool) (g : Group) : Pool × Bool → Prop
  | reused (dead : List IdleSocket) (idleSocket : IdleSocket) (rest : List IdleSocket)
      (split : g.idleSockets = dead ++ idleSocket :: rest)
      (live : world.isConnectedAndIdle idleSocket.socket = true) :
      Assigned pool g ({ pool.changed ref g { g with
          idleSockets := rest
          activeSocketCount := g.activeSocketCount + 1 } with
        handOuts := ⟨request, idleSocket.socket, idleSocket.used, pool.poolGenerationNumber,
          g.pendingRequests⟩ :: pool.handOuts }, true)
  | noneLeft (dead : ∀ idleSocket ∈ g.idleSockets, world.isConnectedAndIdle idleSocket.socket = false) :
      Assigned pool g (pool.changed ref g { g with idleSockets := [] }, false)

theorem assignIdleSocket_of {pool : Pool} (distinct : Distinct pool.groupMap) {g : Group}
    (member : ⟨groupName, ref, g⟩ ∈ pool.groupMap) :
    ∃ result, assignIdleSocket world ref request g.idleSockets pool = .ok result ∧
      Assigned world ref request pool g result := by
  generalize idle : g.idleSockets = idleSockets
  induction idleSockets generalizing pool g with
  | nil =>
    refine ⟨_, rfl, ?_⟩
    have same : { g with idleSockets := [] } = g := by rw [← idle]
    have none_left := @Assigned.noneLeft world ref request pool g (fun s inside => by
      rw [idle] at inside
      cases inside)
    rw [same, changed_self distinct member] at none_left
    exact none_left
  | cons idleSocket rest ih =>
    have fewer : (rest.length : Int) = g.idleSockets.length - 1 := by
      rw [idle, length_cons]
      omega
    obtain ⟨write, dropped⟩ := drop_changed distinct member rest fewer
    have distinct' := changed_distinct distinct ref g { g with idleSockets := rest }
    have member' := changed_member member { g with idleSockets := rest }
    have again : ∀ new : Group, (pool.changed ref g { g with idleSockets := rest }).changed ref
          { g with idleSockets := rest } new = pool.changed ref g new :=
      fun new => changed_changed pool ref (Or.inl rfl)
    simp only [assignIdleSocket, read_of distinct member, write, ok_bind, Pool.decrementIdleCount, dropped]
    cases live : world.isConnectedAndIdle idleSocket.socket with
    | true =>
      simp only [if_true, handOutSocket_of distinct' member', ok_bind]
      refine ⟨_, rfl, ?_⟩
      have reused := @Assigned.reused world ref request pool g [] idleSocket rest idle live
      rw [again]
      exact reused
    | false =>
      simp only [Bool.false_eq_true, if_false]
      obtain ⟨result, ran, assigned⟩ := ih distinct' member' rfl
      refine ⟨result, ran, ?_⟩
      cases assigned with
      | reused dead later rest' split live' =>
        rw [again]
        exact .reused (idleSocket :: dead) later rest'
          (by rw [idle]; exact congrArg (idleSocket :: ·) split) live'
      | noneLeft dead =>
        rw [again]
        refine .noneLeft fun other inside => ?_
        rw [idle, mem_cons] at inside
        rcases inside with rfl | inside
        · exact live
        · exact dead other inside

end Assign

/-- `if (group.IsEmpty()) group_map_.erase(..)`. -/
def Pool.sweep (pool : Pool) (ref : Nat) (g : Group) : Pool :=
  if g.isEmpty then pool.erase ref else pool

theorem Inv.sweep (inv : Inv pool) {groupName : GroupName} {ref : Nat}
    (member : ⟨groupName, ref, g⟩ ∈ pool.groupMap) : Inv (pool.sweep ref g) := by
  rw [Pool.sweep]
  split
  · rename_i empty
    exact inv.erase member empty
  · exact inv

section

variable {ref : Nat} {node : Node GroupName Group} (member : node ∈ pool.groupMap) (other : node.ref ≠ ref)
include member other

theorem erase_mem : node ∈ (pool.erase ref).groupMap := by
  rw [Pool.erase]
  split
  · exact mem_remove.mpr ⟨member, other⟩
  · exact member

theorem sweep_mem : node ∈ (pool.sweep ref g).groupMap := by
  rw [Pool.sweep]
  split
  · exact erase_mem member other
  · exact member

end

inductive ClosedOne (pool : Pool) : Pool → Prop
  | intro (groupName : GroupName) (ref : Nat) (g : Group)
      (first : firstIdle pool.groupMap = some ⟨groupName, ref, g⟩)
      (member : ⟨groupName, ref, g⟩ ∈ pool.groupMap) (some_idle : g.idleSockets ≠ []) :
      ClosedOne pool
        ((pool.changed ref g { g with idleSockets := g.idleSockets.dropLast }).sweep ref
          { g with idleSockets := g.idleSockets.dropLast })

theorem closeOneIdleSocket_of {pool : Pool} (inv : Inv pool) (some_idle : 0 < pool.idleSocketCount) :
    ∃ pool', closeOneIdleSocket pool = .ok pool' ∧ ClosedOne pool pool' := by
  rw [closeOneIdleSocket, if_neg (by omega)]
  cases first : firstIdle pool.groupMap with
  | none =>
    have none_idle : total (fun g : Group => (g.idleSockets.length : Int)) pool.groupMap = 0 := by
      refine total_zero fun node member => ?_
      have empty := List.find?_eq_none.mp first node member
      simp only [Bool.not_eq_true', Bool.not_eq_false, List.isEmpty_iff] at empty
      rw [empty]
      rfl
    rw [inv.idle, none_idle] at some_idle
    exact absurd some_idle (by decide)
  | some node =>
    obtain ⟨groupName, ref, g⟩ := node
    have member : ⟨groupName, ref, g⟩ ∈ pool.groupMap := List.mem_of_find?_eq_some first
    have nonempty : g.idleSockets ≠ [] := by simpa using List.find?_some first
    have fewer : ((g.idleSockets.dropLast).length : Int) = g.idleSockets.length - 1 := by
      have positive := length_pos_iff.mpr nonempty
      rw [length_dropLast]
      omega
    obtain ⟨write, dropped⟩ := drop_changed inv.distinct member g.idleSockets.dropLast fewer
    have distinct' := changed_distinct inv.distinct ref g { g with idleSockets := g.idleSockets.dropLast }
    have member' := changed_member member { g with idleSockets := g.idleSockets.dropLast }
    simp only [read_of inv.distinct member, write, ok_bind, Pool.decrementIdleCount, dropped,
      read_of distinct' member']
    exact ⟨_, rfl, .intro groupName ref g first member nonempty⟩

theorem ClosedOne.inv {pool pool' : Pool} (inv : Inv pool) (closed : ClosedOne pool pool') : Inv pool' := by
  obtain ⟨groupName, ref, g, first, member, some_idle⟩ := closed
  have sound := inv.sound member
  have limit := inv.limit
  have changed := @Inv.changed pool inv groupName ref g
    { g with idleSockets := g.idleSockets.dropLast } member ⟨sound.active, sound.backup⟩ (by
      simp only [Pool.size, Group.size, length_dropLast]
      omega)
  exact changed.sweep (changed_member member _)

section Connect

variable (world : World) {groupName : GroupName} (ref : Nat) (request : Request)

def Group.startJob (world : World) (pool : Pool) (g : Group) : Group :=
  if g.isEmpty && g.backupJob.isNone && pool.backupJobsEnabled then
    { g with
      jobs := world.newJob :: g.jobs
      backupJob := some world.newBackupJob
      backupTask := some pool.nextTimer }
  else { g with jobs := world.newJob :: g.jobs }

def Pool.startTimer (pool : Pool) (groupName : GroupName) (before after : Group) : Pool :=
  if after.backupTask = before.backupTask then pool
  else { pool with
    timers := pool.timers ++ [(pool.nextTimer, groupName)]
    nextTimer := pool.nextTimer + 1 }

@[simp] theorem startTimer_map (pool : Pool) (groupName : GroupName) (before after : Group) :
    (pool.startTimer groupName before after).groupMap = pool.groupMap := by
  rw [Pool.startTimer]
  split
  · rfl
  · rfl

theorem startTimer_changed (pool : Pool) (groupName : GroupName) (ref : Nat)
    {before after old new : Group} (same : new.backupTask = old.backupTask)
    (again : new.backupTask = after.backupTask) : (pool.startTimer groupName before after).changed ref old new =
      (pool.changed ref old new).startTimer groupName before new := by
  rw [Pool.startTimer, Pool.startTimer, again]
  split
  · rfl
  · simp only [Pool.changed, same, if_true]

variable {g : Group} {pool : Pool}

theorem startBackupSocketTimer_of (distinct : Distinct pool.groupMap) {groupName : GroupName} {ref : Nat}
    (member : ⟨groupName, ref, g⟩ ∈ pool.groupMap) (no_task : g.backupTask = none) :
    startBackupSocketTimer groupName pool =
      .ok ((pool.changed ref g { g with backupTask := some pool.nextTimer }).startTimer groupName g
        { g with backupTask := some pool.nextTimer }) := by
  have write : pool.write ref { g with backupTask := some pool.nextTimer } =
      .ok (pool.changed ref g { g with backupTask := some pool.nextTimer }) := by
    refine write_changed distinct member _ ?_ ?_ ?_ ?_ rfl
    · simp only
      omega
    · simp only
      omega
    · simp only
      omega
    · rw [no_task, if_neg (by simp)]
      exact (filter_eq_self.mpr fun timer _ => by simp).symm
  rw [startBackupSocketTimer, find_of distinct member]
  simp only [read_of distinct member, ok_bind, no_task, Option.isSome_none, Bool.false_eq_true,
    if_false, write]
  rw [Pool.startTimer, if_neg (by simp [no_task])]

inductive Connected (pool : Pool) (g : Group) : Pool × Result → Prop
  | now (socket : Nat) (connects : world.connect world.newJob = some (.ok socket)) :
      Connected pool g ({ pool.changed ref g { g with
          activeSocketCount := g.activeSocketCount + 1 } with
        handOuts := ⟨request, socket, false, pool.poolGenerationNumber, g.pendingRequests⟩ ::
          pool.handOuts }, .ok)
  | later (connects : world.connect world.newJob = none) :
      Connected pool g ((pool.changed ref g (g.startJob world pool)).startTimer groupName g
        (g.startJob world pool), .ioPending)
  | failedWith (netError : Int) (socket : Nat)
      (connects : world.connect world.newJob = some (.error netError (some socket))) :
      Connected pool g ({ pool.changed ref g { g with
          activeSocketCount := g.activeSocketCount + 1 } with
        handOuts := ⟨request, socket, false, pool.poolGenerationNumber, g.pendingRequests⟩ ::
          pool.handOuts }, .error netError)
  | failed (netError : Int)
      (connects : world.connect world.newJob = some (.error netError none)) :
      Connected pool g (pool.sweep ref g, .error netError)

theorem startJob_of (inv : Inv pool) (member : ⟨groupName, ref, g⟩ ∈ pool.groupMap) :
    ∃ mid, startBackup world groupName ref pool = .ok mid ∧ ∃ g', mid.read ref = .ok g' ∧
        Pool.write { mid with connectingSocketCount := mid.connectingSocketCount + 1 } ref
          { g' with jobs := world.newJob :: g'.jobs } =
          .ok ((pool.changed ref g (g.startJob world pool)).startTimer groupName g (g.startJob world pool)) := by
  rw [Group.startJob, startBackup, read_of inv.distinct member, ok_bind]
  split
  · rename_i first
    simp only [Bool.and_eq_true] at first
    have bare := isEmpty_iff.mp first.1.1
    have no_task : g.backupTask = none := by
      rw [← Option.not_isSome_iff_eq_none]
      intro task
      exact (inv.backup _ member task).2 bare.jobs
    have write : pool.write ref { g with backupJob := some world.newBackupJob } =
        .ok (pool.changed ref g { g with backupJob := some world.newBackupJob }) := by
      refine write_changed inv.distinct member _ ?_ ?_ ?_ (if_pos rfl).symm rfl
      · simp only
        omega
      · simp only
        omega
      · simp only
        omega
    have distinct' := changed_distinct inv.distinct ref g { g with backupJob := some world.newBackupJob }
    have member' := changed_member member { g with backupJob := some world.newBackupJob }
    rw [write, ok_bind, startBackupSocketTimer_of distinct' member' no_task]
    let backed := { g with backupJob := some world.newBackupJob }
    let timed := { backed with backupTask := some pool.nextTimer }
    let mid := ((pool.changed ref g backed).changed ref backed timed).startTimer groupName backed timed
    have map : mid.groupMap = ((pool.changed ref g backed).changed ref backed timed).groupMap :=
      startTimer_map ..
    have distinct'' : Distinct mid.groupMap := by
      rw [map]
      exact changed_distinct distinct' ref backed timed
    have member'' : ⟨groupName, ref, timed⟩ ∈ mid.groupMap := by
      rw [map]
      exact changed_member member' timed
    refine ⟨mid, rfl, timed, read_of distinct'' member'', ?_⟩
    have one : backed.backupTask = g.backupTask ∨ timed.backupTask = backed.backupTask := Or.inl rfl
    let started := { timed with jobs := world.newJob :: g.jobs }
    have two : timed.backupTask = g.backupTask ∨ started.backupTask = timed.backupTask := Or.inr rfl
    have final : Pool.write { mid with
        connectingSocketCount := mid.connectingSocketCount + 1 } ref started =
        .ok (mid.changed ref timed started) := by
      refine write_changed distinct'' member'' started ?_ ?_ ?_ (if_pos rfl).symm rfl
      · simp only [started]
        omega
      · simp only [started, timed, backed, length_cons]
        omega
      · simp only [started]
        omega
    have moved := @startTimer_changed ((pool.changed ref g backed).changed ref backed timed)
      groupName ref backed timed timed started rfl rfl
    have merged : ((pool.changed ref g backed).changed ref backed timed).changed ref timed started =
        pool.changed ref g started := by
      rw [changed_changed pool ref one, changed_changed pool ref two]
    have same : mid.changed ref timed started = (pool.changed ref g started).startTimer groupName g started := by
      rw [merged] at moved
      exact moved
    rw [← same]
    exact final
  · refine ⟨pool, rfl, g, read_of inv.distinct member, ?_⟩
    rw [Pool.startTimer, if_pos rfl]
    refine write_changed inv.distinct member _ ?_ ?_ ?_ (if_pos rfl).symm rfl
    · simp only
      omega
    · simp only [length_cons]
      omega
    · simp only
      omega

theorem connectSocket_of (inv : Inv pool) (member : ⟨groupName, ref, g⟩ ∈ pool.groupMap) :
    ∃ result, connectSocket world groupName ref request pool = .ok result ∧
      @Connected world groupName ref request pool g result := by
  rw [connectSocket]
  cases connects : world.connect world.newJob with
  | none =>
    obtain ⟨mid, began, g', read, wrote⟩ := startJob_of world ref inv member
    have read' : Pool.read { mid with connectingSocketCount := mid.connectingSocketCount + 1 } ref =
        .ok g' := read
    simp only [began, read', wrote, ok_bind]
    exact ⟨_, rfl, .later connects⟩
  | some completion =>
    cases completion with
    | ok socket =>
      simp only [handOutSocket_of inv.distinct member, ok_bind]
      exact ⟨_, rfl, .now socket connects⟩
    | error netError socket =>
      cases socket with
      | some socket =>
        let active := { g with activeSocketCount := g.activeSocketCount + 1 }
        have distinct' := changed_distinct inv.distinct ref g active
        have read : Pool.read { pool.changed ref g active with handOuts :=
            ⟨request, socket, false, pool.poolGenerationNumber, g.pendingRequests⟩ ::
              pool.handOuts } ref = .ok active :=
          read_of distinct' (changed_member member active)
        have occupied : active.isEmpty = false := by
          rw [← Bool.not_eq_true, isEmpty_iff]
          intro bare
          have none_active := bare.active
          have nonneg := inv.active _ member
          simp only [active] at none_active nonneg
          omega
        simp only [handOutSocket_of inv.distinct member, ok_bind]
        rw [read, ok_bind, occupied]
        exact ⟨_, rfl, .failedWith netError socket connects⟩
      | none =>
        simp only [read_of inv.distinct member, ok_bind, eraseName_of inv.distinct member]
        exact ⟨_, rfl, .failed netError connects⟩

end Connect

theorem Inv.startTimer (inv : Inv pool) {groupName : GroupName} {ref : Nat}
    {before after : Group} (member : ⟨groupName, ref, after⟩ ∈ pool.groupMap)
    (task : after.backupTask = before.backupTask ∨ after.backupTask = some pool.nextTimer) :
    Inv (pool.startTimer groupName before after) := by
  rw [Pool.startTimer]
  split
  · exact inv
  · rename_i started
    refine ⟨inv.distinct, inv.fresh, inv.idle, inv.connecting, inv.handedOut, inv.active, inv.limit,
      inv.backup, fun timer inside => ?_⟩
    simp only [mem_append, mem_singleton] at inside
    rcases inside with earlier | rfl
    · exact inv.timers timer earlier
    · exact ⟨_, member, rfl, task.resolve_left started⟩

section Internal

variable (world : World) {groupName : GroupName} (ref : Nat) (request : Request)

inductive MadeRoom (pool : Pool) : Pool → Prop
  | below (room : pool.size < pool.maxSockets) : MadeRoom pool pool
  | closed (full : pool.maxSockets ≤ pool.size) (some_idle : 0 < pool.idleSocketCount) {mid : Pool}
      (closed : ClosedOne pool mid) : MadeRoom pool mid

/-- How `RequestSocketInternal` ends. -/
inductive Answered (pool : Pool) (g : Group) : Pool × Result → Prop
  | reused (dead : List IdleSocket) (idleSocket : IdleSocket) (rest : List IdleSocket)
      (split : g.idleSockets = dead ++ idleSocket :: rest)
      (live : world.isConnectedAndIdle idleSocket.socket = true) :
      Answered pool g ({ pool.changed ref g { g with
          idleSockets := rest
          activeSocketCount := g.activeSocketCount + 1 } with
        handOuts := ⟨request, idleSocket.socket, idleSocket.used, pool.poolGenerationNumber,
          g.pendingRequests⟩ :: pool.handOuts }, .ok)
  | noSlot (dead : ∀ idleSocket ∈ g.idleSockets, world.isConnectedAndIdle idleSocket.socket = false)
      (no_slot : g.hasAvailableSocketSlot pool.maxSocketsPerGroup = false) :
      Answered pool g (pool.changed ref g { g with idleSockets := [] }, .ioPending)
  | atLimit (dead : ∀ idleSocket ∈ g.idleSockets, world.isConnectedAndIdle idleSocket.socket = false)
      (slot : g.hasAvailableSocketSlot pool.maxSocketsPerGroup = true)
      (full : pool.maxSockets ≤ (pool.changed ref g { g with idleSockets := [] }).size)
      (none_idle : (pool.changed ref g { g with idleSockets := [] }).idleSocketCount ≤ 0) :
      Answered pool g (pool.changed ref g { g with idleSockets := [] }, .ioPending)
  | connects (dead : ∀ idleSocket ∈ g.idleSockets, world.isConnectedAndIdle idleSocket.socket = false)
      (slot : g.hasAvailableSocketSlot pool.maxSocketsPerGroup = true) (mid : Pool)
      (made_room : MadeRoom (pool.changed ref g { g with idleSockets := [] }) mid)
      {result : Pool × Result}
      (connected : @Connected world groupName ref request mid { g with idleSockets := [] } result) :
      Answered pool g result

variable {g : Group} {pool : Pool}

theorem Inv.drained (inv : Inv pool) (member : ⟨groupName, ref, g⟩ ∈ pool.groupMap) :
    Inv (pool.changed ref g { g with idleSockets := [] }) := by
  have sound := inv.sound member
  have limit := inv.limit
  refine inv.changed member ⟨sound.active, sound.backup⟩ ?_
  simp only [Pool.size, Group.size, length_nil]
  omega

theorem MadeRoom.inv {mid : Pool} (inv : Inv pool) (made_room : MadeRoom pool mid) : Inv mid := by
  cases made_room with
  | below room => exact inv
  | closed full some_idle closed => exact closed.inv inv

theorem MadeRoom.member {mid : Pool} (distinct : Distinct pool.groupMap)
    (made_room : MadeRoom pool mid) {groupName : GroupName} {ref : Nat}
    (member : ⟨groupName, ref, g⟩ ∈ pool.groupMap) (none_idle : g.idleSockets = []) :
    ⟨groupName, ref, g⟩ ∈ mid.groupMap := by
  cases made_room with
  | below room => exact member
  | closed full some_idle closed =>
    obtain ⟨groupName', ref', g', first, member', some_idle'⟩ := closed
    have other : ref ≠ ref' := fun same => by
      subst same
      have node := distinct.same_ref member member' rfl
      simp only [Node.mk.injEq, true_and] at node
      rw [← node.2] at some_idle'
      exact some_idle' none_idle
    exact sweep_mem (store_mem_other _ member other) other

theorem requestSocketInternal_of (inv : Inv pool) (member : ⟨groupName, ref, g⟩ ∈ pool.groupMap) :
    ∃ result, requestSocketInternal world groupName request pool = .ok result ∧
      @Answered world groupName ref request pool g result := by
  have reached : ∀ pool : Pool, pool.reachedMaxSocketsLimit = decide (pool.maxSockets ≤ pool.size) :=
    fun _ => rfl
  obtain ⟨result, ran, assigned⟩ := assignIdleSocket_of world ref request inv.distinct member
  rw [requestSocketInternal, subscript_find inv.distinct member]
  simp only [assignIdleSocketToGroup, read_of inv.distinct member, ok_bind, ran]
  cases assigned with
  | reused dead idleSocket rest split live =>
    simp only [if_true]
    exact ⟨_, rfl, .reused dead idleSocket rest split live⟩
  | noneLeft dead =>
    have inv' := inv.drained ref member
    have member' := changed_member member { g with idleSockets := [] }
    simp only [Bool.false_eq_true, if_false, read_of inv'.distinct member', ok_bind]
    cases slot : g.hasAvailableSocketSlot pool.maxSocketsPerGroup with
    | false =>
      have no_slot : Group.hasAvailableSocketSlot
          (pool.changed ref g { g with idleSockets := [] }).maxSocketsPerGroup
          { g with idleSockets := [] } = false := slot
      simp only [no_slot, Bool.not_false, if_true]
      exact ⟨_, rfl, .noSlot dead slot⟩
    | true =>
      have a_slot : Group.hasAvailableSocketSlot
          (pool.changed ref g { g with idleSockets := [] }).maxSocketsPerGroup
          { g with idleSockets := [] } = true := slot
      simp only [a_slot, Bool.not_true, Bool.false_eq_true, if_false, reached, decide_eq_true_eq]
      split
      · rename_i full
        split
        · rename_i some_idle
          obtain ⟨mid, ran', closed⟩ := closeOneIdleSocket_of inv' some_idle
          have made_room := MadeRoom.closed full some_idle closed
          obtain ⟨result, ran'', connected⟩ := connectSocket_of world ref request
            (made_room.inv inv') (made_room.member inv'.distinct member' rfl)
          simp only [ran', ok_bind, ran'']
          exact ⟨result, rfl, .connects dead slot mid made_room connected⟩
        · rename_i none_idle
          exact ⟨_, rfl, .atLimit dead slot full (Int.not_lt.mp none_idle)⟩
      · rename_i room
        obtain ⟨result, ran', connected⟩ := connectSocket_of world ref request inv' member'
        exact ⟨result, ran', .connects dead slot _ (.below (Int.not_le.mp room)) connected⟩

end Internal

end Glopen.Socket

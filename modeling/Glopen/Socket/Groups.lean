import Glopen.Socket.Events

/-! What the functions of the pool do to a group and to the counters. A group is changed together
with the counters, so that they stay the sums over all groups. -/
namespace Glopen.Socket

open RefMap List

def Pool.changed (pool : Pool) (ref : Nat) (old new : Group) : Pool :=
  { pool with
    groupMap := store pool.groupMap ref new
    idleSocketCount := pool.idleSocketCount - old.idleSockets.length + new.idleSockets.length
    connectingSocketCount := pool.connectingSocketCount - old.jobs.length + new.jobs.length
    handedOutSocketCount :=
      pool.handedOutSocketCount - old.activeSocketCount + new.activeSocketCount
    timers :=
      if new.backupTask = old.backupTask then pool.timers
      else pool.timers.filter fun timer => some timer.1 ≠ old.backupTask }

theorem ok_bind {E S T : Type} (a : S) (f : S → Except E T) : (Except.ok a >>= f) = f a := rfl

theorem changed_changed (pool : Pool) (ref : Nat) {old mid new : Group}
    (one : mid.backupTask = old.backupTask ∨ new.backupTask = mid.backupTask) :
    (pool.changed ref old mid).changed ref mid new = pool.changed ref old new := by
  rw [Pool.changed, Pool.changed, Pool.changed, Pool.mk.injEq]
  refine ⟨store_store .., ?_, ?_, ?_, rfl, rfl, rfl, rfl, rfl, rfl, ?_, rfl, rfl, rfl, rfl⟩
  · simp only
    omega
  · simp only
    omega
  · simp only
    omega
  · rcases one with same | same
    · rw [if_pos same, same]
    · rw [if_pos same, same]

section Group

variable {pool : Pool} (distinct : Distinct pool.groupMap) {groupName : GroupName} {ref : Nat}
  {g : Group} (member : ⟨groupName, ref, g⟩ ∈ pool.groupMap)
include distinct member

theorem read_of : pool.read ref = .ok g := by
  rw [Pool.read, distinct.deref member]

theorem write_of (value : Group) :
    pool.write ref value = .ok { pool with groupMap := store pool.groupMap ref value } := by
  rw [Pool.write, distinct.deref member]

theorem write_changed {pool' : Pool} (new : Group) (idle : pool'.idleSocketCount =
      pool.idleSocketCount - g.idleSockets.length + new.idleSockets.length)
    (connecting : pool'.connectingSocketCount = pool.connectingSocketCount - g.jobs.length + new.jobs.length)
    (handedOut : pool'.handedOutSocketCount =
      pool.handedOutSocketCount - g.activeSocketCount + new.activeSocketCount)
    (timers : pool'.timers = if new.backupTask = g.backupTask then pool.timers
      else pool.timers.filter fun timer => some timer.1 ≠ g.backupTask)
    (rest : pool' = { pool with
      idleSocketCount := pool'.idleSocketCount
      connectingSocketCount := pool'.connectingSocketCount
      handedOutSocketCount := pool'.handedOutSocketCount
      timers := pool'.timers }) : pool'.write ref new = .ok (pool.changed ref g new) := by
  have map : pool'.groupMap = pool.groupMap := by rw [rest]
  rw [Pool.write, map, distinct.deref member, rest, idle, connecting, handedOut, timers]
  rfl

theorem find_of : pool.find groupName = some ref := distinct.find member

theorem erase_of : pool.erase ref = { pool.cancel g.backupTask with groupMap := remove pool.groupMap ref } := by
  rw [Pool.erase, distinct.deref member]

theorem eraseName_of : pool.eraseName groupName = pool.erase ref := by
  rw [Pool.eraseName, find_of distinct member]

end Group

theorem changed_member {pool : Pool} {groupName : GroupName} {ref : Nat} {old : Group}
    (member : ⟨groupName, ref, old⟩ ∈ pool.groupMap) (new : Group) :
    ⟨groupName, ref, new⟩ ∈ (pool.changed ref old new).groupMap := store_mem new member

theorem changed_distinct {pool : Pool} (distinct : Distinct pool.groupMap) (ref : Nat)
    (old new : Group) : Distinct (pool.changed ref old new).groupMap := distinct.store ref new

theorem cancel_timers (pool : Pool) (backupTask : Option Nat) :
    (pool.cancel backupTask).timers = if none = backupTask then pool.timers
      else pool.timers.filter fun timer => some timer.1 ≠ backupTask := by
  rw [Pool.cancel]
  split
  · rename_i nothing
    exact filter_eq_self.mpr fun timer _ => by simp [← nothing]
  · rfl

section Functions

variable {pool : Pool} (distinct : Distinct pool.groupMap) {groupName : GroupName} {ref : Nat}
  {g : Group} (member : ⟨groupName, ref, g⟩ ∈ pool.groupMap)

def Group.withoutJob (g : Group) (job : Nat) : Group :=
  if g.jobs.erase job = [] then { g with jobs := [], backupJob := none, backupTask := none }
  else { g with jobs := g.jobs.erase job }
include distinct member

theorem removeConnectJob_of {job : Nat} (inside : job ∈ g.jobs) (counted : 0 < pool.connectingSocketCount) :
    removeConnectJob job ref pool = .ok (pool.changed ref g (g.withoutJob job)) := by
  have fewer := length_erase_of_mem inside
  have some_jobs : 0 < g.jobs.length := length_pos_of_mem inside
  let without := { g with jobs := g.jobs.erase job }
  have read : Pool.read { pool with
      connectingSocketCount := pool.connectingSocketCount - 1 } ref = .ok g :=
    read_of distinct member
  have write : Pool.write { pool with
      connectingSocketCount := pool.connectingSocketCount - 1 } ref
      { g with jobs := g.jobs.erase job } = .ok (pool.changed ref g without) := by
    refine write_changed distinct member without ?_ ?_ ?_ (if_pos rfl).symm rfl
    · simp only [without]
      omega
    · simp only [without, fewer]
      omega
    · simp only [without]
      omega
  rw [removeConnectJob, if_neg (by omega)]
  simp only [read, write, ok_bind]
  rw [Group.withoutJob]
  split
  · rename_i last
    have distinct' := changed_distinct distinct ref g without
    have written := changed_member member without
    let bare := { without with backupJob := none, backupTask := none }
    have same : bare = { g with jobs := [], backupJob := none, backupTask := none } := by
      simp only [bare, without, last]
    have cleaned : ((pool.changed ref g without).cancel g.backupTask).write ref bare =
        .ok ((pool.changed ref g without).changed ref without bare) := by
      refine write_changed distinct' written bare ?_ ?_ ?_ ?_ rfl
      · simp only [bare, Pool.cancel]
        omega
      · simp only [bare, Pool.cancel]
        omega
      · simp only [bare, Pool.cancel]
        omega
      · exact cancel_timers (pool.changed ref g without) g.backupTask
    simp only [cleanupBackupJob, read_of distinct' written, ok_bind]
    have one : without.backupTask = g.backupTask ∨ bare.backupTask = without.backupTask := Or.inl rfl
    rw [← same, ← changed_changed pool ref one]
    exact cleaned
  · rfl

theorem handOutSocket_of (socket : Nat) (reused : Bool) (request : Request) :
    handOutSocket socket reused request ref pool =
      .ok { pool.changed ref g { g with activeSocketCount := g.activeSocketCount + 1 } with
        handOuts := ⟨request, socket, reused, pool.poolGenerationNumber, g.pendingRequests⟩ ::
          pool.handOuts } := by
  let active := { g with activeSocketCount := g.activeSocketCount + 1 }
  let logged := { pool with handOuts :=
    ⟨request, socket, reused, pool.poolGenerationNumber, g.pendingRequests⟩ :: pool.handOuts }
  have write : Pool.write { logged with
      handedOutSocketCount := pool.handedOutSocketCount + 1 } ref active =
      .ok (logged.changed ref g active) := by
    refine @write_changed logged distinct groupName ref g member _ active ?_ ?_ ?_ (if_pos rfl).symm rfl
    · simp only [active, logged]
      omega
    · simp only [active, logged]
      omega
    · simp only [active, logged]
      omega
  simp only [handOutSocket, read_of distinct member, ok_bind]
  exact write

theorem addIdleSocket_of (socket : Nat) (used : Bool) : addIdleSocket socket used ref pool =
      .ok (pool.changed ref g { g with idleSockets := ⟨socket, used⟩ :: g.idleSockets }) := by
  simp only [addIdleSocket, read_of distinct member, ok_bind, write_of distinct member]
  refine congrArg Except.ok ?_
  rw [Pool.changed, Pool.mk.injEq]
  refine ⟨rfl, ?_, ?_, ?_, rfl, rfl, rfl, rfl, rfl, rfl, (if_pos rfl).symm, rfl, rfl, rfl, rfl⟩
  · simp only [length_cons]
    omega
  · simp only
    omega
  · simp only
    omega

end Functions

/-- The counters are the sums over all groups and stay below the limit. A backup task has a job to
back up, and a timer has a group. -/
structure Inv (pool : Pool) : Prop where
  distinct : Distinct pool.groupMap
  fresh : ∀ node ∈ pool.groupMap, node.ref < pool.nextGroup
  idle : pool.idleSocketCount = total (fun g => g.idleSockets.length) pool.groupMap
  connecting : pool.connectingSocketCount = total (fun g => g.jobs.length) pool.groupMap
  handedOut : pool.handedOutSocketCount = total (·.activeSocketCount) pool.groupMap
  active : ∀ node ∈ pool.groupMap, 0 ≤ node.value.activeSocketCount
  limit : pool.handedOutSocketCount + pool.connectingSocketCount + pool.idleSocketCount ≤ pool.maxSockets
  backup : ∀ node ∈ pool.groupMap, node.value.backupTask.isSome = true →
    node.value.backupJob.isSome = true ∧ node.value.jobs ≠ []
  timers : ∀ timer ∈ pool.timers, ∃ node ∈ pool.groupMap, node.key = timer.2 ∧
    node.value.backupTask = some timer.1

theorem Inv.new {maxSockets : Int} (nonneg : 0 ≤ maxSockets) (maxSocketsPerGroup : Int) :
    Inv (Pool.new maxSockets maxSocketsPerGroup) where
  distinct := ⟨nodup_nil, nodup_nil⟩
  fresh _ member := absurd member not_mem_nil
  idle := rfl
  connecting := rfl
  handedOut := rfl
  active _ member := absurd member not_mem_nil
  limit := nonneg
  backup _ member := absurd member not_mem_nil
  timers _ member := absurd member not_mem_nil

def Group.size (g : Group) : Int := g.activeSocketCount + g.jobs.length + g.idleSockets.length

def Pool.size (pool : Pool) : Int :=
  pool.handedOutSocketCount + pool.connectingSocketCount + pool.idleSocketCount

structure Group.Sound (g : Group) : Prop where
  active : 0 ≤ g.activeSocketCount
  backup : g.backupTask.isSome = true → g.backupJob.isSome = true ∧ g.jobs ≠ []

theorem Inv.sound {pool : Pool} (inv : Inv pool) {groupName : GroupName} {ref : Nat} {g : Group}
    (member : ⟨groupName, ref, g⟩ ∈ pool.groupMap) : g.Sound :=
  ⟨inv.active _ member, inv.backup _ member⟩

theorem changed_size (pool : Pool) (ref : Nat) (old new : Group) :
    (pool.changed ref old new).size = pool.size - old.size + new.size := by
  simp only [Pool.size, Group.size, Pool.changed]
  omega

theorem Inv.changed {pool : Pool} (inv : Inv pool) {groupName : GroupName} {ref : Nat}
    {old new : Group} (member : ⟨groupName, ref, old⟩ ∈ pool.groupMap) (sound : new.Sound)
    (room : pool.size - old.size + new.size ≤ pool.maxSockets) : Inv (pool.changed ref old new) where
  distinct := changed_distinct inv.distinct ref old new
  fresh node inside := by
    rcases mem_store inside with ⟨before, -⟩ | ⟨value, before, same⟩
    · exact inv.fresh node before
    · rw [same]
      exact inv.fresh ⟨node.key, ref, value⟩ before
  idle := by
    simp only [Pool.changed, inv.idle]
    exact (inv.distinct.total_store _ member new).symm
  connecting := by
    simp only [Pool.changed, inv.connecting]
    exact (inv.distinct.total_store _ member new).symm
  handedOut := by
    simp only [Pool.changed, inv.handedOut]
    exact (inv.distinct.total_store _ member new).symm
  active node inside := by
    rcases mem_store inside with ⟨before, -⟩ | ⟨value, before, same⟩
    · exact inv.active node before
    · rw [same]
      exact sound.active
  limit := by
    have size := changed_size pool ref old new
    rw [← size] at room
    exact room
  backup node inside := by
    rcases mem_store inside with ⟨before, -⟩ | ⟨value, before, same⟩
    · exact inv.backup node before
    · rw [same]
      exact sound.backup
  timers timer inside := by
    have before : timer ∈ pool.timers ∧ (new.backupTask = old.backupTask ∨ some timer.1 ≠ old.backupTask) := by
      simp only [Pool.changed] at inside
      split at inside
      · rename_i same
        exact ⟨inside, Or.inl same⟩
      · rw [mem_filter] at inside
        exact ⟨inside.1, Or.inr (of_decide_eq_true inside.2)⟩
    obtain ⟨node, there, key, its_task⟩ := inv.timers timer before.1
    by_cases other : node.ref = ref
    · have same : node = ⟨groupName, ref, old⟩ := inv.distinct.same_ref there member other
      subst same
      rcases before.2 with kept | cancelled
      · exact ⟨_, store_mem new member, key, kept.trans its_task⟩
      · exact absurd its_task.symm cancelled
    · exact ⟨node, store_mem_other new there other, key, its_task⟩

theorem Inv.congr {pool pool' : Pool} (inv : Inv pool) (map : pool'.groupMap = pool.groupMap)
    (idle : pool'.idleSocketCount = pool.idleSocketCount)
    (connecting : pool'.connectingSocketCount = pool.connectingSocketCount)
    (handedOut : pool'.handedOutSocketCount = pool.handedOutSocketCount)
    (maxSockets : pool'.maxSockets = pool.maxSockets) (timers : pool'.timers = pool.timers)
    (next : pool'.nextGroup = pool.nextGroup) : Inv pool' := by
  refine ⟨?_, ?_, ?_, ?_, ?_, ?_, ?_, ?_, ?_⟩
  · rw [map]
    exact inv.distinct
  · rw [map, next]
    exact inv.fresh
  · rw [map, idle]
    exact inv.idle
  · rw [map, connecting]
    exact inv.connecting
  · rw [map, handedOut]
    exact inv.handedOut
  · rw [map]
    exact inv.active
  · rw [idle, connecting, handedOut, maxSockets]
    exact inv.limit
  · rw [map]
    exact inv.backup
  · rw [map, timers]
    exact inv.timers

structure Group.Bare (g : Group) : Prop where
  active : g.activeSocketCount = 0
  idle : g.idleSockets = []
  jobs : g.jobs = []
  pending : g.pendingRequests = []

theorem isEmpty_iff {g : Group} : g.isEmpty = true ↔ g.Bare := by
  rw [Group.isEmpty]
  simp only [Bool.and_eq_true, decide_eq_true_eq, List.isEmpty_iff]
  exact ⟨fun ⟨⟨⟨active, idle⟩, jobs⟩, pending⟩ => ⟨active, idle, jobs, pending⟩,
    fun bare => ⟨⟨⟨bare.active, bare.idle⟩, bare.jobs⟩, bare.pending⟩⟩

theorem Inv.erase {pool : Pool} (inv : Inv pool) {groupName : GroupName} {ref : Nat} {g : Group}
    (member : ⟨groupName, ref, g⟩ ∈ pool.groupMap) (empty : g.isEmpty = true) : Inv (pool.erase ref) := by
  have bare := isEmpty_iff.mp empty
  rw [erase_of inv.distinct member]
  refine ⟨inv.distinct.remove ref, fun node inside => inv.fresh node (mem_remove.mp inside).1,
    ?_, ?_, ?_, fun node inside => inv.active node (mem_remove.mp inside).1, inv.limit,
    fun node inside => inv.backup node (mem_remove.mp inside).1, fun timer inside => ?_⟩
  · simp only [Pool.cancel, inv.idle, inv.distinct.total_remove _ member, bare.idle, length_nil]
    omega
  · simp only [Pool.cancel, inv.connecting, inv.distinct.total_remove _ member, bare.jobs, length_nil]
    omega
  · simp only [Pool.cancel, inv.handedOut, inv.distinct.total_remove _ member, bare.active]
    omega
  · simp only [Pool.cancel] at inside
    rw [mem_filter, decide_eq_true_eq] at inside
    obtain ⟨node, there, key, its_task⟩ := inv.timers timer inside.1
    refine ⟨node, mem_remove.mpr ⟨there, fun same => ?_⟩, key, its_task⟩
    have this_one : node = ⟨groupName, ref, g⟩ := inv.distinct.same_ref there member same
    rw [this_one] at its_task
    exact inside.2 its_task.symm

theorem subscript_find {pool : Pool} {groupName : GroupName} {ref : Nat} {g : Group}
    (distinct : Distinct pool.groupMap) (member : ⟨groupName, ref, g⟩ ∈ pool.groupMap) :
    pool.subscript groupName = (pool, ref) := by
  rw [Pool.subscript, find_of distinct member]

theorem Inv.subscript {pool : Pool} (inv : Inv pool) (groupName : GroupName) : Inv (pool.subscript groupName).1 ∧
      ∃ g, ⟨groupName, (pool.subscript groupName).2, g⟩ ∈ (pool.subscript groupName).1.groupMap := by
  rw [Pool.subscript]
  cases found : pool.find groupName with
  | some ref => exact ⟨inv, find_some found⟩
  | none =>
    refine ⟨⟨?_, ?_, ?_, ?_, ?_, ?_, inv.limit, ?_, ?_⟩, Group.new, mem_insert.mpr (Or.inl rfl)⟩
    · exact inv.distinct.insert (fun node inside => find_none found inside)
        (fun node inside => Nat.ne_of_lt (inv.fresh node inside))
    · intro node inside
      rcases mem_insert.mp inside with rfl | before
      · exact Nat.lt_succ_self _
      · exact Nat.lt_succ_of_lt (inv.fresh node before)
    · simp only [total_insert, inv.idle]
      exact (Int.zero_add _).symm
    · simp only [total_insert, inv.connecting]
      exact (Int.zero_add _).symm
    · simp only [total_insert, inv.handedOut]
      exact (Int.zero_add _).symm
    · intro node inside
      rcases mem_insert.mp inside with rfl | before
      · exact Int.le_refl 0
      · exact inv.active node before
    · intro node inside
      rcases mem_insert.mp inside with rfl | before
      · intro task
        cases task
      · exact inv.backup node before
    · intro timer inside
      obtain ⟨node, there, its⟩ := inv.timers timer inside
      exact ⟨node, mem_insert.mpr (Or.inr there), its⟩

end Glopen.Socket

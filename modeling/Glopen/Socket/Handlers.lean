import Glopen.Socket.Queues

/-! What the handlers of the pool keep. -/
namespace Glopen.Socket

open RefMap List
variable {ref : Nat} {g : Group} {limits : Prop}

section Answered

variable {world : World} {groupName : GroupName} {request : Request} {pool : Pool} {old : Group}

theorem sweep_waiting (waiting : g.pendingRequests ≠ []) : pool.sweep ref g = pool := by
  rw [Pool.sweep, if_neg]
  rw [isEmpty_iff]
  exact fun bare => waiting bare.pending

variable {result : Pool × Result}

theorem Connected.member (connected : @Connected world groupName ref request pool old result)
    (member : ⟨groupName, ref, old⟩ ∈ pool.groupMap) (stays : result.2 = .ioPending ∨ old.pendingRequests ≠ []) :
    ∃ new, ⟨groupName, ref, new⟩ ∈ result.1.groupMap ∧ new.pendingRequests = old.pendingRequests := by
  cases connected with
  | now socket connects => exact ⟨_, changed_member member _, rfl⟩
  | failedWith netError socket connects => exact ⟨_, changed_member member _, rfl⟩
  | failed netError connects =>
    have waiting := stays.resolve_left (by simp)
    rw [sweep_waiting waiting]
    exact ⟨old, member, rfl⟩
  | later connects =>
    rw [startTimer_map]
    refine ⟨_, changed_member member _, ?_⟩
    rw [Group.startJob]
    split <;> rfl

theorem Answered.member (answered : @Answered world groupName ref request pool old result) (inv : Inv pool)
    (member : ⟨groupName, ref, old⟩ ∈ pool.groupMap) (stays : result.2 = .ioPending ∨ old.pendingRequests ≠ []) :
    ∃ new, ⟨groupName, ref, new⟩ ∈ result.1.groupMap ∧ new.pendingRequests = old.pendingRequests := by
  cases answered with
  | reused dead idleSocket rest split live => exact ⟨_, changed_member member _, rfl⟩
  | noSlot dead no_slot => exact ⟨_, changed_member member _, rfl⟩
  | atLimit dead slot full none_idle => exact ⟨_, changed_member member _, rfl⟩
  | connects dead slot mid made_room connected =>
    have drained := inv.drained ref member
    have there := made_room.member drained.distinct (changed_member member _) rfl
    obtain ⟨new, inside, queue⟩ := connected.member there stays
    exact ⟨new, inside, queue⟩

end Answered

section Request

variable (world : World)

def Overtakes (groupName : GroupName) (priority : RequestPriority) (pool : Pool) : Prop :=
  ∃ node ∈ pool.groupMap, node.key = groupName ∧ node.value.servedAtOnce world pool = true ∧
    ∃ r ∈ node.value.pendingRequests, r.priority.value ≤ priority.value

theorem subscript_group {pool : Pool} {groupName : GroupName}
    (member : ⟨groupName, (pool.subscript groupName).2, g⟩ ∈ (pool.subscript groupName).1.groupMap) :
    (⟨groupName, (pool.subscript groupName).2, g⟩ ∈ pool.groupMap ∨ g = Group.new) ∧
      g.servedAtOnce world (pool.subscript groupName).1 = g.servedAtOnce world pool := by
  rw [Pool.subscript] at member ⊢
  cases found : pool.find groupName with
  | some ref =>
    rw [found] at member
    exact ⟨Or.inl member, rfl⟩
  | none =>
    rw [found] at member
    refine ⟨Or.inr ?_, rfl⟩
    rcases mem_insert.mp member with same | before
    · rw [Node.mk.injEq] at same
      exact same.2.2
    · exact absurd rfl (find_none found before)

theorem requestSocket_of {pool : Pool} (inv : Inv pool)
    (nonneg : 0 ≤ pool.maxSocketsPerGroup) (groupName : GroupName) (handle : Nat)
    (priority : RequestPriority) : ∃ pool', requestSocket world groupName handle priority pool = .ok pool' ∧
      Kept limits (¬ Overtakes world groupName priority pool) pool pool' := by
  let request : Request := ⟨handle, priority, pool.issued⟩
  let issuing := { pool with issued := pool.issued + 1 }
  have issued : Kept limits (¬ Overtakes world groupName priority pool) pool issuing :=
    .same (inv.congr rfl rfl rfl rfl rfl rfl rfl) rfl rfl rfl (Nat.le_succ _) rfl rfl
  have subscripted := issued.trans (.subscript issued.inv nonneg groupName)
  obtain ⟨-, g, member⟩ := issued.inv.subscript groupName
  obtain ⟨origin, served⟩ := subscript_group world member
  have waited : Ordered pool → ∀ r ∈ g.pendingRequests, r.serial < request.serial := by
    intro ordered r inside
    rcases origin with before | rfl
    · exact ordered.issued _ before r inside
    · exact absurd inside not_mem_nil
  have newer : ∀ {pool' : Pool}, Kept limits (¬ Overtakes world groupName priority pool)
      (issuing.subscript groupName).1 pool' → request.serial < pool'.issued :=
    fun later => Nat.lt_of_lt_of_le ((Nat.lt_succ_self _).trans_le
      (@Kept.subscript limits True _ issued.inv nonneg groupName).issued)
      later.issued
  obtain ⟨result, ran, answered⟩ := requestSocketInternal_of world (issuing.subscript groupName).2
    request subscripted.inv member
  have answering : Kept limits (¬ Overtakes world groupName priority pool) _ result.1 :=
    answered.kept subscripted.inv member world request fun not_overtaking _ at_once handOut its_request its_pending r inside earlier => by
      rw [its_request] at earlier ⊢
      rw [its_pending] at inside
      rw [served] at at_once
      rcases origin with before | rfl
      · exact not_le.mp fun urgent =>
          not_overtaking ⟨_, before, rfl, at_once, r, inside, urgent⟩
      · exact absurd inside not_mem_nil
  have kept := subscripted.trans answering
  rw [requestSocket]
  simp only
  rw [ran, ok_bind]
  split
  · exact ⟨_, rfl, kept⟩
  · rename_i pending
    obtain ⟨new, inside, queue⟩ := answered.member subscripted.inv member (Or.inl (Decidable.not_not.mp pending))
    rw [read_of kept.inv.distinct inside, ok_bind, queue_changed kept.inv.distinct inside]
    refine ⟨_, rfl, .enqueued inside kept request fun ordered => ⟨?_, ?_⟩⟩
    · rw [queue]
      exact waited ordered
    · exact newer answering

end Request

def Continuation.Named (pool : Pool) : Continuation → Prop
  | .connectJobComplete _ _ => True
  | .processPendingRequest groupName ref _ =>
    ref < pool.nextGroup ∧ ∀ node ∈ pool.groupMap, node.ref = ref → node.key = groupName

theorem onConnectJobComplete_of {turns : Prop} {pool : Pool} (inv : Inv pool) {groupName : GroupName}
    (member : ⟨groupName, ref, g⟩ ∈ pool.groupMap) {job : Nat} (inside : job ∈ g.jobs) (result : Completion) :
    ∃ after, onConnectJobComplete groupName job result pool = .ok after ∧
      Kept limits turns pool after.1 ∧ ∀ continuation ∈ after.2, continuation.Named after.1 := by
  have counted := jobs_counted inv member inside
  have without : Kept limits turns pool (pool.changed ref g (g.withoutJob job)) :=
    .withoutJob inv member inside
  have removed := removeConnectJob_of inv.distinct member inside counted
  have there := changed_member member (g.withoutJob job)
  have queue := @withoutJob_pending g job
  generalize ended : g.withoutJob job = ending at without removed there queue
  have merged : ∀ new : Group, new.backupTask = ending.backupTask →
      (pool.changed ref g ending).changed ref ending new = pool.changed ref g new :=
    fun new same => changed_changed pool ref (Or.inr same)
  rw [onConnectJobComplete, find_of inv.distinct member]
  cases result with
  | ok socket =>
    simp only [removed, ok_bind, read_of without.inv.distinct there, queue]
    cases pending : g.pendingRequests with
    | nil =>
      simp only [addIdleSocket_of without.inv.distinct there, ok_bind]
      rw [merged { ending with idleSockets := ⟨socket, false⟩ :: ending.idleSockets } rfl]
      have idle : Kept limits turns pool _ := .jobToIdle inv member inside ended ⟨socket, false⟩
      exact ⟨_, rfl, idle.trans (.task idle.inv _ _), fun _ nothing => by cases nothing⟩
    | cons r pendingRequests =>
      have popped := queue_changed without.inv.distinct there pendingRequests
      have there' := changed_member there { ending with pendingRequests := pendingRequests }
      have distinct' := changed_distinct without.inv.distinct ref ending
        { ending with pendingRequests := pendingRequests }
      simp only [popped, ok_bind, handOutSocket_of distinct' there']
      rw [merged { ending with pendingRequests := pendingRequests } rfl, changed_activated]
      refine ⟨_, rfl, .jobToActive inv member inside ended _ ?_ fun _ ordered r' waits => ?_,
        fun _ its => by cases its; trivial⟩
      · rw [pending]
        exact sublist_cons_self ..
      · have sorted := ordered.sorted _ member
        simp only [pending] at sorted
        exact head_fair sorted (mem_cons_of_mem r waits)
  | error netError socket =>
    simp only [read_of inv.distinct member, ok_bind]
    cases pending : g.pendingRequests with
    | nil =>
      simp only [removed, ok_bind]
      exact ⟨_, rfl, without.trans (.task without.inv _ _), fun _ nothing => by cases nothing⟩
    | cons r pendingRequests =>
      have popped : Kept limits turns pool
          (pool.changed ref g { g with pendingRequests := pendingRequests }) := by
        refine .dequeued inv member ?_
        rw [pending]
        exact sublist_cons_self ..
      have there' := changed_member member { g with pendingRequests := pendingRequests }
      have removed' := removeConnectJob_of popped.inv.distinct there' inside
        (jobs_counted popped.inv there' inside)
      simp only [queue_changed inv.distinct member, ok_bind, removed']
      have later : Kept limits turns pool _ :=
        popped.trans (.withoutJob popped.inv there' inside)
      cases socket with
      | none => exact ⟨_, rfl, later, fun _ its => by cases its; trivial⟩
      | some socket =>
        have there'' := changed_member there'
          (Group.withoutJob { g with pendingRequests := pendingRequests } job)
        simp only [handOutSocket_of later.inv.distinct there'', ok_bind]
        rw [changed_popped pool ref, withoutJob_popped, ended, changed_activated]
        refine ⟨_, rfl, .jobToActive inv member inside ended _ ?_ fun _ ordered r' waits => ?_,
        fun _ its => by cases its; trivial⟩
        · rw [pending]
          exact sublist_cons_self ..
        · have sorted := ordered.sorted _ member
          simp only [pending] at sorted
          exact head_fair sorted (mem_cons_of_mem r waits)

/-- The backup timer starts a job in a group whose sockets, with the idle ones, are at the limit. -/
def StartsTooMany (world : World) (groupName : GroupName) (pool : Pool) : Prop :=
  ∃ node ∈ pool.groupMap, node.key = groupName ∧ node.value.jobs ≠ [] ∧
    pool.reachedMaxSocketsLimit = false ∧
    node.value.hasAvailableSocketSlot pool.maxSocketsPerGroup = true ∧
    world.resolvingHost (node.value.jobs.min?.getD 0) = false ∧
    pool.maxSocketsPerGroup ≤ node.value.size

def Pool.fired (pool : Pool) (ref : Nat) (g : Group) (timer : Nat × GroupName) : Pool :=
  { pool.changed ref g { g with backupTask := none } with
    timers := pool.timers.filter (· ≠ timer) }

theorem Kept.fired {turns : Prop} {pool : Pool} (inv : Inv pool) {groupName : GroupName}
    (member : ⟨groupName, ref, g⟩ ∈ pool.groupMap) {timer : Nat} (task : g.backupTask = some timer) :
    Kept limits turns pool (pool.fired ref g (timer, groupName)) := by
  have sound := inv.sound member
  have limit := inv.limit
  have kept : Kept limits turns pool (pool.changed ref g { g with backupTask := none }) := by
    refine .changed inv member ⟨sound.active, fun task => by cases task⟩ ?_ (fun _ within => within)
      (List.Sublist.refl _)
    simp only [Pool.size, Group.size]
    omega
  have its := kept.inv
  have inv' : Inv (pool.fired ref g (timer, groupName)) := by
    refine ⟨its.distinct, its.fresh, its.idle, its.connecting, its.handedOut, its.active, its.limit,
      its.backup, fun other inside => ?_⟩
    simp only [Pool.fired, mem_filter, decide_eq_true_eq] at inside
    obtain ⟨node, there, key, its_task⟩ := inv.timers other inside.1
    refine ⟨node, store_mem_other _ there fun same => inside.2 ?_, key, its_task⟩
    have this_one : node = ⟨groupName, ref, g⟩ := inv.distinct.same_ref there member same
    rw [this_one] at key its_task
    rw [task, Option.some.injEq] at its_task
    exact Prod.ext its_task.symm key.symm
  exact kept.trans (.same inv' rfl rfl rfl le_rfl rfl rfl)

theorem onBackupSocketTimerFired_of {turns : Prop} (world : World) {pool : Pool} (inv : Inv pool)
    {groupName : GroupName} {timer : Nat} (posted : (timer, groupName) ∈ pool.timers) :
    ∃ after, onBackupSocketTimerFired world groupName
        { pool with timers := pool.timers.filter (· ≠ (timer, groupName)) } = .ok after ∧
      Kept (¬ StartsTooMany world groupName pool) turns pool after.1 ∧
      ∀ continuation ∈ after.2, continuation.Named after.1 := by
  obtain ⟨⟨key, ref, g⟩, member, rfl, task⟩ := inv.timers _ posted
  simp only at member task posted ⊢
  obtain ⟨backed, some_jobs⟩ := inv.backup _ member (by rw [task]; rfl)
  obtain ⟨backupJob, backup_job⟩ := Option.isSome_iff_exists.mp backed
  simp only at backup_job some_jobs
  have fired : Kept (¬ StartsTooMany world key pool) turns pool (pool.fired ref g (timer, key)) :=
    .fired inv member task
  have there : ⟨key, ref, { g with backupTask := none }⟩ ∈ (pool.fired ref g (timer, key)).groupMap :=
    changed_member member _
  have write : Pool.write { pool with timers := pool.timers.filter (· ≠ (timer, key)) } ref
      { g with backupTask := none } = .ok (pool.fired ref g (timer, key)) := by
    rw [@write_of { pool with timers := pool.timers.filter (· ≠ (timer, key)) } inv.distinct key ref g
      member, Pool.fired, Pool.changed]
    refine congrArg Except.ok ?_
    rw [Pool.mk.injEq]
    refine ⟨rfl, ?_, ?_, ?_, rfl, rfl, rfl, rfl, rfl, rfl, rfl, rfl, rfl, rfl, rfl⟩
    · simp only
      omega
    · simp only
      omega
    · simp only
      omega
  have sound := inv.sound member
  rw [onBackupSocketTimerFired]
  have found : Pool.find { pool with timers := pool.timers.filter (· ≠ (timer, key)) } key = some ref :=
    find_of inv.distinct member
  have read : Pool.read { pool with timers := pool.timers.filter (· ≠ (timer, key)) } ref = .ok g :=
    read_of inv.distinct member
  have no_jobs : g.jobs.isEmpty = false := by simpa using some_jobs
  have reached : (pool.fired ref g (timer, key)).reachedMaxSocketsLimit = pool.reachedMaxSocketsLimit := by
    rw [Pool.reachedMaxSocketsLimit, Pool.reachedMaxSocketsLimit, decide_eq_decide]
    simp only [Pool.fired, Pool.changed]
    omega
  have limit := fired.inv.limit
  simp only [found, read, ok_bind, task, Option.isNone_some, Bool.false_eq_true, if_false, write,
    no_jobs, reached]
  simp only [backup_job]
  split
  · rw [startBackupSocketTimer_of fired.inv.distinct there rfl]
    have again : Kept (¬ StartsTooMany world key pool) turns (pool.fired ref g (timer, key)) _ :=
      @Kept.changed _ _ _ fired.inv key ref { g with backupTask := none } there
        { g with backupTask := some (pool.fired ref g (timer, key)).nextTimer }
        ⟨sound.active, fun _ => ⟨backed, some_jobs⟩⟩ (by simp only [Pool.size, Group.size]; omega)
        (fun _ within => within) (List.Sublist.refl _)
    have timed := again.trans (.startTimer again.inv (changed_member there _)
      { g with backupTask := none } (Or.inr rfl))
    exact ⟨_, rfl, fired.trans timed, fun _ nothing => by cases nothing⟩
  · rename_i starts
    simp only [Bool.or_eq_true, Bool.not_eq_true', not_or, Bool.not_eq_true, Bool.not_eq_false] at starts
    obtain ⟨⟨room, slot⟩, resolved⟩ := starts
    let started := { g with backupTask := none, jobs := backupJob :: g.jobs, backupJob := none }
    have write' : Pool.write { pool.fired ref g (timer, key) with
        connectingSocketCount := (pool.fired ref g (timer, key)).connectingSocketCount + 1 } ref
        started = .ok ((pool.fired ref g (timer, key)).changed ref { g with backupTask := none } started) := by
      refine write_changed fired.inv.distinct there _ ?_ ?_ ?_ (if_pos rfl).symm rfl
      · simp only [started]
        omega
      · simp only [started, length_cons]
        omega
      · simp only [started]
        omega
    have below : (pool.fired ref g (timer, key)).size < (pool.fired ref g (timer, key)).maxSockets := by
      rw [← reached, Pool.reachedMaxSocketsLimit, decide_eq_false_iff_not] at room
      exact Int.not_le.mp room
    have running : Kept (¬ StartsTooMany world key pool) turns (pool.fired ref g (timer, key))
        ((pool.fired ref g (timer, key)).changed ref { g with backupTask := none } started) := by
      refine .changed fired.inv there ⟨sound.active, fun task => by cases task⟩ ?_ ?_ (List.Sublist.refl _)
      · simp only [Group.size, started, length_cons]
        omega
      · intro fits _
        have fewer : g.size < pool.maxSocketsPerGroup := Int.not_le.mp fun many =>
          fits ⟨_, member, rfl, some_jobs, room, slot, resolved, many⟩
        simp only [Group.size, started, length_cons] at fewer ⊢
        simp only [Pool.fired, Pool.changed]
        omega
    have read' : Pool.read { pool.fired ref g (timer, key) with
        connectingSocketCount := (pool.fired ref g (timer, key)).connectingSocketCount + 1 } ref =
        .ok { g with backupTask := none } := read_of fired.inv.distinct there
    simp only [read', ok_bind]
    rw [write', ok_bind]
    cases world.connect backupJob with
    | none => exact ⟨_, rfl, fired.trans running, fun _ nothing => by cases nothing⟩
    | some result =>
      obtain ⟨after, ran, kept, named⟩ := onConnectJobComplete_of running.inv (changed_member there started)
        (mem_cons_self ..) result
      exact ⟨after, ran, (fired.trans running).trans kept, named⟩

end Glopen.Socket

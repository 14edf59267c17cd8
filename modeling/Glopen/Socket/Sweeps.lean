import Glopen.Socket.Handlers

/-! What the handlers keep that go over all groups, or that the clients call. -/
namespace Glopen.Socket

open RefMap List
variable {limits turns : Prop} {pool : Pool} {groupName : GroupName} {pool' : Pool} {ref : Nat}
  {world : World}

section Sweeps

theorem pass_of {turn : Pool → Node GroupName Group → Except Fault Pool}
    (one : ∀ {pool : Pool} {node : Node GroupName Group}, Inv pool → node ∈ pool.groupMap →
      ∃ pool', turn pool node = .ok pool' ∧ Kept limits turns pool pool' ∧
        ∀ other ∈ pool.groupMap, other.ref ≠ node.ref → other ∈ pool'.groupMap)
    {nodes : List (Node GroupName Group)} (distinct : (nodes.map Node.ref).Nodup) {pool : Pool}
    (inv : Inv pool) (there : ∀ node ∈ nodes, node ∈ pool.groupMap) :
    ∃ pool', nodes.foldlM turn pool = .ok pool' ∧ Kept limits turns pool pool' := by
  induction nodes generalizing pool with
  | nil => exact ⟨pool, rfl, .refl inv⟩
  | cons node nodes ih =>
    rw [map_cons, nodup_cons] at distinct
    obtain ⟨mid, ran, kept, others⟩ := one inv (there node (mem_cons_self ..))
    obtain ⟨pool', ran', kept'⟩ := ih distinct.2 kept.inv fun other inside =>
      others other (there other (mem_cons_of_mem node inside)) fun same =>
        distinct.1 (List.mem_map.mpr ⟨other, inside, same⟩)
    rw [foldlM_cons, ran]
    exact ⟨pool', ran', kept.trans kept'⟩

variable {node : Node GroupName Group}

theorem cleanupGroup_of (force : Bool) (world : World) (inv : Inv pool) (member : node ∈ pool.groupMap) :
    ∃ pool', cleanupGroup force world pool node = .ok pool' ∧ Kept limits turns pool pool' ∧
      ∀ other ∈ pool.groupMap, other.ref ≠ node.ref → other ∈ pool'.groupMap := by
  obtain ⟨groupName, ref, g⟩ := node
  let kept := g.idleSockets.filter fun j => !(force || j.shouldCleanup world)
  have fewer : kept.length ≤ g.idleSockets.length := length_filter_le ..
  obtain ⟨write, dropped⟩ := @drop_changed _ inv.distinct _ _ _ member kept
    (g.idleSockets.length - kept.length) (by omega)
  have dropping : Kept limits turns pool _ := .drop inv member fewer
  have there := changed_member member { g with idleSockets := kept }
  simp only [cleanupGroup, read_of inv.distinct member, ok_bind]
  rw [write, ok_bind]
  simp only
  rw [dropped, read_of dropping.inv.distinct there, ok_bind]
  exact ⟨_, rfl, dropping.trans (.sweep dropping.inv there), fun other inside away =>
    sweep_mem (store_mem_other _ inside away) away⟩

theorem cleanupIdleSockets_of (force : Bool) (world : World) {pool : Pool} (inv : Inv pool) :
    ∃ pool', cleanupIdleSockets force world pool = .ok pool' ∧ Kept limits turns pool pool' := by
  rw [cleanupIdleSockets]
  split
  · exact ⟨pool, rfl, .refl inv⟩
  · exact pass_of (cleanupGroup_of force world) inv.distinct.refs inv fun _ inside => inside

theorem cancelConnectJobs_of (inv : Inv pool) (member : node ∈ pool.groupMap) :
    ∃ pool', cancelConnectJobs pool node = .ok pool' ∧ Kept limits turns pool pool' ∧
      ∀ other ∈ pool.groupMap, other.ref ≠ node.ref → other ∈ pool'.groupMap := by
  obtain ⟨groupName, ref, g⟩ := node
  have sound := inv.sound member
  have limit := inv.limit
  let stopped := { g with jobs := [], backupTask := none }
  have stopping : Kept limits turns pool (pool.changed ref g stopped) := by
    refine .changed inv member ⟨sound.active, fun task => by cases task⟩ ?_ ?_ (List.Sublist.refl _)
    · simp only [Group.size, Pool.size, stopped, length_nil]
      omega
    · intro _ within
      simp only [Group.size, stopped, length_nil] at within ⊢
      omega
  have write : Pool.write (Pool.cancel { pool with
      connectingSocketCount := pool.connectingSocketCount - g.jobs.length } g.backupTask) ref
      stopped = .ok (pool.changed ref g stopped) := by
    refine write_changed inv.distinct member stopped ?_ ?_ ?_ ?_ rfl
    · simp only [stopped, Pool.cancel]
      omega
    · simp only [stopped, Pool.cancel, length_nil]
      omega
    · simp only [stopped, Pool.cancel]
      omega
    · exact cancel_timers pool g.backupTask
  have there := changed_member member stopped
  simp only [cancelConnectJobs, read_of inv.distinct member, ok_bind]
  rw [write, ok_bind, read_of stopping.inv.distinct there, ok_bind]
  exact ⟨_, rfl, stopping.trans (.sweep stopping.inv there), fun other inside away =>
    sweep_mem (store_mem_other _ inside away) away⟩

theorem flush_of (world : World) (inv : Inv pool) :
    ∃ pool', flush world pool = .ok pool' ∧ Kept limits turns pool pool' := by
  have next : Kept limits turns pool { pool with poolGenerationNumber := pool.poolGenerationNumber + 1 } :=
    .same (inv.congr rfl rfl rfl rfl rfl rfl rfl) rfl rfl rfl le_rfl rfl rfl
  obtain ⟨mid, ran, kept⟩ := @pass_of limits turns _ cancelConnectJobs_of _
    next.inv.distinct.refs _ next.inv fun _ inside => inside
  obtain ⟨pool', ran', kept'⟩ := @cleanupIdleSockets_of limits turns true world _ kept.inv
  rw [flush]
  simp only [cancelAllConnectJobs, closeIdleSockets]
  rw [ran, ok_bind, ran']
  exact ⟨pool', rfl, (next.trans kept).trans kept'⟩

end Sweeps

theorem first_job {jobs : List Nat} (some_jobs : jobs.isEmpty = false) : jobs.min?.getD 0 ∈ jobs := by
  cases least : jobs.min? with
  | none =>
    rw [List.min?_eq_none_iff] at least
    rw [least] at some_jobs
    cases some_jobs
  | some job => exact List.min?_mem least

theorem cancelRequest_kept (inv : Inv pool)
    {handle : Nat} (ran : cancelRequest groupName handle pool = .ok pool') : Kept limits turns pool pool' := by
  rw [cancelRequest] at ran
  cases found : pool.find groupName with
  | none =>
    rw [found] at ran
    cases ran
  | some ref =>
    obtain ⟨g, member⟩ := find_some found
    simp only [found, read_of inv.distinct member, ok_bind] at ran
    cases at_index : g.pendingRequests.findIdx? fun r => r.handle = handle with
    | none =>
      simp only [at_index, Except.ok.injEq] at ran
      exact ran ▸ .refl inv
    | some i =>
      simp only [at_index, queue_changed inv.distinct member, ok_bind] at ran
      let cancelled := { g with pendingRequests := g.pendingRequests.eraseIdx i }
      have dequeued : Kept limits turns pool (pool.changed ref g cancelled) :=
        .dequeued inv member (eraseIdx_sublist ..)
      have there := changed_member member cancelled
      split at ran
      · rename_i gives_up
        have some_jobs : g.jobs.isEmpty = false := by
          rw [Bool.and_eq_true, Bool.not_eq_true'] at gives_up
          exact gives_up.1
        have inside : g.jobs.min?.getD 0 ∈ cancelled.jobs := first_job some_jobs
        rw [removeConnectJob_of dequeued.inv.distinct there inside
          (jobs_counted dequeued.inv there inside), ok_bind] at ran
        have given_up := dequeued.trans (.withoutJob dequeued.inv there inside)
        obtain ⟨pool'', ran', kept⟩ := @checkForStalledSocketGroups_of limits turns _ given_up.inv
        rw [ran', Except.ok.injEq] at ran
        exact ran ▸ given_up.trans kept
      · rw [Except.ok.injEq] at ran
        exact ran ▸ dequeued

theorem Kept.returned (inv : Inv pool) {g : Group}
    (member : ⟨groupName, ref, g⟩ ∈ pool.groupMap) (active : 0 < g.activeSocketCount)
    (idleSockets : List IdleSocket) (one : idleSockets.length ≤ g.idleSockets.length + 1) :
    Kept limits turns pool (pool.changed ref g { g with
      activeSocketCount := g.activeSocketCount - 1
      idleSockets := idleSockets }) := by
  have sound := inv.sound member
  have limit := inv.limit
  have given : Group.Sound { g with
      activeSocketCount := g.activeSocketCount - 1
      idleSockets := idleSockets } := ⟨by simp only; omega, sound.backup⟩
  refine @Kept.changed _ _ pool inv groupName ref g member _ given ?_ ?_ (List.Sublist.refl _)
  · simp only [Group.size, Pool.size]
    omega
  · intro _ within
    simp only [Group.size] at within ⊢
    omega

theorem releaseSocket_kept (inv : Inv pool) {socket : Nat} {id : Int}
    (ran : releaseSocket world groupName socket id pool = .ok pool') : Kept limits turns pool pool' := by
  rw [releaseSocket] at ran
  cases found : pool.find groupName with
  | none =>
    rw [found] at ran
    cases ran
  | some ref =>
    obtain ⟨g, member⟩ := find_some found
    have read : Pool.read { pool with handedOutSocketCount := pool.handedOutSocketCount - 1 } ref =
        .ok g := read_of inv.distinct member
    simp only [found, read, ok_bind] at ran
    split at ran
    · cases ran
    · split at ran
      · cases ran
      · rename_i none_handed none_active
        let given := { g with activeSocketCount := g.activeSocketCount - 1 }
        have returned : Kept limits turns pool (pool.changed ref g given) :=
          .returned inv member (Int.not_le.mp none_active) g.idleSockets (Nat.le_succ _)
        have there := changed_member member given
        have write : Pool.write { pool with
            handedOutSocketCount := pool.handedOutSocketCount - 1 } ref given =
            .ok (pool.changed ref g given) := by
          refine write_changed inv.distinct member _ ?_ ?_ ?_ (if_pos rfl).symm rfl
          · simp only [given]
            omega
          · simp only [given]
            omega
          · simp only [given]
            omega
        rw [write, ok_bind] at ran
        have later : ∀ {mid : Pool}, Kept limits turns pool mid →
            checkForStalledSocketGroups mid = .ok pool' → Kept limits turns pool pool' := by
          intro mid kept ran
          obtain ⟨pool'', ran', kept'⟩ := @checkForStalledSocketGroups_of limits turns _ kept.inv
          rw [ran', Except.ok.injEq] at ran
          exact ran ▸ kept.trans kept'
        split at ran
        · rw [addIdleSocket_of returned.inv.distinct there] at ran
          simp only [ok_bind] at ran
          have one : given.backupTask = g.backupTask ∨
              ({ given with idleSockets := ⟨socket, true⟩ :: g.idleSockets } : Group).backupTask =
                given.backupTask := .inl rfl
          rw [changed_changed pool ref one] at ran
          have idle : Kept limits turns pool _ :=
            .returned inv member (Int.not_le.mp none_active) (⟨socket, true⟩ :: g.idleSockets) le_rfl
          exact later (idle.trans (.task idle.inv _ _)) ran
        · exact later returned ran

section Tasks

variable {wasAtSocketLimit : Bool}

theorem afterRequest_kept (inv : Inv pool)
    (named : ∀ node ∈ pool.groupMap, node.ref = ref → node.key = groupName)
    (ran : afterRequest groupName ref wasAtSocketLimit pool = .ok pool') : Kept limits turns pool pool' := by
  rw [afterRequest, Pool.read] at ran
  cases at_ref : deref pool.groupMap ref with
  | none =>
    rw [at_ref] at ran
    cases ran
  | some g =>
    obtain ⟨key, member⟩ := deref_some at_ref
    obtain rfl := named _ member rfl
    simp only [at_ref, ok_bind, eraseName_of inv.distinct member] at ran
    have swept : Kept limits turns pool (pool.sweep ref g) := .sweep inv member
    obtain ⟨pool'', ran', kept⟩ := @checkIfAtSocketLimit_of limits turns _ swept.inv wasAtSocketLimit
    rw [Pool.sweep] at ran'
    rw [ran', Except.ok.injEq] at ran
    exact ran ▸ swept.trans kept

theorem Continuation.Named.kept {pool pool' : Pool} {continuation : Continuation}
    (named : continuation.Named pool) (kept : Kept limits turns pool pool') : continuation.Named pool' := by
  cases continuation with
  | connectJobComplete groupName handedOutSocket => trivial
  | processPendingRequest groupName ref wasAtSocketLimit =>
    obtain ⟨old_ref, its_name⟩ := named
    refine ⟨old_ref.trans_le kept.names.next, fun node inside same => ?_⟩
    rcases kept.names.names node inside with ⟨before, there, ref', key⟩ | new
    · rw [← key]
      exact its_name before there (ref'.trans same)
    · omega

theorem processPendingRequest_kept (inv : Inv pool) {after : Pool × Option Continuation}
    (ran : processPendingRequest world groupName wasAtSocketLimit pool = .ok after) :
    Kept limits turns pool after.1 ∧ ∀ continuation ∈ after.2, continuation.Named after.1 := by
  rw [processPendingRequest] at ran
  have at_limit : ∀ {after : Pool × Option Continuation}, (do
      let pool ← checkIfAtSocketLimit wasAtSocketLimit pool
      .ok (pool, none)) = .ok after → Kept limits turns pool after.1 ∧
        ∀ continuation ∈ after.2, continuation.Named after.1 := by
    intro after ran
    obtain ⟨pool', ran', kept⟩ := @checkIfAtSocketLimit_of limits turns _ inv wasAtSocketLimit
    rw [ran', ok_bind, Except.ok.injEq] at ran
    exact ran ▸ ⟨kept, fun _ nothing => by cases nothing⟩
  cases found : pool.find groupName with
  | none =>
    rw [found] at ran
    exact at_limit ran
  | some ref =>
    obtain ⟨g, member⟩ := find_some found
    simp only [found, read_of inv.distinct member, ok_bind] at ran
    cases pending : g.pendingRequests with
    | nil =>
      rw [pending] at ran
      exact at_limit ran
    | cons request pendingRequests =>
      simp only [pending] at ran
      obtain ⟨result, ran', answered⟩ := requestSocketInternal_of world ref request inv member
      have kept : Kept limits turns pool result.1 :=
        answered.kept inv member world request fun _ ordered _ handOut its_request its_pending r' waits
            earlier => by
          rw [its_request] at earlier ⊢
          rw [its_pending, pending] at waits
          have sorted := ordered.sorted _ member
          simp only [pending] at sorted
          exact head_fair sorted waits earlier
      obtain ⟨new, there, queue⟩ := answered.member inv member (.inr (by rw [pending]; simp))
      rw [ran', ok_bind] at ran
      split at ran
      · rw [read_of kept.inv.distinct there, ok_bind, queue_changed kept.inv.distinct there, ok_bind,
          Except.ok.injEq] at ran
        have dequeued : Kept limits turns result.1 (result.1.changed ref new _) :=
          .dequeued kept.inv there (tail_sublist _)
        refine ran ▸ ⟨kept.trans dequeued, fun continuation its => ?_⟩
        rw [Option.mem_some_iff] at its
        subst its
        have there' := changed_member there { new with pendingRequests := new.pendingRequests.tail }
        exact ⟨dequeued.inv.fresh _ there', fun node inside same =>
          congrArg Node.key (dequeued.inv.distinct.same_ref inside there' same)⟩
      · cases ran' : afterRequest groupName ref wasAtSocketLimit result.1 with
        | error fault =>
          rw [ran'] at ran
          cases ran
        | ok pool' =>
          rw [ran', ok_bind, Except.ok.injEq] at ran
          have swept : Kept limits turns result.1 pool' := afterRequest_kept kept.inv (fun node inside same =>
              congrArg Node.key (kept.inv.distinct.same_ref inside there same)) ran'
          exact ran ▸ ⟨kept.trans swept, fun _ nothing => by cases nothing⟩

theorem returnFromCallback_kept (inv : Inv pool) {continuation : Continuation}
    (named : continuation.Named pool) (ran : returnFromCallback continuation pool = .ok pool') :
    Kept limits turns pool pool' := by
  cases continuation with
  | connectJobComplete groupName handedOutSocket =>
    simp only [returnFromCallback] at ran
    split at ran
    · rw [Except.ok.injEq] at ran
      exact ran ▸ .refl inv
    · rw [Except.ok.injEq] at ran
      exact ran ▸ .task inv _ _
  | processPendingRequest groupName ref wasAtSocketLimit =>
    exact afterRequest_kept inv named.2 ran

end Tasks

end Glopen.Socket

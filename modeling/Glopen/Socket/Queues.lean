import Glopen.Socket.Keeping

/-! How the queues of the groups change, and what the single steps of the handlers keep. -/
namespace Glopen.Socket

open RefMap List
variable {pendingRequests : List Request} {limits turns : Prop} {pool : Pool}

section Queue

variable {r : Request}
variable {r' : Request}

theorem mem_insertRequestIntoQueue :
    r' ∈ insertRequestIntoQueue r pendingRequests ↔ r' = r ∨ r' ∈ pendingRequests := by
  induction pendingRequests with
  | nil => simp [insertRequestIntoQueue]
  | cons it pendingRequests ih =>
    rw [insertRequestIntoQueue]
    split
    · rw [mem_cons, ih, mem_cons]
      exact or_left_comm
    · rw [mem_cons]

theorem insert_sorted (sorted : pendingRequests.Pairwise Request.Before)
    (newest : ∀ r' ∈ pendingRequests, r'.serial < r.serial) :
    (insertRequestIntoQueue r pendingRequests).Pairwise Request.Before := by
  induction pendingRequests with
  | nil => exact pairwise_singleton ..
  | cons it pendingRequests ih =>
    have tail := ih sorted.of_cons fun r' inside => newest r' (mem_cons_of_mem it inside)
    have before : ∀ r' ∈ pendingRequests, it.Before r' := fun r' => rel_of_pairwise_cons sorted
    rw [insertRequestIntoQueue]
    split
    · rename_i urgent
      refine tail.cons fun r' inside => ?_
      rcases mem_insertRequestIntoQueue.mp inside with rfl | inside
      · have earlier := newest it (mem_cons_self ..)
        rw [Request.Before]
        omega
      · exact before r' inside
    · rename_i urgent
      refine sorted.cons fun r' inside => ?_
      rcases mem_cons.mp inside with rfl | inside
      · exact .inl (not_le.mp urgent)
      · have later := before r' inside
        rw [Request.Before] at later ⊢
        omega

theorem head_fair (sorted : (r :: pendingRequests).Pairwise Request.Before)
    (inside : r' ∈ r :: pendingRequests) (earlier : r'.serial < r.serial) :
    r.priority.value < r'.priority.value := by
  rcases mem_cons.mp inside with rfl | inside
  · exact absurd earlier (lt_irrefl _)
  · have before := rel_of_pairwise_cons sorted inside
    rw [Request.Before] at before
    omega

end Queue

section Steps

variable (inv : Inv pool) {groupName : GroupName} {ref : Nat} {old : Group}
  (member : ⟨groupName, ref, old⟩ ∈ pool.groupMap)

theorem changed_activated (pool : Pool) (ref : Nat) (old mid : Group) :
    (pool.changed ref old mid).changed ref mid { mid with activeSocketCount := mid.activeSocketCount + 1 } =
      pool.changed ref old { mid with activeSocketCount := mid.activeSocketCount + 1 } :=
  changed_changed pool ref (.inr rfl)

theorem changed_popped (pool : Pool) (ref : Nat) (old new : Group) (pendingRequests : List Request) :
    (pool.changed ref old { old with pendingRequests := pendingRequests }).changed ref
        { old with pendingRequests := pendingRequests } new = pool.changed ref old new :=
  changed_changed pool ref (.inl rfl)

theorem queue_changed (distinct : Distinct pool.groupMap)
    (member : ⟨groupName, ref, old⟩ ∈ pool.groupMap) (pendingRequests : List Request) :
    pool.write ref { old with pendingRequests := pendingRequests } =
      .ok (pool.changed ref old { old with pendingRequests := pendingRequests }) := by
  refine write_changed distinct member _ ?_ ?_ ?_ (if_pos rfl).symm rfl
  · simp only
    omega
  · simp only
    omega
  · simp only
    omega
include inv member

theorem Kept.dequeued (queue : pendingRequests.Sublist old.pendingRequests) : Kept limits turns pool
      (pool.changed ref old { old with pendingRequests := pendingRequests }) := by
  have sound := inv.sound member
  have limit := inv.limit
  refine .changed inv member ⟨sound.active, sound.backup⟩ ?_ (fun _ within => within) queue
  simp only [Pool.size, Group.size]
  omega

omit inv in
theorem Kept.enqueued {before : Pool} (kept : Kept limits turns before pool) (r : Request)
    (newest : Ordered before → (∀ r' ∈ old.pendingRequests, r'.serial < r.serial) ∧ r.serial < pool.issued) :
    Kept limits turns before (pool.changed ref old
      { old with pendingRequests := insertRequestIntoQueue r old.pendingRequests }) := by
  have sound := kept.inv.sound member
  have limit := kept.inv.limit
  let new := { old with pendingRequests := insertRequestIntoQueue r old.pendingRequests }
  have inv' : Inv (pool.changed ref old new) := by
    refine kept.inv.changed member ⟨sound.active, sound.backup⟩ ?_
    simp only [Pool.size, Group.size, new]
    omega
  refine ⟨inv', kept.maxSockets, kept.perGroup, kept.issued, kept.names.trans (.changed ..),
    fun holds limited node inside => ?_,
    fun ordered => ⟨fun node inside => ?_, fun node inside => ?_⟩, kept.fair⟩
  · have within := kept.limited holds limited
    rcases mem_store inside with ⟨there, -⟩ | ⟨value, there, same⟩
    · exact within node there
    · rw [same]
      exact within ⟨groupName, ref, old⟩ member
  · have sorted := (kept.ordered ordered).sorted
    rcases mem_store inside with ⟨there, -⟩ | ⟨value, there, same⟩
    · exact sorted node there
    · rw [same]
      exact insert_sorted (sorted _ member) (newest ordered).1
  · have issued := (kept.ordered ordered).issued
    rcases mem_store inside with ⟨there, -⟩ | ⟨value, there, same⟩
    · exact issued node there
    · rw [same]
      intro r' queued
      rcases mem_insertRequestIntoQueue.mp queued with rfl | queued
      · exact (newest ordered).2
      · exact issued _ member r' queued

theorem withoutJob_sound {job : Nat} : (old.withoutJob job).Sound := by
  have sound := inv.sound member
  rw [Group.withoutJob]
  split
  · exact ⟨sound.active, fun task => by cases task⟩
  · rename_i others
    exact ⟨sound.active, fun task => ⟨(sound.backup task).1, others⟩⟩

omit inv member in
@[simp] theorem withoutJob_pending (job : Nat) : (old.withoutJob job).pendingRequests = old.pendingRequests := by
  rw [Group.withoutJob]
  split <;> rfl

omit inv member in
theorem withoutJob_popped (job : Nat) (pendingRequests : List Request) :
    Group.withoutJob { old with pendingRequests := pendingRequests } job =
      { old.withoutJob job with pendingRequests := pendingRequests } := by
  rw [Group.withoutJob, Group.withoutJob]
  split <;> rfl

variable {job : Nat}

omit inv member in
theorem withoutJob_size (inside : job ∈ old.jobs) : (old.withoutJob job).size = old.size - 1 := by
  have fewer := length_erase_of_mem inside
  have some_jobs : 0 < old.jobs.length := length_pos_of_mem inside
  rw [Group.withoutJob]
  split
  · rename_i last
    rw [last, length_nil] at fewer
    simp only [Group.size, length_nil]
    omega
  · simp only [Group.size, fewer]
    omega

theorem jobs_counted (inside : job ∈ old.jobs) : 0 < pool.connectingSocketCount := by
  have some_jobs : 0 < old.jobs.length := length_pos_of_mem inside
  have counted := le_total (f := fun g : Group => (g.jobs.length : Int))
    (fun node _ => Int.natCast_nonneg node.value.jobs.length) member
  rw [inv.connecting]
  simp only at counted
  omega

theorem Kept.withoutJob (inside : job ∈ old.jobs) :
    Kept limits turns pool (pool.changed ref old (old.withoutJob job)) := by
  have limit := inv.limit
  have fewer := withoutJob_size inside
  refine .changed inv member (withoutJob_sound inv member) ?_ ?_ (by rw [withoutJob_pending])
  · rw [Pool.size]
    omega
  · intro _ within
    omega

variable {without : Group}

theorem Kept.jobToActive (inside : job ∈ old.jobs) (ended : old.withoutJob job = without) (handOut : HandOut)
    (queue : pendingRequests.Sublist old.pendingRequests) (fair : turns → Ordered pool → handOut.Fair) :
    Kept limits turns pool { pool.changed ref old { without with
        pendingRequests := pendingRequests
        activeSocketCount := without.activeSocketCount + 1 } with
      handOuts := handOut :: pool.handOuts } := by
  have limit := inv.limit
  have fewer := withoutJob_size inside
  have sound := @withoutJob_sound pool inv groupName ref old member job
  rw [ended] at fewer sound
  have active := sound.active
  rw [Group.size] at fewer
  have active' : Group.Sound { without with
      pendingRequests := pendingRequests
      activeSocketCount := without.activeSocketCount + 1 } :=
    ⟨by simp only; omega, sound.backup⟩
  refine @Kept.handOut _ _ pool inv groupName ref old member _ active' ?_ ?_ queue handOut fair
  · simp only [Group.size, Pool.size] at fewer ⊢
    omega
  · intro _ within
    simp only [Group.size] at fewer within ⊢
    omega

theorem Kept.jobToIdle (inside : job ∈ old.jobs)
    (ended : old.withoutJob job = without) (idleSocket : IdleSocket) :
    Kept limits turns pool (pool.changed ref old { without with
      idleSockets := idleSocket :: without.idleSockets }) := by
  have limit := inv.limit
  have fewer := withoutJob_size inside
  have sound := @withoutJob_sound pool inv groupName ref old member job
  have queue : without.pendingRequests.Sublist old.pendingRequests := by
    rw [← ended, withoutJob_pending]
  rw [ended] at fewer sound
  rw [Group.size] at fewer
  refine .changed inv member ⟨sound.active, sound.backup⟩ ?_ ?_ queue
  · simp only [Group.size, Pool.size, length_cons] at fewer ⊢
    omega
  · intro _ within
    simp only [Group.size, length_cons] at fewer within ⊢
    omega

end Steps

section Tasks

variable (inv : Inv pool)
include inv

theorem Kept.task (groupName : GroupName) (wasAtSocketLimit : Bool) :
    Kept limits turns pool (onAvailableSocketSlot groupName wasAtSocketLimit pool) :=
  .same (inv.congr rfl rfl rfl rfl rfl rfl rfl) rfl rfl rfl le_rfl rfl rfl

theorem checkForStalledSocketGroups_of :
    ∃ pool', checkForStalledSocketGroups pool = .ok pool' ∧ Kept limits turns pool pool' := by
  rw [checkForStalledSocketGroups]
  have kept : Kept limits turns pool { pool with lastStalledGroupCount := (findTopStalledGroup pool).1 } :=
    .same (inv.congr rfl rfl rfl rfl rfl rfl rfl) rfl rfl rfl le_rfl rfl rfl
  simp only
  split
  · exact ⟨_, rfl, kept⟩
  · split
    · split
      · rename_i some_idle
        obtain ⟨pool', ran, closed⟩ := closeOneIdleSocket_of kept.inv some_idle
        rw [ran, ok_bind]
        have later : Kept limits turns _ pool' := closed.kept kept.inv
        exact ⟨_, rfl, (kept.trans later).trans (.task later.inv _ _)⟩
      · exact ⟨_, rfl, kept⟩
    · exact ⟨_, rfl, kept.trans (.task kept.inv _ _)⟩

theorem checkIfAtSocketLimit_of (wasAtSocketLimit : Bool) :
    ∃ pool', checkIfAtSocketLimit wasAtSocketLimit pool = .ok pool' ∧ Kept limits turns pool pool' := by
  rw [checkIfAtSocketLimit]
  split
  · exact checkForStalledSocketGroups_of inv
  · exact ⟨pool, rfl, .refl inv⟩

end Tasks

end Glopen.Socket

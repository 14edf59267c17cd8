import Glopen.Socket.Outcomes

/-! What the functions of the pool keep: the counters, the limit of each group, the order of its
queue, and that sockets go to the requests whose turn it is. -/
namespace Glopen.Socket

open RefMap List

def Limited (pool : Pool) : Prop :=
  ∀ node ∈ pool.groupMap, node.value.size ≤ pool.maxSocketsPerGroup

def Request.Before (r r' : Request) : Prop :=
  r.priority.value < r'.priority.value ∨ (r.priority.value = r'.priority.value ∧ r.serial < r'.serial)

structure Ordered (pool : Pool) : Prop where
  sorted : ∀ node ∈ pool.groupMap, node.value.pendingRequests.Pairwise Request.Before
  issued : ∀ node ∈ pool.groupMap, ∀ r ∈ node.value.pendingRequests, r.serial < pool.issued

def HandOut.Fair (handOut : HandOut) : Prop :=
  ∀ r ∈ handOut.pending, r.serial < handOut.request.serial →
    handOut.request.priority.value < r.priority.value

def AllFair (pool : Pool) : Prop := ∀ handOut ∈ pool.handOuts, handOut.Fair

structure KeepsNames (pool pool' : Pool) : Prop where
  next : pool.nextGroup ≤ pool'.nextGroup
  names : ∀ node' ∈ pool'.groupMap,
    (∃ node ∈ pool.groupMap, node.ref = node'.ref ∧ node.key = node'.key) ∨ pool.nextGroup ≤ node'.ref

theorem KeepsNames.trans {pool mid pool' : Pool} (first : KeepsNames pool mid)
    (second : KeepsNames mid pool') : KeepsNames pool pool' where
  next := Nat.le_trans first.next second.next
  names node' inside := by
    rcases second.names node' inside with ⟨node, there, ref, key⟩ | new
    · rw [← ref, ← key]
      exact first.names node there
    · exact .inr (first.next.trans new)

theorem KeepsNames.subset {pool pool' : Pool} (next : pool.nextGroup ≤ pool'.nextGroup)
    (fewer : ∀ node ∈ pool'.groupMap, node ∈ pool.groupMap) : KeepsNames pool pool' :=
  ⟨next, fun node inside => .inl ⟨node, fewer node inside, rfl, rfl⟩⟩

theorem KeepsNames.changed (pool : Pool) (ref : Nat) (old new : Group) :
    KeepsNames pool (pool.changed ref old new) := by
  refine ⟨le_rfl, fun node inside => .inl ?_⟩
  rcases mem_store inside with ⟨before, -⟩ | ⟨value, before, same⟩
  · exact ⟨node, before, rfl, rfl⟩
  · exact ⟨_, before, by rw [same], rfl⟩

def Completion.withSocket : Completion → Bool
  | ok _ => true
  | error _ socket => socket.isSome

def World.connectsAtOnce (world : World) : Bool :=
  (world.connect world.newJob).any Completion.withSocket

def Group.servedAtOnce (world : World) (pool : Pool) (g : Group) : Bool :=
  (g.idleSockets.any fun idleSocket => world.isConnectedAndIdle idleSocket.socket) ||
    (g.hasAvailableSocketSlot pool.maxSocketsPerGroup &&
      (pool.size - g.idleSockets.length < pool.maxSockets || g.idleSockets.length < pool.idleSocketCount) &&
      world.connectsAtOnce)

/-- `limits` and `turns` are what the limits of the groups and the order of the requests need. -/
structure Kept (limits turns : Prop) (pool pool' : Pool) : Prop where
  inv : Inv pool'
  maxSockets : pool'.maxSockets = pool.maxSockets
  perGroup : pool'.maxSocketsPerGroup = pool.maxSocketsPerGroup
  issued : pool.issued ≤ pool'.issued
  names : KeepsNames pool pool'
  limited : limits → Limited pool → Limited pool'
  ordered : Ordered pool → Ordered pool'
  fair : turns → Ordered pool → AllFair pool → AllFair pool'

section Kept

variable {limits turns : Prop}

theorem Kept.refl {pool : Pool} (inv : Inv pool) : Kept limits turns pool pool :=
  ⟨inv, rfl, rfl, le_rfl, .subset le_rfl fun _ inside => inside,
    fun _ limited => limited, fun ordered => ordered, fun _ _ fair => fair⟩

theorem Kept.trans {pool mid pool' : Pool} (first : Kept limits turns pool mid)
    (second : Kept limits turns mid pool') : Kept limits turns pool pool' where
  inv := second.inv
  maxSockets := second.maxSockets.trans first.maxSockets
  perGroup := second.perGroup.trans first.perGroup
  issued := first.issued.trans second.issued
  names := first.names.trans second.names
  limited holds limited := second.limited holds (first.limited holds limited)
  ordered ordered := second.ordered (first.ordered ordered)
  fair holds ordered fair := second.fair holds (first.ordered ordered) (first.fair holds ordered fair)

theorem Kept.weaken {limits' turns' : Prop} {pool pool' : Pool} (kept : Kept limits turns pool pool')
    (limits_hold : limits' → limits) (turns_hold : turns' → turns) : Kept limits' turns' pool pool' :=
  ⟨kept.inv, kept.maxSockets, kept.perGroup, kept.issued, kept.names,
    fun holds => kept.limited (limits_hold holds), kept.ordered, fun holds => kept.fair (turns_hold holds)⟩

theorem Kept.given_order {pool pool' : Pool}
    (kept : Kept limits (turns ∧ Ordered pool) pool pool') : Kept limits turns pool pool' :=
  ⟨kept.inv, kept.maxSockets, kept.perGroup, kept.issued, kept.names, kept.limited, kept.ordered,
    fun holds ordered => kept.fair ⟨holds, ordered⟩ ordered⟩

variable {pool : Pool} (inv : Inv pool)

theorem Kept.same {pool' : Pool} (inv' : Inv pool') (map : pool'.groupMap = pool.groupMap)
    (maxSockets : pool'.maxSockets = pool.maxSockets)
    (perGroup : pool'.maxSocketsPerGroup = pool.maxSocketsPerGroup)
    (issued : pool.issued ≤ pool'.issued) (handOuts : pool'.handOuts = pool.handOuts)
    (next : pool'.nextGroup = pool.nextGroup) : Kept limits turns pool pool' := by
  refine ⟨inv', maxSockets, perGroup, issued,
    .subset (next.symm.le) fun node inside => map ▸ inside, fun _ limited node inside => ?_, fun ordered => ⟨?_, ?_⟩,
    fun _ _ fair handOut inside => ?_⟩
  · rw [map] at inside
    rw [perGroup]
    exact limited node inside
  · rw [map]
    exact ordered.sorted
  · rw [map]
    exact fun node inside r member => (ordered.issued node inside r member).trans_le issued
  · rw [handOuts] at inside
    exact fair handOut inside

variable {groupName : GroupName} {ref : Nat} {old : Group}
  (member : ⟨groupName, ref, old⟩ ∈ pool.groupMap)
include inv member

theorem Kept.changed {new : Group} (sound : new.Sound) (room : pool.size - old.size + new.size ≤ pool.maxSockets)
    (within : limits → old.size ≤ pool.maxSocketsPerGroup → new.size ≤ pool.maxSocketsPerGroup)
    (queue : new.pendingRequests.Sublist old.pendingRequests) :
    Kept limits turns pool (pool.changed ref old new) := by
  refine ⟨inv.changed member sound room, rfl, rfl, le_rfl, .changed .., fun holds limited node inside => ?_,
    fun ordered => ⟨fun node inside => ?_, fun node inside => ?_⟩, fun _ _ fair => fair⟩
  · rcases mem_store inside with ⟨before, -⟩ | ⟨value, before, same⟩
    · exact limited node before
    · rw [same]
      exact within holds (limited _ member)
  · rcases mem_store inside with ⟨before, -⟩ | ⟨value, before, same⟩
    · exact ordered.sorted node before
    · rw [same]
      exact (ordered.sorted _ member).sublist queue
  · rcases mem_store inside with ⟨before, -⟩ | ⟨value, before, same⟩
    · exact ordered.issued node before
    · rw [same]
      exact fun r inside' => ordered.issued _ member r (queue.subset inside')

theorem Kept.erase (empty : old.isEmpty = true) : Kept limits turns pool (pool.erase ref) := by
  have inv' := inv.erase member empty
  rw [erase_of inv.distinct member] at inv' ⊢
  refine ⟨inv', rfl, rfl, le_rfl,
    .subset le_rfl fun node inside => (mem_remove.mp inside).1, fun _ limited node inside => limited node (mem_remove.mp inside).1,
    fun ordered => ⟨fun node inside => ordered.sorted node (mem_remove.mp inside).1,
      fun node inside => ordered.issued node (mem_remove.mp inside).1⟩, fun _ _ fair => fair⟩

theorem Kept.sweep : Kept limits turns pool (pool.sweep ref old) := by
  rw [Pool.sweep]
  split
  · rename_i empty
    exact .erase inv member empty
  · exact .refl inv

omit member in
theorem Kept.logged (handOut : HandOut) (fair : turns → Ordered pool → handOut.Fair) :
    Kept limits turns pool { pool with handOuts := handOut :: pool.handOuts } := by
  refine ⟨inv.congr rfl rfl rfl rfl rfl rfl rfl, rfl, rfl, le_rfl,
    .subset le_rfl fun _ inside => inside, fun _ limited => limited,
    fun ordered => ⟨ordered.sorted, ordered.issued⟩, fun holds ordered all other inside => ?_⟩
  rcases mem_cons.mp inside with rfl | before
  · exact fair holds ordered
  · exact all other before

omit member in
theorem Kept.subscript (nonneg : 0 ≤ pool.maxSocketsPerGroup) (groupName : GroupName) :
    Kept limits turns pool (pool.subscript groupName).1 := by
  have inv' := (inv.subscript groupName).1
  rw [Pool.subscript] at inv' ⊢
  cases found : pool.find groupName with
  | some ref => exact .refl inv
  | none =>
    rw [found] at inv'
    refine ⟨inv', rfl, rfl, le_rfl, ⟨Nat.le_succ _, fun node inside => ?_⟩, fun _ limited node inside => ?_,
      fun ordered => ⟨fun node inside => ?_, fun node inside r queued => ?_⟩, fun _ _ fair => fair⟩
    · rcases mem_insert.mp inside with rfl | before
      · exact .inr le_rfl
      · exact .inl ⟨node, before, rfl, rfl⟩
    · rcases mem_insert.mp inside with rfl | before
      · exact nonneg
      · exact limited node before
    · rcases mem_insert.mp inside with rfl | before
      · exact List.Pairwise.nil
      · exact ordered.sorted node before
    · rcases mem_insert.mp inside with rfl | before
      · exact absurd queued not_mem_nil
      · exact ordered.issued node before r queued

theorem Kept.startTimer (before : Group)
    (task : old.backupTask = before.backupTask ∨ old.backupTask = some pool.nextTimer) :
    Kept limits turns pool (pool.startTimer groupName before old) := by
  have inv' := inv.startTimer member task
  have issued : pool.issued ≤ (pool.startTimer groupName before old).issued := by
    rw [Pool.startTimer]
    split <;> exact le_rfl
  refine .same inv' (startTimer_map ..) ?_ ?_ issued ?_ ?_
  all_goals
    rw [Pool.startTimer]
    split
  all_goals rfl

theorem Kept.drop {idleSockets : List IdleSocket} (fewer : idleSockets.length ≤ old.idleSockets.length) :
    Kept limits turns pool (pool.changed ref old { old with idleSockets := idleSockets }) := by
  have sound := inv.sound member
  have limit := inv.limit
  refine .changed inv member ⟨sound.active, sound.backup⟩ ?_ ?_ (List.Sublist.refl _)
  · simp only [Pool.size, Group.size]
    omega
  · intro _ within
    simp only [Group.size] at within ⊢
    omega

omit member in
theorem ClosedOne.kept {pool' : Pool} (closed : ClosedOne pool pool') : Kept limits turns pool pool' := by
  obtain ⟨groupName, ref, g, first, member, some_idle⟩ := closed
  have fewer : g.idleSockets.dropLast.length ≤ g.idleSockets.length := by
    rw [length_dropLast]
    omega
  have dropped : Kept limits turns pool _ := .drop inv member fewer
  exact dropped.trans (.sweep dropped.inv (changed_member member _))

omit member in
theorem MadeRoom.kept {mid : Pool} (made_room : MadeRoom pool mid) : Kept limits turns pool mid := by
  cases made_room with
  | below room => exact .refl inv
  | closed full some_idle closed => exact closed.kept inv

omit inv member in
theorem ClosedOne.room {pool' : Pool} (inv : Inv pool) (closed : ClosedOne pool pool') :
    pool'.size < pool'.maxSockets := by
  obtain ⟨groupName, ref, g, first, member, some_idle⟩ := closed
  have limit := inv.limit
  have positive := length_pos_iff.mpr some_idle
  have sizes := changed_size pool ref g { g with idleSockets := g.idleSockets.dropLast }
  simp only [Group.size, length_dropLast, Pool.size] at sizes
  rw [Pool.sweep, Pool.erase]
  split
  · split
    · simp only [Pool.size, Pool.cancel]
      simp only [Pool.changed] at sizes ⊢
      omega
    · simp only [Pool.size]
      simp only [Pool.changed] at sizes ⊢
      omega
  · simp only [Pool.size]
    simp only [Pool.changed] at sizes ⊢
    omega

omit inv member in
theorem MadeRoom.room {mid : Pool} (inv : Inv pool) (made_room : MadeRoom pool mid) :
    mid.size < mid.maxSockets := by
  cases made_room with
  | below room => exact room
  | closed full some_idle closed => exact closed.room inv

omit inv member in
theorem MadeRoom.before {mid : Pool} (made_room : MadeRoom pool mid) :
    pool.size < pool.maxSockets ∨ 0 < pool.idleSocketCount := by
  cases made_room with
  | below room => exact .inl room
  | closed full some_idle closed => exact .inr some_idle

theorem Kept.handOut {new : Group} (sound : new.Sound) (room : pool.size - old.size + new.size ≤ pool.maxSockets)
    (within : limits → old.size ≤ pool.maxSocketsPerGroup → new.size ≤ pool.maxSocketsPerGroup)
    (queue : new.pendingRequests.Sublist old.pendingRequests) (handOut : HandOut)
    (fair : turns → Ordered pool → handOut.Fair) : Kept limits turns pool
      { pool.changed ref old new with handOuts := handOut :: pool.handOuts } := by
  have logged : Kept limits turns pool _ := .logged inv handOut fair
  exact logged.trans (@Kept.changed limits turns
    { pool with handOuts := handOut :: pool.handOuts } logged.inv groupName ref old member new sound
    room within queue)

theorem Connected.kept (world : World) (request : Request) {result : Pool × Result}
    (connected : @Connected world groupName ref request pool old result) (none_idle : old.idleSockets = [])
    (slot : old.hasAvailableSocketSlot pool.maxSocketsPerGroup = true) (room : pool.size < pool.maxSockets)
    (fair : turns → world.connectsAtOnce = true → ∀ socket,
      HandOut.Fair ⟨request, socket, false, pool.poolGenerationNumber, old.pendingRequests⟩) :
    Kept limits turns pool result.1 := by
  have sound := inv.sound member
  have one_more : old.size + 1 ≤ pool.maxSocketsPerGroup := by
    rw [Group.hasAvailableSocketSlot, decide_eq_true_eq] at slot
    simp only [Group.size, none_idle, length_nil]
    omega
  have handed : world.connectsAtOnce = true → ∀ socket, Kept limits turns pool { pool.changed ref old { old with
      activeSocketCount := old.activeSocketCount + 1 } with
      handOuts := ⟨request, socket, false, pool.poolGenerationNumber, old.pendingRequests⟩ ::
        pool.handOuts } := by
    intro at_once socket
    have positive := sound.active
    have active : Group.Sound { old with activeSocketCount := old.activeSocketCount + 1 } :=
      ⟨by simp only; omega, sound.backup⟩
    refine @Kept.handOut _ _ pool inv groupName ref old member _ active ?_ ?_
      (List.Sublist.refl _) _ fun holds _ => fair holds at_once socket
    · simp only [Group.size]
      omega
    · intro _ _
      simp only [Group.size] at one_more ⊢
      omega
  cases connected with
  | now socket connects => exact handed (by rw [World.connectsAtOnce, connects]; rfl) socket
  | failedWith netError socket connects =>
    exact handed (by rw [World.connectsAtOnce, connects]; rfl) socket
  | failed netError connects => exact .sweep inv member
  | later connects =>
    have size : (old.startJob world pool).size = old.size + 1 := by
      rw [Group.startJob]
      split
      · simp only [Group.size, length_cons]
        omega
      · simp only [Group.size, length_cons]
        omega
    have started : (old.startJob world pool).Sound := by
      rw [Group.startJob]
      split
      · exact ⟨sound.active, fun _ => ⟨rfl, by simp⟩⟩
      · exact ⟨sound.active, fun task => ⟨(sound.backup task).1, by simp⟩⟩
    have queue : (old.startJob world pool).pendingRequests = old.pendingRequests := by
      rw [Group.startJob]
      split <;> rfl
    have kept : Kept limits turns pool (pool.changed ref old (old.startJob world pool)) := by
      refine .changed inv member started ?_ ?_ (by rw [queue])
      · omega
      · intro _ _
        omega
    refine kept.trans (.startTimer kept.inv (changed_member member _) old ?_)
    rw [Group.startJob]
    split
    · exact .inr rfl
    · exact .inl rfl

theorem Answered.kept (world : World) (request : Request) {result : Pool × Result}
    (answered : @Answered world groupName ref request pool old result)
    (fair : turns → Ordered pool → old.servedAtOnce world pool = true → ∀ handOut : HandOut,
      handOut.request = request → handOut.pending = old.pendingRequests → handOut.Fair) :
    Kept limits turns pool result.1 := by
  refine .given_order ?_
  have sound := inv.sound member
  have limit := inv.limit
  have dropped : Kept limits (turns ∧ Ordered pool) pool (pool.changed ref old { old with idleSockets := [] }) :=
    .drop inv member (Nat.zero_le _)
  cases answered with
  | reused dead idleSocket rest split live =>
    have length : old.idleSockets.length = dead.length + (rest.length + 1) := by
      rw [split, length_append, length_cons]
    have positive := sound.active
    have active : Group.Sound { old with
        idleSockets := rest
        activeSocketCount := old.activeSocketCount + 1 } :=
      ⟨by simp only; omega, sound.backup⟩
    refine @Kept.handOut _ _ pool inv groupName ref old member _ active ?_ ?_
      (List.Sublist.refl _) _ fun holds ordered =>
        fair holds.1 ordered (by simp [Group.servedAtOnce, split, live]) _ rfl rfl
    · simp only [Group.size, Pool.size]
      omega
    · intro _ within
      simp only [Group.size] at within ⊢
      omega
  | noSlot dead no_slot => exact dropped
  | atLimit dead slot full none_idle => exact dropped
  | connects dead slot mid made_room connected =>
    have roomy : Kept limits (turns ∧ Ordered pool) _ mid := made_room.kept dropped.inv
    have there := made_room.member dropped.inv.distinct (changed_member member _) rfl
    have slot' : Group.hasAvailableSocketSlot mid.maxSocketsPerGroup { old with idleSockets := [] } = true := by
      rw [roomy.perGroup]
      exact slot
    refine (dropped.trans roomy).trans (connected.kept roomy.inv there world request rfl slot'
      (made_room.room dropped.inv) fun holds at_once socket => ?_)
    have roomy' := made_room.before
    rw [changed_size] at roomy'
    simp only [Group.size, Pool.changed, length_nil] at roomy'
    refine fair holds.1 holds.2 ?_ _ rfl rfl
    simp only [Group.servedAtOnce, Bool.or_eq_true, Bool.and_eq_true, decide_eq_true_eq]
    exact .inr ⟨⟨slot, by omega⟩, at_once⟩

end Kept

end Glopen.Socket

import Glopen.Socket.Sweeps

/-! Runs of the pool: its counters, the limit of each group, and the order of the requests. -/
namespace Glopen.Socket

open RefMap
variable {state state' : State} {maxSockets maxSocketsPerGroup : Int}
  {allowed : World → Event → State → Prop}

inductive Reaches (allowed : World → Event → State → Prop) (start : State) : State → Prop
  | start : Reaches allowed start start
  | step {world : World} {event : Event} {state state' : State} (earlier : Reaches allowed start state)
      (enabled : state.enabled event = true) (holds : allowed world event state)
      (ran : step world event state = .ok state') : Reaches allowed start state'

def BackupFits (world : World) (event : Event) (state : State) : Prop :=
  ∀ groupName timer, event = .backupSocketTimer groupName timer →
    ¬ StartsTooMany world groupName state.pool

def WaitsItsTurn (world : World) (event : Event) (state : State) : Prop :=
  ∀ groupName handle priority, event = .requestSocket groupName handle priority →
    ¬ Overtakes world groupName priority state.pool

def State.Named (state : State) : Prop :=
  ∀ continuation ∈ state.running, continuation.Named state.pool

section Step

variable {world : World} {event : Event} {limits turns : Prop}
variable {after : Pool × Option Continuation}

theorem called_kept {called : Except Fault Pool} (named : state.Named)
    (kept : ∀ pool', called = .ok pool' → Kept limits turns state.pool pool') (ran : (do
      let pool ← called
      .ok (pool, state.running)) = .ok after) :
    Kept limits turns state.pool after.1 ∧ ∀ continuation ∈ after.2, continuation.Named after.1 := by
  cases called with
  | error fault => cases ran
  | ok pool' =>
    rw [ok_bind, Except.ok.injEq] at ran
    have kept := kept pool' rfl
    exact ran ▸ ⟨kept, fun continuation its => (named continuation its).kept kept⟩

theorem of_total {T : Type} {x : Except Fault T} {P : T → Prop} (total : ∃ result, x = .ok result ∧ P result)
    (result : T) (ran : x = .ok result) : P result := by
  obtain ⟨result', ran', holds⟩ := total
  rw [ran', Except.ok.injEq] at ran
  exact ran ▸ holds

section

variable (inv : Inv state.pool) (named : state.Named) (nonneg : 0 ≤ state.pool.maxSocketsPerGroup)
  (enabled : state.enabled event = true)
include inv named nonneg enabled

theorem handle_kept (ran : handle world event state = .ok after) :
    Kept (BackupFits world event state) (WaitsItsTurn world event state) state.pool after.1 ∧
      ∀ continuation ∈ after.2, continuation.Named after.1 := by
  cases event with
  | requestSocket groupName handle priority =>
    refine called_kept named (fun pool' ran => ?_) ran
    exact (of_total (requestSocket_of world inv nonneg groupName handle priority) pool' ran).weaken id
      fun waits => waits groupName handle priority rfl
  | cancelRequest groupName handle =>
    exact called_kept named (fun pool' ran => cancelRequest_kept inv ran) ran
  | releaseSocket groupName socket id =>
    exact called_kept named (fun pool' ran => releaseSocket_kept inv ran) ran
  | flush => exact called_kept named (fun pool' ran => of_total (flush_of world inv) pool' ran) ran
  | closeIdleSockets =>
    exact called_kept named (fun pool' ran => of_total (cleanupIdleSockets_of true world inv) pool' ran) ran
  | enableBackupJobs =>
    refine called_kept named (fun pool' ran => ?_) ran
    rw [Except.ok.injEq] at ran
    exact ran ▸ .same (inv.congr rfl rfl rfl rfl rfl rfl rfl) rfl rfl rfl le_rfl rfl rfl
  | connectJobComplete groupName job result =>
    simp only [State.enabled, Bool.and_eq_true, Pool.connecting, List.any_eq_true,
      decide_eq_true_eq, List.contains_iff_mem] at enabled
    obtain ⟨-, ⟨key, ref, g⟩, member, rfl, inside⟩ := enabled
    exact of_total (onConnectJobComplete_of inv member inside result) after ran
  | backupSocketTimer groupName timer =>
    simp only [State.enabled, Bool.and_eq_true, List.contains_iff_mem] at enabled
    obtain ⟨kept, named⟩ := of_total (onBackupSocketTimerFired_of world inv enabled.2) after ran
    exact ⟨kept.weaken (fun fits => fits groupName timer rfl) id, named⟩
  | cleanupTimer =>
    exact called_kept named (fun pool' ran => of_total (cleanupIdleSockets_of false world inv) pool' ran) ran
  | processPendingRequest index =>
    simp only [handle] at ran
    split at ran
    · rw [Except.ok.injEq] at ran
      exact ran ▸ ⟨.refl inv, fun _ nothing => by cases nothing⟩
    · rename_i task at_index
      have taken : Kept (BackupFits world (.processPendingRequest index) state)
          (WaitsItsTurn world (.processPendingRequest index) state) state.pool
          { state.pool with tasks := state.pool.tasks.eraseIdx index } :=
        .same (inv.congr rfl rfl rfl rfl rfl rfl rfl) rfl rfl rfl le_rfl rfl rfl
      obtain ⟨kept, named⟩ := processPendingRequest_kept taken.inv ran
      exact ⟨taken.trans kept, named⟩
  | callbackReturns =>
    simp only [handle] at ran
    split at ran
    · rw [Except.ok.injEq] at ran
      exact ran ▸ ⟨.refl inv, fun _ nothing => by cases nothing⟩
    · rename_i continuation its
      have its_name := named continuation its
      cases ran' : returnFromCallback continuation state.pool with
      | error fault =>
        rw [ran'] at ran
        cases ran
      | ok pool' =>
        rw [ran', ok_bind, Except.ok.injEq] at ran
        exact ran ▸ ⟨returnFromCallback_kept inv its_name ran', fun _ nothing => by cases nothing⟩

theorem step_kept (ran : step world event state = .ok state') :
    Kept (BackupFits world event state) (WaitsItsTurn world event state) state.pool state'.pool ∧
      state'.Named := by
  rw [step] at ran
  cases ran' : handle world event state with
  | error fault =>
    rw [ran'] at ran
    cases ran
  | ok after =>
    rw [ran', ok_bind, Except.ok.injEq] at ran
    exact ran ▸ handle_kept inv named nonneg enabled ran'

end

end Step

theorem reaches_kept (positive : 0 ≤ maxSockets) (nonneg : 0 ≤ maxSocketsPerGroup)
    (limits turns : Prop) (fits : limits → ∀ world event state, allowed world event state →
      BackupFits world event state)
    (waits : turns → ∀ world event state, allowed world event state → WaitsItsTurn world event state)
    (run : Reaches allowed (State.new maxSockets maxSocketsPerGroup) state) :
    Kept limits turns (Pool.new maxSockets maxSocketsPerGroup) state.pool ∧ state.Named := by
  induction run with
  | start => exact ⟨.refl (.new positive maxSocketsPerGroup), fun _ nothing => by cases nothing⟩
  | @step world event state state' earlier enabled holds ran ih =>
    obtain ⟨kept, named⟩ := ih
    have nonneg' : 0 ≤ state.pool.maxSocketsPerGroup := by
      rw [kept.perGroup]
      exact nonneg
    obtain ⟨kept', named'⟩ := step_kept kept.inv named nonneg' enabled ran
    exact ⟨kept.trans (kept'.weaken (fun it => fits it world event state holds)
      fun it => waits it world event state holds), named'⟩

end Glopen.Socket

/-! The counters and the limits of the pool in every run, and the order in which the requests of a
group get their sockets. -/
namespace Glopen.Socket

open RefMap
variable {state state' : State} {maxSockets maxSocketsPerGroup : Int}
  {allowed : World → Event → State → Prop}

def play : List (World × Event) → State → Option State
  | [], state => some state
  | (world, event) :: events, state =>
    if state.enabled event then
      match step world event state with
      | .ok state' => play events state'
      | .error _ => none
    else none

theorem play_reaches {start : State} {events : List (World × Event)}
    (earlier : Reaches (fun _ _ _ => True) start state) (played : play events state = some state') :
    Reaches (fun _ _ _ => True) start state' := by
  induction events generalizing state with
  | nil =>
    rw [play, Option.some.injEq] at played
    exact played ▸ earlier
  | cons first events ih =>
    obtain ⟨world, event⟩ := first
    rw [play] at played
    split at played
    · rename_i enabled
      cases ran : step world event state with
      | error fault =>
        rw [ran] at played
        cases played
      | ok mid =>
        rw [ran] at played
        exact ih (.step earlier enabled trivial ran) played
    · cases played

theorem play_finds {start : State} {events : List (World × Event)} {found : State → Bool}
    (played : (play events start).any found = true) :
    ∃ state, Reaches (fun _ _ _ => True) start state ∧ found state = true := by
  cases result : play events start with
  | none =>
    rw [result] at played
    cases played
  | some state =>
    rw [result] at played
    exact ⟨state, play_reaches .start result, played⟩

def World.plain (job : Nat) : World :=
  ⟨fun _ => true, fun _ => true, fun _ => false, fun _ => false, fun _ => none, job, job + 1⟩

def oneRequest : State :=
  ⟨{ Pool.new 10 2 with
    groupMap := [⟨[], 0, ⟨[], [1], [⟨1, .medium, 0⟩], 0, some 2, some 0⟩⟩]
    connectingSocketCount := 1
    backupJobsEnabled := true
    timers := [(0, [])]
    nextGroup := 1
    nextTimer := 1
    issued := 1 }, none⟩

theorem oneRequest_reached (enabling : allowed (.plain 1) .enableBackupJobs (State.new 10 2))
    (requesting : allowed (.plain 1) (.requestSocket [] 1 .medium)
      ⟨{ Pool.new 10 2 with backupJobsEnabled := true }, none⟩) :
    Reaches allowed (State.new 10 2) oneRequest := by
  have enabled : Reaches allowed (State.new 10 2)
      ⟨{ Pool.new 10 2 with backupJobsEnabled := true }, none⟩ := .step .start rfl enabling rfl
  exact .step enabled rfl requesting (by decide +kernel)

def backupBesideIdle : List (World × Event) :=
  [(.plain 1, .enableBackupJobs), (.plain 1, .requestSocket [] 1 .medium),
    (.plain 3, .requestSocket [] 2 .medium),
    (.plain 5, .cancelRequest [] 2),
    (.plain 5, .connectJobComplete [] 3 (.ok 30)),
    (.plain 5, .callbackReturns),
    (.plain 5, .releaseSocket [] 30 0),
    (.plain 5, .processPendingRequest 0),
    (.plain 5, .backupSocketTimer [] 0),
    (.plain 5, .requestSocket [] 4 .medium)]

def overtaken : List (World × Event) :=
  [(.plain 1, .requestSocket [] 1 .medium), (.plain 3, .connectJobComplete [] 1 (.ok 10)),
    (.plain 3, .callbackReturns),
    (.plain 3, .requestSocket [] 2 .medium),
    (.plain 3, .releaseSocket [] 10 0),
    (.plain 3, .requestSocket [] 3 .medium)]

end Glopen.Socket

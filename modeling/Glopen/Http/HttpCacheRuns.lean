import Glopen.Http.HttpCacheRemoval

/-! Runs of http_cache.cc: who shares an entry, in which order, and who is told. -/
namespace Glopen.Http

variable {fair : Prop} {cache : HttpCache} {roles : Roles} {waits : Waits} {event : Event}
  {meets : HttpCache → Event → Prop}

theorem new_sound : Sound fair none .new (fun _ => none) fun _ => none := by
  refine ⟨⟨fun _ _ its => (by cases its), fun _ _ _ role => (by cases role), List.nodup_nil,
    fun _ there => (by cases there), fun _ _ its => (by cases its), fun _ live => absurd rfl live⟩,
    ⟨fun w t => ?_, fun w => ?_, fun _ its => (by cases its), fun _ there => by cases there⟩,
    fun _ _ => fits_out rfl rfl, fun _ none => (by cases none), fun _ active => absurd rfl active,
    fun _ _ its => (by cases its), fun _ there => by cases there⟩
  · cases w <;> exact ⟨fun its => (by cases its), fun there => by cases there⟩
  · cases w <;> exact List.nodup_nil

theorem Sound.run (sound : Sound fair none cache roles waits) (allowed : event.Allowed cache)
    (not_listed : ∀ t success, event = .destroy t success → t ∉ cache.listed)
    (orderly : fair → ∀ t e, cache.arrival event = some (t, e) → ¬ cache.Overtakes t e) :
    ∃ roles' waits', Sound fair none (event.run cache) roles' waits' := by
  cases event with
  | setup t key writes => exact ⟨roles, waits, sound.setup allowed key writes⟩
  | createBackend callback rv =>
    obtain ⟨waits', sound'⟩ := sound.createBackend callback rv
    exact ⟨roles, waits', sound'⟩
  | getBackend t =>
    obtain ⟨waits', sound'⟩ := sound.getBackend allowed
    exact ⟨roles, waits', sound'⟩
  | openEntry t rv =>
    refine sound.openEntry allowed rv fun asked e active => orderly asked t e ?_
    rw [HttpCache.arrival, active]
    rfl
  | createEntry t rv => exact sound.createEntry allowed.1 allowed.2
  | doomEntry key t rv =>
    obtain ⟨waits', sound'⟩ := sound.doomEntry rv allowed
    exact ⟨roles, waits', sound'⟩
  | doneWriting t success =>
    obtain ⟨e, holds⟩ := Option.ne_none_iff_exists'.mp allowed.1
    obtain ⟨entry, its, -⟩ := sound.held holds
    rw [Event.run, release_eq holds its]
    cases success with
    | true => exact ⟨_, _, sound.doneWriting holds its allowed.2⟩
    | false => exact ⟨_, _, sound.failed holds its allowed.2⟩
  | doneReading t =>
    obtain ⟨e, holds⟩ := Option.ne_none_iff_exists'.mp allowed.1
    obtain ⟨entry, its, -⟩ := sound.held holds
    rw [Event.run, release_eq holds its]
    exact ⟨_, _, sound.doneReading holds its allowed.2⟩
  | doneWithEntry t success =>
    obtain ⟨e, holds⟩ := Option.ne_none_iff_exists'.mp allowed
    obtain ⟨roles', waits', sound', -⟩ := sound.doneWith holds success
    exact ⟨roles', waits', sound'⟩
  | convert t =>
    obtain ⟨e, holds⟩ := Option.ne_none_iff_exists'.mp allowed.1
    obtain ⟨entry, its, -⟩ := sound.held holds
    rw [Event.run, HttpCache.convert, holds]
    simp only
    rw [its]
    exact ⟨_, _, sound.convert holds its allowed.2⟩
  | destroy t success => exact sound.destroyed success (not_listed t success rfl)
  | complete key result =>
    obtain ⟨-, op, its, contract⟩ := allowed
    rw [Event.run, its]
    exact sound.onIOComplete its contract
  | backendCreated result =>
    obtain ⟨waits', sound'⟩ := sound.backendCreated result
    exact ⟨roles, waits', sound'⟩
  | processPendingQueue e =>
    obtain ⟨roles', sound'⟩ := sound.processed allowed.2
    exact ⟨roles', waits, sound'⟩
  | resume => exact sound.resumed orderly

def CancelsNoneListed (cache : HttpCache) (event : Event) : Prop :=
  ∀ t success, event = .destroy t success → t ∉ cache.listed

def OvertakesNone (cache : HttpCache) (event : Event) : Prop :=
  ∀ t e, cache.arrival event = some (t, e) → ¬ cache.Overtakes t e

theorem CacheRun.sound (run : CacheRun meets cache)
    (cancels : ∀ cache event roles waits, Sound fair none cache roles waits → meets cache event →
      CancelsNoneListed cache event)
    (orderly : fair → ∀ cache event, meets cache event → OvertakesNone cache event) :
    ∃ roles waits, Sound fair none cache roles waits := by
  induction run with
  | new => exact ⟨_, _, new_sound⟩
  | event run allowed met before =>
    obtain ⟨roles, waits, sound⟩ := before
    exact sound.run allowed (cancels _ _ _ _ sound met) fun asked => orderly asked _ _ met

def HttpCache.Follow (meets : HttpCache → Event → Prop) : HttpCache → List Event → Prop
  | _, [] => True
  | cache, event :: events =>
    event.Allowed cache ∧ meets cache event ∧ HttpCache.Follow meets (event.run cache) events

theorem CacheRun.events {events : List Event} (run : CacheRun meets cache) (follow : cache.Follow meets events) :
    CacheRun meets (events.foldl Event.run cache) := by
  induction events generalizing cache with
  | nil => exact run
  | cons event events rest => exact rest (run.event follow.1 follow.2.1) follow.2.2

def ActiveEntry.Has (entry : ActiveEntry) (t : Trans) : Role → Prop
  | .writer => entry.writer = some t
  | .reader => t ∈ entry.readers
  | .queued => t ∈ entry.pendingQueue

theorem Locked.has {e : EntryId} {entry : ActiveEntry}
    (locked : Locked cache roles e entry) {t : Trans} {role : Role} (has : entry.Has t role) :
    roles t = some (e, role) := by
  cases role with
  | writer => exact (locked.writer t).mp has
  | reader => exact (locked.readers t).mp has
  | queued => exact (locked.queue t).mp has

def CallbacksCancelNone (cache : HttpCache) (event : Event) : Prop :=
  ∀ t success, event = .destroy t success → cache.frames = [] ∨ (cache.trans t).cachePending = false

theorem CallbacksCancelNone.listed
    (cancels : CallbacksCancelNone cache event) (sound : Sound fair none cache roles waits) :
    CancelsNoneListed cache event := by
  intro t success destroys listed
  rcases cancels t success destroys with quiet | not_pending
  · rw [HttpCache.listed, quiet] at listed
    cases listed
  · have fit := sound.fit t
    rw [sound.listed_waits t listed] at fit
    rw [fit.waits.2.1] at not_pending
    cases not_pending

theorem entries_locked (run : CacheRun CallbacksCancelNone cache) :
    (∀ e entry, cache.entries e = some entry → (entry.writer ≠ none → entry.readers = []) ∧
      (entry.pendingQueue ≠ [] → entry.writer ≠ none ∨ entry.readers ≠ [] ∨ e ∈ cache.tasks) ∧
      entry.readers.Nodup ∧ entry.pendingQueue.Nodup) ∧
    (∀ t e e' entry entry' role role', cache.entries e = some entry →
      cache.entries e' = some entry' → entry.Has t role → entry'.Has t role' → e = e' ∧ role = role') ∧
    (∀ key old, .activated key old ∈ cache.notes → old = none) ∧
    ∀ entry posted, .deleted entry posted ∈ cache.notes →
      entry.writer = none ∧ entry.readers = [] ∧ entry.pendingQueue = [] ∧ posted = false := by
  obtain ⟨roles, waits, sound⟩ : ∃ roles waits, Sound False none cache roles waits := run.sound
    (fun _ _ _ _ sound cancels => cancels.listed sound) fun asked => asked.elim
  refine ⟨fun e entry its => ?_, fun t e e' entry entry' role role' its its' has has' => ?_,
    fun key old there => sound.notes _ there, fun entry posted there => sound.notes _ there⟩
  · have locked := sound.entries.each e entry its
    refine ⟨fun written => (locked.exclusive written).1, fun queue => ?_, locked.distinct,
      locked.toMembers.queue_nodup⟩
    rw [← locked.posted]
    exact locked.woken queue
  · have one := (sound.entries.each e entry its).has has
    rw [(sound.entries.each e' entry' its').has has'] at one
    cases one
    exact ⟨rfl, rfl⟩

def sharing : List Event :=
  [.setup 0 "k" true, .createEntry 0 (some true), .doneWriting 0 true, .processPendingQueue 0,
    .setup 1 "k" false, .openEntry 1 (some true), .setup 2 "k" true, .openEntry 2 none]

theorem sharing_follows : HttpCache.Follow CallbacksCancelNone .new sharing :=
  ⟨⟨rfl, rfl, rfl⟩, nofun, ⟨⟨rfl, rfl, rfl⟩, fun _ => rfl⟩, nofun, ⟨nofun, rfl⟩, nofun,
    ⟨rfl, List.mem_singleton_self 0⟩, nofun, ⟨rfl, rfl, rfl⟩, nofun, ⟨rfl, rfl, rfl⟩, nofun,
    ⟨rfl, rfl, rfl⟩, nofun, ⟨rfl, rfl, rfl⟩, nofun, trivial⟩

/-- A reader has the entry, and a writer waits. -/
theorem entries_locked_sharing :
    let cache := sharing.foldl Event.run .new
    ∃ entry, cache.entries 1 = some entry ∧ entry.pendingQueue = [2] ∧
      (entry.writer ≠ none ∨ entry.readers ≠ [] ∨ 1 ∈ cache.tasks) :=
  ⟨⟨"k", none, [1], [2], false, false⟩, rfl, rfl,
    ((entries_locked (CacheRun.new.events sharing_follows)).1 1 _ rfl).2.1 (by decide)⟩

theorem accesses_in_order
    (run : CacheRun (fun cache event => CallbacksCancelNone cache event ∧ OvertakesNone cache event) cache)
    (t : Trans) (e : EntryId) (earlier : List Trans) (there : .access t e earlier ∈ cache.notes) :
    earlier = [] := by
  obtain ⟨roles, waits, sound⟩ : ∃ roles waits, Sound True none cache roles waits := run.sound
    (fun _ _ _ _ sound met => met.1.listed sound) fun _ _ _ met => met.2
  exact sound.notes _ there trivial

/-- The writer that waits is promoted. -/
theorem accesses_in_order_waiting :
    let events : List Event := [.setup 0 "k" true, .createEntry 0 (some true), .setup 1 "k" true,
      .openEntry 1 none, .doneWriting 0 true, .processPendingQueue 0]
    .access 1 0 [] ∈ (events.foldl Event.run .new).notes ∧
      ∀ t e earlier, .access t e earlier ∈ (events.foldl Event.run .new).notes → earlier = [] := by
  refine ⟨by decide, accesses_in_order (CacheRun.new.events ?_)⟩
  have waits : OvertakesNone (List.foldl Event.run .new [.setup 0 "k" true,
      .createEntry 0 (some true), .setup 1 "k" true]) (.openEntry 1 none) := by
    rintro t e same ⟨entry, its, -, unwritten, -⟩
    cases same
    cases its
    cases unwritten
  exact ⟨⟨rfl, rfl, rfl⟩, ⟨nofun, nofun⟩, ⟨⟨rfl, rfl, rfl⟩, fun _ => rfl⟩, ⟨nofun, nofun⟩,
    ⟨rfl, rfl, rfl⟩, ⟨nofun, nofun⟩, ⟨rfl, rfl, rfl⟩, ⟨nofun, waits⟩, ⟨nofun, rfl⟩, ⟨nofun, nofun⟩,
    ⟨rfl, List.mem_singleton_self 0⟩, ⟨nofun, nofun⟩, trivial⟩

/-- A reader comes before the writer that waits. -/
theorem reader_overtakes : ∃ cache, CacheRun CallbacksCancelNone cache ∧ .access 3 1 [2] ∈ cache.notes := by
  have shared := CacheRun.new.events sharing_follows
  have follows : HttpCache.Follow CallbacksCancelNone (sharing.foldl Event.run .new)
      [.setup 3 "k" false, .openEntry 3 none] :=
    ⟨⟨rfl, rfl, rfl⟩, nofun, ⟨rfl, rfl, rfl⟩, nofun, trivial⟩
  exact ⟨_, shared.events follows, by decide⟩

theorem cancelled_once (run : CacheRun CancelsNoneListed cache) :
    (∀ t found, .removed t found ∈ cache.notes → found = true) ∧
    (∀ t pending, .notified t pending ∈ cache.notes → pending = true) ∧
    ∀ t, (cache.trans t).cachePending = true →
      ((∃ removed, cache.removePendingTransaction t = some removed) ↔ t ∉ cache.listed) := by
  obtain ⟨roles, waits, sound⟩ : ∃ roles waits, Sound False none cache roles waits :=
    run.sound (fun _ _ _ _ _ met => met) fun asked => asked.elim
  refine ⟨fun t found there => sound.notes _ there, fun t pending there => sound.notes _ there,
    fun t pending => ⟨?_, sound.finds pending⟩⟩
  rintro ⟨removed, found⟩ listed
  obtain ⟨frames, roles', waits', removed'⟩ := sound.removedPending found
  have listed' : t ∈ removed.listed := by
    rw [HttpCache.listed, frames]
    exact listed
  have no_wait := (removed'.due t rfl).2.1
  rw [(removed'.waiting.member .listed t).mpr listed'] at no_wait
  cases no_wait

/-- A transaction is destroyed while it waits for its entry. -/
theorem cancelled_once_waiting :
    let events : List Event := [.setup 0 "k" true, .createEntry 0 none, .destroy 0 false]
    .removed 0 true ∈ (events.foldl Event.run .new).notes ∧
      ∀ t found, .removed t found ∈ (events.foldl Event.run .new).notes → found = true := by
  refine ⟨by decide, (cancelled_once (CacheRun.new.events ?_)).1⟩
  exact ⟨⟨rfl, rfl, rfl⟩, nofun, ⟨⟨rfl, rfl, rfl⟩, nofun⟩, nofun, rfl, fun _ _ same => by cases same; decide,
    trivial⟩

/-- The callback of the first transaction destroys one that is told later: it is not found, and told. -/
theorem cancelled_and_told : ∃ cache, CacheRun (fun _ _ => True) cache ∧
    .removed 2 false ∈ cache.notes ∧ .notified 2 false ∈ cache.notes := by
  have follows : HttpCache.Follow (fun _ _ => True) .new [.setup 0 "k" true, .createEntry 0 none,
      .setup 1 "k" true, .openEntry 1 none, .setup 2 "k" true, .openEntry 2 none, .complete "k" true,
      .destroy 2 false, .resume, .resume] :=
    ⟨⟨rfl, rfl, rfl⟩, trivial, ⟨⟨rfl, rfl, rfl⟩, nofun⟩, trivial, ⟨rfl, rfl, rfl⟩, trivial, ⟨rfl, rfl, rfl⟩,
      trivial, ⟨rfl, rfl, rfl⟩, trivial, ⟨rfl, rfl, rfl⟩, trivial, ⟨rfl, _, rfl, fun _ _ => rfl⟩, trivial,
      rfl, trivial, nofun, trivial, nofun, trivial, trivial⟩
  exact ⟨_, CacheRun.new.events follows, by decide, by decide⟩

end Glopen.Http

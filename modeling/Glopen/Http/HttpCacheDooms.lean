import Glopen.Http.HttpCacheChanges

/-! Runs of http_cache.cc that doom entries: which assertions hold, and how often an entry ends. -/
namespace Glopen.Http

section Runs

variable {fair : Prop} {cache : HttpCache} {roles : Roles} {waits : Waits} {e : EntryId}
  {entry : ActiveEntry}

structure Kept (cache : HttpCache) : Prop where
  sound : ∃ roles waits, Sound False none cache roles waits
  attended : ∀ e entry, cache.entries e = some entry → entry.Attended
  manned : cache.Manned

theorem new_kept : Kept .new :=
  ⟨⟨_, _, new_sound⟩, fun _ _ its => (by cases its), fun _ _ its => by cases its⟩

variable {event : Event} {later : List Event}

theorem Kept.changes (kept : Kept cache) (allowed : event.Allowed cache) : Changes cache event := by
  obtain ⟨roles, waits, sound⟩ := kept.sound
  exact sound.changes kept.attended kept.manned allowed

theorem Changes.keeps (changes : Changes cache event) : Keeps cache (event.run cache) := by
  cases changes with
  | same keeps _ _ => exact keeps
  | put puts _ _ _ _ => exact puts.toKeeps
  | gone _ _ _ _ _ keeps _ => exact keeps

theorem Kept.step (kept : Kept cache) {event : Event} (allowed : event.Allowed cache)
    (met : CancelsNoneListed cache event) : Kept (event.run cache) := by
  have changes := kept.changes allowed
  obtain ⟨roles, waits, sound⟩ := kept.sound
  refine ⟨sound.run allowed met fun asked => asked.elim, fun e entry its => ?_,
    changes.keeps.manned kept.manned⟩
  cases changes with
  | same _ entries _ =>
    rw [entries] at its
    exact kept.attended e entry its
  | put puts attended _ _ _ =>
    rw [puts.entries] at its
    split at its
    · cases its
      exact attended
    · exact kept.attended e entry its
  | gone _ _ _ _ _ _ entries =>
    rw [entries] at its
    split at its
    · cases its
    · exact kept.attended e entry its

theorem CacheRun.kept (run : CacheRun CancelsNoneListed cache) : Kept cache := by
  induction run with
  | new => exact new_kept
  | event _ allowed met kept => exact kept.step allowed met

def HttpCache.Awaiting (key : String) (cache : HttpCache) : Prop :=
  ∃ e entry, cache.activeEntries key = some e ∧ cache.entries e = some entry ∧ e ∈ cache.tasks ∧
    entry.readers = []

theorem Kept.doomEntry_checks (kept : Kept cache) (key : String) :
    cache.DoomEntryChecks key ↔ ¬ cache.Awaiting key := by
  obtain ⟨roles, waits, sound⟩ := kept.sound
  rw [HttpCache.DoomEntryChecks]
  cases active : cache.activeEntries key with
  | none =>
    refine ⟨fun _ => ?_, fun _ => active⟩
    rintro ⟨e, entry, its, -⟩
    rw [active] at its
    cases its
  | some e =>
    simp only
    constructor
    · rintro used ⟨e', entry, its_key, its, posted, no_readers⟩
      rw [active] at its_key
      cases its_key
      have written := (used entry its).resolve_right fun readers => readers no_readers
      exact written (sound.entries.unwritten its posted)
    · intro not_awaiting entry its
      by_contra unused
      rw [not_or, not_not, not_not] at unused
      have will := kept.attended e entry its unused.1 unused.2
      exact not_awaiting ⟨e, entry, active, its, (sound.entries.each e entry its).posted.mp will, unused.2⟩

theorem Changes.checks {call : Destruction} (changes : Changes cache event)
    (destroys : event.destroys cache = some call) : call.Checks := by
  cases changes with
  | same _ _ quiet =>
    rw [quiet] at destroys
    cases destroys
  | put _ _ _ _ quiet =>
    rw [quiet] at destroys
    cases destroys
  | gone its_call checks _ _ _ _ _ =>
    rw [its_call] at destroys
    cases destroys
    exact checks

theorem task_finalizes (its : cache.entries e = some entry) (doomed : entry.doomed = true)
    (abandoned : entry.Abandoned) : (Event.processPendingQueue e).finalizes cache e = true := by
  have destroys : Event.destroys cache (.processPendingQueue e) = some ⟨e,
      { entry with willProcessPendingQueue := false }, HttpCache.setEntry e
        { entry with willProcessPendingQueue := false } { cache with tasks := cache.tasks.erase e }⟩ := by
    rw [Event.destroys, HttpCache.taskDestroys, its]
    exact if_pos ⟨abandoned.2.2, abandoned.2.1⟩
  rw [Event.finalizes, destroys]
  simp [doomed]

theorem Changes.doomed (changes : Changes cache event)
    (its : cache.entries e = some entry) (doomed : entry.doomed = true) :
    (event.finalizes cache e = false ∧ ∃ entry', (event.run cache).entries e = some entry' ∧
      entry'.doomed = true ∧ (entry.Abandoned → entry' = entry ∧ event ≠ .processPendingQueue e)) ∨
    (event.finalizes cache e = true ∧ (event.run cache).entries e = none ∧
      (entry.Abandoned → event = .processPendingQueue e)) := by
  have no_task : event.finalizes cache e = false → entry.Abandoned → event ≠ .processPendingQueue e := by
    rintro not_final abandoned rfl
    rw [task_finalizes its doomed abandoned] at not_final
    cases not_final
  have still : event.finalizes cache e = false → (event.run cache).entries e = cache.entries e →
      event.finalizes cache e = false ∧ ∃ entry', (event.run cache).entries e = some entry' ∧
        entry'.doomed = true ∧ (entry.Abandoned → entry' = entry ∧ event ≠ .processPendingQueue e) :=
    fun not_final same => ⟨not_final, entry, same.trans its, doomed, fun abandoned =>
      ⟨rfl, no_task not_final abandoned⟩⟩
  cases changes with
  | same _ entries quiet =>
    have not_final : event.finalizes cache e = false := by rw [Event.finalizes, quiet]; rfl
    exact .inl (still not_final (congrFun entries e))
  | @put x entry' puts _ _ busy quiet =>
    have not_final : event.finalizes cache e = false := by rw [Event.finalizes, quiet]; rfl
    by_cases here : e = x
    · subst here
      obtain ⟨used, doomed'⟩ := busy entry its doomed
      exact .inl ⟨not_final, entry', (puts.entries e).trans (if_pos rfl), doomed', fun abandoned =>
        absurd abandoned used⟩
    · exact .inl (still not_final ((puts.entries e).trans (if_neg here)))
  | @gone call entry' destroys _ its_call same alone _ entries =>
    by_cases here : e = call.e
    · subst here
      rw [its] at its_call
      cases its_call
      refine .inr ⟨?_, (entries call.e).trans (if_pos rfl), alone⟩
      rw [Event.finalizes, destroys]
      simp [same, doomed]
    · have not_final : event.finalizes cache e = false := by
        rw [Event.finalizes, destroys]
        simp [Ne.symm here]
      exact .inl (still not_final ((entries e).trans (if_neg here)))

theorem Changes.absent (changes : Changes cache event) (gone : cache.entries e = none)
    (old : e < cache.nextEntry) : event.finalizes cache e = false ∧ (event.run cache).entries e = none := by
  cases changes with
  | same _ entries quiet =>
    rw [Event.finalizes, quiet, entries]
    exact ⟨rfl, gone⟩
  | @put x entry' puts _ new _ quiet =>
    have other : e ≠ x := by
      rintro rfl
      exact Nat.lt_irrefl _ (new gone ▸ old)
    rw [Event.finalizes, quiet, puts.entries, if_neg other]
    exact ⟨rfl, gone⟩
  | @gone call entry' destroys _ its_call _ _ _ entries =>
    have other : e ≠ call.e := by
      rintro rfl
      rw [gone] at its_call
      cases its_call
    rw [Event.finalizes, destroys, entries, if_neg other]
    exact ⟨by simp [Ne.symm other], gone⟩

theorem Kept.absent_run (kept : Kept cache) (gone : cache.entries e = none) (old : e < cache.nextEntry)
    (follow : cache.Follow CancelsNoneListed later) :
    cache.finalizations e later = 0 ∧ (later.foldl Event.run cache).entries e = none := by
  induction later generalizing cache with
  | nil => exact ⟨rfl, gone⟩
  | cons event later rest =>
    obtain ⟨allowed, met, follow⟩ := follow
    have changes := kept.changes allowed
    obtain ⟨not_final, still⟩ := changes.absent gone old
    obtain ⟨none_later, at_end⟩ := rest (kept.step allowed met) still
      (Nat.lt_of_lt_of_le old changes.keeps.next) follow
    rw [HttpCache.finalizations, not_final, none_later]
    exact ⟨rfl, at_end⟩

theorem Kept.doomed_run (kept : Kept cache) (its : cache.entries e = some entry)
    (doomed : entry.doomed = true) (follow : cache.Follow CancelsNoneListed later) :
    cache.finalizations e later = (if (later.foldl Event.run cache).entries e = none then 1 else 0) ∧
      (entry.Abandoned → (cache.finalizations e later = 1 ↔ .processPendingQueue e ∈ later)) := by
  induction later generalizing cache entry with
  | nil => simp [HttpCache.finalizations, its]
  | cons event later rest =>
    obtain ⟨allowed, met, follow⟩ := follow
    have changes := kept.changes allowed
    obtain ⟨roles, waits, sound⟩ := kept.sound
    have old := sound.entries.fresh e (its ▸ Option.some_ne_none _)
    rcases changes.doomed its doomed with
      ⟨not_final, entry', its', doomed', alone⟩ | ⟨final, gone, alone⟩
    · obtain ⟨count, task⟩ := rest (kept.step allowed met) its' doomed' follow
      rw [HttpCache.finalizations, not_final, if_neg Bool.false_ne_true, Nat.zero_add]
      refine ⟨count, fun abandoned => ?_⟩
      obtain ⟨rfl, other⟩ := alone abandoned
      rw [task abandoned, List.mem_cons]
      exact ⟨.inr, fun either => either.resolve_left fun same => other same.symm⟩
    · obtain ⟨none_later, at_end⟩ := (kept.step allowed met).absent_run gone
        (Nat.lt_of_lt_of_le old changes.keeps.next) follow
      rw [HttpCache.finalizations, final, if_pos rfl, none_later, List.foldl_cons, if_pos at_end]
      refine ⟨rfl, fun abandoned => ⟨fun _ => ?_, fun _ => rfl⟩⟩
      rw [alone abandoned]
      exact List.mem_cons_self ..

def dooming : List Event :=
  [.setup 0 "k" true, .createEntry 0 (some true), .setup 1 "k" true, .doomEntry "k" (some 1) none,
    .createEntry 1 (some true)]

theorem dooming_follows : HttpCache.Follow CancelsNoneListed .new dooming :=
  ⟨⟨rfl, rfl, rfl⟩, nofun, ⟨⟨rfl, rfl, rfl⟩, fun _ => rfl⟩, nofun, ⟨rfl, rfl, rfl⟩, nofun,
    fun _ same => (by cases same; exact ⟨⟨rfl, rfl, rfl⟩, rfl⟩), nofun, ⟨⟨rfl, rfl, rfl⟩, fun _ => rfl⟩,
    nofun, trivial⟩

end Runs

end Glopen.Http

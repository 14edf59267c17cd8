import Glopen.Http.HttpCacheSound

/-! The events of http_cache.cc that end an access, or promote a transaction. -/
namespace Glopen.Http

open Option

def HttpCache.released (t : Trans) (cache : HttpCache) : HttpCache :=
  cache.setTrans t { cache.trans t with entry := none }

theorem Entries.released {cache : HttpCache} {roles : Roles} (entries : Entries cache roles)
    (t : Trans) : Entries (cache.released t) roles := entries.setTrans ⟨rfl, rfl⟩

section Events

variable {fair : Prop} {cache cache' : HttpCache} {roles : Roles} {waits : Waits} {t : Trans} {e : EntryId}
  {entry : ActiveEntry} (sound : Sound fair none cache roles waits)
include sound

theorem Sound.setup (idle : (cache.trans t).Idle) (key : String) (writes : Bool) :
    Sound fair none (cache.setTrans t { cache.trans t with key, writes }) roles waits := by
  obtain ⟨no_role, no_wait⟩ := (sound.fit t).idle idle
  have entries : Entries (cache.setTrans t { cache.trans t with key, writes }) roles := by
    refine sound.entries.congr rfl rfl rfl rfl rfl (fun x e queued => ?_) (Nat.le_refl _)
    have other : x ≠ t := by
      rintro rfl
      rw [no_role] at queued
      cases queued
    rw [setTrans_other cache _ other]
    exact ⟨rfl, rfl⟩
  have same := @roles_set_same _ roles _ no_role
  rw [← same] at entries ⊢
  refine sound.touched (touches_setTrans ..) entries ?_ no_wait fun _ none => by cases none
  rw [no_wait, setTrans_self]
  exact fits_out idle.2.1 idle.1

section

variable (holds : (cache.trans t).entry = some e) (its : cache.entries e = some entry)
include holds its

theorem Sound.doneReading (reads : (cache.trans t).writes = false) :
    Sound fair none ((cache.released t).doneReadingFromEntry t e entry) (roles.set t none) waits := by
  obtain ⟨-, -, -, role⟩ := (sound.fit t).holds holds
  rw [reads] at role
  exact sound.ended holds (touches_process ..) (processPendingQueue_trans ..)
    ((sound.entries.released t).doneReading its role)

theorem Sound.doneWriting (writes : (cache.trans t).writes = true) :
    Sound fair none ((cache.released t).doneWritingToEntry e entry true) (roles.set t none) waits := by
  obtain ⟨-, -, -, role⟩ := (sound.fit t).holds holds
  rw [writes] at role
  exact sound.ended holds (touches_process ..) (processPendingQueue_trans ..)
    ((sound.entries.released t).doneWriting its role)

theorem Sound.convert (writes : (cache.trans t).writes = true) :
    Sound fair none ((cache.setTrans t { cache.trans t with writes := false }).convertWriterToReader t e entry)
      (roles.set t (some (e, .reader))) waits := by
  obtain ⟨no_wait, not_pending, alive, role⟩ := (sound.fit t).holds holds
  rw [writes] at role
  have reads : Entries (cache.setTrans t { cache.trans t with writes := false }) roles :=
    sound.entries.setTrans ⟨rfl, rfl⟩
  refine sound.touched ((touches_setTrans ..).trans (touches_process ..)) (reads.converted its role) ?_
    no_wait fun _ none => by cases none
  have same : ((cache.setTrans t { cache.trans t with writes := false }).convertWriterToReader t e
      entry).trans t = { cache.trans t with writes := false } :=
    (congrFun (processPendingQueue_trans ..) t).trans (setTrans_self ..)
  rw [no_wait, same]
  exact fits_role ⟨not_pending, holds, rfl⟩ alive

end

theorem Sound.processed (posted : e ∈ cache.tasks) :
    ∃ roles', Sound fair none (cache.onProcessPendingQueue e) roles' waits := by
  obtain ⟨entry, its⟩ := ne_none_iff_exists'.mp (sound.entries.tasks_live e posted)
  obtain ⟨roles', entries, promotes⟩ := sound.entries.processed its posted fun t role =>
    ((sound.fit t).knows e _ role).1
  refine ⟨roles', ?_⟩
  rcases promotes with ⟨rfl, same, touches⟩ | ⟨next, role, queued, rfl, knows, -, destroyed, touches⟩
  · exact sound.same entries touches same
  · have fit := sound.fit next
    rw [queued] at fit
    have no_wait := fit.one (some_ne_none _)
    refine sound.touched touches entries ?_ no_wait fun _ none => by cases none
    rw [no_wait]
    refine fits_role knows (destroyed.trans ?_)
    rw [← Bool.not_eq_true]
    intro gone
    cases (fit.alive gone).1

omit sound in
theorem doomDisk_fields (entry : ActiveEntry) (cache : HttpCache) :
    ∃ onDisk, cache.doomDisk entry = { cache with onDisk } ∧
      ∀ k, entry.doomed = true ∨ k ≠ entry.key → onDisk k = cache.onDisk k := by
  rw [HttpCache.doomDisk]
  split
  · exact ⟨cache.onDisk, rfl, fun _ _ => rfl⟩
  · rename_i not_doomed
    exact ⟨_, rfl, fun k either => if_neg (either.resolve_left not_doomed)⟩

omit sound in
theorem touches_failed (t : Trans) {gone : ActiveEntry} (no_writer : gone.writer = none)
    (no_readers : gone.readers = []) (no_queue : gone.pendingQueue = []) (unposted : e ∉ cache.tasks) :
    Touches fair t cache ((cache.doomDisk gone).destroyEntry e gone) := by
  obtain ⟨onDisk, doomed, same⟩ := doomDisk_fields gone cache
  rw [doomed]
  have destroyed := @touches_destroy fair t e gone { cache with onDisk } ⟨no_writer, no_readers, no_queue,
    decide_eq_false unposted⟩
  refine ⟨destroyed.ops, destroyed.backend, destroyed.building, destroyed.frames, fun k x its => ?_,
    destroyed.others, destroyed.notes⟩
  refine ⟨(destroyed.active k x its).1, fun on_disk => (destroyed.active k x its).2 ?_⟩
  rw [destroyEntry_activeEntries] at its
  refine (same k ?_).trans on_disk
  split at its
  · rename_i doomed
    exact .inl doomed
  · split at its
    · cases its
    · rename_i other
      exact .inr other

theorem Sound.failed (holds : (cache.trans t).entry = some e) (its : cache.entries e = some entry)
    (writes : (cache.trans t).writes = true) :
    Sound fair none ((cache.released t).doneWritingToEntry e entry false) (roles.without e)
      (fun x => if x ∈ entry.pendingQueue then some .listed else waits x) := by
  obtain ⟨no_wait, not_pending, -, role⟩ := (sound.fit t).holds holds
  rw [writes] at role
  have locked := sound.entries.each e entry its
  have written : entry.writer = some t := (locked.writer t).mpr role
  obtain ⟨no_readers, not_will⟩ := locked.exclusive (written ▸ some_ne_none t)
  have unposted : e ∉ cache.tasks := by
    rw [← locked.posted, not_will]
    exact Bool.false_ne_true
  let gone : ActiveEntry := { entry with writer := none, pendingQueue := [] }
  let deleted := ((cache.released t).doomDisk gone).destroyEntry e gone
  change Sound fair none (deleted.push (.doneWriting entry.pendingQueue)) _ _
  have touches : Touches fair t cache deleted :=
    (touches_setTrans ..).trans (touches_failed t rfl no_readers rfl unposted)
  have same_trans : deleted.trans = (cache.released t).trans := by
    obtain ⟨onDisk, doomed, -⟩ := doomDisk_fields gone (cache.released t)
    exact (destroyEntry_fields ..).2.1.trans (by rw [doomed])
  have entries : Entries deleted (roles.without e) := by
    obtain ⟨onDisk, doomed, -⟩ := doomDisk_fields gone (cache.released t)
    have released := (sound.entries.released t)
    have before : Entries { cache.released t with onDisk } roles :=
      released.congr rfl rfl rfl rfl rfl (fun _ _ _ => ⟨rfl, rfl⟩) (Nat.le_refl _)
    have destroyed : Entries (HttpCache.destroyEntry e gone { cache.released t with onDisk })
        (roles.without e) := before.destroyed its unposted ⟨rfl, rfl⟩
    rw [← doomed] at destroyed
    exact destroyed
  have queued : ∀ x ∈ entry.pendingQueue, roles x = some (e, .queued) := fun x => (locked.queue x).mp
  have free : ∀ x ∈ entry.pendingQueue, waits x = none := fun x there =>
    (sound.fit x).one (queued x there ▸ some_ne_none _)
  have kept : ∀ x, x ≠ t → deleted.trans x = cache.trans x := touches.others
  have listed : (deleted.push (.doneWriting entry.pendingQueue)).listed =
      entry.pendingQueue ++ cache.listed := by
    rw [push_listed, HttpCache.listed, touches.frames]
    rfl
  have keyed : ∀ frame ∈ (deleted.push (.doneWriting entry.pendingQueue)).frames,
      frame.Keyed (deleted.push (.doneWriting entry.pendingQueue)) := by
    intro frame there
    rcases push_frames there with rfl | old
    · trivial
    · rw [touches.frames] at old
      refine (sound.waiting.keyed frame old).congr fun x its_x => ?_
      have other : x ≠ t := by
        rintro rfl
        rw [sound.listed_waits x (listed_mem old its_x)] at no_wait
        cases no_wait
      obtain ⟨frames, pushed⟩ := push_eq (.doneWriting entry.pendingQueue) deleted
      rw [pushed]
      exact congrArg Transaction.key (kept x other)
  obtain ⟨frames, pushed⟩ := push_eq (.doneWriting entry.pendingQueue) deleted
  have entries' := entries.push (.doneWriting entry.pendingQueue)
  have not_queued : t ∉ entry.pendingQueue := by
    intro there
    rw [queued t there] at role
    cases role
  rw [pushed] at listed keyed entries' ⊢
  refine ⟨entries', sound.waiting.taken (w := .listed) ?_ keyed locked.toMembers.queue_nodup free listed
    ?_, fun x _ => ?_, fun _ none => (by cases none), fun k active => ?_, fun k op its operation => ?_,
    fun note there => (touches.notes note there).elim (sound.notes note) id⟩
  · change ∀ op, deleted.backendOp = some op → deleted.buildingBackend = true ∧ _
    rw [touches.backend, touches.building]
    exact sound.waiting.building
  · intro v other
    cases v with
    | op k => exact congrArg (fun ops => (ops k).elim [] PendingOp.trans) touches.ops
    | backend => exact congrArg (fun op => op.elim [] PendingOp.trans) touches.backend
    | listed => exact absurd rfl other
  · change Fits (roles.without e x) (if x ∈ entry.pendingQueue then some .listed else waits x) (deleted.trans x)
    by_cases here : x = t
    · subst here
      have no_role : roles.without e x = none := by
        rw [Roles.without, role]
        simp
      rw [no_role, if_neg not_queued, no_wait, same_trans]
      exact setTrans_self .. ▸ fits_out rfl not_pending
    · rw [kept x here]
      split
      · rename_i there
        have fit := sound.fit x
        have no_role : roles.without e x = none := by
          rw [Roles.without, queued x there]
          simp
        obtain ⟨pending, no_entry⟩ := fit.knows e _ (queued x there)
        rw [no_role]
        refine fits_wait pending no_entry ?_ fun k same => by cases same
        rw [← Bool.not_eq_true]
        intro destroyed
        rw [queued x there] at fit
        cases (fit.alive destroyed).1
      · rename_i elsewhere
        have same_role : roles.without e x = roles x := by
          cases role_x : roles x with
          | none => rw [Roles.without, role_x, filter_none]
          | some its_role =>
            obtain ⟨y, r⟩ := its_role
            refine (without_iff roles e x y r).mpr ⟨role_x, fun at_e => ?_⟩
            subst at_e
            cases r with
            | writer =>
              have writer := (locked.writer x).mpr role_x
              rw [written] at writer
              exact here (some.inj writer).symm
            | reader =>
              have reader := (locked.readers x).mpr role_x
              rw [no_readers] at reader
              cases reader
            | queued => exact elsewhere ((locked.queue x).mpr role_x)
        rw [same_role]
        exact sound.fit x
  · obtain ⟨x, its_active⟩ := ne_none_iff_exists'.mp active
    obtain ⟨before, on_disk⟩ := touches.active k x its_active
    exact on_disk (sound.disk k (before ▸ some_ne_none x))
  · have its_op : cache.pendingOps k = some op := touches.ops ▸ its
    have before := sound.ops k op its_op operation
    cases active : deleted.activeEntries k with
    | none => rfl
    | some x =>
      rw [(touches.active k x active).1] at before
      cases before

end Events

end Glopen.Http

import Glopen.Http.HttpCacheLocks

/-! How transactions get an entry and give it back. -/
namespace Glopen.Http

variable {fair : Prop} {cache : HttpCache} {roles : Roles} {e : EntryId} {entry : ActiveEntry} {t : Trans}

section Add

theorem setTrans_self (cache : HttpCache) (t : Trans) (trans : Transaction) :
    (cache.setTrans t trans).trans t = trans := if_pos rfl

theorem setTrans_other (cache : HttpCache) {x : Trans} (trans : Transaction) (other : x ≠ t) :
    (cache.setTrans t trans).trans x = cache.trans x := if_neg other

theorem roles_elsewhere {role : Option (EntryId × Role)}
    (before : ∀ x r, x ≠ e → roles t ≠ some (x, r)) (after : ∀ x r, x ≠ e → role ≠ some (x, r)) :
    ∀ y x r, x ≠ e → (roles.set t role y = some (x, r) ↔ roles y = some (x, r)) := by
  intro y x r other
  rw [roles_set_iff]
  split
  · rename_i here
    exact ⟨fun its => absurd its (after x r other), fun its => absurd (here ▸ its) (before x r other)⟩
  · exact Iff.rfl

theorem processPendingQueue_trans (e : EntryId) (entry : ActiveEntry) (cache : HttpCache) :
    (cache.processPendingQueue e entry).trans = cache.trans := by
  rw [HttpCache.processPendingQueue]
  split <;> rfl

def Knows (trans : Transaction) (e : EntryId) : Role → Prop
  | .writer => trans.cachePending = false ∧ trans.entry = some e ∧ trans.writes = true
  | .reader => trans.cachePending = false ∧ trans.entry = some e ∧ trans.writes = false
  | .queued => trans.cachePending = true ∧ trans.entry = none

theorem Entries.added (entries : Entries cache roles) (its : cache.entries e = some entry)
    (out : roles t = none) (key : (cache.trans t).key = entry.key)
    (last : ∀ x ∈ entry.pendingQueue, (cache.trans x).arrived < (cache.trans t).arrived)
    (before : (cache.trans t).arrived < cache.arrivals) :
    ∃ role, Entries (cache.addTransactionToEntry t e entry).1 (roles.set t (some (e, role))) ∧
      ((cache.addTransactionToEntry t e entry).2 = true → role ≠ .queued ∧
        (role = .writer ↔ (cache.trans t).writes = true)) ∧
      ((cache.addTransactionToEntry t e entry).2 = false → role = .queued) := by
  have locked := entries.each e entry its
  have nowhere : ∀ role, roles t ≠ some (e, role) := by simp [out]
  have others : ∀ role, ∀ y x r, x ≠ e →
      (roles.set t (some (e, role)) y = some (x, r) ↔ roles y = some (x, r)) := fun role =>
    roles_elsewhere (by simp [out]) fun x r other same => by
      cases same
      exact other rfl
  have queued := locked.toMembers.addQueued nowhere key last before
  have reader := locked.toMembers.addReader nowhere
  have found := locked.found
  rw [HttpCache.addTransactionToEntry]
  split
  · rename_i busy
    refine ⟨.queued, entries.setEntry its (others _) ⟨rfl, rfl⟩ ⟨queued, locked.exclusive, fun _ => ?_,
      locked.posted, found⟩, (fun ok => by cases ok), fun _ => rfl⟩
    rcases Bool.or_eq_true .. ▸ busy with written | will
    · exact .inl (Option.isSome_iff_ne_none.mp written)
    · exact .inr (.inr will)
  · rename_i free
    have unwritten : entry.writer = none := by
      cases writer : entry.writer with
      | none => rfl
      | some w => simp [writer] at free
    have not_will : entry.willProcessPendingQueue = false := by
      cases will : entry.willProcessPendingQueue with
      | false => rfl
      | true => simp [will] at free
    split
    · rename_i writes
      split
      · rename_i no_readers
        refine ⟨.writer, entries.setEntry its (others _) ⟨rfl, rfl⟩
          ⟨locked.toMembers.addWriter nowhere unwritten, fun _ => ⟨no_readers, not_will⟩, fun _ => ?_,
            locked.posted, found⟩, fun _ => ⟨by decide, fun _ => writes, fun _ => rfl⟩,
          fun waits => by cases waits⟩
        exact .inl (Option.some_ne_none t)
      · rename_i has_readers
        exact ⟨.queued, entries.setEntry its (others _) ⟨rfl, rfl⟩ ⟨queued, locked.exclusive,
          fun _ => .inr (.inl has_readers), locked.posted, found⟩, (fun ok => by cases ok),
          fun _ => rfl⟩
    · rename_i reads
      have its_role : Role.reader ≠ .queued ∧ (Role.reader = .writer ↔ (cache.trans t).writes = true) :=
        ⟨by decide, fun same => (by cases same), fun writes => absurd writes reads⟩
      simp only
      split
      · exact ⟨.reader, entries.process its (others _) ⟨rfl, rfl, rfl⟩ reader unwritten,
          fun _ => its_role, fun waits => by cases waits⟩
      · rename_i no_queue
        exact ⟨.reader, entries.setEntry its (others _) ⟨rfl, rfl⟩ ⟨reader,
          fun written => absurd unwritten written, fun queue => absurd queue no_queue, locked.posted,
          found⟩, fun _ => its_role, fun waits => by cases waits⟩

def Note.Good (fair : Prop) : Note → Prop
  | access _ _ earlier => fair → earlier = []
  | notified _ pending => pending = true
  | removed _ found => found = true
  | activated _ old => old = none
  | deleted entry posted =>
    entry.writer = none ∧ entry.readers = [] ∧ entry.pendingQueue = [] ∧ posted = false

structure Touches (fair : Prop) (t : Trans) (cache cache' : HttpCache) : Prop where
  ops : cache'.pendingOps = cache.pendingOps
  backend : cache'.backendOp = cache.backendOp
  building : cache'.buildingBackend = cache.buildingBackend
  frames : cache'.frames = cache.frames
  active : ∀ k e, cache'.activeEntries k = some e → cache.activeEntries k = some e ∧
    (cache.onDisk k = true → cache'.onDisk k = true)
  others : ∀ x, x ≠ t → cache'.trans x = cache.trans x
  notes : ∀ note ∈ cache'.notes, note ∈ cache.notes ∨ note.Good fair

variable {cache' : HttpCache}

theorem Touches.trans {cache'' : HttpCache} (one : Touches fair t cache cache')
    (two : Touches fair t cache' cache'') : Touches fair t cache cache'' :=
  ⟨two.ops.trans one.ops, two.backend.trans one.backend, two.building.trans one.building,
    two.frames.trans one.frames, fun k e its =>
      ⟨(one.active k e (two.active k e its).1).1, fun on_disk =>
        (two.active k e its).2 ((one.active k e (two.active k e its).1).2 on_disk)⟩,
    fun x other => (two.others x other).trans (one.others x other), fun note there =>
      (two.notes note there).elim (one.notes note) .inr⟩

theorem touches_setEntry (t : Trans) (e : EntryId) (entry : ActiveEntry) (cache : HttpCache) :
    Touches fair t cache (cache.setEntry e entry) :=
  ⟨rfl, rfl, rfl, rfl, fun _ _ its => ⟨its, id⟩, fun _ _ => rfl, fun _ => .inl⟩

theorem touches_setTrans (t : Trans) (trans : Transaction) (cache : HttpCache) :
    Touches fair t cache (cache.setTrans t trans) :=
  ⟨rfl, rfl, rfl, rfl, fun _ _ its => ⟨its, id⟩, fun _ other => setTrans_other cache trans other, fun _ => .inl⟩

theorem touches_note (t : Trans) {note : Note} (good : note.Good fair) (cache : HttpCache) :
    Touches fair t cache (cache.note note) :=
  ⟨rfl, rfl, rfl, rfl, fun _ _ its => ⟨its, id⟩, fun _ _ => rfl, fun _ there =>
    (List.mem_append.mp there).imp id fun new => by
      rw [List.mem_singleton.mp new]
      exact good⟩

theorem touches_process (t : Trans) (e : EntryId) (entry : ActiveEntry) (cache : HttpCache) :
    Touches fair t cache (cache.processPendingQueue e entry) := by
  rw [HttpCache.processPendingQueue]
  split <;> exact ⟨rfl, rfl, rfl, rfl, fun _ _ its => ⟨its, id⟩, fun _ _ => rfl, fun _ => .inl⟩

def HttpCache.earlier (cache : HttpCache) (t : Trans) (entry : ActiveEntry) : List Trans :=
  entry.pendingQueue.filter fun other => (cache.trans other).arrived < (cache.trans t).arrived

theorem touches_access (first : fair → cache.earlier t entry = []) (e : EntryId) :
    Touches fair t cache (cache.access t e entry) := by
  have good : (Note.access t e (cache.earlier t entry)).Good fair := first
  exact (touches_setTrans t _ cache).trans (touches_note t good _)

/-- A transaction that would have access before those that are queued: it reads, and so do those that
have the entry. -/
def HttpCache.Overtakes (cache : HttpCache) (t : Trans) (e : EntryId) : Prop :=
  ∃ entry, cache.entries e = some entry ∧ (cache.trans t).writes = false ∧ entry.writer = none ∧
    entry.willProcessPendingQueue = false ∧ entry.pendingQueue ≠ []

theorem add_given (ok : (cache.addTransactionToEntry t e entry).2 = true) :
    entry.writer = none ∧ entry.willProcessPendingQueue = false ∧
      ((cache.trans t).writes = true → entry.readers = []) := by
  rw [HttpCache.addTransactionToEntry] at ok
  split at ok
  · cases ok
  · rename_i free
    rw [Bool.not_eq_true, Bool.or_eq_false_iff, Option.isSome_eq_false_iff, Option.isNone_iff_eq_none] at free
    refine ⟨free.1, free.2, fun writes => ?_⟩
    rw [if_pos writes] at ok
    split at ok
    · rename_i no_readers
      exact no_readers
    · cases ok

theorem Locked.unqueued (locked : Locked cache roles e entry)
    (its : cache.entries e = some entry) (orderly : ¬ cache.Overtakes t e)
    (same : (cache'.trans t).writes = (cache.trans t).writes)
    (ok : (cache'.addTransactionToEntry t e entry).2 = true) : entry.pendingQueue = [] := by
  obtain ⟨unwritten, not_will, no_readers⟩ := add_given ok
  by_contra queue
  have reads : (cache.trans t).writes = false := by
    by_contra writes
    rw [Bool.not_eq_false, ← same] at writes
    rcases locked.woken queue with written | readers | will
    · exact written unwritten
    · exact readers (no_readers writes)
    · rw [not_will] at will
      cases will
  exact orderly ⟨entry, its, reads, unwritten, not_will, queue⟩

theorem Entries.access (entries : Entries cache roles) (t : Trans) (e : EntryId)
    (entry : ActiveEntry) : Entries (cache.access t e entry) roles := by
  refine Entries.note ?_ _
  exact entries.setTrans ⟨rfl, rfl⟩

theorem touches_add (fair : Prop) (t : Trans) (e : EntryId) (entry : ActiveEntry) (cache : HttpCache) :
    Touches fair t cache (cache.addTransactionToEntry t e entry).1 ∧
      (cache.addTransactionToEntry t e entry).1.trans = cache.trans := by
  rw [HttpCache.addTransactionToEntry]
  split
  · exact ⟨touches_setEntry .., rfl⟩
  · split
    · split <;> exact ⟨touches_setEntry .., rfl⟩
    · simp only
      split
      · exact ⟨touches_process .., processPendingQueue_trans ..⟩
      · exact ⟨touches_setEntry .., rfl⟩

theorem Entries.doAdd (entries : Entries cache roles) (its : cache.entries e = some entry)
    (out : roles t = none) (key : (cache.trans t).key = entry.key)
    (free : (cache.trans t).entry = none) (orderly : fair → ¬ cache.Overtakes t e) :
    ∃ role, Entries (cache.doAddToEntry t e) (roles.set t (some (e, role))) ∧
      Knows ((cache.doAddToEntry t e).trans t) e role ∧
      ((cache.doAddToEntry t e).trans t).key = (cache.trans t).key ∧
      ((cache.doAddToEntry t e).trans t).destroyed = (cache.trans t).destroyed ∧
      Touches fair t cache (cache.doAddToEntry t e) := by
  let arrived : HttpCache := { cache.setTrans t { cache.trans t with arrived := cache.arrivals } with
    arrivals := cache.arrivals + 1 }
  have others : ∀ x e, roles x = some (e, .queued) → arrived.trans x = cache.trans x := by
    intro x e queued
    refine setTrans_other cache _ fun here => ?_
    rw [here, out] at queued
    cases queued
  have entries' : Entries arrived roles :=
    entries.congr rfl rfl rfl rfl rfl (fun x e queued => by rw [others x e queued]; exact ⟨rfl, rfl⟩)
      (Nat.le_succ _)
  have its_trans : arrived.trans t = { cache.trans t with arrived := cache.arrivals } :=
    setTrans_self ..
  have touched : Touches fair t cache arrived :=
    ⟨rfl, rfl, rfl, rfl, fun _ _ its => ⟨its, id⟩, fun _ other => setTrans_other cache _ other, fun _ => .inl⟩
  have locked := entries.each e entry its
  obtain ⟨role, added, given, waits⟩ := entries'.added its out (its_trans ▸ key) (fun x there => by
      rw [others x e ((locked.queue x).mp there), its_trans]
      exact locked.before x there) (its_trans ▸ Nat.lt_succ_self cache.arrivals)
  obtain ⟨touched', same_trans⟩ := touches_add fair t e entry arrived
  have at_t : (arrived.addTransactionToEntry t e entry).1.trans t =
      { cache.trans t with arrived := cache.arrivals } := (congrFun same_trans t).trans its_trans
  have unfolded : cache.doAddToEntry t e = if (arrived.addTransactionToEntry t e entry).2 then
        (arrived.addTransactionToEntry t e entry).1.access t e entry
      else (arrived.addTransactionToEntry t e entry).1.wait t := by
    rw [HttpCache.doAddToEntry, its]
  have unqueued : fair → (arrived.addTransactionToEntry t e entry).2 = true →
      entry.pendingQueue = [] := fun asked =>
    locked.unqueued its (orderly asked) (by rw [its_trans])
  rw [unfolded]
  generalize arrived.addTransactionToEntry t e entry = result at added given waits touched' at_t unqueued ⊢
  refine ⟨role, ?_⟩
  split
  · rename_i ok
    obtain ⟨not_queued, writer⟩ := given ok
    have first : fair → result.1.earlier t entry = [] := by
      intro asked
      rw [HttpCache.earlier, unqueued asked ok]
      rfl
    have now : (result.1.access t e entry).trans t =
        { cache.trans t with arrived := cache.arrivals, cachePending := false, entry := some e } := by
      change ((result.1.setTrans t _).trans t) = _
      rw [setTrans_self, at_t]
    refine ⟨added.access t e entry, ?_, by rw [now], by rw [now],
      (touched.trans touched').trans (touches_access first e)⟩
    rw [now]
    rw [its_trans] at writer
    cases role with
    | writer => exact ⟨rfl, rfl, writer.mp rfl⟩
    | reader => exact ⟨rfl, rfl, Bool.eq_false_iff.mpr fun writes => by cases writer.mpr writes⟩
    | queued => exact absurd rfl not_queued
  · rename_i not_ok
    have queued := waits (Bool.eq_false_iff.mpr not_ok)
    have now : (result.1.wait t).trans t =
        { cache.trans t with arrived := cache.arrivals, cachePending := true } := by
      rw [HttpCache.wait, setTrans_self, at_t]
    refine ⟨added.setTrans ⟨rfl, rfl⟩, ?_, by rw [now], by rw [now],
      (touched.trans touched').trans (touches_setTrans ..)⟩
    rw [now, queued]
    exact ⟨rfl, free⟩

end Add

section Done

variable (entries : Entries cache roles) (its : cache.entries e = some entry)
include entries its

theorem Entries.doneReading (reading : roles t = some (e, .reader)) :
    Entries (cache.doneReadingFromEntry t e entry) (roles.set t none) := by
  have locked := entries.each e entry its
  have there := (locked.readers t).mpr reading
  have unwritten : entry.writer = none := by
    by_contra written
    rw [(locked.exclusive written).1] at there
    cases there
  exact entries.process its (roles_elsewhere (fun x r other same => by
    rw [reading] at same
    cases same
    exact other rfl) (fun x r _ => by simp)) ⟨rfl, rfl, rfl⟩ (locked.toMembers.dropReader there) unwritten

theorem Entries.doneWriting (writing : roles t = some (e, .writer)) :
    Entries (cache.processPendingQueue e { entry with writer := none }) (roles.set t none) := by
  have locked := entries.each e entry its
  exact entries.process its (roles_elsewhere (fun x r other same => by
    rw [writing] at same
    cases same
    exact other rfl) (fun x r _ => by simp)) ⟨rfl, rfl, rfl⟩
    (locked.toMembers.dropWriter ((locked.writer t).mpr writing)) rfl

theorem Entries.converted (writing : roles t = some (e, .writer)) :
    Entries (cache.convertWriterToReader t e entry) (roles.set t (some (e, .reader))) := by
  have locked := entries.each e entry its
  have dropped := locked.toMembers.dropWriter ((locked.writer t).mpr writing)
  have reader := dropped.addReader (t := t) fun role => by rw [roles_set_self]; simp
  rw [roles_set_set] at reader
  exact entries.process its (roles_elsewhere (fun x r other same => by
    rw [writing] at same
    cases same
    exact other rfl) (fun x r other same => by
    cases same
    exact other rfl)) ⟨rfl, rfl, rfl⟩ reader rfl

end Done

end Glopen.Http

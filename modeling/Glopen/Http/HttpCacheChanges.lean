import Glopen.Http.HttpCacheRuns

/-! How the events of http_cache.cc change the entries, and what is asserted where they are doomed and
destroyed. -/
namespace Glopen.Http

open Option HttpCache

def HttpCache.GetPendingOpChecks (key : String) (cache : HttpCache) : Prop :=
  cache.activeEntries key = none

/-- `DoomEntry`, and `GetPendingOp` where it comes to that. -/
def HttpCache.DoomEntryChecks (key : String) (cache : HttpCache) : Prop :=
  match cache.activeEntries key with
  | none => cache.GetPendingOpChecks key
  | some e => ∀ entry, cache.entries e = some entry → entry.writer ≠ none ∨ entry.readers ≠ []

def HttpCache.FinalizeDoomedEntryChecks (e : EntryId) (entry : ActiveEntry) (cache : HttpCache) : Prop :=
  entry.doomed = true ∧ entry.writer = none ∧ entry.readers = [] ∧ entry.pendingQueue = [] ∧
    e ∈ cache.doomedEntries

def HttpCache.DeactivateEntryChecks (e : EntryId) (entry : ActiveEntry) (cache : HttpCache) : Prop :=
  entry.willProcessPendingQueue = false ∧ entry.doomed = false ∧ entry.writer = none ∧
    entry.readers = [] ∧ entry.pendingQueue = [] ∧
    (entry.key ≠ "" → cache.activeEntries entry.key = some e)

def HttpCache.DestroyEntryChecks (e : EntryId) (entry : ActiveEntry) (cache : HttpCache) : Prop :=
  if entry.doomed then cache.FinalizeDoomedEntryChecks e entry else cache.DeactivateEntryChecks e entry

/-- A call of `DestroyEntry`, with the entry as it finds it. -/
structure Destruction where
  e : EntryId
  entry : ActiveEntry
  cache : HttpCache

def Destruction.Checks (call : Destruction) : Prop := call.cache.DestroyEntryChecks call.e call.entry

def HttpCache.doneWritingDestroys (e : EntryId) (entry : ActiveEntry) (success : Bool)
    (cache : HttpCache) : Option Destruction :=
  if success then none
  else
    let entry := { entry with writer := none, pendingQueue := [] }
    some ⟨e, entry, cache.doomDisk entry⟩

def HttpCache.doneWithDestroys (e : EntryId) (entry : ActiveEntry) (success : Bool)
    (cache : HttpCache) : Option Destruction :=
  if entry.willProcessPendingQueue && entry.readers = [] then none
  else if entry.writer.isSome then cache.doneWritingDestroys e entry success
  else none

def HttpCache.taskDestroys (e : EntryId) (cache : HttpCache) : Option Destruction :=
  match cache.entries e with
  | none => none
  | some entry =>
    let entry := { entry with willProcessPendingQueue := false }
    if entry.pendingQueue = [] ∧ entry.readers = [] then
      some ⟨e, entry, HttpCache.setEntry e entry { cache with tasks := cache.tasks.erase e }⟩
    else none

def HttpCache.releaseDestroys (t : Trans) (done : EntryId → ActiveEntry → HttpCache → Option Destruction)
    (cache : HttpCache) : Option Destruction :=
  match (cache.trans t).entry with
  | none => none
  | some e =>
    match cache.entries e with
    | none => none
    | some entry => done e entry (cache.released t)

/-- The call of `DestroyEntry` that an event comes to. -/
def Event.destroys (cache : HttpCache) : Event → Option Destruction
  | doneWriting t success => cache.releaseDestroys t fun e entry cache =>
      cache.doneWritingDestroys e entry success
  | doneWithEntry t success => cache.releaseDestroys t fun e entry cache =>
      cache.doneWithDestroys e entry success
  | destroy t success => cache.releaseDestroys t fun e entry cache =>
      cache.doneWithDestroys e entry success
  | processPendingQueue e => cache.taskDestroys e
  | _ => none

def Event.finalizes (cache : HttpCache) (e : EntryId) (event : Event) : Bool :=
  (event.destroys cache).any fun call => call.e = e && call.entry.doomed

def HttpCache.finalizations (e : EntryId) : HttpCache → List Event → Nat
  | _, [] => 0
  | cache, event :: events =>
    (if event.finalizes cache e then 1 else 0) + finalizations e (event.run cache) events

variable {cache cache' cache'' : HttpCache} {e : EntryId} {entry entry' : ActiveEntry} {t : Trans}
  {key : String}

def ActiveEntry.Attended (entry : ActiveEntry) : Prop :=
  entry.writer = none → entry.readers = [] → entry.willProcessPendingQueue = true

def ActiveEntry.Abandoned (entry : ActiveEntry) : Prop :=
  entry.writer = none ∧ entry.readers = [] ∧ entry.pendingQueue = []

def WorkItem.Manned (item : WorkItem) : Prop :=
  item.callback = false ∧ (item.trans = none → item.operation = .doomEntry ∨ item.entry = false)

def HttpCache.Manned (cache : HttpCache) : Prop :=
  ∀ k op, cache.pendingOps k = some op → op.writer.Manned

structure Keeps (cache cache' : HttpCache) : Prop where
  next : cache.nextEntry ≤ cache'.nextEntry
  manned : cache.Manned → cache'.Manned

structure Puts (e : EntryId) (entry' : ActiveEntry) (cache cache' : HttpCache) : Prop
    extends Keeps cache cache' where
  entries : ∀ x, cache'.entries x = if x = e then some entry' else cache.entries x

theorem Keeps.trans (one : Keeps cache cache') (two : Keeps cache' cache'') : Keeps cache cache'' :=
  ⟨Nat.le_trans one.next two.next, fun manned => two.manned (one.manned manned)⟩

theorem keeps_of (next : cache'.nextEntry = cache.nextEntry) (ops : cache'.pendingOps = cache.pendingOps) :
    Keeps cache cache' := by
  refine ⟨Nat.le_of_eq next.symm, fun manned k op its => manned k op ?_⟩
  rw [← ops]
  exact its

theorem Puts.trans {entry'' : ActiveEntry} (one : Puts e entry' cache cache')
    (two : Puts e entry'' cache' cache'') : Puts e entry'' cache cache'' := by
  refine ⟨one.toKeeps.trans two.toKeeps, fun x => ?_⟩
  rw [two.entries, one.entries]
  split <;> rfl

theorem Puts.of_eq (puts : Puts e entry' cache' cache'') (same : cache'.entries = cache.entries)
    (keeps : Keeps cache cache') : Puts e entry' cache cache'' := by
  refine ⟨keeps.trans puts.toKeeps, fun x => ?_⟩
  rw [puts.entries, same]

theorem Puts.to_eq (puts : Puts e entry' cache cache') (same : cache''.entries = cache'.entries)
    (keeps : Keeps cache' cache'') : Puts e entry' cache cache'' := by
  refine ⟨puts.toKeeps.trans keeps, fun x => ?_⟩
  rw [same, puts.entries]

theorem puts_setEntry (e : EntryId) (entry : ActiveEntry) (cache : HttpCache) :
    Puts e entry cache (cache.setEntry e entry) := ⟨keeps_of rfl rfl, fun _ => rfl⟩

theorem puts_process (e : EntryId) (entry : ActiveEntry) (cache : HttpCache) :
    ∃ entry', Puts e entry' cache (cache.processPendingQueue e entry) ∧
      entry'.willProcessPendingQueue = true ∧ entry'.doomed = entry.doomed := by
  rw [HttpCache.processPendingQueue]
  split
  · rename_i will
    exact ⟨entry, puts_setEntry .., will, rfl⟩
  · exact ⟨{ entry with willProcessPendingQueue := true }, ⟨keeps_of rfl rfl, fun _ => rfl⟩, rfl, rfl⟩

theorem puts_add (t : Trans) (e : EntryId) (entry : ActiveEntry) (cache : HttpCache) :
    ∃ entry', Puts e entry' cache (cache.addTransactionToEntry t e entry).1 ∧ entry'.Attended ∧
      entry'.doomed = entry.doomed := by
  rw [addTransactionToEntry]
  split
  · rename_i busy
    refine ⟨_, puts_setEntry .., fun unwritten _ => ?_, rfl⟩
    change entry.writer = none at unwritten
    simpa [unwritten] using busy
  · split
    · split
      · exact ⟨_, puts_setEntry .., fun unwritten => (by cases unwritten), rfl⟩
      · rename_i has_readers
        exact ⟨_, puts_setEntry .., fun _ no_readers => absurd no_readers has_readers, rfl⟩
    · simp only
      split
      · obtain ⟨entry', puts, will, doomed⟩ :=
          puts_process e { entry with readers := entry.readers ++ [t] } cache
        exact ⟨entry', puts, fun _ _ => will, doomed⟩
      · exact ⟨_, puts_setEntry .., fun _ no_readers => absurd no_readers (by simp), rfl⟩

theorem puts_doAdd (its : cache.entries e = some entry) (t : Trans) :
    ∃ entry', Puts e entry' cache (cache.doAddToEntry t e) ∧ entry'.Attended ∧ entry'.doomed = entry.doomed := by
  rw [doAddToEntry, its]
  simp only
  obtain ⟨entry', puts, attended, doomed⟩ := puts_add t e entry
    { cache.setTrans t { cache.trans t with arrived := cache.arrivals } with
      arrivals := cache.arrivals + 1 }
  have puts : Puts e entry' cache _ := puts.of_eq rfl (keeps_of rfl rfl)
  refine ⟨entry', ?_, attended, doomed⟩
  split
  · exact puts.to_eq rfl (keeps_of rfl rfl)
  · exact puts.to_eq rfl (keeps_of rfl rfl)

theorem puts_notify (its : cache.entries e = some entry) (t : Trans) :
    ∃ entry', Puts e entry' cache (cache.notifyTransaction (some t) (.ok e)) ∧ entry'.Attended ∧
      entry'.doomed = entry.doomed := by
  let told := (cache.note (.notified t (cache.trans t).cachePending)).setTrans t
    { cache.trans t with cachePending := false }
  have its_told : told.entries e = some entry := its
  obtain ⟨entry', puts, rest⟩ := puts_doAdd its_told t
  exact ⟨entry', puts.of_eq rfl (keeps_of rfl rfl), rest⟩

theorem notify_failed (t : Option Trans) (cache : HttpCache) :
    (cache.notifyTransaction t .failed).entries = cache.entries ∧
      Keeps cache (cache.notifyTransaction t .failed) := by
  cases t with
  | none => exact ⟨rfl, keeps_of rfl rfl⟩
  | some t => exact ⟨rfl, keeps_of rfl rfl⟩

theorem push_keeps (frame : Frame) (cache : HttpCache) :
    (cache.push frame).entries = cache.entries ∧ Keeps cache (cache.push frame) := by
  obtain ⟨frames, pushed⟩ := push_eq frame cache
  rw [pushed]
  exact ⟨rfl, keeps_of rfl rfl⟩

theorem destroyEntry_keeps (e : EntryId) (entry : ActiveEntry) (cache : HttpCache) :
    Keeps cache (cache.destroyEntry e entry) := by
  rw [HttpCache.destroyEntry]
  simp only
  split <;> exact keeps_of rfl rfl

theorem doomDisk_keeps (entry : ActiveEntry) (cache : HttpCache) :
    (cache.doomDisk entry).entries = cache.entries ∧ Keeps cache (cache.doomDisk entry) := by
  obtain ⟨onDisk, doomed, -⟩ := doomDisk_fields entry cache
  rw [doomed]
  exact ⟨rfl, keeps_of rfl rfl⟩

theorem keeps_setOp {op : Option PendingOp} (manned : ∀ its, op = some its →
    cache.Manned → its.writer.Manned) (cache' : HttpCache) (next : cache'.nextEntry = cache.nextEntry)
    (ops : cache'.pendingOps = cache.pendingOps) : Keeps cache (cache'.setOp key op) := by
  refine ⟨Nat.le_of_eq next.symm, fun before k its there => ?_⟩
  change (if k = key then op else cache'.pendingOps k) = some its at there
  split at there
  · exact manned its there before
  · exact before k its (ops ▸ there)

def Brings (cache cache' : HttpCache) : Option EntryId → Prop
  | none => cache'.entries = cache.entries ∧ Keeps cache cache'
  | some e => e = cache.nextEntry ∧ ∃ key, Puts e ⟨key, none, [], [], false, false⟩ cache cache'

theorem completeOperation_brings (result : Bool) (key : String) (op : PendingOp) (cache : HttpCache) :
    Brings cache (cache.completeOperation result key op).1 (cache.completeOperation result key op).2.1 ∧
      ((cache.completeOperation result key op).2.1 ≠ none →
        op.writer.operation ≠ .doomEntry ∧ op.writer.isValid = true) := by
  rw [completeOperation]
  split
  · split
    · exact ⟨⟨rfl, keeps_of rfl rfl⟩, fun some => absurd rfl some⟩
    · rename_i not_doom
      split
      · rename_i valid
        refine ⟨⟨rfl, key, ⟨Nat.le_succ _, fun manned k op its => manned k op its⟩, fun x => rfl⟩, fun _ =>
          ⟨not_doom, valid⟩⟩
      · split
        · exact ⟨⟨rfl, keeps_of rfl rfl⟩, fun some => absurd rfl some⟩
        · exact ⟨⟨rfl, keeps_of rfl rfl⟩, fun some => absurd rfl some⟩
  · exact ⟨⟨rfl, keeps_of rfl rfl⟩, fun some => absurd rfl some⟩

theorem Brings.to_eq {e : Option EntryId} (brings : Brings cache cache' e)
    (same : cache''.entries = cache'.entries) (keeps : Keeps cache' cache'') : Brings cache cache'' e := by
  cases e with
  | none => exact ⟨same.trans brings.1, brings.2.trans keeps⟩
  | some e =>
    obtain ⟨new, key, puts⟩ := brings
    exact ⟨new, key, puts.to_eq same keeps⟩

theorem request_brings {operation : WorkItemOperation} {t : Option Trans}
    (manned : t = none → operation = .doomEntry) (key : String) (rv : Option Bool) (cache : HttpCache) :
    Brings cache (cache.request operation key t rv).1 (cache.request operation key t rv).2 ∧
      (operation = .doomEntry → (cache.request operation key t rv).2 = none) := by
  have waits : (t.elim cache cache.wait).entries = cache.entries ∧
      (t.elim cache cache.wait).nextEntry = cache.nextEntry ∧
      (t.elim cache cache.wait).pendingOps = cache.pendingOps := by
    cases t <;> exact ⟨rfl, rfl, rfl⟩
  rw [request.eq_def]
  cases its : cache.pendingOps key with
  | some op =>
    refine ⟨⟨waits.1, keeps_setOp (fun its' same before => ?_) _ waits.2.1 waits.2.2⟩, fun _ => rfl⟩
    cases same
    exact before key op its
  | none =>
    cases rv with
    | none =>
      refine ⟨⟨waits.1, keeps_setOp (fun its' same _ => ?_) _ waits.2.1 waits.2.2⟩, fun _ => rfl⟩
      cases same
      exact ⟨rfl, fun none => Or.inl (manned none)⟩
    | some result =>
      simp only
      rw [onIOComplete_now rfl its]
      obtain ⟨brings, made⟩ := completeOperation_brings result key
        ⟨⟨operation, none, decide (operation ≠ .doomEntry), false⟩, []⟩ cache
      exact ⟨brings, fun dooms => by_contra fun some => (made some).1 dooms⟩

section Events

inductive Changes (cache : HttpCache) (event : Event) : Prop
  | same (keeps : Keeps cache (event.run cache)) (entries : (event.run cache).entries = cache.entries)
      (quiet : event.destroys cache = none)
  | put {e : EntryId} {entry' : ActiveEntry} (puts : Puts e entry' cache (event.run cache))
      (attended : entry'.Attended) (new : cache.entries e = none → e = cache.nextEntry)
      (busy : ∀ entry, cache.entries e = some entry → entry.doomed = true →
        ¬ entry.Abandoned ∧ entry'.doomed = true) (quiet : event.destroys cache = none)
  | gone {call : Destruction} {entry : ActiveEntry} (destroys : event.destroys cache = some call)
      (checks : call.Checks) (its : cache.entries call.e = some entry)
      (doomed : call.entry.doomed = entry.doomed)
      (alone : entry.Abandoned → event = .processPendingQueue call.e)
      (keeps : Keeps cache (event.run cache))
      (entries : ∀ x, (event.run cache).entries x = if x = call.e then none else cache.entries x)

variable {roles : Roles}

theorem Locked.checks
    (locked : Locked cache roles e entry) (same : entry'.key = entry.key ∧ entry'.doomed = entry.doomed)
    (abandoned : entry'.Abandoned) (unposted : entry'.willProcessPendingQueue = false)
    (doomed : cache'.doomedEntries = cache.doomedEntries)
    (active : cache'.activeEntries = cache.activeEntries) : cache'.DestroyEntryChecks e entry' := by
  have found := locked.found
  rw [HttpCache.DestroyEntryChecks]
  obtain ⟨no_writer, no_readers, no_queue⟩ := abandoned
  split
  · rename_i its_doomed
    rw [← same.2, if_pos its_doomed] at found
    exact ⟨its_doomed, no_writer, no_readers, no_queue, doomed ▸ found⟩
  · rename_i not_doomed
    rw [← same.2, if_neg not_doomed, ← same.1] at found
    exact ⟨unposted, Bool.eq_false_iff.mpr not_doomed, no_writer, no_readers, no_queue, fun _ => active ▸ found⟩

variable {fair : Prop} {waits : Waits} (sound : Sound fair none cache roles waits)
include sound

theorem Sound.users (holds : (cache.trans t).entry = some e) (its : cache.entries e = some entry) :
    if (cache.trans t).writes then
      entry.writer = some t ∧ entry.readers = [] ∧ entry.willProcessPendingQueue = false
    else entry.writer = none ∧ t ∈ entry.readers := by
  obtain ⟨-, -, -, role⟩ := (sound.fit t).holds holds
  have locked := sound.entries.each e entry its
  split
  · rename_i writes
    rw [if_pos writes] at role
    have written := (locked.writer t).mpr role
    exact ⟨written, locked.exclusive (written ▸ some_ne_none t)⟩
  · rename_i reads
    rw [if_neg reads] at role
    have reading := (locked.readers t).mpr role
    refine ⟨by_contra fun written => ?_, reading⟩
    rw [(locked.exclusive written).1] at reading
    cases reading

theorem Sound.used (holds : (cache.trans t).entry = some e) (its : cache.entries e = some entry) :
    ¬ entry.Abandoned := by
  rintro ⟨no_writer, no_readers, -⟩
  have users := sound.users holds its
  split at users
  · rw [no_writer] at users
    cases users.1
  · rw [no_readers] at users
    cases users.2

variable {now : HttpCache} {event : Event} {success : Bool}

omit sound in
theorem Brings.changes {brought : HttpCache} {made : Option EntryId}
    (brings : Brings cache brought made) (give : EntryId → HttpCache)
    (gives : ∀ e entry, made = some e → brought.entries e = some entry →
      ∃ entry', Puts e entry' brought (give e) ∧ entry'.Attended)
    (same : made = none → now.entries = brought.entries ∧ Keeps brought now)
    (run : event.run cache = made.elim now give) (quiet : event.destroys cache = none)
    (free : cache.entries cache.nextEntry = none) : Changes cache event := by
  cases made with
  | none =>
    obtain ⟨entries, keeps⟩ := same rfl
    rw [elim_none] at run
    exact .same (run ▸ brings.2.trans keeps) (run ▸ entries.trans brings.1) quiet
  | some e =>
    obtain ⟨rfl, key, puts⟩ := brings
    have its : brought.entries cache.nextEntry = some ⟨key, none, [], [], false, false⟩ := by
      rw [puts.entries, if_pos rfl]
    obtain ⟨entry', puts', attended⟩ := gives _ _ rfl its
    rw [elim_some] at run
    refine .put (run ▸ puts.trans puts') attended (fun _ => rfl) (fun entry its => ?_) quiet
    rw [free] at its
    cases its

theorem Sound.free : cache.entries cache.nextEntry = none := by
  by_contra live
  exact Nat.lt_irrefl _ (sound.entries.fresh _ live)

theorem Sound.request_changes (operation : WorkItemOperation) (key : String) (t : Trans) (rv : Option Bool)
    (run : event.run cache = (cache.request operation key (some t) rv).2.elim
      (cache.request operation key (some t) rv).1
      fun e => (cache.request operation key (some t) rv).1.doAddToEntry t e)
    (quiet : event.destroys cache = none) : Changes cache event := by
  refine (request_brings (fun none => by cases none) key rv cache).1.changes _ (fun e entry _ its => ?_)
    (fun _ => ⟨rfl, keeps_of rfl rfl⟩) run quiet sound.free
  obtain ⟨entry', puts, attended, -⟩ := puts_doAdd its t
  exact ⟨entry', puts, attended⟩

theorem Sound.createEntry_changes (rv : Option Bool) : Changes cache (.createEntry t rv) := by
  refine sound.request_changes .createEntry (cache.trans t).key t rv ?_ rfl
  rw [Event.run, HttpCache.createEntry]
  simp only
  cases (cache.request .createEntry (cache.trans t).key (some t) rv).2 <;> rfl

theorem Sound.active_changes
    (active : cache.activeEntries key = some e) (puts : Puts e entry' cache (event.run cache))
    (attended : entry'.Attended) (quiet : event.destroys cache = none) : Changes cache event := by
  obtain ⟨entry, its, not_doomed, -⟩ := sound.entries.active key e active
  refine .put puts attended (fun none => ?_) (fun entry its' doomed => ?_) quiet
  · rw [its] at none
    cases none
  · rw [its] at its'
    cases its'
    rw [not_doomed] at doomed
    cases doomed

theorem Sound.openEntry_changes (rv : Option Bool) : Changes cache (.openEntry t rv) := by
  cases active : cache.activeEntries (cache.trans t).key with
  | some e =>
    obtain ⟨entry, its, -⟩ := sound.entries.active _ e active
    obtain ⟨entry', puts, attended, -⟩ := puts_doAdd its t
    have run : Event.run cache (.openEntry t rv) = cache.doAddToEntry t e := by
      rw [Event.run, HttpCache.openEntry, active]
    rw [← run] at puts
    exact sound.active_changes active puts attended rfl
  | none =>
    refine sound.request_changes .openEntry (cache.trans t).key t rv ?_ rfl
    rw [Event.run, HttpCache.openEntry, active]
    simp only
    cases (cache.request .openEntry (cache.trans t).key (some t) rv).2 <;> rfl

theorem Sound.doomEntry_changes (attended : ∀ e entry, cache.entries e = some entry → entry.Attended)
    (key : String) (t : Option Trans) (rv : Option Bool) : Changes cache (.doomEntry key t rv) := by
  cases active : cache.activeEntries key with
  | none =>
    obtain ⟨brings, nothing⟩ := request_brings (fun _ : t = none => rfl) key rv cache
    have run : Event.run cache (.doomEntry key t rv) = (cache.request .doomEntry key t rv).1 := by
      rw [Event.run, HttpCache.doomEntry, active]
    rw [nothing rfl] at brings
    exact .same (run ▸ brings.2) (run ▸ brings.1) rfl
  | some e =>
    obtain ⟨entry, its, -⟩ := sound.entries.active key e active
    obtain ⟨onDisk, doomed, -⟩ := doomDisk_fields entry cache
    have puts : Puts e { entry with doomed := true } cache (Event.run cache (.doomEntry key t rv)) := by
      rw [Event.run, HttpCache.doomEntry, active]
      simp only
      rw [its]
      simp only
      rw [doomed]
      exact ⟨keeps_of rfl rfl, fun _ => rfl⟩
    have still : ActiveEntry.Attended { entry with doomed := true } := attended e entry its
    exact sound.active_changes active puts still rfl

section

variable (holds : (cache.trans t).entry = some e) (its : cache.entries e = some entry)
include holds its

theorem Sound.left_changes (puts : Puts e entry' cache (event.run cache))
    (attended : entry'.Attended) (doomed : entry'.doomed = entry.doomed)
    (quiet : event.destroys cache = none) : Changes cache event := by
  refine .put puts attended (fun none => ?_) (fun entry' its' doomed' => ?_) quiet
  · rw [its] at none
    cases none
  · rw [its] at its'
    cases its'
    exact ⟨sound.used holds its, doomed.trans doomed'⟩

theorem Sound.written_changes (writes : (cache.trans t).writes = true)
    (done : now = (cache.released t).doneWritingToEntry e entry success)
    (run : (event.run cache).entries = now.entries) (keeps : Keeps now (event.run cache))
    (destroys : event.destroys cache = (cache.released t).doneWritingDestroys e entry success) :
    Changes cache event := by
  cases success with
  | true =>
    obtain ⟨entry', puts, will, doomed⟩ := puts_process e { entry with writer := none } (cache.released t)
    have puts : Puts e entry' cache now := done ▸ puts.of_eq rfl (keeps_of rfl rfl)
    exact sound.left_changes holds its (puts.to_eq run keeps) (fun _ _ => will) doomed destroys
  | false =>
    let gone : ActiveEntry := { entry with writer := none, pendingQueue := [] }
    obtain ⟨onDisk, doomed, -⟩ := doomDisk_fields gone (cache.released t)
    have users := sound.users holds its
    rw [if_pos writes] at users
    have checks : Destruction.Checks ⟨e, gone, (cache.released t).doomDisk gone⟩ := by
      refine (sound.entries.each e entry its).checks ⟨rfl, rfl⟩ ⟨rfl, users.2.1, rfl⟩ users.2.2 ?_ ?_
      · rw [doomed]
        rfl
      · rw [doomed]
        rfl
    let destroyed := HttpCache.destroyEntry e gone ((cache.released t).doomDisk gone)
    obtain ⟨-, -, -, -, entries, -⟩ := destroyEntry_fields e gone ((cache.released t).doomDisk gone)
    obtain ⟨same, dooms⟩ := doomDisk_keeps gone (cache.released t)
    obtain ⟨pushed, kept⟩ := push_keeps (.doneWriting entry.pendingQueue) destroyed
    have its_now : now = destroyed.push (.doneWriting entry.pendingQueue) := done
    have released : Keeps cache (cache.released t) := keeps_of rfl rfl
    have before := (released.trans dooms).trans (destroyEntry_keeps e gone _)
    refine .gone destroys checks its rfl (fun abandoned => absurd abandoned (sound.used holds its))
      ((before.trans (its_now ▸ kept)).trans keeps) fun x => ?_
    rw [run, its_now, pushed, entries, same]
    rfl

theorem Sound.read_changes (done : now = (cache.released t).doneReadingFromEntry t e entry)
    (run : (event.run cache).entries = now.entries) (keeps : Keeps now (event.run cache))
    (quiet : event.destroys cache = none) : Changes cache event := by
  obtain ⟨entry', puts, will, doomed⟩ :=
    puts_process e { entry with readers := entry.readers.erase t } (cache.released t)
  have puts : Puts e entry' cache now := done ▸ puts.of_eq rfl (keeps_of rfl rfl)
  exact sound.left_changes holds its (puts.to_eq run keeps) (fun _ _ => will) doomed quiet

end

omit sound in
theorem releaseDestroys_eq (holds : (cache.trans t).entry = some e) (its : cache.entries e = some entry)
    (done : EntryId → ActiveEntry → HttpCache → Option Destruction) :
    cache.releaseDestroys t done = done e entry (cache.released t) := by
  rw [releaseDestroys, holds]
  simp only
  rw [its]

theorem Sound.doneWriting_changes (allowed : (Event.doneWriting t success).Allowed cache) :
    Changes cache (.doneWriting t success) := by
  obtain ⟨e, holds⟩ := ne_none_iff_exists'.mp allowed.1
  obtain ⟨entry, its, -⟩ := sound.held holds
  exact sound.written_changes holds its allowed.2 (release_eq holds its _) rfl (keeps_of rfl rfl)
    (releaseDestroys_eq holds its _)

theorem Sound.doneReading_changes (allowed : (Event.doneReading t).Allowed cache) :
    Changes cache (.doneReading t) := by
  obtain ⟨e, holds⟩ := ne_none_iff_exists'.mp allowed.1
  obtain ⟨entry, its, -⟩ := sound.held holds
  exact sound.read_changes holds its (release_eq holds its _) rfl (keeps_of rfl rfl) rfl

theorem Sound.doneWith_changes (holds : (cache.trans t).entry = some e)
    (run : ∀ now, now = (cache.release t fun e entry cache => cache.doneWithEntry t e entry success) →
      (event.run cache).entries = now.entries ∧ Keeps now (event.run cache))
    (destroys : event.destroys cache = cache.releaseDestroys t fun e entry cache =>
      cache.doneWithDestroys e entry success) : Changes cache event := by
  obtain ⟨entry, its, -⟩ := sound.held holds
  obtain ⟨entries, keeps⟩ := run _ rfl
  have users := sound.users holds its
  rw [releaseDestroys_eq holds its, doneWithDestroys] at destroys
  cases writes : (cache.trans t).writes with
  | true =>
    rw [if_pos writes] at users
    rw [if_neg (by simp [users.2.2]), if_pos (by simp [users.1])] at destroys
    refine sound.written_changes holds its writes ?_ entries keeps destroys
    rw [release_eq holds its, HttpCache.doneWithEntry, if_neg (by simp [users.2.2]),
      if_pos (by simp [users.1])]
    rfl
  | false =>
    rw [if_neg (by simp [writes])] at users
    have not_both : ¬ (entry.willProcessPendingQueue && decide (entry.readers = [])) = true := by
      simp [List.ne_nil_of_mem users.2]
    have unwritten : ¬ entry.writer.isSome = true := by simp [users.1]
    rw [if_neg not_both, if_neg unwritten] at destroys
    refine sound.read_changes holds its ?_ entries keeps destroys
    rw [release_eq holds its, HttpCache.doneWithEntry, if_neg not_both, if_neg unwritten]
    rfl

theorem Sound.convert_changes (allowed : (Event.convert t).Allowed cache) : Changes cache (.convert t) := by
  obtain ⟨e, holds⟩ := ne_none_iff_exists'.mp allowed.1
  obtain ⟨entry, its, -⟩ := sound.held holds
  have run : Event.run cache (.convert t) =
      (cache.setTrans t { cache.trans t with writes := false }).convertWriterToReader t e entry := by
    rw [Event.run, HttpCache.convert, holds]
    simp only
    rw [its]
  obtain ⟨entry', puts, will, doomed⟩ :=
    puts_process e { entry with writer := none, readers := entry.readers ++ [t] }
      (cache.setTrans t { cache.trans t with writes := false })
  have puts : Puts e entry' cache (Event.run cache (.convert t)) :=
    run ▸ puts.of_eq rfl (keeps_of rfl rfl)
  exact sound.left_changes holds its puts (fun _ _ => will) doomed rfl

omit sound in
theorem removePending_manned {op op' : PendingOp} (manned : op.writer.Manned)
    (its : op.removePendingTransaction t = some op') : op'.writer.Manned := by
  rw [PendingOp.removePendingTransaction] at its
  split at its
  · cases its
    exact ⟨manned.1, fun _ => Or.inr rfl⟩
  · split at its
    · cases its
      exact manned
    · cases its

omit sound in
theorem removed_changes (attended : ∀ e entry, cache.entries e = some entry → entry.Attended)
    {removed : HttpCache} (found : cache.removePendingTransaction t = some removed)
    (run : (event.run cache).entries = removed.entries) (keeps : Keeps removed (event.run cache))
    (quiet : event.destroys cache = none) : Changes cache event := by
  have from_entry : ∀ e, cache.removeFromEntry t e = some removed → Changes cache event := by
    intro e its_removed
    obtain ⟨entry, its, queued, rfl⟩ := removeFromEntry_iff.mp its_removed
    refine .put ((puts_setEntry ..).to_eq run keeps) (attended e entry its) (fun none => ?_)
      (fun entry' its' doomed => ?_) quiet
    · rw [its] at none
      cases none
    · rw [its] at its'
      cases its'
      refine ⟨fun abandoned => ?_, doomed⟩
      rw [abandoned.2.2] at queued
      cases queued
  rw [removePendingTransaction] at found
  simp only [orElse_eq_orElse, orElse_eq_or, or_eq_some_iff] at found
  rcases found with active | ⟨-, backend | ⟨-, work | ⟨-, doomed⟩⟩⟩
  · obtain ⟨e, -, found⟩ := bind_eq_some_iff.mp active
    exact from_entry e found
  · split at backend
    · obtain ⟨op, its, rest⟩ := bind_eq_some_iff.mp backend
      obtain ⟨op', found, same⟩ := bind_eq_some_iff.mp rest
      cases same
      have before : Keeps cache { cache with backendOp := some op' } := keeps_of rfl rfl
      exact .same (before.trans keeps) run quiet
    · cases backend
  · obtain ⟨op, its, rest⟩ := bind_eq_some_iff.mp work
    obtain ⟨op', found, same⟩ := bind_eq_some_iff.mp rest
    cases same
    have before : Keeps cache (cache.setOp (cache.trans t).key (some op')) := by
      refine keeps_setOp (fun its' same manned => ?_) cache rfl rfl
      cases same
      exact removePending_manned (manned _ op its) found
    exact .same (before.trans keeps) run quiet
  · obtain ⟨e, -, found⟩ := List.exists_of_findSome?_eq_some doomed
    exact from_entry e found

theorem Sound.destroy_changes (attended : ∀ e entry, cache.entries e = some entry → entry.Attended)
    (t : Trans) (success : Bool) : Changes cache (.destroy t success) := by
  have run : Event.run cache (.destroy t success) = cache.destroy t success := rfl
  rw [HttpCache.destroy] at run
  cases holds : (cache.trans t).entry with
  | some e =>
    rw [if_pos (by simp [holds])] at run
    refine sound.doneWith_changes holds (fun now its_now => ?_) rfl
    rw [run, ← its_now]
    exact ⟨rfl, keeps_of rfl rfl⟩
  | none =>
    have quiet : Event.destroys cache (.destroy t success) = none := by
      rw [Event.destroys, releaseDestroys, holds]
    rw [if_neg (by simp [holds])] at run
    split at run
    · split at run
      · rename_i removed found
        refine removed_changes attended found ?_ ?_ quiet
        · rw [run]
          rfl
        · rw [run]
          exact keeps_of rfl rfl
      · refine .same ?_ ?_ quiet
        · rw [run]
          exact keeps_of rfl rfl
        · rw [run]
          rfl
    · refine .same ?_ ?_ quiet
      · rw [run]
        exact keeps_of rfl rfl
      · rw [run]
        rfl

theorem Sound.complete_changes (manned : cache.Manned) (key : String) (result : Bool) :
    Changes cache (.complete key result) := by
  cases its : cache.pendingOps key with
  | none =>
    have run : Event.run cache (.complete key result) = cache := by rw [Event.run, its]
    refine .same ?_ (by rw [run]) rfl
    rw [run]
    exact keeps_of rfl rfl
  | some op =>
    obtain ⟨brings, made⟩ := completeOperation_brings result key op cache
    generalize completed : cache.completeOperation result key op = after at brings made
    obtain ⟨after, new, failRequests⟩ := after
    let frame : Frame := .onIOComplete result op.writer.operation key failRequests op.pendingQueue
    let pushed := push frame (setOp key none after)
    obtain ⟨same, keeps⟩ := push_keeps frame (setOp key none after)
    have clears : Keeps after (setOp key none after) :=
      keeps_setOp (fun _ none => by cases none) after rfl rfl
    have run : Event.run cache (.complete key result) =
        new.elim (pushed.notifyTransaction op.writer.trans .failed)
          fun e => pushed.notifyTransaction op.writer.trans (.ok e) := by
      rw [Event.run, its]
      simp only
      rw [HttpCache.onIOComplete, completed]
      cases new <;> rfl
    have brought : Brings cache pushed new := brings.to_eq same (clears.trans keeps)
    refine brought.changes _ (fun e entry is_new its_e => ?_) (fun _ => notify_failed ..) run rfl sound.free
    cases first : op.writer.trans with
    | some t =>
      obtain ⟨entry', puts, attended, -⟩ := puts_notify its_e t
      exact ⟨entry', puts, attended⟩
    | none =>
      -- an operation whose transaction has gone makes no entry
      obtain ⟨not_doom, valid⟩ := made (by rw [is_new]; exact some_ne_none e)
      obtain ⟨no_callback, alone⟩ := manned key op its
      have no_entry := (alone first).resolve_left not_doom
      simp [WorkItem.isValid, first, no_entry, no_callback] at valid

theorem Sound.processed_changes (posted : e ∈ cache.tasks) : Changes cache (.processPendingQueue e) := by
  obtain ⟨entry, its⟩ := ne_none_iff_exists'.mp (sound.entries.tasks_live e posted)
  have locked := sound.entries.each e entry its
  have unwritten := sound.entries.unwritten its posted
  let now : ActiveEntry := { entry with willProcessPendingQueue := false }
  let cleared := HttpCache.setEntry e now { cache with tasks := cache.tasks.erase e }
  have clears : Puts e now cache cleared := ⟨keeps_of rfl rfl, fun _ => rfl⟩
  have stays : ∀ entry' : ActiveEntry, Puts e entry' cache (Event.run cache (.processPendingQueue e)) →
      entry'.Attended → entry'.doomed = entry.doomed → ¬ (entry.pendingQueue = [] ∧ entry.readers = []) →
      Changes cache (.processPendingQueue e) := by
    intro entry' puts attended doomed used
    refine .put puts attended (fun none => ?_) (fun entry'' its'' doomed'' => ?_) ?_
    · rw [its] at none
      cases none
    · rw [its] at its''
      cases its''
      exact ⟨fun abandoned => used ⟨abandoned.2.2, abandoned.2.1⟩, doomed.trans doomed''⟩
    · rw [Event.destroys, taskDestroys, its]
      exact if_neg used
  have run : Event.run cache (.processPendingQueue e) = cache.onProcessPendingQueue e := rfl
  rw [onProcessPendingQueue, its] at run
  obtain ⟨key, writer, readers, queue, will, doomed⟩ := entry
  cases queue with
  | nil =>
    simp only at run
    split at run
    · rename_i no_readers
      have destroys : Event.destroys cache (.processPendingQueue e) = some ⟨e, now, cleared⟩ := by
        rw [Event.destroys, taskDestroys, its]
        exact if_pos ⟨rfl, no_readers⟩
      have checks : Destruction.Checks ⟨e, now, cleared⟩ :=
        locked.checks ⟨rfl, rfl⟩ ⟨unwritten, no_readers, rfl⟩ rfl rfl rfl
      obtain ⟨-, -, -, -, entries, -⟩ := destroyEntry_fields e now cleared
      have destroyed : Event.run cache (.processPendingQueue e) = cleared.destroyEntry e now := run
      refine .gone destroys checks its rfl (fun _ => rfl) ?_ fun x => ?_
      · rw [destroyed]
        exact clears.toKeeps.trans (destroyEntry_keeps ..)
      · rw [destroyed, entries]
        change (if x = e then none else if x = e then some now else cache.entries x) = _
        split <;> rfl
    · rename_i has_readers
      refine stays now ?_ (fun _ no_readers => absurd no_readers has_readers) rfl fun both => has_readers both.2
      rw [run]
      exact clears
  | cons next rest =>
    simp only at run
    split at run
    · rename_i must_wait
      simp only [Bool.and_eq_true, decide_eq_true_eq] at must_wait
      refine stays now ?_ (fun _ no_readers => absurd no_readers must_wait.2) rfl fun both => must_wait.2 both.2
      rw [run]
      exact clears
    · obtain ⟨entry', puts, attended, same⟩ := puts_add next e ⟨key, writer, readers, rest, false, doomed⟩ cleared
      have puts := clears.trans puts
      refine stays entry' ?_ attended same fun both => by cases both.1
      rw [run]
      split
      · exact puts.to_eq rfl (keeps_of rfl rfl)
      · exact puts

theorem Sound.resume_changes : Changes cache .resume := by
  have told : ∀ (before : HttpCache) (t : Option Trans) (notice : Notice),
      before.entries = cache.entries → Keeps cache before →
      (∀ e, notice = .ok e → ∃ key, cache.activeEntries key = some e) →
      Event.run cache .resume = before.notifyTransaction t notice → Changes cache .resume := by
    intro before t notice same keeps ok run
    obtain ⟨failed, kept⟩ := notify_failed t before
    cases notice with
    | failed => exact .same (run ▸ keeps.trans kept) (run ▸ failed.trans same) rfl
    | ok e =>
      cases t with
      | none => exact .same (run ▸ keeps) (run ▸ same) rfl
      | some t =>
        obtain ⟨key, active⟩ := ok e rfl
        obtain ⟨entry, its, -⟩ := sound.entries.active key e active
        obtain ⟨entry', puts, attended, -⟩ := puts_notify (same ▸ its : before.entries e = some entry) t
        have puts : Puts e entry' cache (Event.run cache .resume) := run ▸ puts.of_eq same keeps
        exact sound.active_changes active puts attended rfl
  have quiet : ∀ now : HttpCache, now.entries = cache.entries → Keeps cache now →
      Event.run cache .resume = now → Changes cache .resume := fun now same keeps run =>
    told now none .failed same keeps (fun _ none => by cases none) run
  have next : ∀ frame frames, (push frame { cache with frames }).entries = cache.entries ∧
      Keeps cache (push frame { cache with frames }) := by
    intro frame frames
    obtain ⟨same, keeps⟩ := push_keeps frame { cache with frames }
    have before : Keeps cache { cache with frames } := keeps_of rfl rfl
    exact ⟨same, before.trans keeps⟩
  have run : Event.run cache .resume = cache.resume := rfl
  rw [HttpCache.resume.eq_def] at run
  cases its : cache.frames with
  | nil =>
    rw [its] at run
    exact quiet cache rfl (keeps_of rfl rfl) run
  | cons frame frames =>
    rw [its] at run
    cases frame with
    | onIOComplete result op key failRequests items =>
      cases items with
      | nil => exact quiet { cache with frames } rfl (keeps_of rfl rfl) run
      | cons item items =>
        simp only at run
        obtain ⟨same, keeps⟩ := next (.onIOComplete result op key
          (cache.nextNotice result op key failRequests item).2 items) frames
        exact told _ item.trans _ same keeps (fun e ok => ⟨key, nextNotice_ok ok⟩) run
    | doneWriting queue =>
      cases queue with
      | nil => exact quiet { cache with frames } rfl (keeps_of rfl rfl) run
      | cons t queue =>
        obtain ⟨same, keeps⟩ := next (.doneWriting queue) frames
        exact told _ (some t) .failed same keeps (fun _ none => by cases none) run
    | onBackendCreated =>
      simp only at run
      split at run
      · rename_i writer item items _
        exact told { cache with frames := .onBackendCreated :: frames, backendOp := some ⟨writer, items⟩ }
          item.trans .failed rfl (keeps_of rfl rfl) (fun _ none => by cases none) (its ▸ run)
      · exact quiet { cache with frames, backendOp := none, buildingBackend := false } rfl (keeps_of rfl rfl) run

theorem Sound.changes (attended : ∀ e entry, cache.entries e = some entry → entry.Attended)
    (manned : cache.Manned) (allowed : event.Allowed cache) : Changes cache event := by
  cases event with
  | setup t key writes => exact .same (keeps_of rfl rfl) rfl rfl
  | createBackend callback rv =>
    have same : (Event.run cache (.createBackend callback rv)).entries = cache.entries ∧
        Keeps cache (Event.run cache (.createBackend callback rv)) := by
      rw [Event.run, HttpCache.createBackend]
      split
      · exact ⟨rfl, keeps_of rfl rfl⟩
      · simp only
        split
        · split <;> exact ⟨rfl, keeps_of rfl rfl⟩
        · split <;> exact ⟨rfl, keeps_of rfl rfl⟩
    exact .same same.2 same.1 rfl
  | getBackend t =>
    have same : (Event.run cache (.getBackend t)).entries = cache.entries ∧
        Keeps cache (Event.run cache (.getBackend t)) := by
      rw [Event.run, getBackendForTransaction]
      repeat' split
      all_goals exact ⟨rfl, keeps_of rfl rfl⟩
    exact .same same.2 same.1 rfl
  | openEntry t rv => exact sound.openEntry_changes rv
  | createEntry t rv => exact sound.createEntry_changes rv
  | doomEntry key t rv => exact sound.doomEntry_changes attended key t rv
  | doneWriting t success => exact sound.doneWriting_changes allowed
  | doneReading t => exact sound.doneReading_changes allowed
  | doneWithEntry t success =>
    obtain ⟨e, holds⟩ := ne_none_iff_exists'.mp allowed
    refine sound.doneWith_changes holds (fun now its => ?_) rfl
    rw [its]
    exact ⟨rfl, keeps_of rfl rfl⟩
  | convert t => exact sound.convert_changes allowed
  | destroy t success => exact sound.destroy_changes attended t success
  | complete key result => exact sound.complete_changes manned key result
  | backendCreated result =>
    obtain ⟨same, keeps⟩ := push_keeps .onBackendCreated
      { cache with backendFactory := false, diskCache := cache.diskCache || result }
    have before : Keeps cache
      { cache with backendFactory := false, diskCache := cache.diskCache || result } := keeps_of rfl rfl
    exact .same (before.trans keeps) same rfl
  | processPendingQueue e => exact sound.processed_changes allowed.2
  | resume => exact sound.resume_changes

end Events

end Glopen.Http

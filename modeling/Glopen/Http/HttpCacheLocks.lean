import Mathlib.Data.List.Nodup
import Glopen.Http.HttpCache

/-! Who has an entry of http_cache.cc, and who waits for it. -/
namespace Glopen.Http

open List Option

inductive Role
  | writer | reader | queued
deriving DecidableEq

abbrev Roles := Trans → Option (EntryId × Role)

def Roles.set (t : Trans) (role : Option (EntryId × Role)) (roles : Roles) : Roles :=
  fun x => if x = t then role else roles x

structure Members (cache : HttpCache) (roles : Roles) (e : EntryId) (entry : ActiveEntry) : Prop where
  writer : ∀ t, entry.writer = some t ↔ roles t = some (e, .writer)
  readers : ∀ t, t ∈ entry.readers ↔ roles t = some (e, .reader)
  queue : ∀ t, t ∈ entry.pendingQueue ↔ roles t = some (e, .queued)
  distinct : entry.readers.Nodup
  keys : ∀ t ∈ entry.pendingQueue, (cache.trans t).key = entry.key
  order : entry.pendingQueue.Pairwise fun a b => (cache.trans a).arrived < (cache.trans b).arrived
  before : ∀ t ∈ entry.pendingQueue, (cache.trans t).arrived < cache.arrivals

structure Locked (cache : HttpCache) (roles : Roles) (e : EntryId) (entry : ActiveEntry) : Prop
    extends Members cache roles e entry where
  exclusive : entry.writer ≠ none → entry.readers = [] ∧ entry.willProcessPendingQueue = false
  woken : entry.pendingQueue ≠ [] →
    entry.writer ≠ none ∨ entry.readers ≠ [] ∨ entry.willProcessPendingQueue = true
  posted : entry.willProcessPendingQueue = true ↔ e ∈ cache.tasks
  found : if entry.doomed then e ∈ cache.doomedEntries else cache.activeEntries entry.key = some e

structure Entries (cache : HttpCache) (roles : Roles) : Prop where
  each : ∀ e entry, cache.entries e = some entry → Locked cache roles e entry
  live : ∀ t e role, roles t = some (e, role) → cache.entries e ≠ none
  tasks : cache.tasks.Nodup
  tasks_live : ∀ e ∈ cache.tasks, cache.entries e ≠ none
  active : ∀ k e, cache.activeEntries k = some e →
    ∃ entry, cache.entries e = some entry ∧ entry.doomed = false ∧ entry.key = k
  fresh : ∀ e, cache.entries e ≠ none → e < cache.nextEntry

variable {cache : HttpCache} {roles : Roles} {e : EntryId} {entry entry' : ActiveEntry} {t : Trans}

section Put

variable {cache' : HttpCache} {roles' : Roles}

structure Elsewhere (cache cache' : HttpCache) (roles roles' : Roles) (e : EntryId) : Prop where
  same_roles : ∀ t x role, x ≠ e → (roles' t = some (x, role) ↔ roles t = some (x, role))
  trans : ∀ t x, x ≠ e → roles t = some (x, .queued) → (cache'.trans t).key = (cache.trans t).key ∧
    (cache'.trans t).arrived = (cache.trans t).arrived
  arrivals : cache.arrivals ≤ cache'.arrivals
  tasks : ∀ x, x ≠ e → (x ∈ cache'.tasks ↔ x ∈ cache.tasks)

theorem Locked.elsewhere (locked : Locked cache roles e entry) {e' : EntryId} (other : e ≠ e')
    (elsewhere : Elsewhere cache cache' roles roles' e') (found : if entry.doomed then e ∈ cache'.doomedEntries
      else cache'.activeEntries entry.key = some e) : Locked cache' roles' e entry := by
  have kept : ∀ t ∈ entry.pendingQueue, (cache'.trans t).key = (cache.trans t).key ∧
      (cache'.trans t).arrived = (cache.trans t).arrived := fun t there =>
    elsewhere.trans t e other ((locked.queue t).mp there)
  constructor
  · constructor
    · intro t
      rw [elsewhere.same_roles t e _ other]
      exact locked.writer t
    · intro t
      rw [elsewhere.same_roles t e _ other]
      exact locked.readers t
    · intro t
      rw [elsewhere.same_roles t e _ other]
      exact locked.queue t
    · exact locked.distinct
    · intro t there
      rw [(kept t there).1]
      exact locked.keys t there
    · refine locked.order.imp_of_mem fun {a b} in_a in_b earlier => ?_
      rw [(kept a in_a).2, (kept b in_b).2]
      exact earlier
    · intro t there
      rw [(kept t there).2]
      exact Nat.lt_of_lt_of_le (locked.before t there) elsewhere.arrivals
  · exact locked.exclusive
  · exact locked.woken
  · rw [elsewhere.tasks e other]
    exact locked.posted
  · exact found

section

variable (entries : Entries cache roles)
include entries

theorem Entries.put (its : cache.entries e = some entry)
    (now : ∀ x, cache'.entries x = if x = e then some entry' else cache.entries x)
    (elsewhere : Elsewhere cache cache' roles roles' e) (tasks : cache'.tasks.Nodup)
    (active : cache'.activeEntries = cache.activeEntries)
    (doomed : cache'.doomedEntries = cache.doomedEntries) (next : cache'.nextEntry = cache.nextEntry)
    (same : entry'.key = entry.key ∧ entry'.doomed = entry.doomed)
    (locked : Locked cache' roles' e entry') : Entries cache' roles' := by
  have kept : ∀ x, cache.entries x ≠ none → cache'.entries x ≠ none := by
    intro x live
    rw [now]
    split
    · exact some_ne_none _
    · exact live
  constructor
  · intro x entry'' its''
    rw [now] at its''
    split at its''
    · rename_i here
      cases its''
      exact here ▸ locked
    · rename_i other
      have before := entries.each x entry'' its''
      refine before.elsewhere other elsewhere ?_
      rw [active, doomed]
      exact before.found
  · intro t x role its_role
    by_cases here : x = e
    · exact kept x (here ▸ its ▸ some_ne_none _)
    · exact kept x (entries.live t x role ((elsewhere.same_roles t x role here).mp its_role))
  · exact tasks
  · intro x there
    by_cases here : x = e
    · exact kept x (here ▸ its ▸ some_ne_none _)
    · exact kept x (entries.tasks_live x ((elsewhere.tasks x here).mp there))
  · intro k x its_key
    rw [active] at its_key
    obtain ⟨entry'', its'', not_doomed, key⟩ := entries.active k x its_key
    rw [now]
    by_cases here : x = e
    · subst here
      rw [its] at its''
      cases its''
      exact ⟨entry', if_pos rfl, same.2.trans not_doomed, same.1.trans key⟩
    · exact ⟨entry'', (if_neg here).trans its'', not_doomed, key⟩
  · intro x live
    rw [next]
    rw [now] at live
    by_cases here : x = e
    · exact entries.fresh x (here ▸ its ▸ some_ne_none _)
    · rw [if_neg here] at live
      exact entries.fresh x live

section

variable (its : cache.entries e = some entry)
  (others : ∀ t x role, x ≠ e → (roles' t = some (x, role) ↔ roles t = some (x, role)))
include its others

theorem Entries.setEntry (same : entry'.key = entry.key ∧ entry'.doomed = entry.doomed)
    (locked : Locked cache roles' e entry') : Entries (cache.setEntry e entry') roles' :=
  entries.put its (fun _ => rfl)
    ⟨others, fun _ _ _ _ => ⟨rfl, rfl⟩, Nat.le_refl _, fun _ _ => Iff.rfl⟩ entries.tasks rfl rfl rfl same
    ⟨⟨locked.writer, locked.readers, locked.queue, locked.distinct, locked.keys, locked.order,
      locked.before⟩, locked.exclusive, locked.woken, locked.posted, locked.found⟩

theorem Entries.process (same : entry'.key = entry.key ∧ entry'.doomed = entry.doomed ∧
      entry'.willProcessPendingQueue = entry.willProcessPendingQueue)
    (members : Members cache roles' e entry') (unwritten : entry'.writer = none) :
    Entries (cache.processPendingQueue e entry') roles' := by
  have locked := entries.each e entry its
  have found : if entry'.doomed then e ∈ cache.doomedEntries
      else cache.activeEntries entry'.key = some e := by
    rw [same.1, same.2.1]
    exact locked.found
  have posted : entry'.willProcessPendingQueue = true ↔ e ∈ cache.tasks := by
    rw [same.2.2]
    exact locked.posted
  rw [HttpCache.processPendingQueue]
  split
  · rename_i will
    exact entries.setEntry its others ⟨same.1, same.2.1⟩
      ⟨members, fun written => absurd unwritten written, fun _ => .inr (.inr will), posted, found⟩
  · rename_i unposted
    have new : e ∉ cache.tasks := fun there => unposted (posted.mpr there)
    have members' : Members { cache.setEntry e { entry' with willProcessPendingQueue := true } with
          tasks := cache.tasks ++ [e] } roles' e { entry' with willProcessPendingQueue := true } :=
      ⟨members.writer, members.readers, members.queue, members.distinct, members.keys, members.order,
        members.before⟩
    refine entries.put its (fun _ => rfl)
      ⟨others, fun _ _ _ _ => ⟨rfl, rfl⟩, Nat.le_refl _, fun x other => ?_⟩ ?_ rfl rfl rfl
      ⟨same.1, same.2.1⟩ ⟨members', fun written => absurd unwritten written,
        fun _ => .inr (.inr rfl), ⟨fun _ => ?_, fun _ => rfl⟩, found⟩
    · rw [mem_append, mem_singleton]
      exact ⟨fun either => either.resolve_right other, .inl⟩
    · refine nodup_append.mpr ⟨entries.tasks, nodup_singleton e, fun a there b same => ?_⟩
      rw [mem_singleton] at same
      rintro rfl
      exact new (same ▸ there)
    · exact mem_append_right _ (mem_singleton_self e)

end

theorem Entries.congr (same : cache'.entries = cache.entries)
    (tasks : cache'.tasks = cache.tasks) (active : cache'.activeEntries = cache.activeEntries)
    (doomed : cache'.doomedEntries = cache.doomedEntries) (next : cache'.nextEntry = cache.nextEntry)
    (kept : ∀ t e, roles t = some (e, .queued) → (cache'.trans t).key = (cache.trans t).key ∧
      (cache'.trans t).arrived = (cache.trans t).arrived)
    (later : cache.arrivals ≤ cache'.arrivals) : Entries cache' roles := by
  refine ⟨fun e entry its => ?_, same ▸ entries.live, tasks ▸ entries.tasks, ?_, ?_, ?_⟩
  · have locked := entries.each e entry (same ▸ its)
    have queued : ∀ x ∈ entry.pendingQueue, roles x = some (e, .queued) := fun x => (locked.queue x).mp
    refine ⟨⟨locked.writer, locked.readers, locked.queue, locked.distinct, fun x there => ?_, ?_,
      fun x there => ?_⟩, locked.exclusive, locked.woken, tasks ▸ locked.posted, ?_⟩
    · exact (kept x e (queued x there)).1.trans (locked.keys x there)
    · refine locked.order.imp_of_mem fun {a b} in_a in_b earlier => ?_
      rw [(kept a e (queued a in_a)).2, (kept b e (queued b in_b)).2]
      exact earlier
    · rw [(kept x e (queued x there)).2]
      exact Nat.lt_of_lt_of_le (locked.before x there) later
    · rw [active, doomed]
      exact locked.found
  · rw [tasks, same]
    exact entries.tasks_live
  · rw [active, same]
    exact entries.active
  · rw [same, next]
    exact entries.fresh

theorem Entries.setTrans {trans : Transaction}
    (kept : trans.key = (cache.trans t).key ∧ trans.arrived = (cache.trans t).arrived) :
    Entries (cache.setTrans t trans) roles := by
  refine entries.congr rfl rfl rfl rfl rfl (fun x e _ => ?_) (Nat.le_refl _)
  change (if x = t then trans else cache.trans x).key = _ ∧ (if x = t then trans else cache.trans x).arrived = _
  split
  · rename_i here
    exact here ▸ kept
  · exact ⟨rfl, rfl⟩

theorem Entries.note (note : Note) : Entries (cache.note note) roles :=
  entries.congr rfl rfl rfl rfl rfl (fun _ _ _ => ⟨rfl, rfl⟩) (Nat.le_refl _)

end

end Put

section Members

theorem roles_set_self (roles : Roles) (t : Trans) (role : Option (EntryId × Role)) :
    roles.set t role t = role := if_pos rfl

theorem roles_set_other (roles : Roles) {x : Trans} (role : Option (EntryId × Role)) (other : x ≠ t) :
    roles.set t role x = roles x := if_neg other

theorem roles_set_set (roles : Roles) (t : Trans) (role role' : Option (EntryId × Role)) :
    (roles.set t role).set t role' = roles.set t role' := by
  funext x
  rw [Roles.set, Roles.set, Roles.set]
  split <;> rfl

theorem roles_set_iff (roles : Roles) (t : Trans) (role : Option (EntryId × Role)) (x : Trans)
    (its : EntryId × Role) :
    roles.set t role x = some its ↔ if x = t then role = some its else roles x = some its := by
  rw [Roles.set]
  split <;> rfl

variable (members : Members cache roles e entry)
include members

theorem Members.change {role : Option (EntryId × Role)} (writer : ∀ x, entry'.writer = some x ↔
      if x = t then role = some (e, .writer) else entry.writer = some x)
    (readers : ∀ x, x ∈ entry'.readers ↔ if x = t then role = some (e, .reader) else x ∈ entry.readers)
    (queue : ∀ x, x ∈ entry'.pendingQueue ↔
      if x = t then role = some (e, .queued) else x ∈ entry.pendingQueue)
    (distinct : entry'.readers.Nodup) (keys : ∀ x ∈ entry'.pendingQueue, (cache.trans x).key = entry'.key)
    (order : entry'.pendingQueue.Pairwise fun a b => (cache.trans a).arrived < (cache.trans b).arrived)
    (before : ∀ x ∈ entry'.pendingQueue, (cache.trans x).arrived < cache.arrivals) :
    Members cache (roles.set t role) e entry' := by
  refine ⟨fun x => ?_, fun x => ?_, fun x => ?_, distinct, keys, order, before⟩
  · rw [writer, roles_set_iff, members.writer]
  · rw [readers, roles_set_iff, members.readers]
  · rw [queue, roles_set_iff, members.queue]

theorem Members.dropWriter (written : entry.writer = some t) :
    Members cache (roles.set t none) e { entry with writer := none } := by
  have role := (members.writer t).mp written
  have not_reader : t ∉ entry.readers := by simp [members.readers, role]
  have not_queued : t ∉ entry.pendingQueue := by simp [members.queue, role]
  refine members.change (fun x => ?_) (fun x => ?_) (fun x => ?_) members.distinct members.keys
    members.order members.before
  · rw [written]
    grind
  · grind
  · grind

theorem Members.dropReader (reading : t ∈ entry.readers) :
    Members cache (roles.set t none) e { entry with readers := entry.readers.erase t } := by
  have role := (members.readers t).mp reading
  have not_writer : entry.writer ≠ some t := by simp [members.writer, role]
  have not_queued : t ∉ entry.pendingQueue := by simp [members.queue, role]
  refine members.change (fun x => ?_) (fun x => ?_) (fun x => ?_) (members.distinct.erase t)
    members.keys members.order members.before
  · grind
  · change x ∈ entry.readers.erase t ↔ _
    rw [members.distinct.mem_erase_iff]
    grind
  · grind

theorem Members.queue_nodup : entry.pendingQueue.Nodup :=
  members.order.imp fun {a b} earlier same => by
    rw [same] at earlier
    exact Nat.lt_irrefl _ earlier

theorem Members.dropQueued (queued : t ∈ entry.pendingQueue) :
    Members cache (roles.set t none) e { entry with pendingQueue := entry.pendingQueue.erase t } := by
  have role := (members.queue t).mp queued
  have not_writer : entry.writer ≠ some t := by simp [members.writer, role]
  have not_reader : t ∉ entry.readers := by simp [members.readers, role]
  have fewer : entry.pendingQueue.erase t ⊆ entry.pendingQueue := erase_subset ..
  refine members.change (fun x => ?_) (fun x => ?_) (fun x => ?_) members.distinct
    (fun x there => members.keys x (fewer there)) (members.order.sublist (erase_sublist ..))
    (fun x there => members.before x (fewer there))
  · grind
  · grind
  · change x ∈ entry.pendingQueue.erase t ↔ _
    rw [members.queue_nodup.mem_erase_iff]
    grind

section Add

variable (out : ∀ role, roles t ≠ some (e, role))
include out

theorem Members.addWriter (unwritten : entry.writer = none) :
    Members cache (roles.set t (some (e, .writer))) e { entry with writer := some t } := by
  have not_reader : t ∉ entry.readers := mt (members.readers t).mp (out _)
  have not_queued : t ∉ entry.pendingQueue := mt (members.queue t).mp (out _)
  refine members.change (fun x => ?_) (fun x => ?_) (fun x => ?_) members.distinct members.keys
    members.order members.before
  · rw [unwritten]
    grind
  · grind
  · grind

theorem Members.addReader : Members cache (roles.set t (some (e, .reader))) e
      { entry with readers := entry.readers ++ [t] } := by
  have not_writer : entry.writer ≠ some t := mt (members.writer t).mp (out _)
  have not_reader : t ∉ entry.readers := mt (members.readers t).mp (out _)
  have not_queued : t ∉ entry.pendingQueue := mt (members.queue t).mp (out _)
  have distinct : (entry.readers ++ [t]).Nodup := by
    refine nodup_append.mpr ⟨members.distinct, nodup_singleton t, fun a there b same => ?_⟩
    rw [mem_singleton] at same
    rintro rfl
    exact not_reader (same ▸ there)
  refine members.change (fun x => ?_) (fun x => ?_) (fun x => ?_) distinct members.keys
    members.order members.before
  · grind
  · change x ∈ entry.readers ++ [t] ↔ _
    rw [mem_append, mem_singleton]
    grind
  · grind

theorem Members.addQueued (key : (cache.trans t).key = entry.key)
    (last : ∀ x ∈ entry.pendingQueue, (cache.trans x).arrived < (cache.trans t).arrived)
    (before : (cache.trans t).arrived < cache.arrivals) : Members cache (roles.set t (some (e, .queued))) e
      { entry with pendingQueue := entry.pendingQueue ++ [t] } := by
  have not_writer : entry.writer ≠ some t := mt (members.writer t).mp (out _)
  have not_reader : t ∉ entry.readers := mt (members.readers t).mp (out _)
  have not_queued : t ∉ entry.pendingQueue := mt (members.queue t).mp (out _)
  refine members.change (fun x => ?_) (fun x => ?_) (fun x => ?_) members.distinct (fun x there => ?_)
    ?_ (fun x there => ?_)
  · grind
  · grind
  · change x ∈ entry.pendingQueue ++ [t] ↔ _
    rw [mem_append, mem_singleton]
    grind
  · rcases mem_append.mp there with old | new
    · exact members.keys x old
    · exact mem_singleton.mp new ▸ key
  · refine pairwise_append.mpr ⟨members.order, pairwise_singleton _ t, fun a there b same => ?_⟩
    rw [mem_singleton.mp same]
    exact last a there
  · rcases mem_append.mp there with old | new
    · exact members.before x old
    · exact mem_singleton.mp new ▸ before

end Add

end Members

end Glopen.Http

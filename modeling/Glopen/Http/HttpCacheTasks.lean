import Glopen.Http.HttpCacheAccess

/-! The posted tasks of http_cache.cc, and how entries begin and end. -/
namespace Glopen.Http

open List Option

def Roles.without (e : EntryId) (roles : Roles) : Roles :=
  fun x => (roles x).filter fun role => role.1 ≠ e

theorem without_iff (roles : Roles) (e : EntryId) (x : Trans) (y : EntryId) (r : Role) :
    roles.without e x = some (y, r) ↔ roles x = some (y, r) ∧ y ≠ e := by
  rw [Roles.without, filter_eq_some_iff]
  simp

section Destroy

variable (e : EntryId) (entry : ActiveEntry) (cache : HttpCache)

theorem destroyEntry_doomedEntries : (cache.destroyEntry e entry).doomedEntries =
    if entry.doomed then cache.doomedEntries.erase e else cache.doomedEntries := by
  rw [HttpCache.destroyEntry]
  simp only
  split <;> rfl

theorem destroyEntry_activeEntries (k : String) : (cache.destroyEntry e entry).activeEntries k =
    if entry.doomed then cache.activeEntries k
    else if k = entry.key then none else cache.activeEntries k := by
  rw [HttpCache.destroyEntry]
  simp only
  split <;> rfl

theorem destroyEntry_fields : (cache.destroyEntry e entry).tasks = cache.tasks ∧
    (cache.destroyEntry e entry).trans = cache.trans ∧ (cache.destroyEntry e entry).arrivals = cache.arrivals ∧
    (cache.destroyEntry e entry).nextEntry = cache.nextEntry ∧
    (∀ x, (cache.destroyEntry e entry).entries x = if x = e then none else cache.entries x) ∧
    (cache.destroyEntry e entry).notes = cache.notes ++ [.deleted entry (decide (e ∈ cache.tasks))] := by
  rw [HttpCache.destroyEntry]
  simp only
  split <;> exact ⟨rfl, rfl, rfl, rfl, fun _ => rfl, rfl⟩

end Destroy

variable {fair : Prop} {cache : HttpCache} {roles : Roles} {e : EntryId} {entry : ActiveEntry}

section Ends

variable {t : Trans}
variable {entry' : ActiveEntry} (entries : Entries cache roles) (its : cache.entries e = some entry)
include entries its

theorem Entries.destroyed (unposted : e ∉ cache.tasks)
    (same : entry'.key = entry.key ∧ entry'.doomed = entry.doomed) :
    Entries (cache.destroyEntry e entry') (roles.without e) := by
  have locked := entries.each e entry its
  have found := locked.found
  obtain ⟨tasks, trans, arrivals, next, gone, -⟩ := destroyEntry_fields e entry' cache
  have elsewhere : Elsewhere cache (cache.destroyEntry e entry') roles (roles.without e) e := by
    refine ⟨fun x y r other => ?_, fun _ _ _ _ => by rw [trans]; exact ⟨rfl, rfl⟩,
      Nat.le_of_eq arrivals.symm, fun x _ => by rw [tasks]⟩
    rw [without_iff]
    exact ⟨And.left, fun its => ⟨its, other⟩⟩
  have kept : ∀ x entry'', x ≠ e → cache.entries x = some entry'' → if entry''.doomed then
      x ∈ (cache.destroyEntry e entry').doomedEntries
      else (cache.destroyEntry e entry').activeEntries entry''.key = some x := by
    intro x entry'' other its''
    have found'' := (entries.each x entry'' its'').found
    rw [destroyEntry_doomedEntries, destroyEntry_activeEntries, same.2, same.1]
    by_cases doomed : entry.doomed = true
    · rw [if_pos doomed, if_pos doomed]
      split
      · rename_i doomed''
        rw [if_pos doomed''] at found''
        exact (mem_erase_of_ne other).mpr found''
      · rename_i active''
        rw [if_neg active''] at found''
        exact found''
    · rw [if_neg doomed] at found
      rw [if_neg doomed, if_neg doomed]
      split
      · rename_i doomed''
        rw [if_pos doomed''] at found''
        exact found''
      · rename_i active''
        rw [if_neg active''] at found''
        have other_key : entry''.key ≠ entry.key := by
          intro same_key
          rw [same_key, found] at found''
          exact other (some.inj found'').symm
        rw [if_neg other_key]
        exact found''
  constructor
  · intro x entry'' its''
    rw [gone] at its''
    split at its''
    · cases its''
    · rename_i other
      exact (entries.each x entry'' its'').elsewhere other elsewhere (kept x entry'' other its'')
  · intro x y r role
    rw [without_iff] at role
    rw [gone, if_neg role.2]
    exact entries.live x y r role.1
  · exact tasks ▸ entries.tasks
  · intro x there
    rw [tasks] at there
    have other : x ≠ e := fun here => unposted (here ▸ there)
    rw [gone, if_neg other]
    exact entries.tasks_live x there
  · intro k x active_k
    have before : cache.activeEntries k = some x ∧ x ≠ e := by
      rw [destroyEntry_activeEntries, same.2, same.1] at active_k
      by_cases doomed : entry.doomed = true
      · rw [if_pos doomed] at active_k
        refine ⟨active_k, fun here => ?_⟩
        obtain ⟨entry'', its'', not_doomed, -⟩ := entries.active k x active_k
        rw [here, its] at its''
        cases its''
        rw [doomed] at not_doomed
        cases not_doomed
      · rw [if_neg doomed] at active_k
        split at active_k
        · cases active_k
        · rename_i not_key
          refine ⟨active_k, fun here => ?_⟩
          obtain ⟨entry'', its'', -, key⟩ := entries.active k x active_k
          rw [here, its] at its''
          cases its''
          exact not_key key.symm
    obtain ⟨entry'', its'', rest⟩ := entries.active k x before.1
    exact ⟨entry'', by rw [gone, if_neg before.2]; exact its'', rest⟩
  · intro x live
    rw [next]
    rw [gone] at live
    split at live
    · exact absurd rfl live
    · exact entries.fresh x live

theorem Entries.cleared {roles' : Roles}
    (others : ∀ t x role, x ≠ e → (roles' t = some (x, role) ↔ roles t = some (x, role)))
    (same : entry'.key = entry.key ∧ entry'.doomed = entry.doomed)
    (members : Members cache roles' e entry') (will : entry'.willProcessPendingQueue = false)
    (exclusive : entry'.writer ≠ none → entry'.readers = [])
    (woken : entry'.pendingQueue ≠ [] → entry'.writer ≠ none ∨ entry'.readers ≠ []) :
    Entries (HttpCache.setEntry e entry' { cache with tasks := cache.tasks.erase e }) roles' := by
  have locked := entries.each e entry its
  have found : if entry'.doomed then e ∈ cache.doomedEntries
      else cache.activeEntries entry'.key = some e := by
    rw [same.1, same.2]
    exact locked.found
  refine entries.put its (fun _ => rfl) ⟨others, fun _ _ _ _ => ⟨rfl, rfl⟩, Nat.le_refl _,
    fun x other => mem_erase_of_ne other⟩ (entries.tasks.erase e) rfl rfl rfl same
    ⟨⟨members.writer, members.readers, members.queue, members.distinct, members.keys, members.order,
      members.before⟩, fun written => ⟨exclusive written, will⟩, fun queue => (woken queue).imp id .inl,
      ⟨fun posted => ?_, fun there => absurd there entries.tasks.not_mem_erase⟩, found⟩
  rw [will] at posted
  cases posted

theorem Entries.removed (queued : t ∈ entry.pendingQueue) :
    Entries (cache.setEntry e { entry with pendingQueue := entry.pendingQueue.erase t }) (roles.set t none) := by
  have locked := entries.each e entry its
  have role := (locked.queue t).mp queued
  refine entries.setEntry its (roles_elsewhere (fun x r other same => ?_) fun x r _ same => ?_)
    ⟨rfl, rfl⟩ ⟨locked.toMembers.dropQueued queued, locked.exclusive, fun _ => ?_, locked.posted, locked.found⟩
  · rw [role] at same
    cases same
    exact other rfl
  · cases same
  · exact locked.woken (ne_nil_of_mem queued)

theorem Entries.doomed {onDisk : String → Bool} (active : cache.activeEntries entry.key = some e) :
    Entries { cache.setEntry e { entry with doomed := true } with
      onDisk
      activeEntries := fun k => if k = entry.key then none else cache.activeEntries k
      doomedEntries := cache.doomedEntries ++ [e] } roles := by
  have locked := entries.each e entry its
  refine ⟨fun x entry'' its'' => ?_, fun t x r role => ?_, entries.tasks, fun x there => ?_,
    fun k x active_k => ?_, fun x live => ?_⟩
  · change (if x = e then _ else cache.entries x) = some entry'' at its''
    split at its''
    · rename_i here
      subst here
      cases its''
      exact ⟨⟨locked.writer, locked.readers, locked.queue, locked.distinct, locked.keys, locked.order,
        locked.before⟩, locked.exclusive, locked.woken, locked.posted,
        mem_append_right _ (mem_singleton_self x)⟩
    · rename_i other
      have before := entries.each x entry'' its''
      have found := before.found
      refine before.elsewhere other ⟨fun _ _ _ _ => Iff.rfl, fun _ _ _ _ => ⟨rfl, rfl⟩, Nat.le_refl _,
        fun _ _ => Iff.rfl⟩ ?_
      split
      · rename_i doomed
        rw [if_pos doomed] at found
        exact mem_append_left _ found
      · rename_i not_doomed
        rw [if_neg not_doomed] at found
        have other_key : entry''.key ≠ entry.key := by
          intro same_key
          rw [same_key, active] at found
          exact other (some.inj found).symm
        exact (if_neg other_key).trans found
  · change (if x = e then _ else cache.entries x) ≠ none
    split
    · exact some_ne_none _
    · exact entries.live t x r role
  · change (if x = e then _ else cache.entries x) ≠ none
    split
    · exact some_ne_none _
    · exact entries.tasks_live x there
  · change (if k = entry.key then none else cache.activeEntries k) = some x at active_k
    split at active_k
    · cases active_k
    · rename_i other_key
      obtain ⟨entry'', its'', not_doomed, key⟩ := entries.active k x active_k
      refine ⟨entry'', (if_neg fun here => ?_).trans its'', not_doomed, key⟩
      rw [here, its] at its''
      cases its''
      exact other_key key.symm
  · change (if x = e then _ else cache.entries x) ≠ none at live
    split at live
    · rename_i here
      exact entries.fresh x (here ▸ its ▸ some_ne_none _)
    · exact entries.fresh x live

omit its in
theorem Entries.activated {key : String} (free : cache.activeEntries key = none) :
    Entries (cache.activateEntry key) roles := by
  have absent : cache.entries cache.nextEntry = none := by
    by_contra live
    exact Nat.lt_irrefl _ (entries.fresh _ live)
  have nobody : ∀ t r, roles t ≠ some (cache.nextEntry, r) := fun t r role =>
    entries.live t _ r role absent
  have unposted : cache.nextEntry ∉ cache.tasks := fun there => entries.tasks_live _ there absent
  have gone : ∀ x, x ≠ cache.nextEntry →
      (cache.activateEntry key).entries x = cache.entries x := fun x other => if_neg other
  have kept : ∀ x, cache.entries x ≠ none → (cache.activateEntry key).entries x ≠ none := by
    intro x live
    rw [gone x fun here => live (here ▸ absent)]
    exact live
  refine ⟨fun x entry' its' => ?_, fun t x r role => kept x (entries.live t x r role), entries.tasks,
    fun x there => kept x (entries.tasks_live x there), fun k x active_k => ?_, fun x live => ?_⟩
  · by_cases here : x = cache.nextEntry
    · have new : (cache.activateEntry key).entries x = some ⟨key, none, [], [], false, false⟩ :=
        if_pos here
      rw [new] at its'
      cases its'
      subst here
      exact ⟨⟨fun t => ⟨fun none => (by cases none), fun role => absurd role (nobody t _)⟩,
        fun t => ⟨fun none => (by cases none), fun role => absurd role (nobody t _)⟩,
        fun t => ⟨fun none => (by cases none), fun role => absurd role (nobody t _)⟩,
        nodup_nil, fun _ none => (by cases none), List.Pairwise.nil, fun _ none => by cases none⟩,
        fun written => absurd rfl written, fun queue => absurd rfl queue,
        ⟨fun will => (by cases will), fun there => absurd there unposted⟩, if_pos rfl⟩
    · rw [gone x here] at its'
      have before := entries.each x entry' its'
      have found := before.found
      refine before.elsewhere here ⟨fun _ _ _ _ => Iff.rfl,
        fun _ _ _ _ => ⟨rfl, rfl⟩, Nat.le_refl _, fun _ _ => Iff.rfl⟩ ?_
      split
      · rename_i doomed
        rw [if_pos doomed] at found
        exact found
      · rename_i not_doomed
        rw [if_neg not_doomed] at found
        have other_key : entry'.key ≠ key := by
          intro same_key
          rw [same_key, free] at found
          cases found
        exact (if_neg other_key).trans found
  · change (if k = key then some cache.nextEntry else cache.activeEntries k) = some x at active_k
    split at active_k
    · rename_i same_key
      cases active_k
      exact ⟨_, if_pos rfl, rfl, same_key.symm⟩
    · obtain ⟨entry', its', rest⟩ := entries.active k x active_k
      exact ⟨entry', (gone x fun here => by rw [here, absent] at its'; cases its').trans its', rest⟩
  · by_cases here : x = cache.nextEntry
    · exact here ▸ Nat.lt_succ_self _
    · rw [gone x here] at live
      exact Nat.lt_succ_of_lt (entries.fresh x live)

end Ends

section Process

theorem setEntry_setEntry (e : EntryId) (entry entry' : ActiveEntry) (cache : HttpCache) :
    HttpCache.setEntry e entry' (cache.setEntry e entry) = cache.setEntry e entry' := by
  simp only [HttpCache.setEntry, HttpCache.mk.injEq, true_and, and_true]
  funext x
  split <;> rfl

theorem processPendingQueue_setEntry (e : EntryId) (entry entry' : ActiveEntry) (cache : HttpCache) :
    HttpCache.processPendingQueue e entry' (cache.setEntry e entry) = cache.processPendingQueue e entry' := by
  rw [HttpCache.processPendingQueue, HttpCache.processPendingQueue, setEntry_setEntry, setEntry_setEntry]
  rfl

theorem touches_destroy (t : Trans) {e : EntryId} {entry : ActiveEntry} {cache : HttpCache}
    (good : (Note.deleted entry (decide (e ∈ cache.tasks))).Good fair) :
    Touches fair t cache (cache.destroyEntry e entry) := by
  have notes : ∀ note ∈ cache.notes ++ [Note.deleted entry (decide (e ∈ cache.tasks))],
      note ∈ cache.notes ∨ note.Good fair := by
    intro note there
    rcases mem_append.mp there with old | new
    · exact .inl old
    · rw [mem_singleton.mp new]
      exact .inr good
  have shrinks : ∀ k x, (if k = entry.key then none else cache.activeEntries k) = some x →
      cache.activeEntries k = some x := by
    intro k x its
    split at its
    · cases its
    · exact its
  rw [HttpCache.destroyEntry]
  simp only
  split
  · exact ⟨rfl, rfl, rfl, rfl, fun _ _ its => ⟨its, id⟩, fun _ _ => rfl, notes⟩
  · exact ⟨rfl, rfl, rfl, rfl, fun k x its => ⟨shrinks k x its, id⟩, fun _ _ => rfl, notes⟩

/-- What `OnProcessPendingQueue` does: nobody is promoted, or the first in the queue. -/
def Promotes (fair : Prop) (cache cache' : HttpCache) (roles roles' : Roles) (e : EntryId) : Prop :=
  (roles' = roles ∧ cache'.trans = cache.trans ∧ ∀ t, Touches fair t cache cache') ∨
    ∃ next role, roles next = some (e, .queued) ∧ roles' = roles.set next (some (e, role)) ∧
      Knows (cache'.trans next) e role ∧
      (cache'.trans next).key = (cache.trans next).key ∧
      (cache'.trans next).destroyed = (cache.trans next).destroyed ∧ Touches fair next cache cache'

variable (entries : Entries cache roles) (its : cache.entries e = some entry) (posted : e ∈ cache.tasks)
include entries its posted

theorem Entries.unwritten : entry.writer = none := by
  have locked := entries.each e entry its
  by_contra written
  have will := locked.posted.mpr posted
  rw [(locked.exclusive written).2] at will
  cases will

theorem Entries.promoted {next : Trans} {rest : List Trans} (queue : entry.pendingQueue = next :: rest)
    (may : ¬ ((cache.trans next).writes = true ∧ entry.readers ≠ [])) :
    let entry' : ActiveEntry := { entry with willProcessPendingQueue := false, pendingQueue := rest }
    let cleared := HttpCache.setEntry e { entry with willProcessPendingQueue := false }
      { cache with tasks := cache.tasks.erase e }
    ∃ role, Entries (cleared.addTransactionToEntry next e entry').1 (roles.set next (some (e, role))) ∧
      (cleared.addTransactionToEntry next e entry').2 = true ∧ role ≠ .queued ∧
      (role = .writer ↔ (cache.trans next).writes = true) := by
  intro entry' cleared
  have locked := entries.each e entry its
  have unwritten := entries.unwritten its posted
  have first : next ∈ entry.pendingQueue := by
    rw [queue]
    exact mem_cons_self ..
  have role_next := (locked.queue next).mp first
  have dropped := locked.toMembers.dropQueued first
  rw [queue, erase_cons_head] at dropped
  have dropped : Members cache (roles.set next none) e entry' :=
    ⟨dropped.writer, dropped.readers, dropped.queue, dropped.distinct, dropped.keys, dropped.order,
      dropped.before⟩
  have out : ∀ role, roles.set next none next ≠ some (e, role) := by
    intro role
    rw [roles_set_self]
    exact fun same => by cases same
  have others : ∀ role, ∀ y x r, x ≠ e →
      (roles.set next (some (e, role)) y = some (x, r) ↔ roles y = some (x, r)) := fun role =>
    roles_elsewhere (fun x r other same => by
      rw [role_next] at same
      cases same
      exact other rfl) fun x r other same => by
        cases same
        exact other rfl
  rw [HttpCache.addTransactionToEntry]
  rw [if_neg (by simp [entry', unwritten])]
  split
  · rename_i writes
    have no_readers : entry.readers = [] := by
      by_contra has_readers
      exact may ⟨writes, has_readers⟩
    have writer := dropped.addWriter out unwritten
    rw [roles_set_set] at writer
    rw [if_pos no_readers]
    refine ⟨.writer, ?_, rfl, by decide, fun _ => writes, fun _ => rfl⟩
    rw [setEntry_setEntry]
    exact entries.cleared its (others _) ⟨rfl, rfl⟩ writer rfl (fun _ => no_readers)
      fun _ => .inl (some_ne_none next)
  · rename_i reads
    let read_entry : ActiveEntry := { entry' with readers := entry.readers ++ [next] }
    have reader : Members cache (roles.set next (some (e, .reader))) e read_entry := by
      have added := dropped.addReader out
      rw [roles_set_set] at added
      exact added
    have has_reader : read_entry.readers ≠ [] := append_ne_nil_of_right_ne_nil _ (by simp)
    have read : Entries (HttpCache.setEntry e read_entry { cache with tasks := cache.tasks.erase e })
        (roles.set next (some (e, .reader))) := entries.cleared its (others _) ⟨rfl, rfl⟩ reader rfl
      (fun written => absurd unwritten written) fun _ => .inr has_reader
    have its_role : Role.reader = .writer ↔ (cache.trans next).writes = true :=
      ⟨fun same => (by cases same), fun writes => absurd writes reads⟩
    simp only
    split
    · refine ⟨.reader, ?_, rfl, by decide, its_role⟩
      rw [processPendingQueue_setEntry, ← processPendingQueue_setEntry e read_entry]
      exact read.process (if_pos rfl) (fun _ _ _ _ => Iff.rfl) ⟨rfl, rfl, rfl⟩
        ⟨reader.writer, reader.readers, reader.queue, reader.distinct, reader.keys, reader.order,
          reader.before⟩ unwritten
    · refine ⟨.reader, ?_, rfl, by decide, its_role⟩
      rw [setEntry_setEntry]
      exact read

theorem Entries.nobody (no_readers : entry.readers = []) (no_queue : entry.pendingQueue = []) :
    roles.without e = roles := by
  have locked := entries.each e entry its
  have unwritten := entries.unwritten its posted
  funext t
  cases role : roles t with
  | none => rw [Roles.without, role, filter_none]
  | some its_role =>
    obtain ⟨x, r⟩ := its_role
    refine (without_iff roles e t x r).mpr ⟨role, fun here => ?_⟩
    subst here
    cases r with
    | writer =>
      have writer := (locked.writer t).mpr role
      rw [unwritten] at writer
      cases writer
    | reader =>
      have reader := (locked.readers t).mpr role
      rw [no_readers] at reader
      cases reader
    | queued =>
      have queued := (locked.queue t).mpr role
      rw [no_queue] at queued
      cases queued

theorem Entries.kept (woken : entry.pendingQueue ≠ [] → entry.readers ≠ []) :
    let cleared := HttpCache.setEntry e { entry with willProcessPendingQueue := false }
      { cache with tasks := cache.tasks.erase e }
    Entries cleared roles ∧ ∀ t, Touches fair t cache cleared := by
  have locked := entries.each e entry its
  refine ⟨entries.cleared its (fun _ _ _ _ => Iff.rfl) ⟨rfl, rfl⟩ ⟨locked.writer, locked.readers,
    locked.queue, locked.distinct, locked.keys, locked.order, locked.before⟩ rfl
    (fun written => absurd (entries.unwritten its posted) written) fun queue => .inr (woken queue),
    fun t => ⟨rfl, rfl, rfl, rfl, fun _ _ its => ⟨its, id⟩, fun _ _ => rfl, fun _ => .inl⟩⟩

theorem Entries.processed (waits : ∀ t, roles t = some (e, .queued) → (cache.trans t).cachePending = true) :
    ∃ roles', Entries (cache.onProcessPendingQueue e) roles' ∧
      Promotes fair cache (cache.onProcessPendingQueue e) roles roles' e := by
  have locked := entries.each e entry its
  have unwritten := entries.unwritten its posted
  have kept := @Entries.kept fair _ _ _ _ entries its posted
  have promoted := @Entries.promoted _ _ _ _ entries its posted
  have nobody := entries.nobody its posted
  rw [HttpCache.onProcessPendingQueue, its]
  obtain ⟨key, writer', readers, queue, will, doomed⟩ := entry
  cases queue with
  | nil =>
    obtain ⟨kept, touched⟩ := kept fun queued => absurd rfl queued
    simp only
    split
    · rename_i no_readers
      have unposted : e ∉ cache.tasks.erase e := entries.tasks.not_mem_erase
      have destroyed := kept.destroyed (if_pos rfl) unposted ⟨rfl, rfl⟩
      rw [nobody no_readers rfl] at destroyed
      exact ⟨roles, destroyed, .inl ⟨rfl, (destroyEntry_fields ..).2.1, fun t =>
        (touched t).trans (touches_destroy t ⟨unwritten, no_readers, rfl, decide_eq_false unposted⟩)⟩⟩
    · exact ⟨roles, kept, .inl ⟨rfl, rfl, touched⟩⟩
  | cons next rest =>
    have role_next : roles next = some (e, .queued) :=
      (locked.queue next).mp (mem_cons_self ..)
    simp only
    split
    · rename_i must_wait
      simp only [Bool.and_eq_true, decide_eq_true_eq] at must_wait
      obtain ⟨kept, touched⟩ := kept fun _ => must_wait.2
      exact ⟨roles, kept, .inl ⟨rfl, rfl, touched⟩⟩
    · rename_i may
      simp only [Bool.and_eq_true, decide_eq_true_eq] at may
      obtain ⟨role, added, ok, not_queued, writer⟩ := promoted rfl may
      have cleared_touched : Touches fair next cache (HttpCache.setEntry e
          ⟨key, writer', readers, next :: rest, false, doomed⟩
          { cache with tasks := cache.tasks.erase e }) :=
        ⟨rfl, rfl, rfl, rfl, fun _ _ its => ⟨its, id⟩, fun _ _ => rfl, fun _ => .inl⟩
      obtain ⟨touched, same_trans⟩ := touches_add fair next e ⟨key, writer', readers, rest, false, doomed⟩
        (HttpCache.setEntry e ⟨key, writer', readers, next :: rest, false, doomed⟩
          { cache with tasks := cache.tasks.erase e })
      generalize HttpCache.addTransactionToEntry next e _ _ = result at added ok touched same_trans ⊢
      have its_trans : result.1.trans = cache.trans := same_trans
      have first : fair → (result.1.note (.notified next (result.1.trans next).cachePending)).earlier
          next ⟨key, writer', readers, rest, false, doomed⟩ = [] := fun _ =>
        filter_eq_nil_iff.mpr fun x there => by
          change ¬ decide ((result.1.trans x).arrived < (result.1.trans next).arrived) = true
          rw [its_trans, decide_eq_true_eq, Nat.not_lt]
          exact Nat.le_of_lt ((pairwise_cons.mp locked.order).1 x there)
      have good : (Note.notified next (result.1.trans next).cachePending).Good fair := by
        change (result.1.trans next).cachePending = true
        rw [its_trans]
        exact waits next role_next
      rw [if_pos ok]
      refine ⟨roles.set next (some (e, role)), (added.note _).access next e _, .inr ⟨next, role,
        role_next, rfl, ?_, ?_, ?_, (cleared_touched.trans touched).trans
          ((touches_note next good _).trans (touches_access first e))⟩⟩
      · change Knows ((HttpCache.setTrans next _ _).trans next) e role
        rw [setTrans_self]
        change Knows { result.1.trans next with cachePending := false, entry := some e } e role
        rw [its_trans]
        cases role with
        | writer => exact ⟨rfl, rfl, writer.mp rfl⟩
        | reader => exact ⟨rfl, rfl, Bool.eq_false_iff.mpr fun writes => by cases writer.mpr writes⟩
        | queued => exact absurd rfl not_queued
      · change ((HttpCache.setTrans next _ _).trans next).key = _
        rw [setTrans_self]
        exact congrArg (fun trans => (trans next).key) its_trans
      · change ((HttpCache.setTrans next _ _).trans next).destroyed = _
        rw [setTrans_self]
        exact congrArg (fun trans => (trans next).destroyed) its_trans

end Process

end Glopen.Http

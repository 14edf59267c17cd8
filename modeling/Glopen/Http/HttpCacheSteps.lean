import Glopen.Http.HttpCacheItems

/-! The events of http_cache.cc that begin a request, and the steps of the code that notifies. -/
namespace Glopen.Http

open List
variable {fair : Prop} {cache : HttpCache} {roles : Roles} {waits : Waits} {t : Trans} {e : EntryId}
  {key : String} {item : WorkItem} {result : Bool}

section Requests

variable {entry : ActiveEntry} (sound : Sound fair none cache roles waits)
include sound

theorem Sound.added (idle : (cache.trans t).Idle) (its : cache.entries e = some entry)
    (key : entry.key = (cache.trans t).key) (orderly : fair → ¬ cache.Overtakes t e) :
    ∃ roles', Sound fair none (cache.doAddToEntry t e) roles' waits := by
  obtain ⟨no_role, no_wait⟩ := (sound.fit t).idle idle
  obtain ⟨role, added, knows, -, destroyed, touches⟩ :=
    sound.entries.doAdd its no_role key.symm idle.2.1 orderly
  refine ⟨_, sound.touched touches added ?_ no_wait fun _ none => by cases none⟩
  rw [no_wait]
  exact fits_role knows (destroyed.trans idle.2.2)

omit sound in
theorem onIOComplete_now (first : item.trans = none) (absent : cache.pendingOps key = none) (result : Bool) :
    cache.onIOComplete result key ⟨item, []⟩ = ((cache.completeOperation result key ⟨item, []⟩).1,
        (cache.completeOperation result key ⟨item, []⟩).2.1) := by
  have same_ops : (cache.completeOperation result key ⟨item, []⟩).1.pendingOps = cache.pendingOps := by
    rw [HttpCache.completeOperation]
    repeat' split
    all_goals rfl
  rw [HttpCache.onIOComplete]
  simp only [first, HttpCache.notifyTransaction, HttpCache.push, Frame.isDone, decide_true, if_true,
    Prod.mk.injEq, and_true]
  generalize (cache.completeOperation result key ⟨item, []⟩).1 = after at same_ops
  simp only [HttpCache.setOp]
  have same : (fun k => if k = key then none else after.pendingOps k) = after.pendingOps := by
    funext k
    split
    · rename_i here
      rw [same_ops, here, absent]
    · rfl
  rw [same]

theorem Sound.requested_now (item : WorkItem) (first : item.trans = none) (absent : cache.pendingOps key = none)
    (free : item.operation ≠ .createEntry → cache.activeEntries key = none)
    (contract : result = true → item.operation = .createEntry → cache.onDisk key = false) :
    Sound fair none (cache.onIOComplete result key ⟨item, []⟩).1 roles waits ∧
      (cache.onIOComplete result key ⟨item, []⟩).1.trans = cache.trans ∧
      ∀ e, (cache.onIOComplete result key ⟨item, []⟩).2 = some e →
        (cache.onIOComplete result key ⟨item, []⟩).1.entries e = some ⟨key, none, [], [], false, false⟩ := by
  have completed := sound.completed ⟨item, []⟩ result absent free contract
  rw [onIOComplete_now first absent]
  exact completed

theorem Sound.requested (operation : WorkItemOperation) (key : String) (t : Option Trans)
    (rv : Option Bool) (idle : ∀ x, t = some x → (cache.trans x).Idle ∧ (cache.trans x).key = key)
    (free : operation ≠ .createEntry → cache.activeEntries key = none)
    (contract : rv = some true → operation = .createEntry → cache.onDisk key = false) :
    ∃ waits', Sound fair none (cache.request operation key t rv).1 roles waits' ∧
      ∀ e, (cache.request operation key t rv).2 = some e →
        (cache.request operation key t rv).1.trans = cache.trans ∧
        (cache.request operation key t rv).1.entries e = some ⟨key, none, [], [], false, false⟩ := by
  have enqueue : ∀ op : PendingOp, op.trans = cache.waiting (.op key) ++ t.toList →
      (op.writer.operation ≠ .createEntry → cache.activeEntries key = none) →
      ∃ waits', Sound fair none ((t.elim cache cache.wait).setOp key (some op)) roles waits' := by
    intro op list free_op
    cases t with
    | none => exact ⟨waits, sound.enqueued_none (by simpa using list) free_op⟩
    | some x =>
      obtain ⟨its_idle, its_key⟩ := idle x rfl
      exact ⟨_, sound.enqueued its_idle its_key list free_op⟩
  rw [HttpCache.request.eq_def]
  cases its : cache.pendingOps key with
  | some op =>
    simp only
    obtain ⟨waits', sound'⟩ := enqueue { op with pendingQueue := op.pendingQueue ++
      [⟨operation, t, decide (operation ≠ .doomEntry), false⟩] }
      (by rw [trans_append, HttpCache.waiting, its]; rfl) (sound.ops key op its)
    exact ⟨waits', sound', fun e none => by cases none⟩
  | none =>
    have empty : cache.waiting (.op key) = [] := by
      rw [HttpCache.waiting, its]
      rfl
    cases rv with
    | none =>
      simp only
      obtain ⟨waits', sound'⟩ := enqueue ⟨⟨operation, t, decide (operation ≠ .doomEntry), false⟩, []⟩
        (by rw [empty, PendingOp.trans]; cases t <;> rfl) free
      exact ⟨waits', sound', fun e none => by cases none⟩
    | some result =>
      simp only
      obtain ⟨sound', same, found⟩ := sound.requested_now
        ⟨operation, none, decide (operation ≠ .doomEntry), false⟩ rfl its free
        (fun ok : result = true => contract (by rw [ok]))
      exact ⟨waits, sound', fun e its_e => ⟨same, found e its_e⟩⟩

theorem Sound.openEntry (idle : (cache.trans t).Idle) (rv : Option Bool)
    (orderly : fair → ∀ e, cache.activeEntries (cache.trans t).key = some e → ¬ cache.Overtakes t e) :
    ∃ roles' waits', Sound fair none (cache.openEntry t rv) roles' waits' := by
  rw [HttpCache.openEntry]
  cases active : cache.activeEntries (cache.trans t).key with
  | some e =>
    obtain ⟨entry, its, -, key⟩ := sound.entries.active _ e active
    obtain ⟨roles', sound'⟩ := sound.added idle its key fun asked => orderly asked e active
    exact ⟨roles', waits, sound'⟩
  | none =>
    obtain ⟨waits', sound', found⟩ := sound.requested .openEntry _ (some t) rv
      (fun x same => by cases same; exact ⟨idle, rfl⟩) (fun _ => active) fun _ same => by cases same
    simp only
    generalize cache.request .openEntry (cache.trans t).key (some t) rv = asked at sound' found ⊢
    cases its_e : asked.2 with
    | none => exact ⟨roles, waits', sound'⟩
    | some e =>
      obtain ⟨same, new⟩ := found e its_e
      obtain ⟨roles', added⟩ := sound'.added (t := t) (by rw [same]; exact idle) new (by rw [same]) fun _ =>
        new_orderly new t
      exact ⟨roles', waits', added⟩

theorem Sound.createEntry (idle : (cache.trans t).Idle) {rv : Option Bool}
    (contract : rv = some true → cache.onDisk (cache.trans t).key = false) :
    ∃ roles' waits', Sound fair none (cache.createEntry t rv) roles' waits' := by
  rw [HttpCache.createEntry]
  obtain ⟨waits', sound', found⟩ := sound.requested .createEntry _ (some t) rv
    (fun x same => by cases same; exact ⟨idle, rfl⟩) (fun other => absurd rfl other)
    fun ok _ => contract ok
  simp only
  generalize cache.request .createEntry (cache.trans t).key (some t) rv = asked at sound' found ⊢
  cases its_e : asked.2 with
  | none => exact ⟨roles, waits', sound'⟩
  | some e =>
    obtain ⟨same, new⟩ := found e its_e
    obtain ⟨roles', added⟩ := sound'.added (t := t) (by rw [same]; exact idle) new (by rw [same]) fun _ =>
        new_orderly new t
    exact ⟨roles', waits', added⟩

theorem Sound.doomEntry {t : Option Trans} (rv : Option Bool)
    (idle : ∀ x, t = some x → (cache.trans x).Idle ∧ (cache.trans x).key = key) :
    ∃ waits', Sound fair none (cache.doomEntry key t rv) roles waits' := by
  rw [HttpCache.doomEntry]
  cases active : cache.activeEntries key with
  | none =>
    obtain ⟨waits', sound', -⟩ := sound.requested .doomEntry key t rv idle
      (fun _ => active) fun _ same => by cases same
    exact ⟨waits', sound'⟩
  | some e =>
    obtain ⟨entry, its, not_doomed, its_key⟩ := sound.entries.active key e active
    subst its_key
    simp only
    rw [its]
    simp only
    obtain ⟨onDisk, doomed, same⟩ := doomDisk_fields entry cache
    rw [doomed]
    refine ⟨waits, sound.same (sound.entries.doomed its active) (fun t => ?_) rfl⟩
    refine ⟨rfl, rfl, rfl, rfl, fun k x active_k => ?_, fun _ _ => rfl, fun _ => .inl⟩
    change (if k = entry.key then none else cache.activeEntries k) = some x at active_k
    split at active_k
    · cases active_k
    · rename_i other
      exact ⟨active_k, fun on_disk => (same k (.inr other)).trans on_disk⟩

end Requests

section Notices

variable {after : HttpCache} {frames : List Frame} (sound : Sound fair none cache roles waits)
include sound

theorem Sound.picked {w : Wait} (only : after = { cache with
      frames := after.frames, backendOp := after.backendOp, buildingBackend := after.buildingBackend,
      diskCache := after.diskCache, backendFactory := after.backendFactory,
      pendingOps := after.pendingOps })
    (building : after.Building) (keyed : ∀ frame ∈ after.frames, frame.Keyed cache)
    (ops : ∀ k op, after.pendingOps k = some op → op.writer.operation ≠ .createEntry →
      cache.activeEntries k = none)
    (its : waits t = some w) (now : after.waiting w = (cache.waiting w).erase t)
    (same : ∀ w', w' ≠ w → after.waiting w' = cache.waiting w') :
    Sound fair (some t) after roles (waits.set t none) := by
  have keyed : ∀ frame ∈ after.frames, frame.Keyed after := fun frame there =>
    (keyed frame there).congr fun _ _ => by rw [only]
  have entries : Entries after roles := by
    rw [only]
    exact sound.entries.congr rfl rfl rfl rfl rfl (fun _ _ _ => ⟨rfl, rfl⟩) (Nat.le_refl _)
  have waiting := sound.waiting.dropped building keyed its now same
  cases after
  cases only
  have fit := sound.fit t
  rw [its] at fit
  obtain ⟨no_role, pending, no_entry, alive⟩ := fit.waits
  refine ⟨entries, waiting, fun x other => ?_, fun x same => ?_, sound.disk, ops, sound.notes⟩
  · rw [Waits.set, if_neg fun here => other (by rw [here])]
    exact sound.fit x
  · cases same
    exact ⟨no_role, if_pos rfl, pending, no_entry, alive⟩

theorem Sound.taken (due : Option Trans) (w : Wait) (only : after = { cache with
      frames := after.frames, backendOp := after.backendOp, buildingBackend := after.buildingBackend,
      diskCache := after.diskCache, backendFactory := after.backendFactory })
    (building : after.Building) (keyed : ∀ frame ∈ after.frames, frame.Keyed cache)
    (now : cache.waiting w = due.toList ++ after.waiting w)
    (same : ∀ w', w' ≠ w → after.waiting w' = cache.waiting w') :
    ∃ waits', Sound fair due after roles waits' := by
  have same_ops : after.pendingOps = cache.pendingOps := by rw [only]
  cases due with
  | none =>
    have keyed : ∀ frame ∈ after.frames, frame.Keyed after := fun frame there =>
      (keyed frame there).congr fun _ _ => by rw [only]
    have waiting := sound.waiting.kept building keyed fun w' => by
      by_cases here : w' = w
      · rw [here, now]
        rfl
      · exact same w' here
    have entries : Entries after roles := by
      rw [only]
      exact sound.entries.congr rfl rfl rfl rfl rfl (fun _ _ _ => ⟨rfl, rfl⟩) (Nat.le_refl _)
    cases after
    cases only
    exact ⟨waits, entries, waiting, fun x _ => sound.fit x, fun _ none => (by cases none), sound.disk,
      sound.ops, sound.notes⟩
  | some t =>
    have its : waits t = some w := by
      rw [sound.waiting.member, now]
      exact mem_append_left _ (mem_singleton_self t)
    have erased : after.waiting w = (cache.waiting w).erase t := by
      rw [now]
      exact (erase_cons_head ..).symm
    refine ⟨_, sound.picked ?_ building keyed (same_ops ▸ sound.ops) its erased same⟩
    rw [same_ops]
    exact only

theorem Sound.next {frame : Frame} (frame' : Frame) (due : Option Trans) (its : cache.frames = frame :: frames)
    (keyed : frame'.Keyed cache) (list : frame.trans = due.toList ++ frame'.trans) :
    ∃ waits', Sound fair due (HttpCache.push frame' { cache with frames }) roles waits' := by
  obtain ⟨frames', pushed⟩ := push_eq frame' { cache with frames }
  have now := push_listed frame' { cache with frames }
  have among := fun other => @push_frames frame' { cache with frames } other
  rw [pushed] at now among ⊢
  refine sound.taken due .listed rfl sound.waiting.building (fun other there => ?_) ?_ fun w' other => ?_
  · rcases among other there with rfl | old
    · exact keyed
    · exact sound.waiting.keyed other (its ▸ mem_cons_of_mem _ old)
  · change cache.listed = _ ++ HttpCache.listed { cache with frames := frames' }
    rw [show HttpCache.listed { cache with frames := frames' } = _ from now, HttpCache.listed, its,
      flatMap_cons, list, append_assoc]
    rfl
  · cases w' with
    | op key => rfl
    | backend => rfl
    | listed => exact absurd rfl other

theorem Sound.popped {frame : Frame} (its : cache.frames = frame :: frames) (empty : frame.trans = []) :
    ∃ waits', Sound fair none { cache with frames } roles waits' := by
  refine sound.taken none .listed rfl sound.waiting.building (fun other there => ?_) ?_ fun w' other => ?_
  · exact sound.waiting.keyed other (its ▸ mem_cons_of_mem _ there)
  · change cache.listed = [] ++ HttpCache.listed { cache with frames }
    rw [HttpCache.listed, its, flatMap_cons, empty]
    rfl
  · cases w' with
    | op key => rfl
    | backend => rfl
    | listed => exact absurd rfl other

omit sound in
theorem nextNotice_ok {failRequests : Bool} {op : WorkItemOperation}
    (ok : (cache.nextNotice result op key failRequests item).1 = .ok e) : cache.activeEntries key = some e := by
  have its : (if result then cache.activeEntries key else none) = some e := by
    rw [HttpCache.nextNotice] at ok
    split at ok
    · cases ok
    · simp only at ok
      generalize (if result then cache.activeEntries key else none) = entry at ok ⊢
      split at ok
      · cases ok
      · split at ok
        · split at ok <;> cases ok
        · split at ok
          · cases ok
          · cases entry with
            | none => cases ok
            | some x =>
              cases ok
              rfl
  split at its
  · exact its
  · cases its

end Notices

end Glopen.Http

import Glopen.Http.HttpCacheSteps

/-! The steps of the code that notifies, the backend, and transactions that are destroyed. -/
namespace Glopen.Http

open List Option

def HttpCache.arrival (cache : HttpCache) : Event → Option (Trans × EntryId)
  | .openEntry t _ => (cache.activeEntries (cache.trans t).key).map fun e => (t, e)
  | .resume =>
    match cache.frames with
    | .onIOComplete result op key failRequests (item :: _) :: _ =>
      match item.trans, (cache.nextNotice result op key failRequests item).1 with
      | some t, .ok e => some (t, e)
      | _, _ => none
    | _ => none
  | _ => none

variable {fair : Prop} {cache : HttpCache} {roles : Roles} {waits : Waits} {t : Trans} {key : String}
  {item : WorkItem} {e : EntryId}

section Steps

variable (sound : Sound fair none cache roles waits)
include sound

theorem Sound.steppedItem {frames : List Frame} {result failRequests : Bool} {op : WorkItemOperation}
    {items : List WorkItem}
    (its : cache.frames = .onIOComplete result op key failRequests (item :: items) :: frames)
    {notice : Notice} (ok : ∀ e, notice = .ok e → cache.activeEntries key = some e)
    (orderly : ∀ t e, item.trans = some t → notice = .ok e → fair → ¬ cache.Overtakes t e) (rest : Bool) :
    ∃ roles' waits', Sound fair none ((HttpCache.push (.onIOComplete result op key rest items)
      { cache with frames }).notifyTransaction item.trans notice) roles' waits' := by
  have keyed := sound.waiting.keyed _ (its ▸ mem_cons_self ..)
  obtain ⟨waits', stepped⟩ := sound.next (.onIOComplete result op key rest items) item.trans its
    (fun other inside => keyed other (mem_cons_of_mem _ inside)) (by
      cases first : item.trans with
      | none => simp [Frame.trans, first]
      | some t => simp [Frame.trans, first])
  obtain ⟨frames', pushed⟩ := push_eq (.onIOComplete result op key rest items) { cache with frames }
  have told := stepped.told notice fun t e first same => by
    obtain ⟨entry, live, -, its_key⟩ := sound.entries.active key e (ok e same)
    have t_key := keyed item (mem_cons_self ..) t first
    rw [pushed]
    exact ⟨entry, live, its_key.trans t_key.symm, orderly t e first same⟩
  obtain ⟨roles', told⟩ := told
  exact ⟨roles', waits', told⟩

theorem Sound.resumed (orderly : fair → ∀ t e, cache.arrival .resume = some (t, e) → ¬ cache.Overtakes t e) :
    ∃ roles' waits', Sound fair none cache.resume roles' waits' := by
  rw [HttpCache.resume.eq_def]
  rw [HttpCache.arrival] at orderly
  cases its : cache.frames with
  | nil => exact ⟨roles, waits, sound⟩
  | cons frame frames =>
    rw [its] at orderly
    cases frame with
    | onIOComplete result op key failRequests items =>
      cases items with
      | nil =>
        obtain ⟨waits', popped⟩ := sound.popped its rfl
        exact ⟨roles, waits', popped⟩
      | cons item items =>
        simp only at orderly ⊢
        refine sound.steppedItem its (fun e ok => nextNotice_ok ok) (fun t e first ok asked => ?_) _
        refine orderly asked t e ?_
        rw [first, ok]
    | doneWriting queue =>
      cases queue with
      | nil =>
        obtain ⟨waits', popped⟩ := sound.popped its rfl
        exact ⟨roles, waits', popped⟩
      | cons t queue =>
        obtain ⟨waits', stepped⟩ := sound.next (.doneWriting queue) (some t) its trivial rfl
        obtain ⟨roles', told⟩ := stepped.told .failed fun _ _ _ same => by cases same
        exact ⟨roles', waits', told⟩
    | onBackendCreated =>
      simp only
      have pop : cache.waiting .backend = [] → ∃ roles' waits', Sound fair none
          { cache with frames, backendOp := none, buildingBackend := false } roles' waits' := by
        intro empty
        obtain ⟨waits', popped⟩ := sound.popped its rfl
        have done : ∃ waits', Sound fair none
            { cache with frames, backendOp := none, buildingBackend := false } roles waits' :=
          popped.taken none .backend rfl (fun _ none => by cases none) popped.waiting.keyed empty
            fun w' other => by
              cases w' with
              | op key => rfl
              | backend => exact absurd rfl other
              | listed => rfl
        exact ⟨roles, done⟩
      cases backend : cache.backendOp with
      | none => exact pop (by rw [HttpCache.waiting, backend]; rfl)
      | some op =>
        obtain ⟨writer, items⟩ := op
        obtain ⟨building, first⟩ := sound.waiting.building _ backend
        have nobody : writer.trans = none := first
        cases items with
        | nil => exact pop (by simp [HttpCache.waiting, backend, PendingOp.trans, nobody])
        | cons item items =>
          have list : cache.waiting .backend = item.trans.toList ++ PendingOp.trans ⟨writer, items⟩ := by
            rw [HttpCache.waiting, backend]
            cases its_trans : item.trans with
            | none => simp [PendingOp.trans, nobody, its_trans]
            | some t => simp [PendingOp.trans, nobody, its_trans]
          have stepped : ∃ waits', Sound fair item.trans
              { cache with backendOp := some ⟨writer, items⟩ } roles waits' :=
            sound.taken item.trans .backend rfl
              (fun op same => by cases same; exact ⟨building, nobody⟩) sound.waiting.keyed list
              fun w' other => by
                cases w' with
                | op key => rfl
                | backend => exact absurd rfl other
                | listed => rfl
          obtain ⟨waits', stepped⟩ := stepped
          obtain ⟨roles', told⟩ := stepped.told .failed fun _ _ _ same => by cases same
          rw [its] at told
          exact ⟨roles', waits', told⟩

theorem Sound.createBackend (callback : Bool) (rv : Option Bool) :
    ∃ waits', Sound fair none (cache.createBackend callback rv) roles waits' := by
  rw [HttpCache.createBackend]
  split
  · exact ⟨waits, sound⟩
  · cases backend : cache.backendOp with
    | some op =>
      obtain ⟨-, nobody⟩ := sound.waiting.building op backend
      simp only
      split
      · refine sound.taken none .backend rfl
          (fun op' same => by cases same; exact ⟨rfl, nobody⟩) sound.waiting.keyed ?_ fun w' other => ?_
        · simp [HttpCache.waiting, backend, trans_append]
        · cases w' with
          | op key => rfl
          | backend => exact absurd rfl other
          | listed => rfl
      · have building : HttpCache.Building { cache with buildingBackend := true } := fun op' same =>
          ⟨rfl, (sound.waiting.building op' same).2⟩
        have kept : ∃ waits', Sound fair none { cache with buildingBackend := true } roles waits' :=
          sound.taken none .listed rfl building sound.waiting.keyed rfl fun w' _ => by cases w' <;> rfl
        rw [← backend]
        exact kept
    | none =>
      have empty : cache.waiting .backend = [] := by
        rw [HttpCache.waiting, backend]
        rfl
      simp only
      cases rv with
      | none =>
        refine sound.taken none .backend rfl
          (fun op' same => by cases same; exact ⟨rfl, rfl⟩) sound.waiting.keyed empty fun w' other => ?_
        cases w' with
        | op key => rfl
        | backend => exact absurd rfl other
        | listed => rfl
      | some result =>
        have kept : ∃ waits', Sound fair none { cache with
            backendFactory := false, diskCache := result, buildingBackend := false } roles waits' :=
          sound.taken none .listed rfl (fun op' same => by
              rw [show cache.backendOp = some op' from same] at backend
              cases backend)
            sound.waiting.keyed rfl fun w' _ => by cases w' <;> rfl
        rw [← backend]
        exact kept

theorem Sound.getBackend (idle : (cache.trans t).Idle) :
    ∃ waits', Sound fair none (cache.getBackendForTransaction t) roles waits' := by
  rw [HttpCache.getBackendForTransaction]
  split
  · exact ⟨waits, sound⟩
  · cases backend : cache.backendOp with
    | none => exact ⟨waits, sound⟩
    | some op =>
      simp only
      obtain ⟨no_role, no_wait⟩ := (sound.fit t).idle idle
      obtain ⟨building, nobody⟩ := sound.waiting.building op backend
      have kept : ∀ x, x ≠ t → (cache.wait t).trans x = cache.trans x := fun x other =>
        setTrans_other cache _ other
      have waiting_entries : Entries (cache.wait t) roles := sound.entries.setTrans ⟨rfl, rfl⟩
      refine ⟨waits.set t (some .backend), ?_, ?_, fun x _ => ?_, fun _ none => (by cases none),
        sound.disk, sound.ops, sound.notes⟩
      · exact waiting_entries.congr rfl rfl rfl rfl rfl (fun _ _ _ => ⟨rfl, rfl⟩) (Nat.le_refl _)
      · refine sound.waiting.added (fun op' same => ?_) (fun frame there => ?_) no_wait ?_ fun w' other => ?_
        · cases same
          exact ⟨building, nobody⟩
        · refine (sound.waiting.keyed frame there).congr fun x its => ?_
          refine congrArg Transaction.key (kept x ?_)
          rintro rfl
          rw [sound.listed_waits x (listed_mem there its)] at no_wait
          cases no_wait
        · simp [HttpCache.waiting, backend, trans_append]
        · cases w' with
          | op key => rfl
          | backend => exact absurd rfl other
          | listed => rfl
      · change Fits (roles x) (waits.set t (some .backend) x) ((cache.wait t).trans x)
        by_cases here : x = t
        · subst here
          rw [wait_trans, no_role, Waits.set, if_pos rfl]
          exact fits_wait rfl idle.2.1 idle.2.2 fun k same => by cases same
        · rw [kept x here, Waits.set, if_neg here]
          exact sound.fit x

theorem Sound.backendCreated (result : Bool) :
    ∃ waits', Sound fair none (cache.onBackendCreated result) roles waits' := by
  refine sound.taken none .listed rfl
    sound.waiting.building (fun frame there => ?_) rfl fun w' _ => by cases w' <;> rfl
  rcases mem_cons.mp there with rfl | old
  · trivial
  · exact sound.waiting.keyed frame old

end Steps

section Removal

variable {removed : HttpCache} {op op' : PendingOp}

theorem filterMap_erase (list : List WorkItem) (first : list.find? (·.trans = some t) = some item) :
    (list.erase item).filterMap (·.trans) = (list.filterMap (·.trans)).erase t ∧
      t ∈ list.filterMap (·.trans) := by
  induction list with
  | nil => cases first
  | cons head list tail =>
    by_cases here : head.trans = some t
    · rw [List.find?_cons_of_pos (by simpa using here)] at first
      cases first
      rw [erase_cons_head, filterMap_cons, here]
      exact ⟨(erase_cons_head ..).symm, mem_cons_self ..⟩
    · rw [List.find?_cons_of_neg (by simpa using here)] at first
      obtain ⟨erased, inside⟩ := tail first
      have other : head ≠ item := by
        rintro rfl
        have its := List.find?_some first
        exact here (by simpa using its)
      rw [erase_cons_tail (by simpa using other), filterMap_cons, filterMap_cons, erased]
      cases its : head.trans with
      | none => exact ⟨rfl, inside⟩
      | some x =>
        have other : x ≠ t := fun same => here (its.trans (congrArg some same))
        exact ⟨(erase_cons_tail (by simpa using other)).symm, mem_cons_of_mem _ inside⟩

theorem removePending_trans (its : op.removePendingTransaction t = some op') :
    op'.trans = op.trans.erase t ∧ t ∈ op.trans ∧ op'.writer.operation = op.writer.operation ∧
      (op.writer.trans = none → op'.writer.trans = none) := by
  rw [PendingOp.removePendingTransaction] at its
  split at its
  · rename_i first
    cases its
    rw [PendingOp.trans, PendingOp.trans, filterMap_cons, filterMap_cons, first]
    exact ⟨(erase_cons_head ..).symm, mem_cons_self .., rfl, fun _ => rfl⟩
  · rename_i other
    split at its
    · rename_i item found
      cases its
      obtain ⟨erased, inside⟩ := filterMap_erase op.pendingQueue found
      rw [PendingOp.trans, PendingOp.trans, filterMap_cons, filterMap_cons, erased]
      cases first : op.writer.trans with
      | none => exact ⟨rfl, inside, rfl, id⟩
      | some x =>
        have not_t : x ≠ t := fun same => other (first.trans (congrArg some same))
        exact ⟨(erase_cons_tail (by simpa using not_t)).symm, mem_cons_of_mem _ inside, rfl, id⟩
    · cases its

theorem removePending_found (inside : t ∈ op.trans) : ∃ op', op.removePendingTransaction t = some op' := by
  rw [PendingOp.removePendingTransaction]
  split
  · exact ⟨_, rfl⟩
  · rename_i other
    obtain ⟨item, there, its⟩ := mem_filterMap.mp inside
    rcases mem_cons.mp there with rfl | queued
    · exact absurd its other
    · cases found : op.pendingQueue.find? (·.trans = some t) with
      | some item' => exact ⟨_, rfl⟩
      | none => exact absurd its (by simpa using List.find?_eq_none.mp found item queued)

theorem removeFromEntry_iff : cache.removeFromEntry t e = some removed ↔
    ∃ entry, cache.entries e = some entry ∧ t ∈ entry.pendingQueue ∧
      removed = cache.setEntry e { entry with pendingQueue := entry.pendingQueue.erase t } := by
  rw [HttpCache.removeFromEntry]
  cases its : cache.entries e with
  | none => simp
  | some entry =>
    by_cases queued : t ∈ entry.pendingQueue
    · simp [ActiveEntry.removePendingTransaction, queued, eq_comm]
    · simp [ActiveEntry.removePendingTransaction, queued]

variable (sound : Sound fair none cache roles waits)
include sound

theorem Sound.removedFromEntry (its : cache.removeFromEntry t e = some removed) :
    Sound fair (some t) removed (roles.set t none) waits := by
  obtain ⟨entry, live, queued, rfl⟩ := removeFromEntry_iff.mp its
  have role := ((sound.entries.each e entry live).queue t).mp queued
  have fit := sound.fit t
  rw [role] at fit
  obtain ⟨pending, no_entry⟩ := fit.knows e _ rfl
  refine sound.of_touched (touches_setEntry t e _ cache) (sound.entries.removed live queued)
    (Or.inr rfl) (fun x other => ?_) fun x same => ?_
  · rw [roles_set_other roles none fun here => other (by rw [here])]
    exact sound.fit x
  · cases same
    refine ⟨roles_set_self .., fit.one (some_ne_none _), pending, no_entry, ?_⟩
    rw [← Bool.not_eq_true]
    intro gone
    cases (fit.alive gone).1

theorem Sound.removedFromOp (its : cache.pendingOps key = some op)
    (found : op.removePendingTransaction t = some op') :
    ∃ waits', Sound fair (some t) (cache.setOp key (some op')) roles waits' := by
  obtain ⟨erased, inside, operation, -⟩ := removePending_trans found
  refine ⟨_, sound.picked (w := .op key) rfl sound.waiting.building sound.waiting.keyed
    (fun k other there kind => ?_) (sound.op_waits its inside) ?_ fun w' other => ?_⟩
  · change (if k = key then some op' else cache.pendingOps k) = some other at there
    split at there
    · rename_i here
      cases there
      rw [here]
      exact sound.ops key op its (operation ▸ kind)
    · exact sound.ops k other there kind
  · rw [waiting_setOp, if_pos rfl, HttpCache.waiting, its]
    exact erased
  · rw [waiting_setOp, if_neg other]

theorem Sound.removedFromBackend (its : cache.backendOp = some op)
    (found : op.removePendingTransaction t = some op') :
    ∃ waits', Sound fair (some t) { cache with backendOp := some op' } roles waits' := by
  obtain ⟨erased, inside, -, nobody⟩ := removePending_trans found
  have its_wait : waits t = some .backend := by
    rw [sound.waiting.member, HttpCache.waiting, its]
    exact inside
  refine ⟨_, sound.picked rfl (fun op'' same => ?_) sound.waiting.keyed sound.ops its_wait ?_ fun w' other => ?_⟩
  · cases same
    exact ⟨(sound.waiting.building op its).1, nobody (sound.waiting.building op its).2⟩
  · rw [HttpCache.waiting, HttpCache.waiting, its]
    exact erased
  · cases w' with
    | op key => rfl
    | backend => exact absurd rfl other
    | listed => rfl

theorem Sound.removedPending (its : cache.removePendingTransaction t = some removed) :
    removed.frames = cache.frames ∧ ∃ roles' waits', Sound fair (some t) removed roles' waits' := by
  rw [HttpCache.removePendingTransaction] at its
  simp only [orElse_eq_orElse, orElse_eq_or, or_eq_some_iff] at its
  rcases its with active | ⟨-, backend | ⟨-, work | ⟨-, doomed⟩⟩⟩
  · obtain ⟨e, -, found⟩ := bind_eq_some_iff.mp active
    obtain ⟨_, -, -, rfl⟩ := removeFromEntry_iff.mp found
    exact ⟨rfl, _, waits, sound.removedFromEntry found⟩
  · split at backend
    · obtain ⟨op, its, rest⟩ := bind_eq_some_iff.mp backend
      obtain ⟨op', found, same⟩ := bind_eq_some_iff.mp rest
      cases same
      obtain ⟨waits', sound'⟩ := sound.removedFromBackend its found
      exact ⟨rfl, roles, waits', sound'⟩
    · cases backend
  · obtain ⟨op, its, rest⟩ := bind_eq_some_iff.mp work
    obtain ⟨op', found, same⟩ := bind_eq_some_iff.mp rest
    cases same
    obtain ⟨waits', sound'⟩ := sound.removedFromOp its found
    exact ⟨rfl, roles, waits', sound'⟩
  · obtain ⟨e, -, found⟩ := List.exists_of_findSome?_eq_some doomed
    obtain ⟨_, -, -, rfl⟩ := removeFromEntry_iff.mp found
    exact ⟨rfl, _, waits, sound.removedFromEntry found⟩

theorem Sound.finds (pending : (cache.trans t).cachePending = true)
    (not_listed : t ∉ cache.listed) : ∃ removed, cache.removePendingTransaction t = some removed := by
  rw [← ne_none_iff_exists', HttpCache.removePendingTransaction]
  simp only [orElse_eq_orElse, orElse_eq_or, ne_eq, or_eq_none_iff, not_and]
  intro not_active not_backend not_work
  have fit := sound.fit t
  cases role : roles t with
  | some its =>
    obtain ⟨e, r⟩ := its
    have knows := fit.knows e r role
    cases r with
    | writer =>
      rw [knows.1] at pending
      cases pending
    | reader =>
      rw [knows.1] at pending
      cases pending
    | queued =>
      obtain ⟨entry, live⟩ := ne_none_iff_exists'.mp (sound.entries.live t e _ role)
      have locked := sound.entries.each e entry live
      have queued := (locked.queue t).mpr role
      have found := removeFromEntry_iff.mpr ⟨entry, live, queued, rfl⟩
      have its_place := locked.found
      split at its_place
      · intro not_doomed
        rw [List.findSome?_eq_none_iff.mp not_doomed e its_place] at found
        cases found
      · rw [← locked.keys t queued] at its_place
        rw [its_place, bind_some, found] at not_active
        cases not_active
  | none =>
    obtain ⟨w, its⟩ := ne_none_iff_exists'.mp ((fit.pending role).mp pending)
    have inside := (sound.waiting.member w t).mp its
    cases w with
    | listed => exact absurd inside not_listed
    | backend =>
      cases backend : cache.backendOp with
      | none =>
        rw [HttpCache.waiting, backend] at inside
        cases inside
      | some op =>
        rw [HttpCache.waiting, backend] at inside
        obtain ⟨op', found⟩ := removePending_found inside
        rw [if_pos (sound.waiting.building op backend).1, backend] at not_backend
        simp [found] at not_backend
    | op key =>
      rw [HttpCache.waiting] at inside
      cases work : cache.pendingOps key with
      | none =>
        rw [work] at inside
        cases inside
      | some op =>
        rw [work] at inside
        obtain ⟨op', found⟩ := removePending_found inside
        rw [fit.key key its, work] at not_work
        simp [found] at not_work

end Removal

section Destroy

variable {due : Option Trans} (sound : Sound fair due cache roles waits)
include sound

theorem Sound.gone (only : ∀ x, due = some x → x = t) (no_role : roles t = none)
    (no_wait : waits t = none) (no_entry : (cache.trans t).entry = none) :
    Sound fair none (cache.setTrans t { cache.trans t with cachePending := false, destroyed := true })
      roles waits := by
  have same := roles_set_same no_role
  have entries : Entries (cache.setTrans t { cache.trans t with
      cachePending := false, destroyed := true }) (roles.set t none) := by
    rw [same]
    exact sound.entries.setTrans ⟨rfl, rfl⟩
  have gone := sound.touched (touches_setTrans ..) entries
    (by rw [no_wait, setTrans_self]; exact fits_out no_entry rfl) no_wait only
  rw [same] at gone
  exact gone

end Destroy

section Destroyed

variable (sound : Sound fair none cache roles waits)
include sound

theorem Sound.doneWith (holds : (cache.trans t).entry = some e) (success : Bool) :
    ∃ roles' waits', Sound fair none
      (cache.release t fun e entry cache => cache.doneWithEntry t e entry success) roles' waits' ∧
      roles' t = none ∧ waits' t = none := by
  obtain ⟨entry, its, no_wait, role⟩ := sound.held holds
  have locked := sound.entries.each e entry its
  rw [release_eq holds its, HttpCache.doneWithEntry]
  cases writes : (cache.trans t).writes with
  | true =>
    rw [writes] at role
    have written := (locked.writer t).mpr role
    obtain ⟨no_readers, not_will⟩ := locked.exclusive (written ▸ some_ne_none t)
    rw [if_neg (by simp [not_will]), if_pos (by simp [written])]
    cases success with
    | true => exact ⟨_, _, sound.doneWriting holds its writes, roles_set_self .., no_wait⟩
    | false =>
      refine ⟨_, _, sound.failed holds its writes, ?_, ?_⟩
      · rw [Roles.without, role]
        simp
      · have not_queued : t ∉ entry.pendingQueue := by
          rw [locked.queue, role]
          simp
        rw [if_neg not_queued]
        exact no_wait
  | false =>
    rw [writes] at role
    have reading := (locked.readers t).mpr role
    have unwritten : entry.writer = none := by
      by_contra written
      rw [(locked.exclusive written).1] at reading
      cases reading
    rw [if_neg (by simp [ne_nil_of_mem reading]), if_neg (by simp [unwritten])]
    exact ⟨_, _, sound.doneReading holds its writes, roles_set_self .., no_wait⟩

theorem Sound.destroyed (success : Bool) (not_listed : t ∉ cache.listed) :
    ∃ roles' waits', Sound fair none (cache.destroy t success) roles' waits' := by
  rw [HttpCache.destroy]
  simp only
  split
  · rename_i holds
    obtain ⟨e, holds⟩ := isSome_iff_exists.mp holds
    obtain ⟨roles', waits', done, no_role, no_wait⟩ := sound.doneWith holds success
    exact ⟨roles', waits', done.gone (fun _ none => by cases none) no_role no_wait
      ((done.fit t).outside no_role)⟩
  · rename_i no_entry
    rw [Bool.not_eq_true, isSome_eq_false_iff, isNone_iff_eq_none] at no_entry
    split
    · rename_i pending
      obtain ⟨removed, found⟩ := sound.finds pending not_listed
      obtain ⟨-, roles', waits', removed'⟩ := sound.removedPending found
      obtain ⟨no_role, no_wait, -, its_entry, -⟩ := removed'.due t rfl
      have good : (Note.removed t true).Good fair := rfl
      have noted : Sound fair (some t) (removed.note (.removed t true)) roles' waits' :=
        removed'.same (removed'.entries.note _) (fun x => touches_note x good removed) rfl
      rw [found]
      exact ⟨roles', waits', noted.gone (fun x same => (some.inj same).symm) no_role no_wait its_entry⟩
    · rename_i not_pending
      obtain ⟨no_role, no_wait⟩ := (sound.fit t).out (Bool.eq_false_iff.mpr not_pending) no_entry
      exact ⟨roles, waits, sound.gone (fun _ none => by cases none) no_role no_wait no_entry⟩

end Destroyed

end Glopen.Http

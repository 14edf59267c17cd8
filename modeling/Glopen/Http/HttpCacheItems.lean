import Glopen.Http.HttpCacheEvents

/-! The work items of http_cache.cc, from the request to the notification. -/
namespace Glopen.Http

open List HttpCache
variable {fair : Prop} {cache : HttpCache} {key : String} {op : PendingOp} {roles : Roles} {waits : Waits}
  {t : Trans} {due : Option Trans} {result : Bool}

theorem waiting_setOp (cache : HttpCache) (key : String) (op : Option PendingOp) (w : Wait) :
    (cache.setOp key op).waiting w = if w = .op key then op.elim [] PendingOp.trans else cache.waiting w := by
  cases w with
  | op k =>
    change (if k = key then op else cache.pendingOps k).elim [] PendingOp.trans = _
    by_cases here : k = key
    · rw [if_pos here, if_pos (congrArg Wait.op here)]
    · rw [if_neg here, if_neg fun same => here (Wait.op.inj same)]
      rfl
  | backend => exact (if_neg fun same => by cases same).symm
  | listed => exact (if_neg fun same => by cases same).symm

theorem waiting_push (cache : HttpCache) (frame : Frame) (w : Wait) : (cache.push frame).waiting w =
      if w = .listed then frame.trans ++ cache.listed else cache.waiting w := by
  obtain ⟨frames, pushed⟩ := push_eq frame cache
  cases w with
  | op k =>
    rw [pushed]
    exact (if_neg fun same => by cases same).symm
  | backend =>
    rw [pushed]
    exact (if_neg fun same => by cases same).symm
  | listed => exact (push_listed frame cache).trans (if_pos rfl).symm

theorem trans_append (op : PendingOp) (item : WorkItem) :
    ({ op with pendingQueue := op.pendingQueue ++ [item] } : PendingOp).trans =
      op.trans ++ item.trans.toList := by
  rw [PendingOp.trans, PendingOp.trans, ← cons_append, filterMap_append]
  cases its : item.trans with
  | none => simp [its]
  | some t => simp [its]

theorem wait_trans (t : Trans) (cache : HttpCache) :
    (cache.wait t).trans t = { cache.trans t with cachePending := true } := setTrans_self ..

section Request

variable (sound : Sound fair none cache roles waits)
include sound

theorem Sound.enqueued (idle : (cache.trans t).Idle) (its_key : (cache.trans t).key = key)
    (list : op.trans = cache.waiting (.op key) ++ [t])
    (free : op.writer.operation ≠ .createEntry → cache.activeEntries key = none) :
    Sound fair none ((cache.wait t).setOp key (some op)) roles (waits.set t (some (.op key))) := by
  obtain ⟨no_role, no_wait⟩ := (sound.fit t).idle idle
  have kept : ∀ x, x ≠ t → ((cache.wait t).setOp key (some op)).trans x = cache.trans x :=
    fun x other => setTrans_other cache _ other
  have keyed : ∀ frame ∈ cache.frames, frame.Keyed ((cache.wait t).setOp key (some op)) := by
    intro frame there
    refine (sound.waiting.keyed frame there).congr fun x its => ?_
    rw [kept x]
    rintro rfl
    rw [sound.listed_waits x (listed_mem there its)] at no_wait
    cases no_wait
  have waiting : Waiting ((cache.wait t).setOp key (some op)) (waits.set t (some (.op key))) := by
    refine sound.waiting.added sound.waiting.building keyed no_wait ?_ fun w' other => ?_
    · rw [waiting_setOp, if_pos rfl]
      exact list
    · rw [waiting_setOp, if_neg other]
      cases w' <;> rfl
  have waiting_entries : Entries (cache.wait t) roles := sound.entries.setTrans ⟨rfl, rfl⟩
  have entries : Entries ((cache.wait t).setOp key (some op)) roles :=
    waiting_entries.congr rfl rfl rfl rfl rfl (fun _ _ _ => ⟨rfl, rfl⟩) (Nat.le_refl _)
  refine ⟨entries, waiting, fun x _ => ?_, fun _ none => (by cases none), sound.disk,
    fun k op' its operation => ?_, sound.notes⟩
  · by_cases here : x = t
    · subst here
      have now : ((cache.wait x).setOp key (some op)).trans x =
          { cache.trans x with cachePending := true } := wait_trans x cache
      rw [now, no_role, Waits.set, if_pos rfl]
      exact fits_wait rfl idle.2.1 idle.2.2 fun k same => its_key.trans (Wait.op.inj same)
    · rw [kept x here, Waits.set, if_neg here]
      exact sound.fit x
  · change (if k = key then some op else cache.pendingOps k) = some op' at its
    split at its
    · rename_i here
      cases its
      exact here ▸ free operation
    · exact sound.ops k op' its operation

theorem Sound.enqueued_none (list : op.trans = cache.waiting (.op key))
    (free : op.writer.operation ≠ .createEntry → cache.activeEntries key = none) :
    Sound fair none (cache.setOp key (some op)) roles waits := by
  have keyed : ∀ frame ∈ cache.frames, frame.Keyed (cache.setOp key (some op)) := fun frame there =>
    (sound.waiting.keyed frame there).congr fun _ _ => rfl
  have waiting : Waiting (cache.setOp key (some op)) waits := by
    refine sound.waiting.kept sound.waiting.building keyed fun w => ?_
    rw [waiting_setOp]
    split
    · rename_i here
      rw [here]
      exact list
    · rfl
  refine ⟨sound.entries.congr rfl rfl rfl rfl rfl (fun _ _ _ => ⟨rfl, rfl⟩) (Nat.le_refl _), waiting,
    sound.fits, fun _ none => (by cases none), sound.disk, fun k op' its operation => ?_, sound.notes⟩
  change (if k = key then some op else cache.pendingOps k) = some op' at its
  split at its
  · rename_i here
    cases its
    exact here ▸ free operation
  · exact sound.ops k op' its operation

end Request

section Complete

variable (sound : Sound fair due cache roles waits)

theorem completeOperation_push (result : Bool) (key : String) (op : PendingOp) (frame : Frame)
    (cache : HttpCache) : push frame (setOp key none (cache.completeOperation result key op).1) =
        (completeOperation result key op (push frame (cache.setOp key none))).1 ∧
      (completeOperation result key op (push frame (cache.setOp key none))).2 =
        (cache.completeOperation result key op).2 := by
  rw [push, push]
  split
  · simp only [completeOperation]
    repeat' split
    all_goals exact ⟨rfl, rfl⟩
  · simp only [completeOperation]
    repeat' split
    all_goals exact ⟨rfl, rfl⟩
include sound

theorem Sound.activated (absent : cache.pendingOps key = none) (free : cache.activeEntries key = none) :
    Sound fair due (cache.activateEntry key) roles waits := by
  have keyed : ∀ frame ∈ cache.frames, frame.Keyed (cache.activateEntry key) := fun frame there =>
    (sound.waiting.keyed frame there).congr fun _ _ => rfl
  refine ⟨sound.entries.activated free, sound.waiting.kept sound.waiting.building keyed fun w => ?_,
    sound.fits, sound.due, fun k active => ?_, fun k op its operation => ?_, fun note there => ?_⟩
  · cases w <;> rfl
  · change (if k = key then some cache.nextEntry else cache.activeEntries k) ≠ none at active
    change (if k = key then true else cache.onDisk k) = true
    split
    · rfl
    · rename_i other
      rw [if_neg other] at active
      exact sound.disk k active
  · have other : k ≠ key := by
      rintro rfl
      rw [show cache.pendingOps k = some op from its] at absent
      cases absent
    exact (if_neg other).trans (sound.ops k op its operation)
  · rcases mem_append.mp there with old | new
    · exact sound.notes note old
    · rw [mem_singleton.mp new]
      exact free

theorem Sound.disked {onDisk : String → Bool} (disk : ∀ k, cache.activeEntries k ≠ none → onDisk k = true) :
    Sound fair due { cache with onDisk } roles waits :=
  ⟨sound.entries.congr rfl rfl rfl rfl rfl (fun _ _ _ => ⟨rfl, rfl⟩) (Nat.le_refl _),
    sound.waiting.kept sound.waiting.building
      (fun frame there => (sound.waiting.keyed frame there).congr fun _ _ => rfl)
      (fun w => by cases w <;> rfl),
    sound.fits, sound.due, disk, sound.ops, sound.notes⟩

theorem Sound.completed (op : PendingOp) (result : Bool) (absent : cache.pendingOps key = none)
    (free : op.writer.operation ≠ .createEntry → cache.activeEntries key = none)
    (contract : result = true → op.writer.operation = .createEntry → cache.onDisk key = false) :
    Sound fair due (cache.completeOperation result key op).1 roles waits ∧
      (cache.completeOperation result key op).1.trans = cache.trans ∧
      ∀ e, (cache.completeOperation result key op).2.1 = some e →
        (cache.completeOperation result key op).1.entries e = some ⟨key, none, [], [], false, false⟩ := by
  rw [completeOperation]
  split
  · rename_i ok
    split
    · rename_i doom
      have none_active : cache.activeEntries key = none := free (by rw [doom]; decide)
      refine ⟨sound.disked fun k active => ?_, rfl, fun e none => by cases none⟩
      have other : k ≠ key := by
        rintro rfl
        exact active none_active
      rw [if_neg other]
      exact sound.disk k active
    · split
      · have none_active : cache.activeEntries key = none := by
          by_cases create : op.writer.operation = .createEntry
          · by_contra active
            have on_disk := sound.disk key active
            rw [contract ok create] at on_disk
            cases on_disk
          · exact free create
        refine ⟨sound.activated absent none_active, rfl, fun e its => ?_⟩
        cases its
        exact if_pos rfl
      · split
        · exact ⟨sound, rfl, fun e none => by cases none⟩
        · refine ⟨sound.disked fun k active => ?_, rfl, fun e none => by cases none⟩
          split
          · rfl
          · exact sound.disk k active
  · exact ⟨sound, rfl, fun e none => by cases none⟩

end Complete

section Moved

theorem new_orderly {e : EntryId}
    (its : cache.entries e = some ⟨key, none, [], [], false, false⟩) (t : Trans) : ¬ cache.Overtakes t e := by
  rintro ⟨entry, its', -, -, -, queue⟩
  rw [its] at its'
  cases its'
  exact queue rfl

variable (sound : Sound fair none cache roles waits)
include sound

theorem Sound.op_waits (its : cache.pendingOps key = some op) (there : t ∈ op.trans) :
    waits t = some (.op key) := by
  rw [sound.waiting.member, HttpCache.waiting, its]
  exact there

theorem Sound.first (its : cache.pendingOps key = some op) :
    ∃ waits₀, Waiting (cache.setOp key (some { op with writer := { op.writer with trans := none } })) waits₀ ∧
      (∀ x, op.writer.trans ≠ some x → waits₀ x = waits x) ∧
      ∀ x, op.writer.trans = some x → waits₀ x = none := by
  let rest : PendingOp := { op with writer := { op.writer with trans := none } }
  have keyed : ∀ frame ∈ cache.frames, frame.Keyed (cache.setOp key (some rest)) := fun frame there =>
    (sound.waiting.keyed frame there).congr fun _ _ => rfl
  have others : ∀ w, w ≠ .op key → (cache.setOp key (some rest)).waiting w = cache.waiting w := by
    intro w other
    rw [waiting_setOp, if_neg other]
  have list : cache.waiting (.op key) = op.trans := by
    rw [HttpCache.waiting, its]
    rfl
  have now : (cache.setOp key (some rest)).waiting (.op key) = rest.trans := by
    rw [waiting_setOp, if_pos rfl]
    rfl
  cases first : op.writer.trans with
  | none =>
    refine ⟨waits, sound.waiting.kept sound.waiting.building keyed fun w => ?_, fun _ _ => rfl,
      fun x none => by cases none⟩
    by_cases here : w = .op key
    · rw [here, now, list, PendingOp.trans, PendingOp.trans, filterMap_cons, filterMap_cons, first]
    · exact others w here
  | some t =>
    have there : t ∈ op.trans :=
      mem_filterMap.mpr ⟨op.writer, mem_cons_self .., first⟩
    refine ⟨waits.set t none, sound.waiting.dropped sound.waiting.building keyed
      (sound.op_waits its there) ?_ others, fun x other => if_neg fun here => other (by rw [here]),
      fun x same => ?_⟩
    · rw [now, list, PendingOp.trans, PendingOp.trans, filterMap_cons, filterMap_cons, first]
      exact (erase_cons_head ..).symm
    · cases same
      exact if_pos rfl

theorem Sound.moved (its : cache.pendingOps key = some op) (result failRequests : Bool)
    (operation : WorkItemOperation) : ∃ waits', Sound fair op.writer.trans (push
      (.onIOComplete result operation key failRequests op.pendingQueue) (cache.setOp key none)) roles
      waits' := by
  let frame : Frame := .onIOComplete result operation key failRequests op.pendingQueue
  obtain ⟨frames, pushed⟩ := push_eq frame (cache.setOp key none)
  have same_trans : (push frame (cache.setOp key none)).trans = cache.trans := by
    rw [pushed]
    rfl
  have keyed : ∀ other ∈ (push frame (cache.setOp key none)).frames,
      other.Keyed (push frame (cache.setOp key none)) := by
    intro other there
    rcases push_frames there with rfl | old
    · intro item inside t its_t
      rw [same_trans]
      have listed : t ∈ op.trans :=
        mem_filterMap.mpr ⟨item, mem_cons_of_mem _ inside, its_t⟩
      exact (sound.fit t).key key (sound.op_waits its listed)
    · refine (sound.waiting.keyed other old).congr fun x _ => ?_
      rw [same_trans]
  have ops : ∀ k op', (push frame (cache.setOp key none)).pendingOps k = some op' →
      cache.pendingOps k = some op' := by
    intro k op' its'
    rw [pushed] at its'
    change (if k = key then none else cache.pendingOps k) = some op' at its'
    split at its'
    · cases its'
    · exact its'
  have building : (push frame (cache.setOp key none)).Building := by
    rw [pushed]
    exact sound.waiting.building
  have before : Entries (cache.setOp key none) roles :=
    sound.entries.congr rfl rfl rfl rfl rfl (fun _ _ _ => ⟨rfl, rfl⟩) (Nat.le_refl _)
  obtain ⟨waits₀, waiting₀, kept, out⟩ := sound.first its
  have waiting := @Waiting.moved _ _ _ (.op key) waiting₀ building keyed .listed (by simp) ?_ ?_ ?_
  · refine ⟨_, before.push frame, waiting, fun x other => ?_, fun x first => ?_, ?_, ?_, ?_⟩
    · rw [same_trans, kept x other]
      have fit := sound.fit x
      split
      · rename_i its_wait
        rw [its_wait] at fit
        obtain ⟨no_role, pending, no_entry, alive⟩ := fit.waits
        rw [no_role]
        exact fits_wait pending no_entry alive fun k same => by cases same
      · exact fit
    · have there : x ∈ op.trans := mem_filterMap.mpr ⟨op.writer, mem_cons_self .., first⟩
      have fit := sound.fit x
      rw [sound.op_waits its there] at fit
      obtain ⟨no_role, pending, no_entry, alive⟩ := fit.waits
      rw [same_trans, out x first]
      exact ⟨no_role, if_neg (by simp), pending, no_entry, alive⟩
    · rw [pushed]
      exact sound.disk
    · intro k op' its' operation
      rw [pushed]
      exact sound.ops k op' (ops k op' its') operation
    · rw [pushed]
      exact sound.notes
  · rw [waiting_push, if_neg (by simp), waiting_setOp, if_pos rfl]
    rfl
  · rw [waiting_push, if_pos rfl, waiting_setOp, if_pos rfl]
    rfl
  · intro v not_op not_listed
    rw [waiting_push, if_neg not_listed, waiting_setOp, if_neg not_op, waiting_setOp, if_neg not_op]

omit sound in
theorem Sound.told (sound : Sound fair due cache roles waits) (notice : Notice) (ok : ∀ t e, due = some t →
      notice = .ok e → ∃ entry, cache.entries e = some entry ∧ entry.key = (cache.trans t).key ∧
        (fair → ¬ cache.Overtakes t e)) :
    ∃ roles', Sound fair none (cache.notifyTransaction due notice) roles' waits := by
  cases its : due with
  | none =>
    rw [its] at sound
    exact ⟨roles, sound⟩
  | some t => exact sound.notified its fun e same => ok t e its same

theorem Sound.onIOComplete (its : cache.pendingOps key = some op)
    (contract : result = true → op.writer.operation = .createEntry → cache.onDisk key = false) :
    ∃ roles' waits', Sound fair none (cache.onIOComplete result key op).1 roles' waits' := by
  let frame : Frame := .onIOComplete result op.writer.operation key
    (cache.completeOperation result key op).2.2 op.pendingQueue
  obtain ⟨waits', moved⟩ := sound.moved its result (cache.completeOperation result key op).2.2
    op.writer.operation
  have comm := completeOperation_push result key op frame cache
  let behind := completeOperation result key op (push frame (cache.setOp key none))
  have unfolded : (cache.onIOComplete result key op).1 =
      behind.1.notifyTransaction op.writer.trans (behind.2.1.elim .failed .ok) := by
    rw [show behind.1 = _ from comm.1.symm, show behind.2 = _ from comm.2]
    rfl
  obtain ⟨frames, pushed⟩ := push_eq frame (cache.setOp key none)
  have absent : (push frame (cache.setOp key none)).pendingOps key = none := by
    rw [pushed]
    exact if_pos rfl
  have active : (push frame (cache.setOp key none)).activeEntries key = cache.activeEntries key := by
    rw [pushed]
    rfl
  have on_disk : (push frame (cache.setOp key none)).onDisk key = cache.onDisk key := by
    rw [pushed]
    rfl
  have same_trans : (push frame (cache.setOp key none)).trans = cache.trans := by
    rw [pushed]
    rfl
  obtain ⟨completed, trans, entry⟩ := moved.completed op result absent
    (fun operation => active.trans (sound.ops key op its operation))
    (fun ok create => on_disk.trans (contract ok create))
  rw [unfolded]
  have ok : ∀ t e, op.writer.trans = some t → (behind.2.1.elim .failed .ok : Notice) = .ok e →
      ∃ entry, behind.1.entries e = some entry ∧ entry.key = (behind.1.trans t).key ∧
        (fair → ¬ behind.1.Overtakes t e) := by
    intro t e first same
    have there : t ∈ op.trans := mem_filterMap.mpr ⟨op.writer, mem_cons_self .., first⟩
    have its_key : (behind.1.trans t).key = key := by
      rw [trans, same_trans]
      exact (sound.fit t).key key (sound.op_waits its there)
    cases its_entry : behind.2.1 with
    | none =>
      rw [its_entry] at same
      cases same
    | some e' =>
      rw [its_entry] at same
      cases same
      have new := entry e its_entry
      exact ⟨_, new, its_key.symm, fun _ => new_orderly new t⟩
  obtain ⟨roles', told⟩ := completed.told _ ok
  exact ⟨roles', waits', told⟩

end Moved

end Glopen.Http

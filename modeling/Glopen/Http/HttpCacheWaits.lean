import Glopen.Http.HttpCacheTasks

/-! Which transactions wait for a work item of http_cache.cc, and in which list they are. -/
namespace Glopen.Http

open List

inductive Wait
  | op (key : String) | backend | listed
deriving DecidableEq

abbrev Waits := Trans → Option Wait

def Waits.set (t : Trans) (wait : Option Wait) (waits : Waits) : Waits :=
  fun x => if x = t then wait else waits x

def PendingOp.trans (op : PendingOp) : List Trans :=
  (op.writer :: op.pendingQueue).filterMap (·.trans)

def HttpCache.waiting (cache : HttpCache) : Wait → List Trans
  | .op key => (cache.pendingOps key).elim [] PendingOp.trans
  | .backend => cache.backendOp.elim [] PendingOp.trans
  | .listed => cache.listed

def Frame.Keyed (cache : HttpCache) : Frame → Prop
  | onIOComplete _ _ key _ pendingItems =>
    ∀ item ∈ pendingItems, ∀ t, item.trans = some t → (cache.trans t).key = key
  | _ => True

def HttpCache.Building (cache : HttpCache) : Prop :=
  ∀ op, cache.backendOp = some op → cache.buildingBackend = true ∧ op.writer.trans = none

structure Waiting (cache : HttpCache) (waits : Waits) : Prop where
  member : ∀ w t, waits t = some w ↔ t ∈ cache.waiting w
  distinct : ∀ w, (cache.waiting w).Nodup
  building : cache.Building
  keyed : ∀ frame ∈ cache.frames, frame.Keyed cache

section Moves

variable {cache cache' : HttpCache} {waits : Waits} {t : Trans} {w : Wait}

theorem waits_set_iff (waits : Waits) (t : Trans) (wait : Option Wait) (x : Trans) (its : Wait) :
    waits.set t wait x = some its ↔ if x = t then wait = some its else waits x = some its := by
  rw [Waits.set]
  split <;> rfl

variable (waiting : Waiting cache waits) (building : cache'.Building)
  (keyed : ∀ frame ∈ cache'.frames, frame.Keyed cache')
include waiting building keyed

theorem Waiting.kept (same : ∀ w, cache'.waiting w = cache.waiting w) : Waiting cache' waits :=
  ⟨fun w t => by rw [same]; exact waiting.member w t, fun w => by rw [same]; exact waiting.distinct w,
    building, keyed⟩

theorem Waiting.added (free : waits t = none) (now : cache'.waiting w = cache.waiting w ++ [t])
    (same : ∀ w', w' ≠ w → cache'.waiting w' = cache.waiting w') : Waiting cache' (waits.set t (some w)) := by
  have out : ∀ w', t ∉ cache.waiting w' := by
    intro w' there
    rw [← waiting.member, free] at there
    cases there
  refine ⟨fun w' x => ?_, fun w' => ?_, building, keyed⟩
  · rw [waits_set_iff, waiting.member]
    by_cases here : w' = w
    · subst here
      rw [now, mem_append, mem_singleton]
      split
      · rename_i same_t
        exact ⟨fun _ => .inr same_t, fun _ => rfl⟩
      · rename_i other
        exact ⟨.inl, fun either => either.resolve_right other⟩
    · rw [same w' here]
      split
      · rename_i same_t
        subst same_t
        exact ⟨fun other => absurd (Option.some.inj other).symm here, fun there => absurd there (out w')⟩
      · exact Iff.rfl
  · by_cases here : w' = w
    · subst here
      rw [now]
      refine nodup_append.mpr ⟨waiting.distinct w', nodup_singleton t, fun a there b same_b => ?_⟩
      rw [mem_singleton] at same_b
      rintro rfl
      exact out w' (same_b ▸ there)
    · rw [same w' here]
      exact waiting.distinct w'

theorem Waiting.dropped (its : waits t = some w) (now : cache'.waiting w = (cache.waiting w).erase t)
    (same : ∀ w', w' ≠ w → cache'.waiting w' = cache.waiting w') : Waiting cache' (waits.set t none) := by
  refine ⟨fun w' x => ?_, fun w' => ?_, building, keyed⟩
  · rw [waits_set_iff, waiting.member]
    by_cases here : w' = w
    · subst here
      rw [now, (waiting.distinct w').mem_erase_iff]
      split
      · rename_i same_t
        exact ⟨fun none => (by cases none), fun both => absurd same_t both.1⟩
      · rename_i other
        exact ⟨fun there => ⟨other, there⟩, And.right⟩
    · rw [same w' here]
      split
      · rename_i same_t
        subst same_t
        refine ⟨fun none => (by cases none), fun there => ?_⟩
        rw [← waiting.member, its] at there
        exact absurd (Option.some.inj there).symm here
      · exact Iff.rfl
  · by_cases here : w' = w
    · subst here
      rw [now]
      exact (waiting.distinct w').erase t
    · rw [same w' here]
      exact waiting.distinct w'

theorem Waiting.moved {w' : Wait} (other : w' ≠ w) (empty : cache'.waiting w = [])
    (now : cache'.waiting w' = cache.waiting w ++ cache.waiting w')
    (same : ∀ v, v ≠ w → v ≠ w' → cache'.waiting v = cache.waiting v) :
    Waiting cache' (fun x => if waits x = some w then some w' else waits x) := by
  refine ⟨fun v x => ?_, fun v => ?_, building, keyed⟩
  · by_cases here : v = w
    · subst here
      rw [empty]
      split
      · exact ⟨fun same => absurd (Option.some.inj same) other, fun none => by cases none⟩
      · rename_i elsewhere
        exact ⟨fun its => absurd its elsewhere, fun none => by cases none⟩
    · by_cases there : v = w'
      · subst there
        rw [now, mem_append, ← waiting.member, ← waiting.member]
        split
        · rename_i its
          exact ⟨fun _ => .inl its, fun _ => rfl⟩
        · rename_i elsewhere
          exact ⟨.inr, fun either => either.resolve_left elsewhere⟩
      · rw [same v here there, ← waiting.member]
        split
        · rename_i its
          rw [its]
          exact ⟨fun same => absurd (Option.some.inj same).symm there,
            fun same => absurd (Option.some.inj same).symm here⟩
        · exact Iff.rfl
  · by_cases here : v = w
    · subst here
      rw [empty]
      exact nodup_nil
    · by_cases there : v = w'
      · subst there
        rw [now]
        refine nodup_append.mpr ⟨waiting.distinct w, waiting.distinct v, fun a one b two => ?_⟩
        rintro rfl
        rw [← waiting.member] at one two
        rw [one] at two
        exact other (Option.some.inj two).symm
      · rw [same v here there]
        exact waiting.distinct v

theorem Waiting.taken {queue : List Trans} (distinct : queue.Nodup) (free : ∀ x ∈ queue, waits x = none)
    (now : cache'.waiting w = queue ++ cache.waiting w)
    (same : ∀ v, v ≠ w → cache'.waiting v = cache.waiting v) :
    Waiting cache' (fun x => if x ∈ queue then some w else waits x) := by
  have out : ∀ v, ∀ x ∈ queue, x ∉ cache.waiting v := by
    intro v x there in_v
    rw [← waiting.member, free x there] at in_v
    cases in_v
  refine ⟨fun v x => ?_, fun v => ?_, building, keyed⟩
  · by_cases here : v = w
    · subst here
      rw [now, mem_append, ← waiting.member]
      split
      · rename_i there
        exact ⟨fun _ => .inl there, fun _ => rfl⟩
      · rename_i elsewhere
        exact ⟨.inr, fun either => either.resolve_left elsewhere⟩
    · rw [same v here, ← waiting.member]
      split
      · rename_i there
        rw [free x there]
        exact ⟨fun same => absurd (Option.some.inj same).symm here, fun none => by cases none⟩
      · exact Iff.rfl
  · by_cases here : v = w
    · subst here
      rw [now]
      refine nodup_append.mpr ⟨distinct, waiting.distinct v, fun a one b two => ?_⟩
      rintro rfl
      exact out v a one two
    · rw [same v here]
      exact waiting.distinct v

end Moves

theorem push_listed (frame : Frame) (cache : HttpCache) :
    (cache.push frame).listed = frame.trans ++ cache.listed := by
  rw [HttpCache.push]
  split
  · rename_i done
    cases frame with
    | onIOComplete result op key failRequests items =>
      simp only [Frame.isDone, decide_eq_true_eq] at done
      rw [done]
      rfl
    | doneWriting queue =>
      simp only [Frame.isDone, decide_eq_true_eq] at done
      rw [done]
      rfl
    | onBackendCreated => cases done
  · rw [HttpCache.listed, flatMap_cons]
    rfl

theorem push_frames {frame : Frame} {cache : HttpCache} {other : Frame}
    (there : other ∈ (cache.push frame).frames) : other = frame ∨ other ∈ cache.frames := by
  rw [HttpCache.push] at there
  split at there
  · exact .inr there
  · exact mem_cons.mp there

theorem push_eq (frame : Frame) (cache : HttpCache) : ∃ frames, cache.push frame = { cache with frames } := by
  rw [HttpCache.push]
  split
  · exact ⟨cache.frames, rfl⟩
  · exact ⟨_, rfl⟩

theorem Entries.push {cache : HttpCache} {roles : Roles} (entries : Entries cache roles)
    (frame : Frame) : Entries (cache.push frame) roles := by
  obtain ⟨frames, pushed⟩ := push_eq frame cache
  rw [pushed]
  exact entries.congr rfl rfl rfl rfl rfl (fun _ _ _ => ⟨rfl, rfl⟩) (Nat.le_refl _)

theorem Frame.Keyed.congr {cache cache' : HttpCache} {frame : Frame} (keyed : frame.Keyed cache)
    (keys : ∀ x ∈ frame.trans, (cache'.trans x).key = (cache.trans x).key) : frame.Keyed cache' := by
  cases frame with
  | onIOComplete result op key failRequests items =>
    intro item inside x its
    rw [keys x (mem_filterMap.mpr ⟨item, inside, its⟩)]
    exact keyed item inside x its
  | doneWriting queue => trivial
  | onBackendCreated => trivial

end Glopen.Http

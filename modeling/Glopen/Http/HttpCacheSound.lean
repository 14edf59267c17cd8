import Glopen.Http.HttpCacheWaits

/-! What every event of http_cache.cc keeps: each transaction is in one place, and knows it. -/
namespace Glopen.Http

open Option

structure Fits (role : Option (EntryId × Role)) (wait : Option Wait) (trans : Transaction) : Prop where
  knows : ∀ e r, role = some (e, r) → Knows trans e r
  outside : role = none → trans.entry = none
  pending : role = none → (trans.cachePending = true ↔ wait ≠ none)
  one : role ≠ none → wait = none
  alive : trans.destroyed = true → role = none ∧ wait = none
  key : ∀ k, wait = some (.op k) → trans.key = k

/-- The callback of one transaction may be due: it is out of the lists, and does not know it yet. -/
structure Sound (fair : Prop) (due : Option Trans) (cache : HttpCache) (roles : Roles) (waits : Waits) : Prop where
  entries : Entries cache roles
  waiting : Waiting cache waits
  fits : ∀ t, due ≠ some t → Fits (roles t) (waits t) (cache.trans t)
  due : ∀ t, due = some t → roles t = none ∧ waits t = none ∧
    (cache.trans t).cachePending = true ∧ (cache.trans t).entry = none ∧ (cache.trans t).destroyed = false
  disk : ∀ k, cache.activeEntries k ≠ none → cache.onDisk k = true
  ops : ∀ k op, cache.pendingOps k = some op → op.writer.operation ≠ .createEntry →
    cache.activeEntries k = none
  notes : ∀ note ∈ cache.notes, note.Good fair

variable {role : Option (EntryId × Role)} {e : EntryId} {fair : Prop} {cache cache' : HttpCache}
  {roles : Roles} {t : Trans} {entry : ActiveEntry}

section Fits

variable {wait : Option Wait} {trans : Transaction}

theorem Fits.out (fits : Fits role wait trans) (not_pending : trans.cachePending = false)
    (no_entry : trans.entry = none) : role = none ∧ wait = none := by
  have no_role : role = none := by
    cases role with
    | none => rfl
    | some its =>
      obtain ⟨e, r⟩ := its
      have knows := fits.knows e r rfl
      cases r with
      | writer =>
        rw [knows.2.1] at no_entry
        cases no_entry
      | reader =>
        rw [knows.2.1] at no_entry
        cases no_entry
      | queued =>
        rw [knows.1] at not_pending
        cases not_pending
  refine ⟨no_role, ?_⟩
  by_contra waits
  rw [(fits.pending no_role).mpr waits] at not_pending
  cases not_pending

theorem Fits.idle (fits : Fits role wait trans) (idle : trans.Idle) : role = none ∧ wait = none :=
  fits.out idle.1 idle.2.1

theorem Fits.holds (fits : Fits role wait trans) (holds : trans.entry = some e) :
    wait = none ∧ trans.cachePending = false ∧ trans.destroyed = false ∧
      role = some (e, if trans.writes then .writer else .reader) := by
  cases role with
  | none =>
    rw [fits.outside rfl] at holds
    cases holds
  | some its =>
    obtain ⟨x, r⟩ := its
    have knows := fits.knows x r rfl
    have alive : trans.destroyed = false := by
      rw [← Bool.not_eq_true]
      intro gone
      cases (fits.alive gone).1
    refine ⟨fits.one (some_ne_none _), ?_⟩
    cases r with
    | writer =>
      obtain ⟨not_pending, entry, writes⟩ := knows
      rw [entry] at holds
      cases holds
      exact ⟨not_pending, alive, by rw [writes]; rfl⟩
    | reader =>
      obtain ⟨not_pending, entry, reads⟩ := knows
      rw [entry] at holds
      cases holds
      exact ⟨not_pending, alive, by rw [reads]; rfl⟩
    | queued =>
      rw [knows.2] at holds
      cases holds

theorem fits_out (no_entry : trans.entry = none) (not_pending : trans.cachePending = false) :
    Fits none none trans where
  knows _ _ role := by cases role
  outside _ := no_entry
  pending _ := by simp [not_pending]
  one role := absurd rfl role
  alive _ := ⟨rfl, rfl⟩
  key _ wait := by cases wait

theorem fits_role {r : Role} (knows : Knows trans e r) (alive : trans.destroyed = false) :
    Fits (some (e, r)) none trans where
  knows _ _ same := by
    cases same
    exact knows
  outside role := by cases role
  pending role := by cases role
  one _ := rfl
  alive gone := by
    rw [alive] at gone
    cases gone
  key _ wait := by cases wait

variable {w : Wait}

theorem fits_wait (pending : trans.cachePending = true) (no_entry : trans.entry = none)
    (alive : trans.destroyed = false) (key : ∀ k, w = .op k → trans.key = k) : Fits none (some w) trans where
  knows _ _ role := by cases role
  outside _ := no_entry
  pending _ := by simp [pending]
  one role := absurd rfl role
  alive gone := by
    rw [alive] at gone
    cases gone
  key k same := key k (some.inj same)

theorem Fits.waits (fits : Fits role (some w) trans) : role = none ∧
    trans.cachePending = true ∧ trans.entry = none ∧ trans.destroyed = false := by
  have no_role : role = none := by
    by_contra role
    cases fits.one role
  refine ⟨no_role, (fits.pending no_role).mpr (some_ne_none w), fits.outside no_role, ?_⟩
  rw [← Bool.not_eq_true]
  intro gone
  cases (fits.alive gone).2

end Fits

section Sound

variable {due : Option Trans} {waits : Waits}

theorem roles_set_same {roles : Roles} {role : Option (EntryId × Role)} (its : roles t = role) :
    roles.set t role = roles := by
  funext x
  rw [Roles.set]
  split
  · rename_i here
    rw [here, its]
  · rfl

theorem listed_mem {frame : Frame} (there : frame ∈ cache.frames) {x : Trans} (its : x ∈ frame.trans) :
    x ∈ cache.listed := List.mem_flatMap.mpr ⟨frame, there, its⟩

theorem keyed_congr (keyed : ∀ frame ∈ cache.frames, frame.Keyed cache) (frames : cache'.frames = cache.frames)
    (keys : ∀ x ∈ cache.listed, (cache'.trans x).key = (cache.trans x).key) :
    ∀ frame ∈ cache'.frames, frame.Keyed cache' := by
  intro frame there
  rw [frames] at there
  exact (keyed frame there).congr fun x its => keys x (listed_mem there its)

variable (sound : Sound fair due cache roles waits)
include sound

theorem Sound.listed_waits : ∀ x ∈ cache.listed, waits x = some .listed := fun x there =>
  (sound.waiting.member .listed x).mpr there

theorem Sound.waiting_touched (touches : Touches fair t cache cache') (not_listed : t ∉ cache.listed ∨
    cache'.trans = cache.trans) : Waiting cache' waits := by
  have same : ∀ w, cache'.waiting w = cache.waiting w := by
    intro w
    cases w with
    | op k => rw [HttpCache.waiting, HttpCache.waiting, touches.ops]
    | backend => rw [HttpCache.waiting, HttpCache.waiting, touches.backend]
    | listed => rw [HttpCache.waiting, HttpCache.waiting, HttpCache.listed, HttpCache.listed,
        touches.frames]
  have keyed := keyed_congr sound.waiting.keyed touches.frames fun x listed => by
    rcases not_listed with out | same
    · rw [touches.others x fun here => out (here ▸ listed)]
    · rw [same]
  have building : cache'.Building := by
    rw [HttpCache.Building, touches.backend, touches.building]
    exact sound.waiting.building
  exact sound.waiting.kept building keyed same

theorem Sound.of_touched {due' : Option Trans} {roles' : Roles} (touches : Touches fair t cache cache')
    (entries : Entries cache' roles') (not_listed : t ∉ cache.listed ∨ cache'.trans = cache.trans)
    (fits : ∀ x, due' ≠ some x → Fits (roles' x) (waits x) (cache'.trans x))
    (due_now : ∀ x, due' = some x → roles' x = none ∧ waits x = none ∧
      (cache'.trans x).cachePending = true ∧ (cache'.trans x).entry = none ∧
        (cache'.trans x).destroyed = false) : Sound fair due' cache' roles' waits := by
  refine ⟨entries, sound.waiting_touched touches not_listed, fits, due_now, fun k active => ?_,
    fun k op its operation => ?_, fun note there => (touches.notes note there).elim (sound.notes note) id⟩
  · obtain ⟨x, its⟩ := ne_none_iff_exists'.mp active
    obtain ⟨before, on_disk⟩ := touches.active k x its
    exact on_disk (sound.disk k (before ▸ some_ne_none x))
  · rw [touches.ops] at its
    have before := sound.ops k op its operation
    cases active : cache'.activeEntries k with
    | none => rfl
    | some x =>
      rw [(touches.active k x active).1] at before
      cases before

theorem Sound.touched (touches : Touches fair t cache cache')
    (entries : Entries cache' (roles.set t role)) (fits : Fits role (waits t) (cache'.trans t))
    (no_wait : waits t = none) (not_other : ∀ x, due = some x → x = t) :
    Sound fair none cache' (roles.set t role) waits := by
  have not_listed : t ∉ cache.listed := by
    intro listed
    rw [sound.listed_waits t listed] at no_wait
    cases no_wait
  refine sound.of_touched touches entries (Or.inl not_listed) (fun x _ => ?_) fun _ none => by cases none
  by_cases here : x = t
  · subst here
    rw [roles_set_self]
    exact fits
  · rw [roles_set_other roles role here, touches.others x here]
    exact sound.fits x fun its => here (not_other x its)

theorem Sound.same (entries : Entries cache' roles) (touches : ∀ t, Touches fair t cache cache')
    (same : cache'.trans = cache.trans) : Sound fair due cache' roles waits := by
  refine sound.of_touched (touches 0) entries (Or.inr same) ?_ ?_
  · rw [same]
    exact sound.fits
  · rw [same]
    exact sound.due

theorem Sound.notified (due_t : due = some t) {notice : Notice}
    (ok : ∀ e, notice = .ok e → ∃ entry, cache.entries e = some entry ∧
      entry.key = (cache.trans t).key ∧ (fair → ¬ cache.Overtakes t e)) :
    ∃ roles', Sound fair none (cache.notifyTransaction (some t) notice) roles' waits := by
  obtain ⟨no_role, no_wait, pending, no_entry, alive⟩ := sound.due t due_t
  have only : ∀ x, due = some x → x = t := fun x same => some.inj (same.symm.trans due_t)
  have good : (Note.notified t (cache.trans t).cachePending).Good fair := pending
  let now : Transaction := { cache.trans t with cachePending := false }
  let called := (cache.note (.notified t (cache.trans t).cachePending)).setTrans t now
  have its_trans : called.trans t = now := setTrans_self ..
  have touched : Touches fair t cache called := (touches_note t good cache).trans (touches_setTrans ..)
  have entries : Entries called roles := (sound.entries.note _).setTrans ⟨rfl, rfl⟩
  cases notice with
  | failed =>
    refine ⟨roles.set t none, sound.touched touched ?_ ?_ no_wait only⟩
    · rw [roles_set_same no_role]
      exact entries
    · rw [no_wait]
      exact its_trans ▸ fits_out no_entry rfl
  | ok e =>
    obtain ⟨entry, its, key, orderly⟩ := ok e rfl
    have orderly : fair → ¬ called.Overtakes t e := by
      intro asked overtakes
      rw [HttpCache.Overtakes, its_trans] at overtakes
      exact orderly asked overtakes
    obtain ⟨role, added, knows, -, destroyed, touched'⟩ := entries.doAdd (t := t) its no_role
      (by rw [its_trans]; exact key.symm) (by rw [its_trans]; exact no_entry) orderly
    refine ⟨roles.set t (some (e, role)), sound.touched (touched.trans touched') added ?_ no_wait only⟩
    rw [no_wait]
    rw [its_trans] at destroyed
    exact fits_role knows (destroyed.trans alive)

end Sound

section Held

variable {waits : Waits} (sound : Sound fair none cache roles waits)
include sound

theorem Sound.fit (t : Trans) : Fits (roles t) (waits t) (cache.trans t) := sound.fits t fun none => by
  cases none

theorem Sound.held (holds : (cache.trans t).entry = some e) : ∃ entry,
    cache.entries e = some entry ∧ waits t = none ∧
      roles t = some (e, if (cache.trans t).writes then .writer else .reader) := by
  obtain ⟨no_wait, -, -, role⟩ := (sound.fit t).holds holds
  obtain ⟨entry, its⟩ := ne_none_iff_exists'.mp (sound.entries.live t e _ role)
  exact ⟨entry, its, no_wait, role⟩

omit sound in
theorem release_eq (holds : (cache.trans t).entry = some e) (its : cache.entries e = some entry)
    (done : EntryId → ActiveEntry → HttpCache → HttpCache) : cache.release t done =
      done e entry (cache.setTrans t { cache.trans t with entry := none }) := by
  rw [HttpCache.release, holds]
  simp only
  rw [its]

theorem Sound.ended (holds : (cache.trans t).entry = some e)
    (touches : Touches fair t (cache.setTrans t { cache.trans t with entry := none }) cache')
    (same : cache'.trans = (cache.setTrans t { cache.trans t with entry := none }).trans)
    (entries : Entries cache' (roles.set t none)) : Sound fair none cache' (roles.set t none) waits := by
  obtain ⟨no_wait, not_pending, -, -⟩ := (sound.fit t).holds holds
  refine sound.touched ((touches_setTrans ..).trans touches) entries ?_ no_wait fun _ none => by
    cases none
  rw [no_wait, same, setTrans_self]
  exact fits_out rfl not_pending

end Held

end Glopen.Http

import Mathlib.Data.Multiset.AddSub
import Glopen.Container.HashTbl

/-! The probe paths of a hash table: no entry lies behind a bucket that was never used. -/
namespace Glopen.Container

open Probing List Option
variable {α : Type} {f : HashFunctor α} {idx : Nat} {slot : Slot α} {datum : α} {t : HashTbl α} {obj : α}
  {calloc : Nat → Bool}

/-- The `k`-th bucket on the probe path of a hash value. -/
def HashTbl.place (t : HashTbl α) (hash k : Nat) : Nat :=
  (hashNext t.numBuckets)^[k] (hash % t.numBuckets)

structure Consistent (f : HashFunctor α) (t : HashTbl α) : Prop where
  count : t.numEntries = t.live.length
  small : t.numBuckets < 2 ^ 32
  coprime : t.numBuckets ≠ 0 → Nat.Coprime hashTableStride t.numBuckets
  path : ∀ idx datum, t.bucket[idx]? = some (.used datum) → ∃ k, t.place (f.hash datum) k = idx ∧
      ∀ j < k, t.bucket[t.place (f.hash datum) j]? ≠ some .unused

section Slots

variable {slots : List (Slot α)}

theorem set_split (here : slots[idx]? = some slot) (new : Slot α) :
    ∃ before after, slots = before ++ slot :: after ∧ slots.set idx new = before ++ new :: after := by
  obtain ⟨inside, rfl⟩ := List.getElem?_eq_some_iff.mp here
  refine ⟨slots.take idx, slots.drop (idx + 1), ?_, ?_⟩
  · rw [← drop_eq_getElem_cons inside, take_append_drop]
  · rw [set_eq_take_append_cons_drop, if_pos inside]

theorem live_set_used (here : slots[idx]? = some slot) (free : slot.datum? = none) :
    ((slots.set idx (.used datum)).filterMap Slot.datum?).Perm (datum :: slots.filterMap Slot.datum?) := by
  obtain ⟨before, after, rfl, same⟩ := set_split here (.used datum)
  rw [same]
  simp only [filterMap_append, filterMap_cons, free]
  exact perm_middle

theorem live_set_deleted : (slots.filterMap Slot.datum?).Perm ((slots[idx]?.bind Slot.datum?).toList ++
        (slots.set idx .deleted).filterMap Slot.datum?) := by
  cases here : slots[idx]? with
  | none =>
    rw [set_eq_of_length_le (List.getElem?_eq_none_iff.mp here)]
    exact List.Perm.refl _
  | some slot =>
    obtain ⟨before, after, rfl, same⟩ := set_split here .deleted
    rw [same, bind_some]
    cases slot with
    | unused => simp [filterMap_cons, Slot.datum?]
    | deleted => simp [filterMap_cons, Slot.datum?]
    | used datum =>
      simp only [filterMap_append, filterMap_cons, Slot.datum?, toList_some, singleton_append]
      exact perm_middle

end Slots

theorem HashTbl.mem_live : datum ∈ t.live ↔ ∃ idx : Nat, t.bucket[idx]? = some (.used datum) := by
  simp only [live, mem_filterMap]
  constructor
  · rintro ⟨slot, member, holds⟩
    obtain ⟨idx, here⟩ := mem_iff_getElem?.mp member
    refine ⟨idx, ?_⟩
    cases slot with
    | used other => rw [here, some.inj holds]
    | unused => cases holds
    | deleted => cases holds
  · rintro ⟨idx, here⟩
    exact ⟨.used datum, mem_of_getElem? here, rfl⟩

theorem HashTbl.slotIs_iff {p : Slot α → Bool} :
    t.slotIs p idx = true ↔ ∃ slot, t.bucket[idx]? = some slot ∧ p slot = true :=
  Option.any_eq_true p _

theorem Consistent.visits (ok : Consistent f t) {target : Nat}
    (inside : target < t.numBuckets) (hash : Nat) : ∃ k < t.numBuckets, t.place hash k = target :=
  stride_visits (ok.coprime (by omega)) (Nat.mod_lt _ (by omega)) inside

theorem Consistent.path_set (ok : Consistent f t)
    (busy : slot.isUnused = false) (n : Nat) {i : Nat} (here : t.bucket[i]? = some (.used datum)) :
    ∃ k, HashTbl.place ⟨t.bucket.set idx slot, n⟩ (f.hash datum) k = i ∧
      ∀ j < k, (t.bucket.set idx slot)[HashTbl.place ⟨t.bucket.set idx slot, n⟩
        (f.hash datum) j]? ≠ some .unused := by
  obtain ⟨k, ends, before⟩ := ok.path i datum here
  have same : ∀ j, HashTbl.place ⟨t.bucket.set idx slot, n⟩ (f.hash datum) j = t.place (f.hash datum) j := by
    intro j
    simp only [HashTbl.place, HashTbl.numBuckets, length_set]
  refine ⟨k, by rw [same, ends], fun j less => ?_⟩
  rw [same, List.getElem?_set]
  split
  · split
    · intro bad
      rw [some.inj bad] at busy
      cases busy
    · exact some_ne_none _ ∘ Eq.symm
  · exact before j less

theorem Consistent.bury (ok : Consistent f t) (idx : Nat) : Consistent f (bury t idx) ∧
      t.live.Perm ((naClContainerHashTblIterStar t idx).toList ++ (Container.bury t idx).live) := by
  have split : t.live.Perm ((naClContainerHashTblIterStar t idx).toList ++
      (Container.bury t idx).live) := live_set_deleted
  refine ⟨⟨?_, ?_, ?_, ?_⟩, split⟩
  · have total := split.length_eq
    rw [length_append, ← ok.count] at total
    change (if (naClContainerHashTblIterStar t idx).isSome then t.numEntries - 1
      else t.numEntries) = (Container.bury t idx).live.length
    cases star : naClContainerHashTblIterStar t idx with
    | none =>
      rw [star] at total
      simpa using total
    | some datum =>
      rw [star] at total
      simp only [toList_some, length_singleton] at total
      simp only [isSome_some, if_true]
      omega
  · simpa only [HashTbl.numBuckets, Container.bury, length_set] using ok.small
  · simpa only [HashTbl.numBuckets, Container.bury, length_set] using ok.coprime
  · intro i datum here
    simp only [Container.bury, List.getElem?_set] at here
    split at here
    · split at here
      · cases here
      · cases here
    · exact ok.path_set rfl _ here

/-- The bucket that `Insert` takes, once a search from the hash of `obj` meets a free one. -/
structure Taken (f : HashFunctor α) (t : HashTbl α) (obj : α) (k : Nat) : Prop where
  free : t.slotIs (fun slot => slot.datum?.isNone) (t.place (f.hash obj) k) = true
  before : ∀ j < k, t.slotIs (fun slot => slot.datum?.isNone) (t.place (f.hash obj) j) = false

theorem Consistent.taken (ok : Consistent f t) (obj : α)
    (room : ∃ slot ∈ t.bucket, slot.datum? = none) : ∃ k < t.numBuckets, Taken f t obj k := by
  obtain ⟨slot, member, free⟩ := room
  obtain ⟨idx, here⟩ := mem_iff_getElem?.mp member
  obtain ⟨inside, -⟩ := List.getElem?_eq_some_iff.mp here
  obtain ⟨k, less, ends⟩ := ok.visits inside (f.hash obj)
  have reached : t.slotIs (fun slot => slot.datum?.isNone) (t.place (f.hash obj) k) = true := by
    rw [ends, HashTbl.slotIs, here, any_some, free, isNone_none]
  obtain ⟨m, le, first, before⟩ := exists_first reached
  exact ⟨m, by omega, first, before⟩

/-- The table with `obj` in the bucket that was taken. -/
def HashTbl.put (t : HashTbl α) (idx : Nat) (obj : α) : HashTbl α :=
  ⟨t.bucket.set idx (.used obj), t.numEntries + 1⟩

theorem Taken.consistent {k : Nat} (taken : Taken f t obj k) (ok : Consistent f t) :
    Consistent f (t.put (t.place (f.hash obj) k) obj) ∧
      (t.put (t.place (f.hash obj) k) obj).live.Perm (obj :: t.live) := by
  obtain ⟨slot, here, free⟩ := HashTbl.slotIs_iff.mp taken.free
  have added : (t.put (t.place (f.hash obj) k) obj).live.Perm (obj :: t.live) :=
    live_set_used here (isNone_iff_eq_none.mp free)
  refine ⟨⟨?_, ?_, ?_, ?_⟩, added⟩
  · rw [added.length_eq, length_cons, ← ok.count]
    rfl
  · simpa only [HashTbl.numBuckets, HashTbl.put, length_set] using ok.small
  · simpa only [HashTbl.numBuckets, HashTbl.put, length_set] using ok.coprime
  · intro i datum filled
    have set_ := filled
    simp only [HashTbl.put, List.getElem?_set] at set_
    split at set_
    · rename_i same
      split at set_
      · -- the new entry: all buckets before it on its path are in use
        cases set_
        subst same
        have places : ∀ j, (t.put (t.place (f.hash obj) k) obj).place (f.hash obj) j =
            t.place (f.hash obj) j := by
          intro j
          simp only [HashTbl.place, HashTbl.numBuckets, HashTbl.put, length_set]
        refine ⟨k, places k, fun j less => ?_⟩
        rw [places]
        simp only [HashTbl.put, List.getElem?_set]
        split
        · exact fun bad => nomatch bad
        · intro bad
          have busy := taken.before j less
          rw [HashTbl.slotIs, bad] at busy
          cases busy
      · cases set_
    · exact ok.path_set rfl _ set_

/-! `Insert` with its rehashing: one more entry, none lost and none doubled. -/

/-- `t'` is consistent and has the entries of `t` and `obj`. -/
structure Inserted (f : HashFunctor α) (t : HashTbl α) (obj : α) (t' : HashTbl α) : Prop where
  consistent : Consistent f t'
  live : t'.live.Perm (obj :: t.live)

theorem makeBucket_consistent {n : Nat} (small : n < 2 ^ 32)
    (coprime : n ≠ 0 → Nat.Coprime hashTableStride n) : Consistent f (naClContainerHashTblMakeBucket n) ∧
      (naClContainerHashTblMakeBucket n : HashTbl α).live = [] ∧
      (naClContainerHashTblMakeBucket n : HashTbl α).numBuckets = n := by
  have empty : (naClContainerHashTblMakeBucket n : HashTbl α).live = [] := by
    simp [naClContainerHashTblMakeBucket, HashTbl.live, filterMap_replicate, Slot.datum?]
  have size : (naClContainerHashTblMakeBucket n : HashTbl α).numBuckets = n :=
    length_replicate
  refine ⟨⟨?_, ?_, ?_, ?_⟩, empty, size⟩
  · rw [empty]
    rfl
  · rw [size]
    exact small
  · rw [size]
    exact coprime
  · intro idx datum here
    have := eq_of_mem_replicate (mem_of_getElem? here)
    cases this

theorem insert_unfold (calloc : Nat → Bool) (obj : α) (ok : Consistent f t) (room : ∃ slot ∈ t.bucket, slot.datum? = none) :
    ∃ put, Inserted f t obj put ∧ put.numBuckets = t.numBuckets ∧ ∀ fuel, t.numBuckets ≤ fuel + 1 →
        naClContainerHashTblInsert f calloc (fuel + 1) t obj =
          naClContainerHashTblCheckLoad (naClContainerHashTblInsert f calloc fuel) calloc put := by
  obtain ⟨k, less, taken⟩ := ok.taken obj room
  obtain ⟨consistent, live⟩ := taken.consistent ok
  refine ⟨t.put (t.place (f.hash obj) k) obj, ⟨consistent, live⟩, length_set, ?_⟩
  intro fuel enough
  rw [naClContainerHashTblInsert, firstStop_eq_some (k := k) (by omega) taken.free taken.before]
  rfl

theorem exists_free (few : t.live.length < t.numBuckets) : ∃ slot ∈ t.bucket, slot.datum? = none := by
  by_contra full
  have all : ∀ slot ∈ t.bucket, slot.datum?.isSome := by
    intro slot member
    exact ne_none_iff_isSome.mp fun free => full ⟨slot, member, free⟩
  have : t.live.length = t.numBuckets := by
    rw [HashTbl.live, HashTbl.numBuckets]
    exact filterMap_length_eq_length.mpr all
  omega

theorem insert_fits (calloc : Nat → Bool) (obj : α) (ok : Consistent f t)
    (few : 2 * (t.live.length + 1) < t.numBuckets) :
    ∃ t', Inserted f t obj t' ∧ t'.numBuckets = t.numBuckets ∧ ∀ fuel, t.numBuckets ≤ fuel →
      naClContainerHashTblInsert f calloc fuel t obj = some (t', true) := by
  obtain ⟨put, inserted, size, unfolded⟩ := insert_unfold calloc obj ok (exists_free (by omega))
  refine ⟨put, inserted, size, fun fuel enough => ?_⟩
  obtain ⟨fuel, rfl⟩ : ∃ n, fuel = n + 1 := ⟨fuel - 1, by omega⟩
  have count : put.numEntries = t.live.length + 1 := by
    rw [inserted.consistent.count, inserted.live.length_eq, length_cons]
  have small := ok.small
  rw [unfolded fuel enough, naClContainerHashTblCheckLoad, if_pos]
  rw [count, size, hashTableLoadFactor, Nat.mod_eq_of_lt (by omega)]
  exact few

/-- Moves entries into a table with the table's own `Insert`. -/
def insertAll (f : HashFunctor α) (calloc : Nat → Bool) (fuel : Nat) (data : List α)
    (t : HashTbl α) : Option (HashTbl α) :=
  data.foldlM (fun t datum => (naClContainerHashTblInsert f calloc fuel t datum).map Prod.fst) t

theorem insertAll_cons {fuel : Nat} {rest : List α} {t' : HashTbl α} {success : Bool}
    (ran : naClContainerHashTblInsert f calloc fuel t datum = some (t', success)) :
    insertAll f calloc fuel (datum :: rest) t = insertAll f calloc fuel rest t' := by
  rw [insertAll, foldlM_cons, ran]
  rfl

/-- With `least` places to look at, all of `data` move into `t`. -/
def Moves (f : HashFunctor α) (calloc : Nat → Bool) (least : Nat) (data : List α) (t : HashTbl α) : Prop :=
  ∃ t', Consistent f t' ∧ t'.live.Perm (data ++ t.live) ∧
    ∀ fuel, least ≤ fuel → insertAll f calloc fuel data t = some t'

theorem Moves.cons {calloc : Nat → Bool} {least : Nat} {datum : α} {rest : List α}
    {next : HashTbl α} {success : Bool} (inserted : Inserted f t datum next)
    (ran : ∀ fuel, least ≤ fuel → naClContainerHashTblInsert f calloc fuel t datum = some (next, success))
    (moves : Moves f calloc least rest next) : Moves f calloc least (datum :: rest) t := by
  obtain ⟨t', consistent, live, later⟩ := moves
  refine ⟨t', consistent, live.trans ?_, fun fuel enough => ?_⟩
  · exact (inserted.live.append_left rest).trans perm_middle
  · exact (insertAll_cons (ran fuel enough)).trans (later fuel enough)

theorem insertAll_fits (calloc : Nat → Bool) (data : List α) (ok : Consistent f t)
    (few : 2 * (t.live.length + data.length) < t.numBuckets) : Moves f calloc t.numBuckets data t := by
  induction data generalizing t with
  | nil => exact ⟨t, ok, List.Perm.refl _, fun _ _ => rfl⟩
  | cons datum rest ih =>
    rw [length_cons] at few
    obtain ⟨next, inserted, size, ran⟩ := insert_fits calloc datum ok (by omega)
    have grown := inserted.live.length_eq
    rw [length_cons] at grown
    have later := ih inserted.consistent (by omega)
    rw [size] at later
    exact later.cons inserted ran

theorem insert_of_moves {least : Nat} (ok : Consistent f t)
    (room : ∃ slot ∈ t.bucket, slot.datum? = none) (probe : t.numBuckets ≤ least)
    (moves : ∀ data : List α, ∀ fresh : HashTbl α, Consistent f fresh →
      fresh.numBuckets = 2 * t.numBuckets → fresh.live = [] → data.length = t.live.length + 1 →
      Moves f calloc least data fresh) :
    ∃ t' success, Inserted f t obj t' ∧ ∀ fuel, least + 1 ≤ fuel →
      naClContainerHashTblInsert f calloc fuel t obj = some (t', success) := by
  obtain ⟨put, inserted, size, unfolded⟩ := insert_unfold calloc obj ok room
  suffices checked : ∃ t' success, Consistent f t' ∧ t'.live.Perm put.live ∧ ∀ fuel, least ≤ fuel →
      naClContainerHashTblCheckLoad (naClContainerHashTblInsert f calloc fuel) calloc put = some (t', success) by
    obtain ⟨t', success, consistent, live, ran⟩ := checked
    refine ⟨t', success, ⟨consistent, live.trans inserted.live⟩, fun fuel enough => ?_⟩
    obtain ⟨fuel, rfl⟩ : ∃ n, fuel = n + 1 := ⟨fuel - 1, by omega⟩
    rw [unfolded fuel (by omega), ran fuel (by omega)]
  have stays : ∀ success : Bool, ∃ t' success', Consistent f t' ∧ t'.live.Perm put.live ∧
      ∀ fuel, least ≤ fuel → some (put, success) = some (t', success') :=
    fun success => ⟨put, success, inserted.consistent, List.Perm.refl _, fun _ _ => rfl⟩
  unfold naClContainerHashTblCheckLoad
  split
  · exact stays true
  simp only
  split
  · exact stays false
  rename_i larger
  split
  · exact stays false
  have small := ok.small
  have fits : 2 * put.numBuckets < 2 ^ 32 := by
    by_contra wraps
    rw [Nat.mod_eq_sub_mod (by omega), Nat.mod_eq_of_lt (by omega)] at larger
    omega
  obtain ⟨fresh, empty, width⟩ := @makeBucket_consistent _ f _ fits fun positive =>
    Nat.Coprime.mul_right (by decide) (inserted.consistent.coprime fun zero => positive (by omega))
  obtain ⟨t', consistent, live, ran⟩ := moves put.live _ fresh (by rw [width, size]) empty
    (by rw [inserted.live.length_eq, length_cons])
  rw [empty, append_nil] at live
  refine ⟨t', true, consistent, live, fun fuel enough => ?_⟩
  rw [Nat.mod_eq_of_lt fits]
  exact congrArg _ (ran fuel enough)

theorem insert_half (calloc : Nat → Bool) (obj : α) (ok : Consistent f t)
    (few : 2 * (t.live.length + 1) ≤ t.numBuckets) :
    ∃ t' success, Inserted f t obj t' ∧ ∀ fuel, 2 * t.numBuckets + 1 ≤ fuel →
      naClContainerHashTblInsert f calloc fuel t obj = some (t', success) := by
  refine insert_of_moves ok (exists_free (by omega)) (by omega) fun data fresh consistent => ?_
  intro width empty length
  rw [← width]
  exact insertAll_fits calloc data consistent (by rw [empty, width, length_nil]; omega)

theorem insertAll_half (calloc : Nat → Bool) (data : List α) (ok : Consistent f t)
    (few : 2 * (t.live.length + data.length) ≤ t.numBuckets) : Moves f calloc (2 * t.numBuckets + 1) data t := by
  induction data generalizing t with
  | nil => exact ⟨t, ok, List.Perm.refl _, fun _ _ => rfl⟩
  | cons datum rest ih =>
    rw [length_cons] at few
    cases rest with
    | nil =>
      -- only the last entry can fill half of the table, and make it grow once more
      obtain ⟨t', success, inserted, ran⟩ := insert_half calloc datum ok (by omega)
      refine Moves.cons inserted ran ?_
      exact ⟨t', inserted.consistent, List.Perm.refl _, fun _ _ => rfl⟩
    | cons second others =>
      rw [length_cons] at few
      obtain ⟨next, inserted, size, ran⟩ := insert_fits calloc datum ok (by omega)
      have grown := inserted.live.length_eq
      rw [length_cons] at grown
      have later := ih inserted.consistent (by rw [length_cons]; omega)
      rw [size] at later
      exact later.cons inserted fun fuel enough => ran fuel (by omega)

theorem insert_inserts (calloc : Nat → Bool) (obj : α) (ok : Consistent f t)
    (room : ∃ slot ∈ t.bucket, slot.datum? = none) :
    ∃ t' success, Inserted f t obj t' ∧ ∀ fuel, 2 * (2 * t.numBuckets) + 2 ≤ fuel →
      naClContainerHashTblInsert f calloc fuel t obj = some (t', success) := by
  refine insert_of_moves ok room (by omega) fun data fresh consistent => ?_
  intro width empty length
  have most : t.live.length < t.numBuckets := by
    obtain ⟨put, inserted, size, -⟩ := insert_unfold calloc obj ok room
    have : put.live.length ≤ put.numBuckets := length_filterMap_le _ _
    rw [inserted.live.length_eq, length_cons] at this
    omega
  rw [← width]
  exact insertAll_half calloc data consistent (by rw [empty, width, length_nil]; omega)

end Glopen.Container

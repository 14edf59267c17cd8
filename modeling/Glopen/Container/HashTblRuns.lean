import Mathlib.Data.Nat.Prime.Basic
import Glopen.Container.Consistent

/-! Runs of table operations against a bag of entries. A search for a key that is not there ends
only at a bucket that was never used, and removals do not bring those back. -/
namespace Glopen.Container

open Probing Option Multiset
variable {α : Type} {f : HashFunctor α} {t : HashTbl α} {key : α}

/-- What `Find` can return. -/
inductive Found (f : HashFunctor α) (t : HashTbl α) (key : α) : Nat → Prop
  | entry (idx : Nat) (datum : α) (here : t.bucket[idx]? = some (.used datum))
      (equal : f.orderCmp datum key = 0) : Found f t key idx
  | missing (absent : ∀ datum ∈ t.live, f.orderCmp datum key ≠ 0) : Found f t key t.numBuckets

theorem find_of_stop {k : Nat} (ends : t.slotIs (endsFind f key) (t.place (f.hash key) k) = true)
    (answer : ∀ m ≤ k, t.bucket[t.place (f.hash key) m]? = some .unused →
      ∀ datum ∈ t.live, f.orderCmp datum key ≠ 0) :
    ∃ idx, Found f t key idx ∧ ∀ fuel, k < fuel → naClContainerHashTblFind f fuel t key = some idx := by
  obtain ⟨m, le, reached, before⟩ := exists_first ends
  have found : ∀ fuel, k < fuel → firstStop (t.slotIs (endsFind f key)) (hashNext t.numBuckets) fuel
      (f.hash key % t.numBuckets) = some (t.place (f.hash key) m) :=
    fun fuel enough => firstStop_eq_some (by omega) reached before
  obtain ⟨slot, here, stops⟩ := HashTbl.slotIs_iff.mp reached
  have here : t.bucket[t.place (f.hash key) m]? = some slot := here
  cases slot with
  | unused =>
    refine ⟨t.numBuckets, .missing (answer m le here), fun fuel enough => ?_⟩
    rw [naClContainerHashTblFind, found fuel enough, map_some, HashTbl.slotIs, here]
    rfl
  | used datum =>
    refine ⟨t.place (f.hash key) m, .entry _ datum here (of_decide_eq_true stops), fun fuel enough => ?_⟩
    rw [naClContainerHashTblFind, found fuel enough, map_some, HashTbl.slotIs, here]
    rfl
  | deleted => cases stops

theorem find_present (ok : Consistent f t) {datum : α} (member : datum ∈ t.live)
    (equal : f.orderCmp datum key = 0) : ∃ idx least, Found f t key idx ∧
      ∀ fuel, least ≤ fuel → naClContainerHashTblFind f fuel t key = some idx := by
  obtain ⟨i, here⟩ := HashTbl.mem_live.mp member
  obtain ⟨k, ends, before⟩ := ok.path i datum here
  rw [f.hash_eq datum key equal] at ends before
  have stops : t.slotIs (endsFind f key) (t.place (f.hash key) k) = true :=
    HashTbl.slotIs_iff.mpr ⟨.used datum, by rw [ends, here], decide_eq_true equal⟩
  obtain ⟨idx, found, ran⟩ := find_of_stop stops fun m le unused => by
    rcases Nat.lt_or_eq_of_le le with less | same
    · exact absurd unused (before m less)
    · rw [same, ends, here] at unused
      cases unused
  exact ⟨idx, k + 1, found, ran⟩

theorem find_unused (ok : Consistent f t) (unused : Slot.unused ∈ t.bucket) : ∃ idx least, Found f t key idx ∧
      ∀ fuel, least ≤ fuel → naClContainerHashTblFind f fuel t key = some idx := by
  by_cases present : ∃ datum ∈ t.live, f.orderCmp datum key = 0
  · obtain ⟨datum, member, equal⟩ := present
    exact find_present ok member equal
  · obtain ⟨i, here⟩ := List.mem_iff_getElem?.mp unused
    obtain ⟨inside, -⟩ := List.getElem?_eq_some_iff.mp here
    obtain ⟨k, less, ends⟩ := ok.visits inside (f.hash key)
    have stops : t.slotIs (endsFind f key) (t.place (f.hash key) k) = true :=
      HashTbl.slotIs_iff.mpr ⟨.unused, by rw [ends, here], rfl⟩
    obtain ⟨idx, found, ran⟩ := find_of_stop stops fun m le unused datum member equal =>
      present ⟨datum, member, equal⟩
    exact ⟨idx, k + 1, found, ran⟩

theorem find_never_ends (unused : Slot.unused ∉ t.bucket)
    (absent : ∀ datum ∈ t.live, f.orderCmp datum key ≠ 0) (fuel : Nat) :
    naClContainerHashTblFind f fuel t key = none := by
  have never : ∀ k, t.slotIs (endsFind f key) (t.place (f.hash key) k) = false := by
    intro k
    by_contra reached
    obtain ⟨slot, here, stops⟩ := HashTbl.slotIs_iff.mp (Bool.not_eq_false _ ▸ reached)
    cases slot with
    | unused => exact unused (List.mem_of_getElem? here)
    | used datum => exact absent datum (HashTbl.mem_live.mpr ⟨_, here⟩) (of_decide_eq_true stops)
    | deleted => cases stops
  rw [naClContainerHashTblFind, firstStop_eq_none never, map_none]

inductive BagStep (f : HashFunctor α) : Op α → Reply α → Multiset α → Multiset α → Prop
  | insert {obj : α} {calloc : Nat → Bool} {success : Bool} {bag : Multiset α} :
      BagStep f (.insert obj calloc) (.inserted success) bag (obj ::ₘ bag)
  | find {key datum : α} {bag : Multiset α} (member : datum ∈ bag)
      (equal : f.orderCmp datum key = 0) : BagStep f (.find key) (.entry datum) bag bag
  | remove {op : Op α} {key datum : α} {bag : Multiset α} (keyed : op = .extract key ∨ op = .erase key)
      (equal : f.orderCmp datum key = 0) : BagStep f op (.entry datum) (datum ::ₘ bag) bag
  | miss {op : Op α} {key : α} {bag : Multiset α}
      (keyed : op = .find key ∨ op = .extract key ∨ op = .erase key)
      (absent : ∀ datum ∈ bag, f.orderCmp datum key ≠ 0) : BagStep f op .nothing bag bag
  | removeAt {op : Op α} {idx : Nat} {datum : α} {bag : Multiset α}
      (place : op = .extractAt idx ∨ op = .eraseAt idx) :
      BagStep f op (.entry datum) (datum ::ₘ bag) bag
  | passAt {op : Op α} {idx : Nat} {bag : Multiset α}
      (place : op = .extractAt idx ∨ op = .eraseAt idx) : BagStep f op .nothing bag bag

inductive BagRun (f : HashFunctor α) : List (Op α) → List (Reply α) → Multiset α → Multiset α → Prop
  | nil {bag : Multiset α} : BagRun f [] [] bag bag
  | cons {op : Op α} {reply : Reply α} {ops : List (Op α)} {replies : List (Reply α)}
      {bag bag' bag'' : Multiset α} (first : BagStep f op reply bag bag')
      (rest : BagRun f ops replies bag' bag'') : BagRun f (op :: ops) (reply :: replies) bag bag''

/-- When an operation ends: `Insert` needs a bucket that is not in use, a search one that was
never used or an equal entry. -/
def Ready (f : HashFunctor α) (t : HashTbl α) : Op α → Prop
  | .insert _ _ => ∃ slot ∈ t.bucket, slot.datum? = none
  | .find key | .extract key | .erase key =>
    Slot.unused ∈ t.bucket ∨ ∃ datum ∈ t.live, f.orderCmp datum key = 0
  | .extractAt _ | .eraseAt _ => True

theorem removeAt_cases (ok : Consistent f t) (idx : Nat) :
    extractAt t idx = eraseAt t idx ∧ Consistent f (extractAt t idx).1 ∧
      ((extractAt t idx).2 = .nothing ∧ (extractAt t idx).1.live.Perm t.live ∨
        ∃ datum, t.bucket[idx]? = some (.used datum) ∧ (extractAt t idx).2 = .entry datum ∧
          t.live.Perm (datum :: (extractAt t idx).1.live)) := by
  unfold extractAt eraseAt
  split
  · exact ⟨rfl, ok, .inl ⟨rfl, List.Perm.refl _⟩⟩
  · obtain ⟨consistent, live⟩ := ok.bury idx
    refine ⟨rfl, consistent, ?_⟩
    simp only [naClContainerHashTblIterExtract]
    cases star : naClContainerHashTblIterStar t idx with
    | none =>
      rw [star] at live
      exact .inl ⟨rfl, live.symm⟩
    | some datum =>
      rw [star] at live
      obtain ⟨slot, here, holds⟩ := bind_eq_some_iff.mp star
      refine .inr ⟨datum, ?_, rfl, live⟩
      cases slot with
      | used other => rw [here, some.inj holds]
      | unused => cases holds
      | deleted => cases holds

theorem find_ready (ok : Consistent f t)
    (ready : Slot.unused ∈ t.bucket ∨ ∃ datum ∈ t.live, f.orderCmp datum key = 0) :
    ∃ idx least, Found f t key idx ∧
      ∀ fuel, least ≤ fuel → naClContainerHashTblFind f fuel t key = some idx := by
  rcases ready with unused | ⟨datum, member, equal⟩
  · exact find_unused ok unused
  · exact find_present ok member equal

theorem found_removed {idx : Nat} {op : Op α} (ok : Consistent f t) (found : Found f t key idx)
    (keyed : op = .extract key ∨ op = .erase key) : Consistent f (extractAt t idx).1 ∧
      BagStep f op (extractAt t idx).2 (t.live : Multiset α) ((extractAt t idx).1.live) := by
  obtain ⟨-, consistent, outcome⟩ := removeAt_cases ok idx
  refine ⟨consistent, ?_⟩
  cases found with
  | entry _ datum here equal =>
    rcases outcome with ⟨nothing, -⟩ | ⟨other, here', reply, live⟩
    · exfalso
      obtain ⟨inside, -⟩ := List.getElem?_eq_some_iff.mp here
      have valid : ¬ naClContainerHashTblIterAtEnd t idx = true := by
        rw [naClContainerHashTblIterAtEnd, decide_eq_true_eq]
        exact Nat.not_le.mpr inside
      rw [extractAt, if_neg valid] at nothing
      simp only [naClContainerHashTblIterExtract, naClContainerHashTblIterStar, here] at nothing
      cases nothing
    · rw [here] at here'
      cases Slot.used.inj (some.inj here')
      rw [reply, Multiset.coe_eq_coe.mpr live, ← cons_coe]
      exact .remove keyed equal
  | missing absent =>
    rw [extractAt, if_pos (by simp [naClContainerHashTblIterAtEnd])]
    exact .miss (.inr keyed) fun datum member => absent datum (Multiset.mem_coe.mp member)

theorem step_ready (op : Op α) (ok : Consistent f t) (ready : Ready f t op) :
    ∃ t' reply least, (∀ fuel, least ≤ fuel → step f fuel t op = some (t', reply)) ∧
      Consistent f t' ∧ BagStep f op reply (t.live : Multiset α) t'.live := by
  cases op with
  | insert obj calloc =>
    obtain ⟨t', success, inserted, ran⟩ := insert_inserts calloc obj ok ready
    refine ⟨t', .inserted success, 2 * (2 * t.numBuckets) + 2, fun fuel enough => ?_, inserted.consistent, ?_⟩
    · rw [step, ran fuel enough, map_some]
    · rw [Multiset.coe_eq_coe.mpr inserted.live, ← cons_coe]
      exact .insert
  | find key =>
    obtain ⟨idx, least, found, ran⟩ := find_ready ok ready
    refine ⟨t, .ofOption (naClContainerHashTblIterStar t idx), least, fun fuel enough => ?_, ok, ?_⟩
    · rw [step, ran fuel enough, map_some]
    · cases found with
      | entry _ datum here equal =>
        rw [naClContainerHashTblIterStar, here]
        exact .find (Multiset.mem_coe.mpr (HashTbl.mem_live.mpr ⟨idx, here⟩)) equal
      | missing absent =>
        have outside : t.bucket[t.numBuckets]? = none := List.getElem?_eq_none le_rfl
        rw [naClContainerHashTblIterStar, outside]
        exact .miss (.inl rfl) fun datum member => absent datum (Multiset.mem_coe.mp member)
  | extract key =>
    obtain ⟨idx, least, found, ran⟩ := find_ready ok ready
    obtain ⟨consistent, bag⟩ := found_removed ok found (.inl rfl)
    refine ⟨_, _, least, fun fuel enough => ?_, consistent, bag⟩
    rw [step, ran fuel enough, map_some]
  | erase key =>
    obtain ⟨idx, least, found, ran⟩ := find_ready ok ready
    obtain ⟨consistent, bag⟩ := found_removed ok found (.inr rfl)
    refine ⟨_, _, least, fun fuel enough => ?_, consistent, bag⟩
    rw [step, ran fuel enough, map_some, ← (removeAt_cases ok idx).1]
  | extractAt idx =>
    obtain ⟨-, consistent, outcome⟩ := removeAt_cases ok idx
    refine ⟨(extractAt t idx).1, (extractAt t idx).2, 0, fun fuel _ => rfl, consistent, ?_⟩
    rcases outcome with ⟨reply, live⟩ | ⟨datum, -, reply, live⟩
    · rw [reply, Multiset.coe_eq_coe.mpr live]
      exact .passAt (.inl rfl)
    · rw [reply, Multiset.coe_eq_coe.mpr live, ← cons_coe]
      exact .removeAt (.inl rfl)
  | eraseAt idx =>
    obtain ⟨same, consistent, outcome⟩ := removeAt_cases ok idx
    rw [same] at consistent outcome
    refine ⟨(eraseAt t idx).1, (eraseAt t idx).2, 0, fun fuel _ => rfl, consistent, ?_⟩
    rcases outcome with ⟨reply, live⟩ | ⟨datum, -, reply, live⟩
    · rw [reply, Multiset.coe_eq_coe.mpr live]
      exact .passAt (.inr rfl)
    · rw [reply, Multiset.coe_eq_coe.mpr live, ← cons_coe]
      exact .removeAt (.inr rfl)

def ReadyRun (f : HashFunctor α) : List (Op α) → HashTbl α → Prop
  | [], _ => True
  | op :: rest, t => Ready f t op ∧
    ∀ fuel t' reply, step f fuel t op = some (t', reply) → ReadyRun f rest t'

theorem run_ready (ops : List (Op α)) (ok : Consistent f t) (ready : ReadyRun f ops t) :
    ∃ t' replies least, (∀ fuel, least ≤ fuel → runOps f fuel ops t = some (t', replies)) ∧
      BagRun f ops replies (t.live : Multiset α) t'.live := by
  induction ops generalizing t with
  | nil => exact ⟨t, [], 0, fun _ _ => rfl, .nil⟩
  | cons op rest ih =>
    obtain ⟨next, reply, least, ran, consistent, bag⟩ := step_ready op ok ready.1
    have later := ready.2 least next reply (ran least le_rfl)
    obtain ⟨t', replies, least', ran', run⟩ := ih consistent later
    refine ⟨t', reply :: replies, max least least', fun fuel enough => ?_, .cons bag run⟩
    rw [runOps, ran fuel (by omega)]
    change (runOps f fuel rest next).bind _ = _
    rw [ran' fuel (by omega)]
    rfl

theorem rounded_size {n : Nat} (small : n < 2 ^ 32) :
    (if n % hashTableStride = 0 then (n + 1) % 2 ^ 32 else n) < 2 ^ 32 ∧
      ((if n % hashTableStride = 0 then (n + 1) % 2 ^ 32 else n) ≠ 0 →
        Nat.Coprime hashTableStride (if n % hashTableStride = 0 then (n + 1) % 2 ^ 32 else n)) := by
  have prime : Nat.Prime hashTableStride := by decide
  by_cases multiple : n % hashTableStride = 0
  · rw [if_pos multiple, prime.coprime_iff_not_dvd]
    simp only [hashTableStride] at *
    omega
  · rw [if_neg multiple, prime.coprime_iff_not_dvd]
    simp only [hashTableStride] at *
    omega

theorem ctor_consistent {calloc : Nat → Bool} {numBuckets : Nat} (f : HashFunctor α)
    (made : naClContainerHashTblCtor calloc numBuckets = some t) : Consistent f t ∧ t.live = [] := by
  unfold naClContainerHashTblCtor at made
  have small : (if numBuckets % 2 ^ 32 < hashTableMinBuckets then hashTableMinBuckets
      else numBuckets % 2 ^ 32) < 2 ^ 32 := by
    split
    · decide
    · exact Nat.mod_lt _ (by decide)
  simp only at made
  generalize (if numBuckets % 2 ^ 32 < hashTableMinBuckets then hashTableMinBuckets
    else numBuckets % 2 ^ 32) = n at made small
  obtain ⟨bound, coprime⟩ := rounded_size small
  generalize (if n % hashTableStride = 0 then (n + 1) % 2 ^ 32 else n) = m at made bound coprime
  split at made
  · cases made
    obtain ⟨consistent, live, -⟩ := makeBucket_consistent bound coprime
    exact ⟨consistent, live⟩
  · cases made

/-- Every run from a new table whose operations are ready ends, and answers like a bag of the
entries inserted and not yet removed. -/
theorem hash_table_refines_bag (f : HashFunctor α) {calloc : Nat → Bool} {numBuckets : Nat}
    (made : naClContainerHashTblCtor calloc numBuckets = some t) (ops : List (Op α)) (ready : ReadyRun f ops t) :
    ∃ t' replies least, (∀ fuel, least ≤ fuel → runOps f fuel ops t = some (t', replies)) ∧
      BagRun f ops replies 0 t'.live := by
  obtain ⟨consistent, empty⟩ := ctor_consistent f made
  obtain ⟨t', replies, least, ran, run⟩ := run_ready ops consistent ready
  rw [empty] at run
  exact ⟨t', replies, least, ran, run⟩

def numberFunctor : HashFunctor Nat where
  orderCmp := fun datum key => datum - key
  hash := fun n => n
  hash_eq := by
    intro datum key equal
    omega

def oneEntry (slot : Slot Nat) (count : Nat) : HashTbl Nat :=
  ⟨(List.replicate 32 .unused).set 5 slot, count⟩

theorem extracted_is_gone : ∃ t' replies least, (∀ fuel, least ≤ fuel → runOps numberFunctor fuel
      [.insert 5 fun _ => true, .find 5, .extract 5, .find 5] (oneEntry .unused 0) = some (t', replies)) ∧
    BagRun numberFunctor [.insert 5 fun _ => true, .find 5, .extract 5, .find 5] replies 0
      t'.live := by
  refine @hash_table_refines_bag Nat (oneEntry .unused 0) numberFunctor (fun _ => true) 7 rfl _ ?_
  refine ⟨⟨.unused, by decide, rfl⟩, fun fuel t' reply ran => ?_⟩
  cases fuel with
  | zero => cases ran
  | succ fuel =>
    have inserts : step numberFunctor (fuel + 1) (oneEntry .unused 0)
      (.insert 5 fun _ => true) = some (oneEntry (.used 5) 1, .inserted true) := rfl
    cases some.inj (inserts.symm.trans ran)
    refine ⟨Or.inr ⟨5, by decide, by decide⟩, fun fuel t' reply ran => ?_⟩
    cases fuel with
    | zero => cases ran
    | succ fuel =>
      have finds : step numberFunctor (fuel + 1) (oneEntry (.used 5) 1) (.find 5) =
        some (oneEntry (.used 5) 1, .entry 5) := rfl
      cases some.inj (finds.symm.trans ran)
      refine ⟨Or.inr ⟨5, by decide, by decide⟩, fun fuel t' reply ran => ?_⟩
      cases fuel with
      | zero => cases ran
      | succ fuel =>
        have extracts : step numberFunctor (fuel + 1) (oneEntry (.used 5) 1) (.extract 5) =
          some (oneEntry .deleted 0, .entry 5) := rfl
        cases some.inj (extracts.symm.trans ran)
        exact ⟨Or.inl (by decide), fun _ _ _ _ => trivial⟩

def churn (numbers : List Nat) : List (Op Nat) :=
  numbers.flatMap fun n => [.insert n fun _ => true, .extract n]

/-- After each of 32 numbers was inserted and extracted again, every bucket is a tombstone: a
table of 32 buckets is empty, and a search in it never ends. -/
theorem tombstones_starve_find : ∃ t t' replies, naClContainerHashTblCtor (fun _ => true) 7 = some t ∧
    runOps numberFunctor 32 (churn (List.range 32)) t = some (t', replies) ∧ t'.live = [] ∧
    ∀ fuel, naClContainerHashTblFind numberFunctor fuel t' 0 = none := by
  have churned : (runOps numberFunctor 32 (churn (List.range 32))
      (naClContainerHashTblMakeBucket 32)).map (fun run => (run.1.bucket, run.1.numEntries)) =
        some (List.replicate 32 .deleted, 0) := by decide +kernel
  obtain ⟨⟨t', replies⟩, ran, same⟩ := Option.map_eq_some_iff.mp churned
  obtain ⟨bucket, numEntries⟩ := t'
  simp only [Prod.mk.injEq] at same
  obtain ⟨rfl, rfl⟩ := same
  refine ⟨naClContainerHashTblMakeBucket 32, _, replies, rfl, ran, rfl, fun fuel => ?_⟩
  refine find_never_ends (by decide) (fun datum member => ?_) fuel
  exact absurd (show datum ∈ [] from member) List.not_mem_nil

end Glopen.Container

import Glopen.Cache.IndexLookup

/-! When a lookup ends: the runs of `MatchEntry`, with the repairs that they make to a chain. -/
namespace Glopen.Cache

open Run List
variable {s t : CacheAddr} {as : List CacheAddr} {record : EntryRecord} {a next : CacheAddr}

section Paths

inductive Path (entries : CacheAddr → Option EntryRecord) :
    CacheAddr → List CacheAddr → CacheAddr → Prop where
  | nil (a : CacheAddr) : Path entries a [] a
  | cons {a t : CacheAddr} {as : List CacheAddr} {record : EntryRecord} :
      entries a = some record → Path entries record.next as t → Path entries a (a :: as) t

variable {entries entries' : CacheAddr → Option EntryRecord}

theorem Path.snoc (path : Path entries s as t)
    (there : entries t = some record) : Path entries s (as ++ [t]) record.next := by
  induction path with
  | nil a => exact .cons there (.nil _)
  | cons here _ ih => exact .cons here (ih there)

theorem Path.congr (path : Path entries s as t) (same : ∀ a ∈ as, entries' a = entries a) :
    Path entries' s as t := by
  induction path with
  | nil a => exact .nil a
  | cons here _ ih =>
    exact .cons ((same _ mem_cons_self).trans here) (ih fun a member =>
      same a (mem_cons_of_mem _ member))

theorem Path.next_mem (path : Path entries s as t) (member : a ∈ as) :
    ∃ record, entries a = some record ∧ (record.next ∈ as ∨ record.next = t) := by
  induction path with
  | nil a => exact absurd member not_mem_nil
  | @cons b t bs record here rest ih =>
    rcases mem_cons.mp member with rfl | later
    · refine ⟨record, here, ?_⟩
      cases rest with
      | nil _ => exact .inr rfl
      | cons _ _ => exact .inl (mem_cons_of_mem _ mem_cons_self)
    · obtain ⟨record, there, next⟩ := ih later
      exact ⟨record, there, next.imp (mem_cons_of_mem _) id⟩

theorem Path.relink {last : CacheAddr} (path : Path entries s (as ++ [last]) t)
    (nodup : (as ++ [last]).Nodup) (same : ∀ a ∈ as, entries' a = entries a)
    (linked : entries' last = (entries last).map fun record => { record with next := next }) :
    Path entries' s (as ++ [last]) next := by
  induction as generalizing s with
  | nil =>
    cases path with
    | cons here rest =>
      rw [here] at linked
      exact .cons linked (.nil _)
  | cons a as ih =>
    cases path with
    | cons here rest =>
      refine .cons ((same _ mem_cons_self).trans here) ?_
      exact ih rest (nodup_cons.mp nodup).2 fun b member => same b (mem_cons_of_mem _ member)

end Paths

namespace EntryIndex

section Chains

variable (index : EntryIndex) (bucket : UInt32)

/-- The addresses along the chain of a bucket, in the order of their `next`. -/
def chainAt : Nat → CacheAddr
  | 0 => index.table bucket
  | k + 1 => ((index.entries (chainAt k)).map EntryRecord.next).getD 0

def isClean (a : CacheAddr) : Bool :=
  match index.newEntry a with
  | .ok (_, false) => true
  | _ => false

def isInvalid (a : CacheAddr) : Bool :=
  match index.newEntry a with
  | .ok (_, true) => true
  | _ => false

/-- The clean entries that a lookup has passed, before it comes to the place `k` of the chain. -/
def cleanBefore (k : Nat) : List CacheAddr :=
  ((List.range k).map (index.chainAt bucket)).filter index.isClean

variable (key : List UInt8) (hash : UInt32)

inductive Halts (k : Nat) : Prop where
  | end_ : (index.chainAt bucket k).isInitialized = false → Halts k
  | unusable {error : Int} : index.newEntry (index.chainAt bucket k) = .error error → Halts k
  | found {record : EntryRecord} : index.newEntry (index.chainAt bucket k) = .ok (record, false) →
      record.isSameEntry key hash = true ∨ index.update (index.chainAt bucket k) record = false →
      Halts k
  | broken {record : EntryRecord} : index.newEntry (index.chainAt bucket k) = .ok (record, true) →
      (index.nodes record.rankingsNode).any NodeRecord.removable = false → Halts k
  | again {i : Nat} {record earlier : EntryRecord} :
      index.newEntry (index.chainAt bucket k) = .ok (record, true) → i < k →
      index.newEntry (index.chainAt bucket i) = .ok (earlier, true) →
      earlier.rankingsNode = record.rankingsNode → Halts k

/-- What a lookup has made of the index, when it comes to the place `k` for the first time. -/
structure Repaired (k : Nat) (after : EntryIndex) : Prop where
  same : after.mask = index.mask ∧ after.opened = index.opened ∧
    after.currentEntryId = index.currentEntryId ∧ after.disabled = false
  buckets : ∀ b, b ≠ bucket → after.table b = index.table b
  path : Path after.entries (after.table bucket) (index.cleanBefore bucket k)
    (index.chainAt bucket k)
  nodup : (index.cleanBefore bucket k).Nodup
  passed : ∀ c ∈ index.cleanBefore bucket k, ∃ record next,
    c.isInitialized = true ∧ index.newEntry c = .ok (record, false) ∧
      record.isSameEntry key hash = false ∧ index.update c record = true ∧ after.entries c = some { record with next := next } ∧
      (index.opened c = true ∨ saneNext next = true)
  gone : ∀ i < k, ∀ record, index.newEntry (index.chainAt bucket i) = .ok (record, true) →
    after.entries (index.chainAt bucket i) = none ∧ after.nodes record.rankingsNode = none
  others : ∀ a, a ∉ index.cleanBefore bucket k →
    (∀ i < k, index.isInvalid (index.chainAt bucket i) = true → a ≠ index.chainAt bucket i) →
    after.entries a = index.entries a
  nodes : ∀ n, after.nodes n = index.nodes n ∨ after.nodes n = none ∧ ∃ i < k, ∃ record,
    index.newEntry (index.chainAt bucket i) = .ok (record, true) ∧ record.rankingsNode = n

end Chains

variable {index after : EntryIndex} {dirty : Bool} {c : CacheAddr} {key : List UInt8} {hash : UInt32}
  {error : Int} {bucket : UInt32} {k : Nat}

theorem newEntry_ok : index.newEntry a = .ok (record, dirty) ↔ index.entries a = some record ∧
      (index.opened a = true ∧ dirty = false ∨
        index.opened a = false ∧ a.isBlockOf .block256 = true ∧ record.sanityCheck = true ∧
          ∃ node, index.nodes record.rankingsNode = some node ∧ node.sane = true ∧
            node.isDirty index.currentEntryId = dirty) := by
  rw [newEntry]
  cases opened : index.opened a with
  | true =>
    cases index.entries a with
    | none => simp
    | some held =>
      simp only [if_true, Except.ok.injEq, Prod.mk.injEq, Option.some.injEq, Bool.true_eq_false,
        false_and, or_false, true_and]
      exact and_congr Iff.rfl eq_comm
  | false =>
    cases block : a.isBlockOf .block256 with
    | false => simp
    | true =>
      cases index.entries a with
      | none => simp
      | some held =>
        simp only [Bool.not_true, Bool.false_eq_true, if_false, Option.some.injEq, false_and, false_or, true_and]
        cases sane : held.sanityCheck with
        | false =>
          refine iff_of_false (fun failed => by cases failed) ?_
          rintro ⟨rfl, sane', -⟩
          rw [sane] at sane'
          cases sane'
        | true =>
          simp only [Bool.not_true, Bool.false_eq_true, if_false]
          cases loaded : index.nodes held.rankingsNode with
          | none =>
            refine iff_of_false (fun failed => by cases failed) ?_
            rintro ⟨rfl, -, node, loaded', -⟩
            rw [loaded] at loaded'
            cases loaded'
          | some node =>
            simp only
            constructor
            · intro accepted
              split at accepted
              · cases accepted
              · rename_i links
                cases accepted
                exact ⟨rfl, sane, node, loaded, by simpa using links, rfl⟩
            · rintro ⟨rfl, -, node', loaded', links, rfl⟩
              rw [loaded] at loaded'
              cases loaded'
              rw [links]
              rfl

theorem sanityCheck_next (record : EntryRecord)
    (sane : record.sanityCheck = true) (sane_next : saneNext next = true) :
    ({ record with next := next } : EntryRecord).sanityCheck = true := by
  rw [EntryRecord.sanityCheck] at sane ⊢
  split at sane
  · cases sane
  · rename_i fields
    rw [if_neg fields]
    split at sane
    · cases sane
    · rename_i node
      rw [if_neg node]
      exact sane_next

theorem saneNext_of_sanityCheck (sane : record.sanityCheck = true) : saneNext record.next = true := by
  rw [EntryRecord.sanityCheck] at sane
  split at sane
  · cases sane
  · split at sane
    · cases sane
    · exact sane

theorem newEntry_relinked (opened : after.opened = index.opened)
    (current : after.currentEntryId = index.currentEntryId) (clean : index.newEntry c = .ok (record, false))
    (there : after.entries c = some { record with next := next })
    (sane : index.opened c = true ∨ saneNext next = true)
    (node : index.opened c = false → after.nodes record.rankingsNode = index.nodes record.rankingsNode) :
    after.newEntry c = .ok ({ record with next := next }, false) ∧
      after.update c { record with next := next } = index.update c record := by
  obtain ⟨-, accepted⟩ := newEntry_ok.mp clean
  constructor
  · refine newEntry_ok.mpr ⟨there, ?_⟩
    rw [opened, current]
    rcases accepted with ⟨held, -⟩ | ⟨closed, block, checked, loaded⟩
    · exact .inl ⟨held, rfl⟩
    · refine .inr ⟨closed, block, ?_, ?_⟩
      · refine sanityCheck_next record checked (sane.resolve_left ?_)
        rw [closed]
        exact Bool.false_ne_true
      · simp only
        rw [node closed]
        exact loaded
  · rw [update, update, opened]
    cases closed : index.opened c with
    | true => rfl
    | false =>
      simp only
      rw [node closed]

section Steps

variable {findParent : Bool} {parent : Option CacheAddr}

theorem matchStep_disabled (disabled : index.disabled = true) :
    matchStep key hash findParent ⟨index, a, parent⟩ = .inr (index, none) := by
  rw [matchStep]
  exact if_pos disabled

theorem matchStep_end (enabled : index.disabled = false) (at_end : a.isInitialized = false) :
    matchStep key hash findParent ⟨index, a, parent⟩ =
      .inr (index, if findParent then parent else none) := by
  rw [matchStep]
  simp only [enabled, at_end, Bool.false_eq_true, if_false, Bool.not_false, if_true]

variable (key hash findParent parent)

theorem matchStep_error (enabled : index.disabled = false) (going : a.isInitialized = true)
    (unusable : index.newEntry a = .error error) : matchStep key hash findParent ⟨index, a, parent⟩ =
      .inl (lookup hash (index.setLink (hash &&& index.mask) parent 0)) := by
  rw [matchStep]
  simp only [enabled, going, unusable, Bool.false_eq_true, if_false, Bool.not_true]

theorem matchStep_invalid (enabled : index.disabled = false) (going : a.isInitialized = true)
    (invalid : index.newEntry a = .ok (record, true)) : matchStep key hash findParent ⟨index, a, parent⟩ =
      .inl (lookup hash ((index.setLink (hash &&& index.mask) parent record.next).destroyInvalidEntry
        a record)) := by
  rw [matchStep]
  simp only [enabled, going, invalid, Bool.false_eq_true, if_false, Bool.not_true]

variable {key hash findParent parent}

section

variable (enabled : index.disabled = false) (going : a.isInitialized = true)
  (clean : index.newEntry a = .ok (record, false))
include enabled going clean

theorem matchStep_same (same : record.isSameEntry key hash = true) :
    matchStep key hash findParent ⟨index, a, parent⟩ = .inr (index, if findParent then parent
      else if index.update a record then some a else none) := by
  rw [matchStep]
  simp only [enabled, going, clean, same, Bool.false_eq_true, if_false, Bool.not_true, if_true]

theorem matchStep_other (other : record.isSameEntry key hash = false) :
    matchStep key hash findParent ⟨index, a, parent⟩ =
      if index.update a record then .inl ⟨index, record.next, some a⟩ else .inr (index, none) := by
  rw [matchStep]
  simp only [enabled, going, clean, other, Bool.false_eq_true, if_false, Bool.not_true]

end

end Steps

theorem isClean_iff : index.isClean a = true ↔ ∃ record, index.newEntry a = .ok (record, false) := by
  rw [isClean]
  cases index.newEntry a with
  | error error => simp
  | ok accepted =>
    obtain ⟨record, dirty⟩ := accepted
    cases dirty <;> simp

theorem isInvalid_iff : index.isInvalid a = true ↔ ∃ record, index.newEntry a = .ok (record, true) := by
  rw [isInvalid]
  cases index.newEntry a with
  | error error => simp
  | ok accepted =>
    obtain ⟨record, dirty⟩ := accepted
    cases dirty <;> simp

theorem mem_cleanBefore : c ∈ index.cleanBefore bucket k ↔
    (∃ i < k, index.chainAt bucket i = c) ∧ index.isClean c = true := by
  rw [cleanBefore, mem_filter, List.mem_map]
  simp only [mem_range]

theorem cleanBefore_succ : index.cleanBefore bucket (k + 1) = index.cleanBefore bucket k ++
      if index.isClean (index.chainAt bucket k) then [index.chainAt bucket k] else [] := by
  rw [cleanBefore, range_succ, map_append, filter_append, cleanBefore]
  congr 1
  rw [map_singleton, filter_singleton]
  cases index.isClean (index.chainAt bucket k) <;> rfl

theorem Repaired.node (repaired : index.Repaired bucket key hash k after)
    (clean : index.newEntry c = .ok (record, false)) (closed : index.opened c = false) :
    after.nodes record.rankingsNode = index.nodes record.rankingsNode := by
  rcases repaired.nodes record.rankingsNode with same | ⟨-, i, -, other, invalid, node⟩
  · exact same
  · obtain ⟨-, accepted⟩ := newEntry_ok.mp clean
    obtain ⟨-, accepted'⟩ := newEntry_ok.mp invalid
    rw [closed] at accepted
    simp only [Bool.false_eq_true, false_and, false_or, true_and, Bool.true_eq_false, and_false]
      at accepted accepted'
    obtain ⟨-, -, held, loaded, -, not_dirty⟩ := accepted
    obtain ⟨-, -, -, held', loaded', -, dirty⟩ := accepted'
    rw [node, loaded] at loaded'
    cases loaded'
    rw [not_dirty] at dirty
    cases dirty

structure Passable (index : EntryIndex) (key : List UInt8) (hash : UInt32) (as : List CacheAddr)
    (after : EntryIndex) : Prop where
  same : after.opened = index.opened ∧ after.currentEntryId = index.currentEntryId ∧
    after.disabled = false
  passed : ∀ c ∈ as, ∃ record next, c.isInitialized = true ∧
    index.newEntry c = .ok (record, false) ∧ record.isSameEntry key hash = false ∧
      index.update c record = true ∧ after.entries c = some { record with next := next } ∧
      (index.opened c = true ∨ saneNext next = true)
  node : ∀ {c record}, index.newEntry c = .ok (record, false) → index.opened c = false →
    after.nodes record.rankingsNode = index.nodes record.rankingsNode

theorem Repaired.passable (repaired : index.Repaired bucket key hash k after) :
    Passable index key hash (index.cleanBefore bucket k) after :=
  ⟨repaired.same.2, repaired.passed, repaired.node⟩

theorem Passable.walks (passable : Passable index key hash as after)
    (findParent : Bool) (member : c ∈ as) (parent : Option CacheAddr) : ∃ record, after.entries c = some record ∧
      matchStep key hash findParent ⟨after, c, parent⟩ = .inl ⟨after, record.next, some c⟩ := by
  obtain ⟨record, next, going, clean, other, updated, there, sane⟩ := passable.passed c member
  obtain ⟨opened, current, enabled⟩ := passable.same
  obtain ⟨accepted, update_same⟩ := newEntry_relinked opened current clean there sane (passable.node clean)
  refine ⟨_, there, ?_⟩
  rw [matchStep_other enabled going accepted other, update_same, updated]
  rfl

theorem Passable.walk {bs : List CacheAddr} (passable : Passable index key hash bs after)
    (findParent : Bool) (parent : Option CacheAddr)
    (inside : ∀ a ∈ as, a ∈ bs) (path : Path after.entries s as t) :
    Passes (matchStep key hash findParent) ⟨after, s, parent⟩ ⟨after, t, as.getLast?.or parent⟩ := by
  induction as generalizing s parent with
  | nil =>
    cases path
    exact .refl
  | cons a as ih =>
    cases path with
    | cons here rest =>
      obtain ⟨record, there, pass⟩ := passable.walks findParent (inside a mem_cons_self) parent
      rw [here] at there
      cases there
      have last : (a :: as).getLast?.or parent = as.getLast?.or (some a) := by
        rw [List.getLast?_cons]
        cases as.getLast? <;> rfl
      rw [last]
      exact .head pass (ih (some a) (fun b member => inside b (mem_cons_of_mem _ member)) rest)

theorem Passable.returns (passable : Passable index key hash as after)
    (findParent : Bool) (path : Path after.entries s as t) :
    Passes (matchStep key hash findParent) ⟨after, s, none⟩ ⟨after, t, as.getLast?⟩ := by
  have passes := passable.walk findParent none (fun a member => member) path
  rw [Option.or_none] at passes
  exact passes

theorem Repaired.never (repaired : index.Repaired bucket key hash k after) (findParent : Bool)
    (back : index.chainAt bucket k ∈ index.cleanBefore bucket k) (parent : Option CacheAddr)
    (result : EntryIndex × Option CacheAddr) :
    ¬ Ends (matchStep key hash findParent) ⟨after, index.chainAt bucket k, parent⟩ result := by
  refine never_ends (P := fun state => state.index = after ∧
    state.address ∈ index.cleanBefore bucket k) ?_ ⟨rfl, back⟩ result
  rintro ⟨_, c, parent⟩ ⟨rfl, member⟩
  obtain ⟨record, there, pass⟩ := repaired.passable.walks findParent member parent
  refine ⟨_, pass, rfl, ?_⟩
  obtain ⟨record', there', next⟩ := repaired.path.next_mem member
  rw [there] at there'
  cases there'
  rcases next with inside | last
  · exact inside
  · rw [last]
    exact back

/-- What `setLink` changes, for the last entry of a path. -/
structure Relinked (index : EntryIndex) (bucket : UInt32) (as : List CacheAddr) (next : CacheAddr)
    (after : EntryIndex) : Prop where
  same : after.mask = index.mask ∧ after.opened = index.opened ∧
    after.currentEntryId = index.currentEntryId ∧ after.disabled = index.disabled ∧
    after.nodes = index.nodes
  buckets : ∀ b, b ≠ bucket → after.table b = index.table b
  path : Path after.entries (after.table bucket) as next
  others : ∀ a, a ∉ as → after.entries a = index.entries a
  inside : ∀ a ∈ as, after.entries a = index.entries a ∨
    after.entries a = (index.entries a).map fun record => { record with next := next }

theorem setLink_relinked
    (path : Path index.entries (index.table bucket) as t) (nodup : as.Nodup) (next : CacheAddr) :
    Relinked index bucket as next (index.setLink bucket as.getLast? next) := by
  rcases eq_nil_or_concat as with rfl | ⟨init, last, rfl⟩
  · refine ⟨⟨rfl, rfl, rfl, rfl, rfl⟩, fun b other => if_neg other, ?_, fun _ _ => rfl, fun _ none =>
      absurd none not_mem_nil⟩
    have head : (index.setLink bucket ([] : List CacheAddr).getLast? next).table bucket = next :=
      if_pos rfl
    rw [head]
    exact .nil next
  · rw [concat_eq_append] at path nodup ⊢
    rw [List.getLast?_concat]
    have away : ∀ a, a ≠ last →
        (index.setLink bucket (some last) next).entries a = index.entries a := fun a away => if_neg away
    have here : (index.setLink bucket (some last) next).entries last =
        (index.entries last).map fun record => { record with next := next } := if_pos rfl
    refine ⟨⟨rfl, rfl, rfl, rfl, rfl⟩, fun _ _ => rfl, ?_, fun a outside => ?_, fun a inside => ?_⟩
    · refine path.relink nodup (fun a member => away a ?_) here
      rintro rfl
      exact (nodup_append.mp nodup).2.2 _ member _ (mem_singleton.mpr rfl) rfl
    · refine away a ?_
      rintro rfl
      exact outside (mem_append_right _ (mem_singleton.mpr rfl))
    · by_cases same : a = last
      · subst same
        exact .inr here
      · exact .inl (away a same)

section

variable (repaired : index.Repaired bucket key hash k after)
include repaired

theorem Repaired.relink (sane : saneNext next = true) {linked : EntryIndex}
    (relinked : Relinked after bucket (index.cleanBefore bucket k) next linked) :
    ∀ c ∈ index.cleanBefore bucket k, ∃ record next, c.isInitialized = true ∧
      index.newEntry c = .ok (record, false) ∧ record.isSameEntry key hash = false ∧
      index.update c record = true ∧ linked.entries c = some { record with next := next } ∧
      (index.opened c = true ∨ saneNext next = true) := by
  intro c member
  obtain ⟨record, old, going, clean, other, updated, there, old_sane⟩ := repaired.passed c member
  rcases relinked.inside c member with same | changed
  · exact ⟨record, old, going, clean, other, updated, same.trans there, old_sane⟩
  · refine ⟨record, next, going, clean, other, updated, ?_, .inr sane⟩
    rw [changed, there]
    rfl

theorem Repaired.clean (new : index.chainAt bucket k ∉ index.cleanBefore bucket k)
    (going : (index.chainAt bucket k).isInitialized = true)
    (clean : index.newEntry (index.chainAt bucket k) = .ok (record, false)) :
    after.newEntry (index.chainAt bucket k) = .ok (record, false) ∧
      after.update (index.chainAt bucket k) record = index.update (index.chainAt bucket k) record ∧
      (record.isSameEntry key hash = false → index.update (index.chainAt bucket k) record = true →
        index.Repaired bucket key hash (k + 1) after ∧ record.next = index.chainAt bucket (k + 1)) := by
  obtain ⟨there, accepted⟩ := newEntry_ok.mp clean
  have not_invalid : index.isInvalid (index.chainAt bucket k) = false := by
    rw [isInvalid, clean]
  have kept : after.entries (index.chainAt bucket k) = some record := by
    rw [← there]
    refine repaired.others _ new fun i early invalid same => ?_
    rw [← same, not_invalid] at invalid
    cases invalid
  have sane : index.opened (index.chainAt bucket k) = true ∨ saneNext record.next = true :=
    accepted.imp And.left fun closed => saneNext_of_sanityCheck closed.2.2.1
  obtain ⟨accepted_after, update_same⟩ := newEntry_relinked repaired.same.2.1 repaired.same.2.2.1
    clean kept sane (repaired.node clean)
  refine ⟨accepted_after, update_same, fun other updated => ?_⟩
  have next : record.next = index.chainAt bucket (k + 1) := by
    rw [chainAt, there]
    rfl
  have more : index.cleanBefore bucket (k + 1) = index.cleanBefore bucket k ++ [index.chainAt bucket k] := by
    rw [cleanBefore_succ, if_pos (isClean_iff.mpr ⟨record, clean⟩)]
  refine ⟨⟨repaired.same, repaired.buckets, ?_, ?_, ?_, ?_, ?_, ?_⟩, next⟩
  · rw [more, ← next]
    exact repaired.path.snoc kept
  · rw [more]
    refine nodup_append.mpr ⟨repaired.nodup, nodup_singleton _, fun a member b last => ?_⟩
    rw [mem_singleton.mp last]
    rintro rfl
    exact new member
  · intro c member
    rw [more] at member
    rcases mem_append.mp member with old | last
    · exact repaired.passed c old
    · rw [mem_singleton.mp last]
      exact ⟨record, record.next, going, clean, other, updated, kept, sane⟩
  · intro i early held invalid
    rcases Nat.lt_succ_iff_lt_or_eq.mp early with before | rfl
    · exact repaired.gone i before held invalid
    · rw [clean] at invalid
      cases invalid
  · intro a outside away
    rw [more] at outside
    exact repaired.others a (fun member => outside (mem_append_left _ member))
      fun i early => away i (Nat.lt_succ_of_lt early)
  · intro n
    refine (repaired.nodes n).imp id ?_
    rintro ⟨none, i, early, rest⟩
    exact ⟨none, i, Nat.lt_succ_of_lt early, rest⟩

theorem Repaired.invalid (going : ¬ index.Halts bucket key hash k)
    (invalid : index.newEntry (index.chainAt bucket k) = .ok (record, true)) :
    after.newEntry (index.chainAt bucket k) = .ok (record, true) := by
  obtain ⟨there, accepted⟩ := newEntry_ok.mp invalid
  have node : after.nodes record.rankingsNode = index.nodes record.rankingsNode := by
    rcases repaired.nodes record.rankingsNode with same | ⟨-, i, early, other, earlier, shared⟩
    · exact same
    · exact absurd (.again invalid early earlier shared) going
  have kept : after.entries (index.chainAt bucket k) = some record := by
    rw [← there]
    refine repaired.others _ (fun member => ?_) fun i early earlier same => ?_
    · obtain ⟨-, clean⟩ := mem_cleanBefore.mp member
      obtain ⟨other, clean⟩ := isClean_iff.mp clean
      rw [invalid] at clean
      cases clean
    · rw [same] at invalid
      refine absurd (.again (i := i) ?_ early invalid rfl) going
      rw [same]
      exact invalid
  refine newEntry_ok.mpr ⟨kept, ?_⟩
  rw [repaired.same.2.1, repaired.same.2.2.1, node]
  exact accepted

theorem Repaired.destroy (going : ¬ index.Halts bucket key hash k)
    (invalid : index.newEntry (index.chainAt bucket k) = .ok (record, true)) :
    index.Repaired bucket key hash (k + 1)
      ((after.setLink bucket (index.cleanBefore bucket k).getLast? record.next).destroyInvalidEntry
        (index.chainAt bucket k) record) := by
  have still := repaired.invalid going invalid
  obtain ⟨there, accepted⟩ := newEntry_ok.mp invalid
  have not_clean : index.isClean (index.chainAt bucket k) = false := by
    rw [isClean, invalid]
  have outside : index.chainAt bucket k ∉ index.cleanBefore bucket k := by
    intro member
    rw [(mem_cleanBefore.mp member).2] at not_clean
    cases not_clean
  have more : index.cleanBefore bucket (k + 1) = index.cleanBefore bucket k := by
    rw [cleanBefore_succ, not_clean]
    exact append_nil _
  have next : record.next = index.chainAt bucket (k + 1) := by
    rw [chainAt, there]
    rfl
  have sane : saneNext record.next = true := by
    rcases accepted with ⟨-, dirty⟩ | ⟨-, -, checked, -⟩
    · cases dirty
    · exact saneNext_of_sanityCheck checked
  have removable : (index.nodes record.rankingsNode).any NodeRecord.removable = true := by
    by_contra broken
    exact going (.broken invalid (by simpa using broken))
  have relinked := setLink_relinked repaired.path repaired.nodup record.next
  have passed := repaired.relink sane relinked
  generalize after.setLink bucket (index.cleanBefore bucket k).getLast? record.next = linked
    at relinked passed
  obtain ⟨mask, opened, current, disabled, nodes⟩ := relinked.same
  have here : (linked.destroyInvalidEntry (index.chainAt bucket k) record).entries
      (index.chainAt bucket k) = none := if_pos rfl
  have away : ∀ a, a ≠ index.chainAt bucket k →
      (linked.destroyInvalidEntry (index.chainAt bucket k) record).entries a = linked.entries a :=
    fun a away => if_neg away
  have clean_away : ∀ c ∈ index.cleanBefore bucket k, c ≠ index.chainAt bucket k := by
    rintro c member rfl
    exact outside member
  have node : linked.nodes record.rankingsNode = index.nodes record.rankingsNode := by
    rw [nodes]
    rcases repaired.nodes record.rankingsNode with same | ⟨-, i, early, other, earlier, shared⟩
    · exact same
    · exact absurd (.again invalid early earlier shared) going
  refine ⟨⟨mask.trans repaired.same.1, opened.trans repaired.same.2.1,
    current.trans repaired.same.2.2.1, ?_⟩, fun b other => (relinked.buckets b other).trans
    (repaired.buckets b other), ?_, ?_, ?_, ?_, ?_, ?_⟩
  · rw [destroyInvalidEntry]
    simp only [node, removable, disabled, repaired.same.2.2.2, Bool.not_true, Bool.or_self]
  · rw [more, ← next]
    exact relinked.path.congr fun c member => away c (clean_away c member)
  · rw [more]
    exact repaired.nodup
  · intro c member
    rw [more] at member
    obtain ⟨held, link, rest⟩ := passed c member
    refine ⟨held, link, ?_⟩
    rw [away c (clean_away c member)]
    exact rest
  · intro i early held dirty
    by_cases same : index.chainAt bucket i = index.chainAt bucket k
    · rw [same] at dirty ⊢
      rw [invalid] at dirty
      cases dirty
      exact ⟨here, if_pos rfl⟩
    · have before : i < k := by
        rcases Nat.lt_succ_iff_lt_or_eq.mp early with before | rfl
        · exact before
        · exact absurd rfl same
      obtain ⟨lost, cleared⟩ := repaired.gone i before held dirty
      constructor
      · rw [away _ same, relinked.others]
        · exact lost
        · intro member
          obtain ⟨_, _, -, -, -, -, there, -⟩ := repaired.passed _ member
          rw [lost] at there
          cases there
      · rw [destroyInvalidEntry]
        simp only [nodes, cleared, ite_self]
  · intro a not_clean_a not_gone
    rw [more] at not_clean_a
    have not_here : a ≠ index.chainAt bucket k :=
      not_gone k (Nat.lt_succ_self k) (isInvalid_iff.mpr ⟨record, invalid⟩)
    rw [away a not_here, relinked.others a not_clean_a]
    exact repaired.others a not_clean_a fun i early => not_gone i (Nat.lt_succ_of_lt early)
  · intro n
    by_cases cleared : n = record.rankingsNode
    · refine .inr ⟨if_pos cleared, k, Nat.lt_succ_self k, record, invalid, cleared.symm⟩
    · have kept : (linked.destroyInvalidEntry (index.chainAt bucket k) record).nodes n =
          after.nodes n := (if_neg cleared).trans (by rw [nodes])
      rw [kept]
      refine (repaired.nodes n).imp id ?_
      rintro ⟨none, i, early, rest⟩
      exact ⟨none, i, Nat.lt_succ_of_lt early, rest⟩

end

theorem Repaired.step (repaired : index.Repaired (hash &&& index.mask) key hash k after)
    (findParent : Bool) (going : ¬ index.Halts (hash &&& index.mask) key hash k)
    (new : index.chainAt (hash &&& index.mask) k ∉ index.cleanBefore (hash &&& index.mask) k) :
    ∃ next, index.Repaired (hash &&& index.mask) key hash (k + 1) next ∧
      Passes (matchStep key hash findParent) ⟨after, index.chainAt (hash &&& index.mask) k,
        (index.cleanBefore (hash &&& index.mask) k).getLast?⟩
      ⟨next, index.chainAt (hash &&& index.mask) (k + 1),
        (index.cleanBefore (hash &&& index.mask) (k + 1)).getLast?⟩ := by
  have initialized : (index.chainAt (hash &&& index.mask) k).isInitialized = true := by
    by_contra at_end
    exact going (.end_ (by simpa using at_end))
  have enabled := repaired.same.2.2.2
  cases there : index.newEntry (index.chainAt (hash &&& index.mask) k) with
  | error error => exact absurd (.unusable there) going
  | ok accepted =>
    obtain ⟨record, dirty⟩ := accepted
    cases dirty with
    | true =>
      refine ⟨_, repaired.destroy going there, ?_⟩
      have pass := matchStep_invalid key hash findParent
        (index.cleanBefore (hash &&& index.mask) k).getLast? enabled initialized (repaired.invalid going there)
      rw [repaired.same.1] at pass
      have next := repaired.destroy going there
      generalize (after.setLink (hash &&& index.mask)
        (index.cleanBefore (hash &&& index.mask) k).getLast? record.next).destroyInvalidEntry
          (index.chainAt (hash &&& index.mask) k) record = destroyed at pass next
      refine .head pass ?_
      rw [lookup, next.same.1]
      exact next.passable.returns findParent next.path
    | false =>
      obtain ⟨clean, update_same, rest⟩ := repaired.clean new initialized there
      have other : record.isSameEntry key hash = false := by
        by_contra same
        exact going (.found there (.inl (by simpa using same)))
      have updated : index.update (index.chainAt (hash &&& index.mask) k) record = true := by
        by_contra failed
        exact going (.found there (.inr (by simpa using failed)))
      obtain ⟨next, next_eq⟩ := rest other updated
      refine ⟨after, next, .single ?_⟩
      rw [matchStep_other enabled initialized clean other, update_same, updated, if_pos rfl, next_eq,
        cleanBefore_succ, if_pos (isClean_iff.mpr ⟨record, there⟩), List.getLast?_concat]

theorem Repaired.accepted (repaired : index.Repaired bucket key hash k after)
    (outside : a ∉ index.cleanBefore bucket k) (accepted : after.newEntry a = .ok (record, dirty)) :
    index.newEntry a = .ok (record, dirty) ∧ (dirty = true →
      after.nodes record.rankingsNode = index.nodes record.rankingsNode) := by
  obtain ⟨there, accepted⟩ := newEntry_ok.mp accepted
  have kept : index.entries a = some record := by
    rw [← there, repaired.others a outside]
    rintro i early invalid rfl
    obtain ⟨held, invalid⟩ := isInvalid_iff.mp invalid
    rw [(repaired.gone i early held invalid).1] at there
    cases there
  rw [repaired.same.2.1, repaired.same.2.2.1] at accepted
  rcases accepted with opened | ⟨closed, block, sane, node, loaded, links⟩
  · refine ⟨newEntry_ok.mpr ⟨kept, .inl opened⟩, fun invalid => ?_⟩
    rw [opened.2] at invalid
    cases invalid
  · have same : after.nodes record.rankingsNode = index.nodes record.rankingsNode := by
      rcases repaired.nodes record.rankingsNode with same | ⟨cleared, -⟩
      · exact same
      · rw [cleared] at loaded
        cases loaded
    rw [same] at loaded
    exact ⟨newEntry_ok.mpr ⟨kept, .inr ⟨closed, block, sane, node, loaded, links⟩⟩, fun _ => same⟩

theorem Repaired.ends_error (repaired : index.Repaired (hash &&& index.mask) key hash k after)
    (findParent : Bool) (going : (index.chainAt (hash &&& index.mask) k).isInitialized = true)
    (unusable : after.newEntry (index.chainAt (hash &&& index.mask) k) = .error error) :
    ∃ result, Ends (matchStep key hash findParent) ⟨after, index.chainAt (hash &&& index.mask) k,
      (index.cleanBefore (hash &&& index.mask) k).getLast?⟩ result := by
  have pass := matchStep_error key hash findParent
    (index.cleanBefore (hash &&& index.mask) k).getLast? repaired.same.2.2.2 going unusable
  rw [repaired.same.1] at pass
  have relinked := setLink_relinked repaired.path repaired.nodup 0
  have passed := repaired.relink rfl relinked
  generalize after.setLink (hash &&& index.mask)
    (index.cleanBefore (hash &&& index.mask) k).getLast? 0 = linked at pass relinked passed
  obtain ⟨mask, opened, current, disabled, nodes⟩ := relinked.same
  have enabled : linked.disabled = false := disabled.trans repaired.same.2.2.2
  have passable : Passable index key hash (index.cleanBefore (hash &&& index.mask) k) linked := by
    refine ⟨⟨opened.trans repaired.same.2.1, current.trans repaired.same.2.2.1, enabled⟩, passed,
      fun clean closed => ?_⟩
    rw [nodes]
    exact repaired.node clean closed
  have at_end : Ends (matchStep key hash findParent)
      ⟨linked, 0, (index.cleanBefore (hash &&& index.mask) k).getLast?⟩
      (linked, if findParent then (index.cleanBefore (hash &&& index.mask) k).getLast? else none) :=
    ends_done (matchStep_end enabled rfl)
  have restarted := ((passable.returns findParent relinked.path).ends _).mpr at_end
  rw [lookup, mask, repaired.same.1] at pass
  exact ⟨_, (ends_step pass _).mpr restarted⟩

theorem Repaired.halts_new (repaired : index.Repaired bucket key hash k after)
    (halts : index.Halts bucket key hash k) : index.chainAt bucket k ∉ index.cleanBefore bucket k := by
  intro member
  obtain ⟨record, next, going, clean, other, updated, -, -⟩ := repaired.passed _ member
  cases halts with
  | end_ at_end =>
    rw [going] at at_end
    cases at_end
  | unusable unusable =>
    rw [clean] at unusable
    cases unusable
  | found same ends =>
    rw [clean] at same
    cases same
    rw [other, updated] at ends
    simp at ends
  | broken invalid _ =>
    rw [clean] at invalid
    cases invalid
  | again invalid _ _ _ =>
    rw [clean] at invalid
    cases invalid

theorem Repaired.ends (repaired : index.Repaired (hash &&& index.mask) key hash k after)
    (findParent : Bool) (halts : index.Halts (hash &&& index.mask) key hash k) :
    ∃ result, Ends (matchStep key hash findParent) ⟨after, index.chainAt (hash &&& index.mask) k,
      (index.cleanBefore (hash &&& index.mask) k).getLast?⟩ result := by
  have enabled := repaired.same.2.2.2
  have new := repaired.halts_new halts
  by_cases going : (index.chainAt (hash &&& index.mask) k).isInitialized = true
  swap
  · exact ⟨_, ends_done (matchStep_end enabled (by simpa using going))⟩
  cases there : after.newEntry (index.chainAt (hash &&& index.mask) k) with
  | error error => exact repaired.ends_error findParent going there
  | ok accepted =>
    obtain ⟨record, dirty⟩ := accepted
    obtain ⟨was, node⟩ := repaired.accepted new there
    cases halts with
    | end_ at_end =>
      rw [going] at at_end
      cases at_end
    | unusable unusable =>
      rw [was] at unusable
      cases unusable
    | found clean ends =>
      rw [was] at clean
      cases clean
      cases same : record.isSameEntry key hash with
      | true => exact ⟨_, ends_done (matchStep_same enabled going there same)⟩
      | false =>
        have failed : after.update (index.chainAt (hash &&& index.mask) k) record = false := by
          rw [(repaired.clean new going was).2.1]
          exact ends.resolve_left (by rw [same]; simp)
        refine ⟨(after, none), ends_done ?_⟩
        rw [matchStep_other enabled going there same, failed]
        rfl
    | broken invalid broken =>
      rw [was] at invalid
      cases invalid
      refine ⟨_, (ends_step (matchStep_invalid _ _ _ _ enabled going there) _).mpr
        (ends_done (matchStep_disabled ?_))⟩
      have same := (setLink_relinked repaired.path repaired.nodup record.next).same.2.2.2.2
      rw [repaired.same.1, destroyInvalidEntry]
      simp only [same, node rfl, broken, Bool.not_false, Bool.or_true]
    | again invalid early earlier shared =>
      rw [was] at invalid
      cases invalid
      have cleared := (repaired.gone _ early _ earlier).2
      obtain ⟨-, accepted⟩ := newEntry_ok.mp there
      rcases accepted with ⟨-, not_dirty⟩ | ⟨-, -, -, held, loaded, -⟩
      · cases not_dirty
      · rw [← shared, cleared] at loaded
        cases loaded

def Event (index : EntryIndex) (key : List UInt8) (hash : UInt32) (k : Nat) : Prop :=
  index.Halts (hash &&& index.mask) key hash k ∨
    index.chainAt (hash &&& index.mask) k ∈ index.cleanBefore (hash &&& index.mask) k

theorem repaired_zero (enabled : index.disabled = false) :
    index.Repaired (hash &&& index.mask) key hash 0 index :=
  ⟨⟨rfl, rfl, rfl, enabled⟩, fun _ _ => rfl, .nil _, nodup_nil,
    fun _ none => absurd none not_mem_nil, fun _ early => absurd early (Nat.not_lt_zero _),
    fun _ _ _ => rfl, fun _ => .inl rfl⟩

theorem reaches (enabled : index.disabled = false) (findParent : Bool)
    (quiet : ∀ j < k, ¬ Event index key hash j) :
    ∃ after, index.Repaired (hash &&& index.mask) key hash k after ∧
      Passes (matchStep key hash findParent) (lookup hash index) ⟨after, index.chainAt (hash &&& index.mask) k,
          (index.cleanBefore (hash &&& index.mask) k).getLast?⟩ := by
  induction k with
  | zero => exact ⟨index, repaired_zero enabled, .refl⟩
  | succ k ih =>
    obtain ⟨after, repaired, passes⟩ := ih fun j early => quiet j (Nat.lt_succ_of_lt early)
    have none := quiet k (Nat.lt_succ_self k)
    obtain ⟨next, repaired', more⟩ := repaired.step findParent (fun halts => none (.inl halts))
      (fun back => none (.inr back))
    exact ⟨next, repaired', passes.trans more⟩

theorem repeated_invalid {i j : Nat} (earlier : i < j) (quiet : ¬ Event index key hash j)
    (same : index.chainAt (hash &&& index.mask) i = index.chainAt (hash &&& index.mask) j) :
    index.isInvalid (index.chainAt (hash &&& index.mask) j) = true := by
  cases there : index.newEntry (index.chainAt (hash &&& index.mask) j) with
  | error error => exact absurd (.inl (.unusable there)) quiet
  | ok accepted =>
    obtain ⟨record, dirty⟩ := accepted
    cases dirty with
    | true => exact isInvalid_iff.mpr ⟨record, there⟩
    | false =>
      refine absurd (.inr ?_) quiet
      exact mem_cleanBefore.mpr ⟨⟨i, earlier, same⟩, isClean_iff.mpr ⟨record, there⟩⟩

theorem exists_event (index : EntryIndex) (key : List UInt8) (hash : UInt32) : ∃ k, Event index key hash k := by
  by_contra none
  have quiet : ∀ k, ¬ Event index key hash k := fun k event => none ⟨k, event⟩
  have apart : ∀ i j, i < j → index.chainAt (hash &&& index.mask) i ≠ index.chainAt (hash &&& index.mask) j := by
    intro i j earlier same
    obtain ⟨record, there⟩ := isInvalid_iff.mp (repeated_invalid earlier (quiet j) same)
    exact quiet j (.inl (.again there earlier (by rw [same]; exact there) rfl))
  have injective : Function.Injective fun k => (index.chainAt (hash &&& index.mask) k).toFin := by
    intro i j same
    by_contra other
    rcases Nat.lt_or_gt_of_ne other with before | behind
    · exact apart i j before (UInt32.toFin_inj.mp same)
    · exact apart j i behind (UInt32.toFin_inj.mp same.symm)
  exact not_injective_infinite_finite _ injective

def ChainStops (index : EntryIndex) (key : List UInt8) (hash : UInt32) : Prop :=
  ∃ k, index.Halts (hash &&& index.mask) key hash k ∧ ∀ i j, i < j → j < k →
    index.chainAt (hash &&& index.mask) i = index.chainAt (hash &&& index.mask) j →
    index.isInvalid (index.chainAt (hash &&& index.mask) i) = true

theorem matchEntry_ends_iff (index : EntryIndex) (key : List UInt8) (hash : UInt32) (findParent : Bool) :
    (∃ result, Ends (matchStep key hash findParent) (lookup hash index) result) ↔
      index.disabled = true ∨ index.ChainStops key hash := by
  by_cases disabled : index.disabled = true
  · exact iff_of_true ⟨_, ends_done (matchStep_disabled disabled)⟩ (.inl disabled)
  rw [or_iff_right disabled]
  have enabled : index.disabled = false := by simpa using disabled
  classical
  have some_event := exists_event index key hash
  have event := Nat.find_spec some_event
  have quiet : ∀ j < Nat.find some_event, ¬ Event index key hash j :=
    fun j early => Nat.find_min some_event early
  have least : ∀ k, Event index key hash k → Nat.find some_event ≤ k :=
    fun k event => Nat.find_min' some_event event
  generalize Nat.find some_event = k at event quiet least
  obtain ⟨after, repaired, passes⟩ := reaches enabled findParent quiet
  by_cases halts : index.Halts (hash &&& index.mask) key hash k
  · refine iff_of_true ?_ ⟨k, halts, fun i j earlier early same => ?_⟩
    · obtain ⟨result, ends⟩ := repaired.ends findParent halts
      exact ⟨result, (passes.ends result).mpr ends⟩
    · rw [same]
      exact repeated_invalid earlier (quiet j early) same
  · have back := event.resolve_left halts
    refine iff_of_false ?_ ?_
    · rintro ⟨result, ends⟩
      exact repaired.never findParent back _ result ((passes.ends result).mp ends)
    · rintro ⟨stop, halts_there, invalid⟩
      obtain ⟨⟨i, earlier, same⟩, clean⟩ := mem_cleanBefore.mp back
      rcases Nat.lt_or_eq_of_le (least stop (.inl halts_there)) with before | rfl
      · have dirty := invalid i k earlier before same
        obtain ⟨record, dirty⟩ := isInvalid_iff.mp dirty
        obtain ⟨held, clean⟩ := isClean_iff.mp clean
        rw [same, clean] at dirty
        cases dirty
      · exact halts halts_there

/-- The places of a chain at which the inner loop of `CheckAllEntries` ends. -/
inductive CheckHalts (index : EntryIndex) (bucket : UInt32) (k : Nat) : Prop where
  | unusable {error : Int} : index.newEntry (index.chainAt bucket k) = .error error →
      CheckHalts index bucket k
  | rejected {record : EntryRecord} : index.newEntry (index.chainAt bucket k) = .ok (record, false) →
      index.checkEntry record = false → CheckHalts index bucket k
  | last {record : EntryRecord} {dirty : Bool} :
      index.newEntry (index.chainAt bucket k) = .ok (record, dirty) →
      record.next.isInitialized = false → CheckHalts index bucket k

theorem checkStep_halts (halts : CheckHalts index bucket k) (numDirty numEntries : Nat) :
    ∃ result, checkStep index (index.chainAt bucket k, numDirty, numEntries) = .inr result := by
  cases halts with
  | unusable there =>
    rw [checkStep]
    simp only [there]
    exact ⟨_, rfl⟩
  | rejected there rejected =>
    rw [checkStep]
    simp only [there, rejected]
    exact ⟨_, rfl⟩
  | @last record dirty there at_end =>
    rw [checkStep]
    cases dirty with
    | true =>
      simp only [there, at_end, Bool.false_eq_true, if_false]
      exact ⟨_, rfl⟩
    | false =>
      cases checked : index.checkEntry record with
      | true =>
        simp only [there, at_end, checked, Bool.false_eq_true, if_false, if_true]
        exact ⟨_, rfl⟩
      | false =>
        simp only [there, checked, Bool.false_eq_true, if_false]
        exact ⟨_, rfl⟩

theorem checkStep_moves (going : ¬ CheckHalts index bucket k) (numDirty numEntries : Nat) :
    ∃ dirty entries, checkStep index (index.chainAt bucket k, numDirty, numEntries) =
      .inl (index.chainAt bucket (k + 1), dirty, entries) := by
  rw [checkStep]
  cases there : index.newEntry (index.chainAt bucket k) with
  | error error => exact absurd (.unusable there) going
  | ok accepted =>
    obtain ⟨record, dirty⟩ := accepted
    have next : record.next = index.chainAt bucket (k + 1) := by
      rw [chainAt, (newEntry_ok.mp there).1]
      rfl
    have more : record.next.isInitialized = true := by
      by_contra at_end
      exact going (.last there (by simpa using at_end))
    rw [← next]
    cases dirty with
    | true =>
      simp only [more, if_true]
      exact ⟨_, _, rfl⟩
    | false =>
      have checked : index.checkEntry record = true := by
        by_contra rejected
        exact going (.rejected there (by simpa using rejected))
      simp only [checked, more, if_true]
      exact ⟨_, _, rfl⟩

theorem checkAllEntries_ends_iff (index : EntryIndex) (bucket : UInt32) :
    (∃ result, Ends (checkStep index) (index.table bucket, 0, 0) result) ↔ ∃ k, CheckHalts index bucket k := by
  constructor
  · rintro ⟨result, ends⟩
    by_contra none
    refine never_ends (P := fun state => ∃ k, state.1 = index.chainAt bucket k) ?_ ⟨0, rfl⟩ result ends
    rintro ⟨_, numDirty, numEntries⟩ ⟨k, rfl⟩
    obtain ⟨dirty, entries, pass⟩ :=
      checkStep_moves (fun halts => none ⟨k, halts⟩) numDirty numEntries
    exact ⟨_, pass, k + 1, rfl⟩
  · rintro ⟨k, halts⟩
    have from_place : ∀ n i numDirty numEntries, i + n = k →
        ∃ result, Ends (checkStep index) (index.chainAt bucket i, numDirty, numEntries) result := by
      intro n
      induction n with
      | zero =>
        rintro i numDirty numEntries rfl
        obtain ⟨result, done⟩ := checkStep_halts halts numDirty numEntries
        exact ⟨result, ends_done done⟩
      | succ n ih =>
        intro i numDirty numEntries place
        by_cases here : CheckHalts index bucket i
        · obtain ⟨result, done⟩ := checkStep_halts here numDirty numEntries
          exact ⟨result, ends_done done⟩
        · obtain ⟨dirty, entries, pass⟩ := checkStep_moves here numDirty numEntries
          obtain ⟨result, ends⟩ := ih (i + 1) dirty entries (by omega)
          exact ⟨result, (ends_step pass result).mpr ends⟩
    exact from_place k 0 0 0 (Nat.zero_add k)

/-- When `MatchEntry` ends, and when the inner loop of `CheckAllEntries` does. -/
theorem index_loops_end_iff (index : EntryIndex) (key : List UInt8) (hash : UInt32)
    (findParent : Bool) (bucket : UInt32) :
    ((∃ result, Ends (matchStep key hash findParent) (lookup hash index) result) ↔
        index.disabled = true ∨ index.ChainStops key hash) ∧
      ((∃ result, Ends (checkStep index) (index.table bucket, 0, 0) result) ↔ ∃ k, CheckHalts index bucket k) :=
  ⟨matchEntry_ends_iff index key hash findParent, checkAllEntries_ends_iff index bucket⟩

/-- A clean entry that is its own successor, with another key than the one that is looked up. -/
theorem linked_to_itself_never_ends : ¬ ∀ (index : EntryIndex) (key : List UInt8) (hash : UInt32)
    (findParent : Bool) (bucket : UInt32),
    (∃ result, Ends (matchStep key hash findParent) (lookup hash index) result) ∧
      ∃ result, Ends (checkStep index) (index.table bucket, 0, 0) result := by
  intro claim
  obtain ⟨result, ends⟩ := (claim ⟨fun _ => 0xA0000001, 0xFFFF,
      fun a => if a = 0xA0000001 then some ⟨7, 0xA0000001, 0x90000001, 1, [97], .normal⟩ else none,
      fun n => if n = 0x90000001 then some ⟨0, 0, true, true, true⟩ else none,
      fun _ => false, 1, false⟩ [98] 8 false 8).1
  refine never_ends (P := fun state => state.index = ⟨fun _ => 0xA0000001, 0xFFFF,
      fun a => if a = 0xA0000001 then some ⟨7, 0xA0000001, 0x90000001, 1, [97], .normal⟩ else none,
      fun n => if n = 0x90000001 then some ⟨0, 0, true, true, true⟩ else none,
      fun _ => false, 1, false⟩ ∧ state.address = 0xA0000001) ?_ ⟨rfl, rfl⟩ result ends
  rintro ⟨_, _, parent⟩ ⟨rfl, rfl⟩
  exact ⟨_, rfl, rfl, rfl⟩

end EntryIndex

end Glopen.Cache
